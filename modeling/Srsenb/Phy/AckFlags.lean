import Srsenb.Phy.Worker

/-! # What the decoders make of the flags -/

namespace Srsenb.Phy

/-! ## One flag -/

namespace CommonDb

variable {db : CommonDb} {sf sl rnti r : Nat} {tb t : Fin 2}

theorem pend_insert (db : CommonDb) (rnti : Nat) (u : CommonUe) (sl r : Nat) (t : Fin 2) :
    pend (db.insert rnti u) sl r t =
      if r = rnti then u.pendingAck.isPending sl t else pend db sl r t := by
  unfold pend
  rw [StdMap.getElem?_insert]
  by_cases h : rnti = r
  · rw [if_pos h, if_pos h.symm]
  · rw [if_neg h, if_neg (Ne.symm h)]

theorem pend_of_get {u : CommonUe} (h : db[rnti]? = some u) :
    pend db sl rnti t = u.pendingAck.isPending sl t := by
  unfold pend
  rw [h]

theorem pend_of_none (h : db[rnti]? = none) : pend db sl rnti t = false := by
  unfold pend
  rw [h]

theorem pend_addRnti : pend (addRnti db rnti) sl r t = (decide (r ≠ rnti) && pend db sl r t) := by
  unfold addRnti StdMap.update
  rw [pend_insert]
  by_cases h : r = rnti <;> simp [h]

theorem pend_erase : pend (db.erase rnti) sl r t = (decide (r ≠ rnti) && pend db sl r t) := by
  unfold pend
  rw [StdMap.getElem?_erase]
  by_cases h : rnti = r
  · simp [h]
  · simp [h, Ne.symm h]

theorem pend_clear : pend (clear db sf) sl r t = (decide (sl ≠ sf) && pend db sl r t) := by
  unfold pend clear
  rw [Std.ExtTreeMap.getElem?_map]
  cases db[r]? with
  | none => simp
  | some u => by_cases h : sl = sf <;> simp [h]

theorem isSome_clear : (clear db sf)[r]?.isSome = db[r]?.isSome := by
  unfold clear
  rw [Std.ExtTreeMap.getElem?_map, Option.isSome_map]

theorem pend_setAckPending {n : Nat} :
    pend (setAckPending db sf rnti tb n) sl r t =
      (pend db sl r t || (decide (sl = sf ∧ r = rnti ∧ t = tb) && db[rnti]?.isSome)) := by
  unfold setAckPending
  cases h : db[rnti]? with
  | none => simp
  | some u =>
    simp only [pend_insert, setFlag]
    by_cases hr : r = rnti
    · subst hr
      rw [pend_of_get h]
      by_cases hst : sl = sf ∧ t = tb <;> simp [hst]
    · simp [hr]

theorem isSome_setAckPending {n : Nat} :
    (setAckPending db sf rnti tb n)[r]?.isSome = db[r]?.isSome := by
  unfold setAckPending
  cases h : db[rnti]? with
  | none => rfl
  | some u =>
    rw [StdMap.getElem?_insert]
    by_cases hr : rnti = r
    · subst hr
      simp [h]
    · rw [if_neg hr]

theorem isAckPending_fst : (isAckPending db sf rnti tb).1 = pend db sf rnti tb := by
  unfold isAckPending pend
  split <;> rfl

theorem pend_isAckPending :
    pend (isAckPending db sf rnti tb).2 sl r t =
      (pend db sl r t && !decide (sl = sf ∧ r = rnti ∧ t = tb)) := by
  unfold isAckPending
  cases h : db[rnti]? with
  | none =>
    by_cases hr : r = rnti
    · subst hr
      simp [pend_of_none h]
    · simp [hr]
  | some u =>
    simp only [pend_insert, setFlag]
    by_cases hr : r = rnti
    · subst hr
      rw [pend_of_get h]
      by_cases hst : sl = sf ∧ t = tb <;> simp [hst]
    · simp [hr]

theorem isSome_isAckPending (h : db[r]?.isSome = true) :
    (isAckPending db sf rnti tb).2[r]?.isSome = true := by
  unfold isAckPending
  split
  · rw [StdMap.getElem?_insert]
    split_ifs
    · rfl
    · exact h
  · exact h

theorem pend_setLastUlTbs : pend (setLastUlTbs db rnti) sl r t = pend db sl r t := by
  unfold setLastUlTbs
  by_cases h : db[rnti]?.isSome = true
  · rw [if_pos h]
  · rw [if_neg h, pend_addRnti]
    by_cases hr : r = rnti
    · subst hr
      rw [pend_of_none (by simpa using h)]
      simp
    · simp [hr]

theorem isSome_addRnti (h : db[r]?.isSome = true ∨ r = rnti) :
    (addRnti db rnti)[r]?.isSome = true := by
  unfold addRnti
  rw [StdMap.getElem?_update]
  by_cases hr : rnti = r
  · rw [if_pos hr]
    rfl
  · rw [if_neg hr]
    exact h.resolve_right (Ne.symm hr)

theorem isSome_setLastUlTbs (h : db[r]?.isSome = true) :
    (setLastUlTbs db rnti)[r]?.isSome = true := by
  unfold setLastUlTbs
  split_ifs
  · exact h
  · exact isSome_addRnti (Or.inl h)

/-- The flags of both transport blocks are read. -/
def isAckPendings (db : CommonDb) (sf rnti : Nat) : CommonDb :=
  (isAckPending (isAckPending db sf rnti 0).2 sf rnti 1).2

theorem pend_isAckPendings :
    pend (isAckPendings db sf rnti) sl r t = (pend db sl r t && !decide (sl = sf ∧ r = rnti)) := by
  unfold isAckPendings
  rw [pend_isAckPending, pend_isAckPending]
  match t with
  | 0 => simp
  | 1 => simp

theorem isAckPending_snd (db : CommonDb) (sf rnti : Nat) :
    (isAckPending (isAckPending db sf rnti 0).2 sf rnti 1).1 = pend db sf rnti 1 := by
  rw [isAckPending_fst, pend_isAckPending]
  simp

theorem isSome_isAckPendings (h : db[r]?.isSome = true) :
    (isAckPendings db sf rnti)[r]?.isSome = true :=
  isSome_isAckPending (isSome_isAckPending h)

end CommonDb

/-! ## Reading a slot -/

open CommonDb

/-- The block that a call is about. -/
def AckInfo.block (c : AckInfo) : Nat × Fin 2 := (c.rnti, c.tb)

/-- A decoder on the slot `sl`, with its calls so far: each call has used up a flag. -/
structure Reads (sl : Nat) (db0 db : CommonDb) (calls : List AckInfo) : Prop where
  other : ∀ s r t, s ≠ sl → pend db s r t = pend db0 s r t
  less : ∀ r t, pend db sl r t = true → pend db0 sl r t = true
  used : ∀ c ∈ calls, pend db0 sl c.rnti c.tb = true ∧ pend db sl c.rnti c.tb = false
  once : (calls.map AckInfo.block).Nodup
  keeps : ∀ r : Nat, db0[r]?.isSome = true → db[r]?.isSome = true

variable {sl rnti r : Nat} {t : Fin 2} {db0 db db' : CommonDb} {calls : List AckInfo}

theorem Reads.refl (sl : Nat) (db : CommonDb) : Reads sl db db [] where
  other := fun _ _ _ _ => rfl
  less := fun _ _ h => h
  used := by simp
  once := .nil
  keeps := fun _ h => h

/-- The same flags, and no user less. -/
theorem Reads.same (h : Reads sl db0 db calls) (hp : ∀ s r t, pend db' s r t = pend db s r t)
    (hk : ∀ r : Nat, db[r]?.isSome = true → db'[r]?.isSome = true) : Reads sl db0 db' calls where
  other := fun s r t hs => (hp s r t).trans (h.other s r t hs)
  less := fun r t hr => h.less r t (hp sl r t ▸ hr)
  used := fun c hc => ⟨(h.used c hc).1, (hp sl c.rnti c.tb).trans (h.used c hc).2⟩
  once := h.once
  keeps := fun r hr => hk r (h.keeps r hr)

/-- The flags of a user are read, and reported or not. -/
theorem Reads.drop (h : Reads sl db0 db calls) (rnti : Nat) :
    Reads sl db0 (isAckPendings db sl rnti) calls where
  other := by
    intro s r t hs
    rw [pend_isAckPendings, ← h.other s r t hs]
    simp [hs]
  less := by
    intro r t hr
    rw [pend_isAckPendings, Bool.and_eq_true] at hr
    exact h.less r t hr.1
  used := by
    intro c hc
    refine ⟨(h.used c hc).1, ?_⟩
    rw [pend_isAckPendings, (h.used c hc).2, Bool.false_and]
  once := h.once
  keeps := fun r hr => isSome_isAckPendings (h.keeps r hr)

theorem mem_ackInfos {a0 a1 x y v : Bool} {c : AckInfo} (hc : c ∈ ackInfos rnti a0 a1 x y v) :
    c.rnti = rnti ∧ (c.tb = 0 ∧ a0 = true ∨ c.tb = 1 ∧ a1 = true) := by
  unfold ackInfos at hc
  cases a0 <;> cases a1 <;> simp at hc
  · subst hc
    simp
  · subst hc
    simp
  · rcases hc with rfl | rfl <;> simp

theorem ackInfos_once {a0 a1 x y v : Bool} :
    ((ackInfos rnti a0 a1 x y v).map AckInfo.block).Nodup := by
  unfold ackInfos
  cases a0 <;> cases a1 <;> simp [AckInfo.block]

theorem exists_ackInfo (x y v : Bool) (h : pend db sl rnti t = true) :
    ∃ c ∈ ackInfos rnti (pend db sl rnti 0) (pend db sl rnti 1) x y v, c.block = (rnti, t) := by
  unfold ackInfos
  match t with
  | 0 =>
    rw [if_pos h]
    exact ⟨_, List.mem_append_left _ (List.mem_singleton_self _), rfl⟩
  | 1 =>
    rw [h, if_pos rfl]
    exact ⟨_, List.mem_append_right _ (List.mem_singleton_self _), rfl⟩

theorem Reads.report {x y v : Bool} (h : Reads sl db0 db calls) :
    Reads sl db0 (isAckPendings db sl rnti)
      (calls ++ ackInfos rnti (pend db sl rnti 0) (pend db sl rnti 1) x y v) := by
  have hdrop := h.drop rnti
  have hnew : ∀ c ∈ ackInfos rnti (pend db sl rnti 0) (pend db sl rnti 1) x y v,
      c.rnti = rnti ∧ pend db sl rnti c.tb = true := by
    intro c hc
    obtain ⟨hr, ⟨ht, hp⟩ | ⟨ht, hp⟩⟩ := mem_ackInfos hc
    · exact ⟨hr, by rw [ht]; exact hp⟩
    · exact ⟨hr, by rw [ht]; exact hp⟩
  refine { hdrop with used := ?_, once := ?_ }
  · intro c hc
    rcases List.mem_append.mp hc with hc | hc
    · exact hdrop.used c hc
    · obtain ⟨hr, hp⟩ := hnew c hc
      rw [hr, pend_isAckPendings]
      exact ⟨h.less _ _ hp, by simp⟩
  · rw [List.map_append, List.nodup_append]
    refine ⟨h.once, ackInfos_once, ?_⟩
    intro a ha b hb hab
    obtain ⟨c, hc, rfl⟩ := List.mem_map.mp ha
    obtain ⟨d, hd, rfl⟩ := List.mem_map.mp hb
    -- A flag that an earlier call used up is not set any more.
    obtain ⟨hr, hp⟩ := hnew d hd
    obtain ⟨hcr, hct⟩ := Prod.mk.inj hab
    have := (h.used c hc).2
    rw [hcr, hct, hr, hp] at this
    cases this

/-! ## PUSCH -/

section Pusch

variable {tti : Nat} {g : Pusch} {gs pusch : List Pusch} {ueDb : UeDb}

/-- The user of a grant is marked. -/
def grantUser (ueDb : UeDb) (rnti tti : Nat) : UeDb :=
  StdMap.update ueDb rnti fun u => { u with hasGrantTti := tti }

theorem decodePusch_skip (hr : g.rnti = 0) :
    decodePusch tti (g :: gs) db ueDb calls = decodePusch tti gs db ueDb calls := by
  rw [decodePusch, if_neg (by simp [hr])]

theorem decodePusch_ok (hr : g.rnti ≠ 0) (hg : g.grantOk = true) :
    decodePusch tti (g :: gs) db ueDb calls =
      decodePusch tti gs (setLastUlTbs (isAckPendings db (ttimod tti) g.rnti) g.rnti)
        (grantUser ueDb g.rnti tti)
        (calls ++ ackInfos g.rnti (pend db (ttimod tti) g.rnti 0) (pend db (ttimod tti) g.rnti 1)
          g.uciAck g.uciAck2 (g.crc || g.snrOk)) := by
  have h0 : (isAckPending db (ttimod tti) g.rnti 0).1 = pend db (ttimod tti) g.rnti 0 :=
    isAckPending_fst
  have h1 := isAckPending_snd db (ttimod tti) g.rnti
  rw [decodePusch, if_pos hr, ← h0, ← h1]
  simp only [hg, if_true]
  rfl

theorem decodePusch_fail (hr : g.rnti ≠ 0) (hg : g.grantOk = false) :
    decodePusch tti (g :: gs) db ueDb calls =
      (isAckPendings db (ttimod tti) g.rnti, grantUser ueDb g.rnti tti, calls) := by
  rw [decodePusch, if_pos hr]
  simp only [hg, Bool.false_eq_true, if_false]
  rfl

/-- The users that `decode_pusch` gets to. -/
def granted : List Pusch → List Nat
  | [] => []
  | g :: gs =>
    if g.rnti = 0 then granted gs else if g.grantOk then g.rnti :: granted gs else [g.rnti]

/-- The grant at which `decode_pusch` returns an error. -/
def failedGrant (pusch : List Pusch) : Option Pusch :=
  pusch.find? fun g => decide (g.rnti ≠ 0) && !g.grantOk

theorem decodePusch_reads (h : Reads (ttimod tti) db0 db calls) :
    Reads (ttimod tti) db0 (decodePusch tti pusch db ueDb calls).1
      (decodePusch tti pusch db ueDb calls).2.2 := by
  induction pusch generalizing db ueDb calls with
  | nil => exact h
  | cons g gs ih =>
    by_cases hr : g.rnti = 0
    · rw [decodePusch_skip hr]
      exact ih h
    · cases hg : g.grantOk with
      | true =>
        rw [decodePusch_ok hr hg]
        exact ih (h.report.same (fun _ _ _ => pend_setLastUlTbs) fun _ => isSome_setLastUlTbs)
      | false =>
        rw [decodePusch_fail hr hg]
        exact h.drop _

theorem decodePusch_calls {c : AckInfo} (hc : c ∈ calls) :
    c ∈ (decodePusch tti pusch db ueDb calls).2.2 := by
  induction pusch generalizing db ueDb calls with
  | nil => exact hc
  | cons g gs ih =>
    by_cases hr : g.rnti = 0
    · rw [decodePusch_skip hr]
      exact ih hc
    · cases hg : g.grantOk with
      | true =>
        rw [decodePusch_ok hr hg]
        exact ih (List.mem_append_left _ hc)
      | false =>
        rw [decodePusch_fail hr hg]
        exact hc

theorem pend_other (hne : r ≠ rnti) (s : Nat) (t : Fin 2) :
    pend (isAckPendings db sl rnti) s r t = pend db s r t := by
  rw [pend_isAckPendings]
  simp [hne]

theorem decodePusch_others (tti : Nat) (db : CommonDb) (ueDb : UeDb) (calls : List AckInfo)
    (hnot : r ∉ granted pusch) :
    (decodePusch tti pusch db ueDb calls).2.1[r]? = ueDb[r]? ∧
      ∀ t, pend (decodePusch tti pusch db ueDb calls).1 (ttimod tti) r t =
        pend db (ttimod tti) r t := by
  induction pusch generalizing db ueDb calls with
  | nil => exact ⟨rfl, fun _ => rfl⟩
  | cons g gs ih =>
    unfold granted at hnot
    by_cases hr : g.rnti = 0
    · rw [if_pos hr] at hnot
      rw [decodePusch_skip hr]
      exact ih _ _ _ hnot
    · rw [if_neg hr] at hnot
      have huser : r ≠ g.rnti → (grantUser ueDb g.rnti tti)[r]? = ueDb[r]? := by
        intro hne
        unfold grantUser
        rw [StdMap.getElem?_update, if_neg (Ne.symm hne)]
      cases hg : g.grantOk with
      | true =>
        rw [hg, if_pos rfl, List.mem_cons, not_or] at hnot
        rw [decodePusch_ok hr hg]
        obtain ⟨hu, hp⟩ := @ih (setLastUlTbs _ _) _ _ hnot.2
        refine ⟨hu.trans (huser hnot.1), fun t => (hp t).trans ?_⟩
        rw [pend_setLastUlTbs, pend_other hnot.1]
      | false =>
        rw [hg, if_neg (by simp), List.mem_singleton] at hnot
        rw [decodePusch_fail hr hg]
        exact ⟨huser hnot, pend_other hnot _⟩

theorem decodePusch_marks (tti : Nat) (db : CommonDb) (ueDb : UeDb) (calls : List AckInfo)
    (hin : r ∈ granted pusch ∨ ∃ u, ueDb[r]? = some u ∧ u.hasGrantTti = tti) :
    ∃ u, (decodePusch tti pusch db ueDb calls).2.1[r]? = some u ∧ u.hasGrantTti = tti := by
  induction pusch generalizing db ueDb calls with
  | nil => exact hin.resolve_left (by simp [granted])
  | cons g gs ih =>
    unfold granted at hin
    by_cases hr : g.rnti = 0
    · rw [if_pos hr] at hin
      rw [decodePusch_skip hr]
      exact ih _ _ _ hin
    · rw [if_neg hr] at hin
      have huser : r = g.rnti ∨ (∃ u, ueDb[r]? = some u ∧ u.hasGrantTti = tti) →
          ∃ u, (grantUser ueDb g.rnti tti)[r]? = some u ∧ u.hasGrantTti = tti := by
        intro h
        unfold grantUser
        rw [StdMap.getElem?_update]
        split_ifs with heq
        · exact ⟨_, rfl, rfl⟩
        · exact h.resolve_left (Ne.symm heq)
      cases hg : g.grantOk with
      | true =>
        rw [hg, if_pos rfl, List.mem_cons] at hin
        rw [decodePusch_ok hr hg]
        apply ih
        rcases hin with (heq | hin) | hu
        · exact Or.inr (huser (Or.inl heq))
        · exact Or.inl hin
        · exact Or.inr (huser (Or.inr hu))
      | false =>
        rw [hg, if_neg (by simp), List.mem_singleton] at hin
        rw [decodePusch_fail hr hg]
        exact huser hin

/-- A user that it gets to has its flags reported, unless its own grant fails. -/
theorem decodePusch_reports (ueDb : UeDb) (calls : List AckInfo)
    (hin : r ∈ granted pusch) (ht : pend db (ttimod tti) r t = true)
    (hfail : ∀ g ∈ failedGrant pusch, g.rnti = r → pend db (ttimod tti) r t = false) :
    ∃ c ∈ (decodePusch tti pusch db ueDb calls).2.2, c.block = (r, t) := by
  induction pusch generalizing db ueDb calls with
  | nil => simp [granted] at hin
  | cons g gs ih =>
    unfold granted at hin
    unfold failedGrant at hfail
    by_cases hr : g.rnti = 0
    · rw [if_pos hr] at hin
      rw [List.find?_cons_of_neg (by simp [hr])] at hfail
      rw [decodePusch_skip hr]
      exact ih _ _ hin ht hfail
    · rw [if_neg hr] at hin
      cases hg : g.grantOk with
      | true =>
        rw [hg, if_pos rfl, List.mem_cons] at hin
        rw [List.find?_cons_of_neg (by simp [hg])] at hfail
        rw [decodePusch_ok hr hg]
        by_cases heq : r = g.rnti
        · -- The call is made for this grant.
          subst heq
          obtain ⟨c, hc, hblock⟩ := exists_ackInfo g.uciAck g.uciAck2 (g.crc || g.snrOk) ht
          exact ⟨c, decodePusch_calls (List.mem_append_right _ hc), hblock⟩
        · have hsame : pend (setLastUlTbs (isAckPendings db (ttimod tti) g.rnti) g.rnti)
              (ttimod tti) r t = pend db (ttimod tti) r t := by
            rw [pend_setLastUlTbs, pend_other heq]
          refine ih _ _ (hin.resolve_left heq) (hsame.trans ht) ?_
          rw [hsame]
          exact hfail
      | false =>
        rw [hg, if_neg (by simp), List.mem_singleton] at hin
        rw [List.find?_cons_of_pos (by simp [hr, hg])] at hfail
        rw [hfail g rfl hin.symm] at ht
        cases ht

end Pusch

/-! ## PUCCH -/

section Pucch

variable {lib : PhyLib} {tti : Nat} {pucch : Nat → Pucch} {ueDb : UeDb} {u : Ue} {rs : List Nat}

/-- Whether the PUCCH of a user is looked for, with the flags of `db`. -/
def needsPucch (lib : PhyLib) (tti : Nat) (db : CommonDb) (r : Nat) (u : Ue) : Bool :=
  u.conf.needsPucch lib tti (pend db (ttimod tti) r 0) (pend db (ttimod tti) r 1)

theorem needsPucch_of_pend (ht : pend db (ttimod tti) r t = true) :
    needsPucch lib tti db r u = true := by
  unfold needsPucch UeConf.needsPucch
  match t with
  | 0 => simp [ht]
  | 1 => simp [ht]

theorem decodePucch_gone (hu : ueDb[r]? = none) :
    decodePucch lib tti ueDb pucch (r :: rs) db calls =
      decodePucch lib tti ueDb pucch rs db calls := by
  rw [decodePucch, hu]

theorem decodePucch_skip (hu : ueDb[r]? = some u)
    (hs : ¬ (isCrnti r = true ∧ u.hasGrantTti ≠ tti)) :
    decodePucch lib tti ueDb pucch (r :: rs) db calls =
      decodePucch lib tti ueDb pucch rs db calls := by
  rw [decodePucch, hu]
  simp only
  rw [if_neg (by simpa using hs)]

theorem decodePucch_user (hu : ueDb[r]? = some u) (hs : isCrnti r = true ∧ u.hasGrantTti ≠ tti) :
    decodePucch lib tti ueDb pucch (r :: rs) db calls =
      if needsPucch lib tti db r u then
        if (pucch r).ok then
          decodePucch lib tti ueDb pucch rs (isAckPendings db (ttimod tti) r)
            (calls ++ ackInfos r (pend db (ttimod tti) r 0) (pend db (ttimod tti) r 1)
              (pucch r).uciAck (pucch r).uciAck2 (pucch r).corrOk)
        else (isAckPendings db (ttimod tti) r, calls)
      else decodePucch lib tti ueDb pucch rs (isAckPendings db (ttimod tti) r) calls := by
  have h0 : (isAckPending db (ttimod tti) r 0).1 = pend db (ttimod tti) r 0 := isAckPending_fst
  unfold needsPucch
  rw [decodePucch, hu, ← h0, ← isAckPending_snd db (ttimod tti) r]
  simp only
  rw [if_pos (by simpa using hs)]
  rfl

theorem decodePucch_reads (h : Reads (ttimod tti) db0 db calls) :
    Reads (ttimod tti) db0 (decodePucch lib tti ueDb pucch rs db calls).1
      (decodePucch lib tti ueDb pucch rs db calls).2 := by
  induction rs generalizing db calls with
  | nil => exact h
  | cons r rs ih =>
    cases hu : ueDb[r]? with
    | none =>
      rw [decodePucch_gone hu]
      exact ih h
    | some u =>
      by_cases hs : isCrnti r = true ∧ u.hasGrantTti ≠ tti
      · rw [decodePucch_user hu hs]
        split_ifs
        · exact ih h.report
        · exact h.drop _
        · exact ih (h.drop _)
      · rw [decodePucch_skip hu hs]
        exact ih h

theorem decodePucch_calls {c : AckInfo} (hc : c ∈ calls) :
    c ∈ (decodePucch lib tti ueDb pucch rs db calls).2 := by
  induction rs generalizing db calls with
  | nil => exact hc
  | cons r rs ih =>
    cases hu : ueDb[r]? with
    | none =>
      rw [decodePucch_gone hu]
      exact ih hc
    | some u =>
      by_cases hs : isCrnti r = true ∧ u.hasGrantTti ≠ tti
      · rw [decodePucch_user hu hs]
        split_ifs
        · exact ih (List.mem_append_left _ hc)
        · exact hc
        · exact ih hc
      · rw [decodePucch_skip hu hs]
        exact ih hc

/-- A user without a grant has its flags reported, unless the PUCCH of a user up to it fails. -/
theorem decodePucch_reports (hsorted : rs.Pairwise (· < ·)) (hin : r ∈ rs)
    (hu : ueDb[r]? = some u) (hs : isCrnti r = true ∧ u.hasGrantTti ≠ tti)
    (ht : pend db (ttimod tti) r t = true)
    (hfail : ∀ a ∈ rs, a ≤ r → ∀ v : Ue, ueDb[a]? = some v → isCrnti a = true →
      v.hasGrantTti ≠ tti → needsPucch lib tti db a v = true → (pucch a).ok = true) :
    ∃ c ∈ (decodePucch lib tti ueDb pucch rs db calls).2, c.block = (r, t) := by
  induction rs generalizing db calls with
  | nil => cases hin
  | cons a rs ih =>
    obtain ⟨hlt, hsorted⟩ := List.pairwise_cons.mp hsorted
    have hrest : ∀ (db' : CommonDb) (calls' : List AckInfo), a ≠ r →
        (∀ b, b ≠ a → ∀ t, pend db' (ttimod tti) b t = pend db (ttimod tti) b t) →
        ∃ c ∈ (decodePucch lib tti ueDb pucch rs db' calls').2, c.block = (r, t) := by
      intro db' calls' hne hsame
      refine ih hsorted ((List.mem_cons.mp hin).resolve_left (Ne.symm hne))
        ((hsame r (Ne.symm hne) t).trans ht) ?_
      intro b hb hle v hv hcrnti hno hneeds
      have hba : b ≠ a := Ne.symm (Nat.ne_of_lt (hlt b hb))
      refine hfail b (List.mem_cons_of_mem a hb) hle v hv hcrnti hno ?_
      unfold needsPucch at hneeds ⊢
      rwa [hsame b hba, hsame b hba] at hneeds
    by_cases hne : a = r
    · subst hne
      have hneeds : needsPucch lib tti db a u = true := needsPucch_of_pend ht
      have hok := hfail a List.mem_cons_self le_rfl u hu hs.1 hs.2 hneeds
      rw [decodePucch_user hu hs, if_pos hneeds, if_pos hok]
      obtain ⟨c, hc, hblock⟩ := exists_ackInfo (pucch a).uciAck (pucch a).uciAck2
        (pucch a).corrOk ht
      exact ⟨c, decodePucch_calls (List.mem_append_right _ hc), hblock⟩
    · have hle : a ≤ r := Nat.le_of_lt (hlt r ((List.mem_cons.mp hin).resolve_left (Ne.symm hne)))
      cases hv : ueDb[a]? with
      | none =>
        rw [decodePucch_gone hv]
        exact hrest db calls hne fun _ _ _ => rfl
      | some v =>
        by_cases hsv : isCrnti a = true ∧ v.hasGrantTti ≠ tti
        · rw [decodePucch_user hv hsv]
          have hsame : ∀ b, b ≠ a → ∀ t,
              pend (isAckPendings db (ttimod tti) a) (ttimod tti) b t = pend db (ttimod tti) b t :=
            fun b hb t => pend_other hb _ t
          split_ifs with hneeds hok
          · exact hrest _ _ hne hsame
          · exact absurd (hfail a List.mem_cons_self hle v hv hsv.1 hsv.2 hneeds) hok
          · exact hrest _ _ hne hsame
        · rw [decodePucch_skip hv hsv]
          exact hrest db calls hne fun _ _ _ => rfl

end Pucch

/-! ## A subframe -/

section Receive

variable {lib : PhyLib} {tti : Nat} {pusch : List Pusch} {pucch : Nat → Pucch} {ueDb : UeDb}

theorem receive_reads : Reads (ttimod tti) db (receive lib tti pusch pucch db ueDb).1
    (receive lib tti pusch pucch db ueDb).2.2 := by
  unfold receive
  exact decodePucch_reads (decodePusch_reads (Reads.refl _ _))

theorem receive_keeps (lib : PhyLib) (tti : Nat) (pusch : List Pusch) (pucch : Nat → Pucch)
    (db : CommonDb) (h : ueDb[r]?.isSome = true) :
    (receive lib tti pusch pucch db ueDb).2.1[r]?.isSome = true := by
  unfold receive
  simp only
  by_cases hin : r ∈ granted pusch
  · obtain ⟨u, hu, -⟩ := decodePusch_marks tti db
      (ueDb.map fun _ u => { u with hasGrantTti := -1 }) [] (Or.inl hin)
    rw [hu]
    rfl
  · rw [(decodePusch_others tti db _ [] hin).1, Std.ExtTreeMap.getElem?_map, Option.isSome_map]
    exact h

/-- Whether the PUCCH of a user without a grant is looked for and fails. -/
def pucchFails (lib : PhyLib) (tti : Nat) (pusch : List Pusch) (pucch : Nat → Pucch)
    (db : CommonDb) (ueDb : UeDb) (r : Nat) : Bool :=
  match ueDb[r]? with
  | some u => isCrnti r && decide (r ∉ granted pusch) && needsPucch lib tti db r u && !(pucch r).ok
  | none => false

/-- Neither decoder returns while a flag of the user is to be reported. -/
structure Heard (lib : PhyLib) (tti : Nat) (pusch : List Pusch) (pucch : Nat → Pucch)
    (db : CommonDb) (ueDb : UeDb) (r : Nat) : Prop where
  grant : ∀ g ∈ failedGrant pusch, g.rnti ≠ r
  report : r ∉ granted pusch → ∀ a ∈ ueDb.keys, a ≤ r →
    pucchFails lib tti pusch pucch db ueDb a = false

instance (lib : PhyLib) (tti : Nat) (pusch : List Pusch) (pucch : Nat → Pucch) (db : CommonDb)
    (ueDb : UeDb) (r : Nat) : Decidable (Heard lib tti pusch pucch db ueDb r) :=
  decidable_of_iff ((∀ g ∈ failedGrant pusch, g.rnti ≠ r) ∧
      (r ∉ granted pusch → ∀ a ∈ ueDb.keys, a ≤ r →
        pucchFails lib tti pusch pucch db ueDb a = false))
    ⟨fun h => ⟨h.1, h.2⟩, fun h => ⟨h.grant, h.report⟩⟩

theorem receive_reports (hu : ueDb[r]?.isSome = true) (hr : isCrnti r = true)
    (ht : pend db (ttimod tti) r t = true) (h : Heard lib tti pusch pucch db ueDb r) :
    ∃ c ∈ (receive lib tti pusch pucch db ueDb).2.2, c.block = (r, t) := by
  obtain ⟨ueDb0, hueDb0⟩ : ∃ m, ueDb.map (fun _ u => { u with hasGrantTti := -1 }) = m := ⟨_, rfl⟩
  have hmap : ∀ a : Nat, ueDb0[a]? = ueDb[a]?.map fun u => { u with hasGrantTti := -1 } := by
    intro a
    rw [← hueDb0, Std.ExtTreeMap.getElem?_map]
  unfold receive
  rw [hueDb0]
  by_cases hin : r ∈ granted pusch
  · obtain ⟨c, hc, hblock⟩ := decodePusch_reports ueDb0 [] hin ht
      fun g hg hgr => absurd hgr (h.grant g hg)
    exact ⟨c, decodePucch_calls hc, hblock⟩
  · obtain ⟨⟨db1, ueDb1, calls1⟩, h1⟩ : ∃ x, decodePusch tti pusch db ueDb0 [] = x := ⟨_, rfl⟩
    -- The users without a grant are as at the start.
    have hothers : ∀ a, a ∉ granted pusch → ueDb1[a]? = ueDb0[a]? ∧
        ∀ t, pend db1 (ttimod tti) a t = pend db (ttimod tti) a t := by
      intro a ha
      have := decodePusch_others tti db ueDb0 [] ha
      rwa [h1] at this
    have hmarks : ∀ a ∈ granted pusch, ∃ v, ueDb1[a]? = some v ∧ v.hasGrantTti = tti := by
      intro a ha
      have := decodePusch_marks tti db ueDb0 [] (Or.inl ha)
      rwa [h1] at this
    obtain ⟨u, hu⟩ := Option.isSome_iff_exists.mp hu
    have hur : ueDb1[r]? = some { u with hasGrantTti := -1 } := by
      rw [(hothers r hin).1, hmap, hu]
      rfl
    simp only [h1]
    refine decodePucch_reports (StdMap.sorted_keys ueDb1) (StdMap.mem_keys.mpr (by rw [hur]; rfl))
      hur ⟨hr, ?_⟩ (((hothers r hin).2 t).trans ht) ?_
    · simp only
      omega
    · intro a ha hle v hv hcrnti hno hneeds
      have hnot : a ∉ granted pusch := by
        intro hmem
        obtain ⟨w, hw, hgrant⟩ := hmarks a hmem
        obtain rfl := Option.some.inj (hv.symm.trans hw)
        exact hno hgrant
      obtain ⟨heq, hp⟩ := hothers a hnot
      rw [hv, hmap] at heq
      obtain ⟨w, hw, rfl⟩ := Option.map_eq_some_iff.mp heq.symm
      have hfails := h.report hin a (StdMap.mem_keys.mpr (by rw [hw]; rfl)) hle
      unfold needsPucch at hneeds
      rw [hp, hp] at hneeds
      simp only [pucchFails, hw, hcrnti, hnot, needsPucch, hneeds] at hfails
      simpa using hfails

end Receive

/-! ## Setting the flags of a slot -/

section Prepare

variable {sf : Nat} {d : DlSched}

/-- The flag of one transport block of a grant. -/
def setPendingTb (sf : Nat) (db : CommonDb) (g : DlGrant) (tb : Fin 2) : CommonDb :=
  if g.wantsAck tb then setAckPending db sf g.rnti tb g.ncce else db

theorem setPending_eq (g : DlGrant) :
    g.setPending sf db = setPendingTb sf (setPendingTb sf db g 0) g 1 := rfl

theorem isSome_setPendingTb (g : DlGrant) (tb : Fin 2) :
    (setPendingTb sf db g tb)[r]?.isSome = db[r]?.isSome := by
  unfold setPendingTb
  split_ifs
  · exact isSome_setAckPending
  · rfl

theorem pend_setPendingTb (g : DlGrant) (tb : Fin 2) :
    pend (setPendingTb sf db g tb) sl r t = true ↔ pend db sl r t = true ∨
      (sl = sf ∧ r = g.rnti ∧ t = tb) ∧ g.wantsAck tb = true ∧ db[r]?.isSome = true := by
  unfold setPendingTb
  split_ifs with hw
  · rw [pend_setAckPending, Bool.or_eq_true, Bool.and_eq_true, decide_eq_true_eq]
    constructor
    · rintro (h | ⟨⟨hs, rfl, rfl⟩, h⟩)
      · exact Or.inl h
      · exact Or.inr ⟨⟨hs, rfl, rfl⟩, hw, h⟩
    · rintro (h | ⟨⟨hs, rfl, rfl⟩, -, h⟩)
      · exact Or.inl h
      · exact Or.inr ⟨⟨hs, rfl, rfl⟩, h⟩
  · simp [hw]

theorem isSome_setPending (g : DlGrant) : (g.setPending sf db)[r]?.isSome = db[r]?.isSome := by
  rw [setPending_eq, isSome_setPendingTb, isSome_setPendingTb]

theorem pend_setPending (g : DlGrant) :
    pend (g.setPending sf db) sl r t = true ↔ pend db sl r t = true ∨
      sl = sf ∧ r = g.rnti ∧ g.wantsAck t = true ∧ db[r]?.isSome = true := by
  rw [setPending_eq, pend_setPendingTb, pend_setPendingTb, isSome_setPendingTb]
  match t with
  | 0 => simp [and_assoc]
  | 1 => simp [and_assoc]

theorem pend_foldl_setPending (gs : List DlGrant) :
    pend (gs.foldl (DlGrant.setPending sf) db) sl r t = true ↔ pend db sl r t = true ∨
      sl = sf ∧ (∃ g ∈ gs, r = g.rnti ∧ g.wantsAck t = true) ∧ db[r]?.isSome = true := by
  induction gs generalizing db with
  | nil => simp
  | cons g gs ih =>
    rw [List.foldl_cons, ih, pend_setPending, isSome_setPending, List.exists_mem_cons_iff]
    tauto

theorem pend_prepareAcks :
    pend (prepareAcks sf d db) sl r t = true ↔ sl ≠ sf ∧ pend db sl r t = true ∨
      sl = sf ∧ (∃ i < d.nofGrants, r = (d.schedGrants i).rnti ∧
        (d.schedGrants i).wantsAck t = true) ∧ db[r]?.isSome = true := by
  unfold prepareAcks
  rw [pend_foldl_setPending, pend_clear, isSome_clear]
  simp

theorem isSome_prepareAcks : (prepareAcks sf d db)[r]?.isSome = db[r]?.isSome := by
  have hfold : ∀ (gs : List DlGrant) (db : CommonDb),
      (gs.foldl (DlGrant.setPending sf) db)[r]?.isSome = db[r]?.isSome := by
    intro gs
    induction gs with
    | nil => exact fun _ => rfl
    | cons g gs ih =>
      intro db
      rw [List.foldl_cons, ih, isSome_setPending]
  unfold prepareAcks
  rw [hfold, isSome_clear]

end Prepare

end Srsenb.Phy
