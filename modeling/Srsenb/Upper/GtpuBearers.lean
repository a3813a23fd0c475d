import Srsenb.Base.Common
import Srsenb.Base.Run
import Srsenb.Upper.Gtpu

/-! # The bearers that GTP-U serves

`teids_in` tells which bearers are added by not being 0, and a user is there with its bearers. -/

open Srsenb.Run

namespace Srsenb.Gtpu

/-- The bearers that are added, each with its `teid_out` and its address. -/
abbrev Bearers := Rnti → Lcid → Option (Nat × Nat)

/-- The entity, and the bearers that were added and not removed since. -/
structure GtpuRun where
  db : RntiBearers := ∅
  added : Bearers := fun _ _ => none

inductive Event where
  | addBearer (rnti : Rnti) (lcid : Lcid) (addr teidOut : Nat)
  | remBearer (rnti : Rnti) (lcid : Lcid)
  | remUser (rnti : Rnti)
  | writePdu (rnti : Rnti) (lcid : Lcid) (pdu : Pdu) (headerOk : Bool)
  | dataPdu (teid : Fin (2 ^ 32)) (pdu : Pdu)

namespace GtpuRun

variable {s : GtpuRun}

def acts (s : GtpuRun) : Event → List Action
  | .writePdu rnti lcid pdu headerOk => (writePdu s.db rnti lcid pdu headerOk).2
  | .dataPdu teid pdu => dataPdu s.db teid pdu
  | _ => []

def step (s : GtpuRun) : Event → GtpuRun
  | .addBearer rnti lcid addr teidOut =>
    { db := (addBearer s.db rnti lcid addr teidOut).1
      added := Function.update s.added rnti
        (Function.update (s.added rnti) lcid (some (teidOut, addr))) }
  | .remBearer rnti lcid =>
    { db := remBearer s.db rnti lcid
      added := Function.update s.added rnti (Function.update (s.added rnti) lcid none) }
  | .remUser rnti =>
    { db := remUser s.db rnti, added := Function.update s.added rnti fun _ => none }
  | .writePdu rnti lcid pdu headerOk => { s with db := (writePdu s.db rnti lcid pdu headerOk).1 }
  | .dataPdu _ _ => s

/-- A user is in `rnti_bearers` if and only if one of its bearers is added. -/
def UsersRight (s : GtpuRun) : Prop :=
  ∀ rnti : Rnti, s.db[rnti.val]?.isSome = true ↔ ∃ l, (s.added rnti l).isSome = true

/-- A PDU goes to PDCP under the bearer of its TEID, and to the gateway in the tunnel of its
bearer, and the bearer is added. -/
def PdusRight (s : GtpuRun) (e : Event) : Prop :=
  ∀ a ∈ s.acts e, match a with
    | .writeSdu rnti lcid pdu => ∃ (r : Rnti) (l : Lcid) (teid : Fin (2 ^ 32)),
        e = .dataPdu teid pdu ∧ r.val = rnti ∧ l.val = lcid ∧ (s.added r l).isSome = true ∧
          teid.val = rntilcidToTeidin r l
    | .sendto addr teid pdu => ∃ (r : Rnti) (l : Lcid) (ok : Bool),
        e = .writePdu r l pdu ok ∧ s.added r l = some (teid, addr)

/-! ## What is relied on -/

/-- The bearer that a TEID is for is added, if the user is there and the channel is a DRB. -/
def TeidAdded (s : GtpuRun) (teid : Nat) : Prop :=
  ∀ (r : Rnti) (l : Lcid), teidinToRntilcid teid = (r.val, l.val) →
    s.db[r.val]?.isSome = true → nofSrb ≤ l.val → (s.added r l).isSome = true

/-- An uplink PDU is for a bearer that is added, or for a user that is there and its header cannot
be written. A downlink PDU is for a bearer that is added, if the user is there. The bearer 0 of
RNTI 0, whose TEID is 0, is not left as the last one. -/
def Allowed (s : GtpuRun) : Event → Prop
  | .writePdu rnti lcid _ headerOk =>
    (s.added rnti lcid).isSome = true ∨ headerOk = false ∧ s.db[rnti.val]?.isSome = true
  | .dataPdu teid _ => s.TeidAdded teid
  | .remBearer rnti lcid =>
    rnti = 0 → lcid ≠ 0 → (s.added rnti 0).isSome = true →
      ∃ k, k ≠ 0 ∧ k ≠ lcid ∧ (s.added rnti k).isSome = true
  | _ => True

/-! ## The arrays of a user -/

/-- The arrays hold what the bearers were added with. -/
def RowAgrees (rnti : Rnti) (b : BearerMap) (row : Lcid → Option (Nat × Nat)) : Prop :=
  ∀ l, match row l with
    | some (teidOut, addr) =>
      b.teidsIn l = rntilcidToTeidin rnti l ∧ b.teidsOut l = teidOut ∧ b.spgwAddrs l = addr
    | none => b.teidsIn l = 0

def Agrees (s : GtpuRun) : Prop := ∀ rnti : Rnti, RowAgrees rnti (s.db.sub rnti) (s.added rnti)

theorem rowAgrees_default (rnti : Rnti) : RowAgrees rnti default fun _ => none := fun _ => rfl

theorem teidin_eq_zero {rnti : Rnti} {l : Lcid} :
    rntilcidToTeidin rnti l = 0 ↔ rnti = 0 ∧ l = 0 := by
  rw [rntilcidToTeidin_eq (by omega)]
  constructor
  · intro h
    constructor <;> apply Fin.ext <;> simp only [Fin.val_zero] <;> omega
  · rintro ⟨rfl, rfl⟩
    rfl

theorem teidsIn_eq_zero {rnti : Rnti} {b : BearerMap} {row : Lcid → Option (Nat × Nat)}
    (h : RowAgrees rnti b row) (l : Lcid) :
    b.teidsIn l = 0 ↔ row l = none ∨ rnti = 0 ∧ l = 0 := by
  have hl := h l
  cases hrow : row l with
  | none =>
    rw [hrow] at hl
    simpa using hl
  | some x =>
    rw [hrow] at hl
    rw [hl.1, teidin_eq_zero]
    simp

theorem RowAgrees.add {rnti : Rnti} {b : BearerMap} {row : Lcid → Option (Nat × Nat)}
    (h : RowAgrees rnti b row) (lcid : Lcid) (addr teidOut : Nat) :
    RowAgrees rnti
      { teidsIn := Function.update b.teidsIn lcid (rntilcidToTeidin rnti lcid)
        teidsOut := Function.update b.teidsOut lcid teidOut
        spgwAddrs := Function.update b.spgwAddrs lcid addr }
      (Function.update row lcid (some (teidOut, addr))) := by
  intro l
  by_cases hl : l = lcid
  · subst hl
    simp
  · simpa [Function.update_of_ne hl] using h l

theorem RowAgrees.rem {rnti : Rnti} {b : BearerMap} {row : Lcid → Option (Nat × Nat)}
    (h : RowAgrees rnti b row) (lcid : Lcid) :
    RowAgrees rnti
      { b with
        teidsIn := Function.update b.teidsIn lcid 0
        teidsOut := Function.update b.teidsOut lcid 0 }
      (Function.update row lcid none) := by
  intro l
  by_cases hl : l = lcid
  · subst hl
    simp
  · simpa [Function.update_of_ne hl] using h l

/-! ## One step -/

theorem kept_update {db : RntiBearers} {rnti : Rnti} {row : Lcid → Option (Nat × Nat)}
    (hA : Agrees s) (hU : UsersRight s) (hdb : ∀ a : Nat, rnti.val ≠ a → db[a]? = s.db[a]?)
    (hrow : RowAgrees rnti (db.sub rnti) row)
    (hthere : db[rnti.val]?.isSome = true ↔ ∃ l, (row l).isSome = true) :
    Agrees ⟨db, Function.update s.added rnti row⟩ ∧
      UsersRight ⟨db, Function.update s.added rnti row⟩ := by
  constructor
  · intro a
    by_cases ha : a = rnti
    · subst ha
      simpa using hrow
    · have hne : rnti.val ≠ a.val := fun h => ha (Fin.ext h.symm)
      simpa [Function.update_of_ne ha, StdMap.sub_eq, hdb a hne] using hA a
  · intro a
    by_cases ha : a = rnti
    · subst ha
      simpa using hthere
    · have hne : rnti.val ≠ a.val := fun h => ha (Fin.ext h.symm)
      simpa [Function.update_of_ne ha, hdb a hne] using hU a

theorem addBearer_kept (hA : Agrees s) (hU : UsersRight s) (rnti : Rnti) (lcid : Lcid)
    (addr teidOut : Nat) :
    Agrees (s.step (.addBearer rnti lcid addr teidOut)) ∧
      UsersRight (s.step (.addBearer rnti lcid addr teidOut)) := by
  obtain ⟨db, hdb⟩ : ∃ db, (if s.db[rnti.val]?.isNone then s.db.touch rnti else s.db) = db :=
    ⟨_, rfl⟩
  have hsub : db.sub rnti = s.db.sub rnti := by
    rw [← hdb]
    split_ifs
    · exact StdMap.sub_touch ..
    · rfl
  have hget : ∀ a : Nat, rnti.val ≠ a → db[a]? = s.db[a]? := by
    intro a ha
    rw [← hdb]
    split_ifs
    · rw [StdMap.getElem?_touch, if_neg ha]
    · rfl
  unfold step addBearer
  simp only [hdb]
  apply kept_update hA hU
  · intro a ha
    rw [StdMap.getElem?_update, if_neg ha, hget a ha]
  · rw [StdMap.sub_update, if_pos rfl, hsub]
    exact (hA rnti).add lcid addr teidOut
  · rw [StdMap.getElem?_update, if_pos rfl]
    exact iff_of_true rfl ⟨lcid, by simp⟩

theorem remUser_kept (hA : Agrees s) (hU : UsersRight s) (rnti : Rnti) :
    Agrees (s.step (.remUser rnti)) ∧ UsersRight (s.step (.remUser rnti)) := by
  unfold step remUser
  apply kept_update hA hU
  · intro a ha
    rw [StdMap.getElem?_erase, if_neg ha]
  · rw [StdMap.sub_erase, if_pos rfl]
    exact rowAgrees_default rnti
  · rw [StdMap.getElem?_erase, if_pos rfl]
    simp

/-- The bearers left all have the TEID 0: there are none, or the one of RNTI 0 is there. -/
theorem allowed_remBearer_iff {rnti : Rnti} {lcid : Lcid}
    (hzero : ∀ l, Function.update (s.added rnti) lcid none l = none ∨ rnti = 0 ∧ l = 0) :
    s.Allowed (.remBearer rnti lcid) ↔
      Function.update (s.added rnti) lcid none = fun _ => none := by
  unfold Allowed
  constructor
  · intro hc
    funext l
    rcases hzero l with hl | ⟨hr, rfl⟩
    · exact hl
    · by_contra hl
      rcases eq_or_ne lcid 0 with rfl | hne
      · simp at hl
      · rw [Function.update_of_ne (Ne.symm hne)] at hl
        obtain ⟨k, hk0, hk, hadded⟩ := hc hr hne (Option.isSome_iff_ne_none.mpr hl)
        have := (hzero k).resolve_right fun h => hk0 h.2
        rw [Function.update_of_ne hk] at this
        rw [this] at hadded
        cases hadded
  · rintro hnone - hne hadded
    have := congrFun hnone 0
    rw [Function.update_of_ne (Ne.symm hne)] at this
    rw [this] at hadded
    cases hadded

theorem teidsIn_all_eq_zero {rnti : Rnti} {b : BearerMap} {row : Lcid → Option (Nat × Nat)}
    (h : RowAgrees rnti b row) :
    ((List.finRange nofRadioBearers).all fun i => b.teidsIn i = 0) = true ↔
      ∀ l, row l = none ∨ rnti = 0 ∧ l = 0 := by
  simp only [List.all_eq_true, List.mem_finRange, true_imp_iff, decide_eq_true_eq]
  exact forall_congr' fun l => teidsIn_eq_zero h l

/-- A user may be erased when it has no bearer. -/
theorem erase_kept (hA : Agrees s) (hU : UsersRight s) {rnti : Rnti} {db : StdMap BearerMap}
    {row : Lcid → Option (Nat × Nat)} (hget : ∀ a : Nat, rnti.val ≠ a → db[a]? = s.db[a]?) :
    (row = (fun _ => none) → Agrees ⟨db.erase rnti.val, Function.update s.added rnti row⟩ ∧
      UsersRight ⟨db.erase rnti.val, Function.update s.added rnti row⟩) ∧
    (row ≠ (fun _ => none) →
      ¬ UsersRight ⟨db.erase rnti.val, Function.update s.added rnti row⟩) := by
  have hgone : (db.erase rnti.val)[rnti.val]? = none := by
    rw [StdMap.getElem?_erase, if_pos rfl]
  constructor
  · rintro rfl
    apply kept_update hA hU
    · intro a ha
      rw [StdMap.getElem?_erase, if_neg ha, hget a ha]
    · rw [StdMap.sub_erase, if_pos rfl]
      exact rowAgrees_default rnti
    · rw [hgone]
      simp
  · intro hsome hU'
    refine hsome (funext fun l => ?_)
    by_contra hl
    have := (hU' rnti).mpr ⟨l, by simpa using Option.isSome_iff_ne_none.mpr hl⟩
    rw [hgone] at this
    cases this

/-- The user goes when the TEIDs of all its bearers are 0. -/
theorem remBearer_kept (hA : Agrees s) (hU : UsersRight s) (rnti : Rnti) (lcid : Lcid) :
    (s.Allowed (.remBearer rnti lcid) →
      Agrees (s.step (.remBearer rnti lcid)) ∧ UsersRight (s.step (.remBearer rnti lcid))) ∧
    (¬ s.Allowed (.remBearer rnti lcid) → ¬ UsersRight (s.step (.remBearer rnti lcid))) := by
  obtain ⟨db, hdb⟩ : ∃ db, (s.db.update rnti fun b =>
    { b with
      teidsIn := Function.update b.teidsIn lcid 0
      teidsOut := Function.update b.teidsOut lcid 0 }) = db := ⟨_, rfl⟩
  obtain ⟨row, hrow⟩ : ∃ row, Function.update (s.added rnti) lcid none = row := ⟨_, rfl⟩
  have hget : ∀ a : Nat, rnti.val ≠ a → db[a]? = s.db[a]? := by
    intro a ha
    rw [← hdb, StdMap.getElem?_update, if_neg ha]
  have hagrees : RowAgrees rnti (db.sub rnti) row := by
    rw [← hdb, StdMap.sub_update, if_pos rfl, ← hrow]
    exact (hA rnti).rem lcid
  have hall := teidsIn_all_eq_zero hagrees
  unfold step remBearer
  simp only [hdb, hrow]
  split_ifs with hrem
  · have hiff := allowed_remBearer_iff (s := s) (by rw [hrow]; exact hall.mp hrem)
    rw [hiff, hrow]
    exact erase_kept hA hU hget
  · -- A bearer is left.
    have hleft : ∃ l, (row l).isSome = true := by
      by_contra hno
      push Not at hno
      exact hrem (hall.mpr fun l => Or.inl (by simpa using hno l))
    constructor
    · intro _
      apply kept_update hA hU hget hagrees
      rw [← hdb, StdMap.getElem?_update, if_pos rfl]
      exact iff_of_true rfl hleft
    · intro hc
      unfold Allowed at hc
      push Not at hc
      obtain ⟨hr, hne, -, hothers⟩ := hc
      refine absurd (hall.mpr fun l => ?_) hrem
      rw [← hrow]
      rcases eq_or_ne l lcid with rfl | hl
      · exact Or.inl (Function.update_self ..)
      · rcases eq_or_ne l 0 with rfl | hl0
        · exact Or.inr ⟨hr, rfl⟩
        · rw [Function.update_of_ne hl]
          exact Or.inl (by simpa using hothers l hl0 hl)

/-! ## PDUs -/

theorem writePdu_kept (hA : Agrees s) (hU : UsersRight s) (rnti : Rnti) (lcid : Lcid) (pdu : Pdu)
    (ok : Bool) :
    (s.Allowed (.writePdu rnti lcid pdu ok) →
      s.PdusRight (.writePdu rnti lcid pdu ok) ∧ s.step (.writePdu rnti lcid pdu ok) = s) ∧
    (¬ s.Allowed (.writePdu rnti lcid pdu ok) → s.PdusRight (.writePdu rnti lcid pdu ok) →
      ¬ UsersRight (s.step (.writePdu rnti lcid pdu ok))) := by
  have hsub : (s.db.touch rnti).sub rnti = s.db.sub rnti := StdMap.sub_touch ..
  constructor
  · intro hc
    constructor
    · intro a ha
      unfold acts writePdu at ha
      simp only [hsub] at ha
      rcases hc with hadded | ⟨rfl, -⟩
      · obtain ⟨⟨teidOut, addr⟩, hrow⟩ := Option.isSome_iff_exists.mp hadded
        have h := hA rnti lcid
        rw [hrow] at h
        split_ifs at ha
        · obtain rfl := List.mem_singleton.mp ha
          exact ⟨rnti, lcid, ok, rfl, by rw [h.2.1, h.2.2, hrow]⟩
        · cases ha
      · cases ha
    · have hthere : s.db[rnti.val]?.isSome = true := by
        rcases hc with hadded | ⟨-, hthere⟩
        · exact (hU rnti).mpr ⟨lcid, hadded⟩
        · exact hthere
      obtain ⟨b, hb⟩ := Option.isSome_iff_exists.mp hthere
      simp only [step, writePdu, StdMap.touch_of_get hb]
  · intro hc hq hU'
    unfold Allowed at hc
    push Not at hc
    obtain ⟨hadded, hthere⟩ := hc
    cases ok with
    | true =>
      obtain ⟨r, l, ok, he, hr⟩ := hq (.sendto ((s.db.touch rnti).sub rnti |>.spgwAddrs lcid)
        ((s.db.touch rnti).sub rnti |>.teidsOut lcid) pdu) (List.mem_singleton_self _)
      cases he
      rw [hr] at hadded
      exact hadded rfl
    | false =>
      have hnew : (s.db.touch rnti)[rnti.val]?.isSome = true :=
        StdMap.isSome_touch (Or.inl rfl)
      exact hthere rfl ((hU rnti).mpr ((hU' rnti).mp hnew))

/-- A downlink PDU goes to any DRB of a user that is there. -/
theorem dataPdu_right_iff (teid : Fin (2 ^ 32)) (pdu : Pdu) :
    s.PdusRight (.dataPdu teid pdu) ↔ s.TeidAdded teid := by
  obtain ⟨⟨rnti, lcid⟩, hsplit⟩ : ∃ p, teidinToRntilcid teid = p := ⟨_, rfl⟩
  have hteid : rntilcidToTeidin rnti lcid = teid := by
    have := rntilcidToTeidin_split teid.isLt
    rwa [hsplit] at this
  have hrnti : rnti < 2 ^ 16 := by
    rw [teidinToRntilcid_eq] at hsplit
    rw [← (Prod.mk.inj hsplit).1]
    exact Nat.mod_lt _ (by omega)
  unfold PdusRight TeidAdded acts dataPdu
  simp only [hsplit, Prod.mk.injEq]
  constructor
  · rintro h r l ⟨rfl, rfl⟩ hthere hdrb
    rw [if_neg (by simpa using hthere), if_neg (by unfold nofRadioBearers; omega)] at h
    obtain ⟨r', l', -, -, hr, hl, hadded, -⟩ := h _ (List.mem_singleton_self _)
    rwa [Fin.ext hr, Fin.ext hl] at hadded
  · intro h a ha
    split_ifs at ha with hnone hlcid
    · cases ha
    · cases ha
    · obtain rfl := List.mem_singleton.mp ha
      obtain ⟨hdrb, hlt⟩ := not_or.mp hlcid
      have hadded := h ⟨rnti, hrnti⟩ ⟨lcid, Nat.lt_of_not_ge hlt⟩ ⟨rfl, rfl⟩
        (by simpa using hnone) (Nat.le_of_not_lt hdrb)
      exact ⟨_, _, teid, rfl, rfl, rfl, hadded, hteid.symm⟩

/-! ## Every run -/

theorem not_acts_right (e : Event) (h : s.acts e = []) : s.PdusRight e := by
  intro a ha
  rw [h] at ha
  cases ha

/-- **The bearers of GTP-U.** In a run, the users are the ones with a bearer in every state and
each PDU goes the way of an added bearer, if and only if each step is an allowed one. -/
theorem bearers_right_iff (es : List Event) :
    (AllStates step UsersRight {} es ∧ AllSteps step PdusRight {} es) ↔
      AllSteps step Allowed {} es := by
  have h : AllSteps step Allowed {} es ↔
      AllSteps step PdusRight {} es ∧ AllStates step UsersRight {} es := by
    refine allSteps_iff (fun _ => Agrees) ?_ ?_ (fun _ _ => rfl) (fun _ => by simp)
    · intro s e _ hA hU hc
      cases e with
      | addBearer rnti lcid addr teidOut =>
        obtain ⟨hA', hU'⟩ := addBearer_kept hA hU rnti lcid addr teidOut
        exact ⟨not_acts_right _ rfl, hU', hA'⟩
      | remBearer rnti lcid =>
        obtain ⟨hA', hU'⟩ := (remBearer_kept hA hU rnti lcid).1 hc
        exact ⟨not_acts_right _ rfl, hU', hA'⟩
      | remUser rnti =>
        obtain ⟨hA', hU'⟩ := remUser_kept hA hU rnti
        exact ⟨not_acts_right _ rfl, hU', hA'⟩
      | writePdu rnti lcid pdu ok =>
        obtain ⟨hq, hsame⟩ := (writePdu_kept hA hU rnti lcid pdu ok).1 hc
        rw [hsame]
        exact ⟨hq, hU, hA⟩
      | dataPdu teid pdu => exact ⟨(dataPdu_right_iff teid pdu).mpr hc, hU, hA⟩
    · intro s e _ hA hU hc hq
      cases e with
      | addBearer rnti lcid addr teidOut => exact absurd trivial hc
      | remBearer rnti lcid => exact (remBearer_kept hA hU rnti lcid).2 hc
      | remUser rnti => exact absurd trivial hc
      | writePdu rnti lcid pdu ok => exact (writePdu_kept hA hU rnti lcid pdu ok).2 hc hq
      | dataPdu teid pdu => exact absurd ((dataPdu_right_iff teid pdu).mp hq) hc
  rw [h, and_comm]

/-- A PDU comes for a user after its only bearer was removed, and goes to the gateway 0. -/
def latePduRun : List Event :=
  [.addBearer 70 3 0x7F000001 1, .remBearer 70 3, .writePdu 70 3 [1] true]

theorem bearers_not_right_latePduRun :
    ¬ (AllStates step UsersRight {} latePduRun ∧ AllSteps step PdusRight {} latePduRun) := by
  rintro ⟨h, -⟩
  obtain ⟨l, hl⟩ := (h.last 70).mp (by decide)
  exact absurd hl (by revert l; decide)

end GtpuRun

end Srsenb.Gtpu
