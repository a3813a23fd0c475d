import Srsenb.Mac.DlMetricSpec
import Srsenb.Mac.Grants

/-! # What a round of the scheduler may do

The loops of `dl_sched` share the RBGs through `start_rbg` and `avail_rbg`, and all DCIs share
`used_cce`. One relation says what a single round of them changes. -/

namespace Srsenb.Mac

/-! ## DCIs -/

/-- The table after some DCIs: each took free CCEs, and each candidate that was refused had a
used one. -/
inductive CceTable.Grows : CceTable → CceTable → Prop
  | refl (t : CceTable) : Grows t t
  | take {t t' : CceTable} {ncce L : Nat} (h : Grows t t')
      (hfree : ∀ n, ncce ≤ n → n < ncce + 2 ^ L → t'.used n = false) : Grows t (t'.take ncce L)
  | refuse {t t' : CceTable} {cce : Nat} (h : Grows t t') (hused : t'.used cce = true) :
      Grows t (t'.refuse cce)

theorem CceTable.Grows.trans {t t' t'' : CceTable} (h : Grows t t') (h' : Grows t' t'') :
    Grows t t'' := by
  induction h' with
  | refl => exact h
  | take _ hfree ih => exact ih.take hfree
  | refuse _ hused ih => exact ih.refuse hused

theorem tryCandidates_grows {loc : DciCce} {L : Nat} {c : Nat → Bool} {t : CceTable} :
    ∀ {fuel cand : Nat} {t' : CceTable}, t.Grows t' →
      t.Grows (tryCandidates loc L c fuel cand t').2
  | 0, _, _, h => h
  | fuel + 1, cand, t', h => by
    by_cases hc : c (loc.cceStart L cand) = true
    · simp only [tryCandidates, hc, if_true]
      exact tryCandidates_grows h
    · simp only [tryCandidates, if_neg hc]
      split
      · rename_i cce hused
        exact tryCandidates_grows (h.refuse (List.find?_some hused))
      · rename_i hfree
        refine h.take fun n hn1 hn2 => ?_
        have := List.find?_eq_none.mp hfree n (List.mem_range'_1.mpr ⟨hn1, hn2⟩)
        simpa using this

@[simp] theorem CceTable.firstUsed_refuse (t : CceTable) (cce ncce L : Nat) :
    (t.refuse cce).firstUsed ncce L = t.firstUsed ncce L := rfl

theorem tryCandidates_isSome {loc : DciCce} {L : Nat} {c : Nat → Bool} :
    ∀ {fuel cand : Nat} {t : CceTable}, cand < loc.nofLoc L →
      ((tryCandidates loc L c fuel cand t).1.isSome = true ↔ ∃ k < fuel,
        c (loc.cceStart L ((cand + k) % loc.nofLoc L)) = false ∧
          t.firstUsed (loc.cceStart L ((cand + k) % loc.nofLoc L)) L = none)
  | 0, _, _, _ => by simp [tryCandidates]
  | fuel + 1, cand, t, hcand => by
    obtain ⟨next, hnext⟩ : ∃ next, (if cand + 1 = loc.nofLoc L then 0 else cand + 1) = next :=
      ⟨_, rfl⟩
    have hlt : next < loc.nofLoc L := by
      rw [← hnext]
      split_ifs <;> omega
    have hmod : ∀ k, (next + k) % loc.nofLoc L = (cand + (k + 1)) % loc.nofLoc L := by
      intro k
      rw [← hnext]
      split_ifs with h
      · rw [show cand + (k + 1) = loc.nofLoc L + k by omega, Nat.add_mod_left, Nat.zero_add]
      · congr 1
        omega
    have hrest : ∀ t', (tryCandidates loc L c fuel next t').1.isSome = true ↔ ∃ k < fuel,
        c (loc.cceStart L ((cand + (k + 1)) % loc.nofLoc L)) = false ∧
          t'.firstUsed (loc.cceStart L ((cand + (k + 1)) % loc.nofLoc L)) L = none := by
      intro t'
      rw [tryCandidates_isSome hlt]
      simp only [hmod]
    have h0 : (cand + 0) % loc.nofLoc L = cand := Nat.mod_eq_of_lt hcand
    rw [Nat.exists_lt_succ_left, h0]
    unfold tryCandidates
    simp only [hnext]
    by_cases hc : c (loc.cceStart L cand) = true
    · simp [hc, hrest]
    · rw [if_neg hc]
      cases hused : t.firstUsed (loc.cceStart L cand) L with
      | some cce => simpa using hrest (t.refuse cce)
      | none => simp [hc]

namespace Sched

variable (lib : Lib)

/-- What placing DCIs leaves of the scheduler. -/
def Places (s s' : Sched) : Prop := ∃ t n, s' = { s with cce := t, nofRand := n } ∧ s.cce.Grows t

theorem Places.trans {s s' s'' : Sched} (h : Places s s') (h' : Places s' s'') :
    Places s s'' := by
  obtain ⟨t, n, rfl, hg⟩ := h
  obtain ⟨t', n', rfl, hg'⟩ := h'
  exact ⟨t', n', rfl, hg.trans hg'⟩

/-- `generate_dci` changes the table and draws a random number, no more. -/
theorem generateDci_spec (s : Sched) (loc : DciCce) (L : Nat) (c : Nat → Bool) :
    Places s (s.generateDci lib loc L c).2 := by
  unfold generateDci
  split_ifs
  · exact ⟨s.cce, s.nofRand, rfl, .refl _⟩
  · exact ⟨_, _, rfl, tryCandidates_grows (.refl _)⟩

theorem generateDci_eq (s : Sched) (loc : DciCce) (L : Nat) (c : Nat → Bool) :
    ∃ found t n, s.generateDci lib loc L c = (found, { s with cce := t, nofRand := n }) ∧
      s.cce.Grows t := by
  obtain ⟨t, n, h, hg⟩ := generateDci_spec lib s loc L c
  exact ⟨_, t, n, Prod.ext rfl h, hg⟩

/-- A DCI is placed if and only if a candidate is free, whichever is tried first. -/
theorem generateDci_isSome (s : Sched) (loc : DciCce) (L : Nat)
    (c : Nat → Bool) : (s.generateDci lib loc L c).1.isSome = true ↔
      ∃ cand < loc.nofLoc L, c (loc.cceStart L cand) = false ∧
        s.cce.firstUsed (loc.cceStart L cand) L = none := by
  unfold generateDci
  split_ifs with h0
  · simp [h0]
  · have hpos : 0 < loc.nofLoc L := Nat.pos_of_ne_zero h0
    have hlt := Nat.mod_lt (lib.rand s.nofRand) hpos
    rw [tryCandidates_isSome hlt]
    constructor
    · rintro ⟨k, -, h⟩
      exact ⟨_, Nat.mod_lt _ hpos, h⟩
    · rintro ⟨j, hj, h⟩
      refine ⟨(j + loc.nofLoc L - lib.rand s.nofRand % loc.nofLoc L) % loc.nofLoc L,
        Nat.mod_lt _ hpos, ?_⟩
      rwa [Nat.add_mod_mod, show lib.rand s.nofRand % loc.nofLoc L + (j + loc.nofLoc L -
        lib.rand s.nofRand % loc.nofLoc L) = j + loc.nofLoc L by omega, Nat.add_mod_right,
        Nat.mod_eq_of_lt hj]

/-! ## Rounds -/

/-- A round keeps the books of SIBs and responses, may place DCIs, and emits nothing or the block
of the next RBGs. -/
structure Round (s s' : Sched) (new : List DlAlloc) : Prop where
  frame : ∃ t n sibs msg3 rars av st, s' =
    { s with
      cce := t, nofRand := n, pendingSibs := sibs, pendingMsg3 := msg3, pendingRar := rars,
      availRbg := av, startRbg := st }
  cce : s.cce.Grows s'.cce
  msg3 : ∀ i, s'.pendingMsg3 i = s.pendingMsg3 i ∨
    (s'.pendingMsg3 i).nPrb = 2 ∧ (s'.pendingMsg3 i).L = 3
  rbg : new = [] ∧ s'.startRbg = s.startRbg ∧ s'.availRbg = s.availRbg ∨
    ∃ n nPrb1a, n ≤ s.availRbg ∧ s'.startRbg = s.startRbg + n ∧ s'.availRbg = s.availRbg - n ∧
      new = [.type2 nPrb1a (n * s.P) (s.startRbg * s.P)]

/-- Rounds one after the other, with what they emit. -/
inductive Rounds : Sched → Sched → List DlAlloc → Prop
  | refl (s : Sched) : Rounds s s []
  | snoc {s s' s'' : Sched} {l l' : List DlAlloc} (h : Rounds s s' l) (hr : Round s' s'' l') :
      Rounds s s'' (l ++ l')

theorem Rounds.trans {s s' s'' : Sched} {l l' : List DlAlloc} (h : Rounds s s' l)
    (h' : Rounds s' s'' l') : Rounds s s'' (l ++ l') := by
  induction h' with
  | refl => simpa using h
  | snoc _ hr ih => simpa [List.append_assoc] using ih.snoc hr

/-- The rounds between two states emit what is new in the results, read by `alloc`. -/
def Emits {α : Type} (alloc : α → DlAlloc) (st st' : Sched × Elems α) : Prop :=
  ∃ new, Rounds st.1 st'.1 new ∧ st'.2.done.map alloc = st.2.done.map alloc ++ new

section Emits

variable {α β : Type} {alloc : α → DlAlloc} {st st' st'' : Sched × Elems α}

theorem Emits.refl (st : Sched × Elems α) : Emits alloc st st :=
  ⟨[], .refl _, by simp⟩

theorem Emits.trans (h : Emits alloc st st') (h' : Emits alloc st' st'') :
    Emits alloc st st'' := by
  obtain ⟨l, hr, hl⟩ := h
  obtain ⟨l', hr', hl'⟩ := h'
  exact ⟨l ++ l', hr.trans hr', by rw [hl', hl, List.append_assoc]⟩

theorem Emits.quiet (h : Round st.1 st'.1 []) (hd : st'.2.done = st.2.done) :
    Emits alloc st st' :=
  ⟨[], (Rounds.refl st.1).snoc h, by simp [hd]⟩

theorem Emits.one {a : α} (h : Round st.1 st'.1 [alloc a]) (hd : st'.2.done = st.2.done ++ [a]) :
    Emits alloc st st' :=
  ⟨[alloc a], (Rounds.refl st.1).snoc h, by simp [hd]⟩

theorem emits_foldl {f : Sched × Elems α → β → Sched × Elems α}
    (hf : ∀ st b, Emits alloc st (f st b)) (l : List β) (st : Sched × Elems α) :
    Emits alloc st (l.foldl f st) := by
  induction l generalizing st with
  | nil => exact .refl st
  | cons b l ih => exact (hf st b).trans (ih _)

end Emits

/-! ## Format 1A -/

/-- The search stops at an index whose transport block is large enough. -/
theorem format1aTbs_some {tbs found : Int} {n mcs : Nat}
    (h : format1aTbs lib tbs = some (n, mcs, found)) :
    mcs < 27 ∧ (n = 2 ∨ n = 3) ∧ found = lib.tbsFromIdx mcs n ∧ tbs ≤ found := by
  unfold format1aTbs at h
  obtain ⟨k, hk, hround⟩ := List.exists_of_findSome?_eq_some h
  split_ifs at hround with h2 h3
  · obtain ⟨rfl, rfl, rfl⟩ : 2 = n ∧ k = mcs ∧ lib.tbsFromIdx k 2 = found := by
      simpa using hround
    exact ⟨List.mem_range.mp hk, Or.inl rfl, rfl, h2⟩
  · obtain ⟨rfl, rfl, rfl⟩ : 3 = n ∧ k = mcs ∧ lib.tbsFromIdx k 3 = found := by
      simpa using hround
    exact ⟨List.mem_range.mp hk, Or.inr rfl, rfl, h3⟩

/-- The TBS is never less than what was asked for, whether there is an index for it or not. -/
theorem generateFormat1a_le (rbStart lCrb tbs rv : Nat) (dci : DlDci) :
    (tbs * 8 : Int) ≤ (generateFormat1a lib rbStart lCrb tbs rv dci).1 := by
  unfold generateFormat1a
  simp only
  cases h : format1aTbs lib (tbs * 8) with
  | none => exact le_rfl
  | some r => exact (format1aTbs_some lib h).2.2.2

/-! ## Broadcast -/

theorem sibWindow_round (s : Sched) (it : SibCfg × Nat) : Round s (sibWindow lib s it) [] := by
  have hset : ∀ i b, Round s (s.setSib i b) [] := fun i b =>
    ⟨⟨_, _, _, _, _, _, _, rfl⟩, .refl _, fun _ => Or.inl rfl, Or.inl ⟨rfl, rfl, rfl⟩⟩
  have hsame : Round s s [] :=
    ⟨⟨_, _, _, _, _, _, _, rfl⟩, .refl _, fun _ => Or.inl rfl, Or.inl ⟨rfl, rfl, rfl⟩⟩
  simp only [sibWindow]
  split_ifs <;> first | exact hsame | exact hset _ _

/-- A round that only tried to place a DCI. -/
theorem Places.round {s s1 : Sched} (h : Places s s1) : Round s s1 [] := by
  obtain ⟨t, n, rfl, hg⟩ := h
  exact ⟨⟨_, _, _, _, _, _, _, rfl⟩, hg, fun _ => Or.inl rfl, Or.inl ⟨rfl, rfl, rfl⟩⟩

/-- A round that placed a DCI for the next `k` RBGs. -/
theorem Places.block {s s1 : Sched} {k nPrb1a : Nat} (h : Places s s1) (sibs : Nat → SchedSib)
    (hk : k ≤ s.availRbg) :
    Round s ({ s1 with pendingSibs := sibs }.advanceRbg k)
      [.type2 nPrb1a (k * s.P) (s.startRbg * s.P)] := by
  obtain ⟨t, n, rfl, hg⟩ := h
  exact ⟨⟨_, _, _, _, _, _, _, rfl⟩, hg, fun _ => Or.inl rfl,
    Or.inr ⟨k, nPrb1a, hk, rfl, rfl, rfl⟩⟩

theorem sibSched_emits (st : Sched × Elems DlSchedBc) (it : SibCfg × Nat) :
    Emits (fun d => d.dci.alloc) st (sibSched lib st it) := by
  obtain ⟨s, out⟩ := st
  obtain ⟨sib, i⟩ := it
  obtain ⟨found, t, n, hdci, hg⟩ := generateDci_eq lib s
    (s.commonLocations (s.currentCfi - 1)) s.bcAggrLevel fun _ => false
  simp only [sibSched, hdci]
  split_ifs with hdue
  · cases found with
    | none => exact .quiet (Places.round ⟨t, n, rfl, hg⟩) rfl
    | some loc =>
      simp only
      split_ifs
      · refine .one ?_ rfl
        exact Places.block ⟨t, n, rfl, hg⟩ _ (Nat.le_of_lt hdue.2.2.2.1)
      · exact .quiet (Places.round ⟨t, n, rfl, hg⟩) rfl
  · exact .refl _

theorem pagingSched_emits (paging : Option Nat) (st : Sched × Elems DlSchedBc) :
    Emits (fun d => d.dci.alloc) st (pagingSched lib paging st) := by
  obtain ⟨s, out⟩ := st
  obtain ⟨found, t, n, hdci, hg⟩ := generateDci_eq lib s
    (s.commonLocations (s.currentCfi - 1)) s.bcAggrLevel fun _ => false
  cases paging with
  | none => exact .refl _
  | some payload =>
    simp only [pagingSched, hdci]
    split_ifs with hroom
    · cases found with
      | none => exact .quiet (Places.round ⟨t, n, rfl, hg⟩) rfl
      | some loc =>
        simp only
        split_ifs
        · refine .one ?_ rfl
          exact Places.block ⟨t, n, rfl, hg⟩ s.pendingSibs (Nat.le_of_lt hroom.1)
        · exact .quiet (Places.round ⟨t, n, rfl, hg⟩) rfl
    · exact .refl _

/-- An element is a block of so many bytes in the next RBGs, which are not the last ones. -/
structure BcBlock (s : Sched) (type : BcType) (bytes : Nat) (g : DlSchedBc) : Prop where
  room : s.siNRbg < s.availRbg
  nonempty : bytes ≠ 0
  type : g.type = type
  made : ∃ rv dci, g.tbs =
      (generateFormat1a lib (s.startRbg * s.P) (s.siNRbg * s.P) bytes rv dci).1 ∧
    g.dci = (generateFormat1a lib (s.startRbg * s.P) (s.siNRbg * s.P) bytes rv dci).2

theorem sibSched_new (st : Sched × Elems DlSchedBc) (it : SibCfg × Nat) :
    ∀ g ∈ (sibSched lib st it).2.done, g ∈ st.2.done ∨
      BcBlock lib st.1 .bcch it.1.len g ∧ g.index = it.2 := by
  obtain ⟨s, out⟩ := st
  obtain ⟨sib, i⟩ := it
  intro g hg
  obtain ⟨found, t, n, hdci, -⟩ := generateDci_eq lib s
    (s.commonLocations (s.currentCfi - 1)) s.bcAggrLevel fun _ => false
  simp only [sibSched, hdci] at hg
  split_ifs at hg with hdue
  · cases found with
    | none => exact Or.inl hg
    | some loc =>
      simp only at hg
      split_ifs at hg
      · refine (List.mem_append.mp hg).imp_right fun hg => ?_
        rw [List.mem_singleton.mp hg]
        exact ⟨⟨hdue.2.2.2.1, hdue.1, rfl, _, _, rfl, rfl⟩, rfl⟩
      · exact Or.inl hg
  · exact Or.inl hg

theorem pagingSched_new (paging : Option Nat) (st : Sched × Elems DlSchedBc) :
    ∀ g ∈ (pagingSched lib paging st).2.done, g ∈ st.2.done ∨
      ∃ payload, paging = some payload ∧ BcBlock lib st.1 .pcch payload g := by
  obtain ⟨s, out⟩ := st
  intro g hg
  obtain ⟨found, t, n, hdci, -⟩ := generateDci_eq lib s
    (s.commonLocations (s.currentCfi - 1)) s.bcAggrLevel fun _ => false
  cases paging with
  | none => exact Or.inl hg
  | some payload =>
    simp only [pagingSched, hdci] at hg
    split_ifs at hg with hdue
    · cases found with
      | none => exact Or.inl hg
      | some loc =>
        simp only at hg
        split_ifs at hg
        · refine (List.mem_append.mp hg).imp_right fun hg => ?_
          rw [List.mem_singleton.mp hg]
          exact ⟨payload, rfl, hdue.1, hdue.2, rfl, _, _, rfl, rfl⟩
        · exact Or.inl hg
    · exact Or.inl hg

theorem sibWindows_rounds (its : List (SibCfg × Nat)) (s : Sched) :
    Rounds s (its.foldl (sibWindow lib) s) [] := by
  induction its generalizing s with
  | nil => exact .refl s
  | cons it its ih => exact ((Rounds.refl s).snoc (sibWindow_round lib s it)).trans (ih _)

theorem dlSchedBc_emits (s : Sched) (paging : Option Nat) :
    ∃ new, Rounds s (s.dlSchedBc lib paging).1 new ∧
      (s.dlSchedBc lib paging).2.map (fun d => d.dci.alloc) = new := by
  obtain ⟨s1, hs1⟩ : ∃ s1, s.cfg.sibs.zipIdx.foldl (sibWindow lib) s = s1 := ⟨_, rfl⟩
  have h0 := hs1 ▸ sibWindows_rounds lib s.cfg.sibs.zipIdx s
  obtain ⟨new, hr, hmap⟩ := (emits_foldl (sibSched_emits lib) s1.cfg.sibs.zipIdx
    (s1, ⟨[], default⟩)).trans (pagingSched_emits lib paging _)
  refine ⟨new, ?_, ?_⟩
  · simpa [dlSchedBc, hs1] using h0.trans hr
  · simpa [dlSchedBc, hs1] using hmap

/-! ## Random access response -/

/-- The books of the responses and of Msg3 change; a new Msg3 has the PRBs of the response. -/
def RarKeeps (s s' : Sched) : Prop :=
  ∃ msg3 rars, s' = { s with pendingMsg3 := msg3, pendingRar := rars } ∧
    ∀ i, msg3 i = s.pendingMsg3 i ∨ (msg3 i).nPrb = 2 ∧ (msg3 i).L = 3

theorem rarGrant_keeps (i tti : Nat) (st : Sched × DlSchedRar) (j : Nat) :
    RarKeeps st.1 (rarGrant lib i tti st j).1 := by
  obtain ⟨s, rar⟩ := st
  have hsame : RarKeeps s s := ⟨_, _, rfl, fun _ => Or.inl rfl⟩
  simp only [rarGrant]
  split_ifs
  · refine ⟨_, _, rfl, fun k => ?_⟩
    by_cases hk : k = (s.currentTti + msg3DelayMs + harqDelayMs) % 10
    · subst hk
      exact Or.inr (by simp)
    · exact Or.inl (Function.update_of_ne hk _ _)
  · exact hsame
  · exact hsame

theorem rarGrants_keep (i tti : Nat) (l : List Nat) (st : Sched × DlSchedRar) :
    RarKeeps st.1 (l.foldl (rarGrant lib i tti) st).1 := by
  induction l generalizing st with
  | nil => exact ⟨_, _, rfl, fun _ => Or.inl rfl⟩
  | cons j l ih =>
    obtain ⟨m1, r1, h1, hm1⟩ := rarGrant_keeps lib i tti st j
    obtain ⟨m2, r2, h2, hm2⟩ := ih (rarGrant lib i tti st j)
    rw [h1] at h2 hm2
    refine ⟨m2, r2, h2, fun k => ?_⟩
    rcases hm2 k with hk | hk
    · rw [hk]
      exact hm1 k
    · exact Or.inr hk

theorem rarSched_emits (st : Sched × Elems DlSchedRar) (i : Nat) :
    Emits (fun d => d.dci.alloc) st (rarSched lib st i) := by
  obtain ⟨s, out⟩ := st
  obtain ⟨found, t, n, hdci, hg⟩ := generateDci_eq lib s
    (s.rarLocations (s.currentCfi - 1) s.sfIdx) s.rarAggrLevel fun _ => false
  simp only [rarSched, hdci]
  split_ifs with hdue hwindow
  · cases found with
    | none => exact .quiet (Places.round ⟨t, n, rfl, hg⟩) rfl
    | some loc =>
      obtain ⟨msg3, rars, hkeep, hmsg3⟩ := rarGrants_keep lib i (s.pendingRar i).rarTti
        (List.range schedMaxPendingRar)
        ({ s with cce := t, nofRand := n },
          { out.slot with dciLocation := loc, nofGrants := 0, tbs := 0 })
      simp only [hkeep]
      split_ifs
      · exact .one
          ⟨⟨_, _, _, _, _, _, _, rfl⟩, hg, hmsg3,
            Or.inr ⟨s.rarNRbg, _, hdue.2, rfl, rfl, rfl⟩⟩ rfl
      · exact .quiet ⟨⟨_, _, _, _, _, _, _, rfl⟩, hg, hmsg3, Or.inl ⟨rfl, rfl, rfl⟩⟩ rfl
  · exact .quiet ⟨⟨_, _, _, _, _, _, _, rfl⟩, .refl _, fun _ => Or.inl rfl,
      Or.inl ⟨rfl, rfl, rfl⟩⟩ rfl
  · exact .refl _

theorem dlSchedRar_emits (s : Sched) :
    ∃ new, Rounds s (s.dlSchedRar lib).1 new ∧
      (s.dlSchedRar lib).2.map (fun d => d.dci.alloc) = new := by
  obtain ⟨new, hr, hmap⟩ := emits_foldl (rarSched_emits lib)
    (List.range schedMaxPendingRar) (s, ⟨[], default⟩)
  exact ⟨new, hr, by simpa [dlSchedRar] using hmap⟩

/-! ## Data -/

/-- The round of a user places at most one DCI, and grants at most the mask of the process that
the metric chose. -/
theorem dataUser_spec (s : Sched) (out : Elems DlSchedData) (k : Nat) (u : SchedUe) :
    let r := dataUser lib (s, out) k u
    Places s r.1.1 ∧ SameAlloc u r.2 ∧
      (r.1.2.done = out.done ∨ ∃ d pid, r.1.2.done = out.done ++ [d] ∧
        u.dlNextAlloc = some pid ∧ d.dci.alloc = .type0 (u.dlHarq pid).rbgmask) := by
  intro r
  simp only [r, dataUser]
  split
  · exact ⟨⟨_, _, rfl, .refl _⟩, SameAlloc.resetTimeout lib _, Or.inl rfl⟩
  · rename_i pid hpid
    obtain ⟨t, n, hdci, hg⟩ := generateDci_spec lib s
      (u.getLocations s.currentCfi s.sfIdx)
      (u.getAggrLevel lib (lib.dciFormatSizeof .format1 s.cfg.cell.nofPrb s.cfg.cell.nofPorts))
      (u.pucchSrCollision lib s.currentTti)
    split
    · rename_i s1 hs1
      rw [hs1] at hdci
      exact ⟨⟨t, n, hdci, hg⟩, (SameAlloc.setDl _).trans (SameAlloc.resetTimeout lib _), Or.inl rfl⟩
    · rename_i loc s1 hs1
      rw [hs1] at hdci
      have hformat : u.getDciFormat ≠ .format0 := by
        unfold SchedUe.getDciFormat
        split_ifs
        · split <;> exact DciFormat.noConfusion
        · exact DciFormat.noConfusion
      obtain ⟨hsame, halloc⟩ := generateFormat_spec lib u pid
        { { out.slot with dciFormat := u.getDciFormat } with dciLocation := loc }
        s1.currentTti s1.currentCfi hformat
      refine ⟨⟨t, n, hdci, hg⟩, hsame.trans (SameAlloc.resetTimeout lib _), ?_⟩
      simp only
      split_ifs
      · exact Or.inr ⟨_, pid, rfl, hpid, halloc⟩
      · exact Or.inl rfl

theorem visitUser_same (m : DlMetric) (k : Nat) (u : SchedUe) :
    SameAlloc u (DlMetric.visitUser lib m k u).2 := by
  simp only [DlMetric.visitUser]
  split
  · rename_i pid m' u' happly
    obtain ⟨mask, hout⟩ := DlMetric.applyUserAllocation_spec happly
    rw [hout.user]
    exact ⟨rfl, fun _ => rfl⟩
  · exact ⟨rfl, fun _ => rfl⟩

/-- `dl_sched_data` places DCIs and changes the users, who keep their uplink allocations. -/
theorem dlSchedData_spec (s : Sched) :
    (∃ m db st s1, Places s s1 ∧
      (s.dlSchedData lib).1 = { s1 with dlMetric := m, ueDb := db, startRbg := st }) ∧
      ∀ Q : Nat → SchedUe → Prop, (∀ k u u', SameAlloc u u' → Q k u → Q k u') →
        (∀ (k : Nat) (u : SchedUe), s.ueDb[k]? = some u → Q k u) →
        ∀ (k : Nat) (u : SchedUe), (s.dlSchedData lib).1.ueDb[k]? = some u → Q k u := by
  obtain ⟨st, hst⟩ : ∃ st, s.prachStart lib = { s with startRbg := st } := by
    unfold prachStart
    split_ifs <;> exact ⟨_, rfl⟩
  obtain ⟨⟨m, db⟩, hm⟩ : ∃ r, s.dlMetric.newTti lib s.ueDb st s.availRbg
      (if s.cfg.cell.nofPrb < 10 then s.currentCfi + 1 else s.currentCfi) s.currentTti = r :=
    ⟨_, rfl⟩
  have hplaces := StdMap.visit_ind (f := dataUser lib)
    (fun st1 _ => Places { s with startRbg := st, dlMetric := m } st1.1)
    (fun st1 db1 k u h _ => h.trans (dataUser_spec lib st1.1 st1.2 k u).1)
    db.keys ({ s with startRbg := st, dlMetric := m }, ⟨[], default⟩) db
    ⟨_, _, rfl, .refl _⟩
  have hmetric : ∀ Q : Nat → SchedUe → Prop, (∀ k u u', SameAlloc u u' → Q k u → Q k u') →
      (∀ (k : Nat) (u : SchedUe), s.ueDb[k]? = some u → Q k u) →
      ∀ (k : Nat) (u : SchedUe), db[k]? = some u → Q k u := by
    intro Q hQ h0
    have := StdMap.visit_forall (f := DlMetric.visitUser lib) (Q := Q)
      (fun m1 k u hu => hQ k u _ (visitUser_same lib m1 k u) hu)
      (fromPriority s.ueDb (s.currentTti % s.ueDb.size)) (s.dlMetric.start st s.availRbg
        (if s.cfg.cell.nofPrb < 10 then s.currentCfi + 1 else s.currentCfi) s.currentTti) h0
    unfold DlMetric.newTti at hm
    rwa [hm] at this
  have hdata : ∀ Q : Nat → SchedUe → Prop, (∀ k u u', SameAlloc u u' → Q k u → Q k u') →
      (∀ (k : Nat) (u : SchedUe), db[k]? = some u → Q k u) → ∀ (k : Nat) (u : SchedUe),
        (db.visit (dataUser lib) db.keys
          ({ s with startRbg := st, dlMetric := m }, ⟨[], default⟩)).2[k]? = some u → Q k u :=
    fun Q hQ h0 => StdMap.visit_forall (Q := Q)
      (fun (st1 : Sched × Elems DlSchedData) k u hu =>
        hQ k u _ (dataUser_spec lib st1.1 st1.2 k u).2.1 hu) db.keys _ h0
  obtain ⟨⟨⟨s2, out⟩, db2⟩, hv⟩ : ∃ r, db.visit (dataUser lib) db.keys
      ({ s with startRbg := st, dlMetric := m }, ⟨[], default⟩) = r := ⟨_, rfl⟩
  rw [hv] at hplaces hdata
  have heq : s.dlSchedData lib = ({ s2 with ueDb := db2 }, out.done) := by
    simp only [dlSchedData, hst, hm, hv]
  rw [heq]
  refine ⟨?_, fun Q hQ h0 => hdata Q hQ (hmetric Q hQ h0)⟩
  obtain ⟨t, n, hs2, hg⟩ := hplaces
  simp only at hs2
  subst hs2
  exact ⟨m, db2, st, { s with cce := t, nofRand := n }, ⟨t, n, rfl, hg⟩, rfl⟩

/-! ## What rounds keep -/

variable {s s' : Sched} {new : List DlAlloc}

/-- The fields that no round touches. -/
structure SameSetup (s s' : Sched) : Prop where
  cfg : s'.cfg = s.cfg
  P : s'.P = s.P
  nofRbg : s'.nofRbg = s.nofRbg
  currentTti : s'.currentTti = s.currentTti
  ueDb : s'.ueDb = s.ueDb

theorem Rounds.frame (h : Rounds s s' new) : ∃ t n sibs msg3 rars av st, s' =
    { s with
      cce := t, nofRand := n, pendingSibs := sibs, pendingMsg3 := msg3, pendingRar := rars,
      availRbg := av, startRbg := st } := by
  induction h with
  | refl => exact ⟨_, _, _, _, _, _, _, rfl⟩
  | snoc _ hr ih =>
    obtain ⟨_, _, _, _, _, _, _, rfl⟩ := ih
    exact hr.frame

theorem Rounds.setup (h : Rounds s s' new) : SameSetup s s' := by
  obtain ⟨_, _, _, _, _, _, _, rfl⟩ := h.frame
  exact ⟨rfl, rfl, rfl, rfl, rfl⟩

theorem Rounds.grows (h : Rounds s s' new) : s.cce.Grows s'.cce := by
  induction h with
  | refl => exact .refl _
  | snoc _ hr ih => exact ih.trans hr.cce

theorem Rounds.msg3 (h : Rounds s s' new) (i : Nat) : s'.pendingMsg3 i = s.pendingMsg3 i ∨
    (s'.pendingMsg3 i).nPrb = 2 ∧ (s'.pendingMsg3 i).L = 3 := by
  induction h with
  | refl => exact Or.inl rfl
  | snoc _ hr ih =>
    rcases hr.msg3 i with hi | hi
    · rw [hi]
      exact ih
    · exact Or.inr hi

end Sched

end Srsenb.Mac
