import Srsenb.Mac.DlRounds
import Srsenb.Mac.HarqRetx

/-! # Downlink grants of a call share no RBG -/

open Srsenb.Pool

namespace Srsenb.Mac

/-- The RBGs of an allocation. A mask is read with `nof_rbg` bits. -/
def DlAlloc.rbgs (P nofRbg : Nat) : DlAlloc → Set Nat
  | .type2 _ lCrb rbStart => { r | ∃ prb, rbStart ≤ prb ∧ prb < rbStart + lCrb ∧ prb / P = r }
  | .type0 mask => { r | r < nofRbg ∧ mask.testBit (nofRbg - 1 - r) = true }

def DlSchedRes.allocs (res : DlSchedRes) : List DlAlloc :=
  res.bc.map (fun d => d.dci.alloc) ++ res.rar.map (fun d => d.dci.alloc) ++
    res.data.map (fun d => d.dci.alloc)

/-- No two of the allocations have an RBG in common. -/
def Exclusive (P nofRbg : Nat) (l : List DlAlloc) : Prop :=
  l.Pairwise fun a b => Disjoint (a.rbgs P nofRbg) (b.rbgs P nofRbg)

variable {P N : Nat}

theorem disjoint_rbgs {m m' : Nat} (h : Disjoint (bits m) (bits m')) :
    Disjoint ((DlAlloc.type0 m).rbgs P N) ((DlAlloc.type0 m').rbgs P N) := by
  rw [Set.disjoint_left] at h ⊢
  rintro r ⟨-, hr⟩ ⟨-, hr'⟩
  exact h hr hr'

/-! ## Broadcast and random access -/

/-- The blocks of the common channels lie between two values of `start_rbg`. -/
structure Blocks (P N st st' : Nat) (l : List DlAlloc) : Prop where
  le : st ≤ st'
  within : ∀ a ∈ l, a.rbgs P N ⊆ { r | st ≤ r ∧ r < st' }
  excl : Exclusive P N l

theorem Blocks.append {st st' st'' : Nat} {l l' : List DlAlloc} (h : Blocks P N st st' l)
    (h' : Blocks P N st' st'' l') : Blocks P N st st'' (l ++ l') where
  le := h.le.trans h'.le
  within := by
    intro a ha r hr
    have h1 := h.le
    have h2 := h'.le
    rcases List.mem_append.mp ha with ha | ha
    · obtain ⟨h3, h4⟩ := h.within a ha hr
      exact ⟨h3, by omega⟩
    · obtain ⟨h3, h4⟩ := h'.within a ha hr
      exact ⟨by omega, h4⟩
  excl := by
    apply List.pairwise_append.mpr
    refine ⟨h.excl, h'.excl, fun a ha b hb => ?_⟩
    rw [Set.disjoint_left]
    intro r hr hr'
    obtain ⟨-, h1⟩ := h.within a ha hr
    obtain ⟨h2, -⟩ := h'.within b hb hr'
    omega

/-- A block is the RBGs from `start_rbg` on. -/
theorem block_within (n st nPrb1a : Nat) :
    (DlAlloc.type2 nPrb1a (n * P) (st * P)).rbgs P N ⊆ { r | st ≤ r ∧ r < st + n } := by
  rintro r ⟨prb, h1, h2, rfl⟩
  have hP : 0 < P := by
    rcases Nat.eq_zero_or_pos P with rfl | hP
    · omega
    · exact hP
  rw [← Nat.add_mul] at h2
  exact ⟨(Nat.le_div_iff_mul_le hP).mpr h1, (Nat.div_lt_iff_lt_mul hP).mpr h2⟩

namespace Sched

variable {s s' : Sched} {new : List DlAlloc}

/-- What is used and what is left make up all RBGs. -/
theorem Round.blocks (h : Round s s' new) :
    Blocks s.P N s.startRbg s'.startRbg new ∧
      s'.startRbg + s'.availRbg = s.startRbg + s.availRbg := by
  rcases h.rbg with ⟨rfl, hst, hav⟩ | ⟨n, nPrb1a, hn, hst, hav, rfl⟩
  · rw [hst, hav]
    exact ⟨⟨le_rfl, by simp, .nil⟩, rfl⟩
  · refine ⟨⟨by omega, ?_, List.pairwise_singleton _ _⟩, by omega⟩
    intro a ha
    rw [List.mem_singleton.mp ha, hst]
    exact block_within n s.startRbg nPrb1a

theorem Rounds.blocks (h : Rounds s s' new) :
    Blocks s.P N s.startRbg s'.startRbg new ∧
      s'.startRbg + s'.availRbg = s.startRbg + s.availRbg := by
  induction h with
  | refl => exact ⟨⟨le_rfl, by simp, .nil⟩, rfl⟩
  | snoc h hr ih =>
    obtain ⟨hb, hsum⟩ := hr.blocks (N := N)
    rw [h.setup.P] at hb
    exact ⟨ih.1.append hb, hsum.trans ih.2⟩

/-! ## Data -/

/-- The grants so far: each has the mask that the metric gave to a user of the loop. -/
structure DataGranted (P N : Nat) (db0 : StdMap SchedUe) (done : List Nat) (l : List DlSchedData)
    (db : StdMap SchedUe) : Prop where
  rest : ∀ k ∉ done, db[k]? = db0[k]?
  mine : ∀ d ∈ l, ∃ k ∈ done, ∃ (u : SchedUe) (pid : Pid), db0[k]? = some u ∧
    u.dlNextAlloc = some pid ∧ d.dci.alloc = .type0 (u.dlHarq pid).rbgmask
  excl : Exclusive P N (l.map fun d => d.dci.alloc)

theorem granted_of_get {db : StdMap SchedUe} {k : Nat} {u : SchedUe} {pid : Pid}
    (hu : db[k]? = some u) (hpid : u.dlNextAlloc = some pid) :
    DlMetric.granted db k = some (bits (u.dlHarq pid).rbgmask) := by
  simp [DlMetric.granted, hu, hpid]

theorem dataGranted_step {lib : Lib} {s : Sched} {out : Elems DlSchedData} {k : Nat} {u : SchedUe}
    {db0 db : StdMap SchedUe} {done : List Nat}
    (hexcl : ∀ k l, k ≠ l → ∀ A B, DlMetric.granted db0 k = some A →
      DlMetric.granted db0 l = some B → Disjoint A B)
    (h : DataGranted P N db0 done out.done db) (hk : k ∉ done) (hu : db[k]? = some u) :
    DataGranted P N db0 (k :: done) (dataUser lib (s, out) k u).1.2.done
      (db.insert k (dataUser lib (s, out) k u).2) := by
  obtain ⟨-, -, hadds⟩ := dataUser_spec lib s out k u
  have hrest : ∀ l ∉ k :: done, (db.insert k (dataUser lib (s, out) k u).2)[l]? = db0[l]? := by
    intro l hl
    rw [StdMap.getElem?_insert, if_neg (Ne.symm (List.ne_of_not_mem_cons hl))]
    exact h.rest l (List.not_mem_of_not_mem_cons hl)
  have hold : ∀ d ∈ out.done, ∃ k' ∈ k :: done, ∃ (v : SchedUe) (pid : Pid), db0[k']? = some v ∧
      v.dlNextAlloc = some pid ∧ d.dci.alloc = .type0 (v.dlHarq pid).rbgmask := by
    intro d hd
    obtain ⟨k', hk', hv⟩ := h.mine d hd
    exact ⟨k', List.mem_cons_of_mem k hk', hv⟩
  rcases hadds with hsame | ⟨d, pid, hnew, hpid, halloc⟩
  · rw [hsame]
    exact ⟨hrest, hold, h.excl⟩
  · have hu0 : db0[k]? = some u := h.rest k hk ▸ hu
    rw [hnew]
    refine ⟨hrest, ?_, ?_⟩
    · intro e he
      rcases List.mem_append.mp he with he | he
      · exact hold e he
      · rw [List.mem_singleton.mp he]
        exact ⟨k, List.mem_cons_self, u, pid, hu0, hpid, halloc⟩
    · -- The users before have other keys, so the metric gave them other RBGs.
      unfold Exclusive
      rw [List.map_append]
      apply List.pairwise_append.mpr
      refine ⟨h.excl, List.pairwise_singleton _ _, ?_⟩
      intro a ha b hb
      obtain ⟨e, he, rfl⟩ := List.mem_map.mp ha
      obtain rfl : b = d.dci.alloc := by simpa using hb
      obtain ⟨k', hk', v, pid', hv, hpid', he⟩ := h.mine e he
      rw [he, halloc]
      apply disjoint_rbgs
      refine hexcl k' k ?_ _ _ (granted_of_get hv hpid') (granted_of_get hu0 hpid)
      rintro rfl
      exact hk hk'

/-- What a data grant may be, when the metric starts at `st`: clear of the upper bits, and below
the total or the stored mask of a pending retransmission. -/
def FairMask (lib : Lib) (s : Sched) (st : Nat) (a : DlAlloc) : Prop :=
  ∃ mask, a = .type0 mask ∧
    Disjoint (bits mask) { b | s.availRbg ≤ b ∧ b < st + s.availRbg } ∧
    ∃ (k : Nat) (u : SchedUe) (pid : Pid), s.ueDb[k]? = some u ∧
      DlMetric.BelowOrStored lib (st + s.availRbg) s.currentTti u pid mask

theorem dlSchedData_grants (lib : Lib) (s : Sched) :
    Exclusive P N ((s.dlSchedData lib).2.map fun d => d.dci.alloc) ∧
      ∀ d ∈ (s.dlSchedData lib).2, FairMask lib s (s.prachStart lib).startRbg d.dci.alloc := by
  obtain ⟨st, hst⟩ : ∃ st, s.prachStart lib = { s with startRbg := st } := by
    unfold prachStart
    split_ifs <;> exact ⟨_, rfl⟩
  obtain ⟨done, hshared, hall⟩ := DlMetric.newTti_shared lib s.dlMetric s.ueDb st s.availRbg
    (if s.cfg.cell.nofPrb < 10 then s.currentCfi + 1 else s.currentCfi) s.currentTti
  obtain ⟨⟨m, db⟩, hm⟩ : ∃ r, s.dlMetric.newTti lib s.ueDb st s.availRbg
      (if s.cfg.cell.nofPrb < 10 then s.currentCfi + 1 else s.currentCfi) s.currentTti = r :=
    ⟨_, rfl⟩
  rw [hm] at hshared
  -- A user that the metric did not visit is not there.
  have hdone : ∀ (k : Nat) (u : SchedUe), db[k]? = some u → k ∈ done := by
    intro k u hu
    by_contra hk
    rw [hshared.known k (hall k hk)] at hu
    cases hu
  have hdone' : ∀ k A, DlMetric.granted db k = some A → k ∈ done := by
    intro k A hA
    cases hk : db[k]? with
    | some u => exact hdone k u hk
    | none => simp [DlMetric.granted, hk] at hA
  have hrun := StdMap.visit_inv (f := dataUser lib)
    (fun ks st1 db1 => DataGranted P N db ks st1.2.done db1)
    (fun ks st1 db1 k u h hk hu => dataGranted_step
      (fun k l hne A B hA hB => hshared.held.excl k (hdone' k A hA) l (hdone' l B hB) hne A B hA hB)
      h hk hu)
    (fun ks st1 db1 k h hk => ⟨fun l hl => h.rest l (List.not_mem_of_not_mem_cons hl),
      fun d hd => (h.mine d hd).imp fun l hl => ⟨List.mem_cons_of_mem k hl.1, hl.2⟩, h.excl⟩)
    db.keys [] ({ s with startRbg := st, dlMetric := m }, ⟨[], default⟩) db
    (StdMap.nodup_keys db) (by simp) ⟨fun _ _ => rfl, by simp, .nil⟩
  obtain ⟨⟨⟨s2, out⟩, db2⟩, hv⟩ : ∃ r, db.visit (dataUser lib) db.keys
      ({ s with startRbg := st, dlMetric := m }, ⟨[], default⟩) = r := ⟨_, rfl⟩
  rw [hv] at hrun
  have heq : (s.dlSchedData lib).2 = out.done := by
    simp only [dlSchedData, hst, hm, hv]
  rw [heq, hst]
  refine ⟨hrun.excl, fun d hd => ?_⟩
  obtain ⟨k, -, u, pid, hu, hpid, halloc⟩ := hrun.mine d hd
  obtain ⟨u0, hu0, hbelow⟩ := hshared.own k (hdone k u hu) u pid hu hpid
  exact ⟨_, halloc, hshared.held.fresh k (hdone k u hu) _ (granted_of_get hu hpid), k, u0, pid,
    hu0, hbelow⟩

/-! ## A call -/

/-- The RBGs that broadcast and random access leave to data. -/
def rbgsLeft (lib : Lib) (s : Sched) (tti : Nat) (paging : Option Nat) : Nat :=
  (((s.dlStart tti).dlSchedBc lib paging).1.dlSchedRar lib).1.availRbg

/-- In a narrow cell and with a PRACH to come, no stored mask of a pending retransmission reaches
into the RBGs that are used and not marked, unless it meets marked ones as well. -/
def RetxClear (lib : Lib) (s : Sched) (tti : Nat) (paging : Option Nat) : Prop :=
  s.cfg.cell.nofPrb < 10 → lib.prachTtiOpportunity s.cfg.prachConfig (tti + 4) = true →
    ∀ (k : Nat) (u : SchedUe) (pid : Pid), s.ueDb[k]? = some u →
      u.getPendingDlHarq lib tti = some pid →
      ∀ b, 2 * s.rbgsLeft lib tti paging ≤ b → b < s.nofRbg →
        (u.dlHarq pid).rbgmask.testBit b = true →
        ∃ b', s.rbgsLeft lib tti paging ≤ b' ∧ b' < 2 * s.rbgsLeft lib tti paging ∧
          (u.dlHarq pid).rbgmask.testBit b' = true

/-- A mask that the condition allows meets no RBG before `start_rbg`. -/
theorem fairMask_after {lib : Lib} {tti st : Nat} {paging : Option Nat}
    (h : s.RetxClear lib tti paging) (hdb : s'.ueDb = s.ueDb) (htti : s'.currentTti = tti)
    (hav : s'.availRbg = s.rbgsLeft lib tti paging) (hsum : s'.startRbg + s'.availRbg = s.nofRbg)
    (hst : st = s'.startRbg ∨ st = s'.availRbg ∧ s.cfg.cell.nofPrb < 10 ∧
      lib.prachTtiOpportunity s.cfg.prachConfig (tti + 4) = true)
    {a : DlAlloc} (hfair : FairMask lib s' st a) :
    a.rbgs P s.nofRbg ⊆ { r | s'.startRbg ≤ r } := by
  obtain ⟨mask, rfl, hclear, k, u, pid, hu, hbelow⟩ := hfair
  rw [Set.disjoint_left] at hclear
  rintro r ⟨hr, hbit⟩
  by_contra hlt
  have hlt' : r < s'.startRbg := by simpa using hlt
  -- The bit of an RBG before `start_rbg` is an upper one.
  have hb := hclear hbit
  rcases hst with rfl | ⟨rfl, hnarrow, hprach⟩
  · exact hb ⟨by omega, by omega⟩
  · have hhigh : 2 * s'.availRbg ≤ s.nofRbg - 1 - r := by
      by_contra hle
      exact hb ⟨by omega, by omega⟩
    rcases hbelow with hbelow | ⟨rfl, hpend⟩
    · have := hbelow _ hbit
      omega
    · -- A stored mask in the unmarked RBGs meets a marked one.
      rw [hdb] at hu
      rw [htti] at hpend
      obtain ⟨b, hb1, hb2, hb3⟩ := h hnarrow hprach k u pid hu hpend _ (hav ▸ hhigh) (by omega) hbit
      exact hclear hb3 ⟨by omega, by omega⟩

/-- **Downlink grants of a call share no RBG**, unless a stored mask reaches into the RBGs that a
narrow cell leaves unmarked before a PRACH. -/
theorem dl_exclusive (lib : Lib) (s : Sched) (tti : Nat) (paging : Option Nat)
    (h : s.RetxClear lib tti paging) :
    Exclusive s.P s.nofRbg (s.dlSched lib tti paging).2.allocs := by
  unfold dlSched
  split_ifs
  · exact .nil
  · obtain ⟨bc, hbc, hbcs⟩ := dlSchedBc_emits lib (s.dlStart tti) paging
    obtain ⟨s1, hs1⟩ : ∃ s1, ((s.dlStart tti).dlSchedBc lib paging).1 = s1 := ⟨_, rfl⟩
    obtain ⟨rar, hrar, hrars⟩ := dlSchedRar_emits lib s1
    obtain ⟨s2, hs2⟩ : ∃ s2, (s1.dlSchedRar lib).1 = s2 := ⟨_, rfl⟩
    rw [hs1] at hbc
    rw [hs2] at hrar
    simp only [hs1, hs2, DlSchedRes.allocs, hbcs, hrars]
    -- The blocks come first, and the masks follow them.
    obtain ⟨hblocks, hsum⟩ := (hbc.trans hrar).blocks (N := s.nofRbg)
    have hsetup := (hbc.trans hrar).setup
    obtain ⟨hexcl, hfair⟩ := dlSchedData_grants (P := s.P) (N := s.nofRbg) lib s2
    have hleft : s2.availRbg = s.rbgsLeft lib tti paging := by
      rw [rbgsLeft, hs1, hs2]
    have hstart : (s2.prachStart lib).startRbg = s2.startRbg ∨
        (s2.prachStart lib).startRbg = s2.availRbg ∧ s.cfg.cell.nofPrb < 10 ∧
          lib.prachTtiOpportunity s.cfg.prachConfig (tti + 4) = true := by
      unfold prachStart
      rw [hsetup.cfg, hsetup.currentTti]
      split_ifs with hp
      · exact Or.inr ⟨rfl, hp.1, hp.2⟩
      · exact Or.inl rfl
    apply List.pairwise_append.mpr
    refine ⟨hblocks.excl, hexcl, ?_⟩
    intro a ha b hb
    obtain ⟨d, hd, rfl⟩ := List.mem_map.mp hb
    have hafter := fairMask_after (P := s.P) h hsetup.ueDb hsetup.currentTti hleft
      (hsum.trans (Nat.zero_add _)) hstart (hfair d hd)
    rw [Set.disjoint_left]
    intro r hr hr'
    obtain ⟨-, hlt⟩ := hblocks.within a ha hr
    have hge : s2.startRbg ≤ r := hafter hr'
    omega

/-- PRACH in subframe 4 of each frame, as configuration 4 has it. -/
def prachLib : Lib := { exampleLib with prachTtiOpportunity := fun _ tti => tti % 10 == 4 }

/-- A user waits in the cell of 6 PRBs to send again on the RBGs of `mask`. -/
def exampleWaiting (mask : Nat) : Sched :=
  { exampleSched with
    ueDb := (∅ : StdMap SchedUe).insert 70
      { DlHarqProc.userOf
          { rbgmask := mask, maxRetx := 4, tti := 12
            tb := Function.update (fun _ => {}) 0
              { active := true, ackReceived := true, lastMcs := 0, lastTbs := 100 } } with
        dciLocations := fun _ _ => ⟨fun L n => n * 2 ^ L, fun _ => 4⟩ } }

theorem dl_exclusive_waiting :
    Exclusive 1 6 ((exampleWaiting 1).dlSched prachLib 20 (some 4)).2.allocs := by
  refine dl_exclusive prachLib (exampleWaiting 1) 20 (some 4) ?_
  intro _ _ k u pid hu hpend b hb hlt hbit
  have hleft : (exampleWaiting 1).rbgsLeft prachLib 20 (some 4) = 2 := by decide
  rw [hleft] at hb
  simp only [exampleWaiting, StdMap.getElem?_insert] at hu
  split_ifs at hu
  · obtain rfl := Option.some.inj hu
    obtain rfl : pid = 0 := by
      have : some pid = some (0 : Pid) := hpend.symm.trans (by decide)
      exact Option.some.inj this
    obtain rfl | rfl : b = 4 ∨ b = 5 := by
      have : (exampleWaiting 1).nofRbg = 6 := rfl
      omega
    · exact absurd hbit (by decide)
    · exact absurd hbit (by decide)
  · simp at hu

/-- Paging takes RBGs 0 to 3, and the retransmission is sent on RBG 0 as well. -/
theorem dl_not_exclusive_waiting :
    ¬ Exclusive 1 6 ((exampleWaiting 32).dlSched prachLib 20 (some 4)).2.allocs := by
  have halloc : ((exampleWaiting 32).dlSched prachLib 20 (some 4)).2.allocs =
      [.type2 2 4 0, .type0 32] := by decide
  rw [halloc]
  intro h
  have hdis := List.rel_of_pairwise_cons h (List.mem_singleton_self _)
  have hpaging : (0 : Nat) ∈ (DlAlloc.type2 2 4 0).rbgs 1 6 := ⟨0, by decide⟩
  have hretx : (0 : Nat) ∈ (DlAlloc.type0 32).rbgs 1 6 := ⟨by decide, by decide⟩
  exact Set.disjoint_left.mp hdis hpaging hretx

end Sched

end Srsenb.Mac
