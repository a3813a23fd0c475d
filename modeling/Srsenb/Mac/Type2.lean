import Srsenb.Base.Run
import Srsenb.Mac.DataBounds
import Srsenb.Mac.DlRbgs

/-! # Type 2 grants and the width of the cell

`dl_sched_bc` and `dl_sched_rar` count in RBGs, of which the last may be smaller than the others. A
SIB or a paging message leaves one RBG at least; a response may take the last. -/

open Srsenb.Run

namespace Srsenb.Mac

/-- What `srslte_regs_init` and `generate_cce_location` find for a cell. -/
structure CellLocations where
  common : Nat → DciCce
  rar : Nat → Nat → DciCce

namespace Sched

/-- The quotient as `ceilf` rounds it. -/
def ceilDiv (n d : Nat) : Nat := (n + d - 1) / d

/-- `cell_cfg`; without locations, `srslte_regs_init` failed. -/
def cellCfg (lib : Lib) (s : Sched) (cfg : CellCfg) (locations : Cell → Option CellLocations) :
    Int × Sched :=
  if cfg.siWindowMs = 0 then (-1, s)
  else
    match locations cfg.cell with
    | none => (-1, { s with cfg := cfg })
    | some loc =>
      let P := lib.type0P cfg.cell.nofPrb
      (0, { s with
        cfg := cfg, P := P, siNRbg := ceilDiv 4 P, rarNRbg := ceilDiv 3 P
        nofRbg := ceilDiv cfg.cell.nofPrb P, commonLocations := loc.common
        rarLocations := loc.rar, configured := true })

/-- The RBGs make up the cell. -/
structure CellSized (s : Sched) : Prop where
  pos : 0 < s.P
  nofRbg : s.nofRbg = ceilDiv s.cfg.cell.nofPrb s.P

theorem cellCfg_sized {lib : Lib} {s : Sched} {cfg : CellCfg}
    {locations : Cell → Option CellLocations} (hP : 0 < lib.type0P cfg.cell.nofPrb)
    (h : (cellCfg lib s cfg locations).1 = 0) :
    CellSized (cellCfg lib s cfg locations).2 ∧
      (cellCfg lib s cfg locations).2.configured = true := by
  unfold cellCfg at h ⊢
  split_ifs at h ⊢ with hsi
  · cases h
  · split at h
    · cases h
    · exact ⟨⟨hP, rfl⟩, rfl⟩

/-- Each RBG is used or left, and none is counted twice. -/
structure Steady (s : Sched) : Prop extends CellSized s where
  rbgs : s.startRbg + s.availRbg = s.nofRbg

/-- The PRBs of a localized allocation are those of the cell. -/
def InsideCell (nofPrb : Nat) : DlAlloc → Prop
  | .type2 _ lCrb rbStart => rbStart + lCrb ≤ nofPrb
  | .type0 _ => True

instance (nofPrb : Nat) : ∀ a : DlAlloc, Decidable (InsideCell nofPrb a)
  | .type2 _ lCrb rbStart => inferInstanceAs (Decidable (rbStart + lCrb ≤ nofPrb))
  | .type0 _ => .isTrue trivial

/-- Through all rounds of `dl_sched_bc` and `dl_sched_rar` the RBGs add up, so `avail_rbg` never
wraps, and each grant is inside the cell. -/
structure Type2Inside (lib : Lib) (s : Sched) (tti : Nat) (paging : Option Nat) : Prop where
  sibs : AllStates (sibSched lib) (fun st => Steady st.1) (s.bcStart lib tti, ⟨[], default⟩)
    (s.bcStart lib tti).cfg.sibs.zipIdx
  rars : AllStates (rarSched lib) (fun st => Steady st.1) (s.rarStart lib tti paging, ⟨[], default⟩)
    (List.range schedMaxPendingRar)
  bc : ∀ g ∈ (s.dlSched lib tti paging).2.bc, InsideCell s.cfg.cell.nofPrb g.dci.alloc
  rar : ∀ g ∈ (s.dlSched lib tti paging).2.rar, InsideCell s.cfg.cell.nofPrb g.dci.alloc

/-- A response leaves an RBG, unless the last one is as large as the others. -/
def LeavesLast (st : Sched × Elems DlSchedRar) (i : Nat) : Prop :=
  st.1.Answers i → st.1.P ∣ st.1.cfg.cell.nofPrb ∨ st.1.rarNRbg < st.1.availRbg

instance (st : Sched × Elems DlSchedRar) (i : Nat) : Decidable (LeavesLast st i) :=
  inferInstanceAs (Decidable (_ → _))

/-! ## RBGs and PRBs -/

theorem ceilDiv_mul_le_iff {N P k : Nat} (hP : 0 < P) (hk : k ≤ ceilDiv N P) :
    k * P ≤ N ↔ P ∣ N ∨ k < ceilDiv N P := by
  unfold ceilDiv at hk ⊢
  obtain ⟨q, hq⟩ : ∃ q, (N + P - 1) / P = q := ⟨_, rfl⟩
  have hle := Nat.div_mul_le_self (N + P - 1) P
  have hlt := Nat.lt_mul_div_succ (N + P - 1) hP
  rw [hq] at hk hle hlt ⊢
  rw [Nat.mul_succ, Nat.mul_comm] at hlt
  constructor
  · intro h
    by_cases hlast : k < q
    · exact Or.inr hlast
    · obtain rfl : k = q := by omega
      exact Or.inl ⟨k, by rw [Nat.mul_comm]; omega⟩
  · rintro (hdvd | hless)
    · -- The last RBG ends with the cell.
      obtain ⟨c, rfl⟩ := hdvd
      rw [Nat.mul_comm] at hle
      have hqc : q ≤ c := by
        by_contra hmore
        have := Nat.mul_le_mul_left P (by omega : c + 1 ≤ q)
        rw [Nat.mul_succ] at this
        omega
      calc k * P ≤ c * P := Nat.mul_le_mul_right P (hk.trans hqc)
        _ = P * c := Nat.mul_comm c P
    · have := Nat.mul_le_mul_right P (by omega : k + 1 ≤ q)
      rw [Nat.succ_mul] at this
      omega

variable (lib : Lib) {s s' : Sched} {new : List DlAlloc}

theorem Rounds.steady (h : Rounds s s' new) (hs : Steady s) : Steady s' := by
  obtain ⟨hcfg, hP, hnof, -, -⟩ := h.setup
  have hsum := (h.blocks (N := s.nofRbg)).2
  exact ⟨⟨hP ▸ hs.pos, by rw [hnof, hs.nofRbg, hcfg, hP]⟩, hsum.trans (hs.rbgs.trans hnof.symm)⟩

theorem Emits.steady {α : Type} {alloc : α → DlAlloc} {st st' : Sched × Elems α}
    (h : Emits alloc st st') (hs : Steady st.1) : Steady st'.1 := by
  obtain ⟨new, hrounds, -⟩ := h
  exact hrounds.steady hs

/-- A block of the next RBGs, as long as there are so many. -/
theorem Steady.inside_iff {n nPrb1a : Nat} (hs : Steady s) (hn : n ≤ s.availRbg) :
    InsideCell s.cfg.cell.nofPrb (.type2 nPrb1a (n * s.P) (s.startRbg * s.P)) ↔
      s.P ∣ s.cfg.cell.nofPrb ∨ n < s.availRbg := by
  have hsum := hs.rbgs
  have hiff := ceilDiv_mul_le_iff (N := s.cfg.cell.nofPrb) (k := s.startRbg + n) hs.pos
    (by rw [← hs.nofRbg]; omega)
  rw [← hs.nofRbg, Nat.add_mul] at hiff
  unfold InsideCell
  simp only
  rw [hiff]
  exact or_congr_right (by omega)

/-! ## Rounds -/

theorem BcBlock.inside (hs : Steady s) {type : BcType} {bytes : Nat} {g : DlSchedBc}
    (h : BcBlock lib s type bytes g) : InsideCell s.cfg.cell.nofPrb g.dci.alloc := by
  obtain ⟨rv, dci, -, hdci⟩ := h.made
  rw [hdci]
  exact (hs.inside_iff (le_of_lt h.room)).mpr (Or.inr h.room)

theorem sibSched_inside {st : Sched × Elems DlSchedBc} (hs : Steady st.1) (it : SibCfg × Nat)
    (h : ∀ g ∈ st.2.done, InsideCell st.1.cfg.cell.nofPrb g.dci.alloc) :
    ∀ g ∈ (sibSched lib st it).2.done, InsideCell st.1.cfg.cell.nofPrb g.dci.alloc := by
  intro g hg
  rcases sibSched_new lib st it g hg with hg | ⟨hblock, -⟩
  · exact h g hg
  · exact hblock.inside lib hs

theorem pagingSched_inside {st : Sched × Elems DlSchedBc} (hs : Steady st.1)
    (paging : Option Nat) (h : ∀ g ∈ st.2.done, InsideCell st.1.cfg.cell.nofPrb g.dci.alloc) :
    ∀ g ∈ (pagingSched lib paging st).2.done, InsideCell st.1.cfg.cell.nofPrb g.dci.alloc := by
  intro g hg
  rcases pagingSched_new lib paging st g hg with hg | ⟨payload, -, hblock⟩
  · exact h g hg
  · exact hblock.inside lib hs

theorem rarSched_inside_iff {st : Sched × Elems DlSchedRar} (hs : Steady st.1) {i : Nat}
    (hi : i < schedMaxPendingRar) :
    (∀ g ∈ (rarSched lib st i).2.done, InsideCell st.1.cfg.cell.nofPrb g.dci.alloc) ↔
      (∀ g ∈ st.2.done, InsideCell st.1.cfg.cell.nofPrb g.dci.alloc) ∧ LeavesLast st i := by
  obtain ⟨s, out⟩ := st
  by_cases h : s.Answers i
  · obtain ⟨rar, hdone, -, -, -, -, ⟨dci, hdci⟩, -⟩ := rarSched_answers lib out hi h
    have hiff : InsideCell s.cfg.cell.nofPrb rar.dci.alloc ↔ LeavesLast (s, out) i := by
      rw [hdci]
      exact (hs.inside_iff h.2.1).trans ⟨fun hlast _ => hlast, fun hlast => hlast h⟩
    rw [hdone, List.forall_mem_append, List.forall_mem_singleton, hiff]
  · obtain ⟨hdone, -⟩ := rarSched_silent lib out h
    rw [hdone]
    exact ⟨fun hin => ⟨hin, fun hans => absurd hans h⟩, fun hin => hin.1⟩

/-! ## Calls -/

theorem sibScheds_inside (its : List (SibCfg × Nat)) (st : Sched × Elems DlSchedBc)
    (hs : Steady st.1) (h : ∀ g ∈ st.2.done, InsideCell st.1.cfg.cell.nofPrb g.dci.alloc) :
    ∀ g ∈ (its.foldl (sibSched lib) st).2.done, InsideCell st.1.cfg.cell.nofPrb g.dci.alloc := by
  induction its generalizing st with
  | nil => exact h
  | cons it its ih =>
    obtain ⟨new, hrounds, -⟩ := sibSched_emits lib st it
    have hcfg := hrounds.setup.cfg
    have hround := sibSched_inside lib hs it h
    rw [List.foldl_cons, ← hcfg]
    exact ih _ (hrounds.steady hs) (by rwa [hcfg])

theorem rarScheds_inside_iff {is : List Nat} (his : ∀ i ∈ is, i < schedMaxPendingRar)
    (st : Sched × Elems DlSchedRar) (hs : Steady st.1) :
    (∀ g ∈ (is.foldl (rarSched lib) st).2.done, InsideCell st.1.cfg.cell.nofPrb g.dci.alloc) ↔
      (∀ g ∈ st.2.done, InsideCell st.1.cfg.cell.nofPrb g.dci.alloc) ∧
        AllSteps (rarSched lib) LeavesLast st is := by
  induction is generalizing st with
  | nil => simp [AllSteps]
  | cons i is ih =>
    obtain ⟨new, hrounds, -⟩ := rarSched_emits lib st i
    have hcfg := hrounds.setup.cfg
    have hround := rarSched_inside_iff lib hs (his i List.mem_cons_self)
    rw [List.foldl_cons, ← hcfg, ih (fun j hj => his j (List.mem_cons_of_mem _ hj)) _
      (hrounds.steady hs), hcfg, hround, and_assoc]
    rfl

theorem bcStart_steady (hs : CellSized s) (tti : Nat) : Steady (s.bcStart lib tti) := by
  have hstart : Steady (s.dlStart tti) := ⟨⟨hs.pos, hs.nofRbg⟩, Nat.zero_add _⟩
  exact (sibWindows_rounds lib _ _).steady hstart

/-- The SIBs and the paging message leave the last RBG to others. -/
theorem dlSchedBc_inside (hs : CellSized s) (tti : Nat) (paging : Option Nat) :
    Steady (s.rarStart lib tti paging) ∧ (s.rarStart lib tti paging).cfg = s.cfg ∧
      ∀ g ∈ ((s.dlStart tti).dlSchedBc lib paging).2,
        InsideCell s.cfg.cell.nofPrb g.dci.alloc := by
  have hbc := bcStart_steady lib hs tti
  have hbcCfg : (s.bcStart lib tti).cfg = s.cfg := (sibWindows_rounds lib _ _).setup.cfg
  obtain ⟨st, hst⟩ : ∃ st, (s.bcStart lib tti).cfg.sibs.zipIdx.foldl (sibSched lib)
      (s.bcStart lib tti, ⟨[], default⟩) = st := ⟨_, rfl⟩
  have heq : (s.dlStart tti).dlSchedBc lib paging =
      ((pagingSched lib paging st).1, (pagingSched lib paging st).2.done) := by
    rw [← hst]
    rfl
  obtain ⟨new, hrounds, -⟩ := emits_foldl (sibSched_emits lib)
    (s.bcStart lib tti).cfg.sibs.zipIdx (s.bcStart lib tti, ⟨[], default⟩)
  obtain ⟨new', hrounds', -⟩ := pagingSched_emits lib paging st
  have hin := sibScheds_inside lib (s.bcStart lib tti).cfg.sibs.zipIdx
    (s.bcStart lib tti, ⟨[], default⟩) hbc (by simp)
  rw [hst] at hrounds hin
  have hcfg : st.1.cfg = s.cfg := hrounds.setup.cfg.trans hbcCfg
  have hpaging := pagingSched_inside lib (hrounds.steady hbc) paging (by rwa [hcfg, ← hbcCfg])
  rw [hcfg] at hpaging
  unfold rarStart
  rw [heq]
  exact ⟨hrounds'.steady (hrounds.steady hbc), hrounds'.setup.cfg.trans hcfg, hpaging⟩

/-- Preambles of the TTIs 1 to 4 in a cell of this width. -/
def fourPreambles (nofPrb : Nat) : Sched :=
  (cellCfg exampleLib
    { exampleSched with
      pendingRar := fun i =>
        if i < 4 then { bufRar := 7, rnti := 70 + i, rarTti := i + 1 } else {} }
    { exampleCell with cell := ⟨nofPrb, 1, 7⟩, siWindowMs := 20, prachRarWindow := 10 } fun _ =>
      some ⟨exampleSched.commonLocations, exampleSched.rarLocations⟩).2

end Sched

end Srsenb.Mac
