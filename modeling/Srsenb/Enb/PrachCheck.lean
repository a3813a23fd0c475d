import Srsenb.Mac.Cce

/-! # The PRACH check of `enb::init`

What it accepts, and what `ul_sched` then makes of the PRACH and of the two PUCCH regions. -/

open Srsenb.Mac

namespace Srsenb.Enb

/-- What `enb::init` checks of the cell, the PRACH and the PUCCH. -/
structure PrbCfg where
  nofPrb : UInt32
  prachFreqOffset : UInt32
  srNofPrb : UInt32
  cqiNofPrb : UInt32
  deriving DecidableEq

namespace PrbCfg

variable (c : PrbCfg)

/-- The larger of the two PUCCH sizes. -/
def pucch : UInt32 := max c.cqiNofPrb c.srNofPrb

/-- The check; all of it is unsigned. -/
def acceptsPrach : Bool :=
  if c.nofPrb > 10 then
    if c.prachFreqOffset + 6 > c.nofPrb - c.pucch then false
    else if c.prachFreqOffset < c.pucch then false
    else true
  else if c.prachFreqOffset + 6 > c.nofPrb then false
  else true

/-- `rrc::config_mac`, over what it takes from the SIBs. `nrb_pucch` is an `int`. -/
def configMac (sibs : CellCfg) : CellCfg :=
  { sibs with
    cell := { sibs.cell with nofPrb := c.nofPrb.toNat }
    prachFreqOffset := c.prachFreqOffset.toNat
    nrbPucch := c.pucch.toInt32.toInt }

end PrbCfg

/-! ## What a call reserves -/

/-- The PRACH of `ul_sched`. -/
def prach (cfg : CellCfg) : UlAlloc := ⟨cfg.prachFreqOffset, 6⟩

/-- The PUCCH at both edges of the cell. -/
def pucchRegions (cfg : CellCfg) : List UlAlloc :=
  [⟨0, cfg.nrbPucch.toNat⟩, ⟨toU32 (cfg.cell.nofPrb - cfg.nrbPucch), cfg.nrbPucch.toNat⟩]

/-- The allocations that `update_allocation` refuses, when asked for one after the other. -/
def refused : UlMetric → List UlAlloc → List UlAlloc
  | _, [] => []
  | m, a :: as =>
    let (ok, m') := m.updateAllocation a
    if ok then refused m' as else a :: refused m' as

/-- What `ul_sched` refuses to the PRACH. -/
def prachRefused (lib : Lib) (s : Sched) (tti : Nat) : List UlAlloc :=
  refused (s.ulStart tti).ulMetric
    (if lib.prachTtiOpportunity s.cfg.prachConfig tti then [prach s.cfg] else [])

/-- What it then refuses to the PUCCH, Msg3 being reserved in between. -/
def pucchRefused (lib : Lib) (s : Sched) (tti : Nat) : List UlAlloc :=
  refused (((s.ulStart tti).reservePrach lib tti).reserveMsg3 tti).ulMetric (pucchRegions s.cfg)

/-- The PRACH and the two PUCCH regions of `nrb` PRBs are inside the cell and apart. `ul_sched`
passes its check, and a PUCCH region is refused at most because of a Msg3. -/
structure Feasible (lib : Lib) (cfg : CellCfg) (nrb : Nat) : Prop where
  prach_inside : (prach cfg).Fits cfg.cell.nofPrb
  nrbPucch : cfg.nrbPucch = nrb
  pucch_inside : ∀ a ∈ pucchRegions cfg, a.Fits cfg.cell.nofPrb
  apart : ∀ a ∈ pucchRegions cfg, Disjoint (prach cfg).prbs a.prbs
  runs : ∀ s : Sched, s.cfg = cfg → s.configured = true → s.ulRuns = true
  prach_free : ∀ (s : Sched) (tti : Nat), s.cfg = cfg → prachRefused lib s tti = []
  pucch_free : ∀ (s : Sched) (tti : Nat), s.cfg = cfg → ∀ a ∈ pucchRefused lib s tti,
    (s.pendingMsg3 (tti % 10)).enabled = true ∧
      ¬ Disjoint (s.pendingMsg3 (tti % 10)).alloc.prbs a.prbs

/-! ## Which PRBs are marked -/

section Marks

variable {m : UlMetric} {a : UlAlloc} {N : Nat}

theorem UlAlloc.stop_le : a.stop ≤ a.rbStart + a.L := Nat.mod_le _ _

/-- An allocation is refused for a PRB that is marked already. -/
theorem exists_used_of_refused (hN : N < 2 ^ 32) (hm : m.nofRb = N) (hf : a.Fits N)
    (h : (m.updateAllocation a).1 = false) : ∃ n ∈ a.prbs, m.usedRb n = true := by
  simp only [UlMetric.updateAllocation, UlMetric.allocationIsValid, UlAlloc.stop_eq hN hf, hm] at h
  rw [if_neg (by simpa [UlAlloc.Fits] using hf)] at h
  obtain ⟨n, hn, hused⟩ := List.all_eq_false.mp h
  rw [List.mem_range'_1] at hn
  exact ⟨n, ⟨hn.1, by omega⟩, by simpa using hused⟩

theorem used_updateAllocation {n : Nat} (h : (m.updateAllocation a).2.usedRb n = true) :
    n ∈ a.prbs ∨ m.usedRb n = true := by
  simp only [UlMetric.updateAllocation] at h
  split_ifs at h with hn
  · exact Or.inl ⟨hn.1, hn.2.trans_le UlAlloc.stop_le⟩
  · exact Or.inr h

theorem used_resetAllocation {n : Nat} (hn : n < N) :
    (m.resetAllocation N).usedRb n = false := by
  simp [UlMetric.resetAllocation, hn]

theorem mem_of_mem_refused : ∀ {as : List UlAlloc} {m : UlMetric}, a ∈ refused m as → a ∈ as
  | [], _, h => by simp [refused] at h
  | a0 :: as, m, h => by
    unfold refused at h
    simp only at h
    split_ifs at h
    · exact List.mem_cons_of_mem a0 (mem_of_mem_refused h)
    · rcases List.mem_cons.mp h with rfl | h
      · exact List.mem_cons_self
      · exact List.mem_cons_of_mem a0 (mem_of_mem_refused h)

/-- Allocations that are apart are refused only for what was marked before all of them. -/
theorem used_of_refused (hN : N < 2 ^ 32) : ∀ {as : List UlAlloc} {m : UlMetric}, m.nofRb = N →
    (∀ a ∈ as, a.Fits N) → as.Pairwise (fun a b => Disjoint a.prbs b.prbs) →
    ∀ a ∈ refused m as, ∃ n ∈ a.prbs, m.usedRb n = true
  | [], _, _, _, _, a, ha => by simp [refused] at ha
  | a0 :: as, m, hm, hfits, hapart, a, ha => by
    obtain ⟨hfirst, hrest⟩ := List.pairwise_cons.mp hapart
    have hlater : a ∈ refused (m.updateAllocation a0).2 as → ∃ n ∈ a.prbs, m.usedRb n = true := by
      intro ha
      obtain ⟨n, hn, hused⟩ := used_of_refused (m := (m.updateAllocation a0).2) hN hm
        (fun b hb => hfits b (List.mem_cons_of_mem a0 hb)) hrest a ha
      refine ⟨n, hn, (used_updateAllocation hused).resolve_left fun hn0 => ?_⟩
      exact Set.disjoint_left.mp (hfirst a (mem_of_mem_refused ha)) hn0 hn
    unfold refused at ha
    simp only at ha
    split_ifs at ha with hok
    · exact hlater ha
    · rcases List.mem_cons.mp ha with rfl | ha
      · exact exists_used_of_refused hN hm (hfits a List.mem_cons_self) (by simpa using hok)
      · exact hlater ha

end Marks

section Reserve

variable (lib : Lib) (s : Sched) (tti : Nat)

theorem nofRb_reserveMsg3 :
    (((s.ulStart tti).reservePrach lib tti).reserveMsg3 tti).ulMetric.nofRb =
      s.cfg.cell.nofPrb := by
  simp only [Sched.reserveMsg3, Sched.reservePrach]
  split_ifs <;> rfl

/-- Before the PUCCH, the PRBs of the cell are marked for the PRACH and for Msg3 only. -/
theorem used_reserveMsg3 {n : Nat} (hn : n < s.cfg.cell.nofPrb)
    (h : (((s.ulStart tti).reservePrach lib tti).reserveMsg3 tti).ulMetric.usedRb n = true) :
    n ∈ (prach s.cfg).prbs ∨ (s.pendingMsg3 (tti % 10)).enabled = true ∧
      n ∈ (s.pendingMsg3 (tti % 10)).alloc.prbs := by
  have hstart : (s.ulStart tti).ulMetric.usedRb n = false := used_resetAllocation hn
  have hprach : ((s.ulStart tti).reservePrach lib tti).ulMetric.usedRb n = true →
      n ∈ (prach s.cfg).prbs := by
    unfold Sched.reservePrach
    split_ifs
    · intro hused
      exact (used_updateAllocation hused).resolve_right (by simp [hstart])
    · simp [hstart]
  have hslot : ((s.ulStart tti).reservePrach lib tti).pendingMsg3 = s.pendingMsg3 := by
    unfold Sched.reservePrach
    split_ifs <;> rfl
  unfold Sched.reserveMsg3 at h
  simp only [hslot] at h
  split_ifs at h with hen
  · rcases used_updateAllocation h with hmsg3 | hold
    · exact Or.inr ⟨hen, hmsg3⟩
    · exact Or.inl (hprach hold)
  · exact Or.inl (hprach h)

end Reserve

/-! ## The configurations that are feasible -/

/-- None of the values wraps: the sum with the width of the PRACH, the difference to the cell and
the conversion to an `int`. -/
structure PrbCfg.NoWrap (c : PrbCfg) : Prop where
  offset : c.prachFreqOffset.toNat + 6 < 2 ^ 32
  pucch_le : c.pucch.toNat ≤ c.nofPrb.toNat
  pucch_lt : c.pucch.toNat < 2 ^ 31

instance (c : PrbCfg) : Decidable c.NoWrap :=
  decidable_of_iff (c.prachFreqOffset.toNat + 6 < 2 ^ 32 ∧ c.pucch.toNat ≤ c.nofPrb.toNat ∧
    c.pucch.toNat < 2 ^ 31)
    ⟨fun h => ⟨h.1, h.2.1, h.2.2⟩, fun h => ⟨h.offset, h.pucch_le, h.pucch_lt⟩⟩

namespace PrbCfg

variable {c : PrbCfg} {lib : Lib} {sibs : CellCfg} {s : Sched} {tti : Nat}

theorem toInt_pucch : c.pucch.toInt32.toInt = c.pucch.toNat ↔ c.pucch.toNat < 2 ^ 31 := by
  have := c.pucch.toNat_lt
  rw [Int32.toInt, UInt32.toBitVec_toInt32, BitVec.toInt_eq_toNat_cond, UInt32.toNat_toBitVec]
  split_ifs with h <;> omega

/-- What the check says when nothing wraps. -/
theorem accepted_le (hw : c.NoWrap) (h10 : c.nofPrb > 10) (h : c.acceptsPrach = true) :
    c.pucch.toNat ≤ c.prachFreqOffset.toNat ∧
      c.prachFreqOffset.toNat + 6 + c.pucch.toNat ≤ c.nofPrb.toNat := by
  have hoffset := hw.offset
  have hpucch := hw.pucch_le
  have hcell := c.nofPrb.toNat_lt
  simp only [acceptsPrach, if_pos h10] at h
  split_ifs at h with hhigh hlow
  rw [gt_iff_lt, UInt32.lt_iff_toNat_lt, UInt32.toNat_add, UInt32.toNat_sub] at hhigh
  rw [UInt32.lt_iff_toNat_lt] at hlow
  have hsix : (6 : UInt32).toNat = 6 := rfl
  omega

theorem regions (hw : c.NoWrap) : pucchRegions (c.configMac sibs) =
    [⟨0, c.pucch.toNat⟩, ⟨c.nofPrb.toNat - c.pucch.toNat, c.pucch.toNat⟩] := by
  have hle := hw.pucch_le
  have hcell := c.nofPrb.toNat_lt
  have hstart : toU32 (c.nofPrb.toNat - c.pucch.toNat) = c.nofPrb.toNat - c.pucch.toNat := by
    unfold toU32
    omega
  simp only [pucchRegions, configMac, toInt_pucch.mpr hw.pucch_lt, Int.toNat_natCast, hstart]

/-- Nothing wraps in an accepted configuration of a cell with more than 10 PRBs. -/
structure Sound (c : PrbCfg) : Prop where
  wide : c.nofPrb > 10
  accepted : c.acceptsPrach = true
  noWrap : c.NoWrap

/-- The PRACH is between the two PUCCH regions. -/
theorem Sound.between (h : c.Sound) : c.pucch.toNat ≤ c.prachFreqOffset.toNat ∧
    c.prachFreqOffset.toNat + 6 + c.pucch.toNat ≤ c.nofPrb.toNat :=
  accepted_le h.noWrap h.wide h.accepted

theorem Sound.prach_inside (h : c.Sound) :
    (prach (c.configMac sibs)).Fits (c.configMac sibs).cell.nofPrb := by
  have := h.between
  simp only [UlAlloc.Fits, prach, configMac]
  omega

theorem Sound.pucch_inside (h : c.Sound) : ∀ a ∈ pucchRegions (c.configMac sibs),
    a.Fits (c.configMac sibs).cell.nofPrb := by
  have hbetween := h.between
  rw [regions h.noWrap]
  simp only [List.forall_mem_cons, UlAlloc.Fits, configMac]
  exact ⟨by omega, by omega, by simp⟩

theorem Sound.apart (h : c.Sound) : ∀ a ∈ pucchRegions (c.configMac sibs),
    Disjoint (prach (c.configMac sibs)).prbs a.prbs := by
  have hbetween := h.between
  rw [regions h.noWrap]
  simp only [List.forall_mem_cons, Set.disjoint_left, UlAlloc.prbs, prach, configMac,
    Set.mem_ofPred_eq]
  exact ⟨fun n hn => by omega, fun n hn => by omega, by simp⟩

theorem Sound.pucch_apart (h : c.Sound) : (pucchRegions (c.configMac sibs)).Pairwise
    fun a b => Disjoint a.prbs b.prbs := by
  have hbetween := h.between
  rw [regions h.noWrap, List.pairwise_pair, Set.disjoint_left]
  rintro n ⟨-, hn⟩ ⟨hn', -⟩
  simp only at hn hn'
  omega

theorem Sound.runs (h : c.Sound) (hs : s.cfg = c.configMac sibs) (hconf : s.configured = true) :
    s.ulRuns = true := by
  have hin : s.cfg.prachFreqOffset + 6 ≤ s.cfg.cell.nofPrb := hs ▸ h.prach_inside
  simp [Sched.ulRuns, hconf, Nat.not_lt.mpr hin]

/-- No PRB of the cell is marked before the PRACH. -/
theorem Sound.prach_free (h : c.Sound) (hs : s.cfg = c.configMac sibs) :
    prachRefused lib s tti = [] := by
  have hcell : s.cfg.cell.nofPrb < 2 ^ 32 := hs ▸ c.nofPrb.toNat_lt
  have hin : (prach s.cfg).Fits s.cfg.cell.nofPrb := hs ▸ h.prach_inside
  have hfits : ∀ a ∈ (if lib.prachTtiOpportunity s.cfg.prachConfig tti then [prach s.cfg] else []),
      a.Fits s.cfg.cell.nofPrb := by
    split_ifs <;> simp [hin]
  rw [prachRefused, List.eq_nil_iff_forall_not_mem]
  intro a ha
  obtain ⟨n, hn, hused⟩ := used_of_refused hcell rfl hfits (by split_ifs <;> simp) a ha
  have hfree : (s.ulStart tti).ulMetric.usedRb n = false :=
    used_resetAllocation (hn.2.trans_le (hfits a (mem_of_mem_refused ha)))
  simp [hfree] at hused

/-- Only the PRBs of a Msg3 are in the way of the PUCCH. -/
theorem Sound.pucch_free (h : c.Sound) (hs : s.cfg = c.configMac sibs) :
    ∀ a ∈ pucchRefused lib s tti, (s.pendingMsg3 (tti % 10)).enabled = true ∧
      ¬ Disjoint (s.pendingMsg3 (tti % 10)).alloc.prbs a.prbs := by
  intro a ha
  have hcell : s.cfg.cell.nofPrb < 2 ^ 32 := hs ▸ c.nofPrb.toNat_lt
  have hmem : a ∈ pucchRegions s.cfg := mem_of_mem_refused ha
  obtain ⟨n, hn, hused⟩ := used_of_refused hcell (nofRb_reserveMsg3 lib s tti)
    (hs ▸ h.pucch_inside) (hs ▸ h.pucch_apart) a ha
  have hin : a.Fits s.cfg.cell.nofPrb := by
    rw [hs] at hmem ⊢
    exact h.pucch_inside a hmem
  have hapart : Disjoint (prach s.cfg).prbs a.prbs := by
    rw [hs] at hmem ⊢
    exact h.apart a hmem
  rcases used_reserveMsg3 lib s tti (hn.2.trans_le hin) hused with hp | ⟨hen, hn3⟩
  · exact absurd hn (Set.disjoint_left.mp hapart hp)
  · exact ⟨hen, fun hd => Set.disjoint_left.mp hd hn3 hn⟩

theorem Sound.feasible (h : c.Sound) : Feasible lib (c.configMac sibs) c.pucch.toNat where
  prach_inside := h.prach_inside
  nrbPucch := toInt_pucch.mpr h.noWrap.pucch_lt
  pucch_inside := h.pucch_inside
  apart := h.apart
  runs _ hs hconf := h.runs hs hconf
  prach_free _ _ hs := h.prach_free hs
  pucch_free _ _ hs := h.pucch_free hs

/-- **An accepted configuration is feasible if and only if nothing wraps.** -/
theorem accepted_feasible_iff (lib : Lib) (sibs : CellCfg) (c : PrbCfg) (h10 : c.nofPrb > 10)
    (h : c.acceptsPrach = true) :
    Feasible lib (c.configMac sibs) c.pucch.toNat ↔ c.NoWrap := by
  refine ⟨fun hf => ?_, fun hw => Sound.feasible ⟨h10, h, hw⟩⟩
  have hcell := c.nofPrb.toNat_lt
  have hoffset := hf.prach_inside
  have hpucch := hf.pucch_inside ⟨0, _⟩ List.mem_cons_self
  rw [hf.nrbPucch, Int.toNat_natCast] at hpucch
  simp only [UlAlloc.Fits, prach, configMac] at hoffset hpucch
  exact ⟨by omega, by omega, toInt_pucch.mp hf.nrbPucch⟩

/-- A cell of 25 PRBs with 3 of PUCCH at each edge. -/
theorem accepted_feasible_25 :
    Feasible exampleLib (PrbCfg.configMac ⟨25, 4, 2, 3⟩ Sched.exampleCell) 3 :=
  (accepted_feasible_iff exampleLib Sched.exampleCell ⟨25, 4, 2, 3⟩ (by decide)
    (by decide)).mpr (by decide)

/-- The check accepts 30 PRBs of PUCCH in a cell of 25, and `ul_sched` then fails its own. -/
theorem accepted_infeasible_25 :
    PrbCfg.acceptsPrach ⟨25, 30, 0, 30⟩ = true ∧
      ¬ Feasible exampleLib (PrbCfg.configMac ⟨25, 30, 0, 30⟩ Sched.exampleCell) 30 ∧
      ∀ s : Sched, s.cfg = PrbCfg.configMac ⟨25, 30, 0, 30⟩ Sched.exampleCell →
        s.ulRuns = false := by
  refine ⟨by decide, fun h => ?_, fun s hs => ?_⟩
  · have := h.prach_inside
    simp only [UlAlloc.Fits, prach, configMac] at this
    exact absurd this (by decide)
  · rw [Sched.ulRuns, hs, Bool.and_eq_false_iff]
    exact Or.inr (by decide)

end PrbCfg

end Srsenb.Enb
