import Srsenb.Mac.UlMetricSpec

/-! # The search for PRBs of the uplink metric -/

namespace Srsenb.Mac.UlMetric

variable {lib : Lib} {m : UlMetric} {L : Nat}

/-! ## Down to a size that SC-FDMA allows -/

/-- The `while` of `new_allocation`, which counts down in a `uint32_t`. -/
def shrinkLoop (lib : Lib) : Nat → Nat → Option Nat
  | 0, _ => none
  | fuel + 1, L => if lib.validPrb L then some L else shrinkLoop lib fuel (u32 (L + (2 ^ 32 - 1)))

theorem shrinkLoop_eq (h1 : lib.validPrb 1 = true) :
    ∀ {fuel L : Nat}, 1 ≤ L → L ≤ fuel → L < 2 ^ 32 →
    shrinkLoop lib fuel L = some (shrink lib L)
  | 0, L, hL, hfuel, _ => by omega
  | fuel + 1, 0, hL, _, _ => by omega
  | fuel + 1, L + 1, _, hfuel, h32 => by
    rw [shrinkLoop, shrink]
    cases hv : lib.validPrb (L + 1) with
    | true => simp only [if_true]
    | false =>
      have hdec : u32 (L + 1 + (2 ^ 32 - 1)) = L := by
        unfold u32
        omega
      have hL : 1 ≤ L := by
        rcases Nat.eq_zero_or_pos L with rfl | hpos
        · rw [h1] at hv
          cases hv
        · exact hpos
      simp only [hdec, Bool.false_eq_true, if_false]
      exact shrinkLoop_eq h1 hL (by omega) (by omega)

theorem shrink_valid (h1 : lib.validPrb 1 = true) : ∀ {L : Nat}, 1 ≤ L →
    1 ≤ shrink lib L ∧ lib.validPrb (shrink lib L) = true
  | 1, _ => by
    rw [shrink, if_pos h1]
    exact ⟨le_rfl, h1⟩
  | L + 2, _ => by
    rw [shrink]
    split_ifs with hv
    · exact ⟨by omega, hv⟩
    · exact shrink_valid h1 (by omega)

/-! ## The run -/

/-- A run is no longer than what is asked for, and starts at PRB 0 while it is empty. -/
structure RunWithin (L : Nat) (a : UlAlloc) : Prop where
  le : a.L ≤ L
  start : a.L = 0 → a.rbStart = 0

theorem freeRun_within {used : Nat → Bool} : ∀ {ns : List Nat} {a : UlAlloc},
    RunWithin L a → RunWithin L (freeRun used L ns a)
  | [], _, h => h
  | n :: ns, a, h => by
    rw [freeRun]
    by_cases hlt : a.L < L
    · rw [if_pos hlt]
      cases used n with
      | false => exact freeRun_within ⟨hlt, fun h0 => absurd h0 (Nat.succ_ne_zero _)⟩
      | true =>
        simp only [Bool.not_true, Bool.false_eq_true, if_false]
        split_ifs with hpos hedge
        · exact freeRun_within ⟨Nat.zero_le L, fun _ => rfl⟩
        · exact h
        · exact freeRun_within h
    · rw [if_neg hlt]
      exact h

/-- The run that the search stops with. -/
def found (m : UlMetric) (L : Nat) : UlAlloc := freeRun m.usedRb L (List.range m.nofRb) {}

theorem found_within : RunWithin L (m.found L) := freeRun_within ⟨Nat.zero_le L, fun _ => rfl⟩

theorem found_fits (h : (m.found L).L ≠ 0) : (m.found L).Fits m.nofRb := by
  have hspec := @freeRun_spec m.usedRb L m.nofRb 0 {}
    ⟨fun n hn => absurd hn.2 (by simp), fun h => absurd rfl h⟩
  rw [← List.range_eq_range', zero_add] at hspec
  exact hspec.2 h

/-- A search that finds nothing has no PRBs, and fits the cell. -/
theorem found_empty (h : (m.found L).L = 0) :
    (m.found L).Fits m.nofRb ∧ (m.found L).prbs = ∅ := by
  have hstart := found_within.start h
  refine ⟨?_, Set.eq_empty_of_forall_notMem fun n hn => ?_⟩
  · unfold UlAlloc.Fits
    omega
  · obtain ⟨h1, h2⟩ := hn
    omega

theorem newAllocation_empty (h : (m.found L).L = 0) :
    m.newAllocation lib L = (false, m.found L) := by
  unfold found at h ⊢
  unfold newAllocation
  simp only [h, if_true]

theorem newAllocation_found (h : (m.found L).L ≠ 0) :
    m.newAllocation lib L =
      (decide (shrink lib (m.found L).L = L),
        { m.found L with L := shrink lib (m.found L).L }) := by
  unfold found at h ⊢
  unfold newAllocation
  simp only [h, if_false]

/-! ## Soundness -/

/-- What the search for `L` PRBs returns, and what marking its result does. -/
structure AllocSound (lib : Lib) (m : UlMetric) (L : Nat) (r : Bool × UlAlloc) : Prop where
  ends : (m.found L).L ≠ 0 → ∃ fuel, shrinkLoop lib fuel (m.found L).L = some r.2.L
  refused : r.2.L = 0 → r.1 = false
  le : r.2.L ≤ L
  inside : r.2.L ≠ 0 → r.2.Fits m.nofRb
  free : Disjoint r.2.prbs m.used
  valid : r.2.L ≠ 0 → lib.validPrb r.2.L = true
  full : r.1 = true ↔ r.2.L = L
  taken : (m.updateAllocation r.2).1 = true
  marked : (m.updateAllocation r.2).2.used = m.used ∪ r.2.prbs

theorem allocationIsValid_of_free {a : UlAlloc} (hN : m.nofRb < 2 ^ 32) (hf : a.Fits m.nofRb)
    (hfree : Disjoint a.prbs m.used) : m.allocationIsValid a = true := by
  have hstop := UlAlloc.stop_eq hN hf
  unfold UlAlloc.Fits at hf
  unfold allocationIsValid
  rw [if_neg (by omega), List.all_eq_true]
  intro n hn
  obtain ⟨h1, h2⟩ := List.mem_range'_1.mp hn
  have hnot : n ∉ m.used := Set.disjoint_left.mp hfree ⟨h1, by omega⟩
  simpa [used] using hnot

/-- **The allocation search is sound**: it ends with a run of free PRBs that SC-FDMA allows, or
with none, and marking its result takes just that run. -/
theorem newAllocation_sound (lib : Lib) (m : UlMetric) (L : Nat) (hL : 1 ≤ L)
    (hN : m.nofRb < 2 ^ 32) (h1 : lib.validPrb 1 = true) :
    AllocSound lib m L (m.newAllocation lib L) := by
  have hwithin := @found_within m L
  by_cases h0 : (m.found L).L = 0
  · -- Nothing was found, and nothing is marked.
    obtain ⟨hfits, hempty⟩ := found_empty h0
    have hfree : Disjoint (m.found L).prbs m.used := by
      rw [hempty]
      exact Set.empty_disjoint _
    rw [newAllocation_empty h0]
    exact
      { ends := fun h => absurd h0 h
        refused := fun _ => rfl
        le := hwithin.le
        inside := fun _ => hfits
        free := hfree
        valid := fun h => absurd h0 h
        full := by
          simp only [h0, Bool.false_eq_true, false_iff]
          omega
        taken := allocationIsValid_of_free hN hfits hfree
        marked := updateAllocation_used hN hfits }
  · obtain ⟨hpos, hvalid⟩ := shrink_valid h1 (Nat.one_le_iff_ne_zero.mpr h0)
    have hle := shrink_le lib (m.found L).L
    have hfound := @newAllocation_found lib m L h0
    have hne : (m.newAllocation lib L).2.L ≠ 0 := by
      rw [hfound]
      exact Nat.one_le_iff_ne_zero.mp hpos
    obtain ⟨hfits, hfree⟩ := newAllocation_spec hne
    have h32 : (m.found L).L < 2 ^ 32 := by
      have := found_fits h0
      unfold UlAlloc.Fits at this
      omega
    exact
      { ends := fun _ => ⟨(m.found L).L, by
          rw [hfound]
          exact shrinkLoop_eq h1 (by omega) le_rfl h32⟩
        refused := fun h => absurd h hne
        le := by
          rw [hfound]
          exact hle.trans hwithin.le
        inside := fun _ => hfits
        free := hfree
        valid := fun _ => by
          rw [hfound]
          exact hvalid
        full := by
          rw [hfound]
          exact decide_eq_true_iff
        taken := allocationIsValid_of_free hN hfits hfree
        marked := updateAllocation_used hN hfits }

/-- PRBs 0 and 1 are at the edge; of the seven from PRB 3 on SC-FDMA allows six. -/
theorem newAllocation_sound_edge :
    let m : UlMetric := { nofRb := 10, usedRb := fun n => n == 2 }
    m.newAllocation exampleLib 7 = (false, ⟨3, 6⟩) ∧
      AllocSound exampleLib m 7 (m.newAllocation exampleLib 7) :=
  ⟨by decide, newAllocation_sound exampleLib _ 7 (by decide) (by decide) (by decide)⟩

end Srsenb.Mac.UlMetric
