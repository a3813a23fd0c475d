import Srsenb.Base.Masks
import Srsenb.Base.Run
import Srsenb.Mac.DlMetricSpec

/-! # RBG masks and the table of used RBGs

The RBGs in use are kept twice: in an array, with RBG 0 first, and in a mask, with RBG 0 in the
highest bit. -/

open Srsenb.Run Srsenb.Masks

namespace Srsenb.Mac

namespace DlMetric

/-- What is called on the metric after `new_tti`. -/
inductive RbgCall where
  | newAllocation (nofRbg : Nat)
  | updateAllocation (newMask : Nat)

/-- `new_allocation` gives a mask and leaves the metric as it is. -/
def call (m : DlMetric) : RbgCall → DlMetric
  | .newAllocation _ => m
  | .updateAllocation newMask => m.updateAllocation newMask

/-- The free RBGs, the lowest first. -/
def freeRbgs (m : DlMetric) : List Nat := (List.range m.totalRbg).filter fun n => !m.usedRbg n

/-- What `new_allocation(k)` gives. -/
structure Allocates (m : DlMetric) (k : Nat) : Prop where
  lowest : ∀ b, (m.newAllocation k).2.testBit b = true ↔
    b < m.totalRbg ∧ m.totalRbg - 1 - b ∈ m.freeRbgs.take k
  fits : (m.newAllocation k).1 = true ↔ k ≤ m.freeRbgs.length
  apart : (m.newAllocation k).2 &&& m.usedRbgMask = 0
  count : countRbg (m.newAllocation k).2 = min k m.freeRbgs.length

structure Corresponds (m : DlMetric) : Prop where
  synced : ∀ n < m.totalRbg,
    (m.usedRbg n = true ↔ m.usedRbgMask.testBit (m.totalRbg - 1 - n) = true)
  allocates : ∀ k, Allocates m k

/-- The metric with some table of used RBGs, and the mask of the table. -/
def withUsed (m : DlMetric) (used : Nat → Bool) : DlMetric :=
  { m with usedRbg := used, usedRbgMask := calcRbgMask m.totalRbg used }

variable {m : DlMetric} {k : Nat}

/-! ## One allocation -/

theorem encodes_calcRbgMask (total : Nat) (s : Nat → Bool) :
    Encodes total (calcRbgMask total s) s := fun _ => calcRbgMask_testBit

theorem countRbgFrom_eq (fuel mask count : Nat) :
    countRbgFrom fuel mask count = count + setBits fuel mask := by
  induction fuel generalizing mask count with
  | zero => rfl
  | succ fuel ih =>
    rw [countRbgFrom]
    split_ifs with hpos hodd
    · rw [ih, setBits_succ, if_pos hodd]
      omega
    · rw [ih, setBits_succ, if_neg hodd, Nat.add_zero]
    · rw [Nat.eq_zero_of_not_pos hpos, setBits_zero, Nat.add_zero]

/-- The loop takes the first of the free RBGs. -/
theorem takeFree_taken (used : Nat → Bool) (ns : List Nat) (left : Nat) (taken : Nat → Bool)
    (n : Nat) : (takeFree used ns left taken).2 n = true ↔
      taken n = true ∨ n ∈ (ns.filter fun n => !used n).take left := by
  induction ns generalizing left taken with
  | nil => simp [takeFree]
  | cons i ns ih =>
    rw [takeFree]
    split_ifs with hleft hused
    · rw [ih, List.filter_cons_of_neg (by simp [hused])]
    · obtain ⟨left, rfl⟩ := Nat.exists_eq_succ_of_ne_zero (Nat.pos_iff_ne_zero.mp hleft)
      rw [ih, List.filter_cons_of_pos (by simpa using hused), List.take_succ_cons, List.mem_cons,
        Nat.succ_sub_one, Function.update_apply]
      by_cases hn : n = i
      · simp [hn]
      · simp [hn]
    · rw [Nat.eq_zero_of_not_pos hleft]
      simp

theorem newAllocation_encodes (m : DlMetric) (k : Nat) :
    Encodes m.totalRbg (m.newAllocation k).2 fun n => decide (n ∈ m.freeRbgs.take k) := by
  intro b
  unfold newAllocation
  rw [calcRbgMask_testBit, takeFree_taken, decide_eq_true_eq]
  simp [freeRbgs]

theorem newAllocation_fits (m : DlMetric) (k : Nat) :
    (m.newAllocation k).1 = true ↔ k ≤ m.freeRbgs.length := by
  unfold newAllocation freeRbgs
  rw [decide_eq_true_eq, takeFree_left, Nat.sub_eq_zero_iff_le, List.countP_eq_length_filter]

/-- The mask has as many bits as RBGs are taken, at most the 32 of an integer. -/
theorem countRbg_newAllocation (m : DlMetric) (k : Nat) (htotal : m.totalRbg ≤ 25) :
    countRbg (m.newAllocation k).2 = min k m.freeRbgs.length := by
  have hsub : (m.freeRbgs.take k).Sublist (List.range m.totalRbg) :=
    (List.take_sublist k _).trans List.filter_sublist
  have hcount : (List.range m.totalRbg).countP (fun n => decide (n ∈ m.freeRbgs.take k)) =
      (m.freeRbgs.take k).length := by
    rw [List.countP_eq_length_filter]
    refine (List.Perm.length_eq ?_)
    rw [List.perm_ext_iff_of_nodup (List.nodup_range.filter _) (hsub.nodup List.nodup_range)]
    intro n
    rw [List.mem_filter, decide_eq_true_eq]
    exact and_iff_right_of_imp fun hn => hsub.subset hn
  unfold countRbg
  rw [countRbgFrom_eq, Nat.zero_add, (newAllocation_encodes m k).setBits (by omega), hcount,
    List.length_take]

theorem Synced.allocates (hs : Synced m) (htotal : m.totalRbg ≤ 25) (k : Nat) : Allocates m k where
  lowest b := by rw [newAllocation_encodes m k b, decide_eq_true_eq]
  fits := newAllocation_fits m k
  apart := disjoint_bits_iff.mp (newAllocation_free hs k)
  count := countRbg_newAllocation m k htotal

theorem Synced.corresponds (hs : Synced m) (htotal : m.totalRbg ≤ 25) : Corresponds m where
  synced n hn := by rw [hs n hn]
  allocates := hs.allocates htotal

/-! ## Every sequence of calls -/

theorem synced_withUsed (m : DlMetric) (used : Nat → Bool) : Synced (m.withUsed used) :=
  fun _ hn => ((encodes_calcRbgMask m.totalRbg used).testBit_of_lt hn).symm

theorem synced_newTti (lib : Lib) (m : DlMetric) (ueDb : StdMap SchedUe)
    (startRbg nofRbg ctrl tti : Nat) :
    Synced (m.newTti lib ueDb startRbg nofRbg ctrl tti).1 ∧
      (m.newTti lib ueDb startRbg nofRbg ctrl tti).1.totalRbg = startRbg + nofRbg := by
  obtain ⟨_, hshared, -⟩ := newTti_shared lib m ueDb startRbg nofRbg ctrl tti
  exact ⟨hshared.synced, hshared.totalRbg⟩

theorem synced_call (hs : Synced m) (c : RbgCall) : Synced (m.call c) := by
  cases c with
  | newAllocation k => exact hs
  | updateAllocation mask => exact synced_updateAllocation

theorem call_totalRbg (m : DlMetric) (c : RbgCall) : (m.call c).totalRbg = m.totalRbg := by
  cases c <;> rfl

theorem corresponds_calls (hs : Synced m) (htotal : m.totalRbg ≤ 25) (calls : List RbgCall) :
    AllStates call Corresponds m calls := by
  have hrun : AllStates call (fun m => Synced m ∧ m.totalRbg ≤ 25) m calls :=
    allStates_of_allSteps
      (fun m c h _ => ⟨synced_call h.1 c, (call_totalRbg m c).symm ▸ h.2⟩) ⟨hs, htotal⟩
      (AllSteps.trivial m calls)
  exact hrun.mono fun _ h => h.1.corresponds h.2

end DlMetric

/-! ## The PRBs of a mask -/

/-- The PRBs of the RBGs in a mask. RBG `i` begins at PRB `i * P`, and the last one may be
shorter. -/
def prbsOf (P cellNofPrb mask : Nat) : List Nat :=
  let nb := (cellNofPrb + P - 1) / P
  (List.range cellNofPrb).filter fun prb =>
    (List.range nb).any fun i =>
      mask.testBit (nb - 1 - i) && decide (i * P ≤ prb ∧ prb < (i + 1) * P)

/-- The first `m` RBGs, bit for bit and PRB for PRB. -/
theorem countPrb_upTo (P nrb nb mask : Nat) (m : Nat) :
    ((List.range m).filter fun i => mask.testBit (nb - i - 1)).foldl
      (fun n i => n + ((List.range P).filter fun j => decide (i * P + j < nrb)).length) 0 =
    (List.range (m * P)).countP fun k =>
      decide (k < nrb) && mask.testBit (nb - 1 - k / P) := by
  induction m with
  | zero => simp
  | succ m ih =>
    have hgroup : (List.range P).countP ((fun k =>
        decide (k < nrb) && mask.testBit (nb - 1 - k / P)) ∘ (m * P + ·)) =
        if mask.testBit (nb - m - 1) then
          ((List.range P).filter fun j => decide (m * P + j < nrb)).length else 0 := by
      have hdiv : ∀ j ∈ List.range P, nb - 1 - (m * P + j) / P = nb - m - 1 := by
        intro j hj
        have hj' := List.mem_range.mp hj
        rw [Nat.mul_comm, Nat.mul_add_div (by omega), Nat.div_eq_of_lt hj']
        omega
      split_ifs with hbit
      · rw [← List.countP_eq_length_filter]
        refine List.countP_congr fun j hj => ?_
        simp [hdiv j hj, hbit]
      · refine List.countP_eq_zero.mpr fun j hj => ?_
        simp [hdiv j hj, hbit]
    rw [List.range_succ, List.filter_append, List.foldl_append, ih, Nat.succ_mul, List.range_add,
      List.countP_append, List.countP_map, hgroup]
    cases hbit : mask.testBit (nb - m - 1) <;> simp [hbit]

/-- The count is taken over the PRBs of the cell, each asking for the bit of its RBG. -/
theorem format1CountPrb_eq (lib : Lib) (mask : Nat) {cellNofPrb : Nat}
    (hP : 0 < lib.type0P cellNofPrb) :
    SchedUe.format1CountPrb lib mask cellNofPrb =
      (List.range cellNofPrb).countP fun k => mask.testBit
        ((cellNofPrb + lib.type0P cellNofPrb - 1) / lib.type0P cellNofPrb - 1 -
          k / lib.type0P cellNofPrb) := by
  obtain ⟨P, hPdef⟩ : ∃ P, lib.type0P cellNofPrb = P := ⟨_, rfl⟩
  obtain ⟨nb, hnb⟩ : ∃ nb, (cellNofPrb + P - 1) / P = nb := ⟨_, rfl⟩
  rw [hPdef] at hP
  have hle : cellNofPrb ≤ nb * P := by
    have hlt := Nat.lt_mul_div_succ (cellNofPrb + P - 1) hP
    rw [hnb, Nat.mul_succ, Nat.mul_comm] at hlt
    omega
  unfold SchedUe.format1CountPrb
  simp only [hPdef, hnb]
  rw [countPrb_upTo P cellNofPrb nb mask nb]
  -- Past the cell there is nothing to count.
  obtain ⟨d, hd⟩ := Nat.exists_eq_add_of_le hle
  have hrest : (List.range d).countP ((fun k => decide (k < cellNofPrb) &&
      mask.testBit (nb - 1 - k / P)) ∘ (cellNofPrb + ·)) = 0 := by
    simp [List.countP_eq_zero]
  rw [hd, List.range_add, List.countP_append, List.countP_map, hrest, Nat.add_zero]
  refine List.countP_congr fun k hk => ?_
  simp [List.mem_range.mp hk]

/-- A PRB is in a mask if the bit of its RBG is set. -/
theorem length_prbsOf {P : Nat} (hP : 0 < P) (cellNofPrb mask : Nat) :
    (prbsOf P cellNofPrb mask).length =
      (List.range cellNofPrb).countP fun k =>
        mask.testBit ((cellNofPrb + P - 1) / P - 1 - k / P) := by
  unfold prbsOf
  rw [← List.countP_eq_length_filter]
  refine List.countP_congr fun k hk => ?_
  have hlt : k / P < (cellNofPrb + P - 1) / P := by
    rw [Nat.div_lt_iff_lt_mul hP]
    have hmul := Nat.lt_mul_div_succ (cellNofPrb + P - 1) hP
    rw [Nat.mul_succ, Nat.mul_comm] at hmul
    have := List.mem_range.mp hk
    omega
  simp only [List.any_eq_true, List.mem_range, Bool.and_eq_true, decide_eq_true_eq]
  constructor
  · rintro ⟨i, -, hbit, hge, hless⟩
    have hi : k / P = i := Nat.div_eq_of_lt_le hge hless
    rwa [hi]
  · intro hbit
    have hless := Nat.lt_mul_div_succ k hP
    rw [Nat.mul_comm] at hless
    exact ⟨k / P, hlt, hbit, Nat.div_mul_le_self k P, hless⟩

theorem format1CountPrb_prbsOf (lib : Lib) (mask cellNofPrb : Nat) :
    SchedUe.format1CountPrb lib mask cellNofPrb =
      (prbsOf (lib.type0P cellNofPrb) cellNofPrb mask).length := by
  rcases Nat.eq_zero_or_pos (lib.type0P cellNofPrb) with h0 | hP
  · simp [SchedUe.format1CountPrb, prbsOf, h0]
  · rw [format1CountPrb_eq lib mask hP, length_prbsOf hP]

/-- **RBG masks.** With at most 25 RBGs the table and the mask agree after `new_tti`, and from any
table, in each state of any calls. `new_allocation` gives the lowest of the free RBGs, and
`format1_count_prb` counts the PRBs of a mask. -/
theorem rbg_masks (lib : Lib) (m : DlMetric) (used : Nat → Bool) (ueDb : StdMap SchedUe)
    (startRbg nofRbg ctrl tti : Nat) (calls : List DlMetric.RbgCall)
    (hnew : startRbg + nofRbg ≤ 25) (htotal : m.totalRbg ≤ 25) :
    AllStates DlMetric.call DlMetric.Corresponds
        (m.newTti lib ueDb startRbg nofRbg ctrl tti).1 calls ∧
      AllStates DlMetric.call DlMetric.Corresponds (m.withUsed used) calls ∧
      ∀ mask cellNofPrb, SchedUe.format1CountPrb lib mask cellNofPrb =
        (prbsOf (lib.type0P cellNofPrb) cellNofPrb mask).length := by
  obtain ⟨hsynced, hrbgs⟩ := DlMetric.synced_newTti lib m ueDb startRbg nofRbg ctrl tti
  exact ⟨DlMetric.corresponds_calls hsynced (hrbgs.symm ▸ hnew) calls,
    DlMetric.corresponds_calls (DlMetric.synced_withUsed m used) htotal calls,
    format1CountPrb_prbsOf lib⟩

/-- 25 RBGs, each second one in use. -/
def evenUsed : DlMetric := DlMetric.withUsed { totalRbg := 25 } fun n => decide (n % 2 = 0)

theorem rbg_masks_evenUsed : (evenUsed.newAllocation 2).2 = 2 ^ 23 + 2 ^ 21 ∧
    AllStates DlMetric.call DlMetric.Corresponds evenUsed
      [.newAllocation 2, .updateAllocation (2 ^ 23 + 2 ^ 21)] :=
  ⟨by decide +kernel, (rbg_masks exampleLib { totalRbg := 25 } (fun n => decide (n % 2 = 0)) ∅ 2 23
    3 10 [.newAllocation 2, .updateAllocation (2 ^ 23 + 2 ^ 21)] (by decide) (by decide)).2.1⟩

end Srsenb.Mac
