import Mathlib.Data.List.Range
import Mathlib.Data.Nat.Bitwise

/-! # Sets as bit masks

A set of the numbers below `total` is kept in a mask whose first number is the highest bit. -/

namespace Srsenb.Masks

variable {total mask n m : Nat} {s : Nat → Bool}

/-- The mask has the numbers of `s`, the first of them in the highest of `total` bits. -/
def Encodes (total mask : Nat) (s : Nat → Bool) : Prop :=
  ∀ b, mask.testBit b = true ↔ b < total ∧ s (total - 1 - b) = true

/-- How many of the first `n` bits are set. -/
def setBits (n mask : Nat) : Nat := (List.range n).countP mask.testBit

/-- The lowest bit, and those of the mask shifted by one. -/
theorem setBits_succ (n mask : Nat) :
    setBits (n + 1) mask = setBits n (mask >>> 1) + if mask % 2 = 1 then 1 else 0 := by
  unfold setBits
  rw [List.range_succ_eq_map, List.countP_cons, List.countP_map]
  have hshift : mask.testBit ∘ Nat.succ = (mask >>> 1).testBit := by
    funext b
    rw [Function.comp_apply, Nat.testBit_shiftRight, Nat.add_comm]
  rw [hshift]
  simp [Nat.testBit_zero]

@[simp] theorem setBits_zero (n : Nat) : setBits n 0 = 0 := by
  unfold setBits
  simp [List.countP_eq_zero]

theorem countP_reflect (n : Nat) (s : Nat → Bool) :
    (List.range n).countP (fun b => s (n - 1 - b)) = (List.range n).countP s := by
  induction n with
  | zero => rfl
  | succ n ih =>
    have hshift : (fun b => s (n + 1 - 1 - b)) ∘ Nat.succ = fun b => s (n - 1 - b) := by
      funext b
      rw [Function.comp_apply, show n + 1 - 1 - b.succ = n - 1 - b by omega]
    rw [List.range_succ_eq_map, List.countP_cons, List.countP_map, hshift, ih,
      ← List.range_succ_eq_map, List.range_succ, List.countP_append, List.countP_singleton]
    simp

theorem Encodes.testBit_high (h : Encodes total mask s) {b : Nat} (hb : total ≤ b) :
    mask.testBit b = false := by
  rw [Bool.eq_false_iff]
  intro hbit
  exact absurd ((h b).mp hbit).1 (by omega)

theorem Encodes.testBit_of_lt (h : Encodes total mask s) {i : Nat} (hi : i < total) :
    mask.testBit (total - 1 - i) = s i := by
  have hidx : total - 1 - (total - 1 - i) = i := by omega
  rw [Bool.eq_iff_iff, h, hidx]
  exact and_iff_right (by omega)

/-- The set bits of a mask are as many as the numbers of the set. -/
theorem Encodes.setBits (h : Encodes total mask s) (hn : total ≤ n) :
    setBits n mask = (List.range total).countP s := by
  obtain ⟨d, rfl⟩ := Nat.exists_eq_add_of_le hn
  unfold Masks.setBits
  have hhigh : (List.range d).countP (mask.testBit ∘ (total + ·)) = 0 := by
    rw [List.countP_eq_zero]
    intro b _
    rw [Function.comp_apply, h.testBit_high (by omega)]
    exact Bool.false_ne_true
  rw [List.range_add, List.countP_append, List.countP_map, hhigh, Nat.add_zero,
    ← countP_reflect total s]
  refine List.countP_congr fun b hb => ?_
  rw [h b]
  exact and_iff_right (List.mem_range.mp hb)

end Srsenb.Masks
