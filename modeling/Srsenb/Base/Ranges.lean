import Mathlib.Data.List.Basic

/-! # Ranges of indices, one after the other

A range has its first and its last index. It is empty if the last one is just before the first. -/

namespace Srsenb.Ranges

/-- `k` is in the range `r`. -/
def Within (k : Nat) (r : Nat × Nat) : Prop := r.1 ≤ k ∧ k ≤ r.2

/-- The ranges go from `a` on, without a gap, up to the index before `b`. -/
inductive Tiles : Nat → List (Nat × Nat) → Nat → Prop
  | nil (a : Nat) : Tiles a [] a
  | cons {a e b : Nat} {rs : List (Nat × Nat)} (hle : a ≤ e + 1) (h : Tiles (e + 1) rs b) :
      Tiles a ((a, e) :: rs) b

/-- The ranges are consecutive and disjoint, and have the indices from 1 to `n`. -/
structure Partition (rs : List (Nat × Nat)) (n : Nat) : Prop where
  consecutive : rs.IsChain fun r r' => r'.1 = r.2 + 1
  disjoint : rs.Pairwise fun r r' => r.2 < r'.1
  covers : ∀ k, (∃ r ∈ rs, Within k r) ↔ 1 ≤ k ∧ k ≤ n

variable {a b c k : Nat} {rs qs : List (Nat × Nat)}

theorem Tiles.append (h : Tiles a rs b) (h' : Tiles b qs c) : Tiles a (rs ++ qs) c := by
  induction h with
  | nil => exact h'
  | cons hle _ ih => exact .cons hle (ih h')

theorem Tiles.single (h : a ≤ b + 1) : Tiles a [(a, b)] (b + 1) := .cons h (.nil _)

theorem Tiles.le (h : Tiles a rs b) : a ≤ b := by
  induction h with
  | nil => exact Nat.le_refl _
  | cons hle _ ih => exact Nat.le_trans hle ih

theorem Tiles.within_iff (h : Tiles a rs b) : (∃ r ∈ rs, Within k r) ↔ a ≤ k ∧ k < b := by
  induction h with
  | nil =>
    simp only [List.not_mem_nil, false_and, exists_false, false_iff]
    omega
  | cons hle h ih =>
    have hend := h.le
    simp only [List.mem_cons, exists_eq_or_imp]
    rw [ih, Within]
    simp only
    omega

theorem Tiles.start_ge (h : Tiles a rs b) : ∀ r ∈ rs, a ≤ r.1 := by
  induction h with
  | nil => simp
  | cons hle _ ih =>
    intro r hr
    rcases List.mem_cons.1 hr with rfl | hr
    · exact Nat.le_refl _
    · exact Nat.le_trans hle (ih r hr)

theorem Tiles.disjoint (h : Tiles a rs b) : rs.Pairwise fun r r' => r.2 < r'.1 := by
  induction h with
  | nil => exact .nil
  | cons _ h ih => exact .cons (fun r hr => h.start_ge r hr) ih

theorem Tiles.consecutive (h : Tiles a rs b) : rs.IsChain fun r r' => r'.1 = r.2 + 1 := by
  induction h with
  | nil => exact .nil
  | cons _ h ih =>
    cases h with
    | nil => exact .singleton _
    | cons => exact .cons_cons rfl ih

theorem Tiles.partition {n : Nat} (h : Tiles 1 rs (n + 1)) : Partition rs n where
  consecutive := h.consecutive
  disjoint := h.disjoint
  covers k := by
    rw [h.within_iff]
    omega

/-- Ranges that go on past `n` are no partition of what is up to `n`. -/
theorem Tiles.partition_iff {m n : Nat} (h : Tiles 1 rs (m + 1)) : Partition rs n ↔ m = n := by
  constructor
  · intro hp
    have hle := hp.covers m
    have hge := hp.covers n
    rw [h.within_iff] at hle hge
    omega
  · rintro rfl
    exact h.partition

/-! ## Ranges from cuts, and ranges of one length -/

/-- Each cut is the first index after a range. -/
theorem tiles_cuts {l : List Nat} (ha : 0 < a) (h : (a :: l).Pairwise (· ≤ ·)) :
    Tiles a ((a :: l.dropLast).zip (l.map (· - 1))) ((a :: l).getLast (List.cons_ne_nil a l)) := by
  induction l generalizing a with
  | nil => exact .nil a
  | cons x l ih =>
    obtain ⟨hx, hl⟩ := List.pairwise_cons.1 h
    have hax := hx x List.mem_cons_self
    have hrest := ih (by omega) hl
    cases l with
    | nil =>
      have hone := Tiles.single (a := a) (b := x - 1) (by omega)
      rw [Nat.sub_add_cancel (by omega)] at hone
      exact hone
    | cons y l =>
      rw [List.dropLast_cons_cons, List.map_cons, List.zip_cons_cons, List.getLast_cons_cons]
      refine .cons (by omega) ?_
      rwa [Nat.sub_add_cancel (by omega)]

/-- `n` ranges of length `len`. -/
def equalRanges (n len : Nat) : List (Nat × Nat) :=
  (List.range n).map fun i => (1 + i * len, len + len * i)

theorem tiles_equalRanges (n len : Nat) : Tiles 1 (equalRanges n len) (n * len + 1) := by
  induction n with
  | zero =>
    rw [Nat.zero_mul]
    exact .nil 1
  | succ n ih =>
    have hlast : Tiles (n * len + 1) [(1 + n * len, len + len * n)] ((n + 1) * len + 1) := by
      have := Tiles.single (a := n * len + 1) (b := (n + 1) * len) (by rw [Nat.succ_mul]; omega)
      rwa [Nat.add_comm, show (n + 1) * len = len + len * n by
        rw [Nat.succ_mul, Nat.mul_comm, Nat.add_comm]] at this ⊢
    rw [equalRanges, List.range_succ, List.map_append]
    exact ih.append hlast

end Srsenb.Ranges
