import Mathlib.Data.List.DropRight
import Mathlib.Tactic.Common

/-! # Loops over records

A loop that changes each record needs what it has seen before, which it often keeps in a table
that is searched for the first match. -/

namespace Srsenb.Scan

/-! ## One output for each item -/

section Scan

variable {σ α β : Type*}

/-- The last state, and what the steps put out. -/
def scan (step : σ → α → σ × β) : σ → List α → σ × List β
  | s, [] => (s, [])
  | s, x :: xs =>
    let (s, y) := step s x
    let (s, ys) := scan step s xs
    (s, y :: ys)

variable {step : σ → α → σ × β}

@[simp] theorem scan_nil (s : σ) : scan step s [] = (s, []) := rfl

theorem scan_cons (s : σ) (x : α) (xs : List α) : scan step s (x :: xs) =
    ((scan step (step s x).1 xs).1, (step s x).2 :: (scan step (step s x).1 xs).2) := rfl

theorem scan_append (s : σ) (xs ys : List α) : scan step s (xs ++ ys) =
    ((scan step (scan step s xs).1 ys).1,
      (scan step s xs).2 ++ (scan step (scan step s xs).1 ys).2) := by
  induction xs generalizing s with
  | nil => rfl
  | cons x xs ih => simp only [List.cons_append, scan_cons, ih]

/-- A loop within a loop does what one loop over all items does. -/
theorem scan_flatten (s : σ) (xss : List (List α)) :
    ((scan (scan step) s xss).1, (scan (scan step) s xss).2.flatten) =
      scan step s xss.flatten := by
  induction xss generalizing s with
  | nil => rfl
  | cons xs xss ih =>
    rw [scan_cons, List.flatten_cons, List.flatten_cons, scan_append, ← ih]

/-- The output of an item, from the state that the items before it leave. -/
theorem scan_getElem? (s : σ) (xs : List α) (n : Nat) :
    (scan step s xs).2[n]? = xs[n]?.map fun x => (step (scan step s (xs.take n)).1 x).2 := by
  induction xs generalizing s n with
  | nil => rfl
  | cons x xs ih =>
    rw [scan_cons]
    cases n with
    | zero => rfl
    | succ n => rw [List.getElem?_cons_succ, List.getElem?_cons_succ, ih, List.take_succ_cons,
        scan_cons]

/-- What only some of the items change is a fold over them. -/
theorem scan_view {τ : Type*} (view : σ → τ) (p : α → Bool) (change : τ → α → τ)
    (hchange : ∀ s x, p x = true → view (step s x).1 = change (view s) x)
    (hkeep : ∀ s x, p x = false → view (step s x).1 = view s) (s : σ) (xs : List α) :
    view (scan step s xs).1 = (xs.filter p).foldl change (view s) := by
  induction xs generalizing s with
  | nil => rfl
  | cons x xs ih =>
    rw [scan_cons, ih]
    cases hp : p x with
    | true => rw [List.filter_cons_of_pos hp, List.foldl_cons, hchange s x hp]
    | false => rw [List.filter_cons_of_neg (by simp [hp]), hkeep s x hp]

end Scan

/-! ## Histories -/

section Histories

variable {α : Type*} {p : α → Bool}

/-- What stands before an element that ends the search is not reached. -/
theorem rtakeWhile_append_cons {l : List α} {a : α} (ha : ¬ p a = true) (m : List α) :
    (l ++ a :: m).rtakeWhile p = m.rtakeWhile p := by
  induction m using List.reverseRecOn with
  | nil => rw [List.rtakeWhile_concat_neg _ _ _ ha, List.rtakeWhile_nil]
  | append_singleton m b ih =>
    rw [← List.cons_append, ← List.append_assoc, List.rtakeWhile_concat, List.rtakeWhile_concat, ih]

/-- A start of a filtered list is what a start of the list leaves. -/
theorem prefix_filter {q l : List α} {a : α} (h : q ++ [a] <+: l.filter p) :
    ∃ n, l[n]? = some a ∧ (l.take n).filter p = q ∧ p a = true := by
  obtain ⟨rest, hrest⟩ := h
  rw [List.append_assoc, List.singleton_append] at hrest
  obtain ⟨l1, l2, rfl, rfl, h2⟩ := List.filter_eq_append_iff.mp hrest.symm
  obtain ⟨m, l3, rfl, hm, ha, -⟩ := List.filter_eq_cons_iff.mp h2
  refine ⟨(l1 ++ m).length, ?_, ?_, ha⟩
  · rw [← List.append_assoc, List.getElem?_append_right le_rfl, Nat.sub_self]
    rfl
  · have hskip : m.filter p = [] := List.filter_eq_nil_iff.mpr hm
    rw [← List.append_assoc, List.take_left, List.filter_append, hskip, List.append_nil]

theorem filter_take_succ {l : List α} {n : Nat} {a : α} (h : l[n]? = some a) (ha : p a = true) :
    (l.take (n + 1)).filter p = (l.take n).filter p ++ [a] := by
  rw [List.take_add_one, h, List.filter_append]
  simp [ha]

end Histories

/-! ## Tables searched for the first match -/

section Tables

variable {α : Type*} {p q : α → Bool} {f : α → α} {l : List α} {i : Nat}

theorem getElem?_findIdx? (h : l.findIdx? p = some i) : l[i]? = l.find? p := by
  rw [List.find?_eq_bind_findIdx?_getElem?, h]
  rfl

/-- A change of the first match is found by the same search. -/
theorem find?_modify_self (h : l.findIdx? p = some i) (hf : ∀ x, p (f x) = p x) :
    (l.modify i f).find? p = (l.find? p).map f := by
  induction l generalizing i with
  | nil => simp at h
  | cons x l ih =>
    rw [List.findIdx?_cons] at h
    cases hx : p x with
    | true =>
      obtain rfl : 0 = i := by simpa [hx] using h
      rw [List.modify_zero_cons, List.find?_cons_of_pos (by rw [hf, hx]),
        List.find?_cons_of_pos hx]
      rfl
    | false =>
      simp only [hx, Bool.false_eq_true, if_false, Option.map_eq_some_iff] at h
      obtain ⟨j, hj, rfl⟩ := h
      rw [List.modify_succ_cons, List.find?_cons_of_neg (by simp [hx]),
        List.find?_cons_of_neg (by simp [hx]), ih hj]

/-- A search for something else does not see it. -/
theorem find?_modify_other (h : l.findIdx? p = some i)
    (hq : ∀ x, p x = true → q x = false ∧ q (f x) = false) :
    (l.modify i f).find? q = l.find? q := by
  induction l generalizing i with
  | nil => simp at h
  | cons x l ih =>
    rw [List.findIdx?_cons] at h
    cases hx : p x with
    | true =>
      obtain rfl : 0 = i := by simpa [hx] using h
      obtain ⟨h1, h2⟩ := hq x hx
      rw [List.modify_zero_cons, List.find?_cons_of_neg (by simp [h2]),
        List.find?_cons_of_neg (by simp [h1])]
    | false =>
      simp only [hx, Bool.false_eq_true, if_false, Option.map_eq_some_iff] at h
      obtain ⟨j, hj, rfl⟩ := h
      rw [List.modify_succ_cons, List.find?_cons, List.find?_cons, ih hj]

end Tables

end Srsenb.Scan
