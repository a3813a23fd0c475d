import Srsenb.Base.Rows

/-! # Vectors indexed from 1

An index outside of a vector is an error on a read. A write past its end fills the gap with
zeros. -/

namespace Srsenb.Vec

variable {α β : Type}

/-- `v(i)` -/
def entry (v : List α) (i : Nat) : Option α := if i = 0 then none else v[i - 1]?

/-- `v(a:b)` -/
def range (v : List α) (a b : Nat) : Option (List α) :=
  if b < a then some []
  else if 1 ≤ a ∧ b ≤ v.length then some (slice (a - 1) (b + 1 - a) v)
  else none

/-- `v(i) = x` -/
def put [Zero α] (v : List α) (i : Nat) (x : α) : List α :=
  if i ≤ v.length then v.set (i - 1) x else v ++ List.replicate (i - 1 - v.length) 0 ++ [x]

variable {v : List α}

theorem entry_succ (v : List α) (i : Nat) : entry v (i + 1) = v[i]? := if_neg (Nat.succ_ne_zero i)

theorem range_eq {a n : Nat} (h : a + n ≤ v.length) :
    range v (a + 1) (a + n) = some (slice a n v) := by
  unfold range
  split_ifs with hlt hin
  · obtain rfl : n = 0 := by omega
    simp [slice]
  · simp only [Nat.add_sub_cancel, Option.some.injEq]
    congr 1
    omega
  · omega

theorem getElem?_slice {a n k : Nat} (h : k < n) : (slice a n v)[k]? = v[a + k]? := by
  rw [slice, List.getElem?_take_of_lt h, List.getElem?_drop]

/-- Columns of `n` elements, one after the other. -/
theorem getElem?_flatMap {f : Nat → List α} {n : Nat} (hf : ∀ j, (f j).length = n) {m s i : Nat}
    (h : i < m * n) : ((List.range' s m).flatMap f)[i]? = (f (s + i / n))[i % n]? := by
  induction m generalizing s i with
  | zero => omega
  | succ m ih =>
    rw [Nat.succ_mul] at h
    rw [List.range'_succ, List.flatMap_cons]
    by_cases hi : i < n
    · rw [List.getElem?_append_left (by rw [hf]; exact hi), Nat.div_eq_of_lt hi,
        Nat.mod_eq_of_lt hi, Nat.add_zero]
    · have hn : 0 < n := by
        rcases Nat.eq_zero_or_pos n with rfl | hn
        · exact absurd h (Nat.not_lt_zero i)
        · exact hn
      have hdiv : i / n = (i - n) / n + 1 := Nat.div_eq_sub_div hn (by omega)
      have hmod : i % n = (i - n) % n := Nat.mod_eq_sub_mod (by omega)
      rw [List.getElem?_append_right (by rw [hf]; omega), hf, ih (by omega), hdiv, hmod,
        Nat.add_right_comm, Nat.add_assoc]

theorem entry_isSome {i : Nat} (h1 : 1 ≤ i) (h2 : i ≤ v.length) : ∃ x, entry v i = some x := by
  obtain ⟨i, rfl⟩ : ∃ k, i = k + 1 := ⟨i - 1, by omega⟩
  rw [entry_succ]
  exact ⟨_, List.getElem?_eq_getElem (by omega)⟩

/-! ## Loops that fill a vector -/

theorem exists_mapM {f : α → Option β} {l : List α} (h : ∀ x ∈ l, ∃ y, f x = some y) :
    ∃ ys, l.mapM f = some ys ∧ ys.length = l.length := by
  induction l with
  | nil => exact ⟨[], rfl, rfl⟩
  | cons x l ih =>
    obtain ⟨y, hy⟩ := h x List.mem_cons_self
    obtain ⟨ys, hys, hlen⟩ := ih fun z hz => h z (List.mem_cons_of_mem x hz)
    refine ⟨y :: ys, ?_, by rw [List.length_cons, List.length_cons, hlen]⟩
    rw [List.mapM_cons, hy, hys]
    rfl

theorem mapM_of_forall {f : α → Option β} {g : α → β} {l : List α}
    (h : ∀ x ∈ l, f x = some (g x)) : l.mapM f = some (l.map g) := by
  induction l with
  | nil => rfl
  | cons x l ih =>
    rw [List.mapM_cons, h x List.mem_cons_self, ih fun y hy => h y (List.mem_cons_of_mem x hy)]
    rfl

/-- A loop over `b`, `b + 1` and so on, one round for each element. -/
theorem mapM_range' {f : Nat → Option β} {l : List β} {b : Nat}
    (h : ∀ (k : Nat) (x : β), l[k]? = some x → f (b + k) = some x) :
    (List.range' b l.length).mapM f = some l := by
  induction l generalizing b with
  | nil => rfl
  | cons x l ih =>
    have hrest : (List.range' (b + 1) l.length).mapM f = some l := ih fun k y hk => by
      rw [Nat.add_right_comm, Nat.add_assoc]
      exact h (k + 1) y hk
    have hfirst : f b = some x := h 0 x rfl
    rw [List.length_cons, List.range'_succ, List.mapM_cons, hfirst, hrest]
    rfl

section Zero

variable [Zero α]

/-- `n` places, the first of them assigned. -/
def preset (n : Nat) (l : List α) : List α := l ++ List.replicate (n - l.length) 0

theorem length_preset {n : Nat} {l : List α} (h : l.length ≤ n) : (preset n l).length = n := by
  rw [preset, List.length_append, List.length_replicate]
  omega

theorem put_preset {n : Nat} {l : List α} (h : l.length < n) (x : α) :
    put (preset n l) (l.length + 1) x = preset n (l ++ [x]) := by
  unfold put
  rw [if_pos (by rw [length_preset h.le]; omega), Nat.add_sub_cancel, preset,
    List.set_append_right _ _ (Nat.le_refl _), Nat.sub_self,
    show n - l.length = n - (l.length + 1) + 1 by omega, List.replicate_succ, List.set_cons_zero,
    preset, List.length_append, List.length_singleton, List.append_assoc, List.singleton_append]

end Zero

end Srsenb.Vec
