import Mathlib.Data.List.Basic

/-! # Loops that may stop, over arrays with an end

A round that fails ends the loop. An access past the end of an array is such a failure. -/

namespace Srsenb

section Loop

variable {m : Type → Type} [Monad m] {σ : Type}

/-- The rounds `0` to `n - 1`. -/
def loop (n : Nat) (f : σ → Nat → m σ) (s : σ) : m σ := (List.range n).foldlM f s

@[simp] theorem loop_zero (f : σ → Nat → m σ) (s : σ) : loop 0 f s = pure s := rfl

theorem loop_succ [LawfulMonad m] (n : Nat) (f : σ → Nat → m σ) (s : σ) :
    loop (n + 1) f s = loop n f s >>= fun s => f s n := by
  simp [loop, List.range_succ, List.foldlM_append]

end Loop

section Arrays

variable {σ α : Type} {f : σ → Nat → Option σ} {n : Nat} {s : σ}

/-- If each round succeeds and keeps the invariant, the loop does. -/
theorem loop_ok (P : Nat → σ → Prop) (h0 : P 0 s)
    (hstep : ∀ i < n, ∀ s, P i s → ∃ s', f s i = some s' ∧ P (i + 1) s') :
    ∃ s', loop n f s = some s' ∧ P n s' := by
  induction n with
  | zero => exact ⟨s, rfl, h0⟩
  | succ n ih =>
    obtain ⟨s₁, hs₁, hp₁⟩ := ih fun i hi => hstep i (by omega)
    obtain ⟨s₂, hs₂, hp₂⟩ := hstep n (by omega) s₁ hp₁
    exact ⟨s₂, by rw [loop_succ, hs₁]; exact hs₂, hp₂⟩

/-- A loop does not get past a round that fails. -/
theorem loop_stuck (P : σ → Prop) (h0 : P s) {k : Nat} (hk : k < n)
    (hstep : ∀ i s s', P s → f s i = some s' → P s') (hfail : ∀ s, P s → f s k = none) :
    loop n f s = none := by
  have hkeep : ∀ i s', loop i f s = some s' → P s' := by
    intro i
    induction i with
    | zero => rintro s' ⟨⟩; exact h0
    | succ i ih =>
      intro s' hs'
      rw [loop_succ, Option.bind_eq_bind, Option.bind_eq_some_iff] at hs'
      obtain ⟨s₁, hs₁, hs'⟩ := hs'
      exact hstep i s₁ s' (ih s₁ hs₁) hs'
  induction n with
  | zero => exact absurd hk (Nat.not_lt_zero k)
  | succ n ih =>
    rw [loop_succ, Option.bind_eq_bind]
    rcases Nat.lt_succ_iff_lt_or_eq.1 hk with hlt | rfl
    · rw [ih hlt]
      rfl
    · cases hs : loop k f s with
      | none => rfl
      | some s' => exact hfail s' (hkeep k s' hs)

/-- An assignment to the place `i` of an array. -/
def write (l : List α) (i : Nat) (a : α) : Option (List α) :=
  if i < l.length then some (l.set i a) else none

theorem write_of_lt {l : List α} {i : Nat} (h : i < l.length) (a : α) :
    write l i a = some (l.set i a) := if_pos h

theorem write_of_le {l : List α} {i : Nat} (h : l.length ≤ i) (a : α) : write l i a = none :=
  if_neg (by omega)

theorem length_of_write {l l' : List α} {i : Nat} {a : α} (h : write l i a = some l') :
    l'.length = l.length := by
  unfold write at h
  split at h
  · obtain rfl := Option.some.inj h
    exact List.length_set
  · cases h

theorem take_write {l l' : List α} {i : Nat} {a : α} (h : write l i a = some l') :
    l'.take (i + 1) = l.take i ++ [a] := by
  unfold write at h
  split at h
  · rename_i hi
    obtain rfl := Option.some.inj h
    rw [List.take_add_one, List.take_set_of_le (Nat.le_refl i), List.getElem?_set_self hi]
    rfl
  · cases h

theorem drop_write {l l' : List α} {i : Nat} {a : α} (h : write l i a = some l') :
    l'.drop (i + 1) = l.drop (i + 1) := by
  unfold write at h
  split at h
  · obtain rfl := Option.some.inj h
    exact List.drop_set_of_lt (Nat.lt_succ_self i)
  · cases h

theorem getElem?_write {l l' : List α} {i j : Nat} {a : α} (h : write l i a = some l')
    (hj : j ≠ i) : l'[j]? = l[j]? := by
  unfold write at h
  split at h
  · obtain rfl := Option.some.inj h
    exact List.getElem?_set_ne hj.symm
  · cases h

end Arrays

end Srsenb
