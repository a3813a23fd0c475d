import Mathlib.Order.Disjoint
import Mathlib.Data.Set.Disjoint
import Mathlib.Data.Set.Insert
import Mathlib.Tactic.Common
import Mathlib.Algebra.Order.Ring.Int
import Mathlib.Data.Set.Lattice
import Mathlib.Order.CompletePartialOrder
import Mathlib.Data.Fin.Basic

/-! # Grants from a pool

Resources are handed out one set at a time. A table marks what is used, a base is what was taken
before the first grant, and a table may mark more than was granted. -/

namespace Srsenb.Pool

variable {α κ : Type*}

/-- Each holder in `S` has nothing, or a set that is marked and that it shares neither with the
base nor with another holder. -/
structure Held (base used : Set α) (S : Set κ) (g : κ → Option (Set α)) : Prop where
  base_used : base ⊆ used
  used : ∀ k ∈ S, ∀ A, g k = some A → A ⊆ used
  fresh : ∀ k ∈ S, ∀ A, g k = some A → Disjoint A base
  excl : ∀ k ∈ S, ∀ l ∈ S, k ≠ l → ∀ A B, g k = some A → g l = some B → Disjoint A B

namespace Held

variable {base used used' A : Set α} {S S' : Set κ} {g g' : κ → Option (Set α)} {k : κ}

theorem empty (base : Set α) (g : κ → Option (Set α)) : Held base base ∅ g where
  base_used := subset_rfl
  used := fun _ hk => hk.elim
  fresh := fun _ hk => hk.elim
  excl := fun _ hk => hk.elim

/-- Marks may be added at any time. -/
theorem grow (h : Held base used S g) (hu : used ⊆ used') : Held base used' S g where
  base_used := h.base_used.trans hu
  used := fun k hk A hA => (h.used k hk A hA).trans hu
  fresh := h.fresh
  excl := h.excl

/-- A holder without a grant may be counted in. -/
theorem extend (h : Held base used S g) (hnone : ∀ k ∈ S', k ∉ S → g k = none) :
    Held base used S' g := by
  have hmem : ∀ k ∈ S', ∀ A, g k = some A → k ∈ S := by
    intro k hk A hA
    by_contra hkS
    rw [hnone k hk hkS] at hA
    cases hA
  exact
    { base_used := h.base_used
      used := fun k hk A hA => h.used k (hmem k hk A hA) A hA
      fresh := fun k hk A hA => h.fresh k (hmem k hk A hA) A hA
      excl := fun k hk l hl hne A B hA hB =>
        h.excl k (hmem k hk A hA) l (hmem l hl B hB) hne A B hA hB }

/-- A holder that gets nothing. -/
theorem skip (h : Held base used S g) (hk : g' k = none) (hsame : ∀ l, l ≠ k → g' l = g l) :
    Held base used (insert k S) g' := by
  have hmem : ∀ l ∈ insert k S, ∀ A, g' l = some A → l ∈ S ∧ g l = some A := by
    intro l hl A hA
    have hne : l ≠ k := by
      rintro rfl
      rw [hk] at hA
      cases hA
    exact ⟨hl.resolve_left hne, hsame l hne ▸ hA⟩
  exact
    { base_used := h.base_used
      used := fun l hl A hA => h.used l (hmem l hl A hA).1 A (hmem l hl A hA).2
      fresh := fun l hl A hA => h.fresh l (hmem l hl A hA).1 A (hmem l hl A hA).2
      excl := fun l hl l' hl' hne A B hA hB =>
        h.excl l (hmem l hl A hA).1 l' (hmem l' hl' B hB).1 hne A B (hmem l hl A hA).2
          (hmem l' hl' B hB).2 }

/-- A holder that gets a free set. -/
theorem grant (h : Held base used S g) (hk : g' k = some A) (hsame : ∀ l, l ≠ k → g' l = g l)
    (hfree : Disjoint A used) (hu : used ⊆ used') (hA : A ⊆ used') :
    Held base used' (insert k S) g' := by
  have hself : ∀ B, g' k = some B → B = A := by
    intro B hB
    rw [hk] at hB
    exact (Option.some.inj hB).symm
  have hother : ∀ l ∈ insert k S, l ≠ k → ∀ B, g' l = some B → B ⊆ used := by
    intro l hl hne B hB
    exact h.used l (hl.resolve_left hne) B (hsame l hne ▸ hB)
  refine ⟨h.base_used.trans hu, ?_, ?_, ?_⟩
  · intro l hl B hB
    by_cases hne : l = k
    · subst hne
      exact hself B hB ▸ hA
    · exact (hother l hl hne B hB).trans hu
  · intro l hl B hB
    by_cases hne : l = k
    · subst hne
      exact hself B hB ▸ hfree.mono_right h.base_used
    · exact h.fresh l (hl.resolve_left hne) B (hsame l hne ▸ hB)
  · intro l hl l' hl' hne B C hB hC
    by_cases hlk : l = k
    · subst hlk
      exact hself B hB ▸ hfree.mono_right (hother l' hl' (Ne.symm hne) C hC)
    · by_cases hlk' : l' = k
      · subst hlk'
        exact hself C hC ▸ (hfree.mono_right (hother l hl hlk B hB)).symm
      · exact h.excl l (hl.resolve_left hlk) l' (hl'.resolve_left hlk') hne B C
          (hsame l hlk ▸ hB) (hsame l' hlk' ▸ hC)

end Held

end Srsenb.Pool
