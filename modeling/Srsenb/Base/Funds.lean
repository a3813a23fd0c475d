import Mathlib.Data.Set.Basic
import Mathlib.Order.Basic

/-! # Claims and what covers them

One side keeps for each key what it may still claim, the other side what there is. Each changes its
own books, and a report brings a claim up to date with what there is. -/

namespace Srsenb

/-- Each claim is covered, but for the keys in `S`. -/
def CoveredOff {κ M : Type} [LE M] (S : Set κ) (claim fund : κ → M) : Prop :=
  ∀ k ∉ S, claim k ≤ fund k

namespace CoveredOff

variable {κ M : Type} [Preorder M] {S T : Set κ} {claim claim' fund fund' : κ → M}

theorem mono (h : CoveredOff S claim fund) (hST : S ⊆ T) : CoveredOff T claim fund :=
  fun k hk => h k fun hS => hk (hST hS)

/-- Claims are given up. -/
theorem giveUp (h : CoveredOff S claim fund) (hle : ∀ k, claim' k ≤ claim k) :
    CoveredOff S claim' fund := fun k hk => (hle k).trans (h k hk)

/-- The funds of `T` alone are drawn on. -/
theorem draw (h : CoveredOff S claim fund) (hle : ∀ k ∉ T, fund k ≤ fund' k) :
    CoveredOff (S ∪ T) claim fund' := by
  intro k hk
  rw [Set.mem_union, not_or] at hk
  exact (h k hk.1).trans (hle k hk.2)

/-- Funds grow. -/
theorem deposit (h : CoveredOff S claim fund) (hle : ∀ k, fund k ≤ fund' k) :
    CoveredOff S claim fund' := fun k hk => (h k hk).trans (hle k)

/-- The keys of `T` are reported: what may be claimed of them is covered. -/
theorem report (h : CoveredOff S claim fund) (hT : ∀ k ∈ T, claim' k ≤ fund k)
    (hle : ∀ k ∉ T, claim' k ≤ claim k) : CoveredOff (S \ T) claim' fund := by
  intro k hk
  by_cases hkT : k ∈ T
  · exact hT k hkT
  · exact (hle k hkT).trans (h k fun hS => hk ⟨hS, hkT⟩)

end CoveredOff

end Srsenb
