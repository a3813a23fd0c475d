import Mathlib.Logic.Function.Basic
import Mathlib.Tactic.Common
import Mathlib.Algebra.Order.Ring.Int
import Mathlib.Data.Set.Lattice
import Mathlib.Data.Fin.Basic

/-! # Two tables that are one partial bijection

A store that is searched by either of two keys keeps two tables, one in each direction. -/

namespace Srsenb

variable {α β : Type*} {f : α → Option β} {g : β → Option α} {a a' : α} {b b' : β}

/-- `f` and `g` are the two directions of one partial bijection. -/
def TwoWay (f : α → Option β) (g : β → Option α) : Prop := ∀ b a, g b = some a ↔ f a = some b

namespace TwoWay

theorem fst_inj (h : TwoWay f g) (ha : f a = some b) (ha' : f a' = some b) : a = a' := by
  have h1 := (h b a).mpr ha
  have h2 := (h b a').mpr ha'
  exact Option.some.inj (h1.symm.trans h2)

variable [DecidableEq α] [DecidableEq β]

/-- A new pair of two unused keys. -/
theorem insert (h : TwoWay f g) (ha : f a = none) (hb : g b = none) :
    TwoWay (Function.update f a (some b)) (Function.update g b (some a)) := by
  intro y x
  by_cases hy : y = b
  · subst hy
    by_cases hx : x = a
    · subst hx; simp
    · have hfx : f x ≠ some y := fun hf => by simp [(h y x).mpr hf] at hb
      simp [Function.update_of_ne hx, hfx, Ne.symm hx]
  · rw [Function.update_of_ne hy, h y x]
    by_cases hx : x = a
    · subst hx; simp [ha, Ne.symm hy]
    · rw [Function.update_of_ne hx]

/-- A pair is taken out of both tables. -/
theorem erase (h : TwoWay f g) (ha : f a = some b) :
    TwoWay (Function.update f a none) (Function.update g b none) := by
  intro y x
  by_cases hy : y = b
  · subst hy
    by_cases hx : x = a
    · subst hx; simp
    · have hfx : f x ≠ some y := fun hf => hx (h.fst_inj hf ha)
      simp [Function.update_of_ne hx, hfx]
  · rw [Function.update_of_ne hy, h y x]
    by_cases hx : x = a
    · subst hx; simp [ha, Ne.symm hy]
    · rw [Function.update_of_ne hx]

omit [DecidableEq β] in
/-- A pair must not be taken out of the first table alone. -/
theorem not_erase_fst (h : TwoWay f g) (ha : f a = some b) :
    ¬ TwoWay (Function.update f a none) g := by
  intro h'
  have hg := (h b a).mpr ha
  have := (h' b a).mp hg
  simp at this

omit [DecidableEq α] in
/-- A pair must not be taken out of the second table while the first one keeps it. -/
theorem not_erase_snd (ha : f a = some b) : ¬ TwoWay f (Function.update g b none) := by
  intro h'
  have := (h' b a).mpr ha
  simp at this

/-- A key must not be paired again while its old pair is in the second table. -/
theorem not_rebind (h : TwoWay f g) (ha : f a = some b) (hb : b ≠ b') :
    ¬ TwoWay (Function.update f a (some b')) (Function.update g b' (some a)) := by
  intro h'
  have hg := (h b a).mpr ha
  have := (h' b a).mp (by rw [Function.update_of_ne hb, hg])
  simp [hb.symm] at this

end TwoWay

end Srsenb
