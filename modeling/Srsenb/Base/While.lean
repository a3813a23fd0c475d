import Mathlib.Data.Nat.Basic

/-! # Loops that need not end

A round leads to the next one, ends the loop with a result or fails, as an access outside an array
does. -/

namespace Srsenb

/-- How a round ends. -/
inductive Exit (σ ρ : Type)
  | next (s : σ)
  | done (r : ρ)
  | fail
  deriving DecidableEq, Repr

namespace While

variable {σ ρ : Type}

/-- At most `n` rounds. -/
def run (round : σ → Exit σ ρ) : Nat → σ → Exit σ ρ
  | 0, s => .next s
  | n + 1, s =>
    match round s with
    | .next s' => run round n s'
    | .done r => .done r
    | .fail => .fail

/-- The loop ends, with the result `r`. -/
def Ends (round : σ → Exit σ ρ) (s : σ) (r : ρ) : Prop := ∃ n, run round n s = .done r

variable {round : σ → Exit σ ρ} {s s' : σ} {r r' : ρ} {P : σ → Prop}

theorem run_succ_of_next (h : round s = .next s') (n : Nat) :
    run round (n + 1) s = run round n s' := by
  rw [run, h]

theorem run_succ_of_done (h : round s = .done r) (n : Nat) : run round (n + 1) s = .done r := by
  rw [run, h]

theorem run_succ_of_fail (h : round s = .fail) (n : Nat) : run round (n + 1) s = .fail := by
  rw [run, h]

theorem ends_of_done (h : round s = .done r) : Ends round s r := ⟨1, run_succ_of_done h 0⟩

theorem ends_iff_of_next (h : round s = .next s') : Ends round s r ↔ Ends round s' r := by
  constructor
  · rintro ⟨n, hn⟩
    cases n with
    | zero => cases hn
    | succ n => exact ⟨n, by rwa [run_succ_of_next h] at hn⟩
  · rintro ⟨n, hn⟩
    exact ⟨n + 1, by rwa [run_succ_of_next h]⟩

theorem ends_iff_of_done (h : round s = .done r) : Ends round s r' ↔ r = r' := by
  constructor
  · rintro ⟨n, hn⟩
    cases n with
    | zero => cases hn
    | succ n =>
      rw [run_succ_of_done h] at hn
      exact Exit.done.inj hn
  · rintro rfl
    exact ends_of_done h

theorem run_of_le {n n' : Nat} (h : run round n s = .done r) (hle : n ≤ n') :
    run round n' s = .done r := by
  induction n generalizing s n' with
  | zero => cases h
  | succ n ih =>
    obtain ⟨n', rfl⟩ : ∃ k, n' = k + 1 := ⟨n' - 1, by omega⟩
    cases hr : round s with
    | next s' =>
      rw [run_succ_of_next hr] at h ⊢
      exact ih h (by omega)
    | done r' =>
      rw [run_succ_of_done hr] at h ⊢
      exact h
    | fail =>
      rw [run_succ_of_fail hr] at h
      cases h

/-- The rounds `0` to `n - 1` lead from `state 0` to `state n`. -/
theorem ends_iff_of_rounds (state : Nat → σ) {n : Nat}
    (h : ∀ k < n, round (state k) = .next (state (k + 1))) :
    Ends round (state 0) r ↔ Ends round (state n) r := by
  induction n with
  | zero => rfl
  | succ n ih =>
    rw [ih fun k hk => h k (by omega)]
    exact ends_iff_of_next (h n (by omega))

/-- What the last round gives, if each round before it keeps the invariant. -/
theorem of_ends (Q : ρ → Prop) (hnext : ∀ s s', P s → round s = .next s' → P s')
    (hdone : ∀ s r, P s → round s = .done r → Q r) (h : P s) (he : Ends round s r) : Q r := by
  obtain ⟨n, hn⟩ := he
  induction n generalizing s with
  | zero => cases hn
  | succ n ih =>
    cases hr : round s with
    | next s' =>
      rw [run_succ_of_next hr] at hn
      exact ih (hnext s s' h hr) hn
    | done r' =>
      rw [run_succ_of_done hr] at hn
      exact Exit.done.inj hn ▸ hdone s r' h hr
    | fail =>
      rw [run_succ_of_fail hr] at hn
      cases hn

/-- If each round keeps the invariant and none fails, the loop does not. -/
theorem run_ne_fail (hstep : ∀ s, P s → round s ≠ .fail ∧ ∀ s', round s = .next s' → P s')
    (h : P s) (n : Nat) : run round n s ≠ .fail := by
  induction n generalizing s with
  | zero => simp [run]
  | succ n ih =>
    cases hr : round s with
    | next s' =>
      rw [run_succ_of_next hr]
      exact ih ((hstep s h).2 s' hr)
    | done r =>
      rw [run_succ_of_done hr]
      simp
    | fail => exact absurd hr (hstep s h).1

/-- If the invariant leads to a next round each time, the loop goes on for ever. -/
theorem not_ends_of_forever (hstep : ∀ s, P s → ∃ s', round s = .next s' ∧ P s') (h : P s) :
    ¬ Ends round s r := by
  rintro ⟨n, hn⟩
  induction n generalizing s with
  | zero => cases hn
  | succ n ih =>
    obtain ⟨s', hr, hs'⟩ := hstep s h
    rw [run_succ_of_next hr] at hn
    exact ih hs' hn

/-- A loop whose rounds keep the invariant and lower the measure ends. -/
theorem ends_of_measure (μ : σ → Nat) (Q : ρ → Prop)
    (hstep : ∀ s, P s → (∃ r, round s = .done r ∧ Q r) ∨
      ∃ s', round s = .next s' ∧ P s' ∧ μ s' < μ s) (h : P s) :
    ∃ r, Ends round s r ∧ Q r := by
  induction hn : μ s using Nat.strongRecOn generalizing s with
  | ind n ih =>
    obtain ⟨r, hr, hq⟩ | ⟨s', hr, hs', hlt⟩ := hstep s h
    · exact ⟨r, ends_of_done hr, hq⟩
    · obtain ⟨r, he, hq⟩ := ih (μ s') (hn ▸ hlt) hs' rfl
      exact ⟨r, (ends_iff_of_next hr).2 he, hq⟩

end While

end Srsenb
