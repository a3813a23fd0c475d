import Srsenb.Base.While
import Srsenb.Trace.Strangeness

/-! # Change detection over an hour (`segment.m`)

The two loops are one, with the place that they are at. -/

namespace Srsenb.Trace

/-- The strangeness of each pair of indices, the draws of `rand` in their order, and what becomes
of `M`. -/
structure Oracle (α β μ : Type) where
  strangeness : Nat → Nat → α
  theta : Nat → β
  one : μ
  /-- `M*epsilon*p^(epsilon-1)`, with `p` from `ss`, `s`, `theta` and `T_idx2-T_idx1+1` -/
  update : μ → List α → α → β → Nat → μ
  /-- `M > lambda` -/
  exceeds : μ → Bool

/-- The start of the outer loop's body, that of the inner one's, and the end of the outer one's. -/
inductive LoopPlace
  | outer
  | inner
  | check
  deriving DecidableEq

/-- `p` is computed at `T_idx1` and `T_idx2`, with so many elements in `ss`. -/
structure Computed where
  t1 : Nat
  t2 : Nat
  length : Nat

structure SegState (α μ : Type) where
  place : LoopPlace := .outer
  t1 : Nat := 1
  t2 : Nat := 1
  m : μ
  ss : List α := []
  segments : List Nat := []
  computed : List Computed := []

/-- `nof_points` -/
def nofPoints (hourLength : Nat) : Int := hourLength - theH

section Loops

variable {α β μ : Type} (o : Oracle α β μ) (hourLength : Nat)

/-- The body of the inner loop that computes `p`. -/
def extend (s : SegState α μ) : SegState α μ :=
  let v := o.strangeness s.t1 s.t2
  let ss := s.ss ++ [v]
  let m := o.update s.m ss v (o.theta s.computed.length) (s.t2 - s.t1 + 1)
  let s := { s with ss := ss, m := m, computed := s.computed ++ [Computed.mk s.t1 s.t2 ss.length] }
  if o.exceeds m then
    { s with
      segments := s.segments ++ [s.t2], t2 := s.t2 + 1, t1 := s.t2 + 1, place := .check }
  else { s with t2 := s.t2 + 1 }

/-- From one place to the next. -/
def segRound (s : SegState α μ) : Exit (SegState α μ) (SegState α μ) :=
  match s.place with
  | .outer => .next { s with m := o.one, ss := [], place := .inner }
  | .inner =>
    if s.t2 > nofPoints hourLength then .next { s with place := .check }
    else .next (extend o s)
  | .check =>
    if s.t2 > nofPoints hourLength then .done s
    else .next { s with place := .outer }

/-- `segments{h}` and the rest of the state, once the loops end. -/
def Segmented (s : SegState α μ) : Prop := While.Ends (segRound o hourLength) { m := o.one } s

end Loops

/-! ## What each round keeps -/

section Invariant

variable {α β μ : Type} {o : Oracle α β μ} {hourLength : Nat}

/-- `p` has as many elements as indices, all of them inside of the hour. -/
structure Computed.Inside (hourLength : Nat) (c : Computed) : Prop where
  pos : 1 ≤ c.t1
  le : c.t1 ≤ c.t2
  length : c.length = c.t2 - c.t1 + 1
  inside : c.t2 + theH ≤ hourLength

structure SegInv (hourLength : Nat) (s : SegState α μ) : Prop where
  pos : 1 ≤ s.t1
  le : s.t1 ≤ s.t2
  length : s.place = .inner → s.ss.length = s.t2 - s.t1
  restart : s.place = .outer ∨ s.place = .check ∧ s.t2 ≤ nofPoints hourLength → s.t1 = s.t2
  sorted : s.segments.Pairwise (· < ·)
  segments : ∀ b ∈ s.segments, 1 ≤ b ∧ b < s.t1 ∧ b ≤ nofPoints hourLength
  computed : ∀ c ∈ s.computed, c.Inside hourLength

/-- The rounds that are left: three at most for each index, and what the place adds. -/
def roundsLeft (hourLength : Nat) (s : SegState α μ) : Nat :=
  3 * (nofPoints hourLength + 1 - s.t2).toNat +
    if s.t2 > nofPoints hourLength then
      match s.place with | .outer => 2 | .inner => 1 | .check => 0
    else match s.place with | .check => 2 | .outer => 1 | .inner => 0

theorem SegInv.computed_append {s : SegState α μ} (h : SegInv hourLength s)
    (hplace : s.place = .inner) (hin : s.t2 ≤ nofPoints hourLength) (v : α) :
    ∀ c ∈ s.computed ++ [Computed.mk s.t1 s.t2 (s.ss ++ [v]).length], c.Inside hourLength := by
  intro c hc
  rcases List.mem_append.1 hc with hc | hc
  · exact h.computed c hc
  · obtain rfl := List.mem_singleton.1 hc
    refine ⟨h.pos, h.le, ?_, ?_⟩
    · rw [List.length_append, h.length hplace]
      rfl
    · unfold nofPoints at hin
      simp only
      omega

theorem SegInv.extend {s : SegState α μ} (h : SegInv hourLength s) (hplace : s.place = .inner)
    (hin : s.t2 ≤ nofPoints hourLength) : SegInv hourLength (extend o s) := by
  have hle := h.le
  have hpos := h.pos
  have hcomputed := h.computed_append hplace hin (o.strangeness s.t1 s.t2)
  unfold Trace.extend
  simp only
  split_ifs with hcut
  · refine ⟨by simp, Nat.le_refl _, by simp, fun _ => rfl, ?_, ?_, hcomputed⟩
    · rw [List.pairwise_append]
      refine ⟨h.sorted, List.pairwise_singleton _ _, ?_⟩
      intro b hb b' hb'
      obtain rfl := List.mem_singleton.1 hb'
      exact Nat.lt_of_lt_of_le (h.segments b hb).2.1 hle
    · intro b hb
      rcases List.mem_append.1 hb with hb | hb
      · obtain ⟨h1, h2, h3⟩ := h.segments b hb
        exact ⟨h1, by simp only; omega, h3⟩
      · obtain rfl := List.mem_singleton.1 hb
        exact ⟨by omega, Nat.lt_succ_self _, hin⟩
  · refine ⟨hpos, by simp only; omega, ?_, ?_, h.sorted, h.segments, hcomputed⟩
    · intro _
      simp only [List.length_append, List.length_singleton, h.length hplace]
      omega
    · simp [hplace]

theorem roundsLeft_le (hourLength : Nat) (s : SegState α μ) :
    roundsLeft hourLength s ≤ 3 * (nofPoints hourLength + 1 - s.t2).toNat + 2 := by
  unfold roundsLeft
  cases s.place <;> simp only <;> split_ifs <;> omega

theorem roundsLeft_extend {s : SegState α μ} (hplace : s.place = .inner)
    (hin : s.t2 ≤ nofPoints hourLength) :
    roundsLeft hourLength (Trace.extend o s) < roundsLeft hourLength s := by
  have ht2 : (Trace.extend o s).t2 = s.t2 + 1 := by
    unfold Trace.extend
    simp only
    split_ifs <;> rfl
  have hle := roundsLeft_le hourLength (Trace.extend o s)
  have hs : roundsLeft hourLength s = 3 * (nofPoints hourLength + 1 - s.t2).toNat := by
    unfold roundsLeft
    rw [if_neg (by omega), hplace, Nat.add_zero]
  rw [ht2] at hle
  omega

theorem SegInv.next {s s' : SegState α μ} (h : SegInv hourLength s)
    (hr : segRound o hourLength s = .next s') :
    SegInv hourLength s' ∧ roundsLeft hourLength s' < roundsLeft hourLength s := by
  unfold segRound at hr
  cases hplace : s.place with
  | outer =>
    rw [hplace] at hr
    obtain rfl := Exit.next.inj hr
    have heq := h.restart (Or.inl hplace)
    refine ⟨⟨h.pos, h.le, ?_, by simp, h.sorted, h.segments, h.computed⟩, ?_⟩
    · simp [heq]
    · unfold roundsLeft
      rw [hplace]
      split_ifs <;> simp
  | inner =>
    rw [hplace] at hr
    simp only at hr
    split_ifs at hr with hend
    · obtain rfl := Exit.next.inj hr
      refine ⟨⟨h.pos, h.le, by simp, ?_, h.sorted, h.segments, h.computed⟩, ?_⟩
      · simp only [reduceCtorEq, false_or, true_and]
        omega
      · unfold roundsLeft
        rw [hplace]
        simp [hend]
    · obtain rfl := Exit.next.inj hr
      exact ⟨h.extend hplace (by omega), roundsLeft_extend hplace (by omega)⟩
  | check =>
    rw [hplace] at hr
    simp only at hr
    split_ifs at hr with hend
    obtain rfl := Exit.next.inj hr
    have heq := h.restart (Or.inr ⟨hplace, by omega⟩)
    refine ⟨⟨h.pos, h.le, by simp, fun _ => heq, h.sorted, h.segments, h.computed⟩, ?_⟩
    unfold roundsLeft
    rw [hplace]
    simp [hend]

theorem segRound_of_done {s r : SegState α μ} (hr : segRound o hourLength s = .done r) : s = r := by
  unfold segRound at hr
  split at hr
  · cases hr
  · split_ifs at hr
  · split_ifs at hr
    exact Exit.done.inj hr

theorem segRound_ne_fail (s : SegState α μ) : segRound o hourLength s ≠ .fail := by
  unfold segRound
  split
  · simp
  · split_ifs <;> simp
  · split_ifs <;> simp

theorem segInv_start : SegInv hourLength ({ m := o.one } : SegState α μ) where
  pos := Nat.le_refl 1
  le := Nat.le_refl 1
  length := by simp
  restart := by simp
  sorted := List.Pairwise.nil
  segments := by simp
  computed := by simp

/-- The loops end, for any values and tests: the boundaries increase and are inside of
`nof_points`, and each call of `strangeness` finds its samples in the hour. -/
theorem segmented (o : Oracle α β μ) (hourLength : Nat) : ∃ s, Segmented o hourLength s ∧
    s.segments.Pairwise (· < ·) ∧ (∀ b ∈ s.segments, 1 ≤ b ∧ b ≤ nofPoints hourLength) ∧
    ∀ c ∈ s.computed, c.Inside hourLength ∧
      ∀ (δ ρ : Type) [LinearOrder δ] [Zero δ] (a : Arith δ ρ) (data : List Sample),
        data.length = hourLength → (strangeness a data c.t1 c.t2).isSome = true := by
  have hstep : ∀ s : SegState α μ, SegInv hourLength s →
      (∃ r, segRound o hourLength s = .done r ∧ SegInv hourLength r) ∨
      ∃ s', segRound o hourLength s = .next s' ∧ SegInv hourLength s' ∧
        roundsLeft hourLength s' < roundsLeft hourLength s := by
    intro s hs
    cases hr : segRound o hourLength s with
    | next s' => exact Or.inr ⟨s', rfl, hs.next hr⟩
    | done r => exact Or.inl ⟨r, rfl, segRound_of_done hr ▸ hs⟩
    | fail => exact absurd hr (segRound_ne_fail s)
  obtain ⟨s, hends, hinv⟩ := While.ends_of_measure _ _ hstep segInv_start
  refine ⟨s, hends, hinv.sorted, fun b hb => ⟨(hinv.segments b hb).1, (hinv.segments b hb).2.2⟩, ?_⟩
  intro c hc
  have hcall := hinv.computed c hc
  refine ⟨hcall, ?_⟩
  rintro δ ρ _ _ a data rfl
  exact strangeness_isSome a hcall.pos hcall.le hcall.inside

end Invariant

end Srsenb.Trace
