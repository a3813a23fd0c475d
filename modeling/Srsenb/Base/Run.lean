import Mathlib.Data.List.Induction
import Mathlib.Tactic.Common
import Mathlib.Algebra.Order.Ring.Int
import Mathlib.Data.Set.Lattice
import Mathlib.Data.Fin.Basic

/-! # Runs of a state machine

A machine is a step function over events, and a run is the list of events it is given. A law
about every run is proved from what one step keeps. -/

namespace Srsenb.Run

variable {σ ε : Type*}

/-- The state after the events of `es`. -/
def exec (step : σ → ε → σ) (s : σ) (es : List ε) : σ := es.foldl step s

/-- `I` holds in each state of the run, the first and the last included. -/
def AllStates (step : σ → ε → σ) (I : σ → Prop) : σ → List ε → Prop
  | s, [] => I s
  | s, e :: es => I s ∧ AllStates step I (step s e) es

/-- `P` holds of each event of the run, in the state that receives it. -/
def AllSteps (step : σ → ε → σ) (P : σ → ε → Prop) : σ → List ε → Prop
  | _, [] => True
  | s, e :: es => P s e ∧ AllSteps step P (step s e) es

instance AllSteps.decidable (step : σ → ε → σ) {P : σ → ε → Prop} [∀ s e, Decidable (P s e)] :
    ∀ s es, Decidable (AllSteps step P s es)
  | _, [] => .isTrue trivial
  | s, e :: es =>
    have := AllSteps.decidable step (P := P) (step s e) es
    inferInstanceAs (Decidable (P s e ∧ AllSteps step P (step s e) es))

variable {step : σ → ε → σ} {I : σ → Prop} {P Q C : σ → ε → Prop}

@[simp] theorem exec_nil (s : σ) : exec step s [] = s := rfl

@[simp] theorem exec_cons (s : σ) (e : ε) (es : List ε) :
    exec step s (e :: es) = exec step (step s e) es := rfl

theorem exec_append (s : σ) (es fs : List ε) :
    exec step s (es ++ fs) = exec step (exec step s es) fs := by
  unfold exec
  rw [List.foldl_append]

theorem AllStates.first : ∀ {s : σ} {es : List ε}, AllStates step I s es → I s
  | _, [], h => h
  | _, _ :: _, h => h.1

/-- Every state of a run is the one some prefix of its events leads to. -/
theorem allStates_iff {s : σ} {es : List ε} :
    AllStates step I s es ↔ ∀ pre, pre <+: es → I (exec step s pre) := by
  induction es generalizing s with
  | nil => simp [AllStates]
  | cons e es ih =>
    rw [AllStates, ih]
    constructor
    · rintro ⟨h0, h⟩ pre hpre
      cases pre with
      | nil => exact h0
      | cons f pre =>
        obtain ⟨rfl, hrest⟩ := List.cons_prefix_cons.mp hpre
        exact h pre hrest
    · intro h
      exact ⟨h [] List.nil_prefix,
        fun pre hpre => h (e :: pre) (List.cons_prefix_cons.mpr ⟨rfl, hpre⟩)⟩

theorem AllStates.mono {J : σ → Prop} (h : ∀ s, I s → J s) :
    ∀ {s : σ} {es : List ε}, AllStates step I s es → AllStates step J s es
  | _, [], hI => h _ hI
  | _, _ :: _, hI => ⟨h _ hI.1, AllStates.mono h hI.2⟩

theorem allStates_and {J : σ → Prop} {s : σ} {es : List ε} :
    AllStates step (fun s => I s ∧ J s) s es ↔ AllStates step I s es ∧ AllStates step J s es := by
  induction es generalizing s with
  | nil => simp only [AllStates]
  | cons e es ih => simp only [AllStates, ih]; tauto

theorem allStates_snoc {s : σ} {es : List ε} {e : ε} :
    AllStates step I s (es ++ [e]) ↔ AllStates step I s es ∧ I (exec step s (es ++ [e])) := by
  induction es generalizing s with
  | nil => simp [AllStates]
  | cons f es ih => simp only [List.cons_append, AllStates, exec_cons, ih, and_assoc]

theorem AllStates.last {s : σ} {es : List ε} (h : AllStates step I s es) : I (exec step s es) :=
  allStates_iff.mp h es (List.prefix_refl es)

theorem AllSteps.trivial (s : σ) (es : List ε) : AllSteps step (fun _ _ => True) s es := by
  induction es generalizing s with
  | nil => exact True.intro
  | cons e es ih => exact ⟨True.intro, ih _⟩

theorem allSteps_append {s : σ} {es fs : List ε} : AllSteps step P s (es ++ fs) ↔
    AllSteps step P s es ∧ AllSteps step P (exec step s es) fs := by
  induction es generalizing s with
  | nil => simp [AllSteps]
  | cons e es ih => simp only [List.cons_append, AllSteps, exec_cons, ih, and_assoc]

theorem AllSteps.and {s : σ} {es : List ε} (hp : AllSteps step P s es)
    (hq : AllSteps step Q s es) : AllSteps step (fun s e => P s e ∧ Q s e) s es := by
  induction es generalizing s with
  | nil => exact True.intro
  | cons e es ih => exact ⟨⟨hp.1, hq.1⟩, ih hp.2 hq.2⟩

/-- Each event of a run comes in the state some prefix leads to. -/
theorem allSteps_iff_split {s : σ} {es : List ε} : AllSteps step P s es ↔
    ∀ pre e post, es = pre ++ e :: post → P (exec step s pre) e := by
  induction es generalizing s with
  | nil => simp [AllSteps]
  | cons f es ih =>
    rw [AllSteps, ih]
    constructor
    · rintro ⟨hf, h⟩ pre e post heq
      cases pre with
      | nil =>
        obtain ⟨rfl, -⟩ := List.cons.inj heq
        exact hf
      | cons g pre =>
        obtain ⟨rfl, hrest⟩ := List.cons.inj heq
        exact h pre e post hrest
    · intro h
      exact ⟨h [] f es rfl,
        fun pre e post heq => h (f :: pre) e post (by rw [heq, List.cons_append])⟩

/-! ## Rules -/

/-- What holds at the start and is kept by each allowed step holds in each state. -/
theorem allStates_of_allSteps (hstep : ∀ s e, I s → C s e → I (step s e)) :
    ∀ {s : σ} {es : List ε}, I s → AllSteps step C s es → AllStates step I s es
  | _, [], h, _ => h
  | _, _ :: _, h, hc => ⟨h, allStates_of_allSteps hstep (hstep _ _ h hc.1) hc.2⟩

/-- A law about steps that an invariant implies. -/
theorem allSteps_of_allSteps (hstep : ∀ s e, I s → C s e → I (step s e))
    (hq : ∀ s e, I s → C s e → Q s e) :
    ∀ {s : σ} {es : List ε}, I s → AllSteps step C s es → AllSteps step Q s es
  | _, [], _, _ => trivial
  | _, _ :: _, h, hc => ⟨hq _ _ h hc.1, allSteps_of_allSteps hstep hq (hstep _ _ h hc.1) hc.2⟩

/-- What holds after a run and not before it was raised by one of the events, and holds in each
state since. -/
theorem exists_raise {s : σ} (h0 : ¬ I s) (es : List ε) (h : I (exec step s es)) :
    ∃ pre e post, es = pre ++ e :: post ∧ ¬ I (exec step s pre) ∧
      AllStates step I (step (exec step s pre) e) post := by
  induction es using List.reverseRecOn with
  | nil => exact absurd h h0
  | append_singleton es e ih =>
    by_cases hes : I (exec step s es)
    · -- It was raised before: the last event extends the part since.
      obtain ⟨pre, f, post, rfl, hpre, hpost⟩ := ih hes
      refine ⟨pre, f, post ++ [e], by simp, hpre, allStates_snoc.mpr ⟨hpost, ?_⟩⟩
      simpa [exec_append] using h
    · refine ⟨es, e, [], rfl, hes, ?_⟩
      simpa [exec_append, AllStates] using h

/-- The exact condition under which a run keeps `I` and each of its steps meets `Q`. The helper
invariant `J` may look at the events still to come. A step that meets `C` keeps all three, and a
step that does not loses `Q` or `I` on the spot. -/
theorem allSteps_iff (J : List ε → σ → Prop)
    (hok : ∀ s e es, J (e :: es) s → I s → C s e → Q s e ∧ I (step s e) ∧ J es (step s e))
    (hbad : ∀ s e es, J (e :: es) s → I s → ¬ C s e → Q s e → ¬ I (step s e)) :
    ∀ {s : σ} {es : List ε}, J es s → I s →
      (AllSteps step C s es ↔ AllSteps step Q s es ∧ AllStates step I s es) := by
  intro s es
  induction es generalizing s with
  | nil => intro _ hI; simp [AllSteps, AllStates, hI]
  | cons e es ih =>
    intro hJ hI
    by_cases hC : C s e
    · obtain ⟨hq, hI', hJ'⟩ := hok s e es hJ hI hC
      simp only [AllSteps, AllStates, hC, hq, hI, true_and, ih hJ' hI']
    · constructor
      · exact fun h => absurd h.1 hC
      · rintro ⟨⟨hq, -⟩, -, hst⟩
        exact absurd hst.first (hbad s e es hJ hI hC hq)

/-! ## Infinite runs -/

/-- The states of the run in which event `ev n` comes `n`-th. -/
def trace (step : σ → ε → σ) (s : σ) (ev : Nat → ε) : Nat → σ
  | 0 => s
  | n + 1 => step (trace step s ev n) (ev n)

theorem trace_invariant {s : σ} {ev : Nat → ε} (hstep : ∀ s e, I s → C s e → I (step s e))
    (h0 : I s) (hC : ∀ n, C (trace step s ev n) (ev n)) : ∀ n, I (trace step s ev n)
  | 0 => h0
  | n + 1 => hstep _ _ (trace_invariant hstep h0 hC n) (hC n)

/-- What is reached under fairness. In each state with `I` a step of `who s` would help, and one
comes sooner or later; it lowers the rank, and no other event raises it or changes who helps. -/
theorem eventually_of_rank {κ : Type*} {G : σ → Prop} {s : σ} {ev : Nat → ε} (rank : σ → Nat)
    (who : σ → κ) (Acts : κ → σ → ε → Prop)
    (hstep : ∀ s e, I s → C s e → G (step s e) ∨ I (step s e) ∧ (rank (step s e) < rank s ∨
      ¬ Acts (who s) s e ∧ rank (step s e) = rank s ∧ who (step s e) = who s))
    (hC : ∀ n, C (trace step s ev n) (ev n))
    (hfair : ∀ n, I (trace step s ev n) →
      ∃ m ≥ n, Acts (who (trace step s ev n)) (trace step s ev m) (ev m)) :
    ∀ n, I (trace step s ev n) → ∃ m, G (trace step s ev m) := by
  intro n hn
  obtain ⟨r, hr⟩ : ∃ r, rank (trace step s ev n) = r := ⟨_, rfl⟩
  induction r using Nat.strongRecOn generalizing n with
  | ind r ih =>
    obtain ⟨m, hm, hact⟩ := hfair n hn
    -- Up to `m` the goal is reached, or the rank falls, or nothing that counts has changed.
    have hwait : ∀ d, (∃ j, G (trace step s ev j)) ∨
        I (trace step s ev (n + d)) ∧ rank (trace step s ev (n + d)) = r ∧
          who (trace step s ev (n + d)) = who (trace step s ev n) := by
      intro d
      induction d with
      | zero => exact Or.inr ⟨hn, hr, rfl⟩
      | succ d ihd =>
        rcases ihd with hG | ⟨hI, hrank, hwho⟩
        · exact Or.inl hG
        · rcases hstep _ _ hI (hC (n + d)) with hG | ⟨hI', hless | ⟨-, hsame, hwho'⟩⟩
          · exact Or.inl ⟨n + d + 1, hG⟩
          · exact Or.inl (ih _ (hrank ▸ hless) (n + d + 1) hI' rfl)
          · exact Or.inr ⟨hI', hsame.trans hrank, hwho'.trans hwho⟩
    rcases hwait (m - n) with hG | ⟨hI, hrank, hwho⟩
    · exact hG
    · rw [Nat.add_sub_cancel' hm] at hI hrank hwho
      rcases hstep _ _ hI (hC m) with hG | ⟨hI', hless | ⟨hidle, -, -⟩⟩
      · exact ⟨m + 1, hG⟩
      · exact ih _ (hrank ▸ hless) (m + 1) hI' rfl
      · rw [hwho] at hidle
        exact absurd hact hidle

end Srsenb.Run
