import Srsenb.Base.Pulses

/-! # Runs of ones between two zeros

A signal that is not of ones only is some ones, pulses, and at last zeros and ones. Its runs are the
ones of the pulses. -/

namespace Srsenb.Pulses

open Vec

/-- `n` ones from `start` on, with a zero before them and after them. -/
def Run (s : List Int) (start n : Nat) : Prop :=
  ∃ before after, s = before ++ 0 :: (List.replicate n 1 ++ 0 :: after) ∧ 0 < n ∧
    start = before.length + 2

/-- Where the ones of the pulses start, and how many there are. -/
def spans : Nat → List (Nat × Nat) → List (Nat × Nat)
  | _, [] => []
  | b, p :: ps => (b + p.1, p.2) :: spans (b + (p.1 + p.2)) ps

/-- `e` ones, pulses, and at last zeros and ones. -/
def signal (e : Nat) (ps : List (Nat × Nat)) (a c : Nat) : List Int :=
  List.replicate e 1 ++ (wave ps ++ (List.replicate (a + 1) 0 ++ List.replicate c 1))

variable {s : List Int} {start n b : Nat} {ps : List (Nat × Nat)}

theorem signal_cases (h : ∀ x ∈ s, x = 0 ∨ x = 1) :
    (∃ e, s = List.replicate e 1) ∨ ∃ e ps a c, Proper ps ∧ s = signal e ps a c := by
  rcases zeroOne_cases h with ⟨c, d, rfl⟩ | ⟨c, d, ps, a, b, hps, rfl⟩
  · cases c with
    | zero => exact Or.inl ⟨d, rfl⟩
    | succ c => exact Or.inr ⟨0, [], c, d, by simp [Proper], rfl⟩
  · cases c with
    | zero => exact Or.inr ⟨d + 1, ps, a, b, hps, by simp [signal]⟩
    | succ c =>
      refine Or.inr ⟨0, (c + 1, d + 1) :: ps, a, b, fun p hp => ?_, by simp [signal]⟩
      rcases List.mem_cons.1 hp with rfl | hp
      · exact ⟨Nat.succ_pos c, Nat.succ_pos d⟩
      · exact hps p hp

/-! ## What a run is, from the front of a signal -/

theorem run_cons (x : Int) (s : List Int) :
    Run (x :: s) start n ↔
      (x = 0 ∧ start = 2 ∧ 0 < n ∧ ∃ after, s = List.replicate n 1 ++ 0 :: after) ∨
        ∃ k, start = k + 1 ∧ Run s k n := by
  constructor
  · rintro ⟨before, after, heq, hn, rfl⟩
    cases before with
    | nil =>
      obtain ⟨hx, hs⟩ := List.cons.inj heq
      exact Or.inl ⟨hx, rfl, hn, after, hs⟩
    | cons y before =>
      obtain ⟨-, hs⟩ := List.cons.inj heq
      exact Or.inr ⟨before.length + 2, rfl, before, after, hs, hn, rfl⟩
  · rintro (⟨rfl, rfl, hn, after, rfl⟩ | ⟨k, rfl, before, after, rfl, hn, rfl⟩)
    · exact ⟨[], after, rfl, hn, rfl⟩
    · exact ⟨x :: before, after, rfl, hn, rfl⟩

theorem not_run_nil : ¬ Run [] start n := by
  rintro ⟨before, after, heq, -, -⟩
  simp at heq

theorem run_one_cons (s : List Int) :
    Run (1 :: s) start n ↔ ∃ k, start = k + 1 ∧ Run s k n := by
  rw [run_cons]
  simp

theorem run_ones (e : Nat) (s : List Int) :
    Run (List.replicate e 1 ++ s) start n ↔ ∃ k, start = e + k ∧ Run s k n := by
  induction e generalizing start with
  | zero => simp
  | succ e ih =>
    rw [List.replicate_succ, List.cons_append, run_one_cons]
    simp only [ih]
    constructor
    · rintro ⟨k, rfl, m, rfl, hm⟩
      exact ⟨m, by omega, hm⟩
    · rintro ⟨m, rfl, hm⟩
      exact ⟨e + m, by omega, m, rfl, hm⟩

theorem run_zero_zero (s : List Int) :
    Run (0 :: 0 :: s) start n ↔ ∃ k, start = k + 1 ∧ Run (0 :: s) k n := by
  rw [run_cons]
  constructor
  · rintro (⟨-, -, hn, after, heq⟩ | h)
    · obtain ⟨n, rfl⟩ := Nat.exists_eq_succ_of_ne_zero hn.ne'
      cases heq
    · exact h
  · exact Or.inr

theorem run_zeros (o : Nat) (s : List Int) :
    Run (List.replicate (o + 1) 0 ++ s) start n ↔ ∃ k, start = o + k ∧ Run (0 :: s) k n := by
  induction o generalizing start with
  | zero => simp
  | succ o ih =>
    rw [List.replicate_succ, List.replicate_succ, List.cons_append, List.cons_append,
      run_zero_zero, ← List.cons_append, ← List.replicate_succ]
    simp only [ih]
    constructor
    · rintro ⟨k, rfl, m, rfl, hm⟩
      exact ⟨m, by omega, hm⟩
    · rintro ⟨m, rfl, hm⟩
      exact ⟨o + m, by omega, m, rfl, hm⟩

theorem ones_zero_inj {m n : Nat} {s t : List Int}
    (h : List.replicate m (1 : Int) ++ 0 :: s = List.replicate n 1 ++ 0 :: t) : m = n := by
  induction m generalizing n with
  | zero =>
    cases n with
    | zero => rfl
    | succ n => cases h
  | succ m ih =>
    cases n with
    | zero => cases h
    | succ n => rw [ih (List.cons.inj h).2]

/-- A pulse that a zero follows is a run. -/
theorem run_pulse {o m : Nat} (hm : 0 < m) (s : List Int) :
    Run (List.replicate (o + 1) 0 ++ List.replicate m 1 ++ 0 :: s) start n ↔
      (start = o + 2 ∧ n = m) ∨ ∃ k, start = o + 1 + m + k ∧ Run (0 :: s) k n := by
  rw [List.append_assoc, run_zeros]
  constructor
  · rintro ⟨k, rfl, hk⟩
    rcases (run_cons 0 _).1 hk with ⟨-, rfl, -, after, heq⟩ | ⟨j, rfl, hj⟩
    · exact Or.inl ⟨rfl, (ones_zero_inj heq).symm⟩
    · obtain ⟨i, rfl, hi⟩ := (run_ones m _).1 hj
      exact Or.inr ⟨i, by omega, hi⟩
  · rintro (⟨rfl, rfl⟩ | ⟨k, rfl, hk⟩)
    · exact ⟨2, rfl, (run_cons 0 _).2 (Or.inl ⟨rfl, rfl, hm, s, rfl⟩)⟩
    · exact ⟨m + k + 1, by omega,
        (run_cons 0 _).2 (Or.inr ⟨m + k, rfl, (run_ones m _).2 ⟨k, rfl, hk⟩⟩)⟩

theorem not_run_ones (e : Nat) : ¬ Run (List.replicate e 1) start n := by
  intro h
  rw [← List.append_nil (List.replicate e 1), run_ones] at h
  obtain ⟨k, -, hk⟩ := h
  exact not_run_nil hk

theorem not_run_last (a c : Nat) :
    ¬ Run (List.replicate (a + 1) 0 ++ List.replicate c 1) start n := by
  rw [run_zeros]
  rintro ⟨k, -, hk⟩
  rcases (run_cons 0 _).1 hk with ⟨-, -, -, after, heq⟩ | ⟨m, -, hm⟩
  · have hmem : (0 : Int) ∈ List.replicate c 1 := heq ▸ by simp
    exact absurd (List.eq_of_mem_replicate hmem) (by decide)
  · exact not_run_ones c hm

/-! ## The runs of a signal -/

theorem lt_of_mem_spans (hps : Proper ps) {r : Nat × Nat} (h : r ∈ spans b ps) :
    b < r.1 := by
  induction ps generalizing b with
  | nil => cases h
  | cons p ps ih =>
    have hp := (hps p List.mem_cons_self).1
    rcases List.mem_cons.1 h with rfl | h
    · exact Nat.lt_add_of_pos_right hp
    · have := ih (fun q hq => hps q (List.mem_cons_of_mem _ hq)) h
      omega

theorem sorted_spans (hps : Proper ps) (b : Nat) :
    (spans b ps).Pairwise fun r r' => r.1 < r'.1 := by
  induction ps generalizing b with
  | nil => exact List.Pairwise.nil
  | cons p ps ih =>
    have hrest : Proper ps := fun q hq => hps q (List.mem_cons_of_mem _ hq)
    refine List.Pairwise.cons (fun r hr => ?_) (ih hrest _)
    have := lt_of_mem_spans hrest hr
    simp only
    omega

theorem length_spans (b : Nat) (ps : List (Nat × Nat)) : (spans b ps).length = ps.length := by
  induction ps generalizing b with
  | nil => rfl
  | cons p ps ih => rw [spans, List.length_cons, ih, List.length_cons]

theorem wave_zero_cons (hps : Proper ps) (a c : Nat) :
    ∃ rest, wave ps ++ (List.replicate (a + 1) 0 ++ List.replicate c 1) = 0 :: rest := by
  cases ps with
  | nil => exact ⟨List.replicate a 0 ++ List.replicate c 1, rfl⟩
  | cons p ps =>
    obtain ⟨o, m⟩ := p
    obtain ⟨o, rfl⟩ := Nat.exists_eq_succ_of_ne_zero (hps (o, m) List.mem_cons_self).1.ne'
    exact ⟨_, by rw [wave_cons, List.replicate_succ]; rfl⟩

theorem run_wave_iff (hps : Proper ps) (a c : Nat) (b : Nat) :
    (∃ k, start = b + k ∧
        Run (wave ps ++ (List.replicate (a + 1) 0 ++ List.replicate c 1)) k n) ↔
      (start, n) ∈ spans (b + 1) ps := by
  induction ps generalizing b with
  | nil =>
    simp only [wave_nil, List.nil_append, spans, List.not_mem_nil, iff_false]
    rintro ⟨k, -, hk⟩
    exact not_run_last a c hk
  | cons p ps ih =>
    obtain ⟨o, m⟩ := p
    obtain ⟨ho, hm⟩ := hps (o, m) List.mem_cons_self
    obtain ⟨o, rfl⟩ := Nat.exists_eq_succ_of_ne_zero ho.ne'
    have hrest : Proper ps := fun q hq => hps q (List.mem_cons_of_mem _ hq)
    obtain ⟨rest, heq⟩ := wave_zero_cons hrest a c
    have hih := ih hrest (b + (o + 1 + m))
    rw [wave_cons, List.append_assoc, heq, spans, List.mem_cons,
      show b + 1 + (o + 1 + m) = b + (o + 1 + m) + 1 by omega, ← hih, heq]
    constructor
    · rintro ⟨k, rfl, hk⟩
      rcases (run_pulse hm rest).1 hk with ⟨rfl, rfl⟩ | ⟨i, rfl, hi⟩
      · exact Or.inl (by simp only [Prod.mk.injEq, and_true]; omega)
      · exact Or.inr ⟨i, by omega, hi⟩
    · rintro (heq | ⟨i, rfl, hi⟩)
      · obtain ⟨rfl, rfl⟩ := Prod.mk.inj heq
        exact ⟨o + 2, by omega, (run_pulse hm rest).2 (Or.inl ⟨rfl, rfl⟩)⟩
      · exact ⟨o + 1 + m + i, by omega, (run_pulse hm rest).2 (Or.inr ⟨i, rfl, hi⟩)⟩

/-- The runs of a signal are the ones of its pulses. -/
theorem run_signal_iff (hps : Proper ps) (e a c : Nat) :
    Run (signal e ps a c) start n ↔ (start, n) ∈ spans (e + 1) ps := by
  rw [signal, run_ones, run_wave_iff hps]

/-! ## The edges of a signal -/

theorem rises_eq (b : Nat) (ps : List (Nat × Nat)) : rises b ps = (spans b ps).map Prod.fst := by
  induction ps generalizing b with
  | nil => rfl
  | cons p ps ih => rw [rises, spans, ih, List.map_cons]

/-- The falls after the first one are where the ones of the pulses end. -/
theorem falls_concat (b : Nat) (ps : List (Nat × Nat)) :
    falls b ps ++ [b + (wave ps).length] = b :: (spans b ps).map fun r => r.1 + r.2 := by
  induction ps generalizing b with
  | nil => rfl
  | cons p ps ih =>
    have hlen : b + (wave (p :: ps)).length = b + (p.1 + p.2) + (wave ps).length := by
      rw [wave_cons, List.length_append, List.length_append, List.length_replicate,
        List.length_replicate]
      omega
    rw [falls, List.cons_append, hlen, ih, spans, List.map_cons, Nat.add_assoc b]

theorem deltas_last (a c : Nat) :
    ∃ after, deltas 1 (List.replicate (a + 1) 0 ++ List.replicate c 1) = -1 :: after ∧
      (-1 : Int) ∉ after :=
  ⟨_, rfl, neg_one_notMem_deltas 0 (Or.inl rfl) a c (by simp)⟩

/-- The edges of pulses that follow a one, of which the first is at `b`. -/
theorem positions_deltas (hps : Proper ps) (a c b : Nat) :
    ∃ last,
      positionsFrom (-1) b
          (deltas 1 (wave ps ++ (List.replicate (a + 1) 0 ++ List.replicate c 1))) =
        b :: ((spans b ps).map fun r => r.1 + r.2) ∧
      positionsFrom 1 b
          (deltas 1 (wave ps ++ (List.replicate (a + 1) 0 ++ List.replicate c 1))) =
        (spans b ps).map Prod.fst ++ last ∧ ∀ x ∈ last, b < x := by
  obtain ⟨hdeltas, hlast⟩ := deltas_wave hps
  obtain ⟨after, hafter, hnone⟩ := deltas_last a c
  obtain ⟨hfalls, hrises⟩ := positionsFrom_waveDeltas hps b
  rw [deltas_append, hdeltas, hlast, hafter]
  refine ⟨positionsFrom 1 (b + (waveDeltas ps).length + 1) after, ?_, ?_, ?_⟩
  · rw [positionsFrom_append, hfalls, positionsFrom, if_pos rfl, positionsFrom_eq_nil hnone,
      length_waveDeltas hps, falls_concat]
  · rw [positionsFrom_append, hrises, positionsFrom, if_neg (by decide), rises_eq]
  · intro x hx
    have := (mem_positionsFrom hx).1
    omega

/-- The edges of a signal that starts with a zero: each pulse rises and falls. -/
theorem edges_of_zero (hps : Proper ps) (a c : Nat) :
    ∃ last,
      positions (-1) (steps (signal 0 ps a c)) = (spans 1 ps).map (fun r => r.1 + r.2) ∧
      positions 1 (steps (signal 0 ps a c)) = (spans 1 ps).map Prod.fst ++ last := by
  obtain ⟨last, hfalls, hrises, -⟩ := positions_deltas hps a c 1
  obtain ⟨rest, heq⟩ := wave_zero_cons hps a c
  rw [heq, deltas, positionsFrom, if_pos (by decide)] at hfalls
  rw [heq, deltas, positionsFrom, if_neg (by decide)] at hrises
  refine ⟨last, ?_⟩
  rw [signal, List.replicate_zero, List.nil_append, heq]
  exact ⟨(List.cons.inj hfalls).2, hrises⟩

theorem steps_ones (e : Nat) : steps (List.replicate (e + 1) 1) = List.replicate (e + 1) 0 := by
  rw [List.replicate_succ, List.replicate_succ, steps]
  cases e with
  | zero => rfl
  | succ e => rw [deltas_replicate, sub_self, List.replicate_succ]

/-- A signal that starts with ones falls first. -/
theorem edges_of_ones (hps : Proper ps) (e a c : Nat) :
    ∃ last,
      positions (-1) (steps (signal (e + 1) ps a c)) =
        (e + 2) :: (spans (e + 2) ps).map (fun r => r.1 + r.2) ∧
      positions 1 (steps (signal (e + 1) ps a c)) = (spans (e + 2) ps).map Prod.fst ++ last ∧
        ∀ x ∈ last, e + 2 < x := by
  obtain ⟨last, hfalls, hrises, hlast⟩ := positions_deltas hps a c (e + 2)
  have hne : List.replicate (e + 1) (1 : Int) ≠ [] := List.cons_ne_nil _ _
  have hend : (List.replicate (e + 1) (1 : Int)).getLastD 0 = 1 := by
    rw [List.getLastD_eq_getLast?, getLast?_replicate_succ]
  have hnone : ∀ x : Int, x ≠ 0 → positionsFrom x 1 (List.replicate (e + 1) 0) = [] :=
    fun x hx => positionsFrom_eq_nil fun h => hx (List.eq_of_mem_replicate h)
  refine ⟨last, ?_⟩
  unfold signal positions
  rw [steps_append hne, steps_ones, hend, positionsFrom_append, positionsFrom_append,
    hnone _ (by decide), hnone _ (by decide), List.nil_append, List.nil_append,
    List.length_replicate, show 1 + (e + 1) = e + 2 by omega]
  exact ⟨hfalls, hrises, hlast⟩

end Srsenb.Pulses
