import Mathlib.Data.List.Induction
import Mathlib.Tactic.Common
import Mathlib.Algebra.Order.Ring.Int
import Mathlib.Data.Set.Lattice
import Mathlib.Data.Fin.Basic

/-! # Vectors of a numeric script, and 0/1 signals

Positions count from 1. A signal of zeros and ones is a row of pulses: some zeros, then some ones.
Its differences are -1 where a pulse starts and 1 where its ones do. -/

namespace Srsenb

namespace Vec

variable {α : Type*} [DecidableEq α]

/-- The positions of a value in a vector whose first element has position `b`. -/
def positionsFrom (x : α) : Nat → List α → List Nat
  | _, [] => []
  | b, y :: ys => if y = x then b :: positionsFrom x (b + 1) ys else positionsFrom x (b + 1) ys

/-- `find(v==x)` -/
def positions (x : α) (v : List α) : List Nat := positionsFrom x 1 v

/-- The difference of two vectors. A vector of one element is taken for each element of the
other. -/
def minus (u v : List Int) : Option (List Int) :=
  if u.length = v.length then some (List.zipWith (· - ·) u v)
  else if u.length = 1 then some (v.map fun y => u.headD 0 - y)
  else if v.length = 1 then some (u.map fun x => x - v.headD 0)
  else none

theorem minus_of_length {u v : List Int} (h : u.length = v.length) :
    minus u v = some (List.zipWith (· - ·) u v) := by
  unfold minus
  rw [if_pos h]

theorem positionsFrom_append (x : α) (b : Nat) (u v : List α) :
    positionsFrom x b (u ++ v) = positionsFrom x b u ++ positionsFrom x (b + u.length) v := by
  induction u generalizing b with
  | nil => rfl
  | cons y u ih =>
    simp only [List.cons_append, positionsFrom, ih, List.length_cons, Nat.add_assoc, Nat.add_comm 1]
    split_ifs <;> rfl

theorem positionsFrom_eq_nil {x : α} {b : Nat} {v : List α} (h : x ∉ v) :
    positionsFrom x b v = [] := by
  induction v generalizing b with
  | nil => rfl
  | cons y v ih =>
    rw [List.mem_cons, not_or] at h
    rw [positionsFrom, if_neg (Ne.symm h.1), ih h.2]

/-- A value is found first after elements that differ from it. -/
theorem head?_positionsFrom_iff {x : α} {b k : Nat} {v : List α} :
    (positionsFrom x b v).head? = some k ↔
      ∃ before after, v = before ++ x :: after ∧ x ∉ before ∧ k = b + before.length := by
  constructor
  · intro h
    induction v generalizing b with
    | nil => cases h
    | cons y v ih =>
      rw [positionsFrom] at h
      by_cases hy : y = x
      · rw [if_pos hy] at h
        exact ⟨[], v, by rw [hy]; rfl, List.not_mem_nil, (Option.some.inj h).symm⟩
      · rw [if_neg hy] at h
        obtain ⟨before, after, rfl, hx, rfl⟩ := ih h
        refine ⟨y :: before, after, rfl, ?_, by rw [List.length_cons]; omega⟩
        exact List.not_mem_cons_of_ne_of_not_mem (fun he => hy he.symm) hx
  · rintro ⟨before, after, rfl, hx, rfl⟩
    rw [positionsFrom_append, positionsFrom_eq_nil hx, positionsFrom, if_pos rfl]
    rfl

theorem mem_positionsFrom {x : α} {b k : Nat} {v : List α} (h : k ∈ positionsFrom x b v) :
    b ≤ k ∧ k < b + v.length := by
  induction v generalizing b with
  | nil => cases h
  | cons y v ih =>
    rw [List.length_cons]
    rw [positionsFrom] at h
    split_ifs at h
    · rcases List.mem_cons.1 h with rfl | h
      · omega
      · have := ih h
        omega
    · have := ih h
      omega

theorem length_positionsFrom (x : α) (b : Nat) (v : List α) :
    (positionsFrom x b v).length = v.count x := by
  induction v generalizing b with
  | nil => rfl
  | cons y v ih =>
    rw [positionsFrom, List.count_cons]
    by_cases hy : y = x
    · rw [if_pos hy, if_pos (by simpa using hy), List.length_cons, ih]
    · rw [if_neg hy, if_neg (by simpa using hy), ih, Nat.add_zero]

end Vec

namespace Pulses

open Vec

/-- Each element minus the one before; `p` comes before the first. -/
def deltas : Int → List Int → List Int
  | _, [] => []
  | p, x :: xs => (x - p) :: deltas x xs

/-- Pulses of `o` zeros and `n` ones. -/
def wave (ps : List (Nat × Nat)) : List Int :=
  ps.flatMap fun p => List.replicate p.1 0 ++ List.replicate p.2 1

/-- No pulse lacks its zeros or its ones. -/
def Proper (ps : List (Nat × Nat)) : Prop := ∀ p ∈ ps, 0 < p.1 ∧ 0 < p.2

/-- The differences of pulses that follow a one. -/
def waveDeltas (ps : List (Nat × Nat)) : List Int :=
  ps.flatMap fun p => -1 :: List.replicate (p.1 - 1) 0 ++ 1 :: List.replicate (p.2 - 1) 0

/-- The positions at which the pulses start, the first at `b`. -/
def falls : Nat → List (Nat × Nat) → List Nat
  | _, [] => []
  | b, p :: ps => b :: falls (b + (p.1 + p.2)) ps

/-- The positions at which their ones start. -/
def rises : Nat → List (Nat × Nat) → List Nat
  | _, [] => []
  | b, p :: ps => (b + p.1) :: rises (b + (p.1 + p.2)) ps

variable {p q : Int} {b c : Nat} {l m : List Int} {ps : List (Nat × Nat)}

@[simp] theorem wave_nil : wave [] = [] := rfl

@[simp] theorem wave_cons (p : Nat × Nat) (ps : List (Nat × Nat)) :
    wave (p :: ps) = List.replicate p.1 0 ++ List.replicate p.2 1 ++ wave ps := rfl

theorem wave_append (ps qs : List (Nat × Nat)) : wave (ps ++ qs) = wave ps ++ wave qs :=
  List.flatMap_append

/-! ## Differences -/

theorem deltas_append (l m : List Int) :
    deltas p (l ++ m) = deltas p l ++ deltas (l.getLast?.getD p) m := by
  induction l generalizing p with
  | nil => rfl
  | cons x l ih =>
    rw [List.cons_append, deltas, ih, deltas, List.cons_append, List.getLast?_cons]
    rfl

@[simp] theorem length_deltas (l : List Int) : (deltas p l).length = l.length := by
  induction l generalizing p with
  | nil => rfl
  | cons x l ih => rw [deltas, List.length_cons, ih, List.length_cons]

theorem deltas_replicate (x : Int) (k : Nat) :
    deltas p (List.replicate (k + 1) x) = (x - p) :: List.replicate k 0 := by
  induction k generalizing p with
  | zero => rfl
  | succ k ih =>
    rw [List.replicate_succ, deltas, ih, sub_self]
    rfl

theorem getLast?_replicate_succ (x : Int) (k : Nat) :
    (List.replicate (k + 1) x).getLast?.getD p = x := by
  rw [List.getLast?_replicate, if_neg (Nat.succ_ne_zero k)]
  rfl

/-- Ones, and differences in place of pulses. -/
theorem deltas_wave (hps : Proper ps) :
    deltas 1 (wave ps) = waveDeltas ps ∧ (wave ps).getLast?.getD 1 = 1 := by
  induction ps with
  | nil => exact ⟨rfl, rfl⟩
  | cons p ps ih =>
    obtain ⟨o, n⟩ := p
    obtain ⟨hdeltas, hlast⟩ := ih fun q hq => hps q (List.mem_cons_of_mem _ hq)
    obtain ⟨ho, hn⟩ := hps (o, n) List.mem_cons_self
    obtain ⟨o, rfl⟩ := Nat.exists_eq_succ_of_ne_zero ho.ne'
    obtain ⟨n, rfl⟩ := Nat.exists_eq_succ_of_ne_zero hn.ne'
    have hones : (List.replicate (o + 1) (0 : Int) ++ List.replicate (n + 1) 1).getLast?.getD 1
        = 1 := by
      rw [List.getLast?_append, List.getLast?_replicate, if_neg (Nat.succ_ne_zero n)]
      rfl
    rw [wave_cons]
    constructor
    · rw [deltas_append, deltas_append, hones, hdeltas, deltas_replicate, getLast?_replicate_succ,
        deltas_replicate]
      simp [waveDeltas]
    · rw [List.getLast?_append]
      cases hw : (wave ps).getLast? with
      | none => simpa using hones
      | some x =>
        rw [hw] at hlast
        simpa using hlast

theorem length_waveDeltas (hps : Proper ps) : (waveDeltas ps).length = (wave ps).length := by
  rw [← (deltas_wave hps).1, length_deltas]

/-! ## Positions -/

theorem positionsFrom_waveDeltas (hps : Proper ps) (b : Nat) :
    positionsFrom (-1) b (waveDeltas ps) = falls b ps ∧
      positionsFrom 1 b (waveDeltas ps) = rises b ps := by
  induction ps generalizing b with
  | nil => exact ⟨rfl, rfl⟩
  | cons p ps ih =>
    obtain ⟨o, n⟩ := p
    obtain ⟨ho, hn⟩ := hps (o, n) List.mem_cons_self
    obtain ⟨hfalls, hrises⟩ := ih (fun q hq => hps q (List.mem_cons_of_mem _ hq)) (b + (o + n))
    have hnone : ∀ (x : Int) (b k : Nat), x ≠ 0 → positionsFrom x b (List.replicate k 0) = [] :=
      fun x b k hx => positionsFrom_eq_nil fun h => hx (List.eq_of_mem_replicate h)
    have hwave : waveDeltas ((o, n) :: ps) =
        (-1 :: List.replicate (o - 1) 0) ++ (1 :: List.replicate (n - 1) 0) ++ waveDeltas ps := rfl
    have hb : b + (o - 1 + 1) = b + o := by omega
    have hb' : b + (o - 1 + 1 + (n - 1 + 1)) = b + (o + n) := by omega
    rw [hwave]
    simp only [positionsFrom_append, List.length_append, List.length_cons, List.length_replicate,
      hb, hb', hfalls, hrises]
    constructor
    · rw [positionsFrom, if_pos rfl, positionsFrom, if_neg (by decide), hnone _ _ _ (by decide),
        hnone _ _ _ (by decide)]
      rfl
    · rw [positionsFrom, if_neg (by decide), positionsFrom, if_pos rfl, hnone _ _ _ (by decide),
        hnone _ _ _ (by decide)]
      rfl

theorem length_falls (b : Nat) (ps : List (Nat × Nat)) : (falls b ps).length = ps.length := by
  induction ps generalizing b with
  | nil => rfl
  | cons p ps ih => rw [falls, List.length_cons, ih, List.length_cons]

theorem length_rises (b : Nat) (ps : List (Nat × Nat)) : (rises b ps).length = ps.length := by
  induction ps generalizing b with
  | nil => rfl
  | cons p ps ih => rw [rises, List.length_cons, ih, List.length_cons]

/-- The zeros of the pulses. -/
theorem rises_minus_falls (b : Nat) (ps : List (Nat × Nat)) :
    List.zipWith (· - ·) ((rises b ps).map (Nat.cast : Nat → Int))
      ((falls b ps).map (Nat.cast : Nat → Int)) = ps.map fun p => (p.1 : Int) := by
  induction ps generalizing b with
  | nil => rfl
  | cons p ps ih =>
    simp only [rises, falls, List.map_cons, List.zipWith_cons_cons, ih]
    congr 1
    push_cast
    omega

/-- The lengths of the pulses: to the next one, and of the last one to the end. -/
theorem falls_minus_falls (b : Nat) (p : Nat × Nat) (ps : List (Nat × Nat)) :
    List.zipWith (· - ·) ((falls b (p :: ps)).tail.map (Nat.cast : Nat → Int))
        ((falls b (p :: ps)).dropLast.map (Nat.cast : Nat → Int)) ++
      [((b + (wave (p :: ps)).length : Nat) : Int) - (falls b (p :: ps)).getLastD 0] =
      (p :: ps).map fun p => (p.1 : Int) + p.2 := by
  induction ps generalizing b p with
  | nil =>
    simp [falls]
  | cons q ps ih =>
    have h := ih (b + (p.1 + p.2)) q
    have hlen : b + (wave (p :: q :: ps)).length =
        b + (p.1 + p.2) + (wave (q :: ps)).length := by
      rw [wave_cons, List.length_append, List.length_append, List.length_replicate,
        List.length_replicate]
      omega
    rw [hlen, List.map_cons, ← h]
    simp only [falls, List.tail_cons, List.dropLast_cons_cons, List.map_cons,
      List.zipWith_cons_cons,
      List.cons_append, List.getLastD_cons]
    congr 1
    push_cast
    omega

/-! ## Signals of zeros and ones -/

/-- A signal never falls, or it falls once for each pulse and once more at the end of the last. -/
theorem zeroOne_cases {s : List Int} (h : ∀ x ∈ s, x = 0 ∨ x = 1) :
    (∃ c d, s = List.replicate c 0 ++ List.replicate d 1) ∨
    ∃ c d ps a b, Proper ps ∧ s = List.replicate c 0 ++ List.replicate (d + 1) 1 ++ wave ps ++
      (List.replicate (a + 1) 0 ++ List.replicate b 1) := by
  induction s using List.reverseRecOn with
  | nil => exact Or.inl ⟨0, 0, rfl⟩
  | append_singleton s x ih =>
    have hx := h x (by simp)
    rcases ih fun y hy => h y (List.mem_append_left _ hy) with
      ⟨c, d, rfl⟩ | ⟨c, d, ps, a, b, hps, rfl⟩
    · rcases hx with rfl | rfl
      · cases d with
        | zero => exact Or.inl ⟨c + 1, 0, by simp [List.replicate_succ']⟩
        | succ d => exact Or.inr ⟨c, d, [], 0, 0, by simp [Proper], by simp⟩
      · exact Or.inl ⟨c, d + 1, by simp [List.replicate_succ']⟩
    · rcases hx with rfl | rfl
      · cases b with
        | zero =>
          exact Or.inr ⟨c, d, ps, a + 1, 0, hps, by simp [List.replicate_succ' (n := a + 1)]⟩
        | succ b =>
          refine Or.inr ⟨c, d, ps ++ [(a + 1, b + 1)], 0, 0, fun p hp => ?_, ?_⟩
          · rcases List.mem_append.mp hp with hp | hp
            · exact hps p hp
            · rw [List.mem_singleton.mp hp]
              omega
          · simp [wave_append]
      · exact Or.inr ⟨c, d, ps, a, b + 1, hps, by simp [List.replicate_succ' (n := b)]⟩

/-- The differences of a signal, the first of which is 0. -/
def steps : List Int → List Int
  | [] => []
  | x :: xs => 0 :: deltas x xs

theorem steps_append {s : List Int} (hs : s ≠ []) (t : List Int) :
    steps (s ++ t) = steps s ++ deltas (s.getLastD 0) t := by
  obtain ⟨x, xs, rfl⟩ := List.exists_cons_of_ne_nil hs
  rw [List.cons_append, steps, steps, deltas_append, List.getLastD_cons, List.getLastD_eq_getLast?]
  rfl

theorem length_steps (s : List Int) : (steps s).length = s.length := by
  cases s with
  | nil => rfl
  | cons x xs => simp [steps]

/-- A signal that rises once at most does not fall. -/
theorem neg_one_notMem_deltas (p : Int) (hp : p = 0 ∨ p = 1) (c d : Nat) (hc : p = 1 → c = 0) :
    (-1 : Int) ∉ deltas p (List.replicate c 0 ++ List.replicate d 1) := by
  rw [deltas_append]
  cases c with
  | zero =>
    cases d with
    | zero => simp [deltas]
    | succ d =>
      rw [deltas_replicate]
      simp only [List.replicate_zero, deltas, List.nil_append, List.mem_cons, List.mem_replicate,
        List.getLast?_nil, Option.getD_none]
      omega
  | succ c =>
    rw [deltas_replicate, getLast?_replicate_succ]
    cases d with
    | zero =>
      simp only [List.replicate_zero, deltas, List.append_nil, List.mem_cons, List.mem_replicate]
      omega
    | succ d =>
      rw [deltas_replicate]
      simp only [List.mem_append, List.mem_cons, List.mem_replicate]
      omega

theorem neg_one_notMem_steps (c d : Nat) :
    (-1 : Int) ∉ steps (List.replicate c 0 ++ List.replicate d 1) := by
  cases c with
  | zero =>
    cases d with
    | zero => simp [steps]
    | succ d =>
      have h := neg_one_notMem_deltas 1 (Or.inr rfl) 0 d fun _ => rfl
      simpa [List.replicate_succ, steps] using h
  | succ c =>
    have h := neg_one_notMem_deltas 0 (Or.inl rfl) c d (by simp)
    simpa [List.replicate_succ, steps] using h

/-- A signal that falls: what its differences are before the pulses and after them. -/
theorem steps_signal (c d : Nat) {ps : List (Nat × Nat)} (hps : Proper ps) (a b : Nat) :
    ∃ before after, steps (List.replicate c 0 ++ List.replicate (d + 1) 1 ++ wave ps ++
        (List.replicate (a + 1) 0 ++ List.replicate b 1)) =
          before ++ waveDeltas ps ++ -1 :: after ∧
      before.length = c + (d + 1) ∧ (-1 : Int) ∉ before ∧ (-1 : Int) ∉ after := by
  obtain ⟨hdeltas, hlast⟩ := deltas_wave hps
  have hne : List.replicate c (0 : Int) ++ List.replicate (d + 1) 1 ≠ [] := by
    simp [List.replicate_succ]
  have hone : (List.replicate c (0 : Int) ++ List.replicate (d + 1) 1).getLastD 0 = 1 := by
    rw [List.getLastD_eq_getLast?, List.getLast?_append, List.getLast?_replicate,
      if_neg (Nat.succ_ne_zero d)]
    rfl
  refine ⟨steps (List.replicate c 0 ++ List.replicate (d + 1) 1),
    deltas 0 (List.replicate a 0 ++ List.replicate b 1), ?_, ?_, neg_one_notMem_steps c (d + 1),
    neg_one_notMem_deltas 0 (Or.inl rfl) a b (by simp)⟩
  · have hafter : deltas 1 (List.replicate (a + 1) 0 ++ List.replicate b 1) =
        -1 :: deltas 0 (List.replicate a 0 ++ List.replicate b 1) := rfl
    rw [List.append_assoc _ (wave ps), steps_append hne, hone, deltas_append, hdeltas, hlast,
      hafter, List.append_assoc]
  · rw [length_steps, List.length_append, List.length_replicate, List.length_replicate]

end Pulses

end Srsenb
