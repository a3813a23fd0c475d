import Mathlib.Logic.Function.Basic
import Srsenb.Base.Run

/-! # The order of transmissions (`phch_common::worker_end`)

The workers hand the permission to transmit around a ring of semaphores, one for each count of
`tx_worker_cnt`. -/

open Srsenb.Run

namespace Srsenb.Phy

/-- Where the work on a subframe is: not started, in `work_imp`, between two steps of
`worker_end`, or over, with `worker_end` or by an early exit. -/
inductive TxPhase
  | off
  | working
  /-- `is_first_tx` was true. -/
  | first
  /-- `is_first_tx` was cleared. -/
  | opening
  | waiting
  | green
  | sent
  | done
  | exited
  deriving DecidableEq, Repr

/-- The worker may take the next subframe. -/
def TxPhase.Over (p : TxPhase) : Prop := p = .done ∨ p = .exited

/-- The subframe is in `worker_end`. -/
def TxPhase.Ending (p : TxPhase) : Prop :=
  p = .first ∨ p = .opening ∨ p = .waiting ∨ p = .green ∨ p = .sent

/-- The value of the semaphore that the subframe is to take. -/
def TxPhase.permits : TxPhase → Nat
  | .off | .working | .waiting => 1
  | _ => 0

instance (p : TxPhase) : Decidable p.Over := inferInstanceAs (Decidable (_ ∨ _))
instance (p : TxPhase) : Decidable p.Ending := inferInstanceAs (Decidable (_ ∨ _))

/-- The subframes in the order in which they were started, the flag, the semaphores, and the calls
of `radio->tx`. `turn` is the subframe that the permission is for; the code does not have it. -/
structure TxRing where
  started : Nat := 0
  phase : Nat → TxPhase := fun _ => .off
  isFirstTx : Bool := true
  txSem : Nat → Nat := fun _ => 0
  txs : List Nat := []
  turn : Option Nat := none

/-- The next subframe is started, the work on subframe `k` ends early, or makes its next step. -/
inductive TxEvent
  | start
  | exit (k : Nat)
  | run (k : Nat)
  deriving DecidableEq, Repr

namespace TxRing

variable (N : Nat) (s : TxRing)

/-- `tx_worker_cnt` of the `k`-th subframe. -/
def workerCnt (k : Nat) : Nat := k % N

def setPhase (k : Nat) (p : TxPhase) : TxRing := { s with phase := Function.update s.phase k p }

def post (i : Nat) : TxRing := { s with txSem := Function.update s.txSem i (s.txSem i + 1) }

/-- `sem_wait`, when it does not block. -/
def take (i : Nat) : TxRing := { s with txSem := Function.update s.txSem i (s.txSem i - 1) }

/-- Whether the worker of the next subframe is idle. -/
def Ready : Prop := N ≤ s.started → (s.phase (s.started - N)).Over

instance : Decidable (s.Ready N) := inferInstanceAs (Decidable (_ → _))

/-- The next step of subframe `k`. -/
def runStep (k : Nat) : TxRing :=
  match s.phase k with
  | .working =>
    if s.isFirstTx then { s.setPhase k .first with turn := some k } else s.setPhase k .waiting
  | .first => { s.setPhase k .opening with isFirstTx := false }
  | .opening => (s.setPhase k .waiting).post (workerCnt N k % N)
  | .waiting =>
    if s.txSem (workerCnt N k % N) > 0 then (s.setPhase k .green).take (workerCnt N k % N) else s
  | .green => { s.setPhase k .sent with txs := s.txs ++ [k] }
  | .sent =>
    { (s.setPhase k .done).post ((workerCnt N k + 1) % N) with
      turn := some (if s.phase (k + 1) = .exited then k + 1 + N else k + 1) }
  | _ => s

def step (s : TxRing) : TxEvent → TxRing
  | .start =>
    if s.Ready N then { s.setPhase s.started .working with started := s.started + 1 } else s
  | .exit k =>
    if s.phase k = .working then
      { s.setPhase k .exited with turn := if s.turn = some k then some (k + N) else s.turn }
    else s
  | .run k => s.runStep N k

/-- The transmissions so far are in the order of the subframes, and each is one. -/
def InOrder (s : TxRing) : Prop := s.txs.Pairwise (· < ·)

/-- No subframe after `k` is in `worker_end`. -/
def NoneBehind (k : Nat) : Prop := ∀ j < s.started, k < j → ¬ (s.phase j).Ending

/-- The first to come to `worker_end` is the first that did not exit, and no subframe comes there
out of turn. A subframe whose turn it is, or is to be next, exits only if no later one waits. -/
def Allowed (s : TxRing) : TxEvent → Prop
  | .start => True
  | .exit k => s.turn = some k → s.NoneBehind k
  | .run k =>
    (s.phase k = .working →
      if s.isFirstTx then ∀ j < k, s.phase j = .exited else ∀ t ∈ s.turn, t ≤ k) ∧
    (s.phase k = .sent → s.phase (k + 1) = .exited → s.NoneBehind (k + 1))

instance (k : Nat) : Decidable (s.NoneBehind k) := inferInstanceAs (Decidable (∀ _ < _, _ → _))

instance : ∀ e, Decidable (s.Allowed e)
  | .start => .isTrue trivial
  | .exit _ => inferInstanceAs (Decidable (_ → _))
  | .run _ => inferInstanceAs (Decidable ((_ → ite _ _ _) ∧ (_ → _)))

/-! ## The invariant -/

/-- Before the first worker comes to `worker_end`. -/
structure Unopened (s : TxRing) : Prop where
  flag : s.isFirstTx = true
  phase : ∀ k, s.phase k ∈ [TxPhase.off, .working, .exited]
  sem : ∀ i, s.txSem i = 0
  txs : s.txs = []

/-- It is the turn of `t`: what is before it never waits, what is after it does not go on, and the
only permission is its own. -/
structure TurnOf (s : TxRing) (t : Nat) : Prop where
  before : ∀ k < t, s.phase k ∈ [TxPhase.off, .working, .done, .exited]
  mine : s.phase t ∉ [TxPhase.done, .exited]
  after : ∀ k > t, s.phase k ∈ [TxPhase.off, .working, .waiting, .exited]
  sem : ∀ i, s.txSem i = if i = t % N then (s.phase t).permits else 0
  flag : s.isFirstTx = true ↔ s.phase t = .first
  opener : s.phase t = .first → ∀ k < t, s.phase k = .exited
  txs : ∀ x ∈ s.txs, x < t ∨ x = t ∧ s.phase t = .sent

/-- What holds of the subframes whoever's turn it is. -/
structure Books (N started : Nat) (phase : Nat → TxPhase) (txs : List Nat) : Prop where
  off : ∀ k, phase k = .off ↔ started ≤ k
  worker : ∀ k, k + N < started → (phase k).Over
  order : txs.Pairwise (· < ·)
  sent : ∀ k, phase k ∈ [TxPhase.sent, .done] → k ∈ txs

structure Inv (s : TxRing) : Prop where
  books : Books N s.started s.phase s.txs
  unopened : s.turn = none → s.Unopened
  turn : ∀ t, s.turn = some t → s.TurnOf N t

variable {N} {s}

theorem inv_init : Inv N {} where
  books := ⟨by simp, by simp, List.Pairwise.nil, by simp⟩
  unopened _ := ⟨rfl, by simp, fun _ => rfl, rfl⟩
  turn t ht := by cases ht

theorem forall_update {α : Type} {f : Nat → α} {k : Nat} {p : α} {P : Nat → α → Prop}
    (hk : P k p) (hrest : ∀ j ≠ k, P j (f j)) (j : Nat) : P j (Function.update f k p j) :=
  (Function.forall_update_iff f P).mpr ⟨hk, hrest⟩ j

theorem Books.setPhase {started : Nat} {phase : Nat → TxPhase} {txs : List Nat}
    (h : Books N started phase txs) {k : Nat} {p : TxPhase} (hk : phase k ≠ .off) (hp : p ≠ .off)
    (hover : ¬ (phase k).Over) (hsent : p ∉ [TxPhase.sent, .done] ∨ k ∈ txs) :
    Books N started (Function.update phase k p) txs where
  off := forall_update (P := fun j (q : TxPhase) => q = .off ↔ started ≤ j)
    (iff_of_false hp fun hle => hk ((h.off k).mpr hle)) fun j _ => h.off j
  worker := forall_update (P := fun j (q : TxPhase) => j + N < started → q.Over)
    (fun hlt => absurd (h.worker k hlt) hover) fun j _ => h.worker j
  order := h.order
  sent := forall_update (P := fun j q => q ∈ [TxPhase.sent, .done] → j ∈ txs)
    (fun hin => hsent.elim (absurd hin) id) fun j _ => h.sent j

/-- Another subframe than the one whose turn it is goes on. -/
theorem TurnOf.setPhase {t k : Nat} {p : TxPhase} (h : s.TurnOf N t) (hne : k ≠ t)
    (hbefore : k < t → p ∈ [TxPhase.off, .working, .done, .exited])
    (hafter : t < k → p ∈ [TxPhase.off, .working, .waiting, .exited])
    (hopener : k < t → s.phase t = .first → p = .exited) : (s.setPhase k p).TurnOf N t := by
  have ht : (s.setPhase k p).phase t = s.phase t := Function.update_of_ne (Ne.symm hne) _ _
  constructor
  · exact forall_update (P := fun j q => j < t → q ∈ [TxPhase.off, .working, .done, .exited])
      hbefore fun j _ => h.before j
  · rw [ht]
    exact h.mine
  · exact forall_update (P := fun j q => j > t → q ∈ [TxPhase.off, .working, .waiting, .exited])
      hafter fun j _ => h.after j
  · rw [ht]
    exact h.sem
  · rw [ht]
    exact h.flag
  · rw [ht]
    exact fun hfirst => forall_update (P := fun j (q : TxPhase) => j < t → q = .exited)
      (fun hlt => hopener hlt hfirst) fun j _ => h.opener hfirst j
  · rw [ht]
    exact h.txs

theorem TurnOf.go {s' : TxRing} {t : Nat} {p : TxPhase} (h : s.TurnOf N t)
    (hphase : s'.phase = Function.update s.phase t p) (hmine : p ∉ [TxPhase.done, .exited])
    (hsem : ∀ i, s'.txSem i = if i = t % N then p.permits else 0)
    (hflag : s'.isFirstTx = true ↔ p = .first)
    (hopener : p = .first → ∀ k < t, s.phase k = .exited)
    (htxs : ∀ x ∈ s'.txs, x < t ∨ x = t ∧ p = .sent) : s'.TurnOf N t := by
  have ht : s'.phase t = p := by rw [hphase, Function.update_self]
  have hrest : ∀ k, k ≠ t → s'.phase k = s.phase k := by
    intro k hk
    rw [hphase, Function.update_of_ne hk]
  constructor
  · intro k hk
    rw [hrest k (Nat.ne_of_lt hk)]
    exact h.before k hk
  · rw [ht]
    exact hmine
  · intro k hk
    rw [hrest k (Nat.ne_of_gt hk)]
    exact h.after k hk
  · rw [ht]
    exact hsem
  · rw [ht]
    exact hflag
  · rw [ht]
    intro hp k hk
    rw [hrest k (Nat.ne_of_lt hk)]
    exact hopener hp k hk
  · rw [ht]
    exact htxs

/-- The turn is passed on to `t`, with a permission at its semaphore. -/
theorem TurnOf.pass {s' : TxRing} {t : Nat}
    (hbefore : ∀ k < t, s'.phase k ∈ [TxPhase.off, .working, .done, .exited])
    (hmine : s'.phase t ∈ [TxPhase.off, .working, .waiting])
    (hafter : ∀ k > t, s'.phase k ∈ [TxPhase.off, .working, .waiting, .exited])
    (hsem : ∀ i, s'.txSem i = if i = t % N then 1 else 0) (hflag : s'.isFirstTx = false)
    (htxs : ∀ x ∈ s'.txs, x < t) : s'.TurnOf N t := by
  have hpermits : (s'.phase t).permits = 1 := by
    cases hp : s'.phase t <;> simp_all [TxPhase.permits]
  have hfirst : s'.phase t ≠ .first := by
    intro h
    rw [h] at hmine
    simp at hmine
  refine ⟨hbefore, ?_, hafter, ?_, ?_, fun h => absurd h hfirst, fun x hx => Or.inl (htxs x hx)⟩
  · intro h
    cases hp : s'.phase t <;> simp_all
  · rw [hpermits]
    exact hsem
  · rw [hflag]
    exact iff_of_false Bool.false_ne_true hfirst

theorem TurnOf.txs_lt {t : Nat} (h : s.TurnOf N t) (ht : s.phase t ≠ .sent) :
    ∀ x ∈ s.txs, x < t :=
  fun x hx => (h.txs x hx).resolve_right fun hsent => ht hsent.2

/-- What is behind the turn and not in `worker_end` is out of the way. -/
theorem TurnOf.behind {t j : Nat} (h : s.TurnOf N t) (hj : t < j) (hnone : ¬ (s.phase j).Ending) :
    s.phase j ∈ [TxPhase.off, .working, .done, .exited] := by
  have := h.after j hj
  cases hp : s.phase j <;> simp_all [TxPhase.Ending]

/-! ## Steps -/

theorem inv_start (h : Inv N s) : Inv N (step N s .start) := by
  unfold step
  simp only
  split_ifs with hready
  · have hoff : s.phase s.started = .off := (h.books.off s.started).mpr (Nat.le_refl _)
    refine ⟨⟨?_, ?_, h.books.order, ?_⟩, fun hs => ?_, fun t hs => ?_⟩
    · refine forall_update (P := fun k (q : TxPhase) => q = .off ↔ s.started + 1 ≤ k) (by simp)
        fun k hk => ?_
      rw [h.books.off k]
      omega
    · refine forall_update (P := fun k (q : TxPhase) => k + N < s.started + 1 → q.Over)
        (fun hlt => ?_) fun k hk hlt => ?_
      · -- Without workers nothing is ready.
        have hover := hready (by omega)
        rw [show s.started - N = s.started by omega, hoff] at hover
        simp [TxPhase.Over] at hover
      · by_cases heq : k + N = s.started
        · have hover := hready (by omega)
          rwa [show s.started - N = k by omega] at hover
        · exact h.books.worker k (by omega)
    · exact forall_update (P := fun k q => q ∈ [TxPhase.sent, .done] → k ∈ s.txs) (by simp)
        fun k _ => h.books.sent k
    · have hunop := h.unopened hs
      exact ⟨hunop.flag, forall_update (by simp) fun k _ => hunop.phase k, hunop.sem, hunop.txs⟩
    · have hturn := h.turn t hs
      have hgoal : (s.setPhase s.started .working).TurnOf N t := by
        by_cases heq : s.started = t
        · have hwait : s.phase t = .off := heq ▸ hoff
          refine hturn.go (p := .working) (heq ▸ rfl) (by simp) (fun i => ?_) ?_ (by simp)
            fun x hx => Or.inl (hturn.txs_lt (by simp [hwait]) x hx)
          · rw [setPhase, hturn.sem, hwait]
            rfl
          · rw [setPhase, hturn.flag, hwait]
            simp
        · refine hturn.setPhase heq (by simp) (by simp) fun hlt hfirst => ?_
          have hlater := (h.books.off t).mpr (Nat.le_of_lt hlt)
          rw [hfirst] at hlater
          cases hlater
      exact ⟨hgoal.before, hgoal.mine, hgoal.after, hgoal.sem, hgoal.flag, hgoal.opener, hgoal.txs⟩
  · exact h

/-- The worker of a subframe that is not over was not given a later one. -/
theorem later_off (h : Inv N s) {k j : Nat} (hk : ¬ (s.phase k).Over) (hj : k + N ≤ j) :
    s.phase j = .off := by
  rw [h.books.off j]
  by_contra hlt
  exact hk (h.books.worker k (by omega))

theorem pos_of_working (h : Inv N s) {k : Nat} (hk : ¬ (s.phase k).Over) (hoff : s.phase k ≠ .off) :
    0 < N := by
  by_contra hN
  exact hoff (later_off h hk (by omega))

theorem ending_lt (h : Inv N s) {k : Nat} (hk : (s.phase k).Ending) : k < s.started := by
  by_contra hle
  rw [(h.books.off k).mpr (Nat.le_of_not_lt hle)] at hk
  simp [TxPhase.Ending] at hk

theorem inv_exit (h : Inv N s) {k : Nat} (hok : s.turn = some k → s.NoneBehind k) :
    Inv N (step N s (.exit k)) := by
  unfold step
  simp only
  by_cases hk : s.phase k = .working
  · rw [if_pos hk]
    have hover : ¬ (s.phase k).Over := by simp [hk, TxPhase.Over]
    refine ⟨h.books.setPhase (by simp [hk]) (by simp) hover (by simp), fun hs => ?_, fun t hs => ?_⟩
    · simp only at hs
      split_ifs at hs
      have hunop := h.unopened hs
      exact ⟨hunop.flag, forall_update (by simp) fun j _ => hunop.phase j, hunop.sem, hunop.txs⟩
    · simp only at hs
      split_ifs at hs with hmine
      · -- The permission stays at the semaphore, for the next subframe with the same count.
        obtain rfl := Option.some.inj hs
        have hturn := h.turn k hmine
        have hpos := pos_of_working h hover (by simp [hk])
        have hnext : Function.update s.phase k .exited (k + N) = .off := by
          rw [Function.update_of_ne (by omega)]
          exact later_off h hover (Nat.le_refl _)
        refine TurnOf.pass ?_ ?_ ?_ (fun i => ?_) ?_ fun x hx => ?_
        · refine forall_update (P := fun j q => j < k + N →
            q ∈ [TxPhase.off, .working, .done, .exited]) (by simp) fun j hj hlt => ?_
          rcases Nat.lt_or_gt_of_ne hj with hbefore | hafter
          · exact hturn.before j hbefore
          · exact hturn.behind hafter fun hend => hok hmine j (ending_lt h hend) hafter hend
        · simp only [setPhase]
          rw [hnext]
          simp
        · refine forall_update (P := fun j q => j > k + N →
            q ∈ [TxPhase.off, .working, .waiting, .exited]) (by simp) fun j hj hlt => ?_
          rw [later_off h hover (Nat.le_of_lt hlt)]
          simp
        · simp only [setPhase]
          rw [hturn.sem, hk, Nat.add_mod_right]
          rfl
        · simp only [setPhase]
          rw [Bool.eq_false_iff, Ne, hturn.flag, hk]
          simp
        · exact Nat.lt_add_right N (hturn.txs_lt (by simp [hk]) x hx)
      · have hgoal := (h.turn t hs).setPhase (k := k) (p := .exited)
          (fun heq => hmine (heq ▸ hs)) (by simp) (by simp) fun _ _ => rfl
        exact ⟨hgoal.before, hgoal.mine, hgoal.after, hgoal.sem, hgoal.flag, hgoal.opener,
          hgoal.txs⟩
  · rw [if_neg hk]
    exact h

/-- What goes on in `worker_end` past its semaphore, or before it, is the subframe of the turn. -/
theorem turn_of_phase (h : Inv N s) {k : Nat}
    (hk : s.phase k ∉ [TxPhase.off, .working, .waiting, .done, .exited]) : s.turn = some k := by
  cases hs : s.turn with
  | none =>
    have := (h.unopened hs).phase k
    cases hp : s.phase k <;> simp_all
  | some t =>
    have hturn := h.turn t hs
    rcases Nat.lt_trichotomy k t with hlt | heq | hgt
    · have := hturn.before k hlt
      cases hp : s.phase k <;> simp_all
    · rw [heq]
    · have := hturn.after k hgt
      cases hp : s.phase k <;> simp_all

/-- Two subframes with the same count are at least a round apart. -/
theorem add_le_of_mod_eq {t k : Nat} (hlt : t < k) (hmod : k % N = t % N) : t + N ≤ k := by
  have hdvd : N ∣ k - t := Nat.dvd_of_mod_eq_zero (Nat.sub_mod_eq_zero_of_mod_eq hmod)
  have := Nat.le_of_dvd (Nat.sub_pos_of_lt hlt) hdvd
  omega

/-- The first one to come to `worker_end`. -/
theorem inv_open (h : Inv N s) {k : Nat} (hk : s.phase k = .working) (hflag : s.isFirstTx = true)
    (hok : ∀ j < k, s.phase j = .exited) :
    Inv N { s.setPhase k .first with turn := some k } := by
  -- A turn would be of a subframe that has read the flag too.
  have hnone : s.turn = none := by
    cases hs : s.turn with
    | none => rfl
    | some t =>
      have hturn := h.turn t hs
      have hfirst := hturn.flag.mp hflag
      rcases Nat.lt_trichotomy k t with hlt | rfl | hgt
      · rw [hturn.opener hfirst k hlt] at hk
        cases hk
      · rw [hfirst] at hk
        cases hk
      · rw [hok t hgt] at hfirst
        cases hfirst
  have hunop := h.unopened hnone
  refine ⟨h.books.setPhase (by simp [hk]) (by simp) (by simp [hk, TxPhase.Over]) (by simp),
    (fun hs => by cases hs), fun t hs => ?_⟩
  obtain rfl := Option.some.inj hs
  have hself : Function.update s.phase k .first k = .first := Function.update_self ..
  constructor
  · refine forall_update (P := fun j q => j < k → q ∈ [TxPhase.off, .working, .done, .exited])
      (fun hlt => absurd hlt (Nat.lt_irrefl k)) fun j _ hlt => ?_
    rw [hok j hlt]
    simp
  · simp only [setPhase, hself]
    simp
  · refine forall_update (P := fun j q => j > k → q ∈ [TxPhase.off, .working, .waiting, .exited])
      (fun hlt => absurd hlt (Nat.lt_irrefl k)) fun j _ _ => ?_
    have := hunop.phase j
    simp only [List.mem_cons, List.not_mem_nil, or_false] at this ⊢
    tauto
  · intro i
    simp only [setPhase, hself]
    rw [hunop.sem]
    exact (ite_self 0).symm
  · simp only [setPhase, hself]
    exact iff_of_true hflag trivial
  · intro _ j hj
    exact (Function.update_of_ne (Nat.ne_of_lt hj) _ _).trans (hok j hj)
  · simp only [setPhase]
    rw [hunop.txs]
    simp

/-- One that comes to `worker_end` before its turn is over. -/
theorem inv_wait (h : Inv N s) {k : Nat} (hk : s.phase k = .working) (hflag : s.isFirstTx = false)
    (hok : ∀ t ∈ s.turn, t ≤ k) : Inv N (s.setPhase k .waiting) := by
  refine ⟨h.books.setPhase (by simp [hk]) (by simp) (by simp [hk, TxPhase.Over]) (by simp),
    fun hs => ?_, fun t hs => ?_⟩
  · have := (h.unopened hs).flag
    rw [hflag] at this
    cases this
  · have hturn := h.turn t hs
    by_cases heq : k = t
    · subst heq
      refine hturn.go rfl (by simp) (fun i => ?_) ?_ (by simp)
        fun x hx => Or.inl (hturn.txs_lt (by simp [hk]) x hx)
      · rw [setPhase, hturn.sem, hk]
        rfl
      · rw [setPhase, hturn.flag, hk]
        simp
    · refine hturn.setPhase heq (fun hlt => ?_) (by simp) fun hlt => ?_
      · have := hok t hs
        omega
      · have := hok t hs
        omega

theorem inv_enter (h : Inv N s) {k : Nat} (hk : s.phase k = .working)
    (hok : if s.isFirstTx then ∀ j < k, s.phase j = .exited else ∀ t ∈ s.turn, t ≤ k) :
    Inv N (s.runStep N k) := by
  unfold runStep
  simp only [hk]
  split_ifs with hflag
  · rw [if_pos hflag] at hok
    exact inv_open h hk hflag hok
  · rw [if_neg hflag] at hok
    exact inv_wait h hk (Bool.eq_false_iff.mpr hflag) hok

theorem inv_go {s' : TxRing} {k : Nat} {p : TxPhase} (h : Inv N s) (hturn : s.turn = some k)
    (hstarted : s'.started = s.started) (hturn' : s'.turn = some k) (hbooks : Books N s.started
      (Function.update s.phase k p) s'.txs) (hgo : s.TurnOf N k → s'.TurnOf N k)
    (hphase : s'.phase = Function.update s.phase k p) : Inv N s' := by
  refine ⟨?_, fun hs => ?_, fun t hs => ?_⟩
  · rw [hstarted, hphase]
    exact hbooks
  · rw [hturn'] at hs
    cases hs
  · rw [hturn'] at hs
    obtain rfl := Option.some.inj hs
    exact hgo (h.turn k hturn)

theorem inv_first (h : Inv N s) {k : Nat} (hk : s.phase k = .first) : Inv N (s.runStep N k) := by
  have hturn := turn_of_phase h (k := k) (by simp [hk])
  unfold runStep
  simp only [hk]
  refine inv_go (p := .opening) h hturn rfl hturn (h.books.setPhase (by simp [hk]) (by simp)
    (by simp [hk, TxPhase.Over]) (by simp)) (fun hof => ?_) rfl
  refine hof.go rfl (by simp) (fun i => ?_) (by simp) (by simp)
    fun x hx => Or.inl (hof.txs_lt (by simp [hk]) x hx)
  simp only [setPhase]
  rw [hof.sem, hk]
  rfl

theorem inv_opening (h : Inv N s) {k : Nat} (hk : s.phase k = .opening) :
    Inv N (s.runStep N k) := by
  have hturn := turn_of_phase h (k := k) (by simp [hk])
  unfold runStep
  simp only [hk]
  refine inv_go (p := .waiting) h hturn rfl hturn (h.books.setPhase (by simp [hk]) (by simp)
    (by simp [hk, TxPhase.Over]) (by simp)) (fun hof => ?_) rfl
  refine hof.go rfl (by simp) ?_ ?_ (by simp)
    fun x hx => Or.inl (hof.txs_lt (by simp [hk]) x hx)
  · rw [workerCnt, Nat.mod_mod]
    refine forall_update (P := fun i n => n = if i = k % N then (TxPhase.waiting).permits else 0) ?_
      fun i hi => ?_
    · simp only [setPhase]
      rw [hof.sem, hk]
      simp [TxPhase.permits]
    · simp only [setPhase]
      rw [hof.sem, if_neg hi, if_neg hi]
  · simp only [post, setPhase]
    rw [hof.flag, hk]
    simp

/-- Only the subframe whose turn it is gets past its semaphore. -/
theorem turn_of_permit (h : Inv N s) {k : Nat} (hk : s.phase k = .waiting)
    (hsem : s.txSem (k % N) > 0) : s.turn = some k := by
  cases hs : s.turn with
  | none =>
    rw [(h.unopened hs).sem] at hsem
    exact absurd hsem (Nat.lt_irrefl 0)
  | some t =>
    have hturn := h.turn t hs
    have hmod : k % N = t % N := by
      by_contra hne
      rw [hturn.sem, if_neg hne] at hsem
      exact absurd hsem (Nat.lt_irrefl 0)
    rcases Nat.lt_trichotomy k t with hlt | rfl | hgt
    · have := hturn.before k hlt
      rw [hk] at this
      simp at this
    · rfl
    · -- The worker of `k` was the worker of `t`, and is over with it.
      have hstarted := ending_lt h (k := k) (by simp [hk, TxPhase.Ending])
      have hover := h.books.worker t (Nat.lt_of_le_of_lt (add_le_of_mod_eq hgt hmod) hstarted)
      exact absurd (by simpa [TxPhase.Over] using hover) hturn.mine

theorem inv_waiting (h : Inv N s) {k : Nat} (hk : s.phase k = .waiting) :
    Inv N (s.runStep N k) := by
  unfold runStep
  simp only [hk, workerCnt, Nat.mod_mod]
  split_ifs with hsem
  · have hturn := turn_of_permit h hk hsem
    refine inv_go (p := .green) h hturn rfl hturn (h.books.setPhase (by simp [hk]) (by simp)
      (by simp [hk, TxPhase.Over]) (by simp)) (fun hof => ?_) rfl
    refine hof.go rfl (by simp) ?_ ?_ (by simp)
      fun x hx => Or.inl (hof.txs_lt (by simp [hk]) x hx)
    · refine forall_update (P := fun i n => n = if i = k % N then (TxPhase.green).permits else 0) ?_
        fun i hi => ?_
      · simp only [setPhase]
        rw [hof.sem, hk]
        simp [TxPhase.permits]
      · simp only [setPhase]
        rw [hof.sem, if_neg hi, if_neg hi]
    · simp only [take, setPhase]
      rw [hof.flag, hk]
      simp
  · exact h

theorem Books.transmit {started : Nat} {phase : Nat → TxPhase} {txs : List Nat}
    (h : Books N started phase txs) {k : Nat} (hk : ∀ x ∈ txs, x < k) :
    Books N started phase (txs ++ [k]) where
  off := h.off
  worker := h.worker
  order := List.pairwise_append.mpr ⟨h.order, List.pairwise_singleton _ _, by simpa using hk⟩
  sent j hj := List.mem_append_left _ (h.sent j hj)

theorem inv_green (h : Inv N s) {k : Nat} (hk : s.phase k = .green) : Inv N (s.runStep N k) := by
  have hturn := turn_of_phase h (k := k) (by simp [hk])
  have hless := (h.turn k hturn).txs_lt (by simp [hk])
  unfold runStep
  simp only [hk]
  refine inv_go (p := .sent) h hturn rfl hturn ((h.books.transmit hless).setPhase (by simp [hk])
    (by simp) (by simp [hk, TxPhase.Over]) (by simp)) (fun hof => ?_) rfl
  refine hof.go rfl (by simp) (fun i => ?_) ?_ (by simp) fun x hx => ?_
  · simp only [setPhase]
    rw [hof.sem, hk]
    rfl
  · simp only [setPhase]
    rw [hof.flag, hk]
    simp
  · rcases List.mem_append.mp hx with hx | hx
    · exact Or.inl (hless x hx)
    · exact Or.inr ⟨List.mem_singleton.mp hx, rfl⟩

theorem inv_sent (h : Inv N s) {k : Nat} (hk : s.phase k = .sent)
    (hok : s.phase (k + 1) = .exited → s.NoneBehind (k + 1)) : Inv N (s.runStep N k) := by
  have hover : ¬ (s.phase k).Over := by simp [hk, TxPhase.Over]
  have hpos := pos_of_working h hover (by simp [hk])
  have hof := h.turn k (turn_of_phase h (by simp [hk]))
  have hne : ∀ {j}, k < j → Function.update s.phase k .done j = s.phase j :=
    fun hlt => Function.update_of_ne (Nat.ne_of_gt hlt) _ _
  have hflag : s.isFirstTx = false := by
    rw [Bool.eq_false_iff, Ne, hof.flag, hk]
    simp
  -- The next subframe has a permission, and no other one has.
  have hsem : ∀ i, ((s.setPhase k .done).post ((k + 1) % N)).txSem i =
      if i = (k + 1) % N then 1 else 0 := by
    have hzero : ∀ i, s.txSem i = 0 := by
      intro i
      rw [hof.sem, hk]
      exact ite_self 0
    refine forall_update (P := fun i n => n = if i = (k + 1) % N then 1 else 0) ?_ fun i hi => ?_
    · rw [if_pos rfl]
      exact congrArg (· + 1) (hzero _)
    · rw [if_neg hi]
      exact hzero i
  have htxs : ∀ x ∈ s.txs, x < k + 1 := by
    intro x hx
    have := hof.txs x hx
    omega
  unfold runStep
  simp only [hk, workerCnt, Nat.mod_add_mod]
  refine ⟨h.books.setPhase (by simp [hk]) (by simp) hover (Or.inr (h.books.sent k (by simp [hk]))),
    (fun hs => by cases hs), fun t hs => ?_⟩
  obtain rfl := Option.some.inj hs
  have hnext := hof.after (k + 1) (Nat.lt_succ_self k)
  split_ifs with hexit
  · refine TurnOf.pass ?_ ?_ ?_ (fun i => ?_) hflag fun x hx => ?_
    · refine forall_update (P := fun j q => j < k + 1 + N →
        q ∈ [TxPhase.off, .working, .done, .exited]) (by simp) fun j hj hlt => ?_
      rcases Nat.lt_trichotomy j (k + 1) with hbefore | rfl | hafter
      · exact hof.before j (by omega)
      · simp [hexit]
      · exact hof.behind (by omega) fun hend => hok hexit j (ending_lt h hend) hafter hend
    · simp only [post, setPhase]
      rw [hne (by omega), later_off h hover (by omega)]
      simp
    · intro j hj
      simp only [post, setPhase]
      rw [hne (by omega), later_off h hover (by omega)]
      simp
    · rw [Nat.add_mod_right]
      exact hsem i
    · exact Nat.lt_add_right N (htxs x hx)
  · refine TurnOf.pass ?_ ?_ ?_ hsem hflag htxs
    · refine forall_update (P := fun j q => j < k + 1 →
        q ∈ [TxPhase.off, .working, .done, .exited]) (by simp) fun j hj hlt => ?_
      exact hof.before j (by omega)
    · simp only [post, setPhase]
      rw [hne (Nat.lt_succ_self k)]
      cases hp : s.phase (k + 1) <;> simp_all
    · intro j hj
      simp only [post, setPhase]
      rw [hne (by omega)]
      exact hof.after j (by omega)

theorem inv_step (s : TxRing) (e : TxEvent) (h : Inv N s) (hok : s.Allowed e) :
    Inv N (step N s e) := by
  cases e with
  | start => exact inv_start h
  | exit k => exact inv_exit h hok
  | run k =>
    unfold step
    simp only
    cases hk : s.phase k with
    | working => exact inv_enter h hk (hok.1 hk)
    | first => exact inv_first h hk
    | opening => exact inv_opening h hk
    | waiting => exact inv_waiting h hk
    | green => exact inv_green h hk
    | sent => exact inv_sent h hk (hok.2 hk)
    | off | done | exited =>
      unfold runStep
      simp only [hk]
      exact h

/-! ## Progress -/

/-- The event is a step of subframe `k`. -/
def Acts (k : Nat) (s : TxRing) (e : TxEvent) : Prop :=
  e = .run k ∨ e = .exit k ∧ s.phase k = .working

/-- The states of an infinite run. -/
def states (N : Nat) (ev : Nat → TxEvent) : Nat → TxRing := trace (step N) {} ev

/-- No worker stops in the middle of its work: it takes another step, or tries its semaphore again,
sooner or later. -/
def Fair (N : Nat) (ev : Nat → TxEvent) : Prop :=
  ∀ n k, (states N ev n).phase k ∉ [TxPhase.off, .done, .exited] →
    ∃ m ≥ n, Acts k (states N ev m) (ev m)

/-- How many steps the subframe has before it. -/
def stepsLeft : TxPhase → Nat
  | .off => 7
  | .working => 6
  | .first => 5
  | .opening => 4
  | .waiting => 3
  | .green => 2
  | .sent => 1
  | .done | .exited => 0

def whose (s : TxRing) : Nat := s.turn.getD 0

/-- How far subframe `k` is from its transmission. -/
def rank (k : Nat) (s : TxRing) : Nat := 8 * (k - s.whose) + stepsLeft (s.phase s.whose)

/-- Subframe `k` is in `worker_end` and was not transmitted. -/
structure Pending (N k : Nat) (s : TxRing) : Prop where
  inv : Inv N s
  ending : (s.phase k).Ending
  unsent : k ∉ s.txs

theorem Pending.turn_le {k : Nat} (h : Pending N k s) :
    ∃ t ≤ k, s.turn = some t ∧ s.TurnOf N t := by
  cases hs : s.turn with
  | none =>
    have hunop := (h.inv.unopened hs).phase k
    have hend := h.ending
    cases hp : s.phase k <;> simp_all [TxPhase.Ending]
  | some t =>
    have hturn := h.inv.turn t hs
    refine ⟨t, ?_, rfl, hturn⟩
    by_contra hlt
    have hbefore := hturn.before k (Nat.lt_of_not_le hlt)
    have hend := h.ending
    cases hp : s.phase k <;> simp_all [TxPhase.Ending]

/-- Only a subframe that is not yet in `worker_end` moves. -/
theorem setPhase_keeps {t i j : Nat} {p : TxPhase} (hne : i ≠ t)
    (hi : s.phase i ∈ [TxPhase.off, .working]) (hj : j = t ∨ (s.phase j).Ending) :
    (s.setPhase i p).phase j = s.phase j := by
  refine Function.update_of_ne (fun heq => ?_) _ _
  subst heq
  rcases hj with heq | hend
  · exact hne heq
  · cases hp : s.phase j <;> simp_all [TxPhase.Ending]

/-- Whoever comes to `worker_end` while it is the turn of another finds the flag cleared. -/
theorem TurnOf.flag_cleared {t i : Nat} (hof : s.TurnOf N t) (hne : i ≠ t)
    (hi : s.phase i = .working) (hok : s.isFirstTx = true → ∀ j < i, s.phase j = .exited) :
    s.isFirstTx = false := by
  by_contra hflag
  rw [Bool.not_eq_false] at hflag
  have hfirst := hof.flag.mp hflag
  rcases Nat.lt_or_gt_of_ne hne with hlt | hgt
  · rw [hof.opener hfirst i hlt] at hi
    cases hi
  · rw [hok hflag t hgt] at hfirst
    cases hfirst

/-- The steps of the others change neither the turn nor what is in `worker_end`. -/
theorem step_other (h : Inv N s) {t : Nat} (hturn : s.turn = some t) (hoff : s.phase t ≠ .off)
    {e : TxEvent} (hok : s.Allowed e) (he : ¬ Acts t s e) :
    (step N s e).turn = some t ∧ (step N s e).txs = s.txs ∧
      ∀ j, j = t ∨ (s.phase j).Ending → (step N s e).phase j = s.phase j := by
  cases e with
  | start =>
    unfold step
    simp only
    split_ifs
    · have hstarted := (h.books.off s.started).mpr (Nat.le_refl _)
      exact ⟨hturn, rfl, fun _ => setPhase_keeps (fun heq => hoff (heq ▸ hstarted))
        (by simp [hstarted])⟩
    · exact ⟨hturn, rfl, fun _ _ => rfl⟩
  | exit i =>
    unfold step
    simp only
    split_ifs with hi htop
    · rw [hturn] at htop
      obtain rfl := Option.some.inj htop
      exact absurd (Or.inr ⟨rfl, hi⟩) he
    · exact ⟨hturn, rfl, fun _ => setPhase_keeps (fun heq => htop (heq ▸ hturn)) (by simp [hi])⟩
    · exact ⟨hturn, rfl, fun _ _ => rfl⟩
  | run i =>
    have hne : i ≠ t := fun heq => he (Or.inl (heq ▸ rfl))
    have hothers : s.phase i ∈ [TxPhase.off, .working, .waiting, .done, .exited] := by
      by_contra hin
      have := turn_of_phase h hin
      rw [hturn] at this
      exact hne (Option.some.inj this).symm
    unfold step runStep
    simp only
    cases hi : s.phase i with
    | working =>
      have hflag := (h.turn t hturn).flag_cleared hne hi fun hflag => by
        simpa only [hflag, if_true] using hok.1 hi
      simp only
      rw [if_neg (by simp [hflag])]
      exact ⟨hturn, rfl, fun _ => setPhase_keeps hne (by simp [hi])⟩
    | waiting =>
      simp only [workerCnt, Nat.mod_mod]
      split_ifs with hsem
      · have := turn_of_permit h hi hsem
        rw [hturn] at this
        exact absurd (Option.some.inj this).symm hne
      · exact ⟨hturn, rfl, fun _ _ => rfl⟩
    | off | done | exited => exact ⟨hturn, rfl, fun _ _ => rfl⟩
    | first | opening | green | sent =>
      rw [hi] at hothers
      simp at hothers

theorem whose_of_turn {t : Nat} (h : s.turn = some t) : s.whose = t := by
  unfold whose
  rw [h]
  rfl

theorem runStep_turn {t : Nat} (hof : s.TurnOf N t) (hturn : s.turn = some t)
    (hoff : s.phase t ≠ .off) (hsent : s.phase t ≠ .sent) :
    ∃ p, (s.runStep N t).phase = Function.update s.phase t p ∧
      stepsLeft p < stepsLeft (s.phase t) ∧ (s.runStep N t).turn = some t ∧
      ((p.Ending ∧ (s.runStep N t).txs = s.txs) ∨ (s.runStep N t).txs = s.txs ++ [t]) := by
  have hmine := hof.mine
  unfold runStep
  cases hp : s.phase t with
  | off => exact absurd hp hoff
  | sent => exact absurd hp hsent
  | done | exited =>
    rw [hp] at hmine
    simp at hmine
  | working =>
    have hflag : ¬ s.isFirstTx := by
      rw [hof.flag, hp]
      simp
    simp only [if_neg hflag]
    exact ⟨.waiting, rfl, by decide, hturn, Or.inl ⟨by decide, rfl⟩⟩
  | first => exact ⟨.opening, rfl, by decide, hturn, Or.inl ⟨by decide, rfl⟩⟩
  | opening => exact ⟨.waiting, rfl, by decide, hturn, Or.inl ⟨by decide, rfl⟩⟩
  | waiting =>
    have hsem : s.txSem (workerCnt N t % N) > 0 := by
      rw [workerCnt, Nat.mod_mod, hof.sem, if_pos rfl, hp]
      decide
    simp only [if_pos hsem]
    exact ⟨.green, rfl, by decide, hturn, Or.inl ⟨by decide, rfl⟩⟩
  | green => exact ⟨.sent, rfl, by decide, hturn, Or.inr rfl⟩

theorem pending_pass {k t : Nat} (h : Pending N k s) (hle : t ≤ k) (hturn : s.turn = some t)
    (hsent : s.phase t = .sent) (hinv : Inv N (step N s (.run t))) :
    Pending N k (step N s (.run t)) ∧ rank k (step N s (.run t)) < rank k s := by
  have hne : t ≠ k := by
    rintro rfl
    exact h.unsent (h.inv.books.sent t (by simp [hsent]))
  have hstep : step N s (.run t) = { (s.setPhase t .done).post ((workerCnt N t + 1) % N) with
      turn := some (if s.phase (t + 1) = .exited then t + 1 + N else t + 1) } := by
    unfold step runStep
    simp only [hsent]
  have hnext : Pending N k (step N s (.run t)) := by
    refine ⟨hinv, ?_, ?_⟩
    · rw [hstep]
      simp only [post, setPhase]
      rw [Function.update_of_ne (Ne.symm hne)]
      exact h.ending
    · rw [hstep]
      exact h.unsent
  obtain ⟨u, hule, hu, -⟩ := hnext.turn_le
  have hlater : t < u := by
    rw [hstep] at hu
    have := Option.some.inj hu
    split_ifs at this <;> omega
  refine ⟨hnext, ?_⟩
  unfold rank
  rw [whose_of_turn hturn, whose_of_turn hu, hsent]
  have hnew : stepsLeft ((step N s (.run t)).phase u) ≤ 7 := by
    cases (step N s (.run t)).phase u <;> decide
  have hold : stepsLeft .sent = 1 := rfl
  omega

theorem pending_go {k t : Nat} (h : Pending N k s) (hof : s.TurnOf N t) (hturn : s.turn = some t)
    (hoff : s.phase t ≠ .off) (hsent : s.phase t ≠ .sent) (hinv : Inv N (s.runStep N t)) :
    k ∈ (s.runStep N t).txs ∨
      Pending N k (s.runStep N t) ∧ rank k (s.runStep N t) < rank k s := by
  obtain ⟨p, hphase, hless, hturn', hend⟩ := runStep_turn hof hturn hoff hsent
  have hrank : rank k (s.runStep N t) < rank k s := by
    unfold rank
    rw [whose_of_turn hturn, whose_of_turn hturn', hphase, Function.update_self]
    omega
  rcases eq_or_ne k t with rfl | hne
  · rcases hend with ⟨hpend, htxs⟩ | htxs
    · refine Or.inr ⟨⟨hinv, ?_, ?_⟩, hrank⟩
      · rw [hphase, Function.update_self]
        exact hpend
      · rw [htxs]
        exact h.unsent
    · left
      rw [htxs]
      exact List.mem_append_right _ (List.mem_singleton_self k)
  · refine Or.inr ⟨⟨hinv, ?_, ?_⟩, hrank⟩
    · rw [hphase, Function.update_of_ne hne]
      exact h.ending
    · rcases hend with ⟨-, htxs⟩ | htxs
      · rw [htxs]
        exact h.unsent
      · rw [htxs, List.mem_append, List.mem_singleton]
        exact fun hin => hin.elim h.unsent hne

/-- What one step does for a subframe that waits: it is transmitted, or comes nearer, or the step
is another subframe's and changes nothing for it. -/
theorem pending_step {k : Nat} (h : Pending N k s) {e : TxEvent} (hok : s.Allowed e) :
    k ∈ (step N s e).txs ∨ Pending N k (step N s e) ∧
      (rank k (step N s e) < rank k s ∨ ¬ Acts s.whose s e ∧ rank k (step N s e) = rank k s ∧
        (step N s e).whose = s.whose) := by
  obtain ⟨t, hle, hturn, hof⟩ := h.turn_le
  have hwhose := whose_of_turn hturn
  have hinv := inv_step s e h.inv hok
  have hoff : s.phase t ≠ .off := by
    intro hoff
    have := (h.inv.books.off t).mp hoff
    have := ending_lt h.inv h.ending
    omega
  rw [hwhose]
  by_cases hact : Acts t s e
  · rcases hact with rfl | ⟨rfl, hworking⟩
    · by_cases hsent : s.phase t = .sent
      · exact Or.inr ((pending_pass h hle hturn hsent hinv).imp_right Or.inl)
      · exact (pending_go h hof hturn hoff hsent hinv).imp_right (And.imp_right Or.inl)
    · -- It may not exit while `k` waits behind it.
      have hlt : t < k := by
        refine Nat.lt_of_le_of_ne hle ?_
        rintro rfl
        have := h.ending
        rw [hworking] at this
        simp [TxPhase.Ending] at this
      exact absurd h.ending (hok hturn k (ending_lt h.inv h.ending) hlt)
  · obtain ⟨hturn', htxs, hphase⟩ := step_other h.inv hturn hoff hok hact
    refine Or.inr ⟨⟨hinv, ?_, ?_⟩, Or.inr ⟨hact, ?_, whose_of_turn hturn'⟩⟩
    · rw [hphase k (Or.inr h.ending)]
      exact h.ending
    · rw [htxs]
      exact h.unsent
    · unfold rank
      rw [hwhose, whose_of_turn hturn', hphase t (Or.inl rfl)]

theorem inv_states {ev : Nat → TxEvent} (hok : ∀ n, (states N ev n).Allowed (ev n)) (n : Nat) :
    Inv N (states N ev n) := trace_invariant inv_step inv_init hok n

theorem eventually_sent {ev : Nat → TxEvent} (hok : ∀ n, (states N ev n).Allowed (ev n))
    (hfair : Fair N ev) {n k : Nat} (hk : ((states N ev n).phase k).Ending) :
    ∃ m, k ∈ (states N ev m).txs := by
  by_cases hsent : k ∈ (states N ev n).txs
  · exact ⟨n, hsent⟩
  · refine eventually_of_rank (I := Pending N k) (C := Allowed) (G := fun s => k ∈ s.txs) (rank k)
      whose Acts (fun s e h hok => pending_step h hok) hok (fun n h => ?_) n
      ⟨inv_states hok n, hk, hsent⟩
    obtain ⟨t, hle, hturn, hof⟩ := Pending.turn_le h
    rw [whose_of_turn hturn]
    refine hfair n t fun hin => ?_
    simp only [List.mem_cons, List.not_mem_nil, or_false] at hin
    rcases hin with hoff | hover
    · have := (h.inv.books.off t).mp hoff
      have := ending_lt h.inv h.ending
      omega
    · exact hof.mine (List.mem_cons.mpr (hover.imp_right List.mem_singleton.mpr))

/-- One subframe, with its steps one after the other. -/
def loneRun : Nat → TxEvent
  | 0 => .start
  | _ + 1 => .run 0

theorem loneRun_states (n : Nat) : states 1 loneRun (n + 7) = states 1 loneRun 7 := by
  induction n with
  | zero => rfl
  | succ n ih =>
    rw [show n + 1 + 7 = n + 7 + 1 by omega]
    change step 1 (states 1 loneRun (n + 7)) (.run 0) = _
    rw [ih]
    rfl

/-- Subframe 1 exits, subframe 3 takes its permission, and 2 waits until 3 was transmitted. -/
def skippedRun : List TxEvent :=
  [.start, .start, .run 0, .run 0, .run 0, .run 0, .run 0, .run 0, .exit 1, .start, .run 2,
    .start, .run 3, .run 3, .run 3, .run 3, .run 2, .run 2]

end TxRing

end Srsenb.Phy
