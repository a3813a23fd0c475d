import Mathlib.Data.List.Perm.Basic
import Mathlib.Logic.Function.Basic
import Srsenb.Base.Run

/-! # The capture of the PRACH (`prach_worker::new_tti` and `prach_worker::run_thread`)

The buffers are numbers. The samples of a subframe are copied into the buffer of the current window,
and a buffer that is full is pushed to the detector, which gives it back. -/

open Srsenb.Run

namespace Srsenb.Phy

/-- `sf_buffer` -/
structure SfBuffer (α : Type) where
  samples : Nat → α
  nofSamples : Nat
  tti : Nat

/-- `sf_buffer_sz` -/
def sfBufferSz : Nat := 128 * 1024

/-- What the worker is set up with: `nof_sf`, the length of a subframe and
`srslte_prach_tti_opportunity`; and what comes: the first TTI and the samples of each subframe. -/
structure PrachCfg (α : Type) where
  nofSf : Nat
  sfLen : Nat
  opportunity : Nat → Bool
  firstTti : Nat
  rx : Nat → Nat → α
  pos : 1 ≤ nofSf

/-- The `n`-th TTI. -/
def PrachCfg.tti {α : Type} (c : PrachCfg α) (n : Nat) : Nat := (c.firstTti + n) % 10240

/-- `prach_worker`, with the buffer that the thread works on, the number of TTIs so far and what the
last `new_tti` returned. -/
structure PrachWorker (α : Type) where
  bufferPool : List Nat
  buffers : Nat → SfBuffer α
  pendingBuffers : List Nat := []
  currentBuffer : Option Nat := none
  sfCnt : Nat := 0
  running : Bool := true
  detecting : Option Nat := none
  now : Nat := 0
  ret : Int := 0

/-- The next subframe is received; the thread takes a buffer; it gives it back, and goes on if
`run_tti` returned 0. -/
inductive PrachEvent
  | tti
  | pop
  | done (ok : Bool)
  deriving DecidableEq, Repr

namespace PrachWorker

variable {α : Type} (c : PrachCfg α) (w : PrachWorker α)

/-- `buffer_pool.allocate` -/
def allocate : PrachWorker α :=
  match w.bufferPool with
  | [] => { w with currentBuffer := none }
  | b :: pool => { w with bufferPool := pool, currentBuffer := some b }

/-- The samples of a subframe are copied behind those that are there. -/
def copy (b tti : Nat) (bufferRx : Nat → α) : PrachWorker α :=
  let old := w.buffers b
  let start := w.sfCnt * c.sfLen
  let new : SfBuffer α :=
    { samples := fun p => if start ≤ p ∧ p < start + c.sfLen then bufferRx (p - start)
        else old.samples p
      nofSamples := old.nofSamples + c.sfLen
      tti := if w.sfCnt = 0 then tti else old.tti }
  { w with buffers := Function.update w.buffers b new }

/-- The count of the subframes, and the push of a full buffer. -/
def count (b : Nat) : PrachWorker α :=
  if w.sfCnt + 1 = c.nofSf then { w with sfCnt := 0, pendingBuffers := w.pendingBuffers ++ [b] }
  else { w with sfCnt := w.sfCnt + 1 }

/-- `prach_worker::new_tti`, and what it returns. -/
def newTti (ttiRx : Nat) (bufferRx : Nat → α) : PrachWorker α × Int :=
  if c.opportunity ttiRx = true ∨ w.sfCnt ≠ 0 then
    let w' := if w.sfCnt = 0 then w.allocate else w
    match w'.currentBuffer with
    | none => (w', if w.sfCnt = 0 then 0 else -1)
    | some b =>
      if (w'.buffers b).nofSamples + c.sfLen < sfBufferSz then
        ((w'.copy c b ttiRx bufferRx).count c b, 0)
      else (w', -1)
  else (w, 0)

/-- `wait_pop`, when it does not block. -/
def pop : PrachWorker α :=
  if w.running = true ∧ w.detecting = none then
    match w.pendingBuffers with
    | [] => w
    | b :: pending => { w with pendingBuffers := pending, detecting := some b }
  else w

/-- The end of a round of `run_thread`. -/
def giveBack (ok : Bool) : PrachWorker α :=
  match w.detecting with
  | none => w
  | some b =>
    { w with
      buffers := Function.update w.buffers b { w.buffers b with nofSamples := 0, tti := 0 }
      bufferPool := b :: w.bufferPool
      detecting := none
      running := w.running && ok }

def step (w : PrachWorker α) : PrachEvent → PrachWorker α
  | .tti =>
    let (w', r) := w.newTti c (c.tti w.now) (c.rx w.now)
    { w' with now := w.now + 1, ret := r }
  | .pop => w.pop
  | .done ok => w.giveBack ok

/-- The worker before the first TTI. -/
def init (pool : List Nat) (samples : Nat → Nat → α) : PrachWorker α where
  bufferPool := pool
  buffers b := ⟨samples b, 0, 0⟩

/-! ## What is captured -/

/-- The buffer holds `k` subframes from the `n`-th on, which is a PRACH opportunity. -/
structure Window (c : PrachCfg α) (n k : Nat) (b : SfBuffer α) : Prop where
  opportunity : c.opportunity (c.tti n) = true
  tti : b.tti = c.tti n
  nofSamples : b.nofSamples = k * c.sfLen
  samples : ∀ i < k, ∀ j < c.sfLen, b.samples (i * c.sfLen + j) = c.rx (n + i) j

/-- The buffers of the detector, and that of a window that is not full. -/
def inUse : List Nat :=
  w.pendingBuffers ++ w.detecting.toList ++ if w.sfCnt = 0 then [] else w.currentBuffer.toList

/-- The buffers that the detector is given hold whole windows, each buffer is in one place, and
after an error the next opportunity starts a window. -/
structure Good (pool : List Nat) (w : PrachWorker α) : Prop where
  pending : ∀ b ∈ w.pendingBuffers, ∃ n, Window c n c.nofSf (w.buffers b)
  detecting : ∀ b, w.detecting = some b → ∃ n, Window c n c.nofSf (w.buffers b)
  accounted : (w.bufferPool ++ w.inUse).Perm pool
  ready : w.ret = -1 → w.sfCnt = 0

/-- A subframe of a window that is to be captured has to fit the buffer. -/
def HasRoom (w : PrachWorker α) : PrachEvent → Prop
  | .tti => w.sfCnt ≠ 0 ∨ c.opportunity (c.tti w.now) = true ∧ w.bufferPool ≠ [] →
      (w.sfCnt + 1) * c.sfLen < sfBufferSz
  | _ => True

instance (w : PrachWorker α) : ∀ e, Decidable (HasRoom c w e)
  | .tti => inferInstanceAs (Decidable (_ → _))
  | .pop => .isTrue trivial
  | .done _ => .isTrue trivial

/-! ## One window -/

variable {c} {w}

/-- The first `k` subframes of a window are there; before the first, the TTI is not. -/
structure Started (c : PrachCfg α) (n k : Nat) (b : SfBuffer α) : Prop where
  opportunity : c.opportunity (c.tti n) = true
  tti : k ≠ 0 → b.tti = c.tti n
  nofSamples : b.nofSamples = k * c.sfLen
  samples : ∀ i < k, ∀ j < c.sfLen, b.samples (i * c.sfLen + j) = c.rx (n + i) j

theorem Window.started {n k : Nat} {b : SfBuffer α} (h : Window c n k b) : Started c n k b :=
  ⟨h.opportunity, fun _ => h.tti, h.nofSamples, h.samples⟩

theorem copy_window {n b : Nat} (h : Started c n w.sfCnt (w.buffers b))
    (hnow : n + w.sfCnt = w.now) :
    Window c n (w.sfCnt + 1) ((w.copy c b (c.tti w.now) (c.rx w.now)).buffers b) := by
  simp only [copy, Function.update_self]
  refine ⟨h.opportunity, ?_, ?_, fun i hi j hj => ?_⟩
  · change (if w.sfCnt = 0 then c.tti w.now else (w.buffers b).tti) = c.tti n
    split_ifs with hfirst
    · rw [← hnow, hfirst, Nat.add_zero]
    · exact h.tti hfirst
  · exact (congrArg (· + c.sfLen) h.nofSamples).trans (Nat.succ_mul w.sfCnt c.sfLen).symm
  · change (if w.sfCnt * c.sfLen ≤ i * c.sfLen + j ∧
        i * c.sfLen + j < w.sfCnt * c.sfLen + c.sfLen then
        c.rx w.now (i * c.sfLen + j - w.sfCnt * c.sfLen)
      else (w.buffers b).samples (i * c.sfLen + j)) = c.rx (n + i) j
    rcases Nat.lt_succ_iff_lt_or_eq.1 hi with hlt | rfl
    · have hle : (i + 1) * c.sfLen ≤ w.sfCnt * c.sfLen := Nat.mul_le_mul_right c.sfLen hlt
      rw [Nat.succ_mul] at hle
      rw [if_neg (by omega)]
      exact h.samples i hlt j hj
    · rw [if_pos (by omega), Nat.add_sub_cancel_left, ← hnow]

theorem copy_other {b b' tti : Nat} {rx : Nat → α} (h : b' ≠ b) :
    (w.copy c b tti rx).buffers b' = w.buffers b' :=
  Function.update_of_ne h _ _

/-! ## A run -/

/-- What a run keeps while every subframe fits. -/
structure Inv (c : PrachCfg α) (pool : List Nat) (w : PrachWorker α) : Prop where
  nodup : pool.Nodup
  empty : ∀ b ∈ w.bufferPool, (w.buffers b).nofSamples = 0
  window : w.sfCnt ≠ 0 → w.sfCnt < c.nofSf ∧ ∃ n b, w.currentBuffer = some b ∧
    n + w.sfCnt = w.now ∧ Window c n w.sfCnt (w.buffers b)

theorem Good.nodup {pool : List Nat} (h : Good c pool w) (hnodup : pool.Nodup) :
    (w.bufferPool ++ w.inUse).Nodup := h.accounted.nodup_iff.2 hnodup

theorem init_good (pool : List Nat) (samples : Nat → Nat → α) :
    Good c pool (init pool samples) where
  pending _ hb := absurd hb List.not_mem_nil
  detecting _ hb := nomatch hb
  accounted := by simp [init, inUse]
  ready _ := rfl

theorem init_inv {pool : List Nat} (hnodup : pool.Nodup) (samples : Nat → Nat → α) :
    Inv c pool (init pool samples) where
  nodup := hnodup
  empty _ _ := rfl
  window h := absurd rfl h

theorem pop_keeps {pool : List Nat} (hg : Good c pool w) (h : Inv c pool w) :
    Good c pool w.pop ∧ Inv c pool w.pop := by
  unfold pop
  split_ifs with hrun
  · cases hpending : w.pendingBuffers with
    | nil => exact ⟨hg, h⟩
    | cons b pending =>
      refine ⟨⟨fun b' hb' => ?_, fun b' hb' => ?_, ?_, hg.ready⟩, h.nodup, h.empty, h.window⟩
      · exact hg.pending b' (by rw [hpending]; exact List.mem_cons_of_mem b hb')
      · obtain rfl := Option.some.inj hb'
        exact hg.pending b (by rw [hpending]; exact List.mem_cons_self)
      · have hperm := hg.accounted
        simp only [inUse, hpending, hrun.2, Option.toList_none, List.append_nil] at hperm
        exact ((List.perm_append_singleton b pending).append_right _).append_left _ |>.trans hperm
  · exact ⟨hg, h⟩

theorem not_mem_of_nodup {b : Nat} {l₁ l₂ l₃ : List Nat} (h : (l₁ ++ (l₂ ++ [b] ++ l₃)).Nodup) :
    b ∉ l₁ ∧ b ∉ l₂ ∧ b ∉ l₃ := by
  simp only [List.nodup_append, List.mem_append, List.mem_singleton] at h
  grind

theorem giveBack_keeps {pool : List Nat} (hg : Good c pool w) (h : Inv c pool w) (ok : Bool) :
    Good c pool (w.giveBack ok) ∧ Inv c pool (w.giveBack ok) := by
  unfold giveBack
  cases hdet : w.detecting with
  | none => exact ⟨hg, h⟩
  | some b =>
    have hnodup := hg.nodup h.nodup
    have hperm := hg.accounted
    simp only [inUse, hdet, Option.toList_some] at hnodup hperm
    obtain ⟨-, hpending, hcur⟩ := not_mem_of_nodup hnodup
    have hother : ∀ b' ≠ b, Function.update w.buffers b
        { w.buffers b with nofSamples := 0, tti := 0 } b' = w.buffers b' :=
      fun b' hb' => Function.update_of_ne hb' _ _
    refine ⟨⟨fun b' hb' => ?_, fun b' hb' => (nomatch hb'), ?_, hg.ready⟩,
      ⟨h.nodup, fun b' hb' => ?_, fun hcnt => ?_⟩⟩
    · have hne : b' ≠ b := ne_of_mem_of_not_mem hb' hpending
      change ∃ n, Window c n c.nofSf (Function.update w.buffers b _ b')
      rw [hother b' hne]
      exact hg.pending b' hb'
    · refine List.Perm.trans ?_ hperm
      simp only [inUse, List.perm_iff_count, List.count_append, List.count_cons, List.count_nil,
        Option.toList_none]
      intro a
      omega
    · rcases List.mem_cons.1 hb' with rfl | hb'
      · change (Function.update w.buffers b' _ b').nofSamples = 0
        rw [Function.update_self]
      · by_cases heq : b' = b
        · subst heq
          change (Function.update w.buffers b' _ b').nofSamples = 0
          rw [Function.update_self]
        · change (Function.update w.buffers b _ b').nofSamples = 0
          rw [hother b' heq]
          exact h.empty b' hb'
    · obtain ⟨hlt, n, b', hb', hnow, hwindow⟩ := h.window hcnt
      refine ⟨hlt, n, b', hb', hnow, ?_⟩
      have hne : b' ≠ b := by
        rintro rfl
        rw [if_neg hcnt, hb'] at hcur
        exact hcur (List.mem_singleton_self b')
      change Window c n w.sfCnt (Function.update w.buffers b _ b')
      rw [hother b' hne]
      exact hwindow

/-- The next subframe of a window in buffer `b`. -/
theorem capture_keeps {pool : List Nat} {n b : Nat} (hcur : w.currentBuffer = some b)
    (hlt : w.sfCnt < c.nofSf) (hnow : n + w.sfCnt = w.now)
    (hstarted : Started c n w.sfCnt (w.buffers b))
    (hpending : ∀ b ∈ w.pendingBuffers, ∃ n, Window c n c.nofSf (w.buffers b))
    (hdetecting : ∀ b, w.detecting = some b → ∃ n, Window c n c.nofSf (w.buffers b))
    (hperm : (w.bufferPool ++ (w.pendingBuffers ++ [b] ++ w.detecting.toList)).Perm pool)
    (hnodup : pool.Nodup) (hempty : ∀ b ∈ w.bufferPool, (w.buffers b).nofSamples = 0) :
    let w' := { (w.copy c b (c.tti w.now) (c.rx w.now)).count c b with now := w.now + 1, ret := 0 }
    Good c pool w' ∧ Inv c pool w' := by
  obtain ⟨hpool, hpend, hdet⟩ := not_mem_of_nodup (hperm.nodup_iff.2 hnodup)
  have hwindow := copy_window hstarted hnow
  have hbuffer : ∀ b' ≠ b, (w.copy c b (c.tti w.now) (c.rx w.now)).buffers b' = w.buffers b' :=
    fun b' hb' => copy_other hb'
  have hpend' : ∀ b' ∈ w.pendingBuffers,
      ∃ n, Window c n c.nofSf ((w.copy c b (c.tti w.now) (c.rx w.now)).buffers b') := by
    intro b' hb'
    rw [hbuffer b' (ne_of_mem_of_not_mem hb' hpend)]
    exact hpending b' hb'
  have hdet' : ∀ b', w.detecting = some b' →
      ∃ n, Window c n c.nofSf ((w.copy c b (c.tti w.now) (c.rx w.now)).buffers b') := by
    intro b' hb'
    rw [hbuffer b' (by rintro rfl; exact hdet (by simp [hb']))]
    exact hdetecting b' hb'
  have hempty' : ∀ b' ∈ w.bufferPool,
      ((w.copy c b (c.tti w.now) (c.rx w.now)).buffers b').nofSamples = 0 := by
    intro b' hb'
    rw [hbuffer b' (ne_of_mem_of_not_mem hb' hpool)]
    exact hempty b' hb'
  unfold count
  split_ifs with hfull
  · have hfull : w.sfCnt + 1 = c.nofSf := hfull
    refine ⟨⟨fun b' hb' => ?_, hdet', ?_, fun _ => rfl⟩, hnodup, hempty', fun h => absurd rfl h⟩
    · rcases List.mem_append.1 hb' with hb' | hb'
      · exact hpend' b' hb'
      · obtain rfl := List.mem_singleton.1 hb'
        exact ⟨n, hfull ▸ hwindow⟩
    · simpa [inUse, copy] using hperm
  · have hfull : w.sfCnt + 1 ≠ c.nofSf := hfull
    refine ⟨⟨hpend', hdet', ?_, fun h => absurd (show (0 : Int) = -1 from h) (by decide)⟩,
      hnodup, hempty', fun _ => ?_⟩
    · refine List.Perm.trans ?_ hperm
      change (w.bufferPool ++ (w.pendingBuffers ++ w.detecting.toList ++
        w.currentBuffer.toList)).Perm _
      rw [hcur, List.append_assoc w.pendingBuffers, List.append_assoc w.pendingBuffers]
      exact (List.perm_append_comm.append_left _).append_left _
    · refine ⟨?_, n, b, hcur, ?_, hwindow⟩
      · change w.sfCnt + 1 < c.nofSf
        omega
      · change n + (w.sfCnt + 1) = w.now + 1
        omega

/-- A worker between two windows, whatever its current buffer is. -/
theorem idle_keeps {pool : List Nat} (hg : Good c pool w) (h : Inv c pool w) (hcnt : w.sfCnt = 0)
    (cur : Option Nat) (ret : Int) :
    let w' := { w with currentBuffer := cur, now := w.now + 1, ret := ret }
    Good c pool w' ∧ Inv c pool w' := by
  have hperm := hg.accounted
  simp only [inUse, if_pos hcnt] at hperm
  refine ⟨⟨hg.pending, hg.detecting, ?_, fun _ => hcnt⟩,
    ⟨h.nodup, h.empty, fun hne => absurd hcnt hne⟩⟩
  simpa only [inUse, if_pos hcnt] using hperm

theorem newTti_keeps {pool : List Nat} (hg : Good c pool w) (h : Inv c pool w)
    (hroom : HasRoom c w .tti) : Good c pool (step c w .tti) ∧ Inv c pool (step c w .tti) := by
  simp only [step, newTti]
  by_cases hcnt : w.sfCnt = 0
  · by_cases hopp : c.opportunity (c.tti w.now) = true
    · simp only [hopp, hcnt, true_or, if_true]
      cases hpool : w.bufferPool with
      | nil =>
        simp only [allocate, hpool]
        simpa only [hpool] using idle_keeps hg h hcnt none 0
      | cons b pool' =>
        have hb : (w.buffers b).nofSamples = 0 :=
          h.empty b (by rw [hpool]; exact List.mem_cons_self)
        have hfit : (w.buffers b).nofSamples + c.sfLen < sfBufferSz := by
          have hlt := hroom (.inr ⟨hopp, by rw [hpool]; exact List.cons_ne_nil b pool'⟩)
          rwa [hcnt, Nat.zero_add, Nat.one_mul, ← Nat.zero_add c.sfLen, ← hb] at hlt
        simp only [allocate, hpool, if_pos hfit]
        have hperm := hg.accounted
        simp only [inUse, if_pos hcnt, hpool, List.append_nil] at hperm
        have hstarted : Started c w.now w.sfCnt (w.buffers b) :=
          ⟨hopp, fun hne => absurd hcnt hne, by rw [hb, hcnt, Nat.zero_mul],
            fun i hi => absurd hi (by omega)⟩
        have hkept := capture_keeps (w := { w with bufferPool := pool', currentBuffer := some b })
          rfl (show w.sfCnt < c.nofSf by have := c.pos; omega)
          (show w.now + w.sfCnt = w.now by omega) hstarted hg.pending hg.detecting
          (List.Perm.trans ?_ hperm) h.nodup
          fun b' hb' => h.empty b' (by rw [hpool]; exact List.mem_cons_of_mem b hb')
        · simpa only [hcnt] using hkept
        · simp only [List.perm_iff_count, List.count_append, List.count_cons, List.count_nil]
          intro a
          omega
    · simp only [hopp, hcnt, Bool.false_eq_true, ne_eq, not_true_eq_false, or_self, if_false]
      simpa only [hcnt] using idle_keeps hg h hcnt w.currentBuffer 0
  · obtain ⟨hlt, n, b, hcur, hnow, hwindow⟩ := h.window hcnt
    have hfit : (w.buffers b).nofSamples + c.sfLen < sfBufferSz := by
      rw [hwindow.nofSamples, ← Nat.succ_mul]
      exact hroom (.inl hcnt)
    simp only [hcnt, ne_eq, not_false_eq_true, or_true, if_true, if_false, hcur, if_pos hfit]
    have hperm := hg.accounted
    simp only [inUse, if_neg hcnt, hcur] at hperm
    refine capture_keeps hcur hlt hnow hwindow.started hg.pending hg.detecting
      (List.Perm.trans ?_ hperm) h.nodup h.empty
    rw [List.append_assoc w.pendingBuffers, List.append_assoc w.pendingBuffers]
    exact (List.perm_append_comm.append_left _).append_left _

/-- A subframe that does not fit leaves the window as it is, or loses the buffer. -/
theorem newTti_breaks {pool : List Nat} (hg : Good c pool w) (h : Inv c pool w)
    (hroom : ¬HasRoom c w .tti) : ¬Good c pool (step c w .tti) := by
  intro hgood
  simp only [HasRoom, Classical.not_imp, not_lt] at hroom
  obtain ⟨hcapture, hfull⟩ := hroom
  simp only [step, newTti] at hgood
  by_cases hcnt : w.sfCnt = 0
  · obtain ⟨hopp, hpool⟩ := hcapture.resolve_left (absurd hcnt)
    obtain ⟨b, pool', hpool⟩ := List.exists_cons_of_ne_nil hpool
    have hb : (w.buffers b).nofSamples = 0 := h.empty b (by rw [hpool]; exact List.mem_cons_self)
    have hfull : ¬(w.buffers b).nofSamples + c.sfLen < sfBufferSz := by
      rw [hcnt, Nat.zero_add, Nat.one_mul] at hfull
      omega
    simp only [hopp, hcnt, true_or, if_true, allocate, hpool, if_neg hfull] at hgood
    have hlen := (hgood.accounted.trans hg.accounted.symm).length_eq
    simp [inUse, hcnt, hpool] at hlen
  · obtain ⟨-, n, b, hcur, -, hwindow⟩ := h.window hcnt
    have hfull : ¬(w.buffers b).nofSamples + c.sfLen < sfBufferSz := by
      rw [hwindow.nofSamples, ← Nat.succ_mul]
      exact Nat.not_lt.2 hfull
    simp only [hcnt, ne_eq, not_false_eq_true, or_true, if_true, if_false, hcur, if_neg hfull]
      at hgood
    exact hcnt (hgood.ready rfl)

theorem step_breaks {pool : List Nat} {e : PrachEvent} (hg : Good c pool w) (h : Inv c pool w)
    (hroom : ¬HasRoom c w e) : ¬Good c pool (step c w e) := by
  cases e with
  | tti => exact newTti_breaks hg h hroom
  | pop => exact absurd trivial hroom
  | done ok => exact absurd trivial hroom

theorem step_keeps {pool : List Nat} {e : PrachEvent} (hg : Good c pool w) (h : Inv c pool w)
    (hroom : HasRoom c w e) : Good c pool (step c w e) ∧ Inv c pool (step c w e) := by
  cases e with
  | tti => exact newTti_keeps hg h hroom
  | pop => exact pop_keeps hg h
  | done ok => exact giveBack_keeps hg h ok

/-- Over a run the windows are whole, and no buffer is lost, exactly if each subframe that is to be
captured fits its buffer. -/
theorem windows_iff {pool : List Nat} (hnodup : pool.Nodup) (samples : Nat → Nat → α)
    (es : List PrachEvent) :
    AllSteps (step c) (HasRoom c) (init pool samples) es ↔
      AllStates (step c) (Good c pool) (init pool samples) es := by
  have hiff : AllSteps (step c) (HasRoom c) (init pool samples) es ↔
      AllSteps (step c) (fun _ _ => True) (init pool samples) es ∧
        AllStates (step c) (Good c pool) (init pool samples) es :=
    allSteps_iff (fun _ => Inv c pool)
      (fun w e es h hg hroom => ⟨trivial, step_keeps hg h hroom⟩)
      (fun w e es h hg hroom _ => step_breaks hg h hroom)
      (init_inv hnodup samples) (init_good pool samples)
  exact hiff.trans (and_iff_right (AllSteps.trivial _ _))

/-- With a buffer that is larger than a window no run comes to such a subframe. -/
theorem fits_windows {pool : List Nat} (hnodup : pool.Nodup) (samples : Nat → Nat → α)
    (hfits : c.nofSf * c.sfLen < sfBufferSz) (es : List PrachEvent) :
    AllStates (step c) (Good c pool) (init pool samples) es := by
  have hroom : ∀ w : PrachWorker α, ∀ e, Inv c pool w → HasRoom c w e := by
    intro w e h
    cases e with
    | tti =>
      intro _
      have hcnt : w.sfCnt + 1 ≤ c.nofSf := by
        by_cases hzero : w.sfCnt = 0
        · have := c.pos
          omega
        · exact (h.window hzero).1
      exact Nat.lt_of_le_of_lt (Nat.mul_le_mul_right c.sfLen hcnt) hfits
    | pop => trivial
    | done ok => trivial
  have hkeep : AllStates (step c) (fun w => Good c pool w ∧ Inv c pool w) (init pool samples) es :=
    allStates_of_allSteps (C := fun _ _ => True) (I := fun w => Good c pool w ∧ Inv c pool w)
      (fun w e h _ => step_keeps h.1 h.2 (hroom w e h.2))
      ⟨init_good pool samples, init_inv hnodup samples⟩ (AllSteps.trivial _ _)
  exact hkeep.mono fun w h => h.1

/-! ## Runs -/

/-- A worker for windows of `nofSf` subframes, with an opportunity every 10 subframes. The samples
are the numbers of their subframes. -/
def exampleCfg (nofSf sfLen : Nat) (pos : 1 ≤ nofSf) : PrachCfg Nat where
  nofSf := nofSf
  sfLen := sfLen
  opportunity tti := tti % 10 == 1
  firstTti := 10238
  rx n _ := n
  pos := pos

theorem windows_two :
    AllStates (step (exampleCfg 2 1920 (by decide))) (Good (exampleCfg 2 1920 (by decide)) [0, 1])
      (init [0, 1] fun _ _ => 0) [.tti, .tti, .tti, .tti, .tti, .pop, .tti, .done true] :=
  (windows_iff (by decide) _ _).1 (by decide)

/-- Windows of five subframes of 100 PRBs do not fit: the fifth subframe ends in an error, within
the window. -/
theorem not_windows :
    ¬AllStates (step (exampleCfg 5 30720 (by decide)))
      (Good (exampleCfg 5 30720 (by decide)) [0, 1]) (init [0, 1] fun _ _ => 0)
      (List.replicate 8 .tti) := by
  intro h
  have hready := h.last.ready (by decide +kernel)
  revert hready
  decide +kernel

end PrachWorker

end Srsenb.Phy
