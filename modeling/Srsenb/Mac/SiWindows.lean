import Mathlib.Order.Interval.Finset.Nat
import Srsenb.Mac.DataBounds

/-! # The windows of the SI messages

The window of a message opens in its first subframe, and closes when more than its length is over.
The message is sent in subframe 9 only. -/

namespace Srsenb.Mac

/-- An SI message, with its place in the list, the length of a window and the configuration. -/
structure SiMessage where
  i : Nat
  w : Nat
  sib : SibCfg
  pos : 0 < i
  len : sib.len ≠ 0
  window : w ∈ [1, 2, 5, 10, 15, 20, 40]
  period : (i - 1) * w / 10 < sib.periodRf

namespace SiMessage

variable (m : SiMessage)

/-- The subframe of a radio frame in which the windows start. -/
def subframe : Nat := (m.i - 1) * m.w % 10

/-- `tti` is the first subframe of a window. -/
def StartsAt (tti : Nat) : Prop :=
  tti / 10 % m.sib.periodRf = (m.i - 1) * m.w / 10 ∧ tti % 10 = m.subframe

instance (tti : Nat) : Decidable (m.StartsAt tti) := inferInstanceAs (Decidable (_ ∧ _))

/-- The transmissions in a window. -/
def nofTx : Nat := if m.w ≤ 10 then 1 else if m.w ≤ 20 then 2 else if m.w ≤ 30 then 3 else 4

/-- The message is to be sent in this subframe, by its books. -/
def Due (tti : Nat) (b : SchedSib) : Prop :=
  b.isInWindow = true ∧ b.nTx < 4 ∧ tti % 10 = 9 ∧
    m.w / m.nofTx * b.nTx ≤ u32 (tti + 2 ^ 32 - b.windowStart)

/-- The result is a transmission of the message. -/
def isSent (g : DlSchedBc) : Bool := decide (g.type = .bcch) && decide (g.index = m.i)

variable {m}

theorem window_cases : m.w = 1 ∨ m.w = 2 ∨ m.w = 5 ∨ m.w = 10 ∨ m.w = 15 ∨ m.w = 20 ∨ m.w = 40 := by
  simpa using m.window

theorem subframe_lt : m.subframe < 10 := Nat.mod_lt _ (by omega)

theorem window_le : m.w ≤ 40 := by
  rcases m.window_cases with h | h | h | h | h | h | h <;> omega

theorem share_le : m.w / m.nofTx ≤ 10 := by
  unfold nofTx
  rcases m.window_cases with h | h | h | h | h | h | h <;> simp [h]

theorem subframe_add_le : m.subframe + m.w ≤ 10 * m.nofTx + 9 := by
  unfold subframe nofTx
  rcases m.window_cases with h | h | h | h | h | h | h <;> simp [h] <;> omega

/-- Subframe 9 of the fifth frame is not in the window. -/
theorem subframe_add_lt : m.subframe + m.w < 49 := by
  unfold subframe
  rcases m.window_cases with h | h | h | h | h | h | h <;> rw [h] <;> omega

/-- A subframe 9 right after the window is the first since its start. -/
theorem subframe_add_ne (h9 : 9 - m.subframe < m.w) : (m.subframe + m.w) % 10 ≠ 9 := by
  unfold subframe at *
  rcases m.window_cases with h | h | h | h | h | h | h <;> rw [h] at h9 ⊢ <;> omega

end SiMessage

namespace Sched

variable (lib : Lib) (m : SiMessage) {s : Sched}

/-- The second loop of `dl_sched_bc` as it comes to SIB `i`. -/
def siTurn (s : Sched) (tti i : Nat) : Sched × Elems DlSchedBc :=
  ((s.bcStart lib tti).cfg.sibs.zipIdx.take i).foldl (sibSched lib)
    (s.bcStart lib tti, ⟨[], default⟩)

/-- More than `si_n_rbg` RBGs are left, and a candidate of the common search space whose CCEs are
all free. -/
def RoomAt (s : Sched) : Prop :=
  let loc := s.commonLocations (s.currentCfi - 1)
  s.siNRbg < s.availRbg ∧ ∃ cand < loc.nofLoc s.bcAggrLevel,
    s.cce.firstUsed (loc.cceStart s.bcAggrLevel cand) s.bcAggrLevel = none

/-- What the first loop makes of the books of the message. -/
def siBooks (tti : Nat) (b : SchedSib) : SchedSib :=
  if b.isInWindow then
    if lib.ttiInterval tti b.windowStart > m.w then { b with isInWindow := false, windowStart := 0 }
    else b
  else if m.StartsAt tti then { isInWindow := true, windowStart := tti, nTx := 0 }
  else b

/-! ## A call -/

/-- The books of one message, and whether it is sent. -/
def siView (st : Sched × Elems DlSchedBc) : SchedSib × Bool :=
  (st.1.pendingSibs m.i, st.2.done.any m.isSent)

/-- The message is configured. -/
structure HasSi (s : Sched) : Prop where
  configured : s.configured = true
  window : s.cfg.siWindowMs = m.w
  message : s.cfg.sibs[m.i]? = some m.sib

variable {lib m}

theorem sibWindows_frame (lib : Lib) (its : List (SibCfg × Nat)) (s : Sched) :
    ∃ sibs, its.foldl (sibWindow lib) s = { s with pendingSibs := sibs } := by
  induction its generalizing s with
  | nil => exact ⟨_, rfl⟩
  | cons it its ih =>
    have hround : ∃ sibs, sibWindow lib s it = { s with pendingSibs := sibs } := by
      simp only [sibWindow]
      split_ifs <;> exact ⟨_, rfl⟩
    obtain ⟨sibs, hround⟩ := hround
    obtain ⟨sibs', h⟩ := ih (sibWindow lib s it)
    rw [hround] at h
    exact ⟨sibs', by rw [List.foldl_cons, hround, h]⟩

theorem bcStart_frame (lib : Lib) (s : Sched) (tti : Nat) :
    ∃ sibs, s.bcStart lib tti = { s.dlStart tti with pendingSibs := sibs } :=
  sibWindows_frame lib _ _

theorem sibWindow_other (s : Sched) (sib : SibCfg) {j : Nat} (hj : j ≠ m.i) :
    (sibWindow lib s (sib, j)).pendingSibs m.i = s.pendingSibs m.i := by
  have hset : ∀ j b, j ≠ m.i → (s.setSib j b).pendingSibs m.i = s.pendingSibs m.i :=
    fun j b hj => Function.update_of_ne (Ne.symm hj) _ _
  simp only [sibWindow]
  split_ifs with h1 h2 h3 h4 h5 h6 <;> first | rfl | exact hset _ _ hj | skip
  exact hset 0 _ (Nat.ne_of_lt m.pos)

theorem sibWindow_books {s : Sched} {tti : Nat} (hw : s.cfg.siWindowMs = m.w)
    (htti : s.currentTti = tti ∧ s.sfn = tti / 10 ∧ s.sfIdx = tti % 10) :
    (sibWindow lib s (m.sib, m.i)).pendingSibs m.i = siBooks lib m tti (s.pendingSibs m.i) := by
  obtain ⟨rfl, hsfn, hsf⟩ := htti
  have hset : ∀ b, (s.setSib m.i b).pendingSibs m.i = b := by simp [setSib]
  have hstart : (s.sfn % m.sib.periodRf = (m.i - 1) * m.w / 10 ∧
      s.sfIdx = (m.i - 1) * m.w % 10) ↔ m.StartsAt s.currentTti := by
    rw [hsfn, hsf]
    rfl
  simp only [sibWindow, siBooks, m.len, m.pos, hw, hstart, ne_eq, not_false_eq_true, if_true,
    Bool.not_eq_true', gt_iff_lt]
  cases (s.pendingSibs m.i).isInWindow with
  | false =>
    simp only [if_true, Bool.false_eq_true, if_false]
    split_ifs
    · exact hset _
    · rfl
  | true =>
    simp only [Bool.true_eq_false, if_false, if_true]
    split_ifs
    · exact hset _
    · rfl

theorem bcStart_books (lib : Lib) (hs : HasSi m s) (tti : Nat) :
    (s.bcStart lib tti).pendingSibs m.i = siBooks lib m tti (s.pendingSibs m.i) := by
  obtain ⟨hkeep, hat⟩ := foldl_zipIdx_at (f := sibWindow lib) (π := fun s => s.pendingSibs m.i)
    (show (s.dlStart tti).cfg.sibs[m.i]? = some m.sib from hs.message)
    (fun s sib j hj => sibWindow_other s sib hj) (s.dlStart tti)
  obtain ⟨t, ht⟩ : ∃ t, ((s.dlStart tti).cfg.sibs.zipIdx.take m.i).foldl (sibWindow lib)
      (s.dlStart tti) = t := ⟨_, rfl⟩
  obtain ⟨sibs, hframe⟩ := sibWindows_frame lib ((s.dlStart tti).cfg.sibs.zipIdx.take m.i)
    (s.dlStart tti)
  rw [ht] at hkeep hat hframe
  have hround : (sibWindow lib t (m.sib, m.i)).pendingSibs m.i =
      siBooks lib m tti (t.pendingSibs m.i) :=
    sibWindow_books (by rw [hframe]; exact hs.window) (by rw [hframe]; exact ⟨rfl, rfl, rfl⟩)
  unfold bcStart
  rw [hat, hround, hkeep]
  rfl

theorem sibNofTx_eq {s : Sched} (hw : s.cfg.siWindowMs = m.w) : s.sibNofTx m.i = m.nofTx := by
  unfold sibNofTx SiMessage.nofTx
  rw [if_pos m.pos, hw]

theorem sibSched_other (st : Sched × Elems DlSchedBc) (sib : SibCfg) {j : Nat} (hj : j ≠ m.i) :
    siView m (sibSched lib st (sib, j)) = siView m st := by
  obtain ⟨s, out⟩ := st
  obtain ⟨found, t, n, hdci, -⟩ := generateDci_eq lib s
    (s.commonLocations (s.currentCfi - 1)) s.bcAggrLevel fun _ => false
  simp only [sibSched, hdci]
  split_ifs
  · cases found with
    | none => rfl
    | some loc =>
      simp only
      split_ifs
      · simp [siView, setSib, advanceRbg, Elems.push, SiMessage.isSent, hj,
          Function.update_of_ne (Ne.symm hj)]
      · rfl
  · rfl

/-- The turn of the message comes with room for it and with its books due, or leaves both. -/
theorem sibSched_books (lib : Lib) (st : Sched × Elems DlSchedBc) (tti : Nat)
    (hw : st.1.cfg.siWindowMs = m.w)
    (htti : st.1.currentTti = tti ∧ st.1.sfIdx = tti % 10) :
    (m.Due tti (st.1.pendingSibs m.i) ∧ RoomAt st.1 →
      siView m (sibSched lib st (m.sib, m.i)) =
        ({ st.1.pendingSibs m.i with nTx := (st.1.pendingSibs m.i).nTx + 1 }, true)) ∧
    (¬ (m.Due tti (st.1.pendingSibs m.i) ∧ RoomAt st.1) →
      siView m (sibSched lib st (m.sib, m.i)) = siView m st) := by
  obtain ⟨s, out⟩ := st
  obtain ⟨rfl, hsf⟩ := htti
  have hdue : (m.sib.len ≠ 0 ∧ (s.pendingSibs m.i).isInWindow = true ∧
      (s.pendingSibs m.i).nTx < 4 ∧ s.availRbg > s.siNRbg ∧ s.sibDue m.i = true) ↔
      m.Due s.currentTti (s.pendingSibs m.i) ∧ s.siNRbg < s.availRbg := by
    simp only at hw hsf
    simp only [sibDue, SiMessage.Due, sibNofTx_eq hw, hw, hsf, m.pos.ne', m.len, if_false, ne_eq,
      not_false_eq_true, true_and, Bool.and_eq_true, decide_eq_true_eq, gt_iff_lt, ge_iff_le]
    tauto
  have hroom := generateDci_isSome lib s (s.commonLocations (s.currentCfi - 1)) s.bcAggrLevel
    fun _ => false
  obtain ⟨found, t, n, hdci, -⟩ := generateDci_eq lib s
    (s.commonLocations (s.currentCfi - 1)) s.bcAggrLevel fun _ => false
  simp only [hdci, true_and] at hroom
  simp only [RoomAt, ← hroom, ← and_assoc, ← hdue, sibSched, hdci]
  split_ifs with h
  · cases found with
    | none => simp [siView]
    | some loc =>
      have hle := generateFormat1a_le lib (s.startRbg * s.P) (s.siNRbg * s.P) m.sib.len
        (getRvidx (s.pendingSibs m.i).nTx) { out.slot with dciLocation := loc }.dci
      simp only at hle
      simp only
      rw [if_pos (by omega)]
      simp [siView, setSib, advanceRbg, Elems.push, SiMessage.isSent, h]
  · simp [h]

theorem pagingSched_view (paging : Option Nat) (st : Sched × Elems DlSchedBc) :
    siView m (pagingSched lib paging st) = siView m st := by
  obtain ⟨s, out⟩ := st
  obtain ⟨found, t, n, hdci, -⟩ := generateDci_eq lib s
    (s.commonLocations (s.currentCfi - 1)) s.bcAggrLevel fun _ => false
  cases paging with
  | none => rfl
  | some payload =>
    simp only [pagingSched, hdci]
    split_ifs
    · cases found with
      | none => rfl
      | some loc =>
        simp only
        split_ifs
        · simp [siView, advanceRbg, Elems.push, SiMessage.isSent]
        · rfl
    · rfl

theorem rarSched_sibs (st : Sched × Elems DlSchedRar) (i : Nat) :
    (rarSched lib st i).1.pendingSibs = st.1.pendingSibs := by
  obtain ⟨s, out⟩ := st
  obtain ⟨found, t, n, hdci, -⟩ := generateDci_eq lib s
    (s.rarLocations (s.currentCfi - 1) s.sfIdx) s.rarAggrLevel fun _ => false
  simp only [rarSched, hdci]
  split_ifs
  · cases found with
    | none => rfl
    | some loc =>
      obtain ⟨msg3, rars, hkeep, -⟩ := rarGrants_keep lib i (s.pendingRar i).rarTti
        (List.range schedMaxPendingRar)
        ({ s with cce := t, nofRand := n },
          { out.slot with dciLocation := loc, nofGrants := 0, tbs := 0 })
      simp only [hkeep]
      split_ifs <;> rfl
  · rfl
  · rfl

theorem dlSched_sibs (hs : s.configured = true) (tti : Nat) (paging : Option Nat) :
    (s.dlSched lib tti paging).1.pendingSibs = (s.rarStart lib tti paging).pendingSibs := by
  have hrar : (s.dataReady lib tti paging).pendingSibs =
      (s.rarStart lib tti paging).pendingSibs :=
    foldl_keeps (f := rarSched lib) (l := List.range schedMaxPendingRar)
      (π := fun st : Sched × Elems DlSchedRar => st.1.pendingSibs)
      (fun i _ st => rarSched_sibs st i) (s.rarStart lib tti paging, ⟨[], default⟩)
  obtain ⟨⟨_, _, _, _, ⟨_, _, rfl, -⟩, hdata⟩, -⟩ :=
    dlSchedData_spec lib (s.dataReady lib tti paging)
  rw [dlSched_eq lib hs, hdata, ← hrar]

/-- A call opens and closes the window first, and sends the message when its books are due and
there is room at its turn. -/
theorem dlSched_si (lib : Lib) (hs : HasSi m s) (tti : Nat) (paging : Option Nat) {b : SchedSib}
    (hb : siBooks lib m tti (s.pendingSibs m.i) = b) :
    ((s.dlSched lib tti paging).2.bc.any m.isSent = true ↔
      m.Due tti b ∧ RoomAt (s.siTurn lib tti m.i).1) ∧
    (s.dlSched lib tti paging).1.pendingSibs m.i =
      if (s.dlSched lib tti paging).2.bc.any m.isSent then { b with nTx := b.nTx + 1 } else b := by
  have hbc := bcStart_books lib hs tti
  rw [hb] at hbc
  obtain ⟨sibs, hstart⟩ := bcStart_frame lib s tti
  have hmessage : (s.bcStart lib tti).cfg.sibs[m.i]? = some m.sib := by
    rw [hstart]
    exact hs.message
  obtain ⟨hkeep, hat⟩ := foldl_zipIdx_at (f := sibSched lib) (π := siView m) hmessage
    (fun st sib j hj => sibSched_other st sib hj) (s.bcStart lib tti, ⟨[], default⟩)
  obtain ⟨new, hrounds, -⟩ := emits_foldl (sibSched_emits lib)
    ((s.bcStart lib tti).cfg.sibs.zipIdx.take m.i) (s.bcStart lib tti, ⟨[], default⟩)
  obtain ⟨_, _, _, _, _, _, _, hturn⟩ := hrounds.frame
  have hbooks := sibSched_books lib (s.siTurn lib tti m.i) tti (m := m)
    (by unfold siTurn; rw [hturn, hstart]; exact hs.window)
    (by unfold siTurn; rw [hturn, hstart]; exact ⟨rfl, rfl⟩)
  have hview : ((s.dlSched lib tti paging).1.pendingSibs m.i,
      (s.dlSched lib tti paging).2.bc.any m.isSent) =
        siView m (sibSched lib (s.siTurn lib tti m.i) (m.sib, m.i)) := by
    rw [dlSched_sibs hs.configured, dlSched_eq lib hs.configured]
    exact (pagingSched_view paging _).trans hat
  have hst : siView m (s.siTurn lib tti m.i) = (b, false) := by
    rw [← hbc]
    exact hkeep
  rw [show (s.siTurn lib tti m.i).1.pendingSibs m.i = b from congrArg Prod.fst hst, hst,
    ← hview] at hbooks
  by_cases h : m.Due tti b ∧ RoomAt (s.siTurn lib tti m.i).1
  · obtain ⟨hsib, hsent⟩ := Prod.mk.inj (hbooks.1 h)
    simp [hsib, hsent, h]
  · obtain ⟨hsib, hsent⟩ := Prod.mk.inj (hbooks.2 h)
    simp [hsib, hsent, h]

end Sched

/-! ## Runs -/

/-- Calls for consecutive subframes. Between them the scheduler may change, but for the books of the
message. -/
structure SiRun (lib : Lib) (m : SiMessage) where
  start : Nat
  sched : Nat → Sched
  paging : Nat → Option Nat
  hasSi : ∀ n, (sched n).HasSi m
  closed : ((sched 0).pendingSibs m.i).isInWindow = false
  next : ∀ n, (sched (n + 1)).pendingSibs m.i =
    ((sched n).dlSched lib ((start + n) % 10240) (paging n)).1.pendingSibs m.i

namespace SiRun

variable {lib : Lib} {m : SiMessage} (r : SiRun lib m)

def tti (n : Nat) : Nat := (r.start + n) % 10240

def StartsAt (n : Nat) : Prop := m.StartsAt (r.tti n)

/-- The call sends the message. -/
def sent (n : Nat) : Bool :=
  ((r.sched n).dlSched lib (r.tti n) (r.paging n)).2.bc.any m.isSent

/-- There is room for the message at its turn. -/
def HasRoom (n : Nat) : Prop := Sched.RoomAt ((r.sched n).siTurn lib (r.tti n) m.i).1

/-- The transmissions in the calls from `n` up to `n'`. -/
def sentIn (n n' : Nat) : Nat := ((Finset.Ico n n').filter fun k => r.sent k = true).card

/-- Call `k` is in the SI period that starts at call `n`. -/
def InPeriod (n k : Nat) : Prop := r.StartsAt n ∧ n ≤ k ∧ ∀ j, n < j → j ≤ k → ¬ r.StartsAt j

/-- In each SI period the message is sent, no more often than its number, in the window that the
period starts with, and for the `k`-th time not before the share of those before is over. -/
structure Served : Prop where
  once : ∀ n, r.StartsAt n → ∃ k, r.InPeriod n k ∧ k < n + m.w ∧ r.sent k = true
  often : ∀ n k, r.InPeriod n k → r.sentIn n (k + 1) ≤ m.nofTx
  inside : ∀ k, r.sent k = true →
    ∃ n, r.InPeriod n k ∧ k < n + m.w ∧ n + r.sentIn n k * (m.w / m.nofTx) ≤ k

/-- The window that starts at call `n` has a subframe 9 in its first frame, and the code finds its
window closed, or one that stays open until then. -/
def Reached (n : Nat) : Prop :=
  let b := (r.sched n).pendingSibs m.i
  9 - m.subframe < m.w ∧
    (b.isInWindow = true → lib.ttiInterval (r.tti n) b.windowStart + (9 - m.subframe) ≤ m.w)

variable {r}

/-- What the code relies on in `srslte_tti_interval`. -/
def IntervalRule (lib : Lib) : Prop :=
  ∀ t t', t < 10240 → t' < 10240 → t ≠ t' → lib.ttiInterval t t' = (t + 10240 - t') % 10240

/-- The window starts, and the code opens it. -/
def Opens (r : SiRun lib m) (n : Nat) : Prop :=
  r.StartsAt n ∧ ((r.sched n).pendingSibs m.i).isInWindow = false

/-- The window opened at call `n0` is open before call `n`, -/
def Opened (r : SiRun lib m) (n n0 : Nat) : Prop := r.Opens n0 ∧ n0 < n ∧ n ≤ n0 + m.w + 1

/-- and after its first loop. -/
def Covers (r : SiRun lib m) (n n0 : Nat) : Prop := r.Opens n0 ∧ n0 ≤ n ∧ n ≤ n0 + m.w

/-- The books `b` at call `n`, with the windows in `opened`. -/
structure BooksAt (r : SiRun lib m) (opened : Nat → Prop) (n : Nat) (b : SchedSib) : Prop where
  inWindow : b.isInWindow = true ↔ ∃ n0, opened n0
  start : ∀ n0, opened n0 → b.windowStart = r.tti n0
  nTx : ∀ n0, opened n0 → b.nTx = r.sentIn n0 n

variable {n n0 n1 k : Nat} {b : SchedSib}

/-! ### The clock -/

theorem tti_lt : r.tti n < 10240 := Nat.mod_lt _ (by omega)

theorem StartsAt.subframe (h : r.StartsAt n0) (hn : n0 ≤ n) :
    r.tti n % 10 = (m.subframe + (n - n0)) % 10 := by
  have hsub := h.2
  unfold tti at *
  omega

theorem StartsAt.frames_apart (h : r.StartsAt n0) (h1 : r.StartsAt n1) (hlt : n0 < n1) :
    (n1 - n0) % 10 = 0 := by
  have hsub := h.subframe hlt.le
  have hsub1 : r.tti n1 % 10 = m.subframe := h1.2
  have hlast := m.subframe_lt
  omega

theorem interval_eq (hlib : IntervalRule lib) (hlt : n0 < n) (hle : n ≤ n0 + m.w + 1) :
    lib.ttiInterval (r.tti n) (r.tti n0) = n - n0 := by
  have hw := m.window_le
  rw [hlib _ _ tti_lt tti_lt (by unfold tti; omega)]
  unfold tti
  omega

/-- The unsigned difference is the true one, or wraps and is much larger. -/
theorem le_nSf (hle : n0 ≤ n) (hn : n ≤ n0 + m.w) :
    n - n0 ≤ u32 (r.tti n + 2 ^ 32 - r.tti n0) := by
  have hw := m.window_le
  unfold tti u32
  omega

/-! ### Counting -/

theorem sentIn_succ (hle : n0 ≤ n) :
    r.sentIn n0 (n + 1) = r.sentIn n0 n + (r.sent n).toNat := by
  unfold sentIn
  rw [← Nat.succ_eq_add_one, Nat.Ico_succ_right_eq_insert_Ico hle, Finset.filter_insert]
  cases h : r.sent n with
  | true => simp
  | false => simp

theorem sent_nine (h : r.sent n = true) : r.tti n % 10 = 9 := by
  obtain ⟨hsent, -⟩ := Sched.dlSched_si lib (r.hasSi n) (r.tti n) (r.paging n) rfl
  exact (hsent.mp h).1.2.2.1

theorem sentIn_le (hs : r.StartsAt n0) (hle : n0 ≤ n) :
    10 * r.sentIn n0 n ≤ m.subframe + (n - n0) := by
  induction n, hle using Nat.le_induction with
  | base => simp [sentIn]
  | succ n hle ih =>
    rw [sentIn_succ hle]
    cases hsent : r.sent n with
    | false =>
      rw [Bool.toNat_false]
      omega
    | true =>
      have h9 := sent_nine hsent
      have hsub := hs.subframe hle
      rw [Bool.toNat_true]
      omega

/-! ### One call -/

theorem BooksAt.closed {opened : Nat → Prop} (hno : ∀ n0, ¬ opened n0)
    (hb : ¬ b.isInWindow = true) : r.BooksAt opened n b where
  inWindow := ⟨fun h => absurd h hb, fun ⟨n0, h⟩ => absurd h (hno n0)⟩
  start n0 h := absurd h (hno n0)
  nTx n0 h := absurd h (hno n0)

/-- The first loop, when no window was opened again before. -/
theorem BooksAt.siBooks (hlib : IntervalRule lib) (hb : (r.sched n).pendingSibs m.i = b)
    (hapart : ∀ n0 n1, n0 < n1 → n1 ≤ n → r.Opens n0 → r.Opens n1 → n0 + m.w + 1 < n1)
    (h : r.BooksAt (r.Opened n) n b) :
    r.BooksAt (r.Covers n) n (Sched.siBooks lib m (r.tti n) b) := by
  by_cases hopen : ∃ n0, r.Opened n n0
  · have hin := h.inWindow.mpr hopen
    obtain ⟨n0, hs, hlt, hle⟩ := hopen
    have hn0 : r.Opened n n0 := ⟨hs, hlt, hle⟩
    have hsame : ∀ n1, r.Covers n n1 → n1 = n0 := by
      rintro n1 ⟨hs1, hle1, hn1⟩
      rcases Nat.lt_trichotomy n0 n1 with hlt1 | heq | hlt1
      · have := hapart n0 n1 hlt1 hle1 hs hs1
        omega
      · exact heq.symm
      · have := hapart n1 n0 hlt1 hlt.le hs1 hs
        omega
    unfold Sched.siBooks
    rw [if_pos hin, h.start n0 hn0, interval_eq hlib hlt hle]
    split_ifs with hover
    · refine .closed (fun n1 hn1 => ?_) Bool.false_ne_true
      obtain rfl := hsame n1 hn1
      have := hn1.2.2
      omega
    · have hcovers : r.Covers n n0 := ⟨hs, hlt.le, by omega⟩
      refine ⟨⟨fun _ => ⟨n0, hcovers⟩, fun _ => hin⟩, fun n1 hn1 => ?_, fun n1 hn1 => ?_⟩
      · exact hsame n1 hn1 ▸ h.start n0 hn0
      · exact hsame n1 hn1 ▸ h.nTx n0 hn0
  · have hout : ¬ b.isInWindow = true := fun hin => hopen (h.inWindow.mp hin)
    have hnow : ∀ n1, r.Covers n n1 → n1 = n := by
      rintro n1 ⟨hs1, hle1, hn1⟩
      by_contra hne
      exact hopen ⟨n1, hs1, by omega, by omega⟩
    unfold Sched.siBooks
    rw [if_neg hout]
    split_ifs with hs
    · have hopens : r.Opens n := ⟨hs, by rw [hb]; simpa using hout⟩
      refine ⟨⟨fun _ => ⟨n, hopens, le_rfl, by omega⟩, fun _ => rfl⟩, fun n1 hn1 => ?_,
        fun n1 hn1 => ?_⟩
      · rw [hnow n1 hn1]
      · rw [hnow n1 hn1]
        simp [sentIn]
    · exact .closed (fun n1 hn1 => hs (hnow n1 hn1 ▸ hn1.1.1)) hout

/-- The books are due in each subframe 9 of an open window: fewer have passed than its
transmissions, and the share of each is no longer than a frame. -/
theorem BooksAt.due_iff (h : r.BooksAt (r.Covers n) n b) :
    m.Due (r.tti n) b ↔ r.tti n % 10 = 9 ∧ ∃ n0, r.Covers n n0 := by
  unfold SiMessage.Due
  rw [h.inWindow]
  constructor
  · rintro ⟨hopen, -, h9, -⟩
    exact ⟨h9, hopen⟩
  · rintro ⟨h9, n0, hn0⟩
    obtain ⟨hs, hle, hn⟩ := hn0
    have hsub := hs.1.subframe hle
    have hframes := sentIn_le hs.1 hle
    rw [← h.nTx n0 ⟨hs, hle, hn⟩] at hframes
    have hlt := m.subframe_add_lt
    have hlast := m.subframe_lt
    refine ⟨⟨n0, hs, hle, hn⟩, by omega, h9, ?_⟩
    rw [h.start n0 ⟨hs, hle, hn⟩]
    calc m.w / m.nofTx * b.nTx ≤ 10 * b.nTx := Nat.mul_le_mul_right _ m.share_le
      _ ≤ n - n0 := by omega
      _ ≤ _ := le_nSf hle hn

theorem BooksAt.next (h : r.BooksAt (r.Covers n) n b) :
    r.BooksAt (r.Opened (n + 1)) (n + 1) (if r.sent n then { b with nTx := b.nTx + 1 } else b) := by
  have hopened : ∀ n0, r.Opened (n + 1) n0 ↔ r.Covers n n0 := by
    intro n0
    exact and_congr_right fun _ => by omega
  cases hsent : r.sent n with
  | false =>
    refine ⟨by simpa [hopened] using h.inWindow, fun n0 hn0 => ?_, fun n0 hn0 => ?_⟩ <;>
      rw [hopened] at hn0
    · exact h.start n0 hn0
    · rw [sentIn_succ hn0.2.1, hsent]
      exact h.nTx n0 hn0
  | true =>
    refine ⟨by simpa [hopened] using h.inWindow, fun n0 hn0 => ?_, fun n0 hn0 => ?_⟩ <;>
      rw [hopened] at hn0
    · exact h.start n0 hn0
    · rw [sentIn_succ hn0.2.1, hsent, ← h.nTx n0 hn0]
      rfl

/-- A window that is open is not opened again, in the subframe that closes it neither. -/
theorem Opens.apart (hbooks : r.BooksAt (r.Opened n1) n1 ((r.sched n1).pendingSibs m.i))
    (h : r.Opens n0) (h1 : r.Opens n1) (hlt : n0 < n1) : n0 + m.w + 1 < n1 := by
  by_contra hnear
  have hin := hbooks.inWindow.mpr ⟨n0, h, hlt, by omega⟩
  rw [h1.2] at hin
  cases hin

/-! ### A run -/

theorem books (hlib : IntervalRule lib) (n : Nat) :
    r.BooksAt (r.Opened n) n ((r.sched n).pendingSibs m.i) := by
  induction n using Nat.strongRecOn with
  | ind n ih =>
    cases n with
    | zero =>
      refine .closed (fun n0 hn0 => absurd hn0.2.1 (Nat.not_lt_zero n0)) ?_
      rw [r.closed]
      exact Bool.false_ne_true
    | succ n =>
      have hfirst := (ih n (Nat.lt_succ_self n)).siBooks hlib rfl fun n0 n1 hlt hle h h1 =>
        Opens.apart (ih n1 (Nat.lt_succ_of_le hle)) h h1 hlt
      obtain ⟨-, hnext⟩ := Sched.dlSched_si lib (r.hasSi n) (r.tti n) (r.paging n) rfl
      rw [r.next, show (r.start + n) % 10240 = r.tti n from rfl, hnext]
      exact hfirst.next

/-- The message is sent in each subframe 9 of an open window in which there is room. -/
theorem sent_iff (hlib : IntervalRule lib) (n : Nat) :
    r.sent n = true ↔ (r.tti n % 10 = 9 ∧ ∃ n0, r.Covers n n0) ∧ r.HasRoom n := by
  have hfirst := (books (r := r) hlib n).siBooks hlib rfl fun n0 n1 hlt _ h h1 =>
    Opens.apart (books hlib n1) h h1 hlt
  rw [← hfirst.due_iff]
  exact (Sched.dlSched_si lib (r.hasSi n) (r.tti n) (r.paging n) rfl).1

/-- The window that covers a subframe is open when the period of the subframe starts. -/
theorem Covers.of_period (hlib : IntervalRule lib) (h : r.Covers k n0) (hp : r.InPeriod n k)
    (hn1 : r.Opened n n1) : n0 = n1 := by
  obtain ⟨hs, hle, hlt⟩ := h
  obtain ⟨hs1, hlt1, hle1⟩ := hn1
  have hn : n0 ≤ n := by
    by_contra hlate
    exact hp.2.2 n0 (by omega) hle hs.1
  have hk := hp.2.1
  rcases Nat.lt_trichotomy n0 n1 with h01 | heq | h10
  · have := Opens.apart (books hlib n1) hs hs1 h01
    omega
  · exact heq
  · have := Opens.apart (books hlib n0) hs1 hs h10
    omega

theorem StartsAt.inPeriod (h : r.StartsAt n) : r.InPeriod n (n + (9 - m.subframe)) := by
  refine ⟨h, Nat.le_add_right n _, fun j hlt hle hj => ?_⟩
  have := h.frames_apart hj hlt
  omega

theorem exists_inPeriod (h : r.StartsAt n0) (hle : n0 ≤ k) : ∃ n, n0 ≤ n ∧ r.InPeriod n k := by
  induction k, hle using Nat.le_induction with
  | base => exact ⟨n0, le_rfl, h, le_rfl, fun j hlt hle => absurd hle (by omega)⟩
  | succ k hle ih =>
    by_cases hk : r.StartsAt (k + 1)
    · exact ⟨k + 1, by omega, hk, le_rfl, fun j hlt hle => absurd hle (by omega)⟩
    · obtain ⟨n, hn, hs, hnk, hno⟩ := ih
      refine ⟨n, hn, hs, by omega, fun j hlt hj => ?_⟩
      rcases Nat.lt_or_eq_of_le hj with hj | rfl
      · exact hno j hlt (by omega)
      · exact hk

/-! ### The windows -/

theorem sent_of_reached (hlib : IntervalRule lib) (hs : r.StartsAt n) (h : r.Reached n)
    (hroom : r.HasRoom (n + (9 - m.subframe))) : r.sent (n + (9 - m.subframe)) = true := by
  have hlast := m.subframe_lt
  have hsub := hs.subframe (Nat.le_add_right n (9 - m.subframe))
  obtain ⟨h9, hopen⟩ := h
  refine (sent_iff hlib _).mpr ⟨⟨by omega, ?_⟩, hroom⟩
  have hbooks := books (r := r) hlib n
  cases hin : ((r.sched n).pendingSibs m.i).isInWindow with
  | false => exact ⟨n, ⟨hs, hin⟩, by omega, by omega⟩
  | true =>
    obtain ⟨n0, hn0⟩ := hbooks.inWindow.mp hin
    have hopen := hopen hin
    rw [hbooks.start n0 hn0, interval_eq hlib hn0.2.1 hn0.2.2] at hopen
    have hlt := hn0.2.1
    exact ⟨n0, hn0.1, by omega, by omega⟩

theorem reached_of_sent (hlib : IntervalRule lib) (hp : r.InPeriod n k) (hk : k < n + m.w)
    (hsent : r.sent k = true) : r.Reached n := by
  obtain ⟨⟨hk9, n0, hn0⟩, -⟩ := (sent_iff hlib k).mp hsent
  have hnk := hp.2.1
  have hsub := hp.1.subframe hnk
  refine ⟨by omega, fun hin => ?_⟩
  have hbooks := books (r := r) hlib n
  obtain ⟨n1, hn1⟩ := hbooks.inWindow.mp hin
  obtain rfl := hn0.of_period hlib hp hn1
  rw [hbooks.start n0 hn1, interval_eq hlib hn1.2.1 hn1.2.2]
  have hle := hn0.2.2
  have hlt := hn1.2.1
  omega

/-- In the subframe right after a window, where it is still open, nothing is sent. -/
theorem sent_inside (hlib : IntervalRule lib) (hreached : ∀ n, r.StartsAt n → r.Reached n)
    (hsent : r.sent k = true) : ∃ n, r.InPeriod n k ∧ k < n + m.w := by
  obtain ⟨⟨hk9, n0, hs, hle, hn⟩, -⟩ := (sent_iff hlib k).mp hsent
  have hsub := hs.1.subframe hle
  have hne := m.subframe_add_ne (hreached n0 hs.1).1
  have hlt : k < n0 + m.w := by
    rcases Nat.lt_or_eq_of_le hn with hlt | rfl
    · exact hlt
    · rw [Nat.add_sub_cancel_left] at hsub
      omega
  obtain ⟨n, hge, hp⟩ := exists_inPeriod hs.1 hle
  exact ⟨n, hp, by omega⟩

/-- **Every SI window is served**, in a run where there is room for the message, if and only if
each window is reached. -/
theorem served_iff (lib : Lib) (hlib : IntervalRule lib) (m : SiMessage) (r : SiRun lib m)
    (hroom : ∀ n, r.HasRoom n) : r.Served ↔ ∀ n, r.StartsAt n → r.Reached n := by
  constructor
  · intro h n hs
    obtain ⟨k, hp, hk, hsent⟩ := h.once n hs
    exact reached_of_sent hlib hp hk hsent
  · intro hreached
    refine ⟨fun n hs => ?_, fun n k hp => ?_, fun k hsent => ?_⟩
    · have h9 := (hreached n hs).1
      exact ⟨_, hs.inPeriod, by omega, sent_of_reached hlib hs (hreached n hs) (hroom _)⟩
    · -- Of the period, only the subframes of the window count.
      have hmono : r.sentIn n (k + 1) ≤ r.sentIn n (n + m.w) := by
        refine Finset.card_le_card fun j hj => ?_
        obtain ⟨hj, hsent⟩ := Finset.mem_filter.mp hj
        obtain ⟨hle, hlt⟩ := Finset.mem_Ico.mp hj
        obtain ⟨n1, hp1, hj1⟩ := sent_inside hlib hreached hsent
        have hn1 : n1 ≤ n := by
          by_contra hlate
          exact hp.2.2 n1 (by omega) (by have := hp1.2.1; omega) hp1.1
        exact Finset.mem_filter.mpr ⟨Finset.mem_Ico.mpr ⟨hle, by omega⟩, hsent⟩
      have hwindow := sentIn_le hp.1 (Nat.le_add_right n m.w)
      have hsize := m.subframe_add_le
      omega
    · obtain ⟨n, hp, hk⟩ := sent_inside hlib hreached hsent
      have h9 := sent_nine hsent
      have hsub := hp.1.subframe hp.2.1
      have hframes := sentIn_le hp.1 hp.2.1
      have hshare := Nat.mul_le_mul_left (r.sentIn n k) m.share_le
      have hlast := m.subframe_lt
      have hle := hp.2.1
      exact ⟨n, hp, hk, by omega⟩

/-! ## The first message alone -/

/-- The one SIB is message 1, with a window in each eighth frame and the books `b`. -/
def loneSched (w : Nat) (b : SchedSib) : Sched :=
  { Sched.exampleSched with
    cfg := { Sched.exampleCell with sibs := [{}, { len := 10, periodRf := 8 }], siWindowMs := w }
    pendingSibs := Function.update (fun _ => {}) 1 b }

def loneMessage (w : Nat) (hw : w ∈ [1, 2, 5, 10, 15, 20, 40]) : SiMessage where
  i := 1
  w := w
  sib := { len := 10, periodRf := 8 }
  pos := Nat.one_pos
  len := by decide
  window := hw
  period := by simp

/-- The books after call `n`. -/
def loneStep (w n : Nat) (b : SchedSib) : SchedSib :=
  ((loneSched w b).dlSched exampleLib ((0 + n) % 10240) none).1.pendingSibs 1

/-- The books before call `n`, from TTI 0 on. -/
def loneBooks (w : Nat) : Nat → SchedSib
  | 0 => {}
  | n + 1 => loneStep w n (loneBooks w n)

theorem loneSched_books (w : Nat) (b : SchedSib) : (loneSched w b).pendingSibs 1 = b := by
  simp [loneSched]

def loneRun (w : Nat) (hw : w ∈ [1, 2, 5, 10, 15, 20, 40]) :
    SiRun exampleLib (loneMessage w hw) where
  start := 0
  sched n := loneSched w (loneBooks w n)
  paging _ := none
  hasSi n := ⟨rfl, rfl, rfl⟩
  closed := by
    rw [show (loneMessage w hw).i = 1 from rfl, loneSched_books]
    rfl
  next n := by
    rw [show (loneMessage w hw).i = 1 from rfl, loneSched_books, loneBooks, loneStep]

theorem exampleLib_interval : IntervalRule exampleLib := by
  intro t t' ht ht' hne
  simp only [exampleLib]
  split_ifs <;> omega

theorem loneRun_hasRoom (w : Nat) (hw : w ∈ [1, 2, 5, 10, 15, 20, 40]) (n : Nat) :
    (loneRun w hw).HasRoom n := by
  obtain ⟨sibs, hstart⟩ := Sched.bcStart_frame exampleLib (loneSched w (loneBooks w n))
    ((0 + n) % 10240)
  have hturn : ((loneSched w (loneBooks w n)).siTurn exampleLib ((0 + n) % 10240) 1).1 =
      { (loneSched w (loneBooks w n)).dlStart ((0 + n) % 10240) with pendingSibs := sibs } := by
    unfold Sched.siTurn
    rw [hstart]
    rfl
  have hfree : ∀ ncce L, ((loneSched w (loneBooks w n)).dlStart
      ((0 + n) % 10240)).cce.firstUsed ncce L = none := by
    intro ncce L
    unfold CceTable.firstUsed
    rw [List.find?_eq_none]
    intro cce _
    simp only [Sched.dlStart]
    split_ifs <;> exact Bool.false_ne_true
  show Sched.RoomAt ((loneSched w (loneBooks w n)).siTurn exampleLib ((0 + n) % 10240) 1).1
  rw [hturn]
  exact ⟨show 4 < 6 by decide, 0, show 0 < 4 by decide, hfree _ _⟩

theorem loneRun_served :
    (loneRun 20 (by decide)).Served := by
  refine (served_iff exampleLib exampleLib_interval (loneMessage 20 (by decide))
    (loneRun 20 (by decide)) (loneRun_hasRoom 20 (by decide))).mpr fun n hs => ?_
  refine ⟨by decide, fun hin => ?_⟩
  -- Window starts are 80 subframes apart, and every window is over by then.
  obtain ⟨n0, hn0⟩ := (books (r := loneRun 20 (by decide)) exampleLib_interval n).inWindow.mp hin
  obtain ⟨⟨hs0, -⟩, hlt, hle⟩ := hn0
  have htti : (0 + n) % 10240 / 10 % 8 = 0 ∧ (0 + n) % 10240 % 10 = 0 := hs
  have htti0 : (0 + n0) % 10240 / 10 % 8 = 0 ∧ (0 + n0) % 10240 % 10 = 0 := hs0
  have hle : n ≤ n0 + 20 + 1 := hle
  omega

/-- The window of 1 ms has no subframe 9, and the message is never sent. -/
theorem not_served_oneMs : ¬ ∀ lib, IntervalRule lib → ∀ (m : SiMessage) (r : SiRun lib m),
    (∀ n, r.HasRoom n) → r.Served := by
  intro h
  have hserved := h exampleLib exampleLib_interval _ (loneRun 1 (by decide))
    (loneRun_hasRoom 1 (by decide))
  have hs : (loneRun 1 (by decide)).StartsAt 0 := ⟨rfl, rfl⟩
  obtain ⟨k, hp, hk, hsent⟩ := hserved.once 0 hs
  exact absurd (reached_of_sent exampleLib_interval hp hk hsent).1 (by decide)

end SiRun

end Srsenb.Mac
