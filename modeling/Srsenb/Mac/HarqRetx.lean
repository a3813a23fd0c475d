import Mathlib.Data.List.Basic
import Srsenb.Base.Run
import Srsenb.Mac.DlMetricSpec

/-! # Pending retransmissions

The metric picks a process by `has_pending_retx`, and the grant is made by `is_empty`. The first
reads the acknowledgement and the counter, the second the flag that `set_ack` clears. -/

open Srsenb.Run

namespace Srsenb.Mac

/-- The calls that change a downlink process. -/
inductive HarqEvent
  | newTx (tb : Fin 2) (tti : Nat) (mcs tbs : Int) (nCce : Nat)
  | newRetx (tb : Fin 2) (tti : Nat)
  | setAck (tb : Fin 2) (ack : Bool)
  | reset (tb : Fin 2)
  deriving DecidableEq

def HarqEvent.tb : HarqEvent → Fin 2
  | newTx tb _ _ _ _ | newRetx tb _ | setAck tb _ | reset tb => tb

namespace DlHarqProc

/-- A process after `sched_ue::reset` and `config`. -/
def init (id maxRetx : Nat) : DlHarqProc :=
  { toHarqProc := HarqProc.config ((({} : HarqProc).reset 0).reset 1) id maxRetx }

def step (h : DlHarqProc) : HarqEvent → DlHarqProc
  | .newTx tb tti mcs tbs nCce => h.newTx tb tti mcs tbs nCce
  | .newRetx tb tti => (h.newRetx tb tti).1
  | .setAck tb ack => h.setAck tb ack
  | .reset tb => h.reset tb

/-- A pending retransmission is one of a transport block that is not empty. -/
def PendingLive (lib : Lib) (h : DlHarqProc) : Prop :=
  ∀ tb tti, h.hasPendingRetx tb lib tti = true → h.isEmpty tb = false

/-- What the step finds: a NACK comes to an active transport block before the last but one
transmission, or after `max_retx`; and the counter of a dropped one does not wrap around. -/
def AckInTime (h : DlHarqProc) : HarqEvent → Prop
  | .setAck tb false => (h.tb tb).nRtx < h.maxRetx →
      (h.tb tb).active = true ∧ u32 ((h.tb tb).nRtx + 1) < h.maxRetx
  | .newRetx tb _ => (h.tb tb).ack = false → (h.tb tb).active = false →
      h.maxRetx ≤ u32 ((h.tb tb).nRtx + 1)
  | _ => True

instance (h : DlHarqProc) : ∀ e : HarqEvent, Decidable (AckInTime h e)
  | .setAck _ false => inferInstanceAs (Decidable (_ → _ ∧ _))
  | .newRetx _ _ => inferInstanceAs (Decidable (_ → _ → _ ≤ _))
  | .setAck _ true | .newTx .. | .reset _ => .isTrue trivial

/-- While transport block 1 waits for a retransmission, block 0 is not empty. -/
def TbZeroFirst (lib : Lib) (h : DlHarqProc) : Prop :=
  (∃ tti, h.hasPendingRetx 1 lib tti = true) → h.isEmpty 0 = false

/-! ## One process -/

/-- The law of one transport block, without the TTI. -/
def Live (h : DlHarqProc) (tb : Fin 2) : Prop :=
  (h.tb tb).ack = false → (h.tb tb).nRtx < h.maxRetx → (h.tb tb).active = true

variable {lib : Lib} {h : DlHarqProc} {tb : Fin 2}

theorem hasPendingRetx_iff {tti : Nat} : h.hasPendingRetx tb lib tti = true ↔
    8 ≤ lib.ttiInterval tti h.tti ∧ (h.tb tb).ack = false ∧ (h.tb tb).nRtx < h.maxRetx := by
  simp [hasPendingRetx, HarqProc.hasPendingRetxCommon, harqDelayMs]

theorem isEmpty_eq_false_iff : h.isEmpty tb = false ↔
    (h.tb tb).active = true ∧ ((h.tb tb).ack = true → (h.tb tb).ackReceived = false) := by
  unfold HarqProc.isEmpty
  cases (h.tb tb).active <;> cases (h.tb tb).ack <;> simp

theorem pendingLive_iff (hfar : ∀ t, ∃ t', 8 ≤ lib.ttiInterval t' t) :
    PendingLive lib h ↔ ∀ tb, Live h tb := by
  constructor
  · intro hp tb hack hn
    obtain ⟨t', ht⟩ := hfar h.tti
    exact (isEmpty_eq_false_iff.mp (hp tb t' (hasPendingRetx_iff.mpr ⟨ht, hack, hn⟩))).1
  · intro hl tb tti hp
    obtain ⟨-, hack, hn⟩ := hasPendingRetx_iff.mp hp
    refine isEmpty_eq_false_iff.mpr ⟨hl tb hack hn, ?_⟩
    rw [hack]
    exact fun hc => absurd hc (by decide)

theorem step_maxRetx (e : HarqEvent) : (step h e).maxRetx = h.maxRetx := by
  cases e <;> rfl

theorem step_tb_ne (e : HarqEvent) (hne : tb ≠ e.tb) : (step h e).tb tb = h.tb tb := by
  cases e with
  | newTx i tti mcs tbs nCce =>
    exact (Function.update_of_ne hne _ _).trans (Function.update_of_ne hne _ _)
  | newRetx i tti => exact Function.update_of_ne hne _ _
  | setAck i ack => exact Function.update_of_ne hne _ _
  | reset i => exact Function.update_of_ne hne _ _

/-- The transport block of the event is live afterwards exactly when the step is in time. -/
theorem live_step_iff (e : HarqEvent) : Live (step h e) e.tb ↔ AckInTime h e := by
  unfold Live
  rw [step_maxRetx]
  cases e with
  | newTx i tti mcs tbs nCce =>
    simp [step, newTx, HarqProc.newTxCommon, HarqProc.setTb, HarqProc.reset, AckInTime,
      HarqEvent.tb]
  | newRetx i tti =>
    simp only [step, newRetx, HarqProc.newRetx, HarqProc.setTb, AckInTime, HarqEvent.tb,
      Function.update_self]
    cases (h.tb i).active <;> simp
  | setAck i ack =>
    cases ack with
    | true => simp [step, setAck, HarqProc.setAck, HarqProc.setTb, AckInTime, HarqEvent.tb]
    | false =>
      simp only [step, setAck, HarqProc.setAck, HarqProc.setTb, AckInTime, HarqEvent.tb,
        Function.update_self, forall_const]
      refine imp_congr_right fun _ => ?_
      split_ifs with hmax
      · simp only [false_iff]
        omega
      · exact ⟨fun ha => ⟨ha, by omega⟩, fun ha => ha.1⟩
  | reset i => simp [step, reset, HarqProc.reset, HarqProc.setTb, AckInTime, HarqEvent.tb]

theorem live_step (hl : ∀ tb, Live h tb) (e : HarqEvent) :
    (∀ tb, Live (step h e) tb) ↔ AckInTime h e := by
  rw [← live_step_iff]
  constructor
  · exact fun hs => hs e.tb
  · intro hs tb
    by_cases hne : tb = e.tb
    · exact hne ▸ hs
    · unfold Live
      rw [step_tb_ne e hne, step_maxRetx]
      exact hl tb

theorem live_init (id maxRetx : Nat) : ∀ tb, Live (init id maxRetx) tb := by
  intro tb
  match tb with
  | 0 | 1 => simp [Live, init, HarqProc.config, HarqProc.reset, HarqProc.setTb]

theorem allStates_live_iff {es : List HarqEvent} (hl : ∀ tb, Live h tb) :
    AllStates step (fun h => ∀ tb, Live h tb) h es ↔ AllSteps step AckInTime h es := by
  have hrun : AllSteps step AckInTime h es ↔
      AllSteps step (fun _ _ => True) h es ∧ AllStates step (fun h => ∀ tb, Live h tb) h es :=
    allSteps_iff (fun _ _ => True)
      (fun s e _ _ hI hC => ⟨trivial, (live_step hI e).mpr hC, trivial⟩)
      (fun s e _ _ hI hC _ hI' => hC ((live_step hI e).mp hI')) trivial hl
  rw [hrun]
  exact ⟨fun h => ⟨AllSteps.trivial _ _, h⟩, fun h => h.2⟩

end DlHarqProc

/-! ## The metric and the grant -/

namespace SchedUe

variable {lib : Lib} {u u' : SchedUe} {pid : Pid} {data : DlSchedData} {tti cfi : Nat}

/-- `generate_format1` retransmits transport block 0: the TBS and the MCS are the stored ones. -/
def Resent (lib : Lib) (u : SchedUe) (pid : Pid) (data : DlSchedData) (tti cfi : Nat) : Prop :=
  let r := u.generateFormat1 lib pid data tti cfi
  let h := u.dlHarq pid
  r.1.dlHarq pid = (h.newRetx 0 tti).1 ∧ r.2.2 = (h.tb 0).lastTbs ∧
    (0 < r.2.2 → r.2.1.tbs 0 = (h.tb 0).lastTbs.toNat ∧
      r.2.1.dci.mcsIdx 0 = toU32 (h.tb 0).lastMcs)

theorem generateFormat1_retx (hne : (u.dlHarq pid).isEmpty 0 = false) :
    Resent lib u pid data tti cfi := by
  simp only [Resent, generateFormat1, hne, Bool.false_eq_true, if_false]
  split_ifs with htbs
  · refine ⟨setDl_dlHarq _, rfl, fun _ => ⟨?_, ?_⟩⟩ <;>
      simp [DlHarqProc.newRetx, HarqProc.newRetx]
  · exact ⟨setDl_dlHarq _, rfl, fun h => absurd h htbs⟩

theorem generateFormat1_new (lib : Lib) (data : DlSchedData) (tti cfi : Nat)
    (he : (u.dlHarq pid).isEmpty 0 = true) :
    ∃ mcs tbs, (u.generateFormat1 lib pid data tti cfi).1.dlHarq pid =
      (u.dlHarq pid).newTx 0 tti mcs tbs data.dciLocation.ncce := by
  simp only [generateFormat1, he, if_true]
  split_ifs <;> exact ⟨_, _, setDl_dlHarq _⟩

/-- A new transport block toggles the indicator, so it is never taken for a retransmission. -/
theorem resent_iff : Resent lib u pid data tti cfi ↔ (u.dlHarq pid).isEmpty 0 = false := by
  refine ⟨fun hr => ?_, generateFormat1_retx⟩
  by_contra he
  obtain ⟨mcs, tbs, hnew⟩ := generateFormat1_new lib data tti cfi
    (Bool.not_eq_false _ ▸ he)
  have hndi := congrArg (fun h : DlHarqProc => (h.tb 0).ndi) (hnew.symm.trans hr.1)
  simp [DlHarqProc.newTx, DlHarqProc.newRetx, HarqProc.newTxCommon, HarqProc.newRetx,
    HarqProc.setTb, HarqProc.reset] at hndi

end SchedUe

namespace DlHarqProc

/-- Whenever the metric returns the process while it has a pending retransmission, the grant of
`generate_format1` retransmits. -/
def Resends (lib : Lib) (h : DlHarqProc) : Prop :=
  ∀ (m m' : DlMetric) (u u' : SchedUe) (pid : Pid) (data : DlSchedData) (cfi : Nat),
    u.dlHarq pid = h →
    (h.hasPendingRetx 0 lib m.currentTti = true ∨ h.hasPendingRetx 1 lib m.currentTti = true) →
    m.applyUserAllocation lib u = some (pid, m', u') →
    u'.Resent lib pid data m.currentTti cfi

/-- A user whose first process is `h`, the others being as the constructor leaves them. -/
def userOf (h : DlHarqProc) : SchedUe where
  rnti := 70
  cell := ⟨6, 1, 7⟩
  P := 1
  dciLocations _ _ := ⟨fun _ _ => 0, fun _ => 0⟩
  dlHarq := Function.update (fun _ => {}) 0 h
  ulHarq _ := {}

variable {lib : Lib} {h : DlHarqProc}

theorem userOf_pending {tti : Nat} (hp : h.hasPendingRetx 1 lib tti = true) :
    (userOf h).getPendingDlHarq lib tti = some 0 := by
  have hx := (hasPendingRetx_iff.mp hp).1
  have hother : ∀ b (i : Pid), i ≠ 0 → (userOf h).older lib tti b i = b := by
    intro b i hi
    simp [SchedUe.older, userOf, hi, hasPendingRetx, HarqProc.hasPendingRetxCommon]
  have hfirst : (userOf h).older lib tti (none, 0) 0 = (some 0, lib.ttiInterval tti h.tti) := by
    simp only [SchedUe.older, userOf, Function.update_self, hp, Bool.or_true, if_true]
    rw [if_pos (by omega)]
  rw [SchedUe.getPendingDlHarq, List.finRange_succ, List.foldl_cons, hfirst, List.foldl_map,
    List.foldl_fixed' fun i => hother _ i.succ (Fin.succ_ne_zero i)]

theorem resends_iff (hl : PendingLive lib h) : Resends lib h ↔ TbZeroFirst lib h := by
  constructor
  · rintro hr ⟨tti, hp⟩
    have hu : (userOf h).dlHarq 0 = h := by simp [userOf]
    have happly : ({ currentTti := tti } : DlMetric).applyUserAllocation lib (userOf h) =
        some (0, ({ currentTti := tti } : DlMetric).updateAllocation h.rbgmask, userOf h) := by
      simp [DlMetric.applyUserAllocation, DlMetric.retxAllocation, userOf_pending hp,
        DlMetric.allocationIsValid, hu]
    have hsent := hr { currentTti := tti } _ (userOf h) _ 0 {} 0 hu (Or.inr hp) happly
    rw [SchedUe.resent_iff, hu] at hsent
    exact hsent
  · rintro hz m m' u u' pid data cfi rfl hp happly
    obtain ⟨mask, hout⟩ := DlMetric.applyUserAllocation_spec happly
    rw [SchedUe.resent_iff, hout.user, SchedUe.setDl_dlHarq]
    rcases hp with hp | hp
    · exact hl 0 _ hp
    · exact hz ⟨_, hp⟩

/-- **Pending retransmissions are live, and are resent.** Exactly the runs in time keep the law,
as long as transport block 0 is in use while block 1 waits. -/
theorem pending_live_iff (lib : Lib) (hfar : ∀ t, ∃ t', 8 ≤ lib.ttiInterval t' t)
    (id maxRetx : Nat) (es : List HarqEvent) :
    AllStates step (fun h => PendingLive lib h ∧ Resends lib h) (init id maxRetx) es ↔
      AllSteps step AckInTime (init id maxRetx) es ∧
        AllStates step (TbZeroFirst lib) (init id maxRetx) es := by
  rw [← allStates_live_iff (live_init id maxRetx), ← allStates_and]
  constructor
  · refine AllStates.mono fun h hI => ?_
    exact ⟨(pendingLive_iff hfar).mp hI.1, (resends_iff hI.1).mp hI.2⟩
  · refine AllStates.mono fun h hI => ?_
    have hl := (pendingLive_iff hfar).mpr hI.1
    exact ⟨hl, (resends_iff hl).mpr hI.2⟩

theorem exampleLib_far (t : Nat) : ∃ t', 8 ≤ exampleLib.ttiInterval t' t := by
  refine ⟨t + 8, ?_⟩
  simp only [exampleLib]
  rw [if_pos (by omega)]
  omega

/-- Two retransmissions are allowed, and the second NACK finds the block active. -/
theorem pending_live_retxRun :
    AllStates step (fun h => PendingLive exampleLib h ∧ Resends exampleLib h) (init 0 3)
        [.newTx 0 0 9 100 0, .setAck 0 false, .newRetx 0 8] ↔
      AllSteps step AckInTime (init 0 3) [.newTx 0 0 9 100 0, .setAck 0 false, .newRetx 0 8] ∧
        AllStates step (TbZeroFirst exampleLib) (init 0 3)
          [.newTx 0 0 9 100 0, .setAck 0 false, .newRetx 0 8] :=
  pending_live_iff exampleLib exampleLib_far 0 3 _

/-- With one transmission allowed, its NACK leaves a retransmission pending of a block that is
not active. -/
theorem pending_dead_nackRun :
    ¬ AllStates step (PendingLive exampleLib) (init 0 1) [.newTx 0 0 9 100 0, .setAck 0 false] := by
  intro h
  exact absurd (h.2.2 0 8 (by decide)) (by decide)

end DlHarqProc

end Srsenb.Mac
