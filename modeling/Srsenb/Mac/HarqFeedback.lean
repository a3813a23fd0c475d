import Srsenb.Mac.HarqRetx

/-! # Routing of HARQ feedback

`set_ack_info` finds the process by the TTI that it stored. Next to the user, the run keeps what
was really sent: when each process sent last, and which transport blocks wait for feedback. -/

open Srsenb.Run

namespace Srsenb.Mac

/-- What happens to the downlink processes of one user. -/
inductive FeedbackEvent
  | newTx (pid : Pid) (tb : Fin 2) (tti : Nat) (mcs tbs : Int) (nCce : Nat)
  | newRetx (pid : Pid) (tb : Fin 2) (tti : Nat)
  /-- The DCI of the process could not be allocated. -/
  | reset (pid : Pid)
  | resetTimeout (tti : Nat)
  | ack (tti : Nat) (tb : Fin 2) (ack : Bool)

/-- The user, the last transmission of each process since it was reset, and the transmissions
whose feedback is to come. -/
structure AckState where
  ue : SchedUe
  sent : Pid → Option Nat := fun _ => none
  waiting : Pid → Fin 2 → Option Nat := fun _ _ => none

namespace AckState

/-- A user as `set_cfg` leaves it. -/
def init (u : SchedUe) (maxRetx : Nat) : AckState :=
  { ue := { u with dlHarq := fun i => DlHarqProc.init i maxRetx } }

/-- A transmission of `tb`; the process is `h` afterwards. -/
def send (s : AckState) (pid : Pid) (tb : Fin 2) (tti : Nat) (h : DlHarqProc) : AckState where
  ue := s.ue.setDl pid h
  sent := Function.update s.sent pid (some tti)
  waiting := Function.update s.waiting pid (Function.update (s.waiting pid) tb (some tti))

def step (lib : Lib) (s : AckState) : FeedbackEvent → AckState
  | .newTx pid tb tti mcs tbs nCce =>
    s.send pid tb tti ((s.ue.dlHarq pid).newTx tb tti mcs tbs nCce)
  | .newRetx pid tb tti => s.send pid tb tti ((s.ue.dlHarq pid).newRetx tb tti).1
  | .reset pid =>
    { ue := s.ue.setDl pid (s.ue.dlHarq pid).resetAll
      sent := Function.update s.sent pid none
      waiting := Function.update s.waiting pid fun _ => none }
  | .resetTimeout tti =>
    { ue := s.ue.resetTimeoutDlHarq lib tti
      sent := fun i => if s.ue.isOld lib tti i then none else s.sent i
      waiting := fun i tb => if s.ue.isOld lib tti i then none else s.waiting i tb }
  | .ack tti tb ack =>
    { s with
      ue := (s.ue.setAckInfo tti tb ack).2
      -- The feedback is over, whichever process the code took it for.
      waiting := fun i b =>
        if b = tb ∧ (s.waiting i b).map ttiTx = some tti then none else s.waiting i b }

/-- Process `i` sent `tb` at the TTI whose feedback comes at `tti`, and waits for it. -/
def Waits (s : AckState) (i : Pid) (tb : Fin 2) (tti : Nat) : Prop :=
  (s.waiting i tb).map ttiTx = some tti

instance (s : AckState) (i : Pid) (tb : Fin 2) (tti : Nat) : Decidable (s.Waits i tb tti) :=
  inferInstanceAs (Decidable (_ = _))

/-- `set_ack_info` gives the feedback to the process that waits for it, and to no process if
none does. -/
def Routed (s : AckState) : FeedbackEvent → Prop
  | .ack tti tb ack =>
    (∀ i, s.Waits i tb tti →
      s.ue.setAckInfo tti tb ack =
        (((s.ue.dlHarq i).tb tb).lastTbs, s.ue.setDl i ((s.ue.dlHarq i).setAck tb ack))) ∧
      ((∀ i, ¬ s.Waits i tb tti) → s.ue.setAckInfo tti tb ack = (-1, s.ue))
  | _ => True

/-- Process `i` last sent, some transport block, at the TTI whose feedback comes at `tti`; one
that has not sent since it was reset counts as sent at TTI 0. -/
def Claims (s : AckState) (i : Pid) (tti : Nat) : Prop :=
  match s.sent i with
  | some t => ttiTx t = tti
  | none => tti = harqDelayMs

instance (s : AckState) (i : Pid) (tti : Nat) : Decidable (s.Claims i tti) := by
  unfold Claims
  split <;> infer_instance

/-- What feedback finds: the process that waits has not sent its other block at another TTI
since, and no process before it claims the TTI; where none waits, none claims it. -/
def Clear (s : AckState) : FeedbackEvent → Prop
  | .ack tti tb _ =>
    (∀ i, s.Waits i tb tti → s.Claims i tti ∧ ∀ j < i, ¬ s.Claims j tti) ∧
      ((∀ i, ¬ s.Waits i tb tti) → ∀ j, ¬ s.Claims j tti)
  | _ => True

instance (s : AckState) (e : FeedbackEvent) : Decidable (s.Clear e) := by
  unfold Clear
  split <;> infer_instance

/-! ## The stored TTI -/

/-- The TTI that a process stores is that of its last transmission, or 0 after a reset. -/
def Tracks (s : AckState) : Prop := ∀ i, (s.ue.dlHarq i).tti = (s.sent i).getD 0

variable {lib : Lib} {s : AckState} {u : SchedUe} {tti : Nat} {tb : Fin 2} {ack : Bool} {i : Pid}

theorem claims_iff (ht : Tracks s) : s.Claims i tti ↔ ttiTx (s.ue.dlHarq i).tti = tti := by
  unfold Claims
  rw [ht i]
  cases s.sent i with
  | some t => rfl
  | none => exact eq_comm

theorem findAck_eq_none (h : ∀ j, ttiTx (u.dlHarq j).tti ≠ tti) : u.findAck tti = none := by
  unfold SchedUe.findAck
  rw [List.find?_eq_none]
  exact fun j _ => by simpa using h j

/-- The first process with the TTI is the one that is found. -/
theorem findAck_eq_some (hi : ttiTx (u.dlHarq i).tti = tti)
    (hbefore : ∀ j < i, ttiTx (u.dlHarq j).tti ≠ tti) : u.findAck tti = some i := by
  unfold SchedUe.findAck
  rw [List.find?_eq_some_iff_getElem]
  refine ⟨by simpa using hi, i, by simp, by simp, fun j hj => ?_⟩
  simpa using hbefore ⟨j, by omega⟩ hj

theorem setAckInfo_tti (j : Pid) :
    ((u.setAckInfo tti tb ack).2.dlHarq j).tti = (u.dlHarq j).tti := by
  unfold SchedUe.setAckInfo
  split
  · rename_i i _
    by_cases hj : j = i
    · subst hj
      simp [SchedUe.setDl, DlHarqProc.setAck]
    · simp [SchedUe.setDl, hj]
  · rfl

/-! ## Runs -/

theorem tracks_init (u : SchedUe) (maxRetx : Nat) : Tracks (init u maxRetx) := fun _ => rfl

theorem tracks_send (ht : Tracks s) {h : DlHarqProc} (hh : h.tti = tti) :
    Tracks (s.send i tb tti h) := by
  intro j
  by_cases hj : j = i
  · subst hj
    simp [send, SchedUe.setDl, hh]
  · simpa [send, SchedUe.setDl, hj] using ht j

theorem tracks_step (ht : Tracks s) (e : FeedbackEvent) : Tracks (step lib s e) := by
  cases e with
  | newTx pid tb tti mcs tbs nCce => exact tracks_send ht rfl
  | newRetx pid tb tti => exact tracks_send ht rfl
  | reset pid =>
    intro j
    by_cases hj : j = pid
    · subst hj
      simp [step, SchedUe.setDl, DlHarqProc.resetAll, DlHarqProc.reset]
    · simpa [step, SchedUe.setDl, hj] using ht j
  | resetTimeout tti =>
    intro j
    simp only [step, SchedUe.resetTimeoutDlHarq]
    split_ifs
    · rfl
    · exact ht j
  | ack tti tb ack =>
    intro j
    exact (setAckInfo_tti j).trans (ht j)

theorem routed_of_clear (ht : Tracks s) (e : FeedbackEvent) (hc : Clear s e) : Routed s e := by
  cases e with
  | ack tti tb ack =>
    obtain ⟨hwaits, hnone⟩ := hc
    constructor
    · intro i hi
      obtain ⟨hclaim, hbefore⟩ := hwaits i hi
      have hfind : s.ue.findAck tti = some i :=
        findAck_eq_some ((claims_iff ht).mp hclaim) fun j hj =>
          mt (claims_iff ht).mpr (hbefore j hj)
      have htbs : ((s.ue.dlHarq i).setAck tb ack).getTbs tb = ((s.ue.dlHarq i).tb tb).lastTbs := by
        simp [DlHarqProc.getTbs, DlHarqProc.setAck, HarqProc.setAck]
      simp only [SchedUe.setAckInfo, hfind, htbs]
    · intro hno
      have hfind : s.ue.findAck tti = none :=
        findAck_eq_none fun j => mt (claims_iff ht).mpr (hnone hno j)
      simp only [SchedUe.setAckInfo, hfind]
  | newTx pid tb tti mcs tbs nCce => trivial
  | newRetx pid tb tti => trivial
  | reset pid => trivial
  | resetTimeout tti => trivial

/-- **Feedback reaches the process that sent**, in every run whose feedback finds no other
process that claims its TTI. -/
theorem feedback_routed (lib : Lib) (u : SchedUe) (maxRetx : Nat) (es : List FeedbackEvent)
    (h : AllSteps (step lib) Clear (init u maxRetx) es) :
    AllSteps (step lib) Routed (init u maxRetx) es :=
  allSteps_of_allSteps (fun _ e ht _ => tracks_step ht e) (fun _ e ht hc => routed_of_clear ht e hc)
    (tracks_init u maxRetx) h

/-- A user with its processes unused. -/
def exampleUe : SchedUe := DlHarqProc.userOf {}

/-- Two processes send in turn, and each gets its own feedback. -/
theorem feedback_routed_inTurn :
    AllSteps (step exampleLib) Routed (init exampleUe 4)
      [.newTx 0 0 100 9 50 0, .newTx 1 0 101 9 60 0, .ack 104 0 true, .ack 105 0 false] :=
  feedback_routed exampleLib exampleUe 4 _ (by decide)

/-- Process 0 waits to retransmit while process 1 sends at TTI 0; the DCI of process 0 fails, and
the feedback of process 1 goes to process 0. -/
theorem feedback_misrouted_resetRun :
    ¬ AllSteps (step exampleLib) Routed (init exampleUe 4)
      [.newTx 0 0 10232 9 50 0, .ack 10236 0 false, .newTx 1 0 0 9 60 0, .reset 0,
       .ack 4 0 true] := by
  rintro ⟨-, -, -, -, hr, -⟩
  have h := hr.1 1 rfl
  exact absurd (congrArg Prod.fst h) (by decide)

end AckState

end Srsenb.Mac
