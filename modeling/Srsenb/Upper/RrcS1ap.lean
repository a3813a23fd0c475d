import Srsenb.Upper.Rrc
import Srsenb.Upper.S1ap

/-! # RRC and S1AP together

The two entities, the queue that RRC works off, and the calls between them. A call of the other
entity is part of the event that makes it; only what goes through the queue comes later. -/

namespace Srsenb.RrcS1ap

/-- What `rx_pdu_queue` holds for an RNTI, by `lcid`. -/
inductive Item
  | srb0 (msg : Rrc.UlCcchMsg)
  | srb12 (msg : Rrc.UlDcchMsg)
  | remUser
  | relUser
  | rlfUser
  | actUser
  | invalid

def Item.isRemUser : Item → Bool
  | .remUser => true
  | _ => false

/-- The item as RRC handles it: `process_rl_failure` asks S1AP. -/
def Item.toRrc (existsInS1ap : Bool) : Item → Rrc.QueueItem
  | .srb0 msg => .srb0 msg
  | .srb12 msg => .srb12 msg
  | .remUser => .remUser
  | .relUser => .relUser
  | .rlfUser => .rlfUser existsInS1ap
  | .actUser => .actUser
  | .invalid => .invalid

structure State where
  rrc : Rrc.State
  s1ap : S1ap.State
  rxPduQueue : List (Nat × Item)

def init (cfg : Rrc.Cfg) : State := ⟨Rrc.init cfg, S1ap.init, []⟩

/-- The answers of the SCTP socket and of the buffer pool, and the cause of a release. -/
structure Io where
  sent : Bool
  pduAlloc : Bool
  causeRadio : Nat

/-- For an event in which RRC does not call S1AP. -/
def Io.unused : Io := ⟨true, true, 0⟩

/-- What can happen: RRC's thread takes the first entry of the queue, another layer adds one, or
calls RRC, the activity monitor finds a UE, or the MME sends a message. -/
inductive Event
  | rx (io : Io)
  | push (rnti : Nat) (item : Item)
  | addUser (rnti : Nat)
  | updUser (newRnti oldRnti : Nat)
  | timeout (rnti : Nat) (io : Io)
  | notifyConnected (rnti : Nat)
  | connected (mmeConnected : Bool)
  | dlnastransport (msg : S1ap.DownlinkNasTransport) (io : Io)
  | initialctxtsetuprequest (msg : S1ap.SetupRequest) (key : Rrc.Pdu) (es : List Rrc.ErabItem)
      (io : Io)
  | erabsetuprequest (msg : S1ap.SetupRequest) (es : List Rrc.ErabItem) (io : Io)
  | uectxtreleasecommand (ids : S1ap.UeS1apIds) (io : Io)

namespace State

def push (s : State) (rnti : Nat) (item : Item) : State :=
  { s with rxPduQueue := s.rxPduQueue ++ [(rnti, item)] }

def userExists (s : State) (rnti : Nat) : Bool := s.s1ap.ueCtxtMap[rnti]?.isSome

/-- After a call of S1AP by RRC: what S1AP asks of RRC in it is `release_complete` alone. -/
def s1apCall (s : State) (out : S1ap.Out) : State :=
  out.acts.foldl (fun s a =>
    match a with
    | .releaseComplete rnti => s.push rnti .relUser
    | _ => s) { s with s1ap := out.st }

/-- The setup responses: the ids are read with `ue_ctxt_map[rnti]`. -/
def setupComplete (s : State) (rnti : Nat) (pduAlloc : Bool) : State :=
  if s.s1ap.mmeConnected && pduAlloc then { s with s1ap := s.s1ap.touchCtxt rnti } else s

/-- What an action of RRC does to the two entities and to the queue. -/
def rrcAction (io : Io) (s : State) : Rrc.Action → State
  | .remUserThread rnti => s.push rnti .remUser
  | .s1apInitialUe rnti cause nas sTmsi =>
    s.s1apCall (S1ap.initialUe s.s1ap rnti cause nas sTmsi io.sent)
  | .s1apWritePdu rnti nas => s.s1apCall (S1ap.writePdu s.s1ap rnti nas io.sent)
  | .s1apUserRelease rnti => s.s1apCall (S1ap.userRelease s.s1ap rnti io.causeRadio io.sent)
  | .s1apUeCtxtSetupComplete rnti _ => s.setupComplete rnti io.pduAlloc
  | .s1apUeErabSetupComplete rnti _ => s.setupComplete rnti io.pduAlloc
  | _ => s

def rrcCall (io : Io) (s : State) (e : Rrc.Event) : State :=
  (Rrc.handle s.rrc e).acts.foldl (rrcAction io) { s with rrc := (Rrc.handle s.rrc e).st }

/-- What an action of S1AP does, with the key and the E-RABs of the message it handles. -/
def s1apAction (io : Io) (key : Rrc.Pdu) (es : List Rrc.ErabItem) (s : State) :
    S1ap.Action → State
  | .sctpSendmsg _ _ => s
  | .writeDlInfo rnti pdu => s.rrcCall io (.writeDlInfo rnti pdu)
  | .setupUeCtxt rnti => s.rrcCall io (.setupUeCtxt rnti key es)
  | .setupUeErabs rnti => s.rrcCall io (.setupUeErabs rnti es)
  | .releaseErabs rnti => s.rrcCall io (.releaseErabs rnti)
  | .releaseComplete rnti => s.push rnti .relUser

/-- The handling of a message of the MME. -/
def s1apHandle (io : Io) (key : Rrc.Pdu) (es : List Rrc.ErabItem) (s : State) (out : S1ap.Out) :
    State :=
  out.acts.foldl (s1apAction io key es) { s with s1ap := out.st }

/-- Whether RRC has the UE that a setup request names. -/
def rrcOk (s : State) (msg : S1ap.SetupRequest) : Bool :=
  (s.s1ap.enbidToRntiMap[msg.enbUeS1apId]?).any fun rnti => s.rrc.users[rnti]?.isSome

end State

def step (s : State) : Event → State
  | .rx io =>
    match s.rxPduQueue with
    | [] => s
    | (rnti, item) :: q =>
      { s with rxPduQueue := q }.rrcCall io (.rx rnti (item.toRrc (s.userExists rnti)))
  | .push rnti item => s.push rnti item
  | .addUser rnti => s.rrcCall .unused (.addUser rnti)
  | .updUser newRnti oldRnti => s.rrcCall .unused (.updUser newRnti oldRnti)
  | .timeout rnti io => s.rrcCall io (.timeout rnti (s.userExists rnti))
  | .notifyConnected rnti => s.rrcCall .unused (.notifyConnected rnti)
  | .connected b => { s with s1ap := { s.s1ap with mmeConnected := b } }
  | .dlnastransport msg io =>
    s.s1apHandle io [] [] (S1ap.handleDlnastransport s.s1ap msg io.pduAlloc)
  | .initialctxtsetuprequest msg key es io =>
    s.s1apHandle io key es (S1ap.handleInitialctxtsetuprequest s.s1ap msg (s.rrcOk msg))
  | .erabsetuprequest msg es io =>
    s.s1apHandle io [] es (S1ap.handleErabsetuprequest s.s1ap msg (s.rrcOk msg))
  | .uectxtreleasecommand ids io =>
    s.s1apHandle io [] [] (S1ap.handleUectxtreleasecommand s.s1ap ids io.sent)

end Srsenb.RrcS1ap
