import Srsenb.Base.Run
import Srsenb.Base.StdMap

/-! # The S1AP entity (`upper/s1ap.cc`)

The contexts of the UEs with a connection to the MME, and the messages that open, use and close
them. RRC and the MME are outside: what the entity asks of them is an `Action`, what they answer
is part of the event. -/

namespace Srsenb.S1ap

/-- `ue_ctxt_t`. -/
structure UeCtxt where
  rnti : Nat
  enbUeS1apId : Nat
  mmeUeS1apId : Nat
  releaseRequested : Bool
  streamId : Nat
  deriving DecidableEq, Repr

/-- `operator[]` value-initialises a new context. -/
instance : Inhabited UeCtxt := ⟨⟨0, 0, 0, false, 0⟩⟩

abbrev Pdu := List UInt8

/-- An uplink S1AP message, with the IEs the senders fill in. -/
inductive TxPdu where
  | initialUeMessage (enbUeS1apId : Nat) (sTmsi : Option (Nat × Nat)) (nasPdu : Pdu) (cause : Nat)
  | uplinkNasTransport (mmeUeS1apId enbUeS1apId : Nat) (nasPdu : Pdu)
  | ueContextReleaseRequest (mmeUeS1apId enbUeS1apId cause : Nat)
  | ueContextReleaseComplete (mmeUeS1apId enbUeS1apId : Nat)
  deriving DecidableEq, Repr

/-- What the entity asks of the SCTP socket and of RRC. -/
inductive Action where
  | sctpSendmsg (msg : TxPdu) (streamId : Nat)
  | writeDlInfo (rnti : Nat) (pdu : Pdu)
  | setupUeCtxt (rnti : Nat)
  | setupUeErabs (rnti : Nat)
  | releaseErabs (rnti : Nat)
  | releaseComplete (rnti : Nat)
  deriving DecidableEq, Repr

structure State where
  mmeConnected : Bool
  nextEnbUeS1apId : Nat
  ueCtxtMap : StdMap UeCtxt
  enbidToRntiMap : StdMap Nat

/-- The entity after `init`. -/
def init : State := ⟨false, 1, ∅, ∅⟩

/-- The state a handler leaves, what it asked for, and what it returns. -/
structure Out where
  st : State
  acts : List Action
  ret : Bool

/-! ## Message senders -/

/-- `ue_ctxt_map[rnti]` is evaluated. -/
def State.touchCtxt (s : State) (rnti : Nat) : State :=
  { s with ueCtxtMap := s.ueCtxtMap.touch rnti }

def State.updateCtxt (s : State) (rnti : Nat) (f : UeCtxt → UeCtxt) : State :=
  { s with ueCtxtMap := s.ueCtxtMap.update rnti f }

def State.ctxt (s : State) (rnti : Nat) : UeCtxt := s.ueCtxtMap.sub rnti

/-- A sender fills in the ids of `rnti` and sends on its stream. -/
def sendMessage (s : State) (rnti : Nat) (msg : UeCtxt → TxPdu) (sent : Bool) : Out :=
  if !s.mmeConnected then ⟨s, [], false⟩
  else
    let s := s.touchCtxt rnti
    ⟨s, [.sctpSendmsg (msg (s.ctxt rnti)) (s.ctxt rnti).streamId], sent⟩

def sendInitialuemessage (s : State) (rnti cause : Nat) (pdu : Pdu) (sTmsi : Option (Nat × Nat))
    (sent : Bool) : Out :=
  sendMessage s rnti (fun c => .initialUeMessage c.enbUeS1apId sTmsi pdu cause) sent

def sendUlnastransport (s : State) (rnti : Nat) (pdu : Pdu) (sent : Bool) : Out :=
  sendMessage s rnti (fun c => .uplinkNasTransport c.mmeUeS1apId c.enbUeS1apId pdu) sent

def sendUectxtreleaserequest (s : State) (rnti cause : Nat) (sent : Bool) : Out :=
  sendMessage s rnti (fun c => .ueContextReleaseRequest c.mmeUeS1apId c.enbUeS1apId cause) sent

def sendUectxtreleasecomplete (s : State) (rnti mmeUeId enbUeId : Nat) (sent : Bool) : Out :=
  sendMessage s rnti (fun _ => .ueContextReleaseComplete mmeUeId enbUeId) sent

/-! ## The interface to RRC -/

/-- The context part of both overloads of `initial_ue`. -/
def openCtxt (s : State) (rnti : Nat) : State :=
  let id := s.nextEnbUeS1apId
  let s := s.updateCtxt rnti fun c => { c with enbUeS1apId := id }
  let s := s.updateCtxt rnti fun c => { c with streamId := 1 }
  let s := s.updateCtxt rnti fun c => { c with releaseRequested := false }
  { s with
    nextEnbUeS1apId := (id + 1) % 2 ^ 32
    enbidToRntiMap := s.enbidToRntiMap.insert (s.ctxt rnti).enbUeS1apId rnti }

/-- Both overloads of `initial_ue`: with no S-TMSI, or with `m_tmsi` and `mmec`. -/
def initialUe (s : State) (rnti cause : Nat) (pdu : Pdu) (sTmsi : Option (Nat × Nat))
    (sent : Bool) : Out :=
  sendInitialuemessage (openCtxt s rnti) rnti cause pdu sTmsi sent

def writePdu (s : State) (rnti : Nat) (pdu : Pdu) (sent : Bool) : Out :=
  if s.ueCtxtMap[rnti]?.isNone then ⟨s, [], false⟩
  else sendUlnastransport s rnti pdu sent

def userRelease (s : State) (rnti causeRadio : Nat) (sent : Bool) : Out :=
  if s.ueCtxtMap[rnti]?.isNone then ⟨s, [], false⟩
  else if (s.ctxt rnti).releaseRequested then
    -- The UE context is in zombie state.
    ⟨{ s with ueCtxtMap := s.ueCtxtMap.erase rnti }, [.releaseComplete rnti], false⟩
  else
    sendUectxtreleaserequest (s.updateCtxt rnti fun c => { c with releaseRequested := true })
      rnti causeRadio sent

/-! ## Message handlers -/

structure DownlinkNasTransport where
  enbUeS1apId : Nat
  mmeUeS1apId : Nat
  nasPdu : Pdu
  deriving DecidableEq, Repr

/-- The UE-associated ids of the two setup requests. -/
structure SetupRequest where
  enbUeS1apId : Nat
  mmeUeS1apId : Nat
  deriving DecidableEq, Repr

/-- `UE_S1AP_IDs` of a UEContextReleaseCommand. -/
inductive UeS1apIds where
  | pair (mmeUeS1apId enbUeS1apId : Nat)
  | mme (mmeUeS1apId : Nat)
  deriving DecidableEq, Repr

/-- `pduAlloc`: the buffer pool has a buffer left. -/
def handleDlnastransport (s : State) (msg : DownlinkNasTransport) (pduAlloc : Bool) : Out :=
  match s.enbidToRntiMap[msg.enbUeS1apId]? with
  | none => ⟨s, [], false⟩
  | some rnti =>
    let s := s.updateCtxt rnti fun c => { c with mmeUeS1apId := msg.mmeUeS1apId }
    if pduAlloc then ⟨s, [.writeDlInfo rnti msg.nasPdu], true⟩ else ⟨s, [], false⟩

/-- The two setup requests differ in what they ask of RRC. -/
def handleSetuprequest (setup : Nat → Action) (s : State) (msg : SetupRequest) (rrcOk : Bool) :
    Out :=
  match s.enbidToRntiMap[msg.enbUeS1apId]? with
  | none => ⟨s, [], false⟩
  | some rnti =>
    let s := s.touchCtxt rnti
    let s := if msg.mmeUeS1apId ≠ (s.ctxt rnti).mmeUeS1apId then
        s.updateCtxt rnti fun c => { c with mmeUeS1apId := msg.mmeUeS1apId }
      else s
    ⟨s, [setup rnti], rrcOk⟩

def handleInitialctxtsetuprequest : State → SetupRequest → Bool → Out :=
  handleSetuprequest .setupUeCtxt

def handleErabsetuprequest : State → SetupRequest → Bool → Out :=
  handleSetuprequest .setupUeErabs

/-- The first context with the MME id, in the order of the map: its key and its value. -/
def matchMmeUeId (s : State) (mmeUeId : Nat) : Option (Nat × UeCtxt) :=
  s.ueCtxtMap.toList.find? fun it => it.2.mmeUeS1apId == mmeUeId

/-- The `rnti` field of the context found, read as a `uint16_t`, and its eNB id. -/
def findMmeUeId (s : State) (mmeUeId : Nat) : Option (Nat × Nat) :=
  (matchMmeUeId s mmeUeId).map fun it => (it.2.rnti % 2 ^ 16, it.2.enbUeS1apId)

/-- The RNTI that the command names, and the map of eNB ids without the id it names. -/
def releasedId (s : State) : UeS1apIds → Option (Nat × StdMap Nat)
  | .pair _ enbUeId =>
    (s.enbidToRntiMap[enbUeId]?).map fun rnti => (rnti, s.enbidToRntiMap.erase enbUeId)
  | .mme mmeUeId =>
    (findMmeUeId s mmeUeId).map fun it => (it.1, s.enbidToRntiMap.erase it.2)

def handleUectxtreleasecommand (s : State) (ids : UeS1apIds) (sent : Bool) : Out :=
  match releasedId s ids with
  | none => ⟨s, [], false⟩
  | some (rnti, enbids) =>
    let s := { s with enbidToRntiMap := enbids }
    if s.ueCtxtMap[rnti]?.isNone then ⟨s, [], false⟩
    else
      let c := s.ctxt rnti
      let out := sendUectxtreleasecomplete s rnti c.mmeUeS1apId c.enbUeS1apId sent
      ⟨{ out.st with ueCtxtMap := out.st.ueCtxtMap.erase rnti },
        .releaseErabs rnti :: out.acts ++ [.releaseComplete rnti], true⟩

/-! ## The entity as a state machine -/

/-- What can happen to the entity, with the answers of the socket, the pool and RRC. -/
inductive Event where
  | connected (mmeConnected : Bool)
  | initialUe (rnti cause : Nat) (pdu : Pdu) (sTmsi : Option (Nat × Nat)) (sent : Bool)
  | writePdu (rnti : Nat) (pdu : Pdu) (sent : Bool)
  | userRelease (rnti causeRadio : Nat) (sent : Bool)
  | dlnastransport (msg : DownlinkNasTransport) (pduAlloc : Bool)
  | initialctxtsetuprequest (msg : SetupRequest) (rrcOk : Bool)
  | erabsetuprequest (msg : SetupRequest) (rrcOk : Bool)
  | uectxtreleasecommand (ids : UeS1apIds) (sent : Bool)

def handle (s : State) : Event → Out
  | .connected b => ⟨{ s with mmeConnected := b }, [], true⟩
  | .initialUe rnti cause pdu sTmsi sent => initialUe s rnti cause pdu sTmsi sent
  | .writePdu rnti pdu sent => writePdu s rnti pdu sent
  | .userRelease rnti cause sent => userRelease s rnti cause sent
  | .dlnastransport msg pduAlloc => handleDlnastransport s msg pduAlloc
  | .initialctxtsetuprequest msg rrcOk => handleInitialctxtsetuprequest s msg rrcOk
  | .erabsetuprequest msg rrcOk => handleErabsetuprequest s msg rrcOk
  | .uectxtreleasecommand ids sent => handleUectxtreleasecommand s ids sent

def step (s : State) (e : Event) : State := (handle s e).st

end Srsenb.S1ap
