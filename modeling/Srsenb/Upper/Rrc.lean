import Srsenb.Base.Common
import Srsenb.Base.Run
import Srsenb.Base.StdMap
import Srsenb.Upper.Pucch

/-! # The RRC entity (`upper/rrc.cc`)

The table of UEs, the messages that a UE, the MME and the MAC send, and what each of them does to
the state of the UE. The other layers are outside: what RRC asks of them is an `Action`. -/

namespace Srsenb.Rrc

open Pucch (SlotCfg CommonCfg NofUsers)

abbrev Pdu := List UInt8

/-- `rrc_state_t`. -/
inductive RrcState where
  | idle
  | waitForConSetupComplete
  | waitForSecurityModeComplete
  | waitForUeCapInfo
  | waitForConReconfComplete
  | registered
  | releaseRequest
  deriving DecidableEq, Repr

/-- `erab_t`. -/
structure Erab where
  id : Nat
  qci : Nat
  address : Nat
  teidOut : Nat
  teidIn : Nat
  deriving DecidableEq, Repr

instance : Inhabited Erab := ⟨⟨0, 0, 0, 0, 0⟩⟩

/-- The part of `rrc_cfg_t` that the UE handlers read. -/
structure Cfg where
  srCfg : SlotCfg
  cqiCfg : SlotCfg
  cqiPeriodic : Bool
  common : CommonCfg
  qciConfigured : Nat → Bool

structure Ue where
  state : RrcState
  connectNotified : Bool
  hasTmsi : Bool
  mmec : Nat
  mTmsi : Nat
  establishmentCause : Nat
  rlfCnt : Nat
  transactionId : Nat
  nasPending : Bool
  erabInfo : Pdu
  erabs : StdMap Erab
  sr : Pucch.Alloc
  cqi : Pucch.Alloc

/-- The constructor `ue::ue`. -/
def Ue.new : Ue where
  state := .idle
  connectNotified := false
  hasTmsi := false
  mmec := 0
  mTmsi := 0
  establishmentCause := 0
  rlfCnt := 0
  transactionId := 0
  nasPending := false
  erabInfo := []
  erabs := ∅
  sr := .none
  cqi := .none

instance : Inhabited Ue := ⟨.new⟩

/-- `LIBLTE_RRC_DRB_TO_ADD_MOD_STRUCT`, its ids. -/
structure Drb where
  drbId : Int
  lcId : Nat
  epsBearerId : Nat
  deriving DecidableEq, Repr

/-- A downlink RRC message. -/
inductive DlMsg where
  | rrcConSetup (transactionId srI srNPucch cqiIdx cqiPucch : Nat)
  | rrcConReestRej
  | rrcConRelease (transactionId : Nat)
  | rrcConReconfig (transactionId : Nat) (drbs : List Drb) (nas : List Pdu)
  | rrcConReconfigUpd (transactionId srI srNPucch cqiIdx cqiPucch : Nat)
  | securityModeCommand (transactionId : Nat)
  | dlInfoTransfer (nas : Pdu)
  deriving DecidableEq, Repr

/-- What RRC asks of the other layers and of its own queue. -/
inductive Action where
  | dlCcch (rnti : Nat) (msg : DlMsg)
  | dlDcch (rnti : Nat) (msg : DlMsg)
  | remUserThread (rnti : Nat)
  | s1apInitialUe (rnti cause : Nat) (nas : Pdu) (sTmsi : Option (Nat × Nat))
  | s1apWritePdu (rnti : Nat) (nas : Pdu)
  | s1apUserRelease (rnti : Nat)
  | s1apUeCtxtSetupComplete (rnti : Nat) (erabs : List (Nat × Nat))
  | s1apUeErabSetupComplete (rnti : Nat) (erabs : List (Nat × Nat))
  | phySetConfigDedicated (rnti : Nat)
  | phySetConfDedicatedAck (rnti : Nat) (ack : Bool)
  | macUeCfg (rnti srI srNPucch cqiIdx cqiPucch : Nat) (cqiEnabled : Bool)
  | macPhyConfigEnabled (rnti : Nat) (enabled : Bool)
  | macBearerUeCfg (rnti lcid : Nat)
  | macUeRem (rnti : Nat)
  | rlcAddUser (rnti : Nat)
  | rlcAddBearer (rnti lcid : Nat)
  | rlcClearBuffer (rnti : Nat)
  | rlcRemUser (rnti : Nat)
  | pdcpAddUser (rnti : Nat)
  | pdcpAddBearer (rnti lcid : Nat)
  | pdcpConfigSecurity (rnti lcid : Nat) (key : Pdu)
  | pdcpRemUser (rnti : Nat)
  | gtpuAddBearer (rnti lcid address teidOut : Nat)
  | gtpuRemUser (rnti : Nat)
  | userConnected (rnti : Nat)
  deriving DecidableEq, Repr

/-- The entity: the configuration, the UEs and the two tables of PUCCH slots. -/
structure State where
  cfg : Cfg
  users : StdMap Ue
  srSched : NofUsers
  cqiSched : NofUsers

/-- The SR and CQI part of `rr.conf.example`, with normal cyclic prefix. -/
def exampleCfg : Cfg where
  srCfg := ⟨20, 2, 1, fun _ => 1⟩
  cqiCfg := ⟨40, 2, 1, fun _ => 0⟩
  cqiPeriodic := true
  common := ⟨true, 2, 0⟩
  qciConfigured := fun qci => qci = 7 ∨ qci = 9

/-- The entity after construction and `init`. -/
def init (cfg : Cfg) : State := ⟨cfg, ∅, fun _ _ => 0, fun _ _ => 0⟩

/-- The state a handler leaves, and what it asked for. -/
structure Out where
  st : State
  acts : List Action

/-! ## Functions of a UE that leave the slot tables alone -/

/-- `(transaction_id++)%4`: the value used and the UE after it. -/
def Ue.nextTransaction (u : Ue) : Nat × Ue :=
  (u.transactionId % 4, { u with transactionId := (u.transactionId + 1) % 256 })

def Ue.isConnected (u : Ue) : Bool := u.state == .registered

def Ue.isIdle (u : Ue) : Bool := u.state == .idle

def Ue.sendConnectionRelease (u : Ue) (rnti : Nat) : Ue × List Action :=
  let (t, u) := u.nextTransaction
  (u, [.dlDcch rnti (.rrcConRelease t)])

def Ue.sendSecurityModeCommand (u : Ue) (rnti : Nat) : Ue × List Action :=
  let (t, u) := u.nextTransaction
  (u, [.dlDcch rnti (.securityModeCommand t)])

def maxNofQci : Nat := 10

/-- The lookup of the E-RAB, by an 8-bit id, inserts one that is missing. -/
def Ue.getDrbidConfig (u : Ue) (cfg : Cfg) (drbId : Int) : Ue × Option Drb :=
  let lcId := (drbId + 2).toNat
  let erabId := lcId + 2
  let u := { u with erabs := u.erabs.touch (erabId % 256) }
  let qci := (u.erabs.sub (erabId % 256)).qci
  if qci ≥ maxNofQci then (u, none)
  else if !cfg.qciConfigured qci then (u, none)
  else (u, some ⟨drbId, lcId, erabId⟩)

def Ue.sendConnectionReconf (u : Ue) (cfg : Cfg) (rnti : Nat) : Ue × List Action :=
  let (t, u) := u.nextTransaction
  let phy := [.phySetConfigDedicated rnti, .phySetConfDedicatedAck rnti false,
    .macPhyConfigEnabled rnti false]
  match u.getDrbidConfig cfg 1 with
  | (u, none) => (u, phy)
  | (u, some drb) =>
    let nas := if u.nasPending then [u.erabInfo] else []
    ({ u with state := .waitForConReconfComplete },
      phy ++ [.macBearerUeCfg rnti 2, .macBearerUeCfg rnti 3, .rlcAddBearer rnti 2,
        .pdcpAddBearer rnti 2, .rlcAddBearer rnti 3, .pdcpAddBearer rnti 3,
        .dlDcch rnti (.rrcConReconfig t [drb] nas)])

def Ue.sendConnectionReconfUpd (u : Ue) (rnti : Nat) : Ue × List Action :=
  let (t, u) := u.nextTransaction
  ({ u with state := .waitForConReconfComplete },
    [.phySetConfigDedicated rnti,
      .dlDcch rnti (.rrcConReconfigUpd t u.sr.cfgIdx u.sr.nPucch u.cqi.cfgIdx u.cqi.nPucch)])

/-- An item of the E-RAB lists of the two setup requests. -/
structure ErabItem where
  id : Nat
  qci : Nat
  addressBits : Nat
  address : Nat
  teidOut : Nat
  nasPdu : Option Pdu
  deriving DecidableEq, Repr

/-- `uint8_t lcid = id - 2`. -/
def erabLcid (id : Nat) : Nat := (id + 254) % 256

/-- `rntilcid_to_teidin` of GTP-U. -/
def rntilcidToTeidin (rnti lcid : Nat) : Nat := rnti * 65536 + lcid

def Ue.setupErab (u : Ue) (rnti : Nat) (e : ErabItem) : Ue × List Action :=
  let lcid := erabLcid e.id
  let erab : Erab := ⟨e.id, e.qci, e.address, e.teidOut, rntilcidToTeidin rnti lcid⟩
  let u := { u with erabs := u.erabs.insert e.id erab }
  let u := match e.nasPdu with
    | some nas => { u with nasPending := true, erabInfo := nas }
    | none => { u with nasPending := false }
  (u, [.gtpuAddBearer rnti lcid e.address e.teidOut])

/-- The loop of both `setup_erabs`: it ends at the first address longer than 32 bits. -/
def Ue.setupErabItems (u : Ue) (rnti : Nat) : List ErabItem → Ue × List Action × Bool
  | [] => (u, [], true)
  | e :: es =>
    if e.addressBits > 32 then (u, [], false)
    else
      let (u, acts) := u.setupErab rnti e
      let (u, acts', ok) := Ue.setupErabItems u rnti es
      (u, acts ++ acts', ok)

/-- `setup_erabs` of an InitialContextSetupRequest. -/
def Ue.setupErabsCtxt (u : Ue) (rnti : Nat) (es : List ErabItem) : Ue × List Action :=
  let (u, acts, _) := u.setupErabItems rnti es
  (u, acts)

def Ue.notifyS1apUeCtxtSetupComplete (u : Ue) (rnti : Nat) : Action :=
  .s1apUeCtxtSetupComplete rnti (u.erabs.toList.map fun it => (it.2.id, it.2.teidIn))

def Ue.notifyS1apUeErabSetupResponse (u : Ue) (rnti : Nat) (es : List ErabItem) : Action :=
  .s1apUeErabSetupComplete rnti (es.map fun e => (e.id, (u.erabs.sub e.id).teidIn))

/-- The loop of `send_connection_reconf_new_bearer`: the DRBs configured, and whether all were. -/
def Ue.addNewBearers (u : Ue) (cfg : Cfg) (rnti : Nat) :
    List ErabItem → Ue × List Action × Option (List Drb)
  | [] => (u, [], some [])
  | e :: es =>
    let lcid := erabLcid e.id
    match u.getDrbidConfig cfg ((lcid : Int) - 2) with
    | (u, none) => (u, [], none)
    | (u, some drb) =>
      let (u, acts, drbs) := Ue.addNewBearers u cfg rnti es
      (u, [.macBearerUeCfg rnti lcid, .rlcAddBearer rnti lcid, .pdcpAddBearer rnti lcid] ++ acts,
        drbs.map (drb :: ·))

def Ue.sendConnectionReconfNewBearer (u : Ue) (cfg : Cfg) (rnti : Nat) (es : List ErabItem) :
    Ue × List Action :=
  let (t, u) := u.nextTransaction
  match u.addNewBearers cfg rnti es with
  | (u, acts, none) => (u, acts)
  | (u, acts, some drbs) =>
    (u, acts ++ [.dlDcch rnti (.rrcConReconfig t drbs (es.map fun _ => u.erabInfo))])

/-- `setup_erabs` of an E-RABSetupRequest. -/
def Ue.setupErabsBearer (u : Ue) (cfg : Cfg) (rnti : Nat) (es : List ErabItem) :
    Ue × List Action :=
  match u.setupErabItems rnti es with
  | (u, acts, false) => (u, acts)
  | (u, acts, true) =>
    let resp := u.notifyS1apUeErabSetupResponse rnti es
    let (u, acts') := u.sendConnectionReconfNewBearer cfg rnti es
    (u, acts ++ resp :: acts')

/-- An UL-DCCH message. -/
inductive UlDcchMsg where
  | rrcConSetupComplete (nas : Pdu)
  | ulInfoTransfer (nas : Pdu)
  | rrcConReconfigComplete
  | securityModeComplete
  | securityModeFailure
  | ueCapabilityInfo
  | other
  deriving DecidableEq, Repr

def Ue.handleRrcConSetupComplete (u : Ue) (rnti : Nat) (nas : Pdu) : Ue × List Action :=
  let sTmsi := if u.hasTmsi then some (u.mTmsi, u.mmec) else none
  ({ u with state := .waitForConReconfComplete },
    [.phySetConfDedicatedAck rnti true, .macPhyConfigEnabled rnti true,
      .s1apInitialUe rnti u.establishmentCause nas sTmsi])

def Ue.handleRrcReconfComplete (rnti : Nat) : List Action :=
  [.phySetConfDedicatedAck rnti true, .macPhyConfigEnabled rnti true]

/-- `ue::parse_ul_dcch`: the switch is on the message type, not on the state. -/
def Ue.parseUlDcch (u : Ue) (cfg : Cfg) (rnti : Nat) (msg : UlDcchMsg) : Ue × List Action :=
  let u := { u with transactionId := 0 }
  match msg with
  | .rrcConSetupComplete nas => u.handleRrcConSetupComplete rnti nas
  | .ulInfoTransfer nas => (u, [.s1apWritePdu rnti nas])
  | .rrcConReconfigComplete => ({ u with state := .registered }, Ue.handleRrcReconfComplete rnti)
  | .securityModeComplete =>
    let resp := u.notifyS1apUeCtxtSetupComplete rnti
    let (u, acts) := u.sendConnectionReconf cfg rnti
    ({ u with state := .waitForConReconfComplete }, resp :: acts)
  | .securityModeFailure => (u, [])
  | .ueCapabilityInfo =>
    let (u, acts) := u.sendConnectionReconf cfg rnti
    ({ u with state := .waitForConReconfComplete }, acts)
  | .other => (u, [])

/-! ## Functions that allocate and free PUCCH slots -/

def State.setUser (s : State) (rnti : Nat) (u : Ue) : State :=
  { s with users := s.users.insert rnti u }

/-- The SR part of `send_connection_setup`. -/
def srSetup (s : State) (u : Ue) : Option (State × Ue) :=
  (Pucch.srAllocate s.cfg.common s.cfg.srCfg s.srSched).map fun p =>
    ({ s with srSched := p.1 }, { u with sr := p.2 })

/-- The CQI part: nothing to allocate in the aperiodic mode. -/
def cqiSetup (s : State) (u : Ue) : Option (State × Ue) :=
  if s.cfg.cqiPeriodic then
    (Pucch.cqiAllocate s.cfg.common s.cfg.cqiCfg s.cqiSched).map fun p =>
      ({ s with cqiSched := p.1 }, { u with cqi := p.2 })
  else some (s, u)

/-- `send_connection_setup(true)`: it returns early when a resource cannot be allocated, and what
was allocated before stays allocated. -/
def sendConnectionSetup (s : State) (rnti : Nat) (u : Ue) : State × Ue × List Action :=
  let (t, u) := u.nextTransaction
  match srSetup s u with
  | none => (s, u, [])
  | some (s, u) =>
    match cqiSetup s u with
    | none => (s, u, [])
    | some (s, u) =>
      (s, u, [.macUeCfg rnti u.sr.cfgIdx u.sr.nPucch u.cqi.cfgIdx u.cqi.nPucch s.cfg.cqiPeriodic,
        .rlcAddBearer rnti 1, .pdcpAddBearer rnti 1, .phySetConfigDedicated rnti,
        .phySetConfDedicatedAck rnti false, .macPhyConfigEnabled rnti false,
        .dlCcch rnti (.rrcConSetup t u.sr.cfgIdx u.sr.nPucch u.cqi.cfgIdx u.cqi.nPucch)])

/-- An UL-CCCH message. -/
inductive UlCcchMsg where
  | rrcConReq (sTmsi : Option (Nat × Nat)) (cause : Nat)
  | rrcConReestReq (cRnti : Nat)
  | other
  deriving DecidableEq, Repr

/-- `sTmsi` is `mmec` and `m_tmsi`; a random UE identity leaves the fields as they are. -/
def handleRrcConReq (s : State) (rnti : Nat) (sTmsi : Option (Nat × Nat)) (cause : Nat) : Out :=
  let u := s.users.sub rnti
  let u := match sTmsi with
    | some (mmec, mTmsi) => { u with mmec := mmec, mTmsi := mTmsi, hasTmsi := true }
    | none => u
  let u := { u with establishmentCause := cause }
  let (s, u, acts) := sendConnectionSetup s rnti u
  ⟨s.setUser rnti { u with state := .waitForConSetupComplete }, acts⟩

def parseUlCcch (s : State) (rnti : Nat) : UlCcchMsg → Out
  | .rrcConReq sTmsi cause =>
    if s.users[rnti]?.isSome then handleRrcConReq s rnti sTmsi cause else ⟨s, []⟩
  | .rrcConReestReq oldRnti =>
    let s := { s with users := s.users.touch rnti }
    if (s.users.sub rnti).isIdle then
      let release := if s.users[oldRnti]?.isSome then [.s1apUserRelease oldRnti] else []
      ⟨s, .dlCcch rnti .rrcConReestRej :: release ++ [.remUserThread rnti]⟩
    else ⟨s, []⟩
  | .other => ⟨s, []⟩

def remUser (s : State) (rnti : Nat) : Out :=
  match s.users[rnti]? with
  | none => ⟨s, []⟩
  | some u =>
    ⟨{ s with
        srSched := Pucch.srFree s.srSched u.sr
        cqiSched := Pucch.cqiFree s.cqiSched u.cqi
        users := s.users.erase rnti },
      [.macUeRem rnti, .gtpuRemUser rnti, .rlcRemUser rnti, .pdcpRemUser rnti]⟩

/-! ## The interfaces to MAC and S1AP -/

/-- A handler that works on one UE of the table. -/
def onUser (s : State) (rnti : Nat) (f : Ue → Ue × List Action) : Out :=
  match s.users[rnti]? with
  | none => ⟨s, []⟩
  | some u => ⟨s.setUser rnti (f u).1, (f u).2⟩

/-- The bearers of the MBMS RNTI are left out. -/
def addUser (s : State) (rnti : Nat) : Out :=
  if s.users[rnti]?.isSome then ⟨s, []⟩
  else ⟨s.setUser rnti .new, [.rlcAddUser rnti, .pdcpAddUser rnti]⟩

def updUser (s : State) (newRnti oldRnti : Nat) : Out :=
  let out := onUser s oldRnti fun u =>
    if u.isConnected then u.sendConnectionReconfUpd oldRnti else u.sendConnectionRelease oldRnti
  ⟨out.st, .remUserThread newRnti :: out.acts⟩

def writeDlInfo (s : State) (rnti : Nat) (sdu : Pdu) : Out :=
  onUser s rnti fun u => (u, [.dlDcch rnti (.dlInfoTransfer sdu)])

/-- `setup_ue_ctxt`: the handling of an InitialContextSetupRequest. -/
def setupUeCtxt (s : State) (rnti : Nat) (key : Pdu) (es : List ErabItem) : Out :=
  onUser s rnti fun u =>
    let (u, acts) := u.sendSecurityModeCommand rnti
    let (u, acts') := u.setupErabsCtxt rnti es
    (u, .pdcpConfigSecurity rnti 1 key :: acts ++ acts')

def setupUeErabs (s : State) (rnti : Nat) (es : List ErabItem) : Out :=
  onUser s rnti fun u => u.setupErabsBearer s.cfg rnti es

def releaseErabs (s : State) (rnti : Nat) : Out :=
  onUser s rnti fun u => ({ u with erabs := ∅ }, [])

/-- `existsInS1ap`: what `s1ap->user_exists` answers. -/
def processRlFailure (s : State) (rnti : Nat) (existsInS1ap : Bool) : Out :=
  onUser s rnti fun u =>
    let u := { u with rlfCnt := (u.rlfCnt + 1) % 2 ^ 32 }
    if u.rlfCnt = 1 then
      (u, [if existsInS1ap then .s1apUserRelease rnti else .remUserThread rnti])
    else (u, [])

def processReleaseComplete (s : State) (rnti : Nat) : Out :=
  onUser s rnti fun u =>
    if !u.isIdle then
      let (u, acts) := u.sendConnectionRelease rnti
      (u, .rlcClearBuffer rnti :: acts ++ [.remUserThread rnti])
    else (u, [.remUserThread rnti])

/-- The activity monitor finds a UE whose deadline has passed. -/
def isTimeout (s : State) (rnti : Nat) (existsInS1ap : Bool) : Out :=
  if rnti = mrnti then ⟨s, []⟩
  else onUser s rnti fun u =>
    ({ u with state := .releaseRequest },
      if rnti = 0 then []
      else if existsInS1ap then [.s1apUserRelease rnti]
      else [.remUserThread rnti])

/-- The activity monitor reports a UE that is connected. -/
def notifyConnected (s : State) (rnti : Nat) : Out :=
  if rnti = mrnti then ⟨s, []⟩
  else onUser s rnti fun u =>
    if u.isConnected && !u.connectNotified then
      ({ u with connectNotified := true }, [.userConnected rnti])
    else (u, [])

/-! ## The entity as a state machine -/

/-- An entry of `rx_pdu_queue`. -/
inductive QueueItem where
  | srb0 (msg : UlCcchMsg)
  | srb12 (msg : UlDcchMsg)
  | remUser
  | relUser
  | rlfUser (existsInS1ap : Bool)
  | actUser
  | invalid

/-- What can happen to the entity. -/
inductive Event where
  | rx (rnti : Nat) (item : QueueItem)
  | addUser (rnti : Nat)
  | updUser (newRnti oldRnti : Nat)
  | writeDlInfo (rnti : Nat) (sdu : Pdu)
  | setupUeCtxt (rnti : Nat) (key : Pdu) (es : List ErabItem)
  | setupUeErabs (rnti : Nat) (es : List ErabItem)
  | releaseErabs (rnti : Nat)
  | timeout (rnti : Nat) (existsInS1ap : Bool)
  | notifyConnected (rnti : Nat)

/-- One round of `run_thread`, for an RNTI in the table. -/
def handleItem (s : State) (rnti : Nat) : QueueItem → Out
  | .srb0 msg => parseUlCcch s rnti msg
  | .srb12 msg => onUser s rnti fun u => u.parseUlDcch s.cfg rnti msg
  | .remUser => remUser s rnti
  | .relUser => processReleaseComplete s rnti
  | .rlfUser existsInS1ap => processRlFailure s rnti existsInS1ap
  | .actUser => ⟨s, []⟩
  | .invalid => ⟨s, []⟩

def handle (s : State) : Event → Out
  | .rx rnti item => if s.users[rnti]?.isSome then handleItem s rnti item else ⟨s, []⟩
  | .addUser rnti => addUser s rnti
  | .updUser newRnti oldRnti => updUser s newRnti oldRnti
  | .writeDlInfo rnti sdu => writeDlInfo s rnti sdu
  | .setupUeCtxt rnti key es => setupUeCtxt s rnti key es
  | .setupUeErabs rnti es => setupUeErabs s rnti es
  | .releaseErabs rnti => releaseErabs s rnti
  | .timeout rnti existsInS1ap => isTimeout s rnti existsInS1ap
  | .notifyConnected rnti => notifyConnected s rnti

def step (s : State) (e : Event) : State := (handle s e).st

end Srsenb.Rrc
