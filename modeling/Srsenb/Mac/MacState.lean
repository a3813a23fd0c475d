import Srsenb.Mac.Sched

/-! # The MAC (`mac/mac.cc`, `mac/ue.cc`)

The MAC keeps a database of users beside the one of the scheduler, and hands what the PHY and RRC
tell it to both. PHY, RRC and the queue of received PDUs are outside: what is asked of them is a
`MacAction`. -/

namespace Srsenb.Mac

/-! ## The scheduler's wrappers to its users -/

/-- `sched_args_t`, the MCS part. -/
structure SchedArgs where
  puschMaxMcs : Int := 28
  pdschMaxMcs : Int := 28
  puschMcs : Int := -1
  pdschMcs : Int := -1

instance : Inhabited SchedUe := ⟨.new⟩

namespace Sched

variable (lib : Lib) (s : Sched)

/-- `ue_cfg`; `locations` is what `generate_cce_location` makes of the RNTI. -/
def ueCfg (args : SchedArgs) (locations : Nat → Nat → Nat → DciCce) (rnti : Nat) (cfg : UeCfg)
    (bearers : List Direction) : Sched :=
  { s with
    ueDb := s.ueDb.update rnti fun u =>
      ((u.setCfg lib rnti cfg bearers s.cfg.cell (locations rnti)).setMaxMcs args.puschMaxMcs
        args.pdschMaxMcs).setFixedMcs args.puschMcs args.pdschMcs }

def ueRem (rnti : Nat) : Sched × Int :=
  if s.ueDb[rnti]?.isSome then ({ s with ueDb := s.ueDb.erase rnti }, 0) else (s, -1)

/-- An indication for a user, if it is there. -/
def indicate (rnti : Nat) (f : SchedUe → SchedUe) : Sched × Int :=
  match s.ueDb[rnti]? with
  | some u => ({ s with ueDb := s.ueDb.insert rnti (f u) }, 0)
  | none => (s, -1)

def dlAckInfo (tti rnti : Nat) (tb : Fin 2) (ack : Bool) : Sched × Int :=
  match s.ueDb[rnti]? with
  | some u => ({ s with ueDb := s.ueDb.insert rnti (u.setAckInfo tti tb ack).2 },
      (u.setAckInfo tti tb ack).1)
  | none => (s, -1)

def ulCrcInfo (tti rnti : Nat) (crc : Bool) : Sched × Int :=
  s.indicate rnti fun u => u.setUlCrc tti crc

def dlAntInfo (rnti : Nat) (txMode : TxMode) : Sched × Int :=
  s.indicate rnti fun u => { u with txMode := txMode }

def dlRiInfo (rnti ri : Nat) : Sched × Int := s.indicate rnti fun u => { u with dlRi := ri }

def dlPmiInfo (rnti pmi : Nat) : Sched × Int := s.indicate rnti fun u => { u with dlPmi := pmi }

def dlCqiInfo (tti rnti cqi : Nat) : Sched × Int :=
  s.indicate rnti fun u => { u with dlCqi := cqi, dlCqiTti := tti }

def ulCqiInfo (rnti cqi : Nat) : Sched × Int := s.indicate rnti fun u => { u with ulCqi := cqi }

def ulSrInfo (rnti : Nat) : Sched × Int := s.indicate rnti fun u => { u with sr := true }

/-- The first entry of `pending_rar` that is free is filled. -/
def dlRachInfo (tti raId rnti estimatedSize : Nat) : Sched × Int :=
  match (List.range schedMaxPendingRar).find? fun i => (s.pendingRar i).bufRar = 0 with
  | some i => (s.setRar i { bufRar := estimatedSize, rnti := rnti, raId := raId, rarTti := tti }, 0)
  | none => (s, -1)

end Sched

/-! ## A user of the MAC -/

/-- An index of the arrays of `2 * HARQ_DELAY_MS * SRSLTE_MAX_TB` buffers. -/
abbrev BufferIdx := Fin 16

/-- `ue`, with the counters of its metrics. -/
structure MacUe where
  rnti : Nat
  lastTti : Nat := 0
  nofFailures : Nat := 0
  isPhyAdded : Bool := false
  pendingBuffers : BufferIdx → Option Nat := fun _ => none
  rxBrate : Nat := 0
  rxErrors : Nat := 0
  rxPkts : Nat := 0
  txBrate : Nat := 0
  txErrors : Nat := 0
  txPkts : Nat := 0
  dlRiCounter : Nat := 0
  dlPmiCounter : Nat := 0
  dlCqiCounter : Nat := 0

namespace MacUe

variable (u : MacUe)

/-- A user after `config`. -/
def new (rnti : Nat) : MacUe := { rnti := rnti }

/-- The buffer of a TTI, by `tti%NOF_HARQ_PROCESSES`. -/
def bufferOf (tti : Nat) : BufferIdx := Fin.ofNat 16 tti

def getRxSoftbuffer (tti : Nat) : BufferIdx := bufferOf tti

/-- `request_buffer`; `buffer` is what the queue of PDUs gives. -/
def requestBuffer (tti len : Nat) (buffer : Option Nat) : MacUe × Option Nat :=
  if len > 0 then
    if (u.pendingBuffers (bufferOf tti)).isNone then
      ({ u with pendingBuffers := Function.update u.pendingBuffers (bufferOf tti) buffer }, buffer)
    else (u, none)
  else (u, none)

/-- The buffer is taken out: `push_pdu` queues it and `deallocate_pdu` gives it back. -/
def takeBuffer (tti : Nat) : MacUe :=
  { u with pendingBuffers := Function.update u.pendingBuffers (bufferOf tti) none }

def setTti (tti : Nat) : MacUe := { u with lastTti := tti }

def metricsRx (crc : Bool) (tbs : Nat) : MacUe :=
  if crc then { u with rxBrate := u.rxBrate + tbs * 8, rxPkts := u.rxPkts + 1 }
  else { u with rxErrors := u.rxErrors + 1, rxPkts := u.rxPkts + 1 }

def metricsTx (ack : Bool) (tbs : Nat) : MacUe :=
  if ack then { u with txBrate := u.txBrate + tbs * 8, txPkts := u.txPkts + 1 }
  else { u with txErrors := u.txErrors + 1, txPkts := u.txPkts + 1 }

end MacUe

/-! ## The state -/

/-- `pending_rar_t` -/
structure PendingRar where
  preambleIdx : Nat := 0
  taCmd : Nat := 0
  tempCrnti : Nat := 0

/-- What the MAC asks of PHY, of RRC and of the queue of PDUs. -/
inductive MacAction where
  | phyAddRnti (rnti : Nat)
  | phyRemRnti (rnti : Nat)
  | rrcAddUser (rnti : Nat)
  | rrcRlFailure (rnti : Nat)
  | rrcSetActivityUser (rnti : Nat)
  | pushPdu (buffer len : Nat)
  | deallocatePdu (buffer : Nat)
  | softbufferRxResetTbs (rnti : Nat) (buffer : BufferIdx) (tbs : Int)
  deriving DecidableEq, Repr

/-- `mac`; `ue_db` holds pointers. -/
structure MacState where
  sched : Sched
  ueDb : StdMap (Option MacUe) := ∅
  lastRnti : Nat := 70
  pendingRars : Nat → PendingRar := fun _ => {}
  schedArgs : SchedArgs := {}
  linkFailureNofErr : Int := 0

/-- The state a call leaves, what it asked for, and what it returns. -/
structure MacOut where
  st : MacState
  acts : List MacAction := []
  ret : Int := 0

/-- `MAX_PENDING_RARS` -/
def maxPendingRars : Nat := 64

/-- `MAX_LC` -/
def maxLc : Nat := 6

/-- `generate_format0` does not fill `current_tx_nb`, and `bzero` leaves it 0. -/
def UlSchedData.currentTxNb (_ : UlSchedData) : Nat := 0

/-- A grant of `ul_sched_t`. -/
structure UlSchedGrant where
  rnti : Nat
  currentTxNb : Nat
  needsPdcch : Bool
  grant : UlDci
  location : DciLocation
  softbuffer : BufferIdx
  data : Option Nat

/-- What `get_ul_sched` leaves and hands to the PHY. -/
structure UlSchedOut where
  st : MacState
  grants : List UlSchedGrant := []
  acts : List MacAction := []
  phich : List UlSchedPhich := []

namespace MacState

variable (lib : Lib) (locations : Nat → Nat → Nat → DciCce) (m : MacState)

/-- A pointer is written through; a null one, which is undefined in the source, stays null. -/
def updateUe (rnti : Nat) (f : MacUe → MacUe) : MacState :=
  { m with ueDb := m.ueDb.update rnti (Option.map f) }

/-! ## The interface to RRC -/

/-- `ue_cfg` -/
def ueCfg (rnti : Nat) (cfg : UeCfg) (bearers : List Direction) : MacOut :=
  match m.ueDb[rnti]? with
  | none => ⟨m, [], -1⟩
  | some p =>
    let added := (p.map (·.isPhyAdded)).getD true
    let m := m.updateUe rnti fun u => { u with isPhyAdded := true }
    ⟨{ m with sched := m.sched.ueCfg lib m.schedArgs locations rnti cfg bearers },
      if added then [] else [.phyAddRnti rnti], 0⟩

/-- `ue_rem` -/
def ueRem (rnti : Nat) : MacOut :=
  if m.ueDb[rnti]?.isSome then
    ⟨{ m with sched := (m.sched.ueRem rnti).1, ueDb := m.ueDb.erase rnti }, [.phyRemRnti rnti], 0⟩
  else ⟨m, [], -1⟩

/-- The end of `write_mcch`: the user of the MBMS bearers. -/
def addMbmsUser : MacOut :=
  ⟨{ m with ueDb := m.ueDb.insert mrnti (some (.new mrnti)) }, [.rrcAddUser mrnti], 0⟩

/-! ## Indications of the PHY -/

/-- An indication that only returns -1 when the user is not there. -/
def onUe (rnti : Nat) (f : MacState → MacOut) : MacOut :=
  if m.ueDb[rnti]?.isSome then f m else ⟨m, [], -1⟩

def rlFailure (rnti : Nat) : MacOut :=
  m.onUe rnti fun m =>
    let nofFails := u32 (((m.ueDb.sub rnti).elim 0 (·.nofFailures)) + 1)
    let m := m.updateUe rnti fun u => { u with nofFailures := nofFails }
    if nofFails ≥ toU32 m.linkFailureNofErr ∧ m.linkFailureNofErr > 0 then
      ⟨m.updateUe rnti fun u => { u with nofFailures := 0 }, [.rrcRlFailure rnti], 0⟩
    else ⟨m, [], 0⟩

def rlOk (rnti : Nat) : MacOut :=
  m.onUe rnti fun m => ⟨m.updateUe rnti fun u => { u with nofFailures := 0 }, [], 0⟩

/-- The user is looked up by `operator[]`, without a check. -/
def ackInfo (tti rnti : Nat) (tb : Fin 2) (ack : Bool) : MacOut :=
  let (sched, bytes) := m.sched.dlAckInfo tti rnti tb ack
  let nofBytes := toU32 bytes
  ⟨{ m with sched := sched }.updateUe rnti (·.metricsTx ack nofBytes),
    if ack && decide (nofBytes > 64) then [.rrcSetActivityUser rnti] else [], 0⟩

def crcInfo (tti rnti nofBytes : Nat) (crc : Bool) : MacOut :=
  m.onUe rnti fun m =>
    let buffer := (m.ueDb.sub rnti).bind (·.pendingBuffers (MacUe.bufferOf tti))
    let m := m.updateUe rnti fun u => ((u.setTti tti).metricsRx crc nofBytes).takeBuffer tti
    let (sched, ret) := m.sched.ulCrcInfo tti rnti crc
    ⟨{ m with sched := sched },
      match buffer with
      | some b => if crc then [.pushPdu b nofBytes] else [.deallocatePdu b]
      | none => [],
      ret⟩

def setDlAntInfo (rnti : Nat) (txMode : TxMode) : MacOut :=
  m.onUe rnti fun m => ⟨{ m with sched := (m.sched.dlAntInfo rnti txMode).1 }, [], 0⟩

def riInfo (rnti ri : Nat) : MacOut :=
  m.onUe rnti fun m =>
    ⟨{ m with sched := (m.sched.dlRiInfo rnti ri).1 }.updateUe rnti
      fun u => { u with dlRiCounter := u.dlRiCounter + 1 }, [], 0⟩

def pmiInfo (rnti pmi : Nat) : MacOut :=
  m.onUe rnti fun m =>
    ⟨{ m with sched := (m.sched.dlPmiInfo rnti pmi).1 }.updateUe rnti
      fun u => { u with dlPmiCounter := u.dlPmiCounter + 1 }, [], 0⟩

def cqiInfo (tti rnti cqi : Nat) : MacOut :=
  m.onUe rnti fun m =>
    ⟨{ m with sched := (m.sched.dlCqiInfo tti rnti cqi).1 }.updateUe rnti
      fun u => { u with dlCqiCounter := u.dlCqiCounter + 1 }, [], 0⟩

/-- `cqi` is what `srslte_cqi_from_snr` makes of the SNR. -/
def snrInfo (rnti cqi : Nat) : MacOut :=
  m.onUe rnti fun m => ⟨{ m with sched := (m.sched.ulCqiInfo rnti cqi).1 }, [], 0⟩

def srDetected (rnti : Nat) : MacOut :=
  m.onUe rnti fun m => ⟨{ m with sched := (m.sched.ulSrInfo rnti).1 }, [], 0⟩

/-- The loop of `rach_detected`: a full array gives its last entry. -/
def findRar (m : MacState) : Nat → Nat → Nat
  | 0, raId => raId
  | fuel + 1, raId =>
    if (m.pendingRars raId).tempCrnti ≠ 0 ∧ raId < maxPendingRars - 1 then findRar m fuel (raId + 1)
    else raId

def rachDetected (tti preambleIdx timeAdv : Nat) : MacOut :=
  let raId := m.findRar maxPendingRars 0
  if raId = maxPendingRars then ⟨m, [], -1⟩
  else
    let rnti := m.lastRnti
    let rar : PendingRar := ⟨preambleIdx, timeAdv, rnti⟩
    let bearers := .both :: List.replicate (maxLc - 1) .idle
    let sched := m.sched.ueCfg lib m.schedArgs locations rnti {} bearers
    let last := (rnti + 1) % 2 ^ 16
    ⟨{ m with
        ueDb := m.ueDb.insert rnti (some (.new rnti))
        pendingRars := Function.update m.pendingRars raId rar
        sched := (sched.dlRachInfo tti raId rnti 7).1
        lastRnti := if last ≥ 60000 then 70 else last },
      [.rrcAddUser rnti], 0⟩

/-! ## The uplink scheduler's results -/

/-- The round of `get_ul_sched` for one element of `pusch`. The test on `current_tx_nb` reads the
element that has the number of the grants so far. -/
def ulGrant (tti : Nat) (pusch : List UlSchedData) (buffers : Nat → Option Nat) (out : UlSchedOut)
    (d : UlSchedData) : UlSchedOut :=
  if d.tbs > 0 then
    match out.st.ueDb[d.rnti]? with
    | none => out
    | some p =>
      let n := out.grants.length
      let softbuffer := MacUe.getRxSoftbuffer tti
      let requested := p.map fun u => u.requestBuffer tti d.tbs.toNat (buffers n)
      { out with
        st := { out.st with ueDb := out.st.ueDb.insert d.rnti (requested.map (·.1)) }
        grants := out.grants ++ [
          { rnti := d.rnti, currentTxNb := d.currentTxNb, needsPdcch := d.needsPdcch
            grant := d.dci, location := d.dciLocation, softbuffer := softbuffer
            data := requested.bind (·.2) }]
        acts := out.acts ++ if (pusch.getD n {}).currentTxNb = 0 then
          [.softbufferRxResetTbs d.rnti softbuffer (d.tbs * 8)] else [] }
  else out

/-- `get_ul_sched`; `buffers` is what the queues of PDUs give for each grant. -/
def getUlSched (tti : Nat) (buffers : Nat → Option Nat) : UlSchedOut :=
  let (sched, res) := m.sched.ulSched lib tti
  let out := res.pusch.foldl (ulGrant tti res.pusch buffers) { st := { m with sched := sched } }
  { out with phich := res.phich }

end MacState

end Srsenb.Mac
