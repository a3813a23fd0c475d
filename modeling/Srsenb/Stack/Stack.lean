import Srsenb.Mac.MacUsers
import Srsenb.Mac.NewData
import Srsenb.Mac.UlPdu
import Srsenb.Upper.Gtpu
import Srsenb.Upper.Pdcp
import Srsenb.Upper.Rlc
import Srsenb.Upper.Rrc

/-! # The layers of the eNodeB together

MAC, RLC, PDCP, GTP-U and RRC, and the calls between them. A call is part of the event that makes
it. What goes through the queue of RRC comes later, as an event of its own. -/

namespace Srsenb.Mac

/-! ## What MAC offers to RLC and RRC -/

/-- `dl_buffer_state`; the sizes are stored as an `int`. -/
def SchedUe.dlBufferState (u : SchedUe) (lcid txQueue retxQueue : Nat) : SchedUe :=
  { u with lch := u.lch.modify lcid fun b =>
      { b with bufTx := i32 txQueue, bufRetx := i32 retxQueue } }

namespace Sched

variable (s : Sched)

/-- `dl_rlc_buffer_state`; the channel is passed on as a `uint8_t`. -/
def dlRlcBufferState (rnti lcid txQueue retxQueue : Nat) : Sched × Int :=
  s.indicate rnti fun u => u.dlBufferState (lcid % 2 ^ 8) txQueue retxQueue

/-- `phy_config_enabled` -/
def phyConfigEnabled (rnti : Nat) (enabled : Bool) : Sched :=
  (s.indicate rnti fun u =>
    { u with dlCqiTti := s.currentTti, phyConfigDedicatedEnabled := enabled }).1

end Sched

namespace MacState

variable (m : MacState)

/-- `rlc_buffer_state`; the sizes of the MTCHs, which the MBMS user reports, are left out. -/
def rlcBufferState (rnti lcid txQueue retxQueue : Nat) : MacState :=
  if m.ueDb[rnti]?.isSome ∧ rnti ≠ mrnti then
    { m with sched := (m.sched.dlRlcBufferState rnti lcid txQueue retxQueue).1 }
  else m

/-- `bearer_ue_cfg`, without the group of the channel. -/
def bearerUeCfg (rnti lcid : Nat) (direction : Direction) : MacState :=
  if m.ueDb[rnti]?.isSome then
    { m with sched := m.sched.bearerUeCfg rnti lcid direction }
  else m

/-- `phy_config_enabled` -/
def phyConfigEnabled (rnti : Nat) (enabled : Bool) : MacState :=
  { m with sched := m.sched.phyConfigEnabled rnti enabled }

end MacState

end Srsenb.Mac

namespace Srsenb.Stack

open Mac (MacState MacEvent MacAction)

/-- What the layers are built with. -/
structure Env (ρ π : Type) where
  lib : Mac.Lib
  locations : Nat → Nat → Nat → Mac.DciCce
  rlc : Rlc.UserRlc ρ
  pdcp : Pdcp.UserPdcp π
  /-- A downlink message of RRC as it is packed. -/
  pack : Rrc.DlMsg → Rlc.Pdu
  /-- What RRC configures for every user. -/
  ueCfg : Mac.UeCfg := {}

/-- What leaves the layers: a G-PDU, or an entry of the queue of RRC. -/
inductive Output where
  | sendto (addr teid : Nat) (pdu : Gtpu.Pdu)
  | rrcPdu (lcid : Nat) (pdu : Rlc.Pdu)
  deriving DecidableEq, Repr

/-- The layers, and what left them so far, each with its user. -/
structure State (ρ π : Type) where
  mac : MacState
  rrc : Rrc.State
  rlc : StdMap ρ := ∅
  pdcp : StdMap π := ∅
  gtpu : Gtpu.RntiBearers := ∅
  sent : List (Nat × Output) := []

namespace State

variable {ρ π : Type} (E : Env ρ π) (st : State ρ π)

def output (rnti : Nat) (o : Output) : State ρ π := { st with sent := st.sent ++ [(rnti, o)] }

/-- An RNTI as GTP-U has it, -/
def rntiOf (rnti : Nat) : Gtpu.Rnti := ⟨rnti % 2 ^ 16, Nat.mod_lt _ (by decide)⟩

/-- and a channel. What the source writes past its arrays goes to another place of them here. -/
def lcidOf (lcid : Nat) : Gtpu.Lcid := ⟨lcid % 11, Nat.mod_lt _ (by decide)⟩

/-! ## Between MAC, RLC and PDCP -/

/-- What RLC asks for when it reads or takes an SDU. -/
def rlcReport (st : State ρ π) : Rlc.Action → State ρ π
  | .rlcBufferState rnti lcid txQueue retxQueue =>
    { st with mac := st.mac.rlcBufferState rnti lcid txQueue retxQueue }
  | _ => st

def rlcReadPdu (rnti lcid nofBytes : Nat) : State ρ π :=
  let (rlc, _, acts) := Rlc.readPdu E.rlc st.rlc rnti lcid nofBytes
  acts.foldl rlcReport { st with rlc := rlc }

def rlcWriteSdu (rnti lcid : Nat) (sdu : Rlc.Pdu) : State ρ π :=
  let (rlc, acts) := Rlc.writeSdu E.rlc st.rlc rnti lcid sdu
  acts.foldl rlcReport { st with rlc := rlc }

def rlcClearBuffer (rnti : Nat) : State ρ π :=
  let (rlc, acts) := Rlc.clearBuffer E.rlc st.rlc rnti
  acts.foldl rlcReport { st with rlc := rlc }

/-- `write_pdu` of GTP-U for a PDU that has room for the header. -/
def gtpuWritePdu (rnti lcid : Nat) (pdu : Gtpu.Pdu) : State ρ π :=
  let (gtpu, acts) := Gtpu.writePdu st.gtpu (rntiOf rnti) (lcidOf lcid) pdu true
  acts.foldl (fun st a =>
    match a with
    | .sendto addr teid pdu => st.output rnti (.sendto addr teid pdu)
    | .writeSdu _ _ _ => st) { st with gtpu := gtpu }

/-- What PDCP asks for; RRC queues its PDUs. -/
def pdcpAction (st : State ρ π) : Pdcp.Action → State ρ π
  | .rlcWriteSdu rnti lcid sdu => st.rlcWriteSdu E rnti lcid sdu
  | .rrcWritePdu rnti lcid pdu => st.output rnti (.rrcPdu lcid pdu)
  | .gtpuWritePdu rnti lcid pdu => st.gtpuWritePdu rnti lcid pdu
  | .deallocate _ => st

def pdcpWriteSdu (rnti lcid : Nat) (sdu : Pdcp.Pdu) : State ρ π :=
  let (pdcp, acts) :=
    Pdcp.writeSdu E.pdcp st.pdcp rnti lcid (Rlc.rbIsUm E.rlc st.rlc rnti) sdu
  acts.foldl (pdcpAction E) { st with pdcp := pdcp }

def pdcpWritePdu (rnti lcid : Nat) (sdu : Pdcp.Pdu) : State ρ π :=
  let (pdcp, acts) := Pdcp.writePdu E.pdcp st.pdcp rnti lcid sdu
  acts.foldl (pdcpAction E) { st with pdcp := pdcp }

/-- What RLC asks for when it takes a PDU. -/
def rlcAction (st : State ρ π) : Rlc.Action → State ρ π
  | .pdcpWritePdu rnti lcid sdu => st.pdcpWritePdu E rnti lcid sdu
  | a => st.rlcReport a

def rlcWritePdu (rnti lcid : Nat) (payload : Rlc.Pdu) : State ρ π :=
  let (rlc, acts) := Rlc.writePdu E.rlc st.rlc rnti lcid payload
  acts.foldl (rlcAction E) { st with rlc := rlc }

/-- The branch of GTP-U's `run_thread` for a G-PDU. -/
def gtpuDataPdu (teid : Nat) (pdu : Gtpu.Pdu) : State ρ π :=
  (Gtpu.dataPdu st.gtpu teid pdu).foldl (fun st a =>
    match a with
    | .writeSdu rnti lcid pdu => st.pdcpWriteSdu E rnti lcid pdu
    | .sendto _ _ _ => st) st

/-! ## RRC and MAC -/

/-- The configuration that `send_connection_setup` gives to the scheduler: SRB0 and SRB1. -/
def setupBearers : List Mac.Direction :=
  [.both, .both] ++ List.replicate (Mac.maxLc - 2) .idle

/-- What RRC asks for. PHY, S1AP and the queue are outside. -/
def rrcAction (st : State ρ π) : Rrc.Action → State ρ π
  | .dlCcch rnti msg => st.pdcpWriteSdu E rnti 0 (E.pack msg)
  | .dlDcch rnti msg => st.pdcpWriteSdu E rnti 1 (E.pack msg)
  | .macUeCfg rnti srI srNPucch cqiIdx cqiPucch cqiEnabled =>
    { st with mac := (st.mac.ueCfg E.lib E.locations rnti { E.ueCfg with
        srEnabled := true, srI := srI, srNPucch := srNPucch, cqiIdx := cqiIdx
        cqiPucch := cqiPucch, cqiEnabled := cqiEnabled } setupBearers).st }
  | .macPhyConfigEnabled rnti enabled => { st with mac := st.mac.phyConfigEnabled rnti enabled }
  | .macBearerUeCfg rnti lcid => { st with mac := st.mac.bearerUeCfg rnti lcid .both }
  | .macUeRem rnti => { st with mac := (st.mac.ueRem rnti).st }
  | .rlcAddUser rnti => { st with rlc := Rlc.addUser E.rlc st.rlc rnti }
  | .rlcAddBearer rnti lcid => { st with rlc := Rlc.addBearer E.rlc st.rlc rnti lcid }
  | .rlcClearBuffer rnti => st.rlcClearBuffer E rnti
  | .rlcRemUser rnti => { st with rlc := Rlc.remUser st.rlc rnti }
  | .pdcpAddUser rnti => { st with pdcp := Pdcp.addUser E.pdcp st.pdcp rnti }
  | .pdcpAddBearer rnti lcid => { st with pdcp := Pdcp.addBearer E.pdcp st.pdcp rnti lcid }
  | .pdcpConfigSecurity rnti lcid key =>
    { st with pdcp := Pdcp.configSecurity E.pdcp st.pdcp rnti lcid key }
  | .pdcpRemUser rnti => { st with pdcp := Pdcp.remUser st.pdcp rnti }
  | .gtpuAddBearer rnti lcid addr teidOut =>
    { st with
      gtpu := (Gtpu.addBearer st.gtpu (rntiOf rnti) (lcidOf lcid) addr teidOut).1 }
  | .gtpuRemUser rnti => { st with gtpu := Gtpu.remUser st.gtpu (rntiOf rnti) }
  | _ => st

def rrcCall (e : Rrc.Event) : State ρ π :=
  let out := Rrc.handle st.rrc e
  out.acts.foldl (rrcAction E) { st with rrc := out.st }

/-- What MAC asks for. What it queues for RRC comes later, and PHY is outside. -/
def macAction (st : State ρ π) : MacAction → State ρ π
  | .rrcAddUser rnti => st.rrcCall E (.addUser rnti)
  | _ => st

def macCall (e : MacEvent) : State ρ π :=
  let out := st.mac.handle E.lib E.locations e
  out.acts.foldl (macAction E) { st with mac := out.st }

end State

/-! ## Events -/

/-- What can happen: PHY, PRACH or the start of MBMS call MAC, MAC schedules a subframe, reads
from RLC for it and passes on what it received, a G-PDU comes, or RRC has work: its thread, its
activity monitor, S1AP, or MAC for a C-RNTI element. -/
inductive Event where
  | mac (e : MacEvent)
  | getDlSched (tti : Nat) (paging : Option Nat) (generatePdu : Nat → Mac.GeneratePdu)
  | getUlSched (tti : Nat) (buffers : Nat → Option Nat)
  | ulBsr (rnti lcid bsr : Nat) (setValue : Bool)
  | readPdu (rnti lcid nofBytes : Nat)
  | writePdu (rnti lcid : Nat) (payload : Rlc.Pdu)
  | dataPdu (teid : Nat) (pdu : Gtpu.Pdu)
  | rrc (e : Rrc.Event)

variable {ρ π : Type} (E : Env ρ π)

def step (st : State ρ π) : Event → State ρ π
  | .mac e => st.macCall E e
  | .getDlSched tti paging generatePdu =>
    { st with mac := (st.mac.getDlSched E.lib tti paging generatePdu).1 }
  | .getUlSched tti buffers => { st with mac := (st.mac.getUlSched E.lib tti buffers).st }
  | .ulBsr rnti lcid bsr setValue =>
    { st with mac := { st.mac with sched := st.mac.sched.ulBsr rnti lcid bsr setValue } }
  | .readPdu rnti lcid nofBytes => st.rlcReadPdu E rnti lcid nofBytes
  | .writePdu rnti lcid payload => st.rlcWritePdu E rnti lcid payload
  | .dataPdu teid pdu => st.gtpuDataPdu E teid pdu
  | .rrc e => st.rrcCall E e

/-- The layers before the first user. -/
def init (sched : Mac.Sched) (cfg : Rrc.Cfg) : State ρ π where
  mac := MacState.init sched
  rrc := Rrc.init cfg

/-! ## An example -/

/-- An entity that keeps the bytes which wait on each channel. -/
def exampleRlc : Rlc.UserRlc (Nat → Nat) where
  init := fun _ => 0
  addBearer u _ := u
  addBearerMrb u _ := u
  emptyQueue _ := fun _ => 0
  readPdu u lcid n :=
    (Function.update u lcid (u lcid - n), min (u lcid) n, List.replicate (min (u lcid) n) 0)
  readPduMch u lcid n :=
    (Function.update u lcid (u lcid - n), min (u lcid) n, List.replicate (min (u lcid) n) 0)
  getTotalBufferState u lcid := if lcid < Rlc.nofRadioBearers then min (u lcid) 10000 else 0
  getTotalMchBufferState u lcid := u lcid
  writePdu u lcid payload := (u, [(lcid, payload)])
  writeSdu u lcid sdu := Function.update u lcid (u lcid + sdu.length)
  writeSduMch u lcid sdu := Function.update u lcid (u lcid + sdu.length)
  rbIsUm _ _ := false

/-- An entity that passes on what it gets. -/
def examplePdcp : Pdcp.UserPdcp Unit where
  init := ()
  addBearer u _ := u
  addBearerMrb u _ := u
  reset u := u
  configSecurity u _ _ := u
  enableIntegrity u _ := u
  enableEncryption u _ := u
  writeSdu u _ lcid sdu := (u, [(lcid, sdu)])
  writeSduMch u _ lcid sdu := (u, [(lcid, sdu)])
  writePdu u lcid pdu := (u, [if lcid < Gtpu.nofSrb then .rrc lcid pdu else .gtpu lcid pdu])

def exampleEnv : Env (Nat → Nat) Unit where
  lib := Mac.exampleLib
  locations := fun _ _ _ => ⟨fun L n => n * 2 ^ L, fun _ => 4⟩
  rlc := exampleRlc
  pdcp := examplePdcp
  pack := fun _ => [0, 0, 0, 0, 0, 0, 0, 0]
  ueCfg := { maxharqTx := 4 }

end Srsenb.Stack
