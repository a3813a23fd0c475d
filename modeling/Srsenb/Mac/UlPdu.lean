import Srsenb.Mac.MacState
import Srsenb.Upper.Rrc

/-! # Received MAC PDUs (`mac/ue.cc`)

`process_pdu` goes over the subheaders of a PDU twice, first for the SDUs and then for the control
elements. What it asks of RLC, of RRC and of the scheduler is a `UeCall`. -/

namespace Srsenb.Mac

/-- `sch_subh`, with what its getters give; an invalid index of a BSR is `none`. -/
inductive SchSubh where
  | sdu (lcid : Nat) (payload : List UInt8)
  | phrReport (phr : Int)
  | crnti (cRnti : Nat)
  | truncBsr (lcg : Option (Fin 4)) (buffSize : Nat)
  | shortBsr (lcg : Option (Fin 4)) (buffSize : Nat)
  | longBsr (buffSize : Fin 4 → Nat)
  | padding
  | other

def SchSubh.isSdu : SchSubh → Bool
  | .sdu _ _ => true
  | _ => false

/-- The groups that a control element reports, with their sizes. -/
def SchSubh.reported : SchSubh → List (Fin 4 × Nat)
  | .truncBsr (some lcg) buffSize | .shortBsr (some lcg) buffSize => [(lcg, buffSize)]
  | .longBsr buffSize => (List.finRange 4).map fun lcg => (lcg, buffSize lcg)
  | _ => []

/-- What `ue` asks of the other layers. -/
inductive UeCall where
  | rlcWritePdu (rnti lcid : Nat) (payload : List UInt8)
  | rrcSetActivityUser (rnti : Nat)
  | rrcUpdUser (newRnti oldRnti : Nat)
  | schedUlBsr (rnti lcid bsr : Nat) (setValue : Bool)
  | schedUlPhr (rnti : Nat) (phr : Int)
  deriving DecidableEq

/-- The part of `ue` that the reception reads. -/
structure RxUe where
  rnti : Nat := 0
  lcGroups : Fin 4 → List Nat := fun _ => []

namespace RxUe

variable (u : RxUe)

/-- `set_lcg`: the channel is taken out of the group that it is put into, and of no other. -/
def setLcg (lcid : Nat) (lcg : Fin 4) : RxUe :=
  { u with
    lcGroups := Function.update u.lcGroups lcg ((u.lcGroups lcg).filter (· ≠ lcid) ++ [lcid]) }

/-- The part of `config`. -/
def config (rnti : Nat) : RxUe := ({ u with rnti := rnti }.setLcg 0 0).setLcg 1 0

/-- The calls of `set_lcg` in `config`. -/
def configLcgs : List (Nat × Fin 4) := [(0, 0), (1, 0)]

/-- `ul_bsr` for the channels of a group. -/
def bsrCalls (lcg : Fin 4) (buffSize : Nat) : List UeCall :=
  (u.lcGroups lcg).map fun lcid => .schedUlBsr u.rnti lcid buffSize true

/-- `process_ce`: the user, its calls, and whether the element is a BSR. -/
def processCe (ueExists : Nat → Bool) : SchSubh → RxUe × List UeCall × Bool
  | .phrReport phr => (u, [.schedUlPhr u.rnti phr], false)
  | .crnti oldRnti =>
    if ueExists oldRnti then ({ u with rnti := oldRnti }, [.rrcUpdUser u.rnti oldRnti], false)
    else (u, [], false)
  | .truncBsr (some idx) buffSize | .shortBsr (some idx) buffSize =>
    (u, u.bsrCalls idx buffSize, true)
  | .truncBsr none _ | .shortBsr none _ => (u, [], false)
  | .longBsr buffSize =>
    (u, (List.finRange 4).flatMap fun idx => u.bsrCalls idx (buffSize idx), true)
  | .sdu _ _ | .padding | .other => (u, [], false)

/-- Whether an SDU is routed: one of channel 0 that adds up to 0 is not. -/
def routePdu (lcid : Nat) (payload : List UInt8) : Bool :=
  !(lcid == 0 && u32 (payload.map UInt8.toNat).sum == 0)

/-- The calls for an SDU. -/
def sduCalls (lcid : Nat) (payload : List UInt8) : List UeCall :=
  (if routePdu lcid payload then [.rlcWritePdu u.rnti lcid payload] else []) ++
    if payload.length > 64 then [.rrcSetActivityUser u.rnti] else []

/-- The first loop of `process_pdu`. -/
def sduPass (pdu : List SchSubh) : List UeCall :=
  pdu.flatMap fun
    | .sdu lcid payload => u.sduCalls lcid payload
    | _ => []

/-- `lcid_most_data`, with `most_data`: the channel of the first of the longest SDUs. -/
def mostData (best : Nat × Int) : SchSubh → Nat × Int
  | .sdu lcid payload => if (payload.length : Int) > best.2 then (lcid, payload.length) else best
  | _ => best

/-- The second loop, with `bsr_received`. -/
def cePass (ueExists : Nat → Bool) : RxUe → List SchSubh → RxUe × List UeCall × Bool
  | u, [] => (u, [], false)
  | u, ce :: pdu =>
    let (u, calls, isBsr) := u.processCe ueExists ce
    let (u, calls', bsrReceived) := cePass ueExists u pdu
    (u, calls ++ calls', isBsr || bsrReceived)

/-- `process_pdu` -/
def processPdu (ueExists : Nat → Bool) (pdu : List SchSubh) : RxUe × List UeCall :=
  let calls := u.sduPass pdu
  let lcidMostData := (pdu.foldl mostData (0, -99)).1
  let (u, calls', bsrReceived) := cePass ueExists u pdu
  (u, calls ++ calls' ++
    if !bsrReceived && decide (lcidMostData > 2) then [.schedUlBsr u.rnti lcidMostData 256 false]
    else [])

end RxUe

/-! ## The scheduler's side -/

/-- `ul_buffer_state` -/
def SchedUe.ulBufferState (u : SchedUe) (lcid bsr : Nat) (setValue : Bool) : SchedUe :=
  { u with
    lch := u.lch.modify lcid fun b => { b with bsr := if setValue then bsr else b.bsr + bsr } }

/-- `set_bearer_cfg` -/
def SchedUe.setBearerCfg (u : SchedUe) (lcid : Nat) (direction : Direction) : SchedUe :=
  { u with
    lch := u.lch.modify lcid fun b => { b with direction := direction, bufTx := 0, bufRetx := 0 } }

/-- `rem_bearer` -/
def SchedUe.remBearer (u : SchedUe) (lcid : Nat) : SchedUe :=
  { u with lch := u.lch.modify lcid fun _ => {} }

namespace Sched

variable (s : Sched)

/-- `ul_bsr`; the channel is passed on as a `uint8_t`. -/
def ulBsr (rnti lcid bsr : Nat) (setValue : Bool) : Sched :=
  (s.indicate rnti fun u => u.ulBufferState (lcid % 2 ^ 8) bsr setValue).1

def bearerUeCfg (rnti lcid : Nat) (direction : Direction) : Sched :=
  (s.indicate rnti fun u => u.setBearerCfg lcid direction).1

def bearerUeRem (rnti lcid : Nat) : Sched := (s.indicate rnti fun u => u.remBearer lcid).1

/-- What a call of `ue` does to the scheduler. -/
def ueCall : Sched → UeCall → Sched
  | s, .schedUlBsr rnti lcid bsr setValue => s.ulBsr rnti lcid bsr setValue
  | s, _ => s

end Sched

end Srsenb.Mac
