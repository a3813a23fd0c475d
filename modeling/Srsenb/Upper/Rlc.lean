import Srsenb.Base.Common
import Srsenb.Base.StdMap

/-! # The RLC layer (`upper/rlc.cc`)

The users, each with an entity of the srsLTE library. There is no polling for buffer states: the
layer reports to the MAC each time that it reads or writes. -/

namespace Srsenb.Rlc

abbrev Pdu := List UInt8

/-- `SRSLTE_N_RADIO_BEARERS` -/
def nofRadioBearers : Nat := 11

/-- `srslte::rlc`, the functions that the layer calls. -/
structure UserRlc (ρ : Type) where
  init : ρ
  addBearer : ρ → Nat → ρ
  addBearerMrb : ρ → Nat → ρ
  emptyQueue : ρ → ρ
  /-- What it returns, and the payload. -/
  readPdu : ρ → Nat → Nat → ρ × Int × Pdu
  readPduMch : ρ → Nat → Nat → ρ × Int × Pdu
  getTotalBufferState : ρ → Nat → Nat
  getTotalMchBufferState : ρ → Nat → Nat
  /-- With the SDUs that are handed up on the way. -/
  writePdu : ρ → Nat → Pdu → ρ × List (Nat × Pdu)
  writeSdu : ρ → Nat → Pdu → ρ
  writeSduMch : ρ → Nat → Pdu → ρ
  rbIsUm : ρ → Nat → Bool

/-- What the layer asks of MAC, of PDCP and of the pool of buffers. -/
inductive Action where
  | rlcBufferState (rnti lcid txQueue retxQueue : Nat)
  | pdcpWritePdu (rnti lcid : Nat) (sdu : Pdu)
  | deallocate (sdu : Pdu)
  deriving DecidableEq, Repr

section Layer

variable {ρ : Type} (R : UserRlc ρ) (users : StdMap ρ) (rnti lcid : Nat)

/-! ## Users and bearers -/

/-- `add_user` -/
def addUser : StdMap ρ := if users[rnti]?.isSome then users else users.insert rnti R.init

/-- `rem_user` -/
def remUser : StdMap ρ := users.erase rnti

/-- Both `add_bearer`. -/
def addBearer : StdMap ρ := users.modify rnti fun u => R.addBearer u lcid

/-- `add_bearer_mrb` -/
def addBearerMrb : StdMap ρ := users.modify rnti fun u => R.addBearerMrb u lcid

/-- `clear_buffer` -/
def clearBuffer : StdMap ρ × List Action :=
  (users.modify rnti R.emptyQueue,
    if users[rnti]?.isSome then
      (List.range nofRadioBearers).map fun i => .rlcBufferState rnti i 0 0
    else [])

/-- `rb_is_um` -/
def rbIsUm : Bool :=
  match users[rnti]? with
  | none => false
  | some u => R.rbIsUm u lcid

/-! ## PDUs and SDUs -/

/-- The queue that is reported. -/
def txQueue (u : ρ) : Nat :=
  if rnti ≠ mrnti then R.getTotalBufferState u lcid else R.getTotalMchBufferState u lcid

/-- `read_pdu`; a user that is not there gives `SRSLTE_ERROR`. -/
def readPdu (nofBytes : Nat) : StdMap ρ × (Int × Pdu) × List Action :=
  match users[rnti]? with
  | none => (users, (-1, []), [])
  | some u =>
    let (u, ret) :=
      if rnti ≠ mrnti then R.readPdu u lcid nofBytes else R.readPduMch u lcid nofBytes
    (users.insert rnti u, ret, [.rlcBufferState rnti lcid (txQueue R rnti lcid u) 0])

/-- `write_pdu` -/
def writePdu (payload : Pdu) : StdMap ρ × List Action :=
  match users[rnti]? with
  | none => (users, [])
  | some u =>
    let (u, sdus) := R.writePdu u lcid payload
    (users.insert rnti u, (sdus.map fun s => .pdcpWritePdu rnti s.1 s.2) ++
      [.rlcBufferState rnti lcid (R.getTotalBufferState u lcid) 0])

/-- `write_sdu` -/
def writeSdu (sdu : Pdu) : StdMap ρ × List Action :=
  match users[rnti]? with
  | none => (users, [.deallocate sdu])
  | some u =>
    let u := if rnti ≠ mrnti then R.writeSdu u lcid sdu else R.writeSduMch u lcid sdu
    (users.insert rnti u, [.rlcBufferState rnti lcid (txQueue R rnti lcid u) 0])

end Layer

end Srsenb.Rlc
