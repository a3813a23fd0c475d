import Srsenb.Base.Common
import Srsenb.Base.StdMap

/-! # The PDCP layer (`upper/pdcp.cc`)

The users, each with an entity of the srsLTE library, between RRC and GTP-U on one side and RLC on
the other. -/

namespace Srsenb.Pdcp

abbrev Pdu := List UInt8

/-- What an entity hands up: to RRC or to GTP-U. -/
inductive Delivery where
  | rrc (lcid : Nat) (pdu : Pdu)
  | gtpu (lcid : Nat) (pdu : Pdu)
  deriving DecidableEq, Repr

/-- `srslte::pdcp`, the functions that the layer calls. -/
structure UserPdcp (π : Type) where
  init : π
  addBearer : π → Nat → π
  addBearerMrb : π → Nat → π
  reset : π → π
  configSecurity : π → Nat → Pdu → π
  enableIntegrity : π → Nat → π
  enableEncryption : π → Nat → π
  /-- With what `rb_is_um` of RLC answers, and the SDUs that are handed down. -/
  writeSdu : π → (Nat → Bool) → Nat → Pdu → π × List (Nat × Pdu)
  writeSduMch : π → (Nat → Bool) → Nat → Pdu → π × List (Nat × Pdu)
  writePdu : π → Nat → Pdu → π × List Delivery

/-- What the layer asks of RLC, RRC, GTP-U and the pool of buffers. -/
inductive Action where
  | rlcWriteSdu (rnti lcid : Nat) (sdu : Pdu)
  | rrcWritePdu (rnti lcid : Nat) (pdu : Pdu)
  | gtpuWritePdu (rnti lcid : Nat) (pdu : Pdu)
  | deallocate (sdu : Pdu)
  deriving DecidableEq, Repr

section Layer

variable {π : Type} (P : UserPdcp π) (users : StdMap π) (rnti lcid : Nat)

/-! ## Users and bearers -/

/-- `add_user` -/
def addUser : StdMap π := if users[rnti]?.isSome then users else users.insert rnti P.init

/-- `rem_user` -/
def remUser : StdMap π := users.erase rnti

/-- `add_bearer` -/
def addBearer : StdMap π :=
  users.modify rnti fun u => if rnti ≠ mrnti then P.addBearer u lcid else P.addBearerMrb u lcid

/-- `reset` -/
def reset : StdMap π := users.modify rnti P.reset

/-- `config_security` -/
def configSecurity (key : Pdu) : StdMap π :=
  users.modify rnti fun u =>
    P.enableEncryption (P.enableIntegrity (P.configSecurity u lcid key) lcid) lcid

/-! ## PDUs and SDUs -/

/-- The interface of a user to RRC or GTP-U puts its RNTI in front. -/
def Delivery.action : Delivery → Action
  | rrc lcid pdu => .rrcWritePdu rnti lcid pdu
  | gtpu lcid pdu => .gtpuWritePdu rnti lcid pdu

/-- `write_pdu` -/
def writePdu (sdu : Pdu) : StdMap π × List Action :=
  match users[rnti]? with
  | none => (users, [.deallocate sdu])
  | some u =>
    let (u, out) := P.writePdu u lcid sdu
    (users.insert rnti u, out.map (Delivery.action rnti))

/-- `write_sdu` -/
def writeSdu (rbIsUm : Nat → Bool) (sdu : Pdu) : StdMap π × List Action :=
  match users[rnti]? with
  | none => (users, [.deallocate sdu])
  | some u =>
    let (u, out) :=
      if rnti ≠ mrnti then P.writeSdu u rbIsUm lcid sdu else P.writeSduMch u rbIsUm lcid sdu
    (users.insert rnti u, out.map fun s => .rlcWriteSdu rnti s.1 s.2)

end Layer

end Srsenb.Pdcp
