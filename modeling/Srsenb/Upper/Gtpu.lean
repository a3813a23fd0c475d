import Srsenb.Base.StdMap

/-! # GTP-U (`upper/gtpu.cc`)

The tunnels of each user, and the PDUs in both directions. The socket and PDCP are outside: what
the entity asks of them is an `Action`. -/

namespace Srsenb.Gtpu

abbrev Pdu := List UInt8

/-- `SRSENB_N_SRB` -/
def nofSrb : Nat := 3

/-- `SRSENB_N_RADIO_BEARERS` -/
def nofRadioBearers : Nat := 11

/-- A `uint16_t`. -/
abbrev Rnti := Fin (2 ^ 16)

/-- An index of the arrays of a user. -/
abbrev Lcid := Fin 11

/-- `bearer_map` -/
structure BearerMap where
  teidsIn : Lcid → Nat
  teidsOut : Lcid → Nat
  spgwAddrs : Lcid → Nat

instance : Inhabited BearerMap := ⟨⟨fun _ => 0, fun _ => 0, fun _ => 0⟩⟩

/-- `rnti_bearers` -/
abbrev RntiBearers := StdMap BearerMap

/-- What GTP-U asks of the socket and of PDCP. -/
inductive Action where
  | sendto (addr teid : Nat) (pdu : Pdu)
  | writeSdu (rnti lcid : Nat) (pdu : Pdu)
  deriving DecidableEq, Repr

/-! ## TEIDs -/

/-- `teidin_to_rntilcid` -/
def teidinToRntilcid (teidin : Nat) : Nat × Nat := ((teidin >>> 16) &&& 0xFFFF, teidin &&& 0xFFFF)

/-- `rntilcid_to_teidin` -/
def rntilcidToTeidin (rnti lcid : Nat) : Nat := (rnti <<< 16) ||| lcid

theorem rntilcidToTeidin_eq {rnti lcid : Nat} (h : lcid < 2 ^ 16) :
    rntilcidToTeidin rnti lcid = rnti * 2 ^ 16 + lcid := by
  unfold rntilcidToTeidin
  rw [← Nat.shiftLeft_add_eq_or_of_lt h, Nat.shiftLeft_eq]

theorem teidinToRntilcid_eq (teidin : Nat) :
    teidinToRntilcid teidin = (teidin / 2 ^ 16 % 2 ^ 16, teidin % 2 ^ 16) := by
  unfold teidinToRntilcid
  have h := fun n => Nat.and_two_pow_sub_one_eq_mod n 16
  simp only [show (0xFFFF : Nat) = 2 ^ 16 - 1 from rfl, h, Nat.shiftRight_eq_div_pow]

/-- A TEID of 32 bits is the one of the pair it is split into. -/
theorem rntilcidToTeidin_split {teidin : Nat} (h : teidin < 2 ^ 32) :
    rntilcidToTeidin (teidinToRntilcid teidin).1 (teidinToRntilcid teidin).2 = teidin := by
  rw [teidinToRntilcid_eq, rntilcidToTeidin_eq (Nat.mod_lt _ (by omega))]
  omega

/-! ## Bearers -/

/-- `add_bearer`, with `teid_in`. -/
def addBearer (db : RntiBearers) (rnti : Rnti) (lcid : Lcid) (addr teidOut : Nat) :
    RntiBearers × Nat :=
  let teidIn := rntilcidToTeidin rnti lcid
  let db := if db[rnti.val]?.isNone then db.touch rnti else db
  (db.update rnti fun b =>
    { teidsIn := Function.update b.teidsIn lcid teidIn
      teidsOut := Function.update b.teidsOut lcid teidOut
      spgwAddrs := Function.update b.spgwAddrs lcid addr }, teidIn)

/-- `rem_bearer` -/
def remBearer (db : RntiBearers) (rnti : Rnti) (lcid : Lcid) : RntiBearers :=
  let db := db.update rnti fun b =>
    { b with
      teidsIn := Function.update b.teidsIn lcid 0
      teidsOut := Function.update b.teidsOut lcid 0 }
  if (List.finRange nofRadioBearers).all fun i => (db.sub rnti).teidsIn i = 0 then
    db.erase rnti
  else db

/-- `rem_user` -/
def remUser (db : RntiBearers) (rnti : Rnti) : RntiBearers := db.erase rnti

/-! ## PDUs -/

/-- `write_pdu`; `headerOk`: the header can be written in front of the PDU. -/
def writePdu (db : RntiBearers) (rnti : Rnti) (lcid : Lcid) (pdu : Pdu) (headerOk : Bool) :
    RntiBearers × List Action :=
  let db := db.touch rnti
  let b := db.sub rnti
  (db, if headerOk then [.sendto (b.spgwAddrs lcid) (b.teidsOut lcid) pdu] else [])

/-- The branch of `run_thread` for a G-PDU. -/
def dataPdu (db : RntiBearers) (teid : Nat) (pdu : Pdu) : List Action :=
  let (rnti, lcid) := teidinToRntilcid teid
  if db[rnti]?.isNone then []
  else if lcid < nofSrb ∨ lcid ≥ nofRadioBearers then []
  else [.writeSdu rnti lcid pdu]

end Srsenb.Gtpu
