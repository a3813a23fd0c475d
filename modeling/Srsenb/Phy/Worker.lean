import Mathlib.Data.Fintype.Basic
import Srsenb.Base.Common
import Srsenb.Base.StdMap

/-! # The PHY workers (`phy/phch_worker.cc`, `phy/phch_common.cc`)

A worker decodes the subframe it received, and then prepares the one to send four subframes
later. What it tells the MAC is kept as far as it is about HARQ-ACKs. -/

namespace Srsenb.Phy

/-- `TTIMOD`, the slot of a TTI. -/
def ttimod (tti : Nat) : Nat := tti % 10

/-- From `SRSLTE_CRNTI_START` to `SRSLTE_CRNTI_END`. -/
def isCrnti (rnti : Nat) : Bool := decide (0x000B ≤ rnti) && decide (rnti ≤ 0xFFF3)

/-- The srsLTE functions that tell when a report is due. -/
structure PhyLib where
  /-- `srslte_ue_ul_sr_send_tti` -/
  srSendTti : Nat → Nat → Bool
  /-- `srslte_ri_send` -/
  riSend : Nat → Nat → Nat → Bool
  /-- `srslte_cqi_send` -/
  cqiSend : Nat → Nat → Bool

/-! ## Common to the workers -/

/-- `pending_ack_t`, by slot. -/
structure PendingAck where
  isPending : Nat → Fin 2 → Bool := fun _ _ => false
  nPdcch : Nat → Nat := fun _ => 0

/-- `common_ue`, as far as it is about ACKs. -/
structure CommonUe where
  pendingAck : PendingAck := {}

instance : Inhabited CommonUe := ⟨{}⟩

/-- `common_ue_db` -/
abbrev CommonDb := StdMap CommonUe

namespace CommonDb

variable (db : CommonDb) (sf rnti : Nat) (tb : Fin 2)

/-- `add_rnti` -/
def addRnti : CommonDb :=
  StdMap.update db rnti fun u =>
    { u with pendingAck := { u.pendingAck with isPending := fun _ _ => false } }

/-- Whether the flag of a transport block is set. -/
def pend : Bool :=
  match db[rnti]? with
  | some u => u.pendingAck.isPending sf tb
  | none => false

/-- The record of a user with one flag set to `b`. -/
def setFlag (b : Bool) (u : CommonUe) : CommonUe :=
  { u with pendingAck := { u.pendingAck with
      isPending := fun s t => if s = sf ∧ t = tb then b else u.pendingAck.isPending s t } }

/-- `ue_db_clear` -/
def clear : CommonDb :=
  db.map fun _ u => { u with pendingAck := { u.pendingAck with
    isPending := fun s t => if s = sf then false else u.pendingAck.isPending s t } }

/-- `ue_db_set_ack_pending` -/
def setAckPending (lastNPdcch : Nat) : CommonDb :=
  match db[rnti]? with
  | some u =>
    let u := setFlag sf tb true u
    db.insert rnti { u with pendingAck := { u.pendingAck with
      nPdcch := Function.update u.pendingAck.nPdcch sf lastNPdcch } }
  | none => db

/-- `ue_db_is_ack_pending`, which reads the flag and takes it back. -/
def isAckPending : Bool × CommonDb :=
  match db[rnti]? with
  | some u => (u.pendingAck.isPending sf tb, db.insert rnti (setFlag sf tb false u))
  | none => (false, db)

/-- `ue_db_set_last_ul_tbs`, which adds a user that is not there. -/
def setLastUlTbs : CommonDb := if db[rnti]?.isSome then db else addRnti db rnti

end CommonDb

/-! ## Users of a worker -/

/-- What the RRC configures. -/
structure UeConf where
  iSr : Nat := 0
  pmiIdx : Nat := 0
  riIdx : Nat := 0
  iSrEn : Bool := false
  cqiEn : Bool := false
  riEn : Bool := false
  pucchCqiAck : Bool := false

/-- `phch_worker::ue` -/
structure Ue where
  conf : UeConf := {}
  hasGrantTti : Int := 0

instance : Inhabited Ue := ⟨{}⟩

abbrev UeDb := StdMap Ue

/-- Whether `decode_pucch` looks for a PUCCH of the user, with its pending ACKs. -/
def UeConf.needsPucch (lib : PhyLib) (c : UeConf) (tti : Nat) (ack0 ack1 : Bool) : Bool :=
  (c.iSrEn && lib.srSendTti c.iSr tti) || ack0 || ack1 ||
    (c.cqiEn && (c.pucchCqiAck || !ack0 || !ack1) &&
      ((c.riEn && lib.riSend c.pmiIdx c.riIdx tti) || lib.cqiSend c.pmiIdx tti))

/-! ## Reception -/

/-- A PUSCH grant with what the decoder makes of it. -/
structure Pusch where
  rnti : Nat
  /-- `srslte_ra_ul_dci_to_grant` succeeds. -/
  grantOk : Bool
  crc : Bool
  /-- `snr_db > PUSCH_RL_SNR_DB_TH` -/
  snrOk : Bool
  uciAck : Bool
  uciAck2 : Bool

/-- What the decoder makes of the PUCCH of a user. -/
structure Pucch where
  /-- `srslte_enb_ul_get_pucch` succeeds. -/
  ok : Bool := true
  /-- The correlation reaches `PUCCH_RL_CORR_TH`. -/
  corrOk : Bool := true
  uciAck : Bool := true
  uciAck2 : Bool := true

/-- A call of `mac->ack_info`. -/
structure AckInfo where
  rnti : Nat
  tb : Fin 2
  ack : Bool
  deriving DecidableEq, Repr

/-- The calls for a user; the first bit is of the first pending block. -/
def ackInfos (rnti : Nat) (ack0 ack1 uciAck uciAck2 valid : Bool) : List AckInfo :=
  (if ack0 then [⟨rnti, 0, uciAck && valid⟩] else []) ++
    (if ack1 then [⟨rnti, 1, (if ack0 then uciAck2 else uciAck) && valid⟩] else [])

/-- `decode_pusch` from a grant on, with the calls so far. -/
def decodePusch (tti : Nat) : List Pusch → CommonDb → UeDb → List AckInfo →
    CommonDb × UeDb × List AckInfo
  | [], db, ueDb, calls => (db, ueDb, calls)
  | g :: gs, db, ueDb, calls =>
    if g.rnti ≠ 0 then
      let (ack0, db) := CommonDb.isAckPending db (ttimod tti) g.rnti 0
      let (ack1, db) := CommonDb.isAckPending db (ttimod tti) g.rnti 1
      let ueDb := StdMap.update ueDb g.rnti fun u => { u with hasGrantTti := tti }
      if g.grantOk then
        decodePusch tti gs (CommonDb.setLastUlTbs db g.rnti) ueDb
          (calls ++ ackInfos g.rnti ack0 ack1 g.uciAck g.uciAck2 (g.crc || g.snrOk))
      else (db, ueDb, calls)
    else decodePusch tti gs db ueDb calls

/-- `decode_pucch` from a user on, in the order of the map. -/
def decodePucch (lib : PhyLib) (tti : Nat) (ueDb : UeDb) (pucch : Nat → Pucch) :
    List Nat → CommonDb → List AckInfo → CommonDb × List AckInfo
  | [], db, calls => (db, calls)
  | rnti :: rntis, db, calls =>
    match ueDb[rnti]? with
    | none => decodePucch lib tti ueDb pucch rntis db calls
    | some u =>
      if isCrnti rnti && decide (u.hasGrantTti ≠ tti) then
        let (ack0, db) := CommonDb.isAckPending db (ttimod tti) rnti 0
        let (ack1, db) := CommonDb.isAckPending db (ttimod tti) rnti 1
        if u.conf.needsPucch lib tti ack0 ack1 then
          let p := pucch rnti
          if p.ok then
            decodePucch lib tti ueDb pucch rntis db
              (calls ++ ackInfos rnti ack0 ack1 p.uciAck p.uciAck2 p.corrOk)
          else (db, calls)
        else decodePucch lib tti ueDb pucch rntis db calls
      else decodePucch lib tti ueDb pucch rntis db calls

/-- The first part of `work_imp`: no user has a grant yet, then PUSCH and PUCCH. -/
def receive (lib : PhyLib) (tti : Nat) (pusch : List Pusch) (pucch : Nat → Pucch) (db : CommonDb)
    (ueDb : UeDb) : CommonDb × UeDb × List AckInfo :=
  let ueDb := ueDb.map fun _ u => { u with hasGrantTti := -1 }
  let (db, ueDb, calls) := decodePusch tti pusch db ueDb []
  let (db, calls) := decodePucch lib tti ueDb pucch ueDb.keys db calls
  (db, ueDb, calls)

/-! ## Transmission -/

/-- An element of `sched_grants` of `dl_sched_t`. -/
structure DlGrant where
  rnti : Nat := 0
  tbEn : Fin 2 → Bool := fun _ => false
  ncce : Nat := 0

/-- `dl_sched_t`; the elements from `nof_grants` on are left over. -/
structure DlSched where
  schedGrants : Nat → DlGrant := fun _ => {}
  nofGrants : Nat := 0
  cfi : Nat := 0

/-- The kind of the subframe to send, with what the MAC answers. -/
inductive DlSubframe
  /-- What `get_dl_sched` leaves in the slot, and whether it succeeds. -/
  | regular (res : DlSched) (ok : Bool)
  /-- The control region, and whether `get_mch_sched` has something to send. -/
  | mbsfn (nonMbsfnRegionLength : Nat) (payload : Bool)

/-- What the worker gets from outside while it prepares a subframe. -/
structure TxInput where
  dl : DlSubframe
  /-- `get_ul_sched` succeeds. -/
  ulOk : Bool := true
  /-- `srslte_enb_dl_put_pdcch_dl` and `srslte_enb_dl_put_pdsch` succeed, by grant. -/
  pdcchOk : Nat → Bool := fun _ => true
  pdschOk : Nat → Bool := fun _ => true
  /-- The users of `encode_phich`. -/
  phich : List Nat := []

/-- The grants with an RNTI, as the encoders go over them. -/
def DlSched.users (d : DlSched) : List Nat :=
  (List.range d.nofGrants).filter fun i => decide ((d.schedGrants i).rnti ≠ 0)

/-- The grants that are sent: both encoders got to them. -/
def DlSched.sent (d : DlSched) (inp : TxInput) : List Nat :=
  (d.users.takeWhile inp.pdcchOk).filter fun i => decide (i ∈ d.users.takeWhile inp.pdschOk)

/-- What the subframe makes of the slot. -/
def DlSubframe.fill (old : DlSched) : DlSubframe → DlSched
  | .regular res _ => res
  | .mbsfn len payload =>
    { old with
      cfi := len
      schedGrants := Function.update old.schedGrants 0
        { old.schedGrants 0 with rnti := if payload then mrnti else 0 } }

def DlSubframe.isRegular : DlSubframe → Bool
  | .regular _ _ => true
  | .mbsfn _ _ => false

/-- Whether the worker goes on to the encoders. -/
def TxInput.goesOn (inp : TxInput) (d : DlSched) : Bool :=
  (match inp.dl with
    | .regular _ ok => ok
    | .mbsfn _ _ => true) && decide (1 ≤ d.cfi) && decide (d.cfi ≤ 3) && inp.ulOk

/-- The users that `operator[]` of the worker's map is used with: `encode_pdsch` stops at the
first grant that fails, and MBSFN subframes skip it. -/
def TxInput.looksUp (inp : TxInput) (d : DlSched) : List Nat :=
  (match inp.dl with
    | .regular _ _ =>
      (d.users.take ((d.users.takeWhile inp.pdschOk).length + 1)).map fun i =>
        (d.schedGrants i).rnti
    | .mbsfn _ _ => []) ++ inp.phich.filter fun rnti => decide (rnti ≠ 0)

/-- Whether a grant is to be acknowledged. -/
def DlGrant.wantsAck (g : DlGrant) (tb : Fin 2) : Bool := isCrnti g.rnti && g.tbEn tb

/-- The flags of one grant. -/
def DlGrant.setPending (sf : Nat) (db : CommonDb) (g : DlGrant) : CommonDb :=
  (List.finRange 2).foldl
    (fun db tb => if g.wantsAck tb then CommonDb.setAckPending db sf g.rnti tb g.ncce else db) db

/-- The end of `work_imp`: the slot is cleared, and the flags of all grants are set. -/
def prepareAcks (sf : Nat) (d : DlSched) (db : CommonDb) : CommonDb :=
  ((List.range d.nofGrants).map d.schedGrants).foldl (DlGrant.setPending sf) (CommonDb.clear db sf)

/-! ## The system -/

/-- The users as `phy` keeps them for `N` workers, and the grants by slot. -/
structure PhyState (N : Nat) where
  common : CommonDb := ∅
  workers : Fin N → UeDb := fun _ => ∅
  dlGrants : Nat → DlSched := fun _ => {}

namespace PhyState

variable {N : Nat} (p : PhyState N)

/-- `phy::add_rnti` -/
def addRnti (rnti : Nat) : PhyState N :=
  { p with
    common := if isCrnti rnti then CommonDb.addRnti p.common rnti else p.common
    workers := fun w => StdMap.touch (p.workers w) rnti }

/-- `phy::rem_rnti`: a worker that has the user takes it out of the grants of all slots. -/
def remRnti (rnti : Nat) : PhyState N :=
  { common := if isCrnti rnti then p.common.erase rnti else p.common
    workers := fun w => (p.workers w).erase rnti
    dlGrants := fun t =>
      if t < 10 ∧ ∃ w, (p.workers w)[rnti]?.isSome then
        { p.dlGrants t with
          schedGrants := fun j =>
            let g := (p.dlGrants t).schedGrants j
            if j < (p.dlGrants t).nofGrants ∧ g.rnti = rnti then { g with rnti := 0 } else g }
      else p.dlGrants t }

/-- `phy::set_config_dedicated` -/
def setConfigDedicated (rnti : Nat) (conf : UeConf) : PhyState N :=
  { p with
    workers := fun w =>
      match (p.workers w)[rnti]? with
      | some u => (p.workers w).insert rnti { u with conf := conf }
      | none => p.workers w }

/-- The worker `w` decodes the subframe of `tti_rx`. -/
def rx (lib : PhyLib) (tti : Nat) (w : Fin N) (pusch : List Pusch) (pucch : Nat → Pucch) :
    PhyState N × List AckInfo :=
  let (db, ueDb, calls) := receive lib tti pusch pucch p.common (p.workers w)
  ({ p with common := db, workers := Function.update p.workers w ueDb }, calls)

/-- The slot that the worker of `tti_rx` fills. -/
def slotTx (tti : Nat) : Nat := ttimod (ttiTx tti)

/-- The grants of that slot once the MAC has answered. -/
def filled (tti : Nat) (inp : TxInput) : DlSched := inp.dl.fill (p.dlGrants (slotTx tti))

/-- The worker `w` prepares the subframe `TTI_TX(tti_rx)`. -/
def tx (tti : Nat) (w : Fin N) (inp : TxInput) : PhyState N :=
  let d := p.filled tti inp
  let p := { p with dlGrants := Function.update p.dlGrants (slotTx tti) d }
  if inp.goesOn d then
    { p with
      workers := Function.update p.workers w ((inp.looksUp d).foldl StdMap.touch (p.workers w))
      common := prepareAcks (ttimod (ttiTx (slotTx tti))) d p.common }
  else p

/-- The grants that are sent in that subframe. -/
def sentGrants (tti : Nat) (inp : TxInput) : List DlGrant :=
  let d := p.filled tti inp
  if inp.goesOn d then
    match inp.dl with
    | .regular _ _ => (d.sent inp).map d.schedGrants
    | .mbsfn _ _ => []
  else []

end PhyState

end Srsenb.Phy
