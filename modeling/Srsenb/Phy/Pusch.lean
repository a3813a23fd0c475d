import Srsenb.Mac.MacUsers
import Srsenb.Phy.Worker

/-! # The PUSCH (`phy/phch_worker.cc`)

`decode_pusch` with all that it asks of the decoder and tells the MAC. The transforms are outside:
a grant comes with what the decoder makes of its input. -/

open Srsenb.Mac (MacEvent UlSchedGrant UlDci Cell TxMode toU32)

namespace Srsenb.Phy

/-- `TTI_RX` -/
def ttiRx (tti : Nat) : Nat :=
  if tti > harqDelayMs then (tti - harqDelayMs) % 10240 else 10240 + tti - harqDelayMs

/-- `srslte_mod_t`; the last one stands for the modulation of the transmission before. -/
inductive Modulation
  | bpsk
  | qpsk
  | qam16
  | qam64
  | last
  deriving DecidableEq, Repr

/-- `srslte_ra_ul_grant_t` -/
structure UlGrant where
  mcsIdx : Nat := 0
  tbs : Int := 0
  mod : Modulation := .qpsk
  qm : Nat := 0

/-- `srslte_cqi_value_t` as the decoder is given it. -/
inductive CqiRequest
  | wideband (pmiPresent rankIsNotOne : Bool)
  | subbandHl (riPresent : Bool) (N : Nat) (fourAntennaPorts pmiPresent rankIsNotOne : Bool)
  deriving DecidableEq, Repr

/-- The CQI and, if it is present, the PMI of a report. -/
structure CqiReport where
  cqi : Nat := 0
  pmi : Option Nat := none

/-- What the decoder is given, apart from the samples. -/
structure PuschIn where
  grant : UlGrant
  cqi : Option CqiRequest
  ackLen : Nat
  riPeriodic : Bool

/-- What the decoder makes of it. `srslte_cqi_value_t` is a union, and is read as either type. -/
structure PuschOut where
  /-- The result is 0. -/
  ok : Bool := true
  wideband : CqiReport := {}
  subbandHl : CqiReport := {}
  /-- `uci_cqi_len` and `uci_ri_len` are not 0. -/
  hasCqi : Bool := false
  hasRi : Bool := false
  ri : Nat := 0
  uciAck : Bool := false
  uciAck2 : Bool := false
  /-- What the MAC makes of the SNR, and how it compares to `PUSCH_RL_SNR_DB_TH`, if it does. -/
  cqiOfSnr : Nat := 0
  snr : Option Ordering := some .gt

/-- A grant of the list, with the decoder of its samples. -/
structure PuschEntry where
  grant : UlSchedGrant
  rx : PuschIn → PuschOut

def PuschEntry.rnti (e : PuschEntry) : Nat := e.grant.rnti

/-- The part of `phch_worker::ue` that is about reports. -/
structure PuschConf extends UeConf where
  txMode : TxMode := .mode1
  antennaInfoPresent : Bool := false
  /-- `report_mode_aperiodic` is RM31. -/
  rm31 : Bool := false

/-- `common_ue` -/
structure PuschUe extends CommonUe where
  ri : Nat := 0
  lastUlTbs : Nat → Int := fun _ => 0
  lastUlMod : Nat → Modulation := fun _ => .bpsk

instance : Inhabited PuschUe := ⟨{}⟩

/-- The functions of srsLTE that the PUSCH needs beside the others. -/
structure PuschLib extends PhyLib where
  /-- `srslte_ra_ul_dci_to_grant`, of the DCI and the cell size. -/
  dciToGrant : UlDci → Nat → Option UlGrant
  /-- `srslte_mod_bits_x_symbol` -/
  modBits : Modulation → Nat
  /-- `srslte_cqi_hl_get_no_subbands` -/
  noSubbands : Nat → Nat

/-! ## The users of `phch_common` -/

abbrev PuschDb := StdMap PuschUe

namespace PuschDb

variable (db : PuschDb) (rnti : Nat)

/-- `ue_db_is_ack_pending` -/
def isAckPending (sf : Nat) (tb : Fin 2) : Bool × PuschDb :=
  match db[rnti]? with
  | some u =>
    (u.pendingAck.isPending sf tb,
      db.insert rnti { u with toCommonUe := CommonDb.setFlag sf tb false u.toCommonUe })
  | none => (false, db)

/-- `ue_db_get_ri` -/
def getRi : Nat := (db[rnti]?.map (·.ri)).getD 0

/-- `ue_db_set_ri` -/
def setRi (ri : Nat) : PuschDb :=
  match db[rnti]? with
  | some u => db.insert rnti { u with ri := ri }
  | none => db

/-- The slot of a TTI in the arrays of `2 * HARQ_DELAY_MS`. -/
def slot (tti : Nat) : Nat := ttiRx tti % (2 * harqDelayMs)

/-- `ue_db_get_last_ul_tbs` and `ue_db_get_last_ul_mod` -/
def getLastUlTbs (tti : Nat) : Int := (db[rnti]?.map fun u => u.lastUlTbs (slot tti)).getD (-1)

def getLastUlMod (tti : Nat) : Modulation :=
  (db[rnti]?.map fun u => u.lastUlMod (slot tti)).getD .bpsk

/-- `ue_db_set_last_ul_tbs` and `ue_db_set_last_ul_mod`, which add a user that is not there. -/
def setLastUlTbs (tti : Nat) (tbs : Int) : PuschDb :=
  StdMap.update db rnti fun u => { u with lastUlTbs := Function.update u.lastUlTbs (slot tti) tbs }

def setLastUlMod (tti : Nat) (mod : Modulation) : PuschDb :=
  StdMap.update db rnti fun u => { u with lastUlMod := Function.update u.lastUlMod (slot tti) mod }

end PuschDb

/-! ## The loop -/

/-- The variables of `decode_pusch` that are declared before its loop. -/
structure CqiVars where
  widebandCqiValue : Nat := 0
  /-- `wideband_pmi`, if `wideband_pmi_present`. -/
  widebandPmi : Option Nat := none

namespace PuschLib

variable (lib : PuschLib) (cell : Cell) (conf : Nat → PuschConf) (tti : Nat)

/-- Whether a periodic RI is due, and the CQI that is asked for. -/
def configureCqi (c : PuschConf) (ri : Nat) (cqiRequest : Bool) : Bool × Option CqiRequest :=
  if c.cqiEn && c.riEn && lib.riSend c.pmiIdx c.riIdx tti then (true, none)
  else if c.cqiEn && lib.cqiSend c.pmiIdx tti then
    (false, some (.wideband (c.txMode == .mode4) (c.txMode == .mode4 && decide (ri > 0))))
  else if cqiRequest then
    (false, some (.subbandHl
      (c.antennaInfoPresent && (c.txMode == .mode3 || c.txMode == .mode4))
      (if cell.nofPrb > 7 then lib.noSubbands cell.nofPrb else 0) (cell.nofPorts == 4) c.rm31
      (decide (ri > 0))))
  else (false, none)

/-- The TBS and the modulation of an adaptive retransmission, and what is kept of them. -/
def lastUl (rnti : Nat) (g : UlGrant) (db : PuschDb) : UlGrant × PuschDb :=
  let g := if g.mcsIdx > 28 then { g with tbs := PuschDb.getLastUlTbs db rnti tti } else g
  let db := PuschDb.setLastUlTbs db rnti tti g.tbs
  let g :=
    if g.mod = .last then
      let mod := PuschDb.getLastUlMod db rnti tti
      { g with mod := mod, qm := lib.modBits mod }
    else g
  let db := PuschDb.setLastUlMod db rnti tti g.mod
  let g := if g.mod = .qam64 then { g with mod := .qam16 } else g
  ({ g with qm := min g.qm 4 }, db)

/-- What a report leaves in the variables. -/
def keepCqi (c : PuschConf) (enabled cqiRequest : Bool) (out : PuschOut) (v : CqiVars) : CqiVars :=
  if enabled then
    if c.cqiEn then ⟨out.wideband.cqi, out.wideband.pmi.or v.widebandPmi⟩
    else if cqiRequest then ⟨out.subbandHl.cqi, out.subbandHl.pmi.or v.widebandPmi⟩
    else v
  else v

/-- The calls of a grant, in their order. -/
def puschCalls (e : PuschEntry) (ack0 ack1 : Bool) (tbs : Int) (out : PuschOut) (v : CqiVars) :
    List MacEvent :=
  (if e.grant.grant.rvIdx = 0 then
    [if !out.ok && out.snr == some .lt then .rlFailure e.rnti else .rlOk e.rnti] else []) ++
  [.crcInfo tti e.rnti (toU32 (tbs.tdiv 8)) out.ok] ++
  (ackInfos e.rnti ack0 ack1 out.uciAck out.uciAck2 (out.ok || out.snr == some .gt)).map
    (fun a => .ackInfo tti a.rnti a.tb a.ack) ++
  (if out.snr == some .gt || out.snr == some .eq then [.snrInfo e.rnti out.cqiOfSnr] else []) ++
  (if out.hasCqi && out.ok then [.cqiInfo tti e.rnti v.widebandCqiValue] else []) ++
  (if out.hasRi && out.ok then [.riInfo e.rnti out.ri] else []) ++
  (if out.ok then v.widebandPmi.toList.map (.pmiInfo e.rnti) else [])

/-- What is left to know of a grant once it is decoded: its pending ACKs, its TBS, whether a CQI
was asked for, and the decoder's results. -/
structure Decoded where
  ack0 : Bool
  ack1 : Bool
  tbs : Int
  cqiEnabled : Bool
  out : PuschOut

/-- The part of a round up to the decoder; a grant that does not compute ends the function. -/
def decodeGrant (e : PuschEntry) (db : PuschDb) : PuschDb × Option Decoded :=
  let (ack0, db) := PuschDb.isAckPending db e.rnti (ttimod tti) 0
  let (ack1, db) := PuschDb.isAckPending db e.rnti (ttimod tti) 1
  let (riPeriodic, cqi) := lib.configureCqi cell tti (conf e.rnti) (PuschDb.getRi db e.rnti)
    e.grant.grant.cqiRequest
  match lib.dciToGrant e.grant.grant cell.nofPrb with
  | none => (db, none)
  | some g =>
    let (g, db) := lib.lastUl tti e.rnti g db
    (db, some ⟨ack0, ack1, g.tbs, cqi.isSome, e.rx ⟨g, cqi, ack0.toNat + ack1.toNat, riPeriodic⟩⟩)

/-- A round of the loop: the users, and the variables with the calls unless it returns. -/
def puschRound (e : PuschEntry) (db : PuschDb) (v : CqiVars) :
    PuschDb × Option (CqiVars × List MacEvent) :=
  match lib.decodeGrant cell conf tti e db with
  | (db, none) => (db, none)
  | (db, some d) =>
    let v := keepCqi (conf e.rnti) d.cqiEnabled e.grant.grant.cqiRequest d.out v
    (if d.out.hasRi && d.out.ok then PuschDb.setRi db e.rnti d.out.ri else db,
      some (v, puschCalls tti e d.ack0 d.ack1 d.tbs d.out v))

/-- `decode_pusch` from a grant on: the users, the variables unless it returned an error, and the
calls. -/
def decodePusch : List PuschEntry → PuschDb → CqiVars →
    PuschDb × Option CqiVars × List MacEvent
  | [], db, v => (db, some v, [])
  | e :: es, db, v =>
    if e.rnti ≠ 0 then
      match lib.puschRound cell conf tti e db v with
      | (db, none) => (db, none, [])
      | (db, some (v, calls)) =>
        let (db, v, rest) := decodePusch es db v
        (db, v, calls ++ rest)
    else decodePusch es db v

end PuschLib

end Srsenb.Phy
