import Srsenb.Mac.Harq

/-! # A user of the scheduler (`mac/scheduler_ue.cc`) -/

namespace Srsenb.Mac

/-- The index of one of the `SCHED_MAX_HARQ_PROC`, twice `HARQ_DELAY_MS`, processes. -/
abbrev Pid := Fin 8

/-- Direction of a bearer. -/
inductive Direction
  | idle
  | ul
  | dl
  | both
  deriving DecidableEq, Repr

/-- `ue_bearer_t` -/
structure UeBearer where
  direction : Direction := .idle
  bufTx : Int := 0
  bufRetx : Int := 0
  bsr : Int := 0

/-- `sched_dci_cce_t`: the candidates of each aggregation level. -/
structure DciCce where
  cceStart : Nat → Nat → Nat
  nofLoc : Nat → Nat

/-- The fields of `ue_cfg_t` that the scheduler reads. -/
structure UeCfg where
  maxharqTx : Nat := 0
  aperiodicCqiPeriod : Nat := 0
  srEnabled : Bool := false
  srI : Nat := 0
  srNPucch : Nat := 0
  nPucchCqi : Nat := 0
  cqiEnabled : Bool := false
  cqiIdx : Nat := 0
  cqiPucch : Nat := 0
  pucchCfg : PucchCfg := {}

/-- Transmission modes of `dl_ant_info` that are told apart. -/
inductive TxMode
  | mode1
  | mode2
  | mode3
  | mode4
  | other
  deriving DecidableEq, Repr

/-- `sched_ue` -/
structure SchedUe where
  rnti : Nat
  cell : Cell
  P : Nat
  dciLocations : Nat → Nat → DciCce
  cfg : UeCfg := {}
  dlNextAlloc : Option Pid := none
  ulNextAlloc : Option Pid := none
  hasPucch : Bool := false
  sr : Bool := false
  lch : List UeBearer := []
  dlRi : Nat := 0
  dlPmi : Nat := 0
  dlCqi : Nat := 1
  dlCqiTti : Nat := 0
  cqiRequestTti : Nat := 0
  ulCqi : Nat := 1
  maxMcsDl : Nat := 28
  maxMcsUl : Nat := 28
  fixedMcsUl : Int := -1
  fixedMcsDl : Int := -1
  nextTpcPusch : Nat := 1
  nextTpcPucch : Nat := 1
  phyConfigDedicatedEnabled : Bool := false
  txMode : TxMode := .mode1
  dlHarq : Pid → DlHarqProc
  ulHarq : Pid → UlHarqProc

/-! ## What is sent to the UE -/

/-- `srslte_dci_location_t` -/
structure DciLocation where
  L : Nat := 0
  ncce : Nat := 0
  deriving DecidableEq, Repr

/-- `type0_alloc` or `type2_alloc` (localized), by `alloc_type`. -/
inductive DlAlloc
  | type0 (rbgBitmask : Nat)
  | type2 (nPrb1a : Nat) (lCrb rbStart : Nat)
  deriving DecidableEq, Repr

/-- `srslte_ra_dl_dci_t` -/
structure DlDci where
  alloc : DlAlloc := .type0 0
  harqProcess : Nat := 0
  mcsIdx : Fin 2 → Nat := fun _ => 0
  rvIdx : Fin 2 → Nat := fun _ => 0
  ndi : Fin 2 → Bool := fun _ => false
  tpcPucch : Nat := 0
  tbEn : Fin 2 → Bool := fun _ => false
  pinfo : Nat := 0

/-- `dl_sched_pdu_t`: the contention resolution element, or bytes of a bearer. -/
inductive DlSchedPdu
  | conRes
  | sdu (lcid : Nat) (nbytes : Int)
  deriving DecidableEq, Repr

/-- `dl_sched_data_t` -/
structure DlSchedData where
  rnti : Nat := 0
  dciFormat : DciFormat := .format1
  dci : DlDci := {}
  dciLocation : DciLocation := {}
  tbs : Fin 2 → Nat := fun _ => 0
  pdu : Fin 2 → List DlSchedPdu := fun _ => []

/-- `srslte_ra_ul_dci_t` -/
structure UlDci where
  lCrb : Nat := 0
  rbStart : Nat := 0
  rvIdx : Nat := 0
  mcsIdx : Nat := 0
  ndi : Bool := false
  cqiRequest : Bool := false
  tpcPusch : Nat := 0
  deriving DecidableEq, Repr

/-- `ul_sched_data_t` -/
structure UlSchedData where
  rnti : Nat := 0
  needsPdcch : Bool := false
  dci : UlDci := {}
  dciLocation : DciLocation := {}
  tbs : Int := 0
  deriving DecidableEq, Repr

/-- A PDU more for a transport block. -/
def DlSchedData.addPdus (data : DlSchedData) (tb : Fin 2) (pdus : List DlSchedPdu) : DlSchedData :=
  { data with pdu := Function.update data.pdu tb (data.pdu tb ++ pdus) }

/-- The contention resolution element goes to the first place, and one element more is counted:
where the place was taken, that is one as `bzero` left it. -/
def withConRes : List DlSchedPdu → List DlSchedPdu
  | [] => [.conRes]
  | _ :: pdus => .conRes :: pdus ++ [.sdu 0 0]

def DlSchedData.addConRes (data : DlSchedData) : DlSchedData :=
  { data with pdu := Function.update data.pdu 0 (withConRes (data.pdu 0)) }

namespace SchedUe

variable (lib : Lib) (u : SchedUe)

/-- The user with one DL process replaced. -/
def setDl (pid : Pid) (h : DlHarqProc) : SchedUe :=
  { u with dlHarq := Function.update u.dlHarq pid h }

/-- The user with one UL process replaced. -/
def setUl (pid : Pid) (h : UlHarqProc) : SchedUe :=
  { u with ulHarq := Function.update u.ulHarq pid h }

variable {u} {pid i : Pid}

@[simp] theorem setDl_dlHarq (h : DlHarqProc) : (u.setDl pid h).dlHarq pid = h := by simp [setDl]

@[simp] theorem setUl_ulHarq (h : UlHarqProc) : (u.setUl pid h).ulHarq pid = h := by simp [setUl]

theorem setUl_ulHarq_ne (h : UlHarqProc) (hi : i ≠ pid) :
    (u.setUl pid h).ulHarq i = u.ulHarq i := by
  simp [setUl, hi]

variable (u)

/-! ## Configuration -/

def reset : SchedUe :=
  { u with
    cfg := {}, sr := false, nextTpcPusch := 1, nextTpcPucch := 1
    phyConfigDedicatedEnabled := false, dlCqi := 1, ulCqi := 1, dlCqiTti := 0, dlRi := 0
    dlPmi := 0, cqiRequestTti := 0, lch := u.lch.map fun _ => {}
    dlHarq := fun i => (u.dlHarq i).resetAll
    ulHarq := fun i =>
      { u.ulHarq i with toHarqProc := ((u.ulHarq i).toHarqProc.reset 0).reset 1 } }

/-- The constructor `sched_ue::sched_ue`. -/
def new : SchedUe :=
  reset
    { rnti := 0, cell := ⟨0, 0, 0⟩, P := 0, dciLocations := fun _ _ => ⟨fun _ _ => 0, fun _ => 0⟩
      maxMcsDl := 0, maxMcsUl := 0, fixedMcsUl := 0, fixedMcsDl := 0
      dlHarq := fun _ => {}, ulHarq := fun _ => {} }

/-- `set_cfg`, with the directions of `ue_bearers` and the candidates of `generate_cce_location`. -/
def setCfg (rnti : Nat) (cfg : UeCfg) (bearers : List Direction) (cell : Cell)
    (locations : Nat → Nat → DciCce) : SchedUe :=
  let u := u.reset
  { u with
    rnti := rnti, cell := cell, P := lib.type0P cell.nofPrb, maxMcsDl := 28, maxMcsUl := 28
    cfg := cfg, dciLocations := locations
    dlHarq := fun i =>
      { u.dlHarq i with toHarqProc := (u.dlHarq i).toHarqProc.config i.val cfg.maxharqTx }
    ulHarq := fun i =>
      { u.ulHarq i with toHarqProc := (u.ulHarq i).toHarqProc.config i.val cfg.maxharqTx }
    lch := bearers.map fun d => { direction := d } }

def setFixedMcs (mcsUl mcsDl : Int) : SchedUe :=
  { u with fixedMcsUl := mcsUl, fixedMcsDl := mcsDl }

def setMaxMcs (mcsUl mcsDl : Int) : SchedUe :=
  { u with
    maxMcsUl := if mcsUl < 0 then 28 else mcsUl.toNat
    maxMcsDl := if mcsDl < 0 then 28 else mcsDl.toNat }

/-! ## Feedback and processes -/

/-- The first process that stored a TTI with this feedback TTI. -/
def findAck (tti : Nat) : Option Pid :=
  (List.finRange _).find? fun i => decide (ttiTx (u.dlHarq i).tti = tti)

def setAckInfo (tti : Nat) (tb : Fin 2) (ack : Bool) : Int × SchedUe :=
  match u.findAck tti with
  | some i =>
    let h := (u.dlHarq i).setAck tb ack
    (h.getTbs tb, u.setDl i h)
  | none => (-1, u)

/-- The test of `reset_timeout_dl_harq`. -/
def isOld (tti : Nat) (i : Pid) : Bool :=
  let h := u.dlHarq i
  !(h.isEmpty 0 && h.isEmpty 1) && decide (lib.ttiInterval tti h.tti > 50)

def resetTimeoutDlHarq (tti : Nat) : SchedUe :=
  { u with dlHarq := fun i => if u.isOld lib tti i then (u.dlHarq i).resetAll else u.dlHarq i }

/-- One round of the search for the oldest pending process: `oldest_idx` and `oldest_tti`. -/
def older (tti : Nat) (b : Option Pid × Nat) (i : Pid) : Option Pid × Nat :=
  let h := u.dlHarq i
  if h.hasPendingRetx 0 lib tti || h.hasPendingRetx 1 lib tti then
    let x := lib.ttiInterval tti h.tti
    if x > b.2 then (some i, x) else b
  else b

def getPendingDlHarq (tti : Nat) : Option Pid :=
  ((List.finRange _).foldl (u.older lib tti) (none, 0)).1

def getEmptyDlHarq : Option Pid :=
  (List.finRange _).find? fun i => (u.dlHarq i).isEmpty 0 && (u.dlHarq i).isEmpty 1

/-- `get_ul_harq`, as the index of the process. -/
def getUlHarq (tti : Nat) : Pid := Fin.ofNat 8 tti

def setUlCrc (tti : Nat) (crc : Bool) : SchedUe :=
  u.setUl (getUlHarq tti) ((u.ulHarq (getUlHarq tti)).setAck crc)

def isFirstDlTx : Bool := (List.finRange _).all fun i => decide (((u.dlHarq i).tb 0).txCnt = 0)

/-! ## Buffers -/

def bearerIsUl (b : UeBearer) : Bool := b.direction == .ul || b.direction == .both

def bearerIsDl (b : UeBearer) : Bool := b.direction == .dl || b.direction == .both

def getPendingDlNewData : Nat :=
  toU32 (((u.lch.filter bearerIsDl).map fun b => b.bufRetx + b.bufTx).sum)

def getPendingDlNewDataTotal : Nat :=
  let reqBytes := u.getPendingDlNewData
  if reqBytes > 0 then
    let reqBytes := u32 (reqBytes + if reqBytes < 128 then 2 else 3)
    if u.isFirstDlTx then u32 (reqBytes + 6) else reqBytes
  else reqBytes

def needsCqi (tti : Nat) (willBeSent : Bool) : Bool × SchedUe :=
  if u.phyConfigDedicatedEnabled && decide (u.cfg.aperiodicCqiPeriod ≠ 0) &&
      decide (u.getPendingDlNewData > 0) &&
      decide (lib.ttiInterval tti u.dlCqiTti ≥ u.cfg.aperiodicCqiPeriod) &&
      decide (lib.ttiInterval tti u.cqiRequestTti ≥ 16) then
    (true, if willBeSent then { u with cqiRequestTti := tti } else u)
  else (false, u)

def getPendingUlOldData : Nat :=
  toU32 (((List.finRange _).map fun i => (u.ulHarq i).pendingData).sum)

def getPendingUlNewData (tti : Nat) : Nat :=
  let pendingData := toU32 (((u.lch.filter bearerIsUl).map fun b => b.bsr).sum)
  if pendingData = 0 && u.sr then 512
  else if pendingData = 0 && (u.needsCqi lib tti false).1 then 128
  else
    let pendingUlData := u.getPendingUlOldData
    if pendingData > pendingUlData then pendingData - pendingUlData else 0

/-- `alloc_pdu`: the bearer and the bytes of the first buffer that gives any, and the buffers. -/
def allocPdu (tbsBytes : Int) : Nat → List UeBearer → Option (Nat × Int) × List UeBearer
  | _, [] => (none, [])
  | i, b :: bs =>
    let x := if b.bufRetx ≠ 0 then min b.bufRetx tbsBytes
      else if b.bufTx ≠ 0 then min b.bufTx tbsBytes else 0
    let b' := if b.bufRetx ≠ 0 then { b with bufRetx := b.bufRetx - x }
      else { b with bufTx := b.bufTx - x }
    if x ≠ 0 then (some (i, x), b' :: bs)
    else
      let (r, bs') := allocPdu tbsBytes (i + 1) bs
      (r, b :: bs')

/-- The loop over `alloc_pdu` while bytes remain; each round but the last takes one at least. -/
def allocPdus : Nat → Int → List UeBearer → List DlSchedPdu × List UeBearer
  | 0, _, lch => ([], lch)
  | fuel + 1, remTbs, lch =>
    match allocPdu remTbs 0 lch with
    | (none, lch') => ([], lch')
    | (some (lcid, x), lch') =>
      if remTbs - x > 0 ∧ x > 0 then
        let (pdus, lch'') := allocPdus fuel (remTbs - x) lch'
        (.sdu lcid x :: pdus, lch'')
      else ([.sdu lcid x], lch')

/-! ## Sizes -/

/-- `alloc_tbs`: the TBS in bytes and the MCS, which stays 0 for a negative TBS. -/
def allocTbs (nofPrb nofRe reqBytes : Nat) (isUl : Bool) : Int × Int :=
  let cqi := if isUl then u.ulCqi else u.dlCqi
  let maxMcs := if isUl then u.maxMcsUl else u.maxMcsDl
  let (bits, selMcs) := lib.cqiToTbs cqi nofPrb nofRe maxMcs (if isUl then 4 else 6)
  let tbs := bits.tdiv 8
  let (tbs, selMcs) :=
    if tbs > reqBytes ∧ reqBytes > 0 then
      let reqTbsIdx := lib.tbsToTableIdx (reqBytes * 8) nofPrb
      let reqMcs := lib.mcsFromTbsIdx reqTbsIdx
      if reqMcs < selMcs then ((lib.tbsFromIdx reqTbsIdx nofPrb).tdiv 8, reqMcs) else (tbs, selMcs)
    else (tbs, selMcs)
  let (tbs, selMcs) :=
    if nofPrb = 1 ∧ selMcs = 6 then
      ((lib.tbsFromIdx (lib.tbsIdxFromMcs 5) nofPrb).tdiv 8, 5)
    else (tbs, selMcs)
  (tbs, if tbs ≥ 0 then i32 selMcs else 0)

/-- The TBS of an MCS. -/
def tbsOfMcs (mcs : Int) (nofPrb : Nat) : Int :=
  (lib.tbsFromIdx (lib.tbsIdxFromMcs mcs) nofPrb).tdiv 8

/-- TBS and MCS, by the fixed MCS if there is one. -/
def dlTbs (nofPrb nofRe reqBytes : Nat) : Int × Int :=
  if u.fixedMcsDl < 0 then u.allocTbs lib nofPrb nofRe reqBytes false
  else (tbsOfMcs lib u.fixedMcsDl nofPrb, u.fixedMcsDl)

def ulTbs (nofPrb nofRe reqBytes : Nat) : Int × Int :=
  if u.fixedMcsUl < 0 then u.allocTbs lib nofPrb nofRe reqBytes true
  else (tbsOfMcs lib u.fixedMcsUl nofPrb, u.fixedMcsUl)

def prbToRbg (nofPrb : Nat) : Nat := (nofPrb + u.P - 1) / u.P

/-- The loop of `get_required_prb_dl`, from `n` PRBs that carry `nbytes`. -/
def requiredPrbDl (reqBytes nofCtrlSymbols : Nat) : Nat → Nat → Nat → Nat
  | 0, n, _ => n
  | fuel + 1, n, nbytes =>
    if nbytes < reqBytes then
      let nofRe := lib.raDlApproxNofRe u.cell (n + 1) nofCtrlSymbols
      let tbs := (u.dlTbs lib (n + 1) nofRe 0).1
      if tbs > 0 then requiredPrbDl reqBytes nofCtrlSymbols fuel (n + 1) tbs.toNat
      else if tbs < 0 then 0
      else requiredPrbDl reqBytes nofCtrlSymbols fuel (n + 1) nbytes
    else n

def getRequiredPrbDl (reqBytes nofCtrlSymbols : Nat) : Nat :=
  u.requiredPrbDl lib reqBytes nofCtrlSymbols u.cell.nofPrb 0 0

/-- REs of `n` PRBs in the uplink, with 12 subcarriers each. -/
def ulNofRe (n : Nat) : Nat := 2 * (u.cell.cpNsymb - 1) * n * 12

/-- The first loop of `get_required_prb_ul`. -/
def requiredPrbUl (reqBytes : Nat) : Nat → Nat → Nat → Nat
  | 0, n, _ => n
  | fuel + 1, n, nbytes =>
    if n < u.cell.nofPrb ∧ nbytes < u32 (reqBytes + 4) then
      let tbs := (u.ulTbs lib n (u.ulNofRe n) 0).1
      requiredPrbUl reqBytes fuel (n + 1) (if tbs > 0 then tbs.toNat else nbytes)
    else n

/-- Its second loop: up to a number of PRBs that SC-FDMA allows. -/
def nextValidPrb (nofPrb : Nat) : Nat → Nat → Nat
  | 0, n => n
  | fuel + 1, n =>
    if !lib.validPrb n && decide (n ≤ nofPrb) then nextValidPrb nofPrb fuel (n + 1) else n

def getRequiredPrbUl (reqBytes : Nat) : Nat :=
  if reqBytes = 0 then 0
  else
    nextValidPrb lib u.cell.nofPrb (u.cell.nofPrb + 1)
      (u.requiredPrbUl lib reqBytes u.cell.nofPrb 1 0)

/-- `format1_count_prb` -/
def format1CountPrb (bitmask cellNofPrb : Nat) : Nat :=
  let P := lib.type0P cellNofPrb
  let nb := (cellNofPrb + P - 1) / P
  ((List.range nb).filter fun i => bitmask.testBit (nb - i - 1)).foldl
    (fun n i => n + ((List.range P).filter fun j => decide (i * P + j < cellNofPrb)).length) 0

/-! ## Grants -/

/-- `generate_format1` for an empty transport block: the TBS and MCS. -/
def format1Tbs (h : DlHarqProc) (tti cfi : Nat) : Int × Int :=
  let reqBytes := u.getPendingDlNewData
  let nofPrb := format1CountPrb lib h.rbgmask u.cell.nofPrb
  let nofCtrlSymbols := cfi + if u.cell.nofPrb < 10 then 1 else 0
  let nofRe := lib.raDlGrantNofRe u.cell h.rbgmask (tti % 10) nofCtrlSymbols
  if u.isFirstDlTx ∧ u.cell.nofPrb < 10 then (tbsOfMcs lib 4 nofPrb, 4)
  else u.dlTbs lib nofPrb nofRe reqBytes

/-- `generate_format1`: the user, its grant and the TBS. -/
def generateFormat1 (pid : Pid) (data : DlSchedData) (tti cfi : Nat) :
    SchedUe × DlSchedData × Int :=
  let h := u.dlHarq pid
  let dci : DlDci := { alloc := .type0 h.rbgmask }
  let (u', h', data, mcs, tbs) :=
    if h.isEmpty 0 then
      let (tbs, mcs) := u.format1Tbs lib h tti cfi
      let h' := h.newTx 0 tti mcs tbs data.dciLocation.ncce
      let data := if u.isFirstDlTx then data.addConRes else data
      let (pdus, lch) := allocPdus (tbs.toNat + 1) tbs u.lch
      ({ u.setDl pid h' with lch := lch }, h', data.addPdus 0 pdus, mcs, tbs)
    else
      let (h', mcs, tbs) := h.newRetx 0 tti
      (u.setDl pid h', h', data, mcs, tbs)
  let data := { data with rnti := u.rnti, dci := dci }
  if tbs > 0 then
    ({ u' with nextTpcPucch := 1 },
     { data with
       dci := { dci with
         harqProcess := h.id, mcsIdx := Function.update dci.mcsIdx 0 (toU32 mcs),
         rvIdx := Function.update dci.rvIdx 0 (getRvidx (h'.tb 0).nRtx),
         ndi := Function.update dci.ndi 0 (h'.tb 0).ndi, tpcPucch := u.nextTpcPucch,
         tbEn := Function.update dci.tbEn 0 true }
       tbs := Function.update (fun _ => 0) 0 tbs.toNat }, tbs)
  else (u', data, tbs)

/-- `tb_en` of `generate_format2a`: one layer sends one transport block, two layers what is not
acknowledged, or both. -/
def format2aTbEn (h : DlHarqProc) (tb : Fin 2) : Bool :=
  if u.dlRi = 0 then if h.isEmpty 1 then decide (tb = 0) else decide (tb = 1)
  else if h.isEmpty 0 && h.isEmpty 1 then true else !h.isEmpty tb

/-- `no_retx`, which one layer leaves as it is. -/
def format2aNoRetx (h : DlHarqProc) : Bool :=
  if u.dlRi = 0 then true else h.isEmpty 0 && h.isEmpty 1

/-- The round of `generate_format2a` for one transport block. -/
def format2aTb (pid : Pid) (nofPrb nofRe tti : Nat) (tbEn noRetx : Bool) (tb : Fin 2)
    (u : SchedUe) (data : DlSchedData) : SchedUe × DlSchedData :=
  let h := u.dlHarq pid
  let reqBytes := u.getPendingDlNewData
  let (u', h', pdus, mcs, tbs) :=
    if !h.isEmpty tb then
      let (h', mcs, tbs) := h.newRetx tb tti
      (u.setDl pid h', h', [], mcs, tbs)
    else if tbEn && decide (reqBytes ≠ 0) && noRetx then
      let (tbs, mcs) := u.dlTbs lib nofPrb nofRe reqBytes
      let h' := h.newTx tb tti mcs tbs data.dciLocation.ncce
      let (pdus, lch) := allocPdus (tbs.toNat + 1) tbs u.lch
      ({ u.setDl pid h' with lch := lch }, h', pdus, mcs, tbs)
    else (u, h, [], 0, 0)
  let data := data.addPdus tb pdus
  let dci := data.dci
  if tbs > 0 then
    (u',
     { data with
       dci := { dci with
         mcsIdx := Function.update dci.mcsIdx tb (toU32 mcs),
         rvIdx := Function.update dci.rvIdx tb (getRvidx (h'.tb tb).nRtx),
         ndi := Function.update dci.ndi tb (h'.tb tb).ndi,
         tbEn := Function.update dci.tbEn tb true }
       tbs := Function.update data.tbs tb tbs.toNat })
  else
    (u',
     { data with
       dci := { dci with tbEn := Function.update dci.tbEn tb false }
       tbs := Function.update data.tbs tb 0 })

/-- `generate_format2a_unlocked` -/
def generateFormat2a (pid : Pid) (data : DlSchedData) (tti cfi : Nat) :
    SchedUe × DlSchedData × Int :=
  let h := u.dlHarq pid
  let nofPrb := format1CountPrb lib h.rbgmask u.cell.nofPrb
  let nofCtrlSymbols := cfi + if u.cell.nofPrb < 10 then 1 else 0
  let nofRe := lib.raDlGrantNofRe u.cell h.rbgmask (tti % 10) nofCtrlSymbols
  let round := fun tb => format2aTb lib pid nofPrb nofRe tti (u.format2aTbEn h tb)
    (u.format2aNoRetx h) tb
  let (u0, data) := round 0 u { data with dci := { alloc := .type0 h.rbgmask } }
  let (u1, data) := round 1 u0 data
  ({ u1 with nextTpcPucch := 1 },
   { data with
     rnti := u.rnti, dci := { data.dci with harqProcess := h.id, tpcPucch := u.nextTpcPucch } },
   (data.tbs 0 + data.tbs 1 : Nat))

/-- `generate_format2`: format 2a with the precoding. -/
def generateFormat2 (pid : Pid) (data : DlSchedData) (tti cfi : Nat) :
    SchedUe × DlSchedData × Int :=
  let (u', data, tbs) := u.generateFormat2a lib pid data tti cfi
  let pinfo := if (data.dci.tbEn 0).toNat + (data.dci.tbEn 1).toNat = 1 then (u.dlPmi + 1) % 256 % 5
    else u.dlPmi % 2
  (u', { data with dci := { data.dci with pinfo := pinfo } }, tbs)

/-- The branches of `generate_format0`: the process, whether its block is new, MCS and TBS. -/
def format0Proc (h : UlHarqProc) (tti : Nat) : UlHarqProc × Bool × Int × Int :=
  let L := h.allocation.L
  match h.getRarMcs with
  | some (h, mcs) =>
    let tbs := tbsOfMcs lib mcs L
    (h.newTx tti mcs tbs, true, mcs, tbs)
  | none =>
    if h.isEmpty 0 then
      let (tbs, mcs) := u.ulTbs lib L (u.ulNofRe L) (u.getPendingUlNewData lib tti)
      (h.newTx tti mcs tbs, true, mcs, tbs)
    else
      let (h, mcs) := h.newRetx tti
      (h, false, mcs, tbsOfMcs lib mcs L)

/-- `generate_format0`: the user, its grant and the TBS. -/
def generateFormat0 (pid : Pid) (data : UlSchedData) (tti : Nat) (cqiRequest : Bool) :
    SchedUe × UlSchedData × Int :=
  let allocation := (u.ulHarq pid).allocation
  let (h, isNewtx, mcs, tbs) := u.format0Proc lib (u.ulHarq pid) tti
  let u' := u.setUl pid h
  let data := { data with rnti := u.rnti, tbs := tbs, dci := {} }
  if tbs > 0 then
    let rvIdx := getRvidx (h.tb 0).nRtx
    ({ u' with nextTpcPusch := 1 },
     { data with
       dci := {
         lCrb := allocation.L, rbStart := allocation.rbStart, rvIdx := rvIdx,
         mcsIdx := if !isNewtx && h.isAdaptive then 28 + rvIdx else toU32 mcs,
         ndi := (h.tb 0).ndi, cqiRequest := cqiRequest, tpcPusch := u.nextTpcPusch } }, tbs)
  else (u', data, tbs)

/-! ## PUCCH -/

def pucchSched : PucchSched := ⟨u.cfg.srNPucch, u.cfg.nPucchCqi, u.cfg.pucchCfg.n1PucchAn⟩

def hasSr (tti : Nat) : Bool := u.cfg.srEnabled && lib.srSendTti u.cfg.srI tti

def nPrb (format : PucchFormat) (nPucch slot : Nat) : Nat :=
  lib.pucchNPrb u.cfg.pucchCfg format nPucch u.cell slot

def pucchSrCollision (tti nCce : Nat) : Bool :=
  u.phyConfigDedicatedEnabled && u.hasSr lib tti &&
    decide (u.nPrb lib .format1a (lib.pucchGetNpucch nCce true u.pucchSched) 0 =
      u.nPrb lib .format1a (lib.pucchGetNpucch nCce false u.pucchSched) 0)

/-- `get_pucch_sched`: the PRBs of both slots. -/
def getPucchSched (tti : Nat) : Option (Nat × Nat) :=
  if !u.phyConfigDedicatedEnabled then none
  else
    let prbs := fun format nPucch => (u.nPrb lib format nPucch 0, u.nPrb lib format nPucch 1)
    match u.findAck tti with
    | some i =>
      some (prbs .format1a (lib.pucchGetNpucch (u.dlHarq i).nCce (u.hasSr lib tti) u.pucchSched))
    | none =>
      if u.hasSr lib tti then some (prbs .format1 u.cfg.srNPucch)
      else if u.cfg.cqiEnabled && lib.cqiSend u.cfg.cqiIdx tti then
        some (prbs .format2 u.cfg.cqiPucch)
      else none

/-! ## DCI -/

def getDciFormat : DciFormat :=
  if u.phyConfigDedicatedEnabled then
    match u.txMode with
    | .mode3 => .format2a
    | .mode4 => .format2
    | _ => .format1
  else .format1

/-- An invalid CFI reads the locations of the first. -/
def getLocations (cfi sfIdx : Nat) : DciCce :=
  if 0 < cfi ∧ cfi ≤ 3 then u.dciLocations (cfi - 1) sfIdx else u.dciLocations 0 sfIdx

def getAggrLevel (nofBits : Nat) : Nat := lib.aggrLevel u.cell u.dlCqi nofBits

end SchedUe

end Srsenb.Mac
