import Srsenb.Mac.Metric

/-! # The scheduler (`mac/scheduler.cc`)

The state keeps, besides what the source has, the number of `rand` calls and a log of what
`generate_dci` took and refused. -/

namespace Srsenb.Mac

/-- One entry of `cfg.sibs`. -/
structure SibCfg where
  len : Nat := 0
  periodRf : Nat := 1

/-- `cell_cfg_t` -/
structure CellCfg where
  cell : Cell
  sibs : List SibCfg := []
  siWindowMs : Nat := 0
  prachRarWindow : Nat := 0
  prachConfig : Nat := 0
  prachFreqOffset : Nat := 0
  nrbPucch : Int := -1
  maxharqMsg3tx : Nat := 0

/-- `sched_sib_t` -/
structure SchedSib where
  isInWindow : Bool := false
  windowStart : Nat := 0
  nTx : Nat := 0

/-- `sched_rar_t` -/
structure SchedRar where
  bufRar : Int := 0
  rnti : Nat := 0
  raId : Nat := 0
  rarTti : Nat := 0

/-- `pending_msg3_t` -/
structure PendingMsg3 where
  enabled : Bool := false
  rnti : Nat := 0
  L : Nat := 0
  nPrb : Nat := 0
  mcs : Nat := 0

/-- What `generate_dci` did: it took a location, or found a CCE of a candidate used. -/
inductive CceEvent
  | taken (loc : DciLocation)
  | refused (cce : Nat)
  deriving DecidableEq, Repr

/-- `used_cce`, and the log since the start. -/
structure CceTable where
  used : Nat → Bool := fun _ => false
  log : List CceEvent := []

/-- `sched` -/
structure Sched where
  cfg : CellCfg
  nofCtrlSymbols : Nat
  configured : Bool
  P : Nat
  siNRbg : Nat
  rarNRbg : Nat
  nofRbg : Nat
  commonLocations : Nat → DciCce
  rarLocations : Nat → Nat → DciCce
  cce : CceTable := {}
  nofRand : Nat := 0
  ueDb : StdMap SchedUe := ∅
  pendingSibs : Nat → SchedSib := fun _ => {}
  pendingMsg3 : Nat → PendingMsg3 := fun _ => {}
  pendingRar : Nat → SchedRar := fun _ => {}
  dlMetric : DlMetric := {}
  ulMetric : UlMetric := {}
  bcAggrLevel : Nat := 0
  rarAggrLevel : Nat := 0
  availRbg : Nat := 0
  startRbg : Nat := 0
  sfIdx : Nat := 0
  sfn : Nat := 0
  currentTti : Nat := 0
  currentCfi : Nat := 0

/-- `SCHED_MAX_PENDING_RAR` -/
def schedMaxPendingRar : Nat := 8

/-! ## Results -/

/-- The elements filled so far, and the next one of the array. -/
structure Elems (α : Type) where
  done : List α := []
  slot : α

/-- The next element is filled. -/
def Elems.push {α : Type} [Inhabited α] (e : Elems α) (a : α) : Elems α := ⟨e.done ++ [a], default⟩

/-- BCCH or PCCH. -/
inductive BcType
  | bcch
  | pcch
  deriving DecidableEq, Repr

/-- `dl_sched_bc_t` -/
structure DlSchedBc where
  type : BcType := .bcch
  index : Nat := 0
  dci : DlDci := {}
  dciLocation : DciLocation := {}
  tbs : Int := 0

/-- `dl_sched_rar_grant_t` -/
structure RarGrant where
  raId : Nat := 0
  tpcPusch : Nat := 0
  truncMcs : Nat := 0
  rba : Nat := 0

/-- `dl_sched_rar_t` -/
structure DlSchedRar where
  rarnti : Nat := 0
  grant : RarGrant := {}
  nofGrants : Nat := 0
  dci : DlDci := {}
  dciLocation : DciLocation := {}
  tbs : Int := 0

/-- `dl_sched_res_t` -/
structure DlSchedRes where
  cfi : Nat := 0
  bc : List DlSchedBc := []
  rar : List DlSchedRar := []
  data : List DlSchedData := []

/-- `ul_sched_phich_t` -/
structure UlSchedPhich where
  rnti : Nat
  ack : Bool

/-- `ul_sched_res_t` -/
structure UlSchedRes where
  pusch : List UlSchedData := []
  phich : List UlSchedPhich := []

instance : Inhabited DlSchedBc := ⟨{}⟩
instance : Inhabited DlSchedRar := ⟨{}⟩
instance : Inhabited DlSchedData := ⟨{}⟩
instance : Inhabited UlSchedData := ⟨{}⟩

/-! ## DCI -/

/-- The first used CCE of a candidate. -/
def CceTable.firstUsed (t : CceTable) (ncce L : Nat) : Option Nat :=
  (List.range' ncce (2 ^ L)).find? t.used

def CceTable.take (t : CceTable) (ncce L : Nat) : CceTable :=
  { used := fun n => if ncce ≤ n ∧ n < ncce + 2 ^ L then true else t.used n
    log := t.log ++ [.taken ⟨L, ncce⟩] }

def CceTable.refuse (t : CceTable) (cce : Nat) : CceTable :=
  { t with log := t.log ++ [.refused cce] }

/-- `bzero` of `used_cce`. -/
def CceTable.clear (t : CceTable) : CceTable := { t with used := fun _ => false }

/-- The loop of `generate_dci` over the candidates from `cand` on. -/
def tryCandidates (loc : DciCce) (L : Nat) (collides : Nat → Bool) :
    Nat → Nat → CceTable → Option DciLocation × CceTable
  | 0, _, t => (none, t)
  | fuel + 1, cand, t =>
    let ncce := loc.cceStart L cand
    let next := if cand + 1 = loc.nofLoc L then 0 else cand + 1
    if collides ncce then tryCandidates loc L collides fuel next t
    else
      match t.firstUsed ncce L with
      | some cce => tryCandidates loc L collides fuel next (t.refuse cce)
      | none => (some ⟨L, ncce⟩, t.take ncce L)

namespace Sched

variable (lib : Lib) (s : Sched)

def generateDci (loc : DciCce) (L : Nat) (collides : Nat → Bool) : Option DciLocation × Sched :=
  if loc.nofLoc L = 0 then (none, s)
  else
    let cand := lib.rand s.nofRand % loc.nofLoc L
    let (r, t) := tryCandidates loc L collides (loc.nofLoc L) cand s.cce
    (r, { s with cce := t, nofRand := s.nofRand + 1 })

/-- The search of `generate_format1a`: `n_prb1a`, the index and the TBS. -/
def format1aTbs (tbs : Int) : Option (Nat × Nat × Int) :=
  (List.range 27).findSome? fun (i : Nat) =>
    if lib.tbsFromIdx i 2 ≥ tbs then some (2, i, lib.tbsFromIdx i 2)
    else if lib.tbsFromIdx i 3 ≥ tbs then some (3, i, lib.tbsFromIdx i 3)
    else none

/-- `generate_format1a`; where no TBS is large enough, MCS -1 and the requested TBS stay. -/
def generateFormat1a (rbStart lCrb tbsBytes rv : Nat) (dci : DlDci) : Int × DlDci :=
  let nPrb1a := match dci.alloc with
    | .type2 n _ _ => n
    | .type0 _ => 0
  let (nPrb1a, mcs, tbs) : Nat × Int × Int :=
    match format1aTbs lib (tbsBytes * 8) with
    | some (n, i, tbs) => (n, i, tbs)
    | none => (nPrb1a, -1, tbsBytes * 8)
  (tbs,
   { dci with
     alloc := .type2 nPrb1a lCrb rbStart, harqProcess := 0,
     mcsIdx := Function.update dci.mcsIdx 0 (toU32 mcs), rvIdx := Function.update dci.rvIdx 0 rv,
     tbEn := fun tb => decide (tb = 0) })

/-! ## Broadcast -/

def setSib (i : Nat) (b : SchedSib) : Sched :=
  { s with pendingSibs := Function.update s.pendingSibs i b }

/-- The first loop of `dl_sched_bc`: whether SIB `i` enters or leaves its window. -/
def sibWindow (s : Sched) (it : SibCfg × Nat) : Sched :=
  let (sib, i) := it
  let b := s.pendingSibs i
  if sib.len ≠ 0 then
    if !b.isInWindow then
      let x := if i > 0 then (i - 1) * s.cfg.siWindowMs else 0
      let sf := if i > 0 then x % 10 else 5
      if s.sfn % sib.periodRf = x / 10 ∧ s.sfIdx = sf then
        s.setSib i { isInWindow := true, windowStart := s.currentTti, nTx := 0 }
      else s
    else if i > 0 then
      if lib.ttiInterval s.currentTti b.windowStart > s.cfg.siWindowMs then
        s.setSib i { b with isInWindow := false, windowStart := 0 }
      else s
    else if b.nTx = 4 then s.setSib 0 { b with nTx := 0 }
    else s
  else s

/-- Transmissions of an SI message in its window. -/
def sibNofTx (i : Nat) : Nat :=
  if i > 0 then
    if s.cfg.siWindowMs ≤ 10 then 1
    else if s.cfg.siWindowMs ≤ 20 then 2
    else if s.cfg.siWindowMs ≤ 30 then 3
    else 4
  else 4

def sibDue (i : Nat) : Bool :=
  let b := s.pendingSibs i
  let nSf := u32 (s.currentTti + 2 ^ 32 - b.windowStart)
  if i = 0 then decide (s.sfn % 2 = 0) && decide (s.sfIdx = 5)
  else decide (nSf ≥ s.cfg.siWindowMs / s.sibNofTx i * b.nTx) && decide (s.sfIdx = 9)

/-- RBGs from `start_rbg` on are used. -/
def advanceRbg (n : Nat) : Sched :=
  { s with availRbg := s.availRbg - n, startRbg := s.startRbg + n }

/-- The second loop of `dl_sched_bc`. -/
def sibSched (st : Sched × Elems DlSchedBc) (it : SibCfg × Nat) : Sched × Elems DlSchedBc :=
  let (s, out) := st
  let (sib, i) := it
  let b := s.pendingSibs i
  if sib.len ≠ 0 ∧ b.isInWindow ∧ b.nTx < 4 ∧ s.availRbg > s.siNRbg ∧ s.sibDue i then
    match s.generateDci lib (s.commonLocations (s.currentCfi - 1)) s.bcAggrLevel
        fun _ => false with
    | (none, s) => (s, out)
    | (some loc, s) =>
      let slot := { out.slot with dciLocation := loc }
      let (tbs, dci) := generateFormat1a lib (s.startRbg * s.P) (s.siNRbg * s.P) sib.len
        (getRvidx b.nTx) slot.dci
      let slot := { slot with dci := dci }
      if tbs ≥ sib.len then
        ((s.setSib i { b with nTx := b.nTx + 1 }).advanceRbg s.siNRbg,
         out.push { slot with index := i, type := .bcch, tbs := tbs })
      else (s, { out with slot := slot })
  else (s, out)

/-- The paging part of `dl_sched_bc`, with the payload when this is a paging opportunity. -/
def pagingSched (paging : Option Nat) (st : Sched × Elems DlSchedBc) : Sched × Elems DlSchedBc :=
  let (s, out) := st
  match paging with
  | none => (s, out)
  | some payload =>
    if s.availRbg > s.siNRbg ∧ payload ≠ 0 then
      match s.generateDci lib (s.commonLocations (s.currentCfi - 1)) s.bcAggrLevel
          fun _ => false with
      | (none, s) => (s, out)
      | (some loc, s) =>
        let slot := { out.slot with dciLocation := loc }
        let (tbs, dci) := generateFormat1a lib (s.startRbg * s.P) (s.siNRbg * s.P) payload 0
          slot.dci
        let slot := { slot with dci := dci }
        if tbs > 0 then
          (s.advanceRbg s.siNRbg, out.push { slot with type := .pcch, tbs := tbs })
        else (s, { out with slot := slot })
    else (s, out)

def dlSchedBc (paging : Option Nat) : Sched × List DlSchedBc :=
  let s := s.cfg.sibs.zipIdx.foldl (sibWindow lib) s
  let (s, out) := pagingSched lib paging (s.cfg.sibs.zipIdx.foldl (sibSched lib) (s, ⟨[], default⟩))
  (s, out.done)

/-! ## Random access response -/

def setRar (i : Nat) (r : SchedRar) : Sched :=
  { s with pendingRar := Function.update s.pendingRar i r }

/-- The inner loop of `dl_sched_rar` over the responses of the same TTI: only the first of them
is granted, with `buf_rar` of the outer loop's. -/
def rarGrant (i tti : Nat) (st : Sched × DlSchedRar) (j : Nat) : Sched × DlSchedRar :=
  let (s, rar) := st
  if (s.pendingRar j).rarTti = tti then
    if rar.nofGrants = 0 then
      let r := s.pendingRar j
      let grant : RarGrant :=
        { raId := r.raId, tpcPusch := 3, truncMcs := 0,
          rba := lib.raType2ToRiv 3 2 s.cfg.cell.nofPrb }
      let buf := (s.pendingRar i).bufRar
      let pendingTti := (s.currentTti + msg3DelayMs + harqDelayMs) % 10
      let msg3 : PendingMsg3 :=
        { enabled := true, rnti := r.rnti, L := 3, nPrb := 2, mcs := grant.truncMcs }
      ({ s.setRar j { r with bufRar := 0, rarTti := 0 } with
         pendingMsg3 := Function.update s.pendingMsg3 pendingTti msg3 },
       { rar with grant := grant, nofGrants := 1, tbs := buf })
    else (s, { rar with nofGrants := rar.nofGrants + 1 })
  else (s, rar)

def inRarWindow (r : SchedRar) : Bool :=
  decide (s.currentTti ≤ (r.rarTti + s.cfg.prachRarWindow + 3) % 10240) &&
    decide (s.currentTti ≥ r.rarTti + 3)

/-- The round of `dl_sched_rar` for one pending response. -/
def rarSched (st : Sched × Elems DlSchedRar) (i : Nat) : Sched × Elems DlSchedRar :=
  let (s, out) := st
  let r := s.pendingRar i
  if r.bufRar > 0 ∧ s.availRbg ≥ s.rarNRbg then
    if s.inRarWindow r then
      match s.generateDci lib (s.rarLocations (s.currentCfi - 1) s.sfIdx) s.rarAggrLevel
          fun _ => false with
      | (none, s) => (s, out)
      | (some loc, s) =>
        let rar := { out.slot with dciLocation := loc, nofGrants := 0, tbs := 0 }
        let (s, rar) := (List.range schedMaxPendingRar).foldl (rarGrant lib i r.rarTti) (s, rar)
        let (tbs, dci) := generateFormat1a lib (s.startRbg * s.P) (s.rarNRbg * s.P)
          (toU32 rar.tbs) 0 rar.dci
        let rar := { rar with rarnti := (r.rarTti + 1) % 10, dci := dci }
        if tbs ≥ 0 then (s.advanceRbg s.rarNRbg, out.push rar) else (s, { out with slot := rar })
    else (s.setRar i { r with bufRar := 0, rarTti := 0 }, out)
  else (s, out)

def dlSchedRar : Sched × List DlSchedRar :=
  let (s, out) := (List.range schedMaxPendingRar).foldl (rarSched lib) (s, ⟨[], default⟩)
  (s, out.done)

/-! ## Data -/

/-- The grant by the user's DCI format. -/
def generateFormat (format : DciFormat) (u : SchedUe) (pid : Pid) (slot : DlSchedData)
    (tti cfi : Nat) : SchedUe × DlSchedData × Int :=
  match format with
  | .format1 => u.generateFormat1 lib pid slot tti cfi
  | .format2 => u.generateFormat2 lib pid slot tti cfi
  | .format2a => u.generateFormat2a lib pid slot tti cfi
  | .format0 => (u, slot, 0)

/-- The round of `dl_sched_data` for one user. -/
def dataUser (st : Sched × Elems DlSchedData) (_ : Nat) (u : SchedUe) :
    (Sched × Elems DlSchedData) × SchedUe :=
  let (s, out) := st
  let format := u.getDciFormat
  let slot := { out.slot with dciFormat := format }
  let cell := s.cfg.cell
  let aggrLevel := u.getAggrLevel lib (lib.dciFormatSizeof .format1 cell.nofPrb cell.nofPorts)
  match u.dlNextAlloc with
  | none => ((s, { out with slot := slot }), u.resetTimeoutDlHarq lib s.currentTti)
  | some pid =>
    match s.generateDci lib (u.getLocations s.currentCfi s.sfIdx) aggrLevel
        (u.pucchSrCollision lib s.currentTti) with
    | (none, s) =>
      ((s, { out with slot := slot }),
       (u.setDl pid (u.dlHarq pid).resetAll).resetTimeoutDlHarq lib s.currentTti)
    | (some loc, s) =>
      let (u, slot, tbs) := generateFormat lib format u pid { slot with dciLocation := loc }
        s.currentTti s.currentCfi
      ((s, if tbs > 0 then out.push slot else { out with slot := slot }),
       u.resetTimeoutDlHarq lib s.currentTti)

/-- In a narrow cell and with a PRACH to come, `start_rbg` is set to the number of RBGs left. -/
def prachStart : Sched :=
  if s.cfg.cell.nofPrb < 10 ∧ lib.prachTtiOpportunity s.cfg.prachConfig (s.currentTti + 4) then
    { s with startRbg := s.availRbg }
  else s

def dlSchedData : Sched × List DlSchedData :=
  let s := s.prachStart lib
  let nofCtrlSymbols := if s.cfg.cell.nofPrb < 10 then s.currentCfi + 1 else s.currentCfi
  let (m, db) := s.dlMetric.newTti lib s.ueDb s.startRbg s.availRbg nofCtrlSymbols s.currentTti
  let ((s, out), db) := db.visit (dataUser lib) db.keys ({ s with dlMetric := m }, ⟨[], default⟩)
  ({ s with ueDb := db }, out.done)

/-- The part of `dl_sched` before the three schedulers. -/
def dlStart (tti : Nat) : Sched :=
  { s with
    cce := if s.currentTti ≠ tti then s.cce.clear else s.cce
    currentTti := tti, sfn := tti / 10, sfIdx := tti % 10, availRbg := s.nofRbg, startRbg := 0
    currentCfi := s.nofCtrlSymbols, bcAggrLevel := 2, rarAggrLevel := 2 }

def dlSched (tti : Nat) (paging : Option Nat) : Sched × DlSchedRes :=
  if !s.configured then (s, {})
  else
    let (s, bc) := (s.dlStart tti).dlSchedBc lib paging
    let (s, rar) := s.dlSchedRar lib
    let (s, data) := s.dlSchedData lib
    (s, { cfi := s.currentCfi, bc := bc, rar := rar, data := data })

/-! ## Uplink -/

/-- The round of the PHICH loop for one user. -/
def phichUser (tti : Nat) (phich : List UlSchedPhich) (rnti : Nat) (u : SchedUe) :
    List UlSchedPhich × SchedUe :=
  let pid := SchedUe.getUlHarq tti
  let (pending, h) := (u.ulHarq pid).hasPendingAck
  (if pending then phich ++ [⟨rnti, (h.tb 0).ack⟩] else phich,
   { u.setUl pid h with hasPucch := false })

/-- `update_allocation`, whose result only the log reads. -/
def reserve (alloc : UlAlloc) : Sched :=
  { s with ulMetric := (s.ulMetric.updateAllocation alloc).2 }

/-- The PRACH, when there is one in this subframe. -/
def reservePrach (tti : Nat) : Sched :=
  if lib.prachTtiOpportunity s.cfg.prachConfig tti then s.reserve ⟨s.cfg.prachFreqOffset, 6⟩ else s

def reserveMsg3 (tti : Nat) : Sched :=
  let msg3 := s.pendingMsg3 (tti % 10)
  if msg3.enabled then s.reserve ⟨msg3.nPrb, msg3.L⟩ else s

/-- The round of the PUCCH loop for one user, when the cell does not fix the PRBs. -/
def pucchUser (tti : Nat) (m : UlMetric) (_ : Nat) (u : SchedUe) : UlMetric × SchedUe :=
  match u.getPucchSched lib tti with
  | some (prb0, prb1) =>
    (((m.updateAllocation ⟨prb0, 1⟩).2.updateAllocation ⟨prb1, 1⟩).2, { u with hasPucch := true })
  | none => (m, u)

def reservePucch : Sched :=
  if s.cfg.nrbPucch ≥ 0 then
    let nrb := s.cfg.nrbPucch.toNat
    (s.reserve ⟨0, nrb⟩).reserve ⟨toU32 (s.cfg.cell.nofPrb - s.cfg.nrbPucch), nrb⟩
  else
    let (m, db) := s.ueDb.visit (pucchUser lib s.currentTti) s.ueDb.keys s.ulMetric
    { s with ulMetric := m, ueDb := db }

/-- The grant of one user on process `pid`, once its DCI is settled. -/
def puschGrant (u : SchedUe) (pid : Pid) (isNewtx : Bool) (tti : Nat) (out : Elems UlSchedData)
    (slot : UlSchedData) : Elems UlSchedData × SchedUe :=
  let (cqiRequest, u) := u.needsCqi lib tti true
  let (u, slot, tbs) := u.generateFormat0 lib pid slot tti cqiRequest
  if tbs > 0 then (out.push slot, if isNewtx then { u with sr := false } else u)
  else ({ out with slot := slot }, u)

/-- The process of a user in this TTI: the one for its Msg3, or the metric's choice. -/
def puschProc (s : Sched) (tti rnti : Nat) (u : SchedUe) : Sched × SchedUe × Bool × Option Pid :=
  let msg3 := s.pendingMsg3 (tti % 10)
  if msg3.enabled && decide (msg3.rnti = rnti) then
    let pid := SchedUe.getUlHarq tti
    let h := ((u.ulHarq pid).setAlloc ⟨msg3.nPrb, msg3.L⟩).setRarMcs msg3.mcs
    let done := { msg3 with enabled := false }
    ({ s with pendingMsg3 := Function.update s.pendingMsg3 (tti % 10) done },
     u.setUl pid h, true, some pid)
  else (s, u, false, u.ulNextAlloc)

/-- The transmission of one user on process `pid`: its maximum, its DCI and its grant. -/
def puschTx (tti : Nat) (out : Elems UlSchedData) (u : SchedUe) (isRar : Bool) (pid : Pid) :
    (Sched × Elems UlSchedData) × SchedUe :=
  let h := u.ulHarq pid
  let isNewtx := h.isEmpty 0
  let needsPdcch := !h.isAdaptive && !isRar
  let u := if isNewtx then
      u.setUl pid (h.setMaxRetx (if isRar then s.cfg.maxharqMsg3tx else u.cfg.maxharqTx))
    else u
  if needsPdcch then
    let cell := s.cfg.cell
    let aggrLevel := u.getAggrLevel lib (lib.dciFormatSizeof .format0 cell.nofPrb cell.nofPorts)
    match s.generateDci lib (u.getLocations s.currentCfi s.sfIdx) aggrLevel fun _ => false with
    | (none, s) =>
      ((s, { out with slot := { out.slot with needsPdcch := false } }),
       u.setUl pid (u.ulHarq pid).reset)
    | (some loc, s) =>
      let (out, u) := puschGrant lib u pid isNewtx tti out
        { out.slot with dciLocation := loc, needsPdcch := true }
      ((s, out), u)
  else
    let (out, u) := puschGrant lib u pid isNewtx tti out { out.slot with needsPdcch := false }
    ((s, out), u)

/-- The round of the PUSCH loop for one user. -/
def puschUser (tti : Nat) (st : Sched × Elems UlSchedData) (rnti : Nat) (u : SchedUe) :
    (Sched × Elems UlSchedData) × SchedUe :=
  let (s, out) := st
  let (s, u, isRar, next) := s.puschProc tti rnti u
  match next with
  | none => ((s, out), u)
  | some pid => s.puschTx lib tti out u isRar pid

/-- The last loop of `ul_sched`. -/
def pendingDataUser (tti : Nat) (st : Unit) (_ : Nat) (u : SchedUe) : Unit × SchedUe :=
  let pid := SchedUe.getUlHarq tti
  (st, u.setUl pid (u.ulHarq pid).resetPendingData)

/-- The part of `ul_sched` up to the PHICHs. -/
def ulStart (tti : Nat) : Sched :=
  { s with
    cce := if ttiTx s.currentTti ≠ tti then s.cce.clear else s.cce
    currentTti := tti, sfn := tti / 10
    sfIdx := if tti > harqDelayMs then (tti - harqDelayMs) % 10
      else (tti + 10240 - harqDelayMs) % 10
    ulMetric := s.ulMetric.resetAllocation s.cfg.cell.nofPrb }

/-- The reservations of `ul_sched` and the metric. -/
def ulAllocate (tti : Nat) : Sched :=
  let s := (((s.reservePrach lib tti).reserveMsg3 tti).reservePucch lib)
  let (m, db) := s.ulMetric.newTti lib s.ueDb s.currentTti
  { s with ulMetric := m, ueDb := db }

/-- `ul_sched`; a cell that is not configured, or a PRACH outside of it, gives no result. -/
def ulSched (tti : Nat) : Sched × UlSchedRes :=
  if !s.configured then (s, {})
  else if s.cfg.prachFreqOffset + 6 > s.cfg.cell.nofPrb ∧ s.cfg.cell.nofPrb > 10 then (s, {})
  else
    let s := s.ulStart tti
    let (phich, db) := s.ueDb.visit (phichUser tti) s.ueDb.keys []
    let s := { s with ueDb := db }.ulAllocate lib tti
    let ((s, out), db) := s.ueDb.visit (puschUser lib tti) s.ueDb.keys (s, ⟨[], default⟩)
    let ((), db) := db.visit (pendingDataUser tti) db.keys ()
    ({ s with ueDb := db }, { pusch := out.done, phich := phich })

/-! ## A cell to run the model with -/

/-- A cell of 6 PRBs with one PRB of PUCCH at each edge. -/
def exampleCell : CellCfg := { cell := ⟨6, 1, 7⟩, nrbPucch := 1 }

/-- Its scheduler; each aggregation level has four candidates. -/
def exampleSched : Sched where
  cfg := exampleCell
  nofCtrlSymbols := 3
  configured := true
  P := 1
  siNRbg := 4
  rarNRbg := 3
  nofRbg := 6
  commonLocations _ := ⟨fun L n => n * 2 ^ L, fun _ => 4⟩
  rarLocations _ _ := ⟨fun L n => n * 2 ^ L, fun _ => 4⟩

end Sched

end Srsenb.Mac
