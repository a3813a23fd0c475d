import Srsenb.Mac.HarqRetx
import Srsenb.Mac.Phich

/-! # The calls of a downlink round

`dl_sched_data` changes the processes of a user by `new_tx`, `new_retx` and `reset` alone. This
module lists the calls of a round, whichever DCI format the user has, beside the grant that comes
of them. -/

namespace Srsenb.Mac

/-- What a generator does for one transport block: nothing, a retransmission, or a new block with
its SDUs. -/
inductive BlockAct
  | idle
  | retx
  | new (mcs tbs : Int) (sdus : List DlSchedPdu)
  deriving DecidableEq

namespace BlockAct

def calls (tb : Fin 2) (tti nCce : Nat) : BlockAct → List HarqEvent
  | idle => []
  | retx => [.newRetx tb tti]
  | new mcs tbs _ => [.newTx tb tti mcs tbs nCce]

/-- The TBS, where `b` is what the process keeps of the block. -/
def tbs (b : Tb) : BlockAct → Int
  | idle => 0
  | retx => b.lastTbs
  | new _ tbs _ => tbs

/-- The elements of the block in the slot that had `pdus`. -/
def fill (conRes : Bool) (pdus : List DlSchedPdu) : BlockAct → List DlSchedPdu
  | new _ _ sdus => (if conRes then withConRes pdus else pdus) ++ sdus
  | _ => pdus

@[simp] theorem calls_idle (tb : Fin 2) (tti nCce : Nat) : idle.calls tb tti nCce = [] := rfl

@[simp] theorem tbs_idle (b : Tb) : idle.tbs b = 0 := rfl

@[simp] theorem fill_idle (conRes : Bool) (pdus : List DlSchedPdu) :
    idle.fill conRes pdus = pdus := rfl

theorem fill_new (mcs tbs : Int) (sdus : List DlSchedPdu) (conRes : Bool)
    (pdus : List DlSchedPdu) : (new mcs tbs sdus).fill conRes pdus =
      (if conRes then withConRes pdus else pdus) ++ sdus := rfl

end BlockAct

namespace SchedUe

variable (lib : Lib) (u : SchedUe) (pid : Pid) (tti cfi : Nat)

def newBlock (t : Int × Int) : BlockAct :=
  .new t.2 t.1 (allocPdus (t.1.toNat + 1) t.1 u.lch).1

/-- The act of `generate_format1`. -/
def format1Act : BlockAct :=
  if (u.dlHarq pid).isEmpty 0 then u.newBlock (u.format1Tbs lib (u.dlHarq pid) tti cfi) else .retx

/-- The act of a round of `generate_format2a`. -/
def format2aTbAct (nofPrb nofRe : Nat) (tbEn noRetx : Bool) (tb : Fin 2) : BlockAct :=
  if !(u.dlHarq pid).isEmpty tb then .retx
  else if tbEn && decide (u.getPendingDlNewData ≠ 0) && noRetx then
    u.newBlock (u.dlTbs lib nofPrb nofRe u.getPendingDlNewData)
  else .idle

/-- REs of the mask of process `pid`. -/
def maskNofRe : Nat :=
  lib.raDlGrantNofRe u.cell (u.dlHarq pid).rbgmask (tti % 10)
    (cfi + if u.cell.nofPrb < 10 then 1 else 0)

/-- The user and its grant after transport block 0 in `generate_format2a`. -/
def format2aFirst (data : DlSchedData) : SchedUe × DlSchedData :=
  format2aTb lib pid (format1CountPrb lib (u.dlHarq pid).rbgmask u.cell.nofPrb)
    (u.maskNofRe lib pid tti cfi) tti (u.format2aTbEn (u.dlHarq pid) 0)
    (u.format2aNoRetx (u.dlHarq pid)) 0 u
    { data with dci := { alloc := .type0 (u.dlHarq pid).rbgmask } }

/-- The acts of a generator for the two transport blocks. -/
def acts (format : DciFormat) (data : DlSchedData) (tb : Fin 2) : BlockAct :=
  let act := fun (v : SchedUe) => v.format2aTbAct lib pid
    (format1CountPrb lib (u.dlHarq pid).rbgmask u.cell.nofPrb) (u.maskNofRe lib pid tti cfi)
    (u.format2aTbEn (u.dlHarq pid) tb) (u.format2aNoRetx (u.dlHarq pid)) tb
  match format with
  | .format1 => if tb = 0 then u.format1Act lib pid tti cfi else .idle
  | .format2 | .format2a => if tb = 0 then act u else act (u.format2aFirst lib pid tti cfi data).1
  | .format0 => .idle

/-- The calls of a generator on its process. -/
def formatCalls (format : DciFormat) (data : DlSchedData) : List HarqEvent :=
  (u.acts lib pid tti cfi format data 0).calls 0 tti data.dciLocation.ncce ++
    (u.acts lib pid tti cfi format data 1).calls 1 tti data.dciLocation.ncce

/-- Whether the generator adds the contention resolution element to a new block. -/
def addsConRes (format : DciFormat) : Bool := decide (format = .format1) && u.isFirstDlTx

end SchedUe

/-! ## The generators -/

/-- What the round of a generator for one transport block leaves. -/
structure BlockOf (u : SchedUe) (pid : Pid) (tb : Fin 2) (tti : Nat) (conRes : Bool) (a : BlockAct)
    (u' : SchedUe) (d d' : DlSchedData) : Prop where
  dlHarq : u'.dlHarq = Function.update u.dlHarq pid
    ((a.calls tb tti d.dciLocation.ncce).foldl DlHarqProc.step (u.dlHarq pid))
  tbEn : d'.dci.tbEn tb = true ↔ 0 < a.tbs ((u.dlHarq pid).tb tb)
  ndi : d'.dci.tbEn tb = true → d'.dci.ndi tb = ((u'.dlHarq pid).tb tb).ndi
  size : d'.tbs tb = (a.tbs ((u.dlHarq pid).tb tb)).toNat
  pdu : d'.pdu = Function.update d.pdu tb (a.fill conRes (d.pdu tb))
  loc : d'.dciLocation = d.dciLocation
  otherEn : ∀ b ≠ tb, d'.dci.tbEn b = d.dci.tbEn b
  otherNdi : ∀ b ≠ tb, d'.dci.ndi b = d.dci.ndi b
  otherSize : ∀ b ≠ tb, d'.tbs b = d.tbs b

section Generators

variable (lib : Lib) (u : SchedUe) (pid : Pid) (tti cfi : Nat) (data : DlSchedData)

/-- The end of a round of `generate_format2a`: the fields of block `tb` of the grant. -/
def format2aFill (tb : Fin 2) (h : DlHarqProc) (sdus : List DlSchedPdu) (mcs tbs : Int) :
    DlSchedData :=
  let data := data.addPdus tb sdus
  if tbs > 0 then
    { data with
      dci := { data.dci with
        mcsIdx := Function.update data.dci.mcsIdx tb (toU32 mcs),
        rvIdx := Function.update data.dci.rvIdx tb (getRvidx (h.tb tb).nRtx),
        ndi := Function.update data.dci.ndi tb (h.tb tb).ndi,
        tbEn := Function.update data.dci.tbEn tb true }
      tbs := Function.update data.tbs tb tbs.toNat }
  else
    { data with
      dci := { data.dci with tbEn := Function.update data.dci.tbEn tb false }
      tbs := Function.update data.tbs tb 0 }

/-- The end of `generate_format1`: the grant of block 0, where the slot has its elements. -/
def format1Fill (h : DlHarqProc) (mcs tbs : Int) : DlSchedData :=
  let dci : DlDci := { alloc := .type0 (u.dlHarq pid).rbgmask }
  let data := { data with rnti := u.rnti, dci := dci }
  if tbs > 0 then
    { data with
      dci := { dci with
        harqProcess := (u.dlHarq pid).id, mcsIdx := Function.update dci.mcsIdx 0 (toU32 mcs),
        rvIdx := Function.update dci.rvIdx 0 (getRvidx (h.tb 0).nRtx),
        ndi := Function.update dci.ndi 0 (h.tb 0).ndi, tpcPucch := u.nextTpcPucch,
        tbEn := Function.update dci.tbEn 0 true }
      tbs := Function.update (fun _ => 0) 0 tbs.toNat }
  else data

variable {lib u pid tti data} {nofPrb nofRe : Nat} {tbEn noRetx : Bool} {tb : Fin 2}

theorem format2aTb_retx (hne : (u.dlHarq pid).isEmpty tb = false) :
    SchedUe.format2aTb lib pid nofPrb nofRe tti tbEn noRetx tb u data =
      (u.setDl pid ((u.dlHarq pid).newRetx tb tti).1,
       format2aFill data tb ((u.dlHarq pid).newRetx tb tti).1 [] ((u.dlHarq pid).tb tb).lastMcs
         ((u.dlHarq pid).tb tb).lastTbs) := by
  simp only [SchedUe.format2aTb, format2aFill, hne, Bool.not_false, if_true,
    DlHarqProc.newRetx, HarqProc.newRetx]
  split_ifs <;> rfl

theorem format2aTb_new (he : (u.dlHarq pid).isEmpty tb = true)
    (hnew : (tbEn && decide (u.getPendingDlNewData ≠ 0) && noRetx) = true) {t : Int × Int}
    (ht : u.dlTbs lib nofPrb nofRe u.getPendingDlNewData = t) :
    SchedUe.format2aTb lib pid nofPrb nofRe tti tbEn noRetx tb u data =
      ({ u.setDl pid ((u.dlHarq pid).newTx tb tti t.2 t.1 data.dciLocation.ncce) with
          lch := (SchedUe.allocPdus (t.1.toNat + 1) t.1 u.lch).2 },
       format2aFill data tb ((u.dlHarq pid).newTx tb tti t.2 t.1 data.dciLocation.ncce)
         (SchedUe.allocPdus (t.1.toNat + 1) t.1 u.lch).1 t.2 t.1) := by
  simp only [SchedUe.format2aTb, format2aFill, he, Bool.not_true, Bool.false_eq_true, if_false,
    hnew, if_true, ht]
  split_ifs <;> rfl

theorem format2aTb_idle (he : (u.dlHarq pid).isEmpty tb = true)
    (hnew : ¬ (tbEn && decide (u.getPendingDlNewData ≠ 0) && noRetx) = true) :
    SchedUe.format2aTb lib pid nofPrb nofRe tti tbEn noRetx tb u data =
      (u, format2aFill data tb (u.dlHarq pid) [] 0 0) := by
  simp only [SchedUe.format2aTb, format2aFill, he, Bool.not_true, Bool.false_eq_true, if_false,
    hnew, gt_iff_lt, lt_irrefl]

/-- The fields that the end of a round fills, whichever act came before. -/
theorem format2aFill_block {u' : SchedUe} {a : BlockAct} {h : DlHarqProc} {sdus : List DlSchedPdu}
    {mcs tbs : Int} (hdl : u'.dlHarq = Function.update u.dlHarq pid h)
    (hh : h = (a.calls tb tti data.dciLocation.ncce).foldl DlHarqProc.step (u.dlHarq pid))
    (htbs : tbs = a.tbs ((u.dlHarq pid).tb tb)) (hpdu : ∀ pdus, a.fill false pdus = pdus ++ sdus) :
    BlockOf u pid tb tti false a u' data (format2aFill data tb h sdus mcs tbs) := by
  rw [htbs]
  unfold format2aFill
  by_cases hpos : a.tbs ((u.dlHarq pid).tb tb) > 0
  · simp only [hpos, if_true]
    constructor <;> simp +contextual [hdl, hh, hpdu, hpos, DlSchedData.addPdus]
  · simp only [hpos, if_false]
    constructor <;> simp +contextual [hdl, hh, hpdu, DlSchedData.addPdus] <;> omega

theorem format2aTb_block (lib : Lib) (u : SchedUe) (pid : Pid) (tti : Nat) (data : DlSchedData)
    (nofPrb nofRe : Nat) (tbEn noRetx : Bool) (tb : Fin 2) :
    BlockOf u pid tb tti false (u.format2aTbAct lib pid nofPrb nofRe tbEn noRetx tb)
      (SchedUe.format2aTb lib pid nofPrb nofRe tti tbEn noRetx tb u data).1 data
      (SchedUe.format2aTb lib pid nofPrb nofRe tti tbEn noRetx tb u data).2 := by
  unfold SchedUe.format2aTbAct
  cases hempty : (u.dlHarq pid).isEmpty tb with
  | false =>
    rw [format2aTb_retx hempty]
    exact format2aFill_block (a := .retx) rfl rfl rfl (by simp [BlockAct.fill])
  | true =>
    by_cases hnew : (tbEn && decide (u.getPendingDlNewData ≠ 0) && noRetx) = true
    · rw [format2aTb_new hempty hnew rfl]
      simp only [hnew, Bool.not_true, Bool.false_eq_true, if_false, if_true]
      exact format2aFill_block rfl rfl rfl (fun _ => rfl)
    · rw [format2aTb_idle hempty hnew]
      simp only [hnew, Bool.not_true, Bool.false_eq_true, if_false]
      exact format2aFill_block (by simp) rfl rfl (by simp [BlockAct.fill])

/-- What a generator leaves: the calls on its process, and the grant of both blocks. -/
structure GrantOf (u : SchedUe) (pid : Pid) (tti : Nat) (conRes : Bool) (acts : Fin 2 → BlockAct)
    (d : DlSchedData) (r : SchedUe × DlSchedData × Int) : Prop where
  dlHarq : r.1.dlHarq = Function.update u.dlHarq pid
    (((acts 0).calls 0 tti d.dciLocation.ncce ++ (acts 1).calls 1 tti d.dciLocation.ncce).foldl
      DlHarqProc.step (u.dlHarq pid))
  tbEn : ∀ tb, r.2.1.dci.tbEn tb = true ↔ 0 < (acts tb).tbs ((u.dlHarq pid).tb tb)
  ndi : ∀ tb, r.2.1.dci.tbEn tb = true → r.2.1.dci.ndi tb = ((r.1.dlHarq pid).tb tb).ndi
  size : ∀ tb, r.2.1.dci.tbEn tb = true →
    r.2.1.tbs tb = ((acts tb).tbs ((u.dlHarq pid).tb tb)).toNat
  pdu : ∀ tb, r.2.1.pdu tb = (acts tb).fill conRes (d.pdu tb)
  sent : 0 < r.2.2 ↔ ∃ tb, r.2.1.dci.tbEn tb = true
  id : 0 < r.2.2 → r.2.1.dci.harqProcess = (u.dlHarq pid).id
  rnti : r.2.1.rnti = u.rnti

theorem generateFormat1_of_retx (lib : Lib) (data : DlSchedData) (tti cfi : Nat)
    (hne : (u.dlHarq pid).isEmpty 0 = false) :
    ∃ u', u'.dlHarq = (u.setDl pid ((u.dlHarq pid).newRetx 0 tti).1).dlHarq ∧
      u.generateFormat1 lib pid data tti cfi =
        (u', format1Fill u pid data ((u.dlHarq pid).newRetx 0 tti).1 ((u.dlHarq pid).tb 0).lastMcs
          ((u.dlHarq pid).tb 0).lastTbs, ((u.dlHarq pid).tb 0).lastTbs) := by
  simp only [SchedUe.generateFormat1, format1Fill, hne, Bool.false_eq_true, if_false,
    DlHarqProc.newRetx, HarqProc.newRetx]
  split_ifs
  all_goals
    refine ⟨_, ?_, rfl⟩
    rfl

theorem generateFormat1_of_new (data : DlSchedData) {cfi : Nat}
    (he : (u.dlHarq pid).isEmpty 0 = true) {t : Int × Int}
    (ht : u.format1Tbs lib (u.dlHarq pid) tti cfi = t) :
    ∃ u', u'.dlHarq =
        (u.setDl pid ((u.dlHarq pid).newTx 0 tti t.2 t.1 data.dciLocation.ncce)).dlHarq ∧
      u.generateFormat1 lib pid data tti cfi =
        (u', format1Fill u pid ((if u.isFirstDlTx then data.addConRes else data).addPdus 0
            (SchedUe.allocPdus (t.1.toNat + 1) t.1 u.lch).1)
          ((u.dlHarq pid).newTx 0 tti t.2 t.1 data.dciLocation.ncce) t.2 t.1, t.1) := by
  simp only [SchedUe.generateFormat1, format1Fill, he, if_true, ht]
  split_ifs
  all_goals
    refine ⟨_, ?_, rfl⟩
    rfl

theorem format1Fill_grantOf {u' : SchedUe} {a : Fin 2 → BlockAct} {h : DlHarqProc} {conRes : Bool}
    {mcs tbs : Int} {d : DlSchedData} (hdl : u'.dlHarq = Function.update u.dlHarq pid h)
    (hh : h = ((a 0).calls 0 tti d.dciLocation.ncce).foldl DlHarqProc.step (u.dlHarq pid))
    (htbs : tbs = (a 0).tbs ((u.dlHarq pid).tb 0)) (hidle : a 1 = .idle)
    (hpdu : ∀ tb, data.pdu tb = (a tb).fill conRes (d.pdu tb)) :
    GrantOf u pid tti conRes a d (u', format1Fill u pid data h mcs tbs, tbs) := by
  rw [htbs]
  unfold format1Fill
  by_cases hpos : (a 0).tbs ((u.dlHarq pid).tb 0) > 0
  · simp only [hpos, if_true]
    constructor <;> simp [hdl, hh, hpdu, hpos, hidle, Fin.forall_fin_two, Fin.exists_fin_two]
  · simp only [hpos, if_false]
    constructor <;> simp [hdl, hh, hpdu, hidle, Fin.forall_fin_two] <;> omega

theorem generateFormat1_grantOf (lib : Lib) (u : SchedUe) (pid : Pid) (data data' : DlSchedData)
    (tti cfi : Nat) :
    GrantOf u pid tti (u.addsConRes .format1) (u.acts lib pid tti cfi .format1 data') data
      (u.generateFormat1 lib pid data tti cfi) := by
  have hacts : ∀ tb, u.acts lib pid tti cfi .format1 data' tb =
      if tb = 0 then u.format1Act lib pid tti cfi else .idle := fun _ => rfl
  cases hempty : (u.dlHarq pid).isEmpty 0 with
  | false =>
    have hact : u.format1Act lib pid tti cfi = .retx := by simp [SchedUe.format1Act, hempty]
    obtain ⟨u', hdl, heq⟩ := generateFormat1_of_retx lib data tti cfi hempty
    rw [heq]
    refine format1Fill_grantOf hdl ?_ ?_ (hacts 1) ?_
    · simp [hacts, hact, BlockAct.calls, DlHarqProc.step]
    · simp [hacts, hact, BlockAct.tbs]
    · simp [Fin.forall_fin_two, hacts, hact, BlockAct.fill]
  | true =>
    obtain ⟨t, ht⟩ : ∃ t, u.format1Tbs lib (u.dlHarq pid) tti cfi = t := ⟨_, rfl⟩
    have hact : u.format1Act lib pid tti cfi = u.newBlock t := by
      simp [SchedUe.format1Act, hempty, ht]
    obtain ⟨u', hdl, heq⟩ := generateFormat1_of_new data hempty ht
    rw [heq]
    refine format1Fill_grantOf hdl ?_ ?_ (hacts 1) ?_
    · simp [hacts, hact, SchedUe.newBlock, BlockAct.calls, DlHarqProc.step]
    · simp [hacts, hact, SchedUe.newBlock, BlockAct.tbs]
    · simp only [Fin.forall_fin_two, hacts, hact, SchedUe.newBlock, BlockAct.fill,
        SchedUe.addsConRes, DlSchedData.addPdus, DlSchedData.addConRes]
      cases u.isFirstDlTx <;> simp

theorem foldl_calls_tb_ne (h : DlHarqProc) (a : BlockAct) {b : Fin 2} (hne : b ≠ tb) (nCce : Nat) :
    ((a.calls tb tti nCce).foldl DlHarqProc.step h).tb b = h.tb b := by
  cases a with
  | idle => rfl
  | retx => exact DlHarqProc.step_tb_ne (.newRetx tb tti) hne
  | new mcs tbs sdus => exact DlHarqProc.step_tb_ne (.newTx tb tti mcs tbs nCce) hne

/-- The two rounds of `generate_format2a`, one for each block. -/
theorem generateFormat2a_rounds (lib : Lib) (u : SchedUe) (pid : Pid) (data : DlSchedData)
    (tti cfi : Nat) : ∃ v w d0 d1,
      BlockOf u pid 0 tti false (u.acts lib pid tti cfi .format2a data 0) v
        { data with dci := { alloc := .type0 (u.dlHarq pid).rbgmask } } d0 ∧
      BlockOf v pid 1 tti false (u.acts lib pid tti cfi .format2a data 1) w d0 d1 ∧
      u.generateFormat2a lib pid data tti cfi =
        ({ w with nextTpcPucch := 1 },
         { d1 with
           rnti := u.rnti
           dci := { d1.dci with
             harqProcess := (u.dlHarq pid).id, tpcPucch := u.nextTpcPucch } },
         ((d1.tbs 0 + d1.tbs 1 : Nat) : Int)) := by
  obtain ⟨⟨v, d0⟩, hfirst⟩ : ∃ r, u.format2aFirst lib pid tti cfi data = r := ⟨_, rfl⟩
  have h0 := format2aTb_block lib u pid tti
    { data with dci := { alloc := .type0 (u.dlHarq pid).rbgmask } }
    (SchedUe.format1CountPrb lib (u.dlHarq pid).rbgmask u.cell.nofPrb)
    (u.maskNofRe lib pid tti cfi) (u.format2aTbEn (u.dlHarq pid) 0)
    (u.format2aNoRetx (u.dlHarq pid)) 0
  have h1 := format2aTb_block lib v pid tti d0
    (SchedUe.format1CountPrb lib (u.dlHarq pid).rbgmask u.cell.nofPrb)
    (u.maskNofRe lib pid tti cfi) (u.format2aTbEn (u.dlHarq pid) 1)
    (u.format2aNoRetx (u.dlHarq pid)) 1
  unfold SchedUe.format2aFirst at hfirst
  rw [hfirst] at h0
  obtain ⟨⟨w, d1⟩, hsecond⟩ : ∃ r, SchedUe.format2aTb lib pid
      (SchedUe.format1CountPrb lib (u.dlHarq pid).rbgmask u.cell.nofPrb)
      (u.maskNofRe lib pid tti cfi) tti (u.format2aTbEn (u.dlHarq pid) 1)
      (u.format2aNoRetx (u.dlHarq pid)) 1 v d0 = r := ⟨_, rfl⟩
  rw [hsecond] at h1
  have heq : u.generateFormat2a lib pid data tti cfi =
      ({ w with nextTpcPucch := 1 },
       { d1 with
         rnti := u.rnti
         dci := { d1.dci with
           harqProcess := (u.dlHarq pid).id, tpcPucch := u.nextTpcPucch } },
       ((d1.tbs 0 + d1.tbs 1 : Nat) : Int)) := by
    unfold SchedUe.maskNofRe at hfirst hsecond
    simp only [SchedUe.generateFormat2a, hfirst, hsecond]
  have ha0 : u.acts lib pid tti cfi .format2a data 0 = u.format2aTbAct lib pid
      (SchedUe.format1CountPrb lib (u.dlHarq pid).rbgmask u.cell.nofPrb)
      (u.maskNofRe lib pid tti cfi) (u.format2aTbEn (u.dlHarq pid) 0)
      (u.format2aNoRetx (u.dlHarq pid)) 0 := rfl
  have ha1 : u.acts lib pid tti cfi .format2a data 1 = v.format2aTbAct lib pid
      (SchedUe.format1CountPrb lib (u.dlHarq pid).rbgmask u.cell.nofPrb)
      (u.maskNofRe lib pid tti cfi) (u.format2aTbEn (u.dlHarq pid) 1)
      (u.format2aNoRetx (u.dlHarq pid)) 1 := by
    rw [show v = (u.format2aFirst lib pid tti cfi data).1 by
      unfold SchedUe.format2aFirst; rw [hfirst]]
    rfl
  rw [← ha0] at h0
  rw [← ha1] at h1
  exact ⟨v, w, d0, d1, h0, h1, heq⟩

theorem generateFormat2a_grantOf (lib : Lib) (u : SchedUe) (pid : Pid) (data : DlSchedData)
    (tti cfi : Nat) :
    GrantOf u pid tti false (u.acts lib pid tti cfi .format2a data) data
      (u.generateFormat2a lib pid data tti cfi) := by
  obtain ⟨v, w, d0, d1, h0, h1, heq⟩ := generateFormat2a_rounds lib u pid data tti cfi
  rw [heq]
  -- Block 1 of the process is as the round of block 0 found it.
  have hkept : (v.dlHarq pid).tb 1 = (u.dlHarq pid).tb 1 := by
    rw [h0.dlHarq, Function.update_self]
    exact foldl_calls_tb_ne _ _ (by decide) _
  have hlast : (w.dlHarq pid).tb 0 = (v.dlHarq pid).tb 0 := by
    rw [h1.dlHarq, Function.update_self]
    exact foldl_calls_tb_ne _ _ (by decide) _
  have hen0 := h1.otherEn 0 (by decide)
  have hsize0 := h1.otherSize 0 (by decide)
  have htb1 := h1.tbEn
  have hs1 := h1.size
  rw [hkept] at htb1 hs1
  refine ⟨?_, ?_, ?_, ?_, ?_, ?_, fun _ => rfl, rfl⟩
  · rw [List.foldl_append]
    refine h1.dlHarq.trans ?_
    rw [h0.loc, h0.dlHarq, Function.update_self, Function.update_idem]
  · rw [Fin.forall_fin_two]
    exact ⟨(Bool.eq_iff_iff.mp hen0).trans h0.tbEn, htb1⟩
  · rw [Fin.forall_fin_two]
    refine ⟨fun h => ?_, h1.ndi⟩
    exact (h1.otherNdi 0 (by decide)).trans ((h0.ndi (hen0 ▸ h)).trans (by rw [hlast]))
  · rw [Fin.forall_fin_two]
    exact ⟨fun _ => hsize0.trans h0.size, fun _ => hs1⟩
  · rw [Fin.forall_fin_two]
    constructor <;> simp [h1.pdu, h0.pdu]
  · rw [Fin.exists_fin_two]
    have hpos0 := h0.tbEn
    rw [← hen0] at hpos0
    simp only [hpos0, htb1, hsize0, h0.size, hs1]
    omega

theorem generateFormat2_grantOf (lib : Lib) (u : SchedUe) (pid : Pid) (data : DlSchedData)
    (tti cfi : Nat) :
    GrantOf u pid tti false (u.acts lib pid tti cfi .format2 data) data
      (u.generateFormat2 lib pid data tti cfi) := by
  have h := generateFormat2a_grantOf lib u pid data tti cfi
  exact ⟨h.dlHarq, h.tbEn, h.ndi, h.size, h.pdu, h.sent, h.id, h.rnti⟩

/-- Whichever format a user has, the grant comes of the acts of the format. -/
theorem generateFormat_grantOf (lib : Lib) (u : SchedUe) (pid : Pid) (data : DlSchedData)
    (tti cfi : Nat) {format : DciFormat} (hf : format ≠ .format0) :
    GrantOf u pid tti (u.addsConRes format) (u.acts lib pid tti cfi format data) data
      (Sched.generateFormat lib format u pid data tti cfi) := by
  cases format with
  | format0 => exact absurd rfl hf
  | format1 => exact generateFormat1_grantOf lib u pid data data tti cfi
  | format2 => exact generateFormat2_grantOf lib u pid data tti cfi
  | format2a => exact generateFormat2a_grantOf lib u pid data tti cfi

/-- The round for block 0 leaves the other block as it was. -/
theorem format2aFirst_isEmpty (cfi : Nat) (htb : tb ≠ 0) :
    ((u.format2aFirst lib pid tti cfi data).1.dlHarq pid).isEmpty tb =
      (u.dlHarq pid).isEmpty tb := by
  have hblock := format2aTb_block lib u pid tti
    { data with dci := { alloc := .type0 (u.dlHarq pid).rbgmask } }
    (SchedUe.format1CountPrb lib (u.dlHarq pid).rbgmask u.cell.nofPrb)
    (u.maskNofRe lib pid tti cfi) (u.format2aTbEn (u.dlHarq pid) 0)
    (u.format2aNoRetx (u.dlHarq pid)) 0
  have hsame : ((u.format2aFirst lib pid tti cfi data).1.dlHarq pid).tb tb =
      (u.dlHarq pid).tb tb := by
    unfold SchedUe.format2aFirst
    rw [hblock.dlHarq, Function.update_self]
    exact foldl_calls_tb_ne _ _ htb _
  unfold HarqProc.isEmpty
  rw [hsame]

/-- Only a block that is not empty is retransmitted. -/
theorem acts_retx {cfi : Nat} {format : DciFormat}
    (h : u.acts lib pid tti cfi format data tb = .retx) : (u.dlHarq pid).isEmpty tb = false := by
  have hact : ∀ {v : SchedUe} {nofPrb nofRe : Nat} {tbEn noRetx : Bool},
      v.format2aTbAct lib pid nofPrb nofRe tbEn noRetx tb = .retx →
      (v.dlHarq pid).isEmpty tb = false := by
    intro v nofPrb nofRe tbEn noRetx hv
    unfold SchedUe.format2aTbAct at hv
    split_ifs at hv with hempty
    · simpa using hempty
    · cases hv
  cases format with
  | format0 => cases h
  | format1 =>
    simp only [SchedUe.acts, SchedUe.format1Act] at h
    split_ifs at h with htb hempty
    · cases h
    · rw [htb]
      simpa using hempty
  | format2 | format2a =>
    simp only [SchedUe.acts] at h
    split_ifs at h with htb
    · exact hact h
    · rw [← format2aFirst_isEmpty cfi htb]
      exact hact h

end Generators

/-! ## Rounds -/

/-- The test of `reset_timeout_dl_harq`. -/
def DlHarqProc.isOld (lib : Lib) (tti : Nat) (h : DlHarqProc) : Bool :=
  !(h.isEmpty 0 && h.isEmpty 1) && decide (lib.ttiInterval tti h.tti > 50)

/-- What `dl_sched` brings to the round of a user: the metric that visits it, and later the
scheduler and the slot of the results. -/
structure DlRound where
  m : DlMetric
  s : Sched
  slot : DlSchedData := {}

namespace DlRound

variable (lib : Lib) (r : DlRound) (u : SchedUe)

/-- The user after the metric. -/
def user : SchedUe := (DlMetric.visitUser lib r.m u.rnti u).2

def out : (Sched × Elems DlSchedData) × SchedUe :=
  Sched.dataUser lib (r.s, ⟨[], r.slot⟩) u.rnti (r.user lib u)

/-- The user after the round, and what was granted to it. -/
def next : SchedUe := (r.out lib u).2

def grants : List DlSchedData := (r.out lib u).1.2.done

/-- What `generate_dci` finds for the user. -/
def placed : Option DciLocation × Sched :=
  r.s.generateDci lib ((r.user lib u).getLocations r.s.currentCfi r.s.sfIdx)
    ((r.user lib u).getAggrLevel lib
      (lib.dciFormatSizeof .format1 r.s.cfg.cell.nofPrb r.s.cfg.cell.nofPorts))
    ((r.user lib u).pucchSrCollision lib r.s.currentTti)

def location : Option DciLocation := (r.placed lib u).1

/-- The slot as the generator finds it. -/
def slotAt (loc : DciLocation) : DlSchedData :=
  { r.slot with dciFormat := (r.user lib u).getDciFormat, dciLocation := loc }

def generated (pid : Pid) (loc : DciLocation) : SchedUe × DlSchedData × Int :=
  Sched.generateFormat lib (r.user lib u).getDciFormat (r.user lib u) pid (r.slotAt lib u loc)
    r.s.currentTti r.s.currentCfi

/-- The acts for the two blocks of the process that is granted. -/
def acts (pid : Pid) (loc : DciLocation) : Fin 2 → BlockAct :=
  (r.user lib u).acts lib pid r.s.currentTti r.s.currentCfi (r.user lib u).getDciFormat
    (r.slotAt lib u loc)

/-- The calls on process `i` before the timeouts. -/
def sendCalls (i : Pid) : List HarqEvent :=
  match (r.user lib u).dlNextAlloc, r.location lib u with
  | none, _ => []
  | some pid, none => if i = pid then [.reset 0, .reset 1] else []
  | some pid, some loc =>
    if i = pid then
      (r.acts lib u pid loc 0).calls 0 r.s.currentTti loc.ncce ++
        (r.acts lib u pid loc 1).calls 1 r.s.currentTti loc.ncce
    else []

/-- The calls of the round on process `i`. -/
def calls (i : Pid) : List HarqEvent :=
  r.sendCalls lib u i ++
    if (((r.sendCalls lib u i).foldl DlHarqProc.step ((r.user lib u).dlHarq i)).isOld lib
      r.s.currentTti) then [.reset 0, .reset 1] else []

variable {lib r u} {pid i : Pid} {loc : DciLocation}

theorem getDciFormat_ne (u : SchedUe) : u.getDciFormat ≠ .format0 := by
  unfold SchedUe.getDciFormat
  split_ifs
  · split <;> exact DciFormat.noConfusion
  · exact DciFormat.noConfusion

theorem placed_places (lib : Lib) (r : DlRound) (u : SchedUe) :
    Sched.Places r.s (r.placed lib u).2 :=
  Sched.generateDci_spec lib r.s _ _ _

theorem out_idle (h : (r.user lib u).dlNextAlloc = none) :
    r.next lib u = (r.user lib u).resetTimeoutDlHarq lib r.s.currentTti ∧ r.grants lib u = [] := by
  simp only [next, grants, out, Sched.dataUser, h]
  exact ⟨trivial, trivial⟩

theorem out_refused (h : (r.user lib u).dlNextAlloc = some pid) (hl : r.location lib u = none) :
    r.next lib u =
      ((r.user lib u).setDl pid ((r.user lib u).dlHarq pid).resetAll).resetTimeoutDlHarq
        lib r.s.currentTti ∧ r.grants lib u = [] := by
  obtain ⟨⟨l, s'⟩, hp⟩ : ∃ p, r.placed lib u = p := ⟨_, rfl⟩
  obtain ⟨t, n, hs', -⟩ := placed_places lib r u
  rw [hp] at hs'
  simp only at hs'
  subst hs'
  unfold location at hl
  rw [hp] at hl
  obtain rfl : l = none := hl
  unfold placed at hp
  simp only [next, grants, out, Sched.dataUser, h, hp]
  exact ⟨trivial, trivial⟩

theorem out_sent (h : (r.user lib u).dlNextAlloc = some pid) (hl : r.location lib u = some loc) :
    r.next lib u = (r.generated lib u pid loc).1.resetTimeoutDlHarq lib r.s.currentTti ∧
      r.grants lib u = if 0 < (r.generated lib u pid loc).2.2 then [(r.generated lib u pid loc).2.1]
        else [] := by
  obtain ⟨⟨l, s'⟩, hp⟩ : ∃ p, r.placed lib u = p := ⟨_, rfl⟩
  obtain ⟨t, n, hs', -⟩ := placed_places lib r u
  rw [hp] at hs'
  simp only at hs'
  subst hs'
  unfold location at hl
  rw [hp] at hl
  obtain rfl : l = some loc := hl
  unfold placed at hp
  obtain ⟨⟨u', d, tbs⟩, hg⟩ : ∃ g, r.generated lib u pid loc = g := ⟨_, rfl⟩
  rw [hg]
  unfold generated slotAt at hg
  simp only [next, grants, out, Sched.dataUser, h, hp, hg, gt_iff_lt]
  refine ⟨trivial, ?_⟩
  split_ifs <;> rfl

theorem generated_grantOf (lib : Lib) (r : DlRound) (u : SchedUe) (pid : Pid) (loc : DciLocation) :
    GrantOf (r.user lib u) pid r.s.currentTti
      ((r.user lib u).addsConRes (r.user lib u).getDciFormat) (r.acts lib u pid loc)
      (r.slotAt lib u loc) (r.generated lib u pid loc) :=
  generateFormat_grantOf lib _ pid _ _ _ (getDciFormat_ne _)

/-- The metric chooses and sets a mask, no more. -/
theorem user_spec (lib : Lib) (r : DlRound) (u : SchedUe) : ∃ (choice : Option Pid) (mask : Nat),
    r.user lib u =
      { u with
        dlNextAlloc := choice
        dlHarq := fun i =>
          if choice = some i then (u.dlHarq i).setRbgmask mask else u.dlHarq i } := by
  unfold user DlMetric.visitUser
  split
  · rename_i pid m' u' happly
    obtain ⟨mask, hout⟩ := DlMetric.applyUserAllocation_spec happly
    refine ⟨some pid, mask, ?_⟩
    rw [hout.user]
    simp only [SchedUe.setDl, SchedUe.mk.injEq, true_and, and_true]
    funext i
    rw [Function.update_apply]
    by_cases hi : i = pid
    · simp [hi]
    · simp [hi, Ne.symm hi]
  · exact ⟨none, 0, by simp⟩

theorem user_proc (i : Pid) :
    ((r.user lib u).dlHarq i).toHarqProc = (u.dlHarq i).toHarqProc := by
  obtain ⟨choice, mask, heq⟩ := user_spec lib r u
  rw [heq]
  simp only
  split_ifs <;> rfl

/-- The round leaves each process as its calls do. -/
theorem next_dlHarq (i : Pid) : (r.next lib u).dlHarq i =
    (r.calls lib u i).foldl DlHarqProc.step ((r.user lib u).dlHarq i) := by
  -- The timeouts come last, whatever was called before.
  have hlast : ∀ v : SchedUe, v.dlHarq i =
        (r.sendCalls lib u i).foldl DlHarqProc.step ((r.user lib u).dlHarq i) →
      (v.resetTimeoutDlHarq lib r.s.currentTti).dlHarq i =
        (r.calls lib u i).foldl DlHarqProc.step ((r.user lib u).dlHarq i) := by
    intro v hv
    unfold calls
    rw [List.foldl_append, ← hv]
    have hold : v.isOld lib r.s.currentTti i = (v.dlHarq i).isOld lib r.s.currentTti := rfl
    simp only [SchedUe.resetTimeoutDlHarq, hold]
    split_ifs <;> rfl
  cases hn : (r.user lib u).dlNextAlloc with
  | none =>
    rw [(out_idle hn).1]
    exact hlast _ (by simp [sendCalls, hn])
  | some pid =>
    cases hl : r.location lib u with
    | none =>
      rw [(out_refused hn hl).1]
      refine hlast _ ?_
      by_cases hi : i = pid
      · subst hi
        simp only [sendCalls, hn, hl, if_true, SchedUe.setDl_dlHarq]
        rfl
      · simp [sendCalls, hn, hl, hi, SchedUe.setDl]
    | some loc =>
      rw [(out_sent hn hl).1]
      refine hlast _ ?_
      rw [(generated_grantOf lib r u pid loc).dlHarq]
      by_cases hi : i = pid
      · subst hi
        simp only [sendCalls, hn, hl, if_true, Function.update_self]
        rfl
      · simp [sendCalls, hn, hl, hi]

end DlRound

/-! ## The whole call -/

namespace Sched

variable (lib : Lib) {s : Sched} {k : Nat} {u : SchedUe}

/-- What a round grants does not depend on what was granted before, and is for its user. -/
theorem dataUser_append (s : Sched) (out : Elems DlSchedData) (k : Nat) (u : SchedUe) :
    let r := dataUser lib (s, ⟨[], out.slot⟩) k u
    dataUser lib (s, out) k u = ((r.1.1, ⟨out.done ++ r.1.2.done, r.1.2.slot⟩), r.2) ∧
      ∀ d ∈ r.1.2.done, d.rnti = u.rnti := by
  simp only [dataUser]
  split
  · simp
  · rename_i pid hpid
    split
    · simp
    · rename_i loc s1 hs1
      have hgrant := generateFormat_grantOf lib u pid
        { out.slot with dciFormat := u.getDciFormat, dciLocation := loc } s1.currentTti
        s1.currentCfi (DlRound.getDciFormat_ne u)
      simp only
      split_ifs
      · refine ⟨by simp [Elems.push], fun d hd => ?_⟩
        obtain rfl : d = _ := by simpa [Elems.push] using hd
        exact hgrant.rnti
      · simp

theorem datas_other {ks : List Nat} (hks : k ∉ ks) {db : StdMap SchedUe} (hdb : Keyed db)
    (st : Sched × Elems DlSchedData) :
    ((db.visit (dataUser lib) ks st).1.2.done.filter fun d => d.rnti = k) =
      st.2.done.filter fun d => d.rnti = k := by
  have h := StdMap.visit_ind_mem (f := dataUser lib)
    (fun st' db' => Keyed db' ∧ (st'.2.done.filter fun d => d.rnti = k) =
      st.2.done.filter fun d => d.rnti = k) ks ?_ st db ⟨hdb, rfl⟩
  · exact h.2
  rintro ⟨s, out⟩ db' l v hl ⟨hkeyed, hout⟩ hv
  obtain ⟨heq, hrnti⟩ := dataUser_append lib s out l v
  have hne : l ≠ k := fun h => hks (h ▸ hl)
  refine ⟨hkeyed.insert ((dataUser_spec lib s out l v).2.1.1.trans (hkeyed l v hv)), ?_⟩
  have hnone : ((dataUser lib (s, ⟨[], out.slot⟩) l v).1.2.done.filter fun d => d.rnti = k) =
      [] := by
    rw [List.filter_eq_nil_iff]
    intro d hd
    simpa [hrnti d hd, hkeyed l v hv] using hne
  rw [heq]
  simp only [List.filter_append, hnone, List.append_nil]
  exact hout

theorem Keyed.metric {db : StdMap SchedUe} (h : Keyed db) (m : DlMetric) (ks : List Nat) :
    Keyed (db.visit (DlMetric.visitUser lib) ks m).2 :=
  h.visit (fun m k u => (visitUser_same lib m k u).1) ks m

/-- The part of `dl_sched` for one user is a round. -/
structure DlRoundOf (s : Sched) (tti : Nat) (paging : Option Nat) (k : Nat) (u : SchedUe)
    (r : DlRound) : Prop where
  cfg : r.s.cfg = s.cfg
  currentTti : r.s.currentTti = tti
  user : (s.dlSched lib tti paging).1.ueDb[k]? = some (r.next lib u)
  grants : ((s.dlSched lib tti paging).2.data.filter fun d => d.rnti = k) = r.grants lib u

/-- The loop over the users, seen from one of them: its own round, on what the rounds before it
left. -/
theorem datas_round {db : StdMap SchedUe} (hdb : Keyed db) (hu : db[k]? = some u) (s : Sched) :
    ∃ (s1 : Sched) (slot : DlSchedData), Places s s1 ∧
      (db.visit (dataUser lib) db.keys (s, ⟨[], default⟩)).2[k]? =
        some (dataUser lib (s1, ⟨[], slot⟩) k u).2 ∧
      ((db.visit (dataUser lib) db.keys (s, ⟨[], default⟩)).1.2.done.filter fun d => d.rnti = k) =
        (dataUser lib (s1, ⟨[], slot⟩) k u).1.2.done := by
  obtain ⟨st0, hst0⟩ : ∃ st0 : Sched × Elems DlSchedData, (s, ⟨[], default⟩) = st0 := ⟨_, rfl⟩
  obtain ⟨⟨⟨s2, out2⟩, db2⟩, hvisit⟩ : ∃ r, db.visit (dataUser lib) db.keys st0 = r := ⟨_, rfl⟩
  obtain ⟨⟨⟨s1, out1⟩, db1⟩, hbefore⟩ : ∃ r, db.visit (dataUser lib) (db.before k) st0 = r :=
    ⟨_, rfl⟩
  have hplaces := StdMap.visit_ind (f := dataUser lib) (fun st1 _ => Places st0.1 st1.1)
    (fun st1 db1 k u h _ => h.trans (dataUser_spec lib st1.1 st1.2 k u).1)
    (db.before k) st0 db ⟨_, _, rfl, .refl _⟩
  obtain ⟨post, hpost, -, hat⟩ := StdMap.visit_at (f := dataUser lib) st0 hu
  have hgot := StdMap.visit_get (f := dataUser lib) st0 hu
  have hother := datas_other lib (StdMap.notMem_before db k) hdb st0
  have hkeyed1 := hdb.visit (f := dataUser lib)
    (fun st k u => (dataUser_spec lib st.1 st.2 k u).2.1.1) (db.before k) st0
  rw [hvisit, hbefore] at hat hgot
  rw [hbefore] at hother hplaces hkeyed1
  obtain ⟨happend, hrnti⟩ := dataUser_append lib s1 out1 k u
  rw [← hst0] at hplaces hother
  refine ⟨s1, out1.slot, hplaces, ?_, ?_⟩
  · rw [hst0, hvisit, hgot, happend]
  · have hins : Keyed (db1.insert k (dataUser lib (s1, out1) k u).2) :=
      hkeyed1.insert ((dataUser_spec lib s1 out1 k u).2.1.1.trans (hdb k u hu))
    have hrest := datas_other lib hpost hins (dataUser lib (s1, out1) k u).1
    rw [← hat, happend] at hrest
    have hall : ((dataUser lib (s1, ⟨[], out1.slot⟩) k u).1.2.done.filter fun d => d.rnti = k) =
        (dataUser lib (s1, ⟨[], out1.slot⟩) k u).1.2.done := by
      rw [List.filter_eq_self]
      exact fun d hd => by simpa [hdb k u hu] using hrnti d hd
    rw [hst0, hvisit]
    simp only [List.filter_append, hother, List.filter_nil, List.nil_append, hall] at hrest ⊢
    exact hrest

theorem dlSchedData_round (s : Sched) (hdb : Keyed s.ueDb) (hu : s.ueDb[k]? = some u) :
    ∃ r : DlRound, r.s.cfg = s.cfg ∧ r.s.currentTti = s.currentTti ∧
      (s.dlSchedData lib).1.ueDb[k]? = some (r.next lib u) ∧
      ((s.dlSchedData lib).2.filter fun d => d.rnti = k) = r.grants lib u := by
  obtain ⟨st, hst⟩ : ∃ st, s.prachStart lib = { s with startRbg := st } := by
    unfold prachStart
    split_ifs <;> exact ⟨_, rfl⟩
  have hnewTti : ∀ m1, s.dlMetric.newTti lib s.ueDb st s.availRbg
      (if s.cfg.cell.nofPrb < 10 then s.currentCfi + 1 else s.currentCfi) s.currentTti = m1 →
      Keyed m1.2 ∧ ∃ m, m1.2[k]? = some (DlMetric.visitUser lib m k u).2 := by
    rintro m1 rfl
    unfold DlMetric.newTti
    refine ⟨hdb.metric lib _ _, ?_⟩
    obtain ⟨pre, hpre⟩ := StdMap.visit_get_mem (f := DlMetric.visitUser lib)
      (List.nodup_rotate.mpr (StdMap.nodup_keys s.ueDb))
      (List.mem_rotate.mpr (StdMap.mem_keys.mpr (by rw [hu]; rfl))) _ hu
    exact ⟨_, hpre⟩
  obtain ⟨⟨m1, db⟩, hm1⟩ : ∃ m1, s.dlMetric.newTti lib s.ueDb st s.availRbg
      (if s.cfg.cell.nofPrb < 10 then s.currentCfi + 1 else s.currentCfi) s.currentTti = m1 :=
    ⟨_, rfl⟩
  obtain ⟨hkeyed, m, hget⟩ := hnewTti _ hm1
  obtain ⟨s1, slot, ⟨t, n, rfl, -⟩, hnext, hgrants⟩ := datas_round lib hkeyed hget
    { s with startRbg := st, dlMetric := m1 }
  obtain ⟨⟨⟨s2, out2⟩, db2⟩, hvisit⟩ : ∃ r, db.visit (dataUser lib) db.keys
      ({ s with startRbg := st, dlMetric := m1 }, ⟨[], default⟩) = r := ⟨_, rfl⟩
  have heq : s.dlSchedData lib = ({ s2 with ueDb := db2 }, out2.done) := by
    simp only [dlSchedData, hst, hm1, hvisit]
  rw [hvisit] at hnext hgrants
  rw [heq]
  exact ⟨⟨m, { s with startRbg := st, dlMetric := m1, cce := t, nofRand := n }, slot⟩, rfl, rfl,
    hnext, hgrants⟩

theorem dlSched_round (s : Sched) (tti : Nat) (paging : Option Nat) (hs : s.configured = true)
    (hdb : Keyed s.ueDb) (hu : s.ueDb[k]? = some u) : ∃ r, DlRoundOf lib s tti paging k u r := by
  obtain ⟨new, hbc, -⟩ := dlSchedBc_emits lib (s.dlStart tti) paging
  obtain ⟨new', hrar, -⟩ := dlSchedRar_emits lib ((s.dlStart tti).dlSchedBc lib paging).1
  have hsetup := (hbc.trans hrar).setup
  obtain ⟨s1, hs1⟩ : ∃ s1, (((s.dlStart tti).dlSchedBc lib paging).1.dlSchedRar lib).1 = s1 :=
    ⟨_, rfl⟩
  rw [hs1] at hsetup
  obtain ⟨r, hcfg, htti, huser, hgrants⟩ := dlSchedData_round lib (k := k) (u := u) s1
    (by rw [hsetup.ueDb]; exact hdb) (by rw [hsetup.ueDb]; exact hu)
  refine ⟨r, hcfg.trans hsetup.cfg, htti.trans hsetup.currentTti, ?_, ?_⟩
  · simp only [dlSched, hs, Bool.not_true, Bool.false_eq_true, if_false, hs1]
    exact huser
  · simp only [dlSched, hs, Bool.not_true, Bool.false_eq_true, if_false, hs1]
    exact hgrants

end Sched

end Srsenb.Mac
