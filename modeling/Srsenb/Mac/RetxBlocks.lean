import Srsenb.Mac.NewData
import Srsenb.Mac.RbgMasks

/-! # A retransmission repeats its block

What a grant says of a retransmitted block, beside the grant that opened it: the MCS, the TBS, the
RBGs and the redundancy version. -/

open Srsenb.Run

namespace Srsenb.Mac

/-! ## The DCI of a grant -/

/-- The MCS, where `b` is what the process keeps of the block. -/
def BlockAct.mcs (b : Tb) : BlockAct → Int
  | idle => 0
  | retx => b.lastMcs
  | new mcs _ _ => mcs

/-- The fields of the DCI that a generator takes from its process. -/
structure DciOf (u : SchedUe) (pid : Pid) (acts : Fin 2 → BlockAct)
    (r : SchedUe × DlSchedData × Int) : Prop where
  alloc : r.2.1.dci.alloc = .type0 (u.dlHarq pid).rbgmask
  mcs : ∀ tb, r.2.1.dci.tbEn tb = true →
    r.2.1.dci.mcsIdx tb = toU32 ((acts tb).mcs ((u.dlHarq pid).tb tb))
  rv : ∀ tb, r.2.1.dci.tbEn tb = true →
    r.2.1.dci.rvIdx tb = getRvidx ((r.1.dlHarq pid).tb tb).nRtx

section Dci

variable {lib : Lib} {u : SchedUe} {pid : Pid} {tti cfi : Nat} {data : DlSchedData}

theorem format1Fill_dci {u' : SchedUe} {a : Fin 2 → BlockAct} {h : DlHarqProc} {mcs tbs : Int}
    (hdl : u'.dlHarq = (u.setDl pid h).dlHarq) (hmcs : mcs = (a 0).mcs ((u.dlHarq pid).tb 0)) :
    DciOf u pid a (u', format1Fill u pid data h mcs tbs, tbs) := by
  have hproc : u'.dlHarq pid = h := by rw [hdl, SchedUe.setDl_dlHarq]
  unfold format1Fill
  by_cases hpos : tbs > 0
  · simp only [hpos, if_true]
    constructor <;> simp [Fin.forall_fin_two, hmcs, hproc]
  · simp only [hpos, if_false]
    constructor <;> simp

theorem generateFormat1_dci (lib : Lib) (u : SchedUe) (pid : Pid) (data data' : DlSchedData)
    (tti cfi : Nat) :
    DciOf u pid (u.acts lib pid tti cfi .format1 data')
      (u.generateFormat1 lib pid data tti cfi) := by
  have hacts : u.acts lib pid tti cfi .format1 data' 0 = u.format1Act lib pid tti cfi := rfl
  cases hempty : (u.dlHarq pid).isEmpty 0 with
  | false =>
    obtain ⟨u', hdl, heq⟩ := generateFormat1_of_retx lib data tti cfi hempty
    rw [heq]
    refine format1Fill_dci hdl ?_
    simp [hacts, SchedUe.format1Act, hempty, BlockAct.mcs]
  | true =>
    obtain ⟨t, ht⟩ : ∃ t, u.format1Tbs lib (u.dlHarq pid) tti cfi = t := ⟨_, rfl⟩
    obtain ⟨u', hdl, heq⟩ := generateFormat1_of_new data hempty ht
    rw [heq]
    refine format1Fill_dci hdl ?_
    simp [hacts, SchedUe.format1Act, hempty, ht, SchedUe.newBlock, BlockAct.mcs]

/-- What the round for one block leaves of the DCI. -/
structure DciRound (pid : Pid) (tb : Fin 2) (b : Tb) (a : BlockAct) (u' : SchedUe)
    (d d' : DlSchedData) : Prop where
  alloc : d'.dci.alloc = d.dci.alloc
  mcs : d'.dci.tbEn tb = true → d'.dci.mcsIdx tb = toU32 (a.mcs b)
  rv : d'.dci.tbEn tb = true → d'.dci.rvIdx tb = getRvidx ((u'.dlHarq pid).tb tb).nRtx
  otherMcs : ∀ i ≠ tb, d'.dci.mcsIdx i = d.dci.mcsIdx i
  otherRv : ∀ i ≠ tb, d'.dci.rvIdx i = d.dci.rvIdx i

theorem format2aFill_dci {u' : SchedUe} {tb : Fin 2} {a : BlockAct} {b : Tb} {h : DlHarqProc}
    {sdus : List DlSchedPdu} {mcs tbs : Int} (hproc : u'.dlHarq pid = h) (hmcs : mcs = a.mcs b) :
    DciRound pid tb b a u' data (format2aFill data tb h sdus mcs tbs) := by
  unfold format2aFill
  by_cases hpos : tbs > 0
  · simp only [hpos, if_true]
    constructor <;> simp +contextual [hmcs, hproc, DlSchedData.addPdus]
  · simp only [hpos, if_false]
    constructor <;> simp [DlSchedData.addPdus]

theorem format2aTb_dci (lib : Lib) (u : SchedUe) (pid : Pid) (tti : Nat) (data : DlSchedData)
    (nofPrb nofRe : Nat) (tbEn noRetx : Bool) (tb : Fin 2) :
    DciRound pid tb ((u.dlHarq pid).tb tb) (u.format2aTbAct lib pid nofPrb nofRe tbEn noRetx tb)
      (SchedUe.format2aTb lib pid nofPrb nofRe tti tbEn noRetx tb u data).1 data
      (SchedUe.format2aTb lib pid nofPrb nofRe tti tbEn noRetx tb u data).2 := by
  unfold SchedUe.format2aTbAct
  cases hempty : (u.dlHarq pid).isEmpty tb with
  | false =>
    rw [format2aTb_retx hempty]
    exact format2aFill_dci (SchedUe.setDl_dlHarq _) rfl
  | true =>
    by_cases hnew : (tbEn && decide (u.getPendingDlNewData ≠ 0) && noRetx) = true
    · rw [format2aTb_new hempty hnew rfl]
      simp only [hnew, Bool.not_true, Bool.false_eq_true, if_false, if_true]
      exact format2aFill_dci (SchedUe.setDl_dlHarq _) rfl
    · rw [format2aTb_idle hempty hnew]
      simp only [hnew, Bool.not_true, Bool.false_eq_true, if_false]
      exact format2aFill_dci rfl rfl

theorem generateFormat2a_dci (lib : Lib) (u : SchedUe) (pid : Pid) (data : DlSchedData)
    (tti cfi : Nat) :
    DciOf u pid (u.acts lib pid tti cfi .format2a data)
      (u.generateFormat2a lib pid data tti cfi) := by
  obtain ⟨⟨v, d0⟩, hfirst⟩ : ∃ r, u.format2aFirst lib pid tti cfi data = r := ⟨_, rfl⟩
  have hacts0 : u.acts lib pid tti cfi .format2a data 0 = u.format2aTbAct lib pid
      (SchedUe.format1CountPrb lib (u.dlHarq pid).rbgmask u.cell.nofPrb)
      (u.maskNofRe lib pid tti cfi) (u.format2aTbEn (u.dlHarq pid) 0)
      (u.format2aNoRetx (u.dlHarq pid)) 0 := rfl
  have hacts1 : u.acts lib pid tti cfi .format2a data 1 = v.format2aTbAct lib pid
      (SchedUe.format1CountPrb lib (u.dlHarq pid).rbgmask u.cell.nofPrb)
      (u.maskNofRe lib pid tti cfi) (u.format2aTbEn (u.dlHarq pid) 1)
      (u.format2aNoRetx (u.dlHarq pid)) 1 := by
    rw [show v = (u.format2aFirst lib pid tti cfi data).1 by rw [hfirst]]
    rfl
  have h0 := format2aTb_dci lib u pid tti
    { data with dci := { alloc := .type0 (u.dlHarq pid).rbgmask } }
    (SchedUe.format1CountPrb lib (u.dlHarq pid).rbgmask u.cell.nofPrb)
    (u.maskNofRe lib pid tti cfi) (u.format2aTbEn (u.dlHarq pid) 0)
    (u.format2aNoRetx (u.dlHarq pid)) 0
  have hblock0 := format2aTb_block lib u pid tti
    { data with dci := { alloc := .type0 (u.dlHarq pid).rbgmask } }
    (SchedUe.format1CountPrb lib (u.dlHarq pid).rbgmask u.cell.nofPrb)
    (u.maskNofRe lib pid tti cfi) (u.format2aTbEn (u.dlHarq pid) 0)
    (u.format2aNoRetx (u.dlHarq pid)) 0
  have h1 := format2aTb_dci lib v pid tti d0
    (SchedUe.format1CountPrb lib (u.dlHarq pid).rbgmask u.cell.nofPrb)
    (u.maskNofRe lib pid tti cfi) (u.format2aTbEn (u.dlHarq pid) 1)
    (u.format2aNoRetx (u.dlHarq pid)) 1
  have hblock1 := format2aTb_block lib v pid tti d0
    (SchedUe.format1CountPrb lib (u.dlHarq pid).rbgmask u.cell.nofPrb)
    (u.maskNofRe lib pid tti cfi) (u.format2aTbEn (u.dlHarq pid) 1)
    (u.format2aNoRetx (u.dlHarq pid)) 1
  unfold SchedUe.format2aFirst at hfirst
  rw [hfirst, ← hacts0] at h0 hblock0
  obtain ⟨⟨w, d1⟩, hsecond⟩ : ∃ r, SchedUe.format2aTb lib pid
      (SchedUe.format1CountPrb lib (u.dlHarq pid).rbgmask u.cell.nofPrb)
      (u.maskNofRe lib pid tti cfi) tti (u.format2aTbEn (u.dlHarq pid) 1)
      (u.format2aNoRetx (u.dlHarq pid)) 1 v d0 = r := ⟨_, rfl⟩
  rw [hsecond, ← hacts1] at h1 hblock1
  unfold SchedUe.maskNofRe at hfirst hsecond
  simp only [SchedUe.generateFormat2a, hfirst, hsecond]
  -- The round of the other block leaves the record and the fields of a block as they are.
  have hrec1 : (v.dlHarq pid).tb 1 = (u.dlHarq pid).tb 1 := by
    rw [hblock0.dlHarq, Function.update_self]
    exact foldl_calls_tb_ne _ _ (by decide) _
  have hrec0 : (w.dlHarq pid).tb 0 = (v.dlHarq pid).tb 0 := by
    rw [hblock1.dlHarq, Function.update_self]
    exact foldl_calls_tb_ne _ _ (by decide) _
  have hen0 := hblock1.otherEn 0 (by decide)
  refine ⟨h1.alloc.trans h0.alloc, ?_, ?_⟩
  · rw [Fin.forall_fin_two]
    refine ⟨fun hen => ?_, fun hen => ?_⟩
    · exact (h1.otherMcs 0 (by decide)).trans (h0.mcs (hen0 ▸ hen))
    · rw [← hrec1]
      exact h1.mcs hen
  · rw [Fin.forall_fin_two]
    refine ⟨fun hen => ?_, h1.rv⟩
    exact (h1.otherRv 0 (by decide)).trans ((h0.rv (hen0 ▸ hen)).trans (by rw [hrec0]))

/-- Whichever format a user has, the DCI comes of its process and of the acts of the format. -/
theorem generateFormat_dci (lib : Lib) (u : SchedUe) (pid : Pid) (data : DlSchedData)
    (tti cfi : Nat) {format : DciFormat} (hf : format ≠ .format0) :
    DciOf u pid (u.acts lib pid tti cfi format data)
      (Sched.generateFormat lib format u pid data tti cfi) := by
  cases format with
  | format0 => exact absurd rfl hf
  | format1 => exact generateFormat1_dci lib u pid data data tti cfi
  | format2 =>
    have h := generateFormat2a_dci lib u pid data tti cfi
    exact ⟨h.alloc, h.mcs, h.rv⟩
  | format2a => exact generateFormat2a_dci lib u pid data tti cfi

end Dci

/-! ## RBGs and PRBs -/

namespace DlMetric

/-- The number of RBGs of a cell. -/
def cellRbgs (lib : Lib) (cellNofPrb : Nat) : Nat :=
  (cellNofPrb + lib.type0P cellNofPrb - 1) / lib.type0P cellNofPrb

/-- No bit of the mask is past the RBGs. -/
def Below (nb mask : Nat) : Prop := ∀ b, mask.testBit b = true → b < nb

/-- Groups of `P` each. -/
theorem countP_groups (P : Nat) (f : Nat → Bool) : ∀ m,
    (List.range (m * P)).countP (fun k => f (k / P)) = P * (List.range m).countP f
  | 0 => by simp
  | m + 1 => by
    have hgroup : ((fun k => f (k / P)) ∘ (m * P + ·)) = fun j => f ((m * P + j) / P) := rfl
    rw [Nat.succ_mul, List.range_add, List.countP_append, List.countP_map, countP_groups P f m,
      hgroup, List.range_succ, List.countP_append, List.countP_singleton, Nat.mul_add]
    congr 1
    have hsame : (List.range P).countP (fun j => f ((m * P + j) / P)) =
        (List.range P).countP fun _ => f m := by
      refine List.countP_congr fun j hj => ?_
      have hlt := List.mem_range.mp hj
      rw [Nat.add_comm, Nat.add_mul_div_right _ _ (Nat.zero_lt_of_lt hlt),
        Nat.div_eq_of_lt hlt, Nat.zero_add]
    rw [hsame]
    cases f m <;> simp

/-- The last RBG of a mask, which is bit 0, may be a partial one. -/
theorem countPrb_last (lib : Lib) {cellNofPrb : Nat} (mask : Nat)
    (hP : 0 < lib.type0P cellNofPrb) (hcell : 0 < cellNofPrb) :
    SchedUe.format1CountPrb lib mask cellNofPrb + (if mask.testBit 0 then
        cellRbgs lib cellNofPrb * lib.type0P cellNofPrb - cellNofPrb else 0) =
      lib.type0P cellNofPrb * Masks.setBits (cellRbgs lib cellNofPrb) mask := by
  rw [format1CountPrb_eq lib mask hP]
  unfold cellRbgs Masks.setBits
  obtain ⟨P, hPdef⟩ : ∃ P, lib.type0P cellNofPrb = P := ⟨_, rfl⟩
  obtain ⟨nb, hnb⟩ : ∃ nb, (cellNofPrb + P - 1) / P = nb := ⟨_, rfl⟩
  rw [hPdef] at hP ⊢
  rw [hnb]
  have hlt := Nat.lt_mul_div_succ (cellNofPrb + P - 1) hP
  have hge := Nat.div_mul_le_self (cellNofPrb + P - 1) P
  rw [hnb] at hge
  rw [hnb, Nat.mul_succ, Nat.mul_comm] at hlt
  have hpos : 0 < nb := by
    rcases Nat.eq_zero_or_pos nb with rfl | h
    · omega
    · exact h
  rw [← Masks.countP_reflect nb, ← countP_groups P (fun i => mask.testBit (nb - 1 - i)) nb]
  obtain ⟨d, hd⟩ := Nat.exists_eq_add_of_le (show cellNofPrb ≤ nb * P by omega)
  rw [hd, List.range_add, List.countP_append, List.countP_map, Nat.add_sub_cancel_left]
  congr 1
  have hsame : (List.range d).countP ((fun k => mask.testBit (nb - 1 - k / P)) ∘ (cellNofPrb + ·)) =
      (List.range d).countP fun _ => mask.testBit 0 := by
    refine List.countP_congr fun j hj => ?_
    have hj' := List.mem_range.mp hj
    have hdiv : (cellNofPrb + j) / P = nb - 1 := by
      refine Nat.div_eq_of_lt_le ?_ ?_
      · have hmul : (nb - 1) * P + P = nb * P := by
          rw [← Nat.succ_mul, Nat.succ_eq_add_one, Nat.sub_add_cancel hpos]
        omega
      · rw [Nat.sub_add_cancel hpos]
        omega
    simp [hdiv]
  rw [hsame]
  cases mask.testBit 0 <;> simp

/-- The RBGs are whole where their size divides the cell. -/
theorem whole_iff (lib : Lib) {cellNofPrb : Nat} (hP : 0 < lib.type0P cellNofPrb) :
    cellRbgs lib cellNofPrb * lib.type0P cellNofPrb - cellNofPrb = 0 ↔
      lib.type0P cellNofPrb ∣ cellNofPrb := by
  unfold cellRbgs
  obtain ⟨P, hPdef⟩ : ∃ P, lib.type0P cellNofPrb = P := ⟨_, rfl⟩
  rw [hPdef] at hP ⊢
  constructor
  · intro h0
    have hlt := Nat.lt_mul_div_succ (cellNofPrb + P - 1) hP
    rw [Nat.mul_succ, Nat.mul_comm] at hlt
    exact ⟨(cellNofPrb + P - 1) / P, by rw [Nat.mul_comm]; omega⟩
  · rintro ⟨k, rfl⟩
    have hdiv : (P * k + P - 1) / P = k := by
      refine Nat.div_eq_of_lt_le ?_ ?_
      · rw [Nat.mul_comm]
        omega
      · rw [Nat.succ_mul, Nat.mul_comm]
        omega
    rw [hdiv, Nat.mul_comm, Nat.sub_self]

/-- Two masks with as many RBGs have as many PRBs if they agree on the last RBG, or it is whole. -/
theorem countPrb_eq_iff (lib : Lib) {cellNofPrb a b : Nat} (hP : 0 < lib.type0P cellNofPrb)
    (hcell : 0 < cellNofPrb) (h : Masks.setBits (cellRbgs lib cellNofPrb) a =
      Masks.setBits (cellRbgs lib cellNofPrb) b) :
    SchedUe.format1CountPrb lib a cellNofPrb = SchedUe.format1CountPrb lib b cellNofPrb ↔
      a.testBit 0 = b.testBit 0 ∨ lib.type0P cellNofPrb ∣ cellNofPrb := by
  have ha := countPrb_last lib a hP hcell
  have hb := countPrb_last lib b hP hcell
  rw [h] at ha
  rw [← whole_iff lib hP]
  generalize cellRbgs lib cellNofPrb * lib.type0P cellNofPrb - cellNofPrb = gap at ha hb ⊢
  generalize a.testBit 0 = x at ha hb ⊢
  generalize b.testBit 0 = y at ha hb ⊢
  cases x <;> cases y <;> simp only [if_true, Bool.false_eq_true, if_false, Bool.true_eq_false,
    true_or, false_or, iff_true] at ha hb ⊢ <;> omega

/-- A new mask of the size of another counts as many RBGs, none past the last. -/
theorem newAllocation_below (m : DlMetric) (k : Nat) : Below m.totalRbg (m.newAllocation k).2 :=
  fun _ hb => (newAllocation_bit hb).1

theorem Below.setBits {nb mask : Nat} (h : Below nb mask) (hnb : nb ≤ 32) :
    Masks.setBits nb mask = countRbg mask := by
  have henc : Masks.Encodes nb mask fun i => mask.testBit (nb - 1 - i) := by
    intro b
    have hidx : b < nb → nb - 1 - (nb - 1 - b) = b := by omega
    constructor
    · intro hb
      exact ⟨h b hb, by simpa only [hidx (h b hb)] using hb⟩
    · rintro ⟨hlt, hb⟩
      simpa only [hidx hlt] using hb
  unfold countRbg
  rw [countRbgFrom_eq, Nat.zero_add, henc.setBits hnb, henc.setBits le_rfl]

end DlMetric

/-! ## One process -/

/-- The call that opened a block, the mask it had then, and the retransmissions since. -/
structure OpenedBlock where
  mcs : Int
  tbs : Int
  mask : Nat
  retx : Nat := 0

namespace OpenedBlock

/-- The blocks of a process after a call, while its mask is `mask`. -/
def record (mask : Nat) (o : Fin 2 → Option OpenedBlock) :
    HarqEvent → Fin 2 → Option OpenedBlock
  | .newTx tb _ mcs tbs _ => Function.update o tb (some { mcs := mcs, tbs := tbs, mask := mask })
  | .newRetx tb _ => Function.update o tb ((o tb).map fun x => { x with retx := x.retx + 1 })
  | _ => o

/-- What the process keeps of the block is what it was opened with. -/
structure Of (nb : Nat) (x : OpenedBlock) (b : Tb) (mask : Nat) : Prop where
  mcs : b.lastMcs = x.mcs
  tbs : b.lastTbs = x.tbs
  nRtx : b.nRtx = u32 x.retx
  rbgs : DlMetric.countRbg mask = DlMetric.countRbg x.mask
  below : DlMetric.Below nb x.mask

/-- Each block in use is known. -/
def Tracks (nb : Nat) (h : DlHarqProc) (o : Fin 2 → Option OpenedBlock) : Prop :=
  ∀ tb, h.isEmpty tb = false → ∃ x, o tb = some x ∧ x.Of nb (h.tb tb) h.rbgmask

/-- What a call finds: a retransmitted block is in use, and an acknowledged one stays so. -/
def Finds (h : DlHarqProc) : HarqEvent → Prop
  | .newRetx tb _ => h.isEmpty tb = false
  | .setAck tb ack => (h.tb tb).ack = true → (h.tb tb).ackReceived = true → ack = true
  | _ => True

variable {nb mask : Nat} {h : DlHarqProc} {o : Fin 2 → Option OpenedBlock} {e : HarqEvent}

theorem step_rbgmask (h : DlHarqProc) (e : HarqEvent) :
    (DlHarqProc.step h e).rbgmask = h.rbgmask := by
  cases e <;> rfl

theorem isEmpty_congr {h h' : DlHarqProc} {tb : Fin 2} (heq : h'.tb tb = h.tb tb) :
    h'.isEmpty tb = h.isEmpty tb := by
  unfold HarqProc.isEmpty
  rw [heq]

theorem record_ne {tb : Fin 2} (hne : tb ≠ e.tb) : record mask o e tb = o tb := by
  cases e with
  | newTx i | newRetx i => exact Function.update_of_ne hne _ _
  | setAck i ack | reset i => rfl

theorem u32_succ (n : Nat) : u32 (u32 n + 1) = u32 (n + 1) := by
  unfold u32
  rw [Nat.mod_add_mod]

theorem tracks_step (hb : DlMetric.Below nb h.rbgmask) (ht : Tracks nb h o) (hf : Finds h e) :
    Tracks nb (DlHarqProc.step h e) (record h.rbgmask o e) := by
  intro tb hempty
  rw [step_rbgmask]
  by_cases htb : tb = e.tb
  · subst htb
    cases e with
    | newTx tb tti mcs tbs nCce =>
      refine ⟨_, Function.update_self .., ?_⟩
      constructor <;> simp [DlHarqProc.step, DlHarqProc.newTx, HarqProc.newTxCommon, hb,
        HarqProc.reset, HarqEvent.tb, u32]
    | newRetx tb tti =>
      obtain ⟨x, hx, hof⟩ := ht tb hf
      refine ⟨{ x with retx := x.retx + 1 }, ?_, ?_⟩
      · simp [record, HarqEvent.tb, hx]
      · refine ⟨?_, ?_, ?_, hof.rbgs, hof.below⟩
        · simpa [DlHarqProc.step, DlHarqProc.newRetx, HarqProc.newRetx, HarqEvent.tb] using hof.mcs
        · simpa [DlHarqProc.step, DlHarqProc.newRetx, HarqProc.newRetx, HarqEvent.tb] using hof.tbs
        · simp [DlHarqProc.step, DlHarqProc.newRetx, HarqProc.newRetx, HarqEvent.tb, hof.nRtx,
            u32_succ]
    | setAck tb ack =>
      have hrec : ((DlHarqProc.step h (.setAck tb ack)).tb tb) =
          { h.tb tb with
            ack := ack, ackReceived := true
            active := if u32 ((h.tb tb).nRtx + 1) ≥ h.maxRetx then false
              else (h.tb tb).active } := by
        simp [DlHarqProc.step, DlHarqProc.setAck, HarqProc.setAck]
      have hbefore : h.isEmpty tb = false := by
        rw [DlHarqProc.isEmpty_eq_false_iff] at hempty ⊢
        simp only [HarqEvent.tb, hrec] at hempty
        split_ifs at hempty
        · cases hempty.1
        · refine ⟨hempty.1, fun hack => ?_⟩
          by_contra hrecv
          have := hempty.2 (hf hack (by simpa using hrecv))
          cases this
      obtain ⟨x, hx, hof⟩ := ht tb hbefore
      refine ⟨x, hx, ?_⟩
      simp only [HarqEvent.tb, hrec]
      exact ⟨hof.mcs, hof.tbs, hof.nRtx, hof.rbgs, hof.below⟩
    | reset tb =>
      rw [DlHarqProc.isEmpty_eq_false_iff] at hempty
      simp [DlHarqProc.step, DlHarqProc.reset, HarqProc.reset, HarqEvent.tb] at hempty
  · rw [isEmpty_congr (DlHarqProc.step_tb_ne e htb)] at hempty
    rw [record_ne htb, DlHarqProc.step_tb_ne e htb]
    exact ht tb hempty

theorem foldl_rbgmask (es : List HarqEvent) :
    ∀ h : DlHarqProc, (es.foldl DlHarqProc.step h).rbgmask = h.rbgmask := by
  induction es with
  | nil => exact fun _ => rfl
  | cons e es ih => exact fun h => (ih _).trans (step_rbgmask h e)

theorem tracks_calls {es : List HarqEvent} (hb : DlMetric.Below nb h.rbgmask)
    (ht : Tracks nb h o) (hf : AllSteps DlHarqProc.step Finds h es) :
    Tracks nb (es.foldl DlHarqProc.step h) (es.foldl (record h.rbgmask) o) := by
  induction es generalizing h o with
  | nil => exact ht
  | cons e es ih =>
    have hnext := ih (h := DlHarqProc.step h e) (o := record h.rbgmask o e)
      (by rwa [step_rbgmask]) (tracks_step hb ht hf.1) hf.2
    rw [step_rbgmask] at hnext
    exact hnext

end OpenedBlock

/-! ## The metric -/

open OpenedBlock in
/-- The metric gives another mask to a process of a retransmission, of the same size, or to an
empty one. -/
theorem user_mask (lib : Lib) (r : DlRound) (u : SchedUe) (i : Pid) :
    ((r.user lib u).dlHarq i).rbgmask = (u.dlHarq i).rbgmask ∨
      ∃ k, ((r.user lib u).dlHarq i).rbgmask = (r.m.newAllocation k).2 ∧
        ((r.m.newAllocation k).1 = true ∧ k = DlMetric.countRbg (u.dlHarq i).rbgmask ∨
          ∀ tb, (u.dlHarq i).isEmpty tb = true) := by
  unfold DlRound.user DlMetric.visitUser
  split
  · rename_i pid m' u' happly
    by_cases hi : i = pid
    · subst hi
      simp only [DlMetric.applyUserAllocation] at happly
      split at happly
      · rename_i x hretx
        obtain rfl := Option.some.inj happly
        simp only [DlMetric.retxAllocation] at hretx
        split at hretx
        · cases hretx
        · split_ifs at hretx with hvalid hroom hfits <;>
            simp only [Option.some.injEq, Prod.mk.injEq] at hretx <;>
            obtain ⟨rfl, rfl, rfl⟩ := hretx
          · exact Or.inl rfl
          · exact Or.inr ⟨_, by simp, Or.inl ⟨hfits, rfl⟩⟩
      · simp only [DlMetric.newtxAllocation] at happly
        split at happly
        · cases happly
        · rename_i j hempty
          split_ifs at happly
          simp only [Option.some.injEq, Prod.mk.injEq] at happly
          obtain ⟨rfl, rfl, rfl⟩ := happly
          refine Or.inr ⟨_, congrArg DlHarqProc.rbgmask (SchedUe.setDl_dlHarq _), Or.inr ?_⟩
          have hboth := List.find?_some hempty
          rw [Bool.and_eq_true] at hboth
          rw [Fin.forall_fin_two]
          exact hboth
    · obtain ⟨mask, hout⟩ := DlMetric.applyUserAllocation_spec happly
      left
      simp [hout.user, SchedUe.setDl, hi]
  · exact Or.inl rfl

/-! ## Runs -/

/-- A user, and how the blocks of its processes were opened. -/
structure RetxRun where
  ue : SchedUe
  opened : Pid → Fin 2 → Option OpenedBlock := fun _ _ => none

inductive RetxEvent
  | dlSched (r : DlRound)
  | ack (tti : Nat) (tb : Fin 2) (ack : Bool)
  | setCfg (rnti : Nat) (cfg : UeCfg) (bearers : List Direction) (cell : Cell)
    (locations : Nat → Nat → DciCce)
  /-- The user becomes `ue`, apart from its downlink processes. -/
  | other (ue : SchedUe)

namespace RetxRun

variable (lib : Lib)

def step (st : RetxRun) : RetxEvent → RetxRun
  | .dlSched r =>
    { ue := r.next lib st.ue
      opened := fun i => (r.calls lib st.ue i).foldl
        (OpenedBlock.record ((r.user lib st.ue).dlHarq i).rbgmask) (st.opened i) }
  | .ack tti tb ack => { st with ue := (st.ue.setAckInfo tti tb ack).2 }
  | .setCfg rnti cfg bearers cell locations =>
    { st with ue := st.ue.setCfg lib rnti cfg bearers cell locations }
  | .other ue => { st with ue := { ue with dlHarq := st.ue.dlHarq } }

/-- The grant of a retransmission says of its block what the first one said; the PRBs are as many
as then if both masks have the last RBG or none has, or if the RBGs are whole. -/
structure Repeats (cellNofPrb : Nat) (x : OpenedBlock) (d : DlSchedData) (tb : Fin 2) : Prop where
  mcs : d.dci.mcsIdx tb = toU32 x.mcs
  tbs : d.tbs tb = x.tbs.toNat
  rv : d.dci.rvIdx tb = getRvidx (x.retx + 1)
  rbgs : ∃ mask, d.dci.alloc = .type0 mask ∧
    DlMetric.countRbg mask = DlMetric.countRbg x.mask ∧
    (SchedUe.format1CountPrb lib mask cellNofPrb = SchedUe.format1CountPrb lib x.mask cellNofPrb ↔
      mask.testBit 0 = x.mask.testBit 0 ∨ lib.type0P cellNofPrb ∣ cellNofPrb)

/-- Each block that a round retransmits was opened before, and is repeated. -/
def AllRepeat (cellNofPrb : Nat) (st : RetxRun) : RetxEvent → Prop
  | .dlSched r => ∀ d ∈ r.grants lib st.ue, ∀ i tb tti,
      HarqEvent.newRetx tb tti ∈ r.calls lib st.ue i → d.dci.tbEn tb = true →
        ∃ x, st.opened i tb = some x ∧ Repeats lib cellNofPrb x d tb
  | _ => True

/-- The metric has the RBGs of the cell, and no block is rejected after it was acknowledged. -/
def Allowed (cellNofPrb : Nat) (st : RetxRun) : RetxEvent → Prop
  | .dlSched r => r.m.totalRbg ≤ DlMetric.cellRbgs lib cellNofPrb
  | .ack tti tb ack => ∀ i, st.ue.findAck tti = some i →
      OpenedBlock.Finds (st.ue.dlHarq i) (.setAck tb ack)
  | _ => True

structure Inv (cellNofPrb : Nat) (st : RetxRun) : Prop where
  below : ∀ i, DlMetric.Below (DlMetric.cellRbgs lib cellNofPrb) (st.ue.dlHarq i).rbgmask
  tracks : ∀ i, OpenedBlock.Tracks (DlMetric.cellRbgs lib cellNofPrb) (st.ue.dlHarq i)
    (st.opened i)

variable {lib} {cellNofPrb : Nat} {st : RetxRun} {r : DlRound} {pid : Pid} {loc : DciLocation}

/-- After the metric the masks are still inside the cell, and of the size that each block had. -/
theorem tracks_user (hI : Inv lib cellNofPrb st) (hcell : DlMetric.cellRbgs lib cellNofPrb ≤ 25)
    (hr : r.m.totalRbg ≤ DlMetric.cellRbgs lib cellNofPrb) (i : Pid) :
    DlMetric.Below (DlMetric.cellRbgs lib cellNofPrb) ((r.user lib st.ue).dlHarq i).rbgmask ∧
      OpenedBlock.Tracks (DlMetric.cellRbgs lib cellNofPrb) ((r.user lib st.ue).dlHarq i)
        (st.opened i) := by
  have hproc : ((r.user lib st.ue).dlHarq i).toHarqProc = (st.ue.dlHarq i).toHarqProc :=
    DlRound.user_proc i
  have hkeep : ((∃ tb, (st.ue.dlHarq i).isEmpty tb = false) →
      DlMetric.countRbg ((r.user lib st.ue).dlHarq i).rbgmask =
        DlMetric.countRbg (st.ue.dlHarq i).rbgmask) →
      OpenedBlock.Tracks (DlMetric.cellRbgs lib cellNofPrb) ((r.user lib st.ue).dlHarq i)
        (st.opened i) := by
    intro hsize tb hempty
    rw [hproc] at hempty ⊢
    obtain ⟨x, hx, hof⟩ := hI.tracks i tb hempty
    exact ⟨x, hx, hof.mcs, hof.tbs, hof.nRtx, (hsize ⟨tb, hempty⟩).trans hof.rbgs, hof.below⟩
  rcases user_mask lib r st.ue i with hsame | ⟨k, hmask, hwhy⟩
  · exact ⟨hsame ▸ hI.below i, hkeep fun _ => by rw [hsame]⟩
  · refine ⟨fun b hb => ?_, hkeep ?_⟩
    · rw [hmask] at hb
      exact (DlMetric.newAllocation_below r.m k b hb).trans_le hr
    · rintro ⟨tb, hempty⟩
      rcases hwhy with ⟨hfits, rfl⟩ | hall
      · rw [hmask, DlMetric.countRbg_newAllocation _ _ (hr.trans hcell)]
        exact min_eq_left ((DlMetric.newAllocation_fits _ _).mp hfits)
      · rw [hall tb] at hempty
        cases hempty

/-- The calls for one block. -/
theorem finds_calls {h : DlHarqProc} {tb : Fin 2} {a : BlockAct} {tti nCce : Nat}
    (hretx : a = .retx → h.isEmpty tb = false) :
    AllSteps DlHarqProc.step OpenedBlock.Finds h (a.calls tb tti nCce) := by
  cases a with
  | idle => exact trivial
  | retx => exact ⟨hretx rfl, trivial⟩
  | new mcs tbs sdus => exact ⟨trivial, trivial⟩

theorem finds_resets {h : DlHarqProc} {p : Prop} [Decidable p] :
    AllSteps DlHarqProc.step OpenedBlock.Finds h (if p then [.reset 0, .reset 1] else []) := by
  split_ifs
  · exact ⟨trivial, trivial, trivial⟩
  · exact trivial

theorem finds_round (lib : Lib) (r : DlRound) (u : SchedUe) (i : Pid) :
    AllSteps DlHarqProc.step OpenedBlock.Finds ((r.user lib u).dlHarq i) (r.calls lib u i) := by
  rw [DlRound.calls, allSteps_append]
  refine ⟨?_, finds_resets⟩
  unfold DlRound.sendCalls
  split
  · exact trivial
  · exact finds_resets
  · rename_i pid loc hn hl
    split_ifs with hi
    · subst hi
      rw [allSteps_append]
      refine ⟨finds_calls acts_retx, finds_calls fun hact => ?_⟩
      refine (OpenedBlock.isEmpty_congr ?_).trans (acts_retx hact)
      exact foldl_calls_tb_ne _ _ (by decide : (1 : Fin 2) ≠ 0) loc.ncce
    · exact trivial

theorem setAckInfo_dlHarq (u : SchedUe) (tti : Nat) (tb : Fin 2) (ack : Bool) (i : Pid) :
    (u.setAckInfo tti tb ack).2.dlHarq i = if u.findAck tti = some i then
      DlHarqProc.step (u.dlHarq i) (.setAck tb ack) else u.dlHarq i := by
  unfold SchedUe.setAckInfo
  cases u.findAck tti with
  | none => rfl
  | some j =>
    by_cases hi : j = i
    · subst hi
      rw [if_pos rfl]
      exact SchedUe.setDl_dlHarq _
    · rw [if_neg fun h => hi (Option.some.inj h)]
      simp [SchedUe.setDl, Ne.symm hi]

theorem inv_step (hcell : DlMetric.cellRbgs lib cellNofPrb ≤ 25) (hI : Inv lib cellNofPrb st)
    (e : RetxEvent) (hC : Allowed lib cellNofPrb st e) : Inv lib cellNofPrb (step lib st e) := by
  cases e with
  | dlSched r =>
    refine ⟨fun i => ?_, fun i => ?_⟩
    · simp only [step, DlRound.next_dlHarq, OpenedBlock.foldl_rbgmask]
      exact (tracks_user hI hcell hC i).1
    · simp only [step, DlRound.next_dlHarq]
      obtain ⟨hb, ht⟩ := tracks_user hI hcell hC i
      exact OpenedBlock.tracks_calls hb ht (finds_round lib r st.ue i)
  | ack tti tb ack =>
    refine ⟨fun i => ?_, fun i => ?_⟩
    all_goals simp only [step, setAckInfo_dlHarq]
    · split_ifs
      · exact OpenedBlock.step_rbgmask (st.ue.dlHarq i) (.setAck tb ack) ▸ hI.below i
      · exact hI.below i
    · split_ifs with hi
      · exact OpenedBlock.tracks_step (hI.below i) (hI.tracks i) (hC i hi)
      · exact hI.tracks i
  | setCfg rnti cfg bearers cell locations =>
    refine ⟨hI.below, fun i tb hempty => ?_⟩
    rw [DlHarqProc.isEmpty_eq_false_iff] at hempty
    rcases (show tb = 0 ∨ tb = 1 by omega) with rfl | rfl <;>
      simp [step, SchedUe.setCfg, SchedUe.reset, HarqProc.config, DlHarqProc.resetAll,
        DlHarqProc.reset, HarqProc.reset, HarqProc.setTb] at hempty
  | other ue => exact ⟨hI.below, hI.tracks⟩

theorem newRetx_mem_calls {a : BlockAct} {b tb : Fin 2} {tti tti' nCce : Nat}
    (h : HarqEvent.newRetx tb tti ∈ a.calls b tti' nCce) : tb = b ∧ a = .retx := by
  cases a with
  | idle => cases h
  | retx =>
    rw [BlockAct.calls, List.mem_singleton] at h
    exact ⟨(HarqEvent.newRetx.inj h).1, rfl⟩
  | new mcs tbs sdus => cases List.mem_singleton.mp h

theorem newRetx_mem_resets {p : Prop} [Decidable p] {tb : Fin 2} {tti : Nat} :
    HarqEvent.newRetx tb tti ∉ (if p then [HarqEvent.reset 0, .reset 1] else []) := by
  split_ifs <;> simp

/-- A block is retransmitted by the grant of a round, on the process that it is for. -/
theorem retx_of_mem {d : DlSchedData} {i : Pid} {tb : Fin 2} {tti : Nat}
    (hd : d ∈ r.grants lib st.ue) (hmem : HarqEvent.newRetx tb tti ∈ r.calls lib st.ue i) :
    ∃ loc, (r.user lib st.ue).dlNextAlloc = some i ∧ r.location lib st.ue = some loc ∧
      d = (r.generated lib st.ue i loc).2.1 ∧ r.acts lib st.ue i loc tb = .retx := by
  rw [DlRound.calls, List.mem_append] at hmem
  have hsend := hmem.resolve_right newRetx_mem_resets
  unfold DlRound.sendCalls at hsend
  split at hsend
  · cases hsend
  · exact absurd hsend newRetx_mem_resets
  · rename_i pid loc hn hl
    split_ifs at hsend with hi
    · subst hi
      rw [(DlRound.out_sent hn hl).2] at hd
      split_ifs at hd
      · refine ⟨loc, hn, hl, List.mem_singleton.mp hd, ?_⟩
        rcases List.mem_append.mp hsend with h | h
        · obtain ⟨rfl, hact⟩ := newRetx_mem_calls h
          exact hact
        · obtain ⟨rfl, hact⟩ := newRetx_mem_calls h
          exact hact
      · cases hd
    · cases hsend

/-- The counter of a block after the calls for both. -/
theorem nRtx_retx {h : DlHarqProc} {acts : Fin 2 → BlockAct} {tti nCce : Nat} {tb : Fin 2}
    (hact : acts tb = .retx) :
    ((((acts 0).calls 0 tti nCce ++ (acts 1).calls 1 tti nCce).foldl DlHarqProc.step h).tb
      tb).nRtx = u32 ((h.tb tb).nRtx + 1) := by
  have hown : ∀ g : DlHarqProc, g.tb tb = h.tb tb →
      ((((acts tb).calls tb tti nCce).foldl DlHarqProc.step g).tb tb).nRtx =
        u32 ((h.tb tb).nRtx + 1) := by
    intro g hg
    simp [hact, BlockAct.calls, DlHarqProc.step, DlHarqProc.newRetx, HarqProc.newRetx, hg]
  rw [List.foldl_append]
  rcases (show tb = 0 ∨ tb = 1 by omega) with rfl | rfl
  · rw [foldl_calls_tb_ne _ _ (by decide : (0 : Fin 2) ≠ 1) _]
    exact hown h rfl
  · exact hown _ (foldl_calls_tb_ne h _ (by decide) nCce)

theorem allRepeat_step (hcell : DlMetric.cellRbgs lib cellNofPrb ≤ 25)
    (hP : 0 < lib.type0P cellNofPrb) (hpos : 0 < cellNofPrb) (hI : Inv lib cellNofPrb st)
    (e : RetxEvent) (hC : Allowed lib cellNofPrb st e) : AllRepeat lib cellNofPrb st e := by
  cases e with
  | dlSched r =>
    intro d hd i tb tti hmem hen
    obtain ⟨loc, hn, hl, rfl, hact⟩ := retx_of_mem hd hmem
    obtain ⟨hb, ht⟩ := tracks_user hI hcell hC i
    obtain ⟨x, hx, hof⟩ := ht tb (acts_retx hact)
    have hgrant := DlRound.generated_grantOf lib r st.ue i loc
    have hdci : DciOf (r.user lib st.ue) i (r.acts lib st.ue i loc)
        (r.generated lib st.ue i loc) :=
      generateFormat_dci lib _ i _ _ _ (DlRound.getDciFormat_ne _)
    have hsize := (hb.setBits (by omega)).trans (hof.rbgs.trans (hof.below.setBits (by omega)).symm)
    refine ⟨x, hx, ?_, ?_, ?_, _, hdci.alloc, hof.rbgs, ?_⟩
    · rw [hdci.mcs tb hen, hact, BlockAct.mcs, hof.mcs]
    · rw [hgrant.size tb hen, hact, BlockAct.tbs, hof.tbs]
    · have hmod : ∀ n, getRvidx (u32 n) = getRvidx n := fun n => by
        unfold getRvidx u32
        rw [Nat.mod_mod_of_dvd _ (by decide)]
      rw [hdci.rv tb hen, hgrant.dlHarq, Function.update_self, nRtx_retx hact, hof.nRtx,
        OpenedBlock.u32_succ, hmod]
    · exact DlMetric.countPrb_eq_iff lib hP hpos hsize
  | ack tti tb ack => exact trivial
  | setCfg rnti cfg bearers cell locations => exact trivial
  | other ue => exact trivial

/-- A user after its first `set_cfg`. -/
def init (lib : Lib) (rnti : Nat) (cfg : UeCfg) (bearers : List Direction) (cell : Cell)
    (locations : Nat → Nat → DciCce) : RetxRun :=
  { ue := SchedUe.new.setCfg lib rnti cfg bearers cell locations }

theorem inv_init (rnti : Nat) (cfg : UeCfg) (bearers : List Direction) (cell : Cell)
    (locations : Nat → Nat → DciCce) :
    Inv lib cellNofPrb (init lib rnti cfg bearers cell locations) := by
  refine ⟨fun i b hb => ?_, fun i tb hempty => ?_⟩
  · have hzero : ((init lib rnti cfg bearers cell locations).ue.dlHarq i).rbgmask = 0 := rfl
    rw [hzero, Nat.zero_testBit] at hb
    cases hb
  · rw [DlHarqProc.isEmpty_eq_false_iff] at hempty
    rcases (show tb = 0 ∨ tb = 1 by omega) with rfl | rfl <;>
      simp [init, SchedUe.setCfg, SchedUe.reset, HarqProc.config, DlHarqProc.resetAll,
        DlHarqProc.reset, HarqProc.reset, HarqProc.setTb] at hempty

instance (h : DlHarqProc) (e : HarqEvent) : Decidable (OpenedBlock.Finds h e) := by
  unfold OpenedBlock.Finds
  split <;> infer_instance

instance (cellNofPrb : Nat) (st : RetxRun) (e : RetxEvent) :
    Decidable (Allowed lib cellNofPrb st e) := by
  unfold Allowed
  split <;> infer_instance

/-- A user of a cell of 6 PRBs. -/
def exampleInit : RetxRun :=
  init exampleLib 70 { maxharqTx := 4 } [.both] ⟨6, 1, 7⟩
    fun _ _ => ⟨fun L n => n * 2 ^ L, fun _ => 4⟩

end RetxRun

end Srsenb.Mac
