import Srsenb.Mac.ConRes
import Srsenb.Mac.MacState

/-! # New data (`mac::get_dl_sched`)

Whether a block is new is said by the indicator of its process, by the elements that the scheduler
gave it, and by the pointer to its PDU. This module compares the three. -/

open Srsenb.Run

namespace Srsenb.Mac

/-- A data grant of `dl_sched_t`. -/
structure DlSchedGrant where
  rnti : Nat
  dciFormat : DciFormat
  grant : DlDci
  location : DciLocation
  softbuffers : Fin 2 → BufferIdx
  data : Fin 2 → Option Nat

/-- `generate_pdu` of a user, by the elements of a block and the size of its grant. -/
abbrev GeneratePdu := Fin 2 → List DlSchedPdu → Nat → Option Nat

def MacUe.getTxSoftbuffer (harqProcess : Nat) (tb : Fin 2) : BufferIdx :=
  Fin.ofNat 16 (harqProcess * 2 + tb)

/-- The round of `get_dl_sched` for one element of `data`. The DCI is copied before the PDUs are
generated; where one is not, `tb_en` is cleared in the element alone. -/
def dlGrant (generatePdu : GeneratePdu) (d : DlSchedData) : DlSchedGrant where
  rnti := d.rnti
  dciFormat := d.dciFormat
  grant := d.dci
  location := d.dciLocation
  softbuffers := MacUe.getTxSoftbuffer d.dci.harqProcess
  data tb := if d.pdu tb ≠ [] then generatePdu tb (d.pdu tb) (d.tbs tb) else none

/-- `get_dl_sched`, the data grants. -/
def MacState.getDlSched (lib : Lib) (m : MacState) (tti : Nat) (paging : Option Nat)
    (generatePdu : Nat → GeneratePdu) : MacState × List DlSchedGrant :=
  let (sched, res) := m.sched.dlSched lib tti paging
  ({ m with sched := sched },
   res.data.filterMap fun d =>
     if m.ueDb[d.rnti]?.isSome then some (dlGrant (generatePdu d.rnti) d) else none)

/-! ## Buffers and elements -/

namespace SchedUe

/-- A bearer has bytes to send. -/
def Buffered (lch : List UeBearer) : Prop := ∃ b ∈ lch, b.bufRetx ≠ 0 ∨ b.bufTx ≠ 0

instance (lch : List UeBearer) : Decidable (Buffered lch) :=
  inferInstanceAs (Decidable (∃ b ∈ lch, _))

theorem allocPdu_isSome {tbs : Int} (ht : 0 < tbs) : ∀ {lch : List UeBearer} (i : Nat),
    Buffered lch → (allocPdu tbs i lch).1.isSome = true
  | [], _, h => by
    obtain ⟨b, hb, -⟩ := h
    cases hb
  | b :: bs, i, h => by
    unfold allocPdu
    simp only
    by_cases hb : b.bufRetx ≠ 0 ∨ b.bufTx ≠ 0
    · rw [if_pos]
      · rfl
      · split_ifs <;> omega
    · rw [if_neg]
      · refine allocPdu_isSome ht (i + 1) ?_
        obtain ⟨c, hc, hbuf⟩ := h
        rcases List.mem_cons.mp hc with rfl | hc
        · exact absurd hbuf hb
        · exact ⟨c, hc, hbuf⟩
      · push Not at hb
        simp [hb.1, hb.2]

theorem allocPdus_ne_nil {tbs : Int} (ht : 0 < tbs) {lch : List UeBearer} (h : Buffered lch)
    (fuel : Nat) : (allocPdus (fuel + 1) tbs lch).1 ≠ [] := by
  obtain ⟨p, hp⟩ := Option.isSome_iff_exists.mp (allocPdu_isSome ht 0 h)
  obtain ⟨⟨r, lch'⟩, heq⟩ : ∃ q, allocPdu tbs 0 lch = q := ⟨_, rfl⟩
  rw [heq] at hp
  obtain rfl : r = some p := hp
  simp only [allocPdus, heq]
  split_ifs <;> simp

theorem buffered_of_pending {u : SchedUe} (h : u.getPendingDlNewData ≠ 0) : Buffered u.lch := by
  by_contra hno
  apply h
  have hzero : ((u.lch.filter bearerIsDl).map fun b => b.bufRetx + b.bufTx) =
      (u.lch.filter bearerIsDl).map fun _ => 0 := by
    refine List.map_congr_left fun b hb => ?_
    have hb' : ¬ (b.bufRetx ≠ 0 ∨ b.bufTx ≠ 0) :=
      fun hbuf => hno ⟨b, (List.mem_filter.mp hb).1, hbuf⟩
    omega
  unfold getPendingDlNewData
  rw [hzero]
  simp [toU32]

/-- A new block gets an element: where format 1 sends it, the buffers must have bytes. -/
theorem acts_elems {lib : Lib} {u : SchedUe} {pid : Pid} {tti cfi : Nat} {format : DciFormat}
    {data : DlSchedData} {tb : Fin 2} {mcs tbs : Int} {sdus : List DlSchedPdu}
    (h : u.acts lib pid tti cfi format data tb = .new mcs tbs sdus) (ht : 0 < tbs)
    (hbuf : format = .format1 → Buffered u.lch) : sdus ≠ [] := by
  have hblock : ∀ {v : SchedUe} {t : Int × Int}, Buffered v.lch →
      v.newBlock t = .new mcs tbs sdus → sdus ≠ [] := by
    intro v t hv hnew
    obtain ⟨-, rfl, rfl⟩ := BlockAct.new.inj hnew
    exact allocPdus_ne_nil ht hv _
  have hact : ∀ {v : SchedUe} {nofPrb nofRe : Nat} {tbEn noRetx : Bool},
      v.format2aTbAct lib pid nofPrb nofRe tbEn noRetx tb = .new mcs tbs sdus → sdus ≠ [] := by
    intro v nofPrb nofRe tbEn noRetx hv
    unfold format2aTbAct at hv
    split_ifs at hv with hempty hnew
    simp only [Bool.and_eq_true, decide_eq_true_eq] at hnew
    exact hblock (buffered_of_pending hnew.1.2) hv
  cases format with
  | format0 => cases h
  | format1 =>
    simp only [acts, format1Act] at h
    split_ifs at h
    exact hblock (hbuf rfl) h
  | format2 | format2a =>
    simp only [acts] at h
    split_ifs at h
    · exact hact h
    · exact hact h

end SchedUe

/-! ## One block -/

/-- The indicator last sent for a block is the process's, and one was sent for each block in
use. -/
structure Known (prev : Option Bool) (b : Tb) : Prop where
  ndi : ∀ x, prev = some x → x = b.ndi
  active : b.active = true → prev = some b.ndi

theorem Known.keep {prev : Option Bool} {b b' : Tb} (h : Known prev b) (hndi : b'.ndi = b.ndi)
    (hact : b'.active = true → b.active = true) : Known prev b' where
  ndi := hndi ▸ h.ndi
  active ha := hndi ▸ h.active (hact ha)

theorem Known.sent {x : Bool} {b : Tb} (h : x = b.ndi) : Known (some x) b where
  ndi y hy := by rw [← Option.some.inj hy, h]
  active _ := by rw [h]

/-- The call opens a block. -/
def HarqEvent.isOpen : HarqEvent → Bool
  | .newTx _ _ _ _ _ => true
  | _ => false

namespace DlHarqProc

variable {h : DlHarqProc} {es : List HarqEvent}

theorem step_id (e : HarqEvent) : (step h e).id = h.id := by
  cases e <;> rfl

theorem foldl_id (es : List HarqEvent) : (es.foldl step h).id = h.id := by
  induction es generalizing h with
  | nil => rfl
  | cons e es ih => rw [List.foldl_cons, ih, step_id]

theorem foldl_maxRetx (es : List HarqEvent) : (es.foldl step h).maxRetx = h.maxRetx := by
  induction es generalizing h with
  | nil => rfl
  | cons e es ih => rw [List.foldl_cons, ih, step_maxRetx]

/-- A call that opens no block keeps the indicators, and brings no block into use. -/
theorem step_keeps {e : HarqEvent} (he : e.isOpen = false) (tb : Fin 2) :
    ((step h e).tb tb).ndi = (h.tb tb).ndi ∧
      (((step h e).tb tb).active = true → (h.tb tb).active = true) := by
  by_cases htb : tb = e.tb
  · subst htb
    cases e with
    | newTx tb tti mcs tbs nCce => cases he
    | newRetx tb tti => simp [step, newRetx, HarqProc.newRetx, HarqProc.setTb, HarqEvent.tb]
    | setAck tb ack =>
      simp only [step, setAck, HarqProc.setAck, HarqProc.setTb, HarqEvent.tb, Function.update_self,
        true_and]
      split_ifs <;> simp
    | reset tb => simp [step, reset, HarqProc.reset, HarqProc.setTb, HarqEvent.tb]
  · rw [step_tb_ne e htb]
    exact ⟨rfl, id⟩

theorem foldl_keeps (hes : ∀ e ∈ es, e.isOpen = false) (tb : Fin 2) :
    ((es.foldl step h).tb tb).ndi = (h.tb tb).ndi ∧
      (((es.foldl step h).tb tb).active = true → (h.tb tb).active = true) := by
  induction es generalizing h with
  | nil => exact ⟨rfl, id⟩
  | cons e es ih =>
    obtain ⟨hndi, hact⟩ := step_keeps (h := h) (hes e List.mem_cons_self) tb
    obtain ⟨hndi', hact'⟩ := ih (h := step h e) fun e' he' => hes e' (List.mem_cons_of_mem e he')
    exact ⟨hndi'.trans hndi, hact ∘ hact'⟩

/-- A new block toggles the indicator. -/
theorem newTx_ndi (tb : Fin 2) (tti : Nat) (mcs tbs : Int) (nCce : Nat) :
    ((h.newTx tb tti mcs tbs nCce).tb tb).ndi = !(h.tb tb).ndi := by
  simp [newTx, HarqProc.newTxCommon, HarqProc.reset, HarqProc.setTb]

/-- What the acts for both blocks do to the record of one. -/
theorem foldl_acts (acts : Fin 2 → BlockAct) (tti nCce : Nat) (tb : Fin 2) :
    let h' := ((acts 0).calls 0 tti nCce ++ (acts 1).calls 1 tti nCce).foldl step h
    (acts tb = .idle → h'.tb tb = h.tb tb) ∧
      ((acts tb).isNew = true → (h'.tb tb).ndi = !(h.tb tb).ndi) ∧
      ((acts tb).isNew = false → (h'.tb tb).ndi = (h.tb tb).ndi ∧
        ((h'.tb tb).active = true → (h.tb tb).active = true)) := by
  intro h'
  have hrec : h'.tb tb = (((acts tb).calls tb tti nCce).foldl step h).tb tb := by
    simp only [h', List.foldl_append]
    match tb with
    | 0 => exact foldl_calls_tb_ne _ _ (by decide) _
    | 1 =>
      have hone : (((acts 0).calls 0 tti nCce).foldl step h).tb 1 = h.tb 1 :=
        foldl_calls_tb_ne h (acts 0) (by decide) nCce
      have hmax := foldl_maxRetx (h := h) ((acts 0).calls 0 tti nCce)
      generalize ((acts 0).calls 0 tti nCce).foldl step h = g at hone hmax
      cases acts 1 with
      | idle => exact hone
      | retx =>
        simp [BlockAct.calls, step, newRetx, HarqProc.newRetx, HarqProc.setTb, hone]
      | new mcs tbs sdus =>
        simp [BlockAct.calls, step, newTx, HarqProc.newTxCommon, HarqProc.reset, HarqProc.setTb,
          hone, hmax]
  rw [hrec]
  cases acts tb with
  | idle => simp [BlockAct.isNew]
  | retx =>
    simp [BlockAct.isNew, BlockAct.calls, step, newRetx, HarqProc.newRetx, HarqProc.setTb]
  | new mcs tbs sdus =>
    simp [BlockAct.isNew, BlockAct.calls, step, newTx_ndi]

end DlHarqProc

/-! ## Runs -/

/-- A user, and the indicators last sent to it by process and block. -/
structure NdiRun where
  ue : SchedUe
  prev : Nat → Fin 2 → Option Bool := fun _ _ => none

inductive NdiEvent
  /-- A call of `get_dl_sched`, for this user. -/
  | dlSched (r : DlRound) (generatePdu : GeneratePdu)
  | ack (tti : Nat) (tb : Fin 2) (ack : Bool)
  | setCfg (rnti : Nat) (cfg : UeCfg) (bearers : List Direction) (cell : Cell)
    (locations : Nat → Nat → DciCce)
  /-- The user becomes `ue`, apart from its downlink processes. -/
  | other (ue : SchedUe)

namespace NdiRun

variable (lib : Lib)

/-- The indicators after a grant. -/
def send (prev : Nat → Fin 2 → Option Bool) (g : DlDci) : Nat → Fin 2 → Option Bool :=
  Function.update prev g.harqProcess fun tb =>
    if g.tbEn tb then some (g.ndi tb) else prev g.harqProcess tb

def step (st : NdiRun) : NdiEvent → NdiRun
  | .dlSched r generatePdu =>
    { ue := r.next lib st.ue
      prev := ((r.grants lib st.ue).map (dlGrant generatePdu)).foldl
        (fun prev g => send prev g.grant) st.prev }
  | .ack tti tb ack => { st with ue := (st.ue.setAckInfo tti tb ack).2 }
  | .setCfg rnti cfg bearers cell locations =>
    { st with ue := st.ue.setCfg lib rnti cfg bearers cell locations }
  | .other ue => { st with ue := { ue with dlHarq := st.ue.dlHarq } }

/-- A new indicator goes with the PDU of this call, an old one with none, and a block without its
PDU is disabled. -/
structure Agrees (prev : Fin 2 → Option Bool) (generatePdu : GeneratePdu) (d : DlSchedData)
    (g : DlSchedGrant) (tb : Fin 2) : Prop where
  new : g.grant.tbEn tb = true → prev tb ≠ some (g.grant.ndi tb) → d.pdu tb ≠ [] ∧
    ∃ p, g.data tb = some p ∧ generatePdu tb (d.pdu tb) (d.tbs tb) = some p
  old : g.grant.tbEn tb = true → prev tb = some (g.grant.ndi tb) → g.data tb = none
  failed : d.pdu tb ≠ [] → generatePdu tb (d.pdu tb) (d.tbs tb) = none → g.grant.tbEn tb = false

/-- The grants of a call agree on what is new. -/
def NewWithNdi (st : NdiRun) : NdiEvent → Prop
  | .dlSched r generatePdu => ∀ d ∈ r.grants lib st.ue, ∀ tb,
    Agrees (st.prev d.dci.harqProcess) generatePdu d (dlGrant generatePdu d) tb
  | _ => True

/-- A new block has a TBS, and its PDU is generated. -/
def Filled (generatePdu : GeneratePdu) (conRes : Bool) (tb : Fin 2) (a : BlockAct) : Prop :=
  match a with
  | .new _ tbs _ => 0 < tbs ∧ (generatePdu tb (a.fill conRes []) tbs.toNat).isSome = true
  | _ => True

/-- What a round with a DCI finds: no elements in the slot, blocks that are filled, and where format
1 opens one there is something to send. A configuration finds each indicator cleared. -/
def Allowed (st : NdiRun) : NdiEvent → Prop
  | .dlSched r generatePdu =>
    match (r.user lib st.ue).dlNextAlloc, r.location lib st.ue with
    | some pid, some loc =>
      let v := r.user lib st.ue
      (∀ tb, r.slot.pdu tb = []) ∧
        (∀ tb, Filled generatePdu (v.addsConRes v.getDciFormat) tb (r.acts lib st.ue pid loc tb)) ∧
        (v.getDciFormat = .format1 → (v.dlHarq pid).isEmpty 0 = true →
          v.isFirstDlTx = true ∨ SchedUe.Buffered v.lch)
    | _, _ => True
  | .setCfg _ _ _ _ _ => ∀ i tb, ((st.ue.dlHarq i).tb tb).ndi = false
  | _ => True

/-- The processes are numbered, and what was sent of each block is known. -/
structure Inv (st : NdiRun) : Prop where
  id : ∀ i, (st.ue.dlHarq i).id = i
  known : ∀ (i : Pid) tb, Known (st.prev i tb) ((st.ue.dlHarq i).tb tb)

variable {lib} {st : NdiRun} {r : DlRound} {pid : Pid} {loc : DciLocation}

theorem resets_keep {h : DlHarqProc} {b : Bool} (tb : Fin 2) :
    (((if b then [HarqEvent.reset 0, .reset 1] else []).foldl DlHarqProc.step h).tb tb).ndi =
        (h.tb tb).ndi ∧
      ((((if b then [HarqEvent.reset 0, .reset 1] else []).foldl DlHarqProc.step h).tb
        tb).active = true → (h.tb tb).active = true) := by
  refine DlHarqProc.foldl_keeps (fun e he => ?_) tb
  split_ifs at he
  · rcases List.mem_pair.mp he with rfl | rfl <;> rfl
  · cases he

/-- The timeouts keep what is known. -/
theorem known_next {i : Pid} {tb : Fin 2} {p : Option Bool}
    (h : Known p ((r.sentProc lib st.ue i).tb tb)) :
    Known p (((r.next lib st.ue).dlHarq i).tb tb) := by
  rw [DlRound.next_dlHarq, DlRound.calls, List.foldl_append]
  obtain ⟨hndi, hact⟩ := resets_keep (h := r.sentProc lib st.ue i)
    (b := (r.sentProc lib st.ue i).isOld lib r.s.currentTti) tb
  exact h.keep hndi hact

theorem next_id (hI : Inv st) (i : Pid) : ((r.next lib st.ue).dlHarq i).id = i := by
  rw [DlRound.next_dlHarq, DlHarqProc.foldl_id, DlRound.user_proc, hI.id i]

/-- Where nothing is sent, no block is opened. -/
theorem inv_silent (hI : Inv st) (hnone : r.grants lib st.ue = [])
    (hcalls : ∀ i, ∀ e ∈ r.sendCalls lib st.ue i, e.isOpen = false) (generatePdu : GeneratePdu) :
    Inv (step lib st (.dlSched r generatePdu)) := by
  refine ⟨next_id hI, fun i tb => ?_⟩
  simp only [step, hnone, List.map_nil, List.foldl_nil]
  refine known_next ?_
  obtain ⟨hndi, hact⟩ := DlHarqProc.foldl_keeps (h := (r.user lib st.ue).dlHarq i) (hcalls i) tb
  rw [DlRound.user_proc] at hndi hact
  exact (hI.known i tb).keep hndi hact

/-- The blocks of a round with a DCI, by their acts. -/
structure SentBlock (prev : Option Bool) (generatePdu : GeneratePdu) (b b' : Tb) (d : DlSchedData)
    (a : BlockAct) (tb : Fin 2) : Prop where
  ndi : d.dci.tbEn tb = true → d.dci.ndi tb = b'.ndi
  new : a.isNew = true → d.dci.tbEn tb = true ∧ b'.ndi = !b.ndi ∧ d.pdu tb ≠ [] ∧
    ∃ p, generatePdu tb (d.pdu tb) (d.tbs tb) = some p
  retx : a.isNew = false → d.dci.tbEn tb = true → b.active = true
  kept : a.isNew = false →
    d.pdu tb = [] ∧ b'.ndi = b.ndi ∧ (b'.active = true → b.active = true)

/-- A new block has something in it: the contention resolution, or data of the bearers. -/
theorem fill_ne_nil {mcs tbs : Int} {sdus : List DlSchedPdu} {tb : Fin 2}
    (hact : r.acts lib st.ue pid loc tb = .new mcs tbs sdus) (htbs : 0 < tbs)
    (hbuf : (r.user lib st.ue).getDciFormat = .format1 →
      ((r.user lib st.ue).dlHarq pid).isEmpty 0 = true →
      (r.user lib st.ue).isFirstDlTx = true ∨ SchedUe.Buffered (r.user lib st.ue).lch) :
    (BlockAct.new mcs tbs sdus).fill
      ((r.user lib st.ue).addsConRes (r.user lib st.ue).getDciFormat) [] ≠ [] := by
  rw [BlockAct.fill_new]
  by_cases hadds : (r.user lib st.ue).addsConRes (r.user lib st.ue).getDciFormat = true
  · simp [hadds, withConRes]
  · rw [if_neg hadds, List.nil_append]
    refine SchedUe.acts_elems hact htbs fun hformat => ?_
    have htb : tb = 0 := by
      by_contra htb
      simp [DlRound.acts, SchedUe.acts, hformat, htb] at hact
    have hempty : ((r.user lib st.ue).dlHarq pid).isEmpty 0 = true := by
      by_contra hne
      subst htb
      simp [DlRound.acts, SchedUe.acts, SchedUe.format1Act, hformat, hne] at hact
    refine (hbuf hformat hempty).resolve_left fun hfirst => hadds ?_
    simp [SchedUe.addsConRes, hformat, hfirst]

theorem sentBlock {generatePdu : GeneratePdu} (hC : Allowed lib st (.dlSched r generatePdu))
    (hn : (r.user lib st.ue).dlNextAlloc = some pid) (hl : r.location lib st.ue = some loc)
    (tb : Fin 2) : SentBlock (st.prev pid tb) generatePdu ((st.ue.dlHarq pid).tb tb)
      ((r.sentProc lib st.ue pid).tb tb) (r.generated lib st.ue pid loc).2.1
      (r.acts lib st.ue pid loc tb) tb := by
  simp only [Allowed, hn, hl] at hC
  obtain ⟨hslot, hfilled, hbuf⟩ := hC
  have hgrant := DlRound.generated_grantOf lib r st.ue pid loc
  have hproc : (r.generated lib st.ue pid loc).1.dlHarq pid = r.sentProc lib st.ue pid := by
    rw [hgrant.dlHarq, Function.update_self]
    simp only [DlRound.sentProc, DlRound.sendCalls, hn, hl, if_true]
    rfl
  obtain ⟨-, hnew, hkept⟩ := DlHarqProc.foldl_acts (h := (r.user lib st.ue).dlHarq pid)
    (r.acts lib st.ue pid loc) r.s.currentTti loc.ncce tb
  have hfold : ((r.acts lib st.ue pid loc 0).calls 0 r.s.currentTti loc.ncce ++
      (r.acts lib st.ue pid loc 1).calls 1 r.s.currentTti loc.ncce).foldl DlHarqProc.step
        ((r.user lib st.ue).dlHarq pid) = r.sentProc lib st.ue pid := by
    simp only [DlRound.sentProc, DlRound.sendCalls, hn, hl, if_true]
  rw [hfold, DlRound.user_proc] at hnew hkept
  have hpdu := hgrant.pdu tb
  rw [show (r.slotAt lib st.ue loc).pdu tb = [] from hslot tb] at hpdu
  refine ⟨fun hen => ?_, fun ha => ?_, fun ha hen => ?_, fun ha => ?_⟩
  · rw [hgrant.ndi tb hen, hproc]
  · cases hact : r.acts lib st.ue pid loc tb with
    | idle | retx => rw [hact] at ha; cases ha
    | new mcs tbs sdus =>
      obtain ⟨htbs, hgen⟩ : 0 < tbs ∧ (generatePdu tb ((BlockAct.new mcs tbs sdus).fill
          ((r.user lib st.ue).addsConRes (r.user lib st.ue).getDciFormat) []) tbs.toNat).isSome =
            true := by
        have := hfilled tb
        rw [hact] at this
        exact this
      have hen : (r.generated lib st.ue pid loc).2.1.dci.tbEn tb = true := by
        rw [hgrant.tbEn, hact]
        exact htbs
      refine ⟨hen, hnew ha, ?_, ?_⟩
      · rw [hpdu, hact]
        exact fill_ne_nil hact htbs hbuf
      · rw [hgrant.size tb hen, hpdu, hact]
        exact Option.isSome_iff_exists.mp hgen
  · have hpos := (hgrant.tbEn tb).mp hen
    cases hact : r.acts lib st.ue pid loc tb with
    | idle => rw [hact] at hpos; exact absurd hpos (lt_irrefl _)
    | new mcs tbs sdus => rw [hact] at ha; cases ha
    | retx =>
      have hempty := acts_retx hact
      rw [DlRound.user_proc] at hempty
      exact (DlHarqProc.isEmpty_eq_false_iff (h := st.ue.dlHarq pid)).mp hempty |>.1
  · refine ⟨?_, hkept ha⟩
    rw [hpdu]
    cases hact : r.acts lib st.ue pid loc tb with
    | idle | retx => rfl
    | new mcs tbs sdus => rw [hact] at ha; cases ha

theorem known_sent {prev : Option Bool} {generatePdu : GeneratePdu} {b b' : Tb} {d : DlSchedData}
    {a : BlockAct} {tb : Fin 2} (h : SentBlock prev generatePdu b b' d a tb)
    (hk : Known prev b) : Known (if d.dci.tbEn tb then some (d.dci.ndi tb) else prev) b' := by
  by_cases hen : d.dci.tbEn tb = true
  · rw [if_pos hen]
    exact Known.sent (h.ndi hen)
  · rw [if_neg hen]
    have ha : a.isNew = false := by
      rw [Bool.eq_false_iff]
      exact fun ha => hen (h.new ha).1
    exact hk.keep (h.kept ha).2.1 (h.kept ha).2.2

theorem agrees_sent {prev : Fin 2 → Option Bool} {generatePdu : GeneratePdu} {b b' : Tb}
    {d : DlSchedData} {a : BlockAct} {tb : Fin 2} (h : SentBlock (prev tb) generatePdu b b' d a tb)
    (hk : Known (prev tb) b) : Agrees prev generatePdu d (dlGrant generatePdu d) tb := by
  cases ha : a.isNew with
  | true =>
    obtain ⟨hen, hndi, hpdu, p, hp⟩ := h.new ha
    have hdata : (dlGrant generatePdu d).data tb = some p := by simp [dlGrant, hpdu, hp]
    refine ⟨fun _ _ => ⟨hpdu, p, hdata, hp⟩, fun _ hprev => ?_, fun _ hfail => ?_⟩
    · have hsame : d.dci.ndi tb = b.ndi := hk.ndi _ hprev
      rw [h.ndi hen, hndi] at hsame
      simp at hsame
    · rw [hp] at hfail
      cases hfail
  | false =>
    obtain ⟨hpdu, hndi, -⟩ := h.kept ha
    refine ⟨fun hen hprev => absurd ?_ hprev, fun _ _ => by simp [dlGrant, hpdu],
      fun hne => absurd hpdu hne⟩
    rw [hk.active (h.retx ha hen), ← hndi]
    exact congrArg some (h.ndi hen).symm

theorem grants_cases {generatePdu : GeneratePdu} (hI : Inv st)
    (hC : Allowed lib st (.dlSched r generatePdu)) :
    (r.grants lib st.ue = [] ∧ ∀ i, ∀ e ∈ r.sendCalls lib st.ue i, e.isOpen = false) ∨
      ∃ pid d, r.grants lib st.ue = [d] ∧ d.dci.harqProcess = pid.val ∧
        (∀ i ≠ pid, r.sendCalls lib st.ue i = []) ∧
        ∃ acts : Fin 2 → BlockAct, ∀ tb, SentBlock (st.prev pid tb) generatePdu
          ((st.ue.dlHarq pid).tb tb) ((r.sentProc lib st.ue pid).tb tb) d (acts tb) tb := by
  cases hn : (r.user lib st.ue).dlNextAlloc with
  | none => exact Or.inl ⟨(DlRound.out_idle hn).2, by simp [DlRound.sendCalls, hn]⟩
  | some pid =>
    cases hl : r.location lib st.ue with
    | none =>
      refine Or.inl ⟨(DlRound.out_refused hn hl).2, fun i e he => ?_⟩
      simp only [DlRound.sendCalls, hn, hl] at he
      split_ifs at he
      · rcases List.mem_pair.mp he with rfl | rfl <;> rfl
      · cases he
    | some loc =>
      have hblock := sentBlock hC hn hl
      have hgrant := DlRound.generated_grantOf lib r st.ue pid loc
      have hout := (DlRound.out_sent hn hl).2
      by_cases hpos : 0 < (r.generated lib st.ue pid loc).2.2
      · rw [if_pos hpos] at hout
        refine Or.inr ⟨pid, _, hout, ?_, fun i hi => ?_, _, hblock⟩
        · rw [hgrant.id hpos, DlRound.user_proc, hI.id pid]
        · simp [DlRound.sendCalls, hn, hl, hi]
      · rw [if_neg hpos] at hout
        refine Or.inl ⟨hout, fun i e he => ?_⟩
        have hold : ∀ tb, (r.acts lib st.ue pid loc tb).isNew = false := by
          intro tb
          rw [Bool.eq_false_iff]
          exact fun ha => hpos (hgrant.sent.mpr ⟨tb, ((hblock tb).new ha).1⟩)
        have hcall : ∀ {a : BlockAct} {tb : Fin 2}, a.isNew = false →
            e ∈ a.calls tb r.s.currentTti loc.ncce → e.isOpen = false := by
          intro a tb ha he
          cases a with
          | idle => cases he
          | retx => rw [List.mem_singleton.mp he]; rfl
          | new mcs tbs sdus => cases ha
        simp only [DlRound.sendCalls, hn, hl] at he
        split_ifs at he
        · rcases List.mem_append.mp he with he | he
          · exact hcall (hold 0) he
          · exact hcall (hold 1) he
        · cases he

theorem newWithNdi_step (hI : Inv st) (e : NdiEvent) (hC : Allowed lib st e) :
    NewWithNdi lib st e := by
  cases e with
  | dlSched r generatePdu =>
    intro d hd tb
    rcases grants_cases hI hC with ⟨hnone, -⟩ | ⟨pid, d', hone, hid, -, acts, hblock⟩
    · rw [hnone] at hd
      cases hd
    · rw [hone] at hd
      obtain rfl := List.mem_singleton.mp hd
      rw [hid]
      exact agrees_sent (hblock tb) (hI.known pid tb)
  | ack tti tb ack => exact trivial
  | setCfg rnti cfg bearers cell locations => exact trivial
  | other ue => exact trivial

theorem inv_dlSched (hI : Inv st) {generatePdu : GeneratePdu}
    (hC : Allowed lib st (.dlSched r generatePdu)) :
    Inv (step lib st (.dlSched r generatePdu)) := by
  rcases grants_cases hI hC with ⟨hnone, hcalls⟩ | ⟨pid, d, hone, hid, hother, acts, hblock⟩
  · exact inv_silent hI hnone hcalls generatePdu
  · refine ⟨next_id hI, fun i tb => ?_⟩
    simp only [step, hone, List.map_cons, List.map_nil, List.foldl_cons, List.foldl_nil, send,
      dlGrant, hid]
    by_cases hi : i = pid
    · subst hi
      rw [Function.update_self]
      exact known_next (known_sent (hblock tb) (hI.known i tb))
    · rw [Function.update_of_ne (by simpa [Fin.ext_iff] using hi)]
      refine known_next ?_
      rw [DlRound.sentProc, hother i hi, List.foldl_nil, DlRound.user_proc]
      exact hI.known i tb

theorem inv_step (hI : Inv st) (e : NdiEvent) (hC : Allowed lib st e) : Inv (step lib st e) := by
  cases e with
  | dlSched r generatePdu => exact inv_dlSched hI hC
  | ack tti tb ack =>
    simp only [step, SchedUe.setAckInfo]
    split
    · rename_i j _
      refine ⟨fun i => ?_, fun i b => ?_⟩
      · by_cases hi : i = j
        · subst hi
          rw [SchedUe.setDl_dlHarq]
          exact hI.id i
        · simpa [SchedUe.setDl, hi] using hI.id i
      · by_cases hi : i = j
        · subst hi
          rw [SchedUe.setDl_dlHarq]
          obtain ⟨hndi, hact⟩ := DlHarqProc.step_keeps (h := st.ue.dlHarq i)
            (e := .setAck tb ack) rfl b
          exact (hI.known i b).keep hndi hact
        · simpa [SchedUe.setDl, hi] using hI.known i b
    · exact hI
  | setCfg rnti cfg bearers cell locations =>
    refine ⟨fun i => rfl, fun i tb => ⟨fun x hx => ?_, fun ha => ?_⟩⟩
    · exact ((hI.known i tb).ndi x hx).trans (hC i tb)
    · rcases (show tb = 0 ∨ tb = 1 by omega) with rfl | rfl <;>
        simp [step, SchedUe.setCfg, SchedUe.reset, HarqProc.config, DlHarqProc.resetAll,
          DlHarqProc.reset, HarqProc.reset, HarqProc.setTb] at ha
  | other ue => exact ⟨hI.id, hI.known⟩

/-- A user after its first `set_cfg`. -/
def init (lib : Lib) (u : SchedUe) (rnti : Nat) (cfg : UeCfg) (bearers : List Direction)
    (cell : Cell) (locations : Nat → Nat → DciCce) : NdiRun :=
  { ue := u.setCfg lib rnti cfg bearers cell locations }

theorem inv_init (u : SchedUe) (rnti : Nat) (cfg : UeCfg) (bearers : List Direction) (cell : Cell)
    (locations : Nat → Nat → DciCce) : Inv (init lib u rnti cfg bearers cell locations) := by
  refine ⟨fun i => rfl, fun i tb => ⟨fun x hx => (by cases hx), fun ha => ?_⟩⟩
  rcases (show tb = 0 ∨ tb = 1 by omega) with rfl | rfl <;>
    simp [init, SchedUe.setCfg, SchedUe.reset, HarqProc.config, DlHarqProc.resetAll,
      DlHarqProc.reset, HarqProc.reset, HarqProc.setTb] at ha

/-- **New data goes with a new indicator** in every run whose steps are allowed. -/
theorem new_with_ndi (lib : Lib) (u : SchedUe) (rnti : Nat) (cfg : UeCfg)
    (bearers : List Direction) (cell : Cell) (locations : Nat → Nat → DciCce)
    (es : List NdiEvent)
    (h : AllSteps (step lib) (Allowed lib) (init lib u rnti cfg bearers cell locations) es) :
    AllSteps (step lib) (NewWithNdi lib) (init lib u rnti cfg bearers cell locations) es :=
  allSteps_of_allSteps (I := Inv) (fun _ _ hI hC => inv_step hI _ hC)
    (fun _ _ hI hC => newWithNdi_step hI _ hC) (inv_init u rnti cfg bearers cell locations) h

/-! ## The discarded block -/

instance (prev : Fin 2 → Option Bool) (generatePdu : GeneratePdu) (d : DlSchedData)
    (g : DlSchedGrant) (tb : Fin 2) : Decidable (Agrees prev generatePdu d g tb) :=
  decidable_of_iff
    ((g.grant.tbEn tb = true → prev tb ≠ some (g.grant.ndi tb) → d.pdu tb ≠ [] ∧
        (g.data tb).isSome = true ∧ generatePdu tb (d.pdu tb) (d.tbs tb) = g.data tb) ∧
      (g.grant.tbEn tb = true → prev tb = some (g.grant.ndi tb) → g.data tb = none) ∧
      (d.pdu tb ≠ [] → generatePdu tb (d.pdu tb) (d.tbs tb) = none → g.grant.tbEn tb = false))
    ⟨fun ⟨h1, h2, h3⟩ => ⟨fun hen hp => (h1 hen hp).imp_right fun ⟨hs, hg⟩ => by
        obtain ⟨p, hd⟩ := Option.isSome_iff_exists.mp hs
        exact ⟨p, hd, hg.trans hd⟩, h2, h3⟩,
      fun h => ⟨fun hen hp => (h.new hen hp).imp_right fun ⟨p, hd, hg⟩ =>
        ⟨by rw [hd]; rfl, hg.trans hd.symm⟩, h.old, h.failed⟩⟩

instance (st : NdiRun) (e : NdiEvent) : Decidable (NewWithNdi lib st e) := by
  unfold NewWithNdi
  split <;> infer_instance

instance (generatePdu : GeneratePdu) (conRes : Bool) (tb : Fin 2) (a : BlockAct) :
    Decidable (Filled generatePdu conRes tb a) := by
  unfold Filled
  split <;> infer_instance

instance (st : NdiRun) (e : NdiEvent) : Decidable (Allowed lib st e) := by
  unfold Allowed
  split
  · split <;> infer_instance
  · infer_instance
  · infer_instance

/-- A user with one transmission for each block, in a cell of 6 PRBs. -/
def exampleInit : NdiRun :=
  init exampleLib .new 70 { maxharqTx := 1 } [.both] ⟨6, 1, 7⟩
    fun _ _ => ⟨fun L n => n * 2 ^ L, fun _ => 4⟩

/-- Some bytes for the user. -/
def exampleData : NdiEvent :=
  .other { exampleInit.ue with lch := [{ direction := .both, bufTx := 40 }] }

/-- A call in which each PDU is generated. -/
def exampleCall (tti : Nat) : NdiEvent :=
  .dlSched (ConResRun.exampleRound tti false) fun _ _ _ => some tti

/-- The block is acknowledged, and there is nothing more to send. -/
theorem new_with_ndi_ackRun :
    AllSteps (step exampleLib) (NewWithNdi exampleLib) exampleInit
      [exampleData, exampleCall 10, .ack 14 0 true, exampleCall 18] :=
  new_with_ndi exampleLib .new 70 { maxharqTx := 1 } [.both] ⟨6, 1, 7⟩ _ _ (by decide +kernel)

/-- The block is discarded by its NACK, which still counts as pending: a new block without
elements is sent, with a new indicator and no PDU. -/
theorem not_new_with_ndi_nackRun :
    ¬ AllSteps (step exampleLib) (NewWithNdi exampleLib) exampleInit
      [exampleData, exampleCall 10, .ack 14 0 false, exampleCall 18] := by
  decide +kernel

end NdiRun

/-! ## The whole call -/

namespace MacState

variable (lib : Lib) {m : MacState} {k : Nat} {u : SchedUe}

/-- For a user of both databases a call of `get_dl_sched` is a round, and its grants are those of
the round with their PDUs. -/
theorem getDlSched_round (m : MacState) (tti : Nat) (paging : Option Nat)
    (generatePdu : Nat → GeneratePdu) (hs : m.sched.configured = true)
    (hdb : Sched.Keyed m.sched.ueDb) (hu : m.sched.ueDb[k]? = some u)
    (hthere : m.ueDb[k]?.isSome = true) :
    ∃ r : DlRound, r.s.currentTti = tti ∧
      (m.getDlSched lib tti paging generatePdu).1.sched.ueDb[k]? = some (r.next lib u) ∧
      ((m.getDlSched lib tti paging generatePdu).2.filter fun g => g.rnti = k) =
        (r.grants lib u).map (dlGrant (generatePdu k)) := by
  obtain ⟨r, hr⟩ := Sched.dlSched_round lib m.sched tti paging hs hdb hu
  refine ⟨r, hr.currentTti, hr.user, ?_⟩
  rw [← hr.grants]
  unfold getDlSched
  simp only
  induction (m.sched.dlSched lib tti paging).2.data with
  | nil => rfl
  | cons d ds ih =>
    rw [List.filterMap_cons, List.filter_cons]
    have hrnti : (dlGrant (generatePdu d.rnti) d).rnti = d.rnti := rfl
    by_cases hk : d.rnti = k
    · rw [if_pos (by rw [hk]; exact hthere), List.filter_cons, hrnti, hk, decide_eq_true rfl,
        if_pos rfl, if_pos rfl, List.map_cons, ih]
    · rw [decide_eq_false hk, if_neg Bool.false_ne_true, ← ih]
      split
      · rfl
      · rename_i g hg
        split_ifs at hg
        rw [List.filter_cons, if_neg]
        rw [← Option.some.inj hg, hrnti]
        simpa using hk

end MacState

end Srsenb.Mac
