import Srsenb.Mac.DlCalls

/-! # Contention resolution

`generate_format1` adds the contention resolution element when `is_first_dl_tx` finds no process
that has sent. The processes forget what they have sent when they are reset. -/

open Srsenb.Run

namespace Srsenb.Mac

def BlockAct.isNew : BlockAct → Bool
  | new _ _ _ => true
  | _ => false

namespace DlRound

variable (lib : Lib) (r : DlRound) (u : SchedUe)

/-- The round opens block `tb` of some process. -/
def opens (tb : Fin 2) : Bool :=
  match (r.user lib u).dlNextAlloc, r.location lib u with
  | some pid, some loc => (r.acts lib u pid loc tb).isNew
  | _, _ => false

/-- A grant of the round has the contention resolution element in block `tb`. -/
def Carries (tb : Fin 2) : Prop := ∃ d ∈ r.grants lib u, DlSchedPdu.conRes ∈ d.pdu tb

/-- Process `i` before the timeouts. -/
def sentProc (i : Pid) : DlHarqProc :=
  (r.sendCalls lib u i).foldl DlHarqProc.step ((r.user lib u).dlHarq i)

/-- Process `i` has sent block 0 since it was reset, or does so in the round. -/
def HasSent (i : Pid) : Prop :=
  ((u.dlHarq i).tb 0).txCnt ≠ 0 ∨ ((r.sentProc lib u i).tb 0).txCnt ≠ 0

/-- Process `i` is reset: its DCI has no place, or it is too old. -/
def Resets (i : Pid) : Prop :=
  (r.user lib u).dlNextAlloc = some i ∧ r.location lib u = none ∨
    (r.sentProc lib u i).isOld lib r.s.currentTti = true

instance (tb : Fin 2) : Decidable (r.Carries lib u tb) :=
  inferInstanceAs (Decidable (∃ d ∈ _, _))

instance (i : Pid) : Decidable (r.HasSent lib u i) := inferInstanceAs (Decidable (_ ∨ _))

instance (i : Pid) : Decidable (r.Resets lib u i) := inferInstanceAs (Decidable (_ ∨ _))

end DlRound

/-- A user, and whether a block of it was opened. -/
structure ConResRun where
  ue : SchedUe
  opened : Bool := false

inductive ConResEvent
  | dlRound (r : DlRound)
  | ack (tti : Nat) (tb : Fin 2) (ack : Bool)
  /-- The user becomes `ue`, apart from its downlink processes. -/
  | other (ue : SchedUe)

namespace ConResRun

variable (lib : Lib)

def step (st : ConResRun) : ConResEvent → ConResRun
  | .dlRound r =>
    { ue := r.next lib st.ue
      opened := st.opened || r.opens lib st.ue 0 || r.opens lib st.ue 1 }
  | .ack tti tb ack => { st with ue := (st.ue.setAckInfo tti tb ack).2 }
  | .other ue => { st with ue := { ue with dlHarq := st.ue.dlHarq } }

/-- The element is in the first block that is opened, and nowhere else. -/
def Once (st : ConResRun) : ConResEvent → Prop
  | .dlRound r =>
    (∀ tb, r.Carries lib st.ue tb →
      st.opened = false ∧ r.opens lib st.ue tb = true ∧ (tb = 0 ∨ r.opens lib st.ue 0 = false)) ∧
      (st.opened = false → (∃ tb, r.opens lib st.ue tb = true) → ∃ tb, r.Carries lib st.ue tb)
  | _ => True

/-- What a round finds: where no process has sent, the user has format 1 and the block gets a TBS;
the slot has no such element left; and of the processes that have sent, one is not reset. -/
def Allowed (st : ConResRun) : ConResEvent → Prop
  | .dlRound r =>
    (st.ue.isFirstDlTx = true → ((r.opens lib st.ue 0 || r.opens lib st.ue 1) = true →
      (r.user lib st.ue).getDciFormat = .format1 ∧
        ∀ pid, (r.user lib st.ue).dlNextAlloc = some pid →
          0 < ((r.user lib st.ue).format1Tbs lib ((r.user lib st.ue).dlHarq pid) r.s.currentTti
            r.s.currentCfi).1)) ∧
      (∀ tb, DlSchedPdu.conRes ∉ r.slot.pdu tb) ∧
      ((∃ i, r.HasSent lib st.ue i) → ∃ i, r.HasSent lib st.ue i ∧ ¬ r.Resets lib st.ue i)
  | _ => True

instance (st : ConResRun) (e : ConResEvent) : Decidable (Once lib st e) := by
  unfold Once
  split <;> infer_instance

instance (st : ConResRun) (e : ConResEvent) : Decidable (Allowed lib st e) := by
  unfold Allowed
  split <;> infer_instance

/-- `is_first_dl_tx` tells the truth. -/
def Inv (st : ConResRun) : Prop := st.opened = !st.ue.isFirstDlTx

variable {lib} {st : ConResRun}

theorem isFirstDlTx_iff {u : SchedUe} :
    u.isFirstDlTx = true ↔ ∀ i, ((u.dlHarq i).tb 0).txCnt = 0 := by
  simp [SchedUe.isFirstDlTx]

theorem conRes_notMem_allocPdus : ∀ (fuel : Nat) (rem : Int) (lch : List UeBearer),
    DlSchedPdu.conRes ∉ (SchedUe.allocPdus fuel rem lch).1
  | 0, _, _ => by simp [SchedUe.allocPdus]
  | fuel + 1, rem, lch => by
    simp only [SchedUe.allocPdus]
    split
    · simp
    · rename_i lcid x lch' _
      have ih := conRes_notMem_allocPdus fuel (rem - x) lch'
      split_ifs <;> simp [ih]

theorem conRes_mem_withConRes (pdus : List DlSchedPdu) : DlSchedPdu.conRes ∈ withConRes pdus := by
  cases pdus <;> simp [withConRes]

/-- The SDUs of a new block are what `alloc_pdu` gives. -/
theorem acts_sdus {u : SchedUe} {pid : Pid} {tti cfi : Nat} {format : DciFormat}
    {data : DlSchedData} {tb : Fin 2} {mcs tbs : Int} {sdus : List DlSchedPdu}
    (h : u.acts lib pid tti cfi format data tb = .new mcs tbs sdus) :
    DlSchedPdu.conRes ∉ sdus := by
  have hblock : ∀ {v : SchedUe} {t : Int × Int}, v.newBlock t = .new mcs tbs sdus →
      DlSchedPdu.conRes ∉ sdus := by
    intro v t ht
    obtain ⟨-, -, rfl⟩ := BlockAct.new.inj ht
    exact conRes_notMem_allocPdus _ _ _
  have hact : ∀ {v : SchedUe} {nofPrb nofRe : Nat} {tbEn noRetx : Bool},
      v.format2aTbAct lib pid nofPrb nofRe tbEn noRetx tb = .new mcs tbs sdus →
      DlSchedPdu.conRes ∉ sdus := by
    intro v nofPrb nofRe tbEn noRetx hv
    unfold SchedUe.format2aTbAct at hv
    split_ifs at hv
    exact hblock hv
  cases format with
  | format0 => cases h
  | format1 =>
    simp only [SchedUe.acts, SchedUe.format1Act] at h
    split_ifs at h
    exact hblock h
  | format2 | format2a =>
    simp only [SchedUe.acts] at h
    split_ifs at h
    · exact hact h
    · exact hact h

end ConResRun

/-! ## The count of transmissions -/

/-- The call opens block 0. -/
def HarqEvent.opensFirst : HarqEvent → Bool
  | .newTx tb _ _ _ _ => decide (tb = 0)
  | _ => false

/-- The call is a reset. -/
def HarqEvent.isReset : HarqEvent → Bool
  | .reset _ => true
  | _ => false

/-- No act resets its process, and only a new block 0 opens one. -/
theorem BlockAct.mem_calls {a : BlockAct} {tb : Fin 2} {tti nCce : Nat} {e : HarqEvent}
    (h : e ∈ a.calls tb tti nCce) :
    e.isReset = false ∧ (e.opensFirst = true → tb = 0 ∧ a.isNew = true) := by
  cases a with
  | idle => cases h
  | retx =>
    obtain rfl := List.mem_singleton.mp h
    exact ⟨rfl, fun ho => by cases ho⟩
  | new mcs tbs sdus =>
    obtain rfl := List.mem_singleton.mp h
    exact ⟨rfl, fun ho => ⟨by simpa [HarqEvent.opensFirst] using ho, rfl⟩⟩

namespace DlHarqProc

variable {h : DlHarqProc} {es : List HarqEvent}

theorem step_txCnt_zero {e : HarqEvent} (hz : (h.tb 0).txCnt = 0) (he : e.opensFirst = false) :
    ((step h e).tb 0).txCnt = 0 := by
  cases e with
  | newTx tb tti mcs tbs nCce =>
    have hne : (0 : Fin 2) ≠ tb := fun heq => by simp [HarqEvent.opensFirst, ← heq] at he
    rw [step_tb_ne _ (by exact hne), hz]
  | newRetx tb tti | setAck tb ack | reset tb =>
    rcases (show tb = 0 ∨ tb = 1 by omega) with rfl | rfl
    · simp [step, newRetx, setAck, reset, HarqProc.newRetx, HarqProc.setAck, HarqProc.reset,
        HarqProc.setTb, hz]
    · rw [step_tb_ne _ (by exact Fin.zero_ne_one), hz]

theorem step_txCnt_pos {e : HarqEvent} (hpos : (h.tb 0).txCnt ≠ 0 ∨ e.opensFirst = true)
    (he : e.isReset = false) : ((step h e).tb 0).txCnt ≠ 0 := by
  cases e with
  | reset tb => cases he
  | newTx tb tti mcs tbs nCce =>
    rcases (show tb = 0 ∨ tb = 1 by omega) with rfl | rfl
    · simp [step, newTx, HarqProc.newTxCommon, HarqProc.reset, HarqProc.setTb, u32]
    · rw [step_tb_ne _ (by exact Fin.zero_ne_one)]
      exact hpos.resolve_right (by simp [HarqEvent.opensFirst])
  | newRetx tb tti | setAck tb ack =>
    have hcnt := hpos.resolve_right (by simp [HarqEvent.opensFirst])
    rcases (show tb = 0 ∨ tb = 1 by omega) with rfl | rfl
    · simpa [step, newRetx, setAck, HarqProc.newRetx, HarqProc.setAck, HarqProc.setTb]
        using hcnt
    · rwa [step_tb_ne _ (by exact Fin.zero_ne_one)]

theorem foldl_txCnt_zero (hz : (h.tb 0).txCnt = 0) (hes : ∀ e ∈ es, e.opensFirst = false) :
    ((es.foldl step h).tb 0).txCnt = 0 := by
  induction es generalizing h with
  | nil => exact hz
  | cons e es ih =>
    exact ih (step_txCnt_zero hz (hes e List.mem_cons_self))
      fun e' he' => hes e' (List.mem_cons_of_mem e he')

theorem foldl_txCnt_pos (hpos : (h.tb 0).txCnt ≠ 0 ∨ ∃ e ∈ es, e.opensFirst = true)
    (hes : ∀ e ∈ es, e.isReset = false) : ((es.foldl step h).tb 0).txCnt ≠ 0 := by
  induction es generalizing h with
  | nil => exact hpos.resolve_right (by simp)
  | cons e es ih =>
    refine ih ?_ fun e' he' => hes e' (List.mem_cons_of_mem e he')
    rcases hpos with hpos | ⟨e', he', hopen⟩
    · exact Or.inl (step_txCnt_pos (Or.inl hpos) (hes e List.mem_cons_self))
    · rcases List.mem_cons.mp he' with rfl | he'
      · exact Or.inl (step_txCnt_pos (Or.inr hopen) (hes e' List.mem_cons_self))
      · exact Or.inr ⟨e', he', hopen⟩

end DlHarqProc

namespace DlRound

variable {lib : Lib} {r : DlRound} {u : SchedUe} {pid i : Pid} {loc : DciLocation} {tb : Fin 2}

theorem user_isFirst : (r.user lib u).isFirstDlTx = u.isFirstDlTx := by
  rw [Bool.eq_iff_iff, ConResRun.isFirstDlTx_iff, ConResRun.isFirstDlTx_iff]
  exact forall_congr' fun i => by rw [user_proc]

theorem opens_of_sent (hn : (r.user lib u).dlNextAlloc = some pid)
    (hl : r.location lib u = some loc) : r.opens lib u tb = (r.acts lib u pid loc tb).isNew := by
  simp [opens, hn, hl]

theorem sent_of_opens (h : r.opens lib u tb = true) :
    ∃ pid loc, (r.user lib u).dlNextAlloc = some pid ∧ r.location lib u = some loc ∧
      (r.acts lib u pid loc tb).isNew = true := by
  unfold opens at h
  split at h
  · rename_i pid loc hn hl
    exact ⟨pid, loc, hn, hl, h⟩
  · cases h

theorem next_of_not_resets (h : ¬ r.Resets lib u i) :
    (r.next lib u).dlHarq i = r.sentProc lib u i := by
  unfold Resets at h
  rw [next_dlHarq, calls, List.foldl_append]
  unfold sentProc at h ⊢
  rw [if_neg fun hold => h (Or.inr hold)]
  rfl

/-- A process that has sent, and is not reset, still tells so. -/
theorem next_txCnt_pos (hs : r.HasSent lib u i) (hr : ¬ r.Resets lib u i) :
    (((r.next lib u).dlHarq i).tb 0).txCnt ≠ 0 := by
  rw [next_of_not_resets hr]
  rcases hs with hs | hs
  · refine DlHarqProc.foldl_txCnt_pos (Or.inl ?_) fun e he => ?_
    · rwa [user_proc]
    · unfold sendCalls at he
      split at he
      · cases he
      · rename_i pid hn hl
        split_ifs at he with hi
        · exact absurd (Or.inl ⟨hi ▸ hn, hl⟩) hr
        · cases he
      · rename_i pid loc hn hl
        split_ifs at he with hi
        · rcases List.mem_append.mp he with he | he
          · exact (BlockAct.mem_calls he).1
          · exact (BlockAct.mem_calls he).1
        · cases he
  · exact hs

/-- A new block of a user that has sent none counts. -/
theorem hasSent_of_opens (hn : (r.user lib u).dlNextAlloc = some pid)
    (hl : r.location lib u = some loc) (ho : r.opens lib u 0 = true) : r.HasSent lib u pid := by
  rw [opens_of_sent hn hl] at ho
  obtain ⟨mcs, tbs, sdus, hact⟩ : ∃ mcs tbs sdus, r.acts lib u pid loc 0 = .new mcs tbs sdus := by
    cases ha : r.acts lib u pid loc 0 with
    | new mcs tbs sdus => exact ⟨mcs, tbs, sdus, rfl⟩
    | idle | retx => rw [ha] at ho; cases ho
  refine Or.inr (DlHarqProc.foldl_txCnt_pos (Or.inr ?_) fun e he => ?_)
  · refine ⟨.newTx 0 r.s.currentTti mcs tbs loc.ncce, ?_, rfl⟩
    simp [sendCalls, hn, hl, hact, BlockAct.calls]
  · simp only [sendCalls, hn, hl, if_true] at he
    rcases List.mem_append.mp he with he | he
    · exact (BlockAct.mem_calls he).1
    · exact (BlockAct.mem_calls he).1

/-- Without a new block 0 the processes of a user that has sent none stay so. -/
theorem next_isFirst (hfirst : u.isFirstDlTx = true) (ho : r.opens lib u 0 = false) :
    (r.next lib u).isFirstDlTx = true := by
  rw [ConResRun.isFirstDlTx_iff] at hfirst ⊢
  intro i
  rw [next_dlHarq]
  refine DlHarqProc.foldl_txCnt_zero (by rw [user_proc]; exact hfirst i) fun e he => ?_
  have hold : ∀ {b : Bool}, e ∈ (if b then [HarqEvent.reset 0, .reset 1] else []) →
      e.opensFirst = false := by
    intro b he
    split_ifs at he
    · rcases List.mem_pair.mp he with rfl | rfl <;> rfl
    · cases he
  rcases List.mem_append.mp he with he | he
  · unfold sendCalls at he
    split at he
    · cases he
    · split_ifs at he
      · rcases List.mem_pair.mp he with rfl | rfl <;> rfl
      · cases he
    · rename_i pid loc hn hl
      rw [opens_of_sent hn hl] at ho
      split_ifs at he
      · rw [Bool.eq_false_iff]
        intro hopen
        rcases List.mem_append.mp he with he | he
        · rw [((BlockAct.mem_calls he).2 hopen).2] at ho
          cases ho
        · cases ((BlockAct.mem_calls he).2 hopen).1
      · cases he
  · exact hold he

/-- What a grant has in block `tb`: the element was left in the slot, or the block is new, by
format 1, for a user that has sent none. -/
theorem carries_cases (h : r.Carries lib u tb) :
    DlSchedPdu.conRes ∈ r.slot.pdu tb ∨
      u.isFirstDlTx = true ∧ tb = 0 ∧ r.opens lib u tb = true := by
  obtain ⟨d, hd, hmem⟩ := h
  cases hn : (r.user lib u).dlNextAlloc with
  | none => rw [(out_idle hn).2] at hd; cases hd
  | some pid =>
    cases hl : r.location lib u with
    | none => rw [(out_refused hn hl).2] at hd; cases hd
    | some loc =>
      rw [(out_sent hn hl).2] at hd
      split_ifs at hd with hpos
      · obtain rfl := List.mem_singleton.mp hd
        rw [(generated_grantOf lib r u pid loc).pdu tb] at hmem
        rw [opens_of_sent hn hl]
        cases hact : r.acts lib u pid loc tb with
        | idle | retx =>
          rw [hact] at hmem
          exact Or.inl hmem
        | new mcs tbs sdus =>
          have hsdus := ConResRun.acts_sdus hact
          rw [hact] at hmem
          unfold BlockAct.fill at hmem
          rcases List.mem_append.mp hmem with hmem | hmem
          · split_ifs at hmem with hadds
            · right
              simp only [SchedUe.addsConRes, Bool.and_eq_true, decide_eq_true_eq, user_isFirst]
                at hadds
              refine ⟨hadds.2, ?_, rfl⟩
              by_contra htb
              simp [acts, SchedUe.acts, hadds.1, htb] at hact
            · exact Or.inl hmem
          · exact absurd hmem hsdus
      · cases hd

/-- The first block by format 1 has the element, if it has a TBS at all. -/
theorem carries_first (hfirst : u.isFirstDlTx = true)
    (ho : (r.opens lib u 0 || r.opens lib u 1) = true)
    (hformat : (r.user lib u).getDciFormat = .format1)
    (htbs : ∀ pid, (r.user lib u).dlNextAlloc = some pid → 0 < ((r.user lib u).format1Tbs lib
      ((r.user lib u).dlHarq pid) r.s.currentTti r.s.currentCfi).1) :
    r.Carries lib u 0 ∧ r.opens lib u 0 = true := by
  have hone : r.opens lib u 1 = false := by
    unfold opens
    split
    · simp [acts, SchedUe.acts, hformat, BlockAct.isNew]
    · rfl
  rw [hone, Bool.or_false] at ho
  refine ⟨?_, ho⟩
  obtain ⟨pid, loc, hn, hl, hnew⟩ := sent_of_opens ho
  have hgrant := generated_grantOf lib r u pid loc
  have hact : r.acts lib u pid loc 0 = (r.user lib u).newBlock
      ((r.user lib u).format1Tbs lib ((r.user lib u).dlHarq pid) r.s.currentTti
        r.s.currentCfi) := by
    simp only [acts, SchedUe.acts, hformat, if_true, SchedUe.format1Act] at hnew ⊢
    split_ifs at hnew ⊢
    · rfl
    · cases hnew
  have hen : (r.generated lib u pid loc).2.1.dci.tbEn 0 = true := by
    rw [hgrant.tbEn, hact]
    exact htbs pid hn
  refine ⟨(r.generated lib u pid loc).2.1, ?_, ?_⟩
  · rw [(out_sent hn hl).2, if_pos (hgrant.sent.mpr ⟨0, hen⟩)]
    exact List.mem_singleton_self _
  · rw [hgrant.pdu 0, hact, hformat]
    simp only [SchedUe.addsConRes, user_isFirst, hfirst, decide_true, Bool.and_self,
      SchedUe.newBlock, BlockAct.fill, if_true]
    exact List.mem_append_left _ (ConResRun.conRes_mem_withConRes _)

end DlRound

namespace ConResRun

variable {lib : Lib} {st : ConResRun}

theorem inv_step (hI : Inv st) (e : ConResEvent) (hC : Allowed lib st e) :
    Inv (step lib st e) := by
  cases e with
  | dlRound r =>
    obtain ⟨hfirst, -, hkeeps⟩ := hC
    unfold Inv at hI ⊢
    simp only [step]
    have hnext : (∃ i, r.HasSent lib st.ue i) → (r.next lib st.ue).isFirstDlTx = false := by
      intro hsent
      obtain ⟨i, hs, hr⟩ := hkeeps hsent
      rw [Bool.eq_false_iff, ne_eq, isFirstDlTx_iff]
      exact fun hall => DlRound.next_txCnt_pos hs hr (hall i)
    cases hf : st.ue.isFirstDlTx with
    | false =>
      have hsent : ∃ i, r.HasSent lib st.ue i := by
        by_contra hnone
        rw [Bool.eq_false_iff, ne_eq, isFirstDlTx_iff] at hf
        exact hf fun i => by_contra fun hi => hnone ⟨i, Or.inl hi⟩
      rw [hnext hsent, hI, hf]
      rfl
    | true =>
      rw [hI, hf]
      cases ho : r.opens lib st.ue 0 || r.opens lib st.ue 1 with
      | false =>
        rw [Bool.or_eq_false_iff] at ho
        rw [DlRound.next_isFirst hf ho.1, ho.1, ho.2]
        rfl
      | true =>
        obtain ⟨hformat, htbs⟩ := hfirst hf ho
        have ho0 := (DlRound.carries_first hf ho hformat htbs).2
        obtain ⟨pid, loc, hn, hl, -⟩ := DlRound.sent_of_opens ho0
        rw [hnext ⟨pid, DlRound.hasSent_of_opens hn hl ho0⟩, ho0]
        rfl
  | ack tti tb ack =>
    unfold Inv at hI ⊢
    have hsame : (st.ue.setAckInfo tti tb ack).2.isFirstDlTx = st.ue.isFirstDlTx := by
      rw [Bool.eq_iff_iff, isFirstDlTx_iff, isFirstDlTx_iff]
      refine forall_congr' fun i => ?_
      unfold SchedUe.setAckInfo
      split
      · rename_i j _
        by_cases hi : i = j
        · subst hi
          match tb with
          | 0 | 1 => simp [DlHarqProc.setAck, HarqProc.setAck, HarqProc.setTb]
        · simp [SchedUe.setDl, hi]
      · rfl
    simp only [step]
    rw [hI, hsame]
  | other ue => exact hI

theorem once_step (hI : Inv st) (e : ConResEvent) (hC : Allowed lib st e) : Once lib st e := by
  cases e with
  | dlRound r =>
    obtain ⟨hfirst, hslot, -⟩ := hC
    unfold Inv at hI
    refine ⟨fun tb htb => ?_, fun hopened hopens => ?_⟩
    · obtain ⟨hf, htb0, ho⟩ := (DlRound.carries_cases htb).resolve_left (hslot tb)
      exact ⟨by rw [hI, hf]; rfl, ho, Or.inl htb0⟩
    · have hf : st.ue.isFirstDlTx = true := by rw [hI] at hopened; simpa using hopened
      have ho : (r.opens lib st.ue 0 || r.opens lib st.ue 1) = true := by
        rw [Bool.or_eq_true]
        exact Fin.exists_fin_two.mp hopens
      obtain ⟨hformat, htbs⟩ := hfirst hf ho
      exact ⟨0, (DlRound.carries_first hf ho hformat htbs).1⟩
  | ack tti tb ack => exact trivial
  | other ue => exact trivial

/-- A user after `set_cfg`. -/
def init (lib : Lib) (u : SchedUe) (rnti : Nat) (cfg : UeCfg) (bearers : List Direction)
    (cell : Cell) (locations : Nat → Nat → DciCce) : ConResRun :=
  { ue := u.setCfg lib rnti cfg bearers cell locations }

theorem inv_init (u : SchedUe) (rnti : Nat) (cfg : UeCfg) (bearers : List Direction) (cell : Cell)
    (locations : Nat → Nat → DciCce) : Inv (init lib u rnti cfg bearers cell locations) := by
  have hfirst : (init lib u rnti cfg bearers cell locations).ue.isFirstDlTx = true := by
    rw [isFirstDlTx_iff]
    intro i
    simp [init, SchedUe.setCfg, SchedUe.reset, HarqProc.config, DlHarqProc.resetAll,
      DlHarqProc.reset, HarqProc.reset, HarqProc.setTb]
  exact (show false = !true from rfl).trans (by rw [hfirst])

/-- **Contention resolution is sent once** in every run whose steps are allowed. -/
theorem conRes_once (lib : Lib) (u : SchedUe) (rnti : Nat) (cfg : UeCfg) (bearers : List Direction)
    (cell : Cell) (locations : Nat → Nat → DciCce) (es : List ConResEvent)
    (h : AllSteps (step lib) (Allowed lib) (init lib u rnti cfg bearers cell locations) es) :
    AllSteps (step lib) (Once lib) (init lib u rnti cfg bearers cell locations) es :=
  allSteps_of_allSteps (I := Inv) (fun _ _ hI hC => inv_step hI _ hC)
    (fun _ _ hI hC => once_step hI _ hC) (inv_init u rnti cfg bearers cell locations) h

/-! ## A refused DCI -/

/-- A user of a cell of 6 PRBs, with its candidates. -/
def exampleInit : ConResRun :=
  init exampleLib .new 70 { maxharqTx := 4 } [.both] ⟨6, 1, 7⟩
    fun _ _ => ⟨fun L n => n * 2 ^ L, fun _ => 4⟩

/-- Data for the user. -/
def exampleData : ConResEvent :=
  .other { exampleInit.ue with lch := [{ direction := .both, bufTx := 1000 }] }

/-- The round of a TTI, where the PDCCH is empty or full. -/
def exampleRound (tti : Nat) (full : Bool) : DlRound where
  m := ({} : DlMetric).start 0 6 4 tti
  s := { Sched.exampleSched with
    currentTti := tti, currentCfi := 3, sfIdx := tti % 10, cce := { used := fun _ => full } }

/-- The second block follows the first one's ACK. -/
theorem conRes_once_ackRun :
    AllSteps (step exampleLib) (Once exampleLib) exampleInit
      [exampleData, .dlRound (exampleRound 10 false), .ack 14 0 true,
        .dlRound (exampleRound 20 false)] :=
  conRes_once exampleLib .new 70 { maxharqTx := 4 } [.both] ⟨6, 1, 7⟩ _ _ (by decide +kernel)

/-- In between the DCI of a block has no place: the process that sent the first block is reset,
and the element is sent a second time. -/
theorem conRes_twice_refusedRun :
    ¬ AllSteps (step exampleLib) (Once exampleLib) exampleInit
      [exampleData, .dlRound (exampleRound 10 false), .ack 14 0 true,
        .dlRound (exampleRound 20 true), .dlRound (exampleRound 30 false)] := by
  decide +kernel

end ConResRun

end Srsenb.Mac
