import Srsenb.Mac.DlRounds

/-! # The grants of `dl_sched_rar`

A response is answered once its DCI is placed. The grant goes to the first entry of its TTI, whose
Msg3 is put into the slot of a later TTI. -/

namespace Srsenb.Mac

/-- What a round answers: an entry of `pending_rar`, and the number of entries with its TTI. -/
structure RarAnswer where
  rar : SchedRar
  nofSame : Nat

/-- The Msg3 of an answer. -/
def RarAnswer.msg3 (a : RarAnswer) : PendingMsg3 :=
  { enabled := true, rnti := a.rar.rnti, L := 3, nPrb := 2, mcs := 0 }

namespace Sched

/-- The entries of `pending_rar` with this TTI. -/
def sameTti (s : Sched) (tti : Nat) : List Nat :=
  (List.range schedMaxPendingRar).filter fun j => (s.pendingRar j).rarTti = tti

/-- Whether the round for entry `i` answers. -/
def Answers (s : Sched) (i : Nat) : Prop :=
  (s.pendingRar i).bufRar > 0 ∧ s.availRbg ≥ s.rarNRbg ∧ s.inRarWindow (s.pendingRar i) = true ∧
    ∃ cand < (s.rarLocations (s.currentCfi - 1) s.sfIdx).nofLoc s.rarAggrLevel,
      s.cce.firstUsed ((s.rarLocations (s.currentCfi - 1) s.sfIdx).cceStart s.rarAggrLevel cand)
        s.rarAggrLevel = none

/-- Whether the round for entry `i` discards it. -/
def Discards (s : Sched) (i : Nat) : Prop :=
  (s.pendingRar i).bufRar > 0 ∧ s.availRbg ≥ s.rarNRbg ∧ s.inRarWindow (s.pendingRar i) = false

instance (s : Sched) (i : Nat) : Decidable (s.Discards i) :=
  inferInstanceAs (Decidable (_ ∧ _ ∧ _))

instance (s : Sched) (i : Nat) : Decidable (s.Answers i) :=
  inferInstanceAs (Decidable (_ ∧ _ ∧ _ ∧ _))

def answerOf (s : Sched) (i : Nat) : RarAnswer :=
  ⟨s.pendingRar ((s.sameTti (s.pendingRar i).rarTti).headD i),
    (s.sameTti (s.pendingRar i).rarTti).length⟩

variable (lib : Lib)

/-- The answers of the rounds for the entries of a list. -/
def answers : List Nat → Sched × Elems DlSchedRar → List RarAnswer
  | [], _ => []
  | i :: is, st =>
    (if st.1.Answers i then [st.1.answerOf i] else []) ++ answers is (rarSched lib st i)

/-- The grant of an answer. -/
def rarGrantOf (s : Sched) (a : RarAnswer) : RarGrant :=
  { raId := a.rar.raId, tpcPusch := 3, truncMcs := 0,
    rba := lib.raType2ToRiv 3 2 s.cfg.cell.nofPrb }

/-- The slot of a Msg3 that is granted now. -/
def msg3Slot (s : Sched) : Nat := (s.currentTti + msg3DelayMs + harqDelayMs) % 10

variable {s : Sched} {i tti : Nat}

/-! ## The entries of one TTI -/

/-- Once an entry was granted, the others are only counted. -/
theorem rarGrants_counted {rar : DlSchedRar} (hn : rar.nofGrants ≠ 0) (l : List Nat) :
    l.foldl (rarGrant lib i tti) (s, rar) =
      (s, { rar with
        nofGrants :=
          rar.nofGrants + (l.filter fun j => (s.pendingRar j).rarTti = tti).length }) := by
  induction l generalizing rar with
  | nil => rfl
  | cons j l ih =>
    rw [List.foldl_cons]
    by_cases hj : (s.pendingRar j).rarTti = tti
    · have hround : rarGrant lib i tti (s, rar) j =
          (s, { rar with nofGrants := rar.nofGrants + 1 }) := by
        unfold rarGrant
        simp only
        rw [if_pos hj, if_neg hn]
      rw [hround, ih (Nat.succ_ne_zero _), List.filter_cons_of_pos (by simpa using hj),
        List.length_cons]
      simp only [Nat.add_assoc, Nat.add_comm 1]
    · have hround : rarGrant lib i tti (s, rar) j = (s, rar) := by
        unfold rarGrant
        simp only
        rw [if_neg hj]
      rw [hround, ih hn, List.filter_cons_of_neg (by simpa using hj)]

theorem rarGrants_first (s : Sched) (i tti : Nat) {rar : DlSchedRar} (hn : rar.nofGrants = 0)
    {j : Nat} {js : List Nat} :
    ∀ {l : List Nat}, l.Nodup →
      (l.filter fun j => (s.pendingRar j).rarTti = tti) = j :: js →
      l.foldl (rarGrant lib i tti) (s, rar) =
        ({ s.setRar j { s.pendingRar j with bufRar := 0, rarTti := 0 } with
            pendingMsg3 := Function.update s.pendingMsg3 s.msg3Slot
              (RarAnswer.msg3 ⟨s.pendingRar j, js.length + 1⟩) },
          { rar with
            grant := s.rarGrantOf lib ⟨s.pendingRar j, js.length + 1⟩
            nofGrants := js.length + 1
            tbs := (s.pendingRar i).bufRar })
  | [], _, h => by simp at h
  | k :: l, hnd, h => by
    obtain ⟨hk, hnd⟩ := List.nodup_cons.mp hnd
    rw [List.foldl_cons]
    by_cases htti : (s.pendingRar k).rarTti = tti
    · rw [List.filter_cons_of_pos (by simpa using htti)] at h
      obtain ⟨rfl, rfl⟩ := List.cons.inj h
      obtain ⟨st, hst⟩ : ∃ st, rarGrant lib i tti (s, rar) k = st := ⟨_, rfl⟩
      have hround := hst
      unfold rarGrant at hround
      simp only at hround
      rw [if_pos htti, if_pos hn] at hround
      obtain ⟨s1, rar1⟩ := st
      obtain ⟨hs1, hrar1⟩ := Prod.mk.inj hround
      -- The granted entry is not among the ones to come.
      have hcount : (l.filter fun j => (s1.pendingRar j).rarTti = tti) =
          l.filter fun j => (s.pendingRar j).rarTti = tti := by
        apply List.filter_congr
        intro j hj
        have hne : j ≠ k := fun heq => hk (heq ▸ hj)
        rw [← hs1]
        simp only [setRar, Function.update_of_ne hne]
      rw [hst, rarGrants_counted lib (by rw [← hrar1]; exact Nat.one_ne_zero), hcount, ← hs1,
        ← hrar1]
      simp only [Nat.add_comm 1]
      rfl
    · have hround : rarGrant lib i tti (s, rar) k = (s, rar) := by
        unfold rarGrant
        simp only
        rw [if_neg htti]
      rw [List.filter_cons_of_neg (by simpa using htti)] at h
      rw [hround]
      exact rarGrants_first _ _ _ hn hnd h

/-! ## One round -/

theorem generateFormat1a_nonneg (rbStart lCrb tbs rv : Nat) (dci : DlDci) :
    0 ≤ (generateFormat1a lib rbStart lCrb tbs rv dci).1 :=
  le_trans (by omega) (generateFormat1a_le lib rbStart lCrb tbs rv dci)

theorem sameTti_self (hi : i < schedMaxPendingRar) :
    ∃ js, s.sameTti (s.pendingRar i).rarTti =
      (s.sameTti (s.pendingRar i).rarTti).headD i :: js := by
  cases hsame : s.sameTti (s.pendingRar i).rarTti with
  | nil =>
    unfold sameTti at hsame
    have := List.filter_eq_nil_iff.mp hsame i (List.mem_range.mpr hi)
    simp at this
  | cons j js => exact ⟨js, rfl⟩

theorem rarSched_answers (out : Elems DlSchedRar) (hi : i < schedMaxPendingRar)
    (h : s.Answers i) :
    ∃ rar, (rarSched lib (s, out) i).2.done = out.done ++ [rar] ∧
      rar.grant = s.rarGrantOf lib (s.answerOf i) ∧ rar.nofGrants = (s.answerOf i).nofSame ∧
      rar.rarnti = ((s.pendingRar i).rarTti + 1) % 10 ∧
      rar.tbs = (s.pendingRar i).bufRar ∧
      (∃ dci, rar.dci = (generateFormat1a lib (s.startRbg * s.P) (s.rarNRbg * s.P)
        (toU32 rar.tbs) 0 dci).2) ∧
      (rarSched lib (s, out) i).1.pendingMsg3 =
        Function.update s.pendingMsg3 s.msg3Slot (s.answerOf i).msg3 ∧
      (rarSched lib (s, out) i).1.pendingRar =
        Function.update s.pendingRar ((s.sameTti (s.pendingRar i).rarTti).headD i)
          { (s.answerOf i).rar with bufRar := 0, rarTti := 0 } := by
  obtain ⟨hbuf, hroom, hwindow, hfree⟩ := h
  obtain ⟨loc, hloc⟩ := Option.isSome_iff_exists.mp ((generateDci_isSome lib s
    (s.rarLocations (s.currentCfi - 1) s.sfIdx) s.rarAggrLevel fun _ => false).mpr
    (by simpa using hfree))
  obtain ⟨t, n, hdci, -⟩ := generateDci_spec lib s
    (s.rarLocations (s.currentCfi - 1) s.sfIdx) s.rarAggrLevel fun _ => false
  obtain ⟨js, hsame⟩ := sameTti_self (s := s) hi
  have hnof : (s.answerOf i).nofSame = js.length + 1 := by
    unfold answerOf
    rw [hsame, List.length_cons]
  have hslot : ({ out.slot with dciLocation := loc, nofGrants := 0, tbs := 0 } :
    DlSchedRar).nofGrants = 0 := rfl
  have hgrants := rarGrants_first lib { s with cce := t, nofRand := n } i
    (s.pendingRar i).rarTti hslot List.nodup_range hsame
  have hans : (s.answerOf i) = ⟨s.pendingRar ((s.sameTti (s.pendingRar i).rarTti).headD i),
      js.length + 1⟩ := by
    rw [← hnof]
    rfl
  unfold rarSched
  simp only
  rw [if_pos ⟨hbuf, hroom⟩, if_pos hwindow]
  split
  · rename_i s1 hs1
    rw [hs1] at hloc
    cases hloc
  · rename_i loc' s1 hs1
    rw [hs1] at hloc hdci
    obtain rfl : loc' = loc := Option.some.inj hloc
    simp only at hdci
    subst hdci
    simp only [hgrants]
    rw [if_pos (generateFormat1a_nonneg lib _ _ _ _ _), hans]
    exact ⟨_, rfl, rfl, rfl, rfl, rfl, ⟨_, rfl⟩, rfl, rfl⟩

theorem rarSched_silent (out : Elems DlSchedRar) (h : ¬ s.Answers i) :
    (rarSched lib (s, out) i).2.done = out.done ∧
      (rarSched lib (s, out) i).1.pendingMsg3 = s.pendingMsg3 ∧
      (rarSched lib (s, out) i).1.pendingRar =
        if s.Discards i then
          Function.update s.pendingRar i { s.pendingRar i with bufRar := 0, rarTti := 0 }
        else s.pendingRar := by
  unfold rarSched
  simp only
  by_cases hdue : (s.pendingRar i).bufRar > 0 ∧ s.availRbg ≥ s.rarNRbg
  · rw [if_pos hdue]
    by_cases hwindow : s.inRarWindow (s.pendingRar i) = true
    · have hkept : ¬ s.Discards i := fun hd => absurd hwindow (by simp [hd.2.2])
      rw [if_pos hwindow, if_neg hkept]
      obtain ⟨t, n, hdci, -⟩ := generateDci_spec lib s
        (s.rarLocations (s.currentCfi - 1) s.sfIdx) s.rarAggrLevel fun _ => false
      split
      · rename_i s1 hs1
        rw [hs1] at hdci
        simp only at hdci
        subst hdci
        exact ⟨rfl, rfl, rfl⟩
      · rename_i loc s1 hs1
        have hsome := (generateDci_isSome lib s (s.rarLocations (s.currentCfi - 1) s.sfIdx)
          s.rarAggrLevel fun _ => false).mp (by rw [hs1]; rfl)
        exact absurd ⟨hdue.1, hdue.2, hwindow, by simpa using hsome⟩ h
    · rw [if_neg hwindow, if_pos ⟨hdue.1, hdue.2, by simpa using hwindow⟩]
      exact ⟨rfl, rfl, rfl⟩
  · rw [if_neg hdue, if_neg fun hd => hdue ⟨hd.1, hd.2.1⟩]
    exact ⟨rfl, rfl, rfl⟩

/-! ## The whole call -/

/-- What rounds emit and put into the slots. -/
structure RarRounds (st st' : Sched × Elems DlSchedRar) (as : List RarAnswer) : Prop where
  emits : st'.2.done.map (fun rar => (rar.grant, rar.nofGrants)) =
    st.2.done.map (fun rar => (rar.grant, rar.nofGrants)) ++
      as.map fun a => (st.1.rarGrantOf lib a, a.nofSame)
  msg3 : st'.1.pendingMsg3 =
    as.foldl (fun m a => Function.update m st.1.msg3Slot a.msg3) st.1.pendingMsg3
  cfg : st'.1.cfg = st.1.cfg
  currentTti : st'.1.currentTti = st.1.currentTti

theorem rarSched_rounds (st : Sched × Elems DlSchedRar) (hi : i < schedMaxPendingRar) :
    RarRounds lib st (rarSched lib st i) (if st.1.Answers i then [st.1.answerOf i] else []) := by
  obtain ⟨s, out⟩ := st
  obtain ⟨new, hrounds, -⟩ := rarSched_emits lib (s, out) i
  by_cases h : s.Answers i
  · obtain ⟨rar, hdone, hgrant, hnof, -, -, -, hmsg3, -⟩ := rarSched_answers lib out hi h
    rw [if_pos h]
    exact ⟨by simp [hdone, hgrant, hnof], hmsg3, hrounds.setup.cfg, hrounds.setup.currentTti⟩
  · obtain ⟨hdone, hmsg3, -⟩ := rarSched_silent lib out h
    rw [if_neg h]
    exact ⟨by simp [hdone], hmsg3, hrounds.setup.cfg, hrounds.setup.currentTti⟩

theorem RarRounds.trans {st st' st'' : Sched × Elems DlSchedRar} {as bs : List RarAnswer}
    (h : RarRounds lib st st' as) (h' : RarRounds lib st' st'' bs) :
    RarRounds lib st st'' (as ++ bs) where
  emits := by
    rw [h'.emits, h.emits, List.map_append, List.append_assoc]
    unfold rarGrantOf
    rw [h.cfg]
  msg3 := by
    rw [h'.msg3, h.msg3, List.foldl_append]
    unfold msg3Slot
    rw [h.currentTti]
  cfg := h'.cfg.trans h.cfg
  currentTti := h'.currentTti.trans h.currentTti

theorem rarSched_loop : ∀ (l : List Nat) (st : Sched × Elems DlSchedRar),
    (∀ i ∈ l, i < schedMaxPendingRar) →
      RarRounds lib st (l.foldl (rarSched lib) st) (answers lib l st)
  | [], _, _ => ⟨by simp [answers], rfl, rfl, rfl⟩
  | i :: l, st, h =>
    (rarSched_rounds lib st (h i List.mem_cons_self)).trans lib
      (rarSched_loop l _ fun j hj => h j (List.mem_cons_of_mem i hj))

/-- The answers of a call of `dl_sched_rar`. -/
def rarAnswers (s : Sched) : List RarAnswer :=
  answers lib (List.range schedMaxPendingRar) (s, ⟨[], default⟩)

theorem answers_pos : ∀ {l : List Nat} {st : Sched × Elems DlSchedRar},
    (∀ i ∈ l, i < schedMaxPendingRar) → ∀ a ∈ answers lib l st, 0 < a.nofSame
  | [], _, _, a, ha => by simp [answers] at ha
  | i :: l, st, hl, a, ha => by
    unfold answers at ha
    rcases List.mem_append.mp ha with ha | ha
    · split_ifs at ha
      · rw [List.mem_singleton.mp ha]
        obtain ⟨js, hsame⟩ := sameTti_self (s := st.1) (hl i List.mem_cons_self)
        unfold answerOf
        rw [hsame]
        exact Nat.succ_pos _
      · simp at ha
    · exact answers_pos (fun j hj => hl j (List.mem_cons_of_mem i hj)) a ha

theorem rarAnswers_pos (s : Sched) : ∀ a ∈ s.rarAnswers lib, 0 < a.nofSame :=
  answers_pos lib fun _ hi => List.mem_range.mp hi

/-- `dl_sched_rar` emits the grants of its answers, and the slot keeps the last of them. -/
theorem dlSchedRar_spec (s : Sched) :
    (s.dlSchedRar lib).2.map (fun rar => (rar.grant, rar.nofGrants)) =
        (s.rarAnswers lib).map (fun a => (s.rarGrantOf lib a, a.nofSame)) ∧
      (s.dlSchedRar lib).1.pendingMsg3 =
        (s.rarAnswers lib).foldl (fun m a => Function.update m s.msg3Slot a.msg3)
          s.pendingMsg3 := by
  have h := rarSched_loop lib (List.range schedMaxPendingRar) (s, ⟨[], default⟩)
    fun i hi => List.mem_range.mp hi
  exact ⟨h.emits, h.msg3⟩

/-! ## `dl_sched` -/

/-- The state in which `dl_sched` comes to `dl_sched_rar`. -/
def rarStart (s : Sched) (tti : Nat) (paging : Option Nat) : Sched :=
  ((s.dlStart tti).dlSchedBc lib paging).1

/-- Neither the responses that wait nor the slots of Msg3 are touched. -/
def RarKept (s s' : Sched) : Prop := s'.pendingMsg3 = s.pendingMsg3 ∧ s'.pendingRar = s.pendingRar

theorem RarKept.refl (s : Sched) : RarKept s s := ⟨rfl, rfl⟩

theorem RarKept.trans {s s' s'' : Sched} (h : RarKept s s') (h' : RarKept s' s'') :
    RarKept s s'' :=
  ⟨h'.1.trans h.1, h'.2.trans h.2⟩

theorem sibWindow_kept (s : Sched) (it : SibCfg × Nat) : RarKept s (sibWindow lib s it) := by
  unfold sibWindow
  simp only
  split_ifs <;> exact ⟨rfl, rfl⟩

theorem sibSched_kept (st : Sched × Elems DlSchedBc) (it : SibCfg × Nat) :
    RarKept st.1 (sibSched lib st it).1 := by
  obtain ⟨s, out⟩ := st
  obtain ⟨found, t, n, hdci, -⟩ := generateDci_eq lib s
    (s.commonLocations (s.currentCfi - 1)) s.bcAggrLevel fun _ => false
  simp only [sibSched, hdci]
  split_ifs
  · cases found with
    | none => exact ⟨rfl, rfl⟩
    | some loc =>
      simp only
      split_ifs <;> exact ⟨rfl, rfl⟩
  · exact RarKept.refl s

theorem pagingSched_kept (paging : Option Nat) (st : Sched × Elems DlSchedBc) :
    RarKept st.1 (pagingSched lib paging st).1 := by
  obtain ⟨s, out⟩ := st
  obtain ⟨found, t, n, hdci, -⟩ := generateDci_eq lib s
    (s.commonLocations (s.currentCfi - 1)) s.bcAggrLevel fun _ => false
  cases paging with
  | none => exact RarKept.refl s
  | some payload =>
    simp only [pagingSched, hdci]
    split_ifs
    · cases found with
      | none => exact ⟨rfl, rfl⟩
      | some loc =>
        simp only
        split_ifs <;> exact ⟨rfl, rfl⟩
    · exact RarKept.refl s

theorem rarStart_kept (s : Sched) (tti : Nat) (paging : Option Nat) :
    RarKept s (s.rarStart lib tti paging) := by
  have hwindow : ∀ (l : List (SibCfg × Nat)) (s : Sched),
      RarKept s (l.foldl (sibWindow lib) s) := by
    intro l
    induction l with
    | nil => exact RarKept.refl
    | cons it l ih => exact fun s => (sibWindow_kept lib s it).trans (ih _)
  have hsibs : ∀ (l : List (SibCfg × Nat)) (st : Sched × Elems DlSchedBc),
      RarKept st.1 (l.foldl (sibSched lib) st).1 := by
    intro l
    induction l with
    | nil => exact fun st => RarKept.refl st.1
    | cons it l ih => exact fun st => (sibSched_kept lib st it).trans (ih _)
  unfold rarStart dlSchedBc
  simp only
  exact ((hwindow _ (s.dlStart tti)).trans (hsibs _ _)).trans (pagingSched_kept lib paging _)

theorem Rounds.configured {s s' : Sched} {new : List DlAlloc} (h : Rounds s s' new) :
    s'.configured = s.configured := by
  obtain ⟨_, _, _, _, _, _, _, rfl⟩ := h.frame
  rfl

theorem dlSched_spec (s : Sched) (tti : Nat) (paging : Option Nat) (hs : s.configured = true) :
    ((s.dlSched lib tti paging).2.rar.map (fun rar => (rar.grant, rar.nofGrants)) =
        ((s.rarStart lib tti paging).rarAnswers lib).map
          fun a => (s.rarGrantOf lib a, a.nofSame)) ∧
      (s.dlSched lib tti paging).1.pendingMsg3 =
        ((s.rarStart lib tti paging).rarAnswers lib).foldl
          (fun m a => Function.update m ((tti + msg3DelayMs + harqDelayMs) % 10) a.msg3)
          s.pendingMsg3 ∧
      (s.dlSched lib tti paging).1.cfg = s.cfg ∧
      (s.dlSched lib tti paging).1.configured = s.configured := by
  obtain ⟨bc, hbc, -⟩ := dlSchedBc_emits lib (s.dlStart tti) paging
  have hmsg1 := (rarStart_kept lib s tti paging).1
  unfold rarStart at hmsg1 ⊢
  obtain ⟨s1, hs1⟩ : ∃ s1, ((s.dlStart tti).dlSchedBc lib paging).1 = s1 := ⟨_, rfl⟩
  rw [hs1] at hbc hmsg1 ⊢
  obtain ⟨rar, hrar, -⟩ := dlSchedRar_emits lib s1
  obtain ⟨hemits, hmsg3⟩ := dlSchedRar_spec lib s1
  obtain ⟨s2, hs2⟩ : ∃ s2, (s1.dlSchedRar lib).1 = s2 := ⟨_, rfl⟩
  rw [hs2] at hrar hmsg3
  obtain ⟨⟨m, db, st, s3, ⟨t, n, rfl, -⟩, hdata⟩, -⟩ := dlSchedData_spec lib s2
  unfold dlSched
  rw [if_neg (by simp [hs])]
  simp only [hs1, hs2, hdata]
  have hcfg1 : s1.cfg = s.cfg := hbc.setup.cfg
  have htti : s1.currentTti = tti := hbc.setup.currentTti
  refine ⟨?_, ?_, hrar.setup.cfg.trans hcfg1, hrar.configured.trans hbc.configured⟩
  · rw [hemits]
    unfold rarGrantOf
    rw [hcfg1]
  · rw [hmsg3, hmsg1]
    unfold msg3Slot
    rw [htti]

/-- The RAR elements of a call, and what they leave of `pending_rar`. -/
theorem dlSched_rar (s : Sched) (tti : Nat) (paging : Option Nat) (hs : s.configured = true) :
    (s.dlSched lib tti paging).2.rar = ((s.rarStart lib tti paging).dlSchedRar lib).2 ∧
      (s.dlSched lib tti paging).1.pendingRar =
        ((s.rarStart lib tti paging).dlSchedRar lib).1.pendingRar := by
  unfold rarStart
  obtain ⟨s1, hs1⟩ : ∃ s1, ((s.dlStart tti).dlSchedBc lib paging).1 = s1 := ⟨_, rfl⟩
  obtain ⟨s2, hs2⟩ : ∃ s2, (s1.dlSchedRar lib).1 = s2 := ⟨_, rfl⟩
  obtain ⟨⟨m, db, st, s3, ⟨t, n, rfl, -⟩, hdata⟩, -⟩ := dlSchedData_spec lib s2
  unfold dlSched
  rw [if_neg (by simp [hs])]
  simp only [hs1, hs2, hdata]
  exact ⟨trivial, trivial⟩

end Sched

end Srsenb.Mac
