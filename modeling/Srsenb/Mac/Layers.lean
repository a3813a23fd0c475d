import Srsenb.Mac.DlCalls

/-! # Transport blocks and layers

`generate_format2a` chooses by the rank which blocks may be new, and retransmits each block that is
not empty. -/

namespace Srsenb.Mac

/-- The block that a call sends, and its TBS, where `h` is the process before the round. -/
def HarqEvent.sent (h : DlHarqProc) : HarqEvent → Option (Fin 2 × Int)
  | newTx tb _ _ tbs _ => some (tb, tbs)
  | newRetx tb _ => some (tb, (h.tb tb).lastTbs)
  | _ => none

namespace SchedUe

/-- What the calls of a generator send. -/
def sentBlocks (lib : Lib) (u : SchedUe) (pid : Pid) (tti cfi : Nat) (format : DciFormat)
    (data : DlSchedData) : List (Fin 2 × Int) :=
  (u.formatCalls lib pid tti cfi format data).filterMap (HarqEvent.sent (u.dlHarq pid))

/-- A grant fits the layers: with one layer it enables one block at most, and the process goes
through the calls for one at most; it enables just the blocks that are sent with bytes. -/
structure FitsLayers (lib : Lib) (u : SchedUe) (pid : Pid) (tti cfi : Nat) (format : DciFormat)
    (data : DlSchedData) : Prop where
  process : ((Sched.generateFormat lib format u pid data tti cfi).1.dlHarq pid) =
    (u.formatCalls lib pid tti cfi format data).foldl DlHarqProc.step (u.dlHarq pid)
  oneEnabled : u.dlRi = 0 →
    ¬ ∀ tb, (Sched.generateFormat lib format u pid data tti cfi).2.1.dci.tbEn tb = true
  oneCalled : u.dlRi = 0 → (u.sentBlocks lib pid tti cfi format data).length ≤ 1
  enabled : ∀ tb, (Sched.generateFormat lib format u pid data tti cfi).2.1.dci.tbEn tb = true ↔
    ∃ tbs, 0 < tbs ∧ (tb, tbs) ∈ u.sentBlocks lib pid tti cfi format data

variable {lib : Lib} {u : SchedUe} {pid : Pid} {tti cfi : Nat} {data : DlSchedData} {tb : Fin 2}
  {format : DciFormat}

theorem calls_sent (a : BlockAct) (h : DlHarqProc) (tti nCce : Nat) :
    (a.calls tb tti nCce).filterMap (HarqEvent.sent h) =
      if a = .idle then [] else [(tb, a.tbs (h.tb tb))] := by
  cases a <;> simp [BlockAct.calls, HarqEvent.sent, BlockAct.tbs]

theorem sentBlocks_eq (lib : Lib) (u : SchedUe) (pid : Pid) (tti cfi : Nat) (format : DciFormat)
    (data : DlSchedData) : u.sentBlocks lib pid tti cfi format data =
      (List.filter (fun tb => u.acts lib pid tti cfi format data tb ≠ .idle) [0, 1]).map fun tb =>
        (tb, (u.acts lib pid tti cfi format data tb).tbs ((u.dlHarq pid).tb tb)) := by
  unfold sentBlocks formatCalls
  rw [List.filterMap_append, calls_sent, calls_sent, List.filter_cons, List.filter_cons,
    List.filter_nil]
  simp only [decide_not, Bool.not_eq_true', decide_eq_false_iff_not]
  split_ifs <;> rfl

theorem mem_sentBlocks {tbs : Int} : (tb, tbs) ∈ u.sentBlocks lib pid tti cfi format data ↔
    u.acts lib pid tti cfi format data tb ≠ .idle ∧
      (u.acts lib pid tti cfi format data tb).tbs ((u.dlHarq pid).tb tb) = tbs := by
  have htb : tb ∈ [(0 : Fin 2), 1] := by
    revert tb
    decide
  rw [sentBlocks_eq, List.mem_map]
  constructor
  · rintro ⟨b, hb, heq⟩
    obtain ⟨rfl, htbs⟩ := Prod.mk.inj heq
    exact ⟨by simpa using (List.mem_filter.mp hb).2, htbs⟩
  · rintro ⟨hact, rfl⟩
    exact ⟨tb, List.mem_filter.mpr ⟨htb, by simpa using hact⟩, rfl⟩

theorem length_sentBlocks : (u.sentBlocks lib pid tti cfi format data).length ≤ 1 ↔
    ¬ ∀ tb, u.acts lib pid tti cfi format data tb ≠ .idle := by
  rw [sentBlocks_eq, List.length_map, Fin.forall_fin_two, List.filter_cons, List.filter_cons,
    List.filter_nil]
  simp only [decide_not, Bool.not_eq_true', decide_eq_false_iff_not]
  split_ifs with h0 h1 h1 <;> simp [h0, h1]

theorem format2aTbAct_ne_idle {nofPrb nofRe : Nat} {tbEn noRetx : Bool} :
    u.format2aTbAct lib pid nofPrb nofRe tbEn noRetx tb ≠ .idle ↔
      (u.dlHarq pid).isEmpty tb = true →
        (tbEn && decide (u.getPendingDlNewData ≠ 0) && noRetx) = true := by
  unfold format2aTbAct newBlock
  split_ifs with hempty hnew <;> simp_all

/-- A block that is not empty is sent, one that is empty only if it is enabled. -/
theorem acts_ne_idle (hf : format = .format2 ∨ format = .format2a) :
    u.acts lib pid tti cfi format data tb ≠ .idle →
      (u.dlHarq pid).isEmpty tb = true → u.format2aTbEn (u.dlHarq pid) tb = true := by
  intro hact hempty
  have hact' : ∀ v : SchedUe, (v.dlHarq pid).isEmpty tb = true →
      v.format2aTbAct lib pid (format1CountPrb lib (u.dlHarq pid).rbgmask u.cell.nofPrb)
        (u.maskNofRe lib pid tti cfi) (u.format2aTbEn (u.dlHarq pid) tb)
        (u.format2aNoRetx (u.dlHarq pid)) tb ≠ .idle →
      u.format2aTbEn (u.dlHarq pid) tb = true := by
    intro v hv hne
    have hnew := format2aTbAct_ne_idle.mp hne hv
    simp only [Bool.and_eq_true] at hnew
    exact hnew.1.1
  obtain rfl | rfl := hf
  all_goals
    simp only [acts] at hact
    split_ifs at hact with htb
    · exact hact' u hempty hact
    · exact hact' _ ((format2aFirst_isEmpty cfi htb).trans hempty) hact

theorem acts_not_empty (hf : format = .format2 ∨ format = .format2a)
    (hne : (u.dlHarq pid).isEmpty tb = false) :
    u.acts lib pid tti cfi format data tb ≠ .idle := by
  obtain rfl | rfl := hf
  all_goals
    simp only [acts]
    split_ifs with htb
    · rw [format2aTbAct_ne_idle, hne]
      exact fun h => (Bool.false_ne_true h).elim
    · rw [format2aTbAct_ne_idle, format2aFirst_isEmpty cfi htb, hne]
      exact fun h => (Bool.false_ne_true h).elim

/-- With one layer, both blocks are sent where both are not empty. -/
theorem acts_both (hf : format = .format2 ∨ format = .format2a) (hri : u.dlRi = 0) :
    (∀ tb, u.acts lib pid tti cfi format data tb ≠ .idle) ↔
      ∀ tb, (u.dlHarq pid).isEmpty tb = false := by
  constructor
  · intro h
    -- Block 1 is enabled where it is not empty, and then block 0 is not.
    have h1 : (u.dlHarq pid).isEmpty 1 = false := by
      by_contra hempty
      have hen := acts_ne_idle hf (h 1) (by simpa using hempty)
      simp [format2aTbEn, hri, hempty] at hen
    have h0 : (u.dlHarq pid).isEmpty 0 = false := by
      by_contra hempty
      have hen := acts_ne_idle hf (h 0) (by simpa using hempty)
      simp [format2aTbEn, hri, h1] at hen
    rw [Fin.forall_fin_two]
    exact ⟨h0, h1⟩
  · exact fun h tb => acts_not_empty hf (h tb)

theorem fitsLayers_iff (lib : Lib) (u : SchedUe) (pid : Pid) (tti cfi : Nat) (data : DlSchedData)
    (hf : format = .format2 ∨ format = .format2a) :
    u.FitsLayers lib pid tti cfi format data ↔
      ¬ (u.dlRi = 0 ∧ ∀ tb, (u.dlHarq pid).isEmpty tb = false) := by
  have hgrant := generateFormat_grantOf lib u pid data tti cfi
    (by obtain rfl | rfl := hf <;> exact DciFormat.noConfusion : format ≠ .format0)
  have henabled : ∀ tb,
      (Sched.generateFormat lib format u pid data tti cfi).2.1.dci.tbEn tb = true ↔
        ∃ tbs, 0 < tbs ∧ (tb, tbs) ∈ u.sentBlocks lib pid tti cfi format data := by
    intro tb
    rw [hgrant.tbEn tb]
    constructor
    · refine fun hpos => ⟨_, hpos, mem_sentBlocks.mpr ⟨fun hidle => ?_, rfl⟩⟩
      rw [hidle] at hpos
      exact absurd hpos (lt_irrefl 0)
    · rintro ⟨tbs, hpos, hmem⟩
      rwa [(mem_sentBlocks.mp hmem).2]
  constructor
  · rintro h ⟨hri, hne⟩
    exact length_sentBlocks.mp (h.oneCalled hri) ((acts_both hf hri).mpr hne)
  · intro hone
    have hcalled : u.dlRi = 0 → ¬ ∀ tb, u.acts lib pid tti cfi format data tb ≠ .idle :=
      fun hri hall => hone ⟨hri, (acts_both hf hri).mp hall⟩
    refine ⟨?_, fun hri hen => hcalled hri fun tb => ?_, fun hri => ?_, henabled⟩
    · rw [hgrant.dlHarq, Function.update_self]
      rfl
    · obtain ⟨tbs, -, hmem⟩ := (henabled tb).mp (hen tb)
      exact (mem_sentBlocks.mp hmem).1
    · exact length_sentBlocks.mpr (hcalled hri)

/-- **One layer carries one transport block**, exactly where the rank is not 0 or one of the
blocks is empty. -/
theorem fits_layers_iff (lib : Lib) (u : SchedUe) (pid : Pid) (tti cfi : Nat)
    (data : DlSchedData) :
    (u.FitsLayers lib pid tti cfi .format2a data ↔
      ¬ (u.dlRi = 0 ∧ ∀ tb, (u.dlHarq pid).isEmpty tb = false)) ∧
    (u.FitsLayers lib pid tti cfi .format2 data ↔
      ¬ (u.dlRi = 0 ∧ ∀ tb, (u.dlHarq pid).isEmpty tb = false)) :=
  ⟨fitsLayers_iff lib u pid tti cfi data (Or.inr rfl),
    fitsLayers_iff lib u pid tti cfi data (Or.inl rfl)⟩

/-- A user that sent two blocks on two layers, and then reported one. -/
def oneLayerLeft : SchedUe :=
  { SchedUe.new.setCfg exampleLib 70 { maxharqTx := 4 } [] ⟨6, 1, 7⟩ fun _ _ =>
      ⟨fun _ _ => 0, fun _ => 0⟩ with
    dlRi := 0
    dlHarq := fun i => { id := i.val, maxRetx := 4, rbgmask := 3,
                         tb := fun _ => { active := true, lastTbs := 15 } } }

theorem not_fits_layers_oneLayerLeft :
    ¬ ∀ (lib : Lib) (u : SchedUe) (pid : Pid) (tti cfi : Nat) (data : DlSchedData),
      u.FitsLayers lib pid tti cfi .format2a data := by
  intro h
  exact absurd ((h exampleLib oneLayerLeft 0 8 1 {}).oneCalled rfl) (by decide)

end SchedUe

end Srsenb.Mac
