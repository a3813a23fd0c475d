import Srsenb.Mac.DataBounds
import Srsenb.Mac.DlRbgs

/-! # Data before a PRACH in a narrow cell

`dl_sched_data` sets `start_rbg` to the number of RBGs left. `new_tti` adds the two, so the metric
has twice as many RBGs and marks the upper half of them. -/

namespace Srsenb.Mac

open StdMap

namespace DlMetric

variable {lib : Lib} {a ctrl tti : Nat} {m : DlMetric} {u : SchedUe}

/-- What keeps a user without an allocation when `a` of `2 * a` RBGs are marked: a pending
retransmission meets the marked ones and is as large as the rest, and new data has no process, no
bytes or no RBGs. -/
structure NothingFits (lib : Lib) (a ctrl tti : Nat) (u : SchedUe) : Prop where
  retx : ∀ pid, u.getPendingDlHarq lib tti = some pid →
    (∃ b, a ≤ b ∧ b < 2 * a ∧ (u.dlHarq pid).rbgmask.testBit b = true) ∧
      a ≤ countRbg (u.dlHarq pid).rbgmask
  newtx : u.getEmptyDlHarq ≠ none → u.getPendingDlNewDataTotal ≠ 0 → a = 0 ∨
    u.prbToRbg (u.getRequiredPrbDl lib u.getPendingDlNewDataTotal ctrl) = 0

theorem allocationIsValid_start (m : DlMetric) (ctrl tti : Nat) {mask : Nat} :
    (m.start a a ctrl tti).allocationIsValid mask = true ↔
      ∃ b, a ≤ b ∧ b < 2 * a ∧ mask.testBit b = true := by
  have hmeets : (m.start a a ctrl tti).allocationIsValid mask = true ↔
      ¬ Disjoint (bits mask) (bits (m.start a a ctrl tti).usedRbgMask) := by
    simp [allocationIsValid, disjoint_bits_iff]
  rw [hmeets, start_mask, Set.not_disjoint_iff]
  constructor
  · rintro ⟨b, hbit, h1, h2⟩
    exact ⟨b, h1, by omega, hbit⟩
  · rintro ⟨b, h1, h2, hbit⟩
    exact ⟨b, hbit, h1, by omega⟩

theorem newAllocation_start (n : Nat) : ((m.start a a ctrl tti).newAllocation n).1 = true ↔
    n ≤ a := by
  have htotal : (m.start a a ctrl tti).totalRbg = a + a := rfl
  simp only [newAllocation, takeFree_left, htotal, start_free, decide_eq_true_eq]
  omega

theorem retxAllocation_start : (m.start a a ctrl tti).retxAllocation lib u = none ↔
    ∀ pid, u.getPendingDlHarq lib tti = some pid →
      (∃ b, a ≤ b ∧ b < 2 * a ∧ (u.dlHarq pid).rbgmask.testBit b = true) ∧
        a ≤ countRbg (u.dlHarq pid).rbgmask := by
  have htti : (m.start a a ctrl tti).currentTti = tti := rfl
  have havail : (m.start a a ctrl tti).availableRbg = a := rfl
  simp only [retxAllocation, htti, havail]
  cases hpid : u.getPendingDlHarq lib tti with
  | none => simp
  | some pid =>
    simp only [Option.some.injEq, forall_eq']
    rw [← allocationIsValid_start m ctrl tti]
    cases hmeets : (m.start a a ctrl tti).allocationIsValid (u.dlHarq pid).rbgmask with
    | false => simp
    | true =>
      simp only [Bool.not_true, Bool.false_eq_true, if_false, true_and]
      split_ifs with hroom hfits
      · simp [hroom]
      · exact absurd ((newAllocation_start _).mpr hroom.le) hfits
      · simp [Nat.not_lt.mp hroom]

theorem newtxAllocation_start (reqBytes : Nat) :
    (m.start a a ctrl tti).newtxAllocation lib u reqBytes = none ↔
      (u.getEmptyDlHarq ≠ none → reqBytes ≠ 0 → a = 0 ∨
        u.prbToRbg (u.getRequiredPrbDl lib reqBytes ctrl) = 0) := by
  have hfull : (∀ n < (m.start a a ctrl tti).totalRbg,
      (m.start a a ctrl tti).usedRbg n = true) ↔ a = 0 := by
    constructor
    · intro h
      by_contra ha
      have hlast := h a (by simp only [start]; omega)
      simp [start, Nat.pos_of_ne_zero ha] at hlast
    · rintro rfl n hn
      simp [start] at hn
  have hctrl : (m.start a a ctrl tti).nofCtrlSymbols = ctrl := rfl
  simp only [newtxAllocation, hctrl]
  cases u.getEmptyDlHarq with
  | none => simp
  | some pid =>
    simp only [ne_eq, newAllocation_eq_zero, hfull]
    split_ifs with hreq hmask
    · simp [hreq]
    · simpa [hreq] using hmask.symm
    · simpa [hreq, and_comm] using hmask

theorem applyUserAllocation_start : (m.start a a ctrl tti).applyUserAllocation lib u = none ↔
    NothingFits lib a ctrl tti u := by
  have hsplit : (m.start a a ctrl tti).applyUserAllocation lib u = none ↔
      (m.start a a ctrl tti).retxAllocation lib u = none ∧
        (m.start a a ctrl tti).newtxAllocation lib u u.getPendingDlNewDataTotal = none := by
    unfold applyUserAllocation
    cases (m.start a a ctrl tti).retxAllocation lib u <;> simp
  rw [hsplit, retxAllocation_start, newtxAllocation_start]
  exact ⟨fun h => ⟨h.1, h.2⟩, fun h => ⟨h.retx, h.newtx⟩⟩

/-! ## All users -/

/-- The metric while it goes over the users: it serves one of those in `done` unless none fits. -/
structure Idle (lib : Lib) (a ctrl tti : Nat) (m : DlMetric) (db0 : StdMap SchedUe)
    (done : List Nat) (m' : DlMetric) (db : StdMap SchedUe) : Prop where
  rest : ∀ k ∉ done, db[k]? = db0[k]?
  known : ∀ k : Nat, db0[k]? = none ↔ db[k]? = none
  served : (∀ k ∈ done, ∀ u : SchedUe, db[k]? = some u → u.dlNextAlloc = none) ↔
    ∀ k ∈ done, ∀ u : SchedUe, db0[k]? = some u → NothingFits lib a ctrl tti u
  start : (∀ k ∈ done, ∀ u : SchedUe, db0[k]? = some u → NothingFits lib a ctrl tti u) →
    m' = m.start a a ctrl tti

variable {db0 db : StdMap SchedUe} {done : List Nat} {m' : DlMetric} {k : Nat}

theorem visitUser_none : (visitUser lib m k u).2.dlNextAlloc = none ↔
    m.applyUserAllocation lib u = none := by
  unfold visitUser
  cases m.applyUserAllocation lib u <;> simp

theorem idle_step (h : Idle lib a ctrl tti m db0 done m' db) (hk : k ∉ done)
    (hu : db[k]? = some u) :
    Idle lib a ctrl tti m db0 (k :: done) (visitUser lib m' k u).1
      (db.insert k (visitUser lib m' k u).2) := by
  have hu0 : db0[k]? = some u := h.rest k hk ▸ hu
  have hother : ∀ l ∈ done, (db.insert k (visitUser lib m' k u).2)[l]? = db[l]? := by
    intro l hl
    rw [getElem?_insert, if_neg]
    rintro rfl
    exact hk hl
  have hfits : (∀ l ∈ k :: done, ∀ v : SchedUe, db0[l]? = some v → NothingFits lib a ctrl tti v) ↔
      NothingFits lib a ctrl tti u ∧
        ∀ l ∈ done, ∀ v : SchedUe, db0[l]? = some v → NothingFits lib a ctrl tti v := by
    simp [hu0]
  refine ⟨fun l hl => ?_, fun l => ?_, ?_, fun hall => ?_⟩
  · rw [getElem?_insert, if_neg (Ne.symm (List.ne_of_not_mem_cons hl))]
    exact h.rest l (List.not_mem_of_not_mem_cons hl)
  · rw [getElem?_insert]
    split_ifs with hkl
    · simp [← hkl, hu0]
    · exact h.known l
  · rw [hfits]
    have hnone : (∀ l ∈ k :: done, ∀ v : SchedUe,
        (db.insert k (visitUser lib m' k u).2)[l]? = some v → v.dlNextAlloc = none) ↔
        m'.applyUserAllocation lib u = none ∧
          ∀ l ∈ done, ∀ v : SchedUe, db[l]? = some v → v.dlNextAlloc = none := by
      rw [List.forall_mem_cons, getElem?_insert, if_pos rfl]
      refine and_congr (by simp [visitUser_none]) (forall₂_congr fun l hl => ?_)
      rw [hother l hl]
    rw [hnone, h.served]
    refine and_congr_left fun hall => ?_
    rw [h.start hall, applyUserAllocation_start]
  · obtain ⟨hmine, hrest⟩ := hfits.mp hall
    obtain rfl := h.start hrest
    have hnone := applyUserAllocation_start (m := m).mpr hmine
    simp only [visitUser, hnone]

theorem idle_skip (h : Idle lib a ctrl tti m db0 done m' db) (hk : db[k]? = none) :
    Idle lib a ctrl tti m db0 (k :: done) m' db := by
  have hk0 : db0[k]? = none := (h.known k).mpr hk
  refine ⟨fun l hl => h.rest l (List.not_mem_of_not_mem_cons hl), h.known, ?_,
    fun hall => h.start fun l hl => hall l (List.mem_cons_of_mem k hl)⟩
  simpa [hk, hk0] using h.served

/-- **The guard keeps the metric idle** if and only if nothing fits in the half that is free. -/
theorem newTti_idle_iff (lib : Lib) (m : DlMetric) (db : StdMap SchedUe) (a ctrl tti : Nat) :
    (∀ (k : Nat) (u : SchedUe), (m.newTti lib db a a ctrl tti).2[k]? = some u →
      u.dlNextAlloc = none) ↔
    ∀ (k : Nat) (u : SchedUe), db[k]? = some u → NothingFits lib a ctrl tti u := by
  have hrun := visit_inv (f := visitUser lib)
    (fun done m1 db1 => Idle lib a ctrl tti m db done m1 db1)
    (fun done m1 db1 k u h hk hu => idle_step h hk hu)
    (fun done m1 db1 k h hk => idle_skip h hk)
    (fromPriority db (tti % db.size)) [] (m.start a a ctrl tti) db
    (List.nodup_rotate.mpr (nodup_keys db)) (by simp)
    ⟨fun _ _ => rfl, fun _ => Iff.rfl, by simp, fun _ => rfl⟩
  rw [List.append_nil] at hrun
  have hmem : ∀ k : Nat, k ∉ (fromPriority db (tti % db.size)).reverse → db[k]? = none := by
    intro k hk
    apply getElem?_of_notMem_keys
    simpa [fromPriority] using hk
  constructor
  · intro h k u hu
    refine hrun.served.mp (fun l _ v hv => h l v hv) k ?_ u hu
    by_contra hk
    rw [hmem k hk] at hu
    cases hu
  · intro h k u hu
    refine hrun.served.mpr (fun l _ v hv => h l v hv) k ?_ u hu
    by_contra hk
    have hnone : (m.newTti lib db a a ctrl tti).2[k]? = none := (hrun.known k).mp (hmem k hk)
    rw [hnone] at hu
    cases hu

end DlMetric

namespace Sched

variable (lib : Lib) {s : Sched}

/-! ## A call -/

/-- The round of a user leads to no grant: the user has no allocation, or no DCI candidate is free,
or none of the blocks carries a byte. -/
def Unsent (st : Sched × Elems DlSchedData) (u : SchedUe) : Prop :=
  ∀ pid loc, u.dlNextAlloc = some pid →
    (st.1.generateDci lib (u.getLocations st.1.currentCfi st.1.sfIdx)
      (u.getAggrLevel lib
        (lib.dciFormatSizeof .format1 st.1.cfg.cell.nofPrb st.1.cfg.cell.nofPorts))
      (u.pucchSrCollision lib st.1.currentTti)).1 = some loc →
    ∀ tb, (u.acts lib pid st.1.currentTti st.1.currentCfi u.getDciFormat
      { st.2.slot with dciFormat := u.getDciFormat, dciLocation := loc } tb).tbs
        ((u.dlHarq pid).tb tb) ≤ 0

theorem granted_false_iff (st : Sched × Elems DlSchedData) (u : SchedUe) :
    (st.1.dataRound lib st.2.slot u).granted = false ↔ Unsent lib st u := by
  unfold dataRound Unsent
  simp only
  split
  · rename_i pid loc hpid hloc
    simp [hpid, hloc]
  · rename_i hnot
    simp only [true_iff]
    intro pid loc hpid hloc
    exact absurd hloc (hnot pid loc hpid)

/-- No grant leaves `dl_sched_data` if and only if no round leads to one. -/
theorem dlSchedData_nil_iff (s : Sched) : (s.dlSchedData lib).2 = [] ↔
    EachRound (dataUser lib) (s.dataStart lib).1 (s.dataStart lib).2 fun st _ u =>
      Unsent lib st u := by
  have hcount := counter_keys (dataUser lib) (fun st => st.2.done.length)
    (fun k => (s.dataRoundOf lib k).granted) (m := (s.dataStart lib).2)
    (s := (s.dataStart lib).1) rfl fun k u hu => by
      rw [dataRoundOf_eq lib hu]
      exact (dataUser_filled lib _ k u).done
  have hres : (s.dlSchedData lib).2 = ((s.dataStart lib).2.visit (dataUser lib)
      (s.dataStart lib).2.keys (s.dataStart lib).1).1.2.done := rfl
  rw [← List.length_eq_zero_iff, hres, hcount, List.length_eq_zero_iff, List.filter_eq_nil_iff]
  constructor
  · intro h k u hu
    have hk := h k (mem_keys.mpr (by rw [hu]; rfl))
    rw [dataRoundOf_eq lib hu, Bool.not_eq_true, granted_false_iff] at hk
    exact hk
  · intro h k hk
    obtain ⟨u, hu⟩ := Option.isSome_iff_exists.mp (mem_keys.mp hk)
    rw [dataRoundOf_eq lib hu, Bool.not_eq_true, granted_false_iff]
    exact h k u hu

/-- A retransmission waits, broadcast and paging have left two RBGs, and PRACH is in subframe 4. -/
def beforePrach (mask : Nat) : Sched :=
  { exampleWaiting mask with currentTti := 20, availRbg := 2, startRbg := 4, currentCfi := 3 }

end Sched

end Srsenb.Mac
