import Srsenb.Mac.RbgMasks
import Srsenb.Mac.RoundRobin
import Srsenb.Mac.UlMetricSpec

/-! # Nobody is passed over

Where a metric gives a user nothing, nothing was left for it. With the round robin this serves
each user that has data in as many TTIs as there are users. -/

namespace Srsenb.Mac

open StdMap

/-! ## Downlink -/

namespace DlMetric

/-- RBGs that the new data of a user needs. -/
def wantedRbgs (lib : Lib) (u : SchedUe) (nofCtrlSymbols : Nat) : Nat :=
  u.prbToRbg (u.getRequiredPrbDl lib u.getPendingDlNewDataTotal nofCtrlSymbols)

/-- New data, and a process for it. -/
structure WantsNew (lib : Lib) (nofCtrlSymbols : Nat) (u : SchedUe) : Prop where
  data : u.getPendingDlNewDataTotal ≠ 0
  rbgs : wantedRbgs lib u nofCtrlSymbols ≠ 0
  proc : u.getEmptyDlHarq.isSome = true

def AllUsed (m : DlMetric) : Prop := ∀ n < m.totalRbg, m.usedRbg n = true

/-- The mask meets RBGs in use, and there is no room for one of its size. -/
def Crowded (m : DlMetric) (mask : Nat) : Prop :=
  mask &&& m.usedRbgMask ≠ 0 ∧ (m.availableRbg ≤ countRbg mask ∨ m.freeRbgs.length < countRbg mask)

/-- What a user goes without, nothing is left of. -/
structure Conserves (lib : Lib) (m : DlMetric) (u u' : SchedUe) : Prop where
  newData : u'.dlNextAlloc = none → WantsNew lib m.nofCtrlSymbols u → AllUsed m
  retx : ∀ pid, u.getPendingDlHarq lib m.currentTti = some pid → u'.dlNextAlloc ≠ some pid →
    Crowded m (u.dlHarq pid).rbgmask

variable {lib : Lib} {m : DlMetric} {u u' : SchedUe} {mask a : Nat}

/-- RBGs in use stay in use. -/
theorem usedRbg_update (hs : Synced m) {n : Nat} (hn : n < m.totalRbg)
    (h : m.usedRbg n = true) : (m.updateAllocation mask).usedRbg n = true := by
  rw [hs n hn] at h
  simp only [updateAllocation, hn, if_true, Nat.testBit_or, h, Bool.true_or]

theorem freeRbgs_update (hs : Synced m) :
    (m.updateAllocation mask).freeRbgs.length ≤ m.freeRbgs.length := by
  simp only [freeRbgs, ← List.countP_eq_length_filter]
  refine List.countP_mono_left fun n hn hfree => ?_
  by_contra h
  have hused : m.usedRbg n = true := by simpa using h
  rw [usedRbg_update hs (List.mem_range.mp hn) hused] at hfree
  cases hfree

theorem Crowded.update (hs : Synced m) (h : Crowded m a) :
    Crowded (m.updateAllocation mask) a := by
  refine ⟨fun h0 => h.1 ?_, h.2.imp_right (freeRbgs_update hs).trans_lt⟩
  rw [← disjoint_bits_iff] at h0 ⊢
  rw [updateAllocation_mask, bits_or] at h0
  exact h0.mono_right Set.subset_union_left

theorem Conserves.update (hs : Synced m) (h : Conserves lib m u u') :
    Conserves lib (m.updateAllocation mask) u u' where
  newData hnone hwants := fun n hn => usedRbg_update hs hn (h.newData hnone hwants n hn)
  retx pid hpid hne := (h.retx pid hpid hne).update hs

theorem visitUser_metric (lib : Lib) (m : DlMetric) (k : Nat) (u : SchedUe) :
    (visitUser lib m k u).1 = m ∨ ∃ mask, (visitUser lib m k u).1 = m.updateAllocation mask := by
  unfold visitUser
  split
  · rename_i pid m' u' h
    obtain ⟨mask, hout⟩ := applyUserAllocation_spec h
    exact Or.inr ⟨mask, hout.metric⟩
  · exact Or.inl rfl

theorem visitUser_synced (k : Nat) (u : SchedUe) (hs : Synced m) :
    Synced (visitUser lib m k u).1 := by
  rcases visitUser_metric lib m k u with h | ⟨mask, h⟩
  · rwa [h]
  · rw [h]
    exact synced_updateAllocation

/-- A pending retransmission waits where its mask is taken and no other one fits. -/
theorem retxAllocation_none {pid : Pid} (h : m.retxAllocation lib u = none)
    (hpid : u.getPendingDlHarq lib m.currentTti = some pid) :
    Crowded m (u.dlHarq pid).rbgmask := by
  simp only [retxAllocation, hpid] at h
  split_ifs at h with hvalid hroom hfits
  · refine ⟨by simpa [allocationIsValid] using hvalid, Or.inr ?_⟩
    rw [← Nat.not_le, ← newAllocation_fits]
    exact hfits
  · exact ⟨by simpa [allocationIsValid] using hvalid, Or.inl (Nat.not_lt.mp hroom)⟩

/-- A retransmission is of the pending process. -/
theorem retxAllocation_some {pid : Pid} {m' : DlMetric}
    (h : m.retxAllocation lib u = some (pid, m', u')) :
    u.getPendingDlHarq lib m.currentTti = some pid := by
  unfold retxAllocation at h
  split at h
  · cases h
  · rename_i i hi
    rw [hi]
    simp only at h
    split_ifs at h <;> simp only [Option.some.injEq, Prod.mk.injEq] at h <;> rw [h.1]

theorem newtxAllocation_none (hw : WantsNew lib m.nofCtrlSymbols u)
    (h : m.newtxAllocation lib u u.getPendingDlNewDataTotal = none) : AllUsed m := by
  obtain ⟨pid, hpid⟩ := Option.isSome_iff_exists.mp hw.proc
  simp only [newtxAllocation, hpid, if_pos hw.data] at h
  split_ifs at h with hmask
  rw [not_not, newAllocation_eq_zero] at hmask
  exact hmask.resolve_left hw.rbgs

/-- A retransmission waits where another process is given to its user, or none. -/
theorem crowded_of_apply {r : Option (Pid × DlMetric × SchedUe)} {pid : Pid}
    (h : m.applyUserAllocation lib u = r) (hpid : u.getPendingDlHarq lib m.currentTti = some pid)
    (hne : r.map Prod.fst ≠ some pid) : Crowded m (u.dlHarq pid).rbgmask := by
  cases hretx : m.retxAllocation lib u with
  | none => exact retxAllocation_none hretx hpid
  | some r1 =>
    simp only [applyUserAllocation, hretx] at h
    subst h
    obtain ⟨i, m', u'⟩ := r1
    refine absurd ?_ hne
    rw [Option.map_some, ← retxAllocation_some hretx, hpid]

/-- One round. -/
theorem visitUser_conserves (k : Nat) (u : SchedUe) (hs : Synced m) :
    Conserves lib (visitUser lib m k u).1 u (visitUser lib m k u).2 := by
  cases h : m.applyUserAllocation lib u with
  | none =>
    simp only [visitUser, h]
    refine ⟨fun _ hw => ?_, fun pid hpid _ => crowded_of_apply h hpid (by simp)⟩
    simp only [applyUserAllocation] at h
    split at h
    · cases h
    · exact newtxAllocation_none hw h
  | some r =>
    obtain ⟨pid, m', u'⟩ := r
    simp only [visitUser, h]
    obtain ⟨mask, hout⟩ := applyUserAllocation_spec h
    rw [hout.metric]
    exact ⟨by simp, fun i hi hne => (crowded_of_apply h hi hne).update hs⟩

/-- A round that gives nothing takes nothing. -/
theorem visitUser_unchanged {k : Nat} (h : (visitUser lib m k u).2.dlNextAlloc = none) :
    (visitUser lib m k u).1 = m := by
  unfold visitUser at h ⊢
  split
  · rename_i happly
    rw [happly] at h
    cases h
  · rfl

end DlMetric

/-! ## Uplink -/

namespace UlMetric

/-- Data for a TTI whose process is empty. -/
structure WantsNew (lib : Lib) (tti : Nat) (u : SchedUe) : Prop where
  data : u.getPendingUlNewData lib tti ≠ 0
  empty : (u.ulHarq (SchedUe.getUlHarq tti)).isEmpty 0 = true

/-- No PRB from 2 on is free. -/
def Full (m : UlMetric) : Prop := ∀ n, 2 ≤ n → n < m.nofRb → m.usedRb n = true

variable {lib : Lib} {m : UlMetric} {u u' : SchedUe} {tti : Nat}

/-- Where the search comes back with nothing, free PRBs are dropped at the lower edge alone. -/
theorem freeRun_eq_zero {used : Nat → Bool} {L : Nat} (hL : 0 < L) :
    ∀ {ns : List Nat} {a : UlAlloc}, ns.Pairwise (· < ·) → (freeRun used L ns a).L = 0 →
      (∀ n ∈ ns, used n = false → n < 2) ∧ (0 < a.L → ∃ n ∈ ns, n < 3)
  | [], a, _, h => ⟨nofun, fun ha => absurd h (Nat.ne_of_gt ha)⟩
  | n :: ns, a, hns, h => by
    obtain ⟨hlt, hns'⟩ := List.pairwise_cons.mp hns
    rw [freeRun] at h
    by_cases hfew : a.L < L
    · rw [if_pos hfew] at h
      cases hn : used n with
      | false =>
        rw [hn, Bool.not_false, if_pos rfl] at h
        obtain ⟨hrest, hdrop⟩ := freeRun_eq_zero hL hns' h
        obtain ⟨l, hl, hl3⟩ := hdrop (Nat.succ_pos _)
        have hnl := hlt l hl
        refine ⟨fun i hi hfree => ?_, fun _ => ⟨l, List.mem_cons_of_mem n hl, hl3⟩⟩
        rcases List.mem_cons.mp hi with rfl | hi
        · omega
        · exact hrest i hi hfree
      | true =>
        have hskip : (∀ i ∈ ns, used i = false → i < 2) →
            ∀ i ∈ n :: ns, used i = false → i < 2 := by
          intro hrest i hi hfree
          rcases List.mem_cons.mp hi with rfl | hi
          · rw [hn] at hfree
            cases hfree
          · exact hrest i hi hfree
        rw [hn, Bool.not_true, if_neg Bool.false_ne_true] at h
        split_ifs at h with hrun hedge
        · exact ⟨hskip (freeRun_eq_zero hL hns' h).1, fun _ => ⟨n, List.mem_cons_self, hedge⟩⟩
        · exact absurd h (Nat.ne_of_gt hrun)
        · exact ⟨hskip (freeRun_eq_zero hL hns' h).1, fun ha => absurd ha hrun⟩
    · rw [if_neg hfew] at h
      omega

theorem shrink_pos (hone : lib.validPrb 1 = true) : ∀ {L : Nat}, 0 < L → 0 < shrink lib L
  | 1, _ => by simp [shrink, hone]
  | L + 2, _ => by
    rw [shrink]
    split_ifs
    · exact Nat.succ_pos _
    · exact shrink_pos hone (Nat.succ_pos L)

/-- Nothing is found in a full cell alone. -/
theorem full_of_newAllocation (hone : lib.validPrb 1 = true) {L : Nat} (hL : 0 < L)
    (h : (m.newAllocation lib L).2.L = 0) : Full m := by
  have hrun : (freeRun m.usedRb L (List.range m.nofRb) {}).L = 0 := by
    by_contra hne
    simp only [newAllocation, hne, if_false] at h
    exact Nat.ne_of_gt (shrink_pos hone (Nat.pos_of_ne_zero hne)) h
  intro n hn hlt
  by_contra hfree
  have := (freeRun_eq_zero hL List.pairwise_lt_range hrun).1 n (List.mem_range.mpr hlt)
    (by simpa using hfree)
  omega

/-- New data asks for a PRB at least. -/
theorem getRequiredPrbUl_pos {reqBytes : Nat} (h : reqBytes ≠ 0) :
    0 < u.getRequiredPrbUl lib reqBytes := by
  have hfirst : ∀ {fuel n nbytes : Nat}, n ≤ u.requiredPrbUl lib reqBytes fuel n nbytes := by
    intro fuel
    induction fuel with
    | zero => exact fun {n _} => le_rfl
    | succ fuel ih =>
      intro n nbytes
      rw [SchedUe.requiredPrbUl]
      split_ifs
      · exact (Nat.le_succ n).trans ih
      · exact le_rfl
  have hsecond : ∀ {fuel n : Nat}, n ≤ SchedUe.nextValidPrb lib u.cell.nofPrb fuel n := by
    intro fuel
    induction fuel with
    | zero => exact fun {n} => le_rfl
    | succ fuel ih =>
      intro n
      rw [SchedUe.nextValidPrb]
      split_ifs
      · exact (Nat.le_succ n).trans ih
      · exact le_rfl
  rw [SchedUe.getRequiredPrbUl, if_neg h]
  exact hfirst.trans hsecond

theorem needsCqi_fst (lib : Lib) (u : SchedUe) (tti : Nat) : (u.needsCqi lib tti false).1 =
    (u.phyConfigDedicatedEnabled && decide (u.cfg.aperiodicCqiPeriod ≠ 0) &&
      decide (u.getPendingDlNewData > 0) &&
      decide (lib.ttiInterval tti u.dlCqiTti ≥ u.cfg.aperiodicCqiPeriod) &&
      decide (lib.ttiInterval tti u.cqiRequestTti ≥ 16)) := by
  unfold SchedUe.needsCqi
  split
  · rename_i h
    exact h.symm
  · rename_i h
    exact (Bool.eq_false_iff.mpr h).symm

theorem WantsNew.next (h : WantsNew lib tti u) (x : Option Pid) :
    WantsNew lib tti { u with ulNextAlloc := x } where
  data := by
    have hdata := h.data
    simp only [SchedUe.getPendingUlNewData, needsCqi_fst] at hdata ⊢
    exact hdata
  empty := h.empty

/-! ## The two loops -/

theorem visitRetx_wants (k : Nat) (hm : m.currentTti = tti) (hw : WantsNew lib tti u) :
    (visitRetx lib m k u).2 = { u with ulNextAlloc := none } := by
  simp [visitRetx, allocateUserRetxPrbs, hm, hw.empty]

theorem visitRetx_tti (k : Nat) (u : SchedUe) :
    (visitRetx lib m k u).1.currentTti = m.currentTti := by
  simp only [visitRetx, allocateUserRetxPrbs]
  split_ifs <;> rfl

theorem visitNewtx_tti (k : Nat) (u : SchedUe) :
    (visitNewtx lib m k u).1.currentTti = m.currentTti := by
  simp only [visitNewtx, allocateUserNewtxPrbs]
  split_ifs <;> rfl

theorem visitNewtx_full (k : Nat) (u : SchedUe) (h : Full m) : Full (visitNewtx lib m k u).1 := by
  simp only [visitNewtx, allocateUserNewtxPrbs]
  split_ifs
  · exact fun n hn hlt => updateAllocation_grow (h n hn hlt)
  all_goals exact h

/-- New data without PRBs finds none free. -/
theorem visitNewtx_served (hone : lib.validPrb 1 = true) (k : Nat) (u : SchedUe)
    (hm : m.currentTti = tti) (hnone : (visitNewtx lib m k u).2.ulNextAlloc = none)
    (hw : WantsNew lib tti u) : Full (visitNewtx lib m k u).1 := by
  have hdata : u.getPendingUlNewData lib m.currentTti ≠ 0 := hm ▸ hw.data
  simp only [visitNewtx, allocateUserNewtxPrbs, hm] at hnone ⊢
  split_ifs at hnone ⊢ with hnext hwants halloc
  · exact full_of_newAllocation hone (getRequiredPrbUl_pos hw.data) (not_not.mp halloc)
  · exact absurd (by simp [hw.empty, hw.data]) hwants
  · rw [hnone] at hnext
    exact absurd rfl hnext

theorem visitNewtx_none {k : Nat} (h : (visitNewtx lib m k u).2.ulNextAlloc = none) :
    (visitNewtx lib m k u).1 = m := by
  simp only [visitNewtx, allocateUserNewtxPrbs] at h ⊢
  split_ifs at h ⊢ <;> rfl

theorem retx_gives (lib : Lib) (m : UlMetric) (db : StdMap SchedUe) {k : Nat}
    (hu : db[k]? = some u) (hm : m.currentTti = tti) :
    (db.visit (visitRetx lib) db.keys m).1.currentTti = tti ∧
      ∃ u', (db.visit (visitRetx lib) db.keys m).2[k]? = some u' ∧
        (WantsNew lib tti u → u' = { u with ulNextAlloc := none }) :=
  ⟨visit_ind (f := visitRetx lib) (fun m _ => m.currentTti = tti)
      (fun m _ k u h _ => (visitRetx_tti k u).trans h) _ _ _ hm,
    visit_gives (I := fun m => m.currentTti = tti)
      (R := fun _ u u' => WantsNew lib tti u → u' = { u with ulNextAlloc := none })
      (fun m k u h => (visitRetx_tti k u).trans h) (fun m k u h => visitRetx_wants k h)
      (fun _ _ _ _ _ _ h => h) (nodup_keys db) (mem_keys.mpr (by rw [hu]; rfl)) hm hu⟩

/-- **The uplink metric passes nobody over**: when a call ends, a user with new data and an empty
process that was given no PRBs finds none free from PRB 2 on. -/
theorem ul_work_conserving (lib : Lib) (hone : lib.validPrb 1 = true) (m : UlMetric)
    (db : StdMap SchedUe) (tti : Nat) {k : Nat} (hu : db[k]? = some u)
    (hw : WantsNew lib tti u) :
    ∃ u', (m.newTti lib db tti).2[k]? = some u' ∧
      (u'.ulNextAlloc = none → Full (m.newTti lib db tti).1) := by
  obtain ⟨htti, v, hv, hsame⟩ := retx_gives lib { m with currentTti := tti } db hu rfl
  obtain ⟨⟨m1, db1⟩, h1⟩ :
      ∃ r, db.visit (visitRetx lib) db.keys { m with currentTti := tti } = r := ⟨_, rfl⟩
  rw [h1] at htti hv
  have hmem : k ∈ fromPriority db1 ((tti + db1.size / 2) % db1.size) :=
    List.mem_rotate.mpr (mem_keys.mpr (by rw [hv]; rfl))
  obtain ⟨u', hu', hserved⟩ := visit_gives (f := visitNewtx lib)
    (I := fun m => m.currentTti = tti)
    (R := fun m u u' => u'.ulNextAlloc = none → WantsNew lib tti u → Full m)
    (fun m k u h => (visitNewtx_tti k u).trans h)
    (fun m k u h hnone hw => visitNewtx_served hone k u h hnone hw)
    (fun m k u c c' _ h hnone hw => visitNewtx_full k u (h hnone hw))
    (List.nodup_rotate.mpr (nodup_keys db1)) hmem htti hv
  refine ⟨u', ?_, fun hnone => ?_⟩
  · rw [newTti, h1]
    exact hu'
  · rw [newTti, h1]
    exact hserved hnone (hsame hw ▸ hw.next none)

end UlMetric

/-! ## Turns -/

namespace Turn

variable {lib : Lib} {x : Turn} {tti k : Nat} {u : SchedUe}

/-- The downlink metric gives the user a process. -/
def DlServed (lib : Lib) (x : Turn) (tti k : Nat) : Prop :=
  ∃ u, (x.dl.newTti lib x.ueDb x.startRbg x.nofRbg x.nofCtrlSymbols tti).2[k]? = some u ∧
    u.dlNextAlloc.isSome = true

/-- The uplink metric gives the user PRBs. -/
def UlServed (lib : Lib) (x : Turn) (tti k : Nat) : Prop :=
  ∃ u, (x.ul.newTti lib x.ueDb tti).2[k]? = some u ∧ u.ulNextAlloc.isSome = true

/-- The user has downlink data, and an RBG is left to the metric. -/
def DlReady (lib : Lib) (x : Turn) (k : Nat) : Prop :=
  0 < x.nofRbg ∧ ∃ u, x.ueDb[k]? = some u ∧ DlMetric.WantsNew lib x.nofCtrlSymbols u

/-- The user has uplink data, and the retransmissions leave a PRB that is free. -/
def UlReady (lib : Lib) (x : Turn) (tti k : Nat) : Prop :=
  ¬(x.ulRetxLoop lib tti).1.Full ∧ ∃ u, x.ueDb[k]? = some u ∧ UlMetric.WantsNew lib tti u

/-- What the first round of a loop gives is kept. -/
theorem visit_first {σ : Type} {f : σ → Nat → SchedUe → σ × SchedUe} {db : StdMap SchedUe}
    {idx : Nat} (hk : db.keys[idx]? = some k) (hu : db[k]? = some u) (s : σ) :
    (db.visit f (fromPriority db idx) s).2[k]? = some (f s k u).2 := by
  obtain ⟨hlt, hget⟩ := List.getElem?_eq_some_iff.mp hk
  obtain ⟨rest, hrest⟩ : ∃ rest, fromPriority db idx = k :: rest := by
    cases hlist : fromPriority db idx with
    | nil =>
      have hlen := congrArg List.length hlist
      rw [fromPriority, List.length_rotate] at hlen
      exact absurd hlt (by rw [hlen]; exact Nat.not_lt_zero _)
    | cons a rest =>
      have hhead := List.head?_rotate hlt
      rw [fromPriority] at hlist
      rw [hlist, List.head?_cons, hk] at hhead
      exact ⟨rest, by rw [Option.some.inj hhead]⟩
  have hnd : (fromPriority db idx).Nodup := List.nodup_rotate.mpr (nodup_keys db)
  rw [hrest] at hnd ⊢
  rw [visit_cons hu, visit_get_of_notMem (List.nodup_cons.mp hnd).1, getElem?_insert, if_pos rfl]

/-- The user that is first in turn is served. -/
theorem dlServed_first (hk : x.ueDb.keys[x.dlPriority tti]? = some k) (h : x.DlReady lib k) :
    x.DlServed lib tti k := by
  obtain ⟨hroom, u, hu, hw⟩ := h
  refine ⟨_, visit_first hk hu _, ?_⟩
  rw [Option.isSome_iff_ne_none]
  intro hnone
  have hround : DlMetric.Conserves lib _ u _ := DlMetric.visitUser_conserves k u
    (DlMetric.start_synced x.dl x.startRbg x.nofRbg x.nofCtrlSymbols tti)
  have hall := hround.newData hnone
  rw [DlMetric.visitUser_unchanged hnone] at hall
  have hused := hall hw x.startRbg (Nat.lt_add_of_pos_right hroom)
  simp [DlMetric.start, hroom] at hused

theorem ulServed_first (hone : lib.validPrb 1 = true)
    (hk : x.ueDb.keys[x.ulPriority tti]? = some k) (h : x.UlReady lib tti k) :
    x.UlServed lib tti k := by
  obtain ⟨hfree, u, hu, hw⟩ := h
  obtain ⟨htti, v, hv, hsame⟩ := UlMetric.retx_gives lib (x.ulStart tti) x.ueDb hu rfl
  have hloop := @ulRetxLoop_eq lib x tti
  have hkeys := @keys_ulRetxLoop lib x tti
  have hsize := @size_ulRetxLoop lib x tti
  rw [hloop] at hfree hkeys hsize
  obtain ⟨⟨m1, db1⟩, h1⟩ :
      ∃ r, x.ueDb.visit (UlMetric.visitRetx lib) x.ueDb.keys (x.ulStart tti) = r := ⟨_, rfl⟩
  rw [h1] at hfree hkeys hsize hv htti
  refine ⟨(UlMetric.visitNewtx lib m1 k v).2, ?_, ?_⟩
  · rw [UlMetric.newTti]
    unfold ulStart at h1
    rw [h1]
    refine visit_first ?_ hv m1
    rw [hkeys, hsize]
    exact hk
  · rw [Option.isSome_iff_ne_none]
    intro hnone
    have hfull := UlMetric.visitNewtx_served hone k v htti hnone (hsame hw ▸ hw.next none)
    rw [UlMetric.visitNewtx_none hnone] at hfull
    exact hfree hfull

/-- In as many TTIs in a row as there are users, and in twice as many across the wrap of the
counter, each place of the order comes first. -/
theorem exists_turn {keys : List Nat} (hmax : keys.length ≤ 10240) (hk : k ∈ keys) (t c : Nat) :
    ∃ i < 2 * keys.length, keys[((t + i) % 10240 + c) % keys.length]? = some k ∧
      (t % 10240 + keys.length ≤ 10240 → i < keys.length) := by
  obtain ⟨j, hj, rfl⟩ := List.mem_iff_getElem.mp hk
  have hat : ∀ {n : Nat}, n = j → keys[n]? = some keys[j] := by
    rintro n rfl
    exact List.getElem?_eq_getElem hj
  by_cases hwrap : t % 10240 + keys.length ≤ 10240
  · obtain ⟨i, ⟨hi, hij⟩, -⟩ := existsUnique_start hj (t % 10240 + c)
    have hmod : (t + i) % 10240 = t % 10240 + i := by omega
    exact ⟨i, by omega, hat (by rw [hmod, Nat.add_right_comm, hij]), fun _ => hi⟩
  · obtain ⟨i, ⟨hi, hij⟩, -⟩ := existsUnique_start hj c
    have hlt := Nat.mod_lt t (by omega : 10240 > 0)
    have hmod : (t + (10240 - t % 10240 + i)) % 10240 = i := by omega
    refine ⟨10240 - t % 10240 + i, by omega, hat ?_, fun h => absurd h hwrap⟩
    rw [hmod, Nat.add_comm, hij]

/-- A user with data in both directions, in a cell of 6 PRBs. -/
def busyUe : SchedUe :=
  { SchedUe.new with
    cell := ⟨6, 1, 7⟩, P := 1, sr := true, maxMcsDl := 28, maxMcsUl := 28
    lch := [{ direction := .both, bufTx := 40 }] }

/-- Two such users, and one RBG for both. -/
def twoBusy : Turn where
  ueDb := ((∅ : StdMap SchedUe).insert 70 busyUe).insert 71 busyUe
  ul := { nofRb := 6 }
  nofRbg := 1
  nofCtrlSymbols := 1

theorem twoBusy_get : twoBusy.ueDb[71]? = some busyUe := by simp [twoBusy]

theorem ul_work_conserving_two :
    ∃ u', (twoBusy.ul.newTti exampleLib twoBusy.ueDb 0).2[71]? = some u' ∧
      (u'.ulNextAlloc = none → (twoBusy.ul.newTti exampleLib twoBusy.ueDb 0).1.Full) :=
  UlMetric.ul_work_conserving exampleLib rfl twoBusy.ul twoBusy.ueDb 0 twoBusy_get
    ⟨by decide, by decide⟩

end Turn

end Srsenb.Mac
