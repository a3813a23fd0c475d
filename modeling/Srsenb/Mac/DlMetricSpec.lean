import Mathlib.Data.List.Rotate
import Srsenb.Base.Pool
import Srsenb.Mac.Metric

/-! # What the downlink metric hands out -/

open Srsenb.Pool

namespace Srsenb.Mac

/-- The bits of an RBG mask. -/
def bits (mask : Nat) : Set Nat := { b | mask.testBit b = true }

theorem bits_or (a b : Nat) : bits (a ||| b) = bits a ∪ bits b := by
  ext i
  simp [bits]

theorem disjoint_bits_iff {a b : Nat} : Disjoint (bits a) (bits b) ↔ a &&& b = 0 := by
  rw [Set.disjoint_left]
  constructor
  · intro h
    refine Nat.eq_of_testBit_eq fun i => ?_
    rw [Nat.testBit_and, Nat.zero_testBit]
    by_cases ha : a.testBit i = true
    · have hb : ¬ b.testBit i = true := h ha
      simp [hb]
    · simp [ha]
  · intro h i (ha : a.testBit i = true) (hb : b.testBit i = true)
    have hi := congrArg (Nat.testBit · i) h
    simp [ha, hb] at hi

namespace DlMetric

/-- The mask of the first `k` RBGs. -/
theorem calcRbgMask_upTo {total : Nat} {f : Nat → Bool} {b : Nat} : ∀ {k : Nat}, k ≤ total →
    (((List.range k).foldl (fun b n => if f n then b ||| 1 <<< (total - 1 - n) else b)
      0).testBit b = true ↔ b < total ∧ total - 1 - b < k ∧ f (total - 1 - b) = true)
  | 0, _ => by simp
  | k + 1, hk => by
    have ih := @calcRbgMask_upTo total f b k (by omega)
    rw [List.range_succ, List.foldl_append, List.foldl_cons, List.foldl_nil]
    by_cases hf : f k = true
    · rw [if_pos hf, Nat.testBit_or, Bool.or_eq_true, ih, Nat.one_shiftLeft, Nat.testBit_two_pow,
        decide_eq_true_eq]
      constructor
      · rintro (⟨h1, h2, h3⟩ | rfl)
        · exact ⟨h1, by omega, h3⟩
        · have hidx : total - 1 - (total - 1 - k) = k := by omega
          exact ⟨by omega, by omega, by rwa [hidx]⟩
      · rintro ⟨h1, h2, h3⟩
        by_cases h : total - 1 - b < k
        · exact Or.inl ⟨h1, h, h3⟩
        · exact Or.inr (by omega)
    · rw [if_neg hf, ih]
      constructor
      · rintro ⟨h1, h2, h3⟩
        exact ⟨h1, by omega, h3⟩
      · rintro ⟨h1, h2, h3⟩
        refine ⟨h1, ?_, h3⟩
        by_contra h
        rw [show total - 1 - b = k by omega] at h3
        exact hf h3

theorem calcRbgMask_testBit {total : Nat} {f : Nat → Bool} {b : Nat} :
    (calcRbgMask total f).testBit b = true ↔ b < total ∧ f (total - 1 - b) = true := by
  rw [calcRbgMask, calcRbgMask_upTo le_rfl]
  constructor
  · rintro ⟨h1, -, h3⟩
    exact ⟨h1, h3⟩
  · rintro ⟨h1, h3⟩
    exact ⟨h1, by omega, h3⟩

/-- The array and the mask mark the same RBGs. -/
def Synced (m : DlMetric) : Prop :=
  ∀ n < m.totalRbg, m.usedRbg n = m.usedRbgMask.testBit (m.totalRbg - 1 - n)

variable {lib : Lib} {m m' : DlMetric} {u u' : SchedUe} {pid : Pid} {mask : Nat}

theorem synced_updateAllocation : Synced (m.updateAllocation mask) := by
  intro n hn
  simp only [updateAllocation] at *
  rw [if_pos hn]

@[simp] theorem updateAllocation_mask :
    (m.updateAllocation mask).usedRbgMask = m.usedRbgMask ||| mask := rfl

/-- The loop takes RBGs that are not used. -/
theorem takeFree_spec {used : Nat → Bool} : ∀ {ns : List Nat} {left : Nat} {taken : Nat → Bool},
    (∀ n, taken n = true → used n = false) →
    ∀ n, (takeFree used ns left taken).2 n = true → used n = false
  | [], _, _, h => h
  | n :: ns, left, taken, h => by
    rw [takeFree]
    split_ifs with hleft hused
    · exact takeFree_spec h
    · refine takeFree_spec fun i hi => ?_
      by_cases hin : i = n
      · subst hin
        simpa using hused
      · exact h i (by simpa [hin] using hi)
    · exact h

theorem takeFree_left {used : Nat → Bool} (ns : List Nat) (left : Nat) (taken : Nat → Bool) :
    (takeFree used ns left taken).1 = left - ns.countP fun n => !used n := by
  induction ns generalizing left taken with
  | nil => rfl
  | cons n ns ih =>
    rw [takeFree, List.countP_cons]
    by_cases hleft : 0 < left
    · cases hused : used n
      · simp only [hleft, if_true, ih, Bool.not_false, Bool.false_eq_true, if_false]
        omega
      · simp [hleft, ih]
    · simp [Nat.eq_zero_of_not_pos hleft]

theorem takeFree_mono {used : Nat → Bool} {n : Nat} (ns : List Nat) (left : Nat)
    (taken : Nat → Bool) (h : taken n = true) : (takeFree used ns left taken).2 n = true := by
  induction ns generalizing left taken with
  | nil => exact h
  | cons i ns ih =>
    rw [takeFree]
    split_ifs
    · exact ih left taken h
    · refine ih (left - 1) _ ?_
      rw [Function.update_apply]
      split_ifs
      · rfl
      · exact h
    · exact h

/-- Where an RBG is free the loop takes one. -/
theorem takeFree_takes {used : Nat → Bool} {ns : List Nat} {n : Nat} (hn : n ∈ ns)
    (hfree : used n = false) {left : Nat} (hleft : 0 < left) (taken : Nat → Bool) :
    ∃ i ∈ ns, (takeFree used ns left taken).2 i = true := by
  induction ns generalizing taken with
  | nil => cases hn
  | cons i ns ih =>
    rw [takeFree, if_pos hleft]
    split_ifs with hused
    · have hni : n ≠ i := by
        rintro rfl
        simp [hfree] at hused
      obtain ⟨j, hj, htaken⟩ := ih (List.mem_of_ne_of_mem hni hn) taken
      exact ⟨j, List.mem_cons_of_mem i hj, htaken⟩
    · exact ⟨i, List.mem_cons_self, takeFree_mono _ _ _ (Function.update_self i true taken)⟩

theorem newAllocation_bit {nofRbg b : Nat} (hb : b ∈ bits (m.newAllocation nofRbg).2) :
    b < m.totalRbg ∧ m.usedRbg (m.totalRbg - 1 - b) = false := by
  obtain ⟨h1, h2⟩ := calcRbgMask_testBit.mp hb
  exact ⟨h1, takeFree_spec (fun n hn => by cases hn) _ h2⟩

theorem newAllocation_free (hs : Synced m) (nofRbg : Nat) :
    Disjoint (bits (m.newAllocation nofRbg).2) (bits m.usedRbgMask) := by
  refine Set.disjoint_left.mpr fun b hb hu => ?_
  obtain ⟨h1, h2⟩ := newAllocation_bit hb
  have hidx : m.totalRbg - 1 - (m.totalRbg - 1 - b) = b := by omega
  rw [hs _ (by omega), hidx] at h2
  exact absurd hu (by simp [bits, h2])

theorem calcRbgMask_eq_zero {total : Nat} {f : Nat → Bool} :
    calcRbgMask total f = 0 ↔ ∀ n < total, f n = false := by
  constructor
  · intro h n hn
    have hidx : total - 1 - (total - 1 - n) = n := by omega
    rw [Bool.eq_false_iff]
    intro hf
    have hbit : (calcRbgMask total f).testBit (total - 1 - n) = true :=
      calcRbgMask_testBit.mpr ⟨by omega, by rwa [hidx]⟩
    rw [h] at hbit
    simp at hbit
  · intro h
    refine Nat.eq_of_testBit_eq fun b => ?_
    rw [Nat.zero_testBit, Bool.eq_false_iff]
    intro hb
    obtain ⟨hlt, hf⟩ := calcRbgMask_testBit.mp hb
    rw [h _ (by omega)] at hf
    cases hf

/-- The mask is empty when nothing is asked for or nothing is free. -/
theorem newAllocation_eq_zero {nofRbg : Nat} : (m.newAllocation nofRbg).2 = 0 ↔
    nofRbg = 0 ∨ ∀ n < m.totalRbg, m.usedRbg n = true := by
  simp only [newAllocation, calcRbgMask_eq_zero]
  constructor
  · intro h
    by_contra hnot
    push Not at hnot
    obtain ⟨hpos, n, hn, hfree⟩ := hnot
    obtain ⟨i, hi, htaken⟩ := takeFree_takes (List.mem_range.mpr hn) (by simpa using hfree)
      (Nat.pos_of_ne_zero hpos) fun _ => false
    rw [h i (List.mem_range.mp hi)] at htaken
    cases htaken
  · intro h n hn
    rw [Bool.eq_false_iff]
    intro htaken
    rcases h with rfl | h
    · cases hns : List.range m.totalRbg <;> simp [hns, takeFree] at htaken
    · have hfree := takeFree_spec (fun n hn => by cases hn) n htaken
      rw [h n hn] at hfree
      cases hfree

/-- What the metric hands out: a process with a mask that is free, and that is the stored one of
a pending retransmission or lies below the total. -/
structure HandsOut (lib : Lib) (m m' : DlMetric) (u u' : SchedUe) (pid : Pid) (mask : Nat) :
    Prop where
  metric : m' = m.updateAllocation mask
  user : u' = u.setDl pid ((u.dlHarq pid).setRbgmask mask)
  free : Synced m → Disjoint (bits mask) (bits m.usedRbgMask)
  below : (∀ b ∈ bits mask, b < m.totalRbg) ∨
    mask = (u.dlHarq pid).rbgmask ∧ u.getPendingDlHarq lib m.currentTti = some pid

theorem applyUserAllocation_spec (h : m.applyUserAllocation lib u = some (pid, m', u')) :
    ∃ mask, HandsOut lib m m' u u' pid mask := by
  simp only [applyUserAllocation] at h
  split at h
  · rename_i r hr
    simp only [Option.some.injEq] at h
    subst h
    simp only [retxAllocation] at hr
    split at hr
    · cases hr
    · rename_i i hi
      split_ifs at hr with hvalid hroom hfits <;>
        simp only [Option.some.injEq, Prod.mk.injEq] at hr <;> obtain ⟨rfl, rfl, rfl⟩ := hr
      · refine ⟨_, rfl, ?_, fun _ => ?_, Or.inr ⟨rfl, hi⟩⟩
        · simp [SchedUe.setDl, DlHarqProc.setRbgmask]
        · simpa [allocationIsValid, disjoint_bits_iff] using hvalid
      · exact ⟨_, rfl, rfl, fun hs => newAllocation_free hs _,
          Or.inl fun b hb => (newAllocation_bit hb).1⟩
  · simp only [newtxAllocation] at h
    split at h
    · cases h
    · split_ifs at h
      simp only [Option.some.injEq, Prod.mk.injEq] at h
      obtain ⟨rfl, rfl, rfl⟩ := h
      exact ⟨_, rfl, rfl, fun hs => newAllocation_free hs _,
        Or.inl fun b hb => (newAllocation_bit hb).1⟩

/-! ## All users -/

/-- The bits of the mask that a user was given. -/
def granted (db : StdMap SchedUe) (k : Nat) : Option (Set Nat) :=
  db[k]?.bind fun u => u.dlNextAlloc.map fun pid => bits (u.dlHarq pid).rbgmask

/-- A mask lies below the total, or it is the stored one of a pending retransmission of `u0`. -/
def BelowOrStored (lib : Lib) (total tti : Nat) (u0 : SchedUe) (pid : Pid) (mask : Nat) : Prop :=
  (∀ b ∈ bits mask, b < total) ∨
    mask = (u0.dlHarq pid).rbgmask ∧ u0.getPendingDlHarq lib tti = some pid

/-- The metric while it goes over the users: those in `done` hold what they were given. -/
structure Shared (lib : Lib) (total tti : Nat) (db0 : StdMap SchedUe) (base : Set Nat)
    (done : List Nat) (m : DlMetric) (db : StdMap SchedUe) : Prop where
  totalRbg : m.totalRbg = total
  currentTti : m.currentTti = tti
  synced : Synced m
  rest : ∀ k ∉ done, db[k]? = db0[k]?
  known : ∀ k : Nat, db0[k]? = none → db[k]? = none
  own : ∀ k ∈ done, ∀ (u : SchedUe) (pid : Pid), db[k]? = some u → u.dlNextAlloc = some pid →
    ∃ u0, db0[k]? = some u0 ∧ BelowOrStored lib total tti u0 pid (u.dlHarq pid).rbgmask
  held : Held base (bits m.usedRbgMask) { k | k ∈ done } (granted db)

variable {total tti k : Nat} {db0 db : StdMap SchedUe} {base : Set Nat} {done : List Nat}

theorem shared_step (h : Shared lib total tti db0 base done m db) (hk : k ∉ done)
    (hu : db[k]? = some u) :
    Shared lib total tti db0 base (k :: done) (visitUser lib m k u).1
      (db.insert k (visitUser lib m k u).2) := by
  obtain ⟨⟨m', u'⟩, hr⟩ : ∃ r, visitUser lib m k u = r := ⟨_, rfl⟩
  have hset : { l | l ∈ k :: done } = insert k { l | l ∈ done } := by
    ext l
    simp
  have hsame : ∀ l, l ≠ k → granted (db.insert k u') l = granted db l := by
    intro l hl
    simp [granted, Ne.symm hl]
  have hrest : ∀ l ∉ k :: done, (db.insert k u')[l]? = db0[l]? := by
    intro l hl
    rw [StdMap.getElem?_insert, if_neg (Ne.symm (List.ne_of_not_mem_cons hl))]
    exact h.rest l (List.not_mem_of_not_mem_cons hl)
  have hknown : ∀ l : Nat, db0[l]? = none → (db.insert k u')[l]? = none := by
    intro l hl
    have hne : k ≠ l := by
      rintro rfl
      rw [h.known k hl] at hu
      cases hu
    rw [StdMap.getElem?_insert, if_neg hne, h.known l hl]
  have hown : (∀ pid, u'.dlNextAlloc = some pid → ∃ u0, db0[k]? = some u0 ∧
      BelowOrStored lib total tti u0 pid (u'.dlHarq pid).rbgmask) →
      ∀ l ∈ k :: done, ∀ (v : SchedUe) (pid : Pid), (db.insert k u')[l]? = some v →
        v.dlNextAlloc = some pid →
        ∃ u0, db0[l]? = some u0 ∧ BelowOrStored lib total tti u0 pid (v.dlHarq pid).rbgmask := by
    intro hk' l hl v pid hv hpid
    rw [StdMap.getElem?_insert] at hv
    split_ifs at hv with hkl
    · subst hkl
      exact hk' pid (Option.some.inj hv ▸ hpid) |>.imp fun u0 h0 => Option.some.inj hv ▸ h0
    · exact h.own l ((List.mem_cons.mp hl).resolve_left (Ne.symm hkl)) v pid hv hpid
  rw [hr]
  simp only [visitUser] at hr
  split at hr
  · rename_i pid m1 u1 happly
    obtain ⟨rfl, rfl⟩ := Prod.mk.inj hr
    obtain ⟨mask, rfl, rfl, hfree, hbelow⟩ := applyUserAllocation_spec happly
    have hmask : ((u.setDl pid ((u.dlHarq pid).setRbgmask mask)).dlHarq pid).rbgmask = mask := by
      rw [SchedUe.setDl_dlHarq, DlHarqProc.setRbgmask_rbgmask]
    refine ⟨h.totalRbg, h.currentTti, synced_updateAllocation, hrest, hknown, hown ?_, ?_⟩
    · intro i hi
      obtain rfl := Option.some.inj hi
      refine ⟨u, by rw [← h.rest k hk, hu], ?_⟩
      simp only [hmask]
      rw [h.totalRbg, h.currentTti] at hbelow
      exact hbelow
    · rw [hset]
      refine h.held.grant (A := bits mask) ?_ hsame (hfree h.synced) ?_ ?_
      · simp [granted]
      · rw [updateAllocation_mask, bits_or]
        exact Set.subset_union_left
      · rw [updateAllocation_mask, bits_or]
        exact Set.subset_union_right
  · obtain ⟨rfl, rfl⟩ := Prod.mk.inj hr
    refine ⟨h.totalRbg, h.currentTti, h.synced, hrest, hknown, hown (by simp), ?_⟩
    rw [hset]
    exact h.held.skip (by simp [granted]) hsame

theorem shared_skip (h : Shared lib total tti db0 base done m db) (hk : db[k]? = none) :
    Shared lib total tti db0 base (k :: done) m db := by
  refine { h with rest := ?_, own := ?_, held := h.held.extend ?_ }
  · exact fun l hl => h.rest l (List.not_mem_of_not_mem_cons hl)
  · intro l hl v pid hv hpid
    rcases List.mem_cons.mp hl with rfl | hl
    · rw [hk] at hv
      cases hv
    · exact h.own l hl v pid hv hpid
  · intro l hl hnot
    obtain rfl : l = k := by
      by_contra hne
      exact hnot ((List.mem_cons.mp hl).resolve_left hne)
    simp [granted, hk]

theorem start_synced (m : DlMetric) (startRbg nofRbg ctrl tti : Nat) :
    Synced (m.start startRbg nofRbg ctrl tti) := by
  intro n hn
  simp only [start] at *
  have hidx : startRbg + nofRbg - 1 - (startRbg + nofRbg - 1 - n) = n := by omega
  rw [Bool.eq_iff_iff, calcRbgMask_testBit, hidx]
  exact ⟨fun h => ⟨by omega, h⟩, fun h => h.2⟩

/-- The RBGs before `start_rbg` are the upper bits. -/
theorem start_mask (m : DlMetric) (startRbg nofRbg ctrl tti : Nat) :
    bits (m.start startRbg nofRbg ctrl tti).usedRbgMask =
      { b | nofRbg ≤ b ∧ b < startRbg + nofRbg } := by
  ext b
  simp only [bits, start, Set.mem_ofPred_eq, calcRbgMask_testBit]
  constructor
  · rintro ⟨h1, h2⟩
    rw [if_pos (by omega), decide_eq_true_eq] at h2
    exact ⟨by omega, h1⟩
  · rintro ⟨h1, h2⟩
    refine ⟨h2, ?_⟩
    rw [if_pos (by omega), decide_eq_true_eq]
    omega

theorem start_free (m : DlMetric) (startRbg nofRbg ctrl tti : Nat) :
    (List.range (startRbg + nofRbg)).countP
      (fun n => !(m.start startRbg nofRbg ctrl tti).usedRbg n) = nofRbg := by
  rw [List.range_add, List.countP_append, List.countP_map]
  have hupper : (List.range startRbg).countP
      (fun n => !(m.start startRbg nofRbg ctrl tti).usedRbg n) = 0 := by
    rw [List.countP_eq_zero]
    intro n hn
    have hlt := List.mem_range.mp hn
    simp [start, hlt, Nat.lt_add_right nofRbg hlt]
  have hlower : (List.range nofRbg).countP
      ((fun n => !(m.start startRbg nofRbg ctrl tti).usedRbg n) ∘ (startRbg + ·)) = nofRbg := by
    conv_rhs => rw [← List.length_range (n := nofRbg)]
    rw [List.countP_eq_length]
    intro n hn
    simp [start, List.mem_range.mp hn]
  rw [hupper, hlower, Nat.zero_add]

/-- **The metric shares the RBGs out**: the masks of no two users meet, and none meets the upper
bits, which stand for the RBGs before `start_rbg`. -/
theorem newTti_shared (lib : Lib) (m : DlMetric) (db : StdMap SchedUe)
    (startRbg nofRbg ctrl tti : Nat) :
    ∃ done, Shared lib (startRbg + nofRbg) tti db
      { b | nofRbg ≤ b ∧ b < startRbg + nofRbg } done
      (m.newTti lib db startRbg nofRbg ctrl tti).1 (m.newTti lib db startRbg nofRbg ctrl tti).2 ∧
      ∀ k ∉ done, db[k]? = none := by
  have hmem : ∀ k, k ∈ fromPriority db (tti % db.size) ↔ k ∈ db.keys := by
    intro k
    unfold fromPriority
    exact List.mem_rotate
  have hrun := StdMap.visit_inv (f := visitUser lib)
    (fun done m1 db1 => Shared lib (startRbg + nofRbg) tti db
      { b | nofRbg ≤ b ∧ b < startRbg + nofRbg } done m1 db1)
    (fun done m1 db1 k u h hk hu => shared_step h hk hu)
    (fun done m1 db1 k h hk => shared_skip h hk)
    (fromPriority db (tti % db.size)) [] (m.start startRbg nofRbg ctrl tti) db
    (List.nodup_rotate.mpr (StdMap.nodup_keys db)) (by simp)
    ⟨rfl, rfl, start_synced m _ _ _ _, fun _ _ => rfl, fun _ h => h, by simp, by
      rw [start_mask]
      exact (Held.empty _ _).extend fun k hk => by cases hk⟩
  refine ⟨_, hrun, fun k hk => StdMap.getElem?_of_notMem_keys ?_⟩
  rw [← hmem]
  simpa using hk

end DlMetric

end Srsenb.Mac
