import Srsenb.Base.Pool
import Srsenb.Mac.Metric

/-! # What the uplink metric hands out -/

open Srsenb.Pool

namespace Srsenb.Mac

/-- The PRBs of an allocation. -/
def UlAlloc.prbs (a : UlAlloc) : Set Nat := { n | a.rbStart ≤ n ∧ n < a.rbStart + a.L }

/-- An allocation inside a cell of `N` PRBs. -/
def UlAlloc.Fits (N : Nat) (a : UlAlloc) : Prop := a.rbStart + a.L ≤ N

/-- All allocations that a user's processes keep are inside the cell. -/
def SchedUe.UlFits (N : Nat) (u : SchedUe) : Prop := ∀ pid, (u.ulHarq pid).allocation.Fits N

theorem UlAlloc.stop_eq {N : Nat} {a : UlAlloc} (hN : N < 2 ^ 32) (hf : a.Fits N) :
    a.stop = a.rbStart + a.L := by
  unfold UlAlloc.stop UlAlloc.Fits u32 at *
  exact Nat.mod_eq_of_lt (by omega)

namespace UlMetric

variable {lib : Lib} {m : UlMetric} {a : UlAlloc} {N : Nat}

/-- The marked PRBs. -/
def used (m : UlMetric) : Set Nat := { n | m.usedRb n = true }

theorem updateAllocation_used (hN : N < 2 ^ 32) (hf : a.Fits N) :
    (m.updateAllocation a).2.used = m.used ∪ a.prbs := by
  ext n
  simp only [updateAllocation, used, UlAlloc.prbs, UlAlloc.stop_eq hN hf, Set.mem_ofPred_eq,
    Set.mem_union]
  split_ifs with h <;> simp [h]

theorem updateAllocation_grow : m.used ⊆ (m.updateAllocation a).2.used := by
  intro n hn
  simp only [updateAllocation, used, Set.mem_ofPred_eq] at *
  split_ifs <;> simp [hn]

theorem updateAllocation_free (hN : N < 2 ^ 32) (hf : a.Fits N)
    (h : (m.updateAllocation a).1 = true) : Disjoint a.prbs m.used := by
  simp only [updateAllocation, allocationIsValid, UlAlloc.stop_eq hN hf] at h
  split_ifs at h
  rw [List.all_eq_true] at h
  rw [Set.disjoint_left]
  rintro n ⟨hn1, hn2⟩ hu
  have hfree := h n (List.mem_range'_1.mpr ⟨hn1, by omega⟩)
  rw [Set.mem_ofPred_eq.mp hu] at hfree
  cases hfree

/-! ## The search for a free run -/

/-- The run found so far ends before PRB `k`, and is empty or ends just there. -/
structure RunBelow (used : Nat → Bool) (k : Nat) (a : UlAlloc) : Prop where
  free : ∀ n ∈ a.prbs, used n = false
  below : a.L ≠ 0 → a.rbStart + a.L = k

theorem freeRun_spec {used : Nat → Bool} {L : Nat} : ∀ {len k : Nat} {a : UlAlloc},
    RunBelow used k a →
    (∀ n ∈ (freeRun used L (List.range' k len) a).prbs, used n = false) ∧
      ((freeRun used L (List.range' k len) a).L ≠ 0 →
        (freeRun used L (List.range' k len) a).Fits (k + len))
  | 0, k, a, h => ⟨h.free, fun hL => (h.below hL).le⟩
  | len + 1, k, a, h => by
    have hstop : a.L ≠ 0 → a.Fits (k + (len + 1)) := by
      intro hL
      have := h.below hL
      unfold UlAlloc.Fits
      omega
    have hlen : k + (len + 1) = k + 1 + len := by omega
    rw [List.range'_succ, freeRun]
    by_cases hlt : a.L < L
    · cases hk : used k with
      | false =>
        -- The PRB is free: the run starts here, or grows by it.
        rw [if_pos hlt, if_pos (by rfl), hlen]
        refine freeRun_spec ⟨?_, fun _ => ?_⟩
        · rintro n ⟨hn1, hn2⟩
          by_cases hn : n = k
          · exact hn ▸ hk
          · by_cases h0 : a.L = 0
            · simp only [h0, if_true] at hn1 hn2
              omega
            · simp only [h0, if_false] at hn1 hn2
              have := h.below h0
              exact h.free n ⟨hn1, by omega⟩
        · by_cases h0 : a.L = 0
          · simp only [h0, if_true]
          · have := h.below h0
            simp only [h0, if_false]
            omega
      | true =>
        rw [if_pos hlt, if_neg (by decide)]
        split_ifs with hL hedge
        · -- A run that ends at the edge is given up.
          rw [hlen]
          refine freeRun_spec ⟨?_, fun h0 => absurd rfl h0⟩
          rintro n ⟨hn1, hn2⟩
          simp only at hn1 hn2
          omega
        · exact ⟨h.free, hstop⟩
        · rw [hlen]
          exact freeRun_spec ⟨h.free, fun h0 => absurd (Nat.pos_of_ne_zero h0) hL⟩
    · rw [if_neg hlt]
      exact ⟨h.free, hstop⟩

theorem shrink_le (lib : Lib) : ∀ L, shrink lib L ≤ L
  | 0 => le_rfl
  | L + 1 => by
    unfold shrink
    split_ifs
    · exact le_rfl
    · exact (shrink_le lib L).trans (Nat.le_succ L)

/-- A new allocation is a free run inside the cell. -/
theorem newAllocation_spec {L : Nat} (hL : (m.newAllocation lib L).2.L ≠ 0) :
    (m.newAllocation lib L).2.Fits m.nofRb ∧ Disjoint (m.newAllocation lib L).2.prbs m.used := by
  have hspec := @freeRun_spec m.usedRb L m.nofRb 0 {}
    ⟨fun n hn => absurd hn.2 (by simp), fun h => absurd rfl h⟩
  rw [← List.range_eq_range'] at hspec
  unfold newAllocation at hL ⊢
  obtain ⟨run, hrun⟩ : ∃ run, freeRun m.usedRb L (List.range m.nofRb) {} = run := ⟨_, rfl⟩
  simp only [hrun] at hspec hL ⊢
  obtain ⟨hfree, hfits⟩ := hspec
  by_cases h0 : run.L = 0
  · simp only [h0, if_true] at hL
    exact absurd rfl hL
  · have hle := shrink_le lib run.L
    have hend : run.rbStart + run.L ≤ 0 + m.nofRb := hfits h0
    simp only [h0, if_false]
    refine ⟨?_, Set.disjoint_left.mpr ?_⟩
    · simp only [UlAlloc.Fits]
      omega
    · rintro n ⟨hn1, hn2⟩ hu
      simp only at hn1 hn2
      exact absurd (hfree n ⟨hn1, by omega⟩) (by simpa [used] using hu)

theorem newAllocation_ne_zero {L : Nat} (h : (m.newAllocation lib L).1 = true) :
    (m.newAllocation lib L).2.L ≠ 0 := by
  unfold newAllocation at h ⊢
  obtain ⟨run, hrun⟩ : ∃ run, freeRun m.usedRb L (List.range m.nofRb) {} = run := ⟨_, rfl⟩
  simp only [hrun] at h ⊢
  by_cases h0 : run.L = 0
  · simp only [h0, if_true] at h
    cases h
  · simp only [h0, if_false, decide_eq_true_eq] at h ⊢
    rw [h]
    rintro rfl
    -- Nothing is searched for an empty allocation.
    refine h0 (hrun ▸ ?_)
    cases List.range m.nofRb <;> rfl

/-! ## One user -/

/-- A round of the metric marks more PRBs, and hands out none that was marked. -/
structure Takes (N : Nat) (m m' : UlMetric) (u u' : SchedUe) : Prop where
  nofRb : m'.nofRb = m.nofRb
  currentTti : m'.currentTti = m.currentTti
  rnti : u'.rnti = u.rnti
  grow : m.used ⊆ m'.used
  fits : u'.UlFits N
  alloc : ∀ pid, u'.ulNextAlloc = some pid →
    Disjoint (u'.ulHarq pid).allocation.prbs m.used ∧ (u'.ulHarq pid).allocation.prbs ⊆ m'.used

variable {u u' : SchedUe} {k : Nat}

theorem fits_setUl {pid : Pid} {h : UlHarqProc} (hu : u.UlFits N) (hh : h.allocation.Fits N) :
    (u.setUl pid h).UlFits N := by
  intro i
  by_cases hi : i = pid
  · subst hi
    rwa [SchedUe.setUl_ulHarq]
  · rw [SchedUe.setUl_ulHarq_ne h hi]
    exact hu i

/-- A process that is given new PRBs. -/
theorem takes_new (hN : N < 2 ^ 32) {m0 : UlMetric} {pid : Pid} {h : UlHarqProc}
    (hgrow : m.used ⊆ m0.used) (hnof : m0.nofRb = m.nofRb) (htti : m0.currentTti = m.currentTti)
    (hu : u.UlFits N) (hf : a.Fits N) (hfree : Disjoint a.prbs m0.used) :
    Takes N m (m0.updateAllocation a).2 u
      { u.setUl pid (h.setAlloc a) with ulNextAlloc := some pid } where
  nofRb := hnof
  currentTti := htti
  rnti := rfl
  grow := hgrow.trans updateAllocation_grow
  fits := fits_setUl hu hf
  alloc := by
    intro i hi
    obtain rfl := Option.some.inj hi
    simp only [SchedUe.setUl, Function.update_self, UlHarqProc.setAlloc_allocation,
      updateAllocation_used hN hf]
    exact ⟨hfree.mono_right hgrow, Set.subset_union_right⟩

/-- A user that is given nothing. -/
theorem takes_none {m0 : UlMetric} (hgrow : m.used ⊆ m0.used) (hnof : m0.nofRb = m.nofRb)
    (htti : m0.currentTti = m.currentTti) (hu : u.UlFits N) :
    Takes N m m0 u { u with ulNextAlloc := none } where
  nofRb := hnof
  currentTti := htti
  rnti := rfl
  grow := hgrow
  fits := hu
  alloc := by
    intro i hi
    cases hi

theorem visitRetx_takes (hN : m.nofRb < 2 ^ 32) (hu : u.UlFits m.nofRb) :
    Takes m.nofRb m (visitRetx lib m k u).1 u (visitRetx lib m k u).2 := by
  have hfit := hu (SchedUe.getUlHarq m.currentTti)
  simp only [visitRetx, allocateUserRetxPrbs]
  split_ifs with hempty hok hnew
  · -- The stored PRBs are free.
    have hfree := updateAllocation_free hN hfit hok
    exact
      { nofRb := rfl
        currentTti := rfl
        rnti := rfl
        grow := updateAllocation_grow
        fits := hu
        alloc := by
          intro i hi
          obtain rfl := Option.some.inj hi
          refine ⟨hfree, ?_⟩
          rw [updateAllocation_used hN hfit]
          exact Set.subset_union_right }
  · -- They are not, and are marked all the same; other PRBs are free.
    obtain ⟨hf, hfree⟩ := newAllocation_spec (newAllocation_ne_zero hnew)
    exact takes_new hN updateAllocation_grow rfl rfl hu hf hfree
  · exact takes_none updateAllocation_grow rfl rfl hu
  · exact takes_none subset_rfl rfl rfl hu

theorem visitNewtx_takes (hN : m.nofRb < 2 ^ 32) (hu : u.UlFits m.nofRb)
    (hnone : u.ulNextAlloc = none) :
    Takes m.nofRb m (visitNewtx lib m k u).1 u (visitNewtx lib m k u).2 := by
  simp only [visitNewtx, hnone, Option.isNone_none, if_true, allocateUserNewtxPrbs]
  split_ifs with hempty hL
  · obtain ⟨hf, hfree⟩ := newAllocation_spec hL
    exact takes_new hN subset_rfl rfl rfl hu hf hfree
  · exact takes_none subset_rfl rfl rfl hu
  · exact takes_none subset_rfl rfl rfl hu

/-! ## All users -/

/-- The PRBs that a user was given. -/
def granted (db : StdMap SchedUe) (k : Nat) : Option (Set Nat) :=
  db[k]?.bind fun u => u.ulNextAlloc.map fun pid => (u.ulHarq pid).allocation.prbs

/-- The metric while it goes over the users: those in `S` hold what they were given. -/
structure Shared (N tti : Nat) (db0 : StdMap SchedUe) (base : Set Nat) (S : Set Nat)
    (m : UlMetric) (db : StdMap SchedUe) : Prop where
  nofRb : m.nofRb = N
  currentTti : m.currentTti = tti
  users : ∀ k : Nat, db[k]?.map SchedUe.rnti = db0[k]?.map SchedUe.rnti
  fits : ∀ (k : Nat) (u : SchedUe), db[k]? = some u → u.UlFits N
  held : Held base m.used S (granted db)

variable {tti : Nat} {db0 db : StdMap SchedUe} {base S : Set Nat} {m' : UlMetric}

theorem granted_insert : granted (db.insert k u) k =
    u.ulNextAlloc.map fun pid => (u.ulHarq pid).allocation.prbs := by
  simp [granted]

theorem granted_insert_ne {l : Nat} (h : l ≠ k) : granted (db.insert k u) l = granted db l := by
  simp [granted, Ne.symm h]

theorem Shared.takes (h : Shared N tti db0 base S m db) (hk : db[k]? = some u)
    (ht : Takes N m m' u u') : Shared N tti db0 base (insert k S) m' (db.insert k u') where
  nofRb := ht.nofRb.trans h.nofRb
  currentTti := ht.currentTti.trans h.currentTti
  users := by
    intro l
    rw [StdMap.getElem?_insert, ← h.users l]
    split_ifs with hl
    · subst hl
      simp [hk, ht.rnti]
    · rfl
  fits := by
    intro l v hl
    rw [StdMap.getElem?_insert] at hl
    split_ifs at hl
    · exact Option.some.inj hl ▸ ht.fits
    · exact h.fits l v hl
  held := by
    have hsame : ∀ l, l ≠ k → granted (db.insert k u') l = granted db l :=
      fun l hl => granted_insert_ne hl
    cases hnext : u'.ulNextAlloc with
    | none =>
      refine (h.held.grow ht.grow).skip ?_ hsame
      rw [granted_insert, hnext]
      rfl
    | some pid =>
      obtain ⟨hfree, hin⟩ := ht.alloc pid hnext
      refine h.held.grant ?_ hsame hfree ht.grow hin
      rw [granted_insert, hnext]
      rfl

/-- **The metric shares the PRBs out**: no two users get a common one, and no user gets one that
was marked before. -/
theorem newTti_shared (lib : Lib) (m : UlMetric) (db : StdMap SchedUe) (tti : Nat)
    (hN : N < 2 ^ 32) (hm : m.nofRb = N)
    (hfit : ∀ (k : Nat) (u : SchedUe), db[k]? = some u → u.UlFits N) :
    Shared N tti db m.used Set.univ (m.newTti lib db tti).1 (m.newTti lib db tti).2 := by
  have hstart : Shared N tti db m.used { k | k ∈ ([] : List Nat) }
      { m with currentTti := tti } db :=
    ⟨hm, rfl, fun _ => rfl, hfit, (Held.empty m.used _).extend fun k hk => by cases hk⟩
  have hretx := StdMap.visit_inv (f := visitRetx lib)
    (fun done m1 db1 => Shared N tti db m.used { k | k ∈ done } m1 db1)
    (fun done m1 db1 k u h _ hk => by
      have ht : Takes N m1 (visitRetx lib m1 k u).1 u (visitRetx lib m1 k u).2 := by
        have hfits := h.fits k u hk
        rw [← h.nofRb] at hfits ⊢
        exact visitRetx_takes (h.nofRb ▸ hN) hfits
      have hset : { l | l ∈ k :: done } = insert k { l | l ∈ done } := by
        ext l
        simp
      rw [hset]
      exact h.takes hk ht)
    (fun done m1 db1 k h hk => by
      refine { h with held := h.held.extend fun l hl hnot => ?_ }
      obtain rfl : l = k := by
        by_contra hne
        exact hnot ((List.mem_cons.mp hl).resolve_left hne)
      simp [granted, hk])
    db.keys [] _ db (StdMap.nodup_keys db) (by simp) hstart
  unfold newTti
  obtain ⟨⟨m1, db1⟩, hvisit⟩ :
      ∃ r, db.visit (visitRetx lib) db.keys { m with currentTti := tti } = r := ⟨_, rfl⟩
  rw [hvisit] at hretx
  simp only [hvisit]
  -- The users that are not in the map hold nothing.
  have hall : Shared N tti db m.used Set.univ m1 db1 := by
    refine { hretx with held := hretx.held.extend fun k _ hk => ?_ }
    have hnone : db[k]? = none := StdMap.getElem?_of_notMem_keys (by simpa using hk)
    have hnone1 : db1[k]? = none := by
      have := hretx.users k
      rw [hnone] at this
      simpa using this
    simp [granted, hnone1]
  refine StdMap.visit_ind (f := visitNewtx lib)
    (fun m2 db2 => Shared N tti db m.used Set.univ m2 db2) ?_ _ m1 db1 hall
  intro m2 db2 k u h hk
  by_cases hnext : u.ulNextAlloc = none
  · have ht : Takes N m2 (visitNewtx lib m2 k u).1 u (visitNewtx lib m2 k u).2 := by
      have hfits := h.fits k u hk
      rw [← h.nofRb] at hfits ⊢
      exact visitNewtx_takes (h.nofRb ▸ hN) hfits hnext
    have := h.takes hk ht
    rwa [Set.insert_eq_of_mem (Set.mem_univ k)] at this
  · have hsame : visitNewtx lib m2 k u = (m2, u) := by
      unfold visitNewtx
      rw [if_neg (by simpa using hnext)]
    rw [hsame]
    simpa only [StdMap.insert_self hk] using h

end UlMetric

end Srsenb.Mac
