import Srsenb.Base.Rounds
import Srsenb.Mac.UlMetricSpec

/-! # The marks of the uplink metric

`update_allocation` marks PRBs whether they are free or not, and a retransmission calls it as its
test. `apply_user_allocation` tests first. -/

namespace Srsenb

namespace Mac

open StdMap

/-- The PRBs that the loops over an allocation go over. -/
def UlAlloc.taken (a : UlAlloc) : Set Nat := { n | a.rbStart ≤ n ∧ n < a.stop }

theorem UlAlloc.taken_subset (a : UlAlloc) : a.taken ⊆ a.prbs := by
  rintro n ⟨h1, h2⟩
  exact ⟨h1, h2.trans_le (Nat.mod_le _ _)⟩

/-- The PRBs that a user is to get. -/
def SchedUe.ulGrant (u : SchedUe) : Set Nat :=
  { n | ∃ pid, u.ulNextAlloc = some pid ∧ n ∈ (u.ulHarq pid).allocation.taken }

theorem SchedUe.ulGrant_none {u : SchedUe} (h : u.ulNextAlloc = none) : u.ulGrant = ∅ := by
  simp [SchedUe.ulGrant, h]

theorem SchedUe.ulGrant_some {u : SchedUe} {pid : Pid} (h : u.ulNextAlloc = some pid) :
    u.ulGrant = (u.ulHarq pid).allocation.taken := by
  simp [SchedUe.ulGrant, h]

namespace UlMetric

variable (lib : Lib) (m : UlMetric)

/-! ## Testing first -/

/-- The first part of `apply_user_allocation`: a retransmission that finds PRBs. -/
def retxAllocation (u : SchedUe) : Option (Pid × UlMetric × SchedUe) :=
  let pid := SchedUe.getUlHarq m.currentTti
  let h := u.ulHarq pid
  if !h.isEmpty 0 then
    if m.allocationIsValid h.allocation then some (pid, (m.updateAllocation h.allocation).2, u)
    else
      let (ok, alloc) := m.newAllocation lib h.allocation.L
      if ok then some (pid, (m.updateAllocation alloc).2, u.setUl pid (h.setAlloc alloc)) else none
  else none

/-- `apply_user_allocation`; its second part is that of `allocate_user_newtx_prbs`. -/
def applyUserAllocation (u : SchedUe) (retxOnly : Bool) : Option Pid × UlMetric × SchedUe :=
  match m.retxAllocation lib u with
  | some (pid, m', u') => (some pid, m', u')
  | none => if retxOnly then (none, m, u) else m.allocateUserNewtxPrbs lib u

/-- The round of a user when `new_tti` places retransmissions with `apply_user_allocation`. -/
def visitRetxFirst (m : UlMetric) (_ : Nat) (u : SchedUe) : UlMetric × SchedUe :=
  let (next, m, u) := m.applyUserAllocation lib u true
  (m, { u with ulNextAlloc := next })

/-- A retransmission meets its old PRBs all free, or all taken. -/
def OldPrbsWhole (u : SchedUe) : Prop :=
  (u.ulHarq (SchedUe.getUlHarq m.currentTti)).isEmpty 0 = false →
    m.allocationIsValid (u.ulHarq (SchedUe.getUlHarq m.currentTti)).allocation = true ∨
      (u.ulHarq (SchedUe.getUlHarq m.currentTti)).allocation.taken ⊆ m.used

variable {lib m} {a : UlAlloc} {u : SchedUe} {k : Nat}

theorem updateAllocation_taken : (m.updateAllocation a).2.used = m.used ∪ a.taken := by
  ext n
  simp only [updateAllocation, used, UlAlloc.taken, Set.mem_ofPred_eq, Set.mem_union]
  split_ifs with h <;> simp [h]

/-- Marks that are there already change nothing. -/
theorem updateAllocation_marked (h : a.taken ⊆ m.used) : (m.updateAllocation a).2 = m := by
  have hsame : (m.updateAllocation a).2.usedRb = m.usedRb := by
    funext n
    simp only [updateAllocation]
    split_ifs with hn
    · exact (h hn).symm
    · rfl
  calc (m.updateAllocation a).2
      = { m with usedRb := (m.updateAllocation a).2.usedRb } := rfl
    _ = m := by rw [hsame]

theorem taken_free (h : m.allocationIsValid a = true) : Disjoint a.taken m.used := by
  unfold allocationIsValid at h
  split_ifs at h
  rw [List.all_eq_true] at h
  rw [Set.disjoint_left]
  rintro n ⟨h1, h2⟩ hu
  have hfree := h n (List.mem_range'_1.mpr ⟨h1, by omega⟩)
  rw [Set.mem_ofPred_eq.mp hu] at hfree
  cases hfree

theorem newAllocation_taken {L : Nat} (hL : (m.newAllocation lib L).2.L ≠ 0) :
    Disjoint (m.newAllocation lib L).2.taken m.used :=
  (newAllocation_spec hL).2.mono_left (UlAlloc.taken_subset _)

/-! ## One round -/

/-- A round marks more PRBs, and grants none that was marked. -/
structure Fresh (m m' : UlMetric) (u' : SchedUe) : Prop where
  grow : m.used ⊆ m'.used
  fresh : Disjoint u'.ulGrant m.used

/-- A round marks what it grants, and nothing else. -/
def Exact (m m' : UlMetric) (u' : SchedUe) : Prop := m'.used = m.used ∪ u'.ulGrant

theorem visitRetxFirst_exact :
    Exact m (visitRetxFirst lib m k u).1 (visitRetxFirst lib m k u).2 := by
  unfold Exact
  simp only [visitRetxFirst, applyUserAllocation, retxAllocation]
  split_ifs with hempty hok hnew
  · rw [updateAllocation_taken, SchedUe.ulGrant_some rfl]
  · rw [updateAllocation_taken, SchedUe.ulGrant_some rfl]
    simp
  · rw [SchedUe.ulGrant_none rfl, Set.union_empty]
  · rw [SchedUe.ulGrant_none rfl, Set.union_empty]

theorem visitNewtx_exact (lib : Lib) (m : UlMetric) (k : Nat) (hnone : u.ulNextAlloc = none) :
    Exact m (visitNewtx lib m k u).1 (visitNewtx lib m k u).2 ∧
      Fresh m (visitNewtx lib m k u).1 (visitNewtx lib m k u).2 := by
  simp only [visitNewtx, hnone, Option.isNone_none, if_true, allocateUserNewtxPrbs]
  split_ifs with hempty hL
  · have hfree := newAllocation_taken hL
    refine ⟨?_, updateAllocation_grow, ?_⟩
    · unfold Exact
      rw [updateAllocation_taken, SchedUe.ulGrant_some rfl]
      simp [SchedUe.setUl]
    · rw [SchedUe.ulGrant_some rfl]
      simpa [SchedUe.setUl] using hfree
  · exact ⟨by simp [Exact, SchedUe.ulGrant_none], subset_rfl, by simp [SchedUe.ulGrant_none]⟩
  · exact ⟨by simp [Exact, SchedUe.ulGrant_none], subset_rfl, by simp [SchedUe.ulGrant_none]⟩

theorem visitNewtx_some (h : u.ulNextAlloc ≠ none) : visitNewtx lib m k u = (m, u) := by
  unfold visitNewtx
  rw [if_neg (by simpa using h)]

theorem visitRetx_fresh : Fresh m (visitRetx lib m k u).1 (visitRetx lib m k u).2 := by
  simp only [visitRetx, allocateUserRetxPrbs]
  split_ifs with hempty hok hnew
  · refine ⟨updateAllocation_grow, ?_⟩
    rw [SchedUe.ulGrant_some rfl]
    exact taken_free hok
  · have hfree := newAllocation_taken (newAllocation_ne_zero hnew)
    refine ⟨updateAllocation_grow.trans updateAllocation_grow, ?_⟩
    rw [SchedUe.ulGrant_some rfl]
    simpa [SchedUe.setUl] using hfree.mono_right updateAllocation_grow
  · exact ⟨updateAllocation_grow, by simp [SchedUe.ulGrant_none]⟩
  · exact ⟨subset_rfl, by simp [SchedUe.ulGrant_none]⟩

/-- Testing first or not is the same for a user whose old PRBs are all free or all taken. -/
theorem visitRetx_eq (h : OldPrbsWhole m u) : visitRetx lib m k u = visitRetxFirst lib m k u := by
  simp only [visitRetx, visitRetxFirst, allocateUserRetxPrbs, applyUserAllocation, retxAllocation]
  cases hempty : (u.ulHarq (SchedUe.getUlHarq m.currentTti)).isEmpty 0 with
  | true => simp
  | false =>
    simp only [Bool.not_false, if_true]
    cases hok : m.allocationIsValid (u.ulHarq (SchedUe.getUlHarq m.currentTti)).allocation with
    | true => simp [updateAllocation, hok]
    | false =>
      have hmarked := (h hempty).resolve_left (by simp [hok])
      rw [updateAllocation_marked hmarked]
      simp only [updateAllocation, hok, Bool.false_eq_true, if_false]
      split_ifs <;> rfl

/-- Otherwise a PRB stays marked that the user is not granted. -/
theorem visitRetx_stray (lib : Lib) (k : Nat) (h : ¬OldPrbsWhole m u) : ∃ n, n ∉ m.used ∧
    n ∈ (visitRetx lib m k u).1.used ∧ n ∉ (visitRetx lib m k u).2.ulGrant := by
  unfold OldPrbsWhole at h
  push Not at h
  obtain ⟨hempty, hinvalid, hfree⟩ := h
  obtain ⟨n, htaken, hn⟩ := Set.not_subset.mp hfree
  have hmarked : n ∈ (m.updateAllocation
      (u.ulHarq (SchedUe.getUlHarq m.currentTti)).allocation).2.used := by
    rw [updateAllocation_taken]
    exact Or.inr htaken
  refine ⟨n, hn, ?_⟩
  simp only [visitRetx, allocateUserRetxPrbs, hempty, Bool.not_false, if_true]
  split_ifs with hok hnew
  · exact absurd hok hinvalid
  · -- The other PRBs were free when the old ones were marked.
    refine ⟨updateAllocation_grow hmarked, ?_⟩
    have hother := newAllocation_taken (newAllocation_ne_zero hnew)
    rw [SchedUe.ulGrant_some rfl]
    simpa [SchedUe.setUl] using Set.disjoint_right.mp hother hmarked
  · exact ⟨hmarked, by simp [SchedUe.ulGrant_none]⟩

/-! ## All users -/

/-- The PRBs that the users in `S` are to get. -/
def grants (S : Set Nat) (db : StdMap SchedUe) : Set Nat :=
  { n | ∃ k ∈ S, ∃ u : SchedUe, db[k]? = some u ∧ n ∈ u.ulGrant }

variable {S base : Set Nat} {db : StdMap SchedUe} {u' : SchedUe}

theorem grants_insert (h : k ∉ S ∨ ∀ v : SchedUe, db[k]? = some v → v.ulGrant = ∅) :
    grants (insert k S) (db.insert k u') = grants S db ∪ u'.ulGrant := by
  ext n
  simp only [grants, Set.mem_ofPred_eq, Set.mem_union, getElem?_insert]
  constructor
  · rintro ⟨l, hl, v, hv, hn⟩
    split_ifs at hv with hkl
    · exact Or.inr (Option.some.inj hv ▸ hn)
    · exact Or.inl ⟨l, hl.resolve_left (Ne.symm hkl), v, hv, hn⟩
  · rintro (⟨l, hl, v, hv, hn⟩ | hn)
    · have hkl : k ≠ l := by
        rintro rfl
        rcases h with h | h
        · exact h hl
        · rw [h v hv] at hn
          exact hn
      exact ⟨l, Set.mem_insert_of_mem k hl, v, by rw [if_neg hkl, hv], hn⟩
    · exact ⟨k, Set.mem_insert k S, u', if_pos rfl, hn⟩

/-- The marks are those of the base and of the grants. -/
def Balanced (base S : Set Nat) (m : UlMetric) (db : StdMap SchedUe) : Prop :=
  m.used = base ∪ grants S db

/-- A PRB is marked that is neither of the base nor of a grant. -/
def Stray (base S : Set Nat) (m : UlMetric) (db : StdMap SchedUe) : Prop :=
  ∃ n, n ∈ m.used ∧ n ∉ base ∧ n ∉ grants S db

variable {m' : UlMetric}

theorem Balanced.round (hb : Balanced base S m db) (he : Exact m m' u')
    (h : k ∉ S ∨ ∀ v : SchedUe, db[k]? = some v → v.ulGrant = ∅) :
    Balanced base (insert k S) m' (db.insert k u') := by
  unfold Balanced Exact at *
  rw [he, hb, grants_insert h, Set.union_assoc]

theorem Stray.round (hs : Stray base S m db) (hf : Fresh m m' u')
    (h : k ∉ S ∨ ∀ v : SchedUe, db[k]? = some v → v.ulGrant = ∅) :
    Stray base (insert k S) m' (db.insert k u') := by
  obtain ⟨n, hn, hbase, hgrants⟩ := hs
  refine ⟨n, hf.grow hn, hbase, ?_⟩
  rw [grants_insert h]
  exact fun h => h.elim hgrants (Set.disjoint_right.mp hf.fresh hn)

theorem Stray.not_balanced (hs : Stray base S m db) : ¬Balanced base S m db := by
  obtain ⟨n, hn, hbase, hgrants⟩ := hs
  intro hb
  rw [hb] at hn
  exact hn.elim hbase hgrants

theorem grants_congr {S' : Set Nat}
    (h : ∀ (k : Nat) (u : SchedUe), db[k]? = some u → (k ∈ S ↔ k ∈ S')) :
    grants S db = grants S' db := by
  ext n
  constructor
  · rintro ⟨k, hk, u, hu, hn⟩
    exact ⟨k, (h k u hu).mp hk, u, hu, hn⟩
  · rintro ⟨k, hk, u, hu, hn⟩
    exact ⟨k, (h k u hu).mpr hk, u, hu, hn⟩

theorem visited_cons {k : Nat} {done : List Nat} :
    { l | l ∈ k :: done } = insert k { l | l ∈ done } := by
  ext l
  simp

/-- The first users, with the test before the marks. -/
theorem visitRetxFirst_balanced (lib : Lib) {ks : List Nat} (hnd : ks.Nodup) (m : UlMetric)
    (db : StdMap SchedUe) :
    Balanced m.used { l | l ∈ ks } (db.visit (visitRetxFirst lib) ks m).1
      (db.visit (visitRetxFirst lib) ks m).2 := by
  have hstart : Balanced m.used { l | l ∈ ([] : List Nat) } m db := by
    simp [Balanced, grants]
  have hloop := visit_inv (f := visitRetxFirst lib)
    (fun done m' db' => Balanced m.used { l | l ∈ done } m' db') ?_ ?_ ks [] m db hnd (by simp)
    hstart
  · simpa using hloop
  · intro done m' db' k u h hk hu
    rw [visited_cons]
    exact h.round visitRetxFirst_exact (Or.inl hk)
  · intro done m' db' k h hk
    unfold Balanced at h ⊢
    rw [h]
    congr 1
    refine grants_congr fun l v hl => ?_
    have hlk : l ≠ k := by
      rintro rfl
      rw [hk] at hl
      cases hl
    simp [hlk]

/-- The users after one that leaves a stray mark. -/
theorem visitRetx_keeps_stray {ks done : List Nat} (hnd : ks.Nodup) (hdis : ∀ k ∈ ks, k ∉ done)
    (h : Stray base { l | l ∈ done } m db) :
    Stray base { l | l ∈ ks.reverse ++ done } (db.visit (visitRetx lib) ks m).1
      (db.visit (visitRetx lib) ks m).2 := by
  refine visit_inv (f := visitRetx lib) (fun done m' db' => Stray base { l | l ∈ done } m' db')
    ?_ ?_ ks done m db hnd hdis h
  · intro done m' db' k u h hk hu
    rw [visited_cons]
    exact h.round visitRetx_fresh (Or.inl hk)
  · rintro done m' db' k ⟨n, hn, hbase, hgrants⟩ hk
    refine ⟨n, hn, hbase, ?_⟩
    rintro ⟨l, hl, v, hv, hmem⟩
    have hlk : l ≠ k := by
      rintro rfl
      rw [hk] at hv
      cases hv
    exact hgrants ⟨l, List.mem_of_ne_of_mem hlk hl, v, hv, hmem⟩

/-- The second loop keeps the balance, and a stray mark. -/
theorem visitNewtx_keeps (ks : List Nat) (m : UlMetric) (db : StdMap SchedUe) :
    (Balanced base Set.univ m db → Balanced base Set.univ (db.visit (visitNewtx lib) ks m).1
      (db.visit (visitNewtx lib) ks m).2) ∧
    (Stray base Set.univ m db → Stray base Set.univ (db.visit (visitNewtx lib) ks m).1
      (db.visit (visitNewtx lib) ks m).2) := by
  refine visit_ind (f := visitNewtx lib) (fun m' db' =>
    (Balanced base Set.univ m db → Balanced base Set.univ m' db') ∧
      (Stray base Set.univ m db → Stray base Set.univ m' db')) ?_ ks m db ⟨id, id⟩
  rintro m' db' k u ⟨hb, hs⟩ hk
  by_cases hnone : u.ulNextAlloc = none
  · obtain ⟨hexact, hfree⟩ := visitNewtx_exact lib m' k hnone
    have hbefore : k ∉ (Set.univ : Set Nat) ∨ ∀ v : SchedUe, db'[k]? = some v → v.ulGrant = ∅ := by
      refine Or.inr fun v hv => ?_
      rw [hk] at hv
      exact SchedUe.ulGrant_none (Option.some.inj hv ▸ hnone)
    have hall : insert k (Set.univ : Set Nat) = Set.univ := Set.insert_eq_of_mem (Set.mem_univ k)
    refine ⟨fun h => ?_, fun h => ?_⟩
    · have hround := (hb h).round hexact hbefore
      rwa [hall] at hround
    · have hround := (hs h).round hfree hbefore
      rwa [hall] at hround
  · rw [visitNewtx_some hnone, insert_self hk]
    exact ⟨hb, hs⟩

/-! ## Exactness -/

/-- The marks after `new_tti` are those before and the grants, and the retransmissions are placed
as by the code that tests first. -/
structure BookkeepingExact (lib : Lib) (m : UlMetric) (db : StdMap SchedUe) (tti : Nat) : Prop where
  marks : ∀ n, (m.newTti lib db tti).1.usedRb n = true ↔ m.usedRb n = true ∨
    ∃ (k : Nat) (u : SchedUe) (pid : Pid), (m.newTti lib db tti).2[k]? = some u ∧
      u.ulNextAlloc = some pid ∧ n ∈ (u.ulHarq pid).allocation.taken
  retx : db.visit (visitRetx lib) db.keys { m with currentTti := tti } =
    db.visit (visitRetxFirst lib) db.keys { m with currentTti := tti }

variable {tti : Nat}

theorem marks_iff : (∀ n, (m.newTti lib db tti).1.usedRb n = true ↔ m.usedRb n = true ∨
      ∃ (k : Nat) (u : SchedUe) (pid : Pid), (m.newTti lib db tti).2[k]? = some u ∧
        u.ulNextAlloc = some pid ∧ n ∈ (u.ulHarq pid).allocation.taken) ↔
    Balanced m.used Set.univ (m.newTti lib db tti).1 (m.newTti lib db tti).2 := by
  unfold Balanced
  rw [Set.ext_iff]
  refine forall_congr' fun n => ?_
  simp only [used, grants, SchedUe.ulGrant, Set.mem_ofPred_eq, Set.mem_union, Set.mem_univ,
    true_and, exists_and_left]

/-- After a loop over the map, the grants are those of its keys. -/
theorem grants_keys {f : UlMetric → Nat → SchedUe → UlMetric × SchedUe} {ks : List Nat} :
    grants { l | l ∈ db.keys } (db.visit f ks m).2 = grants Set.univ (db.visit f ks m).2 := by
  refine grants_congr fun k u hu => iff_of_true ?_ trivial
  rw [Set.mem_ofPred_eq, mem_keys, ← visit_isSome ks m db k, hu]
  rfl

/-- A user that meets a part of its old PRBs taken leaves a stray mark. -/
theorem stray_of_not_whole {pre post : List Nat} (hkeys : db.keys = pre ++ k :: post)
    (hpre : db.visit (visitRetx lib) pre m = db.visit (visitRetxFirst lib) pre m)
    (hu : db[k]? = some u) (hnot : ¬OldPrbsWhole (db.visit (visitRetxFirst lib) pre m).1 u) :
    Stray m.used Set.univ (db.visit (visitRetx lib) db.keys m).1
      (db.visit (visitRetx lib) db.keys m).2 := by
  have hnd := nodup_keys db
  rw [hkeys] at hnd
  obtain ⟨hndpre, hndpost, hdis⟩ := List.nodup_append.mp hnd
  have hkpre : k ∉ pre := fun h => hdis k h k List.mem_cons_self rfl
  have hkpost := (List.nodup_cons.mp hndpost).1
  have hget : (db.visit (visitRetxFirst lib) pre m).2[k]? = some u := by
    rw [visit_get_of_notMem hkpre, hu]
  have hbalanced := visitRetxFirst_balanced lib hndpre m db
  obtain ⟨n, hfree, hmarked, hnotown⟩ := visitRetx_stray lib k hnot
  -- The mark is of neither kind when the round of `k` is over.
  have hstray : Stray m.used { l | l ∈ k :: pre }
      (visitRetx lib (db.visit (visitRetxFirst lib) pre m).1 k u).1
      ((db.visit (visitRetxFirst lib) pre m).2.insert k
        (visitRetx lib (db.visit (visitRetxFirst lib) pre m).1 k u).2) := by
    unfold Balanced at hbalanced
    rw [hbalanced] at hfree
    refine ⟨n, hmarked, fun h => hfree (Or.inl h), ?_⟩
    rw [visited_cons, grants_insert (Or.inl hkpre)]
    exact fun h => h.elim (fun h => hfree (Or.inr h)) hnotown
  have hrest : ∀ l ∈ post, l ∉ k :: pre := by
    intro l hl hmem
    rcases List.mem_cons.mp hmem with rfl | hmem
    · exact hkpost hl
    · exact hdis l hmem l (List.mem_cons_of_mem k hl) rfl
  obtain ⟨n, hn, hbase, hgrants⟩ :=
    visitRetx_keeps_stray (List.nodup_cons.mp hndpost).2 hrest hstray
  rw [← visit_cons hget, ← hpre, ← visit_append, ← hkeys] at hn hgrants
  have hvisited : { l | l ∈ db.keys } = { l | l ∈ post.reverse ++ k :: pre } := by
    ext l
    simp only [hkeys, Set.mem_ofPred_eq, List.mem_append, List.mem_cons, List.mem_reverse]
    tauto
  refine ⟨n, hn, hbase, ?_⟩
  rwa [← grants_keys, hvisited]

/-- **The marks of the uplink metric are exact**, if and only if each retransmission meets its old
PRBs all free or all taken, when the earlier ones were tested first. -/
theorem bookkeeping_exact_iff (lib : Lib) (m : UlMetric) (db : StdMap SchedUe) (tti : Nat) :
    BookkeepingExact lib m db tti ↔
      EachRound (visitRetxFirst lib) { m with currentTti := tti } db
        (fun m' _ u => OldPrbsWhole m' u) := by
  obtain ⟨m0, hm0⟩ : ∃ m0 : UlMetric, { m with currentTti := tti } = m0 := ⟨_, rfl⟩
  have hused : m.used = m0.used := hm0 ▸ rfl
  obtain ⟨ks, hks⟩ : ∃ ks, m.newTti lib db tti =
      (db.visit (visitRetx lib) db.keys m0).2.visit (visitNewtx lib) ks
        (db.visit (visitRetx lib) db.keys m0).1 := by
    rw [← hm0]
    exact ⟨_, rfl⟩
  constructor
  · rintro ⟨hmarks, -⟩
    rw [marks_iff, hks, hused] at hmarks
    have hprefix : ∀ {pre post : List Nat}, db.keys = pre ++ post → ∀ k ∈ pre, ∀ u : SchedUe,
        db[k]? = some u → OldPrbsWhole (db.visit (visitRetxFirst lib) (before db k) m0).1 u := by
      intro pre
      induction pre using List.reverseRecOn with
      | nil => exact fun _ k hk => absurd hk List.not_mem_nil
      | append_singleton pre a ih =>
        intro post hkeys k hk u hu
        rw [List.append_assoc, List.singleton_append] at hkeys
        rcases List.mem_append.mp hk with hk | hk
        · exact ih hkeys k hk u hu
        · obtain rfl := List.mem_singleton.mp hk
          rw [before_eq hkeys]
          by_contra hnot
          have hpre := visit_prefix_congr hkeys fun l hl v hv =>
            visitRetx_eq (ih hkeys l hl v hv)
          exact ((visitNewtx_keeps ks _ _).2 (stray_of_not_whole hkeys hpre hu hnot)).not_balanced
            hmarks
    rw [hm0]
    intro k u hu
    exact hprefix (List.append_nil _).symm k (mem_keys.mpr (by rw [hu]; rfl)) u hu
  · intro hwhole
    have hsame : db.visit (visitRetx lib) db.keys m0 =
        db.visit (visitRetxFirst lib) db.keys m0 :=
      visit_prefix_congr (List.append_nil _).symm fun k _ u hu =>
        visitRetx_eq (hm0 ▸ hwhole k u hu)
    refine ⟨marks_iff.mpr ?_, hm0 ▸ hsame⟩
    rw [hks, hused]
    refine (visitNewtx_keeps _ _ _).1 ?_
    have hfirst := visitRetxFirst_balanced lib (nodup_keys db) m0 db
    rw [← hsame] at hfirst
    unfold Balanced at hfirst ⊢
    rw [hfirst, grants_keys]

/-- A user whose process 0 waits for a retransmission in PRBs 3 and 4. -/
def waitingUe : SchedUe where
  rnti := 70
  cell := ⟨6, 1, 7⟩
  P := 1
  dciLocations _ _ := ⟨fun _ _ => 0, fun _ => 0⟩
  dlHarq _ := {}
  ulHarq := Function.update (fun _ => {}) 0
    { tb := fun _ => { active := true, ack := false }, allocation := ⟨3, 2⟩ }

/-- PRB 3 is reserved, so the retransmission moves to PRBs 0 and 1, and PRB 4 stays marked. -/
theorem not_bookkeeping_exact_moved :
    ¬BookkeepingExact exampleLib { nofRb := 6, usedRb := fun n => n == 3 }
      ((∅ : StdMap SchedUe).insert 70 waitingUe) 0 := by
  intro h
  have hmarked : (newTti exampleLib { nofRb := 6, usedRb := fun n => n == 3 }
      ((∅ : StdMap SchedUe).insert 70 waitingUe) 0).1.usedRb 4 = true := by decide
  have hgrants : ∀ it ∈ (newTti exampleLib { nofRb := 6, usedRb := fun n => n == 3 }
      ((∅ : StdMap SchedUe).insert 70 waitingUe) 0).2.toList, ∀ pid : Pid,
      it.2.ulNextAlloc = some pid → ¬((it.2.ulHarq pid).allocation.rbStart ≤ 4 ∧
        4 < (it.2.ulHarq pid).allocation.stop) := by decide
  rcases (h.marks 4).mp hmarked with hreserved | ⟨k, u, pid, hu, hpid, hmem⟩
  · exact absurd hreserved (by decide)
  · exact hgrants (k, u) (Std.ExtTreeMap.mem_toList_iff_getElem?_eq_some.mpr hu) pid hpid hmem

end UlMetric

end Mac

end Srsenb
