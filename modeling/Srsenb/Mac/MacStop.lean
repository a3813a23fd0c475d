import Mathlib.Data.List.Sort
import Srsenb.Base.RoundRobin
import Srsenb.Base.While
import Srsenb.Mac.Lib

/-! # The users that `mac::stop` deletes

The loop counts up to the size of the map, and its `operator[]` inserts the keys that are
missing. -/

namespace Srsenb

namespace StdMap

/-! ## The first keys of a map, read one after the other -/

section Subscript

variable {β : Type} [Inhabited β] {m : StdMap β}

/-- The map after `m[0]` to `m[n - 1]` are evaluated. -/
def touchBelow (m : StdMap β) : Nat → StdMap β
  | 0 => m
  | n + 1 => touch (touchBelow m n) n

theorem sub_touchBelow (m : StdMap β) (n k : Nat) : sub (touchBelow m n) k = sub m k := by
  induction n with
  | zero => rfl
  | succ n ih => rw [touchBelow, sub_touch, ih]

theorem mem_keys_touchBelow {n k : Nat} :
    k ∈ (touchBelow m n).keys ↔ k < n ∨ k ∈ m.keys := by
  induction n with
  | zero => simp [touchBelow]
  | succ n ih =>
    rw [mem_keys] at ih
    rw [touchBelow, mem_keys, getElem?_touch]
    split_ifs with hk
    · simp [hk]
    · rw [ih, Nat.lt_succ_iff_lt_or_eq, or_assoc]
      simp [Ne.symm hk]

/-- There are more than `n` keys as long as one of them is still to come. -/
theorem size_touchBelow {n : Nat} :
    n < (touchBelow m n).size ↔ ∃ k ∈ m.keys, n ≤ k := by
  rw [size_eq_length_keys]
  constructor
  · intro hlt
    by_contra! hall
    have hperm : (touchBelow m n).keys.Perm (List.range n) := by
      rw [List.perm_ext_iff_of_nodup (nodup_keys _) List.nodup_range]
      intro k
      rw [mem_keys_touchBelow, List.mem_range]
      exact or_iff_left_of_imp (hall k)
    rw [hperm.length_eq, List.length_range] at hlt
    exact Nat.lt_irrefl n hlt
  · rintro ⟨k, hk, hle⟩
    have hnd : (k :: List.range n).Nodup :=
      List.nodup_cons.mpr ⟨by simpa using hle, List.nodup_range⟩
    have hsub : k :: List.range n ⊆ (touchBelow m n).keys := by
      intro a ha
      rw [mem_keys_touchBelow]
      rcases List.mem_cons.mp ha with rfl | ha
      · exact Or.inr hk
      · exact Or.inl (List.mem_range.mp ha)
    have hle := (List.subperm_of_subset hnd hsub).length_le
    rwa [List.length_cons, List.length_range] at hle

theorem toList_eq_map_keys (m : StdMap β) : m.toList = m.keys.map fun k => (k, sub m k) := by
  rw [← Std.ExtTreeMap.map_fst_toList_eq_keys, List.map_map]
  refine (List.map_id _).symm.trans (List.map_congr_left ?_)
  rintro ⟨k, v⟩ hmem
  rw [Std.ExtTreeMap.mem_toList_iff_getElem?_eq_some] at hmem
  simp [sub_of_get hmem]

omit [Inhabited β] in
theorem keys_eq_filter_range {n : Nat} (h : ∀ k ∈ m.keys, k < n) :
    m.keys = (List.range n).filter fun k => m[k]?.isSome := by
  refine (sorted_keys m).eq_of_mem_iff (List.pairwise_lt_range.filter _) ?_
  intro k
  rw [List.mem_filter, List.mem_range, ← mem_keys]
  exact ⟨fun hk => ⟨h k hk, hk⟩, And.right⟩

end Subscript

/-- What the subscripts up to the last key read, apart from null pointers. -/
theorem filter_sub {α : Type} {m : StdMap (Option α)} {n : Nat} (h : ∀ k ∈ m.keys, k < n)
    (hnonnull : ∀ (k : Nat) (p : Option α), m[k]? = some p → p.isSome = true) :
    ((List.range n).map (sub m)).filter Option.isSome = m.toList.map Prod.snd := by
  have hsome : ∀ k, (sub m k).isSome = m[k]?.isSome := by
    intro k
    cases hk : m[k]? with
    | none => rw [sub_eq, hk]; rfl
    | some p => rw [sub_of_get hk, hnonnull k p hk]; rfl
  rw [toList_eq_map_keys, keys_eq_filter_range h, List.filter_map, List.map_map]
  congr 1
  apply List.filter_congr
  intro k _
  exact hsome k

end StdMap

namespace Mac

/-! ## The loop -/

/-- `ue_db`, with any RNTIs below 65535. -/
structure UeDb (α : Type) where
  users : StdMap (Option α)
  rnti_lt : ∀ rnti ∈ users.keys, rnti < 65535
  nonnull : ∀ (rnti : Nat) (p : Option α), users[rnti]? = some p → p.isSome = true

structure StopState (α : Type) where
  i : Nat
  ueDb : StdMap (Option α)
  deleted : List (Option α)

variable {α : Type}

/-- One round of the loop of `mac::stop`. `i` is a `uint32_t` and the key a `uint16_t`. -/
def stopRound (s : StopState α) : Exit (StopState α) (StopState α) :=
  if s.i < s.ueDb.size then
    .next ⟨u32 (s.i + 1), s.ueDb.touch (s.i % 2 ^ 16), s.deleted ++ [s.ueDb.sub (s.i % 2 ^ 16)]⟩
  else .done s

/-- The state before the round `n`. -/
def stopState (m : StdMap (Option α)) (n : Nat) : StopState α :=
  ⟨n, m.touchBelow n, (List.range n).map m.sub⟩

theorem stopRound_next {m : StdMap (Option α)} {n : Nat} (hkey : ∃ rnti ∈ m.keys, n ≤ rnti)
    (hn : n < 65535) : stopRound (stopState m n) = .next (stopState m (n + 1)) := by
  have hsize : (stopState m n).i < (stopState m n).ueDb.size := StdMap.size_touchBelow.mpr hkey
  unfold stopRound
  rw [if_pos hsize]
  simp only [stopState, u32, Nat.mod_eq_of_lt (show n < 2 ^ 16 by omega),
    Nat.mod_eq_of_lt (show n + 1 < 2 ^ 32 by omega), StdMap.sub_touchBelow, List.range_succ,
    List.map_append, List.map_singleton]
  rfl

/-- The loop ends. It has then deleted the object of each user once, in the order of the RNTIs, and
otherwise only null pointers. -/
theorem stop_deletes (db : UeDb α) : ∃ s, While.Ends stopRound ⟨0, db.users, []⟩ s ∧
    s.deleted.filter Option.isSome = db.users.toList.map Prod.snd := by
  -- the next key is at most the last RNTI, so it does not wrap
  refine While.ends_of_measure (P := fun s => ∃ n ≤ 65535, s = stopState db.users n)
    (fun s => 65535 - s.i) _ ?_ ⟨0, by omega, rfl⟩
  rintro s ⟨n, hn, rfl⟩
  by_cases hkey : ∃ rnti ∈ db.users.keys, n ≤ rnti
  · right
    have hlt : n < 65535 := by
      obtain ⟨rnti, hmem, hle⟩ := hkey
      exact Nat.lt_of_le_of_lt hle (db.rnti_lt rnti hmem)
    refine ⟨_, stopRound_next hkey hlt, ⟨n + 1, by omega, rfl⟩, ?_⟩
    simp only [stopState]
    omega
  · left
    refine ⟨stopState db.users n, if_neg ?_, ?_⟩
    · rw [← StdMap.size_touchBelow] at hkey
      exact hkey
    · apply StdMap.filter_sub _ db.nonnull
      intro rnti hmem
      exact Nat.lt_of_not_le fun hle => hkey ⟨rnti, hmem, hle⟩

end Mac

end Srsenb
