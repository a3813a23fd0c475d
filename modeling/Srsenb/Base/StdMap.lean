import Mathlib.Data.List.TakeWhile
import Mathlib.Tactic.Common
import Mathlib.Algebra.Order.Ring.Int
import Mathlib.Data.Set.Lattice
import Mathlib.Data.Fin.Basic

/-! # Ordered maps as C++ uses them

A `std::map` with natural keys. Its `operator[]` inserts a default value for a missing key, on a
read as well as on a write, so a lookup may change the map. -/

namespace Srsenb

/-- `std::map<K, T>` for an unsigned `K`. -/
abbrev StdMap (β : Type) := Std.ExtTreeMap Nat β compare

namespace StdMap

variable {β : Type}

@[simp] theorem getElem?_insert (m : StdMap β) (k a : Nat) (v : β) :
    (m.insert k v)[a]? = if k = a then some v else m[a]? := by
  rw [Std.ExtTreeMap.getElem?_insert]
  simp only [Std.LawfulEqOrd.compare_eq_iff_eq]

@[simp] theorem getElem?_erase (m : StdMap β) (k a : Nat) :
    (m.erase k)[a]? = if k = a then none else m[a]? := by
  rw [Std.ExtTreeMap.getElem?_erase]
  simp only [Std.LawfulEqOrd.compare_eq_iff_eq]

@[simp] theorem getElem?_modify (m : StdMap β) (k a : Nat) (f : β → β) :
    (m.modify k f)[a]? = if k = a then m[a]?.map f else m[a]? := by
  rw [Std.ExtTreeMap.getElem?_modify]
  simp only [Std.LawfulEqOrd.compare_eq_iff_eq]
  split_ifs with hk
  · rw [hk]
  · rfl

theorem exists_get {m : StdMap β} {k : Nat} (h : ¬ m[k]?.isNone = true) : ∃ v, m[k]? = some v := by
  cases hm : m[k]? with
  | none => simp [hm] at h
  | some v => exact ⟨v, rfl⟩

theorem insert_self {m : StdMap β} {k : Nat} {v : β} (h : m[k]? = some v) : m.insert k v = m := by
  apply Std.ExtTreeMap.ext_getElem?
  intro a
  rw [getElem?_insert]
  split_ifs with hk
  · rw [← hk, h]
  · rfl

/-- A new value for a key that is there. -/
theorem isSome_insert {m : StdMap β} {k a : Nat} {v w : β} (h : m[k]? = some w) :
    (m.insert k v)[a]?.isSome = true ↔ m[a]?.isSome = true := by
  rw [getElem?_insert]
  split_ifs with hk
  · simp [← hk, h]
  · rfl

theorem erase_of_none {m : StdMap β} {k : Nat} (h : m[k]? = none) : m.erase k = m := by
  apply Std.ExtTreeMap.ext_getElem?
  intro a
  rw [getElem?_erase]
  split_ifs with hk
  · rw [← hk, h]
  · rfl

/-! ## The domain -/

/-- The keys that are there. -/
def dom (m : StdMap β) : Set Nat := {k | m[k]?.isSome = true}

theorem mem_dom {m : StdMap β} {k : Nat} : k ∈ dom m ↔ m[k]?.isSome = true := Iff.rfl

theorem mem_dom_of_get {m : StdMap β} {k : Nat} {v : β} (h : m[k]? = some v) : k ∈ dom m := by
  rw [mem_dom, h]
  rfl

theorem notMem_dom {m : StdMap β} {k : Nat} : k ∉ dom m ↔ m[k]? = none := by
  rw [mem_dom]
  simp

@[simp] theorem dom_empty : dom (∅ : StdMap β) = ∅ := by
  ext k
  simp [mem_dom]

@[simp] theorem dom_insert (m : StdMap β) (k : Nat) (v : β) :
    dom (m.insert k v) = insert k (dom m) := by
  ext a
  rw [Set.mem_insert_iff, mem_dom, mem_dom, getElem?_insert]
  split_ifs with hk
  · simp [hk]
  · simp [Ne.symm hk]

theorem dom_insert_of_mem {m : StdMap β} {k : Nat} (h : k ∈ dom m) (v : β) :
    dom (m.insert k v) = dom m := by
  rw [dom_insert, Set.insert_eq_of_mem h]

@[simp] theorem dom_erase (m : StdMap β) (k : Nat) : dom (m.erase k) = dom m \ {k} := by
  ext a
  rw [Set.mem_sdiff, Set.mem_singleton_iff, mem_dom, mem_dom, getElem?_erase]
  split_ifs with hk
  · simp [hk]
  · simp [Ne.symm hk]

@[simp] theorem dom_modify (m : StdMap β) (k : Nat) (f : β → β) :
    dom (m.modify k f) = dom m := by
  ext a
  rw [mem_dom, mem_dom, getElem?_modify]
  split_ifs
  · rw [Option.isSome_map]
  · rfl

/-! ## `operator[]` -/

section Subscript

variable [Inhabited β]

/-- The value that `m[k]` reads. -/
def sub (m : StdMap β) (k : Nat) : β := m.getD k default

/-- The map after `m[k]` is evaluated. -/
def touch (m : StdMap β) (k : Nat) : StdMap β := m.insertIfNew k default

/-- `m[k]` is updated by `f`. -/
def update (m : StdMap β) (k : Nat) (f : β → β) : StdMap β := m.insert k (f (sub m k))

theorem sub_eq (m : StdMap β) (k : Nat) : sub m k = m[k]?.getD default := by
  unfold sub
  rw [Std.ExtTreeMap.getD_eq_getD_getElem?]

theorem sub_of_get {m : StdMap β} {k : Nat} {v : β} (h : m[k]? = some v) : sub m k = v := by
  rw [sub_eq, h]; rfl

@[simp] theorem getElem?_update (m : StdMap β) (k a : Nat) (f : β → β) :
    (update m k f)[a]? = if k = a then some (f (sub m k)) else m[a]? := by
  unfold update
  rw [getElem?_insert]

theorem getElem?_touch (m : StdMap β) (k a : Nat) :
    (touch m k)[a]? = if k = a then some (sub m k) else m[a]? := by
  unfold touch
  rw [Std.ExtTreeMap.getElem?_insertIfNew, sub_eq]
  simp only [Std.LawfulEqOrd.compare_eq_iff_eq]
  by_cases hk : k = a
  · subst hk
    cases hm : m[k]? with
    | none => simp [Std.ExtTreeMap.mem_iff_isSome_getElem?, hm]
    | some v => simp [Std.ExtTreeMap.mem_iff_isSome_getElem?, hm]
  · simp [hk]

@[simp] theorem dom_touch (m : StdMap β) (k : Nat) : dom (touch m k) = insert k (dom m) := by
  ext a
  rw [Set.mem_insert_iff, mem_dom, mem_dom, getElem?_touch]
  split_ifs with hk
  · simp [hk]
  · simp [Ne.symm hk]

@[simp] theorem dom_update (m : StdMap β) (k : Nat) (f : β → β) :
    dom (update m k f) = insert k (dom m) := dom_insert m k _

theorem isSome_touch {m : StdMap β} {k a : Nat} (h : a = k ∨ m[a]?.isSome = true) :
    (touch m k)[a]?.isSome = true := by
  rw [getElem?_touch]
  split_ifs with hk
  · rfl
  · exact h.resolve_left (Ne.symm hk)

theorem sub_touch (m : StdMap β) (k a : Nat) : sub (touch m k) a = sub m a := by
  rw [sub_eq, getElem?_touch]
  split_ifs with hk
  · rw [hk]
    rfl
  · rw [sub_eq]

theorem sub_update (m : StdMap β) (k a : Nat) (f : β → β) :
    sub (update m k f) a = if k = a then f (sub m k) else sub m a := by
  rw [sub_eq, getElem?_update]
  split_ifs
  · rfl
  · rw [sub_eq]

theorem sub_erase (m : StdMap β) (k a : Nat) :
    sub (m.erase k) a = if k = a then default else sub m a := by
  rw [sub_eq, getElem?_erase]
  split_ifs
  · rfl
  · rw [sub_eq]

theorem touch_of_get {m : StdMap β} {k : Nat} {v : β} (h : m[k]? = some v) : touch m k = m := by
  have hk : k ∈ m := by
    rw [Std.ExtTreeMap.mem_iff_isSome_getElem?, h]; rfl
  apply Std.ExtTreeMap.ext_getElem?
  intro a
  unfold touch
  rw [Std.ExtTreeMap.getElem?_insertIfNew]
  split_ifs with hka
  · exact absurd hk hka.2
  · rfl

end Subscript

/-! ## Keys -/

theorem nodup_keys (m : StdMap β) : m.keys.Nodup := Std.ExtTreeMap.nodup_keys

theorem mem_keys {m : StdMap β} {k : Nat} : k ∈ m.keys ↔ m[k]?.isSome = true := by
  rw [Std.ExtTreeMap.mem_keys, Std.ExtTreeMap.mem_iff_isSome_getElem?]

theorem sorted_keys (m : StdMap β) : m.keys.Pairwise (· < ·) :=
  Std.ExtTreeMap.ordered_keys.imp fun h => Nat.compare_eq_lt.mp h

theorem getElem?_of_notMem_keys {m : StdMap β} {k : Nat} (h : k ∉ m.keys) : m[k]? = none := by
  rw [Std.ExtTreeMap.mem_keys] at h
  exact Std.ExtTreeMap.getElem?_eq_none h

/-! ## Counting values -/

theorem nodup_toList (m : StdMap β) : m.toList.Nodup := by
  refine List.Pairwise.imp ?_ Std.ExtTreeMap.distinct_keys_toList
  rintro a b h rfl
  exact h Std.ReflCmp.compare_self

theorem toList_insert_perm (m : StdMap β) (k : Nat) (v : β) :
    (m.insert k v).toList.Perm ((k, v) :: (m.erase k).toList) := by
  have hmem : (k, v) ∉ (m.erase k).toList := by
    simp [Std.ExtTreeMap.mem_toList_iff_getElem?_eq_some]
  rw [List.perm_ext_iff_of_nodup (nodup_toList _) (List.nodup_cons.mpr ⟨hmem, nodup_toList _⟩)]
  rintro ⟨a, b⟩
  simp only [List.mem_cons, Prod.mk.injEq, Std.ExtTreeMap.mem_toList_iff_getElem?_eq_some,
    getElem?_insert, getElem?_erase]
  by_cases h : k = a
  · subst h; simp [eq_comm]
  · simp [h, Ne.symm h]

/-- The number of values with `p`. -/
def count (p : β → Bool) (m : StdMap β) : Nat := m.toList.countP fun it => p it.2

variable {p : β → Bool} {m : StdMap β} {k : Nat} {u v : β}

@[simp] theorem count_empty : count p (∅ : StdMap β) = 0 := by
  simp [count]

theorem count_insert (p : β → Bool) (m : StdMap β) (k : Nat) (v : β) :
    count p (m.insert k v) = count p (m.erase k) + (if p v then 1 else 0) := by
  unfold count
  rw [(toList_insert_perm m k v).countP_eq, List.countP_cons]

theorem count_erase (h : m[k]? = some u) :
    count p (m.erase k) + (if p u then 1 else 0) = count p m := by
  rw [← count_insert, insert_self h]

theorem count_insert_new (h : m[k]? = none) :
    count p (m.insert k v) = count p m + (if p v then 1 else 0) := by
  rw [count_insert, erase_of_none h]

/-! ## Visiting the entries -/

section Visit

variable {σ : Type} (f : σ → Nat → β → σ × β)

/-- A loop over the entries of `keys`; each round changes a state and the entry. -/
def visit : List Nat → σ → StdMap β → σ × StdMap β
  | [], s, m => (s, m)
  | k :: ks, s, m =>
    match m[k]? with
    | some b => visit ks (f s k b).1 (m.insert k (f s k b).2)
    | none => visit ks s m

/-- What each round keeps, with the keys visited so far. -/
theorem visit_inv {f : σ → Nat → β → σ × β} (P : List Nat → σ → StdMap β → Prop)
    (hstep : ∀ done s m k b, P done s m → k ∉ done → m[k]? = some b →
      P (k :: done) (f s k b).1 (m.insert k (f s k b).2))
    (hskip : ∀ done s m k, P done s m → m[k]? = none → P (k :: done) s m) :
    ∀ (ks done : List Nat) (s : σ) (m : StdMap β), ks.Nodup → (∀ k ∈ ks, k ∉ done) → P done s m →
      P (ks.reverse ++ done) (visit f ks s m).1 (visit f ks s m).2
  | [], _, _, _, _, _, h => h
  | k :: ks, done, s, m, hnd, hdis, h => by
    have hnd' := List.nodup_cons.mp hnd
    have hdis' : ∀ a ∈ ks, a ∉ k :: done := by
      intro a ha hmem
      rcases List.mem_cons.mp hmem with rfl | hmem
      · exact hnd'.1 ha
      · exact hdis a (List.mem_cons_of_mem k ha) hmem
    have hrev : (k :: ks).reverse ++ done = ks.reverse ++ k :: done := by simp
    rw [hrev]
    cases hk : m[k]? with
    | some b =>
      rw [visit, hk]
      exact visit_inv P hstep hskip ks _ _ _ hnd'.2 hdis'
        (hstep done s m k b h (hdis k List.mem_cons_self) hk)
    | none =>
      rw [visit, hk]
      exact visit_inv P hstep hskip ks _ _ _ hnd'.2 hdis' (hskip done s m k h hk)

/-- What the round of each key of the list keeps. -/
theorem visit_ind_mem {f : σ → Nat → β → σ × β} (P : σ → StdMap β → Prop) :
    ∀ (ks : List Nat), (∀ s m k b, k ∈ ks → P s m → m[k]? = some b →
      P (f s k b).1 (m.insert k (f s k b).2)) →
      ∀ (s : σ) (m : StdMap β), P s m → P (visit f ks s m).1 (visit f ks s m).2
  | [], _, _, _, h => h
  | k :: ks, hstep, s, m, h => by
    have hrest : ∀ s m l b, l ∈ ks → P s m → m[l]? = some b →
        P (f s l b).1 (m.insert l (f s l b).2) :=
      fun s m l b hl => hstep s m l b (List.mem_cons_of_mem k hl)
    cases hk : m[k]? with
    | some b =>
      rw [visit, hk]
      exact visit_ind_mem P ks hrest _ _ (hstep s m k b List.mem_cons_self h hk)
    | none =>
      rw [visit, hk]
      exact visit_ind_mem P ks hrest s m h

/-- What each round keeps, whatever was visited before. -/
theorem visit_ind {f : σ → Nat → β → σ × β} (P : σ → StdMap β → Prop)
    (hstep : ∀ s m k b, P s m → m[k]? = some b → P (f s k b).1 (m.insert k (f s k b).2))
    (ks : List Nat) (s : σ) (m : StdMap β) (h : P s m) :
    P (visit f ks s m).1 (visit f ks s m).2 :=
  visit_ind_mem P ks (fun s m k b _ => hstep s m k b) s m h

/-- What each round keeps of the entry it visits. -/
theorem visit_forall {f : σ → Nat → β → σ × β} {Q : Nat → β → Prop}
    (hstep : ∀ s k b, Q k b → Q k (f s k b).2) (ks : List Nat) (s : σ) {m : StdMap β}
    (h : ∀ (k : Nat) (b : β), m[k]? = some b → Q k b) :
    ∀ (k : Nat) (b : β), (visit f ks s m).2[k]? = some b → Q k b := by
  refine visit_ind (f := f) (fun _ m => ∀ (k : Nat) (b : β), m[k]? = some b → Q k b) ?_ ks s m h
  intro s m k b hm hk l c hl
  rw [getElem?_insert] at hl
  split_ifs at hl with hkl
  · subst hkl
    exact Option.some.inj hl ▸ hstep s k b (hm k b hk)
  · exact hm l c hl

/-- No round adds or removes an entry. -/
theorem visit_isSome {f : σ → Nat → β → σ × β} (ks : List Nat) (s : σ) (m : StdMap β) (a : Nat) :
    (visit f ks s m).2[a]?.isSome = m[a]?.isSome := by
  refine visit_ind (f := f) (fun _ db => db[a]?.isSome = m[a]?.isSome) ?_ ks s m rfl
  intro s db k b h hk
  rw [getElem?_insert]
  split_ifs with hka
  · rw [← h, ← hka, hk]
    rfl
  · exact h

variable {f : σ → Nat → β → σ × β}

theorem visit_append : ∀ (ks ks' : List Nat) (s : σ) (m : StdMap β),
    visit f (ks ++ ks') s m = visit f ks' (visit f ks s m).1 (visit f ks s m).2
  | [], _, _, _ => rfl
  | k :: ks, ks', s, m => by
    rw [List.cons_append, visit, visit]
    cases m[k]? with
    | some b => exact visit_append ks ks' _ _
    | none => exact visit_append ks ks' s m

theorem visit_cons {k : Nat} {ks : List Nat} {s : σ} {m : StdMap β} {b : β} (h : m[k]? = some b) :
    visit f (k :: ks) s m = visit f ks (f s k b).1 (m.insert k (f s k b).2) := by
  rw [visit, h]

theorem visit_get_of_notMem {a : Nat} : ∀ {ks : List Nat} {s : σ} {m : StdMap β}, a ∉ ks →
    (visit f ks s m).2[a]? = m[a]?
  | [], _, _, _ => rfl
  | k :: ks, s, m, h => by
    have hk := List.ne_of_not_mem_cons h
    have hks := List.not_mem_of_not_mem_cons h
    cases hm : m[k]? with
    | some b => rw [visit_cons hm, visit_get_of_notMem hks, getElem?_insert, if_neg (Ne.symm hk)]
    | none =>
      rw [visit, hm]
      exact visit_get_of_notMem hks

/-- The keys that a loop over the entries visits before `k`. -/
def before (m : StdMap β) (k : Nat) : List Nat := m.keys.takeWhile (· ≠ k)

theorem notMem_before (m : StdMap β) (k : Nat) : k ∉ before m k := by
  intro h
  simpa using List.mem_takeWhile_imp h

theorem keys_eq_before {m : StdMap β} {k : Nat} (h : m[k]?.isSome = true) :
    ∃ post, m.keys = before m k ++ k :: post ∧ k ∉ post := by
  have hsplit := List.takeWhile_append_dropWhile (p := (· ≠ k)) (l := m.keys)
  cases hdrop : m.keys.dropWhile (· ≠ k) with
  | nil =>
    have hmem := mem_keys.mpr h
    rw [← hsplit, hdrop, List.append_nil] at hmem
    exact absurd hmem (notMem_before m k)
  | cons a post =>
    have ha : a = k := by
      have hne : m.keys.dropWhile (· ≠ k) ≠ [] := by rw [hdrop]; exact List.cons_ne_nil a post
      have hhead := List.head_dropWhile_not (· ≠ k) hne
      simp only [hdrop, List.head_cons] at hhead
      simpa using hhead
    subst ha
    rw [hdrop] at hsplit
    refine ⟨post, hsplit.symm, ?_⟩
    have hnd := nodup_keys m
    rw [← hsplit] at hnd
    exact (List.nodup_cons.mp (List.nodup_append.mp hnd).2.1).1

/-- The loop over all entries, from the round of `k` on. -/
theorem visit_at {m : StdMap β} {k : Nat} {b : β} (s : σ) (h : m[k]? = some b) :
    ∃ post, k ∉ post ∧ m.keys = before m k ++ k :: post ∧
      visit f m.keys s m =
        visit f post (f (visit f (before m k) s m).1 k b).1
          ((visit f (before m k) s m).2.insert k (f (visit f (before m k) s m).1 k b).2) := by
  obtain ⟨post, hkeys, hpost⟩ := keys_eq_before (show m[k]?.isSome = true by rw [h]; rfl)
  refine ⟨post, hpost, hkeys, ?_⟩
  have hget : (visit f (before m k) s m).2[k]? = some b := by
    rw [visit_get_of_notMem (notMem_before m k), h]
  rw [hkeys, visit_append, visit_cons hget]

theorem visit_get {m : StdMap β} {k : Nat} {b : β} (s : σ) (h : m[k]? = some b) :
    (visit f m.keys s m).2[k]? = some (f (visit f (before m k) s m).1 k b).2 := by
  obtain ⟨post, hpost, -, hvisit⟩ := visit_at (f := f) s h
  rw [hvisit, visit_get_of_notMem hpost, getElem?_insert, if_pos rfl]

/-- The round of an entry, wherever the loop over a list without repetitions comes to it. -/
theorem visit_get_mem {m : StdMap β} {k : Nat} {b : β} {ks : List Nat} (hnd : ks.Nodup)
    (hk : k ∈ ks) (s : σ) (h : m[k]? = some b) :
    ∃ pre, (visit f ks s m).2[k]? = some (f (visit f pre s m).1 k b).2 := by
  obtain ⟨pre, post, rfl⟩ := List.append_of_mem hk
  obtain ⟨-, hnd', hdis⟩ := List.nodup_append.mp hnd
  have hpost : k ∉ post := (List.nodup_cons.mp hnd').1
  have hpre : k ∉ pre := fun hmem => hdis k hmem k List.mem_cons_self rfl
  have hget : (visit f pre s m).2[k]? = some b := by rw [visit_get_of_notMem hpre, h]
  refine ⟨pre, ?_⟩
  rw [visit_append, visit_cons hget, visit_get_of_notMem hpost, getElem?_insert, if_pos rfl]

end Visit

end StdMap

end Srsenb
