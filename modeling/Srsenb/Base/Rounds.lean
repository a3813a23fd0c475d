import Mathlib.Data.List.Induction
import Srsenb.Base.StdMap

/-! # The rounds of a loop over a map

A loop over the entries often fills an array: a counter is the place that comes next, and a round
that is done with its place moves the counter on. -/

namespace Srsenb

/-! ## Places -/

section Places

variable {α : Type} {p : α → Bool} {cap : Nat}

/-- Of a list, `p` holds of at most `cap` elements if and only if each of them finds fewer than
`cap` before it. -/
theorem filter_le_iff (l : List α) : (l.filter p).length ≤ cap ↔
    ∀ pre a post, l = pre ++ a :: post → p a = true → (pre.filter p).length < cap := by
  constructor
  · rintro h pre a post rfl ha
    simp only [List.filter_append, List.filter_cons, ha, if_true, List.length_append,
      List.length_cons] at h
    omega
  · intro h
    induction l using List.reverseRecOn with
    | nil => exact Nat.zero_le cap
    | append_singleton l a ih =>
      have hl := ih fun pre b post hl hb =>
        h pre b (post ++ [a]) (by rw [hl, List.append_assoc, List.cons_append]) hb
      rw [List.filter_append]
      cases ha : p a with
      | false => simpa [ha] using hl
      | true => simpa [ha] using Nat.succ_le_of_lt (h l a [] rfl ha)

/-- The sum of `g` over the end of a list, from the last element with `p` on. -/
def sumSince (p : α → Bool) (g : α → Nat) (l : List α) : Nat :=
  ((l.reverse.takeWhile fun a => !p a).map g).sum

@[simp] theorem sumSince_nil (p : α → Bool) (g : α → Nat) : sumSince p g [] = 0 := rfl

theorem sumSince_snoc (p : α → Bool) (g : α → Nat) (l : List α) (a : α) :
    sumSince p g (l ++ [a]) = if p a then 0 else g a + sumSince p g l := by
  unfold sumSince
  rw [List.reverse_append, List.reverse_singleton, List.singleton_append, List.takeWhile_cons]
  cases p a <;> simp

end Places

namespace StdMap

variable {β σ : Type} {f : σ → Nat → β → σ × β} {s : σ} {m : StdMap β}

/-- Each round of the loop over all entries finds `P`. -/
def EachRound (f : σ → Nat → β → σ × β) (s : σ) (m : StdMap β) (P : σ → Nat → β → Prop) : Prop :=
  ∀ (k : Nat) (b : β), m[k]? = some b → P (visit f (before m k) s m).1 k b

theorem before_eq {pre post : List Nat} {k : Nat} (h : m.keys = pre ++ k :: post) :
    before m k = pre := by
  have hnd := nodup_keys m
  rw [h] at hnd
  unfold before
  rw [h, List.takeWhile_append_of_pos, List.takeWhile_cons]
  · simp
  · intro a ha
    simpa using (List.nodup_append.mp hnd).2.2 a ha k List.mem_cons_self

theorem keys_congr {γ : Type} {m' : StdMap γ} (h : ∀ a : Nat, m'[a]?.isSome = m[a]?.isSome) :
    m'.keys = m.keys := by
  refine List.Perm.eq_of_pairwise (fun a b _ _ hab hba => absurd hab hba.asymm) (sorted_keys m')
    (sorted_keys m) ?_
  rw [List.perm_ext_iff_of_nodup (nodup_keys m') (nodup_keys m)]
  intro a
  rw [mem_keys, mem_keys, h]

section Rounds

variable {Q : List Nat → σ → Prop} (h0 : Q [] s)
  (hstep : ∀ (k : Nat) (b : β), m[k]? = some b → Q (before m k) (visit f (before m k) s m).1 →
    Q (before m k ++ [k]) (f (visit f (before m k) s m).1 k b).1)

include h0 hstep

/-- What the rounds of the first entries leave, by what the round of each entry leaves. -/
theorem visit_prefix_ind {pre : List Nat} :
    ∀ {post : List Nat}, m.keys = pre ++ post → Q pre (visit f pre s m).1 := by
  induction pre using List.reverseRecOn with
  | nil => exact fun _ => h0
  | append_singleton pre a ih =>
    intro post hkeys
    rw [List.append_assoc, List.singleton_append] at hkeys
    have hbefore := before_eq hkeys
    obtain ⟨b, hb⟩ := Option.isSome_iff_exists.mp
      (mem_keys.mp (hkeys ▸ List.mem_append_right pre List.mem_cons_self) : m[a]?.isSome = true)
    have hget : (visit f pre s m).2[a]? = some b := by
      rw [visit_get_of_notMem (hbefore ▸ notMem_before m a), hb]
    have hnext := hstep a b hb (hbefore ▸ ih hkeys)
    rw [hbefore] at hnext
    rw [visit_append, visit_cons hget]
    exact hnext

theorem visit_before_ind {k : Nat} (hk : m[k]?.isSome = true) :
    Q (before m k) (visit f (before m k) s m).1 := by
  obtain ⟨post, hkeys, -⟩ := keys_eq_before hk
  exact visit_prefix_ind h0 hstep hkeys

end Rounds

/-- What the round of an entry gives holds when the loop is over, if the other rounds keep it. -/
theorem visit_gives {I : σ → Prop} {R : σ → β → β → Prop} (hI : ∀ s k b, I s → I (f s k b).1)
    (hround : ∀ s k b, I s → R (f s k b).1 b (f s k b).2)
    (hkeep : ∀ s k b c c', I s → R s c c' → R (f s k b).1 c c') {ks : List Nat} (hnd : ks.Nodup)
    {k : Nat} (hk : k ∈ ks) (hs : I s) {b : β} (hb : m[k]? = some b) :
    ∃ b', (visit f ks s m).2[k]? = some b' ∧ R (visit f ks s m).1 b b' := by
  obtain ⟨pre, post, rfl⟩ := List.append_of_mem hk
  obtain ⟨-, hnd', hdis⟩ := List.nodup_append.mp hnd
  have hpost : k ∉ post := (List.nodup_cons.mp hnd').1
  have hpre : k ∉ pre := fun hmem => hdis k hmem k List.mem_cons_self rfl
  have hget : (visit f pre s m).2[k]? = some b := by rw [visit_get_of_notMem hpre, hb]
  have hI1 := visit_ind (f := f) (fun s _ => I s) (fun s _ k b h _ => hI s k b h) pre s m hs
  rw [visit_append, visit_cons hget, visit_get_of_notMem hpost, getElem?_insert, if_pos rfl]
  obtain ⟨r, hr⟩ : ∃ r, f (visit f pre s m).1 k b = r := ⟨_, rfl⟩
  have hround1 := hround _ k b hI1
  have hI2 := hI _ k b hI1
  rw [hr] at hround1 hI2 ⊢
  exact ⟨_, rfl, (visit_ind (f := f) (fun s _ => I s ∧ R s b r.2)
    (fun s _ l c h _ => ⟨hI s l c h.1, hkeep s l c b r.2 h.1 h.2⟩) post _ _ ⟨hI2, hround1⟩).2⟩

section Counter

variable (f) (count : σ → Nat) (moves : Nat → Bool) (h0 : count s = 0)
  (hstep : ∀ (k : Nat) (b : β), m[k]? = some b → count (f (visit f (before m k) s m).1 k b).1 =
    count (visit f (before m k) s m).1 + (moves k).toNat)

include h0 hstep

theorem counter_prefix {pre post : List Nat} (hkeys : m.keys = pre ++ post) :
    count (visit f pre s m).1 = (pre.filter moves).length := by
  refine visit_prefix_ind (Q := fun pre st => count st = (pre.filter moves).length) h0 ?_ hkeys
  intro l b hl h
  rw [hstep l b hl, h, List.filter_append, List.length_append]
  cases hm : moves l <;> simp [hm]

/-- The counter at the round of `k`, when the rounds with `moves` move it. -/
theorem counter_before {k : Nat} (hk : m[k]?.isSome = true) :
    count (visit f (before m k) s m).1 = ((before m k).filter moves).length := by
  obtain ⟨post, hkeys, -⟩ := keys_eq_before hk
  exact counter_prefix f count moves h0 hstep hkeys

/-- The counter after the loop. -/
theorem counter_keys : count (visit f m.keys s m).1 = (m.keys.filter moves).length :=
  counter_prefix f count moves h0 hstep (List.append_nil _).symm

end Counter

/-- Two loops over the entries that do the same in each round. -/
theorem visit_prefix_congr {g : σ → Nat → β → σ × β} {pre : List Nat} :
    ∀ {post : List Nat}, m.keys = pre ++ post →
    (∀ k ∈ pre, ∀ b : β, m[k]? = some b →
      f (visit g (before m k) s m).1 k b = g (visit g (before m k) s m).1 k b) →
    visit f pre s m = visit g pre s m := by
  induction pre using List.reverseRecOn with
  | nil => exact fun _ _ => rfl
  | append_singleton pre a ih =>
    intro post hkeys hsame
    rw [List.append_assoc, List.singleton_append] at hkeys
    have hbefore := before_eq hkeys
    obtain ⟨b, hb⟩ := Option.isSome_iff_exists.mp
      (mem_keys.mp (hkeys ▸ List.mem_append_right pre List.mem_cons_self) : m[a]?.isSome = true)
    have hpre := ih hkeys fun k hk => hsame k (List.mem_append_left _ hk)
    have hget : (visit g pre s m).2[a]? = some b := by
      rw [visit_get_of_notMem (hbefore ▸ notMem_before m a), hb]
    have hround := hsame a (List.mem_append_right _ List.mem_cons_self) b hb
    rw [hbefore] at hround
    rw [visit_append, visit_append, hpre, visit_cons hget, visit_cons hget, hround]
    rfl

/-- Each element of the results comes from the round of an entry, when a round adds at most one. -/
theorem exists_round {γ : Type} (out : σ → List γ) (h0 : out s = [])
    (hround : ∀ s k b, out (f s k b).1 = out s ∨ ∃ c, out (f s k b).1 = out s ++ [c]) {c : γ}
    (hc : c ∈ out (visit f m.keys s m).1) : ∃ (k : Nat) (b : β), m[k]? = some b ∧
      out (f (visit f (before m k) s m).1 k b).1 = out (visit f (before m k) s m).1 ++ [c] := by
  refine visit_prefix_ind (f := f) (m := m) (s := s) (Q := fun _ st => ∀ d ∈ out st,
    ∃ (k : Nat) (b : β), m[k]? = some b ∧
      out (f (visit f (before m k) s m).1 k b).1 = out (visit f (before m k) s m).1 ++ [d])
    (by simp [h0]) ?_ (List.append_nil _).symm c hc
  intro k b hb ih d hd
  rcases hround (visit f (before m k) s m).1 k b with hsame | ⟨e, hnew⟩
  · exact ih d (hsame ▸ hd)
  · rw [hnew] at hd
    rcases List.mem_append.mp hd with hd | hd
    · exact ih d hd
    · obtain rfl := List.mem_singleton.mp hd
      exact ⟨k, b, hb, hnew⟩

/-- The entries with `p`, by their keys. -/
theorem count_eq_keys (p : β → Bool) (m : StdMap β) :
    count p m = (m.keys.filter fun k => m[k]?.any p).length := by
  unfold count
  rw [← Std.ExtTreeMap.map_fst_toList_eq_keys, List.filter_map, List.length_map,
    List.countP_eq_length_filter]
  congr 1
  refine List.filter_congr fun it hit => ?_
  obtain ⟨k, b⟩ := it
  rw [Std.ExtTreeMap.mem_toList_iff_getElem?_eq_some] at hit
  simp [hit]

/-- An array with a place for each entry with `p` has room for `cap` of them. -/
theorem count_le_iff {p : β → Bool} {cap : Nat} : count p m ≤ cap ↔
    ∀ (k : Nat) (b : β), m[k]? = some b → p b = true →
      ((before m k).filter fun k => m[k]?.any p).length < cap := by
  rw [count_eq_keys, filter_le_iff]
  constructor
  · intro h k b hk hb
    obtain ⟨post, hkeys, -⟩ := keys_eq_before (show m[k]?.isSome = true by rw [hk]; rfl)
    exact h _ k post hkeys (by rw [hk]; exact hb)
  · intro h pre k post hkeys hp
    obtain ⟨b, hb⟩ := Option.isSome_iff_exists.mp
      (mem_keys.mp (hkeys ▸ List.mem_append_right pre List.mem_cons_self) : m[k]?.isSome = true)
    have := h k b hb (by simpa [hb] using hp)
    rwa [before_eq hkeys] at this

end StdMap

/-! ## Indices -/

section Indices

variable {σ α β : Type} {π : σ → β}

/-- What each round keeps, the loop does. -/
theorem foldl_keeps {f : σ → α → σ} {l : List α} (h : ∀ a ∈ l, ∀ s, π (f s a) = π s) (s : σ) :
    π (l.foldl f s) = π s := by
  induction l generalizing s with
  | nil => rfl
  | cons a l ih =>
    rw [List.foldl_cons, ih fun b hb => h b (List.mem_cons_of_mem a hb)]
    exact h a List.mem_cons_self s

/-- Of a loop over elements and their indices, only round `i` changes what `π` reads. -/
theorem foldl_zipIdx_at {f : σ → α × Nat → σ} {l : List α} {i : Nat} {a : α}
    (ha : l[i]? = some a) (h : ∀ s b j, j ≠ i → π (f s (b, j)) = π s) (s : σ) :
    π ((l.zipIdx.take i).foldl f s) = π s ∧
      π (l.zipIdx.foldl f s) = π (f ((l.zipIdx.take i).foldl f s) (a, i)) := by
  obtain ⟨hi, rfl⟩ := List.getElem?_eq_some_iff.mp ha
  have hlt : i < l.zipIdx.length := by simpa using hi
  constructor
  · refine foldl_keeps (fun b hb s => ?_) s
    obtain ⟨j, hj, rfl⟩ := List.mem_iff_getElem.mp hb
    rw [List.getElem_take, List.getElem_zipIdx]
    simp only [List.length_take] at hj
    exact h s _ _ (by omega)
  · have hsplit : l.zipIdx = l.zipIdx.take i ++ (l[i], i) :: l.zipIdx.drop (i + 1) := by
      conv_lhs => rw [← List.take_append_drop i l.zipIdx, List.drop_eq_getElem_cons hlt]
      simp
    conv_lhs => rw [hsplit, List.foldl_append, List.foldl_cons]
    refine foldl_keeps (fun b hb s => ?_) _
    obtain ⟨j, hj, rfl⟩ := List.mem_iff_getElem.mp hb
    rw [List.getElem_drop, List.getElem_zipIdx]
    exact h s _ _ (by omega)

end Indices

end Srsenb
