import Mathlib.Data.List.TakeWhile
import Srsenb.Base.Vectors

/-! # Measurements beside the log of the AS (`get_rate.m`, `get_rate2.m`, `to_index.m`)

A row of both matrices is of one TTI. A step on which the scripts end with an error gives `none`. -/

open Srsenb.Vec

namespace Srsenb.Trace

/-- `diff` of `to_index`, with its first element 0. -/
def ttiDiff (meastti : List Nat) : List Nat :=
  0 :: List.zipWith (fun next tti : Nat => (((next : Int) - tti) % 10240).toNat) meastti.tail
    meastti.dropLast

/-- `to_index`: each element is the sum of a row of `tril(ones(sm))` times `diff`. -/
def toIndex (meastti : List Nat) : List Nat :=
  (List.range meastti.length).map fun i => ((ttiDiff meastti).take (i + 1)).sum

/-- `meastti_index(cut_idx:end) = []`, from the first index of at least `left` on, if the last one
is above it. -/
def cutIndex (left : Nat) (index : List Nat) : List Nat :=
  if left < index.getLastD 0 then index.takeWhile fun i => decide (i < left) else index

/-- What a branch compares: the measurements of `index` with the rows `offset + i` of `as`, for the
elements `i` of `kept`. -/
structure Comparison (ρ : Type) where
  offset : Nat
  index : List Nat
  kept : List Nat
  compMeas : Option (List ρ)

/-- `comp_as` -/
def Comparison.compAs {ρ : Type} (c : Comparison ρ) (as : List ρ) : Option (List ρ) :=
  c.kept.mapM fun i => entry as (c.offset + i)

/-- The parameters of `get_rate` and `get_rate2`. -/
structure Traces (ρ : Type) where
  meastti : List Nat
  astti : List Nat
  meas : List ρ
  as : List ρ
  meas_length : meas.length = meastti.length
  as_length : as.length = astti.length

namespace Traces

variable {ρ : Type} (t : Traces ρ)

def asStartmIndex (firstMeasTti : Nat) : Option Nat := (positions firstMeasTti t.astti).head?

def measStartasIndex (firstAsTti : Nat) : Option Nat := (positions firstAsTti t.meastti).head?

/-- The branch of measurements that were logged first. -/
def measFirst (start : Nat) : Comparison ρ :=
  let index := toIndex t.meastti
  let kept := cutIndex (t.astti.length - start) index
  ⟨start, index, kept, range t.meas 1 kept.length⟩

/-- The branch of an AS that was logged first. -/
def asFirst (start : Nat) : Comparison ρ :=
  let index := toIndex (t.meastti.drop (start - 1))
  let kept := cutIndex t.astti.length index
  ⟨1, index, kept, range (t.meas.drop (start - 1)) 1 kept.length⟩

/-- The comparison of `get_rate2`, with all measurements. -/
def both : Comparison ρ :=
  let index := toIndex t.meastti
  ⟨1, index, cutIndex t.astti.length index, some t.meas⟩

/-- The rate and the size of a branch. -/
def measrate {α : Type} (rate : List ρ → List ρ → Nat → α) (c : Comparison ρ) :
    Option (α × Nat) := do
  let compMeas ← c.compMeas
  let compAs ← c.compAs t.as
  some (rate compMeas compAs c.kept.length, c.kept.length)

/-- `get_rate`, by the sum of the differences over the size. -/
def getRate {α : Type} [LT α] [DecidableLT α] (rate : List ρ → List ρ → Nat → α) (one : α) :
    Option (α × Nat) := do
  let firstMeasTti ← t.meastti.head?
  let (measrate0, measSize0) ←
    match t.asStartmIndex firstMeasTti with
    | some start => t.measrate rate (t.measFirst start)
    | none => some (one, t.meastti.length)
  let firstAsTti ← t.astti.head?
  let (measrate1, measSize1) ←
    match t.measStartasIndex firstAsTti with
    | some start => t.measrate rate (t.asFirst start)
    | none => some (one, t.meastti.length)
  if measrate0 < measrate1 then some (measrate0, measSize0) else some (measrate1, measSize1)

def getRate2 {α : Type} (rate : List ρ → List ρ → Nat → α) : Option (α × Nat) :=
  if t.meastti = [] then none else t.measrate rate t.both

end Traces

/-- Each row is one of `as`, the matrices have the same size, and no measurement whose row is one of
`as` is left out. -/
structure Comparison.Aligned {ρ : Type} (as : List ρ) (c : Comparison ρ) : Prop where
  inside : ∀ i ∈ c.kept, 1 ≤ c.offset + i ∧ c.offset + i ≤ as.length
  sameSize : ∃ compMeas compAs, c.compMeas = some compMeas ∧ c.compAs as = some compAs ∧
    compMeas.length = compAs.length
  complete : ∀ k i : Nat, c.index[k]? = some i → c.offset + i ≤ as.length → c.kept[k]? = some i

/-- The TTIs from the first row to the last one. -/
def elapsed : List Nat → Nat
  | tti :: next :: rest => (((next : Int) - tti) % 10240).toNat + elapsed (next :: rest)
  | _ => 0

/-- Each comparison that the scripts make is aligned. -/
structure Traces.Aligned {ρ : Type} (t : Traces ρ) : Prop where
  measFirst : ∀ tti ∈ t.meastti.head?, ∀ start ∈ t.asStartmIndex tti,
    (t.measFirst start).Aligned t.as
  asFirst : ∀ tti ∈ t.astti.head?, ∀ start ∈ t.measStartasIndex tti,
    (t.asFirst start).Aligned t.as
  both : t.meastti ≠ [] → t.both.Aligned t.as

/-- What the traces are if all comparisons are aligned. -/
structure Traces.Clear {ρ : Type} (t : Traces ρ) : Prop where
  /-- If there are measurements after the last row of the AS, none is of that row. -/
  measFirst : ∀ tti ∈ t.meastti.head?, ∀ before after, t.astti = before ++ tti :: after →
    tti ∉ before → after.length < elapsed t.meastti →
      ∀ m, m <+: t.meastti → elapsed m ≠ after.length
  /-- The last measurement is not of the row that would follow the last one of the AS. -/
  asFirst : ∀ tti ∈ t.astti.head?, ∀ before after, t.meastti = before ++ tti :: after →
    tti ∉ before → elapsed (tti :: after) ≠ t.astti.length
  /-- The measurements do not take longer than the AS. -/
  both : t.meastti ≠ [] → elapsed t.meastti < t.astti.length

/-! ## Indices and cuts -/

section Cuts

variable {left k i : Nat} {index : List Nat}

@[simp] theorem length_toIndex (meastti : List Nat) :
    (toIndex meastti).length = meastti.length := by
  rw [toIndex, List.length_map, List.length_range]

theorem sum_diff (x : Nat) (l : List Nat) (i : Nat) :
    ((List.zipWith (fun next tti : Nat => (((next : Int) - tti) % 10240).toNat) l
      (x :: l).dropLast).take i).sum = elapsed ((x :: l).take (i + 1)) := by
  induction l generalizing x i with
  | nil =>
    rw [List.zipWith_nil_left, List.take_nil, List.take_succ_cons, List.take_nil]
    rfl
  | cons y l ih =>
    cases i with
    | zero => rfl
    | succ i =>
      rw [List.dropLast_cons_cons, List.zipWith_cons_cons, List.take_succ_cons, List.sum_cons, ih]
      rfl

/-- An index is the time up to its row. -/
theorem getElem?_toIndex {meastti : List Nat} (h : k < meastti.length) :
    (toIndex meastti)[k]? = some (elapsed (meastti.take (k + 1))) := by
  obtain ⟨x, l, rfl⟩ := List.exists_cons_of_length_pos (Nat.zero_lt_of_lt h)
  rw [toIndex, List.getElem?_map, List.getElem?_range h, Option.map_some, ttiDiff,
    List.take_succ_cons, List.sum_cons, Nat.zero_add, List.tail_cons, sum_diff]

theorem mem_toIndex_iff {meastti : List Nat} (hne : meastti ≠ []) :
    i ∈ toIndex meastti ↔ ∃ m, m <+: meastti ∧ elapsed m = i := by
  rw [List.mem_iff_getElem?]
  constructor
  · rintro ⟨k, hk⟩
    have hlt : k < meastti.length := by
      rw [← length_toIndex]
      exact (List.getElem?_eq_some_iff.1 hk).1
    rw [getElem?_toIndex hlt] at hk
    exact ⟨_, List.take_prefix _ _, Option.some.inj hk⟩
  · rintro ⟨m, hm, rfl⟩
    have hpos := List.length_pos_iff.2 hne
    have hle := hm.length_le
    refine ⟨m.length - 1, ?_⟩
    rw [getElem?_toIndex (by omega)]
    cases m with
    | nil =>
      obtain ⟨x, l, rfl⟩ := List.exists_cons_of_ne_nil hne
      rfl
    | cons x m =>
      rw [List.length_cons, Nat.add_sub_cancel, ← List.length_cons, ← List.prefix_iff_eq_take.1 hm]

theorem getLastD_toIndex {meastti : List Nat} (hne : meastti ≠ []) :
    (toIndex meastti).getLastD 0 = elapsed meastti := by
  have hpos := List.length_pos_iff.2 hne
  rw [List.getLastD_eq_getLast?, List.getLast?_eq_getElem?, length_toIndex,
    getElem?_toIndex (by omega), Nat.sub_add_cancel hpos, List.take_length]
  rfl

theorem sum_take_le (l : List Nat) {i j : Nat} (h : i ≤ j) : (l.take i).sum ≤ (l.take j).sum := by
  obtain ⟨m, hm⟩ := List.take_prefix_take_left (l := l) h
  rw [← hm, List.sum_append]
  exact Nat.le_add_right _ _

/-- The indices do not decrease. -/
theorem sorted_toIndex (meastti : List Nat) : (toIndex meastti).Pairwise (· ≤ ·) := by
  unfold toIndex
  rw [List.pairwise_map]
  exact List.pairwise_lt_range.imp fun h => sum_take_le _ (by omega)

theorem le_getLastD (hs : index.Pairwise (· ≤ ·)) (hi : i ∈ index) : i ≤ index.getLastD 0 := by
  induction index generalizing i with
  | nil => cases hi
  | cons x index ih =>
    obtain ⟨hx, hrest⟩ := List.pairwise_cons.1 hs
    cases index with
    | nil =>
      rw [List.mem_singleton.1 hi]
      exact Nat.le_refl x
    | cons y index =>
      rcases List.mem_cons.1 hi with rfl | hi
      · exact (hx y List.mem_cons_self).trans (ih hrest List.mem_cons_self)
      · exact ih hrest hi

/-- Of indices that do not decrease, those below `left` are kept in their places. -/
theorem getElem?_takeWhile (hs : index.Pairwise (· ≤ ·)) (hk : index[k]? = some i) (hi : i < left) :
    (index.takeWhile fun i => decide (i < left))[k]? = some i := by
  induction index generalizing k with
  | nil => cases hk
  | cons x index ih =>
    obtain ⟨hx, hs⟩ := List.pairwise_cons.1 hs
    cases k with
    | zero =>
      obtain rfl := Option.some.inj hk
      rw [List.takeWhile_cons_of_pos (by simpa using hi)]
      rfl
    | succ k =>
      rw [List.getElem?_cons_succ] at hk
      have hle := hx i (List.mem_of_getElem? hk)
      rw [List.takeWhile_cons_of_pos (by simp; omega), List.getElem?_cons_succ]
      exact ih hs hk

theorem lt_of_mem_cutIndex (h : left < index.getLastD 0) (hi : i ∈ cutIndex left index) :
    i < left := by
  rw [cutIndex, if_pos h] at hi
  simpa using List.mem_takeWhile_imp hi

theorem cutIndex_of_le (h : index.getLastD 0 ≤ left) : cutIndex left index = index :=
  if_neg (not_lt.2 h)

theorem getLastD_mem (hne : index ≠ []) : index.getLastD 0 ∈ index := by
  rw [List.getLastD_eq_getLast?, List.getLast?_eq_some_getLast hne]
  exact List.getLast_mem hne

theorem getElem?_cutIndex (hs : index.Pairwise (· ≤ ·)) (hk : index[k]? = some i) (hi : i < left) :
    (cutIndex left index)[k]? = some i := by
  unfold cutIndex
  split_ifs
  · exact getElem?_takeWhile hs hk hi
  · exact hk

theorem cutIndex_sublist (left : Nat) (index : List Nat) : (cutIndex left index).Sublist index := by
  unfold cutIndex
  split_ifs
  · exact List.takeWhile_sublist _
  · exact List.Sublist.refl _

end Cuts

/-! ## The comparisons -/

section Comparisons

variable {ρ : Type} {left : Nat} {index : List Nat} {as : List ρ} {c : Comparison ρ}

/-- Rows that are there are found, as many as elements are kept. -/
theorem Comparison.compAs_of_inside
    (h : ∀ i ∈ c.kept, 1 ≤ c.offset + i ∧ c.offset + i ≤ as.length) :
    ∃ compAs, c.compAs as = some compAs ∧ compAs.length = c.kept.length :=
  exists_mapM fun i hi => entry_isSome (h i hi).1 (h i hi).2

/-- The measurements up to the cut. -/
theorem range_one {meas : List ρ} {n : Nat} (h : n ≤ meas.length) :
    ∃ compMeas, range meas 1 n = some compMeas ∧ compMeas.length = n := by
  have hrange := range_eq (v := meas) (a := 0) (n := n) (by omega)
  rw [Nat.zero_add, Nat.zero_add] at hrange
  exact ⟨_, hrange, length_slice (by omega)⟩

/-- Rows that follow `as(offset)`: of `left` of them that are there, the last one is lost with a
cut. -/
theorem Comparison.aligned_iff_of_left {offset : Nat} {meas : List ρ}
    (hs : index.Pairwise (· ≤ ·)) (hpos : 1 ≤ offset) (hleft : offset + left = as.length)
    (hmeas : index.length ≤ meas.length) :
    (Comparison.mk offset index (cutIndex left index)
        (range meas 1 (cutIndex left index).length)).Aligned as ↔
      ¬ (left < index.getLastD 0 ∧ left ∈ index) := by
  constructor
  · rintro h ⟨hlt, hmem⟩
    obtain ⟨k, hk⟩ := List.mem_iff_getElem?.1 hmem
    have hkept := h.complete k left hk hleft.le
    exact Nat.lt_irrefl left (lt_of_mem_cutIndex hlt (List.mem_of_getElem? hkept))
  · intro h
    have hinside : ∀ i ∈ cutIndex left index, 1 ≤ offset + i ∧ offset + i ≤ as.length := by
      intro i hi
      by_cases hlt : left < index.getLastD 0
      · have := lt_of_mem_cutIndex hlt hi
        omega
      · have := le_getLastD hs ((cutIndex_sublist left index).subset hi)
        omega
    obtain ⟨compAs, hcomp, hlen⟩ := Comparison.compAs_of_inside (c := Comparison.mk offset index
      (cutIndex left index) (range meas 1 (cutIndex left index).length)) hinside
    obtain ⟨compMeas, hrange, hlen'⟩ :=
      range_one (((cutIndex_sublist left index).length_le).trans hmeas)
    refine ⟨hinside, ⟨compMeas, compAs, hrange, hcomp, hlen'.trans hlen.symm⟩, ?_⟩
    intro k i hk hi
    simp only at hk hi ⊢
    by_cases hlt : left < index.getLastD 0
    · have hne : i ≠ left := by
        rintro rfl
        exact h ⟨hlt, List.mem_of_getElem? hk⟩
      exact getElem?_cutIndex hs hk (by omega)
    · rwa [cutIndex_of_le (not_lt.1 hlt)]

/-- Rows from the first one on: one too many if the last index is the length of `as`. -/
theorem inside_first_iff (hs : index.Pairwise (· ≤ ·)) (hne : index ≠ []) :
    (∀ i ∈ cutIndex as.length index, 1 ≤ 1 + i ∧ 1 + i ≤ as.length) ↔
      index.getLastD 0 ≠ as.length := by
  constructor
  · intro h heq
    have hmem : index.getLastD 0 ∈ cutIndex as.length index := by
      rw [cutIndex_of_le heq.le]
      exact getLastD_mem hne
    have := (h _ hmem).2
    omega
  · intro h i hi
    by_cases hlt : as.length < index.getLastD 0
    · have := lt_of_mem_cutIndex hlt hi
      omega
    · have := le_getLastD hs ((cutIndex_sublist as.length index).subset hi)
      omega

theorem Comparison.aligned_iff_of_first {meas : List ρ} (hs : index.Pairwise (· ≤ ·))
    (hne : index ≠ []) (hmeas : index.length ≤ meas.length) :
    (Comparison.mk 1 index (cutIndex as.length index)
        (range meas 1 (cutIndex as.length index).length)).Aligned as ↔
      index.getLastD 0 ≠ as.length := by
  rw [← inside_first_iff hs hne]
  refine ⟨fun h => h.inside, fun h => ?_⟩
  obtain ⟨compAs, hcomp, hlen⟩ := Comparison.compAs_of_inside (c := Comparison.mk 1 index
    (cutIndex as.length index) (range meas 1 (cutIndex as.length index).length)) h
  obtain ⟨compMeas, hrange, hlen'⟩ :=
    range_one (((cutIndex_sublist as.length index).length_le).trans hmeas)
  refine ⟨h, ⟨compMeas, compAs, hrange, hcomp, hlen'.trans hlen.symm⟩, fun k i hk hi => ?_⟩
  exact getElem?_cutIndex hs hk (by simp only at hi; omega)

theorem Comparison.aligned_iff_of_all {meas : List ρ} (hs : index.Pairwise (· ≤ ·))
    (hne : index ≠ []) (hmeas : index.length = meas.length) :
    (Comparison.mk 1 index (cutIndex as.length index) (some meas)).Aligned as ↔
      index.getLastD 0 < as.length := by
  constructor
  · intro h
    have hlast := (inside_first_iff hs hne).1 h.inside
    obtain ⟨compMeas, compAs, hm, ha, hlen⟩ := h.sameSize
    by_contra hge
    have hlt : as.length < index.getLastD 0 := by omega
    obtain ⟨compAs', ha', hlen'⟩ := Comparison.compAs_of_inside h.inside
    obtain rfl := Option.some.inj (ha.symm.trans ha')
    obtain rfl := Option.some.inj hm
    have hsame := (cutIndex_sublist as.length index).eq_of_length
      (hlen'.symm.trans (hlen.symm.trans hmeas.symm))
    have hmem := getLastD_mem hne
    rw [← hsame] at hmem
    exact Nat.lt_asymm hlt (hsame ▸ lt_of_mem_cutIndex hlt hmem)
  · intro h
    have hinside := (inside_first_iff hs hne).2 h.ne
    obtain ⟨compAs, hcomp, hlen⟩ := Comparison.compAs_of_inside (c := Comparison.mk 1 index
      (cutIndex as.length index) (some meas)) hinside
    refine ⟨hinside, ⟨meas, compAs, rfl, hcomp, ?_⟩, fun k i hk hi => ?_⟩
    · rw [hlen, cutIndex_of_le h.le, hmeas]
    · exact getElem?_cutIndex hs hk (by simp only at hi; omega)

end Comparisons

/-! ## The scripts -/

theorem toIndex_ne_nil {meastti : List Nat} (h : meastti ≠ []) : toIndex meastti ≠ [] := by
  rw [← List.length_pos_iff, length_toIndex]
  exact List.length_pos_iff.2 h

namespace Traces

variable {ρ : Type} (t : Traces ρ)

theorem aligned_measFirst_iff (hne : t.meastti ≠ []) {tti : Nat} {before after : List Nat}
    (h : t.astti = before ++ tti :: after) :
    (t.measFirst (1 + before.length)).Aligned t.as ↔
      (after.length < elapsed t.meastti → ∀ m, m <+: t.meastti → elapsed m ≠ after.length) := by
  have hlen := congrArg List.length h
  rw [List.length_append, List.length_cons] at hlen
  have hleft : t.astti.length - (1 + before.length) = after.length := by omega
  unfold measFirst
  rw [hleft, Comparison.aligned_iff_of_left (sorted_toIndex _) (by omega)
    (by rw [t.as_length]; omega) (by rw [length_toIndex, t.meas_length]),
    getLastD_toIndex hne, mem_toIndex_iff hne]
  simp only [not_and, not_exists, ne_eq]

theorem aligned_asFirst_iff {tti : Nat} {before after : List Nat}
    (h : t.meastti = before ++ tti :: after) :
    (t.asFirst (1 + before.length)).Aligned t.as ↔ elapsed (tti :: after) ≠ t.astti.length := by
  have hdrop : t.meastti.drop (1 + before.length - 1) = tti :: after := by
    rw [Nat.add_sub_cancel_left, h, List.drop_left]
  unfold asFirst
  rw [hdrop, ← t.as_length, Comparison.aligned_iff_of_first (sorted_toIndex _)
    (toIndex_ne_nil (List.cons_ne_nil _ _)), getLastD_toIndex (List.cons_ne_nil _ _)]
  rw [length_toIndex, ← hdrop, List.length_drop, List.length_drop, t.meas_length]

theorem aligned_both_iff (hne : t.meastti ≠ []) :
    t.both.Aligned t.as ↔ elapsed t.meastti < t.astti.length := by
  unfold both
  rw [← t.as_length, Comparison.aligned_iff_of_all (sorted_toIndex _)
    (toIndex_ne_nil hne) (by rw [length_toIndex, t.meas_length]), getLastD_toIndex hne]

/-- The cuts are right for traces that reach none of their rows, and `get_rate2` for measurements
that it need not cut. -/
theorem aligned_iff : t.Aligned ↔ t.Clear := by
  have hne : ∀ tti ∈ t.meastti.head?, t.meastti ≠ [] := fun tti htti hnil => by
    rw [hnil] at htti
    cases htti
  constructor
  · intro h
    refine ⟨fun tti htti before after hsplit hfirst => ?_,
      fun tti htti before after hsplit hfirst => ?_,
      fun hmeas => (t.aligned_both_iff hmeas).1 (h.both hmeas)⟩
    · exact (t.aligned_measFirst_iff (hne tti htti) hsplit).1 (h.measFirst tti htti _
        (head?_positionsFrom_iff.2 ⟨before, after, hsplit, hfirst, rfl⟩))
    · exact (t.aligned_asFirst_iff hsplit).1 (h.asFirst tti htti _
        (head?_positionsFrom_iff.2 ⟨before, after, hsplit, hfirst, rfl⟩))
  · intro h
    refine ⟨fun tti htti start hstart => ?_, fun tti htti start hstart => ?_,
      fun hmeas => (t.aligned_both_iff hmeas).2 (h.both hmeas)⟩
    · obtain ⟨before, after, hsplit, hfirst, rfl⟩ := head?_positionsFrom_iff.1 hstart
      exact (t.aligned_measFirst_iff (hne tti htti) hsplit).2
        (h.measFirst tti htti before after hsplit hfirst)
    · obtain ⟨before, after, hsplit, hfirst, rfl⟩ := head?_positionsFrom_iff.1 hstart
      exact (t.aligned_asFirst_iff hsplit).2 (h.asFirst tti htti before after hsplit hfirst)

/-- Four measurements, of which the AS has the first three. -/
def oneMore : Traces Nat := ⟨[0, 1, 2, 3], [0, 1, 2], [0, 0, 0, 0], [0, 0, 0], rfl, rfl⟩

/-- `get_rate` compares two of them only. -/
theorem oneMore_not_aligned : ¬ oneMore.Aligned := by
  intro h
  have hkept := (h.measFirst 0 rfl 1 rfl).complete 2 2 (by decide) (by decide)
  exact absurd hkept (by decide)

end Traces

end Srsenb.Trace
