import Srsenb.Base.Pulses

/-! # Slices of a row

A slice begins after `b` elements and has `n` of them. -/

namespace Srsenb.Vec

variable {α β : Type*}

/-- An operation for each element. A vector of one element is taken for each element of the
other. -/
def expand (f : α → β → β) (u : List α) (v : List β) : Option (List β) :=
  if u.length = v.length then some (List.zipWith f u v)
  else match u, v with
    | [x], v => some (v.map (f x))
    | u, [y] => some (u.map (f · y))
    | _, _ => none

/-- `v(b+1:b+n)` -/
def slice (b n : Nat) (v : List β) : List β := (v.drop b).take n

/-- `v(b+1:b+n) = w`, for a slice inside of `v`. One element is assigned to each position. -/
def setSlice (b n : Nat) (w v : List β) : Option (List β) :=
  if w.length = n then some (v.take b ++ w ++ v.drop (b + n))
  else match w with
    | [x] => some (v.take b ++ List.replicate n x ++ v.drop (b + n))
    | _ => none

/-- The elements of a slice changed by `f`, which has their index in it. -/
def mapSlice (b n : Nat) (f : Nat → β → β) (v : List β) : List β :=
  v.mapIdx fun i x => if b ≤ i ∧ i < b + n then f (i - b) x else x

/-- The element of `u` that `expand` takes for index `k`. -/
def pick (d : α) (u : List α) (k : Nat) : α := if u.length = 1 then u.headD d else u.getD k d

variable {b n : Nat} {v : List β}

theorem length_slice (h : b + n ≤ v.length) : (slice b n v).length = n := by
  simp [slice]
  omega

theorem setSlice_of_length {w : List β} (h : w.length = n) :
    setSlice b n w v = some (v.take b ++ w ++ v.drop (b + n)) := by
  unfold setSlice
  rw [if_pos h]

theorem setSlice_slice (h : b + n ≤ v.length) : setSlice b n (slice b n v) v = some v := by
  rw [setSlice_of_length (length_slice h), slice, List.append_assoc, ← List.drop_drop,
    List.take_append_drop, List.take_append_drop]

theorem mapIdx_congr {f g : Nat → β → β} {w : List β} (h : ∀ i < w.length, ∀ x, f i x = g i x) :
    w.mapIdx f = w.mapIdx g := by
  apply List.ext_getElem
  · simp
  · intro i hi _
    rw [List.length_mapIdx] at hi
    simp [h i hi]

theorem mapIdx_id {f : Nat → β → β} {w : List β} (h : ∀ i < w.length, ∀ x, f i x = x) :
    w.mapIdx f = w := by
  apply List.ext_getElem
  · simp
  · intro i _ hi
    simp [h i hi]

theorem mapSlice_append (x y z : List β) (f : Nat → β → β) :
    mapSlice x.length y.length f (x ++ y ++ z) = x ++ y.mapIdx f ++ z := by
  unfold mapSlice
  rw [List.mapIdx_append, List.mapIdx_append]
  congr 1
  · congr 1
    · apply mapIdx_id
      intro i hi _
      rw [if_neg (by omega)]
    · apply mapIdx_congr
      intro i hi _
      rw [if_pos (by omega), Nat.add_sub_cancel]
  · apply mapIdx_id
    intro i _ _
    rw [List.length_append, if_neg (by omega)]

/-- Three parts of a row, the middle one changed. -/
theorem mapSlice_eq (h : b + n ≤ v.length) (f : Nat → β → β) :
    mapSlice b n f v = v.take b ++ (slice b n v).mapIdx f ++ v.drop (b + n) := by
  have hv : v = v.take b ++ slice b n v ++ v.drop (b + n) := by
    rw [slice, List.append_assoc, ← List.drop_drop, List.take_append_drop, List.take_append_drop]
  have hb : (v.take b).length = b := by
    rw [List.length_take]
    omega
  have := mapSlice_append (v.take b) (slice b n v) (v.drop (b + n)) f
  rwa [← hv, hb, length_slice h] at this

theorem pick_eq_getElem (d : α) {u : List α} {k : Nat} (hk : k < u.length) :
    pick d u k = u[k] := by
  unfold pick
  split_ifs with h
  · obtain ⟨x, rfl⟩ := List.length_eq_one_iff.mp h
    rw [List.length_singleton, Nat.lt_one_iff] at hk
    subst hk
    rfl
  · rw [List.getD_eq_getElem?_getD, List.getElem?_eq_getElem hk, Option.getD_some]

theorem zipWith_eq_mapIdx (d : α) (f : α → β → β) {u : List α} {w : List β}
    (h : u.length = w.length) :
    List.zipWith f u w = w.mapIdx fun k x => f (pick d u k) x := by
  apply List.ext_getElem
  · simp [h]
  · intro k hk _
    rw [List.length_zipWith, Nat.lt_min] at hk
    rw [List.getElem_zipWith, List.getElem_mapIdx, pick_eq_getElem d hk.1]

theorem map_eq_mapIdx (d x : α) (f : α → β → β) (w : List β) :
    w.map (f x) = w.mapIdx fun k y => f (pick d [x] k) y := by
  apply List.ext_getElem
  · simp
  · intro k _ _
    simp [pick]

theorem setSlice_eq_none {w : List β} (h : w.length ≠ n) (h1 : w.length ≠ 1) :
    setSlice b n w v = none := by
  unfold setSlice
  rw [if_neg h]
  split
  · exact absurd rfl h1
  · rfl

/-- A vector that does not fit has more than one element, so no assignment takes the result. -/
theorem setSlice_expand_eq_none {u : List α} {w : List β} (hw : w.length = n) (h : u.length ≠ n)
    (h1 : u.length ≠ 1) (f : α → β → β) : (expand f u w).bind (setSlice b n · v) = none := by
  unfold expand
  rw [if_neg (by omega)]
  split
  · exact absurd rfl h1
  · apply setSlice_eq_none
    · rwa [List.length_map]
    · rwa [List.length_map]
  · rfl

/-- An expanded operation on a slice, stored in it: the vector fits the slice, or has one
element. -/
theorem setSlice_expand (h : b + n ≤ v.length) (d : α) (f : α → β → β) (u : List α) :
    (expand f u (slice b n v)).bind (setSlice b n · v) =
      if u.length = n ∨ u.length = 1 then some (mapSlice b n (fun k x => f (pick d u k) x) v)
      else none := by
  have hn := length_slice h
  split_ifs with hu
  · rw [mapSlice_eq h]
    by_cases hfit : u.length = n
    · have : expand f u (slice b n v) = some (List.zipWith f u (slice b n v)) := by
        unfold expand
        rw [if_pos (hfit.trans hn.symm)]
      rw [this, Option.bind_some, setSlice_of_length (by simp [hfit, hn]),
        zipWith_eq_mapIdx d f (hfit.trans hn.symm)]
    · obtain ⟨x, rfl⟩ := List.length_eq_one_iff.mp (hu.resolve_left hfit)
      have : expand f [x] (slice b n v) = some ((slice b n v).map (f x)) := by
        unfold expand
        rw [if_neg (by rwa [hn])]
      rw [this, Option.bind_some, setSlice_of_length (by simp [hn]), map_eq_mapIdx d x f]
  · rw [not_or] at hu
    exact setSlice_expand_eq_none hn hu.1 hu.2 f

end Srsenb.Vec
