import Srsenb.Base.Bounded
import Srsenb.Base.Vectors

/-! # Nearest neighbours of a window (`strangeness` and `mink` of `segment.m`)

A step on which the script ends with an error gives `none`. -/

open Srsenb.Vec

namespace Srsenb.Trace

def chn : Nat := 25

def theCC : Nat := 3

def theH : Nat := 4

def theK : Nat := 4

/-- A TTI of `theCC` channels. -/
abbrev Sample := Fin theCC → Nat

/-- The channel of each row of `channelData`. -/
def channelRows (row : Fin theCC) : Nat := chn - (theCC - 1) / 2 + row.val

/-- `channelData`, from an hour with the RBs of each channel. -/
def channelData (hour : List (Nat → Nat)) : List Sample :=
  hour.map fun tti row => tti (channelRows row)

/-- The row `(theCC-1)/2`, counted from 1. -/
def labelRow : Fin theCC := ⟨(theCC - 1) / 2 - 1, by decide⟩

def binarize (c : Sample) : Sample := fun row => if 0 < c row then 1 else c row

/-- The square roots that are compared, and the value of `strangeness` from the distances. -/
structure Arith (δ α : Type) where
  sqrt : Int → δ
  zero : α
  ratio : List δ → List δ → Nat → α

/-- The sum below the root of `distance`. -/
def squares (x xi : List Sample) : Int :=
  (List.zipWith (fun c d : Sample => (List.ofFn fun row => ((c row : Int) - d row) ^ 2).sum)
    x xi).sum

/-- The distances to the windows of both labels. -/
structure Dists (δ : Type) where
  d0s : List δ
  d1s : List δ
  index0 : Nat
  index1 : Nat

/-- The samples that a call takes. -/
def sdata (data : List Sample) (t1 t2 : Nat) : Option (List Sample) :=
  (range data t1 (t2 + theH)).map (List.map binarize)

def ys (sdata : List Sample) : Option (List Nat) :=
  (range sdata (1 + theH) (sdata.length - 1)).map (List.map fun c => c labelRow)

section Distances

variable {δ α : Type} [Zero δ] (a : Arith δ α)

/-- The round `k + 1` of the loop over the windows. -/
def nearestRound (sdata x : List Sample) (s : Dists δ) (k : Nat) : Option (Dists δ) := do
  let xi ← range sdata (k + 1) (k + 1 + theH - 1)
  let yi ← entry sdata (k + 1 + theH)
  let distance := a.sqrt (squares x xi)
  if yi labelRow = 0 then
    some { s with d0s := put s.d0s s.index0 distance, index0 := s.index0 + 1 }
  else
    some { s with d1s := put s.d1s s.index1 distance, index1 := s.index1 + 1 }

/-- The loop over the windows, for `n0ys` and `n1ys` labels. -/
def distances (sdata : List Sample) (t1 t2 n0ys n1ys : Nat) : Option (Dists δ) := do
  let x ← range sdata (sdata.length - theH) (sdata.length - 1)
  loop (t2 - t1 - 1) (nearestRound a sdata x)
    ⟨List.replicate n0ys 0, List.replicate n1ys 0, 1, 1⟩

variable [LinearOrder δ]

def mink (A : List δ) (k : Nat) : Option (List δ) :=
  range (A.mergeSort fun x y => decide (x ≤ y)) 1 k

def strangeness (data : List Sample) (t1 t2 : Nat) : Option α :=
  if t2 ≤ t1 + 2 * theK then some a.zero
  else do
    let sdata ← sdata data t1 t2
    let ys ← ys sdata
    let n0ys := ys.count 0
    let n1ys := ys.count 1
    if n0ys < theH ∨ n1ys < theH then some a.zero
    else do
      let y ← entry sdata sdata.length
      let s ← distances a sdata t1 t2 n0ys n1ys
      let Kdis0 ← mink s.d0s theK
      let Kdis1 ← mink s.d1s theK
      some (a.ratio Kdis1 Kdis0 (y labelRow))

end Distances

/-! ## The windows of a call -/

/-- The samples of a call, from samples that are there. -/
def samples (data : List Sample) (t1 t2 : Nat) : List Sample :=
  (slice (t1 - 1) (t2 + theH + 1 - t1) data).map binarize

/-- The label after each window, that of the last sample left out. -/
def labels (sdata : List Sample) : List Nat :=
  (slice theH (sdata.length - 1 - theH) sdata).map fun c => c labelRow

/-- The window before the last sample. -/
def lastWindow (sdata : List Sample) : List Sample := slice (sdata.length - theH - 1) theH sdata

/-- The distances of the first `k` windows with the label `l`. -/
def nearest {δ α : Type} (a : Arith δ α) (sdata : List Sample) (l k : Nat) : List δ :=
  ((List.range k).filter fun j => decide ((labels sdata)[j]? = some l)).map fun j =>
    a.sqrt (squares (lastWindow sdata) (slice j theH sdata))

variable {data sd : List Sample} {t1 t2 : Nat}

theorem sdata_eq (h1 : 1 ≤ t1) (hle : t1 ≤ t2) (hin : t2 + theH ≤ data.length) :
    sdata data t1 t2 = some (samples data t1 t2) := by
  unfold theH at hin
  have hrange := range_eq (v := data) (a := t1 - 1) (n := t2 + theH + 1 - t1) (by
    unfold theH
    omega)
  rw [show t1 - 1 + 1 = t1 by omega, show t1 - 1 + (t2 + theH + 1 - t1) = t2 + theH by omega]
    at hrange
  rw [sdata, hrange]
  rfl

theorem length_samples (h1 : 1 ≤ t1) (hle : t1 ≤ t2) (hin : t2 + theH ≤ data.length) :
    (samples data t1 t2).length = t2 + theH + 1 - t1 := by
  unfold theH at hin
  rw [samples, List.length_map, length_slice]
  unfold theH
  omega

theorem ys_eq (h : theH + 1 ≤ sd.length) : ys sd = some (labels sd) := by
  have hrange := range_eq (v := sd) (a := theH) (n := sd.length - 1 - theH) (by omega)
  rw [show theH + (sd.length - 1 - theH) = sd.length - 1 by omega] at hrange
  rw [ys, Nat.add_comm 1, hrange]
  rfl

theorem length_labels (h : theH + 1 ≤ sd.length) :
    (labels sd).length = sd.length - 1 - theH := by
  rw [labels, List.length_map, length_slice (by omega)]

theorem range_lastWindow (h : theH + 1 ≤ sd.length) :
    range sd (sd.length - theH) (sd.length - 1) = some (lastWindow sd) := by
  have hrange := range_eq (v := sd) (a := sd.length - theH - 1) (n := theH) (by omega)
  rw [show sd.length - theH - 1 + 1 = sd.length - theH by omega,
    show sd.length - theH - 1 + theH = sd.length - 1 by omega] at hrange
  exact hrange

theorem range_window {k : Nat} (h : k + theH ≤ sd.length) :
    range sd (k + 1) (k + 1 + theH - 1) = some (slice k theH sd) := by
  have hrange := range_eq h
  rwa [show k + theH = k + 1 + theH - 1 by omega] at hrange

section Nearest

variable {δ α : Type} (a : Arith δ α)

/-- Counted in the label row or over the windows, the labels are as many. -/
theorem length_nearest (l k : Nat) : (nearest a sd l k).length = ((labels sd).take k).count l := by
  rw [nearest, List.length_map]
  induction k with
  | zero => rfl
  | succ k ih =>
    rw [List.range_succ, List.filter_append, List.length_append, ih, List.take_add_one,
      List.count_append]
    congr 1
    cases hk : (labels sd)[k]? with
    | none => simp [hk]
    | some y =>
      by_cases hy : y = l
      · simp [hk, hy]
      · simp [hk, hy]

theorem nearest_succ_of_eq {l k : Nat} (h : (labels sd)[k]? = some l) :
    nearest a sd l (k + 1) =
      nearest a sd l k ++ [a.sqrt (squares (lastWindow sd) (slice k theH sd))] := by
  simp [nearest, List.range_succ, h]

theorem nearest_succ_of_ne {l k : Nat} (h : (labels sd)[k]? ≠ some l) :
    nearest a sd l (k + 1) = nearest a sd l k := by
  simp [nearest, List.range_succ, h]

theorem length_nearest_lt {l k : Nat} (h : (labels sd)[k]? = some l) :
    (nearest a sd l k).length < (labels sd).count l := by
  have hsub := ((labels sd).take_sublist (k + 1)).count_le l
  rw [List.take_add_one, List.count_append, h, ← length_nearest a, Option.toList_some,
    List.count_singleton_self] at hsub
  exact hsub

end Nearest

theorem mink_isSome {δ : Type} [LinearOrder δ] {A : List δ} (hA : theK ≤ A.length) :
    (mink A theK).isSome = true := by
  have hrange := range_eq (v := A.mergeSort fun x y => decide (x ≤ y)) (a := 0) (n := theK) (by
    rw [List.length_mergeSort]
    omega)
  rw [Nat.zero_add, Nat.zero_add] at hrange
  rw [mink, hrange]
  rfl

/-! ## The loop over the windows -/

section Loop

variable {δ α : Type} [Zero δ] (a : Arith δ α)

/-- The distances after `k` rounds. The other places keep their zeros. -/
def nearestState (sd : List Sample) (k : Nat) : Dists δ where
  d0s := preset ((labels sd).count 0) (nearest a sd 0 k)
  d1s := preset ((labels sd).count 1) (nearest a sd 1 k)
  index0 := (nearest a sd 0 k).length + 1
  index1 := (nearest a sd 1 k).length + 1

theorem nearestRound_spec {k : Nat} {y : Nat} (hk : k + theH + 1 < sd.length)
    (hy : (labels sd)[k]? = some y) (hbin : y = 0 ∨ y = 1) :
    nearestRound a sd (lastWindow sd) (nearestState a sd k) k =
      some (nearestState a sd (k + 1)) := by
  have hentry : (entry sd (k + 1 + theH)).map (fun c => c labelRow) = some y := by
    rw [Nat.add_right_comm, entry_succ, ← hy, labels, List.getElem?_map,
      getElem?_slice (by omega), Nat.add_comm]
  obtain ⟨c, hc, hcy⟩ := Option.map_eq_some_iff.1 hentry
  unfold nearestRound
  rw [range_window (by omega), hc]
  simp only [Option.bind_eq_bind, Option.bind_some, hcy]
  rcases hbin with rfl | rfl
  · have hne : (labels sd)[k]? ≠ some 1 := by simp [hy]
    simp only [if_true, nearestState, put_preset (length_nearest_lt a hy),
      nearest_succ_of_eq a hy, nearest_succ_of_ne a hne, List.length_append, List.length_singleton]
  · have hne : (labels sd)[k]? ≠ some 0 := by simp [hy]
    simp only [Nat.one_ne_zero, if_false, nearestState, put_preset (length_nearest_lt a hy),
      nearest_succ_of_eq a hy, nearest_succ_of_ne a hne, List.length_append, List.length_singleton]

theorem label_binary {k y : Nat} (hy : (labels (samples data t1 t2))[k]? = some y) :
    y = 0 ∨ y = 1 := by
  have hmem := List.mem_of_getElem? hy
  rw [labels, List.mem_map] at hmem
  obtain ⟨c, hc, rfl⟩ := hmem
  obtain ⟨d, -, rfl⟩ := List.mem_map.1 (List.mem_of_mem_drop (List.mem_of_mem_take hc))
  unfold binarize
  split_ifs <;> omega

variable (h1 : 1 ≤ t1) (hle : t1 ≤ t2) (hin : t2 + theH ≤ data.length)
include h1 hle hin

theorem length_labels_samples : (labels (samples data t1 t2)).length = t2 - t1 := by
  have hlen := length_samples h1 hle hin
  rw [length_labels (by omega), hlen]
  omega

/-- The loop leaves out the last window. -/
theorem distances_eq :
    distances a (samples data t1 t2) t1 t2 ((labels (samples data t1 t2)).count 0)
        ((labels (samples data t1 t2)).count 1) =
      some (nearestState a (samples data t1 t2) (t2 - t1 - 1)) := by
  have hlen := length_samples h1 hle hin
  have hlab := length_labels_samples h1 hle hin
  unfold distances
  rw [range_lastWindow (by omega)]
  obtain ⟨s, hs, rfl⟩ := loop_ok (f := nearestRound a (samples data t1 t2) _)
    (fun k s => s = nearestState a (samples data t1 t2) k) rfl (n := t2 - t1 - 1) (by
      rintro k hk s rfl
      have hy := List.getElem?_eq_getElem (l := labels (samples data t1 t2)) (i := k) (by omega)
      exact ⟨_, nearestRound_spec a (by omega) hy (label_binary hy), rfl⟩)
  exact hs

/-- All indices of a call are those of samples up to `t2 + theH`. -/
theorem strangeness_isSome [LinearOrder δ] : (strangeness a data t1 t2).isSome = true := by
  have hlen := length_samples h1 hle hin
  unfold strangeness
  split_ifs
  · rfl
  rw [sdata_eq h1 hle hin, Option.bind_eq_bind, Option.bind_some, ys_eq (by omega),
    Option.bind_eq_bind, Option.bind_some]
  simp only
  split_ifs with hfew
  · rfl
  rw [not_or, not_lt, not_lt] at hfew
  have hbound : ∀ l, (nearest a (samples data t1 t2) l (t2 - t1 - 1)).length ≤
      (labels (samples data t1 t2)).count l := by
    intro l
    rw [length_nearest]
    exact (List.take_sublist _ _).count_le l
  obtain ⟨y, hy⟩ : ∃ y, entry (samples data t1 t2) (samples data t1 t2).length = some y := by
    rw [hlen, show t2 + theH + 1 - t1 = t2 + theH - t1 + 1 by omega, entry_succ]
    exact ⟨_, List.getElem?_eq_getElem (by omega)⟩
  obtain ⟨Kdis0, h0⟩ := Option.isSome_iff_exists.1 (mink_isSome
    (A := (nearestState a (samples data t1 t2) (t2 - t1 - 1)).d0s)
    (hfew.1.trans (length_preset (hbound 0)).ge))
  obtain ⟨Kdis1, h1'⟩ := Option.isSome_iff_exists.1 (mink_isSome
    (A := (nearestState a (samples data t1 t2) (t2 - t1 - 1)).d1s)
    (hfew.2.trans (length_preset (hbound 1)).ge))
  simp only [hy, distances_eq a h1 hle hin, h0, h1', Option.bind_eq_bind, Option.bind_some,
    Option.isSome_some]

end Loop

/-! ## The calls that look for neighbours -/

/-- A call on an hour that comes to its nearest neighbours. -/
structure NearestCall where
  hour : List (Nat → Nat)
  t1 : Nat
  t2 : Nat
  pos : 1 ≤ t1
  inside : t2 + theH ≤ hour.length
  long : t1 + 2 * theK < t2
  many0 : theH ≤ (labels (samples (channelData hour) t1 t2)).count 0
  many1 : theH ≤ (labels (samples (channelData hour) t1 t2)).count 1

namespace NearestCall

variable (c : NearestCall)

/-- The samples of the call. -/
def taken : List Sample := samples (channelData c.hour) c.t1 c.t2

def n0ys : Nat := (labels c.taken).count 0

def n1ys : Nat := (labels c.taken).count 1

/-- Each place of `d0s` and `d1s` is assigned, with the distance of the window whose label was
counted for it. -/
def Assigned {δ α : Type} [Zero δ] (a : Arith δ α) : Prop :=
  ∃ s, distances a c.taken c.t1 c.t2 c.n0ys c.n1ys = some s ∧
    s.index0 = c.n0ys + 1 ∧ s.index1 = c.n1ys + 1 ∧
    s.d0s = nearest a c.taken 0 (labels c.taken).length ∧
    s.d1s = nearest a c.taken 1 (labels c.taken).length

/-- The neighbours are real samples, and the labels are of the channel `chn`. -/
def RealSamples {δ α : Type} [Zero δ] (a : Arith δ α) : Prop :=
  c.Assigned a ∧ channelRows labelRow = chn

theorem count_binary {l : List Nat} (h : ∀ y ∈ l, y = 0 ∨ y = 1) :
    l.count 0 + l.count 1 = l.length := by
  induction l with
  | nil => rfl
  | cons y l ih =>
    rw [List.forall_mem_cons] at h
    have hl := ih h.2
    rcases h.1 with rfl | rfl <;>
      simp only [List.count_cons_self, List.count_cons, List.length_cons] <;> simp <;> omega

theorem binary_labels : ∀ y ∈ labels c.taken, y = 0 ∨ y = 1 := by
  intro y hy
  obtain ⟨k, hk⟩ := List.mem_iff_getElem?.1 hy
  exact label_binary hk

/-- One place of the two rows keeps its zero. -/
theorem index_add {δ α : Type} [Zero δ] (a : Arith δ α) : ∃ s,
    distances a c.taken c.t1 c.t2 c.n0ys c.n1ys = some s ∧
      s.index0 + s.index1 + 1 = (c.n0ys + 1) + (c.n1ys + 1) := by
  have hin : c.t2 + theH ≤ (channelData c.hour).length := by
    rw [channelData, List.length_map]
    exact c.inside
  have hle : c.t1 ≤ c.t2 := by
    have := c.long
    omega
  have hlen : (labels c.taken).length = c.t2 - c.t1 := length_labels_samples c.pos hle hin
  refine ⟨_, distances_eq a c.pos hle hin, ?_⟩
  have hall := count_binary c.binary_labels
  have hseen := count_binary (l := (labels c.taken).take (c.t2 - c.t1 - 1)) fun y hy =>
    c.binary_labels y (List.mem_of_mem_take hy)
  rw [List.length_take, hlen, ← length_nearest a, ← length_nearest a] at hseen
  rw [hlen] at hall
  have := c.long
  simp only [nearestState, n0ys, n1ys]
  unfold taken at *
  omega

theorem not_assigned {δ α : Type} [Zero δ] (a : Arith δ α) : ¬ c.Assigned a := by
  rintro ⟨s, hs, h0, h1, -⟩
  obtain ⟨s', hs', hsum⟩ := c.index_add a
  obtain rfl := Option.some.inj (hs.symm.trans hs')
  omega

/-- No call compares with real samples only: the last window is left out, and the labels are those
of the channel below `chn`. -/
theorem not_realSamples {δ α : Type} [Zero δ] (a : Arith δ α) :
    ¬ c.Assigned a ∧ channelRows labelRow ≠ chn :=
  ⟨c.not_assigned a, by decide⟩

/-- Every other TTI of the hour is used. -/
def everyOther : NearestCall where
  hour := (List.range 24).map fun tti _ => tti % 2
  t1 := 1
  t2 := 12
  pos := by decide
  inside := by decide
  long := by decide
  many0 := by decide
  many1 := by decide

theorem everyOther_not_real :
    ¬ ∀ (c : NearestCall) (a : Arith Int Int), c.RealSamples a := fun h =>
  everyOther.not_assigned ⟨id, 0, fun _ _ _ => 0⟩ (h _ _).1

end NearestCall

end Srsenb.Trace
