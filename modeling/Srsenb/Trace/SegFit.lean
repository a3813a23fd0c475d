import Srsenb.Base.Ranges
import Srsenb.Trace.Strangeness

/-! # The ranges that models are fitted to (`segfit.m`) -/

open Srsenb.Vec Srsenb.Ranges

namespace Srsenb.Trace

/-- The rows of `hour_cell{h,2}`. -/
def nofChannels : Nat := 50

/-- `usageData`, an hour's first `n` TTIs in columns by channel, as linear indices find it. -/
def usageData (hour : List (Nat → Nat)) (n : Nat) : List Nat :=
  (List.range' 1 nofChannels).flatMap fun channel =>
    (hour.take n).map fun tti => if 0 < tti channel then 1 else 0

def ttInt : Nat := 100

def ttIntCst : Nat := ttInt / 30

def cstIntcst (cstTTsize : Nat) : Nat := (cstTTsize + ttIntCst - 1) / ttIntCst

/-- `cst_start` and `cst_end`. The loop does not come to the last end. -/
def cstRanges (cstTTsize : Nat) : List (Nat × Nat) :=
  ((List.range ttIntCst).map fun i => 1 + i * cstIntcst cstTTsize).zip
    (((List.range ttIntCst).map fun i => cstIntcst cstTTsize + cstIntcst cstTTsize * i) ++
      [cstTTsize])

/-- `segments{h}` -/
structure Boundaries where
  segments : List Nat
  many : ttInt ≤ segments.length
  sorted : segments.Pairwise (· < ·)
  pos : ∀ x ∈ segments, 1 ≤ x

namespace Boundaries

variable (b : Boundaries)

def cstTTsize : Nat := b.segments.getD (ttInt - 1) 0 - 1

/-- `cd_start` and `cd_end` -/
def cdRanges : List (Nat × Nat) :=
  (1 :: b.segments.take (ttInt - 1)).zip ((b.segments.take ttInt).map (· - 1))

end Boundaries

/-- In any hour, the linear index `k` is that of a sample of `channel`. -/
def Addresses (n k channel : Nat) : Prop :=
  ∀ hour : List (Nat → Nat), n ≤ hour.length →
    entry (usageData hour n) k =
      (entry hour ((k - 1) % n + 1)).map fun tti => if 0 < tti channel then 1 else 0

/-- Both segmentations are partitions, and their indices are of the channel `chn`. -/
structure Boundaries.Right (b : Boundaries) : Prop where
  cd : Partition b.cdRanges b.cstTTsize
  cst : Partition (cstRanges b.cstTTsize) b.cstTTsize
  channel : ∀ r ∈ b.cdRanges ++ cstRanges b.cstTTsize, ∀ k, Within k r →
    Addresses b.cstTTsize k chn

/-! ## Linear indices -/

/-- A linear index is of the sample of its column. -/
theorem entry_usageData {hour : List (Nat → Nat)} {n k : Nat} (hlen : n ≤ hour.length)
    (hpos : 1 ≤ k) (hk : k ≤ nofChannels * n) :
    entry (usageData hour n) k = (entry hour ((k - 1) % n + 1)).map fun tti =>
      if 0 < tti (1 + (k - 1) / n) then 1 else 0 := by
  obtain ⟨i, rfl⟩ : ∃ i, k = i + 1 := ⟨k - 1, by omega⟩
  have hcol : ∀ channel : Nat, ((hour.take n).map fun tti : Nat → Nat =>
      if 0 < tti channel then 1 else 0).length = n := by
    intro channel
    rw [List.length_map, List.length_take]
    omega
  have hmod : i % n < n := Nat.mod_lt i (by
    rcases Nat.eq_zero_or_pos n with rfl | hn
    · omega
    · exact hn)
  rw [entry_succ, Nat.add_sub_cancel, entry_succ, usageData, getElem?_flatMap hcol (by omega),
    List.getElem?_map, List.getElem?_take_of_lt hmod]

/-- An index of the first two columns is not of `chn`. -/
theorem not_addresses {n k : Nat} (hpos : 1 ≤ k) (hk : k ≤ 2 * n) : ¬ Addresses n k chn := by
  intro h
  have hn : 0 < n := by omega
  have hlow : (k - 1) / n ≤ 1 := by
    apply Nat.le_of_lt_succ
    rw [Nat.div_lt_iff_lt_mul hn]
    omega
  -- an hour in which only `chn` is used
  let only : Nat → Nat := fun channel => if channel = chn then 1 else 0
  have hread := h (List.replicate n only) (by simp)
  have hmod : (k - 1) % n < n := Nat.mod_lt _ hn
  have hch : 1 + (k - 1) / n ≠ chn := by
    unfold chn
    omega
  rw [entry_usageData (by simp) hpos (by unfold nofChannels; omega), entry_succ,
    List.getElem?_replicate_of_lt hmod] at hread
  simp [only, hch] at hread

/-! ## The two segmentations -/

/-- The element at index `i` of an increasing list is above `i` if the first one is positive. -/
theorem lt_getElem_of_sorted {l : List Nat} (hs : l.Pairwise (· < ·)) (hpos : ∀ x ∈ l, 1 ≤ x)
    {i : Nat} (hi : i < l.length) : i < l[i] := by
  induction i with
  | zero => exact hpos _ (List.getElem_mem hi)
  | succ i ih =>
    have hstep := List.pairwise_iff_getElem.1 hs i (i + 1) (by omega) hi (Nat.lt_succ_self i)
    exact Nat.lt_of_le_of_lt (ih (by omega)) hstep

theorem cstRanges_eq (n : Nat) : cstRanges n = equalRanges ttIntCst (cstIntcst n) := by
  rw [cstRanges, ← List.append_nil (List.map _ _), List.zip_append (by simp), List.zip_nil_left,
    List.append_nil, List.zip_map', equalRanges]

theorem tiles_cstRanges (n : Nat) : Tiles 1 (cstRanges n) (ttIntCst * cstIntcst n + 1) := by
  rw [cstRanges_eq]
  exact tiles_equalRanges _ _

theorem ttIntCst_mul_eq_iff (n : Nat) : ttIntCst * cstIntcst n = n ↔ ttIntCst ∣ n := by
  unfold cstIntcst ttIntCst ttInt
  omega

namespace Boundaries

variable (b : Boundaries)

theorem cstTTsize_eq (h : ttInt - 1 < b.segments.length) :
    b.cstTTsize + 1 = b.segments[ttInt - 1] ∧ ttInt - 1 ≤ b.cstTTsize := by
  have hlt := lt_getElem_of_sorted b.sorted b.pos h
  have hget : b.cstTTsize = b.segments[ttInt - 1] - 1 := by
    rw [cstTTsize, List.getD_eq_getElem?_getD, List.getElem?_eq_getElem h, Option.getD_some]
  omega

theorem tiles_cdRanges : Tiles 1 b.cdRanges (b.cstTTsize + 1) := by
  have hmany := b.many
  have hlt : ttInt - 1 < b.segments.length := Nat.lt_of_lt_of_le (by decide) hmany
  have hsorted : (1 :: b.segments.take ttInt).Pairwise (· ≤ ·) := by
    refine List.pairwise_cons.2 ⟨fun x hx => b.pos x (List.mem_of_mem_take hx), ?_⟩
    exact (b.sorted.imp Nat.le_of_lt).sublist (List.take_sublist _ _)
  have htiles := tiles_cuts Nat.one_pos hsorted
  have hstarts : (b.segments.take ttInt).dropLast = b.segments.take (ttInt - 1) := by
    rw [List.dropLast_eq_take, List.length_take, List.take_take, Nat.min_eq_left hmany,
      Nat.min_eq_left (Nat.sub_le _ _)]
  have hlen : (b.segments.take ttInt).length = ttInt - 1 + 1 := by
    rw [List.length_take, Nat.min_eq_left hmany]
    rfl
  have hlast : (1 :: b.segments.take ttInt).getLast (List.cons_ne_nil _ _) = b.cstTTsize + 1 := by
    rw [(b.cstTTsize_eq hlt).1, List.getLast_eq_getElem]
    simp only [List.length_cons, hlen, Nat.add_sub_cancel, List.getElem_cons_succ,
      List.getElem_take]
  rw [hstarts, hlast] at htiles
  exact htiles

/-- The ranges by the boundaries are a partition, those of one length only if it divides, and no
index of either is of a sample of `chn`. -/
theorem not_right : ¬ b.Right ∧ Partition b.cdRanges b.cstTTsize ∧
    (Partition (cstRanges b.cstTTsize) b.cstTTsize ↔ ttIntCst ∣ b.cstTTsize) ∧
    ∀ r ∈ b.cdRanges ++ cstRanges b.cstTTsize, ∀ k, Within k r →
      ¬ Addresses b.cstTTsize k chn := by
  have hlt : ttInt - 1 < b.segments.length := Nat.lt_of_lt_of_le (by decide) b.many
  have hsize := (b.cstTTsize_eq hlt).2
  unfold ttInt at hsize
  have hover : ttIntCst * cstIntcst b.cstTTsize ≤ 2 * b.cstTTsize := by
    unfold cstIntcst ttIntCst ttInt
    omega
  have hchannel : ∀ r ∈ b.cdRanges ++ cstRanges b.cstTTsize, ∀ k, Within k r →
      ¬ Addresses b.cstTTsize k chn := by
    intro r hr k hk
    rcases List.mem_append.1 hr with hr | hr
    · have hin := b.tiles_cdRanges.within_iff.1 ⟨r, hr, hk⟩
      exact not_addresses hin.1 (by omega)
    · have hin := (tiles_cstRanges b.cstTTsize).within_iff.1 ⟨r, hr, hk⟩
      exact not_addresses hin.1 (by omega)
  refine ⟨?_, b.tiles_cdRanges.partition, ?_, hchannel⟩
  · intro h
    obtain ⟨r, hr, hk⟩ := (h.cd.covers 1).2 ⟨Nat.le_refl 1, by omega⟩
    have hmem := List.mem_append_left (cstRanges b.cstTTsize) hr
    exact hchannel r hmem 1 hk (h.channel r hmem 1 hk)
  · rw [(tiles_cstRanges b.cstTTsize).partition_iff, ttIntCst_mul_eq_iff]

/-- A cut every TTI from the second on: 100 TTIs, which three equal ranges overshoot. -/
def everyTti : Boundaries where
  segments := List.range' 2 ttInt
  many := by decide
  sorted := List.pairwise_lt_range'
  pos x hx := by
    rw [List.mem_range'_1] at hx
    omega

theorem everyTti_not_right : ¬ ∀ b : Boundaries, b.Right := fun h =>
  absurd ((tiles_cstRanges everyTti.cstTTsize).partition_iff.1 (h everyTti).cst) (by decide)

end Boundaries

end Srsenb.Trace
