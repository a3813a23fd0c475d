import Mathlib.Tactic.Ring
import Srsenb.Mac.RbgMasks
import Srsenb.Trace.Usage

/-! # The PRBs of an indication

What an indication denotes, by 36.213 and by the order of the bits in `format1_count_prb`, and when
the decoders mark just that. PRBs are counted from 0. -/

open Srsenb.Vec

namespace Srsenb.Trace

/-- The bits of a type 0 bitmask, -/
def nofBit (nrb : Nat) : Nat := (nrb + rbgSize nrb - 1) / rbgSize nrb

/-- and of one of type 1. -/
def nofBitmask (nrb : Nat) : Int := nofBit nrb - (Nat.clog 2 (rbgSize nrb) : Int) - 1

/-- The PRBs of RBG subset `p`. -/
def subsetSize (nrb p : Nat) : Nat :=
  let P := rbgSize nrb
  let last := (nrb - 1) / P % P
  (nrb - 1) / P ^ 2 * P + if p < last then P else if p = last then (nrb - 1) % P + 1 else 0

/-- The offset of a shifted bitmap. -/
def subsetShift (ra : RaIndicator) (nrb : Nat) : Int :=
  if ra.four = 0 then 0 else subsetSize nrb ra.three.toNat - nofBitmask nrb

/-- The PRB of bit `i` of type 1. -/
def subsetPrb (P p s i : Int) : Int := (i + s) / P * P * P + p * P + (i + s) % P

/-- Bit `i` of type 1, from the most significant on. -/
def bitAt (ra : RaIndicator) (nrb i : Nat) : Bool :=
  ra.two.toNat.testBit ((nofBitmask nrb).toNat - 1 - i)

/-- The PRBs that an indication denotes. -/
def denoted (ra : RaIndicator) (nrb k : Nat) : Bool :=
  if ra.raType = 2 then decide (ra.two ≤ k ∧ k < ra.two + ra.three)
  else if ra.raType = 0 then ra.two.toNat.testBit (nofBit nrb - 1 - k / rbgSize nrb)
  else if ra.raType = 1 then
    (List.range (nofBitmask nrb).toNat).any fun i => bitAt ra nrb i &&
      decide (subsetPrb (rbgSize nrb) ra.three (subsetShift ra nrb) i = k)
  else false

/-- A run inside of the grid, or a bitmask that has no bits beyond its length. -/
def ValidRa (ra : RaIndicator) (nrb : Nat) : Prop :=
  ra.raType = 2 ∧ 0 ≤ ra.two ∧ 0 ≤ ra.three ∧ ra.two + ra.three ≤ nrb ∨
  ra.raType = 0 ∧ 0 ≤ ra.two ∧ ra.two < 2 ^ nofBit nrb ∨
  ra.raType = 1 ∧ 0 ≤ nofBitmask nrb ∧ 0 ≤ ra.two ∧ ra.two < 2 ^ (nofBitmask nrb).toNat ∧
    0 ≤ ra.three ∧ ra.three < rbgSize nrb

/-- The decoders mark what the indication denotes and leave the rest of the row. -/
structure DecodesRight (ra : RaIndicator) (nrb : Nat) : Prop where
  flags : ∀ (isDown : Bool) (row : List Int), row.length = 1 + 2 * nrb →
    getUsage ra isDown row =
      (Effect.marks (denoted ra nrb)).apply (overwrite 1 (orFlag 0)) nrb isDown row
  rntis : ∀ (rnti : Int) (isDown : Bool) (row : List Int), 1 ≤ rnti → rnti < 2 ^ 16 →
    row.length = 2 + 2 * nrb → getUsage2 ra rnti isDown row =
      (Effect.marks (denoted ra nrb)).apply (overwrite rnti id) nrb isDown row
  count : ra.raType = 0 → ∀ lib : Mac.Lib, lib.type0P nrb = rbgSize nrb →
    (List.range nrb).countP (denoted ra nrb) =
      Mac.SchedUe.format1CountPrb lib ra.two.toNat nrb

/-! ## The grid -/

variable {nrb : Nat} {ra : RaIndicator}

theorem rbgSize_cases (nrb : Nat) : rbgSize nrb = 1 ∧ nrb ≤ 10 ∨ rbgSize nrb = 2 ∨
    rbgSize nrb = 3 ∨ rbgSize nrb = 4 := by
  unfold rbgSize
  split_ifs <;> simp_all

theorem rbgSize_pos (nrb : Nat) : 0 < rbgSize nrb := by
  rcases rbgSize_cases nrb with h | h | h | h <;> omega

theorem nofBitmask_eq (nrb : Nat) : nofBitmask nrb = nofBit nrb - 1 ∧ rbgSize nrb = 1 ∨
    nofBitmask nrb = nofBit nrb - 2 ∧ rbgSize nrb = 2 ∨
    nofBitmask nrb = nofBit nrb - 3 ∧ rbgSize nrb = 3 ∨
    nofBitmask nrb = nofBit nrb - 3 ∧ rbgSize nrb = 4 := by
  have h1 : Nat.clog 2 1 = 0 := by decide
  have h2 : Nat.clog 2 2 = 1 := by decide
  have h3 : Nat.clog 2 3 = 2 := by decide
  have h4 : Nat.clog 2 4 = 2 := by decide
  unfold nofBitmask
  rcases rbgSize_cases nrb with ⟨h, -⟩ | h | h | h <;> rw [h] <;> omega

/-- A bitmap is no longer than the subset. -/
theorem nofBitmask_le {p : Nat} (hp : p < rbgSize nrb) :
    nofBitmask nrb ≤ subsetSize nrb p := by
  have hn := nofBitmask_eq nrb
  unfold subsetSize
  simp only [nofBit] at *
  rcases hn with ⟨hn, hP⟩ | ⟨hn, hP⟩ | ⟨hn, hP⟩ | ⟨hn, hP⟩ <;>
    rw [hn] <;> simp only [hP] at * <;> split_ifs <;> omega

/-- The PRBs of a subset are in the grid. -/
theorem subsetPrb_inside {p : Nat} {s i : Int} (hnrb : 0 < nrb) (hp : p < rbgSize nrb)
    (h0 : 0 ≤ i + s) (h : i + s < subsetSize nrb p) :
    0 ≤ subsetPrb (rbgSize nrb) p s i ∧ subsetPrb (rbgSize nrb) p s i < nrb := by
  unfold subsetPrb
  obtain ⟨j, hj⟩ : ∃ j, i + s = j := ⟨_, rfl⟩
  rw [hj] at h0 h ⊢
  unfold subsetSize at h
  rcases rbgSize_cases nrb with ⟨hP, -⟩ | hP | hP | hP <;>
    simp only [hP] at hp h ⊢ <;> split_ifs at h <;> omega

/-! ## Vectors -/

theorem length_repelem (v : List Bool) (n : Nat) : (repelem v n).length = n * v.length := by
  induction v with
  | nil => rfl
  | cons a v ih =>
    have hcons : repelem (a :: v) n = List.replicate n a ++ repelem v n := rfl
    rw [hcons, List.length_append, List.length_replicate, ih, List.length_cons, Nat.mul_succ,
      Nat.add_comm]

/-- Element `k` of a vector with each element `n` times. -/
theorem repelem_getD {n : Nat} (hn : 0 < n) (v : List Bool) (k : Nat) :
    (repelem v n).getD k false = v.getD (k / n) false := by
  induction v generalizing k with
  | nil => rfl
  | cons a v ih =>
    have hcons : repelem (a :: v) n = List.replicate n a ++ repelem v n := rfl
    rw [hcons, List.getD_eq_getElem?_getD]
    by_cases hk : k < n
    · rw [List.getElem?_append_left (by simpa using hk), Nat.div_eq_of_lt hk]
      simp [hk]
    · have hdiv : k / n = (k - n) / n + 1 := by
        rw [← Nat.div_eq_sub_div hn (not_lt.mp hk)]
      rw [List.getElem?_append_right (by simpa using hk), List.length_replicate, hdiv,
        ← List.getD_eq_getElem?_getD, ih, List.getD_cons_succ]

theorem setGrow_inside {v : List Bool} {k : Nat} (hk : k < v.length) (b : Bool) :
    setGrow v (k + 1) b = v.set k b := by
  unfold setGrow
  rw [Nat.sub_eq_zero_of_le hk, List.replicate_zero, List.append_nil, Nat.add_sub_cancel]

/-- Elements set at different places. -/
theorem foldl_setGrow {m n : Nat} {c : Nat → Nat} (b : Nat → Bool) (hc : ∀ i < n, c i < m)
    (hinj : ∀ i < n, ∀ j < n, c i = c j → i = j) : ∃ v,
      (List.range n).foldl (fun v i => setGrow v (c i + 1) (b i)) (List.replicate m false) = v ∧
        v.length = m ∧ ∀ k, v.getD k false = true ↔ ∃ i < n, c i = k ∧ b i = true := by
  induction n with
  | zero =>
    refine ⟨_, rfl, List.length_replicate, fun k => ?_⟩
    rw [List.range_zero, List.foldl_nil, List.getD_eq_getElem?_getD, List.getElem?_replicate]
    split_ifs <;> simp
  | succ n ih =>
    obtain ⟨v, hv, hlen, hget⟩ := ih (fun i hi => hc i (by omega))
      fun i hi j hj => hinj i (by omega) j (by omega)
    have hn : c n < v.length := hlen ▸ hc n n.lt_succ_self
    refine ⟨v.set (c n) (b n), ?_, by rw [List.length_set, hlen], fun k => ?_⟩
    · rw [List.range_succ, List.foldl_append, hv, List.foldl_cons, List.foldl_nil,
        setGrow_inside hn]
    · rw [Nat.exists_lt_succ_right, List.getD_eq_getElem?_getD, List.getElem?_set]
      split_ifs with hk
      · -- No bit before is for this place.
        have hfree : ¬ ∃ i < n, c i = k ∧ b i = true := by
          rintro ⟨i, hi, rfl, -⟩
          exact absurd (hinj n n.lt_succ_self i (by omega) hk) (by omega)
        simp [hfree, hk]
      · rw [← List.getD_eq_getElem?_getD, hget k]
        simp [hk]

/-! ## What the branches mark -/

/-- The branch marks the PRBs with `selected`. -/
def MarksAll (nrb : Nat) (e : Effect) (selected : Nat → Bool) : Prop :=
  ∃ marked, e = .marks marked ∧ ∀ k < nrb, marked k = selected k

theorem marksAll_of_usage {bits : List Bool} {selected : Nat → Bool}
    (ha : allocation ra nrb = some (.usage bits)) (hlen : bits.length = nrb)
    (hget : ∀ k < nrb, bits.getD k false = selected k) :
    MarksAll nrb (effect ra nrb) selected := by
  refine ⟨pick false bits, ?_, fun k hk => ?_⟩
  · unfold effect
    rw [ha]
    exact if_pos (Or.inl hlen)
  · have hk' : k < bits.length := hlen ▸ hk
    rw [← hget k hk, pick_eq_getElem false hk', List.getD_eq_getElem?_getD,
      List.getElem?_eq_getElem hk', Option.getD_some]

theorem effect_type2 (h2 : ra.raType = 2) (hstart : 0 ≤ ra.two) (hlen : 0 ≤ ra.three)
    (hin : ra.two + ra.three ≤ nrb) : MarksAll nrb (effect ra nrb) (denoted ra nrb) := by
  have ha : allocation ra nrb = some (.usage (List.replicate ra.two.toNat false ++
      List.replicate ra.three.toNat true ++
        List.replicate (nrb - ra.two.toNat - ra.three.toNat) false)) := by
    unfold allocation allocation2
    rw [if_pos h2, if_neg (by omega)]
    congr 5 <;> omega
  refine marksAll_of_usage ha ?_ fun k hk => ?_
  · simp only [List.length_append, List.length_replicate]
    omega
  · unfold denoted
    rw [if_pos h2, List.getD_eq_getElem?_getD]
    simp only [List.getElem?_append, List.getElem?_replicate, List.length_append,
      List.length_replicate]
    split_ifs <;> simp <;> omega

/-- A valid bitmask is a `uint32` where it has at most 32 bits. -/
theorem uint32_le {x : Int} {n : Nat} (hx : x < 2 ^ n) :
    ¬ uint32 x > 2 ^ n - 1 ∧ (n ≤ 32 → uint32 x = x.toNat) := by
  have hpos : 0 < 2 ^ n := Nat.two_pow_pos n
  have hlt : x.toNat < 2 ^ n := by
    rw [Int.toNat_lt' hpos]
    exact_mod_cast hx
  refine ⟨?_, fun hn => ?_⟩
  · unfold uint32
    omega
  · have hle : 2 ^ n ≤ 2 ^ 32 := Nat.pow_le_pow_right (by decide) hn
    unfold uint32
    omega

theorem bitget_getD {mask n : Nat} {v : List Bool} (h : bitget mask n = some v) :
    n ≤ 32 ∧ v.length = n ∧ ∀ i < n, v.getD i false = mask.testBit (n - 1 - i) := by
  unfold bitget at h
  split_ifs at h with hn
  obtain rfl := Option.some.inj h
  refine ⟨hn, by simp, fun i hi => ?_⟩
  simp [List.getD_eq_getElem?_getD, hi]

theorem nofBit_spec (hnrb : 0 < nrb) : 0 < nofBit nrb ∧
    rbgSize nrb * (nofBit nrb - 1) < nrb ∧ nrb ≤ rbgSize nrb * nofBit nrb := by
  unfold nofBit
  rcases rbgSize_cases nrb with ⟨h, -⟩ | h | h | h <;> rw [h] <;> omega

/-- Each bit as often as the RBG has PRBs. -/
theorem groups_getD {v : List Bool} {last : Bool} (hnrb : 0 < nrb) (hv : v.length = nofBit nrb)
    (hlast : v.getLast? = some last) {k : Nat} (hk : k < nrb) :
    (repelem v.dropLast (rbgSize nrb) ++ List.replicate (nrb - rbgSize nrb * (nofBit nrb - 1))
      last).getD k false = v.getD (k / rbgSize nrb) false := by
  obtain ⟨hpos, -, hle⟩ := nofBit_spec hnrb
  have hP := rbgSize_pos nrb
  have hlen : (repelem v.dropLast (rbgSize nrb)).length = rbgSize nrb * (nofBit nrb - 1) := by
    rw [length_repelem, List.length_dropLast, hv]
  rw [List.getD_eq_getElem?_getD]
  by_cases hin : k < rbgSize nrb * (nofBit nrb - 1)
  · have hdiv : k / rbgSize nrb < nofBit nrb - 1 := by
      rwa [Nat.div_lt_iff_lt_mul hP, Nat.mul_comm]
    rw [List.getElem?_append_left (hlen ▸ hin), ← List.getD_eq_getElem?_getD, repelem_getD hP,
      List.getD_eq_getElem?_getD, List.getElem?_dropLast, hv, if_pos hdiv,
      ← List.getD_eq_getElem?_getD]
  · have hdiv : k / rbgSize nrb = nofBit nrb - 1 := by
      refine Nat.div_eq_of_lt_le ?_ ?_
      · rw [Nat.mul_comm]
        exact not_lt.mp hin
      · rw [Nat.mul_comm, Nat.sub_add_cancel hpos]
        exact hk.trans_le hle
    rw [List.getElem?_append_right (hlen ▸ not_lt.mp hin), hlen, List.getElem?_replicate,
      if_pos (by omega), Option.getD_some, hdiv, List.getD_eq_getElem?_getD, ← hv,
      ← List.getLast?_eq_getElem?, hlast, Option.getD_some]

theorem effect_type0 (h0 : ra.raType = 0) (hmask : ra.two < 2 ^ nofBit nrb) :
    if 0 < nrb ∧ nofBit nrb ≤ 32 then MarksAll nrb (effect ra nrb) (denoted ra nrb)
    else effect ra nrb = .error := by
  obtain ⟨hsmall, hvalue⟩ := uint32_le hmask
  have hbit : (nrb + rbgSize nrb - 1) / rbgSize nrb = nofBit nrb := rfl
  have halloc : allocation ra nrb = (bitget (uint32 ra.two) (nofBit nrb)).bind fun usage =>
      usage.getLast?.bind fun last => some (.usage (repelem usage.dropLast (rbgSize nrb) ++
        List.replicate (nrb - rbgSize nrb * (nofBit nrb - 1)) last)) := by
    unfold allocation allocation0
    rw [if_neg (by omega), if_pos h0]
    simp only [hbit, if_neg hsmall]
    rfl
  cases hbits : bitget (uint32 ra.two) (nofBit nrb) with
  | none =>
    have hlong : ¬ nofBit nrb ≤ 32 := fun hle => by simp [bitget, hle] at hbits
    rw [if_neg (fun h => hlong h.2)]
    unfold effect
    rw [halloc, hbits]
    rfl
  | some v =>
    obtain ⟨hle, hv, hget⟩ := bitget_getD hbits
    rw [hbits, Option.bind_some] at halloc
    cases hlast : v.getLast? with
    | none =>
      have hzero : ¬ 0 < nrb := by
        intro hnrb
        have hpos := (nofBit_spec hnrb).1
        rw [List.getLast?_eq_none_iff.mp hlast, List.length_nil] at hv
        omega
      rw [if_neg (fun h => hzero h.1)]
      unfold effect
      rw [halloc, hlast]
      rfl
    | some last =>
      rw [hlast, Option.bind_some] at halloc
      have hnrb : 0 < nrb := by
        by_contra hzero
        obtain rfl : nrb = 0 := by omega
        rw [show nofBit 0 = 0 from rfl] at hv
        simp [List.length_eq_zero_iff.mp hv] at hlast
      obtain ⟨hpos, hlt, hfit⟩ := nofBit_spec hnrb
      rw [if_pos ⟨hnrb, hle⟩]
      refine marksAll_of_usage halloc ?_ fun k hk => ?_
      · rw [List.length_append, length_repelem, List.length_dropLast, List.length_replicate, hv]
        omega
      · have hdiv : k / rbgSize nrb < nofBit nrb := by
          rw [Nat.div_lt_iff_lt_mul (rbgSize_pos nrb), Nat.mul_comm]
          exact hk.trans_le hfit
        rw [groups_getD hnrb hv hlast hk, hget _ hdiv, hvalue hle]
        unfold denoted
        rw [if_neg (by omega), if_pos h0]

/-- The PRB that the branch for type 1 has for bit `i`. -/
def markedPrb (ra : RaIndicator) (nrb i : Nat) : Nat :=
  let prb := i * rbgSize nrb + ra.three.toNat
  if ra.four = 0 then prb else nrb - 1 - prb

/-- The PRBs that it marks. -/
def marked (ra : RaIndicator) (nrb k : Nat) : Bool :=
  (List.range (nofBitmask nrb).toNat).any fun i => bitAt ra nrb i &&
    decide (markedPrb ra nrb i = k)

theorem bit_inside {p i : Nat} (hp : p < rbgSize nrb) (hi : i < (nofBitmask nrb).toNat) :
    i * rbgSize nrb + p < nrb := by
  have hn := nofBitmask_eq nrb
  unfold nofBit at hn
  rcases hn with ⟨hn, hP⟩ | ⟨hn, hP⟩ | ⟨hn, hP⟩ | ⟨hn, hP⟩ <;>
    rw [hn] at hi <;> rw [hP] at hi hp ⊢ <;> omega

theorem bit_inside_three (hp0 : 0 ≤ ra.three) (hp : ra.three < rbgSize nrb) {i : Nat}
    (hi : i < (nofBitmask nrb).toNat) : i * rbgSize nrb + ra.three.toNat < nrb :=
  bit_inside (by omega) hi

theorem prbs_eq (hp0 : 0 ≤ ra.three) (hp : ra.three < rbgSize nrb) :
    let prbs := (List.range' 1 (nofBitmask nrb).toNat).map fun (k : Nat) =>
      (k : Int) * rbgSize nrb - rbgSize nrb + 1 + ra.three
    (if ra.four = 0 then prbs else prbs.map fun prb => nrb + 1 - prb) =
      (List.range (nofBitmask nrb).toNat).map fun i => (markedPrb ra nrb i : Int) + 1 := by
  intro prbs
  have hfirst : prbs = (List.range (nofBitmask nrb).toNat).map fun (i : Nat) =>
      ((i * rbgSize nrb + ra.three.toNat : Nat) : Int) + 1 := by
    simp only [prbs, List.range'_eq_map_range, List.map_map]
    refine List.map_congr_left fun i _ => ?_
    simp only [Function.comp_apply]
    push_cast
    rw [Int.add_mul, Int.toNat_of_nonneg hp0]
    omega
  split_ifs with hshift
  · rw [hfirst]
    simp only [markedPrb, if_pos hshift]
  · rw [hfirst, List.map_map]
    refine List.map_congr_left fun i hi => ?_
    have hin := bit_inside_three hp0 hp (List.mem_range.mp hi)
    simp only [Function.comp_apply, markedPrb, if_neg hshift]
    omega

theorem markedPrb_lt (hp0 : 0 ≤ ra.three) (hp : ra.three < rbgSize nrb) {i : Nat}
    (hi : i < (nofBitmask nrb).toNat) : markedPrb ra nrb i < nrb := by
  have hin := bit_inside_three hp0 hp hi
  simp only [markedPrb]
  split_ifs <;> omega

theorem markedPrb_inj (hp0 : 0 ≤ ra.three) (hp : ra.three < rbgSize nrb) {i j : Nat}
    (hi : i < (nofBitmask nrb).toNat) (hj : j < (nofBitmask nrb).toNat)
    (h : markedPrb ra nrb i = markedPrb ra nrb j) : i = j := by
  have hini := bit_inside_three hp0 hp hi
  have hinj := bit_inside_three hp0 hp hj
  have hmul : i * rbgSize nrb = j * rbgSize nrb := by
    simp only [markedPrb] at h
    split_ifs at h <;> omega
  exact Nat.eq_of_mul_eq_mul_right (rbgSize_pos nrb) hmul

theorem effect_type1 (h1 : ra.raType = 1) (hn : 0 ≤ nofBitmask nrb)
    (hmask : ra.two < 2 ^ (nofBitmask nrb).toNat) (hp0 : 0 ≤ ra.three)
    (hp : ra.three < rbgSize nrb) :
    if nofBitmask nrb ≤ 32 then MarksAll nrb (effect ra nrb) (marked ra nrb)
    else effect ra nrb = .error := by
  obtain ⟨hsmall, hvalue⟩ := uint32_le hmask
  have hbit : (((nrb + rbgSize nrb - 1) / rbgSize nrb : Nat) : Int) -
      (Nat.clog 2 (rbgSize nrb) : Int) - 1 = nofBitmask nrb := rfl
  have hprbs := prbs_eq hp0 hp
  have halloc : allocation ra nrb = (bitget (uint32 ra.two) (nofBitmask nrb).toNat).bind
      fun usage => (assignAt (List.replicate nrb false)
        ((List.range (nofBitmask nrb).toNat).map fun i => (markedPrb ra nrb i : Int) + 1)
        usage).bind fun currentUsage => some (.usage currentUsage) := by
    unfold allocation allocation1
    rw [if_neg (by omega), if_neg (by omega), if_pos h1]
    simp only [hbit] at hprbs ⊢
    rw [if_neg (by omega), hprbs]
    rfl
  split_ifs with hle
  · obtain ⟨v, hv, hlen, hget⟩ := foldl_setGrow (fun i => bitAt ra nrb i)
      (fun i hi => markedPrb_lt hp0 hp hi) fun i hi j hj => markedPrb_inj hp0 hp hi hj
    have hassign : assignAt (List.replicate nrb false)
        ((List.range (nofBitmask nrb).toNat).map fun i => (markedPrb ra nrb i : Int) + 1)
        ((List.range (nofBitmask nrb).toNat).map fun i => bitAt ra nrb i) = some v := by
      unfold assignAt
      rw [if_neg, List.zip_map', List.foldl_map, ← hv]
      · rfl
      · simp only [List.any_map, List.any_eq_true, not_exists, not_and]
        intro i _
        simp only [Function.comp_apply, decide_eq_true_eq]
        omega
    refine marksAll_of_usage (show allocation ra nrb = some (.usage v) from ?_) hlen fun k _ => ?_
    · rw [halloc, bitget, if_pos (by omega), Option.bind_some, hvalue (by omega)]
      exact (congrArg (Option.bind · _) hassign).trans rfl
    · rw [Bool.eq_iff_iff, hget k]
      simp [marked, and_comm]
  · unfold effect
    rw [halloc, bitget, if_neg (by omega)]
    rfl

/-! ## Type 1 -/

section

variable {P p s i j D : Int}

theorem subsetPrb_eq (P p s i : Int) :
    subsetPrb P p s i = (i + s) % P + ((i + s) / P * P + p) * P := by
  unfold subsetPrb
  ring

theorem subsetPrb_emod (P p s i : Int) : subsetPrb P p s i % P = (i + s) % P := by
  rw [subsetPrb_eq, Int.add_mul_emod_self_right, Int.emod_emod]

/-- Without an offset, a bit is at its place in the bitmap if its RBG has it there. -/
theorem subsetPrb_unshifted (h : i % P = p) : subsetPrb P p 0 i = i * P + p := by
  rw [subsetPrb_eq, Int.add_zero, h]
  have hdiv : i / P * P + p = i := by
    rw [← h]
    exact Int.ediv_mul_add_emod i P
  rw [hdiv, Int.add_comm]

/-- Counted from the end of the grid, bit `j` is at the place of bit `i` of a shifted bitmap. -/
theorem subsetPrb_shifted (hP : 0 < P) : subsetPrb P p s i = D - j * P ↔
    (i + s) % P = D % P ∧ i + j + s + p = D / P + D % P := by
  have hD := Int.ediv_mul_add_emod D P
  have hi := Int.ediv_mul_add_emod (i + s) P
  constructor
  · intro h
    have hmod : (i + s) % P = D % P := by
      rw [← subsetPrb_emod P p s i, h, Int.sub_mul_emod_self_right]
    refine ⟨hmod, ?_⟩
    rw [subsetPrb_eq, hmod] at h
    have hcancel : ((i + s) / P * P + p) * P = (D / P - j) * P := by
      rw [Int.sub_mul]
      omega
    have := Int.eq_of_mul_eq_mul_right hP.ne' hcancel
    omega
  · rintro ⟨hmod, hsum⟩
    have hplace : (i + s) / P * P + p = D / P - j := by omega
    rw [subsetPrb_eq, hplace, hmod, Int.sub_mul]
    omega

end

/-- The bitmaps that the branch for type 1 gets right. Not shifted, each set bit is where its
number modulo `P` is the subset. Shifted, each is where the last PRB of the subset has it, and the
set bits are symmetric. -/
def BitsFit (ra : RaIndicator) (nrb : Nat) : Prop :=
  let P : Int := rbgSize nrb
  let s := subsetShift ra nrb
  let last := nrb - 1 - ra.three
  ∀ i < (nofBitmask nrb).toNat, bitAt ra nrb i = true →
    if ra.four = 0 then (i : Int) % P = ra.three
    else (i + s) % P = last % P ∧ ∃ j < (nofBitmask nrb).toNat, bitAt ra nrb j = true ∧
      i + j + s + ra.three = last / P + last % P

theorem denoted_type1 (h1 : ra.raType = 1) (k : Nat) : denoted ra nrb k = true ↔
    ∃ i < (nofBitmask nrb).toNat, bitAt ra nrb i = true ∧
      subsetPrb (rbgSize nrb) ra.three (subsetShift ra nrb) i = k := by
  unfold denoted
  rw [if_neg (by omega), if_neg (by omega), if_pos h1]
  simp

theorem marked_iff (k : Nat) : marked ra nrb k = true ↔
    ∃ i < (nofBitmask nrb).toNat, bitAt ra nrb i = true ∧ markedPrb ra nrb i = k := by
  simp [marked]

/-- A bit of type 1 denotes a PRB of the grid. -/
theorem bit_denotes (hp0 : 0 ≤ ra.three) (hp : ra.three < rbgSize nrb) {i : Nat}
    (hi : i < (nofBitmask nrb).toNat) :
    ∃ k < nrb, subsetPrb (rbgSize nrb) ra.three (subsetShift ra nrb) i = (k : Int) := by
  obtain ⟨p, hpnat⟩ := Int.eq_ofNat_of_zero_le hp0
  have hplt : p < rbgSize nrb := by omega
  have hin := bit_inside hplt hi
  have hle := nofBitmask_le hplt
  have hshift : 0 ≤ subsetShift ra nrb ∧
      subsetShift ra nrb + nofBitmask nrb ≤ subsetSize nrb p := by
    unfold subsetShift
    rw [hpnat, Int.toNat_natCast]
    split_ifs <;> omega
  obtain ⟨h0, hlt⟩ : 0 ≤ subsetPrb (rbgSize nrb) p (subsetShift ra nrb) i ∧
      subsetPrb (rbgSize nrb) p (subsetShift ra nrb) i < nrb :=
    subsetPrb_inside (by omega) hplt (by omega) (by omega)
  rw [← hpnat] at h0 hlt
  exact ⟨_, (Int.toNat_lt' (by omega)).mpr hlt, (Int.toNat_of_nonneg h0).symm⟩

theorem markedPrb_cast (hp0 : 0 ≤ ra.three) (hp : ra.three < rbgSize nrb) {i : Nat}
    (hi : i < (nofBitmask nrb).toNat) : (markedPrb ra nrb i : Int) =
      if ra.four = 0 then i * rbgSize nrb + ra.three
      else nrb - 1 - ra.three - i * rbgSize nrb := by
  have hin := bit_inside_three hp0 hp hi
  have hcast : ((i * rbgSize nrb + ra.three.toNat : Nat) : Int) = i * rbgSize nrb + ra.three := by
    push_cast
    rw [Int.toNat_of_nonneg hp0]
  unfold markedPrb
  simp only
  split_ifs <;> omega

/-- Without a shift, a bit that fits marks what it denotes. -/
theorem markedPrb_of_unshifted (hp0 : 0 ≤ ra.three) (hp : ra.three < rbgSize nrb)
    (hshift : ra.four = 0) (h : BitsFit ra nrb) {i : Nat} (hi : i < (nofBitmask nrb).toNat)
    (hbit : bitAt ra nrb i = true) :
    (markedPrb ra nrb i : Int) = subsetPrb (rbgSize nrb) ra.three (subsetShift ra nrb) i := by
  have hs : subsetShift ra nrb = 0 := if_pos hshift
  have hfit := h i hi hbit
  simp only [if_pos hshift] at hfit
  rw [markedPrb_cast hp0 hp hi, if_pos hshift, hs, subsetPrb_unshifted hfit]

/-- With a shift, the bit opposite to one that fits marks what that one denotes. -/
theorem markedPrb_of_shifted (hp0 : 0 ≤ ra.three) (hp : ra.three < rbgSize nrb)
    (hshift : ra.four ≠ 0) (h : BitsFit ra nrb) {i : Nat} (hi : i < (nofBitmask nrb).toNat)
    (hbit : bitAt ra nrb i = true) : ∃ j < (nofBitmask nrb).toNat, bitAt ra nrb j = true ∧
      (i : Int) + j + subsetShift ra nrb + ra.three =
        (nrb - 1 - ra.three) / rbgSize nrb + (nrb - 1 - ra.three) % rbgSize nrb ∧
      (markedPrb ra nrb j : Int) =
        subsetPrb (rbgSize nrb) ra.three (subsetShift ra nrb) i := by
  have hP : (0 : Int) < rbgSize nrb := by exact_mod_cast rbgSize_pos nrb
  have hfit := h i hi hbit
  simp only [if_neg hshift] at hfit
  obtain ⟨hmod, j, hj, hbit', hsum⟩ := hfit
  refine ⟨j, hj, hbit', hsum, ?_⟩
  rw [markedPrb_cast hp0 hp hj, if_neg hshift, eq_comm, subsetPrb_shifted hP]
  exact ⟨hmod, hsum⟩

theorem bitsFit_of_marked (h1 : ra.raType = 1) (hp0 : 0 ≤ ra.three) (hp : ra.three < rbgSize nrb)
    (h : ∀ k < nrb, marked ra nrb k = denoted ra nrb k) : BitsFit ra nrb := by
  have hP : (0 : Int) < rbgSize nrb := by exact_mod_cast rbgSize_pos nrb
  intro i hi hbit
  -- The PRB of the bit is marked, for this bit or for another one.
  obtain ⟨k, hk, hprb⟩ := bit_denotes hp0 hp hi
  have hmarked := h k hk
  rw [(denoted_type1 h1 k).mpr ⟨i, hi, hbit, hprb⟩, marked_iff] at hmarked
  obtain ⟨j, hj, hbit', hmarked⟩ := hmarked
  have hcast := markedPrb_cast hp0 hp hj
  rw [hmarked, ← hprb] at hcast
  split_ifs with hshift
  · rw [if_pos hshift] at hcast
    have hmod := subsetPrb_emod (rbgSize nrb) ra.three (subsetShift ra nrb) i
    have hs : subsetShift ra nrb = 0 := if_pos hshift
    rw [hcast, hs, Int.add_zero, Int.add_comm, Int.add_mul_emod_self_right,
      Int.emod_eq_of_lt hp0 hp] at hmod
    exact hmod.symm
  · rw [if_neg hshift, subsetPrb_shifted hP] at hcast
    exact ⟨hcast.1, j, hj, hbit', hcast.2⟩

theorem marked_eq_denoted_iff (h1 : ra.raType = 1) (hp0 : 0 ≤ ra.three)
    (hp : ra.three < rbgSize nrb) :
    (∀ k < nrb, marked ra nrb k = denoted ra nrb k) ↔ BitsFit ra nrb := by
  refine ⟨bitsFit_of_marked h1 hp0 hp, fun h k _ => ?_⟩
  rw [Bool.eq_iff_iff, marked_iff, denoted_type1 h1]
  by_cases hshift : ra.four = 0
  · constructor
    · rintro ⟨i, hi, hbit, rfl⟩
      exact ⟨i, hi, hbit, (markedPrb_of_unshifted hp0 hp hshift h hi hbit).symm⟩
    · rintro ⟨i, hi, hbit, hprb⟩
      have hsame := markedPrb_of_unshifted hp0 hp hshift h hi hbit
      exact ⟨i, hi, hbit, Int.ofNat_inj.mp (hsame.trans hprb)⟩
  · constructor
    · rintro ⟨j, hj, hbit, rfl⟩
      -- The bit opposite to `j` denotes what `j` marks.
      obtain ⟨i, hi, hbit', hsum, -⟩ := markedPrb_of_shifted hp0 hp hshift h hj hbit
      obtain ⟨j', hj', -, hsum', hprb⟩ := markedPrb_of_shifted hp0 hp hshift h hi hbit'
      obtain rfl : j' = j := by omega
      exact ⟨i, hi, hbit', hprb.symm⟩
    · rintro ⟨i, hi, hbit, hprb⟩
      obtain ⟨j, hj, hbit', -, hmarked⟩ := markedPrb_of_shifted hp0 hp hshift h hi hbit
      exact ⟨j, hj, hbit', Int.ofNat_inj.mp (hmarked.trans hprb)⟩

/-! ## Rows -/

theorem marks_apply_congr {selected selected' : Nat → Bool}
    (h : ∀ k < nrb, selected k = selected' k) (f : Bool → Int → Int) (isDown : Bool)
    (row : List Int) : (Effect.marks selected).apply f nrb isDown row =
      (Effect.marks selected').apply f nrb isDown row := by
  simp only [Effect.apply, mapSlice, Option.some.injEq, UsageOut.mk.injEq, and_true]
  refine mapIdx_congr fun i _ x => ?_
  split_ifs
  · rw [h _ (by omega)]
  · rfl
  · rw [h _ (by omega)]
  · rfl

/-- A row of zeros shows which PRBs are marked. -/
theorem marks_of_zeros {selected selected' : Nat → Bool}
    (h : (Effect.marks selected).apply (overwrite 1 (orFlag 0)) nrb true
        (List.replicate (1 + 2 * nrb) 0) =
      (Effect.marks selected').apply (overwrite 1 (orFlag 0)) nrb true
        (List.replicate (1 + 2 * nrb) 0)) : ∀ k < nrb, selected k = selected' k := by
  intro k hk
  simp only [Effect.apply, mapSlice, if_true, Option.some.injEq, UsageOut.mk.injEq, and_true] at h
  have hget := congrArg (fun row => row[1 + k]?) h
  have hin : 1 ≤ 1 + k ∧ 1 + k < 1 + nrb := by omega
  simp only [List.getElem?_mapIdx, List.getElem?_replicate, show 1 + k < 1 + 2 * nrb by omega,
    if_true, Option.map_some, hin, and_self, Nat.add_sub_cancel_left, Option.some.injEq] at hget
  revert hget
  cases selected k <;> cases selected' k <;> simp [overwrite, orFlag]

/-! ## The scheduler's count -/

theorem denoted_count (h0 : ra.raType = 0) (lib : Mac.Lib) (hlib : lib.type0P nrb = rbgSize nrb) :
    (List.range nrb).countP (denoted ra nrb) =
      Mac.SchedUe.format1CountPrb lib ra.two.toNat nrb := by
  have hdenoted : denoted ra nrb =
      fun k => ra.two.toNat.testBit (nofBit nrb - 1 - k / rbgSize nrb) := by
    funext k
    unfold denoted
    rw [if_neg (by omega), if_pos h0]
  rw [Mac.format1CountPrb_eq lib _ (hlib.symm ▸ rbgSize_pos nrb), hlib, hdenoted, nofBit]

/-! ## The decoders -/

/-- A RBG bitmask of at most 32 bits; a subset bitmap that is as short and fits. -/
def Decodable (ra : RaIndicator) (nrb : Nat) : Prop :=
  (ra.raType = 0 → 0 < nrb ∧ nofBit nrb ≤ 32) ∧
    (ra.raType = 1 → nofBitmask nrb ≤ 32 ∧ BitsFit ra nrb)

theorem decodesRight_of_marksAll (h : MarksAll nrb (effect ra nrb) (denoted ra nrb)) :
    DecodesRight ra nrb := by
  obtain ⟨marked, he, hmarked⟩ := h
  refine ⟨fun isDown row hrow => ?_, fun rnti isDown row hpos hlt hrow => ?_,
    fun h0 lib hlib => denoted_count h0 lib hlib⟩
  · rw [getUsage_overwrite hrow, he, marks_apply_congr hmarked]
  · have hstored : stored ra.raType rnti = rnti := by
      unfold stored uint32
      split_ifs <;> omega
    rw [getUsage2_overwrite hpos hrow, he, hstored, marks_apply_congr hmarked]

theorem decodesRight_marks (h : DecodesRight ra nrb) {selected : Nat → Bool}
    (he : MarksAll nrb (effect ra nrb) selected) : ∀ k < nrb, selected k = denoted ra nrb k := by
  obtain ⟨marked, he, hmarked⟩ := he
  have hlen : (List.replicate (1 + 2 * nrb) (0 : Int)).length = 1 + 2 * nrb := by simp
  have hrow := h.flags true _ hlen
  rw [getUsage_overwrite hlen, he] at hrow
  intro k hk
  rw [← hmarked k hk]
  exact marks_of_zeros hrow k hk

theorem not_decodesRight_error (he : effect ra nrb = .error) : ¬ DecodesRight ra nrb := by
  intro h
  have hlen : (List.replicate (1 + 2 * nrb) (0 : Int)).length = 1 + 2 * nrb := by simp
  have hrow := h.flags true _ hlen
  rw [getUsage_overwrite hlen, he] at hrow
  simp [Effect.apply] at hrow

/-- **The decoders mark the PRBs that the indication denotes**, exactly where the bitmask fits 32
bits and, for type 1, where the numbering of the code meets that of the subset. -/
theorem decodes_right_iff (hra : ValidRa ra nrb) : DecodesRight ra nrb ↔ Decodable ra nrb := by
  unfold Decodable
  rcases hra with ⟨h2, hstart, hlen, hin⟩ | ⟨h0, -, hmask⟩ | ⟨h1, hn, -, hmask, hp0, hp⟩
  · have hright := decodesRight_of_marksAll (effect_type2 h2 hstart hlen hin)
    simp [hright, h2]
  · have he := effect_type0 h0 hmask
    simp only [h0, true_imp_iff, Int.zero_ne_one, false_imp_iff, and_true]
    constructor
    · intro h
      by_contra hnot
      rw [if_neg hnot] at he
      exact not_decodesRight_error he h
    · intro h
      rw [if_pos h] at he
      exact decodesRight_of_marksAll he
  · have he := effect_type1 h1 hn hmask hp0 hp
    simp only [h1, true_imp_iff, Int.one_ne_zero, false_imp_iff, true_and]
    rw [← marked_eq_denoted_iff h1 hp0 hp]
    constructor
    · intro h
      have hle : nofBitmask nrb ≤ 32 := by
        by_contra hnot
        rw [if_neg hnot] at he
        exact not_decodesRight_error he h
      rw [if_pos hle] at he
      exact ⟨hle, decodesRight_marks h he⟩
    · rintro ⟨hle, hfit⟩
      rw [if_pos hle] at he
      obtain ⟨sel, hsel, hmarked⟩ := he
      exact decodesRight_of_marksAll ⟨sel, hsel, fun k hk => (hmarked k hk).trans (hfit k hk)⟩

/-- RBGs 0 and 2 of three PRBs, in a grid that ends with two. -/
theorem decodes_right_twoRbgs : DecodesRight ⟨0, 2 ^ 16 + 2 ^ 14, 0, 0⟩ 50 :=
  (decodes_right_iff (Or.inr (Or.inl ⟨rfl, by decide, by decide⟩))).mpr
    ⟨fun _ => by decide, fun h => absurd h (by decide)⟩

/-- Bit 1 of subset 0 denotes PRB 1, and PRB 2 is marked. -/
theorem not_decodes_right_bitOne : ¬ ∀ ra nrb, ValidRa ra nrb → DecodesRight ra nrb := by
  intro h
  have hright := h ⟨1, 2 ^ 4, 0, 0⟩ 15
    (Or.inr (Or.inr ⟨rfl, by decide, by decide, by decide, by decide, by decide⟩))
  have hrow := hright.flags true (List.replicate 31 0) rfl
  exact absurd hrow (by decide +kernel)

end Srsenb.Trace
