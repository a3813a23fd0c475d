import Mathlib.Data.Nat.Log
import Srsenb.Base.Rows

/-! # Usage decoders (`get_usage.m`, `get_usage2.m`, `get_usage_mcs.m`)

A row has a header, a half of `nrb` columns for each direction, and in two of the decoders a
trailer. A call that ends with an error gives `none`. -/

open Srsenb.Vec

namespace Srsenb.Trace

/-- `ra_indicator`: the type, and up to three values. -/
structure RaIndicator where
  raType : Int
  two : Int
  three : Int
  four : Int
  deriving DecidableEq

/-- `p`, the PRBs of an RBG. -/
def rbgSize (nrb : Nat) : Nat :=
  if nrb ≤ 10 then 1 else if nrb ≤ 26 then 2 else if nrb ≤ 63 then 3 else 4

/-- `uint32` of a whole number saturates. -/
def uint32 (x : Int) : Nat := min x.toNat (2 ^ 32 - 1)

/-- `bitget(mask, n:-1:1)` of a `uint32` -/
def bitget (mask n : Nat) : Option (List Bool) :=
  if n ≤ 32 then some ((List.range n).map fun i => mask.testBit (n - 1 - i)) else none

def repelem (v : List Bool) (n : Nat) : List Bool := v.flatMap (List.replicate n)

/-- `v(k) = b`. The vector grows when `k` is beyond its end. -/
def setGrow (v : List Bool) (k : Nat) (b : Bool) : List Bool :=
  (v ++ List.replicate (k - v.length) false).set (k - 1) b

/-- `current_usage(prbs) = usage` -/
def assignAt (v : List Bool) (prbs : List Int) (usage : List Bool) : Option (List Bool) :=
  if prbs.any (· < 1) then none
  else some ((List.zip prbs usage).foldl (fun v kb => setGrow v kb.1.toNat kb.2) v)

/-- What a resource indication does to the selected half. -/
inductive Allocation where
  | ignored (message : String)
  | unchanged
  | usage (bits : List Bool)
  deriving DecidableEq

/-- The type 2 branch: a run of PRBs. -/
def allocation2 (ra : RaIndicator) (nrb : Nat) : Allocation :=
  let rbStart := ra.two + 1
  let length := ra.three
  if rbStart + length - 1 > nrb then
    .ignored "Wrong RA type 2 assignment, beyond nrb!! Ignored!!"
  else
    -- a length below zero is taken for zero
    .usage (List.replicate (rbStart - 1).toNat false ++ List.replicate length.toNat true ++
      List.replicate (nrb - (rbStart + length - 1)).toNat false)

/-- The type 0 branch: a bit for each RBG, the last of which may be smaller. -/
def allocation0 (ra : RaIndicator) (nrb : Nat) : Option Allocation :=
  let p := rbgSize nrb
  let nofBit := (nrb + p - 1) / p
  let rbgBitmask := uint32 ra.two
  if rbgBitmask > 2 ^ nofBit - 1 then
    some (.ignored "Wrong RA type 0 assignment, bitmask too large!! Ignored!!")
  else do
    let usage ← bitget rbgBitmask nofBit
    let last ← usage.getLast?
    let lastBitRepeatTimes := nrb - p * (nofBit - 1)
    some (.usage (repelem usage.dropLast p ++ List.replicate lastBitRepeatTimes last))

/-- The type 1 branch: a bit for each PRB of a subset, shifted or not. -/
def allocation1 (ra : RaIndicator) (nrb : Nat) : Option Allocation :=
  let p := rbgSize nrb
  let nofBitmask : Int := ((nrb + p - 1) / p : Nat) - (Nat.clog 2 p : Int) - 1
  let vrbBitmask := uint32 ra.two
  -- below zero, `2^nof_bitmask - 1` is less than zero
  if nofBitmask < 0 ∨ vrbBitmask > 2 ^ nofBitmask.toNat - 1 then
    some (.ignored "Wrong RA type 1 assignment, bitmask too large!! Ignored!!")
  else do
    let prbs := (List.range' 1 nofBitmask.toNat).map fun (k : Nat) =>
      (k : Int) * p - p + 1 + ra.three
    let prbs := if ra.four = 0 then prbs else prbs.map fun prb => nrb + 1 - prb
    let usage ← bitget vrbBitmask nofBitmask.toNat
    let currentUsage ← assignAt (List.replicate nrb false) prbs usage
    some (.usage currentUsage)

def allocation (ra : RaIndicator) (nrb : Nat) : Option Allocation :=
  if ra.raType = 2 then some (allocation2 ra nrb)
  else if ra.raType = 0 then allocation0 ra nrb
  else if ra.raType = 1 then allocation1 ra nrb
  else some .unchanged

/-- What the three decoders do not share. -/
structure UsageDecoder where
  /-- the columns that are in neither half -/
  extra : Nat
  /-- the columns before the uplink half, from the width and `nrb` -/
  beforeUl : Nat → Nat → Nat
  /-- a bit of `usage` when it is merged, by the type -/
  mark : Int → Bool → Int
  /-- `temp_usage_out` from `usage` and `temp_usage_in` -/
  merge : Int → Int → Int

structure UsageOut where
  row : List Int
  message : Option String
  deriving DecidableEq

/-- `temp_usage_out`, and the text that is displayed. -/
def UsageDecoder.half (d : UsageDecoder) (ra : RaIndicator) (nrb : Nat) (tempUsageIn : List Int) :
    Option (List Int × Option String) :=
  match allocation ra nrb with
  | none => none
  | some (.ignored message) => some (tempUsageIn, some message)
  | some .unchanged => some (tempUsageIn, none)
  | some (.usage bits) =>
    (expand (fun b x => d.merge (d.mark ra.raType b) x) bits tempUsageIn).map fun t => (t, none)

def UsageDecoder.run (d : UsageDecoder) (ra : RaIndicator) (isDown : Bool)
    (usageInput : List Int) : Option UsageOut := do
  let width := usageInput.length
  let nrb := (width - d.extra) / 2
  let before := if isDown then 1 else d.beforeUl width nrb
  let (tempUsageOut, message) ← d.half ra nrb (slice before nrb usageInput)
  (setSlice before nrb tempUsageOut usageInput).map fun row => ⟨row, message⟩

/-- `or` -/
def orFlag (u x : Int) : Int := if u ≠ 0 ∨ x ≠ 0 then 1 else 0

/-- A product with the `uint32` bits of type 0 is a `uint32`. The other bits are doubles. -/
def timesBit (raType : Int) (b : Bool) (x : Int) : Int :=
  if raType = 0 then uint32 (b.toInt * x) else b.toInt * x

/-- `get_usage(ra_indicator, is_down, usage_input)` -/
def getUsage (ra : RaIndicator) : Bool → List Int → Option UsageOut :=
  UsageDecoder.run
    { extra := 1
      beforeUl := fun width nrb => width - nrb
      mark := fun _ b => b.toInt
      merge := orFlag } ra

/-- `get_usage2(ra_indicator, rnti, is_down, usage_input)` -/
def getUsage2 (ra : RaIndicator) (rnti : Int) : Bool → List Int → Option UsageOut :=
  UsageDecoder.run
    { extra := 2
      beforeUl := fun _ nrb => nrb + 1
      mark := fun raType b => timesBit raType b rnti
      merge := fun u x => (u == 0).toInt * x + u } ra

/-- `get_usage_mcs(ra_indicator, mcs, is_down, usage_input)` -/
def getUsageMcs (ra : RaIndicator) (mcs : Int) : Bool → List Int → Option UsageOut :=
  UsageDecoder.run
    { extra := 2
      beforeUl := fun _ nrb => nrb + 1
      mark := fun raType b =>
        if raType = 2 then if b then mcs else -1 else timesBit raType b (mcs + 1) - 1
      merge := fun u x => (u == -1).toInt * x + (u != -1).toInt * u } ra

/-! ## What the decoders agree on -/

/-- What an indication does, in any of the decoders. -/
inductive Effect where
  | error
  | rejected (message : String)
  | unchanged
  | marks (selected : Nat → Bool)

/-- A row after a call: `f` changes the values of a half, and has for each whether its position is
selected. -/
def Effect.apply (e : Effect) (f : Bool → Int → Int) (nrb : Nat) (isDown : Bool)
    (row : List Int) : Option UsageOut :=
  match e with
  | .error => none
  | .rejected message => some ⟨row, some message⟩
  | .unchanged => some ⟨row, none⟩
  | .marks selected =>
    some ⟨mapSlice (if isDown then 1 else nrb + 1) nrb (fun k x => f (selected k) x) row, none⟩

/-- A selected position has `value`, another what `keep` makes of its own. -/
def overwrite (value : Int) (keep : Int → Int) (selected : Bool) (x : Int) : Int :=
  if selected then value else keep x

def effect (ra : RaIndicator) (nrb : Nat) : Effect :=
  match allocation ra nrb with
  | none => .error
  | some (.ignored message) => .rejected message
  | some .unchanged => .unchanged
  | some (.usage bits) =>
    if bits.length = nrb ∨ bits.length = 1 then .marks (pick false bits) else .error

/-- The halves are where the effect has them. -/
structure UsageDecoder.Layout (d : UsageDecoder) : Prop where
  header : 1 ≤ d.extra
  ul : ∀ nrb, d.beforeUl (d.extra + 2 * nrb) nrb = nrb + 1

theorem UsageDecoder.run_eq {d : UsageDecoder} (hd : d.Layout) {ra : RaIndicator} {nrb : Nat}
    {row : List Int} (hrow : row.length = d.extra + 2 * nrb) (isDown : Bool) :
    d.run ra isDown row =
      (effect ra nrb).apply (fun b x => d.merge (d.mark ra.raType b) x) nrb isDown row := by
  have hnrb : (row.length - d.extra) / 2 = nrb := by omega
  have hul : d.beforeUl row.length nrb = nrb + 1 := by rw [hrow, hd.ul]
  have hfit : (if isDown then 1 else nrb + 1) + nrb ≤ row.length := by
    have := hd.header
    split_ifs <;> omega
  unfold UsageDecoder.run UsageDecoder.half effect
  simp only [hnrb, hul]
  cases allocation ra nrb with
  | none => rfl
  | some a =>
    cases a with
    | ignored message => simp [setSlice_slice hfit, Effect.apply]
    | unchanged => simp [setSlice_slice hfit, Effect.apply]
    | usage bits =>
      have h := setSlice_expand hfit false (fun b x => d.merge (d.mark ra.raType b) x) bits
      have hout := congrArg (Option.map fun row => UsageOut.mk row none) h
      rw [Option.map_bind] at hout
      dsimp only
      rw [Option.bind_eq_bind, Option.bind_map]
      refine Eq.trans hout ?_
      by_cases hbits : bits.length = nrb ∨ bits.length = 1
      · rw [if_pos hbits, if_pos hbits]
        rfl
      · rw [if_neg hbits, if_neg hbits]
        rfl

def Effect.isError : Effect → Bool
  | .error => true
  | _ => false

@[simp] theorem Effect.apply_eq_none {e : Effect} {f : Bool → Int → Int} {nrb : Nat}
    {isDown : Bool} {row : List Int} : e.apply f nrb isDown row = none ↔ e.isError := by
  cases e <;> simp [apply, isError]

theorem Effect.length_apply {e : Effect} {f : Bool → Int → Int} {nrb : Nat} {isDown : Bool}
    {row : List Int} {out : UsageOut} (h : e.apply f nrb isDown row = some out) :
    out.row.length = row.length := by
  cases e with
  | error => simp [apply] at h
  | rejected message =>
    obtain rfl := Option.some_inj.mp h
    rfl
  | unchanged =>
    obtain rfl := Option.some_inj.mp h
    rfl
  | marks selected =>
    obtain rfl := Option.some_inj.mp h
    exact List.length_mapIdx

theorem toInt_beq (u x : Int) : (u == x).toInt = if u = x then 1 else 0 := by
  by_cases h : u = x
  · simp [h]
  · rw [beq_false_of_ne h, if_neg h]
    rfl

theorem toInt_bne (u x : Int) : (u != x).toInt = if u = x then 0 else 1 := by
  by_cases h : u = x
  · simp [h]
  · rw [bne, beq_false_of_ne h, if_neg h]
    rfl

/-- A type 0 product saturates. -/
def stored (raType value : Int) : Int := if raType = 0 then uint32 value else value

theorem timesBit_eq (raType : Int) (b : Bool) (x : Int) :
    timesBit raType b x = if b then stored raType x else 0 := by
  cases b <;> simp [timesBit, stored, uint32]

theorem one_le_stored {raType value : Int} (h : 1 ≤ value) : 1 ≤ stored raType value := by
  unfold stored uint32
  split_ifs <;> omega

/-- The members, with the effect on each value as they compute it. -/
theorem getUsage_eq {ra : RaIndicator} {nrb : Nat} {row : List Int}
    (hrow : row.length = 1 + 2 * nrb) (isDown : Bool) :
    getUsage ra isDown row =
      (effect ra nrb).apply (fun b x => orFlag b.toInt x) nrb isDown row := by
  unfold getUsage
  refine UsageDecoder.run_eq ⟨?_, ?_⟩ hrow isDown
  · simp
  · intro nrb
    simp
    omega

theorem getUsage2_eq {ra : RaIndicator} {rnti : Int} {nrb : Nat} {row : List Int}
    (hrow : row.length = 2 + 2 * nrb) (isDown : Bool) :
    getUsage2 ra rnti isDown row =
      (effect ra nrb).apply
        (fun b x => (timesBit ra.raType b rnti == 0).toInt * x + timesBit ra.raType b rnti)
        nrb isDown row := by
  unfold getUsage2
  refine UsageDecoder.run_eq ⟨?_, ?_⟩ hrow isDown <;> simp

theorem getUsageMcs_eq {ra : RaIndicator} {mcs : Int} {nrb : Nat} {row : List Int}
    (hrow : row.length = 2 + 2 * nrb) (isDown : Bool) :
    getUsageMcs ra mcs isDown row =
      (effect ra nrb).apply
        (fun b x =>
          let u := if ra.raType = 2 then if b then mcs else -1
            else timesBit ra.raType b (mcs + 1) - 1
          (u == -1).toInt * x + (u != -1).toInt * u)
        nrb isDown row := by
  unfold getUsageMcs
  refine UsageDecoder.run_eq ⟨?_, ?_⟩ hrow isDown <;> simp

theorem getUsage_overwrite {ra : RaIndicator} {nrb : Nat} {row : List Int}
    (hrow : row.length = 1 + 2 * nrb) (isDown : Bool) :
    getUsage ra isDown row = (effect ra nrb).apply (overwrite 1 (orFlag 0)) nrb isDown row := by
  rw [getUsage_eq hrow]
  congr 1
  funext b x
  cases b <;> simp [orFlag, overwrite]

theorem getUsage2_overwrite {ra : RaIndicator} {rnti : Int} (hrnti : 1 ≤ rnti) {nrb : Nat}
    {row : List Int} (hrow : row.length = 2 + 2 * nrb) (isDown : Bool) :
    getUsage2 ra rnti isDown row =
      (effect ra nrb).apply (overwrite (stored ra.raType rnti) id) nrb isDown row := by
  have hne : stored ra.raType rnti ≠ 0 := by
    have := @one_le_stored ra.raType rnti hrnti
    omega
  rw [getUsage2_eq hrow]
  congr 1
  funext b x
  simp only [timesBit_eq, toInt_beq]
  cases b <;> simp [hne, overwrite]

/-- Where the type 2 branch has the MCS itself, the others have it with one added before the product
and taken away after it. -/
theorem getUsageMcs_overwrite {ra : RaIndicator} {mcs : Int} (hmcs : 0 ≤ mcs) {nrb : Nat}
    {row : List Int} (hrow : row.length = 2 + 2 * nrb) (isDown : Bool) :
    getUsageMcs ra mcs isDown row =
      (effect ra nrb).apply (overwrite (stored ra.raType (mcs + 1) - 1) id) nrb isDown row := by
  have hne : stored ra.raType (mcs + 1) - 1 ≠ -1 := by
    have := @one_le_stored ra.raType (mcs + 1) (by omega)
    omega
  rw [getUsageMcs_eq hrow]
  congr 1
  funext b x
  simp only [timesBit_eq, toInt_beq, toInt_bne]
  cases b with
  | false => simp [overwrite]
  | true =>
    by_cases h2 : ra.raType = 2
    · have : mcs ≠ -1 := by omega
      simp [h2, this, stored, overwrite]
    · simp [h2, hne, overwrite]

/-- One effect for the three decoders, whatever the direction, the RNTI, the MCS and the rows. Only
`get_usage` makes flags of what it keeps. -/
theorem usage_decoders_agree (ra : RaIndicator) (nrb : Nat) :
    ∃ e : Effect, ∀ (isDown : Bool) (rnti mcs : Int), 1 ≤ rnti → 0 ≤ mcs →
      (∀ row : List Int, row.length = 1 + 2 * nrb →
        getUsage ra isDown row = e.apply (overwrite 1 (orFlag 0)) nrb isDown row) ∧
      (∀ row : List Int, row.length = 2 + 2 * nrb →
        getUsage2 ra rnti isDown row =
          e.apply (overwrite (stored ra.raType rnti) id) nrb isDown row ∧
        getUsageMcs ra mcs isDown row =
          e.apply (overwrite (stored ra.raType (mcs + 1) - 1) id) nrb isDown row) := by
  refine ⟨effect ra nrb, ?_⟩
  intro isDown rnti mcs hrnti hmcs
  constructor
  · intro row hrow
    exact getUsage_overwrite hrow isDown
  · intro row hrow
    exact ⟨getUsage2_overwrite hrnti hrow isDown, getUsageMcs_overwrite hmcs hrow isDown⟩

/-- Two of three PRBs, for RNTI 61 and MCS 28. -/
theorem usage_decoders_agree_two : ∃ e : Effect,
    e.apply (overwrite 1 (orFlag 0)) 3 true [7, 1, 0, 0, 0, 1, 0] =
      some ⟨[7, 1, 1, 1, 0, 1, 0], none⟩ ∧
    e.apply (overwrite 61 id) 3 true [7, 62, 0, 4, 0, 4, 0, 9] =
      some ⟨[7, 62, 61, 61, 0, 4, 0, 9], none⟩ ∧
    e.apply (overwrite 28 id) 3 true [7, 3, -1, -1, -1, 5, -1, 9] =
      some ⟨[7, 3, 28, 28, -1, 5, -1, 9], none⟩ := by
  obtain ⟨e, he⟩ := usage_decoders_agree ⟨2, 1, 2, 0⟩ 3
  obtain ⟨hflags, hmarks⟩ := he true 61 28 (by decide) (by decide)
  refine ⟨e, (hflags _ rfl).symm.trans (by decide), (hmarks _ rfl).1.symm.trans (by decide), ?_⟩
  exact (hmarks _ rfl).2.symm.trans (by decide)

/-- An indication of no PRB, on a row that is not one of flags, and a product that saturates. -/
theorem usage_decoders_differ :
    getUsage ⟨2, 0, 0, 0⟩ true [0, 5, 0] = some ⟨[0, 1, 0], none⟩ ∧
    getUsage2 ⟨2, 0, 0, 0⟩ 61 true [0, 5, 0, 0] = some ⟨[0, 5, 0, 0], none⟩ ∧
    getUsage2 ⟨0, 1, 0, 0⟩ (2 ^ 32) true [0, 0, 0, 0] = some ⟨[0, 2 ^ 32 - 1, 0, 0], none⟩ := by
  decide

end Srsenb.Trace
