import Mathlib.Tactic.Common

/-! # PUCCH resources of the RRC (`upper/rrc.cc`, SR and CQI)

A slot is a PRB index and a subframe index. The RRC keeps the number of users of each slot, and a
UE remembers the slot it was given. -/

namespace Srsenb.Pucch

/-- `rrc_cfg_sr_t` or `rrc_cfg_cqi_t`. -/
structure SlotCfg where
  period : Nat
  nofPrb : Nat
  nofSubframes : Nat
  sfMapping : Nat → Nat

/-- The cell's cyclic prefix and the common PUCCH configuration of SIB2. -/
structure CommonCfg where
  cpIsNorm : Bool
  deltaPucchShift : Nat
  nCsAn : Nat

/-- `nof_users` of `sr_sched_t`. -/
abbrev NofUsers := Nat → Nat → Nat

/-- The table with the entry of slot `(i, j)` replaced. -/
def NofUsers.set (t : NofUsers) (i j n : Nat) : NofUsers :=
  fun a b => if a = i ∧ b = j then n else t a b

/-- The fields a UE keeps for one kind of resource, as `sr_allocated`, `sr_sched_prb_idx`,
`sr_sched_sf_idx`, `sr_I` and `sr_N_pucch`. -/
structure Alloc where
  allocated : Bool
  prbIdx : Nat
  sfIdx : Nat
  cfgIdx : Nat
  nPucch : Nat
  deriving DecidableEq, Repr

/-- The fields of a new UE. -/
def Alloc.none : Alloc := ⟨false, 0, 0, 0, 0⟩

def maxUsers (c : CommonCfg) : Nat :=
  let c' := if c.cpIsNorm then 3 else 2
  12 * c' / c.deltaPucchShift

/-! ## Allocation -/

/-- The variables of the search: `i_min`, `j_min` and `min_users`. -/
structure Least where
  iMin : Nat
  jMin : Nat
  minUsers : Nat

/-- One round of the search. -/
def Least.visit (t : NofUsers) (i : Nat) (b : Least) (j : Nat) : Least :=
  if t i j < b.minUsers then ⟨i, j, t i j⟩ else b

/-- The first slot with the least number of users. -/
def leastUsed (cfg : SlotCfg) (t : NofUsers) : Nat × Nat :=
  let b := (List.range cfg.nofPrb).foldl
    (fun b i => (List.range cfg.nofSubframes).foldl (Least.visit t i) b) ⟨0, 0, 1000000⟩
  (b.iMin, b.jMin)

/-- The part that SR and CQI share; `index` computes the configuration index from the period and
the subframe, and fails for a period or a subframe that it does not know. -/
def allocate (index : Nat → Nat → Option Nat) (c : CommonCfg) (cfg : SlotCfg) (t : NofUsers) :
    Option (NofUsers × Alloc) :=
  let (i, j) := leastUsed cfg t
  if t i j > maxUsers c then none
  else
    match index cfg.period (cfg.sfMapping j) with
    | none => none
    | some idx =>
      let nPucch := i * maxUsers c + t i j
      let nPucch := if c.nCsAn ≠ 0 then nPucch + c.nCsAn else nPucch
      some (t.set i j (t i j + 1), ⟨true, i, j, idx, nPucch⟩)

/-- `I_sr`. -/
def srIndex (period sf : Nat) : Option Nat :=
  if period ≠ 5 ∧ period ≠ 10 ∧ period ≠ 20 ∧ period ≠ 40 ∧ period ≠ 80 then none
  else if sf < period then some (period - 5 + sf) else none

/-- `pmi_idx`. -/
def cqiIndex (period sf : Nat) : Option Nat :=
  if period ≠ 2 ∧ period ≠ 5 ∧ period ≠ 10 ∧ period ≠ 20 ∧ period ≠ 40 ∧ period ≠ 80 ∧
      period ≠ 160 ∧ period ≠ 32 ∧ period ≠ 64 ∧ period ≠ 128 then none
  else if sf < period then
    if period ≠ 32 ∧ period ≠ 64 ∧ period ≠ 128 then
      if period > 2 then some (period - 3 + sf) else some sf
    else if period = 32 then some (318 + sf)
    else if period = 64 then some (350 + sf)
    else some (414 + sf)
  else none

def srAllocate : CommonCfg → SlotCfg → NofUsers → Option (NofUsers × Alloc) := allocate srIndex

def cqiAllocate : CommonCfg → SlotCfg → NofUsers → Option (NofUsers × Alloc) := allocate cqiIndex

/-! ## Release -/

/-- `sr_free` and `cqi_free`: the UE's own fields stay as they are. -/
def free (t : NofUsers) (a : Alloc) : NofUsers :=
  if a.allocated then
    if t a.prbIdx a.sfIdx > 0 then t.set a.prbIdx a.sfIdx (t a.prbIdx a.sfIdx - 1) else t
  else t

def srFree : NofUsers → Alloc → NofUsers := free

def cqiFree : NofUsers → Alloc → NofUsers := free

/-! ## What an allocation gives -/

/-- The least used slot takes one more user, and its subframe fits the period. -/
def Available (index : Nat → Nat → Option Nat) (c : CommonCfg) (cfg : SlotCfg) (t : NofUsers) :
    Prop :=
  t (leastUsed cfg t).1 (leastUsed cfg t).2 ≤ maxUsers c ∧
    index cfg.period (cfg.sfMapping (leastUsed cfg t).2) ≠ none

instance (index : Nat → Nat → Option Nat) (c : CommonCfg) (cfg : SlotCfg) (t : NofUsers) :
    Decidable (Available index c cfg t) :=
  inferInstanceAs (Decidable (_ ∧ _))

variable {index : Nat → Nat → Option Nat} {c : CommonCfg} {cfg : SlotCfg} {t t' : NofUsers}
  {a : Alloc}

theorem ite_add (n k : Nat) : (if k ≠ 0 then n + k else n) = n + k := by
  split_ifs <;> omega

theorem allocate_spec (h : allocate index c cfg t = some (t', a)) :
    ∃ i j, leastUsed cfg t = (i, j) ∧ t i j ≤ maxUsers c ∧ t' = t.set i j (t i j + 1) ∧
      a.allocated = true ∧ a.prbIdx = i ∧ a.sfIdx = j ∧
      index cfg.period (cfg.sfMapping j) = some a.cfgIdx ∧
      a.nPucch = i * maxUsers c + t i j + c.nCsAn := by
  obtain ⟨⟨i, j⟩, hl⟩ : ∃ p, leastUsed cfg t = p := ⟨_, rfl⟩
  simp only [allocate, hl, ite_add] at h
  split_ifs at h with hfull
  split at h
  · cases h
  · rename_i idx hidx
    simp only [Option.some.injEq, Prod.mk.injEq] at h
    obtain ⟨rfl, rfl⟩ := h
    exact ⟨i, j, hl, by omega, rfl, rfl, rfl, rfl, hidx, rfl⟩

theorem allocate_isSome : (allocate index c cfg t).isSome ↔ Available index c cfg t := by
  obtain ⟨⟨i, j⟩, hl⟩ : ∃ p, leastUsed cfg t = p := ⟨_, rfl⟩
  simp only [allocate, Available, hl, ite_add]
  split_ifs with hfull
  · simp only [Option.isSome_none, Bool.false_eq_true, false_iff]
    omega
  · cases hidx : index cfg.period (cfg.sfMapping j) with
    | none => simp
    | some idx =>
      simp only [Option.isSome_some, true_iff, ne_eq, reduceCtorEq, not_false_eq_true, and_true]
      omega

end Srsenb.Pucch
