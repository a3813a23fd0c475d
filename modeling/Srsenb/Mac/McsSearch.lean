import Mathlib.Data.Rat.Cast.Order
import Srsenb.Base.While
import Srsenb.Mac.SchedUe

/-! # The search for an MCS (`sched_ue::cqi_to_tbs`)

It goes down from the largest MCS. Only one of its two tests stops at 0. -/

namespace Srsenb.Mac

/-- The tables of srsLTE, with exact code rates. -/
structure RateTables where
  lib : Lib
  /-- `srslte_cqi_to_coderate` -/
  cqiToCoderate : Nat → ℚ
  /-- `srslte_coderate`, of the TBS and the resource elements. -/
  coderate : Int → Nat → ℚ
  /-- `srslte_mod_bits_x_symbol` of `srslte_ra_mod_from_mcs`. -/
  modBits : Int → Nat
  modBits_pos : ∀ mcs, 0 < modBits mcs

/-- The parameters of `cqi_to_tbs`. -/
structure McsCall where
  cqi : Nat
  nofPrb : Nat
  nofRe : Nat
  maxMcs : Nat
  maxQm : Nat

namespace RateTables

variable (t : RateTables) (c : McsCall)

def tbs (mcs : Int) : Int := t.lib.tbsFromIdx (t.lib.tbsIdxFromMcs mcs) c.nofPrb

def effCoderate (mcs : Int) : ℚ :=
  t.coderate (t.tbs c mcs) c.nofRe / (min c.maxQm (t.modBits mcs) : Nat)

/-- The condition of the loop, after the round of `selMcs`. -/
def again (selMcs : Int) : Bool :=
  (decide (0 < selMcs) && decide (t.coderate (t.tbs c selMcs) c.nofRe > t.cqiToCoderate c.cqi)) ||
    decide (t.effCoderate c selMcs > 93 / 100)

/-- One round, with the TBS and the MCS at the end. A decrement of the least `int` overflows. -/
def mcsRound (selMcs : Int) : Exit Int (Int × Int) :=
  if selMcs = -2 ^ 31 then .fail
  else if t.again c (selMcs - 1) then .next (selMcs - 1)
  else .done (t.tbs c (selMcs - 1), selMcs - 1)

/-- `sel_mcs` before the loop: the sum is unsigned. -/
def startMcs : Int := i32 (u32 (c.maxMcs + 1))

/-- The TBS and `*mcs`, of a search that ended. -/
def found : Exit Int (Int × Int) → Int × Nat
  | .done (tbs, selMcs) => (tbs, toU32 selMcs)
  | _ => (0, 0)

/-- More rounds than there are values of an `int`. -/
@[irreducible] def maxRounds : Nat := 2 ^ 32

/-- `cqi_to_tbs` -/
def cqiToTbs (cqi nofPrb nofRe maxMcs maxQm : Nat) : Int × Nat :=
  let c : McsCall := ⟨cqi, nofPrb, nofRe, maxMcs, maxQm⟩
  found (While.run (t.mcsRound c) maxRounds (startMcs c))

theorem cqiToTbs_eq : t.cqiToTbs c.cqi c.nofPrb c.nofRe c.maxMcs c.maxQm =
    found (While.run (t.mcsRound c) maxRounds (startMcs c)) := rfl

/-- srsLTE with this search. -/
def toLib : Lib := { t.lib with cqiToTbs := t.cqiToTbs }

theorem toLib_cqiToTbs : t.toLib.cqiToTbs = t.cqiToTbs := rfl

/-! ## Where the search ends -/

/-- The search can end at `mcs`. At 0 only the effective code rate counts. -/
def Accepts (mcs : Nat) : Prop :=
  t.effCoderate c mcs ≤ 93 / 100 ∧
    (mcs = 0 ∨ t.coderate (t.tbs c mcs) c.nofRe ≤ t.cqiToCoderate c.cqi)

theorem accepts_iff (mcs : Nat) : t.Accepts c mcs ↔ t.again c mcs = false := by
  simp only [Accepts, again, gt_iff_lt, Bool.or_eq_false_iff, Bool.and_eq_false_iff,
    decide_eq_false_iff_not, not_lt, Int.natCast_nonpos_iff]
  exact And.comm

theorem mcsRound_of_lt {selMcs : Int} (h : -2 ^ 31 < selMcs) :
    t.mcsRound c selMcs =
      if t.again c (selMcs - 1) then .next (selMcs - 1)
      else .done (t.tbs c (selMcs - 1), selMcs - 1) :=
  if_neg (by omega)

/-- If an MCS below `n` is accepted, the search from `n` ends at the first one it comes to. -/
theorem search {n : Nat} (h : ∃ m < n, t.Accepts c m) :
    ∃ m < n, t.Accepts c m ∧ While.run (t.mcsRound c) n n = .done (t.tbs c m, (m : Int)) := by
  induction n with
  | zero =>
    obtain ⟨m, hm, -⟩ := h
    exact absurd hm (Nat.not_lt_zero m)
  | succ n ih =>
    have hround := t.mcsRound_of_lt c (show -2 ^ 31 < ((n + 1 : Nat) : Int) by omega)
    rw [show ((n + 1 : Nat) : Int) - 1 = n by omega] at hround
    cases hagain : t.again c n with
    | false =>
      rw [hagain] at hround
      exact ⟨n, Nat.lt_succ_self n, (t.accepts_iff c n).2 hagain, While.run_succ_of_done hround n⟩
    | true =>
      rw [hagain] at hround
      have hrest : ∃ m < n, t.Accepts c m := by
        obtain ⟨m, hm, hacc⟩ := h
        refine ⟨m, ?_, hacc⟩
        rcases Nat.lt_succ_iff_lt_or_eq.1 hm with hlt | rfl
        · exact hlt
        · rw [accepts_iff, hagain] at hacc
          cases hacc
      obtain ⟨m, hm, hacc, hrun⟩ := ih hrest
      exact ⟨m, by omega, hacc, by rw [While.run_succ_of_next hround, hrun]⟩

/-- If no MCS below the start is accepted, the search ends below 0, if at all. -/
theorem neg_of_ends {start : Int} (h : ∀ m : Nat, m < start → ¬ t.Accepts c m) {out : Int × Int}
    (hends : While.Ends (t.mcsRound c) start out) : out.2 < 0 := by
  refine While.of_ends (P := fun s => s ≤ start) (fun out => out.2 < 0) ?_ ?_ le_rfl hends
  · intro s s' hs hr
    unfold mcsRound at hr
    split_ifs at hr
    obtain rfl := Exit.next.inj hr
    omega
  · intro s r hs hr
    unfold mcsRound at hr
    split_ifs at hr with hmin hagain
    obtain rfl := Exit.done.inj hr
    by_contra hpos
    obtain ⟨m, hm⟩ := Int.eq_ofNat_of_zero_le (not_lt.1 hpos)
    simp only at hm
    rw [hm] at hagain
    exact h m (by omega) ((t.accepts_iff c m).2 (by simpa using hagain))

end RateTables

/-! ## The callers -/

namespace SchedUe

variable (u : SchedUe)

/-- The call of `cqi_to_tbs` in `alloc_tbs`. -/
def mcsCall (nofPrb nofRe : Nat) (isUl : Bool) : McsCall where
  cqi := if isUl then u.ulCqi else u.dlCqi
  nofPrb := nofPrb
  nofRe := nofRe
  maxMcs := if isUl then u.maxMcsUl else u.maxMcsDl
  maxQm := if isUl then 4 else 6

theorem allocTbs_mcs_nonneg (lib : Lib) (nofPrb nofRe reqBytes : Nat) (isUl : Bool)
    (h : (lib.cqiToTbs (if isUl then u.ulCqi else u.dlCqi) nofPrb nofRe
      (if isUl then u.maxMcsUl else u.maxMcsDl) (if isUl then 4 else 6)).2 < 2 ^ 31) :
    0 ≤ (u.allocTbs lib nofPrb nofRe reqBytes isUl).2 := by
  have hcast : ∀ n : Nat, n < 2 ^ 31 → 0 ≤ i32 n := by
    intro n hn
    rw [i32_of_range (by omega) (by omega)]
    omega
  obtain ⟨out, hout⟩ : ∃ out, lib.cqiToTbs (if isUl then u.ulCqi else u.dlCqi) nofPrb nofRe
      (if isUl then u.maxMcsUl else u.maxMcsDl) (if isUl then 4 else 6) = out := ⟨_, rfl⟩
  rw [hout] at h
  simp only [allocTbs, hout]
  split_ifs <;> first | omega | exact hcast _ (by omega)

end SchedUe

namespace RateTables

variable (t : RateTables) (u : SchedUe) (nofPrb nofRe : Nat) (isUl : Bool)

/-- The search ends at an MCS from 0 to the largest one, with its TBS, and no caller has a negative
MCS from it. -/
structure McsRight : Prop where
  search : ∃ mcs : Int, 0 ≤ mcs ∧ mcs ≤ (u.mcsCall nofPrb nofRe isUl).maxMcs ∧
    While.Ends (t.mcsRound (u.mcsCall nofPrb nofRe isUl)) (startMcs (u.mcsCall nofPrb nofRe isUl))
      (t.tbs (u.mcsCall nofPrb nofRe isUl) mcs, mcs)
  allocTbs : ∀ reqBytes, 0 ≤ (u.allocTbs t.toLib nofPrb nofRe reqBytes isUl).2
  format1 : ∀ (h : DlHarqProc) (tti cfi : Nat), isUl = false →
    nofPrb = SchedUe.format1CountPrb t.toLib h.rbgmask u.cell.nofPrb →
    nofRe = t.toLib.raDlGrantNofRe u.cell h.rbgmask (tti % 10)
      (cfi + if u.cell.nofPrb < 10 then 1 else 0) →
    0 ≤ (u.format1Tbs t.toLib h tti cfi).2
  format0 : ∀ (h : UlHarqProc) (tti : Nat), isUl = true → nofPrb = h.allocation.L →
    nofRe = u.ulNofRe h.allocation.L → h.getRarMcs = none → h.isEmpty 0 = true →
    0 ≤ (u.format0Proc t.toLib h tti).2.2.1

/-- Some MCS that the search comes to is accepted. The largest `int` is not: the sum with 1
overflows. -/
def Accepted : Prop :=
  u32 ((u.mcsCall nofPrb nofRe isUl).maxMcs + 1) < 2 ^ 31 ∧
    ∃ m < u32 ((u.mcsCall nofPrb nofRe isUl).maxMcs + 1), t.Accepts (u.mcsCall nofPrb nofRe isUl) m

variable {t u nofPrb nofRe isUl}

theorem start_of_lt {c : McsCall} (h : u32 (c.maxMcs + 1) < 2 ^ 31) :
    startMcs c = u32 (c.maxMcs + 1) := i32_of_range (by omega) (by omega)

/-- Where the search ends soon enough, `cqi_to_tbs` returns what it found. -/
theorem cqiToTbs_of_run {c : McsCall} {n mcs : Nat} {tbs : Int}
    (hrun : While.run (t.mcsRound c) n (startMcs c) = .done (tbs, (mcs : Int)))
    (hn : n ≤ 2 ^ 32) (hmcs : mcs < 2 ^ 32) :
    t.cqiToTbs c.cqi c.nofPrb c.nofRe c.maxMcs c.maxQm = (tbs, mcs) := by
  have hle : n ≤ maxRounds := by
    unfold maxRounds
    exact hn
  have hu32 : toU32 mcs = mcs := by
    unfold toU32
    omega
  rw [cqiToTbs_eq, While.run_of_le hrun hle, found, hu32]

theorem Accepted.right (h : t.Accepted u nofPrb nofRe isUl) :
    t.McsRight u nofPrb nofRe isUl := by
  obtain ⟨hstart, hacc⟩ := h
  obtain ⟨m, hm, -, hrun⟩ := t.search _ hacc
  have hmax : m ≤ (u.mcsCall nofPrb nofRe isUl).maxMcs := by
    have := Nat.mod_le ((u.mcsCall nofPrb nofRe isUl).maxMcs + 1) (2 ^ 32)
    unfold u32 at hm
    omega
  rw [← start_of_lt hstart] at hrun
  have hout := t.cqiToTbs_of_run hrun (by omega) (by omega)
  simp only [SchedUe.mcsCall] at hout
  have halloc : ∀ reqBytes, 0 ≤ (u.allocTbs t.toLib nofPrb nofRe reqBytes isUl).2 := by
    intro reqBytes
    apply u.allocTbs_mcs_nonneg
    rw [toLib_cqiToTbs, hout]
    exact lt_of_lt_of_le hm hstart.le
  refine ⟨⟨m, by omega, by omega, _, hrun⟩, halloc, ?_, ?_⟩
  · rintro h tti cfi rfl rfl rfl
    simp only [SchedUe.format1Tbs, SchedUe.dlTbs]
    by_cases hfirst : u.isFirstDlTx ∧ u.cell.nofPrb < 10
    · rw [if_pos hfirst]
      exact Int.natCast_nonneg 4
    rw [if_neg hfirst]
    by_cases hfixed : u.fixedMcsDl < 0
    · rw [if_pos hfixed]
      exact halloc _
    · rw [if_neg hfixed]
      exact not_lt.1 hfixed
  · rintro h tti rfl rfl rfl hrar hempty
    simp only [SchedUe.format0Proc, SchedUe.ulTbs, hrar, hempty, if_true]
    by_cases hfixed : u.fixedMcsUl < 0
    · rw [if_pos hfixed]
      exact halloc _
    · rw [if_neg hfixed]
      exact not_lt.1 hfixed

theorem McsRight.accepted (h : t.McsRight u nofPrb nofRe isUl) :
    t.Accepted u nofPrb nofRe isUl := by
  obtain ⟨mcs, hge, -, hends⟩ := h.search
  have hbound : u32 ((u.mcsCall nofPrb nofRe isUl).maxMcs + 1) < 2 ^ 32 :=
    Nat.mod_lt _ (by decide)
  by_contra hnot
  refine absurd hge (not_le.2 (t.neg_of_ends _ (fun m hm hacc => hnot ?_) hends))
  unfold startMcs i32 at hm
  exact ⟨by omega, m, by omega, hacc⟩

end RateTables

/-- `eff_coderate > 0.930` is not guarded by `sel_mcs > 0`: the search is right if and only if some
MCS from 0 up has no such effective code rate, and no such code rate either unless it is 0. -/
theorem mcsRight_iff (t : RateTables) (u : SchedUe) (nofPrb nofRe : Nat) (isUl : Bool) :
    t.McsRight u nofPrb nofRe isUl ↔ t.Accepted u nofPrb nofRe isUl :=
  ⟨RateTables.McsRight.accepted, RateTables.Accepted.right⟩

/-- The TBS of one PRB, by index. -/
def tbsOnePrb : List Int :=
  [16, 24, 32, 40, 56, 72, 328, 104, 120, 136, 144, 176, 208, 224, 256, 280, 328, 336, 376, 408,
    440, 488, 520, 552, 584, 616, 712]

/-- srsLTE for one PRB, with the code rate of CQI 1. -/
def onePrbTables : RateTables where
  lib := { exampleLib with
    tbsFromIdx := fun idx _ => tbsOnePrb.getD idx.toNat (-1)
    tbsIdxFromMcs := fun mcs =>
      if mcs < 10 then mcs else if mcs < 17 then mcs - 1 else mcs - 2 }
  cqiToCoderate _ := 78 / 1024
  coderate tbs nofRe := tbs / nofRe
  modBits mcs := if mcs < 10 then 2 else if mcs < 17 then 4 else 6
  modBits_pos mcs := by split_ifs <;> decide

/-- A user in a cell of six PRBs. -/
def newUser : SchedUe where
  rnti := 70
  cell := ⟨6, 1, 7⟩
  P := 1
  dciLocations _ _ := ⟨fun _ _ => 0, fun _ => 0⟩
  dlHarq _ := {}
  ulHarq _ := {}

/-- Of 8 resource elements MCS 0 has 16 bits, by QPSK. -/
theorem onePrb_eight_not_right :
    ¬ ∀ (t : RateTables) (u : SchedUe) (nofPrb nofRe : Nat) (isUl : Bool),
      t.McsRight u nofPrb nofRe isUl := by
  intro h
  obtain ⟨-, m, hm, hacc⟩ := (h onePrbTables newUser 1 8 false).accepted
  have hagain : ∀ m < 29, onePrbTables.again (newUser.mcsCall 1 8 false) (m : Nat) = true := by
    decide +kernel
  rw [RateTables.accepts_iff, hagain m hm] at hacc
  cases hacc

end Srsenb.Mac
