import Mathlib.Algebra.Order.Ring.Int
import Mathlib.Tactic.Common
import Mathlib.Data.Fin.Basic

/-! # MBSFN subframes (`phy/phch_common.cc`)

Periods and offsets are held in `uint8_t` variables. A remainder by zero or an index past the end of
a table is a fault. -/

namespace Srsenb.Phy

namespace Mbsfn

/-! ## Configuration -/

/-- `LIBLTE_RRC_SUBFRAME_ALLOCATION_NUM_FRAMES_ENUM` -/
inductive NumFrames
  | one
  | four
  deriving DecidableEq, Repr

def NumFrames.num : NumFrames → Nat
  | one => 1
  | four => 4

/-- `LIBLTE_RRC_RADIO_FRAME_ALLOCATION_PERIOD_ENUM` -/
inductive AllocPeriod
  | n1
  | n2
  | n4
  | n8
  | n16
  | n32
  deriving DecidableEq, Repr

/-- `liblte_rrc_radio_frame_allocation_period_num` -/
def AllocPeriod.num : AllocPeriod → Nat
  | n1 => 1
  | n2 => 2
  | n4 => 4
  | n8 => 8
  | n16 => 16
  | n32 => 32

/-- `LIBLTE_RRC_MCCH_REPETITION_PERIOD_R9_ENUM` -/
inductive McchPeriod
  | rf32
  | rf64
  | rf128
  | rf256
  deriving DecidableEq, Repr

/-- `liblte_rrc_mcch_repetition_period_r9_num` -/
def McchPeriod.num : McchPeriod → Nat
  | rf32 => 32
  | rf64 => 64
  | rf128 => 128
  | rf256 => 256

/-- `LIBLTE_RRC_MBSFN_COMMON_SF_ALLOC_PERIOD_R9_ENUM` -/
inductive CommonSfPeriod
  | rf4
  | rf8
  | rf16
  | rf32
  | rf64
  | rf128
  | rf256
  deriving DecidableEq, Repr

/-- `liblte_rrc_mbsfn_common_sf_alloc_period_r9_num` -/
def CommonSfPeriod.num : CommonSfPeriod → Nat
  | rf4 => 4
  | rf8 => 8
  | rf16 => 16
  | rf32 => 32
  | rf64 => 64
  | rf128 => 128
  | rf256 => 256

/-- `phy_cfg_mbsfn_t`: the subframe configuration, the area and the MCCH message. -/
structure Cfg where
  subfrAlloc : Nat
  subfrAllocNumFrames : NumFrames
  radioFrAllocOffset : Fin 256
  radioFrAllocPeriod : AllocPeriod
  sfAllocInfo : Nat
  mcchOffset : Fin 256
  mcchRepetitionPeriod : McchPeriod
  mbsfnAreaId : Nat
  nonMbsfnRegionLength : Nat
  signallingMcs : Nat
  /-- `datamcs_r9` of each PMCH -/
  pmchInfolist : List Nat
  commonsfAllocperiod : CommonSfPeriod

/-- `gen_mch_tables.h`; row `r` of the pattern is elements `10 * r` to `10 * r + 9`. -/
structure TableLib where
  generateMchTable : Nat → Nat → Fin 40 → Nat
  generateMcchTable : Nat → Fin 10 → Nat

/-- What `phch_common` keeps of it. -/
structure Common where
  mbsfn : Cfg
  sib13Configured : Bool
  mcchConfigured : Bool
  mchTable : Fin 40 → Nat
  mcchTable : Fin 10 → Nat

/-- `configure_mbsfn`, with `build_mch_table` and `build_mcch_table`. -/
def configureMbsfn (lib : TableLib) (cfg : Cfg) : Common where
  mbsfn := cfg
  sib13Configured := true
  mcchConfigured := true
  mchTable := lib.generateMchTable cfg.subfrAlloc (if cfg.subfrAllocNumFrames = .one then 1 else 4)
  mcchTable := lib.generateMcchTable cfg.sfAllocInfo

/-! ## Classification -/

inductive SfType
  | regular
  | mbsfn
  deriving DecidableEq, Repr

/-- `subframe_cfg_t` -/
structure SubframeCfg where
  sfType : SfType := .regular
  mbsfnAreaId : Nat := 0
  nonMbsfnRegionLength : Nat := 0
  mbsfnMcs : Nat := 0
  mbsfnEncode : Bool := false
  isMcch : Bool := false
  deriving DecidableEq, Repr

inductive Fault
  | remainderByZero
  | index
  deriving DecidableEq, Repr

def u8 (n : Nat) : Nat := n % 2 ^ 8

def rem (a b : Nat) : Except Fault Nat := if b = 0 then .error .remainderByZero else .ok (a % b)

def read {n : Nat} (table : Fin n → Nat) (i : Nat) : Except Fault Nat :=
  if h : i < n then .ok (table ⟨i, h⟩) else .error .index

variable (c : Common) (cfg : SubframeCfg) (tti : Nat)

def isMcchSubframe : Except Fault (Bool × SubframeCfg) := do
  let sfn := tti / 10
  let sf := tti % 10
  if c.sib13Configured then
    let offset := c.mbsfn.mcchOffset.val
    let period := u8 c.mbsfn.mcchRepetitionPeriod.num
    if (← rem sfn period) = offset then
      if (← read c.mcchTable sf) > 0 then
        return (true,
          { cfg with
            mbsfnAreaId := c.mbsfn.mbsfnAreaId
            nonMbsfnRegionLength := c.mbsfn.nonMbsfnRegionLength
            mbsfnMcs := c.mbsfn.signallingMcs
            mbsfnEncode := true
            isMcch := true })
  return (false, cfg)

/-- The configuration of an MCH subframe of a pattern of one frame: the last PMCH sets the MCS. -/
def mchCfg : Except Fault SubframeCfg := do
  if c.sib13Configured then
    let cfg := { cfg with
      mbsfnAreaId := c.mbsfn.mbsfnAreaId
      nonMbsfnRegionLength := c.mbsfn.nonMbsfnRegionLength }
    if c.mcchConfigured then
      let _sfAllocIdx ← rem (tti / 10) c.mbsfn.commonsfAllocperiod.num
      return c.mbsfn.pmchInfolist.foldl
        (fun cfg mcs => { cfg with mbsfnMcs := mcs, mbsfnEncode := true }) cfg
    return cfg
  return cfg

def isMchSubframe : Except Fault (Bool × SubframeCfg) := do
  let sfn := tti / 10
  let sf := tti % 10
  let cfg := { cfg with
    mbsfnAreaId := 0, nonMbsfnRegionLength := 1, mbsfnMcs := 2, mbsfnEncode := false,
    isMcch := false }
  let (mcch, cfg) ← isMcchSubframe c cfg tti
  if mcch then return (true, cfg)
  let offset := c.mbsfn.radioFrAllocOffset.val
  let period := u8 c.mbsfn.radioFrAllocPeriod.num
  match c.mbsfn.subfrAllocNumFrames with
  | .one =>
    if (← rem sfn period) = offset then
      if (← read c.mchTable sf) > 0 then return (true, ← mchCfg c cfg tti)
  | .four =>
    let idx := u8 (← rem sfn period)
    if idx ≥ offset ∧ idx < offset + 4 then
      if (← read c.mchTable (idx * 10 + sf)) > 0 then
        if c.sib13Configured then
          return (true,
            { cfg with
              mbsfnAreaId := c.mbsfn.mbsfnAreaId
              nonMbsfnRegionLength := c.mbsfn.nonMbsfnRegionLength })
        return (true, cfg)
  return (false, cfg)

def getSfConfig : Except Fault SubframeCfg := do
  let (mch, cfg) ← isMchSubframe c cfg tti
  return { cfg with sfType := if mch then .mbsfn else .regular }

/-! ## What it should be -/

/-- The bit of a subframe in the MCCH table. -/
def McchBit (sf : Nat) : Prop := ∃ h : sf < 10, 0 < c.mcchTable ⟨sf, h⟩

/-- The bit of a subframe in a row of the allocation pattern. -/
def PatternBit (row sf : Nat) : Prop := ∃ h : 10 * row + sf < 40, 0 < c.mchTable ⟨10 * row + sf, h⟩

/-- An MCCH subframe: its frame repeats at the offset, and its bit is set. -/
def IsMcch : Prop :=
  tti / 10 % c.mbsfn.mcchRepetitionPeriod.num = c.mbsfn.mcchOffset ∧ McchBit c (tti % 10)

/-- An MCH subframe: its frame is in the allocation, and the row of the frame has its bit set. -/
def IsMch : Prop :=
  ∃ row < c.mbsfn.subfrAllocNumFrames.num,
    tti / 10 % c.mbsfn.radioFrAllocPeriod.num = c.mbsfn.radioFrAllocOffset + row ∧
      PatternBit c row (tti % 10)

/-- No fault, and a subframe is MBSFN if it is one for MCCH or for MCH. -/
def Classified : Prop :=
  ∃ sc, getSfConfig c cfg tti = .ok sc ∧ (sc.sfType = .mbsfn ↔ IsMcch c tti ∨ IsMch c tti)

/-- The period of MCCH fits its variable, and a pattern of four frames is read at a row of its own
that agrees with the right one. -/
structure ReadsRight : Prop where
  period : c.mbsfn.mcchRepetitionPeriod ≠ .rf256
  row : c.mbsfn.subfrAllocNumFrames = .four → ¬IsMcch c tti → ∀ row < 4,
    tti / 10 % c.mbsfn.radioFrAllocPeriod.num = c.mbsfn.radioFrAllocOffset + row →
      c.mbsfn.radioFrAllocOffset + row < 4 ∧
        (PatternBit c (c.mbsfn.radioFrAllocOffset + row) (tti % 10) ↔ PatternBit c row (tti % 10))

instance (sf : Nat) : Decidable (McchBit c sf) := inferInstanceAs (Decidable (∃ _, _))

instance (row sf : Nat) : Decidable (PatternBit c row sf) := inferInstanceAs (Decidable (∃ _, _))

instance : Decidable (IsMcch c tti) := inferInstanceAs (Decidable (_ ∧ _))

variable {c cfg tti}

theorem mcchPeriod_u8 (h : c.mbsfn.mcchRepetitionPeriod ≠ .rf256) :
    u8 c.mbsfn.mcchRepetitionPeriod.num = c.mbsfn.mcchRepetitionPeriod.num ∧
      c.mbsfn.mcchRepetitionPeriod.num ≠ 0 := by
  cases hp : c.mbsfn.mcchRepetitionPeriod with
  | rf256 => exact absurd hp h
  | _ => decide

theorem AllocPeriod.num_bounds (p : AllocPeriod) : 0 < p.num ∧ p.num ≤ 32 := by
  cases p <;> decide

theorem AllocPeriod.u8_num (p : AllocPeriod) : u8 p.num = p.num :=
  Nat.mod_eq_of_lt (p.num_bounds.2.trans_lt (by decide))

theorem CommonSfPeriod.num_ne_zero (p : CommonSfPeriod) : p.num ≠ 0 := by
  cases p <;> decide

theorem read_mcch {sf : Nat} (h : sf < 10) :
    ∃ x, read c.mcchTable sf = .ok x ∧ (0 < x ↔ McchBit c sf) :=
  ⟨_, dif_pos h, fun hx => ⟨h, hx⟩, fun ⟨_, hx⟩ => hx⟩

theorem read_mch {row sf : Nat} (h : 10 * row + sf < 40) :
    ∃ x, read c.mchTable (10 * row + sf) = .ok x ∧ (0 < x ↔ PatternBit c row sf) :=
  ⟨_, dif_pos h, fun hx => ⟨h, hx⟩, fun ⟨_, hx⟩ => hx⟩

theorem isMcchSubframe_fault (hc : c.sib13Configured = true)
    (h : c.mbsfn.mcchRepetitionPeriod = .rf256) :
    isMcchSubframe c cfg tti = .error .remainderByZero := by
  have hzero : rem (tti / 10) (u8 c.mbsfn.mcchRepetitionPeriod.num) = .error .remainderByZero := by
    rw [h]
    rfl
  simp only [isMcchSubframe, hc, if_true, hzero]
  rfl

theorem isMcchSubframe_spec (hc : c.sib13Configured = true)
    (h : c.mbsfn.mcchRepetitionPeriod ≠ .rf256) :
    ∃ cfg', isMcchSubframe c cfg tti = .ok (decide (IsMcch c tti), cfg') := by
  obtain ⟨hu8, hne⟩ := mcchPeriod_u8 h
  obtain ⟨x, hread, hx⟩ := @read_mcch c (tti % 10) (Nat.mod_lt _ (by decide))
  simp only [isMcchSubframe, hc, if_true, hu8, rem, if_neg hne, hread, bind, Except.bind]
  by_cases hfr : tti / 10 % c.mbsfn.mcchRepetitionPeriod.num = c.mbsfn.mcchOffset
  · by_cases hbit : 0 < x
    · have : IsMcch c tti := ⟨hfr, hx.mp hbit⟩
      simp [hfr, hbit, this, pure, Except.pure]
    · have : ¬IsMcch c tti := fun hm => hbit (hx.mpr hm.2)
      simp [hfr, hbit, this, pure, Except.pure]
  · have : ¬IsMcch c tti := fun hm => hfr hm.1
    simp [hfr, this, pure, Except.pure]

/-- The defaults that `is_mch_subframe` starts with. -/
def defaults (cfg : SubframeCfg) : SubframeCfg :=
  { cfg with
    mbsfnAreaId := 0, nonMbsfnRegionLength := 1, mbsfnMcs := 2, mbsfnEncode := false,
    isMcch := false }

theorem mchCfg_ok : ∃ cfg', mchCfg c cfg tti = .ok cfg' := by
  have hne := c.mbsfn.commonsfAllocperiod.num_ne_zero
  simp only [mchCfg, rem, if_neg hne]
  split_ifs <;> exact ⟨_, rfl⟩

/-- The frame test of a pattern of one frame. -/
theorem isMchSubframe_one (hone : c.mbsfn.subfrAllocNumFrames = .one)
    (hc : c.sib13Configured = true) (h : c.mbsfn.mcchRepetitionPeriod ≠ .rf256) :
    ∃ b cfg', isMchSubframe c cfg tti = .ok (b, cfg') ∧
      (b = true ↔ IsMcch c tti ∨ IsMch c tti) := by
  obtain ⟨cfg1, hmcch⟩ := @isMcchSubframe_spec c (defaults cfg) tti hc h
  have hperiod := c.mbsfn.radioFrAllocPeriod.num_bounds
  obtain ⟨x, hread, hx⟩ := @read_mch c 0 (tti % 10) (by omega)
  rw [Nat.mul_zero, Nat.zero_add] at hread
  obtain ⟨cfg2, hcfg2⟩ := @mchCfg_ok c cfg1 tti
  have hmch : IsMch c tti ↔ tti / 10 % c.mbsfn.radioFrAllocPeriod.num =
      c.mbsfn.radioFrAllocOffset ∧ PatternBit c 0 (tti % 10) := by
    simp [IsMch, hone, NumFrames.num]
  unfold defaults at hmcch
  simp only [isMchSubframe, hmcch, hone, AllocPeriod.u8_num, rem, if_neg hperiod.1.ne', hread,
    hcfg2, bind, Except.bind, hmch]
  by_cases hm : IsMcch c tti
  · simp [hm, pure, Except.pure]
  · by_cases hfr : tti / 10 % c.mbsfn.radioFrAllocPeriod.num = c.mbsfn.radioFrAllocOffset
    · by_cases hbit : 0 < x
      · simp [hm, hfr, hbit, hx.mp hbit, pure, Except.pure]
      · have := mt hx.mpr hbit
        simp [hm, hfr, hbit, this, pure, Except.pure]
    · simp [hm, hfr, pure, Except.pure]

theorem isMchSubframe_mcch (hc : c.sib13Configured = true)
    (h : c.mbsfn.mcchRepetitionPeriod ≠ .rf256) (hm : IsMcch c tti) :
    ∃ cfg', isMchSubframe c cfg tti = .ok (true, cfg') := by
  obtain ⟨cfg1, hmcch⟩ := @isMcchSubframe_spec c (defaults cfg) tti hc h
  unfold defaults at hmcch
  rw [decide_eq_true hm] at hmcch
  simp only [isMchSubframe, hmcch, bind, Except.bind, if_true]
  exact ⟨cfg1, rfl⟩

section Four

variable (hfour : c.mbsfn.subfrAllocNumFrames = .four) (hc : c.sib13Configured = true)
  (h : c.mbsfn.mcchRepetitionPeriod ≠ .rf256) (hm : ¬IsMcch c tti)

include hfour hc h hm

/-- A frame outside of a window of four. -/
theorem isMchSubframe_outside
    (hout : ¬∃ row < 4, tti / 10 % c.mbsfn.radioFrAllocPeriod.num =
      c.mbsfn.radioFrAllocOffset + row) :
    ∃ cfg', isMchSubframe c cfg tti = .ok (false, cfg') := by
  obtain ⟨cfg1, hmcch⟩ := @isMcchSubframe_spec c (defaults cfg) tti hc h
  obtain ⟨hpos, hle⟩ := c.mbsfn.radioFrAllocPeriod.num_bounds
  have hlt := Nat.mod_lt (tti / 10) hpos
  have hidx : u8 (tti / 10 % c.mbsfn.radioFrAllocPeriod.num) =
      tti / 10 % c.mbsfn.radioFrAllocPeriod.num := Nat.mod_eq_of_lt (by omega)
  have hwin : ¬(tti / 10 % c.mbsfn.radioFrAllocPeriod.num ≥ c.mbsfn.radioFrAllocOffset ∧
      tti / 10 % c.mbsfn.radioFrAllocPeriod.num < c.mbsfn.radioFrAllocOffset + 4) := by
    rintro ⟨h1, h2⟩
    exact hout ⟨tti / 10 % c.mbsfn.radioFrAllocPeriod.num - c.mbsfn.radioFrAllocOffset, by omega,
      by omega⟩
  unfold defaults at hmcch
  rw [decide_eq_false hm] at hmcch
  simp only [isMchSubframe, hmcch, hfour, AllocPeriod.u8_num, rem, if_neg hpos.ne', hidx,
    if_neg hwin, bind, Except.bind, Bool.false_eq_true, if_false]
  exact ⟨cfg1, rfl⟩

/-- A frame of the window is looked up at its own row, not at the row of the pattern. -/
theorem isMchSubframe_window {row : Nat} (hrow : row < 4)
    (hfr : tti / 10 % c.mbsfn.radioFrAllocPeriod.num = c.mbsfn.radioFrAllocOffset + row) :
    (c.mbsfn.radioFrAllocOffset + row < 4 → ∃ b cfg', isMchSubframe c cfg tti = .ok (b, cfg') ∧
      (b = true ↔ PatternBit c (c.mbsfn.radioFrAllocOffset + row) (tti % 10))) ∧
    (¬c.mbsfn.radioFrAllocOffset + row < 4 → isMchSubframe c cfg tti = .error .index) := by
  obtain ⟨cfg1, hmcch⟩ := @isMcchSubframe_spec c (defaults cfg) tti hc h
  obtain ⟨hpos, hle⟩ := c.mbsfn.radioFrAllocPeriod.num_bounds
  have hlt := Nat.mod_lt (tti / 10) hpos
  have hsf := Nat.mod_lt tti (show 0 < 10 by decide)
  have hidx : u8 (c.mbsfn.radioFrAllocOffset + row) = c.mbsfn.radioFrAllocOffset + row :=
    Nat.mod_eq_of_lt (by omega)
  have hwin : c.mbsfn.radioFrAllocOffset + row ≥ c.mbsfn.radioFrAllocOffset.val ∧
      c.mbsfn.radioFrAllocOffset + row < c.mbsfn.radioFrAllocOffset + 4 := by omega
  unfold defaults at hmcch
  rw [decide_eq_false hm] at hmcch
  simp only [isMchSubframe, hmcch, hfour, AllocPeriod.u8_num, rem, if_neg hpos.ne', hfr, hidx,
    if_pos hwin, bind, Except.bind, Bool.false_eq_true, if_false]
  refine ⟨fun hin => ?_, fun hout => ?_⟩
  · obtain ⟨x, hread, hx⟩ :=
      @read_mch c (c.mbsfn.radioFrAllocOffset + row) (tti % 10) (by omega)
    rw [Nat.mul_comm] at hread
    simp only [hread, ← hx, hc, if_true]
    split_ifs with hbit
    · exact ⟨true, _, rfl, iff_of_true rfl hbit⟩
    · exact ⟨false, _, rfl, iff_of_false (by decide) hbit⟩
  · have hread : read c.mchTable ((c.mbsfn.radioFrAllocOffset + row) * 10 + tti % 10) =
        .error .index := dif_neg (by omega)
    rw [hread]

end Four

/-! ## Exactness -/

theorem classified_of_mch {b : Bool} {cfg' : SubframeCfg}
    (h : isMchSubframe c cfg tti = .ok (b, cfg')) :
    Classified c cfg tti ↔ (b = true ↔ IsMcch c tti ∨ IsMch c tti) := by
  have hsf : getSfConfig c cfg tti =
      .ok { cfg' with sfType := if b then .mbsfn else .regular } := by
    simp only [getSfConfig, h, bind, Except.bind]
    rfl
  unfold Classified
  rw [hsf]
  cases b <;> simp

theorem not_classified {f : Fault} (h : isMchSubframe c cfg tti = .error f) :
    ¬Classified c cfg tti := by
  rintro ⟨sc, hsc, -⟩
  simp only [getSfConfig, h, bind, Except.bind] at hsc
  cases hsc

section Window

variable (hfour : c.mbsfn.subfrAllocNumFrames = .four) {row : Nat} (hrow : row < 4)
  (hfr : tti / 10 % c.mbsfn.radioFrAllocPeriod.num = c.mbsfn.radioFrAllocOffset + row)

include hfour hrow hfr

/-- A frame is in one row of the pattern. -/
theorem isMch_window_iff : IsMch c tti ↔ PatternBit c row (tti % 10) := by
  constructor
  · rintro ⟨row', -, hfr', hbit⟩
    obtain rfl : row' = row := by omega
    exact hbit
  · intro hbit
    exact ⟨row, by rw [hfour]; exact hrow, hfr, hbit⟩

theorem readsRight_window_iff (hp : c.mbsfn.mcchRepetitionPeriod ≠ .rf256) (hm : ¬IsMcch c tti) :
    ReadsRight c tti ↔ c.mbsfn.radioFrAllocOffset + row < 4 ∧
      (PatternBit c (c.mbsfn.radioFrAllocOffset + row) (tti % 10) ↔
        PatternBit c row (tti % 10)) := by
  constructor
  · intro h
    exact h.row hfour hm row hrow hfr
  · intro h
    refine ⟨hp, fun _ _ row' hrow' hfr' => ?_⟩
    obtain rfl : row' = row := by omega
    exact h

end Window

/-- **Subframes are classified right**, if and only if the period of MCCH is not 256 and a frame of
a window of four is read at a row that agrees with the right one. -/
theorem classified_iff (lib : TableLib) (mbsfn : Cfg) (cfg : SubframeCfg) (tti : Nat) :
    Classified (configureMbsfn lib mbsfn) cfg tti ↔
      ReadsRight (configureMbsfn lib mbsfn) tti := by
  obtain ⟨c, hconf⟩ : ∃ c, configureMbsfn lib mbsfn = c := ⟨_, rfl⟩
  have hc : c.sib13Configured = true := hconf ▸ rfl
  rw [hconf]
  by_cases hp : c.mbsfn.mcchRepetitionPeriod = .rf256
  · have hmcch := @isMcchSubframe_fault c (defaults cfg) tti hc hp
    have hfault : isMchSubframe c cfg tti = .error .remainderByZero := by
      unfold defaults at hmcch
      simp only [isMchSubframe, hmcch, bind, Except.bind]
    exact iff_of_false (not_classified hfault) fun h => h.period hp
  by_cases hm : IsMcch c tti
  · obtain ⟨cfg', hok⟩ := @isMchSubframe_mcch c cfg tti hc hp hm
    rw [classified_of_mch hok]
    exact iff_of_true (iff_of_true rfl (Or.inl hm)) ⟨hp, fun _ hnot => absurd hm hnot⟩
  cases hframes : c.mbsfn.subfrAllocNumFrames with
  | one =>
    obtain ⟨b, cfg', hok, hb⟩ := @isMchSubframe_one c cfg tti hframes hc hp
    rw [classified_of_mch hok]
    refine iff_of_true hb ⟨hp, fun h => ?_⟩
    rw [hframes] at h
    cases h
  | four =>
    by_cases hin : ∃ row < 4, tti / 10 % c.mbsfn.radioFrAllocPeriod.num =
        c.mbsfn.radioFrAllocOffset + row
    · obtain ⟨row, hrow, hfr⟩ := hin
      obtain ⟨hread, hfault⟩ := @isMchSubframe_window c cfg tti hframes hc hp hm row hrow hfr
      rw [readsRight_window_iff hframes hrow hfr hp hm]
      by_cases hlt : c.mbsfn.radioFrAllocOffset + row < 4
      · obtain ⟨b, cfg', hok, hb⟩ := hread hlt
        rw [classified_of_mch hok, hb, or_iff_right hm, isMch_window_iff hframes hrow hfr,
          and_iff_right hlt]
      · exact iff_of_false (not_classified (hfault hlt)) fun h => hlt h.1
    · obtain ⟨cfg', hok⟩ := @isMchSubframe_outside c cfg tti hframes hc hp hm hin
      rw [classified_of_mch hok]
      refine iff_of_true (iff_of_false (by decide) ?_) ⟨hp, fun _ _ row hrow hfr =>
        absurd ⟨row, hrow, hfr⟩ hin⟩
      rintro (h | ⟨row, hrow, hfr, -⟩)
      · exact hm h
      · rw [hframes] at hrow
        exact hin ⟨row, hrow, hfr⟩

/-- The tables as 36.331 numbers the bits: subframes 1, 2, 3, 6, 7 and 8, from the first bit on. -/
def exampleTables : TableLib where
  generateMchTable alloc frames i :=
    match [1, 2, 3, 6, 7, 8].idxOf? (i.val % 10) with
    | some k => if i.val / 10 < frames then alloc >>> (6 * frames - 1 - (6 * (i.val / 10) + k)) % 2
      else 0
    | none => 0
  generateMcchTable alloc i :=
    match [1, 2, 3, 6, 7, 8].idxOf? i.val with
    | some k => alloc >>> (5 - k) % 2
    | none => 0

/-- All subframes of four frames in eight, from frame 4 on. -/
def exampleCfg (mcch : McchPeriod) : Cfg where
  subfrAlloc := 2 ^ 24 - 1
  subfrAllocNumFrames := .four
  radioFrAllocOffset := 4
  radioFrAllocPeriod := .n8
  sfAllocInfo := 32
  mcchOffset := 0
  mcchRepetitionPeriod := mcch
  mbsfnAreaId := 1
  nonMbsfnRegionLength := 2
  signallingMcs := 2
  pmchInfolist := [10]
  commonsfAllocperiod := .rf64

/-- A period of 256 is held as 0; and frame 4 is looked up in row 4 of four rows. -/
theorem not_classified_periodAndRow :
    ¬Classified (configureMbsfn exampleTables (exampleCfg .rf256)) {} 1 ∧
      ¬Classified (configureMbsfn exampleTables (exampleCfg .rf32)) {} 41 := by
  constructor
  · exact not_classified (f := .remainderByZero) rfl
  · exact not_classified (f := .index) rfl

end Mbsfn

end Srsenb.Phy
