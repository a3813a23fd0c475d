import Srsenb.Base.Common

/-! # What the scheduler calls outside of its own files

Unsigned arithmetic, and the srsLTE functions as parameters. -/

namespace Srsenb.Mac

/-- A `uint32_t` sum or increment. -/
def u32 (n : Nat) : Nat := n % 2 ^ 32

/-- An `int` read as a `uint32_t`. -/
def toU32 (z : Int) : Nat := (z % 2 ^ 32).toNat

/-- An `int` from a value modulo `2 ^ 32`. -/
def i32 (z : Int) : Int := (z + 2 ^ 31) % 2 ^ 32 - 2 ^ 31

theorem i32_of_range {z : Int} (h1 : -2 ^ 31 ≤ z) (h2 : z < 2 ^ 31) : i32 z = z := by
  unfold i32
  omega

/-- `MSG3_DELAY_MS` -/
def msg3DelayMs : Nat := 2

/-- `srslte_pucch_cfg_t` -/
structure PucchCfg where
  deltaPucchShift : Nat := 0
  nRb2 : Nat := 0
  nCs : Nat := 0
  n1PucchAn : Nat := 0

/-- `srslte_pucch_sched_t` -/
structure PucchSched where
  nPucchSr : Nat
  nPucch2 : Nat
  nPucch1 : Nat

/-- The PUCCH formats that the scheduler reserves. -/
inductive PucchFormat
  | format1
  | format1a
  | format2

/-- The DCI formats of the scheduler's grants. -/
inductive DciFormat
  | format0
  | format1
  | format2
  | format2a
  deriving DecidableEq, Repr

/-- `srslte_cell_t`, with `SRSLTE_CP_NSYMB` of its cyclic prefix. -/
structure Cell where
  nofPrb : Nat
  nofPorts : Nat
  cpNsymb : Nat

/-- The functions of srsLTE, and the two searches over code rates in floating point. -/
structure Lib where
  /-- `srslte_tti_interval` -/
  ttiInterval : Nat → Nat → Nat
  /-- `srslte_dft_precoding_valid_prb` -/
  validPrb : Nat → Bool
  /-- `srslte_ra_type0_P` -/
  type0P : Nat → Nat
  /-- `srslte_ra_tbs_from_idx` -/
  tbsFromIdx : Int → Nat → Int
  /-- `srslte_ra_tbs_idx_from_mcs` -/
  tbsIdxFromMcs : Int → Int
  /-- `srslte_ra_tbs_to_table_idx` -/
  tbsToTableIdx : Nat → Nat → Int
  /-- `srslte_ra_mcs_from_tbs_idx` -/
  mcsFromTbsIdx : Int → Nat
  /-- `srslte_ra_dl_approx_nof_re` -/
  raDlApproxNofRe : Cell → Nat → Nat → Nat
  /-- `srslte_ra_dl_grant_nof_re`, of the cell, the RBG mask, the subframe and the symbols. -/
  raDlGrantNofRe : Cell → Nat → Nat → Nat → Nat
  /-- `srslte_ra_type2_to_riv` -/
  raType2ToRiv : Nat → Nat → Nat → Nat
  /-- `srslte_prach_tti_opportunity_config` -/
  prachTtiOpportunity : Nat → Nat → Bool
  /-- `srslte_ue_ul_sr_send_tti` -/
  srSendTti : Nat → Nat → Bool
  /-- `srslte_cqi_send` -/
  cqiSend : Nat → Nat → Bool
  /-- `srslte_pucch_get_npucch` -/
  pucchGetNpucch : Nat → Bool → PucchSched → Nat
  /-- `srslte_pucch_n_prb`, of the configuration, format, resource, cell size and slot. -/
  pucchNPrb : PucchCfg → PucchFormat → Nat → Cell → Nat → Nat
  /-- `srslte_dci_format_sizeof` -/
  dciFormatSizeof : DciFormat → Nat → Nat → Nat
  /-- `sched_ue::cqi_to_tbs`: TBS and MCS for the CQI, PRBs, REs, and the largest MCS and `Qm`. -/
  cqiToTbs : Nat → Nat → Nat → Nat → Nat → Int × Nat
  /-- `sched_ue::get_aggr_level`, of the cell, the CQI and the bits. -/
  aggrLevel : Cell → Nat → Nat → Nat
  /-- `rand` -/
  rand : Nat → Nat

/-- `sched::get_rvidx` -/
def getRvidx (retxIdx : Nat) : Nat :=
  match retxIdx % 4 with
  | 0 => 0
  | 1 => 2
  | 2 => 3
  | _ => 1

/-! ## A library to run the model with -/

/-- Rows 0 and 4 of the TBS table of TS 36.213, of up to ten PRBs; -1 elsewhere. -/
def exampleTbs (idx : Int) (nofPrb : Nat) : Int :=
  if idx = 0 then
    match nofPrb with
    | 1 => 16 | 2 => 32 | 3 => 56 | 4 => 88 | 5 => 120
    | 6 => 152 | 7 => 176 | 8 => 208 | 9 => 224 | 10 => 256
    | _ => -1
  else if idx = 4 then
    match nofPrb with
    | 1 => 56 | 2 => 120 | 3 => 208 | 4 => 256 | 5 => 328
    | 6 => 408 | 7 => 488 | 8 => 552 | 9 => 632 | 10 => 696
    | _ => -1
  else -1

/-- srsLTE as far as small runs need it: PRACH in subframe 1, the lowest MCS, no PUCCH. -/
def exampleLib : Lib where
  ttiInterval tti1 tti2 := if tti1 ≥ tti2 then tti1 - tti2 else 10240 - tti2 + tti1
  validPrb n := n == 1 || n % 2 == 0 || n % 3 == 0 || n % 5 == 0
  type0P n := if n ≤ 10 then 1 else if n ≤ 26 then 2 else if n ≤ 63 then 3 else 4
  tbsFromIdx := exampleTbs
  tbsIdxFromMcs mcs := if mcs < 10 then mcs else mcs - 1
  tbsToTableIdx _ _ := 0
  mcsFromTbsIdx idx := idx.toNat
  raDlApproxNofRe _ n _ := 120 * n
  raDlGrantNofRe _ _ _ _ := 120
  raType2ToRiv L prb nofPrb := nofPrb * (L - 1) + prb
  prachTtiOpportunity _ tti := tti % 10 == 1
  srSendTti _ _ := false
  cqiSend _ _ := false
  pucchGetNpucch nCce _ sched := nCce + sched.nPucch1
  pucchNPrb _ _ nPucch _ _ := nPucch / 36
  dciFormatSizeof _ _ _ := 22
  cqiToTbs _ nofPrb _ _ _ := (exampleTbs 0 nofPrb, 0)
  aggrLevel _ _ _ := 2
  rand n := n

end Srsenb.Mac
