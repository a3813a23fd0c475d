import Srsenb.Enb.Sections
import Srsenb.Upper.Pucch

/-! # The lists of the configuration files

What `enb_cfg_parser.cc` records of them, against the arrays of `rrc.h` and `liblte_rrc.h`. -/

namespace Srsenb.Enb

variable {S D V : Type}

open LibConfig (need)

/-! ## The QCIs -/

/-- `LIBLTE_RRC_RLC_MODE_ENUM` -/
inductive RlcMode
  | am
  | umBi
  | umUniUl
  | umUniDl
  deriving DecidableEq, Repr

/-- `rrc_cfg_qci_t`, as far as it is read from the file. -/
structure QciCfg where
  configured : Bool := false
  discardTimer : Nat := 0
  discardTimerPresent : Bool := false
  pdcpSnSize : Nat := 0
  pdcpSnSizePresent : Bool := false
  statusReportRequired : Bool := false
  statusReportRequiredPresent : Bool := false
  rlcMode : RlcMode := .am
  ulUmSnFieldLen : Nat := 0
  dlUmSnFieldLen : Nat := 0
  dlUmTReordering : Nat := 0
  tPollRetx : Nat := 0
  pollPdu : Nat := 0
  pollByte : Nat := 0
  maxRetxThresh : Nat := 0
  dlAmTReordering : Nat := 0
  tStatusProhibit : Nat := 0
  priority : Nat := 0
  prioritizedBitRate : Nat := 0
  bucketSizeDuration : Nat := 0
  logChanGroup : Nat := 0
  logChanGroupPresent : Bool := false

/-- `parse` of a mandatory `field_enum_num`, with the index that it stores. -/
def enumNum [BEq V] (lib : LibConfig S) (lookup : S → String → Option V) (s : S) (name : String)
    (table : List V) : Option Nat :=
  if lib.has s name then (lookup s name).bind table.idxOf? else none

/-- A subsection that may be absent. -/
def LibConfig.find (lib : LibConfig S) (s : S) (name : String) : Except Stop (Option S) :=
  if lib.has s name then (lib.get s name).map some else return none

/-- The unsigned numbers of a table. -/
def Liblte.unum (lte : Liblte) (name : String) : List Nat := (lte.num name).map Int.toNat

/-- A round of `field_qci::parse`; what it does not find stays as it was. -/
def qciEntry (lib : LibConfig S) (lte : Liblte) (q : S) (c : QciCfg) : Except Stop QciCfg := do
  if !lib.has q "pdcp_config" then throw .failed
  let pdcp ← lib.get q "pdcp_config"
  let discardTimer := enumNum lib lib.lookupInt pdcp "discard_timer" (lte.num "discard_timer")
  let pdcpSnSize := enumNum lib lib.lookupInt8 pdcp "pdcp_sn_size" (lte.num "pdcp_sn_size")
  let statusReport := lib.lookupBool pdcp "status_report_required"
  let rlc ← lib.get q "rlc_config"
  let rlcMode ←
    if lib.has rlc "ul_am" then pure RlcMode.am
    else if lib.has rlc "ul_um" && lib.has rlc "dl_um" then pure RlcMode.umBi
    else if lib.has rlc "ul_um" && !lib.has rlc "dl_um" then pure RlcMode.umUniUl
    else if !lib.has rlc "ul_um" && lib.has rlc "dl_um" then pure RlcMode.umUniDl
    else throw .failed
  let ulUm ← lib.find rlc "ul_um"
  let dlUm ← lib.find rlc "dl_um"
  let ulAm ← lib.find rlc "ul_am"
  let dlAm ← lib.find rlc "dl_am"
  if !lib.has q "logical_channel_config" then throw .failed
  let lc ← lib.get q "logical_channel_config"
  let num (s : Option S) (name table : String) (old : Nat) : Nat :=
    (s.bind fun s => enumNum lib lib.lookupInt s name (lte.num table)).getD old
  let snFieldLen (s : Option S) (old : Nat) : Nat :=
    (s.bind fun s => enumNum lib lib.lookupUint8 s "sn_field_length"
      (lte.unum "sn_field_length")).getD old
  let maxRetx := ulAm.bind fun s =>
    enumNum lib lib.lookupUint s "max_retx_thresh" (lte.unum "max_retx_threshold")
  let bucketSize := enumNum lib lib.lookupInt16 lc "bucket_size_duration"
    (lte.num "bucket_size_duration")
  let logChanGroup := lib.lookupUint8 lc "log_chan_group"
  return {
    configured := true
    discardTimer := discardTimer.getD c.discardTimer
    discardTimerPresent := discardTimer.isSome
    pdcpSnSize := pdcpSnSize.getD c.pdcpSnSize
    pdcpSnSizePresent := pdcpSnSize.isSome
    statusReportRequired := statusReport.getD c.statusReportRequired
    statusReportRequiredPresent := statusReport.isSome
    rlcMode
    ulUmSnFieldLen := snFieldLen ulUm c.ulUmSnFieldLen
    dlUmSnFieldLen := snFieldLen dlUm c.dlUmSnFieldLen
    dlUmTReordering := num dlUm "t_reordering" "t_reordering" c.dlUmTReordering
    tPollRetx := num ulAm "t_poll_retx" "t_poll_retransmit" c.tPollRetx
    pollPdu := num ulAm "poll_pdu" "poll_pdu" c.pollPdu
    pollByte := num ulAm "poll_byte" "poll_byte" c.pollByte
    maxRetxThresh := maxRetx.getD c.maxRetxThresh
    dlAmTReordering := num dlAm "t_reordering" "t_reordering" c.dlAmTReordering
    tStatusProhibit := num dlAm "t_status_prohibit" "t_status_prohibit" c.tStatusProhibit
    priority := (lib.lookupUint8 lc "priority").getD c.priority
    prioritizedBitRate :=
      num (some lc) "prioritized_bit_rate" "prioritized_bit_rate" c.prioritizedBitRate
    bucketSizeDuration := bucketSize.getD c.bucketSizeDuration
    logChanGroup := logChanGroup.getD c.logChanGroup
    logChanGroupPresent := logChanGroup.isSome }

/-- `field_qci::parse`, over the places of `qci_cfg` that it writes. -/
def fieldQci (lib : LibConfig S) (lte : Liblte) (root : S) : Except Stop (Nat → Option QciCfg) :=
  loop (lib.getLength root) (fun cfg i => do
    let q ← lib.index root i
    let qci ← lib.uint (← lib.get q "qci")
    let c ← qciEntry lib lte q ((cfg qci).getD {})
    return Function.update cfg qci (some c)) fun _ => none

/-! ## The PUCCH -/

/-- `rrc_cfg_sr_t` -/
structure SrCfg where
  dsrMax : Nat := 0
  period : Nat := 0
  nofPrb : Nat := 0
  sfMapping : ListOf Nat := {}

/-- `rrc_cfg_cqi_t` -/
structure CqiCfg where
  mode : Nat := 0
  period : Nat := 0
  nofPrb : Nat := 0
  simultaneousAckCqi : Bool := false
  sfMapping : ListOf Nat := {}

/-- The section `sched_request_cnfg` of `parse_rr` -/
def schedRequestCnfg (lib : LibConfig S) (lte : Liblte) : Section S SrCfg :=
  .mk "sched_request_cnfg" none
    [fieldEnumNum lib.lookupInt "dsr_trans_max" (fun k d => { d with dsrMax := k })
        (lte.num "dsr_trans_max") none,
      field lib.lookupUint "period" (fun n d => { d with period := n }) none,
      field lib.lookupUint "nof_prb" (fun n d => { d with nofPrb := n }) none,
      .custom (sfMapping lib SrCfg.sfMapping fun l d => { d with sfMapping := l })] []

/-- The section `cqi_report_cnfg` of `parse_rr` -/
def cqiReportCnfg (lib : LibConfig S) : Section S CqiCfg :=
  .mk "cqi_report_cnfg" none
    [fieldEnumStr lib "mode" (fun k d => { d with mode := k }) ["periodic", "aperiodic"] none,
      field lib.lookupUint "period" (fun n d => { d with period := n }) none,
      field lib.lookupUint "nof_prb" (fun n d => { d with nofPrb := n }) none,
      field lib.lookupBool "simultaneousAckCQI" (fun b d => { d with simultaneousAckCqi := b })
        none,
      .custom (sfMapping lib CqiCfg.sfMapping fun l d => { d with sfMapping := l })] []

/-- What a section that is parsed makes of its data. -/
def Section.run (lib : LibConfig S) (sec : Section S D) (root : S) (d : D) : Except Stop D :=
  let (st, r) := sec.parse lib root ⟨fun _ => false, d⟩
  r.map fun _ => st.data

/-! ## A configuration -/

/-- The settings that the parsers of lists are given. The two lists of cells may be left out. -/
structure CfgFile (S : Type) where
  schedInfo : S
  intraFreqNeighCellList : Option S
  intraFreqBlackCellList : Option S
  /-- `phy_cnfg` -/
  phyCnfg : S
  qciConfig : S

/-- What they record. -/
structure CfgLists where
  schedInfo : ListOf SchedInfo
  neigh : ListOf NeighCell
  black : ListOf BlackCell
  srCfg : SrCfg
  cqiCfg : CqiCfg
  qciCfg : Nat → Option QciCfg

/-- The section of a list that may be left out. -/
def optionalList {α : Type} (parse : S → ListOf α → Except Stop (ListOf α)) :
    Option S → Except Stop (ListOf α)
  | some root => parse root {}
  | none => .ok {}

namespace CfgFile

variable (lib : LibConfig S) (lte : Liblte) (file : CfgFile S)

/-- The parsers of lists, on memory that holds no entry yet. -/
def parse : Except Stop CfgLists := do
  let schedInfo ← fieldSchedInfo lib lte file.schedInfo {}
  let neigh ← optionalList (fieldIntraNeighCellList lib lte) file.intraFreqNeighCellList
  let black ← optionalList (fieldIntraBlackCellList lib lte) file.intraFreqBlackCellList
  let srCfg ← (schedRequestCnfg lib lte).run lib file.phyCnfg {}
  let cqiCfg ← (cqiReportCnfg lib).run lib file.phyCnfg {}
  let qciCfg ← fieldQci lib lte file.qciConfig
  return ⟨schedInfo, neigh, black, srCfg, cqiCfg, qciCfg⟩

/-- A section of `phy_cnfg` with at most 80 subframes and 100 PRBs, and one of each at least. -/
def PucchFits (name : String) : Prop :=
  ∃ s subframe nofPrb, lib.get file.phyCnfg name = .ok s ∧ lib.get s "subframe" = .ok subframe ∧
    lib.lookupUint s "nof_prb" = some nofPrb ∧
    0 < lib.getLength subframe ∧ lib.getLength subframe ≤ 80 ∧ 0 < nofPrb ∧ nofPrb ≤ 100

/-- The lists of the file are short enough, and its QCIs are small. -/
structure Short : Prop where
  schedInfo : lib.getLength file.schedInfo ≤ lte.maxSiMessage
  neigh : ∀ root, file.intraFreqNeighCellList = some root → lib.getLength root ≤ lte.maxCellIntra
  black : ∀ root, file.intraFreqBlackCellList = some root → lib.getLength root ≤ lte.maxCellBlack
  sr : file.PucchFits lib "sched_request_cnfg"
  cqi : file.PucchFits lib "cqi_report_cnfg"
  qci : ∀ i < lib.getLength file.qciConfig, ∀ q s qci, lib.index file.qciConfig i = .ok q →
    lib.get q "qci" = .ok s → lib.uint s = .ok qci → qci < 10

end CfgFile

/-- The list is in its array, and each of its entries is written. -/
structure ListOf.Fits {α : Type} (d : ListOf α) (places : Nat) : Prop where
  size : d.size ≤ places
  filled : d.Filled

/-- What the searches of `sr_allocate` and `cqi_allocate` are given. -/
def SrCfg.slotCfg (c : SrCfg) : Pucch.SlotCfg :=
  ⟨c.period, c.nofPrb, c.sfMapping.size, fun j => (c.sfMapping.entries j).getD 0⟩

@[inherit_doc SrCfg.slotCfg]
def CqiCfg.slotCfg (c : CqiCfg) : Pucch.SlotCfg :=
  ⟨c.period, c.nofPrb, c.sfMapping.size, fun j => (c.sfMapping.entries j).getD 0⟩

/-- `nof_users` has the rows and columns of the search, and the search has a slot. -/
structure SlotsFit (c : Pucch.SlotCfg) : Prop where
  rows : c.nofPrb ≤ 100
  columns : c.nofSubframes ≤ 80
  slot : ∃ i j, i < c.nofPrb ∧ j < c.nofSubframes

/-- What is recorded is in the arrays, and is what the file says. -/
structure CfgLists.Fits (lte : Liblte) (c : CfgLists) : Prop where
  schedInfo : c.schedInfo.Fits lte.maxSiMessage
  mapping : ∀ i < c.schedInfo.size, ∀ e, c.schedInfo.entries i = some e →
    e.sibMappingInfo.Fits lte.maxSib
  neigh : c.neigh.Fits lte.maxCellIntra
  black : c.black.Fits lte.maxCellBlack
  srMapping : c.srCfg.sfMapping.Fits 80
  cqiMapping : c.cqiCfg.sfMapping.Fits 80
  qci : ∀ qci, (c.qciCfg qci).isSome = true → qci < 10
  sr : SlotsFit c.srCfg.slotCfg
  cqi : SlotsFit c.cqiCfg.slotCfg

/-! ## Lists -/

variable {α : Type} {lib : LibConfig S} {lte : Liblte} {entry : S → Except Stop α} {root s : S}

theorem parseList_fits_iff {d d' : ListOf α} (places : Nat)
    (h : parseList lib entry root (lib.getLength root) d = .ok d') :
    d'.Fits places ↔ lib.getLength root ≤ places := by
  rw [← (parseList_spec h).1]
  exact ⟨fun hfits => hfits.size, fun hsize => ⟨hsize, parseList_filled h⟩⟩

/-- The loop that has a bound fills the array only if the list is within it. -/
theorem parseList_min_fits_iff {d d' : ListOf α} {places : Nat}
    (h : parseList lib entry root (min (lib.getLength root) places) d = .ok d') :
    d'.Fits places ↔ lib.getLength root ≤ places := by
  constructor
  · intro hfits
    rw [← (parseList_spec h).1]
    exact hfits.size
  · intro hsize
    rw [Nat.min_eq_left hsize] at h
    exact (parseList_fits_iff places h).2 hsize

theorem schedInfoEntry_fits {e : SchedInfo} (h : schedInfoEntry lib lte s = .ok e) :
    e.sibMappingInfo.Fits lte.maxSib := by
  obtain ⟨periodicity, -, h⟩ := bind_eq_ok.1 h
  obtain ⟨k, -, h⟩ := bind_eq_ok.1 h
  split_ifs at h with hhas
  · obtain ⟨mapping, -, h⟩ := bind_eq_ok.1 h
    split_ifs at h with hsize
    · obtain ⟨sibs, hsibs, h⟩ := bind_eq_ok.1 h
      obtain rfl : ⟨k, sibs⟩ = e := Except.ok.inj h
      exact (parseList_fits_iff _ hsibs).2 (Nat.le_of_lt hsize)
  · obtain rfl : ⟨k, {}⟩ = e := Except.ok.inj h
    exact ⟨Nat.zero_le _, fun i hi => absurd hi (Nat.not_lt_zero i)⟩

theorem optional_fits_iff {d : ListOf α} {places : Nat} {r : Option S}
    (h : optionalList
      (fun root => parseList lib entry root (min (lib.getLength root) places)) r = .ok d) :
    d.Fits places ↔ ∀ root, r = some root → lib.getLength root ≤ places := by
  cases r with
  | none =>
    obtain rfl : {} = d := Except.ok.inj h
    refine ⟨fun _ root hroot => (nomatch hroot), fun _ => ⟨Nat.zero_le _, fun i hi => ?_⟩⟩
    exact absurd hi (Nat.not_lt_zero i)
  | some root => simpa using parseList_min_fits_iff h

theorem fieldQci_spec {cfg : Nat → Option QciCfg} (h : fieldQci lib lte root = .ok cfg)
    (qci : Nat) : (cfg qci).isSome = true ↔
      ∃ i < lib.getLength root, ∃ q s, lib.index root i = .ok q ∧ lib.get q "qci" = .ok s ∧
        lib.uint s = .ok qci := by
  rw [fieldQci] at h
  generalize lib.getLength root = count at h
  induction count generalizing cfg with
  | zero =>
    obtain rfl : (fun _ => none) = cfg := Except.ok.inj h
    simp
  | succ count ih =>
    rw [loop_succ, bind_eq_ok] at h
    obtain ⟨cfg₁, hcfg, h⟩ := h
    obtain ⟨q, hq, h⟩ := bind_eq_ok.1 h
    obtain ⟨s, hs, h⟩ := bind_eq_ok.1 h
    obtain ⟨n, hn, h⟩ := bind_eq_ok.1 h
    obtain ⟨c, -, h⟩ := bind_eq_ok.1 h
    obtain rfl : Function.update cfg₁ n (some c) = cfg := Except.ok.inj h
    by_cases heq : qci = n
    · subst heq
      simp only [Function.update_self, Option.isSome_some, true_iff]
      exact ⟨count, by omega, q, s, hq, hs, hn⟩
    · rw [Function.update_of_ne heq, ih hcfg]
      constructor
      · rintro ⟨i, hi, hread⟩
        exact ⟨i, by omega, hread⟩
      · rintro ⟨i, hi, q', s', hq', hs', hn'⟩
        by_cases hlast : i = count
        · subst hlast
          rw [hq] at hq'
          obtain rfl := Except.ok.inj hq'
          rw [hs] at hs'
          obtain rfl := Except.ok.inj hs'
          rw [hn] at hn'
          exact absurd (Except.ok.inj hn').symm heq
        · exact ⟨i, by omega, q', s', hq', hs', hn'⟩

/-! ## Sections without subsections -/

/-- What a field makes of the data. -/
def Field.store (lib : LibConfig S) : Field S D → S → D → Except Stop D
  | .std name enabled read, root, d =>
    if lib.has root name then (need (read root)).map (· d)
    else if enabled.isSome then .ok d else .error .failed
  | .custom f, root, d => f.parse root d

theorem Field.parse_store {f : Field S D} {st : Store D} (h : (f.parse lib s st).2 = .ok ()) :
    f.store lib s st.data = .ok (f.parse lib s st).1.data := by
  cases f with
  | std name enabled read =>
    simp only [Field.parse, Field.store] at h ⊢
    split_ifs at h ⊢ with hhas henabled
    · cases hread : read s with
      | none => simp [hread] at h
      | some set => cases enabled <;> rfl
    · obtain ⟨p, rfl⟩ := Option.isSome_iff_exists.1 henabled
      rfl
    · cases enabled with
      | none => cases h
      | some p => exact absurd rfl henabled
  | custom f =>
    simp only [Field.parse, Field.store] at h ⊢
    cases hparse : f.parse s st.data with
    | error e => simp [hparse] at h
    | ok d => rfl

theorem parseFields_store {name : String} (fs : List (Field S D)) (st : Store D)
    (hs : lib.member root name = .ok s) (h : (parseFields lib name root fs st).2 = .ok ()) :
    fs.foldlM (fun d f => f.store lib s d) st.data =
      .ok (parseFields lib name root fs st).1.data := by
  induction fs generalizing st with
  | nil => rfl
  | cons f fs ih =>
    rw [parseFields_cons f fs hs] at h ⊢
    have hf := ((andThen_ok_iff _ _).1 h).1
    rw [andThen_ok _ hf] at h ⊢
    rw [List.foldlM_cons, Field.parse_store hf]
    exact ih _ h

theorem Section.run_mk {name : String} {f : Field S D} {fs : List (Field S D)} {d d' : D}
    (h : (Section.mk name none (f :: fs) []).run lib root d = .ok d') :
    ∃ s, lib.get root name = .ok s ∧ (f :: fs).foldlM (fun d f => f.store lib s d) d = .ok d' := by
  rw [run] at h
  cases hm : lib.member root name with
  | error e =>
    rw [Section.parse, body_absent (.inl (List.cons_ne_nil f fs)) hm] at h
    cases e <;> cases h
  | ok s =>
    refine ⟨s, LibConfig.get_ok hm, ?_⟩
    rw [Section.parse] at h
    have hstore := parseFields_store (f :: fs) ⟨fun _ => false, d⟩ hm
    rcases hr : parseFields lib name root (f :: fs) ⟨fun _ => false, d⟩ with ⟨st, e | _⟩
    · rw [hr] at h
      rcases e with _ | _ | _ <;> cases h
    · rw [hr] at h hstore
      obtain rfl : st.data = d' := Except.ok.inj h
      exact hstore rfl

theorem std_store {name : String} {read : S → Option (D → D)} {d d' : D}
    (h : (Field.std name none read).store lib s d = .ok d') :
    ∃ set, read s = some set ∧ d' = set d := by
  simp only [Field.store] at h
  split_ifs at h with hhas hnone
  · cases hr : read s with
    | none => simp [hr, need, Except.map] at h
    | some set => exact ⟨set, rfl, by simpa [hr, need, Except.map] using h.symm⟩
  · cases hnone

theorem field_store {lookup : S → String → Option V} {name : String} {set : V → D → D} {d d' : D}
    (h : (field lookup name set none).store lib s d = .ok d') :
    ∃ v, lookup s name = some v ∧ d' = set v d := by
  obtain ⟨f, hf, rfl⟩ := std_store h
  obtain ⟨v, hv, rfl⟩ := Option.map_eq_some_iff.1 hf
  exact ⟨v, hv, rfl⟩

theorem fieldEnumNum_store [BEq V] {lookup : S → String → Option V} {name : String}
    {set : Nat → D → D} {table : List V} {d d' : D}
    (h : (fieldEnumNum lookup name set table none).store lib s d = .ok d') :
    ∃ k, d' = set k d := by
  obtain ⟨f, hf, rfl⟩ := std_store h
  obtain ⟨v, -, hf⟩ := Option.bind_eq_some_iff.1 hf
  obtain ⟨k, -, rfl⟩ := Option.map_eq_some_iff.1 hf
  exact ⟨k, rfl⟩

theorem fieldEnumStr_store {name : String} {set : Nat → D → D} {table : List String} {d d' : D}
    (h : (fieldEnumStr lib name set table none).store lib s d = .ok d') :
    ∃ k, d' = set k d := by
  obtain ⟨f, hf, rfl⟩ := std_store h
  obtain ⟨v, -, hf⟩ := Option.bind_eq_some_iff.1 hf
  obtain ⟨k, -, rfl⟩ := Option.map_eq_some_iff.1 hf
  exact ⟨k, rfl⟩

theorem sfMapping_store {get : D → ListOf Nat} {set : ListOf Nat → D → D} {d d' : D}
    (h : (Field.custom (sfMapping lib get set)).store lib s d = .ok d') :
    ∃ subframe l, lib.get s "subframe" = .ok subframe ∧
      parseList lib lib.uint subframe (lib.getLength subframe) (get d) = .ok l ∧ d' = set l d := by
  simp only [Field.store, sfMapping, fieldSfMapping] at h
  cases hsub : lib.get s "subframe" with
  | error e => rw [hsub] at h; cases h
  | ok subframe =>
    rw [hsub] at h
    change (parseList lib lib.uint subframe (lib.getLength subframe) (get d)).map (set · d) = _ at h
    cases hl : parseList lib lib.uint subframe (lib.getLength subframe) (get d) with
    | error e => rw [hl] at h; cases h
    | ok l =>
      rw [hl] at h
      exact ⟨subframe, l, rfl, hl, (Except.ok.inj h).symm⟩

/-- The section is there, with `nof_prb` and the list `subframe`. -/
def PucchRead (lib : LibConfig S) (root : S) (name : String) (nofPrb : Nat) (l : ListOf Nat) :
    Prop :=
  ∃ s subframe, lib.get root name = .ok s ∧ lib.get s "subframe" = .ok subframe ∧
    lib.lookupUint s "nof_prb" = some nofPrb ∧
    parseList lib lib.uint subframe (lib.getLength subframe) {} = .ok l

theorem schedRequestCnfg_run {d : SrCfg}
    (h : (schedRequestCnfg lib lte).run lib root {} = .ok d) :
    PucchRead lib root "sched_request_cnfg" d.nofPrb d.sfMapping := by
  obtain ⟨s, hs, h⟩ := Section.run_mk h
  simp only [List.foldlM_cons, List.foldlM_nil] at h
  obtain ⟨d₁, h₁, h⟩ := bind_eq_ok.1 h
  obtain ⟨d₂, h₂, h⟩ := bind_eq_ok.1 h
  obtain ⟨d₃, h₃, h⟩ := bind_eq_ok.1 h
  obtain ⟨d₄, h₄, h⟩ := bind_eq_ok.1 h
  obtain rfl : d₄ = d := Except.ok.inj h
  obtain ⟨k, rfl⟩ := fieldEnumNum_store h₁
  obtain ⟨period, -, rfl⟩ := field_store h₂
  obtain ⟨nofPrb, hprb, rfl⟩ := field_store h₃
  obtain ⟨subframe, l, hsub, hl, rfl⟩ := sfMapping_store h₄
  exact ⟨s, subframe, hs, hsub, hprb, hl⟩

theorem cqiReportCnfg_run {d : CqiCfg} (h : (cqiReportCnfg lib).run lib root {} = .ok d) :
    PucchRead lib root "cqi_report_cnfg" d.nofPrb d.sfMapping := by
  obtain ⟨s, hs, h⟩ := Section.run_mk h
  simp only [List.foldlM_cons, List.foldlM_nil] at h
  obtain ⟨d₁, h₁, h⟩ := bind_eq_ok.1 h
  obtain ⟨d₂, h₂, h⟩ := bind_eq_ok.1 h
  obtain ⟨d₃, h₃, h⟩ := bind_eq_ok.1 h
  obtain ⟨d₄, h₄, h⟩ := bind_eq_ok.1 h
  obtain ⟨d₅, h₅, h⟩ := bind_eq_ok.1 h
  obtain rfl : d₅ = d := Except.ok.inj h
  obtain ⟨k, rfl⟩ := fieldEnumStr_store h₁
  obtain ⟨period, -, rfl⟩ := field_store h₂
  obtain ⟨nofPrb, hprb, rfl⟩ := field_store h₃
  obtain ⟨b, -, rfl⟩ := field_store h₄
  obtain ⟨subframe, l, hsub, hl, rfl⟩ := sfMapping_store h₅
  exact ⟨s, subframe, hs, hsub, hprb, hl⟩

theorem slotsFit_iff {c : Pucch.SlotCfg} : SlotsFit c ↔
    0 < c.nofSubframes ∧ c.nofSubframes ≤ 80 ∧ 0 < c.nofPrb ∧ c.nofPrb ≤ 100 := by
  constructor
  · rintro ⟨hrows, hcolumns, i, j, hi, hj⟩
    exact ⟨by omega, hcolumns, by omega, hrows⟩
  · rintro ⟨hsf, hcolumns, hprb, hrows⟩
    exact ⟨hrows, hcolumns, 0, 0, hprb, hsf⟩

theorem PucchRead.fits_iff {file : CfgFile S} {name : String} {c : Pucch.SlotCfg} {l : ListOf Nat}
    (h : PucchRead lib file.phyCnfg name c.nofPrb l) (hsize : c.nofSubframes = l.size) :
    l.Fits 80 ∧ SlotsFit c ↔ file.PucchFits lib name := by
  obtain ⟨s, subframe, hs, hsub, hprb, hl⟩ := h
  rw [parseList_fits_iff 80 hl, slotsFit_iff, hsize, (parseList_spec hl).1]
  constructor
  · rintro ⟨-, hfits⟩
    exact ⟨s, subframe, c.nofPrb, hs, hsub, hprb, hfits⟩
  · rintro ⟨s', subframe', nofPrb', hs', hsub', hprb', hfits⟩
    obtain rfl := Except.ok.inj (hs.symm.trans hs')
    obtain rfl := Except.ok.inj (hsub.symm.trans hsub')
    obtain rfl := Option.some.inj (hprb.symm.trans hprb')
    exact ⟨hfits.2.1, hfits⟩

/-! ## The lists of an accepted configuration -/

/-- Of the lists only `si_mapping_info` is bounded; whether the others fit is up to the file. -/
theorem CfgFile.fits_iff_short {file : CfgFile S} {c : CfgLists} (h : file.parse lib lte = .ok c) :
    c.Fits lte ↔ file.Short lib lte := by
  obtain ⟨schedInfo, hsched, h⟩ := bind_eq_ok.1 h
  obtain ⟨neigh, hneigh, h⟩ := bind_eq_ok.1 h
  obtain ⟨black, hblack, h⟩ := bind_eq_ok.1 h
  obtain ⟨sr, hsr, h⟩ := bind_eq_ok.1 h
  obtain ⟨cqi, hcqi, h⟩ := bind_eq_ok.1 h
  obtain ⟨qci, hqci, h⟩ := bind_eq_ok.1 h
  obtain rfl : ⟨schedInfo, neigh, black, sr, cqi, qci⟩ = c := Except.ok.inj h
  have hmapping : ∀ i < schedInfo.size, ∀ e, schedInfo.entries i = some e →
      e.sibMappingInfo.Fits lte.maxSib := by
    intro i hi e he
    obtain ⟨hsize, hbelow, -⟩ := parseList_spec hsched
    obtain ⟨e', ⟨s, -, hs⟩, he'⟩ := hbelow i (hsize ▸ hi)
    obtain rfl := Option.some.inj (he.symm.trans he')
    exact schedInfoEntry_fits hs
  have hschedFits := parseList_fits_iff lte.maxSiMessage hsched
  have hneighFits := optional_fits_iff hneigh
  have hblackFits := optional_fits_iff hblack
  have hsrFits := PucchRead.fits_iff (c := sr.slotCfg) (schedRequestCnfg_run hsr) rfl
  have hcqiFits := PucchRead.fits_iff (c := cqi.slotCfg) (cqiReportCnfg_run hcqi) rfl
  constructor
  · intro hfits
    refine ⟨hschedFits.1 hfits.schedInfo, hneighFits.1 hfits.neigh, hblackFits.1 hfits.black,
      hsrFits.1 ⟨hfits.srMapping, hfits.sr⟩, hcqiFits.1 ⟨hfits.cqiMapping, hfits.cqi⟩, ?_⟩
    intro i hi q s n hq hs hn
    exact hfits.qci n ((fieldQci_spec hqci n).2 ⟨i, hi, q, s, hq, hs, hn⟩)
  · intro hshort
    refine ⟨hschedFits.2 hshort.schedInfo, hmapping, hneighFits.2 hshort.neigh,
      hblackFits.2 hshort.black, (hsrFits.2 hshort.sr).1, (hcqiFits.2 hshort.cqi).1, ?_,
      (hsrFits.2 hshort.sr).2, (hcqiFits.2 hshort.cqi).2⟩
    intro n hn
    obtain ⟨i, hi, q, s, hq, hs, hn⟩ := (fieldQci_spec hqci n).1 hn
    exact hshort.qci i hi q s n hq hs hn

/-! ## A configuration of the parsers -/

/-- A section of `phy_cnfg`. -/
def examplePucch (nofPrb : Int) (subframes : Nat) : Conf :=
  .group [("dsr_trans_max", .num 5), ("mode", .text "periodic"), ("period", .num 20),
    ("nof_prb", .num nofPrb), ("simultaneousAckCQI", .bool true),
    ("subframe", .list (List.replicate subframes (.num 1)))]

def exampleQci (qci : Int) : Conf :=
  .group [("qci", .num qci), ("pdcp_config", .group []),
    ("rlc_config", .group [("ul_am", .group [])]), ("logical_channel_config", .group [])]

def exampleFile : CfgFile Conf where
  schedInfo := .list [.group [("si_periodicity", .num 5), ("si_mapping_info", .list [.num 3])]]
  intraFreqNeighCellList :=
    some (.list [.group [("q_offset_range", .num 5), ("phys_cell_id", .num 1)]])
  intraFreqBlackCellList := none
  phyCnfg :=
    .group [("sched_request_cnfg", examplePucch 2 3), ("cqi_report_cnfg", examplePucch 2 4)]
  qciConfig := .list [exampleQci 7, exampleQci 9]

theorem parsed {file : CfgFile S} {β : Type} {f : CfgLists → β} {b : β}
    (h : (file.parse lib lte).map f = .ok b) : ∃ c, file.parse lib lte = .ok c ∧ f c = b := by
  cases hc : file.parse lib lte with
  | error e => rw [hc] at h; cases h
  | ok c =>
    rw [hc] at h
    exact ⟨c, rfl, Except.ok.inj h⟩

theorem exampleFile_fits :
    ∃ c, exampleFile.parse Conf.lib exampleLte = .ok c ∧ c.Fits exampleLte := by
  obtain ⟨c, hc, -⟩ := parsed (f := fun _ => ())
    (show (exampleFile.parse Conf.lib exampleLte).map (fun _ => ()) = .ok () by decide)
  refine ⟨c, hc, (CfgFile.fits_iff_short hc).2 ⟨by decide, ?_, ?_, ?_, ?_, ?_⟩⟩
  · rintro root ⟨⟩
    decide
  · rintro root ⟨⟩
  · exact ⟨_, _, _, rfl, rfl, rfl, by decide⟩
  · exact ⟨_, _, _, rfl, rfl, rfl, by decide⟩
  · intro i hi q s n hq hs hn
    have hi : i < 2 := hi
    obtain rfl | rfl : i = 0 ∨ i = 1 := by omega
    · obtain rfl := Except.ok.inj hq
      obtain rfl := Except.ok.inj hs
      obtain rfl := Except.ok.inj hn
      decide
    · obtain rfl := Except.ok.inj hq
      obtain rfl := Except.ok.inj hs
      obtain rfl := Except.ok.inj hn
      decide

def manySi : CfgFile Conf :=
  { exampleFile with
    schedInfo := .list (List.replicate 33 (.group [("si_periodicity", .num 5)])) }

def manyNeighbours : CfgFile Conf :=
  { exampleFile with
    intraFreqNeighCellList := some (.list (List.replicate 17
      (.group [("q_offset_range", .num 5), ("phys_cell_id", .num 1)]))) }

def largeQci : CfgFile Conf := { exampleFile with qciConfig := .list [exampleQci 10] }

def noPrb : CfgFile Conf :=
  { exampleFile with
    phyCnfg := .group [("sched_request_cnfg", examplePucch 0 3),
      ("cqi_report_cnfg", examplePucch 2 4)] }

/-- 33 SI messages, 17 neighbours, QCI 10 and an SR without PRBs are all accepted. -/
theorem not_lists_fit :
    (∃ c, manySi.parse Conf.lib exampleLte = .ok c ∧ ¬c.Fits exampleLte) ∧
      (∃ c, manyNeighbours.parse Conf.lib exampleLte = .ok c ∧ ¬c.Fits exampleLte) ∧
      (∃ c, largeQci.parse Conf.lib exampleLte = .ok c ∧ ¬c.Fits exampleLte) ∧
      ∃ c, noPrb.parse Conf.lib exampleLte = .ok c ∧ ¬c.Fits exampleLte := by
  have hsi : (manySi.parse Conf.lib exampleLte).map (·.schedInfo.size) = .ok 33 := by rfl
  have hneigh : (manyNeighbours.parse Conf.lib exampleLte).map (·.neigh.size) = .ok 17 := by rfl
  have hqci : (largeQci.parse Conf.lib exampleLte).map (fun c => (c.qciCfg 10).isSome) = .ok true :=
    rfl
  have hsr : (noPrb.parse Conf.lib exampleLte).map (·.srCfg.nofPrb) = .ok 0 := by rfl
  refine ⟨?_, ?_, ?_, ?_⟩
  · obtain ⟨c, hc, hsize⟩ := parsed hsi
    exact ⟨c, hc, fun hfits => absurd hfits.schedInfo.size (by rw [hsize]; decide)⟩
  · obtain ⟨c, hc, hsize⟩ := parsed hneigh
    exact ⟨c, hc, fun hfits => absurd hfits.neigh.size (by rw [hsize]; decide)⟩
  · obtain ⟨c, hc, hwritten⟩ := parsed hqci
    exact ⟨c, hc, fun hfits => absurd (hfits.qci 10 hwritten) (by decide)⟩
  · obtain ⟨c, hc, hprb⟩ := parsed hsr
    refine ⟨c, hc, fun hfits => ?_⟩
    obtain ⟨i, j, hi, -⟩ := hfits.sr.slot
    rw [show c.srCfg.slotCfg.nofPrb = 0 from hprb] at hi
    exact absurd hi (Nat.not_lt_zero i)

end Srsenb.Enb
