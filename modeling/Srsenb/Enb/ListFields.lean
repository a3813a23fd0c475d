import Mathlib.Tactic.Common
import Srsenb.Base.Bounded
import Srsenb.Enb.Parser

/-! # The custom fields (`enb_cfg_parser.h`, `enb_cfg_parser.cc`)

Each reads a list of settings into an array. The arrays are without an end here: the sizes that the
source gives them are numbers beside them, and a place that was not written holds nothing. -/

namespace Srsenb.Enb

/-- The array sizes and tables of `liblte_rrc.h`. -/
structure Liblte where
  /-- `LIBLTE_RRC_MAX_SI_MESSAGE` -/
  maxSiMessage : Nat
  /-- `LIBLTE_RRC_MAX_SIB` -/
  maxSib : Nat
  /-- `LIBLTE_RRC_MAX_CELL_INTRA` -/
  maxCellIntra : Nat
  /-- `LIBLTE_RRC_MAX_CELL_BLACK` -/
  maxCellBlack : Nat
  /-- `liblte_rrc_<name>_num` -/
  num : String → List Int
  /-- `liblte_rrc_<name>_text` -/
  text : String → List String

/-- An array and its recorded size. -/
structure ListOf (α : Type) where
  size : Nat := 0
  entries : Nat → Option α := fun _ => none

namespace ListOf

variable {α : Type}

/-- An assignment to the place `i`. -/
def write (d : ListOf α) (i : Nat) (e : α) : ListOf α :=
  { d with entries := Function.update d.entries i (some e) }

/-- Every entry below the recorded size was written. -/
def Filled (d : ListOf α) : Prop := ∀ i < d.size, (d.entries i).isSome = true

end ListOf

/-- `LIBLTE_RRC_SCHEDULING_INFO_STRUCT` -/
structure SchedInfo where
  siPeriodicity : Nat := 0
  sibMappingInfo : ListOf Nat := {}

/-- An entry of `intra_freq_neigh_cell_list`. -/
structure NeighCell where
  qOffsetRange : Nat
  physCellId : Nat

/-- An entry of `intra_freq_black_cell_list`. -/
structure BlackCell where
  range : Nat
  start : Nat

variable {S D α : Type}

/-! ## Numbers -/

namespace LibConfig

variable (lib : LibConfig S)

/-- `root[i]` -/
def index (root : S) (i : Nat) : Except Stop S := (lib.elem root i).mapError .thrown

/-- A setting as a `uint32_t`. -/
def uint (s : S) : Except Stop Nat := (lib.toUint s).mapError .thrown

/-- A number that has to be there. -/
def need {β : Type} (x : Option β) : Except Stop β := x.elim (.error .failed) .ok

/-- `lookupValue` of the smaller types, which cut off a larger number. -/
def lookupUint8 (s : S) (name : String) : Option Nat := (lib.lookupUint s name).map (· % 2 ^ 8)

@[inherit_doc lookupUint8]
def lookupInt8 (s : S) (name : String) : Option Int := (lib.lookupInt s name).map (·.bmod (2 ^ 8))

@[inherit_doc lookupUint8]
def lookupInt16 (s : S) (name : String) : Option Int := (lib.lookupInt s name).map (·.bmod (2 ^ 16))

end LibConfig

open LibConfig (need)

/-! ## Lists -/

/-- The loop over the first `count` settings of a list. -/
def parseList (lib : LibConfig S) (entry : S → Except Stop α) (root : S) (count : Nat)
    (d : ListOf α) : Except Stop (ListOf α) :=
  loop count (fun d i => do
    let e ← entry (← lib.index root i)
    return d.write i e) { d with size := lib.getLength root }

/-- A SIB index of `si_mapping_info`. -/
def sibType (lib : LibConfig S) (s : S) : Except Stop Nat := do
  let sibIndex ← lib.uint s
  if sibIndex ≥ 3 ∧ sibIndex ≤ 13 then return sibIndex - 3 else throw .failed

/-- A round of `field_sched_info::parse` -/
def schedInfoEntry (lib : LibConfig S) (lte : Liblte) (s : S) : Except Stop SchedInfo := do
  let periodicity ← need (lib.lookupUint s "si_periodicity")
  let k ← need ((lte.num "si_periodicity").idxOf? (periodicity : Int))
  if lib.has s "si_mapping_info" then
    let mapping ← lib.get s "si_mapping_info"
    if lib.getLength mapping < lte.maxSib then
      let sibs ← parseList lib (sibType lib) mapping (lib.getLength mapping) {}
      return ⟨k, sibs⟩
    else throw .failed
  else return ⟨k, {}⟩

/-- A round of `field_intra_neigh_cell_list::parse` -/
def neighCellEntry (lib : LibConfig S) (lte : Liblte) (s : S) : Except Stop NeighCell := do
  let qOffsetRange ← need (lib.lookupInt s "q_offset_range")
  let k ← need ((lte.num "q_offset_range").idxOf? qOffsetRange)
  let physCellId ← need (lib.lookupInt s "phys_cell_id")
  return ⟨k, (physCellId % 2 ^ 16).toNat⟩

/-- A round of `field_intra_black_cell_list::parse` -/
def blackCellEntry (lib : LibConfig S) (lte : Liblte) (s : S) : Except Stop BlackCell := do
  let range ← need (lib.lookupInt s "range")
  let k ← need ((lte.num "phys_cell_id_range").idxOf? range)
  let start ← need (lib.lookupInt s "start")
  return ⟨k, (start % 2 ^ 16).toNat⟩

/-- `field_sched_info::parse` -/
def fieldSchedInfo (lib : LibConfig S) (lte : Liblte) (root : S) (d : ListOf SchedInfo) :
    Except Stop (ListOf SchedInfo) :=
  parseList lib (schedInfoEntry lib lte) root (lib.getLength root) d

/-- `field_intra_neigh_cell_list::parse` -/
def fieldIntraNeighCellList (lib : LibConfig S) (lte : Liblte) (root : S) (d : ListOf NeighCell) :
    Except Stop (ListOf NeighCell) :=
  parseList lib (neighCellEntry lib lte) root (min (lib.getLength root) lte.maxCellIntra) d

/-- `field_intra_black_cell_list::parse` -/
def fieldIntraBlackCellList (lib : LibConfig S) (lte : Liblte) (root : S) (d : ListOf BlackCell) :
    Except Stop (ListOf BlackCell) :=
  parseList lib (blackCellEntry lib lte) root (min (lib.getLength root) lte.maxCellBlack) d

/-- `field_sf_mapping::parse` -/
def fieldSfMapping (lib : LibConfig S) (root : S) (d : ListOf Nat) : Except Stop (ListOf Nat) := do
  let subframe ← lib.get root "subframe"
  parseList lib lib.uint subframe (lib.getLength subframe) d

/-! ## What a list becomes -/

variable {lib : LibConfig S} {entry : S → Except Stop α} {root : S} {count : Nat}
  {d d' : ListOf α}

theorem bind_eq_ok {α β : Type} {x : Except Stop α} {f : α → Except Stop β} {b : β} :
    x >>= f = .ok b ↔ ∃ a, x = .ok a ∧ f a = .ok b := by
  cases x <;> simp [bind, Except.bind]

theorem parseList_succ : parseList lib entry root (count + 1) d =
    parseList lib entry root count d >>= fun d => do
      let e ← entry (← lib.index root count)
      return d.write count e := by
  rw [parseList, loop_succ]
  rfl

/-- The setting at a place of a list is a good entry. -/
def Reads (lib : LibConfig S) (entry : S → Except Stop α) (root : S) (i : Nat) (e : α) : Prop :=
  ∃ s, lib.index root i = .ok s ∧ entry s = .ok e

theorem parseList_spec (h : parseList lib entry root count d = .ok d') :
    d'.size = lib.getLength root ∧
      (∀ i < count, ∃ e, Reads lib entry root i e ∧ d'.entries i = some e) ∧
      ∀ i, count ≤ i → d'.entries i = d.entries i := by
  induction count generalizing d' with
  | zero =>
    obtain rfl : { d with size := lib.getLength root } = d' := Except.ok.inj h
    exact ⟨rfl, fun i hi => absurd hi (Nat.not_lt_zero i), fun i _ => rfl⟩
  | succ count ih =>
    rw [parseList_succ, bind_eq_ok] at h
    obtain ⟨d₁, hd₁, h⟩ := h
    obtain ⟨s, hs, h⟩ := bind_eq_ok.1 h
    obtain ⟨e, he, h⟩ := bind_eq_ok.1 h
    obtain rfl : d₁.write count e = d' := Except.ok.inj h
    obtain ⟨hsize, hbelow, habove⟩ := ih hd₁
    refine ⟨hsize, fun i hi => ?_, fun i hi => ?_⟩
    · by_cases hlast : i = count
      · subst hlast
        exact ⟨e, ⟨s, hs, he⟩, Function.update_self ..⟩
      · obtain ⟨e', hreads, hentry⟩ := hbelow i (by omega)
        exact ⟨e', hreads, (Function.update_of_ne hlast ..).trans hentry⟩
    · exact (Function.update_of_ne (by omega) ..).trans (habove i (by omega))

theorem parseList_filled (h : parseList lib entry root (lib.getLength root) d = .ok d') :
    d'.Filled := by
  obtain ⟨hsize, hbelow, -⟩ := parseList_spec h
  intro i hi
  obtain ⟨e, -, he⟩ := hbelow i (hsize ▸ hi)
  rw [he]
  rfl

/-- What stops the loop does not depend on what the array held. -/
theorem parseList_outcome (d d' : ListOf α) :
    (parseList lib entry root count d).map (fun _ => ()) =
      (parseList lib entry root count d').map (fun _ => ()) := by
  induction count with
  | zero => rfl
  | succ count ih =>
    have hround : ∀ d : ListOf α, (do
        let e ← entry (← lib.index root count)
        return d.write count e).map (fun _ => ()) =
        (lib.index root count >>= entry).map (fun _ => ()) := by
      intro d
      cases lib.index root count with
      | error e => rfl
      | ok s =>
        cases hs : entry s with
        | error e => simp [bind, Except.bind, Except.map, hs]
        | ok e => simp [bind, Except.bind, Except.map, hs, pure, Except.pure]
    rw [parseList_succ, parseList_succ]
    generalize parseList lib entry root count d = r at ih
    generalize parseList lib entry root count d' = r' at ih
    cases r <;> cases r'
    · exact ih
    · cases ih
    · cases ih
    · exact (hround _).trans (hround _).symm

/-- `field_sf_mapping`, with its place in what the section writes. -/
def sfMapping (lib : LibConfig S) (get : D → ListOf Nat) (set : ListOf Nat → D → D) :
    CustomField S D where
  parse s d := (fieldSfMapping lib s (get d)).map (set · d)
  outcome s := (fieldSfMapping lib s {}).map fun _ => ()
  parse_outcome s d := by
    have hlist : (fieldSfMapping lib s (get d)).map (fun _ => ()) =
        (fieldSfMapping lib s {}).map fun _ => () := by
      rw [fieldSfMapping, fieldSfMapping]
      cases lib.get s "subframe" with
      | error e => rfl
      | ok subframe => exact parseList_outcome (get d) {}
    rw [← hlist]
    cases fieldSfMapping lib s (get d) <;> rfl

end Srsenb.Enb
