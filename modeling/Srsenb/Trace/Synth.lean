import Mathlib.Data.PNat.Defs
import Srsenb.Trace.OffOnDist

/-! # The length that synthesis fills (`synth.m`, `get01.m`) -/

open Srsenb.Pulses

namespace Srsenb.Pulses

/-- The pulses that the first `n` elements have. -/
def truncate : Nat → List (Nat × Nat) → List (Nat × Nat)
  | _, [] => []
  | n, p :: ps => (min p.1 n, min p.2 (n - p.1)) :: truncate (n - p.1 - p.2) ps

theorem take_wave (n : Nat) (ps : List (Nat × Nat)) : (wave ps).take n = wave (truncate n ps) := by
  induction ps generalizing n with
  | nil => rw [truncate, wave_nil, List.take_nil]
  | cons p ps ih =>
    rw [truncate, wave_cons, wave_cons, ← ih, List.append_assoc, List.append_assoc,
      List.take_append, List.take_append, List.take_replicate, List.take_replicate,
      List.length_replicate, List.length_replicate, Nat.min_comm n, Nat.min_comm (n - p.1)]

theorem mem_wave {ps : List (Nat × Nat)} {x : Int} (h : x ∈ wave ps) : x = 0 ∨ x = 1 := by
  obtain ⟨p, -, hx⟩ := List.mem_flatMap.1 h
  rcases List.mem_append.1 hx with hx | hx
  · exact Or.inl (List.eq_of_mem_replicate hx)
  · exact Or.inr (List.eq_of_mem_replicate hx)

end Srsenb.Pulses

namespace Srsenb.Trace

/-- Draws that are positive, and so at least 1 once they are rounded up. -/
structure PositiveDraws extends Stats where
  value_pos : ∀ d, 0 < value d

variable (s : PositiveDraws)

/-- `sum` of a cell -/
def total (cell : List Draw) : Int := (cell.map s.value).sum

/-- What `synth` makes of one channel: as many off as on times, that fill the length, and would not
without their last pair. -/
structure Fills (fitLength : Nat) (odd even : List Draw) : Prop where
  same : odd.length = even.length
  rounds : odd.length ≤ fitLength
  long : fitLength ≤ total s odd + total s even
  short : total s odd.dropLast + total s even.dropLast < fitLength

/-- The durations of a channel. -/
def durations (odd even : List Draw) : List (Nat × Nat) :=
  (odd.zip even).map fun d => ((s.value d.1).toNat, (s.value d.2).toNat)

variable {s} {fitLength fuel n n' : Nat} {m1 m2 : Pd} {odd even odd' even' : List Draw}

theorem length_le_total (cell : List Draw) : (cell.length : Int) ≤ total s cell := by
  induction cell with
  | nil => exact Int.le_refl 0
  | cons d cell ih =>
    have hd := s.value_pos d
    have hsum : total s (d :: cell) = s.value d + total s cell := List.sum_cons
    rw [hsum, List.length_cons]
    push_cast
    omega

/-! ## One channel -/

/-- Each round keeps what a round before it left short. -/
theorem fills_of_synthWhile (h : synthWhile s.toStats (m1, m2) fitLength fuel odd even n =
      some (odd', even', n'))
    (hsame : odd.length = even.length)
    (hshort : total s odd.dropLast + total s even.dropLast < fitLength) :
    Fills s fitLength odd' even' := by
  induction fuel generalizing odd even n with
  | zero => cases h
  | succ fuel ih =>
    unfold synthWhile at h
    split_ifs at h with hlt
    · apply ih h
      · simp only [List.length_append, List.length_singleton, hsame]
      · rw [List.dropLast_concat, List.dropLast_concat]
        exact hlt
    · obtain ⟨rfl, rfl, -⟩ := Prod.mk.inj (Option.some.inj h) |>.imp_right Prod.mk.inj
      have hodd := length_le_total (s := s) odd.dropLast
      have heven := length_le_total (s := s) even.dropLast
      rw [List.length_dropLast] at hodd heven
      exact ⟨hsame, by omega, not_lt.1 hlt, hshort⟩

theorem durations_eq (hsame : odd.length = even.length) :
    (durations s odd even).map (fun p => (p.1 : Int)) = odd.map s.value ∧
      (durations s odd even).map (fun p => (p.2 : Int)) = even.map s.value := by
  have hcast : ∀ d, ((s.value d).toNat : Int) = s.value d := fun d =>
    Int.toNat_of_nonneg (Int.le_of_lt (s.value_pos d))
  unfold durations
  rw [List.map_map, List.map_map]
  constructor
  · have hfst : (odd.zip even).map Prod.fst = odd := List.map_fst_zip hsame.le
    rw [← hfst, List.map_map, hfst]
    exact List.map_congr_left fun d _ => hcast d.1
  · have hsnd : (odd.zip even).map Prod.snd = even := List.map_snd_zip hsame.ge
    rw [← hsnd, List.map_map, hsnd]
    exact List.map_congr_left fun d _ => hcast d.2

theorem proper_durations (odd even : List Draw) : Proper (durations s odd even) := by
  intro p hp
  obtain ⟨d, -, rfl⟩ := List.mem_map.1 hp
  have h1 := s.value_pos d.1
  have h2 := s.value_pos d.2
  simp only
  omega

theorem length_wave_eq (ps : List (Nat × Nat)) : ((wave ps).length : Int) =
    (ps.map fun p => (p.1 : Int)).sum + (ps.map fun p => (p.2 : Int)).sum := by
  induction ps with
  | nil => rfl
  | cons p ps ih =>
    rw [wave_cons, List.length_append, List.length_append, List.length_replicate,
      List.length_replicate, List.map_cons, List.map_cons, List.sum_cons, List.sum_cons]
    push_cast
    omega

/-- The decoder cuts pulses that are long enough. -/
theorem get01Column_take {ps : List (Nat × Nat)} (h : fitLength ≤ (wave ps).length) :
    get01Column fitLength (ps.map fun p => (p.1 : Int)) (ps.map fun p => (p.2 : Int)) =
      some (.values (wave (truncate fitLength ps))) := by
  have hloop := cycles01 [] ps
  have hlong : ¬ ((wave ps).length : Int) < fitLength := by omega
  unfold get01Column
  rw [interleave_map]
  simp only [Option.bind_eq_bind, Option.bind_some, sum_offOnOf, if_neg hlong,
    Int.toNat_natCast, List.length_map]
  simp only [List.nil_append, wave_nil, List.length_nil, Nat.zero_add, Nat.add_zero] at hloop
  simp only [hloop, Option.bind_some, take_wave]

theorem Fills.le_length (h : Fills s fitLength odd even) :
    fitLength ≤ (wave (durations s odd even)).length := by
  obtain ⟨hoff, hon⟩ := durations_eq (s := s) h.same
  have htotal := h.long
  have hlen := length_wave_eq (durations s odd even)
  rw [hoff, hon] at hlen
  unfold total at htotal
  omega

theorem Fills.get01Column (h : Fills s fitLength odd even) :
    get01Column fitLength (odd.map s.value) (even.map s.value) =
      some (.values (wave (truncate fitLength (durations s odd even)))) := by
  obtain ⟨hoff, hon⟩ := durations_eq (s := s) h.same
  rw [← hoff, ← hon]
  exact get01Column_take h.le_length

/-! ## All channels -/

/-- What `synth` and then `get01` make of channel `i`. -/
structure Synthesized (s : PositiveDraws) (fitLength : Nat) (cells : List (List Draw))
    (columns : List Column) (i : Nat) (odd even : List Draw) : Prop where
  oddCell : cells[2 * i]? = some odd
  evenCell : cells[2 * i + 1]? = some even
  fills : Fills s fitLength odd even
  proper : Proper (durations s odd even)
  column : columns[i]? = some (.values (wave (truncate fitLength (durations s odd even))))
  length : (wave (truncate fitLength (durations s odd even))).length = fitLength
  zeroOne : ∀ x ∈ wave (truncate fitLength (durations s odd even)), x = 0 ∨ x = 1

/-- **Synthesis fills the length** in at most as many rounds per channel as it has, whatever the
positive draws, and the decoder gives each channel its durations, cut at the length. -/
theorem synth_fills (s : PositiveDraws) (offOnModel : Pd × Pd) (fitLength : ℕ+)
    (fitChannel n : Nat) : ∃ cells columns,
      synth s.toStats offOnModel fitLength (fitLength + 1) fitChannel n = some cells ∧
      cells.length = 2 * fitChannel ∧
      get01 fitLength (cells.map (List.map s.value)) = some columns ∧
      columns.length = fitChannel ∧
      ∀ i < fitChannel, ∃ odd even, Synthesized s fitLength cells columns i odd even := by
  have hfit := fitLength.pos
  induction fitChannel generalizing n with
  | zero => exact ⟨[], [], rfl, rfl, rfl, rfl, fun i hi => absurd hi (Nat.not_lt_zero i)⟩
  | succ fitChannel ih =>
    have hsome :
        (synthWhile s.toStats offOnModel fitLength (fitLength + 1) [] [] n).isSome = true :=
      synthWhile_isSome s.value_pos (by simp) (by omega)
    obtain ⟨⟨odd, even, n'⟩, hwhile⟩ := Option.isSome_iff_exists.1 hsome
    have hfills : Fills s fitLength odd even :=
      fills_of_synthWhile hwhile rfl (by simp [total])
    obtain ⟨cells, columns, hsynth, hlen, hget, hcols, hall⟩ := ih n'
    refine ⟨odd :: even :: cells,
      .values (wave (truncate fitLength (durations s odd even))) :: columns, ?_, ?_, ?_, ?_, ?_⟩
    · unfold synth
      rw [hwhile]
      simp only [Option.bind_eq_bind, Option.bind_some, hsynth]
    · simp only [List.length_cons, hlen]
      omega
    · rw [List.map_cons, List.map_cons, get01, hfills.get01Column, hget]
      rfl
    · rw [List.length_cons, hcols]
    · intro i hi
      cases i with
      | zero =>
        refine ⟨odd, even, rfl, rfl, hfills, proper_durations odd even, rfl, ?_, fun x => mem_wave⟩
        rw [← take_wave, List.length_take, Nat.min_eq_left hfills.le_length]
      | succ i =>
        obtain ⟨odd', even', h⟩ := hall i (by omega)
        exact ⟨odd', even', h.oddCell, h.evenCell, h.fills, h.proper, h.column, h.length, h.zeroOne⟩

end Srsenb.Trace
