import Mathlib.Data.List.Chain
import Mathlib.Data.List.Range
import Srsenb.Base.Vectors

/-! # Packet records on the time axis (`rbusage5.m`)

The records of a file are stored in the rows of their TTIs, and the TTIs between them get rows
without RNTIs. -/

open Srsenb.Vec

namespace Srsenb.Trace.Packets

/-- A row of three cells; a cell that nothing was assigned to is empty. -/
structure Row (ρ : Type) where
  tti : Option Int
  nofRntis : Option Nat
  details : Option (List ρ)
  deriving DecidableEq

/-- `cell(1,3)`. It fills the rows that a write past the end adds. -/
instance {ρ : Type} : Zero (Row ρ) := ⟨⟨none, none, none⟩⟩

/-- What `read_one_tti` returns; `details` is `none` where the file ends before a TTI does. -/
structure Reading (ρ : Type) where
  tti : Int
  details : Option (List ρ)
  fileEnd : Bool

/-- `record` -/
def Reading.record {ρ : Type} (r : Reading ρ) : Row ρ :=
  match r.details with
  | none => 0
  | some details => ⟨some r.tti, some details.length, some details⟩

/-- `record{2} > 0` -/
def Row.used {ρ : Type} (row : Row ρ) : Bool := decide (0 < row.nofRntis.getD 0)

section Script

variable {ρ : Type}

/-- The variables that a file starts with anew. -/
structure FileState (ρ : Type) where
  fileData : List (Row ρ)
  previousTti : Int

def FileState.start : FileState ρ := ⟨[0], -1⟩

/-- The two assignments to `file_data{end-j,:}`. -/
def fillRow (tti : Int) (fileData : List (Row ρ)) (j : Nat) : List (Row ρ) :=
  fileData.modify (fileData.length - j - 1) fun row =>
    { row with tti := some (((tti - j).natAbs : Int) % 10240), nofRntis := some 0 }

/-- What is done with a record of some RNTIs. -/
def FileState.store (s : FileState ρ) (r : Reading ρ) : FileState ρ :=
  if s.previousTti = -1 then ⟨[r.record], r.tti⟩
  else
    let diff := ((r.tti + 10240 - s.previousTti) % 10240).toNat
    let fileData := put s.fileData (s.fileData.length + diff) r.record
    if diff > 1 then ⟨(List.range' 1 (diff - 1)).foldl (fillRow r.tti) fileData, r.tti⟩
    else ⟨fileData, r.tti⟩

structure State (ρ : Type) where
  file : FileState ρ
  saved : List (List (Row ρ))

/-- A round of the loop over the records. -/
def State.step (s : State ρ) (r : Reading ρ) : State ρ :=
  let file := if r.record.used then s.file.store r else s.file
  if r.fileEnd then ⟨.start, s.saved ++ [file.fileData]⟩ else ⟨file, s.saved⟩

/-- `file_data` of each file that is saved. -/
def rbusage5 (readings : List (Reading ρ)) : List (List (Row ρ)) :=
  (readings.foldl State.step ⟨.start, []⟩).saved

/-- What is read from a file, with the TTIs of records in range. -/
structure File (ρ : Type) where
  front : List (Reading ρ)
  last : Reading ρ
  front_open : ∀ r ∈ front, r.fileEnd = false
  last_ends : last.fileEnd = true
  inRange : ∀ r ∈ front ++ [last], r.record.used = true → 0 ≤ r.tti ∧ r.tti < 10240

def File.readings (f : File ρ) : List (Reading ρ) := f.front ++ [f.last]

/-- The records with at least one RNTI. -/
def File.records (f : File ρ) : List (Reading ρ) := f.readings.filter fun r => r.record.used

/-- The TTIs are consecutive. -/
def Next (tti next : Option Int) : Prop := ∃ t, tti = some t ∧ next = some ((t + 1) % 10240)

/-- `file_data` has the records on the time axis. -/
structure Kept (records : List (Reading ρ)) (fileData : List (Row ρ)) : Prop where
  consecutive : (fileData.map Row.tti).IsChain Next
  first : ∀ r ∈ records.head?, ∃ row ∈ fileData.head?, row.tti = some r.tti
  last : ∀ r ∈ records.getLast?, ∃ row ∈ fileData.getLast?, row.tti = some r.tti
  stored : fileData.filter Row.used = records.map Reading.record
  skipped : records ≠ [] → ∀ row ∈ fileData, row.used = false → row.nofRntis = some 0

/-- What comes after a record: a later TTI, or after the last TTI of the counter any other. -/
def Follows (previous r : Reading ρ) : Prop :=
  r.tti ≠ previous.tti ∧ (previous.tti < r.tti ∨ previous.tti = 10239)

end Script

/-! ## What a record adds -/

section Store

variable {ρ : Type} {s : FileState ρ} {r : Reading ρ}

/-- A row that is filled in. -/
def gapRow (tti : Int) (j : Nat) : Row ρ :=
  ⟨some (((tti - j).natAbs : Int) % 10240), some 0, none⟩

theorem modify_append_cons {α : Type} (f : α → α) (u v : List α) (x : α) :
    (u ++ x :: v).modify u.length f = u ++ f x :: v := by
  induction u with
  | nil => rfl
  | cons y u ih => rw [List.cons_append, List.length_cons, List.modify_succ_cons, ih]; rfl

/-- The gap is filled from its last row to its first. -/
theorem foldl_fillRow (tti : Int) (fileData done : List (Row ρ)) (m : Nat) {b : Nat}
    (hb : done.length = b) :
    (List.range' b m).foldl (fillRow tti) (fileData ++ List.replicate m 0 ++ done) =
      fileData ++ ((List.range' b m).reverse.map (gapRow tti) ++ done) := by
  induction m generalizing b done with
  | zero => simp
  | succ m ih =>
    have hplace : fileData ++ List.replicate (m + 1) 0 ++ done =
        (fileData ++ List.replicate m 0) ++ 0 :: done := by
      simp [List.replicate_succ']
    have hidx : ((fileData ++ List.replicate m 0) ++ 0 :: done).length - b - 1 =
        (fileData ++ List.replicate m (0 : Row ρ)).length := by
      rw [List.length_append, List.length_cons]
      omega
    rw [List.range'_succ, List.foldl_cons, fillRow, hplace, hidx, modify_append_cons,
      ih _ (by rw [List.length_cons, hb])]
    simp [gapRow]
    rfl

/-- A record of the TTI before is stored in its row. -/
theorem store_same (hp : s.previousTti ≠ -1) (h : r.tti = s.previousTti) :
    s.store r = ⟨s.fileData.set (s.fileData.length - 1) r.record, r.tti⟩ := by
  have hdiff : ((r.tti + 10240 - s.previousTti) % 10240).toNat = 0 := by omega
  unfold FileState.store
  rw [if_neg hp, hdiff]
  simp [put]

/-- Another record is stored after a gap. -/
theorem store_gap (hp : s.previousTti ≠ -1) {m : Nat}
    (h : ((r.tti + 10240 - s.previousTti) % 10240).toNat = m + 1) :
    s.store r =
      ⟨s.fileData ++ ((List.range' 1 m).reverse.map (gapRow r.tti) ++ [r.record]), r.tti⟩ := by
  have hput : put s.fileData (s.fileData.length + (m + 1)) r.record =
      s.fileData ++ List.replicate m 0 ++ [r.record] := by
    unfold put
    rw [if_neg (by omega), show s.fileData.length + (m + 1) - 1 - s.fileData.length = m by omega]
  unfold FileState.store
  simp only [if_neg hp, h, hput, Nat.add_sub_cancel]
  split_ifs with hm
  · rw [foldl_fillRow r.tti s.fileData [r.record] m (List.length_singleton)]
  · obtain rfl : m = 0 := by omega
    simp

theorem tti_of_used (h : r.record.used = true) : r.record.tti = some r.tti := by
  unfold Reading.record at h ⊢
  split at h
  · cases h
  · rfl

end Store

/-! ## The time axis -/

section Axis

variable {previous tti : Int} {m : Nat}

/-- The TTIs of the rows that a record adds: `m` of them are filled in. -/
def axis (tti : Int) (m : Nat) : List (Option Int) :=
  (List.range (m + 1)).reverse.map fun j : Nat => some (((tti - j).natAbs : Int) % 10240)

/-- The TTIs that are added continue the time axis unless the gap has the end of the counter in
it. -/
theorem axis_iff (hp : 0 ≤ previous ∧ previous < 10240) (ht : 0 ≤ tti ∧ tti < 10240)
    (hm : ((tti + 10240 - previous) % 10240).toNat = m + 1) :
    ((axis tti m).IsChain Next ∧
        Next (some previous) (some (((tti - m).natAbs : Int) % 10240))) ↔
      previous < tti ∨ previous = 10239 := by
  unfold axis
  rw [List.isChain_map, List.isChain_reverse, ← Nat.succ_eq_add_one, List.isChain_range_succ]
  constructor
  · rintro ⟨hchain, -⟩
    by_contra hnot
    obtain ⟨t, ht', hnext⟩ := hchain tti.toNat (by omega)
    simp only [Option.some.injEq] at ht' hnext
    omega
  · intro h
    refine ⟨fun j hj => ⟨_, rfl, ?_⟩, ⟨_, rfl, ?_⟩⟩
    · simp only [Option.some.injEq, Nat.succ_eq_add_one]
      omega
    · simp only [Option.some.injEq]
      omega

end Axis

/-! ## The records of a file -/

section Records

variable {ρ : Type} {records : List (Reading ρ)} {r p : Reading ρ} {front : List (Row ρ)}

/-- The state after the records of a file. -/
def gather (records : List (Reading ρ)) : FileState ρ := records.foldl FileState.store .start

theorem gather_concat (records : List (Reading ρ)) (r : Reading ρ) :
    gather (records ++ [r]) = (gather records).store r := by
  rw [gather, List.foldl_append]
  rfl

/-- A record with some RNTIs and a TTI of the counter. -/
structure InRange (r : Reading ρ) : Prop where
  used : r.record.used = true
  nonneg : 0 ≤ r.tti
  lt : r.tti < 10240

/-- What the state keeps of the last of the records. -/
structure Gathered (records : List (Reading ρ)) (last : Reading ρ) (s : FileState ρ) : Prop where
  previous : s.previousTti = last.tti
  row : ∃ front, s.fileData = front ++ [last.record]
  count : (s.fileData.filter Row.used).length ≤ records.length

theorem filter_gap (tti : Int) (l : List Nat) :
    (l.map (gapRow tti : Nat → Row ρ)).filter Row.used = [] := by
  rw [List.filter_eq_nil_iff]
  intro row hrow
  obtain ⟨j, -, rfl⟩ := List.mem_map.1 hrow
  exact Bool.false_ne_true

theorem filter_concat (h : r.record.used = true) (rows : List (Row ρ)) :
    (rows ++ [r.record]).filter Row.used = rows.filter Row.used ++ [r.record] := by
  rw [List.filter_append, List.filter_cons_of_pos h, List.filter_nil]

theorem set_last {α : Type} (front : List α) (x y : α) :
    (front ++ [x]).set ((front ++ [x]).length - 1) y = front ++ [y] := by
  rw [List.length_append, List.length_singleton, Nat.add_sub_cancel,
    List.set_append_right _ _ (Nat.le_refl _), Nat.sub_self, List.set_cons_zero]

/-- A record is stored over the one before, or after a gap. -/
theorem store_cases {s : FileState ρ} (hs : Gathered records p s) (hp : InRange p)
    (hr : InRange r) :
    (r.tti = p.tti ∧ ∃ front, s.fileData = front ++ [p.record] ∧
      s.store r = ⟨front ++ [r.record], r.tti⟩) ∨
    r.tti ≠ p.tti ∧ ∃ m, ((r.tti + 10240 - p.tti) % 10240).toNat = m + 1 ∧
      s.store r =
        ⟨s.fileData ++ ((List.range' 1 m).reverse.map (gapRow r.tti) ++ [r.record]), r.tti⟩ := by
  have hprevious := hs.previous
  have hp0 := hp.nonneg
  have hp1 := hp.lt
  have hr0 := hr.nonneg
  have hr1 := hr.lt
  by_cases heq : r.tti = p.tti
  · obtain ⟨front, hfront⟩ := hs.row
    refine Or.inl ⟨heq, front, hfront, ?_⟩
    rw [store_same (by omega) (by omega), hfront, set_last]
  · obtain ⟨m, hm⟩ := Nat.exists_eq_add_one_of_ne_zero
      (show ((r.tti + 10240 - p.tti) % 10240).toNat ≠ 0 by omega)
    exact Or.inr ⟨heq, m, hm, store_gap (by omega) (by rw [hprevious, hm])⟩

theorem gathered (hall : ∀ x ∈ records ++ [r], InRange x) :
    Gathered (records ++ [r]) r (gather (records ++ [r])) := by
  induction records using List.reverseRecOn generalizing r with
  | nil => exact ⟨rfl, ⟨[], rfl⟩, List.length_filter_le _ _⟩
  | append_singleton records p ih =>
    have hp := ih fun x hx => hall x (List.mem_append_left _ hx)
    have hr := hall r (by simp)
    have hcount := hp.count
    have hlen : (records ++ [p] ++ [r]).length = (records ++ [p]).length + 1 := List.length_append
    rw [gather_concat]
    rcases store_cases hp (hall p (by simp)) hr with ⟨-, front, hfront, heq⟩ | ⟨-, m, -, heq⟩
    · refine ⟨by rw [heq], ⟨front, by rw [heq]⟩, ?_⟩
      rw [hfront, filter_concat (hall p (by simp)).used, List.length_append,
        List.length_singleton] at hcount
      rw [heq, filter_concat hr.used, List.length_append, List.length_singleton, hlen]
      omega
    · refine ⟨by rw [heq], ⟨_, by rw [heq, ← List.append_assoc]⟩, ?_⟩
      rw [heq, ← List.append_assoc, filter_concat hr.used, List.filter_append, filter_gap,
        List.append_nil, List.length_append, List.length_singleton, hlen]
      omega

/-- The TTIs of the rows that are added. -/
theorem map_tti_added (hr : InRange r) (m : Nat) :
    ((List.range' 1 m).reverse.map (gapRow r.tti) ++ [r.record]).map Row.tti = axis r.tti m := by
  have h0 := hr.nonneg
  have h1 := hr.lt
  have hlast : ((r.tti - (0 : Nat)).natAbs : Int) % 10240 = r.tti := by omega
  rw [axis, List.range_eq_range', List.range'_succ, List.reverse_cons, List.map_append,
    List.map_append, List.map_map, List.map_singleton, List.map_singleton, hlast,
    tti_of_used hr.used]
  rfl

theorem axis_cons (tti : Int) (m : Nat) :
    ∃ rest, axis tti m = some (((tti - m).natAbs : Int) % 10240) :: rest := by
  rw [axis, List.range_succ, List.reverse_append]
  exact ⟨_, rfl⟩

/-- A record over another one is lost. -/
theorem not_kept_of_same (hall : ∀ x ∈ records ++ [p] ++ [r], InRange x) (h : r.tti = p.tti) :
    ¬ Kept (records ++ [p] ++ [r]) (gather (records ++ [p] ++ [r])).fileData := by
  intro hkept
  have hp := gathered fun x hx => hall x (List.mem_append_left _ hx)
  have hstored := congrArg List.length hkept.stored
  have hcount := hp.count
  rw [gather_concat] at hstored
  rcases store_cases hp (hall p (by simp)) (hall r (by simp)) with
    ⟨-, front, hfront, heq⟩ | ⟨hne, -⟩
  · rw [hfront, filter_concat (hall p (by simp)).used] at hcount
    rw [heq, filter_concat (hall r (by simp)).used] at hstored
    simp only [List.length_append, List.length_singleton, List.length_map] at hcount hstored
    omega
  · exact hne h

/-- The rows that are added continue a time axis that ends with the record before. -/
theorem isChain_added_iff (hp : InRange p) (hr : InRange r) {m : Nat}
    (hm : ((r.tti + 10240 - p.tti) % 10240).toNat = m + 1) (front : List (Row ρ)) :
    ((front ++ [p.record] ++
        ((List.range' 1 m).reverse.map (gapRow r.tti) ++ [r.record])).map Row.tti).IsChain Next ↔
      ((front ++ [p.record]).map Row.tti).IsChain Next ∧ (p.tti < r.tti ∨ p.tti = 10239) := by
  have hlast : ((front ++ [p.record]).map Row.tti).getLast? = some (some p.tti) := by
    rw [List.map_append, List.map_singleton, List.getLast?_concat, tti_of_used hp.used]
  obtain ⟨rest, hrest⟩ := axis_cons r.tti m
  have hhead : (axis r.tti m).head? = some (some (((r.tti - m).natAbs : Int) % 10240)) := by
    rw [hrest, List.head?_cons]
  rw [List.map_append, map_tti_added hr, List.isChain_append, hlast, hhead,
    ← axis_iff ⟨hp.nonneg, hp.lt⟩ ⟨hr.nonneg, hr.lt⟩ hm]
  simp only [Option.mem_def, Option.some.injEq, forall_eq']

theorem head?_concat_append {α : Type} (l m : List α) (x : α) :
    (l ++ [x] ++ m).head? = (l ++ [x]).head? := by
  cases l <;> rfl

theorem filter_added (hr : r.record.used = true) (rows : List (Row ρ)) (l : List Nat) :
    (rows ++ (l.map (gapRow r.tti) ++ [r.record])).filter Row.used =
      rows.filter Row.used ++ [r.record] := by
  rw [List.filter_append, filter_concat hr, filter_gap, List.nil_append]

/-- Rows that are kept with the ones that were added are kept without them. -/
theorem Kept.of_added (hp : InRange p) (hr : InRange r) {l : List Nat}
    (h : Kept (records ++ [p] ++ [r])
      (front ++ [p.record] ++ (l.map (gapRow r.tti) ++ [r.record]))) :
    Kept (records ++ [p]) (front ++ [p.record]) := by
  refine ⟨?_, fun x hx => ?_, fun x hx => ?_, ?_, fun _ row hrow => ?_⟩
  · have hchain := h.consecutive
    rw [List.map_append] at hchain
    exact hchain.left_of_append
  · obtain ⟨row, hrow, htti⟩ := h.first x (by rwa [head?_concat_append])
    rw [head?_concat_append] at hrow
    exact ⟨row, hrow, htti⟩
  · rw [List.getLast?_concat, Option.mem_some_iff] at hx
    exact ⟨p.record, List.getLast?_concat, hx ▸ tti_of_used hp.used⟩
  · have hstored := h.stored
    rw [filter_added hr.used] at hstored
    exact List.append_cancel_right (hstored.trans List.map_append)
  · exact h.skipped (by simp) row (List.mem_append_left _ hrow)

/-- Rows that continue the time axis are kept with those before. -/
theorem Kept.added (h : Kept (records ++ [p]) (front ++ [p.record])) (hr : InRange r)
    {l : List Nat}
    (hchain : ((front ++ [p.record] ++
      (l.map (gapRow r.tti) ++ [r.record])).map Row.tti).IsChain Next) :
    Kept (records ++ [p] ++ [r])
      (front ++ [p.record] ++ (l.map (gapRow r.tti) ++ [r.record])) := by
  refine ⟨hchain, fun x hx => ?_, fun x hx => ?_, ?_, fun _ row hrow hnot => ?_⟩
  · rw [head?_concat_append] at hx ⊢
    exact h.first x hx
  · rw [List.getLast?_concat, Option.mem_some_iff] at hx
    refine ⟨r.record, ?_, hx ▸ tti_of_used hr.used⟩
    rw [← List.append_assoc, List.getLast?_concat]
    rfl
  · rw [filter_added hr.used, h.stored, ← List.map_singleton, ← List.map_append]
  · rcases List.mem_append.1 hrow with hrow | hrow
    · exact h.skipped (by simp) row hrow hnot
    · rcases List.mem_append.1 hrow with hrow | hrow
      · obtain ⟨j, -, rfl⟩ := List.mem_map.1 hrow
        rfl
      · rw [List.mem_singleton.1 hrow, hr.used] at hnot
        cases hnot

theorem kept_of_gap_iff (hall : ∀ x ∈ records ++ [p] ++ [r], InRange x) (h : r.tti ≠ p.tti) :
    Kept (records ++ [p] ++ [r]) (gather (records ++ [p] ++ [r])).fileData ↔
      Kept (records ++ [p]) (gather (records ++ [p])).fileData ∧
        (p.tti < r.tti ∨ p.tti = 10239) := by
  have hs := gathered fun x hx => hall x (List.mem_append_left _ hx)
  have hp := hall p (by simp)
  have hr := hall r (by simp)
  rw [gather_concat]
  rcases store_cases hs hp hr with ⟨heq, -⟩ | ⟨-, m, hm, heq⟩
  · exact absurd heq h
  · obtain ⟨front, hfront⟩ := hs.row
    have hchain := isChain_added_iff hp hr hm front
    rw [heq, hfront]
    constructor
    · intro hkept
      exact ⟨hkept.of_added hp hr, (hchain.1 hkept.consecutive).2⟩
    · rintro ⟨hkept, hlt⟩
      exact hkept.added hr (hchain.2 ⟨hkept.consecutive, hlt⟩)

/-- The records of a file are on the time axis if each of them follows the one before. -/
theorem kept_gather_iff (hall : ∀ x ∈ records, InRange x) :
    Kept records (gather records).fileData ↔ records.IsChain Follows := by
  induction records using List.reverseRecOn with
  | nil =>
    refine iff_of_true ⟨List.isChain_singleton _, ?_, ?_, rfl, fun h => absurd rfl h⟩
      List.isChain_nil
    · rintro r ⟨⟩
    · rintro r ⟨⟩
  | append_singleton records r ih =>
    have hr := hall r (by simp)
    cases records using List.reverseRecOn with
    | nil =>
      refine iff_of_true ⟨List.isChain_singleton _, ?_, ?_, ?_, ?_⟩ (List.isChain_singleton _)
      · rintro _ ⟨⟩
        exact ⟨_, rfl, tti_of_used hr.used⟩
      · rintro _ ⟨⟩
        exact ⟨_, rfl, tti_of_used hr.used⟩
      · exact filter_concat hr.used []
      · intro _ row hrow hnot
        rw [List.mem_singleton.1 hrow, hr.used] at hnot
        cases hnot
    | append_singleton records p =>
      have hfollows : (records ++ [p] ++ [r]).IsChain Follows ↔
          (records ++ [p]).IsChain Follows ∧ Follows p r := by
        rw [List.isChain_append]
        simp
      rw [hfollows, ← ih fun x hx => hall x (List.mem_append_left _ hx)]
      by_cases heq : r.tti = p.tti
      · exact iff_of_false (not_kept_of_same hall heq) fun h => h.2.1 heq
      · rw [kept_of_gap_iff hall heq, Follows]
        simp only [ne_eq, heq, not_false_eq_true, true_and]

end Records

/-! ## The files -/

section Files

variable {ρ : Type}

/-- Until a file ends, its records are stored. -/
theorem foldl_step_open {readings : List (Reading ρ)} (h : ∀ r ∈ readings, r.fileEnd = false)
    (s : FileState ρ) (saved : List (List (Row ρ))) :
    readings.foldl State.step ⟨s, saved⟩ =
      ⟨(readings.filter fun r => r.record.used).foldl FileState.store s, saved⟩ := by
  induction readings generalizing s with
  | nil => rfl
  | cons r readings ih =>
    have hopen := h r List.mem_cons_self
    have hrest := fun s => ih (fun x hx => h x (List.mem_cons_of_mem r hx)) s
    rw [List.foldl_cons, State.step, hopen, List.filter_cons]
    cases r.record.used with
    | false => exact hrest s
    | true => exact hrest (s.store r)

theorem File.foldl_step (f : File ρ) (saved : List (List (Row ρ))) :
    f.readings.foldl State.step ⟨.start, saved⟩ =
      ⟨.start, saved ++ [(gather f.records).fileData]⟩ := by
  have hgather : gather f.records =
      if f.last.record.used then
        (gather (f.front.filter fun r => r.record.used)).store f.last
      else gather (f.front.filter fun r => r.record.used) := by
    rw [File.records, File.readings, List.filter_append, List.filter_cons, List.filter_nil]
    cases f.last.record.used with
    | false => exact congrArg gather (List.append_nil _)
    | true => exact gather_concat _ _
  rw [File.readings, List.foldl_append, foldl_step_open f.front_open, List.foldl_cons,
    List.foldl_nil, State.step, f.last_ends, if_pos rfl, hgather]
  rfl

theorem rbusage5_files (files : List (File ρ)) :
    rbusage5 (files.flatMap File.readings) =
      files.map fun f => (gather f.records).fileData := by
  have hrun : ∀ saved, (files.flatMap File.readings).foldl State.step ⟨.start, saved⟩ =
      (⟨.start, saved ++ files.map fun f => (gather f.records).fileData⟩ : State ρ) := by
    induction files with
    | nil => simp
    | cons f files ih =>
      intro saved
      rw [List.flatMap_cons, List.foldl_append, f.foldl_step, ih, List.map_cons, List.append_assoc,
        List.singleton_append]
  rw [rbusage5, hrun, List.nil_append]

theorem File.records_inRange (f : File ρ) : ∀ r ∈ f.records, InRange r := by
  intro r hr
  obtain ⟨hmem, hused⟩ := List.mem_filter.1 hr
  obtain ⟨h0, h1⟩ := f.inRange r hmem hused
  exact ⟨hused, h0, h1⟩

/-- **Packet records** of a file, whatever files are processed before it and after it: they are kept
on the time axis if no TTI comes twice in a row and no gap has the end of the counter in it. -/
theorem File.kept_iff (before after : List (File ρ)) (f : File ρ) :
    (∃ fileData, (rbusage5 ((before ++ f :: after).flatMap File.readings))[before.length]? =
        some fileData ∧ Kept f.records fileData) ↔ f.records.IsChain Follows := by
  have hsaved : (rbusage5 ((before ++ f :: after).flatMap File.readings))[before.length]? =
      some (gather f.records).fileData := by
    rw [rbusage5_files, List.getElem?_map, List.getElem?_append_right (Nat.le_refl _), Nat.sub_self]
    rfl
  rw [hsaved, ← kept_gather_iff f.records_inRange]
  simp only [Option.some.injEq, exists_eq_left']

/-- Records of the last TTI but one of the counter and of the first one. -/
def overTheEnd : File Unit where
  front := [⟨10238, some [()], false⟩]
  last := ⟨0, some [()], true⟩
  front_open := by simp
  last_ends := rfl
  inRange := by decide

/-- The row between them is of TTI 1. -/
theorem overTheEnd_not_kept : ¬ ∃ fileData, rbusage5 overTheEnd.readings = [fileData] ∧
    Kept overTheEnd.records fileData := by
  rintro ⟨fileData, hsaved, hkept⟩
  have hrows : rbusage5 overTheEnd.readings =
      [[⟨some 10238, some 1, some [()]⟩, ⟨some 1, some 0, none⟩, ⟨some 0, some 1, some [()]⟩]] := by
    decide
  obtain rfl := List.singleton_inj.1 (hrows.symm.trans hsaved)
  obtain ⟨t, ht, hnext⟩ := (List.isChain_cons_cons.1 hkept.consecutive).1
  simp only [Option.some.injEq] at ht hnext
  omega

end Files

end Srsenb.Trace.Packets
