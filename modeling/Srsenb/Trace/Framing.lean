import Srsenb.Base.Frames
import Srsenb.Trace.Usage

/-! # Matrices of a trace (`rbusage.m`, `rbusageV2.m`)

The lines of a TTI are merged in one row, and a matrix is saved when the next row does not fit in
it. Both scripts have the loop; the empty value and the decoder are their own. -/

open Srsenb.Frames

namespace Srsenb.Trace

/-- A line of a DCI file, without the columns that are not read. -/
structure DciLine where
  /-- `line(1)` -/
  sfn : Int
  /-- `line(2)` -/
  subframe : Int
  /-- `line(3)` -/
  rnti : Int
  /-- `line(4)` -/
  direction : Int
  /-- `line(5)` -/
  mcs : Int
  /-- `line(7:10)` -/
  ra : RaIndicator
  /-- `line(11)` -/
  last : Int

def DciLine.tti (l : DciLine) : Int := l.sfn * 10 + l.subframe

def DciLine.isDown (l : DciLine) : Bool := l.direction ≠ 0

/-- A file of the directory. `fgetl` finds a line in it. -/
structure DciFile where
  name : String
  lines : List DciLine
  lines_ne : lines ≠ []

/-- The rows of `ten_sec_usage`. -/
abbrev Matrix := Nat → List Int

structure Script where
  nofTti : Nat
  nrb : Nat
  /-- the value of an empty element -/
  empty : Int
  usage : DciLine → List Int → Option UsageOut

namespace Script

/-- `zeros(1, 2+2*nrb)`, or `-ones(1, 2+2*nrb)` -/
def emptyRow (s : Script) : List Int := List.replicate (2 + 2 * s.nrb) s.empty

def emptyMatrix (s : Script) : Matrix := fun _ => s.emptyRow

end Script

structure TraceState where
  current : Int
  isFirst : Bool
  tenSecUsage : Matrix
  ttiCount : Nat
  name : String
  tempUsage : List Int
  /-- what `save` was called with -/
  saved : List (String × Matrix)

namespace Script

def start (s : Script) (name : String) : TraceState where
  current := 0
  isFirst := true
  tenSecUsage := s.emptyMatrix
  ttiCount := 1
  name
  tempUsage := s.emptyRow
  saved := []

/-- The empty rows after row `count`, up to `jumpEnd`. -/
def skip (s : Script) (usage : Matrix) (count jumpEnd : Nat) (current : Int) : Matrix := fun k =>
  if count < k ∧ k ≤ jumpEnd then s.emptyRow.set 0 ((current + (k - count)) % 10240) else usage k

/-- The loop's round up to the decoder, for a line of `file`. -/
def arrive (s : Script) (file : String) (tti : Int) (st : TraceState) : TraceState :=
  if st.isFirst then { st with isFirst := false, current := tti }
  else if st.current ≠ tti then
    let usage := Function.update st.tenSecUsage st.ttiCount st.tempUsage
    let diff := ((tti - st.current) % 10240).toNat
    let jumpEnd := min (st.ttiCount + diff - 1) s.nofTti
    let usage := if diff > 1 then s.skip usage st.ttiCount jumpEnd st.current else usage
    let ttiCount := st.ttiCount + diff
    if ttiCount ≥ s.nofTti + 1 then
      { st with
        current := tti
        tempUsage := s.emptyRow
        ttiCount := 1
        saved := st.saved ++ [(st.name, usage)]
        name := file
        tenSecUsage := s.emptyMatrix }
    else
      { st with current := tti, tempUsage := s.emptyRow, ttiCount, tenSecUsage := usage }
  else st

/-- The decoder, and the trailer and the header of the row. -/
def add (s : Script) (l : DciLine) (tempUsage : List Int) : Option (List Int) :=
  (s.usage l tempUsage).map fun out =>
    (out.row.set (out.row.length - 1) l.last).set 0 (l.tti % 10240)

/-- The loop's round. An error of the decoder ends the script. -/
def line (s : Script) (file : String) (st : TraceState) (l : DciLine) :
    Except TraceState TraceState :=
  let st := s.arrive file l.tti st
  match s.add l st.tempUsage with
  | none => .error st
  | some tempUsage => .ok { st with tempUsage }

def lines (s : Script) (st : TraceState) (f : DciFile) : Except TraceState TraceState :=
  f.lines.foldlM (s.line f.name) st

/-- The state in which the script ends. -/
def ended : Except TraceState TraceState → TraceState
  | .ok st => st
  | .error st => st

/-- The calls of `save`. The script needs a file. -/
def saves (s : Script) : List DciFile → List (String × Matrix)
  | [] => []
  | f :: files => (ended ((f :: files).foldlM s.lines (s.start f.name))).saved

end Script

def rbusage : Script where
  nofTti := 120 * 1000
  nrb := 50
  empty := 0
  usage l := getUsage2 l.ra l.rnti l.isDown

def rbusageV2 : Script where
  nofTti := 120 * 1000
  nrb := 50
  empty := -1
  usage l := getUsageMcs l.ra l.mcs l.isDown

namespace Script

/-! ## The lines that are read, and their places -/

/-- The lines of the files, each with its file's name. -/
def stream (files : List DciFile) : List (String × DciLine) :=
  files.flatMap fun f => f.lines.map fun l => (f.name, l)

def step (s : Script) (st : TraceState) (x : String × DciLine) : Except TraceState TraceState :=
  s.line x.1 st x.2

/-- The calls of `save` for some lines. -/
def savesOf (s : Script) : List (String × DciLine) → List (String × Matrix)
  | [] => []
  | x :: xs => (ended ((x :: xs).foldlM s.step (s.start x.1))).saved

def clock (s : Script) : Clock (String × DciLine) where
  rows := s.nofTti
  period := 10240
  time x := x.2.tti

/-- The decoder ends the script with an error. -/
def fails (s : Script) (x : String × DciLine) : Bool := (effect x.2.ra s.nrb).isError

/-- The lines up to the first one that fails. -/
def read (s : Script) : List (String × DciLine) → List (String × DciLine)
  | [] => []
  | x :: xs => if s.fails x then [x] else x :: s.read xs

/-- A row of some lines. -/
def fold (s : Script) (xs : List (String × DciLine)) : Option (List Int) :=
  xs.foldlM (fun row x => s.add x.2 row) s.emptyRow

/-- What the loop takes of a decoder. -/
structure Lawful (s : Script) : Prop where
  rows : 0 < s.nofTti
  error : ∀ l row, row.length = 2 + 2 * s.nrb →
    (s.usage l row = none ↔ (effect l.ra s.nrb).isError)
  width : ∀ l row out, row.length = 2 + 2 * s.nrb → s.usage l row = some out →
    out.row.length = row.length

theorem lawful_of_effect {s : Script} (hrows : 0 < s.nofTti) (f : DciLine → Bool → Int → Int)
    (h : ∀ l row, row.length = 2 + 2 * s.nrb →
      s.usage l row = (effect l.ra s.nrb).apply (f l) s.nrb l.isDown row) : s.Lawful where
  rows := hrows
  error := by
    intro l row hrow
    rw [h l row hrow, Effect.apply_eq_none]
  width := by
    intro l row out hrow hout
    rw [h l row hrow] at hout
    exact Effect.length_apply hout

theorem rbusage_lawful : rbusage.Lawful :=
  lawful_of_effect (by decide) _ fun l _ hrow => getUsage2_eq hrow l.isDown

theorem rbusageV2_lawful : rbusageV2.Lawful :=
  lawful_of_effect (by decide) _ fun l _ hrow => getUsageMcs_eq hrow l.isDown

variable {s : Script} {xs ys : List (String × DciLine)} {x y : String × DciLine}
  {st : TraceState} {done more : List (Place × (String × DciLine))} {row : List Int} {p : Place}

theorem foldlM_lines (s : Script) (files : List DciFile) (st : TraceState) :
    files.foldlM s.lines st = (stream files).foldlM s.step st := by
  induction files generalizing st with
  | nil => rfl
  | cons f files ih =>
    unfold stream at ih ⊢
    rw [List.foldlM_cons, List.flatMap_cons, List.foldlM_append, List.foldlM_map]
    exact bind_congr fun st => ih st

theorem saves_eq (s : Script) (files : List DciFile) :
    s.saves files = s.savesOf (stream files) := by
  cases files with
  | nil => rfl
  | cons f files =>
    obtain ⟨l, ls, hls⟩ := List.exists_cons_of_ne_nil f.lines_ne
    have hstream : stream (f :: files) = (f.name, l) :: (ls.map (f.name, ·) ++ stream files) := by
      simp [stream, hls]
    rw [saves, foldlM_lines, hstream]
    rfl

theorem add_eq_none (hs : s.Lawful) (hrow : row.length = 2 + 2 * s.nrb) :
    s.add x.2 row = none ↔ s.fails x := by
  unfold add fails
  rw [Option.map_eq_none_iff, hs.error x.2 row hrow]

theorem length_add (hs : s.Lawful) (hrow : row.length = 2 + 2 * s.nrb) {row' : List Int}
    (h : s.add x.2 row = some row') : row'.length = 2 + 2 * s.nrb := by
  unfold add at h
  rw [Option.map_eq_some_iff] at h
  obtain ⟨out, hout, rfl⟩ := h
  rw [List.length_set, List.length_set, hs.width x.2 row out hrow hout, hrow]

@[simp] theorem length_emptyRow (s : Script) : s.emptyRow.length = 2 + 2 * s.nrb := by
  simp [emptyRow]

theorem fold_snoc (s : Script) (xs : List (String × DciLine)) (x : String × DciLine) :
    s.fold (xs ++ [x]) = (s.fold xs).bind (s.add x.2) := by
  unfold fold
  simp only [List.foldlM_append, List.foldlM_cons, List.foldlM_nil, bind_pure]
  rfl

theorem length_fold (hs : s.Lawful) (h : s.fold xs = some row) : row.length = 2 + 2 * s.nrb := by
  induction xs using List.reverseRecOn generalizing row with
  | nil =>
    obtain rfl := Option.some_inj.mp h
    exact length_emptyRow s
  | append_singleton xs x ih =>
    rw [fold_snoc, Option.bind_eq_some_iff] at h
    obtain ⟨row', hrow', h⟩ := h
    exact length_add hs (ih hrow') h

/-! ## What the loop has stored -/

/-- What the row of a place is: the row of its lines, or an empty one with the TTI that was
skipped. -/
inductive RowOf (s : Script) (done : List (Place × (String × DciLine))) (p : Place)
    (row : List Int) : Prop where
  | lines (hne : itemsAt done p ≠ []) (h : s.fold (itemsAt done p) = some row)
  | skipped (hnil : itemsAt done p = []) (x : String × DciLine)
      (hx : first done p.frame = some x)
      (h : row = s.emptyRow.set 0 ((x.2.tti + ((p.row : Int) - 1)) % 10240))

/-- Lines of other places do not change it. -/
theorem RowOf.append (h : s.RowOf done p row) (hmore : ∀ z ∈ more, z.1 ≠ p) :
    s.RowOf (done ++ more) p row := by
  have heq : itemsAt (done ++ more) p = itemsAt done p := by
    rw [itemsAt_append, itemsAt_eq_nil hmore, List.append_nil]
  cases h with
  | lines hne h => exact .lines (heq ▸ hne) (heq ▸ h)
  | skipped hnil x hx h => exact .skipped (heq ▸ hnil) x (first_append hx) h

/-- A matrix, for a frame: its file, and the rows from 1 to `n`. -/
structure MatrixOf (s : Script) (done : List (Place × (String × DciLine))) (frame n : Nat)
    (name : String) (m : Matrix) : Prop where
  name : ∃ x, first done frame = some x ∧ name = x.1
  rows : ∀ k, 1 ≤ k → k ≤ n → s.RowOf done ⟨frame, k⟩ (m k)

theorem MatrixOf.append {frame n : Nat} {name : String} {m : Matrix}
    (h : s.MatrixOf done frame n name m) (hmore : ∀ z ∈ more, z.1.frame = frame → n < z.1.row) :
    s.MatrixOf (done ++ more) frame n name m where
  name := by
    obtain ⟨x, hx, hname⟩ := h.name
    exact ⟨x, first_append hx, hname⟩
  rows := by
    intro k hk hkn
    apply (h.rows k hk hkn).append
    intro z hz heq
    have : n < k := by simpa [heq] using hmore z hz (by rw [heq])
    omega

/-- The lines of `done` have arrived, `x` last with place `p`. `items` are those merged in
`temp_usage`. -/
structure Held (s : Script) (done : List (Place × (String × DciLine))) (p : Place)
    (x : String × DciLine) (items : List (String × DciLine)) (st : TraceState) : Prop where
  notFirst : st.isFirst = false
  current : st.current = x.2.tti
  frame : st.saved.length = p.frame
  row : st.ttiCount = p.row
  temp : s.fold items = some st.tempUsage
  matrix : s.MatrixOf done p.frame (p.row - 1) st.name st.tenSecUsage
  saved : ∀ j e, st.saved[j]? = some e → s.MatrixOf done j s.nofTti e.1 e.2

/-- The first line of all. -/
theorem held_start (x : String × DciLine) :
    s.Held [(⟨0, 1⟩, x)] ⟨0, 1⟩ x [] (s.arrive x.1 x.2.tti (s.start x.1)) where
  notFirst := rfl
  current := rfl
  frame := rfl
  row := rfl
  temp := rfl
  matrix := by
    refine ⟨⟨x, rfl, rfl⟩, ?_⟩
    intro k hk hk0
    rw [Nat.sub_self] at hk0
    omega
  saved := by
    intro j e he
    simp [Script.arrive, start] at he

/-- The decoder merges the line. -/
theorem Held.add {items : List (String × DciLine)} (h : s.Held done p x items st)
    (hrow : s.add x.2 st.tempUsage = some row) :
    s.Held done p x (items ++ [x]) { st with tempUsage := row } where
  notFirst := h.notFirst
  current := h.current
  frame := h.frame
  row := h.row
  temp := by rw [fold_snoc, h.temp, Option.bind_some, hrow]
  matrix := h.matrix
  saved := h.saved

/-- The rows up to the next line's, when it has another TTI: those that were there, the row of the
last lines, and empty ones. -/
theorem MatrixOf.flushed {name : String} {m : Matrix} {temp : List Int} (diff : Nat)
    (h : s.MatrixOf done p.frame (p.row - 1) name m) (hplaced : s.clock.WellPlaced done)
    (hlast : (p, x) ∈ done) (hlater : ∀ q, p.Before q → itemsAt done q = [])
    (htemp : s.fold (itemsAt done p) = some temp) :
    s.MatrixOf done p.frame (min (p.row + diff - 1) s.nofTti) name
      (if diff > 1 then
        s.skip (Function.update m p.row temp) p.row (min (p.row + diff - 1) s.nofTti) x.2.tti
      else Function.update m p.row temp) := by
  refine ⟨h.name, ?_⟩
  intro k hk hkn
  by_cases hgt : p.row < k
  · -- a row that is skipped
    obtain ⟨y, hy⟩ := hplaced.first _ hlast p.frame le_rfl
    have htime : x.2.tti = (y.2.tti + ((p.row : Int) - 1)) % 10240 := hplaced.time _ hlast y hy
    rw [if_pos (by omega), skip, if_pos ⟨hgt, hkn⟩]
    refine .skipped (hlater _ (.inr ⟨rfl, hgt⟩)) y hy ?_
    have hcolumn : y.2.tti + ((p.row : Int) - 1) + ((k : Int) - p.row) =
        y.2.tti + ((k : Int) - 1) := by omega
    rw [htime, Int.emod_add_emod, hcolumn]
  · have hskip : ∀ jumpEnd current usage,
        (if diff > 1 then s.skip usage p.row jumpEnd current else usage) k = usage k := by
      intro jumpEnd current usage
      split_ifs
      · rw [skip, if_neg (fun hk => hgt hk.1)]
      · rfl
    rw [hskip]
    rcases Nat.lt_or_eq_of_le (Nat.le_of_not_lt hgt) with hlt | rfl
    · rw [Function.update_of_ne hlt.ne]
      exact h.rows k hk (by omega)
    · rw [Function.update_self]
      exact .lines (List.ne_nil_of_mem (mem_itemsAt.mpr hlast)) htemp

/-- The saved matrices do not change when the lines that follow are in later frames or in this. -/
theorem Held.saved_append {items : List (String × DciLine)} (h : s.Held done p x items st)
    (hmore : ∀ z ∈ more, p.frame ≤ z.1.frame) (j : Nat) (e : String × Matrix)
    (he : st.saved[j]? = some e) : s.MatrixOf (done ++ more) j s.nofTti e.1 e.2 := by
  apply (h.saved j e he).append
  intro z hz hj
  have hlt : j < st.saved.length := (List.getElem?_eq_some_iff.mp he).1
  have := hmore z hz
  have := h.frame
  omega

/-- A line of the same TTI. -/
theorem Held.arrive_same (h : s.Held done p x (itemsAt done p) st) (hrow : 1 ≤ p.row)
    (htti : x.2.tti = y.2.tti) :
    s.Held (done ++ [(p, y)]) p y (itemsAt done p) (s.arrive y.1 y.2.tti st) := by
  have harrive : s.arrive y.1 y.2.tti st = st := by
    unfold Script.arrive
    rw [h.notFirst, if_neg Bool.false_ne_true, h.current, if_neg (not_not_intro htti)]
  rw [harrive]
  refine ⟨h.notFirst, h.current.trans htti, h.frame, h.row, h.temp, ?_, ?_⟩
  · apply h.matrix.append
    simp
    omega
  · apply h.saved_append
    simp

/-- A line of another TTI. -/
theorem Held.arrive_other (h : s.Held done p x (itemsAt done p) st)
    (hplaced : s.clock.WellPlaced done) (hlast : (p, x) ∈ done)
    (hlater : ∀ q, p.Before q → itemsAt done q = []) (htti : x.2.tti ≠ y.2.tti)
    (hgap : 0 < s.clock.gap x y) :
    s.Held (done ++ [(p.forward s.nofTti (s.clock.gap x y), y)])
      (p.forward s.nofTti (s.clock.gap x y)) y
      (itemsAt done (p.forward s.nofTti (s.clock.gap x y))) (s.arrive y.1 y.2.tti st) := by
  have hflushed := h.matrix.flushed (s.clock.gap x y) hplaced hlast hlater h.temp
  have hnil := hlater _ (Place.before_forward (n := s.nofTti) hgap)
  have hdiff : ((y.2.tti - x.2.tti) % 10240).toNat = s.clock.gap x y := rfl
  unfold Script.arrive
  rw [h.notFirst, if_neg Bool.false_ne_true, h.current, if_pos htti]
  simp only [hdiff, h.row]
  by_cases hfit : p.row + s.clock.gap x y ≤ s.nofTti
  · have hp : p.forward s.nofTti (s.clock.gap x y) = ⟨p.frame, p.row + s.clock.gap x y⟩ := by
      rw [Place.forward, if_pos hfit]
    rw [hp] at hnil ⊢
    rw [if_neg (by omega), hnil]
    have hmin : min (p.row + s.clock.gap x y - 1) s.nofTti = p.row + s.clock.gap x y - 1 := by
      omega
    refine ⟨rfl, rfl, h.frame, rfl, rfl, ?_, ?_⟩
    · rw [hmin] at hflushed ⊢
      apply hflushed.append
      simp
      omega
    · apply h.saved_append
      simp
  · have hp : p.forward s.nofTti (s.clock.gap x y) = ⟨p.frame + 1, 1⟩ := by
      rw [Place.forward, if_neg hfit]
    rw [hp] at hnil ⊢
    rw [if_pos (by omega), hnil]
    have hmin : min (p.row + s.clock.gap x y - 1) s.nofTti = s.nofTti := by omega
    refine ⟨rfl, rfl, ?_, rfl, rfl, ?_, ?_⟩
    · simp [h.frame]
    · refine ⟨⟨y, ?_, rfl⟩, ?_⟩
      · unfold first
        rw [itemsAt_append, hnil]
        simp [itemsAt]
      · intro k hk hk0
        simp at hk0
        omega
    · intro j e he
      have hlt := (List.getElem?_eq_some_iff.mp he).1
      rw [List.length_append, List.length_singleton] at hlt
      rcases Nat.lt_or_eq_of_le (Nat.le_of_lt_succ hlt) with hj | rfl
      · rw [List.getElem?_append_left hj] at he
        refine h.saved_append ?_ j e he
        simp
      · rw [List.getElem?_concat_length, Option.some_inj] at he
        rw [← he, h.frame]
        rw [hmin] at hflushed ⊢
        apply hflushed.append
        simp

/-- The lines of the next line's place. -/
theorem itemsAt_next (xs : List (String × DciLine)) (x : String × DciLine) :
    itemsAt (s.clock.placed (xs ++ [x])) (s.clock.next (s.clock.placed xs) x) =
      itemsAt (s.clock.placed xs) (s.clock.next (s.clock.placed xs) x) ++ [x] := by
  rw [Clock.placed_snoc, itemsAt_append]
  simp [itemsAt]

/-- The next line, whatever its TTI. -/
theorem Held.arrive (hs : s.Lawful) (h : s.Held done p x (itemsAt done p) st)
    (hdone : done = s.clock.placed (xs ++ [x])) (hp : p = s.clock.next (s.clock.placed xs) x)
    (hxs : s.clock.Timed (xs ++ [x] ++ [y])) :
    s.Held (s.clock.placed (xs ++ [x] ++ [y])) (s.clock.next done y) y
      (itemsAt done (s.clock.next done y)) (s.arrive y.1 y.2.tti st) := by
  have hplaced : s.clock.WellPlaced done := hdone ▸ Clock.placed_wellPlaced hs.rows hxs.left
  have hsnoc : done = s.clock.placed xs ++ [(p, x)] := by rw [hdone, hp, Clock.placed_snoc]
  have hlast : (p, x) ∈ done := by simp [hsnoc]
  have hlater : ∀ q, p.Before q → itemsAt done q = [] := by
    intro q hq
    apply itemsAt_eq_nil
    rintro z hz rfl
    rw [hdone] at hsnoc hz
    rcases Clock.placed_last hxs.left hsnoc z hz with h | h
    · exact hq.ne h.symm
    · exact hq.asymm h
  have hnext := Clock.next_snoc (c := s.clock) (s.clock.placed xs) p x y
  rw [← hsnoc] at hnext
  rw [Clock.placed_snoc, ← hdone, hnext]
  split_ifs with htti
  · exact h.arrive_same (hplaced.row _ hlast).1 htti
  · refine h.arrive_other hplaced hlast hlater htti ?_
    exact Clock.gap_pos (hxs x (by simp)) hxs.last htti

/-- After some lines more: those that are read, the last of them possibly not merged. -/
theorem Held.run (hs : s.Lawful)
    (h : s.Held (s.clock.placed (xs ++ [x])) (s.clock.next (s.clock.placed xs) x) x
      (itemsAt (s.clock.placed (xs ++ [x])) (s.clock.next (s.clock.placed xs) x)) st)
    (hys : s.clock.Timed (xs ++ [x] ++ ys)) :
    ∃ pre z items, xs ++ [x] ++ s.read ys = pre ++ [z] ∧
      s.Held (s.clock.placed (pre ++ [z])) (s.clock.next (s.clock.placed pre) z) z items
        (ended (ys.foldlM s.step st)) := by
  induction ys generalizing xs x st with
  | nil => exact ⟨xs, x, _, by simp [read], h⟩
  | cons y ys ih =>
    have hys' : s.clock.Timed (xs ++ [x] ++ [y] ++ ys) := by simpa using hys
    have harrive := h.arrive hs rfl rfl hys'.left
    have hfails := add_eq_none (x := y) hs (length_fold hs harrive.temp)
    rw [List.foldlM_cons, step, line, read]
    cases hadd : s.add y.2 (s.arrive y.1 y.2.tti st).tempUsage with
    | none =>
      rw [if_pos (hfails.mp hadd)]
      exact ⟨xs ++ [x], y, _, rfl, harrive⟩
    | some row =>
      rw [if_neg (fun hf => by simp [hfails.mpr hf] at hadd)]
      have hadded := harrive.add hadd
      rw [← itemsAt_next] at hadded
      obtain ⟨pre, z, items, heq, hheld⟩ := ih hadded hys'
      refine ⟨pre, z, items, ?_, hheld⟩
      rw [← heq]
      simp

/-- The whole script. -/
theorem held_run (hs : s.Lawful) (hxs : s.clock.Timed (x :: xs)) :
    ∃ pre z items, s.read (x :: xs) = pre ++ [z] ∧
      s.Held (s.clock.placed (pre ++ [z])) (s.clock.next (s.clock.placed pre) z) z items
        (ended ((x :: xs).foldlM s.step (s.start x.1))) := by
  have hstart := held_start (s := s) x
  have hfails := add_eq_none (x := x) hs (length_fold hs hstart.temp)
  rw [List.foldlM_cons, step, line, read]
  cases hadd : s.add x.2 (s.arrive x.1 x.2.tti (s.start x.1)).tempUsage with
  | none =>
    rw [if_pos (hfails.mp hadd)]
    exact ⟨[], x, _, rfl, hstart⟩
  | some row =>
    rw [if_neg (fun hf => by simp [hfails.mpr hf] at hadd)]
    exact @Held.run s [] xs x _ hs (hstart.add hadd) hxs

/-- The matrices that are complete after the lines that are read. -/
def nofSaves (s : Script) (xs : List (String × DciLine)) : Nat :=
  ((s.clock.placed (s.read xs)).getLast?.map (·.1.frame)).getD 0

theorem read_prefix (s : Script) (xs : List (String × DciLine)) : s.read xs <+: xs := by
  induction xs with
  | nil => exact List.nil_prefix
  | cons x xs ih =>
    rw [read]
    split_ifs
    · exact ⟨xs, rfl⟩
    · exact List.cons_prefix_cons.mpr ⟨rfl, ih⟩

theorem read_take (s : Script) (xs : List (String × DciLine)) (k : Nat) :
    s.read (xs.take k) = (s.read xs).take k := by
  induction xs generalizing k with
  | nil => simp [read]
  | cons x xs ih =>
    cases k with
    | zero => simp [read]
    | succ k =>
      rw [List.take_succ_cons, read, read]
      split_ifs
      · simp
      · rw [ih, List.take_succ_cons]

theorem placed_read (s : Script) (xs : List (String × DciLine)) :
    s.clock.placed (s.read xs) = (s.clock.placed xs).take (s.read xs).length := by
  rw [← Clock.placed_take, ← List.prefix_iff_eq_take.mp (s.read_prefix xs)]

/-- The lines that are not read are in the last frame, or in later ones. -/
theorem nofSaves_le (hxs : s.clock.Timed xs) :
    ∀ z ∈ (s.clock.placed xs).drop (s.read xs).length, s.nofSaves xs ≤ z.1.frame := by
  intro z hz
  have hpair := Clock.placed_pairwise hxs
  rw [← List.take_append_drop (s.read xs).length (s.clock.placed xs), ← placed_read,
    List.pairwise_append] at hpair
  unfold nofSaves
  cases hlast : (s.clock.placed (s.read xs)).getLast? with
  | none => exact Nat.zero_le _
  | some w =>
    rcases hpair.2.2 w (List.mem_of_getLast? hlast) z hz with h | h
    · simp [h]
    · unfold Place.Before at h
      simp
      omega

theorem length_savesOf (hs : s.Lawful) (hxs : s.clock.Timed xs) :
    (s.savesOf xs).length = s.nofSaves xs := by
  cases xs with
  | nil => rfl
  | cons x xs =>
    obtain ⟨pre, z, items, hread, hheld⟩ := held_run hs hxs
    rw [savesOf, hheld.frame, nofSaves, hread, Clock.placed_snoc]
    simp

/-- The matrices that are saved, in terms of all lines. -/
theorem savesOf_matrix (hs : s.Lawful) (hxs : s.clock.Timed xs) {j : Nat} {e : String × Matrix}
    (he : (s.savesOf xs)[j]? = some e) :
    s.MatrixOf (s.clock.placed xs) j s.nofTti e.1 e.2 := by
  have hj : j < s.nofSaves xs := by
    rw [← length_savesOf hs hxs]
    exact (List.getElem?_eq_some_iff.mp he).1
  have hread : s.MatrixOf (s.clock.placed (s.read xs)) j s.nofTti e.1 e.2 := by
    cases xs with
    | nil => simp [savesOf] at he
    | cons x xs =>
      obtain ⟨pre, z, items, hread, hheld⟩ := held_run hs hxs
      rw [hread]
      exact hheld.saved j e he
  rw [← List.take_append_drop (s.read xs).length (s.clock.placed xs), ← placed_read]
  apply hread.append
  intro z hz hzj
  have := nofSaves_le hxs z hz
  omega

/-! ## The framing of a trace -/

/-- The matrix of the save number `j`, when no later one has the name of its file. -/
def OnDisk (s : Script) (files : List DciFile) (j : Nat) (e : String × Matrix) : Prop :=
  (s.saves files)[j]? = some e ∧ ∀ j' e', j < j' → (s.saves files)[j']? = some e' → e'.1 ≠ e.1

def places (s : Script) (files : List DciFile) : List (Place × (String × DciLine)) :=
  s.clock.placed (stream files)

/-- Line number `i` comes before the one that triggers the last save: with it, there are fewer. -/
def BeforeLastSave (s : Script) (files : List DciFile) (i : Nat) : Prop :=
  (s.savesOf ((stream files).take (i + 1))).length < (s.saves files).length

/-- The trace is framed without a gap: the columns of the TTIs count on, each row is that of one
run of lines or empty, and each line has one row. -/
structure Gapless (s : Script) (files : List DciFile) : Prop where
  columns : ∀ j e, s.OnDisk files j e → ∃ c, (e.2 1).head? = some c ∧
    ∀ k, 1 ≤ k → k ≤ s.nofTti → (e.2 k).head? = some ((c + ((k : Int) - 1)) % 10240)
  rows : ∀ j e, s.OnDisk files j e → ∀ k, 1 ≤ k → k ≤ s.nofTti →
    (s.clock.IsRun (stream files) (itemsAt (s.places files) ⟨j, k⟩) ∧
      s.fold (itemsAt (s.places files) ⟨j, k⟩) = some (e.2 k)) ∨
    (itemsAt (s.places files) ⟨j, k⟩ = [] ∧ ∃ c, e.2 k = s.emptyRow.set 0 c)
  lines : ∀ i < (stream files).length, s.BeforeLastSave files i →
    ∃! p : Place, (∃ e, s.OnDisk files p.frame e) ∧ 1 ≤ p.row ∧ p.row ≤ s.nofTti ∧
      ∃ x, (s.places files)[i]? = some (p, x)

/-- The file of the first line of a frame. -/
def fileOf (s : Script) (files : List DciFile) (j : Nat) : Option String :=
  (first (s.places files) j).map (·.1)

/-- No two of the matrices that are complete start in files of one name. -/
def OwnFiles (s : Script) (files : List DciFile) : Prop :=
  ∀ i j, i < j → j < s.nofSaves (stream files) → s.fileOf files i ≠ s.fileOf files j

variable {files : List DciFile}

/-- The number of saves with a line, for its place. -/
theorem length_savesOf_take (hs : s.Lawful) (hxs : s.clock.Timed xs) {i : Nat}
    (hi : (s.clock.placed xs)[i]? = some (p, x)) :
    (s.savesOf (xs.take (i + 1))).length < (s.savesOf xs).length ↔ p.frame < s.nofSaves xs := by
  have htake : s.clock.Timed (xs.take (i + 1)) := fun y hy => hxs y (List.mem_of_mem_take hy)
  rw [length_savesOf hs hxs, length_savesOf hs htake]
  by_cases hread : i < (s.read xs).length
  · have hlast : (s.clock.placed (s.read (xs.take (i + 1)))).getLast? = some (p, x) := by
      rw [read_take, Clock.placed_take, List.getLast?_take, if_neg (Nat.succ_ne_zero i),
        Nat.add_sub_cancel, placed_read, List.getElem?_take_of_lt hread, hi, Option.some_or]
    unfold nofSaves
    rw [hlast]
    rfl
  · have hall : s.read (xs.take (i + 1)) = s.read xs := by
      rw [read_take, List.take_of_length_le (by omega)]
    have hmem : (p, x) ∈ (s.clock.placed xs).drop (s.read xs).length := by
      apply List.mem_of_getElem? (i := i - (s.read xs).length)
      rw [List.getElem?_drop, Nat.add_sub_cancel' (by omega), hi]
    have hle : s.nofSaves xs ≤ p.frame := nofSaves_le hxs _ hmem
    unfold nofSaves at hle ⊢
    rw [hall]
    omega

theorem head?_set_zero {v : List Int} (h : 0 < v.length) (c : Int) :
    (v.set 0 c).head? = some c := by
  cases v with
  | nil => simp at h
  | cons x v => rfl

/-- The first column of a row: the TTIs of a frame count on from its first line. -/
theorem RowOf.head (hs : s.Lawful) (hplaced : s.clock.WellPlaced done)
    (hx : first done p.frame = some x) (h : s.RowOf done p row) :
    row.head? = some ((x.2.tti + ((p.row : Int) - 1)) % 10240) := by
  cases h with
  | lines hne h =>
    obtain ⟨ys, y, hsnoc⟩ := List.eq_nil_or_concat (itemsAt done p) |>.resolve_left hne
    have hy : (p, y) ∈ done := by
      rw [← mem_itemsAt, hsnoc]
      simp
    have htime : y.2.tti = (x.2.tti + ((p.row : Int) - 1)) % 10240 := hplaced.time _ hy x hx
    rw [hsnoc, List.concat_eq_append, fold_snoc, Option.bind_eq_some_iff] at h
    obtain ⟨row', hrow', h⟩ := h
    have hlength := length_add hs (length_fold hs hrow') h
    unfold Script.add at h
    rw [Option.map_eq_some_iff] at h
    obtain ⟨out, -, rfl⟩ := h
    rw [List.length_set] at hlength
    rw [head?_set_zero (by omega), htime, Int.emod_emod]
  | skipped hnil y hy h =>
    obtain rfl := Option.some_inj.mp (hx.symm.trans hy)
    rw [h, head?_set_zero]
    rw [length_emptyRow]
    omega

theorem length_saves (hs : s.Lawful) (hxs : s.clock.Timed (stream files)) :
    (s.saves files).length = s.nofSaves (stream files) := by
  rw [saves_eq, length_savesOf hs hxs]

theorem saves_matrix (hs : s.Lawful) (hxs : s.clock.Timed (stream files)) {j : Nat}
    {e : String × Matrix} (he : (s.saves files)[j]? = some e) :
    s.MatrixOf (s.places files) j s.nofTti e.1 e.2 := by
  rw [saves_eq] at he
  exact savesOf_matrix hs hxs he

/-- A save has the name of the file that its matrix starts in. -/
theorem fileOf_eq (hs : s.Lawful) (hxs : s.clock.Timed (stream files)) {j : Nat}
    {e : String × Matrix} (he : (s.saves files)[j]? = some e) : s.fileOf files j = some e.1 := by
  obtain ⟨x, hx, hname⟩ := (saves_matrix hs hxs he).name
  rw [fileOf, hx, hname]
  rfl

/-- A matrix stays on the disk unless a later one starts in a file of the same name. -/
theorem onDisk_iff (hs : s.Lawful) (hxs : s.clock.Timed (stream files)) {j : Nat} :
    (∃ e, s.OnDisk files j e) ↔ j < s.nofSaves (stream files) ∧
      ∀ j', j < j' → j' < s.nofSaves (stream files) → s.fileOf files j ≠ s.fileOf files j' := by
  rw [← length_saves hs hxs]
  constructor
  · rintro ⟨e, he, hlater⟩
    refine ⟨(List.getElem?_eq_some_iff.mp he).1, ?_⟩
    intro j' hj hj' heq
    have he' := List.getElem?_eq_getElem hj'
    apply hlater j' _ hj he'
    rw [fileOf_eq hs hxs he, fileOf_eq hs hxs he', Option.some_inj] at heq
    exact heq.symm
  · rintro ⟨hj, hlater⟩
    have he := List.getElem?_eq_getElem hj
    refine ⟨_, he, ?_⟩
    intro j' e' hjj' he' heq
    apply hlater j' hjj' (List.getElem?_eq_some_iff.mp he').1
    rw [fileOf_eq hs hxs he, fileOf_eq hs hxs he', heq]

/-- The line that a frame starts with loses its row with the frame's matrix. -/
theorem Gapless.ownFiles (hs : s.Lawful) (hxs : s.clock.Timed (stream files))
    (h : s.Gapless files) : s.OwnFiles files := by
  intro i j hij hj heq
  have hi : i < (s.saves files).length := by
    rw [length_saves hs hxs]
    omega
  obtain ⟨x, hx, -⟩ := (saves_matrix hs hxs (List.getElem?_eq_getElem hi)).name
  have hmem : (⟨i, 1⟩, x) ∈ s.places files := mem_itemsAt.mp (List.mem_of_head? hx)
  obtain ⟨k, hk⟩ := List.mem_iff_getElem?.mp hmem
  have hlt : k < (stream files).length := by
    have := (List.getElem?_eq_some_iff.mp hk).1
    rwa [places, Clock.length_placed] at this
  have hbefore : s.BeforeLastSave files k := by
    rw [BeforeLastSave, saves_eq, length_savesOf_take hs hxs hk]
    exact lt_trans hij hj
  obtain ⟨p, ⟨hdisk, -, -, y, hy⟩, -⟩ := h.lines k hlt hbefore
  have hp : p = ⟨i, 1⟩ := by
    rw [hk, Option.some_inj, Prod.mk.injEq] at hy
    exact hy.1.symm
  rw [hp] at hdisk
  exact ((onDisk_iff hs hxs).mp hdisk).2 j hij hj heq

theorem OwnFiles.gapless (hs : s.Lawful) (hxs : s.clock.Timed (stream files))
    (h : s.OwnFiles files) : s.Gapless files := by
  have hplaced : s.clock.WellPlaced (s.places files) := Clock.placed_wellPlaced hs.rows hxs
  constructor
  · intro j e he
    have hmatrix := saves_matrix hs hxs he.1
    obtain ⟨x, hx, -⟩ := hmatrix.name
    have hcolumn : ∀ k, 1 ≤ k → k ≤ s.nofTti →
        (e.2 k).head? = some ((x.2.tti + ((k : Int) - 1)) % 10240) :=
      fun k hk hkn => (hmatrix.rows k hk hkn).head hs hplaced hx
    have hmem : x ∈ stream files := by
      rw [← Clock.map_snd_placed (c := s.clock) (stream files)]
      exact List.mem_map_of_mem (mem_itemsAt.mp (List.mem_of_head? hx))
    obtain ⟨h0, hlt⟩ : 0 ≤ x.2.tti ∧ x.2.tti < 10240 := hxs x hmem
    refine ⟨x.2.tti, ?_, hcolumn⟩
    rw [hcolumn 1 le_rfl hs.rows, Nat.cast_one, Int.sub_self, Int.add_zero,
      Int.emod_eq_of_lt h0 hlt]
  · intro j e he k hk hkn
    cases (saves_matrix hs hxs he.1).rows k hk hkn with
    | lines hne h => exact .inl ⟨Clock.itemsAt_isRun hxs hne, h⟩
    | skipped hnil x hx h => exact .inr ⟨hnil, _, h⟩
  · intro i hi hbefore
    obtain ⟨⟨p, x⟩, hp⟩ : ∃ z, (s.places files)[i]? = some z := by
      refine ⟨_, List.getElem?_eq_getElem ?_⟩
      rwa [places, Clock.length_placed]
    rw [BeforeLastSave, saves_eq, length_savesOf_take hs hxs hp] at hbefore
    have hdisk : ∃ e, s.OnDisk files p.frame e :=
      (onDisk_iff hs hxs).mpr ⟨hbefore, fun j hj hjn => h _ j hj hjn⟩
    have hrow := hplaced.row _ (List.mem_of_getElem? hp)
    refine ⟨p, ⟨hdisk, hrow.1, hrow.2, x, hp⟩, ?_⟩
    rintro q ⟨-, -, -, y, hq⟩
    rw [hp, Option.some_inj, Prod.mk.injEq] at hq
    exact hq.1.symm

theorem gapless_iff (hs : s.Lawful) (hxs : s.clock.Timed (stream files)) :
    s.Gapless files ↔ s.OwnFiles files :=
  ⟨fun h => h.ownFiles hs hxs, fun h => h.gapless hs hxs⟩

end Script

open Script

/-- Both scripts: the trace is framed without a gap just when no two of the complete matrices start
in files of one name. -/
theorem trace_gapless_iff (files : List DciFile)
    (h : ∀ f ∈ files, ∀ l ∈ f.lines, 0 ≤ l.tti ∧ l.tti < 10240) :
    (rbusage.Gapless files ↔ rbusage.OwnFiles files) ∧
    (rbusageV2.Gapless files ↔ rbusageV2.OwnFiles files) := by
  have htimed : ∀ x ∈ stream files, 0 ≤ x.2.tti ∧ x.2.tti < 10240 := by
    intro x hx
    rw [stream, List.mem_flatMap] at hx
    obtain ⟨f, hf, hx⟩ := hx
    obtain ⟨l, hl, rfl⟩ := List.mem_map.mp hx
    exact h f hf l hl
  exact ⟨gapless_iff rbusage_lawful htimed, gapless_iff rbusageV2_lawful htimed⟩

/-- One PRB for RNTI 61, `n` TTIs before the wrap: after each line there are 10238 empty TTIs. -/
def lineBefore (n : Nat) : DciLine where
  sfn := (10240 - n) % 10240 / 10
  subframe := (10240 - n) % 10240 % 10
  rnti := 61
  direction := 1
  mcs := 9
  ra := ⟨2, 0, 1, 0⟩
  last := 0

def linesFile (name : String) (start n : Nat) : DciFile where
  name
  lines := (List.range' start (n + 1)).map lineBefore
  lines_ne := by simp

/-- Two matrices, that start in two files. -/
def twoFiles : List DciFile := [linesFile "a" 0 11, linesFile "b" 12 12]

/-- Two matrices in one file. -/
def oneFile : List DciFile := [linesFile "a" 0 24]

theorem trace_gapless_twoFiles :
    rbusage.nofSaves (stream twoFiles) = 2 ∧ rbusage.Gapless twoFiles ∧
    rbusageV2.Gapless twoFiles := by
  have htti : ∀ f ∈ twoFiles, ∀ l ∈ f.lines, 0 ≤ l.tti ∧ l.tti < 10240 := by decide +kernel
  have hsaves : rbusage.nofSaves (stream twoFiles) = 2 := by decide +kernel
  have hsavesV2 : rbusageV2.nofSaves (stream twoFiles) = 2 := by decide +kernel
  refine ⟨hsaves, (trace_gapless_iff twoFiles htti).1.mpr ?_,
    (trace_gapless_iff twoFiles htti).2.mpr ?_⟩
  · intro i j hij hj
    obtain ⟨rfl, rfl⟩ : i = 0 ∧ j = 1 := by omega
    decide +kernel
  · intro i j hij hj
    obtain ⟨rfl, rfl⟩ : i = 0 ∧ j = 1 := by omega
    decide +kernel

/-- The second matrix is saved over the first. -/
theorem trace_not_gapless_oneFile : ¬ rbusage.Gapless oneFile ∧ ¬ rbusageV2.Gapless oneFile := by
  have htti : ∀ x ∈ stream oneFile, 0 ≤ x.2.tti ∧ x.2.tti < 10240 := by decide +kernel
  constructor
  · intro h
    have hown := h.ownFiles rbusage_lawful htti
    exact hown 0 1 (by decide) (by decide +kernel) (by decide +kernel)
  · intro h
    have hown := h.ownFiles rbusageV2_lawful htti
    exact hown 0 1 (by decide) (by decide +kernel) (by decide +kernel)

end Srsenb.Trace
