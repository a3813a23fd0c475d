import Mathlib.Algebra.BigOperators.Group.List.Basic
import Mathlib.Algebra.Order.Ring.Int
import Mathlib.Tactic.FinCases
import Srsenb.Base.Scan

/-! # Timing advance of the users (`rbusage6.m`)

The records of a file are gone through in order, with a list of the timing advances so far. A user
is looked up by its RNTI. -/

open Srsenb.Scan

namespace Srsenb.Trace.TaUpdates

/-- A row of `c_file_data{j,3}`; a column that is absent has -1. -/
structure Record where
  rnti : Int
  initialTa : Int
  updateTa : Int
  currentTa : Int
  deriving DecidableEq

/-- A row of `TA_update_list`. -/
structure Entry where
  rnti : Int
  initialTa : Int
  currentTa : Int
  deriving DecidableEq

/-- A round of the loop over the records. -/
def taUpdate (list : List Entry) (r : Record) : List Entry × Record :=
  let (list, out) :=
    match list.findIdx? fun e => decide (e.rnti = r.rnti) with
    | none => (list, r)
    | some position =>
      let list :=
        if r.updateTa > 0 then
          list.modify position fun e => { e with currentTa := e.currentTa + r.updateTa - 31 }
        else list
      match list[position]? with
      | none => (list, r)
      | some e => (list, { r with initialTa := e.initialTa, currentTa := e.currentTa })
  -- The record as it was read is asked, and the columns as they are now are copied.
  if r.initialTa > 0 then
    (list ++ [⟨r.rnti, r.initialTa, r.initialTa⟩], { out with currentTa := out.initialTa })
  else (list, out)

/-- `TA_update_list` and `c_file_data` after the loops over a file. -/
def rbusage6 (fileData : List (List Record)) : List Entry × List (List Record) :=
  scan (scan taUpdate) [] fileData

/-! ## What is asked of it -/

/-- What `read_one_rnti` gives: a command has six bits, and `current_TA` is not known yet. -/
structure Record.Read (r : Record) : Prop where
  initialTa : -1 ≤ r.initialTa
  updateTa : -1 ≤ r.updateTa ∧ r.updateTa ≤ 63
  currentTa : r.currentTa = -1

structure File where
  data : List (List Record)
  read : ∀ unit ∈ data, ∀ r ∈ unit, r.Read

def Record.hasInitial (r : Record) : Bool := decide (0 ≤ r.initialTa)

def Record.hasCommand (r : Record) : Bool := decide (0 ≤ r.updateTa ∧ r.updateTa ≤ 63)

/-- The most recent initial timing advance. -/
def recentInitial (h : List Record) : Option Int :=
  (h.reverse.find? Record.hasInitial).map (·.initialTa)

/-- The records after the most recent one with an initial timing advance. -/
def sinceInitial (h : List Record) : List Record := h.rtakeWhile fun r => !r.hasInitial

/-- What the commands add up to. -/
def advance (h : List Record) : Int :=
  ((h.filter Record.hasCommand).map fun r => r.updateTa - 31).sum

/-- The columns of the last of the records `h` of a user. -/
def Right (h : List Record) (out : Record) : Prop :=
  ∀ ta, recentInitial h = some ta →
    out.initialTa = ta ∧ out.currentTa = ta + advance (sinceInitial h)

namespace File

variable (f : File) (u : Int)

/-- The records of a user. -/
def records : List Record := f.data.flatten.filter fun r => decide (r.rnti = u)

/-- Those up to record `n` of the file. -/
def history (n : Nat) : List Record :=
  (f.data.flatten.take (n + 1)).filter fun r => decide (r.rnti = u)

/-- Each record of the user that has an initial timing advance or follows one is right. -/
def Accumulated : Prop :=
  ∀ (n : Nat) (r out : Record), f.data.flatten[n]? = some r → r.rnti = u →
    (rbusage6 f.data).2.flatten[n]? = some out → Right (f.history u n) out

end File

/-! ## The condition -/

/-- The records after the first with an initial timing advance, up to the most recent one. -/
def earlier (h : List Record) : List Record :=
  (h.dropWhile fun r => !r.hasInitial).tail.rdropWhile fun r => !r.hasInitial

/-- What the commands other than 0 add up to. -/
def positiveAdvance (h : List Record) : Int :=
  ((h.filter fun r => decide (0 < r.updateTa)).map fun r => r.updateTa - 31).sum

/-- A user starts from one timing advance, which is not 0. At a record without one, the commands
0 since the most recent start are made up for by what was counted before it. -/
structure Steady (h : List Record) : Prop where
  positive : ∀ r ∈ h, r.hasInitial = true → 0 < r.initialTa
  same : ∀ r ∈ h, ∀ r' ∈ h, r.hasInitial = true → r'.hasInitial = true →
    r.initialTa = r'.initialTa
  balanced : ∀ p, p <+: h → (∃ r ∈ p, r.hasInitial = true) →
    (∀ r ∈ p.getLast?, r.hasInitial = false) →
    positiveAdvance (earlier p) =
      -31 * ((sinceInitial p).countP fun r => decide (r.updateTa = 0) : Nat)

/-! ## Sums of commands -/

theorem advance_cons (r : Record) (h : List Record) : advance (r :: h) =
    (if 0 ≤ r.updateTa ∧ r.updateTa ≤ 63 then r.updateTa - 31 else 0) + advance h := by
  unfold advance
  rw [List.filter_cons]
  unfold Record.hasCommand
  split_ifs <;> simp_all

theorem positiveAdvance_cons (r : Record) (h : List Record) : positiveAdvance (r :: h) =
    (if 0 < r.updateTa then r.updateTa - 31 else 0) + positiveAdvance h := by
  unfold positiveAdvance
  rw [List.filter_cons]
  split_ifs <;> simp_all

theorem positiveAdvance_append (h h' : List Record) :
    positiveAdvance (h ++ h') = positiveAdvance h + positiveAdvance h' := by
  unfold positiveAdvance
  rw [List.filter_append, List.map_append, List.sum_append]

/-- The commands 0 stand for -31 each. -/
theorem advance_eq {h : List Record} (hread : ∀ r ∈ h, r.Read) :
    advance h =
      positiveAdvance h - 31 * (h.countP fun r => decide (r.updateTa = 0) : Nat) := by
  induction h with
  | nil => rfl
  | cons r h ih =>
    have hr := (hread r List.mem_cons_self).updateTa
    have hrest := ih fun r hr => hread r (List.mem_cons_of_mem _ hr)
    rw [advance_cons, positiveAdvance_cons, List.countP_cons, hrest]
    simp only [decide_eq_true_eq]
    split_ifs <;> omega

/-! ## One user -/

/-- The columns of the first entry of a user. -/
def account (u : Int) (list : List Entry) : Option (Int × Int) :=
  (list.find? fun e => decide (e.rnti = u)).map fun e => (e.initialTa, e.currentTa)

/-- The timing advance after a record. -/
def count (current : Int) (r : Record) : Int :=
  if r.updateTa > 0 then current + r.updateTa - 31 else current

def change (a : Option (Int × Int)) (r : Record) : Option (Int × Int) :=
  match a with
  | none => if r.initialTa > 0 then some (r.initialTa, r.initialTa) else none
  | some (initial, current) => some (initial, count current r)

def output (a : Option (Int × Int)) (r : Record) : Record :=
  match a with
  | none => if r.initialTa > 0 then { r with currentTa := r.initialTa } else r
  | some (initial, current) =>
    { r with
      initialTa := initial
      currentTa := if r.initialTa > 0 then initial else count current r }

section Account

variable {u : Int} {list : List Entry} {r : Record}

/-- A round for a user changes the first entry of the user, or starts one. -/
theorem taUpdate_self (hr : r.rnti = u) :
    account u (taUpdate list r).1 = change (account u list) r ∧
      (taUpdate list r).2 = output (account u list) r := by
  subst hr
  unfold taUpdate account
  cases hpos : list.findIdx? fun e => decide (e.rnti = r.rnti) with
  | none =>
    have hnone : list.find? (fun e => decide (e.rnti = r.rnti)) = none := by
      rw [List.find?_eq_bind_findIdx?_getElem?, hpos]
      rfl
    simp only [hnone, Option.map_none, change, output]
    split_ifs <;> simp [hnone]
  | some position =>
    have hsome := getElem?_findIdx? hpos
    obtain ⟨hlt, -⟩ := List.findIdx?_eq_some_iff_getElem.mp hpos
    rw [List.getElem?_eq_getElem hlt] at hsome
    have hself := find?_modify_self (f := fun e : Entry =>
      { e with currentTa := e.currentTa + r.updateTa - 31 }) hpos fun _ => rfl
    simp only [← hsome, Option.map_some, change, output, count]
    split_ifs <;> simp [← hsome, hself, List.getElem?_eq_getElem hlt]

/-- No other user sees it. -/
theorem taUpdate_other (hr : r.rnti ≠ u) :
    account u (taUpdate list r).1 = account u list := by
  unfold taUpdate account
  cases hpos : list.findIdx? fun e => decide (e.rnti = r.rnti) with
  | none =>
    simp only
    split_ifs <;> simp [hr]
  | some position =>
    obtain ⟨hlt, -⟩ := List.findIdx?_eq_some_iff_getElem.mp hpos
    have hother := find?_modify_other (q := fun e : Entry => decide (e.rnti = u))
      (f := fun e : Entry => { e with currentTa := e.currentTa + r.updateTa - 31 }) hpos (by
        intro e he
        have hne : e.rnti ≠ u := by simpa [of_decide_eq_true he] using hr
        simp [hne])
    simp only
    split_ifs <;> simp [hr, hother, List.getElem?_eq_getElem hlt]

/-- The entry of a user depends on its own records alone. -/
theorem account_scan (xs : List Record) :
    account u (scan taUpdate [] xs).1 =
      (xs.filter fun r => decide (r.rnti = u)).foldl change none :=
  scan_view (account u) (fun r : Record => decide (r.rnti = u)) change
    (fun _ _ hr => (taUpdate_self (of_decide_eq_true hr)).1)
    (fun _ _ hr => taUpdate_other (of_decide_eq_false hr)) [] xs

/-- A user that has an entry keeps it, and each command but 0 is counted. -/
theorem foldl_change_some (initial current : Int) (h : List Record) :
    h.foldl change (some (initial, current)) = some (initial, current + positiveAdvance h) := by
  induction h generalizing current with
  | nil => simp [positiveAdvance]
  | cons r h ih =>
    rw [List.foldl_cons, change, ih, positiveAdvance_cons]
    unfold count
    split_ifs
    · rw [← Int.add_assoc, ← Int.add_sub_assoc]
    · rw [Int.zero_add]

theorem foldl_change_none {h : List Record} (hno : ∀ r ∈ h, r.hasInitial = false) :
    h.foldl change none = none := by
  induction h with
  | nil => rfl
  | cons r h ih =>
    have hr := hno r List.mem_cons_self
    simp only [Record.hasInitial, decide_eq_false_iff_not] at hr
    rw [List.foldl_cons, change, if_neg (by omega)]
    exact ih fun r hr => hno r (List.mem_cons_of_mem _ hr)

end Account

/-! ## The start of a user -/

section Start

variable {h pre post : List Record} {first r : Record}

/-- A history split at the first record with an initial timing advance. -/
structure StartsAt (h pre : List Record) (first : Record) (post : List Record) : Prop where
  split : h = pre ++ first :: post
  before : ∀ r ∈ pre, r.hasInitial = false
  initial : first.hasInitial = true

theorem exists_startsAt (h : List Record) (hsome : ∃ r ∈ h, r.hasInitial = true) :
    ∃ pre first post, StartsAt h pre first post := by
  obtain ⟨r, hr⟩ := Option.isSome_iff_exists.mp (List.find?_isSome.mpr hsome)
  obtain ⟨hinit, pre, post, hsplit, hbefore⟩ := List.find?_eq_some_iff_append.mp hr
  exact ⟨pre, r, post, hsplit, fun r hr => by simpa using hbefore r hr, hinit⟩

theorem StartsAt.snoc (hs : StartsAt h pre first post) (r : Record) :
    StartsAt (h ++ [r]) pre first (post ++ [r]) :=
  ⟨by rw [hs.split, List.append_assoc, List.cons_append], hs.before, hs.initial⟩

/-- What the list has for the user. -/
theorem StartsAt.foldl_change (hs : StartsAt h pre first post) (hpos : 0 < first.initialTa) :
    h.foldl change none =
      some (first.initialTa, first.initialTa + positiveAdvance post) := by
  rw [hs.split, List.foldl_append, foldl_change_none hs.before, List.foldl_cons, change,
    if_pos hpos, foldl_change_some]

theorem StartsAt.dropWhile_eq (hs : StartsAt h pre first post) :
    (h.dropWhile fun r => !r.hasInitial) = first :: post := by
  rw [hs.split, List.dropWhile_append_of_pos (by simpa using hs.before),
    List.dropWhile_cons_of_neg (by simp [hs.initial])]

theorem StartsAt.earlier_eq (hs : StartsAt h pre first post) :
    earlier h = post.rdropWhile fun r => !r.hasInitial := by
  unfold earlier
  rw [hs.dropWhile_eq, List.tail_cons]

theorem StartsAt.sinceInitial_eq (hs : StartsAt h pre first post) :
    sinceInitial h = post.rtakeWhile fun r => !r.hasInitial := by
  unfold sinceInitial
  rw [hs.split]
  have hstop : ¬ (!first.hasInitial) = true := by simp [hs.initial]
  exact rtakeWhile_append_cons (p := fun r : Record => !r.hasInitial) hstop post

/-- The commands since the start make up for those of the value 0 exactly when the code counts
what the commands since the most recent start add up to. -/
theorem StartsAt.balanced_iff (hs : StartsAt h pre first post)
    (hread : ∀ r ∈ h, r.Read) :
    positiveAdvance post = advance (sinceInitial h) ↔
      positiveAdvance (earlier h) =
        -31 * ((sinceInitial h).countP fun r => decide (r.updateTa = 0) : Nat) := by
  have hparts : positiveAdvance post =
      positiveAdvance (earlier h) + positiveAdvance (sinceInitial h) := by
    rw [hs.earlier_eq, hs.sinceInitial_eq, ← positiveAdvance_append,
      List.rdropWhile_append_rtakeWhile]
  have hsince : advance (sinceInitial h) = _ :=
    advance_eq fun r hr => hread r ((List.rtakeWhile_suffix _ h).subset hr)
  rw [hparts, hsince]
  omega

/-- A user with one start, which is not 0, and no command 0 after it. -/
theorem StartsAt.steady (hs : StartsAt h pre first post) (hpos : 0 < first.initialTa)
    (hone : ∀ r ∈ post, r.hasInitial = false) (hzero : ∀ r ∈ post, r.updateTa ≠ 0) :
    Steady h := by
  have honly : ∀ r ∈ h, r.hasInitial = true → r = first := by
    intro r hr hinit
    rw [hs.split, List.mem_append, List.mem_cons] at hr
    rcases hr with hr | hr | hr
    · simp [hs.before r hr] at hinit
    · exact hr
    · simp [hone r hr] at hinit
  refine ⟨?_, ?_, ?_⟩
  · intro r hr hinit
    rwa [honly r hr hinit]
  · intro r hr r' hr' hinit hinit'
    rw [honly r hr hinit, honly r' hr' hinit']
  · rintro p ⟨rest, hrest⟩ hsome -
    obtain ⟨pre', first', post', hs'⟩ := exists_startsAt p hsome
    -- The start of `p` is the start of the whole history.
    have hwhole : StartsAt h pre' first' (post' ++ rest) :=
      ⟨by rw [← hrest, hs'.split, List.append_assoc, List.cons_append], hs'.before, hs'.initial⟩
    obtain ⟨-, rfl⟩ := List.cons.inj (hwhole.dropWhile_eq.symm.trans hs.dropWhile_eq)
    have hearlier : earlier p = [] := by
      rw [hs'.earlier_eq, List.rdropWhile_eq_nil_iff]
      intro r hr
      simp [hone r (List.mem_append_left rest hr)]
    have hnone : (sinceInitial p).countP (fun r => decide (r.updateTa = 0)) = 0 := by
      rw [hs'.sinceInitial_eq, List.countP_eq_zero]
      intro r hr
      have hmem := (List.rtakeWhile_suffix _ post').subset hr
      simpa using hzero r (List.mem_append_left rest hmem)
    rw [hearlier, hnone]
    rfl

end Start

/-! ## One record -/

section Last

variable {q pre mid : List Record} {first r : Record} {ta : Int}

theorem recentInitial_snoc (h : List Record) (r : Record) :
    recentInitial (h ++ [r]) = if r.hasInitial then some r.initialTa else recentInitial h := by
  unfold recentInitial
  rw [List.reverse_append, List.reverse_singleton, List.singleton_append, List.find?_cons]
  cases r.hasInitial <;> rfl

theorem recentInitial_mem {h : List Record} (hta : recentInitial h = some ta) :
    ∃ r ∈ h, r.hasInitial = true ∧ r.initialTa = ta := by
  unfold recentInitial at hta
  obtain ⟨r, hr, rfl⟩ := Option.map_eq_some_iff.mp hta
  exact ⟨r, List.mem_reverse.mp (List.mem_of_find?_eq_some hr), List.find?_some hr, rfl⟩

theorem recentInitial_isSome {h : List Record} (hr : r ∈ h) (hinit : r.hasInitial = true) :
    (recentInitial h).isSome = true := by
  unfold recentInitial
  rw [Option.isSome_map, List.find?_isSome]
  exact ⟨r, List.mem_reverse.mpr hr, hinit⟩

theorem sinceInitial_snoc (h : List Record) (hr : r.hasInitial = true) :
    sinceInitial (h ++ [r]) = [] :=
  List.rtakeWhile_concat_neg _ _ _ (by simp [hr])

/-- With an initial timing advance of its own a record is right if both columns are that. -/
theorem right_initial_iff {h : List Record} {out : Record} (hr : r.hasInitial = true) :
    Right (h ++ [r]) out ↔ out.initialTa = r.initialTa ∧ out.currentTa = r.initialTa := by
  unfold Right
  rw [recentInitial_snoc, if_pos hr, sinceInitial_snoc h hr]
  simp [advance]

/-- The first initial timing advance is stored unless it is 0. -/
theorem right_first (hq : ∀ r ∈ q, r.hasInitial = false) (hr : r.hasInitial = true)
    (hread : r.Read) :
    Right (q ++ [r]) (output (q.foldl change none) r) ↔ 0 < r.initialTa := by
  have hnonneg : 0 ≤ r.initialTa := of_decide_eq_true hr
  rw [right_initial_iff hr, foldl_change_none hq]
  simp only [output]
  split_ifs with hpos
  · simpa using hpos
  · have hcurrent := hread.currentTa
    omega

/-- Any other one is replaced by the first. -/
theorem right_again (hs : StartsAt q pre first mid) (hpos : 0 < first.initialTa)
    (hr : r.hasInitial = true) :
    Right (q ++ [r]) (output (q.foldl change none) r) ↔ r.initialTa = first.initialTa := by
  rw [right_initial_iff hr, hs.foldl_change hpos]
  simp only [output]
  constructor
  · rintro ⟨hinit, -⟩
    exact hinit.symm
  · intro hinit
    rw [hinit, if_pos hpos]
    exact ⟨rfl, rfl⟩

theorem right_absent (hq : ∀ r' ∈ q ++ [r], r'.hasInitial = false) (out : Record) :
    Right (q ++ [r]) out := by
  intro ta hta
  obtain ⟨r', hr', hinit, -⟩ := recentInitial_mem hta
  rw [hq r' hr'] at hinit
  cases hinit

/-- Without one, the record has the first initial timing advance and what was counted since. -/
theorem right_follows (hs : StartsAt q pre first mid) (hpos : 0 < first.initialTa)
    (hr : r.hasInitial = false) (hta : recentInitial q = some ta) :
    Right (q ++ [r]) (output (q.foldl change none) r) ↔
      first.initialTa = ta ∧ first.initialTa + positiveAdvance (mid ++ [r]) =
        ta + advance (sinceInitial (q ++ [r])) := by
  have hnot : ¬ r.initialTa > 0 := by
    have := of_decide_eq_false hr
    omega
  have hcount : count (first.initialTa + positiveAdvance mid) r =
      first.initialTa + positiveAdvance (mid ++ [r]) := by
    rw [positiveAdvance_append, positiveAdvance_cons]
    unfold count
    split_ifs
    · simp [positiveAdvance]
      omega
    · simp [positiveAdvance]
  unfold Right
  rw [recentInitial_snoc, hr, if_neg (by simp), hta, hs.foldl_change hpos]
  simp only [output, if_neg hnot, hcount, Option.some.injEq, forall_eq']

end Last

/-! ## All records of a user -/

section User

variable {h : List Record}

/-- Each record is right that has an initial timing advance or follows one. -/
def AllRight (h : List Record) : Prop :=
  ∀ q r, q ++ [r] <+: h → Right (q ++ [r]) (output (q.foldl change none) r)

/-- When all are right, each initial timing advance is the first one. -/
theorem AllRight.initials (hall : AllRight h) (hread : ∀ r ∈ h, r.Read) {pre post : List Record}
    {first : Record} (hs : StartsAt h pre first post) :
    0 < first.initialTa ∧ ∀ r ∈ h, r.hasInitial = true → r.initialTa = first.initialTa := by
  have hpos : 0 < first.initialTa := by
    refine (right_first hs.before hs.initial (hread first ?_)).mp (hall pre first ?_)
    · rw [hs.split]
      exact List.mem_append_right _ List.mem_cons_self
    · exact ⟨post, by rw [hs.split, List.append_assoc, List.singleton_append]⟩
  refine ⟨hpos, fun r hr hinit => ?_⟩
  rw [hs.split] at hr
  rcases List.mem_append.mp hr with hr | hr
  · rw [hs.before r hr] at hinit
    cases hinit
  · rcases List.mem_cons.mp hr with rfl | hr
    · rfl
    · obtain ⟨mid, rest, rfl⟩ := List.append_of_mem hr
      have hq : StartsAt (pre ++ first :: mid) pre first mid := ⟨rfl, hs.before, hs.initial⟩
      refine (right_again hq hpos hinit).mp (hall _ r ⟨rest, ?_⟩)
      rw [hs.split]
      simp

theorem AllRight.steady (hall : AllRight h) (hread : ∀ r ∈ h, r.Read) : Steady h := by
  have hinitials : ∀ r ∈ h, r.hasInitial = true → ∃ ta, 0 < ta ∧
      ∀ r ∈ h, r.hasInitial = true → r.initialTa = ta := by
    intro r hr hinit
    obtain ⟨pre, first, post, hs⟩ := exists_startsAt h ⟨r, hr, hinit⟩
    exact ⟨first.initialTa, hall.initials hread hs⟩
  refine ⟨?_, ?_, ?_⟩
  · intro r hr hinit
    obtain ⟨ta, hpos, hsame⟩ := hinitials r hr hinit
    rw [hsame r hr hinit]
    exact hpos
  · intro r hr r' hr' hinit hinit'
    obtain ⟨ta, -, hsame⟩ := hinitials r hr hinit
    rw [hsame r hr hinit, hsame r' hr' hinit']
  · intro p hp hsome hlast
    obtain ⟨r0, hr0, hinit0⟩ := hsome
    obtain ⟨q, r, rfl⟩ : ∃ q r, p = q ++ [r] := by
      rcases List.eq_nil_or_concat p with rfl | ⟨q, r, rfl⟩
      · cases hr0
      · exact ⟨q, r, by rw [List.concat_eq_append]⟩
    have hr : r.hasInitial = false := hlast r (by simp)
    have hq0 : r0 ∈ q := by
      rcases List.mem_append.mp hr0 with hr0 | hr0
      · exact hr0
      · rw [List.mem_singleton.mp hr0, hr] at hinit0
        cases hinit0
    obtain ⟨pre, first, mid, hs⟩ := exists_startsAt q ⟨r0, hq0, hinit0⟩
    obtain ⟨ta, hta⟩ := Option.isSome_iff_exists.mp (recentInitial_isSome hq0 hinit0)
    have hsub : ∀ r ∈ q, r ∈ h := fun r hr => hp.subset (List.mem_append_left _ hr)
    have hfirst : first ∈ q := by
      rw [hs.split]
      exact List.mem_append_right _ List.mem_cons_self
    obtain ⟨ta0, hpos, hsame⟩ := hinitials r0 (hsub r0 hq0) hinit0
    rw [← hsame first (hsub first hfirst) hs.initial] at hpos
    obtain ⟨hta0, hsum⟩ := (right_follows hs hpos hr hta).mp (hall q r hp)
    refine ((hs.snoc r).balanced_iff fun r hr => hread r (hp.subset hr)).mp ?_
    omega

theorem Steady.allRight (hst : Steady h) (hread : ∀ r ∈ h, r.Read) : AllRight h := by
  intro q r hp
  have hmem : r ∈ h := hp.subset (List.mem_append_right _ (List.mem_singleton_self r))
  have hsub : ∀ r ∈ q, r ∈ h := fun r hr => hp.subset (List.mem_append_left _ hr)
  by_cases hq : ∃ r ∈ q, r.hasInitial = true
  · obtain ⟨pre, first, mid, hs⟩ := exists_startsAt q hq
    have hfirst : first ∈ q := by
      rw [hs.split]
      exact List.mem_append_right _ List.mem_cons_self
    have hpos : 0 < first.initialTa := hst.positive first (hsub first hfirst) hs.initial
    cases hr : r.hasInitial with
    | true =>
      exact (right_again hs hpos hr).mpr (hst.same r hmem first (hsub first hfirst) hr hs.initial)
    | false =>
      obtain ⟨ta, hta⟩ := Option.isSome_iff_exists.mp (recentInitial_isSome hfirst hs.initial)
      obtain ⟨r', hr', hinit', rfl⟩ := recentInitial_mem hta
      have hsame := hst.same first (hsub first hfirst) r' (hsub r' hr') hs.initial hinit'
      have hbalanced := hst.balanced (q ++ [r]) hp
        ⟨first, List.mem_append_left _ hfirst, hs.initial⟩ (by simpa using hr)
      have hsum := ((hs.snoc r).balanced_iff fun r hr => hread r (hp.subset hr)).mpr hbalanced
      exact (right_follows hs hpos hr hta).mpr ⟨hsame, by rw [hsame, hsum]⟩
  · have hno : ∀ r ∈ q, r.hasInitial = false := by
      intro r hr
      rw [← Bool.not_eq_true]
      exact fun hinit => hq ⟨r, hr, hinit⟩
    cases hr : r.hasInitial with
    | true => exact (right_first hno hr (hread r hmem)).mpr (hst.positive r hmem hr)
    | false =>
      refine right_absent (fun r' hr' => ?_) _
      rcases List.mem_append.mp hr' with hr' | hr'
      · exact hno r' hr'
      · rwa [List.mem_singleton.mp hr']

end User

/-! ## All records of a file -/

namespace File

variable (f : File) (u : Int)

theorem flatten_rbusage6 :
    (rbusage6 f.data).2.flatten = (scan taUpdate [] f.data.flatten).2 :=
  (Prod.mk.inj (scan_flatten [] f.data)).2

theorem read_records : ∀ r ∈ f.records u, r.Read := by
  intro r hr
  obtain ⟨unit, hunit, hr⟩ := List.mem_flatten.mp (List.mem_filter.mp hr).1
  exact f.read unit hunit r hr

/-- What the file has for a record is what the records of its user give. -/
theorem getElem?_rbusage6 {n : Nat} {r : Record} (hr : f.data.flatten[n]? = some r)
    (hu : r.rnti = u) :
    (rbusage6 f.data).2.flatten[n]? =
      some (output (((f.data.flatten.take n).filter fun r => decide (r.rnti = u)).foldl
        change none) r) := by
  rw [flatten_rbusage6, scan_getElem?, hr, Option.map_some, (taUpdate_self hu).2, account_scan]

theorem accumulated_iff_allRight : f.Accumulated u ↔ AllRight (f.records u) := by
  unfold Accumulated AllRight history records
  constructor
  · intro h q r hp
    obtain ⟨n, hr, rfl, hu⟩ := prefix_filter hp
    have hright := h n r _ hr (of_decide_eq_true hu)
      (f.getElem?_rbusage6 u hr (of_decide_eq_true hu))
    rwa [filter_take_succ hr hu] at hright
  · intro h n r out hr hu hout
    have hhist := filter_take_succ (p := fun r : Record => decide (r.rnti = u)) hr
      (decide_eq_true hu)
    rw [f.getElem?_rbusage6 u hr hu] at hout
    rw [← Option.some.inj hout, hhist]
    refine h _ r ?_
    rw [← hhist]
    exact (List.take_prefix _ _).filter _

/-- **Timing advance.** The records of a user are right in the whole file if and only if each of
its initial timing advances is the same one, which is not 0, and no command 0 is missing from the
sum. -/
theorem accumulated_iff : f.Accumulated u ↔ Steady (f.records u) := by
  rw [accumulated_iff_allRight]
  exact ⟨fun h => h.steady (f.read_records u), fun h => h.allRight (f.read_records u)⟩

/-- A user gets 100 and then the command 0, which takes 31 off. -/
def zeroCommand : File where
  data := [[⟨70, 100, -1, -1⟩], [⟨70, -1, 0, -1⟩]]
  read := by
    intro unit hunit r hr
    fin_cases hunit <;> fin_cases hr <;> exact ⟨by decide, by decide, rfl⟩

theorem zeroCommand_not_accumulated : ¬ zeroCommand.Accumulated 70 := by
  intro h
  obtain ⟨-, hcurrent⟩ := h 1 _ ⟨70, 100, 0, 100⟩ rfl rfl (by decide) 100 (by decide)
  exact absurd hcurrent (by decide)

end File

end Srsenb.Trace.TaUpdates
