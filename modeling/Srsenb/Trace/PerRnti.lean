import Mathlib.Data.List.Dedup
import Srsenb.Base.Runs
import Srsenb.Base.Vectors
import Srsenb.Trace.OffOn

/-! # Activity periods of the users (`dlperRnti.m`)

The RBs of a TTI are a column of the matrix of an hour. A step on which the script ends with an
error gives `none`. -/

open Srsenb.Vec Srsenb.Pulses

namespace Srsenb.Trace.PerRnti

def nrb : Nat := 50

/-- A column of `p_currentH`: the RNTI of each RB. -/
abbrev Tti := Vector Nat nrb

/-- A row of `rnti_hour{i,2}{j,2}`. -/
structure Record where
  start : Nat
  duration : Int
  total : Nat
  deriving DecidableEq

def currentH (hour : List Tti) : List Nat := hour.flatMap fun tti => tti.toList

/-- `unique(currentH)`, without what is no C-RNTI. -/
def listOfrnti (hour : List Tti) : List Nat :=
  let listOfrnti := (currentH hour).dedup.mergeSort
  (listOfrnti.filter fun rnti => decide (¬ rnti > 65523)).filter fun rnti => decide (¬ rnti < 1)

/-- `sum(p_currentH == listOfrnti(j))` -/
def ttiWithRnti (hour : List Tti) (rnti : Nat) : List Nat :=
  hour.map fun tti => tti.toList.count rnti

def p1TtiWithRnti (ttiWithRnti : List Nat) : List Int :=
  ttiWithRnti.map fun n => if n > 0 then 1 else 0

/-- The round `k` of a loop over the records, which takes the falling edge `k + j`. -/
def recordAt (ttiWithRnti p1Pos m1Pos : List Nat) (j k : Nat) : Option Record := do
  let p1 ← entry p1Pos k
  let m1 ← entry m1Pos (k + j)
  let ttis ← range ttiWithRnti p1 m1
  some ⟨p1, m1 - p1, ttis.sum⟩

/-- The records of one RNTI; the cell stays empty on a `continue`. -/
def records (ttiWithRnti : List Nat) : Option (List Record) :=
  let p2TtiWithRnti := rbUsageP2 (p1TtiWithRnti ttiWithRnti)
  let m1Pos := positions (-1) p2TtiWithRnti
  let p1Pos := positions 1 p2TtiWithRnti
  match m1Pos.head?, p1Pos.head? with
  | some m1, some p1 =>
    if m1 < p1 then
      if m1Pos.length > 2 then
        (List.range' 1 (m1Pos.length - 1)).mapM (recordAt ttiWithRnti p1Pos m1Pos 1)
      else some []
    else if m1Pos.length + p1Pos.length > 1 then
      (List.range' 1 m1Pos.length).mapM (recordAt ttiWithRnti p1Pos m1Pos 0)
    else some []
  | _, _ => some []

/-- `rnti_hour{i,2}` -/
def rntiHour (hour : List Tti) : Option (List (Nat × List Record)) :=
  (listOfrnti hour).mapM fun rnti => (records (ttiWithRnti hour rnti)).map (rnti, ·)

/-! ## Complete periods -/

/-- A period of TTIs with RBs of the RNTI that the TTIs before and after it do not have. -/
def Period (ttiWithRnti : List Nat) (r : Record) : Prop :=
  ∃ before ttis after, ttiWithRnti = before ++ 0 :: (ttis ++ 0 :: after) ∧
    ttis ≠ [] ∧ (∀ n ∈ ttis, 0 < n) ∧
    r = ⟨before.length + 2, ttis.length, ttis.sum⟩

/-- The records are the complete periods, in order. -/
structure Complete (ttiWithRnti : List Nat) (records : List Record) : Prop where
  periods : ∀ r, r ∈ records ↔ Period ttiWithRnti r
  sorted : records.Pairwise fun r r' => r.start < r'.start

/-- A C-RNTI with RBs in the hour. -/
structure User (hour : List Tti) where
  rnti : Nat
  tti : Tti
  tti_mem : tti ∈ hour
  rnti_mem : rnti ∈ tti.toList
  pos : 1 ≤ rnti
  le : rnti ≤ 65523

/-- The script stores the complete periods of a user. -/
def User.Recorded {hour : List Tti} (u : User hour) : Prop :=
  ∃ stored records, rntiHour hour = some stored ∧ (u.rnti, records) ∈ stored ∧
    Complete (ttiWithRnti hour u.rnti) records

/-- The RNTI is active in the first TTI, and has one complete period. -/
def User.OnePeriod {hour : List Tti} (u : User hour) : Prop :=
  0 < (ttiWithRnti hour u.rnti).headD 0 ∧ ∃! r, Period (ttiWithRnti hour u.rnti) r

/-! ## Periods and runs -/

variable {counts : List Nat}

/-- The period of a run. -/
def recordOf (counts : List Nat) (r : Nat × Nat) : Record :=
  ⟨r.1, r.2, (slice (r.1 - 1) r.2 counts).sum⟩

theorem slice_middle (before ttis after : List Nat) :
    slice (before.length + 1) ttis.length (before ++ 0 :: (ttis ++ after)) = ttis := by
  have hsplit : before ++ 0 :: (ttis ++ after) = (before ++ [0]) ++ (ttis ++ after) := by simp
  rw [hsplit, slice, List.drop_left' (by simp), List.take_left]

/-- The RBs of a period, with the TTI after it. -/
theorem range_middle (before ttis after : List Nat) :
    range (before ++ 0 :: (ttis ++ 0 :: after)) (before.length + 2)
      (before.length + 2 + ttis.length) = some (ttis ++ [0]) := by
  have hrange := range_eq (v := before ++ 0 :: (ttis ++ 0 :: after)) (a := before.length + 1)
    (n := ttis.length + 1) (by simp; omega)
  have hslice := slice_middle before (ttis ++ [0]) after
  rw [List.length_append, List.length_singleton, List.append_assoc, List.singleton_append] at hslice
  rw [hslice] at hrange
  rw [← hrange]
  congr 1
  omega

theorem p1_active {ttis : List Nat} (h : ∀ n ∈ ttis, 0 < n) :
    p1TtiWithRnti ttis = List.replicate ttis.length 1 := by
  unfold p1TtiWithRnti
  rw [List.eq_replicate_iff]
  refine ⟨List.length_map _, fun x hx => ?_⟩
  obtain ⟨n, hn, rfl⟩ := List.mem_map.1 hx
  exact if_pos (h n hn)

theorem active_of_p1 {ttis : List Nat} {k : Nat} (h : p1TtiWithRnti ttis = List.replicate k 1) :
    ttis.length = k ∧ ∀ n ∈ ttis, 0 < n := by
  obtain ⟨hlen, hall⟩ := List.eq_replicate_iff.1 h
  refine ⟨by rwa [p1TtiWithRnti, List.length_map] at hlen, fun n hn => ?_⟩
  by_contra hzero
  have hone := hall _ (List.mem_map_of_mem hn)
  rw [if_neg hzero] at hone
  exact absurd hone (by decide)

theorem zero_of_p1 {l : List Nat} {s : List Int} (h : p1TtiWithRnti l = 0 :: s) :
    ∃ rest, l = 0 :: rest ∧ p1TtiWithRnti rest = s := by
  obtain ⟨n, rest, rfl, hn, hrest⟩ := List.map_eq_cons_iff.1 h
  split_ifs at hn with hpos
  · cases hn
  · obtain rfl : n = 0 := by omega
    exact ⟨rest, rfl, hrest⟩

/-- The complete periods are the runs of the signal. -/
theorem period_iff {r : Record} :
    Period counts r ↔
      ∃ q : Nat × Nat, Run (p1TtiWithRnti counts) q.1 q.2 ∧ r = recordOf counts q := by
  constructor
  · rintro ⟨before, ttis, after, rfl, hne, hpos, rfl⟩
    refine ⟨(before.length + 2, ttis.length),
      ⟨p1TtiWithRnti before, p1TtiWithRnti after, ?_, ?_, ?_⟩, ?_⟩
    · rw [← p1_active hpos]
      simp [p1TtiWithRnti]
    · exact List.length_pos_iff.2 hne
    · rw [p1TtiWithRnti, List.length_map]
    · rw [recordOf, show before.length + 2 - 1 = before.length + 1 by omega, slice_middle]
  · rintro ⟨⟨start, n⟩, ⟨u, v, heq, hn, rfl⟩, rfl⟩
    obtain ⟨before, front, rfl, rfl, hfront⟩ := List.map_eq_append_iff.1 heq
    obtain ⟨middle, rfl, hmiddle⟩ := zero_of_p1 hfront
    obtain ⟨ttis, last, rfl, httis, hlast⟩ := List.map_eq_append_iff.1 hmiddle
    obtain ⟨rfl, hpos⟩ := active_of_p1 httis
    obtain ⟨after, rfl, -⟩ := zero_of_p1 hlast
    refine ⟨before, ttis, after, rfl, List.length_pos_iff.1 hn, hpos, ?_⟩
    rw [recordOf, List.length_map, show before.length + 2 - 1 = before.length + 1 by omega,
      slice_middle]

theorem recordAt_of_run {q : Nat × Nat} (hrun : Run (p1TtiWithRnti counts) q.1 q.2)
    {p1Pos m1Pos : List Nat} {j k : Nat} (hp : entry p1Pos k = some q.1)
    (hm : entry m1Pos (k + j) = some (q.1 + q.2)) :
    recordAt counts p1Pos m1Pos j k = some (recordOf counts q) := by
  obtain ⟨before, ttis, after, hcounts, -, -, heq⟩ := period_iff.2 ⟨q, hrun, rfl⟩
  obtain ⟨start, n⟩ := q
  obtain ⟨hstart, hn, -⟩ := Record.mk.inj heq
  simp only [Nat.cast_inj] at hstart hn
  subst hstart hn
  have hrange : range counts (before.length + 2) (before.length + 2 + ttis.length) =
      some (ttis ++ [0]) := by
    rw [hcounts, range_middle]
  unfold recordAt
  rw [hp, hm, Option.bind_eq_bind, Option.bind_some, Option.bind_eq_bind, Option.bind_some, hrange,
    heq]
  simp

/-! ## The loops over the records -/

section Loops

variable {qs ps : List (Nat × Nat)} {e a c : Nat}

/-- Edges that are those of runs, with `first` before the falling and `last` after the rising
ones. -/
theorem loop_of_runs (hruns : ∀ q ∈ qs, Run (p1TtiWithRnti counts) q.1 q.2)
    (first last : List Nat) :
    (List.range' 1 qs.length).mapM (recordAt counts (qs.map Prod.fst ++ last)
        (first ++ qs.map fun q => q.1 + q.2) first.length) =
      some (qs.map (recordOf counts)) := by
  have hloop := mapM_range' (l := qs.map (recordOf counts)) (b := 1)
    (f := recordAt counts (qs.map Prod.fst ++ last) (first ++ qs.map fun q => q.1 + q.2)
      first.length) (fun k r hk => ?_)
  · rwa [List.length_map] at hloop
  · rw [List.getElem?_map, Option.map_eq_some_iff] at hk
    obtain ⟨q, hq, rfl⟩ := hk
    have hlt := (List.getElem?_eq_some_iff.1 hq).1
    apply recordAt_of_run (hruns q (List.mem_of_getElem? hq))
    · rw [Nat.add_comm, entry_succ, List.getElem?_append_left (by rwa [List.length_map]),
        List.getElem?_map, hq, Option.map_some]
    · rw [show 1 + k + first.length = first.length + k + 1 by omega, entry_succ,
        List.getElem?_append_right (Nat.le_add_right _ _), Nat.add_sub_cancel_left,
        List.getElem?_map, hq, Option.map_some]

theorem runs_of_signal (hps : Proper ps) (hs : p1TtiWithRnti counts = signal e ps a c) :
    ∀ q ∈ spans (e + 1) ps, Run (p1TtiWithRnti counts) q.1 q.2 := fun q hq => by
  rw [hs]
  exact (run_signal_iff hps e a c).2 hq

/-- An RNTI that is active all the time, or never. -/
theorem records_flat (hs : p1TtiWithRnti counts = List.replicate e 1) :
    records counts = some [] := by
  have hnone : positions (-1) (steps (List.replicate e 1)) = [] :=
    positionsFrom_eq_nil (neg_one_notMem_steps 0 e)
  unfold records
  simp only [rbUsageP2_eq, hs, hnone, List.head?_nil]

/-- An RNTI that is not active in the first TTI: all its periods that end. -/
theorem records_of_zero (hps : Proper ps) (hs : p1TtiWithRnti counts = signal 0 ps a c) :
    records counts = some ((spans 1 ps).map (recordOf counts)) := by
  obtain ⟨last, hm1, hp1⟩ := edges_of_zero hps a c
  have hloop := loop_of_runs (runs_of_signal hps hs) [] last
  simp only [records, rbUsageP2_eq, hs, hm1, hp1]
  cases ps with
  | nil => rfl
  | cons p ps =>
    rw [List.length_nil, List.nil_append] at hloop
    have hlen : ((spans 1 (p :: ps)).map fun r => r.1 + r.2).length = (spans 1 (p :: ps)).length :=
      List.length_map _
    have hle : ¬ 1 + p.1 + p.2 < 1 + p.1 := Nat.not_lt.2 (Nat.le_add_right _ _)
    simp only [hlen, hloop]
    simp only [spans, List.map_cons, List.head?_cons, List.cons_append, List.length_cons]
    rw [if_neg hle, if_pos (by omega)]

/-- An RNTI that is active in the first TTI: its periods that end, if there are not one. -/
theorem records_of_ones (hps : Proper ps) (hs : p1TtiWithRnti counts = signal (e + 1) ps a c) :
    records counts =
      some (if ps.length = 1 then [] else (spans (e + 2) ps).map (recordOf counts)) := by
  obtain ⟨last, hm1, hp1, hlast⟩ := edges_of_ones hps e a c
  have hloop := loop_of_runs (runs_of_signal hps hs) [e + 2] last
  rw [List.length_singleton, List.singleton_append] at hloop
  simp only [records, rbUsageP2_eq, hs, hm1, hp1]
  cases ps with
  | nil =>
    cases last with
    | nil => rfl
    | cons x last =>
      have hlt : e + 2 < x := hlast x List.mem_cons_self
      simp [spans, hlt]
  | cons p ps =>
    have hlt : e + 2 < e + 2 + p.1 :=
      Nat.lt_add_of_pos_right (hps p List.mem_cons_self).1
    have hlen : ((spans (e + 2) (p :: ps)).map fun r => r.1 + r.2).length = ps.length + 1 := by
      rw [List.length_map, length_spans, List.length_cons]
    rw [length_spans, List.length_cons] at hloop
    simp only [List.length_cons, hlen, Nat.add_sub_cancel, hloop]
    simp only [spans, List.map_cons, List.head?_cons, List.cons_append, if_pos hlt]
    by_cases hone : ps.length = 0
    · rw [if_neg (by omega), if_pos (by omega)]
    · rw [if_pos (by omega), if_neg (by omega)]

end Loops

/-! ## Which periods are stored -/

section Stored

variable {ps : List (Nat × Nat)} {e a c : Nat}

theorem p1_zeroOne (counts : List Nat) : ∀ x ∈ p1TtiWithRnti counts, x = 0 ∨ x = 1 := by
  intro x hx
  obtain ⟨n, -, rfl⟩ := List.mem_map.1 hx
  split_ifs
  · exact Or.inr rfl
  · exact Or.inl rfl

theorem not_period_flat (hs : p1TtiWithRnti counts = List.replicate e 1) (r : Record) :
    ¬ Period counts r := by
  rw [period_iff, hs]
  rintro ⟨q, hrun, -⟩
  exact not_run_ones e hrun

theorem complete_spans (hps : Proper ps) (hs : p1TtiWithRnti counts = signal e ps a c) :
    Complete counts ((spans (e + 1) ps).map (recordOf counts)) where
  periods r := by
    rw [period_iff, hs, List.mem_map]
    apply exists_congr
    intro q
    rw [run_signal_iff hps, eq_comm (a := r)]
  sorted := List.pairwise_map.2 (sorted_spans hps _)

theorem existsUnique_mem_iff {records : List Record}
    (h : records.Pairwise fun r r' => r.start < r'.start) :
    (∃! r, r ∈ records) ↔ records.length = 1 := by
  constructor
  · rintro ⟨r, hr, hunique⟩
    match records, h with
    | [], _ => cases hr
    | [_], _ => rfl
    | x :: y :: rest, h =>
      have hx : x = r := hunique x (by simp)
      have hy : y = r := hunique y (by simp)
      have hlt := (List.pairwise_cons.1 h).1 y List.mem_cons_self
      rw [hx, hy] at hlt
      exact absurd hlt (Nat.lt_irrefl _)
  · intro hlen
    obtain ⟨r, rfl⟩ := List.length_eq_one_iff.1 hlen
    exact ⟨r, List.mem_singleton.2 rfl, fun r' hr' => List.mem_singleton.1 hr'⟩

theorem active_first_iff (hps : Proper ps) (hs : p1TtiWithRnti counts = signal e ps a c) :
    0 < counts.headD 0 ↔ e ≠ 0 := by
  cases counts with
  | nil => simp [p1TtiWithRnti, signal] at hs
  | cons n counts =>
    rw [List.headD_cons]
    cases e with
    | zero =>
      obtain ⟨rest, heq⟩ := wave_zero_cons hps a c
      rw [signal, List.replicate_zero, List.nil_append, heq] at hs
      obtain ⟨rest, hcounts, -⟩ := zero_of_p1 hs
      rw [(List.cons.inj hcounts).1]
      simp
    | succ e =>
      rw [signal, List.replicate_succ] at hs
      have hn : (if n > 0 then (1 : Int) else 0) = 1 := (List.cons.inj hs).1
      split_ifs at hn with hpos
      · simpa using hpos
      · cases hn

/-- The records of an RNTI are complete, but for one period after an active first TTI. -/
theorem complete_records_iff (counts : List Nat) :
    ∃ stored, records counts = some stored ∧
      (Complete counts stored ↔ ¬ (0 < counts.headD 0 ∧ ∃! r, Period counts r)) := by
  rcases signal_cases (p1_zeroOne counts) with ⟨e, hs⟩ | ⟨e, ps, a, c, hps, hs⟩
  · have hnone := not_period_flat hs
    refine ⟨[], records_flat hs, iff_of_true ⟨fun r => ?_, List.Pairwise.nil⟩ ?_⟩
    · exact iff_of_false List.not_mem_nil (hnone r)
    · rintro ⟨-, r, hr, -⟩
      exact hnone r hr
  · have hall := complete_spans hps hs
    have hone : (∃! r, Period counts r) ↔ ps.length = 1 := by
      simp only [← hall.periods, existsUnique_mem_iff hall.sorted, List.length_map, length_spans]
    rw [active_first_iff hps hs, hone]
    cases e with
    | zero => exact ⟨_, records_of_zero hps hs, iff_of_true hall fun h => h.1 rfl⟩
    | succ e =>
      refine ⟨_, records_of_ones hps hs, ?_⟩
      split_ifs with hlen
      · refine iff_of_false (fun hnone => ?_) fun h => h ⟨Nat.succ_ne_zero e, hlen⟩
        obtain ⟨r, hr, -⟩ := hone.2 hlen
        exact absurd ((hnone.periods r).2 hr) List.not_mem_nil
      · exact iff_of_true hall fun h => hlen h.2

theorem mem_listOfrnti {hour : List Tti} {rnti : Nat} :
    rnti ∈ listOfrnti hour ↔ (∃ tti ∈ hour, rnti ∈ tti.toList) ∧ 1 ≤ rnti ∧ rnti ≤ 65523 := by
  simp only [listOfrnti, currentH, List.mem_filter, List.mem_mergeSort, List.mem_dedup,
    List.mem_flatMap, decide_eq_true_eq]
  constructor
  · rintro ⟨⟨htti, hle⟩, hpos⟩
    exact ⟨htti, by omega, by omega⟩
  · rintro ⟨htti, hpos, hle⟩
    exact ⟨⟨htti, by omega⟩, by omega⟩

theorem rntiHour_eq (hour : List Tti) :
    rntiHour hour = some ((listOfrnti hour).map fun rnti =>
      (rnti, (records (ttiWithRnti hour rnti)).getD [])) := by
  apply mapM_of_forall
  intro rnti _
  obtain ⟨stored, hstored, -⟩ := complete_records_iff (ttiWithRnti hour rnti)
  rw [hstored]
  rfl

/-- Each user has an entry, with the records of its RNTI. -/
theorem User.recorded_iff_complete {hour : List Tti} (u : User hour) :
    u.Recorded ↔ ∃ stored, records (ttiWithRnti hour u.rnti) = some stored ∧
      Complete (ttiWithRnti hour u.rnti) stored := by
  have hmem : u.rnti ∈ listOfrnti hour :=
    mem_listOfrnti.2 ⟨⟨u.tti, u.tti_mem, u.rnti_mem⟩, u.pos, u.le⟩
  obtain ⟨found, hfound, -⟩ := complete_records_iff (ttiWithRnti hour u.rnti)
  constructor
  · rintro ⟨stored, records, hstored, hrecords, hcomplete⟩
    rw [rntiHour_eq] at hstored
    obtain rfl := Option.some.inj hstored
    obtain ⟨rnti, -, heq⟩ := List.mem_map.1 hrecords
    obtain ⟨rfl, rfl⟩ := Prod.mk.inj heq
    rw [hfound] at hcomplete
    exact ⟨found, hfound, hcomplete⟩
  · rintro ⟨stored, hstored, hcomplete⟩
    refine ⟨_, stored, rntiHour_eq hour, List.mem_map.2 ⟨u.rnti, hmem, ?_⟩, hcomplete⟩
    rw [hstored]
    rfl

/-- **Activity records**: the script stores the complete periods of a user, unless it is active in
the first TTI and has one complete period. -/
theorem User.recorded_iff {hour : List Tti} (u : User hour) : u.Recorded ↔ ¬ u.OnePeriod := by
  obtain ⟨stored, hstored, hiff⟩ := complete_records_iff (ttiWithRnti hour u.rnti)
  rw [u.recorded_iff_complete, OnePeriod, ← hiff, hstored]
  simp

/-- A user of all RBs in the first and in the third TTI. -/
def twoTtis : User [Vector.replicate nrb 70, Vector.replicate nrb 0, Vector.replicate nrb 70,
    Vector.replicate nrb 0] :=
  ⟨70, Vector.replicate nrb 70, List.mem_cons_self, by decide, by decide, by decide⟩

theorem twoTtis_not_recorded : ¬ twoTtis.Recorded := by
  rw [twoTtis.recorded_iff_complete]
  rintro ⟨stored, hstored, hcomplete⟩
  obtain rfl : [] = stored := Option.some.inj (hstored.symm.trans (by decide)).symm
  have hperiod : Period [50, 0, 50, 0] ⟨3, 1, 50⟩ :=
    ⟨[50], [50], [], rfl, by decide, by decide, rfl⟩
  exact absurd ((hcomplete.periods _).2 hperiod) List.not_mem_nil

end Stored

end Srsenb.Trace.PerRnti
