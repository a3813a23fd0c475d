import Srsenb.Trace.OffOn

/-! # The off times of a day (`ulInterRbTime.m`, `dlInterRbTime.m`, `compareData.m`)

The scripts keep a matrix of off times for each hour, with the number of columns in use for each
RB. `compareData` puts those of one RB into a row. RBs and columns are counted from 0 here. -/

open Srsenb.Vec Srsenb.Pulses

namespace Srsenb.Trace

/-- `hour_cell{i,:}`: the columns in use, and a row for each RB. -/
structure HourCell where
  filled : Nat
  rows : List (List Int)

/-- `hour_rb_inter_usage{i,:}`: twice the number of intervals, and what is stored of them. -/
structure HourUsage where
  counts : List Int
  stored : List (List Int)

/-- `v(1:n)` -/
def upTo (n : Int) (v : List Int) : Option (List Int) :=
  if n > v.length then none else some (v.take n.toNat)

/-- `m(j,1:numel(w)) = w`. The matrix grows when `w` is wider. -/
def setRow (m : List (List Int)) (j : Nat) (w : List Int) : List (List Int) :=
  m.mapIdx fun i r =>
    if i = j then w ++ r.drop w.length else r ++ List.replicate (w.length - r.length) 0

/-- The round of the interval loop for RB `j`. -/
def rbRound (hour : HourCell) (u : HourUsage) (j : Nat) : Option HourUsage := do
  let row ← hour.rows[j]?
  let rbUsage ← upTo hour.filled row
  let (nofIntervals2, stored) ← interRbUsage rbUsage
  some ⟨u.counts.set j nofIntervals2, setRow u.stored j stored⟩

/-- The loop over the RBs; `zeros(50,1)` and `zeros(50,3600*1000/2)` come before it. -/
def hourUsage (nrb width : Nat) (hour : HourCell) : Option HourUsage :=
  (List.range nrb).foldlM (rbRound hour)
    ⟨List.replicate nrb 0, List.replicate nrb (List.replicate width 0)⟩

/-- `v(idx:(idx+n-1)) = w`, where nothing is assigned for an `n` that is not positive. -/
def setFrom (v : List Int) (idx n : Int) (w : List Int) : Option (List Int) :=
  if n ≤ 0 then some v
  else if idx < 1 then none
  else
    let b := idx.toNat - 1
    let v := v ++ List.replicate (b - v.length) 0
    some (v.take b ++ w ++ v.drop (b + w.length))

/-- A round of the second loop of `compareData`, with `rb_offTime` and `idx`. -/
def concatRound (rb : Nat) (st : List Int × Int) (u : HourUsage) : Option (List Int × Int) := do
  let count := (← u.counts[rb]?) / 2
  let offTime ← upTo count (← u.stored[rb]?)
  let rbOffTime ← setFrom st.1 st.2 count offTime
  some (rbOffTime, st.2 + count)

/-- `compareData`, up to `rb_offTime` and `rb_offTime_count`. -/
def compareData (rb : Nat) (day : List HourUsage) : Option (List Int × Int) := do
  let counts ← day.mapM fun u => u.counts[rb]?
  let rbOffTimeCount := (counts.map (· / 2)).sum
  let (rbOffTime, _) ← day.foldlM (concatRound rb) (List.replicate rbOffTimeCount.toNat 0, 1)
  some (rbOffTime, rbOffTimeCount)

/-- The off times that the interval loop finds. -/
def offTimes (rbUsage : List Int) : List Int :=
  let p2 := rbUsageP2 (rbUsageP1 rbUsage)
  if nofIntervals p2 > 0 then ((offIntervals p2).map Prod.fst).getD [] else []

/-- A data set: the rows of each of the 24 hours have the columns in use. -/
structure DayCells (nrb : Nat) where
  hours : List HourCell
  length_hours : hours.length = 24
  length_rows : ∀ h ∈ hours, h.rows.length = nrb
  filled_le : ∀ h ∈ hours, ∀ r ∈ h.rows, h.filled ≤ r.length

/-- The columns in use of an RB. -/
def HourCell.usageOf (h : HourCell) (rb : Nat) : List Int := (h.rows.getD rb []).take h.filled

/-- The row of `compareData` has the off times of the RB hour by hour, and as many as it says. -/
def Concatenated {nrb : Nat} (width rb : Nat) (d : DayCells nrb) : Prop :=
  ∃ count, (d.hours.mapM (hourUsage nrb width)).bind (compareData rb) =
      some (d.hours.flatMap fun h => offTimes (h.usageOf rb), count) ∧
    ((d.hours.flatMap fun h => offTimes (h.usageOf rb)).length : Int) = count

/-- The RB is in use in a column and not in the next. -/
def Falls (v : List Int) : Prop := ∃ pre x y post, v = pre ++ x :: y :: post ∧ 0 < x ∧ y ≤ 0

/-! ## An hour -/

theorem falls_cons (x y : Int) (ys : List Int) :
    Falls (x :: y :: ys) ↔ 0 < x ∧ y ≤ 0 ∨ Falls (y :: ys) := by
  constructor
  · rintro ⟨pre, a, b, post, heq, ha, hb⟩
    cases pre with
    | nil =>
      obtain ⟨rfl, rfl, -⟩ := by simpa using heq
      exact Or.inl ⟨ha, hb⟩
    | cons z pre =>
      obtain ⟨-, hrest⟩ := List.cons.inj heq
      exact Or.inr ⟨pre, a, b, post, hrest, ha, hb⟩
  · rintro (⟨hx, hy⟩ | ⟨pre, a, b, post, heq, ha, hb⟩)
    · exact ⟨[], x, y, ys, rfl, hx, hy⟩
    · exact ⟨x :: pre, a, b, post, by rw [heq, List.cons_append], ha, hb⟩

theorem not_falls_single (x : Int) : ¬ Falls [x] := by
  rintro ⟨pre, a, b, post, heq, -⟩
  have hlen := congrArg List.length heq
  simp only [List.length_append, List.length_cons, List.length_nil] at hlen
  omega

theorem neg_one_mem_deltas (x : Int) (xs : List Int) :
    -1 ∈ deltas (if x > 0 then 1 else 0) (rbUsageP1 xs) ↔ Falls (x :: xs) := by
  induction xs generalizing x with
  | nil => simp [rbUsageP1, deltas, not_falls_single]
  | cons y ys ih =>
    have hcons : rbUsageP1 (y :: ys) = (if y > 0 then 1 else 0) :: rbUsageP1 ys := rfl
    rw [hcons, deltas, List.mem_cons, ih, falls_cons]
    refine or_congr_left ?_
    split_ifs <;> omega

/-- The number of intervals is not below zero where there is a falling edge. -/
theorem nofIntervals_nonneg (v : List Int) :
    0 ≤ nofIntervals (rbUsageP2 (rbUsageP1 v)) ↔ Falls v := by
  have hcount : 0 ≤ nofIntervals (rbUsageP2 (rbUsageP1 v)) ↔
      -1 ∈ rbUsageP2 (rbUsageP1 v) := by
    unfold nofIntervals
    rw [← List.count_pos_iff]
    omega
  rw [hcount, rbUsageP2_eq]
  cases v with
  | nil =>
    refine iff_of_false (by simp [rbUsageP1, steps]) ?_
    rintro ⟨pre, a, b, post, heq, -⟩
    simp at heq
  | cons x xs =>
    have hcons : rbUsageP1 (x :: xs) = (if x > 0 then 1 else 0) :: rbUsageP1 xs := rfl
    rw [hcons, steps, List.mem_cons, neg_one_mem_deltas]
    simp

/-- What the loop stores of an RB begins with its off times. -/
theorem interRbUsage_offTimes (v : List Int) :
    ∃ lengths, interRbUsage v = some (nofIntervals (rbUsageP2 (rbUsageP1 v)) * 2,
        offTimes v ++ lengths) ∧
      (offTimes v).length = (nofIntervals (rbUsageP2 (rbUsageP1 v))).toNat := by
  unfold interRbUsage offTimes
  simp only [rbUsageP2_eq]
  rcases zeroOne_cases (rbUsageP1_zeroOne v) with ⟨c, d, heq⟩ | ⟨c, d, ps, a, b, hps, heq⟩
  · have hcount := List.count_eq_zero.mpr (neg_one_notMem_steps c d)
    rw [heq]
    unfold nofIntervals
    rw [hcount]
    exact ⟨[], rfl, rfl⟩
  · obtain ⟨before, after, hsteps, -, hb, ha⟩ := steps_signal c d hps a b
    rw [heq, hsteps, count_signal hps hb ha]
    by_cases hne : ps = []
    · subst hne
      exact ⟨[], rfl, rfl⟩
    · have hpos : ((ps.length : Nat) : Int) > 0 := by
        have := List.length_pos_iff.mpr hne
        omega
      rw [if_pos hpos, if_pos hpos, offIntervals_signal hps hne hb ha]
      refine ⟨ps.map fun p => (p.1 : Int) + p.2, ?_, by simp⟩
      simp only [Option.bind_eq_bind, Option.bind_some, Option.map_some, Option.getD_some]
      rw [if_pos]
      rw [List.length_append, List.length_map, List.length_map]
      push_cast
      omega

/-- The RB has its count, and its row begins with its off times. -/
def HasOffTimes (u : HourUsage) (rb : Nat) (v : List Int) : Prop :=
  u.counts[rb]? = some (nofIntervals (rbUsageP2 (rbUsageP1 v)) * 2) ∧
    ∃ rest, u.stored[rb]? = some (offTimes v ++ rest)

theorem rbRound_spec {h : HourCell} {u : HourUsage} {j : Nat} (hrows : j < h.rows.length)
    (hfilled : ∀ r ∈ h.rows, h.filled ≤ r.length) (hcounts : j < u.counts.length)
    (hstored : j < u.stored.length) :
    ∃ u', rbRound h u j = some u' ∧ u'.counts.length = u.counts.length ∧
      u'.stored.length = u.stored.length ∧ HasOffTimes u' j (h.usageOf j) ∧
      ∀ i, i ≠ j → ∀ v, HasOffTimes u i v → HasOffTimes u' i v := by
  obtain ⟨row, hrow⟩ : ∃ row, h.rows[j]? = some row := ⟨_, List.getElem?_eq_getElem hrows⟩
  have husage : h.usageOf j = row.take h.filled := by
    rw [HourCell.usageOf, List.getD_eq_getElem?_getD, hrow, Option.getD_some]
  have hupTo : upTo h.filled row = some (h.usageOf j) := by
    have hfit := hfilled row (List.mem_of_getElem? hrow)
    unfold upTo
    rw [if_neg (by omega), Int.toNat_natCast, husage]
  obtain ⟨lengths, hinter, -⟩ := interRbUsage_offTimes (h.usageOf j)
  refine ⟨⟨u.counts.set j (nofIntervals (rbUsageP2 (rbUsageP1 (h.usageOf j))) * 2),
    setRow u.stored j (offTimes (h.usageOf j) ++ lengths)⟩, ?_, List.length_set,
    List.length_mapIdx, ?_, fun i hi v hv => ?_⟩
  · unfold rbRound
    simp only [hrow, Option.bind_eq_bind, Option.bind_some, hupTo, hinter]
  · refine ⟨List.getElem?_set_self hcounts, ?_⟩
    rw [setRow, List.getElem?_mapIdx, List.getElem?_eq_getElem hstored, Option.map_some,
      if_pos rfl, List.append_assoc]
    exact ⟨_, rfl⟩
  · obtain ⟨hcount, rest, hrest⟩ := hv
    refine ⟨(List.getElem?_set_ne (Ne.symm hi)).trans hcount, ?_⟩
    rw [setRow, List.getElem?_mapIdx, hrest, Option.map_some, if_neg hi, List.append_assoc]
    exact ⟨_, rfl⟩

theorem hourUsage_spec {nrb : Nat} (width : Nat) {h : HourCell} (hrows : h.rows.length = nrb)
    (hfilled : ∀ r ∈ h.rows, h.filled ≤ r.length) :
    ∃ u, hourUsage nrb width h = some u ∧ ∀ j < nrb, HasOffTimes u j (h.usageOf j) := by
  have hrounds : ∀ m ≤ nrb, ∃ u, (List.range m).foldlM (rbRound h)
      ⟨List.replicate nrb 0, List.replicate nrb (List.replicate width 0)⟩ = some u ∧
        u.counts.length = nrb ∧ u.stored.length = nrb ∧
        ∀ j < m, HasOffTimes u j (h.usageOf j) := by
    intro m
    induction m with
    | zero => exact fun _ => ⟨_, rfl, List.length_replicate, List.length_replicate, by simp⟩
    | succ m ih =>
      intro hm
      obtain ⟨u, hu, hcounts, hstored, hoff⟩ := ih (by omega)
      obtain ⟨u', hround, hcounts', hstored', hown, hothers⟩ := rbRound_spec (h := h) (u := u)
        (j := m) (by omega) hfilled (by omega) (by omega)
      refine ⟨u', ?_, hcounts'.trans hcounts, hstored'.trans hstored, fun j hj => ?_⟩
      · rw [List.range_succ, List.foldlM_append, hu]
        simp [hround]
      · by_cases hjm : j = m
        · exact hjm ▸ hown
        · exact hothers j hjm _ (hoff j (by omega))
  obtain ⟨u, hu, -, -, hoff⟩ := hrounds nrb le_rfl
  exact ⟨u, hu, hoff⟩

/-! ## The day -/

/-- The hours of a day, with what the scripts keep of them. -/
theorem hours_spec {nrb : Nat} (width : Nat) {hours : List HourCell}
    (hrows : ∀ h ∈ hours, h.rows.length = nrb)
    (hfilled : ∀ h ∈ hours, ∀ r ∈ h.rows, h.filled ≤ r.length) :
    ∃ day, hours.mapM (hourUsage nrb width) = some day ∧
      List.Forall₂ (fun h u => ∀ j < nrb, HasOffTimes u j (h.usageOf j)) hours day := by
  induction hours with
  | nil => exact ⟨[], rfl, .nil⟩
  | cons h hours ih =>
    obtain ⟨day, hday, hoff⟩ := ih (fun h' hh => hrows h' (List.mem_cons_of_mem h hh))
      fun h' hh => hfilled h' (List.mem_cons_of_mem h hh)
    obtain ⟨u, hu, hown⟩ := hourUsage_spec width (hrows h List.mem_cons_self)
      (hfilled h List.mem_cons_self)
    refine ⟨u :: day, ?_, .cons hown hoff⟩
    rw [List.mapM_cons, hu, hday]
    rfl

/-- The intervals of the RB in an hour, one less than its falling edges. -/
def hourIntervals (rb : Nat) (h : HourCell) : Int :=
  nofIntervals (rbUsageP2 (rbUsageP1 (h.usageOf rb)))

theorem offTimes_length (rb : Nat) (h : HourCell) :
    (offTimes (h.usageOf rb)).length = (hourIntervals rb h).toNat := by
  obtain ⟨_, -, hlen⟩ := interRbUsage_offTimes (h.usageOf rb)
  exact hlen

/-- An hour with a count that is not negative adds its off times at the end of those before. -/
theorem concatRound_spec {rb : Nat} {h : HourCell} {u : HourUsage} {done : List Int} {n : Nat}
    (hu : HasOffTimes u rb (h.usageOf rb)) (hn : 0 ≤ hourIntervals rb h) :
    concatRound rb (done ++ List.replicate ((hourIntervals rb h).toNat + n) 0,
        ((1 + done.length : Nat) : Int)) u =
      some (done ++ offTimes (h.usageOf rb) ++ List.replicate n 0,
        ((1 + (done ++ offTimes (h.usageOf rb)).length : Nat) : Int)) := by
  have hlen := offTimes_length rb h
  obtain ⟨hcount, rest, hrest⟩ := hu
  have htwo : nofIntervals (rbUsageP2 (rbUsageP1 (h.usageOf rb))) * 2 / 2 = hourIntervals rb h :=
    Int.mul_ediv_cancel _ (by decide)
  have hupTo : upTo (hourIntervals rb h) (offTimes (h.usageOf rb) ++ rest) =
      some (offTimes (h.usageOf rb)) := by
    unfold upTo
    rw [if_neg, ← hlen, List.take_left']
    · rfl
    · rw [List.length_append]
      omega
  have hset : setFrom (done ++ List.replicate ((hourIntervals rb h).toNat + n) 0)
      ((1 + done.length : Nat) : Int) (hourIntervals rb h) (offTimes (h.usageOf rb)) =
        some (done ++ offTimes (h.usageOf rb) ++ List.replicate n 0) := by
    unfold setFrom
    split_ifs with hzero hidx
    · have hnone : offTimes (h.usageOf rb) = [] := by
        rw [← List.length_eq_zero_iff]
        omega
      rw [hnone, List.append_nil, Int.toNat_of_nonpos hzero, Nat.zero_add]
    · omega
    · simp only [Int.toNat_natCast, Nat.add_sub_cancel_left, List.length_append]
      rw [Nat.sub_eq_zero_of_le (Nat.le_add_right _ _), List.replicate_zero, List.append_nil,
        List.take_left', ← List.drop_drop, List.drop_left', List.drop_replicate, ← hlen,
        Nat.add_sub_cancel_left]
      · rfl
      · rfl
  unfold concatRound
  simp only [hcount, hrest, Option.bind_eq_bind, Option.bind_some, htwo, hupTo, hset]
  congr 2
  rw [List.length_append]
  omega

theorem concatRounds {nrb rb : Nat} (hrb : rb < nrb) {hours : List HourCell}
    {day : List HourUsage}
    (hday : List.Forall₂ (fun h u => ∀ j < nrb, HasOffTimes u j (h.usageOf j)) hours day)
    (hn : ∀ h ∈ hours, 0 ≤ hourIntervals rb h) (done : List Int) :
    ∃ idx, day.foldlM (concatRound rb)
        (done ++ List.replicate (hours.map fun h => (hourIntervals rb h).toNat).sum 0,
          ((1 + done.length : Nat) : Int)) =
      some (done ++ hours.flatMap fun h => offTimes (h.usageOf rb), idx) := by
  induction hday generalizing done with
  | nil => exact ⟨((1 + done.length : Nat) : Int), by simp⟩
  | @cons h u hours day hu hday ih =>
    obtain ⟨idx, hrest⟩ := ih (fun h' hh => hn h' (List.mem_cons_of_mem h hh))
      (done ++ offTimes (h.usageOf rb))
    refine ⟨idx, ?_⟩
    rw [List.foldlM_cons, List.map_cons, List.sum_cons,
      concatRound_spec (hu rb hrb) (hn h List.mem_cons_self)]
    rw [Option.bind_eq_bind, Option.bind_some, hrest, List.flatMap_cons, List.append_assoc]

theorem day_counts {nrb rb : Nat} (hrb : rb < nrb) {hours : List HourCell}
    {day : List HourUsage}
    (hday : List.Forall₂ (fun h u => ∀ j < nrb, HasOffTimes u j (h.usageOf j)) hours day) :
    ∃ counts, (day.mapM fun u => u.counts[rb]?) = some counts ∧
      (counts.map (· / 2)).sum = (hours.map (hourIntervals rb)).sum := by
  induction hday with
  | nil => exact ⟨[], rfl, rfl⟩
  | @cons h u hours day hu hday ih =>
    obtain ⟨counts, hcounts, hsum⟩ := ih
    refine ⟨hourIntervals rb h * 2 :: counts, ?_, ?_⟩
    · rw [List.mapM_cons, (hu rb hrb).1, hcounts]
      rfl
    · rw [List.map_cons, List.sum_cons, hsum, List.map_cons, List.sum_cons,
        Int.mul_ediv_cancel _ (by decide)]

theorem flatMap_offTimes_length (rb : Nat) (hours : List HourCell) :
    (hours.flatMap fun h => offTimes (h.usageOf rb)).length =
      (hours.map fun h => (hourIntervals rb h).toNat).sum := by
  rw [List.length_flatMap]
  simp only [offTimes_length]

/-- The counts add up to the off times if and only if none is negative. -/
theorem sum_toNat_iff (l : List Int) :
    (((l.map Int.toNat).sum : Nat) : Int) = l.sum ↔ ∀ n ∈ l, 0 ≤ n := by
  have hle : ∀ l : List Int, l.sum ≤ ((l.map Int.toNat).sum : Nat) := by
    intro l
    induction l with
    | nil => simp
    | cons n l ih =>
      simp only [List.sum_cons, List.map_cons]
      omega
  induction l with
  | nil => simp
  | cons n l ih =>
    have hl := hle l
    have hsplit : (((n :: l).map Int.toNat).sum : Int) = (n :: l).sum ↔
        0 ≤ n ∧ ((l.map Int.toNat).sum : Int) = l.sum := by
      simp only [List.sum_cons, List.map_cons]
      omega
    exact hsplit.trans ((and_congr_right fun _ => ih).trans List.forall_mem_cons.symm)

/-- **The off times of a day are concatenated without loss**, exactly when the RB has a falling edge
in each hour. -/
theorem off_times_concatenated_iff {nrb : Nat} (width rb : Nat) (d : DayCells nrb)
    (hrb : rb < nrb) :
    Concatenated width rb d ↔ ∀ h ∈ d.hours, Falls (h.usageOf rb) := by
  obtain ⟨day, hday, hoff⟩ := hours_spec width d.length_rows d.filled_le
  obtain ⟨counts, hcounts, hsum⟩ := day_counts hrb hoff
  have hlen := flatMap_offTimes_length rb d.hours
  have hiff := sum_toNat_iff (d.hours.map (hourIntervals rb))
  simp only [List.map_map, Function.comp_def, List.forall_mem_map] at hiff
  have hfalls : (∀ h ∈ d.hours, Falls (h.usageOf rb)) ↔
      ∀ h ∈ d.hours, 0 ≤ hourIntervals rb h :=
    forall₂_congr fun h _ => (nofIntervals_nonneg (h.usageOf rb)).symm
  rw [hfalls, ← hiff]
  unfold Concatenated
  rw [hday, Option.bind_some]
  constructor
  · rintro ⟨count, hcompare, hcount⟩
    unfold compareData at hcompare
    simp only [hcounts, Option.bind_eq_bind, Option.bind_some, hsum] at hcompare
    obtain ⟨st, -, hst⟩ := Option.bind_eq_some_iff.mp hcompare
    have hsame := congrArg Prod.snd (Option.some.inj hst)
    simp only at hsame
    rw [hlen] at hcount
    omega
  · intro htotal
    have hn : ∀ h ∈ d.hours, 0 ≤ hourIntervals rb h := hiff.mp htotal
    obtain ⟨idx, hloop⟩ := concatRounds hrb hoff hn []
    refine ⟨(d.hours.map (hourIntervals rb)).sum, ?_, by rw [hlen, htotal]⟩
    unfold compareData
    simp only [hcounts, Option.bind_eq_bind, Option.bind_some, hsum, ← htotal, Int.toNat_natCast]
    simp only [List.nil_append, List.length_nil, Nat.add_zero, Nat.cast_one] at hloop
    rw [hloop]
    rfl

/-- Hours of four columns for five RBs, with these values for each RB. -/
def dayOf (hours : List (List Int)) (h24 : hours.length = 24) (h4 : ∀ v ∈ hours, v.length = 4) :
    DayCells 5 where
  hours := hours.map fun v => ⟨4, List.replicate 5 v⟩
  length_hours := by rw [List.length_map, h24]
  length_rows := by simp
  filled_le := by
    intro h hh r hr
    obtain ⟨v, hv, rfl⟩ := List.mem_map.mp hh
    rw [List.eq_of_mem_replicate hr, h4 v hv]

/-- A falling edge, an off time of one column and another falling edge in each hour. -/
theorem off_times_concatenated_busyDay :
    Concatenated 2 4 (dayOf (List.replicate 24 [7, 0, 7, 0]) (by simp) (by simp)) := by
  refine (off_times_concatenated_iff 2 4 _ (by decide)).mpr fun h hh => ?_
  obtain ⟨v, hv, rfl⟩ := List.mem_map.mp hh
  rw [List.eq_of_mem_replicate hv]
  exact ⟨[], 7, 0, [7, 0], rfl, by decide, by decide⟩

/-- The second hour is idle, and the third takes the place of the first. -/
theorem not_off_times_concatenated_idleHour : ¬ ∀ (nrb width rb : Nat) (d : DayCells nrb),
    rb < nrb → Concatenated width rb d := by
  intro h
  obtain ⟨count, hcompare, hcount⟩ := h 5 2 4 (dayOf
    ([7, 0, 7, 0] :: [0, 0, 0, 0] :: List.replicate 22 [7, 0, 7, 0]) (by simp) (by simp))
    (by decide)
  have hsnd := congrArg (Option.map Prod.snd) hcompare
  have hcount' : ((dayOf ([7, 0, 7, 0] :: [0, 0, 0, 0] :: List.replicate 22 [7, 0, 7, 0])
      (by simp) (by simp)).hours.mapM (hourUsage 5 2)).bind (compareData 4) =
        some (List.replicate 22 1, 22) := by decide +kernel
  rw [hcount'] at hsnd
  obtain rfl : (22 : Int) = count := Option.some.inj hsnd
  exact absurd hcount (by decide +kernel)

end Srsenb.Trace
