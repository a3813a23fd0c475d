import Srsenb.Base.Pulses

/-! # Off and on times (`getOffOn.m`, `get01.m`, `dlInterRbTime.m`)

A column of zeros and ones is cut at its falling edges, and each cycle from one to the next gives
an off and an on time. A step on which the scripts end with an error gives `none`. -/

open Srsenb.Vec Srsenb.Pulses

namespace Srsenb.Trace

/-- `rb_usage_p2`: zeros, and from its second element on the differences of the column. -/
def rbUsageP2 (tmp : List Int) : List Int :=
  if tmp = [] then [] else 0 :: List.zipWith (· - ·) tmp.tail tmp.dropLast

def nofIntervals (p2 : List Int) : Int := (p2.count (-1) : Int) - 1

/-- From the falling edges to `off_time` and `interval_lengths`, as in `getOffOn` and in
`dlInterRbTime`. -/
def offIntervals (p2 : List Int) : Option (List Int × List Int) := do
  let firstm1Idx ← (positions (-1) p2).head?
  let lastm1Idx ← (positions (-1) p2).getLast?
  let p2 := p2.take (lastm1Idx - 1)
  let p2 := p2.drop (firstm1Idx - 1)
  let m1positions := (positions (-1) p2).map (Nat.cast : Nat → Int)
  let lengths ← minus m1positions.tail m1positions.dropLast
  let lastm1 ← m1positions.getLast?
  let intervalLengths := lengths ++ [p2.length - lastm1 + 1]
  let p1positions := (positions 1 p2).map (Nat.cast : Nat → Int)
  let offTime ← minus p1positions m1positions
  some (offTime, intervalLengths)

/-- The round of `getOffOn` for one column; the cells stay empty when it has no interval. -/
def getOffOnColumn (tmp : List Int) : Option (List Int × List Int) :=
  let p2 := rbUsageP2 tmp
  if nofIntervals p2 > 0 then do
    let (offTime, intervalLengths) ← offIntervals p2
    let onTime ← minus intervalLengths offTime
    some (offTime, onTime)
  else some ([], [])

/-- `getOffOn`: two cells for each column. -/
def getOffOn (ar : List (List Int)) : Option (List (List Int)) :=
  (ar.mapM getOffOnColumn).map fun cells => cells.flatMap fun c => [c.1, c.2]

/-- A column of `get01`. -/
inductive Column where
  | nan
  | values (v : List Int)
  deriving DecidableEq

/-- `[off; on]` and `(:)`. An empty row is left out. -/
def interleave (off on : List Int) : Option (List Int) :=
  if off.length = on.length then some ((List.zip off on).flatMap fun p => [p.1, p.2])
  else if off = [] then some on
  else if on = [] then some off
  else none

/-- `v(idx:(idx+numel(w)-1)) = w` -/
def assign (v : List Int) (idx : Nat) (w : List Int) : List Int :=
  v.take (idx - 1) ++ w ++ v.drop (idx - 1 + w.length)

/-- `repelem([0 1],[off on])` -/
def repelem01 (off on : Int) : Option (List Int) :=
  if off < 0 ∨ on < 0 then none
  else some (List.replicate off.toNat 0 ++ List.replicate on.toNat 1)

/-- The round of `get01` for cycle `j`, of `tmp` and `idx`. -/
def cycle01 (offOn : List Int) (st : List Int × Nat) (j : Nat) : Option (List Int × Nat) := do
  let off ← offOn[2 * j - 2]?
  let on ← offOn[2 * j - 1]?
  let pulse ← repelem01 off on
  some (assign st.1 st.2 pulse, st.2 + (off + on).toNat)

/-- The round of `get01` for one pair of cells. -/
def get01Column (fitLength : Nat) (off on : List Int) : Option Column := do
  let offOn ← interleave off on
  if offOn.sum < fitLength then some .nan
  else do
    let (tmp, _) ← (List.range' 1 off.length).foldlM (cycle01 offOn)
      (List.replicate offOn.sum.toNat 0, 1)
    some (.values (tmp.take fitLength))

/-- `get01` -/
def get01 (fitLength : Nat) : List (List Int) → Option (List Column)
  | [] => some []
  | [_] => none
  | off :: on :: cells => do
    let column ← get01Column fitLength off on
    let columns ← get01 fitLength cells
    some (column :: columns)

/-- The RB is used by some RNTI. -/
def rbUsageP1 (rbUsage : List Int) : List Int := rbUsage.map fun x => if x > 0 then 1 else 0

/-- The round of `dlInterRbTime` for one RB: `hour_rb_inter_usage{i,1}(j)`, and what is stored in
`hour_rb_inter_usage{i,2}(j,1:nof_intervals*2)`. -/
def interRbUsage (rbUsage : List Int) : Option (Int × List Int) :=
  let p2 := rbUsageP2 (rbUsageP1 rbUsage)
  if nofIntervals p2 > 0 then do
    let (offTime, intervalLengths) ← offIntervals p2
    if ((offTime ++ intervalLengths).length : Int) = nofIntervals p2 * 2 then
      some (nofIntervals p2 * 2, offTime ++ intervalLengths)
    else none
  else some (nofIntervals p2 * 2, [])

/-! ## The cycles of a signal -/

variable {ps : List (Nat × Nat)} {before after : List Int}

theorem zipWith_sub_dropLast (x : Int) (xs : List Int) :
    List.zipWith (· - ·) xs (x :: xs).dropLast = deltas x xs := by
  induction xs generalizing x with
  | nil => rfl
  | cons y ys ih => rw [List.dropLast_cons_cons, List.zipWith_cons_cons, ih, deltas]

theorem rbUsageP2_eq (tmp : List Int) : rbUsageP2 tmp = steps tmp := by
  cases tmp with
  | nil => rfl
  | cons x xs =>
    rw [rbUsageP2, if_neg (List.cons_ne_nil x xs), List.tail_cons, zipWith_sub_dropLast, steps]

/-- A falling edge at the start of each cycle, and one at the end of the last. -/
theorem positions_signal (hps : Proper ps) (hb : (-1 : Int) ∉ before) (ha : (-1 : Int) ∉ after) :
    positions (-1) (before ++ waveDeltas ps ++ -1 :: after) =
      falls (1 + before.length) ps ++ [1 + before.length + (wave ps).length] := by
  have hnone : ∀ b, positionsFrom (-1 : Int) b after = [] := fun b => positionsFrom_eq_nil ha
  unfold positions
  rw [positionsFrom_append, positionsFrom_append, positionsFrom_eq_nil hb, List.nil_append,
    (positionsFrom_waveDeltas hps _).1, positionsFrom, if_pos rfl, hnone, List.length_append,
    length_waveDeltas hps, Nat.add_assoc]

theorem falls_cons_last (b : Nat) (p : Nat × Nat) (ps : List (Nat × Nat)) :
    ∃ last, (falls b (p :: ps)).getLast? = some last := by
  rw [falls, List.getLast?_cons]
  exact ⟨_, rfl⟩

/-- Cut at its first and its last falling edge, a signal gives the zeros and the lengths of its
cycles. -/
theorem offIntervals_signal (hps : Proper ps) (hne : ps ≠ []) (hb : (-1 : Int) ∉ before)
    (ha : (-1 : Int) ∉ after) :
    offIntervals (before ++ waveDeltas ps ++ -1 :: after) =
      some (ps.map fun p => (p.1 : Int), ps.map fun p => (p.1 : Int) + p.2) := by
  obtain ⟨p, qs, rfl⟩ := List.exists_cons_of_ne_nil hne
  have hpos := positions_signal hps hb ha
  have hcut : ((before ++ waveDeltas (p :: qs) ++ -1 :: after).take
      (1 + before.length + (wave (p :: qs)).length - 1)).drop (1 + before.length - 1) =
        waveDeltas (p :: qs) := by
    have hlen : 1 + before.length + (wave (p :: qs)).length - 1 =
        (before ++ waveDeltas (p :: qs)).length := by
      rw [List.length_append, length_waveDeltas hps]
      omega
    rw [hlen, List.take_left', Nat.add_sub_cancel_left, List.drop_left']
    · rfl
    · rfl
  have hfalls : positions (-1) (waveDeltas (p :: qs)) = falls 1 (p :: qs) :=
    (positionsFrom_waveDeltas hps 1).1
  have hrises : positions 1 (waveDeltas (p :: qs)) = rises 1 (p :: qs) :=
    (positionsFrom_waveDeltas hps 1).2
  obtain ⟨last, hlast⟩ := falls_cons_last 1 p qs
  have hdiff := falls_minus_falls 1 p qs
  have hoff := rises_minus_falls 1 (p :: qs)
  have hlens : ((falls 1 (p :: qs)).tail.map (Nat.cast : Nat → Int)).length =
      ((falls 1 (p :: qs)).dropLast.map (Nat.cast : Nat → Int)).length := by simp
  have hsame : ((rises 1 (p :: qs)).map (Nat.cast : Nat → Int)).length =
      ((falls 1 (p :: qs)).map (Nat.cast : Nat → Int)).length := by
    rw [List.length_map, List.length_map, length_rises, length_falls]
  have hfirst : (falls (1 + before.length) (p :: qs) ++
      [1 + before.length + (wave (p :: qs)).length]).head? = some (1 + before.length) := rfl
  rw [List.getLastD_eq_getLast?, hlast, Option.getD_some] at hdiff
  unfold offIntervals
  simp only [hpos, hfirst, List.getLast?_concat, Option.bind_eq_bind, Option.bind_some, hcut,
    hfalls, hrises, List.getLast?_map, hlast, Option.map_some, ← List.map_tail,
    ← List.map_dropLast, minus_of_length hlens, minus_of_length hsame, hoff]
  have hend : ((wave (p :: qs)).length : Int) - last + 1 =
      ((1 + (wave (p :: qs)).length : Nat) : Int) - last := by
    push_cast
    omega
  rw [← hdiff, length_waveDeltas hps, hend]

theorem count_signal (hps : Proper ps) (hb : (-1 : Int) ∉ before) (ha : (-1 : Int) ∉ after) :
    nofIntervals (before ++ waveDeltas ps ++ -1 :: after) = ps.length := by
  have hcount := length_positionsFrom (-1 : Int) 1 (before ++ waveDeltas ps ++ -1 :: after)
  have hpos := positions_signal hps hb ha
  unfold positions at hpos
  rw [hpos, List.length_append, length_falls] at hcount
  unfold nofIntervals
  rw [← hcount]
  simp

/-- The zeros and the ones of the cycles of a signal. -/
theorem getOffOnColumn_signal (hps : Proper ps) {tmp : List Int}
    (htmp : steps tmp = before ++ waveDeltas ps ++ -1 :: after) (hb : (-1 : Int) ∉ before)
    (ha : (-1 : Int) ∉ after) :
    getOffOnColumn tmp = some (ps.map fun p => (p.1 : Int), ps.map fun p => (p.2 : Int)) := by
  unfold getOffOnColumn
  simp only [rbUsageP2_eq, htmp, count_signal hps hb ha]
  by_cases hne : ps = []
  · subst hne
    rfl
  · have hlen : (ps.map fun p => (p.1 : Int) + p.2).length =
        (ps.map fun p => (p.1 : Int)).length := by
      simp
    have hpos : ((ps.length : Nat) : Int) > 0 := by
      have := List.length_pos_iff.mpr hne
      omega
    rw [if_pos hpos, offIntervals_signal hps hne hb ha]
    simp only [Option.bind_eq_bind, Option.bind_some, minus_of_length hlen]
    congr 2
    rw [List.zipWith_map, List.zipWith_self]
    simp

theorem getOffOn_single {tmp off on : List Int} (h : getOffOnColumn tmp = some (off, on)) :
    getOffOn [tmp] = some [off, on] := by
  simp [getOffOn, h]

/-- A signal that does not fall. -/
theorem getOffOnColumn_flat (c d : Nat) :
    getOffOnColumn (List.replicate c 0 ++ List.replicate d 1) = some ([], []) := by
  have hcount := List.count_eq_zero.mpr (neg_one_notMem_steps c d)
  unfold getOffOnColumn nofIntervals
  simp only [rbUsageP2_eq, hcount]
  rfl

/-! ## Back to a column -/

/-- The cells of the pulses, off and on by turns. -/
def offOnOf (ps : List (Nat × Nat)) : List Int := ps.flatMap fun p => [(p.1 : Int), (p.2 : Int)]

theorem interleave_map (ps : List (Nat × Nat)) :
    interleave (ps.map fun p => (p.1 : Int)) (ps.map fun p => (p.2 : Int)) =
      some (offOnOf ps) := by
  unfold interleave offOnOf
  rw [if_pos (by simp), List.zip_map', List.flatMap_map]

theorem sum_offOnOf (ps : List (Nat × Nat)) : (offOnOf ps).sum = (wave ps).length := by
  induction ps with
  | nil => rfl
  | cons p ps ih =>
    have hsum : (offOnOf (p :: ps)).sum = (p.1 : Int) + p.2 + (offOnOf ps).sum := by
      simp [offOnOf, add_assoc]
    rw [hsum, ih, wave_cons, List.length_append, List.length_append, List.length_replicate,
      List.length_replicate]
    push_cast
    rfl

theorem length_offOnOf (ps : List (Nat × Nat)) : (offOnOf ps).length = 2 * ps.length := by
  induction ps with
  | nil => rfl
  | cons p ps ih =>
    have hlen : (offOnOf (p :: ps)).length = (offOnOf ps).length + 2 := rfl
    rw [hlen, ih, List.length_cons]
    omega

/-- A cycle of the loop writes its pulse behind the ones before. -/
theorem cycle01_pulse (qs ps : List (Nat × Nat)) (p : Nat × Nat) :
    cycle01 (offOnOf (qs ++ p :: ps))
        (wave qs ++ List.replicate (wave (p :: ps)).length 0, 1 + (wave qs).length)
        (qs.length + 1) =
      some (wave (qs ++ [p]) ++ List.replicate (wave ps).length 0,
        1 + (wave (qs ++ [p])).length) := by
  have hcells : offOnOf (qs ++ p :: ps) =
      offOnOf qs ++ ((p.1 : Int) :: (p.2 : Int) :: offOnOf ps) :=
    List.flatMap_append
  have hoff : (offOnOf (qs ++ p :: ps))[2 * (qs.length + 1) - 2]? = some (p.1 : Int) := by
    rw [hcells, show 2 * (qs.length + 1) - 2 = (offOnOf qs).length by rw [length_offOnOf]; omega,
      List.getElem?_append_right le_rfl, Nat.sub_self]
    rfl
  have hon : (offOnOf (qs ++ p :: ps))[2 * (qs.length + 1) - 1]? = some (p.2 : Int) := by
    rw [hcells, show 2 * (qs.length + 1) - 1 = (offOnOf qs).length + 1 by
      rw [length_offOnOf]; omega, List.getElem?_append_right (Nat.le_add_right _ 1),
      Nat.add_sub_cancel_left]
    rfl
  have hpulse : repelem01 (p.1 : Int) p.2 =
      some (List.replicate p.1 0 ++ List.replicate p.2 1) := by
    unfold repelem01
    rw [if_neg (by omega), Int.toNat_natCast, Int.toNat_natCast]
  have hassign : assign (wave qs ++ List.replicate (wave (p :: ps)).length 0) (1 + (wave qs).length)
      (List.replicate p.1 0 ++ List.replicate p.2 1) =
        wave (qs ++ [p]) ++ List.replicate (wave ps).length 0 := by
    have hrest : p.1 + (p.2 + (wave ps).length) - (p.1 + p.2) = (wave ps).length := by omega
    unfold assign
    rw [Nat.add_sub_cancel_left, List.take_left', List.drop_append, wave_append]
    · simp [hrest, List.drop_eq_nil_of_le]
    · rfl
  unfold cycle01
  rw [hoff, hon]
  simp only [Option.bind_eq_bind, Option.bind_some, hpulse, hassign]
  congr 2
  rw [wave_append, List.length_append]
  simp
  omega

theorem cycles01 (qs ps : List (Nat × Nat)) :
    (List.range' (qs.length + 1) ps.length).foldlM (cycle01 (offOnOf (qs ++ ps)))
        (wave qs ++ List.replicate (wave ps).length 0, 1 + (wave qs).length) =
      some (wave (qs ++ ps), 1 + (wave (qs ++ ps)).length) := by
  induction ps generalizing qs with
  | nil => simp
  | cons p ps ih =>
    have h := ih (qs ++ [p])
    rw [List.append_assoc, List.singleton_append, List.length_append, List.length_singleton] at h
    rw [List.length_cons, List.range'_succ, List.foldlM_cons, cycle01_pulse]
    exact h

/-- The decoder gives the pulses back. -/
theorem get01Column_wave (ps : List (Nat × Nat)) :
    get01Column (wave ps).length (ps.map fun p => (p.1 : Int)) (ps.map fun p => (p.2 : Int)) =
      some (.values (wave ps)) := by
  have hloop := cycles01 [] ps
  unfold get01Column
  rw [interleave_map]
  simp only [Option.bind_eq_bind, Option.bind_some, sum_offOnOf, lt_irrefl, if_false,
    Int.toNat_natCast, List.length_map]
  simp only [List.nil_append, wave_nil, List.length_nil, Nat.zero_add, Nat.add_zero] at hloop
  simp only [hloop, Option.bind_some, List.take_length]

/-! ## The laws -/

theorem getOffOn_wave {ps : List (Nat × Nat)} (hps : Proper ps) :
    getOffOn [1 :: wave ps ++ [0]] =
      some [ps.map fun p => (p.1 : Int), ps.map fun p => (p.2 : Int)] := by
  obtain ⟨before, after, hsteps, -, hb, ha⟩ := steps_signal 0 0 hps 0 0
  exact getOffOn_single (getOffOnColumn_signal hps hsteps hb ha)

/-- What the decoder gives of a column with two falling edges. -/
theorem get01_getOffOn {s : List Int} (hs : ∀ x ∈ s, x = 0 ∨ x = 1) {first last : Nat}
    (hfirst : (positions (-1) (rbUsageP2 s)).head? = some first)
    (hlast : (positions (-1) (rbUsageP2 s)).getLast? = some last) :
    (getOffOn [s]).bind (get01 (last - first)) =
      some [.values ((s.take (last - 1)).drop (first - 1))] := by
  rw [rbUsageP2_eq] at hfirst hlast
  rcases zeroOne_cases hs with ⟨c, d, rfl⟩ | ⟨c, d, ps, a, b, hps, rfl⟩
  · have hnone : positions (-1) (steps (List.replicate c 0 ++ List.replicate d 1)) = [] :=
      positionsFrom_eq_nil (neg_one_notMem_steps c d)
    rw [hnone] at hfirst
    cases hfirst
  · obtain ⟨before, after, hsteps, hlen, hb, ha⟩ := steps_signal c d hps a b
    have hpos := positions_signal hps hb ha
    rw [hsteps, hpos] at hfirst hlast
    rw [List.getLast?_concat] at hlast
    have hfirst' : first = 1 + before.length := by
      cases ps with
      | nil => exact (Option.some.inj hfirst).symm
      | cons p ps => exact (Option.some.inj hfirst).symm
    have hlast' : last = 1 + before.length + (wave ps).length := (Option.some.inj hlast).symm
    rw [getOffOn_single (getOffOnColumn_signal hps hsteps hb ha)]
    have hfit : last - first = (wave ps).length := by omega
    have hcut : List.drop (first - 1) (List.take (last - 1) (List.replicate c 0 ++
        List.replicate (d + 1) 1 ++ wave ps ++ (List.replicate (a + 1) 0 ++ List.replicate b 1))) =
          wave ps := by
      have htake : last - 1 = (List.replicate c (0 : Int) ++ List.replicate (d + 1) 1 ++
          wave ps).length := by
        simp only [List.length_append, List.length_replicate]
        omega
      have hdrop : first - 1 =
          (List.replicate c (0 : Int) ++ List.replicate (d + 1) 1).length := by
        simp only [List.length_append, List.length_replicate]
        omega
      rw [htake, List.take_left', hdrop, List.drop_left']
      · rfl
      · rfl
    rw [hcut, hfit]
    simp [get01, get01Column_wave]

theorem rbUsageP1_zeroOne (rbUsage : List Int) : ∀ x ∈ rbUsageP1 rbUsage, x = 0 ∨ x = 1 := by
  intro x hx
  obtain ⟨y, -, rfl⟩ := List.mem_map.mp hx
  split_ifs
  · exact Or.inr rfl
  · exact Or.inl rfl

/-- `dlInterRbTime` stores the off times and the lengths of the cycles that `getOffOn` finds. -/
theorem interRbUsage_eq (rbUsage : List Int) :
    ∃ off on, getOffOn [rbUsageP1 rbUsage] = some [off, on] ∧
      interRbUsage rbUsage = some (nofIntervals (rbUsageP2 (rbUsageP1 rbUsage)) * 2,
        off ++ List.zipWith (· + ·) off on) := by
  unfold interRbUsage
  simp only [rbUsageP2_eq]
  rcases zeroOne_cases (rbUsageP1_zeroOne rbUsage) with ⟨c, d, heq⟩ | ⟨c, d, ps, a, b, hps, heq⟩
  · have hcount := List.count_eq_zero.mpr (neg_one_notMem_steps c d)
    rw [heq]
    refine ⟨[], [], getOffOn_single (getOffOnColumn_flat c d), ?_⟩
    unfold nofIntervals
    rw [hcount]
    rfl
  · obtain ⟨before, after, hsteps, -, hb, ha⟩ := steps_signal c d hps a b
    rw [heq, hsteps, count_signal hps hb ha]
    refine ⟨_, _, getOffOn_single (getOffOnColumn_signal hps hsteps hb ha), ?_⟩
    by_cases hne : ps = []
    · subst hne
      rfl
    · have hpos : ((ps.length : Nat) : Int) > 0 := by
        have := List.length_pos_iff.mpr hne
        omega
      rw [if_pos hpos, offIntervals_signal hps hne hb ha]
      simp only [Option.bind_eq_bind, Option.bind_some]
      rw [if_pos, List.zipWith_map, List.zipWith_self]
      rw [List.length_append, List.length_map, List.length_map]
      push_cast
      omega

/-- **Off and on times** of a column of zeros and ones: the cycles that it is made of are found,
the decoder gives the column back between its first and its last falling edge, and
`dlInterRbTime` finds the same cycles. -/
theorem off_on_round_trip :
    (∀ ps, Proper ps → getOffOn [1 :: wave ps ++ [0]] =
      some [ps.map fun p => (p.1 : Int), ps.map fun p => (p.2 : Int)]) ∧
    (∀ s, (∀ x ∈ s, x = 0 ∨ x = 1) → 2 ≤ (positions (-1) (rbUsageP2 s)).length →
      ∃ first last, (positions (-1) (rbUsageP2 s)).head? = some first ∧
        (positions (-1) (rbUsageP2 s)).getLast? = some last ∧
        (getOffOn [s]).bind (get01 (last - first)) =
          some [.values ((s.take (last - 1)).drop (first - 1))]) ∧
    ∀ rbUsage, ∃ off on, getOffOn [rbUsageP1 rbUsage] = some [off, on] ∧
      interRbUsage rbUsage = some (nofIntervals (rbUsageP2 (rbUsageP1 rbUsage)) * 2,
        off ++ List.zipWith (· + ·) off on) := by
  refine ⟨fun ps hps => getOffOn_wave hps, fun s hs htwo => ?_, interRbUsage_eq⟩
  have hne : positions (-1) (rbUsageP2 s) ≠ [] := List.ne_nil_of_length_pos (by omega)
  obtain ⟨first, hfirst⟩ := Option.isSome_iff_exists.mp (List.isSome_head?.mpr hne)
  have hlast := List.getLast?_eq_some_getLast hne
  exact ⟨first, _, hfirst, hlast, get01_getOffOn hs hfirst hlast⟩

/-- One cycle of two zeros and a one, in columns of its own and with more around it. -/
theorem off_on_oneCycle :
    getOffOn [[1, 0, 0, 1, 0]] = some [[2], [1]] ∧
      ∃ first last, (positions (-1) (rbUsageP2 [0, 1, 0, 0, 1, 0, 0])).head? = some first ∧
        (positions (-1) (rbUsageP2 [0, 1, 0, 0, 1, 0, 0])).getLast? = some last ∧
        (getOffOn [[0, 1, 0, 0, 1, 0, 0]]).bind (get01 (last - first)) =
          some [.values (([0, 1, 0, 0, 1, 0, 0].take (last - 1)).drop (first - 1))] :=
  ⟨off_on_round_trip.1 [(2, 1)] (by simp [Proper]),
    off_on_round_trip.2.1 [0, 1, 0, 0, 1, 0, 0] (by decide) (by decide)⟩

end Srsenb.Trace
