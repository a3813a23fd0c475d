import Srsenb.Trace.OffOn

/-! # The fitted off and on times (`getOnOffDist.m`, `synth.m`)

Cells come in pairs, off times before on times. What `fitdist` returns is known by the sample and
the distribution that it was called with, and a random value by the model that it was drawn
from. -/

open Srsenb.Pulses

namespace Srsenb.Trace

inductive Distribution where
  | exponential
  | weibull
  | lognormal
  | generalizedPareto
  | gamma
  deriving DecidableEq

/-- What `fitdist` returns. -/
structure Pd where
  sample : List Int
  distribution : Distribution
  deriving DecidableEq

/-- A random value of a model, the `n`-th of the run. -/
structure Draw where
  pd : Pd
  n : Nat
  deriving DecidableEq

def distributions : List Distribution :=
  [.exponential, .weibull, .lognormal, .generalizedPareto, .gamma]

/-- The functions of the statistics toolbox: whether a distribution can be fitted to a sample, the
distance that `kstest2` finds between the sample and random values, and the value of a draw,
rounded up. -/
structure Stats where
  fits : List Int → Distribution → Bool
  ksDistance : Pd → Option Rat
  value : Draw → Int

variable (stats : Stats)

def fitdist (sample : List Int) (d : Distribution) : Option Pd :=
  if stats.fits sample d then some ⟨sample, d⟩ else none

/-- The loop of `getOnOffDist` over the columns: `onTime` and `offTime`. -/
def collectTimes : List (List Int) → List Int × List Int
  | odd :: even :: cells =>
    let (onTime, offTime) := collectTimes cells
    (odd ++ onTime, even ++ offTime)
  | _ => ([], [])

/-- The distance of a distribution, 1 when an error is caught. -/
def fitR (sample : List Int) (d : Distribution) : Rat :=
  ((fitdist stats sample d).bind stats.ksDistance).getD 1

/-- The first distribution with the least distance. -/
def bestDistribution (sample : List Int) : Distribution :=
  distributions.tail.foldl
    (fun best d => if fitR stats sample d < fitR stats sample best then d else best) .exponential

/-- `getOnOffDist`: the two cells of `offOnModel`. The last fit of each sample is not caught. -/
def getOnOffDist (fitDataOffOn : List (List Int)) : Option (Pd × Pd) := do
  let (onTime, offTime) := collectTimes fitDataOffOn
  let off ← fitdist stats offTime (bestDistribution stats offTime)
  let on ← fitdist stats onTime (bestDistribution stats onTime)
  some (off, on)

/-- The loop of `synth` for one channel: a draw of each model, until the values sum up to the
length. -/
def synthWhile (offOnModel : Pd × Pd) (fitLength : Nat) :
    Nat → List Draw → List Draw → Nat → Option (List Draw × List Draw × Nat)
  | 0, _, _, _ => none
  | fuel + 1, odd, even, n =>
    if (odd.map stats.value).sum + (even.map stats.value).sum < fitLength then
      synthWhile offOnModel fitLength fuel (odd ++ [⟨offOnModel.1, n⟩])
        (even ++ [⟨offOnModel.2, n + 1⟩]) (n + 2)
    else some (odd, even, n)

/-- `synth`: two cells for each channel. -/
def synth (offOnModel : Pd × Pd) (fitLength fuel : Nat) : Nat → Nat → Option (List (List Draw))
  | 0, _ => some []
  | fitChannel + 1, n => do
    let (odd, even, n) ← synthWhile stats offOnModel fitLength fuel [] [] n
    let cells ← synth offOnModel fitLength fuel fitChannel n
    some (odd :: even :: cells)

/-- The cycles of a column between its first and its last falling edge. -/
def Cycles (s : List Int) (ps : List (Nat × Nat)) : Prop :=
  Proper ps ∧ ((ps = [] ∧ ∃ c d, s = List.replicate c 0 ++ List.replicate d 1) ∨
    ∃ c d a b, s = List.replicate c 0 ++ List.replicate (d + 1) 1 ++ wave ps ++
      (List.replicate (a + 1) 0 ++ List.replicate b 1))

/-- The off durations of columns with these cycles. -/
def offDurations (pss : List (List (Nat × Nat))) : List Int :=
  pss.flatten.map fun p => (p.1 : Int)

def onDurations (pss : List (List (Nat × Nat))) : List Int :=
  pss.flatten.map fun p => (p.2 : Int)

/-- The odd cells are drawn from a model that was fitted to the off durations, and the even ones
from a model that was fitted to the on durations. -/
structure OffFromOff (pss : List (List (Nat × Nat))) (cells : List (List Draw)) : Prop where
  odd : ∀ (i : Nat) (cell : List Draw), cells[2 * i]? = some cell →
    ∀ d ∈ cell, d.pd.sample.Perm (offDurations pss)
  even : ∀ (i : Nat) (cell : List Draw), cells[2 * i + 1]? = some cell →
    ∀ d ∈ cell, d.pd.sample.Perm (onDurations pss)

/-! ## The samples -/

theorem exists_cycles {s : List Int} (h : ∀ x ∈ s, x = 0 ∨ x = 1) : ∃ ps, Cycles s ps := by
  rcases zeroOne_cases h with ⟨c, d, hs⟩ | ⟨c, d, ps, a, b, hps, hs⟩
  · exact ⟨[], by simp [Proper], Or.inl ⟨rfl, c, d, hs⟩⟩
  · exact ⟨ps, hps, Or.inr ⟨c, d, a, b, hs⟩⟩

theorem getOffOnColumn_cycles {s : List Int} {ps : List (Nat × Nat)} (h : Cycles s ps) :
    getOffOnColumn s = some (ps.map fun p => (p.1 : Int), ps.map fun p => (p.2 : Int)) := by
  rcases h with ⟨hps, ⟨rfl, c, d, rfl⟩ | ⟨c, d, a, b, rfl⟩⟩
  · exact getOffOnColumn_flat c d
  · obtain ⟨before, after, hsteps, -, hb, ha⟩ := steps_signal c d hps a b
    exact getOffOnColumn_signal hps hsteps hb ha

/-- `getOnOffDist` takes the off times of the data for its on times. -/
theorem collectTimes_getOffOn {ar : List (List Int)} {pss : List (List (Nat × Nat))}
    (h : List.Forall₂ Cycles ar pss) :
    ∃ cells, getOffOn ar = some cells ∧
      collectTimes cells = (offDurations pss, onDurations pss) := by
  induction h with
  | nil => exact ⟨[], rfl, rfl⟩
  | @cons s ps ar pss hs _ ih =>
    obtain ⟨cells, hcells, hcollect⟩ := ih
    obtain ⟨pairs, hpairs, rfl⟩ := Option.map_eq_some_iff.mp hcells
    refine ⟨(ps.map fun p => (p.1 : Int)) :: (ps.map fun p => (p.2 : Int)) ::
      pairs.flatMap fun c => [c.1, c.2], ?_, ?_⟩
    · unfold getOffOn
      rw [List.mapM_cons, getOffOnColumn_cycles hs, hpairs]
      rfl
    · simp only [collectTimes, hcollect, offDurations, onDurations, List.flatten_cons,
        List.map_append]

variable {stats} {sample : List Int} {pd m1 m2 : Pd} {fuel fitLength n n' : Nat}
  {odd even odd' even' : List Draw}

theorem fitdist_sample {d : Distribution} (h : fitdist stats sample d = some pd) :
    pd.sample = sample := by
  unfold fitdist at h
  split_ifs at h
  rw [← Option.some.inj h]

/-- The first model is fitted to the even cells, the second to the odd ones. -/
theorem getOnOffDist_samples {cells : List (List Int)}
    (h : getOnOffDist stats cells = some (m1, m2)) :
    m1.sample = (collectTimes cells).2 ∧ m2.sample = (collectTimes cells).1 := by
  obtain ⟨off, hoff, h⟩ := Option.bind_eq_some_iff.mp h
  obtain ⟨on, hon, h⟩ := Option.bind_eq_some_iff.mp h
  obtain ⟨rfl, rfl⟩ := Prod.mk.inj (Option.some.inj h)
  exact ⟨fitdist_sample hoff, fitdist_sample hon⟩

/-! ## The draws -/

/-- A channel draws its odd cell from the first model and its even cell from the second. -/
theorem synthWhile_draws (h : synthWhile stats (m1, m2) fitLength fuel odd even n =
      some (odd', even', n'))
    (hodd : ∀ d ∈ odd, d.pd = m1) (heven : ∀ d ∈ even, d.pd = m2) :
    (∀ d ∈ odd', d.pd = m1) ∧ ∀ d ∈ even', d.pd = m2 := by
  induction fuel generalizing odd even n with
  | zero => cases h
  | succ fuel ih =>
    unfold synthWhile at h
    split_ifs at h
    · refine ih h (fun d hd => ?_) fun d hd => ?_
      · rcases List.mem_append.mp hd with hd | hd
        · exact hodd d hd
        · rw [List.mem_singleton.mp hd]
      · rcases List.mem_append.mp hd with hd | hd
        · exact heven d hd
        · rw [List.mem_singleton.mp hd]
    · obtain ⟨rfl, rfl, -⟩ := Prod.mk.inj (Option.some.inj h) |>.imp_right Prod.mk.inj
      exact ⟨hodd, heven⟩

/-- It draws at least once, when there is a length to fill. -/
theorem synthWhile_ne_nil (h : synthWhile stats (m1, m2) fitLength fuel odd even n =
      some (odd', even', n'))
    (hlen : odd ≠ [] ∧ even ≠ [] ∨ odd = [] ∧ even = [] ∧ 0 < fitLength) :
    odd' ≠ [] ∧ even' ≠ [] := by
  induction fuel generalizing odd even n with
  | zero => cases h
  | succ fuel ih =>
    unfold synthWhile at h
    split_ifs at h with hshort
    · exact ih h (Or.inl ⟨by simp, by simp⟩)
    · obtain ⟨rfl, rfl, -⟩ := Prod.mk.inj (Option.some.inj h) |>.imp_right Prod.mk.inj
      rcases hlen with hlen | ⟨rfl, rfl, hpos⟩
      · exact hlen
      · exact absurd (show ((List.map stats.value []).sum + (List.map stats.value []).sum : Int) <
          fitLength by simpa using hpos) hshort

/-- Every round draws from both models: enough rounds fill the length. -/
theorem synthWhile_isSome (hvalue : ∀ d, 0 < stats.value d)
    (hfuel : fitLength < (odd.map stats.value).sum + (even.map stats.value).sum + fuel)
    (hpos : 0 < fuel) :
    (synthWhile stats (m1, m2) fitLength fuel odd even n).isSome = true := by
  induction fuel generalizing odd even n with
  | zero => exact absurd hpos (lt_irrefl 0)
  | succ fuel ih =>
    unfold synthWhile
    split_ifs with hshort
    · have h1 := hvalue ⟨m1, n⟩
      have h2 := hvalue ⟨m2, n + 1⟩
      push_cast at hfuel
      apply ih
      · simp only [List.map_append, List.sum_append, List.map_cons, List.map_nil, List.sum_cons,
          List.sum_nil]
        omega
      · omega
    · rfl

/-- All channels. -/
theorem synth_draws {fitChannel : Nat} {cells : List (List Draw)}
    (h : synth stats (m1, m2) fitLength fuel fitChannel n = some cells) (hpos : 0 < fitLength)
    (i : Nat) (hi : i < fitChannel) :
    ∃ odd even, cells[2 * i]? = some odd ∧ cells[2 * i + 1]? = some even ∧
      odd ≠ [] ∧ even ≠ [] ∧ (∀ d ∈ odd, d.pd = m1) ∧ ∀ d ∈ even, d.pd = m2 := by
  induction fitChannel generalizing i n cells with
  | zero => exact absurd hi (Nat.not_lt_zero i)
  | succ fitChannel ih =>
    obtain ⟨⟨odd, even, n'⟩, hwhile, h⟩ := Option.bind_eq_some_iff.mp h
    obtain ⟨rest, hrest, h⟩ := Option.bind_eq_some_iff.mp h
    obtain rfl := Option.some.inj h
    cases i with
    | zero =>
      obtain ⟨hodd, heven⟩ := synthWhile_draws hwhile (by simp) (by simp)
      obtain ⟨hne, hne'⟩ := synthWhile_ne_nil hwhile (Or.inr ⟨rfl, rfl, hpos⟩)
      exact ⟨odd, even, rfl, rfl, hne, hne', hodd, heven⟩
    | succ i => exact ih hrest i (by omega)

theorem synth_length {fitChannel : Nat} {cells : List (List Draw)}
    (h : synth stats (m1, m2) fitLength fuel fitChannel n = some cells) :
    cells.length = 2 * fitChannel := by
  induction fitChannel generalizing n cells with
  | zero =>
    obtain rfl := Option.some.inj h
    rfl
  | succ fitChannel ih =>
    obtain ⟨⟨odd, even, n'⟩, -, h⟩ := Option.bind_eq_some_iff.mp h
    obtain ⟨rest, hrest, h⟩ := Option.bind_eq_some_iff.mp h
    obtain rfl := Option.some.inj h
    have := ih hrest
    simp only [List.length_cons]
    omega

/-- With positive draws `synth` comes to its end. -/
theorem synth_isSome (hvalue : ∀ d, 0 < stats.value d) (hfuel : fitLength < fuel)
    (fitChannel n : Nat) :
    (synth stats (m1, m2) fitLength fuel fitChannel n).isSome = true := by
  induction fitChannel generalizing n with
  | zero => rfl
  | succ fitChannel ih =>
    have hsome : (synthWhile stats (m1, m2) fitLength fuel [] [] n).isSome = true :=
      synthWhile_isSome hvalue (by simpa using hfuel) (by omega)
    obtain ⟨⟨odd, even, n'⟩, hwhile⟩ := Option.isSome_iff_exists.mp hsome
    obtain ⟨cells, hcells⟩ := Option.isSome_iff_exists.mp (ih n')
    unfold synth
    rw [hwhile]
    simp only [Option.bind_eq_bind, Option.bind_some, hcells]
    rfl

/-- The odd cells are drawn from the model of the on durations: they have the off durations when
these are the same. -/
theorem offFromOff_iff {pss : List (List (Nat × Nat))} {fitChannel : Nat}
    {cells : List (List Draw)} (hm1 : m1.sample = onDurations pss)
    (hm2 : m2.sample = offDurations pss)
    (h : synth stats (m1, m2) fitLength fuel fitChannel n = some cells) (hpos : 0 < fitLength)
    (hch : 0 < fitChannel) :
    OffFromOff pss cells ↔ (offDurations pss).Perm (onDurations pss) := by
  constructor
  · rintro ⟨hodd, -⟩
    obtain ⟨odd, even, hcell, -, hne, -, hdraws, -⟩ := synth_draws h hpos 0 hch
    obtain ⟨d, hd⟩ := List.exists_mem_of_ne_nil odd hne
    have hperm := hodd 0 odd hcell d hd
    rw [hdraws d hd, hm1] at hperm
    exact hperm.symm
  · intro hperm
    have hlen := synth_length h
    constructor
    · intro i cell hcell d hd
      have hi := (List.getElem?_eq_some_iff.mp hcell).1
      obtain ⟨odd, even, hodd, -, -, -, hdraws, -⟩ := synth_draws h hpos i (by omega)
      obtain rfl := Option.some.inj (hodd.symm.trans hcell)
      rw [hdraws d hd, hm1]
      exact hperm.symm
    · intro i cell hcell d hd
      have hi := (List.getElem?_eq_some_iff.mp hcell).1
      obtain ⟨odd, even, -, heven, -, -, -, hdraws⟩ := synth_draws h hpos i (by omega)
      obtain rfl := Option.some.inj (heven.symm.trans hcell)
      rw [hdraws d hd, hm2]
      exact hperm

theorem exists_forall₂_cycles {ar : List (List Int)} (h01 : ∀ s ∈ ar, ∀ x ∈ s, x = 0 ∨ x = 1) :
    ∃ pss, List.Forall₂ Cycles ar pss := by
  induction ar with
  | nil => exact ⟨[], List.Forall₂.nil⟩
  | cons s ar ih =>
    obtain ⟨ps, hps⟩ := exists_cycles (h01 s List.mem_cons_self)
    obtain ⟨pss, hpss⟩ := ih fun t ht => h01 t (List.mem_cons_of_mem _ ht)
    exact ⟨ps :: pss, List.Forall₂.cons hps hpss⟩

/-- **Off times are drawn from the off times of the data** if and only if the off and the on times
of the data are the same, up to their order. -/
theorem off_from_off_iff (stats : Stats) {ar : List (List Int)}
    (h01 : ∀ s ∈ ar, ∀ x ∈ s, x = 0 ∨ x = 1) :
    (∃ pss, List.Forall₂ Cycles ar pss) ∧
      ∀ pss, List.Forall₂ Cycles ar pss → ∃ cells, getOffOn ar = some cells ∧
        ∀ offOnModel, getOnOffDist stats cells = some offOnModel →
          ∀ fitLength fuel fitChannel n out, 0 < fitLength → 0 < fitChannel →
            synth stats offOnModel fitLength fuel fitChannel n = some out →
            (OffFromOff pss out ↔ (offDurations pss).Perm (onDurations pss)) := by
  refine ⟨exists_forall₂_cycles h01, fun pss hpss => ?_⟩
  obtain ⟨cells, hcells, hcollect⟩ := collectTimes_getOffOn hpss
  refine ⟨cells, hcells, ?_⟩
  rintro ⟨m1, m2⟩ hmodel fitLength fuel fitChannel n out hpos hch hout
  obtain ⟨hm1, hm2⟩ := getOnOffDist_samples hmodel
  rw [hcollect] at hm1 hm2
  exact offFromOff_iff hm1 hm2 hout hpos hch

/-- Every distribution fits, all as well, and each draw is 1. -/
def exampleStats : Stats := ⟨fun _ _ => true, fun _ => some 0, fun _ => 1⟩

/-- A column of one cycle, with the same off and on time. -/
theorem off_from_off_one :
    (∃ pss, List.Forall₂ Cycles [[1, 0, 1, 0]] pss) ∧
      ∀ pss, List.Forall₂ Cycles [[1, 0, 1, 0]] pss →
        ∃ cells, getOffOn [[1, 0, 1, 0]] = some cells ∧
          ∀ offOnModel, getOnOffDist exampleStats cells = some offOnModel →
            ∀ fitLength fuel fitChannel n out, 0 < fitLength → 0 < fitChannel →
              synth exampleStats offOnModel fitLength fuel fitChannel n = some out →
              (OffFromOff pss out ↔ (offDurations pss).Perm (onDurations pss)) :=
  off_from_off_iff exampleStats (by decide)

/-- A column of one cycle, with an off time of 2 and an on time of 1. -/
theorem off_drawn_from_on :
    ∃ out, (getOffOn [[1, 0, 0, 1, 0]]).bind (getOnOffDist exampleStats) =
        some (⟨[1], .exponential⟩, ⟨[2], .exponential⟩) ∧
      synth exampleStats (⟨[1], .exponential⟩, ⟨[2], .exponential⟩) 5 10 1 0 = some out ∧
      Cycles [1, 0, 0, 1, 0] [(2, 1)] ∧ ¬ OffFromOff [[(2, 1)]] out := by
  refine ⟨_, by decide +kernel, rfl, ⟨by simp [Proper], Or.inr ⟨0, 0, 0, 0, rfl⟩⟩, fun h => ?_⟩
  have hperm := h.odd 0 _ rfl ⟨⟨[1], .exponential⟩, 0⟩ (by decide)
  exact absurd hperm (by decide)

end Srsenb.Trace
