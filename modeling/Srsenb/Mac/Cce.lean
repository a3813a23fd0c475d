import Srsenb.Base.Run
import Srsenb.Mac.UlRbs

/-! # CCEs of the subframes

`dl_sched` and `ul_sched` share `used_cce`, which each of them clears by looking at the
`current_tti` that the other has left. A run is a list of their calls, in the order that the
workers make them. -/

open Srsenb.Run

namespace Srsenb.Mac

/-! ## What a call takes -/

/-- The CCEs of a location. -/
def DciLocation.cces (loc : DciLocation) : Set Nat :=
  { n | loc.ncce ≤ n ∧ n < loc.ncce + 2 ^ loc.L }

/-- The CCEs that the events of a log took. -/
def takenCces (log : List CceEvent) : Set Nat := { n | ∃ loc, .taken loc ∈ log ∧ n ∈ loc.cces }

theorem takenCces_append (l l' : List CceEvent) :
    takenCces (l ++ l') = takenCces l ∪ takenCces l' := by
  ext n
  simp only [takenCces, List.mem_append, Set.mem_ofPred_eq, Set.mem_union]
  constructor
  · rintro ⟨loc, h | h, hn⟩
    · exact Or.inl ⟨loc, h, hn⟩
    · exact Or.inr ⟨loc, h, hn⟩
  · rintro (⟨loc, h, hn⟩ | ⟨loc, h, hn⟩)
    · exact ⟨loc, Or.inl h, hn⟩
    · exact ⟨loc, Or.inr h, hn⟩

/-- Whether a DCI was placed. -/
def CceEvent.isTaken : CceEvent → Bool
  | .taken _ => true
  | .refused _ => false

/-- Two events that are no two DCIs with a common CCE. -/
def CceEvent.Apart : CceEvent → CceEvent → Prop
  | .taken loc, .taken loc' => Disjoint loc.cces loc'.cces
  | _, _ => True

namespace CceTable

/-- The table marks `base` and what the log took since, without a CCE taken twice. -/
structure Marks (base : Set Nat) (t : CceTable) : Prop where
  used : ∀ n, t.used n = true ↔ n ∈ base ∨ n ∈ takenCces t.log
  fresh : ∀ loc, .taken loc ∈ t.log → Disjoint loc.cces base
  excl : t.log.Pairwise CceEvent.Apart
  refused : ∀ n, .refused n ∈ t.log → n ∈ base ∨ n ∈ takenCces t.log

variable {base : Set Nat} {t t' : CceTable}

theorem Marks.take {ncce L : Nat} (h : Marks base t)
    (hfree : ∀ n, ncce ≤ n → n < ncce + 2 ^ L → t.used n = false) :
    Marks base (t.take ncce L) := by
  -- The new CCEs were free, so they are neither in the base nor taken before.
  have hnew : ∀ n ∈ (⟨L, ncce⟩ : DciLocation).cces, n ∉ base ∧ n ∉ takenCces t.log := by
    rintro n ⟨h1, h2⟩
    have hn := (h.used n).not.mp (by simp [hfree n h1 h2])
    exact not_or.mp hn
  have htaken : takenCces [.taken ⟨L, ncce⟩] = (⟨L, ncce⟩ : DciLocation).cces := by
    ext n
    simp [takenCces]
  refine ⟨?_, ?_, ?_, ?_⟩
  · intro n
    simp only [CceTable.take, takenCces_append, htaken, Set.mem_union, DciLocation.cces,
      Set.mem_ofPred_eq]
    split_ifs with hn
    · simp [hn]
    · rw [h.used n]
      simp [hn]
  · intro loc hloc
    rcases List.mem_append.mp hloc with hloc | hloc
    · exact h.fresh loc hloc
    · obtain rfl : loc = ⟨L, ncce⟩ := by simpa using hloc
      exact Set.disjoint_left.mpr fun n hn => (hnew n hn).1
  · apply List.pairwise_append.mpr
    refine ⟨h.excl, List.pairwise_singleton _ _, ?_⟩
    intro e he f hf
    obtain rfl := List.mem_singleton.mp hf
    cases e with
    | refused n => trivial
    | taken loc =>
      refine Set.disjoint_right.mpr fun n hn hloc => (hnew n hn).2 ?_
      exact ⟨loc, he, hloc⟩
  · intro n hn
    have hold : .refused n ∈ t.log := by simpa [CceTable.take] using hn
    simp only [CceTable.take, takenCces_append, Set.mem_union]
    rcases h.refused n hold with hb | ht
    · exact Or.inl hb
    · exact Or.inr (Or.inl ht)

theorem Marks.refuse {cce : Nat} (h : Marks base t) (hused : t.used cce = true) :
    Marks base (t.refuse cce) := by
  have htaken : takenCces (t.refuse cce).log = takenCces t.log := by
    ext n
    simp [takenCces, CceTable.refuse]
  refine ⟨?_, ?_, ?_, ?_⟩
  · rw [htaken]
    exact h.used
  · intro loc hloc
    exact h.fresh loc (by simpa [CceTable.refuse] using hloc)
  · apply List.pairwise_append.mpr
    refine ⟨h.excl, List.pairwise_singleton _ _, ?_⟩
    intro e _ f hf
    obtain rfl := List.mem_singleton.mp hf
    cases e <;> trivial
  · intro n hn
    rw [htaken]
    rcases List.mem_append.mp hn with hn | hn
    · exact h.refused n hn
    · obtain rfl : n = cce := by simpa using hn
      exact (h.used n).mp hused

theorem Grows.marks (h : Grows t t') (ht : Marks base t) : Marks base t' := by
  induction h with
  | refl => exact ht
  | take _ hfree ih => exact ih.take hfree
  | refuse _ hused ih => exact ih.refuse hused

end CceTable

/-! ## What a call does to the table -/

namespace Sched

variable (lib : Lib) (s : Sched) (tti : Nat)

/-- Whether `ul_sched` goes on after its checks. -/
def ulRuns : Bool :=
  s.configured && !(decide (s.cfg.prachFreqOffset + 6 > s.cfg.cell.nofPrb) &&
    decide (s.cfg.cell.nofPrb > 10))

theorem dlSched_cce (paging : Option Nat) (hs : s.configured = true) :
    (s.dlSched lib tti paging).1.currentTti = tti ∧
      (s.dlStart tti).cce.Grows (s.dlSched lib tti paging).1.cce := by
  unfold dlSched
  rw [if_neg (by simp [hs])]
  obtain ⟨bc, hbc, -⟩ := dlSchedBc_emits lib (s.dlStart tti) paging
  obtain ⟨s1, hs1⟩ : ∃ s1, ((s.dlStart tti).dlSchedBc lib paging).1 = s1 := ⟨_, rfl⟩
  obtain ⟨rar, hrar, -⟩ := dlSchedRar_emits lib s1
  obtain ⟨s2, hs2⟩ : ∃ s2, (s1.dlSchedRar lib).1 = s2 := ⟨_, rfl⟩
  rw [hs1] at hbc
  rw [hs2] at hrar
  have hrounds := hbc.trans hrar
  obtain ⟨⟨m, db, st, s3, ⟨t, n, rfl, hg⟩, hdata⟩, -⟩ := dlSchedData_spec lib s2
  simp only [hs1, hs2, hdata]
  exact ⟨hrounds.setup.currentTti, hrounds.grows.trans hg⟩

/-- The PRACH and Msg3 only take PRBs. -/
theorem reserveMsg3_frame :
    ∃ m, (s.reservePrach lib tti).reserveMsg3 tti = { s with ulMetric := m } := by
  obtain ⟨m, hprach⟩ : ∃ m, s.reservePrach lib tti = { s with ulMetric := m } := by
    unfold reservePrach
    split_ifs <;> exact ⟨_, rfl⟩
  rw [hprach]
  unfold reserveMsg3
  simp only
  split_ifs <;> exact ⟨_, rfl⟩

/-- The reservations and the metric change the metric and the users. -/
theorem ulAllocate_frame :
    ∃ m db, s.ulAllocate lib tti = { s with ulMetric := m, ueDb := db } := by
  obtain ⟨m2, h2⟩ := reserveMsg3_frame lib s tti
  have hpucch : ∃ m db, ((s.reservePrach lib tti).reserveMsg3 tti).reservePucch lib =
      { s with ulMetric := m, ueDb := db } := by
    rw [h2]
    simp only [reservePucch]
    split_ifs <;> exact ⟨_, _, rfl⟩
  obtain ⟨m3, db3, h3⟩ := hpucch
  simp only [ulAllocate, h3]
  exact ⟨_, _, rfl⟩

theorem ulAllocate_isSome (k : Nat) :
    (s.ulAllocate lib tti).ueDb[k]?.isSome = s.ueDb[k]?.isSome := by
  obtain ⟨m, hmsg3⟩ := reserveMsg3_frame lib s tti
  have hpucch : (((s.reservePrach lib tti).reserveMsg3 tti).reservePucch lib).ueDb[k]?.isSome =
      s.ueDb[k]?.isSome := by
    rw [hmsg3]
    unfold reservePucch
    split_ifs
    · rfl
    · exact StdMap.visit_isSome _ _ _ k
  rw [← hpucch]
  unfold ulAllocate UlMetric.newTti
  simp only
  rw [StdMap.visit_isSome, StdMap.visit_isSome]

theorem ulSched_cce (hs : s.ulRuns = true) :
    (s.ulSched lib tti).1.currentTti = tti ∧
      (s.ulStart tti).cce.Grows (s.ulSched lib tti).1.cce := by
  unfold ulRuns at hs
  simp only [Bool.and_eq_true, Bool.not_eq_true', Bool.and_eq_false_iff,
    decide_eq_false_iff_not] at hs
  unfold ulSched
  rw [if_neg (by simp [hs.1]), if_neg (by tauto)]
  obtain ⟨⟨phich, db⟩, hphich⟩ : ∃ r, (s.ulStart tti).ueDb.visit (phichUser tti)
      (s.ulStart tti).ueDb.keys [] = r := ⟨_, rfl⟩
  obtain ⟨m, db1, hm⟩ := ulAllocate_frame lib { s.ulStart tti with ueDb := db } tti
  simp only [hphich, hm]
  have hrun := StdMap.visit_ind (f := puschUser lib tti)
    (fun st _ => st.1.currentTti = tti ∧ (s.ulStart tti).cce.Grows st.1.cce)
    (fun st _ k u h _ => by
      obtain ⟨⟨t, n, heq, hg⟩, -⟩ := puschUser_spec lib st.1 st.2 tti k u
      rw [heq]
      exact ⟨h.1, h.2.trans hg⟩)
    db1.keys ({ s.ulStart tti with ulMetric := m, ueDb := db1 }, ⟨[], default⟩) db1
    ⟨rfl, .refl _⟩
  exact hrun

end Sched

/-! ## Runs -/

/-- The two calls of a worker, `dl_sched` with the paging payload when one is due. -/
inductive CallKind
  | dl (paging : Option Nat)
  | ul

/-- A call of the worker that received subframe `rx`. All of the scheduler but `used_cce` and
`current_tti` may be new. -/
structure Call where
  rx : Nat
  kind : CallKind
  sched : Sched

/-- What calls leave to each other, with the worker of the last one and a log by worker. -/
structure Pdcch where
  used : Nat → Bool
  currentTti : Nat
  last : Option Nat := none
  log : List (Nat × CceEvent) := []

namespace Pdcch

variable (lib : Lib) (p : Pdcch) (c : Call)

def init (tti : Nat) : Pdcch := { used := fun _ => false, currentTti := tti }

/-- The scheduler as the call finds it. -/
def start : Sched :=
  { c.sched with cce := { used := p.used }, currentTti := p.currentTti }

/-- The scheduler after the call; both calls fill the PDCCH of subframe `TTI_TX(rx)`. -/
def sched : Sched :=
  match c.kind with
  | .dl paging => ((p.start c).dlSched lib (ttiTx c.rx) paging).1
  | .ul => ((p.start c).ulSched lib (ttiRxAck c.rx)).1

/-- Whether the call gets past its first checks. -/
def runs : Bool :=
  match c.kind with
  | .dl _ => c.sched.configured
  | .ul => c.sched.ulRuns

/-- Whether the call clears the table. -/
def resets : Bool :=
  match c.kind with
  | .dl _ => decide (p.currentTti ≠ ttiTx c.rx)
  | .ul => decide (ttiTx p.currentTti ≠ ttiRxAck c.rx)

def step (p : Pdcch) (c : Call) : Pdcch where
  used := (p.sched lib c).cce.used
  currentTti := (p.sched lib c).currentTti
  last := if runs c then some c.rx else p.last
  log := p.log ++ (p.sched lib c).cce.log.map fun e => (c.rx, e)

/-- The events of one subframe. -/
def events (rx : Nat) : List CceEvent := (p.log.filter fun e => e.1 == rx).map Prod.snd

/-- The DCIs of each subframe have different CCEs, and a candidate is refused only for a CCE of
its own subframe. -/
def CceExclusive : Prop :=
  ∀ rx, (p.events rx).Pairwise CceEvent.Apart ∧
    ∀ n, .refused n ∈ p.events rx → n ∈ takenCces (p.events rx)

/-- No DCI was placed for the subframe yet. -/
def Untouched (rx : Nat) : Prop := ∀ e ∈ p.events rx, e.isTaken = false

/-- The call is the first of its subframe to place a DCI, and finds a table that it clears or that
is clear; or it follows a call of its subframe, and does not clear the table. -/
def InOrder (p : Pdcch) (c : Call) : Prop :=
  runs c = true →
    p.Untouched c.rx ∧ (p.resets c = true ∨ ∀ rx ∈ p.last, p.Untouched rx) ∨
      p.last = some c.rx ∧ p.resets c = false

instance (rx : Nat) : Decidable (p.Untouched rx) := inferInstanceAs (Decidable (∀ e ∈ _, _))

instance : Decidable (p.InOrder c) := inferInstanceAs (Decidable (_ → _))

variable {lib p c}

theorem takenCces_untouched {rx : Nat} (h : p.Untouched rx) : takenCces (p.events rx) = ∅ := by
  ext n
  simp only [takenCces, Set.mem_ofPred_eq, Set.mem_empty_iff_false, iff_false]
  rintro ⟨loc, hloc, -⟩
  exact absurd (h _ hloc) (by simp [CceEvent.isTaken])

theorem step_events (rx : Nat) :
    (p.step lib c).events rx =
      p.events rx ++ if c.rx = rx then (p.sched lib c).cce.log else [] := by
  simp only [events, step, List.filter_append, List.map_append, List.filter_map, List.map_map]
  congr 1
  split_ifs with h
  · simp [h, Function.comp_def]
  · simp [h, Function.comp_def]

theorem sched_of_not_runs (h : runs c = false) : p.sched lib c = p.start c := by
  unfold runs at h
  unfold sched
  cases hk : c.kind with
  | dl paging =>
    simp only [hk] at h ⊢
    unfold Sched.dlSched
    rw [if_pos (by simp [start, h])]
  | ul =>
    simp only [hk] at h ⊢
    unfold Sched.ulSched
    by_cases hconf : c.sched.configured = true
    · have hout : (p.start c).cfg.prachFreqOffset + 6 > (p.start c).cfg.cell.nofPrb ∧
          (p.start c).cfg.cell.nofPrb > 10 := by simpa [Sched.ulRuns, start, hconf] using h
      rw [if_neg (by simp [start, hconf]), if_pos hout]
    · rw [if_pos (by simpa [start] using hconf)]

/-- The CCEs that are marked when the call starts to place DCIs. -/
def base (p : Pdcch) (c : Call) : Set Nat := { n | p.resets c = false ∧ p.used n = true }

theorem sched_marks (h : runs c = true) :
    CceTable.Marks (p.base c) (p.sched lib c).cce := by
  have hempty : ∀ (t : CceTable), t.log = [] → (∀ n, t.used n = true ↔ n ∈ p.base c) →
      CceTable.Marks (p.base c) t := by
    intro t hlog hused
    refine ⟨fun n => ?_, ?_, ?_, ?_⟩ <;> simp [hlog, hused, takenCces]
  unfold runs at h
  unfold sched
  cases hk : c.kind with
  | dl paging =>
    simp only [hk] at h ⊢
    refine (Sched.dlSched_cce lib (p.start c) (ttiTx c.rx) paging h).2.marks (hempty _ ?_ ?_)
    · simp only [Sched.dlStart]
      split_ifs <;> rfl
    · intro n
      simp only [Sched.dlStart, start, base, resets, hk, Set.mem_ofPred_eq]
      split_ifs with ht <;> simp [ht, CceTable.clear]
  | ul =>
    simp only [hk] at h ⊢
    refine (Sched.ulSched_cce lib (p.start c) (ttiRxAck c.rx) h).2.marks (hempty _ ?_ ?_)
    · simp only [Sched.ulStart]
      split_ifs <;> rfl
    · intro n
      simp only [Sched.ulStart, start, base, resets, hk, Set.mem_ofPred_eq]
      split_ifs with ht <;> simp [ht, CceTable.clear]

/-! ## The invariant -/

/-- The table marks the DCIs of the last call's subframe. -/
structure Sound (p : Pdcch) : Prop where
  table : ∀ n, p.used n = true ↔ ∃ rx, p.last = some rx ∧ n ∈ takenCces (p.events rx)
  exclusive : p.CceExclusive

theorem sound_init (tti : Nat) : Sound (init tti) := by
  refine ⟨fun n => ?_, fun rx => ⟨.nil, ?_⟩⟩
  · simp [init]
  · simp [events, init]

/-- In order, the call starts with the CCEs of its own subframe. -/
theorem base_of_inOrder (hs : Sound p) (hr : runs c = true) (h : p.InOrder c) :
    p.base c = takenCces (p.events c.rx) := by
  rcases h hr with ⟨hnew, hclear⟩ | ⟨hlast, hkeep⟩
  · rw [takenCces_untouched hnew]
    ext n
    simp only [base, Set.mem_ofPred_eq, Set.mem_empty_iff_false, iff_false]
    rintro ⟨hkeep, hn⟩
    rcases hclear with hclear | hempty
    · rw [hclear] at hkeep
      cases hkeep
    · obtain ⟨rx, hrx, hn⟩ := (hs.table n).mp hn
      rw [takenCces_untouched (hempty rx hrx)] at hn
      exact hn
  · ext n
    simp [base, hkeep, hs.table, hlast]

theorem sound_step (p : Pdcch) (c : Call) (hs : Sound p) (h : p.InOrder c) :
    Sound (p.step lib c) := by
  by_cases hr : runs c = true
  · have hm : CceTable.Marks (p.base c) (p.sched lib c).cce := sched_marks hr
    rw [base_of_inOrder hs hr h] at hm
    have hevents : (p.step lib c).events c.rx = p.events c.rx ++ (p.sched lib c).cce.log := by
      rw [step_events, if_pos rfl]
    refine ⟨fun n => ?_, fun rx => ?_⟩
    · have hlast : (p.step lib c).last = some c.rx := by simp [step, hr]
      simp only [hlast, Option.some.injEq, exists_eq_left', hevents, takenCces_append]
      exact hm.used n
    · by_cases hrx : c.rx = rx
      · subst hrx
        rw [hevents]
        constructor
        · apply List.pairwise_append.mpr
          refine ⟨(hs.exclusive c.rx).1, hm.excl, ?_⟩
          intro e he f hf
          cases e with
          | refused n => trivial
          | taken loc =>
            cases f with
            | refused n => trivial
            | taken loc' =>
              refine Set.disjoint_left.mpr fun n hn hn' => ?_
              exact Set.disjoint_left.mp (hm.fresh loc' hf) hn' ⟨loc, he, hn⟩
        · intro n hn
          rw [takenCces_append]
          rcases List.mem_append.mp hn with hn | hn
          · exact Or.inl ((hs.exclusive c.rx).2 n hn)
          · exact hm.refused n hn
      · rw [step_events, if_neg hrx, List.append_nil]
        exact hs.exclusive rx
  · have hsame : p.sched lib c = p.start c := sched_of_not_runs (Bool.eq_false_iff.mpr hr)
    have hstep : p.step lib c = p := by
      simp [step, hsame, start, hr]
    rw [hstep]
    exact hs

/-- **The DCIs of a subframe share no CCE**, and none is refused for another subframe's, in every
run of calls in order. -/
theorem cce_exclusive (lib : Lib) (tti : Nat) (cs : List Call)
    (h : AllSteps (step lib) InOrder (init tti) cs) :
    AllStates (step lib) CceExclusive (init tti) cs :=
  (allStates_of_allSteps sound_step (sound_init tti) h).mono fun _ hs => hs.exclusive

/-- Subframe 0 sends paging and two uplink grants, the next one two grants more. -/
theorem cce_exclusive_paging :
    AllStates (step exampleLib) CceExclusive (init 0)
      [⟨0, .dl (some 4), Sched.exampleSched⟩, ⟨0, .ul, Sched.exampleRequests⟩,
       ⟨1, .dl none, Sched.exampleSched⟩, ⟨1, .ul, Sched.exampleRequests⟩] :=
  cce_exclusive exampleLib 0 _ (by decide)

/-- The calls of two workers interleave: the `ul_sched` of subframe 0 finds the TTI of the other
`dl_sched`, clears the table and places its grant on the CCEs of the paging. -/
theorem cce_shared_interleaved :
    ¬ AllStates (step exampleLib) CceExclusive (init 0)
      [⟨0, .dl (some 4), Sched.exampleSched⟩, ⟨1, .dl none, Sched.exampleSched⟩,
       ⟨0, .ul, Sched.exampleRequests⟩, ⟨1, .ul, Sched.exampleSched⟩] := by
  intro h
  have hlast := (h.last 0).1
  have hevents : (exec (step exampleLib) (init 0)
      [⟨0, .dl (some 4), Sched.exampleSched⟩, ⟨1, .dl none, Sched.exampleSched⟩,
       ⟨0, .ul, Sched.exampleRequests⟩, ⟨1, .ul, Sched.exampleSched⟩]).events 0 =
      [.taken ⟨2, 0⟩, .taken ⟨2, 0⟩] := by decide
  rw [hevents] at hlast
  have hdis : Disjoint (⟨2, 0⟩ : DciLocation).cces (⟨2, 0⟩ : DciLocation).cces :=
    List.rel_of_pairwise_cons hlast (List.mem_singleton_self _)
  have hmem : 0 ∈ (⟨2, 0⟩ : DciLocation).cces := ⟨le_rfl, by decide⟩
  exact Set.disjoint_left.mp hdis hmem hmem

/-! ## Workers in turn -/

/-- The calls of one worker: `dl_sched` is left out in an MBSFN subframe. -/
structure Worker where
  mbsfn : Bool
  paging : Option Nat
  dl : Sched
  ul : Sched

def Worker.calls (w : Worker) (rx : Nat) : List Call :=
  (if w.mbsfn then [] else [⟨rx, .dl w.paging, w.dl⟩]) ++ [⟨rx, .ul, w.ul⟩]

/-- The calls of workers that do not overlap, from subframe `rx` on. -/
def inTurn : Nat → List Worker → List Call
  | _, [] => []
  | rx, w :: ws => w.calls rx ++ inTurn (rx + 1) ws

/-- What the worker of subframe `rx` finds. -/
structure Turn (rx : Nat) (p : Pdcch) : Prop where
  past : ∀ e ∈ p.log, e.1 < rx
  tti : p.last = none ∨ ∃ r, r + 1 = rx ∧ p.currentTti = ttiRxAck r

theorem Turn.untouched {rx : Nat} (h : Turn rx p) : p.Untouched rx := by
  intro e he
  obtain ⟨f, hf, rfl⟩ := List.mem_map.mp he
  have hrx : f.1 = rx := by simpa using (List.mem_filter.mp hf).2
  exact absurd (h.past f (List.mem_filter.mp hf).1) (by omega)

theorem Turn.inOrder {rx : Nat} (h : Turn rx p) (hc : c.rx = rx) : p.InOrder c := by
  intro _
  refine Or.inl ⟨hc ▸ h.untouched, ?_⟩
  rcases h.tti with hnone | ⟨r, rfl, htti⟩
  · exact Or.inr (by simp [hnone])
  · -- The last call was the `ul_sched` of the subframe before.
    left
    unfold resets
    cases c.kind <;> simp [htti, hc, ttiTx, ttiRxAck, harqDelayMs] <;> omega

theorem step_log_mem {e : Nat × CceEvent} (he : e ∈ (p.step lib c).log) :
    e ∈ p.log ∨ e.1 = c.rx := by
  rcases List.mem_append.mp he with he | he
  · exact Or.inl he
  · obtain ⟨f, -, rfl⟩ := List.mem_map.mp he
    exact Or.inr rfl

theorem turn_ul {rx : Nat} {s : Sched} (hp : ∀ e ∈ p.log, e.1 ≤ rx) (hs : s.ulRuns = true) :
    Turn (rx + 1) (p.step lib ⟨rx, .ul, s⟩) := by
  refine ⟨fun e he => ?_, Or.inr ⟨rx, rfl, ?_⟩⟩
  · rcases step_log_mem he with he | he
    · have := hp e he
      omega
    · simp only at he
      omega
  · exact (Sched.ulSched_cce lib (p.start ⟨rx, .ul, s⟩) (ttiRxAck rx) hs).1

/-- **Workers that do not overlap are in order**, whatever subframes are MBSFN. -/
theorem inTurn_inOrder {ws : List Worker} {rx : Nat}
    (hws : ∀ w ∈ ws, w.dl.configured = true ∧ w.ul.ulRuns = true) (h : Turn rx p) :
    AllSteps (step lib) InOrder p (inTurn rx ws) := by
  induction ws generalizing rx p with
  | nil => trivial
  | cons w ws ih =>
    obtain ⟨hdl, hul⟩ := hws w List.mem_cons_self
    have hrest := fun v hv => hws v (List.mem_cons_of_mem w hv)
    have hle : ∀ e ∈ p.log, e.1 ≤ rx := fun e he => Nat.le_of_lt (h.past e he)
    cases hm : w.mbsfn with
    | true =>
      simp only [inTurn, Worker.calls, hm, if_true, List.nil_append, List.singleton_append]
      exact ⟨h.inOrder rfl, ih hrest (turn_ul hle hul)⟩
    | false =>
      simp only [inTurn, Worker.calls, hm, Bool.false_eq_true, if_false, List.cons_append,
        List.nil_append]
      have htti := (Sched.dlSched_cce lib (p.start ⟨rx, .dl w.paging, w.dl⟩) (ttiTx rx)
        w.paging hdl).1
      refine ⟨h.inOrder rfl, fun _ => Or.inr ⟨?_, ?_⟩, ih hrest (turn_ul ?_ hul)⟩
      · simp [step, runs, hdl]
      · -- `dl_sched` left the TTI that `ul_sched` looks for.
        simp only [resets, step, sched, htti]
        simp [ttiTx, ttiRxAck, harqDelayMs]
      · intro e he
        rcases step_log_mem he with he | he
        · exact hle e he
        · exact Nat.le_of_eq he

end Pdcch

end Srsenb.Mac
