import Mathlib.Order.Fin.Basic
import Srsenb.Mac.BsrCount

/-! # The groups of the logical channels (`mac/ue.cc`)

A call of `set_lcg` is meant to move a channel into a group. It leaves the channel where it was
before, so a channel is in each group that it was ever given. -/

open Srsenb.Run

namespace Srsenb.Mac

/-- The calls of `set_lcg` that an event makes. -/
def BsrEvent.lcgCalls : BsrEvent → List (Nat × Fin 4)
  | .config _ => RxUe.configLcgs
  | .setLcg lcid lcg | .bearerUeCfg lcid lcg _ => [(lcid, lcg)]
  | .ueCfg .. | .bearerUeRem _ => []

/-- The group of the latest call for a channel. -/
def latestLcg (calls : List (Nat × Fin 4)) (lcid : Nat) : Option (Fin 4) :=
  (calls.reverse.find? fun c => decide (c.1 = lcid)).map (·.2)

theorem latestLcg_mem {calls : List (Nat × Fin 4)} {lcid : Nat} {lcg : Fin 4}
    (h : latestLcg calls lcid = some lcg) : (lcid, lcg) ∈ calls := by
  unfold latestLcg at h
  obtain ⟨c, hc, rfl⟩ := Option.map_eq_some_iff.mp h
  have hmem := List.mem_reverse.mp (List.mem_of_find?_eq_some hc)
  have hlcid : c.1 = lcid := by simpa using List.find?_some hc
  rwa [← hlcid]

theorem latestLcg_isSome {calls : List (Nat × Fin 4)} {lcid : Nat} {lcg : Fin 4}
    (h : (lcid, lcg) ∈ calls) : (latestLcg calls lcid).isSome = true := by
  unfold latestLcg
  rw [Option.isSome_map, List.find?_isSome]
  exact ⟨(lcid, lcg), List.mem_reverse.mpr h, decide_eq_true rfl⟩

/-- No channel is given two groups. -/
def KeepsGroup (calls : List (Nat × Fin 4)) : Prop :=
  ∀ lcid g k, (lcid, g) ∈ calls → (lcid, k) ∈ calls → g = k

namespace RxUe

variable {u : RxUe} {lcid : Nat} {lcg : Fin 4}

/-- Each channel that was given is in the group of its latest call, once, and in no other. -/
def OneGroup (u : RxUe) (calls : List (Nat × Fin 4)) : Prop :=
  ∀ lcid lcg, latestLcg calls lcid = some lcg →
    ∀ g, (u.lcGroups g).count lcid = if g = lcg then 1 else 0

/-! ## What the groups hold -/

theorem setLcg_lcGroups : (u.setLcg lcid lcg).lcGroups =
    Function.update u.lcGroups lcg ((u.lcGroups lcg).filter (· ≠ lcid) ++ [lcid]) := rfl

/-- `set_lcg` leaves one entry of the channel in its group, and every other entry alone. -/
theorem setLcg_count (u : RxUe) (lcid : Nat) (lcg : Fin 4) (c : Nat) (g : Fin 4) :
    ((u.setLcg lcid lcg).lcGroups g).count c =
      if (c, g) = (lcid, lcg) then 1 else (u.lcGroups g).count c := by
  by_cases hg : g = lcg
  · subst hg
    rw [setLcg_lcGroups, Function.update_self, List.count_append, List.count_singleton]
    by_cases hc : c = lcid
    · subst hc
      rw [List.count_eq_zero_of_not_mem (by simp)]
      simp
    · rw [List.count_filter (by simpa using hc)]
      simp [hc, Ne.symm hc]
  · rw [setLcg_lcGroups, Function.update_of_ne hg]
    simp [hg]

/-- An event leaves one entry for each call that it makes, and every other entry alone. -/
theorem step_count (lib : Lib) (st : BsrState) (e : BsrEvent) (c : Nat) (g : Fin 4) :
    ((st.step lib e).ue.lcGroups g).count c =
      if (c, g) ∈ e.lcgCalls then 1 else (st.ue.lcGroups g).count c := by
  cases e with
  | config rnti =>
    simp only [BsrState.step, config, setLcg_count, BsrEvent.lcgCalls, configLcgs, List.mem_cons,
      List.not_mem_nil, or_false]
    split_ifs <;> tauto
  | setLcg lcid lcg =>
    simp only [BsrState.step, setLcg_count, BsrEvent.lcgCalls, List.mem_singleton]
  | bearerUeCfg lcid lcg direction =>
    simp only [BsrState.step, setLcg_count, BsrEvent.lcgCalls, List.mem_singleton]
  | ueCfg args locations rnti cfg bearers => simp [BsrState.step, BsrEvent.lcgCalls]
  | bearerUeRem lcid => simp [BsrState.step, BsrEvent.lcgCalls]

theorem exec_count (lib : Lib) (es : List BsrEvent) (st : BsrState) (c : Nat) (g : Fin 4) :
    ((exec (BsrState.step lib) st es).ue.lcGroups g).count c =
      if (c, g) ∈ es.flatMap BsrEvent.lcgCalls then 1 else (st.ue.lcGroups g).count c := by
  induction es generalizing st with
  | nil => rfl
  | cons e es ih =>
    rw [exec_cons, ih, step_count, List.flatMap_cons]
    by_cases hrest : (c, g) ∈ es.flatMap BsrEvent.lcgCalls
    · rw [if_pos hrest, if_pos (List.mem_append_right _ hrest)]
    · rw [if_neg hrest]
      simp only [List.mem_append, hrest, or_false]

/-- In a run from a new user each call leaves one entry of its channel in its group, whatever
comes after it, and no call leaves any other. -/
theorem count_lcGroups (lib : Lib) (sched : Sched) (es : List BsrEvent) (c : Nat) (g : Fin 4) :
    ((exec (BsrState.step lib) (BsrState.init sched) es).ue.lcGroups g).count c =
      if (c, g) ∈ es.flatMap BsrEvent.lcgCalls then 1 else 0 := by
  rw [exec_count]
  rfl

/-- The groups are right as long as no channel changes its group. -/
theorem oneGroup_iff_keepsGroup {calls : List (Nat × Fin 4)}
    (hcount : ∀ c g, (u.lcGroups g).count c = if (c, g) ∈ calls then 1 else 0) :
    u.OneGroup calls ↔ KeepsGroup calls := by
  unfold OneGroup KeepsGroup
  constructor
  · intro h lcid g k hg hk
    obtain ⟨lcg, hlatest⟩ := Option.isSome_iff_exists.mp (latestLcg_isSome hg)
    -- A group that a call named has an entry, so it is the latest one.
    have honly : ∀ j, (lcid, j) ∈ calls → j = lcg := by
      intro j hj
      have hone := h lcid lcg hlatest j
      rw [hcount, if_pos hj] at hone
      by_contra hne
      rw [if_neg hne] at hone
      omega
    rw [honly g hg, honly k hk]
  · intro h lcid lcg hlatest g
    have hmem := latestLcg_mem hlatest
    rw [hcount]
    refine if_congr ?_ rfl rfl
    constructor
    · exact fun hg => h lcid g lcg hg hmem
    · rintro rfl
      exact hmem

/-- **Groups of channels.** After `config` and any calls, each channel is in the group of its
latest `set_lcg` alone if and only if no channel was ever given two groups. -/
theorem one_group_iff (lib : Lib) (sched : Sched) (rnti : Nat) (es : List BsrEvent) :
    (exec (BsrState.step lib) (BsrState.init sched) (.config rnti :: es)).ue.OneGroup
        ((BsrEvent.config rnti :: es).flatMap BsrEvent.lcgCalls) ↔
      KeepsGroup ((BsrEvent.config rnti :: es).flatMap BsrEvent.lcgCalls) :=
  oneGroup_iff_keepsGroup (count_lcGroups lib sched (.config rnti :: es))

/-- Channel 3 is moved from group 1 to group 2. -/
theorem two_groups_moved :
    let run : List BsrEvent := [.config 70, .bearerUeCfg 3 1 .both, .bearerUeCfg 3 2 .both]
    ¬ (exec (BsrState.step exampleLib) (BsrState.init Sched.exampleSched) run).ue.OneGroup
      (run.flatMap BsrEvent.lcgCalls) := by
  intro run h
  have hleft := h 3 2 (by decide) 1
  exact absurd hleft (by decide +kernel)

end RxUe

end Srsenb.Mac
