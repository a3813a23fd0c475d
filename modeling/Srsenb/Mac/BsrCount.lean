import Srsenb.Base.Run
import Srsenb.Mac.UlPdu

/-! # Buffer status reports

A report gives one size for a group of channels. The scheduler keeps one for each channel, and
adds up those of the UL bearers. -/

open Srsenb.Run

namespace Srsenb.Mac

/-- A user of the MAC, and the scheduler. -/
structure BsrState where
  sched : Sched
  ue : RxUe := {}

/-- What configures the user and its bearers. -/
inductive BsrEvent where
  | config (rnti : Nat)
  | setLcg (lcid : Nat) (lcg : Fin 4)
  | ueCfg (args : SchedArgs) (locations : Nat → Nat → Nat → DciCce) (rnti : Nat) (cfg : UeCfg)
    (bearers : Fin maxLc → Direction)
  | bearerUeCfg (lcid : Nat) (lcg : Fin 4) (direction : Direction)
  | bearerUeRem (lcid : Nat)

namespace BsrState

variable (lib : Lib) (st : BsrState)

def step (st : BsrState) : BsrEvent → BsrState
  | .config rnti => { st with ue := st.ue.config rnti }
  | .setLcg lcid lcg => { st with ue := st.ue.setLcg lcid lcg }
  | .ueCfg args locations rnti cfg bearers =>
    { st with sched := st.sched.ueCfg lib args locations rnti cfg (List.ofFn bearers) }
  | .bearerUeCfg lcid lcg direction =>
    { ue := st.ue.setLcg lcid lcg, sched := st.sched.bearerUeCfg st.ue.rnti lcid direction }
  | .bearerUeRem lcid => { st with sched := st.sched.bearerUeRem st.ue.rnti lcid }

/-- The user processes a control element. -/
def receive (ueExists : Nat → Bool) (ce : SchSubh) : BsrState :=
  let (ue, calls, _) := st.ue.processCe ueExists ce
  ⟨calls.foldl Sched.ueCall st.sched, ue⟩

/-- The channels of the user in the scheduler. -/
def lch : List UeBearer := (st.sched.ueDb[st.ue.rnti]?.map (·.lch)).getD []

/-- The UL bearers of a group. -/
def ulBearers (lcg : Fin 4) : List Nat :=
  (List.range st.lch.length).filter fun lcid =>
    decide (lcid ∈ st.ue.lcGroups lcg) && st.lch[lcid]?.any SchedUe.bearerIsUl

/-- What the scheduler has for a channel. -/
def bsr (lcid : Nat) : Int := (st.lch[lcid]?.map (·.bsr)).getD 0

/-- The UL bearers of each reported group that has any add up to the size reported for it. -/
def CountedOnce (ueExists : Nat → Bool) (ce : SchSubh) : Prop :=
  let st' := st.receive ueExists ce
  ∀ it ∈ ce.reported, st'.ulBearers it.1 ≠ [] → ((st'.ulBearers it.1).map st'.bsr).sum = it.2

/-- The size for the last of the reported groups that lists a channel; the scheduler's number of a
channel has eight bits. -/
def lastSize (reported : List (Fin 4 × Nat)) (lcid : Nat) : Option Nat :=
  (reported.reverse.find? fun it => decide (lcid ∈ (st.ue.lcGroups it.1).map (· % 2 ^ 8))).map (·.2)

/-- One UL bearer in the reported group, or nothing to send. In a long report a bearer that is in
several groups counts in the last one only. -/
def OneBearer : SchSubh → Prop
  | .truncBsr (some lcg) buffSize | .shortBsr (some lcg) buffSize =>
    st.ulBearers lcg = [] ∨ (st.ulBearers lcg).length = 1 ∨ buffSize = 0
  | .longBsr buffSize => ∀ lcg, st.ulBearers lcg ≠ [] →
    ((st.ulBearers lcg).map fun lcid =>
      (st.lastSize (SchSubh.longBsr buffSize).reported lcid).getD 0).sum = buffSize lcg
  | _ => True

/-! ## What a report leaves -/

/-- The channels after a list of reports, each for one of them. -/
def setBsr (lch : List UeBearer) (it : Nat × Nat) : List UeBearer :=
  lch.modify (it.1 % 2 ^ 8) fun b => { b with bsr := it.2 }

theorem setBsr_getElem? (lch : List UeBearer) (it : Nat × Nat) (c : Nat) :
    (setBsr lch it)[c]? =
      if it.1 % 2 ^ 8 = c then lch[c]?.map fun b => { b with bsr := it.2 } else lch[c]? := by
  unfold setBsr
  rw [List.getElem?_modify]
  split_ifs
  · rfl
  · simp

theorem foldl_setBsr_length (its : List (Nat × Nat)) (lch : List UeBearer) :
    (its.foldl setBsr lch).length = lch.length := by
  induction its generalizing lch with
  | nil => rfl
  | cons it its ih =>
    rw [List.foldl_cons, ih]
    simp [setBsr]

theorem foldl_setBsr_direction (its : List (Nat × Nat)) (lch : List UeBearer) (c : Nat) :
    (its.foldl setBsr lch)[c]?.any SchedUe.bearerIsUl = lch[c]?.any SchedUe.bearerIsUl := by
  induction its generalizing lch with
  | nil => rfl
  | cons it its ih =>
    rw [List.foldl_cons, ih, setBsr_getElem?]
    split_ifs
    · cases lch[c]? <;> simp [SchedUe.bearerIsUl]
    · rfl

/-- The last report for a channel stays. -/
theorem foldl_setBsr_bsr (its : List (Nat × Nat)) (lch : List UeBearer) (c : Nat) :
    (its.foldl setBsr lch)[c]?.map (·.bsr) =
      lch[c]?.map fun b =>
        ((its.reverse.find? fun it => decide (it.1 % 2 ^ 8 = c)).map (·.2)).elim b.bsr
          fun n : Nat => (n : Int) := by
  induction its using List.reverseRecOn with
  | nil => simp
  | append_singleton its it ih =>
    rw [List.foldl_append, List.foldl_cons, List.foldl_nil, setBsr_getElem?,
      List.reverse_append, List.reverse_singleton, List.singleton_append, List.find?_cons]
    split_ifs with h
    · have hlen := foldl_setBsr_length its lch
      simp only [h, decide_true]
      by_cases hc : c < lch.length
      · simp [List.getElem?_eq_getElem hc, List.getElem?_eq_getElem (hlen.symm ▸ hc)]
      · rw [List.getElem?_eq_none (by omega), List.getElem?_eq_none (by omega)]
        rfl
    · simpa only [h, decide_false] using ih

theorem find?_flatMap_reverse (groups : Fin 4 → List Nat) (reported : List (Fin 4 × Nat))
    (c : Nat) :
    ((reported.flatMap fun it => (groups it.1).map fun lcid => (lcid, it.2)).reverse.find?
        fun it => decide (it.1 % 2 ^ 8 = c)).map (·.2) =
      (reported.reverse.find? fun it => decide (c ∈ (groups it.1).map (· % 2 ^ 8))).map (·.2) := by
  induction reported using List.reverseRecOn with
  | nil => rfl
  | append_singleton reported it ih =>
    rw [List.flatMap_append, List.reverse_append, List.reverse_append, List.find?_append,
      List.find?_append, List.flatMap_singleton, List.reverse_singleton, List.find?_singleton]
    by_cases h : c ∈ (groups it.1).map (· % 2 ^ 8)
    · -- The channel is in the group of the last report, which settles it.
      obtain ⟨lcid, hmem, hlcid⟩ := List.mem_map.mp h
      have hsome : (((groups it.1).map fun lcid => (lcid, it.2)).reverse.find?
          fun it => decide (it.1 % 2 ^ 8 = c)).isSome = true := by
        rw [List.find?_isSome]
        exact ⟨(lcid, it.2), by simpa using hmem, by simpa using hlcid⟩
      obtain ⟨jt, hjt⟩ := Option.isSome_iff_exists.mp hsome
      have hsize : jt.2 = it.2 := by
        have hj := List.mem_of_find?_eq_some hjt
        rw [List.mem_reverse, List.mem_map] at hj
        obtain ⟨l, -, rfl⟩ := hj
        rfl
      rw [hjt, if_pos (by simpa using h), Option.some_or, Option.some_or, Option.map_some,
        Option.map_some, hsize]
    · have hnone : ((groups it.1).map fun lcid => (lcid, it.2)).reverse.find?
          (fun it => decide (it.1 % 2 ^ 8 = c)) = none := by
        rw [List.find?_eq_none]
        intro jt hj
        rw [List.mem_reverse, List.mem_map] at hj
        obtain ⟨l, hl, rfl⟩ := hj
        simp only [decide_eq_true_eq]
        exact fun hlc => h (List.mem_map.mpr ⟨l, hl, hlc⟩)
      rw [hnone, Option.none_or, if_neg (by simpa using h), Option.none_or]
      exact ih

/-! ## The calls of the user -/

theorem processCe_reported (ueExists : Nat → Bool) (u : RxUe) (ce : SchSubh)
    (h : ce.reported ≠ []) :
    (u.processCe ueExists ce).1 = u ∧
      (u.processCe ueExists ce).2.1 = ce.reported.flatMap fun it => u.bsrCalls it.1 it.2 := by
  unfold SchSubh.reported at h ⊢
  unfold RxUe.processCe
  split at h
  · simp
  · simp
  · simp [List.flatMap_map]
  · exact absurd rfl h

theorem ulBsr_get (s : Sched) (rnti lcid n : Nat) :
    (s.ulBsr rnti lcid n true).ueDb[rnti]?.map (·.lch) =
      (s.ueDb[rnti]?.map (·.lch)).map fun lch => setBsr lch (lcid, n) := by
  unfold Sched.ulBsr Sched.indicate
  cases h : s.ueDb[rnti]? with
  | none => simp [h]
  | some u =>
    simp only [StdMap.getElem?_insert, if_pos]
    rfl

theorem foldl_ueCall (rnti : Nat) (its : List (Nat × Nat)) (s : Sched) :
    ((its.map fun it => UeCall.schedUlBsr rnti it.1 it.2 true).foldl Sched.ueCall s).ueDb[rnti]?.map
        (·.lch) = (s.ueDb[rnti]?.map (·.lch)).map fun lch => its.foldl setBsr lch := by
  induction its generalizing s with
  | nil => simp [Function.comp_def]
  | cons it its ih =>
    rw [List.map_cons, List.foldl_cons, ih, Sched.ueCall, ulBsr_get, Option.map_map]
    rfl

variable {st}

theorem receive_lch (st : BsrState) (ueExists : Nat → Bool) (ce : SchSubh) (h : ce.reported ≠ []) :
    (st.receive ueExists ce).ue = st.ue ∧
      (st.receive ueExists ce).lch =
        (ce.reported.flatMap fun it =>
          (st.ue.lcGroups it.1).map fun lcid => (lcid, it.2)).foldl setBsr st.lch := by
  obtain ⟨hue, hcalls⟩ := processCe_reported ueExists st.ue ce h
  have hmap : (ce.reported.flatMap fun it => st.ue.bsrCalls it.1 it.2) =
      (ce.reported.flatMap fun it => (st.ue.lcGroups it.1).map fun lcid => (lcid, it.2)).map
        fun it => UeCall.schedUlBsr st.ue.rnti it.1 it.2 true := by
    simp [List.map_flatMap, RxUe.bsrCalls, Function.comp_def]
  refine ⟨hue, ?_⟩
  unfold receive lch
  simp only [hue, hcalls, hmap, foldl_ueCall]
  cases st.sched.ueDb[st.ue.rnti]? with
  | none =>
    rw [Option.map_none, Option.map_none, Option.getD_none]
    exact (List.eq_nil_of_length_eq_zero (foldl_setBsr_length _ _)).symm
  | some u => rfl

theorem receive_ulBearers (ueExists : Nat → Bool) (ce : SchSubh) (h : ce.reported ≠ [])
    (lcg : Fin 4) : (st.receive ueExists ce).ulBearers lcg = st.ulBearers lcg := by
  obtain ⟨hue, hlch⟩ := receive_lch st ueExists ce h
  unfold ulBearers
  rw [hue, hlch, foldl_setBsr_length]
  simp only [foldl_setBsr_direction]

/-- A channel has what was reported last for a group that lists it. -/
theorem receive_bsr (ueExists : Nat → Bool) (ce : SchSubh) (h : ce.reported ≠ []) {c n : Nat}
    (hc : c < st.lch.length) (hn : st.lastSize ce.reported c = some n) :
    (st.receive ueExists ce).bsr c = n := by
  have hfind := find?_flatMap_reverse st.ue.lcGroups ce.reported c
  have hlast := foldl_setBsr_bsr
    (ce.reported.flatMap fun it => (st.ue.lcGroups it.1).map fun lcid => (lcid, it.2)) st.lch c
  rw [hfind] at hlast
  unfold lastSize at hn
  unfold bsr
  rw [(receive_lch st ueExists ce h).2, hlast, hn, List.getElem?_eq_getElem hc]
  rfl

/-! ## The condition -/

/-- A bearer of a reported group has a last report. -/
theorem lastSize_isSome {ce : SchSubh} {it : Fin 4 × Nat} (hit : it ∈ ce.reported)
    (hwidth : st.lch.length ≤ 2 ^ 8) {c : Nat} (hc : c ∈ st.ulBearers it.1) :
    (st.lastSize ce.reported c).isSome = true := by
  unfold ulBearers at hc
  obtain ⟨hrange, hin⟩ := List.mem_filter.mp hc
  have hlt : c < 2 ^ 8 := Nat.lt_of_lt_of_le (List.mem_range.mp hrange) hwidth
  have hmem : c ∈ st.ue.lcGroups it.1 := of_decide_eq_true (Bool.and_eq_true_iff.mp hin).1
  unfold lastSize
  rw [Option.isSome_map, List.find?_isSome]
  refine ⟨it, List.mem_reverse.mpr hit, decide_eq_true ?_⟩
  exact List.mem_map.mpr ⟨c, hmem, Nat.mod_eq_of_lt hlt⟩

theorem receive_sum (ueExists : Nat → Bool) {ce : SchSubh} {it : Fin 4 × Nat}
    (hit : it ∈ ce.reported) (hwidth : st.lch.length ≤ 2 ^ 8) :
    ((st.ulBearers it.1).map (st.receive ueExists ce).bsr).sum =
      (((st.ulBearers it.1).map fun c => (st.lastSize ce.reported c).getD 0).sum : Nat) := by
  have hne : ce.reported ≠ [] := List.ne_nil_of_mem hit
  have heach : ∀ c ∈ st.ulBearers it.1,
      (st.receive ueExists ce).bsr c = (((st.lastSize ce.reported c).getD 0 : Nat) : Int) := by
    intro c hc
    obtain ⟨n, hn⟩ := Option.isSome_iff_exists.mp (lastSize_isSome hit hwidth hc)
    have hlt : c < st.lch.length := List.mem_range.mp (List.mem_filter.mp hc).1
    rw [receive_bsr ueExists ce hne hlt hn, hn, Option.getD_some]
  rw [List.map_congr_left heach]
  induction st.ulBearers it.1 with
  | nil => rfl
  | cons c cs ih => simp [ih]

/-- A report of a single group gives its size to each bearer of it. -/
theorem lastSize_single {g : Fin 4} {n : Nat} (hwidth : st.lch.length ≤ 2 ^ 8) {ce : SchSubh}
    (hce : ce.reported = [(g, n)]) :
    ((st.ulBearers g).map fun c => (st.lastSize ce.reported c).getD 0).sum =
      (st.ulBearers g).length * n := by
  have heach : ∀ c ∈ st.ulBearers g, (st.lastSize ce.reported c).getD 0 = n := by
    intro c hc
    have hmem : (g, n) ∈ ce.reported := by simp [hce]
    have hsome := lastSize_isSome hmem hwidth hc
    rw [hce] at hsome ⊢
    unfold lastSize at hsome ⊢
    rw [List.reverse_singleton, List.find?_singleton] at hsome ⊢
    split_ifs at hsome ⊢
    · rfl
    · simp at hsome
  rw [List.map_congr_left (g := fun _ => n) heach]
  rw [List.map_const', List.sum_replicate_nat]

theorem countedOnce_iff_sum (ueExists : Nat → Bool) (ce : SchSubh)
    (hwidth : st.lch.length ≤ 2 ^ 8) :
    st.CountedOnce ueExists ce ↔ ∀ it ∈ ce.reported, st.ulBearers it.1 ≠ [] →
      ((st.ulBearers it.1).map fun c => (st.lastSize ce.reported c).getD 0).sum = it.2 := by
  refine forall₂_congr fun it hit => ?_
  rw [receive_ulBearers ueExists ce (List.ne_nil_of_mem hit), receive_sum ueExists hit hwidth]
  norm_cast

theorem single_iff {g : Fin 4} {n : Nat} (hwidth : st.lch.length ≤ 2 ^ 8) {ce : SchSubh}
    (hce : ce.reported = [(g, n)]) :
    (∀ it ∈ ce.reported, st.ulBearers it.1 ≠ [] →
        ((st.ulBearers it.1).map fun c => (st.lastSize ce.reported c).getD 0).sum = it.2) ↔
      st.ulBearers g = [] ∨ (st.ulBearers g).length = 1 ∨ n = 0 := by
  have hsum := lastSize_single hwidth hce
  simp only [hce, List.mem_singleton, forall_eq] at hsum ⊢
  rw [hsum, or_iff_not_imp_left]
  refine imp_congr_right fun _ => ?_
  constructor
  · intro h
    rcases Nat.eq_zero_or_pos n with hn | hn
    · exact Or.inr hn
    · exact Or.inl (Nat.eq_of_mul_eq_mul_right hn (by omega))
  · rintro (h | rfl)
    · simp [h]
    · simp

theorem countedOnce_iff (ueExists : Nat → Bool) (ce : SchSubh) (hwidth : st.lch.length ≤ 2 ^ 8) :
    st.CountedOnce ueExists ce ↔ st.OneBearer ce := by
  rw [countedOnce_iff_sum ueExists ce hwidth]
  unfold OneBearer
  split
  · exact single_iff hwidth rfl
  · exact single_iff hwidth rfl
  · simp [SchSubh.reported]
  · rename_i h1 h2 h3
    cases ce with
    | truncBsr lcg n =>
      cases lcg with
      | none => simp [SchSubh.reported]
      | some g => exact absurd rfl (h1 g n)
    | shortBsr lcg n =>
      cases lcg with
      | none => simp [SchSubh.reported]
      | some g => exact absurd rfl (h2 g n)
    | longBsr f => exact absurd rfl (h3 f)
    | _ => simp [SchSubh.reported]

/-! ## Every sequence of configurations -/

/-- No user has more channels than `MAX_LC`. -/
def Bounded (st : BsrState) : Prop :=
  ∀ (r : Nat) (u : SchedUe), st.sched.ueDb[r]? = some u → u.lch.length ≤ maxLc

theorem Bounded.width (h : st.Bounded) : st.lch.length ≤ 2 ^ 8 := by
  unfold lch
  cases hu : st.sched.ueDb[st.ue.rnti]? with
  | none => simp
  | some u =>
    have := h _ u hu
    simp only [maxLc] at this
    simp only [Option.map_some, Option.getD_some]
    omega

theorem indicate_bounded {s : Sched} {rnti : Nat} {f : SchedUe → SchedUe}
    (hf : ∀ u, (f u).lch.length = u.lch.length)
    (h : ∀ (r : Nat) (u : SchedUe), s.ueDb[r]? = some u → u.lch.length ≤ maxLc) :
    ∀ (r : Nat) (u : SchedUe), (s.indicate rnti f).1.ueDb[r]? = some u →
      u.lch.length ≤ maxLc := by
  intro r u hu
  unfold Sched.indicate at hu
  cases hv : s.ueDb[rnti]? with
  | none =>
    rw [hv] at hu
    exact h r u hu
  | some v =>
    rw [hv] at hu
    simp only [StdMap.getElem?_insert] at hu
    split_ifs at hu with heq
    · rw [← Option.some.inj hu, hf]
      exact h rnti v hv
    · exact h r u hu

theorem Bounded.step (h : st.Bounded) (e : BsrEvent) : (st.step lib e).Bounded := by
  cases e with
  | config rnti => exact h
  | setLcg lcid lcg => exact h
  | ueCfg args locations rnti cfg bearers =>
    intro r u hu
    simp only [BsrState.step, Sched.ueCfg, StdMap.getElem?_update] at hu
    split_ifs at hu
    · rw [← Option.some.inj hu]
      simp [SchedUe.setFixedMcs, SchedUe.setMaxMcs, SchedUe.setCfg]
    · exact h r u hu
  | bearerUeCfg lcid lcg direction =>
    exact indicate_bounded (fun u => by simp [SchedUe.setBearerCfg]) h
  | bearerUeRem lcid => exact indicate_bounded (fun u => by simp [SchedUe.remBearer]) h

/-- A user that is not configured yet, and a scheduler without users. -/
def init (sched : Sched) : BsrState := { sched := { sched with ueDb := ∅ } }

/-- **Buffer status.** After any configuration of the user and its bearers, the UL bearers of a
reported group add up to what was reported for it if and only if the group has one of them, or the
size is 0. -/
theorem counted_once_iff (sched : Sched) (es : List BsrEvent) (ueExists : Nat → Bool)
    (ce : SchSubh) :
    (exec (step lib) (init sched) es).CountedOnce ueExists ce ↔
      (exec (step lib) (init sched) es).OneBearer ce := by
  have hstates : AllStates (step lib) Bounded (init sched) es :=
    allStates_of_allSteps (fun st e h _ => h.step lib e) (fun r u hu => by simp [init] at hu)
      (AllSteps.trivial _ _)
  exact countedOnce_iff ueExists ce hstates.last.width

/-- A user with a connection: SRB0 and SRB1 are in group 0, for both directions. -/
def connectionRun : List BsrEvent :=
  [.config 70, .ueCfg {} (fun _ _ _ => ⟨fun _ _ => 0, fun _ => 0⟩) 70 {}
    fun lcid => if lcid.val < 2 then .both else .idle]

theorem counted_twice_connectionRun :
    ¬ (exec (step exampleLib) (init Sched.exampleSched) connectionRun).CountedOnce (fun _ => true)
      (.shortBsr (some 0) 100) := by
  intro h
  have hsum := h (0, 100) (by decide) (by decide +kernel)
  exact absurd hsum (by decide +kernel)

end BsrState

end Srsenb.Mac
