import Srsenb.Base.Run
import Srsenb.Mac.Cce
import Srsenb.Mac.MacState
import Srsenb.Mac.RarGrants

/-! # The resources of Msg3

A response grants a Msg3 six TTIs later, and `pending_msg3` keeps it in a ring of ten slots until
the `ul_sched` of that TTI. -/

open Srsenb.Run

namespace Srsenb.Mac

namespace Sched

variable (lib : Lib) (s : Sched) (tti : Nat)

/-! ## `ul_sched` -/

/-- Whether `ul_sched` finds the user of the Msg3 of its TTI. -/
def FindsMsg3 : Prop :=
  (s.pendingMsg3 (tti % 10)).enabled = true ∧
    s.ueDb[(s.pendingMsg3 (tti % 10)).rnti]?.isSome = true

instance : Decidable (s.FindsMsg3 tti) := inferInstanceAs (Decidable (_ ∧ _))

/-- The slots once the Msg3 of a TTI is scheduled. -/
def msg3Done : Nat → PendingMsg3 :=
  Function.update s.pendingMsg3 (tti % 10) { s.pendingMsg3 (tti % 10) with enabled := false }

/-- The loop over the users takes the Msg3 if its user is there. -/
theorem pusch_msg3 (out : Elems UlSchedData) :
    let st := (s.ueDb.visit (puschUser lib tti) s.ueDb.keys (s, out)).1.1
    st.pendingMsg3 = (if s.FindsMsg3 tti then s.msg3Done tti else s.pendingMsg3) ∧
      st.cfg = s.cfg ∧ st.configured = s.configured := by
  intro st
  have h := StdMap.visit_inv (f := puschUser lib tti)
    (fun done st db => (∀ k : Nat, db[k]?.isSome = s.ueDb[k]?.isSome) ∧
      st.1.pendingMsg3 = (if s.FindsMsg3 tti ∧ (s.pendingMsg3 (tti % 10)).rnti ∈ done then
        s.msg3Done tti else s.pendingMsg3) ∧
      st.1.cfg = s.cfg ∧ st.1.configured = s.configured)
    ?_ ?_ s.ueDb.keys [] (s, out) s.ueDb (StdMap.nodup_keys s.ueDb) (by simp)
    ⟨fun _ => rfl, by simp, rfl, rfl⟩
  · obtain ⟨-, hmsg3, hcfg, hconf⟩ := h
    refine ⟨hmsg3.trans ?_, hcfg, hconf⟩
    by_cases hf : s.FindsMsg3 tti
    · have hmem : (s.pendingMsg3 (tti % 10)).rnti ∈ s.ueDb.keys := StdMap.mem_keys.mpr hf.2
      simp [hf, hmem]
    · simp [hf]
  · rintro done ⟨s1, out1⟩ db k u ⟨hkeys, hmsg3, hcfg, hconf⟩ hk hu
    obtain ⟨⟨t, n, hplaces, -⟩, -⟩ := puschUser_spec lib s1 out1 tti k u
    rw [hplaces]
    refine ⟨fun l => ?_, ?_, hcfg, hconf⟩
    · rw [StdMap.getElem?_insert, ← hkeys l]
      split_ifs with hkl
      · rw [← hkl, hu]
        rfl
      · rfl
    simp only at hmsg3 ⊢
    by_cases hdone : s.FindsMsg3 tti ∧ (s.pendingMsg3 (tti % 10)).rnti ∈ done
    · rw [if_pos hdone] at hmsg3
      have hno : ¬ HasMsg3 (s1.pendingMsg3 (tti % 10)) k := by
        rw [hmsg3]
        simp [HasMsg3, msg3Done]
      rw [if_neg hno, if_pos ⟨hdone.1, List.mem_cons_of_mem k hdone.2⟩, hmsg3]
    · rw [if_neg hdone] at hmsg3
      rw [hmsg3]
      by_cases hm : HasMsg3 (s.pendingMsg3 (tti % 10)) k
      · have hthere : s.ueDb[(s.pendingMsg3 (tti % 10)).rnti]?.isSome = true := by
          rw [hm.2, ← hkeys k, hu]
          rfl
        rw [if_pos hm, if_pos ⟨⟨hm.1, hthere⟩, hm.2 ▸ List.mem_cons_self⟩]
        rfl
      · have hno : ¬ (s.FindsMsg3 tti ∧ (s.pendingMsg3 (tti % 10)).rnti ∈ k :: done) := by
          rintro ⟨hf, hmem⟩
          rcases List.mem_cons.mp hmem with heq | hmem
          · exact hm ⟨hf.1, heq⟩
          · exact hdone ⟨hf, hmem⟩
        rw [if_neg hm, if_neg hno]
  · rintro done ⟨s1, out1⟩ db k ⟨hkeys, hmsg3, hcfg, hconf⟩ hk
    refine ⟨hkeys, hmsg3.trans ?_, hcfg, hconf⟩
    have hiff : (s.FindsMsg3 tti ∧ (s.pendingMsg3 (tti % 10)).rnti ∈ done) ↔
        (s.FindsMsg3 tti ∧ (s.pendingMsg3 (tti % 10)).rnti ∈ k :: done) := by
      refine and_congr_right fun hf => ⟨List.mem_cons_of_mem k, fun hmem => ?_⟩
      rcases List.mem_cons.mp hmem with heq | hmem
      · have := hf.2
        rw [heq, ← hkeys k, hk] at this
        cases this
      · exact hmem
    simp only [hiff]

/-- `ul_sched` takes the Msg3 of its TTI if it runs and the user is there; nothing else changes
the slots. -/
theorem ulSched_msg3 :
    (s.ulSched lib tti).1.pendingMsg3 =
        (if s.ulRuns = true ∧ s.FindsMsg3 tti then s.msg3Done tti else s.pendingMsg3) ∧
      (s.ulSched lib tti).1.cfg = s.cfg ∧ (s.ulSched lib tti).1.configured = s.configured := by
  by_cases hs : s.ulRuns = true
  · have hruns := hs
    unfold ulRuns at hruns
    simp only [Bool.and_eq_true, Bool.not_eq_true', Bool.and_eq_false_iff,
      decide_eq_false_iff_not] at hruns
    obtain ⟨⟨phich, db⟩, hphich⟩ : ∃ r, (s.ulStart tti).ueDb.visit (phichUser tti)
        (s.ulStart tti).ueDb.keys [] = r := ⟨_, rfl⟩
    have hdb : ∀ k : Nat, db[k]?.isSome = s.ueDb[k]?.isSome := by
      intro k
      have := StdMap.visit_isSome (f := phichUser tti) (s.ulStart tti).ueDb.keys []
        (s.ulStart tti).ueDb k
      rwa [hphich] at this
    obtain ⟨m, db1, hm⟩ := ulAllocate_frame lib { s.ulStart tti with ueDb := db } tti
    have hdb1 : ∀ k : Nat, db1[k]?.isSome = s.ueDb[k]?.isSome := by
      intro k
      have := ulAllocate_isSome lib { s.ulStart tti with ueDb := db } tti k
      rw [hm] at this
      exact this.trans (hdb k)
    have hpusch := pusch_msg3 lib { s.ulStart tti with ulMetric := m, ueDb := db1 } tti
      ⟨[], default⟩
    have hfinds : FindsMsg3 { s.ulStart tti with ulMetric := m, ueDb := db1 } tti ↔
        s.FindsMsg3 tti := by
      unfold FindsMsg3
      simp only [hdb1]
      rfl
    unfold ulSched
    rw [if_neg (by simp [hruns.1]), if_neg (by tauto)]
    simp only [hphich, hm, hs, true_and]
    rw [hpusch.1]
    refine ⟨?_, hpusch.2⟩
    simp only [hfinds]
    rfl
  · have hruns := hs
    unfold ulRuns at hruns
    simp only [Bool.and_eq_true, Bool.not_eq_true', Bool.and_eq_false_iff,
      decide_eq_false_iff_not] at hruns
    rw [if_neg (fun h => hs h.1)]
    unfold ulSched
    split_ifs with h1 h2
    · exact ⟨rfl, rfl, rfl⟩
    · exact ⟨rfl, rfl, rfl⟩
    · exact absurd ⟨by simpa using h1, by tauto⟩ hruns

end Sched

/-! ## Runs over TTIs -/

/-- A grant of a response: the TTI of its Msg3, the user whose entry was answered, and the RIV. -/
structure Msg3Grant where
  tti : Nat
  rnti : Option Nat
  rba : Nat

/-- The scheduler, the TTI whose turn it is with its `dl_sched` done or not, and the grants whose
`ul_sched` is still to come. -/
structure Msg3Run where
  sched : Sched
  tti : Nat
  dlDone : Bool := false
  owed : List Msg3Grant := []

/-- A preamble is detected, the users change, or the next of the calls is made: `dl_sched`, with
the paging payload when one is due, and `ul_sched` in turn. -/
inductive Msg3Event where
  | rach (tti raId rnti estimatedSize : Nat)
  | users (ueDb : StdMap SchedUe)
  | call (paging : Option Nat)

namespace Msg3Run

variable (lib : Lib)

/-- The grants of a response. Only the first is filled in, and the others answer no entry. -/
def grantsOf (tti : Nat) (a : RarAnswer) (first : RarGrant) (nofGrants : Nat) : List Msg3Grant :=
  (List.range nofGrants).map fun k =>
    if k = 0 then ⟨tti, some a.rar.rnti, first.rba⟩ else ⟨tti, none, ({} : RarGrant).rba⟩

/-- The TTI of a Msg3 that is granted now. -/
def msg3Tti (st : Msg3Run) : Nat := (st.tti + msg3DelayMs + harqDelayMs) % 10240

/-- The TTI of this TTI's `ul_sched`. -/
def ulTti (st : Msg3Run) : Nat := (st.tti + harqDelayMs) % 10240

def answers (st : Msg3Run) (paging : Option Nat) : List RarAnswer :=
  if st.sched.configured then (st.sched.rarStart lib st.tti paging).rarAnswers lib else []

def dlCall (st : Msg3Run) (paging : Option Nat) : Msg3Run :=
  let (sched, res) := st.sched.dlSched lib st.tti paging
  { st with
    sched := sched, dlDone := true
    owed := st.owed ++ (List.zipWith (fun a rar => grantsOf st.msg3Tti a rar.grant rar.nofGrants)
      (st.answers lib paging) res.rar).flatten }

def ulCall (st : Msg3Run) : Msg3Run :=
  { sched := (st.sched.ulSched lib st.ulTti).1, tti := (st.tti + 1) % 10240, dlDone := false
    owed := st.owed.filter fun g => g.tti ≠ st.ulTti }

def step (st : Msg3Run) : Msg3Event → Msg3Run
  | .rach tti raId rnti size => { st with sched := (st.sched.dlRachInfo tti raId rnti size).1 }
  | .users db => { st with sched := { st.sched with ueDb := db } }
  | .call paging => if st.dlDone then st.ulCall lib else st.dlCall lib paging

/-- A scheduler without a Msg3 to come. -/
def init (sched : Sched) (tti : Nat) : Msg3Run :=
  { sched := { sched with pendingMsg3 := fun _ => {} }, tti := tti }

/-- Each grant whose `ul_sched` is to come has its slot, with its user and the PRBs of its RIV and
for itself, and no other slot is enabled. -/
structure Owned (st : Msg3Run) : Prop where
  held : ∀ g ∈ st.owed,
    (st.sched.pendingMsg3 (g.tti % 10)).enabled = true ∧
      g.rnti = some (st.sched.pendingMsg3 (g.tti % 10)).rnti ∧
      g.rba = lib.raType2ToRiv (st.sched.pendingMsg3 (g.tti % 10)).L
        (st.sched.pendingMsg3 (g.tti % 10)).nPrb st.sched.cfg.cell.nofPrb
  alone : st.owed.Pairwise fun g g' => g.tti ≠ g'.tti
  used : ∀ i < 10, (st.sched.pendingMsg3 i).enabled = true → ∃ g ∈ st.owed, g.tti % 10 = i

/-- At most one entry is answered in a TTI, and it is the only one with its TTI. When `ul_sched`
comes to a Msg3 it runs and finds the user. -/
def Allowed (st : Msg3Run) : Msg3Event → Prop
  | .call paging =>
    if st.dlDone then
      (st.sched.pendingMsg3 (st.ulTti % 10)).enabled = true →
        st.sched.ulRuns = true ∧ st.sched.FindsMsg3 st.ulTti
    else
      (st.answers lib paging).length ≤ 1 ∧ ∀ a ∈ st.answers lib paging, a.nofSame = 1
  | _ => True

/-- What the grants are due for, by the calls of this TTI made so far. -/
structure Due (st : Msg3Run) : Prop where
  configured : st.owed ≠ [] → st.sched.configured = true
  window : ∀ g ∈ st.owed, ∃ d, 4 ≤ d ∧ d ≤ (if st.dlDone then 6 else 5) ∧
    g.tti = (st.tti + d) % 10240

/-! ## One call -/

variable {lib} {st : Msg3Run}

theorem dlCall_owed (lib : Lib) (st : Msg3Run) (paging : Option Nat) :
    (st.dlCall lib paging).owed = st.owed ++ ((st.answers lib paging).map fun a =>
      grantsOf st.msg3Tti a (st.sched.rarGrantOf lib a) a.nofSame).flatten := by
  unfold dlCall answers
  simp only
  by_cases hs : st.sched.configured = true
  · obtain ⟨hemits, -⟩ := Sched.dlSched_spec lib st.sched st.tti paging hs
    rw [if_pos hs]
    have hzip : List.zipWith (fun a r => grantsOf st.msg3Tti a r.1 r.2)
          ((st.sched.rarStart lib st.tti paging).rarAnswers lib)
          ((st.sched.dlSched lib st.tti paging).2.rar.map fun rar => (rar.grant, rar.nofGrants)) =
        List.zipWith (fun a rar => grantsOf st.msg3Tti a rar.grant rar.nofGrants)
          ((st.sched.rarStart lib st.tti paging).rarAnswers lib)
          (st.sched.dlSched lib st.tti paging).2.rar := List.zipWith_map_right
    rw [hemits, List.zipWith_map_right, List.zipWith_self] at hzip
    rw [← hzip]
  · rw [if_neg hs]
    rfl

theorem dlCall_sched (lib : Lib) (st : Msg3Run) (paging : Option Nat) :
    (st.dlCall lib paging).sched.pendingMsg3 = (st.answers lib paging).foldl
        (fun m a => Function.update m (st.msg3Tti % 10) a.msg3) st.sched.pendingMsg3 ∧
      (st.dlCall lib paging).sched.cfg = st.sched.cfg ∧
      (st.dlCall lib paging).sched.configured = st.sched.configured := by
  have hslot : st.msg3Tti % 10 = (st.tti + msg3DelayMs + harqDelayMs) % 10 := by
    unfold msg3Tti
    omega
  unfold dlCall answers
  rw [hslot]
  by_cases hs : st.sched.configured = true
  · obtain ⟨-, hmsg3, hcfg, hconf⟩ := Sched.dlSched_spec lib st.sched st.tti paging hs
    rw [if_pos hs]
    exact ⟨hmsg3, hcfg, hconf⟩
  · unfold Sched.dlSched
    rw [if_pos (by simpa using hs), if_neg hs]
    exact ⟨rfl, rfl, rfl⟩

theorem answers_pos (lib : Lib) (st : Msg3Run) (paging : Option Nat) :
    ∀ a ∈ st.answers lib paging, 0 < a.nofSame := by
  unfold answers
  split_ifs
  · exact Sched.rarAnswers_pos lib _
  · simp

theorem mem_grantsOf {tti n : Nat} {a : RarAnswer} {first : RarGrant} {g : Msg3Grant}
    (hg : g ∈ grantsOf tti a first n) : g.tti = tti := by
  unfold grantsOf at hg
  obtain ⟨k, -, rfl⟩ := List.mem_map.mp hg
  split_ifs <;> rfl

/-- What a call that answers nothing, or one entry alone, adds to the grants that are due. -/
theorem dlCall_allowed {paging : Option Nat} (hlen : (st.answers lib paging).length ≤ 1)
    (hone : ∀ a ∈ st.answers lib paging, a.nofSame = 1) :
    ((st.dlCall lib paging).owed = st.owed ∧
        (st.dlCall lib paging).sched.pendingMsg3 = st.sched.pendingMsg3) ∨
      ∃ a : RarAnswer,
        (st.dlCall lib paging).owed = st.owed ++ [⟨st.msg3Tti, some a.rar.rnti,
          lib.raType2ToRiv 3 2 st.sched.cfg.cell.nofPrb⟩] ∧
        (st.dlCall lib paging).sched.pendingMsg3 =
          Function.update st.sched.pendingMsg3 (st.msg3Tti % 10) a.msg3 ∧
        st.sched.configured = true := by
  have howed := dlCall_owed lib st paging
  obtain ⟨hmsg3, -⟩ := dlCall_sched lib st paging
  match hans : st.answers lib paging with
  | [] =>
    rw [hans] at howed hmsg3
    exact Or.inl ⟨by simpa using howed, hmsg3⟩
  | [a] =>
    have hconf : st.sched.configured = true := by
      unfold answers at hans
      split_ifs at hans with hs
      exact hs
    rw [hans] at howed hmsg3 hone
    refine Or.inr ⟨a, ?_, hmsg3, hconf⟩
    rw [howed, List.map_singleton, hone a List.mem_cons_self]
    rfl
  | a :: b :: l =>
    rw [hans] at hlen
    simp at hlen

theorem dlCall_not_alone {paging : Option Nat}
    (h : (st.dlCall lib paging).owed.Pairwise fun g g' => g.tti ≠ g'.tti) :
    (st.answers lib paging).length ≤ 1 ∧ ∀ a ∈ st.answers lib paging, a.nofSame = 1 := by
  rw [dlCall_owed] at h
  have hpos := answers_pos lib st paging
  have hnew := (List.pairwise_append.mp h).2.1
  obtain ⟨new, hdef⟩ : ∃ new, ((st.answers lib paging).map fun a =>
      grantsOf st.msg3Tti a (st.sched.rarGrantOf lib a) a.nofSame).flatten = new := ⟨_, rfl⟩
  rw [hdef] at hnew
  have hsame : ∀ g ∈ new, g.tti = st.msg3Tti := by
    intro g hg
    rw [← hdef] at hg
    obtain ⟨l, hl, hg⟩ := List.mem_flatten.mp hg
    obtain ⟨a, -, rfl⟩ := List.mem_map.mp hl
    exact mem_grantsOf hg
  have hone : new.length ≤ 1 := by
    match new, hsame, hnew with
    | [], _, _ => exact Nat.zero_le 1
    | [g], _, _ => exact Nat.le_refl 1
    | g :: g' :: l, hsame, hnew =>
      refine absurd ?_ ((List.pairwise_cons.mp hnew).1 g' List.mem_cons_self)
      rw [hsame g List.mem_cons_self, hsame g' (by simp)]
  rw [← hdef] at hone
  match hans : st.answers lib paging with
  | [] => exact ⟨Nat.zero_le 1, by simp⟩
  | [a] =>
    rw [hans] at hone hpos
    have := hpos a List.mem_cons_self
    simp only [grantsOf, List.map_cons, List.map_nil, List.flatten_cons, List.flatten_nil,
      List.append_nil, List.length_map, List.length_range] at hone
    refine ⟨Nat.le_refl 1, fun b hb => ?_⟩
    rw [List.mem_singleton.mp hb]
    omega
  | a :: b :: l =>
    rw [hans] at hone hpos
    have ha := hpos a List.mem_cons_self
    have hb := hpos b (by simp)
    simp only [grantsOf, List.map_cons, List.flatten_cons, List.length_append, List.length_map,
      List.length_range] at hone
    omega

/-! ## The invariant -/

theorem due_dlCall (hd : st.dlDone = false) (h : Due st) {paging : Option Nat}
    (hlen : (st.answers lib paging).length ≤ 1)
    (hone : ∀ a ∈ st.answers lib paging, a.nofSame = 1) : Due (st.dlCall lib paging) := by
  have hold : ∀ g ∈ st.owed, ∃ d, 4 ≤ d ∧ d ≤ 6 ∧ g.tti = (st.tti + d) % 10240 := by
    intro g hg
    obtain ⟨d, h4, h5, htti⟩ := h.window g hg
    rw [hd] at h5
    exact ⟨d, h4, Nat.le_succ_of_le h5, htti⟩
  obtain ⟨-, -, hconf⟩ := dlCall_sched lib st paging
  rcases dlCall_allowed hlen hone with ⟨howed, -⟩ | ⟨a, howed, -, hs⟩
  · constructor
    · rw [howed, hconf]
      exact h.configured
    · rw [howed]
      exact hold
  · constructor
    · exact fun _ => hconf.trans hs
    · rw [howed]
      intro g hg
      rcases List.mem_append.mp hg with hg | hg
      · exact hold g hg
      · rw [List.mem_singleton.mp hg]
        exact ⟨6, by decide, Nat.le_refl 6, rfl⟩

theorem owned_dlCall (hd : st.dlDone = false) (hdue : Due st) (h : Owned lib st)
    {paging : Option Nat} (hlen : (st.answers lib paging).length ≤ 1)
    (hone : ∀ a ∈ st.answers lib paging, a.nofSame = 1) :
    Owned lib (st.dlCall lib paging) := by
  -- What is due is due before this Msg3, in another slot.
  have hother : ∀ g ∈ st.owed, g.tti ≠ st.msg3Tti ∧ g.tti % 10 ≠ st.msg3Tti % 10 := by
    intro g hg
    obtain ⟨d, h4, h5, htti⟩ := hdue.window g hg
    rw [hd] at h5
    simp only [Bool.false_eq_true, if_false] at h5
    unfold msg3Tti msg3DelayMs harqDelayMs
    omega
  obtain ⟨-, hcfg, -⟩ := dlCall_sched lib st paging
  rcases dlCall_allowed hlen hone with ⟨howed, hmsg3⟩ | ⟨a, howed, hmsg3, hs⟩
  · constructor
    · rw [howed, hmsg3, hcfg]
      exact h.held
    · rw [howed]
      exact h.alone
    · rw [howed, hmsg3]
      exact h.used
  · constructor
    · rw [howed, hmsg3, hcfg]
      intro g hg
      rcases List.mem_append.mp hg with hg | hg
      · rw [Function.update_of_ne (hother g hg).2]
        exact h.held g hg
      · rw [List.mem_singleton.mp hg, Function.update_self]
        exact ⟨rfl, rfl, rfl⟩
    · rw [howed, List.pairwise_append]
      refine ⟨h.alone, List.pairwise_singleton _ _, fun g hg g' hg' => ?_⟩
      rw [List.mem_singleton.mp hg']
      exact (hother g hg).1
    · rw [howed, hmsg3]
      intro i hi hen
      by_cases hslot : i = st.msg3Tti % 10
      · exact ⟨_, List.mem_append_right _ (List.mem_singleton_self _), hslot.symm⟩
      · rw [Function.update_of_ne hslot] at hen
        obtain ⟨g, hg, hgi⟩ := h.used i hi hen
        exact ⟨g, List.mem_append_left _ hg, hgi⟩

theorem other_slot (hdue : Due st) {g : Msg3Grant} (hg : g ∈ st.owed) (hne : g.tti ≠ st.ulTti) :
    g.tti % 10 ≠ st.ulTti % 10 ∧ ∃ d, 5 ≤ d ∧ d ≤ 6 ∧ g.tti = (st.tti + d) % 10240 := by
  obtain ⟨d, h4, h6, htti⟩ := hdue.window g hg
  have h6' : d ≤ 6 := by
    split_ifs at h6
    · exact h6
    · omega
  have hd : d ≠ 4 := by
    rintro rfl
    exact hne htti
  unfold ulTti harqDelayMs
  exact ⟨by omega, d, by omega, h6', htti⟩

theorem due_ulCall (hdue : Due st) : Due (st.ulCall lib) := by
  obtain ⟨-, -, hconf⟩ := Sched.ulSched_msg3 lib st.sched st.ulTti
  constructor
  · intro hne
    refine hconf.trans (hdue.configured fun hnil => hne ?_)
    unfold ulCall
    rw [hnil]
    rfl
  · intro g hg
    obtain ⟨hg, hne⟩ := List.mem_filter.mp hg
    obtain ⟨-, d, h5, h6, htti⟩ := other_slot hdue hg (by simpa using hne)
    refine ⟨d - 1, by omega, ?_, ?_⟩
    · unfold ulCall
      simp only [Bool.false_eq_true, if_false]
      omega
    · unfold ulCall
      simp only
      omega

theorem owned_ulCall (hdue : Due st) (h : Owned lib st)
    (hok : (st.sched.pendingMsg3 (st.ulTti % 10)).enabled = true →
      st.sched.ulRuns = true ∧ st.sched.FindsMsg3 st.ulTti) : Owned lib (st.ulCall lib) := by
  obtain ⟨hmsg3, hcfg, -⟩ := Sched.ulSched_msg3 lib st.sched st.ulTti
  have hrest : ∀ i, i ≠ st.ulTti % 10 →
      (st.ulCall lib).sched.pendingMsg3 i = st.sched.pendingMsg3 i := by
    intro i hi
    refine (congrFun hmsg3 i).trans ?_
    split_ifs
    · exact Function.update_of_ne hi _ _
    · rfl
  have hdone : ((st.ulCall lib).sched.pendingMsg3 (st.ulTti % 10)).enabled = false := by
    refine (congrArg PendingMsg3.enabled (congrFun hmsg3 _)).trans ?_
    split_ifs with hf
    · simp [Sched.msg3Done]
    · cases hen : (st.sched.pendingMsg3 (st.ulTti % 10)).enabled with
      | false => rfl
      | true => exact absurd (hok hen) hf
  constructor
  · intro g hg
    obtain ⟨hg, hne⟩ := List.mem_filter.mp hg
    rw [hrest _ (other_slot hdue hg (by simpa using hne)).1]
    refine (h.held g hg).imp_right fun hg => ⟨hg.1, ?_⟩
    exact hg.2.trans (by rw [← hcfg]; rfl)
  · exact h.alone.filter _
  · intro i hi hen
    have hslot : i ≠ st.ulTti % 10 := by
      rintro rfl
      rw [hdone] at hen
      cases hen
    rw [hrest i hslot] at hen
    obtain ⟨g, hg, hgi⟩ := h.used i hi hen
    refine ⟨g, List.mem_filter.mpr ⟨hg, ?_⟩, hgi⟩
    simp only [ne_eq, decide_not, Bool.not_eq_true', decide_eq_false_iff_not]
    rintro heq
    exact hslot (heq ▸ hgi.symm)

theorem not_owned_ulCall (hdue : Due st)
    (hen : (st.sched.pendingMsg3 (st.ulTti % 10)).enabled = true)
    (hno : ¬ (st.sched.ulRuns = true ∧ st.sched.FindsMsg3 st.ulTti)) :
    ¬ Owned lib (st.ulCall lib) := by
  intro h
  obtain ⟨hmsg3, -⟩ := Sched.ulSched_msg3 lib st.sched st.ulTti
  rw [if_neg hno] at hmsg3
  obtain ⟨g, hg, hgi⟩ := h.used (st.ulTti % 10) (by omega)
    ((congrArg PendingMsg3.enabled (congrFun hmsg3 _)).trans hen)
  obtain ⟨hg, hne⟩ := List.mem_filter.mp hg
  exact (other_slot hdue hg (by simpa using hne)).1 hgi

theorem due_owned_of_same {st' : Msg3Run} (hdue : Due st) (h : Owned lib st)
    (htti : st'.tti = st.tti) (hd : st'.dlDone = st.dlDone) (howed : st'.owed = st.owed)
    (hmsg3 : st'.sched.pendingMsg3 = st.sched.pendingMsg3)
    (hcfg : st'.sched.cfg = st.sched.cfg) (hconf : st'.sched.configured = st.sched.configured) :
    Owned lib st' ∧ Due st' := by
  refine ⟨⟨?_, ?_, ?_⟩, ?_, ?_⟩
  · rw [howed, hmsg3, hcfg]
    exact h.held
  · rw [howed]
    exact h.alone
  · rw [howed, hmsg3]
    exact h.used
  · rw [howed, hconf]
    exact hdue.configured
  · rw [howed, htti, hd]
    exact hdue.window

theorem owned_step {lib : Lib} {st : Msg3Run} {e : Msg3Event} (hdue : Due st) (hI : Owned lib st)
    (hC : Allowed lib st e) : Owned lib (step lib st e) ∧ Due (step lib st e) := by
  cases e with
  | rach t raId rnti size =>
    have hrach : ∃ rars, (st.sched.dlRachInfo t raId rnti size).1 =
        { st.sched with pendingRar := rars } := by
      unfold Sched.dlRachInfo
      split <;> exact ⟨_, rfl⟩
    obtain ⟨rars, hrach⟩ := hrach
    simp only [step, hrach]
    exact due_owned_of_same hdue hI rfl rfl rfl rfl rfl rfl
  | users db => exact due_owned_of_same hdue hI rfl rfl rfl rfl rfl rfl
  | call paging =>
    unfold Allowed at hC
    unfold step
    cases hd : st.dlDone with
    | true =>
      rw [hd] at hC
      exact ⟨owned_ulCall hdue hI hC, due_ulCall hdue⟩
    | false =>
      rw [hd] at hC
      exact ⟨owned_dlCall hd hdue hI hC.1 hC.2, due_dlCall hd hdue hC.1 hC.2⟩

theorem not_owned_step {lib : Lib} {st : Msg3Run} {e : Msg3Event} (hdue : Due st)
    (hC : ¬ Allowed lib st e) : ¬ Owned lib (step lib st e) := by
  cases e with
  | rach t raId rnti size => exact absurd trivial hC
  | users db => exact absurd trivial hC
  | call paging =>
    unfold Allowed at hC
    unfold step
    cases hd : st.dlDone with
    | true =>
      rw [hd] at hC
      simp only [if_true] at hC ⊢
      push Not at hC
      exact not_owned_ulCall hdue hC.1 fun h => hC.2 h.1 h.2
    | false =>
      rw [hd] at hC
      exact fun h => hC (dlCall_not_alone h.alone)

/-- **When every grant of a response owns its Msg3.** Along a run each grant has its slot to itself
until the `ul_sched` of its TTI, and no slot is used later, if and only if each step is allowed. -/
theorem msg3_owned_iff (lib : Lib) (sched : Sched) (tti : Nat) (es : List Msg3Event) :
    AllStates (step lib) (Owned lib) (init sched tti) es ↔
      AllSteps (step lib) (Allowed lib) (init sched tti) es := by
  have h : AllSteps (step lib) (Allowed lib) (init sched tti) es ↔
      AllSteps (step lib) (fun _ _ => True) (init sched tti) es ∧
        AllStates (step lib) (Owned lib) (init sched tti) es :=
    allSteps_iff (fun _ => Due) (fun _ _ _ hdue hI hC => ⟨trivial, owned_step hdue hI hC⟩)
      (fun _ _ _ hdue _ hC _ => not_owned_step hdue hC)
      ⟨fun h => absurd rfl h, by simp [init]⟩ ⟨by simp [init], List.Pairwise.nil, by simp [init]⟩
  rw [h]
  exact ⟨fun h => ⟨AllSteps.trivial _ _, h⟩, fun h => h.2⟩

/-! ## Two preambles of one TTI -/

/-- UEs 70 and 71 send their preambles in TTI 1, and both are answered in TTI 4. -/
def twoPreambles : List Msg3Event := [.rach 1 0 70 7, .rach 1 1 71 7, .call none]

def twoPreamblesInit : Msg3Run := init Sched.exampleRequests 4

/-- The slot of TTI 10 was granted to UE 70 and then given to UE 71. -/
theorem msg3_not_owned_twoPreambles :
    ¬ AllStates (step exampleLib) (Owned exampleLib) twoPreamblesInit twoPreambles := by
  intro h
  have halone := h.last.alone
  revert halone
  decide +kernel

end Msg3Run

end Srsenb.Mac
