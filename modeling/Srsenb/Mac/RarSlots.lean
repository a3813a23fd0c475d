import Srsenb.Mac.NewData
import Srsenb.Mac.RarBacked
import Srsenb.Mac.RntiReuse

/-! # The slots of pending RARs

`rach_detected` keeps a preamble in a slot of `pending_rars`, and tells the scheduler the number of
the slot. `assemble_rar` frees the slots that the grants of a response name. -/

open Srsenb.Run

namespace Srsenb.Mac

/-! ## The response -/

/-- A subheader of a RAR PDU. -/
structure RarSubh where
  rapid : Nat
  taCmd : Nat
  tempCrnti : Nat
  schedGrant : RarGrant

/-- `rar_payload_len` -/
def rarPayloadLen : Nat := 128

/-- Only the first element of `grants` is filled. -/
def DlSchedRar.grants (rar : DlSchedRar) (i : Nat) : RarGrant := if i = 0 then rar.grant else {}

/-- The round of `assemble_rar` for one grant; `newSubh` says whether a PDU of a length gets
another subheader. -/
def rarSubh (newSubh : Nat → Nat → Bool) (rar : DlSchedRar) (pduLen : Nat)
    (st : (Nat → PendingRar) × List RarSubh) (i : Nat) : (Nat → PendingRar) × List RarSubh :=
  let (pendingRars, subhs) := st
  if newSubh pduLen subhs.length then
    let idx := (rar.grants i).raId
    let p := pendingRars idx
    (Function.update pendingRars idx {},
      subhs ++ [⟨p.preambleIdx, p.taCmd, p.tempCrnti, rar.grants i⟩])
  else st

/-- `assemble_rar` -/
def assembleRar (newSubh : Nat → Nat → Bool) (pendingRars : Nat → PendingRar) (rar : DlSchedRar) :
    (Nat → PendingRar) × Option (List RarSubh) :=
  let pduLen := toU32 rar.tbs
  if pduLen < rarPayloadLen then
    let (pendingRars, subhs) :=
      (List.range rar.nofGrants).foldl (rarSubh newSubh rar pduLen) (pendingRars, [])
    (pendingRars, some subhs)
  else (pendingRars, none)

/-- The slots after the responses of a call. -/
def assembleRars (newSubh : Nat → Nat → Bool) (pendingRars : Nat → PendingRar)
    (rars : List DlSchedRar) : Nat → PendingRar :=
  rars.foldl (fun t rar => (assembleRar newSubh t rar).1) pendingRars

/-- `get_dl_sched`, with the slots. -/
def MacState.getDlSchedRar (lib : Lib) (newSubh : Nat → Nat → Bool) (m : MacState) (tti : Nat)
    (paging : Option Nat) : MacState :=
  let (sched, res) := m.sched.dlSched lib tti paging
  { m with sched := sched, pendingRars := assembleRars newSubh m.pendingRars res.rar }

/-- The call whose data grants `getDlSched` has. -/
theorem MacState.getDlSchedRar_eq (lib : Lib) (newSubh : Nat → Nat → Bool) (m : MacState)
    (tti : Nat) (paging : Option Nat) (generatePdu : Nat → GeneratePdu) :
    m.getDlSchedRar lib newSubh tti paging =
      { (m.getDlSched lib tti paging generatePdu).1 with
        pendingRars :=
          assembleRars newSubh m.pendingRars (m.sched.dlSched lib tti paging).2.rar } :=
  rfl

/-! ## Runs -/

inductive RarEvent where
  | rachDetected (tti preambleIdx timeAdv : Nat)
  | getDlSched (tti : Nat) (paging : Option Nat)

section Spec

variable (lib : Lib) (newSubh : Nat → Nat → Bool) (locations : Nat → Nat → Nat → DciCce)

def MacState.rarStep (m : MacState) : RarEvent → MacState
  | .rachDetected tti preambleIdx timeAdv =>
    (m.rachDetected lib locations tti preambleIdx timeAdv).st
  | .getDlSched tti paging => m.getDlSchedRar lib newSubh tti paging

/-- The slot is in use. -/
def MacState.SlotUsed (m : MacState) (raId : Nat) : Prop := (m.pendingRars raId).tempCrnti ≠ 0

instance (m : MacState) (raId : Nat) : Decidable (m.SlotUsed raId) :=
  inferInstanceAs (Decidable (_ ≠ _))

/-- The entry of the scheduler waits for its response. -/
def Sched.RarPending (s : Sched) (i : Nat) : Prop :=
  i < schedMaxPendingRar ∧ (s.pendingRar i).bufRar ≠ 0

instance (s : Sched) (i : Nat) : Decidable (s.RarPending i) :=
  inferInstanceAs (Decidable (_ ∧ _))

/-- The slots in use are the ones that the scheduler waits to answer. -/
def MacState.SlotsHeld (m : MacState) : Prop :=
  ∀ raId < maxPendingRars,
    m.SlotUsed raId ↔ ∃ i, m.sched.RarPending i ∧ (m.sched.pendingRar i).raId = raId

/-- An access writes no slot that is in use, and nothing at all when all are. -/
def MacState.WritesFree (m : MacState) : RarEvent → Prop
  | .rachDetected tti preambleIdx timeAdv =>
    let out := m.rachDetected lib locations tti preambleIdx timeAdv
    (∀ raId, m.SlotUsed raId → out.st.pendingRars raId = m.pendingRars raId) ∧
      ((∀ raId < maxPendingRars, m.SlotUsed raId) → out.st = m ∧ out.acts = [] ∧ out.ret = -1)
  | .getDlSched .. => True

namespace Sched

/-- The round of `dl_sched_rar` for entry `i` discards nothing. If it answers, no pending entry but
the first of its TTI has the slot that the grant names, or slot 0, which each further grant
names. -/
def FreesOwn (st : Sched × Elems DlSchedRar) (i : Nat) : Prop :=
  ¬ st.1.Discards i ∧ (st.1.Answers i → ∀ k < schedMaxPendingRar, st.1.RarPending k →
    (st.1.pendingRar k).raId = (st.1.answerOf i).rar.raId ∨
      (st.1.pendingRar k).raId = 0 ∧ 2 ≤ (st.1.answerOf i).nofSame →
    k = (st.1.sameTti (st.1.pendingRar i).rarTti).headD i)

instance (st : Sched × Elems DlSchedRar) (i : Nat) : Decidable (FreesOwn st i) :=
  inferInstanceAs (Decidable (_ ∧ (_ → ∀ k < schedMaxPendingRar, _)))

end Sched

/-- The scheduler has room for the preamble, or its rounds free the slots that they answer. -/
def MacState.RarStepOk (m : MacState) : RarEvent → Prop
  | .rachDetected .. => ∃ i < schedMaxPendingRar, (m.sched.pendingRar i).bufRar = 0
  | .getDlSched tti paging => m.sched.configured = true →
    AllSteps (Sched.rarSched lib) Sched.FreesOwn (m.sched.rarStart lib tti paging, ⟨[], default⟩)
      (List.range schedMaxPendingRar)

instance (m : MacState) : (e : RarEvent) → Decidable (m.RarStepOk lib e)
  | .rachDetected .. => inferInstanceAs (Decidable (∃ i < schedMaxPendingRar, _))
  | .getDlSched .. => inferInstanceAs (Decidable (_ → _))

end Spec

/-- The start: no slot is in use, and no response waits. -/
structure MacState.NoRars (m : MacState) : Prop where
  slots : ∀ raId, m.pendingRars raId = {}
  entries : ∀ i, m.sched.pendingRar i = {}
  lastRnti : m.lastRnti = 70

/-! ## Slots and entries -/

/-- Slots and entries that belong together. -/
structure RarsMatch (slots : Nat → PendingRar) (s : Sched) : Prop where
  held : ∀ raId < maxPendingRars, (slots raId).tempCrnti ≠ 0 ↔
    ∃ i, s.RarPending i ∧ (s.pendingRar i).raId = raId
  raId_lt : ∀ i, s.RarPending i → (s.pendingRar i).raId < maxPendingRars
  raId_inj : ∀ i j, s.RarPending i → s.RarPending j →
    (s.pendingRar i).raId = (s.pendingRar j).raId → i = j
  bufRar : ∀ i, s.RarPending i → (s.pendingRar i).bufRar = 7

section Assemble

variable {newSubh : Nat → Nat → Bool} {rar : DlSchedRar}

/-- A grant frees the slot that it names, or none. -/
theorem rarSubhs_spec (l : List Nat) (len : Nat) (st : (Nat → PendingRar) × List RarSubh)
    (x : Nat) : (l.foldl (rarSubh newSubh rar len) st).1 x = st.1 x ∨
      (l.foldl (rarSubh newSubh rar len) st).1 x = {} ∧ ∃ i ∈ l, (rar.grants i).raId = x := by
  induction l generalizing st with
  | nil => exact Or.inl rfl
  | cons i l ih =>
    rw [List.foldl_cons]
    rcases ih (rarSubh newSubh rar len st i) with hsame | ⟨hfree, j, hj, hx⟩
    · rw [hsame]
      unfold rarSubh
      simp only
      split_ifs
      · by_cases hx : x = (rar.grants i).raId
        · subst hx
          exact Or.inr ⟨Function.update_self .., i, List.mem_cons_self, rfl⟩
        · exact Or.inl (Function.update_of_ne hx ..)
      · exact Or.inl rfl
    · exact Or.inr ⟨hfree, j, List.mem_cons_of_mem _ hj, hx⟩

/-- A response frees the slot of its first grant, and with a second grant perhaps slot 0. -/
theorem assembleRar_spec (hnew : ∀ len, 7 ≤ len → newSubh len 0 = true)
    (slots : Nat → PendingRar) (htbs : rar.tbs = 7) (hn : 0 < rar.nofGrants) :
    ((assembleRar newSubh slots rar).1 rar.grant.raId).tempCrnti = 0 ∧
      ∀ x, x ≠ rar.grant.raId → (assembleRar newSubh slots rar).1 x = slots x ∨
        (assembleRar newSubh slots rar).1 x = {} ∧ x = 0 ∧ 2 ≤ rar.nofGrants := by
  obtain ⟨n, hn⟩ := Nat.exists_eq_succ_of_ne_zero hn.ne'
  have hlen : toU32 rar.tbs = 7 := by
    rw [htbs]
    rfl
  have hout : (assembleRar newSubh slots rar).1 =
      (((List.range n).map Nat.succ).foldl (rarSubh newSubh rar 7)
        (rarSubh newSubh rar 7 (slots, []) 0)).1 := by
    unfold assembleRar
    simp only [hlen]
    rw [if_pos (by decide), hn, List.range_succ_eq_map, List.foldl_cons]
  have hfirst : (rarSubh newSubh rar 7 (slots, []) 0).1 =
      Function.update slots rar.grant.raId {} := by
    unfold rarSubh
    simp only [List.length_nil, hnew 7 le_rfl, if_true]
    rfl
  have hrest := fun x => @rarSubhs_spec newSubh rar
    ((List.range n).map Nat.succ) 7 (rarSubh newSubh rar 7 (slots, []) 0) x
  simp only [← hout, hfirst] at hrest
  constructor
  · rcases hrest rar.grant.raId with h | ⟨h, -⟩
    · rw [h, Function.update_self]
    · rw [h]
  · intro x hx
    rcases hrest x with h | ⟨h, i, hi, hid⟩
    · exact Or.inl (h.trans (Function.update_of_ne hx ..))
    · obtain ⟨j, hj, rfl⟩ := List.mem_map.mp hi
      have := List.mem_range.mp hj
      exact Or.inr ⟨h, hid.symm, by omega⟩

end Assemble

/-! ## The rounds of `dl_sched_rar` -/

section Rounds

variable (lib : Lib) {newSubh : Nat → Nat → Bool} {slots : Nat → PendingRar} {s s' : Sched}
  {st : Sched × Elems DlSchedRar} {i : Nat}

theorem RarsMatch.congr (h : RarsMatch slots s) (hs : s'.pendingRar = s.pendingRar) :
    RarsMatch slots s' := by
  obtain ⟨hheld, hlt, hinj, hbuf⟩ := h
  constructor <;> simpa only [Sched.RarPending, hs]

/-- A response takes one entry and the slot that belongs to it. -/
theorem RarsMatch.answered {head nofGrants : Nat} {slots' : Nat → PendingRar} {r : SchedRar}
    (h : RarsMatch slots s)
    (hs' : s'.pendingRar = Function.update s.pendingRar head r) (hbuf : r.bufRar = 0)
    (hfreed : (slots' (s.pendingRar head).raId).tempCrnti = 0)
    (hkept : ∀ x, x ≠ (s.pendingRar head).raId →
      slots' x = slots x ∨ slots' x = {} ∧ x = 0 ∧ 2 ≤ nofGrants)
    (hown : ∀ k, s.RarPending k → (s.pendingRar k).raId = (s.pendingRar head).raId ∨
      (s.pendingRar k).raId = 0 ∧ 2 ≤ nofGrants → k = head) :
    RarsMatch slots' s' := by
  have hpend : ∀ k, s'.RarPending k ↔ s.RarPending k ∧ k ≠ head := by
    intro k
    unfold Sched.RarPending
    rw [hs']
    by_cases hk : k = head
    · simp [hk, hbuf]
    · simp [hk]
  have hsame : ∀ k, s'.RarPending k → s'.pendingRar k = s.pendingRar k := by
    intro k hk
    rw [hs', Function.update_of_ne ((hpend k).mp hk).2]
  have hiff : ∀ x, (∃ k, s'.RarPending k ∧ (s'.pendingRar k).raId = x) ↔
      ∃ k, (s.RarPending k ∧ k ≠ head) ∧ (s.pendingRar k).raId = x := by
    intro x
    refine exists_congr fun k => ?_
    rw [← hpend]
    exact and_congr_right fun hk => by rw [hsame k hk]
  refine ⟨fun x hx => ?_, fun k hk => ?_, fun j k hj hk heq => ?_, fun k hk => ?_⟩
  · rw [hiff]
    by_cases hxr : x = (s.pendingRar head).raId
    · rw [hxr]
      refine iff_of_false (fun hne => hne hfreed) ?_
      rintro ⟨k, ⟨hk, hne⟩, hid⟩
      exact hne (hown k hk (Or.inl hid))
    · rcases hkept x hxr with heq | ⟨hfree, rfl, htwo⟩
      · rw [heq, h.held x hx]
        refine exists_congr fun k => and_congr_left fun hid => ?_
        refine ⟨fun hk => ⟨hk, ?_⟩, fun hk => hk.1⟩
        rintro rfl
        exact hxr hid.symm
      · refine iff_of_false (by simp [hfree]) ?_
        rintro ⟨k, ⟨hk, hne⟩, hid⟩
        exact hne (hown k hk (Or.inr ⟨hid, htwo⟩))
  · rw [hsame k hk]
    exact h.raId_lt k ((hpend k).mp hk).1
  · rw [hsame j hj, hsame k hk] at heq
    exact h.raId_inj j k ((hpend j).mp hj).1 ((hpend k).mp hk).1 heq
  · rw [hsame k hk]
    exact h.bufRar k ((hpend k).mp hk).1

/-- A free slot and a free entry are taken together. -/
theorem RarsMatch.detected {slots' : Nat → PendingRar} {i raId : Nat} {r : SchedRar}
    {p : PendingRar} (h : RarsMatch slots s) (hlt : raId < maxPendingRars)
    (hfree : (slots raId).tempCrnti = 0) (hi : i < schedMaxPendingRar)
    (hempty : (s.pendingRar i).bufRar = 0) (hs' : s'.pendingRar = Function.update s.pendingRar i r)
    (hid : r.raId = raId) (hbuf : r.bufRar = 7) (hslots' : slots' = Function.update slots raId p)
    (hcrnti : p.tempCrnti ≠ 0) : RarsMatch slots' s' := by
  have hpend : ∀ k, s'.RarPending k ↔ k = i ∨ s.RarPending k := by
    intro k
    unfold Sched.RarPending
    rw [hs']
    by_cases hk : k = i
    · simp [hk, hi, hbuf]
    · simp [hk]
  have hnew : s'.pendingRar i = r := by rw [hs', Function.update_self]
  have hold : ∀ k, s.RarPending k → s'.pendingRar k = s.pendingRar k := by
    intro k hk
    rw [hs', Function.update_of_ne]
    rintro rfl
    exact hk.2 hempty
  have hother : ∀ k, s.RarPending k → (s.pendingRar k).raId ≠ raId := by
    intro k hk heq
    exact (h.held raId hlt).mpr ⟨k, hk, heq⟩ hfree
  refine ⟨fun x hx => ?_, fun k hk => ?_, fun j k hj hk heq => ?_, fun k hk => ?_⟩
  · rw [hslots']
    by_cases hxr : x = raId
    · rw [hxr, Function.update_self]
      exact iff_of_true hcrnti ⟨i, (hpend i).mpr (Or.inl rfl), by rw [hnew, hid]⟩
    · rw [Function.update_of_ne hxr, h.held x hx]
      constructor
      · rintro ⟨k, hk, hkid⟩
        exact ⟨k, (hpend k).mpr (Or.inr hk), by rw [hold k hk, hkid]⟩
      · rintro ⟨k, hk, hkid⟩
        rcases (hpend k).mp hk with rfl | hk
        · rw [hnew, hid] at hkid
          exact absurd hkid.symm hxr
        · exact ⟨k, hk, by rw [← hold k hk, hkid]⟩
  · rcases (hpend k).mp hk with rfl | hk
    · rw [hnew, hid]
      exact hlt
    · rw [hold k hk]
      exact h.raId_lt k hk
  · rcases (hpend j).mp hj with rfl | hj <;> rcases (hpend k).mp hk with rfl | hk
    · rfl
    · rw [hnew, hid, hold k hk] at heq
      exact absurd heq.symm (hother k hk)
    · rw [hnew, hid, hold j hj] at heq
      exact absurd heq (hother j hj)
    · rw [hold j hj, hold k hk] at heq
      exact h.raId_inj j k hj hk heq
  · rcases (hpend k).mp hk with rfl | hk
    · rw [hnew, hbuf]
    · rw [hold k hk]
      exact h.bufRar k hk

/-- A round that frees its own slot keeps slots and entries together. -/
theorem rarSched_match (hnew : ∀ len, 7 ≤ len → newSubh len 0 = true)
    (hi : i < schedMaxPendingRar) (hown : Sched.FreesOwn st i)
    (h : RarsMatch (assembleRars newSubh slots st.2.done) st.1) :
    RarsMatch (assembleRars newSubh slots (Sched.rarSched lib st i).2.done)
      (Sched.rarSched lib st i).1 := by
  obtain ⟨s, out⟩ := st
  obtain ⟨hkeep, hown⟩ := hown
  by_cases hans : s.Answers i
  · obtain ⟨rar, hdone, hgrant, hnof, -, htbs, -, -, htable⟩ :=
      Sched.rarSched_answers lib out hi hans
    obtain ⟨js, hjs⟩ := Sched.sameTti_self (s := s) hi
    have hpos : 0 < rar.nofGrants := by
      rw [hnof]
      unfold Sched.answerOf
      rw [hjs]
      exact Nat.succ_pos _
    have hseven : rar.tbs = 7 := htbs.trans (h.bufRar i ⟨hi, hans.1.ne'⟩)
    have hraId : rar.grant.raId =
        (s.pendingRar ((s.sameTti (s.pendingRar i).rarTti).headD i)).raId := by
      rw [hgrant]
      rfl
    obtain ⟨hfreed, hkept⟩ := assembleRar_spec hnew (assembleRars newSubh slots out.done) hseven
      hpos
    rw [hraId] at hfreed hkept
    rw [hdone, assembleRars, List.foldl_append]
    exact h.answered htable rfl hfreed hkept fun k hk => hnof ▸ hown hans k hk.1 hk
  · obtain ⟨hdone, -, htable⟩ := Sched.rarSched_silent lib out hans
    rw [if_neg hkeep] at htable
    rw [hdone]
    exact h.congr htable

/-- All rounds of a call. -/
theorem dlSchedRar_match (hnew : ∀ len, 7 ≤ len → newSubh len 0 = true)
    (h : RarsMatch slots s)
    (hown : AllSteps (Sched.rarSched lib) Sched.FreesOwn (s, ⟨[], default⟩)
      (List.range schedMaxPendingRar)) :
    RarsMatch (assembleRars newSubh slots (s.dlSchedRar lib).2) (s.dlSchedRar lib).1 := by
  have hrounds : ∀ (l : List Nat) (st : Sched × Elems DlSchedRar),
      (∀ i ∈ l, i < schedMaxPendingRar) →
      AllSteps (Sched.rarSched lib) Sched.FreesOwn st l →
      RarsMatch (assembleRars newSubh slots st.2.done) st.1 →
      RarsMatch (assembleRars newSubh slots (l.foldl (Sched.rarSched lib) st).2.done)
        (l.foldl (Sched.rarSched lib) st).1 := by
    intro l
    induction l with
    | nil => exact fun st _ _ h => h
    | cons i l ih =>
      intro st hlt hown h
      exact ih _ (fun j hj => hlt j (List.mem_cons_of_mem _ hj)) hown.2
        (rarSched_match lib hnew (hlt i List.mem_cons_self) hown.1 h)
  unfold Sched.dlSchedRar
  exact hrounds (List.range schedMaxPendingRar) (s, ⟨[], default⟩)
    (fun i hi => List.mem_range.mp hi) hown h

end Rounds

/-! ## An access -/

namespace MacState

variable {lib : Lib} {newSubh : Nat → Nat → Bool} {locations : Nat → Nat → Nat → DciCce}
  {m : MacState} {tti preambleIdx timeAdv : Nat}

/-- What holds between two calls. -/
structure RarInv (m : MacState) : Prop where
  rars : RarsMatch m.pendingRars m.sched
  lastRnti : 70 ≤ m.lastRnti ∧ m.lastRnti < 60000

/-- The loop stops at a free slot, or at the last one. -/
theorem findRar_spec (m : MacState) : ∀ {fuel raId : Nat}, maxPendingRars ≤ raId + fuel →
    raId < maxPendingRars → raId ≤ m.findRar fuel raId ∧
      (∀ x, raId ≤ x → x < m.findRar fuel raId → m.SlotUsed x) ∧
      (¬ m.SlotUsed (m.findRar fuel raId) ∨ m.findRar fuel raId = maxPendingRars - 1)
  | 0, raId, hfuel, h => by omega
  | fuel + 1, raId, hfuel, h => by
    unfold findRar
    split_ifs with hused
    · obtain ⟨hle, hbelow, hstop⟩ := @findRar_spec m fuel (raId + 1) (by omega) (by omega)
      refine ⟨by omega, fun x hx hlt => ?_, hstop⟩
      rcases Nat.eq_or_lt_of_le hx with rfl | hx
      · exact hused.1
      · exact hbelow x hx hlt
    · refine ⟨le_rfl, fun x hx hlt => by omega, ?_⟩
      unfold SlotUsed
      by_cases hfree : (m.pendingRars raId).tempCrnti = 0
      · exact Or.inl fun hne => hne hfree
      · have hlast : ¬ raId < maxPendingRars - 1 := fun hlt => hused ⟨hfree, hlt⟩
        exact Or.inr (by omega)

/-- With a slot that is free the loop finds one. -/
theorem findRar_free (hfree : ∃ raId < maxPendingRars, ¬ m.SlotUsed raId) :
    ¬ m.SlotUsed (m.findRar maxPendingRars 0) := by
  obtain ⟨raId, hlt, hraId⟩ := hfree
  obtain ⟨-, hbelow, hstop⟩ := @findRar_spec m maxPendingRars 0 (by simp) (by decide)
  rcases hstop with hstop | hlast
  · exact hstop
  · rcases Nat.lt_or_ge raId (m.findRar maxPendingRars 0) with h | h
    · exact absurd (hbelow raId (Nat.zero_le _) h) hraId
    · obtain rfl : raId = m.findRar maxPendingRars 0 := by omega
      exact hraId

/-- The scheduler has fewer entries than there are slots. -/
theorem RarInv.exists_free (h : m.RarInv) : ∃ raId < maxPendingRars, ¬ m.SlotUsed raId := by
  by_contra hall
  push Not at hall
  have hsub : List.range maxPendingRars ⊆
      (List.range schedMaxPendingRar).map fun i => (m.sched.pendingRar i).raId := by
    intro raId hraId
    have hlt := List.mem_range.mp hraId
    obtain ⟨i, hi, hid⟩ := (h.rars.held raId hlt).mp (hall raId hlt)
    exact List.mem_map.mpr ⟨i, List.mem_range.mpr hi.1, hid⟩
  have hle := (List.subperm_of_subset List.nodup_range hsub).length_le
  simp [maxPendingRars, schedMaxPendingRar] at hle

/-- The scheduler takes a preamble when it has room. -/
theorem dlRachInfo_room {s : Sched} (tti raId rnti size : Nat)
    (hroom : ∃ i < schedMaxPendingRar, (s.pendingRar i).bufRar = 0) :
    ∃ i < schedMaxPendingRar, (s.pendingRar i).bufRar = 0 ∧
      (s.dlRachInfo tti raId rnti size).1.pendingRar =
        Function.update s.pendingRar i ⟨size, rnti, raId, tti⟩ := by
  unfold Sched.dlRachInfo
  split
  · rename_i i hi
    exact ⟨i, List.mem_range.mp (List.mem_of_find?_eq_some hi),
      by simpa using List.find?_some hi, rfl⟩
  · rename_i hnone
    obtain ⟨i, hi, hbuf⟩ := hroom
    have := List.find?_eq_none.mp hnone i (List.mem_range.mpr hi)
    simp [hbuf] at this

/-- An access with room in the scheduler. -/
theorem rachDetected_rars (hroom : ∃ i < schedMaxPendingRar, (m.sched.pendingRar i).bufRar = 0) :
    ∃ i < schedMaxPendingRar, (m.sched.pendingRar i).bufRar = 0 ∧
      (m.rachDetected lib locations tti preambleIdx timeAdv).st.sched.pendingRar =
        Function.update m.sched.pendingRar i
          ⟨7, m.lastRnti, m.findRar maxPendingRars 0, tti⟩ ∧
      (m.rachDetected lib locations tti preambleIdx timeAdv).st.pendingRars =
        Function.update m.pendingRars (m.findRar maxPendingRars 0)
          ⟨preambleIdx, timeAdv, m.lastRnti⟩ := by
  have hslot := @findRar_lt m maxPendingRars 0 (by decide)
  simp only [rachDetected, if_neg hslot.ne]
  obtain ⟨i, hi, hbuf, htable⟩ := dlRachInfo_room (s := m.sched.ueCfg lib m.schedArgs locations
    m.lastRnti {} (.both :: List.replicate (maxLc - 1) .idle)) tti (m.findRar maxPendingRars 0)
    m.lastRnti 7 hroom
  exact ⟨i, hi, hbuf, htable, trivial⟩

theorem rachDetected_inv (h : m.RarInv)
    (hroom : ∃ i < schedMaxPendingRar, (m.sched.pendingRar i).bufRar = 0) :
    (m.rachDetected lib locations tti preambleIdx timeAdv).st.RarInv := by
  obtain ⟨i, hi, hempty, hentries, hslots⟩ := @rachDetected_rars lib locations m tti preambleIdx
    timeAdv hroom
  have hfree : (m.pendingRars (m.findRar maxPendingRars 0)).tempCrnti = 0 := by
    simpa [SlotUsed] using findRar_free h.exists_free
  have hlt := @findRar_lt m maxPendingRars 0 (by decide)
  have hlast := h.lastRnti
  constructor
  · refine h.rars.detected hlt hfree hi hempty hentries rfl rfl hslots ?_
    simp only
    omega
  · rw [(rachDetected_eq lib locations m tti preambleIdx timeAdv).2.2]
    split_ifs <;> omega

/-! ## Runs of both calls -/

theorem rarStep_inv (hnew : ∀ len, 7 ≤ len → newSubh len 0 = true) (m : MacState) (e : RarEvent)
    (h : m.RarInv) (hok : m.RarStepOk lib e) : (m.rarStep lib newSubh locations e).RarInv := by
  cases e with
  | rachDetected tti preambleIdx timeAdv => exact rachDetected_inv h hok
  | getDlSched tti paging =>
    refine ⟨?_, h.lastRnti⟩
    unfold rarStep getDlSchedRar
    by_cases hs : m.sched.configured = true
    · obtain ⟨hrar, hentries⟩ := Sched.dlSched_rar lib m.sched tti paging hs
      simp only [hrar]
      refine RarsMatch.congr (dlSchedRar_match lib hnew ?_ (hok hs)) hentries
      exact h.rars.congr (Sched.rarStart_kept lib m.sched tti paging).2
    · have hidle : m.sched.dlSched lib tti paging = (m.sched, {}) := by
        unfold Sched.dlSched
        rw [if_pos (by simpa using hs)]
      simp only [hidle]
      exact h.rars

theorem rarStep_writes (m : MacState) (e : RarEvent) (h : m.RarInv) (_ : m.RarStepOk lib e) :
    m.WritesFree lib locations e := by
  cases e with
  | rachDetected tti preambleIdx timeAdv =>
    have hfree := findRar_free h.exists_free
    have hslot := @findRar_lt m maxPendingRars 0 (by decide)
    refine ⟨fun raId hused => ?_, fun hall => ?_⟩
    · simp only [rachDetected, if_neg hslot.ne]
      refine Function.update_of_ne ?_ ..
      rintro rfl
      exact hfree hused
    · obtain ⟨raId, hlt, hraId⟩ := h.exists_free
      exact absurd (hall raId hlt) hraId
  | getDlSched tti paging => trivial

/-- **The slots of pending RARs.** In a run whose accesses find room in the scheduler, and whose
rounds of `dl_sched_rar` free the slots that they answer, the slots in use are those of the
responses that wait, and no access writes one. -/
theorem rar_slots_held (hnew : ∀ len, 7 ≤ len → newSubh len 0 = true) (h0 : m.NoRars)
    {es : List RarEvent}
    (hok : AllSteps (rarStep lib newSubh locations) (RarStepOk lib) m es) :
    AllStates (rarStep lib newSubh locations) SlotsHeld m es ∧
      AllSteps (rarStep lib newSubh locations) (WritesFree lib locations) m es := by
  have hinit : m.RarInv := by
    refine ⟨⟨fun raId _ => ?_, ?_, ?_, ?_⟩, by rw [h0.lastRnti]; decide⟩ <;>
      simp [Sched.RarPending, h0.slots, h0.entries]
  refine ⟨?_, allSteps_of_allSteps (rarStep_inv hnew) rarStep_writes hinit hok⟩
  exact (allStates_of_allSteps (rarStep_inv hnew) hinit hok).mono fun s h => h.rars.held

/-- A MAC after its start, with a window of 10 TTIs. -/
def exampleRars : MacState where
  sched := { Sched.exampleSched with cfg := { Sched.exampleCell with prachRarWindow := 10 } }

def exampleLocations : Nat → Nat → Nat → DciCce :=
  fun _ _ _ => ⟨fun L n => n * 2 ^ L, fun _ => 4⟩

/-- The calls of a MAC whose RAR PDUs have room for 15 subheaders. -/
def exampleStep : MacState → RarEvent → MacState :=
  rarStep exampleLib (fun _ n => n < 15) exampleLocations

/-- A preamble that is answered six TTIs later. -/
theorem rar_slots_held_answered :
    AllStates exampleStep SlotsHeld exampleRars [.rachDetected 1 5 0, .getDlSched 7 none] ∧
      AllSteps exampleStep (WritesFree exampleLib exampleLocations) exampleRars
        [.rachDetected 1 5 0, .getDlSched 7 none] :=
  rar_slots_held (by simp) ⟨fun _ => rfl, fun _ => rfl, rfl⟩ (by decide +kernel)

/-- A preamble whose window passes before the next call. -/
theorem rar_slot_leaked :
    ¬ AllStates exampleStep SlotsHeld exampleRars [.rachDetected 1 5 0, .getDlSched 30 none] := by
  intro h
  obtain ⟨i, hi, -⟩ := (h.last 0 (by decide)).mp (by decide +kernel)
  have hnone : ∀ i < schedMaxPendingRar,
      ¬ (exec exampleStep exampleRars
        [.rachDetected 1 5 0, .getDlSched 30 none]).sched.RarPending i := by
    decide +kernel
  exact hnone i hi.1 hi

end MacState

end Srsenb.Mac
