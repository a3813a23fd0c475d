import Srsenb.Mac.MacUsers

/-! # The RNTIs of `rach_detected`

`last_rnti` counts from 70 and wraps at 60000. Which user has an RNTI at that point is up to the
removals since its last turn. -/

open Srsenb.Run

namespace Srsenb.Mac

/-- The calls that give and take RNTIs. -/
inductive RntiCall where
  | rachDetected (tti preambleIdx timeAdv : Nat)
  | ueRem (rnti : Nat)
  deriving DecidableEq, Repr

namespace RntiCall

def event : RntiCall → MacEvent
  | rachDetected tti preambleIdx timeAdv => .rachDetected tti preambleIdx timeAdv
  | ueRem rnti => .ueRem rnti

def isRach : RntiCall → Bool
  | rachDetected .. => true
  | ueRem _ => false

end RntiCall

/-- The accesses of a run. -/
def accesses (cs : List RntiCall) : Nat := cs.countP RntiCall.isRach

/-- The calls after access `i`, the first being number 0. -/
def sinceAccess : Nat → List RntiCall → List RntiCall
  | _, [] => []
  | i, .ueRem _ :: cs => sinceAccess i cs
  | 0, .rachDetected .. :: cs => cs
  | i + 1, .rachDetected .. :: cs => sinceAccess i cs

/-- The RNTIs of one turn of the counter. -/
def nofRntis : Nat := 59930

/-- The RNTI of access `i`. -/
def rntiOf (i : Nat) : Nat := 70 + i % nofRntis

/-- The user of access `i` was not removed. -/
def Attached (cs : List RntiCall) (i : Nat) : Prop :=
  i < accesses cs ∧ .ueRem (rntiOf i) ∉ sinceAccess i cs

/-- The user that got the next RNTI one turn ago was removed. -/
def TurnOver (cs : List RntiCall) : Prop :=
  nofRntis ≤ accesses cs →
    .ueRem (rntiOf (accesses cs)) ∈ sinceAccess (accesses cs - nofRntis) cs

/-! ## The calls since an access -/

section Since

variable {cs post : List RntiCall} {i j tti preambleIdx timeAdv rnti : Nat}

@[simp] theorem accesses_nil : accesses [] = 0 := rfl

@[simp] theorem accesses_append : accesses (cs ++ post) = accesses cs + accesses post :=
  List.countP_append

@[simp] theorem accesses_rach :
    accesses (.rachDetected tti preambleIdx timeAdv :: cs) = accesses cs + 1 :=
  List.countP_cons_of_pos rfl

@[simp] theorem accesses_ueRem : accesses (.ueRem rnti :: cs) = accesses cs :=
  List.countP_cons_of_neg (by simp [RntiCall.isRach])

theorem sinceAccess_append (h : i < accesses cs) :
    sinceAccess i (cs ++ post) = sinceAccess i cs ++ post := by
  induction cs generalizing i with
  | nil => simp at h
  | cons c cs ih =>
    cases c with
    | ueRem rnti => exact ih (by simpa using h)
    | rachDetected tti preambleIdx timeAdv =>
      cases i with
      | zero => rfl
      | succ i => exact ih (by simpa using h)

theorem sinceAccess_rach :
    sinceAccess (accesses cs) (cs ++ [.rachDetected tti preambleIdx timeAdv]) = [] := by
  induction cs with
  | nil => rfl
  | cons c cs ih =>
    cases c with
    | ueRem rnti => simpa [sinceAccess] using ih
    | rachDetected tti preambleIdx timeAdv => simpa [sinceAccess] using ih

theorem sinceAccess_suffix : sinceAccess i cs <:+ cs := by
  induction cs generalizing i with
  | nil => exact List.suffix_rfl
  | cons c cs ih =>
    cases c with
    | ueRem rnti => exact ih.trans (List.suffix_cons _ _)
    | rachDetected tti preambleIdx timeAdv =>
      cases i with
      | zero => exact List.suffix_cons _ _
      | succ i => exact ih.trans (List.suffix_cons _ _)

/-- The calls since a later access are among those since an earlier one. -/
theorem sinceAccess_subset (h : i ≤ j) : sinceAccess j cs ⊆ sinceAccess i cs := by
  induction cs generalizing i j with
  | nil => exact List.Subset.refl _
  | cons c cs ih =>
    cases c with
    | ueRem rnti => exact ih h
    | rachDetected tti preambleIdx timeAdv =>
      cases i with
      | zero =>
        cases j with
        | zero => exact List.Subset.refl _
        | succ j => exact (@sinceAccess_suffix cs j).subset
      | succ i =>
        cases j with
        | zero => omega
        | succ j => exact ih (Nat.succ_le_succ_iff.mp h)

/-- Access `i` is the last call of a prefix. -/
theorem exists_access (h : i < accesses cs) : ∃ pre tti preambleIdx timeAdv post,
    cs = pre ++ .rachDetected tti preambleIdx timeAdv :: post ∧ accesses pre = i := by
  induction cs generalizing i with
  | nil => simp at h
  | cons c cs ih =>
    cases c with
    | ueRem rnti =>
      obtain ⟨pre, tti, preambleIdx, timeAdv, post, rfl, hpre⟩ := ih (by simpa using h)
      exact ⟨.ueRem rnti :: pre, tti, preambleIdx, timeAdv, post, rfl, by simpa using hpre⟩
    | rachDetected tti preambleIdx timeAdv =>
      cases i with
      | zero => exact ⟨[], tti, preambleIdx, timeAdv, cs, rfl, rfl⟩
      | succ i =>
        obtain ⟨pre, t, p, a, post, rfl, hpre⟩ := ih (by simpa using h)
        exact ⟨.rachDetected tti preambleIdx timeAdv :: pre, t, p, a, post, rfl,
          by simpa using hpre⟩

end Since

/-! ## Who is attached -/

section Attached

variable {cs post : List RntiCall} {i j tti preambleIdx timeAdv rnti : Nat}

theorem nofRntis_pos : 0 < nofRntis := Nat.succ_pos 59929

theorem rntiOf_lt (i : Nat) : rntiOf i < 60000 := by
  have := Nat.mod_lt i nofRntis_pos
  unfold rntiOf nofRntis at *
  omega

theorem rntiOf_sub (h : nofRntis ≤ i) : rntiOf (i - nofRntis) = rntiOf i := by
  unfold rntiOf
  rw [← Nat.mod_eq_sub_mod h]

theorem attached_rach : Attached (cs ++ [.rachDetected tti preambleIdx timeAdv]) i ↔
    i = accesses cs ∨ Attached cs i := by
  unfold Attached
  rw [accesses_append, accesses_rach, accesses_nil]
  rcases lt_trichotomy i (accesses cs) with hlt | rfl | hgt
  · rw [sinceAccess_append hlt]
    simp [hlt.ne, hlt, hlt.trans (Nat.lt_succ_self _)]
  · simp [sinceAccess_rach]
  · simp [hgt.ne', hgt.not_gt, Nat.not_lt.mpr (Nat.succ_le_of_lt hgt)]

theorem attached_ueRem : Attached (cs ++ [.ueRem rnti]) i ↔ Attached cs i ∧ rntiOf i ≠ rnti := by
  unfold Attached
  rw [accesses_append, accesses_ueRem, accesses_nil, Nat.add_zero]
  by_cases h : i < accesses cs
  · rw [sinceAccess_append h]
    simp [h]
  · simp [h]

/-- No attached user has the next RNTI, if and only if the one of a turn ago is not. -/
theorem not_attached_iff :
    (∀ i, Attached cs i → rntiOf i ≠ rntiOf (accesses cs)) ↔ TurnOver cs := by
  constructor
  · intro h hturn
    by_contra hmem
    have hlast := rntiOf_sub hturn
    have hpos := nofRntis_pos
    exact h (accesses cs - nofRntis) ⟨by omega, by rwa [hlast]⟩ hlast
  · rintro h i ⟨hlt, hmem⟩ heq
    have hmod : i % nofRntis = accesses cs % nofRntis := by
      unfold rntiOf at heq
      omega
    -- The same RNTI comes at least one turn later.
    have hle : i + nofRntis ≤ accesses cs := by
      by_contra hgt
      have hzero := Nat.sub_mod_eq_zero_of_mod_eq hmod.symm
      rw [Nat.mod_eq_of_lt (by omega)] at hzero
      omega
    exact hmem (heq ▸ sinceAccess_subset (by omega) (h (by omega)))

end Attached

/-! ## What the MAC keeps -/

namespace MacState

variable (lib : Lib) (locations : Nat → Nat → Nat → DciCce)

def rntiStep (m : MacState) (c : RntiCall) : MacState := m.step lib locations c.event

/-- The start, after `reset`: no user and the first RNTI. -/
structure IsReset (m : MacState) : Prop where
  ueDb : m.ueDb = ∅
  schedDb : m.sched.ueDb = ∅
  lastRnti : m.lastRnti = 70

/-- A call hands out no RNTI that a user has, in the MAC or in the scheduler. -/
def Fresh (m : MacState) (c : RntiCall) : Prop :=
  ∀ rnti, .rrcAddUser rnti ∈ (m.handle lib locations c.event).acts →
    m.ueDb[rnti]? = none ∧ m.sched.ueDb[rnti]? = none

/-- In each access a fresh RNTI is handed out, and no two attached users ever have the same. -/
structure RntisFresh (m : MacState) (cs : List RntiCall) : Prop where
  fresh : AllSteps (rntiStep lib locations) (Fresh lib locations) m cs
  apart : ∀ pre, pre <+: cs → ∀ i j, Attached pre i → Attached pre j → rntiOf i = rntiOf j → i = j

/-- The counter and the databases after the calls. -/
structure Keeps (m : MacState) (cs : List RntiCall) : Prop where
  lastRnti : m.lastRnti = rntiOf (accesses cs)
  ueDb : ∀ r : Nat, m.ueDb[r]?.isSome = true ↔ ∃ i, Attached cs i ∧ rntiOf i = r
  agree : m.UsersAgree

variable {lib locations} {m : MacState} {cs : List RntiCall}

theorem findRar_lt (m : MacState) : ∀ {fuel raId : Nat}, raId < maxPendingRars →
    m.findRar fuel raId < maxPendingRars
  | 0, _, h => h
  | fuel + 1, raId, h => by
    unfold findRar
    split_ifs with hfull
    · exact findRar_lt m (by omega)
    · exact h

/-- `rach_detected` does not see that the array is full. -/
theorem rachDetected_eq (lib : Lib) (locations : Nat → Nat → Nat → DciCce) (m : MacState)
    (tti preambleIdx timeAdv : Nat) :
    (m.rachDetected lib locations tti preambleIdx timeAdv).acts = [.rrcAddUser m.lastRnti] ∧
      (m.rachDetected lib locations tti preambleIdx timeAdv).st.ueDb =
        m.ueDb.insert m.lastRnti (some (.new m.lastRnti)) ∧
      (m.rachDetected lib locations tti preambleIdx timeAdv).st.lastRnti =
        if (m.lastRnti + 1) % 2 ^ 16 ≥ 60000 then 70 else (m.lastRnti + 1) % 2 ^ 16 := by
  have hslot := @findRar_lt m maxPendingRars 0 (Nat.succ_pos 63)
  simp only [rachDetected, if_neg hslot.ne]
  exact ⟨trivial, trivial, trivial⟩

theorem rntiOf_succ (i : Nat) : (if (rntiOf i + 1) % 2 ^ 16 ≥ 60000 then 70
    else (rntiOf i + 1) % 2 ^ 16) = rntiOf (i + 1) := by
  have := Nat.mod_lt i nofRntis_pos
  unfold rntiOf nofRntis at *
  split_ifs <;> omega

theorem keeps_init (h : m.IsReset) : m.Keeps [] where
  lastRnti := h.lastRnti
  ueDb r := by simp [h.ueDb, Attached]
  agree := ⟨fun r _ => by simp [h.ueDb, h.schedDb], fun r p hp => by simp [h.ueDb] at hp⟩

theorem keeps_step (h : m.Keeps cs) (c : RntiCall) :
    (m.rntiStep lib locations c).Keeps (cs ++ [c]) := by
  cases c with
  | rachDetected tti preambleIdx timeAdv =>
    obtain ⟨-, hdb, hlast⟩ := rachDetected_eq lib locations m tti preambleIdx timeAdv
    refine ⟨?_, fun r => ?_, rachDetected_agree lib locations h.agree tti preambleIdx timeAdv⟩
    · rw [rntiStep, step, RntiCall.event, handle, hlast, h.lastRnti, rntiOf_succ]
      simp
    · rw [rntiStep, step, RntiCall.event, handle, hdb, StdMap.getElem?_insert, h.lastRnti]
      simp only [attached_rach]
      split_ifs with hr
      · simp only [Option.isSome_some, true_iff]
        exact ⟨accesses cs, Or.inl rfl, hr⟩
      · rw [h.ueDb r]
        constructor
        · rintro ⟨i, hi, rfl⟩
          exact ⟨i, Or.inr hi, rfl⟩
        · rintro ⟨i, rfl | hi, rfl⟩
          · exact absurd rfl hr
          · exact ⟨i, hi, rfl⟩
  | ueRem rnti =>
    have hrem : (m.ueRem rnti).st.lastRnti = m.lastRnti ∧
        ∀ r : Nat, (m.ueRem rnti).st.ueDb[r]?.isSome = true ↔
          m.ueDb[r]?.isSome = true ∧ r ≠ rnti := by
      unfold ueRem
      split_ifs with hthere
      · refine ⟨rfl, fun r => ?_⟩
        rw [StdMap.getElem?_erase]
        split_ifs with hr
        · simp [hr]
        · simp [Ne.symm hr]
      · refine ⟨rfl, fun r => ⟨fun hr => ⟨hr, ?_⟩, fun hr => hr.1⟩⟩
        rintro rfl
        exact hthere hr
    refine ⟨?_, fun r => ?_, ueRem_agree h.agree rnti⟩
    · simpa [rntiStep, step, RntiCall.event, handle] using hrem.1.trans h.lastRnti
    · rw [rntiStep, step, RntiCall.event, handle, hrem.2, h.ueDb r]
      simp only [attached_ueRem]
      constructor
      · rintro ⟨⟨i, hi, rfl⟩, hne⟩
        exact ⟨i, ⟨hi, hne⟩, rfl⟩
      · rintro ⟨i, ⟨hi, hne⟩, rfl⟩
        exact ⟨⟨i, hi, rfl⟩, hne⟩

theorem keeps_exec (h : m.IsReset) (cs : List RntiCall) :
    (exec (rntiStep lib locations) m cs).Keeps cs := by
  induction cs using List.reverseRecOn with
  | nil => exact keeps_init h
  | append_singleton cs c ih =>
    rw [exec_append]
    exact keeps_step ih c

/-- The next access is fresh if and only if its RNTI was given back in the last turn. -/
theorem fresh_iff (h : m.Keeps cs) (tti preambleIdx timeAdv : Nat) :
    m.Fresh lib locations (.rachDetected tti preambleIdx timeAdv) ↔ TurnOver cs := by
  have hacts := (rachDetected_eq lib locations m tti preambleIdx timeAdv).1
  have hlt := rntiOf_lt (accesses cs)
  have hagree := h.agree.keys m.lastRnti (by rw [h.lastRnti, mrnti]; omega)
  have hdb := h.ueDb m.lastRnti
  rw [← not_attached_iff]
  simp only [Fresh, RntiCall.event, handle, hacts, List.mem_singleton, MacAction.rrcAddUser.injEq,
    forall_eq]
  rw [← Option.not_isSome_iff_eq_none, ← Option.not_isSome_iff_eq_none, ← hagree, and_self, hdb,
    h.lastRnti]
  push Not
  rfl

theorem fresh_ueRem (rnti : Nat) : m.Fresh lib locations (.ueRem rnti) := by
  intro r hr
  simp only [RntiCall.event, handle, ueRem] at hr
  split_ifs at hr <;> simp at hr

/-- Whoever had an RNTI before is removed when it comes again. -/
theorem apart_of_turnOver (h : ∀ pre tti preambleIdx timeAdv post,
    cs = pre ++ .rachDetected tti preambleIdx timeAdv :: post → TurnOver pre)
    {pre : List RntiCall} (hpre : pre <+: cs) {i j : Nat} (hi : Attached pre i)
    (hj : Attached pre j) (heq : rntiOf i = rntiOf j) : ¬ i < j := by
  intro hlt
  obtain ⟨past, tti, preambleIdx, timeAdv, since, rfl, rfl⟩ := exists_access hj.1
  obtain ⟨post, rfl⟩ := hpre
  have hpast := h past tti preambleIdx timeAdv (since ++ post) (by simp)
  refine not_attached_iff.mpr hpast i ⟨hlt, fun hmem => hi.2 ?_⟩ heq
  rw [sinceAccess_append hlt]
  exact List.mem_append_left _ hmem

/-- **RNTIs are fresh** in a run from the start if and only if, at each access, the user that got
the RNTI one turn ago was removed. -/
theorem rntis_fresh_iff (lib : Lib) (locations : Nat → Nat → Nat → DciCce) (m : MacState)
    (h : m.IsReset) (cs : List RntiCall) :
    m.RntisFresh lib locations cs ↔ ∀ pre tti preambleIdx timeAdv post,
      cs = pre ++ .rachDetected tti preambleIdx timeAdv :: post → TurnOver pre := by
  constructor
  · rintro ⟨hfresh, -⟩ pre tti preambleIdx timeAdv post heq
    exact (fresh_iff (keeps_exec h pre) tti preambleIdx timeAdv).mp
      (allSteps_iff_split.mp hfresh pre _ post heq)
  · intro hturn
    refine ⟨allSteps_iff_split.mpr fun pre c post heq => ?_, fun pre hpre i j hi hj heq => ?_⟩
    · cases c with
      | rachDetected tti preambleIdx timeAdv =>
        exact (fresh_iff (keeps_exec h pre) tti preambleIdx timeAdv).mpr
          (hturn pre tti preambleIdx timeAdv post heq)
      | ueRem rnti => exact fresh_ueRem rnti
    · have hij := apart_of_turnOver hturn hpre hi hj heq
      have hji := apart_of_turnOver hturn hpre hj hi heq.symm
      omega

/-- A MAC before its first call. -/
def exampleReset : MacState := { sched := Sched.exampleSched }

theorem rntis_fresh_twoCalls :
    exampleReset.RntisFresh exampleLib (fun _ _ _ => ⟨fun L n => n * 2 ^ L, fun _ => 4⟩)
      [.rachDetected 1 0 0, .ueRem 70] := by
  refine (rntis_fresh_iff exampleLib _ exampleReset ⟨rfl, rfl, rfl⟩ _).mpr ?_
  intro pre tti preambleIdx timeAdv post heq hturn
  have hle : accesses pre ≤ accesses [.rachDetected 1 0 0, .ueRem 70] := by
    rw [heq, accesses_append]
    exact Nat.le_add_right _ _
  simp only [accesses_rach, accesses_ueRem, accesses_nil, nofRntis] at hle hturn
  omega

/-- A user stays attached for a whole turn, and the next access replaces it. -/
theorem rntis_not_fresh_fullTurn :
    ¬ exampleReset.RntisFresh exampleLib (fun _ _ _ => ⟨fun L n => n * 2 ^ L, fun _ => 4⟩)
      (List.replicate (nofRntis + 1) (.rachDetected 1 0 0)) := by
  rintro ⟨hfresh, -⟩
  have hcount : accesses (List.replicate nofRntis (.rachDetected 1 0 0)) = nofRntis :=
    (List.countP_eq_length.mpr fun c hc => by rw [List.eq_of_mem_replicate hc]; rfl).trans
      List.length_replicate
  have hover := (fresh_iff (keeps_exec ⟨rfl, rfl, rfl⟩ _) 1 0 0).mp
    (allSteps_iff_split.mp hfresh (List.replicate nofRntis (.rachDetected 1 0 0)) _ []
      List.replicate_succ')
  have hmem := sinceAccess_suffix.subset (hover hcount.ge)
  cases List.eq_of_mem_replicate hmem

end MacState

end Srsenb.Mac
