import Mathlib.Data.List.Perm.Subperm
import Srsenb.Base.Run
import Srsenb.Mac.MacState
import Srsenb.Mac.RarGrants

/-! # The preambles behind the grants

A grant of `dl_sched_rar` answers a preamble that `dl_rach_info` left in `pending_rar`. -/

open Srsenb.Run

namespace Srsenb.Mac

/-- What an answer or the end of the window leaves of an entry. -/
def SchedRar.cleared (r : SchedRar) : SchedRar := { r with bufRar := 0, rarTti := 0 }

/-- An element of the result is for a pending entry; `grants[0]` is the only one that is filled. -/
structure Announces (table : Nat → SchedRar) (i : Nat) (rar : DlSchedRar) : Prop where
  pending : (table i).bufRar > 0
  raId : rar.grant.raId = (table i).raId
  rarnti : rar.rarnti = ((table i).rarTti + 1) % 10
  nofGrants : rar.nofGrants = 1

namespace Sched

variable (lib : Lib) (s : Sched)

/-- The end of the window of a preamble lies behind the current TTI. -/
def WindowPassed (r : SchedRar) : Prop :=
  (s.currentTti + 10240 - r.rarTti) % 10240 > s.cfg.prachRarWindow + 3

instance (r : SchedRar) : Decidable (s.WindowPassed r) :=
  inferInstanceAs (Decidable (_ > _))

/-- The elements of the result are for as many entries, and every other entry is as it was, or its
window has passed. -/
def RarBacked : Prop :=
  ∃ slots : List Nat, slots.Nodup ∧ (∀ i ∈ slots, i < schedMaxPendingRar) ∧
    List.Forall₂ (Announces s.pendingRar) slots (s.dlSchedRar lib).2 ∧
    ∀ i < schedMaxPendingRar, (s.dlSchedRar lib).1.pendingRar i = s.pendingRar i ∨
      (s.dlSchedRar lib).1.pendingRar i = (s.pendingRar i).cleared ∧
        (i ∈ slots ∨ s.WindowPassed (s.pendingRar i))

/-- A round that answers finds no other entry, pending or not, with its TTI. -/
def AnswersOne (st : Sched × Elems DlSchedRar) (i : Nat) : Prop :=
  st.1.Answers i → (st.1.sameTti (st.1.pendingRar i).rarTti).length = 1

/-- A round that discards does so behind the window. -/
def DiscardsLate (st : Sched × Elems DlSchedRar) (i : Nat) : Prop :=
  st.1.Discards i → st.1.WindowPassed (st.1.pendingRar i)

instance (st : Sched × Elems DlSchedRar) (i : Nat) : Decidable (AnswersOne st i) :=
  inferInstanceAs (Decidable (_ → _))

instance (st : Sched × Elems DlSchedRar) (i : Nat) : Decidable (DiscardsLate st i) :=
  inferInstanceAs (Decidable (_ → _))

/-- The entries of a list whose rounds answer. -/
def answered : List Nat → Sched × Elems DlSchedRar → List Nat
  | [], _ => []
  | i :: is, st => (if st.1.Answers i then [i] else []) ++ answered is (rarSched lib st i)

/-- The entries of a list whose rounds discard them. -/
def discarded : List Nat → Sched × Elems DlSchedRar → List Nat
  | [], _ => []
  | i :: is, st => (if st.1.Discards i then [i] else []) ++ discarded is (rarSched lib st i)

/-! ## One round -/

variable {s} {st : Sched × Elems DlSchedRar} {i j : Nat} {l : List Nat}

theorem rarSched_setup (st : Sched × Elems DlSchedRar) (i : Nat) :
    (rarSched lib st i).1.cfg = st.1.cfg ∧
      (rarSched lib st i).1.currentTti = st.1.currentTti := by
  obtain ⟨new, hrounds, -⟩ := rarSched_emits lib st i
  exact ⟨hrounds.setup.cfg, hrounds.setup.currentTti⟩

/-- An entry whose TTI no other one has is the one that is granted. -/
theorem sameTti_single (hi : i < schedMaxPendingRar)
    (hone : (s.sameTti (s.pendingRar i).rarTti).length = 1) :
    s.sameTti (s.pendingRar i).rarTti = [i] := by
  obtain ⟨k, hk⟩ := List.length_eq_one_iff.mp hone
  have hmem : i ∈ s.sameTti (s.pendingRar i).rarTti := by
    simp [sameTti, hi]
  rw [hk, List.mem_singleton] at hmem
  rw [hk, hmem]

theorem rarSched_table (hi : i < schedMaxPendingRar) (hone : AnswersOne st i) :
    (rarSched lib st i).1.pendingRar =
      if st.1.Answers i ∨ st.1.Discards i then
        Function.update st.1.pendingRar i (st.1.pendingRar i).cleared
      else st.1.pendingRar := by
  obtain ⟨s, out⟩ := st
  by_cases h : s.Answers i
  · obtain ⟨rar, -, -, -, -, -, -, -, htable⟩ := rarSched_answers lib out hi h
    have hself := sameTti_single hi (hone h)
    rw [htable, if_pos (Or.inl h)]
    unfold answerOf
    rw [hself]
    rfl
  · rw [(rarSched_silent lib out h).2.2]
    simp only [h, false_or]
    rfl

theorem rarSched_other (hi : i < schedMaxPendingRar) (hone : AnswersOne st i) (hj : j ≠ i) :
    (rarSched lib st i).1.pendingRar j = st.1.pendingRar j := by
  rw [rarSched_table lib hi hone]
  split_ifs
  · rw [Function.update_of_ne hj]
  · rfl

theorem rarSched_announces (hi : i < schedMaxPendingRar) (hone : AnswersOne st i) :
    ∃ rars, (rarSched lib st i).2.done = st.2.done ++ rars ∧
      List.Forall₂ (Announces st.1.pendingRar) (if st.1.Answers i then [i] else []) rars := by
  obtain ⟨s, out⟩ := st
  by_cases h : s.Answers i
  · obtain ⟨rar, hdone, hgrant, hnof, hrarnti, -⟩ := rarSched_answers lib out hi h
    have hself := sameTti_single hi (hone h)
    refine ⟨[rar], hdone, ?_⟩
    rw [if_pos h]
    refine List.Forall₂.cons ⟨h.1, ?_, hrarnti, ?_⟩ List.Forall₂.nil
    · rw [hgrant]
      unfold rarGrantOf answerOf
      rw [hself]
      rfl
    · rw [hnof]
      exact hone h
  · refine ⟨[], by rw [(rarSched_silent lib out h).1, List.append_nil], ?_⟩
    rw [if_neg h]
    exact List.Forall₂.nil

/-! ## All rounds -/

/-- What the rounds of a list do to the table and to the result. -/
structure Served (st st' : Sched × Elems DlSchedRar) (as ds : List Nat) : Prop where
  elems : ∃ rars, st'.2.done = st.2.done ++ rars ∧
    List.Forall₂ (Announces st.1.pendingRar) as rars
  table : ∀ j, st'.1.pendingRar j =
    if j ∈ as ∨ j ∈ ds then (st.1.pendingRar j).cleared else st.1.pendingRar j
  pending : ∀ j, j ∈ as ∨ j ∈ ds → (st.1.pendingRar j).bufRar > 0
  inWindow : ∀ j ∈ as, st.1.inRarWindow (st.1.pendingRar j) = true
  outside : ∀ j ∈ ds, st.1.inRarWindow (st.1.pendingRar j) = false

theorem answered_sublist : ∀ (l : List Nat) (st : Sched × Elems DlSchedRar),
    (answered lib l st).Sublist l
  | [], _ => List.Sublist.slnil
  | i :: l, st => by
    have ih := answered_sublist l (rarSched lib st i)
    unfold answered
    split_ifs
    · exact ih.cons_cons i
    · exact ih.cons i

theorem discarded_sublist : ∀ (l : List Nat) (st : Sched × Elems DlSchedRar),
    (discarded lib l st).Sublist l
  | [], _ => List.Sublist.slnil
  | i :: l, st => by
    have ih := discarded_sublist l (rarSched lib st i)
    unfold discarded
    split_ifs
    · exact ih.cons_cons i
    · exact ih.cons i

theorem mem_answered_cons (st : Sched × Elems DlSchedRar) (i j : Nat) (l : List Nat) :
    j ∈ answered lib (i :: l) st ↔
      j = i ∧ st.1.Answers i ∨ j ∈ answered lib l (rarSched lib st i) := by
  rw [answered]
  split_ifs with ha <;> simp [ha]

theorem mem_discarded_cons (st : Sched × Elems DlSchedRar) (i j : Nat) (l : List Nat) :
    j ∈ discarded lib (i :: l) st ↔
      j = i ∧ st.1.Discards i ∨ j ∈ discarded lib l (rarSched lib st i) := by
  rw [discarded]
  split_ifs with hd <;> simp [hd]

theorem inRarWindow_rarSched (st : Sched × Elems DlSchedRar) (i : Nat) (r : SchedRar) :
    (rarSched lib st i).1.inRarWindow r = st.1.inRarWindow r := by
  obtain ⟨hcfg, htti⟩ := rarSched_setup lib st i
  unfold inRarWindow
  rw [hcfg, htti]

theorem announces_congr {table table' : Nat → SchedRar} {as : List Nat} {rars : List DlSchedRar}
    (hsame : ∀ j ∈ as, table' j = table j) (h : List.Forall₂ (Announces table') as rars) :
    List.Forall₂ (Announces table) as rars := by
  induction h with
  | nil => exact List.Forall₂.nil
  | @cons j rar as rars hd _ ih =>
    have hj := hsame j List.mem_cons_self
    obtain ⟨hpending, hra, hrarnti, hnof⟩ := hd
    rw [hj] at hpending hra hrarnti
    exact List.Forall₂.cons ⟨hpending, hra, hrarnti, hnof⟩
      (ih fun k hk => hsame k (List.mem_cons_of_mem _ hk))

/-- Rounds that each answer one entry at most. Each entry is as it was until its own round. -/
theorem served : ∀ {l : List Nat} {st : Sched × Elems DlSchedRar}, l.Nodup →
    (∀ i ∈ l, i < schedMaxPendingRar) → AllSteps (rarSched lib) AnswersOne st l →
    Served st (l.foldl (rarSched lib) st) (answered lib l st) (discarded lib l st)
  | [], st, _, _, _ => by
    refine ⟨⟨[], by simp, List.Forall₂.nil⟩, ?_, ?_, ?_, ?_⟩ <;> simp [answered, discarded]
  | i :: l, st, hnd, hlt, hone => by
    obtain ⟨hi, hnd⟩ := List.nodup_cons.mp hnd
    have hi8 := hlt i List.mem_cons_self
    obtain ⟨⟨rars, hdone, hann⟩, htable, hpending, hwin, hout⟩ := served hnd
      (fun k hk => hlt k (List.mem_cons_of_mem i hk)) hone.2
    obtain ⟨new, hnew, hannNew⟩ := rarSched_announces lib hi8 hone.1
    have hround := rarSched_table lib hi8 hone.1
    have hnotA : i ∉ answered lib l (rarSched lib st i) :=
      fun h => hi ((answered_sublist lib l _).subset h)
    have hnotD : i ∉ discarded lib l (rarSched lib st i) :=
      fun h => hi ((discarded_sublist lib l _).subset h)
    have hkept : ∀ j, j ∈ answered lib l (rarSched lib st i) ∨
        j ∈ discarded lib l (rarSched lib st i) →
        (rarSched lib st i).1.pendingRar j = st.1.pendingRar j := by
      intro j hj
      refine rarSched_other lib hi8 hone.1 ?_
      rintro rfl
      exact hj.elim hnotA hnotD
    refine ⟨⟨new ++ rars, ?_, ?_⟩, ?_, ?_, ?_, ?_⟩
    · rw [List.foldl_cons, hdone, hnew, List.append_assoc]
    · exact List.rel_append hannNew (announces_congr (fun j hj => hkept j (Or.inl hj)) hann)
    · intro j
      rw [List.foldl_cons, htable j]
      simp only [mem_answered_cons, mem_discarded_cons]
      by_cases hj : j = i
      · subst hj
        rw [if_neg (not_or_intro hnotA hnotD), hround]
        simp only [hnotA, hnotD, true_and, or_false]
        split_ifs <;> simp
      · rw [rarSched_other lib hi8 hone.1 hj]
        simp only [hj, false_and, false_or]
    · intro j hj
      rw [mem_answered_cons, mem_discarded_cons] at hj
      rcases hj with (⟨rfl, ha⟩ | hj) | ⟨rfl, hd⟩ | hj
      · exact ha.1
      · rw [← hkept j (Or.inl hj)]
        exact hpending j (Or.inl hj)
      · exact hd.1
      · rw [← hkept j (Or.inr hj)]
        exact hpending j (Or.inr hj)
    · intro j hj
      rcases (mem_answered_cons lib st i j l).mp hj with ⟨rfl, ha⟩ | hj
      · exact ha.2.2.1
      · have hw := hwin j hj
        rwa [hkept j (Or.inl hj), inRarWindow_rarSched] at hw
    · intro j hj
      rcases (mem_discarded_cons lib st i j l).mp hj with ⟨rfl, hd⟩ | hj
      · exact hd.2.2
      · have hw := hout j hj
        rwa [hkept j (Or.inr hj), inRarWindow_rarSched] at hw

theorem nofGrants_of_mem {table : Nat → SchedRar} {as : List Nat} {rars : List DlSchedRar}
    (h : List.Forall₂ (Announces table) as rars) {rar : DlSchedRar} (hrar : rar ∈ rars) :
    rar.nofGrants = 1 := by
  induction h with
  | nil => cases hrar
  | cons hd _ ih =>
    rcases List.mem_cons.mp hrar with rfl | hrest
    · exact hd.nofGrants
    · exact ih hrest

/-! ## The condition -/

theorem answersOne_iff (l : List Nat) (st : Sched × Elems DlSchedRar) :
    AllSteps (rarSched lib) AnswersOne st l ↔ ∀ a ∈ answers lib l st, a.nofSame = 1 := by
  induction l generalizing st with
  | nil => simp [AllSteps, answers]
  | cons i l ih =>
    simp only [AllSteps, answers, List.forall_mem_append, ih]
    refine and_congr_left fun _ => ?_
    unfold AnswersOne
    split_ifs with ha
    · simp [ha, answerOf]
    · simp [ha]

/-- A discarded entry is judged in its round as in the first one. -/
theorem discardsLate_iff : ∀ {l : List Nat} {st : Sched × Elems DlSchedRar}, l.Nodup →
    (∀ i ∈ l, i < schedMaxPendingRar) → AllSteps (rarSched lib) AnswersOne st l →
    (AllSteps (rarSched lib) DiscardsLate st l ↔
      ∀ j ∈ discarded lib l st, st.1.WindowPassed (st.1.pendingRar j))
  | [], _, _, _, _ => by simp [AllSteps, discarded]
  | i :: l, st, hnd, hlt, hone => by
    obtain ⟨hi, hnd⟩ := List.nodup_cons.mp hnd
    obtain ⟨hcfg, htti⟩ := rarSched_setup lib st i
    have hrest : ∀ j ∈ discarded lib l (rarSched lib st i),
        ((rarSched lib st i).1.WindowPassed ((rarSched lib st i).1.pendingRar j) ↔
          st.1.WindowPassed (st.1.pendingRar j)) := by
      intro j hj
      have hji : j ≠ i := fun h => hi (h ▸ (discarded_sublist lib l _).subset hj)
      unfold WindowPassed
      rw [hcfg, htti, rarSched_other lib (hlt i List.mem_cons_self) hone.1 hji]
    rw [AllSteps, discardsLate_iff hnd (fun k hk => hlt k (List.mem_cons_of_mem i hk)) hone.2,
      forall₂_congr hrest]
    simp only [discarded, List.forall_mem_append]
    refine and_congr_left fun _ => ?_
    unfold DiscardsLate
    split_ifs with hd <;> simp [hd]

/-- The window of an entry that is answered is not over. -/
theorem not_passed_of_inRarWindow {r : SchedRar} (h : s.inRarWindow r = true) :
    ¬ s.WindowPassed r := by
  simp only [inRarWindow, Bool.and_eq_true, decide_eq_true_eq] at h
  have hle := Nat.mod_le (r.rarTti + s.cfg.prachRarWindow + 3) 10240
  have hd : s.currentTti + 10240 - r.rarTti = (s.currentTti - r.rarTti) + 10240 := by omega
  unfold WindowPassed
  rw [hd, Nat.add_mod_right]
  have := Nat.mod_le (s.currentTti - r.rarTti) 10240
  omega

theorem answersOne_of_backed (lib : Lib) (s : Sched) (h : s.RarBacked lib) :
    AllSteps (rarSched lib) AnswersOne (s, ⟨[], default⟩) (List.range schedMaxPendingRar) := by
  obtain ⟨slots, -, -, hann, -⟩ := h
  rw [answersOne_iff]
  intro a ha
  have hmem : (s.rarGrantOf lib a, a.nofSame) ∈
      (s.dlSchedRar lib).2.map fun rar => (rar.grant, rar.nofGrants) := by
    rw [(dlSchedRar_spec lib s).1]
    exact List.mem_map_of_mem ha
  obtain ⟨rar, hrar, heq⟩ := List.mem_map.mp hmem
  rw [← (Prod.mk.inj heq).2]
  exact nofGrants_of_mem hann hrar

/-- An entry that is answered or discarded and whose window is not over has an element. -/
theorem mem_slots {st' : Sched × Elems DlSchedRar} {as ds slots : List Nat}
    (h : Served (s, ⟨[], default⟩) st' as ds)
    (htable : ∀ i < schedMaxPendingRar, st'.1.pendingRar i = s.pendingRar i ∨
      st'.1.pendingRar i = (s.pendingRar i).cleared ∧
        (i ∈ slots ∨ s.WindowPassed (s.pendingRar i)))
    {j : Nat} (hj : j < schedMaxPendingRar) (hserved : j ∈ as ∨ j ∈ ds)
    (hnot : ¬ s.WindowPassed (s.pendingRar j)) : j ∈ slots := by
  have hbuf := h.pending j hserved
  have hcleared := h.table j
  rw [if_pos hserved] at hcleared
  rcases htable j hj with hsame | ⟨-, hslot | hlate⟩
  · have heq : s.pendingRar j = (s.pendingRar j).cleared := hsame.symm.trans hcleared
    simp only at hbuf
    rw [heq] at hbuf
    exact absurd hbuf (lt_irrefl 0)
  · exact hslot
  · exact absurd hlate hnot

theorem discardsLate_of_backed (lib : Lib) (s : Sched) (h : s.RarBacked lib) :
    AllSteps (rarSched lib) DiscardsLate (s, ⟨[], default⟩) (List.range schedMaxPendingRar) := by
  have hlt : ∀ i ∈ List.range schedMaxPendingRar, i < schedMaxPendingRar :=
    fun i hi => List.mem_range.mp hi
  have hone := answersOne_of_backed lib s h
  obtain ⟨slots, hnd, -, hann, htable⟩ := h
  have hserved := served lib List.nodup_range hlt hone
  obtain ⟨as, has⟩ : ∃ as,
    answered lib (List.range schedMaxPendingRar) (s, ⟨[], default⟩) = as := ⟨_, rfl⟩
  have hsub : as.Sublist (List.range schedMaxPendingRar) := has ▸ answered_sublist lib _ _
  refine (discardsLate_iff lib List.nodup_range hlt hone).mpr fun i hi => ?_
  rw [has] at hserved
  by_contra hpassed
  -- The entries answered and this one are all accounted for by as many elements as answers.
  have hneed : ∀ j ∈ i :: as, j ∈ slots := by
    intro j hj
    rcases List.mem_cons.mp hj with rfl | hja
    · exact mem_slots hserved htable (hlt j ((discarded_sublist lib _ _).subset hi)) (Or.inr hi)
        hpassed
    · exact mem_slots hserved htable (hlt j (hsub.subset hja)) (Or.inl hja)
        (not_passed_of_inRarWindow (hserved.inWindow j hja))
  have hnodup : (i :: as).Nodup := by
    refine List.nodup_cons.mpr ⟨fun hia => ?_, hsub.nodup List.nodup_range⟩
    have hin := hserved.inWindow i hia
    rw [hserved.outside i hi] at hin
    cases hin
  have hle := (List.subperm_of_subset hnodup hneed).length_le
  obtain ⟨rars, hdone, hann'⟩ := hserved.elems
  have hlen : slots.length = as.length := by
    have hres : (s.dlSchedRar lib).2 = rars := hdone
    rw [hann.length_eq, hann'.length_eq, hres]
  rw [List.length_cons] at hle
  omega

/-- **The grants of `dl_sched_rar`.** They are for pending preambles, one for each element, if and
only if each round that answers finds one entry with its TTI and each round that discards comes
after the window. -/
theorem rar_backed_iff (lib : Lib) (s : Sched) :
    s.RarBacked lib ↔
      AllSteps (rarSched lib) AnswersOne (s, ⟨[], default⟩) (List.range schedMaxPendingRar) ∧
        AllSteps (rarSched lib) DiscardsLate (s, ⟨[], default⟩)
          (List.range schedMaxPendingRar) := by
  have hlt : ∀ i ∈ List.range schedMaxPendingRar, i < schedMaxPendingRar :=
    fun i hi => List.mem_range.mp hi
  constructor
  · exact fun h => ⟨answersOne_of_backed lib s h, discardsLate_of_backed lib s h⟩
  · rintro ⟨hone, hlate⟩
    obtain ⟨⟨rars, hdone, hann⟩, htable, -, -, -⟩ := served lib List.nodup_range hlt hone
    rw [discardsLate_iff lib List.nodup_range hlt hone] at hlate
    have hsub := answered_sublist lib (List.range schedMaxPendingRar) (s, ⟨[], default⟩)
    refine ⟨_, hsub.nodup List.nodup_range, fun i hi => hlt i (hsub.subset hi), ?_, fun i _ => ?_⟩
    · have hres : (s.dlSchedRar lib).2 = rars := hdone
      rw [hres]
      exact hann
    · have hi := htable i
      split_ifs at hi with hserved
      · exact Or.inr ⟨hi, hserved.imp_right fun h => hlate i h⟩
      · exact Or.inl hi

/-- Two preambles of one TTI: the element counts two grants and one of them is filled. -/
def twoPreambles : Sched :=
  ((({ exampleSched with
    cfg := { exampleCell with prachRarWindow := 10 }, availRbg := 6, currentTti := 7, sfIdx := 7,
    currentCfi := 3, rarAggrLevel := 2 } : Sched).dlRachInfo 1 0 70 7).1.dlRachInfo 1 1 71 7).1

theorem not_backed_twoPreambles : ¬ twoPreambles.RarBacked exampleLib := by
  rintro ⟨slots, -, -, hann, -⟩
  have hone : ∀ rar ∈ (twoPreambles.dlSchedRar exampleLib).2, rar.nofGrants = 1 :=
    fun rar hrar => nofGrants_of_mem hann hrar
  exact absurd hone (by decide +kernel)

end Sched

end Srsenb.Mac
