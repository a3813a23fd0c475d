import Srsenb.Base.Run
import Srsenb.Mac.DlRounds
import Srsenb.Upper.Paging

/-! # Paging is not lost

A record is taken out of the pending ones when it is encoded, before `dl_sched_bc` looks for the
resources of the message. -/

open Srsenb.Run Srsenb.Mac

namespace Srsenb.Rrc

/-- The pending records, and the ones given that were in no message sent since. -/
structure PagingRun where
  pending : PendingPaging := ∅
  owed : List (Nat × UePagingId) := []

/-- A subframe may find the scheduler in any state. -/
inductive PagingEvent where
  | addPagingId (ueid : Nat) (p : UePagingId)
  | dlSched (s : Sched) (tti : Nat)

/-- A PCCH grant was emitted. -/
def pcchSent (res : DlSchedRes) : Bool := res.bc.any fun b => b.type = .pcch

/-! ## The records encoded -/

section

variable {cfg : PagingCfg} {tti : Nat} {pending : PendingPaging}

theorem assemble_eq (its : List (Nat × UePagingId)) (n : Nat) :
    assemble cfg tti its n =
      (its.filter fun it => isDue cfg tti it.1).take (cfg.maxPageRec - n) := by
  induction its generalizing n with
  | nil => simp [assemble]
  | cons it its ih =>
    unfold assemble
    by_cases hn : n < cfg.maxPageRec
    · rw [if_pos hn]
      by_cases hdue : isDue cfg tti it.1 = true
      · rw [if_pos hdue, ih, List.filter_cons, if_pos hdue,
          show cfg.maxPageRec - n = cfg.maxPageRec - (n + 1) + 1 by omega, List.take_succ_cons]
      · rw [if_neg hdue, ih, List.filter_cons, if_neg hdue]
    · rw [if_neg hn, Nat.sub_eq_zero_of_le (by omega), List.take_zero]

theorem isDue_mod (ueid : Nat) : isDue cfg tti (ueid % 1024) = isDue cfg tti ueid := by
  unfold isDue
  rw [Nat.mod_mod]

theorem sorted_toList (m : PendingPaging) : m.toList.Pairwise fun a b => a.1 < b.1 := by
  have h := m.sorted_keys
  rw [← Std.ExtTreeMap.map_fst_toList_eq_keys, List.pairwise_map] at h
  exact h

theorem encoded_of_le {k j : Nat} {p q : UePagingId} (hk : pending[k]? = some p)
    (hj : (j, q) ∈ assemble cfg tti pending.toList 0) (hle : k ≤ j)
    (hdue : isDue cfg tti k = true) : (k, p) ∈ assemble cfg tti pending.toList 0 := by
  rw [assemble_eq] at hj ⊢
  have hmem : (k, p) ∈ pending.toList.filter fun it => isDue cfg tti it.1 :=
    List.mem_filter.mpr ⟨Std.ExtTreeMap.mem_toList_iff_getElem?_eq_some.mpr hk, hdue⟩
  have hsorted := (sorted_toList pending).sublist
    (List.filter_sublist (p := fun it => isDue cfg tti it.1))
  rw [← List.take_append_drop (cfg.maxPageRec - 0)
    (pending.toList.filter fun it => isDue cfg tti it.1)] at hmem hsorted
  rcases List.mem_append.mp hmem with h | h
  · exact h
  · have hlt : j < k := (List.pairwise_append.mp hsorted).2.2 _ hj _ h
    omega

theorem encoded_pending {it : Nat × UePagingId} (h : it ∈ assemble cfg tti pending.toList 0) :
    pending[it.1]? = some it.2 ∧ isDue cfg tti it.1 = true := by
  rw [assemble_eq] at h
  obtain ⟨hmem, hdue⟩ := List.mem_filter.mp (List.mem_of_mem_take h)
  exact ⟨Std.ExtTreeMap.mem_toList_iff_getElem?_eq_some.mp hmem, hdue⟩

/-- Some entry that is removed is encoded. -/
def SomeDue (cfg : PagingCfg) (pending : PendingPaging) (tti : Nat) : Prop :=
  0 < cfg.maxPageRec ∧ ∃ k < 1024, pending[k]?.isSome = true ∧ isDue cfg tti k = true

theorem someDue_iff : SomeDue cfg pending tti ↔
    ∃ it ∈ assemble cfg tti pending.toList 0, it.1 < 1024 := by
  constructor
  · rintro ⟨hpos, k, hk, hthere, hdue⟩
    obtain ⟨p, hp⟩ := Option.isSome_iff_exists.mp hthere
    have hmem : (k, p) ∈ pending.toList.filter fun it => isDue cfg tti it.1 :=
      List.mem_filter.mpr ⟨Std.ExtTreeMap.mem_toList_iff_getElem?_eq_some.mpr hp, hdue⟩
    have hsorted := (sorted_toList pending).sublist
      (List.filter_sublist (p := fun it => isDue cfg tti it.1))
    rw [assemble_eq]
    -- The first entry that is due has the lowest key.
    cases hl : pending.toList.filter fun it => isDue cfg tti it.1 with
    | nil =>
      rw [hl] at hmem
      cases hmem
    | cons it its =>
      rw [hl] at hmem hsorted
      obtain ⟨m, hm⟩ := Nat.exists_eq_succ_of_ne_zero (n := cfg.maxPageRec - 0) (by omega)
      refine ⟨it, by rw [hm, List.take_succ_cons]; exact List.mem_cons_self, ?_⟩
      rcases List.mem_cons.mp hmem with rfl | h
      · exact hk
      · exact Nat.lt_trans ((List.pairwise_cons.mp hsorted).1 _ h) hk
  · rintro ⟨it, hit, hlt⟩
    obtain ⟨hget, hdue⟩ := encoded_pending hit
    refine ⟨?_, it.1, hlt, by simp [hget], hdue⟩
    by_contra h0
    rw [assemble_eq, Nat.eq_zero_of_not_pos h0] at hit
    simp at hit

theorem getElem?_removePaging (its : List (Nat × UePagingId)) (m : PendingPaging) (k : Nat) :
    (removePaging m its)[k]? = if ∃ it ∈ its, it.1 % 1024 = k then none else m[k]? := by
  unfold removePaging
  induction its generalizing m with
  | nil => simp
  | cons it its ih =>
    rw [List.foldl_cons, ih, StdMap.getElem?_erase]
    simp only [List.exists_mem_cons_iff]
    by_cases h : it.1 % 1024 = k
    · simp [h]
    · simp only [h, false_or, if_false]

/-- An entry goes if and only if it is encoded, and its key has 10 bits. -/
theorem removed_iff {k : Nat} {p : UePagingId} (hk : pending[k]? = some p) :
    (∃ it ∈ assemble cfg tti pending.toList 0, it.1 % 1024 = k) ↔
      (k, p) ∈ assemble cfg tti pending.toList 0 ∧ k < 1024 := by
  constructor
  · rintro ⟨⟨j, q⟩, hj, rfl⟩
    refine ⟨encoded_of_le hk hj (Nat.mod_le _ _) ?_, Nat.mod_lt _ (by omega)⟩
    rw [isDue_mod]
    exact (encoded_pending hj).2
  · rintro ⟨h, hlt⟩
    exact ⟨_, h, Nat.mod_eq_of_lt hlt⟩

end

/-! ## The grant -/

section

variable (lib : Lib) {cfg : PagingCfg}

/-- The scheduler and its results after the SIBs of the subframe. -/
def afterSibs (s : Sched) (tti : Nat) : Sched × Elems DlSchedBc :=
  let s := (s.dlStart tti).cfg.sibs.zipIdx.foldl (Sched.sibWindow lib) (s.dlStart tti)
  s.cfg.sibs.zipIdx.foldl (Sched.sibSched lib) (s, ⟨[], default⟩)

/-- The SIBs leave more than `si_n_rbg` RBGs and a candidate of the common search space whose
CCEs are all free. -/
def RoomForPaging (s : Sched) (tti : Nat) : Prop :=
  let s := (afterSibs lib s tti).1
  let loc := s.commonLocations (s.currentCfi - 1)
  s.siNRbg < s.availRbg ∧ ∃ cand < loc.nofLoc s.bcAggrLevel,
    s.cce.firstUsed (loc.cceStart s.bcAggrLevel cand) s.bcAggrLevel = none

theorem sibSched_bcch {st : Sched × Elems DlSchedBc} (it : SibCfg × Nat)
    (h : ∀ b ∈ st.2.done, b.type = .bcch) :
    ∀ b ∈ (Sched.sibSched lib st it).2.done, b.type = .bcch := by
  intro b hb
  rcases Sched.sibSched_new lib st it b hb with hb | ⟨hblock, -⟩
  · exact h b hb
  · exact hblock.type

theorem sibScheds_bcch (its : List (SibCfg × Nat)) {st : Sched × Elems DlSchedBc}
    (h : ∀ b ∈ st.2.done, b.type = .bcch) :
    ∀ b ∈ (its.foldl (Sched.sibSched lib) st).2.done, b.type = .bcch := by
  induction its generalizing st with
  | nil => exact h
  | cons it its ih => exact ih (sibSched_bcch lib it h)

theorem afterSibs_bcch (s : Sched) (tti : Nat) :
    ∀ b ∈ (afterSibs lib s tti).2.done, b.type = .bcch :=
  sibScheds_bcch lib _ (by simp)

theorem generateFormat1a_pos {rbStart lCrb payload rv : Nat} {dci : DlDci} (h : payload ≠ 0) :
    0 < (Sched.generateFormat1a lib rbStart lCrb payload rv dci).1 :=
  lt_of_lt_of_le (by omega) (Sched.generateFormat1a_le lib rbStart lCrb payload rv dci)

/-- The paging part emits its grant if and only if there is room for it. -/
theorem pagingSched_sent (st : Sched × Elems DlSchedBc) {payload : Nat} (hpay : payload ≠ 0)
    (hbc : ∀ b ∈ st.2.done, b.type = .bcch) :
    ((Sched.pagingSched lib (some payload) st).2.done.any fun b => b.type = .pcch) = true ↔
      st.1.siNRbg < st.1.availRbg ∧ (st.1.generateDci lib
        (st.1.commonLocations (st.1.currentCfi - 1)) st.1.bcAggrLevel
        fun _ => false).1.isSome = true := by
  obtain ⟨s, out⟩ := st
  have hno : (out.done.any fun b => b.type = .pcch) = false := by
    rw [List.any_eq_false]
    intro b hb
    simp [hbc b hb]
  unfold Sched.pagingSched
  simp only [ne_eq, hpay, not_false_eq_true, and_true, gt_iff_lt]
  by_cases hav : s.siNRbg < s.availRbg
  · rw [if_pos hav]
    split
    · rename_i h
      simp [hno, h]
    · rename_i loc s1 h
      rw [if_pos (generateFormat1a_pos lib hpay)]
      simp [Elems.push, hav, h]
  · simp [hav, hno]

/-- `dl_sched` sends the message that RRC encoded if and only if there is room for it. -/
theorem dlSched_pcchSent {s : Sched} (tti : Nat) {payload : Nat} (hconf : s.configured = true)
    (hpay : payload ≠ 0) :
    pcchSent (s.dlSched lib tti (some payload)).2 = true ↔ RoomForPaging lib s tti := by
  have h := pagingSched_sent lib (afterSibs lib s tti) hpay (afterSibs_bcch lib s tti)
  rw [Sched.generateDci_isSome] at h
  unfold RoomForPaging
  simp only [true_and] at h
  rw [← h]
  unfold pcchSent Sched.dlSched
  rw [if_neg (by simp [hconf])]
  rfl

end

/-! ## Every run -/

namespace PagingRun

variable (lib : Lib) (cfg : PagingCfg)

/-- A message that is sent settles its records. -/
def step (r : PagingRun) : PagingEvent → PagingRun
  | .addPagingId ueid p =>
    { pending := addPagingId r.pending ueid p, owed := (ueid, p) :: r.owed }
  | .dlSched s tti =>
    let (pending, encoded, res) := dlSchedPaging lib cfg r.pending s tti
    { pending := pending
      owed := if pcchSent res then r.owed.filter (· ∉ encoded) else r.owed }

/-- Each record given is pending, or was in a message sent since. -/
def Kept (r : PagingRun) : Prop := ∀ it ∈ r.owed, r.pending[it.1]? = some it.2

/-- No other UE is pending under the key. When a record is due, there is room for the message. -/
def Allowed (r : PagingRun) : PagingEvent → Prop
  | .addPagingId ueid p => ∀ q ∈ r.pending[ueid]?, q = p
  | .dlSched s tti =>
    s.configured = true → SomeDue cfg r.pending tti → RoomForPaging lib s tti

/-- A pending record of a 10-bit key was given, and in no message sent since. -/
def Given (r : PagingRun) : Prop :=
  ∀ (k : Nat) (p : UePagingId), r.pending[k]? = some p → k < 1024 → (k, p) ∈ r.owed

variable {lib cfg} {r : PagingRun}

theorem addPagingId_kept {ueid : Nat} {p : UePagingId} (hK : r.Kept) (hG : r.Given) :
    ((∀ q ∈ r.pending[ueid]?, q = p) →
      (r.step lib cfg (.addPagingId ueid p)).Kept ∧ (r.step lib cfg (.addPagingId ueid p)).Given) ∧
    (¬ (∀ q ∈ r.pending[ueid]?, q = p) → ¬ (r.step lib cfg (.addPagingId ueid p)).Kept) := by
  cases hq : r.pending[ueid]? with
  | none =>
    have hstep : r.step lib cfg (.addPagingId ueid p) =
        ⟨r.pending.insert ueid p, (ueid, p) :: r.owed⟩ := by
      unfold step addPagingId
      simp only [hq, Option.isNone_none, if_true]
    rw [hstep]
    refine ⟨fun _ => ⟨?_, ?_⟩, fun h => absurd (by simp) h⟩
    · intro it hit
      rw [StdMap.getElem?_insert]
      rcases List.mem_cons.mp hit with rfl | howed
      · rw [if_pos rfl]
      · have hne : ueid ≠ it.1 := by
          rintro rfl
          rw [hK it howed] at hq
          cases hq
        rw [if_neg hne, hK it howed]
    · intro k p' hp' hk
      rw [StdMap.getElem?_insert] at hp'
      split_ifs at hp' with hkey
      · rw [← hkey, ← Option.some.inj hp']
        exact List.mem_cons_self
      · exact List.mem_cons_of_mem _ (hG k p' hp' hk)
  | some q =>
    have hstep : r.step lib cfg (.addPagingId ueid p) = ⟨r.pending, (ueid, p) :: r.owed⟩ := by
      unfold step addPagingId
      simp only [hq, Option.isNone_some, Bool.false_eq_true, if_false]
    rw [hstep]
    simp only [Option.mem_some_iff, forall_eq']
    constructor
    · rintro rfl
      refine ⟨?_, fun k p' hp' hk => List.mem_cons_of_mem _ (hG k p' hp' hk)⟩
      intro it hit
      rcases List.mem_cons.mp hit with rfl | howed
      · exact hq
      · exact hK it howed
    · intro hne hK'
      have := hK' (ueid, p) List.mem_cons_self
      rw [hq] at this
      exact hne (Option.some.inj this)

/-- A subframe that asks RRC: the records encoded are settled if there is room for them. -/
theorem step_dlSched (lib : Lib) (cfg : PagingCfg) (r : PagingRun) {s : Sched} (tti : Nat)
    (hconf : s.configured = true) :
    (r.step lib cfg (.dlSched s tti)).pending =
      removePaging r.pending (assemble cfg tti r.pending.toList 0) ∧
    (RoomForPaging lib s tti → ∀ it, it ∈ (r.step lib cfg (.dlSched s tti)).owed ↔
      it ∈ r.owed ∧ it ∉ assemble cfg tti r.pending.toList 0) ∧
    (¬ RoomForPaging lib s tti → (r.step lib cfg (.dlSched s tti)).owed = r.owed) := by
  obtain ⟨encoded, henc⟩ : ∃ encoded, assemble cfg tti r.pending.toList 0 = encoded := ⟨_, rfl⟩
  rw [henc]
  by_cases hnil : encoded = []
  · have hout : dlSchedPaging lib cfg r.pending s tti =
        (removePaging r.pending encoded, encoded, (s.dlSched lib tti none).2) := by
      unfold dlSchedPaging isPagingOpportunity
      simp [hconf, henc, hnil]
    unfold step
    simp only [hout]
    simp [hnil]
  · obtain ⟨n, hout⟩ : ∃ n, dlSchedPaging lib cfg r.pending s tti =
        (removePaging r.pending encoded, encoded, (s.dlSched lib tti (some (n + 1))).2) := by
      unfold dlSchedPaging isPagingOpportunity
      simp only [hconf, henc, if_pos (List.length_pos_of_ne_nil hnil), Bool.not_true,
        Bool.false_eq_true, if_false]
      exact ⟨_, rfl⟩
    have hsent := dlSched_pcchSent lib tti hconf (Nat.succ_ne_zero n)
    unfold step
    simp only [hout]
    refine ⟨trivial, fun hroom it => ?_, fun hroom => ?_⟩
    · rw [if_pos (hsent.mpr hroom), List.mem_filter]
      simp
    · rw [if_neg fun h => hroom (hsent.mp h)]

theorem step_dlSched_off {s : Sched} {tti : Nat} (hconf : ¬ s.configured = true) :
    r.step lib cfg (.dlSched s tti) = r := by
  have hout : dlSchedPaging lib cfg r.pending s tti = (r.pending, [], {}) := by
    unfold dlSchedPaging
    rw [if_pos (by simpa using hconf)]
  unfold step
  simp only [hout]
  rw [if_neg (by simp [pcchSent])]

theorem dlSched_kept {s : Sched} {tti : Nat} (hK : r.Kept) (hG : r.Given) :
    (r.Allowed lib cfg (.dlSched s tti) →
      (r.step lib cfg (.dlSched s tti)).Kept ∧ (r.step lib cfg (.dlSched s tti)).Given) ∧
    (¬ r.Allowed lib cfg (.dlSched s tti) → ¬ (r.step lib cfg (.dlSched s tti)).Kept) := by
  by_cases hconf : s.configured = true
  · obtain ⟨hpend, hsent, hnot⟩ := step_dlSched lib cfg r tti hconf
    -- An entry that was pending stays unless it is encoded.
    have hget : ∀ (k : Nat) (p : UePagingId), r.pending[k]? = some p →
        ((r.step lib cfg (.dlSched s tti)).pending[k]? = some p ↔
          ¬ ((k, p) ∈ assemble cfg tti r.pending.toList 0 ∧ k < 1024)) := by
      intro k p hk
      rw [hpend, getElem?_removePaging, ← removed_iff hk]
      split_ifs with h
      · simp [h]
      · simp [h, hk]
    have hG' : ∀ (k : Nat) (p : UePagingId),
        (r.step lib cfg (.dlSched s tti)).pending[k]? = some p →
        k < 1024 → (k, p) ∈ r.owed ∧ (k, p) ∉ assemble cfg tti r.pending.toList 0 := by
      intro k p hp hk
      have hold : r.pending[k]? = some p := by
        rw [hpend, getElem?_removePaging] at hp
        split_ifs at hp
        exact hp
      exact ⟨hG k p hold hk, fun h => ((hget k p hold).mp hp) ⟨h, hk⟩⟩
    constructor
    · intro hallowed
      by_cases hroom : RoomForPaging lib s tti
      · refine ⟨fun it hit => ?_, fun k p hp hk => (hsent hroom _).mpr (hG' k p hp hk)⟩
        obtain ⟨howed, hit⟩ := (hsent hroom it).mp hit
        exact (hget _ _ (hK it howed)).mpr fun h => hit h.1
      · refine ⟨fun it hit => ?_, fun k p hp hk => by rw [hnot hroom]; exact (hG' k p hp hk).1⟩
        rw [hnot hroom] at hit
        refine (hget _ _ (hK it hit)).mpr fun h => hroom (hallowed hconf ?_)
        exact someDue_iff.mpr ⟨_, h⟩
    · intro hallowed hK'
      unfold Allowed at hallowed
      push Not at hallowed
      obtain ⟨-, hdue, hroom⟩ := hallowed
      obtain ⟨⟨k, p⟩, hmem, hk⟩ := someDue_iff.mp hdue
      have hp := (encoded_pending hmem).1
      have hit := hK' (k, p) (by rw [hnot hroom]; exact hG k p hp hk)
      exact (hget k p hp).mp hit ⟨hmem, hk⟩
  · rw [step_dlSched_off hconf]
    exact ⟨fun _ => ⟨hK, hG⟩, fun h => absurd (fun h' => absurd h' hconf) h⟩

/-- **When paging is not lost.** In a run, each record given is pending or was sent in every state,
if and only if each step is an allowed one. -/
theorem paging_kept_iff (lib : Lib) (cfg : PagingCfg) (es : List PagingEvent) :
    AllStates (step lib cfg) Kept {} es ↔ AllSteps (step lib cfg) (Allowed lib cfg) {} es := by
  have h : AllSteps (step lib cfg) (Allowed lib cfg) {} es ↔
      AllSteps (step lib cfg) (fun _ _ => True) {} es ∧ AllStates (step lib cfg) Kept {} es := by
    refine allSteps_iff (fun _ => Given) ?_ ?_ ?_ ?_
    · intro r e _ hG hK hc
      cases e with
      | addPagingId ueid p =>
        obtain ⟨hK', hG'⟩ := (addPagingId_kept hK hG).1 hc
        exact ⟨trivial, hK', hG'⟩
      | dlSched s tti =>
        obtain ⟨hK', hG'⟩ := (dlSched_kept hK hG).1 hc
        exact ⟨trivial, hK', hG'⟩
    · intro r e _ hG hK hc _
      cases e with
      | addPagingId ueid p => exact (addPagingId_kept hK hG).2 hc
      | dlSched s tti => exact (dlSched_kept hK hG).2 hc
    · intro k p hp
      simp at hp
    · intro it hit
      cases hit
  rw [h]
  exact ⟨fun hK => ⟨AllSteps.trivial _ _, hK⟩, fun h => h.2⟩

/-- A paging cycle of 32 frames with one paging subframe in each, subframe 9. -/
def examplePaging : PagingCfg where
  T := 32
  nb := 32
  maxPageRec := 16
  packPcchMsg records := 8 + 40 * records.length

/-- A scheduler that is to send SIB 2 in subframe 9. -/
def sibDueSched : Sched :=
  { Sched.exampleSched with
    cfg := { Sched.exampleCell with sibs := [{}, { len := 10, periodRf := 8 }], siWindowMs := 20 }
    pendingSibs := fun _ => { isInWindow := true } }

/-- The SIB takes the RBGs that the paging message needs. -/
def sibFirstRun : List PagingEvent :=
  [.addPagingId 0 (.sTmsi 1 #v[0, 0, 0, 7]), .dlSched sibDueSched 9]

theorem paging_lost_sibFirstRun :
    ¬ AllStates (step exampleLib examplePaging) Kept {} sibFirstRun := by
  intro h
  have hlost := h.last (0, .sTmsi 1 #v[0, 0, 0, 7]) (by decide +kernel)
  exact absurd hlost (by decide +kernel)

end PagingRun

end Srsenb.Rrc
