import Mathlib.Data.Finset.Card
import Srsenb.Base.Rounds
import Srsenb.Mac.Cce
import Srsenb.Mac.DlCalls
import Srsenb.Mac.RarGrants
import Srsenb.Mac.RxBuffers

/-! # The arrays of the scheduling results

The results have arrays of fixed sizes, and the loops that fill them check none of these. The model
has lists in their place; this module says at which places each round writes. -/

namespace Srsenb.Mac

open StdMap

/-- `MAX_PHICH_LIST`, `MAX_RAR_LIST`, `MAX_BC_LIST` and the capacity of `grants`. -/
def maxPhichList : Nat := 8
def maxRarList : Nat := 8
def maxBcList : Nat := 8
def maxRarGrants : Nat := 8

/-- `MAX_DATA_LIST`, of the PDSCHs and of the PUSCHs. -/
def maxDataList : Nat := 32

/-- `MAX_RLC_PDU_LIST` -/
def maxRlcPduList : Nat := 8

/-- The element at place `n`: filled, or the next one to be filled. -/
def Elems.place {α : Type} (e : Elems α) (n : Nat) : α := e.done[n]?.getD e.slot

/-- `cce_start` has six places for each aggregation level. -/
def DciCce.Fits (loc : DciCce) : Prop := ∀ L, loc.nofLoc L ≤ 6

/-! ## Candidates -/

/-- The candidates of a level that a used CCE blocks. -/
def CceTable.blocked (t : CceTable) (loc : DciCce) (L : Nat) : Finset Nat :=
  (Finset.range (loc.nofLoc L)).filter fun cand => (t.firstUsed (loc.cceStart L cand) L).isSome

theorem CceTable.card_blocked_le (t : CceTable) (loc : DciCce) (L : Nat) :
    (t.blocked loc L).card ≤ loc.nofLoc L :=
  (Finset.card_filter_le _ _).trans (Finset.card_range _).le

theorem CceTable.firstUsed_isSome {t : CceTable} {ncce L : Nat} :
    (t.firstUsed ncce L).isSome = true ↔ ∃ n, ncce ≤ n ∧ n < ncce + 2 ^ L ∧ t.used n = true := by
  unfold firstUsed
  simp [List.find?_isSome, List.mem_range'_1, and_assoc]

theorem CceTable.Grows.used {t t' : CceTable} (h : t.Grows t') {n : Nat} (hn : t.used n = true) :
    t'.used n = true := by
  induction h with
  | refl => exact hn
  | take _ _ ih =>
    unfold CceTable.take
    simp only
    split_ifs
    · rfl
    · exact ih
  | refuse _ _ ih => exact ih

theorem CceTable.Grows.blocked_subset {t t' : CceTable} (h : t.Grows t') (loc : DciCce) (L : Nat) :
    t.blocked loc L ⊆ t'.blocked loc L := by
  intro cand hcand
  unfold CceTable.blocked at hcand ⊢
  rw [Finset.mem_filter, firstUsed_isSome] at hcand ⊢
  obtain ⟨hlt, n, h1, h2, hn⟩ := hcand
  exact ⟨hlt, n, h1, h2, h.used hn⟩

/-- A DCI takes a candidate that was free. -/
theorem tryCandidates_blocked {loc : DciCce} {L : Nat} {c : Nat → Bool} :
    ∀ {fuel cand : Nat} {t : CceTable}, cand < loc.nofLoc L →
      (tryCandidates loc L c fuel cand t).1.isSome = true →
      (t.blocked loc L).card < ((tryCandidates loc L c fuel cand t).2.blocked loc L).card
  | 0, _, _, _, h => by simp [tryCandidates] at h
  | fuel + 1, cand, t, hcand, h => by
    have hnext : (if cand + 1 = loc.nofLoc L then 0 else cand + 1) < loc.nofLoc L := by
      split_ifs <;> omega
    by_cases hc : c (loc.cceStart L cand) = true
    · simp only [tryCandidates, hc, if_true] at h ⊢
      exact tryCandidates_blocked hnext h
    · simp only [tryCandidates, if_neg hc] at h ⊢
      cases hfirst : t.firstUsed (loc.cceStart L cand) L with
      | some cce =>
        rw [hfirst] at h
        exact tryCandidates_blocked (t := t.refuse cce) hnext h
      | none =>
        have hfree := List.find?_eq_none.mp hfirst
        have hpos : 0 < 2 ^ L := Nat.two_pow_pos L
        have hgrows : t.Grows (t.take (loc.cceStart L cand) L) := by
          refine (CceTable.Grows.refl t).take fun n h1 h2 => ?_
          simpa using hfree n (List.mem_range'_1.mpr ⟨h1, h2⟩)
        refine Finset.card_lt_card ((Finset.ssubset_iff_of_subset
          (hgrows.blocked_subset loc L)).mpr ⟨cand, ?_, ?_⟩)
        · simp only [CceTable.blocked, Finset.mem_filter, Finset.mem_range,
            CceTable.firstUsed_isSome]
          exact ⟨hcand, loc.cceStart L cand, le_rfl, by omega, by simp [CceTable.take, hpos]⟩
        · simp [CceTable.blocked, hfirst]

namespace Sched

variable (lib : Lib) {s : Sched} {u : SchedUe} {tti rnti : Nat}

theorem generateDci_blocked (s : Sched) (loc : DciCce) (L : Nat) (c : Nat → Bool) :
    (s.cce.blocked loc L).card + (s.generateDci lib loc L c).1.isSome.toNat ≤
      ((s.generateDci lib loc L c).2.cce.blocked loc L).card := by
  obtain ⟨t, n, hs, hg⟩ := generateDci_spec lib s loc L c
  cases hr : (s.generateDci lib loc L c).1.isSome with
  | false =>
    rw [hs]
    exact Finset.card_le_card (hg.blocked_subset loc L)
  | true =>
    unfold generateDci at hr ⊢
    split_ifs at hr ⊢ with h0
    · simp at hr
    · exact tryCandidates_blocked (Nat.mod_lt _ (Nat.pos_of_ne_zero h0)) hr

/-! ## Uplink -/

/-- Each PHICH and each PUSCH that `ul_sched` writes has a place in its array. -/
structure UlInBounds (s : Sched) (tti : Nat) : Prop where
  phich : EachRound (phichUser tti) [] s.ueDb fun phich _ u =>
    (u.ulHarq (SchedUe.getUlHarq tti)).hasPendingAck.1 = true → phich.length < maxPhichList
  pusch : EachRound (puschUser lib tti) (s.ulReady lib tti, ⟨[], default⟩)
    (s.ulReady lib tti).ueDb fun st rnti u =>
      (st.1.puschProc tti rnti u).2.2.2.isSome = true → st.2.done.length < maxDataList

/-- At most eight users wait for the PHICH of the TTI, and no user with a process to send comes
after 32 that are granted. -/
structure UlRoom (s : Sched) (tti : Nat) : Prop where
  phich : count (fun u => (u.ulHarq (SchedUe.getUlHarq tti)).needAck) s.ueDb ≤ maxPhichList
  pusch : ∀ rnti, s.branchOf lib tti rnti ≠ .idle →
    ((s.ueDb.before rnti).filter fun k => (s.branchOf lib tti k).Grants).length < maxDataList

theorem hasPendingAck_needAck (h : UlHarqProc) : h.hasPendingAck.1 = h.needAck := by
  unfold UlHarqProc.hasPendingAck
  rfl

theorem phich_inBounds_iff : (EachRound (phichUser tti) [] s.ueDb fun phich _ u =>
      (u.ulHarq (SchedUe.getUlHarq tti)).hasPendingAck.1 = true → phich.length < maxPhichList) ↔
    count (fun u => (u.ulHarq (SchedUe.getUlHarq tti)).needAck) s.ueDb ≤ maxPhichList := by
  rw [count_le_iff]
  refine forall_congr' fun k => forall_congr' fun u => forall_congr' fun hu => ?_
  simp only [hasPendingAck_needAck]
  rw [counter_before (phichUser tti) List.length
    (fun k => s.ueDb[k]?.any fun u => (u.ulHarq (SchedUe.getUlHarq tti)).needAck) rfl ?_
    (by rw [hu]; rfl)]
  intro l v hv
  rw [(phichUser_spec tti _ l v).1, List.length_append, hv]
  unfold AckView.phich UlHarqProc.view
  cases hneed : (v.ulHarq (SchedUe.getUlHarq tti)).needAck <;> simp [hneed]

theorem txBranch_ne_idle (s : Sched) (tti : Nat) (u : SchedUe) (isRar : Bool) (pid : Pid) :
    s.txBranch lib tti u isRar pid ≠ .idle := by
  unfold txBranch
  simp only
  split_ifs <;> exact PuschBranch.noConfusion

theorem puschBranch_ne_idle_iff (s : Sched) (tti rnti : Nat) (u : SchedUe) :
    s.puschBranch lib tti rnti u ≠ .idle ↔ (s.puschProc tti rnti u).2.2.2.isSome = true := by
  obtain ⟨⟨s1, v, isRar, next⟩, hproc⟩ : ∃ r, s.puschProc tti rnti u = r := ⟨_, rfl⟩
  simp only [puschBranch, hproc]
  cases next with
  | none => simp
  | some pid => simp [txBranch_ne_idle]

theorem ulReady_before (s : Sched) (tti rnti : Nat) :
    (s.ulReady lib tti).ueDb.before rnti = s.ueDb.before rnti := by
  unfold before
  rw [keys_congr (ulReady_isSome lib s tti)]

theorem branchOf_eq (hu : (s.ulReady lib tti).ueDb[rnti]? = some u) : s.branchOf lib tti rnti =
    ((s.ulReady lib tti).ueDb.visit (puschUser lib tti) ((s.ulReady lib tti).ueDb.before rnti)
      (s.ulReady lib tti, ⟨[], default⟩)).1.1.puschBranch lib tti rnti u := by
  simp only [branchOf, hu]
  rfl

theorem puschUser_done (st : Sched × Elems UlSchedData) (k : Nat)
    (hnext : ∀ p ∈ u.ulNextAlloc, p = SchedUe.getUlHarq tti) :
    (puschUser lib tti st k u).1.2.done.length =
      st.2.done.length + (decide (st.1.puschBranch lib tti k u).Grants).toNat := by
  obtain ⟨s, out⟩ := st
  have hround := puschUser_round lib s tti k out u hnext
  by_cases hb : (s.puschBranch lib tti k u).Grants
  · obtain ⟨d, hd, -⟩ := hround.grants hb
    simp [hb, hd]
  · simp [hb, hround.silent hb]

theorem pusch_inBounds_iff : (EachRound (puschUser lib tti) (s.ulReady lib tti, ⟨[], default⟩)
      (s.ulReady lib tti).ueDb fun st rnti u =>
        (st.1.puschProc tti rnti u).2.2.2.isSome = true → st.2.done.length < maxDataList) ↔
    ∀ rnti, s.branchOf lib tti rnti ≠ .idle →
      ((s.ueDb.before rnti).filter fun k => (s.branchOf lib tti k).Grants).length <
        maxDataList := by
  have hcount : ∀ k, (s.ulReady lib tti).ueDb[k]?.isSome = true →
      ((s.ulReady lib tti).ueDb.visit (puschUser lib tti) ((s.ulReady lib tti).ueDb.before k)
        (s.ulReady lib tti, ⟨[], default⟩)).1.2.done.length =
      ((s.ueDb.before k).filter fun k => (s.branchOf lib tti k).Grants).length := by
    intro k hk
    rw [← ulReady_before lib s tti k]
    refine counter_before (puschUser lib tti) (fun st => st.2.done.length)
      (fun k => (s.branchOf lib tti k).Grants) rfl (fun l v hv => ?_) hk
    obtain ⟨w, -, hoff⟩ := ulAllocate_offers lib (s.ulFed tti) tti hv
    rw [branchOf_eq lib hv]
    exact puschUser_done lib _ l hoff.next
  constructor
  · intro h rnti hne
    cases hu : (s.ulReady lib tti).ueDb[rnti]? with
    | none => exact absurd (by simp only [branchOf, hu]) hne
    | some u =>
      rw [branchOf_eq lib hu, puschBranch_ne_idle_iff] at hne
      have := h rnti u hu hne
      rwa [hcount rnti (by rw [hu]; rfl)] at this
  · intro h k u hu hproc
    rw [hcount k (by rw [hu]; rfl)]
    refine h k ?_
    rw [branchOf_eq lib hu, puschBranch_ne_idle_iff]
    exact hproc

theorem ulInBounds_iff : UlInBounds lib s tti ↔ UlRoom lib s tti := by
  constructor
  · rintro ⟨hphich, hpusch⟩
    exact ⟨phich_inBounds_iff.mp hphich, (pusch_inBounds_iff lib).mp hpusch⟩
  · rintro ⟨hphich, hpusch⟩
    exact ⟨phich_inBounds_iff.mpr hphich, (pusch_inBounds_iff lib).mpr hpusch⟩

/-! ## Broadcast -/

/-- Each broadcast element so far blocks a candidate of its own. -/
structure BcRound (s0 : Sched) (st : Sched × Elems DlSchedBc) : Prop where
  locations : st.1.commonLocations = s0.commonLocations
  currentCfi : st.1.currentCfi = s0.currentCfi
  bcAggrLevel : st.1.bcAggrLevel = s0.bcAggrLevel
  done : st.2.done.length ≤
    (st.1.cce.blocked (s0.commonLocations (s0.currentCfi - 1)) s0.bcAggrLevel).card

theorem BcRound.sibSched {s0 : Sched} {st : Sched × Elems DlSchedBc} (h : BcRound s0 st)
    (it : SibCfg × Nat) : BcRound s0 (sibSched lib st it) := by
  obtain ⟨s, out⟩ := st
  obtain ⟨sib, i⟩ := it
  obtain ⟨hloc, hcfi, hlevel, hdone⟩ := h
  simp only at hloc hcfi hlevel hdone
  simp only [Sched.sibSched]
  split_ifs with hdue
  · have hblocked := generateDci_blocked lib s (s.commonLocations (s.currentCfi - 1)) s.bcAggrLevel
      fun _ => false
    obtain ⟨t, n, hs, hg⟩ := generateDci_spec lib s (s.commonLocations (s.currentCfi - 1))
      s.bcAggrLevel fun _ => false
    split
    · rename_i s1 hs1
      rw [hs1] at hs hblocked
      simp only at hs hblocked
      subst hs
      refine ⟨hloc, hcfi, hlevel, ?_⟩
      rw [← hloc, ← hcfi, ← hlevel] at hdone ⊢
      exact hdone.trans (Nat.le_of_add_right_le hblocked)
    · rename_i loc s1 hs1
      rw [hs1] at hs hblocked
      simp only at hs hblocked
      subst hs
      simp only [Option.isSome_some, Bool.toNat_true] at hblocked
      split_ifs
      · refine ⟨hloc, hcfi, hlevel, ?_⟩
        rw [← hloc, ← hcfi, ← hlevel] at hdone ⊢
        simp only [Elems.push, List.length_append, List.length_singleton]
        exact (Nat.add_le_add_right hdone 1).trans hblocked
      · refine ⟨hloc, hcfi, hlevel, ?_⟩
        rw [← hloc, ← hcfi, ← hlevel] at hdone ⊢
        exact hdone.trans (Nat.le_of_succ_le hblocked)
  · exact ⟨hloc, hcfi, hlevel, hdone⟩

theorem bc_inBounds (s0 : Sched) (hloc : ∀ cfi, (s0.commonLocations cfi).Fits)
    (its : List (SibCfg × Nat)) :
    (its.foldl (sibSched lib) (s0, ⟨[], default⟩)).2.done.length < maxBcList := by
  have hround : ∀ (its : List (SibCfg × Nat)) st, BcRound s0 st →
      BcRound s0 (its.foldl (sibSched lib) st) := by
    intro its
    induction its with
    | nil => exact fun st h => h
    | cons it its ih => exact fun st h => ih _ (h.sibSched lib it)
  have hdone := (hround its (s0, ⟨[], default⟩) ⟨rfl, rfl, rfl, Nat.zero_le _⟩).done
  have hcard := CceTable.card_blocked_le
    (its.foldl (sibSched lib) (s0, ⟨[], default⟩)).1.cce
    (s0.commonLocations (s0.currentCfi - 1)) s0.bcAggrLevel
  have hfits := hloc (s0.currentCfi - 1) s0.bcAggrLevel
  unfold maxBcList
  omega

/-! ## Random access response -/

theorem rarSched_done (st : Sched × Elems DlSchedRar) (i : Nat) :
    (rarSched lib st i).2.done.length ≤ st.2.done.length + 1 := by
  obtain ⟨s, out⟩ := st
  simp only [rarSched]
  split_ifs
  · split
    · exact Nat.le_succ _
    · split_ifs
      · simp [Elems.push]
      · exact Nat.le_succ _
  · exact Nat.le_succ _
  · exact Nat.le_succ _

theorem rar_inBounds (s : Sched) {i : Nat} (hi : i < schedMaxPendingRar) :
    ((List.range i).foldl (rarSched lib) (s, ⟨[], default⟩)).2.done.length < maxRarList := by
  have hle : ((List.range i).foldl (rarSched lib) (s, ⟨[], default⟩)).2.done.length ≤ i := by
    induction i with
    | zero => exact le_rfl
    | succ i ih =>
      rw [List.range_succ, List.foldl_append]
      exact (rarSched_done lib _ i).trans (Nat.succ_le_succ (ih (Nat.lt_of_succ_lt hi)))
  unfold schedMaxPendingRar at hi
  unfold maxRarList
  omega

theorem answers_le : ∀ {is : List Nat} {st : Sched × Elems DlSchedRar},
    ∀ a ∈ answers lib is st, a.nofSame ≤ schedMaxPendingRar
  | [], _, a, ha => by simp [answers] at ha
  | i :: is, st, a, ha => by
    unfold answers at ha
    rcases List.mem_append.mp ha with ha | ha
    · split_ifs at ha
      · rw [List.mem_singleton.mp ha]
        exact (List.length_filter_le _ _).trans List.length_range.le
      · simp at ha
    · exact answers_le a ha

theorem rarGrants_inBounds (tti : Nat) (paging : Option Nat) (hs : s.configured = true) :
    ∀ rar ∈ (s.dlSched lib tti paging).2.rar, rar.nofGrants ≤ maxRarGrants := by
  intro rar hrar
  have hmem : (rar.grant, rar.nofGrants) ∈
      (s.dlSched lib tti paging).2.rar.map fun rar => (rar.grant, rar.nofGrants) :=
    List.mem_map_of_mem (f := fun rar : DlSchedRar => (rar.grant, rar.nofGrants)) hrar
  rw [(dlSched_spec lib s tti paging hs).1] at hmem
  obtain ⟨a, ha, heq⟩ := List.mem_map.mp hmem
  rw [← (Prod.mk.inj heq).2]
  exact answers_le lib a ha

end Sched

end Srsenb.Mac
