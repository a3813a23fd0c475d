import Srsenb.Upper.Gtpu
import Srsenb.Upper.RrcErabs

/-! # The logical channels of E-RABs

`setup_erab` and `send_connection_reconf_new_bearer` take `id - 2` in eight bits for the channel of
an E-RAB. GTP-U uses it as an index. -/

open Srsenb.Gtpu (nofSrb nofRadioBearers)

namespace Srsenb.Rrc

/-- The logical channel of a bearer that a layer is asked to add. -/
def Action.lcid : Action → Option Nat
  | .gtpuAddBearer _ lcid _ _ => some lcid
  | .macBearerUeCfg _ lcid => some lcid
  | .rlcAddBearer _ lcid => some lcid
  | .pdcpAddBearer _ lcid => some lcid
  | _ => none

/-- The channel is one of a DRB, and an index of the arrays of GTP-U. -/
def IsDrb (lcid : Nat) : Prop := nofSrb ≤ lcid ∧ lcid < nofRadioBearers

/-- The bearers that the layers are asked for are DRBs, and E-RABs do not share one. -/
structure LcidsRight (es : List ErabItem) (acts : List Action) : Prop where
  drbs : ∀ a ∈ acts, ∀ lcid ∈ a.lcid, IsDrb lcid
  apart : ∀ e ∈ es, ∀ f ∈ es, e.id ≠ f.id → erabLcid e.id ≠ erabLcid f.id

variable {u : Ue} {cfg : Cfg} {rnti : Nat} {es : List ErabItem}

theorem isDrb_erabLcid_iff {id : Nat} (h : id < 16) :
    IsDrb (erabLcid id) ↔ 5 ≤ id ∧ id ≤ 12 := by
  unfold IsDrb erabLcid nofSrb nofRadioBearers
  omega

theorem erabLcid_inj {i j : Nat} (hi : i < 16) (hj : j < 16) (h : erabLcid i = erabLcid j) :
    i = j := by
  unfold erabLcid at h
  omega

theorem tunnels_drbs_iff : (∀ a ∈ es.map (tunnelOf rnti), ∀ lcid ∈ a.lcid, IsDrb lcid) ↔
    ∀ e ∈ es, IsDrb (erabLcid e.id) := by
  simp [tunnelOf, Action.lcid]

/-- The layers are asked for the channels of the items only. -/
theorem addNewBearers_lcid (u : Ue) (cfg : Cfg) (rnti : Nat) (es : List ErabItem) :
    ∀ a ∈ (u.addNewBearers cfg rnti es).2.1, ∀ lcid ∈ a.lcid, ∃ e ∈ es, erabLcid e.id = lcid := by
  induction es generalizing u with
  | nil => simp [Ue.addNewBearers]
  | cons e es ih =>
    unfold Ue.addNewBearers
    rcases h : u.getDrbidConfig cfg ((erabLcid e.id : Int) - 2) with ⟨u', _ | drb⟩
    · simp [h]
    · simp only [h]
      intro a ha lcid hl
      rcases List.mem_append.mp ha with ha | ha
      · refine ⟨e, List.mem_cons_self, ?_⟩
        simp only [List.mem_cons, List.not_mem_nil, or_false] at ha
        rcases ha with rfl | rfl | rfl <;> exact Option.some.inj hl
      · obtain ⟨f, hf, hfl⟩ := ih u' a ha lcid hl
        exact ⟨f, List.mem_cons_of_mem e hf, hfl⟩

theorem reconfNewBearer_lcid (u : Ue) (cfg : Cfg) (rnti : Nat) (es : List ErabItem) :
    ∀ a ∈ (u.sendConnectionReconfNewBearer cfg rnti es).2, ∀ lcid ∈ a.lcid,
      ∃ e ∈ es, erabLcid e.id = lcid := by
  have h := addNewBearers_lcid { u with transactionId := (u.transactionId + 1) % 256 } cfg rnti es
  unfold Ue.sendConnectionReconfNewBearer Ue.nextTransaction
  rcases hadd : Ue.addNewBearers { u with transactionId := (u.transactionId + 1) % 256 } cfg rnti es
    with ⟨u', acts, _ | drbs⟩
  · simpa [hadd] using h
  · rw [hadd] at h
    simp only [hadd]
    intro a ha lcid hl
    rcases List.mem_append.mp ha with ha | ha
    · exact h a ha lcid hl
    · rw [List.mem_singleton.mp ha] at hl
      cases hl

theorem setupErabsBearer_drbs_iff :
    (∀ a ∈ (u.setupErabsBearer cfg rnti es).2, ∀ lcid ∈ a.lcid, IsDrb lcid) ↔
      ∀ e ∈ accepted es, IsDrb (erabLcid e.id) := by
  by_cases haddr : ∀ e ∈ es, e.addressBits ≤ 32
  · obtain ⟨teid, hacts⟩ := setupErabsBearer_acts u cfg rnti haddr
    rw [hacts, accepted_eq haddr, List.forall_mem_append, tunnels_drbs_iff, List.forall_mem_cons]
    refine and_iff_left_of_imp fun h => ⟨fun lcid hl => (by cases hl), fun a ha lcid hl => ?_⟩
    obtain ⟨e, he, rfl⟩ := reconfNewBearer_lcid _ cfg rnti es a ha lcid hl
    exact h e he
  · rw [(setupErabsBearer_address u cfg rnti haddr).1, tunnels_drbs_iff]

/-- **E-RABs get DRBs of their own**, in both requests, if and only if the ids that are set up are
5 to 12. -/
theorem erab_lcids_iff (u : Ue) (cfg : Cfg) (rnti : Nat) (es : List ErabItem)
    (hids : ∀ e ∈ es, e.id < 16) :
    (LcidsRight es (u.setupErabsCtxt rnti es).2 ↔ ∀ e ∈ accepted es, 5 ≤ e.id ∧ e.id ≤ 12) ∧
      (LcidsRight es (u.setupErabsBearer cfg rnti es).2 ↔
        ∀ e ∈ accepted es, 5 ≤ e.id ∧ e.id ≤ 12) := by
  have happ : ∀ e ∈ es, ∀ f ∈ es, e.id ≠ f.id → erabLcid e.id ≠ erabLcid f.id :=
    fun e he f hf hne h => hne (erabLcid_inj (hids e he) (hids f hf) h)
  have hright : ∀ acts : List Action, LcidsRight es acts ↔
      ∀ a ∈ acts, ∀ lcid ∈ a.lcid, IsDrb lcid :=
    fun acts => ⟨fun h => h.drbs, fun h => ⟨h, happ⟩⟩
  have hiff : (∀ e ∈ accepted es, IsDrb (erabLcid e.id)) ↔
      ∀ e ∈ accepted es, 5 ≤ e.id ∧ e.id ≤ 12 :=
    forall₂_congr fun e he => isDrb_erabLcid_iff (hids e (accepted_mem he))
  rw [hright, hright, setupErabsBearer_drbs_iff, ← hiff]
  refine ⟨?_, Iff.rfl⟩
  rw [← tunnels_drbs_iff, ← (setupErabItems_spec u rnti es).1]
  rfl

/-- The E-RABs 5 and 12 of a new UE. -/
theorem erab_lcids_two :
    LcidsRight [⟨5, 7, 32, 1, 1, none⟩, ⟨12, 9, 32, 1, 2, none⟩]
      (Ue.new.setupErabsBearer exampleCfg 70
        [⟨5, 7, 32, 1, 1, none⟩, ⟨12, 9, 32, 1, 2, none⟩]).2 :=
  (erab_lcids_iff Ue.new exampleCfg 70 [⟨5, 7, 32, 1, 1, none⟩, ⟨12, 9, 32, 1, 2, none⟩]
    (by decide)).2.mpr (by decide)

/-- The E-RAB 15 asks GTP-U for channel 13. -/
theorem erab_lcid_thirteen :
    ¬ LcidsRight [⟨15, 7, 32, 1, 1, none⟩]
      (Ue.new.setupErabsBearer exampleCfg 70 [⟨15, 7, 32, 1, 1, none⟩]).2 := by
  intro h
  have := setupErabsBearer_drbs_iff.mp h.drbs ⟨15, 7, 32, 1, 1, none⟩ (by decide)
  exact absurd ((isDrb_erabLcid_iff (by decide)).mp this) (by decide)

end Srsenb.Rrc
