import Srsenb.Mac.UlPdu

/-! # The C-RNTI control element

A UE that still has a valid RNTI names it in the first PDU that it sends under a temporary one. -/

namespace Srsenb.Mac

/-- The existing user that a control element names. -/
def SchSubh.named (ueExists : Nat → Bool) : SchSubh → Option Nat
  | .crnti cRnti => if ueExists cRnti then some cRnti else none
  | _ => none

/-- The channel and the payload of an SDU. -/
def SchSubh.sduOf : SchSubh → Option (Nat × List UInt8)
  | .sdu lcid payload => some (lcid, payload)
  | _ => none

namespace UeCall

/-- What is written to RLC for a user. -/
def writeOf (rnti : Nat) : UeCall → Option (Nat × List UInt8)
  | .rlcWritePdu r lcid payload => if r = rnti then some (lcid, payload) else none
  | _ => none

/-- A PHR, or a BSR that sets the buffer, for a user. -/
def isReport (rnti : Nat) : UeCall → Bool
  | .schedUlBsr r _ _ setValue => decide (r = rnti) && setValue
  | .schedUlPhr r _ => decide (r = rnti)
  | _ => false

/-- The temporary RNTI that `upd_user` is called with. -/
def updated : UeCall → Option Nat
  | .rrcUpdUser newRnti _ => some newRnti
  | _ => none

end UeCall

/-- The user that an action of RRC queues for removal. -/
def queuedForRemoval : Rrc.Action → Option Nat
  | .remUserThread rnti => some rnti
  | _ => none

/-- The users that RRC queues for removal, in the order of the calls. -/
def removals : Rrc.State → List UeCall → List Nat
  | _, [] => []
  | rrc, .rrcUpdUser newRnti oldRnti :: calls =>
    let out := Rrc.updUser rrc newRnti oldRnti
    out.acts.filterMap queuedForRemoval ++ removals out.st calls
  | rrc, _ :: calls => removals rrc calls

namespace RxUe

variable (ueExists : Nat → Bool) (u : RxUe) (pdu : List SchSubh)

/-- The calls for a PHR or a BSR under an RNTI. -/
def reportCalls (rnti : Nat) : SchSubh → List UeCall
  | .phrReport phr => [.schedUlPhr rnti phr]
  | ce => ce.reported.flatMap fun it => { u with rnti := rnti }.bsrCalls it.1 it.2

/-- Everything in the PDU goes to each other user that it names, and the temporary user alone is
removed. A user that names itself is not. -/
def Reattributed (rrc : Rrc.State) : Prop :=
  let calls := (u.processPdu ueExists pdu).2
  (∀ s, s ≠ u.rnti → s ∈ pdu.filterMap (SchSubh.named ueExists) →
    calls.filterMap (UeCall.writeOf s) = pdu.filterMap SchSubh.sduOf ∧
      calls.filter (UeCall.isReport s) = pdu.flatMap (u.reportCalls s) ∧
      removals rrc calls = [u.rnti]) ∧
  (u.rnti ∈ pdu.filterMap (SchSubh.named ueExists) →
    (∀ s ∈ pdu.filterMap (SchSubh.named ueExists), s = u.rnti) → removals rrc calls = [])

/-- No existing user is named, or one other user is, once, with no SDU in the PDU and no report
before it that has a call. -/
def ReportsAfter : Prop :=
  pdu.filterMap (SchSubh.named ueExists) = [] ∨
  ∃ s, s ≠ u.rnti ∧ pdu.filterMap (SchSubh.named ueExists) = [s] ∧
    pdu.filterMap SchSubh.sduOf = [] ∧
    (pdu.takeWhile fun ce => (ce.named ueExists).isNone).flatMap (u.reportCalls u.rnti) = []

/-! ## Removals -/

theorem updUser_removal (rrc : Rrc.State) (newRnti oldRnti : Nat) :
    (Rrc.updUser rrc newRnti oldRnti).acts.filterMap queuedForRemoval = [newRnti] := by
  unfold Rrc.updUser Rrc.onUser
  cases rrc.users[oldRnti]? with
  | none => rfl
  | some u =>
    simp only
    split_ifs <;>
      simp [Rrc.Ue.sendConnectionReconfUpd, Rrc.Ue.sendConnectionRelease, queuedForRemoval]

theorem removals_eq (rrc : Rrc.State) (calls : List UeCall) :
    removals rrc calls = calls.filterMap UeCall.updated := by
  induction calls generalizing rrc with
  | nil => rfl
  | cons c calls ih =>
    cases c with
    | rrcUpdUser newRnti oldRnti =>
      simp only [removals, updUser_removal, ih]
      rfl
    | _ =>
      simp only [removals, ih]
      rfl

/-! ## The pass over the control elements -/

variable {ueExists} {u} {pdu}

/-- Without a C-RNTI of an existing user, the pass makes the calls of the reports. -/
theorem processCe_unnamed {ce : SchSubh} (h : ce.named ueExists = none) :
    (u.processCe ueExists ce).1 = u ∧
      (u.processCe ueExists ce).2.1 = u.reportCalls u.rnti ce := by
  cases ce with
  | crnti cRnti =>
    have hno : ueExists cRnti = false := by simpa [SchSubh.named] using h
    simp [processCe, reportCalls, SchSubh.reported, hno]
  | truncBsr lcg buffSize => cases lcg <;> simp [processCe, reportCalls, SchSubh.reported]
  | shortBsr lcg buffSize => cases lcg <;> simp [processCe, reportCalls, SchSubh.reported]
  | longBsr buffSize => simp [processCe, reportCalls, SchSubh.reported, List.flatMap_map]
  | _ => simp [processCe, reportCalls, SchSubh.reported]

theorem processCe_named {ce : SchSubh} {s : Nat} (h : ce.named ueExists = some s) :
    (u.processCe ueExists ce).1 = { u with rnti := s } ∧
      (u.processCe ueExists ce).2.1 = [.rrcUpdUser u.rnti s] ∧ ∀ r, u.reportCalls r ce = [] := by
  cases ce with
  | crnti cRnti =>
    simp only [SchSubh.named, Option.ite_none_right_eq_some, Option.some.injEq] at h
    obtain ⟨hex, rfl⟩ := h
    simp [processCe, hex, reportCalls, SchSubh.reported]
  | _ => cases h

theorem reportCalls_updated (r : Nat) (ce : SchSubh) :
    (u.reportCalls r ce).filterMap UeCall.updated = [] := by
  unfold reportCalls
  split
  · rfl
  · simp [bsrCalls, List.filterMap_flatMap, List.filterMap_map, Function.comp_def,
      UeCall.updated]

theorem reportCalls_writeOf (r s : Nat) (ce : SchSubh) :
    (u.reportCalls r ce).filterMap (UeCall.writeOf s) = [] := by
  unfold reportCalls
  split
  · rfl
  · simp [bsrCalls, List.filterMap_flatMap, List.filterMap_map, Function.comp_def,
      UeCall.writeOf]

theorem reportCalls_isReport (r s : Nat) (ce : SchSubh) :
    (u.reportCalls r ce).filter (UeCall.isReport s) = if r = s then u.reportCalls r ce else [] := by
  unfold reportCalls
  split
  · by_cases h : r = s <;> simp [h, UeCall.isReport]
  · by_cases h : r = s <;>
      simp [bsrCalls, List.filter_flatMap, List.filter_map, Function.comp_def, UeCall.isReport,
        List.filter_eq_self.mpr, h]

theorem reportCalls_nil_iff (r s : Nat) (ce : SchSubh) :
    u.reportCalls r ce = [] ↔ u.reportCalls s ce = [] := by
  unfold reportCalls
  split <;> simp [bsrCalls]

/-- Each C-RNTI has the user before it removed. -/
theorem cePass_updated (u : RxUe) (pdu : List SchSubh) :
    (cePass ueExists u pdu).2.1.filterMap UeCall.updated =
      (u.rnti :: pdu.filterMap (SchSubh.named ueExists)).dropLast := by
  induction pdu generalizing u with
  | nil => rfl
  | cons ce pdu ih =>
    simp only [cePass, List.filterMap_append, ih]
    cases hn : ce.named ueExists with
    | none =>
      obtain ⟨hu, hcalls⟩ := processCe_unnamed (u := u) hn
      rw [hu, hcalls, reportCalls_updated, List.nil_append, List.filterMap_cons_none hn]
    | some s =>
      obtain ⟨hu, hcalls, -⟩ := processCe_named (u := u) hn
      rw [hu, hcalls, List.filterMap_cons_some hn]
      rfl

theorem cePass_writeOf (u : RxUe) (pdu : List SchSubh) (s : Nat) :
    (cePass ueExists u pdu).2.1.filterMap (UeCall.writeOf s) = [] := by
  induction pdu generalizing u with
  | nil => rfl
  | cons ce pdu ih =>
    simp only [cePass, List.filterMap_append, ih, List.append_nil]
    cases hn : ce.named ueExists with
    | none => rw [(processCe_unnamed (u := u) hn).2, reportCalls_writeOf]
    | some s =>
      rw [(processCe_named (u := u) hn).2.1]
      rfl

/-- Without a C-RNTI the reports are the user's own. -/
theorem cePass_unnamed (u : RxUe) {pdu : List SchSubh}
    (h : pdu.filterMap (SchSubh.named ueExists) = []) :
    (cePass ueExists u pdu).2.1 = pdu.flatMap (u.reportCalls u.rnti) := by
  induction pdu with
  | nil => rfl
  | cons ce pdu ih =>
    cases hn : ce.named ueExists with
    | none =>
      obtain ⟨hu, hcalls⟩ := processCe_unnamed (u := u) hn
      rw [List.filterMap_cons_none hn] at h
      simp only [cePass, hu, hcalls, ih h, List.flatMap_cons]
    | some s =>
      rw [List.filterMap_cons_some hn] at h
      cases h

/-- What is reported for the one user that the PDU names: what comes from its C-RNTI on. -/
theorem cePass_reports {u : RxUe} {pdu : List SchSubh} {s : Nat} (hs : s ≠ u.rnti)
    (h : pdu.filterMap (SchSubh.named ueExists) = [s]) :
    (cePass ueExists u pdu).2.1.filter (UeCall.isReport s) =
      (pdu.dropWhile fun ce => (ce.named ueExists).isNone).flatMap (u.reportCalls s) := by
  induction pdu with
  | nil => cases h
  | cons ce pdu ih =>
    cases hn : ce.named ueExists with
    | none =>
      obtain ⟨hu, hcalls⟩ := processCe_unnamed (u := u) hn
      rw [List.filterMap_cons_none hn] at h
      rw [List.dropWhile_cons_of_pos (by simp [hn]), ← ih h]
      simp only [cePass, hu, hcalls, List.filter_append, reportCalls_isReport, if_neg hs.symm,
        List.nil_append]
    | some s' =>
      obtain ⟨hu, hcalls, hnone⟩ := processCe_named (u := u) hn
      rw [List.filterMap_cons_some hn] at h
      obtain ⟨rfl, hrest⟩ := List.cons_eq_cons.mp h
      have hpass := cePass_unnamed { u with rnti := s' } hrest
      rw [List.dropWhile_cons_of_neg (by simp [hn]), List.flatMap_cons, hnone]
      simp only [cePass, hu, hcalls, List.filter_append, hpass, List.filter_flatMap,
        reportCalls_isReport, if_true]
      rfl

/-! ## The whole PDU -/

theorem sduPass_updated (u : RxUe) (pdu : List SchSubh) :
    (u.sduPass pdu).filterMap UeCall.updated = [] := by
  unfold sduPass
  rw [List.filterMap_flatMap, List.flatMap_eq_nil_iff]
  intro ce _
  cases ce with
  | sdu lcid payload =>
    simp only [sduCalls]
    split_ifs <;> rfl
  | _ => rfl

/-- The SDUs go to the user that the PDU came from. -/
theorem sduPass_other {u : RxUe} {s : Nat} (hs : s ≠ u.rnti) (pdu : List SchSubh) :
    (u.sduPass pdu).filterMap (UeCall.writeOf s) = [] := by
  unfold sduPass
  rw [List.filterMap_flatMap, List.flatMap_eq_nil_iff]
  intro ce _
  cases ce with
  | sdu lcid payload =>
    simp only [sduCalls]
    split_ifs <;> simp [UeCall.writeOf, hs.symm]
  | _ => rfl

theorem sduPass_isReport (u : RxUe) (pdu : List SchSubh) (s : Nat) :
    (u.sduPass pdu).filter (UeCall.isReport s) = [] := by
  unfold sduPass
  rw [List.filter_flatMap, List.flatMap_eq_nil_iff]
  intro ce _
  cases ce with
  | sdu lcid payload =>
    simp only [sduCalls]
    split_ifs <;> rfl
  | _ => rfl

theorem processPdu_removals (u : RxUe) (pdu : List SchSubh) (rrc : Rrc.State) :
    removals rrc (u.processPdu ueExists pdu).2 =
      (u.rnti :: pdu.filterMap (SchSubh.named ueExists)).dropLast := by
  rw [removals_eq]
  simp only [processPdu, List.filterMap_append, sduPass_updated, cePass_updated, List.nil_append]
  split_ifs <;> simp [UeCall.updated]

theorem processPdu_writeOf {u : RxUe} {s : Nat} (hs : s ≠ u.rnti) (pdu : List SchSubh) :
    (u.processPdu ueExists pdu).2.filterMap (UeCall.writeOf s) = [] := by
  simp only [processPdu, List.filterMap_append, sduPass_other hs, cePass_writeOf, List.nil_append]
  split_ifs <;> simp [UeCall.writeOf]

theorem processPdu_reports {u : RxUe} {pdu : List SchSubh} {s : Nat} (hs : s ≠ u.rnti)
    (h : pdu.filterMap (SchSubh.named ueExists) = [s]) :
    (u.processPdu ueExists pdu).2.filter (UeCall.isReport s) =
      (pdu.dropWhile fun ce => (ce.named ueExists).isNone).flatMap (u.reportCalls s) := by
  simp only [processPdu, List.filter_append, sduPass_isReport, cePass_reports hs h,
    List.nil_append]
  split_ifs <;> simp [UeCall.isReport]

/-- The reports all go to the named user if none with a call comes before its C-RNTI. -/
theorem reports_complete_iff {u : RxUe} {pdu : List SchSubh} {s : Nat} (hs : s ≠ u.rnti)
    (h : pdu.filterMap (SchSubh.named ueExists) = [s]) :
    (u.processPdu ueExists pdu).2.filter (UeCall.isReport s) = pdu.flatMap (u.reportCalls s) ↔
      (pdu.takeWhile fun ce => (ce.named ueExists).isNone).flatMap (u.reportCalls u.rnti) = [] := by
  have hsplit := List.takeWhile_append_dropWhile (p := fun ce => (ce.named ueExists).isNone)
    (l := pdu)
  rw [processPdu_reports hs h]
  conv_lhs => rhs; rw [← hsplit, List.flatMap_append]
  rw [List.self_eq_append_left, List.flatMap_eq_nil_iff, List.flatMap_eq_nil_iff]
  exact forall₂_congr fun ce _ => reportCalls_nil_iff s u.rnti ce

theorem dropLast_cons_eq_singleton {r : Nat} {l : List Nat} (hne : l ≠ [])
    (h : (r :: l).dropLast = [r]) : l.length = 1 := by
  have hlen := congrArg List.length h
  have hpos := List.length_pos_iff.mpr hne
  simp at hlen
  omega

/-- **The C-RNTI element.** A PDU is handed over to the user that it names if and only if it has
no SDU and no report before the element, which is one for another user; or it names none. -/
theorem reattributed_iff (ueExists : Nat → Bool) (u : RxUe) (pdu : List SchSubh)
    (rrc : Rrc.State) : u.Reattributed ueExists pdu rrc ↔ u.ReportsAfter ueExists pdu := by
  unfold Reattributed ReportsAfter
  simp only [processPdu_removals]
  constructor
  · rintro ⟨hother, hself⟩
    by_cases hnone : pdu.filterMap (SchSubh.named ueExists) = []
    · exact Or.inl hnone
    · right
      by_cases hall : ∀ s ∈ pdu.filterMap (SchSubh.named ueExists), s = u.rnti
      · -- The user names itself, and is removed.
        obtain ⟨s, hs⟩ := List.exists_mem_of_ne_nil _ hnone
        have hrem := hself (hall s hs ▸ hs) hall
        rw [List.dropLast_cons_of_ne_nil hnone] at hrem
        cases hrem
      · push Not at hall
        obtain ⟨s, hmem, hs⟩ := hall
        obtain ⟨hsdus, hreports, hrem⟩ := hother s hs hmem
        have hone := dropLast_cons_eq_singleton hnone hrem
        obtain ⟨s', hs'⟩ := List.length_eq_one_iff.mp hone
        rw [hs', List.mem_singleton] at hmem
        subst hmem
        rw [processPdu_writeOf hs] at hsdus
        exact ⟨s, hs, hs', hsdus.symm, (reports_complete_iff hs hs').mp hreports⟩
  · rintro (hnone | ⟨s, hs, hone, hsdus, hreports⟩)
    · simp [hnone]
    · constructor
      · intro s' _ hmem
        rw [hone, List.mem_singleton] at hmem
        subst hmem
        refine ⟨?_, (reports_complete_iff hs hone).mpr hreports, by rw [hone]; rfl⟩
        rw [processPdu_writeOf hs, hsdus]
      · intro hmem
        rw [hone, List.mem_singleton] at hmem
        exact absurd hmem.symm hs

/-- A UE with RNTI 70 sends a message on SRB1 under 71, with a C-RNTI element for 70. -/
theorem sdu_misrouted_of_crnti :
    ¬ ({ rnti := 71 } : RxUe).Reattributed (fun _ => true) [.crnti 70, .sdu 1 [1, 2, 3]]
      { cfg := Rrc.exampleCfg, users := ∅, srSched := fun _ _ => 0, cqiSched := fun _ _ => 0 } := by
  rintro ⟨h, -⟩
  exact absurd (h 70 (by decide) (by decide)).1 (by decide)

end RxUe

end Srsenb.Mac
