import Srsenb.Upper.S1apIds

/-! # The UEContextReleaseCommand

The handler erases the eNB id before it looks for the context, and takes the RNTI from a field of
the context when the command has the MME id alone. -/

open Srsenb.Run

namespace Srsenb.S1ap

variable {s : State} {ids' : UeS1apIds} {sent : Bool} {m r : Nat} {c : UeCtxt}

/-- `r` has the only context with the MME id, and its eNB id is mapped to it. -/
structure NamedBy (s : State) (m r : Nat) (c : UeCtxt) : Prop where
  ctxt : s.ueCtxtMap[r]? = some c
  mme : c.mmeUeS1apId = m
  only : ∀ (r' : Nat) (c' : UeCtxt), s.ueCtxtMap[r']? = some c' → c'.mmeUeS1apId = m → r' = r
  enbid : s.enbidToRntiMap[c.enbUeS1apId]? = some r

/-- Exactly the context and its eNB id go, and RRC is told to release the UE. -/
structure Releases (s : State) (r : Nat) (c : UeCtxt) (out : Out) : Prop where
  ret : out.ret = true
  ctxt : out.st.ueCtxtMap = s.ueCtxtMap.erase r
  enbid : out.st.enbidToRntiMap = s.enbidToRntiMap.erase c.enbUeS1apId
  erabs : .releaseErabs r ∈ out.acts
  complete : .releaseComplete r ∈ out.acts

/-- A command by MME id releases the UE that it names, and a refused one leaves the maps alone. -/
structure ReleaseRight (s : State) (ids' : UeS1apIds) (out : Out) : Prop where
  named : ∀ m r c, ids' = .mme m → NamedBy s m r c → Releases s r c out
  refused : out.ret = false →
    out.st.ueCtxtMap = s.ueCtxtMap ∧ out.st.enbidToRntiMap = s.enbidToRntiMap

theorem matchMmeUeId_of_namedBy (h : NamedBy s m r c) : matchMmeUeId s m = some (r, c) := by
  unfold matchMmeUeId
  obtain ⟨it, hit⟩ : ∃ it, s.ueCtxtMap.toList.find? (fun it => it.2.mmeUeS1apId == m) =
      some it := by
    rw [← Option.isSome_iff_exists, List.find?_isSome]
    exact ⟨(r, c), Std.ExtTreeMap.mem_toList_iff_getElem?_eq_some.mpr h.ctxt, by simp [h.mme]⟩
  obtain ⟨r', c'⟩ := it
  have hget : s.ueCtxtMap[r']? = some c' := matchMmeUeId_get hit
  have hmme : c'.mmeUeS1apId = m := by simpa using List.find?_some hit
  obtain rfl := h.only r' c' hget hmme
  rw [h.ctxt] at hget
  rw [hit, Option.some.inj hget]

/-! ## What the handler does -/

theorem uectxtreleasecommand_unknown (h : releasedId s ids' = none) :
    handleUectxtreleasecommand s ids' sent = ⟨s, [], false⟩ := by
  unfold handleUectxtreleasecommand
  rw [h]

/-- The eNB id is gone, and the command is refused. -/
theorem uectxtreleasecommand_lost {rnti : Nat} {enbids : StdMap Nat}
    (h : releasedId s ids' = some (rnti, enbids)) (hnone : s.ueCtxtMap[rnti]? = none) :
    handleUectxtreleasecommand s ids' sent = ⟨{ s with enbidToRntiMap := enbids }, [], false⟩ := by
  unfold handleUectxtreleasecommand
  rw [h]
  simp [hnone]

theorem uectxtreleasecommand_found (sent : Bool) {rnti : Nat} {enbids : StdMap Nat} {d : UeCtxt}
    (h : releasedId s ids' = some (rnti, enbids)) (hd : s.ueCtxtMap[rnti]? = some d) :
    ∃ acts, handleUectxtreleasecommand s ids' sent =
      ⟨{ s with ueCtxtMap := s.ueCtxtMap.erase rnti, enbidToRntiMap := enbids },
        .releaseErabs rnti :: acts ++ [.releaseComplete rnti], true⟩ := by
  unfold handleUectxtreleasecommand sendUectxtreleasecomplete sendMessage State.touchCtxt
  rw [h]
  simp only [hd, Option.isNone_some, Bool.false_eq_true, if_false, StdMap.touch_of_get hd]
  split_ifs
  · exact ⟨_, rfl⟩
  · exact ⟨_, rfl⟩

/-! ## When it is right -/

/-- By eNB id: a mapped id has a context. By MME id: the context found stores its own key if it is
the one named, and otherwise a key in use, or there is no eNB id to lose. -/
def NamesRight (s : State) : UeS1apIds → Prop
  | .pair _ e => ∀ r ∈ s.enbidToRntiMap[e]?, s.ueCtxtMap[r]?.isSome = true
  | .mme m => ∀ it ∈ matchMmeUeId s m,
      (NamedBy s m it.1 it.2 → it.2.rnti % 2 ^ 16 = it.1) ∧
      (¬ NamedBy s m it.1 it.2 → s.ueCtxtMap[it.2.rnti % 2 ^ 16]?.isSome = true ∨
        s.enbidToRntiMap[it.2.enbUeS1apId]? = none)

theorem erase_eq_iff {m : StdMap Nat} {e : Nat} : m.erase e = m ↔ m[e]? = none := by
  constructor
  · intro h
    rw [← h, StdMap.getElem?_erase, if_pos rfl]
  · exact StdMap.erase_of_none

theorem releaseRight_pair (s : State) (m e : Nat) (sent : Bool) :
    ReleaseRight s (.pair m e) (handleUectxtreleasecommand s (.pair m e) sent) ↔
      NamesRight s (.pair m e) := by
  simp only [NamesRight]
  cases hr : s.enbidToRntiMap[e]? with
  | none =>
    rw [uectxtreleasecommand_unknown (by simp [releasedId, hr])]
    refine iff_of_true ⟨?_, fun _ => ⟨rfl, rfl⟩⟩ (by simp)
    intro m' r c h
    cases h
  | some r =>
    have hrel : releasedId s (.pair m e) = some (r, s.enbidToRntiMap.erase e) := by
      simp [releasedId, hr]
    simp only [Option.mem_some_iff, forall_eq']
    cases hd : s.ueCtxtMap[r]? with
    | none =>
      rw [uectxtreleasecommand_lost hrel hd]
      refine iff_of_false ?_ Bool.false_ne_true
      intro h
      have := erase_eq_iff.mp (h.refused rfl).2
      rw [hr] at this
      cases this
    | some d =>
      obtain ⟨acts, hout⟩ := uectxtreleasecommand_found sent hrel hd
      rw [hout]
      refine iff_of_true ⟨?_, fun h => by cases h⟩ rfl
      intro m' r c h
      cases h

/-- The context found by MME id is the one named: the command is right if and only if the RNTI
stored is its key. -/
theorem releaseRight_named (h : NamedBy s m r c) :
    ReleaseRight s (.mme m) (handleUectxtreleasecommand s (.mme m) sent) ↔
      c.rnti % 2 ^ 16 = r := by
  have hrel : releasedId s (.mme m) =
      some (c.rnti % 2 ^ 16, s.enbidToRntiMap.erase c.enbUeS1apId) := by
    simp [releasedId, findMmeUeId, matchMmeUeId_of_namedBy h]
  cases hd : s.ueCtxtMap[c.rnti % 2 ^ 16]? with
  | none =>
    rw [uectxtreleasecommand_lost hrel hd]
    refine iff_of_false ?_ ?_
    · intro hright
      cases (hright.named m r c rfl h).ret
    · intro heq
      rw [heq, h.ctxt] at hd
      cases hd
  | some d =>
    obtain ⟨acts, hout⟩ := uectxtreleasecommand_found sent hrel hd
    rw [hout]
    constructor
    · intro hright
      have hmap := (hright.named m r c rfl h).ctxt
      by_contra hne
      -- Another context went, and the one named is still there.
      have hr : (s.ueCtxtMap.erase (c.rnti % 2 ^ 16))[r]? = (s.ueCtxtMap.erase r)[r]? :=
        congrArg (fun ctxts : StdMap UeCtxt => ctxts[r]?) hmap
      rw [StdMap.getElem?_erase, StdMap.getElem?_erase, if_neg hne, if_pos rfl, h.ctxt] at hr
      cases hr
    · intro heq
      refine ⟨?_, fun hret => by cases hret⟩
      intro m' r' c' hids h'
      cases hids
      obtain rfl := h.only r' c' h'.ctxt h'.mme
      obtain rfl : c = c' := Option.some.inj (h.ctxt.symm.trans h'.ctxt)
      exact ⟨rfl, by rw [heq], rfl, by rw [heq]; simp, by rw [heq]; simp⟩

/-- The MME id does not name a single context that is mapped: only a refused command counts. -/
theorem releaseRight_unnamed {it : Nat × UeCtxt} (hm : matchMmeUeId s m = some it)
    (hn : ¬ NamedBy s m it.1 it.2) :
    ReleaseRight s (.mme m) (handleUectxtreleasecommand s (.mme m) sent) ↔
      (s.ueCtxtMap[it.2.rnti % 2 ^ 16]?.isSome = true ∨
        s.enbidToRntiMap[it.2.enbUeS1apId]? = none) := by
  have hnamed : ∀ m' r c, UeS1apIds.mme m = .mme m' → ¬ NamedBy s m' r c := by
    intro m' r c hids h
    cases hids
    obtain rfl := Option.some.inj ((matchMmeUeId_of_namedBy h).symm.trans hm)
    exact hn h
  have hrel : releasedId s (.mme m) =
      some (it.2.rnti % 2 ^ 16, s.enbidToRntiMap.erase it.2.enbUeS1apId) := by
    simp [releasedId, findMmeUeId, hm]
  cases hd : s.ueCtxtMap[it.2.rnti % 2 ^ 16]? with
  | none =>
    rw [uectxtreleasecommand_lost hrel hd, ← erase_eq_iff]
    constructor
    · exact fun h => Or.inr (h.refused rfl).2
    · rintro (h | h)
      · cases h
      · exact ⟨fun m' r c hids h' => absurd h' (hnamed m' r c hids), fun _ => ⟨rfl, h⟩⟩
  | some d =>
    obtain ⟨acts, hout⟩ := uectxtreleasecommand_found sent hrel hd
    rw [hout]
    refine iff_of_true ⟨?_, fun h => by cases h⟩ (Or.inl rfl)
    exact fun m' r c hids h' => absurd h' (hnamed m' r c hids)

/-- **When a UEContextReleaseCommand is handled right**, for every state and every command. -/
theorem release_right_iff (s : State) (ids' : UeS1apIds) (sent : Bool) :
    ReleaseRight s ids' (handleUectxtreleasecommand s ids' sent) ↔ NamesRight s ids' := by
  cases ids' with
  | pair m e => exact releaseRight_pair s m e sent
  | mme m =>
    simp only [NamesRight]
    cases hm : matchMmeUeId s m with
    | none =>
      rw [uectxtreleasecommand_unknown (by simp [releasedId, findMmeUeId, hm])]
      refine iff_of_true ⟨?_, fun _ => ⟨rfl, rfl⟩⟩ (by simp)
      intro m' r c hids h
      cases hids
      rw [matchMmeUeId_of_namedBy h] at hm
      cases hm
    | some it =>
      simp only [Option.mem_some_iff, forall_eq']
      by_cases h : NamedBy s m it.1 it.2
      · rw [releaseRight_named h]
        exact ⟨fun heq => ⟨fun _ => heq, fun hn => absurd h hn⟩, fun hr => hr.1 h⟩
      · rw [releaseRight_unnamed hm h]
        exact ⟨fun hor => ⟨fun hn => absurd hn h, fun _ => hor⟩, fun hr => hr.2 h⟩

/-- A UE attaches and the MME gives it the id 5. -/
def servedRun : List Event :=
  [.connected true, .initialUe 70 0 [7] none true, .dlnastransport ⟨1, 5, [9]⟩ true]

/-- The release of the UE by its MME id is refused, and its eNB id is lost. -/
theorem release_refused_served :
    (handleUectxtreleasecommand (exec step init servedRun) (.mme 5) true).ret = false ∧
      ¬ ReleaseRight (exec step init servedRun) (.mme 5)
        (handleUectxtreleasecommand (exec step init servedRun) (.mme 5) true) := by
  have hret :
      (handleUectxtreleasecommand (exec step init servedRun) (.mme 5) true).ret = false := by
    decide
  refine ⟨hret, fun h => ?_⟩
  have henb := congrArg (fun m => m[1]?) (h.refused hret).2
  exact absurd henb (by decide)

end Srsenb.S1ap
