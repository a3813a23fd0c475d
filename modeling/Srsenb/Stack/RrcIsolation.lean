import Srsenb.Stack.StackUsers

/-! # The users of RRC, each by itself

What one user does is nothing to another, but for the requests and the removals, which share the
PUCCH slots. -/

namespace Srsenb.Rrc

variable {r k rnti : Nat} {s t : State} {e : Event}

/-- The PUCCH slots of a user. -/
def Ue.slots (u : Ue) : Pucch.Alloc × Pucch.Alloc := (u.sr, u.cqi)

/-- The tables of slots are the same, and so are the slots of everyone. -/
structure SameSlots (s t : State) : Prop where
  cfg : s.cfg = t.cfg
  srSched : s.srSched = t.srSched
  cqiSched : s.cqiSched = t.cqiSched
  slots : ∀ k : Nat, s.users[k]?.map Ue.slots = t.users[k]?.map Ue.slots

/-- The user `r` cannot tell two states apart. -/
structure Same (r : Nat) (s t : State) : Prop extends SameSlots s t where
  user : s.users[r]? = t.users[r]?

namespace SameSlots

theorem refl (s : State) : SameSlots s s := ⟨rfl, rfl, rfl, fun _ => rfl⟩

theorem symm (h : SameSlots s t) : SameSlots t s :=
  ⟨h.cfg.symm, h.srSched.symm, h.cqiSched.symm, fun k => (h.slots k).symm⟩

theorem trans {s₁ s₂ s₃ : State} (h : SameSlots s₁ s₂) (h' : SameSlots s₂ s₃) :
    SameSlots s₁ s₃ :=
  ⟨h.cfg.trans h'.cfg, h.srSched.trans h'.srSched, h.cqiSched.trans h'.cqiSched,
    fun k => (h.slots k).trans (h'.slots k)⟩

theorem isSome (h : SameSlots s t) (k : Nat) : s.users[k]?.isSome = t.users[k]?.isSome := by
  have hk := congrArg Option.isSome (h.slots k)
  simpa using hk

/-- The same users with the same slots. -/
theorem get (h : SameSlots s t) {u : Ue} (hu : s.users[k]? = some u) :
    ∃ v, t.users[k]? = some v ∧ v.sr = u.sr ∧ v.cqi = u.cqi := by
  have hk := h.slots k
  rw [hu, Option.map_some, eq_comm, Option.map_eq_some_iff] at hk
  obtain ⟨v, hv, hslots⟩ := hk
  obtain ⟨hsr, hcqi⟩ := Prod.mk.inj hslots
  exact ⟨v, hv, hsr, hcqi⟩

theorem none (h : SameSlots s t) (hk : s.users[k]? = none) : t.users[k]? = none := by
  have hsome := h.isSome k
  rwa [hk, Option.isSome_none, eq_comm, Option.isSome_eq_false_iff, Option.isNone_iff_eq_none]
    at hsome

end SameSlots

namespace Same

theorem refl (r : Nat) (s : State) : Same r s s := ⟨.refl s, rfl⟩

theorem symm (h : Same r s t) : Same r t s := ⟨h.toSameSlots.symm, h.user.symm⟩

theorem trans {s₁ s₂ s₃ : State} (h : Same r s₁ s₂) (h' : Same r s₂ s₃) : Same r s₁ s₃ :=
  ⟨h.toSameSlots.trans h'.toSameSlots, h.user.trans h'.user⟩

end Same

/-! ## Who an event is for -/

/-- The events that the user `r` can notice: its own, and those that give or take slots. -/
def Event.concerns (r : Nat) : Event → Bool
  | .addUser _ | .rx _ .remUser | .rx _ (.srb0 (.rrcConReq _ _)) => true
  | e => e.user = r

theorem Event.concerns_of_user (h : e.user = r) : e.concerns r = true := by
  cases e with
  | rx rnti item =>
    cases item with
    | srb0 msg => cases msg <;> simp [concerns, h]
    | _ => simp [concerns, h]
  | _ => simp [concerns, h]

/-- What an event asks of the other layers is for its user. -/
theorem handle_acts_user (s : State) (e : Event) :
    ∀ a ∈ (handle s e).acts, ∀ k ∈ a.user, k = e.user := by
  have hplain : e.KeepsUsers → ∀ a ∈ (handle s e).acts, ∀ k ∈ a.user, k = e.user := fun he a ha =>
    (handle_plain (S := {e.user}) s he (fun _ => rfl) a ha).user
  cases e with
  | addUser rnti =>
    simp only [handle, addUser]
    split_ifs <;> simp [Action.user, Event.user]
  | rx rnti item =>
    cases item with
    | remUser =>
      simp only [handle, handleItem, remUser]
      split_ifs
      · split <;> simp [Action.user, Event.user]
      · simp
    | _ => exact hplain trivial
  | _ => exact hplain trivial

/-- Nothing is asked for a user that is not there, but for a new one. -/
theorem handle_acts_there (s : State) (e : Event) :
    ∀ a ∈ (handle s e).acts, ∀ k ∈ a.user, s.users[k]?.isSome = true ∨ e = .addUser k := by
  have hplain : e.KeepsUsers → ∀ a ∈ (handle s e).acts, ∀ k ∈ a.user,
      s.users[k]?.isSome = true ∨ e = .addUser k := fun he a ha k hk =>
    .inl ((handle_plain (S := {k | s.users[k]?.isSome = true}) s he id a ha).user k hk)
  cases e with
  | addUser rnti =>
    simp only [handle, addUser]
    split_ifs <;> simp [Action.user]
  | rx rnti item =>
    cases item with
    | remUser =>
      intro a ha k hk
      obtain rfl : k = rnti := handle_acts_user s _ a ha k hk
      refine .inl ?_
      by_contra hgone
      rw [handle, if_neg hgone] at ha
      cases ha
    | _ => exact hplain trivial
  | _ => exact hplain trivial

theorem onUser_of_ne (f : Ue → Ue × List Action) (h : r ≠ rnti) :
    (onUser s rnti f).st.users[r]? = s.users[r]? := by
  unfold onUser
  split
  · rfl
  · simp [State.setUser, Ne.symm h]

theorem parseUlCcch_of_ne (msg : UlCcchMsg) (hthere : s.users[rnti]?.isSome = true)
    (h : r ≠ rnti) : (parseUlCcch s rnti msg).st.users[r]? = s.users[r]? := by
  obtain ⟨u, hu⟩ := Option.isSome_iff_exists.mp hthere
  cases msg with
  | rrcConReq sTmsi cause =>
    obtain ⟨-, u', husers, -⟩ := handleRrcConReq_spec hu sTmsi cause
    rw [parseUlCcch, if_pos hthere, husers]
    simp [Ne.symm h]
  | rrcConReestReq oldRnti =>
    simp only [parseUlCcch, StdMap.touch_of_get hu]
    split_ifs <;> rfl
  | other => rfl

/-- An event changes the record of its user alone. -/
theorem handle_of_ne (s : State) (h : r ≠ e.user) : (handle s e).st.users[r]? = s.users[r]? := by
  cases e with
  | rx rnti item =>
    simp only [handle]
    split_ifs with hthere
    · cases item with
      | srb0 msg => exact parseUlCcch_of_ne msg hthere h
      | srb12 msg | relUser | rlfUser b => exact onUser_of_ne _ h
      | remUser =>
        simp only [handleItem, remUser]
        split
        · rfl
        · simp [Ne.symm (show r ≠ rnti from h)]
      | actUser | invalid => rfl
    · rfl
  | addUser rnti =>
    simp only [handle, addUser]
    split_ifs
    · rfl
    · simp [State.setUser, Ne.symm (show r ≠ rnti from h)]
  | timeout rnti b =>
    simp only [handle, isTimeout]
    split_ifs
    · rfl
    all_goals exact onUser_of_ne _ h
  | notifyConnected rnti =>
    simp only [handle, notifyConnected]
    split_ifs
    · rfl
    · exact onUser_of_ne _ h
  | _ => exact onUser_of_ne _ h

/-! ## The slots -/

/-- The event neither gives slots nor takes them. -/
def Event.KeepsSlots : Event → Prop
  | .addUser _ | .rx _ .remUser | .rx _ (.srb0 (.rrcConReq _ _)) => False
  | _ => True

theorem Event.keepsSlots_of_hidden (h : e.concerns r = false) : e.KeepsSlots := by
  cases e with
  | addUser rnti => cases h
  | rx rnti item =>
    cases item with
    | remUser => cases h
    | srb0 msg =>
      cases msg with
      | rrcConReq sTmsi cause => cases h
      | _ => trivial
    | _ => trivial
  | _ => trivial

theorem setUser_slots {u u' : Ue} (hu : s.users[rnti]? = some u) (hsr : u'.sr = u.sr)
    (hcqi : u'.cqi = u.cqi) : SameSlots (s.setUser rnti u') s := by
  refine ⟨rfl, rfl, rfl, fun k => ?_⟩
  rw [State.setUser, StdMap.getElem?_insert]
  split_ifs with hk
  · rw [← hk, hu, Option.map_some, Option.map_some, Ue.slots, Ue.slots, hsr, hcqi]
  · rfl

theorem handle_keepsSlots (s : State) (he : e.KeepsSlots) : SameSlots (handle s e).st s := by
  have hchange : Change s e (handle s e).st := step_change s e
  obtain ⟨s', hs'⟩ : ∃ s', (handle s e).st = s' := ⟨_, rfl⟩
  rw [hs'] at hchange ⊢
  clear hs'
  cases hchange with
  | same => exact .refl s
  | kept hu hkeeps => exact setUser_slots hu hkeeps.sr hkeeps.cqi
  | registered hu hsr hcqi _ => exact setUser_slots hu hsr hcqi
  | added _ => exact he.elim
  | removed => exact he.elim
  | request _ => exact he.elim

/-! ## The events of others -/

/-- An event that does not concern `r`. -/
theorem handle_hidden (s : State) (he : e.concerns r = false) :
    Same r (handle s e).st s ∧ ∀ a ∈ (handle s e).acts, a.user ≠ some r := by
  have hne : r ≠ e.user := by
    rintro rfl
    rw [Event.concerns_of_user rfl] at he
    cases he
  have hslots := handle_keepsSlots s (Event.keepsSlots_of_hidden he)
  refine ⟨⟨hslots, handle_of_ne s hne⟩, fun a ha hr => ?_⟩
  exact hne (handle_acts_user s e a ha r hr)

/-! ## The events of concern -/

/-- What is asked of the other layers for `r`. -/
def actsOf (r : Nat) (acts : List Action) : List Action := acts.filter fun a => a.user = some r

theorem actsOf_eq_nil (s : State) (h : r ≠ e.user) : actsOf r (handle s e).acts = [] := by
  refine List.filter_eq_nil_iff.mpr fun a ha hr => ?_
  exact h (handle_acts_user s e a ha r (of_decide_eq_true hr))

theorem SameSlots.sendConnectionSetup (h : SameSlots s t) (rnti : Nat) (u : Ue) :
    (sendConnectionSetup s rnti u).2 = (sendConnectionSetup t rnti u).2 := by
  unfold Rrc.sendConnectionSetup srSetup cqiSetup
  rw [← h.cfg, ← h.srSched, ← h.cqiSched]
  cases Pucch.srAllocate s.cfg.common s.cfg.srCfg s.srSched with
  | none => rfl
  | some p =>
    simp only [Option.map_some]
    split_ifs
    · cases Pucch.cqiAllocate s.cfg.common s.cfg.cqiCfg s.cqiSched <;> rfl
    · rfl

/-- A handler leaves the record of `r` the same, and asks the same for `r`. -/
def Alike (r : Nat) (o o' : Out) : Prop :=
  o.st.users[r]? = o'.st.users[r]? ∧ actsOf r o.acts = actsOf r o'.acts

namespace Same

theorem nothing (h : Same r s t) : Alike r ⟨s, []⟩ ⟨t, []⟩ := ⟨h.user, rfl⟩

/-- A handler of `r` itself. -/
theorem onUser (h : Same r s t) (f : Ue → Ue × List Action) :
    Alike r (onUser s r f) (onUser t r f) := by
  unfold Rrc.onUser
  rw [← h.user]
  cases s.users[r]? with
  | none => exact h.nothing
  | some u => exact ⟨by simp [State.setUser], rfl⟩

/-- The request of `r` itself. -/
theorem ownRequest (h : Same r s t) (sTmsi : Option (Nat × Nat)) (cause : Nat) :
    Alike r (handleRrcConReq s r sTmsi cause) (handleRrcConReq t r sTmsi cause) := by
  have hsub : s.users.sub r = t.users.sub r := by
    rw [StdMap.sub_eq, StdMap.sub_eq, h.user]
  unfold handleRrcConReq
  rw [hsub]
  simp [Alike, State.setUser, h.sendConnectionSetup]

/-- Who else would be released is nothing to `r`. -/
theorem ownReest (h : Same r s t) (oldRnti : Nat) (hthere : s.users[r]?.isSome = true) :
    Alike r (parseUlCcch s r (.rrcConReestReq oldRnti))
      (parseUlCcch t r (.rrcConReestReq oldRnti)) := by
  obtain ⟨u, hu⟩ := Option.isSome_iff_exists.mp hthere
  have hv : t.users[r]? = some u := h.user ▸ hu
  simp only [parseUlCcch, StdMap.touch_of_get hu, StdMap.touch_of_get hv, StdMap.sub_of_get hu,
    StdMap.sub_of_get hv]
  by_cases hidle : u.isIdle = true
  · simp only [hidle, if_true]
    split_ifs <;> exact ⟨h.user, rfl⟩
  · simp only [hidle]
    exact h.nothing

theorem ownItem (h : Same r s t) (item : QueueItem) (hthere : s.users[r]?.isSome = true) :
    Alike r (handleItem s r item) (handleItem t r item) := by
  cases item with
  | srb0 msg =>
    cases msg with
    | rrcConReq sTmsi cause =>
      simp only [handleItem, parseUlCcch, ← h.user, if_pos hthere]
      exact h.ownRequest sTmsi cause
    | rrcConReestReq oldRnti => exact h.ownReest oldRnti hthere
    | other => exact h.nothing
  | srb12 msg =>
    simp only [handleItem, ← h.cfg]
    exact h.onUser _
  | remUser =>
    obtain ⟨u, hu⟩ := Option.isSome_iff_exists.mp hthere
    simp only [handleItem, remUser, ← h.user, hu]
    exact ⟨by simp, rfl⟩
  | relUser | rlfUser b => exact h.onUser _
  | actUser | invalid => exact h.nothing

/-- An event of `r` itself. -/
theorem own (h : Same r s t) (he : e.user = r) : Alike r (handle s e) (handle t e) := by
  subst he
  cases e with
  | rx rnti item =>
    have huser : s.users[rnti]? = t.users[rnti]? := h.user
    simp only [handle, Event.user, ← huser]
    split_ifs with hthere
    · exact h.ownItem item hthere
    · exact h.nothing
  | addUser rnti =>
    have huser : s.users[rnti]? = t.users[rnti]? := h.user
    simp only [handle, addUser, Event.user, ← huser]
    split_ifs
    · exact h.nothing
    · exact ⟨by simp [State.setUser], rfl⟩
  | updUser newRnti oldRnti =>
    have hown := h.onUser fun u =>
      if u.isConnected then u.sendConnectionReconfUpd oldRnti else u.sendConnectionRelease oldRnti
    exact hown
  | setupUeErabs rnti es =>
    simp only [handle, setupUeErabs, ← h.cfg]
    exact h.onUser _
  | timeout rnti b =>
    simp only [handle, isTimeout]
    split_ifs
    · exact h.nothing
    all_goals exact h.onUser _
  | notifyConnected rnti =>
    simp only [handle, notifyConnected]
    split_ifs
    · exact h.nothing
    · exact h.onUser _
  | _ => exact h.onUser _

end Same

namespace SameSlots

/-- The request of anyone takes the same slots. -/
theorem request (h : SameSlots s t) {sTmsi : Option (Nat × Nat)} {cause : Nat}
    (hthere : s.users[k]?.isSome = true) :
    SameSlots (handleRrcConReq s k sTmsi cause).st (handleRrcConReq t k sTmsi cause).st := by
  obtain ⟨u, hu⟩ := Option.isSome_iff_exists.mp hthere
  obtain ⟨v, hv, hsr, hcqi⟩ := h.get hu
  obtain ⟨hcfg, u', husers, hsrSched, hsr', hcqiSched, hcqi'⟩ := handleRrcConReq_spec hu sTmsi cause
  obtain ⟨hcfg₂, v', husers₂, hsrSched₂, hsr₂, hcqiSched₂, hcqi₂⟩ :=
    handleRrcConReq_spec hv sTmsi cause
  have hsrAfter : srAfter s u = srAfter t v := by
    rw [srAfter, srAfter, h.cfg, h.srSched, hsr]
  have hcqiAfter : cqiAfter s u = cqiAfter t v := by
    rw [cqiAfter, cqiAfter, h.cfg, h.srSched, h.cqiSched, hcqi]
  refine ⟨?_, ?_, ?_, fun a => ?_⟩
  · rw [hcfg, hcfg₂, h.cfg]
  · rw [hsrSched, hsrSched₂, hsrAfter]
  · rw [hcqiSched, hcqiSched₂, hcqiAfter]
  · rw [husers, husers₂, StdMap.getElem?_insert, StdMap.getElem?_insert]
    split_ifs
    · rw [Option.map_some, Option.map_some, Ue.slots, Ue.slots, hsr', hsr₂, hcqi', hcqi₂, hsrAfter,
        hcqiAfter]
    · exact h.slots a

/-- The removal of anyone gives the same slots back. -/
theorem removal (h : SameSlots s t) (k : Nat) : SameSlots (remUser s k).st (remUser t k).st := by
  unfold remUser
  cases hu : s.users[k]? with
  | none =>
    rw [h.none hu]
    exact h
  | some u =>
    obtain ⟨v, hv, hsr, hcqi⟩ := h.get hu
    rw [hv]
    refine ⟨h.cfg, ?_, ?_, fun a => ?_⟩
    · simp only [h.srSched, hsr]
    · simp only [h.cqiSched, hcqi]
    · simp only [StdMap.getElem?_erase]
      split_ifs
      · rfl
      · exact h.slots a

theorem handle (h : SameSlots s t) (e : Event) : SameSlots (handle s e).st (handle t e).st := by
  have hkeep : e.KeepsSlots → SameSlots (Rrc.handle s e).st (Rrc.handle t e).st := fun he =>
    (handle_keepsSlots s he).trans (h.trans (handle_keepsSlots t he).symm)
  cases e with
  | addUser rnti =>
    simp only [Rrc.handle, addUser, ← h.isSome rnti]
    split_ifs
    · exact h
    · refine ⟨h.cfg, h.srSched, h.cqiSched, fun a => ?_⟩
      simp only [State.setUser, StdMap.getElem?_insert]
      split_ifs
      · rfl
      · exact h.slots a
  | rx rnti item =>
    simp only [Rrc.handle, ← h.isSome rnti] at hkeep ⊢
    split_ifs with hthere
    · simp only [hthere, if_true] at hkeep
      cases item with
      | remUser => exact h.removal rnti
      | srb0 msg =>
        cases msg with
        | rrcConReq sTmsi cause =>
          simp only [handleItem, parseUlCcch, ← h.isSome rnti, if_pos hthere]
          exact h.request hthere
        | _ => exact hkeep trivial
      | _ => exact hkeep trivial
    · exact h
  | _ => exact hkeep trivial

end SameSlots

/-- An event leaves `r` unable to tell the states apart, and asks the same for it. -/
theorem Same.handle (h : Same r s t) (e : Event) :
    Same r (handle s e).st (handle t e).st ∧
      actsOf r (handle s e).acts = actsOf r (handle t e).acts := by
  by_cases hr : e.user = r
  · obtain ⟨huser, hacts⟩ := h.own hr
    exact ⟨⟨h.toSameSlots.handle e, huser⟩, hacts⟩
  · have huser : (Rrc.handle s e).st.users[r]? = (Rrc.handle t e).st.users[r]? := by
      rw [handle_of_ne s (Ne.symm hr), handle_of_ne t (Ne.symm hr), h.user]
    refine ⟨⟨h.toSameSlots.handle e, huser⟩, ?_⟩
    rw [actsOf_eq_nil s (Ne.symm hr), actsOf_eq_nil t (Ne.symm hr)]

end Srsenb.Rrc
