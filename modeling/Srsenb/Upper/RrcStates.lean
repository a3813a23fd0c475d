import Srsenb.Upper.RrcSteps

/-! # When a UE is registered

The handlers of the RRC look at the type of a message and never at the state of the UE. -/

open Srsenb.Run

namespace Srsenb.Rrc

/-- The UE object of `rnti` is in RRC_STATE_REGISTERED. -/
def Registered (rnti : Nat) (s : State) : Prop :=
  ∃ u, s.users[rnti]? = some u ∧ u.state = .registered

theorem not_registered_init (cfg : Cfg) (rnti : Nat) : ¬ Registered rnti (init cfg) := by
  rintro ⟨u, hu, -⟩
  simp [init] at hu

theorem registered_setUser {s : State} {r rnti : Nat} {u : Ue} :
    Registered rnti (s.setUser r u) ↔
      if r = rnti then u.state = .registered else Registered rnti s := by
  unfold Registered State.setUser
  simp only [StdMap.getElem?_insert]
  split_ifs <;> simp

theorem handleRrcConReq_registered {s : State} {r rnti : Nat} {sTmsi : Option (Nat × Nat)}
    {cause : Nat} (h : Registered rnti (handleRrcConReq s r sTmsi cause).st) :
    Registered rnti s := by
  unfold handleRrcConReq at h
  rw [registered_setUser] at h
  split_ifs at h
  unfold Registered at h
  rwa [(sendConnectionSetup_spec s r _).1] at h

/-- A step after which a UE is registered and was not is RRCConnectionReconfigurationComplete. -/
theorem Change.raises {s s' : State} {e : Event} {rnti : Nat} (hc : Change s e s')
    (h0 : ¬ Registered rnti s) (h : Registered rnti s') :
    e = .reconfComplete rnti ∧ s.users[rnti]?.isSome := by
  cases hc with
  | same => exact absurd h h0
  | @kept _ r u u' hu hk =>
    rw [registered_setUser] at h
    split_ifs at h with hr
    · subst hr
      exact absurd ⟨u, hu, hk.state h⟩ h0
    · exact absurd h h0
  | @registered r u u' hu _ _ _ =>
    rw [registered_setUser] at h
    split_ifs at h with hr
    · subst hr
      exact ⟨rfl, by simp [hu]⟩
    · exact absurd h h0
  | @added r _ =>
    rw [registered_setUser] at h
    split_ifs at h
    · exact absurd h (by decide)
    · exact absurd h h0
  | @removed r =>
    obtain ⟨u, hu, hst⟩ := h
    unfold remUser at hu
    split at hu
    · exact absurd ⟨u, hu, hst⟩ h0
    · simp only [StdMap.getElem?_erase] at hu
      split_ifs at hu
      exact absurd ⟨u, hu, hst⟩ h0
  | request _ => exact absurd (handleRrcConReq_registered h) h0

theorem reconfComplete_registers {s : State} {rnti : Nat} (h : s.users[rnti]?.isSome) :
    Registered rnti (step s (.reconfComplete rnti)) := by
  obtain ⟨u, hu⟩ := Option.isSome_iff_exists.mp h
  refine ⟨(u.parseUlDcch s.cfg rnti .rrcConReconfigComplete).1, ?_, rfl⟩
  simp [step, handle, Event.reconfComplete, handleItem, onUser, State.setUser, hu]

/-- **Registration.** After any events a UE is registered if and only if
RRCConnectionReconfigurationComplete was received from it while it existed, whatever came before,
and it has stayed registered since. -/
theorem registered_iff (cfg : Cfg) (es : List Event) (rnti : Nat) :
    Registered rnti (exec step (init cfg) es) ↔
      ∃ pre post, es = pre ++ .reconfComplete rnti :: post ∧
        (exec step (init cfg) pre).users[rnti]?.isSome ∧
        AllStates step (Registered rnti)
          (step (exec step (init cfg) pre) (.reconfComplete rnti)) post := by
  constructor
  · intro h
    obtain ⟨pre, e, post, rfl, hpre, hpost⟩ := exists_raise (not_registered_init cfg rnti) es h
    obtain ⟨rfl, hsome⟩ := (step_change _ e).raises hpre hpost.first
    exact ⟨pre, post, rfl, hsome, hpost⟩
  · rintro ⟨pre, post, rfl, -, hpost⟩
    rw [exec_append, exec_cons]
    exact hpost.last

/-- The first message of the UE after random access is RRCConnectionReconfigurationComplete. -/
def unsecuredRun : List Event := [.addUser 70, .reconfComplete 70]

theorem registered_unsecuredRun :
    Registered 70 (exec step (init exampleCfg) unsecuredRun) ∧
      (∀ key es, .setupUeCtxt 70 key es ∉ unsecuredRun) ∧
      .rx 70 (.srb12 .securityModeComplete) ∉ unsecuredRun := by
  refine ⟨reconfComplete_registers (s := addUser (init exampleCfg) 70 |>.st) (by decide), ?_, ?_⟩
  · intro key es h
    simp [unsecuredRun, Event.reconfComplete] at h
  · intro h
    simp [unsecuredRun, Event.reconfComplete] at h

end Srsenb.Rrc
