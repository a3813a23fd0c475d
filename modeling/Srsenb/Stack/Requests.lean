import Srsenb.Stack.Removed

/-! # Scheduling requests of the users

From the subframe in which PHY hears the request of a user, the scheduler knows of it until PHY
has a grant for the user, whatever the layers do meanwhile. -/

open Srsenb.Run

namespace Srsenb.Rrc

/-- RRC has MAC configure or remove the user `r`. -/
def Action.Renews (r : Nat) : Action → Prop
  | .macUeCfg rnti _ _ _ _ _ => r = rnti
  | .macUeRem rnti => r = rnti
  | _ => False

theorem addUser_renews (s : State) (rnti r : Nat) :
    ∀ a ∈ (handle s (.addUser rnti)).acts, ¬ a.Renews r := by
  simp only [handle, addUser]
  split_ifs <;> simp [Action.Renews]

end Srsenb.Rrc

namespace Srsenb.Stack

open Mac (MacState MacEvent MacAction)
open Mac.Sched (Keyed SrStays SrWaits)

variable {ρ π : Type} {E : Env ρ π} {st st' st'' : State ρ π} {X : Set Nat}

/-- Requests are gone for users of `X` only. -/
def SrLeft (X : Set Nat) (st st' : State ρ π) : Prop :=
  SrStays X st.mac.sched.ueDb st'.mac.sched.ueDb

namespace SrLeft

theorem same (h : st'.mac = st.mac) : SrLeft X st st' := by
  unfold SrLeft
  rw [h]
  exact .refl X _

theorem foldl {α : Type} {G : State ρ π → α → State ρ π} {l : List α} (h : SrLeft X st st')
    (hG : ∀ st, ∀ a ∈ l, SrLeft X st (G st a)) : SrLeft X st (l.foldl G st') :=
  List.foldlRecOn (motive := fun st' => SrLeft X st st') _ _ h
    fun st' h a ha => h.trans (hG st' a ha)

/-! ### RLC, PDCP and GTP-U -/

theorem rlcReport (st : State ρ π) (a : Rlc.Action) : SrLeft X st (st.rlcReport a) := by
  cases a with
  | rlcBufferState rnti lcid txQueue retxQueue =>
    unfold SrLeft State.rlcReport MacState.rlcBufferState
    simp only
    split_ifs
    · exact Mac.Sched.indicate_sr _ _ fun _ => ⟨rfl, id⟩
    · exact .refl X _
  | _ => exact same rfl

theorem rlcReadPdu (st : State ρ π) (rnti lcid nofBytes : Nat) :
    SrLeft X st (st.rlcReadPdu E rnti lcid nofBytes) :=
  foldl (same rfl) fun st a _ => rlcReport st a

theorem rlcWriteSdu (st : State ρ π) (rnti lcid : Nat) (sdu : Rlc.Pdu) :
    SrLeft X st (st.rlcWriteSdu E rnti lcid sdu) :=
  foldl (same rfl) fun st a _ => rlcReport st a

theorem rlcClearBuffer (st : State ρ π) (rnti : Nat) : SrLeft X st (st.rlcClearBuffer E rnti) :=
  foldl (same rfl) fun st a _ => rlcReport st a

theorem pdcpAction (st : State ρ π) (a : Pdcp.Action) : SrLeft X st (st.pdcpAction E a) := by
  cases a with
  | rlcWriteSdu rnti lcid sdu => exact rlcWriteSdu st rnti lcid sdu
  | rrcWritePdu rnti lcid pdu => exact same rfl
  | gtpuWritePdu rnti lcid pdu => exact same rfl
  | deallocate sdu => exact same rfl

theorem pdcpWriteSdu (st : State ρ π) (rnti lcid : Nat) (sdu : Pdcp.Pdu) :
    SrLeft X st (st.pdcpWriteSdu E rnti lcid sdu) :=
  foldl (same rfl) fun st a _ => pdcpAction st a

theorem pdcpWritePdu (st : State ρ π) (rnti lcid : Nat) (sdu : Pdcp.Pdu) :
    SrLeft X st (st.pdcpWritePdu E rnti lcid sdu) :=
  foldl (same rfl) fun st a _ => pdcpAction st a

theorem rlcWritePdu (st : State ρ π) (rnti lcid : Nat) (payload : Rlc.Pdu) :
    SrLeft X st (st.rlcWritePdu E rnti lcid payload) := by
  refine foldl (same rfl) fun st' a _ => ?_
  cases a with
  | pdcpWritePdu rnti lcid sdu => exact pdcpWritePdu st' rnti lcid sdu
  | rlcBufferState rnti lcid txQueue retxQueue =>
    exact rlcReport st' (.rlcBufferState rnti lcid txQueue retxQueue)
  | deallocate sdu => exact same rfl

theorem gtpuDataPdu (st : State ρ π) (teid : Nat) (pdu : Gtpu.Pdu) :
    SrLeft X st (st.gtpuDataPdu E teid pdu) := by
  refine foldl (same rfl) fun st' a _ => ?_
  cases a with
  | writeSdu rnti lcid pdu => exact pdcpWriteSdu st' rnti lcid pdu
  | sendto addr teid pdu => exact same rfl

/-! ### RRC and MAC -/

theorem rrcAction (st : State ρ π) {a : Rrc.Action} (ha : ∀ r, a.Renews r → r ∈ X) :
    SrLeft X st (st.rrcAction E a) := by
  cases a with
  | dlCcch rnti msg | dlDcch rnti msg => exact pdcpWriteSdu st rnti _ _
  | macUeCfg rnti srI srNPucch cqiIdx cqiPucch cqiEnabled =>
    have h : SrLeft {rnti} st (st.rrcAction E
        (.macUeCfg rnti srI srNPucch cqiIdx cqiPucch cqiEnabled)) :=
      MacState.handle_sr E.lib E.locations st.mac (.ueCfg rnti _ _)
    exact h.mono fun r hr => ha r hr
  | macUeRem rnti =>
    have h : SrLeft {rnti} st (st.rrcAction E (.macUeRem rnti)) :=
      MacState.handle_sr E.lib E.locations st.mac (.ueRem rnti)
    exact h.mono fun r hr => ha r hr
  | macPhyConfigEnabled rnti enabled => exact Mac.Sched.indicate_sr _ _ fun _ => ⟨rfl, id⟩
  | macBearerUeCfg rnti lcid =>
    unfold SrLeft State.rrcAction MacState.bearerUeCfg
    simp only
    split_ifs
    · exact Mac.Sched.indicate_sr _ _ fun _ => ⟨rfl, id⟩
    · exact .refl X _
  | rlcClearBuffer rnti => exact rlcClearBuffer st rnti
  | _ => exact same rfl

theorem rrcCall (st : State ρ π) {e : Rrc.Event}
    (he : ∀ a ∈ (Rrc.handle st.rrc e).acts, ∀ r, a.Renews r → r ∈ X) :
    SrLeft X st (st.rrcCall E e) :=
  foldl (same rfl) fun st' a ha => rrcAction st' (he a ha)

/-- MAC tells RRC of new users only. -/
theorem macActions (st : State ρ π) (acts : List MacAction) :
    SrLeft X st (acts.foldl (State.macAction E) st) := by
  refine foldl (same rfl) fun st' a _ => ?_
  cases a with
  | rrcAddUser rnti =>
    exact rrcCall st' fun a ha r hr => absurd hr (Rrc.addUser_renews st'.rrc rnti r a ha)
  | _ => exact same rfl

theorem macCall (st : State ρ π) (e : MacEvent) :
    SrLeft (st.mac.renews e) st (st.macCall E e) := by
  have hmac := MacState.handle_sr E.lib E.locations st.mac e
  exact hmac.trans (macActions { st with mac := (st.mac.handle E.lib E.locations e).st } _)

end SrLeft

/-! ## Runs -/

/-- The users whose requests an event may take: MAC configures or removes them, or PHY gets their
grants. -/
def SrTaken (E : Env ρ π) (st : State ρ π) : Event → Set Nat
  | .mac e => st.mac.renews e
  | .getUlSched tti buffers => {r | ∃ g ∈ (st.mac.getUlSched E.lib tti buffers).grants, g.rnti = r}
  | .rrc e => {r | ∃ a ∈ (Rrc.handle st.rrc e).acts, a.Renews r}
  | _ => ∅

theorem step_srLeft (h : st.mac.UsersAgree) (e : Event) :
    SrLeft ({mrnti} ∪ SrTaken E st e) st (step E st e) := by
  cases e with
  | mac e => exact (SrLeft.macCall st e).mono fun r hr => Or.inr hr
  | getDlSched tti paging generatePdu => exact Mac.Sched.dlSched_sr E.lib st.mac.sched tti paging
  | getUlSched tti buffers => exact MacState.getUlSched_sr h tti buffers
  | ulBsr rnti lcid bsr setValue => exact Mac.Sched.indicate_sr _ _ fun _ => ⟨rfl, id⟩
  | readPdu rnti lcid nofBytes => exact SrLeft.rlcReadPdu st rnti lcid nofBytes
  | writePdu rnti lcid payload => exact SrLeft.rlcWritePdu st rnti lcid payload
  | dataPdu teid pdu => exact SrLeft.gtpuDataPdu st teid pdu
  | rrc e => exact SrLeft.rrcCall st fun a ha r hr => Or.inr ⟨a, ha, hr⟩

/-- What holds of the users in every state. -/
structure Known (st : State ρ π) : Prop where
  users : ∃ S, Users S st
  keyed : Keyed st.mac.sched.ueDb

theorem Known.step (h : Known st) {e : Event} (ha : Allowed st e) : Known (step E st e) := by
  obtain ⟨S, hS⟩ := h.users
  exact ⟨hS.step ha, (step_srLeft hS.agree e h.keyed).1⟩

/-- A request that PHY hears of a user is known. -/
theorem srDetected_waits {r : Nat} (h : Known st) (hr : r ≠ mrnti)
    (hthere : st.rrc.users[r]?.isSome = true) :
    SrWaits (step E st (.mac (.srDetected r))).mac.sched.ueDb r := by
  obtain ⟨S, hS⟩ := h.users
  have hmac : st.mac.ueDb[r]?.isSome = true := by
    rw [← StdMap.mem_dom, hS.ueDb, ← hS.rrc]
    exact StdMap.mem_dom.mpr hthere
  have hwaits := MacState.srDetected_waits E.lib E.locations hmac
    ((hS.agree.keys r hr).mp hmac)
  have hkeyed := (MacState.handle_sr E.lib E.locations st.mac (.srDetected r) h.keyed).1
  exact (SrLeft.macActions (X := ∅) (E := E) { st with
    mac := (st.mac.handle E.lib E.locations (.srDetected r)).st } _ hkeyed).2 r id hwaits

/-- **A scheduling request is not lost.** From the subframe in which PHY hears it, it waits in the
scheduler in each state, until MAC configures or removes the user or PHY gets a grant for it. -/
theorem sr_waits (E : Env ρ π) (sched : Mac.Sched) (cfg : Rrc.Cfg) {r : Nat} (hr : r ≠ mrnti)
    (es es' : List Event)
    (h : AllSteps (step E) Allowed (init sched cfg) (es ++ .mac (.srDetected r) :: es'))
    (hthere : (exec (step E) (init sched cfg) es).rrc.users[r]?.isSome = true)
    (htaken : AllSteps (step E) (fun st e => r ∉ SrTaken E st e)
      (exec (step E) (init sched cfg) (es ++ [.mac (.srDetected r)])) es') :
    AllStates (step E) (fun st => SrWaits st.mac.sched.ueDb r)
      (exec (step E) (init sched cfg) (es ++ [.mac (.srDetected r)])) es' := by
  obtain ⟨hbefore, hsr, hafter⟩ := allSteps_append.mp h
  have hinit : Known (init sched cfg : State ρ π) :=
    ⟨⟨∅, Users.init sched cfg⟩, by simp [Keyed, init, MacState.init]⟩
  have hknown := AllStates.last (allStates_of_allSteps (I := Known)
    (fun _ _ hI hC => hI.step hC) hinit hbefore)
  rw [exec_append, exec_cons, exec_nil] at htaken ⊢
  have hC := hafter.and htaken
  have hstep : ∀ (st : State ρ π) e, Known st ∧ SrWaits st.mac.sched.ueDb r →
      Allowed st e ∧ r ∉ SrTaken E st e →
        Known (step E st e) ∧ SrWaits (step E st e).mac.sched.ueDb r := by
    rintro st e ⟨hI, hw⟩ ⟨ha, ht⟩
    obtain ⟨S, hS⟩ := hI.users
    have hout : r ∉ {mrnti} ∪ SrTaken E st e := fun hmem => hmem.elim hr ht
    exact ⟨hI.step ha, (step_srLeft hS.agree e hI.keyed).2 r hout hw⟩
  have hfirst := And.intro (hknown.step (E := E) hsr) (srDetected_waits (E := E) hknown hr hthere)
  exact (allStates_of_allSteps hstep hfirst hC).mono fun st hI => hI.2

/-- Data, an uplink PDU and another access come before the grant. -/
theorem sr_waits_two :
    AllStates (step exampleEnv) (fun st => SrWaits st.mac.sched.ueDb 70)
      (exec (step exampleEnv) (init Mac.Sched.exampleSched Rrc.exampleCfg)
        ([.mac (.rachDetected 1 0 0)] ++ [.mac (.srDetected 70)]))
      [.dataPdu (70 * 2 ^ 16 + 3) [1, 2], .writePdu 70 3 [1], .mac (.rachDetected 3 1 0),
        .getDlSched 5 none fun _ _ _ _ => none, .rrc (.rx 70 .actUser)] := by
  have hlast : ∀ st : State (Nat → Nat) Unit, st.mac.lastRnti = 71 →
      70 ∉ st.mac.renews (.rachDetected 3 1 0) := by
    intro st h
    simp [MacState.renews, h]
  have hitem : ∀ s : Rrc.State, (Rrc.handle s (.rx 70 .actUser)).acts = [] := by
    intro s
    simp only [Rrc.handle]
    split_ifs <;> rfl
  refine sr_waits exampleEnv Mac.Sched.exampleSched Rrc.exampleCfg (by decide)
    [.mac (.rachDetected 1 0 0)] _
    ⟨trivial, trivial, trivial, trivial, trivial, trivial, trivial, trivial⟩ rfl
    ⟨id, id, hlast _ rfl, id, ?_, trivial⟩
  rintro ⟨a, ha, -⟩
  rw [hitem] at ha
  cases ha

end Srsenb.Stack
