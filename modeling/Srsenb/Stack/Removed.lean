import Srsenb.Mac.SrCalls
import Srsenb.Stack.Tunnels

/-! # A user that was removed

Between the removal of a user and the access that gives its RNTI anew, no layer knows it: what is
still under way for it is dropped. -/

open Srsenb.Run

namespace Srsenb.Rrc

theorem handle_users {s : State} {e : Event} {r : Nat}
    (h : (handle s e).st.users[r]?.isSome = true) :
    s.users[r]?.isSome = true ∨ e = .addUser r := by
  have hkeep : e.KeepsUsers → s.users[r]?.isSome = true := fun he => by
    have hdom := handle_dom s he
    rw [← StdMap.mem_dom, hdom] at h
    exact StdMap.mem_dom.mp h
  by_cases hr : r = e.user
  · subst hr
    cases e with
    | addUser rnti => exact .inr rfl
    | rx rnti item =>
      cases item with
      | remUser =>
        simp only [handle] at h
        split_ifs at h with hthere
        · exact .inl hthere
        · exact .inl h
      | _ => exact .inl (hkeep trivial)
    | _ => exact .inl (hkeep trivial)
  · rw [handle_of_ne s hr] at h
    exact .inl h

theorem remUser_users (s : State) (r : Nat) : (handle s (.rx r .remUser)).st.users[r]? = none := by
  cases hu : s.users[r]? with
  | none => simp [handle, hu]
  | some u => simp [handle, handleItem, remUser, hu]

end Srsenb.Rrc

/-! ## What MAC hands to PHY -/

namespace Srsenb.Mac

variable {lib : Lib} {r : Nat}

namespace MacState

theorem getDlSched_rnti {m : MacState} (h : m.ueDb[r]? = none) (tti : Nat) (paging : Option Nat)
    (generatePdu : Nat → GeneratePdu) :
    ∀ g ∈ (m.getDlSched lib tti paging generatePdu).2, g.rnti ≠ r := by
  intro g hg hr
  obtain ⟨d, -, hd⟩ := List.mem_filterMap.mp hg
  split_ifs at hd with hthere
  obtain rfl := Option.some.inj hd
  rw [show d.rnti = r from hr, h] at hthere
  cases hthere

/-- The grants so far are for users that MAC has. -/
def ForUsers (db : StdMap (Option MacUe)) (out : UlSchedOut) : Prop :=
  (∀ k : Nat, out.st.ueDb[k]?.isSome = db[k]?.isSome) ∧
    ∀ g ∈ out.grants, db[g.rnti]?.isSome = true

theorem ulGrant_forUsers {db : StdMap (Option MacUe)} {out : UlSchedOut} (h : ForUsers db out)
    (tti : Nat) (pusch : List UlSchedData) (buffers : Nat → Option Nat) (d : UlSchedData) :
    ForUsers db (ulGrant tti pusch buffers out d) := by
  obtain ⟨hdb, hgrants⟩ := h
  refine ⟨fun k => (ulGrant_isSome k).trans (hdb k), ?_⟩
  unfold ulGrant
  split_ifs
  · cases hp : out.st.ueDb[d.rnti]? with
    | none => exact hgrants
    | some p =>
      have hthere : db[d.rnti]?.isSome = true := by
        rw [← hdb, hp]
        rfl
      simp only [List.mem_append, List.mem_singleton]
      rintro g (hg | rfl)
      · exact hgrants g hg
      · exact hthere
  · exact hgrants

theorem getUlSched_rnti {m : MacState} (h : m.ueDb[r]? = none) (tti : Nat)
    (buffers : Nat → Option Nat) : ∀ g ∈ (m.getUlSched lib tti buffers).grants, g.rnti ≠ r := by
  have hall : ForUsers m.ueDb (m.getUlSched lib tti buffers) :=
    List.foldlRecOn (motive := fun out => ForUsers m.ueDb out) _ _
      (⟨fun _ => rfl, by simp⟩ : ForUsers m.ueDb { st := { m with sched := _ } })
      fun out hout d _ => ulGrant_forUsers hout tti _ buffers d
  intro g hg hr
  have hthere := hall.2 g hg
  rw [hr, h] at hthere
  cases hthere

theorem ulSched_phich {s : Sched} (h : s.ueDb[r]? = none) (tti : Nat) :
    ∀ p ∈ (s.ulSched lib tti).2.phich, p.rnti ≠ r := by
  by_cases hs : s.ulRuns = true
  · obtain ⟨⟨⟨s2, out⟩, db⟩, hrounds⟩ : ∃ x, (s.ulReady lib tti).puschRounds lib tti
        (s.ulReady lib tti).ueDb.keys = x := ⟨_, rfl⟩
    have hkeys : r ∉ (s.ulStart tti).ueDb.keys := by
      rw [StdMap.mem_keys, show (s.ulStart tti).ueDb[r]? = none from h]
      simp
    have hnone := Sched.phichs_other tti hkeys [] (s.ulStart tti).ueDb
    rw [Sched.ulSched_eq lib s tti hs hrounds]
    intro p hp hr
    have hmem : p ∈ (s.phichs tti).filter fun e => decide (e.rnti = r) :=
      List.mem_filter.mpr ⟨hp, decide_eq_true hr⟩
    rw [Sched.phichs, hnone] at hmem
    cases hmem
  · rw [Sched.ulSched_stays lib s tti hs]
    simp

end MacState

end Srsenb.Mac

/-! ## Runs without the user -/

namespace Srsenb.Stack

open Mac (MacState MacEvent MacAction)

variable {ρ π : Type} {E : Env ρ π} {st : State ρ π} {r : Nat} {S T : Set Nat}

/-- No layer has the user `r`. -/
structure Without (r : Nat) (st : State ρ π) : Prop where
  mac : st.mac.ueDb[r]? = none
  sched : st.mac.sched.ueDb[r]? = none
  rrc : st.rrc.users[r]? = none
  rlc : st.rlc[r]? = none
  pdcp : st.pdcp[r]? = none
  gtpu : st.gtpu[r]? = none

/-- An access or the start of MBMS gives the RNTI `r`. -/
def Gives (r : Nat) (st : State ρ π) : Event → Prop
  | .mac (.rachDetected _ _ _) => st.mac.lastRnti = r
  | .mac .addMbmsUser => mrnti = r
  | _ => False

/-- What PHY is told to do names no `r`. -/
def Unnamed (E : Env ρ π) (r : Nat) (st : State ρ π) : Event → Prop
  | .getDlSched tti paging generatePdu =>
    ∀ g ∈ (st.mac.getDlSched E.lib tti paging generatePdu).2, g.rnti ≠ r
  | .getUlSched tti buffers =>
    (∀ g ∈ (st.mac.getUlSched E.lib tti buffers).grants, g.rnti ≠ r) ∧
      ∀ p ∈ (st.mac.getUlSched E.lib tti buffers).phich, p.rnti ≠ r
  | _ => True

/-- The event has no effect on `r`: nothing leaves for it, and PHY is not told of it. -/
structure Dropped (E : Env ρ π) (r : Nat) (st : State ρ π) (e : Event) : Prop where
  sent : (step E st e).sent.filter (·.1 = r) = st.sent.filter (·.1 = r)
  unnamed : Unnamed E r st e

theorem Users.without (h : Users S st) (hr : r ∉ S) (hmbms : r ≠ mrnti) : Without r st := by
  have hnone : ∀ {β : Type} {m : StdMap β}, StdMap.dom m = S → m[r]? = none := by
    rintro β m rfl
    exact StdMap.notMem_dom.mp hr
  refine ⟨hnone h.ueDb, ?_, hnone h.rrc, hnone h.rlc, hnone h.pdcp,
    StdMap.notMem_dom.mp fun hg => hr (h.gtpu hg)⟩
  have hkeys := h.agree.keys r hmbms
  rw [hnone h.ueDb] at hkeys
  simpa using hkeys

theorem macCall_rrc {e : MacEvent} (hC : Allowed st (.mac e))
    (hr : (st.macCall E e).rrc.users[r]?.isSome = true) :
    st.rrc.users[r]?.isSome = true ∨ Gives r st (.mac e) := by
  have hadd : ∀ {m : MacState} {k : Nat},
      ({ st with mac := m }.rrcCall E (.addUser k)).rrc.users[r]?.isSome = true →
        st.rrc.users[r]?.isSome = true ∨ k = r := by
    intro m k hk
    obtain ⟨hrrc, -, -⟩ := rrcCall_above (E := E) { st with mac := m } (.addUser k)
    rw [hrrc] at hk
    exact (Rrc.handle_users hk).imp_right fun heq => Rrc.Event.addUser.inj heq
  have hkeep : st.mac.resets e = none → st.rrc.users[r]?.isSome = true := by
    intro he
    have hsame : SameAbove st (st.macCall E e) := by
      refine SameAbove.foldl ⟨rfl, rfl, rfl⟩ fun st' a ha => ?_
      cases a with
      | rrcAddUser rnti => exact absurd ha (MacState.handle_acts he rnti)
      | _ => exact .refl st'
    rw [← hsame.rrc]
    exact hr
  cases e with
  | rachDetected tti preambleIdx timeAdv =>
    obtain ⟨hacts, -, -⟩ :=
      MacState.rachDetected_eq E.lib E.locations st.mac tti preambleIdx timeAdv
    unfold State.macCall MacState.handle at hr
    simp only [hacts, List.foldl_cons, List.foldl_nil, State.macAction] at hr
    exact hadd hr
  | addMbmsUser => exact hadd hr
  | ueRem rnti | ueCfg rnti cfg bearers => exact hC.elim
  | _ => exact .inl (hkeep rfl)

/-- The users that there are after an event. -/
theorem step_rrc {e : Event} (hC : Allowed st e)
    (hr : (step E st e).rrc.users[r]?.isSome = true) :
    st.rrc.users[r]?.isSome = true ∨ Gives r st e := by
  have hkeep : (step E st e).rrc = st.rrc → st.rrc.users[r]?.isSome = true := fun heq => by
    rw [← heq]
    exact hr
  cases e with
  | mac e => exact macCall_rrc hC hr
  | getDlSched tti paging generatePdu => exact .inl hr
  | getUlSched tti buffers => exact .inl hr
  | ulBsr rnti lcid bsr setValue => exact .inl hr
  | readPdu rnti lcid nofBytes =>
    exact .inl (hkeep (SameAbove.rlcReadPdu (E := E) st rnti lcid nofBytes).rrc)
  | writePdu rnti lcid payload =>
    exact .inl (hkeep (KeepsAbove.rlcWritePdu (E := E) st rnti lcid payload).rrc)
  | dataPdu teid pdu => exact .inl (hkeep (SameAbove.gtpuDataPdu (E := E) st teid pdu).rrc)
  | rrc e =>
    obtain ⟨hrrc, -, -⟩ := rrcCall_above (E := E) st e
    rw [step, hrrc] at hr
    obtain hthere | heq := Rrc.handle_users hr
    · exact .inl hthere
    · subst heq
      exact hC.elim

theorem macCall_sent (st : State ρ π) (e : MacEvent) : (st.macCall E e).sent = st.sent := by
  refine List.foldlRecOn (motive := fun st' : State ρ π => st'.sent = st.sent) _ _ rfl
    fun st' h a _ => ?_
  cases a with
  | rrcAddUser rnti => exact (rrcCall_above (E := E) st' (.addUser rnti)).2.2.trans h
  | _ => exact h

/-- Only an uplink PDU makes something leave, and for its user alone. -/
theorem step_sent (h : Users S st) {e : Event} (hr : r ∉ S) :
    (step E st e).sent.filter (·.1 = r) = st.sent.filter (·.1 = r) := by
  have hsame : (step E st e).sent = st.sent →
      (step E st e).sent.filter (·.1 = r) = st.sent.filter (·.1 = r) := congrArg _
  cases e with
  | mac e => exact hsame (macCall_sent st e)
  | getDlSched tti paging generatePdu => rfl
  | getUlSched tti buffers => rfl
  | ulBsr rnti lcid bsr setValue => rfl
  | readPdu rnti lcid nofBytes => exact hsame (SameAbove.rlcReadPdu st rnti lcid nofBytes).sent
  | writePdu rnti lcid payload =>
    by_cases hthere : rnti ∈ S
    · have hne : r ≠ rnti := fun heq => hr (heq ▸ hthere)
      exact ((WorksFor.rlcWritePdu (h.rntis rnti hthere) lcid payload).other st r hne).sent
    · rw [step, h.writePdu_absent hthere]
  | dataPdu teid pdu => exact hsame (SameAbove.gtpuDataPdu st teid pdu).sent
  | rrc e => exact hsame (rrcCall_above st e).2.2

theorem Without.unnamed (h : Without r st) (e : Event) : Unnamed E r st e := by
  cases e with
  | getDlSched tti paging generatePdu => exact MacState.getDlSched_rnti h.mac tti paging generatePdu
  | getUlSched tti buffers =>
    exact ⟨MacState.getUlSched_rnti h.mac tti buffers, MacState.ulSched_phich h.sched tti⟩
  | _ => trivial

/-- The removal of a user. -/
theorem remUser_gone (st : State ρ π) (r : Nat) :
    (step E st (.rrc (.rx r .remUser))).rrc.users[r]? = none := by
  obtain ⟨hrrc, -, -⟩ := rrcCall_above (E := E) st (.rx r .remUser)
  rw [step, hrrc]
  exact Rrc.remUser_users st.rrc r

/-- A user that is not there stays away until it is given. -/
theorem Users.stays (h : Users S st) (hr : r ∉ S) {e : Event} (hC : Allowed st e)
    (hgives : ¬ Gives r st e) : ∃ T, Users T (Stack.step E st e) ∧ r ∉ T := by
  obtain ⟨T, hT⟩ := h.step (E := E) hC
  refine ⟨T, hT, fun hmem => ?_⟩
  have hthere : (Stack.step E st e).rrc.users[r]?.isSome = true := by
    rw [← StdMap.mem_dom, hT.rrc]
    exact hmem
  obtain hbefore | hg := step_rrc hC hthere
  · rw [← StdMap.mem_dom, h.rrc] at hbefore
    exact hr hbefore
  · exact hgives hg

end Srsenb.Stack
