import Srsenb.Mac.DataBounds
import Srsenb.Mac.RntiReuse
import Srsenb.Mac.RxBuffers
import Srsenb.Stack.Stack
import Srsenb.Upper.RrcSteps

/-! # The users of the layers

MAC takes a new user to RRC, RRC takes it to RLC and PDCP, and RRC removes it from all of them.
Everything else looks a user up. -/

open Srsenb.Run
open Srsenb.StdMap (dom mem_dom mem_dom_of_get notMem_dom)

namespace Srsenb.Rrc

/-! ## What RRC asks for -/

/-- The user of an action in another layer. PHY, S1AP and the queue are outside. -/
def Action.user : Action → Option Nat
  | .dlCcch rnti _ | .dlDcch rnti _ => some rnti
  | .macUeCfg rnti _ _ _ _ _ | .macPhyConfigEnabled rnti _ => some rnti
  | .macBearerUeCfg rnti _ | .macUeRem rnti => some rnti
  | .rlcAddUser rnti | .rlcAddBearer rnti _ | .rlcClearBuffer rnti | .rlcRemUser rnti => some rnti
  | .pdcpAddUser rnti | .pdcpAddBearer rnti _ => some rnti
  | .pdcpConfigSecurity rnti _ _ | .pdcpRemUser rnti => some rnti
  | .gtpuAddBearer rnti _ _ _ | .gtpuRemUser rnti => some rnti
  | _ => none

/-- The action is for one of the users `S`, whom it neither adds nor removes. -/
def Action.Plain (S : Set Nat) : Action → Prop
  | .rlcAddUser _ | .rlcRemUser _ | .pdcpAddUser _ | .pdcpRemUser _ => False
  | .macUeRem _ | .gtpuRemUser _ => False
  | a => ∀ r ∈ a.user, r ∈ S

def AllPlain (S : Set Nat) (acts : List Action) : Prop := ∀ a ∈ acts, a.Plain S

attribute [local simp] Action.user Action.Plain

variable {S : Set Nat} {acts acts' : List Action}

theorem Action.Plain.user {a : Action} (h : a.Plain S) : ∀ r ∈ a.user, r ∈ S := by
  cases a with
  | rlcAddUser rnti | rlcRemUser rnti | pdcpAddUser rnti | pdcpRemUser rnti => exact h.elim
  | macUeRem rnti | gtpuRemUser rnti => exact h.elim
  | _ => exact h

theorem AllPlain.append (h : AllPlain S acts) (h' : AllPlain S acts') :
    AllPlain S (acts ++ acts') := List.forall_mem_append.mpr ⟨h, h'⟩

theorem AllPlain.cons {a : Action} (ha : a.Plain S) (h : AllPlain S acts) :
    AllPlain S (a :: acts) := List.forall_mem_cons.mpr ⟨ha, h⟩

variable {u : Ue} {cfg : Cfg} {rnti : Nat} {es : List ErabItem}

theorem sendConnectionReconf_plain (hrnti : rnti ∈ S) :
    AllPlain S (u.sendConnectionReconf cfg rnti).2 := by
  unfold Ue.sendConnectionReconf
  simp only
  split <;> simp [AllPlain, hrnti]

theorem setupErabItems_plain (hrnti : rnti ∈ S) (es : List ErabItem) :
    ∀ u : Ue, AllPlain S (u.setupErabItems rnti es).2.1 := by
  induction es with
  | nil => simp [Ue.setupErabItems, AllPlain]
  | cons e es ih =>
    intro u
    unfold Ue.setupErabItems
    split_ifs
    · simp [AllPlain]
    · refine AllPlain.append ?_ (ih _)
      simp [AllPlain, Ue.setupErab, hrnti]

theorem addNewBearers_plain (hrnti : rnti ∈ S) (cfg : Cfg) (es : List ErabItem) :
    ∀ u : Ue, AllPlain S (u.addNewBearers cfg rnti es).2.1 := by
  induction es with
  | nil => simp [Ue.addNewBearers, AllPlain]
  | cons e es ih =>
    intro u
    unfold Ue.addNewBearers
    simp only
    split
    · simp [AllPlain]
    · refine AllPlain.append ?_ (ih _)
      simp [AllPlain, hrnti]

theorem sendConnectionReconfNewBearer_plain (hrnti : rnti ∈ S) :
    AllPlain S (u.sendConnectionReconfNewBearer cfg rnti es).2 := by
  have h := addNewBearers_plain hrnti cfg es u.nextTransaction.2
  unfold Ue.sendConnectionReconfNewBearer
  simp only
  split
  · rename_i heq
    rw [heq] at h
    exact h
  · rename_i heq
    rw [heq] at h
    exact h.append (by simp [AllPlain, hrnti])

theorem setupErabsBearer_plain (hrnti : rnti ∈ S) :
    AllPlain S (u.setupErabsBearer cfg rnti es).2 := by
  have h := setupErabItems_plain hrnti es u
  unfold Ue.setupErabsBearer
  split
  · rename_i heq
    rw [heq] at h
    exact h
  · rename_i heq
    rw [heq] at h
    refine h.append (.cons ?_ (sendConnectionReconfNewBearer_plain hrnti))
    simp [Ue.notifyS1apUeErabSetupResponse]

theorem parseUlDcch_plain (hrnti : rnti ∈ S) (msg : UlDcchMsg) :
    AllPlain S (u.parseUlDcch cfg rnti msg).2 := by
  cases msg with
  | securityModeComplete =>
    refine .cons ?_ (sendConnectionReconf_plain hrnti)
    simp [Ue.notifyS1apUeCtxtSetupComplete]
  | ueCapabilityInfo => exact sendConnectionReconf_plain hrnti
  | _ => simp [AllPlain, Ue.parseUlDcch, Ue.handleRrcConSetupComplete,
      Ue.handleRrcReconfComplete, hrnti]

theorem sendConnectionSetup_plain (hrnti : rnti ∈ S) (s : State) (u : Ue) :
    AllPlain S (sendConnectionSetup s rnti u).2.2 := by
  unfold sendConnectionSetup
  simp only
  split
  · simp [AllPlain]
  · split <;> simp [AllPlain, hrnti]

theorem parseUlCcch_plain (hrnti : rnti ∈ S) (s : State) (msg : UlCcchMsg) :
    AllPlain S (parseUlCcch s rnti msg).acts := by
  cases msg with
  | rrcConReq sTmsi cause =>
    unfold parseUlCcch handleRrcConReq
    split_ifs
    · exact sendConnectionSetup_plain hrnti s _
    · simp [AllPlain]
  | rrcConReestReq oldRnti =>
    unfold parseUlCcch
    simp only
    split_ifs <;> simp [AllPlain, hrnti]
  | other => simp [AllPlain, parseUlCcch]

theorem onUser_plain {s : State} {f : Ue → Ue × List Action}
    (hf : ∀ u, rnti ∈ S → AllPlain S (f u).2) (hS : s.users[rnti]?.isSome = true → rnti ∈ S) :
    AllPlain S (onUser s rnti f).acts := by
  unfold onUser
  split
  · simp [AllPlain]
  · rename_i u hu
    exact hf u (hS (by rw [hu]; rfl))

/-! ## What an event does to the table -/

/-- The event adds no user and removes none. -/
def Event.KeepsUsers : Event → Prop
  | .addUser _ => False
  | .rx _ .remUser => False
  | _ => True

/-- The user whose record an event changes. -/
def Event.user : Event → Nat
  | .rx rnti _ | .addUser rnti | .updUser _ rnti | .writeDlInfo rnti _ => rnti
  | .setupUeCtxt rnti _ _ | .setupUeErabs rnti _ | .releaseErabs rnti => rnti
  | .timeout rnti _ | .notifyConnected rnti => rnti

theorem handle_plain (s : State) {e : Event} (he : e.KeepsUsers)
    (hS : s.users[e.user]?.isSome = true → e.user ∈ S) : AllPlain S (handle s e).acts := by
  cases e with
  | rx rnti item =>
    unfold handle
    simp only
    split_ifs with hthere
    · cases item with
      | srb0 msg => exact parseUlCcch_plain (hS hthere) s msg
      | srb12 msg => exact onUser_plain (fun u hrnti => parseUlDcch_plain hrnti msg) hS
      | remUser => exact he.elim
      | relUser =>
        refine onUser_plain (fun u hrnti => ?_) hS
        split_ifs <;> simp [AllPlain, Ue.sendConnectionRelease, hrnti]
      | rlfUser b =>
        refine onUser_plain (fun u hrnti => ?_) hS
        simp only
        split_ifs <;> simp [AllPlain]
      | actUser | invalid => simp [AllPlain, handleItem]
    · simp [AllPlain]
  | addUser rnti => exact he.elim
  | updUser newRnti oldRnti =>
    refine AllPlain.cons (by simp) (onUser_plain (fun u hrnti => ?_) hS)
    split_ifs <;>
      simp [AllPlain, Ue.sendConnectionRelease,
        Ue.sendConnectionReconfUpd, show oldRnti ∈ S from hrnti]
  | writeDlInfo rnti sdu =>
    exact onUser_plain (fun u hrnti => by simp [AllPlain, hrnti]) hS
  | setupUeCtxt rnti key es =>
    refine onUser_plain (fun u hrnti => AllPlain.append (.cons ?_ ?_) ?_) hS
    · simp [hrnti]
    · simp [AllPlain, Ue.sendSecurityModeCommand, hrnti]
    · exact setupErabItems_plain hrnti es _
  | setupUeErabs rnti es => exact onUser_plain (fun u hrnti => setupErabsBearer_plain hrnti) hS
  | releaseErabs rnti => exact onUser_plain (fun u _ => by simp [AllPlain]) hS
  | timeout rnti b =>
    unfold handle isTimeout
    simp only
    split_ifs
    · simp [AllPlain]
    all_goals exact onUser_plain (fun u _ => by simp [AllPlain]) hS
  | notifyConnected rnti =>
    unfold handle notifyConnected
    simp only
    split_ifs
    · simp [AllPlain]
    · refine onUser_plain (fun u _ => ?_) hS
      split_ifs <;> simp [AllPlain]

theorem handle_dom (s : State) {e : Event} (he : e.KeepsUsers) :
    dom (handle s e).st.users = dom s.users := by
  obtain ⟨s', hs'⟩ : ∃ s', step s e = s' := ⟨_, rfl⟩
  have hchange := step_change s e
  change dom (step s e).users = dom s.users
  rw [hs'] at hchange ⊢
  clear hs'
  cases hchange with
  | same => rfl
  | kept hu _ => exact StdMap.dom_insert_of_mem (mem_dom_of_get hu) _
  | registered hu _ _ _ => exact StdMap.dom_insert_of_mem (mem_dom_of_get hu) _
  | added _ => exact he.elim
  | removed => exact he.elim
  | request hu =>
    obtain ⟨-, u', husers, -⟩ := handleRrcConReq_spec hu _ _
    rw [husers]
    exact StdMap.dom_insert_of_mem (mem_dom_of_get hu) _

end Srsenb.Rrc

/-! ## The users of MAC -/

namespace Srsenb.Mac

variable {lib : Lib} {locations : Nat → Nat → Nat → DciCce}

namespace Sched

theorem dlSchedData_isSome (s : Sched) (k : Nat) :
    (s.dlSchedData lib).1.ueDb[k]?.isSome = s.ueDb[k]?.isSome := by
  unfold dlSchedData DlMetric.newTti
  simp only [StdMap.visit_isSome]
  unfold prachStart
  split_ifs <;> rfl

theorem dlSched_isSome (s : Sched) (tti : Nat) (paging : Option Nat) (k : Nat) :
    (s.dlSched lib tti paging).1.ueDb[k]?.isSome = s.ueDb[k]?.isSome := by
  by_cases hs : s.configured = true
  · rw [dlSched_eq lib hs, dlSchedData_isSome, dataReady_ueDb]
  · rw [Bool.not_eq_true] at hs
    simp [dlSched, hs]

end Sched

namespace MacState

/-- The call neither adds nor removes a user. -/
structure SameUsers (m m' : MacState) : Prop where
  agree : m.UsersAgree → m'.UsersAgree
  ueDb : dom m'.ueDb = dom m.ueDb
  lastRnti : m.lastRnti < 2 ^ 16 → m'.lastRnti < 2 ^ 16

variable {m : MacState}

theorem SameUsers.refl (m : MacState) : m.SameUsers m := ⟨id, rfl, id⟩

theorem SameUsers.setSched {s : Sched}
    (hs : ∀ r : Nat, s.ueDb[r]?.isSome = true ↔ m.sched.ueDb[r]?.isSome = true) :
    m.SameUsers { m with sched := s } :=
  ⟨fun h => h.setSched hs, rfl, id⟩

theorem rlcBufferState_same (m : MacState) (rnti lcid txQueue retxQueue : Nat) :
    m.SameUsers (m.rlcBufferState rnti lcid txQueue retxQueue) := by
  unfold rlcBufferState
  split_ifs
  · exact .setSched (indicate_isSome _ _ _)
  · exact .refl m

theorem bearerUeCfg_same (m : MacState) (rnti lcid : Nat) (direction : Direction) :
    m.SameUsers (m.bearerUeCfg rnti lcid direction) := by
  unfold bearerUeCfg
  split_ifs
  · exact .setSched (indicate_isSome _ _ _)
  · exact .refl m

theorem phyConfigEnabled_same (m : MacState) (rnti : Nat) (enabled : Bool) :
    m.SameUsers (m.phyConfigEnabled rnti enabled) := .setSched (indicate_isSome _ _ _)

theorem ulBsr_same (m : MacState) (rnti lcid bsr : Nat) (setValue : Bool) :
    m.SameUsers { m with sched := m.sched.ulBsr rnti lcid bsr setValue } :=
  .setSched (indicate_isSome _ _ _)

/-- A call that makes no user anew and takes none out. -/
theorem handle_same {e : MacEvent} (ha : m.Allowed e) (he : m.resets e = none) :
    m.SameUsers (m.handle lib locations e).st where
  agree h := step_agree lib locations h e ha
  ueDb := by
    ext r
    rw [mem_dom, mem_dom, handle_isSome ha (by simp [he])]
  lastRnti h := by
    have hlast : (m.handle lib locations e).st.lastRnti = m.lastRnti ∨ _ := handle_lastRnti e
    rcases hlast with heq | heq
    · rwa [heq]
    · rw [heq]
      split_ifs <;> omega

/-- A call that makes no user anew tells RRC of none. -/
theorem handle_acts {e : MacEvent} (he : m.resets e = none) :
    ∀ r, .rrcAddUser r ∉ (m.handle lib locations e).acts := by
  intro r
  cases e with
  | rachDetected tti preambleIdx timeAdv => cases he
  | ueRem rnti => cases he
  | addMbmsUser => cases he
  | ueCfg rnti cfg bearers =>
    simp only [handle, ueCfg]
    split
    · simp
    · split_ifs <;> simp
  | rlFailure rnti =>
    simp only [handle, rlFailure, onUe]
    split_ifs <;> simp
  | ackInfo tti rnti tb ack =>
    simp only [handle, ackInfo]
    split_ifs <;> simp
  | crcInfo tti rnti nofBytes crc =>
    simp only [handle, crcInfo, onUe]
    cases (m.ueDb.sub rnti).bind fun u => u.pendingBuffers (MacUe.bufferOf tti) <;>
      split_ifs <;> simp
  | _ =>
    simp only [handle, rlOk, setDlAntInfo, riInfo, pmiInfo, cqiInfo, snrInfo, srDetected, onUe]
    split_ifs <;> simp

theorem getDlSched_same (m : MacState) (tti : Nat) (paging : Option Nat)
    (generatePdu : Nat → GeneratePdu) :
    m.SameUsers (m.getDlSched lib tti paging generatePdu).1 := by
  have hsched : m.SameUsers { m with sched := (m.sched.dlSched lib tti paging).1 } :=
    .setSched fun r => by rw [Sched.dlSched_isSome]
  exact hsched

theorem ulGrant_same (tti : Nat) (pusch : List UlSchedData) (buffers : Nat → Option Nat)
    {out : UlSchedOut} (h : m.SameUsers out.st) (d : UlSchedData) :
    m.SameUsers (ulGrant tti pusch buffers out d).st := by
  unfold ulGrant
  split_ifs
  · split
    · exact h
    · rename_i p hp
      refine ⟨fun hm => ?_, ?_, h.lastRnti⟩
      · have hagree := h.agree hm
        refine ⟨fun r hr => ?_, fun r q hq => ?_⟩
        · rw [← hagree.keys r hr]
          exact StdMap.isSome_insert hp
        · simp only [StdMap.getElem?_insert] at hq
          split_ifs at hq
          · rw [← Option.some.inj hq, Option.isSome_map, Option.isSome_map]
            exact hagree.live _ p hp
          · exact hagree.live r q hq
      · exact (StdMap.dom_insert_of_mem (mem_dom_of_get hp) _).trans h.ueDb
  · exact h

theorem getUlSched_same (m : MacState) (tti : Nat) (buffers : Nat → Option Nat) :
    m.SameUsers (m.getUlSched lib tti buffers).st := by
  have hsched : m.SameUsers { m with sched := (m.sched.ulSched lib tti).1 } :=
    .setSched fun r => by rw [Sched.ulSched_isSome]
  exact List.foldlRecOn (motive := fun out : UlSchedOut => m.SameUsers out.st) _ _ hsched
    fun out h d _ => ulGrant_same tti _ buffers h d

end MacState

end Srsenb.Mac

/-! ## The users of RLC, PDCP and GTP-U -/

namespace Srsenb.Rlc

variable {ρ : Type} (R : UserRlc ρ) (users : StdMap ρ) (rnti lcid : Nat)

theorem readPdu_dom (nofBytes : Nat) :
    dom (readPdu R users rnti lcid nofBytes).1 = dom users := by
  unfold readPdu
  split
  · rfl
  · rename_i u hu
    exact StdMap.dom_insert_of_mem (mem_dom_of_get hu) _

theorem writePdu_dom (payload : Pdu) : dom (writePdu R users rnti lcid payload).1 = dom users := by
  unfold writePdu
  split
  · rfl
  · rename_i u hu
    exact StdMap.dom_insert_of_mem (mem_dom_of_get hu) _

theorem writeSdu_dom (sdu : Pdu) : dom (writeSdu R users rnti lcid sdu).1 = dom users := by
  unfold writeSdu
  split
  · rfl
  · rename_i u hu
    exact StdMap.dom_insert_of_mem (mem_dom_of_get hu) _

theorem addUser_dom : dom (addUser R users rnti) = insert rnti (dom users) := by
  unfold addUser
  split_ifs with h
  · exact (Set.insert_eq_of_mem (mem_dom.mpr h)).symm
  · exact StdMap.dom_insert _ _ _

end Srsenb.Rlc

namespace Srsenb.Pdcp

variable {π : Type} (P : UserPdcp π) (users : StdMap π) (rnti lcid : Nat)

/-- The user that an action is for. -/
def Action.user : Action → Option Nat
  | .rlcWriteSdu rnti _ _ | .rrcWritePdu rnti _ _ | .gtpuWritePdu rnti _ _ => some rnti
  | .deallocate _ => none

theorem writePdu_dom (sdu : Pdu) : dom (writePdu P users rnti lcid sdu).1 = dom users := by
  unfold writePdu
  split
  · rfl
  · rename_i u hu
    exact StdMap.dom_insert_of_mem (mem_dom_of_get hu) _

theorem writeSdu_dom (rbIsUm : Nat → Bool) (sdu : Pdu) :
    dom (writeSdu P users rnti lcid rbIsUm sdu).1 = dom users := by
  unfold writeSdu
  split
  · rfl
  · rename_i u hu
    exact StdMap.dom_insert_of_mem (mem_dom_of_get hu) _

theorem addUser_dom : dom (addUser P users rnti) = insert rnti (dom users) := by
  unfold addUser
  split_ifs with h
  · exact (Set.insert_eq_of_mem (mem_dom.mpr h)).symm
  · exact StdMap.dom_insert _ _ _

/-- A PDU is handed on for its own user, which is there. -/
theorem writePdu_user (sdu : Pdu) : ∀ a ∈ (writePdu P users rnti lcid sdu).2, ∀ r ∈ a.user,
    r = rnti ∧ rnti ∈ dom users := by
  unfold writePdu
  split
  · simp [Action.user]
  · rename_i u hu
    intro a ha r hr
    obtain ⟨d, -, rfl⟩ := List.mem_map.mp ha
    refine ⟨?_, mem_dom_of_get hu⟩
    cases d <;> exact (Option.some.inj hr).symm

theorem writeSdu_user (rbIsUm : Nat → Bool) (sdu : Pdu) :
    ∀ a ∈ (writeSdu P users rnti lcid rbIsUm sdu).2, ∀ r ∈ a.user, r = rnti ∧ rnti ∈ dom users := by
  unfold writeSdu
  split
  · simp [Action.user]
  · rename_i u hu
    intro a ha r hr
    obtain ⟨d, -, rfl⟩ := List.mem_map.mp ha
    exact ⟨(Option.some.inj hr).symm, mem_dom_of_get hu⟩

end Srsenb.Pdcp

namespace Srsenb.Gtpu

theorem addBearer_dom (db : RntiBearers) (rnti : Rnti) (lcid : Lcid) (addr teidOut : Nat) :
    dom (addBearer db rnti lcid addr teidOut).1 = insert rnti.val (dom db) := by
  unfold addBearer
  simp only
  split_ifs <;> simp

end Srsenb.Gtpu

/-! ## The users of the stack -/

namespace Srsenb.Stack

open Mac (MacState MacEvent MacAction)

variable {ρ π : Type} {E : Env ρ π} {st : State ρ π} {S : Set Nat} {rnti lcid : Nat}

/-- Every layer has the users of RRC, and there are tunnels for them only. -/
structure UsersAgree (st : State ρ π) : Prop where
  mac : st.mac.UsersAgree
  ueDb : dom st.mac.ueDb = dom st.rrc.users
  rlc : dom st.rlc = dom st.rrc.users
  pdcp : dom st.pdcp = dom st.rrc.users
  gtpu : dom st.gtpu ⊆ dom st.rrc.users

/-- The calls of another layer come from that layer alone, and `ack_info` for users that are
there. -/
def Allowed (st : State ρ π) : Event → Prop
  | .mac (.ueRem _) | .mac (.ueCfg _ _ _) | .rrc (.addUser _) => False
  | .mac e => st.mac.Allowed e
  | _ => True

/-- The users of each layer are `S`. -/
structure Users (S : Set Nat) (st : State ρ π) : Prop where
  agree : st.mac.UsersAgree
  lastRnti : st.mac.lastRnti < 2 ^ 16
  rntis : ∀ r ∈ S, r < 2 ^ 16
  ueDb : dom st.mac.ueDb = S
  rrc : dom st.rrc.users = S
  rlc : dom st.rlc = S
  pdcp : dom st.pdcp = S
  gtpu : dom st.gtpu ⊆ S

namespace Users

theorem usersAgree (h : Users S st) : UsersAgree st where
  mac := h.agree
  ueDb := h.ueDb.trans h.rrc.symm
  rlc := h.rlc.trans h.rrc.symm
  pdcp := h.pdcp.trans h.rrc.symm
  gtpu := h.rrc.symm ▸ h.gtpu

theorem setMac (h : Users S st) {m : MacState} (hm : st.mac.SameUsers m) :
    Users S { st with mac := m } :=
  { h with
    agree := hm.agree h.agree, lastRnti := hm.lastRnti h.lastRnti, ueDb := hm.ueDb.trans h.ueDb }

theorem setRlc (h : Users S st) {rlc : StdMap ρ} (hd : dom rlc = dom st.rlc) :
    Users S { st with rlc := rlc } := { h with rlc := hd.trans h.rlc }

theorem setPdcp (h : Users S st) {pdcp : StdMap π} (hd : dom pdcp = dom st.pdcp) :
    Users S { st with pdcp := pdcp } := { h with pdcp := hd.trans h.pdcp }

theorem setGtpu (h : Users S st) {gtpu : Gtpu.RntiBearers} (hd : dom gtpu ⊆ S) :
    Users S { st with gtpu := gtpu } := { h with gtpu := hd }

theorem output (h : Users S st) (rnti : Nat) (o : Output) : Users S (st.output rnti o) := { h with }

theorem rlcReport (h : Users S st) (a : Rlc.Action) : Users S (st.rlcReport a) := by
  cases a with
  | rlcBufferState rnti lcid txQueue retxQueue =>
    exact h.setMac (MacState.rlcBufferState_same _ _ _ _ _)
  | _ => exact h

theorem rlcReports (h : Users S st) (acts : List Rlc.Action) :
    Users S (acts.foldl State.rlcReport st) :=
  List.foldlRecOn (motive := fun st : State ρ π => Users S st) _ _ h fun _ h a _ => h.rlcReport a

theorem rlcReadPdu (h : Users S st) (rnti lcid nofBytes : Nat) :
    Users S (st.rlcReadPdu E rnti lcid nofBytes) :=
  (h.setRlc (Rlc.readPdu_dom E.rlc st.rlc rnti lcid nofBytes)).rlcReports _

theorem rlcWriteSdu (h : Users S st) (rnti lcid : Nat) (sdu : Rlc.Pdu) :
    Users S (st.rlcWriteSdu E rnti lcid sdu) :=
  (h.setRlc (Rlc.writeSdu_dom E.rlc st.rlc rnti lcid sdu)).rlcReports _

theorem rlcClearBuffer (h : Users S st) (rnti : Nat) : Users S (st.rlcClearBuffer E rnti) :=
  (h.setRlc (StdMap.dom_modify _ _ _)).rlcReports _

/-- An RNTI of a user is a `uint16_t`. -/
theorem rntiOf_val (h : Users S st) (hr : rnti ∈ S) : (State.rntiOf rnti).val = rnti :=
  Nat.mod_eq_of_lt (h.rntis rnti hr)

theorem gtpuWritePdu (h : Users S st) (hr : rnti ∈ S) (lcid : Nat) (pdu : Gtpu.Pdu) :
    Users S (st.gtpuWritePdu rnti lcid pdu) := by
  have hd : dom (st.gtpu.touch (State.rntiOf rnti).val) ⊆ S := by
    rw [StdMap.dom_touch, h.rntiOf_val hr]
    exact Set.insert_subset hr h.gtpu
  exact (h.setGtpu hd).output rnti _

theorem pdcpAction (h : Users S st) {a : Pdcp.Action} (ha : ∀ r ∈ a.user, r ∈ S) :
    Users S (st.pdcpAction E a) := by
  cases a with
  | rlcWriteSdu rnti lcid sdu => exact h.rlcWriteSdu rnti lcid sdu
  | rrcWritePdu rnti lcid pdu => exact h.output rnti _
  | gtpuWritePdu rnti lcid pdu => exact h.gtpuWritePdu (ha rnti rfl) lcid pdu
  | deallocate sdu => exact h

theorem pdcpActions (h : Users S st) {acts : List Pdcp.Action}
    (hacts : ∀ a ∈ acts, ∀ r ∈ a.user, r ∈ S) :
    Users S (acts.foldl (State.pdcpAction E) st) :=
  List.foldlRecOn (motive := fun st : State ρ π => Users S st) _ _ h
    fun _ h a ha => h.pdcpAction (hacts a ha)

theorem pdcpWriteSdu (h : Users S st) (rnti lcid : Nat) (sdu : Pdcp.Pdu) :
    Users S (st.pdcpWriteSdu E rnti lcid sdu) := by
  refine (h.setPdcp (Pdcp.writeSdu_dom E.pdcp st.pdcp rnti lcid _ sdu)).pdcpActions ?_
  intro a ha r hr
  obtain ⟨rfl, hthere⟩ := Pdcp.writeSdu_user E.pdcp st.pdcp rnti lcid _ sdu a ha r hr
  exact h.pdcp ▸ hthere

theorem pdcpWritePdu (h : Users S st) (rnti lcid : Nat) (sdu : Pdcp.Pdu) :
    Users S (st.pdcpWritePdu E rnti lcid sdu) := by
  refine (h.setPdcp (Pdcp.writePdu_dom E.pdcp st.pdcp rnti lcid sdu)).pdcpActions ?_
  intro a ha r hr
  obtain ⟨rfl, hthere⟩ := Pdcp.writePdu_user E.pdcp st.pdcp rnti lcid sdu a ha r hr
  exact h.pdcp ▸ hthere

theorem rlcWritePdu (h : Users S st) (rnti lcid : Nat) (payload : Rlc.Pdu) :
    Users S (st.rlcWritePdu E rnti lcid payload) := by
  refine List.foldlRecOn (motive := fun st : State ρ π => Users S st) _ _
    (h.setRlc (Rlc.writePdu_dom E.rlc st.rlc rnti lcid payload)) fun st' h' a _ => ?_
  cases a with
  | pdcpWritePdu rnti lcid sdu => exact h'.pdcpWritePdu rnti lcid sdu
  | rlcBufferState rnti lcid txQueue retxQueue =>
    exact h'.rlcReport (.rlcBufferState rnti lcid txQueue retxQueue)
  | deallocate sdu => exact h'

theorem gtpuDataPdu (h : Users S st) (teid : Nat) (pdu : Gtpu.Pdu) :
    Users S (st.gtpuDataPdu E teid pdu) := by
  refine List.foldlRecOn (motive := fun st : State ρ π => Users S st) _ _ h fun st' h' a _ => ?_
  cases a with
  | writeSdu rnti lcid pdu => exact h'.pdcpWriteSdu rnti lcid pdu
  | sendto addr teid pdu => exact h'

/-! ## RRC -/

theorem rrcAction (h : Users S st) {a : Rrc.Action} (ha : a.Plain S) :
    Users S (st.rrcAction E a) := by
  cases a with
  | dlCcch rnti msg | dlDcch rnti msg => exact h.pdcpWriteSdu rnti _ _
  | macUeCfg rnti srI srNPucch cqiIdx cqiPucch cqiEnabled =>
    exact h.setMac (MacState.handle_same (e := .ueCfg rnti _ _) trivial rfl)
  | macPhyConfigEnabled rnti enabled => exact h.setMac (MacState.phyConfigEnabled_same _ _ _)
  | macBearerUeCfg rnti lcid => exact h.setMac (MacState.bearerUeCfg_same _ _ _ _)
  | rlcAddBearer rnti lcid => exact h.setRlc (StdMap.dom_modify _ _ _)
  | rlcClearBuffer rnti => exact h.rlcClearBuffer rnti
  | pdcpAddBearer rnti lcid => exact h.setPdcp (StdMap.dom_modify _ _ _)
  | pdcpConfigSecurity rnti lcid key => exact h.setPdcp (StdMap.dom_modify _ _ _)
  | gtpuAddBearer rnti lcid addr teidOut =>
    have hr : rnti ∈ S := ha rnti rfl
    refine h.setGtpu ?_
    rw [Gtpu.addBearer_dom, h.rntiOf_val hr]
    exact Set.insert_subset hr h.gtpu
  | macUeRem rnti | gtpuRemUser rnti => exact ha.elim
  | rlcAddUser rnti | rlcRemUser rnti | pdcpAddUser rnti | pdcpRemUser rnti => exact ha.elim
  | _ => exact h

theorem rrcCall (h : Users S st) {e : Rrc.Event} (he : e.KeepsUsers) :
    Users S (st.rrcCall E e) := by
  have hplain : Rrc.AllPlain S (Rrc.handle st.rrc e).acts :=
    Rrc.handle_plain st.rrc he fun hthere => h.rrc ▸ mem_dom.mpr hthere
  have hstart : Users S { st with rrc := (Rrc.handle st.rrc e).st } :=
    { h with rrc := (Rrc.handle_dom st.rrc he).trans h.rrc }
  exact List.foldlRecOn (motive := fun st : State ρ π => Users S st) _ _ hstart
    fun st' h' a ha => h'.rrcAction (hplain a ha)

/-- A user that MAC has added is taken to the other layers. -/
theorem addUser (h : Users S st) {m : MacState} (hagree : m.UsersAgree)
    (hlast : m.lastRnti < 2 ^ 16) (hr : rnti < 2 ^ 16) (hm : dom m.ueDb = insert rnti S) :
    Users (insert rnti S) ({ st with mac := m }.rrcCall E (.addUser rnti)) := by
  have hrntis : ∀ r ∈ insert rnti S, r < 2 ^ 16 := by
    rintro r (rfl | hrS)
    · exact hr
    · exact h.rntis r hrS
  have hgtpu : dom st.gtpu ⊆ insert rnti S := h.gtpu.trans (Set.subset_insert _ _)
  unfold State.rrcCall Rrc.handle Rrc.addUser
  simp only
  split_ifs with hthere
  · have hmem : rnti ∈ S := h.rrc ▸ mem_dom.mpr hthere
    rw [Set.insert_eq_of_mem hmem] at *
    exact { h with agree := hagree, lastRnti := hlast, ueDb := hm }
  · exact {
      agree := hagree, lastRnti := hlast, rntis := hrntis, ueDb := hm, gtpu := hgtpu
      rrc := (StdMap.dom_insert _ _ _).trans (congrArg _ h.rrc)
      rlc := (Rlc.addUser_dom E.rlc st.rlc rnti).trans (congrArg _ h.rlc)
      pdcp := (Pdcp.addUser_dom E.pdcp st.pdcp rnti).trans (congrArg _ h.pdcp) }

/-- RRC removes a user from every layer. -/
theorem remUser (h : Users S st) (rnti : Nat) :
    ∃ T, Users T (st.rrcCall E (.rx rnti .remUser)) := by
  by_cases hthere : rnti ∈ S
  · have hrrc : st.rrc.users[rnti]?.isSome = true := mem_dom.mp (h.rrc.symm ▸ hthere)
    have hmac : st.mac.ueDb[rnti]?.isSome = true := mem_dom.mp (h.ueDb.symm ▸ hthere)
    obtain ⟨u, hu⟩ := Option.isSome_iff_exists.mp hrrc
    refine ⟨S \ {rnti}, ?_⟩
    have herase : ∀ {β : Type} {m : StdMap β}, dom m = S → dom (m.erase rnti) = S \ {rnti} := by
      rintro β m rfl
      exact StdMap.dom_erase m rnti
    unfold State.rrcCall Rrc.handle Rrc.handleItem Rrc.remUser
    simp only [hu]
    have hagree := MacState.ueRem_agree h.agree rnti
    have hueRem : (st.mac.ueRem rnti).st.ueDb = st.mac.ueDb.erase rnti ∧
        (st.mac.ueRem rnti).st.lastRnti = st.mac.lastRnti := by
      simp [MacState.ueRem, hmac]
    exact {
      agree := hagree
      lastRnti := hueRem.2 ▸ h.lastRnti
      rntis := fun r hr => h.rntis r hr.1
      ueDb := (congrArg dom hueRem.1).trans (herase h.ueDb)
      rrc := herase h.rrc
      rlc := herase h.rlc
      pdcp := herase h.pdcp
      gtpu := by
        have hgtpu : dom (Gtpu.remUser st.gtpu (State.rntiOf rnti)) ⊆ S \ {rnti} := by
          rw [Gtpu.remUser, StdMap.dom_erase, h.rntiOf_val hthere]
          exact Set.sdiff_subset_sdiff_left h.gtpu
        exact hgtpu }
  · refine ⟨S, ?_⟩
    have hgone : ¬ st.rrc.users[rnti]?.isSome = true := by
      rw [← mem_dom, h.rrc]
      exact hthere
    simp only [State.rrcCall, Rrc.handle, if_neg hgone]
    exact h

/-! ## One event -/

theorem macActions (h : Users S st) {acts : List MacAction} (hacts : ∀ r, .rrcAddUser r ∉ acts) :
    Users S (acts.foldl (State.macAction E) st) := by
  refine List.foldlRecOn (motive := fun st : State ρ π => Users S st) _ _ h fun st' h' a ha => ?_
  cases a with
  | rrcAddUser rnti => exact absurd ha (hacts rnti)
  | _ => exact h'

theorem macCall (h : Users S st) {e : MacEvent} (ha : st.mac.Allowed e)
    (hown : ∀ r, e ≠ .ueRem r) : ∃ T, Users T (st.macCall E e) := by
  have hgrow := MacState.step_agree E.lib E.locations h.agree e ha
  have hkeep : st.mac.resets e = none → ∃ T, Users T (st.macCall E e) := fun he =>
    ⟨S, (h.setMac (MacState.handle_same ha he)).macActions (MacState.handle_acts he)⟩
  cases e with
  | rachDetected tti preambleIdx timeAdv =>
    obtain ⟨hacts, hdb, hlast⟩ :=
      MacState.rachDetected_eq E.lib E.locations st.mac tti preambleIdx timeAdv
    refine ⟨insert st.mac.lastRnti S, ?_⟩
    unfold State.macCall MacState.handle
    simp only [hacts, List.foldl_cons, List.foldl_nil, State.macAction]
    refine h.addUser hgrow ?_ h.lastRnti ?_
    · rw [hlast]
      split_ifs <;> omega
    · rw [hdb, StdMap.dom_insert, h.ueDb]
  | ueRem rnti => exact absurd rfl (hown rnti)
  | addMbmsUser =>
    refine ⟨insert mrnti S, h.addUser hgrow h.lastRnti (by decide) ?_⟩
    exact (StdMap.dom_insert _ _ _).trans (congrArg _ h.ueDb)
  | _ => exact hkeep rfl

theorem step (h : Users S st) {e : Event} (ha : Allowed st e) : ∃ T, Users T (step E st e) := by
  cases e with
  | mac e =>
    cases e with
    | ueRem rnti | ueCfg rnti cfg bearers => exact ha.elim
    | _ => exact h.macCall ha (by simp)
  | getDlSched tti paging generatePdu =>
    exact ⟨S, h.setMac (MacState.getDlSched_same _ _ _ _)⟩
  | getUlSched tti buffers => exact ⟨S, h.setMac (MacState.getUlSched_same _ _ _)⟩
  | ulBsr rnti lcid bsr setValue => exact ⟨S, h.setMac (MacState.ulBsr_same _ _ _ _ _)⟩
  | readPdu rnti lcid nofBytes => exact ⟨S, h.rlcReadPdu rnti lcid nofBytes⟩
  | writePdu rnti lcid payload => exact ⟨S, h.rlcWritePdu rnti lcid payload⟩
  | dataPdu teid pdu => exact ⟨S, h.gtpuDataPdu teid pdu⟩
  | rrc e =>
    by_cases hkeep : e.KeepsUsers
    · exact ⟨S, h.rrcCall hkeep⟩
    · cases e with
      | addUser rnti => exact ha.elim
      | rx rnti item =>
        cases item with
        | remUser => exact h.remUser rnti
        | _ => exact absurd trivial hkeep
      | _ => exact absurd trivial hkeep

theorem init (sched : Mac.Sched) (cfg : Rrc.Cfg) :
    Users ∅ (Stack.init sched cfg : State ρ π) := by
  have hdom : dom (∅ : StdMap (Option Mac.MacUe)) = ∅ := StdMap.dom_empty
  refine ⟨⟨fun r _ => ?_, ?_⟩, (show (70 : Nat) < 2 ^ 16 by decide), by simp, hdom,
    StdMap.dom_empty, StdMap.dom_empty, StdMap.dom_empty, StdMap.dom_empty.subset⟩
  · simp [Stack.init, MacState.init]
  · simp [Stack.init, MacState.init]

end Users

end Srsenb.Stack
