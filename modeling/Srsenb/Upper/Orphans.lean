import Srsenb.Upper.RrcS1ap
import Srsenb.Upper.RrcSteps

/-! # Orphans

A context of S1AP without a UE in RRC. RRC removes a UE without a word to S1AP, so the context has
to be gone before the last entry of the UE leaves the queue. -/

open Srsenb.Run

namespace Srsenb.Rrc

/-! ## What RRC asks S1AP to open -/

/-- The RNTI whose context S1AP may create. -/
def Action.opens : Action → Option Nat
  | .s1apInitialUe rnti _ _ _ => some rnti
  | .s1apUeCtxtSetupComplete rnti _ => some rnti
  | .s1apUeErabSetupComplete rnti _ => some rnti
  | _ => none

/-- Only the context of `rnti` is opened. -/
def OpensOnly (rnti : Nat) (acts : List Action) : Prop := ∀ a ∈ acts, ∀ r ∈ a.opens, r = rnti

/-- None is opened. -/
def OpensNone (acts : List Action) : Prop := ∀ a ∈ acts, a.opens = none

theorem OpensNone.only {acts : List Action} (h : OpensNone acts) (rnti : Nat) :
    OpensOnly rnti acts := by
  intro a ha r hr
  rw [h a ha] at hr
  cases hr

theorem OpensNone.append {acts acts' : List Action} (h : OpensNone acts) (h' : OpensNone acts') :
    OpensNone (acts ++ acts') := by
  intro a ha
  exact (List.mem_append.mp ha).elim (h a) (h' a)

variable {u : Ue} {cfg : Cfg} {rnti : Nat}

theorem sendConnectionReconf_opensNone : OpensNone (u.sendConnectionReconf cfg rnti).2 := by
  unfold Ue.sendConnectionReconf
  simp only
  split <;> simp [OpensNone, Action.opens]

theorem setupErabItems_opensNone (u : Ue) (rnti : Nat) (es : List ErabItem) :
    OpensNone (u.setupErabItems rnti es).2.1 := by
  induction es generalizing u with
  | nil => simp [Ue.setupErabItems, OpensNone]
  | cons e es ih =>
    unfold Ue.setupErabItems
    split_ifs
    · simp [OpensNone]
    · exact OpensNone.append (by simp [OpensNone, Ue.setupErab, Action.opens]) (ih _)

theorem addNewBearers_opensNone (u : Ue) (cfg : Cfg) (rnti : Nat) (es : List ErabItem) :
    OpensNone (u.addNewBearers cfg rnti es).2.1 := by
  induction es generalizing u with
  | nil => simp [Ue.addNewBearers, OpensNone]
  | cons e es ih =>
    unfold Ue.addNewBearers
    simp only
    split
    · simp [OpensNone]
    · exact OpensNone.append (by simp [OpensNone, Action.opens]) (ih _)

theorem sendConnectionReconfNewBearer_opensNone (es : List ErabItem) :
    OpensNone (u.sendConnectionReconfNewBearer cfg rnti es).2 := by
  have h := addNewBearers_opensNone u.nextTransaction.2 cfg rnti es
  unfold Ue.sendConnectionReconfNewBearer
  simp only
  split
  · rename_i heq
    rw [heq] at h
    exact h
  · rename_i heq
    rw [heq] at h
    exact OpensNone.append h (by simp [OpensNone, Action.opens])

theorem setupErabsBearer_opensOnly (es : List ErabItem) :
    OpensOnly rnti (u.setupErabsBearer cfg rnti es).2 := by
  have h := setupErabItems_opensNone u rnti es
  unfold Ue.setupErabsBearer
  split
  · rename_i heq
    rw [heq] at h
    exact h.only rnti
  · rename_i u' acts heq
    rw [heq] at h
    intro a ha r hr
    rcases List.mem_append.mp ha with ha | ha
    · exact h.only rnti a ha r hr
    · rcases List.mem_cons.mp ha with rfl | ha
      · exact (Option.some.inj hr).symm
      · exact (sendConnectionReconfNewBearer_opensNone es).only rnti a ha r hr

theorem parseUlDcch_opensOnly (msg : UlDcchMsg) :
    OpensOnly rnti (u.parseUlDcch cfg rnti msg).2 := by
  cases msg with
  | rrcConSetupComplete nas =>
    simp [OpensOnly, Ue.parseUlDcch, Ue.handleRrcConSetupComplete, Action.opens]
  | ulInfoTransfer nas => simp [OpensOnly, Ue.parseUlDcch, Action.opens]
  | rrcConReconfigComplete =>
    simp [OpensOnly, Ue.parseUlDcch, Ue.handleRrcReconfComplete, Action.opens]
  | securityModeComplete =>
    intro a ha r hr
    rcases List.mem_cons.mp ha with rfl | ha
    · exact (Option.some.inj hr).symm
    · exact sendConnectionReconf_opensNone.only rnti a ha r hr
  | securityModeFailure => simp [OpensOnly, Ue.parseUlDcch]
  | ueCapabilityInfo => exact sendConnectionReconf_opensNone.only rnti
  | other => simp [OpensOnly, Ue.parseUlDcch]

theorem sendConnectionSetup_opensNone (s : State) (rnti : Nat) (u : Ue) :
    OpensNone (sendConnectionSetup s rnti u).2.2 := by
  unfold sendConnectionSetup
  simp only
  split
  · simp [OpensNone]
  · split <;> simp [OpensNone, Action.opens]

/-- What a handler opens is for a UE that RRC has after it. -/
def OpensUsers (out : Out) : Prop :=
  ∀ a ∈ out.acts, ∀ r ∈ a.opens, out.st.users[r]?.isSome = true

theorem opensUsers_of_none {out : Out} (h : OpensNone out.acts) : OpensUsers out := by
  intro a ha r hr
  rw [h a ha] at hr
  cases hr

theorem onUser_opensUsers {s : State} {rnti : Nat} {f : Ue → Ue × List Action}
    (hf : ∀ u, OpensOnly rnti (f u).2) : OpensUsers (onUser s rnti f) := by
  unfold onUser
  split
  · simp [OpensUsers]
  · intro a ha r hr
    rw [hf _ a ha r hr]
    simp [State.setUser]

theorem handleItem_opensUsers {s : State} {rnti : Nat} (hrnti : s.users[rnti]?.isSome = true)
    (item : QueueItem) : OpensUsers (handleItem s rnti item) := by
  cases item with
  | srb0 msg =>
    refine opensUsers_of_none ?_
    cases msg with
    | rrcConReq sTmsi cause =>
      unfold handleItem parseUlCcch
      simp only
      split_ifs
      unfold handleRrcConReq
      exact sendConnectionSetup_opensNone s rnti _
    | rrcConReestReq oldRnti =>
      unfold handleItem parseUlCcch
      simp only
      split_ifs <;> simp [OpensNone, Action.opens]
    | other => simp [OpensNone, handleItem, parseUlCcch]
  | srb12 msg => exact onUser_opensUsers fun u => parseUlDcch_opensOnly msg
  | remUser =>
    unfold handleItem remUser
    simp only
    split <;> simp [OpensUsers, Action.opens]
  | relUser =>
    refine onUser_opensUsers fun u => ?_
    split_ifs <;> simp [OpensOnly, Ue.sendConnectionRelease, Ue.nextTransaction, Action.opens]
  | rlfUser b =>
    refine onUser_opensUsers fun u => ?_
    simp only
    split_ifs <;> simp [OpensOnly, Action.opens]
  | actUser => simp [OpensUsers, handleItem]
  | invalid => simp [OpensUsers, handleItem]

theorem handle_opensUsers (s : State) (e : Event) : OpensUsers (handle s e) := by
  cases e with
  | rx rnti item =>
    unfold handle
    simp only
    split_ifs with hrnti
    · exact handleItem_opensUsers hrnti item
    · simp [OpensUsers]
  | addUser rnti =>
    unfold handle addUser
    simp only
    split_ifs <;> simp [OpensUsers, Action.opens]
  | updUser newRnti oldRnti =>
    have h : OpensUsers (onUser s oldRnti fun u =>
        if u.isConnected then u.sendConnectionReconfUpd oldRnti
        else u.sendConnectionRelease oldRnti) := by
      refine onUser_opensUsers fun u => ?_
      split_ifs <;> simp [OpensOnly, Ue.sendConnectionReconfUpd, Ue.sendConnectionRelease,
        Ue.nextTransaction, Action.opens]
    intro a ha r hr
    rcases List.mem_cons.mp ha with rfl | ha
    · cases hr
    · exact h a ha r hr
  | writeDlInfo rnti sdu =>
    exact onUser_opensUsers fun u => by simp [OpensOnly, Action.opens]
  | setupUeCtxt rnti key es =>
    refine onUser_opensUsers fun u => OpensNone.only ?_ _
    have hcommand : OpensNone (.pdcpConfigSecurity rnti 1 key ::
        (u.sendSecurityModeCommand rnti).2) := by
      simp [OpensNone, Ue.sendSecurityModeCommand, Ue.nextTransaction, Action.opens]
    exact hcommand.append (setupErabItems_opensNone _ rnti es)
  | setupUeErabs rnti es => exact onUser_opensUsers fun u => setupErabsBearer_opensOnly es
  | releaseErabs rnti => exact onUser_opensUsers fun u => by simp [OpensOnly]
  | timeout rnti b =>
    unfold handle isTimeout
    simp only
    split_ifs
    · simp [OpensUsers]
    all_goals exact onUser_opensUsers fun u => by simp [OpensOnly, Action.opens]
  | notifyConnected rnti =>
    unfold handle notifyConnected
    simp only
    split_ifs
    · simp [OpensUsers]
    · refine onUser_opensUsers fun u => ?_
      split_ifs <;> simp [OpensOnly, Action.opens]

theorem Change.keepsUser {s s' : State} {e : Event} (hc : Change s e s') {r : Nat}
    (he : e ≠ .rx r .remUser) (hr : s.users[r]?.isSome = true) : s'.users[r]?.isSome = true := by
  have hset : ∀ (t : State) (k : Nat) (u : Ue), t.users = s.users →
      (t.setUser k u).users[r]?.isSome = true := by
    intro t k u ht
    simp only [State.setUser, StdMap.getElem?_insert, ht]
    split_ifs
    · rfl
    · exact hr
  cases hc with
  | same => exact hr
  | kept _ _ => exact hset s _ _ rfl
  | registered _ _ _ _ => exact hset s _ _ rfl
  | added _ => exact hset s _ _ rfl
  | @removed k =>
    have hne : k ≠ r := fun heq => he (heq ▸ rfl)
    unfold remUser
    split
    · exact hr
    · simpa only [StdMap.getElem?_erase, if_neg hne] using hr
  | @request k sTmsi cause u _ =>
    unfold handleRrcConReq
    exact hset _ _ _ (sendConnectionSetup_spec s k _).1

end Srsenb.Rrc

namespace Srsenb.RrcS1ap

/-- No context of S1AP is left for an RNTI that RRC has no UE for, and no entry in its queue. -/
def NoOrphan (s : State) : Prop :=
  ∀ r : Nat, s.rrc.users[r]? = none → r ∉ s.rxPduQueue.map Prod.fst → s.s1ap.ueCtxtMap[r]? = none

/-- A new UE is not given the RNTI of a context that is left. -/
def Fresh (s : State) : Event → Prop
  | .addUser rnti => s.rrc.users[rnti]? = none → s.s1ap.ueCtxtMap[rnti]? = none
  | _ => True

/-- The eNB id is mapped to a UE that RRC has, or has an entry for. -/
def Known (s : State) (enbUeS1apId : Nat) : Prop :=
  ∀ rnti ∈ s.s1ap.enbidToRntiMap[enbUeS1apId]?, s.rrc.users[rnti]? = none →
    rnti ∈ s.rxPduQueue.map Prod.fst

/-- With the last entry of a UE that goes or is gone its context is gone too, the RNTI of a UE with
an entry left is not given to a new one while there is a context, and no message of the MME is for
an eNB id that outlived its UE. -/
def Clean (s : State) : Event → Prop
  | .rx _ => ∀ rnti item q, s.rxPduQueue = (rnti, item) :: q → rnti ∉ q.map Prod.fst →
      item.isRemUser ∨ s.rrc.users[rnti]? = none → s.s1ap.ueCtxtMap[rnti]? = none
  | .addUser rnti => s.rrc.users[rnti]? = none → rnti ∈ s.rxPduQueue.map Prod.fst →
      s.s1ap.ueCtxtMap[rnti]? = none
  | .dlnastransport msg _ => Known s msg.enbUeS1apId
  | .initialctxtsetuprequest msg _ _ _ => Known s msg.enbUeS1apId
  | .erabsetuprequest msg _ _ => Known s msg.enbUeS1apId
  | _ => True

/-! ## What a call leaves -/

/-- RRC has the UE, or an entry for it. -/
def Live (s : State) (r : Nat) : Prop :=
  s.rrc.users[r]?.isSome = true ∨ r ∈ s.rxPduQueue.map Prod.fst

theorem noOrphan_iff {s : State} :
    NoOrphan s ↔ ∀ r : Nat, s.s1ap.ueCtxtMap[r]?.isSome = true → Live s r := by
  constructor
  · intro h r hc
    by_contra hlive
    unfold Live at hlive
    push Not at hlive
    rw [h r (by simpa using hlive.1) hlive.2] at hc
    cases hc
  · intro h r hu hq
    by_contra hc
    rw [← Ne, Option.ne_none_iff_isSome] at hc
    rcases h r hc with huser | hin
    · rw [hu] at huser
      cases huser
    · exact hq hin

/-- What is live stays so, and a context is opened for what is live alone. -/
structure Kept (s s' : State) : Prop where
  live : ∀ r, Live s r → Live s' r
  ctxts : ∀ r : Nat, s'.s1ap.ueCtxtMap[r]?.isSome = true →
    s.s1ap.ueCtxtMap[r]?.isSome = true ∨ Live s' r

variable {s s' t : State} {io : Io}

theorem Kept.refl (s : State) : Kept s s := ⟨fun _ => id, fun _ => Or.inl⟩

theorem Kept.trans (h : Kept s s') (h' : Kept s' t) : Kept s t where
  live r hr := h'.live r (h.live r hr)
  ctxts r hr := (h'.ctxts r hr).elim (fun hr' => (h.ctxts r hr').imp_right (h'.live r)) Or.inr

theorem Kept.noOrphan (h : Kept s s') (hs : NoOrphan s) : NoOrphan s' := by
  rw [noOrphan_iff] at hs ⊢
  intro r hc
  exact (h.ctxts r hc).elim (fun hold => h.live r (hs r hold)) id

theorem Kept.push (s : State) (rnti : Nat) (item : Item) : Kept s (s.push rnti item) where
  live r hr := hr.imp_right fun hin => by
    unfold State.push
    rw [List.map_append]
    exact List.mem_append_left _ hin
  ctxts _ := Or.inl

theorem Kept.setS1ap {m : S1ap.State} (h : ∀ r : Nat, m.ueCtxtMap[r]?.isSome = true →
    s.s1ap.ueCtxtMap[r]?.isSome = true ∨ Live s r) : Kept s { s with s1ap := m } :=
  ⟨fun _ => id, h⟩

theorem Kept.foldl {α : Type} {s : State} {f : State → α → State} (P : State → Prop) (acts : List α)
    (hf : ∀ a ∈ acts, ∀ t, P t → Kept t (f t a) ∧ P (f t a)) (h : P s) :
    Kept s (acts.foldl f s) ∧ P (acts.foldl f s) := by
  induction acts generalizing s with
  | nil => exact ⟨.refl s, h⟩
  | cons a acts ih =>
    obtain ⟨hkept, hP⟩ := hf a (List.mem_cons_self ..) s h
    obtain ⟨hrest, hlast⟩ := ih (fun b hb => hf b (List.mem_cons_of_mem a hb)) hP
    exact ⟨hkept.trans hrest, hlast⟩

/-! ## What the calls of S1AP do to the contexts -/

/-- The contexts afterwards are old ones, or that of `rnti`. -/
def AddsOnly (rnti : Nat) (m m' : S1ap.State) : Prop :=
  ∀ r : Nat, m'.ueCtxtMap[r]?.isSome = true → m.ueCtxtMap[r]?.isSome = true ∨ r = rnti

theorem AddsOnly.refl (rnti : Nat) (m : S1ap.State) : AddsOnly rnti m m := fun _ => Or.inl

theorem AddsOnly.trans {rnti : Nat} {m m' m'' : S1ap.State} (h : AddsOnly rnti m m')
    (h' : AddsOnly rnti m' m'') : AddsOnly rnti m m'' :=
  fun r hr => (h' r hr).elim (h r) Or.inr

theorem AddsOnly.live {rnti : Nat} {m : S1ap.State} (h : AddsOnly rnti s.s1ap m)
    (hlive : Live s rnti) (r : Nat) (hr : m.ueCtxtMap[r]?.isSome = true) :
    s.s1ap.ueCtxtMap[r]?.isSome = true ∨ Live s r := by
  rcases h r hr with hold | rfl
  · exact Or.inl hold
  · exact Or.inr hlive

theorem touchCtxt_adds (m : S1ap.State) (rnti : Nat) : AddsOnly rnti m (m.touchCtxt rnti) := by
  intro r hr
  simp only [S1ap.State.touchCtxt, StdMap.getElem?_touch] at hr
  split_ifs at hr with heq
  · exact Or.inr heq.symm
  · exact Or.inl hr

theorem updateCtxt_adds (m : S1ap.State) (rnti : Nat) (f : S1ap.UeCtxt → S1ap.UeCtxt) :
    AddsOnly rnti m (m.updateCtxt rnti f) := by
  intro r hr
  simp only [S1ap.State.updateCtxt, StdMap.getElem?_update] at hr
  split_ifs at hr with heq
  · exact Or.inr heq.symm
  · exact Or.inl hr

theorem sendMessage_adds (m : S1ap.State) (rnti : Nat) (msg : S1ap.UeCtxt → S1ap.TxPdu)
    (sent : Bool) : AddsOnly rnti m (S1ap.sendMessage m rnti msg sent).st := by
  unfold S1ap.sendMessage
  split_ifs
  · exact .refl rnti m
  · exact touchCtxt_adds m rnti

theorem AddsOnly.none {rnti : Nat} {m m' : S1ap.State} (h : AddsOnly rnti m m')
    (hm : m.ueCtxtMap[rnti]?.isSome = true) (r : Nat) (hr : m'.ueCtxtMap[r]?.isSome = true) :
    m.ueCtxtMap[r]?.isSome = true :=
  (h r hr).elim id fun heq => heq ▸ hm

theorem initialUe_adds (m : S1ap.State) (rnti cause : Nat) (nas : S1ap.Pdu)
    (sTmsi : Option (Nat × Nat)) (sent : Bool) :
    AddsOnly rnti m (S1ap.initialUe m rnti cause nas sTmsi sent).st := by
  unfold S1ap.initialUe S1ap.sendInitialuemessage
  refine AddsOnly.trans ?_ (sendMessage_adds _ rnti _ sent)
  exact ((updateCtxt_adds m rnti _).trans (updateCtxt_adds _ rnti _)).trans
    (updateCtxt_adds _ rnti _)

theorem writePdu_adds (m : S1ap.State) (rnti : Nat) (nas : S1ap.Pdu) (sent : Bool) (r : Nat)
    (hr : (S1ap.writePdu m rnti nas sent).st.ueCtxtMap[r]?.isSome = true) :
    m.ueCtxtMap[r]?.isSome = true := by
  unfold S1ap.writePdu at hr
  split_ifs at hr with hnone
  · exact hr
  · exact (sendMessage_adds m rnti _ sent).none (by simpa using hnone) r hr

theorem userRelease_adds (m : S1ap.State) (rnti cause : Nat) (sent : Bool) (r : Nat)
    (hr : (S1ap.userRelease m rnti cause sent).st.ueCtxtMap[r]?.isSome = true) :
    m.ueCtxtMap[r]?.isSome = true := by
  unfold S1ap.userRelease at hr
  split_ifs at hr with hnone hzombie
  · exact hr
  · simp only [StdMap.getElem?_erase] at hr
    split_ifs at hr
    · cases hr
    · exact hr
  · exact ((updateCtxt_adds m rnti _).trans (sendMessage_adds _ rnti _ sent)).none
      (by simpa using hnone) r hr

/-! ## What the calls leave -/

theorem s1apCall_kept {out : S1ap.Out} (h : ∀ r : Nat, out.st.ueCtxtMap[r]?.isSome = true →
    s.s1ap.ueCtxtMap[r]?.isSome = true ∨ Live s r) :
    Kept s (s.s1apCall out) ∧ (s.s1apCall out).rrc = s.rrc := by
  unfold State.s1apCall
  refine And.imp_left (Kept.setS1ap h).trans
    (Kept.foldl (fun t => t.rrc = s.rrc) out.acts (fun a _ t ht => ?_) rfl)
  cases a with
  | releaseComplete rnti => exact ⟨.push t rnti _, ht⟩
  | _ => exact ⟨.refl t, ht⟩

theorem setupComplete_kept {rnti : Nat} {pduAlloc : Bool} (h : Live s rnti) :
    Kept s (s.setupComplete rnti pduAlloc) ∧ (s.setupComplete rnti pduAlloc).rrc = s.rrc := by
  unfold State.setupComplete
  split_ifs
  · exact ⟨.setS1ap ((touchCtxt_adds s.s1ap rnti).live h), rfl⟩
  · exact ⟨.refl s, rfl⟩

theorem rrcAction_kept {a : Rrc.Action}
    (h : ∀ r ∈ a.opens, s.rrc.users[r]?.isSome = true) :
    Kept s (s.rrcAction io a) ∧ (s.rrcAction io a).rrc = s.rrc := by
  cases a with
  | remUserThread rnti => exact ⟨.push s rnti _, rfl⟩
  | s1apInitialUe rnti cause nas sTmsi =>
    exact s1apCall_kept ((initialUe_adds s.s1ap rnti _ _ _ _).live (Or.inl (h rnti rfl)))
  | s1apWritePdu rnti nas => exact s1apCall_kept fun r hr => Or.inl (writePdu_adds _ _ _ _ r hr)
  | s1apUserRelease rnti => exact s1apCall_kept fun r hr => Or.inl (userRelease_adds _ _ _ _ r hr)
  | s1apUeCtxtSetupComplete rnti erabs => exact setupComplete_kept (Or.inl (h rnti rfl))
  | s1apUeErabSetupComplete rnti erabs => exact setupComplete_kept (Or.inl (h rnti rfl))
  | _ => exact ⟨.refl s, rfl⟩

theorem rrcCall_kept (s : State) (io : Io) {e : Rrc.Event} (he : ∀ r, e ≠ .rx r .remUser) :
    Kept s (s.rrcCall io e) ∧ (s.rrcCall io e).rrc = (Rrc.handle s.rrc e).st := by
  unfold State.rrcCall
  have hrrc : Kept s { s with rrc := (Rrc.handle s.rrc e).st } :=
    ⟨fun r hr => hr.imp_left ((Rrc.step_change s.rrc e).keepsUser (he r)), fun _ => Or.inl⟩
  refine And.imp_left hrrc.trans (Kept.foldl (fun t => t.rrc = (Rrc.handle s.rrc e).st)
    (Rrc.handle s.rrc e).acts (fun a ha t ht => ?_) rfl)
  have hopen : ∀ r ∈ a.opens, t.rrc.users[r]?.isSome = true := by
    rw [ht]
    exact Rrc.handle_opensUsers s.rrc e a ha
  exact (rrcAction_kept hopen).imp_right (·.trans ht)

theorem s1apHandle_kept {key : Rrc.Pdu} {es : List Rrc.ErabItem} {out : S1ap.Out}
    (h : ∀ r : Nat, out.st.ueCtxtMap[r]?.isSome = true →
      s.s1ap.ueCtxtMap[r]?.isSome = true ∨ Live s r) : Kept s (s.s1apHandle io key es out) := by
  unfold State.s1apHandle
  refine (Kept.setS1ap h).trans (Kept.foldl (fun _ => True) out.acts
    (fun a _ t _ => ⟨?_, trivial⟩) trivial).1
  cases a with
  | sctpSendmsg msg streamId => exact .refl t
  | writeDlInfo rnti pdu => exact (rrcCall_kept _ _ fun r h => by cases h).1
  | setupUeCtxt rnti => exact (rrcCall_kept _ _ fun r h => by cases h).1
  | setupUeErabs rnti => exact (rrcCall_kept _ _ fun r h => by cases h).1
  | releaseErabs rnti => exact (rrcCall_kept _ _ fun r h => by cases h).1
  | releaseComplete rnti => exact .push t rnti _

/-! ## The messages of the MME -/

/-- S1AP evaluates `ue_ctxt_map[rnti]`, and what it asks of RRC is for `rnti`. -/
structure Opened (rnti : Nat) (m : S1ap.State) (out : S1ap.Out) : Prop where
  adds : AddsOnly rnti m out.st
  opened : out.st.ueCtxtMap[rnti]?.isSome = true
  acts : ∀ a ∈ out.acts, (∃ pdu, a = .writeDlInfo rnti pdu) ∨ a = .setupUeCtxt rnti ∨
    a = .setupUeErabs rnti

/-- A message is discarded, or opens the context of the RNTI that its eNB id is mapped to. -/
def Answers (m : S1ap.State) (enbUeS1apId : Nat) (out : S1ap.Out) : Prop :=
  m.enbidToRntiMap[enbUeS1apId]? = none ∧ out.st = m ∨
    ∃ rnti, m.enbidToRntiMap[enbUeS1apId]? = some rnti ∧ Opened rnti m out

theorem handleDlnastransport_answers (m : S1ap.State) (msg : S1ap.DownlinkNasTransport)
    (pduAlloc : Bool) :
    Answers m msg.enbUeS1apId (S1ap.handleDlnastransport m msg pduAlloc) := by
  unfold S1ap.handleDlnastransport
  cases hid : m.enbidToRntiMap[msg.enbUeS1apId]? with
  | none => exact Or.inl ⟨hid, rfl⟩
  | some rnti =>
    refine Or.inr ⟨rnti, hid, ?_⟩
    have hadds := updateCtxt_adds m rnti fun c => { c with mmeUeS1apId := msg.mmeUeS1apId }
    simp only
    split_ifs
    · exact ⟨hadds, by simp [S1ap.State.updateCtxt], by simp⟩
    · exact ⟨hadds, by simp [S1ap.State.updateCtxt], by simp⟩

theorem handleSetuprequest_answers {setup : Nat → S1ap.Action}
    (hsetup : setup = .setupUeCtxt ∨ setup = .setupUeErabs) (m : S1ap.State)
    (msg : S1ap.SetupRequest) (rrcOk : Bool) :
    Answers m msg.enbUeS1apId (S1ap.handleSetuprequest setup m msg rrcOk) := by
  unfold S1ap.handleSetuprequest
  cases hid : m.enbidToRntiMap[msg.enbUeS1apId]? with
  | none => exact Or.inl ⟨hid, rfl⟩
  | some rnti =>
    refine Or.inr ⟨rnti, hid, ?_⟩
    have hacts : ∀ a ∈ [setup rnti], (∃ pdu, a = .writeDlInfo rnti pdu) ∨ a = .setupUeCtxt rnti ∨
        a = .setupUeErabs rnti := by
      rcases hsetup with rfl | rfl <;> simp
    simp only
    split_ifs
    · exact ⟨(touchCtxt_adds m rnti).trans (updateCtxt_adds _ rnti _),
        by simp [S1ap.State.updateCtxt], hacts⟩
    · exact ⟨touchCtxt_adds m rnti, StdMap.isSome_touch (Or.inl rfl), hacts⟩

theorem uectxtreleasecommand_adds (m : S1ap.State) (ids : S1ap.UeS1apIds) (sent : Bool) (r : Nat)
    (hr : (S1ap.handleUectxtreleasecommand m ids sent).st.ueCtxtMap[r]?.isSome = true) :
    m.ueCtxtMap[r]?.isSome = true := by
  unfold S1ap.handleUectxtreleasecommand at hr
  split at hr
  · exact hr
  · rename_i rnti enbids _
    simp only at hr
    split_ifs at hr with hnone
    · exact hr
    · simp only [StdMap.getElem?_erase] at hr
      split_ifs at hr
      · cases hr
      · unfold S1ap.sendUectxtreleasecomplete at hr
        exact (sendMessage_adds { m with enbidToRntiMap := enbids } rnti _ sent).none
          (by simpa using hnone) r hr

theorem known_iff {e : Nat} :
    Known s e ↔ ∀ rnti ∈ s.s1ap.enbidToRntiMap[e]?, Live s rnti := by
  unfold Known Live
  refine forall_congr' fun rnti => imp_congr_right fun _ => ?_
  rw [← Option.not_isSome_iff_eq_none]
  exact Iff.symm or_iff_not_imp_left

/-- A call for a UE that RRC does not have does nothing. -/
theorem rrcCall_absent {e : Rrc.Event} (h : Rrc.handle s.rrc e = ⟨s.rrc, []⟩) :
    s.rrcCall io e = s := by
  unfold State.rrcCall
  rw [h]
  rfl

theorem s1apHandle_absent {key : Rrc.Pdu} {es : List Rrc.ErabItem} {out : S1ap.Out} {rnti : Nat}
    (ho : Opened rnti s.s1ap out) (hu : s.rrc.users[rnti]? = none) :
    s.s1apHandle io key es out = { s with s1ap := out.st } := by
  have hnone : ∀ f, Rrc.onUser s.rrc rnti f = ⟨s.rrc, []⟩ := by
    intro f
    unfold Rrc.onUser
    rw [hu]
  have hacts := ho.acts
  unfold State.s1apHandle
  generalize out.acts = acts at hacts ⊢
  induction acts with
  | nil => rfl
  | cons a acts ih =>
    have ha : State.s1apAction io key es { s with s1ap := out.st } a =
        { s with s1ap := out.st } := by
      rcases hacts a (List.mem_cons_self ..) with ⟨pdu, rfl⟩ | rfl | rfl
      · exact rrcCall_absent (hnone _)
      · exact rrcCall_absent (hnone _)
      · exact rrcCall_absent (hnone _)
    rw [List.foldl_cons, ha]
    exact ih fun b hb => hacts b (List.mem_cons_of_mem a hb)

/-- A message of the MME leaves no orphan if and only if its eNB id is known. -/
theorem message_noOrphan_iff {key : Rrc.Pdu} {es : List Rrc.ErabItem} {out : S1ap.Out} {e : Nat}
    (h : Answers s.s1ap e out) (hs : NoOrphan s) :
    NoOrphan (s.s1apHandle io key es out) ↔ Known s e := by
  rw [known_iff]
  rcases h with ⟨hid, hst⟩ | ⟨rnti, hid, ho⟩
  · refine iff_of_true ((s1apHandle_kept fun r hr => ?_).noOrphan hs) (by simp [hid])
    rw [hst] at hr
    exact Or.inl hr
  · rw [hid]
    simp only [Option.mem_def, Option.some.injEq, forall_eq']
    constructor
    · intro hno
      by_contra hlive
      have hu : s.rrc.users[rnti]? = none := by
        by_contra hu
        exact hlive (Or.inl (Option.ne_none_iff_isSome.mp hu))
      rw [s1apHandle_absent ho hu, noOrphan_iff] at hno
      exact hlive (hno rnti ho.opened)
    · intro hlive
      exact (s1apHandle_kept (ho.adds.live hlive)).noOrphan hs

/-! ## One event -/

/-- An entry after which RRC does not have the UE: nothing else happens. -/
theorem rx_gone (s : State) (io : Io) (b : Bool) {rnti : Nat} {item : Item}
    (h : item.isRemUser = true ∨ s.rrc.users[rnti]? = none) :
    ∃ rrc', s.rrcCall io (.rx rnti (item.toRrc b)) = { s with rrc := rrc' } ∧
      rrc'.users[rnti]? = none ∧ ∀ r : Nat, r ≠ rnti → rrc'.users[r]? = s.rrc.users[r]? := by
  cases hu : s.rrc.users[rnti]? with
  | none =>
    have hdrop : Rrc.handle s.rrc (.rx rnti (item.toRrc b)) = ⟨s.rrc, []⟩ := by
      simp [Rrc.handle, hu]
    exact ⟨s.rrc, rrcCall_absent hdrop, hu, fun _ _ => rfl⟩
  | some u =>
    have hitem : item = .remUser := by
      rw [hu] at h
      cases item <;> simp_all [Item.isRemUser]
    subst hitem
    refine ⟨(Rrc.remUser s.rrc rnti).st, ?_, ?_, fun r hr => ?_⟩
    · simp [State.rrcCall, Rrc.handle, Rrc.handleItem, Rrc.remUser, Item.toRrc, hu,
        State.rrcAction]
    · simp [Rrc.remUser, hu]
    · simp [Rrc.remUser, hu, Ne.symm hr]

theorem rx_noOrphan_iff (hs : NoOrphan s) :
    NoOrphan (step s (.rx io)) ↔ Clean s (.rx io) := by
  unfold step Clean
  cases hq : s.rxPduQueue with
  | nil => exact iff_of_true hs (by simp)
  | cons it q =>
    obtain ⟨rnti, item⟩ := it
    simp only [List.cons.injEq, Prod.mk.injEq, and_imp]
    have hlive : ∀ r, r ≠ rnti → Live s r → s.rrc.users[r]?.isSome = true ∨ r ∈ q.map Prod.fst := by
      intro r hr hl
      unfold Live at hl
      rw [hq] at hl
      simpa [hr] using hl
    by_cases hgone : item.isRemUser = true ∨ s.rrc.users[rnti]? = none
    · obtain ⟨rrc', heq, hnone, hrest⟩ := rx_gone { s with rxPduQueue := q } io
        (s.userExists rnti) hgone
      rw [heq]
      constructor
      · rintro hno _ _ _ rfl rfl rfl hlast -
        exact hno rnti hnone hlast
      · intro hclean r hu hlast
        by_cases hr : r = rnti
        · subst hr
          exact hclean r item q rfl rfl rfl hlast hgone
        · by_contra hc
          rw [← Ne, Option.ne_none_iff_isSome] at hc
          rw [hrest r hr] at hu
          rcases hlive r hr (noOrphan_iff.mp hs r hc) with huser | hin
          · rw [hu] at huser
            cases huser
          · exact hlast hin
    · refine iff_of_true ?_ ?_
      · -- The UE stays, and nothing else is taken from the queue.
        have hnot : ∀ r, Rrc.Event.rx rnti (item.toRrc (s.userExists rnti)) ≠ .rx r .remUser := by
          intro r heq
          refine hgone (Or.inl ?_)
          cases item <;> simp_all [Item.toRrc, Item.isRemUser]
        obtain ⟨hkept, -⟩ := rrcCall_kept { s with rxPduQueue := q } io hnot
        have huser : s.rrc.users[rnti]?.isSome = true :=
          Option.ne_none_iff_isSome.mp fun hu => hgone (Or.inr hu)
        rw [noOrphan_iff]
        intro r hc
        by_cases hr : r = rnti
        · subst hr
          exact hkept.live r (Or.inl huser)
        · exact (hkept.ctxts r hc).elim
            (fun hold => hkept.live r (hlive r hr (noOrphan_iff.mp hs r hold))) id
      · rintro _ _ _ rfl rfl rfl - hg
        exact absurd hg hgone

/-- A step from a state without orphans leaves none, and gives no context to a new UE, exactly when
it is clean. -/
theorem clean_iff (hs : NoOrphan s) (e : Event) :
    Clean s e ↔ Fresh s e ∧ NoOrphan (step s e) := by
  have hcall : ∀ {io : Io} {e : Rrc.Event}, (∀ r, e ≠ .rx r .remUser) →
      NoOrphan (s.rrcCall io e) := fun he => (rrcCall_kept _ _ he).1.noOrphan hs
  cases e with
  | rx io => exact (rx_noOrphan_iff hs).symm.trans (iff_and_self.mpr fun _ => trivial)
  | push rnti item => exact iff_of_true trivial ⟨trivial, (Kept.push s rnti item).noOrphan hs⟩
  | addUser rnti =>
    refine Iff.trans ?_ (iff_self_and.mpr fun _ => hcall fun r h => by cases h)
    constructor
    · intro hclean hu
      by_cases hin : rnti ∈ s.rxPduQueue.map Prod.fst
      · exact hclean hu hin
      · exact hs rnti hu hin
    · exact fun hfresh hu _ => hfresh hu
  | updUser newRnti oldRnti =>
    exact iff_of_true trivial ⟨trivial, hcall fun r h => by cases h⟩
  | timeout rnti io => exact iff_of_true trivial ⟨trivial, hcall fun r h => by cases h⟩
  | notifyConnected rnti => exact iff_of_true trivial ⟨trivial, hcall fun r h => by cases h⟩
  | connected b => exact iff_of_true trivial ⟨trivial, hs⟩
  | dlnastransport msg io =>
    exact (message_noOrphan_iff (handleDlnastransport_answers s.s1ap msg _) hs).symm.trans
      (iff_and_self.mpr fun _ => trivial)
  | initialctxtsetuprequest msg key es io =>
    exact (message_noOrphan_iff (handleSetuprequest_answers (Or.inl rfl) s.s1ap msg _)
      hs).symm.trans (iff_and_self.mpr fun _ => trivial)
  | erabsetuprequest msg es io =>
    exact (message_noOrphan_iff (handleSetuprequest_answers (Or.inr rfl) s.s1ap msg _)
      hs).symm.trans (iff_and_self.mpr fun _ => trivial)
  | uectxtreleasecommand ids io =>
    refine iff_of_true trivial ⟨trivial, (s1apHandle_kept fun r hr => ?_).noOrphan hs⟩
    exact Or.inl (uectxtreleasecommand_adds s.s1ap ids io.sent r hr)

/-- **No orphan context.** Whatever comes in whatever order, S1AP has a context only for an RNTI
that RRC has a UE or an entry for, and no UE inherits one, if and only if each step is clean. -/
theorem noOrphan_iff_clean (cfg : Rrc.Cfg) (es : List Event) :
    AllSteps step Clean (init cfg) es ↔
      AllSteps step Fresh (init cfg) es ∧ AllStates step NoOrphan (init cfg) es := by
  refine allSteps_iff (fun _ _ => True) (fun s e es _ hs hc => ?_) (fun s e es _ hs hc hf hn => ?_)
    trivial fun r _ _ => by simp [init, S1ap.init]
  · obtain ⟨hfresh, hno⟩ := (clean_iff hs e).mp hc
    exact ⟨hfresh, hno, trivial⟩
  · exact hc ((clean_iff hs e).mpr ⟨hf, hn⟩)

/-- The UE is found idle while its RRCConnectionSetupComplete is in the queue. -/
def lateSetupRun : List Event :=
  [.addUser 70, .push 70 (.srb0 (.rrcConReq none 3)), .rx .unused,
    .push 70 (.srb12 (.rrcConSetupComplete [1])), .timeout 70 .unused, .rx .unused, .rx .unused]

theorem orphan_lateSetupRun :
    ¬ (AllSteps step Fresh (init Rrc.exampleCfg) lateSetupRun ∧
      AllStates step NoOrphan (init Rrc.exampleCfg) lateSetupRun) := by
  rintro ⟨-, h⟩
  have hnone := h.last 70 (by decide +kernel) (by decide +kernel)
  revert hnone
  decide +kernel

end Srsenb.RrcS1ap
