import Srsenb.Base.TwoWay
import Srsenb.Upper.S1ap

/-! # The two maps of the S1AP entity

`enbid_to_rnti_map` is the index of the contexts by eNB id. -/

open Srsenb.Run

namespace Srsenb.S1ap

/-- The eNB id of each context. -/
def ids (s : State) (rnti : Nat) : Option Nat := s.ueCtxtMap[rnti]?.map UeCtxt.enbUeS1apId

/-- `enbid_to_rnti_map[e] = r` if and only if the context of `r` has the eNB id `e`. -/
def Coherent (s : State) : Prop :=
  ∀ e r, s.enbidToRntiMap[e]? = some r ↔ ∃ c : UeCtxt, s.ueCtxtMap[r]? = some c ∧ c.enbUeS1apId = e

theorem coherent_iff {s : State} : Coherent s ↔ TwoWay (ids s) (fun e => s.enbidToRntiMap[e]?) := by
  unfold Coherent TwoWay ids
  simp only [Option.map_eq_some_iff]

/-! ## What one step does to the maps -/

/-- The contexts keep their eNB ids, none appears and none goes. -/
def SameIds (s s' : State) : Prop :=
  ids s' = ids s ∧ s'.enbidToRntiMap = s.enbidToRntiMap ∧ s'.nextEnbUeS1apId = s.nextEnbUeS1apId

theorem SameIds.refl (s : State) : SameIds s s := ⟨rfl, rfl, rfl⟩

theorem SameIds.trans {s t u : State} (h : SameIds s t) (h' : SameIds t u) : SameIds s u :=
  ⟨h'.1.trans h.1, h'.2.1.trans h.2.1, h'.2.2.trans h.2.2⟩

theorem ids_eq_of_get {s : State} {r : Nat} {c : UeCtxt} (h : s.ueCtxtMap[r]? = some c) :
    ids s r = some c.enbUeS1apId := by
  unfold ids
  rw [h]; rfl

theorem get_of_ids {s : State} {r e : Nat} (h : ids s r = some e) :
    ∃ c, s.ueCtxtMap[r]? = some c ∧ c.enbUeS1apId = e := by
  simpa [ids] using h

theorem isNone_iff_ids {s : State} {r : Nat} : s.ueCtxtMap[r]?.isNone = true ↔ ids s r = none := by
  simp [ids]

theorem touchCtxt_same {s : State} {r e : Nat} (h : ids s r = some e) :
    SameIds s (s.touchCtxt r) := by
  obtain ⟨c, hc, -⟩ := get_of_ids h
  unfold State.touchCtxt
  rw [StdMap.touch_of_get hc]
  exact .refl s

theorem updateCtxt_same {s : State} {r e : Nat} {f : UeCtxt → UeCtxt} (h : ids s r = some e)
    (hf : ∀ c, (f c).enbUeS1apId = c.enbUeS1apId) : SameIds s (s.updateCtxt r f) := by
  obtain ⟨c, hc, -⟩ := get_of_ids h
  refine ⟨?_, rfl, rfl⟩
  funext a
  unfold ids State.updateCtxt
  simp only [StdMap.getElem?_update]
  split_ifs with hra
  · subst hra
    simp [hf, hc, StdMap.sub_of_get hc]
  · rfl

theorem sendMessage_same {s : State} {r e : Nat} {msg : UeCtxt → TxPdu} {sent : Bool}
    (h : ids s r = some e) : SameIds s (sendMessage s r msg sent).st := by
  unfold sendMessage
  split_ifs
  · exact .refl s
  · exact touchCtxt_same h

theorem ids_erase (s : State) (r : Nat) :
    ids { s with ueCtxtMap := s.ueCtxtMap.erase r } = Function.update (ids s) r none := by
  funext a
  unfold ids
  simp only [StdMap.getElem?_erase, Function.update_apply]
  split_ifs with h1 h2 h2
  · rfl
  · exact absurd h1.symm h2
  · exact absurd h2.symm h1
  · rfl

theorem enbids_erase (m : StdMap Nat) (e : Nat) :
    (fun a => (m.erase e)[a]?) = Function.update (fun a => m[a]?) e none := by
  funext a
  simp only [StdMap.getElem?_erase, Function.update_apply, eq_comm]

theorem openCtxt_ids (s : State) (r : Nat) :
    ids (openCtxt s r) = Function.update (ids s) r (some s.nextEnbUeS1apId) := by
  funext a
  unfold ids openCtxt
  simp only [State.updateCtxt, StdMap.getElem?_update, StdMap.sub_eq, Function.update_apply]
  by_cases h : r = a
  · subst h; simp
  · simp [h, Ne.symm h]

theorem openCtxt_enbids (s : State) (r : Nat) :
    (fun e => (openCtxt s r).enbidToRntiMap[e]?) =
      Function.update (fun e => s.enbidToRntiMap[e]?) s.nextEnbUeS1apId (some r) := by
  funext e
  simp only [openCtxt, State.ctxt, State.updateCtxt, StdMap.getElem?_insert, StdMap.sub_eq,
    StdMap.getElem?_update, Function.update_apply, eq_comm]
  simp

theorem matchMmeUeId_get {s : State} {m r : Nat} {c : UeCtxt} (h : matchMmeUeId s m = some (r, c)) :
    s.ueCtxtMap[r]? = some c := by
  have := List.mem_of_find?_eq_some h
  exact Std.ExtTreeMap.mem_toList_iff_getElem?_eq_some.mp this

/-- A new connection is for an RNTI with no context, no release finds a context whose release was
requested before, and a command by MME id finds a context whose `rnti` field is its key. -/
def Allowed (s : State) : Event → Prop
  | .initialUe rnti _ _ _ _ => s.ueCtxtMap[rnti]? = none
  | .userRelease rnti _ _ => ∀ c ∈ s.ueCtxtMap[rnti]?, c.releaseRequested = false
  | .uectxtreleasecommand (.mme m) _ => ∀ it ∈ matchMmeUeId s m, it.2.rnti % 2 ^ 16 = it.1
  | _ => True

instance (s : State) : ∀ e, Decidable (Allowed s e)
  | .initialUe rnti _ _ _ _ => inferInstanceAs (Decidable (s.ueCtxtMap[rnti]? = none))
  | .userRelease rnti _ _ =>
    inferInstanceAs (Decidable (∀ c ∈ s.ueCtxtMap[rnti]?, c.releaseRequested = false))
  | .uectxtreleasecommand (.mme m) _ =>
    inferInstanceAs (Decidable (∀ it ∈ matchMmeUeId s m, it.2.rnti % 2 ^ 16 = it.1))
  | .uectxtreleasecommand (.pair _ _) _ | .connected _ | .writePdu _ _ _ | .dlnastransport _ _
  | .initialctxtsetuprequest _ _ | .erabsetuprequest _ _ => .isTrue trivial

def isInitialUe : Event → Bool
  | .initialUe .. => true
  | _ => false

/-- The context that the command is about, as the maps of a coherent state have it, and the RNTI
that the handler takes it to be. -/
theorem releasedId_cases {s : State} (hs : Coherent s) {ids' : UeS1apIds} {b : Bool} {rnti : Nat}
    {enbids : StdMap Nat} (h : releasedId s ids' = some (rnti, enbids)) :
    ∃ key e, ids s key = some e ∧ enbids = s.enbidToRntiMap.erase e ∧
      (Allowed s (.uectxtreleasecommand ids' b) ↔ rnti = key) := by
  cases ids' with
  | pair mmeId enbId =>
    simp only [releasedId, Option.map_eq_some_iff, Prod.mk.injEq] at h
    obtain ⟨key, hk, rfl, rfl⟩ := h
    obtain ⟨c, hc, rfl⟩ := (hs enbId key).mp hk
    exact ⟨key, _, ids_eq_of_get hc, rfl, by simp [Allowed]⟩
  | mme m =>
    simp only [releasedId, findMmeUeId, Option.map_map, Option.map_eq_some_iff,
      Function.comp_apply, Prod.mk.injEq] at h
    obtain ⟨⟨key, c⟩, hm, rfl, rfl⟩ := h
    refine ⟨key, _, ids_eq_of_get (matchMmeUeId_get hm), rfl, ?_⟩
    simp [Allowed, hm]

/-- What an event can do to the contexts of a coherent state. -/
inductive Change (s : State) : Event → State → Prop where
  | same {e s'} : isInitialUe e = false → Allowed s e → SameIds s s' → Change s e s'
  | opened {r c p t b s'} : SameIds (openCtxt s r) s' → Change s (.initialUe r c p t b) s'
  | zombie {r cause b c} : s.ueCtxtMap[r]? = some c → c.releaseRequested = true →
      Change s (.userRelease r cause b) { s with ueCtxtMap := s.ueCtxtMap.erase r }
  | released {ids' b rnti enbids s'} : releasedId s ids' = some (rnti, enbids) →
      SameIds { s with ueCtxtMap := s.ueCtxtMap.erase rnti, enbidToRntiMap := enbids } s' →
      Change s (.uectxtreleasecommand ids' b) s'

theorem userRelease_change (s : State) (r cause : Nat) (b : Bool) :
    Change s (.userRelease r cause b) (userRelease s r cause b).st := by
  unfold userRelease
  split_ifs with hnone hreq
  · refine .same rfl ?_ (.refl s)
    intro c hc
    simp [Option.mem_def.mp hc] at hnone
  · obtain ⟨c, hc⟩ := StdMap.exists_get hnone
    rw [State.ctxt, StdMap.sub_of_get hc] at hreq
    exact .zombie hc hreq
  · obtain ⟨c, hc⟩ := StdMap.exists_get hnone
    have h1 : SameIds s (s.updateCtxt r fun c => { c with releaseRequested := true }) :=
      updateCtxt_same (ids_eq_of_get hc) fun _ => rfl
    have h2 := ids_eq_of_get hc
    rw [← h1.1] at h2
    refine .same rfl ?_ (h1.trans (sendMessage_same h2))
    intro c' hc'
    rw [State.ctxt, StdMap.sub_of_get hc'] at hreq
    exact Bool.eq_false_iff.mpr hreq

theorem writePdu_same (s : State) (r : Nat) (pdu : Pdu) (b : Bool) :
    SameIds s (writePdu s r pdu b).st := by
  unfold writePdu
  split_ifs with hnone
  · exact .refl s
  · obtain ⟨c, hc⟩ := StdMap.exists_get hnone
    exact sendMessage_same (ids_eq_of_get hc)

theorem dlnastransport_same {s : State} (hs : Coherent s) (msg : DownlinkNasTransport) (b : Bool) :
    SameIds s (handleDlnastransport s msg b).st := by
  unfold handleDlnastransport
  split
  · exact .refl s
  · rename_i rnti hr
    obtain ⟨c, hc, -⟩ := (hs _ _).mp hr
    have h := updateCtxt_same (f := fun c => { c with mmeUeS1apId := msg.mmeUeS1apId })
      (ids_eq_of_get hc) fun _ => rfl
    cases b <;> exact h

theorem setuprequest_same {s : State} (hs : Coherent s) (setup : Nat → Action) (msg : SetupRequest)
    (b : Bool) : SameIds s (handleSetuprequest setup s msg b).st := by
  unfold handleSetuprequest
  split
  · exact .refl s
  · rename_i rnti hr
    obtain ⟨c, hc, -⟩ := (hs _ _).mp hr
    have h1 : SameIds s (s.touchCtxt rnti) := touchCtxt_same (ids_eq_of_get hc)
    have h2 := ids_eq_of_get hc
    rw [← h1.1] at h2
    dsimp only
    split_ifs
    · exact h1.trans (updateCtxt_same h2 fun _ => rfl)
    · exact h1

theorem uectxtreleasecommand_change (s : State) (ids' : UeS1apIds) (b : Bool) :
    Change s (.uectxtreleasecommand ids' b) (handleUectxtreleasecommand s ids' b).st := by
  unfold handleUectxtreleasecommand
  split
  · rename_i hrel
    refine .same rfl ?_ (.refl s)
    cases ids' with
    | pair => trivial
    | mme m =>
      intro it hm
      simp [releasedId, findMmeUeId, Option.mem_def.mp hm] at hrel
  · rename_i rnti enbids hrel
    apply Change.released hrel
    dsimp only
    split_ifs with hnone
    · -- Nothing to erase: the context map has no such RNTI.
      refine ⟨?_, rfl, rfl⟩
      have hn : ids s rnti = none := isNone_iff_ids.mp hnone
      rw [show ids { s with ueCtxtMap := s.ueCtxtMap.erase rnti, enbidToRntiMap := enbids } =
        ids { s with ueCtxtMap := s.ueCtxtMap.erase rnti } from rfl, ids_erase, ← hn,
        Function.update_eq_self]
      rfl
    · obtain ⟨c, hc⟩ := StdMap.exists_get hnone
      let t : State := { s with enbidToRntiMap := enbids }
      have h : SameIds t (sendUectxtreleasecomplete t rnti (t.ctxt rnti).mmeUeS1apId
          (t.ctxt rnti).enbUeS1apId b).st :=
        sendMessage_same (ids_eq_of_get (s := t) hc)
      refine ⟨?_, h.2.1, h.2.2⟩
      rw [ids_erase, h.1]
      exact (ids_erase t rnti).symm

theorem step_change {s : State} (hs : Coherent s) (e : Event) : Change s e (step s e) := by
  cases e with
  | connected b => exact .same rfl trivial ⟨rfl, rfl, rfl⟩
  | initialUe r cause pdu t b =>
    have h : ids (openCtxt s r) r = some s.nextEnbUeS1apId := by simp [openCtxt_ids]
    exact .opened (sendMessage_same h)
  | writePdu r pdu b => exact .same rfl trivial (writePdu_same s r pdu b)
  | userRelease r cause b => exact userRelease_change s r cause b
  | dlnastransport msg b => exact .same rfl trivial (dlnastransport_same hs msg b)
  | initialctxtsetuprequest msg b => exact .same rfl trivial (setuprequest_same hs _ msg b)
  | erabsetuprequest msg b => exact .same rfl trivial (setuprequest_same hs _ msg b)
  | uectxtreleasecommand ids' b => exact uectxtreleasecommand_change s ids' b

/-! ## Which steps keep the maps in agreement -/

/-- The ids in use are among the `n` that were given out. -/
def Fresh (n : Nat) (s : State) : Prop :=
  s.nextEnbUeS1apId = (n + 1) % 2 ^ 32 ∧ ∀ r e, ids s r = some e → 1 ≤ e ∧ e ≤ n

theorem coherent_init : Coherent init := by
  intro e r
  simp [init]

theorem fresh_init : Fresh 0 init := by
  refine ⟨rfl, ?_⟩
  intro r e h
  simp [ids, init] at h

theorem coherent_of_same {s s' : State} (h : SameIds s s') : Coherent s' ↔ Coherent s := by
  rw [coherent_iff, coherent_iff, h.1, h.2.1]

theorem Fresh.of_same {n : Nat} {s s' : State} (h : SameIds s s') (hf : Fresh n s) :
    Fresh n s' := by
  unfold Fresh
  rw [h.1, h.2.2]
  exact hf

theorem Fresh.next_eq {n : Nat} {s : State} (hf : Fresh n s) (hn : n + 1 < 2 ^ 32) :
    s.nextEnbUeS1apId = n + 1 := by
  rw [hf.1, Nat.mod_eq_of_lt hn]

/-- The next id is in neither map. -/
theorem Fresh.unused {n : Nat} {s : State} (hs : Coherent s) (hf : Fresh n s)
    (hn : n + 1 < 2 ^ 32) :
    s.enbidToRntiMap[s.nextEnbUeS1apId]? = none := by
  rw [hf.next_eq hn]
  cases h : s.enbidToRntiMap[n + 1]? with
  | none => rfl
  | some r =>
    obtain ⟨c, hc, he⟩ := (hs _ _).mp h
    have := (hf.2 r _ (ids_eq_of_get hc)).2
    omega

theorem Fresh.update_none {n : Nat} {s s' : State} {r : Nat} (hf : Fresh n s)
    (hids : ids s' = Function.update (ids s) r none)
    (hnext : s'.nextEnbUeS1apId = s.nextEnbUeS1apId) : Fresh n s' := by
  refine ⟨hnext.trans hf.1, ?_⟩
  intro a e ha
  rw [hids, Function.update_apply] at ha
  split_ifs at ha
  exact hf.2 a e ha

theorem openCtxt_fresh {n : Nat} {s : State} {r : Nat} (hf : Fresh n s) (hn : n + 1 < 2 ^ 32) :
    Fresh (n + 1) (openCtxt s r) := by
  refine ⟨?_, ?_⟩
  · show (s.nextEnbUeS1apId + 1) % 2 ^ 32 = _
    rw [hf.next_eq hn]
  · intro a e ha
    rw [openCtxt_ids, Function.update_apply, hf.next_eq hn] at ha
    split_ifs at ha
    · cases ha; omega
    · have := hf.2 a e ha
      omega

/-- An allowed step keeps the maps in agreement and the next id unused. -/
theorem coherent_step {n : Nat} {s s' : State} {e : Event} (hs : Coherent s) (hf : Fresh n s)
    (hn : n + (if isInitialUe e then 1 else 0) < 2 ^ 32) (hc : Change s e s') (ha : Allowed s e) :
    Coherent s' ∧ Fresh (n + (if isInitialUe e then 1 else 0)) s' := by
  have h2 := coherent_iff.mp hs
  cases hc with
  | same he _ h =>
    simp only [he, Bool.false_eq_true, if_false]
    exact ⟨(coherent_of_same h).mpr hs, hf.of_same h⟩
  | @opened r _ _ _ _ _ h =>
    refine ⟨(coherent_of_same h).mpr ?_, (openCtxt_fresh hf hn).of_same h⟩
    rw [coherent_iff, openCtxt_ids, openCtxt_enbids]
    exact h2.insert (by rw [ids, ha]; rfl) (hf.unused hs hn)
  | zombie hget hreq =>
    have := ha _ hget
    rw [hreq] at this
    exact absurd this (by decide)
  | @released ids' b rnti enbids _ hrel h =>
    obtain ⟨key, e, hk, rfl, hiff⟩ := releasedId_cases (b := b) hs hrel
    obtain rfl : rnti = key := hiff.mp ha
    refine ⟨(coherent_of_same h).mpr ?_, Fresh.of_same h ?_⟩
    · rw [coherent_iff, enbids_erase]
      exact (ids_erase s rnti) ▸ h2.erase hk
    · exact hf.update_none (ids_erase s rnti) rfl

/-- A step that is not allowed breaks the agreement at once. -/
theorem not_coherent_step {n : Nat} {s s' : State} {e : Event} (hs : Coherent s) (hf : Fresh n s)
    (hn : n + (if isInitialUe e then 1 else 0) < 2 ^ 32) (hc : Change s e s')
    (ha : ¬ Allowed s e) : ¬ Coherent s' := by
  have h2 := coherent_iff.mp hs
  cases hc with
  | same _ hal _ => exact absurd hal ha
  | @opened r _ _ _ _ _ h =>
    obtain ⟨c, hc⟩ := Option.ne_none_iff_exists'.mp ha
    have hle := (hf.2 r _ (ids_eq_of_get hc)).2
    rw [coherent_of_same h, coherent_iff, openCtxt_ids, openCtxt_enbids]
    apply h2.not_rebind (ids_eq_of_get hc)
    rw [hf.next_eq hn]
    omega
  | @zombie r _ _ _ hget _ =>
    rw [coherent_iff, ids_erase]
    exact h2.not_erase_fst (ids_eq_of_get hget)
  | @released ids' b rnti enbids _ hrel h =>
    obtain ⟨key, e, hk, rfl, hiff⟩ := releasedId_cases (b := b) hs hrel
    have hkey : key ≠ rnti := fun h => ha (hiff.mpr h.symm)
    rw [coherent_of_same h, coherent_iff, enbids_erase]
    -- At most the context of another RNTI was erased: that of `key` is still there.
    apply TwoWay.not_erase_snd (a := key)
    show ids { s with ueCtxtMap := s.ueCtxtMap.erase rnti } key = some e
    rw [ids_erase, Function.update_of_ne hkey, hk]

/-! ## What the handlers do with an eNB id -/

/-- Only a DownlinkNASTransport is forwarded, and to the RNTI whose context has its eNB id. -/
def Forwards (s : State) (e : Event) : Prop :=
  ∀ rnti pdu, .writeDlInfo rnti pdu ∈ (handle s e).acts →
    ∃ msg b, e = .dlnastransport msg b ∧
      ∃ c : UeCtxt, (step s e).ueCtxtMap[rnti]? = some c ∧ c.enbUeS1apId = msg.enbUeS1apId

/-- A context that was not there before is one that `initial_ue` made. -/
def OpensOnly (s : State) (e : Event) : Prop :=
  ∀ rnti, s.ueCtxtMap[rnti]? = none → (step s e).ueCtxtMap[rnti]? ≠ none →
    ∃ cause pdu t b, e = .initialUe rnti cause pdu t b

theorem sendMessage_acts {s : State} {r : Nat} {msg : UeCtxt → TxPdu} {b : Bool} {a : Action}
    (h : a ∈ (sendMessage s r msg b).acts) : ∃ m i, a = .sctpSendmsg m i := by
  unfold sendMessage at h
  split_ifs at h
  · simp at h
  · simp only [List.mem_singleton] at h
    exact ⟨_, _, h⟩

theorem forwards_of_coherent {s : State} (hs : Coherent s) (e : Event) : Forwards s e := by
  intro rnti pdu h
  cases e with
  | connected b => simp [handle] at h
  | initialUe r cause pdu' t b => simpa using sendMessage_acts h
  | writePdu r pdu' b =>
    simp only [handle, writePdu] at h
    split_ifs at h
    · simp at h
    · simpa using sendMessage_acts h
  | userRelease r cause b =>
    simp only [handle, userRelease] at h
    split_ifs at h
    · simp at h
    · simp at h
    · simpa using sendMessage_acts h
  | dlnastransport msg b =>
    simp only [handle, handleDlnastransport] at h
    split at h
    · simp at h
    · rename_i r hr
      cases b with
      | false => simp at h
      | true =>
        obtain ⟨rfl, rfl⟩ : rnti = r ∧ pdu = msg.nasPdu := by simpa using h
        have hids := ((coherent_iff.mp hs) _ _).mp hr
        rw [← (dlnastransport_same hs msg true).1] at hids
        exact ⟨msg, true, rfl, get_of_ids hids⟩
  | initialctxtsetuprequest msg b =>
    simp only [handle, handleInitialctxtsetuprequest, handleSetuprequest] at h
    split at h <;> simp at h
  | erabsetuprequest msg b =>
    simp only [handle, handleErabsetuprequest, handleSetuprequest] at h
    split at h <;> simp at h
  | uectxtreleasecommand ids' b =>
    simp only [handle, handleUectxtreleasecommand] at h
    split at h
    · simp at h
    · split_ifs at h
      · simp at h
      · simp only [List.cons_append, List.mem_cons, List.mem_append, List.not_mem_nil,
          reduceCtorEq, false_or, or_false] at h
        simpa using sendMessage_acts h

theorem Change.opens {s s' : State} {e : Event} {rnti : Nat} (h : Change s e s')
    (hnone : ids s rnti = none) (hsome : ids s' rnti ≠ none) :
    ∃ cause pdu t b, e = .initialUe rnti cause pdu t b := by
  cases h with
  | same _ _ h => exact absurd (h.1 ▸ hnone) hsome
  | @opened r c p t b _ h =>
    rw [h.1, openCtxt_ids, Function.update_apply] at hsome
    split_ifs at hsome with hr
    · subst hr
      exact ⟨c, p, t, b, rfl⟩
    · exact absurd hnone hsome
  | zombie _ _ =>
    rw [ids_erase, Function.update_apply, hnone] at hsome
    simp at hsome
  | @released ids' b r enbids _ _ h =>
    have h1 : ids s' rnti = ids { s with ueCtxtMap := s.ueCtxtMap.erase r } rnti :=
      congrFun h.1 rnti
    rw [h1, ids_erase, Function.update_apply, hnone] at hsome
    simp at hsome

theorem opensOnly_of_coherent {s : State} (hs : Coherent s) (e : Event) : OpensOnly s e := by
  intro rnti hnone hsome
  apply (step_change hs e).opens
  · simp [ids, hnone]
  · simpa [ids] using hsome

/-! ## Every run -/

/-- **The maps of the S1AP entity.** In a run with fewer than 2^32 connections, the maps agree in
every state, downlink NAS messages reach the RNTI of their eNB id and only `initial_ue` makes
contexts, if and only if each step is an allowed one. -/
theorem maps_coherent_iff (es : List Event) (hcount : es.countP isInitialUe < 2 ^ 32) :
    (AllStates step Coherent init es ∧
      AllSteps step (fun s e => Forwards s e ∧ OpensOnly s e) init es) ↔
    AllSteps step Allowed init es := by
  let J : List Event → State → Prop := fun es s =>
    ∃ n, Fresh n s ∧ n + es.countP isInitialUe < 2 ^ 32
  have hbudget : ∀ {n e es}, n + (e :: es).countP isInitialUe < 2 ^ 32 →
      n + (if isInitialUe e then 1 else 0) + es.countP isInitialUe < 2 ^ 32 := by
    intro n e es h
    rw [List.countP_cons] at h
    omega
  have h : AllSteps step Allowed init es ↔
      AllSteps step (fun s e => Forwards s e ∧ OpensOnly s e) init es ∧
        AllStates step Coherent init es := by
    refine allSteps_iff J ?_ ?_ ⟨0, fresh_init, by simpa using hcount⟩ coherent_init
    · rintro s e es ⟨n, hf, hn⟩ hs ha
      have hn' := hbudget hn
      obtain ⟨h1, h2⟩ := coherent_step hs hf (by omega) (step_change hs e) ha
      exact ⟨⟨forwards_of_coherent hs e, opensOnly_of_coherent hs e⟩, h1, _, h2, hn'⟩
    · rintro s e es ⟨n, hf, hn⟩ hs ha -
      have hn' := hbudget hn
      exact not_coherent_step hs hf (by omega) (step_change hs e) ha
  rw [h, and_comm]

/-- A UE attaches, is served, asks for its release and is released by the MME. -/
def attachRun : List Event :=
  [.connected true, .initialUe 70 0 [7] none true, .dlnastransport ⟨1, 5, [9]⟩ true,
    .userRelease 70 0 true, .uectxtreleasecommand (.pair 5 1) true, .initialUe 70 0 [7] none true]

theorem maps_coherent_attachRun :
    AllStates step Coherent init attachRun ∧
      AllSteps step (fun s e => Forwards s e ∧ OpensOnly s e) init attachRun :=
  (maps_coherent_iff attachRun (by decide)).mpr (by decide)

/-- The MME does not answer the release request and the UE is still inactive: the second
`user_release` leaves the eNB id behind, and a NAS message for it makes a context again. -/
def zombieRun : List Event :=
  [.connected true, .initialUe 70 0 [7] none true, .userRelease 70 0 true, .userRelease 70 0 true,
    .dlnastransport ⟨1, 5, [9]⟩ true]

theorem maps_not_coherent_zombieRun :
    zombieRun.countP isInitialUe < 2 ^ 32 ∧
      (exec step init zombieRun).enbidToRntiMap[1]? = some 70 ∧
      (exec step init zombieRun).ueCtxtMap[70]? = some ⟨0, 0, 5, false, 0⟩ ∧
      ¬ (AllStates step Coherent init zombieRun ∧
        AllSteps step (fun s e => Forwards s e ∧ OpensOnly s e) init zombieRun) := by
  have h1 : (exec step init zombieRun).enbidToRntiMap[1]? = some 70 := by decide
  have h2 : (exec step init zombieRun).ueCtxtMap[70]? = some ⟨0, 0, 5, false, 0⟩ := by decide
  refine ⟨by decide, h1, h2, ?_⟩
  rintro ⟨h, -⟩
  have hs := allStates_iff.mp h zombieRun (List.prefix_refl _)
  obtain ⟨c, hc, he⟩ := (hs 1 70).mp h1
  rw [h2, Option.some.injEq] at hc
  subst hc
  exact absurd he (by decide)

end Srsenb.S1ap
