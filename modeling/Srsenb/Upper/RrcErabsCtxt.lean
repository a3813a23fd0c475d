import Srsenb.Upper.RrcErabs

/-! # The E-RABs of an InitialContextSetupRequest

The response lists every entry of `erabs`, and `send_connection_reconf` builds the DRB of the E-RAB
5 alone. -/

open Srsenb.Run

namespace Srsenb.Rrc

variable {u : Ue} {cfg : Cfg} {rnti : Nat} {es : List ErabItem}

/-! ## The actions around the response -/

/-- `send_connection_reconf` builds the DRB of the E-RAB 5. -/
def Drb1Ok (cfg : Cfg) (u : Ue) : Prop := QciOk cfg (u.erabs.sub 5).qci

/-- An action that is no tunnel and no response, and a bearer only as `send_connection_reconf`
adds it. -/
def Quiet (drb1 : Prop) : Action → Prop
  | .gtpuAddBearer .. => False
  | .s1apUeCtxtSetupComplete .. => False
  | .s1apUeErabSetupComplete .. => False
  | .macBearerUeCfg _ lcid => (lcid = 2 ∨ lcid = 3) ∧ drb1
  | .rlcAddBearer _ lcid => lcid = 2 ∨ lcid = 3
  | .pdcpAddBearer _ lcid => lcid = 2 ∨ lcid = 3
  | .dlDcch _ (.rrcConReconfig _ drbs _) => ∀ drb ∈ drbs, drb.lcId = 3
  | _ => True

theorem sendConnectionReconf_erabs :
    (u.sendConnectionReconf cfg rnti).1.erabs = u.erabs.touch 5 := by
  have h := getDrbidConfig_spec { u with transactionId := (u.transactionId + 1) % 256 } cfg
    (show 5 ≤ 5 ∧ 5 ≤ 12 by omega)
  unfold Ue.sendConnectionReconf Ue.nextTransaction
  simp only [show (1 : Int) = ((5 - 2 : Nat) : Int) - 2 from rfl, h]
  split_ifs <;> rfl

theorem sendConnectionReconf_quiet :
    ∀ a ∈ (u.sendConnectionReconf cfg rnti).2, Quiet (Drb1Ok cfg u) a := by
  have h := getDrbidConfig_spec { u with transactionId := (u.transactionId + 1) % 256 } cfg
    (show 5 ≤ 5 ∧ 5 ≤ 12 by omega)
  unfold Ue.sendConnectionReconf Ue.nextTransaction
  simp only [show (1 : Int) = ((5 - 2 : Nat) : Int) - 2 from rfl, h]
  by_cases hqci : QciOk cfg (u.erabs.sub 5).qci
  · simp [Quiet, Drb1Ok, hqci]
  · simp [if_neg hqci, Quiet]

/-- The E-RAB 5 gets its DRB in each layer, and the UE is told. -/
theorem sendConnectionReconf_drb1 (hqci : Drb1Ok cfg u) :
    .macBearerUeCfg rnti 3 ∈ (u.sendConnectionReconf cfg rnti).2 ∧
    .rlcAddBearer rnti 3 ∈ (u.sendConnectionReconf cfg rnti).2 ∧
    .pdcpAddBearer rnti 3 ∈ (u.sendConnectionReconf cfg rnti).2 ∧
    ∃ t nas, .dlDcch rnti (.rrcConReconfig t [⟨1, 3, 5⟩] nas) ∈
      (u.sendConnectionReconf cfg rnti).2 := by
  have h := getDrbidConfig_spec { u with transactionId := (u.transactionId + 1) % 256 } cfg
    (show 5 ≤ 5 ∧ 5 ≤ 12 by omega)
  unfold Drb1Ok at hqci
  unfold Ue.sendConnectionReconf Ue.nextTransaction
  simp only [show (1 : Int) = ((5 - 2 : Nat) : Int) - 2 from rfl, h, if_pos hqci]
  refine ⟨by simp, by simp, by simp, u.transactionId % 4,
    if u.nasPending then [u.erabInfo] else [], by simp⟩

theorem parseUlDcch_quiet (u : Ue) (cfg : Cfg) (rnti : Nat) (msg : UlDcchMsg)
    (h : msg ≠ .securityModeComplete) :
    (u.parseUlDcch cfg rnti msg).1.erabs =
      (if msg = .ueCapabilityInfo then u.erabs.touch 5 else u.erabs) ∧
    ∀ a ∈ (u.parseUlDcch cfg rnti msg).2, Quiet (Drb1Ok cfg u) a := by
  cases msg with
  | securityModeComplete => exact absurd rfl h
  | ueCapabilityInfo =>
    exact ⟨sendConnectionReconf_erabs (u := { u with transactionId := 0 }),
      sendConnectionReconf_quiet (u := { u with transactionId := 0 })⟩
  | rrcConSetupComplete nas =>
    simp [Ue.parseUlDcch, Ue.handleRrcConSetupComplete, Quiet]
  | rrcConReconfigComplete => simp [Ue.parseUlDcch, Ue.handleRrcReconfComplete, Quiet]
  | ulInfoTransfer nas => simp [Ue.parseUlDcch, Quiet]
  | securityModeFailure => simp [Ue.parseUlDcch]
  | other => simp [Ue.parseUlDcch]

/-- The messages of the UE, one after the other. -/
def Ue.parseAll (u : Ue) (cfg : Cfg) (rnti : Nat) : List UlDcchMsg → Ue × List Action
  | [] => (u, [])
  | msg :: msgs =>
    let (u, acts) := u.parseUlDcch cfg rnti msg
    let (u, acts') := Ue.parseAll u cfg rnti msgs
    (u, acts ++ acts')

theorem touch_touch (m : StdMap Erab) : (m.touch 5).touch 5 = m.touch 5 := by
  obtain ⟨v, hv⟩ := Option.isSome_iff_exists.mp
    (StdMap.isSome_touch (m := m) (k := 5) (a := 5) (Or.inl rfl))
  exact StdMap.touch_of_get hv

theorem parseAll_quiet (u : Ue) (cfg : Cfg) (rnti : Nat) {msgs : List UlDcchMsg}
    (h : UlDcchMsg.securityModeComplete ∉ msgs) :
    (u.parseAll cfg rnti msgs).1.erabs =
      (if UlDcchMsg.ueCapabilityInfo ∈ msgs then u.erabs.touch 5 else u.erabs) ∧
    ∀ a ∈ (u.parseAll cfg rnti msgs).2, Quiet (Drb1Ok cfg u) a := by
  induction msgs generalizing u with
  | nil => simp [Ue.parseAll]
  | cons msg msgs ih =>
    rw [List.mem_cons, not_or] at h
    obtain ⟨hmsg, hmsgs⟩ := h
    obtain ⟨herabs, hacts⟩ := parseUlDcch_quiet u cfg rnti msg (Ne.symm hmsg)
    obtain ⟨herabs', hacts'⟩ := ih (u.parseUlDcch cfg rnti msg).1 hmsgs
    have hdrb : Drb1Ok cfg (u.parseUlDcch cfg rnti msg).1 ↔ Drb1Ok cfg u := by
      unfold Drb1Ok
      rw [herabs]
      split_ifs
      · rw [StdMap.sub_touch]
      · rfl
    constructor
    · simp only [Ue.parseAll, herabs', herabs, List.mem_cons]
      by_cases h1 : msg = .ueCapabilityInfo
      · simp [h1, touch_touch]
      · simp [h1, Ne.symm h1]
    · intro a ha
      rcases List.mem_append.mp ha with ha | ha
      · exact hacts a ha
      · rw [← hdrb]
        exact hacts' a ha

/-- The UE from the request to the end of the SecurityModeComplete. -/
def Ue.initialCtxt (u : Ue) (cfg : Cfg) (rnti : Nat) (key : Pdu) (es : List ErabItem)
    (msgs : List UlDcchMsg) : Ue × List Action :=
  let (u, acts) := u.sendSecurityModeCommand rnti
  let (u, acts') := u.setupErabsCtxt rnti es
  let (u, acts'') := u.parseAll cfg rnti (msgs ++ [UlDcchMsg.securityModeComplete])
  (u, .pdcpConfigSecurity rnti 1 key :: acts ++ acts' ++ acts'')

theorem parseAll_append (msgs msgs' : List UlDcchMsg) :
    u.parseAll cfg rnti (msgs ++ msgs') =
      (((u.parseAll cfg rnti msgs).1.parseAll cfg rnti msgs').1,
        (u.parseAll cfg rnti msgs).2 ++
          ((u.parseAll cfg rnti msgs).1.parseAll cfg rnti msgs').2) := by
  induction msgs generalizing u with
  | nil => rfl
  | cons msg msgs ih => simp [Ue.parseAll, ih]

/-- The entry of an id after the tunnels of the request were added. -/
def entryAfter (u : Ue) (rnti : Nat) (es : List ErabItem) (k : Nat) : Option Erab :=
  ((lastItem (accepted es) k).map (erabOf rnti)).or u.erabs[k]?

/-- The response is sent with the entries `erabs`, between actions that are quiet. -/
structure Served (cfg : Cfg) (rnti : Nat) (es : List ErabItem) (msgs : List UlDcchMsg)
    (u u' : Ue) (acts : List Action) (erabs : StdMap Erab) (before after : List Action) :
    Prop where
  entries : ∀ k : Nat, erabs[k]? =
    if UlDcchMsg.ueCapabilityInfo ∈ msgs ∧ k = 5 then some ((entryAfter u rnti es k).getD default)
    else entryAfter u rnti es k
  left : u'.erabs = erabs.touch 5
  order : acts = before ++
    .s1apUeCtxtSetupComplete rnti (erabs.toList.map fun it => (it.2.id, it.2.teidIn)) :: after
  before_cases : ∀ a ∈ before, Quiet (QciOk cfg (erabs.sub 5).qci) a ∨
    ∃ e ∈ accepted es, a = tunnelOf rnti e
  tunnels : ∀ e ∈ accepted es, tunnelOf rnti e ∈ before
  after_quiet : ∀ a ∈ after, Quiet (QciOk cfg (erabs.sub 5).qci) a
  drb1 : QciOk cfg (erabs.sub 5).qci → .macBearerUeCfg rnti 3 ∈ after ∧
    .rlcAddBearer rnti 3 ∈ after ∧ .pdcpAddBearer rnti 3 ∈ after ∧
    ∃ t nas, .dlDcch rnti (.rrcConReconfig t [⟨1, 3, 5⟩] nas) ∈ after

theorem initialCtxt_served (u : Ue) (cfg : Cfg) (rnti : Nat) (key : Pdu) (es : List ErabItem)
    {msgs : List UlDcchMsg} (h : UlDcchMsg.securityModeComplete ∉ msgs) :
    ∃ erabs before after, Served cfg rnti es msgs u (u.initialCtxt cfg rnti key es msgs).1
      (u.initialCtxt cfg rnti key es msgs).2 erabs before after := by
  obtain ⟨u1, hu1⟩ : ∃ u1, { u with transactionId := (u.transactionId + 1) % 256 } = u1 := ⟨_, rfl⟩
  obtain ⟨u2, hu2⟩ : ∃ u2, (u1.setupErabItems rnti es).1 = u2 := ⟨_, rfl⟩
  obtain ⟨u3, hu3⟩ : ∃ u3, (u2.parseAll cfg rnti msgs).1 = u3 := ⟨_, rfl⟩
  obtain ⟨u4, hu4⟩ : ∃ u4, { u3 with transactionId := 0 } = u4 := ⟨_, rfl⟩
  obtain ⟨before, hbefore⟩ : ∃ before, .pdcpConfigSecurity rnti 1 key :: .dlDcch rnti
    (.securityModeCommand (u.transactionId % 4)) :: (accepted es).map (tunnelOf rnti) ++
      (u2.parseAll cfg rnti msgs).2 = before := ⟨_, rfl⟩
  obtain ⟨hacts, -, herabs⟩ := setupErabItems_spec u1 rnti es
  obtain ⟨herabs3, hquiet⟩ := parseAll_quiet u2 cfg rnti h
  rw [hu2] at herabs
  rw [hu3] at herabs3
  have h14 : u1.erabs = u.erabs ∧ u4.erabs = u3.erabs := by
    rw [← hu1, ← hu4]
    exact ⟨rfl, rfl⟩
  have hsub : Drb1Ok cfg u2 ↔ QciOk cfg (u3.erabs.sub 5).qci := by
    unfold Drb1Ok
    rw [herabs3]
    split_ifs
    · rw [StdMap.sub_touch]
    · rfl
  rw [hsub] at hquiet
  have hout : u.initialCtxt cfg rnti key es msgs =
      ({ (u4.sendConnectionReconf cfg rnti).1 with state := .waitForConReconfComplete },
        before ++ u4.notifyS1apUeCtxtSetupComplete rnti ::
          (u4.sendConnectionReconf cfg rnti).2) := by
    rw [← hbefore]
    unfold Ue.initialCtxt Ue.sendSecurityModeCommand Ue.nextTransaction Ue.setupErabsCtxt
    simp only [hu1, hu2, parseAll_append, hu3, hacts]
    simp [Ue.parseAll, Ue.parseUlDcch, hu4]
  rw [hout]
  have hdrb4 : Drb1Ok cfg u4 ↔ QciOk cfg (u3.erabs.sub 5).qci := by
    unfold Drb1Ok
    rw [h14.2]
  refine ⟨u3.erabs, before, (u4.sendConnectionReconf cfg rnti).2, ?_, ?_, ?_, ?_, ?_, ?_, ?_⟩
  · intro k
    have hk : u2.erabs[k]? = entryAfter u rnti es k := by
      rw [herabs, h14.1]
      rfl
    rw [herabs3]
    by_cases hcap : UlDcchMsg.ueCapabilityInfo ∈ msgs
    · rw [if_pos hcap, StdMap.getElem?_touch, StdMap.sub_eq]
      by_cases h5 : k = 5
      · rw [if_pos h5.symm, if_pos ⟨hcap, h5⟩, ← hk, h5]
      · rw [if_neg (Ne.symm h5), if_neg fun h => h5 h.2, hk]
    · rw [if_neg hcap, if_neg fun h => hcap h.1, hk]
  · rw [← h14.2]
    exact sendConnectionReconf_erabs
  · unfold Ue.notifyS1apUeCtxtSetupComplete
    rw [h14.2]
  · intro a ha
    rw [← hbefore] at ha
    simp only [List.cons_append, List.mem_cons, List.mem_append, List.mem_map] at ha
    rcases ha with rfl | rfl | ⟨e, he, rfl⟩ | ha
    · exact Or.inl trivial
    · exact Or.inl trivial
    · exact Or.inr ⟨e, he, rfl⟩
    · exact Or.inl (hquiet a ha)
  · intro e he
    rw [← hbefore]
    simp only [List.cons_append, List.mem_cons, List.mem_append, List.mem_map]
    exact Or.inr (Or.inr (Or.inl ⟨e, he, rfl⟩))
  · rw [← hdrb4]
    exact sendConnectionReconf_quiet
  · rw [← hdrb4]
    exact sendConnectionReconf_drb1

section

variable {msgs : List UlDcchMsg} {u' : Ue} {acts before after : List Action} {erabs : StdMap Erab}
  {id : Nat}

theorem Served.mem_cases (h : Served cfg rnti es msgs u u' acts erabs before after) {a : Action}
    (ha : a ∈ acts) : Quiet (QciOk cfg (erabs.sub 5).qci) a ∨
      (∃ e ∈ accepted es, a = tunnelOf rnti e) ∨
      a = .s1apUeCtxtSetupComplete rnti (erabs.toList.map fun it => (it.2.id, it.2.teidIn)) := by
  rw [h.order] at ha
  rcases List.mem_append.mp ha with ha | ha
  · rcases h.before_cases a ha with ha | ha
    · exact Or.inl ha
    · exact Or.inr (Or.inl ha)
  · rcases List.mem_cons.mp ha with ha | ha
    · exact Or.inr (Or.inr ha)
    · exact Or.inl (h.after_quiet a ha)

theorem Served.listed_iff (h : Served cfg rnti es msgs u u' acts erabs before after) :
    Listed acts rnti id ↔ ∃ (k : Nat) (e : Erab), erabs[k]? = some e ∧ e.id = id := by
  constructor
  · rintro ⟨l, hl | hl, hid⟩
    · rcases h.mem_cases hl with hq | ⟨e, -, he⟩ | heq
      · exact hq.elim
      · cases he
      · cases heq
        obtain ⟨⟨k, e⟩, hmem, rfl⟩ : ∃ it ∈ erabs.toList, it.2.id = id := by simpa using hid
        exact ⟨k, e, Std.ExtTreeMap.mem_toList_iff_getElem?_eq_some.mp hmem, rfl⟩
    · rcases h.mem_cases hl with hq | ⟨e, -, he⟩ | heq
      · exact hq.elim
      · cases he
      · cases heq
  · rintro ⟨k, e, he, rfl⟩
    refine ⟨erabs.toList.map fun it => (it.2.id, it.2.teidIn), Or.inl (by simp [h.order]), ?_⟩
    have hmem := Std.ExtTreeMap.mem_toList_iff_getElem?_eq_some.mpr he
    exact List.mem_map.mpr ⟨_, List.mem_map_of_mem hmem, rfl⟩

/-- A bearer is for an E-RAB with a tunnel, or one of `send_connection_reconf`. -/
theorem Served.isFor (h : Served cfg rnti es msgs u u' acts erabs before after)
    (hids : ∀ e ∈ es, 5 ≤ e.id ∧ e.id ≤ 12) {a : Action} (ha : a ∈ acts) (hfor : a.IsFor rnti id) :
    (∃ e ∈ accepted es, e.id = id) ∨ id = 4 ∨ id = 5 := by
  rcases h.mem_cases ha with hq | ⟨e, he, rfl⟩ | rfl
  · right
    cases a with
    | gtpuAddBearer => exact hq.elim
    | macBearerUeCfg r lcid => have := hq.1; have := hfor.2; omega
    | rlcAddBearer r lcid => have := hfor.2; simp only [Quiet] at hq; omega
    | pdcpAddBearer r lcid => have := hfor.2; simp only [Quiet] at hq; omega
    | dlDcch r msg =>
      cases msg with
      | rrcConReconfig t drbs nas =>
        obtain ⟨-, drb, hdrb, hlc⟩ := hfor
        have := hq drb hdrb
        omega
      | _ => exact hfor.elim
    | _ => exact hfor.elim
  · have hid := hfor.2
    rw [erabLcid_eq (hids e (accepted_mem he))] at hid
    have := hids e (accepted_mem he)
    exact Or.inl ⟨e, he, by omega⟩
  · exact hfor.elim

theorem Served.setUp_iff (h : Served cfg rnti es msgs u u' acts erabs before after)
    (hids : ∀ e ∈ es, 5 ≤ e.id ∧ e.id ≤ 12) :
    SetUp acts rnti id ↔
      (∃ e ∈ accepted es, e.id = id) ∧ id = 5 ∧ QciOk cfg (erabs.sub 5).qci := by
  constructor
  · intro hs
    obtain ⟨lcid, address, teidOut, hmem, hid⟩ := hs.gtpu
    obtain ⟨e, he, heid⟩ : ∃ e ∈ accepted es, e.id = id := by
      rcases h.mem_cases hmem with hq | ⟨e, he, heq⟩ | heq
      · exact hq.elim
      · cases heq
        rw [erabLcid_eq (hids e (accepted_mem he))] at hid
        have := hids e (accepted_mem he)
        exact ⟨e, he, by omega⟩
      · cases heq
    obtain ⟨lcid, hmem, hid⟩ := hs.mac
    rcases h.mem_cases hmem with hq | ⟨e, he, heq⟩ | heq
    · have := hids e (accepted_mem he)
      have := hq.1
      exact ⟨⟨e, he, heid⟩, by omega, hq.2⟩
    · cases heq
    · cases heq
  · rintro ⟨⟨e, he, heid⟩, rfl, hqci⟩
    obtain ⟨hmac, hrlc, hpdcp, t, nas, hue⟩ := h.drb1 hqci
    have hafter : ∀ a ∈ after, a ∈ acts := by
      intro a ha
      rw [h.order]
      exact List.mem_append_right _ (List.mem_cons_of_mem _ ha)
    refine ⟨⟨erabLcid e.id, e.address, e.teidOut, ?_, ?_⟩, ⟨3, hafter _ hmac, rfl⟩,
      ⟨3, hafter _ hrlc, rfl⟩, ⟨3, hafter _ hpdcp, rfl⟩,
      ⟨t, [⟨1, 3, 5⟩], nas, hafter _ hue, ⟨1, 3, 5⟩, List.mem_singleton_self _, rfl⟩⟩
    · rw [h.order]
      exact List.mem_append_left _ (h.tunnels e he)
    · rw [heid]
      rfl

/-- What the request must meet: either no E-RAB has an entry when the response is sent, or the
E-RAB 5 alone has one and gets its DRB. -/
def CtxtServed (cfg : Cfg) (u : Ue) (es : List ErabItem) (msgs : List UlDcchMsg) : Prop :=
  (accepted es = [] ∧ (∀ k : Nat, u.erabs[k]? = none) ∧ (∀ e ∈ es, e.id ≠ 5) ∧
    UlDcchMsg.ueCapabilityInfo ∉ msgs) ∨
  (accepted es ≠ [] ∧ (∀ e ∈ accepted es, e.id = 5) ∧
    (∀ (k : Nat) (e : Erab), u.erabs[k]? = some e → k ≠ 5 → e.id = 5) ∧
    ∀ l ∈ lastItem (accepted es) 5, QciOk cfg l.qci)

theorem Served.entry_of_ne (h : Served cfg rnti es msgs u u' acts erabs before after) {k : Nat}
    (hk : k ≠ 5) : erabs[k]? = entryAfter u rnti es k ∧ u'.erabs[k]? = entryAfter u rnti es k := by
  have he := h.entries k
  rw [if_neg fun h => hk h.2] at he
  rw [h.left, StdMap.getElem?_touch, if_neg (Ne.symm hk)]
  exact ⟨he, he⟩

theorem entryAfter_of_mem (u : Ue) (rnti : Nat) {e : ErabItem} (he : e ∈ accepted es) :
    ∃ l, lastItem (accepted es) e.id = some l ∧ entryAfter u rnti es e.id = some (erabOf rnti l) ∧
      l.id = e.id := by
  obtain ⟨l, hl⟩ := exists_lastItem he
  exact ⟨l, hl, by rw [entryAfter, hl]; rfl, (lastItem_mem hl).2⟩

theorem entryAfter_of_not_mem {k : Nat} (h : ∀ e ∈ accepted es, e.id ≠ k) :
    entryAfter u rnti es k = u.erabs[k]? := by
  unfold entryAfter
  cases hl : lastItem (accepted es) k with
  | none => rfl
  | some l => exact absurd (lastItem_mem hl).2 (h l (lastItem_mem hl).1)

/-- Items with ID 5 leave the other entries as they were. -/
theorem Served.entry_kept (h : Served cfg rnti es msgs u u' acts erabs before after)
    (h5 : ∀ e ∈ accepted es, e.id = 5) {k : Nat} (hk : k ≠ 5) :
    erabs[k]? = u.erabs[k]? ∧ u'.erabs[k]? = u.erabs[k]? := by
  have hafter : entryAfter u rnti es k = u.erabs[k]? :=
    entryAfter_of_not_mem fun e he heq => hk (heq ▸ h5 e he)
  rw [← hafter]
  exact h.entry_of_ne hk

/-- No message has an item that is not accepted, of a bearer other than the default one. -/
theorem Served.not_for (h : Served cfg rnti es msgs u u' acts erabs before after)
    (hids : ∀ e ∈ es, 5 ≤ e.id ∧ e.id ≤ 12) {e : ErabItem} (he : e ∈ es) (h5 : e.id ≠ 5)
    (hno : ∀ e' ∈ accepted es, e'.id ≠ e.id) {a : Action} (ha : a ∈ acts) :
    ¬ a.IsFor rnti e.id := by
  intro hfor
  rcases h.isFor hids ha hfor with ⟨e', he', heq⟩ | h4
  · exact hno e' he' heq
  · have := hids e he
    omega

/-- No item gets a tunnel. -/
theorem ctxt_right_of_nil (h : Served cfg rnti es msgs u u' acts erabs before after)
    (hids : ∀ e ∈ es, 5 ≤ e.id ∧ e.id ≤ 12) (hnil : accepted es = []) :
    ErabsRight es acts rnti u u' ↔ (∀ k : Nat, u.erabs[k]? = none) ∧ (∀ e ∈ es, e.id ≠ 5) ∧
      UlDcchMsg.ueCapabilityInfo ∉ msgs := by
  have hno : ∀ id, ¬ SetUp acts rnti id := by
    intro id hs
    obtain ⟨⟨e, he, -⟩, -⟩ := (h.setUp_iff hids).mp hs
    rw [hnil] at he
    cases he
  have hentry : ∀ k, entryAfter u rnti es k = u.erabs[k]? :=
    fun k => entryAfter_of_not_mem (by simp [hnil])
  have hleft : ∀ k : Nat, erabs[k]? = if UlDcchMsg.ueCapabilityInfo ∈ msgs ∧ k = 5 then
      some (u.erabs[k]?.getD default) else u.erabs[k]? := by
    intro k
    rw [h.entries, hentry]
  constructor
  · intro hright
    have hnone : ∀ k : Nat, erabs[k]? = none := by
      intro k
      by_contra hk
      obtain ⟨e, he⟩ := Option.ne_none_iff_exists'.mp hk
      exact hno e.id ((hright.listed e.id).mp (h.listed_iff.mpr ⟨k, e, he, rfl⟩)).2
    have hcap : UlDcchMsg.ueCapabilityInfo ∉ msgs := by
      intro hcap
      have := hleft 5
      rw [hnone, if_pos ⟨hcap, rfl⟩] at this
      cases this
    have hu : ∀ k : Nat, u.erabs[k]? = none := by
      intro k
      rw [← hnone k, hleft, if_neg fun h => hcap h.1]
    refine ⟨hu, fun e he h5 => ?_, hcap⟩
    have := (hright.failed e he (hno _)).erab
    rw [h5, h.left, StdMap.getElem?_touch, if_pos rfl, hu 5] at this
    cases this
  · rintro ⟨hu, h5, hcap⟩
    have hnone : ∀ k : Nat, erabs[k]? = none := by
      intro k
      rw [hleft, if_neg fun h => hcap h.1, hu]
    refine ⟨fun id => iff_of_false ?_ fun hs => hno id hs.2, fun e he _ => ⟨?_, ?_⟩⟩
    · rw [h.listed_iff]
      rintro ⟨k, e, he, -⟩
      rw [hnone] at he
      cases he
    · rw [(h.entry_of_ne (h5 e he)).2, hentry]
    · intro a ha
      exact h.not_for hids he (h5 e he) (by simp [hnil]) ha

/-- Some item gets a tunnel. -/
theorem ctxt_right_of_ne_nil (h : Served cfg rnti es msgs u u' acts erabs before after)
    (hids : ∀ e ∈ es, 5 ≤ e.id ∧ e.id ≤ 12) (hne : accepted es ≠ []) :
    ErabsRight es acts rnti u u' ↔ (∀ e ∈ accepted es, e.id = 5) ∧
      (∀ (k : Nat) (e : Erab), u.erabs[k]? = some e → k ≠ 5 → e.id = 5) ∧
      ∀ l ∈ lastItem (accepted es) 5, QciOk cfg l.qci := by
  obtain ⟨e0, he0⟩ := List.exists_mem_of_ne_nil _ hne
  have hentry : ∀ e ∈ accepted es, ∃ l, lastItem (accepted es) e.id = some l ∧ l.id = e.id ∧
      erabs[e.id]? = some (erabOf rnti l) := by
    intro e he
    obtain ⟨l, hl, hafter, hlid⟩ := entryAfter_of_mem u rnti he
    refine ⟨l, hl, hlid, ?_⟩
    rw [h.entries, hafter]
    split_ifs <;> rfl
  constructor
  · intro hright
    have hlisted : ∀ (k : Nat) (e : Erab), erabs[k]? = some e → SetUp acts rnti e.id :=
      fun k e he => ((hright.listed e.id).mp (h.listed_iff.mpr ⟨k, e, he, rfl⟩)).2
    have h5 : ∀ e ∈ accepted es, e.id = 5 := by
      intro e he
      obtain ⟨l, -, hlid, hl⟩ := hentry e he
      have := ((h.setUp_iff hids).mp (hlisted _ _ hl)).2.1
      rw [← hlid]
      exact this
    refine ⟨h5, fun k e he hk => ?_, fun l hl => ?_⟩
    · have hke : erabs[k]? = some e := (h.entry_kept h5 hk).1.trans he
      exact ((h.setUp_iff hids).mp (hlisted k e hke)).2.1
    · obtain ⟨l', hl', -, hget⟩ := hentry e0 he0
      rw [h5 e0 he0] at hl' hget
      rw [hl'] at hl
      obtain rfl := Option.mem_some_iff.mp hl
      have := ((h.setUp_iff hids).mp (hlisted 5 _ hget)).2.2
      rwa [StdMap.sub_of_get hget] at this
  · rintro ⟨h5, hothers, hqci⟩
    obtain ⟨l, hl, hlid, hget⟩ := hentry e0 he0
    rw [h5 e0 he0] at hl hget hlid
    have hset : SetUp acts rnti 5 := by
      refine (h.setUp_iff hids).mpr ⟨⟨e0, he0, h5 e0 he0⟩, rfl, ?_⟩
      rw [StdMap.sub_of_get hget]
      exact hqci l hl
    refine ⟨fun id => ?_, fun e he hno => ?_⟩
    · rw [h.listed_iff]
      constructor
      · rintro ⟨k, e, he, rfl⟩
        have hid : e.id = 5 := by
          by_cases hk : k = 5
          · rw [hk, hget] at he
            rw [← Option.some.inj he]
            exact hlid
          · rw [(h.entry_kept h5 hk).1] at he
            exact hothers k e he hk
        rw [hid]
        exact ⟨⟨e0, accepted_mem he0, h5 e0 he0⟩, hset⟩
      · rintro ⟨-, hs⟩
        obtain rfl := ((h.setUp_iff hids).mp hs).2.1
        exact ⟨5, _, hget, hlid⟩
    · have hid : e.id ≠ 5 := fun heq => hno (heq ▸ hset)
      refine ⟨(h.entry_kept h5 hid).2, fun a ha => h.not_for hids he hid ?_ ha⟩
      intro e' he' heq
      exact hid (heq ▸ h5 e' he')

theorem ctxt_right_iff (h : Served cfg rnti es msgs u u' acts erabs before after)
    (hids : ∀ e ∈ es, 5 ≤ e.id ∧ e.id ≤ 12) :
    ErabsRight es acts rnti u u' ↔ CtxtServed cfg u es msgs := by
  unfold CtxtServed
  by_cases hnil : accepted es = []
  · simp [ctxt_right_of_nil h hids hnil, hnil]
  · simp [ctxt_right_of_ne_nil h hids hnil, hnil]

end

/-! ## At the entity -/

/-- The condition of a request for a UE with the state `u`. -/
def SetupRequest.Served (cfg : Cfg) (u : Ue) : SetupRequest → Prop
  | .erabSetup es => BearersServed cfg es.items
  | .initialCtxtSetup _ es msgs _ => CtxtServed cfg u es.items msgs

theorem emitted_parseAll (s : State) (hu : s.users[rnti]? = some u) (msgs : List UlDcchMsg) :
    emitted s (msgs.map fun msg => .rx rnti (.srb12 msg)) = (u.parseAll s.cfg rnti msgs).2 ∧
    (exec step s (msgs.map fun msg => .rx rnti (.srb12 msg))).users[rnti]? =
      some (u.parseAll s.cfg rnti msgs).1 := by
  induction msgs generalizing s u with
  | nil => exact ⟨rfl, hu⟩
  | cons msg msgs ih =>
    have hout : handle s (.rx rnti (.srb12 msg)) =
        ⟨s.setUser rnti (u.parseUlDcch s.cfg rnti msg).1, (u.parseUlDcch s.cfg rnti msg).2⟩ := by
      simp [handle, handleItem, onUser, hu]
    have hget : (s.setUser rnti (u.parseUlDcch s.cfg rnti msg).1).users[rnti]? =
        some (u.parseUlDcch s.cfg rnti msg).1 := by
      simp [State.setUser]
    obtain ⟨hacts, huser⟩ := ih _ hget
    simp only [List.map_cons, emitted, exec_cons, step, hout, Ue.parseAll]
    exact ⟨by rw [hacts]; rfl, huser⟩

/-- **When the E-RABs reported are the ones set up**, for every request and every UE. -/
theorem erabs_right_iff (s : State) (rnti : Nat) (req : SetupRequest) :
    (∀ u ∈ s.users[rnti]?, ErabsRight req.items (emitted s (req.events rnti)) rnti u
      ((exec step s (req.events rnti)).users.sub rnti)) ↔
    ∀ u ∈ s.users[rnti]?, req.Served s.cfg u := by
  apply forall₂_congr
  intro u hu
  cases req with
  | erabSetup es =>
    have hout : handle s (.setupUeErabs rnti es.items) =
        ⟨s.setUser rnti (u.setupErabsBearer s.cfg rnti es.items).1,
          (u.setupErabsBearer s.cfg rnti es.items).2⟩ := by
      simp [handle, setupUeErabs, onUser, Option.mem_def.mp hu]
    have hget : (exec step s (SetupRequest.events rnti (.erabSetup es))).users.sub rnti =
        (u.setupErabsBearer s.cfg rnti es.items).1 := by
      simp [SetupRequest.events, step, hout, State.setUser, StdMap.sub_eq]
    rw [hget]
    simp only [SetupRequest.events, emitted, hout, List.append_nil]
    exact erabSetup_right_iff es.ids
  | initialCtxtSetup key es msgs hmsgs =>
    obtain ⟨u1, hu1⟩ : ∃ u1, ((u.sendSecurityModeCommand rnti).1.setupErabsCtxt rnti es.items).1 =
      u1 := ⟨_, rfl⟩
    have hout : handle s (.setupUeCtxt rnti key es.items) = ⟨s.setUser rnti u1,
        .pdcpConfigSecurity rnti 1 key :: (u.sendSecurityModeCommand rnti).2 ++
          ((u.sendSecurityModeCommand rnti).1.setupErabsCtxt rnti es.items).2⟩ := by
      simp only [handle, setupUeCtxt, onUser, Option.mem_def.mp hu, hu1]
    have hget : (s.setUser rnti u1).users[rnti]? = some u1 := by simp [State.setUser]
    obtain ⟨hacts, huser⟩ := emitted_parseAll (s.setUser rnti u1) hget
      (msgs ++ [UlDcchMsg.securityModeComplete])
    obtain ⟨erabs, before, after, hserved⟩ := initialCtxt_served u s.cfg rnti
      key es.items hmsgs
    rw [show SetupRequest.Served s.cfg u (.initialCtxtSetup key es msgs hmsgs) =
      CtxtServed s.cfg u es.items msgs from rfl, ← ctxt_right_iff hserved es.ids]
    simp only [SetupRequest.events, SetupRequest.items, emitted, exec_cons, step, hout]
    rw [hacts, StdMap.sub_of_get huser, ← hu1]
    simp only [Ue.initialCtxt, State.setUser]

/-- Two E-RABs, the second with a QCI that is not configured. -/
def twoErabs : SetupRequest :=
  .erabSetup ⟨[⟨5, 9, 32, 0x7F000001, 1, some [1]⟩, ⟨6, 3, 32, 0x7F000001, 2, some [2]⟩], by decide⟩

/-- A UE that has just been added. -/
def newUser : State := exec step (init exampleCfg) [.addUser 70]

/-- Both E-RABs are reported, and the second has no DRB. -/
theorem erabs_wrong_twoErabs :
    ¬ ∀ u ∈ newUser.users[70]?, ErabsRight twoErabs.items (emitted newUser (twoErabs.events 70)) 70
      u ((exec step newUser (twoErabs.events 70)).users.sub 70) := by
  intro h
  obtain ⟨-, hsetUp⟩ := ((h Ue.new (by rfl)).listed 6).mp
    ⟨[(5, 4587523), (6, 4587524)], Or.inr (by decide +kernel), by decide⟩
  obtain ⟨lcid, hmem, hid⟩ := hsetUp.mac
  obtain rfl : lcid = 4 := by omega
  exact absurd hmem (by decide +kernel)

end Srsenb.Rrc
