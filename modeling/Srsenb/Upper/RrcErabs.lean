import Mathlib.Data.List.TakeWhile
import Srsenb.Upper.Rrc

/-! # The E-RABs that are reported as set up

An E-RABSetupRequest is answered before the DRBs are built, and an InitialContextSetupRequest once
the UE has completed its security mode. -/

namespace Srsenb.Rrc

/-- The items of a setup request. -/
structure ErabList where
  items : List ErabItem
  ids : ∀ e ∈ items, 5 ≤ e.id ∧ e.id ≤ 12

/-- A request of the MME, with the messages that the UE sends before the one that is answered. -/
inductive SetupRequest where
  | erabSetup (es : ErabList)
  | initialCtxtSetup (key : Pdu) (es : ErabList) (msgs : List UlDcchMsg)
      (unanswered : UlDcchMsg.securityModeComplete ∉ msgs)

namespace SetupRequest

def items : SetupRequest → List ErabItem
  | .erabSetup es => es.items
  | .initialCtxtSetup _ es _ _ => es.items

/-- The events from the request to the response. -/
def events (rnti : Nat) : SetupRequest → List Event
  | .erabSetup es => [.setupUeErabs rnti es.items]
  | .initialCtxtSetup key es msgs _ =>
    .setupUeCtxt rnti key es.items :: (msgs ++ [UlDcchMsg.securityModeComplete]).map fun msg =>
      .rx rnti (.srb12 msg)

end SetupRequest

/-- What the events ask of the other layers. -/
def emitted : State → List Event → List Action
  | _, [] => []
  | s, e :: es => (handle s e).acts ++ emitted (step s e) es

/-- The response lists the id. -/
def Listed (acts : List Action) (rnti id : Nat) : Prop :=
  ∃ erabs, (.s1apUeCtxtSetupComplete rnti erabs ∈ acts ∨
    .s1apUeErabSetupComplete rnti erabs ∈ acts) ∧ id ∈ erabs.map Prod.fst

/-- The action is for the bearer of the id: its tunnel, or its DRB in a layer or at the UE. -/
def Action.IsFor (rnti id : Nat) : Action → Prop
  | .gtpuAddBearer r lcid _ _ => r = rnti ∧ lcid + 2 = id
  | .macBearerUeCfg r lcid => r = rnti ∧ lcid + 2 = id
  | .rlcAddBearer r lcid => r = rnti ∧ lcid + 2 = id
  | .pdcpAddBearer r lcid => r = rnti ∧ lcid + 2 = id
  | .dlDcch r (.rrcConReconfig _ drbs _) => r = rnti ∧ ∃ drb ∈ drbs, drb.lcId + 2 = id
  | _ => False

/-- The E-RAB has its tunnel, and its DRB in each layer and at the UE. -/
structure SetUp (acts : List Action) (rnti id : Nat) : Prop where
  gtpu : ∃ lcid address teidOut,
    .gtpuAddBearer rnti lcid address teidOut ∈ acts ∧ lcid + 2 = id
  mac : ∃ lcid, .macBearerUeCfg rnti lcid ∈ acts ∧ lcid + 2 = id
  rlc : ∃ lcid, .rlcAddBearer rnti lcid ∈ acts ∧ lcid + 2 = id
  pdcp : ∃ lcid, .pdcpAddBearer rnti lcid ∈ acts ∧ lcid + 2 = id
  ue : ∃ t drbs nas, .dlDcch rnti (.rrcConReconfig t drbs nas) ∈ acts ∧
    ∃ drb ∈ drbs, drb.lcId + 2 = id

/-- Nothing of the E-RAB was added. -/
structure NoPart (acts : List Action) (rnti id : Nat) (u u' : Ue) : Prop where
  erab : u'.erabs[id]? = u.erabs[id]?
  acts : ∀ a ∈ acts, ¬ a.IsFor rnti id

/-- The E-RABs listed are the ones of the request that were set up, and nothing is left of the
others. -/
structure ErabsRight (es : List ErabItem) (acts : List Action) (rnti : Nat) (u u' : Ue) : Prop where
  listed : ∀ id, Listed acts rnti id ↔ (∃ e ∈ es, e.id = id) ∧ SetUp acts rnti id
  failed : ∀ e ∈ es, ¬ SetUp acts rnti e.id → NoPart acts rnti e.id u u'

/-! ## The E-RABs of the request -/

/-- The items before the first address of more than 32 bits. -/
def accepted (es : List ErabItem) : List ErabItem := es.takeWhile fun e => e.addressBits ≤ 32

/-- The last item with the id. -/
def lastItem (es : List ErabItem) (id : Nat) : Option ErabItem :=
  es.reverse.find? fun e => e.id = id

def QciOk (cfg : Cfg) (qci : Nat) : Prop := qci < maxNofQci ∧ cfg.qciConfigured qci = true

/-- The entry that `setup_erab` writes. -/
def erabOf (rnti : Nat) (e : ErabItem) : Erab :=
  ⟨e.id, e.qci, e.address, e.teidOut, rntilcidToTeidin rnti (erabLcid e.id)⟩

/-- The tunnel that `setup_erab` asks for. -/
def tunnelOf (rnti : Nat) (e : ErabItem) : Action :=
  .gtpuAddBearer rnti (erabLcid e.id) e.address e.teidOut

theorem lastItem_cons (e : ErabItem) (es : List ErabItem) (id : Nat) :
    lastItem (e :: es) id = (lastItem es id).or (if e.id = id then some e else none) := by
  unfold lastItem
  rw [List.reverse_cons, List.find?_append]
  by_cases h : e.id = id <;> simp [h]

theorem lastItem_mem {es : List ErabItem} {id : Nat} {e : ErabItem} (h : lastItem es id = some e) :
    e ∈ es ∧ e.id = id := by
  unfold lastItem at h
  exact ⟨List.mem_reverse.mp (List.mem_of_find?_eq_some h), by simpa using List.find?_some h⟩

theorem exists_lastItem {es : List ErabItem} {e : ErabItem} (h : e ∈ es) :
    ∃ l, lastItem es e.id = some l := by
  unfold lastItem
  rw [← Option.isSome_iff_exists, List.find?_isSome]
  exact ⟨e, List.mem_reverse.mpr h, by simp⟩

theorem setupErabItems_spec (u : Ue) (rnti : Nat) (es : List ErabItem) :
    (u.setupErabItems rnti es).2.1 = (accepted es).map (tunnelOf rnti) ∧
    ((u.setupErabItems rnti es).2.2 = true ↔ ∀ e ∈ es, e.addressBits ≤ 32) ∧
    ∀ k : Nat, (u.setupErabItems rnti es).1.erabs[k]? =
      ((lastItem (accepted es) k).map (erabOf rnti)).or u.erabs[k]? := by
  induction es generalizing u with
  | nil => simp [Ue.setupErabItems, accepted, lastItem]
  | cons e es ih =>
    unfold Ue.setupErabItems
    by_cases h : e.addressBits > 32
    · have hacc : accepted (e :: es) = [] := by
        unfold accepted
        rw [List.takeWhile_cons_of_neg (by simpa using h)]
      rw [if_pos h, hacc]
      refine ⟨rfl, ?_, fun k => by simp [lastItem]⟩
      simp only [Bool.false_eq_true, false_iff, List.forall_mem_cons, not_and]
      omega
    · have hacc : accepted (e :: es) = e :: accepted es := by
        unfold accepted
        rw [List.takeWhile_cons_of_pos (by simpa using h)]
      rw [if_neg h, hacc]
      obtain ⟨hacts, hok, herabs⟩ := ih (u.setupErab rnti e).1
      refine ⟨?_, ?_, fun k => ?_⟩
      · simp only [hacts, List.map_cons]
        rfl
      · simp only [hok, List.forall_mem_cons]
        exact ⟨fun h' => ⟨by omega, h'⟩, fun h' => h'.2⟩
      · simp only [herabs, lastItem_cons]
        have hu : (u.setupErab rnti e).1.erabs = u.erabs.insert e.id (erabOf rnti e) := by
          unfold Ue.setupErab
          cases e.nasPdu <;> rfl
        rw [hu, StdMap.getElem?_insert]
        cases lastItem (accepted es) k with
        | some l => rfl
        | none => by_cases hk : e.id = k <;> simp [hk]

/-! ## The DRBs -/

instance (cfg : Cfg) (qci : Nat) : Decidable (QciOk cfg qci) :=
  inferInstanceAs (Decidable (_ ∧ _))

theorem erabLcid_eq {id : Nat} (h : 5 ≤ id ∧ id ≤ 12) : erabLcid id = id - 2 := by
  unfold erabLcid
  omega

theorem getDrbidConfig_spec (u : Ue) (cfg : Cfg) {id : Nat} (h : 5 ≤ id ∧ id ≤ 12) :
    u.getDrbidConfig cfg (((id - 2 : Nat) : Int) - 2) =
      ({ u with erabs := u.erabs.touch id },
        if QciOk cfg (u.erabs.sub id).qci then some ⟨(id : Int) - 4, id - 2, id⟩ else none) := by
  have hdrb : ((id - 2 : Nat) : Int) - 2 = (id : Int) - 4 := by omega
  have hlc : ((id : Int) - 4 + 2).toNat = id - 2 := by omega
  have hid : id - 2 + 2 = id := by omega
  have hmod : id % 256 = id := by omega
  unfold Ue.getDrbidConfig
  simp only [hdrb, hlc, hid, hmod, StdMap.sub_touch]
  by_cases hqci : (u.erabs.sub id).qci < maxNofQci
  · rw [if_neg (Nat.not_le.mpr hqci)]
    by_cases hcfg : cfg.qciConfigured (u.erabs.sub id).qci = true
    · rw [if_neg (by simp [hcfg]), if_pos ⟨hqci, hcfg⟩]
    · rw [if_pos (by simpa using hcfg), if_neg fun h => hcfg h.2]
  · rw [if_pos (Nat.le_of_not_lt hqci), if_neg fun h => hqci h.1]

/-- The DRB of an item, in the layers and at the UE. -/
def bearersOf (rnti : Nat) (e : ErabItem) : List Action :=
  [.macBearerUeCfg rnti (e.id - 2), .rlcAddBearer rnti (e.id - 2), .pdcpAddBearer rnti (e.id - 2)]

def drbOf (e : ErabItem) : Drb := ⟨(e.id : Int) - 4, e.id - 2, e.id⟩

theorem addNewBearers_ok {u : Ue} {cfg : Cfg} (rnti : Nat) {es : List ErabItem}
    (hids : ∀ e ∈ es, 5 ≤ e.id ∧ e.id ≤ 12) (hthere : ∀ e ∈ es, u.erabs[e.id]?.isSome = true)
    (hqci : ∀ e ∈ es, QciOk cfg (u.erabs.sub e.id).qci) :
    u.addNewBearers cfg rnti es = (u, es.flatMap (bearersOf rnti), some (es.map drbOf)) := by
  induction es with
  | nil => rfl
  | cons e es ih =>
    obtain ⟨v, hv⟩ := Option.isSome_iff_exists.mp (hthere e List.mem_cons_self)
    have hrest := ih (fun e h => hids e (List.mem_cons_of_mem _ h))
      (fun e h => hthere e (List.mem_cons_of_mem _ h))
      fun e h => hqci e (List.mem_cons_of_mem _ h)
    unfold Ue.addNewBearers
    simp only [erabLcid_eq (hids e List.mem_cons_self),
      getDrbidConfig_spec u cfg (hids e List.mem_cons_self), StdMap.touch_of_get hv,
      if_pos (hqci e List.mem_cons_self), hrest]
    rfl

theorem addNewBearers_refused {u : Ue} {cfg : Cfg} (rnti : Nat) {es : List ErabItem}
    (hids : ∀ e ∈ es, 5 ≤ e.id ∧ e.id ≤ 12) (hthere : ∀ e ∈ es, u.erabs[e.id]?.isSome = true)
    (hqci : ¬ ∀ e ∈ es, QciOk cfg (u.erabs.sub e.id).qci) :
    (u.addNewBearers cfg rnti es).2.2 = none ∧
      ∀ a ∈ (u.addNewBearers cfg rnti es).2.1, ∀ r msg, a ≠ .dlDcch r msg := by
  induction es with
  | nil => simp at hqci
  | cons e es ih =>
    obtain ⟨v, hv⟩ := Option.isSome_iff_exists.mp (hthere e List.mem_cons_self)
    unfold Ue.addNewBearers
    simp only [erabLcid_eq (hids e List.mem_cons_self),
      getDrbidConfig_spec u cfg (hids e List.mem_cons_self), StdMap.touch_of_get hv]
    by_cases he : QciOk cfg (u.erabs.sub e.id).qci
    · obtain ⟨hnone, hacts⟩ := ih (fun e h => hids e (List.mem_cons_of_mem _ h))
        (fun e h => hthere e (List.mem_cons_of_mem _ h))
        fun h => hqci (List.forall_mem_cons.mpr ⟨he, h⟩)
      simp only [if_pos he, hnone]
      refine ⟨rfl, ?_⟩
      simpa using hacts
    · simp [if_neg he]

/-! ## An E-RABSetupRequest -/

variable {u : Ue} {cfg : Cfg} {rnti : Nat} {es : List ErabItem}

theorem accepted_eq (h : ∀ e ∈ es, e.addressBits ≤ 32) : accepted es = es := by
  unfold accepted
  rw [List.takeWhile_eq_self_iff]
  simpa using h

theorem sub_lastItem {e l : ErabItem} (haddr : ∀ e ∈ es, e.addressBits ≤ 32)
    (hl : lastItem es e.id = some l) :
    (u.setupErabItems rnti es).1.erabs[e.id]? = some (erabOf rnti l) := by
  rw [(setupErabItems_spec u rnti es).2.2, accepted_eq haddr, hl]
  rfl

/-- No QCI of the request is refused: the entry of an id is the one of its last item. -/
theorem qcis_ok_iff (u : Ue) (rnti : Nat) (haddr : ∀ e ∈ es, e.addressBits ≤ 32) :
    (∀ e ∈ es, ∀ l ∈ lastItem es e.id, QciOk cfg l.qci) ↔
      ∀ e ∈ es, QciOk cfg ((u.setupErabItems rnti es).1.erabs.sub e.id).qci := by
  apply forall₂_congr
  intro e he
  obtain ⟨l, hl⟩ := exists_lastItem he
  rw [StdMap.sub_of_get (sub_lastItem haddr hl), hl]
  simp [erabOf]

theorem setupErabsBearer_address (u : Ue) (cfg : Cfg) (rnti : Nat)
    (haddr : ¬ ∀ e ∈ es, e.addressBits ≤ 32) :
    (u.setupErabsBearer cfg rnti es).2 = (accepted es).map (tunnelOf rnti) ∧
      (u.setupErabsBearer cfg rnti es).1 = (u.setupErabItems rnti es).1 := by
  obtain ⟨hacts, hok, -⟩ := setupErabItems_spec u rnti es
  rw [← hacts]
  unfold Ue.setupErabsBearer
  rcases h : u.setupErabItems rnti es with ⟨u', acts, ok⟩
  rw [h] at hok
  cases ok with
  | true => exact absurd (hok.mp rfl) haddr
  | false => exact ⟨rfl, rfl⟩

/-- Every item has a short address: the response comes after the tunnels, before the DRBs. -/
theorem setupErabsBearer_acts (u : Ue) (cfg : Cfg) (rnti : Nat)
    (haddr : ∀ e ∈ es, e.addressBits ≤ 32) :
    ∃ teid : ErabItem → Nat, (u.setupErabsBearer cfg rnti es).2 = es.map (tunnelOf rnti) ++
      .s1apUeErabSetupComplete rnti (es.map fun e => (e.id, teid e)) ::
        ((u.setupErabItems rnti es).1.sendConnectionReconfNewBearer cfg rnti es).2 := by
  obtain ⟨hacts, hok, -⟩ := setupErabItems_spec u rnti es
  unfold Ue.setupErabsBearer Ue.notifyS1apUeErabSetupResponse
  rcases h : u.setupErabItems rnti es with ⟨u', acts, ok⟩
  rw [h] at hok hacts
  obtain rfl : ok = true := hok.mpr haddr
  rw [accepted_eq haddr] at hacts
  exact ⟨fun e => (u'.erabs.sub e.id).teidIn, by rw [← hacts]⟩

theorem reconfNewBearer_ok (rnti : Nat) (hids : ∀ e ∈ es, 5 ≤ e.id ∧ e.id ≤ 12)
    (hthere : ∀ e ∈ es, u.erabs[e.id]?.isSome = true)
    (hqci : ∀ e ∈ es, QciOk cfg (u.erabs.sub e.id).qci) :
    ∃ t nas, (u.sendConnectionReconfNewBearer cfg rnti es).2 = es.flatMap (bearersOf rnti) ++
      [.dlDcch rnti (.rrcConReconfig t (es.map drbOf) nas)] := by
  unfold Ue.sendConnectionReconfNewBearer Ue.nextTransaction
  have h := addNewBearers_ok (u := { u with transactionId := (u.transactionId + 1) % 256 }) rnti
    hids hthere hqci
  simp only [h]
  exact ⟨_, _, rfl⟩

theorem reconfNewBearer_refused (hids : ∀ e ∈ es, 5 ≤ e.id ∧ e.id ≤ 12)
    (hthere : ∀ e ∈ es, u.erabs[e.id]?.isSome = true)
    (hqci : ¬ ∀ e ∈ es, QciOk cfg (u.erabs.sub e.id).qci) :
    ∀ a ∈ (u.sendConnectionReconfNewBearer cfg rnti es).2, ∀ r msg, a ≠ .dlDcch r msg := by
  unfold Ue.sendConnectionReconfNewBearer Ue.nextTransaction
  obtain ⟨hnone, hacts⟩ := addNewBearers_refused
    (u := { u with transactionId := (u.transactionId + 1) % 256 }) rnti hids hthere hqci
  rcases h : Ue.addNewBearers { u with transactionId := (u.transactionId + 1) % 256 } cfg rnti es
    with ⟨u', acts, drbs⟩
  rw [h] at hnone hacts
  obtain rfl : drbs = none := hnone
  simp only [h]
  exact hacts

/-- What the request must meet: no tunnel is added, or every item gets its DRB. -/
def BearersServed (cfg : Cfg) (es : List ErabItem) : Prop :=
  accepted es = [] ∨ (∀ e ∈ es, e.addressBits ≤ 32) ∧
    ∀ e ∈ es, ∀ l ∈ lastItem es e.id, QciOk cfg l.qci

theorem tunnelOf_isFor {e : ErabItem} (h : 5 ≤ e.id ∧ e.id ≤ 12) :
    (tunnelOf rnti e).IsFor rnti e.id := by
  simp only [tunnelOf, Action.IsFor, erabLcid_eq h, true_and]
  omega

theorem accepted_mem {e : ErabItem} (h : e ∈ accepted es) : e ∈ es :=
  (List.takeWhile_sublist _).subset h

/-- A response that lists an E-RAB without its DRB is wrong. -/
theorem not_right_of_listed {acts : List Action} {u' : Ue} {id : Nat} (h : Listed acts rnti id)
    (hno : ¬ SetUp acts rnti id) : ¬ ErabsRight es acts rnti u u' :=
  fun hright => hno ((hright.listed id).mp h).2

/-- An address was too long: the items before it have their tunnels, and no response is sent. -/
theorem erabSetup_right_address (hids : ∀ e ∈ es, 5 ≤ e.id ∧ e.id ≤ 12)
    (haddr : ¬ ∀ e ∈ es, e.addressBits ≤ 32) :
    ErabsRight es (u.setupErabsBearer cfg rnti es).2 rnti u (u.setupErabsBearer cfg rnti es).1 ↔
      accepted es = [] := by
  obtain ⟨hacts, hue⟩ := setupErabsBearer_address u cfg rnti haddr
  have herabs := (setupErabItems_spec u rnti es).2.2
  rw [hacts, hue]
  have hno : ∀ id, ¬ SetUp ((accepted es).map (tunnelOf rnti)) rnti id := by
    intro id h
    obtain ⟨lcid, hmem, -⟩ := h.mac
    simp [tunnelOf] at hmem
  constructor
  · intro hright
    by_contra hne
    obtain ⟨e, he⟩ := List.exists_mem_of_ne_nil _ hne
    have hpart := hright.failed e (accepted_mem he) (hno _)
    exact hpart.acts _ (List.mem_map_of_mem he) (tunnelOf_isFor (hids e (accepted_mem he)))
  · intro hnil
    rw [hnil] at hno ⊢
    refine ⟨fun id => iff_of_false ?_ fun h => hno id h.2, fun e _ _ => ⟨?_, by simp⟩⟩
    · rintro ⟨erabs, h, -⟩
      simp at h
    · rw [herabs, hnil]
      rfl

theorem erabSetup_right_ok {teid : ErabItem → Nat} {u' : Ue} {t : Nat} {nas : List Pdu}
    (hids : ∀ e ∈ es, 5 ≤ e.id ∧ e.id ≤ 12) :
    ErabsRight es (es.map (tunnelOf rnti) ++
      .s1apUeErabSetupComplete rnti (es.map fun e => (e.id, teid e)) ::
        (es.flatMap (bearersOf rnti) ++ [.dlDcch rnti (.rrcConReconfig t (es.map drbOf) nas)]))
      rnti u u' := by
  have hall : ∀ e ∈ es, SetUp (es.map (tunnelOf rnti) ++
      .s1apUeErabSetupComplete rnti (es.map fun e => (e.id, teid e)) ::
        (es.flatMap (bearersOf rnti) ++ [.dlDcch rnti (.rrcConReconfig t (es.map drbOf) nas)]))
      rnti e.id := by
    intro e he
    have hid : e.id - 2 + 2 = e.id := by have := hids e he; omega
    constructor
    · refine ⟨erabLcid e.id, e.address, e.teidOut, ?_, by rw [erabLcid_eq (hids e he), hid]⟩
      exact List.mem_append_left _ (List.mem_map_of_mem he)
    · refine ⟨e.id - 2, List.mem_append_right _ (List.mem_cons_of_mem _ ?_), hid⟩
      exact List.mem_append_left _ (List.mem_flatMap.mpr ⟨e, he, by simp [bearersOf]⟩)
    · refine ⟨e.id - 2, List.mem_append_right _ (List.mem_cons_of_mem _ ?_), hid⟩
      exact List.mem_append_left _ (List.mem_flatMap.mpr ⟨e, he, by simp [bearersOf]⟩)
    · refine ⟨e.id - 2, List.mem_append_right _ (List.mem_cons_of_mem _ ?_), hid⟩
      exact List.mem_append_left _ (List.mem_flatMap.mpr ⟨e, he, by simp [bearersOf]⟩)
    · exact ⟨t, es.map drbOf, nas, by simp, drbOf e, List.mem_map_of_mem he, hid⟩
  refine ⟨fun id => ?_, fun e he hno => absurd (hall e he) hno⟩
  constructor
  · rintro ⟨erabs, hmem, hid⟩
    have herabs : erabs = es.map fun e => (e.id, teid e) := by
      simpa [tunnelOf, bearersOf] using hmem
    rw [herabs] at hid
    obtain ⟨e, he, rfl⟩ : ∃ e ∈ es, e.id = id := by simpa using hid
    exact ⟨⟨e, he, rfl⟩, hall e he⟩
  · rintro ⟨⟨e, he, rfl⟩, -⟩
    exact ⟨es.map fun e => (e.id, teid e), Or.inr (by simp), List.mem_map.mpr
      ⟨(e.id, teid e), List.mem_map_of_mem he, rfl⟩⟩

/-- A QCI was refused: the response has been sent, and the UE is told nothing. -/
theorem erabSetup_not_right {teid : ErabItem → Nat} {acts : List Action} {u' : Ue}
    (hne : es ≠ []) (hacts : ∀ a ∈ acts, ∀ r msg, a ≠ .dlDcch r msg) :
    ¬ ErabsRight es (es.map (tunnelOf rnti) ++
      .s1apUeErabSetupComplete rnti (es.map fun e => (e.id, teid e)) :: acts) rnti u u' := by
  obtain ⟨e, he⟩ := List.exists_mem_of_ne_nil _ hne
  refine not_right_of_listed (?_ : Listed _ rnti e.id) ?_
  · exact ⟨es.map fun e => (e.id, teid e), Or.inr (by simp), List.mem_map.mpr
      ⟨(e.id, teid e), List.mem_map_of_mem he, rfl⟩⟩
  · intro h
    obtain ⟨t, drbs, nas, hmem, -⟩ := h.ue
    rcases List.mem_append.mp hmem with h | h
    · simp [tunnelOf] at h
    · rcases List.mem_cons.mp h with h | h
      · cases h
      · exact hacts _ h _ _ rfl

theorem erabSetup_right_iff (hids : ∀ e ∈ es, 5 ≤ e.id ∧ e.id ≤ 12) :
    ErabsRight es (u.setupErabsBearer cfg rnti es).2 rnti u (u.setupErabsBearer cfg rnti es).1 ↔
      BearersServed cfg es := by
  unfold BearersServed
  by_cases haddr : ∀ e ∈ es, e.addressBits ≤ 32
  · rw [accepted_eq haddr, qcis_ok_iff u rnti haddr]
    obtain ⟨teid, hacts⟩ := setupErabsBearer_acts u cfg rnti haddr
    have hthere : ∀ e ∈ es, (u.setupErabItems rnti es).1.erabs[e.id]?.isSome = true := by
      intro e he
      obtain ⟨l, hl⟩ := exists_lastItem he
      rw [sub_lastItem haddr hl]
      rfl
    by_cases hqci : ∀ e ∈ es, QciOk cfg ((u.setupErabItems rnti es).1.erabs.sub e.id).qci
    · obtain ⟨t, nas, hreconf⟩ := reconfNewBearer_ok rnti hids hthere hqci
      rw [hacts, hreconf]
      exact iff_of_true (erabSetup_right_ok hids) (Or.inr ⟨haddr, hqci⟩)
    · have hne : es ≠ [] := by
        rintro rfl
        simp at hqci
      rw [hacts]
      refine iff_of_false (erabSetup_not_right hne (reconfNewBearer_refused hids hthere hqci)) ?_
      rintro (hnil | ⟨-, h⟩)
      · exact hne hnil
      · exact hqci h
  · rw [erabSetup_right_address hids haddr]
    exact ⟨Or.inl, fun h => h.resolve_right fun h => haddr h.1⟩

end Srsenb.Rrc
