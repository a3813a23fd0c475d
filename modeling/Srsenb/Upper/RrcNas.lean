import Srsenb.Upper.RrcErabsCtxt

/-! # The NAS PDUs of the E-RABs

A UE has one buffer for a NAS PDU, and one flag. The message for new bearers lies on the stack, and
the counter of its NAS list is not set. -/

namespace Srsenb.Rrc

/-- The NAS list of `LIBLTE_RRC_CONNECTION_RECONFIGURATION_STRUCT`. -/
structure NasList where
  nDedInfoNas : UInt32
  dedInfoNasList : Nat → Pdu

def NasList.push (l : NasList) (nas : Pdu) : NasList :=
  ⟨l.nDedInfoNas + 1, Function.update l.dedInfoNasList l.nDedInfoNas.toNat nas⟩

/-- The loop of `send_connection_reconf_new_bearer`, with the NAS list of its message. -/
def Ue.addNewBearersNas (u : Ue) (cfg : Cfg) (msg : NasList) :
    List ErabItem → Ue × Option NasList
  | [] => (u, some msg)
  | e :: es =>
    match u.getDrbidConfig cfg ((erabLcid e.id : Int) - 2) with
    | (u, none) => (u, none)
    | (u, some _) => Ue.addNewBearersNas u cfg (msg.push u.erabInfo) es

/-- `setup_erabs` of an E-RABSetupRequest: the NAS list of the message that is sent, if one is.
`stack` is what the message holds when it is declared. -/
def Ue.setupErabsBearerNas (u : Ue) (cfg : Cfg) (rnti : Nat) (stack : NasList)
    (es : List ErabItem) : Option NasList :=
  match u.setupErabItems rnti es with
  | (_, _, false) => none
  | (u, _, true) => (u.nextTransaction.2.addNewBearersNas cfg stack es).2

/-- An E-RABSetupRequest: each item has a NAS PDU. -/
structure BearerList where
  items : List ErabItem
  len : items.length < 2 ^ 32
  ids : ∀ e ∈ items, e.id < 256
  nas : ∀ e ∈ items, e.nasPdu.isSome = true

/-- The list of the message is the NAS PDUs of the request, in their order. -/
structure NasRight (es : List ErabItem) (l : NasList) : Prop where
  count : l.nDedInfoNas.toNat = es.length
  entries : ∀ (i : Nat) (e : ErabItem), es[i]? = some e → e.nasPdu = some (l.dedInfoNasList i)

/-- The lists of NAS PDUs of the reconfigurations that are sent on a SecurityModeComplete, after
an InitialContextSetupRequest and the messages `msgs` of the UE. -/
def Ue.securedNas (u : Ue) (cfg : Cfg) (rnti : Nat) (es : List ErabItem) (msgs : List UlDcchMsg) :
    List (List Pdu) :=
  let (u, _) := u.sendSecurityModeCommand rnti
  let (u, _) := u.setupErabsCtxt rnti es
  let (u, _) := u.parseAll cfg rnti msgs
  (u.parseUlDcch cfg rnti .securityModeComplete).2.filterMap fun a =>
    match a with
    | .dlDcch _ (.rrcConReconfig _ _ nas) => some nas
    | _ => none

/-- The NAS PDU that waits for a reconfiguration. -/
def Ue.pendingNas (u : Ue) : Option Pdu := if u.nasPending then some u.erabInfo else none

/-- The one that waits after the tunnels of a request: of the last item. -/
def pendingAfter (u : Ue) (es : List ErabItem) : Option Pdu :=
  ((accepted es).getLast?.map (·.nasPdu)).getD u.pendingNas

variable {u : Ue} {cfg : Cfg} {rnti : Nat} {es : List ErabItem}

/-! ## The buffer -/

theorem setupErab_pendingNas (u : Ue) (rnti : Nat) (e : ErabItem) :
    (u.setupErab rnti e).1.pendingNas = e.nasPdu := by
  unfold Ue.setupErab Ue.pendingNas
  cases e.nasPdu <;> rfl

/-- Each item overwrites the NAS PDU of the one before. -/
theorem setupErabItems_pendingNas (u : Ue) (rnti : Nat) (es : List ErabItem) :
    (u.setupErabItems rnti es).1.pendingNas = pendingAfter u es := by
  induction es generalizing u with
  | nil => rfl
  | cons e es ih =>
    unfold Ue.setupErabItems pendingAfter accepted
    by_cases h : e.addressBits > 32
    · rw [if_pos h, List.takeWhile_cons_of_neg (by simpa using h)]
      rfl
    · rw [if_neg h, List.takeWhile_cons_of_pos (by simpa using h), List.getLast?_cons]
      simp only [ih, pendingAfter, setupErab_pendingNas]
      change (((accepted es).getLast?.map _).getD _) =
        ((some ((accepted es).getLast?.getD e)).map _).getD _
      cases (accepted es).getLast? <;> rfl

/-! ## An E-RABSetupRequest -/

theorem getDrbidConfig_erab (u : Ue) (cfg : Cfg) (id : Nat) :
    (u.getDrbidConfig cfg ((erabLcid id : Int) - 2)).1 =
        { u with erabs := u.erabs.touch (id % 256) } ∧
      ((u.getDrbidConfig cfg ((erabLcid id : Int) - 2)).2.isSome = true ↔
        QciOk cfg (u.erabs.sub (id % 256)).qci) := by
  have hlc : ((erabLcid id : Int) - 2 + 2).toNat = erabLcid id := by omega
  have hk : (erabLcid id + 2) % 256 = id % 256 := by
    unfold erabLcid
    omega
  unfold Ue.getDrbidConfig QciOk
  simp only [hlc, hk, StdMap.sub_touch]
  split_ifs with hqci hcfg
  · exact ⟨rfl, by simp; omega⟩
  · exact ⟨rfl, by simpa using fun _ => hcfg⟩
  · exact ⟨rfl, by simpa using ⟨by omega, by simpa using hcfg⟩⟩

/-- `n` rounds of the loop write the one buffer `n` times. -/
def NasList.pushes (msg : NasList) (nas : Pdu) (n : Nat) : NasList := (·.push nas)^[n] msg

theorem NasList.pushes_succ (msg : NasList) (nas : Pdu) (n : Nat) :
    msg.pushes nas (n + 1) = (msg.pushes nas n).push nas :=
  Function.iterate_succ_apply' ..

theorem NasList.pushes_count (msg : NasList) (nas : Pdu) (n : Nat) :
    (msg.pushes nas n).nDedInfoNas.toNat = (msg.nDedInfoNas.toNat + n) % 2 ^ 32 := by
  induction n with
  | zero => exact (Nat.mod_eq_of_lt msg.nDedInfoNas.toNat_lt).symm
  | succ n ih =>
    rw [pushes_succ]
    simp only [push, UInt32.toNat_add, ih]
    simp [Nat.add_assoc]

theorem NasList.pushes_entry {msg : NasList} (h : msg.nDedInfoNas = 0) (nas : Pdu) {n : Nat}
    (hn : n < 2 ^ 32) {i : Nat} (hi : i < n) : (msg.pushes nas n).dedInfoNasList i = nas := by
  induction n with
  | zero => omega
  | succ n ih =>
    have hcount := pushes_count msg nas n
    rw [h, UInt32.toNat_zero, Nat.zero_add, Nat.mod_eq_of_lt (by omega)] at hcount
    rw [pushes_succ]
    simp only [push, hcount]
    rcases Nat.lt_succ_iff_lt_or_eq.mp hi with hlt | rfl
    · rw [Function.update_of_ne (by omega), ih (by omega) hlt]
    · exact Function.update_self ..

/-- The list that goes with the DRBs. -/
theorem addNewBearersNas_eq (u : Ue) (cfg : Cfg) (rnti : Nat) (msg : NasList)
    (es : List ErabItem) :
    u.addNewBearersNas cfg msg es = ((u.addNewBearers cfg rnti es).1,
      (u.addNewBearers cfg rnti es).2.2.map fun _ => msg.pushes u.erabInfo es.length) := by
  induction es generalizing u msg with
  | nil => rfl
  | cons e es ih =>
    obtain ⟨hu, -⟩ := getDrbidConfig_erab u cfg e.id
    unfold Ue.addNewBearersNas Ue.addNewBearers
    rcases hget : u.getDrbidConfig cfg ((erabLcid e.id : Int) - 2) with ⟨u', _ | drb⟩
    · simp [hget]
    · rw [hget] at hu
      obtain rfl : u' = _ := hu
      simp only [hget, ih, Option.map_map]
      rfl

/-- Every QCI can be set up. -/
theorem addNewBearers_some (rnti : Nat)
    (hqci : ∀ e ∈ es, QciOk cfg (u.erabs.sub (e.id % 256)).qci) :
    ∃ drbs, (u.addNewBearers cfg rnti es).2.2 = some drbs := by
  induction es generalizing u with
  | nil => exact ⟨[], rfl⟩
  | cons e es ih =>
    obtain ⟨hu, hsome⟩ := getDrbidConfig_erab u cfg e.id
    obtain ⟨drb, hdrb⟩ := Option.isSome_iff_exists.mp
      (hsome.mpr (hqci e List.mem_cons_self))
    have hrest : ∀ e' ∈ es, QciOk cfg ((u.erabs.touch (e.id % 256)).sub (e'.id % 256)).qci := by
      intro e' he'
      rw [StdMap.sub_touch]
      exact hqci e' (List.mem_cons_of_mem _ he')
    obtain ⟨drbs, hdrbs⟩ := ih (u := { u with erabs := u.erabs.touch (e.id % 256) }) hrest
    have hget : u.getDrbidConfig cfg ((erabLcid e.id : Int) - 2) = (_, some drb) :=
      Prod.ext hu hdrb
    unfold Ue.addNewBearers
    simp only [hget, hdrbs]
    exact ⟨drb :: drbs, rfl⟩

/-- The message has the NAS PDU of the last item for each item. -/
theorem setupErabsBearerNas_eq (u : Ue) (rnti : Nat) (stack : NasList) (req : BearerList)
    (hqci : ∀ e ∈ req.items, QciOk cfg e.qci) :
    u.setupErabsBearerNas cfg rnti stack req.items =
      if ∀ e ∈ req.items, e.addressBits ≤ 32 then
        some (stack.pushes (u.setupErabItems rnti req.items).1.erabInfo req.items.length)
      else none := by
  obtain ⟨-, hok, -⟩ := setupErabItems_spec u rnti req.items
  unfold Ue.setupErabsBearerNas
  by_cases haddr : ∀ e ∈ req.items, e.addressBits ≤ 32
  · have hthere : ∀ e ∈ req.items,
        QciOk cfg ((u.setupErabItems rnti req.items).1.erabs.sub (e.id % 256)).qci := by
      intro e he
      rw [Nat.mod_eq_of_lt (req.ids e he)]
      refine (qcis_ok_iff u rnti haddr).mp (fun e' he' l hl => ?_) e he
      exact hqci l (lastItem_mem hl).1
    rcases h : u.setupErabItems rnti req.items with ⟨u', acts, ok⟩
    rw [h] at hok hthere
    obtain rfl : ok = true := hok.mpr haddr
    rw [if_pos haddr]
    obtain ⟨drbs, hdrbs⟩ := addNewBearers_some (u := u'.nextTransaction.2) rnti hthere
    simp only [addNewBearersNas_eq _ _ rnti, hdrbs]
    rfl
  · rcases h : u.setupErabItems rnti req.items with ⟨u', acts, ok⟩
    rw [h] at hok
    cases ok with
    | true => exact absurd (hok.mp rfl) haddr
    | false => rw [if_neg haddr]

theorem erabInfo_of_last (u : Ue) (rnti : Nat) (req : BearerList) {last : ErabItem}
    (haddr : ∀ e ∈ req.items, e.addressBits ≤ 32) (hlast : req.items.getLast? = some last) :
    last.nasPdu = some (u.setupErabItems rnti req.items).1.erabInfo := by
  have h := setupErabItems_pendingNas u rnti req.items
  unfold pendingAfter at h
  rw [accepted_eq haddr, hlast] at h
  obtain ⟨p, hp⟩ := Option.isSome_iff_exists.mp (req.nas last (List.mem_of_getLast? hlast))
  simp only [Option.map_some, Option.getD_some, hp, Ue.pendingNas] at h
  split_ifs at h
  rw [hp, h]

theorem nasRight_iff (u : Ue) (rnti : Nat) (stack : NasList) (req : BearerList)
    (haddr : ∀ e ∈ req.items, e.addressBits ≤ 32) :
    NasRight req.items
        (stack.pushes (u.setupErabItems rnti req.items).1.erabInfo req.items.length) ↔
      stack.nDedInfoNas = 0 ∧
        ∀ e ∈ req.items, ∀ last ∈ req.items.getLast?, e.nasPdu = last.nasPdu := by
  have hlen := req.len
  have hcount := NasList.pushes_count stack
    (u.setupErabItems rnti req.items).1.erabInfo req.items.length
  have hentry := fun (h : stack.nDedInfoNas = 0) i =>
    NasList.pushes_entry h (u.setupErabItems rnti req.items).1.erabInfo hlen (i := i)
  have hzero : (stack.nDedInfoNas.toNat + req.items.length) % 2 ^ 32 = req.items.length ↔
      stack.nDedInfoNas = 0 := by
    have := stack.nDedInfoNas.toNat_lt
    rw [← UInt32.toNat_inj, UInt32.toNat_zero]
    omega
  constructor
  · rintro ⟨hc, he⟩
    have h0 := hzero.mp (hcount.symm.trans hc)
    refine ⟨h0, fun e hmem last hlast => ?_⟩
    obtain ⟨i, hi, rfl⟩ := List.getElem_of_mem hmem
    rw [he i _ (List.getElem?_eq_getElem hi), hentry h0 i hi,
      erabInfo_of_last u rnti req haddr hlast]
  · rintro ⟨h0, hsame⟩
    refine ⟨hcount.trans (hzero.mpr h0), fun i e hi => ?_⟩
    have hmem := List.mem_of_getElem? hi
    have hlast := List.getLast?_eq_some_getLast (List.ne_nil_of_mem hmem)
    rw [hentry h0 i (List.getElem?_eq_some_iff.mp hi).1, hsame e hmem _ hlast,
      erabInfo_of_last u rnti req haddr hlast]

/-! ## An InitialContextSetupRequest -/

theorem sendConnectionReconf_pendingNas (u : Ue) (cfg : Cfg) (rnti : Nat) :
    (u.sendConnectionReconf cfg rnti).1.pendingNas = u.pendingNas := by
  unfold Ue.sendConnectionReconf Ue.getDrbidConfig Ue.nextTransaction
  simp only
  split_ifs <;> rfl

theorem parseUlDcch_pendingNas (u : Ue) (cfg : Cfg) (rnti : Nat) (msg : UlDcchMsg) :
    (u.parseUlDcch cfg rnti msg).1.pendingNas = u.pendingNas := by
  cases msg with
  | securityModeComplete => exact sendConnectionReconf_pendingNas { u with transactionId := 0 } ..
  | ueCapabilityInfo => exact sendConnectionReconf_pendingNas { u with transactionId := 0 } ..
  | _ => rfl

theorem parseAll_pendingNas (u : Ue) (cfg : Cfg) (rnti : Nat) (msgs : List UlDcchMsg) :
    (u.parseAll cfg rnti msgs).1.pendingNas = u.pendingNas := by
  induction msgs generalizing u with
  | nil => rfl
  | cons msg msgs ih =>
    unfold Ue.parseAll
    simp only [ih, parseUlDcch_pendingNas]

/-- The reconfiguration has the NAS PDU that waits, if its DRB can be set up. -/
theorem parseUlDcch_secured (u : Ue) (cfg : Cfg) (rnti : Nat) :
    ((u.parseUlDcch cfg rnti .securityModeComplete).2.filterMap fun a =>
      match a with
      | .dlDcch _ (.rrcConReconfig _ _ nas) => some nas
      | _ => none) = if QciOk cfg (u.erabs.sub 5).qci then [u.pendingNas.toList] else [] := by
  have h := getDrbidConfig_spec { u with transactionId := 1 } cfg (show 5 ≤ 5 ∧ 5 ≤ 12 by omega)
  unfold Ue.parseUlDcch Ue.sendConnectionReconf Ue.nextTransaction
  simp only [show (1 : Int) = ((5 - 2 : Nat) : Int) - 2 from rfl, Nat.zero_add, Nat.one_mod, h]
  unfold Ue.pendingNas Ue.notifyS1apUeCtxtSetupComplete
  by_cases hqci : QciOk cfg (u.erabs.sub 5).qci
  · cases hp : u.nasPending <;> simp [hqci]
  · simp [if_neg hqci]

theorem securedNas_eq (u : Ue) (cfg : Cfg) (rnti : Nat) (es : List ErabItem)
    {msgs : List UlDcchMsg} (hmsgs : UlDcchMsg.securityModeComplete ∉ msgs) :
    u.securedNas cfg rnti es msgs =
      if QciOk cfg ((entryAfter u rnti es 5).getD default).qci then
        [(pendingAfter u es).toList]
      else [] := by
  obtain ⟨u1, hu1⟩ : ∃ u1, u.nextTransaction.2 = u1 := ⟨_, rfl⟩
  obtain ⟨u2, hu2⟩ : ∃ u2, (u1.setupErabItems rnti es).1 = u2 := ⟨_, rfl⟩
  have hpending : u2.pendingNas = pendingAfter u es := by
    rw [← hu2, setupErabItems_pendingNas, ← hu1]
    rfl
  have hentry : u2.erabs.sub 5 = (entryAfter u rnti es 5).getD default := by
    rw [← hu2, StdMap.sub_eq, (setupErabItems_spec u1 rnti es).2.2, ← hu1]
    rfl
  have hsub : (u2.parseAll cfg rnti msgs).1.erabs.sub 5 = u2.erabs.sub 5 := by
    rw [(parseAll_quiet u2 cfg rnti hmsgs).1]
    split_ifs
    · rw [StdMap.sub_touch]
    · rfl
  calc u.securedNas cfg rnti es msgs
      = if QciOk cfg ((u2.parseAll cfg rnti msgs).1.erabs.sub 5).qci then
          [(u2.parseAll cfg rnti msgs).1.pendingNas.toList] else [] := by
        rw [← parseUlDcch_secured _ _ rnti, ← hu2, ← hu1]
        rfl
    _ = _ := by rw [hsub, hentry, parseAll_pendingNas, hpending]

/-- An E-RABSetupRequest whose QCIs are configured is answered by a message when its addresses have
32 bits, with the right NAS PDUs when the counter on the stack is 0 and all of them are the same.
Of an InitialContextSetupRequest only the NAS PDU of the last item waits for the
SecurityModeComplete. -/
theorem nas_reaches_ue_iff (u : Ue) (cfg : Cfg) (rnti : Nat) (stack : NasList) (req : BearerList)
    (hqci : ∀ e ∈ req.items, QciOk cfg e.qci) (es : List ErabItem) {msgs : List UlDcchMsg}
    (hmsgs : UlDcchMsg.securityModeComplete ∉ msgs) :
    ((u.setupErabsBearerNas cfg rnti stack req.items).isSome = true ↔
      ∀ e ∈ req.items, e.addressBits ≤ 32) ∧
    (∀ l, u.setupErabsBearerNas cfg rnti stack req.items = some l → (NasRight req.items l ↔
      stack.nDedInfoNas = 0 ∧
        ∀ e ∈ req.items, ∀ last ∈ req.items.getLast?, e.nasPdu = last.nasPdu)) ∧
    ((∀ e ∈ es, ∀ p, e.nasPdu = some p → ∃ nas ∈ u.securedNas cfg rnti es msgs, p ∈ nas) ↔
      ∀ e ∈ es, ∀ p, e.nasPdu = some p → pendingAfter u es = some p ∧
        QciOk cfg ((entryAfter u rnti es 5).getD default).qci) := by
  have hmsg := setupErabsBearerNas_eq u rnti stack req hqci
  refine ⟨?_, fun l hl => ?_, ?_⟩
  · rw [hmsg]
    split_ifs with haddr
    · simpa using haddr
    · simpa using haddr
  · rw [hmsg] at hl
    split_ifs at hl with haddr
    rw [← Option.some.inj hl]
    exact nasRight_iff u rnti stack req haddr
  · rw [securedNas_eq u cfg rnti es hmsgs]
    refine forall₄_congr fun e _ p _ => ?_
    split_ifs with hok
    · simp [hok]
    · simp [hok]

/-- Two E-RABs with the NAS PDU `nas` and `nas'`. -/
def twoNasErabs (nas nas' : Pdu) : BearerList where
  items := [⟨6, 7, 32, 1, 1, some nas⟩, ⟨7, 9, 32, 1, 2, some nas'⟩]
  len := by simp
  ids := by simp
  nas := by simp

/-- Twice the same NAS PDU, and a counter that happens to be 0. -/
theorem nas_reaches_ue_same :
    ∃ l, Ue.new.setupErabsBearerNas exampleCfg 70 ⟨0, fun _ => []⟩
        (twoNasErabs [1] [1]).items = some l ∧
      NasRight (twoNasErabs [1] [1]).items l := by
  refine ⟨_, rfl, ?_⟩
  have hboth := nas_reaches_ue_iff Ue.new exampleCfg 70 ⟨0, fun _ => []⟩ (twoNasErabs [1] [1])
    (by decide) [] (by simp : UlDcchMsg.securityModeComplete ∉ [])
  exact (hboth.2.1 _ rfl).mpr ⟨rfl, by decide⟩

/-- The first of two NAS PDUs is lost. -/
theorem nas_lost :
    ∃ l, Ue.new.setupErabsBearerNas exampleCfg 70 ⟨0, fun _ => []⟩
        (twoNasErabs [1] [2]).items = some l ∧
      ¬ NasRight (twoNasErabs [1] [2]).items l := by
  refine ⟨_, rfl, fun h => ?_⟩
  have := h.entries 0 _ rfl
  exact absurd this (by decide)

end Srsenb.Rrc
