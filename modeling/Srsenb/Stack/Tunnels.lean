import Srsenb.Stack.Isolation
import Srsenb.Upper.RrcErabs

/-! # The tunnels of the E-RABs

RRC keeps the E-RABs that the MME set up, and GTP-U a tunnel for each channel. -/

open Srsenb.Run

namespace Srsenb.Rrc

/-! ## Handlers that open no tunnel -/

/-- The action is about the tunnels of GTP-U. -/
def Action.isTunnel : Action → Bool
  | .gtpuAddBearer _ _ _ _ | .gtpuRemUser _ => true
  | _ => false

/-- An E-RAB that is there was there before, or is an entry that a lookup made. -/
def ErabsFrom (u u' : Ue) : Prop :=
  ∀ (id : Nat) (e : Erab), u'.erabs[id]? = some e → e = default ∨ u.erabs[id]? = some e

/-- A handler adds no E-RAB and asks nothing of GTP-U. -/
structure Idle (u : Ue) (p : Ue × List Action) : Prop where
  erabs : ErabsFrom u p.1
  acts : ∀ a ∈ p.2, a.isTunnel = false

variable {u v : Ue} {cfg : Cfg} {rnti : Nat} {acts acts' : List Action}

theorem ErabsFrom.of_eq {u u' : Ue} (h : u'.erabs = u.erabs) : ErabsFrom u u' :=
  fun _ _ he => .inr (h ▸ he)

theorem ErabsFrom.touch {u u' : Ue} {k : Nat} (h : u'.erabs = u.erabs.touch k) :
    ErabsFrom u u' := by
  intro id e he
  rw [h, StdMap.getElem?_touch, StdMap.sub_eq] at he
  split_ifs at he with hk
  · subst hk
    cases hget : u.erabs[k]? with
    | none =>
      rw [hget] at he
      exact .inl (Option.some.inj he).symm
    | some w =>
      rw [hget] at he
      exact .inr he
  · exact .inr he

theorem ErabsFrom.trans {u v w : Ue} (h : ErabsFrom u v) (h' : ErabsFrom v w) : ErabsFrom u w := by
  intro id e he
  obtain hdefault | hv := h' id e he
  · exact .inl hdefault
  · exact h id e hv

theorem Idle.of_eq {p : Ue × List Action} (h : p.1.erabs = u.erabs)
    (hacts : ∀ a ∈ p.2, a.isTunnel = false) : Idle u p := ⟨.of_eq h, hacts⟩

theorem Idle.after {p : Ue × List Action} (h : ErabsFrom u v) (h' : Idle v p) : Idle u p :=
  ⟨h.trans h'.erabs, h'.acts⟩

theorem getDrbidConfig_from (u : Ue) (cfg : Cfg) (drbId : Int) :
    ErabsFrom u (u.getDrbidConfig cfg drbId).1 := by
  refine .touch (k := ((drbId + 2).toNat + 2) % 256) ?_
  unfold Ue.getDrbidConfig
  simp only
  split_ifs <;> rfl

theorem sendConnectionReconf_idle (u : Ue) (cfg : Cfg) (rnti : Nat) :
    Idle u (u.sendConnectionReconf cfg rnti) := by
  have h := getDrbidConfig_from u.nextTransaction.2 cfg 1
  unfold Ue.sendConnectionReconf
  simp only
  split
  · rename_i u' heq
    rw [heq] at h
    exact ⟨h, by simp [Action.isTunnel]⟩
  · rename_i u' drb heq
    rw [heq] at h
    exact ⟨h, by simp [Action.isTunnel]⟩

theorem addNewBearers_idle (cfg : Cfg) (rnti : Nat) (es : List ErabItem) :
    ∀ u : Ue, Idle u ((u.addNewBearers cfg rnti es).1, (u.addNewBearers cfg rnti es).2.1) := by
  induction es with
  | nil => exact fun u => .of_eq rfl (by simp [Ue.addNewBearers])
  | cons e es ih =>
    intro u
    have h := getDrbidConfig_from u cfg ((erabLcid e.id : Int) - 2)
    unfold Ue.addNewBearers
    simp only
    split
    · rename_i u' heq
      rw [heq] at h
      exact ⟨h, by simp⟩
    · rename_i u' drb heq
      rw [heq] at h
      refine ⟨h.trans (ih u').erabs, ?_⟩
      simp only [List.mem_append]
      rintro a (ha | ha)
      · revert a
        simp [Action.isTunnel]
      · exact (ih u').acts a ha

theorem sendConnectionReconfNewBearer_idle (u : Ue) (cfg : Cfg) (rnti : Nat)
    (es : List ErabItem) : Idle u (u.sendConnectionReconfNewBearer cfg rnti es) := by
  have h := addNewBearers_idle cfg rnti es u.nextTransaction.2
  unfold Ue.sendConnectionReconfNewBearer
  simp only
  split
  · rename_i heq
    rw [heq] at h
    exact ⟨h.erabs, h.acts⟩
  · rename_i heq
    rw [heq] at h
    refine ⟨h.erabs, ?_⟩
    simp only [List.mem_append, List.mem_singleton]
    rintro a (ha | rfl)
    · exact h.acts a ha
    · rfl

theorem parseUlDcch_idle (u : Ue) (cfg : Cfg) (rnti : Nat) (msg : UlDcchMsg) :
    Idle u (u.parseUlDcch cfg rnti msg) := by
  have h0 : ErabsFrom u { u with transactionId := 0 } := .of_eq rfl
  cases msg with
  | securityModeComplete =>
    have h := h0.trans (sendConnectionReconf_idle { u with transactionId := 0 } cfg rnti).erabs
    refine ⟨h, ?_⟩
    simp only [Ue.parseUlDcch, List.mem_cons]
    rintro a (rfl | ha)
    · rfl
    · exact (sendConnectionReconf_idle { u with transactionId := 0 } cfg rnti).acts a ha
  | ueCapabilityInfo =>
    have h := sendConnectionReconf_idle { u with transactionId := 0 } cfg rnti
    exact ⟨h0.trans h.erabs, h.acts⟩
  | _ => exact .of_eq rfl (by
      simp [Ue.parseUlDcch, Ue.handleRrcConSetupComplete, Ue.handleRrcReconfComplete,
        Action.isTunnel])

theorem sendConnectionSetup_idle (s : State) (rnti : Nat) (u : Ue) :
    Idle u (sendConnectionSetup s rnti u).2 := by
  unfold sendConnectionSetup srSetup cqiSetup
  cases Pucch.srAllocate s.cfg.common s.cfg.srCfg s.srSched with
  | none => exact .of_eq rfl (by simp)
  | some p =>
    simp only [Option.map_some]
    split_ifs
    · cases Pucch.cqiAllocate s.cfg.common s.cfg.cqiCfg s.cqiSched with
      | none => exact .of_eq rfl (by simp)
      | some q => exact .of_eq rfl (by simp [Action.isTunnel])
    · exact .of_eq rfl (by simp [Action.isTunnel])

end Srsenb.Rrc

/-! ## The tunnels -/

namespace Srsenb.Stack

open Rrc (Erab ErabItem Ue erabLcid erabOf erabLcid_eq)
open Mac (MacState MacEvent MacAction)
open State (rntiOf lcidOf)

variable {ρ π : Type} {E : Env ρ π} {st : State ρ π} {db db' : Gtpu.RntiBearers} {r : Nat}
  {erabs : StdMap Erab}

/-- What RRC asks of GTP-U. -/
def tunnelAction (db : Gtpu.RntiBearers) : Rrc.Action → Gtpu.RntiBearers
  | .gtpuAddBearer rnti lcid addr teidOut =>
    (Gtpu.addBearer db (rntiOf rnti) (lcidOf lcid) addr teidOut).1
  | .gtpuRemUser rnti => Gtpu.remUser db (rntiOf rnti)
  | _ => db

theorem tunnelAction_of_idle {acts : List Rrc.Action} (h : ∀ a ∈ acts, a.isTunnel = false)
    (db : Gtpu.RntiBearers) : acts.foldl tunnelAction db = db := by
  refine List.foldlRecOn (motive := fun db' => db' = db) _ _ rfl fun db' hdb a ha => ?_
  have hidle := h a ha
  cases a with
  | gtpuAddBearer rnti lcid addr teidOut => cases hidle
  | gtpuRemUser rnti => cases hidle
  | _ => exact hdb

/-- The tunnel of an E-RAB of `r`. -/
structure Tunnel (db : Gtpu.RntiBearers) (r : Nat) (e : Erab) : Prop where
  id : 5 ≤ e.id ∧ e.id ≤ 12
  teidIn : e.teidIn = Rrc.rntilcidToTeidin r (e.id - 2)
  there : ∃ b, db[r]? = some b ∧ b.teidsOut (lcidOf (e.id - 2)) = e.teidOut ∧
    b.spgwAddrs (lcidOf (e.id - 2)) = e.address

/-- There is a tunnel for each E-RAB, but for the entries that lookups made. -/
def Tunnelled (db : Gtpu.RntiBearers) (r : Nat) (erabs : StdMap Erab) : Prop :=
  ∀ (id : Nat) (e : Erab), erabs[id]? = some e → e = default ∨ e.id = id ∧ Tunnel db r e

theorem Tunnel.mono (h : ∀ b, db[r]? = some b → db'[r]? = some b) {e : Erab}
    (ht : Tunnel db r e) : Tunnel db' r e := by
  obtain ⟨b, hb, hout⟩ := ht.there
  exact ⟨ht.id, ht.teidIn, b, h b hb, hout⟩

theorem Tunnelled.mono (h : ∀ b, db[r]? = some b → db'[r]? = some b) (hb : Tunnelled db r erabs) :
    Tunnelled db' r erabs := fun id e he =>
  (hb id e he).imp_right fun ht => ⟨ht.1, ht.2.mono h⟩

theorem Tunnelled.empty (db : Gtpu.RntiBearers) (r : Nat) : Tunnelled db r ∅ := by
  intro id e he
  simp at he

theorem Tunnelled.of_from {u u' : Ue} (hb : Tunnelled db r u.erabs) (h : Rrc.ErabsFrom u u') :
    Tunnelled db r u'.erabs := fun id e he => by
  obtain hdefault | hu := h id e he
  · exact .inl hdefault
  · exact hb id e hu

/-- The E-RABs 5 to 12 have channels of their own. -/
theorem lcidOf_ne {i j : Nat} (hi : 5 ≤ i ∧ i ≤ 12) (hj : 5 ≤ j ∧ j ≤ 12) (h : i ≠ j) :
    lcidOf (i - 2) ≠ lcidOf (j - 2) := by
  intro heq
  have hval := congrArg Fin.val heq
  simp only [lcidOf] at hval
  omega

theorem addBearer_get (db : Gtpu.RntiBearers) (rnti : Gtpu.Rnti) (lcid : Gtpu.Lcid)
    (addr teidOut : Nat) :
    ∃ b, (Gtpu.addBearer db rnti lcid addr teidOut).1[rnti.val]? = some b ∧
      b.teidsOut lcid = teidOut ∧ b.spgwAddrs lcid = addr ∧
      ∀ b₀, db[rnti.val]? = some b₀ → ∀ l, l ≠ lcid →
        b.teidsOut l = b₀.teidsOut l ∧ b.spgwAddrs l = b₀.spgwAddrs l := by
  unfold Gtpu.addBearer
  simp only [StdMap.getElem?_update, if_true]
  refine ⟨_, rfl, by simp, by simp, fun b₀ hb₀ l hl => ?_⟩
  simp only [hb₀, Option.isNone_some, Bool.false_eq_true, if_false, StdMap.sub_of_get hb₀,
    Function.update_of_ne hl, and_self]

/-- `setup_erab` -/
theorem Tunnelled.setupErab (hr : r < 2 ^ 16) (hb : Tunnelled db r erabs) {it : ErabItem}
    (hid : 5 ≤ it.id ∧ it.id ≤ 12) :
    Tunnelled (tunnelAction db (Rrc.tunnelOf r it)) r (erabs.insert it.id (erabOf r it)) := by
  have hval : (rntiOf r).val = r := Nat.mod_eq_of_lt hr
  obtain ⟨b, hget, hout, haddr, hother⟩ :=
    addBearer_get db (rntiOf r) (lcidOf (erabLcid it.id)) it.address it.teidOut
  rw [hval] at hget hother
  rw [erabLcid_eq hid] at hout haddr hother
  intro id e he
  rw [StdMap.getElem?_insert] at he
  split_ifs at he with hk
  · obtain rfl := Option.some.inj he
    refine .inr ⟨hk, hid, ?_, b, hget, hout, haddr⟩
    simp only [erabOf, erabLcid_eq hid]
  · obtain hdefault | ⟨heid, ht⟩ := hb id e he
    · exact .inl hdefault
    · obtain ⟨b₀, hb₀, hout₀, haddr₀⟩ := ht.there
      obtain ⟨hout', haddr'⟩ := hother b₀ hb₀ _ (lcidOf_ne ht.id hid (heid ▸ Ne.symm hk))
      exact .inr ⟨heid, ht.id, ht.teidIn, b, hget, hout'.trans hout₀, haddr'.trans haddr₀⟩

/-- The loop of `setup_erabs`. -/
theorem Tunnelled.setupErabItems (hr : r < 2 ^ 16) {es : List ErabItem} :
    ∀ {db : Gtpu.RntiBearers} {u : Ue}, Tunnelled db r u.erabs →
      (∀ it ∈ es, 5 ≤ it.id ∧ it.id ≤ 12) →
      Tunnelled ((u.setupErabItems r es).2.1.foldl tunnelAction db) r
        (u.setupErabItems r es).1.erabs := by
  induction es with
  | nil => exact fun hb _ => hb
  | cons it es ih =>
    intro db u hb hids
    unfold Ue.setupErabItems
    split_ifs
    · exact hb
    · have hu : (u.setupErab r it).1.erabs = u.erabs.insert it.id (erabOf r it) := by
        unfold Ue.setupErab
        cases it.nasPdu <;> rfl
      have hstep :
          Tunnelled (tunnelAction db (Rrc.tunnelOf r it)) r (u.setupErab r it).1.erabs := by
        rw [hu]
        exact hb.setupErab hr (hids it List.mem_cons_self)
      exact ih hstep fun it' hit' => hids it' (List.mem_cons_of_mem _ hit')

/-! ## The layers -/

/-- RRC and the tunnels stay, and nothing leaves. -/
structure SameAbove (st st' : State ρ π) : Prop where
  rrc : st'.rrc = st.rrc
  gtpu : st'.gtpu = st.gtpu
  sent : st'.sent = st.sent

namespace SameAbove

variable {st' st'' : State ρ π} {rnti lcid : Nat}

theorem refl (st : State ρ π) : SameAbove st st := ⟨rfl, rfl, rfl⟩

theorem trans (h : SameAbove st st') (h' : SameAbove st' st'') : SameAbove st st'' :=
  ⟨h'.rrc.trans h.rrc, h'.gtpu.trans h.gtpu, h'.sent.trans h.sent⟩

theorem foldl {α : Type} {G : State ρ π → α → State ρ π} {l : List α} (h : SameAbove st st')
    (hG : ∀ st, ∀ a ∈ l, SameAbove st (G st a)) : SameAbove st (l.foldl G st') :=
  List.foldlRecOn (motive := fun st' => SameAbove st st') _ _ h
    fun st' h a ha => h.trans (hG st' a ha)

theorem rlcReport (st : State ρ π) (a : Rlc.Action) : SameAbove st (st.rlcReport a) := by
  cases a <;> exact ⟨rfl, rfl, rfl⟩

theorem rlcReadPdu (st : State ρ π) (rnti lcid nofBytes : Nat) :
    SameAbove st (st.rlcReadPdu E rnti lcid nofBytes) :=
  foldl ⟨rfl, rfl, rfl⟩ fun st a _ => rlcReport st a

theorem rlcWriteSdu (st : State ρ π) (rnti lcid : Nat) (sdu : Rlc.Pdu) :
    SameAbove st (st.rlcWriteSdu E rnti lcid sdu) :=
  foldl ⟨rfl, rfl, rfl⟩ fun st a _ => rlcReport st a

theorem rlcClearBuffer (st : State ρ π) (rnti : Nat) :
    SameAbove st (st.rlcClearBuffer E rnti) :=
  foldl ⟨rfl, rfl, rfl⟩ fun st a _ => rlcReport st a

/-- What PDCP hands down goes to RLC. -/
theorem pdcpWriteSdu (st : State ρ π) (rnti lcid : Nat) (sdu : Pdcp.Pdu) :
    SameAbove st (st.pdcpWriteSdu E rnti lcid sdu) := by
  refine foldl ⟨rfl, rfl, rfl⟩ fun st' a ha => ?_
  split at ha
  · obtain rfl := List.mem_singleton.mp ha
    exact .refl st'
  · obtain ⟨d, -, rfl⟩ := List.mem_map.mp ha
    exact rlcWriteSdu st' rnti d.1 d.2

theorem gtpuDataPdu (st : State ρ π) (teid : Nat) (pdu : Gtpu.Pdu) :
    SameAbove st (st.gtpuDataPdu E teid pdu) := by
  refine foldl (.refl st) fun st' a _ => ?_
  cases a with
  | writeSdu rnti lcid pdu => exact pdcpWriteSdu st' rnti lcid pdu
  | sendto addr teid pdu => exact .refl st'

end SameAbove

/-- The tunnels change as RRC asks. -/
structure AsAsked (acts : List Rrc.Action) (st st' : State ρ π) : Prop where
  rrc : st'.rrc = st.rrc
  gtpu : st'.gtpu = acts.foldl tunnelAction st.gtpu
  sent : st'.sent = st.sent

theorem rrcAction_above (st : State ρ π) (a : Rrc.Action) :
    AsAsked [a] st (st.rrcAction E a) := by
  cases a with
  | dlCcch rnti msg =>
    have h := SameAbove.pdcpWriteSdu (E := E) st rnti 0 (E.pack msg)
    exact ⟨h.rrc, h.gtpu, h.sent⟩
  | dlDcch rnti msg =>
    have h := SameAbove.pdcpWriteSdu (E := E) st rnti 1 (E.pack msg)
    exact ⟨h.rrc, h.gtpu, h.sent⟩
  | rlcClearBuffer rnti =>
    have h := SameAbove.rlcClearBuffer (E := E) st rnti
    exact ⟨h.rrc, h.gtpu, h.sent⟩
  | _ => exact ⟨rfl, rfl, rfl⟩

theorem rrcActions_above (acts : List Rrc.Action) : ∀ st : State ρ π,
    AsAsked acts st (acts.foldl (State.rrcAction E) st) := by
  induction acts with
  | nil => exact fun st => ⟨rfl, rfl, rfl⟩
  | cons a acts ih =>
    intro st
    have hfirst := rrcAction_above (E := E) st a
    have hrest := ih (st.rrcAction E a)
    refine ⟨hrest.rrc.trans hfirst.rrc, ?_, hrest.sent.trans hfirst.sent⟩
    rw [List.foldl_cons, hrest.gtpu, hfirst.gtpu]
    rfl

theorem rrcCall_above (st : State ρ π) (e : Rrc.Event) :
    (st.rrcCall E e).rrc = (Rrc.handle st.rrc e).st ∧
      (st.rrcCall E e).gtpu = (Rrc.handle st.rrc e).acts.foldl tunnelAction st.gtpu ∧
      (st.rrcCall E e).sent = st.sent := by
  obtain ⟨hrrc, hgtpu, hsent⟩ := rrcActions_above (E := E) (Rrc.handle st.rrc e).acts
    { st with rrc := (Rrc.handle st.rrc e).st }
  exact ⟨hrrc, hgtpu, hsent⟩

/-! ### The uplink -/

/-- RRC stays, and so do the tunnels that are there. -/
structure KeepsAbove (st st' : State ρ π) : Prop where
  rrc : st'.rrc = st.rrc
  gtpu : ∀ (r : Nat) b, st.gtpu[r]? = some b → st'.gtpu[r]? = some b

namespace KeepsAbove

variable {st' st'' : State ρ π}

theorem trans (h : KeepsAbove st st') (h' : KeepsAbove st' st'') : KeepsAbove st st'' :=
  ⟨h'.rrc.trans h.rrc, fun r b hb => h'.gtpu r b (h.gtpu r b hb)⟩

theorem same (h : SameAbove st st') : KeepsAbove st st' :=
  ⟨h.rrc, fun r b hb => by rw [h.gtpu, hb]⟩

theorem foldl {α : Type} {G : State ρ π → α → State ρ π} {l : List α} (h : KeepsAbove st st')
    (hG : ∀ st, ∀ a ∈ l, KeepsAbove st (G st a)) : KeepsAbove st (l.foldl G st') :=
  List.foldlRecOn (motive := fun st' => KeepsAbove st st') _ _ h
    fun st' h a ha => h.trans (hG st' a ha)

theorem gtpuWritePdu (st : State ρ π) (rnti lcid : Nat) (pdu : Gtpu.Pdu) :
    KeepsAbove st (st.gtpuWritePdu rnti lcid pdu) := by
  refine ⟨rfl, fun r b hb => ?_⟩
  have htouch : (st.gtpuWritePdu rnti lcid pdu).gtpu = st.gtpu.touch (rntiOf rnti).val := rfl
  rw [htouch, StdMap.getElem?_touch]
  split_ifs with hr
  · subst hr
    rw [StdMap.sub_of_get hb]
  · exact hb

theorem pdcpWritePdu (st : State ρ π) (rnti lcid : Nat) (sdu : Pdcp.Pdu) :
    KeepsAbove st (st.pdcpWritePdu E rnti lcid sdu) := by
  refine foldl (same ⟨rfl, rfl, rfl⟩) fun st' a _ => ?_
  cases a with
  | rlcWriteSdu rnti lcid sdu => exact same (SameAbove.rlcWriteSdu st' rnti lcid sdu)
  | rrcWritePdu rnti lcid pdu => exact ⟨rfl, fun _ _ h => h⟩
  | gtpuWritePdu rnti lcid pdu => exact gtpuWritePdu st' rnti lcid pdu
  | deallocate sdu => exact same (.refl st')

theorem rlcWritePdu (st : State ρ π) (rnti lcid : Nat) (payload : Rlc.Pdu) :
    KeepsAbove st (st.rlcWritePdu E rnti lcid payload) := by
  refine foldl (same ⟨rfl, rfl, rfl⟩) fun st' a _ => ?_
  cases a with
  | pdcpWritePdu rnti lcid sdu => exact pdcpWritePdu st' rnti lcid sdu
  | rlcBufferState rnti lcid txQueue retxQueue =>
    exact same (SameAbove.rlcReport st' (.rlcBufferState rnti lcid txQueue retxQueue))
  | deallocate sdu => exact same (.refl st')

end KeepsAbove

/-! ## One event of RRC -/

/-- After a handler of `r` there are still tunnels for the E-RABs. -/
def Safe (r : Nat) (u : Ue) (p : Ue × List Rrc.Action) : Prop :=
  ∀ db, Tunnelled db r u.erabs → Tunnelled (p.2.foldl tunnelAction db) r p.1.erabs

section Handlers

variable {u : Ue} {s : Rrc.State}

theorem Safe.of_idle {p : Ue × List Rrc.Action} (h : Rrc.Idle u p) : Safe r u p := by
  intro db hb
  rw [tunnelAction_of_idle h.acts]
  exact hb.of_from h.erabs

theorem setupErabsBearer_safe (hr : r < 2 ^ 16) (cfg : Rrc.Cfg) {es : List ErabItem}
    (hids : ∀ it ∈ es, 5 ≤ it.id ∧ it.id ≤ 12) : Safe r u (u.setupErabsBearer cfg r es) := by
  intro db hb
  have hitems := hb.setupErabItems hr hids
  unfold Ue.setupErabsBearer
  split
  · rename_i heq
    rw [heq] at hitems
    exact hitems
  · rename_i u' acts heq
    rw [heq] at hitems
    have hsafe : Safe r u' (u'.sendConnectionReconfNewBearer cfg r es) :=
      .of_idle (Rrc.sendConnectionReconfNewBearer_idle u' cfg r es)
    simp only [List.foldl_append, List.foldl_cons]
    exact hsafe _ hitems

theorem setupUeCtxt_safe (hr : r < 2 ^ 16) (key : Rrc.Pdu) {es : List ErabItem}
    (hids : ∀ it ∈ es, 5 ≤ it.id ∧ it.id ≤ 12) :
    Safe r u (((u.sendSecurityModeCommand r).1.setupErabsCtxt r es).1,
      .pdcpConfigSecurity r 1 key :: (u.sendSecurityModeCommand r).2 ++
        ((u.sendSecurityModeCommand r).1.setupErabsCtxt r es).2) := by
  intro db hb
  have hitems : Tunnelled _ r ((u.sendSecurityModeCommand r).1.setupErabsCtxt r es).1.erabs :=
    Tunnelled.setupErabItems (u := (u.sendSecurityModeCommand r).1) hr hb hids
  simp only [List.cons_append, List.foldl_cons, List.foldl_append]
  exact hitems

/-- A handler of the table. -/
theorem onUser_tunnelled {f : Ue → Ue × List Rrc.Action} (hf : ∀ u, Safe r u (f u))
    (h : ∀ u, s.users[r]? = some u → Tunnelled db r u.erabs) {u : Ue}
    (hu : (Rrc.onUser s r f).st.users[r]? = some u) :
    Tunnelled ((Rrc.onUser s r f).acts.foldl tunnelAction db) r u.erabs := by
  unfold Rrc.onUser at hu ⊢
  split at hu
  · exact h u hu
  · rename_i v hv
    rw [Rrc.State.setUser, StdMap.getElem?_insert, if_pos rfl] at hu
    obtain rfl := Option.some.inj hu
    exact hf v db (h v hv)

/-- What a request for a connection leaves. -/
theorem handleRrcConReq_tunnelled {sTmsi : Option (Nat × Nat)} {cause : Nat}
    (hthere : s.users[r]?.isSome = true)
    (h : ∀ u, s.users[r]? = some u → Tunnelled db r u.erabs)
    (hu : (Rrc.handleRrcConReq s r sTmsi cause).st.users[r]? = some u) :
    Tunnelled ((Rrc.handleRrcConReq s r sTmsi cause).acts.foldl tunnelAction db) r u.erabs := by
  obtain ⟨v, hv⟩ := Option.isSome_iff_exists.mp hthere
  unfold Rrc.handleRrcConReq at hu ⊢
  simp only [Rrc.State.setUser, StdMap.getElem?_insert, if_true, StdMap.sub_of_get hv] at hu ⊢
  obtain rfl := Option.some.inj hu
  have hsafe : ∀ w : Ue, w.erabs = v.erabs → Tunnelled
      ((Rrc.sendConnectionSetup s r w).2.2.foldl tunnelAction db) r
      (Rrc.sendConnectionSetup s r w).2.1.erabs := by
    intro w hw
    refine Safe.of_idle (Rrc.sendConnectionSetup_idle s r w) db ?_
    rw [hw]
    exact h v hv
  split <;> exact hsafe _ rfl

theorem handleItem_tunnelled (item : Rrc.QueueItem) (hthere : s.users[r]?.isSome = true)
    (h : ∀ u, s.users[r]? = some u → Tunnelled db r u.erabs)
    (hu : (Rrc.handleItem s r item).st.users[r]? = some u) :
    Tunnelled ((Rrc.handleItem s r item).acts.foldl tunnelAction db) r u.erabs := by
  obtain ⟨v, hv⟩ := Option.isSome_iff_exists.mp hthere
  cases item with
  | srb0 msg =>
    cases msg with
    | rrcConReq sTmsi cause =>
      simp only [Rrc.handleItem, Rrc.parseUlCcch, if_pos hthere] at hu ⊢
      exact handleRrcConReq_tunnelled hthere h hu
    | rrcConReestReq oldRnti =>
      simp only [Rrc.handleItem, Rrc.parseUlCcch, StdMap.touch_of_get hv] at hu ⊢
      have hst : s.users[r]? = some u := by
        split_ifs at hu <;> exact hu
      rw [tunnelAction_of_idle]
      · exact h u hst
      · split_ifs <;> simp [Rrc.Action.isTunnel]
    | other => exact h u hu
  | srb12 msg =>
    exact onUser_tunnelled (fun u => .of_idle (Rrc.parseUlDcch_idle u s.cfg r msg)) h hu
  | remUser =>
    simp only [Rrc.handleItem, Rrc.remUser, hv, StdMap.getElem?_erase, if_true] at hu
    cases hu
  | relUser =>
    refine onUser_tunnelled (fun u => .of_idle ?_) h hu
    split_ifs
    · exact .of_eq rfl (by simp [Ue.sendConnectionRelease, Rrc.Action.isTunnel])
    · exact .of_eq rfl (by simp [Rrc.Action.isTunnel])
  | rlfUser b =>
    refine onUser_tunnelled (fun u => .of_idle ?_) h hu
    simp only
    split_ifs <;> exact .of_eq rfl (by simp [Rrc.Action.isTunnel])
  | actUser | invalid => exact h u hu

/-- The requests of the MME are for E-RABs that have a channel of their own. -/
def ErabsFit : Rrc.Event → Prop
  | .setupUeCtxt _ _ es | .setupUeErabs _ es => ∀ it ∈ es, 5 ≤ it.id ∧ it.id ≤ 12
  | _ => True

theorem handle_tunnelled {e : Rrc.Event} (hr : r < 2 ^ 16) (he : e.user = r) (hfit : ErabsFit e)
    (h : ∀ u, s.users[r]? = some u → Tunnelled db r u.erabs)
    (hu : (Rrc.handle s e).st.users[r]? = some u) :
    Tunnelled ((Rrc.handle s e).acts.foldl tunnelAction db) r u.erabs := by
  subst he
  cases e with
  | rx rnti item =>
    simp only [Rrc.handle, Rrc.Event.user] at hu ⊢
    split_ifs at hu ⊢ with hthere
    · exact handleItem_tunnelled item hthere h hu
    · exact h u hu
  | addUser rnti =>
    simp only [Rrc.handle, Rrc.addUser, Rrc.Event.user] at hu ⊢
    split_ifs at hu ⊢ with hthere
    · exact h u hu
    · rw [Rrc.State.setUser, StdMap.getElem?_insert, if_pos rfl] at hu
      obtain rfl := Option.some.inj hu
      exact .empty _ _
  | updUser newRnti oldRnti =>
    refine onUser_tunnelled (fun u => .of_idle ?_) h hu
    split_ifs <;> exact .of_eq rfl (by
      simp [Ue.sendConnectionReconfUpd, Ue.sendConnectionRelease, Rrc.Action.isTunnel])
  | writeDlInfo rnti sdu =>
    exact onUser_tunnelled (fun u => .of_idle (.of_eq rfl (by simp [Rrc.Action.isTunnel]))) h hu
  | setupUeCtxt rnti key es => exact onUser_tunnelled (fun u => setupUeCtxt_safe hr key hfit) h hu
  | setupUeErabs rnti es =>
    exact onUser_tunnelled (fun u => setupErabsBearer_safe hr s.cfg hfit) h hu
  | releaseErabs rnti =>
    exact onUser_tunnelled (f := fun u => ({ u with erabs := ∅ }, []))
      (fun u db _ => .empty db rnti) h hu
  | timeout rnti b =>
    simp only [Rrc.handle, Rrc.isTimeout] at hu ⊢
    split_ifs at hu ⊢
    · exact h u hu
    all_goals
      refine onUser_tunnelled (fun u => .of_idle ?_) h hu
      exact .of_eq rfl (by simp [Rrc.Action.isTunnel])
  | notifyConnected rnti =>
    simp only [Rrc.handle, Rrc.notifyConnected] at hu ⊢
    split_ifs at hu ⊢
    · exact h u hu
    · refine onUser_tunnelled (fun u => .of_idle ?_) h hu
      split_ifs <;> exact .of_eq rfl (by simp [Rrc.Action.isTunnel])

end Handlers

/-- What is asked for others leaves the tunnels of `r`. -/
theorem tunnelAction_other {a : Rrc.Action} (ha : ∀ k ∈ a.user, k < 2 ^ 16 ∧ k ≠ r) :
    (tunnelAction db a)[r]? = db[r]? := by
  cases a with
  | gtpuAddBearer rnti lcid addr teidOut =>
    obtain ⟨hlt, hne⟩ := ha rnti rfl
    have hval : (rntiOf rnti).val = rnti := Nat.mod_eq_of_lt hlt
    refine (Gtpu.addBearer_worksOn (rntiOf rnti) (lcidOf lcid) addr teidOut).other db r ?_
    rw [hval]
    exact hne.symm
  | gtpuRemUser rnti =>
    obtain ⟨hlt, hne⟩ := ha rnti rfl
    have hval : (rntiOf rnti).val = rnti := Nat.mod_eq_of_lt hlt
    simp only [tunnelAction, Gtpu.remUser, hval, StdMap.getElem?_erase, if_neg hne]
  | _ => rfl

theorem tunnelActions_other {acts : List Rrc.Action}
    (hacts : ∀ a ∈ acts, ∀ k ∈ a.user, k < 2 ^ 16 ∧ k ≠ r) :
    (acts.foldl tunnelAction db)[r]? = db[r]? :=
  List.foldlRecOn (motive := fun db' : Gtpu.RntiBearers => db'[r]? = db[r]?) _ _ rfl
    fun _ h a ha => (tunnelAction_other (hacts a ha)).trans h

/-! ## Runs -/

/-- There are tunnels for the E-RABs of all users. -/
def AllTunnelled (st : State ρ π) : Prop :=
  ∀ (r : Nat) (u : Ue), st.rrc.users[r]? = some u → Tunnelled st.gtpu r u.erabs

namespace AllTunnelled

variable {S : Set Nat} {st' : State ρ π}

theorem keeps (h : AllTunnelled st) (hkeeps : KeepsAbove st st') : AllTunnelled st' := by
  intro r u hu
  rw [hkeeps.rrc] at hu
  exact (h r u hu).mono (hkeeps.gtpu r)

theorem same (h : AllTunnelled st) (hsame : SameAbove st st') : AllTunnelled st' :=
  h.keeps (.same hsame)

theorem rrcCall (h : AllTunnelled st) (hS : SmallRntis st.rrc) {e : Rrc.Event}
    (hS' : SmallRntis (st.rrcCall E e).rrc) (he : ∀ k, e = .addUser k → k < 2 ^ 16)
    (hfit : ErabsFit e) : AllTunnelled (st.rrcCall E e) := by
  obtain ⟨hrrc, hgtpu, -⟩ := rrcCall_above (E := E) st e
  intro r u hu
  have hlt : r < 2 ^ 16 := hS' r (by rw [hu]; rfl)
  rw [hrrc] at hu
  rw [hgtpu]
  have hacts : ∀ a ∈ (Rrc.handle st.rrc e).acts, ∀ k ∈ a.user, k = e.user ∧ k < 2 ^ 16 := by
    intro a ha k hk
    refine ⟨Rrc.handle_acts_user st.rrc e a ha k hk, ?_⟩
    obtain hthere | hadd := Rrc.handle_acts_there st.rrc e a ha k hk
    · exact hS k hthere
    · exact he k hadd
  by_cases hr : r = e.user
  · exact handle_tunnelled hlt hr.symm hfit (h r) hu
  · rw [Rrc.handle_of_ne st.rrc hr] at hu
    refine (h r u hu).mono fun b hb => ?_
    rw [tunnelActions_other fun a ha k hk =>
      ⟨(hacts a ha k hk).2, fun heq => hr (heq.symm.trans (hacts a ha k hk).1)⟩]
    exact hb

/-! ### MAC -/

theorem addUser (h : AllTunnelled st) (hS : SmallRntis st.rrc) {m : MacState} {rnti : Nat}
    (hS' : SmallRntis ({ st with mac := m }.rrcCall E (.addUser rnti)).rrc)
    (hrnti : rnti < 2 ^ 16) : AllTunnelled ({ st with mac := m }.rrcCall E (.addUser rnti)) := by
  have hmac : AllTunnelled { st with mac := m } := h.same ⟨rfl, rfl, rfl⟩
  refine hmac.rrcCall hS hS' (fun k hk => ?_) trivial
  rw [← Rrc.Event.addUser.inj hk]
  exact hrnti

theorem macCall (h : AllTunnelled st) (hst : Users S st) {e : MacEvent} (ha : st.mac.Allowed e)
    (hown : ∀ r, e ≠ .ueRem r) (hS' : SmallRntis (st.macCall E e).rrc) :
    AllTunnelled (st.macCall E e) := by
  have hkeep : st.mac.resets e = none → AllTunnelled (st.macCall E e) := by
    intro he
    refine h.same (SameAbove.foldl ⟨rfl, rfl, rfl⟩ fun st' a ha => ?_)
    cases a with
    | rrcAddUser rnti => exact absurd ha (MacState.handle_acts he rnti)
    | _ => exact .refl st'
  cases e with
  | rachDetected tti preambleIdx timeAdv =>
    obtain ⟨hacts, -, -⟩ :=
      MacState.rachDetected_eq E.lib E.locations st.mac tti preambleIdx timeAdv
    unfold State.macCall MacState.handle at hS' ⊢
    simp only [hacts, List.foldl_cons, List.foldl_nil, State.macAction] at hS' ⊢
    exact h.addUser hst.smallRntis hS' hst.lastRnti
  | ueRem rnti => exact absurd rfl (hown rnti)
  | addMbmsUser =>
    have hrnti : mrnti < 2 ^ 16 := by decide
    exact h.addUser hst.smallRntis hS' hrnti
  | _ => exact hkeep rfl

end AllTunnelled

/-- The requests of the MME are for E-RABs with a channel of their own. -/
def Fits (st : State ρ π) : Event → Prop
  | .rrc e => Allowed st (.rrc e) ∧ ErabsFit e
  | e => Allowed st e

theorem Fits.allowed {e : Event} (h : Fits st e) : Allowed st e := by
  cases e with
  | rrc e => exact h.1
  | _ => exact h

theorem AllTunnelled.step {S : Set Nat} (h : AllTunnelled st) (hst : Users S st) {e : Event}
    (hfit : Fits st e) : AllTunnelled (step E st e) := by
  obtain ⟨T, hT⟩ := hst.step (E := E) hfit.allowed
  have hS' := hT.smallRntis
  cases e with
  | mac e =>
    cases e with
    | ueRem rnti | ueCfg rnti cfg bearers => exact (Fits.allowed hfit).elim
    | _ => exact h.macCall hst hfit (by simp) hS'
  | getDlSched tti paging generatePdu => exact h.same ⟨rfl, rfl, rfl⟩
  | getUlSched tti buffers => exact h.same ⟨rfl, rfl, rfl⟩
  | ulBsr rnti lcid bsr setValue => exact h.same ⟨rfl, rfl, rfl⟩
  | readPdu rnti lcid nofBytes => exact h.same (SameAbove.rlcReadPdu st rnti lcid nofBytes)
  | writePdu rnti lcid payload => exact h.keeps (KeepsAbove.rlcWritePdu st rnti lcid payload)
  | dataPdu teid pdu => exact h.same (SameAbove.gtpuDataPdu st teid pdu)
  | rrc e =>
    refine h.rrcCall hst.smallRntis hS' (fun k hk => ?_) hfit.2
    subst hk
    exact hfit.1.elim

/-! ## What goes through a tunnel -/

/-- A G-PDU with the TEID of the E-RAB goes to its channel, and what comes from this channel goes
to the address and the TEID that the MME gave. -/
structure Carries (E : Env ρ π) (st : State ρ π) (r : Nat) (e : Erab) : Prop where
  downlink : ∀ pdu, st.gtpuDataPdu E e.teidIn pdu = st.pdcpWriteSdu E r (e.id - 2) pdu
  uplink : ∀ pdu, (st.gtpuWritePdu r (e.id - 2) pdu).sent =
    st.sent ++ [(r, .sendto e.address e.teidOut pdu)]

theorem Tunnel.carries (hr : r < 2 ^ 16) {e : Erab} (h : Tunnel st.gtpu r e) :
    Carries E st r e := by
  obtain ⟨b, hb, hout, haddr⟩ := h.there
  obtain ⟨hge, hle⟩ := h.id
  have hval : (rntiOf r).val = r := Nat.mod_eq_of_lt hr
  have hteid : Gtpu.teidinToRntilcid e.teidIn = (r, e.id - 2) := by
    rw [Gtpu.teidinToRntilcid_eq, h.teidIn, Rrc.rntilcidToTeidin]
    refine Prod.ext ?_ ?_
    · simp only
      omega
    · simp only
      omega
  refine ⟨fun pdu => ?_, fun pdu => ?_⟩
  · have hdrb : ¬ (e.id - 2 < Gtpu.nofSrb ∨ e.id - 2 ≥ Gtpu.nofRadioBearers) := by
      simp only [Gtpu.nofSrb, Gtpu.nofRadioBearers]
      omega
    simp only [State.gtpuDataPdu, Gtpu.dataPdu, hteid, hb, Option.isNone_some, if_neg hdrb,
      Bool.false_eq_true, if_false, List.foldl_cons, List.foldl_nil]
  · have hsub : StdMap.sub (st.gtpu.touch r) r = b := by
      rw [StdMap.sub_touch, StdMap.sub_of_get hb]
    simp only [State.gtpuWritePdu, Gtpu.writePdu, hval, hsub, hout, haddr, if_true,
      List.foldl_cons, List.foldl_nil, State.output]

/-- Each E-RAB of a user, but for the entries that lookups made, carries its data. -/
def ErabsCarry (E : Env ρ π) (st : State ρ π) : Prop :=
  ∀ (r : Nat) (u : Ue) (id : Nat) (e : Erab), st.rrc.users[r]? = some u →
    u.erabs[id]? = some e → e = default ∨ e.id = id ∧ Carries E st r e

/-- **The E-RABs of RRC and the tunnels of GTP-U agree** in every state of every run. -/
theorem erabs_carry (E : Env ρ π) (sched : Mac.Sched) (cfg : Rrc.Cfg) (es : List Event)
    (h : AllSteps (step E) Fits (init sched cfg) es) :
    AllStates (step E) (ErabsCarry E) (init sched cfg) es := by
  have hinit : AllTunnelled (init sched cfg : State ρ π) := by
    intro r u hu
    simp [init, Rrc.init] at hu
  have hstep : ∀ (st : State ρ π) e, (∃ S, Users S st) ∧ AllTunnelled st → Fits st e →
      (∃ S, Users S (step E st e)) ∧ AllTunnelled (step E st e) := by
    rintro st e ⟨⟨S, hst⟩, ht⟩ hfit
    exact ⟨hst.step hfit.allowed, ht.step hst hfit⟩
  refine (allStates_of_allSteps hstep ⟨⟨∅, Users.init sched cfg⟩, hinit⟩ h).mono ?_
  rintro st ⟨⟨S, hst⟩, ht⟩ r u id e hu he
  have hr : r < 2 ^ 16 := hst.smallRntis r (by rw [hu]; rfl)
  obtain hdefault | ⟨hid, htunnel⟩ := ht r u hu id e he
  · exact .inl hdefault
  · exact .inr ⟨hid, htunnel.carries hr⟩

/-- Two E-RABs of a user, and data for the second. -/
theorem erabs_carry_two :
    AllStates (step exampleEnv) (ErabsCarry exampleEnv)
      (init Mac.Sched.exampleSched Rrc.exampleCfg)
      [.mac (.rachDetected 1 0 0), .rrc (.rx 70 (.srb0 (.rrcConReq none 0))),
        .rrc (.setupUeCtxt 70 [] [⟨5, 9, 32, 1, 7, none⟩, ⟨6, 7, 32, 2, 8, none⟩]),
        .rrc (.rx 70 (.srb12 .securityModeComplete)), .dataPdu (70 * 2 ^ 16 + 4) [1, 2],
        .rrc (.rx 70 .remUser)] :=
  erabs_carry exampleEnv Mac.Sched.exampleSched Rrc.exampleCfg _
    ⟨trivial, ⟨trivial, trivial⟩, ⟨trivial, by simp [ErabsFit]⟩, ⟨trivial, trivial⟩, trivial,
      ⟨trivial, trivial⟩, trivial⟩

end Srsenb.Stack
