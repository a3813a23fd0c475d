import Srsenb.Base.Unwinding
import Srsenb.Stack.RrcIsolation

/-! # The users, each by itself

What RLC, PDCP, GTP-U and RRC keep for a user, and what leaves the layers for it, is up to its own
events, and to those that give and take RNTIs and PUCCH slots. -/

open Srsenb.Run
open Srsenb.StdMap (WorksOn worksOn_of_get worksOn_erase worksOn_modify worksOn_touch worksOn_update
  worksOn_id)

/-! ## The tables of the layers -/

namespace Srsenb.Rlc

variable {ρ : Type} (R : UserRlc ρ) (rnti lcid : Nat)

theorem readPdu_worksOn (nofBytes : Nat) :
    WorksOn rnti fun users => (readPdu R users rnti lcid nofBytes).1 := by
  refine worksOn_of_get fun o => ?_
  cases o with
  | none => exact .inl fun users h => by simp only [readPdu, h]
  | some u => exact .inr ⟨_, fun users h => by simp only [readPdu, h]; rfl⟩

theorem writePdu_worksOn (payload : Pdu) :
    WorksOn rnti fun users => (writePdu R users rnti lcid payload).1 := by
  refine worksOn_of_get fun o => ?_
  cases o with
  | none => exact .inl fun users h => by simp only [writePdu, h]
  | some u => exact .inr ⟨_, fun users h => by simp only [writePdu, h]; rfl⟩

/-- The SDUs on the way are of the same user. -/
theorem writePdu_user {users : StdMap ρ} {payload : Pdu} {rnti' lcid' : Nat} {sdu : Pdu}
    (h : .pdcpWritePdu rnti' lcid' sdu ∈ (writePdu R users rnti lcid payload).2) :
    rnti' = rnti := by
  unfold writePdu at h
  split at h
  · simp at h
  · simp only [List.mem_append, List.mem_map, List.mem_singleton, reduceCtorEq, or_false] at h
    obtain ⟨d, -, hd⟩ := h
    exact (Action.pdcpWritePdu.inj hd).1.symm

theorem writeSdu_worksOn (sdu : Pdu) :
    WorksOn rnti fun users => (writeSdu R users rnti lcid sdu).1 := by
  refine worksOn_of_get fun o => ?_
  cases o with
  | none => exact .inl fun users h => by simp only [writeSdu, h]
  | some u => exact .inr ⟨_, fun users h => by simp only [writeSdu, h]; rfl⟩

theorem addUser_worksOn : WorksOn rnti fun users => addUser R users rnti := by
  refine worksOn_of_get fun o => ?_
  cases o with
  | none => exact .inr ⟨_, fun users h => by simp only [addUser, h]; rfl⟩
  | some u => exact .inl fun users h => by simp [addUser, h]

end Srsenb.Rlc

namespace Srsenb.Pdcp

variable {π : Type} (P : UserPdcp π) (rnti lcid : Nat)

theorem writeSdu_worksOn (rbIsUm : Nat → Bool) (sdu : Pdu) :
    WorksOn rnti fun users => (writeSdu P users rnti lcid rbIsUm sdu).1 := by
  refine worksOn_of_get fun o => ?_
  cases o with
  | none => exact .inl fun users h => by simp only [writeSdu, h]
  | some u => exact .inr ⟨_, fun users h => by simp only [writeSdu, h]; rfl⟩

theorem writePdu_worksOn (sdu : Pdu) :
    WorksOn rnti fun users => (writePdu P users rnti lcid sdu).1 := by
  refine worksOn_of_get fun o => ?_
  cases o with
  | none => exact .inl fun users h => by simp only [writePdu, h]
  | some u => exact .inr ⟨_, fun users h => by simp only [writePdu, h]; rfl⟩

theorem addUser_worksOn : WorksOn rnti fun users => addUser P users rnti := by
  refine worksOn_of_get fun o => ?_
  cases o with
  | none => exact .inr ⟨_, fun users h => by simp only [addUser, h]; rfl⟩
  | some u => exact .inl fun users h => by simp [addUser, h]

end Srsenb.Pdcp

namespace Srsenb.Gtpu

theorem addBearer_worksOn (rnti : Rnti) (lcid : Lcid) (addr teidOut : Nat) :
    WorksOn rnti.val fun db => (addBearer db rnti lcid addr teidOut).1 := by
  have htouch : WorksOn rnti.val fun db : RntiBearers =>
      if db[rnti.val]?.isNone then db.touch rnti else db :=
    (worksOn_touch rnti.val).ite Option.isNone (worksOn_id rnti.val)
  simp only [addBearer]
  exact WorksOn.comp (g := fun m => StdMap.update m rnti.val _) (worksOn_update rnti.val _) htouch

end Srsenb.Gtpu

/-! ## What a user can see of the layers -/

namespace Srsenb.Stack

open Mac (MacState MacEvent MacAction)

variable {ρ π : Type} {E : Env ρ π} {st st' : State ρ π} {r k rnti lcid : Nat}

/-- The user `r` cannot tell two states apart. -/
structure Same (r : Nat) (st st' : State ρ π) : Prop where
  lastRnti : st.mac.lastRnti = st'.mac.lastRnti
  rrc : Rrc.Same r st.rrc st'.rrc
  rlc : st.rlc[r]? = st'.rlc[r]?
  pdcp : st.pdcp[r]? = st'.pdcp[r]?
  gtpu : st.gtpu[r]? = st'.gtpu[r]?
  sent : st.sent.filter (·.1 = r) = st'.sent.filter (·.1 = r)

namespace Same

theorem refl (r : Nat) (st : State ρ π) : Same r st st := ⟨rfl, .refl r _, rfl, rfl, rfl, rfl⟩

theorem symm (h : Same r st st') : Same r st' st :=
  ⟨h.lastRnti.symm, h.rrc.symm, h.rlc.symm, h.pdcp.symm, h.gtpu.symm, h.sent.symm⟩

theorem trans {st₁ st₂ st₃ : State ρ π} (h : Same r st₁ st₂) (h' : Same r st₂ st₃) :
    Same r st₁ st₃ :=
  ⟨h.lastRnti.trans h'.lastRnti, h.rrc.trans h'.rrc, h.rlc.trans h'.rlc, h.pdcp.trans h'.pdcp,
    h.gtpu.trans h'.gtpu, h.sent.trans h'.sent⟩

theorem equivalence (r : Nat) : Equivalence (Same (ρ := ρ) (π := π) r) := ⟨refl r, symm, trans⟩

end Same

/-- What is done for the user `k`, by what `k` sees. -/
structure WorksFor (k : Nat) (f : State ρ π → State ρ π) : Prop where
  other : ∀ st r, r ≠ k → Same r (f st) st
  own : ∀ st st', Same k st st' → Same k (f st) (f st')

/-- Nobody sees it. -/
def Unseen (f : State ρ π → State ρ π) : Prop := ∀ st r, Same r (f st) st

namespace WorksFor

theorem congr {f : State ρ π → State ρ π} (h : WorksFor k f) (hst : Same r st st') :
    Same r (f st) (f st') := by
  by_cases hr : r = k
  · subst hr
    exact h.own st st' hst
  · exact (h.other st r hr).trans (hst.trans (h.other st' r hr).symm)

theorem comp {f g : State ρ π → State ρ π} (hg : WorksFor k g) (hf : WorksFor k f) :
    WorksFor k fun st => g (f st) where
  other st r hr := (hg.other _ r hr).trans (hf.other st r hr)
  own st st' h := hg.own _ _ (hf.own st st' h)

end WorksFor

theorem Unseen.worksFor {f : State ρ π → State ρ π} (h : Unseen f) (k : Nat) : WorksFor k f where
  other st r _ := h st r
  own st st' hst := (h st k).trans (hst.trans (h st' k).symm)

theorem unseen_id : Unseen fun st : State ρ π => st := fun st r => .refl r st

namespace WorksFor

theorem foldl {α : Type} {G : State ρ π → α → State ρ π} {l : List α}
    (hG : ∀ a ∈ l, WorksFor k fun st => G st a) : WorksFor k fun st => l.foldl G st := by
  induction l with
  | nil => exact unseen_id.worksFor k
  | cons a l ih =>
    have hrest := ih fun b hb => hG b (List.mem_cons_of_mem a hb)
    exact hrest.comp (hG a List.mem_cons_self)

/-- What is asked for on the way is for `k` as well. -/
theorem acts {α : Type} {A : State ρ π → List α} {G : State ρ π → α → State ρ π}
    {f : State ρ π → State ρ π} (hf : WorksFor k f)
    (hA : ∀ st st', Same k st st' → A st = A st')
    (hG : ∀ st, ∀ a ∈ A st, WorksFor k fun st => G st a) :
    WorksFor k fun st => (A st).foldl G (f st) where
  other st r hr := ((foldl (hG st)).other _ r hr).trans (hf.other st r hr)
  own st st' h := by
    simp only [← hA st st' h]
    exact (foldl (hG st)).own _ _ (hf.own st st' h)

/-! ## RLC, PDCP and GTP-U -/

theorem setRlc {f : StdMap ρ → StdMap ρ} (hf : WorksOn k f) :
    WorksFor k fun st : State ρ π => { st with rlc := f st.rlc } where
  other st r hr := { Same.refl r st with rlc := hf.other st.rlc r hr }
  own st st' h := { h with rlc := hf.own st.rlc st'.rlc h.rlc }

theorem setPdcp {f : StdMap π → StdMap π} (hf : WorksOn k f) :
    WorksFor k fun st : State ρ π => { st with pdcp := f st.pdcp } where
  other st r hr := { Same.refl r st with pdcp := hf.other st.pdcp r hr }
  own st st' h := { h with pdcp := hf.own st.pdcp st'.pdcp h.pdcp }

theorem setGtpu {f : Gtpu.RntiBearers → Gtpu.RntiBearers} (hf : WorksOn k f) :
    WorksFor k fun st : State ρ π => { st with gtpu := f st.gtpu } where
  other st r hr := { Same.refl r st with gtpu := hf.other st.gtpu r hr }
  own st st' h := { h with gtpu := hf.own st.gtpu st'.gtpu h.gtpu }

theorem output (k : Nat) (o : Output) : WorksFor k fun st : State ρ π => st.output k o where
  other st r hr := by
    refine { Same.refl r st with sent := ?_ }
    simp [State.output, Ne.symm hr]
  own st st' h := by
    refine { h with sent := ?_ }
    simp [State.output, h.sent]

end WorksFor

/-- What is told to MAC and keeps the RNTI of the next user. -/
theorem Unseen.setMac {f : State ρ π → MacState} (hf : ∀ st, (f st).lastRnti = st.mac.lastRnti) :
    Unseen fun st : State ρ π => { st with mac := f st } :=
  fun st r => { Same.refl r st with lastRnti := hf st }

theorem rlcReports_unseen (acts : List Rlc.Action) :
    Unseen fun st : State ρ π => acts.foldl State.rlcReport st := by
  intro st r
  refine List.foldlRecOn (motive := fun st' : State ρ π => Same r st' st) _ _ (.refl r st)
    fun st' h a _ => ?_
  cases a with
  | rlcBufferState rnti lcid txQueue retxQueue =>
    refine { h with lastRnti := ?_ }
    rw [← h.lastRnti]
    simp only [State.rlcReport, MacState.rlcBufferState]
    split_ifs <;> rfl
  | _ => exact h

namespace WorksFor

theorem reports {f : State ρ π → State ρ π} (hf : WorksFor k f)
    (A : State ρ π → List Rlc.Action) :
    WorksFor k fun st => (A st).foldl State.rlcReport (f st) where
  other st r hr := (rlcReports_unseen (A st) _ r).trans (hf.other st r hr)
  own st st' h :=
    (rlcReports_unseen (A st) _ k).trans
      ((hf.own st st' h).trans (rlcReports_unseen (A st') _ k).symm)

theorem rlcReadPdu (k lcid nofBytes : Nat) :
    WorksFor k fun st : State ρ π => st.rlcReadPdu E k lcid nofBytes :=
  (setRlc (Rlc.readPdu_worksOn E.rlc k lcid nofBytes)).reports _

theorem rlcWriteSdu (k lcid : Nat) (sdu : Rlc.Pdu) :
    WorksFor k fun st : State ρ π => st.rlcWriteSdu E k lcid sdu :=
  (setRlc (Rlc.writeSdu_worksOn E.rlc k lcid sdu)).reports _

theorem rlcClearBuffer (k : Nat) : WorksFor k fun st : State ρ π => st.rlcClearBuffer E k :=
  (setRlc (worksOn_modify k E.rlc.emptyQueue)).reports _

theorem gtpuWritePdu (hk : k < 2 ^ 16) (lcid : Nat) (pdu : Gtpu.Pdu) :
    WorksFor k fun st : State ρ π => st.gtpuWritePdu k lcid pdu := by
  have hval : (State.rntiOf k).val = k := Nat.mod_eq_of_lt hk
  have htouch : WorksOn k fun db : Gtpu.RntiBearers => db.touch (State.rntiOf k).val := by
    rw [hval]
    exact worksOn_touch k
  refine (setGtpu htouch).acts (fun st st' h => ?_) fun st a _ => ?_
  · have hsub : StdMap.sub (st.gtpu.touch k) k = StdMap.sub (st'.gtpu.touch k) k := by
      rw [StdMap.sub_touch, StdMap.sub_touch, StdMap.sub_eq, StdMap.sub_eq, h.gtpu]
    simp only [hval, hsub]
  · cases a with
    | sendto addr teid pdu => exact output k _
    | writeSdu rnti lcid pdu => exact unseen_id.worksFor k

theorem pdcpAction (hk : k < 2 ^ 16) {a : Pdcp.Action} (ha : ∀ r ∈ a.user, r = k) :
    WorksFor k fun st => st.pdcpAction E a := by
  cases a with
  | rlcWriteSdu rnti lcid sdu =>
    obtain rfl : rnti = k := ha rnti rfl
    exact rlcWriteSdu rnti lcid sdu
  | rrcWritePdu rnti lcid pdu =>
    obtain rfl : rnti = k := ha rnti rfl
    exact output rnti _
  | gtpuWritePdu rnti lcid pdu =>
    obtain rfl : rnti = k := ha rnti rfl
    exact gtpuWritePdu hk lcid pdu
  | deallocate sdu => exact unseen_id.worksFor k

/-- What RLC answers is part of what the user sees. -/
theorem rbIsUm (h : Same k st st') (E : Env ρ π) :
    Rlc.rbIsUm E.rlc st.rlc k = Rlc.rbIsUm E.rlc st'.rlc k := by
  ext lcid
  rw [Rlc.rbIsUm, Rlc.rbIsUm, h.rlc]

/-- What PDCP writes, with what RLC answers. -/
theorem pdcpWritten (k lcid : Nat) (sdu : Pdcp.Pdu) : WorksFor k fun st : State ρ π =>
    { st with
      pdcp := (Pdcp.writeSdu E.pdcp st.pdcp k lcid (Rlc.rbIsUm E.rlc st.rlc k) sdu).1 } where
  other st r hr := by
    have hwrite := Pdcp.writeSdu_worksOn E.pdcp k lcid (Rlc.rbIsUm E.rlc st.rlc k) sdu
    exact (setPdcp hwrite).other st r hr
  own st st' h := by
    have hwrite := Pdcp.writeSdu_worksOn E.pdcp k lcid (Rlc.rbIsUm E.rlc st.rlc k) sdu
    rw [← rbIsUm h E]
    exact (setPdcp hwrite).own st st' h

theorem pdcpWriteSdu (hk : k < 2 ^ 16) (lcid : Nat) (sdu : Pdcp.Pdu) :
    WorksFor k fun st => st.pdcpWriteSdu E k lcid sdu := by
  have hwrite := pdcpWritten (E := E) k lcid sdu
  refine hwrite.acts (fun st st' h => ?_) fun st a ha => pdcpAction hk fun r hr => ?_
  · rw [← rbIsUm h E]
    simp only [h.pdcp]
    split <;> rfl
  · exact (Pdcp.writeSdu_user E.pdcp st.pdcp k lcid _ sdu a ha r hr).1

theorem pdcpWritePdu (hk : k < 2 ^ 16) (lcid : Nat) (sdu : Pdcp.Pdu) :
    WorksFor k fun st => st.pdcpWritePdu E k lcid sdu := by
  refine (setPdcp (Pdcp.writePdu_worksOn E.pdcp k lcid sdu)).acts (fun st st' h => ?_)
    fun st a ha => pdcpAction hk fun r hr => ?_
  · simp only [h.pdcp]
    split <;> rfl
  · exact (Pdcp.writePdu_user E.pdcp st.pdcp k lcid sdu a ha r hr).1

theorem rlcWritePdu (hk : k < 2 ^ 16) (lcid : Nat) (payload : Rlc.Pdu) :
    WorksFor k fun st => st.rlcWritePdu E k lcid payload := by
  refine (setRlc (Rlc.writePdu_worksOn E.rlc k lcid payload)).acts (fun st st' h => ?_)
    fun st a ha => ?_
  · simp only [h.rlc]
    split <;> rfl
  · cases a with
    | pdcpWritePdu rnti lcid sdu =>
      obtain rfl := Rlc.writePdu_user E.rlc k _ ha
      exact pdcpWritePdu hk lcid sdu
    | rlcBufferState rnti lcid txQueue retxQueue =>
      exact Unseen.worksFor (rlcReports_unseen [.rlcBufferState rnti lcid txQueue retxQueue]) k
    | deallocate sdu => exact unseen_id.worksFor k

/-- The user of a G-PDU. -/
theorem gtpuDataPdu (teid : Nat) (pdu : Gtpu.Pdu) :
    WorksFor (Gtpu.teidinToRntilcid teid).1 fun st => st.gtpuDataPdu E teid pdu := by
  have hlt : (Gtpu.teidinToRntilcid teid).1 < 2 ^ 16 := by
    rw [Gtpu.teidinToRntilcid_eq]
    exact Nat.mod_lt _ (by decide)
  refine acts (unseen_id.worksFor _) (fun st st' h => ?_) fun st a ha => ?_
  · simp only [Gtpu.dataPdu, h.gtpu]
  · cases a with
    | writeSdu rnti lcid pdu =>
      have hr : rnti = (Gtpu.teidinToRntilcid teid).1 := by
        simp only [Gtpu.dataPdu] at ha
        split_ifs at ha
        · simp at ha
        · simp at ha
        · exact (Gtpu.Action.writeSdu.inj (List.mem_singleton.mp ha)).1
      subst hr
      exact pdcpWriteSdu hlt lcid pdu
    | sendto addr teid pdu => exact unseen_id.worksFor _

/-! ## RRC -/

theorem rrcAction (hk : k < 2 ^ 16) {a : Rrc.Action} (ha : a.user = some k) :
    WorksFor k fun st => st.rrcAction E a := by
  have hval : (State.rntiOf k).val = k := Nat.mod_eq_of_lt hk
  cases a with
  | dlCcch rnti msg | dlDcch rnti msg =>
    obtain rfl := Option.some.inj ha
    exact pdcpWriteSdu hk _ _
  | macUeCfg rnti srI srNPucch cqiIdx cqiPucch cqiEnabled =>
    refine (Unseen.setMac fun st => ?_).worksFor k
    simp only [MacState.ueCfg]
    split <;> rfl
  | macPhyConfigEnabled rnti enabled =>
    refine (Unseen.setMac (f := fun st => st.mac.phyConfigEnabled rnti enabled) ?_).worksFor k
    exact fun st => rfl
  | macBearerUeCfg rnti lcid =>
    refine (Unseen.setMac fun st => ?_).worksFor k
    simp only [MacState.bearerUeCfg]
    split_ifs <;> rfl
  | macUeRem rnti =>
    refine (Unseen.setMac fun st => ?_).worksFor k
    simp only [MacState.ueRem]
    split_ifs <;> rfl
  | rlcAddUser rnti =>
    obtain rfl := Option.some.inj ha
    exact setRlc (Rlc.addUser_worksOn E.rlc rnti)
  | rlcAddBearer rnti lcid =>
    obtain rfl := Option.some.inj ha
    exact setRlc (worksOn_modify rnti _)
  | rlcClearBuffer rnti =>
    obtain rfl := Option.some.inj ha
    exact rlcClearBuffer rnti
  | rlcRemUser rnti =>
    obtain rfl := Option.some.inj ha
    exact setRlc (worksOn_erase rnti)
  | pdcpAddUser rnti =>
    obtain rfl := Option.some.inj ha
    exact setPdcp (Pdcp.addUser_worksOn E.pdcp rnti)
  | pdcpAddBearer rnti lcid =>
    obtain rfl := Option.some.inj ha
    exact setPdcp (worksOn_modify rnti _)
  | pdcpConfigSecurity rnti lcid key =>
    obtain rfl := Option.some.inj ha
    exact setPdcp (worksOn_modify rnti _)
  | pdcpRemUser rnti =>
    obtain rfl := Option.some.inj ha
    exact setPdcp (worksOn_erase rnti)
  | gtpuAddBearer rnti lcid addr teidOut =>
    obtain rfl := Option.some.inj ha
    have hwork := Gtpu.addBearer_worksOn (State.rntiOf rnti) (State.lcidOf lcid) addr teidOut
    rw [hval] at hwork
    exact setGtpu hwork
  | gtpuRemUser rnti =>
    obtain rfl := Option.some.inj ha
    have hwork : WorksOn rnti fun db => Gtpu.remUser db (State.rntiOf rnti) := by
      simp only [Gtpu.remUser, hval]
      exact worksOn_erase rnti
    exact setGtpu hwork
  | _ => cases ha

/-- An action for no user. -/
theorem rrcAction_none {a : Rrc.Action} (ha : a.user = none) :
    Unseen fun st : State ρ π => st.rrcAction E a := by
  cases a with
  | phySetConfigDedicated _ | phySetConfDedicatedAck _ _ | userConnected _ => exact unseen_id
  | remUserThread _ | s1apInitialUe _ _ _ _ | s1apWritePdu _ _ => exact unseen_id
  | s1apUserRelease _ | s1apUeCtxtSetupComplete _ _ | s1apUeErabSetupComplete _ _ => exact unseen_id
  | _ => cases ha

end WorksFor

/-- What RRC asks for is opaque to the users it is not for. -/
theorem rrcAction_unwinds (E : Env ρ π) (r : Nat) :
    Unwinds (State.rrcAction E) (fun _ => True) (fun _ a => ∀ k ∈ a.user, k < 2 ^ 16)
      (Same (ρ := ρ) (π := π) r) fun a => a.user = some r where
  equiv := Same.equivalence r
  keeps _ _ _ _ := trivial
  hidden st a _ hC hr := by
    rw [decide_eq_false_iff_not] at hr
    cases ha : a.user with
    | none => exact WorksFor.rrcAction_none ha st r
    | some k =>
      refine (WorksFor.rrcAction (hC k ha) ha).other st r ?_
      rintro rfl
      exact hr ha
  seen st st' a _ _ hC hr h := by
    have ha := of_decide_eq_true hr
    exact ⟨hC, (WorksFor.rrcAction (hC r ha) ha).own st st' h⟩

/-- The users of RRC have an RNTI of 16 bits. -/
def SmallRntis (s : Rrc.State) : Prop := ∀ k : Nat, s.users[k]?.isSome = true → k < 2 ^ 16

section Calls

variable {e : Rrc.Event}

theorem SmallRntis.acts {s : Rrc.State} (h : SmallRntis s)
    (he : ∀ k, e = .addUser k → k < 2 ^ 16) (st : State ρ π) :
    AllSteps (State.rrcAction E) (fun _ a => ∀ k ∈ a.user, k < 2 ^ 16) st
      (Rrc.handle s e).acts := by
  refine allSteps_iff_split.mpr fun pre a post hacts k hk => ?_
  have ha : a ∈ (Rrc.handle s e).acts := by
    rw [hacts]
    simp
  obtain hthere | hadd := Rrc.handle_acts_there s e a ha k hk
  · exact h k hthere
  · exact he k hadd

theorem rrcCall_congr (hs : SmallRntis st.rrc) (hs' : SmallRntis st'.rrc) (h : Same r st st')
    (he : ∀ k, e = .addUser k → k < 2 ^ 16) :
    Same r (st.rrcCall E e) (st'.rrcCall E e) := by
  obtain ⟨hrrc, hacts⟩ := h.rrc.handle e
  have hstart : Same r { st with rrc := (Rrc.handle st.rrc e).st }
      { st' with rrc := (Rrc.handle st'.rrc e).st } := { h with rrc := hrrc }
  exact (rrcAction_unwinds E r).same_of_filter trivial trivial hstart (hs.acts he _)
    (hs'.acts he _) hacts

/-- What RRC does for others. -/
theorem rrcCall_hidden (hs : SmallRntis st.rrc) (hr : e.concerns r = false) :
    Same r (st.rrcCall E e) st := by
  have he : ∀ k, e = .addUser k → k < 2 ^ 16 := by
    rintro k rfl
    cases hr
  obtain ⟨hrrc, hacts⟩ := Rrc.handle_hidden st.rrc hr
  have hstart : Same r { st with rrc := (Rrc.handle st.rrc e).st } st :=
    { Same.refl r st with rrc := hrrc }
  have hpurge := (rrcAction_unwinds E r).purge trivial trivial hstart (hs.acts he _)
  have hnil : (Rrc.handle st.rrc e).acts.filter (fun a => decide (a.user = some r)) = [] :=
    List.filter_eq_nil_iff.mpr fun a ha hr => hacts a ha (of_decide_eq_true hr)
  rw [hnil] at hpurge
  exact hpurge

end Calls

/-! ## MAC -/

end Srsenb.Stack

namespace Srsenb.Mac.MacState

variable {lib : Lib} {locations : Nat → Nat → Nat → DciCce}

/-- The RNTI of the next user is kept by a call that makes none. -/
theorem handle_lastRnti_eq (m : MacState) {e : MacEvent} (he : m.resets e = none) :
    (m.handle lib locations e).st.lastRnti = m.lastRnti := by
  have honUe : ∀ {rnti : Nat} {f : MacState → MacOut}, (f m).st.lastRnti = m.lastRnti →
      (m.onUe rnti f).st.lastRnti = m.lastRnti := by
    intro rnti f hf
    unfold onUe
    split_ifs
    · exact hf
    · rfl
  cases e with
  | rachDetected tti preambleIdx timeAdv => cases he
  | ueRem rnti => cases he
  | addMbmsUser => rfl
  | ueCfg rnti cfg bearers =>
    simp only [handle, ueCfg]
    split <;> rfl
  | rlFailure rnti =>
    refine honUe ?_
    simp only
    split_ifs <;> rfl
  | ackInfo tti rnti tb ack => rfl
  | _ => exact honUe rfl

theorem ulGrant_lastRnti (tti : Nat) (pusch : List UlSchedData) (buffers : Nat → Option Nat)
    (out : UlSchedOut) (d : UlSchedData) :
    (ulGrant tti pusch buffers out d).st.lastRnti = out.st.lastRnti := by
  unfold ulGrant
  split_ifs
  · cases out.st.ueDb[d.rnti]? <;> rfl
  · rfl

theorem getUlSched_lastRnti (m : MacState) (tti : Nat) (buffers : Nat → Option Nat) :
    (m.getUlSched lib tti buffers).st.lastRnti = m.lastRnti :=
  List.foldlRecOn (motive := fun out : UlSchedOut => out.st.lastRnti = m.lastRnti) _ _ rfl
    fun out h d _ => (ulGrant_lastRnti tti _ buffers out d).trans h

end Srsenb.Mac.MacState

namespace Srsenb.Stack

open Mac (MacState MacEvent MacAction)

variable {ρ π : Type} {E : Env ρ π} {st st' : State ρ π} {r : Nat} {S T : Set Nat}

/-- A call of MAC that makes no user. -/
theorem macCall_hidden {e : MacEvent} (he : st.mac.resets e = none) :
    Same r (st.macCall E e) st := by
  have hstart : Same r { st with mac := (st.mac.handle E.lib E.locations e).st } st :=
    { Same.refl r st with lastRnti := st.mac.handle_lastRnti_eq he }
  refine List.foldlRecOn (motive := fun st' : State ρ π => Same r st' st) _ _ hstart
    fun st' h a ha => ?_
  cases a with
  | rrcAddUser rnti => exact absurd ha (MacState.handle_acts he rnti)
  | _ => exact h

/-- A new user of MAC, taken to RRC. -/
theorem addUser_congr {m m' : MacState} (hs : SmallRntis st.rrc) (hs' : SmallRntis st'.rrc)
    (h : Same r st st') (hm : m.lastRnti = m'.lastRnti) {rnti : Nat} (hrnti : rnti < 2 ^ 16) :
    Same r ({ st with mac := m }.rrcCall E (.addUser rnti))
      ({ st' with mac := m' }.rrcCall E (.addUser rnti)) := by
  have hsame : Same r { st with mac := m } { st' with mac := m' } := { h with lastRnti := hm }
  refine rrcCall_congr hs hs' hsame fun k hk => ?_
  rw [← Rrc.Event.addUser.inj hk]
  exact hrnti

theorem rachDetected_congr (hs : SmallRntis st.rrc) (hs' : SmallRntis st'.rrc) (h : Same r st st')
    (hlast : st.mac.lastRnti < 2 ^ 16) (tti preambleIdx timeAdv : Nat) :
    Same r (st.macCall E (.rachDetected tti preambleIdx timeAdv))
      (st'.macCall E (.rachDetected tti preambleIdx timeAdv)) := by
  obtain ⟨hacts, -, hnext⟩ :=
    MacState.rachDetected_eq E.lib E.locations st.mac tti preambleIdx timeAdv
  obtain ⟨hacts', -, hnext'⟩ :=
    MacState.rachDetected_eq E.lib E.locations st'.mac tti preambleIdx timeAdv
  unfold State.macCall MacState.handle
  simp only [hacts, hacts', List.foldl_cons, List.foldl_nil, State.macAction, ← h.lastRnti]
  refine addUser_congr hs hs' h ?_ hlast
  rw [hnext, hnext', h.lastRnti]

theorem addMbmsUser_congr (hs : SmallRntis st.rrc) (hs' : SmallRntis st'.rrc)
    (h : Same r st st') : Same r (st.macCall E .addMbmsUser) (st'.macCall E .addMbmsUser) := by
  have hlast : st.mac.addMbmsUser.st.lastRnti = st'.mac.addMbmsUser.st.lastRnti := h.lastRnti
  have hrnti : mrnti < 2 ^ 16 := by decide
  exact addUser_congr hs hs' h hlast hrnti

/-! ## Events -/

/-- The events that the user `r` can notice: its own, and those that give or take RNTIs and PUCCH
slots. -/
def Event.concerns (r : Nat) : Event → Bool
  | .mac (.rachDetected _ _ _) | .mac .addMbmsUser => true
  | .mac _ | .getDlSched _ _ _ | .getUlSched _ _ | .ulBsr _ _ _ _ => false
  | .readPdu rnti _ _ | .writePdu rnti _ _ => rnti = r
  | .dataPdu teid _ => (Gtpu.teidinToRntilcid teid).1 = r
  | .rrc e => e.concerns r

theorem Users.smallRntis (h : Users S st) : SmallRntis st.rrc := fun k hk =>
  h.rntis k (h.rrc ▸ StdMap.mem_dom.mpr hk)

/-- A PDU for an RNTI that no user has. -/
theorem Users.writePdu_absent (h : Users S st) {rnti : Nat} (hrnti : rnti ∉ S) (lcid : Nat)
    (payload : Rlc.Pdu) : st.rlcWritePdu E rnti lcid payload = st := by
  have hnone : st.rlc[rnti]? = none := by
    rw [← StdMap.notMem_dom, h.rlc]
    exact hrnti
  simp only [State.rlcWritePdu, Rlc.writePdu, hnone, List.foldl_nil]

/-- An event that does not concern `r`. -/
theorem step_hidden (h : Users S st) {e : Event} (hC : Allowed st e) (hr : e.concerns r = false) :
    Same r (step E st e) st := by
  cases e with
  | mac e =>
    cases e with
    | rachDetected tti preambleIdx timeAdv => cases hr
    | addMbmsUser => cases hr
    | ueRem rnti | ueCfg rnti cfg bearers => exact hC.elim
    | _ => exact macCall_hidden rfl
  | getDlSched tti paging generatePdu =>
    exact Unseen.setMac (f := fun st => (st.mac.getDlSched E.lib tti paging generatePdu).1)
      (fun _ => rfl) st r
  | getUlSched tti buffers =>
    exact Unseen.setMac (f := fun st => (st.mac.getUlSched E.lib tti buffers).st)
      (fun st => st.mac.getUlSched_lastRnti tti buffers) st r
  | ulBsr rnti lcid bsr setValue =>
    exact Unseen.setMac
      (f := fun st => { st.mac with sched := st.mac.sched.ulBsr rnti lcid bsr setValue })
      (fun _ => rfl) st r
  | readPdu rnti lcid nofBytes =>
    have hne : r ≠ rnti := fun heq => of_decide_eq_false hr heq.symm
    exact (WorksFor.rlcReadPdu rnti lcid nofBytes).other st r hne
  | writePdu rnti lcid payload =>
    have hne : r ≠ rnti := fun heq => of_decide_eq_false hr heq.symm
    by_cases hrnti : rnti < 2 ^ 16
    · exact (WorksFor.rlcWritePdu hrnti lcid payload).other st r hne
    · rw [step, h.writePdu_absent fun hthere => hrnti (h.rntis rnti hthere)]
      exact .refl r st
  | dataPdu teid pdu =>
    have hne : r ≠ (Gtpu.teidinToRntilcid teid).1 := fun heq => of_decide_eq_false hr heq.symm
    exact (WorksFor.gtpuDataPdu teid pdu).other st r hne
  | rrc e => exact rrcCall_hidden h.smallRntis hr

/-- An event of concern. -/
theorem step_seen (h : Users S st) (h' : Users T st') {e : Event} (hC : Allowed st e)
    (hr : e.concerns r = true) (hst : Same r st st') :
    Allowed st' e ∧ Same r (step E st e) (step E st' e) := by
  cases e with
  | mac e =>
    cases e with
    | rachDetected tti preambleIdx timeAdv =>
      exact ⟨trivial, rachDetected_congr h.smallRntis h'.smallRntis hst h.lastRnti _ _ _⟩
    | addMbmsUser =>
      exact ⟨trivial, addMbmsUser_congr h.smallRntis h'.smallRntis hst⟩
    | _ => cases hr
  | getDlSched tti paging generatePdu => cases hr
  | getUlSched tti buffers => cases hr
  | ulBsr rnti lcid bsr setValue => cases hr
  | readPdu rnti lcid nofBytes =>
    exact ⟨trivial, (WorksFor.rlcReadPdu rnti lcid nofBytes).congr hst⟩
  | writePdu rnti lcid payload =>
    refine ⟨trivial, ?_⟩
    by_cases hrnti : rnti < 2 ^ 16
    · exact (WorksFor.rlcWritePdu hrnti lcid payload).congr hst
    · rw [step, step, h.writePdu_absent fun hthere => hrnti (h.rntis rnti hthere),
        h'.writePdu_absent fun hthere => hrnti (h'.rntis rnti hthere)]
      exact hst
  | dataPdu teid pdu => exact ⟨trivial, (WorksFor.gtpuDataPdu teid pdu).congr hst⟩
  | rrc e =>
    cases e with
    | addUser rnti => exact hC.elim
    | _ => exact ⟨trivial, rrcCall_congr h.smallRntis h'.smallRntis hst (by simp)⟩

/-- The layers are opaque to each user. -/
theorem step_unwinds (E : Env ρ π) (r : Nat) :
    Unwinds (step E) (fun st => ∃ S, Users S st) Allowed (Same r) (Event.concerns r) where
  equiv := Same.equivalence r
  keeps _ _ := fun ⟨_, h⟩ hC => h.step hC
  hidden _ _ := fun ⟨_, h⟩ hC hr => step_hidden h hC hr
  seen _ _ _ := fun ⟨_, h⟩ ⟨_, h'⟩ hC hr hst => step_seen h h' hC hr hst

end Srsenb.Stack
