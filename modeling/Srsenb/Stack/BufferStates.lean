import Srsenb.Base.Funds
import Srsenb.Mac.DemandCalls
import Srsenb.Stack.StackUsers

/-! # Buffer states

There is no polling: the scheduler knows of the queues of RLC what RLC reports each time that it
reads or writes. What it believes to be there is there. -/

open Srsenb.Run

/-! ## The queues of RLC -/

namespace Srsenb.Rlc

/-- The entities work on one channel at a time, of the channels that there are. A bearer that is
added takes nothing from a queue, and a size has room in an `int`. -/
structure UserRlc.Lawful {ρ : Type} (R : UserRlc ρ) : Prop where
  room : ∀ u lcid, R.getTotalBufferState u lcid < 2 ^ 31
  channels : ∀ u lcid, nofRadioBearers ≤ lcid → R.getTotalBufferState u lcid = 0
  addBearer : ∀ u lcid l,
    R.getTotalBufferState u l ≤ R.getTotalBufferState (R.addBearer u lcid) l
  readPdu : ∀ u lcid n, ∀ l ≠ lcid,
    R.getTotalBufferState u l ≤ R.getTotalBufferState (R.readPdu u lcid n).1 l
  writePdu : ∀ u lcid payload, ∀ l ≠ lcid,
    R.getTotalBufferState u l ≤ R.getTotalBufferState (R.writePdu u lcid payload).1 l
  writeSdu : ∀ u lcid sdu, ∀ l ≠ lcid,
    R.getTotalBufferState u l ≤ R.getTotalBufferState (R.writeSdu u lcid sdu) l

variable {ρ : Type} (R : UserRlc ρ)

/-- The bytes that wait on a channel of a user. -/
def queue (users : StdMap ρ) (k : Nat × Nat) : Int :=
  (users[k.1]?).elim 0 fun u => (R.getTotalBufferState u k.2 : Int)

variable {users : StdMap ρ} {rnti : Nat} {u : ρ}

theorem queue_some (hu : users[rnti]? = some u) (lcid : Nat) :
    queue R users (rnti, lcid) = R.getTotalBufferState u lcid := by
  rw [queue, hu]
  rfl

theorem queue_insert (k : Nat × Nat) : queue R (users.insert rnti u) k =
    if rnti = k.1 then (R.getTotalBufferState u k.2 : Int) else queue R users k := by
  unfold queue
  rw [StdMap.getElem?_insert]
  split_ifs <;> rfl

theorem queue_modify (f : ρ → ρ) (k : Nat × Nat) : queue R (users.modify rnti f) k =
    if rnti = k.1 then (users[k.1]?).elim 0 fun u => (R.getTotalBufferState (f u) k.2 : Int)
    else queue R users k := by
  unfold queue
  rw [StdMap.getElem?_modify]
  split_ifs
  · cases users[k.1]? <;> rfl
  · rfl

theorem queue_nonneg (k : Nat × Nat) : 0 ≤ queue R users k := by
  unfold queue
  cases users[k.1]? with
  | none => exact le_rfl
  | some u => exact Int.natCast_nonneg _

end Srsenb.Rlc

/-! ## The reports -/

namespace Srsenb.Mac.MacState

open Sched (WellKept AsksNoMore demandOf)

variable {m : MacState} {rnti txQueue : Nat}

/-- A report sets one channel, of a user that is there, and nothing for the user of MBMS. -/
theorem rlcBufferState_reports (lcid : Nat) (hagree : m.UsersAgree) (h : WellKept m.sched.ueDb)
    (hmbms : ∀ l, demandOf m.sched.ueDb (mrnti, l) ≤ 0) (htx : rnti ≠ mrnti → txQueue < 2 ^ 31) :
    WellKept (m.rlcBufferState rnti lcid txQueue 0).sched.ueDb ∧
      (∀ k ≠ (rnti, lcid % 2 ^ 8), demandOf (m.rlcBufferState rnti lcid txQueue 0).sched.ueDb k =
        demandOf m.sched.ueDb k) ∧
      demandOf (m.rlcBufferState rnti lcid txQueue 0).sched.ueDb (rnti, lcid % 2 ^ 8) ≤
        if rnti = mrnti then 0 else txQueue := by
  unfold rlcBufferState
  split_ifs with hthere hr hr
  · exact absurd hr hthere.2
  · have hsize : i32 txQueue = txQueue := i32_of_range (by omega) (by have := htx hr; omega)
    have hzero : i32 0 = 0 := rfl
    have hmod : Sched.Modifies (fun b => { b with bufTx := i32 txQueue, bufRetx := i32 0 }) rnti
        (lcid % 2 ^ 8) m.sched.ueDb (m.sched.dlRlcBufferState rnti lcid txQueue 0).1.ueDb := by
      refine Sched.indicate_modifies _ _ (fun _ => ⟨rfl, rfl⟩) (fun _ _ => ⟨?_, hzero.ge⟩) h
      rw [hsize]
      exact Int.natCast_nonneg _
    refine ⟨hmod.wellKept, hmod.other, ?_⟩
    rcases hmod.this with hgone | ⟨b, -, heq⟩
    · rw [hgone]
      exact Int.natCast_nonneg _
    · rw [heq, UeBearer.demand, hsize]
      exact (Int.zero_add _).le
  · exact ⟨h, fun _ _ => rfl, hr ▸ hmbms _⟩
  · refine ⟨h, fun _ _ => rfl, ?_⟩
    have hgone : m.sched.ueDb[rnti]? = none := by
      rw [← Option.not_isSome_iff_eq_none, ← hagree.keys rnti hr]
      exact fun hsome => hthere ⟨hsome, hr⟩
    rw [Sched.demandOf_none hgone]
    exact Int.natCast_nonneg _

/-! ## Other calls -/

theorem phyConfigEnabled_asks (m : MacState) (rnti : Nat) (enabled : Bool) :
    AsksNoMore m.sched.ueDb (m.phyConfigEnabled rnti enabled).sched.ueDb := by
  have hsame : Sched.SameDemand m.sched.ueDb (m.phyConfigEnabled rnti enabled).sched.ueDb :=
    Sched.indicate_demand m.sched rnti (f := fun u =>
      { u with dlCqiTti := m.sched.currentTti, phyConfigDedicatedEnabled := enabled })
      fun _ => ⟨rfl, rfl⟩
  exact hsame.asksNoMore

theorem bearerUeCfg_asks (m : MacState) (rnti lcid : Nat) (direction : Direction) :
    AsksNoMore m.sched.ueDb (m.bearerUeCfg rnti lcid direction).sched.ueDb := by
  unfold bearerUeCfg
  split_ifs
  · exact Sched.bearerUeCfg_asks _ _ _ _
  · exact .refl _

/-- For a user that was removed there is nothing to ask for. -/
theorem ueRem_demand (hagree : m.UsersAgree) (hmbms : ∀ l, demandOf m.sched.ueDb (mrnti, l) ≤ 0)
    (rnti l : Nat) : demandOf (m.ueRem rnti).st.sched.ueDb (rnti, l) ≤ 0 := by
  have hgone : m.sched.ueDb[rnti]? = none → demandOf m.sched.ueDb (rnti, l) ≤ 0 := fun h =>
    (Sched.demandOf_none h l).le
  unfold ueRem
  split_ifs with hthere
  · simp only [Sched.ueRem]
    split_ifs with hsched
    · exact (Sched.demandOf_none (by simp) l).le
    · exact hgone (Option.not_isSome_iff_eq_none.mp hsched)
  · by_cases hr : rnti = mrnti
    · exact hr ▸ hmbms l
    · rw [hagree.keys rnti hr] at hthere
      exact hgone (Option.not_isSome_iff_eq_none.mp hthere)

end Srsenb.Mac.MacState

/-! ## The books of the scheduler -/

namespace Srsenb.Stack

open Mac (MacState MacEvent MacAction)
open Mac.Sched (WellKept AsksNoMore demandOf)
open Rlc (queue queue_some queue_insert queue_modify queue_nonneg nofRadioBearers)

variable {ρ π : Type} {E : Env ρ π} {st st' : State ρ π} {T : Set (Nat × Nat)} {rnti lcid : Nat}

/-- The scheduler believes in no bytes that RLC does not have, but for the channels in `T`. RLC
reports nothing of the user of MBMS. -/
structure Backed (E : Env ρ π) (T : Set (Nat × Nat)) (st : State ρ π) : Prop where
  agree : st.mac.UsersAgree
  wellKept : WellKept st.mac.sched.ueDb
  mbms : ∀ l, demandOf st.mac.sched.ueDb (mrnti, l) ≤ 0
  covered : CoveredOff T (demandOf st.mac.sched.ueDb) (queue E.rlc st.rlc)

/-- A channel that RLC has. -/
def channel (rnti lcid : Nat) : Set (Nat × Nat) := {k | k = (rnti, lcid) ∧ lcid < nofRadioBearers}

namespace Backed

theorem congr (h : Backed E T st) (hmac : st'.mac = st.mac) (hrlc : st'.rlc = st.rlc) :
    Backed E T st' where
  agree := hmac ▸ h.agree
  wellKept := hmac ▸ h.wellKept
  mbms := hmac ▸ h.mbms
  covered := by
    rw [hmac, hrlc]
    exact h.covered

theorem mono {T' : Set (Nat × Nat)} (h : Backed E T st) (hT : T ⊆ T') : Backed E T' st :=
  { h with covered := h.covered.mono hT }

/-- A call of MAC. -/
theorem setMac (h : Backed E T st) {m : MacState} (hagree : m.UsersAgree)
    (hasks : AsksNoMore st.mac.sched.ueDb m.sched.ueDb) : Backed E T { st with mac := m } := by
  obtain ⟨hkept, hle⟩ := hasks h.wellKept
  exact ⟨hagree, hkept, fun l => (hle _).trans (h.mbms l), h.covered.giveUp hle⟩

/-- No queue of RLC gets shorter. -/
theorem setRlc (h : Backed E T st) {rlc : StdMap ρ}
    (hle : ∀ k, queue E.rlc st.rlc k ≤ queue E.rlc rlc k) : Backed E T { st with rlc := rlc } :=
  { h with covered := h.covered.deposit hle }

/-- An entity works on one channel. -/
theorem touch (hrlc : E.rlc.Lawful) (h : Backed E ∅ st) {u u' : ρ} (hu : st.rlc[rnti]? = some u)
    (hle : rnti ≠ mrnti → ∀ l ≠ lcid,
      E.rlc.getTotalBufferState u l ≤ E.rlc.getTotalBufferState u' l) :
    Backed E (channel rnti lcid) { st with rlc := st.rlc.insert rnti u' } := by
  have hdraw : CoveredOff (∅ ∪ ({k | k.1 = mrnti} ∪ channel rnti lcid))
      (demandOf st.mac.sched.ueDb) (queue E.rlc (st.rlc.insert rnti u')) := by
    refine h.covered.draw fun k hk => ?_
    rw [queue_insert]
    split_ifs with heq
    · obtain ⟨r, l⟩ := k
      obtain rfl : rnti = r := heq
      have hmbms : rnti ≠ mrnti := fun heq => hk (Or.inl heq)
      rw [queue_some E.rlc hu, Int.ofNat_le]
      by_cases hl : l = lcid
      · subst hl
        have hnone : nofRadioBearers ≤ l := not_lt.mp fun hlt => hk (Or.inr ⟨rfl, hlt⟩)
        rw [hrlc.channels u l hnone]
        exact Nat.zero_le _
      · exact hle hmbms l hl
    · exact le_rfl
  have hreport : CoveredOff (_ \ {k | k.1 = mrnti}) (demandOf st.mac.sched.ueDb)
      (queue E.rlc (st.rlc.insert rnti u')) := hdraw.report
    (fun k hk => le_trans (hk ▸ h.mbms k.2 : demandOf _ (k.1, k.2) ≤ 0) (queue_nonneg _ _))
    fun _ _ => le_rfl
  refine { h with covered := hreport.mono ?_ }
  rintro k ⟨hk, hne⟩
  exact (hk.resolve_left id).resolve_left hne

/-- A report brings its channel up to date. -/
theorem rlcReport (h : Backed E T st) {txQueue : Nat}
    (hqueue : rnti ≠ mrnti → txQueue < 2 ^ 31 ∧ (txQueue : Int) ≤ queue E.rlc st.rlc (rnti, lcid) ∧
      (nofRadioBearers ≤ lcid → txQueue = 0)) :
    Backed E (T \ channel rnti lcid) (st.rlcReport (.rlcBufferState rnti lcid txQueue 0)) := by
  have hagree := (MacState.rlcBufferState_same st.mac rnti lcid txQueue 0).agree h.agree
  obtain ⟨hkept, hother, hthis⟩ := MacState.rlcBufferState_reports lcid h.agree h.wellKept h.mbms
    fun hr => (hqueue hr).1
  have hle : ∀ k ∉ channel rnti lcid,
      demandOf (st.mac.rlcBufferState rnti lcid txQueue 0).sched.ueDb k ≤
        demandOf st.mac.sched.ueDb k := by
    intro k hk
    by_cases hkey : k = (rnti, lcid % 2 ^ 8)
    · subst hkey
      refine le_trans ?_ (h.wellKept.demand _)
      split_ifs at hthis with hr
      · exact hthis
      · have hnone : nofRadioBearers ≤ lcid := by
          refine not_lt.mp fun hlt => hk ⟨?_, hlt⟩
          rw [Nat.mod_eq_of_lt (hlt.trans (by decide))]
        have hzero := (hqueue hr).2.2 hnone
        exact hthis.trans (by omega)
    · exact (hother k hkey).le
  refine ⟨hagree, hkept, fun l => ?_, h.covered.report ?_ hle⟩
  · by_cases hkey : (mrnti, l) = (rnti, lcid % 2 ^ 8)
    · rw [if_pos (Prod.mk.inj hkey).1.symm] at hthis
      exact hkey ▸ hthis
    · exact (hother _ hkey).trans_le (h.mbms l)
  · rintro k ⟨rfl, hlt⟩
    rw [Nat.mod_eq_of_lt (hlt.trans (by decide))] at hthis
    split_ifs at hthis with hr
    · exact hthis.trans (queue_nonneg _ _)
    · exact hthis.trans (hqueue hr).2.1

/-- The report that follows the work of an entity. -/
theorem reported (hrlc : E.rlc.Lawful) (h : Backed E (channel rnti lcid) st) {u : ρ}
    (hu : st.rlc[rnti]? = some u) {txQueue : Nat}
    (htx : rnti ≠ mrnti → txQueue = E.rlc.getTotalBufferState u lcid) :
    Backed E ∅ (st.rlcReport (.rlcBufferState rnti lcid txQueue 0)) := by
  rw [← Set.sdiff_self (s := channel rnti lcid)]
  refine h.rlcReport fun hmbms => ?_
  rw [htx hmbms, queue_some E.rlc hu]
  exact ⟨hrlc.room u lcid, le_rfl, hrlc.channels u lcid⟩

/-! ## RLC and PDCP -/

theorem rlcReadPdu (hrlc : E.rlc.Lawful) (h : Backed E ∅ st) (rnti lcid nofBytes : Nat) :
    Backed E ∅ (st.rlcReadPdu E rnti lcid nofBytes) := by
  simp only [State.rlcReadPdu, Rlc.readPdu]
  cases hu : st.rlc[rnti]? with
  | none => exact h
  | some u =>
    obtain ⟨⟨u', ret⟩, hr⟩ : ∃ r, (if rnti ≠ mrnti then E.rlc.readPdu u lcid nofBytes
      else E.rlc.readPduMch u lcid nofBytes) = r := ⟨_, rfl⟩
    have htouch : Backed E (channel rnti lcid) { st with rlc := st.rlc.insert rnti u' } := by
      refine h.touch hrlc hu fun hmbms l hl => ?_
      rw [if_pos hmbms] at hr
      have hlaw := hrlc.readPdu u lcid nofBytes l hl
      rwa [hr] at hlaw
    simp only [hr]
    exact htouch.reported hrlc (by simp) fun hmbms => if_pos hmbms

theorem rlcWriteSdu (hrlc : E.rlc.Lawful) (h : Backed E ∅ st) (rnti lcid : Nat) (sdu : Rlc.Pdu) :
    Backed E ∅ (st.rlcWriteSdu E rnti lcid sdu) := by
  simp only [State.rlcWriteSdu, Rlc.writeSdu]
  cases hu : st.rlc[rnti]? with
  | none => exact h
  | some u =>
    obtain ⟨u', hr⟩ : ∃ r, (if rnti ≠ mrnti then E.rlc.writeSdu u lcid sdu
      else E.rlc.writeSduMch u lcid sdu) = r := ⟨_, rfl⟩
    have htouch : Backed E (channel rnti lcid) { st with rlc := st.rlc.insert rnti u' } := by
      refine h.touch hrlc hu fun hmbms l hl => ?_
      rw [if_pos hmbms] at hr
      exact hr ▸ hrlc.writeSdu u lcid sdu l hl
    simp only [hr]
    exact htouch.reported hrlc (by simp) fun hmbms => if_pos hmbms

/-- Channel after channel is reported empty. -/
theorem rlcReports (rnti : Nat) (is : List Nat) :
    ∀ {T : Set (Nat × Nat)} {st : State ρ π}, Backed E T st →
      Backed E (T \ {k | k.1 = rnti ∧ k.2 ∈ is ∧ k.2 < nofRadioBearers})
        ((is.map fun i => .rlcBufferState rnti i 0 0).foldl State.rlcReport st) := by
  induction is with
  | nil => exact fun h => h.mono fun k hk => ⟨hk, fun hnil => List.not_mem_nil hnil.2.1⟩
  | cons i is ih =>
    intro T st h
    have hfirst : Backed E (T \ channel rnti i) (st.rlcReport (.rlcBufferState rnti i 0 0)) :=
      h.rlcReport fun _ => ⟨by decide, queue_nonneg _ _, fun _ => rfl⟩
    refine (ih hfirst).mono ?_
    rintro ⟨r, l⟩ ⟨⟨hT, hchannel⟩, hrest⟩
    refine ⟨hT, ?_⟩
    rintro ⟨rfl, hl, hlt⟩
    obtain rfl | hl := List.mem_cons.mp hl
    · exact hchannel ⟨rfl, hlt⟩
    · exact hrest ⟨rfl, hl, hlt⟩

/-- The queues are emptied, and each channel is reported. -/
theorem rlcClearBuffer (hrlc : E.rlc.Lawful) (h : Backed E ∅ st) (rnti : Nat) :
    Backed E ∅ (st.rlcClearBuffer E rnti) := by
  simp only [State.rlcClearBuffer, Rlc.clearBuffer]
  split_ifs with hthere
  · have hdraw : Backed E (∅ ∪ {k | k.1 = rnti ∧ k.2 < nofRadioBearers})
        { st with rlc := st.rlc.modify rnti E.rlc.emptyQueue } := by
      refine { h with covered := h.covered.draw fun k hk => ?_ }
      by_cases hr : rnti = k.1
      · have hnone : nofRadioBearers ≤ k.2 := not_lt.mp fun hlt => hk ⟨hr.symm, hlt⟩
        refine le_trans (le_of_eq ?_) (queue_nonneg _ _)
        unfold queue
        cases st.rlc[k.1]? with
        | none => rfl
        | some u => exact congrArg _ (hrlc.channels u k.2 hnone)
      · rw [queue_modify, if_neg hr]
    have hreports := hdraw.rlcReports rnti (List.range nofRadioBearers)
    refine hreports.mono ?_
    rintro k ⟨hk, hout⟩
    obtain ⟨hr, hlt⟩ := hk.resolve_left id
    exact (hout ⟨hr, List.mem_range.mpr hlt, hlt⟩).elim
  · refine h.setRlc fun k => ?_
    rw [queue_modify]
    split_ifs with hr
    · have hgone : st.rlc[k.1]? = none := by
        rw [← Option.not_isSome_iff_eq_none, ← hr]
        exact hthere
      rw [queue, hgone]
      rfl
    · exact le_rfl

theorem pdcpAction (hrlc : E.rlc.Lawful) (h : Backed E ∅ st) (a : Pdcp.Action) :
    Backed E ∅ (st.pdcpAction E a) := by
  cases a with
  | rlcWriteSdu rnti lcid sdu => exact h.rlcWriteSdu hrlc rnti lcid sdu
  | rrcWritePdu rnti lcid pdu => exact h.congr rfl rfl
  | gtpuWritePdu rnti lcid pdu => exact h.congr rfl rfl
  | deallocate sdu => exact h

theorem pdcpWriteSdu (hrlc : E.rlc.Lawful) (h : Backed E ∅ st) (rnti lcid : Nat)
    (sdu : Pdcp.Pdu) : Backed E ∅ (st.pdcpWriteSdu E rnti lcid sdu) :=
  List.foldlRecOn (motive := fun st : State ρ π => Backed E ∅ st) _ _ (h.congr rfl rfl)
    fun _ h' a _ => h'.pdcpAction hrlc a

theorem gtpuDataPdu (hrlc : E.rlc.Lawful) (h : Backed E ∅ st) (teid : Nat) (pdu : Gtpu.Pdu) :
    Backed E ∅ (st.gtpuDataPdu E teid pdu) := by
  refine List.foldlRecOn (motive := fun st : State ρ π => Backed E ∅ st) _ _ h
    fun st' h' a _ => ?_
  cases a with
  | writeSdu rnti lcid pdu => exact h'.pdcpWriteSdu hrlc rnti lcid pdu
  | sendto addr teid pdu => exact h'

/-- What PDCP makes of a PDU goes to RRC and to GTP-U. -/
theorem pdcpWritePdu_rest (E : Env ρ π) (st : State ρ π) (rnti lcid : Nat) (sdu : Pdcp.Pdu) :
    (st.pdcpWritePdu E rnti lcid sdu).mac = st.mac ∧
      (st.pdcpWritePdu E rnti lcid sdu).rlc = st.rlc := by
  simp only [State.pdcpWritePdu, Pdcp.writePdu]
  cases st.pdcp[rnti]? with
  | none => exact ⟨rfl, rfl⟩
  | some u =>
    refine List.foldlRecOn (motive := fun st' : State ρ π => st'.mac = st.mac ∧ st'.rlc = st.rlc)
      _ _ ⟨rfl, rfl⟩ fun st' h a ha => ?_
    obtain ⟨d, -, rfl⟩ := List.mem_map.mp ha
    cases d with
    | rrc lcid pdu => exact h
    | gtpu lcid pdu => exact h

theorem rlcWritePdu (hrlc : E.rlc.Lawful) (h : Backed E ∅ st) (rnti lcid : Nat)
    (payload : Rlc.Pdu) : Backed E ∅ (st.rlcWritePdu E rnti lcid payload) := by
  simp only [State.rlcWritePdu, Rlc.writePdu]
  cases hu : st.rlc[rnti]? with
  | none => exact h
  | some u =>
    obtain ⟨⟨u', sdus⟩, hr⟩ : ∃ r, E.rlc.writePdu u lcid payload = r := ⟨_, rfl⟩
    have htouch : Backed E (channel rnti lcid) { st with rlc := st.rlc.insert rnti u' } := by
      refine h.touch hrlc hu fun _ l hl => ?_
      have hlaw := hrlc.writePdu u lcid payload l hl
      rwa [hr] at hlaw
    simp only [hr, List.foldl_append, List.foldl_cons, List.foldl_nil]
    obtain ⟨hmac, hrest⟩ := List.foldlRecOn (motive := fun st' : State ρ π =>
        st'.mac = st.mac ∧ st'.rlc = st.rlc.insert rnti u')
      (sdus.map fun s => .pdcpWritePdu rnti s.1 s.2) (State.rlcAction E)
      (b := { st with rlc := st.rlc.insert rnti u' }) ⟨rfl, rfl⟩ fun st' h a ha => by
        obtain ⟨s, -, rfl⟩ := List.mem_map.mp ha
        have hkeep := pdcpWritePdu_rest E st' rnti s.1 s.2
        exact ⟨hkeep.1.trans h.1, hkeep.2.trans h.2⟩
    exact (htouch.congr hmac hrest).reported hrlc (by rw [hrest]; simp) fun _ => rfl

/-! ## RRC -/

theorem rrcAction (hrlc : E.rlc.Lawful) (h : Backed E ∅ st) {S : Set Nat} {a : Rrc.Action}
    (ha : a.Plain S) : Backed E ∅ (st.rrcAction E a) := by
  have hcall : ∀ {m : MacState}, st.mac.SameUsers m → AsksNoMore st.mac.sched.ueDb m.sched.ueDb →
      Backed E ∅ { st with mac := m } := fun hsame hasks => h.setMac (hsame.agree h.agree) hasks
  cases a with
  | dlCcch rnti msg | dlDcch rnti msg => exact h.pdcpWriteSdu hrlc rnti _ _
  | macUeCfg rnti srI srNPucch cqiIdx cqiPucch cqiEnabled =>
    exact hcall (MacState.handle_same (e := .ueCfg rnti _ _) trivial rfl)
      (MacState.handle_asks E.lib E.locations st.mac (.ueCfg rnti _ _))
  | macPhyConfigEnabled rnti enabled =>
    exact hcall (MacState.phyConfigEnabled_same _ _ _)
      (MacState.phyConfigEnabled_asks st.mac rnti enabled)
  | macBearerUeCfg rnti lcid =>
    exact hcall (MacState.bearerUeCfg_same _ _ _ _) (MacState.bearerUeCfg_asks st.mac rnti lcid _)
  | rlcAddBearer rnti lcid =>
    refine h.setRlc fun k => ?_
    rw [Rlc.addBearer, queue_modify]
    split_ifs
    · unfold queue
      cases st.rlc[k.1]? with
      | none => exact le_rfl
      | some u => exact Int.ofNat_le.mpr (hrlc.addBearer u lcid k.2)
    · exact le_rfl
  | rlcClearBuffer rnti => exact h.rlcClearBuffer hrlc rnti
  | macUeRem rnti | gtpuRemUser rnti => exact ha.elim
  | rlcAddUser rnti | rlcRemUser rnti | pdcpAddUser rnti | pdcpRemUser rnti => exact ha.elim
  | _ => exact h.congr rfl rfl

theorem rrcCall (hrlc : E.rlc.Lawful) (h : Backed E ∅ st) {e : Rrc.Event} (he : e.KeepsUsers) :
    Backed E ∅ (st.rrcCall E e) := by
  have hplain : Rrc.AllPlain Set.univ (Rrc.handle st.rrc e).acts :=
    Rrc.handle_plain st.rrc he fun _ => trivial
  exact List.foldlRecOn (motive := fun st : State ρ π => Backed E ∅ st) _ _ (h.congr rfl rfl)
    fun st' h' a ha => h'.rrcAction hrlc (hplain a ha)

/-- The entity of a new user has nothing to lose. -/
theorem addUser (h : Backed E ∅ st) (rnti : Nat) :
    Backed E ∅ (st.rrcCall E (.addUser rnti)) := by
  unfold State.rrcCall Rrc.handle Rrc.addUser
  simp only
  split_ifs
  · exact h.congr rfl rfl
  · have hadd : Backed E ∅ { st with rlc := Rlc.addUser E.rlc st.rlc rnti } := by
      refine h.setRlc fun k => ?_
      unfold Rlc.addUser
      split_ifs with hthere
      · exact le_rfl
      · rw [queue_insert]
        split_ifs with hr
        · have hgone : st.rlc[k.1]? = none := by
            rw [← Option.not_isSome_iff_eq_none, ← hr]
            exact hthere
          rw [queue, hgone]
          exact Int.natCast_nonneg _
        · exact le_rfl
    exact hadd.congr rfl rfl

/-- RRC takes a user from MAC before it takes it from RLC. -/
theorem remUser (h : Backed E ∅ st) (rnti : Nat) :
    Backed E ∅ (st.rrcCall E (.rx rnti .remUser)) := by
  obtain ⟨hkept, hle⟩ :=
    MacState.handle_asks E.lib E.locations st.mac (.ueRem rnti) h.wellKept
  have hdraw : CoveredOff (∅ ∪ {k | k.1 = rnti}) (demandOf st.mac.sched.ueDb)
      (queue E.rlc (st.rlc.erase rnti)) := by
    refine h.covered.draw fun k hk => ?_
    rw [queue, queue, StdMap.getElem?_erase, if_neg fun heq => hk heq.symm]
  have hreport : CoveredOff (_ \ {k | k.1 = rnti})
      (demandOf (st.mac.ueRem rnti).st.sched.ueDb) (queue E.rlc (st.rlc.erase rnti)) := hdraw.report
    (fun k hk => le_trans (hk ▸ MacState.ueRem_demand h.agree h.mbms k.1 k.2) (queue_nonneg _ _))
    fun k _ => hle k
  have hboth : Backed E ∅
      { st with mac := (st.mac.ueRem rnti).st, rlc := st.rlc.erase rnti } :=
    ⟨MacState.ueRem_agree h.agree rnti, hkept, fun l => (hle _).trans (h.mbms l),
      hreport.mono fun k hk => hk.1.resolve_right hk.2⟩
  simp only [State.rrcCall, Rrc.handle]
  split_ifs
  · simp only [Rrc.handleItem, Rrc.remUser]
    cases st.rrc.users[rnti]? with
    | none => exact h.congr rfl rfl
    | some u => exact hboth.congr rfl rfl
  · exact h.congr rfl rfl

/-! ## One event -/

theorem macActions (h : Backed E ∅ st) (acts : List MacAction) :
    Backed E ∅ (acts.foldl (State.macAction E) st) := by
  refine List.foldlRecOn (motive := fun st : State ρ π => Backed E ∅ st) _ _ h
    fun st' h' a _ => ?_
  cases a with
  | rrcAddUser rnti => exact h'.addUser rnti
  | _ => exact h'

theorem macCall (h : Backed E ∅ st) {e : MacEvent} (ha : st.mac.Allowed e) :
    Backed E ∅ (st.macCall E e) :=
  (h.setMac (MacState.step_agree E.lib E.locations h.agree e ha)
    (MacState.handle_asks E.lib E.locations st.mac e)).macActions _

theorem getDlSched (hlib : E.lib.SizesRight) (h : Backed E T st) (tti : Nat)
    (paging : Option Nat) (generatePdu : Nat → Mac.GeneratePdu) :
    Backed E T { st with mac := (st.mac.getDlSched E.lib tti paging generatePdu).1 } :=
  h.setMac ((MacState.getDlSched_same _ _ _ _).agree h.agree)
    (Mac.Sched.dlSched_asks hlib h.wellKept tti paging).asksNoMore

theorem step (hlib : E.lib.SizesRight) (hrlc : E.rlc.Lawful) (h : Backed E ∅ st) {e : Event}
    (ha : Allowed st e) : Backed E ∅ (step E st e) := by
  cases e with
  | mac e =>
    cases e with
    | ueRem rnti | ueCfg rnti cfg bearers => exact ha.elim
    | _ => exact h.macCall ha
  | getDlSched tti paging generatePdu => exact h.getDlSched hlib tti paging generatePdu
  | getUlSched tti buffers =>
    exact h.setMac ((MacState.getUlSched_same _ _ _).agree h.agree)
      (MacState.getUlSched_asks E.lib st.mac tti buffers)
  | ulBsr rnti lcid bsr setValue =>
    exact h.setMac ((MacState.ulBsr_same _ _ _ _ _).agree h.agree)
      (Mac.Sched.ulBsr_asks st.mac.sched rnti lcid bsr setValue)
  | readPdu rnti lcid nofBytes => exact h.rlcReadPdu hrlc rnti lcid nofBytes
  | writePdu rnti lcid payload => exact h.rlcWritePdu hrlc rnti lcid payload
  | dataPdu teid pdu => exact h.gtpuDataPdu hrlc teid pdu
  | rrc e =>
    by_cases hkeep : e.KeepsUsers
    · exact h.rrcCall hrlc hkeep
    · cases e with
      | addUser rnti => exact ha.elim
      | rx rnti item =>
        cases item with
        | remUser => exact h.remUser rnti
        | _ => exact absurd trivial hkeep
      | _ => exact absurd trivial hkeep

theorem init (E : Env ρ π) (sched : Mac.Sched) (cfg : Rrc.Cfg) :
    Backed E ∅ (Stack.init sched cfg) where
  agree := (Users.init sched cfg : Users ∅ (Stack.init sched cfg : State ρ π)).agree
  wellKept := ⟨by simp [Mac.Sched.Keyed, Stack.init, MacState.init],
    by simp [Stack.init, MacState.init]⟩
  mbms l := by simp [demandOf, Stack.init, MacState.init]
  covered k _ := by simp [demandOf, queue, Stack.init, MacState.init]

end Backed

/-- For each channel the scheduler believes in no more bytes than wait in RLC. -/
def Believes (E : Env ρ π) (st : State ρ π) : Prop :=
  ∀ k, demandOf st.mac.sched.ueDb k ≤ queue E.rlc st.rlc k

/-- A subframe is granted no more bytes of a channel than wait in RLC. -/
def Grants (E : Env ρ π) (st : State ρ π) : Event → Prop
  | .getDlSched tti paging _ => ∀ r l,
    Mac.askedOf r l (st.mac.sched.dlSched E.lib tti paging).2.data ≤ queue E.rlc st.rlc (r, l)
  | _ => True

theorem Backed.believes (h : Backed E ∅ st) : Believes E st := fun k => h.covered k id

theorem Backed.grants (hlib : E.lib.SizesRight) (h : Backed E ∅ st) (e : Event) :
    Grants E st e := by
  cases e with
  | getDlSched tti paging generatePdu =>
    intro r l
    have hasks := Mac.Sched.dlSched_asks hlib h.wellKept tti paging
    have hleft := hasks.wellKept.demand (r, l)
    have hasked := hasks.asked (r, l)
    simp only at hasked
    exact le_trans (by omega) (h.believes (r, l))
  | _ => trivial

/-- **The scheduler never asks for bytes that are not there**, whatever the order in which MAC,
RLC, PDCP, GTP-U and RRC work: in each state of a run it believes in no bytes that RLC does not
have, and each subframe is granted what waits in RLC. -/
theorem granted_waits (E : Env ρ π) (hlib : E.lib.SizesRight) (hrlc : E.rlc.Lawful)
    (sched : Mac.Sched) (cfg : Rrc.Cfg) (es : List Event)
    (h : AllSteps (step E) Allowed (init sched cfg) es) :
    AllStates (step E) (Believes E) (init sched cfg) es ∧
      AllSteps (step E) (Grants E) (init sched cfg) es := by
  have hstep : ∀ st e, Backed E ∅ st → Allowed st e → Backed E ∅ (step E st e) :=
    fun _ _ hI hC => hI.step hlib hrlc hC
  have hinit := Backed.init E sched cfg
  exact ⟨(allStates_of_allSteps hstep hinit h).mono fun _ hI => hI.believes,
    allSteps_of_allSteps hstep (fun _ e hI _ => hI.grants hlib e) hinit h⟩

/-! ## An example -/

theorem exampleRlc_lawful : exampleRlc.Lawful where
  room u lcid := by
    simp only [exampleRlc]
    split_ifs <;> omega
  channels u lcid h := if_neg (not_lt.mpr h)
  addBearer _ _ _ := le_rfl
  readPdu u lcid n l hl := by simp [exampleRlc, hl]
  writePdu _ _ _ _ _ := le_rfl
  writeSdu u lcid sdu l hl := by simp [exampleRlc, hl]

theorem exampleTbs_ge (idx : Int) (nofPrb : Nat) : -1 ≤ Mac.exampleTbs idx nofPrb := by
  unfold Mac.exampleTbs
  split_ifs
  · split <;> decide
  · split <;> decide
  · exact le_rfl

theorem exampleLib_sizesRight : Mac.exampleLib.SizesRight :=
  ⟨exampleTbs_ge, fun _ nofPrb _ _ _ => exampleTbs_ge 0 nofPrb⟩

/-- A message of RRC is granted and read, and more data comes between. -/
theorem granted_waits_setup :
    AllStates (step exampleEnv) (Believes exampleEnv) (init Mac.Sched.exampleSched Rrc.exampleCfg)
      [.mac (.rachDetected 1 0 0), .rrc (.rx 70 (.srb0 (.rrcConReq none 0))),
        .getDlSched 20 none fun _ _ _ _ => none, .readPdu 70 0 8,
        .dataPdu (70 * 2 ^ 16 + 3) [1, 2], .rrc (.rx 70 .remUser)] ∧
    AllSteps (step exampleEnv) (Grants exampleEnv) (init Mac.Sched.exampleSched Rrc.exampleCfg)
      [.mac (.rachDetected 1 0 0), .rrc (.rx 70 (.srb0 (.rrcConReq none 0))),
        .getDlSched 20 none fun _ _ _ _ => none, .readPdu 70 0 8,
        .dataPdu (70 * 2 ^ 16 + 3) [1, 2], .rrc (.rx 70 .remUser)] :=
  granted_waits exampleEnv exampleLib_sizesRight exampleRlc_lawful Mac.Sched.exampleSched
    Rrc.exampleCfg _ ⟨trivial, trivial, trivial, trivial, trivial, trivial, trivial⟩

end Srsenb.Stack
