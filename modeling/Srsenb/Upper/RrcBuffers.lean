import Srsenb.Upper.RrcErabs

/-! # The buffers that RRC's thread takes

An entry of `rx_pdu_queue` may hold a buffer of the pool, and the thread is its only owner. The
handlers give it back to the pool, send their answer in it, or do neither. -/

open Srsenb.Run

namespace Srsenb.Rrc

/-- Where a buffer goes: back to the pool, or to PDCP. -/
inductive BufferUse where
  | deallocate (buffer : Nat)
  | writeSdu (rnti lcid buffer : Nat)
  deriving DecidableEq, Repr

def BufferUse.buffer : BufferUse → Nat
  | deallocate buffer | writeSdu _ _ buffer => buffer

/-- `rrc_pdu`, with the message that unpacking finds in the buffer. -/
structure RrcPdu where
  rnti : Nat
  item : QueueItem
  pdu : Option Nat

/-! ## The handlers -/

/-- `send_dl_dcch` of a buffer that it is given. -/
def sendDlDcchUse (rnti buffer : Nat) : List BufferUse := [.writeSdu rnti 1 buffer]

/-- `send_connection_reconf` reuses the buffer, unless it returns before. -/
def Ue.sendConnectionReconfUse (u : Ue) (cfg : Cfg) (rnti buffer : Nat) : List BufferUse :=
  match u.getDrbidConfig cfg 1 with
  | (_, none) => []
  | (_, some _) => sendDlDcchUse rnti buffer

/-- `ue::parse_ul_dcch`. S1AP copies the NAS message, and nobody frees the buffer after it. -/
def Ue.parseUlDcchUse (u : Ue) (cfg : Cfg) (rnti buffer : Nat) : UlDcchMsg → List BufferUse
  | .rrcConSetupComplete _ => []
  | .ulInfoTransfer _ => []
  | .rrcConReconfigComplete => []
  | .securityModeComplete => u.sendConnectionReconfUse cfg rnti buffer
  | .securityModeFailure => []
  | .ueCapabilityInfo => u.sendConnectionReconfUse cfg rnti buffer
  | .other => []

/-- `parse_ul_ccch` ends with `deallocate`; its answers are sent in buffers of their own. -/
def parseUlCcchUse (buffer : Nat) : List BufferUse := [.deallocate buffer]

/-- The switch of `run_thread`, for a UE of the table. -/
def handleItemUse (u : Ue) (cfg : Cfg) (rnti buffer : Nat) : QueueItem → List BufferUse
  | .srb0 _ => parseUlCcchUse buffer
  | .srb12 msg => u.parseUlDcchUse cfg rnti buffer msg
  | .remUser | .relUser | .rlfUser _ | .actUser | .invalid => []

/-- A round of `run_thread`. -/
def runThreadUse (s : State) (p : RrcPdu) : List BufferUse :=
  match s.users[p.rnti]?, p.pdu with
  | some u, some buffer => handleItemUse u s.cfg p.rnti buffer p.item
  | _, _ => []

/-- What the round does to the entity; the parsers look at the buffer first. -/
def runThread (s : State) (p : RrcPdu) : State :=
  match p.item, p.pdu with
  | .srb0 _, none | .srb12 _, none => s
  | item, _ => step s (.rx p.rnti item)

/-! ## Runs -/

/-- The entity, the buffers that the thread has taken and those that it has let go. -/
structure BufferRun where
  rrc : State
  taken : List Nat := []
  released : List Nat := []

/-- The thread takes the next entry, or another layer calls the entity. -/
inductive BufferEvent where
  | pop (p : RrcPdu)
  | call (e : Event) (notRx : ∀ rnti item, e ≠ .rx rnti item)

namespace BufferRun

def init (cfg : Cfg) : BufferRun := { rrc := Rrc.init cfg }

def step (st : BufferRun) : BufferEvent → BufferRun
  | .pop p =>
    { rrc := runThread st.rrc p
      taken := p.pdu.toList ++ st.taken
      released := (runThreadUse st.rrc p).map BufferUse.buffer ++ st.released }
  | .call e _ => { st with rrc := Rrc.step st.rrc e }

/-- Each buffer was let go as often as it was taken. -/
def Conserved (st : BufferRun) : Prop := ∀ b, st.released.count b = st.taken.count b

/-- The buffer of an entry is of a UE in the table and holds an UL-CCCH message, or one of the two
UL-DCCH messages that are answered in it, when the QCI of E-RAB 5 is configured. -/
def Answered (u : Ue) (cfg : Cfg) : QueueItem → Prop
  | .srb0 _ => True
  | .srb12 .securityModeComplete | .srb12 .ueCapabilityInfo => QciOk cfg (u.erabs.sub 5).qci
  | _ => False

/-- What the thread finds: no buffer, or one that is let go. -/
def LetsGo (st : BufferRun) : BufferEvent → Prop
  | .pop p => p.pdu = none ∨ ∃ u, st.rrc.users[p.rnti]? = some u ∧ Answered u st.rrc.cfg p.item
  | .call _ _ => True

/-! ## One round -/

theorem getDrbidConfig_drb1 (u : Ue) (cfg : Cfg) :
    (u.getDrbidConfig cfg 1).2.isSome = true ↔ QciOk cfg (u.erabs.sub 5).qci := by
  have h := getDrbidConfig_spec u cfg (show 5 ≤ 5 ∧ 5 ≤ 12 by decide)
  rw [show (((5 - 2 : Nat) : Int) - 2) = 1 from rfl] at h
  rw [h]
  split_ifs with hqci <;> simp [hqci]

theorem sendConnectionReconfUse_eq (u : Ue) (cfg : Cfg) (rnti buffer : Nat)
    [Decidable (QciOk cfg (u.erabs.sub 5).qci)] :
    u.sendConnectionReconfUse cfg rnti buffer =
      if QciOk cfg (u.erabs.sub 5).qci then [.writeSdu rnti 1 buffer] else [] := by
  have h := getDrbidConfig_drb1 u cfg
  unfold Ue.sendConnectionReconfUse sendDlDcchUse
  split
  · rename_i hnone
    rw [hnone] at h
    rw [if_neg (fun hq => by simpa using h.mpr hq)]
  · rename_i hsome
    rw [hsome] at h
    rw [if_pos (h.mp rfl)]

/-- A buffer is let go once, or never. -/
theorem handleItemUse_spec (u : Ue) (cfg : Cfg) (rnti buffer : Nat) (item : QueueItem) :
    (Answered u cfg item ∧
      ((handleItemUse u cfg rnti buffer item).map BufferUse.buffer) = [buffer]) ∨
      (¬ Answered u cfg item ∧ handleItemUse u cfg rnti buffer item = []) := by
  have hreconf : (QciOk cfg (u.erabs.sub 5).qci ∧
      (u.sendConnectionReconfUse cfg rnti buffer).map BufferUse.buffer = [buffer]) ∨
      (¬ QciOk cfg (u.erabs.sub 5).qci ∧ u.sendConnectionReconfUse cfg rnti buffer = []) := by
    rw [sendConnectionReconfUse_eq]
    by_cases hq : QciOk cfg (u.erabs.sub 5).qci
    · rw [if_pos hq]
      exact Or.inl ⟨hq, rfl⟩
    · rw [if_neg hq]
      exact Or.inr ⟨hq, rfl⟩
  cases item with
  | srb0 msg => exact Or.inl ⟨trivial, rfl⟩
  | srb12 msg =>
    cases msg with
    | securityModeComplete => exact hreconf
    | ueCapabilityInfo => exact hreconf
    | rrcConSetupComplete nas => exact Or.inr ⟨id, rfl⟩
    | ulInfoTransfer nas => exact Or.inr ⟨id, rfl⟩
    | rrcConReconfigComplete => exact Or.inr ⟨id, rfl⟩
    | securityModeFailure => exact Or.inr ⟨id, rfl⟩
    | other => exact Or.inr ⟨id, rfl⟩
  | remUser => exact Or.inr ⟨id, rfl⟩
  | relUser => exact Or.inr ⟨id, rfl⟩
  | rlfUser existsInS1ap => exact Or.inr ⟨id, rfl⟩
  | actUser => exact Or.inr ⟨id, rfl⟩
  | invalid => exact Or.inr ⟨id, rfl⟩

/-- The buffer goes to PDCP exactly when the handler sends a reconfiguration. -/
theorem sendConnectionReconf_carries (u : Ue) (cfg : Cfg) (rnti buffer : Nat) :
    .writeSdu rnti 1 buffer ∈ u.sendConnectionReconfUse cfg rnti buffer ↔
      ∃ t drbs nas, .dlDcch rnti (.rrcConReconfig t drbs nas) ∈
        (u.sendConnectionReconf cfg rnti).2 := by
  have huse : .writeSdu rnti 1 buffer ∈ u.sendConnectionReconfUse cfg rnti buffer ↔
      QciOk cfg (u.erabs.sub 5).qci := by
    rw [sendConnectionReconfUse_eq]
    split_ifs with hq <;> simp [hq]
  have hdrb := getDrbidConfig_drb1 u.nextTransaction.2 cfg
  rw [show u.nextTransaction.2.erabs = u.erabs from rfl] at hdrb
  rw [huse, ← hdrb]
  unfold Ue.sendConnectionReconf
  simp only
  split
  · rename_i hnone
    rw [hnone]
    simp
  · rename_i hsome
    rw [hsome]
    simp

theorem runThreadUse_letsGo {st : BufferRun} {p : RrcPdu} (h : st.LetsGo (.pop p)) :
    (runThreadUse st.rrc p).map BufferUse.buffer = p.pdu.toList := by
  unfold runThreadUse
  rcases h with hnone | ⟨u, hu, hans⟩
  · rw [hnone]
    cases st.rrc.users[p.rnti]? <;> rfl
  · rw [hu]
    cases p.pdu with
    | none => rfl
    | some buffer =>
      rcases handleItemUse_spec u st.rrc.cfg p.rnti buffer p.item with ⟨-, huse⟩ | ⟨hno, -⟩
      · exact huse
      · exact absurd hans hno

theorem runThreadUse_keeps {st : BufferRun} {p : RrcPdu} (h : ¬ st.LetsGo (.pop p)) :
    runThreadUse st.rrc p = [] ∧ ∃ buffer, p.pdu = some buffer := by
  obtain ⟨hsome, hno⟩ := not_or.mp h
  refine ⟨?_, Option.ne_none_iff_exists'.mp hsome⟩
  unfold runThreadUse
  split
  · rename_i u buffer hu hp
    rcases handleItemUse_spec u st.rrc.cfg p.rnti buffer p.item with ⟨hans, -⟩ | ⟨-, huse⟩
    · exact absurd ⟨u, hu, hans⟩ hno
    · exact huse
  · rfl

/-! ## The law -/

theorem conserved_step {st : BufferRun} {e : BufferEvent} (h : Conserved st) (hc : LetsGo st e) :
    Conserved (step st e) := by
  cases e with
  | call e hrx => exact h
  | pop p =>
    intro b
    unfold step
    simp only [runThreadUse_letsGo hc, List.count_append, h b]

theorem not_conserved_step {st : BufferRun} {e : BufferEvent} (h : Conserved st)
    (hc : ¬ LetsGo st e) : ¬ Conserved (step st e) := by
  cases e with
  | call e hrx => exact absurd trivial hc
  | pop p =>
    obtain ⟨huse, buffer, hp⟩ := runThreadUse_keeps hc
    intro h'
    have hb := h' buffer
    unfold step at hb
    simp only [huse, hp, List.map_nil, List.nil_append, Option.toList_some, List.count_append,
      List.count_singleton_self, h buffer] at hb
    omega

/-- **The thread lets go of each buffer once**, in exactly the runs in which each buffer that it
takes is of a known UE and holds a message that is answered. -/
theorem buffers_conserved_iff (cfg : Cfg) (es : List BufferEvent) :
    AllStates step Conserved (init cfg) es ↔ AllSteps step LetsGo (init cfg) es := by
  have h : AllSteps step LetsGo (init cfg) es ↔
      AllSteps step (fun _ _ => True) (init cfg) es ∧ AllStates step Conserved (init cfg) es :=
    allSteps_iff (fun _ _ => True)
      (fun _ _ _ _ hI hC => ⟨trivial, conserved_step hI hC, trivial⟩)
      (fun _ _ _ _ hI hC _ => not_conserved_step hI hC) trivial fun _ => rfl
  rw [h]
  exact ⟨fun hs => ⟨AllSteps.trivial _ _, hs⟩, fun hs => hs.2⟩

/-- A UE sends a NAS message: S1AP copies it, and its buffer is lost. -/
theorem buffers_lost_ulInfoTransfer :
    ¬ AllStates step Conserved (init exampleCfg)
      [.call (.addUser 70) (fun _ _ => Event.noConfusion),
       .pop ⟨70, .srb12 (.ulInfoTransfer [7]), some 1⟩] := by
  intro h
  have hb := h.2.2 1
  revert hb
  decide

end BufferRun

end Srsenb.Rrc
