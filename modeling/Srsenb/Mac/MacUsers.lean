import Srsenb.Base.Run
import Srsenb.Mac.MacState

/-! # The users of the MAC and of its scheduler

Each entry point looks for its user in the database of the MAC, apart from `ack_info`. -/

open Srsenb.Run

namespace Srsenb.Mac

/-- What RRC, the PHY and the start of MBMS call. -/
inductive MacEvent where
  | rachDetected (tti preambleIdx timeAdv : Nat)
  | ueRem (rnti : Nat)
  | ueCfg (rnti : Nat) (cfg : UeCfg) (bearers : List Direction)
  | addMbmsUser
  | rlFailure (rnti : Nat)
  | rlOk (rnti : Nat)
  | ackInfo (tti rnti : Nat) (tb : Fin 2) (ack : Bool)
  | crcInfo (tti rnti nofBytes : Nat) (crc : Bool)
  | setDlAntInfo (rnti : Nat) (txMode : TxMode)
  | riInfo (rnti ri : Nat)
  | pmiInfo (rnti pmi : Nat)
  | cqiInfo (tti rnti cqi : Nat)
  | snrInfo (rnti cqi : Nat)
  | srDetected (rnti : Nat)

/-- The user of an indication that returns a status. -/
def MacEvent.status : MacEvent → Option Nat
  | .ackInfo _ rnti _ _ => some rnti
  | .crcInfo _ rnti _ _ => some rnti
  | .setDlAntInfo rnti _ => some rnti
  | .riInfo rnti _ => some rnti
  | .pmiInfo rnti _ => some rnti
  | .cqiInfo _ rnti _ => some rnti
  | .snrInfo rnti _ => some rnti
  | .srDetected rnti => some rnti
  | _ => none

namespace MacState

variable (lib : Lib) (locations : Nat → Nat → Nat → DciCce)

def handle (m : MacState) : MacEvent → MacOut
  | .rachDetected tti preambleIdx timeAdv => m.rachDetected lib locations tti preambleIdx timeAdv
  | .ueRem rnti => m.ueRem rnti
  | .ueCfg rnti cfg bearers => m.ueCfg lib locations rnti cfg bearers
  | .addMbmsUser => m.addMbmsUser
  | .rlFailure rnti => m.rlFailure rnti
  | .rlOk rnti => m.rlOk rnti
  | .ackInfo tti rnti tb ack => m.ackInfo tti rnti tb ack
  | .crcInfo tti rnti nofBytes crc => m.crcInfo tti rnti nofBytes crc
  | .setDlAntInfo rnti txMode => m.setDlAntInfo rnti txMode
  | .riInfo rnti ri => m.riInfo rnti ri
  | .pmiInfo rnti pmi => m.pmiInfo rnti pmi
  | .cqiInfo tti rnti cqi => m.cqiInfo tti rnti cqi
  | .snrInfo rnti cqi => m.snrInfo rnti cqi
  | .srDetected rnti => m.srDetected rnti

def step (m : MacState) (e : MacEvent) : MacState := (m.handle lib locations e).st

/-- The two databases have the same users, but for the one of MBMS, and no pointer is null. -/
structure UsersAgree (m : MacState) : Prop where
  keys : ∀ r : Nat, r ≠ mrnti → (m.ueDb[r]?.isSome = true ↔ m.sched.ueDb[r]?.isSome = true)
  live : ∀ (r : Nat) (p : Option MacUe), m.ueDb[r]? = some p → p.isSome = true

/-- An indication for a user that is not there changes nothing and returns an error. -/
def Refuses (m : MacState) (e : MacEvent) : Prop :=
  ∀ r ∈ e.status, m.ueDb[r]? = none →
    (m.handle lib locations e).st = m ∧ (m.handle lib locations e).ret = -1

/-- `ack_info` is called for a user that is there. -/
def Allowed (m : MacState) : MacEvent → Prop
  | .ackInfo _ rnti _ _ => m.ueDb[rnti]?.isSome = true
  | _ => True

/-! ## The databases -/

variable {m : MacState} {rnti : Nat}

theorem indicate_isSome (s : Sched) (rnti : Nat) (f : SchedUe → SchedUe) (r : Nat) :
    (s.indicate rnti f).1.ueDb[r]?.isSome = true ↔ s.ueDb[r]?.isSome = true := by
  unfold Sched.indicate
  cases h : s.ueDb[rnti]? with
  | none => rfl
  | some u => exact StdMap.isSome_insert h

theorem dlAckInfo_isSome (s : Sched) (tti rnti : Nat) (tb : Fin 2) (ack : Bool) (r : Nat) :
    (s.dlAckInfo tti rnti tb ack).1.ueDb[r]?.isSome = true ↔ s.ueDb[r]?.isSome = true := by
  unfold Sched.dlAckInfo
  cases h : s.ueDb[rnti]? with
  | none => rfl
  | some u => exact StdMap.isSome_insert h

theorem UsersAgree.setSched (h : m.UsersAgree) {s : Sched}
    (hs : ∀ r : Nat, s.ueDb[r]?.isSome = true ↔ m.sched.ueDb[r]?.isSome = true) :
    ({ m with sched := s } : MacState).UsersAgree :=
  ⟨fun r hr => (h.keys r hr).trans (hs r).symm, h.live⟩

theorem UsersAgree.updateUe (h : m.UsersAgree) (hthere : m.ueDb[rnti]?.isSome = true)
    (f : MacUe → MacUe) : (m.updateUe rnti f).UsersAgree := by
  obtain ⟨p, hp⟩ := Option.isSome_iff_exists.mp hthere
  obtain ⟨u, rfl⟩ := Option.isSome_iff_exists.mp (h.live rnti p hp)
  unfold MacState.updateUe
  constructor
  · intro r hr
    rw [← h.keys r hr, StdMap.getElem?_update]
    split_ifs with heq
    · simp [← heq, hp]
    · rfl
  · intro r q hq
    rw [StdMap.getElem?_update] at hq
    split_ifs at hq with heq
    · rw [StdMap.sub_of_get hp] at hq
      rw [← Option.some.inj hq]
      rfl
    · exact h.live r q hq

theorem updateUe_isSome (f : MacUe → MacUe) :
    (m.updateUe rnti f).ueDb[rnti]?.isSome = true := by
  unfold MacState.updateUe
  rw [StdMap.getElem?_update, if_pos rfl]
  rfl

theorem UsersAgree.onUe (h : m.UsersAgree) {f : MacState → MacOut}
    (hf : m.ueDb[rnti]?.isSome = true → (f m).st.UsersAgree) : (m.onUe rnti f).st.UsersAgree := by
  unfold MacState.onUe
  split_ifs with hthere
  · exact hf hthere
  · exact h

theorem onUe_refuses (hnone : m.ueDb[rnti]? = none) (f : MacState → MacOut) :
    (m.onUe rnti f).st = m ∧ (m.onUe rnti f).ret = -1 := by
  unfold MacState.onUe
  simp [hnone]

theorem UsersAgree.addUe (h : m.UsersAgree) {u : MacUe} {s : Sched} {m' : MacState}
    (hdb : m'.ueDb = m.ueDb.insert rnti (some u)) (hs : m'.sched = s)
    (hkeys : ∀ r : Nat, s.ueDb[r]?.isSome = true ↔ r = rnti ∨ m.sched.ueDb[r]?.isSome = true) :
    m'.UsersAgree := by
  constructor
  · intro r hr
    rw [hdb, hs, hkeys, ← h.keys r hr, StdMap.getElem?_insert]
    split_ifs with heq
    · simp [heq]
    · simp [Ne.symm heq]
  · intro r p hp
    rw [hdb, StdMap.getElem?_insert] at hp
    split_ifs at hp with heq
    · rw [← Option.some.inj hp]
      rfl
    · exact h.live r p hp

theorem ueCfg_isSome (s : Sched) (args : SchedArgs) (cfg : UeCfg) (bearers : List Direction)
    (r : Nat) : (s.ueCfg lib args locations rnti cfg bearers).ueDb[r]?.isSome = true ↔
      r = rnti ∨ s.ueDb[r]?.isSome = true := by
  unfold Sched.ueCfg
  rw [StdMap.getElem?_update]
  split_ifs with heq
  · simp [heq]
  · simp [Ne.symm heq]

theorem dlRachInfo_ueDb (s : Sched) (tti raId rnti size : Nat) :
    (s.dlRachInfo tti raId rnti size).1.ueDb = s.ueDb := by
  unfold Sched.dlRachInfo
  split <;> rfl

theorem ueRem_get (s : Sched) (rnti r : Nat) :
    (s.ueRem rnti).1.ueDb[r]? = if rnti = r then none else s.ueDb[r]? := by
  unfold Sched.ueRem
  split_ifs with hthere heq heq
  · rw [StdMap.getElem?_erase, if_pos heq]
  · rw [StdMap.getElem?_erase, if_neg heq]
  · rw [← heq]
    simpa using hthere
  · rfl

/-! ## One step -/

theorem rachDetected_agree (h : m.UsersAgree) (tti preambleIdx timeAdv : Nat) :
    (m.rachDetected lib locations tti preambleIdx timeAdv).st.UsersAgree := by
  unfold rachDetected
  simp only
  by_cases hfull : m.findRar maxPendingRars 0 = maxPendingRars
  · rw [if_pos hfull]
    exact h
  · rw [if_neg hfull]
    refine h.addUe rfl rfl fun r => ?_
    rw [dlRachInfo_ueDb]
    exact ueCfg_isSome lib locations ..

theorem ueRem_agree (h : m.UsersAgree) (rnti : Nat) : (m.ueRem rnti).st.UsersAgree := by
  unfold ueRem
  split_ifs
  · constructor
    · intro r hr
      rw [StdMap.getElem?_erase, ueRem_get]
      split_ifs
      · rfl
      · exact h.keys r hr
    · intro r p hp
      rw [StdMap.getElem?_erase] at hp
      split_ifs at hp
      exact h.live r p hp
  · exact h

theorem ueCfg_agree (h : m.UsersAgree) (rnti : Nat) (cfg : UeCfg) (bearers : List Direction) :
    (m.ueCfg lib locations rnti cfg bearers).st.UsersAgree := by
  unfold ueCfg
  cases hp : m.ueDb[rnti]? with
  | none => exact h
  | some p =>
    have hthere : m.ueDb[rnti]?.isSome = true := by rw [hp]; rfl
    have hup := h.updateUe hthere fun u => { u with isPhyAdded := true }
    constructor
    · intro r hr
      rw [hup.keys r hr, ueCfg_isSome]
      constructor
      · exact Or.inr
      · rintro (rfl | h')
        · exact (hup.keys r hr).mp (updateUe_isSome _)
        · exact h'
    · exact hup.live

theorem addMbmsUser_agree (h : m.UsersAgree) : m.addMbmsUser.st.UsersAgree := by
  unfold addMbmsUser
  constructor
  · intro r hr
    rw [StdMap.getElem?_insert, if_neg (Ne.symm hr)]
    exact h.keys r hr
  · intro r p hp
    rw [StdMap.getElem?_insert] at hp
    split_ifs at hp
    · rw [← Option.some.inj hp]
      rfl
    · exact h.live r p hp

theorem rlFailure_agree (h : m.UsersAgree) (rnti : Nat) : (m.rlFailure rnti).st.UsersAgree := by
  refine h.onUe fun hthere => ?_
  simp only
  split_ifs
  · exact (h.updateUe hthere _).updateUe (updateUe_isSome _) _
  · exact h.updateUe hthere _

theorem ackInfo_agree (h : m.UsersAgree) (hthere : m.ueDb[rnti]?.isSome = true) (tti : Nat)
    (tb : Fin 2) (ack : Bool) : (m.ackInfo tti rnti tb ack).st.UsersAgree :=
  (h.setSched (dlAckInfo_isSome m.sched tti rnti tb ack)).updateUe hthere _

theorem crcInfo_agree (h : m.UsersAgree) (tti rnti nofBytes : Nat) (crc : Bool) :
    (m.crcInfo tti rnti nofBytes crc).st.UsersAgree := by
  refine h.onUe fun hthere => ?_
  exact (h.updateUe hthere _).setSched (indicate_isSome _ _ _)

theorem indicate_agree (h : m.UsersAgree) (hthere : m.ueDb[rnti]?.isSome = true)
    (f : SchedUe → SchedUe) (g : MacUe → MacUe) :
    ({ m with sched := (m.sched.indicate rnti f).1 }.updateUe rnti g).UsersAgree :=
  (h.setSched (indicate_isSome m.sched rnti f)).updateUe hthere g

theorem step_agree (h : m.UsersAgree) (e : MacEvent) (ha : m.Allowed e) :
    (m.step lib locations e).UsersAgree := by
  cases e with
  | rachDetected tti preambleIdx timeAdv =>
    exact rachDetected_agree lib locations h tti preambleIdx timeAdv
  | ueRem rnti => exact ueRem_agree h rnti
  | ueCfg rnti cfg bearers => exact ueCfg_agree lib locations h rnti cfg bearers
  | addMbmsUser => exact addMbmsUser_agree h
  | rlFailure rnti => exact rlFailure_agree h rnti
  | rlOk rnti => exact h.onUe fun hthere => h.updateUe hthere _
  | ackInfo tti rnti tb ack => exact ackInfo_agree h ha tti tb ack
  | crcInfo tti rnti nofBytes crc => exact crcInfo_agree h tti rnti nofBytes crc
  | setDlAntInfo rnti txMode => exact h.onUe fun _ => h.setSched (indicate_isSome _ _ _)
  | riInfo rnti ri => exact h.onUe fun hthere => indicate_agree h hthere _ _
  | pmiInfo rnti pmi => exact h.onUe fun hthere => indicate_agree h hthere _ _
  | cqiInfo tti rnti cqi => exact h.onUe fun hthere => indicate_agree h hthere _ _
  | snrInfo rnti cqi => exact h.onUe fun _ => h.setSched (indicate_isSome _ _ _)
  | srDetected rnti => exact h.onUe fun _ => h.setSched (indicate_isSome _ _ _)

theorem step_refuses (e : MacEvent) (ha : m.Allowed e) : m.Refuses lib locations e := by
  intro r hr hnone
  cases e with
  | ackInfo tti rnti tb ack =>
    obtain rfl := Option.mem_some_iff.mp hr
    have hthere : m.ueDb[rnti]?.isSome = true := ha
    rw [hnone] at hthere
    cases hthere
  | crcInfo tti rnti nofBytes crc =>
    obtain rfl := Option.mem_some_iff.mp hr
    exact onUe_refuses hnone _
  | setDlAntInfo rnti txMode =>
    obtain rfl := Option.mem_some_iff.mp hr
    exact onUe_refuses hnone _
  | riInfo rnti ri =>
    obtain rfl := Option.mem_some_iff.mp hr
    exact onUe_refuses hnone _
  | pmiInfo rnti pmi =>
    obtain rfl := Option.mem_some_iff.mp hr
    exact onUe_refuses hnone _
  | cqiInfo tti rnti cqi =>
    obtain rfl := Option.mem_some_iff.mp hr
    exact onUe_refuses hnone _
  | snrInfo rnti cqi =>
    obtain rfl := Option.mem_some_iff.mp hr
    exact onUe_refuses hnone _
  | srDetected rnti =>
    obtain rfl := Option.mem_some_iff.mp hr
    exact onUe_refuses hnone _
  | _ => cases hr

/-- `ack_info` for a user that is not there returns success. -/
theorem not_refuses_of_not_allowed (e : MacEvent) (ha : ¬ m.Allowed e) :
    ¬ m.Refuses lib locations e := by
  cases e with
  | ackInfo tti rnti tb ack =>
    intro h
    have hnone : m.ueDb[rnti]? = none := by simpa [Allowed] using ha
    have hret := (h rnti rfl hnone).2
    simp [handle, ackInfo] at hret
  | _ => exact absurd trivial ha

/-! ## Every run -/

/-- The MAC after `init`, with a scheduler that has no users. -/
def init (sched : Sched) : MacState := { sched := { sched with ueDb := ∅ } }

/-- **The users of the MAC.** In a run, the databases agree in every state and each indication for
a missing user is refused, if and only if `ack_info` is only called for users that are there. -/
theorem users_agree_iff (sched : Sched) (es : List MacEvent) :
    (AllStates (step lib locations) UsersAgree (init sched) es ∧
      AllSteps (step lib locations) (Refuses lib locations) (init sched) es) ↔
    AllSteps (step lib locations) Allowed (init sched) es := by
  rw [and_comm]
  refine (allSteps_iff (fun _ _ => True) ?_ ?_ trivial ?_).symm
  · intro m e _ _ h ha
    exact ⟨step_refuses lib locations e ha, step_agree lib locations h e ha, trivial⟩
  · intro m e _ _ _ ha hr
    exact absurd hr (not_refuses_of_not_allowed lib locations e ha)
  · exact ⟨by simp [init], by simp [init]⟩

/-- An ACK arrives for a user that was removed: it is there again, with a null pointer. -/
def lateAckRun : List MacEvent := [.rachDetected 1 0 0, .ueRem 70, .ackInfo 10 70 0 true]

theorem users_disagree_lateAckRun :
    ¬ (AllStates (step exampleLib fun _ _ _ => ⟨fun _ _ => 0, fun _ => 0⟩) UsersAgree
        (init Sched.exampleSched) lateAckRun ∧
      AllSteps (step exampleLib fun _ _ _ => ⟨fun _ _ => 0, fun _ => 0⟩)
        (Refuses exampleLib fun _ _ _ => ⟨fun _ _ => 0, fun _ => 0⟩)
        (init Sched.exampleSched) lateAckRun) := by
  rintro ⟨h, -⟩
  have hkeys := (h.last.keys 70 (by decide)).mp (by decide +kernel)
  exact absurd hkeys (by decide +kernel)

end MacState

end Srsenb.Mac
