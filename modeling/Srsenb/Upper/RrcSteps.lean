import Srsenb.Upper.Rrc

/-! # What one event does to the UEs of the RRC -/

namespace Srsenb.Rrc

open Pucch (NofUsers Available srIndex cqiIndex)

/-- The PUCCH slots stay, and the UE does not become registered. -/
structure Keeps (u u' : Ue) : Prop where
  sr : u'.sr = u.sr
  cqi : u'.cqi = u.cqi
  state : u'.state = .registered → u.state = .registered

theorem Keeps.refl (u : Ue) : Keeps u u := ⟨rfl, rfl, id⟩

theorem Keeps.trans {u v w : Ue} (h : Keeps u v) (h' : Keeps v w) : Keeps u w :=
  ⟨h'.sr.trans h.sr, h'.cqi.trans h.cqi, fun hw => h.state (h'.state hw)⟩

/-- A new state other than REGISTERED. -/
theorem Keeps.setState {u v : Ue} (h : Keeps u v) {st : RrcState} (hst : st ≠ .registered) :
    Keeps u { v with state := st } :=
  ⟨h.sr, h.cqi, fun hw => absurd hw hst⟩

/-! ## The handlers of a UE -/

theorem nextTransaction_keeps (u : Ue) : Keeps u u.nextTransaction.2 := ⟨rfl, rfl, id⟩

theorem sendConnectionRelease_keeps (u : Ue) (rnti : Nat) :
    Keeps u (u.sendConnectionRelease rnti).1 := nextTransaction_keeps u

theorem sendSecurityModeCommand_keeps (u : Ue) (rnti : Nat) :
    Keeps u (u.sendSecurityModeCommand rnti).1 := nextTransaction_keeps u

theorem getDrbidConfig_keeps (u : Ue) (cfg : Cfg) (drbId : Int) :
    Keeps u (u.getDrbidConfig cfg drbId).1 := by
  unfold Ue.getDrbidConfig
  dsimp only
  split_ifs <;> exact ⟨rfl, rfl, id⟩

theorem sendConnectionReconf_keeps (u : Ue) (cfg : Cfg) (rnti : Nat) :
    Keeps u (u.sendConnectionReconf cfg rnti).1 := by
  have h := (nextTransaction_keeps u).trans (getDrbidConfig_keeps u.nextTransaction.2 cfg 1)
  unfold Ue.sendConnectionReconf
  dsimp only
  split
  · rename_i u' heq
    rw [heq] at h
    exact h
  · rename_i u' drb heq
    rw [heq] at h
    exact h.setState (by decide)

theorem sendConnectionReconfUpd_keeps (u : Ue) (rnti : Nat) :
    Keeps u (u.sendConnectionReconfUpd rnti).1 :=
  (nextTransaction_keeps u).setState (by decide)

theorem setupErab_keeps (u : Ue) (rnti : Nat) (e : ErabItem) : Keeps u (u.setupErab rnti e).1 := by
  unfold Ue.setupErab
  dsimp only
  split <;> exact ⟨rfl, rfl, id⟩

theorem setupErabItems_keeps (rnti : Nat) (es : List ErabItem) :
    ∀ u : Ue, Keeps u (u.setupErabItems rnti es).1 := by
  induction es with
  | nil => exact Keeps.refl
  | cons e es ih =>
    intro u
    unfold Ue.setupErabItems
    split_ifs
    · exact .refl u
    · exact (setupErab_keeps u rnti e).trans (ih _)

theorem addNewBearers_keeps (cfg : Cfg) (rnti : Nat) (es : List ErabItem) :
    ∀ u : Ue, Keeps u (u.addNewBearers cfg rnti es).1 := by
  induction es with
  | nil => exact Keeps.refl
  | cons e es ih =>
    intro u
    have h := getDrbidConfig_keeps u cfg ((erabLcid e.id : Int) - 2)
    unfold Ue.addNewBearers
    dsimp only
    split
    · rename_i u' heq
      rw [heq] at h
      exact h
    · rename_i u' drb heq
      rw [heq] at h
      exact h.trans (ih u')

theorem sendConnectionReconfNewBearer_keeps (u : Ue) (cfg : Cfg) (rnti : Nat) (es : List ErabItem) :
    Keeps u (u.sendConnectionReconfNewBearer cfg rnti es).1 := by
  have h := (nextTransaction_keeps u).trans (addNewBearers_keeps cfg rnti es u.nextTransaction.2)
  unfold Ue.sendConnectionReconfNewBearer
  dsimp only
  split <;> · rename_i heq; rw [heq] at h; exact h

theorem setupErabsBearer_keeps (u : Ue) (cfg : Cfg) (rnti : Nat) (es : List ErabItem) :
    Keeps u (u.setupErabsBearer cfg rnti es).1 := by
  have h := setupErabItems_keeps rnti es u
  unfold Ue.setupErabsBearer
  split
  · rename_i heq
    rw [heq] at h
    exact h
  · rename_i u' acts heq
    rw [heq] at h
    exact h.trans (sendConnectionReconfNewBearer_keeps u' cfg rnti es)

theorem parseUlDcch_keeps (u : Ue) (cfg : Cfg) (rnti : Nat) {msg : UlDcchMsg}
    (h : msg ≠ .rrcConReconfigComplete) : Keeps u (u.parseUlDcch cfg rnti msg).1 := by
  have h0 : Keeps u { u with transactionId := 0 } := ⟨rfl, rfl, id⟩
  cases msg with
  | rrcConSetupComplete nas => exact h0.setState (by decide)
  | ulInfoTransfer nas => exact h0
  | rrcConReconfigComplete => exact absurd rfl h
  | securityModeComplete =>
    exact (h0.trans (sendConnectionReconf_keeps _ cfg rnti)).setState (by decide)
  | securityModeFailure => exact h0
  | ueCapabilityInfo =>
    exact (h0.trans (sendConnectionReconf_keeps _ cfg rnti)).setState (by decide)
  | other => exact h0

/-! ## The connection setup -/

/-- The table and the fields after an allocation that may fail. -/
def allocated (r : Option (NofUsers × Pucch.Alloc)) (t : NofUsers) (a : Pucch.Alloc) :
    NofUsers × Pucch.Alloc := r.getD (t, a)

/-- The SR allocation of a connection request will succeed. -/
def SrAvailable (s : State) : Prop := Available srIndex s.cfg.common s.cfg.srCfg s.srSched

/-- The CQI allocation will be tried and will succeed. -/
def CqiAvailable (s : State) : Prop :=
  s.cfg.cqiPeriodic = true ∧ Available cqiIndex s.cfg.common s.cfg.cqiCfg s.cqiSched

instance (s : State) : Decidable (SrAvailable s) := inferInstanceAs (Decidable (Available ..))

instance (s : State) : Decidable (CqiAvailable s) := inferInstanceAs (Decidable (_ ∧ _))

/-- What the SR part of a connection setup leaves. -/
def srAfter (s : State) (u : Ue) : NofUsers × Pucch.Alloc :=
  allocated (Pucch.srAllocate s.cfg.common s.cfg.srCfg s.srSched) s.srSched u.sr

/-- What the CQI part leaves: it is not reached when there is no SR resource. -/
def cqiAfter (s : State) (u : Ue) : NofUsers × Pucch.Alloc :=
  allocated
    (if (Pucch.srAllocate s.cfg.common s.cfg.srCfg s.srSched).isSome ∧ s.cfg.cqiPeriodic then
      Pucch.cqiAllocate s.cfg.common s.cfg.cqiCfg s.cqiSched else none)
    s.cqiSched u.cqi

/-- The slot tables and the fields of the UE after `send_connection_setup`. -/
theorem sendConnectionSetup_spec (s : State) (rnti : Nat) (u : Ue) :
    let r := sendConnectionSetup s rnti u
    r.1.users = s.users ∧ r.1.cfg = s.cfg ∧ r.1.srSched = (srAfter s u).1 ∧
      r.2.1.sr = (srAfter s u).2 ∧ r.1.cqiSched = (cqiAfter s u).1 ∧
      r.2.1.cqi = (cqiAfter s u).2 := by
  unfold sendConnectionSetup srSetup cqiSetup srAfter cqiAfter allocated
  cases hsr : Pucch.srAllocate s.cfg.common s.cfg.srCfg s.srSched with
  | none => simp [Ue.nextTransaction]
  | some p =>
    by_cases hp : s.cfg.cqiPeriodic = true
    · cases hcqi : Pucch.cqiAllocate s.cfg.common s.cfg.cqiCfg s.cqiSched with
      | none => simp [Ue.nextTransaction, hp, hcqi]
      | some q => simp [Ue.nextTransaction, hp, hcqi]
    · simp [Ue.nextTransaction, hp]

/-- A connection request of a UE changes its record and the two tables. -/
theorem handleRrcConReq_spec {s : State} {rnti : Nat} {u : Ue} (hu : s.users[rnti]? = some u)
    (sTmsi : Option (Nat × Nat)) (cause : Nat) :
    let s' := (handleRrcConReq s rnti sTmsi cause).st
    s'.cfg = s.cfg ∧ ∃ u', s'.users = s.users.insert rnti u' ∧
      s'.srSched = (srAfter s u).1 ∧ u'.sr = (srAfter s u).2 ∧
      s'.cqiSched = (cqiAfter s u).1 ∧ u'.cqi = (cqiAfter s u).2 := by
  unfold handleRrcConReq
  rw [StdMap.sub_of_get hu]
  dsimp only
  split
  all_goals
    obtain ⟨h1, h2, h3, h4, h5, h6⟩ := sendConnectionSetup_spec s rnti _
    exact ⟨h2, _, congrArg (fun m => Std.ExtTreeMap.insert m rnti _) h1, h3, h4, h5, h6⟩

/-! ## One event -/

/-- RRCConnectionReconfigurationComplete from `rnti`. -/
def Event.reconfComplete (rnti : Nat) : Event := .rx rnti (.srb12 .rrcConReconfigComplete)

/-- What an event can do to the table of UEs and to the slot tables. -/
inductive Change (s : State) : Event → State → Prop where
  | same {e} : Change s e s
  | kept {e rnti u u'} : s.users[rnti]? = some u → Keeps u u' → Change s e (s.setUser rnti u')
  | registered {rnti u u'} : s.users[rnti]? = some u → u'.sr = u.sr → u'.cqi = u.cqi →
      u'.state = .registered → Change s (.reconfComplete rnti) (s.setUser rnti u')
  | added {rnti} : s.users[rnti]? = none → Change s (.addUser rnti) (s.setUser rnti .new)
  | removed {rnti} : Change s (.rx rnti .remUser) (remUser s rnti).st
  | request {rnti sTmsi cause u} : s.users[rnti]? = some u →
      Change s (.rx rnti (.srb0 (.rrcConReq sTmsi cause)))
        (handleRrcConReq s rnti sTmsi cause).st

theorem onUser_change (s : State) (e : Event) (rnti : Nat) {f : Ue → Ue × List Action}
    (hf : ∀ u, Keeps u (f u).1) : Change s e (onUser s rnti f).st := by
  unfold onUser
  split
  · exact .same
  · rename_i u hu
    exact .kept hu (hf u)

theorem dcch_change (s : State) (rnti : Nat) (msg : UlDcchMsg) :
    Change s (.rx rnti (.srb12 msg)) (onUser s rnti fun u => u.parseUlDcch s.cfg rnti msg).st := by
  by_cases h : msg = .rrcConReconfigComplete
  · subst h
    unfold onUser
    split
    · exact .same
    · rename_i u hu
      exact .registered hu rfl rfl rfl
  · exact onUser_change s _ rnti fun u => parseUlDcch_keeps u s.cfg rnti h

theorem ccch_change (s : State) (rnti : Nat) (msg : UlCcchMsg) (hu : s.users[rnti]?.isSome) :
    Change s (.rx rnti (.srb0 msg)) (parseUlCcch s rnti msg).st := by
  obtain ⟨u, hu'⟩ := Option.isSome_iff_exists.mp hu
  cases msg with
  | rrcConReq sTmsi cause =>
    simp only [parseUlCcch, hu, if_true]
    exact .request hu'
  | rrcConReestReq oldRnti =>
    simp only [parseUlCcch, StdMap.touch_of_get hu']
    split_ifs <;> exact .same
  | other => exact .same

theorem processRlFailure_keeps (rnti : Nat) (b : Bool) (u : Ue) :
    Keeps u (let u := { u with rlfCnt := (u.rlfCnt + 1) % 2 ^ 32 }
      if u.rlfCnt = 1 then
        (u, [if b then Action.s1apUserRelease rnti else .remUserThread rnti])
      else (u, [])).1 := by
  dsimp only
  split_ifs <;> exact ⟨rfl, rfl, id⟩

theorem item_change (s : State) (rnti : Nat) (item : QueueItem) (hu : s.users[rnti]?.isSome) :
    Change s (.rx rnti item) (handleItem s rnti item).st := by
  cases item with
  | srb0 msg => exact ccch_change s rnti msg hu
  | srb12 msg => exact dcch_change s rnti msg
  | remUser => exact .removed
  | relUser =>
    apply onUser_change
    intro u
    split_ifs
    · exact sendConnectionRelease_keeps u rnti
    · exact .refl u
  | rlfUser b => exact onUser_change s _ rnti (processRlFailure_keeps rnti b)
  | actUser => exact .same
  | invalid => exact .same

theorem step_change (s : State) (e : Event) : Change s e (step s e) := by
  cases e with
  | rx rnti item =>
    unfold step handle
    dsimp only
    split_ifs with hu
    · exact item_change s rnti item hu
    · exact .same
  | addUser rnti =>
    unfold step handle addUser
    dsimp only
    split_ifs with hu
    · exact .same
    · exact .added (by simpa using hu)
  | updUser newRnti oldRnti =>
    apply onUser_change
    intro u
    split_ifs
    · exact sendConnectionReconfUpd_keeps u oldRnti
    · exact sendConnectionRelease_keeps u oldRnti
  | writeDlInfo rnti sdu => exact onUser_change s _ rnti Keeps.refl
  | setupUeCtxt rnti key es =>
    apply onUser_change
    intro u
    exact (sendSecurityModeCommand_keeps u rnti).trans (setupErabItems_keeps rnti es _)
  | setupUeErabs rnti es =>
    exact onUser_change s _ rnti fun u => setupErabsBearer_keeps u s.cfg rnti es
  | releaseErabs rnti => exact onUser_change s _ rnti fun u => ⟨rfl, rfl, id⟩
  | timeout rnti b =>
    unfold step handle isTimeout
    dsimp only
    split_ifs
    · exact .same
    all_goals exact onUser_change s _ rnti fun u => (Keeps.refl u).setState (by decide)
  | notifyConnected rnti =>
    unfold step handle notifyConnected
    dsimp only
    split_ifs
    · exact .same
    · apply onUser_change
      intro u
      split_ifs <;> exact ⟨rfl, rfl, id⟩

end Srsenb.Rrc
