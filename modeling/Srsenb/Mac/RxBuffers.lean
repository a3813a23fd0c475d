import Srsenb.Mac.MacUsers
import Srsenb.Mac.Phich

/-! # The receive buffers of the users

`get_ul_sched` asks for a buffer for each grant, which waits under its TTI until `crc_info` takes
it out. No other call changes the buffers of a user that stays. -/

open Srsenb.Run

namespace Srsenb.Mac

/-! ## The users of a call of `ul_sched` -/

namespace Sched

variable (lib : Lib) {s : Sched} {tti : Nat}

/-- One grant for a user at most, in the order of the users. -/
theorem puschs_sublist (tti : Nat) (ks : List Nat) {db : StdMap SchedUe} (hdb : Keyed db)
    (st : Sched × Elems UlSchedData) :
    ((db.visit (puschUser lib tti) ks st).1.2.done.map (·.rnti)).Sublist
      (st.2.done.map (·.rnti) ++ ks) := by
  induction ks generalizing db st with
  | nil => simp [StdMap.visit]
  | cons k ks ih =>
    cases hk : db[k]? with
    | none =>
      rw [StdMap.visit, hk]
      exact (ih hdb st).trans ((List.sublist_cons_self k ks).append_left _)
    | some u =>
      obtain ⟨-, hrnti, -, hgrant⟩ := puschUser_spec lib st.1 st.2 tti k u
      rw [StdMap.visit_cons hk]
      refine (ih (hdb.insert (hrnti.trans (hdb k u hk))) _).trans ?_
      have hskip := (List.sublist_cons_self k ks).append_left (st.2.done.map (·.rnti))
      rcases hgrant with hsame | ⟨a, -, hsame | ⟨d, hd, hdr, -⟩⟩
      · rw [hsame]
        exact hskip
      · rw [hsame]
        exact hskip
      · rw [hd, List.map_append, List.map_singleton, hdr, hdb k u hk, List.append_assoc]
        exact List.Sublist.refl _

theorem ulReady_isSome (s : Sched) (tti k : Nat) :
    (s.ulReady lib tti).ueDb[k]?.isSome = s.ueDb[k]?.isSome := by
  unfold ulReady
  rw [ulAllocate_isSome]
  exact StdMap.visit_isSome _ _ _ k

theorem ulSched_isSome (s : Sched) (tti k : Nat) :
    (s.ulSched lib tti).1.ueDb[k]?.isSome = s.ueDb[k]?.isSome := by
  by_cases hs : s.ulRuns = true
  · obtain ⟨⟨⟨s2, out⟩, db⟩, hrounds⟩ : ∃ r, (s.ulReady lib tti).puschRounds lib tti
        (s.ulReady lib tti).ueDb.keys = r := ⟨_, rfl⟩
    rw [ulSched_eq lib s tti hs hrounds]
    have hdb := StdMap.visit_isSome (f := puschUser lib tti) (s.ulReady lib tti).ueDb.keys
      (s.ulReady lib tti, ⟨[], default⟩) (s.ulReady lib tti).ueDb k
    unfold puschRounds at hrounds
    rw [hrounds] at hdb
    exact (StdMap.visit_isSome _ _ _ k).trans (hdb.trans (ulReady_isSome lib s tti k))
  · rw [ulSched_stays lib s tti hs]

/-- The grants are for different users of the scheduler. -/
theorem ulSched_rntis (hdb : Keyed s.ueDb) (tti : Nat) :
    ((s.ulSched lib tti).2.pusch.map (·.rnti)).Nodup ∧
      ∀ d ∈ (s.ulSched lib tti).2.pusch, s.ueDb[d.rnti]?.isSome = true := by
  by_cases hs : s.ulRuns = true
  · obtain ⟨⟨⟨s2, out⟩, db⟩, hrounds⟩ : ∃ r, (s.ulReady lib tti).puschRounds lib tti
        (s.ulReady lib tti).ueDb.keys = r := ⟨_, rfl⟩
    have hsub := puschs_sublist lib tti (s.ulReady lib tti).ueDb.keys
      (Keyed.ulReady lib hdb tti) (s.ulReady lib tti, ⟨[], default⟩)
    rw [ulSched_eq lib s tti hs hrounds]
    unfold puschRounds at hrounds
    rw [hrounds] at hsub
    simp only [List.map_nil, List.nil_append] at hsub ⊢
    refine ⟨hsub.nodup (StdMap.nodup_keys _), fun d hd => ?_⟩
    rw [← ulReady_isSome lib s tti]
    exact StdMap.mem_keys.mp (hsub.subset (List.mem_map_of_mem hd))
  · rw [ulSched_stays lib s tti hs]
    exact ⟨List.nodup_nil, by simp⟩

end Sched

/-! ## Buffers that wait -/

/-- The buffer that a call gives back to the queue of PDUs. -/
def MacAction.returns : MacAction → Option Nat
  | .pushPdu buffer _ => some buffer
  | .deallocatePdu buffer => some buffer
  | _ => none

/-- A call of `crc_info`: its TTI and its user. -/
def MacEvent.crc : MacEvent → Option (Nat × Nat)
  | .crcInfo tti rnti _ _ => some (tti, rnti)
  | _ => none

namespace MacState

variable (lib : Lib) (locations : Nat → Nat → Nat → DciCce) (m : MacState)

/-- The buffer of a user that waits under an index. -/
def pending (rnti : Nat) (i : BufferIdx) : Option Nat := (m.ueDb.sub rnti).bind (·.pendingBuffers i)

/-- The user that a call makes anew, or takes out. -/
def resets : MacEvent → Option Nat
  | .rachDetected _ _ _ => some m.lastRnti
  | .ueRem rnti => some rnti
  | .addMbmsUser => some mrnti
  | _ => none

/-- No user has RNTI 0. -/
structure RntisRight : Prop where
  last : 0 < m.lastRnti ∧ m.lastRnti < 60000
  zero : m.ueDb[0]? = none

/-- What holds between the calls. -/
structure Sound : Prop where
  agree : m.UsersAgree
  keyed : Sched.Keyed m.sched.ueDb
  rntis : m.RntisRight

variable {lib locations m} {m' : MacState} {rnti : Nat}

theorem pending_of_none (h : m.ueDb[rnti]? = none) (i : BufferIdx) : m.pending rnti i = none := by
  unfold pending
  rw [StdMap.sub_eq, h]
  rfl

theorem pending_of_get {u : MacUe} (h : m.ueDb[rnti]? = some (some u)) (i : BufferIdx) :
    m.pending rnti i = u.pendingBuffers i := by
  unfold pending
  rw [StdMap.sub_of_get h]
  rfl

theorem pending_updateUe {f : MacUe → MacUe}
    (hf : ∀ u, (f u).pendingBuffers = u.pendingBuffers) (r : Nat) (i : BufferIdx) :
    (m.updateUe rnti f).pending r i = m.pending r i := by
  unfold pending updateUe
  simp only [StdMap.sub_update]
  split_ifs with hr
  · subst hr
    cases m.ueDb.sub rnti with
    | none => rfl
    | some u => simp [hf]
  · rfl

theorem pending_indicate (s : Sched) {f : MacUe → MacUe}
    (hf : ∀ u, (f u).pendingBuffers = u.pendingBuffers) (r : Nat) (i : BufferIdx) :
    ({ m with sched := s }.updateUe rnti f).pending r i = m.pending r i :=
  pending_updateUe (m := { m with sched := s }) hf r i

theorem pending_onUe {f : MacState → MacOut} {r : Nat} {i : BufferIdx}
    (hf : (f m).st.pending r i = m.pending r i) :
    (m.onUe rnti f).st.pending r i = m.pending r i := by
  unfold onUe
  split_ifs
  · exact hf
  · rfl

theorem pending_insert {u : Option MacUe} {r : Nat} {i : BufferIdx}
    (hu : u.bind (·.pendingBuffers i) = none) (hr : m.pending rnti i = none)
    (hdb : m'.ueDb = m.ueDb.insert rnti u) : m'.pending r i = m.pending r i := by
  unfold pending at hr ⊢
  rw [hdb, StdMap.sub_eq, StdMap.getElem?_insert]
  split_ifs with heq
  · rw [← heq, hr]
    exact hu
  · rw [StdMap.sub_eq]

/-- Only `crc_info` changes the buffers of a user that stays. -/
theorem handle_pending {e : MacEvent} (hcrc : e.crc = none) (i : BufferIdx)
    (hnew : ∀ r ∈ m.resets e, m.pending r i = none) (r : Nat) :
    (m.handle lib locations e).st.pending r i = m.pending r i := by
  cases e with
  | rachDetected tti preambleIdx timeAdv =>
    simp only [handle, rachDetected]
    by_cases hfull : m.findRar maxPendingRars 0 = maxPendingRars
    · rw [if_pos hfull]
    · rw [if_neg hfull]
      exact pending_insert (u := some (.new m.lastRnti)) rfl (hnew _ rfl) rfl
  | ueRem rnti =>
    simp only [handle, ueRem]
    split_ifs
    · have hr := hnew rnti rfl
      unfold pending at hr ⊢
      simp only [StdMap.sub_erase]
      split_ifs with heq
      · rw [← heq, hr]
        rfl
      · rfl
    · rfl
  | ueCfg rnti cfg bearers =>
    simp only [handle, ueCfg]
    split
    · rfl
    · exact pending_updateUe (f := fun u => { u with isPhyAdded := true }) (fun _ => rfl) r i
  | addMbmsUser => exact pending_insert (u := some (.new mrnti)) rfl (hnew _ rfl) rfl
  | rlFailure rnti =>
    refine pending_onUe ?_
    simp only
    split_ifs
    · refine (pending_updateUe ?_ r i).trans (pending_updateUe ?_ r i)
      · exact fun _ => rfl
      · exact fun _ => rfl
    · refine pending_updateUe ?_ r i
      exact fun _ => rfl
  | rlOk rnti =>
    refine pending_onUe (pending_updateUe ?_ r i)
    exact fun _ => rfl
  | ackInfo tti rnti tb ack =>
    refine pending_indicate _ (fun u => ?_) r i
    unfold MacUe.metricsTx
    split_ifs <;> rfl
  | crcInfo tti rnti nofBytes crc => cases hcrc
  | setDlAntInfo rnti txMode => exact pending_onUe rfl
  | riInfo rnti ri =>
    refine pending_onUe (pending_indicate _ ?_ r i)
    exact fun _ => rfl
  | pmiInfo rnti pmi =>
    refine pending_onUe (pending_indicate _ ?_ r i)
    exact fun _ => rfl
  | cqiInfo tti rnti cqi =>
    refine pending_onUe (pending_indicate _ ?_ r i)
    exact fun _ => rfl
  | snrInfo rnti cqi => exact pending_onUe rfl
  | srDetected rnti => exact pending_onUe rfl

/-! ## Users -/

theorem updateUe_isSome_eq (hthere : m.ueDb[rnti]?.isSome = true) (f : MacUe → MacUe) (r : Nat) :
    (m.updateUe rnti f).ueDb[r]?.isSome = m.ueDb[r]?.isSome := by
  unfold updateUe
  rw [StdMap.getElem?_update]
  split_ifs with hr
  · rw [← hr, hthere]
    rfl
  · rfl

theorem onUe_isSome {f : MacState → MacOut} {r : Nat}
    (hf : m.ueDb[rnti]?.isSome = true → (f m).st.ueDb[r]?.isSome = m.ueDb[r]?.isSome) :
    (m.onUe rnti f).st.ueDb[r]?.isSome = m.ueDb[r]?.isSome := by
  unfold onUe
  split_ifs with hthere
  · exact hf hthere
  · rfl

theorem insert_isSome {u : Option MacUe} {r : Nat} (hr : rnti ≠ r) :
    (m.ueDb.insert rnti u)[r]?.isSome = m.ueDb[r]?.isSome := by
  rw [StdMap.getElem?_insert, if_neg hr]

/-- A user stays unless it is made anew or taken out. -/
theorem handle_isSome {e : MacEvent} (ha : m.Allowed e) {r : Nat} (hr : r ∉ m.resets e) :
    (m.handle lib locations e).st.ueDb[r]?.isSome = m.ueDb[r]?.isSome := by
  have hne : ∀ {r'}, m.resets e = some r' → r' ≠ r := fun h heq => hr (heq ▸ h)
  cases e with
  | rachDetected tti preambleIdx timeAdv =>
    simp only [handle, rachDetected]
    by_cases hfull : m.findRar maxPendingRars 0 = maxPendingRars
    · rw [if_pos hfull]
    · rw [if_neg hfull]
      exact insert_isSome (hne rfl)
  | ueRem rnti =>
    simp only [handle, ueRem]
    split_ifs
    · rw [StdMap.getElem?_erase, if_neg (hne rfl)]
    · rfl
  | ueCfg rnti cfg bearers =>
    simp only [handle, ueCfg]
    split
    · rfl
    · rename_i p hp
      exact updateUe_isSome_eq (by rw [hp]; rfl) _ r
  | addMbmsUser => exact insert_isSome (hne rfl)
  | rlFailure rnti =>
    refine onUe_isSome fun hthere => ?_
    simp only
    split_ifs
    · rw [updateUe_isSome_eq (updateUe_isSome _), updateUe_isSome_eq hthere]
    · exact updateUe_isSome_eq hthere _ r
  | rlOk rnti => exact onUe_isSome fun hthere => updateUe_isSome_eq hthere _ r
  | ackInfo tti rnti tb ack =>
    exact updateUe_isSome_eq (m := { m with sched := _ }) ha _ r
  | crcInfo tti rnti nofBytes crc => exact onUe_isSome fun hthere => updateUe_isSome_eq hthere _ r
  | setDlAntInfo rnti txMode => exact onUe_isSome fun _ => rfl
  | riInfo rnti ri =>
    exact onUe_isSome fun hthere => updateUe_isSome_eq (m := { m with sched := _ }) hthere _ r
  | pmiInfo rnti pmi =>
    exact onUe_isSome fun hthere => updateUe_isSome_eq (m := { m with sched := _ }) hthere _ r
  | cqiInfo tti rnti cqi =>
    exact onUe_isSome fun hthere => updateUe_isSome_eq (m := { m with sched := _ }) hthere _ r
  | snrInfo rnti cqi => exact onUe_isSome fun _ => rfl
  | srDetected rnti => exact onUe_isSome fun _ => rfl

/-- The RNTI of the next user only moves when it is given to one. -/
theorem handle_lastRnti (e : MacEvent) :
    (m.handle lib locations e).st.lastRnti = m.lastRnti ∨
      (m.handle lib locations e).st.lastRnti =
        (if (m.lastRnti + 1) % 2 ^ 16 ≥ 60000 then 70 else (m.lastRnti + 1) % 2 ^ 16) := by
  have honUe : ∀ {rnti : Nat} {f : MacState → MacOut}, (f m).st.lastRnti = m.lastRnti →
      (m.onUe rnti f).st.lastRnti = m.lastRnti := by
    intro rnti f hf
    unfold onUe
    split_ifs
    · exact hf
    · rfl
  cases e with
  | rachDetected tti preambleIdx timeAdv =>
    simp only [handle, rachDetected]
    by_cases hfull : m.findRar maxPendingRars 0 = maxPendingRars
    · rw [if_pos hfull]
      exact Or.inl rfl
    · rw [if_neg hfull]
      exact Or.inr rfl
  | ueRem rnti =>
    simp only [handle, ueRem]
    split_ifs <;> exact Or.inl rfl
  | ueCfg rnti cfg bearers =>
    simp only [handle, ueCfg]
    split <;> exact Or.inl rfl
  | addMbmsUser => exact Or.inl rfl
  | rlFailure rnti =>
    refine Or.inl (honUe ?_)
    simp only
    split_ifs <;> rfl
  | ackInfo tti rnti tb ack => exact Or.inl rfl
  | _ => exact Or.inl (honUe rfl)

theorem RntisRight.handle (h : m.RntisRight) {e : MacEvent} (ha : m.Allowed e) :
    (m.handle lib locations e).st.RntisRight := by
  obtain ⟨hpos, hlt⟩ := h.last
  constructor
  · rcases @handle_lastRnti lib locations m e with hl | hl
    · rw [hl]
      exact h.last
    · rw [hl]
      split_ifs <;> omega
  · by_cases hr : (0 : Nat) ∈ m.resets e
    · cases e with
      | rachDetected tti preambleIdx timeAdv =>
        simp only [resets, Option.mem_def, Option.some.injEq] at hr
        omega
      | ueRem rnti =>
        obtain rfl : rnti = 0 := by simpa [resets] using hr
        simp [MacState.handle, ueRem, h.zero]
      | addMbmsUser =>
        simp only [resets, mrnti, Option.mem_def, Option.some.injEq] at hr
        omega
      | _ => cases hr
    · have hsame := @handle_isSome lib locations m _ ha _ hr
      rw [h.zero] at hsame
      exact Option.isNone_iff_eq_none.mp (by simpa [← Option.not_isSome] using hsame)

theorem keyed_indicate {s : Sched} (h : Sched.Keyed s.ueDb) {f : SchedUe → SchedUe}
    (hf : ∀ u, (f u).rnti = u.rnti) (rnti : Nat) : Sched.Keyed (s.indicate rnti f).1.ueDb := by
  unfold Sched.indicate
  cases hu : s.ueDb[rnti]? with
  | none => exact h
  | some u => exact h.insert ((hf u).trans (h rnti u hu))

theorem keyed_ueCfg {s : Sched} (h : Sched.Keyed s.ueDb) (args : SchedArgs) (rnti : Nat)
    (cfg : UeCfg) (bearers : List Direction) :
    Sched.Keyed (s.ueCfg lib args locations rnti cfg bearers).ueDb := h.insert rfl

theorem setAckInfo_rnti (u : SchedUe) (tti : Nat) (tb : Fin 2) (ack : Bool) :
    (u.setAckInfo tti tb ack).2.rnti = u.rnti := by
  unfold SchedUe.setAckInfo
  split <;> rfl

theorem keyed_onUe {f : MacState → MacOut} (h : Sched.Keyed m.sched.ueDb)
    (hf : Sched.Keyed (f m).st.sched.ueDb) : Sched.Keyed (m.onUe rnti f).st.sched.ueDb := by
  unfold onUe
  split_ifs
  · exact hf
  · exact h

theorem handle_keyed (h : Sched.Keyed m.sched.ueDb) (e : MacEvent) :
    Sched.Keyed (m.handle lib locations e).st.sched.ueDb := by
  cases e with
  | rachDetected tti preambleIdx timeAdv =>
    simp only [handle, rachDetected]
    by_cases hfull : m.findRar maxPendingRars 0 = maxPendingRars
    · rw [if_pos hfull]
      exact h
    · rw [if_neg hfull]
      simp only [dlRachInfo_ueDb]
      exact keyed_ueCfg h _ _ _ _
  | ueRem rnti =>
    simp only [handle, ueRem]
    split_ifs
    · intro k u hk
      rw [ueRem_get] at hk
      split_ifs at hk
      exact h k u hk
    · exact h
  | ueCfg rnti cfg bearers =>
    simp only [handle, ueCfg]
    split
    · exact h
    · exact keyed_ueCfg h _ _ _ _
  | addMbmsUser => exact h
  | rlFailure rnti =>
    refine keyed_onUe h ?_
    simp only
    split_ifs <;> exact h
  | rlOk rnti => exact keyed_onUe h h
  | ackInfo tti rnti tb ack =>
    simp only [handle, ackInfo, updateUe, Sched.dlAckInfo]
    cases hu : m.sched.ueDb[rnti]? with
    | none => exact h
    | some u => exact h.insert ((setAckInfo_rnti u tti tb ack).trans (h rnti u hu))
  | _ =>
    refine keyed_onUe h (keyed_indicate h ?_ _)
    exact fun _ => rfl

theorem Sound.handle (h : m.Sound) {e : MacEvent} (ha : m.Allowed e) :
    (m.handle lib locations e).st.Sound :=
  ⟨step_agree lib locations h.agree e ha, handle_keyed h.keyed e, h.rntis.handle ha⟩

/-! ## Taking a buffer out -/

/-- `crc_info` gives back what waits for its user, and leaves nothing. -/
theorem crcInfo_pending (hthere : m.ueDb[rnti]?.isSome = true) (tti nofBytes : Nat) (crc : Bool) :
    (∀ r i, (m.crcInfo tti rnti nofBytes crc).st.pending r i =
      if r = rnti ∧ i = MacUe.bufferOf tti then none else m.pending r i) ∧
    (m.crcInfo tti rnti nofBytes crc).acts.filterMap MacAction.returns =
      (m.pending rnti (MacUe.bufferOf tti)).toList := by
  unfold crcInfo onUe
  rw [if_pos hthere]
  constructor
  · intro r i
    unfold pending updateUe
    simp only [StdMap.sub_update]
    by_cases hr : rnti = r
    · subst hr
      rw [if_pos rfl]
      cases m.ueDb.sub rnti with
      | none => simp
      | some u =>
        have hmetrics : (((u.setTti tti).metricsRx crc nofBytes).takeBuffer tti).pendingBuffers =
            Function.update u.pendingBuffers (MacUe.bufferOf tti) none := by
          unfold MacUe.metricsRx
          split_ifs <;> rfl
        by_cases hi : i = MacUe.bufferOf tti
        · simp [hmetrics, hi]
        · simp [hmetrics, hi]
    · rw [if_neg hr, if_neg fun h => hr h.1.symm]
  · simp only [pending]
    cases (m.ueDb.sub rnti).bind (·.pendingBuffers (MacUe.bufferOf tti)) with
    | none => rfl
    | some b => cases crc <;> rfl

/-- No other call gives a buffer back. -/
theorem handle_returns {e : MacEvent} (hcrc : e.crc = none) :
    (m.handle lib locations e).acts.filterMap MacAction.returns = [] := by
  have honUe : ∀ {rnti : Nat} {f : MacState → MacOut},
      (f m).acts.filterMap MacAction.returns = [] →
      (m.onUe rnti f).acts.filterMap MacAction.returns = [] := by
    intro rnti f hf
    unfold onUe
    split_ifs
    · exact hf
    · rfl
  cases e with
  | rachDetected tti preambleIdx timeAdv =>
    simp only [handle, rachDetected]
    by_cases hfull : m.findRar maxPendingRars 0 = maxPendingRars
    · rw [if_pos hfull]
      rfl
    · rw [if_neg hfull]
      rfl
  | ueRem rnti =>
    simp only [handle, ueRem]
    split_ifs <;> rfl
  | ueCfg rnti cfg bearers =>
    simp only [handle, ueCfg]
    split
    · rfl
    · simp only
      split_ifs <;> rfl
  | addMbmsUser => rfl
  | rlFailure rnti =>
    refine honUe ?_
    simp only
    split_ifs <;> rfl
  | ackInfo tti rnti tb ack =>
    simp only [handle, ackInfo]
    split_ifs <;> rfl
  | crcInfo tti rnti nofBytes crc => cases hcrc
  | _ => exact honUe rfl

/-! ## Asking for buffers -/

/-- What the rounds of `get_ul_sched` leave: the users as they were, one grant for a user, and for
each grant the buffer of its turn, which waits under the TTI. -/
structure Rounds (m : MacState) (tti : Nat) (buffers : Nat → Option Nat) (out : UlSchedOut) :
    Prop where
  frame : out.st.sched = m.sched ∧ out.st.lastRnti = m.lastRnti
  users : ∀ r : Nat, out.st.ueDb[r]?.isSome = m.ueDb[r]?.isSome
  live : ∀ (r : Nat) (p : Option MacUe), out.st.ueDb[r]? = some p → p.isSome = true
  rntis : (out.grants.map (·.rnti)).Nodup
  there : ∀ g ∈ out.grants, m.ueDb[g.rnti]?.isSome = true
  data : ∀ (k : Nat) (g : UlSchedGrant), out.grants[k]? = some g → g.data = buffers k
  pending : ∀ (r : Nat) (i : BufferIdx) (b : Nat), out.st.pending r i = some b ↔
    m.pending r i = some b ∨
      (i = MacUe.bufferOf tti ∧ ∃ g ∈ out.grants, g.rnti = r ∧ g.data = some b)

theorem requestBuffer_free {u : MacUe} {tti len : Nat} {buffer : Option Nat} (hlen : 0 < len)
    (hfree : u.pendingBuffers (MacUe.bufferOf tti) = none) :
    u.requestBuffer tti len buffer = ({ u with
      pendingBuffers := Function.update u.pendingBuffers (MacUe.bufferOf tti) buffer },
      buffer) := by
  unfold MacUe.requestBuffer
  rw [if_pos hlen, if_pos (by rw [hfree]; rfl)]

theorem pending_request {u : MacUe} (hp : m.ueDb[rnti]? = some (some u)) (j : BufferIdx)
    (buffer : Option Nat) (r : Nat) (i : BufferIdx) :
    ({ m with ueDb := m.ueDb.insert rnti (some { u with
      pendingBuffers := Function.update u.pendingBuffers j buffer }) } : MacState).pending r i =
      if r = rnti ∧ i = j then buffer else m.pending r i := by
  by_cases hr : r = rnti
  · subst hr
    rw [pending_of_get (StdMap.getElem?_insert .. |>.trans (if_pos rfl)), pending_of_get hp]
    by_cases hi : i = j
    · simp [hi]
    · simp [hi]
  · rw [if_neg fun h => hr h.1]
    unfold pending
    rw [StdMap.sub_eq, StdMap.getElem?_insert, if_neg (Ne.symm hr), StdMap.sub_eq]

/-- A user without a grant so far has no buffer of the TTI waiting. -/
theorem Rounds.slot_free {tti : Nat} {buffers : Nat → Option Nat} {out : UlSchedOut}
    (h : Rounds m tti buffers out) (hfree : ∀ r, m.pending r (MacUe.bufferOf tti) = none)
    (hno : ∀ g ∈ out.grants, g.rnti ≠ rnti) {u : MacUe}
    (hp : out.st.ueDb[rnti]? = some (some u)) :
    u.pendingBuffers (MacUe.bufferOf tti) = none := by
  rw [← pending_of_get hp]
  cases hb : out.st.pending rnti (MacUe.bufferOf tti) with
  | none => rfl
  | some b =>
    rcases (h.pending _ _ b).mp hb with hb | ⟨-, g, hg, hr, -⟩
    · rw [hfree] at hb
      cases hb
    · exact absurd hr (hno g hg)

/-- One more grant, with the buffer that is now waiting. -/
theorem Rounds.push {tti : Nat} {buffers : Nat → Option Nat} {out : UlSchedOut}
    (h : Rounds m tti buffers out) (hfree : ∀ r, m.pending r (MacUe.bufferOf tti) = none)
    (hno : ∀ g ∈ out.grants, g.rnti ≠ rnti) {u : MacUe}
    (hp : out.st.ueDb[rnti]? = some (some u)) {g : UlSchedGrant} (hrnti : g.rnti = rnti)
    (hdata : g.data = buffers out.grants.length) (acts : List MacAction) :
    Rounds m tti buffers
      { out with
        st := { out.st with
          ueDb := out.st.ueDb.insert rnti (some { u with
            pendingBuffers := Function.update u.pendingBuffers (MacUe.bufferOf tti)
              (buffers out.grants.length) }) }
        grants := out.grants ++ [g]
        acts := acts } := by
  subst hrnti
  rw [← hdata]
  refine ⟨h.frame, fun r => ?_, fun r q hq => ?_, ?_, fun g' hg => ?_, fun k g' hk => ?_,
    fun r i b => ?_⟩
  · rw [← h.users r]
    exact Bool.eq_iff_iff.mpr (StdMap.isSome_insert hp)
  · rw [StdMap.getElem?_insert] at hq
    split_ifs at hq
    · rw [← Option.some.inj hq]
      rfl
    · exact h.live r q hq
  · rw [List.map_append, List.nodup_append]
    refine ⟨h.rntis, List.nodup_singleton _, ?_⟩
    rintro r hr r' hr' rfl
    obtain rfl := List.mem_singleton.mp hr'
    obtain ⟨g', hg', heq⟩ := List.mem_map.mp hr
    exact hno g' hg' heq
  · rcases List.mem_append.mp hg with hg | hg
    · exact h.there g' hg
    · rw [List.mem_singleton.mp hg, ← h.users, hp]
      rfl
  · rw [List.getElem?_append] at hk
    split_ifs at hk with hlt
    · exact h.data k g' hk
    · rw [List.getElem?_singleton] at hk
      split_ifs at hk with hzero
      rw [← Option.some.inj hk, hdata, show k = out.grants.length by omega]
  · rw [pending_request hp]
    by_cases hr : r = g.rnti ∧ i = MacUe.bufferOf tti
    · obtain ⟨rfl, rfl⟩ := hr
      rw [if_pos ⟨rfl, rfl⟩, hfree]
      simp only [List.mem_append, List.mem_singleton]
      constructor
      · exact fun hb => Or.inr ⟨trivial, _, Or.inr rfl, rfl, hb⟩
      · rintro (hb | ⟨-, g', hg | rfl, hgr, hb⟩)
        · cases hb
        · exact absurd hgr (hno g' hg)
        · exact hb
    · rw [if_neg hr, h.pending]
      simp only [List.mem_append, List.mem_singleton]
      refine or_congr_right (and_congr_right fun hi => ?_)
      constructor
      · rintro ⟨g', hg, hgr, hb⟩
        exact ⟨g', Or.inl hg, hgr, hb⟩
      · rintro ⟨g', hg | rfl, hgr, hb⟩
        · exact ⟨g', hg, hgr, hb⟩
        · exact absurd ⟨hgr.symm, hi⟩ hr

theorem Rounds.ulGrant {tti : Nat} {buffers : Nat → Option Nat} {out : UlSchedOut}
    (h : Rounds m tti buffers out) (hfree : ∀ r, m.pending r (MacUe.bufferOf tti) = none)
    (pusch : List UlSchedData) {d : UlSchedData} (hd : d.rnti ∉ out.grants.map (·.rnti)) :
    Rounds m tti buffers (ulGrant tti pusch buffers out d) ∧
      ∀ r ∈ (ulGrant tti pusch buffers out d).grants.map (·.rnti),
        r = d.rnti ∨ r ∈ out.grants.map (·.rnti) := by
  have hno : ∀ g ∈ out.grants, g.rnti ≠ d.rnti :=
    fun g hg heq => hd (heq ▸ List.mem_map_of_mem hg)
  unfold MacState.ulGrant
  split_ifs with htbs
  · cases hp : out.st.ueDb[d.rnti]? with
    | none => exact ⟨h, fun r hr => Or.inr hr⟩
    | some p =>
      obtain ⟨u, rfl⟩ := Option.isSome_iff_exists.mp (h.live d.rnti p hp)
      have hslot := h.slot_free hfree hno hp
      simp only [Option.map_some, Option.bind_some,
        @requestBuffer_free _ _ _ (buffers out.grants.length) (Int.lt_toNat.mpr htbs) hslot]
      refine ⟨h.push hfree hno hp rfl rfl _, fun r hr => ?_⟩
      rw [List.map_append, List.mem_append] at hr
      rcases hr with hr | hr
      · exact Or.inr hr
      · exact Or.inl (List.mem_singleton.mp hr)
  · exact ⟨h, fun r hr => Or.inr hr⟩

theorem Rounds.foldl {tti : Nat} {buffers : Nat → Option Nat}
    (hfree : ∀ r, m.pending r (MacUe.bufferOf tti) = none) (pusch : List UlSchedData) :
    ∀ (ds : List UlSchedData) {out : UlSchedOut}, Rounds m tti buffers out →
      (ds.map (·.rnti)).Nodup → (∀ d ∈ ds, d.rnti ∉ out.grants.map (·.rnti)) →
      Rounds m tti buffers (ds.foldl (MacState.ulGrant tti pusch buffers) out)
  | [], _, h, _, _ => h
  | d :: ds, out, h, hnd, hout => by
    obtain ⟨hd, hnd⟩ := List.nodup_cons.mp hnd
    obtain ⟨hround, hgrants⟩ := h.ulGrant hfree pusch (hout d List.mem_cons_self)
    refine Rounds.foldl hfree pusch ds hround hnd fun d' hd' hmem => ?_
    rcases hgrants d'.rnti hmem with heq | hmem
    · exact hd (List.mem_map.mpr ⟨d', hd', heq⟩)
    · exact hout d' (List.mem_cons_of_mem d hd') hmem

/-- A call of `get_ul_sched` that finds no buffer under its TTI. -/
theorem getUlSched_rounds (h : m.Sound) {tti : Nat}
    (hfree : ∀ r, m.pending r (MacUe.bufferOf tti) = none) (buffers : Nat → Option Nat) :
    Rounds { m with sched := (m.sched.ulSched lib tti).1 } tti buffers
        (m.getUlSched lib tti buffers) ∧ (m.getUlSched lib tti buffers).st.Sound := by
  have hrounds := @Rounds.foldl { m with sched := (m.sched.ulSched lib tti).1 } tti buffers hfree
    (m.sched.ulSched lib tti).2.pusch (m.sched.ulSched lib tti).2.pusch
    { st := { m with sched := (m.sched.ulSched lib tti).1 } }
    ⟨⟨rfl, rfl⟩, fun _ => rfl, h.agree.live, List.nodup_nil, by simp, by simp, by simp⟩
    (Sched.ulSched_rntis lib h.keyed tti).1 (by simp)
  have hout : Rounds { m with sched := (m.sched.ulSched lib tti).1 } tti buffers
      (m.getUlSched lib tti buffers) :=
    ⟨hrounds.frame, hrounds.users, hrounds.live, hrounds.rntis, hrounds.there, hrounds.data,
      hrounds.pending⟩
  refine ⟨hout, ⟨fun r hr => ?_, hout.live⟩, ?_, ⟨?_, ?_⟩⟩
  · rw [hout.users, hout.frame.1, Sched.ulSched_isSome]
    exact h.agree.keys r hr
  · rw [hout.frame.1]
    exact Sched.Keyed.ulSched lib h.keyed tti
  · rw [hout.frame.2]
    exact h.rntis.last
  · have hzero := hout.users 0
    simp only [h.rntis.zero] at hzero
    exact Option.isNone_iff_eq_none.mp (by simpa [← Option.not_isSome] using hzero)

end MacState

end Srsenb.Mac
