import Srsenb.Mac.ConRes
import Srsenb.Mac.UlCalls

/-! # The number of transmissions

`max_retx` is checked in two places: `set_ack` ends a block, and `has_pending_retx` compares the
counter. Neither asks whether the last transmission was answered at all. -/

open Srsenb.Run

namespace Srsenb.Mac

/-! ## What was sent -/

/-- A downlink block since it was opened: its transmissions, and whether the last of them still
awaits feedback. -/
structure SentTb where
  count : Nat := 0
  waiting : Bool := false
  deriving DecidableEq

namespace SentTb

variable (tb : Fin 2) (g : SentTb)

def step (g : SentTb) : HarqEvent → SentTb
  | .newTx b _ _ _ _ => if b = tb then ⟨1, true⟩ else g
  | .newRetx b _ => if b = tb then ⟨g.count + 1, true⟩ else g
  | .setAck b _ => if b = tb then { g with waiting := false } else g
  | .reset b => if b = tb then {} else g

/-- No transmission is one too many, and no retransmission comes before the feedback. -/
def Bounded (maxRetx : Nat) (g : SentTb) : HarqEvent → Prop
  | .newTx b _ _ _ _ => b = tb → 1 ≤ maxRetx
  | .newRetx b _ => b = tb → g.count + 1 ≤ maxRetx ∧ g.waiting = false
  | _ => True

instance (maxRetx : Nat) : ∀ e : HarqEvent, Decidable (Bounded tb maxRetx g e)
  | .newTx .. => inferInstanceAs (Decidable (_ → _ ≤ _))
  | .newRetx _ _ => inferInstanceAs (Decidable (_ → _ ∧ _))
  | .setAck _ _ | .reset _ => .isTrue trivial

end SentTb

/-- An uplink block since it was opened: its transmissions, and the `max_retx` set then. -/
structure SentUl where
  count : Nat := 0
  bound : Nat := 0
  deriving DecidableEq

namespace SentUl

variable (maxRetx : Nat) (g : SentUl)

/-- A block that is opened gets `maxRetx`. -/
def step (g : SentUl) : UlHarqEvent → SentUl
  | .newTx _ _ _ => ⟨1, maxRetx⟩
  | .newRetx _ => { g with count := g.count + 1 }
  | .reset => {}
  | _ => g

def Bounded (g : SentUl) : UlHarqEvent → Prop
  | .newTx _ _ _ => 1 ≤ maxRetx
  | .newRetx _ => g.count + 1 ≤ g.bound
  | _ => True

instance : ∀ e : UlHarqEvent, Decidable (Bounded maxRetx g e)
  | .newTx .. => inferInstanceAs (Decidable (_ ≤ _))
  | .newRetx _ => inferInstanceAs (Decidable (_ ≤ _))
  | .hasPendingAck | .setMaxRetx _ | .setAck _ | .reset => .isTrue trivial

end SentUl

/-! ## Runs -/

/-- A user, and what its processes have sent. -/
structure TxRun where
  ue : SchedUe
  sent : Pid → Fin 2 → SentTb := fun _ _ => {}
  sentUl : Pid → SentUl := fun _ => {}

inductive TxEvent
  | dlRound (r : DlRound)
  | ulRound (r : UlRound)
  | ack (tti : Nat) (tb : Fin 2) (ack : Bool)
  | crc (tti : Nat) (crc : Bool)
  | setCfg (rnti : Nat) (cfg : UeCfg) (bearers : List Direction) (cell : Cell)
      (locations : Nat → Nat → DciCce)
  /-- The user becomes `ue`, apart from its processes and its configuration. -/
  | other (ue : SchedUe)

namespace TxRun

variable (lib : Lib)

def step (st : TxRun) : TxEvent → TxRun
  | .dlRound r =>
    { st with
      ue := r.next lib st.ue
      sent := fun i tb => (r.calls lib st.ue i).foldl (SentTb.step tb) (st.sent i tb) }
  | .ulRound r =>
    { st with
      ue := r.next lib st.ue
      sentUl := fun i =>
        (r.calls lib st.ue i).foldl (SentUl.step (r.maxRetx st.ue)) (st.sentUl i) }
  | .ack tti tb ack =>
    { st with
      ue := (st.ue.setAckInfo tti tb ack).2
      sent := fun i b =>
        if st.ue.findAck tti = some i then (st.sent i b).step b (.setAck tb ack) else st.sent i b }
  | .crc tti crc => { st with ue := st.ue.setUlCrc tti crc }
  | .setCfg rnti cfg bearers cell locations =>
    { ue := st.ue.setCfg lib rnti cfg bearers cell locations }
  | .other ue =>
    { st with
      ue := { ue with dlHarq := st.ue.dlHarq, ulHarq := st.ue.ulHarq, cfg := st.ue.cfg } }

/-- No block is sent more often than `max_retx` allows, and in the downlink none is sent again
before the feedback of its last transmission. -/
def WithinMax (st : TxRun) : TxEvent → Prop
  | .dlRound r => ∀ i tb, AllSteps (SentTb.step tb) (SentTb.Bounded tb (st.ue.dlHarq i).maxRetx)
      (st.sent i tb) (r.calls lib st.ue i)
  | .ulRound r => ∀ i, AllSteps (SentUl.step (r.maxRetx st.ue)) (SentUl.Bounded (r.maxRetx st.ue))
      (st.sentUl i) (r.calls lib st.ue i)
  | _ => True

/-- A number of transmissions, in a `uint32_t`. -/
def IsMax (n : Nat) : Prop := 1 ≤ n ∧ n < 2 ^ 32

instance (n : Nat) : Decidable (IsMax n) := inferInstanceAs (Decidable (_ ∧ _))

/-- What a round finds. In the downlink each block in use has its feedback, of those that the
format sends of the process with a DCI. In the uplink a block that is granted after its last
transmission has its CRC, and the process of a Msg3 is empty or allows no more transmissions. -/
def Allowed (st : TxRun) : TxEvent → Prop
  | .dlRound r =>
    ∀ pid, (r.user lib st.ue).dlNextAlloc = some pid → (r.location lib st.ue).isSome = true →
      ∀ tb, (tb = 0 ∨ (r.user lib st.ue).getDciFormat ≠ .format1) →
        (st.ue.dlHarq pid).isEmpty tb = false → ((st.ue.dlHarq pid).tb tb).ackReceived = true
  | .ulRound r =>
    (r.isRar st.ue = true → IsMax r.s.cfg.maxharqMsg3tx ∧
        ((r.found lib st.ue).isEmpty 0 = true ∨
          (st.ue.ulHarq r.pid).maxRetx ≤ r.s.cfg.maxharqMsg3tx)) ∧
      (r.isRar st.ue = false → (r.user lib st.ue).ulNextAlloc.isSome = true →
        r.refused lib st.ue = false → (r.found lib st.ue).isEmpty 0 = false →
        (st.ue.ulHarq r.pid).maxRetx ≤ ((st.ue.ulHarq r.pid).tb 0).nRtx + 1 →
        ((st.ue.ulHarq r.pid).tb 0).ackReceived = true)
  | .setCfg _ cfg _ _ _ => IsMax cfg.maxharqTx
  | _ => True

instance (st : TxRun) (e : TxEvent) : Decidable (WithinMax lib st e) := by
  unfold WithinMax
  split <;> infer_instance

instance (st : TxRun) (e : TxEvent) : Decidable (Allowed lib st e) := by
  unfold Allowed
  split <;> infer_instance

/-- A user after its first `set_cfg`. -/
def init (rnti : Nat) (cfg : UeCfg) (bearers : List Direction) (cell : Cell)
    (locations : Nat → Nat → DciCce) : TxRun :=
  { ue := SchedUe.new.setCfg lib rnti cfg bearers cell locations }

end TxRun

/-! ## One process -/

namespace HarqProc

/-- A block of the process was sent `count` times, as far as the process goes on with it. -/
structure Counts (p : HarqProc) (tb : Fin 2) (count : Nat) : Prop where
  lt : p.maxRetx < 2 ^ 32
  active : (p.tb tb).active = true → count = (p.tb tb).nRtx + 1 ∧ count ≤ p.maxRetx
  acked : (p.tb tb).active = true → (p.tb tb).ackReceived = true → count < p.maxRetx

variable {p p' : HarqProc} {tb : Fin 2} {count : Nat}

theorem Counts.other (h : p.Counts tb count) (hmax : p'.maxRetx = p.maxRetx)
    (htb : p'.tb tb = p.tb tb) : p'.Counts tb count := by
  obtain ⟨hlt, hactive, hacked⟩ := h
  rw [← hmax] at hlt hactive hacked
  rw [← htb] at hactive hacked
  exact ⟨hlt, hactive, hacked⟩

theorem Counts.newTx (hpos : 1 ≤ p.maxRetx) (hlt : p.maxRetx < 2 ^ 32) (tti : Nat)
    (mcs tbs : Int) : (p.newTxCommon tb tti mcs tbs).Counts tb 1 := by
  refine ⟨hlt, fun _ => ?_, fun _ hack => ?_⟩
  · simpa [newTxCommon, reset, setTb] using hpos
  · simp [newTxCommon, reset, setTb] at hack

theorem Counts.newRetx (h : p.Counts tb count) (hless : count < p.maxRetx) (tti : Nat) :
    (p.newRetx tb tti).1.Counts tb (count + 1) := by
  have hlt := h.lt
  refine ⟨h.lt, fun ha => ?_, fun _ hack => ?_⟩
  · have hactive : (p.tb tb).active = true := by simpa [HarqProc.newRetx, setTb] using ha
    obtain ⟨hcount, -⟩ := h.active hactive
    have hrtx : u32 ((p.tb tb).nRtx + 1) = (p.tb tb).nRtx + 1 := Nat.mod_eq_of_lt (by omega)
    simp only [HarqProc.newRetx, setTb, Function.update_self, hrtx]
    omega
  · simp [HarqProc.newRetx, setTb] at hack

/-- Feedback ends the block at its last transmission. -/
theorem Counts.setAck (h : p.Counts tb count) (ack : Bool) : (p.setAck tb ack).Counts tb count := by
  have hlt := h.lt
  have hactive : ((p.setAck tb ack).tb tb).active = true →
      (p.tb tb).active = true ∧ u32 ((p.tb tb).nRtx + 1) < p.maxRetx := by
    simp only [HarqProc.setAck, setTb, Function.update_self]
    split_ifs with hlast
    · exact False.elim
    · exact fun ha => ⟨ha, by omega⟩
  have hbefore : ((p.setAck tb ack).tb tb).active = true →
      count = (p.tb tb).nRtx + 1 ∧ count < p.maxRetx := by
    intro ha
    obtain ⟨hcount, hle⟩ := h.active (hactive ha).1
    have hrtx : u32 ((p.tb tb).nRtx + 1) = (p.tb tb).nRtx + 1 := Nat.mod_eq_of_lt (by omega)
    have := (hactive ha).2
    omega
  refine ⟨h.lt, fun ha => ⟨(hbefore ha).1.trans ?_, (hbefore ha).2.le⟩,
    fun ha _ => (hbefore ha).2⟩
  simp [HarqProc.setAck, setTb]

theorem Counts.idle (hlt : p.maxRetx < 2 ^ 32) (hidle : (p.tb tb).active = false) :
    p.Counts tb count :=
  ⟨hlt, fun ha => absurd ha (by simp [hidle]), fun ha => absurd ha (by simp [hidle])⟩

theorem Counts.reset (hlt : p.maxRetx < 2 ^ 32) : (p.reset tb).Counts tb 0 :=
  .idle hlt (by simp [HarqProc.reset, setTb])

end HarqProc

namespace DlHarqProc

/-- What the process knows of the block that it has sent. -/
structure Knows (h : DlHarqProc) (tb : Fin 2) (g : SentTb) : Prop where
  pos : 1 ≤ h.maxRetx
  counts : h.Counts tb g.count
  answered : (h.tb tb).active = true → (h.tb tb).ackReceived = true → g.waiting = false

/-- A retransmission finds a block in use with its feedback. -/
def RetxAcked (tb : Fin 2) (h : DlHarqProc) : HarqEvent → Prop
  | .newRetx b _ => b = tb → (h.tb tb).active = true ∧ (h.tb tb).ackReceived = true
  | _ => True

variable {h : DlHarqProc} {tb : Fin 2} {g : SentTb} {es : List HarqEvent}

theorem Knows.congr {h' : DlHarqProc} (hk : Knows h tb g) (hh : h'.toHarqProc = h.toHarqProc) :
    Knows h' tb g := by
  obtain ⟨hpos, hcounts, hanswered⟩ := hk
  rw [← hh] at hpos hcounts hanswered
  exact ⟨hpos, hcounts, hanswered⟩

/-- The call is not one of this block. -/
theorem Knows.other (hk : Knows h tb g) {e : HarqEvent} (hne : tb ≠ e.tb) :
    Knows (step h e) tb (g.step tb e) ∧ SentTb.Bounded tb h.maxRetx g e := by
  have htb := step_tb_ne (h := h) e hne
  have hsame : g.step tb e = g ∧ SentTb.Bounded tb h.maxRetx g e := by
    cases e with
    | newTx b tti mcs tbs nCce => exact ⟨if_neg hne.symm, fun hb => absurd hb hne.symm⟩
    | newRetx b tti => exact ⟨if_neg hne.symm, fun hb => absurd hb hne.symm⟩
    | setAck b ack => exact ⟨if_neg hne.symm, trivial⟩
    | reset b => exact ⟨if_neg hne.symm, trivial⟩
  rw [hsame.1]
  refine ⟨⟨(step_maxRetx e).symm ▸ hk.pos, hk.counts.other (step_maxRetx e) htb, ?_⟩, hsame.2⟩
  rw [htb]
  exact hk.answered

theorem Knows.step (hk : Knows h tb g) (e : HarqEvent) (hok : RetxAcked tb h e) :
    Knows (step h e) tb (g.step tb e) ∧ SentTb.Bounded tb h.maxRetx g e := by
  by_cases hne : tb = e.tb
  · cases e with
    | newTx b tti mcs tbs nCce =>
      obtain rfl : tb = b := hne
      simp only [SentTb.step, if_true]
      refine ⟨⟨hk.pos, .newTx hk.pos hk.counts.lt tti mcs tbs, fun _ hack => ?_⟩,
        fun _ => hk.pos⟩
      simp [DlHarqProc.step, newTx, HarqProc.newTxCommon, HarqProc.setTb, HarqProc.reset] at hack
    | newRetx b tti =>
      obtain rfl : tb = b := hne
      obtain ⟨ha, hack⟩ := hok rfl
      have hless := hk.counts.acked ha hack
      simp only [SentTb.step, if_true]
      refine ⟨⟨hk.pos, hk.counts.newRetx hless tti, fun _ hack => ?_⟩,
        fun _ => ⟨hless, hk.answered ha hack⟩⟩
      simp [DlHarqProc.step, newRetx, HarqProc.newRetx, HarqProc.setTb] at hack
    | setAck b ack =>
      obtain rfl : tb = b := hne
      simp only [SentTb.step, if_true]
      exact ⟨⟨hk.pos, hk.counts.setAck ack, fun _ _ => rfl⟩, trivial⟩
    | reset b =>
      obtain rfl : tb = b := hne
      simp only [SentTb.step, if_true]
      exact ⟨⟨hk.pos, .reset hk.counts.lt, fun _ _ => rfl⟩, trivial⟩
  · exact hk.other hne

/-- The calls of a round, one after the other. -/
theorem Knows.foldl (hk : Knows h tb g) (hok : AllSteps DlHarqProc.step (RetxAcked tb) h es) :
    Knows (es.foldl DlHarqProc.step h) tb (es.foldl (SentTb.step tb) g) ∧
      AllSteps (SentTb.step tb) (SentTb.Bounded tb h.maxRetx) g es := by
  induction es generalizing h g with
  | nil => exact ⟨hk, trivial⟩
  | cons e es ih =>
    obtain ⟨hnext, hbounded⟩ := hk.step e hok.1
    obtain ⟨hlast, hrest⟩ := ih hnext hok.2
    rw [step_maxRetx] at hrest
    exact ⟨hlast, hbounded, hrest⟩

end DlHarqProc

/-! ## A downlink round -/

namespace TxRun

variable {lib : Lib} {st : TxRun}

/-- The calls for block `b` of a generator: a retransmission finds its block as it was. -/
theorem acts_retxAcked {h : DlHarqProc} {a : BlockAct} {b : Fin 2} (tti nCce : Nat)
    (hretx : a = .retx → (h.tb b).active = true ∧ (h.tb b).ackReceived = true) (tb : Fin 2) :
    AllSteps DlHarqProc.step (DlHarqProc.RetxAcked tb) h (a.calls b tti nCce) := by
  cases a with
  | idle => exact trivial
  | retx => exact ⟨fun hb => hb ▸ hretx rfl, trivial⟩
  | new mcs tbs sdus => exact ⟨trivial, trivial⟩

theorem resets_retxAcked (h : DlHarqProc) (tb : Fin 2) :
    AllSteps DlHarqProc.step (DlHarqProc.RetxAcked tb) h [.reset 0, .reset 1] :=
  ⟨trivial, trivial, trivial⟩

theorem calls_retxAcked {r : DlRound} (hC : Allowed lib st (.dlRound r)) (i : Pid) (tb : Fin 2) :
    AllSteps DlHarqProc.step (DlHarqProc.RetxAcked tb) ((r.user lib st.ue).dlHarq i)
      (r.calls lib st.ue i) := by
  refine allSteps_append.mpr ⟨?_, ?_⟩
  · cases hn : (r.user lib st.ue).dlNextAlloc with
    | none => simp only [DlRound.sendCalls, hn]; exact trivial
    | some pid =>
      cases hl : r.location lib st.ue with
      | none =>
        simp only [DlRound.sendCalls, hn, hl]
        split_ifs
        · exact resets_retxAcked _ tb
        · exact trivial
      | some loc =>
        simp only [DlRound.sendCalls, hn, hl]
        split_ifs with hi
        · subst hi
          have hretx : ∀ b, r.acts lib st.ue i loc b = .retx →
              (((r.user lib st.ue).dlHarq i).tb b).active = true ∧
                (((r.user lib st.ue).dlHarq i).tb b).ackReceived = true := by
            intro b ha
            have hempty := acts_retx ha
            rw [DlRound.user_proc] at hempty ⊢
            refine ⟨(DlHarqProc.isEmpty_eq_false_iff.mp hempty).1, ?_⟩
            refine hC i hn (by rw [hl]; rfl) b ?_ hempty
            -- Format 1 does nothing for block 1.
            by_contra hb
            obtain ⟨hb0, hformat⟩ := not_or.mp hb
            simp [DlRound.acts, SchedUe.acts, not_not.mp hformat, hb0] at ha
          refine allSteps_append.mpr ⟨acts_retxAcked _ _ (hretx 0) tb, ?_⟩
          refine acts_retxAcked _ _ (fun ha => ?_) tb
          rw [exec, foldl_calls_tb_ne _ _ (by decide : (1 : Fin 2) ≠ 0)]
          exact hretx 1 ha
        · exact trivial
  · split_ifs
    · exact resets_retxAcked _ tb
    · exact trivial

/-- The generators keep what belongs to the uplink. -/
theorem generateFormat_frame (format : DciFormat) (u : SchedUe) (pid : Pid) (data : DlSchedData)
    (tti cfi : Nat) :
    (Sched.generateFormat lib format u pid data tti cfi).1.ulHarq = u.ulHarq ∧
      (Sched.generateFormat lib format u pid data tti cfi).1.cfg = u.cfg := by
  have hblock : ∀ (nofPrb nofRe : Nat) (tbEn noRetx : Bool) (tb : Fin 2) (v : SchedUe)
      (d : DlSchedData),
      (SchedUe.format2aTb lib pid nofPrb nofRe tti tbEn noRetx tb v d).1.ulHarq = v.ulHarq ∧
        (SchedUe.format2aTb lib pid nofPrb nofRe tti tbEn noRetx tb v d).1.cfg = v.cfg := by
    intro nofPrb nofRe tbEn noRetx tb v d
    simp only [SchedUe.format2aTb]
    split_ifs <;> exact ⟨rfl, rfl⟩
  cases format with
  | format0 => exact ⟨rfl, rfl⟩
  | format1 =>
    simp only [Sched.generateFormat, SchedUe.generateFormat1]
    split_ifs <;> exact ⟨rfl, rfl⟩
  | format2 | format2a =>
    simp only [Sched.generateFormat, SchedUe.generateFormat2, SchedUe.generateFormat2a]
    exact ⟨(hblock _ _ _ _ _ _ _).1.trans (hblock _ _ _ _ _ _ _).1,
      (hblock _ _ _ _ _ _ _).2.trans (hblock _ _ _ _ _ _ _).2⟩

/-- A downlink round keeps what belongs to the uplink. -/
theorem dlRound_frame (lib : Lib) (r : DlRound) (u : SchedUe) :
    (r.next lib u).ulHarq = u.ulHarq ∧ (r.next lib u).cfg = u.cfg := by
  obtain ⟨choice, mask, huser⟩ := DlRound.user_spec lib r u
  have hsame : (r.user lib u).ulHarq = u.ulHarq ∧ (r.user lib u).cfg = u.cfg := by
    rw [huser]
    exact ⟨rfl, rfl⟩
  have hreset : ∀ v : SchedUe, (v.resetTimeoutDlHarq lib r.s.currentTti).ulHarq = v.ulHarq ∧
      (v.resetTimeoutDlHarq lib r.s.currentTti).cfg = v.cfg := fun _ => ⟨rfl, rfl⟩
  have hsetDl : ∀ (v : SchedUe) pid h, (v.setDl pid h).ulHarq = v.ulHarq ∧
      (v.setDl pid h).cfg = v.cfg := fun _ _ _ => ⟨rfl, rfl⟩
  cases hn : (r.user lib u).dlNextAlloc with
  | none =>
    rw [(DlRound.out_idle hn).1, (hreset _).1, (hreset _).2]
    exact hsame
  | some pid =>
    cases hl : r.location lib u with
    | none =>
      rw [(DlRound.out_refused hn hl).1, (hreset _).1, (hreset _).2, (hsetDl _ _ _).1,
        (hsetDl _ _ _).2]
      exact hsame
    | some loc =>
      have hkeep : (r.generated lib u pid loc).1.ulHarq = (r.user lib u).ulHarq ∧
          (r.generated lib u pid loc).1.cfg = (r.user lib u).cfg := by
        unfold DlRound.generated
        exact generateFormat_frame _ _ _ _ _ _
      rw [(DlRound.out_sent hn hl).1, (hreset _).1, (hreset _).2, hkeep.1, hkeep.2]
      exact hsame

/-! ## An uplink round -/

/-- What the process knows of the block that it has sent. -/
structure KnowsUl (h : HarqProc) (g : SentUl) : Prop where
  counts : h.Counts 0 g.count
  bound : (h.tb 0).active = true → h.maxRetx ≤ g.bound

variable {h : UlHarqProc} {g : SentUl}

/-- A PHICH can only end the block. -/
theorem knowsUl_pendingAck (hk : KnowsUl h.toHarqProc g) :
    KnowsUl (h.step .hasPendingAck).toHarqProc g := by
  have hactive : ((h.step .hasPendingAck).tb 0).active = true → (h.tb 0).active = true := by
    simp only [UlHarqProc.step, UlHarqProc.hasPendingAck, HarqProc.setTb, Function.update_self]
    split_ifs
    · exact False.elim
    · exact id
  have htb : ((h.step .hasPendingAck).tb 0).nRtx = (h.tb 0).nRtx ∧
      ((h.step .hasPendingAck).tb 0).ackReceived = (h.tb 0).ackReceived := by
    simp [UlHarqProc.step, UlHarqProc.hasPendingAck, HarqProc.setTb]
  refine ⟨⟨hk.counts.lt, fun ha => ?_, fun ha hr => ?_⟩, fun ha => hk.bound (hactive ha)⟩
  · rw [htb.1]
    exact hk.counts.active (hactive ha)
  · exact hk.counts.acked (hactive ha) (htb.2 ▸ hr)

theorem knowsUl_reset (hlt : h.maxRetx < 2 ^ 32) : KnowsUl (h.step .reset).toHarqProc {} := by
  refine ⟨.reset hlt, fun ha => ?_⟩
  simp [UlHarqProc.step, UlHarqProc.reset, HarqProc.reset, HarqProc.setTb] at ha

theorem knowsUl_setAck (hk : KnowsUl h.toHarqProc g) (ack : Bool) :
    KnowsUl (h.setAck ack).toHarqProc g := by
  refine ⟨hk.counts.setAck ack, fun ha => hk.bound ?_⟩
  simp only [UlHarqProc.setAck, HarqProc.setAck, HarqProc.setTb, Function.update_self] at ha
  split_ifs at ha
  exact ha

theorem knowsUl_newTx {n : Nat} (hpos : 1 ≤ h.maxRetx) (hlt : h.maxRetx < 2 ^ 32)
    (hle : h.maxRetx ≤ n) (tti : Nat) (mcs tbs : Int) :
    KnowsUl (h.step (.newTx tti mcs tbs)).toHarqProc ⟨1, n⟩ :=
  ⟨.newTx hpos hlt tti mcs tbs, fun _ => hle⟩

theorem knowsUl_newRetx (hk : KnowsUl h.toHarqProc g) (ha : (h.tb 0).active = true)
    (hless : g.count < h.maxRetx) (tti : Nat) :
    KnowsUl (h.step (.newRetx tti)).toHarqProc { g with count := g.count + 1 } :=
  ⟨hk.counts.newRetx hless tti, fun _ => hk.bound ha⟩

theorem active_of_not_empty {p : HarqProc} {tb : Fin 2} (h : p.isEmpty tb = false) :
    (p.tb tb).active = true := by
  unfold HarqProc.isEmpty at h
  cases ha : (p.tb tb).active with
  | true => rfl
  | false => simp [ha] at h

/-- The calls of the PUSCH, on the process that it finds. -/
theorem puschCalls_knows {r : UlRound} {u : SchedUe}
    (hk : KnowsUl (r.found lib u).toHarqProc g) (hmax : IsMax (r.maxRetx u))
    (hused : (r.found lib u).hasRarMcs = false)
    (hmsg3 : r.isRar u = true → (r.found lib u).isEmpty 0 = true ∨
      (r.found lib u).maxRetx ≤ r.maxRetx u)
    (hretx : r.isRar u = false → (r.user lib u).ulNextAlloc.isSome = true →
      r.refused lib u = false → (r.found lib u).isEmpty 0 = false →
      (r.found lib u).maxRetx ≤ ((r.found lib u).tb 0).nRtx + 1 →
      ((r.found lib u).tb 0).ackReceived = true) :
    KnowsUl ((r.puschCalls lib u).foldl UlHarqProc.step (r.found lib u)).toHarqProc
        ((r.puschCalls lib u).foldl (SentUl.step (r.maxRetx u)) g) ∧
      AllSteps (SentUl.step (r.maxRetx u)) (SentUl.Bounded (r.maxRetx u)) g
        (r.puschCalls lib u) := by
  unfold UlRound.puschCalls
  cases hsends : r.sends lib u with
  | false =>
    rw [if_neg Bool.false_ne_true]
    exact ⟨hk, trivial⟩
  | true =>
    rw [if_pos rfl, hused, Bool.or_false]
    cases hempty : (r.found lib u).isEmpty 0 with
    | true =>
      rw [if_pos rfl, Bool.or_true, if_pos rfl]
      cases r.refused lib u with
      | true => exact ⟨knowsUl_reset hmax.2, trivial, trivial, trivial⟩
      | false => exact ⟨knowsUl_newTx hmax.1 hmax.2 le_rfl _ _ _, trivial, hmax.1, trivial⟩
    | false =>
      have hactive := active_of_not_empty hempty
      obtain ⟨hcount, hle⟩ := hk.counts.active hactive
      rw [if_neg Bool.false_ne_true, Bool.or_false, List.nil_append]
      cases hrefused : r.refused lib u with
      | true => exact ⟨knowsUl_reset hk.counts.lt, trivial, trivial⟩
      | false =>
        rw [if_neg Bool.false_ne_true]
        cases hrar : r.isRar u with
        | true =>
          rw [if_pos rfl]
          have hallows := (hmsg3 hrar).resolve_left (by simp [hempty])
          exact ⟨knowsUl_newTx (by omega) hk.counts.lt hallows _ _ _, hmax.1, trivial⟩
        | false =>
          rw [if_neg Bool.false_ne_true]
          have hnext : (r.user lib u).ulNextAlloc.isSome = true := by
            simpa [UlRound.sends, hrar] using hsends
          have hless : g.count < (r.found lib u).maxRetx := by
            by_contra hlast
            have hack := hretx hrar hnext hrefused hempty (by omega)
            exact hlast (hk.counts.acked hactive hack)
          have hbound := hk.bound hactive
          refine ⟨knowsUl_newRetx hk hactive hless _, ?_, trivial⟩
          show g.count + 1 ≤ g.bound
          omega

/-- What the processes know of their blocks. -/
structure Inv (st : TxRun) : Prop where
  isMax : IsMax st.ue.cfg.maxharqTx
  dl : ∀ i tb, (st.ue.dlHarq i).Knows tb (st.sent i tb)
  ul : ∀ i, KnowsUl (st.ue.ulHarq i).toHarqProc (st.sentUl i)
  used : ∀ i, (st.ue.ulHarq i).hasRarMcs = false

theorem dlRound_knows (hI : Inv st) {r : DlRound} (hC : Allowed lib st (.dlRound r)) (i : Pid)
    (tb : Fin 2) :
    ((r.next lib st.ue).dlHarq i).Knows tb
        ((r.calls lib st.ue i).foldl (SentTb.step tb) (st.sent i tb)) ∧
      AllSteps (SentTb.step tb) (SentTb.Bounded tb (st.ue.dlHarq i).maxRetx) (st.sent i tb)
        (r.calls lib st.ue i) := by
  have hsame : ((r.user lib st.ue).dlHarq i).toHarqProc = (st.ue.dlHarq i).toHarqProc :=
    DlRound.user_proc i
  obtain ⟨hknows, hbounded⟩ := ((hI.dl i tb).congr hsame).foldl (calls_retxAcked hC i tb)
  rw [hsame] at hbounded
  rw [DlRound.next_dlHarq]
  exact ⟨hknows, hbounded⟩

theorem ulRound_knows (hI : Inv st) {r : UlRound} (hC : Allowed lib st (.ulRound r)) (i : Pid) :
    KnowsUl ((r.next lib st.ue).ulHarq i).toHarqProc
        ((r.calls lib st.ue i).foldl (SentUl.step (r.maxRetx st.ue)) (st.sentUl i)) ∧
      AllSteps (SentUl.step (r.maxRetx st.ue)) (SentUl.Bounded (r.maxRetx st.ue)) (st.sentUl i)
        (r.calls lib st.ue i) := by
  obtain ⟨hrar, hretx⟩ := hC
  rw [(UlRound.next_ulHarq i).1]
  unfold UlRound.calls
  by_cases hi : i = r.pid
  · subst hi
    rw [if_pos rfl, ← UlRound.foldl_found]
    -- The PHICH leaves the counters as they are.
    have hfound : (r.found lib st.ue).toHarqProc =
        ((st.ue.ulHarq r.pid).step .hasPendingAck).toHarqProc := UlRound.foldl_found []
    have hproc : (r.found lib st.ue).maxRetx = (st.ue.ulHarq r.pid).maxRetx ∧
        ((r.found lib st.ue).tb 0).nRtx = ((st.ue.ulHarq r.pid).tb 0).nRtx ∧
        ((r.found lib st.ue).tb 0).ackReceived =
          ((st.ue.ulHarq r.pid).tb 0).ackReceived := by
      rw [hfound]
      simp [UlHarqProc.step, UlHarqProc.hasPendingAck, HarqProc.setTb]
    have hknows : KnowsUl (r.found lib st.ue).toHarqProc (st.sentUl r.pid) := by
      rw [hfound]
      exact knowsUl_pendingAck (hI.ul r.pid)
    have hmax : IsMax (r.maxRetx st.ue) := by
      unfold UlRound.maxRetx
      split_ifs with h
      · exact (hrar h).1
      · exact hI.isMax
    have hmsg3 : r.isRar st.ue = true → (r.found lib st.ue).isEmpty 0 = true ∨
        (r.found lib st.ue).maxRetx ≤ r.maxRetx st.ue := by
      intro h
      rw [hproc.1, UlRound.maxRetx, if_pos h]
      exact (hrar h).2
    rw [← hproc.1, ← hproc.2.1, ← hproc.2.2] at hretx
    obtain ⟨hlast, hbounded⟩ := puschCalls_knows hknows hmax
      ((UlRound.found_hasRarMcs lib r st.ue).trans (hI.used r.pid)) hmsg3 hretx
    exact ⟨hlast, trivial, hbounded⟩
  · rw [if_neg hi]
    exact ⟨hI.ul i, trivial⟩

theorem withinMax_step (hI : Inv st) (e : TxEvent) (hC : Allowed lib st e) :
    WithinMax lib st e := by
  cases e with
  | dlRound r => exact fun i tb => (dlRound_knows hI hC i tb).2
  | ulRound r => exact fun i => (ulRound_knows hI hC i).2
  | ack tti tb ack => exact trivial
  | crc tti crc => exact trivial
  | setCfg rnti cfg bearers cell locations => exact trivial
  | other ue => exact trivial

theorem inv_setCfg {u : SchedUe} (hused : ∀ i, (u.ulHarq i).hasRarMcs = false) {rnti : Nat}
    {cfg : UeCfg} (hcfg : IsMax cfg.maxharqTx) (bearers : List Direction) (cell : Cell)
    (locations : Nat → Nat → DciCce) :
    Inv { ue := u.setCfg lib rnti cfg bearers cell locations } := by
  have hdl : ∀ i tb,
      (((u.setCfg lib rnti cfg bearers cell locations).dlHarq i).tb tb).active = false := by
    intro i tb
    match tb with
    | 0 | 1 =>
      simp [SchedUe.setCfg, SchedUe.reset, HarqProc.config, DlHarqProc.resetAll,
        DlHarqProc.reset, HarqProc.reset, HarqProc.setTb]
  have hul : ∀ i,
      (((u.setCfg lib rnti cfg bearers cell locations).ulHarq i).tb 0).active = false := by
    intro i
    simp [SchedUe.setCfg, SchedUe.reset, HarqProc.config, HarqProc.reset, HarqProc.setTb]
  exact ⟨hcfg, fun i tb => ⟨hcfg.1, .idle hcfg.2 (hdl i tb), fun _ _ => rfl⟩,
    fun i => ⟨.idle hcfg.2 (hul i), fun ha => absurd ha (by simp [hul i])⟩, hused⟩

theorem inv_step (hI : Inv st) (e : TxEvent) (hC : Allowed lib st e) : Inv (step lib st e) := by
  cases e with
  | dlRound r =>
    obtain ⟨hul, hcfg⟩ := dlRound_frame lib r st.ue
    refine ⟨?_, fun i tb => (dlRound_knows hI hC i tb).1, fun i => ?_, fun i => ?_⟩
    · exact hcfg ▸ hI.isMax
    · simp only [step, hul]
      exact hI.ul i
    · simp only [step, hul]
      exact hI.used i
  | ulRound r =>
    obtain ⟨-, hcfg, hdl⟩ := UlRound.next_frame lib r st.ue
    refine ⟨?_, fun i tb => ?_, fun i => (ulRound_knows hI hC i).1,
      fun i => (UlRound.next_ulHarq i).2 (hI.used i)⟩
    · exact hcfg ▸ hI.isMax
    · simp only [step, hdl]
      exact hI.dl i tb
  | ack tti tb ack =>
    refine ⟨?_, fun i b => ?_, fun i => ?_, fun i => ?_⟩
    all_goals
      simp only [step, SchedUe.setAckInfo]
    · split <;> exact hI.isMax
    · cases hfind : st.ue.findAck tti with
      | none => exact hI.dl i b
      | some j =>
        simp only [Option.some.injEq]
        by_cases hi : j = i
        · subst hi
          rw [if_pos rfl, SchedUe.setDl_dlHarq]
          exact ((hI.dl j b).step (.setAck tb ack) trivial).1
        · rw [if_neg hi]
          simpa [SchedUe.setDl, Ne.symm hi] using hI.dl i b
    · split <;> exact hI.ul i
    · split <;> exact hI.used i
  | crc tti crc =>
    refine ⟨hI.isMax, hI.dl, fun i => ?_, fun i => ?_⟩
    all_goals
      simp only [step, SchedUe.setUlCrc]
      by_cases hi : i = SchedUe.getUlHarq tti
    · subst hi
      rw [SchedUe.setUl_ulHarq]
      exact knowsUl_setAck (hI.ul _) crc
    · rw [SchedUe.setUl_ulHarq_ne _ hi]
      exact hI.ul i
    · subst hi
      rw [SchedUe.setUl_ulHarq]
      exact hI.used _
    · rw [SchedUe.setUl_ulHarq_ne _ hi]
      exact hI.used i
  | setCfg rnti cfg bearers cell locations => exact inv_setCfg hI.used hC bearers cell locations
  | other ue => exact ⟨hI.isMax, hI.dl, hI.ul, hI.used⟩

/-- **The number of transmissions is bounded** in every run whose steps are allowed. -/
theorem within_max (lib : Lib) (rnti : Nat) (cfg : UeCfg) (bearers : List Direction) (cell : Cell)
    (locations : Nat → Nat → DciCce) (es : List TxEvent) (hcfg : IsMax cfg.maxharqTx)
    (h : AllSteps (step lib) (Allowed lib) (init lib rnti cfg bearers cell locations) es) :
    AllSteps (step lib) (WithinMax lib) (init lib rnti cfg bearers cell locations) es :=
  allSteps_of_allSteps (I := Inv) (fun _ _ hI hC => inv_step hI _ hC)
    (fun _ _ hI hC => withinMax_step hI _ hC) (inv_setCfg (fun _ => rfl) hcfg _ _ _) h

/-! ## A feedback that does not come -/

/-- A user with up to four transmissions for each block, in a cell of 6 PRBs. -/
def exampleInit : TxRun :=
  init exampleLib 70 { maxharqTx := 4 } [.both] ⟨6, 1, 7⟩
    fun _ _ => ⟨fun L n => n * 2 ^ L, fun _ => 4⟩

/-- Data for the user, and a report of its own data. -/
def exampleData : TxEvent :=
  .other { exampleInit.ue with lch := [{ direction := .both, bufTx := 1000, bsr := 1000 }] }

def exampleDl (tti : Nat) : TxEvent := .dlRound (ConResRun.exampleRound tti false)

def exampleUl (tti : Nat) : TxEvent :=
  .ulRound
    { tti := tti, pucch := none, retx := ({} : UlMetric).resetAllocation 6
      newtx := ({} : UlMetric).resetAllocation 6
      s := { Sched.exampleSched with currentTti := tti, currentCfi := 3, sfIdx := tti % 10 } }

/-- Two retransmissions in the downlink and one in the uplink, each after a NACK. -/
theorem within_max_nackRun :
    AllSteps (step exampleLib) (WithinMax exampleLib) exampleInit
      [exampleData, exampleDl 10, .ack 14 0 false, exampleDl 18, .ack 22 0 false, exampleDl 26,
        .ack 30 0 true, exampleUl 10, .crc 10 false, exampleUl 18, .crc 18 true] :=
  within_max exampleLib 70 { maxharqTx := 4 } [.both] ⟨6, 1, 7⟩ _ _ (by decide) (by decide +kernel)

/-- After one NACK no feedback comes any more, and the block is sent again all the same, five
times in all. -/
theorem not_within_max_silentRun :
    (exec (step exampleLib) exampleInit [exampleData, exampleDl 10, .ack 14 0 false, exampleDl 18,
        exampleDl 26, exampleDl 34, exampleDl 42]).sent 0 0 = ⟨5, true⟩ ∧
      ¬ AllSteps (step exampleLib) (WithinMax exampleLib) exampleInit
        [exampleData, exampleDl 10, .ack 14 0 false, exampleDl 18, exampleDl 26] ∧
      ¬ AllSteps (step exampleLib) (WithinMax exampleLib) exampleInit
        [exampleData, exampleUl 10, .crc 10 false, exampleUl 18, exampleUl 26, exampleUl 34,
          exampleUl 42] := by
  decide +kernel

end TxRun

end Srsenb.Mac
