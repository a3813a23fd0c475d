import Srsenb.Mac.Phich

/-! # The calls of an uplink round

What one call of `ul_sched` does to the processes of a user: the PHICH, the PUCCH, the two rounds
of the metric and the PUSCH. Between them the process of the TTI changes by a few calls. -/

namespace Srsenb.Mac

/-- The calls that change an uplink process. -/
inductive UlHarqEvent
  | hasPendingAck
  | setMaxRetx (maxRetx : Nat)
  | newTx (tti : Nat) (mcs tbs : Int)
  | newRetx (tti : Nat)
  | setAck (ack : Bool)
  | reset
  deriving DecidableEq

namespace UlHarqProc

def step (h : UlHarqProc) : UlHarqEvent → UlHarqProc
  | .hasPendingAck => h.hasPendingAck.2
  | .setMaxRetx maxRetx => h.setMaxRetx maxRetx
  | .newTx tti mcs tbs => h.newTx tti mcs tbs
  | .newRetx tti => (h.newRetx tti).1
  | .setAck ack => h.setAck ack
  | .reset => h.reset

/-- A call reads and changes what all processes have, beside the fields of the uplink. -/
theorem step_proc {h g : UlHarqProc} (hg : h.toHarqProc = g.toHarqProc) (e : UlHarqEvent) :
    (step h e).toHarqProc = (step g e).toHarqProc := by
  cases e with
  | hasPendingAck => simp only [step, hasPendingAck, hg]
  | setMaxRetx maxRetx => simp only [step, setMaxRetx, hg]
  | newTx tti mcs tbs => simp only [step, newTx, hg]
  | newRetx tti => simp only [step, newRetx, hg]
  | setAck ack => simp only [step, setAck, hg]
  | reset => simp only [step, reset, hg]

theorem foldl_proc {h g : UlHarqProc} (hg : h.toHarqProc = g.toHarqProc) (es : List UlHarqEvent) :
    (es.foldl step h).toHarqProc = (es.foldl step g).toHarqProc := by
  induction es generalizing h g with
  | nil => exact hg
  | cons e es ih => exact ih (step_proc hg e)

end UlHarqProc

/-- What the reservations and the metric keep of a user. -/
structure SchedUe.Kept (u u' : SchedUe) : Prop where
  rnti : u'.rnti = u.rnti
  cfg : u'.cfg = u.cfg
  dlHarq : u'.dlHarq = u.dlHarq
  procs : ∀ i, (u'.ulHarq i).toHarqProc = (u.ulHarq i).toHarqProc ∧
    (u'.ulHarq i).hasRarMcs = (u.ulHarq i).hasRarMcs

namespace SchedUe

variable {lib : Lib} {u u' u'' : SchedUe} {pid : Pid} {tti : Nat}

theorem Kept.refl (u : SchedUe) : Kept u u := ⟨rfl, rfl, rfl, fun _ => ⟨rfl, rfl⟩⟩

theorem Kept.trans (h : Kept u u') (h' : Kept u' u'') : Kept u u'' :=
  ⟨h'.rnti.trans h.rnti, h'.cfg.trans h.cfg, h'.dlHarq.trans h.dlHarq,
    fun i => ⟨(h'.procs i).1.trans (h.procs i).1, (h'.procs i).2.trans (h.procs i).2⟩⟩

theorem Kept.setUl {h : UlHarqProc} (hproc : h.toHarqProc = (u.ulHarq pid).toHarqProc)
    (hrar : h.hasRarMcs = (u.ulHarq pid).hasRarMcs) : Kept u (u.setUl pid h) := by
  refine ⟨rfl, rfl, rfl, fun i => ?_⟩
  by_cases hi : i = pid
  · subst hi
    rw [setUl_ulHarq]
    exact ⟨hproc, hrar⟩
  · rw [setUl_ulHarq_ne h hi]
    exact ⟨rfl, rfl⟩

theorem Kept.setAlloc (u : SchedUe) (pid : Pid) (alloc : UlAlloc) :
    Kept u (u.setUl pid ((u.ulHarq pid).setAlloc alloc)) := Kept.setUl rfl rfl

/-- The metric sets an allocation and the choice, no more. -/
theorem visitRetx_kept (m : UlMetric) (k : Nat) (u : SchedUe) :
    Kept u (UlMetric.visitRetx lib m k u).2 := by
  unfold UlMetric.visitRetx UlMetric.allocateUserRetxPrbs
  simp only
  split_ifs
  · exact ⟨rfl, rfl, rfl, fun _ => ⟨rfl, rfl⟩⟩
  · exact ⟨rfl, rfl, rfl, (Kept.setAlloc u (getUlHarq m.currentTti) _).procs⟩
  · exact ⟨rfl, rfl, rfl, fun _ => ⟨rfl, rfl⟩⟩
  · exact ⟨rfl, rfl, rfl, fun _ => ⟨rfl, rfl⟩⟩

theorem visitNewtx_kept (m : UlMetric) (k : Nat) (u : SchedUe) :
    Kept u (UlMetric.visitNewtx lib m k u).2 := by
  unfold UlMetric.visitNewtx UlMetric.allocateUserNewtxPrbs
  simp only
  split_ifs
  · exact ⟨rfl, rfl, rfl, (Kept.setAlloc u (getUlHarq m.currentTti) _).procs⟩
  · exact ⟨rfl, rfl, rfl, fun _ => ⟨rfl, rfl⟩⟩
  · exact ⟨rfl, rfl, rfl, fun _ => ⟨rfl, rfl⟩⟩
  · exact Kept.refl u

theorem pucchUser_kept (tti : Nat) (m : UlMetric) (k : Nat) (u : SchedUe) :
    Kept u (Sched.pucchUser lib tti m k u).2 := by
  unfold Sched.pucchUser
  split
  · exact ⟨rfl, rfl, rfl, fun _ => ⟨rfl, rfl⟩⟩
  · exact Kept.refl u

theorem needsCqi_kept (lib : Lib) (tti : Nat) (willBeSent : Bool) (u : SchedUe) :
    Kept u (u.needsCqi lib tti willBeSent).2 := by
  unfold needsCqi
  split_ifs <;> exact ⟨rfl, rfl, rfl, fun _ => ⟨rfl, rfl⟩⟩

/-- `generate_format0` opens a block for a RAR or on an empty process, and else retransmits. -/
theorem format0Proc_spec (lib : Lib) (u : SchedUe) (h : UlHarqProc) (tti : Nat) :
    let f := u.format0Proc lib h tti
    f.1.toHarqProc = (h.step (if h.hasRarMcs || h.isEmpty 0 then .newTx tti f.2.2.1 f.2.2.2
      else .newRetx tti)).toHarqProc ∧ f.1.hasRarMcs = false := by
  intro f
  simp only [f, format0Proc, UlHarqProc.getRarMcs]
  cases hrar : h.hasRarMcs with
  | true =>
    simp only [if_true, Bool.true_or]
    exact ⟨rfl, rfl⟩
  | false =>
    simp only [Bool.false_eq_true, if_false, Bool.false_or]
    split_ifs
    · exact ⟨rfl, hrar⟩
    · exact ⟨rfl, hrar⟩

end SchedUe

/-! ## Rounds -/

/-- What `ul_sched` brings to the round of a user: the metric that reserves its PUCCH, where the
cell does not fix the PRBs, and those of the two loops of `new_tti`; and later the scheduler and
the slot of the results. -/
structure UlRound where
  tti : Nat
  pucch : Option UlMetric
  retx : UlMetric
  newtx : UlMetric
  s : Sched
  slot : UlSchedData := {}

namespace UlRound

variable (lib : Lib) (r : UlRound) (u : SchedUe)

def pid : Pid := SchedUe.getUlHarq r.tti

/-- The user after the PHICH. -/
def fed : SchedUe := (Sched.phichUser r.tti [] u.rnti u).2

/-- The user after the PUCCH. -/
def reserved : SchedUe :=
  match r.pucch with
  | some m => (Sched.pucchUser lib r.tti m u.rnti (r.fed u)).2
  | none => r.fed u

/-- The user after the metric. -/
def user : SchedUe :=
  (UlMetric.visitNewtx lib { r.newtx with currentTti := r.tti } u.rnti
    (UlMetric.visitRetx lib { r.retx with currentTti := r.tti } u.rnti (r.reserved lib u)).2).2

def out : (Sched × Elems UlSchedData) × SchedUe :=
  Sched.puschUser lib r.tti (r.s, ⟨[], r.slot⟩) u.rnti (r.user lib u)

/-- The user after the round. -/
def next : SchedUe := (Sched.pendingDataUser r.tti () u.rnti (r.out lib u).2).2

/-- The Msg3 of the user is due. -/
def isRar : Bool :=
  (r.s.pendingMsg3 (r.tti % 10)).enabled && decide ((r.s.pendingMsg3 (r.tti % 10)).rnti = u.rnti)

/-- The process of the TTI, as the PUSCH finds it. -/
def found : UlHarqProc := (r.user lib u).ulHarq r.pid

/-- There is a process to send. -/
def sends : Bool := r.isRar u || (r.user lib u).ulNextAlloc.isSome

/-- The `max_retx` that a block gets that is opened now. -/
def maxRetx : Nat := if r.isRar u then r.s.cfg.maxharqMsg3tx else u.cfg.maxharqTx

/-- The user with its Msg3's allocation, and with the `max_retx` of a block that is opened. -/
def opened : SchedUe :=
  let v := (r.s.puschProc r.tti u.rnti (r.user lib u)).2.1
  if (v.ulHarq r.pid).isEmpty 0 then
    v.setUl r.pid ((v.ulHarq r.pid).setMaxRetx (r.maxRetx u))
  else v

/-- The DCI has no place, and is not that of a RAR or of a non-adaptive retransmission. -/
def refused : Bool :=
  !((r.opened lib u).ulHarq r.pid).isAdaptive && !r.isRar u &&
    (r.s.generateDci lib ((r.opened lib u).getLocations r.s.currentCfi r.s.sfIdx)
      ((r.opened lib u).getAggrLevel lib
        (lib.dciFormatSizeof .format0 r.s.cfg.cell.nofPrb r.s.cfg.cell.nofPorts))
      fun _ => false).1.isNone

def format0 : UlHarqProc × Bool × Int × Int :=
  ((r.opened lib u).needsCqi lib r.tti true).2.format0Proc lib
    (((r.opened lib u).needsCqi lib r.tti true).2.ulHarq r.pid) r.tti

/-- The calls of the PUSCH on the process of the TTI. -/
def puschCalls : List UlHarqEvent :=
  if r.sends lib u then
    (if (r.found lib u).isEmpty 0 then [.setMaxRetx (r.maxRetx u)] else []) ++
      [if r.refused lib u then .reset
        else if r.isRar u || (r.found lib u).hasRarMcs || (r.found lib u).isEmpty 0 then
          .newTx r.tti (r.format0 lib u).2.2.1 (r.format0 lib u).2.2.2
        else .newRetx r.tti]
  else []

/-- The calls of the round on process `i`. -/
def calls (i : Pid) : List UlHarqEvent :=
  if i = r.pid then .hasPendingAck :: r.puschCalls lib u else []

variable {lib r u}

theorem fed_spec : (r.fed u).rnti = u.rnti ∧ (r.fed u).cfg = u.cfg ∧
    (r.fed u).dlHarq = u.dlHarq ∧ (r.fed u).ulHarq r.pid = (u.ulHarq r.pid).hasPendingAck.2 ∧
    ∀ i ≠ r.pid, (r.fed u).ulHarq i = u.ulHarq i :=
  ⟨rfl, rfl, rfl, SchedUe.setUl_ulHarq _, fun _ hi => SchedUe.setUl_ulHarq_ne _ hi⟩

theorem user_kept (lib : Lib) (r : UlRound) (u : SchedUe) : (r.fed u).Kept (r.user lib u) := by
  have hreserved : (r.fed u).Kept (r.reserved lib u) := by
    unfold reserved
    split
    · exact SchedUe.pucchUser_kept _ _ _ _
    · exact SchedUe.Kept.refl _
  unfold user
  exact (hreserved.trans (SchedUe.visitRetx_kept _ _ _)).trans (SchedUe.visitNewtx_kept _ _ _)

/-- The metric chooses the process of the TTI, or none. -/
theorem user_next : ∀ p ∈ (r.user lib u).ulNextAlloc, p = r.pid := by
  have hretx := (Sched.visitRetx_offers lib { r.retx with currentTti := r.tti } u.rnti
    (r.reserved lib u)).2.next
  exact (Sched.visitNewtx_offers lib { r.newtx with currentTti := r.tti } u.rnti hretx).2.next

/-! ## The PUSCH -/

theorem puschProc_rar {s : Sched} {tti rnti : Nat} {v : SchedUe}
    (h : ((s.pendingMsg3 (tti % 10)).enabled &&
      decide ((s.pendingMsg3 (tti % 10)).rnti = rnti)) = true) :
    ∃ s' alloc, s'.cfg = s.cfg ∧ s.puschProc tti rnti v =
      (s', v.setUl (SchedUe.getUlHarq tti)
        (((v.ulHarq (SchedUe.getUlHarq tti)).setAlloc alloc).setRarMcs
          (s.pendingMsg3 (tti % 10)).mcs), true, some (SchedUe.getUlHarq tti)) := by
  unfold Sched.puschProc
  simp only [h, if_true]
  refine ⟨_, _, ?_, rfl⟩
  rfl

theorem puschProc_other {s : Sched} {tti rnti : Nat} {v : SchedUe}
    (h : ((s.pendingMsg3 (tti % 10)).enabled &&
      decide ((s.pendingMsg3 (tti % 10)).rnti = rnti)) = false) :
    s.puschProc tti rnti v = (s, v, false, v.ulNextAlloc) := by
  unfold Sched.puschProc
  simp only [h, Bool.false_eq_true, if_false]

/-- What a transmission leaves of a user: one process changes. -/
structure TxOf (u u' : SchedUe) (pid : Pid) (h : UlHarqProc) : Prop where
  rnti : u'.rnti = u.rnti
  cfg : u'.cfg = u.cfg
  dlHarq : u'.dlHarq = u.dlHarq
  proc : u'.ulHarq pid = h
  others : ∀ i ≠ pid, (u'.ulHarq i).toHarqProc = (u.ulHarq i).toHarqProc ∧
    (u'.ulHarq i).hasRarMcs = (u.ulHarq i).hasRarMcs

theorem puschGrant_proc (v : SchedUe) (pid : Pid) (isNewtx : Bool) (tti : Nat)
    (out : Elems UlSchedData) (slot : UlSchedData) :
    TxOf v (Sched.puschGrant lib v pid isNewtx tti out slot).2 pid
      ((v.needsCqi lib tti true).2.format0Proc lib
        ((v.needsCqi lib tti true).2.ulHarq pid) tti).1 := by
  have hkept := SchedUe.needsCqi_kept lib tti true v
  obtain ⟨⟨cqi, w⟩, hw⟩ : ∃ w, v.needsCqi lib tti true = w := ⟨_, rfl⟩
  rw [hw] at hkept ⊢
  have hothers : ∀ {w' : SchedUe} {h : UlHarqProc}, w'.ulHarq = (w.setUl pid h).ulHarq →
      ∀ i ≠ pid, (w'.ulHarq i).toHarqProc = (v.ulHarq i).toHarqProc ∧
        (w'.ulHarq i).hasRarMcs = (v.ulHarq i).hasRarMcs := by
    intro w' h hw' i hi
    rw [hw', SchedUe.setUl_ulHarq_ne h hi]
    exact hkept.procs i
  simp only [Sched.puschGrant, hw, SchedUe.generateFormat0]
  obtain ⟨f, hf⟩ : ∃ f, w.format0Proc lib (w.ulHarq pid) tti = f := ⟨_, rfl⟩
  simp only [hf]
  split_ifs
  all_goals
    exact ⟨hkept.rnti, hkept.cfg, hkept.dlHarq, SchedUe.setUl_ulHarq _, hothers rfl⟩

/-- `v` is the user with the `max_retx` of a block that is opened. -/
theorem puschTx_proc (lib : Lib) (s : Sched) (tti : Nat) (out : Elems UlSchedData) (u : SchedUe)
    (isRar : Bool) (pid : Pid) {v : SchedUe} (hv : (if (u.ulHarq pid).isEmpty 0 then u.setUl pid
      ((u.ulHarq pid).setMaxRetx (if isRar then s.cfg.maxharqMsg3tx else u.cfg.maxharqTx))
      else u) = v) :
    TxOf v (s.puschTx lib tti out u isRar pid).2 pid
      (if !(v.ulHarq pid).isAdaptive && !isRar && (s.generateDci lib
          (v.getLocations s.currentCfi s.sfIdx) (v.getAggrLevel lib
            (lib.dciFormatSizeof .format0 s.cfg.cell.nofPrb s.cfg.cell.nofPorts))
          fun _ => false).1.isNone
        then (v.ulHarq pid).reset
        else ((v.needsCqi lib tti true).2.format0Proc lib
          ((v.needsCqi lib tti true).2.ulHarq pid) tti).1) := by
  have hadapt : (v.ulHarq pid).isAdaptive = (u.ulHarq pid).isAdaptive := by
    rw [← hv]
    by_cases hempty : (u.ulHarq pid).isEmpty 0 = true
    · rw [if_pos hempty, SchedUe.setUl_ulHarq]
      rfl
    · rw [if_neg hempty]
  rw [hadapt]
  simp only [Sched.puschTx, hv]
  by_cases hpdcch : (!(u.ulHarq pid).isAdaptive && !isRar) = true
  · simp only [hpdcch, if_true, Bool.true_and]
    split
    · rename_i s1 hs1
      rw [hs1]
      exact ⟨rfl, rfl, rfl, SchedUe.setUl_ulHarq _, fun i hi => by
        rw [SchedUe.setUl_ulHarq_ne _ hi]
        exact ⟨rfl, rfl⟩⟩
    · rename_i loc s1 hs1
      rw [hs1]
      simp only [Option.isNone_some, Bool.false_eq_true, if_false]
      exact puschGrant_proc v pid _ tti out _
  · simp only [if_neg hpdcch]
    rw [Bool.eq_false_iff.mpr hpdcch]
    simp only [Bool.false_and, Bool.false_eq_true, if_false]
    exact puschGrant_proc v pid _ tti out _

/-- The user as its process is taken for a Msg3, or by the metric's choice. -/
theorem taken_spec (lib : Lib) (r : UlRound) (u : SchedUe) :
    TxOf (r.user lib u) (r.s.puschProc r.tti u.rnti (r.user lib u)).2.1 r.pid
      ((r.s.puschProc r.tti u.rnti (r.user lib u)).2.1.ulHarq r.pid) ∧
    ((r.s.puschProc r.tti u.rnti (r.user lib u)).2.1.ulHarq r.pid).toHarqProc =
      (r.found lib u).toHarqProc ∧
    ((r.s.puschProc r.tti u.rnti (r.user lib u)).2.1.ulHarq r.pid).hasRarMcs =
      (r.isRar u || (r.found lib u).hasRarMcs) := by
  cases hrar : r.isRar u with
  | true =>
    obtain ⟨s', alloc, -, hproc⟩ := puschProc_rar (v := r.user lib u) hrar
    rw [hproc]
    simp only [pid, SchedUe.setUl_ulHarq]
    exact ⟨⟨rfl, rfl, rfl, SchedUe.setUl_ulHarq _, fun i hi => by
      rw [SchedUe.setUl_ulHarq_ne _ hi]
      exact ⟨rfl, rfl⟩⟩, rfl, rfl⟩
  | false =>
    rw [puschProc_other hrar, Bool.false_or]
    exact ⟨⟨rfl, rfl, rfl, rfl, fun _ _ => ⟨rfl, rfl⟩⟩, rfl, rfl⟩

theorem opened_spec (lib : Lib) (r : UlRound) (u : SchedUe) :
    TxOf (r.user lib u) (r.opened lib u) r.pid ((r.opened lib u).ulHarq r.pid) ∧
    ((r.opened lib u).ulHarq r.pid).toHarqProc =
      ((if (r.found lib u).isEmpty 0 then [.setMaxRetx (r.maxRetx u)] else []).foldl
        UlHarqProc.step (r.found lib u)).toHarqProc ∧
    ((r.opened lib u).ulHarq r.pid).hasRarMcs =
      (r.isRar u || (r.found lib u).hasRarMcs) := by
  obtain ⟨htx, hproc, hrar⟩ := taken_spec lib r u
  obtain ⟨w, hw⟩ : ∃ w, (r.s.puschProc r.tti u.rnti (r.user lib u)).2.1 = w := ⟨_, rfl⟩
  rw [hw] at htx hproc hrar
  unfold opened
  simp only [hw, hproc]
  by_cases hempty : (r.found lib u).isEmpty 0 = true
  · rw [if_pos hempty, if_pos hempty]
    refine ⟨⟨htx.rnti, htx.cfg, htx.dlHarq, rfl, fun i hi => ?_⟩, ?_, ?_⟩
    · rw [SchedUe.setUl_ulHarq_ne _ hi]
      exact htx.others i hi
    · rw [SchedUe.setUl_ulHarq]
      exact UlHarqProc.step_proc hproc (.setMaxRetx _)
    · rw [SchedUe.setUl_ulHarq]
      exact hrar
  · rw [if_neg hempty, if_neg hempty]
    exact ⟨htx, hproc, hrar⟩

theorem out_idle (h : r.sends lib u = false) : (r.out lib u).2 = r.user lib u := by
  unfold sends at h
  obtain ⟨hrar, hnext⟩ := Bool.or_eq_false_iff.mp h
  have hnone : (r.user lib u).ulNextAlloc = none := by simpa using hnext
  unfold out Sched.puschUser
  simp only [puschProc_other hrar, hnone]

theorem out_sent (h : r.sends lib u = true) :
    TxOf (r.opened lib u) (r.out lib u).2 r.pid
      (if r.refused lib u then ((r.opened lib u).ulHarq r.pid).reset
        else (r.format0 lib u).1) := by
  unfold out Sched.puschUser refused format0
  cases hrar : r.isRar u with
  | true =>
    obtain ⟨s', alloc, hcfg, hproc⟩ := puschProc_rar (v := r.user lib u) hrar
    simp only [hproc]
    have htx := puschTx_proc lib s' r.tti ⟨[], r.slot⟩
      ((r.user lib u).setUl r.pid ((((r.user lib u).ulHarq r.pid).setAlloc alloc).setRarMcs
        (r.s.pendingMsg3 (r.tti % 10)).mcs)) true r.pid (v := r.opened lib u) (by
        unfold opened maxRetx
        simp only [hproc, hrar, hcfg]
        rfl)
    simp only [Bool.not_true, Bool.and_false, Bool.false_and] at htx ⊢
    exact htx
  | false =>
    unfold sends at h
    rw [hrar, Bool.false_or] at h
    obtain ⟨p, hp⟩ := Option.isSome_iff_exists.mp h
    obtain rfl := user_next p hp
    simp only [puschProc_other hrar, hp]
    refine puschTx_proc lib r.s r.tti ⟨[], r.slot⟩ (r.user lib u) false r.pid ?_
    unfold opened maxRetx
    simp only [puschProc_other hrar, hrar]
    rw [(user_kept lib r u).cfg]
    rfl

theorem foldl_found (es : List UlHarqEvent) :
    (es.foldl UlHarqProc.step (r.found lib u)).toHarqProc =
      ((.hasPendingAck :: es).foldl UlHarqProc.step (u.ulHarq r.pid)).toHarqProc := by
  refine UlHarqProc.foldl_proc ?_ es
  rw [found, ((user_kept lib r u).procs r.pid).1, fed_spec.2.2.2.1]
  rfl

theorem found_hasRarMcs (lib : Lib) (r : UlRound) (u : SchedUe) :
    (r.found lib u).hasRarMcs = (u.ulHarq r.pid).hasRarMcs := by
  rw [found, ((user_kept lib r u).procs r.pid).2, fed_spec.2.2.2.1]
  rfl

/-- What `generate_format0` leaves of the process is what the last call does. -/
theorem format0_proc (lib : Lib) (r : UlRound) (u : SchedUe) : (r.format0 lib u).1.toHarqProc =
      (((r.opened lib u).ulHarq r.pid).step
        (if r.isRar u || (r.found lib u).hasRarMcs || (r.found lib u).isEmpty 0 then
          .newTx r.tti (r.format0 lib u).2.2.1 (r.format0 lib u).2.2.2
        else .newRetx r.tti)).toHarqProc ∧
    (r.format0 lib u).1.hasRarMcs = false := by
  obtain ⟨-, hproc, hrar⟩ := opened_spec lib r u
  have hkept := (SchedUe.needsCqi_kept lib r.tti true (r.opened lib u)).procs r.pid
  obtain ⟨hspec, hused⟩ := SchedUe.format0Proc_spec lib
    ((r.opened lib u).needsCqi lib r.tti true).2
    (((r.opened lib u).needsCqi lib r.tti true).2.ulHarq r.pid) r.tti
  have hempty : ((r.opened lib u).ulHarq r.pid).toHarqProc.isEmpty 0 =
      (r.found lib u).isEmpty 0 := by
    rw [hproc]
    split_ifs <;> rfl
  rw [hkept.2, hrar, hkept.1, hempty] at hspec
  exact ⟨hspec.trans (UlHarqProc.step_proc hkept.1 _), hused⟩

/-- The round leaves the process of the TTI as its calls do. -/
theorem out_proc (lib : Lib) (r : UlRound) (u : SchedUe) :
    ((r.out lib u).2.ulHarq r.pid).toHarqProc =
      ((r.calls lib u r.pid).foldl UlHarqProc.step (u.ulHarq r.pid)).toHarqProc ∧
    ((u.ulHarq r.pid).hasRarMcs = false → ((r.out lib u).2.ulHarq r.pid).hasRarMcs = false) := by
  unfold calls
  rw [if_pos rfl, ← foldl_found, puschCalls]
  cases hsends : r.sends lib u with
  | false =>
    rw [out_idle hsends, if_neg Bool.false_ne_true]
    exact ⟨rfl, fun h => (found_hasRarMcs lib r u).trans h⟩
  | true =>
    obtain ⟨-, hopened, hrar⟩ := opened_spec lib r u
    rw [(out_sent hsends).proc, if_pos rfl, List.foldl_append, List.foldl_cons, List.foldl_nil,
      ← UlHarqProc.step_proc hopened]
    cases hrefused : r.refused lib u with
    | true =>
      rw [if_pos rfl, if_pos rfl]
      refine ⟨rfl, fun h => ?_⟩
      have hnone : r.isRar u = false := by
        unfold refused at hrefused
        simp only [Bool.and_eq_true, Bool.not_eq_true'] at hrefused
        exact hrefused.1.2
      exact hrar.trans (by rw [hnone, found_hasRarMcs, h]; rfl)
    | false =>
      rw [if_neg Bool.false_ne_true, if_neg Bool.false_ne_true]
      exact ⟨(format0_proc lib r u).1, fun _ => (format0_proc lib r u).2⟩

theorem out_frame (lib : Lib) (r : UlRound) (u : SchedUe) :
    (r.out lib u).2.rnti = u.rnti ∧ (r.out lib u).2.cfg = u.cfg ∧
    (r.out lib u).2.dlHarq = u.dlHarq ∧
    ∀ i ≠ r.pid, ((r.out lib u).2.ulHarq i).toHarqProc = (u.ulHarq i).toHarqProc ∧
      ((r.out lib u).2.ulHarq i).hasRarMcs = (u.ulHarq i).hasRarMcs := by
  have huser := user_kept lib r u
  have hfed : ∀ i ≠ r.pid, (r.fed u).ulHarq i = u.ulHarq i := fed_spec.2.2.2.2
  cases hsends : r.sends lib u with
  | false =>
    rw [out_idle hsends]
    refine ⟨huser.rnti, huser.cfg, huser.dlHarq, fun i hi => ?_⟩
    rw [← hfed i hi]
    exact huser.procs i
  | true =>
    have hout := out_sent hsends
    have hopened := (opened_spec lib r u).1
    refine ⟨hout.rnti.trans (hopened.rnti.trans huser.rnti),
      hout.cfg.trans (hopened.cfg.trans huser.cfg),
      hout.dlHarq.trans (hopened.dlHarq.trans huser.dlHarq), fun i hi => ?_⟩
    rw [← hfed i hi]
    exact ⟨(hout.others i hi).1.trans ((hopened.others i hi).1.trans (huser.procs i).1),
      (hout.others i hi).2.trans ((hopened.others i hi).2.trans (huser.procs i).2)⟩

theorem next_kept : (r.out lib u).2.Kept (r.next lib u) := SchedUe.Kept.setUl rfl rfl

/-- The round leaves each process as its calls do. -/
theorem next_ulHarq (i : Pid) : ((r.next lib u).ulHarq i).toHarqProc =
      ((r.calls lib u i).foldl UlHarqProc.step (u.ulHarq i)).toHarqProc ∧
    ((u.ulHarq i).hasRarMcs = false → ((r.next lib u).ulHarq i).hasRarMcs = false) := by
  rw [(next_kept.procs i).1, (next_kept.procs i).2]
  by_cases hi : i = r.pid
  · subst hi
    exact out_proc lib r u
  · rw [((out_frame lib r u).2.2.2 i hi).1, ((out_frame lib r u).2.2.2 i hi).2, calls, if_neg hi]
    exact ⟨rfl, id⟩

theorem next_frame (lib : Lib) (r : UlRound) (u : SchedUe) :
    (r.next lib u).rnti = u.rnti ∧ (r.next lib u).cfg = u.cfg ∧
    (r.next lib u).dlHarq = u.dlHarq :=
  ⟨next_kept.rnti.trans (out_frame lib r u).1, next_kept.cfg.trans (out_frame lib r u).2.1,
    next_kept.dlHarq.trans (out_frame lib r u).2.2.1⟩

end UlRound

/-! ## The whole call -/

namespace Sched

variable (lib : Lib) {s : Sched} {k : Nat} {u : SchedUe}

/-- What a round leaves of its user does not depend on what was granted before. -/
theorem puschUser_user (s : Sched) (tti : Nat) (out : Elems UlSchedData) (k : Nat) (u : SchedUe) :
    (puschUser lib tti (s, out) k u).2 = (puschUser lib tti (s, ⟨[], out.slot⟩) k u).2 := by
  have hgrant : ∀ (v : SchedUe) (pid : Pid) (isNewtx : Bool) (slot : UlSchedData),
      (puschGrant lib v pid isNewtx tti out slot).2 =
        (puschGrant lib v pid isNewtx tti ⟨[], out.slot⟩ slot).2 := by
    intro v pid isNewtx slot
    simp only [puschGrant]
    split_ifs <;> rfl
  simp only [puschUser]
  split
  · rfl
  · rename_i pid _
    simp only [puschTx]
    obtain ⟨v, hv⟩ : ∃ v, (if ((s.puschProc tti k u).2.1.ulHarq pid).isEmpty 0 = true then
      (s.puschProc tti k u).2.1.setUl pid (((s.puschProc tti k u).2.1.ulHarq pid).setMaxRetx
        (if (s.puschProc tti k u).2.2.1 = true then (s.puschProc tti k u).1.cfg.maxharqMsg3tx
          else (s.puschProc tti k u).2.1.cfg.maxharqTx)) else (s.puschProc tti k u).2.1) = v :=
      ⟨_, rfl⟩
    simp only [hv]
    by_cases hpdcch : (!((s.puschProc tti k u).2.1.ulHarq pid).isAdaptive &&
        !(s.puschProc tti k u).2.2.1) = true
    · simp only [if_pos hpdcch]
      split
      · rfl
      · exact hgrant _ _ _ _
    · simp only [if_neg hpdcch]
      exact hgrant _ _ _ _

/-- The metric visits each user in both loops. -/
theorem newTti_round (m : UlMetric) {db : StdMap SchedUe} (tti : Nat) (hu : db[k]? = some u) :
    ∃ m1 m2 : UlMetric, (m.newTti lib db tti).2[k]? = some
      (UlMetric.visitNewtx lib { m2 with currentTti := tti } k
        (UlMetric.visitRetx lib { m1 with currentTti := tti } k u).2).2 := by
  have hretx : ∀ ks, (db.visit (UlMetric.visitRetx lib) ks
      { m with currentTti := tti }).1.currentTti = tti := by
    intro ks
    refine StdMap.visit_ind (f := UlMetric.visitRetx lib) (fun m1 _ => m1.currentTti = tti) ?_ ks
      { m with currentTti := tti } db rfl
    exact fun m1 db1 l v hm1 _ => (visitRetx_offers lib m1 l v).1.trans hm1
  have hfirst := StdMap.visit_get (f := UlMetric.visitRetx lib) { m with currentTti := tti } hu
  have hm1 := hretx (db.before k)
  have hm := hretx db.keys
  obtain ⟨m1, h1⟩ : ∃ m1, (db.visit (UlMetric.visitRetx lib) (db.before k)
    { m with currentTti := tti }).1 = m1 := ⟨_, rfl⟩
  obtain ⟨⟨m', db'⟩, h⟩ : ∃ r, db.visit (UlMetric.visitRetx lib) db.keys
    { m with currentTti := tti } = r := ⟨_, rfl⟩
  rw [h] at hfirst hm
  rw [h1] at hfirst hm1
  have hnewtx : ∀ ks, (db'.visit (UlMetric.visitNewtx lib) ks m').1.currentTti = tti := by
    intro ks
    refine StdMap.visit_ind (f := UlMetric.visitNewtx lib) (fun m2 _ => m2.currentTti = tti) ?_ ks
      m' db' hm
    intro m2 db2 l v hm2 _
    unfold UlMetric.visitNewtx UlMetric.allocateUserNewtxPrbs
    simp only
    split_ifs <;> exact hm2
  have hnodup : (fromPriority db' ((tti + db'.size / 2) % db'.size)).Nodup :=
    List.nodup_rotate.mpr (StdMap.nodup_keys db')
  have hmem : k ∈ fromPriority db' ((tti + db'.size / 2) % db'.size) :=
    List.mem_rotate.mpr (StdMap.mem_keys.mpr (by rw [hfirst]; rfl))
  obtain ⟨pre, hsecond⟩ := StdMap.visit_get_mem (f := UlMetric.visitNewtx lib) hnodup hmem m'
    hfirst
  have hm2 := hnewtx pre
  obtain ⟨m2, h2⟩ : ∃ m2, (db'.visit (UlMetric.visitNewtx lib) pre m').1 = m2 := ⟨_, rfl⟩
  rw [h2] at hsecond hm2
  have hset : ∀ {m0 : UlMetric}, m0.currentTti = tti → { m0 with currentTti := tti } = m0 := by
    rintro m0 rfl
    rfl
  refine ⟨m1, m2, ?_⟩
  rw [hset hm1, hset hm2, ← hsecond]
  unfold UlMetric.newTti
  simp only [h]

theorem reservePucch_round (s : Sched) (hu : s.ueDb[k]? = some u) : ∃ pucch : Option UlMetric,
    (s.reservePucch lib).ueDb[k]? = some (match pucch with
      | some m => (pucchUser lib s.currentTti m k u).2
      | none => u) := by
  unfold reservePucch
  simp only
  split_ifs
  · exact ⟨none, hu⟩
  · exact ⟨some _, StdMap.visit_get (f := pucchUser lib s.currentTti) s.ulMetric hu⟩

/-- The user before the loop over the PUSCHs. -/
theorem ulReady_round (s : Sched) (tti : Nat) (hdb : Keyed s.ueDb) (hu : s.ueDb[k]? = some u) :
    ∃ (pucch : Option UlMetric) (m1 m2 : UlMetric), ∀ (s' : Sched) (slot : UlSchedData),
      (s.ulReady lib tti).ueDb[k]? =
        some (UlRound.user lib ⟨tti, pucch, m1, m2, s', slot⟩ u) := by
  obtain rfl : u.rnti = k := hdb k u hu
  have hfed : (s.ulFed tti).ueDb[u.rnti]? = some (phichUser tti [] u.rnti u).2 :=
    StdMap.visit_get (f := phichUser tti) [] (show (s.ulStart tti).ueDb[u.rnti]? = some u from hu)
  obtain ⟨m, hmsg3⟩ := reserveMsg3_frame lib (s.ulFed tti) tti
  obtain ⟨pucch, hpucch⟩ := reservePucch_round lib { s.ulFed tti with ulMetric := m } hfed
  obtain ⟨m1, m2, hmetric⟩ := newTti_round lib
    (reservePucch lib { s.ulFed tti with ulMetric := m }).ulMetric tti hpucch
  refine ⟨pucch, m1, m2, fun s' slot => ?_⟩
  have htti : (reservePucch lib { s.ulFed tti with ulMetric := m }).currentTti = tti := by
    unfold reservePucch
    simp only
    split_ifs <;> rfl
  unfold ulReady ulAllocate
  simp only [hmsg3, htti]
  rw [hmetric]
  rfl

/-- For a user of the cell a call of `ul_sched` is a round. -/
theorem ulSched_round (s : Sched) (tti : Nat) (hs : s.ulRuns = true) (hdb : Keyed s.ueDb)
    (hu : s.ueDb[k]? = some u) : ∃ r : UlRound, r.tti = tti ∧ r.s.cfg = s.cfg ∧
      (s.ulSched lib tti).1.ueDb[k]? = some (r.next lib u) := by
  obtain ⟨pucch, m1, m2, hready⟩ := ulReady_round lib s tti hdb hu
  obtain rfl : u.rnti = k := hdb k u hu
  obtain ⟨m, db0, hframe⟩ := ulAllocate_frame lib (s.ulFed tti) tti
  have hcfg := StdMap.visit_ind (f := puschUser lib tti)
    (fun st _ => st.1.cfg = (s.ulReady lib tti).cfg) (fun st db l v h _ => by
      obtain ⟨⟨t, n, heq, -⟩, -⟩ := puschUser_spec lib st.1 st.2 tti l v
      rw [heq]
      exact h) ((s.ulReady lib tti).ueDb.before u.rnti) (s.ulReady lib tti, ⟨[], default⟩)
    (s.ulReady lib tti).ueDb rfl
  have hget := fun s' slot => StdMap.visit_get (f := puschUser lib tti)
    (s.ulReady lib tti, ⟨[], default⟩) (hready s' slot)
  obtain ⟨⟨⟨s2, out⟩, db⟩, hrounds⟩ : ∃ r, (s.ulReady lib tti).puschRounds lib tti
      (s.ulReady lib tti).ueDb.keys = r := ⟨_, rfl⟩
  obtain ⟨⟨⟨s1, out1⟩, db1⟩, hbefore⟩ : ∃ r, (s.ulReady lib tti).puschRounds lib tti
      ((s.ulReady lib tti).ueDb.before u.rnti) = r := ⟨_, rfl⟩
  have hcall := ulSched_eq lib s tti hs hrounds
  unfold puschRounds at hrounds hbefore
  simp only [hrounds, hbefore] at hget hcfg
  refine ⟨⟨tti, pucch, m1, m2, s1, out1.slot⟩, rfl, hcfg.trans ?_, ?_⟩
  · unfold ulReady
    rw [hframe]
    rfl
  · have hlast := StdMap.visit_get (f := pendingDataUser tti) () (hget s1 out1.slot)
    rw [hcall]
    simp only
    rw [hlast, puschUser_user]
    rfl

end Sched

end Srsenb.Mac
