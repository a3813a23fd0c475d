import Srsenb.Mac.Cce

/-! # What a PHICH depends on

`has_pending_ack` reads a few fields of the process of a TTI. This module says what one call of
`ul_sched` does to them, user by user. -/

namespace Srsenb.Mac

/-- The fields of an uplink process that decide about its PHICH. -/
structure AckView where
  active : Bool
  ack : Bool
  ackReceived : Bool
  needAck : Bool
  deriving DecidableEq

def UlHarqProc.view (h : UlHarqProc) : AckView :=
  ⟨(h.tb 0).active, (h.tb 0).ack, (h.tb 0).ackReceived, h.needAck⟩

/-- After `has_pending_ack`. -/
def AckView.fed (v : AckView) : AckView :=
  { v with active := v.active && !v.ack, needAck := v.active && !v.ack && v.needAck }

/-- The PHICH of a process that is due. -/
def AckView.phich (v : AckView) (rnti : Nat) : List UlSchedPhich :=
  if v.needAck then [⟨rnti, v.ack⟩] else []

/-- What the PUSCH loop does for a user: nothing, a DCI that has no place, or a transmission with
the TBS of `generate_format0`. -/
inductive PuschBranch
  | idle
  | dciFailed
  | newTx (tbs : Int)
  | retx (tbs : Int)
  deriving DecidableEq

def PuschBranch.Grants : PuschBranch → Prop
  | .newTx tbs => tbs > 0
  | .retx tbs => tbs > 0
  | _ => False

instance (b : PuschBranch) : Decidable b.Grants := by
  unfold PuschBranch.Grants
  split <;> infer_instance

/-- A block that waits for a retransmission is granted, and no transmission has a TBS of 0. -/
def PuschBranch.Carries (waits : Bool) : PuschBranch → Prop
  | .newTx tbs => tbs > 0
  | .retx tbs => tbs > 0
  | _ => waits = false

instance (waits : Bool) (b : PuschBranch) : Decidable (b.Carries waits) := by
  unfold PuschBranch.Carries
  split <;> infer_instance

/-- The view that a branch leaves. -/
inductive Leaves (v : AckView) : PuschBranch → AckView → Prop
  | idle : Leaves v .idle v
  | dciFailed : Leaves v .dciFailed { v with active := false, ack := true, ackReceived := false }
  | newTx (tbs : Int) (active : Bool) : Leaves v (.newTx tbs) ⟨active, true, false, true⟩
  | retx (tbs : Int) (h : v.active = true) : Leaves v (.retx tbs) { v with ackReceived := false }

theorem view_hasPendingAck (h : UlHarqProc) : h.hasPendingAck.2.view = h.view.fed := by
  unfold UlHarqProc.hasPendingAck UlHarqProc.view AckView.fed
  cases ha : (h.tb 0).active <;> cases hk : (h.tb 0).ack <;> simp [ha, hk]

theorem view_newTx (h : UlHarqProc) (tti : Nat) (mcs tbs : Int) :
    (h.newTx tti mcs tbs).view = ⟨decide (h.maxRetx ≠ 0), true, false, true⟩ := by
  unfold UlHarqProc.newTx UlHarqProc.view HarqProc.newTxCommon HarqProc.reset
  simp [HarqProc.setTb]

theorem view_newRetx (h : UlHarqProc) (tti : Nat) :
    (h.newRetx tti).1.view = { h.view with ackReceived := false } := by
  unfold UlHarqProc.newRetx UlHarqProc.view HarqProc.newRetx
  simp [HarqProc.setTb]

theorem view_reset (h : UlHarqProc) :
    h.reset.view = { h.view with active := false, ack := true, ackReceived := false } := by
  unfold UlHarqProc.reset UlHarqProc.view HarqProc.reset
  simp [HarqProc.setTb]

/-- A view is what it was, whatever else of the processes changed. -/
def SameViews (u u' : SchedUe) : Prop := ∀ pid, (u'.ulHarq pid).view = (u.ulHarq pid).view

theorem SameViews.trans {u u' u'' : SchedUe} (h : SameViews u u') (h' : SameViews u' u'') :
    SameViews u u'' :=
  fun pid => (h' pid).trans (h pid)

theorem SameViews.setUl {u : SchedUe} {pid : Pid} {h : UlHarqProc}
    (hh : h.view = (u.ulHarq pid).view) : SameViews u (u.setUl pid h) := by
  intro i
  by_cases hi : i = pid
  · subst hi
    rw [SchedUe.setUl_ulHarq, hh]
  · rw [SchedUe.setUl_ulHarq_ne h hi]

namespace Sched

variable (lib : Lib) {u : SchedUe} {pid : Pid} {tti : Nat} {s : Sched} {rnti : Nat}

/-! ## One user -/

/-- The branch of the transmission on process `pid`. -/
def txBranch (s : Sched) (tti : Nat) (u : SchedUe) (isRar : Bool) (pid : Pid) : PuschBranch :=
  let h := u.ulHarq pid
  let u := if h.isEmpty 0 then
      u.setUl pid (h.setMaxRetx (if isRar then s.cfg.maxharqMsg3tx else u.cfg.maxharqTx))
    else u
  let cell := s.cfg.cell
  let aggrLevel := u.getAggrLevel lib (lib.dciFormatSizeof .format0 cell.nofPrb cell.nofPorts)
  if !h.isAdaptive && !isRar && (s.generateDci lib (u.getLocations s.currentCfi s.sfIdx) aggrLevel
      fun _ => false).1.isNone then .dciFailed
  else
    let u := (u.needsCqi lib tti true).2
    let (_, isNewtx, _, tbs) := u.format0Proc lib (u.ulHarq pid) tti
    if isNewtx then .newTx tbs else .retx tbs

/-- The branch of the round of a user. -/
def puschBranch (s : Sched) (tti rnti : Nat) (u : SchedUe) : PuschBranch :=
  let (s, u, isRar, next) := s.puschProc tti rnti u
  match next with
  | none => .idle
  | some pid => s.txBranch lib tti u isRar pid

theorem format0Proc_leaves (u : SchedUe) (h : UlHarqProc) (tti : Nat) :
    Leaves h.view
      (if (u.format0Proc lib h tti).2.1 then .newTx (u.format0Proc lib h tti).2.2.2
        else .retx (u.format0Proc lib h tti).2.2.2)
      (u.format0Proc lib h tti).1.view := by
  unfold SchedUe.format0Proc UlHarqProc.getRarMcs
  by_cases hrar : h.hasRarMcs = true
  · simp only [if_pos hrar]
    rw [view_newTx]
    exact .newTx _ _
  · simp only [if_neg hrar]
    by_cases hempty : h.isEmpty 0 = true
    · simp only [if_pos hempty]
      rw [view_newTx]
      exact .newTx _ _
    · simp only [if_neg hempty, Bool.false_eq_true, if_false]
      rw [view_newRetx]
      refine .retx _ ?_
      unfold HarqProc.isEmpty at hempty
      unfold UlHarqProc.view
      cases hactive : (h.tb 0).active with
      | true => rfl
      | false => simp [hactive] at hempty

theorem needsCqi_ulHarq (u : SchedUe) (tti : Nat) (b : Bool) :
    (u.needsCqi lib tti b).2.ulHarq = u.ulHarq ∧ (u.needsCqi lib tti b).2.rnti = u.rnti := by
  unfold SchedUe.needsCqi
  split_ifs <;> exact ⟨rfl, rfl⟩

/-- What the round of a user does by its branch. -/
structure RoundOf (u u' : SchedUe) (out out' : Elems UlSchedData) (pid : Pid) (b : PuschBranch) :
    Prop where
  rnti : u'.rnti = u.rnti
  view : Leaves (u.ulHarq pid).view b (u'.ulHarq pid).view
  others : ∀ q ≠ pid, (u'.ulHarq q).view = (u.ulHarq q).view
  silent : ¬ b.Grants → out'.done = out.done
  grants : b.Grants → ∃ d, out'.done = out.done ++ [d] ∧ d.rnti = u.rnti

theorem generateFormat0_proc (u : SchedUe) (pid : Pid) (slot : UlSchedData) (tti : Nat)
    (cqi : Bool) :
    let r := u.generateFormat0 lib pid slot tti cqi
    let f := u.format0Proc lib (u.ulHarq pid) tti
    r.1.rnti = u.rnti ∧ r.1.ulHarq pid = f.1 ∧ (∀ q ≠ pid, r.1.ulHarq q = u.ulHarq q) ∧
      r.2.1.rnti = u.rnti ∧ r.2.2 = f.2.2.2 := by
  intro r f
  by_cases htbs : (u.format0Proc lib (u.ulHarq pid) tti).2.2.2 > 0
  · simp only [r, SchedUe.generateFormat0, htbs, if_true]
    exact ⟨rfl, SchedUe.setUl_ulHarq .., fun q hq => SchedUe.setUl_ulHarq_ne _ hq, trivial, rfl⟩
  · simp only [r, SchedUe.generateFormat0, htbs, if_false]
    exact ⟨rfl, SchedUe.setUl_ulHarq .., fun q hq => SchedUe.setUl_ulHarq_ne _ hq, trivial, rfl⟩

theorem puschGrant_round (u : SchedUe) (pid : Pid) (isNewtx : Bool) (tti : Nat)
    (out : Elems UlSchedData) (slot : UlSchedData) :
    let f :=
      (u.needsCqi lib tti true).2.format0Proc lib ((u.needsCqi lib tti true).2.ulHarq pid) tti
    RoundOf u (puschGrant lib u pid isNewtx tti out slot).2 out
      (puschGrant lib u pid isNewtx tti out slot).1 pid
      (if f.2.1 then .newTx f.2.2.2 else .retx f.2.2.2) := by
  intro f
  obtain ⟨hcqi, hrnti⟩ := needsCqi_ulHarq lib u tti true
  have hleaves := format0Proc_leaves lib (u.needsCqi lib tti true).2
    ((u.needsCqi lib tti true).2.ulHarq pid) tti
  have hgrants : (if f.2.1 then PuschBranch.newTx f.2.2.2 else .retx f.2.2.2).Grants ↔
      f.2.2.2 > 0 := by
    split_ifs <;> rfl
  obtain ⟨hr, hproc, hother, hslot, htbs⟩ := generateFormat0_proc lib
    (u.needsCqi lib tti true).2 pid slot tti (u.needsCqi lib tti true).1
  rw [hcqi] at hother
  rw [hrnti] at hr hslot
  unfold puschGrant
  simp only
  rw [htbs]
  by_cases hpos : f.2.2.2 > 0
  · rw [if_pos hpos]
    -- Whether the scheduling request is cleared does not matter.
    have hsr : ∀ v : SchedUe, (if isNewtx = true then { v with sr := false } else v).ulHarq =
        v.ulHarq ∧ (if isNewtx = true then { v with sr := false } else v).rnti = v.rnti := by
      intro v
      split_ifs <;> exact ⟨rfl, rfl⟩
    refine ⟨(hsr _).2.trans hr, ?_, fun q hq => ?_, fun hno => absurd (hgrants.mpr hpos) hno,
      fun _ => ⟨_, rfl, hslot⟩⟩
    · rw [(hsr _).1, hproc, ← hcqi]
      exact hleaves
    · rw [(hsr _).1, hother q hq]
  · rw [if_neg hpos]
    refine ⟨hr, ?_, fun q hq => ?_, fun _ => rfl, fun h => absurd (hgrants.mp h) hpos⟩
    · rw [hproc, ← hcqi]
      exact hleaves
    · rw [hother q hq]

theorem puschTx_round (s : Sched) (tti : Nat) (out : Elems UlSchedData) (u : SchedUe)
    (isRar : Bool) (pid : Pid) :
    RoundOf u (s.puschTx lib tti out u isRar pid).2 out (s.puschTx lib tti out u isRar pid).1.2 pid
      (s.txBranch lib tti u isRar pid) := by
  obtain ⟨v, hv⟩ : ∃ v, (if (u.ulHarq pid).isEmpty 0 = true then
      u.setUl pid ((u.ulHarq pid).setMaxRetx
        (if isRar = true then s.cfg.maxharqMsg3tx else u.cfg.maxharqTx)) else u) = v := ⟨_, rfl⟩
  have hsame : SameViews u v ∧ v.rnti = u.rnti := by
    rw [← hv]
    by_cases hempty : (u.ulHarq pid).isEmpty 0 = true
    · rw [if_pos hempty]
      exact ⟨SameViews.setUl rfl, rfl⟩
    · rw [if_neg hempty]
      exact ⟨fun _ => rfl, rfl⟩
  have hround : ∀ {v' : SchedUe} {out0 out' : Elems UlSchedData} {b : PuschBranch},
      out0.done = out.done → RoundOf v v' out0 out' pid b → RoundOf u v' out out' pid b := by
    intro v' out0 out' b hout h
    refine ⟨h.rnti.trans hsame.2, hsame.1 pid ▸ h.view,
      fun q hq => (h.others q hq).trans (hsame.1 q), hout ▸ h.silent, ?_⟩
    rw [← hout, ← hsame.2]
    exact h.grants
  unfold puschTx txBranch
  simp only [hv]
  by_cases hpdcch : (!(u.ulHarq pid).isAdaptive && !isRar) = true
  · simp only [hpdcch, if_true, Bool.true_and]
    split
    · rename_i s1 hs1
      rw [hs1]
      refine hround rfl ⟨rfl, ?_, fun q hq => ?_, fun _ => rfl, fun h => h.elim⟩
      · simp only [Option.isNone_none, if_true, SchedUe.setUl_ulHarq, view_reset]
        exact .dciFailed
      · rw [SchedUe.setUl_ulHarq_ne _ hq]
    · rename_i loc s1 hs1
      rw [hs1]
      simp only [Option.isNone_some, Bool.false_eq_true, if_false]
      exact hround rfl (puschGrant_round lib v pid _ tti out _)
  · simp only [if_neg hpdcch]
    rw [Bool.eq_false_iff.mpr hpdcch]
    simp only [Bool.false_and, Bool.false_eq_true, if_false]
    exact hround rfl (puschGrant_round lib v pid _ tti out _)

theorem format0Proc_rar {h : UlHarqProc} (u : SchedUe) (tti : Nat) (hrar : h.hasRarMcs = true) :
    (u.format0Proc lib h tti).2.1 = true := by
  unfold SchedUe.format0Proc UlHarqProc.getRarMcs
  simp only [if_pos hrar]

theorem txBranch_rar (s : Sched) (tti : Nat) {u : SchedUe} {pid : Pid}
    (hrar : (u.ulHarq pid).hasRarMcs = true) :
    ∃ tbs, s.txBranch lib tti u true pid = .newTx tbs := by
  unfold txBranch
  simp only [Bool.not_true, Bool.and_false, Bool.false_and, Bool.false_eq_true, if_false]
  rw [format0Proc_rar, if_pos rfl]
  · exact ⟨_, rfl⟩
  · rw [(needsCqi_ulHarq lib _ tti true).1]
    by_cases hempty : (u.ulHarq pid).isEmpty 0 = true
    · rw [if_pos hempty, SchedUe.setUl_ulHarq]
      exact hrar
    · rw [if_neg hempty]
      exact hrar

/-- A new block does not depend on what the process was. -/
theorem RoundOf.ofNewTx {u v u' : SchedUe} {out out' : Elems UlSchedData} {b : PuschBranch}
    (hb : ∃ tbs, b = .newTx tbs) (hrnti : v.rnti = u.rnti)
    (hother : ∀ q ≠ pid, (v.ulHarq q).view = (u.ulHarq q).view) (h : RoundOf v u' out out' pid b) :
    RoundOf u u' out out' pid b := by
  obtain ⟨tbs, rfl⟩ := hb
  refine ⟨h.rnti.trans hrnti, ?_, fun q hq => (h.others q hq).trans (hother q hq), h.silent, ?_⟩
  · have hview := h.view
    generalize (u'.ulHarq pid).view = w at hview ⊢
    cases hview with
    | newTx _ active => exact .newTx tbs active
  · rw [← hrnti]
    exact h.grants

theorem puschUser_round (s : Sched) (tti rnti : Nat) (out : Elems UlSchedData) (u : SchedUe)
    (hnext : ∀ p ∈ u.ulNextAlloc, p = SchedUe.getUlHarq tti) :
    RoundOf u (puschUser lib tti (s, out) rnti u).2 out (puschUser lib tti (s, out) rnti u).1.2
      (SchedUe.getUlHarq tti) (s.puschBranch lib tti rnti u) := by
  by_cases hm : ((s.pendingMsg3 (tti % 10)).enabled &&
      decide ((s.pendingMsg3 (tti % 10)).rnti = rnti)) = true
  · simp only [puschUser, puschBranch, puschProc, hm, if_true]
    obtain ⟨v, hv⟩ : ∃ v, u.setUl (SchedUe.getUlHarq tti)
        (((u.ulHarq (SchedUe.getUlHarq tti)).setAlloc ⟨(s.pendingMsg3 (tti % 10)).nPrb,
          (s.pendingMsg3 (tti % 10)).L⟩).setRarMcs (s.pendingMsg3 (tti % 10)).mcs) = v := ⟨_, rfl⟩
    rw [hv]
    have hrar : (v.ulHarq (SchedUe.getUlHarq tti)).hasRarMcs = true := by
      rw [← hv, SchedUe.setUl_ulHarq]
      rfl
    have hrnti : v.rnti = u.rnti := hv ▸ rfl
    refine RoundOf.ofNewTx ?_ hrnti (fun q hq => ?_)
      (puschTx_round lib _ tti out v true (SchedUe.getUlHarq tti))
    · exact txBranch_rar lib _ tti hrar
    · rw [← hv, SchedUe.setUl_ulHarq_ne _ hq]
  · simp only [puschUser, puschBranch, puschProc, hm]
    cases hn : u.ulNextAlloc with
    | none => exact ⟨rfl, .idle, fun _ _ => rfl, fun _ => rfl, fun h => h.elim⟩
    | some pid =>
      rw [← hnext pid hn]
      exact puschTx_round lib s tti out u false pid

/-! ## The metric -/

/-- What the metric keeps of a user, and the process that it may have chosen. -/
structure Offered (tti : Nat) (u u' : SchedUe) : Prop where
  rnti : u'.rnti = u.rnti
  views : SameViews u u'
  next : ∀ p ∈ u'.ulNextAlloc, p = SchedUe.getUlHarq tti

theorem visitRetx_offers (m : UlMetric) (k : Nat) (u : SchedUe) :
    (UlMetric.visitRetx lib m k u).1.currentTti = m.currentTti ∧
      Offered m.currentTti u (UlMetric.visitRetx lib m k u).2 := by
  unfold UlMetric.visitRetx UlMetric.allocateUserRetxPrbs
  simp only
  split_ifs
  · exact ⟨rfl, rfl, fun _ => rfl, fun p hp => (Option.some.inj hp).symm⟩
  · exact ⟨rfl, rfl, SameViews.setUl rfl, fun p hp => (Option.some.inj hp).symm⟩
  · exact ⟨rfl, rfl, fun _ => rfl, fun p hp => by cases hp⟩
  · exact ⟨rfl, rfl, fun _ => rfl, fun p hp => by cases hp⟩

theorem visitNewtx_offers (m : UlMetric) (k : Nat) {u : SchedUe}
    (hu : ∀ p ∈ u.ulNextAlloc, p = SchedUe.getUlHarq m.currentTti) :
    (UlMetric.visitNewtx lib m k u).1.currentTti = m.currentTti ∧
      Offered m.currentTti u (UlMetric.visitNewtx lib m k u).2 := by
  unfold UlMetric.visitNewtx UlMetric.allocateUserNewtxPrbs
  simp only
  split_ifs
  · exact ⟨rfl, rfl, SameViews.setUl rfl, fun p hp => (Option.some.inj hp).symm⟩
  · exact ⟨rfl, rfl, fun _ => rfl, fun p hp => by cases hp⟩
  · exact ⟨rfl, rfl, fun _ => rfl, fun p hp => by cases hp⟩
  · exact ⟨rfl, rfl, fun _ => rfl, hu⟩

/-- The metric looks at every user, and chooses the process of its TTI or none. -/
theorem newTti_offers (m : UlMetric) (db : StdMap SchedUe) (tti k : Nat) {u' : SchedUe}
    (hu : (m.newTti lib db tti).2[k]? = some u') :
    ∃ u, db[k]? = some u ∧ Offered tti u u' := by
  unfold UlMetric.newTti at hu
  simp only at hu
  have hretx := StdMap.visit_inv (f := UlMetric.visitRetx lib)
    (fun done m1 db1 => m1.currentTti = tti ∧ ∀ (l : Nat) (v' : SchedUe), db1[l]? = some v' →
      ∃ v, db[l]? = some v ∧ (l ∈ done → Offered tti v v') ∧ (l ∉ done → v' = v))
    ?_ ?_ db.keys [] { m with currentTti := tti } db (StdMap.nodup_keys db) (by simp)
    ⟨rfl, fun l v' hl => ⟨v', hl, by simp, fun _ => rfl⟩⟩
  · obtain ⟨⟨m1, db1⟩, hv⟩ : ∃ r, db.visit (UlMetric.visitRetx lib) db.keys
        { m with currentTti := tti } = r := ⟨_, rfl⟩
    rw [hv] at hretx hu
    have hnewtx := StdMap.visit_ind (f := UlMetric.visitNewtx lib)
      (fun m2 db2 => m2.currentTti = tti ∧ ∀ (l : Nat) (v' : SchedUe), db2[l]? = some v' →
        ∃ v, db[l]? = some v ∧ Offered tti v v') ?_
      (fromPriority db1 ((tti + db1.size / 2) % db1.size)) m1 db1 ⟨hretx.1, ?_⟩
    · exact hnewtx.2 k u' hu
    · rintro m2 db2 l w ⟨hm2, hdb2⟩ hl
      obtain ⟨v, hv, hoff⟩ := hdb2 l w hl
      obtain ⟨hm3, hoff'⟩ := visitNewtx_offers lib m2 l (u := w) (hm2 ▸ hoff.next)
      rw [hm2] at hm3 hoff'
      refine ⟨hm3, fun l' v' hl' => ?_⟩
      rw [StdMap.getElem?_insert] at hl'
      split_ifs at hl' with heq
      · obtain rfl := Option.some.inj hl'
        exact ⟨v, heq ▸ hv, hoff'.rnti.trans hoff.rnti, hoff.views.trans hoff'.views, hoff'.next⟩
      · exact hdb2 l' v' hl'
    · intro l v' hl
      obtain ⟨v, hv', hdone, -⟩ := hretx.2 l v' hl
      refine ⟨v, hv', hdone ?_⟩
      simpa using StdMap.mem_keys.mpr (show db[l]?.isSome = true by rw [hv']; rfl)
  · rintro done m1 db1 l w ⟨hm1, hdb1⟩ hl hw
    obtain ⟨v, hv, -, hsame⟩ := hdb1 l w hw
    obtain rfl := hsame hl
    obtain ⟨hm2, hoff⟩ := visitRetx_offers lib m1 l w
    rw [hm1] at hm2 hoff
    refine ⟨hm2, fun l' v' hl' => ?_⟩
    rw [StdMap.getElem?_insert] at hl'
    split_ifs at hl' with heq
    · subst heq
      obtain rfl := Option.some.inj hl'
      exact ⟨w, hv, fun _ => hoff, fun h => absurd List.mem_cons_self h⟩
    · obtain ⟨v, hv, h1, h2⟩ := hdb1 l' v' hl'
      refine ⟨v, hv, fun h => h1 ?_, fun h => h2 (List.not_mem_of_not_mem_cons h)⟩
      exact (List.mem_cons.mp h).resolve_left (Ne.symm heq)
  · rintro done m1 db1 l ⟨hm1, hdb1⟩ hl
    refine ⟨hm1, fun l' v' hl' => ?_⟩
    obtain ⟨v, hv, h1, h2⟩ := hdb1 l' v' hl'
    refine ⟨v, hv, fun h => h1 ?_, fun h => h2 (List.not_mem_of_not_mem_cons h)⟩
    refine (List.mem_cons.mp h).resolve_left ?_
    rintro rfl
    rw [hl] at hl'
    cases hl'

theorem reservePucch_same (s : Sched) {k : Nat} {u' : SchedUe}
    (hu : (s.reservePucch lib).ueDb[k]? = some u') :
    ∃ u, s.ueDb[k]? = some u ∧ u'.rnti = u.rnti ∧ u'.ulHarq = u.ulHarq := by
  unfold reservePucch at hu
  simp only at hu
  split_ifs at hu
  · exact ⟨u', hu, rfl, rfl⟩
  · have h := StdMap.visit_ind (f := pucchUser lib s.currentTti)
      (fun _ db => ∀ (l : Nat) (v' : SchedUe), db[l]? = some v' →
        ∃ v, s.ueDb[l]? = some v ∧ v'.rnti = v.rnti ∧ v'.ulHarq = v.ulHarq) ?_
      s.ueDb.keys s.ulMetric s.ueDb (fun l v hv => ⟨v, hv, rfl, rfl⟩)
    · exact h k u' hu
    · intro m db l w hdb hw l' v' hl'
      rw [StdMap.getElem?_insert] at hl'
      split_ifs at hl' with heq
      · obtain rfl := Option.some.inj hl'
        obtain ⟨v, hv, h1, h2⟩ := hdb l w hw
        subst heq
        unfold pucchUser
        split
        · exact ⟨v, hv, h1, h2⟩
        · exact ⟨v, hv, h1, h2⟩
      · exact hdb l' v' hl'

theorem ulAllocate_offers (s : Sched) (tti : Nat) {k : Nat} {u' : SchedUe}
    (hu : (s.ulAllocate lib tti).ueDb[k]? = some u') :
    ∃ u, s.ueDb[k]? = some u ∧ Offered s.currentTti u u' := by
  obtain ⟨m, hmsg3⟩ := reserveMsg3_frame lib s tti
  have hpucch : (reservePucch lib { s with ulMetric := m }).currentTti = s.currentTti := by
    unfold reservePucch
    simp only
    split_ifs <;> rfl
  unfold ulAllocate at hu
  simp only [hmsg3] at hu
  obtain ⟨v, hv, hoff⟩ := newTti_offers lib _ _ _ k hu
  obtain ⟨w, hw, hrnti, hulHarq⟩ := reservePucch_same lib { s with ulMetric := m } hv
  rw [hpucch] at hoff
  exact ⟨w, hw, hoff.rnti.trans hrnti, fun pid => (hoff.views pid).trans (by rw [hulHarq]),
    hoff.next⟩

/-! ## The PHICHs -/

/-- The state after the loop over the PHICHs. -/
def ulFed (s : Sched) (tti : Nat) : Sched :=
  { s.ulStart tti with
    ueDb := ((s.ulStart tti).ueDb.visit (phichUser tti) (s.ulStart tti).ueDb.keys []).2 }

/-- The PHICH elements of a call. -/
def phichs (s : Sched) (tti : Nat) : List UlSchedPhich :=
  ((s.ulStart tti).ueDb.visit (phichUser tti) (s.ulStart tti).ueDb.keys []).1

theorem phichUser_spec (tti : Nat) (phich : List UlSchedPhich) (rnti : Nat) (u : SchedUe) :
    (phichUser tti phich rnti u).1 =
        phich ++ AckView.phich (u.ulHarq (SchedUe.getUlHarq tti)).view rnti ∧
      (phichUser tti phich rnti u).2.rnti = u.rnti ∧
      ((phichUser tti phich rnti u).2.ulHarq (SchedUe.getUlHarq tti)).view =
        (u.ulHarq (SchedUe.getUlHarq tti)).view.fed ∧
      ∀ q ≠ SchedUe.getUlHarq tti, (phichUser tti phich rnti u).2.ulHarq q = u.ulHarq q := by
  refine ⟨?_, rfl, ?_, fun q hq => SchedUe.setUl_ulHarq_ne _ hq⟩
  · unfold phichUser AckView.phich UlHarqProc.view UlHarqProc.hasPendingAck
    simp only [HarqProc.setTb_tb]
    split_ifs
    · rfl
    · rw [List.append_nil]
  · rw [← view_hasPendingAck]
    unfold phichUser
    simp only
    exact congrArg UlHarqProc.view (SchedUe.setUl_ulHarq ..)

theorem phichs_other (tti : Nat) {ks : List Nat} (hks : rnti ∉ ks) (phich : List UlSchedPhich)
    (db : StdMap SchedUe) :
    ((db.visit (phichUser tti) ks phich).1.filter fun e => e.rnti = rnti) =
      phich.filter fun e => e.rnti = rnti := by
  refine StdMap.visit_ind_mem (f := phichUser tti)
    (fun p _ => (p.filter fun e => e.rnti = rnti) = phich.filter fun e => e.rnti = rnti) ks
    (fun p m k u hk h _ => ?_) phich db rfl
  have hne : k ≠ rnti := fun heq => hks (heq ▸ hk)
  rw [(phichUser_spec tti p k u).1, List.filter_append, h]
  unfold AckView.phich
  split_ifs
  · simp [hne]
  · simp

/-- One PHICH for a user whose process waits for it, and none for another. -/
theorem phichs_spec (s : Sched) (tti : Nat) (hu : s.ueDb[rnti]? = some u) :
    ((s.phichs tti).filter fun e => e.rnti = rnti) =
        AckView.phich (u.ulHarq (SchedUe.getUlHarq tti)).view rnti ∧
      ∃ u', (s.ulFed tti).ueDb[rnti]? = some u' ∧ u'.rnti = u.rnti ∧
        (u'.ulHarq (SchedUe.getUlHarq tti)).view =
          (u.ulHarq (SchedUe.getUlHarq tti)).view.fed ∧
        ∀ q ≠ SchedUe.getUlHarq tti, u'.ulHarq q = u.ulHarq q := by
  have hu0 : (s.ulStart tti).ueDb[rnti]? = some u := hu
  obtain ⟨post, hpost, -, hvisit⟩ := StdMap.visit_at (f := phichUser tti) [] hu0
  constructor
  · unfold phichs
    rw [hvisit, phichs_other tti hpost, (phichUser_spec tti _ rnti u).1, List.filter_append,
      phichs_other tti (StdMap.notMem_before _ rnti)]
    unfold AckView.phich
    split_ifs
    · simp
    · simp
  · exact ⟨_, StdMap.visit_get [] hu0, (phichUser_spec tti _ rnti u).2⟩

/-! ## The whole call -/

/-- The state before the loop over the PUSCHs. -/
def ulReady (s : Sched) (tti : Nat) : Sched := (s.ulFed tti).ulAllocate lib tti

/-- The rounds of some users. -/
def puschRounds (s : Sched) (tti : Nat) (ks : List Nat) :
    (Sched × Elems UlSchedData) × StdMap SchedUe :=
  s.ueDb.visit (puschUser lib tti) ks (s, ⟨[], default⟩)

/-- The branch of a user in a call of `ul_sched`. -/
def branchOf (s : Sched) (tti rnti : Nat) : PuschBranch :=
  let s := s.ulReady lib tti
  match s.ueDb[rnti]? with
  | some u => (s.puschRounds lib tti (s.ueDb.before rnti)).1.1.puschBranch lib tti rnti u
  | none => .idle

/-- Each user is stored under its RNTI. -/
def Keyed (db : StdMap SchedUe) : Prop := ∀ (k : Nat) (u : SchedUe), db[k]? = some u → u.rnti = k

theorem Keyed.insert {db : StdMap SchedUe} (h : Keyed db) (hu : u.rnti = rnti) :
    Keyed (db.insert rnti u) := by
  intro k v hk
  rw [StdMap.getElem?_insert] at hk
  split_ifs at hk with heq
  · rw [← Option.some.inj hk, hu, heq]
  · exact h k v hk

theorem Keyed.visit {σ : Type} {f : σ → Nat → SchedUe → σ × SchedUe} {db : StdMap SchedUe}
    (h : Keyed db) (hf : ∀ st k u, (f st k u).2.rnti = u.rnti) (ks : List Nat) (st : σ) :
    Keyed (db.visit f ks st).2 :=
  StdMap.visit_forall (Q := fun k (u : SchedUe) => u.rnti = k)
    (fun st k u hu => (hf st k u).trans hu) ks st h

theorem Keyed.ulReady (h : Keyed s.ueDb) (tti : Nat) : Keyed (s.ulReady lib tti).ueDb := by
  intro k u' hu
  obtain ⟨u, hu, hoff⟩ := ulAllocate_offers lib _ tti hu
  have hfed : Keyed (s.ulFed tti).ueDb :=
    Keyed.visit h (fun phich k u => (phichUser_spec tti phich k u).2.1) _ _
  exact hoff.rnti.trans (hfed k u hu)

theorem puschs_other (tti : Nat) {ks : List Nat} (hks : rnti ∉ ks) {db : StdMap SchedUe}
    (hdb : Keyed db) (st : Sched × Elems UlSchedData) :
    ((db.visit (puschUser lib tti) ks st).1.2.done.filter fun d => d.rnti = rnti) =
      st.2.done.filter fun d => d.rnti = rnti := by
  have h := StdMap.visit_ind_mem (f := puschUser lib tti)
    (fun st' db' => Keyed db' ∧ (st'.2.done.filter fun d => d.rnti = rnti) =
      st.2.done.filter fun d => d.rnti = rnti) ks ?_ st db ⟨hdb, rfl⟩
  · exact h.2
  rintro ⟨s, out⟩ db' k u hk ⟨hkeyed, hout⟩ hu
  obtain ⟨-, hrnti, -, hgrant⟩ := puschUser_spec lib s out tti k u
  have hne : k ≠ rnti := fun heq => hks (heq ▸ hk)
  refine ⟨hkeyed.insert (hrnti.trans (hkeyed k u hu)), ?_⟩
  rcases hgrant with hsame | ⟨a, -, hsame | ⟨d, hd, hdr, -⟩⟩
  · rw [hsame, hout]
  · rw [hsame, hout]
  · rw [hd, List.filter_append, hout, List.filter_singleton]
    simp [hdr, hkeyed k u hu, hne]

/-- What a call of `ul_sched` does for a user. -/
structure CallOf (s : Sched) (tti rnti : Nat) (u u' : SchedUe) : Prop where
  user : (s.ulSched lib tti).1.ueDb[rnti]? = some u'
  view : Leaves (u.ulHarq (SchedUe.getUlHarq tti)).view.fed (s.branchOf lib tti rnti)
    (u'.ulHarq (SchedUe.getUlHarq tti)).view
  others : ∀ q ≠ SchedUe.getUlHarq tti, (u'.ulHarq q).view = (u.ulHarq q).view
  phich : ((s.ulSched lib tti).2.phich.filter fun e => e.rnti = rnti) =
    AckView.phich (u.ulHarq (SchedUe.getUlHarq tti)).view rnti
  pusch : (∃ d ∈ (s.ulSched lib tti).2.pusch, d.rnti = rnti) ↔ (s.branchOf lib tti rnti).Grants

theorem ulSched_eq (s : Sched) (tti : Nat) (hs : s.ulRuns = true) {s2 : Sched}
    {out : Elems UlSchedData} {db : StdMap SchedUe}
    (hrounds : (s.ulReady lib tti).puschRounds lib tti (s.ulReady lib tti).ueDb.keys =
      ((s2, out), db)) :
    s.ulSched lib tti =
      ({ s2 with ueDb := (db.visit (pendingDataUser tti) db.keys ()).2 },
       { pusch := out.done, phich := s.phichs tti }) := by
  unfold ulRuns at hs
  simp only [Bool.and_eq_true, Bool.not_eq_true', Bool.and_eq_false_iff,
    decide_eq_false_iff_not] at hs
  obtain ⟨⟨phich, db0⟩, hphich⟩ : ∃ r, (s.ulStart tti).ueDb.visit (phichUser tti)
      (s.ulStart tti).ueDb.keys [] = r := ⟨_, rfl⟩
  unfold ulReady ulFed at hrounds
  rw [hphich] at hrounds
  obtain ⟨s0, hs0⟩ : ∃ s0, { s.ulStart tti with ueDb := db0 }.ulAllocate lib tti = s0 := ⟨_, rfl⟩
  simp only [hs0, puschRounds] at hrounds
  unfold ulSched phichs
  rw [if_neg (by simp [hs.1]), if_neg (by tauto)]
  simp only [hphich, hs0, hrounds]

theorem ulSched_stays (s : Sched) (tti : Nat) (hs : ¬ s.ulRuns = true) :
    s.ulSched lib tti = (s, {}) := by
  unfold ulRuns at hs
  simp only [Bool.and_eq_true, Bool.not_eq_true', Bool.and_eq_false_iff,
    decide_eq_false_iff_not] at hs
  unfold ulSched
  split_ifs with h1 h2
  · rfl
  · rfl
  · exact absurd ⟨by simpa using h1, by tauto⟩ hs

theorem Keyed.puschs {db : StdMap SchedUe} (h : Keyed db) (tti : Nat) (ks : List Nat)
    (st : Sched × Elems UlSchedData) : Keyed (db.visit (puschUser lib tti) ks st).2 :=
  h.visit (fun st k u => (puschUser_spec lib st.1 st.2 tti k u).2.1) ks st

theorem Keyed.ulSched (h : Keyed s.ueDb) (tti : Nat) : Keyed (s.ulSched lib tti).1.ueDb := by
  by_cases hs : s.ulRuns = true
  · obtain ⟨⟨⟨s2, out⟩, db⟩, hrounds⟩ : ∃ r, (s.ulReady lib tti).puschRounds lib tti
        (s.ulReady lib tti).ueDb.keys = r := ⟨_, rfl⟩
    rw [ulSched_eq lib s tti hs hrounds]
    have hdb := (Keyed.ulReady lib h tti).puschs lib tti (s.ulReady lib tti).ueDb.keys
      (s.ulReady lib tti, ⟨[], default⟩)
    unfold puschRounds at hrounds
    rw [hrounds] at hdb
    exact hdb.visit (fun _ _ _ => rfl) _ _
  · rw [ulSched_stays lib s tti hs]
    exact h

/-- The elements of a user come from its own round. -/
theorem puschRounds_grants_iff (t : Sched) (tti : Nat) (hkeyed : Keyed t.ueDb) {w : SchedUe}
    (hw : t.ueDb[rnti]? = some w) {s1 : Sched} {out1 : Elems UlSchedData} {db1 : StdMap SchedUe}
    (hbefore : t.puschRounds lib tti (t.ueDb.before rnti) = ((s1, out1), db1))
    {b : PuschBranch}
    (hround : RoundOf w (puschUser lib tti (s1, out1) rnti w).2 out1
      (puschUser lib tti (s1, out1) rnti w).1.2 (SchedUe.getUlHarq tti) b) :
    (∃ d ∈ (t.puschRounds lib tti t.ueDb.keys).1.2.done, d.rnti = rnti) ↔ b.Grants := by
  unfold puschRounds at hbefore ⊢
  obtain ⟨post, hpost, -, hvisit⟩ := StdMap.visit_at (f := puschUser lib tti)
    (t, ⟨[], default⟩) hw
  rw [hbefore] at hvisit
  have hkeyed1 : Keyed db1 := by
    have := hkeyed.puschs lib tti (t.ueDb.before rnti) (t, ⟨[], default⟩)
    rwa [hbefore] at this
  have hins : Keyed (db1.insert rnti (puschUser lib tti (s1, out1) rnti w).2) :=
    hkeyed1.insert (hround.rnti.trans (hkeyed rnti w hw))
  have hout1 := puschs_other lib tti (StdMap.notMem_before t.ueDb rnti) hkeyed (t, ⟨[], default⟩)
  have hout := puschs_other lib tti hpost hins (puschUser lib tti (s1, out1) rnti w).1
  rw [hbefore] at hout1
  rw [← hvisit] at hout
  have hmem : ∀ l : List UlSchedData, (∃ d ∈ l, d.rnti = rnti) ↔
      (l.filter fun d => d.rnti = rnti) ≠ [] := by
    intro l
    rw [ne_eq, List.filter_eq_nil_iff]
    simp
  rw [hmem, hout]
  by_cases hb : b.Grants
  · obtain ⟨d, hd, hdr⟩ := hround.grants hb
    rw [hd, List.filter_append]
    simp [hb, hdr, hkeyed rnti w hw]
  · rw [hround.silent hb, hout1]
    simp [hb]

theorem ulSched_user (s : Sched) (tti : Nat) (hs : s.ulRuns = true) (hdb : Keyed s.ueDb)
    (hu : s.ueDb[rnti]? = some u) : ∃ u', CallOf lib s tti rnti u u' := by
  obtain ⟨hphich, v, hv, hvr, hvv, hvo⟩ := phichs_spec s tti hu
  -- The metric finds the user as the PHICHs left it.
  have hthere : (s.ulReady lib tti).ueDb[rnti]?.isSome = true := by
    unfold ulReady
    rw [ulAllocate_isSome, hv]
    rfl
  obtain ⟨w, hw⟩ := Option.isSome_iff_exists.mp hthere
  obtain ⟨v', hv', hoff⟩ := ulAllocate_offers lib _ tti hw
  obtain rfl : v = v' := Option.some.inj (hv.symm.trans hv')
  have hkeyed := Keyed.ulReady lib hdb tti
  have hbranch : s.branchOf lib tti rnti = ((s.ulReady lib tti).puschRounds lib tti
      ((s.ulReady lib tti).ueDb.before rnti)).1.1.puschBranch lib tti rnti w := by
    unfold branchOf
    simp only [hw]
  obtain ⟨⟨⟨s2, out⟩, db⟩, hrounds⟩ : ∃ r, (s.ulReady lib tti).puschRounds lib tti
      (s.ulReady lib tti).ueDb.keys = r := ⟨_, rfl⟩
  obtain ⟨⟨⟨s1, out1⟩, db1⟩, hbefore⟩ : ∃ r, (s.ulReady lib tti).puschRounds lib tti
      ((s.ulReady lib tti).ueDb.before rnti) = r := ⟨_, rfl⟩
  have hcall := ulSched_eq lib s tti hs hrounds
  have hround := puschUser_round lib s1 tti rnti out1 w hoff.next
  rw [hbefore] at hbranch
  rw [← hbranch] at hround
  have hgrants := puschRounds_grants_iff lib _ tti hkeyed hw hbefore hround
  rw [hrounds] at hgrants
  unfold puschRounds at hrounds hbefore
  have hget := StdMap.visit_get (f := puschUser lib tti) (s.ulReady lib tti, ⟨[], default⟩) hw
  rw [hrounds, hbefore] at hget
  have hlast := StdMap.visit_get (f := pendingDataUser tti) () hget
  obtain ⟨u', hu'⟩ : ∃ u',
      (pendingDataUser tti (db.visit (pendingDataUser tti) (db.before rnti) ()).1
        rnti (puschUser lib tti (s1, out1) rnti w).2).2 = u' := ⟨_, rfl⟩
  have hsame : SameViews (puschUser lib tti (s1, out1) rnti w).2 u' := by
    rw [← hu']
    exact SameViews.setUl rfl
  rw [hu'] at hlast
  refine ⟨u', ?_, ?_, ?_, ?_, ?_⟩
  · rw [hcall]
    exact hlast
  · rw [hsame, ← hvv, ← hoff.views]
    exact hround.view
  · intro q hq
    rw [hsame, hround.others q hq, hoff.views, hvo q hq]
  · rw [hcall]
    exact hphich
  · rw [hcall]
    exact hgrants

end Sched

end Srsenb.Mac
