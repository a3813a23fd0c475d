import Srsenb.Base.Run
import Srsenb.Mac.MacState
import Srsenb.Mac.Phich

/-! # PHICH and PUSCH over TTIs

The PHICH of a TTI answers the PUSCH that was granted eight TTIs before on the same process. Beside
the scheduler, the run keeps which TTIs had a grant for the user and a positive CRC since. -/

open Srsenb.Run

namespace Srsenb.Mac

/-- The process `g` with what the PHICH depends on in `h`. -/
def UlHarqProc.withViewOf (g h : UlHarqProc) : UlHarqProc :=
  { g with
    toHarqProc := g.toHarqProc.setTb 0
      { g.tb 0 with
        active := (h.tb 0).active, ack := (h.tb 0).ack, ackReceived := (h.tb 0).ackReceived }
    needAck := h.needAck }

/-- The user `v` with the RNTI of `u` and what the PHICHs depend on. -/
def SchedUe.withViewsOf (v u : SchedUe) : SchedUe :=
  { v with rnti := u.rnti, ulHarq := fun pid => (v.ulHarq pid).withViewOf (u.ulHarq pid) }

/-- The scheduler and the TTI of the next `ul_sched`, with the TTIs whose last `ul_sched` granted
the user a PUSCH, and those with a positive CRC reported since. -/
structure PhichRun where
  sched : Sched
  tti : Nat
  granted : Nat → Bool := fun _ => false
  acked : Nat → Bool := fun _ => false

/-- `ul_sched` is called, a CRC is reported, the user is configured again, or anything changes
but what the user's PHICHs depend on. -/
inductive PhichEvent where
  | ulSched
  | crc (tti : Nat) (res : Bool)
  | ueCfg (args : SchedArgs) (locations : Nat → Nat → Nat → DciCce) (cfg : UeCfg)
      (bearers : List Direction)
  | other (sched : Sched) (ue : SchedUe)

namespace PhichRun

variable (lib : Lib) (rnti : Nat)

/-- `sched` with the user `u`; each other user is stored under its RNTI. -/
def withUser (sched : Sched) (u : SchedUe) : Sched :=
  { sched with ueDb := (sched.ueDb.map fun k v => { v with rnti := k }).insert rnti u }

def step (st : PhichRun) : PhichEvent → PhichRun
  | .ulSched =>
    let (sched, res) := st.sched.ulSched lib st.tti
    { sched := sched, tti := (st.tti + 1) % 10240
      granted := Function.update st.granted st.tti (res.pusch.any fun d => d.rnti = rnti)
      acked := Function.update st.acked st.tti false }
  | .crc tti res =>
    { st with
      sched := (st.sched.ulCrcInfo tti rnti res).1
      acked := if res then Function.update st.acked tti true else st.acked }
  | .ueCfg args locations cfg bearers =>
    { st with sched := st.sched.ueCfg lib args locations rnti cfg bearers }
  | .other sched ue =>
    { st with sched := withUser rnti sched (ue.withViewsOf (st.sched.ueDb.sub rnti)) }

/-- A scheduler with a new user; the rest of it and of the user is as in `sched` and `ue`. -/
def init (sched : Sched) (ue : SchedUe) (tti : Nat) : PhichRun :=
  { sched := withUser rnti sched (ue.withViewsOf { SchedUe.new with rnti := rnti })
    tti := tti % 10240 }

/-- The TTI `d` before the next call. -/
def ago (st : PhichRun) (d : Nat) : Nat := (st.tti + 10240 - d) % 10240

/-- A call of `ul_sched` emits a PHICH for the user if and only if there was a grant eight TTIs
before, and an ACK if and only if a positive CRC was reported since. -/
def Matches (st : PhichRun) : PhichEvent → Prop
  | .ulSched =>
    ((∃ e ∈ (st.sched.ulSched lib st.tti).2.phich, e.rnti = rnti) ↔
        st.granted (st.ago 8) = true) ∧
      ∀ e ∈ (st.sched.ulSched lib st.tti).2.phich, e.rnti = rnti →
        (e.ack = true ↔ st.acked (st.ago 8) = true)
  | _ => True

instance (st : PhichRun) (e : PhichEvent) : Decidable (st.Matches lib rnti e) := by
  unfold Matches
  split <;> infer_instance

/-- What the user's PHICHs depend on. -/
def view (st : PhichRun) (pid : Pid) : AckView := ((st.sched.ueDb.sub rnti).ulHarq pid).view

/-- The branch that the call takes for the user carries what waits: a block that was not
acknowledged is granted again, and no transmission comes without a TBS. -/
def Carries (st : PhichRun) : Prop :=
  (st.sched.branchOf lib st.tti rnti).Carries
    (st.view rnti (SchedUe.getUlHarq st.tti)).fed.active

/-- A call of `ul_sched` carries what waits, and a grant before it has its CRC: the ACK that a new
block starts with was replaced by a report. A report is for the last grant of its process; or it
is positive after a positive one, or negative without one. -/
def Allowed (st : PhichRun) : PhichEvent → Prop
  | .ulSched =>
    (st.granted (st.ago 8) = true → st.sched.ulRuns = true ∧
        ((st.view rnti (SchedUe.getUlHarq st.tti)).ack = true →
          (st.view rnti (SchedUe.getUlHarq st.tti)).ackReceived = true ∨
            st.acked (st.ago 8) = true)) ∧
      (st.sched.ulRuns = true → st.Carries lib rnti)
  | .crc tti res =>
    ∀ d < 8, SchedUe.getUlHarq (st.ago (d + 1)) = SchedUe.getUlHarq tti →
      st.granted (st.ago (d + 1)) = true →
        if res then tti = st.ago (d + 1) ∨ st.acked (st.ago (d + 1)) = true
        else st.acked (st.ago (d + 1)) = false
  | _ => True

instance (st : PhichRun) (e : PhichEvent) : Decidable (st.Allowed lib rnti e) := by
  unfold Allowed Carries
  split <;> infer_instance

/-- What the view of a process says about its last grant. -/
structure Tracks (v : AckView) (granted acked : Bool) : Prop where
  idle : granted = false → v.needAck = false ∧ v.active = false
  due : granted = true → v.needAck = true
  ack : granted = true → v.ack = acked ∨ v.ack = true ∧ v.ackReceived = false

/-- The invariant: the user is there, and each process tracks its last TTI. -/
structure Inv (st : PhichRun) : Prop where
  tti : st.tti < 10240
  keyed : Sched.Keyed st.sched.ueDb
  there : st.sched.ueDb[rnti]?.isSome = true
  tracks : ∀ d < 8, Tracks (st.view rnti (SchedUe.getUlHarq (st.ago (d + 1))))
    (st.granted (st.ago (d + 1))) (st.acked (st.ago (d + 1)))

/-! ## Steps -/

variable {lib} {rnti} {st : PhichRun}

/-- Seven of the last eight TTIs are of other processes, and the eighth is of the one to come. -/
theorem ago_eight (h : st.tti < 10240) :
    SchedUe.getUlHarq (st.ago 8) = SchedUe.getUlHarq st.tti := by
  unfold SchedUe.getUlHarq ago
  apply Fin.ext
  simp only [Fin.val_ofNat]
  omega

theorem ago_other (h : st.tti < 10240) {d : Nat} (hd : d < 7) :
    SchedUe.getUlHarq (st.ago (d + 1)) ≠ SchedUe.getUlHarq st.tti ∧ st.ago (d + 1) ≠ st.tti := by
  unfold SchedUe.getUlHarq ago
  constructor
  · intro heq
    have := congrArg Fin.val heq
    simp only [Fin.val_ofNat] at this
    omega
  · omega

theorem tracks_ulSched {v v' : AckView} {b : PuschBranch} {granted acked : Bool}
    (h : Tracks v granted acked) (hv : Leaves v.fed b v') (hb : b.Carries v.fed.active) :
    Tracks v' (decide b.Grants) false := by
  have hneed : v.fed.active = false → v.fed.needAck = false := by
    intro hactive
    unfold AckView.fed at hactive ⊢
    simp only at hactive ⊢
    rw [hactive, Bool.false_and]
  have hfalse : ∀ {p : Prop}, false = true → p := fun h => absurd h Bool.false_ne_true
  have htrue : ∀ {p : Prop}, true = false → p := fun h => absurd h.symm Bool.false_ne_true
  cases hv with
  | idle => exact ⟨fun _ => ⟨hneed hb, hb⟩, hfalse, hfalse⟩
  | dciFailed => exact ⟨fun _ => ⟨hneed hb, rfl⟩, hfalse, hfalse⟩
  | newTx tbs active =>
    have hgrants : decide (PuschBranch.newTx tbs).Grants = true := decide_eq_true hb
    rw [hgrants]
    exact ⟨htrue, fun _ => rfl, fun _ => Or.inr ⟨rfl, rfl⟩⟩
  | retx tbs hactive =>
    have hgrants : decide (PuschBranch.retx tbs).Grants = true := decide_eq_true hb
    rw [hgrants]
    unfold AckView.fed at hactive ⊢
    simp only [Bool.and_eq_true, Bool.not_eq_true'] at hactive
    -- An active block was granted, so its PHICH is due.
    have hwas : granted = true := by
      cases hg : granted with
      | true => rfl
      | false =>
        have := (h.idle hg).2
        rw [hactive.1] at this
        cases this
    refine ⟨htrue, fun _ => ?_, fun _ => Or.inl hactive.2⟩
    simp [hactive.1, hactive.2, h.due hwas]

theorem tracks_crc {v : AckView} {granted acked acked' res active : Bool}
    (h : Tracks v granted acked) (hactive : v.active = false → active = false)
    (hres : granted = true → acked' = res) :
    Tracks { v with active := active, ack := res, ackReceived := true } granted acked' where
  idle hg := ⟨(h.idle hg).1, hactive (h.idle hg).2⟩
  due := h.due
  ack hg := Or.inl (hres hg).symm

theorem tracks_ueCfg {v : AckView} {granted acked : Bool} (h : Tracks v granted acked) :
    Tracks { v with active := false, ack := true, ackReceived := false } granted acked where
  idle hg := ⟨(h.idle hg).1, rfl⟩
  due := h.due
  ack _ := Or.inr ⟨rfl, rfl⟩

/-! ## The user -/

theorem view_eq {u : SchedUe} (hu : st.sched.ueDb[rnti]? = some u) (pid : Pid) :
    st.view rnti pid = (u.ulHarq pid).view := by
  unfold view
  rw [StdMap.sub_of_get hu]

theorem withUser_there (sched : Sched) (u : SchedUe) :
    (withUser rnti sched u).ueDb[rnti]? = some u := by
  unfold withUser
  rw [StdMap.getElem?_insert, if_pos rfl]

theorem withUser_keyed (sched : Sched) {u : SchedUe} (hu : u.rnti = rnti) :
    Sched.Keyed (withUser rnti sched u).ueDb := by
  intro k v hk
  unfold withUser at hk
  rw [StdMap.getElem?_insert] at hk
  split_ifs at hk with heq
  · rw [← Option.some.inj hk, hu, heq]
  · rw [Std.ExtTreeMap.getElem?_map] at hk
    obtain ⟨w, -, rfl⟩ := Option.map_eq_some_iff.mp hk
    rfl

theorem withViewsOf_view (v u : SchedUe) (pid : Pid) :
    ((v.withViewsOf u).ulHarq pid).view = (u.ulHarq pid).view := by
  unfold SchedUe.withViewsOf UlHarqProc.withViewOf UlHarqProc.view
  simp only [HarqProc.setTb_tb]

theorem inv_init (sched : Sched) (ue : SchedUe) (tti : Nat) :
    Inv rnti (init rnti sched ue tti) where
  tti := Nat.mod_lt _ (by decide)
  keyed := withUser_keyed sched rfl
  there := by
    unfold init
    rw [withUser_there]
    rfl
  tracks d _ := by
    rw [view_eq (withUser_there sched _), withViewsOf_view]
    exact ⟨fun _ => ⟨rfl, rfl⟩, fun h => absurd h Bool.false_ne_true,
      fun h => absurd h Bool.false_ne_true⟩

/-! ## The invariant -/

theorem step_ago (lib : Lib) (rnti : Nat) (h : st.tti < 10240) :
    (step lib rnti st .ulSched).ago 1 = st.tti ∧
      ∀ d < 7, (step lib rnti st .ulSched).ago (d + 1 + 1) = st.ago (d + 1) := by
  unfold step ago
  simp only
  exact ⟨by omega, fun d hd => by omega⟩

/-- A TTI that `ul_sched` comes to has the grants of its call and no acknowledgement yet. -/
theorem now_ulSched :
    (step lib rnti st .ulSched).granted st.tti =
      ((st.sched.ulSched lib st.tti).2.pusch.any fun d => d.rnti = rnti) ∧
    (step lib rnti st .ulSched).acked st.tti = false := by
  unfold step
  simp only
  rw [Function.update_self, Function.update_self]
  exact ⟨rfl, rfl⟩

/-- What is known of the seven TTIs before it stays. -/
theorem keep_ulSched (lib : Lib) (rnti : Nat) (h : st.tti < 10240) {d : Nat} (hd : d < 7) :
    (step lib rnti st .ulSched).granted (st.ago (d + 1)) = st.granted (st.ago (d + 1)) ∧
      (step lib rnti st .ulSched).acked (st.ago (d + 1)) = st.acked (st.ago (d + 1)) := by
  have hne := (ago_other h hd).2
  unfold step
  simp only
  rw [Function.update_of_ne hne, Function.update_of_ne hne]
  exact ⟨rfl, rfl⟩

/-- The invariant after `ul_sched`, from what its call does to the process of the TTI and to those
of the seven TTIs before. -/
theorem inv_of_views (h : Inv rnti st)
    (hthere : (step lib rnti st .ulSched).sched.ueDb[rnti]?.isSome = true)
    (hnow : Tracks ((step lib rnti st .ulSched).view rnti (SchedUe.getUlHarq st.tti))
      ((st.sched.ulSched lib st.tti).2.pusch.any fun d => d.rnti = rnti) false)
    (hothers : ∀ d < 7,
      (step lib rnti st .ulSched).view rnti (SchedUe.getUlHarq (st.ago (d + 1))) =
        st.view rnti (SchedUe.getUlHarq (st.ago (d + 1)))) :
    Inv rnti (step lib rnti st .ulSched) := by
  obtain ⟨hone, hrest⟩ := step_ago lib rnti h.tti
  refine ⟨Nat.mod_lt _ (by decide), h.keyed.ulSched lib st.tti, hthere, fun d hd => ?_⟩
  match d with
  | 0 =>
    rw [hone, now_ulSched.1, now_ulSched.2]
    exact hnow
  | d + 1 =>
    have hd' : d < 7 := Nat.lt_of_succ_lt_succ hd
    obtain ⟨hgranted, hacked⟩ := keep_ulSched lib rnti h.tti hd'
    rw [hrest d hd', hgranted, hacked, hothers d hd']
    exact h.tracks d (by omega)

theorem inv_ulSched (h : Inv rnti st) (hok : Allowed lib rnti st .ulSched) :
    Inv rnti (step lib rnti st .ulSched) := by
  obtain ⟨u, hu⟩ := Option.isSome_iff_exists.mp h.there
  have hlast := h.tracks 7 (by decide)
  rw [ago_eight h.tti] at hlast
  by_cases hruns : st.sched.ulRuns = true
  · obtain ⟨u', hcall⟩ := Sched.ulSched_user lib st.sched st.tti hruns h.keyed hu
    have hview : ∀ pid, (step lib rnti st .ulSched).view rnti pid = (u'.ulHarq pid).view :=
      view_eq hcall.user
    have hcarry := hok.2 hruns
    unfold Carries at hcarry
    rw [view_eq hu] at hcarry hlast
    have hgrant : ((st.sched.ulSched lib st.tti).2.pusch.any fun d => d.rnti = rnti) =
        decide (st.sched.branchOf lib st.tti rnti).Grants := by
      rw [Bool.eq_iff_iff, decide_eq_true_iff, ← hcall.pusch]
      simp
    apply inv_of_views h
    · exact Option.isSome_iff_exists.mpr ⟨u', hcall.user⟩
    · rw [hview, hgrant]
      exact tracks_ulSched hlast hcall.view hcarry
    · intro d hd
      rw [hview, hcall.others _ (ago_other h.tti hd).1, ← view_eq hu]
  · have hstay := Sched.ulSched_stays lib st.sched st.tti hruns
    have hnone : st.granted (st.ago 8) = false := by
      cases hg : st.granted (st.ago 8) with
      | false => rfl
      | true => exact absurd (hok.1 hg).1 hruns
    have hview : ∀ pid, (step lib rnti st .ulSched).view rnti pid = st.view rnti pid := by
      intro pid
      unfold step view
      simp only [hstay]
    apply inv_of_views h
    · unfold step
      simp only [hstay]
      exact h.there
    · rw [hview, hstay]
      exact ⟨fun _ => hlast.idle hnone, fun h => absurd h Bool.false_ne_true,
        fun h => absurd h Bool.false_ne_true⟩
    · intro d _
      exact hview _

theorem setUlCrc_view (u : SchedUe) (tti : Nat) (res : Bool) :
    (∃ active, ((u.ulHarq (SchedUe.getUlHarq tti)).view.active = false → active = false) ∧
      ((u.setUlCrc tti res).ulHarq (SchedUe.getUlHarq tti)).view =
        { (u.ulHarq (SchedUe.getUlHarq tti)).view with
          active := active, ack := res, ackReceived := true }) ∧
      ∀ q ≠ SchedUe.getUlHarq tti, ((u.setUlCrc tti res).ulHarq q).view = (u.ulHarq q).view := by
  constructor
  · unfold SchedUe.setUlCrc
    rw [SchedUe.setUl_ulHarq]
    unfold UlHarqProc.setAck UlHarqProc.view HarqProc.setAck
    simp only [HarqProc.setTb_tb]
    refine ⟨_, fun h => ?_, rfl⟩
    rw [h, ite_self]
  · intro q hq
    unfold SchedUe.setUlCrc
    rw [SchedUe.setUl_ulHarq_ne _ hq]

theorem inv_replace (h : Inv rnti st) {sched : Sched} {u' : SchedUe} {acked : Nat → Bool}
    (hkeyed : Sched.Keyed sched.ueDb) (hu : sched.ueDb[rnti]? = some u')
    (htracks : ∀ d < 8, Tracks (u'.ulHarq (SchedUe.getUlHarq (st.ago (d + 1)))).view
      (st.granted (st.ago (d + 1))) (acked (st.ago (d + 1)))) :
    Inv rnti { st with sched := sched, acked := acked } where
  tti := h.tti
  keyed := hkeyed
  there := Option.isSome_iff_exists.mpr ⟨u', hu⟩
  tracks d hd := by
    rw [view_eq hu]
    exact htracks d hd

theorem inv_crc (h : Inv rnti st) {tti : Nat} {res : Bool}
    (hok : Allowed lib rnti st (.crc tti res)) : Inv rnti (step lib rnti st (.crc tti res)) := by
  obtain ⟨u, hu⟩ := Option.isSome_iff_exists.mp h.there
  have hsched : (st.sched.ulCrcInfo tti rnti res).1 =
      { st.sched with ueDb := st.sched.ueDb.insert rnti (u.setUlCrc tti res) } := by
    unfold Sched.ulCrcInfo Sched.indicate
    rw [hu]
  obtain ⟨⟨active, hactive, hmine⟩, hothers⟩ := setUlCrc_view u tti res
  simp only [step, hsched]
  refine inv_replace h (h.keyed.insert (h.keyed rnti u hu))
    (by rw [StdMap.getElem?_insert, if_pos rfl]) fun d hd => ?_
  have htracks := h.tracks d hd
  rw [view_eq hu] at htracks
  by_cases hpid : SchedUe.getUlHarq (st.ago (d + 1)) = SchedUe.getUlHarq tti
  · rw [hpid] at htracks ⊢
    rw [hmine]
    refine tracks_crc htracks hactive fun hg => ?_
    have hreport := hok d hd hpid hg
    cases res with
    | true =>
      simp only [if_true] at hreport ⊢
      rcases hreport with heq | hacked
      · rw [← heq, Function.update_self]
      · rw [Function.update_apply, hacked, ite_self]
    | false => exact hreport
  · have hne : st.ago (d + 1) ≠ tti := fun heq => hpid (heq ▸ rfl)
    rw [hothers _ hpid]
    cases res with
    | true =>
      simp only [if_true]
      rw [Function.update_of_ne hne]
      exact htracks
    | false => exact htracks

theorem ueCfg_view (u : SchedUe) (lib : Lib) (args : SchedArgs) (cfg : UeCfg)
    (bearers : List Direction) (cell : Cell) (locations : Nat → Nat → DciCce) (pid : Pid) :
    ((((u.setCfg lib rnti cfg bearers cell locations).setMaxMcs args.puschMaxMcs
      args.pdschMaxMcs).setFixedMcs args.puschMcs args.pdschMcs).ulHarq pid).view =
        { (u.ulHarq pid).view with active := false, ack := true, ackReceived := false } := by
  unfold SchedUe.setFixedMcs SchedUe.setMaxMcs SchedUe.setCfg SchedUe.reset UlHarqProc.view
  simp [HarqProc.config, HarqProc.reset, HarqProc.setTb]

theorem inv_step (h : Inv rnti st) {e : PhichEvent} (hok : Allowed lib rnti st e) :
    Inv rnti (step lib rnti st e) := by
  obtain ⟨u, hu⟩ := Option.isSome_iff_exists.mp h.there
  cases e with
  | ulSched => exact inv_ulSched h hok
  | crc tti res => exact inv_crc h hok
  | ueCfg args locations cfg bearers =>
    refine inv_replace h (h.keyed.insert rfl)
      (by unfold Sched.ueCfg; simp only [StdMap.getElem?_update, if_true]; rfl) fun d hd => ?_
    rw [StdMap.sub_of_get hu, ueCfg_view]
    have htracks := h.tracks d hd
    rw [view_eq hu] at htracks
    exact tracks_ueCfg htracks
  | other sched ue =>
    refine inv_replace h (withUser_keyed sched ?_) (withUser_there sched _) fun d hd => ?_
    · rw [StdMap.sub_of_get hu]
      exact h.keyed rnti u hu
    · rw [withViewsOf_view]
      exact h.tracks d hd

/-- With a grant there is one element for the user, without one there is none. -/
theorem phich_of_filter {l : List UlSchedPhich} {granted ack : Bool}
    (h : l.filter (fun e => e.rnti = rnti) = if granted then [⟨rnti, ack⟩] else []) :
    ((∃ e ∈ l, e.rnti = rnti) ↔ granted = true) ∧
      ∀ e ∈ l, e.rnti = rnti → granted = true ∧ e.ack = ack := by
  have hmem : ∀ e, (e ∈ l ∧ e.rnti = rnti) ↔ granted = true ∧ e = ⟨rnti, ack⟩ := by
    intro e
    have hiff : e ∈ l.filter (fun e => e.rnti = rnti) ↔
        e ∈ if granted then [(⟨rnti, ack⟩ : UlSchedPhich)] else [] := by rw [h]
    cases granted <;> simpa using hiff
  constructor
  · constructor
    · rintro ⟨e, he⟩
      exact ((hmem e).mp he).1
    · intro hg
      exact ⟨_, (hmem _).mpr ⟨hg, rfl⟩⟩
  · intro e he hr
    obtain ⟨hg, rfl⟩ := (hmem e).mp ⟨he, hr⟩
    exact ⟨hg, rfl⟩

theorem matches_ulSched (h : Inv rnti st) (hok : Allowed lib rnti st .ulSched) :
    Matches lib rnti st .ulSched := by
  obtain ⟨u, hu⟩ := Option.isSome_iff_exists.mp h.there
  have hlast := h.tracks 7 (by decide)
  rw [ago_eight h.tti, view_eq hu] at hlast
  unfold Matches
  by_cases hruns : st.sched.ulRuns = true
  · obtain ⟨u', hcall⟩ := Sched.ulSched_user lib st.sched st.tti hruns h.keyed hu
    have hneed : (u.ulHarq (SchedUe.getUlHarq st.tti)).view.needAck = st.granted (st.ago 8) := by
      cases hg : st.granted (st.ago 8) with
      | true => exact hlast.due hg
      | false => exact (hlast.idle hg).1
    have hphich := hcall.phich
    unfold AckView.phich at hphich
    rw [hneed] at hphich
    obtain ⟨hthere, hacks⟩ := phich_of_filter hphich
    refine ⟨hthere, fun e he hr => ?_⟩
    obtain ⟨hg, hack⟩ := hacks e he hr
    rw [hack]
    rcases hlast.ack hg with hack | ⟨hack, hmissing⟩
    · rw [hack]
    · -- The acknowledgement of a process is left from before, or it was reported since.
      have hreported := (hok.1 hg).2
      rw [view_eq hu] at hreported
      rcases hreported hack with hrec | hacked
      · rw [hmissing] at hrec
        cases hrec
      · rw [hack, hacked]
  · have hnone : ¬ st.granted (st.ago 8) = true := fun hg => hruns (hok.1 hg).1
    rw [Sched.ulSched_stays lib st.sched st.tti hruns]
    exact ⟨iff_of_false (by simp) hnone, by simp⟩

theorem matches_step (h : Inv rnti st) {e : PhichEvent} (hok : Allowed lib rnti st e) :
    Matches lib rnti st e := by
  cases e with
  | ulSched => exact matches_ulSched h hok
  | crc tti res => exact trivial
  | ueCfg args locations cfg bearers => exact trivial
  | other sched ue => exact trivial

/-- **PHICH matches PUSCH** in every run whose steps are allowed. -/
theorem phich_matches (lib : Lib) (rnti : Nat) (sched : Sched) (ue : SchedUe) (tti : Nat)
    (es : List PhichEvent)
    (h : AllSteps (step lib rnti) (Allowed lib rnti) (init rnti sched ue tti) es) :
    AllSteps (step lib rnti) (Matches lib rnti) (init rnti sched ue tti) es :=
  allSteps_of_allSteps (I := Inv rnti) (fun _ _ hI hC => inv_step hI hC)
    (fun _ _ hI hC => matches_step hI hC) (inv_init sched ue tti) h

/-! ## A retransmission -/

def retxUe : SchedUe := { Sched.requesting 70 with cfg := { maxharqTx := 4 } }

/-- User 70 asks for a grant in TTI 10. -/
def requestRun : PhichRun := init 70 Sched.exampleSched retxUe 10

/-- Its block is not received, and is granted again eight TTIs later. -/
def retxRun : List PhichEvent :=
  [.ulSched, .crc 10 false] ++ List.replicate 8 .ulSched ++ [.crc 18 true] ++
    List.replicate 8 .ulSched

theorem phich_matches_retxRun :
    AllSteps (step exampleLib 70) (Matches exampleLib 70) requestRun retxRun :=
  phich_matches exampleLib 70 Sched.exampleSched retxUe 10 retxRun (by decide +kernel)

/-- The same block, when the DCIs of TTI 14's `dl_sched` have filled the PDCCH. -/
def fullPdcchRun : List PhichEvent :=
  [.ulSched, .crc 10 false] ++ List.replicate 7 .ulSched ++
    [.other { Sched.exampleSched with cce := { used := fun _ => true }, currentTti := 14 }
      { retxUe with sr := false }] ++
    List.replicate 9 .ulSched

/-- The retransmission for TTI 18 is dropped, and TTI 26 has an ACK for it. -/
theorem phich_not_matches_fullPdcchRun :
    ¬ AllSteps (step exampleLib 70) (Matches exampleLib 70) requestRun fullPdcchRun := by
  decide +kernel

end PhichRun

end Srsenb.Mac
