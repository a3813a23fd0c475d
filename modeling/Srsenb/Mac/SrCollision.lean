import Srsenb.Base.Run
import Srsenb.Mac.DataBounds

/-! # The SR collision test

`generate_dci` asks for a collision in `current_tti`, and the ACK is sent in `TTI_TX` of it. -/

open Srsenb.Run

namespace Srsenb.Mac

open StdMap

namespace SchedUe

variable (lib : Lib) (u : SchedUe)

/-- The PUCCH PRB of the dynamic ACK resource of a CCE, -/
def ackPrb (nCce : Nat) : Nat := u.nPrb lib .format1a (lib.pucchGetNpucch nCce false u.pucchSched) 0

/-- and of the SR resource. -/
def srPrb : Nat := u.nPrb lib .format1 u.cfg.srNPucch 0

/-- The first CCEs of the candidates of `generate_dci`. -/
def candidates (s : Sched) : List Nat :=
  let L := u.getAggrLevel lib (lib.dciFormatSizeof .format1 s.cfg.cell.nofPrb s.cfg.cell.nofPorts)
  let loc := u.getLocations s.currentCfi s.sfIdx
  (List.range (loc.nofLoc L)).map (loc.cceStart L)

/-- What the code relies on: with an SR the resource is that of the SR, and the formats 1 and 1A
are in the same PRBs. -/
structure PucchRules (lib : Lib) : Prop where
  sr : ∀ nCce cfg, lib.pucchGetNpucch nCce true cfg = cfg.nPucchSr
  prb : ∀ cfg nPucch cell slot, lib.pucchNPrb cfg .format1a nPucch cell slot =
    lib.pucchNPrb cfg .format1 nPucch cell slot

variable {lib} {u}

theorem pucchSrCollision_iff (hlib : PucchRules lib) {tti nCce : Nat} :
    u.pucchSrCollision lib tti nCce = true ↔
      u.phyConfigDedicatedEnabled = true ∧ u.hasSr lib tti = true ∧
        u.ackPrb lib nCce = u.srPrb lib := by
  have hsr : u.nPrb lib .format1a (lib.pucchGetNpucch nCce true u.pucchSched) 0 = u.srPrb lib := by
    rw [hlib.sr]
    exact hlib.prb _ _ _ _
  unfold pucchSrCollision
  rw [hsr, Bool.and_eq_true, Bool.and_eq_true, decide_eq_true_eq, and_assoc]
  exact and_congr_right fun _ => and_congr_right fun _ => eq_comm

end SchedUe

/-! ## The search -/

theorem tryCandidates_some {loc : DciCce} {L : Nat} {c : Nat → Bool} {l : DciLocation} :
    ∀ {fuel cand : Nat} {t : CceTable}, cand < loc.nofLoc L →
      (tryCandidates loc L c fuel cand t).1 = some l →
        ∃ i < loc.nofLoc L, l.ncce = loc.cceStart L i ∧ c l.ncce = false ∧
          t.firstUsed l.ncce L = none
  | 0, _, _, _, h => by simp [tryCandidates] at h
  | fuel + 1, cand, t, hcand, h => by
    obtain ⟨next, hnext⟩ : ∃ next, (if cand + 1 = loc.nofLoc L then 0 else cand + 1) = next :=
      ⟨_, rfl⟩
    have hlt : next < loc.nofLoc L := by
      rw [← hnext]
      split_ifs <;> omega
    simp only [tryCandidates, hnext] at h
    split_ifs at h with hc
    · exact tryCandidates_some hlt h
    · cases hused : t.firstUsed (loc.cceStart L cand) L with
      | some cce =>
        rw [hused] at h
        exact tryCandidates_some (t := t.refuse cce) hlt h
      | none =>
        rw [hused] at h
        obtain rfl := Option.some.inj h
        exact ⟨cand, hcand, rfl, by simpa using hc, hused⟩

namespace Sched

variable {lib : Lib} {s : Sched} {out : Elems DlSchedData} {k : Nat} {u : SchedUe}

theorem generateDci_some {loc : DciCce} {L : Nat} {c : Nat → Bool} {l : DciLocation}
    (h : (s.generateDci lib loc L c).1 = some l) : ∃ i < loc.nofLoc L,
      l.ncce = loc.cceStart L i ∧ c l.ncce = false ∧ s.cce.firstUsed l.ncce L = none := by
  unfold generateDci at h
  split_ifs at h with h0
  exact tryCandidates_some (Nat.mod_lt _ (Nat.pos_of_ne_zero h0)) h

/-- A grant keeps the location that was found for it. -/
theorem generateFormat_location (format : DciFormat) (pid : Pid) (slot : DlSchedData)
    (tti cfi : Nat) :
    (generateFormat lib format u pid slot tti cfi).2.1.dciLocation = slot.dciLocation := by
  have hblock : ∀ (nofPrb nofRe : Nat) (tbEn noRetx : Bool) (tb : Fin 2) (v : SchedUe) d,
      (SchedUe.format2aTb lib pid nofPrb nofRe tti tbEn noRetx tb v d).2.dciLocation =
        d.dciLocation := by
    intro nofPrb nofRe tbEn noRetx tb v d
    simp only [SchedUe.format2aTb]
    split_ifs <;> rfl
  have hformat2a : (u.generateFormat2a lib pid slot tti cfi).2.1.dciLocation =
      slot.dciLocation := by
    unfold SchedUe.generateFormat2a
    exact (hblock _ _ _ _ _ _ _).trans (hblock _ _ _ _ _ _ _)
  cases format with
  | format0 => rfl
  | format1 =>
    simp only [generateFormat, SchedUe.generateFormat1]
    split_ifs <;> rfl
  | format2 | format2a => exact hformat2a

/-- The round of the user emits the grant. -/
def RoundGrants (lib : Lib) (st : Sched × Elems DlSchedData) (k : Nat) (u : SchedUe)
    (d : DlSchedData) : Prop :=
  (dataUser lib st k u).1.2.done = st.2.done ++ [d]

theorem roundGrants_found {st : Sched × Elems DlSchedData} {d : DlSchedData}
    (h : RoundGrants lib st k u d) :
    u.dlNextAlloc ≠ none ∧ ∃ ncce ∈ u.candidates lib st.1, d.dciLocation.ncce = ncce ∧
      u.pucchSrCollision lib st.1.currentTti ncce = false ∧
      st.1.cce.firstUsed ncce (u.getAggrLevel lib (lib.dciFormatSizeof .format1
        st.1.cfg.cell.nofPrb st.1.cfg.cell.nofPorts)) = none := by
  obtain ⟨s, out⟩ := st
  have hne : ∀ d, out.done ≠ out.done ++ [d] := fun d => by simp
  obtain ⟨⟨l, s1⟩, hdci⟩ : ∃ r, s.generateDci lib (u.getLocations s.currentCfi s.sfIdx)
      (u.getAggrLevel lib
        (lib.dciFormatSizeof .format1 s.cfg.cell.nofPrb s.cfg.cell.nofPorts))
      (u.pucchSrCollision lib s.currentTti) = r := ⟨_, rfl⟩
  simp only [RoundGrants, dataUser, hdci] at h
  cases hpid : u.dlNextAlloc with
  | none =>
    rw [hpid] at h
    exact absurd h (hne d)
  | some pid =>
    rw [hpid] at h
    cases l with
    | none => exact absurd h (hne d)
    | some loc =>
      obtain ⟨i, hi, hncce, hfree⟩ := generateDci_some (congrArg Prod.fst hdci)
      have hloc : d.dciLocation = loc := by
        simp only at h
        split_ifs at h
        · have hd := List.append_cancel_left h
          rw [← List.singleton_inj.mp hd]
          exact generateFormat_location _ _ _ _ _
        · exact absurd h (hne d)
      refine ⟨Option.some_ne_none pid, loc.ncce, ?_, by rw [hloc], hfree⟩
      rw [hncce]
      exact List.mem_map_of_mem (List.mem_range.mpr hi)

/-! ## A call -/

/-- A round places no grant whose ACK meets the SR, and looks past no candidate without an SR in
the subframe of the ACK. -/
structure SrRight (lib : Lib) (tti : Nat) (st : Sched × Elems DlSchedData) (k : Nat) (u : SchedUe) :
    Prop where
  grant : ∀ d, RoundGrants lib st k u d → u.phyConfigDedicatedEnabled = true →
    u.hasSr lib (ttiTx tti) = true → u.ackPrb lib d.dciLocation.ncce ≠ u.srPrb lib
  search : u.dlNextAlloc ≠ none → u.hasSr lib (ttiTx tti) = false →
    ∀ ncce ∈ u.candidates lib st.1, u.pucchSrCollision lib st.1.currentTti ncce = false

/-- The user is not served, or has an SR in both subframes or in neither, or no candidate meets it;
where the SR is in the later subframe, those with a CCE in use do not count. -/
def SrSettled (lib : Lib) (tti : Nat) (st : Sched × Elems DlSchedData) (u : SchedUe) : Prop :=
  u.dlNextAlloc ≠ none → u.phyConfigDedicatedEnabled = true →
    u.hasSr lib tti ≠ u.hasSr lib (ttiTx tti) → ∀ ncce ∈ u.candidates lib st.1,
      (u.hasSr lib tti = true ∨ st.1.cce.firstUsed ncce (u.getAggrLevel lib
        (lib.dciFormatSizeof .format1 st.1.cfg.cell.nofPrb st.1.cfg.cell.nofPorts)) = none) →
      u.ackPrb lib ncce ≠ u.srPrb lib

theorem srRight_of_settled (hlib : SchedUe.PucchRules lib) {tti : Nat}
    {st : Sched × Elems DlSchedData} (htti : st.1.currentTti = tti) (h : SrSettled lib tti st u) :
    SrRight lib tti st k u := by
  constructor
  · intro d hd hdedicated hsr heq
    obtain ⟨hpid, ncce, hmem, hncce, hcollides, hfree⟩ := roundGrants_found hd
    rw [hncce] at heq
    by_cases hnow : u.hasSr lib tti = true
    · rw [htti, Bool.eq_false_iff] at hcollides
      exact hcollides ((SchedUe.pucchSrCollision_iff hlib).mpr ⟨hdedicated, hnow, heq⟩)
    · refine h hpid hdedicated ?_ ncce hmem (Or.inr hfree) heq
      rw [hsr]
      exact hnow
  · intro hpid hsr ncce hmem
    rw [htti, Bool.eq_false_iff]
    intro hcollides
    obtain ⟨hdedicated, hnow, heq⟩ := (SchedUe.pucchSrCollision_iff hlib).mp hcollides
    exact h hpid hdedicated (by simp [hnow, hsr]) ncce hmem (Or.inl hnow) heq

theorem dataRound_tti (lib : Lib) (s : Sched) (k : Nat) : ((s.dataStart lib).2.visit (dataUser lib)
    ((s.dataStart lib).2.before k) (s.dataStart lib).1).1.1.currentTti = s.currentTti := by
  refine visit_ind (f := dataUser lib) (fun st _ => st.1.currentTti = s.currentTti) ?_ _ _ _ ?_
  · intro st db l v h _
    obtain ⟨⟨t, n, hs, -⟩, -⟩ := dataUser_spec lib st.1 st.2 l v
    rw [hs]
    exact h
  · unfold dataStart prachStart
    split_ifs <;> rfl

/-- The metric leaves the users their configuration. -/
theorem dataStart_cfg (s : Sched) {k : Nat} {u : SchedUe} (hu : (s.dataStart lib).2[k]? = some u) :
    ∃ u0, s.ueDb[k]? = some u0 ∧ u.cfg = u0.cfg := by
  have hdb : (s.prachStart lib).ueDb = s.ueDb := by
    unfold prachStart
    split_ifs <;> rfl
  refine visit_forall (f := DlMetric.visitUser lib)
    (Q := fun k u => ∃ u0, s.ueDb[k]? = some u0 ∧ u.cfg = u0.cfg) ?_ _ _ ?_ k u hu
  · rintro m l v ⟨u0, hu0, hcfg⟩
    refine ⟨u0, hu0, ?_⟩
    rw [← hcfg]
    unfold DlMetric.visitUser
    split
    · rename_i pid m' u' happly
      obtain ⟨mask, hout⟩ := DlMetric.applyUserAllocation_spec happly
      rw [hout.user]
      rfl
    · rfl
  · intro l v hv
    rw [hdb] at hv
    exact ⟨v, hv, rfl⟩

theorem dataReady_tti (s : Sched) (tti : Nat) (paging : Option Nat) :
    (s.dataReady lib tti paging).currentTti = tti := by
  obtain ⟨new, hbc, -⟩ := dlSchedBc_emits lib (s.dlStart tti) paging
  obtain ⟨new', hrar, -⟩ := dlSchedRar_emits lib ((s.dlStart tti).dlSchedBc lib paging).1
  have htti := (hbc.trans hrar).setup.currentTti
  unfold dataReady rarStart
  rw [htti]
  rfl

/-- Each grant comes from the round of a user. -/
theorem dlSchedData_emitted (s : Sched) {d : DlSchedData} (hd : d ∈ (s.dlSchedData lib).2) :
    ∃ (k : Nat) (u : SchedUe), (s.dataStart lib).2[k]? = some u ∧
      RoundGrants lib ((s.dataStart lib).2.visit (dataUser lib) ((s.dataStart lib).2.before k)
        (s.dataStart lib).1).1 k u d := by
  have hround : ∀ (st : Sched × Elems DlSchedData) k u,
      (dataUser lib st k u).1.2.done = st.2.done ∨
        ∃ d, (dataUser lib st k u).1.2.done = st.2.done ++ [d] := by
    intro st k u
    obtain ⟨-, -, hadds⟩ := dataUser_spec lib st.1 st.2 k u
    exact hadds.imp_right fun ⟨d, _, hd, _⟩ => ⟨d, hd⟩
  exact exists_round (f := dataUser lib) (s := (s.dataStart lib).1) (m := (s.dataStart lib).2)
    (fun st => st.2.done) rfl hround hd

/-! ## Runs -/

/-- A call of `dl_sched`, or whatever else changes the scheduler. -/
inductive SrEvent
  | dlSched (tti : Nat) (paging : Option Nat)
  | other (f : Sched → Sched)

def srStep (lib : Lib) (s : Sched) : SrEvent → Sched
  | .dlSched tti paging => (s.dlSched lib tti paging).1
  | .other f => f s

/-- Each data grant of a call is from a round of the loop over the users, and each round is right
about the SR of its user. -/
def SrApart (lib : Lib) (s : Sched) : SrEvent → Prop
  | .dlSched tti paging => s.configured = true →
    let start := (s.dataReady lib tti paging).dataStart lib
    (∀ d ∈ (s.dlSched lib tti paging).2.data, ∃ (k : Nat) (u : SchedUe), start.2[k]? = some u ∧
      RoundGrants lib (start.2.visit (dataUser lib) (start.2.before k) start.1).1 k u d) ∧
    EachRound (dataUser lib) start.1 start.2 (SrRight lib tti)
  | .other _ => True

def SrAgrees (lib : Lib) (s : Sched) : SrEvent → Prop
  | .dlSched tti paging => s.configured = true →
    let start := (s.dataReady lib tti paging).dataStart lib
    EachRound (dataUser lib) start.1 start.2 fun st _ u => SrSettled lib tti st u
  | .other _ => True

theorem eachRound_right (hlib : SchedUe.PucchRules lib) {tti : Nat} {s : Sched}
    (htti : s.currentTti = tti) (h : EachRound (dataUser lib) (s.dataStart lib).1
      (s.dataStart lib).2 fun st _ u => SrSettled lib tti st u) :
    EachRound (dataUser lib) (s.dataStart lib).1 (s.dataStart lib).2 (SrRight lib tti) := by
  intro k u hu
  have hround := (dataRound_tti lib s k).trans htti
  exact srRight_of_settled hlib hround (h k u hu)

theorem srApart_of_agrees (hlib : SchedUe.PucchRules lib) (s : Sched) (e : SrEvent)
    (h : SrAgrees lib s e) : SrApart lib s e := by
  cases e with
  | other f => trivial
  | dlSched tti paging =>
    intro hconf
    have hdata : (s.dlSched lib tti paging).2.data =
        ((s.dataReady lib tti paging).dlSchedData lib).2 := by
      rw [dlSched_eq lib hconf]
    refine ⟨fun d hd => ?_, eachRound_right hlib (dataReady_tti s tti paging) (h hconf)⟩
    rw [hdata] at hd
    exact dlSchedData_emitted _ hd

/-- **The SR collision test looks at the subframe of the ACK** in a run whose calls serve no user
that has an SR in just one of the two subframes and a candidate that meets it. -/
theorem sr_apart_of_agrees (lib : Lib) (hlib : SchedUe.PucchRules lib) (s : Sched)
    (es : List SrEvent) (h : AllSteps (srStep lib) (SrAgrees lib) s es) :
    AllSteps (srStep lib) (SrApart lib) s es :=
  allSteps_of_allSteps (I := fun _ => True) (fun _ _ _ _ => trivial)
    (fun s e _ he => srApart_of_agrees hlib s e he) trivial h

/-! ## An SR four subframes later -/

/-- SR once a frame, in the subframe that the index names; the PRBs have 36 resources each. -/
def srLib : Lib :=
  { exampleLib with
    srSendTti := fun i tti => tti % 10 == i
    pucchGetNpucch := fun nCce sr cfg => if sr then cfg.nPucchSr else nCce + cfg.nPucch1
    pucchNPrb := fun _ _ nPucch _ _ => nPucch / 36 }

theorem srLib_rules : SchedUe.PucchRules srLib := ⟨fun _ _ => rfl, fun _ _ _ _ => rfl⟩

/-- A user with an SR in subframe `srI` waits to send a block again. -/
def srWaiting (srI : Nat) : Sched :=
  { exampleSched with
    ueDb := (∅ : StdMap SchedUe).insert 70
      { DlHarqProc.userOf
          { rbgmask := 1, maxRetx := 4, tti := 12
            tb := Function.update (fun _ => {}) 0
              { active := true, ackReceived := true, lastMcs := 0, lastTbs := 100 } } with
        phyConfigDedicatedEnabled := true, cfg := { srEnabled := true, srI := srI }
        dciLocations := fun _ _ => ⟨fun L n => n * 2 ^ L, fun _ => 4⟩ } }

theorem sr_apart_sameSubframes :
    AllSteps (srStep srLib) (SrApart srLib) (srWaiting 9) [.dlSched 20 none] := by
  refine sr_apart_of_agrees srLib srLib_rules (srWaiting 9) [.dlSched 20 none] ⟨?_, trivial⟩
  intro _ start k u hu _ _ hsr
  -- Neither TTI 20 nor TTI 24 is in subframe 9.
  obtain ⟨u0, hu0, hcfg⟩ := dataStart_cfg _ hu
  rw [dataReady_ueDb] at hu0
  simp only [srWaiting, getElem?_insert] at hu0
  split_ifs at hu0
  · obtain rfl := Option.some.inj hu0
    exact absurd (by simp [SchedUe.hasSr, hcfg, srLib, ttiTx, harqDelayMs]) hsr
  · simp at hu0

/-- The SR of subframe 4 meets the ACK of the grant of TTI 20. -/
theorem not_sr_apart_nextSubframes : ¬ ∀ (lib : Lib) (s : Sched) (es : List SrEvent),
    SchedUe.PucchRules lib → AllSteps (srStep lib) (SrApart lib) s es := by
  intro h
  have hcall := (h srLib (srWaiting 4) [.dlSched 20 none] srLib_rules).1 (by decide)
  obtain ⟨d, hd⟩ : ∃ d, ((srWaiting 4).dlSched srLib 20 none).2.data.head? = some d :=
    Option.isSome_iff_exists.mp (by decide)
  have hncce : ((srWaiting 4).dlSched srLib 20 none).2.data.head?.map
      (fun d => d.dciLocation.ncce) = some 0 := by decide
  rw [hd] at hncce
  obtain ⟨k, u, hu, hgrants⟩ := hcall.1 d (List.mem_of_mem_head? hd)
  have hright := (hcall.2 k u hu).grant d hgrants
  have huser : ∀ k' ∈ (((srWaiting 4).dataReady srLib 20 none).dataStart srLib).2.keys,
      (((srWaiting 4).dataReady srLib 20 none).dataStart srLib).2[k']?.map
        (fun u => (u.phyConfigDedicatedEnabled, u.hasSr srLib (ttiTx 20), u.ackPrb srLib 0,
          u.srPrb srLib)) = some (true, true, 0, 0) := by decide
  have hfacts := huser k (mem_keys.mpr (by rw [hu]; rfl))
  rw [hu] at hfacts
  simp only [Option.map_some, Option.some.injEq, Prod.mk.injEq] at hfacts hncce
  obtain ⟨hdedicated, hsr, hack, hprb⟩ := hfacts
  refine hright hdedicated hsr ?_
  rw [hncce, hack, hprb]

end Sched

end Srsenb.Mac
