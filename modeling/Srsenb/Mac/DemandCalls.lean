import Srsenb.Mac.Demand
import Srsenb.Mac.Phich

/-! # What the calls of MAC leave to ask for

Apart from a report of RLC, no call gives the scheduler more to ask for. -/

namespace Srsenb.Mac

/-! ## Uplink -/

namespace SchedUe

/-- The user keeps its RNTI and its bearers. -/
structure SameBearers (u u' : SchedUe) : Prop where
  rnti : u'.rnti = u.rnti
  lch : u'.lch = u.lch

/-- The user keeps its RNTI and its scheduling request. -/
structure KeepsSr (u u' : SchedUe) : Prop where
  rnti : u'.rnti = u.rnti
  sr : u'.sr = u.sr

/-- The user keeps all that it asks for. -/
structure SameAsks (u u' : SchedUe) : Prop extends SameBearers u u', KeepsSr u u'

variable {lib : Lib} {u u' u'' : SchedUe} {pid : Pid} {tti : Nat}

theorem SameBearers.trans (h : SameBearers u u') (h' : SameBearers u' u'') : SameBearers u u'' :=
  ⟨h'.rnti.trans h.rnti, h'.lch.trans h.lch⟩

namespace SameAsks

theorem refl (u : SchedUe) : SameAsks u u := ⟨⟨rfl, rfl⟩, rfl⟩

theorem trans (h : SameAsks u u') (h' : SameAsks u' u'') : SameAsks u u'' :=
  ⟨h.toSameBearers.trans h'.toSameBearers, h'.sr.trans h.sr⟩

theorem setUl (u : SchedUe) (pid : Pid) (h : UlHarqProc) : SameAsks u (u.setUl pid h) :=
  ⟨⟨rfl, rfl⟩, rfl⟩

theorem needsCqi (lib : Lib) (u : SchedUe) (tti : Nat) (b : Bool) :
    SameAsks u (u.needsCqi lib tti b).2 := by
  simp only [SchedUe.needsCqi]
  split_ifs <;> exact ⟨⟨rfl, rfl⟩, rfl⟩

theorem generateFormat0 (lib : Lib) (u : SchedUe) (pid : Pid) (data : UlSchedData) (tti : Nat)
    (cqi : Bool) : SameAsks u (u.generateFormat0 lib pid data tti cqi).1 := by
  simp only [SchedUe.generateFormat0]
  split_ifs <;> exact ⟨⟨rfl, rfl⟩, rfl⟩

end SameAsks

theorem generateFormat0_data (lib : Lib) (u : SchedUe) (pid : Pid) (data : UlSchedData) (tti : Nat)
    (cqi : Bool) :
    (u.generateFormat0 lib pid data tti cqi).2.1.rnti = u.rnti ∧
      (u.generateFormat0 lib pid data tti cqi).2.1.tbs =
        (u.generateFormat0 lib pid data tti cqi).2.2 := by
  simp only [SchedUe.generateFormat0]
  split_ifs <;> exact ⟨rfl, rfl⟩

end SchedUe

open SchedUe (SameBearers SameAsks)

theorem UlMetric.visitRetx_asks (lib : Lib) (m : UlMetric) (k : Nat) (u : SchedUe) :
    SameAsks u (m.visitRetx lib k u).2 := by
  simp only [visitRetx, allocateUserRetxPrbs]
  split_ifs <;> exact ⟨⟨rfl, rfl⟩, rfl⟩

theorem UlMetric.visitNewtx_asks (lib : Lib) (m : UlMetric) (k : Nat) (u : SchedUe) :
    SameAsks u (m.visitNewtx lib k u).2 := by
  simp only [visitNewtx, allocateUserNewtxPrbs]
  split_ifs <;> exact ⟨⟨rfl, rfl⟩, rfl⟩

namespace Sched

variable {lib : Lib} {s : Sched} {db db' db'' : StdMap SchedUe} {u u' v : SchedUe}
  {out out' : Elems UlSchedData}

/-- Each user keeps all that it asks for. -/
structure SameAsksAll (db db' : StdMap SchedUe) : Prop where
  back : ∀ (k : Nat) (u' : SchedUe), db'[k]? = some u' → ∃ u, db[k]? = some u ∧ SameAsks u u'
  forth : ∀ (k : Nat) (u : SchedUe), db[k]? = some u → ∃ u', db'[k]? = some u' ∧ SameAsks u u'

namespace SameAsksAll

theorem refl (db : StdMap SchedUe) : SameAsksAll db db :=
  ⟨fun _ u hu => ⟨u, hu, .refl u⟩, fun _ u hu => ⟨u, hu, .refl u⟩⟩

theorem trans (h : SameAsksAll db db') (h' : SameAsksAll db' db'') : SameAsksAll db db'' := by
  constructor
  · intro k u'' hu''
    obtain ⟨u', hu', hasks'⟩ := h'.back k u'' hu''
    obtain ⟨u, hu, hasks⟩ := h.back k u' hu'
    exact ⟨u, hu, hasks.trans hasks'⟩
  · intro k u hu
    obtain ⟨u', hu', hasks⟩ := h.forth k u hu
    obtain ⟨u'', hu'', hasks'⟩ := h'.forth k u' hu'
    exact ⟨u'', hu'', hasks.trans hasks'⟩

theorem insert {k : Nat} (hu : db[k]? = some u) (h : SameAsks u u') :
    SameAsksAll db (db.insert k u') := by
  constructor
  · intro j v hv
    rw [StdMap.getElem?_insert] at hv
    split_ifs at hv with heq
    · subst heq
      exact ⟨u, hu, Option.some.inj hv ▸ h⟩
    · exact ⟨v, hv, .refl v⟩
  · intro j v hv
    rw [StdMap.getElem?_insert]
    split_ifs with heq
    · subst heq
      obtain rfl : u = v := Option.some.inj (hu.symm.trans hv)
      exact ⟨u', rfl, h⟩
    · exact ⟨v, hv, .refl v⟩

/-- A loop in which each user keeps all that it asks for. -/
theorem visit {σ : Type} {f : σ → Nat → SchedUe → σ × SchedUe}
    (hf : ∀ st k u, SameAsks u (f st k u).2) (ks : List Nat) (st : σ) (db : StdMap SchedUe) :
    SameAsksAll db (db.visit f ks st).2 :=
  StdMap.visit_ind (f := f) (fun _ db' => SameAsksAll db db')
    (fun st _ k u h hu => h.trans (.insert hu (hf st k u))) ks st db (.refl db)

theorem sameDemand (h : SameAsksAll db db') : SameDemand db db' := by
  refine fun hdb => ⟨⟨fun k u' hu' => ?_, fun k u' hu' => ?_⟩, fun k => ?_⟩
  · obtain ⟨u, hu, hasks⟩ := h.back k u' hu'
    rw [hasks.rnti, hdb.keyed k u hu]
  · obtain ⟨u, hu, hasks⟩ := h.back k u' hu'
    rw [hasks.lch]
    exact hdb.nonNeg k u hu
  · obtain ⟨k, lcid⟩ := k
    cases hu : db[k]? with
    | none =>
      have hnone : db'[k]? = none := by
        refine Option.eq_none_iff_forall_ne_some.mpr fun u' hu' => ?_
        obtain ⟨u, hu1, -⟩ := h.back k u' hu'
        rw [hu] at hu1
        cases hu1
      rw [demandOf_none hu, demandOf_none hnone]
    | some u =>
      obtain ⟨u', hu', hasks⟩ := h.forth k u hu
      rw [demandOf_some hu, demandOf_some hu', hasks.lch]

end SameAsksAll

/-! ### Before the PUSCHs -/

theorem pucchUser_asks (lib : Lib) (tti : Nat) (m : UlMetric) (k : Nat) (u : SchedUe) :
    SameAsks u (pucchUser lib tti m k u).2 := by
  unfold pucchUser
  split <;> exact ⟨⟨rfl, rfl⟩, rfl⟩

theorem reservePucch_asks (lib : Lib) (s : Sched) :
    SameAsksAll s.ueDb (s.reservePucch lib).ueDb := by
  simp only [reservePucch]
  split_ifs
  · exact .refl _
  · exact .visit (pucchUser_asks lib _) _ _ _

theorem ulAllocate_asks (lib : Lib) (s : Sched) (tti : Nat) :
    SameAsksAll s.ueDb (s.ulAllocate lib tti).ueDb := by
  have hreserve : ((s.reservePrach lib tti).reserveMsg3 tti).ueDb = s.ueDb := by
    unfold reserveMsg3 reservePrach
    simp only
    split_ifs <;> rfl
  have hpucch := reservePucch_asks lib ((s.reservePrach lib tti).reserveMsg3 tti)
  rw [hreserve] at hpucch
  exact hpucch.trans ((SameAsksAll.visit (UlMetric.visitRetx_asks lib) _ _ _).trans
    (.visit (UlMetric.visitNewtx_asks lib) _ _ _))

theorem ulReady_asks (lib : Lib) (s : Sched) (tti : Nat) :
    SameAsksAll s.ueDb (s.ulReady lib tti).ueDb := by
  have hphich : SameAsksAll s.ueDb (s.ulFed tti).ueDb :=
    .visit (f := phichUser tti) (fun st k u => ⟨⟨rfl, rfl⟩, rfl⟩) s.ueDb.keys [] s.ueDb
  exact hphich.trans (ulAllocate_asks lib (s.ulFed tti) tti)

/-! ### The PUSCHs -/

/-- What a round of the PUSCH loop leaves: the request of the user is there, or its grant is. -/
structure PuschRound (out out' : Elems UlSchedData) (u u' : SchedUe) : Prop
    extends SameBearers u u' where
  done : ∀ d ∈ out.done, d ∈ out'.done
  sr : u.sr = true → u'.sr = true ∨ ∃ d ∈ out'.done, d.rnti = u.rnti ∧ 0 < d.tbs

namespace PuschRound

/-- A round without a grant. -/
theorem same (h : SameAsks u u') (hdone : out'.done = out.done) : PuschRound out out' u u' :=
  ⟨h.toSameBearers, fun _ hd => hdone ▸ hd, fun hsr => .inl (h.sr.trans hsr)⟩

theorem after (h : SameAsks u v) (h' : PuschRound out out' v u') : PuschRound out out' u u' := by
  refine ⟨h.toSameBearers.trans h'.toSameBearers, h'.done, fun hsr => ?_⟩
  rw [← h.rnti]
  exact h'.sr (h.sr.trans hsr)

end PuschRound

theorem puschGrant_served (lib : Lib) (u : SchedUe) (pid : Pid) (isNewtx : Bool) (tti : Nat)
    (out : Elems UlSchedData) (slot : UlSchedData) :
    PuschRound out (puschGrant lib u pid isNewtx tti out slot).1 u
      (puschGrant lib u pid isNewtx tti out slot).2 := by
  have hcqi := SameAsks.needsCqi lib u tti true
  obtain ⟨⟨cqi, v⟩, hv⟩ : ∃ r, u.needsCqi lib tti true = r := ⟨_, rfl⟩
  rw [hv] at hcqi
  have h0 := SameAsks.generateFormat0 lib v pid slot tti cqi
  obtain ⟨hrnti, htbs⟩ := SchedUe.generateFormat0_data lib v pid slot tti cqi
  have hall := hcqi.trans h0
  simp only [puschGrant, hv]
  by_cases hsent : (v.generateFormat0 lib pid slot tti cqi).2.2 > 0
  · rw [if_pos hsent]
    have hkept : ∀ d ∈ out.done, d ∈ (out.push (v.generateFormat0 lib pid slot tti cqi).2.1).done :=
      fun d hd => List.mem_append_left _ hd
    cases isNewtx with
    | false => exact ⟨hall.toSameBearers, hkept, fun hsr => .inl (hall.sr.trans hsr)⟩
    | true =>
      exact ⟨⟨hall.rnti, hall.lch⟩, hkept, fun _ => .inr ⟨_, List.mem_append_right _ (by simp),
        hrnti.trans hcqi.rnti, htbs ▸ hsent⟩⟩
  · rw [if_neg hsent]
    exact .same hall rfl

theorem puschProc_asks (s : Sched) (tti rnti : Nat) (u : SchedUe) :
    SameAsks u (s.puschProc tti rnti u).2.1 := by
  simp only [puschProc]
  split_ifs <;> exact ⟨⟨rfl, rfl⟩, rfl⟩

theorem puschTx_served (lib : Lib) (s : Sched) (tti : Nat) (out : Elems UlSchedData) (u : SchedUe)
    (isRar : Bool) (pid : Pid) : PuschRound out (s.puschTx lib tti out u isRar pid).1.2 u
      (s.puschTx lib tti out u isRar pid).2 := by
  obtain ⟨u', hu'⟩ : ∃ u', (if (u.ulHarq pid).isEmpty 0 then u.setUl pid ((u.ulHarq pid).setMaxRetx
      (if isRar then s.cfg.maxharqMsg3tx else u.cfg.maxharqTx)) else u) = u' := ⟨_, rfl⟩
  have hfirst : SameAsks u u' := by
    subst hu'
    split_ifs <;> exact ⟨⟨rfl, rfl⟩, rfl⟩
  simp only [puschTx, hu']
  split_ifs
  · split
    · exact .same (hfirst.trans (.setUl _ _ _)) rfl
    · exact .after hfirst (puschGrant_served ..)
  · exact .after hfirst (puschGrant_served ..)

theorem puschUser_served (lib : Lib) (tti : Nat) (st : Sched × Elems UlSchedData) (rnti : Nat)
    (u : SchedUe) : PuschRound st.2 (puschUser lib tti st rnti u).1.2 u
      (puschUser lib tti st rnti u).2 := by
  have hproc := puschProc_asks st.1 tti rnti u
  simp only [puschUser]
  split
  · exact .same hproc rfl
  · exact .after hproc (puschTx_served ..)

theorem ulSched_demand (lib : Lib) (s : Sched) (tti : Nat) :
    SameDemand s.ueDb (s.ulSched lib tti).1.ueDb := by
  by_cases hs : s.ulRuns = true
  · obtain ⟨⟨⟨s2, out⟩, db⟩, hrounds⟩ : ∃ r, (s.ulReady lib tti).puschRounds lib tti
        (s.ulReady lib tti).ueDb.keys = r := ⟨_, rfl⟩
    have hpusch : SameDemand (s.ulReady lib tti).ueDb
        ((s.ulReady lib tti).puschRounds lib tti (s.ulReady lib tti).ueDb.keys).2 :=
      .visit (fun st k u => ⟨(puschUser_served lib tti st k u).rnti,
        (puschUser_served lib tti st k u).lch⟩) _ _ _
    rw [hrounds] at hpusch
    rw [ulSched_eq lib s tti hs hrounds]
    exact (ulReady_asks lib s tti).sameDemand.trans
      (hpusch.trans (.visit (fun st k u => ⟨rfl, rfl⟩) _ _ _))
  · rw [ulSched_stays lib s tti hs]
    exact .refl _

/-! ## Calls of the scheduler -/

theorem indicate_demand (s : Sched) (rnti : Nat) {f : SchedUe → SchedUe}
    (hf : ∀ u, SameBearers u (f u)) : SameDemand s.ueDb (s.indicate rnti f).1.ueDb := by
  unfold indicate
  cases hu : s.ueDb[rnti]? with
  | none => exact .refl _
  | some u => exact .insert hu (hf u).rnti (hf u).lch

theorem dlAckInfo_demand (s : Sched) (tti rnti : Nat) (tb : Fin 2) (ack : Bool) :
    SameDemand s.ueDb (s.dlAckInfo tti rnti tb ack).1.ueDb := by
  have hack : ∀ u : SchedUe, SameBearers u (u.setAckInfo tti tb ack).2 := by
    intro u
    unfold SchedUe.setAckInfo
    split <;> exact ⟨rfl, rfl⟩
  unfold dlAckInfo
  cases hu : s.ueDb[rnti]? with
  | none => exact .refl _
  | some u => exact .insert hu (hack u).rnti (hack u).lch

/-- A user that is configured has no bytes. -/
theorem ueCfg_asks (s : Sched) (args : SchedArgs) (locations : Nat → Nat → Nat → DciCce)
    (rnti : Nat) (cfg : UeCfg) (bearers : List Direction) :
    AsksNoMore s.ueDb (s.ueCfg lib args locations rnti cfg bearers).ueDb := by
  refine .fresh rfl fun b hb => ?_
  obtain ⟨d, -, rfl⟩ := List.mem_map.mp hb
  exact ⟨rfl, rfl⟩

theorem ueRem_asks (s : Sched) (rnti : Nat) : AsksNoMore s.ueDb (s.ueRem rnti).1.ueDb := by
  unfold ueRem
  split_ifs
  · exact .erase _ _
  · exact .refl _

/-- What a call on one bearer leaves of the others and of this one. -/
structure Modifies (g : UeBearer → UeBearer) (rnti lcid : Nat) (db db' : StdMap SchedUe) :
    Prop where
  wellKept : WellKept db'
  other : ∀ k ≠ (rnti, lcid), demandOf db' k = demandOf db k
  this : demandOf db' (rnti, lcid) = 0 ∨
    ∃ b : UeBearer, b.demand = demandOf db (rnti, lcid) ∧
      demandOf db' (rnti, lcid) = (g b).demand

theorem indicate_modifies {g : UeBearer → UeBearer} {f : SchedUe → SchedUe}
    (rnti lcid : Nat) (hf : ∀ u, (f u).rnti = u.rnti ∧ (f u).lch = u.lch.modify lcid g)
    (hg : ∀ b, 0 ≤ b.bufTx ∧ 0 ≤ b.bufRetx → 0 ≤ (g b).bufTx ∧ 0 ≤ (g b).bufRetx)
    (h : WellKept s.ueDb) : Modifies g rnti lcid s.ueDb (s.indicate rnti f).1.ueDb := by
  unfold indicate
  cases hu : s.ueDb[rnti]? with
  | none => exact ⟨h, fun _ _ => rfl, Or.inl (demandOf_none hu lcid)⟩
  | some u =>
    have hget : ∀ l : Nat, (f u).lch[l]? = if lcid = l then u.lch[l]?.map g else u.lch[l]? := by
      intro l
      rw [(hf u).2, List.getElem?_modify]
      split_ifs <;> cases u.lch[l]? <;> rfl
    refine ⟨h.insert ((hf u).1.trans (h.keyed rnti u hu)) ?_, ?_, ?_⟩
    · intro b hb
      obtain ⟨l, hl⟩ := List.mem_iff_getElem?.mp hb
      rw [hget] at hl
      split_ifs at hl
      · obtain ⟨c, hc, rfl⟩ := Option.map_eq_some_iff.mp hl
        exact hg c (h.nonNeg rnti u hu c (List.mem_of_getElem? hc))
      · exact h.nonNeg rnti u hu b (List.mem_of_getElem? hl)
    · rintro ⟨k, l⟩ hk
      rw [demandOf_insert]
      split_ifs with heq
      · obtain rfl : rnti = k := heq
        have hne : lcid ≠ l := fun hl => hk (hl ▸ rfl)
        rw [demandOf_some hu, SchedUe.demand, hget, if_neg hne]
        rfl
      · rfl
    · rw [demandOf_insert, if_pos rfl, demandOf_some hu, SchedUe.demand, hget, if_pos rfl]
      cases hb : u.lch[lcid]? with
      | none => exact Or.inl rfl
      | some b => exact Or.inr ⟨b, by rw [SchedUe.demand, hb]; rfl, rfl⟩

theorem Modifies.asks {g : UeBearer → UeBearer} {rnti lcid : Nat} {db db' : StdMap SchedUe}
    (h : Modifies g rnti lcid db db') (hdb : WellKept db)
    (hg : ∀ b : UeBearer, 0 ≤ b.demand → (g b).demand ≤ b.demand) :
    WellKept db' ∧ ∀ k, demandOf db' k ≤ demandOf db k := by
  refine ⟨h.wellKept, fun k => ?_⟩
  by_cases hk : k = (rnti, lcid)
  · subst hk
    have hpos := hdb.demand (rnti, lcid)
    rcases h.this with hzero | ⟨b, hb, heq⟩
    · rwa [hzero]
    · rw [heq, ← hb]
      exact hg b (hb ▸ hpos)
  · exact (h.other k hk).le

theorem ulBsr_asks (s : Sched) (rnti lcid bsr : Nat) (setValue : Bool) :
    AsksNoMore s.ueDb (s.ulBsr rnti lcid bsr setValue).ueDb := by
  intro hdb
  have hmod := indicate_modifies
    (g := fun b => { b with bsr := if setValue then bsr else b.bsr + bsr })
    (f := fun u => u.ulBufferState (lcid % 2 ^ 8) bsr setValue) rnti (lcid % 2 ^ 8)
    (fun _ => ⟨rfl, rfl⟩) (fun _ hb => hb) hdb
  exact hmod.asks hdb fun _ _ => le_rfl

theorem bearerUeCfg_asks (s : Sched) (rnti lcid : Nat) (direction : Direction) :
    AsksNoMore s.ueDb (s.bearerUeCfg rnti lcid direction).ueDb := by
  intro hdb
  have hmod := indicate_modifies (g := fun b =>
      { b with direction := direction, bufTx := 0, bufRetx := 0 })
    (f := fun u => u.setBearerCfg lcid direction) rnti lcid
    (fun _ => ⟨rfl, rfl⟩) (fun _ _ => ⟨le_rfl, le_rfl⟩) hdb
  exact hmod.asks hdb fun _ hb => hb

end Sched

/-! ## Calls of MAC -/

namespace MacState

open Sched (AsksNoMore SameDemand)

variable {lib : Lib} {locations : Nat → Nat → Nat → DciCce} {m : MacState}

theorem onUe_asks {rnti : Nat} {f : MacState → MacOut}
    (h : AsksNoMore m.sched.ueDb (f m).st.sched.ueDb) :
    AsksNoMore m.sched.ueDb (m.onUe rnti f).st.sched.ueDb := by
  unfold onUe
  split_ifs
  · exact h
  · exact .refl _

/-- Whatever is called, the scheduler asks nobody for more than before. -/
theorem handle_asks (lib : Lib) (locations : Nat → Nat → Nat → DciCce) (m : MacState)
    (e : MacEvent) : AsksNoMore m.sched.ueDb (m.handle lib locations e).st.sched.ueDb := by
  have hind : ∀ (rnti : Nat) {f : SchedUe → SchedUe}, (∀ u, SameBearers u (f u)) →
      AsksNoMore m.sched.ueDb (m.sched.indicate rnti f).1.ueDb := fun rnti _ hf =>
    (Sched.indicate_demand m.sched rnti hf).asksNoMore
  cases e with
  | rachDetected tti preambleIdx timeAdv =>
    simp only [handle, rachDetected]
    split_ifs
    · exact .refl _
    all_goals
      rw [dlRachInfo_ueDb]
      exact Sched.ueCfg_asks _ _ _ _ _ _
  | ueRem rnti =>
    simp only [handle, ueRem]
    split_ifs
    · exact Sched.ueRem_asks _ _
    · exact .refl _
  | ueCfg rnti cfg bearers =>
    simp only [handle, ueCfg]
    split
    · exact .refl _
    · exact Sched.ueCfg_asks _ _ _ _ _ _
  | addMbmsUser => exact .refl _
  | rlFailure rnti =>
    refine onUe_asks ?_
    simp only
    split_ifs <;> exact .refl _
  | rlOk rnti => exact onUe_asks (.refl _)
  | ackInfo tti rnti tb ack => exact (Sched.dlAckInfo_demand m.sched tti rnti tb ack).asksNoMore
  | crcInfo tti rnti nofBytes crc => exact onUe_asks (hind rnti fun u => ⟨rfl, rfl⟩)
  | setDlAntInfo rnti txMode => exact onUe_asks (hind rnti fun u => ⟨rfl, rfl⟩)
  | riInfo rnti ri => exact onUe_asks (hind rnti fun u => ⟨rfl, rfl⟩)
  | pmiInfo rnti pmi => exact onUe_asks (hind rnti fun u => ⟨rfl, rfl⟩)
  | cqiInfo tti rnti cqi => exact onUe_asks (hind rnti fun u => ⟨rfl, rfl⟩)
  | snrInfo rnti cqi => exact onUe_asks (hind rnti fun u => ⟨rfl, rfl⟩)
  | srDetected rnti => exact onUe_asks (hind rnti fun u => ⟨rfl, rfl⟩)

theorem ulGrant_sched (tti : Nat) (pusch : List UlSchedData) (buffers : Nat → Option Nat)
    (out : UlSchedOut) (d : UlSchedData) :
    (ulGrant tti pusch buffers out d).st.sched = out.st.sched := by
  unfold ulGrant
  split_ifs
  · split <;> rfl
  · rfl

theorem getUlSched_sched (lib : Lib) (m : MacState) (tti : Nat) (buffers : Nat → Option Nat) :
    (m.getUlSched lib tti buffers).st.sched = (m.sched.ulSched lib tti).1 :=
  List.foldlRecOn (motive := fun out : UlSchedOut => out.st.sched = (m.sched.ulSched lib tti).1)
    _ _ rfl fun out h d _ => (ulGrant_sched tti _ buffers out d).trans h

theorem getUlSched_asks (lib : Lib) (m : MacState) (tti : Nat) (buffers : Nat → Option Nat) :
    AsksNoMore m.sched.ueDb (m.getUlSched lib tti buffers).st.sched.ueDb := by
  rw [getUlSched_sched]
  exact (Sched.ulSched_demand lib m.sched tti).asksNoMore

end MacState

end Srsenb.Mac
