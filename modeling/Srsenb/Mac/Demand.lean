import Mathlib.Algebra.Order.BigOperators.Group.List
import Srsenb.Mac.MacUsers
import Srsenb.Mac.PduBytes
import Srsenb.Mac.UlPdu

/-! # What the scheduler asks RLC for

The scheduler keeps for each channel the bytes that it may still ask for. The elements of a grant
are taken off, and apart from a report of RLC nothing adds to them. -/

namespace Srsenb.Mac

/-! ## Bearers -/

/-- The bytes that the scheduler has for a bearer. -/
def UeBearer.demand (b : UeBearer) : Int := b.bufRetx + b.bufTx

/-- The bytes of a channel. -/
def SchedUe.demand (lch : List UeBearer) (lcid : Nat) : Int := (lch[lcid]?).elim 0 UeBearer.demand

/-- What an element asks of a channel. -/
def DlSchedPdu.asks (lcid : Nat) : DlSchedPdu → Int
  | conRes => 0
  | sdu l n => if l = lcid then n else 0

def asked (lcid : Nat) (pdus : List DlSchedPdu) : Int := (pdus.map (DlSchedPdu.asks lcid)).sum

/-- What a grant asks of a channel, in both blocks. -/
def DlSchedData.asked (d : DlSchedData) (lcid : Nat) : Int :=
  Mac.asked lcid (d.pdu 0) + Mac.asked lcid (d.pdu 1)

/-- What grants ask of a channel of one user. -/
def askedOf (rnti lcid : Nat) (data : List DlSchedData) : Int :=
  ((data.filter fun d => d.rnti = rnti).map fun d => d.asked lcid).sum

theorem asked_append (lcid : Nat) (pdus pdus' : List DlSchedPdu) :
    asked lcid (pdus ++ pdus') = asked lcid pdus + asked lcid pdus' := by
  unfold asked
  rw [List.map_append, List.sum_append]

theorem askedOf_snoc (rnti lcid : Nat) (data : List DlSchedData) (d : DlSchedData) :
    askedOf rnti lcid (data ++ [d]) =
      askedOf rnti lcid data + if d.rnti = rnti then d.asked lcid else 0 := by
  unfold askedOf
  rw [List.filter_append, List.map_append, List.sum_append]
  by_cases h : d.rnti = rnti <;> simp [h]

/-- Elements without bytes ask for nothing. -/
theorem asked_of_empty {pdus : List DlSchedPdu} (h : ∀ p ∈ pdus, p.nbytes = 0) (lcid : Nat) :
    asked lcid pdus = 0 := by
  unfold asked
  refine List.sum_eq_zero fun x hx => ?_
  obtain ⟨p, hp, rfl⟩ := List.mem_map.mp hx
  cases p with
  | conRes => rfl
  | sdu l n =>
    have hn : n = 0 := h _ hp
    simp [DlSchedPdu.asks, hn]

theorem asked_nonneg {pdus : List DlSchedPdu} (h : ∀ p ∈ pdus, 0 < p.nbytes) (lcid : Nat) :
    0 ≤ asked lcid pdus := by
  unfold asked
  refine List.sum_nonneg fun x hx => ?_
  obtain ⟨p, hp, rfl⟩ := List.mem_map.mp hx
  cases p with
  | conRes => rfl
  | sdu l n =>
    have hn : 0 < n := h _ hp
    simp only [DlSchedPdu.asks]
    split_ifs <;> omega

namespace SchedUe

variable {lch lch' : List UeBearer} {pdus : List DlSchedPdu} {lcid : Nat}

theorem NonNeg.demand (h : NonNeg lch) (lcid : Nat) : 0 ≤ demand lch lcid := by
  unfold SchedUe.demand
  cases hb : lch[lcid]? with
  | none => rfl
  | some b =>
    obtain ⟨htx, hretx⟩ := h b (List.mem_of_getElem? hb)
    exact Int.add_nonneg hretx htx

theorem Draws.demand {x : Int} (h : Draws lch lcid x lch') (l : Nat) :
    demand lch' l + (if lcid = l then x else 0) = demand lch l := by
  obtain ⟨b, b', hb, hgives, rfl⟩ := h.gives
  have hlt : lcid < lch.length := (List.getElem?_eq_some_iff.mp hb).1
  unfold SchedUe.demand
  by_cases heq : lcid = l
  · subst heq
    rw [List.getElem?_set_self hlt, hb, if_pos rfl]
    cases hgives <;> simp only [Option.elim, UeBearer.demand] <;> omega
  · rw [List.getElem?_set_ne heq, if_neg heq, Int.add_zero]

theorem DrawsAll.demand (h : DrawsAll lch pdus lch') (l : Nat) :
    demand lch' l + asked l pdus = demand lch l := by
  induction h with
  | nil lch => simp [asked]
  | cons hdraws _ ih =>
    rw [← hdraws.demand l, ← ih]
    simp only [asked, List.map_cons, List.sum_cons, DlSchedPdu.asks]
    omega

/-- The elements are taken off the bearers. -/
structure Pays (lch : List UeBearer) (pdus : List DlSchedPdu) (lch' : List UeBearer) : Prop where
  nonNeg : NonNeg lch'
  demand : ∀ l, demand lch' l + asked l pdus = demand lch l
  pos : ∀ p ∈ pdus, 0 < p.nbytes

theorem Pays.refl (h : NonNeg lch) : Pays lch [] lch := ⟨h, by simp [asked], by simp⟩

theorem Pays.append {lch'' : List UeBearer} {pdus' : List DlSchedPdu} (h : Pays lch pdus lch')
    (h' : Pays lch' pdus' lch'') : Pays lch (pdus ++ pdus') lch'' := by
  refine ⟨h'.nonNeg, fun l => ?_, List.forall_mem_append.mpr ⟨h.pos, h'.pos⟩⟩
  rw [asked_append, ← h.demand l, ← h'.demand l]
  omega

end SchedUe

/-! ## Blocks -/

/-- srsLTE has no negative TBS but -1, for what its tables do not have. -/
structure Lib.SizesRight (lib : Lib) : Prop where
  tbs : ∀ idx nofPrb, -1 ≤ lib.tbsFromIdx idx nofPrb
  cqi : ∀ cqi nofPrb nofRe maxMcs maxQm, -1 ≤ (lib.cqiToTbs cqi nofPrb nofRe maxMcs maxQm).1

/-- The SDUs that an act adds. -/
def BlockAct.sdus : BlockAct → List DlSchedPdu
  | new _ _ sdus => sdus
  | _ => []

namespace SchedUe

open Sched (generateFormat)

variable {lib : Lib} {u : SchedUe} {pid : Pid} {tti cfi : Nat} {data : DlSchedData}
  {format : DciFormat} {tb : Fin 2}

theorem bytes_nonneg {tbs : Int} (h : -1 ≤ tbs) : 0 ≤ tbs.tdiv 8 := by
  by_cases hneg : tbs = -1
  · subst hneg
    decide
  · exact Int.tdiv_nonneg (by omega) (by decide)

theorem tbsOfMcs_nonneg (hlib : lib.SizesRight) (mcs : Int) (nofPrb : Nat) :
    0 ≤ tbsOfMcs lib mcs nofPrb := bytes_nonneg (hlib.tbs _ _)

theorem dlTbs_nonneg (hlib : lib.SizesRight) (u : SchedUe) (nofPrb nofRe reqBytes : Nat) :
    0 ≤ (u.dlTbs lib nofPrb nofRe reqBytes).1 := by
  have htbs : ∀ idx, 0 ≤ (lib.tbsFromIdx idx nofPrb).tdiv 8 := fun idx =>
    bytes_nonneg (hlib.tbs idx nofPrb)
  unfold dlTbs
  split_ifs
  · simp only [allocTbs, Bool.false_eq_true, if_false]
    split_ifs
    all_goals first | exact htbs _ | exact bytes_nonneg (hlib.cqi ..)
  · exact tbsOfMcs_nonneg hlib _ _

theorem format1Tbs_nonneg (hlib : lib.SizesRight) (u : SchedUe) (h : DlHarqProc) :
    0 ≤ (u.format1Tbs lib h tti cfi).1 := by
  unfold format1Tbs
  simp only
  by_cases hfirst : u.isFirstDlTx = true ∧ u.cell.nofPrb < 10
  · rw [if_pos hfirst]
    exact tbsOfMcs_nonneg hlib _ _
  · rw [if_neg hfirst]
    exact dlTbs_nonneg hlib u _ _ _

theorem newBlock_nonneg {t : Int × Int} (ht : 0 ≤ t.1) {mcs tbs : Int} {sdus : List DlSchedPdu}
    (h : u.newBlock t = .new mcs tbs sdus) : 0 ≤ tbs := (newBlock_left u h).1 ▸ ht

theorem format2aTbAct_nonneg (hlib : lib.SizesRight) {nofPrb nofRe : Nat} {tbEn noRetx : Bool}
    {mcs tbs : Int} {sdus : List DlSchedPdu}
    (h : u.format2aTbAct lib pid nofPrb nofRe tbEn noRetx tb = .new mcs tbs sdus) : 0 ≤ tbs := by
  unfold format2aTbAct at h
  split_ifs at h
  exact newBlock_nonneg (dlTbs_nonneg hlib u _ _ _) h

theorem acts_nonneg (hlib : lib.SizesRight) {mcs tbs : Int} {sdus : List DlSchedPdu}
    (h : u.acts lib pid tti cfi format data tb = .new mcs tbs sdus) : 0 ≤ tbs := by
  cases format with
  | format0 => cases h
  | format1 =>
    unfold acts format1Act at h
    simp only at h
    split_ifs at h
    exact newBlock_nonneg (format1Tbs_nonneg hlib u _) h
  | format2 | format2a =>
    unfold acts at h
    simp only at h
    split_ifs at h
    · exact format2aTbAct_nonneg hlib h
    · exact format2aTbAct_nonneg hlib h

theorem blockLch_one (hf : format ≠ .format1) (hf0 : format ≠ .format0) :
    u.blockLch lib pid tti cfi data 1 =
      BlockAct.left u.lch (u.acts lib pid tti cfi format data 0) := by
  have hfirst : u.blockLch lib pid tti cfi data 1 = (u.format2aFirst lib pid tti cfi data).1.lch :=
    rfl
  rw [hfirst]
  unfold format2aFirst
  rw [format2aTb_lch]
  cases format with
  | format0 => exact absurd rfl hf0
  | format1 => exact absurd rfl hf
  | format2 | format2a => rfl

/-- The bearers after both blocks. -/
theorem generateFormat_lch (hf0 : format ≠ .format0) :
    (generateFormat lib format u pid data tti cfi).1.lch =
      BlockAct.left (BlockAct.left u.lch (u.acts lib pid tti cfi format data 0))
        (u.acts lib pid tti cfi format data 1) := by
  cases format with
  | format0 => exact absurd rfl hf0
  | format1 =>
    unfold generateFormat acts format1Act
    simp only [if_true]
    cases hempty : (u.dlHarq pid).isEmpty 0 with
    | true =>
      rw [generateFormat1_lch lib u pid tti cfi data hempty rfl]
      rfl
    | false =>
      simp only [generateFormat1, hempty, Bool.false_eq_true, if_false]
      split_ifs <;> rfl
  | format2 =>
    rw [← blockLch_one (by simp : DciFormat.format2 ≠ .format1) (by simp)]
    exact format2aTb_lch lib _ pid tti _ _ _ _ _ 1
  | format2a =>
    rw [← blockLch_one (by simp : DciFormat.format2a ≠ .format1) (by simp)]
    exact format2aTb_lch lib _ pid tti _ _ _ _ _ 1

/-- A new block is filled from the bearers `lch`. -/
def Fills (lch : List UeBearer) (a : BlockAct) : Prop :=
  ∀ mcs tbs sdus, a = .new mcs tbs sdus →
    0 ≤ tbs ∧ sdus = (allocPdus (tbs.toNat + 1) tbs lch).1

/-- An act takes its SDUs off the bearers that it finds. -/
theorem Fills.pays {lch : List UeBearer} {a : BlockAct} (ha : Fills lch a) (h : NonNeg lch) :
    Pays lch a.sdus (BlockAct.left lch a) := by
  cases a with
  | idle => exact .refl h
  | retx => exact .refl h
  | new mcs tbs sdus =>
    obtain ⟨htbs, rfl⟩ := ha mcs tbs sdus rfl
    have hall := allocPdus_conserves (by omega : tbs < (tbs.toNat + 1 : Nat)) htbs h
    exact ⟨hall.nonNeg, hall.draws.demand, hall.pos⟩

/-- A block without room has no SDUs. -/
theorem Fills.sdus_eq_nil {lch : List UeBearer} {a : BlockAct} (ha : Fills lch a)
    (h : NonNeg lch) {b : Tb} (hroom : a.tbs b ≤ 0) : a.sdus = [] := by
  cases a with
  | idle => rfl
  | retx => rfl
  | new mcs tbs sdus =>
    obtain ⟨htbs, rfl⟩ := ha mcs tbs sdus rfl
    obtain rfl : tbs = 0 := le_antisymm hroom htbs
    have hall := allocPdus_conserves (by decide : (0 : Int) < (1 : Nat)) htbs h
    have hsum := hall.sum
    rw [min_eq_left h.total] at hsum
    have hpos := hall.pos
    rw [BlockAct.sdus]
    cases hsdus : (allocPdus 1 0 lch).1 with
    | nil => exact hsdus
    | cons p ps =>
      have hp : 0 < p.nbytes := hpos p (hsdus ▸ List.mem_cons_self ..)
      have hps : 0 ≤ (ps.map DlSchedPdu.nbytes).sum := List.sum_nonneg fun x hx => by
        obtain ⟨q, hq, rfl⟩ := List.mem_map.mp hx
        exact (hpos q (hsdus ▸ List.mem_cons_of_mem p hq)).le
      rw [hsdus, List.map_cons, List.sum_cons] at hsum
      omega

theorem acts_fills (hlib : lib.SizesRight) (u : SchedUe) (pid : Pid) (tti cfi : Nat)
    (data : DlSchedData) (hf0 : format ≠ .format0) :
    Fills u.lch (u.acts lib pid tti cfi format data 0) ∧
      Fills (BlockAct.left u.lch (u.acts lib pid tti cfi format data 0))
        (u.acts lib pid tti cfi format data 1) := by
  refine ⟨fun mcs tbs sdus hact => ⟨acts_nonneg hlib hact, ?_⟩,
    fun mcs tbs sdus hact => ⟨acts_nonneg hlib hact, ?_⟩⟩
  · exact (Prod.mk.inj (leftLch_new lib u pid tti cfi data hact)).1
  · by_cases hf : format = .format1
    · subst hf
      cases hact
    · rw [← blockLch_one hf hf0]
      exact (Prod.mk.inj (leftLch_new lib u pid tti cfi data hact)).1

/-- A generator takes the SDUs of both blocks off the bearers. -/
theorem generateFormat_pays (hlib : lib.SizesRight) (hf0 : format ≠ .format0)
    (h : NonNeg u.lch) :
    Pays u.lch ((u.acts lib pid tti cfi format data 0).sdus ++
        (u.acts lib pid tti cfi format data 1).sdus)
      (generateFormat lib format u pid data tti cfi).1.lch := by
  obtain ⟨h0, h1⟩ := acts_fills hlib u pid tti cfi data hf0
  rw [generateFormat_lch hf0]
  exact (h0.pays h).append (h1.pays (h0.pays h).nonNeg)

end SchedUe

/-! ## Grants -/

/-- No element carries bytes. -/
def NoBytes (pdus : List DlSchedPdu) : Prop := ∀ p ∈ pdus, p.nbytes = 0

theorem NoBytes.asked {pdus : List DlSchedPdu} (h : NoBytes pdus) (lcid : Nat) :
    asked lcid pdus = 0 := asked_of_empty h lcid

theorem NoBytes.withConRes {pdus : List DlSchedPdu} (h : NoBytes pdus) :
    NoBytes (withConRes pdus) := by
  cases pdus with
  | nil => simp [NoBytes, Mac.withConRes, DlSchedPdu.nbytes]
  | cons p pdus =>
    intro q hq
    simp only [Mac.withConRes, List.cons_append, List.mem_cons, List.mem_append,
      List.not_mem_nil, or_false] at hq
    rcases hq with rfl | hq | rfl
    · rfl
    · exact h q (List.mem_cons_of_mem p hq)
    · rfl

/-- Into a slot without bytes an act puts its SDUs. -/
theorem NoBytes.fill {pdus : List DlSchedPdu} (h : NoBytes pdus) (conRes : Bool) (a : BlockAct) :
    (∀ lcid, Mac.asked lcid (a.fill conRes pdus) = Mac.asked lcid a.sdus) ∧
      (a.sdus = [] → NoBytes (a.fill conRes pdus)) := by
  cases a with
  | idle | retx => exact ⟨fun lcid => h.asked lcid, fun _ => h⟩
  | new mcs tbs sdus =>
    rw [BlockAct.fill_new, BlockAct.sdus]
    have hslot : NoBytes (if conRes then Mac.withConRes pdus else pdus) := by
      split_ifs
      · exact h.withConRes
      · exact h
    refine ⟨fun lcid => ?_, ?_⟩
    · rw [asked_append, hslot.asked, Int.zero_add]
    · rintro rfl
      rw [List.append_nil]
      exact hslot

/-- No block of the grant carries bytes. -/
def DlSchedData.NoBytes (d : DlSchedData) : Prop := ∀ tb, Mac.NoBytes (d.pdu tb)

theorem noBytes_default : (default : DlSchedData).NoBytes := by
  intro tb p hp
  exact absurd hp List.not_mem_nil

namespace SchedUe

open Sched (generateFormat)

variable {lib : Lib} {u : SchedUe} {pid : Pid} {tti cfi : Nat} {data : DlSchedData}
  {format : DciFormat}

/-- What a generator leaves and what it asks for are what there was; where it grants nothing, it
asks for nothing. -/
structure Asks (u : SchedUe) (r : SchedUe × DlSchedData × Int) : Prop where
  rnti : r.1.rnti = u.rnti
  grantee : r.2.1.rnti = u.rnti
  nonNeg : NonNeg r.1.lch
  asked : ∀ l, demand r.1.lch l + r.2.1.asked l = demand u.lch l
  nonneg : ∀ l, 0 ≤ r.2.1.asked l
  quiet : ¬ 0 < r.2.2 → r.2.1.NoBytes

theorem generateFormat_asks (hlib : lib.SizesRight) (hf0 : format ≠ .format0)
    (h : NonNeg u.lch) (hd : data.NoBytes) :
    Asks u (generateFormat lib format u pid data tti cfi) := by
  have hgrant := generateFormat_grantOf lib u pid data tti cfi hf0
  have hpays : Pays u.lch _ (generateFormat lib format u pid data tti cfi).1.lch :=
    generateFormat_pays hlib hf0 h
  obtain ⟨h0, h1⟩ := acts_fills hlib u pid tti cfi data hf0
  have hasked : ∀ l, (generateFormat lib format u pid data tti cfi).2.1.asked l =
      Mac.asked l ((u.acts lib pid tti cfi format data 0).sdus ++
        (u.acts lib pid tti cfi format data 1).sdus) := by
    intro l
    rw [asked_append, DlSchedData.asked, hgrant.pdu, hgrant.pdu, ((hd 0).fill _ _).1,
      ((hd 1).fill _ _).1]
  refine ⟨(generateFormat_spec lib u pid data tti cfi hf0).1.1, hgrant.rnti, hpays.nonNeg,
    fun l => ?_, fun l => ?_, fun hunsent tb => ?_⟩
  · rw [hasked, hpays.demand l]
  · rw [hasked]
    exact asked_nonneg hpays.pos l
  · have hroom : (u.acts lib pid tti cfi format data tb).tbs ((u.dlHarq pid).tb tb) ≤ 0 := by
      refine not_lt.mp fun hpos => hunsent (hgrant.sent.mpr ⟨tb, (hgrant.tbEn tb).mpr hpos⟩)
    rw [hgrant.pdu]
    refine ((hd tb).fill _ _).2 ?_
    obtain rfl | rfl : tb = 0 ∨ tb = 1 := by omega
    · exact h0.sdus_eq_nil h hroom
    · exact h1.sdus_eq_nil (h0.pays h).nonNeg hroom

end SchedUe

/-! ## All users -/

namespace Sched

/-- The bytes that the scheduler has for a channel of a user. -/
def demandOf (db : StdMap SchedUe) (k : Nat × Nat) : Int :=
  (db[k.1]?).elim 0 fun u => SchedUe.demand u.lch k.2

/-- Each user is stored under its RNTI, and none of its buffers is below 0. -/
structure WellKept (db : StdMap SchedUe) : Prop where
  keyed : Keyed db
  nonNeg : ∀ (k : Nat) (u : SchedUe), db[k]? = some u → SchedUe.NonNeg u.lch

/-- For no channel of `db'` there is more than in `db`. -/
def AsksNoMore (db db' : StdMap SchedUe) : Prop :=
  WellKept db → WellKept db' ∧ ∀ k, demandOf db' k ≤ demandOf db k

variable {lib : Lib} {db db' db'' : StdMap SchedUe} {rnti : Nat} {u u' : SchedUe}

theorem demandOf_some (hu : db[rnti]? = some u) (lcid : Nat) :
    demandOf db (rnti, lcid) = SchedUe.demand u.lch lcid := by
  rw [demandOf, hu]
  rfl

theorem demandOf_none (hu : db[rnti]? = none) (lcid : Nat) : demandOf db (rnti, lcid) = 0 := by
  rw [demandOf, hu]
  rfl

theorem demandOf_insert (k : Nat × Nat) : demandOf (db.insert rnti u) k =
    if rnti = k.1 then SchedUe.demand u.lch k.2 else demandOf db k := by
  unfold demandOf
  rw [StdMap.getElem?_insert]
  split_ifs <;> rfl

theorem WellKept.demand (h : WellKept db) (k : Nat × Nat) : 0 ≤ demandOf db k := by
  obtain ⟨rnti, lcid⟩ := k
  cases hu : db[rnti]? with
  | none => rw [demandOf_none hu]
  | some u =>
    rw [demandOf_some hu]
    exact (h.nonNeg rnti u hu).demand lcid

theorem WellKept.insert (h : WellKept db) (hrnti : u.rnti = rnti) (hnonNeg : SchedUe.NonNeg u.lch) :
    WellKept (db.insert rnti u) := by
  refine ⟨h.keyed.insert hrnti, fun k v hv => ?_⟩
  rw [StdMap.getElem?_insert] at hv
  split_ifs at hv
  · exact Option.some.inj hv ▸ hnonNeg
  · exact h.nonNeg k v hv

namespace AsksNoMore

theorem refl (db : StdMap SchedUe) : AsksNoMore db db := fun h => ⟨h, fun _ => le_rfl⟩

theorem trans (h : AsksNoMore db db') (h' : AsksNoMore db' db'') : AsksNoMore db db'' := by
  intro hdb
  obtain ⟨hdb', hle⟩ := h hdb
  obtain ⟨hdb'', hle'⟩ := h' hdb'
  exact ⟨hdb'', fun k => (hle' k).trans (hle k)⟩

theorem insert (h : WellKept db → u.rnti = rnti ∧ SchedUe.NonNeg u.lch ∧
    ∀ l, SchedUe.demand u.lch l ≤ demandOf db (rnti, l)) : AsksNoMore db (db.insert rnti u) := by
  intro hdb
  obtain ⟨hrnti, hnonNeg, hle⟩ := h hdb
  refine ⟨hdb.insert hrnti hnonNeg, fun k => ?_⟩
  rw [demandOf_insert]
  split_ifs with heq
  · subst heq
    exact hle k.2
  · exact le_rfl

/-- A user without bytes. -/
theorem fresh (hrnti : u.rnti = rnti) (hlch : ∀ b ∈ u.lch, b.bufTx = 0 ∧ b.bufRetx = 0) :
    AsksNoMore db (db.insert rnti u) := by
  refine .insert fun hdb => ⟨hrnti, fun b hb => ?_, fun l => ?_⟩
  · rw [(hlch b hb).1, (hlch b hb).2]
    exact ⟨le_rfl, le_rfl⟩
  · refine le_of_eq_of_le ?_ (hdb.demand (rnti, l))
    unfold SchedUe.demand
    cases hb : u.lch[l]? with
    | none => rfl
    | some b =>
      have h := hlch b (List.mem_of_getElem? hb)
      simp only [Option.elim, UeBearer.demand, h.1, h.2, Int.add_zero]

theorem erase (db : StdMap SchedUe) (rnti : Nat) : AsksNoMore db (db.erase rnti) := by
  intro hdb
  have hget : ∀ (k : Nat) (u : SchedUe), (db.erase rnti)[k]? = some u → db[k]? = some u := by
    intro k u hu
    rw [StdMap.getElem?_erase] at hu
    split_ifs at hu
    exact hu
  refine ⟨⟨fun k u hu => hdb.keyed k u (hget k u hu), fun k u hu => hdb.nonNeg k u (hget k u hu)⟩,
    fun k => ?_⟩
  obtain ⟨k, lcid⟩ := k
  cases hu : (db.erase rnti)[k]? with
  | none =>
    rw [demandOf_none hu]
    exact hdb.demand _
  | some u => rw [demandOf_some hu, demandOf_some (hget k u hu)]

end AsksNoMore

/-- For each channel of `db'` there is what there is in `db`. -/
def SameDemand (db db' : StdMap SchedUe) : Prop :=
  WellKept db → WellKept db' ∧ ∀ k, demandOf db' k = demandOf db k

namespace SameDemand

theorem refl (db : StdMap SchedUe) : SameDemand db db := fun h => ⟨h, fun _ => rfl⟩

theorem trans (h : SameDemand db db') (h' : SameDemand db' db'') : SameDemand db db'' := by
  intro hdb
  obtain ⟨hdb', heq⟩ := h hdb
  obtain ⟨hdb'', heq'⟩ := h' hdb'
  exact ⟨hdb'', fun k => (heq' k).trans (heq k)⟩

theorem asksNoMore (h : SameDemand db db') : AsksNoMore db db' := fun hdb =>
  ⟨(h hdb).1, fun k => ((h hdb).2 k).le⟩

/-- A user keeps its RNTI and its bearers. -/
theorem insert (hu : db[rnti]? = some u) (hrnti : u'.rnti = u.rnti) (hlch : u'.lch = u.lch) :
    SameDemand db (db.insert rnti u') := by
  refine fun hdb => ⟨hdb.insert (hrnti.trans (hdb.keyed rnti u hu))
    (hlch ▸ hdb.nonNeg rnti u hu), fun k => ?_⟩
  rw [demandOf_insert]
  split_ifs with heq
  · subst heq
    rw [hlch, demandOf_some hu]
  · rfl

/-- A loop that keeps the RNTIs and the bearers. -/
theorem visit {σ : Type} {f : σ → Nat → SchedUe → σ × SchedUe}
    (hf : ∀ st k u, (f st k u).2.rnti = u.rnti ∧ (f st k u).2.lch = u.lch) (ks : List Nat) (st : σ)
    (db : StdMap SchedUe) : SameDemand db (db.visit f ks st).2 :=
  StdMap.visit_ind (f := f) (fun _ db' => SameDemand db db')
    (fun st _ k u h hu => h.trans (insert hu (hf st k u).1 (hf st k u).2)) ks st db (.refl db)

end SameDemand

/-! ## Downlink -/

/-- What a round of `dl_sched_data` leaves. -/
structure AsksRound (out : Elems DlSchedData) (u : SchedUe)
    (r : (Sched × Elems DlSchedData) × SchedUe) : Prop where
  slot : r.1.2.slot.NoBytes
  rnti : r.2.rnti = u.rnti
  nonNeg : SchedUe.NonNeg r.2.lch
  asked : ∀ k l, askedOf k l r.1.2.done + (if u.rnti = k then SchedUe.demand r.2.lch l else 0) =
    askedOf k l out.done + if u.rnti = k then SchedUe.demand u.lch l else 0
  le : ∀ k l, askedOf k l out.done ≤ askedOf k l r.1.2.done

theorem dataUser_asks (hlib : lib.SizesRight) (s : Sched) {out : Elems DlSchedData} (k : Nat)
    (h : SchedUe.NonNeg u.lch) (hslot : out.slot.NoBytes) :
    AsksRound out u (dataUser lib (s, out) k u) := by
  simp only [dataUser]
  split
  · exact ⟨hslot, rfl, h, fun _ _ => rfl, fun _ _ => le_rfl⟩
  · rename_i pid hpid
    split
    · exact ⟨hslot, rfl, h, fun _ _ => rfl, fun _ _ => le_rfl⟩
    · rename_i loc s1 hs1
      obtain ⟨⟨u', d, tbs⟩, hr⟩ : ∃ r, generateFormat lib u.getDciFormat u pid
        { out.slot with dciFormat := u.getDciFormat, dciLocation := loc } s1.currentTti
        s1.currentCfi = r := ⟨_, rfl⟩
      have hasks : SchedUe.Asks u (u', d, tbs) :=
        hr ▸ SchedUe.generateFormat_asks hlib (DlRound.getDciFormat_ne u) h hslot
      simp only [hr]
      by_cases hsent : tbs > 0
      · rw [if_pos hsent]
        refine ⟨noBytes_default, hasks.rnti, hasks.nonNeg, fun j l => ?_, fun j l => ?_⟩
        · have hasked : SchedUe.demand u'.lch l + d.asked l = SchedUe.demand u.lch l :=
            hasks.asked l
          rw [Elems.push, askedOf_snoc, hasks.grantee]
          simp only [SchedUe.resetTimeoutDlHarq]
          split_ifs <;> omega
        · have hnonneg : 0 ≤ d.asked l := hasks.nonneg l
          rw [Elems.push, askedOf_snoc]
          split_ifs <;> omega
      · rw [if_neg hsent]
        refine ⟨hasks.quiet hsent, hasks.rnti, hasks.nonNeg, fun j l => ?_, fun _ _ => le_rfl⟩
        have hasked : SchedUe.demand u'.lch l + d.asked l = SchedUe.demand u.lch l := hasks.asked l
        have hnone : d.asked l = 0 := by
          rw [DlSchedData.asked, (hasks.quiet hsent 0).asked, (hasks.quiet hsent 1).asked]
          rfl
        simp only [SchedUe.resetTimeoutDlHarq]
        split_ifs <;> omega

/-- What the grants ask for and what is left are what there was. -/
structure AsksAll (db db' : StdMap SchedUe) (data : List DlSchedData) : Prop where
  wellKept : WellKept db'
  asked : ∀ k : Nat × Nat, askedOf k.1 k.2 data + demandOf db' k = demandOf db k
  nonneg : ∀ k : Nat × Nat, 0 ≤ askedOf k.1 k.2 data

theorem datas_asks (hlib : lib.SizesRight) (h : WellKept db) (ks : List Nat) (s : Sched) :
    AsksAll db (db.visit (dataUser lib) ks (s, ⟨[], default⟩)).2
      (db.visit (dataUser lib) ks (s, ⟨[], default⟩)).1.2.done := by
  refine (StdMap.visit_ind (f := dataUser lib)
    (fun st db' => st.2.slot.NoBytes ∧ AsksAll db db' st.2.done) ?_ ks (s, ⟨[], default⟩) db
    ⟨noBytes_default, h, fun k => Int.zero_add _, fun _ => le_rfl⟩).2
  rintro ⟨s1, out⟩ db1 rnti u ⟨hslot, hkept, hasked, hnonneg⟩ hu
  have hround := dataUser_asks hlib s1 rnti (hkept.nonNeg rnti u hu) hslot
  have hrnti := hkept.keyed rnti u hu
  refine ⟨hround.slot, hkept.insert (hround.rnti.trans hrnti) hround.nonNeg, fun k => ?_,
    fun k => (hnonneg k).trans (hround.le k.1 k.2)⟩
  have hk := hround.asked k.1 k.2
  rw [← hasked k, demandOf_insert]
  rw [hrnti] at hk
  split_ifs at hk ⊢ with heq
  · subst heq
    rw [hk, demandOf_some hu]
  · rw [Int.add_zero, Int.add_zero] at hk
    rw [hk]

theorem visitUser_keeps (lib : Lib) (m : DlMetric) (k : Nat) (u : SchedUe) :
    (DlMetric.visitUser lib m k u).2.rnti = u.rnti ∧
      (DlMetric.visitUser lib m k u).2.lch = u.lch := by
  unfold DlMetric.visitUser
  split
  · rename_i pid m' u' happly
    obtain ⟨mask, hout⟩ := DlMetric.applyUserAllocation_spec happly
    rw [hout.user]
    exact ⟨rfl, rfl⟩
  · exact ⟨rfl, rfl⟩

/-- The metric visits the users, and then the loop over the grants does. -/
theorem dlSchedData_visits (lib : Lib) (s : Sched) :
    ∃ (s1 : Sched) (m : DlMetric) (ks : List Nat) (db : StdMap SchedUe),
      db = (s.ueDb.visit (DlMetric.visitUser lib) ks m).2 ∧
      (s.dlSchedData lib).1.ueDb = (db.visit (dataUser lib) db.keys (s1, ⟨[], default⟩)).2 ∧
      (s.dlSchedData lib).2 =
        (db.visit (dataUser lib) db.keys (s1, ⟨[], default⟩)).1.2.done := by
  have hdb : (s.prachStart lib).ueDb = s.ueDb := by
    unfold prachStart
    split_ifs <;> rfl
  obtain ⟨s1, hs1⟩ : ∃ s1, s.prachStart lib = s1 := ⟨_, rfl⟩
  rw [hs1] at hdb
  obtain ⟨⟨m, db⟩, hm⟩ : ∃ r, s1.dlMetric.newTti lib s1.ueDb s1.startRbg s1.availRbg
      (if s1.cfg.cell.nofPrb < 10 then s1.currentCfi + 1 else s1.currentCfi) s1.currentTti = r :=
    ⟨_, rfl⟩
  have hvisit := congrArg Prod.snd hm
  rw [DlMetric.newTti, hdb] at hvisit
  refine ⟨{ s1 with dlMetric := m }, _, _, db, hvisit.symm, ?_, ?_⟩
  · simp only [dlSchedData, hs1, hm]
  · simp only [dlSchedData, hs1, hm]

theorem dlSchedData_asks (hlib : lib.SizesRight) {s : Sched} (h : WellKept s.ueDb) :
    AsksAll s.ueDb (s.dlSchedData lib).1.ueDb (s.dlSchedData lib).2 := by
  obtain ⟨s1, m, ks, db, hdb, hueDb, hdata⟩ := dlSchedData_visits lib s
  have hmetric : SameDemand s.ueDb db := hdb ▸ .visit (visitUser_keeps lib) ks m s.ueDb
  obtain ⟨hkept, hsame⟩ := hmetric h
  have hdatas := datas_asks hlib hkept db.keys s1
  rw [hueDb, hdata]
  exact ⟨hdatas.wellKept, fun k => by rw [hdatas.asked k, hsame k], hdatas.nonneg⟩

/-- A call of `dl_sched` asks for what the scheduler has no more after it. -/
theorem dlSched_asks (hlib : lib.SizesRight) {s : Sched} (h : WellKept s.ueDb) (tti : Nat)
    (paging : Option Nat) :
    AsksAll s.ueDb (s.dlSched lib tti paging).1.ueDb (s.dlSched lib tti paging).2.data := by
  by_cases hs : s.configured = true
  · rw [dlSched_eq lib hs]
    obtain ⟨s', hs'⟩ : ∃ s', s.dataReady lib tti paging = s' := ⟨_, rfl⟩
    have hdb : s'.ueDb = s.ueDb := hs' ▸ dataReady_ueDb lib s tti paging
    rw [hs', ← hdb]
    rw [← hdb] at h
    exact dlSchedData_asks hlib h
  · rw [Bool.not_eq_true] at hs
    simp only [dlSched, hs, Bool.not_false, if_true]
    exact ⟨h, fun k => Int.zero_add _, fun _ => le_rfl⟩

theorem AsksAll.asksNoMore {data : List DlSchedData} (h : AsksAll db db' data) :
    AsksNoMore db db' := by
  refine fun _ => ⟨h.wellKept, fun k => ?_⟩
  have hasked := h.asked k
  have hnonneg := h.nonneg k
  omega

end Sched

end Srsenb.Mac
