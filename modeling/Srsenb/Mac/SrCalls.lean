import Srsenb.Mac.DemandCalls

/-! # Scheduling requests

What the calls of MAC leave of the requests that the scheduler keeps: only a configuration, a
removal and the grant of a new block take one away. -/

namespace Srsenb.Mac

/-! ## One user -/

namespace SchedUe

variable {lib : Lib} {u u' u'' : SchedUe} {pid : Pid} {tti cfi : Nat}

namespace KeepsSr

theorem refl (u : SchedUe) : KeepsSr u u := ⟨rfl, rfl⟩

theorem trans (h : KeepsSr u u') (h' : KeepsSr u' u'') : KeepsSr u u'' :=
  ⟨h'.rnti.trans h.rnti, h'.sr.trans h.sr⟩

theorem generateFormat1 (lib : Lib) (u : SchedUe) (pid : Pid) (data : DlSchedData) (tti cfi : Nat) :
    KeepsSr u (u.generateFormat1 lib pid data tti cfi).1 := by
  simp only [SchedUe.generateFormat1]
  split_ifs <;> exact ⟨rfl, rfl⟩

theorem format2aTb (lib : Lib) (pid : Pid) (nofPrb nofRe tti : Nat) (tbEn noRetx : Bool)
    (tb : Fin 2) (u : SchedUe) (data : DlSchedData) :
    KeepsSr u (SchedUe.format2aTb lib pid nofPrb nofRe tti tbEn noRetx tb u data).1 := by
  simp only [SchedUe.format2aTb]
  split_ifs <;> exact ⟨rfl, rfl⟩

theorem generateFormat2a (lib : Lib) (u : SchedUe) (pid : Pid) (data : DlSchedData)
    (tti cfi : Nat) : KeepsSr u (u.generateFormat2a lib pid data tti cfi).1 := by
  have hfirst : KeepsSr u (u.format2aFirst lib pid tti cfi data).1 :=
    format2aTb lib pid _ _ tti _ _ 0 u _
  unfold SchedUe.generateFormat2a
  simp only
  constructor
  · exact (hfirst.trans (format2aTb lib pid _ _ tti _ _ 1 _ _)).rnti
  · exact (hfirst.trans (format2aTb lib pid _ _ tti _ _ 1 _ _)).sr

theorem generateFormat (lib : Lib) (format : DciFormat) (u : SchedUe) (pid : Pid)
    (data : DlSchedData) (tti cfi : Nat) :
    KeepsSr u (Sched.generateFormat lib format u pid data tti cfi).1 := by
  cases format with
  | format0 => exact .refl u
  | format1 => exact generateFormat1 lib u pid data tti cfi
  | format2 | format2a => exact generateFormat2a lib u pid data tti cfi

end KeepsSr

end SchedUe

open SchedUe (KeepsSr SameAsks)

/-! ## All users -/

namespace Sched

variable {lib : Lib} {s : Sched} {db db' db'' : StdMap SchedUe} {X : Set Nat} {rnti : Nat}
  {u u' : SchedUe}

/-- The request of the user `k` waits. -/
def SrWaits (db : StdMap SchedUe) (k : Nat) : Prop :=
  ∃ u : SchedUe, db[k]? = some u ∧ u.sr = true

/-- The users stay under their RNTIs, and a request is gone for a user of `X` only. -/
def SrStays (X : Set Nat) (db db' : StdMap SchedUe) : Prop :=
  Keyed db → Keyed db' ∧ ∀ k ∉ X, SrWaits db k → SrWaits db' k

namespace SrStays

theorem refl (X : Set Nat) (db : StdMap SchedUe) : SrStays X db db := fun h => ⟨h, fun _ _ => id⟩

theorem mono {Y : Set Nat} (h : SrStays X db db') (hXY : X ⊆ Y) : SrStays Y db db' := fun hdb =>
  ⟨(h hdb).1, fun k hk => (h hdb).2 k fun hX => hk (hXY hX)⟩

theorem trans (h : SrStays X db db') (h' : SrStays X db' db'') : SrStays X db db'' := by
  intro hdb
  obtain ⟨hdb', hstay⟩ := h hdb
  obtain ⟨hdb'', hstay'⟩ := h' hdb'
  exact ⟨hdb'', fun k hk hw => hstay' k hk (hstay k hk hw)⟩

/-- A user is stored anew. -/
theorem insert (hrnti : Keyed db → u.rnti = rnti) (hsr : rnti ∉ X → SrWaits db rnti → u.sr = true) :
    SrStays X db (db.insert rnti u) := by
  refine fun hdb => ⟨hdb.insert (hrnti hdb), fun k hk hw => ?_⟩
  by_cases heq : rnti = k
  · subst heq
    exact ⟨u, by rw [StdMap.getElem?_insert, if_pos rfl], hsr hk hw⟩
  · obtain ⟨v, hv, hsrv⟩ := hw
    exact ⟨v, by rw [StdMap.getElem?_insert, if_neg heq, hv], hsrv⟩

/-- A user that keeps its request is stored. -/
theorem keep (hu : db[rnti]? = some u) (h : KeepsSr u u') :
    SrStays X db (db.insert rnti u') := by
  refine .insert (fun hdb => h.rnti.trans (hdb rnti u hu)) fun _ hw => ?_
  obtain ⟨v, hv, hsr⟩ := hw
  obtain rfl : u = v := Option.some.inj (hu.symm.trans hv)
  rw [h.sr, hsr]

theorem erase (db : StdMap SchedUe) : SrStays {rnti} db (db.erase rnti) := by
  intro hdb
  constructor
  · intro k v hv
    rw [StdMap.getElem?_erase] at hv
    split_ifs at hv
    exact hdb k v hv
  · rintro k hk ⟨v, hv, hsr⟩
    refine ⟨v, ?_, hsr⟩
    have hne : ¬ rnti = k := fun heq => hk heq.symm
    rw [StdMap.getElem?_erase, if_neg hne, hv]

/-- A loop in which each user keeps its request. -/
theorem visit {σ : Type} {f : σ → Nat → SchedUe → σ × SchedUe}
    (hf : ∀ st k u, KeepsSr u (f st k u).2) (ks : List Nat) (st : σ) (db : StdMap SchedUe) :
    SrStays X db (db.visit f ks st).2 :=
  StdMap.visit_ind (f := f) (fun _ db' => SrStays X db db')
    (fun st _ k u h hu => h.trans (.keep hu (hf st k u))) ks st db (.refl X db)

theorem of_same (h : SameAsksAll db db') : SrStays X db db' := by
  intro hdb
  constructor
  · intro k u' hu'
    obtain ⟨u, hu, hasks⟩ := h.back k u' hu'
    rw [hasks.rnti, hdb k u hu]
  · rintro k - ⟨u, hu, hsr⟩
    obtain ⟨u', hu', hasks⟩ := h.forth k u hu
    exact ⟨u', hu', hasks.sr.trans hsr⟩

end SrStays

/-! ## Downlink -/

theorem visitUser_sr (lib : Lib) (m : DlMetric) (k : Nat) (u : SchedUe) :
    KeepsSr u (m.visitUser lib k u).2 := by
  unfold DlMetric.visitUser
  split
  · rename_i pid m' u' happly
    obtain ⟨mask, hout⟩ := DlMetric.applyUserAllocation_spec happly
    rw [hout.user]
    exact ⟨rfl, rfl⟩
  · exact ⟨rfl, rfl⟩

theorem dataUser_sr (lib : Lib) (st : Sched × Elems DlSchedData) (k : Nat) (u : SchedUe) :
    KeepsSr u (dataUser lib st k u).2 := by
  simp only [dataUser]
  split
  · exact ⟨rfl, rfl⟩
  · rename_i pid hpid
    split
    · exact ⟨rfl, rfl⟩
    · rename_i loc s1 hs1
      have h := KeepsSr.generateFormat lib u.getDciFormat u pid
        { st.2.slot with dciFormat := u.getDciFormat, dciLocation := loc } s1.currentTti
        s1.currentCfi
      exact ⟨h.rnti, h.sr⟩

theorem dlSchedData_sr (lib : Lib) (s : Sched) : SrStays X s.ueDb (s.dlSchedData lib).1.ueDb := by
  obtain ⟨s1, m, ks, db, hdb, hueDb, -⟩ := dlSchedData_visits lib s
  have hmetric : SrStays X s.ueDb db := hdb ▸ .visit (visitUser_sr lib) ks m s.ueDb
  rw [hueDb]
  exact hmetric.trans (.visit (dataUser_sr lib) _ _ _)

theorem dlSched_sr (lib : Lib) (s : Sched) (tti : Nat) (paging : Option Nat) :
    SrStays X s.ueDb (s.dlSched lib tti paging).1.ueDb := by
  by_cases hs : s.configured = true
  · rw [dlSched_eq lib hs]
    obtain ⟨s', hs'⟩ : ∃ s', s.dataReady lib tti paging = s' := ⟨_, rfl⟩
    have hdb : s'.ueDb = s.ueDb := hs' ▸ dataReady_ueDb lib s tti paging
    rw [hs', ← hdb]
    exact dlSchedData_sr lib s'
  · rw [Bool.not_eq_true] at hs
    simp only [dlSched, hs, Bool.not_false, if_true]
    exact .refl _ _

/-! ## Uplink -/

/-- The users that the elements of `pusch` are for. -/
def puschUsers (pusch : List UlSchedData) : Set Nat := {r | ∃ d ∈ pusch, d.rnti = r ∧ 0 < d.tbs}

/-- The loop over the PUSCHs takes only the requests that it grants. -/
theorem puschRounds_sr (lib : Lib) (s : Sched) (tti : Nat) (ks : List Nat) :
    SrStays (puschUsers (s.puschRounds lib tti ks).1.2.done) s.ueDb
      (s.puschRounds lib tti ks).2 := by
  refine StdMap.visit_ind (f := puschUser lib tti)
    (fun st db' => SrStays (puschUsers st.2.done) s.ueDb db') ?_ ks (s, ⟨[], default⟩) s.ueDb
    (.refl _ _)
  intro st db k u h hu hdb
  obtain ⟨hkeyed, hstay⟩ := h hdb
  have hround := puschUser_served lib tti st k u
  have hrnti := hkeyed k u hu
  refine ⟨hkeyed.insert (hround.rnti.trans hrnti), fun j hj hw => ?_⟩
  have hbefore : j ∉ puschUsers st.2.done := by
    rintro ⟨d, hd, hdr⟩
    exact hj ⟨d, hround.done d hd, hdr⟩
  obtain ⟨v, hv, hsr⟩ := hstay j hbefore hw
  unfold SrWaits
  rw [StdMap.getElem?_insert]
  split_ifs with heq
  · subst heq
    obtain rfl : u = v := Option.some.inj (hu.symm.trans hv)
    obtain hkept | ⟨d, hd, hdr, htbs⟩ := hround.sr hsr
    · exact ⟨_, rfl, hkept⟩
    · exact absurd ⟨d, hd, hdr.trans hrnti, htbs⟩ hj
  · exact ⟨v, hv, hsr⟩

theorem ulSched_sr (lib : Lib) (s : Sched) (tti : Nat) :
    SrStays (puschUsers (s.ulSched lib tti).2.pusch) s.ueDb (s.ulSched lib tti).1.ueDb := by
  by_cases hs : s.ulRuns = true
  · obtain ⟨⟨⟨s2, out⟩, db⟩, hrounds⟩ : ∃ r, (s.ulReady lib tti).puschRounds lib tti
        (s.ulReady lib tti).ueDb.keys = r := ⟨_, rfl⟩
    have hpusch := puschRounds_sr lib (s.ulReady lib tti) tti (s.ulReady lib tti).ueDb.keys
    rw [hrounds] at hpusch
    rw [ulSched_eq lib s tti hs hrounds]
    exact (SrStays.of_same (ulReady_asks lib s tti)).trans
      (hpusch.trans (.visit (fun st k u => ⟨rfl, rfl⟩) _ _ _))
  · rw [ulSched_stays lib s tti hs]
    exact .refl _ _

/-! ## Calls of the scheduler -/

theorem indicate_sr (s : Sched) (rnti : Nat) {f : SchedUe → SchedUe}
    (hf : ∀ u, (f u).rnti = u.rnti ∧ (u.sr = true → (f u).sr = true)) :
    SrStays X s.ueDb (s.indicate rnti f).1.ueDb := by
  unfold indicate
  cases hu : s.ueDb[rnti]? with
  | none => exact .refl _ _
  | some u =>
    refine .insert (fun hdb => (hf u).1.trans (hdb rnti u hu)) fun _ hw => ?_
    obtain ⟨v, hv, hsr⟩ := hw
    obtain rfl : u = v := Option.some.inj (hu.symm.trans hv)
    exact (hf u).2 hsr

theorem ueCfg_sr (s : Sched) (args : SchedArgs) (locations : Nat → Nat → Nat → DciCce)
    (rnti : Nat) (cfg : UeCfg) (bearers : List Direction) :
    SrStays {rnti} s.ueDb (s.ueCfg lib args locations rnti cfg bearers).ueDb :=
  .insert (fun _ => rfl) fun hout _ => absurd rfl hout

theorem ueRem_sr (s : Sched) (rnti : Nat) : SrStays {rnti} s.ueDb (s.ueRem rnti).1.ueDb := by
  unfold ueRem
  split_ifs
  · exact .erase _
  · exact .refl _ _

theorem dlAckInfo_sr (s : Sched) (tti rnti : Nat) (tb : Fin 2) (ack : Bool) :
    SrStays X s.ueDb (s.dlAckInfo tti rnti tb ack).1.ueDb := by
  have hack : ∀ u : SchedUe, KeepsSr u (u.setAckInfo tti tb ack).2 := by
    intro u
    unfold SchedUe.setAckInfo
    split <;> exact ⟨rfl, rfl⟩
  unfold dlAckInfo
  cases hu : s.ueDb[rnti]? with
  | none => exact .refl _ _
  | some u => exact .keep hu (hack u)

end Sched

/-! ## Calls of MAC -/

namespace MacState

open Sched (SrStays SrWaits puschUsers)

variable {lib : Lib} {locations : Nat → Nat → Nat → DciCce} {m : MacState} {X : Set Nat}

/-- The users that a call configures or removes. -/
def renews (m : MacState) : MacEvent → Set Nat
  | .rachDetected _ _ _ => {m.lastRnti}
  | .ueCfg rnti _ _ => {rnti}
  | .ueRem rnti => {rnti}
  | _ => ∅

theorem onUe_sr {rnti : Nat} {f : MacState → MacOut}
    (h : SrStays X m.sched.ueDb (f m).st.sched.ueDb) :
    SrStays X m.sched.ueDb (m.onUe rnti f).st.sched.ueDb := by
  unfold onUe
  split_ifs
  · exact h
  · exact .refl _ _

theorem handle_sr (lib : Lib) (locations : Nat → Nat → Nat → DciCce) (m : MacState)
    (e : MacEvent) :
    SrStays (m.renews e) m.sched.ueDb (m.handle lib locations e).st.sched.ueDb := by
  have hind : ∀ {X : Set Nat} (rnti : Nat) {f : SchedUe → SchedUe},
      (∀ u, (f u).rnti = u.rnti ∧ (u.sr = true → (f u).sr = true)) →
        SrStays X m.sched.ueDb (m.sched.indicate rnti f).1.ueDb := fun rnti _ hf =>
    Sched.indicate_sr m.sched rnti hf
  cases e with
  | rachDetected tti preambleIdx timeAdv =>
    simp only [handle, rachDetected]
    split_ifs
    · exact .refl _ _
    all_goals
      rw [dlRachInfo_ueDb]
      exact Sched.ueCfg_sr _ _ _ _ _ _
  | ueRem rnti =>
    simp only [handle, ueRem]
    split_ifs
    · exact Sched.ueRem_sr _ _
    · exact .refl _ _
  | ueCfg rnti cfg bearers =>
    simp only [handle, ueCfg]
    split
    · exact .refl _ _
    · exact Sched.ueCfg_sr _ _ _ _ _ _
  | addMbmsUser => exact .refl _ _
  | rlFailure rnti =>
    refine onUe_sr ?_
    simp only
    split_ifs <;> exact .refl _ _
  | rlOk rnti => exact onUe_sr (.refl _ _)
  | ackInfo tti rnti tb ack => exact Sched.dlAckInfo_sr m.sched tti rnti tb ack
  | srDetected rnti => exact onUe_sr (hind rnti fun u => ⟨rfl, fun _ => rfl⟩)
  | crcInfo tti rnti nofBytes crc => exact onUe_sr (hind rnti fun u => ⟨rfl, id⟩)
  | setDlAntInfo rnti txMode => exact onUe_sr (hind rnti fun u => ⟨rfl, id⟩)
  | riInfo rnti ri => exact onUe_sr (hind rnti fun u => ⟨rfl, id⟩)
  | pmiInfo rnti pmi => exact onUe_sr (hind rnti fun u => ⟨rfl, id⟩)
  | cqiInfo tti rnti cqi => exact onUe_sr (hind rnti fun u => ⟨rfl, id⟩)
  | snrInfo rnti cqi => exact onUe_sr (hind rnti fun u => ⟨rfl, id⟩)

/-- The request of a user that is there is kept. -/
theorem srDetected_waits (lib : Lib) (locations : Nat → Nat → Nat → DciCce) {rnti : Nat}
    (hmac : m.ueDb[rnti]?.isSome = true) (hsched : m.sched.ueDb[rnti]?.isSome = true) :
    SrWaits (m.handle lib locations (.srDetected rnti)).st.sched.ueDb rnti := by
  obtain ⟨u, hu⟩ := Option.isSome_iff_exists.mp hsched
  refine ⟨{ u with sr := true }, ?_, rfl⟩
  simp [handle, srDetected, onUe, hmac, Sched.ulSrInfo, Sched.indicate, hu]

/-! ### The grants of `get_ul_sched` -/

section Grants

variable {tti : Nat} {pusch : List UlSchedData} {buffers : Nat → Option Nat} {d : UlSchedData}
  {out : UlSchedOut}

theorem ulGrant_isSome (k : Nat) :
    (ulGrant tti pusch buffers out d).st.ueDb[k]?.isSome = out.st.ueDb[k]?.isSome := by
  unfold ulGrant
  split_ifs
  · cases hp : out.st.ueDb[d.rnti]? with
    | none => rfl
    | some p => exact Bool.eq_iff_iff.mpr (StdMap.isSome_insert hp)
  · rfl

theorem ulGrant_keeps {g : UlSchedGrant} (hg : g ∈ out.grants) :
    g ∈ (ulGrant tti pusch buffers out d).grants := by
  unfold ulGrant
  split_ifs
  · cases out.st.ueDb[d.rnti]? with
    | none => exact hg
    | some p => exact List.mem_append_left _ hg
  · exact hg

theorem ulGrant_gives (tti : Nat) (pusch : List UlSchedData) (buffers : Nat → Option Nat)
    (htbs : 0 < d.tbs) (hthere : out.st.ueDb[d.rnti]?.isSome = true) :
    ∃ g ∈ (ulGrant tti pusch buffers out d).grants, g.rnti = d.rnti := by
  obtain ⟨p, hp⟩ := Option.isSome_iff_exists.mp hthere
  simp only [ulGrant, if_pos htbs, hp]
  exact ⟨_, List.mem_append_right _ (List.mem_singleton_self _), rfl⟩

/-- An element for a user that MAC has becomes a grant. -/
theorem ulGrants_mem (tti : Nat) (pusch : List UlSchedData) (buffers : Nat → Option Nat)
    (htbs : 0 < d.tbs) : ∀ (ds : List UlSchedData) (out : UlSchedOut), d ∈ ds →
      out.st.ueDb[d.rnti]?.isSome = true →
        ∃ g ∈ (ds.foldl (ulGrant tti pusch buffers) out).grants, g.rnti = d.rnti
  | [], _, hd, _ => absurd hd List.not_mem_nil
  | e :: ds, out, hd, hthere => by
    rw [List.foldl_cons]
    obtain rfl | hd := List.mem_cons.mp hd
    · obtain ⟨g, hg, hr⟩ := ulGrant_gives tti pusch buffers htbs hthere
      refine ⟨g, ?_, hr⟩
      exact List.foldlRecOn (motive := fun out' : UlSchedOut => g ∈ out'.grants) _ _ hg
        fun _ h _ _ => ulGrant_keeps h
    · exact ulGrants_mem tti pusch buffers htbs ds _ hd ((ulGrant_isSome _).trans hthere)

end Grants

/-- Only what PHY is granted is gone; the MBMS user has no requests. -/
theorem getUlSched_sr (h : m.UsersAgree) (tti : Nat) (buffers : Nat → Option Nat) :
    SrStays ({mrnti} ∪ {r | ∃ g ∈ (m.getUlSched lib tti buffers).grants, g.rnti = r})
      m.sched.ueDb (m.getUlSched lib tti buffers).st.sched.ueDb := by
  rw [getUlSched_sched]
  intro hdb
  obtain ⟨hkeyed, hstay⟩ := Sched.ulSched_sr lib m.sched tti hdb
  refine ⟨hkeyed, fun k hk hw => hstay k ?_ hw⟩
  rintro ⟨d, hd, hdr, htbs⟩
  refine hk (Or.inr ?_)
  have hmac : m.ueDb[d.rnti]?.isSome = true := by
    obtain ⟨u, hu, -⟩ := hw
    rw [hdr]
    exact (h.keys k fun heq => hk (Or.inl heq)).mpr (by rw [hu]; rfl)
  obtain ⟨g, hg, hr⟩ := ulGrants_mem tti (m.sched.ulSched lib tti).2.pusch buffers htbs _
    { st := { m with sched := (m.sched.ulSched lib tti).1 } } hd hmac
  exact ⟨g, hg, hr.trans hdr⟩

end MacState

end Srsenb.Mac
