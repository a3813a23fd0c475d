import Srsenb.Mac.ListBounds

/-! # The elements of the downlink grants

`dl_sched_data` writes to the element after the last grant in the round of each user, granted or
not. A block takes one PDU element for each buffer that it empties and one for the buffer that
fills it. -/

namespace Srsenb.Mac

open StdMap

namespace SchedUe

/-! ## PDUs -/

/-- The bytes of the buffers that `alloc_pdu` comes to, in its order. -/
def queues (lch : List UeBearer) : List Int :=
  (lch.flatMap fun b => [b.bufRetx, b.bufTx]).filter fun q => decide (q ≠ 0)

/-- The buffers that a block of `tbs` bytes empties, and the one that fills it. -/
def nofPieces : Int → List Int → Nat
  | _, [] => 0
  | tbs, q :: qs => if 0 < q ∧ q < tbs then nofPieces (tbs - q) qs + 1 else 1

/-- The PDUs of a block; without a positive TBS the first try is the last. -/
def nofPdus (tbs : Int) (lch : List UeBearer) : Nat :=
  if 0 < tbs then nofPieces tbs (queues lch) else (allocPdu tbs 0 lch).1.isSome.toNat

variable {tbs : Int} {lch : List UeBearer}

theorem queues_cons (b : UeBearer) (bs : List UeBearer) : queues (b :: bs) =
    (if b.bufRetx ≠ 0 then [b.bufRetx] else []) ++ (if b.bufTx ≠ 0 then [b.bufTx] else []) ++
      queues bs := by
  unfold queues
  rw [List.flatMap_cons, List.filter_append, List.filter_cons, List.filter_cons, List.filter_nil]
  simp only [decide_eq_true_eq]
  split_ifs <;> rfl

/-- While bytes remain, the first buffer that is not empty gives what it has. -/
theorem allocPdu_queues (htbs : 0 < tbs) (i : Nat) (lch : List UeBearer) :
    match queues lch with
    | [] => (allocPdu tbs i lch).1 = none
    | q :: qs => ∃ lcid lch', allocPdu tbs i lch = (some (lcid, min q tbs), lch') ∧
        (q < tbs → queues lch' = qs) := by
  induction lch generalizing i with
  | nil => rfl
  | cons b bs ih =>
    have hmin : ∀ q : Int, q ≠ 0 → min q tbs ≠ 0 := by
      intro q hq
      omega
    rw [queues_cons]
    by_cases hretx : b.bufRetx = 0
    · by_cases htx : b.bufTx = 0
      · have hskip : allocPdu tbs i (b :: bs) =
            ((allocPdu tbs (i + 1) bs).1, b :: (allocPdu tbs (i + 1) bs).2) := by
          simp [allocPdu, hretx, htx]
        have hrest := ih (i + 1)
        simp only [hretx, htx, ne_eq, not_true_eq_false, if_false, List.nil_append]
        rw [hskip]
        cases hq : queues bs with
        | nil =>
          rw [hq] at hrest
          exact hrest
        | cons q qs =>
          rw [hq] at hrest
          obtain ⟨lcid, lch', heq, hleft⟩ := hrest
          refine ⟨lcid, b :: lch', by rw [heq], fun hlt => ?_⟩
          simp [queues_cons, hretx, htx, hleft hlt]
      · simp only [hretx, htx, ne_eq, not_true_eq_false, if_false, not_false_eq_true, if_true,
          List.nil_append, List.singleton_append]
        refine ⟨i, { b with bufTx := b.bufTx - min b.bufTx tbs } :: bs, ?_, fun hlt => ?_⟩
        · simp [allocPdu, hretx, htx, hmin b.bufTx htx]
        · simp [queues_cons, hretx, min_eq_left hlt.le]
    · simp only [hretx, ne_eq, not_false_eq_true, if_true, List.cons_append]
      refine ⟨i, { b with bufRetx := b.bufRetx - min b.bufRetx tbs } :: bs, ?_, fun hlt => ?_⟩
      · simp [allocPdu, hretx, hmin b.bufRetx hretx]
      · simp [queues_cons, min_eq_left hlt.le]

theorem allocPdus_pieces : ∀ {fuel : Nat} {tbs : Int} (lch : List UeBearer), 0 < tbs →
    tbs.toNat ≤ fuel → (allocPdus fuel tbs lch).1.length = nofPieces tbs (queues lch)
  | 0, tbs, lch, htbs, hfuel => by omega
  | fuel + 1, tbs, lch, htbs, hfuel => by
    have hfirst := allocPdu_queues htbs 0 lch
    obtain ⟨⟨r, lch'⟩, hr⟩ : ∃ r, allocPdu tbs 0 lch = r := ⟨_, rfl⟩
    rw [hr] at hfirst
    cases hq : queues lch with
    | nil =>
      rw [hq] at hfirst
      obtain rfl : r = none := hfirst
      simp [allocPdus, hr, nofPieces]
    | cons q qs =>
      rw [hq] at hfirst
      obtain ⟨lcid, lch1, heq, hleft⟩ := hfirst
      obtain ⟨rfl, rfl⟩ := Prod.mk.inj heq
      simp only [allocPdus, hr, nofPieces]
      by_cases hmore : 0 < q ∧ q < tbs
      · have hmin : min q tbs = q := min_eq_left hmore.2.le
        rw [hmin, if_pos (by omega), if_pos hmore, List.length_cons,
          allocPdus_pieces lch' (by omega) (by omega), hleft hmore.2]
      · rw [if_neg (by omega), if_neg hmore, List.length_singleton]

theorem allocPdus_length (tbs : Int) (lch : List UeBearer) :
    (allocPdus (tbs.toNat + 1) tbs lch).1.length = nofPdus tbs lch := by
  unfold nofPdus
  split_ifs with htbs
  · exact allocPdus_pieces lch htbs (Nat.le_succ _)
  · rw [Int.toNat_of_nonpos (by omega)]
    obtain ⟨⟨r, lch'⟩, hr⟩ : ∃ r, allocPdu tbs 0 lch = r := ⟨_, rfl⟩
    cases r with
    | none => simp [allocPdus, hr]
    | some p =>
      simp only [allocPdus, hr]
      split_ifs <;> rfl

/-- The bearers as the round for block `tb` finds them. -/
def blockLch (lib : Lib) (u : SchedUe) (pid : Pid) (tti cfi : Nat) (data : DlSchedData)
    (tb : Fin 2) : List UeBearer :=
  if tb = 0 then u.lch else (u.format2aFirst lib pid tti cfi data).1.lch

end SchedUe

/-- The elements that a block takes from the bearers `lch`. -/
def BlockAct.nofElems (conRes : Bool) (lch : List UeBearer) : BlockAct → Nat
  | new _ tbs _ => conRes.toNat + SchedUe.nofPdus tbs lch
  | _ => 0

theorem withConRes_length (pdus : List DlSchedPdu) :
    (withConRes pdus).length = pdus.length + 1 := by
  cases pdus <;> simp [withConRes]

theorem newBlock_fill (u : SchedUe) (t : Int × Int) (conRes : Bool) (pdus : List DlSchedPdu) :
    ((u.newBlock t).fill conRes pdus).length =
      pdus.length + (u.newBlock t).nofElems conRes u.lch := by
  unfold SchedUe.newBlock BlockAct.nofElems
  rw [BlockAct.fill_new, List.length_append, SchedUe.allocPdus_length]
  cases conRes
  · simp
  · simp [withConRes_length, Nat.add_assoc]

theorem acts_fill (lib : Lib) (u : SchedUe) (pid : Pid) (tti cfi : Nat) (format : DciFormat)
    (data : DlSchedData) (tb : Fin 2) (conRes : Bool) (pdus : List DlSchedPdu) :
    ((u.acts lib pid tti cfi format data tb).fill conRes pdus).length =
      pdus.length + (u.acts lib pid tti cfi format data tb).nofElems conRes
        (u.blockLch lib pid tti cfi data tb) := by
  have hact : ∀ (v : SchedUe) (nofPrb nofRe : Nat) (tbEn noRetx : Bool),
      ((v.format2aTbAct lib pid nofPrb nofRe tbEn noRetx tb).fill conRes pdus).length =
        pdus.length + (v.format2aTbAct lib pid nofPrb nofRe tbEn noRetx tb).nofElems conRes
          v.lch := by
    intro v nofPrb nofRe tbEn noRetx
    unfold SchedUe.format2aTbAct
    split_ifs
    · rfl
    · exact newBlock_fill v _ conRes pdus
    · rfl
  cases format with
  | format0 => rfl
  | format1 =>
    unfold SchedUe.acts SchedUe.blockLch SchedUe.format1Act
    split_ifs
    · exact newBlock_fill u _ conRes pdus
    · rfl
    · rfl
  | format2 | format2a =>
    unfold SchedUe.acts SchedUe.blockLch
    split_ifs
    · exact hact u _ _ _ _
    · exact hact _ _ _ _ _

namespace Sched

variable (lib : Lib) {s : Sched} {u : SchedUe} {tti : Nat} {paging : Option Nat}

/-! ## Rounds -/

/-- Whether the round of a user is granted, and the elements that its blocks take. -/
structure DataRound where
  granted : Bool := false
  elems : Fin 2 → Nat := fun _ => 0

def dataRound (s : Sched) (slot : DlSchedData) (u : SchedUe) : DataRound :=
  let aggrLevel := u.getAggrLevel lib
    (lib.dciFormatSizeof .format1 s.cfg.cell.nofPrb s.cfg.cell.nofPorts)
  match u.dlNextAlloc, (s.generateDci lib (u.getLocations s.currentCfi s.sfIdx) aggrLevel
      (u.pucchSrCollision lib s.currentTti)).1 with
  | some pid, some loc =>
    let data := { slot with dciFormat := u.getDciFormat, dciLocation := loc }
    let acts := u.acts lib pid s.currentTti s.currentCfi u.getDciFormat data
    { granted := decide (∃ tb, 0 < (acts tb).tbs ((u.dlHarq pid).tb tb))
      elems := fun tb => (acts tb).nofElems (u.addsConRes u.getDciFormat)
        (u.blockLch lib pid s.currentTti s.currentCfi data tb) }
  | _, _ => {}

/-- What a round leaves of the elements. -/
structure Filled (out out' : Elems DlSchedData) (r : DataRound) : Prop where
  done : out'.done.length = out.done.length + r.granted.toNat
  here : ∀ tb, ((out'.place out.done.length).pdu tb).length = (out.slot.pdu tb).length + r.elems tb
  next : ∀ tb, (out'.slot.pdu tb).length =
    if r.granted then 0 else r.elems tb + (out.slot.pdu tb).length

theorem Filled.push {out : Elems DlSchedData} {d : DlSchedData} {r : DataRound}
    (hr : r.granted = true) (hd : ∀ tb, (d.pdu tb).length = (out.slot.pdu tb).length + r.elems tb) :
    Filled out (out.push d) r := by
  refine ⟨by simp [Elems.push, hr], fun tb => ?_, fun tb => ?_⟩
  · simpa [Elems.push, Elems.place] using hd tb
  · rw [if_pos hr]
    rfl

theorem Filled.keep {out : Elems DlSchedData} {d : DlSchedData} {r : DataRound}
    (hr : r.granted = false)
    (hd : ∀ tb, (d.pdu tb).length = (out.slot.pdu tb).length + r.elems tb) :
    Filled out { out with slot := d } r := by
  refine ⟨by simp [hr], fun tb => ?_, fun tb => ?_⟩
  · simpa [Elems.place] using hd tb
  · rw [hr, if_neg Bool.false_ne_true, Nat.add_comm]
    exact hd tb

theorem dataUser_filled (st : Sched × Elems DlSchedData) (k : Nat) (u : SchedUe) :
    Filled st.2 (dataUser lib st k u).1.2 (st.1.dataRound lib st.2.slot u) := by
  obtain ⟨s, out⟩ := st
  obtain ⟨⟨l, s1⟩, hdci⟩ : ∃ r, s.generateDci lib (u.getLocations s.currentCfi s.sfIdx)
      (u.getAggrLevel lib
        (lib.dciFormatSizeof .format1 s.cfg.cell.nofPrb s.cfg.cell.nofPorts))
      (u.pucchSrCollision lib s.currentTti) = r := ⟨_, rfl⟩
  obtain ⟨t, n, hs, -⟩ := generateDci_spec lib s (u.getLocations s.currentCfi s.sfIdx)
    (u.getAggrLevel lib (lib.dciFormatSizeof .format1 s.cfg.cell.nofPrb s.cfg.cell.nofPorts))
    (u.pucchSrCollision lib s.currentTti)
  rw [hdci] at hs
  simp only at hs
  subst hs
  cases hnext : u.dlNextAlloc with
  | none =>
    simp only [dataUser, dataRound, hnext]
    exact .keep rfl fun _ => rfl
  | some pid =>
    simp only [dataUser, dataRound, hnext, hdci]
    cases l with
    | none => exact .keep rfl fun _ => rfl
    | some loc =>
      obtain ⟨data, hdata⟩ : ∃ data : DlSchedData,
          { out.slot with dciFormat := u.getDciFormat, dciLocation := loc } = data := ⟨_, rfl⟩
      have hgrant := generateFormat_grantOf lib u pid data s.currentTti s.currentCfi
        (DlRound.getDciFormat_ne u)
      have hpdu : ∀ tb, ((generateFormat lib u.getDciFormat u pid data s.currentTti
          s.currentCfi).2.1.pdu tb).length = (out.slot.pdu tb).length +
            (u.acts lib pid s.currentTti s.currentCfi u.getDciFormat data tb).nofElems
              (u.addsConRes u.getDciFormat)
              (u.blockLch lib pid s.currentTti s.currentCfi data tb) := by
        intro tb
        rw [hgrant.pdu tb, acts_fill, ← hdata]
      have hsent : (∃ tb, 0 < (u.acts lib pid s.currentTti s.currentCfi u.getDciFormat data
          tb).tbs ((u.dlHarq pid).tb tb)) ↔
          0 < (generateFormat lib u.getDciFormat u pid data s.currentTti s.currentCfi).2.2 := by
        rw [hgrant.sent]
        exact exists_congr fun tb => (hgrant.tbEn tb).symm
      simp only [hdata, gt_iff_lt]
      split_ifs with hpos
      · exact .push (decide_eq_true (hsent.mpr hpos)) hpdu
      · exact .keep (decide_eq_false (mt hsent.mp hpos)) hpdu

/-! ## The loop over the users -/

/-- The state and the users that the loop of `dl_sched_data` starts with. -/
def dataStart (s : Sched) : (Sched × Elems DlSchedData) × StdMap SchedUe :=
  let s := s.prachStart lib
  let nofCtrlSymbols := if s.cfg.cell.nofPrb < 10 then s.currentCfi + 1 else s.currentCfi
  let (m, db) := s.dlMetric.newTti lib s.ueDb s.startRbg s.availRbg nofCtrlSymbols s.currentTti
  (({ s with dlMetric := m }, ⟨[], default⟩), db)

/-- The round of the user with key `k`. -/
def dataRoundOf (s : Sched) (k : Nat) : DataRound :=
  let (st, db) := s.dataStart lib
  match db[k]? with
  | some u =>
    let st := (db.visit (dataUser lib) (db.before k) st).1
    st.1.dataRound lib st.2.slot u
  | none => {}

theorem dataRoundOf_eq {k : Nat} (hu : (s.dataStart lib).2[k]? = some u) :
    s.dataRoundOf lib k =
      ((s.dataStart lib).2.visit (dataUser lib) ((s.dataStart lib).2.before k)
        (s.dataStart lib).1).1.1.dataRound lib
        ((s.dataStart lib).2.visit (dataUser lib) ((s.dataStart lib).2.before k)
          (s.dataStart lib).1).1.2.slot u := by
  simp only [dataRoundOf, hu]

theorem dataStart_isSome (s : Sched) (k : Nat) :
    (s.dataStart lib).2[k]?.isSome = s.ueDb[k]?.isSome := by
  have hdb : (s.prachStart lib).ueDb = s.ueDb := by
    unfold prachStart
    split_ifs <;> rfl
  unfold dataStart DlMetric.newTti
  simp only
  rw [visit_isSome, hdb]

theorem dataStart_before (s : Sched) (k : Nat) :
    (s.dataStart lib).2.before k = s.ueDb.before k := by
  unfold before
  rw [keys_congr (dataStart_isSome lib s)]

/-- The elements as the round of user `k` finds them. -/
theorem data_before (s : Sched) {k : Nat} (hk : s.ueDb[k]?.isSome = true) :
    ((s.dataStart lib).2.visit (dataUser lib) ((s.dataStart lib).2.before k)
        (s.dataStart lib).1).1.2.done.length =
      ((s.ueDb.before k).filter fun j => (s.dataRoundOf lib j).granted).length ∧
    ∀ tb, (((s.dataStart lib).2.visit (dataUser lib) ((s.dataStart lib).2.before k)
        (s.dataStart lib).1).1.2.slot.pdu tb).length =
      sumSince (fun j => (s.dataRoundOf lib j).granted) (fun j => (s.dataRoundOf lib j).elems tb)
        (s.ueDb.before k) := by
  rw [← dataStart_before lib s k]
  rw [← dataStart_isSome lib s k] at hk
  constructor
  · refine counter_before (dataUser lib) (fun st => st.2.done.length)
      (fun j => (s.dataRoundOf lib j).granted) rfl (fun l v hv => ?_) hk
    rw [dataRoundOf_eq lib hv]
    exact (dataUser_filled lib _ l v).done
  · intro tb
    refine visit_before_ind (f := dataUser lib)
      (Q := fun pre st => (st.2.slot.pdu tb).length =
        sumSince (fun j => (s.dataRoundOf lib j).granted)
          (fun j => (s.dataRoundOf lib j).elems tb) pre) rfl (fun l v hv h => ?_) hk
    rw [sumSince_snoc, (dataUser_filled lib _ l v).next tb, h, dataRoundOf_eq lib hv]

theorem data_inBounds_iff (s : Sched) :
    (EachRound (dataUser lib) (s.dataStart lib).1 (s.dataStart lib).2 fun st _ _ =>
      st.2.done.length < maxDataList) ↔
    ∀ k, s.ueDb[k]?.isSome = true →
      ((s.ueDb.before k).filter fun j => (s.dataRoundOf lib j).granted).length < maxDataList := by
  constructor
  · intro h k hk
    obtain ⟨u, hu⟩ := Option.isSome_iff_exists.mp ((dataStart_isSome lib s k).trans hk)
    rw [← (data_before lib s hk).1]
    exact h k u hu
  · intro h k u hu
    have hk : s.ueDb[k]?.isSome = true := by
      rw [← dataStart_isSome lib, hu]
      rfl
    rw [(data_before lib s hk).1]
    exact h k hk

theorem pdus_inBounds_iff (s : Sched) :
    (EachRound (dataUser lib) (s.dataStart lib).1 (s.dataStart lib).2 fun st k u => ∀ tb,
      (((dataUser lib st k u).1.2.place st.2.done.length).pdu tb).length ≤ maxRlcPduList) ↔
    ∀ k tb, s.ueDb[k]?.isSome = true →
      sumSince (fun j => (s.dataRoundOf lib j).granted) (fun j => (s.dataRoundOf lib j).elems tb)
        (s.ueDb.before k) + (s.dataRoundOf lib k).elems tb ≤ maxRlcPduList := by
  constructor
  · intro h k tb hk
    obtain ⟨u, hu⟩ := Option.isSome_iff_exists.mp ((dataStart_isSome lib s k).trans hk)
    have hround := h k u hu tb
    rw [(dataUser_filled lib _ k u).here tb, (data_before lib s hk).2 tb,
      ← dataRoundOf_eq lib hu] at hround
    exact hround
  · intro h k u hu tb
    have hk : s.ueDb[k]?.isSome = true := by
      rw [← dataStart_isSome lib, hu]
      rfl
    rw [(dataUser_filled lib _ k u).here tb, (data_before lib s hk).2 tb,
      ← dataRoundOf_eq lib hu]
    exact h k tb hk

/-! ## The calls -/

/-- The scheduler as the second loop of `dl_sched_bc` finds it, -/
def bcStart (s : Sched) (tti : Nat) : Sched :=
  (s.dlStart tti).cfg.sibs.zipIdx.foldl (sibWindow lib) (s.dlStart tti)

/-- and as `dl_sched_data` does. -/
def dataReady (s : Sched) (tti : Nat) (paging : Option Nat) : Sched :=
  ((s.rarStart lib tti paging).dlSchedRar lib).1

/-- Each element that `dl_sched` writes, and each PDU of a grant, has a place in its array. -/
structure DlInBounds (s : Sched) (tti : Nat) (paging : Option Nat) : Prop where
  bc : ∀ n, (((s.bcStart lib tti).cfg.sibs.zipIdx.take n).foldl (sibSched lib)
    (s.bcStart lib tti, ⟨[], default⟩)).2.done.length < maxBcList
  rar : ∀ i < schedMaxPendingRar, ((List.range i).foldl (rarSched lib)
    (s.rarStart lib tti paging, ⟨[], default⟩)).2.done.length < maxRarList
  grants : ∀ rar ∈ (s.dlSched lib tti paging).2.rar, rar.nofGrants ≤ maxRarGrants
  data : EachRound (dataUser lib) ((s.dataReady lib tti paging).dataStart lib).1
    ((s.dataReady lib tti paging).dataStart lib).2 fun st _ _ => st.2.done.length < maxDataList
  pdus : EachRound (dataUser lib) ((s.dataReady lib tti paging).dataStart lib).1
    ((s.dataReady lib tti paging).dataStart lib).2 fun st k u => ∀ tb,
      (((dataUser lib st k u).1.2.place st.2.done.length).pdu tb).length ≤ maxRlcPduList

/-- No user comes after 32 that are granted, and the blocks of a user, with those of the users
right before it that are not granted, take at most eight elements each. -/
structure DlRoom (s : Sched) (tti : Nat) (paging : Option Nat) : Prop where
  data : ∀ k, s.ueDb[k]?.isSome = true → ((s.ueDb.before k).filter fun j =>
    ((s.dataReady lib tti paging).dataRoundOf lib j).granted).length < maxDataList
  pdus : ∀ k tb, s.ueDb[k]?.isSome = true →
    sumSince (fun j => ((s.dataReady lib tti paging).dataRoundOf lib j).granted)
      (fun j => ((s.dataReady lib tti paging).dataRoundOf lib j).elems tb) (s.ueDb.before k) +
        ((s.dataReady lib tti paging).dataRoundOf lib k).elems tb ≤ maxRlcPduList

theorem dlSched_eq (hs : s.configured = true) (tti : Nat) (paging : Option Nat) :
    s.dlSched lib tti paging =
      (((s.dataReady lib tti paging).dlSchedData lib).1,
       { cfi := ((s.dataReady lib tti paging).dlSchedData lib).1.currentCfi
         bc := ((s.dlStart tti).dlSchedBc lib paging).2
         rar := ((s.rarStart lib tti paging).dlSchedRar lib).2
         data := ((s.dataReady lib tti paging).dlSchedData lib).2 }) := by
  obtain ⟨⟨s1, bc⟩, h1⟩ : ∃ r, (s.dlStart tti).dlSchedBc lib paging = r := ⟨_, rfl⟩
  obtain ⟨⟨s2, rar⟩, h2⟩ : ∃ r, s1.dlSchedRar lib = r := ⟨_, rfl⟩
  obtain ⟨⟨s3, data⟩, h3⟩ : ∃ r, s2.dlSchedData lib = r := ⟨_, rfl⟩
  simp only [dataReady, rarStart, dlSched, hs, Bool.not_true, Bool.false_eq_true, if_false, h1, h2,
    h3]

theorem bcStart_locations (s : Sched) (tti : Nat) :
    (s.bcStart lib tti).commonLocations = s.commonLocations := by
  obtain ⟨_, _, _, _, _, _, _, hs⟩ := (sibWindows_rounds lib (s.dlStart tti).cfg.sibs.zipIdx
    (s.dlStart tti)).frame
  unfold bcStart
  rw [hs]
  rfl

theorem dataReady_ueDb (s : Sched) (tti : Nat) (paging : Option Nat) :
    (s.dataReady lib tti paging).ueDb = s.ueDb := by
  obtain ⟨new, hbc, -⟩ := dlSchedBc_emits lib (s.dlStart tti) paging
  obtain ⟨new', hrar, -⟩ := dlSchedRar_emits lib ((s.dlStart tti).dlSchedBc lib paging).1
  have hueDb := (hbc.trans hrar).setup.ueDb
  unfold dataReady rarStart
  rw [hueDb]
  rfl

theorem dlInBounds_iff (hloc : ∀ cfi, (s.commonLocations cfi).Fits) (hs : s.configured = true) :
    DlInBounds lib s tti paging ↔ DlRoom lib s tti paging := by
  have hdata := data_inBounds_iff lib (s.dataReady lib tti paging)
  have hpdus := pdus_inBounds_iff lib (s.dataReady lib tti paging)
  rw [dataReady_ueDb] at hdata hpdus
  constructor
  · rintro ⟨-, -, -, h1, h2⟩
    exact ⟨hdata.mp h1, hpdus.mp h2⟩
  · rintro ⟨h1, h2⟩
    exact ⟨fun n => bc_inBounds lib _ (by rwa [bcStart_locations]) _,
      fun i hi => rar_inBounds lib _ hi, rarGrants_inBounds lib tti paging hs, hdata.mpr h1,
      hpdus.mpr h2⟩

/-- A call that is not stopped by its first checks writes only places that its arrays have. -/
def InBounds (s : Sched) (tti : Nat) : CallKind → Prop
  | .dl paging => s.configured = true → DlInBounds lib s tti paging
  | .ul => s.ulRuns = true → UlInBounds lib s tti

def HasRoom (s : Sched) (tti : Nat) : CallKind → Prop
  | .dl paging => s.configured = true → DlRoom lib s tti paging
  | .ul => s.ulRuns = true → UlRoom lib s tti

/-- A user with one byte to send. -/
def sending (rnti : Nat) : SchedUe :=
  { requesting rnti with
    sr := false, lch := [{ direction := .ul, bsr := 1 }]
    dciLocations := fun _ _ => ⟨fun L n => (rnti - 70 + n) * 2 ^ L, fun _ => 6⟩ }

/-- Nine such users in a cell of 50 PRBs. -/
def nineSending : Sched :=
  { exampleSched with
    cfg := { exampleCell with cell := ⟨50, 1, 7⟩ }, P := 3, nofRbg := 17
    ueDb := (List.range 9).foldl (fun db i => db.insert (70 + i) (sending (70 + i))) ∅ }

end Sched

end Srsenb.Mac
