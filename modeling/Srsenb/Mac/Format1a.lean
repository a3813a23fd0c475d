import Srsenb.Mac.RarGrants

/-! # The transport blocks of format 1A

`generate_format1a` takes the first index whose block of 2 or 3 PRBs is large enough. Where there
is none it goes on with MCS -1, since the test after the loop is for an index that the loop does
not reach. Its result is in bits, and the elements of `dl_sched_bc` keep it so. -/

namespace Srsenb.Mac.Sched

variable (lib : Lib)

/-- The end of `generate_format1a`, where `tbs` is the size in bits. -/
def format1aOf (rbStart lCrb rv : Nat) (tbs : Int) (dci : DlDci) : Int × DlDci :=
  let nPrb1a := match dci.alloc with
    | .type2 n _ _ => n
    | .type0 _ => 0
  let (nPrb1a, mcs, tbs) : Nat × Int × Int :=
    match format1aTbs lib tbs with
    | some (n, i, tbs) => (n, i, tbs)
    | none => (nPrb1a, -1, tbs)
  (tbs,
   { dci with
     alloc := .type2 nPrb1a lCrb rbStart, harqProcess := 0,
     mcsIdx := Function.update dci.mcsIdx 0 (toU32 mcs), rvIdx := Function.update dci.rvIdx 0 rv,
     tbEn := fun tb => decide (tb = 0) })

theorem generateFormat1a_eq (rbStart lCrb tbsBytes rv : Nat) (dci : DlDci) :
    generateFormat1a lib rbStart lCrb tbsBytes rv dci =
      format1aOf lib rbStart lCrb rv (tbsBytes * 8) dci := rfl

/-- `generate_format1a` of any `uint32_t`: the product wraps, and is read as an `int`. -/
def generateFormat1aInt (rbStart lCrb tbsBytes rv : Nat) (dci : DlDci) : Int × DlDci :=
  format1aOf lib rbStart lCrb rv (Int.bmod (tbsBytes * 8) (2 ^ 32)) dci

/-- The sizes of the scheduler are far from where the product wraps. -/
theorem generateFormat1aInt_eq {tbsBytes : Nat} (h : tbsBytes < 2 ^ 28) (rbStart lCrb rv : Nat)
    (dci : DlDci) : generateFormat1aInt lib rbStart lCrb tbsBytes rv dci =
      generateFormat1a lib rbStart lCrb tbsBytes rv dci := by
  unfold generateFormat1aInt
  rw [generateFormat1a_eq, Int.bmod_eq_of_le (by omega) (by omega)]

/-! ## What a DCI carries -/

/-- The bits of the block that a DCI of format 1A stands for. -/
def tbs1a (dci : DlDci) : Int :=
  match dci.alloc with
  | .type2 n _ _ => lib.tbsFromIdx (dci.mcsIdx 0) n
  | .type0 _ => 0

/-- The DCI has an index of the table, and a block that holds the bytes. -/
structure Carries (dci : DlDci) (bytes : Nat) : Prop where
  index : dci.mcsIdx 0 < 27
  prbs : ∃ n lCrb rbStart, dci.alloc = .type2 n lCrb rbStart ∧ (n = 2 ∨ n = 3)
  size : (bytes * 8 : Nat) ≤ tbs1a lib dci

/-- `generate_format1a` refuses and leaves the DCI, or it returns the TBS of a DCI that carries
the bytes. -/
def Sound1a (bytes : Nat) (dci : DlDci) (r : Int × DlDci) : Prop :=
  r = (-1, dci) ∨ Carries lib r.2 bytes ∧ r.1 = tbs1a lib r.2

/-- Some block of the table holds the bytes. -/
def Fits1a (bytes : Nat) : Prop :=
  ∃ i : Nat, i < 27 ∧
    ((bytes * 8 : Nat) ≤ lib.tbsFromIdx i 2 ∨ (bytes * 8 : Nat) ≤ lib.tbsFromIdx i 3)

section Selection

variable (rbStart lCrb rv : Nat) (dci : DlDci) {lib} {bytes n mcs : Nat} {tbs found : Int}

theorem format1aTbs_none (h : format1aTbs lib tbs = none) {i : Nat} (hi : i < 27) :
    lib.tbsFromIdx i 2 < tbs ∧ lib.tbsFromIdx i 3 < tbs := by
  unfold format1aTbs at h
  have hround := List.findSome?_eq_none_iff.mp h i (List.mem_range.mpr hi)
  split_ifs at hround with h2 h3
  exact ⟨not_le.mp h2, not_le.mp h3⟩

/-- With an index found, the DCI says what was found. -/
theorem format1aOf_some (h : format1aTbs lib tbs = some (n, mcs, found)) :
    (format1aOf lib rbStart lCrb rv tbs dci).1 = found ∧
      (format1aOf lib rbStart lCrb rv tbs dci).2.mcsIdx 0 = mcs ∧
      (format1aOf lib rbStart lCrb rv tbs dci).2.alloc = .type2 n lCrb rbStart ∧
      tbs1a lib (format1aOf lib rbStart lCrb rv tbs dci).2 = found := by
  obtain ⟨hmcs, -, hfound, -⟩ := format1aTbs_some lib h
  have hidx : toU32 mcs = mcs := by
    unfold toU32
    omega
  simp only [format1aOf, h, hidx, tbs1a, Function.update_self, hfound, and_self]

/-- Without one, the DCI has MCS -1. -/
theorem format1aOf_none (h : format1aTbs lib tbs = none) :
    (format1aOf lib rbStart lCrb rv tbs dci).1 = tbs ∧
      (format1aOf lib rbStart lCrb rv tbs dci).2.mcsIdx 0 = 2 ^ 32 - 1 := by
  simp only [format1aOf, h, Function.update_self]
  exact ⟨trivial, rfl⟩

/-- An index was found where the DCI carries anything, and what is returned is its TBS. -/
theorem exists_of_carries
    (h : Carries lib (format1aOf lib rbStart lCrb rv tbs dci).2 bytes) :
    (format1aOf lib rbStart lCrb rv tbs dci).1 =
        tbs1a lib (format1aOf lib rbStart lCrb rv tbs dci).2 ∧ Fits1a lib bytes := by
  cases hfind : format1aTbs lib tbs with
  | none =>
    have hidx := h.index
    rw [(format1aOf_none rbStart lCrb rv dci hfind).2] at hidx
    omega
  | some r =>
    obtain ⟨n, mcs, found⟩ := r
    obtain ⟨hmcs, hn, hfound, -⟩ := format1aTbs_some lib hfind
    obtain ⟨hres, -, -, htbs⟩ := format1aOf_some rbStart lCrb rv dci hfind
    refine ⟨hres.trans htbs.symm, mcs, hmcs, ?_⟩
    have hsize := h.size
    rw [htbs, hfound] at hsize
    obtain rfl | rfl := hn
    · exact Or.inl hsize
    · exact Or.inr hsize

/-- Where the size is taken as it is, the DCI carries what the table has a block for. -/
theorem carries_of_fits (h : Fits1a lib bytes) :
    Carries lib (format1aOf lib rbStart lCrb rv (bytes * 8 : Nat) dci).2 bytes := by
  cases hfind : format1aTbs lib (bytes * 8 : Nat) with
  | none =>
    obtain ⟨i, hi, hsize⟩ := h
    have hnone := format1aTbs_none hfind hi
    omega
  | some r =>
    obtain ⟨n, mcs, found⟩ := r
    obtain ⟨hmcs, hn, -, hle⟩ := format1aTbs_some lib hfind
    obtain ⟨-, hidx, halloc, htbs⟩ := format1aOf_some rbStart lCrb rv dci hfind
    exact ⟨hidx ▸ hmcs, ⟨n, lCrb, rbStart, halloc, hn⟩, htbs ▸ hle⟩

theorem carries_iff : Carries lib (generateFormat1a lib rbStart lCrb bytes rv dci).2 bytes ↔
    Fits1a lib bytes := by
  have hbits : (bytes * 8 : Int) = (bytes * 8 : Nat) := by omega
  rw [generateFormat1a_eq, hbits]
  exact ⟨fun h => (exists_of_carries rbStart lCrb rv dci h).2, carries_of_fits rbStart lCrb rv dci⟩

/-- The selection is sound if and only if the table has a block for the bytes. -/
theorem sound1a_iff
    (htable : ∀ i : Nat, i < 27 → ∀ n, 0 ≤ lib.tbsFromIdx i n ∧ lib.tbsFromIdx i n < 2 ^ 31)
    (bytes : Nat) : Sound1a lib bytes dci (generateFormat1aInt lib rbStart lCrb bytes rv dci) ↔
      Fits1a lib bytes := by
  obtain ⟨tbs, htbs⟩ : ∃ tbs, Int.bmod (bytes * 8) (2 ^ 32) = tbs := ⟨_, rfl⟩
  unfold generateFormat1aInt
  rw [htbs]
  constructor
  · rintro (hrefused | ⟨hcarries, -⟩)
    · -- A result of -1 is neither a TBS of the table nor eight times a size.
      have hres : (format1aOf lib rbStart lCrb rv tbs dci).1 = -1 := by rw [hrefused]
      cases hfind : format1aTbs lib tbs with
      | none =>
        rw [(format1aOf_none rbStart lCrb rv dci hfind).1, ← htbs] at hres
        have hmod := Int.bmod_emod (x := bytes * 8) (m := 2 ^ 32)
        omega
      | some r =>
        obtain ⟨n, mcs, found⟩ := r
        obtain ⟨hmcs, -, hfound, -⟩ := format1aTbs_some lib hfind
        rw [(format1aOf_some rbStart lCrb rv dci hfind).1, hfound] at hres
        have := (htable mcs hmcs n).1
        omega
    · exact (exists_of_carries rbStart lCrb rv dci hcarries).2
  · intro h
    -- A size of the table does not wrap.
    obtain rfl : (bytes * 8 : Nat) = tbs := by
      obtain ⟨i, hi, hsize⟩ := h
      have h2 := (htable i hi 2).2
      have h3 := (htable i hi 3).2
      rw [← htbs, Int.bmod_eq_of_le (by omega) (by omega)]
      omega
    have hcarries := carries_of_fits rbStart lCrb rv dci h
    exact Or.inr ⟨hcarries, (exists_of_carries rbStart lCrb rv dci hcarries).1⟩

end Selection

/-! ## The calls -/

/-- The bytes behind an element of `dl_sched_bc`: a SIB's, or those of the paging message. -/
def BcPayload (s : Sched) (paging : Option Nat) (g : DlSchedBc) (bytes : Nat) : Prop :=
  match g.type with
  | .bcch => ∃ sib, s.cfg.sibs[g.index]? = some sib ∧ sib.len = bytes
  | .pcch => paging = some bytes

/-- The block holds the bytes, and `tbs` is its size in bytes, as it is for users and responses. -/
structure BcRight (g : DlSchedBc) (bytes : Nat) : Prop where
  carries : Carries lib g.dci bytes
  inBytes : 8 * g.tbs = tbs1a lib g.dci

/-- `tbs` is the bytes of an entry, and the block holds them. -/
structure RarRight (s : Sched) (g : DlSchedRar) : Prop where
  entry : ∃ i < schedMaxPendingRar, (s.pendingRar i).bufRar = g.tbs
  carries : Carries lib g.dci (toU32 g.tbs)

/-- An element is what `generate_format1a` makes of its bytes. -/
def BcMade (s : Sched) (paging : Option Nat) (g : DlSchedBc) : Prop :=
  ∃ bytes, 0 < bytes ∧ BcPayload s paging g bytes ∧
    ∃ rbStart lCrb rv dci, g.tbs = (generateFormat1a lib rbStart lCrb bytes rv dci).1 ∧
      g.dci = (generateFormat1a lib rbStart lCrb bytes rv dci).2

/-- What is so far: entries as at the start or without bytes, and elements that are made of
entries. -/
structure RarMade (s : Sched) (st : Sched × Elems DlSchedRar) : Prop where
  table : ∀ i, st.1.pendingRar i = s.pendingRar i ∨ (st.1.pendingRar i).bufRar = 0
  made : ∀ g ∈ st.2.done, (∃ i < schedMaxPendingRar, (s.pendingRar i).bufRar = g.tbs) ∧
    ∃ rbStart lCrb dci, g.dci = (generateFormat1a lib rbStart lCrb (toU32 g.tbs) 0 dci).2

variable {lib} {s : Sched} {paging : Option Nat}

theorem BcMade.sound {g : DlSchedBc} (h : BcMade lib s paging g) :
    ∃ bytes, BcPayload s paging g bytes ∧ (Carries lib g.dci bytes ↔ Fits1a lib bytes) ∧
      ¬ BcRight lib g bytes := by
  obtain ⟨bytes, hpos, hpayload, rbStart, lCrb, rv, dci, htbs, hdci⟩ := h
  have hsize := generateFormat1a_le lib rbStart lCrb bytes rv dci
  refine ⟨bytes, hpayload, hdci ▸ carries_iff rbStart lCrb rv dci, fun hright => ?_⟩
  have hcarries := hright.carries
  have hbytes := hright.inBytes
  rw [hdci] at hcarries hbytes
  -- The size in bits is returned, and reported.
  have hbits := (exists_of_carries rbStart lCrb rv dci hcarries).1
  rw [← generateFormat1a_eq, ← hbytes, htbs] at hbits
  omega

theorem BcBlock.made_of {s1 : Sched} {type : BcType} {bytes : Nat} {g : DlSchedBc}
    (h : BcBlock lib s1 type bytes g) (hpayload : BcPayload s paging g bytes) :
    BcMade lib s paging g := by
  obtain ⟨rv, dci, hmade⟩ := h.made
  exact ⟨bytes, Nat.pos_of_ne_zero h.nonempty, hpayload, _, _, rv, dci, hmade⟩

theorem sibSched_made {st : Sched × Elems DlSchedBc} {it : SibCfg × Nat}
    (hit : s.cfg.sibs[it.2]? = some it.1) (h : ∀ g ∈ st.2.done, BcMade lib s paging g) :
    ∀ g ∈ (sibSched lib st it).2.done, BcMade lib s paging g := by
  intro g hg
  rcases sibSched_new lib st it g hg with hg | ⟨hblock, hindex⟩
  · exact h g hg
  · refine hblock.made_of ?_
    unfold BcPayload
    rw [hblock.type, hindex]
    exact ⟨it.1, hit, rfl⟩

theorem pagingSched_made {st : Sched × Elems DlSchedBc}
    (h : ∀ g ∈ st.2.done, BcMade lib s paging g) :
    ∀ g ∈ (pagingSched lib paging st).2.done, BcMade lib s paging g := by
  intro g hg
  rcases pagingSched_new lib paging st g hg with hg | ⟨payload, hpaging, hblock⟩
  · exact h g hg
  · refine hblock.made_of ?_
    unfold BcPayload
    rw [hblock.type]
    exact hpaging

theorem dlSchedBc_made (s : Sched) (paging : Option Nat) :
    ∀ g ∈ (s.dlSchedBc lib paging).2, BcMade lib s paging g := by
  obtain ⟨s1, hs1⟩ : ∃ s1, s.cfg.sibs.zipIdx.foldl (sibWindow lib) s = s1 := ⟨_, rfl⟩
  have hcfg : s1.cfg = s.cfg := hs1 ▸ (sibWindows_rounds lib s.cfg.sibs.zipIdx s).setup.cfg
  have hsibs : ∀ (its : List (SibCfg × Nat)) (st : Sched × Elems DlSchedBc),
      (∀ it ∈ its, s.cfg.sibs[it.2]? = some it.1) → (∀ g ∈ st.2.done, BcMade lib s paging g) →
        ∀ g ∈ (its.foldl (sibSched lib) st).2.done, BcMade lib s paging g := by
    intro its
    induction its with
    | nil => exact fun st _ h => h
    | cons it its ih =>
      intro st hits h
      exact ih _ (fun it' hit' => hits it' (List.mem_cons_of_mem _ hit'))
        (sibSched_made (hits it List.mem_cons_self) h)
  simp only [dlSchedBc, hs1, hcfg]
  exact pagingSched_made (hsibs _ _ (fun it hit => List.mem_zipIdx_iff_getElem?.mp hit) (by simp))

theorem rarSched_made {st : Sched × Elems DlSchedRar} {i : Nat} (hi : i < schedMaxPendingRar)
    (h : RarMade lib s st) : RarMade lib s (rarSched lib st i) := by
  obtain ⟨s1, out⟩ := st
  by_cases hans : s1.Answers i
  · obtain ⟨rar, hdone, -, -, -, htbs, ⟨dci, hdci⟩, -, htable⟩ := rarSched_answers lib out hi hans
    refine ⟨fun j => ?_, ?_⟩
    · rw [htable, Function.update_apply]
      split_ifs
      · exact Or.inr rfl
      · exact h.table j
    · rw [hdone]
      intro g hg
      obtain hg | hg := List.mem_append.mp hg
      · exact h.made g hg
      · rw [List.mem_singleton.mp hg]
        obtain hsame | hzero := h.table i
        · exact ⟨⟨i, hi, by rw [htbs, hsame]⟩, _, _, dci, hdci⟩
        · exact absurd hans.1 (by rw [hzero]; exact lt_irrefl 0)
  · obtain ⟨hdone, -, htable⟩ := rarSched_silent lib out hans
    refine ⟨fun j => ?_, ?_⟩
    · rw [htable]
      split_ifs
      · rw [Function.update_apply]
        split_ifs
        · exact Or.inr rfl
        · exact h.table j
      · exact h.table j
    · rw [hdone]
      exact h.made

theorem dlSchedRar_made (s : Sched) :
    RarMade lib s ((List.range schedMaxPendingRar).foldl (rarSched lib) (s, ⟨[], default⟩)) := by
  have hall : ∀ (is : List Nat) (st : Sched × Elems DlSchedRar),
      (∀ i ∈ is, i < schedMaxPendingRar) → RarMade lib s st →
        RarMade lib s (is.foldl (rarSched lib) st) := by
    intro is
    induction is with
    | nil => exact fun st _ h => h
    | cons i is ih =>
      intro st his h
      exact ih _ (fun j hj => his j (List.mem_cons_of_mem _ hj))
        (rarSched_made (his i List.mem_cons_self) h)
  exact hall _ _ (fun i hi => List.mem_range.mp hi) ⟨fun i => Or.inl rfl, by simp⟩

/-- **Format 1A is sound** for the sizes that the table has a block for. A response is right for
just these; a SIB or a paging message never is, since its size is reported in bits. -/
theorem format1a_sound_iff (lib : Lib)
    (htable : ∀ i : Nat, i < 27 → ∀ n, 0 ≤ lib.tbsFromIdx i n ∧ lib.tbsFromIdx i n < 2 ^ 31) :
    (∀ rbStart lCrb bytes rv dci,
      Sound1a lib bytes dci (generateFormat1aInt lib rbStart lCrb bytes rv dci) ↔
        Fits1a lib bytes) ∧
    (∀ s paging, ∀ g ∈ (dlSchedBc lib s paging).2, ∃ bytes, BcPayload s paging g bytes ∧
      (Carries lib g.dci bytes ↔ Fits1a lib bytes) ∧ ¬ BcRight lib g bytes) ∧
    (∀ s, ∀ g ∈ (dlSchedRar lib s).2, RarRight lib s g ↔ Fits1a lib (toU32 g.tbs)) := by
  refine ⟨fun rbStart lCrb bytes rv dci => sound1a_iff rbStart lCrb rv dci htable bytes,
    fun s paging g hg => (dlSchedBc_made s paging g hg).sound, fun s g hg => ?_⟩
  obtain ⟨hentry, rbStart, lCrb, dci, hdci⟩ := (dlSchedRar_made s).made g hg
  have hiff : Carries lib g.dci (toU32 g.tbs) ↔ Fits1a lib (toU32 g.tbs) :=
    hdci ▸ carries_iff rbStart lCrb 0 dci
  exact ⟨fun h => hiff.mp h.carries, fun h => ⟨hentry, hiff.mpr h⟩⟩

/-! ## The table of TS 36.213 -/

/-- Its columns of 2 and 3 PRBs. -/
def tbs2Prb : List Int :=
  [32, 56, 72, 104, 120, 144, 176, 224, 256, 296, 328, 376, 440, 488, 552, 600, 632, 696, 776, 840,
    904, 1000, 1064, 1128, 1192, 1256, 1480]

def tbs3Prb : List Int :=
  [56, 88, 144, 176, 208, 224, 256, 328, 392, 456, 504, 584, 680, 744, 840, 904, 968, 1064, 1160,
    1288, 1384, 1480, 1608, 1736, 1800, 1864, 2216]

def tableLib : Lib :=
  { exampleLib with
    tbsFromIdx := fun idx nofPrb =>
      if nofPrb = 2 then tbs2Prb.getD idx.toNat 0
      else if nofPrb = 3 then tbs3Prb.getD idx.toNat 0 else 0 }

theorem tableLib_range (i : Nat) (hi : i < 27) (n : Nat) :
    0 ≤ tableLib.tbsFromIdx i n ∧ tableLib.tbsFromIdx i n < 2 ^ 31 := by
  simp only [tableLib]
  split_ifs
  · revert i
    decide
  · revert i
    decide
  · decide

/-- The largest size that there is a block for. -/
theorem format1a_sound_largest :
    Sound1a tableLib 277 {} (generateFormat1aInt tableLib 0 4 277 0 {}) :=
  ((format1a_sound_iff tableLib tableLib_range).1 0 4 277 0 {}).mpr
    ⟨26, by decide, Or.inr (by decide)⟩

theorem not_format1a_sound : ¬ ∀ lib : Lib,
    (∀ i j : Nat, i ≤ j → j < 27 → ∀ n, lib.tbsFromIdx i n ≤ lib.tbsFromIdx j n) →
      ∀ rbStart lCrb bytes rv dci,
        Sound1a lib bytes dci (generateFormat1aInt lib rbStart lCrb bytes rv dci) := by
  intro h
  have h2 : ∀ j : Nat, j < 27 → ∀ i : Nat, i ≤ j →
      tbs2Prb.getD (i : Int).toNat 0 ≤ tbs2Prb.getD (j : Int).toNat 0 := by decide
  have h3 : ∀ j : Nat, j < 27 → ∀ i : Nat, i ≤ j →
      tbs3Prb.getD (i : Int).toNat 0 ≤ tbs3Prb.getD (j : Int).toNat 0 := by decide
  have hmono : ∀ i j : Nat, i ≤ j → j < 27 → ∀ n,
      tableLib.tbsFromIdx i n ≤ tableLib.tbsFromIdx j n := by
    intro i j hij hj n
    simp only [tableLib]
    split_ifs
    · exact h2 j hj i hij
    · exact h3 j hj i hij
    · exact le_rfl
  obtain hrefused | ⟨hcarries, -⟩ := h tableLib hmono 0 4 278 0 {}
  · exact absurd (congrArg Prod.fst hrefused) (by decide)
  · exact absurd hcarries.index (by decide)

end Srsenb.Mac.Sched
