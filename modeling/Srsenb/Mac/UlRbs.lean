import Srsenb.Mac.DlRounds
import Srsenb.Mac.HarqFeedback
import Srsenb.Mac.UlMetricSpec

/-! # Uplink resource blocks of one TTI

PRBs are reserved for PRACH, Msg3 and PUCCH, then the metric hands out the rest, and the Msg3 user
transmits in the PRBs that were reserved for it. -/

open Srsenb.Pool

namespace Srsenb.Mac

theorem SameAlloc.fits {N : Nat} {u u' : SchedUe} (h : SameAlloc u u') (hu : u.UlFits N) :
    u'.UlFits N := by
  intro pid
  rw [h.2 pid]
  exact hu pid

/-- The PRBs of Msg3. -/
def PendingMsg3.alloc (m : PendingMsg3) : UlAlloc := ⟨m.nPrb, m.L⟩

namespace Sched

/-! ## The PUSCH of one user -/

/-- Nothing is added to the results, or a grant of `a` to the user. -/
def AddsGrant (out out' : Elems UlSchedData) (rnti : Nat) (a : UlAlloc) : Prop :=
  out'.done = out.done ∨ ∃ d, out'.done = out.done ++ [d] ∧ d.rnti = rnti ∧ d.alloc = a

variable (lib : Lib) (tti : Nat) {s : Sched} {u : SchedUe} {pid : Pid} {k : Nat}
  {out : Elems UlSchedData}

theorem puschGrant_spec (u : SchedUe) (pid : Pid) (isNewtx : Bool) (tti : Nat)
    (out : Elems UlSchedData) (slot : UlSchedData) :
    SameAlloc u (puschGrant lib u pid isNewtx tti out slot).2 ∧
      AddsGrant out (puschGrant lib u pid isNewtx tti out slot).1 u.rnti
        (u.ulHarq pid).allocation := by
  have hcqi := SameAlloc.needsCqi lib (u := u) tti true
  obtain ⟨hsame, hgrant⟩ := generateFormat0_spec lib (u.needsCqi lib tti true).2 pid slot tti
    (u.needsCqi lib tti true).1
  simp only [puschGrant]
  split_ifs with htbs hnew
  · obtain ⟨hrnti, halloc⟩ := hgrant htbs
    exact ⟨hcqi.trans hsame, Or.inr ⟨_, rfl, hrnti.trans hcqi.1, halloc.trans (hcqi.2 pid)⟩⟩
  · obtain ⟨hrnti, halloc⟩ := hgrant htbs
    exact ⟨hcqi.trans hsame, Or.inr ⟨_, rfl, hrnti.trans hcqi.1, halloc.trans (hcqi.2 pid)⟩⟩
  · exact ⟨hcqi.trans hsame, Or.inl rfl⟩

theorem puschTx_spec (s : Sched) (tti : Nat) (out : Elems UlSchedData) (u : SchedUe) (isRar : Bool)
    (pid : Pid) :
    let r := s.puschTx lib tti out u isRar pid
    Places s r.1.1 ∧ SameAlloc u r.2 ∧ AddsGrant out r.1.2 u.rnti (u.ulHarq pid).allocation := by
  intro r
  -- The maximum is set before anything else.
  obtain ⟨v, hv⟩ : ∃ v, (if (u.ulHarq pid).isEmpty 0 = true then
      u.setUl pid ((u.ulHarq pid).setMaxRetx
        (if isRar = true then s.cfg.maxharqMsg3tx else u.cfg.maxharqTx)) else u) = v := ⟨_, rfl⟩
  have hsame : SameAlloc u v := by
    rw [← hv]
    by_cases hempty : (u.ulHarq pid).isEmpty 0 = true
    · rw [if_pos hempty]
      exact SameAlloc.setUl rfl
    · rw [if_neg hempty]
      exact SameAlloc.refl u
  have hgrant : ∀ (out' : Elems UlSchedData) isNewtx slot, out'.done = out.done →
      SameAlloc u (puschGrant lib v pid isNewtx tti out' slot).2 ∧
        AddsGrant out (puschGrant lib v pid isNewtx tti out' slot).1 u.rnti
          (u.ulHarq pid).allocation := by
    intro out' isNewtx slot hout
    obtain ⟨h1, h2⟩ := puschGrant_spec lib v pid isNewtx tti out' slot
    refine ⟨hsame.trans h1, ?_⟩
    rw [AddsGrant, hout, hsame.1, hsame.2 pid] at h2
    exact h2
  simp only [r, puschTx, hv]
  split_ifs with hpdcch
  · obtain ⟨t, n, hdci, hg⟩ := generateDci_spec lib s
      (v.getLocations s.currentCfi s.sfIdx)
      (v.getAggrLevel lib (lib.dciFormatSizeof .format0 s.cfg.cell.nofPrb s.cfg.cell.nofPorts))
      fun _ => false
    split
    · rename_i s1 hs1
      rw [hs1] at hdci
      exact ⟨⟨t, n, hdci, hg⟩, hsame.trans (SameAlloc.setUl rfl), Or.inl rfl⟩
    · rename_i loc s1 hs1
      rw [hs1] at hdci
      exact ⟨⟨t, n, hdci, hg⟩, hgrant out _ _ rfl⟩
  · exact ⟨⟨_, _, rfl, .refl _⟩, hgrant out _ _ rfl⟩

/-- Whether Msg3 of user `k` is to come in this TTI. -/
def HasMsg3 (m : PendingMsg3) (k : Nat) : Prop := m.enabled = true ∧ m.rnti = k

instance (m : PendingMsg3) (k : Nat) : Decidable (HasMsg3 m k) :=
  inferInstanceAs (Decidable (_ ∧ _))

/-- The PRBs that a user may be granted: those of its Msg3, or the metric's. -/
def grantableTo (m : PendingMsg3) (k : Nat) (u : SchedUe) : Option UlAlloc :=
  if HasMsg3 m k then some m.alloc
  else u.ulNextAlloc.map fun pid => (u.ulHarq pid).allocation

theorem puschUser_spec (s : Sched) (out : Elems UlSchedData) (tti k : Nat) (u : SchedUe) :
    let m := s.pendingMsg3 (tti % 10)
    let r := puschUser lib tti (s, out) k u
    Places { s with pendingMsg3 := if HasMsg3 m k then
        Function.update s.pendingMsg3 (tti % 10) { m with enabled := false } else s.pendingMsg3 }
        r.1.1 ∧
      r.2.rnti = u.rnti ∧
      (∀ N, u.UlFits N → (HasMsg3 m k → m.alloc.Fits N) → r.2.UlFits N) ∧
      (r.1.2.done = out.done ∨
        ∃ a, grantableTo m k u = some a ∧ AddsGrant out r.1.2 u.rnti a) := by
  intro m r
  by_cases hm : HasMsg3 m k
  · have hproc : (m.enabled && decide (m.rnti = k)) = true := by simpa [HasMsg3] using hm
    simp only [r, puschUser, puschProc, m, hproc, if_true, grantableTo, if_pos hm]
    obtain ⟨hplaces, hsame, hadds⟩ := puschTx_spec lib
      { s with pendingMsg3 := Function.update s.pendingMsg3 (tti % 10) { m with enabled := false } }
      tti out
      (u.setUl (SchedUe.getUlHarq tti)
        (((u.ulHarq (SchedUe.getUlHarq tti)).setAlloc m.alloc).setRarMcs m.mcs))
      true (SchedUe.getUlHarq tti)
    refine ⟨hplaces, hsame.1, fun N hu hmf => ?_, Or.inr ⟨_, rfl, ?_⟩⟩
    · exact hsame.fits (UlMetric.fits_setUl hu (hmf hm))
    · rw [SchedUe.setUl_ulHarq] at hadds
      exact hadds
  · have hproc : ¬ (m.enabled && decide (m.rnti = k)) = true := by simpa [HasMsg3] using hm
    simp only [r, puschUser, puschProc, m, hproc, grantableTo, if_neg hm]
    cases hnext : u.ulNextAlloc with
    | none => exact ⟨⟨_, _, rfl, .refl _⟩, rfl, fun N hu _ => hu, Or.inl rfl⟩
    | some pid =>
      obtain ⟨hplaces, hsame, hadds⟩ := puschTx_spec lib s tti out u false pid
      exact ⟨hplaces, hsame.1, fun N hu _ => hsame.fits hu, Or.inr ⟨_, rfl, hadds⟩⟩

/-! ## All users -/

/-- What the code relies on from the cell: PRACH and PUCCH are inside of it. -/
structure CellOk (cfg : CellCfg) : Prop where
  nofPrb : cfg.cell.nofPrb < 2 ^ 32
  prach : cfg.prachFreqOffset + 6 ≤ cfg.cell.nofPrb
  pucch_nonneg : 0 ≤ cfg.nrbPucch
  pucch_le : cfg.nrbPucch ≤ cfg.cell.nofPrb

/-- The users are under their RNTI and keep allocations inside the cell; the PRBs of a pending
Msg3 are the ones of the response. -/
structure UlOk (s : Sched) : Prop where
  msg3 : ∀ i, (s.pendingMsg3 i).enabled = true → (s.pendingMsg3 i).alloc = ⟨2, 3⟩
  users : ∀ (k : Nat) (u : SchedUe), s.ueDb[k]? = some u →
    u.rnti = k ∧ u.UlFits s.cfg.cell.nofPrb

/-- The users in `done` have been granted at most what was theirs, without overlap. -/
structure Granted (s0 : Sched) (tti : Nat) (done : List Nat) (s : Sched)
    (out : Elems UlSchedData) (db : StdMap SchedUe) : Prop where
  cfg : s.cfg = s0.cfg
  msg3 : s.pendingMsg3 = s0.pendingMsg3 ∨
    ((s0.pendingMsg3 (tti % 10)).rnti ∈ done ∧
      s.pendingMsg3 = Function.update s0.pendingMsg3 (tti % 10)
        { s0.pendingMsg3 (tti % 10) with enabled := false })
  rest : ∀ k ∉ done, db[k]? = s0.ueDb[k]?
  users : ∀ (k : Nat) (u : SchedUe), db[k]? = some u → u.rnti = k ∧ u.UlFits s0.cfg.cell.nofPrb
  mine : ∀ d ∈ out.done, d.rnti ∈ done ∧ ∃ u, s0.ueDb[d.rnti]? = some u ∧
    grantableTo (s0.pendingMsg3 (tti % 10)) d.rnti u = some d.alloc
  excl : out.done.Pairwise fun d e => Disjoint d.alloc.prbs e.alloc.prbs

/-- No two users may be granted a common PRB. -/
def Separate (m : PendingMsg3) (db : StdMap SchedUe) : Prop :=
  ∀ (k l : Nat) (u v : SchedUe) (a b : UlAlloc), k ≠ l → db[k]? = some u → db[l]? = some v →
    grantableTo m k u = some a → grantableTo m l v = some b → Disjoint a.prbs b.prbs

/-- The Msg3 of a user that was not visited is as it was at the start. -/
theorem Granted.msg3_at {s0 : Sched} {done : List Nat} {db : StdMap SchedUe}
    (h : Granted s0 tti done s out db) (hk : k ∉ done) :
    (HasMsg3 (s.pendingMsg3 (tti % 10)) k ↔ HasMsg3 (s0.pendingMsg3 (tti % 10)) k) ∧
      (HasMsg3 (s0.pendingMsg3 (tti % 10)) k → s.pendingMsg3 = s0.pendingMsg3) := by
  rcases h.msg3 with heq | ⟨hdone, heq⟩
  · rw [heq]
    exact ⟨Iff.rfl, fun _ => rfl⟩
  · have hno : ¬ HasMsg3 (s0.pendingMsg3 (tti % 10)) k := fun hm => hk (hm.2 ▸ hdone)
    rw [heq]
    refine ⟨⟨fun hm => ?_, fun hm => absurd hm hno⟩, fun hm => absurd hm hno⟩
    simp [HasMsg3] at hm

theorem Granted.grantableTo_at {s0 : Sched} {done : List Nat} {db : StdMap SchedUe}
    (h : Granted s0 tti done s out db) (hk : k ∉ done) (u : SchedUe) :
    grantableTo (s.pendingMsg3 (tti % 10)) k u =
      grantableTo (s0.pendingMsg3 (tti % 10)) k u := by
  have hmine := h.msg3_at tti hk
  by_cases hm : HasMsg3 (s0.pendingMsg3 (tti % 10)) k
  · rw [hmine.2 hm]
  · simp only [grantableTo, if_neg hm, if_neg (mt hmine.1.mp hm)]

theorem granted_step {s0 : Sched} {done : List Nat} {db : StdMap SchedUe}
    (hsep : Separate (s0.pendingMsg3 (tti % 10)) s0.ueDb)
    (hfit : (s0.pendingMsg3 (tti % 10)).enabled = true →
      (s0.pendingMsg3 (tti % 10)).alloc.Fits s0.cfg.cell.nofPrb)
    (h : Granted s0 tti done s out db) (hk : k ∉ done) (hu : db[k]? = some u) :
    let r := puschUser lib tti (s, out) k u
    Granted s0 tti (k :: done) r.1.1 r.1.2 (db.insert k r.2) := by
  intro r
  obtain ⟨⟨t, n, hplaces, -⟩, hrnti, hfits, hgrant⟩ := puschUser_spec lib s out tti k u
  have hcfg : r.1.1.cfg = s.cfg := (congrArg Sched.cfg hplaces :)
  have hmsg : r.1.1.pendingMsg3 = if HasMsg3 (s.pendingMsg3 (tti % 10)) k then
      Function.update s.pendingMsg3 (tti % 10) { s.pendingMsg3 (tti % 10) with enabled := false }
      else s.pendingMsg3 := (congrArg Sched.pendingMsg3 hplaces :)
  have hu0 : s0.ueDb[k]? = some u := by rw [← h.rest k hk, hu]
  obtain ⟨hrk, huf⟩ := h.users k u hu
  have hmine := h.msg3_at tti hk
  have hto := h.grantableTo_at tti hk u
  have hnew : r.1.2.done = out.done ∨ ∃ d, r.1.2.done = out.done ++ [d] ∧ d.rnti = k ∧
      grantableTo (s0.pendingMsg3 (tti % 10)) k u = some d.alloc := by
    rcases hgrant with hsame | ⟨a, ha, hadds⟩
    · exact Or.inl hsame
    · rcases hadds with hsame | ⟨d, hd, hdr, hda⟩
      · exact Or.inl hsame
      · exact Or.inr ⟨d, hd, hdr.trans hrk, by rw [← hto, ha, hda]⟩
  refine ⟨hcfg.trans h.cfg, ?_, ?_, ?_, ?_, ?_⟩
  · by_cases hm : HasMsg3 (s0.pendingMsg3 (tti % 10)) k
    · rw [if_pos (hmine.1.mpr hm), hmine.2 hm] at hmsg
      exact Or.inr ⟨hm.2 ▸ List.mem_cons_self, hmsg⟩
    · rw [if_neg (mt hmine.1.mp hm)] at hmsg
      rw [hmsg]
      exact h.msg3.imp_right fun hd => ⟨List.mem_cons_of_mem k hd.1, hd.2⟩
  · intro l hl
    rw [StdMap.getElem?_insert, if_neg (Ne.symm (List.ne_of_not_mem_cons hl))]
    exact h.rest l (List.not_mem_of_not_mem_cons hl)
  · intro l v hl
    rw [StdMap.getElem?_insert] at hl
    split_ifs at hl with hkl
    · subst hkl
      obtain rfl := Option.some.inj hl
      refine ⟨hrnti.trans hrk, hfits _ huf fun hm => ?_⟩
      rw [hmine.2 (hmine.1.mp hm)]
      exact hfit (hmine.1.mp hm).1
    · exact h.users l v hl
  · intro d hd
    have hold : d ∈ out.done → d.rnti ∈ k :: done ∧ ∃ u, s0.ueDb[d.rnti]? = some u ∧
        grantableTo (s0.pendingMsg3 (tti % 10)) d.rnti u = some d.alloc :=
      fun hd => ⟨List.mem_cons_of_mem k (h.mine d hd).1, (h.mine d hd).2⟩
    rcases hnew with hsame | ⟨e, he, her, hea⟩
    · exact hold (hsame ▸ hd)
    · rw [he, List.mem_append, List.mem_singleton] at hd
      rcases hd with hd | rfl
      · exact hold hd
      · rw [her]
        exact ⟨List.mem_cons_self, u, hu0, hea⟩
  · rcases hnew with hsame | ⟨e, he, her, hea⟩
    · rw [hsame]
      exact h.excl
    · rw [he, List.pairwise_append]
      refine ⟨h.excl, List.pairwise_singleton _ _, fun d hd e' he' => ?_⟩
      obtain rfl := List.mem_singleton.mp he'
      obtain ⟨hdone, v, hv, hva⟩ := h.mine d hd
      have hne : d.rnti ≠ k := fun heq => hk (heq ▸ hdone)
      exact hsep d.rnti k v u _ _ hne hv hu0 hva hea

/-! ## Reservations -/

/-- The PRBs reserved for PRACH, Msg3 and PUCCH in a TTI. -/
def reserved (lib : Lib) (cfg : CellCfg) (m : PendingMsg3) (tti : Nat) : Set Nat :=
  { n | (lib.prachTtiOpportunity cfg.prachConfig tti = true ∧
        n ∈ (⟨cfg.prachFreqOffset, 6⟩ : UlAlloc).prbs) ∨
      (m.enabled = true ∧ n ∈ m.alloc.prbs) ∨
      n < cfg.nrbPucch.toNat ∨
      (cfg.cell.nofPrb - cfg.nrbPucch.toNat ≤ n ∧ n < cfg.cell.nofPrb) }

/-- A step of the reservations marks `P`, and changes only the table. -/
structure Reserves (s s' : Sched) (P : Set Nat) : Prop where
  cfg : s'.cfg = s.cfg
  pendingMsg3 : s'.pendingMsg3 = s.pendingMsg3
  ueDb : s'.ueDb = s.ueDb
  nofRb : s'.ulMetric.nofRb = s.ulMetric.nofRb
  currentTti : s'.currentTti = s.currentTti
  grow : s.ulMetric.used ⊆ s'.ulMetric.used
  marks : P ⊆ s'.ulMetric.used

theorem Reserves.trans {s' s'' : Sched} {P Q : Set Nat} (h : Reserves s s' P)
    (h' : Reserves s' s'' Q) : Reserves s s'' (P ∪ Q) where
  cfg := h'.cfg.trans h.cfg
  pendingMsg3 := h'.pendingMsg3.trans h.pendingMsg3
  ueDb := h'.ueDb.trans h.ueDb
  nofRb := h'.nofRb.trans h.nofRb
  currentTti := h'.currentTti.trans h.currentTti
  grow := h.grow.trans h'.grow
  marks := Set.union_subset (h.marks.trans h'.grow) h'.marks

theorem reserves_reserve {a : UlAlloc} (hN : s.cfg.cell.nofPrb < 2 ^ 32)
    (hf : a.Fits s.cfg.cell.nofPrb) : Reserves s (s.reserve a) a.prbs where
  cfg := rfl
  pendingMsg3 := rfl
  ueDb := rfl
  nofRb := rfl
  currentTti := rfl
  grow := UlMetric.updateAllocation_grow
  marks := by
    rw [reserve, UlMetric.updateAllocation_used hN hf]
    exact Set.subset_union_right

theorem reserves_if {p : Prop} [Decidable p] {a : UlAlloc} (hN : s.cfg.cell.nofPrb < 2 ^ 32)
    (hf : p → a.Fits s.cfg.cell.nofPrb) :
    Reserves s (if p then s.reserve a else s) { n | p ∧ n ∈ a.prbs } := by
  split_ifs with hp
  · exact { reserves_reserve hN (hf hp) with
            marks := fun n hn => (reserves_reserve hN (hf hp)).marks hn.2 }
  · exact ⟨rfl, rfl, rfl, rfl, rfl, subset_rfl, fun n hn => absurd hn.1 hp⟩

theorem msg3_fits (hc : CellOk s.cfg) (h : UlOk s) (i : Nat)
    (hen : (s.pendingMsg3 i).enabled = true) :
    (s.pendingMsg3 i).alloc.Fits s.cfg.cell.nofPrb := by
  have := hc.prach
  rw [h.msg3 i hen]
  simp only [UlAlloc.Fits]
  omega

theorem reserves_prach (hc : CellOk s.cfg) :
    Reserves s (s.reservePrach lib tti)
      { n | lib.prachTtiOpportunity s.cfg.prachConfig tti = true ∧
        n ∈ (⟨s.cfg.prachFreqOffset, 6⟩ : UlAlloc).prbs } :=
  reserves_if hc.nofPrb fun _ => hc.prach

theorem reserves_msg3 (hc : CellOk s.cfg) (h : UlOk s) :
    Reserves s (s.reserveMsg3 tti)
      { n | (s.pendingMsg3 (tti % 10)).enabled = true ∧
        n ∈ (s.pendingMsg3 (tti % 10)).alloc.prbs } :=
  reserves_if hc.nofPrb (msg3_fits hc h (tti % 10))

theorem reserves_pucch (hc : CellOk s.cfg) :
    Reserves s (s.reservePucch lib)
      { n | n < s.cfg.nrbPucch.toNat ∨
        (s.cfg.cell.nofPrb - s.cfg.nrbPucch.toNat ≤ n ∧ n < s.cfg.cell.nofPrb) } := by
  have hN := hc.nofPrb
  have h0 := hc.pucch_nonneg
  have h1 := hc.pucch_le
  have hstart : toU32 (s.cfg.cell.nofPrb - s.cfg.nrbPucch) =
      s.cfg.cell.nofPrb - s.cfg.nrbPucch.toNat := by
    unfold toU32
    omega
  have hlow : Reserves s (s.reserve ⟨0, s.cfg.nrbPucch.toNat⟩) _ :=
    reserves_reserve hN (by simp only [UlAlloc.Fits]; omega)
  have hhigh : Reserves (s.reserve ⟨0, s.cfg.nrbPucch.toNat⟩) _ _ :=
    reserves_reserve (a := ⟨s.cfg.cell.nofPrb - s.cfg.nrbPucch.toNat, s.cfg.nrbPucch.toNat⟩)
      (s := s.reserve ⟨0, s.cfg.nrbPucch.toNat⟩) hN (by
        simp only [UlAlloc.Fits, reserve]
        omega)
  have hall := hlow.trans hhigh
  rw [reservePucch, if_pos h0, hstart]
  refine { hall with marks := Set.Subset.trans ?_ hall.marks }
  rintro n (hn | ⟨hn1, hn2⟩)
  · exact Or.inl ⟨Nat.zero_le n, by simpa using hn⟩
  · refine Or.inr ⟨hn1, ?_⟩
    simp only
    omega

/-- The three reservations mark all that is reserved. -/
theorem reserves_all (hc : CellOk s.cfg) (h : UlOk s) :
    Reserves s (((s.reservePrach lib tti).reserveMsg3 tti).reservePucch lib)
      (reserved lib s.cfg (s.pendingMsg3 (tti % 10)) tti) := by
  have h1 := reserves_prach lib tti hc
  obtain ⟨s1, hs1⟩ : ∃ s1, s.reservePrach lib tti = s1 := ⟨_, rfl⟩
  rw [hs1] at h1 ⊢
  have h2 := reserves_msg3 tti (s := s1) (h1.cfg ▸ hc)
    ⟨h1.pendingMsg3 ▸ h.msg3, by rw [h1.ueDb, h1.cfg]; exact h.users⟩
  obtain ⟨s2, hs2⟩ : ∃ s2, s1.reserveMsg3 tti = s2 := ⟨_, rfl⟩
  rw [hs2] at h2 ⊢
  have hcfg2 : s2.cfg = s.cfg := h2.cfg.trans h1.cfg
  have h3 := reserves_pucch lib (s := s2) (hcfg2 ▸ hc)
  rw [h1.pendingMsg3] at h2
  rw [hcfg2] at h3
  have hall := (h1.trans h2).trans h3
  refine { hall with marks := Set.Subset.trans ?_ hall.marks }
  rintro n (hn | hn | hn)
  · exact Or.inl (Or.inl hn)
  · exact Or.inl (Or.inr hn)
  · exact Or.inr hn

section Grantable

variable {m : PendingMsg3} {u : SchedUe} {a : UlAlloc} {db : StdMap SchedUe}

/-- The PRBs of a Msg3 are reserved. -/
theorem grantableTo_msg3 (cfg : CellCfg) (hm : HasMsg3 m k) (ha : grantableTo m k u = some a) :
    a.prbs ⊆ reserved lib cfg m tti := by
  rw [grantableTo, if_pos hm, Option.some.injEq] at ha
  subst ha
  exact fun n hn => Or.inr (Or.inl ⟨hm.1, hn⟩)

/-- What any other user may be granted is what the metric gave it. -/
theorem grantableTo_metric (hno : ¬ HasMsg3 m k) (hu : db[k]? = some u)
    (ha : grantableTo m k u = some a) : UlMetric.granted db k = some a.prbs := by
  rw [grantableTo, if_neg hno, Option.map_eq_some_iff] at ha
  obtain ⟨pid, hpid, rfl⟩ := ha
  simp [UlMetric.granted, hu, hpid]

/-- The metric separates its users, and stays clear of the Msg3. -/
theorem separate_of_clear {R : Set Nat}
    (hmsg3 : ∀ k u a, HasMsg3 m k → grantableTo m k u = some a → a.prbs ⊆ R)
    (hclear : ∀ (k : Nat) (u : SchedUe) (a : UlAlloc), db[k]? = some u → ¬ HasMsg3 m k →
      grantableTo m k u = some a → Disjoint a.prbs R)
    (hexcl : ∀ k l A B, k ≠ l → UlMetric.granted db k = some A → UlMetric.granted db l = some B →
      Disjoint A B) : Separate m db := by
  intro k l u v a b hne hu hv ha hb
  by_cases hk : HasMsg3 m k
  · have hl : ¬ HasMsg3 m l := fun hl => hne (hk.2.symm.trans hl.2)
    exact ((hclear l v b hv hl hb).mono_right (hmsg3 k u a hk ha)).symm
  · by_cases hl : HasMsg3 m l
    · exact (hclear k u a hu hk ha).mono_right (hmsg3 l v b hl hb)
    · exact hexcl k l _ _ hne (grantableTo_metric hk hu ha) (grantableTo_metric hl hv hb)

end Grantable

/-- After the metric, no two users may be granted a common PRB, and all that the metric gave is
clear of what was reserved. -/
theorem ulAllocate_spec (hc : CellOk s.cfg) (h : UlOk s)
    (hm : s.ulMetric.nofRb = s.cfg.cell.nofPrb) :
    let s' := s.ulAllocate lib tti
    s'.cfg = s.cfg ∧ s'.pendingMsg3 = s.pendingMsg3 ∧ UlOk s' ∧
      Separate (s.pendingMsg3 (tti % 10)) s'.ueDb ∧
      ∀ (k : Nat) (u : SchedUe) (a : UlAlloc), s'.ueDb[k]? = some u →
        ¬ HasMsg3 (s.pendingMsg3 (tti % 10)) k →
        grantableTo (s.pendingMsg3 (tti % 10)) k u = some a →
        Disjoint a.prbs (reserved lib s.cfg (s.pendingMsg3 (tti % 10)) tti) := by
  intro s'
  have hres := reserves_all lib tti hc h
  obtain ⟨s1, hs1⟩ : ∃ s1, ((s.reservePrach lib tti).reserveMsg3 tti).reservePucch lib = s1 :=
    ⟨_, rfl⟩
  rw [hs1] at hres
  have hshared := UlMetric.newTti_shared lib s1.ulMetric s1.ueDb
    s1.currentTti hc.nofPrb (hres.nofRb.trans hm) (by
      rw [hres.ueDb]
      exact fun k u hu => (h.users k u hu).2)
  have hs' : s' = { s1 with
      ulMetric := (s1.ulMetric.newTti lib s1.ueDb s1.currentTti).1
      ueDb := (s1.ulMetric.newTti lib s1.ueDb s1.currentTti).2 } := by
    simp only [s', ulAllocate, hs1]
  obtain ⟨⟨m1, db1⟩, hnew⟩ : ∃ r, s1.ulMetric.newTti lib s1.ueDb s1.currentTti = r := ⟨_, rfl⟩
  rw [hnew] at hs' hshared
  simp only at hs' hshared
  have hclear : ∀ (k : Nat) (u : SchedUe) (a : UlAlloc), db1[k]? = some u →
      ¬ HasMsg3 (s.pendingMsg3 (tti % 10)) k →
      grantableTo (s.pendingMsg3 (tti % 10)) k u = some a →
      Disjoint a.prbs (reserved lib s.cfg (s.pendingMsg3 (tti % 10)) tti) := by
    intro k u a hu hno ha
    exact (hshared.held.fresh k trivial _ (grantableTo_metric hno hu ha)).mono_right hres.marks
  rw [hs']
  refine ⟨hres.cfg, hres.pendingMsg3, ⟨hres.pendingMsg3 ▸ h.msg3, ?_⟩, ?_, hclear⟩
  · intro k u hu
    have husers := hshared.users k
    rw [hres.ueDb, hu] at husers
    cases hk : s.ueDb[k]? with
    | none => simp [hk] at husers
    | some v =>
      rw [hk] at husers
      refine ⟨(Option.some.inj husers).trans (h.users k v hk).1, ?_⟩
      rw [hres.cfg]
      exact hshared.fits k u hu
  · exact separate_of_clear (fun k u a => grantableTo_msg3 lib tti s.cfg) hclear
      fun k l A B hne => hshared.held.excl k trivial l trivial hne A B

/-! ## The whole call -/

/-- The grants of a call share no PRB, lie inside the cell, and stay clear of what was reserved,
the Msg3 grant apart. -/
structure UlExclusive (lib : Lib) (cfg : CellCfg) (m : PendingMsg3) (tti : Nat)
    (res : UlSchedRes) : Prop where
  disjoint : res.pusch.Pairwise fun d e => Disjoint d.alloc.prbs e.alloc.prbs
  inside : ∀ d ∈ res.pusch, d.alloc.Fits cfg.cell.nofPrb
  clear : ∀ d ∈ res.pusch, ¬ HasMsg3 m d.rnti → Disjoint d.alloc.prbs (reserved lib cfg m tti)

theorem grantableTo_fits (hc : CellOk s.cfg) (h : UlOk s) {a : UlAlloc} {i : Nat}
    (hu : u.UlFits s.cfg.cell.nofPrb) (ha : grantableTo (s.pendingMsg3 i) k u = some a) :
    a.Fits s.cfg.cell.nofPrb := by
  unfold grantableTo at ha
  split_ifs at ha with hm
  · rw [← Option.some.inj ha]
    exact msg3_fits hc h i hm.1
  · obtain ⟨pid, -, rfl⟩ := Option.map_eq_some_iff.mp ha
    exact hu pid

/-- The loop over the users, from the state that the metric leaves. -/
theorem pusch_granted (hc : CellOk s.cfg) (h : UlOk s)
    (hsep : Separate (s.pendingMsg3 (tti % 10)) s.ueDb) :
    let r := s.ueDb.visit (puschUser lib tti) s.ueDb.keys (s, ⟨[], default⟩)
    ∃ done, Granted s tti done r.1.1 r.1.2 r.2 := by
  intro r
  refine ⟨_, StdMap.visit_inv (f := puschUser lib tti)
    (fun done st db => Granted s tti done st.1 st.2 db)
    (fun done st db k u hg hk hu => granted_step lib tti hsep (msg3_fits hc h _) hg hk hu)
    (fun done st db k hg hk => ?_) s.ueDb.keys [] (s, ⟨[], default⟩) s.ueDb
    (StdMap.nodup_keys s.ueDb) (by simp)
    ⟨rfl, Or.inl rfl, fun _ _ => rfl, h.users, by simp, List.Pairwise.nil⟩⟩
  exact { hg with
    msg3 := hg.msg3.imp_right fun hd => ⟨List.mem_cons_of_mem k hd.1, hd.2⟩
    rest := fun l hl => hg.rest l (List.not_mem_of_not_mem_cons hl)
    mine := fun d hd => ⟨List.mem_cons_of_mem k (hg.mine d hd).1, (hg.mine d hd).2⟩ }

/-- A pending Msg3 is left as it is, or cleared. -/
theorem Granted.keeps_msg3 {s0 s : Sched} {done : List Nat} {out : Elems UlSchedData}
    {db : StdMap SchedUe} (hg : Granted s0 tti done s out db)
    (h : ∀ i, (s0.pendingMsg3 i).enabled = true → (s0.pendingMsg3 i).alloc = ⟨2, 3⟩) :
    ∀ i, (s.pendingMsg3 i).enabled = true → (s.pendingMsg3 i).alloc = ⟨2, 3⟩ := by
  intro i hi
  rcases hg.msg3 with heq | ⟨-, heq⟩
  · rw [heq] at hi ⊢
    exact h i hi
  · rw [heq] at hi ⊢
    by_cases hi' : i = tti % 10
    · subst hi'
      simp at hi
    · rw [Function.update_of_ne hi'] at hi ⊢
      exact h i hi

theorem ulSched_spec (hc : CellOk s.cfg) (h : UlOk s) :
    ((s.ulSched lib tti).1.cfg = s.cfg ∧ UlOk (s.ulSched lib tti).1) ∧
      UlExclusive lib s.cfg (s.pendingMsg3 (tti % 10)) tti (s.ulSched lib tti).2 := by
  have hempty : UlExclusive lib s.cfg (s.pendingMsg3 (tti % 10)) tti {} :=
    ⟨.nil, by simp, by simp⟩
  unfold ulSched
  split_ifs
  · exact ⟨⟨rfl, h⟩, hempty⟩
  · exact ⟨⟨rfl, h⟩, hempty⟩
  · obtain ⟨⟨phich, db⟩, hphich⟩ : ∃ r, (s.ulStart tti).ueDb.visit (phichUser tti)
        (s.ulStart tti).ueDb.keys [] = r := ⟨_, rfl⟩
    -- The PHICH loop keeps the users and their allocations.
    have husers : ∀ (k : Nat) (u : SchedUe), db[k]? = some u →
        u.rnti = k ∧ u.UlFits s.cfg.cell.nofPrb := by
      have := StdMap.visit_forall (f := phichUser tti)
        (Q := fun k u => u.rnti = k ∧ u.UlFits s.cfg.cell.nofPrb)
        (fun _ k u hu => ⟨hu.1, UlMetric.fits_setUl hu.2 (hu.2 _)⟩)
        (s.ulStart tti).ueDb.keys [] (m := (s.ulStart tti).ueDb) h.users
      rwa [hphich] at this
    simp only [hphich]
    obtain ⟨s0, hs0⟩ : ∃ s0, { s.ulStart tti with ueDb := db } = s0 := ⟨_, rfl⟩
    have hcfg0 : s0.cfg = s.cfg := hs0 ▸ rfl
    have hmsg0 : s0.pendingMsg3 = s.pendingMsg3 := hs0 ▸ rfl
    have hok0 : UlOk s0 := hs0 ▸ ⟨h.msg3, husers⟩
    have hm0 : s0.ulMetric.nofRb = s0.cfg.cell.nofPrb := hs0 ▸ rfl
    rw [hs0]
    obtain ⟨hcfg1, hmsg1, hok1, hsep, hclear⟩ := ulAllocate_spec lib tti
      (hcfg0 ▸ hc) hok0 hm0
    obtain ⟨s1, hs1⟩ : ∃ s1, s0.ulAllocate lib tti = s1 := ⟨_, rfl⟩
    rw [hs1] at hcfg1 hmsg1 hok1 hsep hclear ⊢
    have hc1 : CellOk s1.cfg := by
      rw [hcfg1, hcfg0]
      exact hc
    have hslot : s1.pendingMsg3 (tti % 10) = s.pendingMsg3 (tti % 10) := by rw [hmsg1, hmsg0]
    obtain ⟨done, hg⟩ := pusch_granted lib tti hc1 hok1
      (by rw [hslot, ← hmsg0]; exact hsep)
    obtain ⟨⟨⟨s2, out⟩, db2⟩, hvisit⟩ : ∃ r, s1.ueDb.visit (puschUser lib tti) s1.ueDb.keys
        (s1, ⟨[], default⟩) = r := ⟨_, rfl⟩
    rw [hvisit] at hg
    simp only [hvisit] at hg ⊢
    have hN : s1.cfg.cell.nofPrb = s.cfg.cell.nofPrb := by rw [hcfg1, hcfg0]
    have hcfg2 : s2.cfg = s.cfg := by rw [hg.cfg, hcfg1, hcfg0]
    have husers3 := StdMap.visit_forall (f := pendingDataUser tti)
      (Q := fun k u => u.rnti = k ∧ u.UlFits s.cfg.cell.nofPrb)
      (fun _ k u hu => ⟨hu.1, UlMetric.fits_setUl hu.2 (hu.2 _)⟩)
      db2.keys () (hN ▸ hg.users)
    refine ⟨⟨hcfg2, hg.keeps_msg3 tti hok1.msg3, ?_⟩, ?_, ?_, ?_⟩
    · simp only [hcfg2]
      exact husers3
    · exact hg.excl
    · intro d hd
      obtain ⟨-, v, hv, hva⟩ := hg.mine d hd
      rw [← hN]
      exact grantableTo_fits hc1 hok1 (hok1.users _ v hv).2 hva
    · intro d hd hno
      obtain ⟨-, v, hv, hva⟩ := hg.mine d hd
      rw [hslot] at hva
      rw [hmsg0, hcfg0] at hclear
      exact hclear d.rnti v d.alloc hv hno hva

/-! ## Every state of the cell -/

theorem UlOk.rounds {s' : Sched} {new : List DlAlloc} (h : UlOk s) (hr : Rounds s s' new) :
    UlOk s' where
  msg3 := by
    intro i hi
    rcases hr.msg3 i with heq | ⟨hn, hL⟩
    · rw [heq] at hi ⊢
      exact h.msg3 i hi
    · rw [PendingMsg3.alloc, hn, hL]
  users := by
    rw [hr.setup.ueDb, hr.setup.cfg]
    exact h.users

theorem dlSched_ulOk (h : UlOk s) (paging : Option Nat) :
    (s.dlSched lib tti paging).1.cfg = s.cfg ∧ UlOk (s.dlSched lib tti paging).1 := by
  unfold dlSched
  split_ifs
  · exact ⟨rfl, h⟩
  · have h0 : UlOk (s.dlStart tti) := ⟨h.msg3, h.users⟩
    obtain ⟨bc, hbc, -⟩ := dlSchedBc_emits lib (s.dlStart tti) paging
    obtain ⟨s1, hs1⟩ : ∃ s1, ((s.dlStart tti).dlSchedBc lib paging).1 = s1 := ⟨_, rfl⟩
    rw [hs1] at hbc
    obtain ⟨rar, hrar, -⟩ := dlSchedRar_emits lib s1
    obtain ⟨s2, hs2⟩ : ∃ s2, (s1.dlSchedRar lib).1 = s2 := ⟨_, rfl⟩
    rw [hs2] at hrar
    have hcfg : s2.cfg = s.cfg := hrar.setup.cfg.trans hbc.setup.cfg
    have h2 : UlOk s2 := (h0.rounds hbc).rounds hrar
    obtain ⟨⟨m, db, st, s3, ⟨t, n, rfl, -⟩, hdata⟩, husers⟩ := dlSchedData_spec lib s2
    simp only [hs1, hs2]
    have hsame : (s2.dlSchedData lib).1.cfg = s2.cfg := by rw [hdata]
    refine ⟨hsame.trans hcfg, ?_, ?_⟩
    · rw [hdata]
      exact h2.msg3
    · rw [hsame]
      exact husers _ (fun k u u' hu hq => ⟨hu.1.trans hq.1, hu.fits hq.2⟩) h2.users

/-- The states of a cell: calls of the scheduler, and between them changes of anything but the
allocations and Msg3. A new user has no allocation. -/
inductive Reachable (lib : Lib) (cfg : CellCfg) : Sched → Prop
  | start (s : Sched) (hcfg : s.cfg = cfg) (hdb : s.ueDb = ∅)
      (hmsg3 : ∀ i, (s.pendingMsg3 i).enabled = false) : Reachable lib cfg s
  | dl {s : Sched} (h : Reachable lib cfg s) (tti : Nat) (paging : Option Nat) :
      Reachable lib cfg (s.dlSched lib tti paging).1
  | ul {s : Sched} (h : Reachable lib cfg s) (tti : Nat) : Reachable lib cfg (s.ulSched lib tti).1
  | other {s s' : Sched} (h : Reachable lib cfg s) (hcfg : s'.cfg = s.cfg)
      (hmsg3 : s'.pendingMsg3 = s.pendingMsg3)
      (husers : ∀ (k : Nat) (u' : SchedUe), s'.ueDb[k]? = some u' → u'.rnti = k ∧
        ∀ pid, (u'.ulHarq pid).allocation = {} ∨
          ∃ u, s.ueDb[k]? = some u ∧ (u'.ulHarq pid).allocation = (u.ulHarq pid).allocation) :
      Reachable lib cfg s'

theorem Reachable.ulOk {lib : Lib} {cfg : CellCfg} (hc : CellOk cfg) (h : Reachable lib cfg s) :
    s.cfg = cfg ∧ UlOk s := by
  induction h with
  | start s hcfg hdb hmsg3 =>
    refine ⟨hcfg, fun i hi => ?_, fun k u hu => ?_⟩
    · rw [hmsg3 i] at hi
      cases hi
    · simp [hdb] at hu
  | dl _ tti paging ih =>
    obtain ⟨hcfg, hok⟩ := dlSched_ulOk lib tti ih.2 paging
    exact ⟨hcfg.trans ih.1, hok⟩
  | ul _ tti ih =>
    obtain ⟨⟨hcfg, hok⟩, -⟩ := ulSched_spec lib tti (ih.1 ▸ hc) ih.2
    exact ⟨hcfg.trans ih.1, hok⟩
  | other _ hcfg hmsg3 husers ih =>
    refine ⟨hcfg.trans ih.1, hmsg3 ▸ ih.2.msg3, fun k u' hu' => ?_⟩
    obtain ⟨hk, hallocs⟩ := husers k u' hu'
    refine ⟨hk, fun pid => ?_⟩
    rcases hallocs pid with hzero | ⟨u, hu, hsame⟩
    · rw [hzero]
      exact Nat.zero_le _
    · rw [hsame, hcfg]
      exact (ih.2.users k u hu).2 pid

/-- **Uplink grants of a TTI are exclusive**, in every state of a cell that fits its PRACH and
PUCCH. -/
theorem ul_exclusive (lib : Lib) (cfg : CellCfg) (hc : CellOk cfg) (s : Sched)
    (h : Reachable lib cfg s) (tti : Nat) :
    UlExclusive lib cfg (s.pendingMsg3 (tti % 10)) tti (s.ulSched lib tti).2 := by
  obtain ⟨rfl, hok⟩ := h.ulOk hc
  exact (ulSched_spec lib tti hc hok).2

/-- A user with a scheduling request. -/
def requesting (rnti : Nat) : SchedUe :=
  { AckState.exampleUe with
    rnti := rnti, sr := true
    dciLocations := fun _ _ => ⟨fun L n => n * 2 ^ L, fun _ => 4⟩ }

/-- Two users ask for PRBs. -/
def exampleRequests : Sched :=
  { exampleSched with
    ueDb := ((∅ : StdMap SchedUe).insert 70 (requesting 70)).insert 71 (requesting 71) }

theorem ul_exclusive_requests : UlExclusive exampleLib exampleCell {} 10
    (exampleRequests.ulSched exampleLib 10).2 := by
  refine ul_exclusive exampleLib exampleCell ⟨by decide, by decide, by decide, by decide⟩
    exampleRequests ?_ 10
  refine .other (.start exampleSched rfl rfl fun _ => rfl) rfl rfl fun k u hu => ?_
  simp only [exampleRequests, StdMap.getElem?_insert] at hu
  split_ifs at hu with h71 h70
  · obtain rfl := Option.some.inj hu
    exact ⟨h71, fun _ => Or.inl rfl⟩
  · obtain rfl := Option.some.inj hu
    exact ⟨h70, fun _ => Or.inl rfl⟩
  · simp at hu

example : ((exampleRequests.ulSched exampleLib 10).2.pusch.map UlSchedData.alloc) =
    [⟨1, 4⟩] := by decide

end Sched

end Srsenb.Mac
