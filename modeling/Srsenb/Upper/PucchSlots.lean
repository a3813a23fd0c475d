import Srsenb.Upper.RrcSteps

/-! # No two UEs share a PUCCH resource

A UE is told the configuration index of its subframe and a resource number, which folds the PRB
index and the number of users the slot had before it into one number. -/

open Srsenb.Run

namespace Srsenb.Pucch

variable {index : Nat → Nat → Option Nat} {c : CommonCfg} {cfg : SlotCfg} {t t' : NofUsers}
  {a b : Alloc}

/-! ## The indices of the subframes -/

/-- For one period the index tells the subframes apart. -/
def Separates (index : Nat → Nat → Option Nat) : Prop :=
  ∀ period sf sf' i, index period sf = some i → index period sf' = some i → sf = sf'

theorem srIndex_separates : Separates srIndex := by
  intro period sf sf' i h h'
  unfold srIndex at h h'
  split_ifs at h h'
  simp only [Option.some.injEq] at h h'
  omega

theorem cqiIndex_separates : Separates cqiIndex := by
  intro period sf sf' i h h'
  unfold cqiIndex at h h'
  split_ifs at h h' <;> simp only [Option.some.injEq] at h h' <;> omega

/-! ## The search stays in the table -/

theorem visit_iMin {n i : Nat} (hi : i < n) {b : Least} (hb : b.iMin < n ∨ b.iMin = 0) (j : Nat) :
    (b.visit t i j).iMin < n ∨ (b.visit t i j).iMin = 0 := by
  unfold Least.visit
  split_ifs
  · exact .inl hi
  · exact hb

theorem visitRow_iMin {n i : Nat} (hi : i < n) (js : List Nat) {b : Least}
    (hb : b.iMin < n ∨ b.iMin = 0) :
    (js.foldl (Least.visit t i) b).iMin < n ∨ (js.foldl (Least.visit t i) b).iMin = 0 := by
  induction js generalizing b with
  | nil => exact hb
  | cons j js ih => exact ih (visit_iMin hi hb j)

/-- The PRB index found is that of a row; with no row at all it is 0. -/
theorem leastUsed_fst (cfg : SlotCfg) (t : NofUsers) :
    (leastUsed cfg t).1 < cfg.nofPrb ∨ (leastUsed cfg t).1 = 0 := by
  have hrows : ∀ is : List Nat, (∀ i ∈ is, i < cfg.nofPrb) → ∀ b : Least,
      b.iMin < cfg.nofPrb ∨ b.iMin = 0 →
      let b' := is.foldl (fun b i => (List.range cfg.nofSubframes).foldl (Least.visit t i) b) b
      b'.iMin < cfg.nofPrb ∨ b'.iMin = 0 := by
    intro is
    induction is with
    | nil => exact fun _ b hb => hb
    | cons i is ih =>
      intro his b hb
      exact ih (fun k hk => his k (List.mem_cons_of_mem i hk)) _
        (visitRow_iMin (his i List.mem_cons_self) _ hb)
  exact hrows _ (fun i hi => List.mem_range.mp hi) _ (.inr rfl)

/-! ## Positions -/

/-- The number of users that the slot had when it was given to the UE. -/
def position (c : CommonCfg) (a : Alloc) : Nat := a.nPucch - c.nCsAn - a.prbIdx * maxUsers c

/-- A position below `max_users`, or one past them in the last PRB. -/
def InPrb (c : CommonCfg) (cfg : SlotCfg) (i n : Nat) : Prop := n < maxUsers c ∨ i + 1 = cfg.nofPrb

instance (c : CommonCfg) (cfg : SlotCfg) (i n : Nat) : Decidable (InPrb c cfg i n) :=
  inferInstanceAs (Decidable (_ ∨ _))

/-- What the fields of a UE with a resource satisfy. -/
structure Placed (index : Nat → Nat → Option Nat) (c : CommonCfg) (cfg : SlotCfg) (a : Alloc) :
    Prop where
  row : a.prbIdx < cfg.nofPrb ∨ a.prbIdx = 0
  cfgIdx : index cfg.period (cfg.sfMapping a.sfIdx) = some a.cfgIdx
  nPucch : a.nPucch = a.prbIdx * maxUsers c + position c a + c.nCsAn
  le : position c a ≤ maxUsers c
  inPrb : InPrb c cfg a.prbIdx (position c a)

theorem placed_inj_lt {M N p q x y : Nat} (h : p * M + x = q * M + y)
    (hin : x < M ∨ p + 1 = N) (hq : q < N ∨ q = 0) (hpq : p < q) : False := by
  have h1 : (p + 1) * M ≤ q * M := Nat.mul_le_mul_right M hpq
  rw [Nat.add_mul, Nat.one_mul] at h1
  omega

/-- The resource number of a placed UE gives back its row and its position. -/
theorem Placed.inj (h : Placed index c cfg a) (h' : Placed index c cfg b)
    (hn : a.nPucch = b.nPucch) : a.prbIdx = b.prbIdx ∧ position c a = position c b := by
  have heq : a.prbIdx * maxUsers c + position c a = b.prbIdx * maxUsers c + position c b := by
    have := h.nPucch
    have := h'.nPucch
    omega
  rcases Nat.lt_trichotomy a.prbIdx b.prbIdx with hlt | he | hlt
  · exact (placed_inj_lt heq h.inPrb h'.row hlt).elim
  · refine ⟨he, ?_⟩
    rw [he] at heq
    omega
  · exact (placed_inj_lt heq.symm h'.inPrb h.row hlt).elim

theorem allocate_placed (h : allocate index c cfg t = some (t', a)) :
    (leastUsed cfg t) = (a.prbIdx, a.sfIdx) ∧ position c a = t a.prbIdx a.sfIdx ∧
      (InPrb c cfg a.prbIdx (t a.prbIdx a.sfIdx) → Placed index c cfg a) := by
  obtain ⟨i, j, hl, hle, -, -, rfl, rfl, hidx, hn⟩ := allocate_spec h
  have hpos : position c a = t a.prbIdx a.sfIdx := by
    unfold position
    omega
  refine ⟨hl, hpos, fun hin => ⟨?_, hidx, by omega, by omega, by rw [hpos]; exact hin⟩⟩
  have := leastUsed_fst cfg t
  rwa [hl] at this

/-! ## A table of UEs -/

variable {β : Type} {f : β → Alloc} {m : StdMap β} {k : Nat} {u u' : β}

/-- Two UEs with a resource differ in the pair they are told. -/
def Distinct (f : β → Alloc) (m : StdMap β) : Prop :=
  ∀ (r r' : Nat) (u u' : β), m[r]? = some u → m[r']? = some u' → r ≠ r' → (f u).allocated = true →
    (f u').allocated = true → ((f u).cfgIdx, (f u).nPucch) ≠ ((f u').cfgIdx, (f u').nPucch)

/-- Each UE with a resource is placed, and no two share one. -/
structure Separate (index : Nat → Nat → Option Nat) (c : CommonCfg) (cfg : SlotCfg) (f : β → Alloc)
    (m : StdMap β) : Prop where
  placed : ∀ (r : Nat) (u : β), m[r]? = some u → (f u).allocated = true → Placed index c cfg (f u)
  distinct : Distinct f m

/-- The next allocation, for the UE `k`, stays in the PRB of the least used slot, and none of the
other UEs in that PRB and subframe sits at the position that the slot's count stands for. -/
def Fits (c : CommonCfg) (cfg : SlotCfg) (f : β → Alloc) (t : NofUsers) (m : StdMap β) (k : Nat) :
    Prop :=
  InPrb c cfg (leastUsed cfg t).1 (t (leastUsed cfg t).1 (leastUsed cfg t).2) ∧
    ∀ it ∈ m.toList, it.1 ≠ k → (f it.2).allocated = true →
      (f it.2).prbIdx = (leastUsed cfg t).1 →
      cfg.sfMapping (f it.2).sfIdx = cfg.sfMapping (leastUsed cfg t).2 →
      position c (f it.2) ≠ t (leastUsed cfg t).1 (leastUsed cfg t).2

instance (c : CommonCfg) (cfg : SlotCfg) (f : β → Alloc) (t : NofUsers) (m : StdMap β) (k : Nat) :
    Decidable (Fits c cfg f t m k) :=
  inferInstanceAs (Decidable (_ ∧ _))

theorem Separate.empty : Separate index c cfg f ∅ := by
  constructor
  · intro r u hu
    simp at hu
  · intro r r' u u' hu
    simp at hu

/-- A record that is new, or changed, and holds no other resource than before. -/
theorem Separate.insert (h : Separate index c cfg f m)
    (hu : (f u').allocated = true → ∃ u, m[k]? = some u ∧ f u' = f u) :
    Separate index c cfg f (m.insert k u') := by
  -- Each record of the new table has the resource of a record of the old one.
  have hold : ∀ (r : Nat) (v : β), (m.insert k u')[r]? = some v → (f v).allocated = true →
      ∃ w, m[r]? = some w ∧ f v = f w := by
    intro r v hv ha
    rw [StdMap.getElem?_insert] at hv
    split_ifs at hv with hr
    · subst hr
      cases hv
      exact hu ha
    · exact ⟨v, hv, rfl⟩
  constructor
  · intro r v hv ha
    obtain ⟨w, hw, he⟩ := hold r v hv ha
    rw [he]
    exact h.placed r w hw (he ▸ ha)
  · intro r r' v v' hv hv' hne ha ha'
    obtain ⟨w, hw, he⟩ := hold r v hv ha
    obtain ⟨w', hw', he'⟩ := hold r' v' hv' ha'
    rw [he, he']
    exact h.distinct r r' w w' hw hw' hne (he ▸ ha) (he' ▸ ha')

theorem Separate.erase (h : Separate index c cfg f m) (k : Nat) :
    Separate index c cfg f (m.erase k) := by
  have hold : ∀ (r : Nat) (v : β), (m.erase k)[r]? = some v → m[r]? = some v := by
    intro r v hv
    rw [StdMap.getElem?_erase] at hv
    split_ifs at hv
    exact hv
  constructor
  · exact fun r v hv => h.placed r v (hold r v hv)
  · exact fun r r' v v' hv hv' => h.distinct r r' v v' (hold r v hv) (hold r' v' hv')

/-- An allocation that fits gives a resource that no other UE has. -/
theorem fits_ne (hs : Separates index) (h : Separate index c cfg f m)
    (ha : allocate index c cfg t = some (t', a)) (hfit : Fits c cfg f t m k) {r : Nat} {v : β}
    (hv : m[r]? = some v) (hr : r ≠ k) (hal : (f v).allocated = true) :
    ((f v).cfgIdx, (f v).nPucch) ≠ (a.cfgIdx, a.nPucch) := by
  obtain ⟨hl, hpos, hpl⟩ := allocate_placed ha
  simp only [Fits, hl] at hfit
  obtain ⟨hin, hfree⟩ := hfit
  have hva := h.placed r v hv hal
  intro heq
  obtain ⟨hidx, hn⟩ := Prod.mk.inj heq
  obtain ⟨hrow, hp⟩ := hva.inj (hpl hin) hn
  have hsf : cfg.sfMapping (f v).sfIdx = cfg.sfMapping a.sfIdx :=
    hs _ _ _ _ (hidx ▸ hva.cfgIdx) (hpl hin).cfgIdx
  have hmem : (r, v) ∈ m.toList := Std.ExtTreeMap.mem_toList_iff_getElem?_eq_some.mpr hv
  exact hfree (r, v) hmem hr hal hrow hsf (hp.trans hpos)

theorem Separate.alloc (hs : Separates index) (h : Separate index c cfg f m)
    (ha : allocate index c cfg t = some (t', a)) (hfit : Fits c cfg f t m k) (hu : f u' = a) :
    Separate index c cfg f (m.insert k u') := by
  have hpl : Placed index c cfg a := by
    obtain ⟨hl, -, hpl⟩ := allocate_placed ha
    simp only [Fits, hl] at hfit
    exact hpl hfit.1
  constructor
  · intro r v hv hal
    rw [StdMap.getElem?_insert] at hv
    split_ifs at hv
    · cases hv
      rwa [hu]
    · exact h.placed r v hv hal
  · intro r r' v v' hv hv' hne hal hal'
    rw [StdMap.getElem?_insert] at hv hv'
    split_ifs at hv hv' with hr hr'
    · omega
    · cases hv
      rw [hu]
      exact (fits_ne hs h ha hfit hv' (by omega) hal').symm
    · cases hv'
      rw [hu]
      exact fits_ne hs h ha hfit hv (by omega) hal
    · exact h.distinct r r' v v' hv hv' hne hal hal'

end Srsenb.Pucch

namespace Srsenb.Rrc

open Pucch (Distinct Separate Separates Fits srIndex cqiIndex)

/-- No two UEs share an SR resource, and no two share a CQI resource. -/
def Exclusive (s : State) : Prop := Distinct Ue.sr s.users ∧ Distinct Ue.cqi s.users

/-- What a connection request that succeeds finds in the tables. -/
def FreePlace (s : State) : Event → Prop
  | .rx rnti (.srb0 (.rrcConReq _ _)) => SrAvailable s →
      Fits s.cfg.common s.cfg.srCfg Ue.sr s.srSched s.users rnti ∧
        (CqiAvailable s → Fits s.cfg.common s.cfg.cqiCfg Ue.cqi s.cqiSched s.users rnti)
  | _ => True

instance (s : State) : ∀ e, Decidable (FreePlace s e)
  | .rx rnti (.srb0 (.rrcConReq _ _)) => inferInstanceAs (Decidable (SrAvailable s →
      Fits s.cfg.common s.cfg.srCfg Ue.sr s.srSched s.users rnti ∧
        (CqiAvailable s → Fits s.cfg.common s.cfg.cqiCfg Ue.cqi s.cqiSched s.users rnti)))
  | .rx _ (.srb0 (.rrcConReestReq _)) | .rx _ (.srb0 .other) | .rx _ (.srb12 _) | .rx _ .remUser
  | .rx _ .relUser | .rx _ (.rlfUser _) | .rx _ .actUser | .rx _ .invalid | .addUser _
  | .updUser _ _ | .writeDlInfo _ _ | .setupUeCtxt _ _ _ | .setupUeErabs _ _ | .releaseErabs _
  | .timeout _ _ | .notifyConnected _ => .isTrue trivial

/-- The invariant of the UEs' PUCCH fields. -/
def Slots (s : State) : Prop :=
  Separate srIndex s.cfg.common s.cfg.srCfg Ue.sr s.users ∧
    Separate cqiIndex s.cfg.common s.cfg.cqiCfg Ue.cqi s.users

theorem slots_init (cfg : Cfg) : Slots (init cfg) := ⟨.empty, .empty⟩

theorem Slots.setUser {s : State} {rnti : Nat} {u u' : Ue} (h : Slots s)
    (hu : s.users[rnti]? = some u) (hsr : u'.sr = u.sr) (hcqi : u'.cqi = u.cqi) :
    Slots (s.setUser rnti u') :=
  ⟨h.1.insert fun _ => ⟨u, hu, hsr⟩, h.2.insert fun _ => ⟨u, hu, hcqi⟩⟩

theorem separate_allocated {index : Nat → Nat → Option Nat} {c : Pucch.CommonCfg}
    {cfg : Pucch.SlotCfg} {f : Ue → Pucch.Alloc} {t : Pucch.NofUsers} {m : StdMap Ue} {k : Nat}
    {u u' : Ue} (hs : Separates index) (h : Separate index c cfg f m) (hu : m[k]? = some u)
    (res : Option (Pucch.NofUsers × Pucch.Alloc))
    (hres : ∀ p, res = some p → Pucch.allocate index c cfg t = some p ∧ Fits c cfg f t m k)
    (hf : f u' = (allocated res t (f u)).2) : Separate index c cfg f (m.insert k u') := by
  cases res with
  | none => exact h.insert fun _ => ⟨u, hu, hf⟩
  | some p =>
    obtain ⟨ha, hfit⟩ := hres p rfl
    exact h.alloc hs ha hfit hf

theorem request_slots {s : State} {rnti cause : Nat} {sTmsi : Option (Nat × Nat)} {u : Ue}
    (h : Slots s) (hu : s.users[rnti]? = some u)
    (hc : FreePlace s (.rx rnti (.srb0 (.rrcConReq sTmsi cause)))) :
    Slots (handleRrcConReq s rnti sTmsi cause).st := by
  obtain ⟨hcfg, u', husers, -, hsr, -, hcqi⟩ := handleRrcConReq_spec hu sTmsi cause
  rw [Slots, hcfg, husers]
  refine ⟨separate_allocated Pucch.srIndex_separates h.1 hu _ ?_ hsr,
    separate_allocated Pucch.cqiIndex_separates h.2 hu _ ?_ hcqi⟩
  · intro p hp
    have hav : SrAvailable s := Pucch.allocate_isSome.mp (Option.isSome_iff_exists.mpr ⟨p, hp⟩)
    exact ⟨hp, (hc hav).1⟩
  · intro p hp
    split_ifs at hp with hsome
    have hav : SrAvailable s := Pucch.allocate_isSome.mp hsome.1
    have hav' : CqiAvailable s :=
      ⟨hsome.2, Pucch.allocate_isSome.mp (Option.isSome_iff_exists.mpr ⟨p, hp⟩)⟩
    exact ⟨hp, (hc hav).2 hav'⟩

theorem slots_step {s : State} {e : Event} (h : Slots s) (hc : FreePlace s e) :
    Slots (step s e) := by
  have hch := step_change s e
  generalize step s e = s' at hch
  cases hch with
  | same => exact h
  | kept hu hk => exact h.setUser hu hk.sr hk.cqi
  | registered hu hsr hcqi _ => exact h.setUser hu hsr hcqi
  | added hk => exact ⟨h.1.insert (by simp [Ue.new, Pucch.Alloc.none]),
      h.2.insert (by simp [Ue.new, Pucch.Alloc.none])⟩
  | removed =>
    unfold remUser
    split
    · exact h
    · exact ⟨h.1.erase _, h.2.erase _⟩
  | request hu => exact request_slots h hu hc

/-- **PUCCH exclusivity.** In every run whose connection requests find a free place, no two UEs
share an SR resource or a CQI resource in any state. -/
theorem slots_exclusive (cfg : Cfg) (es : List Event)
    (h : AllSteps step FreePlace (init cfg) es) : AllStates step Exclusive (init cfg) es := by
  have hslots : AllStates step Slots (init cfg) es := by
    refine allStates_of_allSteps ?_ (slots_init cfg) h
    exact fun s e => slots_step
  rw [allStates_iff] at hslots ⊢
  exact fun pre hpre => ⟨(hslots pre hpre).1.distinct, (hslots pre hpre).2.distinct⟩

/-- A UE that does random access and asks for a connection. -/
def connects (rnti : Nat) : List Event := [.addUser rnti, .rx rnti (.srb0 (.rrcConReq none 3))]

theorem slots_exclusive_connects :
    AllStates step Exclusive (init exampleCfg) (connects 70 ++ connects 71 ++ connects 72) :=
  slots_exclusive exampleCfg (connects 70 ++ connects 71 ++ connects 72) (by decide)

/-- The UE that came first leaves first, and the place counted for the next one is taken. -/
def firstLeavesRun : List Event :=
  connects 70 ++ connects 71 ++ connects 72 ++ [.rx 70 .remUser] ++ connects 73

theorem slots_shared_firstLeavesRun :
    let s := exec step (init exampleCfg) firstLeavesRun
    (s.users[72]?.map Ue.sr) = some ⟨true, 0, 0, 16, 1⟩ ∧
      (s.users[73]?.map Ue.sr) = some ⟨true, 0, 0, 16, 1⟩ ∧
      (s.users[72]?.map Ue.cqi) = some ⟨true, 0, 0, 37, 1⟩ ∧
      (s.users[73]?.map Ue.cqi) = some ⟨true, 0, 0, 37, 1⟩ ∧
      ¬ AllStates step Exclusive (init exampleCfg) firstLeavesRun := by
  intro s
  have h72 : (s.users[72]?.map Ue.sr) = some ⟨true, 0, 0, 16, 1⟩ := by decide
  have h73 : (s.users[73]?.map Ue.sr) = some ⟨true, 0, 0, 16, 1⟩ := by decide
  refine ⟨h72, h73, by decide, by decide, fun h => ?_⟩
  obtain ⟨u, hu, hsr⟩ := Option.map_eq_some_iff.mp h72
  obtain ⟨u', hu', hsr'⟩ := Option.map_eq_some_iff.mp h73
  exact h.last.1 72 73 u u' hu hu' (by decide) (by rw [hsr]) (by rw [hsr']) (by rw [hsr, hsr'])

end Srsenb.Rrc
