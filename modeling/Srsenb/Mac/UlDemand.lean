import Mathlib.Order.Bounds.Basic
import Srsenb.Mac.SchedUe

/-! # The PRBs that a request asks for -/

namespace Srsenb.Mac

/-- Two sets of sizes that are closed upwards in `S`; `r` is the least of the one, if it has any.
It is the least of the other, or the greatest of all if the other is empty, in just two cases. -/
theorem least_or_greatest_iff {S P C : Set Nat} {N r : Nat} (hN : ∀ n ∈ S, n ≤ N)
    (hPS : P ⊆ S) (hCS : C ⊆ S) (hP : ∀ n ∈ P, ∀ k ∈ S, n ≤ k → k ∈ P)
    (hC : ∀ n ∈ C, ∀ k ∈ S, n ≤ k → k ∈ C) (hr : IsLeast P r ∨ P = ∅ ∧ N < r) :
    IsLeast C r ∨ C = ∅ ∧ IsGreatest S r ↔
      (C.Nonempty → P = C) ∧ (C = ∅ → ∃! n, n ∈ P) := by
  have hleast : P.Nonempty ∨ r ≤ N → IsLeast P r := by
    rintro h
    refine hr.resolve_right ?_
    rintro ⟨hempty, hlt⟩
    rcases h with ⟨n, hn⟩ | hle
    · rw [hempty] at hn
      exact hn
    · omega
  constructor
  · rintro (h | ⟨hempty, h⟩)
    · have hl := hleast (Or.inr (hN r (hCS h.1)))
      refine ⟨fun _ => Set.Subset.antisymm ?_ ?_, ?_⟩
      · intro n hn
        exact hC r h.1 n (hPS hn) (hl.2 hn)
      · intro n hn
        exact hP r hl.1 n (hCS hn) (h.2 hn)
      · rintro rfl
        exact absurd h.1 (Set.notMem_empty r)
    · have hl := hleast (Or.inr (hN r h.1))
      refine ⟨fun hne => absurd hempty hne.ne_empty, fun _ => ⟨r, hl.1, ?_⟩⟩
      intro n hn
      exact le_antisymm (h.2 (hPS hn)) (hl.2 hn)
  · rintro ⟨hsome, hnone⟩
    rcases Set.eq_empty_or_nonempty C with hempty | hne
    · obtain ⟨n, hn, huniq⟩ := hnone hempty
      have hl := hleast (Or.inl ⟨n, hn⟩)
      refine Or.inr ⟨hempty, hPS hl.1, ?_⟩
      intro k hk
      by_contra hlt
      have hkr := (huniq k (hP r hl.1 k hk (by omega))).trans (huniq r hl.1).symm
      omega
    · have hPC := hsome hne
      exact Or.inl (hPC ▸ hleast (Or.inl (hPC ▸ hne)))

/-- A search from `n` up to `N` that ends at the first size that is enough, or at `N`. -/
structure EndsAt (enough : Nat → Prop) (N n r : Nat) : Prop where
  from_n : n ≤ r
  first : ∀ m, n ≤ m → m ≤ N → (r ≤ m ↔ enough m ∨ m = N)

theorem EndsAt.next {enough : Nat → Prop} {N n r : Nat} (h : EndsAt enough N (n + 1) r)
    (hn : ¬enough n) (hlt : n < N) : EndsAt enough N n r := by
  have hr := h.from_n
  refine ⟨by omega, fun m hm hN => ?_⟩
  rcases Nat.lt_or_eq_of_le hm with hlt' | rfl
  · exact h.first m hlt' hN
  · refine iff_of_false (by omega) ?_
    rintro (he | heq)
    · exact hn he
    · omega

theorem EndsAt.here {enough : Nat → Prop} {N n : Nat} (hn : ∀ m, n ≤ m → m ≤ N → enough m ∨ m = N) :
    EndsAt enough N n n :=
  ⟨le_rfl, fun m hm hN => iff_of_true hm (hn m hm hN)⟩

namespace SchedUe

variable (lib : Lib) (u : SchedUe) (reqBytes : Nat)

/-! ## Downlink -/

/-- The TBS of `n` PRBs that `get_required_prb_dl` looks at. -/
def prbTbsDl (nofCtrlSymbols n : Nat) : Int :=
  (u.dlTbs lib n (lib.raDlApproxNofRe u.cell n nofCtrlSymbols) 0).1

/-- `n` PRBs or fewer carry the bytes. -/
def EnoughDl (nofCtrlSymbols n : Nat) : Prop :=
  ∃ k, 0 < k ∧ k ≤ n ∧ (reqBytes : Int) ≤ u.prbTbsDl lib nofCtrlSymbols k

variable {lib u reqBytes} {nofCtrlSymbols : Nat}

theorem enoughDl_succ {n : Nat} (hn : ¬u.EnoughDl lib reqBytes nofCtrlSymbols n) :
    u.EnoughDl lib reqBytes nofCtrlSymbols (n + 1) ↔
      (reqBytes : Int) ≤ u.prbTbsDl lib nofCtrlSymbols (n + 1) := by
  constructor
  · rintro ⟨k, hpos, hk, hle⟩
    rcases Nat.lt_or_eq_of_le hk with hlt | rfl
    · exact absurd ⟨k, hpos, by omega, hle⟩ hn
    · exact hle
  · intro hle
    exact ⟨n + 1, by omega, le_rfl, hle⟩

theorem requiredPrbDl_endsAt
    (hneg : ∀ k, 0 < k → k ≤ u.cell.nofPrb → 0 ≤ u.prbTbsDl lib nofCtrlSymbols k) :
    ∀ {fuel n nbytes : Nat}, n + fuel = u.cell.nofPrb →
    (reqBytes ≤ nbytes ↔ u.EnoughDl lib reqBytes nofCtrlSymbols n) →
    EndsAt (u.EnoughDl lib reqBytes nofCtrlSymbols) u.cell.nofPrb n
      (u.requiredPrbDl lib reqBytes nofCtrlSymbols fuel n nbytes)
  | 0, n, nbytes, hfuel, _ => EndsAt.here fun m hm hN => Or.inr (by omega)
  | fuel + 1, n, nbytes, hfuel, hinv => by
    rw [requiredPrbDl]
    by_cases hb : nbytes < reqBytes
    · -- Another PRB is tried, since none so far has been enough.
      have hn : ¬u.EnoughDl lib reqBytes nofCtrlSymbols n := fun h => by
        have := hinv.mpr h
        omega
      have hnext := enoughDl_succ hn
      have hz := hneg (n + 1) (by omega) (by omega)
      unfold prbTbsDl at hnext hz
      simp only [if_pos hb]
      split_ifs with h1 h2
      · refine (requiredPrbDl_endsAt hneg (by omega) ?_).next hn (by omega)
        rw [hnext]
        omega
      · omega
      · refine (requiredPrbDl_endsAt hneg (by omega) ?_).next hn (by omega)
        rw [hnext]
        omega
    · rw [if_neg hb]
      obtain ⟨k, hpos, hk, hle⟩ := hinv.mp (by omega)
      exact EndsAt.here fun m hm _ => Or.inl ⟨k, hpos, by omega, hle⟩

/-- Downlink, the request is the least size that carries the bytes, or the whole cell. -/
theorem getRequiredPrbDl_least (hreq : 0 < reqBytes)
    (hneg : ∀ k, 0 < k → k ≤ u.cell.nofPrb → 0 ≤ u.prbTbsDl lib nofCtrlSymbols k) :
    IsLeast { n | n ≤ u.cell.nofPrb ∧
        (u.EnoughDl lib reqBytes nofCtrlSymbols n ∨ n = u.cell.nofPrb) }
      (u.getRequiredPrbDl lib reqBytes nofCtrlSymbols) := by
  have hends : EndsAt (u.EnoughDl lib reqBytes nofCtrlSymbols) u.cell.nofPrb 0
      (u.getRequiredPrbDl lib reqBytes nofCtrlSymbols) :=
    requiredPrbDl_endsAt hneg (zero_add _) ⟨fun h => by omega, fun ⟨k, hpos, hk, _⟩ => by omega⟩
  have hle : u.getRequiredPrbDl lib reqBytes nofCtrlSymbols ≤ u.cell.nofPrb :=
    (hends.first _ (by omega) le_rfl).mpr (Or.inr rfl)
  refine ⟨⟨hle, (hends.first _ (by omega) hle).mp le_rfl⟩, ?_⟩
  rintro n ⟨hn, henough⟩
  exact (hends.first n (by omega) hn).mpr henough

/-! ## Uplink -/

variable (lib u reqBytes)

/-- The TBS of `n` PRBs that `get_required_prb_ul` looks at. -/
def prbTbsUl (n : Nat) : Int := (u.ulTbs lib n (u.ulNofRe n) 0).1

/-- The sizes of a grant: SC-FDMA allows them, and they are in the cell. -/
def prbSizes : Set Nat := { n | 1 ≤ n ∧ n ≤ u.cell.nofPrb ∧ lib.validPrb n = true }

/-- The sizes that carry the bytes, with 4 for the headers. -/
def carryingSizes : Set Nat :=
  { n | n ∈ u.prbSizes lib ∧ (reqBytes + 4 : Int) ≤ u.prbTbsUl lib n }

/-- A number of PRBs below `n` makes the loop end, which compares with a `uint32_t`. -/
def EndsBelow (n : Nat) : Prop :=
  u32 (reqBytes + 4) = 0 ∨ ∃ k < n, 1 ≤ k ∧ (u32 (reqBytes + 4) : Int) ≤ u.prbTbsUl lib k

instance (n : Nat) : Decidable (u.EndsBelow lib reqBytes n) :=
  inferInstanceAs (Decidable (_ ∨ ∃ k < n, 1 ≤ k ∧ _))

/-- The sizes after the first number of PRBs that makes the loop end, and the whole cell. -/
def laterSizes : Set Nat :=
  { n | n ∈ u.prbSizes lib ∧ (u.EndsBelow lib reqBytes n ∨ n = u.cell.nofPrb) }

/-- The least size that carries the bytes, or the largest size if none does. -/
def UlDemandMinimal (n : Nat) : Prop :=
  IsLeast (u.carryingSizes lib reqBytes) n ∨
    u.carryingSizes lib reqBytes = ∅ ∧ IsGreatest (u.prbSizes lib) n

variable {lib u reqBytes}

theorem EndsBelow.mono {n m : Nat} (h : u.EndsBelow lib reqBytes n) (hnm : n ≤ m) :
    u.EndsBelow lib reqBytes m := by
  rcases h with h | ⟨k, hk, hpos, hle⟩
  · exact Or.inl h
  · exact Or.inr ⟨k, by omega, hpos, hle⟩

theorem endsBelow_succ {n : Nat} (h1 : 1 ≤ n) (hn : ¬u.EndsBelow lib reqBytes n) :
    u.EndsBelow lib reqBytes (n + 1) ↔ (u32 (reqBytes + 4) : Int) ≤ u.prbTbsUl lib n := by
  constructor
  · rintro (h | ⟨k, hk, hpos, hle⟩)
    · exact absurd (Or.inl h) hn
    · rcases Nat.lt_or_eq_of_le (Nat.le_of_lt_succ hk) with hlt | rfl
      · exact absurd (Or.inr ⟨k, hlt, hpos, hle⟩) hn
      · exact hle
  · intro hle
    exact Or.inr ⟨n, by omega, h1, hle⟩

theorem requiredPrbUl_endsAt :
    ∀ {fuel n nbytes : Nat}, 1 ≤ n → u.cell.nofPrb ≤ n + fuel →
    (u32 (reqBytes + 4) ≤ nbytes ↔ u.EndsBelow lib reqBytes n) →
    EndsAt (u.EndsBelow lib reqBytes) u.cell.nofPrb n
      (u.requiredPrbUl lib reqBytes fuel n nbytes)
  | 0, n, nbytes, _, hfuel, _ => EndsAt.here fun m hm hN => Or.inr (by omega)
  | fuel + 1, n, nbytes, h1, hfuel, hinv => by
    rw [requiredPrbUl]
    by_cases hb : n < u.cell.nofPrb ∧ nbytes < u32 (reqBytes + 4)
    · have hn : ¬u.EndsBelow lib reqBytes n := fun h => by
        have := hinv.mpr h
        omega
      have hnext := endsBelow_succ h1 hn
      unfold prbTbsUl at hnext
      simp only [if_pos hb]
      refine (requiredPrbUl_endsAt (by omega) (by omega) ?_).next hn hb.1
      rw [hnext]
      split_ifs <;> omega
    · rw [if_neg hb]
      refine EndsAt.here fun m hm hN => ?_
      by_cases hlt : n < u.cell.nofPrb
      · exact Or.inl ((hinv.mp (by omega)).mono hm)
      · exact Or.inr (by omega)

theorem nextValidPrb_spec {N : Nat} : ∀ {fuel n : Nat}, N + 1 ≤ n + fuel →
    n ≤ nextValidPrb lib N fuel n ∧
      (∀ m, n ≤ m → m ≤ N → lib.validPrb m = true → nextValidPrb lib N fuel n ≤ m) ∧
      (nextValidPrb lib N fuel n ≤ N → lib.validPrb (nextValidPrb lib N fuel n) = true)
  | 0, n, hfuel => by
    simp only [nextValidPrb]
    refine ⟨le_rfl, fun m hm _ _ => hm, fun h => by omega⟩
  | fuel + 1, n, hfuel => by
    rw [nextValidPrb]
    split_ifs with h
    · obtain ⟨hv, hN⟩ : lib.validPrb n = false ∧ n ≤ N := by simpa using h
      obtain ⟨hle, hmin, hval⟩ := nextValidPrb_spec (show N + 1 ≤ n + 1 + fuel by omega)
      refine ⟨by omega, fun m hm hmN hmv => ?_, hval⟩
      rcases Nat.lt_or_eq_of_le hm with hlt | rfl
      · exact hmin m hlt hmN hmv
      · rw [hv] at hmv
        cases hmv
    · have hor : lib.validPrb n = true ∨ N < n := by
        cases hv : lib.validPrb n with
        | true => exact Or.inl rfl
        | false => exact Or.inr (by simpa [hv] using h)
      refine ⟨le_rfl, fun m hm _ _ => hm, fun hN => ?_⟩
      exact hor.resolve_right (by omega)

/-- What the two loops find: the least later size, or a number of PRBs outside of the cell. -/
theorem getRequiredPrbUl_spec (hreq : 0 < reqBytes) :
    IsLeast (u.laterSizes lib reqBytes) (u.getRequiredPrbUl lib reqBytes) ∨
      u.laterSizes lib reqBytes = ∅ ∧ u.cell.nofPrb < u.getRequiredPrbUl lib reqBytes := by
  unfold getRequiredPrbUl
  rw [if_neg (by omega)]
  obtain ⟨n, hn⟩ : ∃ n, u.requiredPrbUl lib reqBytes u.cell.nofPrb 1 0 = n := ⟨_, rfl⟩
  have hends : EndsAt (u.EndsBelow lib reqBytes) u.cell.nofPrb 1 n := by
    rw [← hn]
    refine requiredPrbUl_endsAt le_rfl (by omega) ⟨fun h => Or.inl (by omega), ?_⟩
    rintro (h | ⟨k, hk, hpos, _⟩) <;> omega
  have hpos := hends.from_n
  obtain ⟨hle, hmin, hvalid⟩ :=
    nextValidPrb_spec (show u.cell.nofPrb + 1 ≤ n + (u.cell.nofPrb + 1) by omega)
  rw [hn]
  have hlater : ∀ m ∈ u.laterSizes lib reqBytes,
      nextValidPrb lib u.cell.nofPrb (u.cell.nofPrb + 1) n ≤ m := by
    rintro m ⟨hm, hend⟩
    exact hmin m ((hends.first m hm.1 hm.2.1).mpr hend) hm.2.1 hm.2.2
  by_cases hN : nextValidPrb lib u.cell.nofPrb (u.cell.nofPrb + 1) n ≤ u.cell.nofPrb
  · refine Or.inl ⟨⟨⟨by omega, hN, hvalid hN⟩, ?_⟩, hlater⟩
    exact (hends.first _ (by omega) hN).mp hle
  · refine Or.inr ⟨Set.eq_empty_of_forall_notMem fun m hm => ?_, by omega⟩
    have hmN := hm.1.2.1
    have := hlater m hm
    omega

/-- **The uplink demand is minimal**, exactly where the loop ends below each size that carries the
bytes, or where it leaves one size and none carries them. -/
theorem ul_demand_minimal_iff (hreq : 0 < reqBytes)
    (hmono : ∀ n k, 1 ≤ n → n ≤ k → k ≤ u.cell.nofPrb → u.prbTbsUl lib n ≤ u.prbTbsUl lib k) :
    u.UlDemandMinimal lib reqBytes (u.getRequiredPrbUl lib reqBytes) ↔
      ((u.carryingSizes lib reqBytes).Nonempty →
        u.laterSizes lib reqBytes = u.carryingSizes lib reqBytes) ∧
      (u.carryingSizes lib reqBytes = ∅ → ∃! n, n ∈ u.laterSizes lib reqBytes) := by
  refine least_or_greatest_iff (fun n hn => hn.2.1) (fun n hn => hn.1) (fun n hn => hn.1) ?_ ?_
    (getRequiredPrbUl_spec hreq)
  · rintro n ⟨hn, hpast⟩ k hk hnk
    refine ⟨hk, ?_⟩
    rcases hpast with h | rfl
    · exact Or.inl (h.mono hnk)
    · exact Or.inr (le_antisymm hk.2.1 hnk)
  · rintro n ⟨hn, hle⟩ k hk hnk
    exact ⟨hk, hle.trans (hmono n k hn.1 hnk hk.2.1)⟩

/-- A user of a cell of ten PRBs, which carry 2 to 32 bytes. -/
def ueOfTen : SchedUe where
  rnti := 70
  cell := ⟨10, 1, 7⟩
  P := 1
  dciLocations _ _ := ⟨fun _ _ => 0, fun _ => 0⟩
  dlHarq _ := {}
  ulHarq _ := {}

theorem ueOfTen_mono (n k : Nat) (hn : 1 ≤ n) (hnk : n ≤ k) (hk : k ≤ 10) :
    ueOfTen.prbTbsUl exampleLib n ≤ ueOfTen.prbTbsUl exampleLib k := by
  have hall : ∀ k < 11, ∀ n < k + 1, 1 ≤ n →
      ueOfTen.prbTbsUl exampleLib n ≤ ueOfTen.prbTbsUl exampleLib k := by decide
  exact hall k (by omega) n (by omega) hn

/-- Seven PRBs are enough for 17 bytes, but SC-FDMA does not allow them. -/
theorem ul_demand_minimal_seventeen :
    ueOfTen.UlDemandMinimal exampleLib 17 (ueOfTen.getRequiredPrbUl exampleLib 17) := by
  have h8 : 8 ∈ ueOfTen.carryingSizes exampleLib 17 :=
    ⟨⟨by decide, by decide, by decide⟩, by decide⟩
  have hends : ∀ n < 11, exampleLib.validPrb n = true →
      ((ueOfTen.EndsBelow exampleLib 17 n ∨ n = 10) ↔
        (17 + 4 : Int) ≤ ueOfTen.prbTbsUl exampleLib n) := by decide
  refine (ul_demand_minimal_iff (by decide) ueOfTen_mono).mpr ⟨fun _ => ?_, fun hempty => ?_⟩
  · ext n
    exact and_congr_right fun hn => hends n (Nat.lt_succ_of_le hn.2.1) hn.2.2
  · rw [hempty] at h8
    exact absurd h8 (Set.notMem_empty 8)

/-- Three PRBs carry one byte, and four are asked for. -/
theorem not_ul_demand_minimal_oneByte :
    ¬ueOfTen.UlDemandMinimal exampleLib 1 (ueOfTen.getRequiredPrbUl exampleLib 1) := by
  have hfour : ueOfTen.getRequiredPrbUl exampleLib 1 = 4 := by decide
  have hthree : 3 ∈ ueOfTen.carryingSizes exampleLib 1 :=
    ⟨⟨by decide, by decide, by decide⟩, by decide⟩
  rw [hfour]
  rintro (h | ⟨hempty, _⟩)
  · exact absurd (h.2 hthree) (by decide)
  · rw [hempty] at hthree
    exact hthree

end SchedUe

end Srsenb.Mac
