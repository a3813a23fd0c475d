import Srsenb.Mac.MacUsers

/-! # Soft combining of the uplink

The scheduler takes the process of a TTI modulo 8 and the MAC its receive softbuffer modulo 16. -/

open Srsenb.Run

namespace Srsenb.Mac

namespace MacState

variable {lib : Lib} {m : MacState} {tti : Nat}

/-! ## What the PHY is handed -/

/-- Every grant has the softbuffer of its TTI, and has it reset. -/
structure GrantsOf (tti : Nat) (out : UlSchedOut) : Prop where
  buffer : ∀ g ∈ out.grants, g.softbuffer = MacUe.bufferOf tti
  reset : ∀ g ∈ out.grants,
    ∃ tbs, .softbufferRxResetTbs g.rnti (MacUe.bufferOf tti) tbs ∈ out.acts

theorem ulGrant_grantsOf (pusch : List UlSchedData) (buffers : Nat → Option Nat) {out : UlSchedOut}
    (h : GrantsOf tti out) (d : UlSchedData) : GrantsOf tti (ulGrant tti pusch buffers out d) := by
  unfold ulGrant
  split_ifs
  · split
    · exact h
    · simp only [UlSchedData.currentTxNb, if_true]
      constructor
      · intro g hg
        rcases List.mem_append.mp hg with hg | hg
        · exact h.buffer g hg
        · rw [List.mem_singleton.mp hg]
          rfl
      · intro g hg
        rcases List.mem_append.mp hg with hg | hg
        · obtain ⟨tbs, ht⟩ := h.reset g hg
          exact ⟨tbs, List.mem_append_left _ ht⟩
        · rw [List.mem_singleton.mp hg]
          exact ⟨d.tbs * 8, List.mem_append_right _ (List.mem_singleton_self _)⟩
  · exact h

theorem getUlSched_grantsOf (buffers : Nat → Option Nat) :
    GrantsOf tti (m.getUlSched lib tti buffers) := by
  have hfold : ∀ (pusch ds : List UlSchedData) (out : UlSchedOut), GrantsOf tti out →
      GrantsOf tti (ds.foldl (ulGrant tti pusch buffers) out) := by
    intro pusch ds
    induction ds with
    | nil => exact fun _ h => h
    | cons d ds ih => exact fun out h => ih _ (ulGrant_grantsOf pusch buffers h d)
  have h := hfold (m.sched.ulSched lib tti).2.pusch (m.sched.ulSched lib tti).2.pusch
    { st := { m with sched := (m.sched.ulSched lib tti).1 } } ⟨by simp, by simp⟩
  exact ⟨h.buffer, h.reset⟩

/-! ## The grants of one block -/

/-- The TTI of the `k`-th transmission of a block that was first granted for TTI `t`. -/
def txTti (t k : Nat) : Nat := (t + 8 * k) % 10240

/-- A call of `get_ul_sched`: the state that it finds, and what the queues of PDUs give. -/
structure UlCall where
  st : MacState
  buffers : Nat → Option Nat

def UlCall.out (lib : Lib) (c : UlCall) (tti : Nat) : UlSchedOut :=
  c.st.getUlSched lib tti c.buffers

/-- The `k`-th call grants the user its `k`-th transmission, up to the `n`-th. -/
def Granted (lib : Lib) (rnti t n : Nat) (calls : Nat → UlCall) : Prop :=
  ∀ k ≤ n, ∃ g ∈ ((calls k).out lib (txTti t k)).grants, g.rnti = rnti

/-- One softbuffer for all transmissions, reset by the first alone, and not used by another
process. -/
structure SoftCombined (lib : Lib) (rnti t n : Nat) (calls : Nat → UlCall) (b : BufferIdx) :
    Prop where
  same : ∀ k ≤ n, ∀ g ∈ ((calls k).out lib (txTti t k)).grants, g.rnti = rnti → g.softbuffer = b
  reset : ∀ k ≤ n,
    (∃ tbs, .softbufferRxResetTbs rnti b tbs ∈ ((calls k).out lib (txTti t k)).acts) ↔ k = 0
  alone : ∀ (c : UlCall) (t' : Nat), SchedUe.getUlHarq t' ≠ SchedUe.getUlHarq t →
    ∀ g ∈ (c.out lib t').grants, g.rnti = rnti → g.softbuffer ≠ b

theorem getUlHarq_txTti (t k : Nat) : SchedUe.getUlHarq (txTti t k) = SchedUe.getUlHarq t := by
  unfold SchedUe.getUlHarq txTti
  apply Fin.ext
  simp only [Fin.val_ofNat]
  omega

/-- Two softbuffers are the same only in TTIs of one process. -/
theorem getUlHarq_of_bufferOf {t t' : Nat} (h : MacUe.bufferOf t' = MacUe.bufferOf t) :
    SchedUe.getUlHarq t' = SchedUe.getUlHarq t := by
  unfold MacUe.bufferOf at h
  have hval := congrArg Fin.val h
  unfold SchedUe.getUlHarq
  apply Fin.ext
  simp only [Fin.val_ofNat] at hval ⊢
  omega

theorem bufferOf_txTti_one (t : Nat) : MacUe.bufferOf (txTti t 1) ≠ MacUe.bufferOf (txTti t 0) := by
  intro h
  unfold MacUe.bufferOf txTti at h
  have hval := congrArg Fin.val h
  simp only [Fin.val_ofNat] at hval
  omega

/-- **When the uplink combines.** A block that is granted `n` times more has one softbuffer, reset
by its first transmission alone, if and only if it is never granted again. -/
theorem soft_combined_iff {rnti t n : Nat} {calls : Nat → UlCall}
    (h : Granted lib rnti t n calls) :
    (∃ b, SoftCombined lib rnti t n calls b) ↔ n = 0 := by
  constructor
  · rintro ⟨b, hb⟩
    by_contra hn
    obtain ⟨g0, hg0, hr0⟩ := h 0 (Nat.zero_le n)
    obtain ⟨g1, hg1, hr1⟩ := h 1 (by omega)
    apply bufferOf_txTti_one t
    rw [← (getUlSched_grantsOf (calls 1).buffers).buffer g1 hg1, hb.same 1 (by omega) g1 hg1 hr1,
      ← hb.same 0 (by omega) g0 hg0 hr0, (getUlSched_grantsOf (calls 0).buffers).buffer g0 hg0]
  · rintro rfl
    have hzero : ∀ k ≤ 0, k = 0 := fun k hk => Nat.le_zero.mp hk
    refine ⟨MacUe.bufferOf (txTti t 0), ⟨?_, ?_, ?_⟩⟩
    · intro k hk g hg _
      rw [hzero k hk] at hg
      exact (getUlSched_grantsOf (calls 0).buffers).buffer g hg
    · intro k hk
      rw [hzero k hk]
      obtain ⟨g, hg, rfl⟩ := h 0 (Nat.le_refl 0)
      exact iff_of_true ((getUlSched_grantsOf (calls 0).buffers).reset g hg) rfl
    · intro c t' hne g hg _ heq
      rw [(getUlSched_grantsOf c.buffers).buffer g hg] at heq
      rw [← getUlHarq_txTti t 0] at hne
      exact hne (getUlHarq_of_bufferOf heq)

/-! ## One retransmission -/

/-- A UE attaches and asks for a grant. -/
def requestingMac : MacState :=
  exec (step exampleLib fun _ _ _ => ⟨fun L n => n * 2 ^ L, fun _ => 4⟩) (init Sched.exampleSched)
    [.rachDetected 1 0 0, .ueCfg 70 { maxharqTx := 4 } (List.replicate maxLc .both), .srDetected 70]

/-- Its block of TTI 10 is not received, and granted again for TTI 18. -/
def regrantCalls : Nat → UlCall
  | 0 => ⟨requestingMac, some⟩
  | _ => ⟨((requestingMac.getUlSched exampleLib 10 some).st.crcInfo 10 70 11 false).st, some⟩

theorem regrantCalls_granted : Granted exampleLib 70 10 1 regrantCalls := by
  intro k hk
  rcases Nat.le_one_iff_eq_zero_or_eq_one.mp hk with rfl | rfl
  · decide +kernel
  · decide +kernel

theorem soft_combined_once : ∃ b, SoftCombined exampleLib 70 10 0 regrantCalls b :=
  (soft_combined_iff fun k hk => regrantCalls_granted k (Nat.le_trans hk (Nat.zero_le 1))).mpr rfl

/-- The retransmission gets softbuffer 2, where the block was received in softbuffer 10. -/
theorem not_soft_combined_regranted :
    ¬ ∃ b, SoftCombined exampleLib 70 10 1 regrantCalls b := by
  rintro ⟨b, hb⟩
  obtain ⟨g0, hg0, hr0⟩ := regrantCalls_granted 0 (Nat.zero_le 1)
  obtain ⟨g1, hg1, hr1⟩ := regrantCalls_granted 1 (Nat.le_refl 1)
  have h0 := (getUlSched_grantsOf (regrantCalls 0).buffers).buffer g0 hg0
  have h1 := (getUlSched_grantsOf (regrantCalls 1).buffers).buffer g1 hg1
  rw [hb.same 0 (Nat.zero_le 1) g0 hg0 hr0] at h0
  rw [hb.same 1 (Nat.le_refl 1) g1 hg1 hr1, h0] at h1
  exact absurd h1 (by decide)

end MacState

end Srsenb.Mac
