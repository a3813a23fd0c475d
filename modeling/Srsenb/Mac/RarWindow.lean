import Srsenb.Mac.RarGrants

/-! # The window of a response

`dl_sched_rar` compares the TTIs one time modulo 10240 and one time as they are, and discards what
it does not find inside. -/

namespace Srsenb.Mac.Sched

variable (lib : Lib) {s : Sched} {out : Elems DlSchedRar} {i : Nat}

/-- Subframes since the preamble. -/
def rarAge (s : Sched) (r : SchedRar) : Nat := (s.currentTti + 10240 - r.rarTti) % 10240

/-- The round for entry `i` looks at the window. -/
def RarDue (s : Sched) (i : Nat) : Prop :=
  (s.pendingRar i).bufRar > 0 ∧ s.availRbg ≥ s.rarNRbg

/-- The window opens three subframes after the preamble. -/
def InCyclicWindow (s : Sched) (r : SchedRar) : Prop :=
  3 ≤ s.rarAge r ∧ s.rarAge r ≤ s.cfg.prachRarWindow + 3

/-- A candidate of the common locations is free. -/
def RarPlaceable (s : Sched) : Prop :=
  ∃ cand < (s.rarLocations (s.currentCfi - 1) s.sfIdx).nofLoc s.rarAggrLevel,
    s.cce.firstUsed ((s.rarLocations (s.currentCfi - 1) s.sfIdx).cceStart s.rarAggrLevel cand)
      s.rarAggrLevel = none

/-- The round for entry `i` takes its window as cyclic: it is inside, answered where a DCI can be
placed, and kept before the window opens. -/
structure TakesCyclic (s : Sched) (out : Elems DlSchedRar) (i : Nat) : Prop where
  inside : s.RarDue i →
    (s.inRarWindow (s.pendingRar i) = true ↔ s.InCyclicWindow (s.pendingRar i))
  answered : s.RarDue i → s.InCyclicWindow (s.pendingRar i) → s.RarPlaceable →
    ∃ rar, (rarSched lib (s, out) i).2.done = out.done ++ [rar] ∧
      rar.rarnti = ((s.pendingRar i).rarTti + 1) % 10
  kept : s.RarDue i → s.rarAge (s.pendingRar i) < 3 →
    (rarSched lib (s, out) i).1.pendingRar i = s.pendingRar i

/-- The end of the window does not wrap, or has passed. -/
def NoWrap (s : Sched) (r : SchedRar) : Prop :=
  r.rarTti + s.cfg.prachRarWindow + 3 < 10240 ∨ s.cfg.prachRarWindow + 3 < s.rarAge r

/-- The two comparisons are one modulo 10240, except in a window that wraps. -/
theorem inRarWindow_iff {r : SchedRar} (ht : s.currentTti < 10240) (hr : r.rarTti < 10240)
    (hw : s.cfg.prachRarWindow < 5000) : s.inRarWindow r = true ↔
      r.rarTti + s.cfg.prachRarWindow + 3 < 10240 ∧ s.InCyclicWindow r := by
  simp only [inRarWindow, InCyclicWindow, rarAge, Bool.and_eq_true, decide_eq_true_eq]
  omega

theorem discards_pendingRar (h : s.Discards i) :
    (rarSched lib (s, out) i).1.pendingRar i =
      { s.pendingRar i with bufRar := 0, rarTti := 0 } := by
  have hsilent : ¬ s.Answers i := fun ha => Bool.false_ne_true (h.2.2.symm.trans ha.2.2.1)
  obtain ⟨-, -, htable⟩ := rarSched_silent lib out hsilent
  rw [htable, if_pos h, Function.update_self]

/-- **The window of a response is cyclic**, exactly where the round comes to it after it opened,
and its end does not wrap or has passed. -/
theorem takes_cyclic_iff (s : Sched) (out : Elems DlSchedRar) (hi : i < schedMaxPendingRar)
    (ht : s.currentTti < 10240) (hr : (s.pendingRar i).rarTti < 10240)
    (hw : s.cfg.prachRarWindow < 5000) :
    TakesCyclic lib s out i ↔
      (s.RarDue i → 3 ≤ s.rarAge (s.pendingRar i) ∧ s.NoWrap (s.pendingRar i)) := by
  have hiff := inRarWindow_iff ht hr hw
  constructor
  · intro h hdue
    have hinside := h.inside hdue
    have hopen : 3 ≤ s.rarAge (s.pendingRar i) := by
      by_contra hearly
      -- What has not opened is outside, so it is discarded.
      have hout : s.inRarWindow (s.pendingRar i) = false := by
        by_contra hin
        exact hearly (hinside.mp (by simpa using hin)).1
      have hkept := h.kept hdue (by omega)
      rw [discards_pendingRar lib ⟨hdue.1, hdue.2, hout⟩] at hkept
      have hbuf := hdue.1
      rw [← hkept] at hbuf
      exact absurd hbuf (lt_irrefl 0)
    refine ⟨hopen, ?_⟩
    unfold NoWrap
    by_contra hwrap
    push Not at hwrap
    exact absurd (hiff.mp (hinside.mpr ⟨hopen, hwrap.2⟩)).1 (by omega)
  · intro h
    have hinside : s.RarDue i →
        (s.inRarWindow (s.pendingRar i) = true ↔ s.InCyclicWindow (s.pendingRar i)) := by
      intro hdue
      rw [hiff, and_iff_right_iff_imp]
      exact fun hin => (h hdue).2.resolve_right (not_lt.mpr hin.2)
    refine ⟨hinside, fun hdue hin hplace => ?_, fun hdue hearly => ?_⟩
    · obtain ⟨rar, hdone, -, -, hrnti, -⟩ := rarSched_answers lib out hi
        ⟨hdue.1, hdue.2, (hinside hdue).mpr hin, hplace⟩
      exact ⟨rar, hdone, hrnti⟩
    · exact absurd (h hdue).1 (not_le.mpr hearly)

/-- A cell with a preamble of TTI 10239, in TTI 5. -/
def lateFrame : Sched :=
  { exampleSched with
    cfg := { exampleCell with prachRarWindow := 10 }, availRbg := 6, currentTti := 5, sfIdx := 5,
    currentCfi := 3, rarAggrLevel := 2
    pendingRar := fun i => if i = 0 then { bufRar := 7, rnti := 70, rarTti := 10239 } else {} }

/-- The window of a preamble of TTI 0 does not wrap. -/
theorem takes_cyclic_earlyFrame : TakesCyclic exampleLib
    { lateFrame with pendingRar := fun _ => { bufRar := 7, rnti := 70 } } ⟨[], default⟩ 0 :=
  (takes_cyclic_iff exampleLib _ _ (by decide) (by decide) (by decide) (by decide)).mpr
    fun _ => ⟨by decide, Or.inl (by decide)⟩

theorem not_takes_cyclic_lateFrame : ¬ ∀ (lib : Lib) (s : Sched) (out : Elems DlSchedRar) (i : Nat),
    i < schedMaxPendingRar → s.currentTti < 10240 → (s.pendingRar i).rarTti < 10240 →
    s.cfg.prachRarWindow < 5000 → TakesCyclic lib s out i := by
  intro h
  have hcyclic := h exampleLib lateFrame ⟨[], default⟩ 0 (by decide) (by decide) (by decide)
    (by decide)
  have hin := (hcyclic.inside ⟨by decide, by decide⟩).mpr ⟨by decide, by decide⟩
  exact absurd hin (by decide)

end Srsenb.Mac.Sched
