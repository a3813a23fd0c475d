import Srsenb.Mac.Sched

/-! # What the grants leave of a user

The generators of DCI formats change one process, buffers and power control. The resources of a
grant are those that its process holds. -/

namespace Srsenb.Mac

/-- The user is the same, and so is what its uplink processes were given. -/
def SameAlloc (u u' : SchedUe) : Prop :=
  u'.rnti = u.rnti ∧ ∀ pid, (u'.ulHarq pid).allocation = (u.ulHarq pid).allocation

namespace SameAlloc

variable {u u' u'' : SchedUe} {pid : Pid} {h : UlHarqProc}

theorem refl (u : SchedUe) : SameAlloc u u := ⟨rfl, fun _ => rfl⟩

theorem trans (h : SameAlloc u u') (h' : SameAlloc u' u'') : SameAlloc u u'' :=
  ⟨h'.1.trans h.1, fun pid => (h'.2 pid).trans (h.2 pid)⟩

theorem setUl (hh : h.allocation = (u.ulHarq pid).allocation) : SameAlloc u (u.setUl pid h) := by
  refine ⟨rfl, fun i => ?_⟩
  by_cases hi : i = pid
  · subst hi
    rw [SchedUe.setUl_ulHarq, hh]
  · rw [SchedUe.setUl_ulHarq_ne h hi]

theorem needsCqi (lib : Lib) (u : SchedUe) (tti : Nat) (b : Bool) :
    SameAlloc u (u.needsCqi lib tti b).2 := by
  simp only [SchedUe.needsCqi]
  split_ifs <;> exact refl _

theorem setDl (h : DlHarqProc) : SameAlloc u (u.setDl pid h) := ⟨rfl, fun _ => rfl⟩

theorem resetTimeout (lib : Lib) (tti : Nat) : SameAlloc u (u.resetTimeoutDlHarq lib tti) :=
  ⟨rfl, fun _ => rfl⟩

end SameAlloc

/-- The PRBs of a grant. -/
def UlSchedData.alloc (d : UlSchedData) : UlAlloc := ⟨d.dci.rbStart, d.dci.lCrb⟩

section Grant

variable (lib : Lib)

/-- Whichever way the process goes on, it keeps its PRBs. -/
theorem format0Proc_allocation (u : SchedUe) (h : UlHarqProc) (tti : Nat) :
    (u.format0Proc lib h tti).1.allocation = h.allocation := by
  simp only [SchedUe.format0Proc]
  split
  · rename_i h' mcs hr
    unfold UlHarqProc.getRarMcs at hr
    split_ifs at hr
    simp only [Option.some.injEq, Prod.mk.injEq] at hr
    exact hr.1 ▸ rfl
  · split_ifs <;> rfl

/-- A grant carries the PRBs of the process, and no process gets others. -/
theorem generateFormat0_spec (u : SchedUe) (pid : Pid) (slot : UlSchedData) (tti : Nat)
    (cqi : Bool) :
    SameAlloc u (u.generateFormat0 lib pid slot tti cqi).1 ∧
      (0 < (u.generateFormat0 lib pid slot tti cqi).2.2 →
        (u.generateFormat0 lib pid slot tti cqi).2.1.rnti = u.rnti ∧
          (u.generateFormat0 lib pid slot tti cqi).2.1.alloc = (u.ulHarq pid).allocation) := by
  have hset := SameAlloc.setUl (u := u)
    (format0Proc_allocation lib u (u.ulHarq pid) tti)
  by_cases htbs : (u.format0Proc lib (u.ulHarq pid) tti).2.2.2 > 0
  · simp only [SchedUe.generateFormat0, htbs, if_true]
    exact ⟨hset, fun _ => ⟨trivial, rfl⟩⟩
  · simp only [SchedUe.generateFormat0, htbs, if_false]
    exact ⟨hset, fun hpos => hpos.elim⟩

end Grant

/-! ## Downlink -/

section DlGrant

variable (lib : Lib) (u : SchedUe) (pid : Pid) (slot : DlSchedData) (tti cfi : Nat)

/-- The mask of a grant is the one of its process, as the generator finds it. -/
def CarriesMask (u : SchedUe) (pid : Pid) (r : SchedUe × DlSchedData × Int) : Prop :=
  SameAlloc u r.1 ∧ r.2.1.dci.alloc = .type0 (u.dlHarq pid).rbgmask

theorem generateFormat1_spec :
    CarriesMask u pid (u.generateFormat1 lib pid slot tti cfi) := by
  cases hempty : (u.dlHarq pid).isEmpty 0 with
  | true =>
    simp only [CarriesMask, SchedUe.generateFormat1, hempty, if_true]
    split_ifs <;> exact ⟨⟨rfl, fun _ => rfl⟩, rfl⟩
  | false =>
    simp only [CarriesMask, SchedUe.generateFormat1, hempty, Bool.false_eq_true, if_false]
    split_ifs <;> exact ⟨⟨rfl, fun _ => rfl⟩, rfl⟩

theorem format2aTb_spec (nofPrb nofRe : Nat) (tbEn noRetx : Bool) (tb : Fin 2) :
    SameAlloc u (SchedUe.format2aTb lib pid nofPrb nofRe tti tbEn noRetx tb u slot).1 ∧
      (SchedUe.format2aTb lib pid nofPrb nofRe tti tbEn noRetx tb u slot).2.dci.alloc =
        slot.dci.alloc := by
  simp only [SchedUe.format2aTb]
  split_ifs <;> exact ⟨⟨rfl, fun _ => rfl⟩, rfl⟩

theorem generateFormat2a_spec :
    CarriesMask u pid (u.generateFormat2a lib pid slot tti cfi) := by
  unfold CarriesMask SchedUe.generateFormat2a
  obtain ⟨h0, ha0⟩ := format2aTb_spec lib u pid
    { slot with dci := { alloc := .type0 (u.dlHarq pid).rbgmask } } tti _ _ _ _ 0
  obtain ⟨h1, ha1⟩ := format2aTb_spec lib _ pid _ tti _ _ _ _ 1
  exact ⟨h0.trans h1, ha1.trans ha0⟩

theorem generateFormat_spec {format : DciFormat} (hf : format ≠ .format0) :
    CarriesMask u pid (Sched.generateFormat lib format u pid slot tti cfi) := by
  cases format with
  | format0 => exact absurd rfl hf
  | format1 => exact generateFormat1_spec lib u pid slot tti cfi
  | format2 =>
    obtain ⟨h, ha⟩ := generateFormat2a_spec lib u pid slot tti cfi
    exact ⟨h, ha⟩
  | format2a => exact generateFormat2a_spec lib u pid slot tti cfi

end DlGrant

end Srsenb.Mac
