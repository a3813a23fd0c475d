import Srsenb.Upper.RrcSteps

/-! # The slot tables count the UEs of each slot -/

open Srsenb.Run

namespace Srsenb.Pucch

/-- The UE holds slot `(i, j)`. -/
def Alloc.holds (a : Alloc) (i j : Nat) : Bool := a.allocated && a.prbIdx == i && a.sfIdx == j

/-- Each entry of the table is the number of the records in `m` that hold the slot. -/
def Accounts {β : Type} (f : β → Alloc) (t : NofUsers) (m : StdMap β) : Prop :=
  ∀ i j, t i j = StdMap.count (fun u => (f u).holds i j) m

variable {β : Type} {f : β → Alloc} {t t' : NofUsers} {m : StdMap β} {k : Nat} {u u' : β}

@[simp] theorem NofUsers.set_apply (t : NofUsers) (i j n a b : Nat) :
    t.set i j n a b = if a = i ∧ b = j then n else t a b := rfl

theorem holds_iff {a : Alloc} (h : a.allocated = true) {i j : Nat} :
    a.holds i j = true ↔ i = a.prbIdx ∧ j = a.sfIdx := by
  simp only [Alloc.holds, h, Bool.true_and, Bool.and_eq_true, beq_iff_eq]
  omega

theorem not_holds {a : Alloc} (h : a.allocated = false) (i j : Nat) : a.holds i j = false := by
  simp [Alloc.holds, h]

theorem Accounts.update (h : Accounts f t m) (hu : m[k]? = some u) (hf : f u' = f u) :
    Accounts f t (m.insert k u') := by
  intro i j
  rw [h i j, StdMap.count_insert, hf, StdMap.count_erase hu]

theorem Accounts.add (h : Accounts f t m) (hk : m[k]? = none) (hu : (f u).allocated = false) :
    Accounts f t (m.insert k u) := by
  intro i j
  rw [h i j, StdMap.count_insert_new hk, not_holds hu]
  rfl

/-- The record at `k` goes, and its slot is freed. -/
theorem Accounts.free (h : Accounts f t m) (hu : m[k]? = some u) :
    Accounts f (free t (f u)) (m.erase k) := by
  intro i j
  have hc := StdMap.count_erase (p := fun u => (f u).holds i j) hu
  have ht := h i j
  unfold Pucch.free
  by_cases ha : (f u).allocated = true
  · simp only [holds_iff ha] at hc
    by_cases hij : i = (f u).prbIdx ∧ j = (f u).sfIdx
    · obtain ⟨rfl, rfl⟩ := hij
      simp only [and_self, if_true] at hc
      split_ifs
      · simp only [NofUsers.set_apply, and_self, if_true]
        omega
      · omega
    · simp only [hij, if_false] at hc
      split_ifs
      · simp only [NofUsers.set_apply, hij, if_false]
        omega
      · omega
  · rw [not_holds (Bool.eq_false_iff.mpr ha)] at hc
    simp only [Bool.false_eq_true, if_false] at hc
    rw [if_neg ha]
    omega

/-- What an allocation does to the table and to the record. -/
structure Allocates (t t' : NofUsers) (a : Alloc) : Prop where
  table : t' = t.set a.prbIdx a.sfIdx (t a.prbIdx a.sfIdx + 1)
  allocated : a.allocated = true

theorem allocates_of_some {index : Nat → Nat → Option Nat} {c : CommonCfg} {cfg : SlotCfg}
    {a : Alloc} (h : allocate index c cfg t = some (t', a)) : Allocates t t' a := by
  obtain ⟨i, j, -, -, ht, ha, rfl, rfl, -, -⟩ := allocate_spec h
  exact ⟨ht, ha⟩

theorem count_alloc {a : Alloc} (ha : Allocates t t' a) (hu : m[k]? = some u) (hf : f u' = a)
    (h : Accounts f t m) (i j : Nat) :
    StdMap.count (fun u => (f u).holds i j) (m.insert k u') +
      (if (f u).holds i j then 1 else 0) = t' i j := by
  have hc := StdMap.count_erase (p := fun u => (f u).holds i j) hu
  have ht := h i j
  rw [StdMap.count_insert, hf, ha.table, NofUsers.set_apply]
  simp only [holds_iff ha.allocated]
  by_cases hij : i = a.prbIdx ∧ j = a.sfIdx
  · obtain ⟨rfl, rfl⟩ := hij
    simp only [and_self, if_true]
    omega
  · simp only [hij, if_false]
    omega

theorem Accounts.alloc {a : Alloc} (h : Accounts f t m) (ha : Allocates t t' a)
    (hu : m[k]? = some u) (hold : (f u).allocated = false) (hf : f u' = a) :
    Accounts f t' (m.insert k u') := by
  intro i j
  rw [← count_alloc ha hu hf h i j, not_holds hold]
  rfl

/-- A record that holds a slot and is given one again leaves its old slot counted for ever. -/
theorem Accounts.not_realloc {a : Alloc} (h : Accounts f t m) (ha : Allocates t t' a)
    (hu : m[k]? = some u) (hold : (f u).allocated = true) (hf : f u' = a) :
    ¬ Accounts f t' (m.insert k u') := by
  intro h'
  have hc := count_alloc ha hu hf h (f u).prbIdx (f u).sfIdx
  rw [← h' _ _, if_pos ((holds_iff hold).mpr ⟨rfl, rfl⟩)] at hc
  omega

end Srsenb.Pucch

namespace Srsenb.Rrc

open Pucch (Accounts Available cqiIndex)

/-- Both tables count the UEs that hold each slot. -/
def Accounted (s : State) : Prop :=
  Accounts Ue.sr s.srSched s.users ∧ Accounts Ue.cqi s.cqiSched s.users

/-- A connection request does not make a UE that holds a slot allocate one more. -/
def OnceHeld (s : State) : Event → Prop
  | .rx rnti (.srb0 (.rrcConReq _ _)) => ∀ u ∈ s.users[rnti]?, SrAvailable s →
      u.sr.allocated = false ∧ (CqiAvailable s → u.cqi.allocated = false)
  | _ => True

theorem accounted_init (cfg : Cfg) : Accounted (init cfg) := by
  constructor <;> · intro i j; simp [init]

/-- The tables and the records after `send_connection_setup`, resource by resource. -/
theorem accounts_allocated {f : Ue → Pucch.Alloc} {t : Pucch.NofUsers} {m : StdMap Ue} {k : Nat}
    {u u' : Ue} (res : Option (Pucch.NofUsers × Pucch.Alloc)) (h : Accounts f t m)
    (hu : m[k]? = some u) (hres : ∀ t' a, res = some (t', a) → Pucch.Allocates t t' a)
    (hf : f u' = (allocated res t (f u)).2) :
    Accounts f (allocated res t (f u)).1 (m.insert k u') ↔
      (res.isSome → (f u).allocated = false) := by
  cases res with
  | none => simpa [allocated] using h.update hu hf
  | some p =>
    have ha := hres p.1 p.2 rfl
    cases hold : (f u).allocated with
    | false => simpa [allocated] using h.alloc ha hu hold hf
    | true => simpa [allocated] using h.not_realloc ha hu hold hf

theorem request_accounted {s : State} {rnti cause : Nat} {sTmsi : Option (Nat × Nat)} {u : Ue}
    (h : Accounted s) (hu : s.users[rnti]? = some u) :
    Accounted (handleRrcConReq s rnti sTmsi cause).st ↔
      OnceHeld s (.rx rnti (.srb0 (.rrcConReq sTmsi cause))) := by
  obtain ⟨-, u', husers, hsr1, hsr2, hcqi1, hcqi2⟩ := handleRrcConReq_spec hu sTmsi cause
  have h1 := accounts_allocated (Pucch.srAllocate s.cfg.common s.cfg.srCfg s.srSched) h.1 hu
    (fun _ _ => Pucch.allocates_of_some) hsr2
  have h2 := accounts_allocated _ h.2 hu ?_ hcqi2
  · rw [Accounted, husers, hsr1, hcqi1, srAfter, h1, cqiAfter, h2]
    have hsr : (Pucch.srAllocate s.cfg.common s.cfg.srCfg s.srSched).isSome ↔ SrAvailable s :=
      Pucch.allocate_isSome
    have hcqi : (Pucch.cqiAllocate s.cfg.common s.cfg.cqiCfg s.cqiSched).isSome ↔
        Available cqiIndex s.cfg.common s.cfg.cqiCfg s.cqiSched := Pucch.allocate_isSome
    simp only [OnceHeld, hu, Option.mem_some_iff, forall_eq', hsr, CqiAvailable]
    by_cases hs : SrAvailable s <;> by_cases hp : s.cfg.cqiPeriodic = true <;>
      simp [hs, hp, hcqi]
  · intro t' a hres
    split_ifs at hres
    exact Pucch.allocates_of_some hres

/-- Every event but a connection request keeps the tables exact. -/
theorem Change.accounted {s s' : State} {e : Event} (hc : Change s e s') (h : Accounted s)
    (hne : ∀ rnti t c, e ≠ .rx rnti (.srb0 (.rrcConReq t c))) : Accounted s' := by
  cases hc with
  | same => exact h
  | kept hu hk => exact ⟨h.1.update hu hk.sr, h.2.update hu hk.cqi⟩
  | registered hu hsr hcqi _ => exact ⟨h.1.update hu hsr, h.2.update hu hcqi⟩
  | added hk => exact ⟨h.1.add hk rfl, h.2.add hk rfl⟩
  | removed =>
    unfold remUser
    split
    · exact h
    · rename_i u hu
      exact ⟨h.1.free hu, h.2.free hu⟩
  | @request rnti t c _ _ => exact absurd rfl (hne rnti t c)

theorem step_accounted {s : State} (h : Accounted s) (e : Event) :
    Accounted (step s e) ↔ OnceHeld s e := by
  by_cases hreq : ∃ rnti t c, e = .rx rnti (.srb0 (.rrcConReq t c))
  · obtain ⟨rnti, t, c, rfl⟩ := hreq
    cases hu : s.users[rnti]? with
    | none => simp [step, handle, hu, OnceHeld, h]
    | some u =>
      rw [← request_accounted h hu]
      simp [step, handle, handleItem, parseUlCcch, hu]
  · have hne : ∀ rnti t c, e ≠ .rx rnti (.srb0 (.rrcConReq t c)) :=
      fun rnti t c he => hreq ⟨rnti, t, c, he⟩
    have h' := (step_change s e).accounted h hne
    have ho : OnceHeld s e := by
      unfold OnceHeld
      split
      · rename_i rnti t c
        exact absurd rfl (hne rnti t c)
      · trivial
    exact iff_of_true h' ho

theorem accounted_step {s : State} {e : Event} (h : Accounted s) (hc : OnceHeld s e) :
    Accounted (step s e) := (step_accounted h e).mpr hc

/-! ## Removing every UE -/

/-- The REM_USER items of all UEs. -/
def removeAll (s : State) : List Event := s.users.keys.map fun rnti => .rx rnti .remUser

theorem step_remUser_users (s : State) (rnti a : Nat) :
    (step s (.rx rnti .remUser)).users[a]? = if rnti = a then none else s.users[a]? := by
  cases hu : s.users[rnti]? with
  | none =>
    simp only [step, handle, hu, Option.isSome_none, Bool.false_eq_true, if_false]
    split_ifs with h
    · rw [← h, hu]
    · rfl
  | some u => simp [step, handle, handleItem, remUser, hu]

theorem exec_remUser_users (ks : List Nat) (s : State) (a : Nat) :
    (exec step s (ks.map fun rnti => .rx rnti .remUser)).users[a]? =
      if a ∈ ks then none else s.users[a]? := by
  induction ks generalizing s with
  | nil => simp
  | cons k ks ih =>
    rw [List.map_cons, exec_cons, ih, step_remUser_users]
    by_cases h : k = a
    · subst h; simp
    · simp [h, Ne.symm h]

theorem removeAll_users (s : State) : (exec step s (removeAll s)).users = ∅ := by
  apply Std.ExtTreeMap.ext_getElem?
  intro a
  rw [removeAll, exec_remUser_users]
  split_ifs with h
  · simp
  · rw [Std.ExtTreeMap.mem_keys] at h
    simp [h]

theorem removeAll_accounted {s : State} (h : Accounted s) :
    Accounted (exec step s (removeAll s)) := by
  have hrun : ∀ ks : List Nat, AllSteps step OnceHeld s (ks.map fun rnti => .rx rnti .remUser) := by
    intro ks
    generalize s = s
    induction ks generalizing s with
    | nil => trivial
    | cons k ks ih => exact ⟨trivial, ih _⟩
  have hall : AllStates step Accounted s (removeAll s) := by
    refine allStates_of_allSteps ?_ h (hrun _)
    exact fun s e => accounted_step
  exact hall.last

/-- **PUCCH slot accounting.** The tables are exact in every state of a run if and only if no
connection request makes a UE allocate again, and then removing every UE empties the tables. -/
theorem slots_accounted_iff (cfg : Cfg) (es : List Event) :
    (AllStates step Accounted (init cfg) es ↔ AllSteps step OnceHeld (init cfg) es) ∧
      (AllSteps step OnceHeld (init cfg) es →
        let s := exec step (init cfg) es
        let s' := exec step s (removeAll s)
        ∀ i j, s'.srSched i j = 0 ∧ s'.cqiSched i j = 0) := by
  have hiff : AllSteps step OnceHeld (init cfg) es ↔
      AllSteps step (fun _ _ => True) (init cfg) es ∧ AllStates step Accounted (init cfg) es := by
    refine allSteps_iff (fun _ _ => True) ?_ ?_ trivial (accounted_init cfg)
    · exact fun s e _ _ hs hc => ⟨trivial, accounted_step hs hc, trivial⟩
    · exact fun s e _ _ hs hc _ hs' => hc ((step_accounted hs e).mp hs')
  refine ⟨?_, ?_⟩
  · rw [hiff]
    exact ⟨fun h => ⟨AllSteps.trivial _ _, h⟩, And.right⟩
  · intro h s s' i j
    have hs' : Accounted s' := removeAll_accounted (hiff.mp h).2.last
    have hempty : s'.users = ∅ := removeAll_users s
    have h1 := hs'.1 i j
    have h2 := hs'.2 i j
    rw [hempty, StdMap.count_empty] at h1 h2
    exact ⟨h1, h2⟩

/-- The UE does not hear the connection setup and sends its request again. -/
def repeatedRun : List Event :=
  [.addUser 70, .rx 70 (.srb0 (.rrcConReq none 3)), .rx 70 (.srb0 (.rrcConReq none 3)),
    .rx 70 .remUser]

theorem slots_not_accounted_repeatedRun :
    (exec step (init exampleCfg) repeatedRun).users[70]? = none ∧
      (exec step (init exampleCfg) repeatedRun).srSched 0 0 = 1 ∧
      ¬ AllStates step Accounted (init exampleCfg) repeatedRun := by
  have hcount : (exec step (init exampleCfg) repeatedRun).srSched 0 0 = 1 := by decide
  have hnone : (exec step (init exampleCfg) repeatedRun).users.toList = [] := by decide
  refine ⟨by decide, hcount, fun h => ?_⟩
  have h0 := h.last.1 0 0
  rw [hcount, StdMap.count, hnone] at h0
  exact absurd h0 (by decide)

end Srsenb.Rrc
