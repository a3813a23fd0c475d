import Srsenb.Base.RoundRobin
import Srsenb.Base.Rounds
import Srsenb.Mac.Sched

/-! # The order of the users in the metrics -/

namespace Srsenb.Mac

open StdMap

/-- What a call of each metric finds: the users, the metrics, and the RBGs and symbols. -/
structure Turn where
  ueDb : StdMap SchedUe
  dl : DlMetric := {}
  ul : UlMetric := {}
  startRbg : Nat := 0
  nofRbg : Nat := 0
  nofCtrlSymbols : Nat := 0

namespace Turn

variable (lib : Lib) (x : Turn) (tti : Nat)

/-! ## The loops of `new_tti` -/

/-- The index of the user that the downlink starts with. -/
def dlPriority : Nat := tti % x.ueDb.size

/-- The index of the user that the second loop of the uplink starts with. -/
def ulPriority : Nat := (tti + x.ueDb.size / 2) % x.ueDb.size

def dlStart : DlMetric := x.dl.start x.startRbg x.nofRbg x.nofCtrlSymbols tti

def ulStart : UlMetric := { x.ul with currentTti := tti }

def dlLoop : DlMetric × StdMap SchedUe :=
  if x.ueDb.size = 0 then (x.dlStart tti, x.ueDb)
  else roundRobin (DlMetric.visitUser lib) x.ueDb.keys x.ueDb.size (x.dlPriority tti)
    (x.dlStart tti) x.ueDb

def ulRetxLoop : UlMetric × StdMap SchedUe :=
  roundRobin (UlMetric.visitRetx lib) x.ueDb.keys x.ueDb.size 0 (x.ulStart tti) x.ueDb

def ulLoops : UlMetric × StdMap SchedUe :=
  if x.ueDb.size = 0 then (x.ulStart tti, x.ueDb)
  else
    let (m, db) := x.ulRetxLoop lib tti
    roundRobin (UlMetric.visitNewtx lib) db.keys db.size (x.ulPriority tti) m db

/-! ## Their calls -/

/-- The users that `apply_user_allocation` is called for, in order. -/
def dlCalls : List Nat :=
  (roundRobin (logged (DlMetric.visitUser lib) fun _ => true) x.ueDb.keys x.ueDb.size
    (x.dlPriority tti) (x.dlStart tti, []) x.ueDb).1.2

/-- The users that `allocate_user_retx_prbs` is called for. -/
def ulRetxCalls : List Nat :=
  (roundRobin (logged (UlMetric.visitRetx lib) fun _ => true) x.ueDb.keys x.ueDb.size 0
    (x.ulStart tti, []) x.ueDb).1.2

/-- The users that the second loop comes to and that have `calls`. -/
def ulNewtxRounds (calls : SchedUe → Bool) : List Nat :=
  let (m, db) := x.ulRetxLoop lib tti
  (roundRobin (logged (UlMetric.visitNewtx lib) calls) db.keys db.size (x.ulPriority tti)
    (m, []) db).1.2

/-- The users that `allocate_user_newtx_prbs` is called for. -/
def ulNewtxCalls : List Nat := x.ulNewtxRounds lib tti fun u => u.ulNextAlloc.isNone

/-- All users that the second loop comes to. -/
def ulNewtxOrder : List Nat := x.ulNewtxRounds lib tti fun _ => true

/-- Each user is called for once; in the second uplink loop, each without a retransmission. -/
structure CallsOnce : Prop where
  dl : (x.dlCalls lib tti).Perm x.ueDb.keys
  ulRetx : (x.ulRetxCalls lib tti).Perm x.ueDb.keys
  ulNewtx : (x.ulNewtxCalls lib tti).Perm
    (x.ueDb.keys.filter fun k => (x.ulRetxLoop lib tti).2[k]?.any fun u => u.ulNextAlloc.isNone)

variable {lib x tti}

theorem loop_eq {σ : Type} {f : σ → Nat → SchedUe → σ × SchedUe} {db : StdMap SchedUe}
    {idx : Nat} (h : idx ≤ db.size) (s : σ) :
    roundRobin f db.keys db.size idx s db = db.visit f (fromPriority db idx) s := by
  rw [size_eq_length_keys] at h ⊢
  rw [roundRobin_eq_visit, iterKeys_eq_rotate h]
  rfl

theorem mod_size_le (db : StdMap SchedUe) (n : Nat) (h : db.size ≠ 0) : n % db.size ≤ db.size :=
  (Nat.mod_lt n (Nat.pos_of_ne_zero h)).le

/-- The loop of the downlink metric goes over the users in the order of the model. -/
theorem dlLoop_eq : x.dlLoop lib tti =
    x.dl.newTti lib x.ueDb x.startRbg x.nofRbg x.nofCtrlSymbols tti := by
  unfold dlLoop
  split_ifs with h
  · have hkeys : fromPriority x.ueDb (tti % x.ueDb.size) = [] := by
      rw [size_eq_length_keys] at h
      rw [fromPriority, List.length_eq_zero_iff.mp h, List.rotate_nil]
    rw [DlMetric.newTti, hkeys]
    rfl
  · exact loop_eq (mod_size_le _ _ h) _

theorem ulRetxLoop_eq : x.ulRetxLoop lib tti =
    x.ueDb.visit (UlMetric.visitRetx lib) x.ueDb.keys (x.ulStart tti) := by
  unfold ulRetxLoop
  rw [loop_eq (Nat.zero_le _), fromPriority, List.rotate_zero]

theorem keys_ulRetxLoop : (x.ulRetxLoop lib tti).2.keys = x.ueDb.keys := by
  rw [ulRetxLoop_eq]
  exact keys_congr fun k => visit_isSome _ _ _ k

theorem size_ulRetxLoop : (x.ulRetxLoop lib tti).2.size = x.ueDb.size := by
  rw [size_eq_length_keys, keys_ulRetxLoop, ← size_eq_length_keys]

theorem ulPriority_le (h : x.ueDb.size ≠ 0) : x.ulPriority tti ≤ (x.ulRetxLoop lib tti).2.size := by
  rw [size_ulRetxLoop]
  exact mod_size_le _ _ h

/-- So do the loops of the uplink metric. -/
theorem ulLoops_eq : x.ulLoops lib tti = x.ul.newTti lib x.ueDb tti := by
  have hretx := @ulRetxLoop_eq lib x tti
  unfold ulLoops
  split_ifs with h
  · have hkeys : x.ueDb.keys = [] := by
      rw [size_eq_length_keys] at h
      exact List.length_eq_zero_iff.mp h
    simp only [UlMetric.newTti, hkeys, visit, fromPriority, List.rotate_nil]
    rfl
  · simp only [loop_eq (ulPriority_le h)]
    rw [ulPriority, ← size_ulRetxLoop, hretx]
    rfl

/-! ## Once for each user -/

/-- A loop records each entry with `calls` once. -/
theorem log_perm {σ : Type} (f : σ → Nat → SchedUe → σ × SchedUe) (db : StdMap SchedUe)
    {idx : Nat} (h : db.size ≠ 0 → idx ≤ db.size) (calls : SchedUe → Bool) (s : σ) :
    ((roundRobin (logged f calls) db.keys db.size idx (s, []) db).1.2).Perm
      (db.keys.filter fun k => db[k]?.any calls) := by
  by_cases h0 : db.size = 0
  · have hkeys : db.keys = [] := by
      rw [size_eq_length_keys] at h0
      exact List.length_eq_zero_iff.mp h0
    rw [h0, hkeys]
    exact List.Perm.refl _
  · have hperm : (fromPriority db idx).Perm db.keys := List.rotate_perm _ _
    rw [loop_eq (h h0), visit_logged (hperm.nodup_iff.mpr (nodup_keys db)), List.nil_append]
    exact hperm.filter _

theorem filter_all (db : StdMap SchedUe) :
    (db.keys.filter fun k => db[k]?.any fun _ => true) = db.keys := by
  refine List.filter_eq_self.mpr fun k hk => ?_
  obtain ⟨u, hu⟩ := Option.isSome_iff_exists.mp (mem_keys.mp hk)
  rw [hu]
  rfl

theorem callsOnce (lib : Lib) (x : Turn) (tti : Nat) : x.CallsOnce lib tti where
  dl := by
    have h := log_perm (DlMetric.visitUser lib) x.ueDb (mod_size_le x.ueDb tti) (fun _ => true)
      (x.dlStart tti)
    rwa [filter_all] at h
  ulRetx := by
    have h := log_perm (UlMetric.visitRetx lib) x.ueDb (fun _ => Nat.zero_le _) (fun _ => true)
      (x.ulStart tti)
    rwa [filter_all] at h
  ulNewtx := by
    have hidx : (x.ulRetxLoop lib tti).2.size ≠ 0 →
        x.ulPriority tti ≤ (x.ulRetxLoop lib tti).2.size :=
      fun h => ulPriority_le (by rwa [← @size_ulRetxLoop lib x tti])
    rw [← @keys_ulRetxLoop lib x tti]
    exact log_perm (UlMetric.visitNewtx lib) _ hidx (fun u => u.ulNextAlloc.isNone) _

/-! ## First in turn -/

/-- The loop starts with the entry at its first place. -/
theorem log_head {σ : Type} {f : σ → Nat → SchedUe → σ × SchedUe} {db : StdMap SchedUe} {idx : Nat}
    (h : idx < db.size) (s : σ) :
    (roundRobin (logged f fun _ => true) db.keys db.size idx (s, []) db).1.2.head? =
      db.keys[idx]? := by
  have hperm : (fromPriority db idx).Perm db.keys := List.rotate_perm _ _
  have hall : ((fromPriority db idx).filter fun k => db[k]?.any fun _ => true) =
      fromPriority db idx := by
    refine List.filter_eq_self.mpr fun k hk => ?_
    obtain ⟨u, hu⟩ := Option.isSome_iff_exists.mp (mem_keys.mp (hperm.mem_iff.mp hk))
    rw [hu]
    rfl
  rw [loop_eq h.le, visit_logged (hperm.nodup_iff.mpr (nodup_keys db)), List.nil_append, hall]
  rw [size_eq_length_keys] at h
  rw [fromPriority, List.head?_rotate h]

/-- In as many turns as there are users each user is first once. -/
def FirstOnce (n : Nat) (order : Nat → List Nat) (k : Nat) : Prop :=
  ∃! i, i < n ∧ (order i).head? = some k

theorem firstOnce_of_start {keys : List Nat} (hnd : keys.Nodup) {k c : Nat} (hk : k ∈ keys)
    {order : Nat → List Nat}
    (horder : ∀ i < keys.length, (order i).head? = keys[(c + i) % keys.length]?) :
    FirstOnce keys.length order k := by
  obtain ⟨j, hj, rfl⟩ := List.mem_iff_getElem.mp hk
  have hfirst : ∀ i < keys.length,
      ((order i).head? = some keys[j] ↔ (c + i) % keys.length = j) := by
    intro i hi
    have hlt := Nat.mod_lt (c + i) (Nat.zero_lt_of_lt hj)
    rw [horder i hi, List.getElem?_eq_getElem hlt, Option.some.injEq, hnd.getElem_inj_iff]
  obtain ⟨i, ⟨hi, hij⟩, huniq⟩ := existsUnique_start hj c
  exact ⟨i, ⟨hi, (hfirst i hi).mpr hij⟩, fun l hl => huniq l ⟨hl.1, (hfirst l hl.1).mp hl.2⟩⟩

/-- **Round robin visits everybody fairly**: each loop calls for each of its users once, and in as
many TTIs in a row as there are users each is first once. -/
theorem round_robin_fair (lib : Lib) (turns : Nat → Turn) (keys : List Nat)
    (hkeys : ∀ i, (turns i).ueDb.keys = keys) :
    (∀ i tti, (turns i).CallsOnce lib tti) ∧
      ∀ t, t + keys.length ≤ 10240 → ∀ k ∈ keys,
        FirstOnce keys.length (fun i => (turns i).dlCalls lib ((t + i) % 10240)) k ∧
          FirstOnce keys.length (fun i => (turns i).ulNewtxOrder lib ((t + i) % 10240)) k := by
  refine ⟨fun i tti => callsOnce lib (turns i) tti, fun t ht k hk => ?_⟩
  have hsize : ∀ i, (turns i).ueDb.size = keys.length := fun i => by
    rw [size_eq_length_keys, hkeys]
  have hnd : keys.Nodup := hkeys 0 ▸ nodup_keys (turns 0).ueDb
  have hpos := List.length_pos_of_mem hk
  constructor
  · refine firstOnce_of_start hnd hk (c := t) fun i hi => ?_
    have hmod : (turns i).dlPriority ((t + i) % 10240) = (t + i) % keys.length := by
      rw [dlPriority, hsize, Nat.mod_eq_of_lt (by omega : t + i < 10240)]
    have hlt : (turns i).dlPriority ((t + i) % 10240) < (turns i).ueDb.size := by
      rw [hmod, hsize]
      exact Nat.mod_lt _ hpos
    rw [dlCalls, log_head hlt, hmod, hkeys]
  · refine firstOnce_of_start hnd hk (c := t + keys.length / 2) fun i hi => ?_
    have hmod : (turns i).ulPriority ((t + i) % 10240) =
        (t + keys.length / 2 + i) % keys.length := by
      rw [ulPriority, hsize, Nat.mod_eq_of_lt (by omega : t + i < 10240), Nat.add_right_comm]
    have hlt : (turns i).ulPriority ((t + i) % 10240) <
        ((turns i).ulRetxLoop lib ((t + i) % 10240)).2.size := by
      rw [size_ulRetxLoop, hmod, hsize]
      exact Nat.mod_lt _ hpos
    rw [ulNewtxOrder, ulNewtxRounds, log_head hlt, hmod, keys_ulRetxLoop, hkeys]

/-- Three users without data. -/
def threeUsers : Turn where
  ueDb :=
    let ue : SchedUe :=
      { rnti := 70, cell := ⟨6, 1, 7⟩, P := 1
        dciLocations := fun _ _ => ⟨fun _ _ => 0, fun _ => 0⟩
        dlHarq := fun _ => {}, ulHarq := fun _ => {} }
    (((∅ : StdMap SchedUe).insert 70 ue).insert 71 ue).insert 72 ue

/-- In the last three TTIs before the wrap. -/
theorem round_robin_fair_three :
    FirstOnce 3 (fun i => threeUsers.dlCalls exampleLib ((10237 + i) % 10240)) 71 ∧
      FirstOnce 3 (fun i => threeUsers.ulNewtxOrder exampleLib ((10237 + i) % 10240)) 71 :=
  (round_robin_fair exampleLib (fun _ => threeUsers) [70, 71, 72] fun _ => by decide).2 10237
    (by decide) 71 (by decide)

end Turn

end Srsenb.Mac
