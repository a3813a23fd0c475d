import Mathlib.Algebra.BigOperators.Group.List.Basic
import Mathlib.Algebra.Order.BigOperators.Group.List
import Mathlib.Tactic.Linarith
import Srsenb.Mac.Lib

/-! # Scheduling of the MCH (`mac/mac.cc`) -/

namespace Srsenb.Mac

/-- `dl_mtch_sched_t` -/
structure Mtch where
  lcid : Nat
  lcidBufferSize : Nat
  stop : Nat := 0
  deriving DecidableEq, Repr

/-- The conversions to `float`, and back to `uint32_t`. -/
structure FloatLib where
  /-- `(uint32_t) (float) n` of a whole number -/
  round : Nat → Nat
  /-- `(uint32_t) (float) ceil(((float) a) / ((float) b))` -/
  ceilDiv : Nat → Int → Nat

/-- A `float` has 24 bits: whole numbers of so many bits and the ceilings of their quotients are
exact. -/
structure FloatLib.Exact (F : FloatLib) : Prop where
  round : ∀ n, n ≤ 2 ^ 24 → F.round n = n
  ceilDiv : ∀ a b : Nat, a ≤ 2 ^ 24 → b ≤ 2 ^ 24 → 0 < b → F.ceilDiv a b = (a + b - 1) / b

/-! ## `build_mch_sched` -/

section Build

variable (F : FloatLib) (tbs sfAllocEnd : Nat) (ms : List Mtch)

/-- `bytes_per_sf`, with 6 bytes left for the header. -/
def bytesPerSf : Int := i32 (tbs / 8 - 6)

/-- `total_space_avail_bytes` -/
def totalSpaceAvail : Int := i32 (sfAllocEnd * bytesPerSf tbs)

/-- `total_bytes_to_tx` -/
def totalBytesToTx : Int := ms.foldl (fun t m => i32 (t + m.lcidBufferSize)) 0

/-- A loop over the MTCHs; each gets the subframes up to its stop. -/
def assignSfs (assigned : Nat → Option Nat) : Nat → List Mtch → Option (List Mtch)
  | _, [] => some []
  | lastMtchStop, m :: ms =>
    match assigned m.lcidBufferSize with
    | none => none
    | some sfs =>
      let stop := u32 (lastMtchStop + sfs)
      match assignSfs assigned stop ms with
      | none => none
      | some ms' => some ({ m with stop := stop } :: ms')

/-- The whole quotient of the sizes, by which the subframes are multiplied. -/
def sharedSfs (size : Nat) : Option Nat :=
  if toU32 (totalBytesToTx ms) = 0 then none
  else
    let ratio := size / toU32 (totalBytesToTx ms)
    some (F.round (sfAllocEnd * ratio))

/-- The subframes for all bytes. -/
def neededSfs (size : Nat) : Option Nat :=
  if bytesPerSf tbs = 0 then none else some (F.ceilDiv size (bytesPerSf tbs))

/-- `none` where the code divides by zero. -/
def buildMchSched : Option (List Mtch) :=
  if totalBytesToTx ms ≥ totalSpaceAvail tbs sfAllocEnd then
    assignSfs (sharedSfs F sfAllocEnd ms) 0 ms
  else assignSfs (neededSfs F tbs) 0 ms

end Build

/-! ## `get_mch_sched` -/

/-- `dl_pdu_mch_t` -/
structure Mch where
  mtchSched : List Mtch
  currentSfAllocationNum : Nat

/-- What a call puts into the grant: the schedule with the MCCH, or the bytes of one MTCH. -/
inductive MchGrant
  | mcch (sched : List (Nat × Nat)) (mcchLength : Nat)
  | mtch (lcid requested bytesReceived : Nat)
  | none

/-- The bytes that are requested of the RLC for an MTCH, as a `uint32_t`. -/
def requestedBytes (tbs size : Nat) : Nat :=
  if ((tbs / 8 : Nat) : Int) > i32 size then size else toU32 (((tbs / 8 : Nat) : Int) - 2)

/-- `none` where there is no last MTCH, or where the schedule divides by zero. -/
def getMchSched (F : FloatLib) (readPdu : Nat → Nat → Nat) (isMcch : Bool)
    (tbs sfAllocEnd mcchLength : Nat) (mch : Mch) : Option (MchGrant × Mch) :=
  if isMcch then
    (buildMchSched F tbs sfAllocEnd mch.mtchSched).map fun ms =>
      (.mcch (ms.map fun m => (m.lcid, m.stop)) mcchLength, ⟨ms, 1⟩)
  else
    mch.mtchSched.getLast?.map fun last =>
      let current := mch.currentSfAllocationNum
      let (lcid, mtch) := match mch.mtchSched.find? fun m => decide (current ≤ m.stop) with
        | some m => (m.lcid, m)
        | none => (1, mch.mtchSched.headD last)
      let next := { mch with currentSfAllocationNum := u32 (current + 1) }
      if current ≤ last.stop then
        let requested := requestedBytes tbs mtch.lcidBufferSize
        (.mtch lcid requested (readPdu lcid requested), next)
      else (.none, next)

/-! ## What the schedule should be -/

/-- The bytes of all MTCHs. -/
def totalSize (ms : List Mtch) : Nat := (ms.map Mtch.lcidBufferSize).sum

/-- The stops do not decrease from `last` on, and each MTCH and its subframes have `P`. -/
def Shares (P : Nat → Nat → Prop) : Nat → List Mtch → Prop
  | _, [] => True
  | last, m :: ms => last ≤ m.stop ∧ P m.lcidBufferSize (m.stop - last) ∧ Shares P m.stop ms

/-- Enough subframes for the bytes of an MTCH when all fit, else its part rounded down. -/
def RightShare (tbs sfAllocEnd total size sfs : Nat) : Prop :=
  ((total : Int) ≤ sfAllocEnd * (tbs / 8 - 6) → (size : Int) ≤ sfs * (tbs / 8 - 6)) ∧
    (sfAllocEnd * (tbs / 8 - 6) < (total : Int) → sfs = sfAllocEnd * size / total)

/-- The schedule is made without a division by zero, ends in the period, and each MTCH gets the
subframes it should. -/
def ScheduleRight (F : FloatLib) (tbs sfAllocEnd : Nat) (ms : List Mtch) : Prop :=
  ∃ ms', buildMchSched F tbs sfAllocEnd ms = some ms' ∧
    ms'.map Mtch.lcidBufferSize = ms.map Mtch.lcidBufferSize ∧
    Shares (RightShare tbs sfAllocEnd (totalSize ms)) 0 ms' ∧
    ∀ m ∈ ms', m.stop ≤ sfAllocEnd

/-- An SDU that fits a PDU with its header. -/
def RequestsRight (tbs : Nat) (mch : Mch) : Prop :=
  ∀ F readPdu sfAllocEnd mcchLength lcid requested received next,
    getMchSched F readPdu false tbs sfAllocEnd mcchLength mch =
      some (.mtch lcid requested received, next) →
    (requested : Int) ≤ tbs / 8 - 2

/-! ## The loop -/

variable {F : FloatLib} {tbs sfAllocEnd : Nat} {ms : List Mtch}

theorem assignSfs_spec {assigned : Nat → Option Nat} {f : Nat → Nat} :
    ∀ {ms : List Mtch} {last : Nat}, (∀ m ∈ ms, assigned m.lcidBufferSize =
      some (f m.lcidBufferSize)) → last + (ms.map fun m => f m.lcidBufferSize).sum < 2 ^ 32 →
    ∃ ms', assignSfs assigned last ms = some ms' ∧
      ms'.map Mtch.lcidBufferSize = ms.map Mtch.lcidBufferSize ∧
      (∀ P, Shares P last ms' ↔ ∀ m ∈ ms, P m.lcidBufferSize (f m.lcidBufferSize)) ∧
      ∀ b, (∀ m ∈ ms', m.stop ≤ b) ↔
        (ms ≠ [] → last + (ms.map fun m => f m.lcidBufferSize).sum ≤ b)
  | [], last, _, _ => ⟨[], rfl, rfl, by simp [Shares], by simp⟩
  | m :: ms, last, hf, hsum => by
    rw [List.map_cons, List.sum_cons] at hsum
    have hstop : u32 (last + f m.lcidBufferSize) = last + f m.lcidBufferSize :=
      Nat.mod_eq_of_lt (by omega)
    obtain ⟨ms', hms', hsizes, hshares, hlast⟩ :=
      assignSfs_spec (fun n hn => hf n (List.mem_cons_of_mem m hn))
        (show last + f m.lcidBufferSize + (ms.map fun m => f m.lcidBufferSize).sum < 2 ^ 32 by
          omega)
    refine ⟨{ m with stop := last + f m.lcidBufferSize } :: ms', ?_, ?_, fun P => ?_, fun b => ?_⟩
    · simp only [assignSfs, hf m List.mem_cons_self, hstop, hms']
    · rw [List.map_cons, List.map_cons, hsizes]
    · simp only [Shares, hshares, List.forall_mem_cons, Nat.add_sub_cancel_left, Nat.le_add_right,
        true_and]
    · rw [List.forall_mem_cons, hlast, List.map_cons, List.sum_cons]
      constructor
      · rintro ⟨hm, hrest⟩ -
        cases ms with
        | nil => simpa using hm
        | cons n ns => simpa [Nat.add_assoc] using hrest (List.cons_ne_nil n ns)
      · intro h
        have := h (List.cons_ne_nil m ms)
        refine ⟨?_, fun _ => by omega⟩
        simp only
        omega

/-- The schedule is right if each MTCH gets what it should and they end in time. -/
theorem scheduleRight_iff {assigned : Nat → Option Nat} (f : Nat → Nat)
    (hbuild : buildMchSched F tbs sfAllocEnd ms = assignSfs assigned 0 ms)
    (hf : ∀ m ∈ ms, assigned m.lcidBufferSize = some (f m.lcidBufferSize))
    (hsum : (ms.map fun m => f m.lcidBufferSize).sum < 2 ^ 32) :
    ScheduleRight F tbs sfAllocEnd ms ↔
      (∀ m ∈ ms, RightShare tbs sfAllocEnd (totalSize ms) m.lcidBufferSize (f m.lcidBufferSize)) ∧
        (ms ≠ [] → (ms.map fun m => f m.lcidBufferSize).sum ≤ sfAllocEnd) := by
  obtain ⟨ms', hms', hsizes, hshares, hlast⟩ :=
    assignSfs_spec hf (show 0 + (ms.map fun m => f m.lcidBufferSize).sum < 2 ^ 32 by omega)
  rw [Nat.zero_add] at hlast
  unfold ScheduleRight
  rw [hbuild, hms', ← hshares, ← hlast]
  constructor
  · rintro ⟨ms'', heq, -, hs, hl⟩
    obtain rfl := Option.some.inj heq
    exact ⟨hs, hl⟩
  · rintro ⟨hs, hl⟩
    exact ⟨ms', rfl, hsizes, hs, hl⟩

/-! ## The numbers -/

/-- When the schedule is right: something is to be sent or there is room; the subframes for all
bytes fit; without room left one MTCH has all bytes; and of too many bytes each MTCH has all or less
than one subframe's part. -/
structure MchFits (tbs sfAllocEnd : Nat) (ms : List Mtch) : Prop where
  total : ms ≠ [] → 0 < totalSize ms ∨ (0 : Int) < sfAllocEnd * (tbs / 8 - 6)
  room : (totalSize ms : Int) < sfAllocEnd * (tbs / 8 - 6) →
    (ms.map fun m => (m.lcidBufferSize + (tbs / 8 - 6) - 1) / (tbs / 8 - 6)).sum ≤ sfAllocEnd
  full : (totalSize ms : Int) = sfAllocEnd * (tbs / 8 - 6) →
    ∀ m ∈ ms, m.lcidBufferSize = 0 ∨ m.lcidBufferSize = totalSize ms
  excess : sfAllocEnd * (tbs / 8 - 6) < (totalSize ms : Int) →
    ∀ m ∈ ms, m.lcidBufferSize = totalSize ms ∨ sfAllocEnd * m.lcidBufferSize < totalSize ms

theorem totalSize_cons (m : Mtch) (ms : List Mtch) :
    totalSize (m :: ms) = m.lcidBufferSize + totalSize ms := List.sum_cons

theorem size_le_total {m : Mtch} (hm : m ∈ ms) : m.lcidBufferSize ≤ totalSize ms :=
  List.le_sum_of_mem (List.mem_map_of_mem hm)

theorem totalBytesToTx_eq (h : totalSize ms < 2 ^ 31) : totalBytesToTx ms = totalSize ms := by
  have hfold : ∀ (ms : List Mtch) (t : Nat), t + totalSize ms < 2 ^ 31 →
      ms.foldl (fun t m => i32 (t + m.lcidBufferSize)) (t : Int) = (t + totalSize ms : Nat) := by
    intro ms
    induction ms with
    | nil => exact fun t _ => rfl
    | cons m ms ih =>
      intro t ht
      rw [totalSize_cons] at ht ⊢
      rw [List.foldl_cons, i32_of_range (by omega) (by omega), ← Nat.cast_add, ih _ (by omega),
        Nat.add_assoc]
  have := hfold ms 0 (by omega)
  rwa [Nat.zero_add] at this

theorem bytesPerSf_eq (h : tbs ≤ 75376) : bytesPerSf tbs = tbs / 8 - 6 := by
  unfold bytesPerSf
  exact i32_of_range (by omega) (by omega)

theorem totalSpaceAvail_eq (htbs : tbs ≤ 75376) (hsfs : sfAllocEnd ≤ 1535) :
    totalSpaceAvail tbs sfAllocEnd = sfAllocEnd * (tbs / 8 - 6) := by
  have hbytes : (-6 : Int) ≤ tbs / 8 - 6 ∧ (tbs / 8 - 6 : Int) ≤ 9416 := by omega
  unfold totalSpaceAvail
  rw [bytesPerSf_eq htbs]
  refine i32_of_range ?_ ?_ <;> nlinarith

/-- The parts of a whole, rounded down, are no more than the whole. -/
theorem sum_div_le (n : Nat) (ms : List Mtch) (c : Nat) :
    (ms.map fun m => n * m.lcidBufferSize / c).sum ≤ n * totalSize ms / c := by
  induction ms with
  | nil => simp
  | cons m ms ih =>
    calc ((m :: ms).map fun m => n * m.lcidBufferSize / c).sum
        = n * m.lcidBufferSize / c + (ms.map fun m => n * m.lcidBufferSize / c).sum := by simp
      _ ≤ n * m.lcidBufferSize / c + n * totalSize ms / c := Nat.add_le_add_left ih _
      _ ≤ (n * m.lcidBufferSize + n * totalSize ms) / c := Nat.div_add_div_le_add_div
      _ = n * totalSize (m :: ms) / c := by rw [totalSize_cons, Nat.mul_add]

/-- The subframes of the whole quotients are no more than there are. -/
theorem sum_shared_le (sfs : Nat) (h : 0 < totalSize ms) :
    (ms.map fun m => sfs * (m.lcidBufferSize / totalSize ms)).sum ≤ sfs := by
  calc (ms.map fun m => sfs * (m.lcidBufferSize / totalSize ms)).sum
      ≤ (ms.map fun m => sfs * m.lcidBufferSize / totalSize ms).sum :=
        List.sum_le_sum fun m _ => Nat.mul_div_le_mul_div_assoc _ _ _
    _ ≤ sfs * totalSize ms / totalSize ms := sum_div_le sfs ms _
    _ = sfs := Nat.mul_div_cancel _ h

theorem ceil_le_self {b : Nat} (hb : 1 ≤ b) : ∀ n : Nat, (n + b - 1) / b ≤ n
  | 0 => by rw [Nat.zero_add, Nat.div_eq_of_lt (by omega)]
  | n + 1 => by
    have hshift : n + 1 + b - 1 = n + b := by omega
    rw [hshift, Nat.add_div_right n hb]
    exact Nat.succ_le_succ (Nat.div_le_self n b)

theorem le_ceil_mul {b : Nat} (hb : 1 ≤ b) (n : Nat) : n ≤ (n + b - 1) / b * b := by
  have hlt := Nat.lt_mul_div_succ (n + b - 1) hb
  rw [Nat.mul_add, Nat.mul_comm] at hlt
  omega

section Regimes

variable (htbs : tbs ≤ 75376) (hsfs : sfAllocEnd ≤ 1535) (hsum : totalSize ms < 2 ^ 31)

include htbs hsfs hsum

theorem buildMchSched_shared (hreg : sfAllocEnd * (tbs / 8 - 6) ≤ (totalSize ms : Int)) :
    buildMchSched F tbs sfAllocEnd ms = assignSfs (sharedSfs F sfAllocEnd ms) 0 ms := by
  unfold buildMchSched
  rw [totalBytesToTx_eq hsum, totalSpaceAvail_eq htbs hsfs, if_pos hreg]

/-- The schedule when there is nothing to send and no room: the code divides by the total. -/
theorem scheduleRight_nothing (hreg : sfAllocEnd * (tbs / 8 - 6) ≤ (totalSize ms : Int))
    (hzero : totalSize ms = 0) : ScheduleRight F tbs sfAllocEnd ms ↔ ms = [] := by
  have htotal : toU32 (totalBytesToTx ms) = 0 := by
    rw [totalBytesToTx_eq hsum, hzero]
    rfl
  unfold ScheduleRight
  rw [buildMchSched_shared htbs hsfs hsum hreg]
  cases ms with
  | nil => simp [assignSfs, Shares]
  | cons m ms => simp [assignSfs, sharedSfs, htotal]

variable (hF : F.Exact)

include hF

/-- The schedule when the bytes take all of the room, or more. -/
theorem scheduleRight_shared (hreg : sfAllocEnd * (tbs / 8 - 6) ≤ (totalSize ms : Int))
    (hpos : 0 < totalSize ms) :
    ScheduleRight F tbs sfAllocEnd ms ↔ ∀ m ∈ ms,
      RightShare tbs sfAllocEnd (totalSize ms) m.lcidBufferSize
        (sfAllocEnd * (m.lcidBufferSize / totalSize ms)) := by
  have htotal : toU32 (totalBytesToTx ms) = totalSize ms := by
    rw [totalBytesToTx_eq hsum]
    unfold toU32
    omega
  have hshared : ∀ m ∈ ms, sharedSfs F sfAllocEnd ms m.lcidBufferSize =
      some (sfAllocEnd * (m.lcidBufferSize / totalSize ms)) := by
    intro m hm
    have hratio : m.lcidBufferSize / totalSize ms ≤ 1 :=
      Nat.div_le_of_le_mul (by rw [Nat.mul_one]; exact size_le_total hm)
    have hexact : F.round (sfAllocEnd * (m.lcidBufferSize / totalSize ms)) =
        sfAllocEnd * (m.lcidBufferSize / totalSize ms) := hF.round _ (by nlinarith)
    simp only [sharedSfs, htotal, if_neg hpos.ne', hexact]
  have hle := sum_shared_le sfAllocEnd hpos
  rw [scheduleRight_iff (fun size => sfAllocEnd * (size / totalSize ms))
    (buildMchSched_shared htbs hsfs hsum hreg) hshared (by omega)]
  exact and_iff_left fun _ => hle

/-- The schedule when there is room left. -/
theorem scheduleRight_needed (hreg : (totalSize ms : Int) < sfAllocEnd * (tbs / 8 - 6)) :
    ScheduleRight F tbs sfAllocEnd ms ↔
      (ms.map fun m => (m.lcidBufferSize + (tbs / 8 - 6) - 1) / (tbs / 8 - 6)).sum ≤
        sfAllocEnd := by
  have hbytes : 7 ≤ tbs / 8 := by
    by_contra hlt
    have hneg : (tbs / 8 - 6 : Int) ≤ 0 := by omega
    have := mul_nonpos_of_nonneg_of_nonpos (Int.natCast_nonneg sfAllocEnd) hneg
    omega
  obtain ⟨b, hb⟩ : ∃ b, tbs / 8 - 6 = b := ⟨_, rfl⟩
  have hcast : (tbs / 8 - 6 : Int) = b := by omega
  have hb1 : 1 ≤ b := by omega
  have hroom : totalSize ms < 1535 * 9416 := by
    have : b ≤ 9416 := by omega
    rw [hcast] at hreg
    have : totalSize ms < sfAllocEnd * b := by exact_mod_cast hreg
    nlinarith
  have hbuild : buildMchSched F tbs sfAllocEnd ms = assignSfs (neededSfs F tbs) 0 ms := by
    unfold buildMchSched
    rw [totalBytesToTx_eq hsum, totalSpaceAvail_eq htbs hsfs, if_neg (by omega)]
  have hneeded : ∀ m ∈ ms, neededSfs F tbs m.lcidBufferSize =
      some ((m.lcidBufferSize + b - 1) / b) := by
    intro m hm
    have := size_le_total hm
    unfold neededSfs
    rw [bytesPerSf_eq htbs, hcast, if_neg (by omega), hF.ceilDiv _ _ (by omega) (by omega) hb1]
  have hle : (ms.map fun m => (m.lcidBufferSize + b - 1) / b).sum ≤ totalSize ms :=
    List.sum_le_sum fun m _ => ceil_le_self hb1 m.lcidBufferSize
  rw [hb, scheduleRight_iff (fun size => (size + b - 1) / b) hbuild hneeded (by omega)]
  have henough : ∀ m ∈ ms, RightShare tbs sfAllocEnd (totalSize ms) m.lcidBufferSize
      ((m.lcidBufferSize + b - 1) / b) := by
    intro m _
    refine ⟨fun _ => ?_, fun h => absurd h (by omega)⟩
    rw [hcast]
    exact_mod_cast le_ceil_mul hb1 m.lcidBufferSize
  rw [and_iff_right henough]
  refine ⟨fun h => ?_, fun h _ => h⟩
  rcases List.eq_nil_or_concat ms with rfl | ⟨ms', m, rfl⟩
  · simp
  · exact h (by simp)

end Regimes

/-- The whole quotient is right for an MTCH with all bytes, or with a part below one subframe. -/
theorem rightShare_over {m : Mtch} (hm : m ∈ ms) (hpos : 0 < totalSize ms)
    (hover : sfAllocEnd * (tbs / 8 - 6) < (totalSize ms : Int)) :
    RightShare tbs sfAllocEnd (totalSize ms) m.lcidBufferSize
        (sfAllocEnd * (m.lcidBufferSize / totalSize ms)) ↔
      m.lcidBufferSize = totalSize ms ∨ sfAllocEnd * m.lcidBufferSize < totalSize ms := by
  have hright : RightShare tbs sfAllocEnd (totalSize ms) m.lcidBufferSize
        (sfAllocEnd * (m.lcidBufferSize / totalSize ms)) ↔
      sfAllocEnd * (m.lcidBufferSize / totalSize ms) =
        sfAllocEnd * m.lcidBufferSize / totalSize ms :=
    ⟨fun h => h.2 hover, fun h => ⟨fun hle => absurd hle (by omega), fun _ => h⟩⟩
  rw [hright]
  rcases Nat.lt_or_eq_of_le (size_le_total hm) with hlt | heq
  · rw [Nat.div_eq_of_lt hlt, Nat.mul_zero, eq_comm, Nat.div_eq_zero_iff, or_iff_right hlt.ne,
      or_iff_right hpos.ne']
  · rw [heq, Nat.div_self hpos, Nat.mul_one, Nat.mul_div_cancel _ hpos]
    simp

theorem rightShare_full {m : Mtch} (hm : m ∈ ms) (hpos : 0 < totalSize ms)
    (hfull : (totalSize ms : Int) = sfAllocEnd * (tbs / 8 - 6)) :
    RightShare tbs sfAllocEnd (totalSize ms) m.lcidBufferSize
        (sfAllocEnd * (m.lcidBufferSize / totalSize ms)) ↔
      m.lcidBufferSize = 0 ∨ m.lcidBufferSize = totalSize ms := by
  have hright : RightShare tbs sfAllocEnd (totalSize ms) m.lcidBufferSize
        (sfAllocEnd * (m.lcidBufferSize / totalSize ms)) ↔
      (m.lcidBufferSize : Int) ≤
        (sfAllocEnd * (m.lcidBufferSize / totalSize ms) : Nat) * (tbs / 8 - 6) :=
    ⟨fun h => h.1 hfull.le, fun h => ⟨fun _ => h, fun hlt => absurd hlt (by omega)⟩⟩
  rw [hright]
  rcases Nat.lt_or_eq_of_le (size_le_total hm) with hlt | heq
  · rw [Nat.div_eq_of_lt hlt, Nat.mul_zero, Nat.cast_zero, zero_mul]
    omega
  · rw [heq, Nat.div_self hpos, Nat.mul_one, ← hfull]
    simp

/-- The schedule is right if and only if the numbers are. -/
theorem scheduleRight_iff_fits (hF : F.Exact) (htbs : tbs ≤ 75376) (hsfs : sfAllocEnd ≤ 1535)
    (hsum : totalSize ms < 2 ^ 31) :
    ScheduleRight F tbs sfAllocEnd ms ↔ MchFits tbs sfAllocEnd ms := by
  rcases lt_or_ge (totalSize ms : Int) (sfAllocEnd * (tbs / 8 - 6)) with hroom | hreg
  · rw [scheduleRight_needed htbs hsfs hsum hF hroom]
    constructor
    · intro h
      exact ⟨fun _ => Or.inr (by omega), fun _ => h, fun heq => absurd heq hroom.ne,
        fun hlt => absurd hlt (by omega)⟩
    · intro h
      exact h.room hroom
  rcases Nat.eq_zero_or_pos (totalSize ms) with hzero | hpos
  · rw [scheduleRight_nothing htbs hsfs hsum hreg hzero]
    constructor
    · rintro rfl
      exact ⟨fun h => absurd rfl h, fun hlt => absurd hlt (by omega), by simp, by simp⟩
    · intro h
      by_contra hne
      have := h.total hne
      omega
  rw [scheduleRight_shared htbs hsfs hsum hF hreg hpos]
  rcases hreg.lt_or_eq with hover | hfull
  · constructor
    · intro h
      exact ⟨fun _ => Or.inl hpos, fun hlt => absurd hlt (by omega),
        fun heq => absurd heq (by omega), fun _ m hm => (rightShare_over hm hpos hover).mp (h m hm)⟩
    · intro h m hm
      exact (rightShare_over hm hpos hover).mpr (h.excess hover m hm)
  · constructor
    · intro h
      exact ⟨fun _ => Or.inl hpos, fun hlt => absurd hlt (by omega),
        fun _ m hm => (rightShare_full hm hpos hfull.symm).mp (h m hm),
        fun hlt => absurd hlt (by omega)⟩
    · intro h m hm
      exact (rightShare_full hm hpos hfull.symm).mpr (h.full hfull.symm m hm)

/-- The MTCH that a call serves. -/
def Mch.served (mch : Mch) (m : Mtch) : Prop :=
  mch.mtchSched.find? (fun m => decide (mch.currentSfAllocationNum ≤ m.stop)) = some m ∧
    ∃ last, mch.mtchSched.getLast? = some last ∧ mch.currentSfAllocationNum ≤ last.stop

/-- The bytes of an MTCH are an `int`, not the whole PDU without one byte; and a PDU that is less
than the bytes has room for the header. -/
structure FitsPdu (tbs size : Nat) : Prop where
  int : size < 2 ^ 31
  header : size + 1 ≠ tbs / 8
  pdu : tbs / 8 ≤ size → 2 ≤ tbs / 8

theorem requestedBytes_le_iff (htbs : tbs ≤ 75376) {size : Nat} (hsize : size < 2 ^ 32) :
    (requestedBytes tbs size : Int) ≤ tbs / 8 - 2 ↔ FitsPdu tbs size := by
  have hfits : FitsPdu tbs size ↔
      size < 2 ^ 31 ∧ size + 1 ≠ tbs / 8 ∧ (tbs / 8 ≤ size → 2 ≤ tbs / 8) :=
    ⟨fun h => ⟨h.int, h.header, h.pdu⟩, fun h => ⟨h.1, h.2.1, h.2.2⟩⟩
  rw [hfits]
  unfold requestedBytes i32 toU32
  split_ifs with hcmp <;> omega

/-- The requests are right if and only if the bytes of the MTCH that is served fit. -/
theorem requestsRight_iff (htbs : tbs ≤ 75376) (mch : Mch)
    (hsizes : ∀ m ∈ mch.mtchSched, m.lcidBufferSize < 2 ^ 32) :
    RequestsRight tbs mch ↔ ∀ m, mch.served m → FitsPdu tbs m.lcidBufferSize := by
  constructor
  · rintro h m ⟨hfind, last, hlast, hle⟩
    rw [← requestedBytes_le_iff htbs (hsizes m (List.mem_of_find?_eq_some hfind))]
    refine h ⟨id, fun _ _ => 0⟩ (fun _ _ => 0) 0 0 m.lcid _ 0
      { mch with currentSfAllocationNum := u32 (mch.currentSfAllocationNum + 1) } ?_
    simp only [getMchSched, hlast, Option.map_some, hfind, hle, if_true, Bool.false_eq_true,
      if_false]
  · intro h F readPdu sfAllocEnd mcchLength lcid requested received next heq
    simp only [getMchSched, Bool.false_eq_true, if_false] at heq
    cases hlast : mch.mtchSched.getLast? with
    | none =>
      rw [hlast] at heq
      cases heq
    | some last =>
      simp only [hlast, Option.map_some, Option.some.injEq] at heq
      split_ifs at heq with hle
      · -- The last MTCH is a candidate, so one is found.
        cases hfind : mch.mtchSched.find? fun m =>
            decide (mch.currentSfAllocationNum ≤ m.stop) with
        | none =>
          have hnone := List.find?_eq_none.mp hfind last (List.mem_of_getLast? hlast)
          simp [hle] at hnone
        | some m =>
          simp only [hfind, Prod.mk.injEq, MchGrant.mtch.injEq] at heq
          obtain ⟨⟨-, rfl, -⟩, -⟩ := heq
          have hm := List.mem_of_find?_eq_some hfind
          exact (requestedBytes_le_iff htbs (hsizes m hm)).mpr (h m ⟨hfind, last, hlast, hle⟩)
      · cases heq

/-- **The MCH is scheduled right**, if and only if the numbers of bytes are of the right kind: for
the schedule, and for what is requested of the RLC. -/
theorem mch_sched_iff (F : FloatLib) (hF : F.Exact) (tbs sfAllocEnd : Nat) (htbs : tbs ≤ 75376)
    (hsfs : sfAllocEnd ≤ 1535) (ms : List Mtch) (mch : Mch)
    (hsizes : ∀ m ∈ mch.mtchSched, m.lcidBufferSize < 2 ^ 32) :
    (totalSize ms < 2 ^ 31 →
      (ScheduleRight F tbs sfAllocEnd ms ↔ MchFits tbs sfAllocEnd ms)) ∧
    (RequestsRight tbs mch ↔ ∀ m, mch.served m → FitsPdu tbs m.lcidBufferSize) :=
  ⟨scheduleRight_iff_fits hF htbs hsfs, requestsRight_iff htbs mch hsizes⟩

/-- Exact conversions, which a `float` has up to 24 bits. -/
def exactFloat : FloatLib where
  round n := n
  ceilDiv a b := (a + b.toNat - 1) / b.toNat

theorem exactFloat_exact : exactFloat.Exact := ⟨fun _ _ => rfl, fun _ _ _ _ _ => rfl⟩

/-- 11 bytes for a subframe: 20 and 11 bytes take three of four subframes. -/
theorem mch_sched_room :
    ScheduleRight exactFloat 136 4 [⟨1, 20, 0⟩, ⟨2, 11, 0⟩] ∧
      RequestsRight 136 ⟨[⟨1, 20, 2⟩, ⟨2, 11, 3⟩], 1⟩ := by
  obtain ⟨hsched, hrequests⟩ := mch_sched_iff exactFloat exactFloat_exact 136 4 (by decide)
    (by decide) [⟨1, 20, 0⟩, ⟨2, 11, 0⟩] ⟨[⟨1, 20, 2⟩, ⟨2, 11, 3⟩], 1⟩ (by decide)
  refine ⟨(hsched (by decide)).mpr ⟨by decide, by decide, by decide, by decide⟩,
    hrequests.mpr ?_⟩
  rintro m ⟨hm, -⟩
  obtain rfl : ⟨1, 20, 2⟩ = m := Option.some.inj hm
  exact ⟨by decide, by decide, by decide⟩

/-- Two bytes take two subframes where there is one; of 150 bytes in 10 subframes of 11 bytes none
is scheduled; and 16 bytes leave one byte of 17 for the header. -/
theorem not_mch_sched :
    ¬ScheduleRight exactFloat 136 1 [⟨1, 1, 0⟩, ⟨2, 1, 0⟩] ∧
      ¬ScheduleRight exactFloat 136 10 [⟨1, 100, 0⟩, ⟨2, 50, 0⟩] ∧
      ¬RequestsRight 136 ⟨[⟨1, 16, 2⟩], 1⟩ := by
  refine ⟨?_, ?_, ?_⟩
  · rintro ⟨ms', hms', -, -, hstop⟩
    obtain rfl : [⟨1, 1, 1⟩, ⟨2, 1, 2⟩] = ms' := Option.some.inj hms'
    exact absurd (hstop ⟨2, 1, 2⟩ (by decide)) (by decide)
  · rintro ⟨ms', hms', -, hshares, -⟩
    obtain rfl : [⟨1, 100, 0⟩, ⟨2, 50, 0⟩] = ms' := Option.some.inj hms'
    exact absurd (hshares.2.1.2 (by decide)) (by decide)
  · intro h
    have := h exactFloat (fun _ _ => 16) 0 0 1 16 16 _ rfl
    omega

end Srsenb.Mac
