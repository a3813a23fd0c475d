import Mathlib.Algebra.Order.Ring.Int
import Srsenb.Base.Bounded
import Srsenb.Base.While
import Srsenb.Mac.Lib

/-! # The hexadecimal name of SIB9 (`HexToBytes`) -/

open Srsenb.Mac

namespace Srsenb.Enb

/-! ## `strtol` -/

/-- `isspace` -/
def isSpace (c : Char) : Bool := c.toNat = 32 || (9 ≤ c.toNat && c.toNat ≤ 13)

/-- The value of a digit `0` to `9`, `a` to `f` or `A` to `F`. -/
def digitVal (c : Char) : Option Nat :=
  if 48 ≤ c.toNat ∧ c.toNat ≤ 57 then some (c.toNat - 48)
  else if 97 ≤ c.toNat ∧ c.toNat ≤ 102 then some (c.toNat - 87)
  else if 65 ≤ c.toNat ∧ c.toNat ≤ 70 then some (c.toNat - 55)
  else none

/-- The number that the digits up to the first other character continue. -/
def digits (n : Nat) : List Char → Nat
  | [] => n
  | c :: cs =>
    match digitVal c with
    | some d => digits (16 * n + d) cs
    | none => n

/-- `strtol` in base 16, of at most two characters: nothing overflows, and a prefix `0x` has no
digit after it. -/
def strtol16 (s : List Char) : Int :=
  match s.dropWhile isSpace with
  | '-' :: cs => -(digits 0 cs : Int)
  | '+' :: cs => digits 0 cs
  | cs => digits 0 cs

/-- A `long` as a `char`, which is then stored in a byte. -/
def toByte (z : Int) : UInt8 := UInt8.ofNat (z % 256).toNat

/-! ## The loop -/

structure HexState where
  i : Nat
  charValue : List UInt8
  deriving DecidableEq, Repr

/-- One round of `HexToBytes`. `i` is a `uint32_t` that counts characters, and so does its bound
`buff_len`. -/
def hexRound (str : List Char) (buffLen : Nat) (s : HexState) :
    Exit HexState (List UInt8 × Nat) :=
  if s.i < str.length ∧ s.i < buffLen then
    match write s.charValue (s.i / 2) (toByte (strtol16 ((str.drop s.i).take 2))) with
    | some charValue => .next ⟨u32 (s.i + 2), charValue⟩
    | none => .fail
  else .done (s.charValue, s.i / 2)

/-- `HexToBytes` ends, having written `out.1` and with the result `out.2`. -/
def HexToBytes (str : List Char) (charValue : List UInt8) (buffLen : Nat)
    (out : List UInt8 × Nat) : Prop :=
  While.Ends (hexRound str buffLen) ⟨0, charValue⟩ out

/-! ## Two digits for each byte -/

/-- `text` has two digits for each byte. -/
inductive Spells : List UInt8 → List Char → Prop
  | nil : Spells [] []
  | cons {x y : Char} {high low : Nat} {b : List UInt8} {text : List Char}
      (hx : digitVal x = some high) (hy : digitVal y = some low) (h : Spells b text) :
      Spells (UInt8.ofNat (16 * high + low) :: b) (x :: y :: text)

variable {b : List UInt8} {text : List Char}

theorem Spells.length_eq (h : Spells b text) : text.length = 2 * b.length := by
  induction h with
  | nil => rfl
  | cons _ _ _ ih =>
    simp only [List.length_cons, ih]
    omega

theorem digitVal_bounds {c : Char} {d : Nat} (h : digitVal c = some d) :
    d < 16 ∧ 48 ≤ c.toNat := by
  unfold digitVal at h
  split at h
  · obtain rfl := Option.some.inj h
    omega
  split at h
  · obtain rfl := Option.some.inj h
    omega
  split at h
  · obtain rfl := Option.some.inj h
    omega
  · cases h

/-- A digit is neither a space nor a sign. -/
theorem strtol16_pair {x y : Char} {high low : Nat} (hx : digitVal x = some high)
    (hy : digitVal y = some low) : strtol16 [x, y] = (16 * high + low : Nat) := by
  have hge := (digitVal_bounds hx).2
  have hspace : isSpace x = false := by
    simp only [isSpace, Bool.or_eq_false_iff, Bool.and_eq_false_iff, decide_eq_false_iff_not]
    omega
  have hval : digits 0 [x, y] = 16 * high + low := by simp [digits, hx, hy]
  unfold strtol16
  rw [List.dropWhile_cons_of_neg (by simp [hspace])]
  split
  · rename_i heq
    obtain rfl := (List.cons.inj heq).1
    exact absurd hge (by decide)
  · rename_i heq
    obtain rfl := (List.cons.inj heq).1
    exact absurd hge (by decide)
  · rw [hval]

theorem toByte_of_lt {n : Nat} (h : n < 256) : toByte n = UInt8.ofNat n := by
  unfold toByte
  congr
  omega

/-- The round that reads at `2 * k` writes the byte `k`. -/
theorem Spells.toByte_eq (h : Spells b text) (rest : List Char) {k : Nat} (hk : k < b.length) :
    toByte (strtol16 (((text ++ rest).drop (2 * k)).take 2)) = b[k] := by
  induction h generalizing k with
  | nil => exact absurd hk (Nat.not_lt_zero k)
  | cons hx hy _ ih =>
    cases k with
    | zero =>
      have hh := (digitVal_bounds hx).1
      have hl := (digitVal_bounds hy).1
      simp only [List.cons_append, Nat.mul_zero, List.drop_zero, List.take_succ_cons,
        List.take_zero, strtol16_pair hx hy, List.getElem_cons_zero]
      exact toByte_of_lt (by omega)
    | succ k =>
      rw [show 2 * (k + 1) = 2 * k + 1 + 1 from rfl]
      exact ih (by simpa using hk)

/-! ## Runs of the loop -/

variable {str rest : List Char} {charValue : List UInt8} {buffLen : Nat}

/-- The state before the round `k`, when each round so far has written a byte. -/
def hexState (b charValue : List UInt8) (k : Nat) : HexState :=
  ⟨2 * k, b.take k ++ charValue.drop k⟩

theorem write_next {l : List UInt8} (hlen : b.length ≤ l.length) {k : Nat} (hk : k < b.length) :
    write (b.take k ++ l.drop k) k b[k] = some (b.take (k + 1) ++ l.drop (k + 1)) := by
  have hkl : (b.take k).length = k := by
    rw [List.length_take]
    omega
  rw [write_of_lt (by simp only [List.length_append, List.length_drop, hkl]; omega),
    List.set_append_right _ _ (by omega), hkl, Nat.sub_self, List.drop_eq_getElem_cons (by omega),
    List.set_cons_zero, List.take_succ_eq_append_getElem hk, List.append_assoc,
    List.singleton_append]

theorem hexRound_next (h : Spells b text) (hlen : b.length ≤ charValue.length) {k : Nat}
    (hk : k < b.length) (hbuff : 2 * k < buffLen) (hwrap : 2 * k + 2 < 2 ^ 32) :
    hexRound (text ++ rest) buffLen (hexState b charValue k) =
      .next (hexState b charValue (k + 1)) := by
  have hstr : 2 * k < (text ++ rest).length := by
    rw [List.length_append, h.length_eq]
    omega
  unfold hexRound
  rw [if_pos ⟨hstr, hbuff⟩]
  simp only [hexState, Nat.mul_div_cancel_left k (show 0 < 2 by omega), h.toByte_eq rest hk,
    write_next hlen hk, u32, Nat.mod_eq_of_lt hwrap]
  rfl

theorem hexRound_done {s : HexState} (h : ¬ (s.i < str.length ∧ s.i < buffLen)) :
    hexRound str buffLen s = .done (s.charValue, s.i / 2) := if_neg h

/-- If nothing wraps and the rounds `0` to `n - 1` are the ones that run, `n` bytes are written. -/
theorem hexToBytes_iff (h : Spells b text) (hlen : b.length ≤ charValue.length) {n : Nat}
    (hn : n ≤ b.length) (hbuff : 2 * n ≤ buffLen + 1) (hwrap : 2 * n < 2 ^ 32)
    (hend : ¬ (2 * n < (text ++ rest).length ∧ 2 * n < buffLen)) (out : List UInt8 × Nat) :
    HexToBytes (text ++ rest) charValue buffLen out ↔
      (b.take n ++ charValue.drop n, n) = out := by
  have hstart : (⟨0, charValue⟩ : HexState) = hexState b charValue 0 := by simp [hexState]
  have hrounds : ∀ k < n, hexRound (text ++ rest) buffLen (hexState b charValue k) =
      .next (hexState b charValue (k + 1)) := fun k hk =>
    hexRound_next h hlen (by omega) (by omega) (by omega)
  unfold HexToBytes
  rw [hstart, While.ends_iff_of_rounds (hexState b charValue) hrounds,
    While.ends_iff_of_done (hexRound_done hend)]
  simp only [hexState, Nat.mul_div_cancel_left n (show 0 < 2 by omega)]

theorem write_isSome {s : HexState} (hi : s.i < buffLen) (hlen : s.charValue.length = buffLen)
    (a : UInt8) : write s.charValue (s.i / 2) a = some (s.charValue.set (s.i / 2) a) :=
  write_of_lt (by omega) a

/-- No text makes a round write past the buffer. -/
theorem run_hexRound_ne_fail (str : List Char) (charValue : List UInt8) (n : Nat) :
    While.run (hexRound str charValue.length) n ⟨0, charValue⟩ ≠ .fail := by
  apply While.run_ne_fail (P := fun s => s.charValue.length = charValue.length) _ rfl
  intro s hs
  unfold hexRound
  split
  · rename_i h
    rw [write_isSome h.2 hs]
    refine ⟨by simp, ?_⟩
    rintro s' h'
    obtain rfl := Exit.next.inj h'
    simpa using hs
  · exact ⟨by simp, fun s' h' => by cases h'⟩

/-- With a buffer of `2 ^ 32 - 1` bytes, `i` wraps to 0 before it reaches `buff_len`. -/
theorem not_hexToBytes (hbuff : charValue.length = 2 ^ 32 - 1) (hstr : 2 ^ 32 ≤ str.length)
    (out : List UInt8 × Nat) : ¬ HexToBytes str charValue charValue.length out := by
  apply While.not_ends_of_forever (P := fun s =>
    s.i % 2 = 0 ∧ s.i < 2 ^ 32 ∧ s.charValue.length = charValue.length) _ ⟨rfl, by simp, rfl⟩
  rintro s ⟨heven, hlt, hs⟩
  have hi : s.i < charValue.length := by omega
  let byte := toByte (strtol16 ((str.drop s.i).take 2))
  refine ⟨⟨u32 (s.i + 2), s.charValue.set (s.i / 2) byte⟩, ?_, ?_, ?_, ?_⟩
  · unfold hexRound
    rw [if_pos ⟨by omega, hi⟩, write_isSome hi hs]
  · simp only [u32]
    omega
  · exact Nat.mod_lt _ (by omega)
  · rw [List.length_set, hs]

/-! ## The names that are decoded -/

/-- A call with the text of a name that fits into the buffer, and with more characters after it
only if it fills the buffer. -/
structure HexCall where
  b : List UInt8
  text : List Char
  rest : List Char
  charValue : List UInt8
  spells : Spells b text
  fits : b.length ≤ charValue.length
  full : rest ≠ [] → b.length = charValue.length
  uint32 : charValue.length < 2 ^ 32

namespace HexCall

variable (c : HexCall)

/-- The call writes the name and returns its length. -/
def Decodes : Prop :=
  HexToBytes (c.text ++ c.rest) c.charValue c.charValue.length
    (c.b ++ c.charValue.drop c.b.length, c.b.length)

theorem past_name :
    ¬ (2 * c.b.length < (c.text ++ c.rest).length ∧ 2 * c.b.length < c.charValue.length) := by
  rintro ⟨hstr, hbuff⟩
  have hne : c.rest ≠ [] := by
    intro hnil
    rw [hnil, List.append_nil, c.spells.length_eq] at hstr
    exact Nat.lt_irrefl _ hstr
  have := c.full hne
  omega

theorem decodes_of_le (hbuff : 2 * c.b.length ≤ c.charValue.length + 1)
    (hwrap : 2 * c.b.length < 2 ^ 32) : c.Decodes := by
  apply (hexToBytes_iff c.spells c.fits (Nat.le_refl _) hbuff hwrap c.past_name _).2
  rw [List.take_length]

theorem le_of_decodes (h : c.Decodes) :
    2 * c.b.length ≤ c.charValue.length + 1 ∧ 2 * c.b.length < 2 ^ 32 := by
  have hlen := c.uint32
  have hstr : 2 * c.b.length ≤ (c.text ++ c.rest).length := by
    rw [List.length_append, c.spells.length_eq]
    omega
  by_contra hnot
  by_cases hlong : c.charValue.length = 2 ^ 32 - 1
  · exact not_hexToBytes hlong (by omega) _ h
  · -- the loop stops at half the buffer, before the end of the name
    have hcut := (hexToBytes_iff c.spells c.fits (n := (c.charValue.length + 1) / 2) (by omega)
      (by omega) (by omega) (by omega) _).1 h
    have := congrArg Prod.snd hcut
    simp only at this
    omega

/-- `buff_len` counts characters: a name of more than half the buffer is cut, and no text makes the
loop write past the buffer. -/
theorem decodes_iff : (c.Decodes ↔
    2 * c.b.length ≤ c.charValue.length + 1 ∧ 2 * c.b.length < 2 ^ 32) ∧
    ∀ str n, While.run (hexRound str c.charValue.length) n ⟨0, c.charValue⟩ ≠ .fail :=
  ⟨⟨c.le_of_decodes, fun h => c.decodes_of_le h.1 h.2⟩,
    fun str n => run_hexRound_ne_fail str c.charValue n⟩

/-- A name of 25 bytes in the buffer of SIB9. -/
def hnbName25 : HexCall where
  b := List.replicate 25 170
  text := List.replicate 50 'a'
  rest := []
  charValue := List.replicate 48 0
  spells := by
    have hpair : ∀ n, Spells (List.replicate n 170) (List.replicate (2 * n) 'a') := by
      intro n
      induction n with
      | zero => exact .nil
      | succ n ih =>
        have ha : digitVal 'a' = some 10 := rfl
        exact .cons ha ha ih
    exact hpair 25
  fits := by decide
  full := fun h => absurd rfl h
  uint32 := by decide

theorem hnbName25_cut : ¬ ∀ c : HexCall, c.Decodes := fun h =>
  absurd (hnbName25.le_of_decodes (h hnbName25)).1 (by decide)

end HexCall

end Srsenb.Enb
