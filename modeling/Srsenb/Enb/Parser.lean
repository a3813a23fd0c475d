import Mathlib.Algebra.Order.Ring.Int
import Mathlib.Logic.Function.Basic

/-! # The configuration parser (`parser.h`, `parser.cc`)

libconfig is a parameter. The flags of optional settings are `bool` pointers, which two settings may
share. -/

namespace Srsenb.Enb

/-- `SettingNotFoundException` and `SettingTypeException`. -/
inductive Exn
  | notFound
  | wrongType
  deriving DecidableEq, Repr

/-- How a `parse` ends that does not return 0. -/
inductive Stop
  /-- It returns -1. -/
  | failed
  | thrown (e : Exn)
  deriving DecidableEq, Repr

/-- What the parsers use of libconfig, over its settings. -/
structure LibConfig (S : Type) where
  /-- `operator[]` of a name -/
  member : S → String → Except Exn S
  /-- `operator[]` of an index -/
  elem : S → Nat → Except Exn S
  /-- `exists` -/
  has : S → String → Bool
  has_iff : ∀ s name, has s name = true ↔ ∃ t, member s name = .ok t
  getLength : S → Nat
  /-- The conversion to `uint32_t` -/
  toUint : S → Except Exn Nat
  /-- `lookupValue` of a `uint32_t`, an `int32_t`, a `bool` and a string -/
  lookupUint : S → String → Option Nat
  lookupInt : S → String → Option Int
  lookupBool : S → String → Option Bool
  lookupString : S → String → Option String

/-- What the parsers write: the flags, by their addresses, and the configuration. -/
structure Store (D : Type) where
  flags : Nat → Bool
  data : D

/-- `*enabled_value = b` -/
def Store.setFlag {D : Type} (st : Store D) (p : Nat) (b : Bool) : Store D :=
  { st with flags := Function.update st.flags p b }

/-- A custom field. What it writes has no say in how it ends. -/
structure CustomField (S D : Type) where
  parse : S → D → Except Stop D
  outcome : S → Except Stop Unit
  parse_outcome : ∀ s d, (parse s d).map (fun _ => ()) = outcome s

/-- `field_itf`. A field of the three templates has `enabled_value`, and what `*store_ptr` becomes
if the value is there and is one of its options. -/
inductive Field (S D : Type)
  | std (name : String) (enabled : Option Nat) (read : S → Option (D → D))
  | custom (field : CustomField S D)

/-- `section` -/
inductive Section (S D : Type)
  | mk (name : String) (enabled : Option Nat) (fields : List (Field S D))
      (subSections : List (Section S D))

variable {S D V : Type}

/-- What comes after a `parse` that returned 0. -/
def andThen (r : Store D × Except Stop Unit) (next : Store D → Store D × Except Stop Unit) :
    Store D × Except Stop Unit :=
  match r with
  | (st, .ok ()) => next st
  | (st, .error e) => (st, .error e)

/-! ## Fields -/

/-- `parser::field_enum_str` -/
def fieldEnumStr (lib : LibConfig S) (name : String) (set : Nat → D → D) (valueStr : List String)
    (enabled : Option Nat) : Field S D :=
  .std name enabled fun root => do
    let val ← lib.lookupString root name
    (valueStr.idxOf? val).map set

/-- `parser::field_enum_num`, with the `lookupValue` of its numbers. -/
def fieldEnumNum [BEq V] (lookup : S → String → Option V) (name : String) (set : Nat → D → D)
    (valueNum : List V) (enabled : Option Nat) : Field S D :=
  .std name enabled fun root => do
    let val ← lookup root name
    (valueNum.idxOf? val).map set

/-- `parser::field`, with the `lookupValue` of its type. -/
def field (lookup : S → String → Option V) (name : String) (set : V → D → D)
    (enabled : Option Nat) : Field S D :=
  .std name enabled fun root => (lookup root name).map set

/-- `parse` of a field -/
def Field.parse (lib : LibConfig S) : Field S D → S → Store D → Store D × Except Stop Unit
  | .std name enabled read, root, st =>
    if lib.has root name then
      let st := match enabled with
        | some p => st.setFlag p true
        | none => st
      match read root with
      | some set => ({ st with data := set st.data }, .ok ())
      | none => (st, .error .failed)
    else match enabled with
      | some p => (st.setFlag p false, .ok ())
      | none => (st, .error .failed)
  | .custom f, root, st =>
    match f.parse root st.data with
    | .ok d => ({ st with data := d }, .ok ())
    | .error e => (st, .error e)

/-! ## Sections -/

/-- `root[name]`, for a `parse` that is not the one to catch. -/
def LibConfig.get (lib : LibConfig S) (root : S) (name : String) : Except Stop S :=
  (lib.member root name).mapError .thrown

/-- The first loop of `section::parse` -/
def parseFields (lib : LibConfig S) (name : String) (root : S) :
    List (Field S D) → Store D → Store D × Except Stop Unit
  | [], st => (st, .ok ())
  | f :: fs, st =>
    match lib.get root name with
    | .error e => (st, .error e)
    | .ok s => andThen (f.parse lib s st) (parseFields lib name root fs)

/-- The end of `section::parse`: the flag, and the `catch`. -/
def catchNotFound (enabled : Option Nat) : Store D × Except Stop Unit → Store D × Except Stop Unit
  | (st, .ok ()) =>
    match enabled with
    | some p => (st.setFlag p true, .ok ())
    | none => (st, .ok ())
  | (st, .error (.thrown .notFound)) =>
    match enabled with
    | some p => (st.setFlag p false, .ok ())
    | none => (st, .error .failed)
  | (st, .error e) => (st, .error e)

mutual

/-- `section::parse` -/
def Section.parse (lib : LibConfig S) : Section S D → S → Store D → Store D × Except Stop Unit
  | .mk name enabled fields subSections, root, st =>
    catchNotFound enabled <|
      andThen (parseFields lib name root fields st) (parseSections lib name root subSections)

/-- The second loop of `section::parse` -/
def parseSections (lib : LibConfig S) (name : String) (root : S) :
    List (Section S D) → Store D → Store D × Except Stop Unit
  | [], st => (st, .ok ())
  | s :: ss, st =>
    match lib.get root name with
    | .error e => (st, .error e)
    | .ok t => andThen (s.parse lib t st) (parseSections lib name root ss)

end

/-! ## Settings as trees -/

/-- A configuration file as it is read. -/
inductive Conf
  | num (n : Int)
  | bool (b : Bool)
  | text (s : String)
  | list (settings : List Conf)
  | group (settings : List (String × Conf))

namespace Conf

def member : Conf → String → Except Exn Conf
  | group settings, name => (settings.lookup name).elim (.error .notFound) .ok
  | _, _ => .error .wrongType

def elem : Conf → Nat → Except Exn Conf
  | list settings, i => settings[i]?.elim (.error .notFound) .ok
  | group settings, i => settings[i]?.elim (.error .notFound) fun setting => .ok setting.2
  | _, _ => .error .wrongType

/-- A setting of one type, by its name. -/
def look {β : Type} (c : Conf) (name : String) (as : Conf → Option β) : Option β :=
  (c.member name).toOption.bind as

def asUint : Conf → Option Nat
  | num n => if 0 ≤ n ∧ n < 2 ^ 32 then some n.toNat else none
  | _ => none

/-- libconfig over these trees. -/
def lib : LibConfig Conf where
  member := member
  elem := elem
  has c name := (c.member name).toOption.isSome
  has_iff c name := by cases c.member name <;> simp [Except.toOption]
  getLength
    | list settings => settings.length
    | group settings => settings.length
    | _ => 0
  toUint c := c.asUint.elim (.error .wrongType) .ok
  lookupUint c name := c.look name asUint
  lookupInt c name := c.look name fun
    | num n => some n
    | _ => none
  lookupBool c name := c.look name fun
    | bool b => some b
    | _ => none
  lookupString c name := c.look name fun
    | text s => some s
    | _ => none

end Conf

end Srsenb.Enb
