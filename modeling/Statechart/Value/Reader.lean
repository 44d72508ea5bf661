import Statechart.Value.Basic

/-! Reading records out of values.

    A record is an object, and fields that are not its own are ignored; or it is an array of its fields
    in their order, of which the last ones may be missing. A required field must be there, an optional
    one may be missing or `null`, and one with a default may be missing but not `null`. The readers
    answer `none` for a value of the wrong shape. -/

namespace Statechart.Value

/-- A truth value. -/
def readBool : Value → Option Bool
  | .bool b => some b
  | _ => none

/-- A text. -/
def readText : Value → Option String := string?

/-- How many unsigned 32-bit integers there are. -/
def bound32 : Nat := 4294967296

/-- How many unsigned 64-bit integers there are. -/
def bound64 : Nat := 18446744073709551616

/-- A natural number below a bound; a number kept as binary64 is none, whatever its value. -/
def readNat (bound : Nat) : Value → Option Nat
  | .number n =>
    match n.int? with
    | some i => if 0 ≤ i ∧ i < bound then some i.toNat else none
    | none => none
  | _ => none

/-- A signed 64-bit integer. -/
def readInt : Value → Option Int
  | .number n =>
    match n.int? with
    | some i => if i < 9223372036854775808 then some i else none
    | none => none
  | _ => none

/-- An object. -/
def readObject : Value → Option Object := object?

/-- A list of things that `read` reads. -/
def readList {α : Type} (read : Value → Option α) : Value → Option (List α)
  | .array items => items.mapM read
  | _ => none

/-- A map from names to things that `read` reads. -/
def readDict {α : Type} (read : Value → Option α) : Value → Option (Dict String α)
  | .object fields => fields.mapM fun f => (read f.2).map (f.1, ·)
  | _ => none

/-- One of a list of words, given as a string or as an object whose only field is the word, with
    `null` in it. -/
def readWord {α : Type} (words : List (String × α)) : Value → Option α
  | .string s => Dict.get? s words
  | .object [(s, .null)] => Dict.get? s words
  | _ => none

/-- The fields of a record whose own fields have the given names. -/
def readRecord (names : List String) : Value → Option Object
  | .object fields => some fields
  | .array items => if items.length ≤ names.length then some (names.zip items) else none
  | _ => none

/-- A required field. -/
def required {α : Type} (fields : Object) (name : String) (read : Value → Option α) : Option α :=
  (Dict.get? name fields).bind read

/-- An optional field: missing, `null` or a thing that `read` reads. -/
def optional {α : Type} (fields : Object) (name : String) (read : Value → Option α) :
    Option (Option α) :=
  match Dict.get? name fields with
  | none => some none
  | some .null => some none
  | some v => (read v).map some

/-- A field that stands for `default` when it is missing. -/
def defaulted {α : Type} (fields : Object) (name : String) (default : α)
    (read : Value → Option α) : Option α :=
  match Dict.get? name fields with
  | none => some default
  | some v => read v

/-- An array of as many items as a record has fields gives the first of them to the first field. -/
theorem readRecord_cons {name : String} {names : List String} {v : Value} {vs : List Value}
    (h : vs.length ≤ names.length) :
    (readRecord (name :: names) (.array (v :: vs))).bind (Dict.get? name) = some v := by
  simp [readRecord, h, Dict.get?]

end Statechart.Value
