import Statechart.Dict
import Statechart.Number.Basic

/-! Data values: what variables hold, events carry and definitions are written in.

    An object is a list of fields in increasing order of their names. The one place where another order
    occurs is the written form of a record, whose fields keep the order of its declaration until
    `sortFields` puts them in order. -/

namespace Statechart

/-- A data value. -/
inductive Value where
  | null
  | bool (b : Bool)
  | number (n : Number)
  | string (s : String)
  | array (items : List Value)
  | object (fields : List (String × Value))
  deriving Inhabited

/-- The fields of an object. -/
abbrev Object := Dict String Value

namespace Value

/-- A count as a value. -/
def ofNat (n : Nat) : Value := .number (.ofNat n)

/-- A list of texts as a value. -/
def ofStrings (ss : List String) : Value := .array (ss.map .string)

/-- A text or its absence as a value. -/
def ofString? : Option String → Value
  | some s => .string s
  | none => .null

/-- The fields of an object. -/
def object? : Value → Option Object
  | .object fields => some fields
  | _ => none

/-- The text of a string. -/
def string? : Value → Option String
  | .string s => some s
  | _ => none

/-- The value of a field, if the value is an object that has it. -/
def field? (name : String) : Value → Option Value
  | .object fields => Dict.get? name fields
  | _ => none

/-- The value that a chain of field names leads to. -/
def follow? : List String → Value → Option Value
  | [], v => some v
  | name :: path, v => (v.field? name).bind (follow? path)

mutual

/-- Equality of data, in which a number kept as an integer differs from any binary64 number. -/
def same : Value → Value → Bool
  | .null, .null => true
  | .bool a, .bool b => a == b
  | .number a, .number b => a.same b
  | .string a, .string b => a == b
  | .array a, .array b => sameItems a b
  | .object a, .object b => sameFields a b
  | _, _ => false

/-- Equality of lists of values, item by item. -/
def sameItems : List Value → List Value → Bool
  | [], [] => true
  | a :: as, b :: bs => a.same b && sameItems as bs
  | _, _ => false

/-- Equality of lists of fields, name by name and value by value. -/
def sameFields : List (String × Value) → List (String × Value) → Bool
  | [], [] => true
  | (j, a) :: as, (k, b) :: bs => j == k && a.same b && sameFields as bs
  | _, _ => false

end

mutual

/-- The value with the fields of every object in order, the last field of a name winning. -/
def sortFields : Value → Value
  | .array items => .array (sortItems items)
  | .object fields => .object (Dict.ofList (sortEach fields))
  | v => v

/-- `sortFields` on every item. -/
def sortItems : List Value → List Value
  | [] => []
  | v :: vs => v.sortFields :: sortItems vs

/-- `sortFields` on the value of every field. -/
def sortEach : List (String × Value) → List (String × Value)
  | [] => []
  | (k, v) :: fs => (k, v.sortFields) :: sortEach fs

end

@[simp] theorem follow?_nil (v : Value) : v.follow? [] = some v := rfl

@[simp] theorem follow?_cons (name : String) (path : List String) (v : Value) :
    v.follow? (name :: path) = (v.field? name).bind (follow? path) := rfl

end Value
end Statechart
