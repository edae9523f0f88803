import Wordcode.Number.Double
import Wordcode.TypeTable

/-! # Values

Values are trees. Strings and vectors are objects with an identity, since they can be shared: two
parts of a value, or two values, with one identity are one object. Objects never change, so one with
the same identity always has the same contents. -/

namespace Wordcode.Literal

/-- The identity of an object. -/
structure ObjectId where
  number : Nat
  deriving DecidableEq, Repr

/-- A value. -/
inductive Value
  | nil
  | int (value : Int64)
  | float (value : Double)
  | string (id : ObjectId) (text : String)
  /-- A vector, or a struct if the type is one. -/
  | vector (id : ObjectId) (type : TypeIndex) (elements : List Value)

namespace Value

/-- The kind of a value; structs are vectors. -/
def kind : Value → TypeKind
  | nil => .nil
  | int _ => .int
  | float _ => .float
  | string .. => .string
  | vector .. => .vector

/-- The identity of the object that a value is, if it is one. -/
def objectId? : Value → Option ObjectId
  | string id _ | vector id _ _ => some id
  | _ => none

/-- The number of opposite sign; the least integer stays as it is. -/
def negate? : Value → Option Value
  | int value => some (int (-value))
  | float value => some (float value.neg)
  | _ => none

mutual

/-- Equality of contents. A vector equals itself without a look at its elements. -/
def eqv : Value → Value → Bool
  | nil, nil => true
  | int a, int b => a == b
  | float a, float b => a.eqv b
  | string _ a, string _ b => a == b
  | vector i t as, vector j u bs => i == j || (t == u && eqvAll as bs)
  | _, _ => false

/-- Equality of contents, one by one. -/
def eqvAll : List Value → List Value → Bool
  | [], [] => true
  | a :: as, b :: bs => a.eqv b && eqvAll as bs
  | _, _ => false

end

end Value

end Wordcode.Literal
