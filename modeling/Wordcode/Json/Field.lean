import Wordcode.Json.Basic

/-! # Typed reading of JSON

A record is an object that has each of its fields once, in any order and among members of other
names, or an array of all its fields in order. A settings record may leave out fields. -/

namespace Wordcode.Json

/-- The text of a string. -/
def text? : Json → Option String
  | string bytes => textOf? bytes
  | _ => none

/-- A truth value. -/
def bool? : Json → Option Bool
  | bool value => some value
  | _ => none

/-- An integer between two bounds, both included. -/
def integerIn? (least most : Int) : Json → Option Int
  | integer value => if least ≤ value ∧ value ≤ most then some value else none
  | _ => none

/-- An integer of 32 bits without a sign. -/
def uint32? (j : Json) : Option UInt32 := (j.integerIn? 0 (UInt32.size - 1)).map fun n => .ofNat n.toNat

/-- A word. -/
def word? (j : Json) : Option Word :=
  (j.integerIn? Int32.minValue.toInt Int32.maxValue.toInt).map .ofInt

/-- The items of an array, each read by `item?`. -/
def list? {α : Type} (item? : Json → Option α) : Json → Option (List α)
  | array items => items.mapM item?
  | _ => none

/-- The members with their names as text, if all of them are. -/
def named? (members : List (Bytes × Json)) : Option (List (String × Json)) :=
  members.mapM fun (key, value) => (textOf? key).map (·, value)

/-- The value of a field, none if it is missing; refuses a repeated field. -/
def field? (members : List (String × Json)) (name : String) : Option (Option Json) :=
  match members.filter (·.1 == name) with
  | [] => some none
  | [(_, value)] => some (some value)
  | _ => none

/-- The fields of a record in the order of their names, where any may be missing; an array leaves out
the last ones. -/
def partial? (names : List String) : Json → Option (List (Option Json))
  | object members => do
    let members ← named? members
    names.mapM (field? members)
  | array items =>
    if items.length ≤ names.length then
      some (items.map some ++ List.replicate (names.length - items.length) none)
    else none
  | _ => none

/-- The fields of a record in the order of their names. -/
def record? (names : List String) (j : Json) : Option (List Json) := do
  let fields ← j.partial? names
  fields.mapM id

/-- The only member of an object, by which a choice with contents is written. -/
def choice? : Json → Option (String × Json)
  | object [(key, value)] => (textOf? key).map (·, value)
  | _ => none

/-- The name of a choice without contents: a string, or an object that gives it the value null. -/
def plainChoice? : Json → Option String
  | string bytes => textOf? bytes
  | object [(key, null)] => textOf? key
  | _ => none

end Wordcode.Json
