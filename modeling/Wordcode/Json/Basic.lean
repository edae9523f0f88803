import Wordcode.Word

/-! # JSON documents

Payloads and settings are JSON documents. A document is kept as it was read, with the members of an
object in their order and repetitions included. A string is kept as bytes, since bytes that are no
text may be skipped, though not used (`Json.text?`); of numbers only those written as integers have
a value here. A document is written and read as a sequence of tokens (`Json.tokens`). -/

namespace Wordcode

/-- A JSON document. -/
inductive Json
  | null
  | bool (value : Bool)
  | integer (value : Int)
  /-- A number with a fraction or an exponent, or minus zero. -/
  | decimal
  | string (bytes : Bytes)
  | array (items : List Json)
  | object (members : List (Bytes × Json))

namespace Json

/-- The bytes of a text. -/
def bytesOf (text : String) : Bytes := text.toUTF8.data.toList

/-- The text of bytes, if they are one. -/
def textOf? (bytes : Bytes) : Option String := String.fromUTF8? ⟨bytes.toArray⟩

/-- The bytes of a text read back as it. -/
theorem textOf?_bytesOf (text : String) : textOf? (bytesOf text) = some text := by
  simp [textOf?, bytesOf, String.fromUTF8?, String.toUTF8, text.isValidUTF8, String.fromUTF8]

/-- The string of a text. -/
def ofText (text : String) : Json := .string (bytesOf text)

/-- The object of members with these names. -/
def ofMembers (members : List (String × Json)) : Json :=
  .object (members.map fun (name, value) => (bytesOf name, value))

/-- The smallest pieces of a written document. -/
inductive Token
  | openArray
  | closeArray
  | openObject
  | closeObject
  | comma
  | colon
  | null
  | bool (value : Bool)
  | integer (value : Int)
  | decimal
  | string (bytes : Bytes)
  deriving DecidableEq

mutual

/-- The tokens of a document. -/
def tokens : Json → List Token
  | null => [.null]
  | bool value => [.bool value]
  | integer value => [.integer value]
  | decimal => [.decimal]
  | string bytes => [.string bytes]
  | array [] => [.openArray, .closeArray]
  | array (item :: items) => .openArray :: (item.tokens ++ moreItems items)
  | object [] => [.openObject, .closeObject]
  | object (member :: members) =>
    .openObject :: .string member.1 :: .colon :: (member.2.tokens ++ moreMembers members)

/-- The tokens of the items after the first one, and the end of their array. -/
def moreItems : List Json → List Token
  | [] => [.closeArray]
  | item :: items => .comma :: (item.tokens ++ moreItems items)

/-- The tokens of the members after the first one, and the end of their object. -/
def moreMembers : List (Bytes × Json) → List Token
  | [] => [.closeObject]
  | (key, value) :: members =>
    .comma :: .string key :: .colon :: (value.tokens ++ moreMembers members)

end

end Json

end Wordcode
