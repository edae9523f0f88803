import Wordcode.Json.Lexeme

/-! # Reading and writing JSON

A document is read in one pass over its tokens. The reader keeps a stack of the arrays and objects it
is inside of; each token moves it to a new state or is refused, so nothing but a document is read.
Documents are written without blanks. -/

namespace Wordcode.Json

/-- An array or object that is being read, with what is complete of it, the last entry first. -/
inductive Frame
  | items (done : List Json)
  | members (done : List (Bytes × Json)) (key : Bytes)

/-- What the reader expects next. -/
inductive Expecting
  /-- A value. -/
  | value (stack : List Frame)
  /-- The first item of an array, or its end. -/
  | firstItem (stack : List Frame)
  /-- The first key of an object, or its end. -/
  | firstKey (stack : List Frame)
  /-- A key. -/
  | key (done : List (Bytes × Json)) (stack : List Frame)
  /-- The colon after a key. -/
  | colon (done : List (Bytes × Json)) (key : Bytes) (stack : List Frame)
  /-- A comma, or the end of an array. -/
  | afterItem (done : List Json) (stack : List Frame)
  /-- A comma, or the end of an object. -/
  | afterMember (done : List (Bytes × Json)) (stack : List Frame)
  /-- Nothing. -/
  | done (document : Json)

/-- The state after a complete value. -/
def deliver (value : Json) : List Frame → Expecting
  | [] => .done value
  | .items done :: stack => .afterItem (value :: done) stack
  | .members done key :: stack => .afterMember ((key, value) :: done) stack

/-- The state after the first token of a value. -/
def start? (stack : List Frame) : Token → Option Expecting
  | .null => some (deliver .null stack)
  | .bool value => some (deliver (.bool value) stack)
  | .integer value => some (deliver (.integer value) stack)
  | .decimal => some (deliver .decimal stack)
  | .string bytes => some (deliver (.string bytes) stack)
  | .openArray => some (.firstItem stack)
  | .openObject => some (.firstKey stack)
  | _ => none

/-- The state after a token. -/
def Expecting.step? : Expecting → Token → Option Expecting
  | value stack, token => start? stack token
  | firstItem stack, .closeArray => some (deliver (.array []) stack)
  | firstItem stack, token => start? (.items [] :: stack) token
  | firstKey stack, .closeObject => some (deliver (.object []) stack)
  | firstKey stack, .string bytes => some (colon [] bytes stack)
  | key members stack, .string bytes => some (colon members bytes stack)
  | colon members bytes stack, .colon => some (value (.members members bytes :: stack))
  | afterItem items stack, .comma => some (value (.items items :: stack))
  | afterItem items stack, .closeArray => some (deliver (.array items.reverse) stack)
  | afterMember members stack, .comma => some (key members stack)
  | afterMember members stack, .closeObject => some (deliver (.object members.reverse) stack)
  | _, _ => none

/-- The document of a sequence of tokens. -/
def ofTokens? (tokens : List Token) : Option Json := do
  match ← tokens.foldlM Expecting.step? (.value []) with
  | .done document => some document
  | _ => none

/-- Reads a document that takes up all of the bytes. -/
def parse? (bytes : Bytes) : Option Json := do ofTokens? (← tokensOf? bytes)

/-- Writes a document without blanks. -/
def render (document : Json) : Bytes := document.tokens.flatMap Token.spelling

end Wordcode.Json
