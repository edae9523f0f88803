import Wordcode.Literal.Token
import Wordcode.TypeTable

/-! # Faults of literals

Why a text is no literal of a type. A fault of the text itself is lexical, the others come from the
grammar and the types. Each error has the line of the token at which it was found. -/

namespace Wordcode.Literal

/-- Why no token can be read. -/
inductive LexFault
  | illegalCharacter (c : Char)
  | hexWithoutDigits
  | integerOutOfRange (text : String)
  | unterminatedString
  | emptyCharacter
  | unterminatedCharacter
  | unterminatedEscape
  | shortHexEscape
  | unknownEscape (c : Char)
  deriving DecidableEq, Repr

/-- The wording of a lexical fault, with what was read in backticks. -/
def LexFault.message : LexFault → String
  | illegalCharacter c => s!"illegal token: `{c}`"
  | hexWithoutDigits => "hexadecimal literal needs digits"
  | integerOutOfRange text => s!"integer literal out of range: `{text}`"
  | unterminatedString => "unterminated string literal"
  | emptyCharacter => "empty character literal"
  | unterminatedCharacter => "unterminated character literal"
  | unterminatedEscape => "unterminated escape sequence"
  | shortHexEscape => "`\\x` escape needs two hex digits"
  | unknownEscape c => s!"unknown escape sequence: `\\{c}`"

/-- Why tokens are no literal of a type. -/
inductive SyntaxFault
  | lexical (cause : LexFault)
  | tooDeep
  | unknownType (type : TypeIndex)
  | kindMismatch (required given : TypeKind)
  | notNumeric
  | unexpected (wanted found : Token)
  | structMismatch (required given : String)
  | unknownStruct (name : String)
  | notStruct (name : String)
  | illegalStart (token : Token)
  deriving DecidableEq

/-- The wording of a fault. -/
def SyntaxFault.message : SyntaxFault → String
  | lexical cause => cause.message
  | tooDeep => "nesting too deep"
  | unknownType type => s!"unknown type index {type}"
  | kindMismatch required given => s!"type `{required}` required, `{given}` given"
  | notNumeric => "unary minus: numeric value expected"
  | unexpected wanted found => s!"`{wanted.shown}` expected, found: `{found.shown}`"
  | structMismatch required given => s!"struct type `{required}` required, `{given}` given"
  | unknownStruct name => s!"unknown struct type `{name}`"
  | notStruct name => s!"`{name}` is not a struct type"
  | illegalStart token => s!"illegal start of expression: `{token.shown}`"

/-- Why a text is no literal of a type, and the line where that was found. -/
inductive ParseError
  | syntaxError (line : UInt32) (cause : SyntaxFault)
  /-- A struct literal leaves out a field whose type has no default value. -/
  | noDefault (line : UInt32)
  deriving DecidableEq

namespace ParseError

/-- The line of an error. -/
def line : ParseError → UInt32
  | syntaxError line _ | noDefault line => line

/-- The wording of an error, which starts with its line. -/
def message : ParseError → String
  | syntaxError line cause => s!"line {line}: {cause.message}"
  | noDefault line => s!"line {line}: no default value possible for missing struct elements"

end ParseError

end Wordcode.Literal
