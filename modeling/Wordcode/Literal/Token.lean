import Wordcode.Number.Layout
import Wordcode.Text.Quoted

/-! # Tokens of literals

A literal is a text of numbers, strings, names and brackets. Line breaks are tokens where they can end
an element. -/

namespace Wordcode.Literal

/-- Literals write a number with an exponent below `10 ^ -4` and from `10 ^ 16` on. -/
def floatLayout : Layout := ⟨-4, 15⟩

/-- A token of a literal. -/
inductive Token
  | int (value : Int64)
  | float (value : Double)
  | string (text : String)
  | name (text : String)
  | nil
  | minus
  | leftBracket
  | rightBracket
  | leftCurly
  | rightCurly
  | comma
  | linefeed
  | endOfFile
  deriving DecidableEq

namespace Token

/-- How messages show a token. -/
def shown : Token → String
  | int value => toString value.toInt
  | float value => floatLayout.double value
  | string text => Text.quoted text
  | name text => text
  | nil => "nil"
  | minus => "-"
  | leftBracket => "["
  | rightBracket => "]"
  | leftCurly => "\x7b"
  | rightCurly => "\x7d"
  | comma => ","
  | linefeed => "linefeed"
  | endOfFile => "end of file"

/-- Whether a line break after the token means nothing, since no element can end there. -/
def continuesLine : Token → Bool
  | comma | leftBracket | leftCurly | minus | linefeed => true
  | _ => false

end Token

/-- A token and the line where it starts. Lines count from one. -/
structure Spanned where
  token : Token
  line : UInt32
  deriving DecidableEq

end Wordcode.Literal
