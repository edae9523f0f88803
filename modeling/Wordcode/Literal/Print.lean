import Wordcode.Literal.Token
import Wordcode.Literal.Value

/-! # Writing literals

The literal of a value names structs and writes strings on one line: controls are escaped, all other
characters stand for themselves. -/

namespace Wordcode.Literal

/-- A hexadecimal digit in upper case. -/
def upperHexDigit (n : Nat) : Char := (Nat.digitChar n).toUpper

/-- A character as it is written between quotes. -/
def writtenChar (c : Char) : List Char :=
  match c with
  | '\n' => ['\\', 'n']
  | '\t' => ['\\', 't']
  | '\r' => ['\\', 'r']
  | '"' => ['\\', '"']
  | '\\' => ['\\', '\\']
  | '\x00' => ['\\', '0']
  | c =>
    if c.toNat < 32 ∨ c.toNat = 127 then
      ['\\', 'x', upperHexDigit (c.toNat / 16), upperHexDigit (c.toNat % 16)]
    else [c]

/-- A string between quotes. -/
def writtenString (text : String) : List Char :=
  '"' :: (text.toList.flatMap writtenChar ++ ['"'])

/-- How vectors of a type are opened and closed: structs by their name and in curly brackets. -/
def brackets (ctx : TypeContext) (type : TypeIndex) : List Char × Char :=
  match ctx.types.get? type with
  | some (.struct id _) => (((ctx.structName? id).getD "?").toList ++ ['{'], '}')
  | _ => (['['], ']')

namespace Value

mutual

/-- The characters of the literal of a value. -/
def chars (ctx : TypeContext) : Value → List Char
  | nil => ['n', 'i', 'l']
  | int value => (toString value.toInt).toList
  | float value => (floatLayout.double value).toList
  | string _ text => writtenString text
  | vector _ type elements =>
    (brackets ctx type).1 ++ elementChars ctx elements ++ [(brackets ctx type).2]

/-- The characters of elements, separated by commas. -/
def elementChars (ctx : TypeContext) : List Value → List Char
  | [] => []
  | [element] => chars ctx element
  | element :: elements => chars ctx element ++ ',' :: ' ' :: elementChars ctx elements

end

/-- The literal of a value. -/
def literal (ctx : TypeContext) (value : Value) : String := .ofList (value.chars ctx)

end Value

end Wordcode.Literal
