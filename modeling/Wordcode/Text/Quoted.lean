import Wordcode.Text.GraphemeExtend
import Wordcode.Text.Unprintable

/-! # Quoted text

Listings and messages show a string in double quotes on one line: what would end the quotes, break
the line, be invisible or stick to its neighbour is written as an escape. -/

namespace Wordcode.Text

/-- The fillers of Hangul are letters, but they show nothing. -/
def isFiller (c : Char) : Bool := ['\u115F', '\u1160', '\u3164', '\uFFA0'].contains c

/-- The halfwidth sound marks of katakana extend the letter before them, but they are drawn beside it,
like letters. -/
def isHalfwidthSoundMark (c : Char) : Bool := ['\uFF9E', '\uFF9F'].contains c

/-- Whether a character cannot be seen as one of its own. -/
def isHidden (c : Char) : Bool :=
  isUnprintable c || isFiller c || (extendsGrapheme c && !isHalfwidthSoundMark c)

/-- A character as it stands between double quotes. -/
def quotedChar (c : Char) : List Char :=
  match c with
  | '\x00' => ['\\', '0']
  | '\t' => ['\\', 't']
  | '\r' => ['\\', 'r']
  | '\n' => ['\\', 'n']
  | '\\' => ['\\', '\\']
  | '"' => ['\\', '"']
  | c =>
    if isHidden c then
      ['\\', 'u', '{'] ++ Nat.toDigits 16 c.toNat ++ ['}']
    else [c]

/-- The text in double quotes, with escapes. -/
def quoted (text : String) : String :=
  .ofList ('"' :: (text.toList.flatMap quotedChar ++ ['"']))

end Wordcode.Text
