import Wordcode.Literal.Fault
import Wordcode.Text.Alphabetic
import Wordcode.Text.Numeric

/-! # Reading tokens

A lexer stands in a text and reads one token at a time; after a fault it can be used further, from
where the reading stopped. Between tokens it skips blanks, comments and line breaks. A line break
that is not needed to continue the line becomes a token of its own, which has the line of the first
break of its gap. -/

namespace Wordcode.Literal

/-- A token or a fault, and the characters that follow what was read. -/
abbrev Scan := Except LexFault Token × List Char

namespace Scan

/-! ### Numbers -/

/-- The value of a hexadecimal digit. -/
def hexValue? (c : Char) : Option Nat :=
  if c.isDigit then some (c.toNat - 48)
  else if 'a' ≤ c ∧ c ≤ 'f' then some (c.toNat - 87)
  else if 'A' ≤ c ∧ c ≤ 'F' then some (c.toNat - 55)
  else none

/-- Whether a character is a hexadecimal digit. -/
def isHex (c : Char) : Bool := (hexValue? c).isSome

/-- The number of hexadecimal digits. -/
def hexNumber (digits : List Char) : Nat :=
  digits.foldl (fun n c => 16 * n + (hexValue? c).getD 0) 0

/-- The number of decimal digits. -/
def decimalNumber (digits : List Char) : Nat :=
  digits.foldl (fun n c => 10 * n + (c.toNat - 48)) 0

/-- A hexadecimal integer after its mark `0x`. It has 64 bits and is read as a signed number. -/
def hexadecimal (mark : List Char) (cs : List Char) : Scan :=
  let digits := cs.takeWhile isHex
  let rest := cs.drop digits.length
  if digits.isEmpty then (.error .hexWithoutDigits, rest)
  else if hexNumber digits < UInt64.size then (.ok (.int (.ofNat (hexNumber digits))), rest)
  else (.error (.integerOutOfRange (.ofList (mark ++ digits))), rest)

/-- The digits after a point, if there is a point, and what follows. -/
def fraction : List Char → Option (List Char) × List Char
  | '.' :: rest =>
    let digits := rest.takeWhile Char.isDigit
    (some digits, rest.drop digits.length)
  | cs => (none, cs)

/-- Whether an exponent is negative, and what follows its sign. -/
def exponentSign : List Char → Bool × List Char
  | '+' :: rest => (false, rest)
  | '-' :: rest => (true, rest)
  | cs => (false, cs)

/-- The exponent, if there is one, and what follows. Its letter without digits is no exponent. -/
def exponent (cs : List Char) : Option Int × List Char :=
  match cs with
  | e :: rest =>
    if e = 'e' ∨ e = 'E' then
      let (negative, unsigned) := exponentSign rest
      let digits := unsigned.takeWhile Char.isDigit
      if digits.isEmpty then (none, cs)
      else
        let value : Int := decimalNumber digits
        (some (if negative then -value else value), unsigned.drop digits.length)
    else (none, cs)
  | [] => (none, [])

/-- A decimal number: an integer, or a float if it has a point or an exponent. -/
def decimal (cs : List Char) : Scan :=
  let whole := cs.takeWhile Char.isDigit
  let (places, rest) := fraction (cs.drop whole.length)
  let (power, rest) := exponent rest
  if places.isNone && power.isNone then
    let value := decimalNumber whole
    if value ≤ Int64.maxValue.toInt then (.ok (.int (.ofNat value)), rest)
    else (.error (.integerOutOfRange (.ofList whole)), rest)
  else
    let places := places.getD []
    let mantissa := decimalNumber (whole ++ places)
    (.ok (.float (.ofDecimal mantissa (power.getD 0 - places.length))), rest)

/-- A number. -/
def number : List Char → Scan
  | '0' :: 'x' :: rest => hexadecimal ['0', 'x'] rest
  | '0' :: 'X' :: rest => hexadecimal ['0', 'X'] rest
  | cs => decimal cs

/-! ### Strings and characters -/

/-- The character of a one-letter escape. -/
def escapeLetter? (letter : Char) : Option Char :=
  match letter with
  | 'n' => some '\n'
  | 't' => some '\t'
  | 'r' => some '\r'
  | '0' => some '\x00'
  | '"' => some '"'
  | '\x27' => some '\x27'
  | '\\' => some '\\'
  | _ => none

/-- The two hexadecimal digits of an escape. -/
def hexEscape (cs : List Char) : Except LexFault Char × List Char :=
  match cs with
  | a :: rest =>
    match hexValue? a with
    | none => (.error .shortHexEscape, cs)
    | some high =>
      match rest with
      | b :: rest' =>
        match hexValue? b with
        | none => (.error .shortHexEscape, rest)
        | some low => (.ok (.ofNat (16 * high + low)), rest')
      | [] => (.error .shortHexEscape, [])
  | [] => (.error .shortHexEscape, [])

/-- The rest of an escape after its backslash. -/
def escape : List Char → Except LexFault Char × List Char
  | [] => (.error .unterminatedEscape, [])
  | 'x' :: rest => hexEscape rest
  | letter :: rest =>
    match escapeLetter? letter with
    | some c => (.ok c, rest)
    | none => (.error (.unknownEscape letter), rest)

/-- Reading the digits of an escape does not add characters. -/
theorem length_hexEscape_le (cs : List Char) : (hexEscape cs).2.length ≤ cs.length := by
  unfold hexEscape
  repeat' split
  all_goals simp only [List.length_cons, List.length_nil]
  all_goals omega

/-- Reading an escape does not add characters. -/
theorem length_escape_le (cs : List Char) : (escape cs).2.length ≤ cs.length := by
  unfold escape
  split
  · simp
  · exact Nat.le_succ_of_le (length_hexEscape_le _)
  · split <;> simp

/-- The rest of a string after the characters `done`, the last one first. -/
def stringRest (done : List Char) : List Char → Scan
  | [] => (.error .unterminatedString, [])
  | c :: rest =>
    if c = '\n' then (.error .unterminatedString, c :: rest)
    else if c = '"' then (.ok (.string (.ofList done.reverse)), rest)
    else if c = '\\' then
      let escaped := escape rest
      match escaped.1 with
      | .ok c => stringRest (c :: done) escaped.2
      | .error fault => (.error fault, escaped.2)
    else stringRest (c :: done) rest
termination_by cs => cs.length
decreasing_by
  · exact Nat.lt_succ_of_le (length_escape_le rest)
  · exact Nat.lt_succ_self _

/-- A string after its opening quote. -/
def string (cs : List Char) : Scan := stringRest [] cs

/-- The closing quote of a character. -/
def characterEnd (c : Char) : List Char → Scan
  | '\x27' :: rest => (.ok (.int (.ofNat c.toNat)), rest)
  | cs => (.error .unterminatedCharacter, cs)

/-- A character after its opening quote. It stands for its code point. -/
def character : List Char → Scan
  | '\\' :: rest =>
    match escape rest with
    | (.ok c, rest) => characterEnd c rest
    | (.error fault, rest) => (.error fault, rest)
  | c :: rest =>
    if c = '\x27' ∨ c = '\n' then (.error .emptyCharacter, c :: rest)
    else characterEnd c rest
  | [] => (.error .emptyCharacter, [])

/-! ### Names and signs -/

/-- Whether a name can start with the character. -/
def startsName (c : Char) : Bool := Text.isAlphabetic c || c == '_'

/-- Whether a name can go on with the character. -/
def continuesName (c : Char) : Bool := Text.isAlphabetic c || Text.isNumeric c || c == '_'

/-- A name. -/
def name (cs : List Char) : Scan :=
  let chars := cs.takeWhile continuesName
  (.ok (if chars = ['n', 'i', 'l'] then .nil else .name (.ofList chars)), cs.drop chars.length)

/-- The token of a sign. -/
def sign? (c : Char) : Option Token :=
  match c with
  | '-' => some .minus
  | '[' => some .leftBracket
  | ']' => some .rightBracket
  | '{' => some .leftCurly
  | '}' => some .rightCurly
  | ',' => some .comma
  | _ => none

/-- The token that starts with the first character. -/
def token : List Char → Scan
  | [] => (.ok .endOfFile, [])
  | c :: rest =>
    if c.isDigit then number (c :: rest)
    else if c = '"' then string rest
    else if c = '\x27' then character rest
    else if startsName c then name (c :: rest)
    else ((sign? c).elim (.error (.illegalCharacter c)) .ok, rest)

end Scan

/-! ### Gaps -/

/-- What is left after a gap. -/
structure Gap where
  rest : List Char
  /-- The line where the gap ends. -/
  line : UInt32
  /-- The line of its first line break. -/
  firstBreak : Option UInt32

/-- Skips blanks, line breaks and comments, inside a comment if `comment`. -/
def skipGap (comment : Bool) (line : UInt32) (firstBreak : Option UInt32) : List Char → Gap
  | [] => ⟨[], line, firstBreak⟩
  | '\n' :: rest => skipGap false (line + 1) (firstBreak <|> some line) rest
  | c :: rest =>
    if comment then skipGap true line firstBreak rest
    else if c = ' ' ∨ c = '\t' ∨ c = '\r' then skipGap false line firstBreak rest
    else if c = '/' ∧ rest.head? = some '/' then skipGap true line firstBreak rest
    else ⟨c :: rest, line, firstBreak⟩

/-! ### Lexers -/

/-- A place in a text. -/
structure Lexer where
  /-- The characters ahead. -/
  rest : List Char
  /-- The current line; the count wraps around at 32 bits. -/
  line : UInt32
  /-- The last token read. -/
  last : Option Token

namespace Lexer

/-- The lexer at the start of a text. -/
def ofText (text : String) : Lexer := ⟨text.toList, 1, none⟩

/-- Reads a token. A fault has the line where its token starts. -/
def next (lexer : Lexer) : Except ParseError Spanned × Lexer :=
  let gap := skipGap false lexer.line none lexer.rest
  let breakLine := if lexer.last.any (!·.continuesLine) then gap.firstBreak else none
  match breakLine with
  | some line => (.ok ⟨.linefeed, line⟩, ⟨gap.rest, gap.line, some .linefeed⟩)
  | none =>
    match Scan.token gap.rest with
    | (.ok token, rest) => (.ok ⟨token, gap.line⟩, ⟨rest, gap.line, some token⟩)
    | (.error fault, rest) =>
      (.error (.syntaxError gap.line (.lexical fault)), ⟨rest, gap.line, lexer.last⟩)

end Lexer

/-- The tokens of a text up to its end or the first fault. -/
structure Lexed where
  tokens : List Spanned
  /-- The line of the end of the text, or the fault. -/
  ending : Except ParseError UInt32

/-- The next tokens, at most `bound` of them; each takes up one character at least. -/
def Lexer.tokensWithin : Nat → Lexer → Lexed
  | 0, lexer => ⟨[], .ok lexer.line⟩
  | bound + 1, lexer =>
    match lexer.next with
    | (.error fault, _) => ⟨[], .error fault⟩
    | (.ok ⟨.endOfFile, line⟩, _) => ⟨[], .ok line⟩
    | (.ok spanned, lexer) =>
      let lexed := tokensWithin bound lexer
      ⟨spanned :: lexed.tokens, lexed.ending⟩

/-- The tokens of a text. -/
def Lexed.ofText (text : String) : Lexed := (Lexer.ofText text).tokensWithin (text.length + 1)

end Wordcode.Literal
