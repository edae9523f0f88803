import Wordcode.Json.Basic

/-! # The bytes of JSON tokens

Each token has one written form (`Token.spelling`), and further ones that are read (`tokensOf?`):
blanks between tokens, escapes in strings, numbers with a fraction or an exponent. A written string
escapes the quote, the backslash and the controls and holds every other byte as it is. -/

namespace Wordcode.Json

/-! ### Strings -/

/-- A hexadecimal digit in lower case. -/
def hexDigit (n : Nat) : UInt8 := if n < 10 then .ofNat (48 + n) else .ofNat (87 + n)

/-- The value of a hexadecimal digit. -/
def hexValue? (b : UInt8) : Option Nat :=
  if 48 ≤ b ∧ b ≤ 57 then some (b.toNat - 48)
  else if 97 ≤ b ∧ b ≤ 102 then some (b.toNat - 87)
  else if 65 ≤ b ∧ b ≤ 70 then some (b.toNat - 55)
  else none

/-- The letter of a one-letter escape of a byte. -/
def escapeLetter? (b : UInt8) : Option UInt8 :=
  if b = 34 then some 34
  else if b = 92 then some 92
  else if b = 8 then some 98
  else if b = 12 then some 102
  else if b = 10 then some 110
  else if b = 13 then some 114
  else if b = 9 then some 116
  else none

/-- The byte of the letter of a one-letter escape. -/
def escapedByte? (letter : UInt8) : Option UInt8 :=
  if letter = 34 then some 34
  else if letter = 92 then some 92
  else if letter = 47 then some 47
  else if letter = 98 then some 8
  else if letter = 102 then some 12
  else if letter = 110 then some 10
  else if letter = 114 then some 13
  else if letter = 116 then some 9
  else none

/-- A byte as it is written between quotes. -/
def writtenByte (b : UInt8) : Bytes :=
  match escapeLetter? b with
  | some letter => [92, letter]
  | none =>
    if b < 32 then [92, 117, 48, 48, hexDigit (b.toNat / 16), hexDigit (b.toNat % 16)] else [b]

/-- One piece of a string between quotes: a byte, or the code unit of a numeric escape. -/
inductive Piece
  | byte (b : UInt8)
  | unit (n : Nat)
  deriving DecidableEq

/-- The bytes of a code point, in the scheme of UTF-8. Surrogates get bytes too, which are no part of
any text. -/
def codeBytes (n : Nat) : Bytes :=
  if n < 0x80 then [.ofNat n]
  else if n < 0x800 then [.ofNat (0xC0 + n / 64), .ofNat (0x80 + n % 64)]
  else if n < 0x10000 then
    [.ofNat (0xE0 + n / 4096), .ofNat (0x80 + n / 64 % 64), .ofNat (0x80 + n % 64)]
  else
    [.ofNat (0xF0 + n / 262144), .ofNat (0x80 + n / 4096 % 64), .ofNat (0x80 + n / 64 % 64),
      .ofNat (0x80 + n % 64)]

/-- The bytes of pieces; a high surrogate and a low one after it make one code point. -/
def pieceBytes : List Piece → Bytes
  | [] => []
  | .byte b :: rest => b :: pieceBytes rest
  | .unit n :: .unit m :: rest =>
    if 0xD800 ≤ n ∧ n < 0xDC00 ∧ 0xDC00 ≤ m ∧ m < 0xE000 then
      codeBytes (0x10000 + (n - 0xD800) * 0x400 + (m - 0xDC00)) ++ pieceBytes rest
    else codeBytes n ++ pieceBytes (.unit m :: rest)
  | .unit n :: rest => codeBytes n ++ pieceBytes rest

/-- The pieces up to the closing quote, and what follows it. -/
def pieces? : Bytes → Option (List Piece × Bytes)
  | [] => none
  | 34 :: rest => some ([], rest)
  | 92 :: 117 :: a :: b :: c :: d :: rest => do
    let n := (← hexValue? a) * 4096 + (← hexValue? b) * 256 + (← hexValue? c) * 16 + (← hexValue? d)
    let (pieces, rest) ← pieces? rest
    some (.unit n :: pieces, rest)
  | 92 :: letter :: rest => do
    let b ← escapedByte? letter
    let (pieces, rest) ← pieces? rest
    some (.byte b :: pieces, rest)
  | b :: rest =>
    if b < 32 ∨ b = 92 then none
    else do
      let (pieces, rest) ← pieces? rest
      some (.byte b :: pieces, rest)

/-! ### Numbers -/

/-- Whether a byte is a decimal digit. -/
def isDigit (b : UInt8) : Bool := 48 ≤ b && b ≤ 57

/-- The number of decimal digits. -/
def digitsValue (digits : Bytes) : Nat := digits.foldl (fun n b => 10 * n + (b.toNat - 48)) 0

/-- The leading digits and the rest, if there is a digit. -/
def digits? (bytes : Bytes) : Option (Bytes × Bytes) :=
  let digits := bytes.takeWhile isDigit
  if digits.isEmpty then none else some (digits, bytes.drop digits.length)

/-- The digits before any fraction: a zero alone, or digits without a leading zero. -/
def wholeDigits? : Bytes → Option (Bytes × Bytes)
  | 48 :: rest => some ([48], rest)
  | bytes => digits? bytes

/-- What follows a fraction, if there is one; a point needs digits. -/
def afterFraction? : Bytes → Option (Bool × Bytes)
  | 46 :: rest => (digits? rest).map fun (_, rest) => (true, rest)
  | bytes => some (false, bytes)

/-- What follows an exponent, if there is one; its letter needs digits. -/
def afterExponent? : Bytes → Option (Bool × Bytes)
  | b :: rest =>
    if b = 101 ∨ b = 69 then
      let unsigned := match rest with
        | 43 :: rest => rest
        | 45 :: rest => rest
        | rest => rest
      (digits? unsigned).map fun (_, rest) => (true, rest)
    else some (false, b :: rest)
  | [] => some (false, [])

/-- The token of a number without its sign, and what follows it. -/
def number? (negative : Bool) (bytes : Bytes) : Option (Token × Bytes) := do
  let (digits, rest) ← wholeDigits? bytes
  let (fraction, rest) ← afterFraction? rest
  let (exponent, rest) ← afterExponent? rest
  let value := digitsValue digits
  if fraction || exponent || (negative && value == 0) then some (.decimal, rest)
  else some (.integer (if negative then -value else value), rest)

/-! ### Tokens -/

/-- What follows the given bytes. -/
def after? (start bytes : Bytes) : Option Bytes :=
  if start.isPrefixOf bytes then some (bytes.drop start.length) else none

/-- The token that starts with byte `b`, and what follows it. -/
def token? (b : UInt8) (rest : Bytes) : Option (Token × Bytes) :=
  if b = 91 then some (.openArray, rest)
  else if b = 93 then some (.closeArray, rest)
  else if b = 123 then some (.openObject, rest)
  else if b = 125 then some (.closeObject, rest)
  else if b = 44 then some (.comma, rest)
  else if b = 58 then some (.colon, rest)
  else if b = 34 then (pieces? rest).map fun (pieces, rest) => (.string (pieceBytes pieces), rest)
  else if b = 45 then number? true rest
  else if isDigit b then number? false (b :: rest)
  else if b = 110 then (after? [117, 108, 108] rest).map (.null, ·)
  else if b = 116 then (after? [114, 117, 101] rest).map (.bool true, ·)
  else if b = 102 then (after? [97, 108, 115, 101] rest).map (.bool false, ·)
  else none

/-- Whether a byte may stand between tokens. -/
def isBlank (b : UInt8) : Bool := b == 32 || b == 10 || b == 9 || b == 13

/-- The tokens of at most `bound` bytes; each token and each blank takes up one byte at least. -/
def tokensWithin : Nat → Bytes → Option (List Token)
  | _, [] => some []
  | 0, _ :: _ => none
  | bound + 1, b :: rest =>
    if isBlank b then tokensWithin bound rest
    else do
      let (token, rest) ← token? b rest
      return token :: (← tokensWithin bound rest)

/-- The tokens of a text. -/
def tokensOf? (bytes : Bytes) : Option (List Token) := tokensWithin bytes.length bytes

/-- The bytes of an ASCII text. -/
def asciiBytes (text : List Char) : Bytes := text.map fun c => .ofNat c.toNat

/-- The written form of a token. A decimal has no value, so any spelling of one will do. -/
def Token.spelling : Token → Bytes
  | openArray => [91]
  | closeArray => [93]
  | openObject => [123]
  | closeObject => [125]
  | comma => [44]
  | colon => [58]
  | null => [110, 117, 108, 108]
  | bool true => [116, 114, 117, 101]
  | bool false => [102, 97, 108, 115, 101]
  | integer (.ofNat n) => asciiBytes (Nat.toDigits 10 n)
  | integer (.negSucc n) => 45 :: asciiBytes (Nat.toDigits 10 (n + 1))
  | decimal => [45, 48]
  | string bytes => 34 :: (bytes.flatMap writtenByte ++ [34])

end Wordcode.Json
