import Wordcode.Literal.Lexer

/-! # Reading tokens by bytes

Here the place of a lexer is the number of bytes in front of it, and what is looked at is cut out of the text
between such places. A cut can only be made where a character starts or the text ends; `none` says that one was
tried elsewhere. What the pieces mean is as for `Lexer`. -/

namespace Wordcode.Literal

/-- A lexer that knows the bytes in front of it. -/
structure Bytewise where
  place : Nat
  line : UInt32
  /-- The last token read. -/
  last : Option Token

/-- The place behind a gap. -/
structure BytewiseGap where
  place : Nat
  /-- The line where the gap ends. -/
  line : UInt32
  /-- The line of its first line break. -/
  firstBreak : Option UInt32

namespace Bytewise

/-- The lexer at the start of a text. -/
def start : Bytewise := ⟨0, 1, none⟩

variable (text : String)

/-! ### Looking and moving -/

/-- The characters between two places. -/
def cut? (start stop : Nat) : Option (List Char) :=
  if start ≤ stop ∧ String.Pos.Raw.IsValid text ⟨start⟩ ∧ String.Pos.Raw.IsValid text ⟨stop⟩ then
    some (String.Pos.Raw.extract text ⟨start⟩ ⟨stop⟩).toList
  else none

/-- The characters from a place on. -/
def ahead? (place : Nat) : Option (List Char) := cut? text place text.utf8ByteSize

/-- The next character, unless the text ends. -/
def peek? (place : Nat) : Option (Option Char) := do return (← ahead? text place).head?

/-- The character behind the next one. -/
def peekNext? (place : Nat) : Option (Option Char) := do return (← ahead? text place).tail.head?

/-- The place behind the next character. -/
def bump? (place : Nat) : Option Nat := do
  match ← peek? text place with
  | some c => return place + c.utf8Size
  | none => return place

/-- Moves over the next character if it is one of these. -/
def skipOne? (p : Char → Bool) (place : Nat) : Option Nat := do
  if (← peek? text place).any p then bump? text place else return place

/-- Where there is a next character there are bytes ahead. -/
theorem lt_of_peek? {text : String} {place : Nat} {c : Char} (h : peek? text place = some (some c)) :
    place < text.utf8ByteSize := by
  refine Nat.lt_of_not_le fun hle => ?_
  have hnone : String.Pos.Raw.extract text ⟨place⟩ ⟨text.utf8ByteSize⟩ = "" := if_pos hle
  simp only [peek?, ahead?, cut?, hnone] at h
  split at h <;> cases h

theorem sub_lt_of_peek? {text : String} {place behind : Nat} {c : Char} (h : peek? text place = some (some c))
    (hlt : place < behind) : text.utf8ByteSize - behind < text.utf8ByteSize - place :=
  Nat.sub_lt_sub_left (lt_of_peek? h) hlt

/-- Moves over all the next characters of these. -/
def skipAll? (p : Char → Bool) (place : Nat) : Option Nat :=
  match _peeked : peek? text place with
  | none => none
  | some none => some place
  | some (some c) => if p c then skipAll? p (place + c.utf8Size) else some place
termination_by text.utf8ByteSize - place
decreasing_by exact sub_lt_of_peek? _peeked (Nat.lt_add_of_pos_right c.utf8Size_pos)

/-! ### Numbers -/

/-- A hexadecimal integer, from its mark on. -/
def hexadecimal? (start : Nat) : Option (Except LexFault Token × Nat) := do
  let first ← bump? text (← bump? text start)
  let stop ← skipAll? text Scan.isHex first
  let digits ← cut? text first stop
  if digits.isEmpty then return (.error .hexWithoutDigits, stop)
  else if Scan.hexNumber digits < UInt64.size then return (.ok (.int (.ofNat (Scan.hexNumber digits))), stop)
  else return (.error (.integerOutOfRange (.ofList (← cut? text start stop))), stop)

/-- The place behind a point and its digits, if there is a point. -/
def fraction? (place : Nat) : Option Nat := do
  if (← peek? text place) = some '.' then skipAll? text Char.isDigit (← bump? text place) else return place

/-- The place behind an exponent. If there are no digits it is the place of the letter again. -/
def exponent? (letter : Nat) : Option Nat := do
  if (← peek? text letter).any (fun c => c = 'e' ∨ c = 'E') then
    let digits ← skipOne? text (fun c => c = '+' ∨ c = '-') (← bump? text letter)
    if (← peek? text digits).any Char.isDigit then skipAll? text Char.isDigit digits else return letter
  else return letter

/-- A decimal number is what its characters are read as by themselves. -/
def decimal? (start : Nat) : Option (Except LexFault Token × Nat) := do
  let stop ← exponent? text (← fraction? text (← skipAll? text Char.isDigit start))
  return ((Scan.decimal (← cut? text start stop)).1, stop)

/-- A number. -/
def number? (start : Nat) : Option (Except LexFault Token × Nat) := do
  if (← peek? text start) = some '0' then
    if (← peekNext? text start).any (fun c => c = 'x' ∨ c = 'X') then hexadecimal? text start
    else decimal? text start
  else decimal? text start

/-! ### Strings and characters -/

/-- The two hexadecimal digits of an escape. -/
def hexEscape? (start : Nat) : Option (Except LexFault Char × Nat) := do
  let stop ← skipOne? text Scan.isHex (← skipOne? text Scan.isHex start)
  match ← cut? text start stop with
  | [high, low] => return (.ok (.ofNat (Scan.hexNumber [high, low])), stop)
  | _ => return (.error .shortHexEscape, stop)

/-- An escape, from its backslash on. -/
def escape? (backslash : Nat) : Option (Except LexFault Char × Nat) := do
  let place ← bump? text backslash
  match ← peek? text place with
  | none => return (.error .unterminatedEscape, place)
  | some letter =>
    let behind ← bump? text place
    if letter = 'x' then hexEscape? text behind
    else return ((Scan.escapeLetter? letter).elim (.error (.unknownEscape letter)) .ok, behind)

theorem le_of_bump? {text : String} {place behind : Nat} (h : bump? text place = some behind) :
    place ≤ behind := by
  simp only [bump?, Option.bind_eq_bind, Option.bind_eq_some_iff] at h
  obtain ⟨next, -, h⟩ := h
  cases next <;> cases h
  · exact Nat.le_refl place
  · exact Nat.le_add_right place _

theorem le_of_skipOne? {text : String} {p : Char → Bool} {place behind : Nat}
    (h : skipOne? text p place = some behind) : place ≤ behind := by
  simp only [skipOne?, Option.bind_eq_bind, Option.bind_eq_some_iff] at h
  obtain ⟨next, -, h⟩ := h
  split at h
  · exact le_of_bump? h
  · cases h
    exact Nat.le_refl place

theorem le_of_hexEscape? {text : String} {start stop : Nat} {outcome : Except LexFault Char}
    (h : hexEscape? text start = some (outcome, stop)) : start ≤ stop := by
  simp only [hexEscape?, Option.bind_eq_bind, Option.bind_eq_some_iff] at h
  obtain ⟨middle, hfirst, last, hsecond, digits, -, h⟩ := h
  have hle := Nat.le_trans (le_of_skipOne? hfirst) (le_of_skipOne? hsecond)
  split at h <;> cases h <;> exact hle

/-- An escape has a character at least. -/
theorem lt_of_escape? {text : String} {place behind : Nat} {c : Char} {outcome : Except LexFault Char}
    (hpeek : peek? text place = some (some c)) (h : escape? text place = some (outcome, behind)) :
    place < behind := by
  have hbump : bump? text place = some (place + c.utf8Size) := by
    rw [bump?, hpeek]
    rfl
  have hlt : place < place + c.utf8Size := Nat.lt_add_of_pos_right c.utf8Size_pos
  simp only [escape?, hbump, Option.bind_eq_bind, Option.bind_some, Option.bind_eq_some_iff] at h
  obtain ⟨next, -, h⟩ := h
  cases next with
  | none =>
    cases h
    exact hlt
  | some letter =>
    obtain ⟨start, hletter, h⟩ := Option.bind_eq_some_iff.mp h
    have hlt' := Nat.lt_of_lt_of_le hlt (le_of_bump? hletter)
    split at h
    · exact Nat.lt_of_lt_of_le hlt' (le_of_hexEscape? h)
    · cases h
      exact hlt'

/-- The rest of a string after the characters `done`, the last one first. -/
def stringRest? (done : List Char) (place : Nat) : Option (Except LexFault Token × Nat) :=
  match _peeked : peek? text place with
  | none => none
  | some none => some (.error .unterminatedString, place)
  | some (some c) =>
    if c = '\n' then some (.error .unterminatedString, place)
    else if c = '"' then some (.ok (.string (.ofList done.reverse)), place + c.utf8Size)
    else if c = '\\' then
      match _escaped : escape? text place with
      | none => none
      | some (.ok c, behind) => stringRest? (c :: done) behind
      | some (.error fault, behind) => some (.error fault, behind)
    else stringRest? (c :: done) (place + c.utf8Size)
termination_by text.utf8ByteSize - place
decreasing_by
  · exact sub_lt_of_peek? _peeked (lt_of_escape? _peeked _escaped)
  · exact sub_lt_of_peek? _peeked (Nat.lt_add_of_pos_right (Char.utf8Size_pos _))

/-- The closing quote of a character. -/
def characterEnd? (c : Char) (place : Nat) : Option (Except LexFault Token × Nat) := do
  if (← peek? text place) = some '\x27' then return (.ok (.int (.ofNat c.toNat)), ← bump? text place)
  else return (.error .unterminatedCharacter, place)

/-- A character after its opening quote. -/
def character? (place : Nat) : Option (Except LexFault Token × Nat) := do
  match ← peek? text place with
  | none => return (.error .emptyCharacter, place)
  | some c =>
    if c = '\\' then
      match ← escape? text place with
      | (.ok c, place) => characterEnd? text c place
      | (.error fault, place) => return (.error fault, place)
    else if c = '\x27' ∨ c = '\n' then return (.error .emptyCharacter, place)
    else characterEnd? text c (← bump? text place)

/-! ### Tokens -/

/-- A name. -/
def name? (start : Nat) : Option (Except LexFault Token × Nat) := do
  let stop ← skipAll? text Scan.continuesName start
  let chars ← cut? text start stop
  return (.ok (if chars = ['n', 'i', 'l'] then .nil else .name (.ofList chars)), stop)

/-- The token that starts with the next character. -/
def token? (place : Nat) : Option (Except LexFault Token × Nat) := do
  match ← peek? text place with
  | none => return (.ok .endOfFile, place)
  | some c =>
    if c.isDigit then number? text place
    else if c = '"' then stringRest? text [] (← bump? text place)
    else if c = '\x27' then character? text (← bump? text place)
    else if Scan.startsName c then name? text place
    else return ((Scan.sign? c).elim (.error (.illegalCharacter c)) .ok, ← bump? text place)

theorem le_of_skipAll? {text : String} {p : Char → Bool} {place behind : Nat}
    (h : skipAll? text p place = some behind) : place ≤ behind := by
  fun_induction skipAll? text p place with
  | case1 => cases h
  | case2 | case4 =>
    cases h
    exact Nat.le_refl _
  | case3 place c _ _ ih =>
    have hlt : place < place + c.utf8Size := Nat.lt_add_of_pos_right c.utf8Size_pos
    exact Nat.le_of_lt (Nat.lt_of_lt_of_le hlt (ih h))

/-- Where the next character is one of these it is passed. -/
theorem lt_of_skipAll? {text : String} {p : Char → Bool} {place behind : Nat} {c : Char}
    (hpeek : peek? text place = some (some c)) (hc : p c = true)
    (h : skipAll? text p place = some behind) : place < behind := by
  unfold skipAll? at h
  split at h
  · cases h
  · next hnone => rw [hpeek] at hnone; cases hnone
  · next d hd =>
    obtain rfl : c = d := Option.some.inj (Option.some.inj (hpeek.symm.trans hd))
    rw [if_pos hc] at h
    exact Nat.lt_of_lt_of_le (Nat.lt_add_of_pos_right c.utf8Size_pos) (le_of_skipAll? h)

/-- Skips blanks, line breaks and comments. -/
def skipGap? (place : Nat) (line : UInt32) (firstBreak : Option UInt32) : Option BytewiseGap :=
  match _peeked : peek? text place with
  | none => none
  | some none => some ⟨place, line, firstBreak⟩
  | some (some c) =>
    if c = ' ' ∨ c = '\t' ∨ c = '\r' then skipGap? (place + c.utf8Size) line firstBreak
    else if c = '\n' then skipGap? (place + c.utf8Size) (line + 1) (firstBreak <|> some line)
    else if _slash : c = '/' then
      match peekNext? text place with
      | none => none
      | some next =>
        if next = some '/' then
          match _skipped : skipAll? text (· ≠ '\n') place with
          | none => none
          | some behind => skipGap? behind line firstBreak
        else some ⟨place, line, firstBreak⟩
    else some ⟨place, line, firstBreak⟩
termination_by text.utf8ByteSize - place
decreasing_by
  · exact sub_lt_of_peek? _peeked (Nat.lt_add_of_pos_right c.utf8Size_pos)
  · exact sub_lt_of_peek? _peeked (Nat.lt_add_of_pos_right c.utf8Size_pos)
  · exact sub_lt_of_peek? _peeked (lt_of_skipAll? _peeked (by rw [_slash]; rfl) _skipped)

/-- Reads a token. -/
def next? (lexer : Bytewise) : Option (Except ParseError Spanned × Bytewise) := do
  let gap ← skipGap? text lexer.place lexer.line none
  match if lexer.last.any (!·.continuesLine) then gap.firstBreak else none with
  | some line => return (.ok ⟨.linefeed, line⟩, ⟨gap.place, gap.line, some .linefeed⟩)
  | none =>
    match ← token? text gap.place with
    | (.ok token, place) => return (.ok ⟨token, gap.line⟩, ⟨place, gap.line, some token⟩)
    | (.error fault, place) =>
      return (.error (.syntaxError gap.line (.lexical fault)), ⟨place, gap.line, lexer.last⟩)

end Bytewise

end Wordcode.Literal
