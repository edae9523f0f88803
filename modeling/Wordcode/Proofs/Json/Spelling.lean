import Mathlib.Data.List.Chain
import Mathlib.Tactic.SplitIfs
import Wordcode.Json.Lexeme

/-! # Spelled tokens

The spelling of a token is read as this token (`token?_spelling`), and the spellings of tokens in sequence
are read as the sequence (`tokensOf?_spelling`). A number ends where no digit, point or exponent follows,
so behind one a comma or a closing bracket has to stand, or nothing (`Apart`). -/

namespace Wordcode.Json

/-! ### Strings -/

theorem hexValue?_hexDigit : ∀ n < 16, hexValue? (hexDigit n) = some n := by decide

/-- The piece that the written form of a byte is read as. -/
def writtenPiece (b : UInt8) : Piece :=
  if escapeLetter? b = none ∧ b < 32 then .unit b.toNat else .byte b

theorem escapedByte?_of_escapeLetter? {b letter : UInt8} (h : escapeLetter? b = some letter) :
    escapedByte? letter = some b ∧ letter ≠ 117 := by
  unfold escapeLetter? at h
  split_ifs at h <;> cases h <;> subst b <;> decide

theorem pieces?_writtenByte (b : UInt8) (rest : Bytes) :
    pieces? (writtenByte b ++ rest) = (pieces? rest).map fun p => (writtenPiece b :: p.1, p.2) := by
  unfold writtenByte writtenPiece
  cases hl : escapeLetter? b with
  | some letter =>
    obtain ⟨hb, hne⟩ := escapedByte?_of_escapeLetter? hl
    dsimp only [List.cons_append, List.nil_append]
    rw [pieces?.eq_4 _ _ (fun a b c d rest' h _ => hne h), hb]
    cases pieces? rest <;> rfl
  | none =>
    dsimp only
    split_ifs with hcontrol hcontrol'
    · have hhigh := hexValue?_hexDigit (b.toNat / 16) (by have := b.toNat_lt; omega)
      have hlow := hexValue?_hexDigit (b.toNat % 16) (by omega)
      have hvalue : 0 * 4096 + 0 * 256 + b.toNat / 16 * 16 + b.toNat % 16 = b.toNat := by omega
      dsimp only [List.cons_append, List.nil_append]
      rw [pieces?.eq_3, hhigh, hlow, show hexValue? 48 = some 0 from rfl]
      dsimp only [Option.bind_eq_bind, Option.bind_some]
      rw [hvalue]
      cases pieces? rest <;> rfl
    · exact absurd ⟨rfl, hcontrol⟩ hcontrol'
    · exact absurd ‹_ ∧ _›.2 hcontrol
    · have hquote : b ≠ 34 := by rintro rfl; cases hl
      have hslash : b ≠ 92 := by rintro rfl; cases hl
      rw [List.singleton_append, pieces?.eq_5 _ _ hquote (fun _ _ _ _ _ h _ => hslash h)
        (fun _ _ h _ => hslash h), if_neg (not_or.mpr ⟨hcontrol, hslash⟩)]
      cases pieces? rest <;> rfl

theorem pieces?_written (bytes rest : Bytes) :
    pieces? (bytes.flatMap writtenByte ++ 34 :: rest) = some (bytes.map writtenPiece, rest) := by
  induction bytes with
  | nil => rw [List.flatMap_nil, List.nil_append, pieces?.eq_2]; rfl
  | cons b bytes ih => rw [List.flatMap_cons, List.append_assoc, pieces?_writtenByte, ih]; rfl

theorem pieceBytes_unit {n : Nat} (hn : n < 0xD800) (rest : List Piece) :
    pieceBytes (.unit n :: rest) = codeBytes n ++ pieceBytes rest := by
  cases rest with
  | nil => rfl
  | cons piece rest =>
    cases piece with
    | byte b => rfl
    | unit m => rw [pieceBytes.eq_3, if_neg (by omega)]

theorem pieceBytes_writtenPiece (b : UInt8) (rest : List Piece) :
    pieceBytes (writtenPiece b :: rest) = b :: pieceBytes rest := by
  unfold writtenPiece
  split_ifs with h
  · have hlt : b.toNat < 32 := h.2
    rw [pieceBytes_unit (by omega), codeBytes, if_pos (by omega), UInt8.ofNat_toNat]
    rfl
  · rfl

theorem pieceBytes_written (bytes : Bytes) : pieceBytes (bytes.map writtenPiece) = bytes := by
  induction bytes with
  | nil => rfl
  | cons b bytes ih => rw [List.map_cons, pieceBytes_writtenPiece, ih]

/-! ### Numbers -/

/-- What follows does not go on with a number: a comma, the end of an array or object, or nothing. -/
def EndsNumber (rest : Bytes) : Prop := ∀ b ∈ rest.head?, b = 44 ∨ b = 93 ∨ b = 125

theorem EndsNumber.head {rest : Bytes} (h : EndsNumber rest) {p : UInt8 → Bool}
    (hp : p 44 = false ∧ p 93 = false ∧ p 125 = false) : ∀ b ∈ rest.head?, p b = false := by
  intro b hb
  rcases h b hb with rfl | rfl | rfl
  · exact hp.1
  · exact hp.2.1
  · exact hp.2.2

theorem afterFraction?_of_ends {rest : Bytes} (h : EndsNumber rest) :
    afterFraction? rest = some (false, rest) := by
  unfold afterFraction?
  split
  · next rest' => exact absurd (h 46 rfl) (by decide)
  · rfl

theorem afterExponent?_of_ends {rest : Bytes} (h : EndsNumber rest) :
    afterExponent? rest = some (false, rest) := by
  cases rest with
  | nil => rfl
  | cons b rest =>
    have hb : b ≠ 101 ∧ b ≠ 69 := by rcases h b rfl with rfl | rfl | rfl <;> decide
    unfold afterExponent?
    exact if_neg (not_or.mpr hb)

theorem takeWhile_digits {digits rest : Bytes} (hdigits : ∀ b ∈ digits, isDigit b = true)
    (hrest : EndsNumber rest) : (digits ++ rest).takeWhile isDigit = digits := by
  have hstop : rest.takeWhile isDigit = [] := by
    cases rest with
    | nil => rfl
    | cons b rest =>
      rw [List.takeWhile_cons, hrest.head (p := isDigit) (by decide) b rfl]
      rfl
  rw [List.takeWhile_append_of_pos hdigits, hstop, List.append_nil]

theorem digits?_digits {digits rest : Bytes} (hne : digits ≠ [])
    (hdigits : ∀ b ∈ digits, isDigit b = true) (hrest : EndsNumber rest) :
    digits? (digits ++ rest) = some (digits, rest) := by
  unfold digits?
  rw [takeWhile_digits hdigits hrest]
  simp [hne]

/-- The digits of a number, as bytes. -/
def decimalDigits (n : Nat) : Bytes := asciiBytes (Nat.toDigits 10 n)

theorem decimalDigits_ne_nil (n : Nat) : decimalDigits n ≠ [] := by
  simp [decimalDigits, asciiBytes, Nat.toDigits_ne_nil]

theorem toNat_ascii {c : Char} (h : c.isDigit = true) :
    (UInt8.ofNat c.toNat).toNat = c.toNat ∧ 48 ≤ c.toNat ∧ c.toNat ≤ 57 := by
  have hc : 48 ≤ c.toNat ∧ c.toNat ≤ 57 := Char.isDigit_iff_toNat.mp h
  exact ⟨Nat.mod_eq_of_lt (by omega), hc⟩

theorem isDigit_of_mem_decimalDigits {n : Nat} : ∀ b ∈ decimalDigits n, isDigit b = true := by
  intro b hb
  obtain ⟨c, hc, rfl⟩ := List.mem_map.mp hb
  obtain ⟨hn, hlow, hhigh⟩ := toNat_ascii (Nat.isDigit_of_mem_toDigits (by decide) (by decide) hc)
  simp only [isDigit, Bool.and_eq_true, decide_eq_true_eq, UInt8.le_iff_toNat_le, hn]
  exact ⟨hlow, hhigh⟩

theorem digitsValue_decimalDigits (n : Nat) : digitsValue (decimalDigits n) = n := by
  have hfold : ∀ (digits : List Char) (start : Nat), (∀ c ∈ digits, c.isDigit = true) →
      (asciiBytes digits).foldl (fun n b => 10 * n + (b.toNat - 48)) start =
        Nat.ofDigitChars 10 digits start := by
    intro digits
    induction digits with
    | nil => exact fun _ _ => rfl
    | cons c digits ih =>
      intro start hall
      obtain ⟨hc, hall⟩ := List.forall_mem_cons.mp hall
      rw [asciiBytes, List.map_cons, List.foldl_cons, (toNat_ascii hc).1]
      exact ih _ hall
  exact (hfold _ 0 fun c hc => Nat.isDigit_of_mem_toDigits (by decide) (by decide) hc).trans
    Nat.ofDigitChars_ten_toDigits

theorem head_decimalDigits (n : Nat) (hn : n ≠ 0) : (decimalDigits n).head? ≠ some 48 := by
  have hone : ∀ n < 10, n ≠ 0 → (decimalDigits n).head? ≠ some 48 := by decide
  induction n using Nat.strongRecOn with
  | ind n ih =>
    rcases Nat.lt_or_ge n 10 with hlt | hge
    · exact hone n hlt hn
    · have hlast : decimalDigits n = decimalDigits (n / 10) ++ asciiBytes [(n % 10).digitChar] := by
        rw [decimalDigits, Nat.toDigits_of_base_le (by decide) hge]
        exact List.map_append
      rw [hlast, List.head?_append_of_ne_nil _ (decimalDigits_ne_nil _)]
      exact ih (n / 10) (by omega) (by omega)

theorem wholeDigits?_decimalDigits (n : Nat) {rest : Bytes} (hrest : EndsNumber rest) :
    wholeDigits? (decimalDigits n ++ rest) = some (decimalDigits n, rest) := by
  rcases Nat.eq_zero_or_pos n with rfl | hn
  · rfl
  · unfold wholeDigits?
    split
    · next tail he =>
      have hhead := head_decimalDigits n (Nat.pos_iff_ne_zero.mp hn)
      obtain ⟨b, digits, hdigits⟩ := List.exists_cons_of_ne_nil (decimalDigits_ne_nil n)
      rw [hdigits, List.cons_append, List.cons.injEq] at he
      exact absurd (by rw [hdigits, he.1]; rfl) hhead
    · exact digits?_digits (decimalDigits_ne_nil n) isDigit_of_mem_decimalDigits hrest

theorem number?_decimalDigits (negative : Bool) (n : Nat) {rest : Bytes} (hrest : EndsNumber rest) :
    number? negative (decimalDigits n ++ rest) =
      if negative && n == 0 then some (.decimal, rest)
      else some (.integer (if negative then -(n : Int) else n), rest) := by
  unfold number?
  rw [wholeDigits?_decimalDigits n hrest]
  dsimp only [Option.bind_eq_bind, Option.bind_some]
  rw [afterFraction?_of_ends hrest]
  dsimp only [Option.bind_some]
  rw [afterExponent?_of_ends hrest]
  dsimp only [Option.bind_some]
  rw [digitsValue_decimalDigits, Bool.false_or, Bool.false_or]

/-! ### Tokens -/

/-- Whether a token is a number. -/
def Token.isNumber : Token → Bool
  | integer _ | decimal => true
  | _ => false

theorem token?_of_isDigit {b : UInt8} (hb : isDigit b = true) (rest : Bytes) :
    isBlank b = false ∧ token? b rest = number? false (b :: rest) := by
  have hne : ∀ c, isDigit c = false → b ≠ c := fun c hc he => by
    rw [he, hc] at hb
    cases hb
  constructor
  · simp only [isBlank, Bool.or_eq_false_iff, beq_eq_false_iff_ne]
    exact ⟨⟨⟨hne 32 rfl, hne 10 rfl⟩, hne 9 rfl⟩, hne 13 rfl⟩
  · unfold token?
    rw [if_neg (hne 91 rfl), if_neg (hne 93 rfl), if_neg (hne 123 rfl), if_neg (hne 125 rfl),
      if_neg (hne 44 rfl), if_neg (hne 58 rfl), if_neg (hne 34 rfl), if_neg (hne 45 rfl), if_pos hb]

/-- A token is read from its spelling. -/
theorem token?_spelling (t : Token) {rest : Bytes} (hrest : t.isNumber → EndsNumber rest) :
    ∃ b tail, t.spelling = b :: tail ∧ isBlank b = false ∧ token? b (tail ++ rest) = some (t, rest) := by
  cases t with
  | openArray | closeArray | openObject | closeObject | comma | colon | null =>
    exact ⟨_, _, rfl, rfl, rfl⟩
  | bool value => cases value <;> exact ⟨_, _, rfl, rfl, rfl⟩
  | string bytes =>
    refine ⟨_, _, rfl, rfl, ?_⟩
    show (pieces? (bytes.flatMap writtenByte ++ [34] ++ rest)).map _ = _
    rw [List.append_assoc, List.singleton_append, pieces?_written, Option.map_some]
    dsimp only
    rw [pieceBytes_written]
  | decimal => exact ⟨_, _, rfl, rfl, number?_decimalDigits true 0 (hrest rfl)⟩
  | integer value =>
    cases value with
    | ofNat n =>
      obtain ⟨b, digits, hdigits⟩ := List.exists_cons_of_ne_nil (decimalDigits_ne_nil n)
      have hb : isDigit b = true := isDigit_of_mem_decimalDigits (n := n) b (by simp [hdigits])
      obtain ⟨hblank, htoken⟩ := token?_of_isDigit hb (digits ++ rest)
      refine ⟨b, digits, hdigits, hblank, ?_⟩
      rw [htoken, ← List.cons_append, ← hdigits, number?_decimalDigits false n (hrest rfl)]
      rfl
    | negSucc n => exact ⟨_, _, rfl, rfl, number?_decimalDigits true (n + 1) (hrest rfl)⟩

/-- Whether a token can stand behind a number. -/
def Token.endsNumber : Token → Bool
  | comma | closeArray | closeObject => true
  | _ => false

/-- No two tokens run into each other. -/
def Apart (tokens : List Token) : Prop := tokens.IsChain fun a b => a.isNumber → b.endsNumber

theorem Apart.endsNumber {t : Token} {tokens : List Token} (h : Apart (t :: tokens)) (ht : t.isNumber) :
    EndsNumber (tokens.flatMap Token.spelling) := by
  cases tokens with
  | nil => exact fun b hb => by cases hb
  | cons next tokens =>
    have hnext := (List.isChain_cons_cons.mp h).1 ht
    intro b hb
    rw [List.flatMap_cons] at hb
    cases next with
    | comma | closeArray | closeObject =>
      obtain rfl := Option.some.inj hb
      decide
    | _ => cases hnext

/-- **Tokens that stand apart are read from their spellings.** -/
theorem tokensOf?_spelling {tokens : List Token} (h : Apart tokens) :
    tokensOf? (tokens.flatMap Token.spelling) = some tokens := by
  have hwithin : ∀ (tokens : List Token) (bound : Nat), Apart tokens →
      (tokens.flatMap Token.spelling).length ≤ bound →
        tokensWithin bound (tokens.flatMap Token.spelling) = some tokens := by
    intro tokens
    induction tokens with
    | nil => exact fun bound _ _ => by cases bound <;> rfl
    | cons t tokens ih =>
      intro bound h hbound
      obtain ⟨b, tail, hspelling, hblank, htoken⟩ := token?_spelling t h.endsNumber
      rw [List.flatMap_cons, hspelling, List.cons_append] at hbound ⊢
      rw [List.length_cons, List.length_append] at hbound
      cases bound with
      | zero => omega
      | succ bound =>
        rw [tokensWithin, hblank, if_neg (by decide), htoken]
        dsimp only [Option.bind_eq_bind, Option.bind_some]
        rw [ih bound h.tail (by omega)]
        rfl
  exact hwithin tokens _ h (Nat.le_refl _)

end Wordcode.Json
