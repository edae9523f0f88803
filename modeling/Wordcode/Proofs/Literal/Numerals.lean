import Mathlib.Data.Nat.Digits.Defs
import Wordcode.Proofs.Literal.Lookahead

/-! # Numbers in literals

What a number is read as is said by rules on its text (`NumberReading`): an integer from its digits, in
either base, within its range, and a float from the longest text that has the form of one. The rules cover every
text that starts with a digit (`exists_numberReading`) and the lexer follows them (`NumberReading.token`). A
letter that starts no exponent is left where it stands (`token_bareLetter`). So numbers are read exactly
(`Lexer.next_number`). -/

namespace Wordcode.Literal

/-! ### The rules -/

/-- The digits of hexadecimal numbers. -/
def hexDigits : List Char := "0123456789abcdefABCDEF".toList

/-- The value of a digit is its place among the digits, small or great. -/
def digitValue (c : Char) : Nat := "0123456789abcdef".toList.idxOf c.toLower

/-- The number that digits stand for in a base, the last one counting once. -/
def numeral (base : Nat) (digits : List Char) : Nat := Nat.ofDigits base (digits.reverse.map digitValue)

/-- The signed number with the sixty-four bits of a number. -/
def signedOf (n : Nat) : Int := if n < 2 ^ 63 then n else n - 2 ^ 64

/-- The characters are decimal digits, one at least. -/
def IsDigits (cs : List Char) : Prop := cs ≠ [] ∧ ∀ c ∈ cs, c.isDigit = true

/-- An exponent and its value: the letter, perhaps a sign, and digits. -/
inductive IsExponent : List Char → Int → Prop
  | unsigned {letter : Char} {digits : List Char} (starts : letter ∈ ['e', 'E']) (counts : IsDigits digits) :
    IsExponent (letter :: digits) (numeral 10 digits)
  | plus {letter : Char} {digits : List Char} (starts : letter ∈ ['e', 'E']) (counts : IsDigits digits) :
    IsExponent (letter :: '+' :: digits) (numeral 10 digits)
  | minus {letter : Char} {digits : List Char} (starts : letter ∈ ['e', 'E']) (counts : IsDigits digits) :
    IsExponent (letter :: '-' :: digits) (-(numeral 10 digits))

/-- The characters go on with an exponent. -/
def StartsExponent (cs : List Char) : Prop := ∃ tail power, IsExponent tail power ∧ tail <+: cs

/-- The text of `mantissa * 10 ^ exponent` without an exponent: digits, perhaps a point, and more digits. -/
inductive IsPositional : List Char → Nat → Int → Prop
  | whole {digits : List Char} (counts : IsDigits digits) : IsPositional digits (numeral 10 digits) 0
  | point {digits places : List Char} (counts : IsDigits digits) (divides : ∀ c ∈ places, c.isDigit = true) :
    IsPositional (digits ++ '.' :: places) (numeral 10 (digits ++ places)) (-places.length)

/-- The text of `mantissa * 10 ^ exponent`, perhaps with an exponent. -/
inductive IsNumber : List Char → Nat → Int → Prop
  | positional {text : List Char} {mantissa : Nat} {exponent : Int} (form : IsPositional text mantissa exponent) :
    IsNumber text mantissa exponent
  | scaled {text tail : List Char} {mantissa : Nat} {exponent power : Int}
    (form : IsPositional text mantissa exponent) (scale : IsExponent tail power) :
    IsNumber (text ++ tail) mantissa (power + exponent)

/-- The text starts like a hexadecimal number. -/
def IsMarked (s : List Char) : Prop := ∃ mark ∈ ['x', 'X'], ['0', mark] <+: s

/-- No number in front of the text is longer. -/
def IsLongest (text s : List Char) : Prop :=
  ∀ other mantissa exponent, IsNumber other mantissa exponent → other <+: s → other.length ≤ text.length

/-- **What a text that starts with a digit is read as**, and what is left of it. -/
inductive NumberReading : List Char → Except LexFault Token → List Char → Prop
  | hexadecimal {mark : Char} {digits rest : List Char} {value : Int64} (marks : mark ∈ ['x', 'X'])
    (nonempty : digits ≠ []) (counts : ∀ c ∈ digits, c ∈ hexDigits)
    (ends : ∀ c ∈ rest.head?, c ∉ hexDigits) (fits : numeral 16 digits < 2 ^ 64)
    (reads : value.toInt = signedOf (numeral 16 digits)) :
    NumberReading ('0' :: mark :: (digits ++ rest)) (.ok (.int value)) rest
  | hexadecimalTooGreat {mark : Char} {digits rest : List Char} (marks : mark ∈ ['x', 'X'])
    (counts : ∀ c ∈ digits, c ∈ hexDigits) (ends : ∀ c ∈ rest.head?, c ∉ hexDigits)
    (exceeds : 2 ^ 64 ≤ numeral 16 digits) :
    NumberReading ('0' :: mark :: (digits ++ rest))
      (.error (.integerOutOfRange (.ofList ('0' :: mark :: digits)))) rest
  | hexadecimalWithoutDigits {mark : Char} {rest : List Char} (marks : mark ∈ ['x', 'X'])
    (ends : ∀ c ∈ rest.head?, c ∉ hexDigits) :
    NumberReading ('0' :: mark :: rest) (.error .hexWithoutDigits) rest
  | integer {digits rest : List Char} {value : Int64} (unmarked : ¬IsMarked (digits ++ rest))
    (counts : IsDigits digits) (ends : ∀ c ∈ rest.head?, c.isDigit = false)
    (pointless : rest.head? ≠ some '.') (unscaled : ¬StartsExponent rest)
    (fits : numeral 10 digits ≤ 2 ^ 63 - 1) (reads : value.toInt = numeral 10 digits) :
    NumberReading (digits ++ rest) (.ok (.int value)) rest
  | integerTooGreat {digits rest : List Char} (unmarked : ¬IsMarked (digits ++ rest))
    (counts : IsDigits digits) (ends : ∀ c ∈ rest.head?, c.isDigit = false)
    (pointless : rest.head? ≠ some '.') (unscaled : ¬StartsExponent rest)
    (exceeds : 2 ^ 63 - 1 < numeral 10 digits) :
    NumberReading (digits ++ rest) (.error (.integerOutOfRange (.ofList digits))) rest
  | float {digits tail text rest : List Char} {mantissa : Nat} {exponent : Int}
    (unmarked : ¬IsMarked (digits ++ tail)) (counts : IsDigits digits)
    (ends : ∀ c ∈ tail.head?, c.isDigit = false) (goesOn : tail.head? = some '.' ∨ StartsExponent tail)
    (splits : digits ++ tail = text ++ rest) (form : IsNumber text mantissa exponent)
    (longest : IsLongest text (digits ++ tail)) :
    NumberReading (digits ++ tail) (.ok (.float (.ofDecimal mantissa exponent))) rest

/-! ### Values of digits -/

theorem hexValue?_of_mem {c : Char} (h : c ∈ hexDigits) : Scan.hexValue? c = some (digitValue c) := by
  have hall : hexDigits.all (fun c => Scan.hexValue? c = some (digitValue c)) = true := by decide
  exact of_decide_eq_true (List.all_eq_true.mp hall c h)

theorem mem_hexDigits_of_isHex {c : Char} (h : Scan.isHex c = true) : c ∈ hexDigits := by
  have hsmall : ∀ n < 103, Scan.isHex (.ofNat n) = true → Char.ofNat n ∈ hexDigits := by decide +kernel
  have hlt : c.toNat < 103 := by
    unfold Scan.isHex Scan.hexValue? at h
    split_ifs at h with hd hsmall hgreat
    · have hle : c.toNat ≤ 57 := (Char.isDigit_iff_toNat.mp hd).2
      omega
    · exact Nat.lt_succ_of_le (UInt32.le_iff_toNat_le.mp hsmall.2)
    · exact Nat.lt_of_le_of_lt (UInt32.le_iff_toNat_le.mp hgreat.2) (by decide)
    · cases h
  have hmem := hsmall c.toNat hlt
  rw [Char.ofNat_toNat] at hmem
  exact hmem h

theorem isHex_iff (c : Char) : Scan.isHex c = true ↔ c ∈ hexDigits :=
  ⟨mem_hexDigits_of_isHex, fun h => by rw [Scan.isHex, hexValue?_of_mem h]; rfl⟩

theorem digitValue_of_isDigit {c : Char} (h : c.isDigit = true) : c.toNat - 48 = digitValue c := by
  have hsmall : ∀ n < 58, 48 ≤ n → n - 48 = digitValue (.ofNat n) := by decide
  obtain ⟨hge, hle⟩ := Char.isDigit_iff_toNat.mp h
  have hvalue := hsmall c.toNat (Nat.lt_succ_of_le hle) hge
  rwa [Char.ofNat_toNat] at hvalue

theorem numeral_concat (base : Nat) (digits : List Char) (c : Char) :
    numeral base (digits ++ [c]) = base * numeral base digits + digitValue c := by
  rw [numeral, List.reverse_append, List.reverse_singleton, List.singleton_append, List.map_cons,
    Nat.ofDigits_cons, numeral, Nat.add_comm]

theorem foldl_eq_numeral {base : Nat} {value : Char → Nat} {digits : List Char}
    (h : ∀ c ∈ digits, value c = digitValue c) :
    digits.foldl (fun n c => base * n + value c) 0 = numeral base digits := by
  induction digits using List.reverseRecOn with
  | nil => rfl
  | append_singleton digits c ih =>
    obtain ⟨hfront, hlast⟩ := List.forall_mem_append.mp h
    rw [List.foldl_append, ih hfront, numeral_concat, ← hlast c List.mem_cons_self]
    rfl

theorem hexNumber_eq {digits : List Char} (h : ∀ c ∈ digits, c ∈ hexDigits) :
    Scan.hexNumber digits = numeral 16 digits :=
  foldl_eq_numeral fun c hc => by rw [hexValue?_of_mem (h c hc)]; rfl

theorem decimalNumber_eq_numeral {digits : List Char} (h : ∀ c ∈ digits, c.isDigit = true) :
    Scan.decimalNumber digits = numeral 10 digits :=
  foldl_eq_numeral fun c hc => digitValue_of_isDigit (h c hc)

theorem toInt_ofNat_eq_signedOf {n : Nat} (h : n < 2 ^ 64) : (Int64.ofNat n).toInt = signedOf n := by
  rw [Int64.toInt_ofNat', signedOf, Int.bmod_def]
  split_ifs <;> simp only [Int64.size] at * <;> omega

theorem toInt_ofNat_of_le {n : Nat} (h : n ≤ 2 ^ 63 - 1) : (Int64.ofNat n).toInt = n := by
  rw [toInt_ofNat_eq_signedOf (by omega), signedOf, if_pos (by omega)]

/-! ### The longest number -/

section Longest

variable {text tail rest s : List Char} {mantissa : Nat} {exponent power : Int} {c : Char}

theorem IsDigits.concat (h : IsDigits text) (hc : c.isDigit = true) : IsDigits (text ++ [c]) :=
  ⟨by simp, List.forall_mem_append.mpr ⟨h.2, List.forall_mem_singleton.mpr hc⟩⟩

theorem IsExponent.concat (h : IsExponent tail power) (hc : c.isDigit = true) :
    ∃ power, IsExponent (tail ++ [c]) power := by
  cases h with
  | unsigned starts counts => exact ⟨_, .unsigned starts (counts.concat hc)⟩
  | plus starts counts => exact ⟨_, .plus starts (counts.concat hc)⟩
  | minus starts counts => exact ⟨_, .minus starts (counts.concat hc)⟩

theorem IsPositional.concat (h : IsPositional text mantissa exponent) (hc : c.isDigit = true) :
    ∃ mantissa exponent, IsPositional (text ++ [c]) mantissa exponent := by
  cases h with
  | whole counts => exact ⟨_, _, .whole (counts.concat hc)⟩
  | @point digits places counts divides =>
    have hplaces : ∀ d ∈ places ++ [c], d.isDigit = true :=
      List.forall_mem_append.mpr ⟨divides, List.forall_mem_singleton.mpr hc⟩
    rw [List.append_assoc, List.cons_append]
    exact ⟨_, _, .point counts hplaces⟩

theorem IsNumber.concat (h : IsNumber text mantissa exponent) (hc : c.isDigit = true) :
    ∃ mantissa exponent, IsNumber (text ++ [c]) mantissa exponent := by
  cases h with
  | positional form =>
    obtain ⟨_, _, hform⟩ := form.concat hc
    exact ⟨_, _, .positional hform⟩
  | scaled form scale =>
    obtain ⟨_, hscale⟩ := scale.concat hc
    rw [List.append_assoc]
    exact ⟨_, _, .scaled form hscale⟩

/-- An exponent starts with a letter, so the digits in front of it end there. -/
theorem IsExponent.head (h : IsExponent tail power) (rest : List Char) :
    ∀ c ∈ (tail ++ rest).head?, c.isDigit = false ∧ c ≠ '.' := by
  have hletter {c : Char} (hc : c ∈ ['e', 'E']) : c.isDigit = false ∧ c ≠ '.' := by
    rcases List.mem_pair.mp hc with rfl | rfl <;> decide
  cases h <;> rintro c ⟨⟩ <;> exact hletter ‹_›

theorem IsLongest.eq_nil {more : List Char} (h : IsLongest text (text ++ rest))
    (hmore : IsNumber (text ++ more) mantissa exponent) (hpre : more <+: rest) : more = [] := by
  have hle := h _ _ _ hmore ((List.prefix_append_right_inj text).mpr hpre)
  rw [List.length_append] at hle
  exact List.length_eq_zero_iff.mp (by omega)

theorem IsLongest.not_isDigit (h : IsLongest text (text ++ rest))
    (hnumber : IsNumber text mantissa exponent) : ∀ c ∈ rest.head?, c.isDigit = false := by
  intro c hc
  obtain ⟨rest, rfl⟩ := List.head?_eq_some_iff.mp hc
  refine Bool.eq_false_iff.mpr fun hdigit => ?_
  obtain ⟨_, _, hconcat⟩ := hnumber.concat hdigit
  exact List.cons_ne_nil c [] (h.eq_nil hconcat (List.prefix_append [c] rest))

theorem IsLongest.not_startsExponent (h : IsLongest text (text ++ rest))
    (hform : IsPositional text mantissa exponent) : ¬StartsExponent rest := by
  rintro ⟨tail, power, hscale, hpre⟩
  obtain rfl := h.eq_nil (.scaled hform hscale) hpre
  cases hscale

theorem IsLongest.ne_point (h : IsLongest text (text ++ rest)) (hdigits : IsDigits text) :
    rest.head? ≠ some '.' := by
  intro hpoint
  obtain ⟨rest, rfl⟩ := List.head?_eq_some_iff.mp hpoint
  have hform := IsPositional.point hdigits (List.forall_mem_nil _)
  exact List.cons_ne_nil '.' [] (h.eq_nil (.positional hform) (List.prefix_append ['.'] rest))

theorem exists_isLongest (h : IsNumber text mantissa exponent) (hpre : text <+: s) :
    ∃ text mantissa exponent, IsNumber text mantissa exponent ∧ text <+: s ∧ IsLongest text s := by
  -- as long as there is a longer one, less of the text is left
  induction hn : s.length - text.length using Nat.strong_induction_on generalizing text mantissa exponent with
  | h n ih =>
    by_cases hlongest : IsLongest text s
    · exact ⟨text, _, _, h, hpre, hlongest⟩
    · unfold IsLongest at hlongest
      push Not at hlongest
      obtain ⟨other, _, _, hother, hprefix, hlt⟩ := hlongest
      have hle := hprefix.length_le
      exact ih _ (by omega) hother hprefix rfl

end Longest

/-! ### What the lexer reads -/

namespace Scan

variable {digits rest tail : List Char}

theorem token_eq_number {s : List Char} (h : ∃ c ∈ s.head?, c.isDigit = true) : token s = number s := by
  obtain ⟨c, hc, hdigit⟩ := h
  obtain ⟨cs, rfl⟩ := List.head?_eq_some_iff.mp hc
  unfold token
  dsimp only
  rw [if_pos hdigit]

theorem number_unmarked {s : List Char} (h : ∃ c ∈ s.head?, c.isDigit = true) (hmark : ¬IsMarked s) :
    token s = decimal s := by
  rw [token_eq_number h]
  obtain ⟨c, hc, -⟩ := h
  obtain ⟨cs, rfl⟩ := List.head?_eq_some_iff.mp hc
  refine number_eq_decimal ?_
  rintro ⟨rfl, d, hd, hx⟩
  obtain ⟨cs, rfl⟩ := List.head?_eq_some_iff.mp hd
  exact hmark ⟨d, by simpa using hx, List.prefix_append ['0', d] cs⟩

theorem head_of_isDigits (h : IsDigits digits) (tail : List Char) :
    ∃ c ∈ (digits ++ tail).head?, c.isDigit = true := by
  obtain ⟨c, cs, rfl⟩ := List.exists_cons_of_ne_nil h.1
  exact ⟨c, rfl, h.2 c List.mem_cons_self⟩

theorem token_hexadecimal {mark : Char} (hmark : mark ∈ ['x', 'X'])
    (hdigits : ∀ c ∈ digits, c ∈ hexDigits) (hrest : ∀ c ∈ rest.head?, c ∉ hexDigits) :
    token ('0' :: mark :: (digits ++ rest)) =
      (if digits = [] then .error .hexWithoutDigits
        else if numeral 16 digits < 2 ^ 64 then .ok (.int (.ofNat (numeral 16 digits)))
        else .error (.integerOutOfRange (.ofList ('0' :: mark :: digits))), rest) := by
  have htake : (digits ++ rest).takeWhile isHex = digits :=
    takeWhile_append (fun c hc => (isHex_iff c).mpr (hdigits c hc))
      (fun c hc => Bool.eq_false_iff.mpr fun h => hrest c hc ((isHex_iff c).mp h))
  have hnumber : number ('0' :: mark :: (digits ++ rest)) = hexadecimal ['0', mark] (digits ++ rest) := by
    rcases List.mem_pair.mp hmark with rfl | rfl <;> rfl
  rw [token_eq_number ⟨'0', rfl, rfl⟩, hnumber]
  unfold hexadecimal
  simp only [htake, List.drop_left, hexNumber_eq hdigits, List.isEmpty_iff]
  split_ifs <;> first | rfl | contradiction

/-! ### Parts of decimal numbers -/

theorem exponentSign_digits (h : IsDigits digits) :
    exponentSign (digits ++ rest) = (false, digits ++ rest) := by
  have hne {sign : Char} (hsign : sign.isDigit = false) : ∀ c ∈ (digits ++ rest).head?, c ≠ sign := by
    obtain ⟨d, hd, hdigit⟩ := head_of_isDigits h rest
    rintro c hc rfl
    rw [Option.some.inj (hc.symm.trans hd), hdigit] at hsign
    cases hsign
  exact exponentSign_of_head (hne rfl) (hne rfl)

theorem takeWhile_digits_ne_nil (h : IsDigits digits) : (digits ++ rest).takeWhile Char.isDigit ≠ [] := by
  obtain ⟨c, cs, rfl⟩ := List.exists_cons_of_ne_nil h.1
  rw [List.cons_append, List.takeWhile_cons_of_pos (h.2 c List.mem_cons_self)]
  exact List.cons_ne_nil _ _

/-- An exponent starts where the lexer finds digits behind the letter and its sign. -/
theorem startsExponent_iff {letter : Char} {cs : List Char} : StartsExponent (letter :: cs) ↔
    letter ∈ ['e', 'E'] ∧ (exponentSign cs).2.takeWhile Char.isDigit ≠ [] := by
  constructor
  · rintro ⟨tail, power, hscale, hpre⟩
    cases hscale with
    | unsigned starts counts =>
      obtain ⟨rfl, rest, rfl⟩ := List.cons_prefix_cons.mp hpre
      rw [exponentSign_digits counts]
      exact ⟨starts, takeWhile_digits_ne_nil counts⟩
    | plus starts counts | minus starts counts =>
      obtain ⟨rfl, hsigned⟩ := List.cons_prefix_cons.mp hpre
      obtain ⟨rest, rfl⟩ := hsigned
      exact ⟨starts, takeWhile_digits_ne_nil counts⟩
  · rintro ⟨starts, hne⟩
    have hpre := List.takeWhile_prefix Char.isDigit (l := (exponentSign cs).2)
    have counts : IsDigits ((exponentSign cs).2.takeWhile Char.isDigit) :=
      ⟨hne, fun c hc => List.mem_takeWhile_imp hc⟩
    clear hne
    revert counts hpre
    fun_cases exponentSign cs <;> intro hpre counts
    · exact ⟨_, _, .plus starts counts, by simpa [List.cons_prefix_cons] using hpre⟩
    · exact ⟨_, _, .minus starts counts, by simpa [List.cons_prefix_cons] using hpre⟩
    · exact ⟨_, _, .unsigned starts counts, by simpa [List.cons_prefix_cons] using hpre⟩

theorem exponent_of_isExponent {power : Int} (h : IsExponent tail power)
    (hrest : ∀ c ∈ rest.head?, c.isDigit = false) : exponent (tail ++ rest) = (some power, rest) := by
  have hread {letter : Char} {negative : Bool} {signed digits : List Char} (hletter : letter ∈ ['e', 'E'])
      (hdigits : IsDigits digits) (hsign : exponentSign signed = (negative, digits ++ rest)) :
      exponent (letter :: signed) =
        (some (if negative then -(numeral 10 digits : Int) else numeral 10 digits), rest) := by
    have htake := takeWhile_append hdigits.2 hrest
    unfold exponent
    simp only [if_pos (List.mem_pair.mp hletter), hsign, htake, List.drop_left,
      if_neg (show ¬digits.isEmpty = true by simpa using hdigits.1), decimalNumber_eq_numeral hdigits.2]
  cases h with
  | unsigned starts counts => exact hread starts counts (exponentSign_digits counts)
  | @plus _ digits starts counts =>
    have hsign : exponentSign ('+' :: (digits ++ rest)) = (false, digits ++ rest) := rfl
    exact hread starts counts hsign
  | @minus _ digits starts counts =>
    have hsign : exponentSign ('-' :: (digits ++ rest)) = (true, digits ++ rest) := rfl
    exact hread starts counts hsign

theorem exponent_of_not_startsExponent {cs : List Char} (h : ¬StartsExponent cs) :
    exponent cs = (none, cs) := by
  rcases cs with _ | ⟨letter, cs⟩
  · rfl
  rw [startsExponent_iff, not_and, not_not] at h
  unfold exponent
  dsimp only
  by_cases hletter : letter = 'e' ∨ letter = 'E'
  · rw [if_pos hletter, h (List.mem_pair.mpr hletter)]
    rfl
  · rw [if_neg hletter]

theorem fraction_point {places : List Char} (hplaces : ∀ c ∈ places, c.isDigit = true)
    (hrest : ∀ c ∈ rest.head?, c.isDigit = false) :
    fraction ('.' :: (places ++ rest)) = (some places, rest) := by
  have htake := takeWhile_append hplaces hrest
  simp only [fraction, htake, List.drop_left]

theorem decimal_digits (hdigits : IsDigits digits) (htail : ∀ c ∈ tail.head?, c.isDigit = false)
    {places? : Option (List Char)} {power? : Option Int} {middle : List Char}
    (hfraction : fraction tail = (places?, middle)) (hexponent : exponent middle = (power?, rest)) :
    decimal (digits ++ tail) =
      (if places?.isNone && power?.isNone then
        if numeral 10 digits ≤ 2 ^ 63 - 1 then .ok (.int (.ofNat (numeral 10 digits)))
        else .error (.integerOutOfRange (.ofList digits))
      else .ok (.float (.ofDecimal (decimalNumber (digits ++ places?.getD []))
        (power?.getD 0 - (places?.getD []).length))), rest) := by
  have hmax : Int64.maxValue.toInt = 2 ^ 63 - 1 := rfl
  unfold decimal
  simp only [takeWhile_append hdigits.2 htail, List.drop_left, hfraction, hexponent,
    decimalNumber_eq_numeral hdigits.2, hmax]
  split_ifs <;> first | rfl | omega

theorem decimal_integer (hdigits : IsDigits digits) (htail : ∀ c ∈ tail.head?, c.isDigit = false)
    (hpoint : tail.head? ≠ some '.') (hscale : ¬StartsExponent tail) : decimal (digits ++ tail) =
      (if numeral 10 digits ≤ 2 ^ 63 - 1 then .ok (.int (.ofNat (numeral 10 digits)))
        else .error (.integerOutOfRange (.ofList digits)), tail) := by
  have hfraction : fraction tail = (none, tail) := fraction_of_head fun c hc he => hpoint (he ▸ hc)
  rw [decimal_digits hdigits htail hfraction (exponent_of_not_startsExponent hscale)]
  rfl

theorem decimal_number {text : List Char} {mantissa : Nat} {exponent : Int}
    (h : IsNumber text mantissa exponent) (hlongest : IsLongest text (text ++ rest))
    (hfloat : ¬IsDigits text) :
    decimal (text ++ rest) = (.ok (.float (.ofDecimal mantissa exponent)), rest) := by
  have hends := hlongest.not_isDigit h
  cases h with
  | positional form =>
    have hexponent := exponent_of_not_startsExponent (hlongest.not_startsExponent form)
    cases form with
    | whole counts => exact absurd counts hfloat
    | @point digits places counts divides =>
      rw [List.append_assoc, List.cons_append,
        decimal_digits counts (by simp) (fraction_point divides hends) hexponent]
      simp [decimalNumber_eq_numeral (List.forall_mem_append.mpr ⟨counts.2, divides⟩)]
  | @scaled front tail _ _ power form scale =>
    have hexponent := exponent_of_isExponent scale hends
    have hletter (c) (hc : c ∈ (tail ++ rest).head?) : c.isDigit = false := (scale.head rest c hc).1
    have hpoint (c) (hc : c ∈ (tail ++ rest).head?) : c ≠ '.' := (scale.head rest c hc).2
    cases form with
    | whole counts =>
      rw [List.append_assoc, decimal_digits counts hletter (fraction_of_head hpoint) hexponent]
      simp [decimalNumber_eq_numeral counts.2]
    | @point digits places counts divides =>
      rw [List.append_assoc, List.append_assoc, List.cons_append,
        decimal_digits counts (by simp) (fraction_point divides hletter) hexponent]
      simp [decimalNumber_eq_numeral (List.forall_mem_append.mpr ⟨counts.2, divides⟩), Int.sub_eq_add_neg]

end Scan

/-! ### The rules and the lexer -/

variable {s rest : List Char} {outcome : Except LexFault Token}

/-- What goes on behind its digits is not only digits: a longer number would stand there. -/
theorem not_isDigits_of_goesOn {digits tail text : List Char} {mantissa : Nat} {exponent : Int}
    (counts : IsDigits digits) (ends : ∀ c ∈ tail.head?, c.isDigit = false)
    (goesOn : tail.head? = some '.' ∨ StartsExponent tail) (splits : digits ++ tail = text ++ rest)
    (form : IsNumber text mantissa exponent) (longest : IsLongest text (digits ++ tail)) : ¬IsDigits text := by
  intro htext
  rw [splits] at longest
  have htake : digits = text := by
    rw [← Scan.takeWhile_append counts.2 ends, splits,
      Scan.takeWhile_append htext.2 (longest.not_isDigit form)]
  subst htake
  obtain rfl := List.append_cancel_left splits
  exact goesOn.elim (longest.ne_point counts) (longest.not_startsExponent (.whole counts))

theorem NumberReading.token (h : NumberReading s outcome rest) : Scan.token s = (outcome, rest) := by
  cases h with
  | @hexadecimal _ digits _ value marks nonempty counts ends fits reads =>
    have hvalue : Int64.ofNat (numeral 16 digits) = value :=
      Int64.toInt_inj.mp ((toInt_ofNat_eq_signedOf fits).trans reads.symm)
    rw [Scan.token_hexadecimal marks counts ends, if_neg nonempty, if_pos fits, hvalue]
  | @hexadecimalTooGreat _ digits _ marks counts ends exceeds =>
    have nonempty : digits ≠ [] := by
      rintro rfl
      exact absurd exceeds (by decide)
    rw [Scan.token_hexadecimal marks counts ends, if_neg nonempty, if_neg (Nat.not_lt.mpr exceeds)]
  | hexadecimalWithoutDigits marks ends =>
    have hnone : ∀ c ∈ ([] : List Char), c ∈ hexDigits := List.forall_mem_nil _
    exact Scan.token_hexadecimal marks hnone ends
  | @integer digits _ value unmarked counts ends pointless unscaled fits reads =>
    have hvalue : Int64.ofNat (numeral 10 digits) = value :=
      Int64.toInt_inj.mp ((toInt_ofNat_of_le fits).trans reads.symm)
    rw [Scan.number_unmarked (Scan.head_of_isDigits counts rest) unmarked,
      Scan.decimal_integer counts ends pointless unscaled, if_pos fits, hvalue]
  | @integerTooGreat digits _ unmarked counts ends pointless unscaled exceeds =>
    rw [Scan.number_unmarked (Scan.head_of_isDigits counts rest) unmarked,
      Scan.decimal_integer counts ends pointless unscaled, if_neg (Nat.not_le.mpr exceeds)]
  | @float digits tail text _ mantissa exponent unmarked counts ends goesOn splits form longest =>
    have hfloat := not_isDigits_of_goesOn counts ends goesOn splits form longest
    rw [splits] at longest
    rw [Scan.number_unmarked (Scan.head_of_isDigits counts tail) unmarked, splits]
    exact Scan.decimal_number form longest hfloat

theorem exists_front (p : Char → Bool) (s : List Char) :
    ∃ front rest, s = front ++ rest ∧ (∀ c ∈ front, p c = true) ∧ ∀ c ∈ rest.head?, p c = false := by
  refine ⟨s.takeWhile p, s.dropWhile p, List.takeWhile_append_dropWhile.symm,
    fun c hc => List.mem_takeWhile_imp hc, fun c hc => ?_⟩
  have hnot := List.head?_dropWhile_not p s
  rwa [Option.mem_def.mp hc] at hnot

/-- The rules cover every text that starts with a digit. -/
theorem exists_numberReading (h : ∃ c ∈ s.head?, c.isDigit = true) :
    ∃ outcome rest, NumberReading s outcome rest := by
  by_cases hmark : IsMarked s
  · obtain ⟨mark, marks, s, rfl⟩ := hmark
    obtain ⟨digits, rest, rfl, hhex, hnot⟩ := exists_front Scan.isHex s
    rw [List.cons_append, List.singleton_append]
    have hdigits : ∀ c ∈ digits, c ∈ hexDigits := fun c hc => (isHex_iff c).mp (hhex c hc)
    have hends : ∀ c ∈ rest.head?, c ∉ hexDigits :=
      fun c hc hmem => Bool.false_ne_true ((hnot c hc).symm.trans ((isHex_iff c).mpr hmem))
    rcases eq_or_ne digits [] with rfl | hnil
    · exact ⟨_, _, .hexadecimalWithoutDigits marks hends⟩
    rcases Nat.lt_or_ge (numeral 16 digits) (2 ^ 64) with hfits | hexceeds
    · exact ⟨_, _, .hexadecimal marks hnil hdigits hends hfits (toInt_ofNat_eq_signedOf hfits)⟩
    · exact ⟨_, _, .hexadecimalTooGreat marks hdigits hends hexceeds⟩
  · obtain ⟨digits, tail, rfl, hdigits, hends⟩ := exists_front Char.isDigit s
    have hcounts : IsDigits digits := by
      refine ⟨?_, hdigits⟩
      rintro rfl
      obtain ⟨c, hc, hdigit⟩ := h
      exact Bool.false_ne_true ((hends c hc).symm.trans hdigit)
    by_cases hgoes : tail.head? = some '.' ∨ StartsExponent tail
    · obtain ⟨text, _, _, hform, ⟨rest, hsplits⟩, hlongest⟩ :=
        exists_isLongest (.positional (.whole hcounts)) (List.prefix_append digits tail)
      exact ⟨_, _, .float hmark hcounts hends hgoes hsplits.symm hform hlongest⟩
    obtain ⟨hpoint, hscale⟩ := not_or.mp hgoes
    rcases Nat.lt_or_ge (2 ^ 63 - 1) (numeral 10 digits) with hexceeds | hfits
    · exact ⟨_, _, .integerTooGreat hmark hcounts hends hpoint hscale hexceeds⟩
    · exact ⟨_, _, .integer hmark hcounts hends hpoint hscale hfits (toInt_ofNat_of_le hfits)⟩

theorem token_bareLetter {front tail : List Char} {letter : Char} {mantissa : Nat} {exponent : Int}
    (hform : IsPositional front mantissa exponent) (hletter : letter ∈ ['e', 'E'])
    (hbare : ¬StartsExponent (letter :: tail)) :
    ∃ outcome, Scan.token (front ++ letter :: tail) = (outcome, letter :: tail) := by
  have hends : ∀ c ∈ (letter :: tail).head?, c.isDigit = false := by
    rintro c ⟨⟩
    rcases List.mem_pair.mp hletter with rfl | rfl <;> rfl
  have hexponent := Scan.exponent_of_not_startsExponent hbare
  cases hform with
  | whole counts =>
    have hpoint : (letter :: tail).head? ≠ some '.' := by
      rintro ⟨⟩
      exact absurd hletter (by decide)
    have hmark : ∀ c ∈ (letter :: tail).head?, c ≠ 'x' ∧ c ≠ 'X' := by
      rintro c ⟨⟩
      rcases List.mem_pair.mp hletter with rfl | rfl <;> decide
    rw [Scan.token_eq_decimal counts.1 counts.2 hmark, Scan.decimal_integer counts hends hpoint hbare]
    exact ⟨_, rfl⟩
  | @point digits places counts divides =>
    rw [List.append_assoc, List.cons_append, Scan.token_eq_decimal counts.1 counts.2 (by simp),
      Scan.decimal_digits counts (by simp) (Scan.fraction_point divides hends) hexponent]
    exact ⟨_, rfl⟩

/-- What a call reads as a token or as a fault of the line, and the lexer behind it. -/
def Lexer.answer (line : UInt32) (last : Option Token) (rest : List Char) :
    Except LexFault Token → Except ParseError Spanned × Lexer
  | .ok token => (.ok ⟨token, line⟩, ⟨rest, line, some token⟩)
  | .error fault => (.error (.syntaxError line (.lexical fault)), ⟨rest, line, last⟩)

/-- **Numbers are read exactly.** Where a lexer comes to a digit, behind what it skips, the rules say what is read
and what is left, and the call gives it: there is such a reading, and the call agrees with each. A letter that
starts no exponent is left, and so is what follows it. -/
theorem Lexer.next_number {skipped s : List Char} {line : UInt32} {last : Option Token}
    (hskipped : Skipped skipped s) (hquiet : ¬('\n' ∈ skipped ∧ Breaks last))
    (hdigit : ∃ c ∈ s.head?, c.isDigit = true) :
    (∃ outcome rest, NumberReading s outcome rest) ∧
    (∀ outcome rest, NumberReading s outcome rest →
      next ⟨skipped ++ s, line, last⟩ = answer (line + .ofNat (skipped.count '\n')) last rest outcome) ∧
    ∀ front letter tail mantissa exponent, s = front ++ letter :: tail →
      IsPositional front mantissa exponent → letter ∈ ['e', 'E'] → ¬StartsExponent (letter :: tail) →
      (next ⟨skipped ++ s, line, last⟩).2.rest = letter :: tail := by
  have hread {outcome : Except LexFault Token} {rest : List Char} (h : Scan.token s = (outcome, rest)) :
      next ⟨skipped ++ s, line, last⟩ = answer (line + .ofNat (skipped.count '\n')) last rest outcome := by
    cases outcome with
    | ok token => exact next_read hskipped hquiet h
    | error fault => exact next_fault hskipped hquiet h
  refine ⟨exists_numberReading hdigit, fun _ _ h => hread h.token, ?_⟩
  rintro front letter tail _ _ rfl hform hletter hbare
  obtain ⟨outcome, hscan⟩ := token_bareLetter hform hletter hbare
  rw [hread hscan]
  cases outcome <;> rfl

/-- Neither the letter behind these digits nor its sign belongs to the number. -/
theorem Lexer.next_number_bareLetter :
    next ⟨" 12e+x".toList, 1, none⟩ = (.ok ⟨.int 12, 1⟩, ⟨"e+x".toList, 1, some (.int 12)⟩) ∧
    (next ⟨" 12e+x".toList, 1, none⟩).2.rest = "e+x".toList := by
  have htoken : Scan.token "12e+x".toList = (.ok (.int 12), "e+x".toList) := rfl
  have hskipped : Skipped [' '] "12e+x".toList := (Spacing.blank (by decide) .nil).skipped htoken
  have hquiet : ¬('\n' ∈ [' '] ∧ Breaks none) := by decide
  have hdigits : IsDigits ['1', '2'] := ⟨List.cons_ne_nil _ _, List.all_eq_true.mp rfl⟩
  have hmark : ¬IsMarked "12e+x".toList := by
    rintro ⟨_, -, h⟩
    exact absurd (List.cons_prefix_cons.mp h).1 (by decide)
  have hbare : ¬StartsExponent "e+x".toList := mt Scan.startsExponent_iff.mp (by decide)
  have hends : ∀ c ∈ "e+x".toList.head?, c.isDigit = false := by
    rintro c ⟨⟩
    rfl
  have hreading : NumberReading "12e+x".toList (.ok (.int 12)) "e+x".toList :=
    .integer hmark hdigits hends (by decide) hbare (by decide) (by decide)
  obtain ⟨-, hread, hleft⟩ := next_number hskipped hquiet ⟨'1', rfl, rfl⟩
  exact ⟨hread _ _ hreading, hleft ['1', '2'] 'e' ['+', 'x'] _ _ rfl (.whole hdigits) (by decide) hbare⟩

end Wordcode.Literal
