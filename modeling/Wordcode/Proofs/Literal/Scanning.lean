import Wordcode.Literal.Lexer
import Wordcode.Literal.Print
import Wordcode.Proofs.Literal.Tokens
import Wordcode.Proofs.Number.ReadsBack

/-! # Scanning what is written

Every scalar that is written in front of a bracket, a comma or the end of the text is read as the token
it was written for: names (`token_name`), integers (`token_digits`), floats (`token_magnitude`) and strings
(`token_writtenString`). -/

namespace Wordcode.Literal.Scan

/-! ### Where a token stops -/

/-- The characters that can stand behind a written scalar. -/
def stopChars : List Char := [',', ']', '{', '}']

/-- What can stand behind a written scalar: a bracket, a comma or the end of the text. -/
def Stops (rest : List Char) : Prop := ∀ c ∈ rest.head?, c ∈ stopChars

variable {rest : List Char} {p : Char → Bool}

theorem Stops.forall (h : Stops rest) (hp : stopChars.any p = false) :
    ∀ c ∈ rest.head?, p c = false := fun c hc =>
  Bool.eq_false_iff.mpr (List.any_eq_false.mp hp c (h c hc))

theorem Stops.head_ne {c : Char} (h : Stops rest) (hc : c ∉ stopChars) : ∀ d ∈ rest.head?, d ≠ c := by
  rintro d hd rfl
  exact hc (h d hd)

theorem stops_cons {c : Char} (h : c ∈ stopChars) : Stops (c :: rest) := fun _ hd =>
  Option.some.inj hd ▸ h

theorem takeWhile_append_of_head (hrest : ∀ c ∈ rest.head?, p c = false) (l : List Char) :
    (l ++ rest).takeWhile p = l.takeWhile p := by
  induction l with
  | nil =>
    cases rest with
    | nil => rfl
    | cons c rest =>
      rw [List.nil_append, List.takeWhile_cons_of_neg (by rw [hrest c rfl]; simp), List.takeWhile_nil]
  | cons c l ih => rw [List.cons_append, List.takeWhile_cons, List.takeWhile_cons, ih]

theorem takeWhile_append {l : List Char} (hl : ∀ c ∈ l, p c = true)
    (hrest : ∀ c ∈ rest.head?, p c = false) : (l ++ rest).takeWhile p = l := by
  rw [takeWhile_append_of_head hrest, List.takeWhile_eq_self_iff.mpr hl]

/-! ### Names and signs -/

theorem not_isDigit_of_startsName {c : Char} (h : startsName c = true) : c.isDigit = false := by
  have hdigits : ∀ n < 58, 48 ≤ n → startsName (.ofNat n) = false := by decide
  by_contra hd
  obtain ⟨hge, hle⟩ := Char.isDigit_iff_toNat.mp (Bool.not_eq_false _ ▸ hd)
  have hnot := hdigits c.toNat (Nat.lt_succ_of_le hle) hge
  rw [Char.ofNat_toNat, h] at hnot
  cases hnot

theorem token_name {name : String} (hname : (Token.name name).Readable) (hrest : Stops rest) :
    token (name.toList ++ rest) = (.ok (.name name), rest) := by
  obtain ⟨hnil, ⟨c, cs, hcs, hc⟩, hall⟩ := hname
  have htake : (name.toList ++ rest).takeWhile continuesName = name.toList :=
    takeWhile_append hall (hrest.forall (by decide))
  have hne : name.toList ≠ ['n', 'i', 'l'] := fun h => hnil (String.toList_inj.mp h)
  have hquotes : c ≠ '"' ∧ c ≠ '\x27' := by
    constructor <;> rintro rfl <;> exact absurd hc (by decide)
  have htoken : token (name.toList ++ rest) = Scan.name (name.toList ++ rest) := by
    rw [hcs, List.cons_append]
    unfold token
    dsimp only
    rw [if_neg (by rw [not_isDigit_of_startsName hc]; simp), if_neg hquotes.1, if_neg hquotes.2,
      if_pos hc]
  rw [htoken]
  unfold Scan.name
  rw [htake]
  dsimp only
  rw [if_neg hne, List.drop_left, String.ofList_toList]

theorem token_nil (hrest : Stops rest) : token ('n' :: 'i' :: 'l' :: rest) = (.ok .nil, rest) := by
  have htake : (['n', 'i', 'l'] ++ rest).takeWhile continuesName = ['n', 'i', 'l'] :=
    takeWhile_append (List.all_eq_true.mp (by decide)) (hrest.forall (by decide))
  show Scan.name (['n', 'i', 'l'] ++ rest) = _
  unfold Scan.name
  rw [htake]
  dsimp only
  rw [if_pos rfl, List.drop_left]

theorem token_sign {c : Char} {t : Token} (h : sign? c = some t) :
    token (c :: rest) = (.ok t, rest) := by
  unfold sign? at h
  split at h <;> cases h <;> rfl

/-! ### Integers -/

theorem decimalNumber_eq (digits : List Char) : decimalNumber digits = Nat.ofDigitChars 10 digits 0 := rfl

theorem decimalNumber_toDigits (n : Nat) : decimalNumber (Nat.toDigits 10 n) = n :=
  Nat.ofDigitChars_ten_toDigits

theorem isDigit_of_mem_toDigits {n : Nat} : ∀ c ∈ Nat.toDigits 10 n, c.isDigit = true := fun _ hc =>
  Nat.isDigit_of_mem_toDigits (by decide) (by decide) hc

theorem not_mark_of_isDigit {c : Char} (h : c.isDigit = true) : c ≠ 'x' ∧ c ≠ 'X' := by
  constructor <;> rintro rfl <;> exact absurd h (by decide)

/-- Only behind a zero a letter makes a number hexadecimal. -/
theorem number_eq_decimal {c : Char} {cs : List Char}
    (h : ¬(c = '0' ∧ ∃ d ∈ cs.head?, d = 'x' ∨ d = 'X')) : number (c :: cs) = decimal (c :: cs) := by
  unfold number
  split
  · next he =>
    obtain ⟨rfl, rfl⟩ := List.cons.inj he
    exact absurd ⟨rfl, 'x', rfl, .inl rfl⟩ h
  · next he =>
    obtain ⟨rfl, rfl⟩ := List.cons.inj he
    exact absurd ⟨rfl, 'X', rfl, .inr rfl⟩ h
  · rfl

/-- What starts with digits and does not go on with the mark of a hexadecimal is a decimal. -/
theorem token_eq_decimal {whole tail : List Char} (hne : whole ≠ [])
    (hwhole : ∀ c ∈ whole, c.isDigit = true) (htail : ∀ c ∈ tail.head?, c ≠ 'x' ∧ c ≠ 'X') :
    token (whole ++ tail) = decimal (whole ++ tail) := by
  obtain ⟨c, cs, rfl⟩ := List.exists_cons_of_ne_nil hne
  have hsecond : ∀ d ∈ (cs ++ tail).head?, d ≠ 'x' ∧ d ≠ 'X' := by
    intro d hd
    cases cs with
    | nil => exact htail d hd
    | cons c' cs =>
      obtain rfl : c' = d := Option.some.inj hd
      exact not_mark_of_isDigit (hwhole c' (by simp))
  have hnumber : number (c :: (cs ++ tail)) = decimal (c :: (cs ++ tail)) := by
    refine number_eq_decimal fun ⟨_, d, hd, hmark⟩ => ?_
    obtain ⟨hx, hX⟩ := hsecond d hd
    exact hmark.elim hx hX
  rw [List.cons_append, ← hnumber]
  unfold token
  dsimp only
  rw [if_pos (hwhole c List.mem_cons_self)]

theorem Stops.not_mark (h : Stops rest) : ∀ c ∈ rest.head?, c ≠ 'x' ∧ c ≠ 'X' := fun c hc =>
  ⟨h.head_ne (by decide) c hc, h.head_ne (by decide) c hc⟩

theorem fraction_of_head {cs : List Char} (h : ∀ c ∈ cs.head?, c ≠ '.') : fraction cs = (none, cs) := by
  unfold fraction
  split
  · exact absurd rfl (h '.' rfl)
  · rfl

theorem exponent_of_head {cs : List Char} (hsmall : ∀ c ∈ cs.head?, c ≠ 'e')
    (hgreat : ∀ c ∈ cs.head?, c ≠ 'E') : exponent cs = (none, cs) := by
  unfold exponent
  split
  · rw [if_neg (not_or.mpr ⟨hsmall _ rfl, hgreat _ rfl⟩)]
  · rfl

theorem fraction_of_stops (hrest : Stops rest) : fraction rest = (none, rest) :=
  fraction_of_head (hrest.head_ne (by decide))

theorem exponent_of_stops (hrest : Stops rest) : exponent rest = (none, rest) :=
  exponent_of_head (hrest.head_ne (by decide)) (hrest.head_ne (by decide))

theorem token_digits (n : Nat) (hrest : Stops rest) : token (Nat.toDigits 10 n ++ rest) =
    (if n ≤ Int64.maxValue.toInt then .ok (.int (.ofNat n))
      else .error (.integerOutOfRange (.ofList (Nat.toDigits 10 n))), rest) := by
  have htake : (Nat.toDigits 10 n ++ rest).takeWhile Char.isDigit = Nat.toDigits 10 n :=
    takeWhile_append isDigit_of_mem_toDigits (hrest.forall (by decide))
  rw [token_eq_decimal Nat.toDigits_ne_nil isDigit_of_mem_toDigits hrest.not_mark]
  unfold decimal
  simp only [htake, List.drop_left, fraction_of_stops hrest, exponent_of_stops hrest,
    decimalNumber_toDigits, Option.isNone_none, Bool.and_self, if_true]
  split_ifs <;> rfl

/-! ### Floats -/

/-- The text of the digits behind a point. -/
def fractionText : Option (List Char) → List Char
  | none => []
  | some places => '.' :: places

/-- The text of an exponent. -/
def exponentText : Option Int → List Char
  | none => []
  | some power => 'e' :: (toString power).toList

theorem toList_toString (n : Int) : (toString n).toList =
    if n < 0 then '-' :: Nat.toDigits 10 n.natAbs else Nat.toDigits 10 n.natAbs := by
  cases n with
  | ofNat m =>
    rw [if_neg (by simp)]
    exact Nat.toList_repr
  | negSucc m =>
    rw [if_pos (by omega)]
    show ("-" ++ (m + 1).repr).toList = _
    rw [String.toList_append, Nat.toList_repr]
    rfl

theorem exponent_text {power? : Option Int} (hrest : Stops rest) :
    exponent (exponentText power? ++ rest) = (power?, rest) := by
  cases power? with
  | none => exact exponent_of_stops hrest
  | some power =>
    have htake : (Nat.toDigits 10 power.natAbs ++ rest).takeWhile Char.isDigit =
        Nat.toDigits 10 power.natAbs :=
      takeWhile_append isDigit_of_mem_toDigits (hrest.forall (by decide))
    have hsign : exponentSign ((toString power).toList ++ rest) =
        (decide (power < 0), Nat.toDigits 10 power.natAbs ++ rest) := by
      rw [toList_toString]
      split_ifs with hneg
      · rw [decide_eq_true hneg]; rfl
      · rw [decide_eq_false hneg]
        have hall := isDigit_of_mem_toDigits (n := power.natAbs)
        have hne : Nat.toDigits 10 power.natAbs ≠ [] := Nat.toDigits_ne_nil
        obtain ⟨c, cs, hd⟩ := List.exists_cons_of_ne_nil hne
        rw [hd] at hall ⊢
        have hc := hall c List.mem_cons_self
        unfold exponentSign
        split
        · next he => rw [(List.cons.inj he).1] at hc; exact absurd hc (by decide)
        · next he => rw [(List.cons.inj he).1] at hc; exact absurd hc (by decide)
        · rfl
    have hvalue : (if power < 0 then -(power.natAbs : Int) else power.natAbs) = power := by
      split_ifs <;> omega
    show exponent ('e' :: ((toString power).toList ++ rest)) = _
    unfold exponent
    dsimp only
    rw [if_pos (.inl rfl), hsign]
    dsimp only
    rw [htake, if_neg (by simp [Nat.toDigits_ne_nil]), decimalNumber_toDigits, List.drop_left]
    simp only [decide_eq_true_eq, hvalue]

theorem exponentText_head (power? : Option Int) (hrest : Stops rest) {p : Char → Bool}
    (he : p 'e' = false) (hp : stopChars.any p = false) :
    ∀ c ∈ (exponentText power? ++ rest).head?, p c = false := by
  cases power? with
  | none => exact hrest.forall hp
  | some power =>
    intro c hc
    obtain rfl : 'e' = c := Option.some.inj hc
    exact he

theorem fraction_text {places? : Option (List Char)} {power? : Option Int}
    (hplaces : ∀ c ∈ places?.getD [], c.isDigit = true) (hrest : Stops rest) :
    fraction (fractionText places? ++ (exponentText power? ++ rest)) =
      (places?, exponentText power? ++ rest) := by
  cases places? with
  | none =>
    have hpoint := exponentText_head power? hrest (p := (· == '.')) (by decide) (by decide)
    show fraction (exponentText power? ++ rest) = _
    unfold fraction
    split
    · next he => rw [he] at hpoint; exact absurd (hpoint '.' rfl) (by decide)
    · rfl
  | some places =>
    have hread : ∀ cs, fraction ('.' :: cs) =
        (some (cs.takeWhile Char.isDigit), cs.drop (cs.takeWhile Char.isDigit).length) := fun _ => rfl
    rw [Option.getD_some] at hplaces
    have hhead := exponentText_head power? hrest (p := Char.isDigit) (by decide) (by decide)
    rw [fractionText, List.cons_append, hread, takeWhile_append hplaces hhead, List.drop_left]

theorem fractionText_head (places? : Option (List Char)) (power? : Option Int) (hrest : Stops rest)
    {p : Char → Bool} (hpoint : p '.' = false) (he : p 'e' = false) (hp : stopChars.any p = false) :
    ∀ c ∈ (fractionText places? ++ (exponentText power? ++ rest)).head?, p c = false := by
  cases places? with
  | none => exact exponentText_head power? hrest he hp
  | some places =>
    intro c hc
    obtain rfl : '.' = c := Option.some.inj hc
    exact hpoint

theorem token_text {whole : List Char} {places? : Option (List Char)} {power? : Option Int}
    (hne : whole ≠ []) (hwhole : ∀ c ∈ whole, c.isDigit = true)
    (hplaces : ∀ c ∈ places?.getD [], c.isDigit = true)
    (hsome : (places?.isNone && power?.isNone) = false) (hrest : Stops rest) :
    token (whole ++ (fractionText places? ++ (exponentText power? ++ rest))) =
      (.ok (.float (.ofDecimal (decimalNumber (whole ++ places?.getD []))
        (power?.getD 0 - (places?.getD []).length))), rest) := by
  have hmark : ∀ c ∈ (fractionText places? ++ (exponentText power? ++ rest)).head?,
      c ≠ 'x' ∧ c ≠ 'X' := by
    intro c hc
    have hother := fractionText_head places? power? hrest (p := fun c => c == 'x' || c == 'X')
      (by decide) (by decide) (by decide) c hc
    simpa using hother
  have hdigit := fractionText_head places? power? hrest (p := Char.isDigit) (by decide) (by decide)
    (by decide)
  rw [token_eq_decimal hne hwhole hmark]
  unfold decimal
  dsimp only
  rw [takeWhile_append hwhole hdigit, List.drop_left, fraction_text hplaces hrest]
  dsimp only
  rw [exponent_text hrest, if_neg (by rw [hsome]; exact Bool.false_ne_true)]

/-- The text is made of digits, places and an exponent, and is read as the double of the rank. -/
def FloatText (text : List Char) (rank : Nat) : Prop :=
  ∃ (whole : List Char) (places? : Option (List Char)) (power? : Option Int),
    text = whole ++ (fractionText places? ++ exponentText power?) ∧ whole ≠ [] ∧
    (∀ c ∈ whole, c.isDigit = true) ∧ (∀ c ∈ places?.getD [], c.isDigit = true) ∧
    (places?.isNone && power?.isNone) = false ∧
    Double.rankOfDecimal (decimalNumber (whole ++ places?.getD []))
      (power?.getD 0 - (places?.getD []).length) = rank

theorem FloatText.token {text : List Char} {rank : Nat} (h : FloatText text rank)
    (hrest : Stops rest) : token (text ++ rest) = (.ok (.float (.ofRank false rank)), rest) := by
  obtain ⟨whole, places?, power?, rfl, hne, hwhole, hplaces, hsome, rfl⟩ := h
  rw [List.append_assoc, List.append_assoc, token_text hne hwhole hplaces hsome hrest]
  rfl

theorem isDigit_of_mem_zeros {k : Nat} : ∀ c ∈ List.replicate k '0', c.isDigit = true := by
  intro c hc
  rw [(List.mem_replicate.mp hc).2]
  rfl

theorem isDigit_of_mem_append {l l' : List Char} (h : ∀ c ∈ l, c.isDigit = true)
    (h' : ∀ c ∈ l', c.isDigit = true) : ∀ c ∈ l ++ l', c.isDigit = true := fun c hc =>
  (List.mem_append.mp hc).elim (h c) (h' c)

theorem floatText_point {whole places : List Char} {rank : Nat} (hne : whole ≠ [])
    (hwhole : ∀ c ∈ whole, c.isDigit = true) (hplaces : ∀ c ∈ places, c.isDigit = true)
    (hrank : Double.rankOfDecimal (decimalNumber (whole ++ places)) (-places.length) = rank) :
    FloatText (whole ++ '.' :: places) rank := by
  refine ⟨whole, some places, none, ?_, hne, hwhole, hplaces, rfl, ?_⟩
  · rw [fractionText, exponentText, List.append_nil]
  · rw [Option.getD_some, Option.getD_none, Int.zero_sub]
    exact hrank

/-- The digits of a number with the point among them, in front of them or behind them. -/
theorem floatText_positional (d : Decimal) {point : Int} (hpoint : point ≤ 400)
    (he : d.exponent = point - (Nat.toDigits 10 d.digits).length) :
    FloatText (Layout.positional (Nat.toDigits 10 d.digits) point)
      (Double.rankOfDecimal d.digits d.exponent) := by
  have hnumber := decimalNumber_toDigits d.digits
  have hdigits := isDigit_of_mem_toDigits (n := d.digits)
  have hne : Nat.toDigits 10 d.digits ≠ [] := Nat.toDigits_ne_nil
  generalize Nat.toDigits 10 d.digits = digits at *
  unfold Layout.positional
  split_ifs with hfront hamong
  · have hzeros : decimalNumber (['0'] ++ (List.replicate (-point).toNat '0' ++ digits)) = d.digits := by
      rw [← hnumber, decimalNumber_eq, decimalNumber_eq, Nat.ofDigitChars_append,
        Nat.ofDigitChars_append, Nat.ofDigitChars_replicate_zero]
      rfl
    refine floatText_point (List.cons_ne_nil '0' []) (by simp)
      (isDigit_of_mem_append isDigit_of_mem_zeros hdigits) ?_
    rw [hzeros, List.length_append, List.length_replicate]
    congr 1
    omega
  · have hfirst : digits.take point.toNat ≠ [] := by
      rw [Ne, List.take_eq_nil_iff]
      exact fun h => h.elim (by omega) hne
    refine floatText_point hfirst (fun c hc => hdigits c (List.mem_of_mem_take hc))
      (fun c hc => hdigits c (List.mem_of_mem_drop hc)) ?_
    rw [List.take_append_drop, hnumber, List.length_drop]
    congr 1
    omega
  · have hlen : d.exponent = ((point.toNat - digits.length : Nat) : Int) := by omega
    have hzeros : decimalNumber (digits ++ List.replicate (point.toNat - digits.length) '0' ++ ['0']) =
        d.digits * 10 ^ (point.toNat - digits.length + 1) := by
      rw [List.append_assoc, ← List.replicate_succ', decimalNumber_eq, Nat.ofDigitChars_append,
        Nat.ofDigitChars_replicate_zero, ← decimalNumber_eq, hnumber, Nat.mul_comm]
    refine floatText_point (List.append_ne_nil_of_left_ne_nil hne _)
      (isDigit_of_mem_append hdigits isDigit_of_mem_zeros) (by simp) ?_
    rw [hzeros, hlen]
    exact Double.rankOfDecimal_zeros (by omega)

theorem floatText_scientific (d : Decimal) {power : Int}
    (he : d.exponent = power + 1 - (Nat.toDigits 10 d.digits).length) :
    FloatText (Layout.scientific (Nat.toDigits 10 d.digits) power)
      (Double.rankOfDecimal d.digits d.exponent) := by
  have hnumber := decimalNumber_toDigits d.digits
  have hdigits := isDigit_of_mem_toDigits (n := d.digits)
  have hne : Nat.toDigits 10 d.digits ≠ [] := Nat.toDigits_ne_nil
  generalize Nat.toDigits 10 d.digits = digits at *
  have hpos := List.length_pos_iff.mpr hne
  have hfirst : digits.take 1 ≠ [] := by
    rw [Ne, List.take_eq_nil_iff]
    exact fun h => h.elim (by omega) hne
  have hplaces : (if digits.length ≤ 1 then none else some (digits.drop 1)).getD [] = digits.drop 1 := by
    split_ifs with hone
    · exact (List.drop_eq_nil_of_le hone).symm
    · rfl
  refine ⟨digits.take 1, if digits.length ≤ 1 then none else some (digits.drop 1), some power, ?_,
    hfirst, fun c hc => hdigits c (List.mem_of_mem_take hc), ?_, Bool.and_false _, ?_⟩
  · unfold Layout.scientific
    rw [List.append_assoc]
    split_ifs <;> rfl
  · rw [hplaces]
    exact fun c hc => hdigits c (List.mem_of_mem_drop hc)
  · rw [hplaces, List.take_append_drop, hnumber, List.length_drop, Option.getD_some]
    congr 1
    omega

theorem floatText_decimal (d : Decimal) :
    FloatText (floatLayout.decimal d) (Double.rankOfDecimal d.digits d.exponent) := by
  unfold Layout.decimal
  dsimp only
  split_ifs with h
  · have hmost : floatLayout.mostPower = 15 := rfl
    exact floatText_positional d (by omega) (by omega)
  · exact floatText_scientific d (by omega)

/-- **The text of a finite double is read as that double.** -/
theorem token_magnitude {rank : Fin (infinityRank + 1)} (hfinite : rank.val ≠ infinityRank)
    (hrest : Stops rest) : token (floatLayout.magnitude rank.val ++ rest) =
      (.ok (.float (.signed false rank)), rest) := by
  have htext : FloatText (floatLayout.magnitude rank.val) rank.val := by
    unfold Layout.magnitude
    split_ifs with hzero
    · exact floatText_point (List.cons_ne_nil '0' []) (by simp) (by simp) hzero.symm
    · have htext := floatText_decimal (Double.shortest rank.val)
      rwa [Double.rankOfDecimal_shortest (Nat.pos_of_ne_zero hzero)] at htext
  rw [htext.token hrest, Double.ofRank]
  congr 4
  exact Fin.ext (Nat.min_eq_left (Nat.le_of_lt_succ rank.isLt))

/-! ### Strings -/

variable {done : List Char} {c : Char}

theorem stringRest_quote :
    stringRest done ('"' :: rest) = (.ok (.string (.ofList done.reverse)), rest) := by
  rw [stringRest, if_neg (by decide), if_pos rfl]

theorem stringRest_escape {cs : List Char} (h : escape cs = (.ok c, rest)) :
    stringRest done ('\\' :: cs) = stringRest (c :: done) rest := by
  rw [stringRest, if_neg (by decide), if_neg (by decide), if_pos rfl, h]

theorem stringRest_plain (h : c ≠ '\n' ∧ c ≠ '"' ∧ c ≠ '\\') :
    stringRest done (c :: rest) = stringRest (c :: done) rest := by
  rw [stringRest, if_neg h.1, if_neg h.2.1, if_neg h.2.2]

theorem hexValue?_upperHexDigit : ∀ n < 16, hexValue? (upperHexDigit n) = some n := by decide

theorem hexEscape_cons {a b : Char} {high low : Nat} (rest : List Char)
    (ha : hexValue? a = some high) (hb : hexValue? b = some low) :
    hexEscape (a :: b :: rest) = (.ok (.ofNat (16 * high + low)), rest) := by
  simp only [hexEscape, ha, hb]

theorem stringRest_writtenChar (c : Char) :
    stringRest done (writtenChar c ++ rest) = stringRest (c :: done) rest := by
  unfold writtenChar
  split
  · exact stringRest_escape rfl
  · exact stringRest_escape rfl
  · exact stringRest_escape rfl
  · exact stringRest_escape rfl
  · exact stringRest_escape rfl
  · exact stringRest_escape rfl
  · next h₁ h₂ h₃ h₄ h₅ h₆ =>
    split_ifs with hcontrol
    · have hlt : c.toNat < 256 := by omega
      have hread := hexEscape_cons rest (hexValue?_upperHexDigit (c.toNat / 16) (by omega))
        (hexValue?_upperHexDigit (c.toNat % 16) (by omega))
      rw [Nat.div_add_mod, Char.ofNat_toNat] at hread
      exact stringRest_escape hread
    · exact stringRest_plain ⟨h₁, h₄, h₅⟩

theorem stringRest_flatMap : ∀ (cs done : List Char),
    stringRest done (cs.flatMap writtenChar ++ '"' :: rest) =
      (.ok (.string (.ofList (done.reverse ++ cs))), rest)
  | [], done => by rw [List.append_nil]; exact stringRest_quote
  | c :: cs, done => by
    rw [List.flatMap_cons, List.append_assoc, stringRest_writtenChar, stringRest_flatMap cs (c :: done),
      List.reverse_cons, List.append_assoc, List.singleton_append]

/-- **A string that is written is read as itself**, whatever stands behind it. -/
theorem token_writtenString (text : String) :
    token (writtenString text ++ rest) = (.ok (.string text), rest) := by
  show stringRest [] (text.toList.flatMap writtenChar ++ ['"'] ++ rest) = _
  rw [List.append_assoc, List.singleton_append, stringRest_flatMap, List.reverse_nil, List.nil_append,
    String.ofList_toList]

end Wordcode.Literal.Scan
