import Wordcode.Proofs.Literal.Canonical
import Wordcode.Proofs.Literal.Scanning
import Wordcode.Proofs.Literal.Spacing

/-! # Reading what is printed

The literal of a value is read as the canonical tokens of its contents, unless the least integer is among
them: the digits behind its minus sign are out of range, and there is a fault (`yields_literal_iff`). The
induction is over the value, with whatever stands behind its literal (`readAs_chars`). -/

namespace Wordcode.Literal

/-! ### Single steps -/

namespace Lexer

variable {cs : List Char} {line : UInt32} {last : Option Token}

theorem next_space : next ⟨' ' :: cs, line, last⟩ = next ⟨cs, line, last⟩ := rfl

/-- The lexer comes to a fault. -/
def Faults (lexer : Lexer) : Prop :=
  ∃ W stop fault after, lexer.Reads W stop ∧ stop.next = (.error fault, after)

theorem Reads.faults {lexer stop : Lexer} {W : List Token} (h : lexer.Reads W stop) (hstop : stop.Faults) :
    lexer.Faults := by
  obtain ⟨W', stop', fault, after, hreads, hfault⟩ := hstop
  exact ⟨W ++ W', stop', fault, after, h.append hreads, hfault⟩

theorem Faults.not_yields {lexer : Lexer} (h : lexer.Faults) (W : List Token) : ¬lexer.Yields W := by
  obtain ⟨V, stop, fault, after, hreads, hfault⟩ := h
  rintro ⟨stop', _, after', hreads', hend⟩
  induction hreads generalizing W with
  | done lexer =>
    cases hreads' with
    | done => rw [hfault] at hend; cases hend
    | token read => rw [hfault] at read; cases read
  | token read live _ ih =>
    cases hreads' with
    | done =>
      rw [read] at hend
      cases hend
      exact live rfl
    | token read' live' rest' =>
      rw [read] at read'
      cases read'
      exact ih _ hfault rest'

end Lexer

/-! ### Pieces of text -/

/-- In front of `rest`, the characters are read as the tokens if `clean`, and lead to a fault if not. -/
def ReadAs (rest cs : List Char) (W : List Token) (clean : Prop) : Prop :=
  ∀ line last,
    (clean ∧ ∃ last', Lexer.Reads ⟨cs ++ rest, line, last⟩ W ⟨rest, line, last'⟩) ∨
      (¬clean ∧ Lexer.Faults ⟨cs ++ rest, line, last⟩)

namespace ReadAs

variable {rest cs cs' : List Char} {W W' : List Token} {clean clean' : Prop} {t : Token}

theorem nil : ReadAs rest [] [] True := fun _ last => .inl ⟨trivial, last, .done _⟩

theorem congr (h : ReadAs rest cs W clean) (hiff : clean ↔ clean') : ReadAs rest cs W clean' :=
  propext hiff ▸ h

theorem append (h : ReadAs (cs' ++ rest) cs W clean) (h' : ReadAs rest cs' W' clean') :
    ReadAs rest (cs ++ cs') (W ++ W') (clean ∧ clean') := by
  intro line last
  rw [List.append_assoc]
  obtain ⟨hclean, middle, hreads⟩ | ⟨hclean, hfaults⟩ := h line last
  · obtain ⟨hclean', last', hreads'⟩ | ⟨hclean', hfaults'⟩ := h' line middle
    · exact .inl ⟨⟨hclean, hclean'⟩, last', hreads.append hreads'⟩
    · exact .inr ⟨fun h => hclean' h.2, hreads.faults hfaults'⟩
  · exact .inr ⟨fun h => hclean h.1, hfaults⟩

theorem token (h : Scan.token (cs ++ rest) = (.ok t, rest)) (live : t ≠ .endOfFile) :
    ReadAs rest cs [t] True := fun line _ =>
  .inl ⟨trivial, some t, .token (Lexer.next_of_token h) live (.done ⟨rest, line, some t⟩)⟩

theorem sign {c : Char} (h : Scan.sign? c = some t) : ReadAs rest [c] [t] True := by
  refine token (Scan.token_sign h) ?_
  rintro rfl
  exact Scan.readable_sign h

theorem behind {c : Char} (h : ReadAs rest cs W clean) (hc : Scan.sign? c = some t) :
    ReadAs rest (c :: cs) (t :: W) clean :=
  ((sign hc).append h).congr (by rw [true_and])

theorem fault {fault : LexFault} (h : Scan.token (cs ++ rest) = (.error fault, rest))
    (hfault : ∀ c, fault ≠ .illegalCharacter c) : ReadAs rest cs [t] False := fun _ _ =>
  .inr ⟨id, [], _, _, _, .done _, Lexer.next_of_fault h hfault⟩

theorem space (h : ReadAs rest cs W clean) (hW : W ≠ []) : ReadAs rest (' ' :: cs) W clean := by
  intro line last
  obtain ⟨t, W, rfl⟩ := List.exists_cons_of_ne_nil hW
  refine (h line last).imp (And.imp_right ?_) (And.imp_right ?_)
  · rintro ⟨last', hreads⟩
    cases hreads with
    | token read live rest => exact ⟨last', .token (Lexer.next_space.trans read) live rest⟩
  · rintro ⟨V, stop, fault, after, hreads, hfault⟩
    cases hreads with
    | done => exact ⟨[], _, fault, after, .done _, Lexer.next_space.trans hfault⟩
    | token read live rest =>
      exact ⟨_, stop, fault, after, .token (Lexer.next_space.trans read) live rest, hfault⟩

end ReadAs

/-! ### Numbers -/

section Scalars

variable {rest : List Char}

theorem readAs_digits (n : Nat) (hrest : Scan.Stops rest) :
    ReadAs rest (Nat.toDigits 10 n) [.int (.ofNat n)] (n ≤ Int64.maxValue.toInt) := by
  have h := Scan.token_digits n hrest
  by_cases hle : (n : Int) ≤ Int64.maxValue.toInt
  · rw [if_pos hle] at h
    exact (ReadAs.token h (by simp)).congr (iff_of_true trivial hle)
  · rw [if_neg hle] at h
    exact (ReadAs.fault h (by simp)).congr (iff_of_false id hle)

theorem ofNat_natAbs (value : Int64) : Int64.ofNat value.toInt.natAbs =
    if value < 0 then -value else value := by
  rw [← Int64.ofInt_eq_ofNat]
  split_ifs with hneg <;> rw [Int64.lt_iff_toInt_lt, Int64.toInt_zero] at hneg
  · rw [Int.ofNat_natAbs_of_nonpos (Int.le_of_lt hneg), Int64.ofInt_neg, Int64.ofInt_toInt]
  · rw [Int.natAbs_of_nonneg (Int.not_lt.mp hneg), Int64.ofInt_toInt]

/-- The digits of the least integer alone are out of range. -/
theorem natAbs_le_maxValue_iff {value : Int64} :
    (value.toInt.natAbs : Int) ≤ Int64.maxValue.toInt ↔ value ≠ Int64.minValue := by
  have hge := value.le_toInt
  have hlt := value.toInt_lt
  rw [Ne, ← Int64.toInt_inj, Int64.toInt_maxValue, Int64.toInt_minValue]
  omega

theorem readAs_int (value : Int64) (hrest : Scan.Stops rest) :
    ReadAs rest (toString value.toInt).toList (Datum.tokensOfInt value) (value ≠ Int64.minValue) := by
  have hdigits := readAs_digits value.toInt.natAbs hrest
  rw [ofNat_natAbs, natAbs_le_maxValue_iff] at hdigits
  rw [Scan.toList_toString, Datum.tokensOfInt]
  by_cases hneg : value < 0
  · rw [if_pos hneg] at hdigits ⊢
    rw [if_pos (by simpa using Int64.lt_iff_toInt_lt.mp hneg)]
    exact hdigits.behind rfl
  · rw [if_neg hneg] at hdigits ⊢
    rw [if_neg (by simpa using fun h => hneg (Int64.lt_iff_toInt_lt.mpr h))]
    exact hdigits

theorem readAs_magnitude (rank : Fin (infinityRank + 1)) (hrest : Scan.Stops rest) :
    ReadAs rest (floatLayout.magnitude rank.val)
      [if rank.val = infinityRank then .name "inf" else .float (.signed false rank)] True := by
  split_ifs with hinf
  · have hname : (Token.name "inf").Readable := 
      ⟨by decide, ⟨'i', ['n', 'f'], rfl, by decide⟩, List.all_eq_true.mp (by decide)⟩
    rw [Layout.magnitude, hinf]
    exact ReadAs.token (Scan.token_name hname hrest) (by simp)
  · exact ReadAs.token (Scan.token_magnitude hinf hrest) (by simp)

theorem readAs_float (x : Double) (hrest : Scan.Stops rest) :
    ReadAs rest (floatLayout.double x).toList (Datum.tokensOfFloat x) True := by
  cases x with
  | nan =>
    have hname : (Token.name "NaN").Readable := 
      ⟨by decide, ⟨'N', ['a', 'N'], rfl, by decide⟩, List.all_eq_true.mp (by decide)⟩
    exact ReadAs.token (Scan.token_name hname hrest) (by simp)
  | signed negative rank =>
    have hmagnitude := readAs_magnitude rank hrest
    rw [Layout.double, String.toList_ofList, Datum.tokensOfFloat]
    cases negative with
    | false => exact hmagnitude
    | true => exact hmagnitude.behind rfl

end Scalars

/-! ### Values -/

variable {ctx : TypeContext}

namespace Datum

/-- Whether the digits of all integers in a datum are in range: the least integer has one too many. -/
def InRange (datum : Datum) : Prop := ∀ part ∈ datum.parts, part ≠ .int Int64.minValue

theorem inRange_vector {type : TypeIndex} {elements : List Datum} :
    (vector type elements).InRange ↔ ∀ element ∈ elements, element.InRange :=
  forall_parts_vector.trans (and_iff_right (by simp))

theorem inRange_scalar {datum : Datum} (h : datum.parts = [datum]) :
    datum.InRange ↔ datum ≠ .int Int64.minValue := by
  rw [InRange, h, List.forall_mem_singleton]

/-- Canonical tokens come to an end, and not with a line break. -/
theorem tokens_eq_append (ctx : TypeContext) : ∀ datum : Datum, ∃ init token,
    datum.tokens ctx = init ++ [token] ∧ token ≠ .linefeed
  | nil => ⟨[], _, rfl, by simp⟩
  | int value => by
    rw [tokens, tokensOfInt]
    split_ifs
    · exact ⟨[.minus], _, rfl, by simp⟩
    · exact ⟨[], _, rfl, by simp⟩
  | float .nan => ⟨[], _, rfl, by simp⟩
  | float (.signed negative rank) => by
    refine ⟨_, _, rfl, ?_⟩
    split_ifs <;> simp
  | string _ => ⟨[], _, rfl, by simp⟩
  | vector type elements => by
    refine ⟨_, _, rfl, ?_⟩
    unfold enclosing
    split <;> simp

theorem separated_ne_nil (datum : Datum) (data : List Datum) : separated ctx (datum :: data) ≠ [] := by
  obtain ⟨init, token, h, -⟩ := datum.tokens_eq_append ctx
  cases data <;> simp [separated, h]

end Datum

/-- The characters and the tokens that enclose elements: curly brackets behind a name, or square ones. -/
theorem enclosing_cases (ctx : TypeContext) (type : TypeIndex) :
    (∃ name : String, brackets ctx type = (name.toList ++ ['{'], '}') ∧
      Datum.enclosing ctx type = ([.name name, .leftCurly], .rightCurly)) ∨
    brackets ctx type = (['['], ']') ∧
      Datum.enclosing ctx type = ([.leftBracket], .rightBracket) := by
  unfold brackets Datum.enclosing
  rcases ctx.types.get? type with _ | _ | _ | _
  · exact .inr ⟨rfl, rfl⟩
  · exact .inr ⟨rfl, rfl⟩
  · exact .inr ⟨rfl, rfl⟩
  · exact .inl ⟨_, rfl, rfl⟩

theorem readAs_opening {type : TypeIndex} {rest : List Char}
    (h : ∀ token ∈ (Datum.enclosing ctx type).1, token.Readable) :
    ReadAs rest (brackets ctx type).1 (Datum.enclosing ctx type).1 True := by
  obtain ⟨name, hbrackets, henclosing⟩ | ⟨hbrackets, henclosing⟩ := enclosing_cases ctx type
  · rw [henclosing] at h ⊢
    rw [hbrackets]
    have hcurly : Scan.Stops ('{' :: rest) := Scan.stops_cons (by decide)
    have hname := Scan.token_name (h _ List.mem_cons_self) hcurly
    exact ((ReadAs.token hname (by simp)).append (ReadAs.sign rfl)).congr and_self_iff
  · rw [hbrackets, henclosing]
    exact ReadAs.sign rfl

theorem readAs_closing (ctx : TypeContext) (type : TypeIndex) (rest : List Char) :
    ReadAs rest [(brackets ctx type).2] [(Datum.enclosing ctx type).2] True ∧
      Scan.Stops ((brackets ctx type).2 :: rest) := by
  obtain ⟨name, hbrackets, henclosing⟩ | ⟨hbrackets, henclosing⟩ := enclosing_cases ctx type <;>
    rw [hbrackets, henclosing] <;> exact ⟨ReadAs.sign rfl, Scan.stops_cons (by simp [Scan.stopChars])⟩

namespace Value

mutual

/-- **The literal of a value is read as its canonical tokens** if no integer in it is the least one. -/
theorem readAs_chars : ∀ (value : Value) {rest : List Char}, value.datum.Formed ctx → Scan.Stops rest →
    ReadAs rest (value.chars ctx) (value.datum.tokens ctx) value.datum.InRange
  | nil, rest, _, hrest => by
    refine (ReadAs.token (Scan.token_nil hrest) (by simp)).congr ?_
    rw [datum, Datum.inRange_scalar rfl]
    simp
  | int value, rest, _, hrest => by
    refine (readAs_int value hrest).congr ?_
    rw [datum, Datum.inRange_scalar rfl]
    simp
  | float x, rest, _, hrest => by
    refine (readAs_float x hrest).congr ?_
    rw [datum, Datum.inRange_scalar rfl]
    simp
  | string _ text, rest, _, _ => by
    refine (ReadAs.token (Scan.token_writtenString text) (by simp)).congr ?_
    rw [datum, Datum.inRange_scalar rfl]
    simp
  | vector _ type elements, rest, hformed, _ => by
    rw [datum] at hformed
    obtain ⟨hopening, helements⟩ := Datum.formed_vector.mp hformed
    obtain ⟨hclose, hstops⟩ := readAs_closing ctx type rest
    have hread := readAs_elementChars elements helements hstops
    rw [datum, Datum.inRange_vector, chars, Datum.tokens]
    exact (((readAs_opening hopening).append hread).append hclose).congr (by rw [true_and, and_true])

theorem readAs_elementChars : ∀ (elements : List Value) {rest : List Char},
    (∀ element ∈ data elements, element.Formed ctx) → Scan.Stops rest →
      ReadAs rest (elementChars ctx elements) (Datum.separated ctx (data elements))
        (∀ element ∈ data elements, element.InRange)
  | [], rest, _, _ => ReadAs.nil.congr (by simp [data])
  | [element], rest, hformed, hrest => by
    rw [data, data, List.forall_mem_singleton] at hformed ⊢
    exact readAs_chars element hformed hrest
  | element :: element' :: elements, rest, hformed, hrest => by
    rw [data, List.forall_mem_cons] at hformed ⊢
    -- the first element stands in front of a comma, the others in front of `rest`
    have hcomma : Scan.Stops (',' :: ' ' :: elementChars ctx (element' :: elements) ++ rest) :=
      Scan.stops_cons (by decide)
    have hfirst := readAs_chars element hformed.1 hcomma
    have hothers := readAs_elementChars (element' :: elements) hformed.2 hrest
    exact hfirst.append ((hothers.space (Datum.separated_ne_nil _ _)).behind rfl)

end

/-- **The tokens of a literal** are the canonical tokens of its value, and it has no others; the literal of
a value with the least integer in it has none. -/
theorem yields_literal_iff {value : Value} (h : value.datum.Formed ctx) {W : List Token} :
    (Lexer.ofText (value.literal ctx)).Yields W ↔
      value.datum.InRange ∧ W = value.datum.tokens ctx := by
  have hread : ReadAs [] (value.chars ctx) _ _ := readAs_chars value h (by simp [Scan.Stops])
  have htext : Lexer.ofText (value.literal ctx) = ⟨value.chars ctx ++ [], 1, none⟩ := by
    rw [Lexer.ofText, literal, String.toList_ofList, List.append_nil]
  -- the text has one reading, so a second sequence of tokens is the first one
  obtain ⟨hrange, last, hreads⟩ | ⟨hrange, hfaults⟩ := hread 1 none <;> rw [← htext] at *
  · have hyields : (Lexer.ofText (value.literal ctx)).Yields (value.datum.tokens ctx) :=
      ⟨_, 1, _, hreads, Lexer.next_of_token rfl⟩
    refine ⟨fun h => ⟨hrange, ?_⟩, fun h => h.2 ▸ hyields⟩
    exact (Lexed.ofText_iff.mp h).1.symm.trans (Lexed.ofText_iff.mp hyields).1
  · exact ⟨fun h => absurd h (hfaults.not_yields W), fun h => absurd h.1 hrange⟩

end Value

end Wordcode.Literal
