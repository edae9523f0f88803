import Wordcode.Proofs.Literal.Language
import Wordcode.Proofs.Literal.Levels
import Wordcode.Proofs.Literal.Printed

/-! # The round trip of literals

The literal of a value that was read from a text is read again at the same type if the value is writable
and the limit admits as many levels as it needs, and under no other condition (`parse_literal`). What is
read is the same value, and it has the same literal. -/

namespace Wordcode.Literal

namespace Value

variable {ctx : TypeContext}

theorem elementChars_cons_cons (a b : Value) (elements : List Value) :
    elementChars ctx (a :: b :: elements) =
      chars ctx a ++ ',' :: ' ' :: elementChars ctx (b :: elements) := rfl

mutual

theorem chars_eq_of_datum_eq : ∀ {a b : Value}, a.datum = b.datum → a.chars ctx = b.chars ctx
  | nil, b, h => by cases b <;> simp [datum] at h; rfl
  | int x, b, h => by cases b <;> simp [datum] at h; rw [h]
  | float x, b, h => by cases b <;> simp [datum] at h; rw [h]
  | string i s, b, h => by cases b <;> simp [datum] at h; rw [chars, chars, h]
  | vector i t as, b, h => by
    cases b <;> simp [datum] at h
    obtain ⟨rfl, h⟩ := h
    rw [chars, chars, elementChars_eq_of_data_eq h]

theorem elementChars_eq_of_data_eq : ∀ {as bs : List Value}, data as = data bs →
    elementChars ctx as = elementChars ctx bs
  | [], bs, h => by cases bs <;> simp [data] at h; rfl
  | [a], bs, h => by
    rcases bs with _ | ⟨b, _ | ⟨b', bs⟩⟩ <;> simp [data] at h
    exact chars_eq_of_datum_eq h
  | a :: a' :: as, bs, h => by
    rcases bs with _ | ⟨b, _ | ⟨b', bs⟩⟩ <;> simp [data] at h
    have hothers : data (a' :: as) = data (b' :: bs) := by rw [data, data, h.2.1, h.2.2]
    rw [elementChars_cons_cons, elementChars_cons_cons, chars_eq_of_datum_eq h.1,
      elementChars_eq_of_data_eq hothers]

end

theorem literal_eq_of_datum_eq {a b : Value} (h : a.datum = b.datum) : a.literal ctx = b.literal ctx := by
  rw [literal, literal, chars_eq_of_datum_eq h]

end Value

variable {ctx : TypeContext} {heap : HeapId} {depth limit : Nat} {type : TypeIndex} {text : String}
  {store : Store} {datum datum' : Datum} {value : Value}

/-! ### Literals that are read -/

theorem IsLiteral.unique (h : IsLiteral ctx depth type text datum)
    (h' : IsLiteral ctx depth type text datum') : datum = datum' := by
  obtain ⟨value, hvalue, rfl⟩ := exists_parse_of_isLiteral ⟨0⟩ .empty h
  obtain ⟨value', hvalue', rfl⟩ := exists_parse_of_isLiteral ⟨0⟩ .empty h'
  rw [hvalue] at hvalue'
  rw [Except.ok.inj hvalue']

theorem Lexer.Yields.readable {lexer : Lexer} {W : List Token} (h : lexer.Yields W) :
    ∀ token ∈ W, token = .linefeed ∨ token.Readable := by
  obtain ⟨stop, line, after, hreads, -⟩ := h
  exact hreads.readable

/-- The tokens of a literal are tokens of a text. -/
theorem IsLiteral.readable (h : IsLiteral ctx depth type text datum) :
    ∃ W, Derives ctx depth type W datum ∧ ∀ token ∈ W, token = .linefeed ∨ token.Readable := by
  obtain ⟨W, derived, hyields⟩ := h
  refine ⟨W, derived, fun token ht => ?_⟩
  rcases hyields with h | h
  · exact h.readable token ht
  · exact h.readable token (List.mem_append_left _ ht)

theorem IsLiteral.formed (hctx : ctx.Indexed) (h : IsLiteral ctx depth type text datum) :
    datum.Formed ctx := by
  obtain ⟨W, derived, hread⟩ := h.readable
  exact derived.formed hctx hread

/-! ### Literals that are printed -/

/-- A text that is printed for a value is a literal only if the value is writable. -/
theorem IsLiteral.writable (hformed : value.datum.Formed ctx)
    (h : IsLiteral ctx limit type (value.literal ctx) datum) :
    value.datum.Writable ∧ value.datum.need ≤ limit := by
  obtain ⟨W, derived, hyields⟩ := h
  obtain ⟨hrange, rfl⟩ : value.datum.InRange ∧ W = value.datum.tokens ctx := by
    rcases hyields with h | h
    · exact (Value.yields_literal_iff hformed).mp h
    -- what is printed does not end with a line break
    · obtain ⟨-, hW⟩ := (Value.yields_literal_iff hformed).mp h
      obtain ⟨init, token, htokens, hne⟩ := value.datum.tokens_eq_append ctx
      rw [htokens] at hW
      exact absurd (List.append_inj_right' hW rfl) (by simpa using hne.symm)
  have hfinite := finite_of_derives derived
  exact ⟨fun part hpart => ⟨hrange part hpart, fun x hx => (hfinite part hpart x hx).2⟩,
    need_le_of_derives derived⟩

theorem isLiteral_literal (hctx : ctx.Indexed) (h : IsLiteral ctx depth type text value.datum)
    (hwritable : value.datum.Writable) (hneed : value.datum.need ≤ limit) :
    IsLiteral ctx limit type (value.literal ctx) value.datum := by
  have hformed := h.formed hctx
  obtain ⟨W, derived, -⟩ := h
  refine ⟨value.datum.tokens ctx, derived.canonical hctx depth (fun part hpart x hx => ?_) hneed, .inl ?_⟩
  · have hread := hformed part hpart
    rw [hx] at hread
    exact ⟨hread, (hwritable part hpart).2 x hx⟩
  · exact (Value.yields_literal_iff hformed).mpr ⟨fun part hpart => (hwritable part hpart).1, rfl⟩

/-- **The round trip.** The literal of a value that was read is read again, at the same type and up to any
limit, if and only if the value is writable and needs no more levels; and then it is read as an equal
value with the same literal. -/
theorem parse_literal (hctx : ctx.Indexed) (h : (parse ctx heap depth type text store).1 = .ok value)
    (heap' : HeapId) (limit : Nat) (store' : Store) :
    ((∃ again, (parse ctx heap' limit type (value.literal ctx) store').1 = .ok again) ↔
      value.datum.Writable ∧ value.datum.need ≤ limit) ∧
    ∀ again, (parse ctx heap' limit type (value.literal ctx) store').1 = .ok again →
      again.datum = value.datum ∧ again.eqv value = true ∧ again.literal ctx = value.literal ctx := by
  have hread := isLiteral_of_parse h
  have hformed := hread.formed hctx
  refine ⟨⟨fun ⟨again, hagain⟩ => (isLiteral_of_parse hagain).writable hformed, fun ⟨hw, hn⟩ => ?_⟩,
    fun again hagain => ?_⟩
  · have hliteral := isLiteral_literal hctx hread hw hn
    obtain ⟨again, hagain, -⟩ := exists_parse_of_isLiteral heap' store' hliteral
    exact ⟨again, hagain⟩
  · have hliteral := isLiteral_of_parse hagain
    obtain ⟨hwritable, hneed⟩ := hliteral.writable hformed
    have hdatum : again.datum = value.datum :=
      hliteral.unique (isLiteral_literal hctx hread hwritable hneed)
    refine ⟨hdatum, Value.eqv_of_datum_eq hdatum ?_, Value.literal_eq_of_datum_eq hdatum⟩
    rw [hdatum]
    rintro part hpart rfl
    exact hformed _ hpart rfl

/-- The built-in types alone. -/
def builtinContext : TypeContext := ⟨.builtins, #[]⟩

/-- A vector that holds a negative integer and a vector. -/
def nested : Value := .vector ⟨1⟩ .vectorAny [.int (-3), .vector ⟨0⟩ .vectorAny [.nil, .int 16]]

/-- The literal of nested vectors is read again in three levels, and not in two. -/
theorem parse_literal_nested :
    builtinContext.Indexed ∧
      (parse builtinContext ⟨0⟩ 9 .any "[-3, [nil, 0x10]]" .empty).1 = .ok nested ∧
      (∃ again, (parse builtinContext ⟨0⟩ 3 .any (nested.literal builtinContext) .empty).1 = .ok again ∧
        again.eqv nested = true) ∧
      ¬∃ again, (parse builtinContext ⟨0⟩ 2 .any (nested.literal builtinContext) .empty).1 = .ok again := by
  have hindexed : builtinContext.Indexed := ⟨by decide, by decide, by decide⟩
  have hread : (parse builtinContext ⟨0⟩ 9 .any "[-3, [nil, 0x10]]" .empty).1 = .ok nested := rfl
  have hwritable : nested.datum.Writable := by
    have hnegative : (-3 : Int64) ≠ Int64.minValue := by decide
    have hpositive : (16 : Int64) ≠ Int64.minValue := by decide
    simp [Datum.Writable, nested, Value.datum, Value.data, Datum.parts, Datum.partsOfAll, hnegative,
      hpositive]
  obtain ⟨hthree, hequal⟩ := parse_literal hindexed hread ⟨0⟩ 3 .empty
  obtain ⟨again, hagain⟩ := hthree.mpr ⟨hwritable, by decide⟩
  refine ⟨hindexed, hread, ⟨again, hagain, (hequal again hagain).2.1⟩, fun htwo => ?_⟩
  exact absurd ((parse_literal hindexed hread ⟨0⟩ 2 .empty).1.mp htwo).2 (by decide)

/-- The least integer can be read from hexadecimal digits, but its literal is out of range. -/
example : (parse builtinContext ⟨0⟩ 9 .any "0x8000000000000000" .empty).1 = .ok (.int Int64.minValue) ∧
    (parse builtinContext ⟨0⟩ 9 .any ((Value.int Int64.minValue).literal builtinContext) .empty).1 =
      .error (.syntaxError 1 (.lexical (.integerOutOfRange "9223372036854775808"))) := ⟨rfl, rfl⟩

end Wordcode.Literal
