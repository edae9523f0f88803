import Wordcode.Proofs.Literal.Outcome

/-! # Steps that parse no value

The steps that the parser takes between two values have some things in common, whatever the types and the
values are: they move over tokens at most, and each raises errors of a few causes only (`Parser.Raises`). These
are other causes than those of the errors that `Parser.value` raises, so how deep values lie and which types
there are does not matter to them (`Parser.Plain`). Where the tokens end at a fault, that is a lexical one
(`Lexer.ending_error`). -/

namespace Wordcode.Literal

/-- The cause is neither that values contain each other too deep nor that a type is missing. -/
def SyntaxFault.Ordinary (cause : SyntaxFault) : Prop :=
  cause ≠ .tooDeep ∧ ∀ type, cause ≠ .unknownType type

/-- The error has an ordinary cause. -/
def ParseError.Ordinary : ParseError → Prop
  | .syntaxError _ cause => cause.Ordinary
  | .noDefault _ => True

namespace Parser

variable {α β : Type} {step : Parser α} {p : ParseError → Prop}

/-! ### Steps and their errors -/

/-- The step moves over tokens at most, and it fails as the tokens end or with an error that `p` holds of. -/
def Raises (p : ParseError → Prop) (step : Parser α) : Prop :=
  ∀ src s, Ends step src s (fun _ s' => s'.tokens <:+ s.tokens)
    fun fault s' => s'.tokens <:+ s.tokens ∧ (src.ending = .error fault ∨ p fault)

theorem raises_pure (a : α) : Raises p (pure a : Parser α) := fun _ _ => List.suffix_rfl

theorem Raises.bind {x : Parser β} {f : β → Parser α} (hx : Raises p x) (hf : ∀ b, Raises p (f b)) :
    Raises p (x >>= f) := fun src s =>
  Ends.bind (hx src s) fun b s' hs' =>
    (hf b src s').mono (fun _ _ h => h.trans hs') fun _ _ h => ⟨h.1.trans hs', h.2⟩

theorem raises_read {f : Source → Parser α} (h : ∀ src, Raises p (f src)) :
    Raises p (do let src ← read; f src) := fun src s => ends_read.mpr (h src src s)

theorem Raises.holding (h : Raises p step) (values : List Value) : Raises p (holding values step) :=
  fun src s => ends_holding.mpr (h src s)

theorem Raises.discard (h : Raises p step) : Raises p (discard step) := fun src s => ends_discard.mpr (h src s)

theorem raises_throw {fault : ParseError} (h : p fault) : Raises p (throw fault : Parser α) :=
  fun _ _ => ⟨List.suffix_rfl, .inr h⟩

theorem raises_current : Raises p current := fun src s => by
  rw [ends_current]
  unfold Source.current
  cases s.tokens with
  | cons spanned rest => exact List.suffix_rfl
  | nil =>
    cases h : src.ending with
    | ok line => exact List.suffix_rfl
    | error fault => exact ⟨List.suffix_rfl, .inl rfl⟩

theorem raises_fail {cause : SyntaxFault} (h : ∀ line, p (.syntaxError line cause)) :
    Raises p (fail cause : Parser α) :=
  raises_current.bind fun _ => raises_throw (h _)

theorem raises_advance : Raises p advance := fun src s => by
  have hcurrent : Raises p (discard current) := raises_current.discard
  have htail : s.tokens.tail <:+ s.tokens := List.tail_suffix _
  exact ends_bind.mpr ((hcurrent src { s with tokens := s.tokens.tail }).mono (fun _ s' hs' => hs'.trans htail)
    fun _ _ h => ⟨h.1.trans htail, h.2⟩)

theorem raises_accept (wanted : Token) : Raises p (accept wanted) :=
  raises_current.bind fun found => by
    split_ifs
    · exact raises_advance.bind fun _ => raises_pure _
    · exact raises_pure _

theorem raises_newString (text : String) : Raises p (newString text) := fun _ _ =>
  ends_newString.mpr List.suffix_rfl

theorem raises_newVector (type : TypeIndex) (elements : List Value) : Raises p (newVector type elements) :=
  fun _ _ => ends_newVector.mpr List.suffix_rfl

theorem raises_drop (values : List Value) : Raises p (drop values) := fun _ _ => ends_drop.mpr List.suffix_rfl

theorem raises_expectKind {given required : TypeKind}
    (h : ∀ line, p (.syntaxError line (.kindMismatch required given))) :
    Raises p (expectKind given required) := by
  unfold expectKind
  split_ifs
  · exact raises_pure _
  · exact raises_fail h

theorem raises_scalar {given required : TypeKind} {make : Parser Value}
    (h : ∀ line, p (.syntaxError line (.kindMismatch required given))) (hmake : Raises p make) :
    Raises p (scalar given required make) :=
  (raises_expectKind h).bind fun _ => raises_advance.bind fun _ => hmake

theorem raises_fieldTypes {type : TypeIndex} {name : String}
    (h : ∀ line, p (.syntaxError line (.notStruct name))) : Raises p (fieldTypes type name) :=
  raises_read fun src => by
    split
    · exact raises_pure _
    · exact raises_fail h

section Expect
variable (h : ∀ line wanted found, p (.syntaxError line (.unexpected wanted found)))
include h

theorem raises_expect (wanted : Token) : Raises p (expect wanted) :=
  raises_current.bind fun found => by
    dsimp only
    split_ifs
    · exact raises_advance
    · exact raises_fail fun line => h line wanted found.token

theorem raises_atEnd (close : Token) : Raises p (atEnd close) :=
  (raises_accept _).bind fun separated => raises_current.bind fun found => by
    split_ifs
    · exact raises_pure _
    · exact (raises_expect h _).bind fun _ => raises_pure _
    · exact raises_pure _

theorem raises_end : Raises p (do discard (accept .linefeed); expect .endOfFile) :=
  (raises_accept _).discard.bind fun _ => raises_expect h _

end Expect

/-! ### Ordinary errors -/

/-- The step parses no value: it adds no tokens, and it fails as the tokens end or for an ordinary cause. -/
def Plain (step : Parser α) : Prop :=
  ∀ src s, Ends step src s (fun _ s' => s'.tokens.length ≤ s.tokens.length)
    fun fault _ => src.ending = .error fault ∨ fault.Ordinary

theorem Raises.plain (h : Raises ParseError.Ordinary step) : Plain step := fun src s =>
  (h src s).mono (fun _ _ hs => hs.length_le) fun _ _ hfault => hfault.2

theorem ordinary_unexpected (line : UInt32) (wanted found : Token) :
    ParseError.Ordinary (.syntaxError line (.unexpected wanted found)) := ⟨by simp, by simp⟩

theorem plain_pure (a : α) : Plain (pure a : Parser α) := (raises_pure a).plain

theorem Plain.bind {x : Parser β} {f : β → Parser α} (hx : Plain x) (hf : ∀ b, Plain (f b)) :
    Plain (x >>= f) := fun src s =>
  Ends.bind (hx src s) fun b s' hs' =>
    (hf b src s').mono (fun _ _ h => Nat.le_trans h hs') fun _ _ h => h

theorem plain_read {f : Source → Parser α} (h : ∀ src, Plain (f src)) :
    Plain (do let src ← read; f src) := fun src s => ends_read.mpr (h src src s)

theorem Plain.holding (h : Plain step) (values : List Value) : Plain (holding values step) := fun src s =>
  ends_holding.mpr (h src s)

theorem Plain.discard (h : Plain step) : Plain (discard step) := fun src s => ends_discard.mpr (h src s)

theorem plain_throw {fault : ParseError} (h : fault.Ordinary) : Plain (throw fault : Parser α) :=
  (raises_throw h).plain

theorem plain_current : Plain current := raises_current.plain

theorem plain_fail {cause : SyntaxFault} (h : cause.Ordinary) : Plain (fail cause : Parser α) :=
  (raises_fail fun _ => h).plain

theorem plain_advance : Plain advance := raises_advance.plain

theorem plain_expect (wanted : Token) : Plain (expect wanted) := (raises_expect ordinary_unexpected wanted).plain

theorem plain_accept (wanted : Token) : Plain (accept wanted) := (raises_accept wanted).plain

theorem plain_expectKind (given required : TypeKind) : Plain (expectKind given required) :=
  (raises_expectKind fun _ => ⟨by simp, by simp⟩).plain

theorem plain_atEnd (close : Token) : Plain (atEnd close) := (raises_atEnd ordinary_unexpected close).plain

theorem plain_newString (text : String) : Plain (newString text) := (raises_newString text).plain

theorem plain_newVector (type : TypeIndex) (elements : List Value) : Plain (newVector type elements) :=
  (raises_newVector type elements).plain

theorem plain_drop (values : List Value) : Plain (drop values) := (raises_drop values).plain

theorem plain_defaultOf (type : TypeIndex) : Plain (defaultOf type) :=
  plain_read fun src => by
    split
    · exact plain_pure _
    · exact plain_current.bind fun _ => plain_throw trivial

theorem plain_defaults : ∀ types : List TypeIndex, Plain (types.mapM defaultOf)
  | [] => plain_pure []
  | type :: types => by
    rw [List.mapM_cons]
    exact (plain_defaultOf type).bind fun _ => (plain_defaults types).bind fun _ => plain_pure _

theorem plain_structType (type : TypeIndex) (descriptor : TypeDescriptor) (name : String) :
    Plain (structType type descriptor name) :=
  plain_read fun src => by
    cases descriptor with
    | struct id fields =>
      dsimp only
      split_ifs
      · exact plain_pure _
      · exact plain_fail ⟨by simp, by simp⟩
    | scalar | vector =>
      dsimp only
      split
      · exact plain_pure _
      · exact plain_fail ⟨by simp, by simp⟩

theorem plain_fieldTypes (type : TypeIndex) (name : String) : Plain (fieldTypes type name) :=
  (raises_fieldTypes fun _ => ⟨by simp, by simp⟩).plain

theorem plain_scalar {given required : TypeKind} {make : Parser Value} (hmake : Plain make) :
    Plain (scalar given required make) :=
  (plain_expectKind _ _).bind fun _ => plain_advance.bind fun _ => hmake

theorem plain_end : Plain (do discard (accept .linefeed); expect .endOfFile) :=
  (raises_end ordinary_unexpected).plain

end Parser

/-! ### The end of the tokens -/

theorem Lexer.next_error {lexer : Lexer} {fault : ParseError} (h : lexer.next.1 = .error fault) :
    ∃ line cause, fault = .syntaxError line (.lexical cause) := by
  unfold next at h
  dsimp only at h
  split at h
  · cases h
  · split at h
    · cases h
    · cases h
      exact ⟨_, _, rfl⟩

theorem Lexer.ending_error {fault : ParseError} : ∀ {bound : Nat} {lexer : Lexer},
    (lexer.tokensWithin bound).ending = .error fault →
      ∃ line cause, fault = .syntaxError line (.lexical cause)
  | bound + 1, lexer, h => by
    unfold tokensWithin at h
    split at h
    · next hnext =>
      cases h
      exact next_error (congrArg Prod.fst hnext)
    · cases h
    · exact ending_error h

/-- The tokens of a text end with it or at a lexical fault. -/
theorem Source.ofText_ending {ctx : TypeContext} {heap : HeapId} {text : String} {fault : ParseError}
    (h : (Source.ofText ctx heap text).ending = .error fault) : fault.Ordinary := by
  obtain ⟨line, cause, rfl⟩ := Lexer.ending_error h
  exact ⟨by simp, by simp⟩

end Wordcode.Literal
