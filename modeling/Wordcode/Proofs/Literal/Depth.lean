import Wordcode.Proofs.Literal.Plain
import Wordcode.Proofs.Literal.Sound

/-! # The depth of a value

The depth bounds how many values contain each other. Two runs of the parser with different depths are
compared step by step: they do the same, up to where the one with the smaller depth fails for it
(`Parser.Deepens`). That does not happen as long as there are fewer tokens than levels, since every level
takes up a token (`Parser.deepens_advance`). So a greater depth is harmless, and for every text there is one
that is enough (`parse_depth_harmless`). -/

namespace Wordcode.Literal

/-- The error is that values contain each other too deep. -/
def ParseError.IsTooDeep (fault : ParseError) : Prop := ∃ line, fault = .syntaxError line .tooDeep

theorem ParseError.Ordinary.not_isTooDeep {fault : ParseError} (h : fault.Ordinary) : ¬ fault.IsTooDeep := by
  rintro ⟨line, rfl⟩
  exact h.1 rfl

/-- The tokens do not end for the depth of a value. -/
def Source.Shallow (src : Source) : Prop := ∀ fault, src.ending = .error fault → ¬ fault.IsTooDeep

theorem Source.Shallow.current {src : Source} (h : src.Shallow) {tokens : List Spanned} {fault : ParseError}
    (hc : src.current tokens = .error fault) : ¬ fault.IsTooDeep := h fault (Source.ending_of_current_error hc)

namespace Parser

variable {α β : Type} {src : Source} {s : Parsing} {n : Nat}

/-! ### Two runs -/

/-- From here the second step ends as the first one does, which adds no tokens, unless the first one fails
for its depth. It does so only with `n` tokens ahead. -/
def Deepens (n : Nat) (src : Source) (s : Parsing) (p q : Parser α) : Prop :=
  Ends p src s (fun a s' => q src s = .ok a s' ∧ s'.tokens.length ≤ s.tokens.length)
    fun fault s' => (fault.IsTooDeep → n ≤ s.tokens.length) ∧
      (¬ fault.IsTooDeep → q src s = .error fault s')

theorem Deepens.refl {step : Parser α} (h : Ends step src s (fun _ s' => s'.tokens.length ≤ s.tokens.length)
    fun fault _ => ¬ fault.IsTooDeep) : Deepens n src s step step := by
  unfold Deepens
  unfold Ends at h ⊢
  cases hrun : step src s with
  | ok a s' => rw [hrun] at h; exact ⟨rfl, h⟩
  | error fault s' => rw [hrun] at h; exact ⟨fun hdeep => absurd hdeep h, fun _ => rfl⟩

theorem Deepens.bind {x y : Parser β} {f g : β → Parser α} (hx : Deepens n src s x y)
    (hf : ∀ b s', s'.tokens.length ≤ s.tokens.length → Deepens n src s' (f b) (g b)) :
    Deepens n src s (x >>= f) (y >>= g) := by
  refine ends_bind.mpr (hx.mono ?_ fun fault s' h => ⟨h.1, fun hdeep => bind_apply_error (h.2 hdeep) g⟩)
  rintro b s' ⟨hy, hle⟩
  refine (hf b s' hle).mono ?_ ?_
  · rintro a s'' ⟨hg, hle'⟩
    exact ⟨(bind_apply_ok hy g).trans hg, Nat.le_trans hle' hle⟩
  · rintro fault s'' ⟨hdeep, hg⟩
    exact ⟨fun h => Nat.le_trans (hdeep h) hle, fun h => (bind_apply_ok hy g).trans (hg h)⟩

theorem Deepens.holding {p q : Parser α} (h : Deepens n src s p q) (values : List Value) :
    Deepens n src s (holding values p) (holding values q) := by
  refine ends_holding.mpr (h.mono ?_ ?_)
  · rintro a s' ⟨hq, hle⟩
    exact ⟨holding_apply_ok hq values, hle⟩
  · rintro fault s' ⟨hdeep, hq⟩
    exact ⟨hdeep, fun h => holding_apply_error (hq h) values⟩

theorem Deepens.read {f g : Source → Parser α} (h : Deepens n src s (f src) (g src)) :
    Deepens n src s (do let src ← read; f src) (do let src ← read; g src) := h

theorem value_of_current_error {fault : ParseError} (h : src.current s.tokens = .error fault) (d : Nat)
    (type : TypeIndex) : value d type src s = .error fault s := by
  refine apply_eq_error_iff.mpr ?_
  unfold value
  cases d with
  | zero =>
    rw [ends_fail, h]
    exact ⟨rfl, rfl⟩
  | succ d =>
    refine ends_read.mpr ?_
    cases src.ctx.types.get? type with
    | none =>
      rw [ends_fail, h]
      exact ⟨rfl, rfl⟩
    | some descriptor =>
      rw [ends_bind, ends_current, h]
      exact ⟨rfl, rfl⟩

section Steps

variable (hsrc : src.Shallow)
include hsrc

theorem Plain.deepens {step : Parser α} (h : Plain step) : Deepens n src s step step :=
  .refl ((h src s).mono (fun _ _ hle => hle) fun fault _ hfault =>
    hfault.elim (hsrc fault) ParseError.Ordinary.not_isTooDeep)

/-- What is too deep behind a token is so with one token less ahead. -/
theorem deepens_advance {p q : Parser α} (hs : s.tokens ≠ [])
    (h : ∀ s', s'.tokens.length < s.tokens.length → Deepens n src s' p q) :
    Deepens (n + 1) src s (do advance; p) (do advance; q) := by
  have hlength : s.tokens.tail.length < s.tokens.length := by
    have := List.length_pos_iff.mpr hs
    rw [List.length_tail]
    omega
  have hmoved : Ends advance src s (fun _ s' => s' = { s with tokens := s.tokens.tail }) AnyError :=
    advance_sound rfl
  have hsame : Deepens (n + 1) src s advance advance := plain_advance.deepens hsrc
  refine ends_bind.mpr ((hsame.and hmoved).mono ?_ ?_)
  · rintro _ _ ⟨⟨hadvance, -⟩, rfl⟩
    refine (h _ hlength).mono ?_ ?_
    · rintro a s' ⟨hq, hle⟩
      exact ⟨(bind_apply_ok hadvance _).trans hq, Nat.le_trans hle hlength.le⟩
    · rintro fault s' ⟨hdeep, hq⟩
      exact ⟨fun h => Nat.succ_le_of_lt (Nat.lt_of_le_of_lt (hdeep h) hlength),
        fun h => (bind_apply_ok hadvance _).trans (hq h)⟩
  · rintro fault s' ⟨⟨hdeep, hadvance⟩, -⟩
    exact ⟨hdeep, fun h => bind_apply_error (hadvance h) _⟩

/-- Behind a step that leaves all as it is, what it has found is known. -/
theorem Plain.deepens_bind {x : Parser β} {f g : β → Parser α} {m : β → Prop} (hx : Plain x)
    (hm : Ends x src s (fun b s' => m b ∧ s' = s) AnyError)
    (h : ∀ b, m b → Deepens n src s (f b) (g b)) : Deepens n src s (x >>= f) (x >>= g) := by
  have hsame : Deepens n src s x x := hx.deepens hsrc
  refine ends_bind.mpr ((hsame.and hm).mono ?_ fun fault s' hbad =>
    ⟨hbad.1.1, fun hdeep => bind_apply_error (hbad.1.2 hdeep) _⟩)
  rintro b _ ⟨⟨hb, -⟩, hfound, rfl⟩
  exact (h b hfound).mono (fun a s' hq => ⟨(bind_apply_ok hb _).trans hq.1, hq.2⟩)
    fun fault s' hq => ⟨hq.1, fun hdeep => (bind_apply_ok hb _).trans (hq.2 hdeep)⟩

theorem deepens_expectKind {p q : Parser α} (given required : TypeKind) (h : Deepens n src s p q) :
    Deepens n src s (do expectKind given required; p) (do expectKind given required; q) :=
  (plain_expectKind given required).deepens_bind hsrc (m := fun _ => True)
    (expectKind_sound fun _ => ⟨trivial, rfl⟩) fun _ _ => h

/-! ### Elements -/

section Items

variable {item item' : TypeIndex → Parser Value}
  (hitem : ∀ type s, Deepens n src s (item type) (item' type))
include hitem

theorem deepens_element (slots : Slots) (done : List Value) :
    Deepens n src s (element item slots done) (element item' slots done) := by
  unfold element
  cases slots.next? with
  | some next => exact (hitem _ s).bind fun value s' _ => (plain_pure _).deepens hsrc
  | none =>
    exact (hitem _ s).bind fun value s' _ =>
      ((plain_drop [value]).bind fun _ => plain_pure _).deepens hsrc

theorem deepens_elementsFrom (close : Token) : ∀ (bound : Nat) (slots : Slots) (done : List Value)
    (s : Parsing), Deepens n src s (elementsFrom item close bound slots done)
      (elementsFrom item' close bound slots done)
  | 0, _, _, _ => (plain_pure _).deepens hsrc
  | bound + 1, slots, done, s => by
    unfold elementsFrom
    refine ((deepens_element hsrc hitem slots done).holding done).bind fun r s₁ _ => ?_
    refine (((plain_atEnd close).holding r.2).deepens hsrc).bind fun last s₂ _ => ?_
    cases last
    · exact deepens_elementsFrom close bound r.1 r.2 s₂
    · exact (plain_pure _).deepens hsrc

theorem deepens_elements (close : Token) (slots : Slots) (s : Parsing) :
    Deepens n src s (elements item close slots) (elements item' close slots) := by
  unfold elements
  refine ((plain_accept .linefeed).discard.deepens hsrc).bind fun _ s₁ _ => ?_
  refine ((plain_accept close).deepens hsrc).bind fun closed s₂ _ => ?_
  cases closed
  · show Deepens n src s₂ (elementsFrom item close src.size slots [] >>= _)
      (elementsFrom item' close src.size slots [] >>= _)
    refine (deepens_elementsFrom hsrc hitem close src.size slots [] s₂).bind fun r s₃ _ => ?_
    exact ((plain_advance.holding r.2).bind fun _ => plain_pure _).deepens hsrc
  · exact (plain_pure _).deepens hsrc

/-! ### Values -/

variable (hs : s.tokens ≠ [])
include hs

theorem deepens_negated (type : TypeIndex) (kind : TypeKind) :
    Deepens (n + 1) src s (negated item type kind) (negated item' type kind) := by
  unfold negated
  refine deepens_advance hsrc hs fun s₁ _ => (hitem type s₁).bind fun operand s₂ _ => ?_
  split
  · exact (plain_pure _).deepens hsrc
  · exact ((plain_fail ⟨by simp, by simp⟩).holding _).deepens hsrc

theorem deepens_vectorLiteral (type : TypeIndex) (descriptor : TypeDescriptor) :
    Deepens (n + 1) src s (vectorLiteral item type descriptor) (vectorLiteral item' type descriptor) := by
  unfold vectorLiteral
  refine deepens_expectKind hsrc _ _ (deepens_advance hsrc hs fun s₁ _ => ?_)
  exact (deepens_elements hsrc hitem _ _ s₁).bind fun r s₂ _ => (plain_newVector _ _).deepens hsrc

theorem deepens_structLiteral (type : TypeIndex) (descriptor : TypeDescriptor) (name : String) :
    Deepens (n + 1) src s (structLiteral item type descriptor name)
      (structLiteral item' type descriptor name) := by
  unfold structLiteral
  refine deepens_expectKind hsrc _ _ (deepens_advance hsrc hs fun s₁ _ => ?_)
  refine ((plain_expect _).deepens hsrc).bind fun _ s₂ _ => ?_
  refine ((plain_structType _ _ _).deepens hsrc).bind fun found s₃ _ => ?_
  refine ((plain_fieldTypes _ _).deepens hsrc).bind fun fields s₄ _ => ?_
  refine (deepens_elements hsrc hitem _ _ s₄).bind fun r s₅ _ => ?_
  exact (((plain_defaults _).holding _).bind fun _ => plain_newVector _ _).deepens hsrc

theorem deepens_literal (type : TypeIndex) (descriptor : TypeDescriptor) (token : Token) :
    Deepens (n + 1) src s (literal item type descriptor token) (literal item' type descriptor token) := by
  cases token with
  | int | float | nil => exact (plain_scalar (plain_pure _)).deepens hsrc
  | string text => exact (plain_scalar (plain_newString text)).deepens hsrc
  | minus => exact deepens_negated hsrc hitem hs type _
  | leftBracket => exact deepens_vectorLiteral hsrc hitem hs type descriptor
  | name name => exact deepens_structLiteral hsrc hitem hs type descriptor name
  | _ => exact (plain_fail ⟨by simp, by simp⟩).deepens hsrc

end Items

/-- **A value is read at every greater depth as at a smaller one**, if that is not too small. The depth is
too small only if there are as many tokens. -/
theorem deepens_value : ∀ {d d' : Nat}, d ≤ d' → ∀ (type : TypeIndex) (s : Parsing),
    Deepens d src s (value d type) (value d' type)
  | 0, d', _, type, s => by
    refine ends_fail.mpr ?_
    cases hc : src.current s.tokens with
    | ok spanned => exact ⟨fun _ => Nat.zero_le _, fun h => absurd ⟨_, rfl⟩ h⟩
    | error fault =>
      have hdeep : ¬ fault.IsTooDeep := hsrc.current hc
      exact ⟨fun h => absurd h hdeep, fun _ => value_of_current_error hc d' type⟩
  | d + 1, d' + 1, h, type, s => by
    unfold value
    refine Deepens.read ?_
    cases hd : src.ctx.types.get? type with
    | none =>
      refine .refl (ends_fail.mpr ?_)
      cases hc : src.current s.tokens with
      | ok spanned => rintro ⟨line, ⟨⟩⟩
      | error fault => exact hsrc.current hc
    | some descriptor =>
      refine plain_current.deepens_bind hsrc
        (m := fun spanned => s.tokens ≠ [] ∨ spanned.token = .endOfFile)
        (current_sound fun spanned hspanned => ⟨hspanned.imp_left ?_, rfl⟩) ?_
      · rintro ⟨rest, hrest⟩
        rw [hrest]
        exact List.cons_ne_nil _ _
      · rintro ⟨token, line⟩ (htokens | rfl)
        · exact deepens_literal hsrc (deepens_value (Nat.le_of_succ_le_succ h)) htokens _ _ _
        · exact (plain_fail ⟨by simp, by simp⟩).deepens hsrc

theorem deepens_wholeText {d d' : Nat} (h : d ≤ d') (type : TypeIndex) (s : Parsing) :
    Deepens d src s (wholeText d type) (wholeText d' type) := by
  unfold wholeText
  refine (plain_current.discard.deepens hsrc).bind fun _ s₁ _ => ?_
  refine (deepens_value hsrc h type s₁).bind fun v s₂ _ => ?_
  exact ((plain_end.holding _).bind fun _ => plain_pure _).deepens hsrc

end Steps

end Parser

/-! ### Whole texts -/

variable {ctx : TypeContext} {heap : HeapId} {d d' : Nat} {type : TypeIndex} {text : String} {store : Store}

theorem Source.ofText_shallow (ctx : TypeContext) (heap : HeapId) (text : String) :
    (Source.ofText ctx heap text).Shallow := fun _ h => (Source.ofText_ending h).not_isTooDeep

/-- A text that is too deep has as many tokens as there are levels, and any other parse is the same at a
greater depth. -/
theorem parse_deeper (h : d ≤ d') (ctx : TypeContext) (heap : HeapId) (type : TypeIndex) (text : String)
    (store : Store) :
    (∀ line, (parse ctx heap d type text store).1 = .error (.syntaxError line .tooDeep) →
      d ≤ (Lexed.ofText text).tokens.length) ∧
    ((∀ line, (parse ctx heap d type text store).1 ≠ .error (.syntaxError line .tooDeep)) →
      parse ctx heap d' type text store = parse ctx heap d type text store) := by
  refine (parse_iff_ends ctx heap d type text store (p := fun r =>
    (∀ line, r.1 = .error (.syntaxError line .tooDeep) → d ≤ (Lexed.ofText text).tokens.length) ∧
    ((∀ line, r.1 ≠ .error (.syntaxError line .tooDeep)) → parse ctx heap d' type text store = r))).mpr ?_
  have hdeepens := Parser.deepens_wholeText (Source.ofText_shallow ctx heap text) h type (.ofText text store)
  refine hdeepens.mono ?_ ?_
  · rintro v s ⟨hrun, -⟩
    exact ⟨nofun, fun _ => parse_of_run_ok hrun⟩
  · rintro fault s ⟨hdeep, hrun⟩
    refine ⟨fun line hline => hdeep ⟨line, Except.error.inj hline⟩, fun hnot => ?_⟩
    refine parse_of_run_error (hrun ?_)
    rintro ⟨line, rfl⟩
    exact hnot line rfl

/-- **A greater depth changes nothing but the errors for the depth.** What succeeds does so with the same
value and the same store, and what fails for another cause fails with the same error and the same store.
With more levels than tokens no text is too deep. -/
theorem parse_depth_harmless (ctx : TypeContext) (heap : HeapId) (type : TypeIndex) (text : String)
    (store : Store) :
    (∀ d d', d ≤ d' → ∀ v s', parse ctx heap d type text store = (.ok v, s') →
      parse ctx heap d' type text store = (.ok v, s')) ∧
    (∀ d d', d ≤ d' → ∀ fault s', parse ctx heap d type text store = (.error fault, s') →
      (∀ line, fault ≠ .syntaxError line .tooDeep) →
      parse ctx heap d' type text store = (.error fault, s')) ∧
    ∀ d, (Lexed.ofText text).tokens.length + 1 ≤ d →
      parse ctx heap d type text store =
        parse ctx heap ((Lexed.ofText text).tokens.length + 1) type text store ∧
      ∀ line, (parse ctx heap d type text store).1 ≠ .error (.syntaxError line .tooDeep) := by
  have henough : ∀ d, (Lexed.ofText text).tokens.length + 1 ≤ d → ∀ line,
      (parse ctx heap d type text store).1 ≠ .error (.syntaxError line .tooDeep) := fun d h line hline =>
    Nat.not_succ_le_self _ (h.trans ((parse_deeper le_rfl ctx heap type text store).1 line hline))
  refine ⟨fun d d' h v s' hd => ?_, fun d d' h fault s' hd hfault => ?_, fun d h => ⟨?_, henough d h⟩⟩
  · refine ((parse_deeper h ctx heap type text store).2 fun line hline => ?_).trans hd
    rw [hd] at hline
    cases hline
  · refine ((parse_deeper h ctx heap type text store).2 fun line hline => ?_).trans hd
    rw [hd] at hline
    exact hfault line (Except.error.inj hline)
  · exact (parse_deeper h ctx heap type text store).2 (henough _ le_rfl)

/-- Two vectors, a sign and a number take a depth of four; the missing bracket is found at a depth of two. -/
theorem parse_depth_harmless_nested :
    parse ⟨.builtins, #[]⟩ ⟨0⟩ 256 .any "[[-7]]" Store.empty.addHeap.2 =
      (.ok (.vector ⟨1⟩ .vectorAny [.vector ⟨0⟩ .vectorAny [.int (-7)]]),
        ⟨#[⟨2, 2, 0⟩], #[⟨⟨0⟩, 1⟩, ⟨⟨0⟩, 1⟩]⟩) ∧
    parse ⟨.builtins, #[]⟩ ⟨0⟩ 256 .any "[7" Store.empty.addHeap.2 =
      (.error (.syntaxError 1 (.unexpected .comma .endOfFile)), ⟨#[⟨0, 0, 0⟩], #[]⟩) ∧
    (parse ⟨.builtins, #[]⟩ ⟨0⟩ 3 .any "[[-7]]" Store.empty.addHeap.2).1 =
      .error (.syntaxError 1 .tooDeep) ∧
    ∀ line, (parse ⟨.builtins, #[]⟩ ⟨0⟩ 256 .any "[[-7]]" Store.empty.addHeap.2).1 ≠
      .error (.syntaxError line .tooDeep) := by
  have hvector : Lexed.ofText "[[-7]]" = ⟨[⟨.leftBracket, 1⟩, ⟨.leftBracket, 1⟩, ⟨.minus, 1⟩,
    ⟨.int 7, 1⟩, ⟨.rightBracket, 1⟩, ⟨.rightBracket, 1⟩], .ok 1⟩ := rfl
  have hopen : Lexed.ofText "[7" = ⟨[⟨.leftBracket, 1⟩, ⟨.int 7, 1⟩], .ok 1⟩ := rfl
  obtain ⟨hok, -, henough⟩ :=
    parse_depth_harmless ⟨.builtins, #[]⟩ ⟨0⟩ .any "[[-7]]" Store.empty.addHeap.2
  obtain ⟨-, herror, -⟩ := parse_depth_harmless ⟨.builtins, #[]⟩ ⟨0⟩ .any "[7" Store.empty.addHeap.2
  refine ⟨hok 4 256 (by decide) _ _ ?_, herror 2 256 (by decide) _ _ ?_ nofun, ?_,
    (henough 256 (by rw [hvector]; decide)).2⟩
  · unfold parse
    rw [hvector]
    rfl
  · unfold parse
    rw [hopen]
    rfl
  · unfold parse
    rw [hvector]
    rfl

end Wordcode.Literal
