import Wordcode.Proofs.Literal.Sound

/-! # The parser accepts the whole grammar

If the tokens ahead begin with a literal of the type, the parser reads exactly that literal and returns a
value with its datum (`value_complete`). The text has no lexical fault, so that every step can look at
the token after the ones it takes. -/

namespace Wordcode.Literal

theorem Token.Starts.ne {token other : Token} (h : token.Starts)
    (ho : other ∈ [Token.rightBracket, .rightCurly, .leftCurly, .comma, .linefeed, .endOfFile]) :
    token ≠ other := by
  rintro rfl
  unfold Token.Starts at h
  simp only [List.mem_cons, List.not_mem_nil, or_false] at ho
  rcases ho with rfl | rfl | rfl | rfl | rfl | rfl <;> obtain h | h | h | ⟨name, h⟩ := h <;> cases h

/-- What begins the literals that are derived. -/
def Derivation.Starting (sub : Derivation) : Prop :=
  ∀ type W datum, sub type W datum → ∃ token rest, W = token :: rest ∧ token.Starts

theorem Items.starts {sub : Derivation} (hsub : sub.Starting) {slots slots' : Parser.Slots}
    {E : List Token} {data : List Datum} (h : Items sub slots E data slots') :
    ∃ token rest, E = token :: rest ∧ token.Starts := by
  have hitem : ∀ {W data slots' slots}, Item sub slots W data slots' →
      ∃ token rest, W = token :: rest ∧ token.Starts := by
    rintro W data slots' slots (⟨-, derived⟩ | ⟨-, derived⟩) <;> exact hsub _ _ _ derived
  cases h with
  | last item => exact hitem item
  | lastBreak item =>
    obtain ⟨token, rest, rfl, ht⟩ := hitem item
    exact ⟨token, _, rfl, ht⟩
  | more item _ _ =>
    obtain ⟨token, rest, rfl, ht⟩ := hitem item
    exact ⟨token, _, rfl, ht⟩

namespace Parser

variable {src : Source} {s : Parsing} {line : UInt32}

/-- No error at all. -/
def NoError : ParseError → Parsing → Prop := fun _ _ => False

theorem Ends.behind {α β : Type} {x : Parser β} {f : β → Parser α} {m : β → Parsing → Prop}
    {ok : α → Parsing → Prop} {bad : ParseError → Parsing → Prop} (hx : Ends x src s m NoError)
    (hf : ∀ b s', m b s' → Ends (f b) src s' ok bad) : Ends (x >>= f) src s ok bad :=
  Ends.bind (hx.mono (fun _ _ h => h) fun _ _ h => h.elim) hf

theorem ahead_tail {token : Token} {rest : List Token} (h : s.ahead = token :: rest) :
    Parsing.ahead { s with tokens := s.tokens.tail } = rest := by
  simp only [Parsing.ahead, List.map_tail] at h ⊢
  rw [h, List.tail_cons]

section Tokens
variable (hend : src.ending = .ok line)
include hend

theorem current_eq (s : Parsing) : ∃ spanned, src.current s.tokens = .ok spanned ∧
    spanned.token = s.ahead.headD .endOfFile := by
  unfold Source.current Parsing.ahead
  cases s.tokens with
  | nil => exact ⟨_, by rw [hend]; rfl, rfl⟩
  | cons spanned rest => exact ⟨spanned, rfl, rfl⟩

theorem current_complete {ok : Spanned → Parsing → Prop}
    (h : ∀ spanned, spanned.token = s.ahead.headD .endOfFile → ok spanned s) :
    Ends current src s ok NoError := by
  obtain ⟨spanned, hc, ht⟩ := current_eq hend s
  rw [ends_current, hc]
  exact h spanned ht

theorem advance_complete {ok : Unit → Parsing → Prop}
    (h : ok () { s with tokens := s.tokens.tail }) : Ends advance src s ok NoError := by
  obtain ⟨spanned, hc, -⟩ := current_eq hend { s with tokens := s.tokens.tail }
  rw [ends_advance, hc]
  exact h

theorem advance_ahead {token : Token} {rest : List Token} (hs : s.ahead = token :: rest) :
    Ends advance src s (fun _ s' => s'.ahead = rest) NoError :=
  advance_complete hend (ahead_tail hs)

theorem expect_complete {wanted : Token} {rest : List Token} {ok : Unit → Parsing → Prop}
    (ht : s.ahead = wanted :: rest) (h : ∀ s', s'.ahead = rest → ok () s') :
    Ends (expect wanted) src s ok NoError := by
  obtain ⟨spanned, hc, hs⟩ := current_eq hend s
  rw [ends_expect, hc]
  exact (if_pos (by rw [hs, ht]; rfl)).mpr (advance_complete hend (h _ (ahead_tail ht)))

theorem accept_complete {wanted : Token} {ok : Bool → Parsing → Prop}
    (htrue : ∀ rest s', s.ahead = wanted :: rest → s'.ahead = rest → ok true s')
    (hfalse : s.ahead.headD .endOfFile ≠ wanted → ok false s) (hw : wanted ≠ .endOfFile) :
    Ends (accept wanted) src s ok NoError := by
  obtain ⟨spanned, hc, hs⟩ := current_eq hend s
  rw [ends_accept, hc]
  simp only
  split_ifs with he
  · rw [hs] at he
    cases ha : s.ahead with
    | nil => rw [ha] at he; exact absurd he.symm hw
    | cons token rest =>
      rw [ha, List.headD_cons] at he
      subst he
      exact advance_complete hend (htrue rest _ ha (ahead_tail ha))
  · exact hfalse (hs ▸ he)

end Tokens

theorem expectKind_complete {given required : TypeKind} {ok : Unit → Parsing → Prop}
    (h : Admits required given) (hok : ok () s) :
    Ends (expectKind given required) src s ok NoError := by
  rw [ends_expectKind, if_pos (show required = given ∨ required = .any from h)]
  exact hok

/-! ### Elements -/

/-- The step reads every literal that `sub` derives and returns its datum. -/
def CompleteFor (src : Source) (item : TypeIndex → Parser Value) (sub : Derivation) : Prop :=
  ∀ type s W rest datum, s.ahead = W ++ rest → s.ahead.length ≤ src.size → sub type W datum →
    Ends (item type) src s (fun value s' => s'.ahead = rest ∧ value.datum = datum) NoError

variable {item : TypeIndex → Parser Value} {sub : Derivation} {close : Token}
  {W E rest : List Token} {data : List Datum} {slots slots' : Slots} {done : List Value}

theorem element_complete (hitem : CompleteFor src item sub) (h : Item sub slots W data slots')
    (hs : s.ahead = W ++ rest) (hlen : s.ahead.length ≤ src.size) :
    Ends (element item slots done) src s (fun r s' => s'.ahead = rest ∧ r.1 = slots' ∧
      Value.data r.2.reverse = Value.data done.reverse ++ data) NoError := by
  unfold element
  cases h with
  | kept slot derived =>
    rw [slot]
    refine (hitem _ s W rest _ hs hlen derived).bind ?_
    rintro value s' ⟨hs', rfl⟩
    exact ⟨hs', rfl, by simp [Value.data_eq_map]⟩
  | dropped slot derived =>
    rw [slot]
    refine (hitem _ s W rest _ hs hlen derived).bind ?_
    rintro value s' ⟨hs', -⟩
    exact ⟨hs', rfl, by simp⟩

section Closing
variable (hend : src.ending = .ok line) (hclose : close = .rightBracket ∨ close = .rightCurly)
include hend hclose

/-- In front of the closing bracket, or of a line break and the bracket, the elements end. -/
theorem atEnd_close (hs : s.ahead = close :: rest ∨ s.ahead = .linefeed :: close :: rest) :
    Ends (atEnd close) src s (fun last s' => last = true ∧ s'.ahead = close :: rest) NoError := by
  have hne : close ≠ .linefeed := by rcases hclose with rfl | rfl <;> decide
  unfold atEnd
  refine Ends.bind (m := fun _ s' => s'.ahead = close :: rest)
    (accept_complete hend (fun tail s' ht hs' => ?_) (fun hn => ?_) (by decide)) fun _ s₁ hs₁ => ?_
  · rcases hs with hs | hs
    · rw [hs, List.cons.injEq] at ht; exact absurd ht.1 hne
    · rw [hs, List.cons.injEq] at ht; rw [hs', ← ht.2]
  · exact hs.resolve_right fun hs => hn (by rw [hs]; rfl)
  refine Ends.bind (m := fun spanned s' => s'.ahead = close :: rest ∧ spanned.token = close)
    (current_complete hend fun spanned h => ⟨hs₁, by rw [h, hs₁]; rfl⟩) ?_
  rintro spanned s₂ ⟨hs₂, ht⟩
  rw [if_pos ht]
  exact ⟨rfl, hs₂⟩

theorem atEnd_comma (hs : s.ahead = .comma :: rest) :
    Ends (atEnd close) src s (fun last s' => last = false ∧ s'.ahead = rest) NoError := by
  have hne : Token.comma ≠ close := by rcases hclose with rfl | rfl <;> decide
  unfold atEnd
  refine Ends.bind (m := fun separated s' => separated = false ∧ s' = s)
    (accept_complete hend (fun tail s' ht _ => ?_) (fun _ => ⟨rfl, rfl⟩) (by decide)) ?_
  · rw [hs, List.cons.injEq] at ht
    cases ht.1
  rintro _ s₁ ⟨rfl, hs₁⟩
  obtain rfl : s = s₁ := hs₁.symm
  refine Ends.bind (m := fun spanned s' => s' = s ∧ spanned.token ≠ close)
    (current_complete hend fun spanned h => ⟨rfl, by rw [h, hs]; exact hne⟩) ?_
  rintro spanned s₂ ⟨hs₂, hn⟩
  obtain rfl : s = s₂ := hs₂.symm
  rw [if_neg hn]
  exact Ends.bind (m := fun _ s' => s'.ahead = rest) (expect_complete hend hs fun _ h => h) fun _ _ h => ⟨rfl, h⟩

omit hclose in
theorem atEnd_linefeed (hs : s.ahead = .linefeed :: rest) (hrest : rest.headD .endOfFile ≠ close) :
    Ends (atEnd close) src s (fun last s' => last = false ∧ s'.ahead = rest) NoError := by
  unfold atEnd
  refine Ends.bind (m := fun separated s' => separated = true ∧ s'.ahead = rest)
    (accept_complete hend (fun tail s' ht hs' => ?_) (fun hn => ?_) (by decide)) ?_
  · rw [hs, List.cons.injEq] at ht
    exact ⟨rfl, by rw [hs', ← ht.2]⟩
  · exact absurd (by rw [hs]; rfl) hn
  rintro _ s₁ ⟨rfl, hs₁⟩
  refine Ends.bind (m := fun spanned s' => s' = s₁ ∧ spanned.token ≠ close)
    (current_complete hend fun spanned h => ⟨rfl, by rw [h, hs₁]; exact hrest⟩) ?_
  rintro spanned s₂ ⟨rfl, hn⟩
  rw [if_neg hn]
  exact ⟨rfl, hs₁⟩

theorem atEnd_separator {separator token : Token}
    (hsep : separator = .comma ∨ separator = .linefeed) (htoken : token.Starts)
    (hs : s.ahead = separator :: token :: rest) :
    Ends (atEnd close) src s (fun last s' => last = false ∧ s'.ahead = token :: rest)
      NoError := by
  have hne : token ≠ close := htoken.ne (by rcases hclose with rfl | rfl <;> decide)
  rcases hsep with rfl | rfl
  · exact atEnd_comma hend hclose hs
  · exact atEnd_linefeed hend hs hne

omit hend hclose in
theorem exists_bound {token : Token} {bound : Nat} (hs : s.ahead = W ++ token :: rest)
    (hb : s.ahead.length ≤ bound) : ∃ n, bound = n + 1 := by
  rw [hs, List.length_append, List.length_cons] at hb
  exact ⟨bound - 1, by omega⟩

theorem elementsFrom_complete (hitem : CompleteFor src item sub) (hsub : sub.Starting)
    (h : Items sub slots E data slots') : ∀ (bound : Nat) (done : List Value) (s : Parsing),
      s.ahead = E ++ close :: rest → s.ahead.length ≤ bound → s.ahead.length ≤ src.size →
      Ends (elementsFrom item close bound slots done) src s (fun r s' => s'.ahead = close :: rest ∧
        r.1 = slots' ∧ Value.data r.2.reverse = Value.data done.reverse ++ data) NoError := by
  induction h with
  | @last slots slots' W data item =>
    intro bound done s hs hb hlen
    obtain ⟨bound, rfl⟩ : ∃ n, bound = n + 1 := exists_bound hs hb
    refine Ends.bind (ends_holding.mpr (element_complete hitem item hs hlen)) ?_
    rintro ⟨slots₁, done₁⟩ s₁ ⟨hs₁, rfl, hdata⟩
    refine Ends.bind (ends_holding.mpr (atEnd_close hend hclose (.inl hs₁))) ?_
    rintro _ s₂ ⟨rfl, hs₂⟩
    exact ⟨hs₂, rfl, hdata⟩
  | @lastBreak slots slots' W data item =>
    intro bound done s hs hb hlen
    rw [List.append_assoc] at hs
    obtain ⟨bound, rfl⟩ : ∃ n, bound = n + 1 := exists_bound hs hb
    refine Ends.bind (ends_holding.mpr (element_complete hitem item hs hlen)) ?_
    rintro ⟨slots₁, done₁⟩ s₁ ⟨hs₁, rfl, hdata⟩
    refine Ends.bind (ends_holding.mpr (atEnd_close hend hclose (.inr hs₁))) ?_
    rintro _ s₂ ⟨rfl, hs₂⟩
    exact ⟨hs₂, rfl, hdata⟩
  | @more slots slots' slots'' W E data data' separator item hsep hrest ih =>
    intro bound done s hs hb hlen
    obtain ⟨token, tail, rfl, htoken⟩ := hrest.starts hsub
    rw [List.append_assoc] at hs
    obtain ⟨bound, rfl⟩ : ∃ n, bound = n + 1 := exists_bound hs hb
    refine Ends.bind (ends_holding.mpr (element_complete hitem item hs hlen)) ?_
    rintro ⟨slots₁, done₁⟩ s₁ ⟨hs₁, rfl, hdata⟩
    refine Ends.bind (ends_holding.mpr (atEnd_separator hend hclose hsep htoken hs₁)) ?_
    rintro _ s₂ ⟨rfl, hs₂⟩
    have hshort : s₂.ahead.length < s.ahead.length := by
      rw [hs₂, hs]
      simp
      omega
    refine (ih bound done₁ s₂ hs₂ (by omega) (by omega)).mono ?_ fun _ _ h => h
    rintro ⟨slots₃, done₃⟩ s₃ ⟨hs₃, hslots, hdata'⟩
    exact ⟨hs₃, hslots, by rw [hdata', hdata, List.append_assoc]⟩

theorem ends_elements_of_starts {token : Token} (htoken : token.Starts) (hs : s.ahead = token :: rest)
    {ok : Slots × List Value → Parsing → Prop} {bad : ParseError → Parsing → Prop}
    (h : Ends (do let (slots, done) ← elementsFrom item close src.size slots []
                  holding done advance
                  pure (slots, done.reverse)) src s ok bad) :
    Ends (elements item close slots) src s ok bad := by
  have hne : close ≠ .endOfFile := by rcases hclose with rfl | rfl <;> decide
  have hhead : ∀ {other : Token}, token ≠ other → ∀ {tail}, s.ahead ≠ other :: tail := by
    rintro other hother tail htail
    rw [hs, List.cons.injEq] at htail
    exact hother htail.1
  unfold elements
  refine Ends.behind (m := fun _ s' => s' = s) (ends_discard.mpr
    (accept_complete hend (fun _ _ ht _ => absurd ht (hhead (htoken.ne (by decide)))) (fun _ => rfl)
      (by decide))) ?_
  rintro _ s₁ hs₁
  obtain rfl : s = s₁ := hs₁.symm
  have hclosing : token ≠ close := htoken.ne (by rcases hclose with rfl | rfl <;> decide)
  refine Ends.behind (m := fun closed s' => closed = false ∧ s' = s)
    (accept_complete hend (fun _ _ ht _ => absurd ht (hhead hclosing)) (fun _ => ⟨rfl, rfl⟩) hne) ?_
  rintro _ s₂ ⟨rfl, hs₂⟩
  obtain rfl : s = s₂ := hs₂.symm
  exact h

theorem elements_complete (hitem : CompleteFor src item sub) (hsub : sub.Starting)
    (h : Body sub slots E data slots') (hs : s.ahead = E ++ close :: rest)
    (hlen : s.ahead.length ≤ src.size) :
    Ends (elements item close slots) src s (fun r s' => s'.ahead = rest ∧ r.1 = slots' ∧
      Value.data r.2 = data) NoError := by
  cases h with
  | empty =>
    have hne : close ≠ .linefeed ∧ close ≠ .endOfFile := by
      rcases hclose with rfl | rfl <;> decide
    unfold elements
    refine Ends.bind (m := fun _ s' => s' = s) (ends_discard.mpr
      (accept_complete hend (fun tail s' ht _ => ?_) (fun _ => rfl) (by decide))) ?_
    · rw [hs, List.nil_append, List.cons.injEq] at ht
      exact absurd ht.1 hne.1
    rintro _ s₁ hs₁
    obtain rfl : s = s₁ := hs₁.symm
    refine Ends.bind (m := fun closed s' => closed = true ∧ s'.ahead = rest)
      (accept_complete hend (fun tail s' ht hs' => ?_) (fun hn => ?_) hne.2) ?_
    · rw [hs, List.nil_append, List.cons.injEq] at ht
      exact ⟨rfl, by rw [hs', ht.2]⟩
    · exact absurd (by rw [hs]; rfl) hn
    rintro _ s₂ ⟨rfl, hs₂⟩
    exact ⟨hs₂, rfl, rfl⟩
  | items h =>
    obtain ⟨token, tail, hE, ht⟩ := h.starts hsub
    refine ends_elements_of_starts hend hclose ht (by rw [hs, hE]; rfl) ?_
    refine (elementsFrom_complete hend hclose hitem hsub h _ [] s hs hlen hlen).bind ?_
    rintro ⟨slots₃, done₃⟩ s₃ ⟨hs₃, rfl, hdata⟩
    refine Ends.bind (ends_holding.mpr (advance_ahead hend hs₃)) fun _ s₄ hs₄ => ?_
    exact ⟨hs₄, rfl, by simpa [Value.data] using hdata⟩

end Closing

/-! ### Values -/

variable {ctx : TypeContext}

theorem defaultOf_complete {type : TypeIndex} {datum : Datum}
    (h : defaultDatum? src.ctx type = some datum) (s : Parsing) :
    Ends (defaultOf type) src s (fun value s' => s' = s ∧ value.datum = datum) NoError := by
  rw [defaultDatum?_eq] at h
  obtain ⟨value, hv, rfl⟩ := Option.map_eq_some_iff.mp h
  unfold defaultOf
  rw [ends_read, hv]
  exact ⟨rfl, rfl⟩

theorem defaults_complete : ∀ {types : List TypeIndex} {defaults : List Datum} (s : Parsing),
    types.mapM (defaultDatum? src.ctx) = some defaults →
      Ends (types.mapM defaultOf) src s
        (fun values s' => s' = s ∧ Value.data values = defaults) NoError
  | [], _, s, h => by
    rw [List.mapM_nil, Option.pure_def, Option.some.injEq] at h
    exact ⟨rfl, h⟩
  | type :: types, defaults, s, h => by
    rw [List.mapM_cons, Option.bind_eq_bind, Option.bind_eq_some_iff] at h
    obtain ⟨datum, hd, h⟩ := h
    rw [Option.bind_eq_bind, Option.bind_eq_some_iff] at h
    obtain ⟨data, hds, h⟩ := h
    rw [Option.pure_def, Option.some.injEq] at h
    rw [List.mapM_cons]
    refine (defaultOf_complete hd s).bind ?_
    rintro value s₁ ⟨rfl, rfl⟩
    refine (defaults_complete s₁ hds).bind ?_
    rintro values s₂ ⟨rfl, rfl⟩
    exact ⟨rfl, h⟩

section Literals
variable (hend : src.ending = .ok line)
include hend

theorem scalar_complete {token : Token} {datum : Datum} {kind : TypeKind} {make : Parser Value}
    (hs : s.ahead = token :: rest) (hadmits : Admits kind datum.kind)
    (hmake : ∀ s', Ends make src s' (fun value s'' => s''.ahead = s'.ahead ∧ value.datum = datum)
      NoError) :
    Ends (scalar datum.kind kind make) src s
      (fun value s' => s'.ahead = rest ∧ value.datum = datum) NoError := by
  refine Ends.bind (m := fun _ s' => s' = s) (expectKind_complete hadmits rfl) ?_
  rintro _ s₁ rfl
  refine (advance_ahead hend hs).bind fun _ s₂ hs₂ => ?_
  exact hs₂ ▸ hmake s₂

theorem negated_complete {type : TypeIndex} {kind : TypeKind} {datum negated : Datum}
    (hitem : CompleteFor src item sub) (hsigns : Signs kind) (h : sub type W datum)
    (hn : datum.negate? = some negated) (hs : s.ahead = .minus :: (W ++ rest))
    (hlen : s.ahead.length ≤ src.size) :
    Ends (Parser.negated item type kind) src s
      (fun value s' => s'.ahead = rest ∧ value.datum = negated) NoError := by
  refine (advance_ahead hend hs).bind fun _ s₁ hs₁ => ?_
  refine (hitem type s₁ W rest datum hs₁ ?_ h).bind ?_
  · rw [hs, List.length_cons] at hlen
    rw [hs₁]
    omega
  rintro operand s₂ ⟨hs₂, rfl⟩
  rw [Value.negate?_datum, Option.map_eq_some_iff] at hn
  obtain ⟨value, hv, rfl⟩ := hn
  have hkind : (kind.isNumeric || kind == .any) = true := by simpa [Signs] using hsigns
  rw [if_pos hkind, hv]
  exact ⟨hs₂, rfl⟩

/-- Where the bracket of a vector literal is ahead, its elements are read from behind it. -/
theorem ends_vectorLiteral {type : TypeIndex} {descriptor : TypeDescriptor}
    (hadmits : Admits descriptor.kind .vector) (hs : s.ahead = .leftBracket :: rest)
    (hlen : s.ahead.length ≤ src.size) {ok : Value → Parsing → Prop} {bad : ParseError → Parsing → Prop}
    (h : ∀ s', s'.ahead = rest → s'.ahead.length ≤ src.size →
      Ends (do let (_, items) ← elements item .rightBracket (.every (vectorTypes type descriptor).2)
               newVector (vectorTypes type descriptor).1 items) src s' ok bad) :
    Ends (vectorLiteral item type descriptor) src s ok bad := by
  refine Ends.behind (m := fun _ s' => s' = s) (expectKind_complete hadmits rfl) ?_
  rintro _ s₁ rfl
  refine Ends.behind (advance_ahead hend hs) fun _ s₂ hs₂ => h s₂ hs₂ ?_
  rw [hs, List.length_cons] at hlen
  rw [hs₂]
  omega

theorem vectorLiteral_complete {type vectorType element : TypeIndex}
    {descriptor : TypeDescriptor} (hitem : CompleteFor src item sub) (hsub : sub.Starting)
    (hadmits : Admits descriptor.kind .vector)
    (htypes : vectorTypes type descriptor = (vectorType, element))
    (h : Body sub (.every element) E data slots')
    (hs : s.ahead = .leftBracket :: (E ++ .rightBracket :: rest))
    (hlen : s.ahead.length ≤ src.size) :
    Ends (vectorLiteral item type descriptor) src s
      (fun value s' => s'.ahead = rest ∧ value.datum = .vector vectorType data) NoError := by
  refine ends_vectorLiteral hend hadmits hs hlen fun s₁ hs₁ hlen₁ => ?_
  rw [htypes]
  refine (elements_complete hend (.inl rfl) hitem hsub h hs₁ hlen₁).bind ?_
  rintro ⟨slots, items⟩ s₂ ⟨hs₂, -, rfl⟩
  exact ends_newVector.mpr ⟨hs₂, rfl⟩

theorem structLiteral_complete {type vectorType : TypeIndex} {id : StructIndex}
    {fields : List TypeIndex} {name : String} {descriptor : TypeDescriptor}
    {defaults : List Datum} (hitem : CompleteFor src item sub) (hsub : sub.Starting)
    (hadmits : Admits descriptor.kind .struct)
    (htype : ∀ s, Ends (structType type descriptor name) src s
      (fun found s' => s' = s ∧ found = vectorType) NoError)
    (hfields : src.ctx.types.get? vectorType = some (.struct id fields))
    (h : Body sub (.each fields) E data slots')
    (hdefaults : slots'.missing.mapM (defaultDatum? src.ctx) = some defaults)
    (hs : s.ahead = .name name :: .leftCurly :: (E ++ .rightCurly :: rest))
    (hlen : s.ahead.length ≤ src.size) :
    Ends (structLiteral item type descriptor name) src s (fun value s' => s'.ahead = rest ∧
      value.datum = .vector vectorType (data ++ defaults)) NoError := by
  refine Ends.bind (m := fun _ s' => s' = s) (expectKind_complete hadmits rfl) ?_
  rintro _ s₁ rfl
  refine (advance_ahead hend hs).bind fun _ s₂ hs₂ => ?_
  refine Ends.bind (m := fun _ s' => s'.ahead = E ++ .rightCurly :: rest)
    (expect_complete hend hs₂ fun _ h => h) fun _ s₃ hs₃ => ?_
  refine (htype s₃).bind ?_
  rintro _ s₄ ⟨rfl, rfl⟩
  refine Ends.bind (m := fun found s' => s' = s₄ ∧ found = fields) ?_ ?_
  · unfold fieldTypes
    rw [ends_read, hfields]
    exact ⟨rfl, rfl⟩
  rintro _ s₅ ⟨rfl, rfl⟩
  refine (elements_complete hend (.inr rfl) hitem hsub h hs₃ ?_).bind ?_
  · rw [hs, List.length_cons, List.length_cons] at hlen
    rw [hs₃]
    omega
  rintro ⟨slots, items⟩ s₆ ⟨hs₆, rfl, rfl⟩
  refine Ends.bind (ends_holding.mpr (defaults_complete s₆ hdefaults)) ?_
  rintro values s₇ ⟨rfl, rfl⟩
  refine ends_newVector.mpr ⟨hs₆, ?_⟩
  simp [Store.newVector, Value.datum, Value.data_eq_map]

theorem aggregate_complete {type vectorType : TypeIndex} {opening : List Token}
    {descriptor : TypeDescriptor} {defaults : List Datum} (hitem : CompleteFor src item sub)
    (hsub : sub.Starting) (hd : src.ctx.types.get? type = some descriptor)
    (frame : Frame src.ctx type opening close vectorType slots) (h : Body sub slots E data slots')
    (hdefaults : slots'.missing.mapM (defaultDatum? src.ctx) = some defaults)
    (hs : s.ahead = opening ++ E ++ [close] ++ rest) (hlen : s.ahead.length ≤ src.size) :
    Ends (literal item type descriptor (s.ahead.headD .endOfFile)) src s (fun value s' =>
      s'.ahead = rest ∧ value.datum = .vector vectorType (data ++ defaults)) NoError := by
  have hvector {element : TypeIndex} (h : Body sub (.every element) E data slots') :
      data ++ defaults = data := by
    rw [h.every_eq] at hdefaults
    rw [← Option.some.inj hdefaults, List.reverse_nil, List.append_nil]
  cases frame with
  | vector described =>
    obtain rfl := Option.some.inj (hd.symm.trans described)
    rw [hvector h, hs]
    exact vectorLiteral_complete hend hitem hsub (.inl rfl) rfl h (by simpa using hs) hlen
  | anyVector described admits =>
    obtain rfl := Option.some.inj (hd.symm.trans described)
    rw [hvector h, hs]
    exact vectorLiteral_complete hend hitem hsub admits (show vectorTypes type _ = _ from rfl) h
      (by simpa using hs) hlen
  | @struct id fields name described named =>
    obtain rfl := Option.some.inj (hd.symm.trans described)
    rw [hs]
    refine structLiteral_complete hend hitem hsub (.inl rfl) (fun s => ?_) described h hdefaults
      (by simpa using hs) hlen
    unfold structType
    rw [ends_read]
    simp only
    rw [if_pos (by rw [named]; rfl)]
    exact ⟨rfl, rfl⟩
  | @anyStruct kind id fields name found described admits named describedFound =>
    obtain rfl := Option.some.inj (hd.symm.trans described)
    rw [hs]
    refine structLiteral_complete hend hitem hsub admits (fun s => ?_) describedFound h hdefaults
      (by simpa using hs) hlen
    unfold structType
    rw [ends_read]
    simp only
    rw [named]
    exact ⟨rfl, rfl⟩

end Literals

theorem ends_value (hend : src.ending = .ok line) {depth : Nat} {type : TypeIndex} {descriptor : TypeDescriptor}
    (hd : src.ctx.types.get? type = some descriptor) {ok : Value → Parsing → Prop}
    {bad : ParseError → Parsing → Prop}
    (h : Ends (literal (value depth) type descriptor (s.ahead.headD .endOfFile)) src s ok bad) :
    Ends (value (depth + 1) type) src s ok bad := by
  unfold value
  rw [ends_read, hd]
  refine Ends.behind (m := fun spanned s' => s' = s ∧ spanned.token = s.ahead.headD .endOfFile)
    (current_complete hend fun spanned h => ⟨rfl, h⟩) ?_
  rintro spanned s₁ ⟨hs₁, hcurrent⟩
  obtain rfl : s = s₁ := hs₁.symm
  rw [hcurrent]
  exact h

/-- **Every literal of the type is read** and gives a value with its datum. -/
theorem value_complete (hend : src.ending = .ok line) :
    ∀ depth, CompleteFor src (value depth) (Derives src.ctx depth)
  | 0 => fun _ _ _ _ _ _ _ h => h.elim
  | depth + 1 => by
    intro type s W rest datum hs hlen h
    have hsub := value_complete hend depth
    have hstarts : (Derives src.ctx depth).Starting := fun _ _ _ h => h.starts
    obtain ⟨descriptor, hd⟩ := h.described
    have hkind {kind : TypeKind} (known : src.ctx.types.kind? type = some kind) :
        descriptor.kind = kind := by
      rw [TypeTable.kind?, hd] at known
      exact Option.some.inj known
    refine ends_value hend hd ?_
    cases h with
    | @scalar kind token datum known stands admits =>
      rw [hs]
      rw [← hkind known] at admits
      cases token <;> cases stands
      · exact scalar_complete hend hs admits fun s' => ⟨rfl, rfl⟩
      · exact scalar_complete hend hs admits fun s' => ⟨rfl, rfl⟩
      · exact scalar_complete hend hs admits fun s' => ends_newString.mpr ⟨rfl, rfl⟩
      · exact scalar_complete hend hs admits fun s' => ⟨rfl, rfl⟩
    | minus known signs derived negates =>
      rw [hs]
      exact negated_complete hend hsub (hkind known ▸ signs) derived negates hs hlen
    | aggregate frame body missing =>
      exact aggregate_complete hend hsub hstarts hd frame body missing hs hlen

end Parser

end Wordcode.Literal
