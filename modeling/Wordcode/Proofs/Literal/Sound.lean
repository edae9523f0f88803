import Mathlib.Data.List.Chain
import Wordcode.Proofs.Literal.Grammar
import Wordcode.Proofs.Literal.Outcome

/-! # The parser accepts only the grammar

Whatever the parser reads before it returns a value is a literal of the type and derives the datum of
that value (`value_sound`). The tokens are those of a text (`Lexical`): no line break follows a token
that continues the line, so none can stand right behind an opening bracket. -/

namespace Wordcode.Literal

/-- What is known of the tokens of a text. -/
structure Lexical (tokens : List Token) : Prop where
  breaks : tokens.IsChain fun a b => a.continuesLine → b ≠ .linefeed
  names : ∀ name, .name name ∈ tokens → name ≠ ""
  ends : .endOfFile ∉ tokens

theorem Lexical.of_append {W rest : List Token} (h : Lexical (W ++ rest)) : Lexical rest :=
  ⟨h.breaks.right_of_append, fun name hn => h.names name (List.mem_append_right _ hn),
    fun he => h.ends (List.mem_append_right _ he)⟩

theorem Lexical.tail {token : Token} {rest : List Token} (h : Lexical (token :: rest)) :
    Lexical rest := h.of_append (W := [token])

/-- Behind a token that continues the line stands no line break. -/
theorem Lexical.head?_ne {token : Token} {rest : List Token} (h : Lexical (token :: rest))
    (ht : token.continuesLine = true) : rest.head? ≠ some .linefeed := by
  cases rest with
  | nil => simp
  | cons next rest =>
    have := (List.isChain_cons_cons.mp h.breaks).1 ht
    simpa using this

/-- The tokens in front of a parser. -/
def Parsing.ahead (s : Parsing) : List Token := s.tokens.map (·.token)

theorem Parsing.tokens_of_ahead {s : Parsing} {token : Token} {rest : List Token}
    (h : s.ahead = token :: rest) :
    ∃ spanned spans, s.tokens = spanned :: spans ∧ spanned.token = token ∧
      spans.map (·.token) = rest := by
  unfold Parsing.ahead at h
  cases ht : s.tokens with
  | nil => rw [ht] at h; cases h
  | cons spanned spans =>
    rw [ht, List.map_cons, List.cons.injEq] at h
    exact ⟨spanned, spans, rfl, h⟩

theorem Parsing.ahead_of_tokens {s : Parsing} {spanned : Spanned} {spans : List Spanned} {token : Token}
    (ht : s.tokens = spanned :: spans) (he : spanned.token = token) :
    s.ahead = token :: spans.map (·.token) := by
  rw [Parsing.ahead, ht, List.map_cons, he]

namespace Parser

variable {src : Source} {s : Parsing}

/-- Any error will do. -/
def AnyError : ParseError → Parsing → Prop := fun _ _ => True

/-! ### Single tokens -/

theorem current_sound {ok : Spanned → Parsing → Prop}
    (h : ∀ spanned, (∃ rest, s.tokens = spanned :: rest) ∨ spanned.token = .endOfFile →
      ok spanned s) : Ends current src s ok AnyError := by
  rw [ends_current]
  unfold Source.current
  cases ht : s.tokens with
  | nil =>
    cases src.ending with
    | error e => trivial
    | ok line => exact h _ (.inr rfl)
  | cons spanned rest => exact h _ (.inl ⟨rest, ht⟩)

theorem fail_sound {α : Type} {cause : SyntaxFault} {ok : α → Parsing → Prop} :
    Ends (fail cause) src s ok AnyError := by
  rw [ends_fail]
  cases src.current s.tokens <;> trivial

theorem advance_sound {ok : Unit → Parsing → Prop} (h : ok () { s with tokens := s.tokens.tail }) :
    Ends advance src s ok AnyError := by
  rw [ends_advance]
  cases src.current s.tokens.tail with
  | error e => trivial
  | ok spanned => exact h

theorem expect_sound {wanted : Token} (hw : wanted ≠ .endOfFile) {ok : Unit → Parsing → Prop}
    (h : ∀ spanned rest, s.tokens = spanned :: rest → spanned.token = wanted →
      ok () { s with tokens := rest }) : Ends (expect wanted) src s ok AnyError := by
  rw [ends_expect]
  unfold Source.current
  cases ht : s.tokens with
  | nil =>
    cases src.ending with
    | error e => trivial
    | ok line => exact (if_neg (Ne.symm hw)).mpr trivial
  | cons spanned rest =>
    simp only
    split_ifs with he
    · refine advance_sound ?_
      rw [ht]
      exact h spanned rest ht he
    · trivial

theorem accept_sound {wanted : Token} (hw : wanted ≠ .endOfFile) {ok : Bool → Parsing → Prop}
    (htrue : ∀ spanned rest, s.tokens = spanned :: rest → spanned.token = wanted →
      ok true { s with tokens := rest })
    (hfalse : s.ahead.head? ≠ some wanted → ok false s) :
    Ends (accept wanted) src s ok AnyError := by
  rw [ends_accept]
  unfold Source.current Parsing.ahead at *
  cases ht : s.tokens with
  | nil =>
    rw [ht] at hfalse
    cases src.ending with
    | error e => trivial
    | ok line => exact (if_neg (Ne.symm hw)).mpr (hfalse (by simp))
  | cons spanned rest =>
    rw [ht] at hfalse
    simp only
    split_ifs with he
    · refine advance_sound ?_
      rw [ht]
      exact htrue spanned rest ht he
    · exact hfalse (by simpa using he)

theorem skip_sound (hhead : s.ahead.head? ≠ some .linefeed) :
    Ends (discard (accept .linefeed)) src s (fun _ s' => s' = s) AnyError := by
  refine ends_discard.mpr (accept_sound (by decide) (fun spanned rest ht he => ?_) fun _ => rfl)
  exact absurd (by rw [Parsing.ahead_of_tokens ht he, List.head?_cons]) hhead

theorem expectKind_sound {given required : TypeKind} {ok : Unit → Parsing → Prop}
    (h : Admits required given → ok () s) : Ends (expectKind given required) src s ok AnyError := by
  rw [ends_expectKind]
  split_ifs with hk
  · exact h hk
  · exact fail_sound

/-! ### Elements -/

/-- The tokens ahead are those of a text, and not more than the text has. -/
structure Ready (src : Source) (tokens : List Token) : Prop where
  lexical : Lexical tokens
  length_le : tokens.length ≤ src.size

theorem Ready.of_append {W rest : List Token} (h : Ready src (W ++ rest)) : Ready src rest :=
  ⟨h.lexical.of_append, by have := h.length_le; rw [List.length_append] at this; omega⟩

/-- The step returns values only of what it reads, which is related to their datum by `sub`. -/
def SoundFor (src : Source) (item : TypeIndex → Parser Value) (sub : Derivation) : Prop :=
  ∀ type s, Ready src s.ahead → Ends (item type) src s
    (fun value s' => ∃ W, s.ahead = W ++ s'.ahead ∧ sub type W value.datum) AnyError

variable {item : TypeIndex → Parser Value} {sub : Derivation} {close : Token}

theorem element_sound (hitem : SoundFor src item sub) {slots : Slots} {done : List Value}
    (hs : Ready src s.ahead) :
    Ends (element item slots done) src s (fun r s' => ∃ W data, s.ahead = W ++ s'.ahead ∧
      Item sub slots W data r.1 ∧ Value.data r.2.reverse = Value.data done.reverse ++ data)
      AnyError := by
  unfold element
  cases hslot : slots.next? with
  | some next =>
    obtain ⟨type, slots'⟩ := next
    refine (hitem type s hs).bind ?_
    rintro value s' ⟨W, hW, hsub⟩
    exact ⟨W, _, hW, .kept hslot hsub, by simp [Value.data_eq_map]⟩
  | none =>
    refine (hitem .any s hs).bind ?_
    rintro value s' ⟨W, hW, hsub⟩
    exact ⟨W, _, hW, .dropped hslot hsub, by simp⟩

/-- What `atEnd` moves past, and whether the closing bracket comes next. -/
theorem atEnd_sound (hclose : close ≠ .endOfFile) :
    Ends (atEnd close) src s (fun last s' =>
      (last = true ∧ (s.ahead = s'.ahead ∨ s.ahead = .linefeed :: s'.ahead) ∧
        s'.ahead.head? = some close) ∨
      (last = false ∧ ∃ separator, (separator = .comma ∨ separator = .linefeed) ∧
        s.ahead = separator :: s'.ahead)) AnyError := by
  unfold atEnd
  refine Ends.bind (m := fun separated s' =>
    (separated = true ∧ s.ahead = .linefeed :: s'.ahead) ∨ (separated = false ∧ s' = s))
    (accept_sound (by decide) (fun spanned rest ht he => ?_) fun _ => .inr ⟨rfl, rfl⟩) ?_
  · exact .inl ⟨rfl, Parsing.ahead_of_tokens ht he⟩
  rintro separated s' hsep
  refine Ends.bind (m := fun spanned s'' => s'' = s' ∧
    ((∃ rest, s'.tokens = spanned :: rest) ∨ spanned.token = .endOfFile))
    (current_sound fun spanned h => ⟨rfl, h⟩) ?_
  rintro spanned s'' ⟨rfl, hcur⟩
  by_cases hc : spanned.token = close
  · rw [if_pos hc]
    have hhead : s''.ahead.head? = some close := by
      obtain ⟨rest, ht⟩ := hcur.resolve_right fun h => hclose (hc ▸ h)
      rw [Parsing.ahead_of_tokens ht hc, List.head?_cons]
    rcases hsep with ⟨-, h⟩ | ⟨-, rfl⟩
    · exact .inl ⟨rfl, .inr h, hhead⟩
    · exact .inl ⟨rfl, .inl rfl, hhead⟩
  · rw [if_neg hc]
    rcases hsep with ⟨rfl, h⟩ | ⟨rfl, rfl⟩
    · exact .inr ⟨rfl, _, .inr rfl, h⟩
    · refine Ends.bind (m := fun _ s' => s''.ahead = .comma :: s'.ahead)
        (expect_sound (by decide) fun spanned rest ht he => ?_) fun _ s' h => ?_
      · exact Parsing.ahead_of_tokens ht he
      · exact .inr ⟨rfl, _, .inl rfl, h⟩

theorem elementsFrom_sound (hitem : SoundFor src item sub)
    (hstarts : ∀ type W datum, sub type W datum → W ≠ []) (hclose : close ≠ .endOfFile) :
    ∀ (bound : Nat) (slots : Slots) (done : List Value) (s : Parsing), Ready src s.ahead →
      s.ahead.length < bound →
      Ends (elementsFrom item close bound slots done) src s (fun r s' => ∃ E data rest,
        s.ahead = E ++ close :: rest ∧ s'.ahead = close :: rest ∧ Items sub slots E data r.1 ∧
          Value.data r.2.reverse = Value.data done.reverse ++ data) AnyError
  | 0, _, _, _, _, hb => by omega
  | bound + 1, slots, done, s, hs, hb => by
    unfold elementsFrom
    refine Ends.bind (ends_holding.mpr (element_sound hitem hs)) ?_
    rintro ⟨slots', done'⟩ s' ⟨W, data, hW, hitem', hdata⟩
    have hne : W ≠ [] := by
      cases hitem' with
      | kept _ derived | dropped _ derived => exact hstarts _ _ _ derived
    have hs' : Ready src s'.ahead := (hW ▸ hs).of_append
    have hlen : s'.ahead.length < bound := by
      have := congrArg List.length hW
      have := List.length_pos_iff.mpr hne
      simp only [List.length_append] at *
      omega
    refine Ends.bind (ends_holding.mpr (atEnd_sound hclose)) ?_
    rintro last s'' (⟨rfl, hbreak, hhead⟩ | ⟨rfl, separator, hsep, ht⟩)
    · -- the closing bracket comes next
      obtain ⟨rest, hrest⟩ : ∃ rest, s''.ahead = close :: rest := by
        cases h : s''.ahead with
        | nil => rw [h] at hhead; cases hhead
        | cons t rest => rw [h, List.head?_cons, Option.some.injEq] at hhead; exact ⟨rest, by rw [hhead]⟩
      rcases hbreak with h | h
      · exact ⟨W, data, rest, by rw [hW, h, hrest], hrest, .last hitem', hdata⟩
      · exact ⟨W ++ [.linefeed], data, rest, by rw [hW, h, hrest]; simp, hrest, .lastBreak hitem',
          hdata⟩
    · -- another element follows the separator
      have hs'' : Ready src s''.ahead := (show [separator] ++ s''.ahead = s'.ahead from ht.symm) ▸
        hs' |>.of_append (W := [separator])
      have hlen'' : s''.ahead.length < bound := by
        rw [ht, List.length_cons] at hlen
        omega
      refine (elementsFrom_sound hitem hstarts hclose bound slots' done' s'' hs'' hlen'').mono ?_
        fun _ _ _ => trivial
      rintro r s₃ ⟨E, data', rest, hE, hrest, hitems, hdata'⟩
      refine ⟨W ++ separator :: E, data ++ data', rest, ?_, hrest, .more hitem' hsep hitems, ?_⟩
      · rw [hW, ht, hE]; simp
      · rw [hdata', hdata, List.append_assoc]

theorem elements_sound (hitem : SoundFor src item sub)
    (hstarts : ∀ type W datum, sub type W datum → W ≠ []) (hclose : close ≠ .endOfFile)
    {slots : Slots} (hs : Ready src s.ahead) (hlen : s.ahead.length < src.size)
    (hhead : s.ahead.head? ≠ some .linefeed) :
    Ends (elements item close slots) src s (fun r s' => ∃ E data,
      s.ahead = E ++ close :: s'.ahead ∧ Body sub slots E data r.1 ∧ Value.data r.2 = data)
      AnyError := by
  unfold elements
  refine (skip_sound hhead).bind ?_
  rintro _ s₁ hs₁
  obtain rfl : s = s₁ := hs₁.symm
  refine Ends.bind (m := fun closed s' => (closed = true ∧ s.ahead = close :: s'.ahead) ∨
    (closed = false ∧ s' = s)) (accept_sound hclose (fun spanned rest ht he => ?_)
      fun _ => .inr ⟨rfl, rfl⟩) ?_
  · exact .inl ⟨rfl, Parsing.ahead_of_tokens ht he⟩
  rintro closed s' (⟨rfl, h⟩ | ⟨rfl, rfl⟩)
  · exact ⟨[], [], h, .empty slots, rfl⟩
  · rw [if_neg (by decide), ends_read]
    refine (elementsFrom_sound hitem hstarts hclose _ slots [] s' hs hlen).bind ?_
    rintro ⟨slots', done⟩ s'' ⟨E, data, rest, hE, hrest, hitems, hdata⟩
    obtain ⟨spanned, spans, ht, -, hspans⟩ := Parsing.tokens_of_ahead hrest
    refine Ends.bind (m := fun _ s₃ => s₃.ahead = rest)
      (ends_holding.mpr (advance_sound ?_)) fun _ s₃ h₃ => ?_
    · simp only [Parsing.ahead, ht, List.tail_cons, hspans]
    · exact ⟨E, data, by rw [h₃, hE], .items hitems, by simpa [Value.data] using hdata⟩

/-! ### Values -/

variable {ctx : TypeContext}

theorem defaultOf_sound (type : TypeIndex) :
    Ends (defaultOf type) src s (fun value s' => s' = s ∧
      defaultDatum? src.ctx type = some value.datum) AnyError := by
  unfold defaultOf
  rw [ends_read, defaultDatum?_eq]
  cases (src.ctx.types.kind? type).bind default? with
  | some value => exact ⟨rfl, rfl⟩
  | none => exact Ends.bind (m := fun _ _ => True) (current_sound fun _ _ => trivial) fun _ _ _ => trivial

theorem defaults_sound : ∀ (types : List TypeIndex) (s : Parsing),
    Ends (types.mapM defaultOf) src s (fun values s' => s' = s ∧
      types.mapM (defaultDatum? src.ctx) = some (Value.data values)) AnyError
  | [], _ => ⟨rfl, rfl⟩
  | type :: types, s => by
    rw [List.mapM_cons]
    refine (defaultOf_sound type).bind ?_
    rintro value s₁ ⟨rfl, hvalue⟩
    refine (defaults_sound types s₁).bind ?_
    rintro values s₂ ⟨rfl, hvalues⟩
    refine ⟨rfl, ?_⟩
    rw [List.mapM_cons, hvalue, hvalues]
    rfl

theorem scalar_sound {token : Token} {datum : Datum} {kind : TypeKind} {make : Parser Value}
    {line : UInt32} {rest : List Spanned} {type : TypeIndex} (ht : s.tokens = ⟨token, line⟩ :: rest)
    (hd : token.datum? = some datum) (hk : ctx.types.kind? type = some kind)
    (hmake : ∀ s', Ends make src s' (fun value s'' => s''.ahead = s'.ahead ∧ value.datum = datum)
      AnyError) :
    Ends (scalar datum.kind kind make) src s (fun value s' => ∃ W,
      s.ahead = W ++ s'.ahead ∧ Rule ctx sub type W value.datum) AnyError := by
  refine Ends.bind (m := fun _ s' => s' = s ∧ Admits kind datum.kind)
    (expectKind_sound fun h => ⟨rfl, h⟩) ?_
  rintro _ s₁ ⟨hs₁, hadmits⟩
  obtain rfl : s = s₁ := hs₁.symm
  refine Ends.bind (m := fun _ s' => s.ahead = token :: s'.ahead) (advance_sound ?_) ?_
  · simp [Parsing.ahead, ht]
  rintro _ s₂ hs₂
  refine (hmake s₂).mono ?_ fun _ _ h => h
  rintro value s₃ ⟨hs₃, hvalue⟩
  exact ⟨[token], by rw [hs₂, hs₃]; rfl, hvalue ▸ .scalar hk hd hadmits⟩

theorem frame_vectorTypes {type : TypeIndex} {descriptor : TypeDescriptor}
    (hd : ctx.types.get? type = some descriptor) (hadmits : Admits descriptor.kind .vector) :
    Frame ctx type [.leftBracket] .rightBracket (vectorTypes type descriptor).1
      (.every (vectorTypes type descriptor).2) := by
  cases descriptor with
  | vector element => exact .vector hd
  | scalar kind => exact .anyVector hd hadmits
  | struct id fields => rcases hadmits with h | h <;> cases h

theorem vectorLiteral_sound {type : TypeIndex} {descriptor : TypeDescriptor} {line : UInt32}
    {rest : List Spanned} (hitem : SoundFor src item sub)
    (hstarts : ∀ type W datum, sub type W datum → W ≠ [])
    (hd : ctx.types.get? type = some descriptor) (ht : s.tokens = ⟨.leftBracket, line⟩ :: rest)
    (hs : Ready src s.ahead) :
    Ends (vectorLiteral item type descriptor) src s (fun value s' => ∃ W,
        s.ahead = W ++ s'.ahead ∧ Rule ctx sub type W value.datum) AnyError := by
  have hahead : s.ahead = .leftBracket :: rest.map (·.token) := Parsing.ahead_of_tokens ht rfl
  refine Ends.bind (m := fun _ s' => s' = s ∧ Admits descriptor.kind .vector)
    (expectKind_sound fun h => ⟨rfl, h⟩) ?_
  rintro _ s₁ ⟨hs₁, hadmits⟩
  obtain rfl : s = s₁ := hs₁.symm
  refine Ends.bind (m := fun _ s' => s'.tokens = rest) (advance_sound (by simp [ht])) ?_
  rintro _ s₁ rfl
  have hready : Ready src (.leftBracket :: s₁.ahead) := hahead ▸ hs
  have hlen : s₁.ahead.length < src.size := by
    have := hready.length_le
    rw [List.length_cons] at this
    omega
  refine (elements_sound hitem hstarts (by decide) (hready.of_append (W := [.leftBracket])) hlen
    (hready.lexical.head?_ne rfl)).bind ?_
  rintro ⟨slots, items⟩ s₂ ⟨E, data, hE, hbody, rfl⟩
  refine ends_newVector.mpr ⟨[.leftBracket] ++ E ++ [.rightBracket], ?_, ?_⟩
  · rw [hahead, show s₁.tokens.map (·.token) = s₁.ahead from rfl, hE]; simp [Parsing.ahead]
  · have hmissing : slots.missing.mapM (defaultDatum? ctx) = some [] := by
      rw [show slots = _ from hbody.every_eq]; rfl
    have hrule := Rule.aggregate (frame_vectorTypes hd hadmits) hbody hmissing
    rwa [List.append_nil] at hrule

theorem structType_sound {type : TypeIndex} {descriptor : TypeDescriptor} {name : String}
    (hsrc : src.ctx = ctx) (hd : ctx.types.get? type = some descriptor)
    (hadmits : Admits descriptor.kind .struct) (hname : name ≠ "") :
    Ends (structType type descriptor name) src s (fun vectorType s' => s' = s ∧ ∀ id fields,
      ctx.types.get? vectorType = some (.struct id fields) →
        Frame ctx type [.name name, .leftCurly] .rightCurly vectorType (.each fields))
      AnyError := by
  unfold structType
  rw [ends_read, hsrc]
  cases descriptor with
  | struct id fields =>
    simp only
    split_ifs with hn
    · refine ⟨rfl, fun id' fields' hd' => ?_⟩
      obtain ⟨rfl, rfl⟩ : id = id' ∧ fields = fields' := by simpa [hd] using hd'
      cases hs : ctx.structName? id with
      | none => exact absurd (by rw [← hn, hs]; rfl) hname
      | some given => exact .struct hd (by rw [hs, ← hn, hs]; rfl)
    · exact fail_sound
  | vector element => rcases hadmits with h | h <;> cases h
  | scalar kind =>
    simp only
    cases hn : ctx.structTypeNamed? name with
    | none => exact fail_sound
    | some found => exact ⟨rfl, fun id fields hf => .anyStruct hd hadmits hn hf⟩

theorem fieldTypes_sound {type : TypeIndex} {name : String} (hsrc : src.ctx = ctx) :
    Ends (fieldTypes type name) src s (fun fields s' => s' = s ∧
      ∃ id, ctx.types.get? type = some (.struct id fields)) AnyError := by
  unfold fieldTypes
  rw [ends_read, hsrc]
  split
  · next id fields h => exact ⟨rfl, id, h⟩
  · exact fail_sound

theorem structLiteral_sound {type : TypeIndex} {descriptor : TypeDescriptor} {name : String}
    {line : UInt32} {rest : List Spanned} (hsrc : src.ctx = ctx) (hitem : SoundFor src item sub)
    (hstarts : ∀ type W datum, sub type W datum → W ≠ [])
    (hd : ctx.types.get? type = some descriptor) (ht : s.tokens = ⟨.name name, line⟩ :: rest)
    (hs : Ready src s.ahead) :
    Ends (structLiteral item type descriptor name) src s (fun value s' => ∃ W,
        s.ahead = W ++ s'.ahead ∧ Rule ctx sub type W value.datum) AnyError := by
  have hahead : s.ahead = .name name :: rest.map (·.token) := Parsing.ahead_of_tokens ht rfl
  have hname : name ≠ "" := hs.lexical.names name (by rw [hahead]; exact List.mem_cons_self)
  refine Ends.bind (m := fun _ s' => s' = s ∧ Admits descriptor.kind .struct)
    (expectKind_sound fun h => ⟨rfl, h⟩) ?_
  rintro _ s₁ ⟨hs₁, hadmits⟩
  obtain rfl : s = s₁ := hs₁.symm
  refine Ends.bind (m := fun _ s' => s'.tokens = rest) (advance_sound (by simp [ht])) ?_
  rintro _ s₁ rfl
  refine Ends.bind (m := fun _ s' => s₁.ahead = .leftCurly :: s'.ahead)
    (expect_sound (by decide) fun _ _ ht he => Parsing.ahead_of_tokens ht he) ?_
  rintro _ s₂ hs₂
  have hall : s.ahead = [.name name, .leftCurly] ++ s₂.ahead := by
    rw [hahead, show s₁.tokens.map (·.token) = s₁.ahead from rfl, hs₂]; rfl
  have hready : Ready src (.leftCurly :: s₂.ahead) := (hall ▸ hs).of_append (W := [.name name])
  have hlen : s₂.ahead.length < src.size := by
    have := hready.length_le
    rw [List.length_cons] at this
    omega
  refine (structType_sound hsrc hd hadmits hname).bind ?_
  rintro vectorType s₃ ⟨rfl, hframe⟩
  refine (fieldTypes_sound hsrc).bind ?_
  rintro fields s₄ ⟨rfl, id, hfields⟩
  refine (elements_sound hitem hstarts (by decide) (hready.of_append (W := [.leftCurly])) hlen
    (hready.lexical.head?_ne rfl)).bind ?_
  rintro ⟨slots, items⟩ s₅ ⟨E, data, hE, hbody, rfl⟩
  refine Ends.bind (ends_holding.mpr (defaults_sound slots.missing s₅)) ?_
  rintro defaults s₆ ⟨rfl, hdefaults⟩
  refine ends_newVector.mpr ⟨[.name name, .leftCurly] ++ E ++ [.rightCurly], ?_, ?_⟩
  · rw [hall, hE]; simp [Parsing.ahead]
  · have hrule := Rule.aggregate (hframe id fields hfields) hbody (hsrc ▸ hdefaults)
    simpa [Store.newVector, Value.datum, Value.data_eq_map] using hrule

theorem negated_sound {type : TypeIndex} {kind : TypeKind} {line : UInt32} {rest : List Spanned}
    (hitem : SoundFor src item sub) (hk : ctx.types.kind? type = some kind)
    (ht : s.tokens = ⟨.minus, line⟩ :: rest) (hs : Ready src s.ahead) :
    Ends (negated item type kind) src s (fun value s' => ∃ W,
        s.ahead = W ++ s'.ahead ∧ Rule ctx sub type W value.datum) AnyError := by
  have hahead : s.ahead = [.minus] ++ rest.map (·.token) := Parsing.ahead_of_tokens ht rfl
  refine Ends.bind (m := fun _ s' => s'.tokens = rest) (advance_sound (by simp [ht])) ?_
  rintro _ s₁ rfl
  refine (hitem type s₁ (hahead ▸ hs).of_append).bind ?_
  rintro operand s₂ ⟨W, hW, hsub⟩
  split
  · next negated hn =>
    split_ifs at hn with hkind
    refine ⟨.minus :: W, by rw [hahead]; exact congrArg (.minus :: ·) hW, .minus hk ?_ hsub ?_⟩
    · simpa [Signs] using hkind
    · rw [Value.negate?_datum, hn]; rfl
  · exact ends_holding.mpr fail_sound

theorem literal_sound {type : TypeIndex} {descriptor : TypeDescriptor} {token : Token} {line : UInt32}
    {rest : List Spanned} (hsrc : src.ctx = ctx) (hitem : SoundFor src item sub)
    (hstarts : ∀ type W datum, sub type W datum → W ≠ []) (hd : ctx.types.get? type = some descriptor)
    (ht : s.tokens = ⟨token, line⟩ :: rest) (hs : Ready src s.ahead) :
    Ends (literal item type descriptor token) src s (fun value s' => ∃ W,
        s.ahead = W ++ s'.ahead ∧ Rule ctx sub type W value.datum) AnyError := by
  have hk : ctx.types.kind? type = some descriptor.kind := by
    rw [TypeTable.kind?, hd]; rfl
  cases token with
  | int n => exact scalar_sound ht (show _ = some (Datum.int n) from rfl) hk fun s' => ⟨rfl, rfl⟩
  | float x => exact scalar_sound ht (show _ = some (Datum.float x) from rfl) hk fun s' => ⟨rfl, rfl⟩
  | string text =>
    exact scalar_sound ht (show _ = some (Datum.string text) from rfl) hk fun s' =>
      ends_newString.mpr ⟨rfl, rfl⟩
  | nil => exact scalar_sound ht (show _ = some Datum.nil from rfl) hk fun s' => ⟨rfl, rfl⟩
  | minus => exact negated_sound hitem hk ht hs
  | leftBracket => exact vectorLiteral_sound hitem hstarts hd ht hs
  | name name => exact structLiteral_sound hsrc hitem hstarts hd ht hs
  | _ => exact fail_sound

/-- **What is parsed is a literal of the type** and derives the datum of the value. -/
theorem value_sound (hsrc : src.ctx = ctx) :
    ∀ depth, SoundFor src (value depth) (Derives ctx depth)
  | 0 => fun type s _ => fail_sound
  | depth + 1 => by
    intro type s hs
    unfold value
    rw [ends_read, hsrc]
    cases hd : ctx.types.get? type with
    | none => exact fail_sound
    | some descriptor =>
      refine Ends.bind (m := fun spanned s' => s' = s ∧
        ((∃ rest, s.tokens = spanned :: rest) ∨ spanned.token = .endOfFile))
        (current_sound fun spanned h => ⟨rfl, h⟩) ?_
      rintro ⟨token, line⟩ s' ⟨hs', ⟨rest, ht⟩ | hend⟩
      · obtain rfl : s = s' := hs'.symm
        exact literal_sound hsrc (value_sound hsrc depth) (fun _ _ _ h => h.ne_nil) hd ht hs
      · obtain rfl : token = .endOfFile := hend
        exact fail_sound

end Parser

end Wordcode.Literal
