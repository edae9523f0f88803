import Wordcode.Proofs.Literal.Plain
import Wordcode.Proofs.Literal.Tokens

/-! # Struct literals that are refused

The parser has two reasons of its own against a struct literal. Its name may be none that can stand there
(`Misnames`), which is noticed behind the opening brace, or it leaves out a field that has no default value
(`Lacks`), which is noticed behind the closing one. What stands in front of such a literal leads to it: minus
signs, opening brackets, and elements with their separators (`Leads`). Whenever the parser fails for one of these
reasons, it stands right behind the brace of a literal that has the reason, and the error has the line of the
token that comes next (`Parser.wholeText_blames`). -/

namespace Wordcode.Literal

/-- The type at which the next element is read: that of its slot, or `Any` where there is none. -/
def Parser.Slots.nextType (slots : Parser.Slots) : TypeIndex :=
  match slots.next? with
  | some (type, _) => type
  | none => .any

/-- Elements in front of another one, each with its separator. -/
inductive Front (sub : Derivation) : Parser.Slots → List Token → Parser.Slots → Prop
  | none (slots : Parser.Slots) : Front sub slots [] slots
  | more {slots slots' slots'' : Parser.Slots} {W E : List Token} {data : List Datum} {separator : Token}
    (item : Item sub slots W data slots') (separates : separator = .comma ∨ separator = .linefeed)
    (rest : Front sub slots' E slots'') : Front sub slots (W ++ separator :: E) slots''

/-- The tokens lead from the start of a value, of a type and with a limit, to the start of a value inside of it,
of another type and with what is left of the limit. -/
inductive Leads (ctx : TypeContext) : Nat → TypeIndex → List Token → Nat → TypeIndex → Prop
  | here (depth : Nat) (type : TypeIndex) : Leads ctx depth type [] depth type
  | minus {depth depth' : Nat} {type type' : TypeIndex} {kind : TypeKind} {W : List Token}
    (known : ctx.types.kind? type = some kind) (inner : Leads ctx depth type W depth' type') :
    Leads ctx (depth + 1) type (.minus :: W) depth' type'
  | element {depth depth' : Nat} {type type' vectorType : TypeIndex} {opening E W : List Token}
    {close : Token} {slots slots' : Parser.Slots} (frame : Frame ctx type opening close vectorType slots)
    (front : Front (Derives ctx depth) slots E slots')
    (inner : Leads ctx depth slots'.nextType W depth' type') :
    Leads ctx (depth + 1) type (opening ++ E ++ W) depth' type'

/-- A struct literal of the type leaves out a field that has no default value. -/
inductive Lacks (ctx : TypeContext) : Nat → TypeIndex → List Token → Prop
  | intro {depth : Nat} {type vectorType field : TypeIndex} {opening E : List Token}
    {slots slots' : Parser.Slots} {data : List Datum}
    (frame : Frame ctx type opening .rightCurly vectorType slots)
    (body : Body (Derives ctx depth) slots E data slots') (missing : field ∈ slots'.missing)
    (noDefault : defaultDatum? ctx field = none) :
    Lacks ctx (depth + 1) type (opening ++ E ++ [.rightCurly])

/-- No struct literal of the name can stand at the type: another struct is required, or there is none of the
name. -/
inductive Misnames (ctx : TypeContext) (type : TypeIndex) (name : String) : SyntaxFault → Prop
  | mismatch {id : StructIndex} {fields : List TypeIndex}
    (described : ctx.types.get? type = some (.struct id fields))
    (differs : (ctx.structName? id).getD "" ≠ name) :
    Misnames ctx type name (.structMismatch ((ctx.structName? id).getD "") name)
  | unknown {kind : TypeKind} (described : ctx.types.get? type = some (.scalar kind))
    (admits : Admits kind .struct) (none : ctx.structTypeNamed? name = none) :
    Misnames ctx type name (.unknownStruct name)

/-- The tokens of a struct literal up to the brace behind which the parser refuses it, and the error, whatever
its line. -/
inductive Refuses (ctx : TypeContext) : Nat → TypeIndex → List Token → ParseError → Prop
  | lacking {depth : Nat} {type : TypeIndex} {V : List Token} (line : UInt32) (lacks : Lacks ctx depth type V) :
    Refuses ctx depth type V (.noDefault line)
  | misnamed {depth : Nat} {type : TypeIndex} {name : String} {cause : SyntaxFault} (line : UInt32)
    (misnames : Misnames ctx type name cause) :
    Refuses ctx (depth + 1) type [.name name, .leftCurly] (.syntaxError line cause)

/-- The tokens of a value up to a struct literal in it that is refused, and of that literal. -/
def Refused (ctx : TypeContext) (depth : Nat) (type : TypeIndex) (U : List Token) (fault : ParseError) : Prop :=
  ∃ W V depth' type', U = W ++ V ∧ Leads ctx depth type W depth' type' ∧ Refuses ctx depth' type' V fault

/-- The tokens of elements up to one that is refused, and of that one as far as it is read. -/
def RefusedItem (sub : Derivation) (inner : TypeIndex → List Token → ParseError → Prop) (slots : Parser.Slots)
    (U : List Token) (fault : ParseError) : Prop :=
  ∃ E W slots', U = E ++ W ∧ Front sub slots E slots' ∧ inner slots'.nextType W fault

theorem RefusedItem.refused {ctx : TypeContext} {depth : Nat} {type vectorType : TypeIndex}
    {opening U : List Token} {close : Token} {slots : Parser.Slots} {fault : ParseError}
    (h : RefusedItem (Derives ctx depth) (Refused ctx depth) slots U fault)
    (frame : Frame ctx type opening close vectorType slots) :
    Refused ctx (depth + 1) type (opening ++ U) fault := by
  obtain ⟨E, _, slots', rfl, front, W, V, depth', type', rfl, leads, refuses⟩ := h
  exact ⟨opening ++ E ++ W, V, depth', type', by simp, .element frame front leads, refuses⟩

/-- The cause is the name of a struct literal. -/
def SyntaxFault.OfName : SyntaxFault → Prop
  | .structMismatch .. | .unknownStruct _ => True
  | _ => False

/-- The error is about the name or the fields of a struct literal. -/
def ParseError.OfStruct : ParseError → Prop
  | .syntaxError _ cause => cause.OfName
  | .noDefault _ => True

/-- The tokens do not end for a struct literal. -/
def Source.Structless (src : Source) : Prop := ∀ fault, src.ending = .error fault → ¬ fault.OfStruct

theorem Source.ofText_structless (ctx : TypeContext) (heap : HeapId) (text : String) :
    (Source.ofText ctx heap text).Structless := by
  rintro fault hfault
  obtain ⟨line, cause, rfl⟩ := Lexer.ending_error hfault
  exact id

namespace Parser

variable {α β : Type} {src : Source} {s : Parsing} {ctx : TypeContext}
  {base : List Spanned} {refusal refusal' : List Token → ParseError → Prop}

/-! ### Where errors are raised -/

/-- The step moves over tokens of `base` at most. If it fails for a struct literal, then behind tokens that
`refusal` tells of, and with the line of the next token. -/
def Blames (src : Source) (base : List Spanned) (refusal : List Token → ParseError → Prop) (step : Parser α)
    (s : Parsing) : Prop :=
  Ends step src s (fun _ s' => s'.tokens <:+ base) fun fault s' => s'.tokens <:+ base ∧ (fault.OfStruct →
    ∃ U token, base.map (·.token) = U ++ s'.ahead ∧ refusal U fault ∧
      src.current s'.tokens = .ok ⟨token, fault.line⟩)

/-- What is parsed of an item from here on. -/
def BlamesFor (src : Source) (item : TypeIndex → Parser Value)
    (refusal : TypeIndex → List Token → ParseError → Prop) : Prop :=
  ∀ type s, Ready src s.ahead → Blames src s.tokens (refusal type) (item type) s

theorem blames_pure {a : α} (hs : s.tokens <:+ base) : Blames src base refusal (pure a) s := hs

theorem Blames.bind {x : Parser β} {f : β → Parser α} {m : β → Parsing → Prop}
    (hx : Blames src base refusal x s) (hm : Ends x src s m AnyError)
    (hf : ∀ b s', s'.tokens <:+ base → m b s' → Blames src base refusal (f b) s') :
    Blames src base refusal (x >>= f) s :=
  Ends.bind ((Ends.and hx hm).mono (fun _ _ h => h) fun _ _ h => h.1) fun b s' h => hf b s' h.1 h.2

theorem Blames.holding {step : Parser α} (h : Blames src base refusal step s) (values : List Value) :
    Blames src base refusal (holding values step) s := ends_holding.mpr h

/-- The errors of a step behind some of the tokens. -/
theorem Blames.behind {step : Parser α} {W : List Token} (h : Blames src s.tokens refusal step s)
    (hs : s.tokens <:+ base) (hbase : base.map (·.token) = W ++ s.ahead)
    (hW : ∀ U fault, refusal U fault → refusal' (W ++ U) fault) : Blames src base refusal' step s := by
  refine Ends.mono h (fun _ s' hs' => hs'.trans hs) fun fault s' => ?_
  rintro ⟨hs', hblame⟩
  refine ⟨hs'.trans hs, fun hfault => ?_⟩
  obtain ⟨U, token, hU, hrefusal, hcurrent⟩ := hblame hfault
  exact ⟨W ++ U, token, by rw [hbase, List.append_assoc, ← hU]; rfl, hW U fault hrefusal, hcurrent⟩

section Structless
variable (hsrc : src.Structless)
include hsrc

/-- A step with other errors fails for no struct literal. -/
theorem Raises.blames {step : Parser α} (h : Raises (¬ ParseError.OfStruct ·) step) (hs : s.tokens <:+ base) :
    Blames src base refusal step s := by
  refine Ends.mono (h src s) (fun _ s' hs' => hs'.trans hs) fun fault s' => ?_
  rintro ⟨hs', hfault⟩
  exact ⟨hs'.trans hs, fun hstruct => absurd hstruct (hfault.elim (hsrc fault) id)⟩

theorem throw_blames {U : List Token} {raise : UInt32 → ParseError} (hs : s.tokens <:+ base)
    (hbase : base.map (·.token) = U ++ s.ahead) (hline : ∀ line, (raise line).line = line)
    (hrefusal : ∀ line, refusal U (raise line)) :
    Blames src base refusal (do throw (raise (← current).line) : Parser α) s := by
  refine ends_bind.mpr (ends_current.mpr ?_)
  cases hc : src.current s.tokens with
  | ok spanned => exact ⟨hs, fun _ => ⟨U, spanned.token, hbase, hrefusal _, by rw [hline, hc]⟩⟩
  | error fault => exact ⟨hs, fun hstruct => absurd hstruct (hsrc fault (Source.ending_of_current_error hc))⟩

/-! ### Elements -/

section Elements
variable {item : TypeIndex → Parser Value} {sub : Derivation}
  {inner : TypeIndex → List Token → ParseError → Prop} (hitem : SoundFor src item sub)
  (hblame : BlamesFor src item inner) {close : Token} (hclose : close ≠ .endOfFile)

include hblame in
theorem element_blames {slots : Slots} {done : List Value} (hs : Ready src s.ahead) :
    Blames src s.tokens (inner slots.nextType) (element item slots done) s := by
  unfold element Slots.nextType
  cases hslot : slots.next? with
  | some next =>
    exact Ends.bind (hblame _ s hs) fun _ s' hs' => blames_pure hs'
  | none =>
    exact Ends.bind (hblame .any s hs) fun value s' hs' =>
      ((raises_drop [value]).bind fun _ => raises_pure _).blames hsrc hs'

include hitem hblame hclose

theorem elementsFrom_blames : ∀ (bound : Nat) (slots : Slots) (done : List Value) (s : Parsing),
    Ready src s.ahead → s.ahead.length < bound →
      Blames src s.tokens (RefusedItem sub inner slots) (elementsFrom item close bound slots done) s
  | 0, _, _, _, _, hb => by omega
  | bound + 1, slots, done, s, hs, hb => by
    unfold elementsFrom
    have hfirst : Blames src s.tokens (RefusedItem sub inner slots) (element item slots done) s :=
      (element_blames hsrc hblame hs).behind (W := []) List.suffix_rfl rfl
        fun U fault h => ⟨[], U, slots, rfl, .none slots, h⟩
    refine (hfirst.holding done).bind (ends_holding.mpr (element_sound hitem hs)) ?_
    rintro ⟨slots', done'⟩ s' hs' ⟨W, data, hW, hitem', -⟩
    refine (((raises_atEnd (fun _ _ _ => id) close).holding done').blames hsrc hs').bind
      (ends_holding.mpr (atEnd_sound hclose)) ?_
    rintro last s'' hs'' (⟨rfl, -⟩ | ⟨rfl, separator, hsep, ht⟩)
    · exact blames_pure hs''
    · -- another element follows the separator
      have hahead : s.ahead = (W ++ [separator]) ++ s''.ahead := by
        rw [hW, ht, List.append_assoc]
        rfl
      have hlen : s''.ahead.length < bound := by
        rw [hahead, List.length_append, List.length_append, List.length_singleton] at hb
        omega
      refine (elementsFrom_blames bound slots' done' s'' (hahead ▸ hs).of_append hlen).behind hs'' hahead ?_
      rintro _ fault ⟨E, W', slots'', rfl, front, hrefused⟩
      exact ⟨W ++ separator :: E, W', slots'', by simp, .more hitem' hsep front, hrefused⟩

theorem elements_blames {slots : Slots} (hs : Ready src s.ahead) (hlen : s.ahead.length < src.size)
    (hhead : s.ahead.head? ≠ some .linefeed) :
    Blames src s.tokens (RefusedItem sub inner slots) (elements item close slots) s := by
  unfold elements
  refine ((raises_accept _).discard.blames hsrc List.suffix_rfl).bind (skip_sound hhead) ?_
  rintro _ s₁ - hs₁
  obtain rfl : s = s₁ := hs₁.symm
  refine Blames.bind (m := fun closed s' => closed = true ∨ s' = s)
    ((raises_accept close).blames hsrc List.suffix_rfl) (accept_sound hclose (fun _ _ _ _ => .inl rfl)
      fun _ => .inr rfl) ?_
  rintro closed s' hs' h
  cases closed with
  | true => exact blames_pure hs'
  | false =>
    obtain rfl : s = s' := (h.resolve_left Bool.false_ne_true).symm
    refine ends_read.mpr (Ends.bind
      (elementsFrom_blames hsrc hitem hblame hclose src.size slots [] s hs hlen) fun r s'' hs'' => ?_)
    exact ((raises_advance.holding r.2).bind fun _ => raises_pure _).blames hsrc hs''

end Elements

/-! ### Names and defaults -/

/-- The name of a struct literal is checked behind its opening brace. -/
theorem structType_blames (hctx : src.ctx = ctx) {depth : Nat} {type : TypeIndex} {descriptor : TypeDescriptor}
    {name : String} (hd : ctx.types.get? type = some descriptor) (hadmits : Admits descriptor.kind .struct)
    (hs : s.tokens <:+ base) (hbase : base.map (·.token) = [.name name, .leftCurly] ++ s.ahead) :
    Blames src base (Refused ctx (depth + 1) type) (structType type descriptor name) s := by
  have hrefused : ∀ cause, Misnames ctx type name cause → ∀ line,
      Refused ctx (depth + 1) type [.name name, .leftCurly] (.syntaxError line cause) :=
    fun cause hcause line => ⟨[], _, _, _, rfl, .here _ _, .misnamed line hcause⟩
  unfold structType
  refine ends_read.mpr ?_
  rw [hctx]
  cases descriptor with
  | struct id fields =>
    dsimp only
    split_ifs with hname
    · exact blames_pure hs
    · exact throw_blames hsrc hs hbase (fun _ => rfl) (hrefused _ (.mismatch hd hname))
  | vector element => rcases hadmits with h | h <;> cases h
  | scalar kind =>
    dsimp only
    cases hfound : ctx.structTypeNamed? name with
    | some found => exact blames_pure hs
    | none => exact throw_blames hsrc hs hbase (fun _ => rfl) (hrefused _ (.unknown hd hadmits hfound))

section Defaults
variable (hctx : src.ctx = ctx) {U : List Token} (hs : s.tokens <:+ base)
  (hbase : base.map (·.token) = U ++ s.ahead)
include hctx hs hbase

theorem defaultOf_blames {field : TypeIndex}
    (hnone : defaultDatum? ctx field = none → ∀ line, refusal U (.noDefault line)) :
    Blames src base refusal (defaultOf field) s := by
  unfold defaultOf
  refine ends_read.mpr ?_
  cases hdefault : (src.ctx.types.kind? field).bind default? with
  | some value => exact blames_pure hs
  | none =>
    refine throw_blames hsrc hs hbase (fun _ => rfl) (hnone ?_)
    rw [defaultDatum?_eq, ← hctx, hdefault, Option.map_none]

theorem defaults_blames : ∀ {types : List TypeIndex},
    (∀ field ∈ types, defaultDatum? ctx field = none → ∀ line, refusal U (.noDefault line)) →
      Blames src base refusal (types.mapM defaultOf) s
  | [], _ => blames_pure hs
  | field :: types, hnone => by
    obtain ⟨hfirst, hothers⟩ := List.forall_mem_cons.mp hnone
    rw [List.mapM_cons]
    refine (defaultOf_blames hsrc hctx hs hbase hfirst).bind (defaultOf_sound field) ?_
    rintro value s₁ - ⟨hs₁, -⟩
    obtain rfl : s = s₁ := hs₁.symm
    exact Ends.bind (defaults_blames hothers) fun _ _ h => blames_pure h

end Defaults

/-! ### Values -/

section Values
variable {depth : Nat} {item : TypeIndex → Parser Value} {type : TypeIndex} {descriptor : TypeDescriptor}
  {line : UInt32} {rest : List Spanned} (hs : Ready src s.ahead)
include hs

theorem negated_blames {kind : TypeKind} (hblame : BlamesFor src item (Refused ctx depth))
    (known : ctx.types.kind? type = some kind) (ht : s.tokens = ⟨.minus, line⟩ :: rest) :
    Blames src s.tokens (Refused ctx (depth + 1) type) (negated item type kind) s := by
  have hahead : s.ahead = [.minus] ++ rest.map (·.token) := Parsing.ahead_of_tokens ht rfl
  refine (raises_advance.blames hsrc List.suffix_rfl).bind (m := fun _ s' => s'.tokens = rest)
    (advance_sound (by simp [ht])) ?_
  rintro _ s₁ hs₁ rfl
  refine Ends.bind ((hblame type s₁ (hahead ▸ hs).of_append).behind hs₁ hahead ?_) fun operand s₂ hs₂ => ?_
  · rintro _ fault ⟨W, V, depth', type', rfl, leads, refuses⟩
    exact ⟨.minus :: W, V, depth', type', rfl, .minus known leads, refuses⟩
  · split
    · exact blames_pure hs₂
    · have hfail : Raises (¬ ParseError.OfStruct ·) (fail .notNumeric : Parser Value) := raises_fail fun _ => id
      exact (hfail.holding _).blames hsrc hs₂

section Items
variable (hitem : SoundFor src item (Derives ctx depth)) (hblame : BlamesFor src item (Refused ctx depth))
  (hd : ctx.types.get? type = some descriptor)
include hitem hblame hd

theorem vectorLiteral_blames (ht : s.tokens = ⟨.leftBracket, line⟩ :: rest) :
    Blames src s.tokens (Refused ctx (depth + 1) type) (vectorLiteral item type descriptor) s := by
  have hahead : s.ahead = [.leftBracket] ++ rest.map (·.token) := Parsing.ahead_of_tokens ht rfl
  refine ((raises_expectKind fun _ => id).blames hsrc List.suffix_rfl).bind
    (m := fun _ s' => s' = s ∧ Admits descriptor.kind .vector) (expectKind_sound fun h => ⟨rfl, h⟩) ?_
  rintro _ s₁ - ⟨hs₁, hadmits⟩
  obtain rfl : s = s₁ := hs₁.symm
  refine (raises_advance.blames hsrc List.suffix_rfl).bind (m := fun _ s' => s'.tokens = rest)
    (advance_sound (by simp [ht])) ?_
  rintro _ s₁ hs₁ rfl
  have hready : Ready src ([.leftBracket] ++ s₁.ahead) := hahead ▸ hs
  have hlen : s₁.ahead.length < src.size := hready.length_le
  have helements : Blames src s.tokens (Refused ctx (depth + 1) type)
      (elements item .rightBracket (.every (vectorTypes type descriptor).2)) s₁ :=
    (elements_blames hsrc hitem hblame (by decide) hready.of_append hlen (hready.lexical.head?_ne rfl)).behind
      hs₁ hahead fun U fault h => h.refused (frame_vectorTypes hd hadmits)
  exact Ends.bind helements fun r s₂ hs₂ => (raises_newVector _ _).blames hsrc hs₂

variable (hctx : src.ctx = ctx)
include hctx

theorem structLiteral_blames {name : String} (ht : s.tokens = ⟨.name name, line⟩ :: rest) :
    Blames src s.tokens (Refused ctx (depth + 1) type) (structLiteral item type descriptor name) s := by
  have hahead : s.ahead = .name name :: rest.map (·.token) := Parsing.ahead_of_tokens ht rfl
  have hname : name ≠ "" := hs.lexical.names name (by rw [hahead]; exact List.mem_cons_self)
  refine ((raises_expectKind fun _ => id).blames hsrc List.suffix_rfl).bind
    (m := fun _ s' => s' = s ∧ Admits descriptor.kind .struct) (expectKind_sound fun h => ⟨rfl, h⟩) ?_
  rintro _ s₁ - ⟨hs₁, hadmits⟩
  obtain rfl : s = s₁ := hs₁.symm
  refine (raises_advance.blames hsrc List.suffix_rfl).bind (m := fun _ s' => s'.tokens = rest)
    (advance_sound (by simp [ht])) ?_
  rintro _ s₁ hs₁ rfl
  refine ((raises_expect (fun _ _ _ => id) _).blames hsrc hs₁).bind
    (m := fun _ s' => s₁.ahead = .leftCurly :: s'.ahead)
    (expect_sound (by decide) fun _ _ ht he => Parsing.ahead_of_tokens ht he) ?_
  rintro _ s₂ hs₂ hcurly
  have hopening : s.ahead = [.name name, .leftCurly] ++ s₂.ahead := by
    rw [hahead, show s₁.tokens.map (·.token) = s₁.ahead from rfl, hcurly]
    rfl
  have hready : Ready src ([.leftCurly] ++ s₂.ahead) := (hopening ▸ hs).of_append (W := [.name name])
  have hlen : s₂.ahead.length < src.size := hready.length_le
  refine (structType_blames hsrc hctx hd hadmits hs₂ hopening).bind
    (structType_sound hctx hd hadmits hname) ?_
  rintro vectorType s₃ hs₃ ⟨rfl, hframe⟩
  refine ((raises_fieldTypes fun _ => id).blames hsrc hs₃).bind (fieldTypes_sound hctx) ?_
  rintro fields s₄ hs₄ ⟨rfl, id, hfields⟩
  have helements : Blames src s.tokens (Refused ctx (depth + 1) type)
      (elements item .rightCurly (.each fields)) s₄ :=
    (elements_blames hsrc hitem hblame (by decide) hready.of_append hlen (hready.lexical.head?_ne rfl)).behind
      hs₄ hopening fun U fault h => h.refused (hframe id fields hfields)
  refine helements.bind (elements_sound hitem (fun _ _ _ h => h.ne_nil) (by decide) hready.of_append hlen
    (hready.lexical.head?_ne rfl)) ?_
  rintro ⟨slots, items⟩ s₅ hs₅ ⟨E, data, hE, hbody, -⟩
  have hclosed : s.ahead = ([.name name, .leftCurly] ++ E ++ [.rightCurly]) ++ s₅.ahead := by
    rw [hopening, hE]
    simp
  have hlacks : ∀ field ∈ slots.missing, defaultDatum? ctx field = none → ∀ line,
      Refused ctx (depth + 1) type ([.name name, .leftCurly] ++ E ++ [.rightCurly]) (.noDefault line) :=
    fun field hmissing hnone line => ⟨[], _, _, _, rfl, .here _ _,
      .lacking line (.intro (hframe id fields hfields) hbody hmissing hnone)⟩
  exact Ends.bind ((defaults_blames hsrc hctx hs₅ hclosed hlacks).holding items) fun _ s₆ hs₆ =>
    (raises_newVector _ _).blames hsrc hs₆

theorem literal_blames {token : Token} (ht : s.tokens = ⟨token, line⟩ :: rest) :
    Blames src s.tokens (Refused ctx (depth + 1) type) (literal item type descriptor token) s := by
  cases token with
  | int | float | nil => exact (raises_scalar (fun _ => id) (raises_pure _)).blames hsrc List.suffix_rfl
  | string text => exact (raises_scalar (fun _ => id) (raises_newString text)).blames hsrc List.suffix_rfl
  | minus =>
    have known : ctx.types.kind? type = some descriptor.kind := by rw [TypeTable.kind?, hd]; rfl
    exact negated_blames hsrc hs hblame known ht
  | leftBracket => exact vectorLiteral_blames hsrc hs hitem hblame hd ht
  | name name => exact structLiteral_blames hsrc hs hitem hblame hd hctx ht
  | _ => exact (raises_fail fun _ => id).blames hsrc List.suffix_rfl

end Items

end Values

/-- **A value is refused only for a literal in it** that has a wrong name or lacks a field. -/
theorem value_blames (hctx : src.ctx = ctx) : ∀ depth, BlamesFor src (value depth) (Refused ctx depth)
  | 0 => fun type s _ => (raises_fail fun _ => id).blames hsrc List.suffix_rfl
  | depth + 1 => by
    intro type s hs
    unfold value
    refine ends_read.mpr ?_
    rw [hctx]
    cases hd : ctx.types.get? type with
    | none => exact (raises_fail fun _ => id).blames hsrc List.suffix_rfl
    | some descriptor =>
      refine Blames.bind (m := fun spanned s' => s' = s ∧
        ((∃ rest, s.tokens = spanned :: rest) ∨ spanned.token = .endOfFile))
        (raises_current.blames hsrc List.suffix_rfl) (current_sound fun spanned h => ⟨rfl, h⟩) ?_
      rintro ⟨token, line⟩ s' - ⟨hs', ⟨rest, ht⟩ | hend⟩
      · obtain rfl : s = s' := hs'.symm
        exact literal_blames hsrc hs (value_sound hctx depth) (value_blames hctx depth) hd hctx ht
      · obtain rfl : s = s' := hs'.symm
        obtain rfl : token = .endOfFile := hend
        exact (raises_fail fun _ => id).blames hsrc List.suffix_rfl

theorem wholeText_blames (hctx : src.ctx = ctx) {depth : Nat} {type : TypeIndex} (hs : Ready src s.ahead) :
    Blames src s.tokens (Refused ctx depth type) (wholeText depth type) s := by
  unfold wholeText
  refine (raises_current.discard.blames hsrc List.suffix_rfl).bind (m := fun _ s' => s' = s)
    (ends_discard.mpr (current_sound fun _ _ => rfl)) ?_
  rintro _ s₁ - hs₁
  obtain rfl : s = s₁ := hs₁.symm
  refine Ends.bind (value_blames hsrc hctx depth type s hs) fun value s₂ hs₂ => ?_
  exact (((raises_end fun _ _ _ => id).holding [value]).bind fun _ => raises_pure _).blames hsrc hs₂

end Structless

theorem wholeText_ofText_blames (ctx : TypeContext) (heap : HeapId) (depth : Nat) (type : TypeIndex) (text : String)
    (store : Store) : Blames (.ofText ctx heap text) (Lexed.ofText text).tokens (Refused ctx depth type)
      (wholeText depth type) (.ofText text store) :=
  wholeText_blames (Source.ofText_structless ctx heap text) rfl (ready_ofText ctx heap text store)

end Parser

end Wordcode.Literal
