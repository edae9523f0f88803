import Wordcode.Proofs.LineTable
import Wordcode.Proofs.Literal.Plain
import Wordcode.Proofs.Literal.Typing

/-! # Literals of verified modules

The parser looks up the types that the table refers to, and the built-in types of every value and of vectors
of them, which it names by fixed indices. The verifier checks the former. It does not look for the built-in
types, so a verified module can do without them, and then literals fail for a type that is not there, or are
tagged with one (`verified_without_builtins`). Where the index of vectors does describe vectors, nothing of
the kind happens, whatever the text (`verified_parse`). -/

namespace Wordcode

namespace TypeTable

/-- All types that are looked up from a type of the table are in the table. -/
structure Closed (types : TypeTable) : Prop where
  any : TypeIndex.any.toNat < types.size
  element : ∀ {type element}, types.get? type = some (.vector element) → element.toNat < types.size
  fields : ∀ {type id fields}, types.get? type = some (.struct id fields) →
    ∀ field ∈ fields, field.toNat < types.size

/-- The entry at the index describes vectors of this length. -/
def DescribesVector (types : TypeTable) (type : TypeIndex) (length : Nat) : Prop :=
  (∃ element, types.get? type = some (.vector element)) ∨
    ∃ id fields, types.get? type = some (.struct id fields) ∧ fields.length = length

theorem get?_isSome {types : TypeTable} {type : TypeIndex} (h : type.toNat < types.size) :
    ∃ descriptor, types.get? type = some descriptor :=
  ⟨_, Array.getElem?_eq_getElem h⟩

theorem lt_size_of_get? {types : TypeTable} {type : TypeIndex} {descriptor : TypeDescriptor}
    (h : types.get? type = some descriptor) : type.toNat < types.size :=
  (Array.getElem?_eq_some_iff.mp h).1

end TypeTable

namespace Literal

/-! ### Tags -/

/-- Vectors in a datum of a type are described by the entries that they are tagged with. -/
theorem HasType.describesVector {types : TypeTable} {type : TypeIndex} {datum : Datum}
    (hvector : ∃ element, types.get? .vectorAny = some (.vector element)) (h : HasType types type datum) :
    ∀ part ∈ datum.parts, ∀ tag elements, part = .vector tag elements →
      types.DescribesVector tag elements.length := by
  induction h with
  | single _ plain | anySingle _ plain =>
    rintro part hpart tag elements rfl
    rw [← Datum.mem_parts_plain plain hpart] at plain
    exact absurd rfl plain
  | vector described _ ih =>
    refine Datum.forall_parts_vector.mpr ⟨?_, ih⟩
    rintro tag elements ⟨⟩
    exact .inl ⟨_, described⟩
  | anyVector _ _ ih =>
    refine Datum.forall_parts_vector.mpr ⟨?_, ih⟩
    rintro tag elements ⟨⟩
    exact .inl hvector
  | @struct type id fields elements described size _ ih =>
    refine Datum.forall_parts_vector.mpr ⟨?_, fun element helement => ?_⟩
    · rintro tag elements ⟨⟩
      exact .inr ⟨id, fields, described, size.symm⟩
    · obtain ⟨i, hi, rfl⟩ := List.getElem_of_mem helement
      have hfield : i < fields.length := by omega
      exact ih i _ _ (List.getElem?_eq_getElem hfield) (List.getElem?_eq_getElem hi)
  | anyStruct _ _ _ ih => exact ih

/-! ### Errors -/

/-- The error is that a type is not in the table. -/
def ParseError.IsUnknownType (fault : ParseError) : Prop :=
  ∃ line type, fault = .syntaxError line (.unknownType type)

theorem ParseError.Ordinary.not_isUnknownType {fault : ParseError} (h : fault.Ordinary) :
    ¬ fault.IsUnknownType := by
  rintro ⟨line, type, rfl⟩
  exact h.2 type rfl

namespace Parser

variable {α β : Type} {ctx : TypeContext} {step : Parser α} {post : α → Prop}

/-- The step ends with a result that `post` holds of, or with another error than that a type is not in the
table, as long as that is not the fault at which the tokens end. -/
def Finds (ctx : TypeContext) (step : Parser α) (post : α → Prop) : Prop :=
  ∀ src s, src.ctx = ctx → (∀ fault, src.ending = .error fault → ¬ fault.IsUnknownType) →
    Ends step src s (fun a _ => post a) fun fault _ => ¬ fault.IsUnknownType

theorem finds_pure {a : α} (h : post a) : Finds ctx (pure a) post := fun _ _ _ _ => h

theorem Finds.bind {x : Parser β} {f : β → Parser α} {m : β → Prop} (hx : Finds ctx x m)
    (hf : ∀ b, m b → Finds ctx (f b) post) : Finds ctx (x >>= f) post :=
  fun src s hctx hending => (hx src s hctx hending).bind fun b s' hb => hf b hb src s' hctx hending

theorem finds_read {f : Source → Parser α} (h : ∀ src, src.ctx = ctx → Finds ctx (f src) post) :
    Finds ctx (do let src ← read; f src) post :=
  fun src s hctx hending => ends_read.mpr (h src hctx src s hctx hending)

theorem Finds.holding (h : Finds ctx step post) (values : List Value) :
    Finds ctx (holding values step) post :=
  fun src s hctx hending => ends_holding.mpr (h src s hctx hending)

theorem finds_throw {fault : ParseError} (h : ¬ fault.IsUnknownType) :
    Finds ctx (throw fault : Parser α) post := fun _ _ _ _ => h

theorem Plain.finds (h : Plain step) : Finds ctx step fun _ => True := fun src s _ hending =>
  (h src s).mono (fun _ _ _ => trivial) fun fault _ hfault =>
    hfault.elim (hending fault) ParseError.Ordinary.not_isUnknownType

theorem finds_fail {cause : SyntaxFault} (hcause : ∀ type, cause ≠ .unknownType type) :
    Finds ctx (fail cause : Parser α) post :=
  plain_current.finds.bind fun _ _ => finds_throw (by
    rintro ⟨line, type, h⟩
    exact hcause type (ParseError.syntaxError.inj h).2)

/-! ### Elements -/

/-- The types of the elements to come are in the table. -/
def Slots.Within (types : TypeTable) : Slots → Prop
  | .every type => type.toNat < types.size
  | .each fields => ∀ field ∈ fields, field.toNat < types.size

theorem Slots.Within.next? {types : TypeTable} {type : TypeIndex} : ∀ {slots slots' : Slots},
    slots.Within types → slots.next? = some (type, slots') → type.toNat < types.size ∧ slots'.Within types
  | .every _, _, h, hnext => by
    cases hnext
    exact ⟨h, h⟩
  | .each (field :: fields), _, h, hnext => by
    cases hnext
    exact List.forall_mem_cons.mp h

section Items

variable {item : TypeIndex → Parser Value} (hany : TypeIndex.any.toNat < ctx.types.size)
  (hitem : ∀ type, type.toNat < ctx.types.size → Finds ctx (item type) fun _ => True)
include hany hitem

theorem finds_element {slots : Slots} (hslots : slots.Within ctx.types) (done : List Value) :
    Finds ctx (element item slots done) fun r => r.1.Within ctx.types := by
  unfold element
  cases hnext : slots.next? with
  | some next =>
    obtain ⟨htype, hrest⟩ := hslots.next? hnext
    exact (hitem _ htype).bind fun _ _ => finds_pure hrest
  | none =>
    -- an element too many is read at the type of every value
    exact (hitem _ hany).bind fun value _ => (plain_drop [value]).finds.bind fun _ _ => finds_pure hslots

theorem finds_elementsFrom (close : Token) : ∀ (bound : Nat) {slots : Slots} (done : List Value),
    slots.Within ctx.types → Finds ctx (elementsFrom item close bound slots done) fun _ => True
  | 0, _, _, _ => finds_pure trivial
  | bound + 1, slots, done, hslots => by
    unfold elementsFrom
    refine ((finds_element hany hitem hslots done).holding _).bind fun r hr => ?_
    refine ((plain_atEnd close).holding _).finds.bind fun last _ => ?_
    cases last
    · exact finds_elementsFrom close bound r.2 hr
    · exact finds_pure trivial

theorem finds_elements (close : Token) {slots : Slots} (hslots : slots.Within ctx.types) :
    Finds ctx (elements item close slots) fun _ => True := by
  unfold elements
  refine (plain_accept _).discard.finds.bind fun _ _ => (plain_accept _).finds.bind fun closed _ => ?_
  cases closed
  · refine finds_read fun src _ => (finds_elementsFrom hany hitem close _ [] hslots).bind fun r _ => ?_
    exact (plain_advance.holding _).finds.bind fun _ _ => finds_pure trivial
  · exact finds_pure trivial

end Items

/-! ### Values -/

theorem finds_negated {item : TypeIndex → Parser Value} {type : TypeIndex}
    (hitem : Finds ctx (item type) fun _ => True) (kind : TypeKind) :
    Finds ctx (negated item type kind) fun _ => True := by
  refine plain_advance.finds.bind fun _ _ => hitem.bind fun operand _ => ?_
  split
  · exact finds_pure trivial
  · exact (finds_fail (by simp)).holding _

section Closed

variable (hclosed : ctx.types.Closed)
include hclosed

theorem finds_fieldTypes (type : TypeIndex) (name : String) :
    Finds ctx (fieldTypes type name) fun fields => ∀ field ∈ fields, field.toNat < ctx.types.size :=
  finds_read fun src hctx => by
    subst hctx
    split
    · next hd => exact finds_pure (hclosed.fields hd)
    · exact finds_fail (by simp)

section Literal

variable {item : TypeIndex → Parser Value} {type : TypeIndex} {descriptor : TypeDescriptor}
  (hitem : ∀ type, type.toNat < ctx.types.size → Finds ctx (item type) fun _ => True)
include hitem

theorem finds_vectorLiteral (hd : ctx.types.get? type = some descriptor) :
    Finds ctx (vectorLiteral item type descriptor) fun _ => True := by
  have hslots : (Slots.every (vectorTypes type descriptor).2).Within ctx.types := by
    cases descriptor with
    | vector element => exact hclosed.element hd
    | scalar | struct => exact hclosed.any
  unfold vectorLiteral
  refine (plain_expectKind _ _).finds.bind fun _ _ => plain_advance.finds.bind fun _ _ => ?_
  exact (finds_elements hclosed.any hitem _ hslots).bind fun _ _ => (plain_newVector _ _).finds

theorem finds_structLiteral (name : String) :
    Finds ctx (structLiteral item type descriptor name) fun _ => True := by
  unfold structLiteral
  refine (plain_expectKind _ _).finds.bind fun _ _ => plain_advance.finds.bind fun _ _ => ?_
  refine (plain_expect _).finds.bind fun _ _ => (plain_structType _ _ _).finds.bind fun found _ => ?_
  refine (finds_fieldTypes hclosed _ _).bind fun fields hfields => ?_
  have hslots : (Slots.each fields).Within ctx.types := hfields
  refine (finds_elements hclosed.any hitem _ hslots).bind fun r _ => ?_
  exact (((plain_defaults _).holding _).bind fun _ => plain_newVector _ _).finds

theorem finds_literal (hd : ctx.types.get? type = some descriptor) (token : Token) :
    Finds ctx (literal item type descriptor token) fun _ => True := by
  cases token with
  | int | float | nil => exact (plain_scalar (plain_pure _)).finds
  | string text => exact (plain_scalar (plain_newString text)).finds
  | minus => exact finds_negated (hitem _ (TypeTable.lt_size_of_get? hd)) _
  | leftBracket => exact finds_vectorLiteral hclosed hitem hd
  | name name => exact finds_structLiteral hclosed hitem name
  | _ => exact finds_fail (by simp)

end Literal

/-- **Each type is found** at which a value is parsed, if the first one is in the table. -/
theorem finds_value : ∀ (depth : Nat) (type : TypeIndex), type.toNat < ctx.types.size →
    Finds ctx (value depth type) fun _ => True
  | 0, _, _ => finds_fail (by simp)
  | depth + 1, type, htype => finds_read fun src hctx => by
    obtain ⟨descriptor, hd⟩ := TypeTable.get?_isSome htype
    rw [hctx, hd]
    exact plain_current.finds.bind fun spanned _ => finds_literal hclosed (finds_value depth) hd _

theorem finds_wholeText (depth : Nat) {type : TypeIndex} (htype : type.toNat < ctx.types.size) :
    Finds ctx (wholeText depth type) fun _ => True := by
  unfold wholeText
  refine plain_current.discard.finds.bind fun _ _ => (finds_value hclosed depth type htype).bind fun v _ => ?_
  exact ((plain_end.holding _).bind fun _ => plain_pure _).finds

end Closed

end Parser

/-- **No type is missing** when a text is parsed at a type of a closed table. -/
theorem parse_ne_unknownType {ctx : TypeContext} (hclosed : ctx.types.Closed) (heap : HeapId) (depth : Nat)
    {type : TypeIndex} (htype : type.toNat < ctx.types.size) (text : String) (store : Store) :
    ∀ line unknown, (parse ctx heap depth type text store).1 ≠
      .error (.syntaxError line (.unknownType unknown)) := by
  refine (parse_iff_ends ctx heap depth type text store
    (p := fun r => ∀ line unknown, r.1 ≠ .error (.syntaxError line (.unknownType unknown)))).mpr ?_
  have hfinds := Parser.finds_wholeText hclosed depth htype (.ofText ctx heap text) (.ofText text store) rfl
    fun fault h => (Source.ofText_ending h).not_isUnknownType
  refine hfinds.mono (fun _ _ _ line unknown h => by cases h) fun fault _ hfault line unknown h => ?_
  cases h
  exact hfault ⟨line, unknown, rfl⟩

end Literal

namespace Module

open Literal (HeapId Lexed Store parse)

variable {m : Module} {natives : Option NativeRegistry}

/-- The types of a verified module are closed, if vectors are at their index. -/
theorem closed_of_verify (h : m.verify natives = .ok ())
    (hvector : ∃ element, m.types.get? .vectorAny = some (.vector element)) : m.types.Closed := by
  have hvalid := typesFault?_eq_none_iff.mp (verify_ok_iff.mp h).1
  obtain ⟨element, hd⟩ := hvector
  refine ⟨Nat.lt_trans (by decide) (TypeTable.lt_size_of_get? hd), fun helement => ?_, fun hfields => ?_⟩
  · exact hvalid _ (Array.mem_of_getElem? helement)
  · obtain ⟨info, -, -, hfields⟩ := hvalid _ (Array.mem_of_getElem? hfields)
    exact hfields

/-- **Literals of a verified module find their types**, if the built-in index of vectors describes vectors:
whatever is parsed at a type of the module, no type is missing, and each vector in a value is described by
the entry that it is tagged with. -/
theorem verified_parse (m : Module) (natives : Option NativeRegistry) (h : m.verify natives = .ok ())
    (hvector : ∃ element, m.types.get? .vectorAny = some (.vector element)) (heap : HeapId)
    (depth : Nat) (type : TypeIndex) (htype : type.toNat < m.types.size) (text : String)
    (store : Store) :
    (∀ line unknown, (parse m.typeContext heap depth type text store).1 ≠
      .error (.syntaxError line (.unknownType unknown))) ∧
    ∀ value, (parse m.typeContext heap depth type text store).1 = .ok value →
      ∀ tag elements, .vector tag elements ∈ value.datum.parts →
        m.types.DescribesVector tag elements.length := by
  have hclosed : m.typeContext.types.Closed := closed_of_verify h hvector
  refine ⟨Literal.parse_ne_unknownType hclosed heap depth htype text store, fun value hvalue => ?_⟩
  exact fun tag elements hpart =>
    (hasType_of_parse h hvalue).describesVector hvector _ hpart tag elements rfl

/-- A module without code whose table has these types. -/
def ofTypes (types : TypeTable) : Module where
  code := []
  lines := .single 0 (.ofNat 0)
  files := #[]
  idents := #[]
  specIdents := #[]
  functions := #[]
  structs := #[]
  types

theorem verified_parse_nested :
    (parse (ofTypes .builtins).typeContext ⟨0⟩ 9 .any "[[1], nil]" .empty).1 =
      .ok (.vector ⟨1⟩ .vectorAny [.vector ⟨0⟩ .vectorAny [.int 1], .nil]) ∧
    (ofTypes .builtins).types.DescribesVector .vectorAny 1 := by
  have hread : (parse (ofTypes .builtins).typeContext ⟨0⟩ 9 .any "[[1], nil]" .empty).1 =
      .ok (.vector ⟨1⟩ .vectorAny [.vector ⟨0⟩ .vectorAny [.int 1], .nil]) := by
    have hlexed : Lexed.ofText "[[1], nil]" = ⟨[⟨.leftBracket, 1⟩, ⟨.leftBracket, 1⟩, ⟨.int 1, 1⟩,
      ⟨.rightBracket, 1⟩, ⟨.comma, 1⟩, ⟨.nil, 1⟩, ⟨.rightBracket, 1⟩], .ok 1⟩ := rfl
    unfold parse
    rw [hlexed]
    rfl
  refine ⟨hread, ?_⟩
  exact (verified_parse (ofTypes .builtins) none (by decide) ⟨.any, rfl⟩ ⟨0⟩ 9 .any (by decide) _
    .empty).2 _ hread _ _ (List.mem_cons_of_mem _ List.mem_cons_self)

/-- The type of every value and that of vectors of them, at other indices than the built-in ones. -/
def displaced : Module := ofTypes ⟨#[.scalar .any, .vector ⟨0⟩]⟩

/-- The module is verified, and yet its literals fail for a type that it does not have, or are tagged with
one. -/
theorem verified_without_builtins : displaced.verify none = .ok () ∧
    (parse displaced.typeContext ⟨0⟩ 9 ⟨0⟩ "[1]" .empty).1 =
      .error (.syntaxError 1 (.unknownType .any)) ∧
    (parse displaced.typeContext ⟨0⟩ 9 ⟨0⟩ "[]" .empty).1 = .ok (.vector ⟨0⟩ .vectorAny []) ∧
    displaced.types.get? .vectorAny = none := by
  have hone : Lexed.ofText "[1]" = ⟨[⟨.leftBracket, 1⟩, ⟨.int 1, 1⟩, ⟨.rightBracket, 1⟩], .ok 1⟩ := rfl
  have hnone : Lexed.ofText "[]" = ⟨[⟨.leftBracket, 1⟩, ⟨.rightBracket, 1⟩], .ok 1⟩ := rfl
  refine ⟨by decide, ?_, ?_, rfl⟩
  · unfold parse
    rw [hone]
    rfl
  · unfold parse
    rw [hnone]
    rfl

end Module

end Wordcode
