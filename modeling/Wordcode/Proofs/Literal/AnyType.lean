import Mathlib.Tactic.IntervalCases
import Wordcode.Proofs.Literal.Canonical
import Wordcode.Proofs.Literal.SideBySide

/-! # The type of every value

A place for values of every type takes what a place for values of one type takes (`parse_any`). The parser
at the wider place follows the one at the other place (`Parser.follows_value`): it finds the type of a struct
by its name where that one knows it, and from there on both parse fields of the same types. -/

namespace Wordcode

/-- Every struct type is the one that the name of its struct leads to. -/
def TypeContext.StructsNamed (ctx : TypeContext) : Prop :=
  ∀ {type : TypeIndex} {id : StructIndex} {fields : List TypeIndex} {name : String},
    ctx.types.get? type = some (.struct id fields) → ctx.structName? id = some name →
      ctx.structTypeNamed? name = some type

/-- The type of a struct is found by a name that is the required one. -/
theorem TypeContext.StructsNamed.structTypeNamed?_eq {ctx : TypeContext} (h : ctx.StructsNamed)
    {type : TypeIndex} {id : StructIndex} {fields : List TypeIndex} {name : String}
    (hget : ctx.types.get? type = some (.struct id fields)) (hname : name ≠ "")
    (hrequired : (ctx.structName? id).getD "" = name) : ctx.structTypeNamed? name = some type := by
  cases hid : ctx.structName? id with
  | none =>
    rw [hid] at hrequired
    exact absurd hrequired.symm hname
  | some required =>
    rw [hid] at hrequired
    exact h hget (hid.trans (congrArg some hrequired))

namespace Literal

variable {ctx : TypeContext}

namespace Parser

variable {src : Source}

/-! ### Elements -/

/-- What a place takes is taken by another one: it has the same type, or it takes every value. -/
def Widens (type type' : TypeIndex) : Prop := type' = type ∨ type' = .any

/-- The same for each of the slots. -/
inductive Slots.Widens : Slots → Slots → Prop
  | every {type type' : TypeIndex} (h : Parser.Widens type type') : Widens (every type) (every type')
  | each (types : List TypeIndex) : Widens (each types) (each types)

theorem Slots.Widens.missing_eq {slots slots' : Slots} (h : Slots.Widens slots slots') :
    slots'.missing = slots.missing := by
  cases h <;> rfl

/-- The elements that were parsed: what is still to come, and the values. -/
def SameElements (ctx : TypeContext) (r r' : Slots × List Value) : Prop :=
  Slots.Widens r.1 r'.1 ∧ Value.SameAll ctx r.2 r'.2

section Items

variable {item : TypeIndex → Parser Value}
  (hitem : ∀ type type', Widens type type' → Follows src (Value.Same src.ctx) (item type) (item type'))
include hitem

theorem follows_element {slots slots' : Slots} {done done' : List Value} (hslots : Slots.Widens slots slots')
    (hdone : Value.SameAll src.ctx done done') : Follows src (SameElements src.ctx)
      (element item slots done) (element item slots' done') := by
  cases hslots with
  | every h => exact (hitem _ _ h).bind fun v v' hv => follows_pure ⟨.every h, .cons hv hdone⟩
  | each types =>
    cases types with
    | cons type types =>
      exact (hitem _ _ (.inl rfl)).bind fun v v' hv => follows_pure ⟨.each types, .cons hv hdone⟩
    | nil =>
      refine (hitem .any .any (.inl rfl)).bind fun v v' hv => ?_
      exact (follows_drop (.cons hv rfl)).bind_eq fun _ => follows_pure ⟨.each [], hdone⟩

theorem follows_elementsFrom (close : Token) : ∀ (bound : Nat) {slots slots' : Slots}
    {done done' : List Value}, Slots.Widens slots slots' → Value.SameAll src.ctx done done' →
      Follows src (SameElements src.ctx) (elementsFrom item close bound slots done)
        (elementsFrom item close bound slots' done')
  | 0, _, _, _, _, hslots, hdone => follows_pure ⟨hslots, hdone⟩
  | bound + 1, slots, slots', done, done', hslots, hdone => by
    unfold elementsFrom
    refine ((follows_element hitem hslots hdone).holding done done').bind fun r r' hr => ?_
    refine ((follows_atEnd close).holding r.2 r'.2).bind_eq fun last => ?_
    cases last
    · exact follows_elementsFrom close bound hr.1 hr.2
    · exact follows_pure hr

theorem follows_elements (close : Token) {slots slots' : Slots} (hslots : Slots.Widens slots slots') :
    Follows src (SameElements src.ctx) (elements item close slots) (elements item close slots') := by
  unfold elements
  refine (follows_accept .linefeed).discard.bind_eq fun _ => (follows_accept close).bind_eq fun closed => ?_
  cases closed
  · refine follows_read ((follows_elementsFrom hitem close src.size hslots rfl).bind fun r r' hr => ?_)
    exact (follows_advance.holding r.2 r'.2).bind_eq fun _ => follows_pure ⟨hr.1, hr.2.reverse⟩
  · exact follows_pure ⟨hslots, rfl⟩

end Items

/-! ### Values -/

/-- What a place takes is taken by one with this type and this descriptor. -/
inductive Widening (type : TypeIndex) (descriptor : TypeDescriptor) : TypeIndex → TypeDescriptor → Prop
  | same : Widening type descriptor type descriptor
  | any : Widening type descriptor .any (.scalar .any)

theorem plainTag_vectorTypes {type : TypeIndex} {descriptor : TypeDescriptor}
    (hd : ctx.types.get? type = some descriptor) :
    ctx.plainTag (vectorTypes type descriptor).1 = .vectorAny := by
  cases descriptor with
  | vector element =>
    show ctx.plainTag type = _
    rw [TypeContext.plainTag, hd]
  | scalar | struct => exact ctx.plainTag_vectorAny

section Literal

variable {type type' : TypeIndex} {descriptor descriptor' : TypeDescriptor} {name : String}
  (h : Widening type descriptor type' descriptor')
include h

theorem Widening.widens : Widens type type' := by
  cases h with
  | same => exact .inl rfl
  | any => exact .inr rfl

theorem Widening.element :
    Widens (vectorTypes type descriptor).2 (vectorTypes type' descriptor').2 := by
  cases h with
  | same => exact .inl rfl
  | any => exact .inr rfl

theorem follows_expectKind (given : TypeKind) :
    Follows src Eq (expectKind given descriptor.kind) (expectKind given descriptor'.kind) := by
  unfold expectKind
  cases h with
  | same =>
    split_ifs
    · exact follows_pure rfl
    · exact follows_fail
  | any =>
    show Follows src Eq _ (expectKind given .any)
    rw [show expectKind given .any = pure () from if_pos (.inr rfl)]
    split_ifs
    · exact follows_pure rfl
    · exact follows_fail

theorem follows_scalar {given : TypeKind} {make : Parser Value}
    (hmake : Follows src (Value.Same src.ctx) make make) : Follows src (Value.Same src.ctx)
      (scalar given descriptor.kind make) (scalar given descriptor'.kind make) :=
  (follows_expectKind h given).bind_eq fun _ => follows_advance.bind_eq fun _ => hmake

theorem follows_structType (hstructs : src.ctx.StructsNamed)
    (hd : src.ctx.types.get? type = some descriptor) (hname : name ≠ "") :
    Follows src Eq (structType type descriptor name) (structType type' descriptor' name) := by
  refine follows_read ?_
  cases descriptor with
  | struct id fields =>
    dsimp only
    split_ifs with hrequired
    · cases h with
      | same =>
        dsimp only
        rw [if_pos hrequired]
        exact follows_pure rfl
      | any =>
        dsimp only
        rw [hstructs.structTypeNamed?_eq hd hname hrequired]
        exact follows_pure rfl
    · exact follows_fail
  | scalar | vector =>
    -- both places look the name up
    cases h <;> dsimp only <;> split <;> first | exact follows_pure rfl | exact follows_fail

section Items

variable {item : TypeIndex → Parser Value}
  (hitem : ∀ type type', Widens type type' → Follows src (Value.Same src.ctx) (item type) (item type'))
include hitem

theorem follows_negated : Follows src (Value.Same src.ctx) (negated item type descriptor.kind)
    (negated item type' descriptor'.kind) := by
  unfold negated
  refine follows_advance.bind_eq fun _ => (hitem _ _ h.widens).bind fun v v' hv => ?_
  have htaken : ∀ w,
      (if descriptor.kind.isNumeric || descriptor.kind == .any then v.negate? else none) = some w →
      (if descriptor'.kind.isNumeric || descriptor'.kind == .any then v.negate? else none) = some w := by
    intro w hw
    cases h with
    | same => exact hw
    | any =>
      split_ifs at hw
      exact hw
  rw [hv.negate?_eq]
  split
  · next w hw =>
    rw [htaken w hw]
    exact follows_pure rfl
  · exact follows_holding_fail [v]

theorem follows_vectorLiteral (hd : src.ctx.types.get? type = some descriptor) :
    Follows src (Value.Same src.ctx) (vectorLiteral item type descriptor)
      (vectorLiteral item type' descriptor') := by
  have htag : src.ctx.plainTag (vectorTypes type' descriptor').1 =
      src.ctx.plainTag (vectorTypes type descriptor).1 := by
    cases h with
    | same => rfl
    | any => exact src.ctx.plainTag_vectorAny.trans (plainTag_vectorTypes hd).symm
  unfold vectorLiteral
  refine (follows_expectKind h _).bind_eq fun _ => follows_advance.bind_eq fun _ => ?_
  exact (follows_elements hitem _ (.every h.element)).bind fun r r' hr => follows_newVector htag hr.2

theorem follows_structLiteral (hstructs : src.ctx.StructsNamed)
    (hd : src.ctx.types.get? type = some descriptor) (hname : name ≠ "") :
    Follows src (Value.Same src.ctx) (structLiteral item type descriptor name)
      (structLiteral item type' descriptor' name) := by
  unfold structLiteral
  refine (follows_expectKind h _).bind_eq fun _ => follows_advance.bind_eq fun _ => ?_
  refine (follows_expect _).bind_eq fun _ => ?_
  -- from here on both parse fields of the same struct
  refine (follows_structType h hstructs hd hname).bind_eq fun found => ?_
  refine (follows_fieldTypes _ _).bind_eq fun fields => (follows_elements hitem _ (.each fields)).bind ?_
  rintro ⟨slots, items⟩ ⟨slots', items'⟩ ⟨hslots, hitems⟩
  have hmissing : slots'.missing = slots.missing := hslots.missing_eq
  dsimp only
  rw [hmissing]
  refine ((follows_defaults _).holding items items').bind_eq fun defaults => ?_
  exact follows_newVector rfl (hitems.append rfl)

theorem follows_literal (hstructs : src.ctx.StructsNamed)
    (hd : src.ctx.types.get? type = some descriptor) {token : Token}
    (htoken : ∀ name, token = .name name → name ≠ "") : Follows src (Value.Same src.ctx)
      (literal item type descriptor token) (literal item type' descriptor' token) := by
  cases token with
  | int | float | nil => exact follows_scalar h (follows_pure rfl)
  | string text => exact follows_scalar h (follows_newString text)
  | minus => exact follows_negated h hitem
  | leftBracket => exact follows_vectorLiteral h hitem hd
  | name name => exact follows_structLiteral h hitem hstructs hd (htoken name rfl)
  | _ => exact follows_fail

end Items

end Literal

section Tables

variable (hstructs : src.ctx.StructsNamed) (hany : src.ctx.types.get? .any = some (.scalar .any))
include hstructs hany

/-- **A wider place takes a value as well.** -/
theorem follows_value : ∀ (depth : Nat) (type type' : TypeIndex), Widens type type' →
    Follows src (Value.Same src.ctx) (value depth type) (value depth type')
  | 0, _, _, _ => follows_fail
  | depth + 1, type, type', h => by
    unfold value
    refine follows_read ?_
    cases hd : src.ctx.types.get? type with
    | none => exact follows_fail
    | some descriptor =>
      obtain ⟨descriptor', hd', hwidening⟩ : ∃ descriptor',
          src.ctx.types.get? type' = some descriptor' ∧ Widening type descriptor type' descriptor' := by
        rcases h with rfl | rfl
        · exact ⟨descriptor, hd, .same⟩
        · exact ⟨.scalar .any, hany, .any⟩
      rw [hd']
      refine follows_current_named.bind ?_
      rintro spanned _ ⟨rfl, hname⟩
      exact follows_literal hwidening (follows_value depth) hstructs hd hname

theorem follows_wholeText (depth : Nat) {type type' : TypeIndex} (h : Widens type type') :
    Follows src (Value.Same src.ctx) (wholeText depth type) (wholeText depth type') := by
  have hend : Follows src Eq (do discard (accept .linefeed); expect .endOfFile)
      (do discard (accept .linefeed); expect .endOfFile) :=
    (follows_accept _).discard.bind_eq fun _ => follows_expect _
  unfold wholeText
  refine follows_current.discard.bind_eq fun _ => ?_
  refine (follows_value hstructs hany depth type type' h).bind fun v v' hv => ?_
  exact (hend.holding [v] [v']).bind_eq fun _ => follows_pure hv

end Tables

end Parser

/-! ### Whole texts -/

/-- **A place for every value takes what any other place takes**, at the same depth. The value has the same
objects, the same contents and the same structs, so it differs at most in the tags of vectors that are no
structs, and the store is left the same. -/
theorem parse_any {ctx : TypeContext}
    (hbuiltins : TypeTable.builtins.entries.toList <+: ctx.types.entries.toList)
    (hstructs : ctx.StructsNamed) {heap : HeapId} {depth : Nat} {type : TypeIndex} {text : String}
    {store store' : Store} {v : Value} (h : parse ctx heap depth type text store = (.ok v, store')) :
    ∃ v', parse ctx heap depth .any text store = (.ok v', store') ∧
      v'.untagged ctx = v.untagged ctx := by
  have hstart : Parsing.Alike ctx (.ofText text store) (.ofText text store) :=
    ⟨rfl, rfl, rfl, (Lexed.lexical_ofText text).names⟩
  have hfollows : Parser.Follows (.ofText ctx heap text) (Value.Same ctx) (Parser.wholeText depth type)
      (Parser.wholeText depth .any) :=
    Parser.follows_wholeText hstructs (TypeTable.get?_of_builtins hbuiltins rfl) depth (.inr rfl)
  refine (parse_iff_ends ctx heap depth type text store (p := fun r => ∀ v store', r = (.ok v, store') →
    ∃ v', parse ctx heap depth .any text store = (.ok v', store') ∧
      v'.untagged ctx = v.untagged ctx)).mpr ?_ v store' h
  refine (hfollows _ _ hstart).mono ?_ fun _ _ _ _ _ herror => by cases herror
  rintro v s ⟨v', s', hrun, hsame, hs⟩ _ _ ⟨⟩
  have hstore : s'.store.releaseAll s'.roster = s.store.releaseAll s.roster := by
    rw [hs.store, Store.releaseAll_same _ hs.roster]
  exact ⟨v', by rw [parse_of_run_ok hrun, hstore], hsame⟩

/-- A box holds a vector of integers and an integer; the last type is that of vectors of boxes. -/
def boxesContext : TypeContext where
  types := ((TypeTable.builtins.push (.vector ⟨1⟩)).push (.struct ⟨0⟩ [⟨8⟩, ⟨1⟩])).push (.vector ⟨9⟩)
  structs := #[⟨"Box", ["sizes", "count"]⟩]

theorem structsNamed_boxes : boxesContext.StructsNamed := by
  intro type id fields name hget hname
  obtain ⟨hlt, hentry⟩ := Array.getElem?_eq_some_iff.mp hget
  have hnine : ∀ i (hi : i < boxesContext.types.entries.size) (id : StructIndex) (fields : List TypeIndex),
      boxesContext.types.entries[i] = .struct id fields → i = 9 ∧ id = ⟨0⟩ := by
    intro i hi id fields hi'
    change i < 11 at hi
    interval_cases i <;> cases hi'
    exact ⟨rfl, rfl⟩
  obtain ⟨htype, rfl⟩ := hnine _ hlt id fields hentry
  obtain rfl : type = ⟨9⟩ := congrArg Index.mk (UInt32.toNat_inj.mp htype)
  obtain rfl : "Box" = name := Option.some.inj hname
  decide +kernel

/-- One box in a vector, whose count is left out. Within the box the types are the same again. -/
theorem parse_any_box :
    boxesContext.StructsNamed ∧
    parse boxesContext ⟨0⟩ 4 ⟨10⟩ "[Box\x7b[7]\x7d]" Store.empty.addHeap.2 =
      (.ok (.vector ⟨2⟩ ⟨10⟩ [.vector ⟨1⟩ ⟨9⟩ [.vector ⟨0⟩ ⟨8⟩ [.int 7], .int 0]]),
        ⟨#[⟨3, 3, 0⟩], #[⟨⟨0⟩, 1⟩, ⟨⟨0⟩, 1⟩, ⟨⟨0⟩, 1⟩]⟩) ∧
    ∃ v', parse boxesContext ⟨0⟩ 4 .any "[Box\x7b[7]\x7d]" Store.empty.addHeap.2 =
        (.ok v', ⟨#[⟨3, 3, 0⟩], #[⟨⟨0⟩, 1⟩, ⟨⟨0⟩, 1⟩, ⟨⟨0⟩, 1⟩]⟩) ∧
      v'.untagged boxesContext =
        .vector ⟨2⟩ .vectorAny [.vector ⟨1⟩ ⟨9⟩ [.vector ⟨0⟩ .vectorAny [.int 7], .int 0]] := by
  have hlexed : Lexed.ofText "[Box\x7b[7]\x7d]" = ⟨[⟨.leftBracket, 1⟩, ⟨.name "Box", 1⟩,
      ⟨.leftCurly, 1⟩, ⟨.leftBracket, 1⟩, ⟨.int 7, 1⟩, ⟨.rightBracket, 1⟩, ⟨.rightCurly, 1⟩,
      ⟨.rightBracket, 1⟩], .ok 1⟩ := rfl
  have hparse : parse boxesContext ⟨0⟩ 4 ⟨10⟩ "[Box\x7b[7]\x7d]" Store.empty.addHeap.2 =
      (.ok (.vector ⟨2⟩ ⟨10⟩ [.vector ⟨1⟩ ⟨9⟩ [.vector ⟨0⟩ ⟨8⟩ [.int 7], .int 0]]),
        ⟨#[⟨3, 3, 0⟩], #[⟨⟨0⟩, 1⟩, ⟨⟨0⟩, 1⟩, ⟨⟨0⟩, 1⟩]⟩) := by
    unfold parse
    rw [hlexed]
    rfl
  exact ⟨structsNamed_boxes, hparse, parse_any (by decide) structsNamed_boxes hparse⟩

end Literal

end Wordcode
