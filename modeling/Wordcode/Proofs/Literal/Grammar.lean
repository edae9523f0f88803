import Wordcode.Literal.Parser
import Wordcode.Proofs.Literal.Datum

/-! # The typed grammar of literals

Which token sequences are literals of a type, and of which datum (`Derives`). A literal is a scalar
token, a minus sign in front of a number, or elements in brackets (`Rule`); the type decides what the
brackets hold (`Frame`), and elements are separated by one comma or one line break each (`Items`). Elements
without a slot derive a datum that is dropped, and slots without an element get a default. -/

namespace Wordcode.Literal

/-- What derives what at which type. -/
abbrev Derivation := TypeIndex → List Token → Datum → Prop

/-- The datum of a token that is a literal by itself. -/
def Token.datum? : Token → Option Datum
  | int value => some (.int value)
  | float value => some (.float value)
  | string text => some (.string text)
  | nil => some .nil
  | _ => none

/-- Whether a value of the kind may stand at the required one. -/
def Admits (required given : TypeKind) : Prop := required = given ∨ required = .any

/-- Whether a minus sign may stand at the kind. -/
def Signs (kind : TypeKind) : Prop := kind.isNumeric ∨ kind = .any

/-- The brackets of an aggregate at a type: the tokens that open it, the token that closes it, the type
of its value and the slots of its elements. -/
inductive Frame (ctx : TypeContext) (type : TypeIndex) : List Token → Token → TypeIndex →
    Parser.Slots → Prop
  | vector {element : TypeIndex} (described : ctx.types.get? type = some (.vector element)) :
    Frame ctx type [.leftBracket] .rightBracket type (.every element)
  | anyVector {kind : TypeKind} (described : ctx.types.get? type = some (.scalar kind))
    (admits : Admits kind .vector) :
    Frame ctx type [.leftBracket] .rightBracket .vectorAny (.every .any)
  | struct {id : StructIndex} {fields : List TypeIndex} {name : String}
    (described : ctx.types.get? type = some (.struct id fields))
    (named : ctx.structName? id = some name) :
    Frame ctx type [.name name, .leftCurly] .rightCurly type (.each fields)
  | anyStruct {kind : TypeKind} {id : StructIndex} {fields : List TypeIndex} {name : String}
    {found : TypeIndex} (described : ctx.types.get? type = some (.scalar kind))
    (admits : Admits kind .struct) (named : ctx.structTypeNamed? name = some found)
    (describedFound : ctx.types.get? found = some (.struct id fields)) :
    Frame ctx type [.name name, .leftCurly] .rightCurly found (.each fields)

/-- One element: it takes the next slot, or it derives something at `Any` that is dropped. -/
inductive Item (sub : Derivation) : Parser.Slots → List Token → List Datum → Parser.Slots → Prop
  | kept {slots slots' : Parser.Slots} {type : TypeIndex} {W : List Token} {datum : Datum}
    (slot : slots.next? = some (type, slots')) (derived : sub type W datum) :
    Item sub slots W [datum] slots'
  | dropped {slots : Parser.Slots} {W : List Token} {datum : Datum} (slot : slots.next? = none)
    (derived : sub .any W datum) : Item sub slots W [] slots

/-- One element or more: their data, and the slots they leave. A line break may end the last one. -/
inductive Items (sub : Derivation) : Parser.Slots → List Token → List Datum → Parser.Slots → Prop
  | last {slots slots' : Parser.Slots} {W : List Token} {data : List Datum}
    (item : Item sub slots W data slots') : Items sub slots W data slots'
  | lastBreak {slots slots' : Parser.Slots} {W : List Token} {data : List Datum}
    (item : Item sub slots W data slots') : Items sub slots (W ++ [.linefeed]) data slots'
  | more {slots slots' slots'' : Parser.Slots} {W E : List Token} {data data' : List Datum}
    {separator : Token} (item : Item sub slots W data slots')
    (separates : separator = .comma ∨ separator = .linefeed) (rest : Items sub slots' E data' slots'') :
    Items sub slots (W ++ separator :: E) (data ++ data') slots''

/-- What stands between the brackets. -/
inductive Body (sub : Derivation) : Parser.Slots → List Token → List Datum → Parser.Slots → Prop
  | empty (slots : Parser.Slots) : Body sub slots [] [] slots
  | items {slots slots' : Parser.Slots} {E : List Token} {data : List Datum}
    (items : Items sub slots E data slots') : Body sub slots E data slots'

/-- The default datum of a kind: zero for numbers, nil for nil. -/
def Datum.default? : TypeKind → Option Datum
  | .int => some (.int 0)
  | .float => some (.float (.signed false 0))
  | .nil => some .nil
  | _ => none

/-- The default datum of a type. -/
def defaultDatum? (ctx : TypeContext) (type : TypeIndex) : Option Datum :=
  (ctx.types.kind? type).bind Datum.default?

theorem datum_default? (kind : TypeKind) : (Parser.default? kind).map Value.datum = Datum.default? kind := by
  cases kind <;> rfl

theorem defaultDatum?_eq (ctx : TypeContext) (type : TypeIndex) :
    defaultDatum? ctx type = ((ctx.types.kind? type).bind Parser.default?).map Value.datum := by
  cases h : ctx.types.kind? type with
  | none => rw [defaultDatum?, h]; rfl
  | some kind => rw [defaultDatum?, h]; exact (datum_default? kind).symm

/-- The rules for a literal of a type whose inner literals are given. -/
inductive Rule (ctx : TypeContext) (sub : Derivation) (type : TypeIndex) : List Token → Datum → Prop
  | scalar {kind : TypeKind} {token : Token} {datum : Datum} (known : ctx.types.kind? type = some kind)
    (stands : token.datum? = some datum) (admits : Admits kind datum.kind) :
    Rule ctx sub type [token] datum
  | minus {kind : TypeKind} {W : List Token} {datum negated : Datum}
    (known : ctx.types.kind? type = some kind) (signs : Signs kind) (derived : sub type W datum)
    (negates : datum.negate? = some negated) : Rule ctx sub type (.minus :: W) negated
  | aggregate {opening : List Token} {close : Token} {vectorType : TypeIndex}
    {slots slots' : Parser.Slots} {E : List Token} {data defaults : List Datum}
    (frame : Frame ctx type opening close vectorType slots) (body : Body sub slots E data slots')
    (missing : slots'.missing.mapM (defaultDatum? ctx) = some defaults) :
    Rule ctx sub type (opening ++ E ++ [close]) (.vector vectorType (data ++ defaults))

/-- **The literals of a type** in which at most `depth` literals contain each other. -/
def Derives (ctx : TypeContext) : Nat → Derivation
  | 0 => fun _ _ _ => False
  | depth + 1 => Rule ctx (Derives ctx depth)

theorem Item.every_eq {sub : Derivation} {slots slots' : Parser.Slots} {W : List Token}
    {data : List Datum} (h : Item sub slots W data slots') {type : TypeIndex}
    (hs : slots = .every type) : slots' = .every type := by
  subst hs
  rcases h with ⟨slot, -⟩ | ⟨slot, -⟩
  · rw [Parser.Slots.next?, Option.some.injEq, Prod.mk.injEq] at slot
    exact slot.2.symm
  · cases slot

theorem Items.every_eq {sub : Derivation} {slots slots' : Parser.Slots} {E : List Token}
    {data : List Datum} (h : Items sub slots E data slots') {type : TypeIndex}
    (hs : slots = .every type) : slots' = .every type := by
  induction h with
  | last item | lastBreak item => exact item.every_eq hs
  | more item _ _ ih => exact ih (item.every_eq hs)

theorem Body.every_eq {sub : Derivation} {type : TypeIndex} {E : List Token} {data : List Datum}
    {slots : Parser.Slots} (h : Body sub (.every type) E data slots) : slots = .every type := by
  cases h with
  | empty => rfl
  | items h => exact h.every_eq rfl

/-! ### More derivations -/

section Derivations
variable {sub sub' : Derivation} (hsub : ∀ {type W datum}, sub type W datum → sub' type W datum)
  {slots slots' : Parser.Slots} {W E : List Token} {data : List Datum}
include hsub

theorem Item.mono (h : Item sub slots W data slots') : Item sub' slots W data slots' := by
  cases h with
  | kept slot derived => exact .kept slot (hsub derived)
  | dropped slot derived => exact .dropped slot (hsub derived)

theorem Items.mono (h : Items sub slots E data slots') : Items sub' slots E data slots' := by
  induction h with
  | last item => exact .last (item.mono hsub)
  | lastBreak item => exact .lastBreak (item.mono hsub)
  | more item separates _ ih => exact .more (item.mono hsub) separates ih

theorem Body.mono (h : Body sub slots E data slots') : Body sub' slots E data slots' := by
  cases h with
  | empty => exact .empty slots
  | items h => exact .items (h.mono hsub)

end Derivations

theorem Derives.deeper {ctx : TypeContext} : ∀ {depth depth' : Nat} {type : TypeIndex} {W : List Token}
    {datum : Datum}, depth ≤ depth' → Derives ctx depth type W datum → Derives ctx depth' type W datum
  | depth + 1, depth' + 1, type, W, datum, hle, h => by
    have hsub : ∀ {type W datum}, Derives ctx depth type W datum → Derives ctx depth' type W datum :=
      Derives.deeper (Nat.le_of_succ_le_succ hle)
    cases h with
    | scalar known stands admits => exact Rule.scalar known stands admits
    | minus known signs derived negates => exact Rule.minus known signs (hsub derived) negates
    | aggregate frame body missing => exact Rule.aggregate frame (body.mono hsub) missing

theorem Derives.described {ctx : TypeContext} {depth : Nat} {type : TypeIndex} {W : List Token} {datum : Datum}
    (h : Derives ctx depth type W datum) : ∃ descriptor, ctx.types.get? type = some descriptor := by
  cases depth with
  | zero => exact h.elim
  | succ depth =>
    cases h with
    | scalar known | minus known =>
      obtain ⟨descriptor, hd, -⟩ := Option.map_eq_some_iff.mp known
      exact ⟨descriptor, hd⟩
    | aggregate frame => cases frame <;> exact ⟨_, by assumption⟩

/-! ### First and last tokens -/

/-- A token that a literal can start with. -/
def Token.Starts (token : Token) : Prop :=
  token.datum?.isSome ∨ token = .minus ∨ token = .leftBracket ∨ ∃ name, token = .name name

theorem Frame.starts {ctx : TypeContext} {type vectorType : TypeIndex} {opening : List Token}
    {close : Token} {slots : Parser.Slots} (h : Frame ctx type opening close vectorType slots) :
    ∃ token rest, opening = token :: rest ∧ token.Starts := by
  cases h with
  | vector | anyVector => exact ⟨_, _, rfl, .inr (.inr (.inl rfl))⟩
  | struct | anyStruct => exact ⟨_, _, rfl, .inr (.inr (.inr ⟨_, rfl⟩))⟩

theorem Derives.starts {ctx : TypeContext} {depth : Nat} {type : TypeIndex} {W : List Token}
    {datum : Datum} (h : Derives ctx depth type W datum) :
    ∃ token rest, W = token :: rest ∧ token.Starts := by
  cases depth with
  | zero => exact h.elim
  | succ depth =>
    cases h with
    | scalar _ stands _ => exact ⟨_, _, rfl, .inl (by rw [stands]; rfl)⟩
    | minus => exact ⟨_, _, rfl, .inr (.inl rfl)⟩
    | aggregate frame _ _ =>
      obtain ⟨token, rest, rfl, ht⟩ := frame.starts
      exact ⟨token, _, rfl, ht⟩

theorem Derives.ne_nil {ctx : TypeContext} {depth : Nat} {type : TypeIndex} {W : List Token}
    {datum : Datum} (h : Derives ctx depth type W datum) : W ≠ [] := by
  rintro rfl
  obtain ⟨token, rest, he, -⟩ := h.starts
  cases he

/-- A literal ends with a token behind which a line break is read. -/
theorem Derives.ends {ctx : TypeContext} : ∀ {depth : Nat} {type : TypeIndex} {W : List Token} {datum : Datum},
    Derives ctx depth type W datum → ∃ init token, W = init ++ [token] ∧ token.continuesLine = false
  | depth + 1, type, W, datum, h => by
    cases h with
    | @scalar _ token _ _ stands _ => exact ⟨[], token, rfl, by cases token <;> cases stands <;> rfl⟩
    | minus _ _ derived _ =>
      obtain ⟨init, token, rfl, ht⟩ := derived.ends
      exact ⟨.minus :: init, token, rfl, ht⟩
    | aggregate frame _ _ => exact ⟨_, _, rfl, by cases frame <;> rfl⟩

end Wordcode.Literal
