import Wordcode.Proofs.Literal.Canonical
import Wordcode.Proofs.Literal.Language
import Wordcode.Proofs.Validity

/-! # Values of a type

What a type requires of a value is said without the parser (`HasType`): a single datum has the kind of its
type, a vector or struct is tagged with its type, and a struct has one element for each field. What is
derived at a type meets it, since the data of a body and the defaults behind them fill all slots of the
frame (`Derives.hasType`). That more elements may be read than there are fields does no harm: the slots left
behind the elements that are kept are the rest of the fields (`Parser.elements_leaves`). -/

namespace Wordcode

namespace TypeTable

variable {types : TypeTable} {type : TypeIndex} {kind : TypeKind}

/-- No entry has the kind of an aggregate without saying of what it is made. -/
def NoBareAggregates (types : TypeTable) : Prop :=
  ∀ descriptor ∈ types.entries, descriptor ≠ .scalar .vector ∧ descriptor ≠ .scalar .struct

instance (types : TypeTable) : Decidable types.NoBareAggregates :=
  inferInstanceAs (Decidable (∀ descriptor ∈ types.entries, _ ∧ _))

theorem NoBareAggregates.get?_ne (h : types.NoBareAggregates) :
    types.get? type ≠ some (.scalar .vector) ∧ types.get? type ≠ some (.scalar .struct) :=
  ⟨fun hd => (h _ (Array.mem_of_getElem? hd)).1 rfl, fun hd => (h _ (Array.mem_of_getElem? hd)).2 rfl⟩

/-- Only aggregates say more than their kind. -/
theorem get?_of_kind? (h : types.kind? type = some kind) (hvector : kind ≠ .vector)
    (hstruct : kind ≠ .struct) : types.get? type = some (.scalar kind) := by
  obtain ⟨descriptor, hdescriptor, rfl⟩ := Option.map_eq_some_iff.mp h
  cases descriptor with
  | scalar kind => exact hdescriptor
  | vector element => exact absurd rfl hvector
  | struct id fields => exact absurd rfl hstruct

end TypeTable

namespace Literal

/-- **The data of a type.** A datum of the type of every value is single, a vector of such data that is
tagged as one, or an instance of some struct. -/
inductive HasType (types : TypeTable) : TypeIndex → Datum → Prop
  | single {type : TypeIndex} {datum : Datum} (described : types.get? type = some (.scalar datum.kind))
    (plain : datum.kind ≠ .vector) : HasType types type datum
  | vector {type element : TypeIndex} {elements : List Datum}
    (described : types.get? type = some (.vector element))
    (typed : ∀ datum ∈ elements, HasType types element datum) :
    HasType types type (.vector type elements)
  | struct {type : TypeIndex} {id : StructIndex} {fields : List TypeIndex} {elements : List Datum}
    (described : types.get? type = some (.struct id fields)) (size : elements.length = fields.length)
    (typed : ∀ (i : Nat) field datum, fields[i]? = some field → elements[i]? = some datum →
      HasType types field datum) : HasType types type (.vector type elements)
  | anySingle {type : TypeIndex} {datum : Datum} (described : types.get? type = some (.scalar .any))
    (plain : datum.kind ≠ .vector) : HasType types type datum
  | anyVector {type : TypeIndex} {elements : List Datum}
    (described : types.get? type = some (.scalar .any))
    (typed : ∀ datum ∈ elements, HasType types .any datum) :
    HasType types type (.vector .vectorAny elements)
  | anyStruct {type found : TypeIndex} {id : StructIndex} {fields : List TypeIndex} {datum : Datum}
    (described : types.get? type = some (.scalar .any))
    (describedFound : types.get? found = some (.struct id fields))
    (typed : HasType types found datum) : HasType types type datum

variable {ctx : TypeContext} {types : TypeTable} {type : TypeIndex} {kind : TypeKind} {datum : Datum}
  {data : List Datum} {slots slots' : Parser.Slots}

/-! ### Single data -/

/-- A single datum has every type at which its kind may stand. -/
theorem hasType_of_admits (known : types.kind? type = some kind) (admits : Admits kind datum.kind)
    (plain : datum.kind ≠ .vector) : HasType types type datum := by
  rcases admits with rfl | rfl
  · have hstruct : datum.kind ≠ .struct := by cases datum <;> exact TypeKind.noConfusion
    exact .single (TypeTable.get?_of_kind? known plain hstruct) plain
  · exact .anySingle (TypeTable.get?_of_kind? known (by decide) (by decide)) plain

theorem hasType_default (h : defaultDatum? ctx type = some datum) : HasType ctx.types type datum := by
  obtain ⟨kind, known, hdefault⟩ := Option.bind_eq_some_iff.mp h
  cases kind <;> cases hdefault <;> exact hasType_of_admits known (.inl rfl) (by decide)

/-! ### Filled slots -/

theorem Fills.forall_every {fits : TypeIndex → Datum → Prop} (h : Fills fits slots data slots')
    {element : TypeIndex} (hs : slots = .every element) : ∀ datum ∈ data, fits element datum := by
  induction h with
  | done => simp
  | fill slot fit _ ih =>
    subst hs
    obtain ⟨rfl, rfl⟩ := Prod.mk.inj (Option.some.inj slot)
    exact List.forall_mem_cons.mpr ⟨fit, ih rfl⟩

/-- Data that fill slots for fields are as many as the fields that are not left, each of its own field. -/
theorem Fills.forall_each {fits : TypeIndex → Datum → Prop} (h : Fills fits slots data slots') :
    ∀ {fields : List TypeIndex}, slots = .each fields →
      data.length + slots'.missing.length = fields.length ∧
        ∀ (i : Nat) field datum, fields[i]? = some field → data[i]? = some datum → fits field datum := by
  induction h with
  | done slots =>
    rintro fields rfl
    exact ⟨Nat.zero_add _, fun _ _ _ _ hdatum => by cases hdatum⟩
  | fill slot fit rest ih =>
    rintro fields rfl
    cases fields with
    | nil => cases slot
    | cons field fields =>
      obtain ⟨rfl, rfl⟩ := Prod.mk.inj (Option.some.inj slot)
      obtain ⟨hlength, hfits⟩ := ih rfl
      refine ⟨by rw [List.length_cons, List.length_cons]; omega, fun i field' datum' hfield hdatum => ?_⟩
      cases i with
      | zero =>
        obtain rfl := Option.some.inj hfield
        obtain rfl := Option.some.inj hdatum
        exact fit
      | succ i => exact hfits i field' datum' hfield hdatum

/-! ### Derived data -/

theorem hasType_struct {id : StructIndex} {fields : List TypeIndex}
    (described : types.get? type = some (.struct id fields))
    (hfill : Fills (HasType types) (.each fields) data slots') (hnone : slots'.missing = []) :
    HasType types type (.vector type data) := by
  obtain ⟨hlength, htyped⟩ := hfill.forall_each rfl
  rw [hnone, List.length_nil, Nat.add_zero] at hlength
  exact .struct described hlength htyped

theorem Frame.hasType (hbare : ctx.types.NoBareAggregates) {opening : List Token} {close : Token}
    {vectorType : TypeIndex} (h : Frame ctx type opening close vectorType slots)
    (hfill : Fills (HasType ctx.types) slots data slots') (hnone : slots'.missing = []) :
    HasType ctx.types type (.vector vectorType data) := by
  cases h with
  | vector described => exact .vector described (hfill.forall_every rfl)
  | anyVector described admits =>
    rcases admits with rfl | rfl
    · exact absurd described hbare.get?_ne.1
    · exact .anyVector described (hfill.forall_every rfl)
  | struct described named => exact hasType_struct described hfill hnone
  | anyStruct described admits named describedFound =>
    rcases admits with rfl | rfl
    · exact absurd described hbare.get?_ne.2
    · exact .anyStruct described describedFound (hasType_struct describedFound hfill hnone)

/-- **What is derived at a type has the type.** -/
theorem Derives.hasType (hbare : ctx.types.NoBareAggregates) : ∀ {depth : Nat} {type : TypeIndex}
    {W : List Token} {datum : Datum}, Derives ctx depth type W datum → HasType ctx.types type datum
  | depth + 1, type, W, datum, h => by
    -- a number stands where its kind may, however many minus signs are in front of it
    have hnumber : datum.kind = .int ∨ datum.kind = .float → HasType ctx.types type datum := by
      intro hkind
      obtain ⟨kind, known, admits⟩ := h.admits_number hkind
      exact hasType_of_admits known admits (by rcases hkind with hk | hk <;> rw [hk] <;> decide)
    cases h with
    | @scalar kind token datum known stands admits =>
      have plain : datum.kind ≠ .vector := by
        cases token <;> cases stands <;> exact TypeKind.noConfusion
      exact hasType_of_admits known admits plain
    | @minus kind W operand negated known signs derived negates =>
      exact hnumber (Datum.number_of_negate? negates)
    | @aggregate opening close vectorType slots slots' E data defaults frame body missing =>
      obtain ⟨slots'', hfill, hnone⟩ := body.fills_defaults missing
      have htyped : Fills (HasType ctx.types) slots (data ++ defaults) slots'' := hfill.mono fun _ _ _ h => by
        rcases h with ⟨W, -, derived⟩ | hdefault
        · exact derived.hasType hbare
        · exact hasType_default hdefault
      exact frame.hasType hbare htyped hnone

theorem hasType_of_parse (hbare : ctx.types.NoBareAggregates) {heap : HeapId} {depth : Nat}
    {text : String} {store : Store} {value : Value}
    (h : (parse ctx heap depth type text store).1 = .ok value) :
    HasType ctx.types type value.datum := by
  obtain ⟨W, derived, -⟩ := isLiteral_of_parse h
  exact derived.hasType hbare

/-! ### Tags -/

theorem HasType.tagged (hany : types.get? .vectorAny = some (.vector .any)) {tag : TypeIndex}
    {elements : List Datum} (h : HasType types type (.vector tag elements)) :
    HasType types tag (.vector tag elements) := by
  generalize hdatum : Datum.vector tag elements = datum at h
  induction h with
  | single _ plain | anySingle _ plain =>
    subst hdatum
    exact absurd rfl plain
  | vector described typed =>
    cases hdatum
    exact .vector described typed
  | struct described size typed =>
    cases hdatum
    exact .struct described size typed
  | anyVector _ typed =>
    cases hdatum
    exact .vector hany typed
  | anyStruct _ _ _ ih => exact ih hdatum

theorem Datum.mem_parts_plain {part : Datum} (plain : datum.kind ≠ .vector) (h : part ∈ datum.parts) :
    part = datum := by
  cases datum with
  | vector type elements => exact absurd rfl plain
  | nil | int _ | float _ | string _ => exact List.mem_singleton.mp h

/-- **Every part of a datum of a type has a type**, and a vector among the parts has the type of its tag. -/
theorem HasType.parts (hany : types.get? .vectorAny = some (.vector .any)) (h : HasType types type datum) :
    ∀ part ∈ datum.parts, (∃ type, HasType types type part) ∧
      ∀ tag elements, part = .vector tag elements → HasType types tag part := by
  have hself : ∀ {type datum}, HasType types type datum → (∃ type, HasType types type datum) ∧
      ∀ tag elements, datum = .vector tag elements → HasType types tag datum := by
    rintro type datum htype
    exact ⟨⟨type, htype⟩, by rintro tag elements rfl; exact htype.tagged hany⟩
  induction h with
  | single described plain =>
    rintro part hpart
    exact Datum.mem_parts_plain plain hpart ▸ hself (.single described plain)
  | anySingle described plain =>
    rintro part hpart
    exact Datum.mem_parts_plain plain hpart ▸ hself (.anySingle described plain)
  | vector described typed ih =>
    exact Datum.forall_parts_vector.mpr ⟨hself (.vector described typed), ih⟩
  | anyVector described typed ih =>
    exact Datum.forall_parts_vector.mpr ⟨hself (.anyVector described typed), ih⟩
  | @struct type id fields elements described size typed ih =>
    refine Datum.forall_parts_vector.mpr ⟨hself (.struct described size typed), fun element helement => ?_⟩
    obtain ⟨i, hi, rfl⟩ := List.getElem_of_mem helement
    have hfield : i < fields.length := by omega
    exact ih i _ _ (List.getElem?_eq_getElem hfield) (List.getElem?_eq_getElem hi)
  | anyStruct _ _ _ ih => exact ih

/-! ### Slots without an element -/

namespace Parser

variable {src : Source} {s : Parsing} {item : TypeIndex → Parser Value} {close : Token}
  {fields : List TypeIndex}

/-- The slots left behind some elements of a struct are the rest of its fields. -/
def Leaves (fields : List TypeIndex) (slots : Slots) (kept : Nat) : Prop :=
  kept ≤ fields.length ∧ slots = .each (fields.drop kept)

theorem ends_any {α : Type} (step : Parser α) : Ends step src s (fun _ _ => True) AnyError := by
  unfold Ends
  cases step src s <;> trivial

theorem element_leaves {slots : Slots} {done : List Value} (h : Leaves fields slots done.length) :
    Ends (element item slots done) src s (fun r _ => Leaves fields r.1 r.2.length) AnyError := by
  obtain ⟨hle, rfl⟩ := h
  unfold element
  cases hrest : fields.drop done.length with
  | nil => exact (ends_any _).bind fun _ _ _ => ⟨hle, by rw [hrest]⟩
  | cons type types =>
    refine (ends_any (item type)).bind fun value _ _ => ⟨?_, ?_⟩
    · have hlength := congrArg List.length hrest
      rw [List.length_drop, List.length_cons] at hlength
      show done.length + 1 ≤ fields.length
      omega
    · show Slots.each types = .each (fields.drop (done.length + 1))
      rw [← List.tail_drop, hrest, List.tail_cons]

theorem elementsFrom_leaves : ∀ (bound : Nat) {slots : Slots} {done : List Value} {s : Parsing},
    Leaves fields slots done.length →
      Ends (elementsFrom item close bound slots done) src s (fun r _ => Leaves fields r.1 r.2.length)
        AnyError
  | 0, _, _, _, h => h
  | bound + 1, slots, done, s, h => by
    refine Ends.bind (ends_holding.mpr (element_leaves h)) fun r s' hr => ?_
    refine Ends.bind (ends_holding.mpr (ends_any (atEnd close))) fun last s'' _ => ?_
    cases last with
    | true => exact hr
    | false => exact elementsFrom_leaves bound hr

/-- **The fields without an element are the last ones**, whatever the elements are: as many are kept as
there are fields, or fewer. -/
theorem elements_leaves :
    Ends (elements item close (.each fields)) src s (fun r _ => Leaves fields r.1 r.2.length) AnyError := by
  unfold elements
  refine (ends_any _).bind fun _ s' _ => (ends_any (accept close)).bind fun closed s'' _ => ?_
  cases closed with
  | true => exact ⟨Nat.zero_le _, rfl⟩
  | false =>
    rw [if_neg (by decide), ends_read]
    refine Ends.bind (elementsFrom_leaves src.size ⟨Nat.zero_le fields.length, rfl⟩) fun r s₃ hr => ?_
    refine (ends_holding.mpr (ends_any advance)).bind fun _ _ _ => ?_
    rw [ends_pure, List.length_reverse]
    exact hr

end Parser

/-- **Parsed values are well typed**, at any type of any table in which aggregates say of what they are
made, cyclic or not. A struct literal may give more elements than there are fields, or fewer: never more are
kept, so the fields that get a default are those behind the elements. -/
theorem parsed_well_typed (ctx : TypeContext) (hbare : ctx.types.NoBareAggregates) :
    (∀ heap depth type text store value, (parse ctx heap depth type text store).1 = .ok value →
      HasType ctx.types type value.datum) ∧
    ∀ item close fields src s, Parser.Ends (Parser.elements item close (.each fields)) src s
      (fun r _ => r.2.length ≤ fields.length ∧ r.1.missing = fields.drop r.2.length) Parser.AnyError := by
  constructor
  · intro heap depth type text store value h
    exact hasType_of_parse hbare h
  · intro item close fields src s
    refine Parser.elements_leaves.mono (fun r _ hleaves => ?_) fun _ _ h => h
    obtain ⟨hle, hslots⟩ := hleaves
    exact ⟨hle, by rw [hslots]; rfl⟩

/-- A struct with a number, further instances of the struct, and another number. -/
def treeContext : TypeContext where
  types := (TypeTable.builtins.push (.struct ⟨0⟩ [⟨1⟩, ⟨9⟩, ⟨1⟩])).push (.vector ⟨8⟩)
  structs := #[⟨"Tree", ["number", "children", "weight"]⟩]

/-- A tree without a weight of its own, and its only child. -/
def tree : Value :=
  .vector ⟨4⟩ ⟨8⟩ [.int (-1), .vector ⟨3⟩ ⟨9⟩ [.vector ⟨2⟩ ⟨8⟩ [.int 2, .vector ⟨0⟩ ⟨9⟩ [], .int 3]], .int 0]

/-- The text of the tree leaves out the weight, and that of its child has an element too many. -/
theorem parsed_well_typed_tree :
    treeContext.types.NoBareAggregates ∧
      (parse treeContext ⟨0⟩ 9 .any "Tree\x7b-1, [Tree\x7b2, [], 3, [nil]\x7d]\x7d" .empty).1 = .ok tree ∧
      HasType treeContext.types .any tree.datum := by
  have hbare : treeContext.types.NoBareAggregates := by decide
  have hlexed : Lexed.ofText "Tree\x7b-1, [Tree\x7b2, [], 3, [nil]\x7d]\x7d" = ⟨[⟨.name "Tree", 1⟩,
      ⟨.leftCurly, 1⟩, ⟨.minus, 1⟩, ⟨.int 1, 1⟩, ⟨.comma, 1⟩, ⟨.leftBracket, 1⟩, ⟨.name "Tree", 1⟩,
      ⟨.leftCurly, 1⟩, ⟨.int 2, 1⟩, ⟨.comma, 1⟩, ⟨.leftBracket, 1⟩, ⟨.rightBracket, 1⟩, ⟨.comma, 1⟩,
      ⟨.int 3, 1⟩, ⟨.comma, 1⟩, ⟨.leftBracket, 1⟩, ⟨.nil, 1⟩, ⟨.rightBracket, 1⟩, ⟨.rightCurly, 1⟩,
      ⟨.rightBracket, 1⟩, ⟨.rightCurly, 1⟩], .ok 1⟩ := rfl
  have hread : (parse treeContext ⟨0⟩ 9 .any "Tree\x7b-1, [Tree\x7b2, [], 3, [nil]\x7d]\x7d" .empty).1 =
      .ok tree := by
    unfold parse
    rw [hlexed]
    -- the search for the struct by its name unfolds only here
    with_unfolding_all rfl
  exact ⟨hbare, hread, (parsed_well_typed treeContext hbare).1 ⟨0⟩ 9 .any _ .empty tree hread⟩

end Literal

namespace Module

variable {m : Module} {natives : Option NativeRegistry}

theorem noBareAggregates_of_verify (h : m.verify natives = .ok ()) : m.types.NoBareAggregates := by
  have htypes := typesFault?_eq_none_iff.mp (verify_ok_iff.mp h).1
  intro descriptor hmem
  have hvalid := htypes descriptor hmem
  exact ⟨by rintro rfl; exact hvalid.1 rfl, by rintro rfl; exact hvalid.2 rfl⟩

theorem hasType_of_parse (h : m.verify natives = .ok ()) {heap : Literal.HeapId} {depth : Nat}
    {type : TypeIndex} {text : String} {store : Literal.Store} {value : Literal.Value}
    (hread : (Literal.parse m.typeContext heap depth type text store).1 = .ok value) :
    Literal.HasType m.types type value.datum := by
  have hbare : m.typeContext.types.NoBareAggregates := noBareAggregates_of_verify h
  exact Literal.hasType_of_parse hbare hread

end Module

end Wordcode
