import Wordcode.Proofs.Growing
import Wordcode.Proofs.Literal.Equality
import Wordcode.Proofs.Literal.RoundTrip

/-! # Literals in wider contexts

A context that has further types and structs behind those of another one finds everything that the other one
finds: an index keeps its entry, and the first struct of a name and the first type of a struct stay the first
ones, whatever is behind them (`TypeContext.Extends`). So a literal stays a literal of the same datum
(`Derives.widened`), and a text that parsed goes on to parse as an equal value (`parse_widened`). -/

namespace Wordcode

theorem findIdx?_of_prefix_toList {α : Type} {entries entries' : Array α} {p : α → Bool}
    (h : entries.toList <+: entries'.toList) {i : Nat} (hi : entries.findIdx? p = some i) :
    entries'.findIdx? p = some i := by
  have hlist (entries : Array α) : entries.findIdx? p = entries.toList.findIdx? p := by
    rw [← List.findIdx?_toArray, Array.toArray_toList]
  rw [hlist] at hi ⊢
  exact h.findIdx?_eq_some hi

namespace TypeContext

/-- The types and structs of `ctx` are the first ones of `ctx'`. -/
structure Extends (ctx' ctx : TypeContext) : Prop where
  types : ctx.types.entries.toList <+: ctx'.types.entries.toList
  structs : ctx.structs.toList <+: ctx'.structs.toList

variable {ctx ctx' : TypeContext} (h : ctx'.Extends ctx) {type found : TypeIndex} {id : StructIndex}
include h

theorem Extends.get? {descriptor : TypeDescriptor} (hd : ctx.types.get? type = some descriptor) :
    ctx'.types.get? type = some descriptor := getElem?_of_prefix_toList h.types hd

theorem Extends.kind? {kind : TypeKind} (hk : ctx.types.kind? type = some kind) :
    ctx'.types.kind? type = some kind := by
  obtain ⟨descriptor, hd, rfl⟩ := Option.map_eq_some_iff.mp hk
  rw [TypeTable.kind?, h.get? hd]
  rfl

theorem Extends.structName? {name : String} (hn : ctx.structName? id = some name) :
    ctx'.structName? id = some name := by
  obtain ⟨info, hinfo, rfl⟩ := Option.map_eq_some_iff.mp hn
  exact Option.map_eq_some_iff.mpr ⟨info, getElem?_of_prefix_toList h.structs hinfo, rfl⟩

/-- **The type that a name leads to stays the same**, also if what is behind has the name once more. -/
theorem Extends.structTypeNamed? {name : String} (hn : ctx.structTypeNamed? name = some found) :
    ctx'.structTypeNamed? name = some found := by
  obtain ⟨id, hid, htype⟩ := Option.bind_eq_some_iff.mp hn
  obtain ⟨i, hi, rfl⟩ := Option.map_eq_some_iff.mp hid
  obtain ⟨j, hj, rfl⟩ := Option.map_eq_some_iff.mp htype
  have hid' : ctx'.structNamed? name = some (.ofNat i) :=
    Option.map_eq_some_iff.mpr ⟨i, findIdx?_of_prefix_toList h.structs hi, rfl⟩
  rw [TypeContext.structTypeNamed?, hid']
  exact Option.map_eq_some_iff.mpr ⟨j, findIdx?_of_prefix_toList h.types hj, rfl⟩

end TypeContext

namespace Literal

/-! ### Derivations -/

theorem mapM_some_of_imp {α β : Type} {f g : α → Option β} (h : ∀ {a b}, f a = some b → g a = some b) :
    ∀ {l : List α} {r : List β}, l.mapM f = some r → l.mapM g = some r
  | [], _, hr => hr
  | a :: l, r, hr => by
    rw [List.mapM_cons, Option.bind_eq_bind, Option.bind_eq_some_iff] at hr
    obtain ⟨b, hb, hr⟩ := hr
    obtain ⟨bs, hbs, hr⟩ := Option.bind_eq_some_iff.mp hr
    rw [List.mapM_cons, h hb, mapM_some_of_imp h hbs]
    exact hr

section Widened
variable {ctx ctx' : TypeContext} (h : ctx'.Extends ctx) {type : TypeIndex} {datum : Datum}
include h

theorem defaultDatum?_widened (hd : defaultDatum? ctx type = some datum) :
    defaultDatum? ctx' type = some datum := by
  obtain ⟨kind, known, hdefault⟩ := Option.bind_eq_some_iff.mp hd
  rw [defaultDatum?, h.kind? known, Option.bind_some, hdefault]

theorem Frame.widened {opening : List Token} {close : Token} {vectorType : TypeIndex} {slots : Parser.Slots}
    (hf : Frame ctx type opening close vectorType slots) :
    Frame ctx' type opening close vectorType slots := by
  cases hf with
  | vector described => exact .vector (h.get? described)
  | anyVector described admits => exact .anyVector (h.get? described) admits
  | struct described named => exact .struct (h.get? described) (h.structName? named)
  | anyStruct described admits named describedFound =>
    exact .anyStruct (h.get? described) admits (h.structTypeNamed? named) (h.get? describedFound)

/-- **A literal stays a literal of the same datum** when the context gets wider, at every limit. -/
theorem Derives.widened : ∀ {depth : Nat} {type : TypeIndex} {W : List Token} {datum : Datum},
    Derives ctx depth type W datum → Derives ctx' depth type W datum
  | depth + 1, type, W, datum, hd => by
    cases hd with
    | scalar known stands admits => exact Rule.scalar (h.kind? known) stands admits
    | minus known signs derived negates => exact Rule.minus (h.kind? known) signs derived.widened negates
    | aggregate frame body missing =>
      exact Rule.aggregate (frame.widened h) (body.mono Derives.widened)
        (mapM_some_of_imp (defaultDatum?_widened h) missing)

end Widened

/-! ### Texts -/

section Texts
variable {ctx ctx' : TypeContext} {heap : HeapId} {depth : Nat} {type : TypeIndex} {text : String}
  {datum : Datum} {store : Store} {value : Value}

theorem IsLiteral.widened (h : ctx'.Extends ctx) (hliteral : IsLiteral ctx depth type text datum) :
    IsLiteral ctx' depth type text datum := by
  obtain ⟨W, derived, hyields⟩ := hliteral
  exact ⟨W, derived.widened h, hyields⟩

theorem IsLiteral.numerical (h : IsLiteral ctx depth type text datum) : datum.Numerical := by
  obtain ⟨W, derived, hread⟩ := h.readable
  have hne : ∀ {datum : Datum}, datum.Readable ctx → datum ≠ .float .nan := by
    rintro _ hd rfl
    exact hd rfl
  refine derived.forall_parts (fun ht hd => hne (Token.readable_of_datum? ht hd))
    (fun {operand datum} hn ho => ?_) (fun hd => hne (readable_default hd))
    (fun _ _ _ => Datum.noConfusion) hread
  cases operand <;> cases hn
  · exact Datum.noConfusion
  · exact fun he => Double.neg_ne_nan (fun hx => ho (by rw [hx])) (Datum.float.inj he)

/-- **A text goes on to parse** in a wider context, at the same limit, and its value is an equal one. -/
theorem parse_widened (h : ctx'.Extends ctx) (hparse : (parse ctx heap depth type text store).1 = .ok value)
    (heap' : HeapId) (store' : Store) :
    ∃ value', (parse ctx' heap' depth type text store').1 = .ok value' ∧ value'.datum = value.datum ∧
      value'.eqv value = true := by
  have hliteral := isLiteral_of_parse hparse
  obtain ⟨value', hparse', hdatum⟩ := exists_parse_of_isLiteral heap' store' (hliteral.widened h)
  exact ⟨value', hparse', hdatum, Value.eqv_of_datum_eq hdatum (hdatum ▸ hliteral.numerical)⟩

end Texts

end Literal

end Wordcode
