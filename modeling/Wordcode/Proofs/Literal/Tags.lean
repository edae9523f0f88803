import Wordcode.Literal.Store
import Wordcode.TypeTable

/-! # Values without the tags of plain vectors

The tag of a vector that is no struct only says at which type it was read. Values that differ in nothing
but such tags are the same (`Value.Same`): they have the same objects with the same contents and the same
structs. A store does not look at tags, so it does not tell them apart (`Store.retain_same`,
`Store.releaseAll_same`). -/

namespace Wordcode

/-- The tag of a vector that is no struct, whatever its elements. -/
def TypeContext.plainTag (ctx : TypeContext) (tag : TypeIndex) : TypeIndex :=
  match ctx.types.get? tag with
  | some (.struct _ _) => tag
  | _ => .vectorAny

theorem TypeContext.plainTag_vectorAny (ctx : TypeContext) : ctx.plainTag .vectorAny = .vectorAny := by
  unfold plainTag
  split <;> rfl

namespace Literal

namespace Value

mutual

/-- The value in which all vectors but structs have the same tag. -/
def untagged (ctx : TypeContext) : Value → Value
  | nil => nil
  | int value => int value
  | float value => float value
  | string id text => string id text
  | vector id tag elements => vector id (ctx.plainTag tag) (untaggedAll ctx elements)

/-- The values, one by one. -/
def untaggedAll (ctx : TypeContext) : List Value → List Value
  | [] => []
  | value :: values => value.untagged ctx :: untaggedAll ctx values

end

variable {ctx : TypeContext}

theorem untaggedAll_eq_map (values : List Value) : untaggedAll ctx values = values.map (untagged ctx) := by
  induction values with
  | nil => rfl
  | cons value values ih => rw [untaggedAll, ih, List.map_cons]

theorem objectId?_untagged (value : Value) : (value.untagged ctx).objectId? = value.objectId? := by
  cases value <;> rfl

theorem negate?_untagged (value : Value) : (value.untagged ctx).negate? = value.negate? := by
  cases value <;> rfl

/-- The same value, up to the tags of plain vectors. -/
def Same (ctx : TypeContext) (v v' : Value) : Prop := v'.untagged ctx = v.untagged ctx

/-- The same values, up to the tags of plain vectors. -/
def SameAll (ctx : TypeContext) (values values' : List Value) : Prop :=
  untaggedAll ctx values' = untaggedAll ctx values

section SameAll

variable {v v' : Value} {values values' more more' : List Value}

theorem SameAll.cons (hv : Same ctx v v') (h : SameAll ctx values values') :
    SameAll ctx (v :: values) (v' :: values') := by
  show v'.untagged ctx :: untaggedAll ctx values' = v.untagged ctx :: untaggedAll ctx values
  rw [hv, h]

theorem SameAll.append (h : SameAll ctx values values') (hmore : SameAll ctx more more') :
    SameAll ctx (values ++ more) (values' ++ more') := by
  simp only [SameAll, untaggedAll_eq_map, List.map_append] at h hmore ⊢
  rw [h, hmore]

theorem SameAll.reverse (h : SameAll ctx values values') : SameAll ctx values.reverse values'.reverse := by
  simp only [SameAll, untaggedAll_eq_map, List.map_reverse] at h ⊢
  rw [h]

end SameAll

theorem Same.negate?_eq {v v' : Value} (h : Same ctx v v') : v'.negate? = v.negate? := by
  have hnegate : (v'.untagged ctx).negate? = (v.untagged ctx).negate? := congrArg negate? h
  rwa [negate?_untagged, negate?_untagged] at hnegate

end Value

namespace Store

variable {ctx : TypeContext}

theorem retain_untagged (s : Store) (value : Value) : s.retain (value.untagged ctx) = s.retain value := by
  rw [retain, retain, Value.objectId?_untagged]

theorem retain_same {v v' : Value} (s : Store) (h : Value.Same ctx v v') : s.retain v' = s.retain v := by
  have hretain : s.retain (v'.untagged ctx) = s.retain (v.untagged ctx) := congrArg s.retain h
  rwa [retain_untagged, retain_untagged] at hretain

mutual

theorem release_untagged : ∀ (s : Store) (value : Value), s.release (value.untagged ctx) = s.release value
  | _, .nil | _, .int _ | _, .float _ | _, .string _ _ => rfl
  | s, .vector id tag elements => by
    rw [Value.untagged, release, release]
    simp only [releaseAll_untagged]

theorem releaseAll_untagged : ∀ (s : Store) (values : List Value),
    s.releaseAll (Value.untaggedAll ctx values) = s.releaseAll values
  | _, [] => rfl
  | s, value :: values => by
    rw [Value.untaggedAll, releaseAll, releaseAll, release_untagged, releaseAll_untagged]

end

theorem releaseAll_same {values values' : List Value} (s : Store) (h : Value.SameAll ctx values values') :
    s.releaseAll values' = s.releaseAll values := by
  have hrelease := congrArg s.releaseAll (show Value.untaggedAll ctx values' = Value.untaggedAll ctx values from h)
  rwa [releaseAll_untagged, releaseAll_untagged] at hrelease

end Store

end Literal

end Wordcode
