import Mathlib.Algebra.Order.BigOperators.Group.Multiset
import Mathlib.Algebra.Order.Group.Nat
import Mathlib.Data.List.Pairwise
import Wordcode.Proofs.Literal.Accounts

/-! # Reachable objects

The objects that can be reached from values are those among their parts, each counted once by its identity
(`objectsOf`). In a store whose accounts are in order these are the objects that live
(`Accounts.coe_objectsOf`): nothing that can be reached is released, and nothing lives on that cannot. -/

namespace Wordcode.Literal

namespace Value

mutual

/-- The values that a value is built of, itself included. -/
def parts : Value → List Value
  | vector id type elements => vector id type elements :: partsOfAll elements
  | value => [value]

/-- The parts of each of the values. -/
def partsOfAll : List Value → List Value
  | [] => []
  | value :: values => parts value ++ partsOfAll values

end

theorem mem_parts_self : ∀ v : Value, v ∈ v.parts
  | nil | int _ | float _ | string .. | vector .. => by simp [parts]

theorem mem_partsOfAll {w : Value} : ∀ {values : List Value},
    w ∈ partsOfAll values ↔ ∃ v ∈ values, w ∈ v.parts
  | [] => by simp [partsOfAll]
  | v :: values => by simp [partsOfAll, mem_partsOfAll]

theorem mem_parts {w : Value} : ∀ {v : Value}, w ∈ v.parts ↔ w = v ∨ ∃ u ∈ v.elements, w ∈ u.parts
  | nil | int _ | float _ | string .. => by simp [parts, elements]
  | vector id type es => by rw [parts, List.mem_cons, mem_partsOfAll, elements]

theorem sizeOf_lt_of_mem_elements {v w : Value} (h : v ∈ w.elements) : sizeOf v < sizeOf w := by
  cases w with
  | vector id type elements =>
    have := List.sizeOf_lt_of_mem (show v ∈ elements from h)
    simp only [vector.sizeOf_spec]
    omega
  | _ => cases h

theorem mem_parts_of_mem_elements {u w : Value} (hu : u ∈ w.elements) (v : Value) (hw : w ∈ v.parts) :
    u ∈ v.parts := by
  rcases mem_parts.mp hw with rfl | ⟨x, hx, hw⟩
  · exact mem_parts.mpr (.inr ⟨u, hu, mem_parts_self u⟩)
  · exact mem_parts.mpr (.inr ⟨x, hx, mem_parts_of_mem_elements hu x hw⟩)
termination_by sizeOf v
decreasing_by exact sizeOf_lt_of_mem_elements hx

end Value

/-- The objects among the parts of values, each once. -/
def objectsOf (values : List Value) : List Value :=
  ((Value.partsOfAll values).filter (·.objectId?.isSome)).pwFilter (·.objectId? ≠ ·.objectId?)

variable {n : Nat} {s : Store} {live : Multiset Value} {roots : List Value} {v w : Value}

theorem pairwise_objectsOf (values : List Value) :
    (objectsOf values).Pairwise (·.objectId? ≠ ·.objectId?) := List.pairwise_pwFilter _

namespace Accounts

theorem mem_of_parts (h : Accounts n s live roots) (v : Value) (hv : v.objectId? ≠ none → v ∈ live)
    (hw : w ∈ v.parts) (hobject : w.objectId? ≠ none) : w ∈ live := by
  rcases Value.mem_parts.mp hw with rfl | ⟨u, hu, hw⟩
  · exact hv hobject
  · have hne : v.objectId? ≠ none := by
      cases v with
      | vector => simp [Value.objectId?]
      | _ => cases hu
    refine h.mem_of_parts u (fun hn => h.closed u ?_ hn) hw hobject
    exact Multiset.mem_add.mpr (.inr (Multiset.mem_bind.mpr ⟨v, hv hne, hu⟩))
termination_by sizeOf v
decreasing_by exact Value.sizeOf_lt_of_mem_elements hu

/-- What lives can be reached: an object is held from outside, or by an object of greater size. -/
theorem exists_root (h : Accounts n s live roots) (v : Value) (hv : v ∈ live) :
    ∃ root ∈ roots, v ∈ root.parts := by
  obtain ⟨id, hid⟩ := Option.ne_none_iff_exists'.mp (h.objects v hv)
  have hheld := h.held v hv id hid
  rw [h.holders, places_pos] at hheld
  obtain ⟨w, hw, hwid⟩ := hheld
  rw [h.eq_of_objectId? (h.closed w hw (by rw [hwid]; simp)) hv (hwid.trans hid.symm)] at hw
  rcases Multiset.mem_add.mp hw with hw | hw
  · exact ⟨v, hw, Value.mem_parts_self v⟩
  · obtain ⟨u, hu, hvu⟩ := Multiset.mem_bind.mp hw
    obtain ⟨root, hroot, hpart⟩ := h.exists_root u hu
    exact ⟨root, hroot, Value.mem_parts_of_mem_elements hvu root hpart⟩
termination_by (live.map sizeOf).sum - sizeOf v
decreasing_by
  have hle := Multiset.le_sum_of_mem (Multiset.mem_map_of_mem sizeOf hu)
  have hlt := Value.sizeOf_lt_of_mem_elements hvu
  omega

theorem mem_objectsOf (h : Accounts n s live roots) :
    v ∈ objectsOf roots ↔ v.objectId? ≠ none ∧ ∃ root ∈ roots, v ∈ root.parts := by
  have hsome : ∀ w ∈ objectsOf roots, w.objectId? ≠ none ∧ ∃ root ∈ roots, w ∈ root.parts := by
    intro w hw
    obtain ⟨hparts, hobject⟩ := List.mem_filter.mp ((List.pwFilter_subset _) hw)
    exact ⟨Option.isSome_iff_ne_none.mp hobject, Value.mem_partsOfAll.mp hparts⟩
  have hlive : ∀ w, w.objectId? ≠ none → (∃ root ∈ roots, w ∈ root.parts) → w ∈ live := by
    rintro w hobject ⟨root, hroot, hw⟩
    exact h.mem_of_parts root (fun hn => h.closed root (Multiset.mem_add.mpr (.inl hroot)) hn) hw hobject
  refine ⟨hsome v, fun ⟨hobject, hroot⟩ => ?_⟩
  -- of the parts with the identity of `v` one is taken, and `v` is the only one
  have hmem : v ∈ (Value.partsOfAll roots).filter (·.objectId?.isSome) :=
    List.mem_filter.mpr ⟨Value.mem_partsOfAll.mpr hroot, Option.isSome_iff_ne_none.mpr hobject⟩
  have htaken : ¬ ∀ w ∈ objectsOf roots, v.objectId? ≠ w.objectId? := by
    intro hall
    refine (List.forall_mem_pwFilter (fun {x y z} hxz => ?_) v _).mp hall v hmem rfl
    by_cases hxy : x.objectId? = y.objectId?
    · exact .inr (hxy ▸ hxz)
    · exact .inl hxy
  obtain ⟨w, hw, he⟩ : ∃ w ∈ objectsOf roots, v.objectId? = w.objectId? := by
    by_contra hnone
    exact htaken fun w hw he => hnone ⟨w, hw, he⟩
  obtain ⟨hwobject, hwroot⟩ := hsome w hw
  rwa [h.eq_of_objectId? (hlive v hobject hroot) (hlive w hwobject hwroot) he]

/-- **The objects that live are those that can be reached.** -/
theorem coe_objectsOf (h : Accounts n s live roots) : (objectsOf roots : Multiset Value) = live := by
  have hnodup : (objectsOf roots).Nodup :=
    (pairwise_objectsOf roots).imp fun hne he => hne (congrArg Value.objectId? he)
  refine (Multiset.Nodup.ext (Multiset.coe_nodup.mpr hnodup) (Multiset.Nodup.of_map _ h.distinct)).mpr
    fun v => ?_
  rw [Multiset.mem_coe, h.mem_objectsOf]
  constructor
  · rintro ⟨hobject, root, hroot, hv⟩
    exact h.mem_of_parts root (fun hn => h.closed root (Multiset.mem_add.mpr (.inl hroot)) hn) hv hobject
  · exact fun hv => ⟨h.objects v hv, h.exists_root v hv⟩

end Accounts

end Wordcode.Literal
