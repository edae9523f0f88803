import Wordcode.Proofs.Literal.Reachable

/-! # Growth of a store

Objects are only ever added to a store: adding a holder and letting go change counts, but neither the
objects nor what was allocated (`Store.Grown`). The objects that values are built of (`objectParts`) are
held in these values and in each other, once for each time they occur (`places_objectParts`). -/

namespace Wordcode.Literal

/-! ### The objects of values -/

/-- The objects among the parts of values, one for each time they occur. -/
def objectParts (values : List Value) : List Value :=
  (Value.partsOfAll values).filter (·.objectId?.isSome)

/-- The identities of the objects among the parts of values, one for each time they occur. -/
def idsOf (values : List Value) : List ObjectId :=
  (Value.partsOfAll values).filterMap Value.objectId?

theorem idsOf_cons (v : Value) (values : List Value) :
    idsOf (v :: values) = idsOf [v] ++ idsOf values := by
  simp only [idsOf, Value.partsOfAll, List.append_nil, List.filterMap_append]

theorem idsOf_append : ∀ as bs : List Value, idsOf (as ++ bs) = idsOf as ++ idsOf bs
  | [], bs => rfl
  | a :: as, bs => by
    rw [List.cons_append, idsOf_cons, idsOf_append as bs, idsOf_cons a as, List.append_assoc]

theorem idsOf_reverse_perm : ∀ values : List Value, (idsOf values.reverse).Perm (idsOf values)
  | [] => .refl _
  | v :: values => by
    rw [List.reverse_cons, idsOf_append, idsOf_cons v values]
    exact ((idsOf_reverse_perm values).append_right _).trans List.perm_append_comm

theorem idsOf_eq_nil : ∀ {values : List Value}, (∀ v ∈ values, v.objectId? = none) →
    idsOf values = []
  | [], _ => rfl
  | v :: values, h => by
    obtain ⟨hv, hvalues⟩ := List.forall_mem_cons.mp h
    rw [idsOf_cons, idsOf_eq_nil hvalues]
    cases v with
    | nil | int | float => rfl
    | string | vector => cases hv

theorem idsOf_vector (id : ObjectId) (type : TypeIndex) (elements : List Value) :
    idsOf [.vector id type elements] = id :: idsOf elements := by
  simp [idsOf, Value.partsOfAll, Value.parts, Value.objectId?]

theorem idsOf_eq_filterMap (values : List Value) :
    idsOf values = (objectParts values).filterMap Value.objectId? := by
  unfold idsOf objectParts
  rw [List.filterMap_filter]
  refine List.filterMap_congr fun v _ => ?_
  cases v.objectId? <;> rfl

theorem length_objectParts (values : List Value) :
    (objectParts values).length = (idsOf values).length := by
  rw [idsOf, List.length_filterMap_eq_countP, objectParts, List.countP_eq_length_filter]

theorem mem_idsOf {values : List Value} {v : Value} {id : ObjectId} (hv : v ∈ objectParts values)
    (hid : v.objectId? = some id) : id ∈ idsOf values := by
  rw [idsOf_eq_filterMap]
  exact List.mem_filterMap.mpr ⟨v, hv, hid⟩

namespace Value

mutual

/-- A part of a value is the value itself or stands in a slot of one of its parts. -/
theorem coe_parts : ∀ v : Value, (v.parts : Multiset Value) = v ::ₘ slotsOf v.parts
  | nil | int _ | float _ | string .. => by simp [parts, slotsOf, elements]
  | vector id type es => by
    rw [parts, ← Multiset.cons_coe, slotsOf_cons, elements, ← coe_partsOfAll es]

theorem coe_partsOfAll : ∀ values : List Value,
    (partsOfAll values : Multiset Value) = values + slotsOf (partsOfAll values)
  | [] => by simp [partsOfAll, slotsOf]
  | v :: values =>
    calc (partsOfAll (v :: values) : Multiset Value)
      _ = v.parts + partsOfAll values := (Multiset.coe_add _ _).symm
      _ = v ::ₘ slotsOf v.parts + (values + slotsOf (partsOfAll values)) := by
        rw [← coe_parts v, ← coe_partsOfAll values]
      _ = v ::ₘ values + (slotsOf v.parts + slotsOf (partsOfAll values)) := by
        rw [Multiset.cons_add, Multiset.cons_add, add_left_comm]
      _ = (v :: values : List Value) + slotsOf (partsOfAll (v :: values)) := by
        rw [Multiset.cons_coe, partsOfAll, ← Multiset.coe_add, slotsOf, slotsOf, slotsOf,
          Multiset.add_bind]

end

end Value

theorem slotsOf_objectParts (values : List Value) :
    slotsOf (objectParts values) = slotsOf (Value.partsOfAll values) := by
  have hall : ∀ parts : List Value,
      slotsOf (parts.filter (·.objectId?.isSome)) = slotsOf parts := by
    intro parts
    induction parts with
    | nil => rfl
    | cons v parts ih =>
      cases v with
      | nil | int | float =>
        rw [List.filter_cons_of_neg (by simp [Value.objectId?]), ih, ← Multiset.cons_coe, slotsOf_cons]
        simp [Value.elements]
      | string | vector =>
        rw [List.filter_cons_of_pos (by simp [Value.objectId?]), ← Multiset.cons_coe, slotsOf_cons, ih,
          ← Multiset.cons_coe, slotsOf_cons]
  exact hall _

/-- **The objects that values are built of are held as often as they occur**, in these values and in
each other. -/
theorem places_objectParts (id : ObjectId) (values : List Value) :
    places id (values + slotsOf (objectParts values)) = (idsOf values).count id := by
  rw [slotsOf_objectParts, ← Value.coe_partsOfAll, idsOf, List.count_filterMap, places,
    Multiset.coe_countP]
  refine List.countP_congr fun v _ => ?_
  simp

namespace Store

variable {s s' s'' : Store} {heap : HeapId} {k l : Nat}

/-- The heaps of the objects, in the order in which they were made. -/
def homes (s : Store) : List HeapId := s.objects.toList.map (·.heap)

theorem heap?_eq (s : Store) (id : ObjectId) : s.heap? id = s.homes[id.number]? := by
  rw [heap?, homes, List.getElem?_map, Array.getElem?_toList]

theorem length_homes (s : Store) : s.homes.length = s.objects.size := by
  rw [homes, List.length_map, Array.length_toList]

theorem homes_eq_of_heap? (h : ∀ id, s'.heap? id = s.heap? id) : s'.homes = s.homes := by
  refine List.ext_getElem? fun i => ?_
  rw [← heap?_eq s' ⟨i⟩, ← heap?_eq s ⟨i⟩, h]

theorem homes_allocate (s : Store) (heap : HeapId) :
    (s.allocate heap).2.homes = s.homes ++ [heap] := by
  simp [homes, allocate]

/-- Objects were added on a heap, and what was there is there still. -/
structure Grown (heap : HeapId) (k : Nat) (s s' : Store) : Prop where
  homes : s'.homes = s.homes ++ List.replicate k heap
  heaps : s'.heaps.size = s.heaps.size
  allocated : ∀ h, (s'.stats h).allocated = (s.stats h).allocated + if h = heap then k else 0

theorem Grown.refl (heap : HeapId) (s : Store) : Grown heap 0 s s :=
  ⟨(List.append_nil _).symm, rfl, fun h => by rw [ite_self]; rfl⟩

theorem Grown.trans (h : Grown heap k s s') (h' : Grown heap l s' s'') :
    Grown heap (k + l) s s'' where
  homes := by rw [h'.homes, h.homes, List.append_assoc, ← List.replicate_add]
  heaps := h'.heaps.trans h.heaps
  allocated i := by
    rw [h'.allocated, h.allocated]
    split_ifs <;> omega

theorem Grown.size (h : Grown heap k s s') : s'.objects.size = s.objects.size + k := by
  rw [← length_homes, ← length_homes, h.homes, List.length_append, List.length_replicate]

theorem Grown.heap?_old (h : Grown heap k s s') {id : ObjectId} (hid : id.number < s.objects.size) :
    s'.heap? id = s.heap? id := by
  rw [heap?_eq, heap?_eq, h.homes, List.getElem?_append_left (by rwa [length_homes])]

theorem Grown.heap?_new (h : Grown heap k s s') {id : ObjectId} (hold : s.objects.size ≤ id.number)
    (hnew : id.number < s'.objects.size) : s'.heap? id = some heap := by
  have hsize := h.size
  rw [heap?_eq, h.homes, List.getElem?_append_right (by rwa [length_homes]), length_homes,
    List.getElem?_replicate_of_lt (by omega)]

theorem grown_allocate (hheap : heap.number < s.heaps.size) :
    Grown heap 1 s (s.allocate heap).2 where
  homes := s.homes_allocate heap
  heaps := size_allocate
  allocated h := by
    rw [stats_allocate hheap]
    split_ifs <;> rfl

/-- A step after which the objects are on the same heaps and what was allocated is the same. -/
theorem grown_zero (hheap? : ∀ id, s'.heap? id = s.heap? id) (hsize : s'.heaps.size = s.heaps.size)
    (hallocated : ∀ h, (s'.stats h).allocated = (s.stats h).allocated) : Grown heap 0 s s' where
  homes := by rw [homes_eq_of_heap? hheap?, List.replicate_zero, List.append_nil]
  heaps := hsize
  allocated h := by rw [hallocated, ite_self]; rfl

theorem grown_retain (v : Value) : Grown heap 0 s (s.retain v) :=
  grown_zero (fun _ => heap?_retain v) (by rw [heaps_retain])
    fun h => by rw [stats, heaps_retain, ← stats]

theorem allocated_letGo (s : Store) (id : ObjectId) (h : HeapId) :
    ((s.letGo id).2.stats h).allocated = (s.stats h).allocated := by
  unfold letGo
  cases s.objects[id.number]? with
  | none => rfl
  | some o =>
    rw [apply_ite Prod.snd, stats_eq, stats_eq]
    split_ifs
    · dsimp only
      rw [Array.getElem?_modify]
      split_ifs
      · cases s.heaps[h.number]? <;> rfl
      · rfl
    · rfl

theorem grown_letGo (id : ObjectId) : Grown heap 0 s (s.letGo id).2 :=
  grown_zero (fun _ => heap?_letGo) size_letGo (allocated_letGo s id)

mutual

theorem grown_release : ∀ (v : Value) (s : Store), Grown heap 0 s (s.release v)
  | .nil, s | .int _, s | .float _, s => .refl heap s
  | .string id text, s => grown_letGo id
  | .vector id type elements, s => by
    rw [release]
    show Grown heap 0 s
      (if (s.letGo id).1 then (s.letGo id).2.releaseAll elements else (s.letGo id).2)
    split_ifs
    · exact (grown_letGo id).trans (grown_releaseAll elements _)
    · exact grown_letGo id

theorem grown_releaseAll : ∀ (values : List Value) (s : Store), Grown heap 0 s (s.releaseAll values)
  | [], s => .refl heap s
  | v :: values, s => by
    rw [releaseAll]
    exact (grown_release v s).trans (grown_releaseAll values _)

end

end Store

end Wordcode.Literal
