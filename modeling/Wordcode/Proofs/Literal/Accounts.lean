import Mathlib.Data.Multiset.Bind
import Wordcode.Literal.Store

/-! # Accounts of a store

The accounts of a store are in order if its counts are those of the objects that live (`Accounts`): what
is held lives, an object has as many holders as there are places that hold it, which are roots and slots
of vectors that live, and every heap counts the objects on it. Making an object, adding a holder and
letting go keep the accounts in order (`Accounted.newVector`, `Accounted.retain`, `Accounted.release`). -/

namespace Wordcode.Literal

/-- The elements of a vector. -/
def Value.elements : Value → List Value
  | vector _ _ elements => elements
  | _ => []

/-- The number of places that hold an object. -/
def places (id : ObjectId) (held : Multiset Value) : Nat := held.countP (·.objectId? = some id)

/-- The slots of objects. -/
def slotsOf (objects : Multiset Value) : Multiset Value := objects.bind fun v => v.elements

theorem places_cons_of_eq {id : ObjectId} {v : Value} {held : Multiset Value}
    (h : v.objectId? = some id) : places id (v ::ₘ held) = places id held + 1 :=
  Multiset.countP_cons_of_pos _ h

theorem places_cons_of_ne {id : ObjectId} {v : Value} {held : Multiset Value}
    (h : v.objectId? ≠ some id) : places id (v ::ₘ held) = places id held :=
  Multiset.countP_cons_of_neg _ h

theorem places_add (id : ObjectId) (a b : Multiset Value) :
    places id (a + b) = places id a + places id b := Multiset.countP_add _ _ _

theorem places_pos {id : ObjectId} {held : Multiset Value} :
    0 < places id held ↔ ∃ v ∈ held, v.objectId? = some id := Multiset.countP_pos

theorem slotsOf_cons (v : Value) (objects : Multiset Value) :
    slotsOf (v ::ₘ objects) = v.elements + slotsOf objects := Multiset.cons_bind _ _ _

/-- Where an object stands is held from outside in the place of its elements. -/
theorem cons_add_slotsOf_cons (v : Value) (roots objects : Multiset Value) :
    v ::ₘ roots + slotsOf (v ::ₘ objects) = v ::ₘ (v.elements + roots + slotsOf objects) := by
  rw [slotsOf_cons, Multiset.cons_add, add_left_comm, add_assoc]

/-- The objects of a heap, where the first object is of a known one. -/
theorem countP_cons_heap {place : ObjectId → Option HeapId} {heap k : HeapId} {v : Value}
    {objects : Multiset Value} (h : v.objectId?.bind place = some heap) :
    (v ::ₘ objects).countP (·.objectId?.bind place = some k) =
      objects.countP (·.objectId?.bind place = some k) + if k = heap then 1 else 0 := by
  rw [Multiset.countP_cons, h]
  simp only [Option.some.injEq, eq_comm]

namespace Store

variable {s : Store} {id i : ObjectId} {heap h : HeapId}

/-- The heap on which an object was made. -/
def heap? (s : Store) (id : ObjectId) : Option HeapId := (s.objects[id.number]?).map (·.heap)

theorem holders_eq (s : Store) (id : ObjectId) :
    s.holders id = ((s.objects[id.number]?).map (·.holders)).getD 0 := by
  rw [holders, Array.getD_eq_getD_getElem?]
  cases s.objects[id.number]? <;> rfl

theorem stats_eq (s : Store) (heap : HeapId) : s.stats heap = (s.heaps[heap.number]?).getD {} := by
  rw [stats, Array.getD_eq_getD_getElem?]

theorem lt_of_holders_pos (hp : 0 < s.holders id) : id.number < s.objects.size := by
  by_contra hlt
  rw [holders_eq, Array.getElem?_eq_none (by omega)] at hp
  cases hp

theorem heap?_isSome_iff : (s.heap? id).isSome ↔ id.number < s.objects.size := by
  rw [heap?, Option.isSome_map]
  simp

/-! ### New objects -/

theorem holders_fresh (s : Store) (heap : HeapId) : s.holders (s.allocate heap).1 = 0 := by
  by_contra hne
  exact Nat.lt_irrefl _ (lt_of_holders_pos (Nat.pos_of_ne_zero hne))

theorem holders_allocate : (s.allocate heap).2.holders i =
    if i = (s.allocate heap).1 then 1 else s.holders i := by
  obtain ⟨n⟩ := i
  rw [holders_eq, holders_eq]
  simp only [allocate, Array.getElem?_push, ObjectId.mk.injEq]
  split_ifs <;> rfl

theorem heap?_allocate : (s.allocate heap).2.heap? i =
    if i = (s.allocate heap).1 then some heap else s.heap? i := by
  obtain ⟨n⟩ := i
  simp only [heap?, allocate, Array.getElem?_push, ObjectId.mk.injEq]
  split_ifs <;> rfl

theorem size_allocate : (s.allocate heap).2.heaps.size = s.heaps.size := Array.size_modify

theorem stats_allocate (hk : heap.number < s.heaps.size) : (s.allocate heap).2.stats h =
    if h = heap then
      { s.stats h with live := (s.stats h).live + 1, allocated := (s.stats h).allocated + 1 }
    else s.stats h := by
  obtain ⟨n⟩ := h
  obtain ⟨m⟩ := heap
  rw [stats_eq, stats_eq]
  simp only [allocate, Array.getElem?_modify, HeapId.mk.injEq]
  by_cases hn : n = m
  · subst hn
    rw [if_pos rfl, if_pos rfl, Array.getElem?_eq_getElem hk]
    rfl
  · rw [if_neg (Ne.symm hn), if_neg hn]

/-! ### Holders -/

theorem retain_of_none {v : Value} (hv : v.objectId? = none) : s.retain v = s := by
  unfold retain
  rw [hv]

theorem heaps_retain (v : Value) : (s.retain v).heaps = s.heaps := by
  unfold retain
  cases v.objectId? <;> rfl

theorem heap?_retain (v : Value) : (s.retain v).heap? i = s.heap? i := by
  unfold retain heap?
  cases v.objectId? with
  | none => rfl
  | some id =>
    rw [Array.getElem?_modify]
    split_ifs
    · rw [Option.map_map]; rfl
    · rfl

theorem holders_retain {v : Value} (hv : v.objectId? = some id) (hk : id.number < s.objects.size) :
    (s.retain v).holders i = if i = id then s.holders i + 1 else s.holders i := by
  obtain ⟨n⟩ := i
  obtain ⟨m⟩ := id
  unfold retain
  rw [hv, holders_eq, holders_eq]
  simp only [Array.getElem?_modify, ObjectId.mk.injEq]
  by_cases hn : n = m
  · subst hn
    rw [if_pos rfl, if_pos rfl, Array.getElem?_eq_getElem hk]
    rfl
  · rw [if_neg (Ne.symm hn), if_neg hn]

theorem letGo_fst : (s.letGo id).1 = decide (s.holders id = 1) := by
  unfold letGo
  rw [holders_eq]
  cases s.objects[id.number]? with
  | none => rfl
  | some o =>
    by_cases h : o.holders = 1
    · simp [h]
    · simp [h]

theorem heap?_letGo : (s.letGo id).2.heap? i = s.heap? i := by
  obtain ⟨n⟩ := i
  unfold letGo
  cases ho : s.objects[id.number]? with
  | none => rfl
  | some o =>
    have hset : ((s.objects.set! id.number { o with holders := o.holders - 1 })[n]?).map (·.heap) =
        (s.objects[n]?).map (·.heap) := by
      rw [Array.set!_eq_setIfInBounds, Array.getElem?_setIfInBounds]
      split_ifs with hn hlt
      · rw [← hn, ho]; rfl
      · rw [← hn, Array.getElem?_eq_none (by omega)]
      · rfl
    dsimp only
    split_ifs <;> exact hset

theorem holders_letGo : (s.letGo id).2.holders i =
    if i = id then s.holders i - 1 else s.holders i := by
  obtain ⟨n⟩ := i
  obtain ⟨m⟩ := id
  unfold letGo
  cases ho : s.objects[m]? with
  | none =>
    simp only [ObjectId.mk.injEq]
    split_ifs with hn
    · rw [hn, holders_eq, ho]; rfl
    · rfl
  | some o =>
    have hset : (((s.objects.set! m { o with holders := o.holders - 1 })[n]?).map (·.holders)).getD 0 =
        if n = m then s.holders ⟨n⟩ - 1 else s.holders ⟨n⟩ := by
      rw [Array.set!_eq_setIfInBounds, Array.getElem?_setIfInBounds, holders_eq]
      by_cases hn : n = m
      · subst hn
        rw [if_pos rfl, if_pos rfl, if_pos (Array.getElem?_eq_some_iff.mp ho).1, ho]
        rfl
      · rw [if_neg (Ne.symm hn), if_neg hn]
    simp only [ObjectId.mk.injEq]
    rw [← hset]
    split_ifs <;> rw [holders_eq]

theorem size_letGo : (s.letGo id).2.heaps.size = s.heaps.size := by
  unfold letGo
  cases s.objects[id.number]? with
  | none => rfl
  | some o =>
    dsimp only
    split_ifs
    · exact Array.size_modify
    · rfl

theorem stats_letGo (hk : heap.number < s.heaps.size) (hheap : s.heap? id = some heap) :
    (s.letGo id).2.stats h = if s.holders id = 1 ∧ h = heap then
        { s.stats h with live := (s.stats h).live - 1, released := (s.stats h).released + 1 }
      else s.stats h := by
  obtain ⟨n⟩ := h
  unfold heap? at hheap
  unfold letGo
  rw [holders_eq]
  cases ho : s.objects[id.number]? with
  | none => rw [ho] at hheap; cases hheap
  | some o =>
    rw [ho, Option.map_some, Option.some.injEq] at hheap
    subst hheap
    simp only [Option.map_some, Option.getD_some]
    by_cases hone : o.holders = 1
    · rw [if_pos hone, stats_eq, stats_eq]
      simp only [Array.getElem?_modify]
      by_cases hn : n = o.heap.number
      · subst hn
        rw [if_pos rfl, if_pos ⟨hone, rfl⟩, Array.getElem?_eq_getElem hk]
        rfl
      · rw [if_neg (Ne.symm hn), if_neg fun h => hn (congrArg HeapId.number h.2)]
    · rw [if_neg hone, if_neg fun h => hone h.1]
      rfl

end Store

/-! ### Accounts -/

/-- **The accounts of a store are in order**: `live` are the objects that live, each once, and `roots` are
the places outside of them that hold values. The store has `n` heaps. -/
structure Accounts (n : Nat) (s : Store) (live roots : Multiset Value) : Prop where
  size : s.heaps.size = n
  distinct : (live.map Value.objectId?).Nodup
  objects : ∀ v ∈ live, v.objectId? ≠ none
  closed : ∀ v ∈ roots + slotsOf live, v.objectId? ≠ none → v ∈ live
  held : ∀ v ∈ live, ∀ id, v.objectId? = some id → 0 < s.holders id
  holders : ∀ id, s.holders id = places id (roots + slotsOf live)
  known : ∀ id heap, s.heap? id = some heap → heap.number < n
  counted : ∀ heap, (s.stats heap).live = live.countP (·.objectId?.bind s.heap? = some heap)
  balanced : ∀ heap, (s.stats heap).live + (s.stats heap).released = (s.stats heap).allocated

/-- The accounts are in order for some objects. -/
def Accounted (n : Nat) (s : Store) (roots : Multiset Value) : Prop :=
  ∃ live, Accounts n s live roots

variable {n : Nat} {s : Store} {live roots : Multiset Value} {v : Value} {id : ObjectId}

namespace Accounts

/-- Of the objects that live only one has a given identity. -/
theorem eq_of_objectId? (h : Accounts n s live roots) {w : Value} (hv : v ∈ live) (hw : w ∈ live)
    (he : v.objectId? = w.objectId?) : v = w :=
  Multiset.inj_on_of_nodup_map h.distinct v hv w hw he

theorem cons_iff_of_none (hv : v.objectId? = none) :
    Accounts n s live (v ::ₘ roots) ↔ Accounts n s live roots := by
  have hplaces : ∀ id, places id (v ::ₘ roots + slotsOf live) = places id (roots + slotsOf live) := by
    intro id
    rw [Multiset.cons_add, places_cons_of_ne (by rw [hv]; simp)]
  constructor
  · intro h
    refine ⟨h.size, h.distinct, h.objects, fun w hw hn => h.closed w ?_ hn, h.held,
      fun id => (h.holders id).trans (hplaces id), h.known, h.counted, h.balanced⟩
    rw [Multiset.cons_add]
    exact Multiset.mem_cons_of_mem hw
  · intro h
    refine ⟨h.size, h.distinct, h.objects, fun w hw hn => ?_, h.held,
      fun id => (h.holders id).trans (hplaces id).symm, h.known, h.counted, h.balanced⟩
    rw [Multiset.cons_add, Multiset.mem_cons] at hw
    rcases hw with rfl | hw
    · exact absurd hv hn
    · exact h.closed w hw hn

theorem retain (h : Accounts n s live roots) (hv : v.objectId? ≠ none → v ∈ live) :
    Accounts n (s.retain v) live (v ::ₘ roots) := by
  cases hid : v.objectId? with
  | none =>
    rw [Store.retain_of_none hid]
    exact (cons_iff_of_none hid).mpr h
  | some id =>
    have hlive : v ∈ live := hv (by rw [hid]; simp)
    have hk := Store.lt_of_holders_pos (h.held v hlive id hid)
    have hstats : ∀ heap, (s.retain v).stats heap = s.stats heap := by
      intro heap
      rw [Store.stats, Store.heaps_retain, Store.stats]
    refine ⟨by rw [Store.heaps_retain, h.size], h.distinct, h.objects, ?_, ?_, ?_, ?_, ?_, ?_⟩
    · intro w hw hn
      rw [Multiset.cons_add, Multiset.mem_cons] at hw
      rcases hw with rfl | hw
      · exact hlive
      · exact h.closed w hw hn
    · intro w hw i hi
      rw [Store.holders_retain hid hk]
      split_ifs
      · omega
      · exact h.held w hw i hi
    · intro i
      rw [Store.holders_retain hid hk, Multiset.cons_add]
      split_ifs with hi
      · rw [places_cons_of_eq (hi ▸ hid), h.holders]
      · rw [places_cons_of_ne (by rw [hid]; simpa using Ne.symm hi), h.holders]
    · intro i heap hi
      exact h.known i heap (Store.heap?_retain v ▸ hi)
    · intro heap
      rw [hstats, h.counted, show (s.retain v).heap? = s.heap? from funext fun _ => Store.heap?_retain v]
    · intro heap
      rw [hstats]
      exact h.balanced heap

theorem of_cons (h : Accounts n s live (v ::ₘ roots)) (hid : v.objectId? = some id) :
    v ∈ live ∧ ∃ heap, s.heap? id = some heap ∧ heap.number < s.heaps.size := by
  have hlive : v ∈ live := h.closed v (by simp) (by rw [hid]; simp)
  have hlt := Store.lt_of_holders_pos (h.held v hlive id hid)
  obtain ⟨heap, hheap⟩ := Option.isSome_iff_exists.mp (Store.heap?_isSome_iff.mpr hlt)
  exact ⟨hlive, heap, hheap, h.size ▸ h.known id heap hheap⟩

theorem letGo (h : Accounts n s live (v ::ₘ roots)) (hid : v.objectId? = some id)
    (hmore : s.holders id ≠ 1) : Accounts n (s.letGo id).2 live roots := by
  obtain ⟨hlive, heap, hheap, hlt⟩ := h.of_cons hid
  have hstats : ∀ h, (s.letGo id).2.stats h = s.stats h := fun h => by
    rw [Store.stats_letGo hlt hheap, if_neg fun h => hmore h.1]
  have hholders := h.holders
  simp only [Multiset.cons_add] at hholders
  refine ⟨Store.size_letGo.trans h.size, h.distinct, h.objects, fun w hw hn => h.closed w ?_ hn,
    fun w hw i hi => ?_, fun i => ?_, fun i heap hi => h.known i heap (Store.heap?_letGo ▸ hi),
    fun heap => ?_, fun heap => ?_⟩
  · rw [Multiset.cons_add]
    exact Multiset.mem_cons_of_mem hw
  · have := h.held w hw i hi
    rw [Store.holders_letGo]
    split_ifs with he
    · subst he; omega
    · exact this
  · rw [Store.holders_letGo, hholders]
    split_ifs with he
    · rw [he, places_cons_of_eq hid, Nat.add_sub_cancel]
    · exact places_cons_of_ne (by rw [hid]; simpa using Ne.symm he)
  · rw [hstats, h.counted, show (s.letGo id).2.heap? = s.heap? from funext fun _ => Store.heap?_letGo]
  · rw [hstats]
    exact h.balanced heap

/-- The last holder lets go of an object: its elements are held from outside of the objects that live
until they are let go as well. -/
theorem letGo_last (h : Accounts n s live (v ::ₘ roots)) (hid : v.objectId? = some id)
    (hlast : s.holders id = 1) :
    ∃ live', Accounts n (s.letGo id).2 live' (v.elements + roots) := by
  obtain ⟨hlive, heap, hheap, hlt⟩ := h.of_cons hid
  obtain ⟨live', rfl⟩ := Multiset.exists_cons_of_mem hlive
  obtain ⟨hnot, hdistinct⟩ := Multiset.nodup_cons.mp (Multiset.map_cons _ v live' ▸ h.distinct)
  have hclosed := h.closed
  have hholders := h.holders
  simp only [cons_add_slotsOf_cons] at hclosed hholders
  -- no place but the one that lets go holds the object
  have hzero : places id (v.elements + roots + slotsOf live') = 0 := by
    have := hholders id
    rw [hlast, places_cons_of_eq hid] at this
    omega
  have hother : ∀ w ∈ live', w.objectId? ≠ some id := fun w hw he =>
    hnot (Multiset.mem_map.mpr ⟨w, hw, he.trans hid.symm⟩)
  have hheap? : (s.letGo id).2.heap? = s.heap? := funext fun _ => Store.heap?_letGo
  have hcounted : ∀ k, (s.stats k).live =
      live'.countP (·.objectId?.bind s.heap? = some k) + if k = heap then 1 else 0 := fun k => by
    rw [h.counted, countP_cons_heap (by rw [hid]; exact hheap)]
  refine ⟨live', Store.size_letGo.trans h.size, hdistinct,
    fun w hw => h.objects w (Multiset.mem_cons_of_mem hw), fun w hw hn => ?_, fun w hw i hi => ?_,
    fun i => ?_, fun i heap hi => h.known i heap (Store.heap?_letGo ▸ hi), fun k => ?_, fun k => ?_⟩
  · refine (Multiset.mem_cons.mp (hclosed w (Multiset.mem_cons_of_mem hw) hn)).resolve_left ?_
    rintro rfl
    exact absurd hzero (places_pos.mpr ⟨w, hw, hid⟩).ne'
  · have hne : i ≠ id := fun he => hother w hw (he ▸ hi)
    rw [Store.holders_letGo, if_neg hne]
    exact h.held w (Multiset.mem_cons_of_mem hw) i hi
  · rw [Store.holders_letGo]
    split_ifs with he
    · rw [he, hlast, hzero]
    · rw [hholders, places_cons_of_ne (by rw [hid]; simpa using Ne.symm he)]
  · have hlive := hcounted k
    rw [hheap?, Store.stats_letGo hlt hheap]
    simp only [hlast, true_and]
    split_ifs at hlive ⊢
    · exact Nat.sub_eq_of_eq_add hlive
    · exact hlive
  · have hlive := hcounted k
    have hbalanced := h.balanced k
    rw [Store.stats_letGo hlt hheap]
    simp only [hlast, true_and]
    split_ifs at hlive ⊢
    · dsimp only
      omega
    · exact hbalanced

/-- A new object takes over its elements from their holder and is held in their place. -/
theorem allocate {heap : HeapId} (h : Accounts n s live (v.elements + roots)) (hheap : heap.number < n)
    (hid : v.objectId? = some (s.allocate heap).1) :
    Accounts n (s.allocate heap).2 (v ::ₘ live) (v ::ₘ roots) := by
  set id := (s.allocate heap).1 with hid'
  have hfresh : s.holders id = 0 := s.holders_fresh heap
  have hother : ∀ w ∈ live, w.objectId? ≠ some id := fun w hw he => by
    have := h.held w hw id he
    omega
  have hsame : ∀ w ∈ live, w.objectId?.bind (s.allocate heap).2.heap? = w.objectId?.bind s.heap? := by
    intro w hw
    cases hi : w.objectId? with
    | none => rfl
    | some i =>
      have hne : i ≠ id := fun he => hother w hw (he ▸ hi)
      rw [Option.bind_some, Option.bind_some, Store.heap?_allocate]
      exact if_neg hne
  have hon : v.objectId?.bind (s.allocate heap).2.heap? = some heap := by
    rw [hid, Option.bind_some, Store.heap?_allocate, if_pos rfl]
  refine ⟨Store.size_allocate.trans h.size, ?_, ?_, ?_, ?_, ?_, ?_, fun k => ?_, fun k => ?_⟩
  · rw [Multiset.map_cons, Multiset.nodup_cons]
    refine ⟨fun hm => ?_, h.distinct⟩
    obtain ⟨w, hw, he⟩ := Multiset.mem_map.mp hm
    exact hother w hw (he.trans hid)
  · intro w hw
    rcases Multiset.mem_cons.mp hw with rfl | hw
    · rw [hid]; simp
    · exact h.objects w hw
  · rw [cons_add_slotsOf_cons]
    intro w hw hn
    rcases Multiset.mem_cons.mp hw with rfl | hw
    · exact Multiset.mem_cons_self w live
    · exact Multiset.mem_cons_of_mem (h.closed w hw hn)
  · intro w hw i hi
    rw [Store.holders_allocate]
    split_ifs with he
    · exact Nat.one_pos
    · refine h.held w ((Multiset.mem_cons.mp hw).resolve_left ?_) i hi
      rintro rfl
      exact he (Option.some.inj (hi.symm.trans hid))
  · intro i
    rw [Store.holders_allocate, cons_add_slotsOf_cons]
    split_ifs with he
    · rw [he, places_cons_of_eq hid, ← h.holders, hfresh]
    · rw [places_cons_of_ne (by rw [hid]; simpa using Ne.symm he), h.holders]
  · intro i k hi
    rw [Store.heap?_allocate] at hi
    split_ifs at hi
    · rw [← Option.some.inj hi]; exact hheap
    · exact h.known i k hi
  · rw [Store.stats_allocate (h.size ▸ hheap), countP_cons_heap hon,
      Multiset.countP_congr rfl fun w hw => by rw [hsame w hw], ← h.counted]
    split_ifs <;> rfl
  · have hbalanced := h.balanced k
    rw [Store.stats_allocate (h.size ▸ hheap)]
    split_ifs
    · dsimp only
      omega
    · exact hbalanced

end Accounts

/-! ### Accounts in order -/

theorem accounted_empty : Accounted 0 .empty 0 := by
  refine ⟨0, rfl, by simp, by simp, by simp [slotsOf], by simp, fun id => ?_, fun id heap h => ?_,
    fun heap => ?_, fun heap => ?_⟩
  · rw [Store.holders_eq]; simp [Store.empty, places, slotsOf]
  · simp [Store.heap?, Store.empty] at h
  · rw [Store.stats_eq, Multiset.countP_zero]; simp [Store.empty]
  · rw [Store.stats_eq]; simp [Store.empty]

namespace Accounted

theorem cons_iff_of_none (hv : v.objectId? = none) :
    Accounted n s (v ::ₘ roots) ↔ Accounted n s roots :=
  exists_congr fun _ => Accounts.cons_iff_of_none hv

theorem add_iff_of_none : ∀ {values : List Value}, (∀ v ∈ values, v.objectId? = none) →
    (Accounted n s (values + roots) ↔ Accounted n s roots)
  | [], _ => by rw [Multiset.coe_nil, zero_add]
  | v :: values, h => by
    rw [← Multiset.cons_coe, Multiset.cons_add, cons_iff_of_none (h v List.mem_cons_self),
      add_iff_of_none fun w hw => h w (List.mem_cons_of_mem _ hw)]

theorem addHeap (h : Accounted n s roots) : Accounted (n + 1) s.addHeap.2 roots := by
  obtain ⟨live, h⟩ := h
  have hstats : ∀ heap, s.addHeap.2.stats heap = s.stats heap := by
    intro heap
    rw [Store.stats_eq, Store.stats_eq, Store.addHeap, Array.getElem?_push]
    split_ifs with he
    · rw [he, Array.getElem?_eq_none (Nat.le_refl _)]
      rfl
    · rfl
  refine ⟨live, ?_, h.distinct, h.objects, h.closed, h.held, h.holders,
    fun id heap hi => Nat.lt_succ_of_lt (h.known id heap hi), fun heap => ?_, fun heap => ?_⟩
  · rw [Store.addHeap, Array.size_push, h.size]
  · rw [hstats]; exact h.counted heap
  · rw [hstats]; exact h.balanced heap

theorem retain (h : Accounted n s roots) (hv : v ∈ roots ∨ ∃ w ∈ roots, v ∈ w.elements) :
    Accounted n (s.retain v) (v ::ₘ roots) := by
  obtain ⟨live, h⟩ := h
  refine ⟨live, h.retain fun hn => h.closed v ?_ hn⟩
  rcases hv with hv | ⟨w, hw, hv⟩
  · exact Multiset.mem_add.mpr (.inl hv)
  · have hobject : w.objectId? ≠ none := by
      cases w with
      | nil | int | float | string => cases hv
      | vector => simp [Value.objectId?]
    exact Multiset.mem_add.mpr (.inr (Multiset.mem_bind.mpr
      ⟨w, h.closed w (Multiset.mem_add.mpr (.inl hw)) hobject, hv⟩))

theorem retainAll : ∀ {values : List Value} {s : Store} {roots : Multiset Value},
    Accounted n s roots → (∀ v ∈ values, v ∈ roots) →
      Accounted n (s.retainAll values) (values + roots)
  | [], _, roots, h, _ => (zero_add roots).symm ▸ h
  | v :: values, s, roots, h, hv => by
    have hrest : Accounted n ((s.retain v).retainAll values) (values + v ::ₘ roots) :=
      retainAll (h.retain (.inl (hv v List.mem_cons_self)))
        fun w hw => Multiset.mem_cons_of_mem (hv w (List.mem_cons_of_mem _ hw))
    rw [Multiset.add_cons, ← Multiset.cons_add, Multiset.cons_coe] at hrest
    exact hrest

mutual

/-- **Letting go of a value** keeps the accounts in order, whatever it releases. -/
theorem release : ∀ {v : Value} {s : Store} {roots : Multiset Value}, Accounted n s (v ::ₘ roots) →
    Accounted n (s.release v) roots
  | .nil, _, _, h | .int _, _, _, h | .float _, _, _, h => (cons_iff_of_none rfl).mp h
  | .string id text, s, roots, h => by
    obtain ⟨live, h⟩ := h
    by_cases hlast : s.holders id = 1
    · obtain ⟨live', h'⟩ := h.letGo_last rfl hlast
      exact ⟨live', (zero_add roots).subst h'⟩
    · exact ⟨live, h.letGo rfl hlast⟩
  | .vector id type elements, s, roots, h => by
    obtain ⟨live, h⟩ := h
    rw [Store.release]
    by_cases hlast : s.holders id = 1
    · obtain ⟨live', h'⟩ := h.letGo_last rfl hlast
      simp only [Store.letGo_fst, hlast, decide_true, if_true]
      exact releaseAll ⟨live', h'⟩
    · simp only [Store.letGo_fst, hlast, decide_false]
      exact ⟨live, h.letGo rfl hlast⟩

theorem releaseAll : ∀ {values : List Value} {s : Store} {roots : Multiset Value},
    Accounted n s (values + roots) → Accounted n (s.releaseAll values) roots
  | [], _, roots, h => (zero_add roots).subst h
  | v :: values, s, roots, h => by
    rw [Store.releaseAll]
    rw [← Multiset.cons_coe, Multiset.cons_add] at h
    exact releaseAll (release h)

end

theorem newString {heap : HeapId} (h : Accounted n s roots) (hheap : heap.number < n)
    (text : String) :
    Accounted n (s.newString heap text).2 ((s.newString heap text).1 ::ₘ roots) := by
  obtain ⟨live, h⟩ := h
  exact ⟨_, Accounts.allocate (v := .string (s.allocate heap).1 text)
    ((zero_add roots).symm.subst h) hheap rfl⟩

theorem newVector {heap : HeapId} {elements : List Value} (h : Accounted n s (elements + roots))
    (hheap : heap.number < n) (type : TypeIndex) :
    Accounted n (s.newVector heap type elements).2
      ((s.newVector heap type elements).1 ::ₘ roots) := by
  obtain ⟨live, h⟩ := h
  exact ⟨_, Accounts.allocate (v := .vector (s.allocate heap).1 type elements) h hheap rfl⟩

end Accounted

end Wordcode.Literal
