import Wordcode.Proofs.Literal.Built
import Wordcode.Proofs.Literal.RoundTrip

/-! # What a parse leaves behind

A parse that succeeds hands over its value: of the objects that it made those in the value live, each in
one place, and the others are released (`parse_hands_over`). A parse that fails has released them all
(`failed_parse_undone`). In both cases the objects from before are held as before. All that is asked of
the store is that its accounts are in order, as they are after any run (`Registers.run_inOrder`).

The accounts of the stores before and after decide all of this: what lives are the objects that can be
reached (`Accounts.coe_objectsOf`), so the objects of the value have been added to those that lived
(`Accounts.live_eq`), and every count is one of objects that live. -/

namespace Wordcode.Literal

variable {n made : Nat} {s s' : Store} {heap : HeapId} {live live' roots : Multiset Value}
  {kept : List Value}

/-! ### The objects that were added -/

theorem Accounts.lt_size (h : Accounts n s live roots) {v : Value} {id : ObjectId} (hv : v ∈ live)
    (hid : v.objectId? = some id) : id.number < s.objects.size :=
  Store.lt_of_holders_pos (h.held v hv id hid)

theorem nodup_objectParts (h : (idsOf kept).Nodup) :
    ((objectParts kept).map Value.objectId?).Nodup := by
  have hsome : (objectParts kept).map Value.objectId? = (idsOf kept).map some := by
    rw [idsOf_eq_filterMap, List.map_filterMap]
    refine (List.filterMap_eq_map_iff_forall_eq_some.mpr fun v hv => ?_).symm
    obtain ⟨id, hid⟩ := Option.isSome_iff_exists.mp (List.mem_filter.mp hv).2
    rw [hid]
    rfl
  rw [hsome]
  exact h.map (Option.some_injective _)

theorem Accounts.mem_live_iff (h : Accounts n s live roots) {v : Value} :
    v ∈ live ↔ v.objectId? ≠ none ∧ ∃ root ∈ roots, v ∈ root.parts := by
  induction roots using Quot.inductionOn with
  | _ roots => rw [← h.coe_objectsOf, Multiset.mem_coe, h.mem_objectsOf]; rfl

/-- **The objects of values that are new are added to those that live.** -/
theorem Accounts.live_eq (h : Accounts n s live roots) (h' : Accounts n s' live' (kept + roots))
    (honce : (idsOf kept).Nodup) (hfresh : ∀ id ∈ idsOf kept, s.objects.size ≤ id.number) :
    live' = objectParts kept + live := by
  have hnodup : ((objectParts kept : Multiset Value) + live).Nodup := by
    refine Multiset.Nodup.of_map Value.objectId? ?_
    rw [Multiset.map_add, Multiset.nodup_add]
    refine ⟨nodup_objectParts honce, h.distinct, Multiset.disjoint_left.mpr fun {id?} hkept hlive => ?_⟩
    obtain ⟨v, hv, rfl⟩ := Multiset.mem_map.mp hlive
    obtain ⟨id, hid⟩ := Option.ne_none_iff_exists'.mp (h.objects v hv)
    obtain ⟨w, hw, hwid⟩ := Multiset.mem_map.mp hkept
    have hold := h.lt_size hv hid
    have hnew := hfresh id (mem_idsOf hw (hwid.trans hid))
    omega
  refine (Multiset.Nodup.ext (Multiset.Nodup.of_map _ h'.distinct) hnodup).mpr fun v => ?_
  have hparts : v ∈ (objectParts kept : Multiset Value) ↔
      v.objectId? ≠ none ∧ ∃ root ∈ kept, v ∈ root.parts := by
    rw [Multiset.mem_coe, objectParts, List.mem_filter, Value.mem_partsOfAll,
      Option.isSome_iff_ne_none, and_comm]
  simp only [h'.mem_live_iff, Multiset.mem_add, h.mem_live_iff, hparts, Multiset.mem_coe, or_and_right,
    exists_or, and_or_left]

/-! ### What is gained -/

/-- What a store has gained since another one: of the objects that were made on a heap those of the
values live, and the others are released. -/
structure Store.Gained (heap : HeapId) (made : Nat) (kept : List Value) (s s' : Store) : Prop where
  length_le : (idsOf kept).length ≤ made
  live : ∀ k, (s'.stats k).live = (s.stats k).live + if k = heap then (idsOf kept).length else 0
  released : ∀ k, (s'.stats k).released =
    (s.stats k).released + if k = heap then made - (idsOf kept).length else 0
  holders : ∀ id, s'.holders id = (idsOf kept).count id + s.holders id

/-- Distinct identities in a range of numbers are not more than there are numbers. -/
theorem length_le_of_range {ids : List ObjectId} {first : Nat} (honce : ids.Nodup)
    (hrange : ∀ id ∈ ids, first ≤ id.number ∧ id.number < first + made) : ids.length ≤ made := by
  have hsub : ids.map (·.number) ⊆ List.range' first made := by
    intro number hnumber
    obtain ⟨id, hid, rfl⟩ := List.mem_map.mp hnumber
    exact List.mem_range'_1.mpr (hrange id hid)
  have hnumbers : (ids.map (·.number)).Nodup :=
    honce.map fun a b hab => by cases a; cases b; cases hab; rfl
  simpa using (hnumbers.subperm hsub).length_le

/-- Of the objects that are added all are on the heap where they were made, and the others stay where
they are. -/
theorem Accounts.countP_heap (h : Accounts n s live roots) (hgrown : Store.Grown heap made s s')
    (hkept : ∀ id ∈ idsOf kept, s.objects.size ≤ id.number ∧ id.number < s'.objects.size)
    (k : HeapId) :
    (objectParts kept + live).countP (·.objectId?.bind s'.heap? = some k) =
      live.countP (·.objectId?.bind s.heap? = some k) +
        if k = heap then (idsOf kept).length else 0 := by
  have hnew : ∀ v ∈ objectParts kept, v.objectId?.bind s'.heap? = some heap := by
    intro v hv
    obtain ⟨id, hid⟩ := Option.isSome_iff_exists.mp (List.mem_filter.mp hv).2
    obtain ⟨hle, hlt⟩ := hkept id (mem_idsOf hv hid)
    rw [hid]
    exact hgrown.heap?_new hle hlt
  have hold : ∀ v ∈ live, v.objectId?.bind s'.heap? = v.objectId?.bind s.heap? := by
    intro v hv
    obtain ⟨id, hid⟩ := Option.ne_none_iff_exists'.mp (h.objects v hv)
    rw [hid]
    exact hgrown.heap?_old (h.lt_size hv hid)
  have hcount : (objectParts kept).countP (·.objectId?.bind s'.heap? = some k) =
      if k = heap then (idsOf kept).length else 0 := by
    split_ifs with hk
    · rw [← length_objectParts]
      exact List.countP_eq_length.mpr fun v hv => by simpa [hk] using hnew v hv
    · refine List.countP_eq_zero.mpr fun v hv => ?_
      rw [hnew v hv]
      simpa using Ne.symm hk
  rw [Multiset.countP_add, Multiset.coe_countP, hcount,
    Multiset.countP_congr rfl fun v hv => by rw [hold v hv], Nat.add_comm]

/-- **What a store has gained**, if its accounts are in order with new values held in addition. -/
theorem Accounts.gained (h : Accounts n s live roots) (h' : Accounts n s' live' (kept + roots))
    (hgrown : Store.Grown heap made s s') (honce : (idsOf kept).Nodup)
    (hfresh : ∀ id ∈ idsOf kept, s.objects.size ≤ id.number) : Store.Gained heap made kept s s' := by
  obtain rfl := h.live_eq h' honce hfresh
  have hkept : ∀ id ∈ idsOf kept, s.objects.size ≤ id.number ∧ id.number < s'.objects.size := by
    intro id hid
    refine ⟨hfresh id hid, ?_⟩
    rw [idsOf_eq_filterMap, List.mem_filterMap] at hid
    obtain ⟨v, hv, hid⟩ := hid
    exact h'.lt_size (Multiset.mem_add.mpr (.inl (Multiset.mem_coe.mpr hv))) hid
  have hlength : (idsOf kept).length ≤ made :=
    length_le_of_range honce fun id hid => hgrown.size ▸ hkept id hid
  have hlive : ∀ k, (s'.stats k).live =
      (s.stats k).live + if k = heap then (idsOf kept).length else 0 := fun k => by
    rw [h'.counted, h.countP_heap hgrown hkept, ← h.counted]
  refine ⟨hlength, hlive, fun k => ?_, fun id => ?_⟩
  · -- what is made and does not live is released
    have hbefore := h.balanced k
    have hafter := h'.balanced k
    rw [hlive, hgrown.allocated] at hafter
    split_ifs at hafter ⊢ <;> omega
  · have hplaces : (kept + roots + slotsOf (objectParts kept + live) : Multiset Value) =
        kept + slotsOf (objectParts kept) + (roots + slotsOf live) := by
      rw [slotsOf, Multiset.add_bind, slotsOf, slotsOf, add_add_add_comm]
    rw [h'.holders, hplaces, places_add, places_objectParts, h.holders]

/-! ### Parses -/

/-- Nothing is left of the objects that were made on a heap: what lives is what lived before, with the
holders it had, and of the new objects none has a holder. Each was released, and there were as many
releases as objects, so each was released once. -/
structure Store.Undone (heap : HeapId) (made : Nat) (s s' : Store) : Prop where
  live : ∀ k, (s'.stats k).live = (s.stats k).live
  allocated : ∀ k, (s'.stats k).allocated = (s.stats k).allocated + if k = heap then made else 0
  released : ∀ k, (s'.stats k).released = (s.stats k).released + if k = heap then made else 0
  /-- The objects from before are held as before. -/
  old : ∀ id, id.number < s.objects.size → s'.holders id = s.holders id
  size : s'.objects.size = s.objects.size + made
  /-- The new objects were made on the heap and are released. -/
  new : ∀ id, s.objects.size ≤ id.number → id.number < s'.objects.size →
    s'.heap? id = some heap ∧ s'.holders id = 0

/-- A value is handed over: of the objects that were made on a heap it owns those that it is built of,
and the others are released. -/
structure Store.HandedOver (heap : HeapId) (made : Nat) (v : Value) (s s' : Store) : Prop where
  /-- Every object in the value occurs once. -/
  once : (idsOf [v]).Nodup
  /-- It was made on the heap since, and the value, or the vector that has it as an element, is its only
  holder. -/
  sole : ∀ id ∈ idsOf [v], s.objects.size ≤ id.number ∧ s'.heap? id = some heap ∧ s'.holders id = 1
  length_le : (idsOf [v]).length ≤ made
  live : ∀ k, (s'.stats k).live = (s.stats k).live + if k = heap then (idsOf [v]).length else 0
  allocated : ∀ k, (s'.stats k).allocated = (s.stats k).allocated + if k = heap then made else 0
  released : ∀ k, (s'.stats k).released =
    (s.stats k).released + if k = heap then made - (idsOf [v]).length else 0
  /-- The objects from before are held as before. -/
  old : ∀ id, id.number < s.objects.size → s'.holders id = s.holders id
  /-- The other new objects are released. -/
  dropped : ∀ id ∉ idsOf [v], s.objects.size ≤ id.number → s'.holders id = 0

theorem Store.holders_of_size_le {id : ObjectId} (hid : s.objects.size ≤ id.number) : s.holders id = 0 := by
  by_contra hne
  exact absurd (Store.lt_of_holders_pos (Nat.pos_of_ne_zero hne)) (Nat.not_lt_of_ge hid)

theorem Store.Gained.undone (h : Store.Gained heap made [] s s') (hgrown : Store.Grown heap made s s') :
    Store.Undone heap made s s' where
  live k := (h.live k).trans (by rw [show (idsOf []).length = 0 from rfl, ite_self, Nat.add_zero])
  allocated := hgrown.allocated
  released := h.released
  old id _ := (h.holders id).trans (Nat.zero_add _)
  size := hgrown.size
  new id hle hlt := ⟨hgrown.heap?_new hle hlt,
    ((h.holders id).trans (Nat.zero_add _)).trans (Store.holders_of_size_le hle)⟩

theorem Store.Gained.handedOver {v : Value} (h : Store.Gained heap made [v] s s')
    (hgrown : Store.Grown heap made s s') (honce : (idsOf [v]).Nodup)
    (hfresh : ∀ id ∈ idsOf [v], s.objects.size ≤ id.number) : Store.HandedOver heap made v s s' where
  once := honce
  sole id hid := by
    have hone : s'.holders id = 1 := by
      rw [h.holders, Store.holders_of_size_le (hfresh id hid), List.count_eq_one_of_mem honce hid]
    exact ⟨hfresh id hid, hgrown.heap?_new (hfresh id hid) (Store.lt_of_holders_pos (by omega)), hone⟩
  length_le := h.length_le
  live := h.live
  allocated := hgrown.allocated
  released := h.released
  old id hid := by
    have hnot : id ∉ idsOf [v] := fun hmem => absurd (hfresh id hmem) (Nat.not_le_of_lt hid)
    rw [h.holders, List.count_eq_zero_of_not_mem hnot, Nat.zero_add]
  dropped id hid hle := by
    rw [h.holders, List.count_eq_zero_of_not_mem hid, Store.holders_of_size_le hle]

/-- **A failed parse leaves nothing behind.** It makes objects on its heap only, and releases each of
them; all other objects are held as before. -/
theorem failed_parse_undone {roots : Multiset Value} (h : Accounted n s roots) (hheap : heap.number < n)
    (ctx : TypeContext) (type : TypeIndex) (text : String) :
    (∀ depth fault s', parse ctx heap depth type text s = (.error fault, s') →
      ∃ made, Store.Undone heap made s s') ∧
    (∀ v message s', parseData ctx heap type text s = ((v, some message), s') →
      ∃ made, Store.Undone heap made s s') := by
  obtain ⟨live, hlive⟩ := h
  have hparse : ∀ depth fault s', parse ctx heap depth type text s = (.error fault, s') →
      ∃ made, Store.Undone heap made s s' := by
    intro depth fault s' hp
    obtain ⟨live', hlive'⟩ := (parse_accounted ctx depth type text hheap ⟨live, hlive⟩).2 fault s' hp
    obtain ⟨made, hgrown⟩ := (parse_grown ctx depth type text (hlive.size ▸ hheap)).2 fault s' hp
    have hnothing : Accounts n s' live' (([] : List Value) + roots) := (zero_add roots).symm ▸ hlive'
    have hgained : Store.Gained heap made [] s s' :=
      hlive.gained hnothing hgrown List.nodup_nil fun id hid => by cases hid
    exact ⟨made, hgained.undone hgrown⟩
  refine ⟨hparse, fun v message s' hp => ?_⟩
  unfold parseData at hp
  split at hp
  · cases hp
  · next fault store hfault =>
    cases hp
    exact hparse _ fault s' hfault

/-- A store with one heap, and a string on it. -/
def storeOfOne : Store := (Store.empty.addHeap.2.newString ⟨0⟩ "old").2

theorem accounted_storeOfOne : Accounted 1 storeOfOne {.string ⟨0⟩ "old"} :=
  accounted_empty.addHeap.newString (by decide) "old"

/-- The missing bracket is found when two vectors have been made. -/
theorem failed_parse_undone_unclosed :
    Accounted 1 storeOfOne {.string ⟨0⟩ "old"} ∧
      parse builtinContext ⟨0⟩ 256 .any "[[[7]], 1" storeOfOne =
        (.error (.syntaxError 1 (.unexpected .comma .endOfFile)),
          ⟨#[⟨1, 3, 2⟩], #[⟨⟨0⟩, 1⟩, ⟨⟨0⟩, 0⟩, ⟨⟨0⟩, 0⟩]⟩) ∧
      parseData builtinContext ⟨0⟩ .any "[[[7]], 1" storeOfOne =
        ((.nil, some "line 1: `,` expected, found: `end of file`"),
          ⟨#[⟨1, 3, 2⟩], #[⟨⟨0⟩, 1⟩, ⟨⟨0⟩, 0⟩, ⟨⟨0⟩, 0⟩]⟩) ∧
      ∃ made, Store.Undone ⟨0⟩ made storeOfOne
        ⟨#[⟨1, 3, 2⟩], #[⟨⟨0⟩, 1⟩, ⟨⟨0⟩, 0⟩, ⟨⟨0⟩, 0⟩]⟩ := by
  have hlexed : Lexed.ofText "[[[7]], 1" = ⟨[⟨.leftBracket, 1⟩, ⟨.leftBracket, 1⟩, ⟨.leftBracket, 1⟩,
      ⟨.int 7, 1⟩, ⟨.rightBracket, 1⟩, ⟨.rightBracket, 1⟩, ⟨.comma, 1⟩, ⟨.int 1, 1⟩], .ok 1⟩ := rfl
  have hparse : parse builtinContext ⟨0⟩ 256 .any "[[[7]], 1" storeOfOne =
      (.error (.syntaxError 1 (.unexpected .comma .endOfFile)),
        ⟨#[⟨1, 3, 2⟩], #[⟨⟨0⟩, 1⟩, ⟨⟨0⟩, 0⟩, ⟨⟨0⟩, 0⟩]⟩) := by
    unfold parse
    rw [hlexed]
    rfl
  have hdata : parseData builtinContext ⟨0⟩ .any "[[[7]], 1" storeOfOne =
      ((.nil, some "line 1: `,` expected, found: `end of file`"),
        ⟨#[⟨1, 3, 2⟩], #[⟨⟨0⟩, 1⟩, ⟨⟨0⟩, 0⟩, ⟨⟨0⟩, 0⟩]⟩) := by
    unfold parseData
    rw [show ({} : LiteralSettings).maxDepth = 256 from rfl, hparse]
    rfl
  have hheap : (⟨0⟩ : HeapId).number < 1 := by decide
  obtain ⟨hundone, -⟩ :=
    failed_parse_undone accounted_storeOfOne hheap builtinContext .any "[[[7]], 1"
  exact ⟨accounted_storeOfOne, hparse, hdata, hundone _ _ _ hparse⟩

/-- **A successful parse hands over its value** and nothing else: the objects in it are new, each is held
in one place, and for every token that makes an object one was made; those that are not in the value are
released. -/
theorem parse_hands_over {roots : Multiset Value} (h : Accounted n s roots) (hheap : heap.number < n)
    {ctx : TypeContext} {depth : Nat} {type : TypeIndex} {text : String} {v : Value}
    (hp : parse ctx heap depth type text s = (.ok v, s')) :
    Store.HandedOver heap (objectTokens ((Lexed.ofText text).tokens.map (·.token))) v s s' := by
  obtain ⟨live, hlive⟩ := h
  obtain ⟨live', hlive'⟩ := (parse_accounted ctx depth type text hheap ⟨live, hlive⟩).1 v s' hp
  obtain ⟨hgrown, honce, hfresh⟩ := (parse_grown ctx depth type text (hlive.size ▸ hheap)).1 v s' hp
  have hgained : Store.Gained heap _ [v] s s' := hlive.gained hlive' hgrown honce hfresh
  exact hgained.handedOver hgrown honce hfresh

/-- A struct with one field for values of every type. -/
def boxContext : TypeContext := ⟨TypeTable.builtins.push (.struct ⟨0⟩ [.any]), #[⟨"Box", ["content"]⟩]⟩

/-- Of four objects two are handed over; the element beyond the field is dropped with its own element. -/
theorem parse_hands_over_box :
    Accounted 1 storeOfOne {.string ⟨0⟩ "old"} ∧
      parse boxContext ⟨0⟩ 3 ⟨8⟩ "Box\x7b[], [[]]\x7d" storeOfOne =
        (.ok (.vector ⟨4⟩ ⟨8⟩ [.vector ⟨1⟩ .vectorAny []]),
          ⟨#[⟨3, 5, 2⟩], #[⟨⟨0⟩, 1⟩, ⟨⟨0⟩, 1⟩, ⟨⟨0⟩, 0⟩, ⟨⟨0⟩, 0⟩, ⟨⟨0⟩, 1⟩]⟩) ∧
      Store.HandedOver ⟨0⟩ 4 (.vector ⟨4⟩ ⟨8⟩ [.vector ⟨1⟩ .vectorAny []]) storeOfOne
        ⟨#[⟨3, 5, 2⟩], #[⟨⟨0⟩, 1⟩, ⟨⟨0⟩, 1⟩, ⟨⟨0⟩, 0⟩, ⟨⟨0⟩, 0⟩, ⟨⟨0⟩, 1⟩]⟩ := by
  have hlexed : Lexed.ofText "Box\x7b[], [[]]\x7d" = ⟨[⟨.name "Box", 1⟩, ⟨.leftCurly, 1⟩,
      ⟨.leftBracket, 1⟩, ⟨.rightBracket, 1⟩, ⟨.comma, 1⟩, ⟨.leftBracket, 1⟩, ⟨.leftBracket, 1⟩,
      ⟨.rightBracket, 1⟩, ⟨.rightBracket, 1⟩, ⟨.rightCurly, 1⟩], .ok 1⟩ := rfl
  have hp : parse boxContext ⟨0⟩ 3 ⟨8⟩ "Box\x7b[], [[]]\x7d" storeOfOne =
      (.ok (.vector ⟨4⟩ ⟨8⟩ [.vector ⟨1⟩ .vectorAny []]),
        ⟨#[⟨3, 5, 2⟩], #[⟨⟨0⟩, 1⟩, ⟨⟨0⟩, 1⟩, ⟨⟨0⟩, 0⟩, ⟨⟨0⟩, 0⟩, ⟨⟨0⟩, 1⟩]⟩) := by
    unfold parse
    rw [hlexed]
    rfl
  have htokens : objectTokens ((Lexed.ofText "Box\x7b[], [[]]\x7d").tokens.map (·.token)) = 4 := by
    rw [hlexed]
    rfl
  have hheap : (⟨0⟩ : HeapId).number < 1 := by decide
  exact ⟨accounted_storeOfOne, hp, htokens ▸ parse_hands_over accounted_storeOfOne hheap hp⟩

end Wordcode.Literal
