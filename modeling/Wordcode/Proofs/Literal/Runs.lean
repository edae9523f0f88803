import Wordcode.Literal.Registers
import Wordcode.Proofs.Literal.ParserAccounts
import Wordcode.Proofs.Literal.Reachable

/-! # Runs of register operations

A run performs operations on registers one after the other (`Registers.run`). In every state that a run
reaches, the counts of the heaps and the holders of the objects are those of what can be reached from
the registers (`Registers.run_balanced`): each step keeps the accounts of the store in order, with the
registers as the places that hold values from outside (`Registers.InOrder.step`). -/

namespace Wordcode.Literal

/-- An operation on registers. -/
inductive Operation
  | nil (name : String)
  | int (name : String) (value : Int64)
  | float (name : String) (value : Double)
  | string (name text : String)
  | vector (name : String) (type : TypeIndex) (elements : List String)
  | copy (source name : String)
  | element (source : String) (position : Nat) (name : String)
  | clear (name : String)
  | negate (name : String)
  | parse (ctx : TypeContext) (maxDepth : Nat) (name : String) (type : TypeIndex) (text : String)
  | parseData (ctx : TypeContext) (name : String) (type : TypeIndex) (text : String)
  | addHandle (fresh : Bool)
  | useHandle (position : Nat)

namespace Registers

/-- The registers after an operation; one that is not possible leaves them as they are. -/
def step (r : Registers) : Operation → Registers
  | .nil name => r.put name .nil
  | .int name value => r.put name (.int value)
  | .float name value => r.put name (.float value)
  | .string name text => r.putString name text
  | .vector name type elements => (r.putVector name type elements).toOption.getD r
  | .copy source name => (r.copy source name).toOption.getD r
  | .element source position name => (r.putElement source position name).toOption.getD r
  | .clear name => (r.clear name).toOption.getD r
  | .negate name => ((r.negate name).toOption.map (·.2)).getD r
  | .parse ctx maxDepth name type text => (r.parse ctx maxDepth name type text).2
  | .parseData ctx name type text => (r.parseData ctx name type text).2
  | .addHandle fresh => (r.addHandle fresh).2
  | .useHandle position => (r.useHandle position).toOption.getD r

/-- The registers after the operations. -/
def run (operations : List Operation) : Registers := operations.foldl step start

/-- The values in the registers. -/
def held (r : Registers) : List Value := r.values.map (·.2)

/-! ### Registers in order -/

/-- The accounts of the store are in order, with the registers as roots: each has a name of its own and
every handle stands for one of the `n` heaps. -/
structure InOrder (n : Nat) (r : Registers) : Prop where
  accounts : Accounted n r.store r.held
  names : (r.values.map (·.1)).Nodup
  handles : ∀ heap ∈ r.handles, heap.number < n
  positive : 0 < n

variable {n : Nat} {r : Registers} {name : String} {value : Value}

theorem heap_lt (h : InOrder n r) : r.heap.number < n := by
  unfold heap
  rw [Array.getD_eq_getD_getElem?]
  cases hh : r.handles[r.current]? with
  | none => exact h.positive
  | some heap => exact h.handles heap (Array.mem_of_getElem? hh)

theorem mem_held_of_lookup : ∀ {values : List (String × Value)}, values.lookup name = some value →
    value ∈ values.map (·.2)
  | [], h => by cases h
  | (name', value') :: values, h => by
    rw [List.lookup_cons] at h
    split at h
    · cases h; exact List.mem_cons_self
    · exact List.mem_cons_of_mem _ (mem_held_of_lookup h)

theorem get_mem (h : r.get name = .ok value) : value ∈ r.held := by
  unfold get at h
  cases hl : r.values.lookup name with
  | none => rw [hl] at h; cases h
  | some value' =>
    rw [hl] at h
    cases h
    exact mem_held_of_lookup hl

/-- A register holds one of the values that are held, and the other registers hold the rest. -/
theorem held_filter : ∀ {values : List (String × Value)}, (values.map (·.1)).Nodup →
    values.lookup name = some value →
      ((values.map (·.2) : List Value) : Multiset Value) =
        value ::ₘ ((values.filter (·.1 ≠ name)).map (·.2) : List Value)
  | [], _, h => by cases h
  | (name', value') :: values, hn, h => by
    rw [List.map_cons, List.nodup_cons] at hn
    rw [List.lookup_cons] at h
    by_cases he : name = name'
    · subst he
      have hrest : values.filter (·.1 ≠ name) = values := by
        refine List.filter_eq_self.mpr fun p hp => ?_
        have : p.1 ≠ name := fun hp' => hn.1 (List.mem_map.mpr ⟨p, hp, hp'⟩)
        simpa using this
      simp only [beq_self_eq_true, Option.some.injEq] at h
      subst h
      rw [List.filter_cons_of_neg (by simp), hrest]
      rfl
    · rw [beq_eq_false_iff_ne.mpr he] at h
      rw [List.filter_cons_of_pos (by simpa using Ne.symm he), List.map_cons, List.map_cons,
        ← Multiset.cons_coe, held_filter hn.2 h, Multiset.cons_swap, Multiset.cons_coe]

theorem discard_accounted (name : String) {frame : Multiset Value}
    (h : Accounted n r.store (frame + r.held))
    (hn : (r.values.map (·.1)).Nodup) :
    Accounted n (r.discard name).store (frame + (r.discard name).held) := by
  unfold discard
  cases hl : r.values.lookup name with
  | none => exact h
  | some value =>
    rw [held, held_filter hn hl, Multiset.add_cons] at h
    exact h.release

theorem names_discard (name : String) (hn : (r.values.map (·.1)).Nodup) :
    ((r.discard name).values.map (·.1)).Nodup ∧ name ∉ (r.discard name).values.map (·.1) := by
  unfold discard
  cases hl : r.values.lookup name with
  | none =>
    refine ⟨hn, fun hm => ?_⟩
    obtain ⟨p, hp, he⟩ := List.mem_map.mp hm
    have := List.lookup_eq_none_iff.mp hl p hp
    simp [he] at this
  | some value =>
    refine ⟨hn.sublist (List.filter_sublist.map _), fun hm => ?_⟩
    obtain ⟨p, hp, he⟩ := List.mem_map.mp hm
    simpa [he] using (List.mem_filter.mp hp).2

theorem handles_discard (name : String) : (r.discard name).handles = r.handles := by
  unfold discard
  cases r.values.lookup name <;> rfl

theorem put_inOrder (h : Accounted n r.store (value ::ₘ (r.held : Multiset Value)))
    (hn : (r.values.map (·.1)).Nodup) (hh : ∀ heap ∈ r.handles, heap.number < n) (hpos : 0 < n) :
    InOrder n (r.put name value) := by
  have hdiscard := discard_accounted name (Multiset.singleton_add value _ ▸ h) hn
  obtain ⟨hnames, hfresh⟩ := names_discard name hn
  refine ⟨?_, List.nodup_cons.mpr ⟨hfresh, hnames⟩, ?_, hpos⟩
  · rw [Multiset.singleton_add, Multiset.cons_coe] at hdiscard
    exact hdiscard
  · intro heap hm
    exact hh heap (handles_discard name ▸ hm)

theorem InOrder.discard (h : InOrder n r) (name : String) : InOrder n (r.discard name) := by
  have hacc := discard_accounted name ((zero_add (r.held : Multiset Value)).symm.subst h.accounts)
    h.names
  rw [zero_add] at hacc
  exact ⟨hacc, (names_discard name h.names).1, by rw [handles_discard]; exact h.handles, h.positive⟩

/-! ### Steps -/

theorem InOrder.put_scalar (h : InOrder n r) (hv : value.objectId? = none) :
    InOrder n (r.put name value) :=
  put_inOrder ((Accounted.cons_iff_of_none hv).mpr h.accounts) h.names h.handles h.positive

/-- A value in a register, or an element of one, is shared by one more register. -/
theorem InOrder.putShared (h : InOrder n r)
    (hv : value ∈ r.held ∨ ∃ w ∈ r.held, value ∈ w.elements) : InOrder n (r.putShared name value) :=
  put_inOrder (h.accounts.retain hv) h.names h.handles h.positive

theorem mapM_get_mem : ∀ {names : List String} {values : List Value},
    names.mapM r.get = .ok values → ∀ v ∈ values, v ∈ r.held
  | [], _, h => by cases h; simp
  | name :: names, values, h => by
    rw [List.mapM_cons] at h
    cases hv : r.get name with
    | error e => rw [hv] at h; cases h
    | ok v =>
      cases hvs : names.mapM r.get with
      | error e => rw [hv, hvs] at h; cases h
      | ok vs =>
        rw [hv, hvs] at h
        cases h
        exact List.forall_mem_cons.mpr ⟨get_mem hv, mapM_get_mem hvs⟩

theorem InOrder.vector (h : InOrder n r) (type : TypeIndex) (elements : List String) :
    InOrder n ((r.putVector name type elements).toOption.getD r) := by
  unfold putVector
  cases hv : elements.mapM r.get with
  | error e => exact h
  | ok values =>
    have hretain : Accounted n (r.store.retainAll values) (values + r.held) :=
      h.accounts.retainAll (mapM_get_mem hv)
    exact put_inOrder (r := { r with store := _ }) (hretain.newVector (heap_lt h) type) h.names
      h.handles h.positive

theorem InOrder.element (h : InOrder n r) (source : String) (position : Nat) :
    InOrder n ((r.putElement source position name).toOption.getD r) := by
  unfold putElement
  cases hg : r.get source with
  | error e => exact h
  | ok w =>
    cases w with
    | vector id type elements =>
      dsimp only [bind, Except.bind]
      cases he : elements[position]? with
      | none => exact h
      | some v =>
        have hmem : v ∈ (Value.vector id type elements).elements := List.mem_of_getElem? he
        exact h.putShared (.inr ⟨_, get_mem hg, hmem⟩)
    | _ => exact h

theorem InOrder.negate (h : InOrder n r) :
    InOrder n (((r.negate name).toOption.map (·.2)).getD r) := by
  unfold Registers.negate
  cases hg : r.get name with
  | error e => exact h
  | ok value =>
    dsimp only [bind, Except.bind]
    cases hn : value.negate? with
    | none => exact h
    | some negated =>
      have hscalar : negated.objectId? = none := by cases value <;> cases hn <;> rfl
      exact h.put_scalar hscalar

/-- The registers hold what they did, over a store whose accounts are in order as well. -/
theorem InOrder.withStore {store : Store} (h : InOrder n r) (hs : Accounted n store r.held) :
    InOrder n { r with store } := ⟨hs, h.names, h.handles, h.positive⟩

theorem InOrder.parse (h : InOrder n r) (ctx : TypeContext) (maxDepth : Nat) (type : TypeIndex)
    (text : String) : InOrder n (r.parse ctx maxDepth name type text).2 := by
  obtain ⟨hok, herror⟩ := parse_accounted ctx maxDepth type text (heap_lt h) h.accounts
  unfold Registers.parse
  cases hp : Literal.parse ctx r.heap maxDepth type text r.store with
  | mk result store =>
    cases result with
    | ok value =>
      exact put_inOrder (r := { r with store }) (hok value store hp) h.names h.handles h.positive
    | error fault => exact h.withStore (herror fault store hp)

theorem InOrder.parseData (h : InOrder n r) (ctx : TypeContext) (type : TypeIndex) (text : String) :
    InOrder n (r.parseData ctx name type text).2 := by
  unfold Registers.parseData Literal.parseData
  cases hp : Literal.parse ctx r.heap ({} : LiteralSettings).maxDepth type text r.store with
  | mk result store =>
    obtain ⟨hok, herror⟩ := parse_accounted ctx _ type text (heap_lt h) h.accounts
    cases result with
    | ok value =>
      exact put_inOrder (r := { r with store }) (hok value store hp) h.names h.handles h.positive
    | error fault => exact (h.withStore (herror fault store hp)).put_scalar rfl

theorem InOrder.addHandle (h : InOrder n r) (fresh : Bool) :
    ∃ n', InOrder n' (r.addHandle fresh).2 := by
  cases fresh with
  | false =>
    refine ⟨n, h.accounts, h.names, fun heap hm => ?_, h.positive⟩
    rcases Array.mem_push.mp hm with hm | rfl
    · exact h.handles heap hm
    · exact heap_lt h
  | true =>
    refine ⟨n + 1, h.accounts.addHeap, h.names, fun heap hm => ?_, Nat.succ_pos n⟩
    obtain ⟨live, haccounts⟩ := h.accounts
    rcases Array.mem_push.mp hm with hm | rfl
    · exact Nat.lt_succ_of_lt (h.handles heap hm)
    · exact Nat.lt_succ_of_le haccounts.size.le

/-- **Every operation keeps the registers in order.** -/
theorem InOrder.step (h : InOrder n r) (operation : Operation) :
    ∃ n', InOrder n' (r.step operation) := by
  cases operation with
  | nil | int | float => exact ⟨n, h.put_scalar rfl⟩
  | string name text =>
    exact ⟨n, put_inOrder (r := { r with store := _ }) (h.accounts.newString (heap_lt h) text) h.names
      h.handles h.positive⟩
  | vector name type elements => exact ⟨n, h.vector type elements⟩
  | copy source name =>
    refine ⟨n, ?_⟩
    show InOrder n ((r.copy source name).toOption.getD r)
    unfold copy
    cases hg : r.get source with
    | error e => exact h
    | ok value => exact h.putShared (.inl (get_mem hg))
  | element source position name => exact ⟨n, h.element source position⟩
  | clear name =>
    refine ⟨n, ?_⟩
    show InOrder n ((r.clear name).toOption.getD r)
    unfold clear
    cases r.get name with
    | error e => exact h
    | ok value => exact h.discard name
  | negate name => exact ⟨n, h.negate⟩
  | parse ctx maxDepth name type text => exact ⟨n, h.parse ctx maxDepth type text⟩
  | parseData ctx name type text => exact ⟨n, h.parseData ctx type text⟩
  | addHandle fresh => exact h.addHandle fresh
  | useHandle position =>
    refine ⟨n, ?_⟩
    show InOrder n ((r.useHandle position).toOption.getD r)
    unfold useHandle
    split_ifs
    · exact ⟨h.accounts, h.names, h.handles, h.positive⟩
    · exact h

theorem start_inOrder : InOrder 1 start := by
  refine ⟨accounted_empty.addHeap, List.nodup_nil, fun heap hm => ?_, Nat.one_pos⟩
  rw [show start.handles = #[⟨0⟩] from rfl, Array.mem_singleton] at hm
  rw [hm]
  exact Nat.one_pos

theorem run_inOrder (operations : List Operation) : ∃ n, InOrder n (run operations) := by
  have hrun : ∀ (operations : List Operation) (n : Nat) (r : Registers), InOrder n r →
      ∃ n, InOrder n (operations.foldl Registers.step r) := by
    intro operations
    induction operations with
    | nil => exact fun n r h => ⟨n, h⟩
    | cons operation operations ih =>
      intro n r h
      obtain ⟨n', h'⟩ := h.step operation
      exact ih n' _ h'
  exact hrun operations 1 start start_inOrder

/-! ### What the counts are -/

/-- The number of places among the values that hold an object. -/
def holdersAmong (id : ObjectId) (values : List Value) : Nat := values.countP (·.objectId? = some id)

/-- The objects that can be reached from the registers, each once. -/
def objects (r : Registers) : List Value := objectsOf r.held

/-- **The counts of the store are those of what the registers reach.** -/
structure Balanced (r : Registers) : Prop where
  /-- The objects are those among the parts of the values in the registers. -/
  reached : ∀ v, v ∈ r.objects ↔ v.objectId? ≠ none ∧ ∃ root ∈ r.held, v ∈ root.parts
  /-- Two of them are two objects. -/
  distinct : r.objects.Pairwise (·.objectId? ≠ ·.objectId?)
  /-- What was made on a heap lives or was released. -/
  allocated : ∀ heap, (r.store.stats heap).live + (r.store.stats heap).released =
    (r.store.stats heap).allocated
  /-- The live objects of a heap are those of its objects that can be reached. -/
  live : ∀ heap, (r.store.stats heap).live = r.objects.countP (·.objectId?.bind r.store.heap? = some heap)
  /-- An object is held by registers and by slots of vectors that can be reached. -/
  holders : ∀ v ∈ r.objects, ∀ id, v.objectId? = some id →
    r.store.holders id = holdersAmong id r.held + holdersAmong id (r.objects.flatMap Value.elements)

/-- Clears all registers. -/
def clearAll (r : Registers) : Registers := (r.values.map (·.1)).foldl discard r

theorem InOrder.balanced (h : InOrder n r) : r.Balanced := by
  obtain ⟨live, hlive⟩ := h.accounts
  have hobjects : (r.objects : Multiset Value) = live := hlive.coe_objectsOf
  refine ⟨fun v => hlive.mem_objectsOf, pairwise_objectsOf _, hlive.balanced, fun heap => ?_,
    fun v _ id _ => ?_⟩
  · rw [hlive.counted, ← hobjects, Multiset.coe_countP]
  · rw [hlive.holders, places_add, ← hobjects, slotsOf, Multiset.coe_bind]
    rfl

theorem values_clearAll : ∀ (names : List String) (r : Registers),
    (∀ p ∈ r.values, p.1 ∈ names) → (names.foldl discard r).values = []
  | [], r, h => List.eq_nil_iff_forall_not_mem.mpr fun p hp => by simpa using h p hp
  | name :: names, r, h => by
    refine values_clearAll names (r.discard name) fun p hp => ?_
    unfold discard at hp
    cases hl : r.values.lookup name with
    | none =>
      rw [hl] at hp
      refine (List.mem_cons.mp (h p hp)).resolve_left fun he => ?_
      simpa [he] using List.lookup_eq_none_iff.mp hl p hp
    | some value =>
      rw [hl] at hp
      obtain ⟨hmem, hne⟩ := List.mem_filter.mp hp
      exact (List.mem_cons.mp (h p hmem)).resolve_left (by simpa using hne)

theorem InOrder.discardAll : ∀ (names : List String) {r : Registers}, InOrder n r →
    InOrder n (names.foldl Registers.discard r)
  | [], _, h => h
  | name :: names, _, h => discardAll names (h.discard name)

/-- **The heap accounts over whole runs.** After any operations, on any number of heaps and registers,
the counts are those of what the registers reach; and when all registers are cleared, every heap has
released whatever was made on it. -/
theorem run_balanced (operations : List Operation) :
    (run operations).Balanced ∧ (run operations).clearAll.values = [] ∧
      ∀ heap, ((run operations).clearAll.store.stats heap).live = 0 ∧
        ((run operations).clearAll.store.stats heap).allocated =
          ((run operations).clearAll.store.stats heap).released := by
  obtain ⟨n, h⟩ := run_inOrder operations
  have hvalues : (run operations).clearAll.values = [] :=
    values_clearAll _ _ fun p hp => List.mem_map_of_mem hp
  have hcleared : (run operations).clearAll.Balanced := (h.discardAll _).balanced
  have hnone : (run operations).clearAll.objects = [] := by
    unfold objects held
    rw [hvalues]
    rfl
  refine ⟨h.balanced, hvalues, fun heap => ?_⟩
  have hlive := hcleared.live heap
  rw [hnone, List.countP_nil] at hlive
  exact ⟨hlive, by rw [← hcleared.allocated heap, hlive, Nat.zero_add]⟩

end Registers

end Wordcode.Literal
