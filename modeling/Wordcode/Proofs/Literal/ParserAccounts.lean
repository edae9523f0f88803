import Wordcode.Proofs.Literal.Accounts
import Wordcode.Proofs.Literal.Outcome

/-! # The parser keeps the accounts in order

What a parsing step holds before and after it (`Keeps`) is said beside everything that is held elsewhere,
so that steps in sequence are handled one by one. A value is held once by whoever parses it, and every
object by the roster; a step that fails holds nothing but the roster, and a parse nothing at all
(`parse_accounted`). -/

namespace Wordcode.Literal

namespace Parser

variable {α β : Type} {n : Nat} {pre err : Multiset Value} {post : α → Multiset Value}
  {step : Parser α}

/-- The step keeps the accounts in order: it takes over what `pre` holds and leaves `post` of its result,
or `err` where it fails. -/
def Keeps (n : Nat) (pre : Multiset Value) (step : Parser α) (post : α → Multiset Value)
    (err : Multiset Value) : Prop :=
  ∀ (src : Source) (s : Parsing) (roots : Multiset Value), src.heap.number < n →
    Accounted n s.store (pre + (s.roster + roots)) → Ends step src s
      (fun a s' => Accounted n s'.store (post a + (s'.roster + roots)))
      (fun _ s' => Accounted n s'.store (err + (s'.roster + roots)))

theorem keeps_pure {a : α} (h : post a = pre) : Keeps n pre (pure a) post err :=
  fun _ _ _ _ hs => ends_pure.mpr (h ▸ hs)

theorem Keeps.bind {x : Parser β} {f : β → Parser α} {m : β → Multiset Value}
    (hx : Keeps n pre x m err) (hf : ∀ b, Keeps n (m b) (f b) post err) :
    Keeps n pre (x >>= f) post err := fun src s roots hsrc h =>
  Ends.bind (hx src s roots hsrc h) fun b s' hb => hf b src s' roots hsrc hb

theorem keeps_read {f : Source → Parser α} (h : ∀ src, Keeps n pre (f src) post err) :
    Keeps n pre (do let src ← read; f src) post err := fun src s roots hsrc hs =>
  ends_read.mpr (h src src s roots hsrc hs)

theorem Keeps.frame (h : Keeps n pre step post err) (frame : Multiset Value) :
    Keeps n (pre + frame) step (fun a => post a + frame) (err + frame) := by
  intro src s roots hsrc hs
  have hmove : ∀ a b : Multiset Value, a + frame + (b + roots) = a + (b + (frame + roots)) := by
    intro a b
    rw [add_assoc, add_left_comm frame]
  rw [hmove] at hs
  refine (h src s _ hsrc hs).mono (fun a s' ha => ?_) fun e s' he => ?_
  · rw [hmove]; exact ha
  · rw [hmove]; exact he

/-- Values that are held during a step are let go of where it fails. -/
theorem Keeps.holding {values : List Value} (h : Keeps n pre step post values) :
    Keeps n pre (holding values step) post 0 := fun src s roots hsrc hs =>
  ends_holding.mpr ((h src s roots hsrc hs).mono (fun _ _ ha => ha) fun _ _ he => by
    rw [zero_add]; exact he.releaseAll)

/-- A step that touches neither the store nor the roster. -/
def Quiet (step : Parser α) : Prop :=
  ∀ src s, Ends step src s (fun _ s' => s'.store = s.store ∧ s'.roster = s.roster)
    fun _ s' => s'.store = s.store ∧ s'.roster = s.roster

theorem Quiet.keeps (h : Quiet step) (held : Multiset Value) :
    Keeps n held step (fun _ => held) held := fun src s roots _ hs =>
  (h src s).mono (fun _ s' ⟨hstore, hroster⟩ => by rw [hstore, hroster]; exact hs)
    fun _ s' ⟨hstore, hroster⟩ => by rw [hstore, hroster]; exact hs

/-! ### Tokens -/

theorem quiet_pure (a : α) : Quiet (pure a : Parser α) := fun _ _ => ⟨rfl, rfl⟩

theorem Quiet.bind {x : Parser β} {f : β → Parser α} (hx : Quiet x) (hf : ∀ b, Quiet (f b)) :
    Quiet (x >>= f) := fun src s =>
  ends_bind.mpr ((hx src s).mono (fun b s' ⟨hstore, hroster⟩ =>
    (hf b src s').mono (fun _ _ h => ⟨h.1.trans hstore, h.2.trans hroster⟩)
      fun _ _ h => ⟨h.1.trans hstore, h.2.trans hroster⟩) fun _ _ h => h)

theorem quiet_read {f : Source → Parser α} (h : ∀ src, Quiet (f src)) :
    Quiet (do let src ← read; f src) := fun src s => ends_read.mpr (h src src s)

theorem quiet_discard (h : Quiet step) : Quiet (discard step) := fun src s =>
  ends_discard.mpr (h src s)

theorem quiet_current : Quiet current := fun src s => by
  rw [ends_current]
  cases src.current s.tokens <;> exact ⟨rfl, rfl⟩

theorem quiet_fail {cause : SyntaxFault} : Quiet (fail cause : Parser α) := fun src s => by
  rw [ends_fail]
  cases src.current s.tokens <;> exact ⟨rfl, rfl⟩

theorem keeps_fail {cause : SyntaxFault} : Keeps n pre (fail cause : Parser α) post pre :=
  fun src s _ _ hs => by
    rw [ends_fail]
    cases src.current s.tokens <;> exact hs

theorem quiet_advance : Quiet advance := fun src s => by
  rw [ends_advance]
  cases src.current s.tokens.tail <;> exact ⟨rfl, rfl⟩

theorem quiet_expect (wanted : Token) : Quiet (expect wanted) :=
  quiet_current.bind fun found => by
    dsimp only
    split_ifs
    · exact quiet_advance
    · exact quiet_fail

theorem quiet_accept (wanted : Token) : Quiet (accept wanted) :=
  quiet_current.bind fun found => by
    split_ifs
    · exact quiet_advance.bind fun _ => quiet_pure _
    · exact quiet_pure _

theorem quiet_expectKind (given required : TypeKind) : Quiet (expectKind given required) := by
  unfold expectKind
  split_ifs
  · exact quiet_pure _
  · exact quiet_fail

theorem quiet_atEnd (close : Token) : Quiet (atEnd close) :=
  (quiet_accept _).bind fun separated => quiet_current.bind fun found => by
    split_ifs
    · exact quiet_pure true
    · exact (quiet_expect _).bind fun _ => quiet_pure _
    · exact quiet_pure false

/-! ### Objects -/

theorem keeps_newString (text : String) : Keeps n 0 (newString text) (fun v => {v}) err := by
  intro src s roots hsrc hs
  rw [zero_add] at hs
  refine ends_newString.mpr ?_
  have hnew := (hs.newString hsrc text).retain (.inl (Multiset.mem_cons_self _ _))
  rw [← Multiset.cons_coe, Multiset.cons_add, Multiset.singleton_add]
  exact hnew

theorem keeps_newVector (type : TypeIndex) (elements : List Value) :
    Keeps n elements (newVector type elements) (fun v => {v}) err := by
  intro src s roots hsrc hs
  refine ends_newVector.mpr ?_
  have hnew := (hs.newVector hsrc type).retain (.inl (Multiset.mem_cons_self _ _))
  rw [← Multiset.cons_coe, Multiset.cons_add, Multiset.singleton_add]
  exact hnew

theorem keeps_drop (values : List Value) : Keeps n values (drop values) (fun _ => 0) err :=
  fun src s roots _ hs => ends_drop.mpr (by rw [zero_add]; exact hs.releaseAll)

/-! ### Elements -/

variable {item : TypeIndex → Parser Value}

theorem keeps_element (hitem : ∀ type, Keeps n 0 (item type) (fun v => {v}) 0) (slots : Slots)
    (done : List Value) :
    Keeps n done (element item slots done) (fun r => (r.2 : Multiset Value)) done := by
  have hframe : ∀ type, Keeps n done (item type) (fun v => {v} + (done : Multiset Value)) done :=
    fun type => by simpa only [zero_add] using (hitem type).frame done
  unfold element
  cases slots.next? with
  | some next => exact (hframe next.1).bind fun v => keeps_pure (Multiset.singleton_add v done).symm
  | none =>
    refine (hframe .any).bind fun v => Keeps.bind (m := fun _ => done) ?_ fun _ => keeps_pure rfl
    have hdrop : Keeps n ({v} + (done : Multiset Value)) (drop [v]) (fun _ => 0 + done) (0 + done) :=
      (keeps_drop [v]).frame done
    simpa only [zero_add] using hdrop

theorem keeps_elementsFrom (hitem : ∀ type, Keeps n 0 (item type) (fun v => {v}) 0) (close : Token) :
    ∀ (bound : Nat) (slots : Slots) (done : List Value),
      Keeps n done (elementsFrom item close bound slots done) (fun r => (r.2 : Multiset Value)) 0
  | 0, slots, done => keeps_pure rfl
  | bound + 1, slots, done => by
    unfold elementsFrom
    refine (keeps_element hitem slots done).holding.bind ?_
    rintro ⟨slots', done'⟩
    refine ((quiet_atEnd close).keeps done').holding.bind fun last => ?_
    cases last
    · exact keeps_elementsFrom hitem close bound slots' done'
    · exact keeps_pure rfl

theorem keeps_elements (hitem : ∀ type, Keeps n 0 (item type) (fun v => {v}) 0) (close : Token)
    (slots : Slots) :
    Keeps n 0 (elements item close slots) (fun r => (r.2 : Multiset Value)) 0 := by
  unfold elements
  refine ((quiet_discard (quiet_accept _)).keeps 0).bind fun _ => ?_
  refine ((quiet_accept _).keeps 0).bind fun closed => ?_
  cases closed
  · refine keeps_read fun src => (keeps_elementsFrom hitem close _ slots []).bind ?_
    rintro ⟨slots', done⟩
    refine (quiet_advance.keeps done).holding.bind fun _ => ?_
    exact keeps_pure (Multiset.coe_reverse done)
  · exact keeps_pure rfl

/-! ### Values -/

theorem keeps_scalar {given required : TypeKind} {make : Parser Value}
    (hmake : Keeps n 0 make (fun v => {v}) 0) :
    Keeps n 0 (scalar given required make) (fun v => {v}) 0 :=
  ((quiet_expectKind _ _).keeps 0).bind fun _ => (quiet_advance.keeps 0).bind fun _ => hmake

theorem keeps_pure_scalar {v : Value} (hv : v.objectId? = none) :
    Keeps n 0 (pure v) (fun v => {v}) err := fun _ _ _ _ h =>
  ends_pure.mpr (by
    rw [Multiset.singleton_add]
    rw [zero_add] at h
    exact (Accounted.cons_iff_of_none hv).mpr h)

theorem keeps_negated (hitem : ∀ type, Keeps n 0 (item type) (fun v => {v}) 0) (type : TypeIndex)
    (kind : TypeKind) : Keeps n 0 (negated item type kind) (fun v => {v}) 0 := by
  unfold negated
  refine (quiet_advance.keeps 0).bind fun _ => (hitem type).bind fun operand => ?_
  split
  · next value hn =>
    split_ifs at hn
    intro src s roots hsrc hs
    have hscalar : operand.objectId? = none ∧ value.objectId? = none := by
      cases operand <;> cases hn <;> exact ⟨rfl, rfl⟩
    rw [Multiset.singleton_add, Accounted.cons_iff_of_none hscalar.1] at hs
    refine ends_pure.mpr ?_
    rw [Multiset.singleton_add]
    exact (Accounted.cons_iff_of_none hscalar.2).mpr hs
  · have hfail : Keeps n {operand} (fail .notNumeric : Parser Value) (fun v => {v}) ([operand] :) :=
      keeps_fail
    exact hfail.holding

theorem quiet_structType (type : TypeIndex) (descriptor : TypeDescriptor) (name : String) :
    Quiet (structType type descriptor name) := quiet_read fun src => by
  cases descriptor with
  | struct id fields =>
    dsimp only
    split_ifs
    · exact quiet_pure _
    · exact quiet_fail
  | scalar | vector =>
    dsimp only
    split
    · exact quiet_pure _
    · exact quiet_fail

theorem quiet_fieldTypes (type : TypeIndex) (name : String) : Quiet (fieldTypes type name) :=
  quiet_read fun src => by
    split
    · exact quiet_pure _
    · exact quiet_fail

theorem ends_defaults {src : Source} : ∀ (types : List TypeIndex) (s : Parsing),
    Ends (types.mapM defaultOf) src s (fun values s' => s' = s ∧ ∀ v ∈ values, v.objectId? = none)
      (fun _ s' => s' = s)
  | [], s => ⟨rfl, by simp⟩
  | type :: types, s => by
    rw [List.mapM_cons]
    refine Ends.bind (m := fun v s' => s' = s ∧ v.objectId? = none) ?_ ?_
    · unfold defaultOf
      rw [ends_read]
      cases hd : (src.ctx.types.kind? type).bind default? with
      | some v =>
        obtain ⟨kind, -, hkind⟩ := Option.bind_eq_some_iff.mp hd
        refine ends_pure.mpr ⟨rfl, ?_⟩
        cases kind <;> cases hkind <;> rfl
      | none =>
        refine ends_bind.mpr (ends_current.mpr ?_)
        cases src.current s.tokens <;> rfl
    rintro v s₁ ⟨rfl, hv⟩
    refine Ends.bind (ends_defaults types s₁) ?_
    rintro values s₂ ⟨rfl, hvalues⟩
    exact ends_pure.mpr ⟨rfl, List.forall_mem_cons.mpr ⟨hv, hvalues⟩⟩

theorem keeps_defaults (items : List Value) (types : List TypeIndex) :
    Keeps n items (types.mapM defaultOf) (fun defaults => (items ++ defaults : List Value)) items := by
  intro src s roots _ hs
  refine (ends_defaults types s).mono ?_ ?_
  · rintro defaults s' ⟨rfl, hscalar⟩
    dsimp only
    rw [← Multiset.coe_add, add_assoc, add_left_comm, Accounted.add_iff_of_none hscalar]
    exact hs
  · rintro _ s' rfl
    exact hs

theorem keeps_structLiteral (hitem : ∀ type, Keeps n 0 (item type) (fun v => {v}) 0)
    (type : TypeIndex) (descriptor : TypeDescriptor) (name : String) :
    Keeps n 0 (structLiteral item type descriptor name) (fun v => {v}) 0 := by
  unfold structLiteral
  refine ((quiet_expectKind _ _).keeps 0).bind fun _ => (quiet_advance.keeps 0).bind fun _ => ?_
  refine ((quiet_expect _).keeps 0).bind fun _ => ((quiet_structType _ _ _).keeps 0).bind fun found => ?_
  refine ((quiet_fieldTypes _ _).keeps 0).bind fun fields => (keeps_elements hitem _ _).bind ?_
  rintro ⟨slots, items⟩
  exact (keeps_defaults items slots.missing).holding.bind fun defaults => keeps_newVector _ _

theorem keeps_vectorLiteral (hitem : ∀ type, Keeps n 0 (item type) (fun v => {v}) 0)
    (type : TypeIndex) (descriptor : TypeDescriptor) :
    Keeps n 0 (vectorLiteral item type descriptor) (fun v => {v}) 0 := by
  unfold vectorLiteral
  refine ((quiet_expectKind _ _).keeps 0).bind fun _ => (quiet_advance.keeps 0).bind fun _ => ?_
  exact (keeps_elements hitem _ _).bind fun r => keeps_newVector _ r.2

theorem keeps_literal (hitem : ∀ type, Keeps n 0 (item type) (fun v => {v}) 0) (type : TypeIndex)
    (descriptor : TypeDescriptor) (token : Token) :
    Keeps n 0 (literal item type descriptor token) (fun v => {v}) 0 := by
  cases token with
  | int | float | nil => exact keeps_scalar (keeps_pure_scalar rfl)
  | string text => exact keeps_scalar (keeps_newString text)
  | minus => exact keeps_negated hitem type _
  | leftBracket => exact keeps_vectorLiteral hitem type descriptor
  | name name => exact keeps_structLiteral hitem type descriptor name
  | _ => exact keeps_fail

/-- **Parsing a value keeps the accounts in order**: the value is held once, and nothing if it fails. -/
theorem keeps_value : ∀ (depth : Nat) (type : TypeIndex), Keeps n 0 (value depth type) (fun v => {v}) 0
  | 0, _ => keeps_fail
  | depth + 1, type => keeps_read fun src => by
    cases src.ctx.types.get? type with
    | none => exact keeps_fail
    | some descriptor =>
      exact (quiet_current.keeps 0).bind fun spanned => keeps_literal (keeps_value depth) type descriptor _

theorem keeps_wholeText (depth : Nat) (type : TypeIndex) :
    Keeps n 0 (wholeText depth type) (fun v => {v}) 0 := by
  unfold wholeText
  refine ((quiet_discard quiet_current).keeps 0).bind fun _ => (keeps_value depth type).bind fun v => ?_
  have hend : Quiet (do discard (accept .linefeed); expect .endOfFile) :=
    (quiet_discard (quiet_accept _)).bind fun _ => quiet_expect _
  have hheld : Keeps n {v} (do discard (accept .linefeed); expect .endOfFile) (fun _ => {v})
    ([v] :) := hend.keeps {v}
  exact hheld.holding.bind fun _ => keeps_pure rfl

end Parser

/-- **A parse keeps the accounts in order**: afterwards its value is held once more than before, and
nothing else. -/
theorem parse_accounted {n : Nat} {roots : Multiset Value} {heap : HeapId} {store : Store}
    (ctx : TypeContext) (depth : Nat) (type : TypeIndex) (text : String) (hheap : heap.number < n)
    (h : Accounted n store roots) :
    (∀ v store', parse ctx heap depth type text store = (.ok v, store') →
      Accounted n store' (v ::ₘ roots)) ∧
    (∀ fault store', parse ctx heap depth type text store = (.error fault, store') →
      Accounted n store' roots) := by
  refine (parse_iff_ends ctx heap depth type text store (p := fun r =>
    (∀ v store', r = (.ok v, store') → Accounted n store' (v ::ₘ roots)) ∧
    ∀ fault store', r = (.error fault, store') → Accounted n store' roots)).mpr ?_
  have hstart : Accounted n (Parsing.ofText text store).store
      (0 + ((Parsing.ofText text store).roster + roots)) := by
    rw [zero_add]
    exact (zero_add roots).symm.subst h
  refine (Parser.keeps_wholeText depth type _ _ roots hheap hstart).mono ?_ ?_
  · intro v s hs
    refine ⟨fun v' store' he => ?_, fun _ _ he => by cases he⟩
    cases he
    rw [add_left_comm, Multiset.singleton_add] at hs
    exact hs.releaseAll
  · intro fault s hs
    refine ⟨fun _ _ he => (by cases he), fun _ store' he => ?_⟩
    cases he
    rw [zero_add] at hs
    exact hs.releaseAll

end Wordcode.Literal
