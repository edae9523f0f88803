import Wordcode.Proofs.Literal.Growth
import Wordcode.Proofs.Literal.Language
import Wordcode.Proofs.Literal.ParserAccounts

/-! # What a parser builds

A string, a vector and a struct are objects, and each is made once its last token is read. So the tokens
that make objects (`objectTokens`) pay for the objects made; between the first token of an aggregate and
its making one object is owed. What is built since some state is made of objects that were made since
then, each of them once (`Built`). -/

namespace Wordcode.Literal

/-- Whether the literal whose text has this token makes an object for it. -/
def Token.makesObject : Token → Bool
  | string _ | leftBracket | leftCurly => true
  | _ => false

/-- The number of objects that the literals of these tokens make. -/
def objectTokens (tokens : List Token) : Nat := tokens.countP Token.makesObject

theorem objectTokens_cons (token : Token) (tokens : List Token) :
    objectTokens (token :: tokens) = objectTokens tokens + if token.makesObject then 1 else 0 :=
  List.countP_cons

/-- Objects were made on the heap of the source, at most. -/
def Grew (src : Source) (s₀ s : Parsing) : Prop := ∃ k, Store.Grown src.heap k s₀.store s.store

/-- **What is built since a state**: the values are made of objects made since then, each once, and all
tokens read since then are paid for but for as many as are owed. -/
structure Built (src : Source) (s₀ s : Parsing) (owed : Nat) (values : List Value) : Prop where
  grown : ∃ k, Store.Grown src.heap k s₀.store s.store ∧
    objectTokens s₀.ahead = objectTokens s.ahead + k + owed
  once : (idsOf values).Nodup
  fresh : ∀ id ∈ idsOf values, s₀.store.objects.size ≤ id.number ∧ id.number < s.store.objects.size

variable {src : Source} {s₀ s s' : Parsing} {owed paid : Nat} {values values' : List Value}

theorem Built.refl (src : Source) (s : Parsing) : Built src s s 0 [] :=
  ⟨⟨0, .refl _ _, rfl⟩, List.nodup_nil, fun id hid => by cases hid⟩

theorem Built.grew (h : Built src s₀ s owed values) : Grew src s₀ s :=
  let ⟨k, hk, _⟩ := h.grown
  ⟨k, hk⟩

theorem Built.grew_trans (h : Built src s₀ s owed values) (h' : Grew src s s') : Grew src s₀ s' :=
  let ⟨k, hk, _⟩ := h.grown
  let ⟨l, hl⟩ := h'
  ⟨k + l, hk.trans hl⟩

theorem Built.heaps (h : Built src s₀ s owed values) :
    s.store.heaps.size = s₀.store.heaps.size :=
  let ⟨_, hk, _⟩ := h.grown
  hk.heaps

/-- What is built later is apart from what is there. -/
theorem Built.frame (h : Built src s₀ s owed values) (h' : Built src s s' 0 values') :
    Built src s₀ s' owed (values' ++ values) := by
  obtain ⟨k, hk, htokens⟩ := h.grown
  obtain ⟨l, hl, htokens'⟩ := h'.grown
  have hsize := hk.size
  have hsize' := hl.size
  refine ⟨⟨k + l, hk.trans hl, by omega⟩, ?_, ?_⟩
  · rw [idsOf_append, List.nodup_append]
    refine ⟨h'.once, h.once, ?_⟩
    rintro id hid _ hid' rfl
    have hle := (h'.fresh id hid).1
    have hlt := (h.fresh id hid').2
    omega
  · rw [idsOf_append]
    intro id hid
    rcases List.mem_append.mp hid with hid | hid
    · have := h'.fresh id hid
      omega
    · have := h.fresh id hid
      omega

theorem Built.congr (h : Built src s₀ s owed values) (hids : (idsOf values').Perm (idsOf values)) :
    Built src s₀ s owed values' :=
  ⟨h.grown, hids.nodup_iff.mpr h.once, fun id hid => h.fresh id (hids.mem_iff.mp hid)⟩

theorem Built.of_append (h : Built src s₀ s owed (values' ++ values)) : Built src s₀ s owed values := by
  have hids := idsOf_append values' values
  refine ⟨h.grown, ?_, fun id hid => h.fresh id ?_⟩
  · have honce := h.once
    rw [hids] at honce
    exact honce.of_append_right
  · rw [hids]
    exact List.mem_append_right _ hid

/-- The store may change in counts, and tokens may be read that are then owed. -/
theorem Built.step (h : Built src s₀ s owed values) (hstore : Store.Grown src.heap 0 s.store s'.store)
    (htokens : objectTokens s.ahead = objectTokens s'.ahead + paid) :
    Built src s₀ s' (owed + paid) values := by
  obtain ⟨k, hk, hbalance⟩ := h.grown
  have hsize := hstore.size
  refine ⟨⟨k, hk.trans hstore, by omega⟩, h.once, fun id hid => ?_⟩
  have := h.fresh id hid
  omega

namespace Parser

variable {α β : Type} {item : TypeIndex → Parser Value} {sub : Derivation} {close : Token}

/-- A step that touches neither store nor roster builds nothing; the tokens it reads are owed. -/
theorem Quiet.built {step : Parser α} (hquiet : Quiet step) {p : α → Parsing → Prop}
    (h : Built src s₀ s owed values)
    (hstep : Ends step src s
      (fun a s' => objectTokens s.ahead = objectTokens s'.ahead + paid ∧ p a s') AnyError) :
    Ends step src s (fun a s' => Built src s₀ s' (owed + paid) values ∧ p a s')
      fun _ => Grew src s₀ := by
  refine ((hquiet src s).and hstep).mono ?_ ?_
  · rintro a s' ⟨⟨hstore, -⟩, htokens, hp⟩
    exact ⟨h.step (hstore ▸ .refl _ _) htokens, hp⟩
  · rintro _ s' ⟨⟨hstore, -⟩, -⟩
    exact h.grew_trans ⟨0, hstore ▸ .refl _ _⟩

theorem Quiet.looks {step : Parser α} (hquiet : Quiet step) {p : α → Parsing → Prop}
    (h : Built src s₀ s owed values) (hstep : Ends step src s (fun a s' => s' = s ∧ p a s') AnyError) :
    Ends step src s (fun a s' => s' = s ∧ p a s') fun _ => Grew src s₀ :=
  ((hquiet src s).and hstep).mono (fun _ _ h => h.2)
    fun _ _ ⟨⟨hstore, _⟩, _⟩ => h.grew_trans ⟨0, hstore ▸ .refl _ _⟩

theorem builds_fail {cause : SyntaxFault} {ok : α → Parsing → Prop} (h : Built src s₀ s owed values) :
    Ends (fail cause) src s ok fun _ => Grew src s₀ := by
  rw [ends_fail]
  cases src.current s.tokens <;> exact h.grew

/-- Values that are let go where a step fails are not made any more, and nothing is made. -/
theorem grew_holding {step : Parser α} {ok : α → Parsing → Prop}
    (h : Ends step src s ok fun _ => Grew src s₀) (values : List Value) :
    Ends (holding values step) src s ok fun _ => Grew src s₀ :=
  ends_holding.mpr (h.mono (fun _ _ ha => ha) fun _ _ ⟨k, hk⟩ =>
    ⟨k, hk.trans (Store.grown_releaseAll values _)⟩)

/-! ### Objects -/

section Objects
variable (hheap : src.heap.number < s₀.store.heaps.size)
include hheap

theorem built_object {value : Value} (h : Built src s₀ s (owed + 1) values)
    (hids : idsOf [value] = (s.store.allocate src.heap).1 :: idsOf values)
    (hstore : s'.store = (s.store.allocate src.heap).2.retain value) (htokens : s'.tokens = s.tokens) :
    Built src s₀ s' owed [value] := by
  have hrange : src.heap.number < s.store.heaps.size := h.heaps.symm ▸ hheap
  have hnew : Store.Grown src.heap 1 s.store s'.store :=
    hstore ▸ (Store.grown_allocate hrange).trans (Store.grown_retain value)
  obtain ⟨k, hk, hbalance⟩ := h.grown
  have hsize := hnew.size
  have hsize₀ := hk.size
  have hfirst : (s.store.allocate src.heap).1.number = s.store.objects.size := rfl
  have hahead : s'.ahead = s.ahead := congrArg (List.map Spanned.token) htokens
  refine ⟨⟨k + 1, hk.trans hnew, by rw [hahead]; omega⟩, ?_, ?_⟩
  · rw [hids, List.nodup_cons]
    refine ⟨fun hid => ?_, h.once⟩
    have := (h.fresh _ hid).2
    omega
  · rw [hids]
    intro id hid
    rcases List.mem_cons.mp hid with rfl | hid
    · omega
    · have := h.fresh id hid
      omega

theorem builds_newString (h : Built src s₀ s (owed + 1) []) (text : String) :
    Ends (newString text) src s (fun v s' => Built src s₀ s' owed [v]) fun _ => Grew src s₀ :=
  ends_newString.mpr (built_object hheap h rfl rfl rfl)

theorem builds_newVector (h : Built src s₀ s (owed + 1) values) (type : TypeIndex) :
    Ends (newVector type values) src s (fun v s' => Built src s₀ s' owed [v])
      fun _ => Grew src s₀ :=
  ends_newVector.mpr (built_object hheap h (idsOf_vector _ _ _) rfl rfl)

end Objects

theorem builds_advance {spanned : Spanned} {rest : List Spanned} (h : Built src s₀ s owed values)
    (ht : s.tokens = spanned :: rest) :
    Ends advance src s (fun _ s' =>
      Built src s₀ s' (owed + if spanned.token.makesObject then 1 else 0) values ∧ s'.tokens = rest)
      fun _ => Grew src s₀ :=
  quiet_advance.built h (advance_sound
    ⟨by simp only [Parsing.ahead, ht, List.map_cons, objectTokens_cons, List.tail_cons], by rw [ht]; rfl⟩)

/-! ### Elements -/

/-- Each item builds the value that it returns. -/
def BuildsItems (src : Source) (item : TypeIndex → Parser Value) : Prop :=
  ∀ type s, Ready src s.ahead → src.heap.number < s.store.heaps.size →
    Ends (item type) src s (fun v s' => Built src s s' 0 [v]) fun _ => Grew src s

section Elements
variable (hitem : BuildsItems src item) (hheap : src.heap.number < s₀.store.heaps.size)
include hitem hheap

theorem builds_item (h : Built src s₀ s owed values) (hs : Ready src s.ahead) (type : TypeIndex) :
    Ends (item type) src s (fun v s' => Built src s₀ s' owed (v :: values))
      fun _ => Grew src s₀ :=
  (hitem type s hs (h.heaps.symm ▸ hheap)).mono (fun _ _ hv => h.frame hv)
    fun _ _ hg => h.grew_trans hg

theorem builds_element {done : List Value} (h : Built src s₀ s owed done) (hs : Ready src s.ahead)
    (slots : Slots) :
    Ends (element item slots done) src s (fun r s' => Built src s₀ s' owed r.2)
      fun _ => Grew src s₀ := by
  unfold element
  cases slots.next? with
  | some next => exact (builds_item hitem hheap h hs next.1).bind fun v s' hv => ends_pure.mpr hv
  | none =>
    refine (builds_item hitem hheap h hs .any).bind fun v s' hv => ?_
    have hdrop : Built src s₀ { s' with store := s'.store.releaseAll [v] } (owed + 0) ([v] ++ done) :=
      hv.step (Store.grown_releaseAll [v] _) rfl
    exact Ends.bind (m := fun _ s' => Built src s₀ s' owed done) (ends_drop.mpr hdrop.of_append)
      fun _ _ hdone => ends_pure.mpr hdone

variable (hsound : SoundFor src item sub)
include hsound

theorem builds_elementsFrom (hclose : close ≠ .endOfFile) : ∀ (bound : Nat) (slots : Slots)
    (done : List Value) (s : Parsing), Built src s₀ s owed done → Ready src s.ahead →
      Ends (elementsFrom item close bound slots done) src s
        (fun r s' => Built src s₀ s' owed r.2) fun _ => Grew src s₀
  | 0, _, _, _, h, _ => ends_pure.mpr h
  | bound + 1, slots, done, s, h, hs => by
    unfold elementsFrom
    have helement := (builds_element hitem hheap h hs slots).and (element_sound hsound hs)
    refine Ends.bind (grew_holding (helement.mono (fun _ _ h => h) fun _ _ h => h.1) done) ?_
    rintro ⟨slots', done'⟩ s₁ ⟨hdone, W, data, hW, -, -⟩
    have hs₁ : Ready src s₁.ahead := (hW ▸ hs).of_append
    -- neither a separator nor the closing bracket makes an object
    have hatEnd : Ends (atEnd close) src s₁ (fun _ s' =>
        objectTokens s₁.ahead = objectTokens s'.ahead + 0 ∧ Ready src s'.ahead) AnyError := by
      refine (atEnd_sound hclose).mono ?_ fun _ _ h => h
      rintro last s₂ (⟨-, hbreak | hbreak, -⟩ | ⟨-, separator, hseparator, hrest⟩)
      · exact ⟨by rw [hbreak]; rfl, hbreak ▸ hs₁⟩
      · exact ⟨by rw [hbreak, objectTokens_cons]; rfl, (hbreak ▸ hs₁).of_append (W := [.linefeed])⟩
      · refine ⟨?_, (hrest ▸ hs₁).of_append (W := [separator])⟩
        rw [hrest, objectTokens_cons]
        rcases hseparator with rfl | rfl <;> rfl
    refine Ends.bind (grew_holding ((quiet_atEnd close).built hdone hatEnd) done') ?_
    rintro last s₂ ⟨hdone, hs₂⟩
    cases last
    · exact builds_elementsFrom hclose bound slots' done' s₂ hdone hs₂
    · exact ends_pure.mpr hdone

/-- Elements are built with their brackets, which end in a token that makes no object. -/
theorem builds_elements (hstarts : ∀ type W datum, sub type W datum → W ≠ [])
    (hclose : close ≠ .endOfFile) (hobject : close.makesObject = false)
    (h : Built src s₀ s owed []) (hs : Ready src s.ahead) (hlen : s.ahead.length < src.size)
    (slots : Slots) :
    Ends (elements item close slots) src s (fun r s' => Built src s₀ s' owed r.2)
      fun _ => Grew src s₀ := by
  unfold elements
  have hbreak : Ends (discard (accept .linefeed)) src s (fun _ s' =>
      objectTokens s.ahead = objectTokens s'.ahead + 0 ∧
        Ready src s'.ahead ∧ s'.ahead.length < src.size) AnyError := by
    refine ends_discard.mpr (accept_sound (by decide) (fun spanned rest ht he => ?_)
      fun _ => ⟨rfl, hs, hlen⟩)
    have hahead : s.ahead = .linefeed :: rest.map (·.token) := Parsing.ahead_of_tokens ht he
    rw [hahead] at hs hlen
    exact ⟨by rw [hahead, objectTokens_cons]; rfl, hs.of_append (W := [.linefeed]),
      Nat.lt_of_succ_lt hlen⟩
  refine Ends.bind ((quiet_discard (quiet_accept _)).built h hbreak) ?_
  rintro _ s₁ ⟨h, hs, hlen⟩
  have hclosed : Ends (accept close) src s₁ (fun closed s' =>
      objectTokens s₁.ahead = objectTokens s'.ahead + 0 ∧ (closed = false → s' = s₁)) AnyError := by
    refine accept_sound hclose (fun spanned rest ht he => ⟨?_, fun hf => by cases hf⟩)
      fun _ => ⟨rfl, fun _ => rfl⟩
    have hahead : s₁.ahead = close :: rest.map (·.token) := Parsing.ahead_of_tokens ht he
    rw [hahead, objectTokens_cons, hobject]
    rfl
  refine Ends.bind ((quiet_accept close).built h hclosed) ?_
  rintro closed s₂ ⟨hbuilt, hsame⟩
  cases closed with
  | true => exact ends_pure.mpr hbuilt
  | false =>
    obtain rfl := hsame rfl
    rw [if_neg (by decide), ends_read]
    have hitems := (builds_elementsFrom hitem hheap hsound hclose src.size slots [] s₂ hbuilt hs).and
      (elementsFrom_sound hsound hstarts hclose src.size slots [] s₂ hs hlen)
    refine Ends.bind (hitems.mono (fun _ _ h => h) fun _ _ h => h.1) ?_
    rintro ⟨slots', done⟩ s₃ ⟨hdone, E, data, rest, -, hrest, -, -⟩
    obtain ⟨spanned, spans, ht, hclose', -⟩ := Parsing.tokens_of_ahead hrest
    subst hclose'
    refine Ends.bind (grew_holding (builds_advance hdone ht) done) ?_
    rintro _ s₄ ⟨hdone, -⟩
    rw [hobject] at hdone
    exact ends_pure.mpr (hdone.congr (idsOf_reverse_perm done))

end Elements

/-! ### Values -/

section Values
variable {line : UInt32} {rest : List Spanned}

theorem builds_pure {v : Value} (hv : v.objectId? = none) (h : Built src s₀ s owed []) :
    Ends (pure v) src s (fun v s' => Built src s₀ s' owed [v]) fun _ => Grew src s₀ :=
  have hids : idsOf [v] = [] := idsOf_eq_nil (by simpa using hv)
  ends_pure.mpr (h.congr (hids ▸ .refl _))

theorem builds_expectKind (given required : TypeKind) (h : Built src s₀ s owed values) :
    Ends (expectKind given required) src s (fun _ s' => s' = s ∧ Admits required given)
      fun _ => Grew src s₀ :=
  (quiet_expectKind _ _).looks h (expectKind_sound fun hadmits => ⟨rfl, hadmits⟩)

theorem builds_scalar {token : Token} {given required : TypeKind} {make : Parser Value}
    (ht : s.tokens = ⟨token, line⟩ :: rest)
    (hmake : ∀ s', Built src s s' (0 + if token.makesObject then 1 else 0) [] →
      Ends make src s' (fun v s'' => Built src s s'' 0 [v]) fun _ => Grew src s) :
    Ends (scalar given required make) src s (fun v s' => Built src s s' 0 [v])
      fun _ => Grew src s := by
  refine Ends.bind (builds_expectKind _ _ (.refl src s)) ?_
  rintro _ s₁ ⟨hs₁, -⟩
  obtain rfl : s = s₁ := hs₁.symm
  exact Ends.bind (builds_advance (.refl src s) ht) fun _ s₂ h₂ => hmake s₂ h₂.1

section Inner
variable (hitem : BuildsItems src item) (hheap : src.heap.number < s.store.heaps.size)
  (hs : Ready src s.ahead)
include hitem hheap hs

theorem builds_negated (ht : s.tokens = ⟨.minus, line⟩ :: rest) (type : TypeIndex) (kind : TypeKind) :
    Ends (negated item type kind) src s (fun v s' => Built src s s' 0 [v]) fun _ => Grew src s := by
  have hahead : s.ahead = [.minus] ++ rest.map (·.token) := Parsing.ahead_of_tokens ht rfl
  unfold negated
  refine Ends.bind (builds_advance (.refl src s) ht) ?_
  rintro _ s₁ ⟨h₁, rfl⟩
  refine Ends.bind (builds_item hitem hheap h₁ (hahead ▸ hs).of_append type) fun operand s₂ h₂ => ?_
  split
  · next v hn =>
    split_ifs at hn
    refine ends_pure.mpr (h₂.congr ?_)
    cases operand <;> cases hn <;> exact .refl _
  · exact grew_holding (builds_fail h₂) [operand]

variable (hsound : SoundFor src item sub) (hstarts : ∀ type W datum, sub type W datum → W ≠ [])
include hsound hstarts

theorem builds_vectorLiteral (ht : s.tokens = ⟨.leftBracket, line⟩ :: rest) (type : TypeIndex)
    (descriptor : TypeDescriptor) :
    Ends (vectorLiteral item type descriptor) src s (fun v s' => Built src s s' 0 [v])
      fun _ => Grew src s := by
  unfold vectorLiteral
  refine Ends.bind (builds_expectKind _ _ (.refl src s)) ?_
  rintro _ s₁ ⟨hs₁, -⟩
  obtain rfl : s = s₁ := hs₁.symm
  refine Ends.bind (builds_advance (.refl src s) ht) ?_
  rintro _ s₂ ⟨h₂, rfl⟩
  -- the bracket is owed until the vector is made
  have hready : Ready src (.leftBracket :: s₂.ahead) :=
    (show s.ahead = .leftBracket :: s₂.ahead from Parsing.ahead_of_tokens ht rfl) ▸ hs
  refine Ends.bind (builds_elements hitem hheap hsound hstarts (by decide) rfl h₂
    (hready.of_append (W := [.leftBracket])) (Nat.lt_of_succ_le hready.length_le) _) ?_
  rintro ⟨slots, items⟩ s₃ h₃
  exact builds_newVector hheap h₃ _

/-- The fields are built by their elements; their defaults are built of nothing. -/
theorem builds_structLiteral {name : String} (ht : s.tokens = ⟨.name name, line⟩ :: rest)
    {type : TypeIndex} {descriptor : TypeDescriptor}
    (hd : src.ctx.types.get? type = some descriptor) :
    Ends (structLiteral item type descriptor name) src s (fun v s' => Built src s s' 0 [v])
      fun _ => Grew src s := by
  have hahead : s.ahead = [.name name] ++ rest.map (·.token) := Parsing.ahead_of_tokens ht rfl
  have hname : name ≠ "" := hs.lexical.names name (by rw [hahead]; exact List.mem_cons_self)
  unfold structLiteral
  refine Ends.bind (builds_expectKind _ _ (.refl src s)) ?_
  rintro _ s₁ ⟨hs₁, hadmits⟩
  obtain rfl : s = s₁ := hs₁.symm
  refine Ends.bind (builds_advance (.refl src s) ht) ?_
  rintro _ s₂ ⟨h₂, rfl⟩
  -- the bracket is owed until the vector of the fields is made
  have hopen : Ends (expect .leftCurly) src s₂ (fun _ s' =>
      objectTokens s₂.ahead = objectTokens s'.ahead + 1 ∧ s₂.ahead = .leftCurly :: s'.ahead)
      AnyError := by
    refine expect_sound (by decide) fun spanned rest ht he => ?_
    have hcurly : s₂.ahead = .leftCurly :: rest.map (·.token) := Parsing.ahead_of_tokens ht he
    exact ⟨by rw [hcurly, objectTokens_cons]; rfl, hcurly⟩
  refine Ends.bind ((quiet_expect _).built h₂ hopen) ?_
  rintro _ s₃ ⟨h₃, hcurly⟩
  have hready : Ready src (.leftCurly :: s₃.ahead) := hcurly ▸ (hahead ▸ hs).of_append
  refine Ends.bind ((quiet_structType _ _ _).looks h₃ (structType_sound rfl hd hadmits hname)) ?_
  rintro found s₄ ⟨rfl, -⟩
  refine Ends.bind ((quiet_fieldTypes _ _).looks h₃ (fieldTypes_sound rfl)) ?_
  rintro fields s₅ ⟨rfl, -⟩
  refine Ends.bind (builds_elements hitem hheap hsound hstarts (by decide) rfl h₃
    (hready.of_append (W := [.leftCurly])) (Nat.lt_of_succ_le hready.length_le) _) ?_
  rintro ⟨slots, items⟩ s₆ h₆
  refine Ends.bind (m := fun defaults s' => Built src s s' 1 (items ++ defaults))
    (grew_holding ((ends_defaults slots.missing s₆).mono ?_ ?_) items) fun _ _ h₇ =>
      builds_newVector hheap h₇ found
  · rintro defaults s₇ ⟨rfl, hscalar⟩
    refine h₆.congr ?_
    rw [idsOf_append, idsOf_eq_nil hscalar, List.append_nil]
  · rintro _ s₇ rfl
    exact h₆.grew

theorem builds_literal {token : Token} (ht : s.tokens = ⟨token, line⟩ :: rest) {type : TypeIndex}
    {descriptor : TypeDescriptor} (hd : src.ctx.types.get? type = some descriptor) :
    Ends (literal item type descriptor token) src s (fun v s' => Built src s s' 0 [v])
      fun _ => Grew src s := by
  cases token with
  | int | float | nil => exact builds_scalar ht fun s' h => builds_pure rfl h
  | string text => exact builds_scalar ht fun s' h => builds_newString hheap h text
  | minus => exact builds_negated hitem hheap hs ht type _
  | leftBracket => exact builds_vectorLiteral hitem hheap hs hsound hstarts ht type descriptor
  | name name => exact builds_structLiteral hitem hheap hs hsound hstarts ht hd
  | _ => exact builds_fail (.refl src s)

end Inner

end Values

/-- **What a parsed value is built of**: every object in it was made for it, once, and a token was read
for each object that was made. -/
theorem builds_value : ∀ depth, BuildsItems src (value depth)
  | 0 => fun _ s _ _ => builds_fail (.refl src s)
  | depth + 1 => by
    intro type s hs hheap
    have hstarts : ∀ type W datum, Derives src.ctx depth type W datum → W ≠ [] := fun _ _ _ h => h.ne_nil
    unfold value
    rw [ends_read]
    cases hd : src.ctx.types.get? type with
    | none => exact builds_fail (.refl src s)
    | some descriptor =>
      have hcurrent : Ends current src s (fun spanned s' => s' = s ∧
          ((∃ rest, s.tokens = spanned :: rest) ∨ spanned.token = .endOfFile)) AnyError :=
        current_sound fun spanned h => ⟨rfl, h⟩
      refine Ends.bind (quiet_current.looks (.refl src s) hcurrent) ?_
      rintro ⟨token, line⟩ s₁ ⟨hs₁, hcur⟩
      obtain rfl : s = s₁ := hs₁.symm
      rcases hcur with ⟨rest, ht⟩ | hend
      · exact builds_literal (builds_value depth) hheap hs (value_sound rfl depth) hstarts ht hd
      · obtain rfl : token = .endOfFile := hend
        exact builds_fail (.refl src s)

theorem builds_wholeText (depth : Nat) (type : TypeIndex) (hs : Ready src s.ahead)
    (hheap : src.heap.number < s.store.heaps.size) :
    Ends (wholeText depth type) src s (fun v s' =>
      Store.Grown src.heap (objectTokens s.ahead) s.store s'.store ∧ (idsOf [v]).Nodup ∧
        ∀ id ∈ idsOf [v], s.store.objects.size ≤ id.number) fun _ => Grew src s := by
  unfold wholeText
  have hcurrent : Ends (discard current) src s (fun _ s' => s' = s ∧ True) AnyError :=
    ends_discard.mpr (current_sound fun _ _ => ⟨rfl, trivial⟩)
  refine Ends.bind ((quiet_discard quiet_current).looks (.refl src s) hcurrent) ?_
  rintro _ s₁ ⟨hs₁, -⟩
  obtain rfl : s = s₁ := hs₁.symm
  refine Ends.bind (((builds_value depth type s hs hheap).and (value_sound rfl depth type s hs)).mono
    (fun _ _ h => h) fun _ _ h => h.1) ?_
  rintro v s₂ ⟨h₂, W, hW, -⟩
  have hends : Token.endOfFile ∉ s₂.ahead := (hW ▸ hs).of_append.lexical.ends
  have hquiet : Quiet (do discard (accept .linefeed); expect .endOfFile) :=
    (quiet_discard (quiet_accept _)).bind fun _ => quiet_expect _
  refine Ends.bind (m := fun _ s' => s'.store = s₂.store ∧ objectTokens s₂.ahead = 0)
    (grew_holding (((hquiet src s₂).and (ending_sound hends)).mono ?_ ?_) [v]) ?_
  · rintro _ s₃ ⟨⟨hstore, -⟩, -, hrest⟩
    refine ⟨hstore, ?_⟩
    rcases hrest with h | h <;> rw [h] <;> rfl
  · rintro _ s₃ ⟨⟨hstore, -⟩, -⟩
    exact h₂.grew_trans ⟨0, hstore ▸ .refl _ _⟩
  rintro _ s₃ ⟨hstore, hrest⟩
  obtain ⟨k, hk, htokens⟩ := h₂.grown
  obtain rfl : objectTokens s.ahead = k := by omega
  exact ends_pure.mpr ⟨hstore ▸ hk, h₂.once, fun id hid => (h₂.fresh id hid).1⟩

end Parser

section Parses
variable {heap : HeapId} {store : Store}

/-- **A parse adds objects only**: one for each token of the text that makes one if it succeeds, and the
objects of its value are among them, each once. -/
theorem parse_grown (ctx : TypeContext) (depth : Nat) (type : TypeIndex) (text : String)
    (hheap : heap.number < store.heaps.size) :
    (∀ v store', parse ctx heap depth type text store = (.ok v, store') →
      Store.Grown heap (objectTokens ((Lexed.ofText text).tokens.map (·.token))) store store' ∧
        (idsOf [v]).Nodup ∧ ∀ id ∈ idsOf [v], store.objects.size ≤ id.number) ∧
    (∀ fault store', parse ctx heap depth type text store = (.error fault, store') →
      ∃ k, Store.Grown heap k store store') := by
  refine (parse_iff_ends ctx heap depth type text store (p := fun r =>
    (∀ v store', r = (.ok v, store') →
      Store.Grown heap (objectTokens ((Lexed.ofText text).tokens.map (·.token))) store store' ∧
        (idsOf [v]).Nodup ∧ ∀ id ∈ idsOf [v], store.objects.size ≤ id.number) ∧
    ∀ fault store', r = (.error fault, store') → ∃ k, Store.Grown heap k store store')).mpr ?_
  refine (Parser.builds_wholeText depth type (Parser.ready_ofText ctx heap text store) hheap).mono ?_ ?_
  · rintro v s ⟨hgrown, honce, hfresh⟩
    refine ⟨fun v' store' he => ?_, fun _ _ he => by cases he⟩
    cases he
    exact ⟨hgrown.trans (Store.grown_releaseAll _ _), honce, hfresh⟩
  · rintro fault s ⟨k, hk⟩
    refine ⟨fun _ _ he => (by cases he), fun _ store' he => ?_⟩
    cases he
    exact ⟨k, hk.trans (Store.grown_releaseAll _ _)⟩

end Parses

end Wordcode.Literal
