import Wordcode.Literal.Print
import Wordcode.Proofs.Literal.Grammar
import Wordcode.Proofs.Literal.Tokens

/-! # The canonical literal of a datum

Every datum has one canonical sequence of tokens (`Datum.tokens`): the one that is written. Whatever is
derived at a type is derived at it from the canonical tokens as well, in as many levels as the datum needs
(`Derives.canonical`). What is derived from tokens of a text has names that can be read again and holds
no not-a-number (`Derives.formed`). -/

namespace Wordcode

/-- Whether the double is infinite. -/
def Double.isInfinite : Double → Bool
  | nan => false
  | signed _ rank => rank.val == infinityRank

/-- What is assumed of types and structs: the built-in types stand in front, and an index of 32 bits
reaches every entry. No module that is stored has more, since the length of its payload has 32 bits too. -/
structure TypeContext.Indexed (ctx : TypeContext) : Prop where
  builtins : TypeTable.builtins.entries.toList <+: ctx.types.entries.toList
  types : ctx.types.size ≤ UInt32.size
  structs : ctx.structs.size ≤ UInt32.size

theorem TypeTable.get?_of_builtins {types : TypeTable}
    (h : TypeTable.builtins.entries.toList <+: types.entries.toList) {type : TypeIndex}
    {descriptor : TypeDescriptor} (hd : TypeTable.builtins.get? type = some descriptor) :
    types.get? type = some descriptor := by
  obtain ⟨further, hfurther⟩ := h
  rw [get?, Index.entry?, ← Array.getElem?_toList] at hd ⊢
  rw [← hfurther]
  exact (List.getElem?_append_left (List.getElem?_eq_some_iff.mp hd).1).trans hd

namespace TypeContext

variable {ctx : TypeContext}

theorem Indexed.get?_vectorAny (h : ctx.Indexed) :
    ctx.types.get? .vectorAny = some (.vector .any) := TypeTable.get?_of_builtins h.builtins rfl

theorem entry?_ofNat {α : Type} {table : Table} {entries : Array α} {n : Nat}
    (h : n < UInt32.size) : Index.entry? (.ofNat n : Index table) entries = entries[n]? := by
  rw [Index.entry?, Index.toNat, Index.ofNat, UInt32.toNat_ofNat_of_lt' h]

/-- The type of a struct that is found by its name is the type of a struct of that name. -/
theorem Indexed.structName?_of_structTypeNamed? (h : ctx.Indexed) {name : String} {found : TypeIndex}
    {id : StructIndex} {fields : List TypeIndex} (hfound : ctx.structTypeNamed? name = some found)
    (hget : ctx.types.get? found = some (.struct id fields)) : ctx.structName? id = some name := by
  obtain ⟨id', hid, htype⟩ := Option.bind_eq_some_iff.mp hfound
  obtain ⟨i, hi, rfl⟩ := Option.map_eq_some_iff.mp hid
  obtain ⟨j, hj, rfl⟩ := Option.map_eq_some_iff.mp htype
  obtain ⟨hilt, hname, -⟩ := Array.findIdx?_eq_some_iff_getElem.mp hi
  obtain ⟨hjlt, hdescribes, -⟩ := Array.findIdx?_eq_some_iff_getElem.mp hj
  rw [TypeTable.get?, entry?_ofNat (Nat.lt_of_lt_of_le hjlt h.types), Array.getElem?_eq_getElem hjlt,
    Option.some.injEq] at hget
  rw [hget, TypeTable.describes, beq_iff_eq] at hdescribes
  rw [hdescribes, structName?, entry?_ofNat (Nat.lt_of_lt_of_le hilt h.structs),
    Array.getElem?_eq_getElem hilt, Option.map_some, beq_iff_eq.mp hname]

end TypeContext

namespace Literal

namespace Datum

/-! ### Canonical tokens -/

/-- The tokens of an integer. -/
def tokensOfInt (value : Int64) : List Token :=
  if value < 0 then [.minus, .int (-value)] else [.int value]

/-- The tokens of a float. What is not finite is written as a name. -/
def tokensOfFloat : Double → List Token
  | .nan => [.name "NaN"]
  | .signed negative rank =>
    (if negative then [.minus] else []) ++
      [if rank.val = infinityRank then .name "inf" else .float (.signed false rank)]

/-- The tokens in front of the elements of a vector and the one behind them. -/
def enclosing (ctx : TypeContext) (type : TypeIndex) : List Token × Token :=
  match ctx.types.get? type with
  | some (.struct id _) => ([.name ((ctx.structName? id).getD "?"), .leftCurly], .rightCurly)
  | _ => ([.leftBracket], .rightBracket)

mutual

/-- The tokens that are written for a datum. -/
def tokens (ctx : TypeContext) : Datum → List Token
  | nil => [.nil]
  | int value => tokensOfInt value
  | float value => tokensOfFloat value
  | string text => [.string text]
  | vector type elements =>
    (enclosing ctx type).1 ++ separated ctx elements ++ [(enclosing ctx type).2]

/-- The tokens of elements with commas between them. -/
def separated (ctx : TypeContext) : List Datum → List Token
  | [] => []
  | [datum] => tokens ctx datum
  | datum :: data => tokens ctx datum ++ .comma :: separated ctx data

end

mutual

/-- The number of values that contain each other in the literal of a datum; a minus sign contains its
number. -/
def need : Datum → Nat
  | int value => if value < 0 then 2 else 1
  | float (.signed true _) => 2
  | vector _ elements => 1 + needOfAll elements
  | _ => 1

/-- The greatest need among data. -/
def needOfAll : List Datum → Nat
  | [] => 0
  | datum :: data => max (need datum) (needOfAll data)

end

theorem need_pos : ∀ datum : Datum, 1 ≤ datum.need
  | int value => by rw [need]; split_ifs <;> omega
  | float (.signed true _) | float (.signed false _) | float .nan | string _ | nil => by simp [need]
  | vector _ elements => by rw [need]; omega

theorem need_le_needOfAll {datum : Datum} : ∀ {data : List Datum}, datum ∈ data →
    need datum ≤ needOfAll data
  | _ :: data, h => by
    rw [needOfAll]
    rcases List.mem_cons.mp h with rfl | h
    · exact Nat.le_max_left ..
    · exact Nat.le_trans (need_le_needOfAll h) (Nat.le_max_right ..)

/-- Whether all floats in a datum are finite. -/
def Finite (datum : Datum) : Prop :=
  ∀ part ∈ datum.parts, ∀ x, part = .float x → x ≠ .nan ∧ x.isInfinite = false

/-- Whether the datum has a literal: the least integer and infinite floats have none. -/
def Writable (datum : Datum) : Prop :=
  ∀ part ∈ datum.parts, part ≠ .int Int64.minValue ∧ ∀ x, part = .float x → x.isInfinite = false

end Datum

variable {ctx : TypeContext} {sub sub' : Derivation} {slots slots' slots'' : Parser.Slots}
  {E W : List Token} {data data' : List Datum} {type : TypeIndex} {datum : Datum} {depth : Nat}

/-! ### What fills slots -/

/-- The data take the slots one after the other, each as it fits its slot. -/
inductive Fills (fits : TypeIndex → Datum → Prop) : Parser.Slots → List Datum → Parser.Slots → Prop
  | done (slots : Parser.Slots) : Fills fits slots [] slots
  | fill {slots slots' slots'' : Parser.Slots} {type : TypeIndex} {datum : Datum} {data : List Datum}
    (slot : slots.next? = some (type, slots')) (fit : fits type datum)
    (rest : Fills fits slots' data slots'') : Fills fits slots (datum :: data) slots''

variable {fits fits' : TypeIndex → Datum → Prop}

theorem Fills.mono (h : Fills fits slots data slots')
    (himp : ∀ type, ∀ datum ∈ data, fits type datum → fits' type datum) :
    Fills fits' slots data slots' := by
  induction h with
  | done slots => exact .done slots
  | fill slot fit _ ih =>
    exact .fill slot (himp _ _ List.mem_cons_self fit)
      (ih fun type datum hd => himp type datum (List.mem_cons_of_mem _ hd))

theorem Fills.append (h : Fills fits slots data slots') (h' : Fills fits slots' data' slots'') :
    Fills fits slots (data ++ data') slots'' := by
  induction h with
  | done slots => exact h'
  | fill slot fit _ ih => exact .fill slot fit (ih h')

theorem Fills.forall_mem (h : Fills fits slots data slots') : ∀ datum ∈ data, ∃ type, fits type datum := by
  induction h with
  | done slots => simp
  | fill slot fit _ ih => exact List.forall_mem_cons.mpr ⟨⟨_, fit⟩, ih⟩

/-- A datum is derived from some of the tokens. -/
def Within (sub : Derivation) (E : List Token) (type : TypeIndex) (datum : Datum) : Prop :=
  ∃ W ⊆ E, sub type W datum

theorem Item.fills (h : Item sub slots W data slots') : Fills (Within sub W) slots data slots' := by
  cases h with
  | kept slot derived => exact .fill slot ⟨W, List.Subset.refl W, derived⟩ (.done _)
  | dropped slot derived => exact .done _

theorem Fills.within_mono {E' : List Token} (h : Fills (Within sub E) slots data slots')
    (hE : E ⊆ E') : Fills (Within sub E') slots data slots' :=
  h.mono fun _ _ _ ⟨W, hW, derived⟩ => ⟨W, List.Subset.trans hW hE, derived⟩

theorem Items.fills (h : Items sub slots E data slots') : Fills (Within sub E) slots data slots' := by
  induction h with
  | last item => exact item.fills
  | lastBreak item => exact item.fills.within_mono (List.subset_append_left _ _)
  | more item _ _ ih =>
    refine (item.fills.within_mono (List.subset_append_left _ _)).append (ih.within_mono ?_)
    exact List.Subset.trans (List.subset_cons_self _ _) (List.subset_append_right _ _)

theorem Body.fills (h : Body sub slots E data slots') : Fills (Within sub E) slots data slots' := by
  cases h with
  | empty => exact .done _
  | items h => exact h.fills

theorem fills_defaults : ∀ {types : List TypeIndex} {defaults : List Datum},
    types.mapM (defaultDatum? ctx) = some defaults →
      Fills (fun type datum => defaultDatum? ctx type = some datum) (.each types) defaults (.each [])
  | [], _, h => by
    rw [List.mapM_nil, Option.pure_def, Option.some.injEq] at h
    exact h ▸ .done _
  | type :: types, defaults, h => by
    rw [List.mapM_cons, Option.bind_eq_bind, Option.bind_eq_some_iff] at h
    obtain ⟨datum, hdatum, h⟩ := h
    obtain ⟨data, hdata, h⟩ := Option.bind_eq_some_iff.mp h
    rw [Option.pure_def, Option.some.injEq] at h
    exact h ▸ .fill rfl hdatum (fills_defaults hdata)

theorem fills_missing {defaults : List Datum}
    (h : slots.missing.mapM (defaultDatum? ctx) = some defaults) : ∃ slots',
      Fills (fun type datum => defaultDatum? ctx type = some datum) slots defaults slots' ∧
        slots'.missing = [] := by
  cases slots with
  | every type =>
    rw [Parser.Slots.missing, List.mapM_nil, Option.pure_def, Option.some.injEq] at h
    subst h
    exact ⟨.every type, .done _, rfl⟩
  | each types => exact ⟨_, fills_defaults h, rfl⟩

theorem Body.fills_defaults {defaults : List Datum} (h : Body sub slots E data slots')
    (missing : slots'.missing.mapM (defaultDatum? ctx) = some defaults) : ∃ slots'',
      Fills (fun type datum => Within sub E type datum ∨ defaultDatum? ctx type = some datum) slots
        (data ++ defaults) slots'' ∧ slots''.missing = [] := by
  obtain ⟨slots'', hfill, hnone⟩ := fills_missing missing
  exact ⟨slots'', (h.fills.mono fun _ _ _ => .inl).append (hfill.mono fun _ _ _ => .inr), hnone⟩

/-- Data that are derived from their canonical tokens make a body, one after the other. -/
theorem Fills.body (h : Fills (fun type datum => sub type (datum.tokens ctx) datum) slots data slots') :
    Body sub slots (Datum.separated ctx data) data slots' := by
  have hitems : ∀ {slots slots' data},
      Fills (fun type datum => sub type (datum.tokens ctx) datum) slots data slots' →
        data ≠ [] → Items sub slots (Datum.separated ctx data) data slots' := by
    intro slots slots' data h
    induction h with
    | done slots => exact fun hne => absurd rfl hne
    | fill slot fit rest ih =>
      intro _
      cases rest with
      | done slots => exact .last (.kept slot fit)
      | fill slot' fit' rest' =>
        exact .more (.kept slot fit) (.inl rfl) (ih (by simp))
  cases h with
  | done => exact .empty slots
  | fill slot fit rest => exact .items (hitems (.fill slot fit rest) (by simp))

/-! ### Derivation from canonical tokens -/

theorem Datum.number_of_negate? {negated : Datum} (h : datum.negate? = some negated) :
    negated.kind = .int ∨ negated.kind = .float := by
  cases datum <;> cases h
  · exact .inl rfl
  · exact .inr rfl

/-- A number can only stand where its kind may. -/
theorem Derives.admits_number : ∀ {depth : Nat} {W : List Token} {datum : Datum},
    Derives ctx depth type W datum → (datum.kind = .int ∨ datum.kind = .float) →
      ∃ kind, ctx.types.kind? type = some kind ∧ Admits kind datum.kind
  | depth + 1, W, datum, h, hkind => by
    cases h with
    | scalar known stands admits => exact ⟨_, known, admits⟩
    | @minus kind W operand negated known signs derived negates =>
      have hsame : operand.kind = datum.kind := by cases operand <;> cases negates <;> rfl
      rw [← hsame] at hkind ⊢
      exact admits_number derived hkind
    | aggregate => rcases hkind with h | h <;> cases h

theorem signs_of_admits {kind given : TypeKind} (h : Admits kind given)
    (hgiven : given = .int ∨ given = .float) : Signs kind := by
  rcases h with rfl | rfl
  · rcases hgiven with rfl | rfl <;> exact .inl rfl
  · exact .inr rfl

theorem derives_int {kind : TypeKind} {value : Int64} (known : ctx.types.kind? type = some kind)
    (admits : Admits kind .int) (hneed : (Datum.int value).need ≤ depth) :
    Derives ctx depth type (Datum.tokensOfInt value) (.int value) := by
  rw [Datum.need] at hneed
  unfold Datum.tokensOfInt
  split_ifs at hneed ⊢ with hneg
  · obtain ⟨depth, rfl⟩ : ∃ d, depth = d + 2 := ⟨depth - 2, by omega⟩
    exact Rule.minus known (signs_of_admits admits (.inl rfl)) (W := [.int (-value)])
      (Rule.scalar known rfl admits) (by rw [Datum.negate?, Int64.neg_neg])
  · obtain ⟨depth, rfl⟩ : ∃ d, depth = d + 1 := ⟨depth - 1, by omega⟩
    exact Rule.scalar known rfl admits

theorem derives_float {kind : TypeKind} {negative : Bool} {rank : Fin (infinityRank + 1)}
    (known : ctx.types.kind? type = some kind) (admits : Admits kind .float)
    (hfinite : rank.val ≠ infinityRank)
    (hneed : (Datum.float (.signed negative rank)).need ≤ depth) :
    Derives ctx depth type (Datum.tokensOfFloat (.signed negative rank))
      (.float (.signed negative rank)) := by
  unfold Datum.tokensOfFloat
  dsimp only
  rw [if_neg hfinite]
  cases negative with
  | true =>
    rw [Datum.need] at hneed
    obtain ⟨depth, rfl⟩ : ∃ d, depth = d + 2 := ⟨depth - 2, by omega⟩
    exact Rule.minus known (signs_of_admits admits (.inr rfl)) (W := [.float (.signed false rank)])
      (Rule.scalar known rfl admits) rfl
  | false =>
    have hpos := Nat.le_trans (Datum.need_pos _) hneed
    obtain ⟨depth, rfl⟩ : ∃ d, depth = d + 1 := ⟨depth - 1, by omega⟩
    exact Rule.scalar known rfl admits

theorem derives_default (h : defaultDatum? ctx type = some datum) (hneed : datum.need ≤ depth) :
    Derives ctx depth type (datum.tokens ctx) datum := by
  obtain ⟨kind, known, hdefault⟩ := Option.bind_eq_some_iff.mp h
  have hpos := Nat.le_trans (Datum.need_pos _) hneed
  cases kind <;> cases hdefault
  · obtain ⟨depth, rfl⟩ : ∃ d, depth = d + 1 := ⟨depth - 1, by omega⟩
    exact Rule.scalar known rfl (.inl rfl)
  · exact derives_int known (.inl rfl) hneed
  · exact derives_float known (.inl rfl) (by decide) hneed

theorem Frame.enclosing_eq (hctx : ctx.Indexed) {opening : List Token} {close : Token}
    {vectorType : TypeIndex} (h : Frame ctx type opening close vectorType slots) :
    Datum.enclosing ctx vectorType = (opening, close) := by
  unfold Datum.enclosing
  cases h with
  | vector described => rw [described]
  | anyVector => rw [hctx.get?_vectorAny]
  | struct described named =>
    rw [described]
    dsimp only
    rw [named]
    rfl
  | anyStruct described admits named describedFound =>
    rw [describedFound]
    dsimp only
    rw [hctx.structName?_of_structTypeNamed? named describedFound]
    rfl

theorem Derives.canonical_number {m : Nat} (h : Derives ctx m type W datum)
    (hkind : datum.kind = .int ∨ datum.kind = .float) (hfinite : datum.Finite)
    (hneed : datum.need ≤ depth) : Derives ctx depth type (datum.tokens ctx) datum := by
  obtain ⟨kind, known, admits⟩ := h.admits_number hkind
  cases datum with
  | int value => exact derives_int known admits hneed
  | float x =>
    obtain ⟨hnan, hinf⟩ := hfinite _ (Datum.mem_parts_self _) x rfl
    cases x with
    | nan => exact absurd rfl hnan
    | signed negative rank =>
      exact derives_float known admits (by simpa [Double.isInfinite] using hinf) hneed
  | _ => rcases hkind with h | h <;> cases h

/-- **What is derived at a type is derived from its canonical tokens**, in as many levels as it needs. -/
theorem Derives.canonical (hctx : ctx.Indexed) : ∀ (m : Nat) {type : TypeIndex} {W : List Token}
    {datum : Datum}, Derives ctx m type W datum → datum.Finite →
      ∀ {depth}, datum.need ≤ depth → Derives ctx depth type (datum.tokens ctx) datum
  | m + 1, type, W, datum, h, hfinite, depth, hneed => by
    have hnumber := fun hkind => h.canonical_number hkind hfinite hneed
    have hpos := Nat.le_trans (Datum.need_pos datum) hneed
    obtain ⟨depth, rfl⟩ : ∃ d, depth = d + 1 := ⟨depth - 1, by omega⟩
    cases h with
    | @scalar kind token datum known stands admits =>
      cases token <;> cases stands
      · exact hnumber (.inl rfl)
      · exact hnumber (.inr rfl)
      · exact Rule.scalar known rfl admits
      · exact Rule.scalar known rfl admits
    | @minus kind W operand negated known signs derived negates =>
      exact hnumber (Datum.number_of_negate? negates)
    | @aggregate opening close vectorType slots slots' E data defaults frame body missing =>
      have hneeds : ∀ part ∈ data ++ defaults, part.need ≤ depth := fun part hpart => by
        have := Datum.need_le_needOfAll hpart
        rw [Datum.need] at hneed
        omega
      have hparts := (Datum.forall_parts_vector.mp hfinite).2
      obtain ⟨slots'', hfill, hnone⟩ := body.fills_defaults missing
      have hcanonical : Fills (fun type datum => Derives ctx depth type (datum.tokens ctx) datum) slots
          (data ++ defaults) slots'' := hfill.mono fun type part hpart h => by
        rcases h with ⟨W, -, derived⟩ | hdefault
        · exact derived.canonical hctx m (hparts part hpart) (hneeds part hpart)
        · exact derives_default hdefault (hneeds part hpart)
      -- the canonical tokens write the defaults as well, so no slot is left
      have hmissing : slots''.missing.mapM (defaultDatum? ctx) = some [] := by rw [hnone]; rfl
      have hrule := Rule.aggregate frame hcanonical.body hmissing
      rw [List.append_nil] at hrule
      rw [Datum.tokens, frame.enclosing_eq hctx]
      exact hrule

/-! ### What is derived from a text -/

namespace Datum

/-- Whether a datum can come from a text: it is no not-a-number, and the brackets of a vector are tokens of
a text. -/
def Readable (ctx : TypeContext) : Datum → Prop
  | float x => x ≠ .nan
  | vector type _ => ∀ token ∈ (enclosing ctx type).1, token.Readable
  | _ => True

/-- Whether all parts of a datum can come from a text. -/
def Formed (ctx : TypeContext) (datum : Datum) : Prop := ∀ part ∈ datum.parts, part.Readable ctx

theorem formed_vector {elements : List Datum} : (vector type elements).Formed ctx ↔
    (vector type elements).Readable ctx ∧ ∀ element ∈ elements, element.Formed ctx :=
  forall_parts_vector

end Datum

theorem mem_parts_default {part : Datum} (h : defaultDatum? ctx type = some datum) (hpart : part ∈ datum.parts) :
    part = datum := by
  obtain ⟨kind, known, hdefault⟩ := Option.bind_eq_some_iff.mp h
  cases kind <;> cases hdefault <;> exact List.mem_singleton.mp hpart

theorem readable_default (h : defaultDatum? ctx type = some datum) : datum.Readable ctx := by
  obtain ⟨kind, known, hdefault⟩ := Option.bind_eq_some_iff.mp h
  cases kind <;> cases hdefault
  · trivial
  · trivial
  · exact Double.noConfusion

theorem Datum.readable_of_negate? {operand : Datum} (h : operand.negate? = some datum)
    (hread : operand.Readable ctx) : datum.Readable ctx := by
  cases operand <;> cases h
  · trivial
  · exact Double.neg_ne_nan hread

theorem Token.readable_of_datum? {token : Token} (hread : token = .linefeed ∨ token.Readable)
    (h : token.datum? = some datum) : datum.Readable ctx := by
  cases token <;> cases h
  · trivial
  · obtain ⟨rank, rfl⟩ := hread.resolve_left (by simp)
    exact Double.noConfusion
  · trivial
  · trivial

theorem Frame.linefeed_not_mem {opening : List Token} {close : Token} {vectorType : TypeIndex}
    (h : Frame ctx type opening close vectorType slots) : .linefeed ∉ opening := by
  cases h <;> simp

/-- What holds of the data of single tokens and of defaults, is kept by minus signs and holds of what brackets
make, holds of all parts of what is derived. -/
theorem Derives.forall_parts {q : Token → Prop} {p : Datum → Prop}
    (htoken : ∀ {token datum}, q token → token.datum? = some datum → p datum)
    (hminus : ∀ {operand datum}, operand.negate? = some datum → p operand → p datum)
    (hdefault : ∀ {type datum}, defaultDatum? ctx type = some datum → p datum)
    (hframe : ∀ {type opening close vectorType slots} elements,
      Frame ctx type opening close vectorType slots → (∀ token ∈ opening, q token) →
        p (.vector vectorType elements)) :
    ∀ {depth : Nat} {type : TypeIndex} {W : List Token} {datum : Datum}, Derives ctx depth type W datum →
      (∀ token ∈ W, q token) → ∀ part ∈ datum.parts, p part
  | depth + 1, type, W, datum, h, hread => by
    cases h with
    | @scalar kind token datum known stands admits =>
      intro part hpart
      have hdatum : p datum := htoken (hread token List.mem_cons_self) stands
      cases token <;> cases stands <;> rwa [List.mem_singleton.mp hpart]
    | @minus kind W operand negated known signs derived negates =>
      have hoperand := derived.forall_parts htoken hminus hdefault hframe
        (fun token ht => hread token (List.mem_cons_of_mem _ ht)) operand (Datum.mem_parts_self _)
      intro part hpart
      have hnegated := hminus negates hoperand
      cases operand <;> cases negates <;> rwa [List.mem_singleton.mp hpart]
    | @aggregate opening close vectorType slots slots' E data defaults frame body missing =>
      refine Datum.forall_parts_vector.mpr
        ⟨hframe _ frame fun token ht => hread token (by simp [ht]), fun element helement part hpart => ?_⟩
      obtain ⟨slots'', hfill, -⟩ := body.fills_defaults missing
      obtain ⟨type, ⟨W, hW, derived⟩ | hdatum⟩ := hfill.forall_mem element helement
      · exact derived.forall_parts htoken hminus hdefault hframe
          (fun token ht => hread token (by simp [hW ht])) part hpart
      · rw [mem_parts_default hdatum hpart]
        exact hdefault hdatum

/-- **What is derived from tokens of a text can be read again**: its names are names, and no float in it is
a not-a-number. -/
theorem Derives.formed (hctx : ctx.Indexed) (h : Derives ctx depth type W datum)
    (hread : ∀ token ∈ W, token = .linefeed ∨ token.Readable) : datum.Formed ctx := by
  refine h.forall_parts Token.readable_of_datum? Datum.readable_of_negate? readable_default ?_ hread
  intro type opening close vectorType slots elements frame hopening
  rw [Datum.Readable, frame.enclosing_eq hctx]
  exact fun token ht => (hopening token ht).resolve_left fun he => frame.linefeed_not_mem (he ▸ ht)

end Literal

end Wordcode
