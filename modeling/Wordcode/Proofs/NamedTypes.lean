import Wordcode.Proofs.Instruction.SelfDelimiting
import Wordcode.Proofs.Joining

/-! # Types that code names

Constructions, type tests and returns name a type of the module. Verification looks up the type of a
construction and passes over the other two (`Module.verified_types`): the word that holds one can be replaced
by any other word, and the module stays verified. For this, the type operand of an instruction can be any word
(`Instruction.Words.last_type`), and an instruction in a stream can be replaced by another one of the same
length (`Walk.Splits.replace`). -/

namespace Wordcode

open Instruction (decode)

/-- The opcodes whose instructions end in a type that verification does not look up. -/
def Opcode.typeLast : List Opcode := [.isType, .ret]

namespace Instruction

/-- The type that an instruction names, as its operand says it; a negative type of a return is none. -/
def namedType? : Instruction → Option Int
  | newVector type _ => some type.toNat
  | immediate .isType type => some type.toInt
  | ret _ _ type => if 0 ≤ type then some type.toInt else none
  | _ => none

/-- A type test or return with another type. -/
def withType (type : Word) : Instruction → Instruction
  | immediate .isType _ => immediate .isType type
  | ret function count _ => ret function count type
  | i => i

variable {i : Instruction} {words : List Word}

/-- What ends in a type is a type test or a return. -/
theorem Layout.of_typeLast (h : i.Layout words) (hop : i.opcode ∈ Opcode.typeLast) :
    (∃ type : Word, i = .immediate .isType type ∧ words = [type]) ∨
      ∃ function count type : Word, i = .ret function count type ∧ words = [function, count, type] := by
  have hshape := h.shape_eq
  rcases List.mem_pair.mp hop with hop | hop <;> rw [hop] at hshape
  · cases h <;> cases hshape
    obtain rfl : _ = Opcode.isType := hop
    exact .inl ⟨_, rfl, rfl⟩
  · cases h <;> cases hshape
    exact .inr ⟨_, _, _, rfl, rfl⟩

/-- **The last word can be any type**: with another one it spells the instruction with that type. -/
theorem Words.last_type (h : i.Words words) (hop : i.opcode ∈ Opcode.typeLast) :
    ∃ front old, words = front ++ [old] ∧ ∀ type, (i.withType type).Words (front ++ [type]) := by
  obtain ⟨word, rest, rfl, hword, hlayout⟩ := h
  rcases hlayout.of_typeLast hop with ⟨old, rfl, rfl⟩ | ⟨function, count, old, rfl, rfl⟩
  · exact ⟨[word], old, rfl, fun type => ⟨word, [type], rfl, hword, .immediate (by decide) type⟩⟩
  · exact ⟨[word, function, count], old, rfl, fun type =>
      ⟨word, [function, count, type], rfl, hword, .ret function count type⟩⟩

theorem decode_in_place {code code' : List Word} {p : Nat} {c : Cursor} (h : decode (.at code p) = .ok i c)
    (hwords : (code.drop p).take (c.pos - p) <+: code'.drop p) :
    decode (.at code' p) = .ok i (.at code' c.pos) := by
  have hmoved := decode_moved h hwords
  rwa [Nat.add_sub_cancel' (decode_ok h).1.le] at hmoved

/-- Behind another type word the same opcode and operands are decoded with that type. -/
theorem decode_set_type {code : List Word} {p : Nat} {c : Cursor} (h : decode (.at code p) = .ok i c)
    (hop : i.opcode ∈ Opcode.typeLast) (type : Word) :
    decode (.at (code.set (c.pos - 1) type) p) =
      .ok (i.withType type) (.at (code.set (c.pos - 1) type) c.pos) := by
  have hp : p ≤ code.length := by have := decode_ok h; omega
  obtain ⟨words, hwords, hpre, rfl⟩ := (reads_decode hp i c).mp h
  obtain ⟨front, old, rfl, hspells⟩ := hwords.last_type hop
  have hlast : (Cursor.at code (p + (front ++ [old]).length)).pos - 1 = p + front.length := by
    simp [Cursor.at]
  have hset : front ++ [type] <+: (code.set (p + front.length) type).drop p := by
    obtain ⟨behind, hbehind⟩ := hpre
    rw [List.drop_set, if_neg (by omega), Nat.add_sub_cancel_left, ← hbehind]
    exact ⟨behind, by simp⟩
  rw [hlast]
  refine (reads_decode (by rwa [List.length_set]) _ _).mpr ⟨_, hspells type, hset, ?_⟩
  simp [Cursor.at]

theorem Words.namedType?_withType {type : Word} (h : i.Words words) (hop : i.opcode ∈ Opcode.typeLast)
    (htype : 0 ≤ type) : (i.withType type).namedType? = some type.toInt := by
  obtain ⟨word, rest, -, -, hlayout⟩ := h
  rcases hlayout.of_typeLast hop with ⟨old, rfl, -⟩ | ⟨function, count, old, rfl, -⟩
  · rfl
  · exact if_pos htype

end Instruction

/-! ### Streams -/

namespace Walk

variable {code code' : List Word} {p : Nat} {instructions : List Located}

theorem Splits.congr_drop (h : Splits code p instructions) (hlength : code'.length = code.length)
    (hdrop : code'.drop p = code.drop p) : Splits code' p instructions := by
  induction h with
  | finished => exact hlength ▸ .finished
  | @next p i c rest decoded splits ih =>
    have hlt := (decode_ok decoded).1
    have hwords : (code.drop p).take (c.pos - p) <+: code'.drop p := hdrop.symm ▸ List.take_prefix _ _
    have hrest : code'.drop c.pos = code.drop c.pos := by
      rw [← Nat.add_sub_cancel' hlt.le, ← List.drop_drop, hdrop, List.drop_drop]
    exact .next (c := .at code' c.pos) (Instruction.decode_in_place decoded hwords) (ih hrest)

theorem Splits.le_start (h : Splits code p instructions) : ∀ l ∈ instructions, p ≤ l.start := by
  induction h with
  | finished => simp
  | @next p i c rest decoded splits ih =>
    have hlt := (decode_ok decoded).1
    exact List.forall_mem_cons.mpr ⟨Nat.le_refl p, fun l hl => hlt.le.trans (ih l hl)⟩

/-- **An instruction can be replaced** by another one in the same place, if the other words stay. -/
theorem Splits.replace {l : Located} {i : Instruction} (hlength : code'.length = code.length)
    (hfront : code'.take l.start = code.take l.start) (hbehind : code'.drop l.next = code.drop l.next)
    (hdecode : decode (.at code' l.start) = .ok i (.at code' l.next)) :
    ∀ {before after : List Located} {p : Nat}, Splits code p (before ++ l :: after) →
      Splits code' p (before ++ ⟨l.start, i, l.next⟩ :: after)
  | [], after, p, h => by
    cases h with
    | next decoded splits =>
      exact .next (c := .at code' _) hdecode (splits.congr_drop hlength hbehind)
  | k :: before, after, p, h => by
    cases h with
    | @next p j c rest decoded splits =>
      have hle : c.pos ≤ l.start := splits.le_start l (by simp)
      have hwords : (code.drop p).take (c.pos - p) <+: code'.drop p := by
        have htake := congrArg (List.take c.pos) hfront
        rw [List.take_take, List.take_take, Nat.min_eq_left hle] at htake
        rw [← List.drop_take, ← htake, List.drop_take]
        exact List.take_prefix _ _
      have hrest := Splits.replace hlength hfront hbehind hdecode splits
      exact .next (c := .at code' c.pos) (Instruction.decode_in_place decoded hwords) hrest

end Walk

/-! ### Verification -/

namespace Module

variable {m : Module} {natives : Option NativeRegistry}

/-- The type that an instruction names, if it names one, is in the table. -/
def NamesType (m : Module) (i : Instruction) : Prop :=
  ∀ type, i.namedType? = some type → 0 ≤ type ∧ type < m.types.size

/-- What passes the verifier names a type of the table, unless its type is the last operand. -/
theorem OperandsValid.namesType {i : Instruction} (h : m.OperandsValid natives i)
    (hop : i.opcode ∉ Opcode.typeLast) : m.NamesType i := by
  intro type htype
  cases i with
  | newVector index count =>
    obtain rfl : (index.toNat : Int) = type := Option.some.inj htype
    have hsome : (m.types.get? index).isSome := by
      rcases h.1 with ⟨element, hd⟩ | ⟨id, fields, hd⟩ <;> rw [hd] <;> rfl
    exact ⟨Int.natCast_nonneg _, by simpa [TypeTable.get?, Index.entry?, TypeTable.size] using hsome⟩
  | ret function count type => exact absurd (List.mem_cons_of_mem _ List.mem_cons_self) hop
  | immediate op value =>
    have hne : op ≠ .isType := by
      rintro rfl
      exact hop (List.mem_cons_self)
    simp [Instruction.namedType?, hne] at htype
  | _ => cases htype

theorem operandsValid_withType {i : Instruction} {type : Word} :
    m.OperandsValid natives (i.withType type) ↔ m.OperandsValid natives i := by
  unfold Instruction.withType
  split <;> rfl

theorem verify_withCode {code : List Word} {instructions : List Located} (h : m.verify natives = .ok ())
    (hsplits : Walk.Splits code 0 instructions)
    (hvalid : ∀ l ∈ instructions, m.OperandsValid natives l.instruction) :
    (m.withCode code).verify natives = .ok () := by
  obtain ⟨htypes, hidents, hlines, -⟩ := verify_ok_iff.mp h
  refine verify_ok_iff.mpr ⟨htypes, hidents, hlines, ?_⟩
  refine codeFault?_eq_none_iff_splits.mpr ⟨instructions, hsplits, fun l hl => ?_⟩
  rw [← operandFault?_eq_none_iff, operandFault?_withCode, operandFault?_eq_none_iff]
  exact hvalid l hl

/-- **Verification looks up the types of constructions only.** In a verified module, all instructions other
than type tests and returns name types of the table, if they name one. The type of a type test or return is
not looked at: with any other word in its place the module is verified too, and its instructions are the same,
but for this one, which names the other type. -/
theorem verified_types (m : Module) (natives : Option NativeRegistry) (h : m.verify natives = .ok ()) :
    (∀ l ∈ (Walk.ofCode m.code 0).instructions, l.instruction.opcode ∉ Opcode.typeLast →
      m.NamesType l.instruction) ∧
    ∀ before l after, (Walk.ofCode m.code 0).instructions = before ++ l :: after →
      l.instruction.opcode ∈ Opcode.typeLast → ∀ type,
        (m.withCode (m.code.set (l.next - 1) type)).verify natives = .ok () ∧
        (Walk.ofCode (m.code.set (l.next - 1) type) 0).instructions =
          before ++ ⟨l.start, l.instruction.withType type, l.next⟩ :: after ∧
        (0 ≤ type → (l.instruction.withType type).namedType? = some type.toInt) := by
  obtain ⟨-, -, -, hcode⟩ := verify_ok_iff.mp h
  obtain ⟨instructions, hsplits, hvalid⟩ := codeFault?_eq_none_iff_splits.mp hcode
  rw [← hsplits.eq_instructions]
  refine ⟨fun l hl hop => (hvalid l hl).namesType hop, ?_⟩
  rintro before l after rfl hop type
  have hdecode := (Walk.reaches_of_mem (hsplits.eq_instructions ▸ List.mem_append_cons_self)).2
  have hset : decode (.at (m.code.set (l.next - 1) type) l.start) = .ok _ (.at _ l.next) :=
    Instruction.decode_set_type hdecode hop type
  obtain ⟨hlt, hle, -⟩ : l.start < l.next ∧ l.next ≤ m.code.length ∧ _ := decode_ok hdecode
  have hsplits' := hsplits.replace List.length_set (List.take_set_of_le (by omega))
    (List.drop_set_of_lt (by omega)) hset
  refine ⟨verify_withCode h hsplits' ?_, hsplits'.eq_instructions.symm, ?_⟩
  · obtain ⟨hbefore, hcons⟩ := List.forall_mem_append.mp hvalid
    obtain ⟨hl, hafter⟩ := List.forall_mem_cons.mp hcons
    exact List.forall_mem_append.mpr
      ⟨hbefore, List.forall_mem_cons.mpr ⟨operandsValid_withType.mpr hl, hafter⟩⟩
  · obtain ⟨words, hwords, -⟩ := (Instruction.reads_decode (by omega) _ _).mp hdecode
    exact hwords.namedType?_withType hop

/-- A module that makes a vector of one number, tests its type and returns it. -/
def makerModule : Module where
  code := [0, 5, 26, 7, 1, 79, 7, 25, -1, 1, 7]
  lines := .single 1 ⟨0⟩
  files := #[]
  idents := #[]
  specIdents := #[]
  functions := #[]
  structs := #[]
  types := .builtins

/-- The construction names the built-in vector type; the type test passes with type 99 as well, and the
return with type 100. -/
theorem verified_types_makerModule :
    makerModule.verify none = .ok () ∧
      (Walk.ofCode makerModule.code 0).instructions = [⟨0, .immediate .pushInt 5, 2⟩,
        ⟨2, .newVector ⟨7⟩ 1, 5⟩, ⟨5, .immediate .isType 7, 7⟩, ⟨7, .ret (-1) 1 7, 11⟩] ∧
      makerModule.NamesType (.newVector ⟨7⟩ 1) ∧
      (makerModule.withCode (makerModule.code.set 6 99)).verify none = .ok () ∧
      (makerModule.withCode (makerModule.code.set 10 100)).verify none = .ok () := by
  have hverified : makerModule.verify none = .ok () := by decide
  have hwalk : (Walk.ofCode makerModule.code 0).instructions = [⟨0, .immediate .pushInt 5, 2⟩,
    ⟨2, .newVector ⟨7⟩ 1, 5⟩, ⟨5, .immediate .isType 7, 7⟩, ⟨7, .ret (-1) 1 7, 11⟩] := by decide
  obtain ⟨hnames, hany⟩ := verified_types makerModule none hverified
  refine ⟨hverified, hwalk, ?_, ?_, ?_⟩
  · exact hnames ⟨2, .newVector ⟨7⟩ 1, 5⟩ (by rw [hwalk]; decide) (by decide)
  · exact (hany [_, _] ⟨5, .immediate .isType 7, 7⟩ [_] hwalk (by decide) 99).1
  · exact (hany [_, _, _] ⟨7, .ret (-1) 1 7, 11⟩ [] hwalk (by decide) 100).1

/-- A type test with a type that the module does not have is verified. -/
theorem verified_missing_type : ¬ ∀ (m : Module) (natives : Option NativeRegistry),
    m.verify natives = .ok () → ∀ l ∈ (Walk.ofCode m.code 0).instructions, m.NamesType l.instruction := by
  intro h
  have hverified : (makerModule.withCode [79, 99]).verify none = .ok () := by decide
  have hmem : (⟨0, .immediate .isType 99, 2⟩ : Located) ∈ (Walk.ofCode [79, 99] 0).instructions := by decide
  have hnames := (h _ none hverified _ hmem 99 rfl).2
  exact absurd hnames (by decide)

end Module

end Wordcode
