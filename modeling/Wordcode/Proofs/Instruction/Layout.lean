import Mathlib.Data.List.Forall2
import Wordcode.Proofs.Instruction.Steps

/-! # The layout of instructions

Which words an instruction is made of (`Instruction.Layout`): the opcode decides how many words follow and
what they have to be, and the operands are read off these words. Decoding succeeds exactly where the words
of an instruction stand in the stream, and takes up these and no others (`decode_ok_iff_layout`). There is
one lemma for each shape of operands, put together by `reads_operands`. -/

namespace Wordcode

/-! ### The characters of a text -/

/-- A word stands for the Unicode scalar with its code; a word that is the code of none stands for
U+FFFD. -/
inductive Word.Denotes (word : Word) : Char → Prop
  | scalar {c : Char} (code : word.toInt = c.toNat) : Denotes word c
  | replaced (code : ∀ c : Char, word.toInt ≠ c.toNat) : Denotes word '\uFFFD'

theorem Word.toInt_eq_toNat_iff (word : Word) (c : Char) :
    word.toInt = c.toNat ↔ word.toUInt32 = c.val := by
  have hc : c.toNat < 0x110000 := by
    have hvalid : c.toNat.isValidChar := c.valid
    rcases hvalid with h | h <;> omega
  have hword : word.toUInt32.toNat < 2 ^ 32 := word.toBitVec.isLt
  have hint : word.toInt = if 2 * word.toUInt32.toNat < 2 ^ 32 then (word.toUInt32.toNat : Int)
      else word.toUInt32.toNat - (2 ^ 32 : Nat) := BitVec.toInt_eq_toNat_cond _
  rw [← UInt32.toNat_inj, hint]
  change _ ↔ word.toUInt32.toNat = c.toNat
  split <;> omega

theorem Word.denotes_iff {word : Word} {c : Char} : word.Denotes c ↔ c = word.toChar := by
  unfold toChar
  dsimp only
  split
  case isTrue hvalid =>
    constructor
    · rintro (code | code)
      · exact Char.ext ((word.toInt_eq_toNat_iff c).mp code).symm
      · exact absurd ((word.toInt_eq_toNat_iff ⟨_, hvalid⟩).mpr rfl) (code _)
    · rintro rfl
      exact .scalar ((word.toInt_eq_toNat_iff _).mpr rfl)
  case isFalse hvalid =>
    have hnone : ∀ d : Char, word.toInt ≠ d.toNat := fun d h =>
      hvalid ((word.toInt_eq_toNat_iff d).mp h ▸ d.valid)
    constructor
    · rintro (code | -)
      · exact absurd code (hnone c)
      · rfl
    · rintro rfl
      exact .replaced hnone

theorem spelled_iff {chars : List Word} {text : String} :
    List.Forall₂ Word.Denotes chars text.toList ↔ text = .ofList (chars.map Word.toChar) := by
  have h : Word.Denotes = fun word c => word.toChar = c :=
    funext₂ fun _ _ => propext (Word.denotes_iff.trans eq_comm)
  calc List.Forall₂ Word.Denotes chars text.toList
    _ ↔ List.Forall₂ Eq (chars.map Word.toChar) text.toList := by rw [h, List.forall₂_map_left_iff]
    _ ↔ chars.map Word.toChar = text.toList := by rw [List.forall₂_eq_eq_eq]
    _ ↔ text = .ofList (chars.map Word.toChar) := by
      rw [← String.toList_inj, String.toList_ofList, eq_comm]

/-! ### The words of an instruction -/

/-- The opcodes without operands. -/
def Opcode.bare : List Opcode :=
  [.pushNil, .pushIdxI, .pushIdxV, .funEnd, .pop, .popRef, .dup, .iAdd, .iSub, .iMul, .iDiv, .iMod,
   .iLt, .iGt, .iLe, .iGe, .iEq, .iNe, .fAdd, .fSub, .fMul, .fDiv, .fLt, .fGt, .fLe, .fGe, .fEq,
   .fNe, .sAdd, .sEq, .sNe, .uMinus, .logNot, .logNotRef, .i2F, .a2S, .e2B, .e2BRef, .coCl, .coEnd,
   .abort]

/-- The opcodes whose only operand is a number. -/
def Opcode.numeric : List Opcode :=
  [.iFor, .vFor, .sFor, .iForRef, .vForRef, .sForRef, .pushInt, .pushFun, .cont1, .jump, .jumpFail,
   .jumpFailR, .jumpFailN, .jumpNoFail, .jumpNoFailR, .jumpFailRef, .jumpFailRRef, .jumpFailNRef,
   .jumpNoFailRef, .jumpNoFailRRef, .logRead, .logReadRef, .isType, .exit]

namespace Instruction

/-- **The operand words of an instruction**: what follows its opcode. Counts and indices are not negative,
a qualifier is the word of an l-value operation, and a text ends at its first zero, with one character for
each word in front of it. -/
inductive Layout : Instruction → List Word → Prop
  | plain {op : Opcode} (form : op ∈ Opcode.bare) : Layout (.plain op) []
  | immediate {op : Opcode} (form : op ∈ Opcode.numeric) (value : Word) :
    Layout (.immediate op value) [value]
  | ret (function count type : Word) : Layout (.ret function count type) [function, count, type]
  | callValue {op : Opcode} (form : op ∈ [.callV, .callVCond]) (argc method : Word) :
    Layout (.callValue op argc method) [argc, method]
  | call {argc function : Word} (counts : 0 ≤ argc) (names : 0 ≤ function) (target typeMask : Word) :
    Layout (.call .call argc.number function.index target typeMask) [argc, function, target, typeMask]
  | callMulti {argc function : Word} (counts : 0 ≤ argc) (names : 0 ≤ function)
    (target typeMask : Word) {types : List Word} (typed : types.length = argc.number) :
    Layout (.call .callMulti argc.number function.index target typeMask)
      ([argc, function, target, typeMask] ++ types)
  | newVector {type : Word} (names : 0 ≤ type) (count : Word) :
    Layout (.newVector type.index count) [type, count]
  | callNative {native : Word} (names : 0 ≤ native) : Layout (.callNative native.index) [native]
  | ident {op : Opcode} (form : op ∈ [.pushVar, .pushVarRef]) {spec : Word} (names : 0 ≤ spec) :
    Layout (.ident op none spec.index) [spec]
  | assignIdent {qualifier spec : Word} {lval : LvalOp} (qualifies : LvalOp.ofWord? qualifier = some lval)
    (names : 0 ≤ spec) : Layout (.ident .lvalVar (some lval) spec.index) [qualifier, spec]
  | slot {op : Opcode} (form : op ∈ [.pushFld, .pushFldM, .pushLoc]) (slot : Word) :
    Layout (.slot op none slot) [slot]
  | assignSlot {op : Opcode} (form : op ∈ [.lvalFld, .lvalLoc]) {qualifier : Word} {lval : LvalOp}
    (qualifies : LvalOp.ofWord? qualifier = some lval) (slot : Word) :
    Layout (.slot op (some lval) slot) [qualifier, slot]
  | element {op : Opcode} (form : op ∈ [.lvalIdxI, .lvalIdxV]) {qualifier : Word} {lval : LvalOp}
    (qualifies : LvalOp.ofWord? qualifier = some lval) : Layout (.element op lval) [qualifier]
  | float (bits : Word) : Layout (.float ⟨bits.toUInt32⟩) [bits]
  | text {chars : List Word} {value : String} (nonzero : 0 ∉ chars)
    (spelled : List.Forall₂ Word.Denotes chars value.toList) : Layout (.text value) (chars ++ [0])
  | prologue {paramCount returnCount : Word} {params returns : List Word} (counts : 0 ≤ paramCount)
    (counted : params.length = paramCount.number) (names : ∀ word ∈ params, 0 ≤ word)
    (counts' : 0 ≤ returnCount) (counted' : returns.length = returnCount.number)
    (names' : ∀ word ∈ returns, 0 ≤ word) (logLength : Word) :
    Layout (.prologue (params.map Word.index) (returns.map Word.index) logLength)
      (paramCount :: params ++ (returnCount :: returns ++ [logLength]))
  | coroutine (target typeInfo : Word) {count : Word} {locals : List Word} (counts : 0 ≤ count)
    (counted : locals.length = count.number) :
    Layout (.coroutine target locals) (target :: typeInfo :: count :: locals)
  | dispatch {overloads argc : Word} (counts : 0 ≤ overloads) (counts' : 0 ≤ argc) {table : List Word}
    (counted : table.length = overloads.number * (2 * argc.number + 1)) :
    Layout (.dispatch overloads.number argc.number) (overloads :: argc :: table)

/-- The number of words that follow the opcode. -/
def operandCount : Instruction → Nat
  | plain _ => 0
  | immediate .. | callNative _ | element .. | float _ => 1
  | ident _ lval _ | slot _ lval _ => if lval.isSome then 2 else 1
  | callValue .. | newVector .. => 2
  | ret .. => 3
  | call op argc .. => if op = .callMulti then 4 + argc else 4
  | text value => value.length + 1
  | prologue params returns _ => params.length + returns.length + 3
  | coroutine _ locals => locals.length + 3
  | dispatch overloads argc => 2 + overloads * (2 * argc + 1)

theorem Layout.length_eq {i : Instruction} {words : List Word} (h : i.Layout words) :
    words.length = i.operandCount := by
  cases h with
  | callMulti _ _ _ _ typed => simp [operandCount, typed]; omega
  | text _ spelled =>
    rw [List.length_append, List.length_singleton, spelled.length_eq, String.length_toList]
    rfl
  | prologue => simp [operandCount]; omega
  | dispatch _ _ counted => simp [operandCount, counted]; omega
  | _ => simp [operandCount]

end Instruction

/-! ### Forms of operands -/

/-- The opcodes of a shape. -/
def Shape.opcodes : Shape → List Opcode
  | plain => Opcode.bare
  | immediate => Opcode.numeric
  | ret => [.ret]
  | callValue => [.callV, .callVCond]
  | call listed => if listed then [.callMulti] else [.call]
  | newVector => [.newVec]
  | callNative => [.bCall]
  | ident assigns => if assigns then [.lvalVar] else [.pushVar, .pushVarRef]
  | slot assigns => if assigns then [.lvalFld, .lvalLoc] else [.pushFld, .pushFldM, .pushLoc]
  | element => [.lvalIdxI, .lvalIdxV]
  | float => [.pushFlt]
  | text => [.pushStr]
  | prologue => [.funStart]
  | coroutine => [.coro]
  | dispatch => [.funMulti]

theorem Opcode.mem_opcodes (op : Opcode) : op ∈ op.shape.opcodes := by
  cases op <;> decide

theorem Opcode.shape_of_mem_bare : ∀ op ∈ bare, op.shape = .plain := by decide

theorem Opcode.shape_of_mem_numeric : ∀ op ∈ numeric, op.shape = .immediate := by decide

/-- The shape that an instruction shows. -/
def Instruction.shape : Instruction → Shape
  | plain _ => .plain
  | immediate .. => .immediate
  | ret .. => .ret
  | callValue .. => .callValue
  | call op .. => .call (op = .callMulti)
  | newVector .. => .newVector
  | callNative _ => .callNative
  | ident _ lval _ => .ident lval.isSome
  | slot _ lval _ => .slot lval.isSome
  | element .. => .element
  | float _ => .float
  | text _ => .text
  | prologue .. => .prologue
  | coroutine .. => .coroutine
  | dispatch .. => .dispatch

theorem Instruction.Layout.shape_eq {i : Instruction} {words : List Word} (h : i.Layout words) :
    i.shape = i.opcode.shape := by
  cases h with
  | plain form => exact (Opcode.shape_of_mem_bare _ form).symm
  | immediate form => exact (Opcode.shape_of_mem_numeric _ form).symm
  | callValue form | ident form | assignSlot form | element form =>
    rcases List.mem_pair.mp form with rfl | rfl <;> rfl
  | slot form =>
    simp only [List.mem_cons, List.not_mem_nil, or_false] at form
    rcases form with rfl | rfl | rfl <;> rfl
  | _ => rfl

open Reader

/-! ### Operands -/

namespace Instruction

/-- The instruction has the opcode, and the words are its operands. -/
def LaidOut (op : Opcode) (i : Instruction) (words : List Word) : Prop :=
  i.opcode = op ∧ i.Layout words

theorem LaidOut.shape_eq {op : Opcode} {i : Instruction} {words : List Word} (h : LaidOut op i words) :
    i.shape = op.shape := h.1 ▸ h.2.shape_eq

/-- A step reads the words of an opcode's instructions if these are the instructions of the opcode's shape
that it reads. -/
theorem reads_laidOut {step : Reader Instruction} {R : Instruction → List Word → Prop} {op : Opcode}
    {shape : Shape} (h : Reads step R) (hshape : op.shape = shape)
    (sound : ∀ i words, R i words → LaidOut op i words)
    (complete : ∀ i words, i.opcode = op → i.shape = shape → i.Layout words → R i words) :
    Reads step (LaidOut op) :=
  h.congr fun i words =>
    ⟨sound i words, fun hi => complete i words hi.1 (hi.shape_eq.trans hshape) hi.2⟩

section Families
variable {op : Opcode}

theorem reads_plain (h : op.shape = .plain) : Reads (operands op) (LaidOut op) := by
  have form := h ▸ op.mem_opcodes
  unfold operands
  rw [h]
  refine reads_laidOut (reads_pure _) h ?_ ?_
  · rintro i words ⟨rfl, rfl⟩
    exact ⟨rfl, .plain form⟩
  · rintro i words rfl hshape hi
    cases hi <;> cases hshape
    exact ⟨rfl, rfl⟩

theorem reads_immediate (h : op.shape = .immediate) : Reads (operands op) (LaidOut op) := by
  have form := h ▸ op.mem_opcodes
  unfold operands
  rw [h]
  refine reads_laidOut (reads_word_cons fun _ => reads_pure _) h ?_ ?_
  · rintro i words ⟨value, _, rfl, rfl, rfl⟩
    exact ⟨rfl, .immediate form value⟩
  · rintro i words rfl hshape hi
    cases hi <;> cases hshape
    exact ⟨_, _, rfl, rfl, rfl⟩

theorem reads_callValue (h : op.shape = .callValue) : Reads (operands op) (LaidOut op) := by
  have form := h ▸ op.mem_opcodes
  unfold operands
  rw [h]
  refine reads_laidOut (reads_word_cons fun _ => reads_word_cons fun _ => reads_pure _) h ?_ ?_
  · rintro i words ⟨argc, _, rfl, method, _, rfl, rfl, rfl⟩
    exact ⟨rfl, .callValue form argc method⟩
  · rintro i words rfl hshape hi
    cases hi <;> cases hshape
    exact ⟨_, _, rfl, _, _, rfl, rfl, rfl⟩

theorem reads_ident (h : op.shape = .ident false) : Reads (operands op) (LaidOut op) := by
  have form := h ▸ op.mem_opcodes
  unfold operands
  rw [h]
  refine reads_laidOut (reads_lval_cons false fun _ => reads_index_cons fun _ => reads_pure _) h ?_ ?_
  · rintro i words ⟨spec, _, rfl, names, rfl, rfl⟩
    exact ⟨rfl, .ident form names⟩
  · rintro i words rfl hshape hi
    cases hi with
    | ident _ names => exact ⟨_, _, rfl, names, rfl, rfl⟩
    | _ => cases hshape

theorem reads_slot (h : op.shape = .slot false) : Reads (operands op) (LaidOut op) := by
  have form := h ▸ op.mem_opcodes
  unfold operands
  rw [h]
  refine reads_laidOut (reads_lval_cons false fun _ => reads_word_cons fun _ => reads_pure _) h ?_ ?_
  · rintro i words ⟨slot, _, rfl, rfl, rfl⟩
    exact ⟨rfl, .slot form slot⟩
  · rintro i words rfl hshape hi
    cases hi <;> cases hshape
    exact ⟨_, _, rfl, rfl, rfl⟩

theorem reads_assignSlot (h : op.shape = .slot true) : Reads (operands op) (LaidOut op) := by
  have form := h ▸ op.mem_opcodes
  unfold operands
  rw [h]
  refine reads_laidOut (reads_lval_cons true fun _ => reads_word_cons fun _ => reads_pure _) h ?_ ?_
  · rintro i words ⟨qualifier, lval, _, rfl, qualifies, slot, _, rfl, rfl, rfl⟩
    exact ⟨rfl, .assignSlot form qualifies slot⟩
  · rintro i words rfl hshape hi
    cases hi with
    | assignSlot _ qualifies slot => exact ⟨_, _, _, rfl, qualifies, _, _, rfl, rfl, rfl⟩
    | _ => cases hshape

theorem reads_element (h : op.shape = .element) : Reads (operands op) (LaidOut op) := by
  have form := h ▸ op.mem_opcodes
  unfold operands
  rw [h]
  refine reads_laidOut (reads_lvalOp.cons fun _ => reads_pure _) h ?_ ?_
  · rintro i words ⟨qualifier, lval, _, rfl, qualifies, rfl, rfl⟩
    exact ⟨rfl, .element form qualifies⟩
  · rintro i words rfl hshape hi
    cases hi with
    | element _ qualifies => exact ⟨_, _, _, rfl, qualifies, rfl, rfl⟩
    | _ => cases hshape

end Families

theorem reads_ret : Reads (operands .ret) (LaidOut .ret) := by
  refine reads_laidOut (reads_word_cons fun _ => reads_word_cons fun _ => reads_word_cons fun _ =>
    reads_pure _) rfl ?_ ?_
  · rintro i words ⟨function, _, rfl, count, _, rfl, type, _, rfl, rfl, rfl⟩
    exact ⟨rfl, .ret function count type⟩
  · rintro i words - hshape hi
    cases hi <;> cases hshape
    exact ⟨_, _, rfl, _, _, rfl, _, _, rfl, rfl, rfl⟩

theorem reads_call : Reads (operands .call) (LaidOut .call) := by
  refine reads_laidOut (reads_count_cons fun _ => reads_index_cons fun _ => reads_word_cons fun _ =>
    reads_word_cons fun _ => reads_pure _) rfl ?_ ?_
  · rintro i words ⟨argc, _, rfl, counts, function, _, rfl, names, target, _, rfl, typeMask, _, rfl, rfl, rfl⟩
    exact ⟨rfl, .call counts names target typeMask⟩
  · rintro i words - hshape hi
    cases hi with
    | call counts names target typeMask =>
      exact ⟨_, _, rfl, counts, _, _, rfl, names, _, _, rfl, _, _, rfl, rfl, rfl⟩
    | _ => cases hshape

theorem reads_callMulti : Reads (operands .callMulti) (LaidOut .callMulti) := by
  refine reads_laidOut (reads_count_cons fun argc => reads_index_cons fun _ => reads_word_cons fun _ =>
    reads_word_cons fun _ => (reads_skip argc).bind fun _ => reads_pure _) rfl ?_ ?_
  · rintro i words ⟨argc, _, rfl, counts, function, _, rfl, names, target, _, rfl, typeMask, _, rfl,
      _, types, _, typed, ⟨rfl, rfl⟩, rfl⟩
    rw [List.append_nil]
    exact ⟨rfl, .callMulti counts names target typeMask typed⟩
  · rintro i words - hshape hi
    cases hi with
    | @callMulti _ _ counts names target typeMask types typed =>
      exact ⟨_, _, rfl, counts, _, _, rfl, names, _, _, rfl, _, _, rfl, (), types, [], typed,
        ⟨rfl, rfl⟩, (List.append_nil types).symm⟩
    | _ => cases hshape

theorem reads_newVector : Reads (operands .newVec) (LaidOut .newVec) := by
  refine reads_laidOut (reads_index_cons fun _ => reads_word_cons fun _ => reads_pure _) rfl ?_ ?_
  · rintro i words ⟨type, _, rfl, names, count, _, rfl, rfl, rfl⟩
    exact ⟨rfl, .newVector names count⟩
  · rintro i words - hshape hi
    cases hi with
    | newVector names count => exact ⟨_, _, rfl, names, _, _, rfl, rfl, rfl⟩
    | _ => cases hshape

theorem reads_callNative : Reads (operands .bCall) (LaidOut .bCall) := by
  refine reads_laidOut (reads_index_cons fun _ => reads_pure _) rfl ?_ ?_
  · rintro i words ⟨native, _, rfl, names, rfl, rfl⟩
    exact ⟨rfl, .callNative names⟩
  · rintro i words - hshape hi
    cases hi with
    | callNative names => exact ⟨_, _, rfl, names, rfl, rfl⟩
    | _ => cases hshape

theorem reads_assignIdent : Reads (operands .lvalVar) (LaidOut .lvalVar) := by
  refine reads_laidOut (reads_lval_cons true fun _ => reads_index_cons fun _ => reads_pure _) rfl ?_ ?_
  · rintro i words ⟨qualifier, lval, _, rfl, qualifies, spec, _, rfl, names, rfl, rfl⟩
    exact ⟨rfl, .assignIdent qualifies names⟩
  · rintro i words - hshape hi
    cases hi with
    | assignIdent qualifies names => exact ⟨_, _, _, rfl, qualifies, _, _, rfl, names, rfl, rfl⟩
    | _ => cases hshape

theorem reads_float : Reads (operands .pushFlt) (LaidOut .pushFlt) := by
  refine reads_laidOut (reads_word_cons fun _ => reads_pure _) rfl ?_ ?_
  · rintro i words ⟨bits, _, rfl, rfl, rfl⟩
    exact ⟨rfl, .float bits⟩
  · rintro i words - hshape hi
    cases hi <;> cases hshape
    exact ⟨_, _, rfl, rfl, rfl⟩

theorem reads_string : Reads (operands .pushStr) (LaidOut .pushStr) := by
  refine reads_laidOut (reads_text.bind fun _ => reads_pure _) rfl ?_ ?_
  · rintro i words ⟨_, _, _, ⟨chars, rfl, nonzero, rfl⟩, ⟨rfl, rfl⟩, rfl⟩
    rw [List.append_nil]
    exact ⟨rfl, .text nonzero (spelled_iff.mpr rfl)⟩
  · rintro i words - hshape hi
    cases hi with
    | @text chars value nonzero spelled =>
      exact ⟨value, _, [], ⟨chars, rfl, nonzero, spelled_iff.mp spelled⟩, ⟨rfl, rfl⟩,
        (List.append_nil _).symm⟩
    | _ => cases hshape

theorem reads_prologue : Reads (operands .funStart) (LaidOut .funStart) := by
  refine reads_laidOut ((reads_counted (reads_index .specIdent)).bind fun _ =>
    (reads_counted (reads_index .specIdent)).bind fun _ => reads_word_cons fun _ =>
      reads_pure _) rfl ?_ ?_
  · rintro i words ⟨_, _, _, ⟨paramCount, params, rfl, counts, counted, names, rfl⟩, ⟨_, _, _,
      ⟨returnCount, returns, rfl, counts', counted', names', rfl⟩, ⟨logLength, _, rfl, rfl, rfl⟩, rfl⟩,
      rfl⟩
    exact ⟨rfl, .prologue counts counted names counts' counted' names' logLength⟩
  · rintro i words - hshape hi
    cases hi with
    | prologue counts counted names counts' counted' names' logLength =>
      exact ⟨_, _, _, ⟨_, _, rfl, counts, counted, names, rfl⟩, ⟨_, _, _,
        ⟨_, _, rfl, counts', counted', names', rfl⟩, ⟨logLength, _, rfl, rfl, rfl⟩, rfl⟩, rfl⟩
    | _ => cases hshape

theorem reads_coroutine : Reads (operands .coro) (LaidOut .coro) := by
  refine reads_laidOut (reads_word_cons fun _ => (reads_skip 1).bind fun _ => reads_countedWords.bind fun _ =>
    reads_pure _) rfl ?_ ?_
  · rintro i words ⟨target, _, rfl, _, _, _, htype, ⟨locals, _, _, ⟨count, rfl, counts, counted⟩,
      ⟨rfl, rfl⟩, rfl⟩, rfl⟩
    obtain ⟨typeInfo, rfl⟩ := List.length_eq_one_iff.mp htype
    rw [List.append_nil]
    exact ⟨rfl, .coroutine target typeInfo counts counted⟩
  · rintro i words - hshape hi
    cases hi with
    | @coroutine target typeInfo count locals counts counted =>
      exact ⟨_, _, rfl, (), [typeInfo], _, rfl, ⟨locals, _, [], ⟨count, rfl, counts, counted⟩,
        ⟨rfl, rfl⟩, (List.append_nil _).symm⟩, rfl⟩
    | _ => cases hshape

theorem reads_dispatch : Reads (operands .funMulti) (LaidOut .funMulti) := by
  refine reads_laidOut (reads_count_cons fun overloads => reads_count_cons fun argc =>
    (reads_skip ((2 * argc + 1) * overloads)).bind fun _ => reads_pure _) rfl ?_ ?_
  · rintro i words ⟨overloads, _, rfl, counts, argc, _, rfl, counts', _, table, _, counted, ⟨rfl, rfl⟩, rfl⟩
    rw [List.append_nil]
    exact ⟨rfl, .dispatch counts counts' (by rw [counted, Nat.mul_comm])⟩
  · rintro i words - hshape hi
    cases hi with
    | @dispatch overloads argc counts counts' table counted =>
      exact ⟨_, _, rfl, counts, _, _, rfl, counts', (), table, [], by rw [counted, Nat.mul_comm],
        ⟨rfl, rfl⟩, (List.append_nil table).symm⟩
    | _ => cases hshape

/-- **The operands of an opcode** are read off the words of their layout. -/
theorem reads_operands (op : Opcode) : Reads (operands op) (LaidOut op) := by
  have only : ∀ {shape op'}, op.shape = shape → shape.opcodes = [op'] → op' = op := by
    rintro shape op' rfl h
    exact (List.mem_singleton.mp (h ▸ op.mem_opcodes)).symm
  cases h : op.shape with
  | plain => exact reads_plain h
  | immediate => exact reads_immediate h
  | callValue => exact reads_callValue h
  | element => exact reads_element h
  | ret => exact only h rfl ▸ reads_ret
  | newVector => exact only h rfl ▸ reads_newVector
  | callNative => exact only h rfl ▸ reads_callNative
  | float => exact only h rfl ▸ reads_float
  | text => exact only h rfl ▸ reads_string
  | prologue => exact only h rfl ▸ reads_prologue
  | coroutine => exact only h rfl ▸ reads_coroutine
  | dispatch => exact only h rfl ▸ reads_dispatch
  | call listed =>
    cases listed with
    | false => exact only h rfl ▸ reads_call
    | true => exact only h rfl ▸ reads_callMulti
  | ident assigns =>
    cases assigns with
    | false => exact reads_ident h
    | true => exact only h rfl ▸ reads_assignIdent
  | slot assigns =>
    cases assigns with
    | false => exact reads_slot h
    | true => exact reads_assignSlot h

/-! ### Decoding -/

/-- **Decoding takes exactly the words of an instruction**: it succeeds at an offset if and only if the
word there is an opcode and the words that follow it lie in the stream and are its operands; it then ends
behind these. -/
theorem decode_ok_iff_layout (code : List Word) (p : Nat) (i : Instruction) (c : Cursor) :
    decode (.at code p) = .ok i c ↔
      code[p]?.bind Opcode.ofWord? = some i.opcode ∧ p + 1 + i.operandCount ≤ code.length ∧
        i.Layout ((code.drop (p + 1)).take i.operandCount) ∧
          c = .at code (p + 1 + i.operandCount) := by
  by_cases hp : p < code.length
  · have hword : decode (.at code p) = .ok i c ↔
        ∃ op, Opcode.ofWord? code[p] = some op ∧ operands op (.at code (p + 1)) = .ok i c := by
      rw [decode_at_cons (List.drop_eq_getElem_cons hp)]
      cases Opcode.ofWord? code[p] <;> simp
    rw [hword, List.getElem?_eq_getElem hp, Option.bind_some]
    simp only [reads_operands _ (show p + 1 ≤ code.length from hp) i c]
    constructor
    · rintro ⟨op, hop, words, ⟨rfl, hlayout⟩, hpre, rfl⟩
      have hwords := List.prefix_iff_eq_take.mp hpre
      have hle := add_length_le_of_prefix_drop hpre hp
      rw [hlayout.length_eq] at hwords hle ⊢
      exact ⟨hop, hle, hwords ▸ hlayout, rfl⟩
    · rintro ⟨hop, hle, hlayout, rfl⟩
      exact ⟨_, hop, _, ⟨rfl, hlayout⟩, List.take_prefix _ _, by rw [hlayout.length_eq]⟩
  · rw [decode_at_nil (by omega)]
    refine iff_of_false (by simp) fun h => ?_
    have := h.2.1
    omega

/-- A call with two arguments lists their types behind its other operands. -/
example : decode (.at [19, 2, 0, 40, 1, 9, 9, 27] 0) =
    .ok (.call .callMulti 2 ⟨0⟩ 40 1) (.at [19, 2, 0, 40, 1, 9, 9, 27] 7) := rfl

end Instruction

end Wordcode
