import Wordcode.Proofs.Walk

/-! # Decoding with 64-bit positions

Here positions, counts and what is computed from them are numbers of 64 bits. A sum or product that does not
fit and a word that is taken from outside of the stream are outcomes of their own (`Machine.Halt`); what the
pieces mean is as for `Reader`. None of the two ever comes up, and decoding goes as with positions of any size:
this is shown piece by piece (`Machine.Tracks`), up to `Machine.tracks_decode`. -/

namespace Wordcode

/-- A stream whose length is a number of 64 bits. -/
structure Stream where
  words : List Word
  length_lt : words.length < UInt64.size

/-- How a step ends that has no result. -/
inductive Machine.Halt
  /-- The step reports a fault. -/
  | fault (fault : Fault)
  /-- A number does not fit into 64 bits. -/
  | overflow
  /-- A word outside of the stream is taken. -/
  | outside
  deriving DecidableEq, Repr

/-- A step that reads words and has its position in 64 bits. -/
abbrev Machine := EStateM Machine.Halt UInt64

/-- The length of a stream. -/
def Stream.length (stream : Stream) : UInt64 := .ofNat stream.words.length

@[simp]
theorem Stream.toNat_length (stream : Stream) : stream.length.toNat = stream.words.length :=
  UInt64.toNat_ofNat_of_lt stream.length_lt

namespace Machine

/-! ### Numbers -/

/-- The sum, if it fits. -/
def sum? (a b : UInt64) : Option UInt64 := if a.toNat + b.toNat < UInt64.size then some (a + b) else none

/-- The product, if it fits. -/
def product? (a b : UInt64) : Option UInt64 := if a.toNat * b.toNat < UInt64.size then some (a * b) else none

/-- The number of words of a dispatch table. -/
def tableSize? (overloads argc : UInt64) : Option UInt64 := do
  product? (← sum? (← product? argc 2) 1) overloads

/-- A number that has to fit. -/
def fits (n? : Option UInt64) : Machine UInt64 := n?.elim (throw .overflow) pure

theorem sum?_eq_some_iff {a b c : UInt64} :
    sum? a b = some c ↔ c.toNat = a.toNat + b.toNat := by
  unfold sum?
  split_ifs with h
  · rw [Option.some.injEq, ← UInt64.toNat_inj, UInt64.toNat_add, Nat.mod_eq_of_lt h, eq_comm]
  · refine iff_of_false (by simp) fun hc => h ?_
    rw [← hc]
    exact c.toNat_lt

theorem product?_eq_some_iff {a b c : UInt64} :
    product? a b = some c ↔ c.toNat = a.toNat * b.toNat := by
  unfold product?
  split_ifs with h
  · rw [Option.some.injEq, ← UInt64.toNat_inj, UInt64.toNat_mul, Nat.mod_eq_of_lt h, eq_comm]
  · refine iff_of_false (by simp) fun hc => h ?_
    rw [← hc]
    exact c.toNat_lt

theorem exists_sum? {a b : UInt64} (h : a.toNat + b.toNat < UInt64.size) :
    ∃ c, sum? a b = some c ∧ c.toNat = a.toNat + b.toNat :=
  ⟨a + b, if_pos h, sum?_eq_some_iff.mp (if_pos h)⟩

theorem exists_product? {a b : UInt64} (h : a.toNat * b.toNat < UInt64.size) :
    ∃ c, product? a b = some c ∧ c.toNat = a.toNat * b.toNat :=
  ⟨a * b, if_pos h, product?_eq_some_iff.mp (if_pos h)⟩

/-! ### Reading -/

/-- The position. -/
def position : Machine UInt64 := fun pos => .ok pos pos

/-- Goes on at another position. -/
def moveTo (stop : UInt64) : Machine Unit := fun _ => .ok () stop

variable (stream : Stream)

/-- The word at a position. -/
def fetch (pos : UInt64) : Machine Word := (stream.words[pos.toNat]?).elim (throw .outside) pure

/-- The next word. -/
def word : Machine Word := do
  let pos ← position
  if pos < stream.length then
    let w ← fetch stream pos
    moveTo (← fits (sum? pos 1))
    return w
  else throw (.fault (.unexpectedEnd pos.toNat))

/-- Moves over `n` words, or not at all if there are fewer. -/
def skip (n : UInt64) : Machine Unit := do
  match (sum? (← position) n).filter (· ≤ stream.length) with
  | some stop => moveTo stop
  | none => throw (.fault (.unexpectedEnd stream.length.toNat))

/-- The next word, which `convert` accepts or turns down with a cause. -/
def operand {α : Type} (convert : Word → Except OperandFault α) : Machine α := do
  let offset ← position
  let w ← word stream
  match convert w with
  | .ok a => return a
  | .error cause => throw (.fault (.invalidOperand offset.toNat cause))

/-- A word that is not negative, as a number. -/
def count : Machine UInt64 :=
  operand stream fun w => if w < 0 then .error (.negativeCount w) else .ok w.toInt.toNat.toUInt64

/-- A word that is an index into a table. -/
def index (table : Table) : Machine (Index table) :=
  operand stream fun w => (Index.ofWord? w).elim (.error (.negativeIndex table w)) .ok

/-- A word that is an l-value operation. -/
def lvalOp : Machine LvalOp :=
  operand stream fun w => (LvalOp.ofWord? w).elim (.error (.unknownLvalOp w)) .ok

/-- The step `n` times, with the results in order. -/
def times {α : Type} (step : Machine α) : Nat → Machine (List α)
  | 0 => return []
  | n + 1 => do return (← step) :: (← times step n)

/-- A count, then the step as many times. -/
def counted {α : Type} (step : Machine α) : Machine (List α) := do times step (← count stream).toNat

section Word
variable {stream} {pos : UInt64}

theorem word_of_lt (h : pos.toNat < stream.words.length) :
    ∃ stop : UInt64, stop.toNat = pos.toNat + 1 ∧ word stream pos = .ok stream.words[pos.toNat] stop := by
  have hfits : pos.toNat + (1 : UInt64).toNat < UInt64.size := Nat.lt_of_le_of_lt h stream.length_lt
  obtain ⟨stop, hsum, hstop⟩ := exists_sum? hfits
  have hlt : pos < stream.length := by rwa [UInt64.lt_iff_toNat_lt, stream.toNat_length]
  refine ⟨stop, hstop, ?_⟩
  simp only [word, bind, EStateM.bind, position, if_pos hlt, fetch, List.getElem?_eq_getElem h, hsum, fits]
  rfl

theorem word_of_le (h : stream.words.length ≤ pos.toNat) :
    word stream pos = .error (.fault (.unexpectedEnd pos.toNat)) pos := by
  have hlt : ¬ pos < stream.length := by
    rw [UInt64.lt_iff_toNat_lt, stream.toNat_length]
    omega
  simp only [word, bind, EStateM.bind, position, if_neg hlt]
  rfl

theorem sub_lt_of_word {stop : UInt64} {w : Word} (h : word stream pos = .ok w stop) :
    stream.words.length - stop.toNat < stream.words.length - pos.toNat := by
  rcases Nat.lt_or_ge pos.toNat stream.words.length with hlt | hle
  · obtain ⟨stop', hstop, hword⟩ := word_of_lt hlt
    obtain ⟨-, rfl⟩ := EStateM.Result.ok.inj (h.symm.trans hword)
    omega
  · rw [word_of_le hle] at h
    cases h

end Word

/-- The characters up to a zero word, which is read too. -/
def chars (pos : UInt64) : EStateM.Result Halt UInt64 (List Char) :=
  match _read : word stream pos with
  | .error halt stop => .error halt stop
  | .ok w behind =>
    if w = 0 then .ok [] behind
    else
      match chars behind with
      | .error halt stop => .error halt stop
      | .ok rest stop => .ok (w.toChar :: rest) stop
termination_by stream.words.length - pos.toNat
decreasing_by exact sub_lt_of_word _read

section Chars
variable {stream} {pos behind : UInt64}

theorem chars_of_error {halt : Halt} (h : word stream pos = .error halt behind) :
    chars stream pos = .error halt behind := by
  rw [chars]
  split <;> simp_all

theorem chars_of_zero (h : word stream pos = .ok 0 behind) : chars stream pos = .ok [] behind := by
  rw [chars]
  split <;> simp_all

theorem chars_of_char {w : Word} (h : word stream pos = .ok w behind) (hw : w ≠ 0) :
    chars stream pos = match chars stream behind with
      | .error halt stop => .error halt stop
      | .ok rest stop => .ok (w.toChar :: rest) stop := by
  rw [chars]
  split <;> simp_all

end Chars

/-- A text. -/
def text : Machine String := String.ofList <$> chars stream

/-- The operands of an instruction with this opcode. -/
def operands (op : Opcode) : Machine Instruction := do
  match op.shape with
  | .plain => return .plain op
  | .immediate => return .immediate op (← word stream)
  | .ret => return .ret (← word stream) (← word stream) (← word stream)
  | .callValue => return .callValue op (← word stream) (← word stream)
  | .call listed =>
    let argc ← count stream
    let function ← index stream .function
    let target ← word stream
    let typeMask ← word stream
    if listed then skip stream argc
    return .call op argc.toNat function target typeMask
  | .newVector => return .newVector (← index stream .type) (← word stream)
  | .callNative => return .callNative (← index stream .native)
  | .ident assigns =>
    let lval ← if assigns then some <$> lvalOp stream else pure none
    return .ident op lval (← index stream .specIdent)
  | .slot assigns =>
    let lval ← if assigns then some <$> lvalOp stream else pure none
    return .slot op lval (← word stream)
  | .element => return .element op (← lvalOp stream)
  | .float => return .float ⟨(← word stream).toUInt32⟩
  | .text => return .text (← text stream)
  | .prologue =>
    let params ← counted stream (index stream .specIdent)
    let returns ← counted stream (index stream .specIdent)
    return .prologue params returns (← word stream)
  | .coroutine =>
    let target ← word stream
    skip stream 1
    return .coroutine target (← counted stream (word stream))
  | .dispatch =>
    let overloads ← count stream
    let argc ← count stream
    -- counts are too small for the size not to fit (`tableSize?_of_counts`), so there is no fault for it
    skip stream (← fits (tableSize? overloads argc))
    return .dispatch overloads.toNat argc.toNat

/-- Reads the instruction at the position. -/
def decode : Machine Instruction := do
  let offset ← position
  let w ← word stream
  match Opcode.ofWord? w with
  | none => throw (.fault (.invalidOpcode w offset.toNat))
  | some op => operands stream op

/-! ### Steps on both sides -/

/-- A step of the machine ends as one of a reader: at the same position, with results that agree or with the
same fault. -/
inductive Agrees {α β : Type} (R : α → β → Prop) :
    EStateM.Result Halt UInt64 α → EStateM.Result Fault Cursor β → Prop
  | ok {a : α} {b : β} (results : R a b) (stop : UInt64) :
    Agrees R (.ok a stop) (.ok b (.at stream.words stop.toNat))
  | error (fault : Fault) (stop : UInt64) :
    Agrees R (.error (.fault fault) stop) (.error fault (.at stream.words stop.toNat))

/-- **The step of the machine does what the reader does** wherever it starts. -/
def Tracks {α β : Type} (R : α → β → Prop) (x : Machine α) (y : Reader β) : Prop :=
  ∀ pos : UInt64, Agrees stream R (x pos) (y (.at stream.words pos.toNat))

/-- The number is the count of a word. -/
def Counts (n : UInt64) (m : Nat) : Prop := n.toNat = m ∧ m < 0x80000000

section Tracks
variable {stream} {α β γ δ : Type} {R : α → β → Prop} {S : γ → δ → Prop} {x : Machine α} {y : Reader β}

theorem tracks_pure {a : α} {b : β} (h : R a b) : Tracks stream R (pure a) (pure b) :=
  fun pos => .ok h pos

theorem tracks_throw (fault : Fault) : Tracks stream R (throw (.fault fault)) (throw fault) :=
  fun pos => .error fault pos

theorem Tracks.bind {f : α → Machine γ} {g : β → Reader δ} (hx : Tracks stream R x y)
    (hf : ∀ a b, R a b → Tracks stream S (f a) (g b)) : Tracks stream S (x >>= f) (y >>= g) := by
  intro pos
  have h := hx pos
  show Agrees stream S (EStateM.bind x f pos) (EStateM.bind y g _)
  unfold EStateM.bind
  cases hx : x pos with
  | ok a stop =>
    cases hy : y (.at stream.words pos.toNat) with
    | ok b c =>
      rw [hx, hy] at h
      cases h with
      | ok results => exact hf a b results stop
    | error fault c => rw [hx, hy] at h; cases h
  | error halt stop =>
    cases hy : y (.at stream.words pos.toNat) with
    | ok b c => rw [hx, hy] at h; cases h
    | error fault c =>
      rw [hx, hy] at h
      cases h with
      | error => exact .error fault stop

/-- Steps with the same results, in sequence with what is done with these. -/
theorem Tracks.seq {x : Machine α} {y : Reader α} {f : α → Machine γ} {g : α → Reader δ}
    (hx : Tracks stream Eq x y) (hf : ∀ a, Tracks stream S (f a) (g a)) :
    Tracks stream S (x >>= f) (y >>= g) :=
  hx.bind fun a _ h => h ▸ hf a

theorem Tracks.map {f : α → γ} {g : β → δ} (hx : Tracks stream R x y) (hf : ∀ a b, R a b → S (f a) (g b)) :
    Tracks stream S (f <$> x) (g <$> y) := by
  rw [map_eq_pure_bind, map_eq_pure_bind]
  exact hx.bind fun a b h => tracks_pure (hf a b h)

theorem tracks_position : Tracks stream (fun pos offset => pos.toNat = offset) position Reader.position :=
  fun pos => .ok (by rfl) pos

theorem tracks_word : Tracks stream Eq (word stream) Reader.word := by
  intro pos
  rcases Nat.lt_or_ge pos.toNat stream.words.length with hlt | hle
  · obtain ⟨stop, hstop, hword⟩ := word_of_lt hlt
    rw [hword, Reader.word_at_cons (List.drop_eq_getElem_cons hlt), ← hstop]
    exact .ok rfl stop
  · have hend : Reader.word (.at stream.words pos.toNat) =
        .error (.unexpectedEnd pos.toNat) (.at stream.words pos.toNat) := by
      simp only [Reader.word, Cursor.at, List.drop_eq_nil_of_le hle]
    rw [word_of_le hle, hend]
    exact .error _ pos

theorem tracks_skip {n : UInt64} {m : Nat} (h : n.toNat = m) :
    Tracks stream Eq (skip stream n) (Reader.skip m) := by
  subst h
  intro pos
  have hlength := stream.length_lt
  have hreader : Reader.skip n.toNat (.at stream.words pos.toNat) =
      if pos.toNat + n.toNat ≤ stream.words.length then .ok () (.at stream.words (pos.toNat + n.toNat))
      else .error (.unexpectedEnd stream.words.length) (.at stream.words pos.toNat) := by
    simp only [Reader.skip, Cursor.at, List.drop_drop]
  rw [hreader]
  cases hsum : (sum? pos n).filter (· ≤ stream.length) with
  | some stop =>
    obtain ⟨hstop, hle⟩ := Option.filter_eq_some_iff.mp hsum
    have hpos := sum?_eq_some_iff.mp hstop
    have hin : stop.toNat ≤ stream.words.length := by
      simpa [UInt64.le_iff_toNat_le] using hle
    rw [if_pos (by omega), ← hpos]
    simp only [skip, bind, EStateM.bind, position, hsum]
    exact .ok rfl stop
  | none =>
    have hout : ¬ pos.toNat + n.toNat ≤ stream.words.length := by
      intro hle
      obtain ⟨stop, hstop, hpos⟩ := exists_sum? (a := pos) (b := n) (by omega)
      have hin : stop ≤ stream.length := by
        rw [UInt64.le_iff_toNat_le, stream.toNat_length]
        omega
      rw [hstop, Option.filter_some, if_pos (by simpa using hin)] at hsum
      cases hsum
    rw [if_neg hout, ← stream.toNat_length]
    simp only [skip, bind, EStateM.bind, position, hsum]
    exact .error _ pos

theorem tracks_operand {convert : Word → Except OperandFault α} {convert' : Word → Except OperandFault β}
    (h : ∀ w, (∃ a b, convert w = .ok a ∧ convert' w = .ok b ∧ R a b) ∨
      ∃ cause, convert w = .error cause ∧ convert' w = .error cause) :
    Tracks stream R (operand stream convert) (Reader.operand convert') := by
  refine tracks_position.bind ?_
  rintro offset _ rfl
  refine tracks_word.seq fun w => ?_
  rcases h w with ⟨a, b, ha, hb, hR⟩ | ⟨cause, ha, hb⟩
  · rw [ha, hb]
    exact tracks_pure hR
  · rw [ha, hb]
    exact tracks_throw _

theorem tracks_operand_self (convert : Word → Except OperandFault α) :
    Tracks stream Eq (operand stream convert) (Reader.operand convert) := by
  refine tracks_operand fun w => ?_
  cases h : convert w with
  | ok a => exact .inl ⟨a, a, rfl, rfl, rfl⟩
  | error cause => exact .inr ⟨cause, rfl, rfl⟩

theorem tracks_count : Tracks stream Counts (count stream) Reader.count := by
  refine tracks_operand fun w => ?_
  by_cases hneg : w < 0
  · exact .inr ⟨.negativeCount w, if_pos hneg, by simp [Word.toCount?, hneg]⟩
  · have hlt : w.toInt.toNat < 2 ^ 31 := by
      have := w.toInt_lt
      omega
    refine .inl ⟨_, w.toInt.toNat, if_neg hneg, by simp [Word.toCount?, hneg], ?_, hlt⟩
    exact UInt64.toNat_ofNat_of_lt (Nat.lt_trans hlt (by decide))

theorem tracks_index (table : Table) : Tracks stream Eq (index stream table) (Reader.index table) :=
  tracks_operand_self _

theorem tracks_lvalOp : Tracks stream Eq (lvalOp stream) Reader.lvalOp := tracks_operand_self _

theorem tracks_times {step : Machine α} {step' : Reader α} (h : Tracks stream Eq step step') :
    ∀ n, Tracks stream Eq (times step n) (Reader.times step' n)
  | 0 => tracks_pure rfl
  | n + 1 => h.seq fun _ => (tracks_times h n).seq fun _ => tracks_pure rfl

theorem tracks_counted {step : Machine α} {step' : Reader α} (h : Tracks stream Eq step step') :
    Tracks stream Eq (counted stream step) (Reader.counted step') := by
  refine tracks_count.bind ?_
  rintro n m ⟨rfl, -⟩
  exact tracks_times h n.toNat

theorem text_at_cons {code rest : List Word} {p : Nat} {w : Word} (h : code.drop p = w :: rest) (hw : w ≠ 0) :
    Reader.text (.at code p) = match Reader.text (.at code (p + 1)) with
      | .ok s c => .ok (.ofList (w.toChar :: s.toList)) c
      | .error fault c => .error fault c := by
  have hrest : code.drop (p + 1) = rest := by rw [← List.drop_drop, h]; rfl
  have htake : (w :: rest).takeWhile (· ≠ 0) = w :: rest.takeWhile (· ≠ 0) :=
    List.takeWhile_cons_of_pos (by simpa using hw)
  have hpos : ∀ n, p + 1 + n = p + (n + 1) := by omega
  simp only [Reader.text, Cursor.at, h, hrest, htake, List.length_cons, List.drop_succ_cons, hpos]
  cases hdrop : rest.drop (rest.takeWhile (· ≠ 0)).length <;> simp

theorem tracks_chars : ∀ (rest : List Word) (pos : UInt64), stream.words.drop pos.toNat = rest →
    Agrees stream (fun cs s => String.ofList cs = s) (chars stream pos)
      (Reader.text (.at stream.words pos.toNat))
  | [], pos, h => by
    have hread := word_of_le (List.drop_eq_nil_iff.mp h)
    have htext : Reader.text (.at stream.words pos.toNat) =
        .error (.unexpectedEnd pos.toNat) (.at stream.words pos.toNat) := by
      simp [Reader.text, Cursor.at, h]
    rw [chars_of_error hread, htext]
    exact .error _ pos
  | w :: rest, pos, h => by
    obtain ⟨stop, hstop, hread⟩ := word_of_lt (Reader.lt_length_of_drop h)
    rw [(List.cons.inj ((List.drop_eq_getElem_cons (Reader.lt_length_of_drop h)).symm.trans h)).1] at hread
    have hrest : stream.words.drop stop.toNat = rest := by
      rw [hstop, ← List.drop_drop, h]
      rfl
    by_cases hzero : w = 0
    · subst hzero
      have htext : Reader.text (.at stream.words pos.toNat) = .ok (.ofList []) (.at stream.words stop.toNat) := by
        simp [Reader.text, Cursor.at, h, ← hrest, hstop]
      rw [chars_of_zero hread, htext]
      exact .ok (by rfl) stop
    · have ih := tracks_chars rest stop hrest
      rw [chars_of_char hread hzero, text_at_cons h hzero, ← hstop]
      generalize chars stream stop = x, Reader.text (.at stream.words stop.toNat) = y at ih
      cases ih with
      | ok results stop =>
        subst results
        exact .ok (by rw [String.toList_ofList]) stop
      | error fault stop => exact .error fault stop

theorem tracks_text : Tracks stream Eq (text stream) Reader.text := by
  have h : Tracks stream (fun cs s => String.ofList cs = s) (chars stream) Reader.text :=
    fun pos => tracks_chars _ pos rfl
  have hmap := h.map (f := String.ofList) (g := id) (S := Eq) fun _ _ h => h
  rwa [id_map] at hmap

theorem tracks_lval {S : γ → δ → Prop} (assigns : Bool) {f : Option LvalOp → Machine γ}
    {g : Option LvalOp → Reader δ} (hf : ∀ lval, Tracks stream S (f lval) (g lval)) :
    Tracks stream S
      (do let lval ← if assigns then some <$> lvalOp stream else pure none
          f lval)
      (do let lval ← if assigns then some <$> Reader.lvalOp else pure none
          g lval) := by
  cases assigns with
  | false => exact hf none
  | true => exact (tracks_lvalOp.map fun _ _ h => congrArg some h).seq hf

/-- The size of a dispatch table fits, since its counts are words. -/
theorem tableSize?_of_counts {overloads argc : UInt64} {n k : Nat} (hoverloads : Counts overloads n)
    (hargc : Counts argc k) :
    ∃ size, tableSize? overloads argc = some size ∧ size.toNat = (2 * k + 1) * n := by
  obtain ⟨rfl, hn⟩ := hoverloads
  obtain ⟨rfl, hk⟩ := hargc
  have hargc : argc.toNat * (2 : UInt64).toNat + (1 : UInt64).toNat < 2 ^ 32 := by
    show argc.toNat * 2 + 1 < 2 ^ 32
    omega
  have hmax : 2 ^ 32 * 2 ^ 31 < UInt64.size := by decide
  obtain ⟨twice, htwice, hdouble⟩ := exists_product? (a := argc) (b := 2) (by omega)
  obtain ⟨entry, hentry, hsum⟩ := exists_sum? (a := twice) (b := 1) (by omega)
  have htable : entry.toNat * overloads.toNat < 2 ^ 32 * 2 ^ 31 :=
    Nat.mul_lt_mul_of_lt_of_le (by omega) (Nat.le_of_lt hn) (by decide)
  obtain ⟨size, hsize, hproduct⟩ := exists_product? (Nat.lt_trans htable hmax)
  refine ⟨size, ?_, ?_⟩
  · simp only [tableSize?, htwice, hentry, hsize, Option.bind_eq_bind, Option.bind_some]
  · rw [hproduct, hsum, hdouble, Nat.mul_comm argc.toNat]
    rfl

theorem tracks_operands (op : Opcode) :
    Tracks stream Eq (operands stream op) (Instruction.operands op) := by
  unfold operands Instruction.operands
  cases op.shape with
  | plain => exact tracks_pure rfl
  | immediate => exact tracks_word.seq fun _ => tracks_pure rfl
  | ret =>
    exact tracks_word.seq fun _ => tracks_word.seq fun _ => tracks_word.seq fun _ => tracks_pure rfl
  | callValue => exact tracks_word.seq fun _ => tracks_word.seq fun _ => tracks_pure rfl
  | call listed =>
    refine tracks_count.bind ?_
    rintro argc _ ⟨rfl, -⟩
    refine (tracks_index _).seq fun _ => tracks_word.seq fun _ => tracks_word.seq fun _ => ?_
    cases listed with
    | false => exact tracks_pure rfl
    | true => exact (tracks_skip rfl).seq fun _ => tracks_pure rfl
  | newVector => exact (tracks_index _).seq fun _ => tracks_word.seq fun _ => tracks_pure rfl
  | callNative => exact (tracks_index _).seq fun _ => tracks_pure rfl
  | ident assigns => exact tracks_lval assigns fun _ => (tracks_index _).seq fun _ => tracks_pure rfl
  | slot assigns => exact tracks_lval assigns fun _ => tracks_word.seq fun _ => tracks_pure rfl
  | element => exact tracks_lvalOp.seq fun _ => tracks_pure rfl
  | float => exact tracks_word.seq fun _ => tracks_pure rfl
  | text => exact tracks_text.seq fun _ => tracks_pure rfl
  | prologue =>
    exact (tracks_counted (tracks_index _)).seq fun _ => (tracks_counted (tracks_index _)).seq fun _ =>
      tracks_word.seq fun _ => tracks_pure rfl
  | coroutine =>
    exact tracks_word.seq fun _ => (tracks_skip rfl).seq fun _ => (tracks_counted tracks_word).seq fun _ =>
      tracks_pure rfl
  | dispatch =>
    refine tracks_count.bind ?_
    rintro overloads n hoverloads
    refine tracks_count.bind ?_
    rintro argc k hargc
    obtain ⟨size, hfits, hsize⟩ := tableSize?_of_counts hoverloads hargc
    rw [hfits, ← hoverloads.1, ← hargc.1]
    exact (tracks_skip (by rw [hsize, hoverloads.1, hargc.1])).seq fun _ => tracks_pure rfl

/-- **Decoding goes as with positions of any size**, and neither of the two halts comes up. -/
theorem tracks_decode : Tracks stream Eq (decode stream) Instruction.decode := by
  refine tracks_position.bind ?_
  rintro offset _ rfl
  refine tracks_word.seq fun w => ?_
  cases Opcode.ofWord? w with
  | none => exact tracks_throw _
  | some op => exact tracks_operands op

end Tracks

end Machine

end Wordcode
