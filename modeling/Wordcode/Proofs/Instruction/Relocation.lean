import Wordcode.Proofs.Instruction.Placement

/-! # Words in front of a stream

Words in front of a stream move every position in it by their number. A reading step looks only at the
words ahead, and positions enter its faults and nothing else, so it has the same outcome from a cursor that is moved,
with every offset moved (`Reader.Shifts`): there is one lemma for each reading step, and steps in sequence
move if each of them does (`Shifts.bind`). So decoding moves, and with it the whole walk
(`Walk.within_shift`). -/

namespace Wordcode

/-- The fault with `n` words more in front of the code. A fault of a table has no offset in the code. -/
def Fault.shift (n : Nat) : Fault → Fault
  | .invalidOpcode word offset => .invalidOpcode word (n + offset)
  | .invalidOperand offset cause => .invalidOperand (n + offset) cause
  | .unexpectedEnd offset => .unexpectedEnd (n + offset)
  | .invalidLineTable cause => .invalidLineTable cause
  | .invalidType index cause => .invalidType index cause
  | .malformedPayload => .malformedPayload

/-- The cursor with `n` words more in front of it. -/
def Cursor.shift (n : Nat) (c : Cursor) : Cursor := ⟨c.ahead, n + c.pos, n + c.size⟩

theorem Cursor.at_append (before code : List Word) (p : Nat) :
    Cursor.at (before ++ code) (before.length + p) = (Cursor.at code p).shift before.length := by
  have hahead : (before ++ code).drop (before.length + p) = code.drop p := by
    rw [← List.drop_drop, List.drop_left]
  simp only [Cursor.at, Cursor.shift, hahead, List.length_append]

namespace Reader

variable {α β : Type}

/-- The outcome with `n` words more in front. -/
def shiftResult (n : Nat) : EStateM.Result Fault Cursor α → EStateM.Result Fault Cursor α
  | .ok a c => .ok a (c.shift n)
  | .error fault c => .error (fault.shift n) (c.shift n)

/-- Words in front move the outcome of the step and do not change it otherwise. -/
def Shifts (step : Reader α) : Prop := ∀ n c, step (c.shift n) = shiftResult n (step c)

theorem shifts_pure (a : α) : Shifts (pure a) := fun _ _ => rfl

theorem Shifts.bind {x : Reader α} {f : α → Reader β} (hx : Shifts x) (hf : ∀ a, Shifts (f a)) :
    Shifts (x >>= f) := by
  intro n c
  show EStateM.bind x f (c.shift n) = shiftResult n (EStateM.bind x f c)
  unfold EStateM.bind
  rw [hx n c]
  cases x c with
  | ok a c' => exact hf a n c'
  | error fault c' => rfl

/-! ### Single words -/

/-- A word that is turned down has a fault at its own position. -/
theorem shifts_operand (convert : Word → Except OperandFault α) : Shifts (operand convert) := by
  rintro n ⟨_ | ⟨w, rest⟩, pos, size⟩
  · rfl
  · cases hconvert : convert w with
    | ok a =>
      have hstep : ∀ pos size, operand convert ⟨w :: rest, pos, size⟩ = .ok a ⟨rest, pos + 1, size⟩ := by
        intro pos size
        simp only [operand, bind, EStateM.bind, position, word, hconvert]
        rfl
      simp only [Cursor.shift, hstep]
      rfl
    | error cause =>
      have hstep : ∀ pos size, operand convert ⟨w :: rest, pos, size⟩ =
          .error (.invalidOperand pos cause) ⟨rest, pos + 1, size⟩ := by
        intro pos size
        simp only [operand, bind, EStateM.bind, position, word, hconvert]
        rfl
      simp only [Cursor.shift, hstep]
      rfl

theorem shifts_word : Shifts word := by
  rintro n ⟨_ | ⟨w, rest⟩, pos, size⟩ <;> rfl

/-! ### Many words -/

theorem shifts_skip (k : Nat) : Shifts (skip k) := by
  intro n c
  have hpos : n + c.pos + k = n + (c.pos + k) := by omega
  have hle : n + (c.pos + k) ≤ n + c.size ↔ c.pos + k ≤ c.size := by omega
  simp only [skip, Cursor.shift, hpos, hle]
  split_ifs <;> rfl

theorem shifts_text : Shifts text := by
  intro n c
  have hpos : ∀ k, n + c.pos + k = n + (c.pos + k) := fun k => by omega
  simp only [text, Cursor.shift]
  cases c.ahead.drop (c.ahead.takeWhile (· ≠ 0)).length with
  | nil => simp only [shiftResult, Fault.shift, Cursor.shift, hpos]
  | cons w rest => simp only [shiftResult, Cursor.shift, hpos]; rfl

end Reader

/-! ### Operands and instructions -/

namespace Instruction

open Reader

theorem shifts_operands (op : Opcode) : Shifts (operands op) :=
  stepwise_operands (P := fun _ => Shifts)
    ⟨shifts_pure, Shifts.bind, shifts_word, shifts_skip, shifts_operand, shifts_text⟩ op

/-- **Decoding does not depend on where the instruction stands**; only the offsets in its fault do. -/
theorem shifts_decode : Shifts decode := by
  rintro n ⟨_ | ⟨w, rest⟩, pos, size⟩
  · rfl
  · cases hop : Opcode.ofWord? w with
    | none =>
      have hstep : ∀ pos size,
          decode ⟨w :: rest, pos, size⟩ = .error (.invalidOpcode w pos) ⟨rest, pos + 1, size⟩ := by
        intro pos size
        unfold decode
        simp only [bind, EStateM.bind, position, word, hop]
        rfl
      simp only [Cursor.shift, hstep]
      rfl
    | some op =>
      have hstep : ∀ pos size, decode ⟨w :: rest, pos, size⟩ = operands op ⟨rest, pos + 1, size⟩ := by
        intro pos size
        unfold decode
        simp only [bind, EStateM.bind, position, word, hop]
      simp only [Cursor.shift, hstep]
      exact shifts_operands op n ⟨rest, pos + 1, size⟩

end Instruction

/-! ### Walks -/

namespace Walk

/-- The ending with `n` words more in front of the stream. -/
def Ending.shift (n : Nat) : Ending → Ending
  | .finished offset => .finished (n + offset)
  | .stuck start fault stopped => .stuck (n + start) (fault.shift n) (n + stopped)

/-- The walk with `n` words more in front of its stream. -/
def shift (n : Nat) (walk : Walk) : Walk :=
  ⟨walk.instructions.map (Located.shift n), walk.ending.shift n⟩

theorem fault?_shift (n : Nat) (walk : Walk) :
    (walk.shift n).fault? = walk.fault?.map (Fault.shift n) := by
  obtain ⟨instructions, offset | ⟨start, fault, stopped⟩⟩ := walk <;> rfl

/-- **The walk from a moved cursor** visits the same instructions and ends in the same way. -/
theorem within_shift (n : Nat) : ∀ (bound : Nat) (c : Cursor),
    within bound (c.shift n) = (within bound c).shift n
  | 0, _ => rfl
  | bound + 1, c => by
    have hend : (c.shift n).isAtEnd = c.isAtEnd := by
      simp only [Cursor.isAtEnd, Cursor.shift, Nat.add_le_add_iff_left]
    rw [within, within, hend, Instruction.shifts_decode n c]
    by_cases h : c.isAtEnd = true
    · simp only [if_pos h]
      rfl
    · simp only [if_neg h]
      cases Instruction.decode c with
      | error fault c' => rfl
      | ok i c' =>
        simp only [Reader.shiftResult, within_shift n bound c']
        rfl

variable {code : List Word}

/-- A walk that may visit as many instructions as there are words left is not cut off by its bound. -/
theorem within_eq_within : ∀ {bound bound' p : Nat}, code.length ≤ p + bound →
    code.length ≤ p + bound' → within bound (.at code p) = within bound' (.at code p)
  | 0, bound', p, h, _ => by rw [within_end (by omega), within_end (by omega)]
  | bound + 1, bound', p, h, h' => by
    by_cases hp : code.length ≤ p
    · rw [within_end hp, within_end hp]
    · obtain ⟨bound', rfl⟩ : ∃ k, bound' = k + 1 := ⟨bound' - 1, by omega⟩
      cases hd : Instruction.decode (.at code p) with
      | error fault c => rw [within_error (by omega) hd, within_error (by omega) hd]
      | ok i c =>
        obtain ⟨hlt, -, -⟩ := decode_ok hd
        have hrest : within bound (.at code c.pos) = within bound' (.at code c.pos) :=
          within_eq_within (by omega) (by omega)
        rw [within_ok hd, within_ok hd, hrest]

end Walk

end Wordcode
