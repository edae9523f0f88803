import Wordcode.Proofs.Instruction.Placement

/-! # Instructions that are cut short

A step that succeeds on a stream fails on the stream cut short within the words it reads, at the cut
(`Reader.Notices`): the first part of an instruction is no instruction. Each reading step has its own way
to notice the end, and steps in sequence notice it if each of them does (`Notices.bind`). -/

namespace Wordcode

namespace Reader

variable {α β : Type} {R : α → List Word → Prop}

/-- On a stream cut short within the words that the step reads, the step fails at the cut. -/
def Notices (step : Reader α) : Prop :=
  ∀ ⦃code p a c⦄, p ≤ code.length → step (.at code p) = .ok a c → ∀ m, p ≤ m → m < c.pos →
    ∃ c', step (.at (code.take m) p) = .error (.unexpectedEnd m) c'

theorem notices_pure (a : α) : Notices (pure a) := by
  intro code p b c hp hread m hpm hm
  obtain ⟨-, rfl⟩ := EStateM.Result.ok.inj hread
  exact absurd hpm (Nat.not_le.mpr hm)

/-- Steps in sequence: the cut lies within what the first one reads, or the second one gets to it. -/
theorem Notices.bind {x : Reader α} {f : α → Reader β} (hx : Notices x) (hr : Reads x R)
    (hf : ∀ a, Notices (f a)) : Notices (x >>= f) := by
  intro code p b c hp hread m hpm hm
  change EStateM.bind x f (.at code p) = _ at hread
  change ∃ c', EStateM.bind x f (.at (code.take m) p) = _
  unfold EStateM.bind at hread ⊢
  cases hx' : x (.at code p) with
  | error e c' => rw [hx'] at hread; cases hread
  | ok a c₁ =>
    rw [hx'] at hread
    obtain ⟨hle, hlength, hc₁⟩ := hr.follows hp hx'
    by_cases hcut : m < c₁.pos
    · obtain ⟨c', hc'⟩ := hx hp hx' m hpm hcut
      exact ⟨c', by rw [hc']⟩
    · have hcut : c₁.pos ≤ m := Nat.not_lt.mp hcut
      rw [hr.take hp hx' hcut]
      rw [hc₁] at hread
      exact hf a hlength hread m hcut hm

/-! ### Single words -/

theorem at_take_self (code : List Word) (p : Nat) :
    Cursor.at (code.take p) p = ⟨[], p, (code.take p).length⟩ := by
  rw [Cursor.at, List.drop_eq_nil_of_le (List.length_take_le _ _)]

theorem notices_operand {r : α → Word → Prop} {convert : Word → Except OperandFault α}
    (hr : Reads (operand convert) (OneWord r)) : Notices (operand convert) := by
  intro code p a c hp hread m hpm hm
  obtain ⟨_, ⟨word, -, rfl⟩, -, rfl⟩ := (hr hp a c).mp hread
  obtain rfl : m = p := Nat.le_antisymm (Nat.lt_succ_iff.mp hm) hpm
  rw [at_take_self]
  exact ⟨_, rfl⟩

theorem notices_word : Notices word := by
  have hr := reads_word
  rw [word_eq_operand] at hr ⊢
  exact notices_operand hr

/-! ### Many words -/

theorem notices_skip (n : Nat) : Notices (skip n) := by
  intro code p a c hp hread m hpm hm
  obtain ⟨-, hlength, -⟩ := (reads_skip n).follows hp hread
  obtain ⟨words, rfl, -, rfl⟩ := (reads_skip n hp a c).mp hread
  change m < p + words.length at hm
  change p + words.length ≤ code.length at hlength
  have hsize : (code.take m).length = m := List.length_take_of_le (by omega)
  simp only [skip, Cursor.at, hsize]
  exact ⟨_, if_neg (Nat.not_le.mpr hm)⟩

theorem notices_times {step : Reader α} {ok : Word → Prop} {f : Word → α} (hn : Notices step)
    (hr : Reads step (OneWord fun a w => ok w ∧ a = f w)) : ∀ n, Notices (times step n)
  | 0 => notices_pure []
  | n + 1 => hn.bind hr fun _ => (notices_times hn hr n).bind (reads_times hr n) fun _ => notices_pure _

theorem notices_counted {step : Reader α} {ok : Word → Prop} {f : Word → α} (hn : Notices step)
    (hr : Reads step (OneWord fun a w => ok w ∧ a = f w)) : Notices (counted step) :=
  (notices_operand reads_count).bind reads_count fun n => notices_times hn hr n

theorem notices_countedWords : Notices (counted word) := by
  have hr : Reads word (OneWord fun a w => True ∧ a = id w) :=
    reads_word.congr fun a words => by simp [OneWord, eq_comm]
  exact notices_counted notices_word hr

/-- A text is noticed to be without its zero, since all that is left of it is read. -/
theorem notices_text : Notices text := by
  intro code p s c hp hread m hpm hm
  obtain ⟨-, hlength, -⟩ := reads_text.follows hp hread
  obtain ⟨_, ⟨chars, rfl, hzero, -⟩, hpre, rfl⟩ := (reads_text hp s c).mp hread
  change m < p + (chars ++ [0]).length at hm
  change p + (chars ++ [0]).length ≤ code.length at hlength
  rw [List.length_append, List.length_singleton] at hm hlength
  obtain ⟨rest, hrest⟩ := hpre
  have hleft : (code.take m).drop p = chars.take (m - p) := by
    rw [List.drop_take, ← hrest, List.append_assoc, List.take_append_of_le_length (by omega)]
  have hnone : 0 ∉ (code.take m).drop p := hleft ▸ fun h => hzero (List.mem_of_mem_take h)
  have hend : p + ((code.take m).drop p).length = m := by
    rw [hleft, List.length_take]
    omega
  rw [text_of_not_mem hnone, hend]
  exact ⟨_, rfl⟩

end Reader

/-! ### Operands and instructions -/

namespace Instruction

open Reader

theorem notices_index (table : Table) : Notices (index table) := notices_operand (reads_index table)

theorem notices_lval (assigns : Bool) {β : Type} {f : Option LvalOp → Reader β}
    (hf : ∀ lval, Notices (f lval)) :
    Notices (do let lval ← if assigns then some <$> lvalOp else pure none
                f lval) := by
  cases assigns with
  | false => exact hf none
  | true =>
    have hmap : (do let lval ← some <$> lvalOp; f lval) = lvalOp >>= fun op => f (some op) := by
      rw [bind_map_left]
    rw [if_pos rfl, hmap]
    exact (notices_operand reads_lvalOp).bind reads_lvalOp fun op => hf (some op)

theorem notices_operands (op : Opcode) : Notices (operands op) := by
  have hword : ∀ {β : Type} {f : Word → Reader β}, (∀ w, Notices (f w)) → Notices (word >>= f) :=
    notices_word.bind reads_word
  have hcount : ∀ {β : Type} {f : Nat → Reader β}, (∀ n, Notices (f n)) → Notices (count >>= f) :=
    (notices_operand reads_count).bind reads_count
  have hindex : ∀ {table : Table} {β : Type} {f : Index table → Reader β}, (∀ i, Notices (f i)) →
      Notices (index table >>= f) := (notices_index _).bind (reads_index _)
  have hskip : ∀ {β : Type} (n : Nat) {f : Unit → Reader β}, (∀ u, Notices (f u)) →
      Notices (skip n >>= f) := fun n => (notices_skip n).bind (reads_skip n)
  have hspecs : ∀ {β : Type} {f : List SpecIdentIndex → Reader β}, (∀ specs, Notices (f specs)) →
      Notices (counted (index .specIdent) >>= f) :=
    (notices_counted (notices_index _) (reads_index _)).bind (reads_counted (reads_index _))
  unfold operands
  cases op.shape with
  | plain => exact notices_pure _
  | immediate => exact hword fun _ => notices_pure _
  | ret => exact hword fun _ => hword fun _ => hword fun _ => notices_pure _
  | callValue => exact hword fun _ => hword fun _ => notices_pure _
  | call listed =>
    refine hcount fun argc => hindex fun _ => hword fun _ => hword fun _ => ?_
    cases listed with
    | false => exact notices_pure _
    | true => exact hskip argc fun _ => notices_pure _
  | newVector => exact hindex fun _ => hword fun _ => notices_pure _
  | callNative => exact hindex fun _ => notices_pure _
  | ident assigns => exact notices_lval assigns fun _ => hindex fun _ => notices_pure _
  | slot assigns => exact notices_lval assigns fun _ => hword fun _ => notices_pure _
  | element => exact (notices_operand reads_lvalOp).bind reads_lvalOp fun _ => notices_pure _
  | float => exact hword fun _ => notices_pure _
  | text => exact notices_text.bind reads_text fun _ => notices_pure _
  | prologue => exact hspecs fun _ => hspecs fun _ => hword fun _ => notices_pure _
  | coroutine =>
    exact hword fun _ => hskip 1 fun _ => notices_countedWords.bind reads_countedWords fun _ =>
      notices_pure _
  | dispatch => exact hcount fun _ => hcount fun _ => hskip _ fun _ => notices_pure _

/-- **A part of an instruction is no instruction**: where the stream is cut short within the words of an
instruction, decoding fails at the cut. -/
theorem notices_decode : Notices decode := by
  intro code p i c hp hread m hpm hm
  rcases Nat.lt_or_eq_of_le hpm with hlt | rfl
  · obtain ⟨-, hlength, -⟩ := decode_ok hread
    have hcode := List.drop_eq_getElem_cons (show p < code.length by omega)
    have hcut := List.drop_eq_getElem_cons (show p < (code.take m).length by rw [List.length_take]; omega)
    rw [List.getElem_take] at hcut
    rw [decode_at_cons hcode] at hread
    rw [decode_at_cons hcut]
    cases hop : Opcode.ofWord? code[p] with
    | none => rw [hop] at hread; cases hread
    | some op =>
      rw [hop] at hread
      exact notices_operands op (by omega) hread m hlt hm
  · rw [decode_at_nil (List.length_take_le _ _)]
    exact ⟨_, rfl⟩

end Instruction

end Wordcode
