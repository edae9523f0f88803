import Wordcode.Proofs.Instruction.Machine
import Wordcode.Proofs.Instruction.Steps

/-! # Runs of a cursor

A cursor is used on after a fault, wherever that has left it. Each call leaves it in its stream and does not
move it back (`Reader.Forward`); one that comes to the end of the stream names the end
(`Reader.NamesEnd`). So it is for every call of a run (`Cursor.run_safe`), whatever the calls before it were.
With positions of 64 bits the run is the same (`Machine.run_eq`); `Machine.cursor_safe` puts these together. -/

namespace Wordcode

open Reader

/-! ### Calls -/

namespace Cursor

/-- What a cursor can be asked for. -/
inductive Call
  | word
  | count
  | skip (n : UInt64)
  | decode
  deriving DecidableEq, Repr

/-- What a call gives. -/
inductive Answer
  | word (w : Word)
  | count (n : Nat)
  | skipped
  | instruction (i : Instruction)
  deriving DecidableEq, Repr

/-- A call with its outcome, and where the cursor stands before it and behind it. -/
structure Event (ε : Type) where
  call : Call
  start : Nat
  outcome : Except ε Answer
  stop : Nat

/-- The reading step of a call. -/
def Call.read : Call → Reader Answer
  | word => Answer.word <$> Reader.word
  | count => Answer.count <$> Reader.count
  | skip n => (fun _ => Answer.skipped) <$> Reader.skip n.toNat
  | decode => Answer.instruction <$> Instruction.decode

/-- What a step gives. -/
def outcome {ε σ α : Type} : EStateM.Result ε σ α → Except ε α
  | .ok a _ => .ok a
  | .error e _ => .error e

/-- Where a step leaves off. -/
def left {ε σ α : Type} : EStateM.Result ε σ α → σ
  | .ok _ s | .error _ s => s

/-- The calls one after the other, each from where the one before it has left off. -/
def runWith {ε σ : Type} (place : σ → Nat) (step : Call → EStateM ε σ Answer) : σ → List Call → List (Event ε)
  | _, [] => []
  | s, call :: calls =>
    let result := step call s
    ⟨call, place s, outcome result, place (left result)⟩ :: runWith place step (left result) calls

/-- The calls one after the other, each from where the one before it has left the cursor. -/
def run : Cursor → List Call → List (Event Fault) := runWith Cursor.pos Call.read

/-- What holds of a call on a stream of `size` words, in a run that starts at `first`. -/
structure Event.Safe (first size : Nat) (e : Event Fault) : Prop where
  first_le : first ≤ e.start
  le : e.start ≤ e.stop
  le_max : e.stop ≤ max first size
  /-- A word, a count or words to skip that are missing do not move the cursor. -/
  stays : e.call ≠ .decode → ∀ k, e.outcome = .error (.unexpectedEnd k) → e.stop = e.start
  /-- An instruction takes up a word at least. -/
  moves : e.call = .decode → ∀ answer, e.outcome = .ok answer → e.start < e.stop
  /-- An instruction that is cut short is cut short by the end of the stream. -/
  ends : e.call = .decode → e.start ≤ size → ∀ k, e.outcome = .error (.unexpectedEnd k) → k = size

end Cursor

/-! ### The end of the stream -/

namespace Reader

variable {α β : Type} {code : List Word} {p k : Nat} {c : Cursor}

/-- A step from a position in the stream that misses a word has its fault at the end of the stream. -/
def NamesEnd (step : Reader α) : Prop :=
  ∀ ⦃code p k c⦄, p ≤ code.length → step (.at code p) = .error (.unexpectedEnd k) c → k = code.length

/-- Where a word is missing the cursor stays, and stands at the end of the stream or behind it. -/
theorem operand_error {convert : Word → Except OperandFault α}
    (h : operand convert (.at code p) = .error (.unexpectedEnd k) c) :
    k = p ∧ c = .at code p ∧ code.length ≤ p := by
  cases hd : code.drop p with
  | nil =>
    have hend : operand convert (.at code p) = .error (.unexpectedEnd p) (.at code p) := by
      simp only [operand, bind, EStateM.bind, position, word, Cursor.at, hd]
    rw [hend] at h
    obtain ⟨hk, rfl⟩ := EStateM.Result.error.inj h
    exact ⟨(Fault.unexpectedEnd.inj hk).symm, rfl, List.drop_eq_nil_iff.mp hd⟩
  | cons w rest =>
    simp only [operand, bind, EStateM.bind, position, word_at_cons hd] at h
    cases hc : convert w <;> rw [hc] at h <;> cases h

theorem namesEnd_operand (convert : Word → Except OperandFault α) : NamesEnd (operand convert) := by
  intro code p k c hp h
  obtain ⟨rfl, -, hle⟩ := operand_error h
  exact Nat.le_antisymm hp hle

theorem skip_error {n : Nat} (h : skip n (.at code p) = .error (.unexpectedEnd k) c) :
    k = code.length ∧ c = .at code p := by
  unfold skip at h
  split_ifs at h
  obtain ⟨hk, rfl⟩ := EStateM.Result.error.inj h
  exact ⟨(Fault.unexpectedEnd.inj hk).symm, rfl⟩

theorem namesEnd_text : NamesEnd text := by
  intro code p k c hp h
  simp only [text, Cursor.at] at h
  cases hd : (code.drop p).drop ((code.drop p).takeWhile (· ≠ 0)).length with
  | cons w rest => rw [hd] at h; cases h
  | nil =>
    rw [hd] at h
    have hk := Fault.unexpectedEnd.inj (EStateM.Result.error.inj h).1
    have hle := List.drop_eq_nil_iff.mp hd
    have hge := (List.takeWhile_sublist (l := code.drop p) (· ≠ 0)).length_le
    rw [List.length_drop] at hle hge
    omega

theorem NamesEnd.bind {x : Reader α} {f : α → Reader β} (hforward : x.Forward) (hx : x.NamesEnd)
    (hf : ∀ a, (f a).NamesEnd) : (x >>= f).NamesEnd := by
  intro code p k c hp h
  have hfollows := hforward code p
  change EStateM.bind x f (.at code p) = _ at h
  unfold EStateM.bind at h
  cases hc : x (.at code p) with
  | error fault c' =>
    rw [hc] at h
    obtain ⟨rfl, -⟩ := EStateM.Result.error.inj h
    exact hx hp hc
  | ok a c' =>
    rw [hc] at h hfollows
    have hfollows : Follows code p c' := hfollows
    have hle : c'.pos ≤ code.length := by have := hfollows.le_max; omega
    rw [hfollows.here] at h
    exact hf a hle h

theorem namesEnd_operands (op : Opcode) : (Instruction.operands op).NamesEnd := by
  have h : Stepwise fun _ step => Forward step ∧ NamesEnd step :=
    { pure := fun a => ⟨forward_pure a, fun _ _ _ _ _ h => nomatch h⟩
      bind := fun hx hf => ⟨hx.1.bind fun a => (hf a).1, hx.2.bind hx.1 fun a => (hf a).2⟩
      word := ⟨forward_word, word_eq_operand ▸ namesEnd_operand _⟩
      skip := fun n => ⟨forward_skip n, fun _ _ _ _ _ h => (skip_error h).1⟩
      operand := fun convert => ⟨forward_operand convert, namesEnd_operand convert⟩
      text := ⟨forward_text, namesEnd_text⟩ }
  exact (stepwise_operands h op).2

/-- **An instruction that is cut short** is cut short by the end of the stream. -/
theorem namesEnd_decode : Instruction.decode.NamesEnd := by
  intro code p k c hp h
  rcases Nat.lt_or_eq_of_le hp with hlt | rfl
  · rw [decode_at_cons (List.drop_eq_getElem_cons hlt)] at h
    cases hop : Opcode.ofWord? code[p] with
    | none => rw [hop] at h; cases h
    | some op => rw [hop] at h; exact namesEnd_operands op hlt h
  · rw [decode_at_nil (Nat.le_refl _)] at h
    exact (Fault.unexpectedEnd.inj (EStateM.Result.error.inj h).1).symm

end Reader

/-! ### One call -/

namespace Cursor

variable {code : List Word} {p : Nat} {call : Call}

theorem map_eq_ok {α β : Type} {x : Reader α} {f : α → β} {b : β} {c c' : Cursor} :
    (f <$> x) c = .ok b c' ↔ ∃ a, x c = .ok a c' ∧ f a = b := by
  show EStateM.map f x c = _ ↔ _
  unfold EStateM.map
  cases x c <;> simp [and_comm]

theorem map_eq_error {α β : Type} {x : Reader α} {f : α → β} {fault : Fault} {c c' : Cursor} :
    (f <$> x) c = .error fault c' ↔ x c = .error fault c' := by
  show EStateM.map f x c = _ ↔ _
  unfold EStateM.map
  cases x c <;> simp

theorem Call.forward_read (call : Call) : call.read.Forward := by
  cases call with
  | word => exact forward_word.map _
  | count => exact (forward_operand _).map _
  | skip n => exact (forward_skip _).map _
  | decode => exact forward_decode.map _

theorem Call.follows_left (call : Call) (code : List Word) (p : Nat) :
    Follows code p (left (call.read (.at code p))) := by
  have h := call.forward_read code p
  cases hread : call.read (.at code p) <;> rw [hread] at h <;> exact h

theorem Call.read_stays (hcall : call ≠ .decode) {k : Nat} {c : Cursor}
    (h : call.read (.at code p) = .error (.unexpectedEnd k) c) : c = .at code p := by
  cases call with
  | word => exact (operand_error (word_eq_operand ▸ map_eq_error.mp h)).2.1
  | count => exact (operand_error (map_eq_error.mp h)).2.1
  | skip n => exact (skip_error (map_eq_error.mp h)).2
  | decode => exact absurd rfl hcall

/-- **A call is safe** from wherever the cursor has got to. -/
theorem Call.safe (call : Call) {first : Nat} (hfirst : first ≤ p) (hmax : p ≤ max first code.length) :
    Event.Safe first code.length
      ⟨call, p, outcome (call.read (.at code p)), (left (call.read (.at code p))).pos⟩ := by
  have hfollows := call.follows_left code p
  refine ⟨hfirst, hfollows.le, ?_, ?_, ?_, ?_⟩
  · exact hfollows.le_max.trans (Nat.max_le.mpr ⟨hmax, Nat.le_max_right _ _⟩)
  · intro hcall k h
    cases hread : call.read (.at code p) with
    | ok answer c => rw [hread] at h; cases h
    | error fault c =>
      rw [hread] at h
      obtain rfl : fault = .unexpectedEnd k := Except.error.inj h
      rw [call.read_stays hcall hread]
      rfl
  · rintro rfl answer h
    cases hread : Call.decode.read (.at code p) with
    | ok answer' c =>
      obtain ⟨i, hdecode, -⟩ := map_eq_ok.mp hread
      exact (decode_ok hdecode).1
    | error fault c => rw [hread] at h; cases h
  · rintro rfl hp k h
    cases hread : Call.decode.read (.at code p) with
    | ok answer c => rw [hread] at h; cases h
    | error fault c =>
      rw [hread] at h
      obtain rfl : fault = .unexpectedEnd k := Except.error.inj h
      exact namesEnd_decode hp (map_eq_error.mp hread)

/-- **Every call of a run is safe.** -/
theorem run_safe {first : Nat} : ∀ {calls : List Call} {p : Nat}, first ≤ p → p ≤ max first code.length →
    ∀ e ∈ (Cursor.at code p).run calls, e.Safe first code.length
  | [], _, _, _, _, he => nomatch he
  | call :: calls, p, hfirst, hmax, e, he => by
    have hsafe := call.safe hfirst hmax
    have hhere := (call.follows_left code p).here
    rcases List.mem_cons.mp he with rfl | he
    · exact hsafe
    · rw [hhere] at he
      exact run_safe (hfirst.trans hsafe.le) hsafe.le_max e he

end Cursor

/-! ### Positions of 64 bits -/

namespace Machine

open Cursor (Call Answer Event outcome left)

variable {stream : Stream}

/-- The step of a call. -/
def call (stream : Stream) : Call → Machine Answer
  | .word => Answer.word <$> word stream
  | .count => (fun n => Answer.count n.toNat) <$> count stream
  | .skip n => (fun _ => Answer.skipped) <$> skip stream n
  | .decode => Answer.instruction <$> decode stream

/-- The calls one after the other. -/
def run (stream : Stream) : UInt64 → List Call → List (Event Halt) :=
  Cursor.runWith UInt64.toNat (call stream)

/-- The event with its fault as a halt. -/
def halted (e : Event Fault) : Event Halt := { e with outcome := e.outcome.mapError .fault }

theorem tracks_call (c : Call) : Tracks stream Eq (call stream c) c.read := by
  cases c with
  | word => exact tracks_word.map fun _ _ h => congrArg Answer.word h
  | count => exact tracks_count.map fun _ _ h => congrArg Answer.count h.1
  | skip n => exact (tracks_skip rfl).map fun _ _ _ => rfl
  | decode => exact tracks_decode.map fun _ _ h => congrArg Answer.instruction h

/-- **A run goes as with positions of any size.** -/
theorem run_eq : ∀ (calls : List Call) (pos : UInt64),
    run stream pos calls = ((Cursor.at stream.words pos.toNat).run calls).map halted
  | [], _ => rfl
  | c :: calls, pos => by
    have h : Agrees stream Eq (call stream c pos) (c.read (.at stream.words pos.toNat)) := tracks_call c pos
    show (⟨c, pos.toNat, outcome (call stream c pos), (left (call stream c pos)).toNat⟩ : Event Halt) ::
        run stream (left (call stream c pos)) calls =
      halted ⟨c, pos.toNat, outcome (c.read (.at stream.words pos.toNat)),
        (left (c.read (.at stream.words pos.toNat))).pos⟩ ::
          ((left (c.read (.at stream.words pos.toNat))).run calls).map halted
    generalize call stream c pos = x, c.read (.at stream.words pos.toNat) = y at h
    cases h with
    | ok results stop =>
      subst results
      exact congrArg _ (run_eq calls stop)
    | error fault stop => exact congrArg _ (run_eq calls stop)

/-- **A cursor is safe in any run.** For every stream, every start and every sequence of calls, which go on after
faults: with positions of 64 bits the run is the one with positions of any size, so no number leaves 64 bits and
no word is taken from outside of the stream; no call moves the cursor back or behind the larger of the start
and the end of the stream; a word, a count or words to skip that are missing leave it where it is; a decoded
instruction moves it; and an instruction that misses a word names the end of the stream. -/
theorem cursor_safe (stream : Stream) (start : UInt64) (calls : List Call) :
    run stream start calls = ((Cursor.at stream.words start.toNat).run calls).map halted ∧
      (∀ e ∈ run stream start calls, e.outcome ≠ .error .overflow ∧ e.outcome ≠ .error .outside) ∧
      ∀ e ∈ (Cursor.at stream.words start.toNat).run calls, e.Safe start.toNat stream.words.length := by
  have hrun : run stream start calls = _ := run_eq calls start
  refine ⟨hrun, fun e he => ?_, Cursor.run_safe (Nat.le_refl _) (Nat.le_max_left _ _)⟩
  rw [hrun] at he
  obtain ⟨⟨call, start, outcome, stop⟩, -, rfl⟩ := List.mem_map.mp he
  cases outcome with
  | ok answer => exact ⟨nofun, nofun⟩
  | error fault => exact ⟨nofun, nofun⟩

/-- A call that misses one of its two types leaves the cursor behind the others; the type there is read as an
instruction next, and misses its operand. -/
example : (Cursor.at [19, 2, 0, 40, 1, 5] 0).run [.decode, .decode, .skip 18446744073709551615] =
    [⟨.decode, 0, .error (.unexpectedEnd 6), 5⟩, ⟨.decode, 5, .error (.unexpectedEnd 6), 6⟩,
      ⟨.skip 18446744073709551615, 6, .error (.unexpectedEnd 6), 6⟩] := rfl

end Machine

end Wordcode
