import Wordcode.Instruction.Basic
import Wordcode.Instruction.Cursor

/-! # Decoding

Nothing in a stream says where an instruction ends: the opcode decides what follows, and the operands
how much of it. `Instruction.decode` reads the instruction under the cursor, `Walk.ofCode` all
instructions of a stream up to its end or the first fault. -/

namespace Wordcode

open Reader in
/-- The operands of an instruction with this opcode. -/
def Instruction.operands (op : Opcode) : Reader Instruction := do
  match op.shape with
  | .plain => pure (.plain op)
  | .immediate => pure (.immediate op (← word))
  | .ret => pure (.ret (← word) (← word) (← word))
  | .callValue => pure (.callValue op (← word) (← word))
  | .call listed =>
    let argc ← count
    let function ← index .function
    let target ← word
    let typeMask ← word
    if listed then skip argc
    pure (.call op argc function target typeMask)
  | .newVector => pure (.newVector (← index .type) (← word))
  | .callNative => pure (.callNative (← index .native))
  | .ident assigns =>
    let lval ← if assigns then some <$> lvalOp else pure none
    pure (.ident op lval (← index .specIdent))
  | .slot assigns =>
    let lval ← if assigns then some <$> lvalOp else pure none
    pure (.slot op lval (← word))
  | .element => pure (.element op (← lvalOp))
  | .float => pure (.float ⟨(← word).toUInt32⟩)
  | .text => pure (.text (← Reader.text))
  | .prologue =>
    let params ← counted (index .specIdent)
    let returns ← counted (index .specIdent)
    pure (.prologue params returns (← word))
  | .coroutine =>
    let target ← word
    skip 1
    pure (.coroutine target (← counted word))
  | .dispatch =>
    let overloads ← count
    let argc ← count
    skip ((2 * argc + 1) * overloads)
    pure (.dispatch overloads argc)

/-- Reads the instruction under the cursor. -/
def Instruction.decode : Reader Instruction := do
  let offset ← Reader.position
  let word ← Reader.word
  match Opcode.ofWord? word with
  | none => throw (.invalidOpcode word offset)
  | some op => operands op

/-- An instruction and the offsets where it starts and where the next one does. -/
structure Located where
  start : Nat
  instruction : Instruction
  next : Nat
  deriving DecidableEq, Repr

/-- How the walk over a stream ends. -/
inductive Walk.Ending
  /-- Every word was read. -/
  | finished (offset : Nat)
  /-- The instruction at `start` cannot be decoded; reading it stopped at `stopped`. -/
  | stuck (start : Nat) (fault : Fault) (stopped : Nat)
  deriving DecidableEq, Repr

/-- The instructions of a stream, each starting where the one before it ends. -/
structure Walk where
  instructions : List Located
  ending : Walk.Ending
  deriving DecidableEq, Repr

namespace Walk

/-- The walk from a cursor over at most `bound` instructions; each takes up one word at least. -/
def within : Nat → Cursor → Walk
  | 0, c => ⟨[], .finished c.pos⟩
  | bound + 1, c =>
    if c.isAtEnd then ⟨[], .finished c.pos⟩
    else
      match Instruction.decode c with
      | .error fault c' => ⟨[], .stuck c.pos fault c'.pos⟩
      | .ok instruction c' =>
        let rest := within bound c'
        ⟨⟨c.pos, instruction, c'.pos⟩ :: rest.instructions, rest.ending⟩

/-- The walk from an offset to the end of the stream. -/
def ofCode (code : List Word) (start : Nat) : Walk := within code.length (.at code start)

/-- The fault the walk ends with, if any. -/
def fault? (walk : Walk) : Option Fault :=
  match walk.ending with
  | .finished _ => none
  | .stuck _ fault _ => some fault

/-- Visits the instructions in order and then raises the fault the walk ended with. -/
def visit {α : Type} (walk : Walk) (f : Located → Except Fault α) : Except Fault (List α) := do
  let results ← walk.instructions.mapM f
  match walk.fault? with
  | none => pure results
  | some fault => throw fault

end Walk

end Wordcode
