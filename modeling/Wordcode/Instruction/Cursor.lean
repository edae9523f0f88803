import Wordcode.Fault
import Wordcode.Opcode

/-! # Reading words

A cursor stands in a stream of words and is moved by reading. A reading step either moves on with a
result or stops with a fault; the cursor then stays where the step had got to, and can be used
further. Steps look only at the words ahead: their position enters faults and nothing else. -/

namespace Wordcode

/-- A position in a stream. -/
structure Cursor where
  /-- The words from the position on. -/
  ahead : List Word
  /-- The number of words before the position. -/
  pos : Nat
  /-- The number of words of the stream. -/
  size : Nat
  deriving DecidableEq, Repr

/-- The cursor at an offset of a stream, which may lie past its end. -/
def Cursor.at (code : List Word) (offset : Nat) : Cursor :=
  ⟨code.drop offset, offset, code.length⟩

/-- Whether no word is left. -/
def Cursor.isAtEnd (c : Cursor) : Bool := c.size ≤ c.pos

/-- A step that reads words. -/
abbrev Reader := EStateM Fault Cursor

namespace Reader

/-- The position of the cursor. -/
def position : Reader Nat := fun c => .ok c.pos c

/-- The next word. -/
def word : Reader Word := fun c =>
  match c.ahead with
  | [] => .error (.unexpectedEnd c.pos) c
  | w :: rest => .ok w { c with ahead := rest, pos := c.pos + 1 }

/-- Moves over `n` words, or not at all if there are fewer. -/
def skip (n : Nat) : Reader Unit := fun c =>
  if c.pos + n ≤ c.size then .ok () { c with ahead := c.ahead.drop n, pos := c.pos + n }
  else .error (.unexpectedEnd c.size) c

/-- The next word, which `convert` accepts or turns down with a cause. The fault is at the word. -/
def operand {α : Type} (convert : Word → Except OperandFault α) : Reader α := do
  let offset ← position
  let w ← word
  match convert w with
  | .ok a => pure a
  | .error cause => throw (.invalidOperand offset cause)

/-- A word that is not negative, as a number. -/
def count : Reader Nat :=
  operand fun w => (w.toCount?).elim (.error (.negativeCount w)) .ok

/-- A word that is an index into a table. -/
def index (table : Table) : Reader (Index table) :=
  operand fun w => (Index.ofWord? w).elim (.error (.negativeIndex table w)) .ok

/-- A word that is an l-value operation. -/
def lvalOp : Reader LvalOp :=
  operand fun w => (LvalOp.ofWord? w).elim (.error (.unknownLvalOp w)) .ok

/-- The step `n` times, with the results in order. -/
def times {α : Type} (step : Reader α) : Nat → Reader (List α)
  | 0 => pure []
  | n + 1 => do
    let a ← step
    let rest ← times step n
    pure (a :: rest)

/-- A count, then the step as many times. -/
def counted {α : Type} (step : Reader α) : Reader (List α) := do times step (← count)

/-- The characters up to a zero word, which is read too. -/
def text : Reader String := fun c =>
  let chars := c.ahead.takeWhile (· ≠ 0)
  match c.ahead.drop chars.length with
  | [] => .error (.unexpectedEnd (c.pos + chars.length))
      { c with ahead := [], pos := c.pos + chars.length }
  | _ :: rest => .ok (.ofList (chars.map (·.toChar)))
      { c with ahead := rest, pos := c.pos + chars.length + 1 }

end Reader

end Wordcode
