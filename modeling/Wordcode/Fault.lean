import Wordcode.TypeTable

/-! # Faults

Everything that can be wrong with a module: with its code, its line table, its type table or the
payload that holds it. A fault names the cause; its wording is `Fault.message`. Offsets count words
from the start of the stream. -/

namespace Wordcode

/-- What is wrong with an operand. -/
inductive OperandFault
  | negativeCount (word : Word)
  | negativeIndex (table : Table) (word : Word)
  | unknownLvalOp (word : Word)
  | outOfRange (table : Table) (index : Nat)
  | notRegistered (native : NativeIndex)
  | notConstructible (kind : TypeKind) (count : Word)
  deriving DecidableEq, Repr

/-- The wording of an operand fault. -/
def OperandFault.message : OperandFault → String
  | negativeCount word => s!"negative count {word.text}"
  | negativeIndex table word => s!"negative {table.noun} index {word.text}"
  | unknownLvalOp word => s!"unknown lvalue op {word.text}"
  | outOfRange table index => s!"{table.noun} {index} out of range"
  | notRegistered native => s!"native {native} not registered"
  | notConstructible kind count => s!"cannot construct {kind} with {count.text} elements"

/-- What is wrong with a line table. -/
inductive LineTableFault
  | empty
  | lateStart (start : Nat)
  | notIncreasing (start next : Nat)
  | unknownFile (start : Nat) (file : FileIndex)
  deriving DecidableEq, Repr

/-- The wording of a line table fault. -/
def LineTableFault.message : LineTableFault → String
  | empty => "table is empty"
  | lateStart start => s!"first entry starts at {start}, not 0"
  | notIncreasing start next => s!"offset {next} does not increase past {start}"
  | unknownFile start file => s!"entry at {start} names file {file}"

/-- What is wrong with an entry of the type table, or with the use of one. -/
inductive TypeFault
  | aggregateScalar (kind : TypeKind)
  | elementOutOfRange (element : TypeIndex)
  | structOutOfRange (id : StructIndex)
  | fieldCount (name : String) (declared described : Nat)
  | fieldOutOfRange (field : TypeIndex)
  | danglingSpecIdent (position : Nat)
  deriving DecidableEq, Repr

/-- The wording of a type fault. -/
def TypeFault.message : TypeFault → String
  | aggregateScalar kind => s!"{kind} cannot be a scalar"
  | elementOutOfRange element => s!"element type {element} out of range"
  | structOutOfRange id => s!"struct {id} out of range"
  | fieldCount name declared described =>
    s!"struct {name} has {declared} fields, descriptor has {described}"
  | fieldOutOfRange field => s!"field type {field} out of range"
  | danglingSpecIdent position =>
    s!"specialized identifier {position} references a missing entry"

/-- What is wrong with a module. -/
inductive Fault
  | invalidOpcode (word : Word) (offset : Nat)
  | invalidOperand (offset : Nat) (cause : OperandFault)
  | unexpectedEnd (offset : Nat)
  | invalidLineTable (cause : LineTableFault)
  | invalidType (index : TypeIndex) (cause : TypeFault)
  | malformedPayload
  deriving DecidableEq, Repr

/-- The wording of a fault; that of its cause comes last. -/
def Fault.message : Fault → String
  | invalidOpcode word offset => s!"Invalid opcode {word.text} at offset {offset}"
  | invalidOperand offset cause => s!"Invalid operand at offset {offset}: {cause.message}"
  | unexpectedEnd offset => s!"Unexpected end of bytecode at offset {offset}"
  | invalidLineTable cause => s!"Invalid line table: {cause.message}"
  | invalidType index cause => s!"Invalid type table entry {index}: {cause.message}"
  | malformedPayload => "Malformed module payload"

end Wordcode
