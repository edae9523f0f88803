import Wordcode.Index
import Wordcode.Opcode
import Wordcode.Number.Single

/-! # Instructions

An instruction is an opcode with its operands, one constructor per shape. -/

namespace Wordcode

/-- One instruction. -/
inductive Instruction
  /-- An opcode without operands. -/
  | plain (op : Opcode)
  /-- An opcode with one number: a literal, a jump target, a loop, a type test. -/
  | immediate (op : Opcode) (value : Word)
  /-- The end of a call; a negative `function` marks code outside every function. -/
  | ret (function count type : Word)
  /-- The call of a function value. -/
  | callValue (op : Opcode) (argc method : Word)
  /-- The call of a function of the table. -/
  | call (op : Opcode) (argc : Nat) (function : FunctionIndex) (target typeMask : Word)
  /-- The construction of a vector or struct from the top of the stack. -/
  | newVector (type : TypeIndex) (count : Word)
  /-- The call of a native function. -/
  | callNative (native : NativeIndex)
  /-- The use of a variable, with an l-value operation if it is assigned. -/
  | ident (op : Opcode) (lval : Option LvalOp) (spec : SpecIdentIndex)
  /-- The use of a field or local slot, with an l-value operation if it is assigned. -/
  | slot (op : Opcode) (lval : Option LvalOp) (slot : Word)
  /-- The assignment of a vector element. -/
  | element (op : Opcode) (lval : LvalOp)
  /-- A float literal. -/
  | float (value : Single)
  /-- A string literal. -/
  | text (value : String)
  /-- The start of a function: its parameters, the variables of its results, and the length of its
  replay log. -/
  | prologue (params returns : List SpecIdentIndex) (logLength : Word)
  /-- The creation of a coroutine from the locals it takes along. -/
  | coroutine (target : Word) (locals : List Word)
  /-- A table that selects one of several overloads. -/
  | dispatch (overloads argc : Nat)
  deriving DecidableEq, Repr

/-- The opcode of an instruction. -/
def Instruction.opcode : Instruction → Opcode
  | plain op | immediate op _ | callValue op .. | call op .. | ident op .. | slot op ..
  | element op _ => op
  | ret .. => .ret
  | newVector .. => .newVec
  | callNative _ => .bCall
  | float _ => .pushFlt
  | text _ => .pushStr
  | prologue .. => .funStart
  | coroutine .. => .coro
  | dispatch .. => .funMulti

end Wordcode
