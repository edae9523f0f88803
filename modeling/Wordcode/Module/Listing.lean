import Wordcode.Instruction.Decode
import Wordcode.Module.Basic
import Wordcode.NativeRegistry
import Wordcode.Text.Quoted

/-! # Listings

A listing shows each instruction on one line: its offset, its source line, its mnemonic and its
operands. Indices are shown as the names they stand for, so a listing needs the tables; an index
without a name is a fault at its instruction. -/

namespace Wordcode

namespace Module

/-- The name that an operand stands for. -/
def nameAt (offset : Nat) (cause : OperandFault) (name? : Option String) : Except Fault String :=
  match name? with
  | some name => .ok name
  | none => .error (.invalidOperand offset cause)

/-- The name of a function. -/
def functionName (m : Module) (offset : Nat) (f : FunctionIndex) : Except Fault String :=
  nameAt offset (.outOfRange .function f.toNat) ((f.entry? m.functions).map (·.name))

/-- The name of a specialized identifier. -/
def identName (m : Module) (offset : Nat) (i : SpecIdentIndex) : Except Fault String :=
  nameAt offset (.outOfRange .specIdent i.toNat) (m.identName? i)

/-- What a construction makes: a struct by its name, or a vector. -/
def constructedName (m : Module) (offset : Nat) (i : TypeIndex) : Except Fault String :=
  match m.types.get? i with
  | some (.struct id _) =>
    nameAt offset (.outOfRange .struct id.toNat) ((id.entry? m.structs).map (·.name))
  | some _ => .ok "vector"
  | none => .error (.invalidOperand offset (.outOfRange .type i.toNat))

/-- An l-value operation in front of another operand. -/
def lvalText : Option LvalOp → String
  | none => ""
  | some op => op.mnemonic ++ " "

/-- The operands of an instruction. -/
def operandsText (m : Module) (natives : NativeRegistry) (offset : Nat) :
    Instruction → Except Fault String
  | .plain _ => .ok ""
  | .immediate _ value => .ok value.text
  | .ret function _ _ =>
    match Index.ofWord? function with
    | some f => m.functionName offset f
    | none => .ok function.text
  | .callValue _ argc method => .ok s!"{argc.text} m:{method.text}"
  | .call _ argc function target typeMask => do
    let name ← m.functionName offset function
    pure s!"{argc} {name} {target.text} m:{typeMask.text}"
  | .newVector type count => do
    let name ← m.constructedName offset type
    pure s!"{name} {count.text}"
  | .callNative native => nameAt offset (.notRegistered native) (natives.name? native)
  | .ident _ lval spec => do
    let name ← m.identName offset spec
    pure (lvalText lval ++ name)
  | .slot _ lval slot => .ok (lvalText lval ++ slot.text)
  | .element _ lval => .ok (lvalText (some lval))
  | .float value => .ok value.toFixed
  | .text value => .ok (Text.quoted value)
  | .prologue params returns logLength => do
    let params ← params.mapM (m.identName offset)
    let returns ← returns.mapM (m.identName offset)
    let log := if logLength = 0 then "" else s!"(log = {logLength.text})"
    pure (String.join (params.map (· ++ " ")) ++ "=> " ++
      String.join (returns.map (· ++ " ")) ++ log)
  | .coroutine target locals =>
    .ok (target.text ++ String.join (locals.map fun v => " v" ++ v.text))
  | .dispatch overloads argc => .ok s!"{overloads} {argc}"

/-- The line of an instruction. -/
def listingLine (m : Module) (natives : NativeRegistry) (located : Located) :
    Except Fault String := do
  let operands ← m.operandsText natives located.start located.instruction
  let mnemonic := located.instruction.opcode.mnemonic
  pure s!"I {located.start} \tL {m.lines.lineAt located.start} \t{mnemonic} {operands}"

/-- The line of the instruction at an offset and the offset of the next one. -/
def listingAt (m : Module) (natives : NativeRegistry) (offset : Nat) :
    Except Fault (String × Nat) :=
  match Instruction.decode (.at m.code offset) with
  | .error fault _ => .error fault
  | .ok instruction c => do
    let line ← m.listingLine natives ⟨offset, instruction, c.pos⟩
    pure (line, c.pos)

/-- The listing of a module: the lines of its instructions in order, each ended by a line feed. -/
def listing (m : Module) (natives : NativeRegistry) : Except Fault String := do
  let lines ← (Walk.ofCode m.code 0).visit (m.listingLine natives)
  pure (String.join (lines.map (· ++ "\n")))

end Module

end Wordcode
