import Wordcode.Instruction.Decode
import Wordcode.Module.Basic
import Wordcode.Module.Payload
import Wordcode.NativeRegistry

/-! # Verifying modules

Verification checks the tables in the order types, identifiers, lines, then walks the code, and
reports the first fault. Native functions are checked only against a given registry. What needs a
table entry later, such as a listing, can rely on it in a verified module. -/

namespace Wordcode

namespace Module

/-- Whether a type index is in the type table. -/
def hasType (m : Module) (i : TypeIndex) : Bool := i.toNat < m.types.size

/-- What is wrong with a type descriptor. -/
def descriptorFault? (m : Module) : TypeDescriptor → Option TypeFault
  | .scalar kind =>
    if kind = .vector ∨ kind = .struct then some (.aggregateScalar kind) else none
  | .vector element => if m.hasType element then none else some (.elementOutOfRange element)
  | .struct id fields =>
    match id.entry? m.structs with
    | none => some (.structOutOfRange id)
    | some info =>
      if info.fields.length ≠ fields.length then
        some (.fieldCount info.name info.fields.length fields.length)
      else (fields.find? (!m.hasType ·)).map .fieldOutOfRange

/-- The first fault of the type table. -/
def typesFault? (m : Module) : Option Fault :=
  m.types.indexed.findSome? fun (i, descriptor) =>
    (m.descriptorFault? descriptor).map (.invalidType i)

/-- Whether the entries that a specialized identifier names exist. -/
def resolves (m : Module) (spec : SpecIdent) : Bool :=
  spec.ident.toNat < m.idents.size && m.hasType spec.type

/-- The first specialized identifier that does not resolve. -/
def identsFault? (m : Module) : Option Fault :=
  m.specIdents.toList.zipIdx.findSome? fun (spec, i) =>
    if m.resolves spec then none else some (.invalidType spec.type (.danglingSpecIdent i))

/-- The first line entry of a missing file, unless the module names no files at all. -/
def linesFault? (m : Module) : Option Fault :=
  if m.files.isEmpty then none
  else (m.lines.entries.toList.find? (m.files.size ≤ ·.file.toNat)).map fun info =>
    .invalidLineTable (.unknownFile info.start.toNat info.file)

/-- The first of these specialized identifiers that is not in the table. -/
def missingIdent? (m : Module) (specs : List SpecIdentIndex) : Option OperandFault :=
  (specs.find? (m.specIdents.size ≤ ·.toNat)).map fun spec => .outOfRange .specIdent spec.toNat

/-- What is wrong with the operands of an instruction. -/
def operandFault? (m : Module) (natives : Option NativeRegistry) :
    Instruction → Option OperandFault
  | .ret function _ _ =>
    match function.toCount? with
    | none => none
    | some f => if f < m.functions.size then none else some (.outOfRange .function f)
  | .call _ _ function _ _ =>
    if function.toNat < m.functions.size then none
    else some (.outOfRange .function function.toNat)
  | .newVector type count =>
    match m.types.get? type with
    | none => some (.outOfRange .type type.toNat)
    | some descriptor =>
      if descriptor.isAggregate ∧ 0 ≤ count then none
      else some (.notConstructible descriptor.kind count)
  | .callNative native =>
    match natives with
    | none => none
    | some registry =>
      if native.toNat < registry.size then none else some (.notRegistered native)
  | .ident _ _ spec => m.missingIdent? [spec]
  | .prologue params returns _ => m.missingIdent? (params ++ returns)
  | _ => none

/-- Checks a decoded instruction. -/
def checkOperands (m : Module) (natives : Option NativeRegistry) (located : Located) :
    Except Fault Unit :=
  match m.operandFault? natives located.instruction with
  | none => .ok ()
  | some cause => .error (.invalidOperand located.start cause)

/-- The first fault of the code. -/
def codeFault? (m : Module) (natives : Option NativeRegistry) : Option Fault :=
  match (Walk.ofCode m.code 0).visit (m.checkOperands natives) with
  | .ok _ => none
  | .error fault => some fault

/-- The first fault of a module. -/
def fault? (m : Module) (natives : Option NativeRegistry) : Option Fault :=
  m.typesFault? <|> m.identsFault? <|> m.linesFault? <|> m.codeFault? natives

/-- Verifies a module. -/
def verify (m : Module) (natives : Option NativeRegistry) : Except Fault Unit :=
  match m.fault? natives with
  | none => .ok ()
  | some fault => .error fault

end Module

/-- Reads a payload and verifies its module. -/
def verifyPayload (natives : Option NativeRegistry) (payload : Bytes) : Except Fault Unit := do
  (← Module.ofPayload payload).verify natives

end Wordcode
