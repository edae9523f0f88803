import Wordcode.LineTable

/-! # Modules

A module is a stream of words with the tables that its instructions refer to. Identifiers are named
in two steps: an instruction names a specialized identifier, which is an identifier at a type. -/

namespace Wordcode

/-- A named variable. -/
structure Ident where
  name : String
  isGlobal : Bool
  isReadonly : Bool
  deriving DecidableEq, Repr

/-- An identifier at a type. -/
structure SpecIdent where
  ident : IdentIndex
  type : TypeIndex
  deriving DecidableEq, Repr

/-- A function and the offset where its code starts. -/
structure FunctionInfo where
  name : String
  start : UInt32
  deriving DecidableEq, Repr

/-- A stream of words with its tables. -/
structure Module where
  code : List Word
  lines : LineTable
  files : Array String
  idents : Array Ident
  specIdents : Array SpecIdent
  functions : Array FunctionInfo
  structs : Array StructInfo
  types : TypeTable
  deriving DecidableEq

namespace Module

/-- The name of a specialized identifier. -/
def identName? (m : Module) (i : SpecIdentIndex) : Option String := do
  let spec ← i.entry? m.specIdents
  let ident ← spec.ident.entry? m.idents
  some ident.name

/-- The file of a line entry. -/
def fileName? (m : Module) (info : LineInfo) : Option String := info.file.entry? m.files

/-- The types and structs of a module. -/
def typeContext (m : Module) : TypeContext := ⟨m.types, m.structs⟩

end Module

end Wordcode
