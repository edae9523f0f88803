import Wordcode.Module.Basic

/-! # Building modules

A builder collects words and table entries; each entry's index is its position at the time it was
added. `emitAt` says which line the words from here on belong to: a second line at the same offset
replaces the first, a line that continues the one before it is not noted. The built module has a line
entry for offset zero, if need be one of line zero. -/

namespace Wordcode

/-- A module under construction. -/
structure Builder where
  code : Array Word
  /-- The line entries, the latest one first. -/
  lines : List LineInfo
  currentFile : FileIndex
  files : Array String
  idents : Array Ident
  specIdents : Array SpecIdent
  functions : Array FunctionInfo
  structs : Array StructInfo
  types : TypeTable

namespace Builder

/-- A builder without words, over the built-in types. -/
def empty : Builder where
  code := #[]
  lines := []
  currentFile := .ofNat 0
  files := #[]
  idents := #[]
  specIdents := #[]
  functions := #[]
  structs := #[]
  types := .builtins

/-- Replaces the type table. -/
def setTypes (b : Builder) (types : TypeTable) : Builder := { b with types }

/-- Adds a type. -/
def addType (b : Builder) (descriptor : TypeDescriptor) : TypeIndex × Builder :=
  (b.types.nextIndex, { b with types := b.types.push descriptor })

/-- Adds a file, which is the current one from here on. -/
def addFile (b : Builder) (name : String) : FileIndex × Builder :=
  let file := .ofNat b.files.size
  (file, { b with files := b.files.push name, currentFile := file })

/-- Adds an identifier. -/
def addIdent (b : Builder) (ident : Ident) : IdentIndex × Builder :=
  (.ofNat b.idents.size, { b with idents := b.idents.push ident })

/-- Adds a specialized identifier. -/
def addSpecIdent (b : Builder) (spec : SpecIdent) : SpecIdentIndex × Builder :=
  (.ofNat b.specIdents.size, { b with specIdents := b.specIdents.push spec })

/-- Adds an identifier and its specialization to one type. -/
def addVariable (b : Builder) (ident : Ident) (type : TypeIndex) : SpecIdentIndex × Builder :=
  let (i, b) := b.addIdent ident
  b.addSpecIdent ⟨i, type⟩

/-- Adds a function. -/
def addFunction (b : Builder) (info : FunctionInfo) : FunctionIndex × Builder :=
  (.ofNat b.functions.size, { b with functions := b.functions.push info })

/-- Adds a struct. -/
def addStruct (b : Builder) (info : StructInfo) : StructIndex × Builder :=
  (.ofNat b.structs.size, { b with structs := b.structs.push info })

/-- The offset of the next word. -/
def offset (b : Builder) : Nat := b.code.size

/-- Appends words. -/
def emit (b : Builder) (words : List Word) : Builder := { b with code := b.code ++ words }

/-- The line entries with one for what follows. -/
def noteLine (lines : List LineInfo) (info : LineInfo) : List LineInfo :=
  match lines with
  | [] => [info]
  | last :: earlier =>
    if last.start = info.start then info :: earlier
    else if last.line = info.line ∧ last.file = info.file then lines
    else info :: lines

/-- Appends words of a line of the current file. -/
def emitAt (b : Builder) (line : UInt32) (words : List Word) : Builder :=
  { b with lines := noteLine b.lines ⟨.ofNat b.offset, line, b.currentFile⟩ }.emit words

/-- The line entries from the first to the last, starting with one for offset zero. -/
def lineEntries (b : Builder) : List LineInfo :=
  match b.lines.reverse with
  | [] => [⟨0, 0, .ofNat 0⟩]
  | first :: rest =>
    if first.start = 0 then first :: rest else ⟨0, 0, .ofNat 0⟩ :: first :: rest

/-- The module built so far. -/
def build (b : Builder) : Except Fault Module := do
  let lines ← (LineTable.ofEntries b.lineEntries).mapError .invalidLineTable
  pure {
    code := b.code.toList
    lines
    files := b.files
    idents := b.idents
    specIdents := b.specIdents
    functions := b.functions
    structs := b.structs
    types := b.types }

end Builder

end Wordcode
