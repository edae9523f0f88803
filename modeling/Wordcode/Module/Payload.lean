import Wordcode.Json.Field
import Wordcode.Json.Text
import Wordcode.Module.Basic

/-! # Payloads

The payload of a module is a JSON document with one field per table. Every table entry and index has
one written form; reading accepts all forms of `Json.record?` and checks the line table. -/

namespace Wordcode

/-! ### Numbers, indices and lists -/

/-- The written form of a word. -/
def Word.toJson (word : Word) : Json := .integer word.toInt

/-- The written form of a number of 32 bits. -/
def jsonOfUInt32 (n : UInt32) : Json := .integer n.toNat

/-- The written form of an index. -/
def Index.toJson {table : Table} (i : Index table) : Json := jsonOfUInt32 i.val

/-- The index written as a number. -/
def Index.ofJson? {table : Table} (j : Json) : Option (Index table) := j.uint32?.map .mk

/-- The written form of a table. -/
def jsonOfList {α : Type} (toJson : α → Json) (entries : List α) : Json :=
  .array (entries.map toJson)

/-! ### Table entries -/

/-- The written form of a line entry. -/
def LineInfo.toJson (info : LineInfo) : Json :=
  .ofMembers [("bytecode_start", jsonOfUInt32 info.start), ("line", jsonOfUInt32 info.line),
    ("file", info.file.toJson)]

/-- The line entry of a document. -/
def LineInfo.ofJson? (j : Json) : Option LineInfo := do
  match ← j.record? ["bytecode_start", "line", "file"] with
  | [start, line, file] =>
    some ⟨← start.uint32?, ← line.uint32?, ← Index.ofJson? file⟩
  | _ => none

/-- The written form of a line table. -/
def LineTable.toJson (table : LineTable) : Json :=
  jsonOfList LineInfo.toJson table.entries.toList

/-- The line table of a document. -/
def LineTable.ofJson? (j : Json) : Option LineTable := do
  (LineTable.ofEntries (← j.list? LineInfo.ofJson?)).toOption

/-- The written form of an identifier. -/
def Ident.toJson (ident : Ident) : Json :=
  .ofMembers [("name", .ofText ident.name), ("global", .bool ident.isGlobal),
    ("readonly", .bool ident.isReadonly)]

/-- The identifier of a document. -/
def Ident.ofJson? (j : Json) : Option Ident := do
  match ← j.record? ["name", "global", "readonly"] with
  | [name, isGlobal, isReadonly] =>
    some ⟨← name.text?, ← isGlobal.bool?, ← isReadonly.bool?⟩
  | _ => none

/-- The written form of a specialized identifier. -/
def SpecIdent.toJson (spec : SpecIdent) : Json :=
  .ofMembers [("ident", spec.ident.toJson), ("ty", spec.type.toJson)]

/-- The specialized identifier of a document. -/
def SpecIdent.ofJson? (j : Json) : Option SpecIdent := do
  match ← j.record? ["ident", "ty"] with
  | [ident, type] => some ⟨← Index.ofJson? ident, ← Index.ofJson? type⟩
  | _ => none

/-- The written form of a function. -/
def FunctionInfo.toJson (info : FunctionInfo) : Json :=
  .ofMembers [("name", .ofText info.name), ("bytecode_start", jsonOfUInt32 info.start)]

/-- The function of a document. -/
def FunctionInfo.ofJson? (j : Json) : Option FunctionInfo := do
  match ← j.record? ["name", "bytecode_start"] with
  | [name, start] => some ⟨← name.text?, ← start.uint32?⟩
  | _ => none

/-- The written form of a struct. -/
def StructInfo.toJson (info : StructInfo) : Json :=
  .ofMembers [("name", .ofText info.name), ("fields", jsonOfList .ofText info.fields)]

/-- The struct of a document. -/
def StructInfo.ofJson? (j : Json) : Option StructInfo := do
  match ← j.record? ["name", "fields"] with
  | [name, fields] => some ⟨← name.text?, ← fields.list? Json.text?⟩
  | _ => none

/-- The written form of a type descriptor. -/
def TypeDescriptor.toJson : TypeDescriptor → Json
  | scalar kind => .ofMembers [("Scalar", .ofText kind.name)]
  | vector element => .ofMembers [("Vector", .ofMembers [("element", element.toJson)])]
  | struct id fields =>
    .ofMembers [("Struct", .ofMembers
      [("struct_id", id.toJson), ("fields", jsonOfList Index.toJson fields)])]

/-- The type descriptor of a document. -/
def TypeDescriptor.ofJson? (j : Json) : Option TypeDescriptor := do
  match ← j.choice? with
  | ("Scalar", contents) => some (.scalar (← TypeKind.ofName? (← contents.plainChoice?)))
  | ("Vector", contents) =>
    match ← contents.record? ["element"] with
    | [element] => some (.vector (← Index.ofJson? element))
    | _ => none
  | ("Struct", contents) =>
    match ← contents.record? ["struct_id", "fields"] with
    | [id, fields] => some (.struct (← Index.ofJson? id) (← fields.list? Index.ofJson?))
    | _ => none
  | _ => none

/-- The written form of a type table. -/
def TypeTable.toJson (types : TypeTable) : Json :=
  .ofMembers [("entries", jsonOfList TypeDescriptor.toJson types.entries.toList)]

/-- The type table of a document. -/
def TypeTable.ofJson? (j : Json) : Option TypeTable := do
  match ← j.record? ["entries"] with
  | [entries] => some ⟨(← entries.list? TypeDescriptor.ofJson?).toArray⟩
  | _ => none

/-! ### Modules -/

namespace Module

/-- The written form of a module. -/
def toJson (m : Module) : Json :=
  .ofMembers [
    ("instructions", jsonOfList Word.toJson m.code),
    ("line_table", m.lines.toJson),
    ("filenames", jsonOfList .ofText m.files.toList),
    ("idents", jsonOfList Ident.toJson m.idents.toList),
    ("spec_idents", jsonOfList SpecIdent.toJson m.specIdents.toList),
    ("functions", jsonOfList FunctionInfo.toJson m.functions.toList),
    ("structs", jsonOfList StructInfo.toJson m.structs.toList),
    ("types", m.types.toJson)]

/-- The module of a document. -/
def ofJson? (j : Json) : Option Module := do
  match ← j.record? ["instructions", "line_table", "filenames", "idents", "spec_idents",
    "functions", "structs", "types"] with
  | [code, lines, files, idents, specIdents, functions, structs, types] =>
    some {
      code := ← code.list? Json.word?
      lines := ← LineTable.ofJson? lines
      files := (← files.list? Json.text?).toArray
      idents := (← idents.list? Ident.ofJson?).toArray
      specIdents := (← specIdents.list? SpecIdent.ofJson?).toArray
      functions := (← functions.list? FunctionInfo.ofJson?).toArray
      structs := (← structs.list? StructInfo.ofJson?).toArray
      types := ← TypeTable.ofJson? types }
  | _ => none

/-- The payload of a module. -/
def toPayload (m : Module) : Bytes := m.toJson.render

/-- The module of a payload. -/
def ofPayload (payload : Bytes) : Except Fault Module :=
  match (Json.parse? payload).bind ofJson? with
  | some m => .ok m
  | none => .error .malformedPayload

end Module

end Wordcode
