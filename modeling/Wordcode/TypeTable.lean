import Wordcode.Index

/-! # Types and structs

A module describes its types in a table of descriptors, whose entries refer to each other by index,
and its structs in a second table. A fresh table holds the built-in types at fixed positions. Names
lead to types in two steps, each taking the first match: from the name to the struct, from the struct
to a descriptor of it (`TypeContext.structTypeNamed?`). -/

namespace Wordcode

/-- The kinds of types. -/
inductive TypeKind
  | nil
  | int
  | float
  | string
  | function
  | coroutine
  | vector
  | struct
  | any
  deriving DecidableEq, Repr

namespace TypeKind

/-- The name of a kind. -/
def name : TypeKind → String
  | nil => "Nil"
  | int => "Int"
  | float => "Float"
  | string => "String"
  | function => "Function"
  | coroutine => "Coroutine"
  | vector => "Vector"
  | struct => "Struct"
  | any => "Any"

/-- All kinds. -/
def all : List TypeKind := [nil, int, float, string, function, coroutine, vector, struct, any]

/-- The kind of a name. -/
def ofName? (name : String) : Option TypeKind := all.find? (·.name == name)

/-- Whether values of the kind are numbers. -/
def isNumeric : TypeKind → Bool
  | int | float => true
  | _ => false

instance : ToString TypeKind := ⟨name⟩

end TypeKind

/-- One entry of a type table. -/
inductive TypeDescriptor
  | scalar (kind : TypeKind)
  | vector (element : TypeIndex)
  | struct (id : StructIndex) (fields : List TypeIndex)
  deriving DecidableEq, Repr

/-- The kind of the described type. -/
def TypeDescriptor.kind : TypeDescriptor → TypeKind
  | scalar kind => kind
  | vector _ => .vector
  | struct .. => .struct

/-- Whether values of the described type are built from elements. -/
def TypeDescriptor.isAggregate : TypeDescriptor → Bool
  | scalar _ => false
  | vector _ | struct .. => true

/-- The name of a struct and of its fields. -/
structure StructInfo where
  name : String
  fields : List String
  deriving DecidableEq, Repr

/-- The type descriptors of a module. -/
structure TypeTable where
  entries : Array TypeDescriptor
  deriving DecidableEq, Repr

namespace TypeTable

/-- The table without entries. -/
def empty : TypeTable := ⟨#[]⟩

/-- The number of entries. -/
def size (types : TypeTable) : Nat := types.entries.size

/-- Appends a descriptor. -/
def push (types : TypeTable) (descriptor : TypeDescriptor) : TypeTable :=
  ⟨types.entries.push descriptor⟩

/-- The index that the next descriptor gets. -/
def nextIndex (types : TypeTable) : TypeIndex := .ofNat types.size

/-- The descriptor at an index. -/
def get? (types : TypeTable) (i : TypeIndex) : Option TypeDescriptor := i.entry? types.entries

/-- The kind of the type at an index. -/
def kind? (types : TypeTable) (i : TypeIndex) : Option TypeKind := (types.get? i).map (·.kind)

/-- Whether the descriptor describes this struct. -/
def describes (id : StructIndex) : TypeDescriptor → Bool
  | .struct id' _ => id' == id
  | _ => false

/-- The first descriptor of a struct. -/
def structType? (types : TypeTable) (id : StructIndex) : Option TypeIndex :=
  (types.entries.findIdx? (describes id)).map .ofNat

/-- The entries with their indices, in order. -/
def indexed (types : TypeTable) : List (TypeIndex × TypeDescriptor) :=
  types.entries.toList.zipIdx.map fun (descriptor, i) => (.ofNat i, descriptor)

end TypeTable

/-! ### The built-in types -/

/-- The index of the type of every value. -/
def TypeIndex.any : TypeIndex := ⟨6⟩

/-- The index of the type of vectors of values of every type. -/
def TypeIndex.vectorAny : TypeIndex := ⟨7⟩

/-- The table that holds the built-in types only. -/
def TypeTable.builtins : TypeTable where
  entries := #[.scalar .nil, .scalar .int, .scalar .float, .scalar .string, .scalar .function,
    .scalar .coroutine, .scalar .any, .vector TypeIndex.any]

/-- The types and structs that literals are read and written with. -/
structure TypeContext where
  types : TypeTable
  structs : Array StructInfo

namespace TypeContext

/-- The name of a struct. -/
def structName? (ctx : TypeContext) (id : StructIndex) : Option String :=
  (id.entry? ctx.structs).map (·.name)

/-- The first struct of a name. -/
def structNamed? (ctx : TypeContext) (name : String) : Option StructIndex :=
  (ctx.structs.findIdx? (·.name == name)).map .ofNat

/-- The type of the first struct of a name: the first descriptor of that struct. -/
def structTypeNamed? (ctx : TypeContext) (name : String) : Option TypeIndex :=
  (ctx.structNamed? name).bind ctx.types.structType?

end TypeContext

end Wordcode
