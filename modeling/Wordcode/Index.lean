import Wordcode.Word

/-! # Table indices

Instructions, type descriptors and line entries name the entries of a module's tables by position.
An index carries the table it belongs to, so that an index into one table cannot be used in another. -/

namespace Wordcode

/-- The tables that indices point into. -/
inductive Table
  | type
  | struct
  | function
  | ident
  | specIdent
  | file
  | native
  deriving DecidableEq, Repr

/-- What an entry of the table is called in messages. -/
def Table.noun : Table → String
  | type => "type"
  | struct => "struct"
  | function => "function"
  | ident | specIdent => "identifier"
  | file => "file"
  | native => "native"

/-- The position of an entry of a table. -/
structure Index (table : Table) where
  val : UInt32
  deriving DecidableEq, Repr

/-- The position of a type. -/
abbrev TypeIndex := Index .type
/-- The position of a struct. -/
abbrev StructIndex := Index .struct
/-- The position of a function. -/
abbrev FunctionIndex := Index .function
/-- The position of an identifier. -/
abbrev IdentIndex := Index .ident
/-- The position of a specialized identifier. -/
abbrev SpecIdentIndex := Index .specIdent
/-- The position of a file. -/
abbrev FileIndex := Index .file
/-- The position of a native function. -/
abbrev NativeIndex := Index .native

namespace Index

variable {table : Table}

/-- The index as a natural number. -/
def toNat (i : Index table) : Nat := i.val.toNat

/-- The index of the entry at position `n`. -/
def ofNat (n : Nat) : Index table := ⟨.ofNat n⟩

/-- The index a word holds, none if the word is negative. -/
def ofWord? (word : Word) : Option (Index table) := word.toCount?.map ofNat

instance : ToString (Index table) := ⟨fun i => toString i.toNat⟩

end Index

/-- The entry at an index, if the table reaches that far. -/
def Index.entry? {table : Table} {α : Type} (i : Index table) (entries : Array α) : Option α :=
  entries[i.toNat]?

end Wordcode
