import Wordcode.Json.Field
import Wordcode.Json.Text

/-! # Settings

Settings are read from JSON documents, in which any field may be left out and then has its default. -/

namespace Wordcode

/-- A field of a settings record: its value, or the default of a missing one. -/
def settingOr {α : Type} (default : α) (read? : Json → Option α) : Option Json → Option α
  | none => some default
  | some j => read? j

/-- How containers are compressed. -/
structure CodecSettings where
  /-- The effort, from 0 (store) to 9 (smallest). -/
  level : UInt32 := 6
  deriving DecidableEq, Repr

namespace CodecSettings

/-- Settings for speed rather than size. -/
def fast : CodecSettings := ⟨1⟩

/-- Sets the level, to 9 at most. -/
def setLevel (settings : CodecSettings) (level : UInt32) : CodecSettings :=
  { settings with level := min level 9 }

/-- The settings of a document. -/
def ofJson? (j : Json) : Option CodecSettings := do
  match ← j.partial? ["compression_level"] with
  | [level] => some ⟨← settingOr 6 Json.uint32? level⟩
  | _ => none

/-- The written form of the settings. -/
def toJson (settings : CodecSettings) : Json :=
  .ofMembers [("compression_level", .integer settings.level.toNat)]

end CodecSettings

/-- How literals are parsed. -/
structure LiteralSettings where
  /-- The deepest nesting of vectors, structs and minus signs. -/
  maxDepth : Nat := 256
  deriving DecidableEq, Repr

namespace LiteralSettings

/-- The settings of a document; the depth has 64 bits. -/
def ofJson? (j : Json) : Option LiteralSettings := do
  match ← j.partial? ["max_depth"] with
  | [depth] =>
    let read? (j : Json) : Option Nat := (j.integerIn? 0 (UInt64.size - 1)).map (·.toNat)
    some ⟨← settingOr 256 read? depth⟩
  | _ => none

/-- The written form of the settings. -/
def toJson (settings : LiteralSettings) : Json :=
  .ofMembers [("max_depth", .integer settings.maxDepth)]

end LiteralSettings

end Wordcode
