import Wordcode.Index

/-! # Native functions

Native functions are registered by name and called by index. A name gets the next free index when it
is first registered and keeps it. -/

namespace Wordcode

/-- The names of the native functions in the order of their indices. -/
structure NativeRegistry where
  names : List String
  distinct : names.Nodup

namespace NativeRegistry

/-- The registry without functions. -/
def empty : NativeRegistry := ⟨[], .nil⟩

/-- The number of functions. -/
def size (natives : NativeRegistry) : Nat := natives.names.length

/-- The name at an index. -/
def name? (natives : NativeRegistry) (i : NativeIndex) : Option String := natives.names[i.toNat]?

/-- The index of a name. -/
def lookup? (natives : NativeRegistry) (name : String) : Option NativeIndex :=
  (natives.names.idxOf? name).map .ofNat

/-- The registry in which the name has an index: a new name gets the next one. -/
def register (natives : NativeRegistry) (name : String) : NativeRegistry :=
  if h : name ∈ natives.names then natives
  else
    { names := natives.names ++ [name]
      distinct := by
        refine List.nodup_append.2 ⟨natives.distinct, by simp, ?_⟩
        rintro a ha b hb rfl
        exact h (List.mem_singleton.1 hb ▸ ha) }

/-- The index that registering a name gives it. -/
def indexOf (natives : NativeRegistry) (name : String) : NativeIndex :=
  .ofNat (natives.names.idxOf name)

/-- The registry of names registered in order. -/
def ofNames (names : List String) : NativeRegistry := names.foldl register empty

end NativeRegistry

end Wordcode
