import Wordcode.Literal.Value

/-! # Object stores

A store counts, for every object, the places that hold it, and for every heap the objects made on it.
An object lives as long as it is held; when its last holder lets go it is released, and lets go of its
elements. The heap of an object is the one it was made on, whatever holds it. -/

namespace Wordcode.Literal

/-- The number of a heap. -/
structure HeapId where
  number : Nat
  deriving DecidableEq, Repr

/-- The objects of a heap, counted. -/
structure HeapStats where
  live : Nat := 0
  allocated : Nat := 0
  released : Nat := 0
  deriving DecidableEq, Repr

/-- What a store knows of an object. -/
structure Holding where
  heap : HeapId
  /-- The number of places that hold the object; zero once it is released. -/
  holders : Nat
  deriving DecidableEq, Repr

/-- The objects and heaps of a program. -/
structure Store where
  heaps : Array HeapStats
  objects : Array Holding
  deriving DecidableEq, Repr

namespace Store

/-- The store without heaps. -/
def empty : Store := ⟨#[], #[]⟩

/-- Adds a heap. -/
def addHeap (s : Store) : HeapId × Store := (⟨s.heaps.size⟩, { s with heaps := s.heaps.push {} })

/-- The counts of a heap. -/
def stats (s : Store) (heap : HeapId) : HeapStats := s.heaps.getD heap.number {}

/-- The number of holders of an object. -/
def holders (s : Store) (id : ObjectId) : Nat := (s.objects.getD id.number ⟨⟨0⟩, 0⟩).holders

/-- Makes a new object with one holder. -/
def allocate (s : Store) (heap : HeapId) : ObjectId × Store :=
  (⟨s.objects.size⟩,
    { heaps := s.heaps.modify heap.number fun h =>
        { h with live := h.live + 1, allocated := h.allocated + 1 }
      objects := s.objects.push ⟨heap, 1⟩ })

/-- Adds a holder of a value. -/
def retain (s : Store) (value : Value) : Store :=
  match value.objectId? with
  | none => s
  | some id =>
    { s with objects := s.objects.modify id.number fun o => { o with holders := o.holders + 1 } }

/-- Adds a holder of each of the values. -/
def retainAll (s : Store) (values : List Value) : Store := values.foldl retain s

/-- Takes away a holder of an object. The object is released if that was the last one. -/
def letGo (s : Store) (id : ObjectId) : Bool × Store :=
  match s.objects[id.number]? with
  | none => (false, s)
  | some o =>
    let objects := s.objects.set! id.number { o with holders := o.holders - 1 }
    if o.holders = 1 then
      (true,
        { heaps := s.heaps.modify o.heap.number fun h =>
            { h with live := h.live - 1, released := h.released + 1 }
          objects })
    else (false, { s with objects })

mutual

/-- Takes away a holder of a value; a vector that is released lets go of its elements. -/
def release (s : Store) : Value → Store
  | .string id _ => (s.letGo id).2
  | .vector id _ elements =>
    let (last, s) := s.letGo id
    if last then releaseAll s elements else s
  | _ => s

/-- Takes away a holder of each of the values. -/
def releaseAll (s : Store) : List Value → Store
  | [] => s
  | value :: values => releaseAll (release s value) values

end

/-- Makes a string. -/
def newString (s : Store) (heap : HeapId) (text : String) : Value × Store :=
  let (id, s) := s.allocate heap
  (.string id text, s)

/-- Makes a vector, which takes over the elements from their holder. -/
def newVector (s : Store) (heap : HeapId) (type : TypeIndex) (elements : List Value) :
    Value × Store :=
  let (id, s) := s.allocate heap
  (.vector id type elements, s)

end Store

end Wordcode.Literal
