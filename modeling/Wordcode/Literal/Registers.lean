import Wordcode.Literal.Parser

/-! # Registers

Registers are named places that hold values. Making a value puts it into a register, copying one adds
a holder, and a register lets go of what it held when it is overwritten or cleared. New objects are
made on the current heap; several handles may stand for one heap. -/

namespace Wordcode.Literal

/-- Why an operation on registers is not possible. -/
inductive RegisterFault
  | noRegister
  | noElement
  | noHeap
  deriving DecidableEq, Repr

/-- Named values, over a store. -/
structure Registers where
  store : Store
  /-- The heaps that the handles stand for. -/
  handles : Array HeapId
  /-- The position of the current handle. -/
  current : Nat
  values : List (String × Value)

namespace Registers

/-- No registers, and one heap. -/
def start : Registers :=
  let (heap, store) := Store.empty.addHeap
  ⟨store, #[heap], 0, []⟩

/-- The current heap. -/
def heap (r : Registers) : HeapId := r.handles.getD r.current ⟨0⟩

/-- The counts of the heap of each handle. -/
def stats (r : Registers) : List HeapStats := r.handles.toList.map r.store.stats

/-- The value in a register. -/
def get (r : Registers) (name : String) : Except RegisterFault Value :=
  match r.values.lookup name with
  | some value => .ok value
  | none => .error .noRegister

/-- Lets go of what a register holds, and removes it. -/
def discard (r : Registers) (name : String) : Registers :=
  match r.values.lookup name with
  | some value =>
    { r with store := r.store.release value, values := r.values.filter (·.1 ≠ name) }
  | none => r

/-- Makes a register the holder of a value. -/
def put (r : Registers) (name : String) (value : Value) : Registers :=
  let r := r.discard name
  { r with values := (name, value) :: r.values }

/-- Makes a register one more holder of a value. -/
def putShared (r : Registers) (name : String) (value : Value) : Registers :=
  { r with store := r.store.retain value }.put name value

/-- Puts a new string into a register. -/
def putString (r : Registers) (name text : String) : Registers :=
  let (value, store) := r.store.newString r.heap text
  { r with store }.put name value

/-- Puts a new vector into a register, which shares the values of other registers. -/
def putVector (r : Registers) (name : String) (type : TypeIndex) (elements : List String) :
    Except RegisterFault Registers := do
  let elements ← elements.mapM r.get
  let (value, store) := (r.store.retainAll elements).newVector r.heap type elements
  pure ({ r with store }.put name value)

/-- Copies a register. -/
def copy (r : Registers) (source name : String) : Except RegisterFault Registers := do
  pure (r.putShared name (← r.get source))

/-- Puts an element of a vector into a register. -/
def putElement (r : Registers) (source : String) (position : Nat) (name : String) :
    Except RegisterFault Registers := do
  match ← r.get source with
  | .vector _ _ elements =>
    match elements[position]? with
    | some value => pure (r.putShared name value)
    | none => throw .noElement
  | _ => throw .noElement

/-- Clears a register. -/
def clear (r : Registers) (name : String) : Except RegisterFault Registers := do
  let _ ← r.get name
  pure (r.discard name)

/-- Changes the sign of the number in a register, and says whether it holds one. -/
def negate (r : Registers) (name : String) : Except RegisterFault (Bool × Registers) := do
  match (← r.get name).negate? with
  | some value => pure (true, r.put name value)
  | none => pure (false, r)

/-- Parses a literal into a register. The register keeps what it holds if that fails. -/
def parse (r : Registers) (ctx : TypeContext) (maxDepth : Nat) (name : String) (type : TypeIndex)
    (text : String) : Except ParseError Unit × Registers :=
  match Literal.parse ctx r.heap maxDepth type text r.store with
  | (.ok value, store) => (.ok (), { r with store }.put name value)
  | (.error fault, store) => (.error fault, { r with store })

/-- Parses a literal into a register, nil if that fails, and gives the message of the fault. -/
def parseData (r : Registers) (ctx : TypeContext) (name : String) (type : TypeIndex)
    (text : String) : Option String × Registers :=
  let ((value, message), store) := Literal.parseData ctx r.heap type text r.store
  (message, { r with store }.put name value)

/-- Adds a heap, or another handle of the current one, and makes it current. -/
def addHandle (r : Registers) (fresh : Bool) : Nat × Registers :=
  let (heap, store) := if fresh then r.store.addHeap else (r.heap, r.store)
  (r.handles.size,
    { r with store, handles := r.handles.push heap, current := r.handles.size })

/-- Makes a handle current. -/
def useHandle (r : Registers) (position : Nat) : Except RegisterFault Registers :=
  if position < r.handles.size then .ok { r with current := position } else .error .noHeap

end Registers

end Wordcode.Literal
