import Wordcode.Literal.Lexer
import Wordcode.Literal.Store
import Wordcode.Settings

/-! # Parsing literals

A literal is parsed against a type of a type table:

    value    := INT | FLOAT | STRING | nil | '-' value
              | '[' elements ']' | NAME '{' elements '}'
    elements := ( value ( ',' | linefeed ) )* value?

The type says what may stand where; at the type `Any` everything may. A struct literal gives the
fields in order. It may leave out the last ones if their types have a default value; values beyond
the fields are parsed and dropped.

The parser holds every object that it makes until it ends (`Parsing.roster`), also those that are by
then part of a vector. When it ends, the result is left with the holders it has as a value, and when
it fails nothing holds any object made on the way. -/

namespace Wordcode.Literal

/-- What a parser works with. -/
structure Source where
  ctx : TypeContext
  heap : HeapId
  /-- The line of the end of the text, or the fault at which the tokens end. -/
  ending : Except ParseError UInt32
  /-- The number of tokens of the text. -/
  size : Nat

/-- The state of a parser. -/
structure Parsing where
  /-- The tokens ahead; the first one is the current token. -/
  tokens : List Spanned
  store : Store
  /-- The objects made so far, each held once by the parser, the latest one first. -/
  roster : List Value

/-- A step of parsing. -/
abbrev Parser := ReaderT Source (EStateM ParseError Parsing)

namespace Parser

/-! ### Tokens -/

/-- The current token. -/
def current : Parser Spanned := do
  match (← get).tokens with
  | spanned :: _ => pure spanned
  | [] =>
    match (← read).ending with
    | .ok line => pure ⟨.endOfFile, line⟩
    | .error fault => throw fault

/-- Raises a fault at the current token. -/
def fail {α : Type} (cause : SyntaxFault) : Parser α := do
  throw (.syntaxError (← current).line cause)

/-- Moves to the next token. -/
def advance : Parser Unit := do
  modify fun s => { s with tokens := s.tokens.tail }
  discard current

/-- Moves past the token, which must be the current one. -/
def expect (wanted : Token) : Parser Unit := do
  let found := (← current).token
  if found = wanted then advance else fail (.unexpected wanted found)

/-- Moves past the token if it is the current one, and says whether it was. -/
def accept (wanted : Token) : Parser Bool := do
  if (← current).token = wanted then
    advance
    pure true
  else pure false

/-- Checks that a value of one kind may stand where another is required. -/
def expectKind (given required : TypeKind) : Parser Unit :=
  if required = given ∨ required = .any then pure () else fail (.kindMismatch required given)

/-! ### Objects -/

/-- Notes a new object in the roster. -/
def track (value : Value) : Parser Value := do
  modify fun s => { s with store := s.store.retain value, roster := value :: s.roster }
  pure value

/-- Makes a string. -/
def newString (text : String) : Parser Value := do
  let heap := (← read).heap
  track (← modifyGet fun s =>
    let (value, store) := s.store.newString heap text
    (value, { s with store }))

/-- Makes a vector. -/
def newVector (type : TypeIndex) (elements : List Value) : Parser Value := do
  let heap := (← read).heap
  track (← modifyGet fun s =>
    let (value, store) := s.store.newVector heap type elements
    (value, { s with store }))

/-- Lets go of values. -/
def drop (values : List Value) : Parser Unit :=
  modify fun s => { s with store := s.store.releaseAll values }

/-- A step during which values are held; it lets go of them if it fails. -/
def holding {α : Type} (values : List Value) (step : Parser α) : Parser α :=
  tryCatch step fun fault => do
    drop values
    throw fault

/-! ### Elements -/

/-- The types of the elements that are still to come. -/
inductive Slots
  /-- Any number of elements of one type. -/
  | every (type : TypeIndex)
  /-- One element of each type. -/
  | each (types : List TypeIndex)

/-- The type of the next element and the slots after it, if there is a slot. -/
def Slots.next? : Slots → Option (TypeIndex × Slots)
  | every type => some (type, every type)
  | each [] => none
  | each (type :: types) => some (type, each types)

/-- The types of fields that have got no element. -/
def Slots.missing : Slots → List TypeIndex
  | every _ => []
  | each types => types

/-- Parses the next element; one without a slot is dropped. The elements so far are `done`, the last
one first. -/
def element (item : TypeIndex → Parser Value) (slots : Slots) (done : List Value) :
    Parser (Slots × List Value) := do
  match slots.next? with
  | some (type, slots) =>
    let value ← item type
    pure (slots, value :: done)
  | none =>
    let value ← item .any
    drop [value]
    pure (slots, done)

/-- Moves past a separator, if one follows, and says whether the closing bracket comes next. Only a
line break may stand in front of the bracket. -/
def atEnd (close : Token) : Parser Bool := do
  let separated ← accept .linefeed
  if (← current).token = close then pure true
  else do
    if !separated then expect .comma
    pure false

/-- Parses elements up to the closing bracket, at most `bound` of them. -/
def elementsFrom (item : TypeIndex → Parser Value) (close : Token) :
    Nat → Slots → List Value → Parser (Slots × List Value)
  | 0, slots, done => pure (slots, done)
  | bound + 1, slots, done => do
    let (slots, done) ← holding done (element item slots done)
    if ← holding done (atEnd close) then pure (slots, done)
    else elementsFrom item close bound slots done

/-- Parses the elements after an opening bracket, and the closing one. -/
def elements (item : TypeIndex → Parser Value) (close : Token) (slots : Slots) :
    Parser (Slots × List Value) := do
  discard (accept .linefeed)
  if ← accept close then pure (slots, [])
  else do
    let (slots, done) ← elementsFrom item close (← read).size slots []
    holding done advance
    pure (slots, done.reverse)

/-- The default value of a kind. -/
def default? : TypeKind → Option Value
  | .int => some (.int 0)
  | .float => some (.float .zero)
  | .nil => some .nil
  | _ => none

/-- The default value of a field that is left out. -/
def defaultOf (type : TypeIndex) : Parser Value := do
  match ((← read).ctx.types.kind? type).bind default? with
  | some value => pure value
  | none => throw (.noDefault (← current).line)

/-! ### Values -/

/-- The type of a struct literal: the required one, which must have the name, or at a type without a
struct of its own the type of the struct of that name. -/
def structType (type : TypeIndex) (descriptor : TypeDescriptor) (name : String) :
    Parser TypeIndex := do
  let ctx := (← read).ctx
  match descriptor with
  | .struct id _ =>
    let required := (ctx.structName? id).getD ""
    if required = name then pure type else fail (.structMismatch required name)
  | _ =>
    match ctx.structTypeNamed? name with
    | some type => pure type
    | none => fail (.unknownStruct name)

/-- The types of the fields of a struct. -/
def fieldTypes (type : TypeIndex) (name : String) : Parser (List TypeIndex) := do
  match (← read).ctx.types.get? type with
  | some (.struct _ fields) => pure fields
  | _ => fail (.notStruct name)

/-- The type of a vector literal and of its elements. -/
def vectorTypes (type : TypeIndex) : TypeDescriptor → TypeIndex × TypeIndex
  | .vector element => (type, element)
  | _ => (.vectorAny, .any)

/-- Parses a token that is a value by itself, if its kind may stand here. -/
def scalar (given required : TypeKind) (make : Parser Value) : Parser Value := do
  expectKind given required
  advance
  make

/-- Parses a minus sign and the number behind it. -/
def negated (item : TypeIndex → Parser Value) (type : TypeIndex) (kind : TypeKind) :
    Parser Value := do
  advance
  let operand ← item type
  match if kind.isNumeric || kind == .any then operand.negate? else none with
  | some negated => pure negated
  | none => holding [operand] (fail .notNumeric)

/-- Parses a vector literal from its bracket on. -/
def vectorLiteral (item : TypeIndex → Parser Value) (type : TypeIndex)
    (descriptor : TypeDescriptor) : Parser Value := do
  expectKind .vector descriptor.kind
  advance
  let (vectorType, elementType) := vectorTypes type descriptor
  let (_, items) ← elements item .rightBracket (.every elementType)
  newVector vectorType items

/-- Parses a struct literal from its name on. -/
def structLiteral (item : TypeIndex → Parser Value) (type : TypeIndex)
    (descriptor : TypeDescriptor) (name : String) : Parser Value := do
  expectKind .struct descriptor.kind
  advance
  expect .leftCurly
  let vectorType ← structType type descriptor name
  let fields ← fieldTypes vectorType name
  let (slots, items) ← elements item .rightCurly (.each fields)
  let defaults ← holding items (slots.missing.mapM defaultOf)
  newVector vectorType (items ++ defaults)

/-- Parses a value that starts with the current token, whose inner values are parsed by `item`. -/
def literal (item : TypeIndex → Parser Value) (type : TypeIndex) (descriptor : TypeDescriptor) :
    Token → Parser Value
  | .int n => scalar .int descriptor.kind (pure (.int n))
  | .float x => scalar .float descriptor.kind (pure (.float x))
  | .string text => scalar .string descriptor.kind (newString text)
  | .nil => scalar .nil descriptor.kind (pure .nil)
  | .minus => negated item type descriptor.kind
  | .leftBracket => vectorLiteral item type descriptor
  | .name name => structLiteral item type descriptor name
  | token => fail (.illegalStart token)

/-- Parses a value of a type in which at most `depth` values contain each other. -/
def value : Nat → TypeIndex → Parser Value
  | 0, _ => fail .tooDeep
  | depth + 1, type => do
    match (← read).ctx.types.get? type with
    | none => fail (.unknownType type)
    | some descriptor => literal (value depth) type descriptor (← current).token

/-- Parses a value that takes up the whole text. -/
def wholeText (maxDepth : Nat) (type : TypeIndex) : Parser Value := do
  discard current
  let result ← value maxDepth type
  holding [result] do
    discard (accept .linefeed)
    expect .endOfFile
  pure result

end Parser

/-- Parses a literal of a type; new objects are made on `heap`. -/
def parse (ctx : TypeContext) (heap : HeapId) (maxDepth : Nat) (type : TypeIndex) (text : String)
    (store : Store) : Except ParseError Value × Store :=
  let lexed := Lexed.ofText text
  let source := ⟨ctx, heap, lexed.ending, lexed.tokens.length⟩
  match (Parser.wholeText maxDepth type).run source ⟨lexed.tokens, store, []⟩ with
  | .ok value s => (.ok value, s.store.releaseAll s.roster)
  | .error fault s => (.error fault, s.store.releaseAll s.roster)

/-- Parses a literal with the usual settings: its value and no message, or nil and the message. -/
def parseData (ctx : TypeContext) (heap : HeapId) (type : TypeIndex) (text : String)
    (store : Store) : (Value × Option String) × Store :=
  match parse ctx heap ({} : LiteralSettings).maxDepth type text store with
  | (.ok value, store) => ((value, none), store)
  | (.error fault, store) => ((.nil, some fault.message), store)

end Wordcode.Literal
