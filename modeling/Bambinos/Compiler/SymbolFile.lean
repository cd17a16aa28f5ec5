import Bambinos.Compiler.SymbolTable

/-!
# `SymbolFile` and `ParseSymbolFile`

The symbol file of a class: an XML document that `exportSymbols` writes, and that the handler of a
SAX parser reads for each import.

* `writeSymbolfile` — the document, as the events that a SAX parser delivers of it
* `ParseSymbolFile.handle` — the handler
* `importClass` — the table and the size that an import takes over

The parser is not modelled. It delivers the events in the order of the document, the text between
two tags in pieces of its own choice.
-/

namespace Compiler

open Infra

/-! ## the document -/

/-- What the handler is called with. The root element and all below it. -/
inductive Event where
  | startElement (qName : String)
  | endElement (qName : String)
  | characters (text : String)
deriving DecidableEq, Repr

/-- The text between two tags in one piece. -/
def coalesce : List Event → List Event
  | .characters s :: rest =>
    match coalesce rest with
    | .characters s' :: rest => .characters (s ++ s') :: rest
    | rest => .characters s :: rest
  | e :: rest => e :: coalesce rest
  | [] => []

inductive DataType where
  | typeDesc | intT | boolT | charT | string
deriving DecidableEq, Repr

/-- The name of the constant. -/
def DataType.toString : DataType → String
  | typeDesc => "TypeDesc"
  | intT => "intT"
  | boolT => "boolT"
  | charT => "charT"
  | string => "String"

def TypeDesc.base : TypeDesc → DataType
  | .intType => .intT
  | .boolType => .boolT
  | .charType => .charT
  | .stringType => .charT

/-- A line of the file. -/
def appendLine (line : List Event) : List Event := line ++ [.characters "\n"]

/-- A line with an element that has text only. -/
def appendElement (qName text : String) : List Event :=
  appendLine [.startElement qName, .characters text, .endElement qName]

/--
A turn of the loop of `exportSymbols`; `inner` is what the symbols of a method are written as.
A cell without a type throws a `NullPointerException`.
-/
def exportCell (cell : SymbolTableCell) (inner : Option (List Event)) : Option (List Event) :=
  if cell.globalScope = true ∨ cell.offset > 0 then do
    let base := (← cell.type).base.toString
    match cell.classType with
    | .var =>
      return appendLine [.startElement "variable"] ++ appendElement "type" base ++
        appendElement "name" cell.name ++ appendLine [.endElement "variable"]
    | .array =>
      return appendLine [.startElement "array"] ++ appendElement "type" base ++
        appendElement "name" cell.name ++ appendElement "size" (toString cell.size) ++
        appendLine [.endElement "array"]
    | .method =>
      return appendLine [.startElement "method"] ++ appendElement "type" base ++
        appendElement "name" cell.name ++ appendElement "size" (toString cell.size) ++
        (← inner) ++ appendLine [.endElement "method"]
  else
    return []

/-- The lines of a table around those of its cells. -/
def symbolsElement (cells : List (List Event)) : List Event :=
  appendLine [.startElement "symbols"] ++ cells.flatten ++ appendLine [.endElement "symbols"]

/-- No cell below a method has cells below it. -/
def MethodSymbols.exportSymbols (t : MethodSymbols) : Option (List Event) := do
  let cells ← t.symList.mapM fun cell => exportCell cell (some (symbolsElement []))
  return symbolsElement cells

def SymbolTableList.exportSymbols (t : SymbolTableList) : Option (List Event) := do
  let cells ← t.symList.mapM fun e => exportCell e.cell e.methodSymbols.exportSymbols
  return symbolsElement cells

def appendModuleAnchors (moduleList : List String) : List Event :=
  appendLine [.startElement "modules"] ++
    moduleList.flatMap (fun module =>
      appendLine [.startElement "module"] ++ appendElement "name" module ++
        appendLine [.endElement "module"]) ++
    appendLine [.endElement "modules"]

/-- The whole file. What stands before and behind the root element is not delivered. -/
def writeSymbolfile (t : SymbolTableList) : Option (List Event) := do
  let symbols ← t.exportSymbols
  return appendLine [.startElement "symbolfile"] ++ appendModuleAnchors t.moduleList ++ symbols ++
    [.endElement "symbolfile"]

/-! ## the handler -/

/-- What the next text is. -/
inductive NameMode where
  | nothing | type | name | size
deriving DecidableEq, Repr

/--
The fields of a handler, and the `list` that all handlers share. A cell is added to the list when
nothing sets its fields any more, so the list has a copy of it. A name that is missing is empty.
-/
structure ParseSymbolFile where
  textBuffer : Option String
  startpars : Bool
  cell : Option SymbolEntry
  list : SymbolTableList
  nameMode : NameMode
  globalScope : Bool
  methodName : Option String
  methodMode : Bool
  sum : Int
deriving DecidableEq, Repr

namespace ParseSymbolFile

/-- The constructor that takes a list. -/
def new (list : SymbolTableList) : ParseSymbolFile :=
  { textBuffer := none, startpars := false, cell := none, list := list, nameMode := .nothing,
    globalScope := true, methodName := none, methodMode := false, sum := 0 }

/-- A method of the handler. -/
abbrev H := Method ParseSymbolFile

/-- `new SymbolTableCell(ClassType.var, scope, createSublist)`. -/
def newEntry (scope createSublist : Bool) : SymbolEntry :=
  { cell := { name := "", classType := if createSublist then .method else .var, type := none,
              proc := 0, offset := 0, size := 0, globalScope := scope }
    methodSymbols := .empty }

/-- `setType`. Any other name leaves the type as it is. -/
def setType (cell : SymbolTableCell) (type : String) : SymbolTableCell :=
  if type = "intT" then { cell with type := some .intType }
  else if type = "charT" then { cell with type := some .charType }
  else if type = "boolT" then { cell with type := some .boolType }
  else cell

def digits (ds : List Char) : Option Int :=
  if ds ≠ [] ∧ ds.all Char.isDigit then some (Nat.ofDigitChars 10 ds 0) else none

/-- Digits behind a sign, if any. -/
def signedDigits : List Char → Option Int
  | '-' :: ds => (digits ds).map Neg.neg
  | '+' :: ds => digits ds
  | ds => digits ds

/-- `Integer.parseInt`. -/
def parseInt (s : String) : H Int :=
  match signedDigits s.toList with
  | some n => if int32 n = n then pure n else throw .numberFormat
  | none => throw .numberFormat

/-- `list.add(cell)`. -/
def add (list : SymbolTableList) (e : SymbolEntry) : SymbolTableList :=
  { list with symList := list.symList ++ [e] }

/-- `methodSymbols.add(cell)`. -/
def addInner (list : MethodSymbols) (cell : SymbolTableCell) : MethodSymbols :=
  { list with symList := list.symList ++ [cell] }

/-- The end of a variable or an array. -/
def addCell (e : SymbolEntry) : H Unit := do
  let st ← get
  if st.globalScope then
    let size := if e.cell.size = 0 then 1 else e.cell.size
    modify fun st => { st with list := add st.list e, sum := int32 (st.sum + size) }
  else
    let methodName ← deref st.methodName
    let _ ← deref (st.list.getMethodSymbols methodName)
    modify fun st =>
      { st with list := st.list.modifyMethodSymbols methodName (addInner · e.cell) }

/-- The first part of `addString`: the tags of cells. -/
def addTag (s : String) : H Unit := do
  let st ← get
  if s = "<variable" ∨ s = "<array" then
    set { st with cell := some (newEntry st.globalScope false) }
  else if s = "</variable>" ∨ s = "</array>" then
    match st.cell with
    | some e => addCell e
    | none => pure ()
  else if s = "<method" then
    set { st with cell := some (newEntry true true), methodMode := true, globalScope := false }
  else if s = "<symbols" ∧ st.cell.isSome then
    let e ← deref st.cell
    set { st with list := add st.list e, methodMode := false,
                  cell := some (newEntry st.globalScope false) }
  else if s = "</symbols>" then
    set { st with globalScope := true }

/-- The second part of `addString`: a field of the cell. -/
def setField (s : String) : H Unit := do
  match (← get).nameMode with
  | .nothing => pure ()
  | .type =>
    let e ← deref (← get).cell
    modify fun st =>
      { st with cell := some { e with cell := setType e.cell s }, nameMode := .nothing }
  | .name =>
    let e ← deref (← get).cell
    modify fun st =>
      { st with cell := some { e with cell := { e.cell with name := s } }, nameMode := .nothing,
                methodName := if st.methodMode then some s else st.methodName }
  | .size =>
    let size ← parseInt s
    let e ← deref (← get).cell
    modify fun st =>
      { st with cell := some { e with cell := { e.cell with size := size } }, nameMode := .nothing }

/-- The third part of `addString`: the tags of fields. -/
def setNameMode (s : String) : H Unit := do
  if s = "<type" then modify fun st => { st with nameMode := .type }
  else if s = "<name" then modify fun st => { st with nameMode := .name }
  else if s = "<size" then modify fun st => { st with nameMode := .size }

def addString (s : String) : H Unit := do
  addTag s
  setField s
  setNameMode s

def echoTextBuffer : H Unit := do
  match (← get).textBuffer with
  | none => pure ()
  | some text =>
    addString text
    modify fun st => { st with textBuffer := none }

/-- `startElement`, `endElement` and `characters`. -/
def handle : Event → H Unit
  | .startElement eName => do
    echoTextBuffer
    if (← get).startpars then addString ("<" ++ eName)
    else if eName = "symbols" then modify fun st => { st with startpars := true }
  | .endElement eName => do
    echoTextBuffer
    addString ("</" ++ eName ++ ">")
  | .characters s =>
    modify fun st =>
      { st with textBuffer := some (match st.textBuffer with | none => s | some t => t ++ s) }

def handleAll : List Event → H Unit
  | [] => pure ()
  | e :: events => do
    handle e
    handleAll events

/-- `parse`: the handler is a new object. What it throws is caught. -/
def parse (events : List Event) (list : SymbolTableList) : SymbolTableList :=
  match handleAll events (new list) with
  | .ok _ handler => handler.list
  | .error _ handler => handler.list

/-- The constructor that takes a file. -/
def newOfFile (events : List Event) (list : SymbolTableList) : ParseSymbolFile :=
  { new list with list := parse events list }

end ParseSymbolFile

/-- What `packageImport` makes the type of a class: its symbols and its size. -/
structure ObjectType where
  fields : SymbolTableList
  size : Int
deriving DecidableEq, Repr

/-- The end of `packageImport`: the list is new. -/
def importClass (events : List Event) : ObjectType :=
  let symFile := ParseSymbolFile.newOfFile events .empty
  { fields := symFile.list, size := symFile.sum }

end Compiler
