import Bambinos.Compiler.Ident

/-!
# `SymbolTableList`, `SymbolTableCell`, `TypeDesc`

The symbol table of a class and, below each method, that of its parameters and locals.

In the source both levels are a `SymbolTableList`. `addSym` puts every method at class level, so
the list below a method holds scalars and arrays only. The model keeps the two levels apart:
`MethodSymbols` below a method, `SymbolTableList` for the class.
-/

namespace Compiler

open Infra

/-! ## types -/

/--
The static `TypeDesc` objects of the code generator. The parser compares them by reference.
A type that the parser leaves `null` is a missing `TypeDesc`.
-/
inductive TypeDesc where
  | intType | boolType | charType | stringType
deriving DecidableEq, Repr

/-- Every primitive takes one word. -/
def TypeDesc.getSize : TypeDesc → Int
  | .intType | .boolType | .charType | .stringType => 1

inductive ClassType where
  | var | array | method
deriving DecidableEq, Repr

/-- An entry. `proc` is the address of a method, `offset` is negative below the frame pointer. -/
structure SymbolTableCell where
  name : String
  classType : ClassType
  type : Option TypeDesc
  proc : Int
  offset : Int
  size : Int
  globalScope : Bool
deriving DecidableEq, Repr

/-! ## the symbols of a method -/

/-- The `SymbolTableList` below a method. -/
structure MethodSymbols where
  symList : List SymbolTableCell
  offset : Int
deriving DecidableEq, Repr

namespace MethodSymbols

def empty : MethodSymbols := { symList := [], offset := 0 }

/-- The position of the last cell of that name. -/
def findSymbol (name : String) : List SymbolTableCell → Nat → Option Nat → Option Nat
  | [], _, found => found
  | cell :: rest, i, found =>
    findSymbol name rest (i + 1) (if cell.name = name then some i else found)

def getSymbol (t : MethodSymbols) (name : String) : Option SymbolTableCell :=
  (findSymbol name t.symList 0 none).bind (t.symList[·]?)

/-- Adds a cell below a method. A second cell of the same name is refused. -/
def addSym (t : MethodSymbols) (name : String) (classType : ClassType) (type : Option TypeDesc)
    (size : Int) (globalScope : Bool) : MethodSymbols :=
  if !t.symList.isEmpty && (t.getSymbol name).isSome then t
  else
    let offset := int32 (t.offset - size)
    { symList := t.symList ++ [{ name := name, classType := classType, type := type, proc := 0,
                                 offset := offset, size := size, globalScope := globalScope }]
      offset := offset }

def fixOffset (t : MethodSymbols) (fix : Int) : MethodSymbols :=
  { t with offset := int32 (t.offset + fix) }

end MethodSymbols

/-! ## the symbols of a class -/

/-- A cell at class level together with the symbols below it. -/
structure SymbolEntry where
  cell : SymbolTableCell
  methodSymbols : MethodSymbols
deriving DecidableEq, Repr

/-- The symbol table of a class. `scope` is 1 once a method has been added. -/
structure SymbolTableList where
  symList : List SymbolEntry
  moduleList : List String
  scope : Nat
  offset : Int
deriving DecidableEq, Repr

/-- Where `getSymbol` finds a cell: at class level, or below the last method. -/
inductive SymbolRef where
  | global (i : Nat)
  | inner (i j : Nat)
deriving DecidableEq, Repr

namespace SymbolTableList

def empty : SymbolTableList := { symList := [], moduleList := [], scope := 0, offset := 0 }

/--
The loop of `getSymbol`. A method of that name ends the search; otherwise the last method's own
symbols are searched when the loop is at the end of the list, and hide what was found before.
-/
def findSymbol (fetchGlobalOnly : Bool) (name : String) :
    List SymbolEntry → Nat → Option SymbolRef → Option SymbolRef
  | [], _, found => found
  | e :: rest, i, found =>
    if e.cell.name = name ∧ e.cell.classType = .method then some (.global i)
    else
      let found := if e.cell.name = name then some (.global i) else found
      if fetchGlobalOnly = false ∧ e.cell.classType = .method ∧ rest = [] then
        match MethodSymbols.findSymbol name e.methodSymbols.symList 0 none with
        | some j => some (.inner i j)
        | none => found
      else findSymbol fetchGlobalOnly name rest (i + 1) found

/-- The cell at a place of the table. -/
def cellAt (t : SymbolTableList) : SymbolRef → Option SymbolTableCell
  | .global i => t.symList[i]?.map SymbolEntry.cell
  | .inner i j => (t.symList[i]?).bind fun e => e.methodSymbols.symList[j]?

def getSymbol (t : SymbolTableList) (name : String) : Option SymbolTableCell :=
  (findSymbol false name t.symList 0 none).bind t.cellAt

/-- Looks at class level only. The flag it sets stays set; imported tables are read this way only. -/
def getGlobalSymbol (t : SymbolTableList) (name : String) : Option SymbolTableCell :=
  (findSymbol true name t.symList 0 none).bind t.cellAt

/-- The symbols below the cell that `getSymbol` finds. Only methods and arrays have any. -/
def getMethodSymbols (t : SymbolTableList) (name : String) : Option MethodSymbols :=
  match findSymbol false name t.symList 0 none with
  | some (.global i) =>
    match t.symList[i]? with
    | some e => if e.cell.classType = .var then none else some e.methodSymbols
    | none => none
  | some (.inner i j) =>
    match t.cellAt (.inner i j) with
    | some cell => if cell.classType = .var then none else some .empty
    | none => none
  | none => none

/-- Changes the cell that `getSymbol` finds. -/
def modifyCell (t : SymbolTableList) (name : String) (f : SymbolTableCell → SymbolTableCell) :
    SymbolTableList :=
  match findSymbol false name t.symList 0 none with
  | some (.global i) =>
    { t with symList := t.symList.modify i fun e => { e with cell := f e.cell } }
  | some (.inner i j) =>
    { t with symList := t.symList.modify i fun e =>
        { e with methodSymbols :=
            { e.methodSymbols with symList := e.methodSymbols.symList.modify j f } } }
  | none => t

/-- Changes the symbols below the cell that `getSymbol` finds. -/
def modifyMethodSymbols (t : SymbolTableList) (name : String) (f : MethodSymbols → MethodSymbols) :
    SymbolTableList :=
  match findSymbol false name t.symList 0 none with
  | some (.global i) =>
    { t with symList := t.symList.modify i fun e => { e with methodSymbols := f e.methodSymbols } }
  | _ => t

/-- The symbols below the last cell, which is the current method once `scope` is 1. -/
def lastMethodSymbols (t : SymbolTableList) : Option MethodSymbols :=
  t.symList.getLast?.map SymbolEntry.methodSymbols

/-- Changes the symbols below the last cell. -/
def modifyLast (t : SymbolTableList) (f : MethodSymbols → MethodSymbols) : SymbolTableList :=
  { t with symList := t.symList.modify (t.symList.length - 1) fun e =>
      { e with methodSymbols := f e.methodSymbols } }

/--
Adds a cell. Returns whether the name was already declared in its scope; the cell is then not
added. A method goes to class level and opens its scope.
-/
def addSym (t : SymbolTableList) (name : String) (classType : ClassType) (type : Option TypeDesc)
    (size : Int) (globalScope : Bool) : SymbolTableList × Bool :=
  let t := if classType = .method then { t with scope := 0 } else t
  let foundSymbol :=
    if t.scope = 0 ∧ t.symList ≠ [] ∧ t.getSymbol name ≠ none then true
    else decide (t.scope = 1 ∧ (t.lastMethodSymbols.bind (·.getSymbol name)) ≠ none)
  if foundSymbol then (t, true)
  else
    let t :=
      if t.scope = 0 then
        let offset := int32 (t.offset - size)
        { t with
          offset := offset
          symList := t.symList ++
            [{ cell := { name := name, classType := classType, type := type, proc := 0,
                         offset := offset, size := size, globalScope := globalScope }
               methodSymbols := .empty }] }
      else t
    let t :=
      if t.scope = 1 then t.modifyLast (·.addSym name classType type size false)
      else t
    (if classType = .method then { t with scope := 1 } else t, false)

def addModule (t : SymbolTableList) (moduleName : String) : SymbolTableList :=
  if moduleName = "" then t else { t with moduleList := t.moduleList ++ [moduleName] }

def getCurrentOffset (t : SymbolTableList) : Int := t.offset

def fixOffset (t : SymbolTableList) (fix : Int) : SymbolTableList :=
  { t with offset := int32 (t.offset + fix) }

end SymbolTableList

end Compiler
