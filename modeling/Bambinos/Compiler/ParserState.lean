import Bambinos.Compiler.CodeGenerator

/-!
# `Parser`: the static fields and the token handling

`expect` is the only way the parser passes a token. A missing token is either inserted with a
warning (`expectWeak`) or a syntax error, which is thrown and caught by `bodyBlock`, `classBlock`,
`packageImport` or `classDeclaration`.

## Ghosts

Two things are recorded that the source does not compute. Nothing reads them.

* `expr` of an `Item` — the tree of arithmetic operations an item stands for
* `leaks` of a `ParserState` — the places where the number of registers that `topReg` counts and the
  number of values that are really held drift apart
-/

namespace Compiler

open Infra

/-! ## items -/

/-- The operations that led to an item, and the variables and numbers below them. -/
inductive Arith where
  | variable (name : String)
  | number (n : Int)
  | operation (kind : Operation) (left right : Arith)
  | other
deriving DecidableEq, Repr

/--
What a production says about the value it parsed. `mode` is 1 for a variable that is still to be
loaded, 2 for a constant, 3 for a value in the last register.

`inReg` is a ghost: the value does take up a register. A call answers with mode 3 as well, but
`topReg` does not count the register of its result; and a comparison has given its registers back.
-/
structure Item where
  mode : Nat
  type : Option TypeDesc
  val : Int := 0
  globalScope : Bool := false
  expr : Arith := .other
  inReg : Bool := false
deriving DecidableEq, Repr

/-- A jump of a condition, with the level of the brackets it stands in. -/
structure FixUps where
  position : Nat
  level : Int
deriving DecidableEq, Repr

/-! ## state -/

/-- What is printed while compiling. -/
inductive Report where
  | warning (text : String)
  | stackTrace (text : String)
  | message (text : String)
deriving DecidableEq, Repr

/--
Ghost. `noRegister`: a value was taken from a register that was not counted.
`leftOver`: a register was counted that nobody takes the value from.
-/
inductive Leak where
  | noRegister
  | leftOver
deriving DecidableEq, Repr

/-- The static fields of the parser. `input` is what the scanner will still deliver. -/
structure ParserState where
  input : List Ident
  lastLine : Nat
  symbolFiles : List (String × SymbolTableList)
  currentToken : Ident
  tokenList : List Ident
  setCodeGeneration : Bool
  countTLBRACES : Int
  condFixup : Option (List Nat)
  condFixStack : List (Option (List Nat))
  booleanLevel : Int
  condMode : Bool
  classMember : Bool
  fixReturn : List Nat
  currentClassName : String
  cg : CodeGenerator
  reports : List Report
  leaks : List Leak

/-- A static method of the parser. -/
abbrev P := Method ParserState

/-- The fields at the start of `program`. -/
def ParserState.init (className : String) (symbolFiles : List (String × SymbolTableList))
    (tokens : List Ident) (lastLine : Nat) : ParserState :=
  { input := tokens, lastLine := lastLine, symbolFiles := symbolFiles,
    currentToken := { type := .tEof, value := some (.text ""), lineNumber := 0 },
    tokenList := [], setCodeGeneration := true, countTLBRACES := 0, condFixup := none,
    condFixStack := [], booleanLevel := 0, condMode := false, classMember := false,
    fixReturn := [], currentClassName := className, cg := .init, reports := [], leaks := [] }

namespace Parser

/-! ## small steps -/

/-- Runs a method of the code generator. -/
def gen (f : CodeGenerator → CodeGenerator) : P Unit :=
  modify fun s => { s with cg := f s.cg }

/-- Runs a method of the code generator that returns a value. -/
def genGet {α : Type} (f : CodeGenerator → α × CodeGenerator) : P α := do
  let s ← get
  set { s with cg := (f s.cg).2 }
  return (f s.cg).1

def report (r : Report) : P Unit := modify fun s => { s with reports := s.reports ++ [r] }

/-- Ghost. -/
def leak (l : Leak) : P Unit := modify fun s => { s with leaks := s.leaks ++ [l] }

/-- Ghost: the value of an item with mode 3 is taken from the last register. -/
def takeItem (item : Item) : P Unit :=
  if item.mode = 3 ∧ item.inReg = false then leak .noRegister else pure ()

/-- Ghost: nobody takes the value of an item. -/
def dropItem (item : Option Item) : P Unit :=
  match item with
  | some item => if item.inReg then leak .leftOver else pure ()
  | none => pure ()

/-- `catch (IllegalTokenException e)`. -/
def catchIllegal {α : Type} (x : P α) (handler : String → P α) : P α := fun s =>
  match x s with
  | .error (.illegalToken message) s' => handler message s'
  | r => r

/-- The line that the messages name. -/
def line : P String := do return toString (← get).currentToken.lineNumber

def currentType : P TokenID := do return (← get).currentToken.type

/-! ## tokens -/

def nextToken : P Unit :=
  modify fun s =>
    match s.input with
    | t :: rest => { s with currentToken := t, input := rest }
    | [] => { s with currentToken := .eof s.lastLine }

def addToken (t : Ident) : P Unit := modify fun s => { s with tokenList := s.tokenList ++ [t] }

/-- An element of `tokenList`. -/
def tokenAt (i : Int) : P Ident := do elementAt (← get).tokenList i

/-- `tokenList.size()`. -/
def tokenCount : P Int := do return (← get).tokenList.length

/-- Continue parsing on syntax errors, but stop code generation. -/
def syntaxError {α : Type} (message : String) : P α := do
  modify fun s => { s with setCodeGeneration := false }
  throw (.illegalToken message)

/-- The sentence is complete. -/
def generateCode : P Unit := modify fun s => { s with tokenList := [] }

def arrayListEmpty : P Unit := modify fun s => { s with tokenList := [] }

inductive ErrorLevel where
  | week | strong
deriving DecidableEq, Repr

/-- Deals with a token that is not the expected one. -/
def mismatch (l : ErrorLevel) (expectedID : TokenID) : P Unit := do
  match l with
  | .week =>
    report (.warning ("Warning: missing symbol: "
      ++ String.ofList (expectedID.toString.toList.drop 1) ++ " in line " ++ (← line)))
    if expectedID = .tSemicolon then pure ()
    else addToken { type := expectedID, value := none, lineNumber := 0 }
  | .strong =>
    syntaxError ("Error: mismatch token: " ++ (← currentType).toString ++ " expected: "
      ++ expectedID.toString ++ " in line: " ++ (← line))

/-- Only remembered, never asked for: every closing brace ends a body block. -/
def countBraces (s : ParserState) : ParserState :=
  if s.currentToken.type = .tLbraces then { s with countTLBRACES := 1 }
  else if s.currentToken.type = .tRbraces then { s with countTLBRACES := -1 }
  else s

def expectAt (l : ErrorLevel) (expectedID : TokenID) : P Unit := do
  let fetch := decide ((← currentType) = expectedID)
  if fetch = false then mismatch l expectedID
  if (← currentType) = .tSemicolon then generateCode
  else if fetch then addToken (← get).currentToken
  modify countBraces
  -- fetch the next token when no token is missing
  if fetch then nextToken
  if (← currentType) = .tError then
    syntaxError ("Error: Token: \"Error\" received, thats not good ! in line " ++ (← line))

def expect (id : TokenID) : P Unit := expectAt .strong id

def expectWeak (id : TokenID) : P Unit := expectAt .week id

/-! ## symbols -/

/-- The name that is the value of a token. -/
def tokenName (i : Int) : P String := do
  return (← deref (← tokenAt i).value).asString

/-- A duplicate is reported by `addSym` itself, which catches its own exception. -/
def add2SymTable (name : String) (classType : ClassType) (type : Option TypeDesc)
    (arraySize : Int) : P Unit := do
  let type ← deref type
  let size := int32 (type.getSize * arraySize)
  let s ← get
  let (table, found) := s.cg.symbolTable.addSym name classType type size true
  set { s with cg := { s.cg with symbolTable := table } }
  if found then
    modify fun s => { s with setCodeGeneration := false }
    report (.stackTrace ("Multiple declaration of field: " ++ name))

def getSymbol (name : Option TokenValue) : P (Option SymbolTableCell) := do
  let s ← get
  return name.bind fun name => s.cg.symbolTable.getSymbol name.asString

/-- The cell of the identifier at a position, or of the symbol `method.x`. -/
def getIdentifersCell (index : Int) : P (Option SymbolTableCell) := do
  let t ← tokenAt index
  if t.type = .tSident then
    let cell ← getSymbol t.value
    if 0 < index then
      if (← tokenAt (index - 1)).type = .tDot then
        let outer ← tokenAt (index - 2)
        if outer.type = .tSident then
          let table := (← get).cg.symbolTable
          let symbols ← deref (outer.value.bind fun name => table.getMethodSymbols name.asString)
          return t.value.bind fun name => symbols.getSymbol name.asString
    return cell
  else
    return none

/-- Loads the identifier at a position into the next register. -/
def putIdentifiers2Reg (index : Int) : P (Option TypeDesc) := do
  let cell ← deref (← getIdentifersCell index)
  gen (·.loadWordType cell)
  return cell.type

/-- Loads the identifier or the constant at a position. A constant has no type here. -/
def putValue2Reg (index : Int) : P (Option TypeDesc) := do
  let t ← tokenAt index
  if t.type = .tSident then
    putIdentifiers2Reg index
  else
    let value ← parseInt t.value
    gen (·.addI value)
    return none

def identifier : P Unit := do
  expect .tSident
  modify fun s => { s with classMember := true }
  if (← currentType) = .tDot then
    expect .tDot
    expect .tSident
    modify fun s => { s with classMember := false }

end Parser

end Compiler
