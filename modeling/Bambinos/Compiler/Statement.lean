import Bambinos.Compiler.Expression

/-!
# `Parser`: statements, declarations and the program

`bodyBlock` and `classBlock` catch syntax errors and go on at the next token they can start
again from. Every circle of calls runs through one of them, so they carry the fuel.
-/

namespace Compiler.Parser

open Infra

section Statements

variable (fuel : Nat)

/-- `expression()` with the parser's own `delayedCodeGen`. -/
def newExpression : P (Option Item) := freshExpression (expression delayedCodeGen fuel)

/-! ## types -/

def primitive : P (Option TypeDesc) := do
  match ← currentType with
  | .tInt => expect .tInt; return some .intType
  | .tBool => expect .tBool; return some .boolType
  | .tChar => expect .tChar; return some .charType
  | t => syntaxError ("Wrong token " ++ t.toString ++ ", primitive datatype expected, in line: "
      ++ (← line))

def primitiveArray : P (Option TypeDesc) := do
  match ← currentType with
  | .tIntArray => expect .tIntArray; return some .intType
  | .tBoolArray => expect .tBoolArray; return some .boolType
  | .tCharArray => expect .tCharArray; return some .charType
  | t => syntaxError ("Wrong token " ++ t.toString
      ++ ", primitive Array datatype expected, in line: " ++ (← line))

def object : P Unit := expect .tSident

/-- The type of an object or of an array of strings is `null`. -/
def dataType : P (Option TypeDesc) := do
  let t ← currentType
  if t.startSetPrimitive then primitive
  else if t.startSetPrimitiveArray then primitiveArray
  else if t = .tString then expect .tString; return some .stringType
  else if t = .tStringArray then expect .tStringArray; return none
  else if t = .tSident then object; return none
  else syntaxError ("Wrong token " ++ t.toString ++ ", datatype expected in line: " ++ (← line))

def dataTypeDescriptor : P (Option TypeDesc) := do
  let type ← dataType
  identifier
  if (← currentType) = .tLbrack then
    dropItem (← arraySelector (expression delayedCodeGen fuel))
  return type

/-! ## assignments -/

/-- Which token from the end is the last operand: closing brackets are skipped. -/
def lastOperand : List Ident → Int → P Int
  | [], _ => throw .indexOutOfBounds
  | t :: rest, i => do
    if t.type = .tRparen then
      match rest with
      | [] => throw .indexOutOfBounds
      | next :: _ =>
        if next.type ≠ .tNumber then
          report (.message ("INTERNAL ERROR IN PARSER. this should never ever happen, "
            ++ "probably your computer is defect, buy a new one !"))
      lastOperand rest (i + 1)
    else
      return i

/-- Parses `= expression` and leaves the value in the last register. -/
def assignmentSuffix : P Item := do
  expect .tEql
  let returnItem ← deref (← newExpression fuel)
  if returnItem.mode = 1 ∨ returnItem.mode = 2 then
    let i ← lastOperand (← get).tokenList.reverse 1
    let _ ← putValue2Reg ((← tokenCount) - i)
  takeItem returnItem
  return returnItem

/-- A variable that stands alone gets its type from the symbol table. -/
def assignedType (item : Item) : P (Option TypeDesc) := do
  if item.mode = 1 then
    let last ← tokenAt ((← tokenCount) - 1)
    return (← deref (← getSymbol last.value)).type
  else
    return item.type

/-- The call of a constructor writes no code, but its argument does. -/
def objectDeclarationSuffix : P Unit := do
  identifier
  expectWeak .tEql
  expectWeak .tNew
  if (← currentType) = .tSident then
    object
    if (← currentType) = .tLparen then
      expect .tLparen
      if (← currentType).startSetExpression then
        dropItem (← newExpression fuel)
      expect .tRparen
    else
      expect .tLbrack
      expect .tNumber
      expectWeak .tRbrack
  else if (← currentType).startSetPrimitive then
    let _ ← primitive
    expectWeak .tLbrack
    expectWeak .tNumber
    expectWeak .tRbrack
  else
    syntaxError ("Illelag token: " ++ (← currentType).toString ++ " in objectDeclaration"
      ++ (← line))

def arrayDeclarationSuffix : P Unit := do
  let mut type := 0
  let mut itemArray : Option Item := none
  if (← currentType) = .tLbrack then
    itemArray ← arraySelector (expression delayedCodeGen fuel)
    type := 1
  if (← currentType) = .tSident then
    dropItem itemArray
    objectDeclarationSuffix fuel
  else if (← currentType) = .tEql then
    let item ← assignmentSuffix fuel
    let itemType ← assignedType item
    if type = 0 then
      let cell ← deref (← getSymbol (← tokenAt 0).value)
      if cell.type ≠ itemType then
        syntaxError ("Invalid type assignment in line: " ++ (← line))
      gen (·.storeWord cell)
    else
      let element ← deref itemArray
      if element.type = itemType then
        gen (·.storeWordArray element.globalScope)
      else
        syntaxError ("Not Type Safe, in array, in line: " ++ (← line))
  else
    dropItem itemArray

def objectDeclarationAssignmentMethodCall : P Unit := do
  arrayListEmpty
  identifier
  if (← currentType) = .tEql ∨ (← currentType) = .tSident ∨ (← currentType) = .tLbrack then
    arrayDeclarationSuffix fuel
  else if (← currentType) = .tLparen then
    let _ ← methodCallSuffix (expression delayedCodeGen fuel) fuel
  expectWeak .tSemicolon

/-! ## declarations -/

def objectDeclaration : P Unit := do
  object
  objectDeclarationSuffix fuel
  expectWeak .tSemicolon

/--
`int x; int x = expression;` The value is stored before or without being loaded: only an `int`
without an initialiser is loaded with 0.
-/
def primitiveDeclaration : P Unit := do
  let type ← primitive
  identifier
  if (← currentType) = .tEql then
    let item ← assignmentSuffix fuel
    let itemType ← assignedType item
    if itemType ≠ type then
      syntaxError ("Invalid Type assignment, in line :" ++ (← line))
  else if type = some .intType then
    gen (·.addI 0)
  else
    leak .noRegister
  let name ← tokenName 1
  add2SymTable name .var type 1
  let cell ← deref (← getSymbol (← tokenAt 1).value)
  gen (·.storeWord cell)

/-- `int[] x = new int[4];` -/
def primitiveArrayDeclaration : P Unit := do
  let type ← primitiveArray
  identifier
  expectWeak .tEql
  expectWeak .tNew
  let _ ← primitive
  expectWeak .tLbrack
  let arraySize ← parseInt (← get).currentToken.value
  expect .tNumber
  expectWeak .tRbrack
  let name ← tokenName 1
  add2SymTable name .array type arraySize

def stringDeclaration : P Unit := do
  expect .tString
  identifier
  expectWeak .tEql
  expectWeak .tNew
  expectWeak .tString
  expectWeak .tLparen
  if (← currentType) = .tStringValue then
    expect .tStringValue
  expectWeak .tRparen

def stringArrayDeclaration : P Unit := do
  expect .tStringArray
  identifier
  expectWeak .tEql
  expectWeak .tNew
  expectWeak .tString
  expectWeak .tLbrack
  expect .tNumber
  expectWeak .tRbrack

def simpleDeclaration : P Unit := do
  arrayListEmpty
  let t ← currentType
  if t.startSetPrimitive then primitiveDeclaration fuel
  else if t.startSetPrimitiveArray then primitiveArrayDeclaration
  else if t = .tString then stringDeclaration
  else if t = .tStringArray then stringArrayDeclaration
  expectWeak .tSemicolon

/-! ## statements -/

/-- The loaded operand of a `println` keeps its register. -/
def printLast (type : Option TypeDesc) : P Unit := do
  let _ ← putValue2Reg ((← tokenCount) - 1)
  gen (·.printIo type)
  leak .leftOver

def print : P Unit := do
  arrayListEmpty
  expect .tPrint
  expectWeak .tLparen
  match ← currentType with
  | .tSident =>
    identifier
    let cell ← getIdentifersCell ((← tokenCount) - 1)
    let _ ← putValue2Reg ((← tokenCount) - 1)
    gen (·.printIo (← deref cell).type)
    leak .leftOver
  | .tNumber => printValue (some .intType)
  | .tCharValue => printValue (some .charType)
  | .tTrue | .tFalse => printValue (some .boolType)
  | .tStringValue => expect .tStringValue
  | _ => report (.message ("Nothing to print in line " ++ (← line)))
  expectWeak .tRparen
  expectWeak .tSemicolon
where
  /-- `value(null)` and its output. -/
  printValue (type : Option TypeDesc) : P Unit := do
    let _ ← value (expression delayedCodeGen fuel) fuel fuel []
    printLast type

/-- The value of a `return` keeps its register. The epilogue is reached by a jump. -/
def returnStatement : P Unit := do
  expect .tReturn
  let returnItem ← deref (← newExpression fuel)
  if returnItem.mode = 1 ∨ returnItem.mode = 2 then
    let _ ← putValue2Reg ((← tokenCount) - 1)
  takeItem returnItem
  leak .leftOver
  expectWeak .tSemicolon
  let pos ← genGet (·.methodCall (-43))
  modify fun s => { s with fixReturn := s.fixReturn ++ [pos] }

/-- Saves the jumps of the enclosing condition and starts a list for a new one. -/
def pushCondFixup : P Unit :=
  modify fun s => { s with condFixStack := s.condFixup :: s.condFixStack, condFixup := some [] }

def popCondFixup : P Unit := do
  match (← get).condFixStack with
  | [] => throw .noSuchElement
  | top :: rest => modify fun s => { s with condFixup := top, condFixStack := rest }

/-- Parses the condition of an `if` or `while`. -/
def condition : P Unit := do
  modify fun s => { s with condMode := true }
  let item ← newExpression fuel
  dropItem item
  modify fun s => { s with condMode := false }

/-- `CodeGenerator.fixConditionJump(condFixup, falseJump, trueJump)`. -/
def fixCondition (falseJump trueJump : Int) : P Unit := do
  let fixups ← deref (← get).condFixup
  gen (·.fixConditionJumps fixups falseJump trueJump)

/-- `CodeGenerator.PC`. -/
def codePC : P Nat := do return (← get).cg.pc

variable (bodyBlock : P Unit)

def whileStatement : P Unit := do
  pushCondFixup
  expect .tWhile
  expectWeak .tLparen
  let whileLoopStart ← codePC
  condition fuel
  expectWeak .tRparen
  expectWeak .tLbraces
  let trueJump ← codePC
  bodyBlock
  expectWeak .tRbraces
  let _ ← genGet (·.elseAndLoopJump whileLoopStart)
  fixCondition (← codePC) trueJump
  popCondFixup

def ifStatement : P Unit := do
  pushCondFixup
  expect .tIf
  expectWeak .tLparen
  condition fuel
  expectWeak .tRparen
  expectWeak .tLbraces
  let trueJump ← codePC
  bodyBlock
  expectWeak .tRbraces
  if (← currentType) = .tElse then
    let elsePC ← genGet (·.elseAndLoopJump (-100))
    fixCondition (elsePC + 2) trueJump
    expect .tElse
    expectWeak .tLbraces
    bodyBlock
    expectWeak .tRbraces
    let pc ← codePC
    gen (·.fixConditionJump elsePC pc trueJump)
  else
    fixCondition (← codePC) trueJump
  popCondFixup

/-- One turn of the loop of `bodyBlock`. Returns whether the loop goes on. -/
def bodyStatement : P Bool := do
  let t ← currentType
  if t = .tWhile then whileStatement fuel bodyBlock; return true
  else if t = .tIf then ifStatement fuel bodyBlock; return true
  else if t = .tReturn then returnStatement fuel; return true
  else if t.startSetSimpleDeclaration then simpleDeclaration fuel; return true
  else if t = .tSident then objectDeclarationAssignmentMethodCall fuel; return true
  else if t = .tPrint then print fuel; return true
  else if t = .tRbraces then return !decide ((← get).countTLBRACES ≤ 2)
  else if t.ordinal < TokenID.strongSymCB.ordinal then nextToken; return true
  else return false

/-- Fetches tokens until one that is not below the border. -/
def skipBelow (border : TokenID) : P Unit :=
  whileLoop (fun s => decide (s.currentToken.type.ordinal < border.ordinal))
    (fun _ => nextToken) fuel ()

end Statements

/-- On a syntax error the block starts again at the next token a statement can begin with. -/
def bodyBlock : Nat → P Unit
  | 0 => throw .timeout
  | fuel + 1 => do
    let goOn ← catchIllegal (bodyStatement fuel (bodyBlock fuel)) fun message => do
      report (.stackTrace message)
      skipBelow fuel .strongSymBB
      bodyBlock fuel
      return true
    if goOn then bodyBlock fuel

/-! ## methods -/

/-- `CodeGenerator.symbolTable.getSymbol(name).methodSymbols.fixOffset(fix)` -/
def fixMethodOffset (name : String) (fix : Int) : P Unit := do
  let _ ← deref ((← get).cg.symbolTable.getMethodSymbols name)
  gen fun g => { g with symbolTable := g.symbolTable.modifyMethodSymbols name (·.fixOffset fix) }

/-- Changes the cell of a symbol. -/
def modifySymbol (name : String) (f : SymbolTableCell → SymbolTableCell) : P Unit := do
  let _ ← deref ((← get).cg.symbolTable.getSymbol name)
  gen fun g => { g with symbolTable := g.symbolTable.modifyCell name f }

/-- A parameter: its type and its name. -/
def parameter (fuel : Nat) : P (Option TypeDesc × String) := do
  let type ← dataTypeDescriptor fuel
  return (type, ← tokenName ((← tokenCount) - 1))

def parameterList (fuel : Nat) : P (List (Option TypeDesc × String)) := do
  if (← currentType).startSetSimpleDeclaration then
    whileLoop
      (fun s => s.currentToken.type == .tComma || s.currentToken.type.startSetSimpleDeclaration)
      (fun params => do
        expectWeak .tComma
        return params ++ [← parameter fuel])
      fuel [← parameter fuel]
  else
    return []

/-- Adds the parameters of a method. -/
def addParameters : List (Option TypeDesc × String) → P Unit
  | [] => pure ()
  | (type, name) :: rest => do
    add2SymTable name .var type 1
    addParameters rest

/-- The return type; its presence and that of the name are counted. -/
def returnType : P Nat := do
  if (← currentType) = .tVoid then
    expect .tVoid
    return 1
  else if (← currentType).startSetDataType then
    let _ ← dataType
    return 1
  else
    syntaxError ("Illegal Method Declaration, Return Type not valid. Token: "
      ++ (← currentType).toString ++ "not valid. in line:" ++ (← line))

def methodDeclaration (fuel : Nat) : P Unit := do
  arrayListEmpty
  expect .tPublic
  expectWeak .tStatic
  let mut verifyReturnType ← returnType
  let name := (← deref (← get).currentToken.value).asString
  if name = "main" then
    gen (·.setMainPC)
  if (← currentType) = .tSident then
    expect .tSident
    verifyReturnType := verifyReturnType + 1
  if verifyReturnType < 2 then
    syntaxError ("Illegal Method Declaration, no return type specified. Token: "
      ++ (← currentType).toString ++ "not valid. in line:" ++ (← line))
  expect .tLparen
  let offsetBefore := (← get).cg.symbolTable.getCurrentOffset
  add2SymTable name .method (some .intType) 0
  let params ← parameterList fuel
  expectWeak .tRparen
  expectWeak .tLbraces
  -- parameters lie above the frame pointer, behind the return address
  fixMethodOffset name (params.length + 2)
  addParameters params
  fixMethodOffset name (-2)
  let proc ← genGet (·.methodPrologue)
  modifySymbol name fun cell => { cell with proc := proc }
  bodyBlock fuel
  let symbols ← deref ((← get).cg.symbolTable.getMethodSymbols name)
  let size := if symbols.offset < 0 then int32 (0 - symbols.offset) else symbols.offset
  modifySymbol name fun cell => { cell with size := size, offset := int32 (offsetBefore + size - 1) }
  gen fun g => { g with symbolTable := g.symbolTable.fixOffset size }
  expectWeak .tRbraces
  let fixReturn := (← get).fixReturn
  gen (·.fixReturnJumps fixReturn)
  modify fun s => { s with fixReturn := [] }
  if name ≠ "main" then
    gen (·.methodEpilogue size)
  else
    gen (·.methodEpilogueMain size true)

/-! ## the program -/

/-- The declarations of a class. -/
def classDeclarations (fuel : Nat) : P Unit :=
  whileLoop
    (fun s => s.currentToken.type == .tSident || s.currentToken.type.startSetSimpleDeclaration)
    (fun _ => do
      if (← currentType) = .tSident then
        objectDeclaration fuel
      if (← currentType).startSetSimpleDeclaration then
        simpleDeclaration fuel)
    fuel ()

/-- The `try` block of `classBlock`. -/
def classMembers (fuel : Nat) : P Unit := do
  classDeclarations fuel
  -- the program jumps to main after the declarations
  let fixMainPC ← genGet (·.methodCall (-5))
  whileLoop (fun s => s.currentToken.type == .tPublic) (fun _ => methodDeclaration fuel) fuel ()
  if (← get).cg.mainAddr ≠ -50 then
    let main ← deref ((← get).cg.symbolTable.getSymbol "main")
    gen (·.fixMainProc fixMainPC main.proc)

/-- On a syntax error the block starts again at the next `public`. -/
def classBlock : Nat → P Unit
  | 0 => throw .timeout
  | fuel + 1 =>
    catchIllegal (classMembers fuel) fun message => do
      report (.stackTrace message)
      whileLoop (fun s => s.currentToken.type != .tPublic) (fun _ => nextToken) fuel ()
      classBlock fuel

def classDeclaration (fuel : Nat) : P Unit :=
  catchIllegal
    (do
      expectWeak .tPublic
      expectWeak .tClass
      expect .tSident
      expectWeak .tLbraces
      classBlock fuel
      expectWeak .tRbraces
      expectWeak .tEof)
    fun message => report (.stackTrace message)

def packageDeclaration : P Unit := do
  expect .tPackage
  identifier
  expectWeak .tSemicolon

/-- The identifiers of an import, joined by `/`. -/
def packagePath (tokens : List Ident) : String :=
  (tokens.filter (·.type == .tSident)).foldl
    (fun path t =>
      let name := (t.value.map TokenValue.asString).getD ""
      if path = "" then name else path ++ "/" ++ name)
    ""

/-- Reads the symbol file of a module. What goes wrong is printed, and the table stays empty. -/
def importSymbols (moduleName : String) : P SymbolTableList := do
  match (← get).symbolFiles.lookup (moduleName ++ ".sym") with
  | some list => return list
  | none =>
    report (.stackTrace (moduleName ++ ".sym"))
    return .empty

def packageImport : P Unit := do
  expect .tImport
  identifier
  let packageName := packagePath (← get).tokenList
  let moduleName ← tokenName ((← tokenCount) - 1)
  gen fun g => { g with symbolTable := g.symbolTable.addModule packageName }
  expectWeak .tSemicolon
  let list ← importSymbols moduleName
  gen fun g =>
    { g with objectTypes := (moduleName, list) :: g.objectTypes.filter (·.1 != moduleName) }

def program (fuel : Nat) : P Unit := do
  nextToken
  if (← currentType) = .tPackage then
    catchIllegal packageDeclaration fun message => report (.stackTrace message)
  whileLoop (fun s => s.currentToken.type == .tImport)
    (fun _ =>
      catchIllegal packageImport fun message => do
        skipBelow fuel .strongSymCB
        report (.stackTrace message))
    fuel ()
  classDeclaration fuel

end Compiler.Parser
