import Bambinos.Compiler.ParserState

/-!
# `Parser`: expressions

The productions from `value` up to `expression`. They call each other in a circle, and every
circle but the one of `!` runs through `expression`. So each production takes the `expression` it
calls as an argument, and `expression` itself ties the knot on its fuel.

The list of jumps that `relation` extends and the operators edit is passed on and returned, as
the source passes one `LinkedList` down. `expression()` starts a list of its own.

`delayedCodeGen` is an argument of the productions as well: what they hand to it does not depend
on what it does.
-/

namespace Compiler.Parser

open Infra

/-- The type of `delayedCodeGen`. -/
abbrev DelayedCodeGen := Operation → Int → Option Item → Option Item → P (Option Item)

/-- The type of the productions that take the list of jumps. -/
abbrev Production := List FixUps → P (Option Item × List FixUps)

/-! ## arithmetic -/

/-- Constant folding in 32 bits. -/
def foldConstants (factorKind : Operation) (val1 val2 : Int) : P Int :=
  match factorKind with
  | .mul => pure (int32 (val1 * val2))
  | .div => if val2 = 0 then throw .arithmetic else pure (int32 (val1.tdiv val2))
  | .add => pure (int32 (val1 + val2))
  | .sub => pure (int32 (val1 - val2))
  | .mod => if val2 = 0 then throw .arithmetic else pure (int32 (val1.tmod val2))

/-- `tokenList.get(tokenList.size() - 1).value = ...` -/
def setLastValue (v : Int) : P Unit := do
  let _ ← tokenAt ((← tokenCount) - 1)
  modify fun s =>
    { s with tokenList := s.tokenList.modify (s.tokenList.length - 1) fun t =>
        { t with value := some (.number v) } }

/-- An arithmetic operation is for `int` only. -/
def requireInt (type : Option TypeDesc) : P Unit := do
  if type ≠ some .intType then
    syntaxError ("Invalid type for arithmetic  operation in line " ++ (← line))

/-- The item of a result in a register. -/
def resultItem (factorKind : Operation) (item1 item2 : Item) : Item :=
  { mode := 3, type := some .intType, expr := .operation factorKind item1.expr item2.expr,
    inReg := true }

/--
Writes the code of an operation once both operands are parsed. Variables are loaded here, the
left one by its position in the token list; two constants are folded.
-/
def delayedCodeGen : DelayedCodeGen := fun factorKind indexFirst item1 item2 => do
  let item2 ← match item2 with
    | none => syntaxError ("Invalid type, in line: " ++ (← line))
    | some item2 => pure item2
  let item1 ← deref item1
  let result := resultItem factorKind item1 item2
  takeItem item1
  takeItem item2
  if item1.mode = 3 ∧ item2.mode = 3 then
    gen (·.putOperation2Reg factorKind)
    return some result
  else if item1.mode = 2 ∧ item2.mode = 2 then
    if item2.type ≠ some .intType then
      syntaxError ("Invalid type, in line " ++ (← line))
    let val2 ← foldConstants factorKind item1.val item2.val
    setLastValue val2
    return some { result with mode := 2, val := val2, inReg := false }
  else if item1.mode = 1 ∧ item2.mode = 1 then
    requireInt (← putIdentifiers2Reg indexFirst)
    requireInt (← putIdentifiers2Reg ((← tokenCount) - 1))
    gen (·.putOperation2Reg factorKind)
    return some result
  else if item1.mode = 1 ∧ item2.mode = 3 then
    requireInt (← putIdentifiers2Reg indexFirst)
    gen (·.putOperation2Reg factorKind)
    return some result
  else if item1.mode = 3 ∧ item2.mode = 1 then
    let _ ← putIdentifiers2Reg ((← tokenCount) - 1)
    gen (·.putOperation2Reg factorKind)
    return some result
  else if item1.mode = 3 ∧ item2.mode = 2 then
    gen (·.putImOp2Reg factorKind item2.val)
    return some result
  else if item1.mode = 2 ∧ item2.mode = 3 then
    let factorKind ← invertForSub factorKind
    gen (·.putImOp2Reg factorKind item1.val)
    return some result
  else if item1.mode = 1 ∧ item2.mode = 2 then
    requireInt (← putIdentifiers2Reg indexFirst)
    gen (·.putImOp2Reg factorKind item2.val)
    return some result
  else if item1.mode = 2 ∧ item2.mode = 1 then
    requireInt (← putIdentifiers2Reg ((← tokenCount) - 1))
    let factorKind ← invertForSub factorKind
    gen (·.putImOp2Reg factorKind item1.val)
    return some result
  else
    return none
where
  /-- A constant minus a register becomes the sum of the constant and the negated register. -/
  invertForSub (factorKind : Operation) : P Operation := do
    if factorKind = .sub then
      gen (·.invertValofLastReg)
      return .add
    else
      return factorKind

def getOperation : P (Option Operation) := do
  match ← currentType with
  | .tMult => expect .tMult; return some .mul
  | .tDiv => expect .tDiv; return some .div
  | .tMod => expect .tMod; return some .mod
  | .tPlus => expect .tPlus; return some .add
  | .tMinus => expect .tMinus; return some .sub
  | _ => return none

def isFactorOperator (t : TokenID) : Bool := t == .tMult || t == .tDiv || t == .tMod

def isTermOperator (t : TokenID) : Bool := t == .tPlus || t == .tMinus

/-! ## values -/

/-- Ghost: the name that was parsed last. -/
def lastName (tokenList : List Ident) : String :=
  ((tokenList.getLast?.bind Ident.value).map TokenValue.asString).getD ""

def intValue : P Int := do
  expect .tNumber
  parseInt (← tokenAt ((← tokenCount) - 1)).value

def booleanValue : P (Option Item) := do
  if (← currentType) = .tTrue then
    expect .tTrue
    setLastValue 1
    return some { mode := 2, type := some .boolType, val := 1 }
  else if (← currentType) = .tFalse then
    expect .tFalse
    setLastValue 0
    return some { mode := 2, type := some .boolType, val := 0 }
  else
    syntaxError ("Wrong token " ++ (← currentType).toString ++ ", boolean Value expected, in line: "
      ++ (← line))

section Productions

variable (codeGen : DelayedCodeGen) (expression : Production)

/-- `expression()`. -/
def freshExpression : P (Option Item) := do return (← expression []).1

/-- Puts the offset of the indexed element into the last register. -/
def arraySelector : P (Option Item) := do
  -- position of the simple identifier in the token list
  let sIdentPos := (← tokenCount) - 1
  expect .tLbrack
  let mut result : Option Item := none
  if (← currentType).startSetExpression then
    let item ← deref (← freshExpression expression)
    if item.type ≠ some .intType then
      syntaxError ("Invalid type in array Selector in line: " ++ (← line))
    if item.mode = 1 ∨ item.mode = 2 then
      let _ ← putValue2Reg ((← tokenCount) - 1)
    takeItem item
    let cell ← deref (← getSymbol (← tokenAt sIdentPos).value)
    result := some { mode := 3, type := cell.type, globalScope := cell.globalScope, inReg := true }
    gen (·.selectElement cell)
  expectWeak .tRbrack
  return result

/-- Parses an argument and pushes its value. -/
def argument : P Unit := do
  let item ← deref (← freshExpression expression)
  if item.mode = 1 ∨ item.mode = 2 then
    let _ ← putValue2Reg ((← tokenCount) - 1)
  takeItem item
  gen (·.pushRegister)

/-- The called method: its address, its name in the fixup table and its type. -/
def calledMethod : P (Int × String × Option TypeDesc) := do
  let name ← tokenName ((← tokenCount) - 2)
  if (← get).classMember then
    let cell ← deref (← getIdentifersCell ((← tokenCount) - 2))
    return (cell.proc, (← get).currentClassName ++ "." ++ name, cell.type)
  else
    let className ← tokenName ((← tokenCount) - 4)
    match (← get).cg.objectTypes.lookup className with
    | none => syntaxError ("Module does not exist in line: " ++ (← line))
    | some fields =>
      let cell ← deref (fields.getGlobalSymbol name)
      return (-55, className ++ "." ++ name, cell.type)

def methodCallSuffix (fuel : Nat) : P (Option Item) := do
  expect .tLparen
  let (procMethod, foreignClassMember, type) ← calledMethod
  if (← currentType).startSetExpression then
    argument expression
  whileLoop
    (fun s => s.currentToken.type == .tComma || s.currentToken.type.startSetExpression)
    (fun _ => do
      expectWeak .tComma
      argument expression)
    fuel ()
  expect .tRparen
  let fixup ← genGet (·.methodCall procMethod)
  gen fun g => { g with fixupTable := g.fixupTable ++ [⟨foreignClassMember, fixup + 1⟩] }
  return some { mode := 3, type := type }

/-- `value`; the recursion is that of `!`, which drops the value it parsed. -/
def value (fuel : Nat) : Nat → Production
  | 0, _ => throw .timeout
  | depth + 1, fixupMap => do
    match ← currentType with
    | .tSident =>
      identifier
      let expr := Arith.variable (lastName (← get).tokenList)
      let mut returnItem : Option Item := some { mode := 1, type := none, expr := expr }
      if (← currentType) = .tLbrack then
        returnItem ← arraySelector expression
        let item ← deref returnItem
        gen (·.loadWordArray item.globalScope)
      if (← currentType) = .tLparen then
        dropItem returnItem
        returnItem ← methodCallSuffix expression fuel
      return (returnItem, fixupMap)
    | .tNumber =>
      let n ← intValue
      return (some { mode := 2, type := some .intType, val := n, expr := .number n }, fixupMap)
    | .tCharValue =>
      let n ← parseInt (← get).currentToken.value
      expect .tCharValue
      return (some { mode := 2, type := some .charType, val := n }, fixupMap)
    | .tTrue | .tFalse => return (← booleanValue, fixupMap)
    | .tStringValue => expect .tStringValue; return (none, fixupMap)
    | .tNull => expect .tNull; return (none, fixupMap)
    | .tNot =>
      expect .tNot
      let (item, fixupMap) ← value fuel depth fixupMap
      dropItem item
      return (none, fixupMap)
    | .tLparen =>
      expect .tLparen
      let (returnItem, fixupMap) ← expression fixupMap
      expect .tRparen
      return (returnItem, fixupMap)
    | _ => return (none, fixupMap)

/-! ## factor and term -/

/-- The third operand of a product and all that follows it is parsed by `expression()`. -/
def factor (fuel : Nat) : Production := fun vec => do
  let (item1, vec) ← value expression fuel fuel vec
  if isFactorOperator (← currentType) then
    let indexFirst := (← tokenCount) - 1
    let factorKind ← deref (← getOperation)
    let (item2, vec) ← value expression fuel fuel vec
    let mut returnItem ← codeGen factorKind indexFirst item1 item2
    if isFactorOperator (← currentType) then
      let factorKind ← deref (← getOperation)
      returnItem ← codeGen factorKind indexFirst returnItem (← freshExpression expression)
    return (if item2.isSome then returnItem else item1, vec)
  else
    return (item1, vec)

/-- The third operand of a sum and all that follows it is parsed by `expression()`. -/
def term (fuel : Nat) : Production := fun vec => do
  let (item1, vec) ← factor codeGen expression fuel vec
  let item1 :=
    if item1 = none ∧ (← currentType) = .tMinus then
      some { mode := 2, type := some .intType, expr := .number 0 }
    else item1
  if isTermOperator (← currentType) then
    let indexFirst := (← tokenCount) - 1
    let termKind ← deref (← getOperation)
    let (item2, vec) ← factor codeGen expression fuel vec
    let mut returnItem ← codeGen termKind indexFirst item1 item2
    if isTermOperator (← currentType) then
      let termKind ← deref (← getOperation)
      returnItem ← codeGen termKind indexFirst returnItem (← freshExpression expression)
    return (if item2.isSome then returnItem else item1, vec)
  else
    return (item1, vec)

/-! ## conditions -/

/-- The branch to take when the relation is false, and the tokens of the relation. -/
def relationOperator : P OpCode := do
  match ← currentType with
  | .tEql => expect .tEql; expect .tEql; return .bne
  | .tNot => expect .tNot; expect .tEql; return .beq
  | .tGtr => expect .tGtr; return .ble
  | .tLeq => expect .tLeq; return .bgt
  | .tLss => expect .tLss; return .bge
  | .tGeq => expect .tGeq; return .blt
  | _ => return .addi

/-- Loads an operand of a relation. The type of a variable is known only now. -/
def loadOperand (item : Item) : P Item := do
  takeItem item
  if item.mode = 1 then
    return { item with type := ← putValue2Reg ((← tokenCount) - 1) }
  else if item.mode = 2 then
    let _ ← putValue2Reg ((← tokenCount) - 1)
    return item
  else
    return item

/-- `condFixup.add(pcPos)`. -/
def addCondFixup (pcPos : Nat) : P Unit := do
  let fixups ← deref (← get).condFixup
  modify fun s => { s with condFixup := some (fixups ++ [pcPos]) }

/-- `fixupMap.add(new fixUps(pcPos, booleanLevel)); condFixup.add(pcPos);` -/
def addFixUp (fixupMap : List FixUps) (pcPos : Nat) : P (List FixUps) := do
  addCondFixup pcPos
  return fixupMap ++ [⟨pcPos, (← get).booleanLevel⟩]

/-- The cell of the last token, when it is a `boolean`. -/
def isBooleanIdentifier : P Bool := do
  match ← getIdentifersCell ((← tokenCount) - 1) with
  | some cell => return decide (cell.type = some .boolType)
  | none => return false

def relation (fuel : Nat) : Production := fun fixupMap => do
  let (item, fixupMap) ← term codeGen expression fuel fixupMap
  if (← currentType).startSetRelation then
    let item ← loadOperand (← deref item)
    let op ← relationOperator
    let (item2, fixupMap) ← term codeGen expression fuel fixupMap
    let item2 ← loadOperand (← deref item2)
    if item.type ≠ item2.type then
      syntaxError ("Cannot compare incompatible types in line: " ++ (← line))
    let pcPos ← genGet (·.relation op)
    return (some { item with inReg := false }, ← addFixUp fixupMap pcPos)
  else if (← get).condMode then
    let item ← deref item
    if item.mode = 2 ∧ item.type = some .boolType then
      let pcPos ← genGet (·.boolAss true item.val)
      return (some item, ← addFixUp fixupMap pcPos)
    else if ← isBooleanIdentifier then
      let _ ← putValue2Reg ((← tokenCount) - 1)
      let pcPos ← genGet (·.boolAss false item.val)
      return (some item, ← addFixUp fixupMap pcPos)
    else
      return (some item, fixupMap)
  else
    return (item, fixupMap)

/-- The jumps an operator of the current level may edit, and the list with their new level. -/
def selectJumps (booleanLevel : Int) (fixupMap : List FixUps) : List Nat × List FixUps :=
  ((fixupMap.filter fun f => decide (booleanLevel ≤ f.level)).map FixUps.position,
   fixupMap.map fun f => if booleanLevel ≤ f.level then { f with level := booleanLevel - 1 } else f)

/-- Edits all of the jumps but the last one. -/
def fixAllButLast (veci : List Nat) (and : Bool) : P Unit :=
  gen fun g => veci.dropLast.foldl (fun g pos => g.fixOrJumps pos false and) g

/-- `while (currentToken.type == TAND)`. -/
def andLoop (fuel : Nat) : List FixUps → P (List FixUps) :=
  whileLoop (fun s => s.currentToken.type == .tAnd)
    (fun fixupMap => do
      expect .tAnd
      let (veci, fixupMap) := selectJumps (← get).booleanLevel fixupMap
      fixAllButLast veci true
      let (item, fixupMap) ← relation codeGen expression fuel fixupMap
      dropItem item
      return fixupMap)
    fuel

def andExpression (fuel : Nat) : Production := fun fixupMap => do
  let (returnItem, fixupMap) ← relation codeGen expression fuel fixupMap
  return (returnItem, ← andLoop codeGen expression fuel fixupMap)

/-- `while (currentToken.type == TOR)`. Without a jump to the left of `||` there is no last one. -/
def orLoop (fuel : Nat) : List FixUps → P (List FixUps) :=
  whileLoop (fun s => s.currentToken.type == .tOr)
    (fun orMap => do
      expect .tOr
      let (veci, orMap) := selectJumps (← get).booleanLevel orMap
      fixAllButLast veci false
      let last ← elementAt veci ((veci.length : Int) - 1)
      gen (·.fixOrJumps last true false)
      let (item, orMap) ← andExpression codeGen expression fuel orMap
      dropItem item
      return orMap)
    fuel

/-- The body of `expression`. -/
def expressionBody (fuel : Nat) : Production := fun orMap => do
  modify fun s => { s with booleanLevel := s.booleanLevel + 1 }
  let (returnItem, orMap) ← andExpression codeGen expression fuel orMap
  let orMap ← orLoop codeGen expression fuel orMap
  modify fun s => { s with booleanLevel := s.booleanLevel - 1 }
  return (returnItem, orMap)

end Productions

/-- `expression(orMap)`. -/
def expression (codeGen : DelayedCodeGen) : Nat → Production
  | 0, _ => throw .timeout
  | fuel + 1, orMap => expressionBody codeGen (expression codeGen fuel) fuel orMap

end Compiler.Parser
