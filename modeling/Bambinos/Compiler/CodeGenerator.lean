import Bambinos.Compiler.SymbolTable

/-!
# `CodeGenerator`

The instructions and the static methods that append them to `opCode`.

`topReg` is the number of the register that was loaded last. Every method below moves it by hand.
A jump whose address is not known yet is written with the address `-100` (taken when the
condition is false) or `-1000` (taken when it is true) and fixed later.
-/

namespace Compiler

open Infra

/-! ## instructions -/

inductive OpCode where
  -- format 1
  | addi | subi | muli | divi | modi | cmpi | chki | andi | bici | ori | xori | lshi | ashi
  | ldw | ldb | pop | stw | stb | psh | beq | bne | blt | bge | bgt | ble
  -- format 2
  | add | sub | mul | div | mod | cmp | chk | and | bic | or | xor | lsh | ash
  | prni | prnc | prnb
  -- format 3
  | bsr | ret
deriving DecidableEq, Repr

/-- The number of an instruction. -/
def OpCode.code : OpCode → Nat
  | addi => 0 | subi => 1 | muli => 2 | divi => 3 | modi => 4 | cmpi => 5 | chki => 6 | andi => 7
  | bici => 8 | ori => 9 | xori => 10 | lshi => 11 | ashi => 12 | ldw => 13 | ldb => 14
  | pop => 15 | stw => 16 | stb => 17 | psh => 18 | beq => 19 | bne => 20 | blt => 21
  | bge => 22 | bgt => 23 | ble => 24
  | add => 30 | sub => 31 | mul => 32 | div => 33 | mod => 34 | cmp => 35 | chk => 36 | and => 37
  | bic => 38 | or => 39 | xor => 40 | lsh => 41 | ash => 42 | prni => 43 | prnc => 44
  | prnb => 45
  | bsr => 50 | ret => 51

def highestFormat1 : Nat := 29
def highestFormat2 : Nat := 49
def highestFormat3 : Nat := 63

/-- An instruction. `extra` is never set. -/
structure OpCodeElement where
  instruction : OpCode
  a : Int
  b : Int
  c : Int
  extra : Int := 0
deriving DecidableEq, Repr

/-- The constructor with three operands. -/
def OpCodeElement.mk3 (instruction : OpCode) (first second third : Int) : OpCodeElement :=
  { instruction := instruction, a := first, b := second, c := third }

/-- The constructor with two operands, for the branches. -/
def OpCodeElement.mk2 (instruction : OpCode) (first second : Int) : OpCodeElement :=
  { instruction := instruction, a := first, b := 0, c := second }

/-- The word that `writeOpCode` writes for an instruction. -/
def OpCodeElement.word (e : OpCodeElement) : Word :=
  let instruction := BitVec.ofNat 32 e.instruction.code
  if e.instruction.code < highestFormat1 then
    let sign : Word := if e.c < 0 then 1 else 0
    let c : Word := BitVec.ofInt 32 (if e.c < 0 then 0 - e.c else e.c)
    (instruction <<< 26) + (BitVec.ofInt 32 e.a <<< 21) + (BitVec.ofInt 32 e.b <<< 16)
      + (sign <<< 15) + c
  else if e.instruction.code < highestFormat2 then
    (instruction <<< 26) + (BitVec.ofInt 32 e.a <<< 21) + (BitVec.ofInt 32 e.b <<< 16)
      + (BitVec.ofInt 32 e.extra <<< 5) + BitVec.ofInt 32 e.c
  else if e.c < 0 then
    (instruction <<< 26) + ((1 : Word) <<< 25) + BitVec.ofInt 32 (0 - e.c)
  else
    (instruction <<< 26) + BitVec.ofInt 32 e.c

/-! ## the static fields -/

/-- An entry of the fixup table: `Class.method` and where the call stands. -/
structure FixupEntry where
  module : String
  offset : Int
deriving DecidableEq, Repr

/-- The static fields. `pc` is the address of the next instruction; addresses start at 1. -/
structure CodeGenerator where
  symbolTable : SymbolTableList
  fixupTable : List FixupEntry
  objectTypes : List (String × SymbolTableList)
  topReg : Int
  pc : Nat
  opCode : List OpCodeElement
  methodFix : Nat
  mainAddr : Int

def lnk : Int := 31
def sp : Int := 30
def fp : Int := 29
/-- The register that globals are addressed with. -/
def heap : Int := 0

/-- The operators of arithmetic. -/
inductive Operation where
  | add | sub | mul | div | mod
deriving DecidableEq, Repr

namespace CodeGenerator

def getCurrentReg (g : CodeGenerator) : Int := g.topReg

def increaseReg (g : CodeGenerator) : CodeGenerator := { g with topReg := g.topReg + 1 }

def decreaseReg (g : CodeGenerator) : CodeGenerator := { g with topReg := g.topReg - 1 }

def putOpCode (g : CodeGenerator) (code : OpCodeElement) : CodeGenerator :=
  { g with opCode := g.opCode ++ [code], pc := g.pc + 1 }

/-- The constructor: the first instruction sets the stack pointer. -/
def init : CodeGenerator :=
  putOpCode { symbolTable := .empty, fixupTable := [], objectTypes := [], topReg := 0, pc := 1,
              opCode := [], methodFix := 0, mainAddr := -50 } (.mk3 .addi sp 0 4096)

/-! ## loads, operations and stores -/

/-- The base register of a cell and its distance from there. -/
def address (cell : SymbolTableCell) : Int × Int :=
  if cell.globalScope then (heap, int32 (0 - cell.offset)) else (fp, cell.offset)

/-- Loads a scalar into the next register. -/
def loadWordType (g : CodeGenerator) (cell : SymbolTableCell) : CodeGenerator :=
  let g := g.increaseReg
  g.putOpCode (.mk3 .ldw g.topReg (address cell).1 (address cell).2)

/-- Loads a constant into the next register. -/
def addI (g : CodeGenerator) (val : Int) : CodeGenerator :=
  let g := g.increaseReg
  g.putOpCode (.mk3 .addi g.topReg 0 val)

def invertValofLastReg (g : CodeGenerator) : CodeGenerator :=
  g.putOpCode (.mk3 .sub g.getCurrentReg 0 g.getCurrentReg)

def putOperation2Reg (g : CodeGenerator) (kind : Operation) : CodeGenerator :=
  let op : OpCode :=
    match kind with
    | .add => .add
    | .sub => .sub
    | .mul => .mul
    | .mod => .mod
    | .div => .div
  (g.putOpCode (.mk3 op (g.topReg - 1) (g.topReg - 1) g.topReg)).decreaseReg

def putImOp2Reg (g : CodeGenerator) (kind : Operation) (value : Int) : CodeGenerator :=
  let op : OpCode :=
    match kind with
    | .add => .addi
    | .sub => .subi
    | .mul => .muli
    | .mod => .modi
    | .div => .divi
  g.putOpCode (.mk3 op g.topReg g.topReg value)

/--
The end of `arraySelector`, which calls the two methods above: the index in the last register
becomes the distance of the element from its base.
-/
def selectElement (g : CodeGenerator) (cell : SymbolTableCell) : CodeGenerator :=
  -- offset of the array that must be added to the index
  let calcOffset := int32 (cell.offset + cell.size)
  let g := if calcOffset < 0 then g.putImOp2Reg .add (int32 (0 - calcOffset)) else g
  if cell.globalScope = false then g.invertValofLastReg else g

/-- Stores the last register into a scalar. -/
def storeWord (g : CodeGenerator) (cell : SymbolTableCell) : CodeGenerator :=
  (g.putOpCode (.mk3 .stw g.getCurrentReg (address cell).1 (address cell).2)).decreaseReg

/-- Stores the last register into the array element whose index is in the register before. -/
def storeWordArray (g : CodeGenerator) (globalScope : Bool) : CodeGenerator :=
  let base := if globalScope then heap else fp
  let g := g.putOpCode (.mk3 .add (g.getCurrentReg - 1) base (g.getCurrentReg - 1))
  let g := g.putOpCode (.mk3 .stw g.getCurrentReg (g.getCurrentReg - 1) 0)
  g.decreaseReg.decreaseReg

/-- Replaces the index in the last register by the array element. -/
def loadWordArray (g : CodeGenerator) (globalScope : Bool) : CodeGenerator :=
  let base := if globalScope then heap else fp
  let g := g.putOpCode (.mk3 .add g.getCurrentReg base g.getCurrentReg)
  g.putOpCode (.mk3 .ldw g.getCurrentReg g.getCurrentReg 0)

/-! ## methods -/

def pushRegister (g : CodeGenerator) : CodeGenerator :=
  (g.putOpCode (.mk3 .psh g.getCurrentReg sp 1)).decreaseReg

/-- Writes a call. Returns its position in `opCode`. -/
def methodCall (g : CodeGenerator) (proc : Int) : Nat × CodeGenerator :=
  let g := g.putOpCode (.mk3 .bsr 0 0 proc)
  (g.pc - 2, g)

/-- Returns the address of the method. The frame size `-100` is fixed by the epilogue. -/
def methodPrologue (g : CodeGenerator) : Nat × CodeGenerator :=
  let methodsPC := g.pc
  let g := g.putOpCode (.mk3 .psh lnk sp 1)
  let g := g.putOpCode (.mk3 .psh fp sp 1)
  let g := g.putOpCode (.mk3 .add fp 0 sp)
  let g := g.putOpCode (.mk3 .subi sp sp (-100))
  (methodsPC, { g with methodFix := g.opCode.length - 1 })

/-- Sets the operand `c` of the instruction at a position. -/
def setC (g : CodeGenerator) (pos : Nat) (c : Int) : CodeGenerator :=
  { g with opCode := g.opCode.modify pos fun e => { e with c := c } }

def methodEpilogueMain (g : CodeGenerator) (size : Int) (main : Bool) : CodeGenerator :=
  let g := g.putOpCode (.mk3 .add sp 0 fp)
  let g := g.putOpCode (.mk3 .pop fp sp 1)
  let g := g.putOpCode (.mk3 .pop lnk sp 1)
  let g := if main then g else g.putOpCode (.mk3 .ret 0 0 lnk)
  g.setC g.methodFix size

def methodEpilogue (g : CodeGenerator) (size : Int) : CodeGenerator :=
  g.methodEpilogueMain size false

def setMainPC (g : CodeGenerator) : CodeGenerator := { g with mainAddr := g.pc }

def fixMainProc (g : CodeGenerator) (vecPos : Nat) (proc : Int) : CodeGenerator :=
  g.setC vecPos proc

/-- A type that is not printable writes nothing. -/
def printIo (g : CodeGenerator) (type : Option TypeDesc) : CodeGenerator :=
  match type with
  | some .intType => g.putOpCode (.mk3 .prni 0 0 g.getCurrentReg)
  | some .charType => g.putOpCode (.mk3 .prnc 0 0 g.getCurrentReg)
  | some .boolType => g.putOpCode (.mk3 .prnb 0 0 g.getCurrentReg)
  | _ => g

/-! ## conditions and repeats -/

/-- Writes a comparison and its false jump. Returns the position of the jump. -/
def relation (g : CodeGenerator) (op : OpCode) : Nat × CodeGenerator :=
  let g := g.putOpCode
    (.mk3 .cmp (g.getCurrentReg - 1) (g.getCurrentReg - 1) g.getCurrentReg)
  let g := g.decreaseReg
  let g := g.putOpCode (.mk2 op g.getCurrentReg (-100))
  let g := g.decreaseReg
  (g.pc - 2, g)

/-- Writes the jump over an `else` block or back to the start of a loop. -/
def elseAndLoopJump (g : CodeGenerator) (pos : Int) : Nat × CodeGenerator :=
  let g := g.putOpCode (.mk2 .beq 0 pos)
  (g.pc - 2, g)

/-- What fixing makes of one jump. A jump that has its address keeps it. -/
def fixJump (falseJump trueJump : Int) (e : OpCodeElement) : OpCodeElement :=
  if e.c = -100 then { e with c := falseJump }
  else if e.c = -1000 then { e with c := trueJump }
  else e

/-- Fixes one jump. -/
def fixConditionJump (g : CodeGenerator) (fixPC : Nat) (falseJump trueJump : Int) :
    CodeGenerator :=
  { g with opCode := g.opCode.modify fixPC (fixJump falseJump trueJump) }

/-- Fixes the jumps of a condition. -/
def fixConditionJumps (g : CodeGenerator) (fixPC : List Nat) (falseJump trueJump : Int) :
    CodeGenerator :=
  fixPC.foldl (fun g pos => g.fixConditionJump pos falseJump trueJump) g

/-- Any other instruction is an internal error, which is printed and answered with 0. -/
def invertRelation : OpCode → OpCode
  | .bne => .beq
  | .beq => .bne
  | .ble => .bgt
  | .bgt => .ble
  | .bge => .blt
  | .blt => .bge
  | _ => .addi

/-- Edits a jump of the left operand of `||` or `&&` once its right operand is known to follow. -/
def fixOrJumps (g : CodeGenerator) (pos : Nat) (falseJumps and : Bool) : CodeGenerator :=
  if falseJumps then
    { g with opCode := g.opCode.modify pos fun e =>
        { e with instruction := invertRelation e.instruction, c := -1000 } }
  else if and then
    { g with opCode := g.opCode.modify pos fun e =>
        if e.c = -1000 then { e with c := g.pc } else e }
  else
    { g with opCode := g.opCode.modify pos fun e =>
        if e.c = -100 then { e with c := g.pc } else e }

/-- Writes the test of a boolean. Returns the position of its jump. -/
def boolAss (g : CodeGenerator) (imm : Bool) (value : Int) : Nat × CodeGenerator :=
  let g := if imm then g.addI value else g
  let g := g.putOpCode (.mk2 .beq g.getCurrentReg (-100))
  let g := g.decreaseReg
  (g.pc - 2, g)

/-- Lets the jumps of the `return` statements end at the next instruction. -/
def fixReturnJumps (g : CodeGenerator) (fixReturn : List Nat) : CodeGenerator :=
  fixReturn.foldl (fun g pos => g.setC pos g.pc) g

/-! ## output files -/

/-- The code as `writeOpCode` writes it. -/
def writeOpCode (g : CodeGenerator) : List Word := g.opCode.map OpCodeElement.word

end CodeGenerator

end Compiler
