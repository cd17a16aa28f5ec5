import Bambinos.Compiler.CodeGenerator

/-!
# `VM`

The virtual machine: 32 registers, 4097 words of memory, and the instructions of a binary at the
addresses from 1 on. A register or a cell of memory holds `null` until it is written.

The machine is parametric in what its instructions are. `decode` is how `execute` takes a word
apart; `OpCodeElement.fields` are the operands that the code generator meant. A word that decodes to
what was meant is executed like the instruction (`decode_word`).
-/

namespace Vm

open Infra Compiler

/-! ## decoding -/

/-- An instruction as the `switch` of `execute` sees it. -/
structure Fields where
  opCode : Nat
  targetValue : Int
  firstSourceValue : Int
  secondSourceValue : Int
deriving DecidableEq, Repr

/-- The sign bit and the magnitude of an operand. -/
def signed (sign magnitude : Word) : Int :=
  if sign = 1 then -magnitude.toNat else magnitude.toNat

/-- How `execute` takes a word apart. -/
def decode (currentInstruction : Word) : Fields :=
  let opCode := (currentInstruction >>> 26).toNat
  if opCode ≤ highestFormat1 then
    { opCode := opCode
      targetValue := ((currentInstruction &&& 65011712) >>> 21).toNat
      firstSourceValue := ((currentInstruction &&& 2031616) >>> 16).toNat
      secondSourceValue :=
        signed ((currentInstruction &&& 65535) >>> 15) (currentInstruction &&& 32767) }
  else if opCode ≤ highestFormat2 then
    { opCode := opCode
      targetValue := ((currentInstruction &&& 65011712) >>> 21).toNat
      firstSourceValue := ((currentInstruction &&& 2031616) >>> 16).toNat
      secondSourceValue := (currentInstruction &&& 31).toNat }
  else
    { opCode := opCode
      targetValue :=
        signed ((currentInstruction &&& 33554432) >>> 25) (currentInstruction &&& 33554431)
      firstSourceValue := 0
      secondSourceValue := 0 }

/-- The operands that an instruction of the code generator stands for. -/
def fields (e : OpCodeElement) : Fields :=
  if e.instruction.code ≤ highestFormat2 then
    { opCode := e.instruction.code, targetValue := e.a, firstSourceValue := e.b,
      secondSourceValue := e.c }
  else
    { opCode := e.instruction.code, targetValue := e.c, firstSourceValue := 0,
      secondSourceValue := 0 }

/-! ## state -/

/-- What is printed while running. -/
inductive Printed where
  | int (v : Word)
  | char (v : Word)
  | bool (v : Bool)
  | message (text : String)
deriving DecidableEq, Repr

/-- The static fields. `IR` is the instruction to be executed, `CIP` its address. -/
structure State (ι : Type) where
  registers : Nat → Option Word
  memory : Nat → Option Word
  pc : Option Int
  ir : Option ι
  cip : Int
  output : List Printed

/-- A static method of the machine. -/
abbrev M (ι : Type) := Method (State ι)

def registerCount : Nat := 32
def memorySize : Nat := 4097

section Machine

variable {ι : Type}

/-- An index into an array of the given length. -/
def checkIndex (i : Int) (length : Nat) : M ι Nat :=
  if 0 ≤ i ∧ i < length then pure i.toNat else throw .indexOutOfBounds

/-- `registers[i]`. -/
def getRegister (i : Int) : M ι (Option Word) := do
  let i ← checkIndex i registerCount
  return (← get).registers i

/-- `registers[i]` used as an `int`. -/
def register (i : Int) : M ι Word := do deref (← getRegister i)

/-- `registers[i] = v`. -/
def setRegister (i : Int) (v : Option Word) : M ι Unit := do
  let i ← checkIndex i registerCount
  modify fun s => { s with registers := Function.update s.registers i v }

/-- `memory[i]`. -/
def getMemory (i : Word) : M ι (Option Word) := do
  let i ← checkIndex i.toInt memorySize
  return (← get).memory i

/-- `memory[i] = v`. -/
def setMemory (i : Word) (v : Option Word) : M ι Unit := do
  let i ← checkIndex i.toInt memorySize
  modify fun s => { s with memory := Function.update s.memory i v }

def print (p : Printed) : M ι Unit := modify fun s => { s with output := s.output ++ [p] }

/-- An immediate operand. -/
def imm (r2 : Int) : Word := BitVec.ofInt 32 r2

/-! ## arithmetic -/

def executeADD (r0 r1 r2 : Int) : M ι Unit := do
  setRegister r0 (some ((← register r1) + (← register r2)))

def executeADDI (r0 r1 r2 : Int) : M ι Unit := do
  setRegister r0 (some ((← register r1) + imm r2))

def executeSUB (r0 r1 r2 : Int) : M ι Unit := do
  setRegister r0 (some ((← register r1) - (← register r2)))

def executeSUBI (r0 r1 r2 : Int) : M ι Unit := do
  setRegister r0 (some ((← register r1) - imm r2))

def executeMUL (r0 r1 r2 : Int) : M ι Unit := do
  setRegister r0 (some ((← register r1) * (← register r2)))

def executeMULI (r0 r1 r2 : Int) : M ι Unit := do
  setRegister r0 (some ((← register r1) * imm r2))

def executeDIV (r0 r1 r2 : Int) : M ι Unit := do
  if (← register r2) = 0 then
    print (.message "Division by 0")
  else
    setRegister r0 (some ((← register r1).sdiv (← register r2)))

def executeDIVI (r0 r1 r2 : Int) : M ι Unit := do
  if r2 = 0 then
    print (.message "Division by 0")
  else
    setRegister r0 (some ((← register r1).sdiv (imm r2)))

def executeMOD (r0 r1 r2 : Int) : M ι Unit := do
  if (← register r2) = 0 then
    print (.message "Division by 0")
  else
    setRegister r0 (some ((← register r1).srem (← register r2)))

def executeMODI (r0 r1 r2 : Int) : M ι Unit := do
  if r2 = 0 then
    print (.message "Division by 0")
  else
    setRegister r0 (some ((← register r1).srem (imm r2)))

def executeCMP (r0 r1 r2 : Int) : M ι Unit := do
  setRegister r0 (some ((← register r1) - (← register r2)))

def executeCMPI (r0 r1 r2 : Int) : M ι Unit := do
  setRegister r0 (some ((← register r1) - imm r2))

def executeCHK (r0 r1 : Int) : M ι Unit := do
  let value ← register r0
  if value.toInt < 0 then
    print (.message "ERROR: CHK: out of range")
  else if (← register r1).toInt < value.toInt then
    print (.message "ERROR: CHK: out of range")

def executeCHKI (r0 r1 : Int) : M ι Unit := do
  let value ← register r0
  if value.toInt < 0 ∨ r1 < value.toInt then
    print (.message "ERROR: CHKI: out of range")

/-! ## bits -/

def executeAND (r0 r1 r2 : Int) : M ι Unit := do
  setRegister r0 (some ((← register r1) &&& (← register r2)))

def executeANDI (r0 r1 r2 : Int) : M ι Unit := do
  setRegister r0 (some ((← register r1) &&& imm r2))

def executeOR (r0 r1 r2 : Int) : M ι Unit := do
  setRegister r0 (some ((← register r1) ||| (← register r2)))

def executeORI (r0 r1 r2 : Int) : M ι Unit := do
  setRegister r0 (some ((← register r1) ||| imm r2))

def executeXOR (r0 r1 r2 : Int) : M ι Unit := do
  setRegister r0 (some ((← register r1) ^^^ (← register r2)))

def executeXORI (r0 r1 r2 : Int) : M ι Unit := do
  setRegister r0 (some ((← register r1) ^^^ imm r2))

def executeBIC (r0 r1 r2 : Int) : M ι Unit := do
  setRegister r0 (some ((← register r1) &&& ~~~(← register r2)))

def executeBICI (r0 r1 r2 : Int) : M ι Unit := do
  setRegister r0 (some ((← register r1) &&& ~~~(imm r2)))

/-- Java shifts by the lowest five bits of the distance. -/
def shiftDistance (n : Word) : Nat := n.toNat % 32

def executeLSH (r0 r1 r2 : Int) : M ι Unit := do
  let distance := shiftDistance (← register r2)
  if 0 < r2 then
    setRegister r0 (some ((← register r1) >>> distance))
  else
    setRegister r0 (some ((← register r1).sshiftRight distance))

def executeLSHI (r0 r1 r2 : Int) : M ι Unit := do
  let distance := shiftDistance (imm r2)
  if 0 < r2 then
    setRegister r0 (some ((← register r1) >>> distance))
  else
    setRegister r0 (some ((← register r1).sshiftRight distance))

def executeASH (r0 r1 r2 : Int) : M ι Unit := do
  if 0 < r2 then
    setRegister r0 (some ((← register r1).sshiftRight (shiftDistance (← register r2))))

def executeASHI (r0 r1 r2 : Int) : M ι Unit := do
  if 0 < r2 then
    setRegister r0 (some ((← register r1).sshiftRight (shiftDistance (imm r2))))

/-! ## memory and stack -/

def executeLDW (r0 r1 r2 : Int) : M ι Unit := do
  setRegister r0 (← getMemory ((← register r1) + imm r2))

def executePOP (r0 r1 r2 : Int) : M ι Unit := do
  setRegister r0 (← getMemory (← register r1))
  setRegister r1 (some ((← register r1) + imm r2))

def executeSTW (r0 r1 r2 : Int) : M ι Unit := do
  let address := (← register r1) + imm r2
  setMemory address (← getRegister r0)

def executePSH (r0 r1 r2 : Int) : M ι Unit := do
  setRegister r1 (some ((← register r1) - imm r2))
  setMemory (← register r1) (← getRegister r0)

/-! ## output -/

def executePRNI (r2 : Int) : M ι Unit := do
  match ← getRegister r2 with
  | some v => print (.int v)
  | none => pure ()

def executePRNC (r2 : Int) : M ι Unit := do
  match ← getRegister r2 with
  | some v => print (.char v)
  | none => pure ()

def executePRNB (r2 : Int) : M ι Unit := do
  match ← getRegister r2 with
  | some v =>
    if v = 0 then print (.bool false)
    else if v = 1 then print (.bool true)
  | none => pure ()

/-! ## jumps -/

/-- The address `-1` is the exit symbol. -/
def executeBSR (jumpAddress : Int) : M ι Unit := do
  if jumpAddress = -1 then
    modify fun s => { s with pc := none }
  else
    let pc := (← get).pc
    setRegister 31 (pc.map (BitVec.ofInt 32))
    modify fun s => { s with pc := some jumpAddress }

def executeRET (r0 : Int) : M ι Unit := do
  let target ← getRegister r0
  modify fun s => { s with pc := target.map BitVec.toInt }

/-- A branch tests a register and jumps like `BSR`. -/
def branch (taken : Int → Bool) (r0 jumpAddress : Int) : M ι Unit := do
  if taken (← register r0).toInt then executeBSR jumpAddress

def executeBEQ : Int → Int → M ι Unit := branch fun v => v == 0
def executeBNE : Int → Int → M ι Unit := branch fun v => v != 0
def executeBLT : Int → Int → M ι Unit := branch fun v => v < 0
def executeBGE : Int → Int → M ι Unit := branch fun v => 0 ≤ v
def executeBGT : Int → Int → M ι Unit := branch fun v => 0 < v
def executeBLE : Int → Int → M ι Unit := branch fun v => v ≤ 0

/-! ## execute -/

/-- The `switch` of `execute`. -/
def dispatch (f : Fields) : M ι Unit :=
  let r0 := f.targetValue
  let r1 := f.firstSourceValue
  let r2 := f.secondSourceValue
  match f.opCode with
  | 0 => executeADDI r0 r1 r2
  | 1 => executeSUBI r0 r1 r2
  | 2 => executeMULI r0 r1 r2
  | 3 => executeDIVI r0 r1 r2
  | 4 => executeMODI r0 r1 r2
  | 5 => executeCMPI r0 r1 r2
  | 6 => executeCHKI r0 r1
  | 7 => executeANDI r0 r1 r2
  | 8 => executeBICI r0 r1 r2
  | 9 => executeORI r0 r1 r2
  | 10 => executeXORI r0 r1 r2
  | 11 => executeLSHI r0 r1 r2
  | 12 => executeASHI r0 r1 r2
  | 13 => executeLDW r0 r1 r2
  | 15 => executePOP r0 r1 r2
  | 16 => executeSTW r0 r1 r2
  | 18 => executePSH r0 r1 r2
  | 19 => executeBEQ r0 r2
  | 20 => executeBNE r0 r2
  | 21 => executeBLT r0 r2
  | 22 => executeBGE r0 r2
  | 23 => executeBGT r0 r2
  | 24 => executeBLE r0 r2
  | 30 => executeADD r0 r1 r2
  | 31 => executeSUB r0 r1 r2
  | 32 => executeMUL r0 r1 r2
  | 33 => executeDIV r0 r1 r2
  | 34 => executeMOD r0 r1 r2
  | 35 => executeCMP r0 r1 r2
  | 36 => executeCHK r0 r1
  | 37 => executeAND r0 r1 r2
  | 38 => executeBIC r0 r1 r2
  | 39 => executeOR r0 r1 r2
  | 40 => executeXOR r0 r1 r2
  | 41 => executeLSH r0 r1 r2
  | 42 => executeASH r0 r1 r2
  | 43 => executePRNI r2
  | 44 => executePRNC r2
  | 45 => executePRNB r2
  | 50 => executeBSR r0
  | 51 => executeRET r0
  | _ => print (.message "invalid opCode... \n")

/-- The instruction array; `none` is `null`. -/
abbrev Instructions (ι : Type) := List (Option ι)

variable (decode : ι → Fields) (instructions : Instructions ι)

/-- Moves the program counter on, to `null` behind the last address. -/
def increasePC (pc : Int) : Option Int :=
  if pc < (instructions.length : Int) - 1 then some (pc + 1) else none

/-- Fetches the instruction at the program counter. -/
def fetch : M ι Unit := do
  match (← get).pc with
  | some pc =>
    if pc ≤ instructions.length then
      let ir ← elementAt instructions pc
      modify fun s => { s with ir := ir, cip := pc, pc := increasePC instructions pc }
    else
      modify fun s => { s with ir := none }
  | none => modify fun s => { s with ir := none }

/-- One turn of the loop of `execute`. -/
def step (ir : ι) : M ι Unit := do
  dispatch (decode ir)
  fetch instructions

/-- The loop of `execute`; `fuel` bounds its turns. -/
def execute : Nat → M ι Unit
  | 0 => throw .timeout
  | fuel + 1 => do
    match (← get).ir with
    | some ir =>
      step decode instructions ir
      execute fuel
    | none => pure ()

/-! ## start -/

/-- The state before the first instruction, as `loadCodeIntoMemory` leaves it. -/
def start (registers memory : Nat → Option Word) : State ι :=
  match instructions[1]? with
  | some (some ir) =>
    { registers := registers, memory := memory, pc := some 2, ir := some ir, cip := 1,
      output := [] }
  | _ => { registers := registers, memory := memory, pc := some 1, ir := none, cip := 0,
           output := [] }

/-- `main` sets register 0 only. -/
def initRegisters : Nat → Option Word := fun i => if i = 0 then some 0 else none

/-- The state of a machine that has just been started. -/
def init : State ι := start instructions initRegisters fun _ => none

end Machine

/-- The instruction array of a binary file: addresses start at 1, and one more word is allocated. -/
def load {ι : Type} (code : List ι) : Instructions ι := none :: code.map some ++ [none]

end Vm
