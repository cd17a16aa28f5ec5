import Bambinos.Compiler.CodeGenerator

/-!
# `ObjectFile` and `BinaryFile`

The linker. An object file is what `scanFile` and `getOpCode` read from it.

A `Vector` has fewer than 2³¹ elements, so sums of offsets are taken without wrapping.
-/

namespace Linker

open Infra

/-! ## object files -/

structure OffsetTableElement where
  name : String
  offset : Int
deriving DecidableEq, Repr

structure FixupTableElement where
  module : String
  name : String
  offset : Int
deriving DecidableEq, Repr

/-- The tables and the code that are read from a file. -/
structure Contents where
  offsetTable : List OffsetTableElement
  fixupTable : List FixupTableElement
  opCode : List Word
deriving DecidableEq, Repr

/-- An opened object file. `offsetInBinaryFile` is `-1` until its code is placed. -/
structure ObjectFile where
  moduleName : String
  offsetTable : List OffsetTableElement
  fixupTable : List FixupTableElement
  opCode : List Word
  offsetInBinaryFile : Int
deriving DecidableEq, Repr

/-- The files of the working directory. -/
abbrev Files := List (String × Contents)

/-- Java's `split` at a character. Empty strings at the end are dropped. -/
def split (sep : Char) (s : String) : List String :=
  if sep ∈ s.toList then
    ((s.toList.splitOn sep).reverse.dropWhile List.isEmpty).reverse.map String.ofList
  else
    [s]

/-- The path and the file ending are cut. -/
def getModuleName {σ : Type} (filename : String) : Method σ String := do
  let pathElements := split '/' filename
  let moduleFileName ← elementAt pathElements (pathElements.length - 1)
  elementAt (split '.' moduleFileName) 0

/-- `new ObjectFile(filename, "r")`. A file that does not exist is `null` when it is read. -/
def newObjectFile {σ : Type} (files : Files) (filename : String) : Method σ ObjectFile := do
  let moduleName ← getModuleName filename
  let file ← deref (files.lookup filename)
  return { moduleName := moduleName, offsetTable := file.offsetTable,
           fixupTable := file.fixupTable, opCode := file.opCode, offsetInBinaryFile := -1 }

/-! ## the binary file -/

/-- `moduleList` is keyed by the name of a module and, later, of its file as well. -/
structure BinaryFile where
  instructions : List Word
  moduleList : List (String × ObjectFile)
  mainModule : Option ObjectFile
deriving DecidableEq, Repr

/-- A method of the binary file. -/
abbrev B := Method BinaryFile

/-- The first word of a binary; the instructions start at index 1. -/
def header : Word := 1

/-- `moduleList.put(key, objectFile)`. -/
def putModule (key : String) (objectFile : ObjectFile) : B Unit :=
  modify fun s =>
    { s with moduleList := (key, objectFile) :: s.moduleList.filter (·.1 != key) }

/-- Makes the offsets of a module those of the binary. -/
def relocate (moduleOffset : Int) (e : OffsetTableElement) : OffsetTableElement :=
  { e with offset := e.offset + moduleOffset - 1 }

/-- Appends the code of a module that has no place yet. -/
def addCode (objectFile : ObjectFile) : B ObjectFile := do
  if objectFile.offsetInBinaryFile ≠ -1 then return objectFile
  let moduleOffset : Int := (← get).instructions.length
  let objectFile :=
    { objectFile with
      offsetInBinaryFile := moduleOffset
      offsetTable := objectFile.offsetTable.map (relocate moduleOffset) }
  putModule objectFile.moduleName objectFile
  modify fun s => { s with instructions := s.instructions ++ objectFile.opCode }
  return objectFile

/-- Executed last: `BSR -1`. -/
def exitInstruction : Word := ((((50 : Word) <<< 1) ||| 1) <<< 25) ||| 1

def addExitSymbol : B Unit :=
  modify fun s => { s with instructions := s.instructions ++ [exitInstruction] }

/-- The constructor. -/
def newBinaryFile (mainModule : ObjectFile) : B Unit := do
  set ({ instructions := [header], moduleList := [], mainModule := none } : BinaryFile)
  let mainModule ← addCode mainModule
  modify fun s => { s with mainModule := some mainModule }
  addExitSymbol

/-- Replaces the operand of an instruction of format 3. -/
def fixCommand (currentInstruction : Word) (instructionValue : Int) : Word :=
  ((currentInstruction.sshiftRight 26) <<< 26) + BitVec.ofInt 32 instructionValue

/-- Fixes one call for every entry of the offset table that has the name of the procedure. -/
def fixCall (moduleOffset : Int) (fixup : FixupTableElement) : List OffsetTableElement → B Unit
  | [] => pure ()
  | e :: rest => do
    if e.name = fixup.name then
      let position := moduleOffset + fixup.offset - 1
      let currentInstruction ← elementAt (← get).instructions position
      modify fun s =>
        { s with instructions :=
            s.instructions.set position.toNat (fixCommand currentInstruction e.offset) }
    fixCall moduleOffset fixup rest

section Fix

variable (files : Files) (fixAddressing : ObjectFile → B ObjectFile)

/-- The module of a fixup entry; it is loaded the first time it is named. -/
def importedModule (fixup : FixupTableElement) : B ObjectFile := do
  match (← get).moduleList.lookup fixup.module with
  | some importedModule => return importedModule
  | none =>
    let importedModule ← newObjectFile files (fixup.module ++ ".obj")
    let importedModule ← addCode importedModule
    fixAddressing importedModule

/-- The loop over a fixup table. -/
def fixFixupTable (moduleOffset : Int) : List FixupTableElement → B Unit
  | [] => pure ()
  | fixup :: rest => do
    let importedModule ← importedModule files fixAddressing fixup
    fixCall moduleOffset fixup importedModule.offsetTable
    putModule (fixup.module ++ ".obj") importedModule
    fixFixupTable moduleOffset rest

end Fix

/-- `fixAddressing(module)`; the fuel bounds how deep modules are loaded from one another. -/
def fixAddressing (files : Files) : Nat → ObjectFile → B ObjectFile
  | 0, _ => throw .timeout
  | fuel + 1, module => do
    fixFixupTable files (fixAddressing files fuel) module.offsetInBinaryFile module.fixupTable
    return module

/-- `Linker.main` up to the export: opens the main module and links it. -/
def link (files : Files) (fuel : Nat) (filename : String) : B ObjectFile := do
  newBinaryFile (← newObjectFile files filename)
  fixAddressing files fuel (← deref (← get).mainModule)

/-- The state before anything is linked. -/
def BinaryFile.empty : BinaryFile := { instructions := [], moduleList := [], mainModule := none }

end Linker
