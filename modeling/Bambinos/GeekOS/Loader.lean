import Bambinos.GeekOS.ArgBlock
import Bambinos.Infra.Region

/-!
# Loading an executable

`Parse_ELF_Executable` of `elf.c` and `Load_User_Program` of `userseg.c`. What is read of the file
and written to the user memory is recorded; the segment descriptors are left out.

* `Buffer` — the file in memory, and what is around it
* `Kernel` — a computation that may stop at a `KASSERT`
* `parseElfExecutable`, `loadUserProgram`
-/

namespace GeekOS

open Infra

/-! ## the file -/

/-- A file, which fits into the memory. -/
structure ExeFile where
  bytes : List UInt8
  length_lt : bytes.length < W

/-- The memory from the beginning of the file on: the file, and anything. -/
structure Buffer where
  file : ExeFile
  beyond : Nat → UInt8

/-- `exeFileData[o]`. -/
def Buffer.get (b : Buffer) (o : Nat) : UInt8 :=
  if h : o < b.file.bytes.length then b.file.bytes[o] else b.beyond o

/-- `n` bytes from `o` on, the lowest first. -/
def Buffer.read (b : Buffer) (o : Nat) : Nat → Nat
  | 0 => 0
  | n + 1 => (b.get (o % W)).toNat + 2 ^ 8 * b.read ((o + 1) % W) n

/-! ## computations of the kernel -/

/-- Which regions of the file were read and which of the user memory were written, and what is left
in the kernel's heap. -/
structure Log where
  reads : List (Nat × Nat)
  writes : List (Nat × Nat)
  heap : List (List UInt8)
deriving DecidableEq, Repr

def Log.empty : Log := ⟨[], [], []⟩

/-- `none` is a failed assertion, behind which the kernel does not go on. -/
abbrev Kernel := StateT Log Option

def KASSERT (cond : Bool) : Kernel Unit := fun log => if cond then some ((), log) else none

/-- The `n` bytes at `exeFileData + o` are read. -/
def load (exeFileData : Buffer) (o n : Nat) : Kernel Nat := fun log =>
  some (exeFileData.read (o % W) n, { log with reads := log.reads ++ [(o % W, n)] })

/-! ## `elf.c` -/

def EXE_MAX_SEGMENTS : Nat := 3
def ELF_MAGIC_NUMBER : Nat := 0x7f454c46

structure ExeSegment where
  offsetInFile : Nat
  lengthInFile : Nat
  startAddress : Nat
  sizeInMemory : Nat
  protFlags : Nat
deriving DecidableEq, Repr

structure ExeFormat where
  segmentList : Nat → ExeSegment
  numSegments : Nat
  entryAddr : Nat

def ExeFormat.setSegment (i : Nat) (seg : ExeSegment) (fmt : ExeFormat) : ExeFormat :=
  { fmt with segmentList := Function.update fmt.segmentList i seg }

/-- The loop over the program headers from number `i` on: a header without memory is skipped, and so
is its place in `segmentList`. -/
def parseSegments (exeFileData : Buffer) : Nat → Nat → Nat → ExeFormat → Kernel (Nat × ExeFormat)
  | 0, _, iNumberOfSegments, exeFormat => pure (iNumberOfSegments, exeFormat)
  | n + 1, i, iNumberOfSegments, exeFormat => do
    let phoff ← load exeFileData 28 4
    let phentsize ← load exeFileData 42 2
    let pProgramHeader := (phoff + phentsize * i) % W
    let memSize ← load exeFileData (pProgramHeader + 20) 4
    if memSize = 0 then parseSegments exeFileData n (i + 1) iNumberOfSegments exeFormat
    else
      let fileSize ← load exeFileData (pProgramHeader + 16) 4
      let offset ← load exeFileData (pProgramHeader + 4) 4
      let flags ← load exeFileData (pProgramHeader + 24) 4
      let vaddr ← load exeFileData (pProgramHeader + 8) 4
      parseSegments exeFileData n (i + 1) (iNumberOfSegments + 1)
        (exeFormat.setSegment i ⟨offset, fileSize, vaddr, memSize, flags⟩)

/-- `Parse_ELF_Executable`; the length of the file is not looked at. -/
def parseElfExecutable (exeFileData : Buffer) (exeFormat : ExeFormat) :
    Kernel (Int × ExeFormat) := do
  let entry ← load exeFileData 24 4
  let ident₀ ← load exeFileData 0 1
  let ident₁ ← load exeFileData 1 1
  let ident₂ ← load exeFileData 2 1
  let ident₃ ← load exeFileData 3 1
  KASSERT (ELF_MAGIC_NUMBER = ident₀ * 2 ^ 24 + ident₁ * 2 ^ 16 + ident₂ * 2 ^ 8 + ident₃)
  let phnum ← load exeFileData 44 2
  KASSERT (phnum ≤ EXE_MAX_SEGMENTS)
  let (iNumberOfSegments, exeFormat) ←
    parseSegments exeFileData phnum 0 0 { exeFormat with entryAddr := entry }
  pure (0, { exeFormat with numSegments := iNumberOfSegments })

/-! ## `userseg.c` -/

def PAGE_SIZE : Nat := 4096
def DEFAULT_USER_STACK_SIZE : Nat := 8192

/-- `Round_Up_To_Page`. -/
def roundUpToPage (addr : Nat) : Nat :=
  if addr % PAGE_SIZE = 0 then addr else (addr / PAGE_SIZE * PAGE_SIZE + PAGE_SIZE) % W

/-- What `Malloc` says in `Create_User_Context`, and what is in the memory it returns. -/
structure Heap where
  userContext : Bool
  memory : Bool
  contents : Nat → UInt8

/-- `allocated` tells whether `memory` is not `NULL`. -/
structure UserContext where
  allocated : Bool
  memory : Nat → UInt8
  size : Nat
  entryAddr : Nat
  argBlockAddr : Nat
  stackPointerAddr : Nat
  refCount : Nat

/-- What the assertions of `Malloc` and of `bget` let through: a size that is positive as a `long`. -/
def MallocSize (size : Nat) : Prop := 0 < size ∧ size < 2 ^ 31

instance (size : Nat) : Decidable (MallocSize size) := inferInstanceAs (Decidable (_ ∧ _))

/-- `Create_User_Context`: both `Malloc` and the descriptors insist on a size. -/
def createUserContext (heap : Heap) (size : Nat) : Kernel (Option UserContext) :=
  if heap.userContext then do
    KASSERT (MallocSize size)
    KASSERT (0 < size / PAGE_SIZE)
    pure (some ⟨heap.memory, heap.contents, size, 0, 0, 0, 0⟩)
  else pure none

/-- The loop that determines the highest virtual address. -/
def maxVirtualAddress (exeFormat : ExeFormat) : Nat → Nat → Nat → Nat
  | 0, _, luMax => luMax
  | n + 1, i, luMax =>
    let seg := exeFormat.segmentList i
    let luCurrent := roundUpToPage ((seg.startAddress + seg.sizeInMemory) % W)
    maxVirtualAddress exeFormat n (i + 1) (if luMax < luCurrent then luCurrent else luMax)

/-- The loop that copies the segments. -/
def copySegments (exeFileData : Buffer) (exeFormat : ExeFormat) :
    Nat → Nat → UserContext → Kernel UserContext
  | 0, _, ctx => pure ctx
  | n + 1, i, ctx => do
    let seg := exeFormat.segmentList i
    modify fun log =>
      { log with
        reads := log.reads ++ [(seg.offsetInFile, seg.lengthInFile)]
        writes := log.writes ++ [(seg.startAddress, seg.lengthInFile)] }
    copySegments exeFileData exeFormat n (i + 1)
      { ctx with
        memory := memcpy W exeFileData.get seg.startAddress seg.offsetInFile seg.lengthInFile
          ctx.memory }

/-- `Load_User_Program`: the argument block is formatted in the kernel's heap; without a context the
kernel goes on with what is at address 0. -/
def loadUserProgram (exeFileData : Buffer) (exeFormat : ExeFormat) (command : Command)
    (heap : Heap) : Kernel (Int × UserContext) := do
  let luMaxVirtualAddress := maxVirtualAddress exeFormat exeFormat.numSegments 0 0
  let iNumberOfArguments := (getArgumentBlockSize command).1
  let luArgumentBlockSize := (getArgumentBlockSize command).2
  let luStackSize := roundUpToPage ((DEFAULT_USER_STACK_SIZE + luArgumentBlockSize) % W)
  let luTotalMemorySize := (luMaxVirtualAddress + luStackSize) % W
  let pCurrentUserContext ← createUserContext heap luTotalMemorySize
  let ctx := pCurrentUserContext.getD ⟨false, heap.contents, 0, 0, 0, 0, 0⟩
  KASSERT (MallocSize luArgumentBlockSize)
  let ctx := { ctx with argBlockAddr := roundUpToPage luMaxVirtualAddress }
  let cArgumentBlock := formatArgumentBlock iNumberOfArguments ctx.argBlockAddr command
  modify fun log => { log with heap := log.heap ++ [cArgumentBlock] }
  let ctx ← copySegments exeFileData exeFormat exeFormat.numSegments 0 ctx
  pure (0, { ctx with
    entryAddr := exeFormat.entryAddr
    stackPointerAddr := luTotalMemorySize })

/-- Both functions one after the other; `exeFormat` is what was on the stack. -/
def parseAndLoad (exeFileData : Buffer) (exeFormat : ExeFormat) (command : Command) (heap : Heap) :
    Kernel (Int × UserContext) := do
  let (_, exeFormat) ← parseElfExecutable exeFileData exeFormat
  loadUserProgram exeFileData exeFormat command heap

end GeekOS
