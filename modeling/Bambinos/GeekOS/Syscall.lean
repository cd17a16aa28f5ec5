import Bambinos.GeekOS.ArgBlock
import Bambinos.Infra.Region

/-!
# System calls with buffers

`Sys_PrintString` and `Sys_Spawn` of `syscall.c` with `Validate_User_Memory` and `Copy_From_User` of
`userseg.c`. For every byte of the kernel's memory the model knows where it comes from; the
interrupt flag and the messages of the kernel are left out.

* `Process` — the memory of the process that calls
* `Sys` — a computation of the kernel on its memory
* `malloc`, `free`, `copyString`, `cString` — what is done with a buffer
* `copyFromUser`
* `sysPrintString`, `sysSpawn`
-/

namespace GeekOS

open Infra

/-! ## the caller -/

/-- The user context of `g_currentThread`. -/
structure Process where
  memory : Nat → UInt8
  size : Nat
  size_lt : size < W

/-- The registers of user mode. -/
structure InterruptState where
  ebx : Fin W
  ecx : Fin W
  edx : Fin W
  esi : Fin W

/-! ## the memory of the kernel -/

/-- Where a byte comes from. -/
inductive Source where
  /-- It is what was in the memory. -/
  | kernel
  /-- It is a `'\0'` that was written. -/
  | terminator
  /-- It is a copy of the byte at `a` of the process. -/
  | user (a : Nat)
deriving DecidableEq, Repr

/-- A buffer that was allocated. -/
structure Block where
  addr : Nat
  size : Nat
deriving DecidableEq, Repr

/-- The region lies in the buffer. -/
def Block.Holds (b : Block) (dst count : Nat) : Prop :=
  b.addr ≤ dst ∧ dst + count ≤ b.addr + b.size

instance (b : Block) (dst count : Nat) : Decidable (b.Holds dst count) :=
  inferInstanceAs (Decidable (_ ∧ _))

/-- The memory of the kernel, and what a system call did. -/
structure SysState where
  bytes : Nat → UInt8
  source : Nat → Source
  /-- The buffers that are allocated. -/
  blocks : List Block
  /-- An allocation failed. -/
  failed : Bool
  /-- The regions that were written outside of the buffers. -/
  strays : List (Nat × Nat)
  /-- Where the bytes come from that were used. -/
  uses : List Source

/-- At the beginning of a system call. -/
def SysState.init (bytes : Nat → UInt8) : SysState :=
  ⟨bytes, fun _ => .kernel, [], false, [], []⟩

/-- A failed assertion, behind which the kernel does not go on. -/
inductive Stop where
  | assertion
deriving DecidableEq, Repr

/-- A computation of the kernel. -/
abbrev Sys := EStateM Stop SysState

def assert (cond : Bool) : Sys Unit := if cond then pure () else throw .assertion

/-- Which addresses `bget` returns, the buffers being allocated that are listed; 0 is `NULL`. -/
structure Allocator where
  bget : List Block → Nat → Nat
  fits : ∀ blocks size, size < W → bget blocks size + size ≤ W

/-- A region is written; it is recorded if it is in no buffer. -/
def SysState.mark (dst count : Nat) (s : SysState) : SysState :=
  if ∃ b ∈ s.blocks, b.Holds dst count then s
  else { s with strays := s.strays ++ [(dst, count)] }

/-- Bytes of the process are copied. -/
def SysState.copy (process : Process) (dst src count : Nat) (s : SysState) : SysState :=
  { s with
    bytes := memcpy W process.memory dst src count s.bytes
    source := memcpy W Source.user dst src count s.source }

/-- The end of a string is written. -/
def SysState.terminate (a : Nat) (s : SysState) : SysState :=
  { s with
    bytes := Function.update s.bytes a 0
    source := Function.update s.source a .terminator }

/-- `Malloc`; the size of a buffer is a `long` in `bget`. -/
def malloc (heap : Allocator) (size : Nat) : Sys Nat := do
  assert (0 < size)
  assert (size < 2 ^ 31)
  let s ← get
  let result := heap.bget s.blocks size
  if result = 0 then
    set { s with failed := true }
  else
    set { s with blocks := ⟨result, size⟩ :: s.blocks }
  return result

/-- `Free`; `brel` insists on a buffer. -/
def free (buf : Nat) : Sys Unit := do
  assert (buf ≠ 0)
  modify fun s => { s with blocks := s.blocks.filter (·.addr ≠ buf) }

/-- `buffer[i] = '\0'`. -/
def terminate (buffer i : Nat) : Sys Unit := do
  modify (SysState.mark ((buffer + i) % W) 1)
  modify (SysState.terminate ((buffer + i) % W))

/-- The addresses of a C string: up to the first zero. -/
def stringAt (bytes : Nat → UInt8) : Nat → Nat → List Nat
  | 0, _ => []
  | n + 1, a => if bytes a = 0 then [a] else a :: stringAt bytes n ((a + 1) % W)

/-- A C string is used. -/
def cString (buffer : Nat) : Sys (List UInt8) := do
  let s ← get
  let addresses := stringAt s.bytes W buffer
  set { s with uses := s.uses ++ addresses.map s.source }
  return (addresses.map s.bytes).dropLast

/-! ## `userseg.c` -/

def validateUserMemory (userContext : Process) (userAddr bufSize : Nat) : Bool :=
  if userAddr ≥ userContext.size then false
  else if bufSize > userContext.size - userAddr then false
  else true

/-- `Copy_From_User`. -/
def copyFromUser (process : Process) (destInKernel srcInUser bufSize : Nat) : Sys Bool := do
  if validateUserMemory process srcInUser bufSize then
    modify (SysState.mark destInKernel bufSize)
    modify (SysState.copy process destInKernel srcInUser bufSize)
    return true
  else
    return false

/-! ## `syscall.c` -/

def VFS_MAX_PATH_LEN : Nat := 1023

/-- `Sys_PrintString`; neither the buffer nor the result of the copy is looked at. -/
def sysPrintString (heap : Allocator) (process : Process) (state : InterruptState) : Sys Int := do
  let uNumberOfChars : Nat := state.ecx
  if uNumberOfChars > 1024 then return -1
  let buffer ← malloc heap (uNumberOfChars + 1)
  let _ ← copyFromUser process buffer state.ebx uNumberOfChars
  terminate buffer uNumberOfChars
  let _ ← cString buffer
  free buffer
  return 0

/-- A string of the given length is copied into a buffer of that length, as `Sys_Spawn` does it. -/
def copyString (heap : Allocator) (process : Process) (addr length : Nat) : Sys Nat := do
  let buffer ← malloc heap length
  let _ ← copyFromUser process buffer addr length
  terminate buffer length
  return buffer

/-- `Sys_Spawn`. The command goes to the first parameter of `Spawn`, its `program`; the second one is
never looked at. -/
def sysSpawn (spawn : List UInt8 → Option Int) (heap : Allocator) (process : Process)
    (state : InterruptState) : Sys Int := do
  let pExecutableName ← copyString heap process state.ebx state.ecx
  let uCommandStringLength : Nat := state.esi
  if uCommandStringLength > VFS_MAX_PATH_LEN then return -1
  let pCommandString ← copyString heap process state.edx uCommandStringLength
  let program ← cString pCommandString
  match spawn program with
  | none => throw .assertion
  | some retval =>
    free pCommandString
    free pExecutableName
    return retval

end GeekOS
