import Bambinos.GeekOS.Loader
import Bambinos.GeekOS.Paths
import Bambinos.Infra.Java

/-!
# The kernel's heap and `Read_Fully`

`Malloc` and `Free`, and what `vfs.c` and `pfat.c` do with them to read a file. Blocks of the heap
are told apart by the number of the request that made them; the mutexes, the lists of the mount points
and the bits that a read sets in the cache of a file are left out.

* `KernelHeap` — the allocated blocks, all of them of earlier requests
* `World` — what the kernel finds: the files, the disk, and which requests the heap grants
* `Acting` — a computation of the kernel that may stop, or use a pointer that points nowhere
* `getPfatFile`, `openFile`, `pfatRead`, `readFully`
* `Unread` — how a file fails to be read without anything left behind
-/

namespace GeekOS.Resources

/-! ## the heap -/

structure KernelHeap where
  blocks : List Nat
  requests : Nat
  old : ∀ b ∈ blocks, b < requests

namespace KernelHeap

/-- A request is granted; the block gets its number. -/
def grant (h : KernelHeap) : KernelHeap where
  blocks := h.requests :: h.blocks
  requests := h.requests + 1
  old := by
    intro b hb
    rcases List.mem_cons.mp hb with rfl | hb
    · exact Nat.lt_succ_self _
    · exact Nat.lt_succ_of_lt (h.old b hb)

def refuse (h : KernelHeap) : KernelHeap where
  blocks := h.blocks
  requests := h.requests + 1
  old b hb := Nat.lt_succ_of_lt (h.old b hb)

def release (b : Nat) (h : KernelHeap) : KernelHeap where
  blocks := h.blocks.filter (· ≠ b)
  requests := h.requests
  old c hc := h.old c (List.mem_filter.mp hc).1

end KernelHeap

/-! ## what the kernel finds -/

/-- An entry of the root directory. The blocks of the file are numbered; `chained` tells whether the
file allocation table leads to one. -/
structure DirectoryEntry where
  number : Nat
  directory : Bool
  file : ExeFile
  chained : Nat → Bool

/-- The size is an `int`. -/
def DirectoryEntry.fileSize (entry : DirectoryEntry) : Int := Infra.int32 entry.file.bytes.length

/-- The entry of a root directory. -/
def rootDirEntry : DirectoryEntry where
  number := 0
  directory := true
  file := ⟨[], by decide⟩
  chained _ := false

/-- `device` is the error of a block that cannot be read, `grants` whether the heap has memory for a
request, and `beyond`, `stack` what is in memory behind a file and on the stack. The pages are those
for a new thread. -/
structure World where
  mountPointList : List (MountPoint DirectoryEntry)
  device : DirectoryEntry → Nat → Option Nat
  grants : Nat → Bool
  threadPage : Bool
  stackPage : Bool
  beyond : Nat → UInt8
  stack : ExeFormat

def World.lookup (w : World) (path : List UInt8) : Option DirectoryEntry :=
  lookupPath rootDirEntry w.mountPointList path

/-- A `PFAT_File`: the entry of the file and the blocks that are in the cache. -/
structure PfatFile where
  entry : Nat
  valid : Nat → Bool

/-- A user context. `memory` is `none` when it is `NULL`. -/
structure UserContext where
  block : Nat
  memory : Option Nat
  ldtDescriptor : Nat
  size : Nat
  entryAddr : Nat
  argBlockAddr : Nat
  stackPointerAddr : Nat
  refCount : Nat

structure KernelThread where
  pid : Nat
  userContext : UserContext

/-- The heap, the allocated descriptors of the GDT, the files that were opened and the threads that
were made runnable. `failed` is recorded: something was asked for that there was not. -/
structure KernelState where
  heap : KernelHeap
  descriptors : List Nat
  fileList : List PfatFile
  nextFreePid : Nat
  runQueue : List KernelThread
  failed : Bool

/-- How the kernel ends: a failed assertion, or the use of a pointer that is `NULL` or was never
set. -/
inductive Halt where
  | assertion
  | wildPointer
deriving DecidableEq, Repr

abbrev Acting := EStateM Halt KernelState

section Kernel

variable (w : World)

def KASSERT (cond : Bool) : Acting Unit := if cond then pure () else throw .assertion

/-- A pointer is dereferenced. -/
def pointer {α : Type} (p : Option α) : Acting α :=
  match p with
  | some a => pure a
  | none => throw .wildPointer

/-- Something was not there. -/
def fail : Acting Unit := modify fun s => { s with failed := true }

/-- `Malloc`; the size of a buffer is a `long` in `bget`. -/
def malloc (size : Nat) : Acting (Option Nat) := do
  KASSERT (0 < size)
  KASSERT (size < 2 ^ 31)
  let s ← get
  if w.grants s.heap.requests then
    set { s with heap := s.heap.grant }
    return some s.heap.requests
  else
    set { s with heap := s.heap.refuse, failed := true }
    return none

/-- `Free`. -/
def free (b : Nat) : Acting Unit := modify fun s => { s with heap := s.heap.release b }

/-! ## `pfat.c` -/

def EIO : Int := -5
def ENOMEM : Int := -7
def ENOTFOUND : Int := -2
def EACCESS : Int := -11

def SECTOR_SIZE : Nat := 512

/-- `sizeof` of `struct PFAT_File`, `struct File` and `struct Block_Request`. -/
def sizeofPfatFile : Nat := 40
def sizeofFile : Nat := 24
def sizeofBlockRequest : Nat := 40

/-- `Round_Up_To_Block`. -/
def roundUpToBlock (offset : Nat) : Nat :=
  if offset % SECTOR_SIZE = 0 then offset
  else (offset + (SECTOR_SIZE - offset % SECTOR_SIZE)) % W

/-- The size of the cache of a file, and that of the set of its blocks. -/
def DirectoryEntry.cacheSize (entry : DirectoryEntry) : Nat :=
  roundUpToBlock entry.file.bytes.length

def bitSetSize (totalBits : Nat) : Nat := totalBits / 8 + if totalBits % 8 ≠ 0 then 1 else 0

/-- What `Get_PFAT_File` returns: `NULL`, an object that was freed before its fields were set, or the
object of an open file. -/
inductive PfatPointer where
  | null
  | freed
  | object (f : PfatFile)

/-- `Get_PFAT_File`. -/
def getPfatFile (entry : DirectoryEntry) : Acting PfatPointer := do
  match (← get).fileList.find? (·.entry = entry.number) with
  | some pfatFile => return .object pfatFile
  | none =>
    match ← malloc w sizeofPfatFile with
    | none => return .null
    | some pfatFile =>
      match ← malloc w entry.cacheSize with
      | none =>
        free pfatFile
        return .freed
      | some fileDataCache =>
        match ← malloc w (bitSetSize (entry.cacheSize / SECTOR_SIZE)) with
        | none =>
          free pfatFile
          free fileDataCache
          return .freed
        | some _ =>
          let file : PfatFile := { entry := entry.number, valid := fun _ => false }
          modify fun s => { s with fileList := s.fileList ++ [file] }
          return .object file

/-- A `struct File`; `none` is a `PFAT_File` that was freed. -/
structure File where
  block : Nat
  pfatFile : Option PfatFile

/-- `Allocate_File`, with what `Open` returns. -/
def allocateFile (pfatFile : Option PfatFile) : Acting (Except Int File) := do
  match ← malloc w sizeofFile with
  | none => return .error ENOMEM
  | some block => return .ok ⟨block, pfatFile⟩

/-- `PFAT_Open` and `Do_Open` behind `Get_PFAT_File`. Without a `PFAT_File` 0 is returned, and the mode
is set of no file. -/
def openPointer (pfatFile : PfatPointer) : Acting (Except Int File) :=
  match pfatFile with
  | .null => throw .wildPointer
  | .freed => allocateFile w none
  | .object f => allocateFile w (some f)

/-- `Open`. -/
def openFile (entry : DirectoryEntry) : Acting (Except Int File) := do
  if entry.directory then
    return .error EACCESS
  else
    openPointer w (← getPfatFile w entry)

/-- `Close`: the `PFAT_File` stays. -/
def closeFile (file : File) : Acting Unit := free file.block

/-- `Block_Read`, with the code of the error. -/
def blockRead (entry : DirectoryEntry) (block : Nat) : Acting Int := do
  match ← malloc w sizeofBlockRequest with
  | none => return ENOMEM
  | some request =>
    free request
    match w.device entry block with
    | some error => fail; return .negSucc error
    | none => return 0

/-- The loop of `PFAT_Read` over the blocks of the file, from number `i` on. -/
def readBlocks (entry : DirectoryEntry) (valid : Nat → Bool) : Nat → Nat → Acting Int
  | 0, _ => return 0
  | n + 1, i => do
    if entry.chained i then
      if valid i then
        readBlocks entry valid n (i + 1)
      else
        let rc ← blockRead w entry i
        if rc ≠ 0 then return rc
        else readBlocks entry valid n (i + 1)
    else
      fail
      return EIO

/-- `PFAT_Read` of the whole file. The blocks of a file are found by its entry. -/
def pfatRead (entry : DirectoryEntry) (file : File) : Acting Int := do
  let pfatFile ← pointer file.pfatFile
  readBlocks w entry pfatFile.valid (entry.cacheSize / SECTOR_SIZE) 0

/-! ## `vfs.c` -/

/-- `Read_Fully` behind `Open`. `PFAT_Read` delivers all of the bytes or an error, so the loop around
it has one turn. -/
def readOpened (entry : DirectoryEntry) (opened : Except Int File) :
    Acting (Except Int (Nat × ExeFile)) := do
  match opened with
  | .error rc =>
    fail
    return .error rc
  | .ok file =>
    if entry.fileSize < 0 then
      fail
      closeFile file
      return .error ENOTFOUND
    else
      match ← malloc w entry.fileSize.toNat with
      | none =>
        closeFile file
        return .error ENOMEM
      | some buf =>
        let rc ← pfatRead w entry file
        closeFile file
        if rc < 0 then
          free buf
          return .error rc
        else
          return .ok (buf, entry.file)

/-- `Read_Fully`. -/
def readFully (path : List UInt8) : Acting (Except Int (Nat × ExeFile)) := do
  match w.lookup path with
  | none =>
    fail
    return .error ENOTFOUND
  | some entry => readOpened w entry (← openFile w entry)

/-! ## a file that is not read -/

/-- The blocks from number `i` on are in the cache or can be read, `r` being the next request. -/
def World.readable (entry : DirectoryEntry) (valid : Nat → Bool) : Nat → Nat → Nat → Bool
  | 0, _, _ => true
  | n + 1, i, r =>
    entry.chained i &&
      if valid i then World.readable entry valid n (i + 1) r
      else w.grants r && (w.device entry i).isNone && World.readable entry valid n (i + 1) (r + 1)

/-- An opened file is given up: the `File` was request `r`. A `PFAT_File` that was freed must not be
read. -/
def World.GivesUp (entry : DirectoryEntry) (pfatFile : Option PfatFile) (r : Nat) : Prop :=
  w.grants r = false ∨ entry.fileSize < 0 ∨ entry.fileSize ≠ 0 ∧
    (w.grants (r + 1) = false ∨ ∃ f, pfatFile = some f ∧
      w.readable entry f.valid (entry.cacheSize / SECTOR_SIZE) 0 (r + 2) = false)

/-- A `PFAT_File` that is not there before and is not made: all but the first of the requests for its
parts must not be granted. The `File` is request `r`. -/
def World.Drops (entry : DirectoryEntry) (n r : Nat) : Prop :=
  w.grants n = true ∧ 0 < entry.cacheSize ∧ entry.cacheSize < 2 ^ 31 ∧
    (w.grants (n + 1) = false ∧ r = n + 2 ∨
      w.grants (n + 1) = true ∧ w.grants (n + 2) = false ∧ r = n + 3)

/--
The file is not read, and nothing is left behind. A file that was opened before may lack memory or
fail on the disk; of any other the cache must not come about, whose blocks would stay.
-/
def Unread (s : KernelState) (path : List UInt8) : Prop :=
  ∀ entry, w.lookup path = some entry → entry.directory = true ∨
    (∃ f, s.fileList.find? (·.entry = entry.number) = some f ∧
      w.GivesUp entry (some f) s.heap.requests) ∨
    s.fileList.find? (·.entry = entry.number) = none ∧
      ∃ r, w.Drops entry s.heap.requests r ∧ w.GivesUp entry none r

end Kernel

/-! ## one step -/

section Steps

variable {w : World} {α β : Type} {m : Acting α} {f : α → Acting β} {s s' s₁ : KernelState} {a : α}
  {size : Nat} {entry : DirectoryEntry} {path : List UInt8}

theorem bind_ok (h : m s = .ok a s') : (m >>= f) s = f a s' := by
  simp [bind, EStateM.bind, h]

theorem bind_error {e : Halt} (h : m s = .error e s') : (m >>= f) s = .error e s' := by
  simp [bind, EStateM.bind, h]

theorem bind_eq_ok {b : β} (h : (m >>= f) s = .ok b s') :
    ∃ a s₁, m s = .ok a s₁ ∧ f a s₁ = .ok b s' := by
  cases hm : m s with
  | ok a s₁ => exact ⟨a, s₁, rfl, by rwa [bind_ok hm] at h⟩
  | error e s₁ =>
    rw [bind_error hm] at h
    cases h

/-- What a computation that leaves nothing behind keeps. -/
structure Unchanged (s s' : KernelState) : Prop where
  blocks : s'.heap.blocks = s.heap.blocks
  descriptors : s'.descriptors = s.descriptors
  runQueue : s'.runQueue = s.runQueue

theorem Unchanged.refl (s : KernelState) : Unchanged s s := ⟨rfl, rfl, rfl⟩

theorem Unchanged.trans {s'' : KernelState} (h : Unchanged s s') (h' : Unchanged s' s'') :
    Unchanged s s'' :=
  ⟨h'.blocks.trans h.blocks, h'.descriptors.trans h.descriptors, h'.runQueue.trans h.runQueue⟩

theorem fail_run : fail s = .ok () { s with failed := true } := rfl

theorem free_run (b : Nat) : free b s = .ok () { s with heap := s.heap.release b } := rfl

theorem malloc_run (hpos : 0 < size) (hlt : size < 2 ^ 31) : malloc w size s =
    if w.grants s.heap.requests then .ok (some s.heap.requests) { s with heap := s.heap.grant }
    else .ok none { s with heap := s.heap.refuse, failed := true } := by
  unfold malloc KASSERT
  rw [decide_eq_true hpos, decide_eq_true hlt]
  show (if w.grants s.heap.requests = true then _ else _ : Acting (Option Nat)) s = _
  by_cases h : w.grants s.heap.requests = true
  · rw [if_pos h, if_pos h]
    rfl
  · rw [if_neg h, if_neg h]
    rfl

theorem malloc_stops (h : size = 0 ∨ 2 ^ 31 ≤ size) : malloc w size s = .error .assertion s := by
  unfold malloc KASSERT
  rcases h with rfl | h
  · rfl
  · rw [decide_eq_false (by omega : ¬ size < 2 ^ 31)]
    by_cases hpos : 0 < size
    · rw [decide_eq_true hpos]
      rfl
    · rw [decide_eq_false hpos]
      rfl

/-- A request that is granted, with the state that it leaves. -/
theorem malloc_granted (hpos : 0 < size) (hlt : size < 2 ^ 31)
    (h : w.grants s.heap.requests = true) :
    malloc w size s = .ok (some s.heap.requests) { s with heap := s.heap.grant } := by
  rw [malloc_run hpos hlt, if_pos h]

theorem malloc_refused (hpos : 0 < size) (hlt : size < 2 ^ 31)
    (h : w.grants s.heap.requests = false) :
    malloc w size s = .ok none { s with heap := s.heap.refuse, failed := true } := by
  rw [malloc_run hpos hlt, h]
  rfl

namespace KernelHeap

variable {h : KernelHeap} {b c : Nat}

theorem not_mem (hb : h.requests ≤ b) : b ∉ h.blocks := fun hm =>
  Nat.lt_irrefl b (Nat.lt_of_lt_of_le (h.old b hm) hb)

/-- A block that was granted is given back. -/
theorem release_cons {rest : List Nat} (hblocks : h.blocks = b :: rest) (hb : b ∉ rest) :
    (h.release b).blocks = rest := by
  show h.blocks.filter (· ≠ b) = rest
  rw [hblocks, List.filter_cons_of_neg (by simp)]
  exact List.filter_eq_self.mpr fun c hc => decide_eq_true fun (heq : c = b) => hb (heq ▸ hc)

/-- The block below the newest one is given back. -/
theorem release_below {rest : List Nat} (hblocks : h.blocks = (b + 1) :: b :: rest)
    (hb : b ∉ rest) : (h.release b).blocks = (b + 1) :: rest := by
  show h.blocks.filter (· ≠ b) = _
  rw [hblocks, List.filter_cons_of_pos (by simp), List.filter_cons_of_neg (by simp)]
  exact congrArg _ (List.filter_eq_self.mpr fun c hc =>
    decide_eq_true fun (heq : c = b) => hb (heq ▸ hc))

end KernelHeap

/-! ## the disk -/

theorem blockRead_run (i : Nat) : ∃ rc s', blockRead w entry i s = .ok rc s' ∧ Unchanged s s' ∧
    (rc < 0 ↔ (w.grants s.heap.requests && (w.device entry i).isNone) = false) ∧ rc ≤ 0 ∧
    s'.heap.requests = s.heap.requests + 1 := by
  unfold blockRead
  cases hgrant : w.grants s.heap.requests with
  | false =>
    rw [bind_ok (malloc_refused (by decide) (by decide) hgrant)]
    exact ⟨ENOMEM, _, rfl, ⟨rfl, rfl, rfl⟩, by simp [ENOMEM], by decide, rfl⟩
  | true =>
    rw [bind_ok (malloc_granted (by decide) (by decide) hgrant)]
    dsimp only
    rw [bind_ok (free_run _)]
    have hblocks : (s.heap.grant.release s.heap.requests).blocks = s.heap.blocks :=
      KernelHeap.release_cons rfl (s.heap.not_mem (Nat.le_refl _))
    cases hdevice : w.device entry i with
    | some error =>
      refine ⟨.negSucc error, _, rfl, ⟨hblocks, rfl, rfl⟩, ?_, ?_, rfl⟩
      · simp [Int.negSucc_lt_zero]
      · exact Int.le_of_lt (Int.negSucc_lt_zero error)
    | none =>
      exact ⟨0, _, rfl, ⟨hblocks, rfl, rfl⟩, by simp, Int.le_refl 0, rfl⟩

/-- The disk is read without anything left behind. -/
theorem readBlocks_run (valid : Nat → Bool) : ∀ (n i : Nat) (s : KernelState),
    ∃ rc s', readBlocks w entry valid n i s = .ok rc s' ∧ Unchanged s s' ∧
      (rc < 0 ↔ w.readable entry valid n i s.heap.requests = false) ∧
      s.heap.requests ≤ s'.heap.requests
  | 0, i, s => ⟨0, s, rfl, .refl s, by simp [World.readable], Nat.le_refl _⟩
  | n + 1, i, s => by
    unfold readBlocks World.readable
    cases hchained : entry.chained i with
    | false => exact ⟨ EIO, _, rfl, ⟨rfl, rfl, rfl⟩, by simp [ EIO], Nat.le_refl _⟩
    | true =>
      rw [if_pos rfl, Bool.true_and]
      cases hvalid : valid i with
      | true => exact readBlocks_run valid n (i + 1) s
      | false =>
        obtain ⟨rc, s₁, hread, hunchanged, hrc, hle, hrequests⟩ :=
          @blockRead_run w s entry i
        rw [if_neg Bool.false_ne_true, if_neg Bool.false_ne_true, bind_ok hread]
        by_cases hzero : rc = 0
        · have hdone : (w.grants s.heap.requests && (w.device entry i).isNone) = true := by
            rw [← Bool.not_eq_false, ← hrc]
            omega
          obtain ⟨rc', s', hrest, hunchanged', hrc', hle'⟩ := readBlocks_run valid n (i + 1) s₁
          rw [if_neg (not_not.mpr hzero), hdone, Bool.true_and, ← hrequests]
          exact ⟨rc', s', hrest, hunchanged.trans hunchanged', hrc', by omega⟩
        · have hfailed := hrc.mp (by omega)
          rw [if_pos hzero, hfailed, Bool.false_and]
          exact ⟨rc, s₁, rfl, hunchanged, iff_of_true (by omega) rfl, by omega⟩

/-! ## the file -/

/-- A computation that ends in an error of the file leaves nothing behind exactly when `clean`; else
it stops, or a new block is left. -/
def LeavesOr (clean : Prop) (s : KernelState) (r : EStateM.Result Halt KernelState
    (Except Int (Nat × ExeFile))) : Prop :=
  (clean ∧ ∃ rc s', r = .ok (.error rc) s' ∧ Unchanged s s') ∨
  (¬ clean ∧ ∃ e s', r = .error e s') ∨
  (¬ clean ∧ ∃ a s' b, r = .ok a s' ∧ s.heap.requests ≤ b ∧ b ∈ s'.heap.blocks)

theorem fileSize_pos (h : 0 ≤ entry.fileSize) (hne : entry.fileSize ≠ 0) :
    0 < entry.fileSize.toNat ∧ entry.fileSize.toNat < 2 ^ 31 := by
  have hlt : entry.fileSize < 2 ^ 31 := by
    unfold DirectoryEntry.fileSize Infra.int32
    have := @Int.bmod_lt entry.file.bytes.length (2 ^ 32) (by decide)
    omega
  omega

/-- What becomes of a file that is opened. -/
theorem readOpened_run {f : Option PfatFile} (hgrant : w.grants s.heap.requests = true) :
    LeavesOr (w.GivesUp entry f s.heap.requests) s
      (readOpened w entry (.ok ⟨s.heap.requests, f⟩) { s with heap := s.heap.grant }) := by
  have hnew := s.heap.not_mem (Nat.le_refl _)
  have hclose : ∀ s₁ : KernelState, s₁.heap.blocks = s.heap.requests :: s.heap.blocks →
      (s₁.heap.release s.heap.requests).blocks = s.heap.blocks := fun s₁ h =>
    KernelHeap.release_cons h hnew
  unfold readOpened World.GivesUp
  dsimp only
  by_cases hneg : entry.fileSize < 0
  · rw [if_pos hneg, bind_ok fail_run, closeFile, bind_ok (free_run _)]
    exact .inl ⟨.inr (.inl hneg), ENOTFOUND, _, rfl, ⟨hclose _ rfl, rfl, rfl⟩⟩
  rw [if_neg hneg]
  by_cases hzero : entry.fileSize = 0
  · have hempty : entry.fileSize.toNat = 0 := by
      rw [hzero]
      rfl
    rw [bind_error (malloc_stops (.inl hempty))]
    refine .inr (.inl ⟨?_, _, _, rfl⟩)
    rintro (h | h | h)
    · rw [hgrant] at h
      cases h
    · exact hneg h
    · exact h.1 hzero
  obtain ⟨hpos, hlt⟩ := fileSize_pos (Int.not_lt.mp hneg) hzero
  cases hbuf : w.grants (s.heap.requests + 1) with
  | false =>
    rw [bind_ok (malloc_refused hpos hlt hbuf)]
    dsimp only
    rw [closeFile, bind_ok (free_run _)]
    exact .inl ⟨.inr (.inr ⟨hzero, .inl rfl⟩), ENOMEM, _, rfl, ⟨hclose _ rfl, rfl, rfl⟩⟩
  | true =>
    have hnot : ¬ (w.grants s.heap.requests = false ∨ entry.fileSize < 0) := by
      rintro (h | h)
      · rw [hgrant] at h
        cases h
      · exact hneg h
    rw [bind_ok (malloc_granted hpos hlt hbuf)]
    dsimp only
    unfold pfatRead
    cases f with
    | none =>
      -- the fields of the object were never set
      refine .inr (.inl ⟨?_, .wildPointer, _, rfl⟩)
      rintro (h | h | ⟨-, h | ⟨f, hf, -⟩⟩)
      · exact hnot (.inl h)
      · exact hnot (.inr h)
      · cases h
      · cases hf
    | some f =>
      obtain ⟨rc, s', hread, hunchanged, hrc, -⟩ := @readBlocks_run w entry f.valid
        (entry.cacheSize / SECTOR_SIZE) 0 { s with heap := s.heap.grant.grant }
      have hblocks : s'.heap.blocks = (s.heap.requests + 1) :: s.heap.requests :: s.heap.blocks :=
        hunchanged.blocks
      have hclosed : (s'.heap.release s.heap.requests).blocks =
          (s.heap.requests + 1) :: s.heap.blocks := KernelHeap.release_below hblocks hnew
      have hrun : (pointer (some f) >>= fun pfatFile => readBlocks w entry pfatFile.valid
          (entry.cacheSize / SECTOR_SIZE) 0 : Acting Int) { s with heap := s.heap.grant.grant } =
          .ok rc s' := hread
      rw [bind_ok hrun]
      show LeavesOr _ s ((free s.heap.requests >>= fun _ => _ : Acting _) s')
      rw [bind_ok (free_run _)]
      by_cases hneg' : rc < 0
      · rw [if_pos hneg', bind_ok (free_run _)]
        refine .inl ⟨.inr (.inr ⟨hzero, .inr ⟨f, rfl, hrc.mp hneg'⟩⟩), rc, _, rfl, ?_, ?_, ?_⟩
        · exact KernelHeap.release_cons hclosed (s.heap.not_mem (Nat.le_succ _))
        · exact hunchanged.descriptors
        · exact hunchanged.runQueue
      · rw [if_neg hneg']
        refine .inr (.inr ⟨?_, _, _, s.heap.requests + 1, rfl, Nat.le_succ _, ?_⟩)
        · rintro (h | h | ⟨-, h | ⟨f', hf', hreadable⟩⟩)
          · exact hnot (.inl h)
          · exact hnot (.inr h)
          · cases h
          · cases hf'
            exact hneg' (hrc.mpr hreadable)
        · rw [hclosed]
          exact List.mem_cons_self

/-- A `File` is made for what is to be read. -/
theorem allocated_run (f : Option PfatFile) : LeavesOr (w.GivesUp entry f s.heap.requests) s
    ((allocateFile w f >>= readOpened w entry) s) := by
  cases hgrant : w.grants s.heap.requests with
  | false =>
    have hrun : allocateFile w f s =
        .ok (.error ENOMEM) { s with heap := s.heap.refuse, failed := true } := by
      unfold allocateFile
      rw [bind_ok (malloc_refused (by decide) (by decide) hgrant)]
      rfl
    rw [bind_ok hrun]
    exact .inl ⟨.inl hgrant, ENOMEM, _, rfl, ⟨rfl, rfl, rfl⟩⟩
  | true =>
    have hrun : allocateFile w f s = .ok (.ok ⟨s.heap.requests, f⟩) { s with heap := s.heap.grant } := by
      unfold allocateFile
      rw [bind_ok (malloc_granted (by decide) (by decide) hgrant)]
      rfl
    rw [bind_ok hrun]
    exact readOpened_run hgrant

theorem roundUpToBlock_dvd (offset : Nat) : SECTOR_SIZE ∣ roundUpToBlock offset := by
  unfold roundUpToBlock SECTOR_SIZE W
  split
  · omega
  · omega

/-- What `Get_PFAT_File` returns of a file that was not opened before. -/
theorem getPfatFile_run (hnew : s.fileList.find? (·.entry = entry.number) = none) :
    (∃ r s', w.Drops entry s.heap.requests r ∧ getPfatFile w entry s = .ok .freed s' ∧
      Unchanged s s' ∧ s'.heap.requests = r) ∨
    ((∀ r, ¬ w.Drops entry s.heap.requests r) ∧
      ((∃ s', getPfatFile w entry s = .ok .null s') ∨
        (∃ e s', getPfatFile w entry s = .error e s') ∨
        ∃ f s', getPfatFile w entry s = .ok (.object f) s' ∧ s.heap.requests ∈ s'.heap.blocks ∧
          s.heap.requests ≤ s'.heap.requests)) := by
  have hfirst := s.heap.not_mem (Nat.le_refl _)
  have hsecond := s.heap.grant.not_mem (Nat.le_refl _)
  unfold getPfatFile
  rw [bind_ok (show (get : Acting KernelState) s = .ok s s from rfl), hnew]
  dsimp only
  cases hn : w.grants s.heap.requests with
  | false =>
    refine .inr ⟨fun r h => ?_, .inl ⟨_, bind_ok (malloc_refused (by decide) (by decide) hn)⟩⟩
    rw [World.Drops, hn] at h
    cases h.1
  | true =>
    rw [bind_ok (malloc_granted (by decide) (by decide) hn)]
    dsimp only
    by_cases hsize : 0 < entry.cacheSize ∧ entry.cacheSize < 2 ^ 31
    swap
    · have hstop : malloc w entry.cacheSize { s with heap := s.heap.grant } =
          .error .assertion { s with heap := s.heap.grant } := malloc_stops (by omega)
      exact .inr ⟨fun r h => hsize ⟨h.2.1, h.2.2.1⟩, .inr (.inl ⟨_, _, bind_error hstop⟩)⟩
    obtain ⟨hpos, hlt⟩ := hsize
    cases hn₁ : w.grants (s.heap.requests + 1) with
    | false =>
      rw [bind_ok (malloc_refused hpos hlt hn₁)]
      dsimp only
      rw [bind_ok (free_run _)]
      refine .inl ⟨_, _, ⟨hn, hpos, hlt, .inl ⟨hn₁, rfl⟩⟩, rfl, ⟨?_, rfl, rfl⟩, rfl⟩
      exact KernelHeap.release_cons rfl hfirst
    | true =>
      rw [bind_ok (malloc_granted hpos hlt hn₁)]
      dsimp only
      have hdvd : SECTOR_SIZE ∣ entry.cacheSize := roundUpToBlock_dvd _
      have hbits : 0 < bitSetSize (entry.cacheSize / SECTOR_SIZE) ∧
          bitSetSize (entry.cacheSize / SECTOR_SIZE) < 2 ^ 31 := by
        unfold bitSetSize SECTOR_SIZE at *
        split <;> omega
      cases hn₂ : w.grants (s.heap.requests + 2) with
      | false =>
        rw [bind_ok (malloc_refused hbits.1 hbits.2 hn₂)]
        dsimp only
        rw [bind_ok (free_run _), bind_ok (free_run _)]
        refine .inl ⟨_, _, ⟨hn, hpos, hlt, .inr ⟨hn₁, hn₂, rfl⟩⟩, rfl, ⟨?_, rfl, rfl⟩, rfl⟩
        exact KernelHeap.release_cons (KernelHeap.release_below rfl hfirst)
          (s.heap.not_mem (Nat.le_succ _))
      | true =>
        rw [bind_ok (malloc_granted hbits.1 hbits.2 hn₂)]
        refine .inr ⟨fun r h => ?_, .inr (.inr ⟨_, _, rfl, ?_, ?_⟩)⟩
        · rcases h.2.2.2 with ⟨h, -⟩ | ⟨-, h, -⟩
          · rw [hn₁] at h
            cases h
          · rw [hn₂] at h
            cases h
        · exact List.mem_cons_of_mem _ (List.mem_cons_of_mem _ List.mem_cons_self)
        · exact Nat.le_add_right _ 3

theorem LeavesOr.of_unchanged {clean : Prop}
    {r : EStateM.Result Halt KernelState (Except Int (Nat × ExeFile))} (h : LeavesOr clean s₁ r)
    (hunchanged : Unchanged s s₁) (hle : s.heap.requests ≤ s₁.heap.requests) :
    LeavesOr clean s r := by
  rcases h with ⟨hclean, rc, s', hr, hun⟩ | hstop | ⟨hclean, a, s', b, hr, hb, hmem⟩
  · exact .inl ⟨hclean, rc, s', hr, hunchanged.trans hun⟩
  · exact .inr (.inl hstop)
  · exact .inr (.inr ⟨hclean, a, s', b, hr, hle.trans hb, hmem⟩)

/-- Where a new block is there already, it stays. -/
theorem LeavesOr.of_new {clean clean' : Prop} {b : Nat}
    {r : EStateM.Result Halt KernelState (Except Int (Nat × ExeFile))} (h : LeavesOr clean' s₁ r)
    (hclean : ¬ clean) (hle : s.heap.requests ≤ s₁.heap.requests) (hb : s.heap.requests ≤ b)
    (hmem : b ∈ s₁.heap.blocks) : LeavesOr clean s r := by
  rcases h with ⟨-, rc, s', hr, hun⟩ | ⟨-, e, s', hr⟩ | ⟨-, a, s', c, hr, hc, hmem'⟩
  · exact .inr (.inr ⟨hclean, _, s', b, hr, hb, hun.blocks ▸ hmem⟩)
  · exact .inr (.inl ⟨hclean, e, s', hr⟩)
  · exact .inr (.inr ⟨hclean, a, s', c, hr, hle.trans hc, hmem'⟩)

theorem LeavesOr.congr {clean clean' : Prop}
    {r : EStateM.Result Halt KernelState (Except Int (Nat × ExeFile))} (h : LeavesOr clean s r)
    (hiff : clean ↔ clean') : LeavesOr clean' s r := propext hiff ▸ h

theorem bind_congr {m' : Acting α} (h : m s = m' s₁) : (m >>= f) s = (m' >>= f) s₁ := by
  simp [bind, EStateM.bind, h]

theorem openFile_eq {p : PfatPointer} (hdirectory : entry.directory = false)
    (h : getPfatFile w entry s = .ok p s₁) : openFile w entry s = openPointer w p s₁ := by
  unfold openFile
  rw [hdirectory, if_neg Bool.false_ne_true, bind_ok h]

theorem World.Drops.unique {n r r' : Nat} (h : w.Drops entry n r) (h' : w.Drops entry n r') :
    r = r' := by
  rcases h.2.2.2 with ⟨hn, hr⟩ | ⟨hn, -, hr⟩ <;> rcases h'.2.2.2 with ⟨hn', hr'⟩ | ⟨hn', -, hr'⟩
  · rw [hr, hr']
  · rw [hn] at hn'
    cases hn'
  · rw [hn] at hn'
    cases hn'
  · rw [hr, hr']

/-- **Reading a file.** -/
theorem readFully_run (path : List UInt8) :
    LeavesOr (Unread w s path) s (readFully w path s) := by
  unfold readFully
  cases hlookup : w.lookup path with
  | none =>
    refine .inl ⟨fun entry h => ?_, ENOTFOUND, _, rfl, ⟨rfl, rfl, rfl⟩⟩
    rw [hlookup] at h
    cases h
  | some entry =>
    dsimp only
    cases hdirectory : entry.directory with
    | true =>
      have hopen : openFile w entry s = .ok (.error EACCESS) s := by
        unfold openFile
        rw [hdirectory]
        rfl
      rw [bind_ok hopen]
      refine .inl ⟨fun entry' h => ?_, EACCESS, _, rfl, ⟨rfl, rfl, rfl⟩⟩
      rw [hlookup] at h
      cases h
      exact .inl hdirectory
    | false =>
      cases hfind : s.fileList.find? (·.entry = entry.number) with
      | some f =>
        have hget : getPfatFile w entry s = .ok (.object f) s := by
          unfold getPfatFile
          rw [bind_ok (show (get : Acting KernelState) s = .ok s s from rfl), hfind]
          rfl
        rw [bind_congr (openFile_eq hdirectory hget)]
        refine (allocated_run (some f)).congr ⟨fun h entry' h' => ?_, fun h => ?_⟩
        · rw [hlookup] at h'
          cases h'
          exact .inr (.inl ⟨f, hfind, h⟩)
        · rcases h entry hlookup with h | ⟨f', hf', h⟩ | ⟨h, -⟩
          · rw [hdirectory] at h
            cases h
          · rw [hfind] at hf'
            cases hf'
            exact h
          · rw [hfind] at h
            cases h
      | none =>
        have hiff : Unread w s path ↔
            ∃ r, w.Drops entry s.heap.requests r ∧ w.GivesUp entry none r := by
          constructor
          · intro h
            rcases h entry hlookup with h | ⟨f', hf', -⟩ | ⟨-, h⟩
            · rw [hdirectory] at h
              cases h
            · rw [hfind] at hf'
              cases hf'
            · exact h
          · intro h entry' h'
            rw [hlookup] at h'
            cases h'
            exact .inr (.inr ⟨hfind, h⟩)
        rcases getPfatFile_run hfind with ⟨r, s₁, hdrops, hget, hunchanged, rfl⟩ | ⟨hnone, hrest⟩
        · rw [bind_congr (openFile_eq hdirectory hget)]
          have hle : s.heap.requests ≤ s₁.heap.requests := by
            rcases hdrops.2.2.2 with ⟨-, h⟩ | ⟨-, -, h⟩ <;> omega
          refine ((allocated_run none).of_unchanged hunchanged hle).congr ⟨fun h => ?_, fun h => ?_⟩
          · exact hiff.mpr ⟨_, hdrops, h⟩
          · obtain ⟨r, hr, h⟩ := hiff.mp h
            rwa [hr.unique hdrops] at h
        · have hnot : ¬ Unread w s path := fun h => by
            obtain ⟨r, hr, -⟩ := hiff.mp h
            exact hnone r hr
          rcases hrest with ⟨s₁, hget⟩ | ⟨e, s₁, hget⟩ | ⟨f, s₁, hget, hmem, hle⟩
          · rw [bind_congr (openFile_eq hdirectory hget)]
            exact .inr (.inl ⟨hnot, .wildPointer, s₁, rfl⟩)
          · have hopen : openFile w entry s = .error e s₁ := by
              unfold openFile
              rw [hdirectory, if_neg Bool.false_ne_true, bind_error hget]
            exact .inr (.inl ⟨hnot, e, s₁, bind_error hopen⟩)
          · rw [bind_congr (openFile_eq hdirectory hget)]
            exact (allocated_run (some f)).of_new hnot hle (Nat.le_refl _) hmem

end Steps

end GeekOS.Resources
