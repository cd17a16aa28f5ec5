import Bambinos.GeekOS.SegmentTable
import Bambinos.GeekOS.ReadFully

/-!
# What `Spawn` leaves behind

`Spawn` with `Load_User_Program`, `Create_User_Context`, `Allocate_Segment_Descriptor` and
`Start_User_Thread`, for the blocks of the heap and the descriptors that they take. The bytes that
are copied are in `Loader`.

* `createUserContext`, `loadUserProgram`, `startUserThread`, `spawn`
* `Clean` — an error leaves nothing, and success what the new thread needs
* `loaded_run` — the blocks of a file that was read stay
* `spawn_clean_iff` — only a file that is not read is dealt with cleanly
-/

namespace GeekOS.Resources

section Kernel

variable (w : World)

/-! ## `gdt.c` and `userseg.c` -/

def NUM_GDT_ENTRIES : Nat := 16

/-- `Allocate_Segment_Descriptor`; entry 0 is unused. -/
def allocateSegmentDescriptor : Acting (Option Nat) := do
  match (List.range' 1 (NUM_GDT_ENTRIES - 1)).find? (· ∉ (← get).descriptors) with
  | some i =>
    modify fun s => { s with descriptors := i :: s.descriptors }
    return some i
  | none =>
    fail
    return none

/-- `sizeof(struct User_Context)`. -/
def sizeofUserContext : Nat := 52

/-- `Create_User_Context`. That there is no memory or no descriptor is printed only, and
`Init_LDT_Descriptor` writes to the descriptor. -/
def createUserContext (size : Nat) : Acting (Option UserContext) := do
  match ← malloc w sizeofUserContext with
  | none => return none
  | some block =>
    let memory ← malloc w size
    let ldtDescriptor ← pointer (← allocateSegmentDescriptor)
    KASSERT (0 < size / PAGE_SIZE)
    return some { block := block, memory := memory, ldtDescriptor := ldtDescriptor, size := size,
                  entryAddr := 0, argBlockAddr := 0, stackPointerAddr := 0, refCount := 0 }

/-- The loop that copies the segments from number `i` on, for the pointer to the memory. -/
def copySegments (exeFormat : ExeFormat) (memory : Option Nat) : Nat → Nat → Acting Unit
  | 0, _ => pure ()
  | n + 1, i => do
    if 0 < (exeFormat.segmentList i).lengthInFile then
      let _ ← pointer memory
    copySegments exeFormat memory n (i + 1)

/-- `Load_User_Program`. -/
def loadUserProgram (exeFormat : ExeFormat) (command : Command) : Acting UserContext := do
  let luMaxVirtualAddress := maxVirtualAddress exeFormat exeFormat.numSegments 0 0
  let luArgumentBlockSize := (getArgumentBlockSize command).2
  let luStackSize := roundUpToPage ((DEFAULT_USER_STACK_SIZE + luArgumentBlockSize) % W)
  let luTotalMemorySize := (luMaxVirtualAddress + luStackSize) % W
  let pCurrentUserContext ← createUserContext w luTotalMemorySize
  let cArgumentBlock ← malloc w luArgumentBlockSize
  let ctx ← pointer pCurrentUserContext
  -- the argument block is formatted
  let _ ← pointer cArgumentBlock
  copySegments exeFormat ctx.memory exeFormat.numSegments 0
  return { ctx with
           argBlockAddr := roundUpToPage luMaxVirtualAddress
           entryAddr := exeFormat.entryAddr
           stackPointerAddr := luTotalMemorySize }

/-! ## `kthread.c` and `user.c` -/

/-- `Start_User_Thread`; the pages of a thread are not from the heap. -/
def startUserThread (userContext : UserContext) : Acting (Option KernelThread) := do
  if w.threadPage && w.stackPage then
    let s ← get
    KASSERT (userContext.refCount = 0)
    let kthread : KernelThread :=
      { pid := s.nextFreePid
        userContext := { userContext with refCount := userContext.refCount + 1 } }
    set { s with nextFreePid := s.nextFreePid + 1, runQueue := s.runQueue ++ [kthread] }
    return some kthread
  else
    fail
    return none

/-- A computation of `Loader` that asserts: `none` is a failed assertion. -/
def asserted {α : Type} (result : Option α) : Acting α :=
  match result with
  | some a => pure a
  | none => throw .assertion

/-- `Parse_ELF_Executable`; it never returns an error. -/
def parseElfExecutable (file : ExeFile) : Acting ExeFormat := do
  let parsed ← asserted (GeekOS.parseElfExecutable ⟨file, w.beyond⟩ w.stack .empty)
  return parsed.1.2

/-- `Spawn`. `thread` is what `*pThread` points to before, if that was set: the context of that thread
is read and never used. The second string is never looked at. -/
def spawn (program : Command) (thread : Option KernelThread) : Acting Int := do
  match ← readFully w program.chars with
  | .error _ => return -1
  | .ok (_, file) =>
    let exeFormat ← parseElfExecutable w file
    let _ ← pointer thread
    let userContext ← loadUserProgram w exeFormat program
    let kthread ← pointer (← startUserThread w userContext)
    return kthread.pid

end Kernel

/-! ## a clean outcome -/

/-- The blocks that are reached from a context. -/
def UserContext.blocks (ctx : UserContext) : List Nat := ctx.block :: ctx.memory.toList

/--
`Spawn` returns. Either it returns an error and nothing was taken or given back, or nothing was
missing and what was taken is reached from the context of the new thread.
-/
def Clean (w : World) (program : Command) (thread : Option KernelThread) (s : KernelState) : Prop :=
  ∃ ret s', spawn w program thread { s with failed := false } = .ok ret s' ∧
    (ret < 0 ∧ (∀ b, b ∈ s'.heap.blocks ↔ b ∈ s.heap.blocks) ∧
        (∀ d, d ∈ s'.descriptors ↔ d ∈ s.descriptors) ∨
      ∃ kthread, ret = kthread.pid ∧ s'.runQueue = s.runQueue ++ [kthread] ∧
        s'.failed = false ∧
        (∀ b, b ∈ s'.heap.blocks ↔ b ∈ s.heap.blocks ∨ b ∈ kthread.userContext.blocks) ∧
        ∀ d, d ∈ s'.descriptors ↔ d ∈ s.descriptors ∨ d = kthread.userContext.ldtDescriptor)

/-! ## what is taken stays -/

section Steps

variable {w : World} {s s' s'' : KernelState} {size : Nat} {program : Command} {file : ExeFile}

/-- Nothing is given back, and no thread is made runnable. -/
structure Grows (s s' : KernelState) : Prop where
  blocks : ∀ b ∈ s.heap.blocks, b ∈ s'.heap.blocks
  requests : s.heap.requests ≤ s'.heap.requests
  runQueue : s'.runQueue = s.runQueue

theorem Grows.trans (h : Grows s s') (h' : Grows s' s'') : Grows s s'' :=
  ⟨fun b hb => h'.blocks b (h.blocks b hb), h.requests.trans h'.requests,
    h'.runQueue.trans h.runQueue⟩

theorem pointer_bind_eq_ok {α β : Type} {p : Option α} {f : α → Acting β} {b : β}
    (h : (pointer p >>= f) s = .ok b s') : ∃ a, p = some a ∧ f a s = .ok b s' := by
  cases p with
  | none => cases h
  | some a => exact ⟨a, rfl, h⟩

theorem kassert_bind_eq_ok {β : Type} {cond : Bool} {f : Unit → Acting β} {b : β}
    (h : (KASSERT cond >>= f) s = .ok b s') : f () s = .ok b s' := by
  cases cond with
  | false => cases h
  | true => exact h

theorem malloc_eq_ok {p : Option Nat} (h : malloc w size s = .ok p s') :
    Grows s s' ∧ ∀ b ∈ p, s.heap.requests ≤ b := by
  by_cases hsize : size = 0 ∨ 2 ^ 31 ≤ size
  · rw [malloc_stops hsize] at h
    cases h
  · obtain ⟨hpos, hlt⟩ := not_or.mp hsize
    cases hgrant : w.grants s.heap.requests with
    | true =>
      rw [malloc_granted (by omega) (by omega) hgrant] at h
      cases h
      refine ⟨⟨fun b hb => List.mem_cons_of_mem _ hb, Nat.le_succ _, rfl⟩, fun b hb => ?_⟩
      cases hb
      exact Nat.le_refl _
    | false =>
      rw [malloc_refused (by omega) (by omega) hgrant] at h
      cases h
      exact ⟨⟨fun b hb => hb, Nat.le_succ _, rfl⟩, fun b hb => by cases hb⟩

theorem allocateSegmentDescriptor_eq_ok {p : Option Nat}
    (h : allocateSegmentDescriptor s = .ok p s') : Grows s s' := by
  obtain ⟨s₁, s₂, hget, hfound⟩ := bind_eq_ok h
  cases hget
  cases hfind : (List.range' 1 (NUM_GDT_ENTRIES - 1)).find? (· ∉ s.descriptors) with
  | some i =>
    rw [hfind] at hfound
    cases hfound
    exact ⟨fun _ hb => hb, Nat.le_refl _, rfl⟩
  | none =>
    rw [hfind] at hfound
    cases hfound
    exact ⟨fun _ hb => hb, Nat.le_refl _, rfl⟩

/-- The blocks of a new context are new. -/
theorem createUserContext_eq_ok {p : Option UserContext}
    (h : createUserContext w size s = .ok p s') :
    Grows s s' ∧ ∀ ctx ∈ p, ∀ b ∈ ctx.blocks, s.heap.requests ≤ b := by
  obtain ⟨block, s₁, hblock, h₁⟩ := bind_eq_ok h
  obtain ⟨hgrows₁, hnew₁⟩ := malloc_eq_ok hblock
  cases block with
  | none =>
    cases h₁
    exact ⟨hgrows₁, fun ctx hctx => by cases hctx⟩
  | some block =>
    obtain ⟨memory, s₂, hmemory, h₂⟩ := bind_eq_ok h₁
    obtain ⟨hgrows₂, hnew₂⟩ := malloc_eq_ok hmemory
    obtain ⟨desc, s₃, hdesc, h₃⟩ := bind_eq_ok h₂
    have hgrows₃ := allocateSegmentDescriptor_eq_ok hdesc
    obtain ⟨ldt, -, h₄⟩ := pointer_bind_eq_ok h₃
    cases kassert_bind_eq_ok h₄
    refine ⟨hgrows₁.trans (hgrows₂.trans hgrows₃), fun ctx hctx b hb => ?_⟩
    cases hctx
    rcases List.mem_cons.mp hb with rfl | hb
    · exact hnew₁ _ rfl
    · exact hgrows₁.requests.trans (hnew₂ b (Option.mem_toList.mp hb))

theorem copySegments_eq_ok {exeFormat : ExeFormat} {memory : Option Nat} {u : Unit} (n i : Nat)
    (h : copySegments exeFormat memory n i s = .ok u s') : s' = s := by
  induction n generalizing i with
  | zero =>
    cases h
    rfl
  | succ n ih =>
    unfold copySegments at h
    by_cases hlength : 0 < (exeFormat.segmentList i).lengthInFile
    · rw [if_pos hlength] at h
      obtain ⟨b, -, h₁⟩ := pointer_bind_eq_ok h
      exact ih (i + 1) h₁
    · rw [if_neg hlength] at h
      exact ih (i + 1) h

theorem loadUserProgram_eq_ok {exeFormat : ExeFormat} {ctx : UserContext}
    (h : loadUserProgram w exeFormat program s = .ok ctx s') :
    Grows s s' ∧ ∀ b ∈ ctx.blocks, s.heap.requests ≤ b := by
  obtain ⟨p, s₁, hcreate, h₁⟩ := bind_eq_ok h
  obtain ⟨hgrows₁, hnew⟩ := createUserContext_eq_ok hcreate
  obtain ⟨argBlock, s₂, hmalloc, h₂⟩ := bind_eq_ok h₁
  obtain ⟨hgrows₂, -⟩ := malloc_eq_ok hmalloc
  obtain ⟨ctx₀, hctx, h₃⟩ := pointer_bind_eq_ok h₂
  obtain ⟨a, -, h₄⟩ := pointer_bind_eq_ok h₃
  obtain ⟨u, s₃, hcopy, h₅⟩ := bind_eq_ok h₄
  rw [copySegments_eq_ok _ _ hcopy] at h₅
  cases h₅
  exact ⟨hgrows₁.trans hgrows₂, hnew ctx₀ hctx⟩

theorem startUserThread_eq_ok {ctx : UserContext} {p : Option KernelThread}
    (h : startUserThread w ctx s = .ok p s') : s'.heap = s.heap ∧ ∀ kthread ∈ p,
      s'.runQueue = s.runQueue ++ [kthread] ∧ kthread.userContext.blocks = ctx.blocks := by
  unfold startUserThread at h
  by_cases hpages : (w.threadPage && w.stackPage) = true
  · rw [if_pos hpages] at h
    obtain ⟨s₁, s₂, hget, h₁⟩ := bind_eq_ok h
    cases hget
    cases kassert_bind_eq_ok h₁
    refine ⟨rfl, fun kthread hk => ?_⟩
    cases hk
    exact ⟨rfl, rfl⟩
  · rw [if_neg hpages] at h
    cases h
    exact ⟨rfl, fun kthread hk => by cases hk⟩

theorem asserted_bind_eq_ok {α β : Type} {result : Option α} {f : α → Acting β} {b : β}
    (h : (asserted result >>= f) s = .ok b s') : ∃ a, f a s = .ok b s' := by
  cases result with
  | none => cases h
  | some a => exact ⟨a, h⟩

theorem parseElfExecutable_eq_ok {exeFormat : ExeFormat}
    (h : parseElfExecutable w file s = .ok exeFormat s') : s' = s := by
  obtain ⟨parsed, hparsed⟩ := asserted_bind_eq_ok h
  cases hparsed
  rfl

/-! ## the outcome -/

/-- What is done with a file that was read, in the state after it. -/
theorem loaded_run {buf : Nat} {s₁ : KernelState} {ret : Int} {thread : Option KernelThread}
    (hread : readFully w program.chars s = .ok (.ok (buf, file)) s₁)
    (h : spawn w program thread s = .ok ret s') : ∃ kthread : KernelThread, ret = kthread.pid ∧
      s'.runQueue = s₁.runQueue ++ [kthread] ∧ (∀ b ∈ s₁.heap.blocks, b ∈ s'.heap.blocks) ∧
      ∀ b ∈ kthread.userContext.blocks, s₁.heap.requests ≤ b := by
  unfold spawn at h
  rw [bind_ok hread] at h
  obtain ⟨exeFormat, s₂, hparse, h₁⟩ := bind_eq_ok h
  rw [parseElfExecutable_eq_ok hparse] at h₁
  obtain ⟨t, -, h₂⟩ := pointer_bind_eq_ok h₁
  obtain ⟨ctx, s₃, hload, h₃⟩ := bind_eq_ok h₂
  obtain ⟨hgrows, hnew⟩ := loadUserProgram_eq_ok hload
  obtain ⟨p, s₄, hstart, h₄⟩ := bind_eq_ok h₃
  obtain ⟨hheap, hthread⟩ := startUserThread_eq_ok hstart
  obtain ⟨kthread, hsome, h₅⟩ := pointer_bind_eq_ok h₄
  obtain ⟨hqueue, hblocks⟩ := hthread kthread hsome
  cases h₅
  refine ⟨kthread, rfl, ?_, fun b hb => ?_, fun b hb => ?_⟩
  · rw [hqueue, hgrows.runQueue]
  · rw [hheap]
    exact hgrows.blocks b hb
  · rw [hblocks] at hb
    exact hnew b hb

end Steps

section Outcome

variable {w : World} {program : Command} {thread : Option KernelThread} {s s₁ : KernelState}

/-- A block that was taken for the file is left. -/
theorem not_clean_of_read {r : Except Int (Nat × ExeFile)} {b : Nat}
    (hread : readFully w program.chars { s with failed := false } = .ok r s₁)
    (hnew : s.heap.requests ≤ b) (hmem : b ∈ s₁.heap.blocks) : ¬ Clean w program thread s := by
  have hold := s.heap.not_mem hnew
  rintro ⟨ret, s', hspawn, hclean⟩
  cases r with
  | error rc =>
    unfold spawn at hspawn
    rw [bind_ok hread] at hspawn
    cases hspawn
    rcases hclean with ⟨-, hblocks, -⟩ | ⟨kthread, hret, -⟩
    · exact hold ((hblocks b).mp hmem)
    · -- a process identifier is not negative
      omega
  | ok a =>
    obtain ⟨buf, file⟩ := a
    obtain ⟨kthread, hret, hqueue, hstays, hctx⟩ := loaded_run hread hspawn
    rcases hclean with ⟨hneg, -⟩ | ⟨kthread', -, hqueue', -, hblocks, -⟩
    · omega
    · have hlast : kthread = kthread' := by
        have h := congrArg List.getLast? (hqueue.symm.trans hqueue')
        rw [List.getLast?_concat, List.getLast?_concat] at h
        exact Option.some.inj h
      rcases (hblocks b).mp (hstays b hmem) with h | h
      · exact hold h
      · rw [← hlast] at h
        exact Nat.not_lt.mpr (hctx b h) (s₁.heap.old b hmem)

theorem not_clean (h : ¬ Unread w s program.chars) : ¬ Clean w program thread s := by
  rcases @readFully_run w { s with failed := false } program.chars with ⟨hunread, -⟩ |
    ⟨-, e, s₁, hread⟩ | ⟨-, a, s₁, b, hread, hnew, hmem⟩
  · exact absurd hunread h
  · rintro ⟨ret, s', hspawn, -⟩
    unfold spawn at hspawn
    rw [bind_error hread] at hspawn
    cases hspawn
  · exact not_clean_of_read hread hnew hmem

theorem clean_of_unread (h : Unread w s program.chars) : Clean w program thread s := by
  rcases @readFully_run w { s with failed := false } program.chars with
    ⟨-, rc, s₁, hread, hunchanged⟩ | ⟨hnot, -⟩ | ⟨hnot, -⟩
  · refine ⟨-1, s₁, ?_, .inl ⟨by decide, fun b => ?_, fun d => ?_⟩⟩
    · unfold spawn
      rw [bind_ok hread]
      rfl
    · rw [hunchanged.blocks]
    · rw [hunchanged.descriptors]
  · exact absurd h hnot
  · exact absurd h hnot

/-- **`Spawn` is clean** only where the file is not read and its cache does not come about. -/
theorem spawn_clean_iff (w : World) (program : Command) (thread : Option KernelThread)
    (s : KernelState) : Clean w program thread s ↔ Unread w s program.chars :=
  ⟨fun h => by_contra fun hread => not_clean hread h, clean_of_unread⟩

/-- `/c/a.exe` -/
def commandExe : Command := ⟨[47, 99, 47, 97, 46, 101, 120, 101], by simp, by decide⟩

/-- A kernel that has all that it is asked for, and one file, named `a.exe` and mounted at `c`. -/
def abundant : World where
  mountPointList := [⟨[99], [([97, 46, 101, 120, 101], ⟨1, false, tiny, fun _ => true⟩)]⟩]
  device _ _ := none
  grants _ := true
  threadPage := true
  stackPage := true
  beyond _ := 0
  stack := unfilled

def booted : KernelState where
  heap := ⟨[], 0, fun _ h => by cases h⟩
  descriptors := []
  fileList := []
  nextFreePid := 1
  runQueue := []
  failed := false

/-- Not even where nothing is missing: the blocks of the file stay. -/
theorem spawn_clean_abundant : ¬ ∀ w program thread s, Clean w program thread s := by
  intro h
  refine not_clean ?_ (h abundant commandExe none booted)
  intro hunread
  rcases hunread ⟨1, false, tiny, fun _ => true⟩ rfl with h | ⟨f, hf, -⟩ | ⟨-, r, hdrops, -⟩
  · cases h
  · cases hf
  · rcases hdrops.2.2.2 with ⟨h, -⟩ | ⟨-, h, -⟩
    · cases h
    · cases h

end Outcome

end GeekOS.Resources
