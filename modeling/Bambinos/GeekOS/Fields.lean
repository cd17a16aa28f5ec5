import Bambinos.GeekOS.Loader

/-!
# What the loader reads and writes

The two functions as functions of the fields of the file, with what they record.

* `Buffer.segment` — a program header
* `parseElfExecutable_eq`, `loadUserProgram_eq` — when they return, and with what
-/

namespace GeekOS

open Infra

namespace Buffer

variable (b : Buffer)

/-- A number in the file. -/
def field (o n : Nat) : Nat := b.read (o % W) n

def magic : Nat :=
  b.field 0 1 * 2 ^ 24 + b.field 1 1 * 2 ^ 16 + b.field 2 1 * 2 ^ 8 + b.field 3 1

def phnum : Nat := b.field 44 2

/-- Where the program header number `i` is. -/
def programHeader (i : Nat) : Nat := (b.field 28 4 + b.field 42 2 * i) % W

def segment (i : Nat) : ExeSegment :=
  ⟨b.field (b.programHeader i + 4) 4, b.field (b.programHeader i + 16) 4,
    b.field (b.programHeader i + 8) 4, b.field (b.programHeader i + 20) 4,
    b.field (b.programHeader i + 24) 4⟩

/-- The segment is put into memory. -/
def Present (i : Nat) : Prop := (b.segment i).sizeInMemory ≠ 0

instance (i : Nat) : Decidable (b.Present i) := inferInstanceAs (Decidable (_ ≠ _))

/-- What is read for the program header. -/
def segmentReads (i : Nat) : List (Nat × Nat) :=
  [(28 % W, 4), (42 % W, 2), ((b.programHeader i + 20) % W, 4)] ++
    if b.Present i then
      [((b.programHeader i + 16) % W, 4), ((b.programHeader i + 4) % W, 4),
        ((b.programHeader i + 24) % W, 4), ((b.programHeader i + 8) % W, 4)]
    else []

def headerReads : List (Nat × Nat) :=
  [(24 % W, 4), (0 % W, 1), (1 % W, 1), (2 % W, 1), (3 % W, 1), (44 % W, 2)]

/-- The number of segments. -/
def numSegments : Nat := (List.range b.phnum).countP fun i => b.Present i

end Buffer

variable {b : Buffer} {fmt : ExeFormat} {command : Command} {heap : Heap} {log : Log}

theorem load_bind {α : Type} {o n : Nat} {k : Nat → Kernel α} : (load b o n >>= k) log =
    k (b.field o n) { log with reads := log.reads ++ [(o % W, n)] } := rfl

theorem KASSERT_bind {α : Type} {cond : Bool} {k : Unit → Kernel α} :
    (KASSERT cond >>= k) log = if cond then k () log else none := by
  cases cond <;> rfl

/-- The segments from number `i` on are entered. -/
def ExeFormat.enter (b : Buffer) (i n : Nat) (fmt : ExeFormat) : ExeFormat :=
  { fmt with
    segmentList := fun j =>
      if (i ≤ j ∧ j < i + n) ∧ b.Present j then b.segment j else fmt.segmentList j }

theorem enter_zero {i : Nat} : fmt.enter b i 0 = fmt := by
  have hfun : (fun j => if (i ≤ j ∧ j < i + 0) ∧ b.Present j then b.segment j
      else fmt.segmentList j) = fmt.segmentList :=
    funext fun j => if_neg fun h => by omega
  rw [ExeFormat.enter, hfun]

theorem enter_present {i n : Nat} (h : b.Present i) :
    (fmt.setSegment i (b.segment i)).enter b (i + 1) n = fmt.enter b i (n + 1) := by
  have hfun : ((fmt.setSegment i (b.segment i)).enter b (i + 1) n).segmentList =
      (fmt.enter b i (n + 1)).segmentList := by
    funext j
    simp only [ExeFormat.enter, ExeFormat.setSegment]
    by_cases hj : j = i
    · subst hj
      rw [if_neg (by omega), Function.update_self, if_pos ⟨by omega, h⟩]
    · rw [Function.update_of_ne hj]
      refine if_congr (and_congr_left' ?_) rfl rfl
      omega
  calc (fmt.setSegment i (b.segment i)).enter b (i + 1) n
      = { fmt with
          segmentList := ((fmt.setSegment i (b.segment i)).enter b (i + 1) n).segmentList } := rfl
    _ = fmt.enter b i (n + 1) := by
      rw [hfun]
      rfl

theorem enter_absent {i n : Nat} (h : ¬ b.Present i) :
    fmt.enter b (i + 1) n = fmt.enter b i (n + 1) := by
  have hfun : (fmt.enter b (i + 1) n).segmentList = (fmt.enter b i (n + 1)).segmentList := by
    funext j
    simp only [ExeFormat.enter]
    by_cases hj : j = i
    · subst hj
      rw [if_neg (by omega), if_neg fun hp => h hp.2]
    · refine if_congr (and_congr_left' ?_) rfl rfl
      omega
  calc fmt.enter b (i + 1) n
      = { fmt with segmentList := (fmt.enter b (i + 1) n).segmentList } := rfl
    _ = fmt.enter b i (n + 1) := by
      rw [hfun]
      rfl

/-- One turn of the loop. -/
theorem parseSegments_succ {n i c : Nat} : parseSegments b (n + 1) i c fmt log =
    if b.Present i then
      parseSegments b n (i + 1) (c + 1) (fmt.setSegment i (b.segment i))
        { log with reads := log.reads ++ b.segmentReads i }
    else
      parseSegments b n (i + 1) c fmt { log with reads := log.reads ++ b.segmentReads i } := by
  by_cases h : b.Present i
  · have hreads : b.segmentReads i =
        [(28 % W, 4), (42 % W, 2), ((b.programHeader i + 20) % W, 4)] ++
          [((b.programHeader i + 16) % W, 4), ((b.programHeader i + 4) % W, 4),
            ((b.programHeader i + 24) % W, 4), ((b.programHeader i + 8) % W, 4)] := by
      rw [Buffer.segmentReads, if_pos h]
    rw [if_pos h, hreads]
    change (if (b.segment i).sizeInMemory = 0 then parseSegments b n (i + 1) c fmt else _) _ = _
    rw [if_neg h]
    change parseSegments b n (i + 1) (c + 1) (fmt.setSegment i (b.segment i))
      { log with reads := ((((((log.reads ++ [_]) ++ [_]) ++ [_]) ++ [_]) ++ [_]) ++ [_]) ++ [_] } = _
    simp only [List.append_assoc, List.cons_append, List.nil_append]
    rfl
  · have hreads : b.segmentReads i =
        [(28 % W, 4), (42 % W, 2), ((b.programHeader i + 20) % W, 4)] := by
      rw [Buffer.segmentReads, if_neg h, List.append_nil]
    rw [if_neg h, hreads]
    change (if (b.segment i).sizeInMemory = 0 then parseSegments b n (i + 1) c fmt else _) _ = _
    rw [if_pos (not_not.mp h)]
    change parseSegments b n (i + 1) c fmt { log with reads := ((log.reads ++ [_]) ++ [_]) ++ [_] } = _
    simp only [List.append_assoc, List.cons_append, List.nil_append]
    rfl

theorem parseSegments_eq : ∀ {n i c : Nat} {fmt : ExeFormat} {log : Log},
    parseSegments b n i c fmt log =
      some ((c + (List.range' i n).countP fun j => b.Present j, fmt.enter b i n),
        { log with reads := log.reads ++ (List.range' i n).flatMap b.segmentReads })
  | 0, i, c, fmt, log => by
    rw [enter_zero, List.range'_zero, List.countP_nil, List.flatMap_nil, List.append_nil]
    rfl
  | n + 1, i, c, fmt, log => by
    rw [parseSegments_succ, List.range'_succ, List.countP_cons, List.flatMap_cons,
      ← List.append_assoc]
    by_cases h : b.Present i
    · rw [if_pos h, parseSegments_eq, enter_present h, if_pos (decide_eq_true h), Nat.add_assoc,
        Nat.add_comm 1]
    · rw [if_neg h, parseSegments_eq, enter_absent h, if_neg (by simpa using h)]
      rfl

/-- What `Parse_ELF_Executable` makes of the format. -/
def Buffer.parsed (b : Buffer) (fmt : ExeFormat) : ExeFormat :=
  { ({ fmt with entryAddr := b.field 24 4 }).enter b 0 b.phnum with numSegments := b.numSegments }

/-- What it reads. -/
def Buffer.parseReads (b : Buffer) : List (Nat × Nat) :=
  Buffer.headerReads ++ (List.range b.phnum).flatMap b.segmentReads

theorem parseElfExecutable_eq : parseElfExecutable b fmt log =
    if ELF_MAGIC_NUMBER = b.magic ∧ b.phnum ≤ EXE_MAX_SEGMENTS then
      some ((0, b.parsed fmt), { log with reads := log.reads ++ b.parseReads })
    else none := by
  rw [parseElfExecutable, load_bind, load_bind, load_bind, load_bind, load_bind, KASSERT_bind]
  change (if decide (ELF_MAGIC_NUMBER = b.magic) = true then _ else none) = _
  by_cases hmagic : ELF_MAGIC_NUMBER = b.magic
  · rw [if_pos (decide_eq_true hmagic), load_bind, KASSERT_bind]
    change (if decide (b.phnum ≤ EXE_MAX_SEGMENTS) = true then _ else none) = _
    by_cases hphnum : b.phnum ≤ EXE_MAX_SEGMENTS
    · rw [if_pos (decide_eq_true hphnum), if_pos ⟨hmagic, hphnum⟩]
      change (parseSegments b b.phnum 0 0 { fmt with entryAddr := b.field 24 4 } >>= _) _ = _
      simp only [bind, StateT.bind, parseSegments_eq, List.append_assoc, List.cons_append,
        List.nil_append, Nat.zero_add]
      rw [← List.range_eq_range']
      rfl
    · rw [if_neg fun h => hphnum (of_decide_eq_true h), if_neg fun h => hphnum h.2]
  · rw [if_neg fun h => hmagic (of_decide_eq_true h), if_neg fun h => hmagic h.1]

/-! ## `Load_User_Program` -/

/-- The segments of a format. -/
def ExeFormat.list (fmt : ExeFormat) : List ExeSegment :=
  (List.range' 0 fmt.numSegments).map fmt.segmentList

/-- What is read of the segments. -/
def ExeFormat.reads (fmt : ExeFormat) : List (Nat × Nat) :=
  fmt.list.map fun seg => (seg.offsetInFile, seg.lengthInFile)

def ExeFormat.writes (fmt : ExeFormat) : List (Nat × Nat) :=
  fmt.list.map fun seg => (seg.startAddress, seg.lengthInFile)

/-- The user memory when `n` segments from number `i` on are copied. -/
def copied (b : Buffer) (fmt : ExeFormat) : Nat → Nat → (Nat → UInt8) → Nat → UInt8
  | 0, _, memory => memory
  | n + 1, i, memory =>
    let seg := fmt.segmentList i
    copied b fmt n (i + 1)
      (memcpy W b.get seg.startAddress seg.offsetInFile seg.lengthInFile memory)

theorem copySegments_eq : ∀ {n i : Nat} {ctx : UserContext} {log : Log},
    copySegments b fmt n i ctx log = some ({ ctx with memory := copied b fmt n i ctx.memory },
      { log with
        reads := log.reads ++ (List.range' i n).map fun j =>
          ((fmt.segmentList j).offsetInFile, (fmt.segmentList j).lengthInFile)
        writes := log.writes ++ (List.range' i n).map fun j =>
          ((fmt.segmentList j).startAddress, (fmt.segmentList j).lengthInFile) })
  | 0, i, ctx, log => by
    rw [List.range'_zero, List.map_nil, List.map_nil, List.append_nil, List.append_nil]
    rfl
  | n + 1, i, ctx, log => by
    have h : copySegments b fmt (n + 1) i ctx log = copySegments b fmt n (i + 1)
        { ctx with
          memory := memcpy W b.get (fmt.segmentList i).startAddress (fmt.segmentList i).offsetInFile
            (fmt.segmentList i).lengthInFile ctx.memory }
        { log with
          reads := log.reads ++ [((fmt.segmentList i).offsetInFile, (fmt.segmentList i).lengthInFile)]
          writes := log.writes ++
            [((fmt.segmentList i).startAddress, (fmt.segmentList i).lengthInFile)] } := rfl
    rw [h, copySegments_eq, List.range'_succ, List.map_cons, List.map_cons]
    simp only [List.append_assoc, List.cons_append, List.nil_append]
    rfl

/-- `luTotal_Memory_Size`. -/
def totalMemorySize (fmt : ExeFormat) (command : Command) : Nat :=
  (maxVirtualAddress fmt fmt.numSegments 0 0 +
    roundUpToPage ((DEFAULT_USER_STACK_SIZE + (getArgumentBlockSize command).2) % W)) % W

/-- The context that is returned. -/
def loaded (b : Buffer) (fmt : ExeFormat) (command : Command) (heap : Heap) : UserContext where
  allocated := heap.userContext && heap.memory
  memory := copied b fmt fmt.numSegments 0 heap.contents
  size := if heap.userContext then totalMemorySize fmt command else 0
  entryAddr := fmt.entryAddr
  argBlockAddr := roundUpToPage (maxVirtualAddress fmt fmt.numSegments 0 0)
  stackPointerAddr := totalMemorySize fmt command
  refCount := 0

/-- The sizes that pass the assertions of `Create_User_Context`. -/
def ContextSize (size : Nat) : Prop := 0 < size / PAGE_SIZE ∧ size < 2 ^ 31

instance (size : Nat) : Decidable (ContextSize size) := inferInstanceAs (Decidable (_ ∧ _))

theorem ContextSize.mallocSize {size : Nat} (h : ContextSize size) : MallocSize size :=
  ⟨Nat.pos_of_ne_zero fun hzero => absurd h.1 (by simp [hzero]), h.2⟩

theorem createUserContext_eq {size : Nat} : createUserContext heap size log =
    if heap.userContext → ContextSize size then
      some (if heap.userContext then some ⟨heap.memory, heap.contents, size, 0, 0, 0, 0⟩ else none,
        log)
    else none := by
  unfold createUserContext
  cases heap.userContext with
  | false => rfl
  | true =>
    rw [if_pos rfl, KASSERT_bind, KASSERT_bind]
    by_cases hsize : ContextSize size
    · rw [if_pos (decide_eq_true hsize.mallocSize), if_pos (decide_eq_true hsize.1),
        if_pos fun _ => hsize]
      rfl
    · have hnot : ¬ (true = true → ContextSize size) := fun h => hsize (h rfl)
      by_cases hmalloc : MallocSize size
      · have hpages : ¬ 0 < size / PAGE_SIZE := fun h => hsize ⟨h, hmalloc.2⟩
        rw [if_neg fun h => hpages (of_decide_eq_true h), ite_self, if_neg hnot]
      · rw [if_neg fun h => hmalloc (of_decide_eq_true h), if_neg hnot]

theorem loadUserProgram_eq : loadUserProgram b fmt command heap log =
    if (heap.userContext → ContextSize (totalMemorySize fmt command)) ∧
        MallocSize (getArgumentBlockSize command).2 then
      some ((0, loaded b fmt command heap),
        { reads := log.reads ++ fmt.reads
          writes := log.writes ++ fmt.writes
          heap := log.heap ++ [formatArgumentBlock (getArgumentBlockSize command).1
            (roundUpToPage (maxVirtualAddress fmt fmt.numSegments 0 0)) command] })
    else none := by
  change (createUserContext heap (totalMemorySize fmt command) >>= _) log = _
  simp only [bind, StateT.bind, createUserContext_eq]
  by_cases hpages : heap.userContext → ContextSize (totalMemorySize fmt command)
  · rw [if_pos hpages, Option.bind_some]
    by_cases hargs : MallocSize (getArgumentBlockSize command).2
    · have hboth : (heap.userContext → ContextSize (totalMemorySize fmt command)) ∧
          MallocSize (getArgumentBlockSize command).2 := ⟨hpages, hargs⟩
      have hassert : KASSERT (decide (MallocSize (getArgumentBlockSize command).2)) log =
          some ((), log) := by
        rw [decide_eq_true hargs]
        rfl
      simp only [hassert, Option.bind_some]
      change ((copySegments b fmt fmt.numSegments 0 _) _).bind _ = _
      rw [copySegments_eq, Option.bind_some, if_pos hboth, ExeFormat.reads, ExeFormat.writes,
        ExeFormat.list, List.map_map, List.map_map]
      cases heap with
      | mk userContext memory contents => cases userContext <;> rfl
    · have hnot : ¬ ((heap.userContext → ContextSize (totalMemorySize fmt command)) ∧
          MallocSize (getArgumentBlockSize command).2) := fun h => hargs h.2
      have hassert : KASSERT (decide (MallocSize (getArgumentBlockSize command).2)) log = none := by
        rw [decide_eq_false hargs]
        rfl
      simp only [hassert, if_neg hnot]
      rfl
  · have hnot : ¬ ((heap.userContext → ContextSize (totalMemorySize fmt command)) ∧
        MallocSize (getArgumentBlockSize command).2) := fun h => hpages h.1
    rw [if_neg hnot, if_neg hpages]
    rfl

end GeekOS
