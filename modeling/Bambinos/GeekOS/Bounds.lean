import Bambinos.GeekOS.Fields
import Mathlib.Data.List.Perm.Subperm
import Mathlib.Data.List.Range

/-!
# Accesses outside the file and the user memory

* `LoadOk` — the loader stays in the file and in the user memory, or returns an error
* `Fits` — the headers and segments are where they claim to be
* `load_ok_iff` — nothing else makes the loader stay in bounds: it checks nothing
* `truncated_file` — a segment is longer than the file
-/

namespace GeekOS

open Infra

/-- The program is loaded within bounds, or there is an error code. The user memory has no bytes when
it was not allocated. -/
def LoadOk (b : Buffer) (fmt : ExeFormat) (command : Command) (heap : Heap) : Prop :=
  ∃ ret ctx log, parseAndLoad b fmt command heap .empty = some ((ret, ctx), log) ∧
    (ret < 0 ∨ ret = 0 ∧ (∀ r ∈ log.reads, Inside W b.file.bytes.length r.1 r.2) ∧
      ∀ r ∈ log.writes, Inside W (if ctx.allocated then ctx.size else 0) r.1 r.2)

/-- The file, and zeros. -/
def ExeFile.buffer (file : ExeFile) : Buffer := ⟨file, fun _ => 0⟩

/-- The segments that are put into memory. -/
def ExeFile.segments (file : ExeFile) : List ExeSegment :=
  ((List.range file.buffer.phnum).filter fun i => file.buffer.Present i).map file.buffer.segment

/-- The end of the highest segment, on a page. -/
def imageEnd (segs : List ExeSegment) : Nat :=
  (segs.map fun seg => roundUpToPage ((seg.startAddress + seg.sizeInMemory) % W)).foldl max 0

/-- The segments and the stack. -/
def memorySize (file : ExeFile) (command : Command) : Nat :=
  (imageEnd file.segments +
    roundUpToPage ((DEFAULT_USER_STACK_SIZE + (getArgumentBlockSize command).2) % W)) % W

/-- The file is as the loader takes it to be. -/
structure Fits (file : ExeFile) (command : Command) (heap : Heap) : Prop where
  header : 46 ≤ file.bytes.length
  magic : ELF_MAGIC_NUMBER = file.buffer.magic
  phnum : file.buffer.phnum ≤ EXE_MAX_SEGMENTS
  /-- What is read of the program headers ends in the file. -/
  table : ∀ i < file.buffer.phnum, ∀ r ∈ file.buffer.segmentReads i, r.1 + r.2 ≤ file.bytes.length
  /-- The headers without memory come last. -/
  order : ∀ i j, i < j → j < file.buffer.phnum → file.buffer.Present j → file.buffer.Present i
  /-- What is copied of a segment ends in the file and in the user memory. -/
  segments : ∀ seg ∈ file.segments, seg.lengthInFile = 0 ∨
    seg.offsetInFile + seg.lengthInFile ≤ file.bytes.length ∧
      seg.startAddress + seg.lengthInFile ≤ memorySize file command ∧
        heap.userContext ∧ heap.memory
  args : MallocSize (getArgumentBlockSize command).2
  memory : heap.userContext → ContextSize (memorySize file command)

variable {b : Buffer} {file : ExeFile} {fmt : ExeFormat} {command : Command} {heap : Heap}

/-! ## the run -/

theorem parseAndLoad_eq {log : Log} : parseAndLoad b fmt command heap log =
    if ELF_MAGIC_NUMBER = b.magic ∧ b.phnum ≤ EXE_MAX_SEGMENTS then
      loadUserProgram b (b.parsed fmt) command heap { log with reads := log.reads ++ b.parseReads }
    else none := by
  unfold parseAndLoad
  simp only [bind, StateT.bind, parseElfExecutable_eq]
  split <;> rfl

/-- The parts of `LoadOk`. -/
theorem loadOk_iff : LoadOk b fmt command heap ↔
    (ELF_MAGIC_NUMBER = b.magic ∧ b.phnum ≤ EXE_MAX_SEGMENTS) ∧
    ((heap.userContext → ContextSize (totalMemorySize (b.parsed fmt) command)) ∧
      MallocSize (getArgumentBlockSize command).2) ∧
    (∀ r ∈ b.parseReads ++ (b.parsed fmt).reads, Inside W b.file.bytes.length r.1 r.2) ∧
    ∀ r ∈ (b.parsed fmt).writes, Inside W (if heap.userContext && heap.memory then
      (if heap.userContext then totalMemorySize (b.parsed fmt) command else 0) else 0) r.1 r.2 := by
  unfold LoadOk
  rw [parseAndLoad_eq]
  by_cases hparse : ELF_MAGIC_NUMBER = b.magic ∧ b.phnum ≤ EXE_MAX_SEGMENTS
  · rw [if_pos hparse, loadUserProgram_eq]
    by_cases hload : (heap.userContext → ContextSize (totalMemorySize (b.parsed fmt) command)) ∧
        MallocSize (getArgumentBlockSize command).2
    · rw [if_pos hload]
      constructor
      · rintro ⟨ret, ctx, log, heq, hok⟩
        cases heq
        obtain hneg | ⟨-, hreads, hwrites⟩ := hok
        · exact absurd hneg (by decide)
        · exact ⟨hparse, hload, hreads, hwrites⟩
      · rintro ⟨-, -, hreads, hwrites⟩
        exact ⟨_, _, _, rfl, .inr ⟨rfl, hreads, hwrites⟩⟩
    · rw [if_neg hload]
      exact ⟨fun ⟨_, _, _, heq, _⟩ => (nomatch heq), fun h => absurd h.2.1 hload⟩
  · rw [if_neg hparse]
    exact ⟨fun ⟨_, _, _, heq, _⟩ => (nomatch heq), fun h => absurd h.1 hparse⟩

/-! ## what is in the file does not depend on what is behind it -/

theorem read_eq (hfile : b.file = file) : ∀ {n o : Nat}, Inside W file.bytes.length o n →
    b.read o n = file.buffer.read o n
  | 0, _, _ => rfl
  | n + 1, o, h => by
    have hget : b.get (o % W) = file.buffer.get (o % W) := by
      have ho : o % W < file.bytes.length := h 0 (Nat.succ_pos n)
      subst hfile
      rw [Buffer.get, dif_pos ho, Buffer.get]
      exact (dif_pos ho).symm
    have hrest : Inside W file.bytes.length ((o + 1) % W) n := by
      intro k hk
      rw [Nat.mod_add_mod, Nat.add_assoc, Nat.add_comm 1 k]
      exact h (k + 1) (Nat.succ_lt_succ hk)
    rw [Buffer.read, Buffer.read, hget, read_eq hfile hrest]

theorem field_eq {o n : Nat} (hfile : b.file = file)
    (h : Inside W file.bytes.length (o % W) n) : b.field o n = file.buffer.field o n :=
  read_eq hfile h

/-- The reads end in the file. -/
theorem inside_of_le {start count : Nat} (h : start + count ≤ file.bytes.length) :
    Inside W file.bytes.length start count := by
  intro k hk
  have hlt := file.length_lt
  rw [Nat.mod_eq_of_lt (by omega)]
  omega

/-- A complete header is read from the file. -/
theorem header_eq (hfile : b.file = file) (hlen : 46 ≤ file.bytes.length) :
    b.magic = file.buffer.magic ∧ b.phnum = file.buffer.phnum ∧
      b.programHeader = file.buffer.programHeader := by
  have hfield : ∀ o n, o + n ≤ 46 → b.field o n = file.buffer.field o n := by
    intro o n hle
    refine field_eq hfile (inside_of_le ?_)
    rw [Nat.mod_eq_of_lt (show o < W from Nat.lt_of_le_of_lt (by omega) (show 46 < W by decide))]
    omega
  refine ⟨?_, hfield 44 2 (by omega), funext fun i => ?_⟩
  · unfold Buffer.magic
    rw [hfield 0 1 (by omega), hfield 1 1 (by omega), hfield 2 1 (by omega), hfield 3 1 (by omega)]
  · unfold Buffer.programHeader
    rw [hfield 28 4 (by omega), hfield 42 2 (by omega)]

/-- So is a program header. -/
theorem segment_eq {i : Nat} (hfile : b.file = file)
    (hheader : b.programHeader = file.buffer.programHeader)
    (h : ∀ r ∈ file.buffer.segmentReads i, r.1 + r.2 ≤ file.bytes.length) :
    (b.Present i ↔ file.buffer.Present i) ∧
      (file.buffer.Present i → b.segment i = file.buffer.segment i) := by
  have hfield : ∀ o, ((file.buffer.programHeader i + o) % W, 4) ∈ file.buffer.segmentReads i →
      b.field (b.programHeader i + o) 4 =
        file.buffer.field (file.buffer.programHeader i + o) 4 := by
    intro o ho
    rw [hheader]
    exact field_eq hfile (inside_of_le (h _ ho))
  have hsize := hfield 20 (by simp [Buffer.segmentReads])
  have hpresent : b.Present i ↔ file.buffer.Present i := by
    unfold Buffer.Present Buffer.segment
    dsimp only
    rw [hsize]
  refine ⟨hpresent, fun hp => ?_⟩
  unfold Buffer.segment
  rw [hsize, hfield 4 (by simp [Buffer.segmentReads, hp]),
    hfield 16 (by simp [Buffer.segmentReads, hp]), hfield 8 (by simp [Buffer.segmentReads, hp]),
    hfield 24 (by simp [Buffer.segmentReads, hp])]

/-! ## the order of the program headers -/

/-- The numbers below `n` with a property, when those without it come last. -/
theorem filter_range {p : Nat → Prop} [DecidablePred p] : ∀ {n : Nat},
    (∀ i j, i < j → j < n → p j → p i) →
      (List.range n).filter (fun i => p i) = List.range ((List.range n).countP fun i => p i)
  | 0, _ => rfl
  | n + 1, h => by
    have ih := filter_range fun i j hij hj => h i j hij (Nat.lt_succ_of_lt hj)
    rw [List.range_succ, List.filter_append, List.countP_append, ih]
    by_cases hn : p n
    · have hall : (List.range n).countP (fun i => p i) = n := by
        rw [List.countP_eq_length.mpr, List.length_range]
        exact fun i hi => decide_eq_true (h i n (List.mem_range.mp hi) (Nat.lt_succ_self n) hn)
      have hfilter : [n].filter (fun i => decide (p i)) = [n] := by simp [hn]
      have hcount : [n].countP (fun i => decide (p i)) = 1 := by simp [hn]
      rw [hall, hfilter, hcount, List.range_succ]
    · have hfilter : [n].filter (fun i => decide (p i)) = [] := by simp [hn]
      have hcount : [n].countP (fun i => decide (p i)) = 0 := by simp [hn]
      rw [hfilter, hcount, List.append_nil, Nat.add_zero]

/-- The first numbers have the property, so there is none behind them. -/
theorem lt_countP {p : Nat → Prop} [DecidablePred p] {n j : Nat}
    (h : ∀ k < (List.range n).countP (fun i => p i), p k) (hj : j < n) (hp : p j) :
    j < (List.range n).countP fun i => p i := by
  by_contra hle
  set c := (List.range n).countP fun i => p i with hc
  have hnodup : (List.range c ++ [j]).Nodup := by
    refine List.nodup_append.mpr ⟨List.nodup_range, List.pairwise_singleton .., ?_⟩
    rintro i hi k hk rfl
    exact hle (List.mem_range.mp (List.mem_singleton.mp hk ▸ hi))
  have hsub : List.range c ++ [j] ⊆ (List.range n).filter fun i => p i := by
    intro i hi
    obtain hi | hi := List.mem_append.mp hi
    · have hic := List.mem_range.mp hi
      exact List.mem_filter.mpr ⟨List.mem_range.mpr (by omega), decide_eq_true (h i hic)⟩
    · rw [List.mem_singleton.mp hi]
      exact List.mem_filter.mpr ⟨List.mem_range.mpr hj, decide_eq_true hp⟩
  have hlen := (List.subperm_of_subset hnodup hsub).length_le
  rw [List.length_append, List.length_range, List.length_singleton, ← List.countP_eq_length_filter,
    ← hc] at hlen
  omega

/-! ## the format -/

theorem maxVirtualAddress_eq : ∀ {n i m : Nat}, maxVirtualAddress fmt n i m =
    ((((List.range' i n).map fmt.segmentList).map fun seg =>
      roundUpToPage ((seg.startAddress + seg.sizeInMemory) % W)).foldl max m)
  | 0, i, m => by rw [List.range'_zero, List.map_nil, List.map_nil, List.foldl_nil]; rfl
  | n + 1, i, m => by
    rw [maxVirtualAddress, maxVirtualAddress_eq, List.range'_succ, List.map_cons, List.map_cons,
      List.foldl_cons]
    congr 1
    split <;> omega

theorem totalMemorySize_eq : totalMemorySize fmt command = (imageEnd fmt.list +
    roundUpToPage ((DEFAULT_USER_STACK_SIZE + (getArgumentBlockSize command).2) % W)) % W := by
  rw [totalMemorySize, maxVirtualAddress_eq]
  rfl

/-- When the headers without memory come last, the format has all others. -/
theorem parsed_list (horder : ∀ i j, i < j → j < b.phnum → b.Present j → b.Present i) :
    (b.parsed fmt).list = ((List.range b.phnum).filter fun i => b.Present i).map b.segment := by
  rw [filter_range horder, ExeFormat.list, List.range_eq_range']
  change (List.range' 0 b.numSegments).map _ = (List.range' 0 b.numSegments).map _
  refine List.map_congr_left fun k hk => ?_
  have hk : k ∈ (List.range b.phnum).filter fun i => b.Present i := by
    rw [filter_range horder, List.range_eq_range']
    exact hk
  obtain ⟨hlt, hp⟩ := List.mem_filter.mp hk
  exact if_pos ⟨⟨Nat.zero_le k, by have := List.mem_range.mp hlt; omega⟩, of_decide_eq_true hp⟩

theorem Fits.agree (h : Fits file command heap) (hfile : b.file = file) :
    (b.magic = file.buffer.magic ∧ b.phnum = file.buffer.phnum) ∧
      b.parseReads = file.buffer.parseReads ∧ ∀ fmt, (b.parsed fmt).list = file.segments := by
  obtain ⟨hmagic, hphnum, hheader⟩ := header_eq hfile h.header
  have hseg : ∀ i, i < file.buffer.phnum → (b.Present i ↔ file.buffer.Present i) ∧
      (file.buffer.Present i → b.segment i = file.buffer.segment i) :=
    fun i hi => segment_eq hfile hheader (h.table i hi)
  refine ⟨⟨hmagic, hphnum⟩, ?_, fun fmt => ?_⟩
  · rw [Buffer.parseReads, Buffer.parseReads, hphnum]
    refine congrArg _ (List.flatMap_congr fun i hi => ?_)
    rw [Buffer.segmentReads, Buffer.segmentReads, hheader]
    exact congrArg _ (if_congr (hseg i (List.mem_range.mp hi)).1 rfl rfl)
  · rw [parsed_list, hphnum, ExeFile.segments]
    · have hfilter : (List.range file.buffer.phnum).filter (fun i => b.Present i) =
          (List.range file.buffer.phnum).filter fun i => file.buffer.Present i :=
        List.filter_congr fun i hi => decide_eq_decide.mpr (hseg i (List.mem_range.mp hi)).1
      rw [hfilter]
      refine List.map_congr_left fun i hi => ?_
      obtain ⟨hi, hp⟩ := List.mem_filter.mp hi
      exact (hseg i (List.mem_range.mp hi)).2 (of_decide_eq_true hp)
    · intro i j hij hj hp
      rw [hphnum] at hj
      exact (hseg i (by omega)).1.mpr (h.order i j hij hj ((hseg j hj).1.mp hp))

/-! ## the fields -/

theorem read_lt : ∀ {n o : Nat}, b.read o n < 2 ^ (8 * n)
  | 0, _ => by rw [Buffer.read]; exact Nat.one_pos
  | n + 1, o => by
    have hget : (b.get (o % W)).toNat < 2 ^ 8 := UInt8.toNat_lt _
    have hrest := read_lt (n := n) (o := (o + 1) % W)
    rw [Buffer.read, Nat.mul_succ, Nat.pow_add]
    have hmul : 2 ^ 8 * (b.read ((o + 1) % W) n + 1) ≤ 2 ^ 8 * 2 ^ (8 * n) :=
      Nat.mul_le_mul_left _ hrest
    rw [Nat.mul_comm (2 ^ (8 * n))]
    omega

theorem field_lt {o : Nat} : b.field o 4 < W := read_lt

theorem segments_lt {seg : ExeSegment} (h : seg ∈ file.segments) :
    seg.offsetInFile < W ∧ seg.startAddress < W := by
  obtain ⟨i, -, rfl⟩ := List.mem_map.mp h
  exact ⟨field_lt, field_lt⟩

theorem segmentReads_lt {i : Nat} {r : Nat × Nat} (h : r ∈ b.segmentReads i) :
    r.1 < W ∧ r.2 ≠ 0 := by
  have hW : 0 < W := by decide
  unfold Buffer.segmentReads at h
  split at h <;> simp only [List.cons_append, List.nil_append, List.mem_cons, List.not_mem_nil,
    or_false] at h
  · obtain rfl | rfl | rfl | rfl | rfl | rfl | rfl := h <;> exact ⟨Nat.mod_lt _ hW, Nat.succ_ne_zero _⟩
  · obtain rfl | rfl | rfl := h <;> exact ⟨Nat.mod_lt _ hW, Nat.succ_ne_zero _⟩

/-! ## when the loader stays in bounds -/

theorem Fits.total (h : Fits file command heap) (hfile : b.file = file) :
    totalMemorySize (b.parsed fmt) command = memorySize file command := by
  rw [totalMemorySize_eq, (h.agree hfile).2.2, memorySize]

theorem parseReads_inside (h : Fits file command heap) :
    ∀ r ∈ file.buffer.parseReads, Inside W file.bytes.length r.1 r.2 := by
  intro r hr
  refine inside_of_le ?_
  obtain hr | hr := List.mem_append.mp hr
  · have hheader := h.header
    simp only [Buffer.headerReads, List.mem_cons, List.not_mem_nil, or_false] at hr
    obtain rfl | rfl | rfl | rfl | rfl | rfl := hr <;> exact Nat.le_trans (by decide) hheader
  · obtain ⟨i, hi, hr⟩ := List.mem_flatMap.mp hr
    exact h.table i (List.mem_range.mp hi) r hr

theorem Fits.loadOk (h : Fits file command heap) (hfile : b.file = file) :
    LoadOk b fmt command heap := by
  obtain ⟨⟨hmagic, hphnum⟩, hreads, hlist⟩ := h.agree hfile
  rw [loadOk_iff, h.total hfile, hmagic, hphnum, hreads, hfile, ExeFormat.reads, ExeFormat.writes,
    hlist]
  refine ⟨⟨h.magic, h.phnum⟩, ⟨h.memory, h.args⟩, ?_, ?_⟩
  · intro r hr
    obtain hr | hr := List.mem_append.mp hr
    · exact parseReads_inside h r hr
    · obtain ⟨seg, hseg, rfl⟩ := List.mem_map.mp hr
      obtain hnil | ⟨hle, -⟩ := h.segments seg hseg
      · exact fun k hk => absurd hk (by rw [hnil]; exact Nat.not_lt_zero k)
      · exact inside_of_le hle
  · intro r hr
    obtain ⟨seg, hseg, rfl⟩ := List.mem_map.mp hr
    obtain hnil | ⟨-, hle, hctx, hmem⟩ := h.segments seg hseg
    · exact fun k hk => absurd hk (by rw [hnil]; exact Nat.not_lt_zero k)
    · rw [hctx, hmem, Bool.and_self, if_pos rfl, if_pos rfl]
      have hlt : memorySize file command < W := Nat.mod_lt _ (by decide)
      have hstart := (segments_lt hseg).2
      exact (inside_iff hstart hlt).mpr (.inr hle)

/-- What may be on the stack: a segment that is written to the end of the address space. -/
def badFormat : ExeFormat := ⟨fun _ => ⟨0, 1, W - 1, 0, 0⟩, 0, 0⟩

/-- No place of the format is left as it was. -/
theorem present_of_loadOk (h : LoadOk b badFormat command heap) :
    ∀ k < b.numSegments, k < b.phnum ∧ b.Present k := by
  intro k hk
  by_contra hno
  obtain ⟨-, -, -, hwrites⟩ := loadOk_iff.mp h
  have hk' : (b.parsed badFormat).segmentList k = ⟨0, 1, W - 1, 0, 0⟩ :=
    if_neg fun hp => hno ⟨by omega, hp.2⟩
  have hin : (W - 1, 1) ∈ (b.parsed badFormat).writes := by
    refine List.mem_map.mpr ⟨_, List.mem_map.mpr ⟨k, ?_, hk'⟩, rfl⟩
    exact List.mem_range'_1.mpr ⟨Nat.zero_le k, by rw [Nat.zero_add]; exact hk⟩
  have hinside := hwrites _ hin 0 Nat.one_pos
  have hlt : totalMemorySize (b.parsed badFormat) command < W := Nat.mod_lt _ (by decide)
  have hmod : (W - 1 + 0) % W = W - 1 := by decide
  have hpos : 0 < W := by decide
  rw [hmod] at hinside
  split at hinside
  · split at hinside <;> omega
  · omega

theorem order_of_loadOk (h : LoadOk b badFormat command heap) :
    ∀ i j, i < j → j < b.phnum → b.Present j → b.Present i := by
  intro i j hij hj hp
  have hall := present_of_loadOk h
  have hj' : j < b.numSegments := lt_countP (fun k hk => (hall k hk).2) hj hp
  exact (hall i (by omega)).2

theorem fits_of_loadOk (h : LoadOk file.buffer badFormat command heap) :
    Fits file command heap := by
  have horder := order_of_loadOk h
  have hlist : (file.buffer.parsed badFormat).list = file.segments := parsed_list horder
  obtain ⟨⟨hmagic, hphnum⟩, ⟨hmemory, hargs⟩, hreads, hwrites⟩ := loadOk_iff.mp h
  rw [totalMemorySize_eq, hlist] at hmemory hwrites
  rw [ExeFormat.reads, hlist] at hreads
  rw [ExeFormat.writes, hlist] at hwrites
  have hlen : file.bytes.length < W := file.length_lt
  refine ⟨?_, hmagic, hphnum, fun i hi r hr => ?_, horder, fun seg hseg => ?_, hargs, hmemory⟩
  · -- the last byte of `phnum`
    have hphnum' : (44 % W, 2) ∈ file.buffer.parseReads ++
        file.segments.map fun seg => (seg.offsetInFile, seg.lengthInFile) := by
      simp [Buffer.parseReads, Buffer.headerReads]
    exact hreads _ hphnum' 1 (by decide)
  · have hin : r ∈ file.buffer.parseReads ++
        file.segments.map fun seg => (seg.offsetInFile, seg.lengthInFile) :=
      List.mem_append_left _ (List.mem_append_right _
        (List.mem_flatMap.mpr ⟨i, List.mem_range.mpr hi, hr⟩))
    obtain ⟨hlt, hne⟩ := segmentReads_lt hr
    exact ((inside_iff hlt hlen).mp (hreads r hin)).resolve_left hne
  · obtain ⟨hoffset, hstart⟩ := segments_lt hseg
    have hread := hreads (seg.offsetInFile, seg.lengthInFile)
      (List.mem_append_right _ (List.mem_map.mpr ⟨seg, hseg, rfl⟩))
    have hwrite := hwrites (seg.startAddress, seg.lengthInFile) (List.mem_map.mpr ⟨seg, hseg, rfl⟩)
    obtain hnil | hle := (inside_iff hoffset hlen).mp hread
    · exact .inl hnil
    · by_cases hboth : heap.userContext && heap.memory
      · obtain ⟨hctx, hmem⟩ := Bool.and_eq_true_iff.mp hboth
        rw [if_pos hboth, if_pos hctx] at hwrite
        have hlt : memorySize file command < W := Nat.mod_lt _ (by decide)
        exact ((inside_iff hstart hlt).mp hwrite).imp_right fun hend => ⟨hle, hend, hctx, hmem⟩
      · rw [if_neg hboth] at hwrite
        have hnone := (inside_iff hstart (by decide)).mp hwrite
        exact .inl (by omega)

/--
**The bounds.** The loader reads only the file and writes only the user memory, or returns an error
code, whatever is behind the file and in the uninitialised format, exactly if the file fits.
-/
theorem load_ok_iff (file : ExeFile) (command : Command) (heap : Heap) :
    (∀ beyond fmt, LoadOk ⟨file, beyond⟩ fmt command heap) ↔ Fits file command heap :=
  ⟨fun h => fits_of_loadOk (h _ badFormat), fun h _ _ => h.loadOk rfl⟩

/-! ## a file that does not -/

/-- A header and a program header, whose segment is 100 bytes long. -/
def truncated : ExeFile where
  bytes :=
    [127, 69, 76, 70, 1, 1, 1, 0, 0, 0, 0, 0, 0, 0, 0, 0, 2, 0, 3, 0, 1, 0, 0, 0,
      0, 16, 0, 0, 52, 0, 0, 0, 0, 0, 0, 0, 0, 0, 0, 0, 52, 0, 32, 0, 1, 0, 0, 0, 0, 0, 0, 0,
      1, 0, 0, 0, 0, 0, 0, 0, 0, 16, 0, 0, 0, 16, 0, 0, 100, 0, 0, 0, 100, 0, 0, 0, 5, 0, 0, 0,
      0, 16, 0, 0]
  length_lt := by decide

/-- `a`. -/
def commandA : Command := ⟨[97], by simp, by decide⟩

/-- There is memory. -/
def fullHeap : Heap := ⟨true, true, fun _ => 0⟩

/-- The program is accepted, although 16 bytes of its segment are behind the file. -/
theorem truncated_file :
    ((parseAndLoad truncated.buffer badFormat commandA fullHeap .empty).any fun r =>
      decide (r.1.1 = 0)) ∧ ¬ LoadOk truncated.buffer badFormat commandA fullHeap := by
  refine ⟨by decide +kernel, fun h => ?_⟩
  obtain ⟨-, -, hreads, -⟩ := loadOk_iff.mp h
  have hin : (0, 100) ∈ truncated.buffer.parseReads ++ (truncated.buffer.parsed badFormat).reads := by
    decide +kernel
  exact absurd (hreads _ hin 84 (by decide)) (by decide)

end GeekOS
