import Bambinos.GeekOS.Bounds
import Mathlib

/-!
# The image of a program

What a process finds in its memory after `Parse_ELF_Executable` and `Load_User_Program`.

* `UserContext.arguments` — the argument block as the process reads it
* `WellFormed` — an executable
* `Faithful` — the segments, zeros behind them, and the arguments of the command
* `not_faithful` — the argument block stays in the heap of the kernel
* `image_never_faithful` — so no image is faithful
-/

namespace GeekOS

open Infra

/-! ## what the process reads -/

namespace UserContext

variable (ctx : UserContext)

/-- A byte of the user memory. -/
def byte? (a : Nat) : Option UInt8 :=
  if ctx.allocated ∧ a < ctx.size then some (ctx.memory a) else none

/-- `n` bytes from `a` on, the lowest first. -/
def number? (a : Nat) : Nat → Option Nat
  | 0 => some 0
  | n + 1 => do
    let low ← ctx.byte? a
    let high ← number? (a + 1) n
    return low.toNat + 2 ^ 8 * high

def word? (a : Nat) : Option Nat := ctx.number? a 4

/-- The string at `a`, which has less than `fuel` characters. -/
def string? : Nat → Nat → Option (List UInt8)
  | 0, _ => none
  | fuel + 1, a => do
    let c ← ctx.byte? a
    if c = 0 then return [] else return c :: (← string? fuel (a + 1))

/-- `n` strings, to which the words from `argv` on point. -/
def strings? (argv : Nat) : Nat → Option (List (List UInt8))
  | 0 => some []
  | n + 1 => do
    let s ← ctx.string? ctx.size (← ctx.word? argv)
    return s :: (← strings? (argv + 4) n)

/-- The arguments in the `struct Argument_Block`: `argc` and `argv`. -/
def arguments : Option (List (List UInt8)) := do
  let argc ← ctx.word? ctx.argBlockAddr
  ctx.strings? (← ctx.word? (ctx.argBlockAddr + 4)) argc

variable {ctx}

theorem strings?_length : ∀ {n argv : Nat} {l : List (List UInt8)},
    ctx.strings? argv n = some l → l.length = n
  | 0, _, l, h => by
    cases h
    rfl
  | n + 1, argv, l, h => by
    simp only [strings?, Option.bind_eq_bind, Option.bind_eq_some_iff] at h
    obtain ⟨_, _, s, _, rest, hrest, hl⟩ := h
    cases hl
    rw [List.length_cons, strings?_length hrest]

/-- As many arguments as `argc` says. -/
theorem arguments_length {l : List (List UInt8)} (h : ctx.arguments = some l) :
    ctx.word? ctx.argBlockAddr = some l.length := by
  simp only [arguments, Option.bind_eq_bind, Option.bind_eq_some_iff] at h
  obtain ⟨argc, hargc, argv, _, hl⟩ := h
  rw [hargc, strings?_length hl]

/-- A number is read from bytes that are all the same. -/
theorem number?_const {c : UInt8} : ∀ {n a v : Nat},
    (∀ k < n, ∀ x, ctx.byte? (a + k) = some x → x = c) → ctx.number? a n = some v →
      v * 255 = c.toNat * (2 ^ (8 * n) - 1)
  | 0, a, v, _, h => by
    cases h
    rfl
  | n + 1, a, v, hc, h => by
    simp only [number?, Option.bind_eq_bind, Option.bind_eq_some_iff] at h
    obtain ⟨low, hlow, high, hhigh, hv⟩ := h
    cases hv
    have hfirst : low = c := hc 0 (Nat.succ_pos n) low hlow
    have hrest : high * 255 = c.toNat * (2 ^ (8 * n) - 1) := by
      refine number?_const (fun k hk x hx => ?_) hhigh
      refine hc (k + 1) (Nat.succ_lt_succ hk) x ?_
      rwa [Nat.add_assoc, Nat.add_comm 1 k] at hx
    have hpow : 2 ^ (8 * (n + 1)) - 1 = 255 + 2 ^ 8 * (2 ^ (8 * n) - 1) := by
      have hpos : 0 < 2 ^ (8 * n) := Nat.two_pow_pos _
      rw [Nat.mul_succ, Nat.pow_add]
      omega
    rw [hfirst, hpow, Nat.mul_add, Nat.add_mul, Nat.mul_assoc, hrest]
    ring

end UserContext

/-! ## executables -/

/-- A segment in memory. -/
def ExeSegment.Occupies (seg : ExeSegment) (a : Nat) : Prop :=
  seg.startAddress ≤ a ∧ a < seg.startAddress + seg.sizeInMemory

/-- An executable: a complete header and table, and segments that are in the file and do not
overlap. -/
structure WellFormed (file : ExeFile) : Prop where
  header : 52 ≤ file.bytes.length
  magic : ELF_MAGIC_NUMBER = file.buffer.magic
  table : ∀ i < file.buffer.phnum, file.buffer.programHeader i + 32 ≤ file.bytes.length
  segments : ∀ i < file.buffer.phnum, file.buffer.Present i →
    let seg := file.buffer.segment i
    seg.offsetInFile + seg.lengthInFile ≤ file.bytes.length ∧
      seg.lengthInFile ≤ seg.sizeInMemory
  disjoint : ∀ i j, i < j → j < file.buffer.phnum → ∀ a,
    ¬ ((file.buffer.segment i).Occupies a ∧ (file.buffer.segment j).Occupies a)

/-- The segment is in memory. -/
structure ExeSegment.Loaded (seg : ExeSegment) (file : ExeFile) (ctx : UserContext) : Prop where
  bytes : ∀ k < seg.lengthInFile,
    ctx.byte? (seg.startAddress + k) = file.bytes[seg.offsetInFile + k]?
  zeros : ∀ k, seg.lengthInFile ≤ k → k < seg.sizeInMemory →
    ctx.byte? (seg.startAddress + k) = some 0

/-- The image of the program and the arguments of the command are in memory. -/
structure Faithful (file : ExeFile) (command : Command) (ctx : UserContext) : Prop where
  segments : ∀ i < file.buffer.phnum, file.buffer.Present i →
    (file.buffer.segment i).Loaded file ctx
  arguments : ctx.arguments = some (words command)

/-- `ctx` is what the functions return with 0; `beyond` is behind the file, `fmt` was on the stack,
`contents` is what `Malloc` returned. -/
def Accepts (file : ExeFile) (command : Command) (beyond : Nat → UInt8) (fmt : ExeFormat)
    (contents : Nat → UInt8) (ctx : UserContext) : Prop :=
  ∃ log, parseAndLoad ⟨file, beyond⟩ fmt command ⟨true, true, contents⟩ .empty =
    some ((0, ctx), log)

/-- The image is faithful whenever the program is accepted. -/
def ImageOk (file : ExeFile) (command : Command) : Prop :=
  ∀ beyond fmt contents ctx, Accepts file command beyond fmt contents ctx →
    Faithful file command ctx

/-! ## the argument block -/

variable {file : ExeFile} {command : Command} {beyond : Nat → UInt8} {fmt : ExeFormat}
  {contents : Nat → UInt8} {ctx : UserContext}

theorem accepts_iff : Accepts file command beyond fmt contents ctx ↔
    (ELF_MAGIC_NUMBER = (Buffer.mk file beyond).magic ∧
      (Buffer.mk file beyond).phnum ≤ EXE_MAX_SEGMENTS) ∧
    (ContextSize (totalMemorySize ((Buffer.mk file beyond).parsed fmt) command) ∧
      MallocSize (getArgumentBlockSize command).2) ∧
    ctx = loaded ⟨file, beyond⟩ ((Buffer.mk file beyond).parsed fmt) command
      ⟨true, true, contents⟩ := by
  unfold Accepts
  rw [parseAndLoad_eq]
  constructor
  · rintro ⟨log, h⟩
    by_cases hparse : ELF_MAGIC_NUMBER = (Buffer.mk file beyond).magic ∧
        (Buffer.mk file beyond).phnum ≤ EXE_MAX_SEGMENTS
    · rw [if_pos hparse, loadUserProgram_eq] at h
      split at h
      · rename_i hload
        cases h
        exact ⟨hparse, ⟨hload.1 rfl, hload.2⟩, rfl⟩
      · cases h
    · rw [if_neg hparse] at h
      cases h
  · rintro ⟨hparse, hload, rfl⟩
    rw [if_pos hparse, loadUserProgram_eq, if_pos ⟨fun _ => hload.1, hload.2⟩]
    exact ⟨_, rfl⟩

/-- No other code is returned. -/
theorem parseAndLoad_ret {b : Buffer} {heap : Heap} {ret : Int} {log log' : Log}
    (h : parseAndLoad b fmt command heap log = some ((ret, ctx), log')) : ret = 0 := by
  rw [parseAndLoad_eq] at h
  split at h
  · rw [loadUserProgram_eq] at h
    split at h <;> cases h
    rfl
  · cases h

/-- Nothing is copied for the places of the format that are not filled. -/
def ExeFormat.blank (fmt : ExeFormat) : ExeFormat :=
  { fmt with segmentList := fun i => { fmt.segmentList i with lengthInFile := 0 } }

section Blank

variable {b : Buffer} {k : Nat}

/-- A place of the format is one of the file, or it was on the stack. -/
theorem parsed_segment : (b.parsed fmt).segmentList k =
    if k < b.phnum ∧ b.Present k then b.segment k else fmt.segmentList k := by
  show (if (0 ≤ k ∧ k < 0 + b.phnum) ∧ b.Present k then _ else _) = _
  simp

theorem maxVirtualAddress_congr {fmt' : ExeFormat}
    (h : ∀ k, (fmt'.segmentList k).startAddress = (fmt.segmentList k).startAddress ∧
      (fmt'.segmentList k).sizeInMemory = (fmt.segmentList k).sizeInMemory) :
    ∀ {n i m : Nat}, maxVirtualAddress fmt' n i m = maxVirtualAddress fmt n i m
  | 0, _, _ => rfl
  | n + 1, i, m => by
    rw [maxVirtualAddress, maxVirtualAddress, (h i).1, (h i).2]
    exact maxVirtualAddress_congr h

theorem totalMemorySize_blank :
    totalMemorySize (b.parsed fmt.blank) command = totalMemorySize (b.parsed fmt) command := by
  have hmax : maxVirtualAddress (b.parsed fmt.blank) b.numSegments 0 0 =
      maxVirtualAddress (b.parsed fmt) b.numSegments 0 0 := by
    refine maxVirtualAddress_congr fun k => ?_
    rw [parsed_segment, parsed_segment]
    split <;> exact ⟨rfl, rfl⟩
  show (maxVirtualAddress (b.parsed fmt.blank) b.numSegments 0 0 + _) % W = _
  rw [hmax]
  rfl

end Blank

/-- The run goes on as before. -/
theorem Accepts.blank (h : Accepts file command beyond fmt contents ctx) (contents' : Nat → UInt8) :
    Accepts file command beyond fmt.blank contents' (loaded ⟨file, beyond⟩
      ((Buffer.mk file beyond).parsed fmt.blank) command ⟨true, true, contents'⟩) := by
  obtain ⟨hparse, hload, -⟩ := accepts_iff.mp h
  refine accepts_iff.mpr ⟨hparse, ?_, rfl⟩
  rw [totalMemorySize_blank]
  exact hload

/-! ### pages -/

theorem roundUpToPage_mod (x : Nat) : roundUpToPage x % PAGE_SIZE = 0 := by
  unfold roundUpToPage PAGE_SIZE W
  split <;> omega

theorem roundUpToPage_self {x : Nat} (h : x % PAGE_SIZE = 0) : roundUpToPage x = x := if_pos h

/-- There is a page behind. -/
theorem le_roundUpToPage {x size : Nat} (hle : x ≤ size) (hlt : size < W)
    (hpage : size % PAGE_SIZE = 0) : x ≤ roundUpToPage x := by
  unfold roundUpToPage
  unfold PAGE_SIZE W at *
  split <;> omega

theorem maxVirtualAddress_mod : ∀ {n i m : Nat}, m % PAGE_SIZE = 0 →
    maxVirtualAddress fmt n i m % PAGE_SIZE = 0
  | 0, _, _, h => h
  | n + 1, i, m, h => by
    rw [maxVirtualAddress]
    refine maxVirtualAddress_mod ?_
    split
    · exact roundUpToPage_mod _
    · exact h

theorem totalMemorySize_mod : totalMemorySize fmt command % PAGE_SIZE = 0 := by
  have hmax := @maxVirtualAddress_mod fmt fmt.numSegments 0 0 rfl
  have hstack := roundUpToPage_mod
    ((DEFAULT_USER_STACK_SIZE + (getArgumentBlockSize command).2) % W)
  unfold totalMemorySize
  unfold PAGE_SIZE W at *
  omega

theorem le_maxVirtualAddress : ∀ {n i m : Nat}, m ≤ maxVirtualAddress fmt n i m
  | 0, _, _ => Nat.le_refl _
  | n + 1, i, m => by
    rw [maxVirtualAddress]
    refine Nat.le_trans ?_ le_maxVirtualAddress
    split <;> omega

/-- No segment ends behind. -/
theorem segment_le_maxVirtualAddress {k : Nat} : ∀ {n i m : Nat}, i ≤ k → k < i + n →
    roundUpToPage (((fmt.segmentList k).startAddress + (fmt.segmentList k).sizeInMemory) % W) ≤
      maxVirtualAddress fmt n i m
  | 0, _, _, hi, hk => by omega
  | n + 1, i, m, hi, hk => by
    rw [maxVirtualAddress]
    obtain rfl | hlt := Nat.eq_or_lt_of_le hi
    · refine Nat.le_trans ?_ le_maxVirtualAddress
      split <;> omega
    · exact segment_le_maxVirtualAddress hlt (by omega)

/-- What no segment covers is as `Malloc` returned it. -/
theorem copied_outside {b : Buffer} {o : Nat} : ∀ {n i : Nat} {memory : Nat → UInt8},
    (∀ k, i ≤ k → k < i + n → (fmt.segmentList k).lengthInFile = 0 ∨
      (fmt.segmentList k).startAddress + (fmt.segmentList k).lengthInFile ≤ min o W) →
      copied b fmt n i memory o = memory o
  | 0, _, _, _ => rfl
  | n + 1, i, memory, h => by
    rw [copied, copied_outside fun k hi hk => h k (by omega) (by omega)]
    obtain hnil | hle := h i (Nat.le_refl i) (by omega)
    · rw [hnil]
      rfl
    · exact memcpy_outside (by omega) (.inr (by omega))

/-! ### what the process finds there -/

/-- The segments are those of the file, whatever is behind it. -/
theorem WellFormed.segment_eq (h : WellFormed file) {i : Nat} (hi : i < file.buffer.phnum) :
    ((Buffer.mk file beyond).Present i ↔ file.buffer.Present i) ∧
      (file.buffer.Present i → (Buffer.mk file beyond).segment i = file.buffer.segment i) := by
  have hheader := (header_eq (b := ⟨file, beyond⟩) rfl (Nat.le_trans (by decide) h.header)).2.2
  refine GeekOS.segment_eq rfl hheader fun r hr => ?_
  have htable := h.table i hi
  have hheader := h.header
  have hlt := file.length_lt
  have hmod : ∀ {x}, x ≤ file.bytes.length → x % W = x := fun hx => Nat.mod_eq_of_lt (by omega)
  unfold Buffer.segmentReads at hr
  split at hr <;> simp only [List.cons_append, List.nil_append, List.mem_cons, List.not_mem_nil,
    or_false] at hr
  · obtain rfl | rfl | rfl | rfl | rfl | rfl | rfl := hr <;> rw [hmod (by omega)] <;> omega
  · obtain rfl | rfl | rfl := hr <;> rw [hmod (by omega)] <;> omega

/-- A segment that is in memory ends in the memory. -/
theorem ExeSegment.Loaded.end_le {seg : ExeSegment} (h : seg.Loaded file ctx)
    (hfile : seg.offsetInFile + seg.lengthInFile ≤ file.bytes.length)
    (hsize : seg.sizeInMemory ≠ 0) : seg.startAddress + seg.sizeInMemory ≤ ctx.size := by
  have hlast : ctx.byte? (seg.startAddress + (seg.sizeInMemory - 1)) ≠ none := by
    by_cases hk : seg.sizeInMemory - 1 < seg.lengthInFile
    · rw [h.bytes _ hk]
      exact fun hnone => absurd (List.getElem?_eq_none_iff.mp hnone) (by omega)
    · rw [h.zeros _ (by omega) (by omega)]
      exact Option.some_ne_none 0
  by_contra hgt
  exact hlast (if_neg fun hin => hgt (by omega))

/-- Where the argument block is to be, the memory is as `Malloc` returned it. -/
theorem Faithful.untouched (hwell : WellFormed file)
    (hctx : ctx = loaded ⟨file, beyond⟩ ((Buffer.mk file beyond).parsed fmt.blank) command
      ⟨true, true, contents⟩) (h : Faithful file command ctx) {a : Nat}
    (ha : ctx.argBlockAddr ≤ a) : ctx.memory a = contents a := by
  have hphnum : (Buffer.mk file beyond).phnum = file.buffer.phnum :=
    (header_eq rfl (Nat.le_trans (by decide) hwell.header)).2.1
  have hsegments := h.segments
  generalize hparsed : (Buffer.mk file beyond).parsed fmt.blank = parsed at hctx
  have hsize : ctx.size = totalMemorySize parsed command := by
    rw [hctx]
    rfl
  have hW : ctx.size < W := by
    rw [hsize]
    exact Nat.mod_lt _ (by decide)
  have hpage : ctx.size % PAGE_SIZE = 0 := by
    rw [hsize]
    exact totalMemorySize_mod
  have haddr : ctx.argBlockAddr = maxVirtualAddress parsed parsed.numSegments 0 0 := by
    rw [hctx]
    exact roundUpToPage_self (maxVirtualAddress_mod rfl)
  have houtside : copied ⟨file, beyond⟩ parsed parsed.numSegments 0 contents a = contents a := by
    refine copied_outside fun k _ hk => ?_
    have hseg : parsed.segmentList k = _ := hparsed ▸ parsed_segment
    by_cases hpresent : k < (Buffer.mk file beyond).phnum ∧ (Buffer.mk file beyond).Present k
    · -- the segment ends below the highest address
      have hi : k < file.buffer.phnum := hphnum ▸ hpresent.1
      obtain ⟨hiff, heq⟩ := @WellFormed.segment_eq _ beyond hwell _ hi
      have hp := hiff.mp hpresent.2
      obtain ⟨hfile, hlen⟩ := hwell.segments k hi hp
      have hend := (hsegments k hi hp).end_le hfile hp
      have hmax := @segment_le_maxVirtualAddress parsed _ _ _ 0 (Nat.zero_le k) hk
      rw [if_pos hpresent, heq hp] at hseg
      rw [hseg] at hmax ⊢
      rw [Nat.mod_eq_of_lt (by omega)] at hmax
      have hround := le_roundUpToPage hend hW hpage
      exact .inr (by omega)
    · rw [if_neg hpresent] at hseg
      rw [hseg]
      exact .inl rfl
  rw [hctx]
  exact houtside

/-- What `Malloc` may return: no number of arguments is that of the command. -/
def misleading (command : Command) : UInt8 := if words command = [] then 255 else 0

/-- The arguments are never those of the command. -/
theorem not_faithful (hwell : WellFormed file) (h : Accepts file command beyond fmt.blank
    (fun _ => misleading command) ctx) : ¬ Faithful file command ctx := by
  intro hfaithful
  have hctx := (accepts_iff.mp h).2.2
  have hword := UserContext.arguments_length hfaithful.arguments
  have hargc : (words command).length * 255 = (misleading command).toNat * (2 ^ (8 * 4) - 1) := by
    refine UserContext.number?_const (fun k _ x hx => ?_) hword
    unfold UserContext.byte? at hx
    split at hx
    · cases hx
      exact hfaithful.untouched hwell hctx (Nat.le_add_right _ k)
    · cases hx
  unfold misleading at hargc
  split at hargc
  · rename_i hnil
    rw [hnil] at hargc
    exact absurd hargc (by decide)
  · rename_i hne
    have hlength : (words command).length = 0 := by
      have hzero : (0 : UInt8).toNat = 0 := rfl
      rw [hzero] at hargc
      omega
    exact hne (List.length_eq_zero_iff.mp hlength)

/--
**The image.** No executable and no command have a faithful image: a run that is accepted can find
anything in the memory, and the argument block is not copied there.
-/
theorem image_never_faithful (file : ExeFile) (command : Command) (hwell : WellFormed file)
    (haccepts : ∃ beyond fmt contents ctx, Accepts file command beyond fmt contents ctx) :
    ¬ ImageOk file command := by
  intro h
  obtain ⟨beyond, fmt, contents, ctx, hrun⟩ := haccepts
  have hblank := hrun.blank fun _ => misleading command
  exact not_faithful hwell hblank (h _ _ _ _ hblank)

/-! ## a program -/

/-- A header and a program header, whose segment is the first 4 bytes and 4 zeros. -/
def tiny : ExeFile where
  bytes :=
    [127, 69, 76, 70, 1, 1, 1, 0, 0, 0, 0, 0, 0, 0, 0, 0, 2, 0, 3, 0, 1, 0, 0, 0,
      0, 16, 0, 0, 52, 0, 0, 0, 0, 0, 0, 0, 0, 0, 0, 0, 52, 0, 32, 0, 1, 0, 0, 0, 0, 0, 0, 0,
      1, 0, 0, 0, 0, 0, 0, 0, 0, 16, 0, 0, 0, 16, 0, 0, 4, 0, 0, 0, 8, 0, 0, 0, 5, 0, 0, 0,
      0, 16, 0, 0]
  length_lt := by decide

theorem tiny_wellFormed : WellFormed tiny := by
  have hphnum : tiny.buffer.phnum = 1 := by decide +kernel
  refine ⟨by decide, by decide +kernel, by decide +kernel, by decide +kernel, fun i j hij hj => ?_⟩
  omega

theorem tiny_accepted (contents : Nat → UInt8) :
    Accepts tiny commandA (fun _ => 0) badFormat contents
      (loaded tiny.buffer (tiny.buffer.parsed badFormat) commandA ⟨true, true, contents⟩) :=
  accepts_iff.mpr ⟨by decide +kernel, by decide +kernel, rfl⟩

theorem image_never_faithful_tiny : ¬ ImageOk tiny commandA :=
  image_never_faithful tiny commandA tiny_wellFormed ⟨_, _, _, _, tiny_accepted fun _ => 0⟩

/-- The program is started with the argument `a`, and does not find it. -/
theorem tiny_not_faithful : WellFormed tiny ∧ words commandA = [[97]] ∧
    ∃ ctx, Accepts tiny commandA (fun _ => 0) badFormat.blank (fun _ => 0) ctx ∧
      ¬ Faithful tiny commandA ctx := by
  have hwords : words commandA = [[97]] := by decide +kernel
  have hzero : misleading commandA = 0 := by
    rw [misleading, hwords]
    rfl
  have hrun := (tiny_accepted fun _ => 0).blank fun _ => misleading commandA
  refine ⟨tiny_wellFormed, hwords, _, ?_, not_faithful tiny_wellFormed hrun⟩
  rw [hzero] at hrun ⊢
  exact hrun

end GeekOS
