import Bambinos.GeekOS.Syscall
import Mathlib

/-!
# The buffers of the system calls

* `BuffersOk` — a system call writes into its buffers only, uses the memory of the caller only, and
  reports what goes wrong
* `Strays` — a computation does not undo that something else was written
* `buffers_ok_iff` — for `Sys_PrintString` the buffer must have been allocated and the string be the
  caller's; `Sys_Spawn` always writes behind its first buffer
-/

namespace GeekOS

open Infra

/-! ## the property -/

/-- The byte is a copy of one of the caller's, or the end of a string. -/
def Source.Own (size : Nat) : Source → Prop
  | kernel => False
  | terminator => True
  | user a => a < size

/-- The memory at the end of a system call, or where the kernel stopped. -/
def finalState {ε σ α : Type} : EStateM.Result ε σ α → σ
  | .ok _ s => s
  | .error _ s => s

/-- What a system call is to do, when `inside` says that the caller's ranges are its own. -/
structure BuffersOk (process : Process) (inside : Prop)
    (result : EStateM.Result Stop SysState Int) : Prop where
  strays : (finalState result).strays = []
  uses : ∀ u ∈ (finalState result).uses, u.Own process.size
  negative : (finalState result).failed = true ∨ ¬ inside → ∃ v s, result = .ok v s ∧ v < 0

/-- The system calls with buffers. -/
inductive Call where
  | printString
  | spawn
deriving DecidableEq, Repr

namespace Call

def run (spawn : List UInt8 → Option Int) (heap : Allocator) (process : Process)
    (state : InterruptState) : Call → Sys Int
  | printString => sysPrintString heap process state
  | .spawn => sysSpawn spawn heap process state

/-- The ranges that are given lie in the memory of the process. -/
def Ranges (process : Process) (state : InterruptState) : Call → Prop
  | printString => Inside W process.size state.ebx state.ecx
  | spawn => Inside W process.size state.ebx state.ecx ∧ Inside W process.size state.edx state.esi

/-- When it does what it is to do. `Sys_Spawn` is stopped by `Malloc` then. -/
def Condition (heap : Allocator) (process : Process) (state : InterruptState) : Call → Prop
  | printString => 1024 < (state.ecx : Nat) ∨
      heap.bget [] (state.ecx + 1) ≠ 0 ∧ Inside W process.size state.ebx state.ecx
  | spawn => ((state.ecx : Nat) = 0 ∨ 2 ^ 31 ≤ (state.ecx : Nat)) ∧
      Inside W process.size state.ebx state.ecx ∧ Inside W process.size state.edx state.esi

end Call

/-! ## running a system call -/

section Run

variable {α β : Type} {m : Sys α} {f : α → Sys β} {s s' : SysState} {a : α} {e : Stop}
  {heap : Allocator} {process : Process} {size dst src count buffer : Nat}

theorem sys_bind_ok (h : m s = .ok a s') : (m >>= f) s = f a s' := by
  simp only [bind, EStateM.bind, h]

theorem sys_bind_error (h : m s = .error e s') : (m >>= f) s = .error e s' := by
  simp only [bind, EStateM.bind, h]

theorem assert_true (s : SysState) : assert true s = .ok () s := rfl

theorem assert_false (s : SysState) : assert false s = .error .assertion s := rfl

/-- What `Malloc` does for a size that it takes. -/
theorem malloc_run (hpos : 0 < size) (hlt : size < 2 ^ 31) : malloc heap size s =
    .ok (heap.bget s.blocks size)
      (if heap.bget s.blocks size = 0 then { s with failed := true }
      else { s with blocks := ⟨heap.bget s.blocks size, size⟩ :: s.blocks }) := by
  unfold malloc
  rw [decide_eq_true hpos, decide_eq_true hlt, sys_bind_ok (assert_true s),
    sys_bind_ok (assert_true s)]
  by_cases h : heap.bget s.blocks size = 0
  · rw [if_pos h]
    simp [h, bind, EStateM.bind, get, getThe, MonadStateOf.get, EStateM.get, set, EStateM.set, pure,
      EStateM.pure]
  · rw [if_neg h]
    simp [h, bind, EStateM.bind, get, getThe, MonadStateOf.get, EStateM.get, set, EStateM.set, pure,
      EStateM.pure]

/-- The first buffer of a system call. -/
theorem malloc_first (hblocks : s.blocks = []) (hpos : 0 < size) (hlt : size < 2 ^ 31) :
    ∃ s₁, malloc heap size s = .ok (heap.bget [] size) s₁ ∧
      s₁.blocks = (if heap.bget [] size = 0 then [] else [⟨heap.bget [] size, size⟩]) ∧
      s₁.failed = (decide (heap.bget [] size = 0) || s.failed) ∧ s₁.strays = s.strays ∧
      s₁.uses = s.uses := by
  rw [malloc_run hpos hlt, hblocks]
  refine ⟨_, rfl, ?_⟩
  by_cases h : heap.bget [] size = 0
  · simp [h]
  · simp [h]

/-- For other sizes the kernel stops. -/
theorem malloc_stops (h : size = 0 ∨ 2 ^ 31 ≤ size) :
    malloc heap size s = .error .assertion s := by
  unfold malloc
  by_cases hpos : 0 < size
  · rw [decide_eq_true hpos, sys_bind_ok (assert_true s), decide_eq_false (by omega),
      sys_bind_error (assert_false s)]
  · rw [decide_eq_false hpos, sys_bind_error (assert_false s)]

theorem copyFromUser_run : copyFromUser process dst src count s =
    .ok (validateUserMemory process src count)
      (if validateUserMemory process src count then (s.mark dst count).copy process dst src count
      else s) := by
  unfold copyFromUser
  cases validateUserMemory process src count <;> rfl

theorem terminate_run : terminate buffer count s =
    .ok () ((s.mark ((buffer + count) % W) 1).terminate ((buffer + count) % W)) := rfl

theorem cString_run : cString buffer s = .ok (((stringAt s.bytes W buffer).map s.bytes).dropLast)
    { s with uses := s.uses ++ (stringAt s.bytes W buffer).map s.source } := rfl

/-- What is validated is the caller's. -/
theorem validateUserMemory_iff : validateUserMemory process src count = true ↔
    src < process.size ∧ src + count ≤ process.size := by
  unfold validateUserMemory
  split_ifs <;> simp <;> omega

end Run

/-! ## what is written elsewhere -/

/-- What was written elsewhere stays written. -/
def Strays {α : Type} (m : Sys α) : Prop :=
  ∀ s, s.strays ≠ [] → (finalState (m s)).strays ≠ []

namespace Strays

variable {α β : Type} {m : Sys α} {f : α → Sys β}

theorem pure (a : α) : Strays (Pure.pure a : Sys α) := fun _ h => h

theorem throw (e : Stop) : Strays (MonadExcept.throw e : Sys α) := fun _ h => h

theorem update {g : SysState → SysState} (hg : ∀ s, s.strays ≠ [] → (g s).strays ≠ []) :
    Strays (modify g) := fun s h => hg s h

theorem bind (hm : Strays m) (hf : ∀ a, Strays (f a)) : Strays (m >>= f) := by
  intro s hs
  have h := hm s hs
  cases hr : m s with
  | ok a s' =>
    rw [hr] at h
    rw [sys_bind_ok hr]
    exact hf a s' h
  | error e s' =>
    rw [hr] at h
    rw [sys_bind_error hr]
    exact h

theorem ite {c : Prop} [Decidable c] {m' : Sys α} (hm : Strays m) (hm' : Strays m') :
    Strays (if c then m else m') := by
  by_cases hc : c
  · rw [if_pos hc]
    exact hm
  · rw [if_neg hc]
    exact hm'

theorem assert (c : Bool) : Strays (GeekOS.assert c) := ite (pure ()) (throw _)

theorem mark (dst count : Nat) : Strays (modify (SysState.mark dst count)) := by
  refine update fun s h => ?_
  unfold SysState.mark
  split_ifs
  · exact h
  · exact List.append_ne_nil_of_left_ne_nil h _

theorem malloc (heap : Allocator) (size : Nat) : Strays (GeekOS.malloc heap size) := by
  intro s hs
  by_cases h : 0 < size ∧ size < 2 ^ 31
  · rw [malloc_run h.1 h.2]
    unfold finalState
    split_ifs <;> exact hs
  · rw [malloc_stops (by omega)]
    exact hs

theorem copyFromUser (process : Process) (dst src count : Nat) :
    Strays (GeekOS.copyFromUser process dst src count) :=
  ite (bind (mark _ _) fun _ => bind (update fun _ h => h) fun _ => pure _) (pure _)

theorem terminate (buffer i : Nat) : Strays (GeekOS.terminate buffer i) :=
  bind (mark _ _) fun _ => update fun _ h => h

theorem free (buf : Nat) : Strays (GeekOS.free buf) :=
  bind (assert _) fun _ => update fun _ h => h

theorem cString (buffer : Nat) : Strays (GeekOS.cString buffer) := fun _ h => h

theorem copyString (heap : Allocator) (process : Process) (addr length : Nat) :
    Strays (GeekOS.copyString heap process addr length) :=
  bind (malloc _ _) fun _ => bind (copyFromUser _ _ _ _) fun _ => bind (terminate _ _) fun _ =>
    pure _

end Strays

/-! ## `Sys_Spawn` -/

section Spawn

variable {spawn : List UInt8 → Option Int} {heap : Allocator} {process : Process} {s : SysState}
  {addr length : Nat}

theorem mark_blocks (dst count : Nat) : (s.mark dst count).blocks = s.blocks := by
  unfold SysState.mark
  split_ifs <;> rfl

/-- Nothing fits behind the last byte of the only buffer. -/
theorem not_holds_behind {size : Nat} (hfits : addr + size ≤ W)
    (haddr : addr ≠ 0) : ¬ (Block.mk addr size).Holds ((addr + size) % W) 1 := by
  rintro ⟨hle, hend⟩
  dsimp only at hle hend
  by_cases h : addr + size = W
  · rw [h, Nat.mod_self] at hle
    omega
  · rw [Nat.mod_eq_of_lt (by omega)] at hend
    omega

/-- **The first string**: its end is written behind the buffer. -/
theorem copyString_strays (hblocks : s.blocks = []) (hpos : 0 < length) (hlt : length < 2 ^ 31) :
    (finalState (copyString heap process addr length s)).strays ≠ [] := by
  have hfits := heap.fits [] length (by unfold W; omega)
  obtain ⟨s₁, hmalloc, hblocks₁, -⟩ := @malloc_first s heap length hblocks hpos hlt
  unfold copyString
  rw [sys_bind_ok hmalloc, sys_bind_ok copyFromUser_run]
  generalize hs₂ : (if validateUserMemory process addr length then
    (s₁.mark (heap.bget [] length) length).copy process (heap.bget [] length) addr length
    else s₁) = s₂
  have hblocks₂ : s₂.blocks = s₁.blocks := by
    rw [← hs₂]
    split_ifs
    · exact mark_blocks ..
    · rfl
  have hno : ¬ ∃ b ∈ s₂.blocks, b.Holds ((heap.bget [] length + length) % W) 1 := by
    rw [hblocks₂, hblocks₁]
    split_ifs with hnull
    · simp
    · rintro ⟨b, hb, hholds⟩
      obtain rfl := List.mem_singleton.mp hb
      exact not_holds_behind hfits hnull hholds
  rw [sys_bind_ok terminate_run]
  show ((s₂.mark ((heap.bget [] length + length) % W) 1).terminate _).strays ≠ []
  unfold SysState.mark
  rw [if_neg hno]
  exact List.append_ne_nil_of_right_ne_nil _ (List.cons_ne_nil _ _)

theorem sysSpawn_rest_strays (state : InterruptState) (buffer : Nat) : Strays (do
    let uCommandStringLength : Nat := state.esi
    if uCommandStringLength > VFS_MAX_PATH_LEN then return -1
    let pCommandString ← copyString heap process state.edx uCommandStringLength
    let program ← cString pCommandString
    match spawn program with
    | none => throw .assertion
    | some retval =>
      free pCommandString
      free buffer
      return retval) := by
  refine Strays.ite (Strays.pure _) ?_
  refine Strays.bind (Strays.copyString heap process _ _) fun p => ?_
  refine Strays.bind (Strays.cString p) fun program => ?_
  cases spawn program with
  | none => exact Strays.throw _
  | some retval =>
    refine Strays.bind (Strays.free p) fun _ => Strays.bind (Strays.free buffer) fun _ => ?_
    exact Strays.pure retval

/-- **`Sys_Spawn`** writes behind its first buffer, unless there is none. -/
theorem sysSpawn_strays (state : InterruptState) (hblocks : s.blocks = [])
    (hpos : 0 < (state.ecx : Nat)) (hlt : (state.ecx : Nat) < 2 ^ 31) :
    (finalState (sysSpawn spawn heap process state s)).strays ≠ [] := by
  have h := @copyString_strays heap process s state.ebx state.ecx hblocks hpos hlt
  unfold sysSpawn
  cases hr : copyString heap process state.ebx state.ecx s with
  | ok buffer s' =>
    rw [hr] at h
    rw [sys_bind_ok hr]
    exact sysSpawn_rest_strays state buffer s' h
  | error e s' =>
    rw [hr] at h
    rw [sys_bind_error hr]
    exact h

theorem sysSpawn_stops (state : InterruptState)
    (h : (state.ecx : Nat) = 0 ∨ 2 ^ 31 ≤ (state.ecx : Nat)) :
    sysSpawn spawn heap process state s = .error .assertion s := by
  unfold sysSpawn copyString
  exact sys_bind_error (sys_bind_error (malloc_stops h))

end Spawn

/-! ## `Sys_PrintString` -/

section PrintString

variable {heap : Allocator} {process : Process} {s : SysState} {p n a src : Nat}

/-- A string lies in front of any zero. -/
theorem stringAt_le {bytes : Nat → UInt8} : ∀ {fuel p n : Nat}, p + n < W → bytes (p + n) = 0 →
    a ∈ stringAt bytes fuel p → p ≤ a ∧ a ≤ p + n
  | 0, _, _, _, _, ha => by cases ha
  | fuel + 1, p, n, hlt, hzero, ha => by
    unfold stringAt at ha
    by_cases hp : bytes p = 0
    · rw [if_pos hp] at ha
      have := List.mem_singleton.mp ha
      omega
    · rw [if_neg hp] at ha
      have hn : n ≠ 0 := by
        rintro rfl
        exact hp hzero
      rcases List.mem_cons.mp ha with rfl | ha
      · omega
      · rw [Nat.mod_eq_of_lt (by omega)] at ha
        have hnext : p + 1 + (n - 1) = p + n := by omega
        have hle := stringAt_le (show p + 1 + (n - 1) < W by omega) (by rwa [hnext]) ha
        omega

/-- A string of the caller, with its end: what `buffer` contains when it is used. -/
theorem terminated_own (hp : p + n < W) (hn : n = 0 ∨ validateUserMemory process src n = true)
    (ha : p ≤ a ∧ a ≤ p + n) :
    (((if validateUserMemory process src n then s.copy process p src n else s).terminate
      (p + n)).source a).Own process.size := by
  have hsize := process.size_lt
  unfold SysState.terminate
  by_cases hend : a = p + n
  · rw [hend]
    dsimp only
    rw [Function.update_self]
    trivial
  · have hvalid : validateUserMemory process src n = true := hn.resolve_left (by omega)
    obtain ⟨hsrc, hle⟩ := validateUserMemory_iff.mp hvalid
    obtain ⟨k, rfl⟩ : ∃ k, a = p + k := ⟨a - p, by omega⟩
    rw [if_pos hvalid]
    dsimp only
    rw [Function.update_of_ne hend]
    unfold SysState.copy
    dsimp only
    rw [memcpy_at (by omega) (by omega) (by omega)]
    show src + k < process.size
    omega

/-- **`Sys_PrintString`** with a buffer. -/
theorem sysPrintString_run (state : InterruptState) (bytes : Nat → UInt8)
    (hlen : (state.ecx : Nat) ≤ 1024) (hbuffer : heap.bget [] (state.ecx + 1) ≠ 0) :
    ∃ s', sysPrintString heap process state (.init bytes) = .ok 0 s' ∧ s'.failed = false ∧
      s'.strays = [] ∧ (Inside W process.size state.ebx state.ecx →
        ∀ u ∈ s'.uses, u.Own process.size) := by
  obtain ⟨s₁, hmalloc, hblocks₁, hfailed₁, hstrays₁, huses₁⟩ :=
    @malloc_first (.init bytes) heap (state.ecx + 1) rfl (by omega) (by omega)
  have hfits := heap.fits [] (state.ecx + 1) (by unfold W; omega)
  rw [if_neg hbuffer] at hblocks₁
  unfold sysPrintString
  generalize heap.bget [] (state.ecx + 1) = p at *
  generalize hn : (state.ecx : Nat) = n at *
  have hmark : s₁.mark p n = s₁ := by
    unfold SysState.mark
    rw [if_pos ⟨_, hblocks₁ ▸ List.mem_singleton_self _, le_refl p, by dsimp only; omega⟩]
  have hlt : p + n < W := by omega
  rw [if_neg (by omega), sys_bind_ok hmalloc, sys_bind_ok copyFromUser_run, hmark]
  generalize hs₂ : (if validateUserMemory process state.ebx n then
    s₁.copy process p state.ebx n else s₁) = s₂
  have hs₂' : s₂.blocks = s₁.blocks ∧ s₂.failed = s₁.failed ∧ s₂.strays = s₁.strays ∧
      s₂.uses = s₁.uses := by
    rw [← hs₂]
    split_ifs <;> exact ⟨rfl, rfl, rfl, rfl⟩
  obtain ⟨hblocks₂, hfailed₂, hstrays₂, huses₂⟩ := hs₂'
  have hmark₂ : s₂.mark ((p + n) % W) 1 = s₂ := by
    unfold SysState.mark
    rw [Nat.mod_eq_of_lt hlt, hblocks₂, hblocks₁]
    rw [if_pos ⟨_, List.mem_singleton_self _, by dsimp only; omega, by dsimp only; omega⟩]
  rw [sys_bind_ok terminate_run, hmark₂, Nat.mod_eq_of_lt hlt, sys_bind_ok cString_run]
  unfold free
  rw [decide_eq_true hbuffer]
  refine ⟨_, rfl, ?_, ?_, ?_⟩
  · show s₂.failed = false
    rw [hfailed₂, hfailed₁]
    simp [hbuffer, SysState.init]
  · show s₂.strays = []
    rw [hstrays₂, hstrays₁]
    rfl
  · intro hinside u hu
    have hvalid : n = 0 ∨ validateUserMemory process state.ebx n = true := by
      rcases (inside_iff state.ebx.isLt process.size_lt).mp hinside with h | h
      · exact .inl h
      · by_cases hzero : n = 0
        · exact .inl hzero
        · exact .inr (validateUserMemory_iff.mpr (by omega))
    have hmem : u ∈ s₂.uses ++ (stringAt (s₂.terminate (p + n)).bytes W p).map
      (s₂.terminate (p + n)).source := hu
    rw [huses₂, huses₁] at hmem
    obtain ⟨a, ha, rfl⟩ := List.mem_map.mp (by simpa [SysState.init] using hmem)
    have hzero : (s₂.terminate (p + n)).bytes (p + n) = 0 := Function.update_self ..
    rw [← hs₂]
    exact terminated_own hlt hvalid (stringAt_le hlt hzero ha)

/-- Without a buffer, the end of the string is written at the address of its length. -/
theorem sysPrintString_strays (state : InterruptState) (bytes : Nat → UInt8)
    (hlen : (state.ecx : Nat) ≤ 1024) (hbuffer : heap.bget [] (state.ecx + 1) = 0) :
    (finalState (sysPrintString heap process state (.init bytes))).strays ≠ [] := by
  obtain ⟨s₁, hmalloc, hblocks₁, -⟩ :=
    @malloc_first (.init bytes) heap (state.ecx + 1) rfl (by omega) (by omega)
  rw [if_pos hbuffer] at hblocks₁
  unfold sysPrintString
  rw [if_neg (by omega), sys_bind_ok hmalloc, sys_bind_ok copyFromUser_run]
  generalize hs₂ : (if validateUserMemory process state.ebx state.ecx then
    (s₁.mark (heap.bget [] (state.ecx + 1)) state.ecx).copy process
      (heap.bget [] (state.ecx + 1)) state.ebx state.ecx else s₁) = s₂
  have hblocks₂ : s₂.blocks = [] := by
    rw [← hs₂, ← hblocks₁]
    split_ifs
    · exact mark_blocks ..
    · rfl
  rw [sys_bind_ok terminate_run]
  refine Strays.bind (Strays.cString _) (fun _ => Strays.bind (Strays.free _) fun _ =>
    Strays.pure _) _ ?_
  show (s₂.mark _ 1).strays ≠ []
  unfold SysState.mark
  rw [if_neg (by simp [hblocks₂])]
  exact List.append_ne_nil_of_right_ne_nil _ (List.cons_ne_nil _ _)

end PrintString

/-! ## both -/

/--
**The buffers of the system calls**: `Sys_PrintString` does what it is to do when its buffer can be
allocated and the string is the caller's, `Sys_Spawn` only where the kernel stops at the allocation.
-/
theorem buffers_ok_iff (call : Call) (spawn : List UInt8 → Option Int) (heap : Allocator)
    (process : Process) (state : InterruptState) (bytes : Nat → UInt8) :
    BuffersOk process (call.Ranges process state)
        (call.run spawn heap process state (.init bytes)) ↔
      call.Condition heap process state := by
  cases call with
  | printString =>
    show BuffersOk process _ (sysPrintString heap process state (.init bytes)) ↔ _ ∨ _
    by_cases hlen : 1024 < (state.ecx : Nat)
    · refine iff_of_true ?_ (.inl hlen)
      have hrun : sysPrintString heap process state (.init bytes) = .ok (-1) (.init bytes) := by
        unfold sysPrintString
        rw [if_pos hlen]
        rfl
      rw [hrun]
      exact ⟨rfl, fun u hu => absurd hu List.not_mem_nil, fun _ => ⟨_, _, rfl, by decide⟩⟩
    · by_cases hbuffer : heap.bget [] (state.ecx + 1) = 0
      · refine iff_of_false ?_ (by simp [hlen, hbuffer])
        intro hok
        exact sysPrintString_strays state bytes (by omega) hbuffer hok.strays
      · obtain ⟨s', hrun, hfailed, hstrays, huses⟩ :=
          @sysPrintString_run heap process state bytes (by omega) hbuffer
        rw [hrun]
        constructor
        · intro hok
          refine .inr ⟨hbuffer, ?_⟩
          by_contra houtside
          obtain ⟨v, s'', heq, hneg⟩ := hok.negative (.inr houtside)
          cases heq
          exact absurd hneg (by decide)
        · rintro (h | ⟨-, hinside⟩)
          · exact absurd h hlen
          · refine ⟨hstrays, huses hinside, ?_⟩
            rintro (h | h)
            · cases hfailed.symm.trans h
            · exact absurd hinside h
  | spawn =>
    show BuffersOk process _ (sysSpawn spawn heap process state (.init bytes)) ↔ _ ∧ _
    by_cases hstop : (state.ecx : Nat) = 0 ∨ 2 ^ 31 ≤ (state.ecx : Nat)
    · rw [sysSpawn_stops state hstop]
      constructor
      · intro hok
        refine ⟨hstop, ?_⟩
        by_contra houtside
        obtain ⟨v, s'', heq, -⟩ := hok.negative (.inr houtside)
        cases heq
      · rintro ⟨-, hinside⟩
        refine ⟨rfl, fun u hu => absurd hu List.not_mem_nil, ?_⟩
        rintro (h | h)
        · cases h
        · exact absurd hinside h
    · refine iff_of_false ?_ fun h => hstop h.1
      intro hok
      exact sysSpawn_strays state rfl (by omega) (by omega) hok.strays

/-- A heap whose free memory begins at 1 MB. -/
def freeHeap : Allocator where
  bget blocks size := if blocks = [] ∧ 1048576 + size ≤ W then 1048576 else 0
  fits blocks size h := by
    split_ifs with hfree
    · exact hfree.2
    · omega

/-- For a name of one byte, `Sys_Spawn` writes a zero behind the buffer of one byte. -/
theorem spawn_writes_behind : ¬ ∀ (call : Call) (spawn : List UInt8 → Option Int)
    (heap : Allocator) (process : Process) (state : InterruptState) (bytes : Nat → UInt8),
    BuffersOk process (call.Ranges process state)
      (call.run spawn heap process state (.init bytes)) := by
  intro h
  have hok := h .spawn (fun _ => some 7) freeHeap ⟨fun _ => 97, 4096, by decide⟩
    ⟨⟨0, by decide⟩, ⟨1, by decide⟩, ⟨0, by decide⟩, ⟨1, by decide⟩⟩ fun _ => 0
  have hstrays := @sysSpawn_strays (fun _ => some 7) freeHeap ⟨fun _ => 97, 4096, by decide⟩
    (.init fun _ => 0) ⟨⟨0, by decide⟩, ⟨1, by decide⟩, ⟨0, by decide⟩, ⟨1, by decide⟩⟩ rfl
    Nat.one_pos (show 1 < 2 ^ 31 by decide)
  exact hstrays hok.strays

end GeekOS
