import Bambinos.GeekOS.SegmentTable
import Bambinos.GeekOS.Buffers
import Bambinos.GeekOS.Paths
import Mathlib

/-!
# Spawning a process

From `Spawn_With_Path` of the C library through `Sys_Spawn` and `Spawn` to the loader. The strings
are C strings here; what `Sys_Spawn` does with its buffers is in `Syscall`.

* `Environment` — the files, and what the memory has in it
* `spawn`, `Spawning.sysSpawn` — the layers of the kernel
* `searchPath`, `spawnWithPath` — the search for the program
* `SpawnsRight` — the right program is started with the arguments of the command
* `never_spawns_right`
-/

namespace GeekOS.Spawning

/-! ## the kernel -/

def EUNSPECIFIED : Int := -1
def ENOTFOUND : Int := -2

/-- What `Spawn` finds: the mounted files (`none` is a directory), what is behind a file in memory,
what is on the stack, what `Malloc` returns, whether there is memory for a thread, and the `pid` at
address 0. -/
structure Environment where
  mountPointList : List (MountPoint (Option ExeFile))
  beyond : Nat → UInt8
  stack : ExeFormat
  heap : Heap
  thread : Bool
  pidAtNull : Int

/-- The file at a path. -/
def files (mountPointList : List (MountPoint (Option ExeFile))) (path : List UInt8) :
    Option ExeFile :=
  (lookupPath none mountPointList path).join

def Environment.files (env : Environment) : List UInt8 → Option ExeFile :=
  Spawning.files env.mountPointList

/-- A process that was started, and the name of the file that was read for it. -/
structure UserProcess where
  pid : Int
  name : List UInt8
  context : UserContext

structure Processes where
  nextFreePid : Nat
  started : List UserProcess

/-- `none` is a failed assertion. -/
abbrev SpawnM := StateT Processes Option

def KASSERT (cond : Bool) : SpawnM Unit := if cond then pure () else failure

/-- `Start_User_Thread`, and the `pid` that is read of the thread. -/
def startUserThread (env : Environment) (name : List UInt8) (context : UserContext) :
    SpawnM Int := do
  if env.thread then
    let s ← get
    set (⟨s.nextFreePid + 1, s.started ++ [⟨s.nextFreePid, name, context⟩]⟩ : Processes)
    return s.nextFreePid
  else
    return env.pidAtNull

/-- `Spawn`; its `command` is never looked at. -/
def spawn (env : Environment) (program : Command) : SpawnM Int := do
  match env.files program.chars with
  | none => return EUNSPECIFIED
  | some file =>
    let ((_, context), _) ←
      (parseAndLoad ⟨file, env.beyond⟩ env.stack program env.heap .empty : Option _)
    startUserThread env program.chars context

/-- `Sys_Spawn`: the command goes to the first parameter of `Spawn`. -/
def sysSpawn (env : Environment) (program : List UInt8) (command : Command) : SpawnM Int := do
  KASSERT (0 < program.length)
  if VFS_MAX_PATH_LEN < command.chars.length then return EUNSPECIFIED
  KASSERT (0 < command.chars.length)
  spawn env command

/-! ## the library -/

def CMDLEN : Nat := 79

/-- `Ends_With`. -/
def endsWith (name suffix : List UInt8) : Bool :=
  if name.length < suffix.length then false
  else name.drop (name.length - suffix.length) = suffix

/-- `".exe"`. -/
def exe : List UInt8 := [46, 101, 120, 101]

/-- The name that is made of an entry of the path. -/
def exeName (entry program : List UInt8) : List UInt8 :=
  let exeName := entry ++ [47] ++ program
  if endsWith exeName exe then exeName else exeName ++ exe

/-- The loop of `Spawn_With_Path`; every turn takes a character of the path at least. -/
def searchPath (env : Environment) (program command : Command) :
    Nat → List UInt8 → Int → SpawnM Int
  | 0, _, pid => return pid
  | n + 1, path, pid => do
    let path := path.dropWhile (· = 58)
    if path = [] then return pid
    let pid ← sysSpawn env (exeName (path.takeWhile (· ≠ 58)) program.chars) command
    if pid ≠ ENOTFOUND then return pid
    searchPath env program command n ((path.dropWhile (· ≠ 58)).drop 1) pid

/-- `Spawn_With_Path`. -/
def spawnWithPath (env : Environment) (program command : Command) (path : List UInt8) :
    SpawnM Int := do
  let pid ← sysSpawn env program.chars command
  if pid = ENOTFOUND ∧ 47 ∉ program.chars then
    searchPath env program command (path.length + 1) path pid
  else return pid

/-! ## what is to be started -/

/-- The names that are to be tried, one after the other. -/
def candidates (program path : List UInt8) : List (List UInt8) :=
  program ::
    if 47 ∈ program then []
    else ((path.splitOnP (· = 58)).filter (· ≠ [])).map fun entry => exeName entry program

/-- The files of a file system are executables. -/
structure FileSystem where
  mountPointList : List (MountPoint (Option ExeFile))
  wellFormed : ∀ name file, Spawning.files mountPointList name = some file → WellFormed file

def FileSystem.files (fs : FileSystem) : List UInt8 → Option ExeFile :=
  Spawning.files fs.mountPointList

/-- A program, a command and a path; the names that are made of it fit the buffer. -/
structure Request where
  program : Command
  command : Command
  path : List UInt8
  fits : ∀ name ∈ (candidates program.chars path).tail, name.length < CMDLEN * 2 + 5

/-- The first name that is that of a file. -/
def target (fs : FileSystem) (req : Request) : Option (List UInt8) :=
  (candidates req.program.chars req.path).find? fun name => (fs.files name).isSome

/-- Memory does not run out. -/
def Environment.Sufficient (env : Environment) : Prop :=
  env.heap.userContext ∧ env.heap.memory ∧ env.thread

/-- The process is the program, with the arguments of the command. -/
def UserProcess.Runs (fs : FileSystem) (req : Request) (name : List UInt8) (p : UserProcess) :
    Prop :=
  p.name = name ∧ ∃ file, fs.files name = some file ∧ Faithful file req.command p.context

/-- The first file that exists is started, or there is none and that is what is returned; whatever
is in the memory. -/
def SpawnsRight (fs : FileSystem) (req : Request) : Prop :=
  ∀ env s, env.mountPointList = fs.mountPointList → env.Sufficient →
    match target fs req with
    | some name => ∃ p s', spawnWithPath env req.program req.command req.path s = some (p.pid, s') ∧
        s'.started = s.started ++ [p] ∧ p.Runs fs req name
    | none => ∃ s', spawnWithPath env req.program req.command req.path s = some (ENOTFOUND, s') ∧
        s'.started = s.started

/-! ## one call is made -/

variable {env : Environment} {fs : FileSystem} {req : Request} {s s' : Processes} {pid : Int}
  {program command : Command} {name : List UInt8}

theorem spawn_eq : spawn env program s =
    match env.files program.chars with
    | none => some (EUNSPECIFIED, s)
    | some file => (parseAndLoad ⟨file, env.beyond⟩ env.stack program env.heap .empty).bind fun r =>
        startUserThread env program.chars r.1.2 s := by
  unfold spawn
  cases env.files program.chars with
  | none => rfl
  | some file =>
    simp only [bind, StateT.bind]
    cases parseAndLoad ⟨file, env.beyond⟩ env.stack program env.heap .empty <;> rfl

/-- What becomes of a system call: it fails, or the file with the name of the command is started. -/
theorem sysSpawn_cases {program : List UInt8} (h : sysSpawn env program command s = some (pid, s')) :
    pid = EUNSPECIFIED ∧ s' = s ∨
    ∃ file context log, env.files command.chars = some file ∧
      parseAndLoad ⟨file, env.beyond⟩ env.stack command env.heap .empty = some ((0, context), log) ∧
      startUserThread env command.chars context s = some (pid, s') := by
  unfold sysSpawn KASSERT at h
  by_cases hprogram : 0 < program.length
  · rw [decide_eq_true hprogram] at h
    by_cases hlong : VFS_MAX_PATH_LEN < command.chars.length
    · rw [if_pos rfl, if_pos hlong] at h
      cases h
      exact .inl ⟨rfl, rfl⟩
    · by_cases hcommand : 0 < command.chars.length
      · rw [if_neg hlong, decide_eq_true hcommand] at h
        have hspawn : spawn env command s = some (pid, s') := h
        rw [spawn_eq] at hspawn
        cases hfile : env.files command.chars with
        | none =>
          rw [hfile] at hspawn
          cases hspawn
          exact .inl ⟨rfl, rfl⟩
        | some file =>
          rw [hfile] at hspawn
          obtain ⟨⟨⟨ret, context⟩, log⟩, hload, hstart⟩ := Option.bind_eq_some_iff.mp hspawn
          have hret : ret = 0 := parseAndLoad_ret hload
          rw [hret] at hload
          exact .inr ⟨file, context, log, rfl, hload, hstart⟩
      · rw [if_neg hlong, decide_eq_false hcommand] at h
        cases h
  · rw [decide_eq_false hprogram] at h
    cases h

theorem startUserThread_eq (hthread : env.thread = true) {context : UserContext} :
    startUserThread env name context s = some ((s.nextFreePid : Int),
      ⟨s.nextFreePid + 1, s.started ++ [⟨s.nextFreePid, name, context⟩]⟩) := by
  unfold startUserThread
  rw [if_pos hthread]
  rfl

/-- A file that does not exist is not reported as such. -/
theorem sysSpawn_ne (hthread : env.thread = true) {program : List UInt8}
    (h : sysSpawn env program command s = some (pid, s')) : pid ≠ ENOTFOUND := by
  obtain ⟨rfl, -⟩ | ⟨file, context, log, -, -, hstart⟩ := sysSpawn_cases h
  · decide
  · rw [startUserThread_eq hthread] at hstart
    cases hstart
    unfold ENOTFOUND
    omega

/-- So there is no search. -/
theorem spawnWithPath_eq (hthread : env.thread = true) {path : List UInt8} :
    spawnWithPath env program command path s = sysSpawn env program.chars command s := by
  unfold spawnWithPath
  simp only [bind, StateT.bind]
  cases h : sysSpawn env program.chars command s with
  | none => rfl
  | some r =>
    obtain ⟨pid, s'⟩ := r
    show (if pid = ENOTFOUND ∧ _ then _ else _ : SpawnM Int) s' = _
    rw [if_neg fun hand => sysSpawn_ne hthread h hand.1]
    rfl

/-! ## the strings in the buffers -/

section Strings

variable {heap : Allocator} {process : Process} {st : SysState} {addr length : Nat}

/-- A string is in the new buffer. -/
theorem copyString_run (hpos : 0 < length) (hlt : length < 2 ^ 31)
    (hbuffer : heap.bget st.blocks length ≠ 0)
    (hvalid : validateUserMemory process addr length = true) :
    ∃ p st', copyString heap process addr length st = .ok p st' ∧ p ≠ 0 ∧ p + length ≤ W ∧
      (∀ k < length, st'.bytes (p + k) = process.memory (addr + k)) ∧
      st'.bytes ((p + length) % W) = 0 := by
  have hfits := heap.fits st.blocks length (by unfold W; omega)
  have hmalloc := @malloc_run st heap length hpos hlt
  rw [if_neg hbuffer] at hmalloc
  unfold copyString
  rw [sys_bind_ok hmalloc, sys_bind_ok copyFromUser_run, if_pos hvalid, sys_bind_ok terminate_run]
  refine ⟨_, _, rfl, hbuffer, hfits, fun k hk => ?_, Function.update_self ..⟩
  obtain ⟨-, hsize⟩ := validateUserMemory_iff.mp hvalid
  have hprocess := process.size_lt
  -- the end of the string is elsewhere
  have hne : heap.bget st.blocks length + k ≠ (heap.bget st.blocks length + length) % W := by
    by_cases hend : heap.bget st.blocks length + length = W
    · rw [hend, Nat.mod_self]
      omega
    · rw [Nat.mod_eq_of_lt (by omega)]
      omega
  refine (Function.update_of_ne hne ..).trans ?_
  have hmark : ∀ (t : SysState) dst count, (t.mark dst count).bytes = t.bytes := by
    intro t dst count
    unfold SysState.mark
    split <;> rfl
  rw [hmark]
  exact Infra.memcpy_at (by omega) (by omega) hk

theorem stringAt_ne_nil {bytes : Nat → UInt8} {fuel a : Nat} (h : 0 < fuel) :
    stringAt bytes fuel a ≠ [] := by
  cases fuel with
  | zero => omega
  | succ fuel =>
    unfold stringAt
    split <;> exact List.cons_ne_nil _ _

/-- A C string in memory. -/
theorem stringAt_chars {bytes : Nat → UInt8} : ∀ {chars : List UInt8} {fuel a : Nat},
    chars.length < fuel → a < W → (∀ c ∈ chars, c ≠ 0) →
    (∀ (k : Nat) (hk : k < chars.length), bytes ((a + k) % W) = chars[k]) →
    bytes ((a + chars.length) % W) = 0 →
      ((stringAt bytes fuel a).map bytes).dropLast = chars
  | _, 0, _, hfuel, _, _, _, _ => by omega
  | [], fuel + 1, a, _, ha, _, _, hend => by
    rw [List.length_nil, Nat.add_zero, Nat.mod_eq_of_lt ha] at hend
    rw [stringAt, if_pos hend]
    rfl
  | c :: chars, fuel + 1, a, hfuel, ha, hne, hchars, hend => by
    rw [List.length_cons] at hfuel
    have hfirst : bytes a = c := by
      have h := hchars 0 (Nat.succ_pos _)
      rwa [Nat.add_zero, Nat.mod_eq_of_lt ha] at h
    have hnext : ∀ k, ((a + 1) % W + k) % W = (a + (k + 1)) % W := by
      intro k
      rw [Nat.mod_add_mod, Nat.add_assoc, Nat.add_comm 1 k]
    have hrest : ((stringAt bytes fuel ((a + 1) % W)).map bytes).dropLast = chars := by
      refine stringAt_chars (by omega) (Nat.mod_lt _ (by decide))
        (fun d hd => hne d (List.mem_cons_of_mem c hd)) (fun k hk => ?_) ?_
      · rw [hnext]
        exact hchars (k + 1) (Nat.succ_lt_succ hk)
      · rw [hnext]
        exact hend
    have hmap : (stringAt bytes fuel ((a + 1) % W)).map bytes ≠ [] :=
      fun h => stringAt_ne_nil (by omega) (List.map_eq_nil_iff.mp h)
    rw [stringAt, if_neg (by rw [hfirst]; exact hne c List.mem_cons_self), List.map_cons,
      List.dropLast_cons_of_ne_nil hmap, hfirst, hrest]

/-- The strings are in the memory of the process, and the registers tell where. -/
structure Passes (process : Process) (state : InterruptState) (program command : Command) :
    Prop where
  programLength : (state.ecx : Nat) = program.chars.length
  programValid : validateUserMemory process state.ebx state.ecx = true
  commandLength : (state.esi : Nat) = command.chars.length
  commandValid : validateUserMemory process state.edx state.esi = true
  commandBytes : ∀ (k : Nat) (hk : k < command.chars.length),
    process.memory (state.edx + k) = command.chars[k]

/-- What a system call returns, if the kernel does not stop. -/
def returned {ε σ α : Type} : EStateM.Result ε σ α → Option α
  | .ok v _ => some v
  | .error _ _ => none

/-- The second string is used as it was passed. -/
theorem command_run (hcommand : 0 < command.chars.length) {state : InterruptState}
    (hpass : Passes process state program command) (hbuffer : ∀ blocks n, heap.bget blocks n ≠ 0) :
    ∃ p st', copyString heap process state.edx state.esi st = .ok p st' ∧ p ≠ 0 ∧
      ∃ st'', cString p st' = .ok command.chars st'' := by
  have hlt := command.length_lt
  obtain ⟨p, st', hrun, hp, hfits, hbytes, hend⟩ := @copyString_run heap process st state.edx
    state.esi (by rw [hpass.commandLength]; exact hcommand) (by rw [hpass.commandLength]; exact hlt)
    (hbuffer _ _) hpass.commandValid
  rw [hpass.commandLength] at hfits hbytes hend
  have hstring : ((stringAt st'.bytes W p).map st'.bytes).dropLast = command.chars := by
    refine stringAt_chars (by unfold W; omega) (by omega) command.nonzero (fun k hk => ?_) hend
    rw [Nat.mod_eq_of_lt (by omega), hbytes k hk]
    exact hpass.commandBytes k hk
  have hused := @cString_run st' p
  rw [hstring] at hused
  exact ⟨p, st', hrun, hp, _, hused⟩

theorem free_run {buf : Nat} (h : buf ≠ 0) :
    free buf st = .ok () { st with blocks := st.blocks.filter (·.addr ≠ buf) } := by
  unfold free
  rw [decide_eq_true h, sys_bind_ok (assert_true st)]
  rfl

/-- **The system call on its buffers** is the one on strings, when there is memory. -/
theorem sysSpawn_agrees {spawned : List UInt8 → Option Int} {state : InterruptState}
    (hpass : Passes process state program command) (hbuffer : ∀ blocks n, heap.bget blocks n ≠ 0)
    (hspawn : spawned command.chars = (spawn env command s).map Prod.fst) :
    returned (GeekOS.sysSpawn spawned heap process state st) =
      (sysSpawn env program.chars command s).map Prod.fst := by
  unfold sysSpawn KASSERT
  by_cases hprogram : 0 < program.chars.length
  · have hlt := program.length_lt
    obtain ⟨p, st₁, hfirst, hp, -⟩ := @copyString_run heap process st state.ebx state.ecx
      (by rw [hpass.programLength]; exact hprogram) (by rw [hpass.programLength]; exact hlt)
      (hbuffer _ _) hpass.programValid
    unfold GeekOS.sysSpawn
    rw [sys_bind_ok hfirst, decide_eq_true hprogram, hpass.commandLength]
    by_cases hlong : VFS_MAX_PATH_LEN < command.chars.length
    · rw [if_pos hlong, if_pos hlong]
      rfl
    · rw [if_neg hlong, if_neg hlong]
      by_cases hcommand : 0 < command.chars.length
      · obtain ⟨q, st₂, hsecond, hq, st₃, hstring⟩ :=
          @command_run _ _ heap process st₁ hcommand state hpass hbuffer
        rw [hpass.commandLength] at hsecond
        rw [sys_bind_ok hsecond, sys_bind_ok hstring, decide_eq_true hcommand, hspawn]
        show _ = Option.map Prod.fst (spawn env command s)
        cases spawn env command s with
        | none => rfl
        | some r =>
          show returned ((free q >>= fun _ => free p >>= fun _ => pure r.1 : Sys Int) st₃) = _
          rw [sys_bind_ok (free_run hq), sys_bind_ok (free_run hp)]
          rfl
      · have hstop : copyString heap process state.edx command.chars.length st₁ =
            .error .assertion st₁ := by
          unfold copyString
          exact sys_bind_error (malloc_stops (by omega))
        rw [sys_bind_error hstop, decide_eq_false hcommand]
        rfl
  · rw [sysSpawn_stops state (by rw [hpass.programLength]; omega), decide_eq_false hprogram]
    rfl

end Strings

/-! ## nothing is started as it should be -/

/-- The memory that misleads the processes. -/
def misled (fs : FileSystem) (req : Request) : Environment where
  mountPointList := fs.mountPointList
  beyond := fun _ => 0
  stack := unfilled.blank
  heap := ⟨true, true, fun _ => misleading req.command⟩
  thread := true
  pidAtNull := 0

/-- What the first process is not. -/
theorem misled_wrong {p : UserProcess}
    (hrun : sysSpawn (misled fs req) req.program.chars req.command ⟨1, []⟩ = some (p.pid, s'))
    (hstarted : s'.started = [p]) : ¬ p.Runs fs req name := by
  rintro ⟨hname, file, hfile, hfaithful⟩
  obtain ⟨-, rfl⟩ | ⟨file', context, log, hfile', hload, hstart⟩ := sysSpawn_cases hrun
  · exact absurd hstarted (List.cons_ne_nil p []).symm
  · rw [startUserThread_eq rfl] at hstart
    obtain rfl := congrArg Prod.snd (Option.some.inj hstart)
    obtain rfl := List.singleton_inj.mp hstarted
    obtain rfl : file' = file := by
      rw [← hname] at hfile
      exact Option.some.inj (hfile'.symm.trans hfile)
    exact not_faithful (fs.wellFormed _ _ hfile) ⟨log, hload⟩ hfaithful

/--
**Spawning.** For no program, command and path and no files does `Spawn_With_Path` what it is to do:
the file that is started is the one with the name of the command, and no other name is tried.
-/
theorem never_spawns_right (fs : FileSystem) (req : Request) : ¬ SpawnsRight fs req := by
  intro h
  have hright := h (misled fs req) ⟨1, []⟩ rfl ⟨rfl, rfl, rfl⟩
  rw [spawnWithPath_eq rfl] at hright
  split at hright
  · obtain ⟨p, s', hrun, hstarted, hruns⟩ := hright
    exact misled_wrong hrun hstarted hruns
  · obtain ⟨s', hrun, -⟩ := hright
    exact sysSpawn_ne rfl hrun rfl

/-! ## a file that is not found -/

/-- One file, named `a.exe` and mounted at `c`. -/
def oneFile : FileSystem where
  mountPointList := [⟨[99], [([97, 46, 101, 120, 101], some tiny)]⟩]
  wellFormed := by
    intro name file h
    rcases mem_of_lookupPath (Option.join_eq_some_iff.mp h) with h | ⟨m, hm, name, h⟩
    · cases h
    · obtain rfl := List.mem_singleton.mp hm
      cases List.mem_singleton.mp h
      exact tiny_wellFormed

/-- The program `a.exe` with the command `a.exe b` and the path `/c`. -/
def runA : Request where
  program := ⟨[97, 46, 101, 120, 101], by simp, by decide⟩
  command := ⟨[97, 46, 101, 120, 101, 32, 98], by simp, by decide⟩
  path := [47, 99]
  fits := by decide

/-- The program is `/c/a.exe`, and the result is that of an unspecified error. -/
theorem program_not_started :
    target oneFile runA = some [47, 99, 47, 97, 46, 101, 120, 101] ∧
    ((spawnWithPath (misled oneFile runA) runA.program runA.command runA.path ⟨1, []⟩).map
      Prod.fst) = some EUNSPECIFIED ∧ ¬ SpawnsRight oneFile runA := by
  have htarget : target oneFile runA = some [47, 99, 47, 97, 46, 101, 120, 101] := by
    decide +kernel
  have hcall : ((spawnWithPath (misled oneFile runA) runA.program runA.command runA.path
      ⟨1, []⟩).map Prod.fst) = some EUNSPECIFIED := rfl
  refine ⟨htarget, hcall, fun h => ?_⟩
  have hright := h (misled oneFile runA) ⟨1, []⟩ rfl ⟨rfl, rfl, rfl⟩
  rw [htarget, spawnWithPath_eq rfl] at hright
  obtain ⟨p, s', hrun, hstarted, hruns⟩ := hright
  exact misled_wrong hrun hstarted hruns

end GeekOS.Spawning
