import Bambinos.Mbcdd.Device

/-!
# What a step does

Once a file has its message, a step moves the file on and changes the message; nothing else that
other files see is changed, apart from `msg_root` when the message is deleted.

* `Local` — how the place of the file, its message and the ledger change
* `Changes` — the state behind such a step
* `step_cases` — each step is one, or a part of `mbcdd_open`
-/

namespace Mbcdd

open Infra

/-- The file has a wrapper, which may be freed. -/
def Pc.opened : Pc → Bool
  | .closed | .failed | .oops => false
  | _ => true

/-- Its wrapper has a message. -/
def Pc.hasMsg : Pc → Bool
  | .closed | .openNewMsg | .openGetMsg | .openReturn | .failed | .oops => false
  | _ => true

/-- Still in a part of `mbcdd_open`, or never behind it. -/
def Pc.opening : Pc → Bool
  | .closed | .openNewMsg | .openGetMsg | .openBusyReader | .openReturn | .failed | .oops => true
  | _ => false

/-- The access mode of the files that come to this place. -/
def Pc.mode : Pc → Option AccMode
  | .openNewMsg | .writeAdd .. | .writeBusyReader _ | .writeComplete _ | .relBusyReader
  | .relFinWriter => some .wronly
  | .openGetMsg | .openBusyReader | .openFinWriter | .readFinWriter | .readWait | .readAgain
  | .relSlots | .relMsg => some .rdonly
  | _ => none

abbrev State.pc (s : State) (f : FileId) : Pc := (s.filp f).pc

/-- The ledger when `dev_wrapper->msg` has been dereferenced. -/
def State.derefMem (s : State) (f : FileId) (m : Addr) : Ledger Obj :=
  (s.mem.use (.wrapper (s.devWrapper f))).use (.message m)

/-- The ledger when `slot_current->next` has been read, too. -/
def State.currentMem (s : State) (f : FileId) (m : Addr) : Ledger Obj :=
  (s.derefMem f m).uses ((s.message m).slotCurrent.toList.map .slot)

/-- The step of a file whose message is `m`: where it goes to, the message and the ledger. -/
inductive Local (s : State) (f : FileId) (m : Addr) : Pc → Message → Ledger Obj → Prop
  | openBusyReader (h : s.pc f = .openBusyReader) :
    Local s f m .openFinWriter { s.message m with busyReader := 1 } (s.derefMem f m)
  | openFinWriter (h : s.pc f = .openFinWriter) :
    Local s f m .openReturn (s.message m) (s.derefMem f m)
  | openReturn (h : s.pc f = .openReturn) : Local s f m .idle (s.message m) (s.derefMem f m)
  | badf (h : s.pc f = .idle) : Local s f m .idle (s.message m) s.mem
  | write (h : s.pc f = .idle) (hmode : (s.filp f).accMode = .wronly) (bytes : List UInt8)
      (retval : Int) : Local s f m (.writeAdd (some ⟨s.next, bytes⟩) retval) (s.message m)
        ((s.derefMem f m).alloc (.data s.next))
  | writeNoMemory (h : s.pc f = .idle) (hmode : (s.filp f).accMode = .wronly) (retval : Int) :
    Local s f m (.writeAdd none retval) (s.message m) (s.derefMem f m)
  | add {data : Option Data} {retval : Int} (h : s.pc f = .writeAdd data retval) :
    Local s f m (.writeBusyReader retval)
      { s.message m with slotRoot := (s.message m).slotRoot ++ [s.next] }
      (((s.derefMem f m).alloc (.slot s.next)).uses
        ((s.message m).slotRoot.getLast?.toList.map .slot))
  | noMemory {data : Option Data} {retval : Int} (h : s.pc f = .writeAdd data retval) :
    Local s f m (.writeBusyReader retval) (s.message m) (s.derefMem f m)
  | busyReader {retval : Int} (h : s.pc f = .writeBusyReader retval) :
    Local s f m (.writeComplete retval) (s.message m) (s.derefMem f m)
  | noReader {retval : Int} (h : s.pc f = .writeBusyReader retval) :
    Local s f m .idle (s.message m) (s.derefMem f m)
  | complete {retval : Int} (h : s.pc f = .writeComplete retval) :
    Local s f m .idle (s.message m) (s.derefMem f m)
  | getNone {pc : Pc} (h : s.pc f = .idle ∧ (s.filp f).accMode = .rdonly ∨ s.pc f = .readAgain)
      (hpc : pc = .idle ∨ pc = .readFinWriter) (hunread : (s.message m).unread = []) :
    Local s f m pc (s.message m) (s.currentMem f m)
  | getSlot {pc : Pc} {x : Addr} {xs : List Addr}
      (h : s.pc f = .idle ∧ (s.filp f).accMode = .rdonly ∨ s.pc f = .readAgain)
      (hpc : pc = .idle ∨ pc = .readFinWriter) (hunread : (s.message m).unread = x :: xs) :
    Local s f m pc { s.message m with slotCurrent := some x } ((s.currentMem f m).use (.slot x))
  | finished (h : s.pc f = .readFinWriter) (hfin : (s.message m).finWriter = 1) :
    Local s f m .idle (s.message m) (s.derefMem f m)
  | unfinished (h : s.pc f = .readFinWriter) (hfin : (s.message m).finWriter ≠ 1) :
    Local s f m .readWait (s.message m) (s.derefMem f m)
  | woken (h : s.pc f = .readWait) :
    Local s f m .readAgain (s.message m) (s.mem.use (.wrapper (s.devWrapper f)))
  | releaseWriter (h : s.pc f = .idle) (hmode : (s.filp f).accMode = .wronly) :
    Local s f m .relBusyReader (s.message m) s.mem
  | releaseReader (h : s.pc f = .idle) (hmode : (s.filp f).accMode = .rdonly) :
    Local s f m .relSlots (s.message m) s.mem
  | releaseOther (h : s.pc f = .idle) (hmode : (s.filp f).accMode = .other) :
    Local s f m .relWrapper (s.message m) s.mem
  | relIdleReader (h : s.pc f = .relBusyReader) (hbusy : (s.message m).busyReader = 0) :
    Local s f m .relFinWriter (s.message m) (s.derefMem f m)
  | relBusyReader (h : s.pc f = .relBusyReader) (hbusy : (s.message m).busyReader ≠ 0) :
    Local s f m .relWrapper (s.message m) (s.derefMem f m)
  | relFinWriter (h : s.pc f = .relFinWriter) :
    Local s f m .relWrapper { s.message m with finWriter := 1 } (s.derefMem f m)
  | relSlots (h : s.pc f = .relSlots) :
    Local s f m .relMsg { s.message m with slotRoot := [] }
      (delSlots (s.message m).slotRoot (s.derefMem f m))
  | relMsg (h : s.pc f = .relMsg) :
    Local s f m .relWrapper (s.message m)
      (((s.derefMem f m).uses ((visited m s.msgRoot).map .message)).free (.message m))
  | relWrapper (h : s.pc f = .relWrapper) :
    Local s f m .relReturn (s.message m) (s.mem.free (.wrapper (s.devWrapper f)))
  | relReturn (h : s.pc f = .relReturn) : Local s f m .released (s.message m) (s.derefMem f m)

/-- The state behind a step of file `f` with message `m`. -/
structure Changes (s s' : State) (f : FileId) (m : Addr) (pc : Pc) (msg : Message)
    (mem : Ledger Obj) : Prop where
  filp : ∃ r b, s'.filp = Function.update s.filp f { s.filp f with pc := pc, ret := r, buf := b }
  message : s'.message = Function.update s.message m msg
  wrapperMsg : ∀ w, (s'.wrapper w).msg = (s.wrapper w).msg
  mem : s'.mem = mem
  next : s.next ≤ s'.next
  slots : ∀ x ∈ msg.slotRoot, x ∈ (s.message m).slotRoot ∨ x = s.next ∧ s.next < s'.next
  slot : ∀ x < s.next, s'.slot x = s.slot x
  newSlot : msg.slotRoot = (s.message m).slotRoot ++ [s.next] →
    s.next < s'.next ∧ ∀ data r, s.pc f = .writeAdd data r → (s'.slot s.next).data = data
  root : s'.msgRoot = if s.pc f = .relMsg then s.msgRoot.erase m else s.msgRoot

/-- A step: a part of `mbcdd_open`, or one of a file with a message. -/
inductive Effect (f : FileId) (s : State) : State → Prop
  | opens (mode : AccMode) (ok : Bool) (h : s.pc f = .closed) : Effect f s (mbcddOpen f mode ok s)
  | newMsg (ok : Bool) (h : s.pc f = .openNewMsg) : Effect f s (openNewMsg f ok s)
  | getMsg (h : s.pc f = .openGetMsg) : Effect f s (openGetMsg f s)
  | noMsg (h : s.pc f = .openReturn) (hmsg : s.msgOf f = none) :
    Effect f s ((s.use (.wrapper (s.devWrapper f))).setPc f .oops)
  | moves {s' : State} {m : Addr} {pc : Pc} {msg : Message} {mem : Ledger Obj}
      (hmsg : s.msgOf f = some m) (hlocal : Local s f m pc msg mem)
      (hchanges : Changes s s' f m pc msg mem) : Effect f s s'

variable {s s' : State} {f g : FileId} {a : Act} {m : Addr} {pc : Pc} {msg : Message}
  {mem : Ledger Obj} {k : Addr → State → State}

theorem derefMsg_some (h : s.msgOf f = some m) :
    s.derefMsg f k = k m { s with mem := s.derefMem f m } := by
  have hmsg : (s.use (.wrapper (s.devWrapper f))).msgOf f = some m := h
  simp only [State.derefMsg, hmsg]
  rfl

theorem derefMsg_none (h : s.msgOf f = none) :
    s.derefMsg f k = (s.use (.wrapper (s.devWrapper f))).setPc f .oops := by
  have hmsg : (s.use (.wrapper (s.devWrapper f))).msgOf f = none := h
  simp only [State.derefMsg, hmsg]

namespace Changes

variable {r : Int} {b : Option Data} {wrapper : Addr → Wrapper}

theorem append_ne (xs : List Addr) {x : Addr} : xs ++ [x] ≠ xs := fun h => by
  simpa using congrArg List.length h

/-- The message is as before. -/
theorem of_filp (hpc : s.pc f ≠ .relMsg) (hw : ∀ w, (wrapper w).msg = (s.wrapper w).msg) :
    Changes s
      { s with
        mem := mem
        filp := Function.update s.filp f { s.filp f with pc := pc, ret := r, buf := b }
        wrapper := wrapper }
      f m pc (s.message m) mem where
  filp := ⟨r, b, rfl⟩
  message := (Function.update_eq_self ..).symm
  wrapperMsg := hw
  mem := rfl
  next := Nat.le_refl _
  slots _ hx := .inl hx
  slot _ _ := rfl
  newSlot h := absurd h.symm (append_ne _)
  root := (if_neg hpc).symm

/-- No slot is added. -/
theorem of_message (hpc : s.pc f ≠ .relMsg)
    (hslots : msg.slotRoot = (s.message m).slotRoot ∨ msg.slotRoot = []) :
    Changes s
      { s with
        mem := mem
        filp := Function.update s.filp f { s.filp f with pc := pc, ret := r, buf := b }
        message := Function.update s.message m msg }
      f m pc msg mem where
  filp := ⟨r, b, rfl⟩
  message := rfl
  wrapperMsg _ := rfl
  mem := rfl
  next := Nat.le_refl _
  slots x hx := .inl <| by
    obtain h | h := hslots
    · exact h ▸ hx
    · rw [h] at hx
      cases hx
  slot _ _ := rfl
  newSlot hnew := by
    obtain h | h := hslots
    · exact absurd (hnew.symm.trans h) (append_ne _)
    · exact absurd (h.symm.trans hnew) (by simp)
  root := (if_neg hpc).symm

end Changes

theorem msg_update {wrapper : Addr → Wrapper} {w : Addr} {x : Wrapper}
    (hx : x.msg = (wrapper w).msg) (v : Addr) :
    (Function.update wrapper w x v).msg = (wrapper v).msg := by
  by_cases hv : v = w
  · rw [hv, Function.update_self, hx]
  · rw [Function.update_of_ne hv]

/-- What `mbcdd_get_data_slot` finds. -/
theorem getDataSlot_cases :
    ((s.message m).unread = [] ∧ mbcddGetDataSlot m { s with mem := s.derefMem f m } =
      ({ s with mem := s.currentMem f m }, none)) ∨
    ∃ x xs, (s.message m).unread = x :: xs ∧ mbcddGetDataSlot m { s with mem := s.derefMem f m } =
      ({ s with
          mem := (s.currentMem f m).use (.slot x)
          message := Function.update s.message m { s.message m with slotCurrent := some x } },
        (s.slot x).data) := by
  cases hunread : (s.message m).unread with
  | nil =>
    refine .inl ⟨rfl, ?_⟩
    simp only [mbcddGetDataSlot, State.uses, hunread]
    rfl
  | cons x xs =>
    refine .inr ⟨x, xs, rfl, ?_⟩
    simp only [mbcddGetDataSlot, State.uses, hunread]
    rfl

/-! ## the operations one by one -/

section

variable {data : Option Data} {retval : Int}

theorem effect_openBusyReader (hf : s.pc f = .openBusyReader) (hm : s.msgOf f = some m) :
    Effect f s (openBusyReader f s) := by
  rw [openBusyReader, derefMsg_some hm]
  exact .moves hm (.openBusyReader hf) (.of_message (by simp [hf]) (.inl rfl))

theorem effect_openFinWriter (hf : s.pc f = .openFinWriter) (hm : s.msgOf f = some m) :
    Effect f s (openFinWriter f s) := by
  rw [openFinWriter, derefMsg_some hm]
  dsimp only
  split
  · exact .moves hm (.openFinWriter hf) (.of_filp (by simp [hf]) fun v => msg_update (by rfl) v)
  · exact .moves hm (.openFinWriter hf) (.of_filp (by simp [hf]) fun _ => rfl)

/-- `mbcdd_new_msg` may have had no memory. -/
theorem effect_openReturn (hf : s.pc f = .openReturn) : Effect f s (openReturn f s) := by
  cases hm : s.msgOf f with
  | none =>
    rw [openReturn, derefMsg_none hm]
    exact .noMsg hf hm
  | some m =>
    rw [openReturn, derefMsg_some hm]
    exact .moves hm (.openReturn hf) (.of_filp (by simp [hf]) fun _ => rfl)

theorem effect_badf (hf : s.pc f = .idle) (hm : s.msgOf f = some m) :
    Effect f s (s.return_ f (-EBADF) .idle) :=
  .moves hm (.badf hf) (.of_filp (by simp [hf]) fun _ => rfl)

theorem effect_mbcddWrite {buf : Option (List UInt8)} {ok : Bool} (hf : s.pc f = .idle)
    (hmode : (s.filp f).accMode = .wronly) (hm : s.msgOf f = some m) :
    Effect f s (mbcddWrite f buf ok s) := by
  rw [mbcddWrite, derefMsg_some hm]
  cases ok with
  | false =>
    cases buf <;>
      exact .moves hm (.writeNoMemory hf hmode _) (.of_filp (by simp [hf]) fun _ => rfl)
  | true =>
    cases buf <;>
      exact .moves hm (.write hf hmode _ _) ⟨⟨_, _, rfl⟩, (Function.update_eq_self ..).symm,
        fun _ => rfl, rfl, Nat.le_succ _, fun _ hx => .inl hx, fun _ _ => rfl,
        fun h => absurd h.symm (Changes.append_ne _), (if_neg (by simp [hf])).symm⟩

theorem effect_writeAdd {ok : Bool} (hf : s.pc f = .writeAdd data retval)
    (hm : s.msgOf f = some m) : Effect f s (writeAdd f data retval ok s) := by
  rw [writeAdd, derefMsg_some hm]
  cases ok with
  | false => exact .moves hm (.noMemory hf) (.of_filp (by simp [hf]) fun _ => rfl)
  | true =>
    refine .moves hm (.add hf) ⟨⟨_, _, rfl⟩, rfl, fun _ => rfl, rfl, Nat.le_succ _, ?_, ?_,
      fun _ => ⟨Nat.lt_succ_self _, ?_⟩, ?_⟩
    · intro x hx
      obtain hx | hx := List.mem_append.mp hx
      · exact .inl hx
      · exact .inr ⟨List.mem_singleton.mp hx, Nat.lt_succ_self _⟩
    · exact fun x hx => Function.update_of_ne (Nat.ne_of_lt hx) ..
    · intro data' r hpc
      cases hf.symm.trans hpc
      show (Function.update s.slot s.next (Slot.mk s.dataSlotId data) s.next).data = data
      rw [Function.update_self]
    · exact (if_neg (by simp [hf])).symm

theorem effect_writeBusyReader (hf : s.pc f = .writeBusyReader retval) (hm : s.msgOf f = some m) :
    Effect f s (writeBusyReader f retval s) := by
  rw [writeBusyReader, derefMsg_some hm]
  dsimp only
  split
  · exact .moves hm (.busyReader hf) (.of_filp (by simp [hf]) fun _ => rfl)
  · exact .moves hm (.noReader hf) (.of_filp (by simp [hf]) fun _ => rfl)

theorem effect_writeComplete (hf : s.pc f = .writeComplete retval) (hm : s.msgOf f = some m) :
    Effect f s (writeComplete f retval s) := by
  rw [writeComplete, derefMsg_some hm]
  exact .moves hm (.complete hf) (.of_filp (by simp [hf]) fun v => msg_update (by rfl) v)

theorem effect_mbcddRead (hf : s.pc f = .idle) (hmode : (s.filp f).accMode = .rdonly)
    (hm : s.msgOf f = some m) : Effect f s (mbcddRead f s) := by
  rw [mbcddRead, derefMsg_some hm]
  obtain ⟨hunread, hget⟩ | ⟨x, xs, hunread, hget⟩ := getDataSlot_cases (s := s) (f := f) (m := m)
  · rw [hget]
    exact .moves hm (.getNone (.inl ⟨hf, hmode⟩) (.inr rfl) hunread)
      (.of_filp (by simp [hf]) fun _ => rfl)
  · rw [hget]
    cases (s.slot x).data with
    | none =>
      exact .moves hm (.getSlot (.inl ⟨hf, hmode⟩) (.inr rfl) hunread)
        (.of_message (by simp [hf]) (.inl rfl))
    | some data =>
      exact .moves hm (.getSlot (.inl ⟨hf, hmode⟩) (.inl rfl) hunread)
        (.of_message (by simp [hf]) (.inl rfl))

theorem effect_readFinWriter (hf : s.pc f = .readFinWriter) (hm : s.msgOf f = some m) :
    Effect f s (readFinWriter f s) := by
  rw [readFinWriter, derefMsg_some hm]
  dsimp only
  split
  · next hfin => exact .moves hm (.finished hf hfin) (.of_filp (by simp [hf]) fun _ => rfl)
  · next hfin => exact .moves hm (.unfinished hf hfin) (.of_filp (by simp [hf]) fun _ => rfl)

theorem effect_readWait (hf : s.pc f = .readWait) (hm : s.msgOf f = some m)
    (h : readWait f s = some s') : Effect f s s' := by
  unfold readWait at h
  dsimp only at h
  split at h
  · cases h
    exact .moves hm (.woken hf) (.of_filp (by simp [hf]) fun v => msg_update (by rfl) v)
  · cases h

theorem effect_readAgain (hf : s.pc f = .readAgain) (hm : s.msgOf f = some m) :
    Effect f s (readAgain f s) := by
  rw [readAgain, derefMsg_some hm]
  obtain ⟨hunread, hget⟩ | ⟨x, xs, hunread, hget⟩ := getDataSlot_cases (s := s) (f := f) (m := m)
  · rw [hget]
    exact .moves hm (.getNone (.inr hf) (.inl rfl) hunread) (.of_filp (by simp [hf]) fun _ => rfl)
  · rw [hget]
    exact .moves hm (.getSlot (.inr hf) (.inl rfl) hunread)
      (.of_message (by simp [hf]) (.inl rfl))

theorem effect_mbcddRelease (hf : s.pc f = .idle) (hm : s.msgOf f = some m) :
    Effect f s (mbcddRelease f s) := by
  unfold mbcddRelease
  split
  · next hmode => exact .moves hm (.releaseWriter hf hmode) (.of_filp (by simp [hf]) fun _ => rfl)
  · next hmode => exact .moves hm (.releaseReader hf hmode) (.of_filp (by simp [hf]) fun _ => rfl)
  · next hmode => exact .moves hm (.releaseOther hf hmode) (.of_filp (by simp [hf]) fun _ => rfl)

theorem effect_relBusyReader (hf : s.pc f = .relBusyReader) (hm : s.msgOf f = some m) :
    Effect f s (relBusyReader f s) := by
  rw [relBusyReader, derefMsg_some hm]
  dsimp only
  split
  · next hbusy => exact .moves hm (.relIdleReader hf hbusy) (.of_filp (by simp [hf]) fun _ => rfl)
  · next hbusy => exact .moves hm (.relBusyReader hf hbusy) (.of_filp (by simp [hf]) fun _ => rfl)

theorem effect_relFinWriter (hf : s.pc f = .relFinWriter) (hm : s.msgOf f = some m) :
    Effect f s (relFinWriter f s) := by
  rw [relFinWriter, derefMsg_some hm]
  exact .moves hm (.relFinWriter hf) (.of_message (by simp [hf]) (.inl rfl))

theorem effect_relSlots (hf : s.pc f = .relSlots) (hm : s.msgOf f = some m) :
    Effect f s (relSlots f s) := by
  rw [relSlots, derefMsg_some hm]
  exact .moves hm (.relSlots hf) (.of_message (by simp [hf]) (.inr rfl))

theorem effect_relMsg (hf : s.pc f = .relMsg) (hm : s.msgOf f = some m) :
    Effect f s (relMsg f s) := by
  rw [relMsg, derefMsg_some hm]
  exact .moves hm (.relMsg hf) ⟨⟨_, _, rfl⟩, (Function.update_eq_self ..).symm, fun _ => rfl, rfl,
    Nat.le_refl _, fun _ hx => .inl hx, fun _ _ => rfl,
    fun h => absurd h.symm (Changes.append_ne _), (if_pos hf).symm⟩

theorem effect_relWrapper (hf : s.pc f = .relWrapper) (hm : s.msgOf f = some m) :
    Effect f s (relWrapper f s) :=
  .moves hm (.relWrapper hf) (.of_filp (by simp [hf]) fun _ => rfl)

theorem effect_relReturn (hf : s.pc f = .relReturn) (hm : s.msgOf f = some m) :
    Effect f s (relReturn f s) := by
  rw [relReturn, derefMsg_some hm]
  exact .moves hm (.relReturn hf) (.of_filp (by simp [hf]) fun _ => rfl)

end

/-- **Steps.** What a file does when its operation is behind `mbcdd_open` is local. -/
theorem step_cases (hmsg : ∀ f, (s.pc f).hasMsg → ∃ m, s.msgOf f = some m)
    (h : step f a s = some s') : Effect f s s' := by
  by_cases hhas : (s.pc f).hasMsg
  · obtain ⟨m, hm⟩ := hmsg f hhas
    unfold step at h
    split at h <;> rename_i hf
    · simp [hf, Pc.hasMsg] at hhas
    · simp [hf, Pc.hasMsg] at hhas
    · simp [hf, Pc.hasMsg] at hhas
    · cases h; exact effect_openBusyReader hf hm
    · cases h; exact effect_openFinWriter hf hm
    · cases h; exact effect_openReturn hf
    · split at h
      · next hmode => cases h; exact effect_mbcddWrite hf hmode hm
      · cases h; exact effect_badf hf hm
    · split at h
      · next hmode => cases h; exact effect_mbcddRead hf hmode hm
      · cases h; exact effect_badf hf hm
    · cases h; exact effect_mbcddRelease hf hm
    · cases h; exact effect_writeAdd hf hm
    · cases h; exact effect_writeBusyReader hf hm
    · cases h; exact effect_writeComplete hf hm
    · cases h; exact effect_readFinWriter hf hm
    · exact effect_readWait hf hm h
    · cases h; exact effect_readAgain hf hm
    · cases h; exact effect_relBusyReader hf hm
    · cases h; exact effect_relFinWriter hf hm
    · cases h; exact effect_relSlots hf hm
    · cases h; exact effect_relMsg hf hm
    · cases h; exact effect_relWrapper hf hm
    · cases h; exact effect_relReturn hf hm
    · cases h
  · -- only `mbcdd_open` is left
    cases hf : s.pc f with
    | closed =>
      cases a <;> simp only [step, hf, reduceCtorEq, Option.some.injEq] at h
      subst h
      exact .opens _ _ hf
    | openNewMsg =>
      cases a <;> simp only [step, hf, reduceCtorEq, Option.some.injEq] at h
      subst h
      exact .newMsg _ hf
    | openGetMsg =>
      cases a <;> simp only [step, hf, reduceCtorEq, Option.some.injEq] at h
      subst h
      exact .getMsg hf
    | openReturn =>
      cases a <;> simp only [step, hf, reduceCtorEq, Option.some.injEq] at h
      subst h
      exact effect_openReturn hf
    | failed | oops => cases a <;> simp only [step, hf, reduceCtorEq] at h
    | _ => simp [hf, Pc.hasMsg] at hhas

/-! ## what other files see -/

namespace Changes

variable (h : Changes s s' f m pc msg mem)
include h

theorem pc_self : s'.pc f = pc := by
  obtain ⟨r, b, hfilp⟩ := h.filp
  rw [State.pc, hfilp, Function.update_self]

theorem filp_of_ne (hg : g ≠ f) : s'.filp g = s.filp g := by
  obtain ⟨r, b, hfilp⟩ := h.filp
  rw [hfilp, Function.update_of_ne hg]

theorem accMode (g : FileId) : (s'.filp g).accMode = (s.filp g).accMode := by
  by_cases hg : g = f
  · obtain ⟨r, b, hfilp⟩ := h.filp
    rw [hg, hfilp, Function.update_self]
  · rw [h.filp_of_ne hg]

theorem devWrapper (g : FileId) : s'.devWrapper g = s.devWrapper g := by
  by_cases hg : g = f
  · obtain ⟨r, b, hfilp⟩ := h.filp
    rw [hg, State.devWrapper, hfilp, Function.update_self, State.devWrapper]
  · rw [State.devWrapper, h.filp_of_ne hg, State.devWrapper]

theorem msgOf (g : FileId) : s'.msgOf g = s.msgOf g := by
  rw [State.msgOf, h.wrapperMsg, h.devWrapper, State.msgOf]

theorem message_self : s'.message m = msg := by
  rw [h.message, Function.update_self]

theorem message_of_ne {n : Addr} (hn : n ≠ m) : s'.message n = s.message n := by
  rw [h.message, Function.update_of_ne hn]

theorem root_subset : s'.msgRoot ⊆ s.msgRoot := by
  rw [h.root]
  split
  · exact List.erase_subset
  · exact List.Subset.refl _

end Changes

theorem Local.opened (h : Local s f m pc msg mem) : (s.pc f).opened := by
  cases h with
  | getNone h => obtain ⟨h, -⟩ | h := h <;> rw [h] <;> rfl
  | getSlot h => obtain ⟨h, -⟩ | h := h <;> rw [h] <;> rfl
  | _ => simp_all [Pc.opened]

theorem Local.mode (h : Local s f m pc msg mem)
    (hold : ∀ mode, (s.pc f).mode = some mode → (s.filp f).accMode = mode) {mode : AccMode}
    (hmode : pc.mode = some mode) : (s.filp f).accMode = mode := by
  cases h with
  | getNone h hpc =>
    obtain rfl | rfl := hpc
    · cases hmode
    · obtain ⟨-, hmode'⟩ | h := h
      · exact hmode'.trans (Option.some.inj hmode)
      · exact hold mode (by rw [h, ← hmode]; rfl)
  | getSlot h hpc =>
    obtain rfl | rfl := hpc
    · cases hmode
    · obtain ⟨-, hmode'⟩ | h := h
      · exact hmode'.trans (Option.some.inj hmode)
      · exact hold mode (by rw [h, ← hmode]; rfl)
  | _ => simp_all [Pc.mode]

namespace Effect

theorem next_le (h : Effect f s s') : s.next ≤ s'.next := by
  cases h with
  | opens mode ok h =>
    unfold mbcddOpen
    cases ok
    · exact Nat.le_refl _
    · cases mode <;> exact Nat.le_succ _
  | newMsg ok h =>
    cases ok
    · exact Nat.le_refl _
    · exact Nat.le_succ _
  | getMsg h =>
    unfold openGetMsg mbcddGetMsg
    cases s.msgRoot <;> exact Nat.le_refl _
  | noMsg h hmsg => exact Nat.le_refl _
  | moves _ _ h => exact h.next

theorem filp_of_ne (h : Effect f s s') (hg : g ≠ f) : s'.filp g = s.filp g := by
  cases h with
  | opens mode ok h =>
    unfold mbcddOpen
    cases ok
    · exact Function.update_of_ne hg ..
    · cases mode <;> exact Function.update_of_ne hg ..
  | newMsg ok h => cases ok <;> exact Function.update_of_ne hg ..
  | getMsg h =>
    unfold openGetMsg mbcddGetMsg
    cases s.msgRoot <;> exact Function.update_of_ne hg ..
  | noMsg h hmsg => exact Function.update_of_ne hg ..
  | moves _ _ h => exact h.filp_of_ne hg

theorem wrapper_msg (h : Effect f s s') {w : Addr} (hlt : w < s.next)
    (hw : (s.pc f).opened → w ≠ s.devWrapper f) : (s'.wrapper w).msg = (s.wrapper w).msg := by
  cases h with
  | opens mode ok h =>
    unfold mbcddOpen
    cases ok
    · rfl
    · cases mode <;> exact congrArg Wrapper.msg (Function.update_of_ne (Nat.ne_of_lt hlt) ..)
  | newMsg ok h =>
    have hne := hw (by rw [h]; rfl)
    cases ok <;> exact congrArg Wrapper.msg (Function.update_of_ne hne ..)
  | getMsg h =>
    have hne := hw (by rw [h]; rfl)
    unfold openGetMsg mbcddGetMsg
    cases s.msgRoot <;> exact congrArg Wrapper.msg (Function.update_of_ne hne ..)
  | noMsg h hmsg => rfl
  | moves _ _ h => exact h.wrapperMsg w

/-- In `mbcdd_open` the messages of the other files are not changed. -/
theorem opening_or_moves (h : Effect f s s') :
    (s'.pc f).opening ∧ (∀ m < s.next, s'.message m = s.message m) ∨
      ∃ m pc msg mem, s.msgOf f = some m ∧ Local s f m pc msg mem ∧ Changes s s' f m pc msg mem := by
  cases h with
  | opens mode ok h =>
    refine .inl ⟨?_, ?_⟩
    · unfold mbcddOpen
      cases ok
      · simp [State.pc, State.setPc, State.setFilp, Pc.opening]
      · cases mode <;> simp [State.pc, State.return_, State.setFilp, Pc.opening]
    · unfold mbcddOpen
      cases ok
      · exact fun _ _ => rfl
      · cases mode <;> exact fun _ _ => rfl
  | newMsg ok h =>
    refine .inl ⟨by simp [State.pc, openNewMsg, State.setPc, State.setFilp, Pc.opening], ?_⟩
    intro m hlt
    cases ok
    · rfl
    · exact Function.update_of_ne (Nat.ne_of_lt hlt) ..
  | getMsg h =>
    unfold openGetMsg mbcddGetMsg
    refine .inl ⟨?_, ?_⟩
    · cases s.msgRoot <;> simp [State.pc, State.setPc, State.return_, State.setFilp, Pc.opening]
    · cases s.msgRoot <;> exact fun _ _ => rfl
  | noMsg h hmsg =>
    exact .inl ⟨by simp [State.pc, State.setPc, State.setFilp, Pc.opening], fun _ _ => rfl⟩
  | moves hmsg hlocal h => exact .inr ⟨_, _, _, _, hmsg, hlocal, h⟩

/-- A file keeps its wrapper, and gets a new one when it is opened. -/
theorem wrapper_self (h : Effect f s s') (hf : (s'.pc f).opened) :
    (s.pc f).opened ∧ s'.devWrapper f = s.devWrapper f ∨
      s'.devWrapper f = s.next ∧ s.next < s'.next := by
  cases h with
  | opens mode ok h =>
    unfold mbcddOpen at hf ⊢
    cases ok
    · simp [State.pc, State.setPc, State.setFilp, Pc.opened] at hf
    · cases mode
      · exact .inr ⟨by simp [State.setFilp, State.devWrapper], Nat.lt_succ_self _⟩
      · exact .inr ⟨by simp [State.setFilp, State.devWrapper], Nat.lt_succ_self _⟩
      · simp [State.pc, State.return_, State.setFilp, Pc.opened] at hf
  | newMsg ok h =>
    refine .inl ⟨by rw [h]; rfl, ?_⟩
    cases ok <;> simp [openNewMsg, mbcddNewMsg, State.setPc, State.setFilp, State.devWrapper,
      State.setWrapper, State.use]
  | getMsg h =>
    refine .inl ⟨by rw [h]; rfl, ?_⟩
    unfold openGetMsg mbcddGetMsg
    cases s.msgRoot <;> simp [State.setPc, State.return_, State.setFilp, State.devWrapper,
      State.setWrapper, State.use]
  | noMsg h hmsg => simp [State.pc, State.setPc, State.setFilp, Pc.opened] at hf
  | moves _ hlocal h => exact .inl ⟨hlocal.opened, h.devWrapper f⟩

end Effect

/-! ## the files and their messages -/

/-- Every file has a wrapper of its own, and the addresses are allocated. -/
structure Wf (s : State) : Prop where
  wrapper_lt : ∀ f, (s.pc f).opened → s.devWrapper f < s.next
  wrapper_inj : ∀ f g, (s.pc f).opened → (s.pc g).opened → s.devWrapper f = s.devWrapper g → f = g
  msg_lt : ∀ w m, (s.wrapper w).msg = some m → m < s.next
  root_lt : ∀ m ∈ s.msgRoot, m < s.next
  hasMsg : ∀ f, (s.pc f).hasMsg → ∃ m, s.msgOf f = some m
  mode : ∀ f mode, (s.pc f).mode = some mode → (s.filp f).accMode = mode

namespace Wf

theorem msgOf_of_ne (h : Wf s) (he : Effect f s s') (hg : g ≠ f) (hopened : (s.pc g).opened) :
    s'.msgOf g = s.msgOf g := by
  rw [State.msgOf, State.devWrapper, he.filp_of_ne hg]
  refine he.wrapper_msg (h.wrapper_lt g hopened) fun hf heq => hg ?_
  exact h.wrapper_inj g f hopened hf heq

theorem msg_lt_step (h : Wf s) (he : Effect f s s') {w : Addr} (hm : (s'.wrapper w).msg = some m) :
    m < s'.next := by
  cases he with
  | opens mode ok hf =>
    cases ok with
    | false => exact h.msg_lt w m hm
    | true =>
      have hw : (mbcddOpen f mode true s).wrapper = Function.update s.wrapper s.next .zero := by
        cases mode <;> rfl
      have hnext : (mbcddOpen f mode true s).next = s.next + 1 := by
        cases mode <;> rfl
      rw [hnext]
      rw [hw] at hm
      by_cases hnew : w = s.next
      · rw [hnew, Function.update_self] at hm
        cases hm
      · rw [Function.update_of_ne hnew] at hm
        exact Nat.lt_succ_of_lt (h.msg_lt w m hm)
  | newMsg ok hf =>
    have hw : (openNewMsg f ok s).wrapper = Function.update s.wrapper (s.devWrapper f)
        { s.wrapper (s.devWrapper f) with msg := (mbcddNewMsg ok s).2 } := by
      cases ok <;> rfl
    rw [hw] at hm
    by_cases hself : w = s.devWrapper f
    · rw [hself, Function.update_self] at hm
      cases ok with
      | false => cases hm
      | true =>
        cases hm
        exact Nat.lt_succ_self _
    · rw [Function.update_of_ne hself] at hm
      exact Nat.lt_of_lt_of_le (h.msg_lt w m hm) (Effect.newMsg ok hf).next_le
  | getMsg hf =>
    have hw : (openGetMsg f s).wrapper = Function.update s.wrapper (s.devWrapper f)
        { s.wrapper (s.devWrapper f) with msg := s.msgRoot.head? } := by
      unfold openGetMsg mbcddGetMsg
      cases s.msgRoot <;> rfl
    refine Nat.lt_of_lt_of_le ?_ (Effect.getMsg hf).next_le
    rw [hw] at hm
    by_cases hself : w = s.devWrapper f
    · rw [hself, Function.update_self] at hm
      exact h.root_lt m (List.mem_of_head? hm)
    · rw [Function.update_of_ne hself] at hm
      exact h.msg_lt w m hm
  | noMsg hf hmsg => exact h.msg_lt w m hm
  | moves hmsg hlocal hch =>
    rw [hch.wrapperMsg] at hm
    exact Nat.lt_of_lt_of_le (h.msg_lt w m hm) hch.next

theorem root_lt_step (h : Wf s) (he : Effect f s s') (hm : m ∈ s'.msgRoot) : m < s'.next := by
  cases he with
  | opens mode ok hf =>
    unfold mbcddOpen at hm ⊢
    cases ok
    · exact h.root_lt m hm
    · cases mode <;> exact Nat.lt_succ_of_lt (h.root_lt m hm)
  | newMsg ok hf =>
    cases ok
    · exact h.root_lt m hm
    · obtain rfl | hm := List.mem_cons.mp hm
      · exact Nat.lt_succ_self _
      · exact Nat.lt_succ_of_lt (h.root_lt m hm)
  | getMsg hf =>
    unfold openGetMsg mbcddGetMsg at hm ⊢
    cases hroot : s.msgRoot with
    | nil =>
      rw [hroot] at hm
      exact h.root_lt m hm
    | cons n ns =>
      rw [hroot] at hm
      exact h.root_lt m (hroot ▸ List.mem_cons_of_mem n hm)
  | noMsg hf hmsg => exact h.root_lt m hm
  | moves hmsg hlocal hch => exact Nat.lt_of_lt_of_le (h.root_lt m (hch.root_subset hm)) hch.next

theorem hasMsg_step (he : Effect f s s') (hf : (s'.pc f).hasMsg) :
    ∃ m, s'.msgOf f = some m := by
  cases he with
  | opens mode ok hpc =>
    unfold mbcddOpen at hf
    cases ok
    · simp [State.pc, State.setPc, State.setFilp, Pc.hasMsg] at hf
    · cases mode <;> simp [State.pc, State.return_, State.setFilp, Pc.hasMsg] at hf
  | newMsg ok hpc => simp [State.pc, openNewMsg, State.setPc, State.setFilp, Pc.hasMsg] at hf
  | getMsg hpc =>
    unfold openGetMsg mbcddGetMsg at hf ⊢
    cases hroot : s.msgRoot with
    | nil =>
      rw [hroot] at hf
      simp [State.pc, State.return_, State.setFilp, Pc.hasMsg] at hf
    | cons n ns =>
      refine ⟨n, ?_⟩
      simp [State.msgOf, State.devWrapper, State.setPc, State.setFilp, State.setWrapper, State.use]
  | noMsg hpc hmsg => simp [State.pc, State.setPc, State.setFilp, Pc.hasMsg] at hf
  | moves hmsg hlocal hch => exact ⟨_, (hch.msgOf f).trans hmsg⟩

theorem mode_step (h : Wf s) (he : Effect f s s') {mode : AccMode}
    (hmode : (s'.pc f).mode = some mode) : (s'.filp f).accMode = mode := by
  cases he with
  | opens mode' ok hpc =>
    unfold mbcddOpen at hmode ⊢
    cases ok
    · simp [State.pc, State.setPc, State.setFilp, Pc.mode] at hmode
    · cases mode' <;> simp_all [State.pc, State.return_, State.setFilp, Pc.mode]
  | newMsg ok hpc => simp [State.pc, openNewMsg, State.setPc, State.setFilp, Pc.mode] at hmode
  | getMsg hpc =>
    have hold := h.mode f .rdonly (by rw [hpc]; rfl)
    unfold openGetMsg mbcddGetMsg at hmode ⊢
    cases hroot : s.msgRoot <;> rw [hroot] at hmode
    · simp [State.pc, State.return_, State.setFilp, Pc.mode] at hmode
    · simp_all [State.pc, State.setPc, State.setFilp, State.setWrapper, State.use, Pc.mode]
  | noMsg hpc hmsg => simp [State.pc, State.setPc, State.setFilp, Pc.mode] at hmode
  | moves hmsg hlocal hch =>
    rw [hch.pc_self] at hmode
    rw [hch.accMode]
    exact hlocal.mode (h.mode f) hmode

theorem opened_of_hasMsg {pc : Pc} (h : pc.hasMsg) : pc.opened := by
  cases pc <;> first | rfl | cases h

/-- What a step keeps. -/
theorem step (h : Wf s) (hstep : step f a s = some s') : Wf s' := by
  have he := step_cases h.hasMsg hstep
  have hpc : ∀ g, g ≠ f → s'.pc g = s.pc g := fun g hg => by rw [State.pc, he.filp_of_ne hg]
  have hw : ∀ g, g ≠ f → s'.devWrapper g = s.devWrapper g := fun g hg => by
    rw [State.devWrapper, he.filp_of_ne hg, State.devWrapper]
  -- another file does not get the wrapper of `f`
  have hown : ∀ g, g ≠ f → (s'.pc g).opened → (s'.pc f).opened →
      s'.devWrapper g ≠ s'.devWrapper f := by
    intro g hg hgo hfo heq
    rw [hpc g hg] at hgo
    rw [hw g hg] at heq
    obtain ⟨hf, hsame⟩ | ⟨hnew, -⟩ := he.wrapper_self hfo
    · exact hg (h.wrapper_inj g f hgo hf (heq.trans hsame))
    · exact Nat.ne_of_lt (h.wrapper_lt g hgo) (heq.trans hnew)
  refine ⟨fun g hg => ?_, fun g g' hg hg' heq => ?_, fun w n hn => h.msg_lt_step he hn,
    fun n hn => h.root_lt_step he hn, fun g hg => ?_, fun g mode hg => ?_⟩
  · by_cases hgf : g = f
    · subst hgf
      have hle := he.next_le
      obtain ⟨hf, hsame⟩ | ⟨hnew, hlt⟩ := he.wrapper_self hg
      · rw [hsame]
        exact Nat.lt_of_lt_of_le (h.wrapper_lt g hf) hle
      · rwa [hnew]
    · rw [hpc g hgf] at hg
      rw [hw g hgf]
      exact Nat.lt_of_lt_of_le (h.wrapper_lt g hg) he.next_le
  · by_cases hgf : g = f <;> by_cases hgf' : g' = f
    · rw [hgf, hgf']
    · subst hgf
      exact absurd heq.symm (hown g' hgf' hg' hg)
    · subst hgf'
      exact absurd heq (hown g hgf hg hg')
    · rw [hw g hgf, hw g' hgf'] at heq
      rw [hpc g hgf] at hg
      rw [hpc g' hgf'] at hg'
      exact h.wrapper_inj g g' hg hg' heq
  · by_cases hgf : g = f
    · subst hgf
      exact hasMsg_step he hg
    · rw [hpc g hgf] at hg
      rw [h.msgOf_of_ne he hgf (opened_of_hasMsg hg)]
      exact h.hasMsg g hg
  · by_cases hgf : g = f
    · subst hgf
      exact h.mode_step he hg
    · rw [hpc g hgf] at hg
      rw [he.filp_of_ne hgf]
      exact h.mode g mode hg

theorem boot : Wf boot where
  wrapper_lt _ hf := by cases hf
  wrapper_inj _ _ hf := by cases hf
  msg_lt _ _ hm := by cases hm
  root_lt _ hm := by cases hm
  hasMsg _ hf := by cases hf
  mode _ _ hf := by cases hf

end Wf

/-! ## computing a run -/

/-- The run of the given steps, if each is possible. -/
def execute : List (FileId × Act) → State → Option (History × State)
  | [], s => some ([], s)
  | (f, a) :: l, s =>
    (step f a s).bind fun s₁ => (execute l s₁).map fun r => ((s, f, a) :: r.1, r.2)

theorem execute_run : ∀ {l : List (FileId × Act)} {h h' : History} {s s' : State},
    Run h s → execute l s = some (h', s') → Run (h ++ h') s'
  | [], h, h', s, s', hrun, hexec => by
    cases hexec
    rwa [List.append_nil]
  | (f, a) :: l, h, h', s, s', hrun, hexec => by
    obtain ⟨s₁, hstep, hrest⟩ := Option.bind_eq_some_iff.mp hexec
    obtain ⟨⟨h₁, s₂⟩, hexec₁, heq⟩ := Option.map_eq_some_iff.mp hrest
    cases heq
    have := execute_run (hrun.step hstep) hexec₁
    rwa [List.append_assoc] at this

def writerOpen (f : FileId) : List (FileId × Act) :=
  [(f, .open_ .wronly true), (f, .go true), (f, .go true)]

def readerOpen (g : FileId) : List (FileId × Act) :=
  [(g, .open_ .rdonly true), (g, .go true), (g, .go true), (g, .go true), (g, .go true)]

def writeSlot (f : FileId) : List (FileId × Act) :=
  [(f, .write (some []) true), (f, .go true), (f, .go true)]

end Mbcdd
