import Mathlib
import Bambinos.Infra.Ledger

/-!
# The message device

`mbcdd.c` and `mbcdd_msg_hdl.c`. An open file is used by one process at a time; what it does is cut
where another process can come between, that is at each access to a message that several files have.

* `State` — the wrappers, messages and slots, the list of the messages and the open files
* `mbcddNewMsg`, …, `mbcddGetDataSlot` — the critical sections of the message handler
* `mbcddOpen`, `mbcddRead`, `mbcddWrite`, `mbcddRelease` — the operations, step by step
* `step` — what an open file does next
-/

namespace Mbcdd

open Infra

/-! ## the data -/

/-- `kmalloc` never returns an address twice. -/
abbrev Addr := Nat

/-- Which `struct file` it is. -/
abbrev FileId := Nat

inductive Obj where
  | wrapper (a : Addr)
  | message (a : Addr)
  | slot (a : Addr)
  | data (a : Addr)
deriving DecidableEq, Repr

/-- A buffer for the data of a slot: where it is, and the bytes. No one frees it, so it is not recorded
that it is used. -/
structure Data where
  addr : Addr
  bytes : List UInt8
deriving DecidableEq, Repr

def DATA_SLOT_SIZE : Nat := 20

def ENOENT : Int := 2
def ENOMEM : Int := 12
def EBADF : Int := 9
def EFAULT : Int := 14

structure Completion where
  initialised : Bool
  done : Nat
deriving DecidableEq, Repr

/-- What `complete_all` adds. -/
def COMPLETE_ALL : Nat := 2 ^ 31 - 1

/-- `struct mbcdd_dev_wrapper`, one for each open file. -/
structure Wrapper where
  msg : Option Addr
  holdReaders : Completion
deriving DecidableEq, Repr

/-- What `memset` leaves. -/
def Wrapper.zero : Wrapper := ⟨none, ⟨false, 0⟩⟩

structure Slot where
  id : Nat
  data : Option Data
deriving DecidableEq, Repr

/-- `slotCurrent` is the slot that was read last, `none` when it points to `slot_root`. -/
structure Message where
  id : Nat
  slotRoot : List Addr
  slotCurrent : Option Addr
  busyReader : Int
  finWriter : Int
deriving DecidableEq, Repr

def Message.init (id : Nat) : Message := ⟨id, [], none, 0, 0⟩

/-- The slots from `slot_current->next` on. -/
def Message.unread (msg : Message) : List Addr :=
  match msg.slotCurrent with
  | none => msg.slotRoot
  | some c => (msg.slotRoot.dropWhile (· ≠ c)).tail

/-- `f_flags & O_ACCMODE`. -/
inductive AccMode where
  | wronly
  | rdonly
  | other
deriving DecidableEq, Repr

/-- How far the operation on a file has got, with its local variables. -/
inductive Pc where
  | closed
  | openNewMsg
  | openGetMsg
  | openBusyReader
  | openFinWriter
  | openReturn
  | idle
  | writeAdd (data : Option Data) (retval : Int)
  | writeBusyReader (retval : Int)
  | writeComplete (retval : Int)
  | readFinWriter
  | readWait
  | readAgain
  | relBusyReader
  | relFinWriter
  | relSlots
  | relMsg
  | relWrapper
  | relReturn
  | released
  | failed
  | oops
deriving DecidableEq, Repr

/-- A file: `private_data`, what the last operation returned, and what the last read copied. -/
structure Filp where
  accMode : AccMode
  devWrapper : Addr
  pc : Pc
  ret : Int
  buf : Option Data
deriving DecidableEq, Repr

structure State where
  mem : Ledger Obj
  next : Addr
  filp : FileId → Filp
  wrapper : Addr → Wrapper
  message : Addr → Message
  slot : Addr → Slot
  msgRoot : List Addr
  msgId : Nat
  dataSlotId : Nat

/-- The module is inserted, no file is open. -/
def boot : State where
  mem := .empty
  next := 0
  filp _ := ⟨.other, 0, .closed, 0, none⟩
  wrapper _ := .zero
  message _ := .init 0
  slot _ := ⟨0, none⟩
  msgRoot := []
  msgId := 0
  dataSlotId := 0

namespace State

def use (o : Obj) (s : State) : State := { s with mem := s.mem.use o }

def uses (os : List Obj) (s : State) : State := { s with mem := s.mem.uses os }

def kfree (o : Obj) (s : State) : State := { s with mem := s.mem.free o }

def setFilp (f : FileId) (g : Filp → Filp) (s : State) : State :=
  { s with filp := Function.update s.filp f (g (s.filp f)) }

def setPc (f : FileId) (pc : Pc) (s : State) : State := s.setFilp f ({ · with pc := pc })

/-- The operation returns. -/
def return_ (f : FileId) (r : Int) (pc : Pc) (s : State) : State :=
  s.setFilp f ({ · with pc := pc, ret := r })

def setWrapper (w : Addr) (g : Wrapper → Wrapper) (s : State) : State :=
  { s with wrapper := Function.update s.wrapper w (g (s.wrapper w)) }

def setMessage (m : Addr) (g : Message → Message) (s : State) : State :=
  { s with message := Function.update s.message m (g (s.message m)) }

/-- `dev_wrapper`. -/
def devWrapper (s : State) (f : FileId) : Addr := (s.filp f).devWrapper

/-- `dev_wrapper->msg`. -/
def msgOf (s : State) (f : FileId) : Option Addr := (s.wrapper (s.devWrapper f)).msg

/-- Goes on with `dev_wrapper->msg`, which is dereferenced. -/
def derefMsg (f : FileId) (k : Addr → State → State) (s : State) : State :=
  let s := s.use (.wrapper (s.devWrapper f))
  match s.msgOf f with
  | some m => k m (s.use (.message m))
  | none => s.setPc f .oops

end State

/-! ## the message handler -/

/-- `mbcdd_new_msg`: the message goes to the front of `msg_root`. -/
def mbcddNewMsg (ok : Bool) (s : State) : State × Option Addr :=
  if ok then
    let m := s.next
    ({ s with
        mem := (s.mem.alloc (Obj.message m)).uses (s.msgRoot.head?.toList.map Obj.message)
        next := m + 1
        message := Function.update s.message m (.init s.msgId)
        msgRoot := m :: s.msgRoot
        msgId := s.msgId + 1 }, some m)
  else (s, none)

/-- `mbcdd_get_msg`: the first message leaves `msg_root`. -/
def mbcddGetMsg (s : State) : State × Option Addr :=
  match s.msgRoot with
  | [] => (s, none)
  | m :: ms =>
    ({ s with
        mem := s.mem.uses ((m :: ms.head?.toList).map Obj.message)
        msgRoot := ms }, some m)

/-- The first critical section of `mbcdd_del_msg` frees the slots. -/
def delSlots : List Addr → Ledger Obj → Ledger Obj
  | [], mem => mem
  | x :: xs, mem => delSlots xs ((mem.uses ((x :: xs.head?.toList).map Obj.slot)).free (Obj.slot x))

def mbcddDelSlots (m : Addr) (s : State) : State :=
  ({ s with mem := delSlots (s.message m).slotRoot s.mem }).setMessage m ({ · with slotRoot := [] })

/-- The messages the second loop of `mbcdd_del_msg` visits: up to `m`, and the one behind. -/
def visited (m : Addr) (ms : List Addr) : List Addr :=
  ms.takeWhile (· ≠ m) ++ (ms.dropWhile (· ≠ m)).take 2

/-- The second critical section of `mbcdd_del_msg` frees the message. -/
def mbcddDelMsg (m : Addr) (s : State) : State :=
  ({ s with
      mem := s.mem.uses ((visited m s.msgRoot).map Obj.message)
      msgRoot := s.msgRoot.erase m }).kfree (.message m)

/-- `mbcdd_new_data`: the data, or no memory. -/
def mbcddNewData (ok : Bool) (s : State) : State × Option Data × Int :=
  if ok then
    ({ s with mem := s.mem.alloc (.data s.next), next := s.next + 1 },
      some ⟨s.next, List.replicate DATA_SLOT_SIZE 0⟩, DATA_SLOT_SIZE)
  else (s, none, -ENOMEM)

/-- `mbcdd_add_data_slot`: the slot goes to the end of `slot_root`. -/
def mbcddAddDataSlot (m : Addr) (data : Option Data) (ok : Bool) (s : State) : State :=
  if ok then
    let x := s.next
    ({ s with
        mem := (s.mem.alloc (Obj.slot x)).uses ((s.message m).slotRoot.getLast?.toList.map Obj.slot)
        next := x + 1
        slot := Function.update s.slot x ⟨s.dataSlotId, data⟩
        dataSlotId := s.dataSlotId + 1 }).setMessage m
      ({ · with slotRoot := (s.message m).slotRoot ++ [x] })
  else s

/-- `mbcdd_get_data_slot`: the data of the next slot, which becomes the current one. -/
def mbcddGetDataSlot (m : Addr) (s : State) : State × Option Data :=
  let s := s.uses ((s.message m).slotCurrent.toList.map Obj.slot)
  match (s.message m).unread with
  | [] => (s, none)
  | x :: _ =>
    ((s.use (.slot x)).setMessage m ({ · with slotCurrent := some x }), (s.slot x).data)

/-! ## the operations -/

/-- `mbcdd_open`. The access modes apart from these two are refused, without freeing the wrapper. -/
def mbcddOpen (f : FileId) (mode : AccMode) (ok : Bool) (s : State) : State :=
  if ok then
    let w := s.next
    let s := { s with
      mem := s.mem.alloc (.wrapper w)
      next := w + 1
      wrapper := Function.update s.wrapper w .zero }
    match mode with
    | .wronly => s.setFilp f fun p => { p with accMode := mode, devWrapper := w, pc := .openNewMsg }
    | .rdonly => s.setFilp f fun p => { p with accMode := mode, devWrapper := w, pc := .openGetMsg }
    | .other => s.return_ f 1 .failed
  else s.setPc f .oops

def openNewMsg (f : FileId) (ok : Bool) (s : State) : State :=
  let (s, msg) := mbcddNewMsg ok s
  ((s.use (.wrapper (s.devWrapper f))).setWrapper (s.devWrapper f) ({ · with msg := msg })).setPc f
    .openReturn

def openGetMsg (f : FileId) (s : State) : State :=
  let (s, msg) := mbcddGetMsg s
  let s := (s.use (.wrapper (s.devWrapper f))).setWrapper (s.devWrapper f) ({ · with msg := msg })
  match msg with
  | none => s.return_ f (-ENOENT) .failed
  | some _ => s.setPc f .openBusyReader

def openBusyReader (f : FileId) (s : State) : State :=
  s.derefMsg f fun m s =>
    (s.setMessage m ({ · with busyReader := 1 })).setPc f .openFinWriter

/-- The completion is only needed when the writer has not finished. -/
def openFinWriter (f : FileId) (s : State) : State :=
  s.derefMsg f fun m s =>
    (if (s.message m).finWriter = 0 then
      s.setWrapper (s.devWrapper f) ({ · with holdReaders := ⟨true, 0⟩ })
    else s).setPc f .openReturn

def openReturn (f : FileId) (s : State) : State :=
  s.derefMsg f fun _ s => s.return_ f 0 .idle

/-- `mbcdd_write` copies from the user what can be copied, and adds the slot in any case. -/
def mbcddWrite (f : FileId) (buf : Option (List UInt8)) (ok : Bool) (s : State) : State :=
  s.derefMsg f fun _ s =>
    let (s, data, count) := mbcddNewData ok s
    match buf with
    | none => s.setPc f (.writeAdd data (-EFAULT))
    | some bytes => s.setPc f (.writeAdd (data.map ({ · with bytes := bytes })) count)

def writeAdd (f : FileId) (data : Option Data) (retval : Int) (ok : Bool) (s : State) : State :=
  s.derefMsg f fun m s => (mbcddAddDataSlot m data ok s).setPc f (.writeBusyReader retval)

def writeBusyReader (f : FileId) (retval : Int) (s : State) : State :=
  s.derefMsg f fun m s =>
    if (s.message m).busyReader = 1 then s.setPc f (.writeComplete retval)
    else s.return_ f retval .idle

/-- `complete_all(&dev_wrapper->hold_readers)`. -/
def writeComplete (f : FileId) (retval : Int) (s : State) : State :=
  s.derefMsg f fun _ s =>
    (s.setWrapper (s.devWrapper f) fun w =>
      { w with holdReaders.done := w.holdReaders.done + COMPLETE_ALL }).return_ f retval .idle

/-- The data goes to the user; what `copy_to_user` says is not looked at. -/
def readReturn (f : FileId) (data : Option Data) (s : State) : State :=
  s.setFilp f fun p => { p with pc := .idle, ret := DATA_SLOT_SIZE, buf := data }

def mbcddRead (f : FileId) (s : State) : State :=
  s.derefMsg f fun m s =>
    let (s, data) := mbcddGetDataSlot m s
    match data with
    | none => s.setPc f .readFinWriter
    | some data => readReturn f (some data) s

def readFinWriter (f : FileId) (s : State) : State :=
  s.derefMsg f fun m s =>
    if (s.message m).finWriter = 1 then s.return_ f 0 .idle else s.setPc f .readWait

/-- `wait_for_completion(&dev_wrapper->hold_readers)`. -/
def readWait (f : FileId) (s : State) : Option State :=
  let done := (s.wrapper (s.devWrapper f)).holdReaders.done
  if 0 < done then
    some <| ((s.use (.wrapper (s.devWrapper f))).setWrapper (s.devWrapper f) fun w =>
      { w with holdReaders.done := w.holdReaders.done - 1 }).setPc f .readAgain
  else none

def readAgain (f : FileId) (s : State) : State :=
  s.derefMsg f fun m s =>
    let (s, data) := mbcddGetDataSlot m s
    readReturn f data s

def mbcddRelease (f : FileId) (s : State) : State :=
  match (s.filp f).accMode with
  | .wronly => s.setPc f .relBusyReader
  | .rdonly => s.setPc f .relSlots
  | .other => s.setPc f .relWrapper

def relBusyReader (f : FileId) (s : State) : State :=
  s.derefMsg f fun m s =>
    s.setPc f (if (s.message m).busyReader = 0 then .relFinWriter else .relWrapper)

def relFinWriter (f : FileId) (s : State) : State :=
  s.derefMsg f fun m s => (s.setMessage m ({ · with finWriter := 1 })).setPc f .relWrapper

def relSlots (f : FileId) (s : State) : State :=
  s.derefMsg f fun m s => (mbcddDelSlots m s).setPc f .relMsg

def relMsg (f : FileId) (s : State) : State :=
  s.derefMsg f fun m s => (mbcddDelMsg m s).setPc f .relWrapper

def relWrapper (f : FileId) (s : State) : State :=
  (s.kfree (.wrapper (s.devWrapper f))).setPc f .relReturn

/-- The message that is printed at the end is taken from the wrapper. -/
def relReturn (f : FileId) (s : State) : State :=
  s.derefMsg f fun _ s => s.return_ f 0 .released

/-! ## the steps -/

/-- A system call, or the next step of the one that is going on; `ok` says whether `kmalloc` has
memory, `buf` what the user's buffer holds when it can be read. -/
inductive Act where
  | open_ (mode : AccMode) (ok : Bool)
  | read
  | write (buf : Option (List UInt8)) (ok : Bool)
  | release
  | go (ok : Bool)
deriving DecidableEq, Repr

/-- A file is only read when it was opened for that, and only written when it was opened for that. -/
def step (f : FileId) (a : Act) (s : State) : Option State :=
  match (s.filp f).pc, a with
  | .closed, .open_ mode ok => some (mbcddOpen f mode ok s)
  | .openNewMsg, .go ok => some (openNewMsg f ok s)
  | .openGetMsg, .go _ => some (openGetMsg f s)
  | .openBusyReader, .go _ => some (openBusyReader f s)
  | .openFinWriter, .go _ => some (openFinWriter f s)
  | .openReturn, .go _ => some (openReturn f s)
  | .idle, .write buf ok =>
    if (s.filp f).accMode = .wronly then some (mbcddWrite f buf ok s)
    else some (s.return_ f (-EBADF) .idle)
  | .idle, .read =>
    if (s.filp f).accMode = .rdonly then some (mbcddRead f s)
    else some (s.return_ f (-EBADF) .idle)
  | .idle, .release => some (mbcddRelease f s)
  | .writeAdd data retval, .go ok => some (writeAdd f data retval ok s)
  | .writeBusyReader retval, .go _ => some (writeBusyReader f retval s)
  | .writeComplete retval, .go _ => some (writeComplete f retval s)
  | .readFinWriter, .go _ => some (readFinWriter f s)
  | .readWait, .go _ => readWait f s
  | .readAgain, .go _ => some (readAgain f s)
  | .relBusyReader, .go _ => some (relBusyReader f s)
  | .relFinWriter, .go _ => some (relFinWriter f s)
  | .relSlots, .go _ => some (relSlots f s)
  | .relMsg, .go _ => some (relMsg f s)
  | .relWrapper, .go _ => some (relWrapper f s)
  | .relReturn, .go _ => some (relReturn f s)
  | _, _ => none

/-- The steps of a run, each with the state it starts from. -/
abbrev History := List (State × FileId × Act)

/-- The runs of any number of files. -/
inductive Run : History → State → Prop
  | boot : Run [] boot
  | step {h : History} {s s' : State} {f : FileId} {a : Act} (hrun : Run h s)
      (hstep : step f a s = some s') : Run (h ++ [(s, f, a)]) s'

end Mbcdd
