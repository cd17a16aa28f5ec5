import Bambinos.Mbcdd.Steps

/-!
# What is copied from the user, and to the user

`mbcdd_write` and `mbcdd_read` with the counts that are requested and what the copies do. The calls
on a message come one after the other.

* `Contents` — what a message holds
* `mbcddWrite`, `mbcddRead` — the calls
* `clean_iff` — when a write that fails leaves everything as it is
* `counts_iff` — when the counts of the writes and of the reads behind them are right
* `write_steps` — the steps of a write in the device model are this call
-/

namespace Mbcdd

/-! ## the calls -/

/-- The data of the slots in `slot_root`, and how many of them there are up to `slot_current`. -/
structure Contents where
  slots : List (Option (List UInt8))
  read : Nat
  busyReader : Int
  finWriter : Int
deriving DecidableEq, Repr

/-- A system call never gets a count that is negative as `ssize_t`. `user` is what can be read at the
user's buffer, which may be less than `count` or more, and `devWrapper` belongs to the writer's file. -/
structure WriteCall where
  devWrapper : Addr
  count : Nat
  count_lt : count < 2 ^ 31
  user : List UInt8
  newData : Bool
  newSlot : Bool

/-- At the user's buffer `writable` bytes can be stored; `woken` says whether waiting comes to an
end. -/
structure ReadCall where
  count : Nat
  writable : Nat
  woken : Bool
deriving DecidableEq, Repr

/-- `asked` is the size that `copy_from_user` gets, `nullWritten` whether it copies to `NULL`,
`completed` the wrapper whose `hold_readers` is completed. -/
structure WriteResult where
  asked : Nat
  nullWritten : Bool
  completed : Option Addr
  ret : Int
deriving DecidableEq, Repr

/-- `asked` is the size that `copy_to_user` gets, and `left` what it could not copy. -/
structure ReadResult where
  asked : Nat
  copied : List UInt8
  left : Nat
  ret : Int
deriving DecidableEq, Repr

namespace Contents

/-- What `mbcdd_new_msg` makes, when a reader may have opened it. -/
def newMsg (busyReader : Int) : Contents := ⟨[], 0, busyReader, 0⟩

/-- `mbcdd_add_data_slot`. -/
def addDataSlot (data : Option (List UInt8)) (ok : Bool) (msg : Contents) : Contents :=
  if ok then { msg with slots := msg.slots ++ [data] } else msg

/-- `mbcdd_get_data_slot`. -/
def getDataSlot (msg : Contents) : Option (List UInt8) × Contents :=
  match msg.slots[msg.read]? with
  | none => (none, msg)
  | some data => (data, { msg with read := msg.read + 1 })

/-- How many bytes are stored. -/
def total (msg : Contents) : Nat := (msg.slots.map fun data => (data.getD []).length).sum

end Contents

namespace Transfer

/-- A `size_t` that is returned as `ssize_t`. -/
def ssize (n : Nat) : Int := if n < 2 ^ 31 then n else n - 2 ^ 32

/-- `mbcdd_new_data`: without memory, `count` is `-ENOMEM`. -/
def newData (ok : Bool) : Option (List UInt8) × Nat :=
  if ok then (some (List.replicate DATA_SLOT_SIZE 0), DATA_SLOT_SIZE) else (none, 2 ^ 32 - 12)

/-- The wrapper whose `hold_readers` a write completes. It is not the one that a reader waits for, which
is in the wrapper of his own file. -/
def completes (c : WriteCall) (msg : Contents) : Option Addr :=
  if msg.busyReader = 1 then some c.devWrapper else none

/-- `mbcdd_write`. What `copy_from_user` cannot read it fills with zeros. -/
def mbcddWrite (c : WriteCall) (msg : Contents) : WriteResult × Contents :=
  let (to_, count) := newData c.newData
  let left := count - c.user.length
  let retval := if left ≠ 0 then -EFAULT else ssize count
  let data := to_.map fun _ => c.user.take count ++ List.replicate left 0
  ({ asked := count, nullWritten := to_.isNone, completed := completes c msg, ret := retval },
    msg.addDataSlot data c.newSlot)

/-- The end of `mbcdd_read`; from `NULL` nothing can be copied. -/
def readReturn (c : ReadCall) (to_ : Option (List UInt8)) : ReadResult :=
  let copied := (to_.getD []).take (min DATA_SLOT_SIZE c.writable)
  { asked := DATA_SLOT_SIZE, copied, left := DATA_SLOT_SIZE - copied.length, ret := DATA_SLOT_SIZE }

/-- `mbcdd_read`; there is no result when it waits for ever. -/
def mbcddRead (c : ReadCall) (msg : Contents) : Option ReadResult × Contents :=
  let (to_, msg) := msg.getDataSlot
  match to_ with
  | some data => (some (readReturn c (some data)), msg)
  | none =>
    if msg.finWriter = 1 then (some ⟨0, [], 0, 0⟩, msg)
    else if c.woken then
      let (to_, msg) := msg.getDataSlot
      (some (readReturn c to_), msg)
    else (none, msg)

/-- Writes, one after the other. -/
def writeAll : List WriteCall → Contents → List WriteResult × Contents
  | [], msg => ([], msg)
  | c :: cs, msg =>
    let (r, msg) := mbcddWrite c msg
    ((r :: (writeAll cs msg).1), (writeAll cs msg).2)

/-- Reads, one after the other, up to one that waits for ever. -/
def readAll : List ReadCall → Contents → List ReadResult
  | [], _ => []
  | c :: cs, msg =>
    let (r, msg) := mbcddRead c msg
    match r with
    | none => []
    | some r => r :: readAll cs msg

variable {msg : Contents} {c : WriteCall}

/-! ## a write that fails -/

/-- What `copy_from_user` leaves in the data. -/
def filled (c : WriteCall) : List UInt8 :=
  c.user.take DATA_SLOT_SIZE ++ List.replicate (DATA_SLOT_SIZE - c.user.length) 0

theorem filled_length : (filled c).length = DATA_SLOT_SIZE := by
  unfold filled
  rw [List.length_append, List.length_take, List.length_replicate]
  omega

theorem mbcddWrite_newData (h : c.newData = true) : mbcddWrite c msg =
    (⟨DATA_SLOT_SIZE, false, completes c msg,
      if c.user.length < DATA_SLOT_SIZE then -EFAULT else DATA_SLOT_SIZE⟩,
      msg.addDataSlot (some (filled c)) c.newSlot) := by
  have hleft : DATA_SLOT_SIZE - c.user.length ≠ 0 ↔ c.user.length < DATA_SLOT_SIZE := by omega
  simp only [mbcddWrite, newData, h, if_true, hleft]
  rfl

/-- Without data, the copy goes to `NULL`. -/
theorem mbcddWrite_null (h : c.newData = false) :
    (mbcddWrite c msg).1.nullWritten = true ∧ (mbcddWrite c msg).1.asked = 2 ^ 32 - 12 := by
  simp [mbcddWrite, newData, h]

/-- One of the three fails: the data, the slot, or copying. -/
def Fails (c : WriteCall) : Prop :=
  c.newData = false ∨ c.newSlot = false ∨ c.user.length < (newData c.newData).2

/-- The call fails, and nothing of it is to be seen. A reader waits in another wrapper. -/
structure Clean (c : WriteCall) (msg : Contents) : Prop where
  ret : (mbcddWrite c msg).1.ret < 0
  slots : (mbcddWrite c msg).2.slots = msg.slots
  read : (mbcddWrite c msg).2.read = msg.read
  buffer : (mbcddWrite c msg).1.nullWritten = false
  reader : ∀ w, w ≠ c.devWrapper → (mbcddWrite c msg).1.completed ≠ some w

theorem addDataSlot_slots {data : Option (List UInt8)} {ok : Bool} :
    (msg.addDataSlot data ok).slots = msg.slots ↔ ok = false := by
  cases ok <;> simp [Contents.addDataSlot]

/-- There is data, but not all that is to be copied, and no slot. -/
def Unseen (c : WriteCall) : Prop :=
  c.newData = true ∧ c.user.length < DATA_SLOT_SIZE ∧ c.newSlot = false

/-- A write completes only what the writer has himself. -/
theorem completed_own {w : Addr} (h : (mbcddWrite c msg).1.completed = some w) :
    w = c.devWrapper := by
  have hcompletes : completes c msg = some w := h
  unfold completes at hcompletes
  split at hcompletes
  · exact (Option.some.inj hcompletes).symm
  · cases hcompletes

theorem Unseen.clean (h : Unseen c) : Clean c msg := by
  obtain ⟨hdata, hlength, hslot⟩ := h
  have hwrite := @mbcddWrite_newData msg _ hdata
  rw [hslot, if_pos hlength] at hwrite
  refine ⟨?_, ?_, ?_, ?_, fun w hne hw => hne (completed_own hw)⟩ <;> rw [hwrite]
  · show -EFAULT < 0
    decide
  · rfl
  · rfl

theorem Clean.unseen (h : Clean c msg) : Unseen c := by
  obtain ⟨hret, hslots, -, hbuffer, -⟩ := h
  have hdata : c.newData = true := by
    by_contra hdata
    rw [Bool.not_eq_true] at hdata
    rw [(mbcddWrite_null hdata).1] at hbuffer
    cases hbuffer
  rw [mbcddWrite_newData hdata] at hret hslots
  refine ⟨hdata, ?_, addDataSlot_slots.mp hslots⟩
  by_contra hlength
  simp only [if_neg hlength] at hret
  exact absurd hret (by decide)

/-- The user's buffer cannot be read, but the slot is added. -/
def badBuffer : WriteCall := ⟨0, 20, by decide, [], true, true⟩

/-- It does not ask for more than is requested, and returns what is stored, or fails and stores
nothing. -/
structure WriteOk (c : WriteCall) (msg : Contents) : Prop where
  asked : (mbcddWrite c msg).1.asked ≤ c.count
  ret : (mbcddWrite c msg).1.ret = (mbcddWrite c msg).2.total - msg.total ∨
    (mbcddWrite c msg).1.ret < 0 ∧ (mbcddWrite c msg).2.slots = msg.slots

/-- It does not ask for more than is requested, and returns what is copied, or fails. -/
structure ReadOk (c : ReadCall) (r : ReadResult) : Prop where
  asked : r.asked ≤ c.count
  copied : r.left = 0 → r.ret = r.copied.length
  failed : r.left ≠ 0 → r.ret < 0

def WritesOk : List WriteCall → Contents → Prop
  | [], _ => True
  | c :: cs, msg => WriteOk c msg ∧ WritesOk cs (mbcddWrite c msg).2

/-- The bytes that the writes say they have taken. -/
def accepted (cs : List WriteCall) (msg : Contents) : List UInt8 :=
  (cs.zip (writeAll cs msg).1).flatMap fun x =>
    if 0 ≤ x.2.ret then x.1.user.take x.2.ret.toNat else []

/-- The bytes that the reads return. -/
def returned (cs : List ReadCall) (msg : Contents) : List UInt8 :=
  (readAll cs msg).flatMap fun r => if 0 ≤ r.ret then r.copied else []

/-- What the reads find when `fin_writer` has this value. -/
def written (ws : List WriteCall) (busyReader finWriter : Int) : Contents :=
  { (writeAll ws (.newMsg busyReader)).2 with finWriter := finWriter }

/-- All counts are right, and the bytes come back in their order. -/
structure CountsOk (ws : List WriteCall) (rs : List ReadCall) (busyReader finWriter : Int) : Prop where
  writes : WritesOk ws (.newMsg busyReader)
  reads : ∀ x ∈ rs.zip (readAll rs (written ws busyReader finWriter)), ReadOk x.1 x.2
  bytes : returned rs (written ws busyReader finWriter) <+: accepted ws (.newMsg busyReader)

/-- At least a slot's size is requested, there is data for it, and there is a slot exactly when the
data can be copied. -/
structure WriteFits (c : WriteCall) : Prop where
  count : DATA_SLOT_SIZE ≤ c.count
  data : c.newData = true
  slot : c.newSlot = true ↔ DATA_SLOT_SIZE ≤ c.user.length

/-- At least a slot's size is requested, and can be copied. -/
structure ReadFits (c : ReadCall) : Prop where
  count : DATA_SLOT_SIZE ≤ c.count
  buffer : DATA_SLOT_SIZE ≤ c.writable

/-! ### the writes -/

theorem total_addDataSlot {data : List UInt8} :
    (msg.addDataSlot (some data) true).total = msg.total + data.length := by
  simp [Contents.total, Contents.addDataSlot]

theorem writeOk_iff : WriteOk c msg ↔ WriteFits c := by
  have hcount := c.count_lt
  constructor
  · rintro ⟨hasked, hret⟩
    have hdata : c.newData = true := by
      by_contra hdata
      rw [Bool.not_eq_true] at hdata
      rw [(mbcddWrite_null hdata).2] at hasked
      omega
    rw [mbcddWrite_newData hdata] at hasked hret
    refine ⟨hasked, hdata, ?_⟩
    cases hslot : c.newSlot with
    | true =>
      rw [hslot, addDataSlot_slots, total_addDataSlot, filled_length] at hret
      refine iff_of_true rfl ?_
      by_contra hlength
      rw [if_pos (by omega)] at hret
      obtain hret | ⟨-, hret⟩ := hret
      · have hneg : -EFAULT < 0 := by decide
        simp only at hret
        omega
      · cases hret
    | false =>
      rw [hslot] at hret
      refine iff_of_false Bool.false_ne_true fun hlength => ?_
      rw [if_neg (by omega)] at hret
      obtain hret | ⟨hret, -⟩ := hret
      · have hzero : (DATA_SLOT_SIZE : Int) = msg.total - msg.total := hret
        rw [Int.sub_self] at hzero
        cases hzero
      · cases hret
  · rintro ⟨hfits, hdata, hslot⟩
    refine ⟨?_, ?_⟩ <;> rw [mbcddWrite_newData hdata]
    · exact hfits
    cases hnew : c.newSlot with
    | true =>
      have hlength := hslot.mp hnew
      rw [if_neg (by omega), total_addDataSlot, filled_length]
      refine .inl ?_
      simp only
      omega
    | false =>
      have hlength : ¬ DATA_SLOT_SIZE ≤ c.user.length := fun hlength => by
        cases hnew.symm.trans (hslot.mpr hlength)
      rw [if_pos (by omega)]
      refine .inr ⟨?_, rfl⟩
      show -EFAULT < 0
      decide

theorem writesOk_iff : ∀ {ws : List WriteCall} {msg : Contents},
    WritesOk ws msg ↔ ∀ c ∈ ws, WriteFits c
  | [], msg => by simp [WritesOk]
  | c :: ws, msg => by
    rw [WritesOk, List.forall_mem_cons, writeOk_iff, writesOk_iff]

/-- The data of the slots that are added. -/
def stored (ws : List WriteCall) : List (List UInt8) :=
  (ws.filter (·.newSlot)).map (·.user.take DATA_SLOT_SIZE)

theorem WriteFits.write (h : WriteFits c) : (mbcddWrite c msg).2 =
    { msg with slots := msg.slots ++ (stored [c]).map some } ∧
    (if 0 ≤ (mbcddWrite c msg).1.ret then c.user.take (mbcddWrite c msg).1.ret.toNat else []) =
      (stored [c]).flatten := by
  rw [mbcddWrite_newData h.data]
  cases hnew : c.newSlot with
  | true =>
    have hlength := h.slot.mp hnew
    have hfilled : filled c = c.user.take DATA_SLOT_SIZE := by
      unfold filled
      rw [Nat.sub_eq_zero_of_le hlength, List.replicate_zero, List.append_nil]
    rw [if_neg (by omega), hfilled]
    simp [stored, hnew, Contents.addDataSlot]
  | false =>
    have hlength : ¬ DATA_SLOT_SIZE ≤ c.user.length := fun hlength => by
      cases hnew.symm.trans (h.slot.mpr hlength)
    rw [if_pos (by omega)]
    simp [stored, hnew, Contents.addDataSlot, EFAULT]

theorem stored_cons (c : WriteCall) (ws : List WriteCall) : stored (c :: ws) = stored [c] ++ stored ws := by
  unfold stored
  rw [← List.map_append, ← List.filter_append, List.singleton_append]

/-- What there is after the writes, and what they have taken. -/
theorem writeAll_fits : ∀ {ws : List WriteCall} {msg : Contents}, (∀ c ∈ ws, WriteFits c) →
    (writeAll ws msg).2 = { msg with slots := msg.slots ++ (stored ws).map some } ∧
      accepted ws msg = (stored ws).flatten
  | [], msg, _ => ⟨by simp [writeAll, stored], rfl⟩
  | c :: ws, msg, h => by
    obtain ⟨hc, hws⟩ := List.forall_mem_cons.mp h
    obtain ⟨hwrite, htaken⟩ := @WriteFits.write msg c hc
    obtain ⟨hall, hrest⟩ := @writeAll_fits ws (mbcddWrite c msg).2 hws
    refine ⟨?_, ?_⟩
    · show (writeAll ws (mbcddWrite c msg).2).2 = _
      rw [hall, hwrite, stored_cons c ws]
      simp only [List.map_append, List.append_assoc]
    · rw [stored_cons c ws, List.flatten_append, ← htaken, ← hrest]
      rfl

/-! ### the reads -/

/-- The slots behind the cursor. -/
def Unread (msg : Contents) (zs : List (List UInt8)) : Prop :=
  msg.slots.drop msg.read = zs.map some ∧ ∀ z ∈ zs, z.length = DATA_SLOT_SIZE

variable {zs : List (List UInt8)} {z : List UInt8} {d : ReadCall}

theorem mbcddRead_nil (h : Unread msg []) : mbcddRead d msg =
    (if msg.finWriter = 1 then some ⟨0, [], 0, 0⟩
      else if d.woken then some (readReturn d none) else none, msg) := by
  have hget : msg.getDataSlot = (none, msg) := by
    have hnone : msg.slots[msg.read]? = none := by
      rw [← List.head?_drop, h.1]
      rfl
    simp [Contents.getDataSlot, hnone]
  simp only [mbcddRead, hget]
  split
  · rfl
  · split <;> rfl

theorem mbcddRead_cons (h : Unread msg (z :: zs)) : mbcddRead d msg =
    (some (readReturn d (some z)), { msg with read := msg.read + 1 }) := by
  have hsome : msg.slots[msg.read]? = some (some z) := by
    rw [← List.head?_drop, h.1]
    rfl
  simp [mbcddRead, Contents.getDataSlot, hsome]

theorem Unread.tail (h : Unread msg (z :: zs)) : Unread { msg with read := msg.read + 1 } zs := by
  refine ⟨?_, fun y hy => h.2 y (List.mem_cons_of_mem _ hy)⟩
  show msg.slots.drop (msg.read + 1) = _
  rw [← List.tail_drop, h.1]
  rfl

theorem readReturn_ret {to_ : Option (List UInt8)} : ¬ (readReturn d to_).ret < 0 := by
  show ¬ (DATA_SLOT_SIZE : Int) < 0
  decide

/-- What is copied of a slot. -/
theorem readReturn_copied (h : z.length = DATA_SLOT_SIZE) (hbuffer : DATA_SLOT_SIZE ≤ d.writable) :
    (readReturn d (some z)).copied = z := by
  show z.take (min DATA_SLOT_SIZE d.writable) = z
  rw [Nat.min_eq_left hbuffer, ← h, List.take_length]

theorem readOk_some (h : z.length = DATA_SLOT_SIZE) :
    ReadOk d (readReturn d (some z)) ↔ ReadFits d := by
  have hlength : (readReturn d (some z)).copied.length = min DATA_SLOT_SIZE d.writable := by
    show (z.take (min DATA_SLOT_SIZE d.writable)).length = _
    rw [List.length_take, h]
    omega
  constructor
  · rintro ⟨hasked, -, hfailed⟩
    refine ⟨hasked, ?_⟩
    by_contra hbuffer
    have hleft : (readReturn d (some z)).left ≠ 0 := by
      show DATA_SLOT_SIZE - (readReturn d (some z)).copied.length ≠ 0
      omega
    exact readReturn_ret (hfailed hleft)
  · rintro ⟨hcount, hbuffer⟩
    refine ⟨hcount, fun _ => ?_, fun hleft => absurd ?_ hleft⟩
    · rw [readReturn_copied h hbuffer, h]
      rfl
    · show DATA_SLOT_SIZE - (readReturn d (some z)).copied.length = 0
      omega

/-- When there is no slot after waiting, this is not said. -/
theorem not_readOk_none : ¬ ReadOk d (readReturn d none) := by
  rintro ⟨-, -, hfailed⟩
  refine readReturn_ret (hfailed ?_)
  show DATA_SLOT_SIZE - (([] : List UInt8).take _).length ≠ 0
  rw [List.take_nil]
  decide

theorem readAll_none {rs : List ReadCall} {msg' : Contents} (h : mbcddRead d msg = (none, msg')) :
    readAll (d :: rs) msg = [] := by
  simp only [readAll, h]

theorem readAll_some {rs : List ReadCall} {r : ReadResult} {msg' : Contents}
    (h : mbcddRead d msg = (some r, msg')) : readAll (d :: rs) msg = r :: readAll rs msg' := by
  simp only [readAll, h]

theorem eof_ok : ReadOk d ⟨0, [], 0, 0⟩ where
  asked := Nat.zero_le _
  copied := fun _ => rfl
  failed := fun h => absurd rfl h

/-- The reads are right when those that find a slot can copy it, and no one wakes a reader when there
is nothing. -/
theorem readsOk_iff : ∀ {rs : List ReadCall} {msg : Contents} {zs : List (List UInt8)},
    Unread msg zs → ((∀ x ∈ rs.zip (readAll rs msg), ReadOk x.1 x.2) ↔
      (∀ (k : ℕ) d, rs[k]? = some d → k < zs.length → ReadFits d) ∧
        (msg.finWriter = 1 ∨ ∀ d, rs[zs.length]? = some d → d.woken = false))
  | [], msg, zs, _ => by simp [readAll]
  | d :: rs, msg, [], h => by
    have hread := mbcddRead_nil (d := d) h
    by_cases hfin : msg.finWriter = 1
    · rw [if_pos hfin] at hread
      rw [readAll_some hread, List.zip_cons_cons, List.forall_mem_cons]
      have ih := @readsOk_iff rs _ _ h
      simp only [List.length_nil, Nat.not_lt_zero, false_implies, implies_true, true_and, hfin,
        true_or, iff_true] at ih ⊢
      exact ⟨eof_ok, ih⟩
    · rw [if_neg hfin] at hread
      have hnone : (∀ e, (d :: rs)[([] : List (List UInt8)).length]? = some e → e.woken = false) ↔
          d.woken = false := by
        simp
      rw [hnone]
      cases hwoken : d.woken with
      | true =>
        rw [hwoken, if_pos rfl] at hread
        rw [readAll_some hread, List.zip_cons_cons, List.forall_mem_cons]
        refine iff_of_false (fun hall => not_readOk_none hall.1) ?_
        rintro ⟨-, hfin' | hwoken'⟩
        · exact hfin hfin'
        · cases hwoken'
      | false =>
        rw [hwoken, if_neg Bool.false_ne_true] at hread
        rw [readAll_none hread, List.zip_nil_right]
        refine iff_of_true (fun x hx => absurd hx List.not_mem_nil) ⟨fun k e _ hk => ?_, .inr rfl⟩
        exact absurd hk (Nat.not_lt_zero k)
  | d :: rs, msg, z :: zs, h => by
    have ih := @readsOk_iff rs _ _ h.tail
    rw [readAll_some (mbcddRead_cons h), List.zip_cons_cons, List.forall_mem_cons, ih,
      readOk_some (h.2 z List.mem_cons_self), List.length_cons, List.getElem?_cons_succ, ← and_assoc]
    refine and_congr_left fun _ => ?_
    constructor
    · rintro ⟨hd, hrs⟩ k e hk hlt
      cases k with
      | zero =>
        cases hk
        exact hd
      | succ k => exact hrs k e hk (Nat.lt_of_succ_lt_succ hlt)
    · intro hall
      exact ⟨hall 0 d rfl (Nat.succ_pos _), fun k e hk hlt => hall (k + 1) e hk (Nat.succ_lt_succ hlt)⟩

/-- Reads that copy what they find return the slots in their order. -/
theorem returned_isPrefix : ∀ {rs : List ReadCall} {msg : Contents} {zs : List (List UInt8)},
    Unread msg zs → (∀ (k : ℕ) d, rs[k]? = some d → k < zs.length → ReadFits d) →
      (msg.finWriter = 1 ∨ ∀ d, rs[zs.length]? = some d → d.woken = false) →
        returned rs msg <+: zs.flatten
  | [], msg, zs, _, _, _ => List.nil_prefix
  | d :: rs, msg, [], h, hfits, hend => by
    have hread := mbcddRead_nil (d := d) h
    unfold returned
    by_cases hfin : msg.finWriter = 1
    · rw [if_pos hfin] at hread
      rw [readAll_some hread, List.flatMap_cons]
      exact @returned_isPrefix rs _ _ h (fun k e _ hk => absurd hk (Nat.not_lt_zero k)) (.inl hfin)
    · obtain hfin' | hwoken := hend
      · exact absurd hfin' hfin
      · rw [if_neg hfin, hwoken d rfl, if_neg Bool.false_ne_true] at hread
        rw [readAll_none hread]
        exact List.nil_prefix
  | d :: rs, msg, z :: zs, h, hfits, hend => by
    have hz := readReturn_copied (h.2 z List.mem_cons_self) (hfits 0 d rfl (Nat.succ_pos _)).buffer
    have hrest := @returned_isPrefix rs _ _ h.tail
      (fun k e hk hlt => hfits (k + 1) e hk (Nat.succ_lt_succ hlt)) hend
    unfold returned
    rw [readAll_some (mbcddRead_cons h), List.flatMap_cons, if_pos (Int.not_lt.mp readReturn_ret), hz,
      List.flatten_cons]
    exact (List.prefix_append_right_inj z).mpr hrest

/-! ### both -/

/-- How many slots there are. -/
theorem stored_length {ws : List WriteCall} : (stored ws).length = (ws.filter (·.newSlot)).length :=
  List.length_map _

theorem stored_size {ws : List WriteCall} (h : ∀ c ∈ ws, WriteFits c) :
    ∀ z ∈ stored ws, z.length = DATA_SLOT_SIZE := by
  intro z hz
  obtain ⟨c, hc, rfl⟩ := List.mem_map.mp hz
  obtain ⟨hin, hnew⟩ := List.mem_filter.mp hc
  rw [List.length_take, Nat.min_eq_left ((h c hin).slot.mp hnew)]

theorem written_unread {ws : List WriteCall} (h : ∀ c ∈ ws, WriteFits c) (b fin : Int) :
    Unread (written ws b fin) (stored ws) := by
  refine ⟨?_, stored_size h⟩
  unfold written
  rw [(writeAll_fits h).1]
  rfl

/-- Five bytes are written, and twenty are taken from the user. -/
def shortWrite : WriteCall := ⟨0, 5, by decide, List.replicate 20 65, true, true⟩

open Infra

variable {s : State} {f : FileId} {m : Addr}

/-- The message of the device model holds this. -/
structure Holds (s : State) (m : Addr) (msg : Contents) : Prop where
  slots : (s.message m).slotRoot.map (fun x => (s.slot x).data.map (·.bytes)) = msg.slots
  fresh : ∀ x ∈ (s.message m).slotRoot, x < s.next
  current : (s.message m).slotCurrent = ((s.message m).slotRoot.take msg.read).getLast?
  read : msg.read ≤ (s.message m).slotRoot.length
  busyReader : (s.message m).busyReader = msg.busyReader
  finWriter : (s.message m).finWriter = msg.finWriter

theorem Holds.congr {s' : State} (h : Holds s m msg) (hmessage : s'.message m = s.message m)
    (hslot : s'.slot = s.slot) (hnext : s.next ≤ s'.next) : Holds s' m msg where
  slots := by rw [hmessage, hslot]; exact h.slots
  fresh := fun x hx => by
    rw [hmessage] at hx
    exact Nat.lt_of_lt_of_le (h.fresh x hx) hnext
  current := by rw [hmessage]; exact h.current
  read := by rw [hmessage]; exact h.read
  busyReader := by rw [hmessage]; exact h.busyReader
  finWriter := by rw [hmessage]; exact h.finWriter

/-- What the device model is told about the user's buffer. -/
def userBuf (c : WriteCall) : Option (List UInt8) :=
  if (newData c.newData).2 ≤ c.user.length then some (c.user.take DATA_SLOT_SIZE) else none

/-- The steps of a write. -/
def writeActs (c : WriteCall) (msg : Contents) : List Act :=
  [.write (userBuf c) c.newData, .go c.newSlot, .go true] ++
    if msg.busyReader = 1 then [.go true] else []

theorem userBuf_none (h : c.user.length < (newData c.newData).2) : userBuf c = none :=
  if_neg (Nat.not_le_of_lt h)

theorem userBuf_some (h : (newData c.newData).2 ≤ c.user.length) :
    userBuf c = some (c.user.take DATA_SLOT_SIZE) :=
  if_pos h

theorem pc_setPc {pc : Pc} : (s.setPc f pc).pc f = pc := by
  simp [State.pc, State.setPc, State.setFilp]

theorem pc_return {r : Int} {pc : Pc} :
    (s.return_ f r pc).pc f = pc ∧ ((s.return_ f r pc).filp f).ret = r := by
  simp [State.pc, State.return_, State.setFilp]

/-- The file is opened as before, and no completion is completed. -/
def SameWrappers (f : FileId) (s s' : State) : Prop :=
  s'.wrapper = s.wrapper ∧ s'.devWrapper f = s.devWrapper f

theorem SameWrappers.msgOf {s' : State} (h : SameWrappers f s s') : s'.msgOf f = s.msgOf f := by
  unfold State.msgOf
  rw [h.1, h.2]

/-- Where the first step goes to. -/
theorem device_write {buf : Option (List UInt8)} {ok : Bool} (hmsg : s.msgOf f = some m) :
    (Mbcdd.mbcddWrite f buf ok s).pc f =
        .writeAdd (if ok then some ⟨s.next, buf.getD (List.replicate DATA_SLOT_SIZE 0)⟩ else none)
          (if buf.isNone then -EFAULT else ssize (newData ok).2) ∧
      SameWrappers f s (Mbcdd.mbcddWrite f buf ok s) ∧
      (Holds s m msg → Holds (Mbcdd.mbcddWrite f buf ok s) m msg) := by
  rw [Mbcdd.mbcddWrite, derefMsg_some hmsg]
  cases ok <;> cases buf <;> refine ⟨pc_setPc, ?_, ?_⟩
  all_goals first
    | exact fun h => h.congr rfl rfl (Nat.le_refl _)
    | exact fun h => h.congr rfl rfl (Nat.le_succ _)
    | exact ⟨rfl, by simp [State.devWrapper, State.setPc, State.setFilp, mbcddNewData]⟩

/-- The data that is to be added, and what is to be returned. -/
theorem step_write (hpc : s.pc f = .idle) (hmode : (s.filp f).accMode = .wronly)
    (hmsg : s.msgOf f = some m) (h : Holds s m msg)
    (hcopy : c.user.length < DATA_SLOT_SIZE → c.user = []) :
    ∃ s' data, step f (.write (userBuf c) c.newData) s = some s' ∧
      s'.pc f = .writeAdd data (mbcddWrite c msg).1.ret ∧ SameWrappers f s s' ∧ Holds s' m msg ∧
      (mbcddWrite c msg).2 = msg.addDataSlot (data.map (·.bytes)) c.newSlot := by
  have hstep : step f (.write (userBuf c) c.newData) s =
      some (Mbcdd.mbcddWrite f (userBuf c) c.newData s) := by
    simp only [step, hpc, hmode, if_true]
  obtain ⟨hpc', hmsg', hholds⟩ := @device_write msg _ _ _ (userBuf c) c.newData hmsg
  have hret : (if (userBuf c).isNone then -EFAULT else ssize (newData c.newData).2) =
      (mbcddWrite c msg).1.ret := by
    show _ = if (newData c.newData).2 - c.user.length ≠ 0 then -EFAULT
      else ssize (newData c.newData).2
    by_cases hlength : c.user.length < (newData c.newData).2
    · rw [userBuf_none hlength, if_pos (Nat.sub_ne_zero_of_lt hlength)]
      rfl
    · have hle := Nat.not_lt.mp hlength
      rw [userBuf_some hle, if_neg (not_not_intro (Nat.sub_eq_zero_of_le hle))]
      rfl
  rw [hret] at hpc'
  refine ⟨_, _, hstep, hpc', hmsg', hholds h, ?_⟩
  cases hdata : c.newData with
  | false =>
    simp [mbcddWrite, newData, hdata]
  | true =>
    rw [mbcddWrite_newData hdata, if_pos rfl, Option.map_some]
    have hfilled : filled c = (userBuf c).getD (List.replicate DATA_SLOT_SIZE 0) := by
      unfold filled
      by_cases hlength : c.user.length < DATA_SLOT_SIZE
      · rw [userBuf_none (by rw [hdata]; exact hlength), hcopy hlength]
        rfl
      · rw [userBuf_some (by rw [hdata]; exact Nat.not_lt.mp hlength),
          Nat.sub_eq_zero_of_le (Nat.not_lt.mp hlength)]
        exact List.append_nil _
    rw [hfilled]

/-- The slot goes to the end, and the cursor stays. -/
theorem Holds.append {s' : State} {x : Addr} {data : Option Data} (h : Holds s m msg)
    (hroot : s'.message m = { s.message m with slotRoot := (s.message m).slotRoot ++ [x] })
    (hslot : ∀ y ∈ (s.message m).slotRoot, s'.slot y = s.slot y) (hdata : (s'.slot x).data = data)
    (hnext : s.next ≤ s'.next) (hx : x < s'.next) :
    Holds s' m (msg.addDataSlot (data.map (·.bytes)) true) where
  slots := by
    have hold : (s.message m).slotRoot.map (fun x => (s'.slot x).data.map (·.bytes)) = msg.slots := by
      rw [← h.slots]
      exact List.map_congr_left fun y hy => by rw [hslot y hy]
    rw [hroot]
    show ((s.message m).slotRoot ++ [x]).map _ = msg.slots ++ [_]
    rw [List.map_append, hold, List.map_singleton, hdata]
  fresh := by
    rw [hroot]
    intro y hy
    obtain hy | hy := List.mem_append.mp hy
    · exact Nat.lt_of_lt_of_le (h.fresh y hy) hnext
    · rwa [List.mem_singleton.mp hy]
  current := by
    rw [hroot]
    show _ = (((s.message m).slotRoot ++ [x]).take msg.read).getLast?
    rw [List.take_append_of_le_length h.read]
    exact h.current
  read := by
    rw [hroot]
    show msg.read ≤ ((s.message m).slotRoot ++ [x]).length
    rw [List.length_append]
    exact Nat.le_add_right_of_le h.read
  busyReader := by rw [hroot]; exact h.busyReader
  finWriter := by rw [hroot]; exact h.finWriter

/-- The slot is added, or there is no memory. -/
theorem step_writeAdd {data : Option Data} {retval : Int} {ok : Bool}
    (hpc : s.pc f = .writeAdd data retval) (hmsg : s.msgOf f = some m) (h : Holds s m msg) :
    ∃ s', step f (.go ok) s = some s' ∧ s'.pc f = .writeBusyReader retval ∧ SameWrappers f s s' ∧
      Holds s' m (msg.addDataSlot (data.map (·.bytes)) ok) := by
  have hstep : step f (.go ok) s = some (writeAdd f data retval ok s) := by
    simp only [step, hpc]
  refine ⟨_, hstep, ?_⟩
  rw [writeAdd, derefMsg_some hmsg]
  cases ok with
  | false =>
    refine ⟨pc_setPc, ⟨rfl, ?_⟩, h.congr rfl rfl (Nat.le_refl _)⟩
    simp [State.devWrapper, State.setPc, State.setFilp, mbcddAddDataSlot]
  | true =>
    refine ⟨pc_setPc, ?_, ?_⟩
    · exact ⟨rfl, by simp [State.devWrapper, State.setPc, State.setFilp, State.setMessage,
        mbcddAddDataSlot]⟩
    · have hfresh : s.next ∉ (s.message m).slotRoot := fun hin => Nat.lt_irrefl _ (h.fresh _ hin)
      refine h.append (Function.update_self ..) (fun y hy => ?_) ?_ (Nat.le_succ _) (Nat.lt_succ_self _)
      · have hne : y ≠ s.next := ne_of_mem_of_not_mem hy hfresh
        exact Function.update_of_ne hne ..
      · show (Function.update s.slot s.next (Slot.mk s.dataSlotId data) s.next).data = data
        rw [Function.update_self]

/-- `complete_all` is not called without a reader, and not on a wrapper but that of the file. -/
theorem step_writeEnd {retval : Int} (hpc : s.pc f = .writeBusyReader retval)
    (hmsg : s.msgOf f = some m) (h : Holds s m msg) :
    ∃ s', (Act.go true :: if msg.busyReader = 1 then [.go true] else []).foldlM
        (fun s a => step f a s) s = some s' ∧
      (s'.pc f = .idle ∧ (s'.filp f).ret = retval) ∧ Holds s' m msg ∧
      ∀ w, (msg.busyReader = 1 → w ≠ s.devWrapper f) → s'.wrapper w = s.wrapper w := by
  have hstep : step f (.go true) s = some (writeBusyReader f retval s) := by
    simp only [step, hpc]
  rw [writeBusyReader, derefMsg_some hmsg] at hstep
  dsimp only at hstep
  rw [h.busyReader] at hstep
  by_cases hbusy : msg.busyReader = 1
  · rw [if_pos hbusy] at hstep ⊢
    set s₁ := State.setPc f (.writeComplete retval) { s with mem := s.derefMem f m } with hs₁
    have hpc₁ : s₁.pc f = .writeComplete retval := pc_setPc
    have hmsg₁ : s₁.msgOf f = some m := by
      simpa [hs₁, State.msgOf, State.devWrapper, State.setPc, State.setFilp] using hmsg
    have hholds : Holds s₁ m msg := h.congr rfl rfl (Nat.le_refl _)
    have hstep₁ : step f (.go true) s₁ = some (writeComplete f retval s₁) := by
      simp only [step, hpc₁]
    rw [List.foldlM_cons, hstep, Option.bind_eq_bind, Option.bind_some, List.foldlM_cons, hstep₁,
      writeComplete, derefMsg_some hmsg₁]
    have hown : s₁.devWrapper f = s.devWrapper f := by
      simp [hs₁, State.devWrapper, State.setPc, State.setFilp]
    refine ⟨_, rfl, pc_return, hholds.congr rfl rfl (Nat.le_refl _), fun w hw => ?_⟩
    exact Function.update_of_ne (hown ▸ hw hbusy) ..
  · rw [if_neg hbusy] at hstep ⊢
    rw [List.foldlM_cons, hstep]
    exact ⟨_, rfl, pc_return, h.congr rfl rfl (Nat.le_refl _), fun _ _ => rfl⟩

/-- The steps of a write that no one comes between are the call. -/
theorem write_steps (hpc : s.pc f = .idle) (hmode : (s.filp f).accMode = .wronly)
    (hmsg : s.msgOf f = some m) (h : Holds s m msg) (hwrapper : c.devWrapper = s.devWrapper f)
    (hcopy : c.user.length < DATA_SLOT_SIZE → c.user = []) :
    ∃ s', (writeActs c msg).foldlM (fun s a => step f a s) s = some s' ∧ s'.pc f = .idle ∧
      (s'.filp f).ret = (mbcddWrite c msg).1.ret ∧ Holds s' m (mbcddWrite c msg).2 ∧
      ∀ w, (mbcddWrite c msg).1.completed ≠ some w → s'.wrapper w = s.wrapper w := by
  obtain ⟨s₁, data, hstep₁, hpc₁, hsame₁, hholds₁, hadd⟩ := step_write hpc hmode hmsg h hcopy
  obtain ⟨s₂, hstep₂, hpc₂, hsame₂, hholds₂⟩ :=
    @step_writeAdd _ _ _ _ _ _ c.newSlot hpc₁ (hsame₁.msgOf.trans hmsg) hholds₁
  obtain ⟨s₃, hend, ⟨hpc₃, hret⟩, hholds₃, hothers⟩ :=
    step_writeEnd hpc₂ (hsame₂.msgOf.trans (hsame₁.msgOf.trans hmsg)) hholds₂
  have hbusy : (msg.addDataSlot (data.map (·.bytes)) c.newSlot).busyReader = msg.busyReader := by
    cases c.newSlot <;> rfl
  refine ⟨s₃, ?_, hpc₃, hret, ?_, fun w hw => ?_⟩
  · rw [hbusy] at hend
    show (Act.write _ _ :: Act.go _ :: Act.go true :: _).foldlM _ s = _
    rw [List.foldlM_cons, hstep₁, Option.bind_eq_bind, Option.bind_some, List.foldlM_cons, hstep₂,
      Option.bind_eq_bind, Option.bind_some]
    exact hend
  · rw [hadd]
    exact hholds₃
  · rw [hothers w ?_, hsame₂.1, hsame₁.1]
    rw [hbusy, hsame₂.2, hsame₁.2, ← hwrapper]
    rintro hone rfl
    exact hw (if_pos hone)

end Transfer

end Mbcdd
