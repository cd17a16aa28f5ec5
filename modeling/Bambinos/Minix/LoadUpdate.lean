import Bambinos.Minix.Boot
import Mathlib

/-!
# The load average

`load_update` of `clock.c` on the memory of the kernel, in which the ready lists are pointers.

* `Layout`, `Represents` — where the tables are, and that they are in memory
* `follow`, `loadUpdate` — the loops; `rdy_head[q]` is an array, so its address is what is followed
* `LoadOk` — the processes on the ready lists are counted
* `load_update_never` — the address of a list head is followed like that of a process
-/

namespace Minix

/-! ## the memory -/

/-- Where `proc` and `rdy_head` are, how large a `struct proc` is, and where its `p_nextready` is. -/
structure Layout where
  proc : Nat
  procSize : Nat
  nextready : Nat
  rdyHead : Nat
  procSize_pos : 0 < procSize
  rdyHead_pos : 0 < rdyHead
  disjoint : rdyHead + 4 * (NR_SCHED_QUEUES * NR_SCHED_POLICIES) ≤ proc ∨
    proc + procSize * (NR_TASKS + NR_PROCS) ≤ rdyHead

namespace Layout

variable (l : Layout)

/-- `&proc[r]`. -/
def procAt (r : ProcPtr) : Nat := l.proc + l.procSize * r

/-- `&rdy_head[q][p]`. -/
def headAt (q p : Nat) : Nat := l.rdyHead + 4 * (NR_SCHED_POLICIES * q + p)

def pointer : Option ProcPtr → Nat
  | none => 0
  | some r => l.procAt r

end Layout

/-- The pointers at the addresses. -/
abbrev Memory := Nat → Nat

/-- The links and the heads of the lists are in memory. -/
structure Represents (l : Layout) (memory : Memory) (s : Kernel) : Prop where
  next : ∀ r, memory (l.procAt r + l.nextready) = l.pointer (s.proc r).nextready
  head : ∀ q < NR_SCHED_QUEUES, ∀ p < NR_SCHED_POLICIES,
    memory (l.headAt q p) = l.pointer (s.rdyHead (q, p))

/-- A state of the kernel whose ready lists are `lists`, in memory. -/
structure LoadState where
  layout : Layout
  memory : Memory
  kernel : Kernel
  lists : Queue → List ProcPtr
  represents : Represents layout memory kernel
  ready : ReadyLists kernel lists

/-! ## `load_update` -/

def HZ : Nat := 60
def LOAD_UNIT_SECS : Nat := 6
def LOAD_HISTORY : Nat := 150

/-- `struct loadinfo`; the numbers of the history have 16 bits. -/
structure LoadInfo where
  history : Nat → Int
  lastSlot : Nat
  lastClock : Nat

/-- The current slot. -/
def loadSlot (realtime : Nat) : Nat := realtime / HZ / LOAD_UNIT_SECS % LOAD_HISTORY

/-- `for (; p != NIL_PROC; p = p->p_nextready)`: the addresses that are taken for processes. There
are none when the loop does not end in time. -/
def follow (l : Layout) (memory : Memory) : Nat → Nat → Option (List Nat)
  | 0, _ => none
  | fuel + 1, p =>
    if p = 0 then some []
    else (follow l memory fuel (memory (p + l.nextready))).map (p :: ·)

/-- The loop over the queues from number `q` on: `p = rdy_head[q]` is `&rdy_head[q][0]`. -/
def followAll (l : Layout) (memory : Memory) (fuel : Nat) : List Nat → Option (List Nat)
  | [] => some []
  | q :: queues => do
    let followed ← follow l memory fuel (l.headAt q 0)
    return followed ++ (← followAll l memory fuel queues)

/-- `load_update`, and what it follows. -/
def loadUpdate (l : Layout) (memory : Memory) (fuel realtime : Nat) (kloadinfo : LoadInfo) :
    Option (LoadInfo × List Nat) := do
  let slot := loadSlot realtime
  let history :=
    if slot ≠ kloadinfo.lastSlot then Function.update kloadinfo.history slot 0
    else kloadinfo.history
  let followed ← followAll l memory fuel (List.range NR_SCHED_QUEUES)
  let enqueued : Int := -1 + followed.length
  some (⟨Function.update history slot ((history slot + enqueued) % 2 ^ 16), slot, realtime⟩, followed)

/-! ## what is to be counted -/

/-- The processes on all lists. -/
def LoadState.enqueued (st : LoadState) : Nat := (queues.map fun q => (st.lists q).length).sum

/-- The slot gets the number of the ready processes without `IDLE`, and only links of processes are
followed. -/
def LoadOk (st : LoadState) (realtime : Nat) (kloadinfo : LoadInfo) : Prop :=
  ∃ fuel kloadinfo' followed,
    loadUpdate st.layout st.memory fuel realtime kloadinfo = some (kloadinfo', followed) ∧
    kloadinfo'.history (loadSlot realtime) =
      ((if loadSlot realtime ≠ kloadinfo.lastSlot then 0
        else kloadinfo.history (loadSlot realtime)) + (st.enqueued - 1)) % 2 ^ 16 ∧
    ∀ a ∈ followed, ∃ r, a = st.layout.procAt r

variable {l : Layout} {memory : Memory} {fuel q : Nat} {followed : List Nat}

/-- The head of a list is not a process. -/
theorem headAt_ne (hq : q < NR_SCHED_QUEUES) (r : ProcPtr) : l.headAt q 0 ≠ l.procAt r := by
  have hr := r.isLt
  have hlt : l.procSize * r < l.procSize * (NR_TASKS + NR_PROCS) :=
    Nat.mul_lt_mul_of_pos_left hr l.procSize_pos
  have hdisjoint := l.disjoint
  unfold Layout.headAt Layout.procAt
  unfold NR_SCHED_QUEUES NR_SCHED_POLICIES at *
  omega

/-- A list head is what is followed first. -/
theorem follow_head (h : follow l memory fuel (l.headAt q 0) = some followed) :
    l.headAt q 0 ∈ followed := by
  have hpos := l.rdyHead_pos
  cases fuel with
  | zero => cases h
  | succ fuel =>
    rw [follow, if_neg (by unfold Layout.headAt; omega)] at h
    obtain ⟨rest, -, rfl⟩ := Option.map_eq_some_iff.mp h
    exact List.mem_cons_self

theorem followAll_head : ∀ {queues : List Nat} {followed : List Nat},
    followAll l memory fuel queues = some followed → ∀ q ∈ queues, l.headAt q 0 ∈ followed
  | [], _, _, q, hq => by cases hq
  | q₀ :: queues, followed, h, q, hq => by
    obtain ⟨first, hfirst, h⟩ := Option.bind_eq_some_iff.mp h
    obtain ⟨rest, hrest, h⟩ := Option.bind_eq_some_iff.mp h
    cases h
    obtain rfl | hq := List.mem_cons.mp hq
    · exact List.mem_append_left _ (follow_head hfirst)
    · exact List.mem_append_right _ (followAll_head hrest q hq)

/-- Each queue is counted as one process at least. -/
theorem followAll_length : ∀ {queues : List Nat} {followed : List Nat},
    followAll l memory fuel queues = some followed → queues.length ≤ followed.length
  | [], _, h => Nat.zero_le _
  | q :: queues, followed, h => by
    obtain ⟨first, hfirst, h⟩ := Option.bind_eq_some_iff.mp h
    obtain ⟨rest, hrest, h⟩ := Option.bind_eq_some_iff.mp h
    cases h
    have hpos := List.length_pos_of_mem (follow_head hfirst)
    have hle := followAll_length hrest
    rw [List.length_cons, List.length_append]
    omega

theorem loadUpdate_followed {realtime : Nat} {kloadinfo kloadinfo' : LoadInfo}
    (h : loadUpdate l memory fuel realtime kloadinfo = some (kloadinfo', followed)) :
    followAll l memory fuel (List.range NR_SCHED_QUEUES) = some followed := by
  obtain ⟨followed', hfollow, h⟩ := Option.bind_eq_some_iff.mp h
  cases h
  exact hfollow

/-- The heads of the lists are taken for processes. -/
theorem follows_heads {realtime : Nat} {kloadinfo kloadinfo' : LoadInfo}
    (h : loadUpdate l memory fuel realtime kloadinfo = some (kloadinfo', followed)) :
    ¬ ∀ a ∈ followed, ∃ r, a = l.procAt r := by
  intro hall
  have hfirst : 0 < NR_SCHED_QUEUES := by decide
  obtain ⟨r, hr⟩ := hall _
    (followAll_head (loadUpdate_followed h) 0 (List.mem_range.mpr hfirst))
  exact headAt_ne hfirst r hr

/-- Sixteen processes are counted on empty lists, if the loops end at all. -/
theorem sixteen_counted {realtime : Nat} {kloadinfo kloadinfo' : LoadInfo}
    (h : loadUpdate l memory fuel realtime kloadinfo = some (kloadinfo', followed)) :
    NR_SCHED_QUEUES ≤ followed.length := by
  have hle := followAll_length (loadUpdate_followed h)
  rwa [List.length_range] at hle

/--
**The load.** In no state of the ready lists, and wherever the tables are, does `load_update` count
the processes on the lists by their links.
-/
theorem load_update_never (st : LoadState) (realtime : Nat) (kloadinfo : LoadInfo) :
    ¬ LoadOk st realtime kloadinfo := by
  rintro ⟨fuel, kloadinfo', followed, hrun, -, hall⟩
  exact follows_heads hrun hall

/-! ## behind the start -/

/-- What is in memory. -/
def Layout.image (l : Layout) (s : Kernel) : Memory := fun a =>
  match (List.finRange (NR_TASKS + NR_PROCS)).find? fun r => l.procAt r + l.nextready = a with
  | some r => l.pointer (s.proc r).nextready
  | none =>
    match queues.find? fun q => l.headAt q.1.toNat q.2.toNat = a with
    | some q => l.pointer (s.rdyHead q)
    | none => 0

/-- A layout. -/
def someLayout : Layout := ⟨8192, 256, 100, 4096, by decide, by decide, by decide⟩

theorem represents_image (s : Kernel) : Represents someLayout (someLayout.image s) s where
  next r := by
    have hfind : ∀ r, (List.finRange (NR_TASKS + NR_PROCS)).find? (fun r' =>
        someLayout.procAt r' + someLayout.nextready =
          someLayout.procAt r + someLayout.nextready) = some r := by
      decide +kernel
    unfold Layout.image
    rw [hfind]
  head q hq p hp := by
    have hfind : ∀ q < NR_SCHED_QUEUES, ∀ p < NR_SCHED_POLICIES,
        (List.finRange (NR_TASKS + NR_PROCS)).find? (fun r =>
          someLayout.procAt r + someLayout.nextready = someLayout.headAt q p) = none ∧
        queues.find? (fun q' => someLayout.headAt q'.1.toNat q'.2.toNat = someLayout.headAt q p) =
          some ((q : Int), (p : Int)) := by
      decide +kernel
    unfold Layout.image
    rw [(hfind q hq p hp).1]
    dsimp only
    rw [(hfind q hq p hp).2]

/-- 11 processes are ready behind the start, and with `IDLE` taken off 15 are counted. -/
theorem boot_load : ∃ st : LoadState, boot = some st.kernel ∧
    (Finset.univ.filter fun r => (st.kernel.proc r).rtsFlags = ∅).card = 11 ∧
    ((loadUpdate st.layout st.memory 2 0 ⟨fun _ => 0, 0, 0⟩).map fun r => r.1.history 0) = some 15 ∧
    ¬ LoadOk st 0 ⟨fun _ => 0, 0, 0⟩ := by
  have h : boot.any fun s => (Finset.univ.filter fun r => (s.proc r).rtsFlags = ∅).card = 11 ∧
      ((loadUpdate someLayout (someLayout.image s) 2 0 ⟨fun _ => 0, 0, 0⟩).map
        fun r => r.1.history 0) = some 15 := by
    decide +kernel
  obtain ⟨s, hboot, h⟩ := (Option.any_eq_true _ _).mp h
  obtain ⟨hready, hload⟩ := of_decide_eq_true h
  obtain ⟨L, hL, -⟩ := (boot_consistent hboot).runnable
  refine ⟨⟨someLayout, someLayout.image s, s, L, represents_image s, hL⟩, hboot, hready, hload, ?_⟩
  rintro ⟨fuel, kloadinfo', followed, hrun, -, hall⟩
  exact follows_heads hrun hall

end Minix
