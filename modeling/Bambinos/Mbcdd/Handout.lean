import Bambinos.Infra.ListHead
import Bambinos.Mbcdd.Device

/-!
# Handing out messages

`mbcdd_new_msg`, `mbcdd_get_msg` and `mbcdd_del_msg` with the links of `msg_root`, called by any number
of processes. `kmalloc` has always memory and may return the address of what was freed.

* `Pool`, `serve` — the messages, and what a process does up to the next critical section
* `pending` — the messages that are created, not handed out and not deleted
* `PoolOk` — `msg_root` has these, the newest first
* `handed_out_once` — so it is in every run, and no message is handed out twice
* `ring_newMsg`, `ring_getMsg`, `ring_delMsg` — the lists of the device model are what the links are
-/

namespace Mbcdd

open Infra

/-- `msg_root`, and the `list` of a message. -/
inductive Node where
  | root
  | msg (a : Addr)
deriving DecidableEq, Repr

/-- What has become of an address: `mbcdd_new_msg` has the memory, has returned the message, or
`mbcdd_del_msg` was called. -/
inductive Stage where
  | unallocated
  | allocated
  | created
  | deleting
deriving DecidableEq, Repr

abbrev ProcId := Nat

/-- Between the critical sections of a call. -/
inductive Call where
  | none
  | newMsg (a : Addr)
  | delMsg (a : Addr)
deriving DecidableEq, Repr

structure Pool where
  stage : Addr → Stage
  id : Addr → Nat
  links : Links Node
  newMsgId : Nat
  call : ProcId → Call

/-- What a call has done, with the identifier of the message. -/
inductive Event where
  | created (i : Nat)
  | returned (r : Option Nat)
  | deleted (i : Nat)
deriving DecidableEq, Repr

inductive Request where
  | newMsg (a : Addr)
  | getMsg
  | delMsg (a : Addr)
  | go
deriving DecidableEq, Repr

namespace Pool

/-- The list is empty. -/
def boot : Pool where
  stage _ := .unallocated
  id _ := 0
  links := ⟨fun _ => some .root, fun _ => some .root⟩
  newMsgId := 0
  call _ := .none

def setStage (a : Addr) (st : Stage) (s : Pool) : Pool :=
  { s with stage := Function.update s.stage a st }

def setCall (p : ProcId) (c : Call) (s : Pool) : Pool :=
  { s with call := Function.update s.call p c }

/-- The critical section of `mbcdd_new_msg`. -/
def addMsg (a : Addr) (s : Pool) : Option (Event × Pool) := do
  let links ← listAdd (.msg a) .root s.links
  some (.created s.newMsgId, { s with
    id := Function.update s.id a s.newMsgId
    newMsgId := s.newMsgId + 1
    links := links })

/-- `mbcdd_get_msg`. -/
def getMsg (s : Pool) : Option (Event × Pool) :=
  if listEmpty .root s.links then some (.returned none, s)
  else do
    let node ← s.links.next .root
    match node with
    | .root => none
    | .msg a => do
      let links ← listDel (.msg a) s.links
      some (.returned (some (s.id a)), { s with links := links })

/-- The second critical section of `mbcdd_del_msg`. The list has no more nodes than there were
messages. -/
def delMsg (a : Addr) (s : Pool) : Option (Event × Pool) := do
  let found ← listFind (· = .msg a) .root s.links (s.newMsgId + 1)
  let links ← if found.isSome then listDel (.msg a) s.links else some s.links
  some (.deleted (s.id a), { s with links := links }.setStage a .unallocated)

end Pool

/-- The process may do this now: `kmalloc` returns what is not allocated, and `mbcdd_del_msg` is called
once for a message. -/
def enabled (p : ProcId) (r : Request) (s : Pool) : Bool :=
  match s.call p, r with
  | .none, .newMsg a => s.stage a = .unallocated
  | .none, .getMsg => true
  | .none, .delMsg a => s.stage a = .created
  | .newMsg _, .go => true
  | .delMsg _, .go => true
  | _, _ => false

/-- `none` is a bad pointer. -/
def serve (p : ProcId) (r : Request) (s : Pool) : Option (List Event × Pool) :=
  match s.call p, r with
  | .none, .newMsg a => some ([], (s.setStage a .allocated).setCall p (.newMsg a))
  | .none, .getMsg => s.getMsg.map fun r => ([r.1], r.2)
  | .none, .delMsg a => some ([], (s.setStage a .deleting).setCall p (.delMsg a))
  | .newMsg a, .go =>
    s.addMsg a |>.map fun r => ([r.1], (r.2.setStage a .created).setCall p .none)
  | .delMsg a, .go => (s.delMsg a).map fun r => ([r.1], r.2.setCall p .none)
  | _, _ => some ([], s)

/-- The runs, with what the calls have done so far. -/
inductive PoolRun : List Event → Pool → Prop
  | boot : PoolRun [] .boot
  | step {tr es : List Event} {s s' : Pool} {p : ProcId} {r : Request} (hrun : PoolRun tr s)
    (hen : enabled p r s) (hstep : serve p r s = some (es, s')) : PoolRun (tr ++ es) s'

/-! ## what is to be in the list -/

/-- The identifiers of the messages, in the order in which they were created. -/
def created (tr : List Event) : List Nat :=
  tr.filterMap fun
    | .created i => some i
    | _ => none

/-- The messages that are created, but neither handed out nor deleted. -/
def pending (tr : List Event) : List Nat :=
  (created tr).filter fun i => .returned (some i) ∉ tr ∧ .deleted i ∉ tr

/-- `msg_root` has exactly these, the newest first. -/
def Holds (tr : List Event) (s : Pool) : Prop :=
  ∃ xs : List Addr, Ring s.links .root (xs.map .msg) ∧ xs.map s.id = (pending tr).reverse

section

variable {tr : List Event} {i j n : Nat}

theorem mem_pending : i ∈ pending tr ↔
    i ∈ created tr ∧ .returned (some i) ∉ tr ∧ .deleted i ∉ tr := by
  simp [pending, List.mem_filter]

@[simp] theorem created_created : created (tr ++ [.created n]) = created tr ++ [n] := by
  simp [created, List.filterMap_append]

@[simp] theorem created_returned {r : Option Nat} : created (tr ++ [.returned r]) = created tr := by
  simp [created, List.filterMap_append]

@[simp] theorem created_deleted : created (tr ++ [.deleted n]) = created tr := by
  simp [created, List.filterMap_append]

/-- A new message is the newest. -/
theorem pending_created (hret : .returned (some n) ∉ tr) (hdel : .deleted n ∉ tr) :
    pending (tr ++ [.created n]) = pending tr ++ [n] := by
  rw [pending, created_created, List.filter_append]
  congr 1
  · refine List.filter_congr fun i _ => ?_
    simp
  · simp [hret, hdel]

theorem pending_none : pending (tr ++ [.returned none]) = pending tr := by
  simp [pending]

/-- A message that is handed out or deleted is not pending any more. -/
theorem pending_filter {e : Event} (he : e = .returned (some i) ∨ e = .deleted i) :
    pending (tr ++ [e]) = (pending tr).filter (· ≠ i) := by
  have hcreated : created (tr ++ [e]) = created tr := by
    obtain rfl | rfl := he <;> simp
  rw [pending, hcreated, pending, List.filter_filter]
  refine List.filter_congr fun j _ => ?_
  obtain rfl | rfl := he
  · by_cases hij : j = i <;> simp [hij]
  · by_cases hij : j = i <;> simp [hij]

end

/-! ## the invariant -/

/-- The message is there. -/
def Pool.Present (s : Pool) (a : Addr) : Prop := s.stage a = .created ∨ s.stage a = .deleting

/-- The address a call works on, and the stage it is in meanwhile. -/
def Call.use : Call → Option (Addr × Stage)
  | .none => .none
  | .newMsg a => some (a, .allocated)
  | .delMsg a => some (a, .deleting)

/-- No two calls work on the same address. -/
structure CallsOk (s : Pool) : Prop where
  stage : ∀ p a st, (s.call p).use = some (a, st) → s.stage a = st
  inj : ∀ p q a st st', (s.call p).use = some (a, st) → (s.call q).use = some (a, st') → p = q

/-- `xs` is what `msg_root` leads to. -/
structure PoolOk (tr : List Event) (s : Pool) (xs : List Addr) : Prop where
  ring : Ring s.links .root (xs.map .msg)
  ids : xs.map s.id = (pending tr).reverse
  created : created tr = List.range s.newMsgId
  once : ∀ i, tr.count (.returned (some i)) ≤ 1
  returned_lt : ∀ i, .returned (some i) ∈ tr → i < s.newMsgId
  deleted_lt : ∀ i, .deleted i ∈ tr → i < s.newMsgId
  present : ∀ a ∈ xs, s.Present a
  inj : ∀ a b, s.Present a → s.Present b → s.id a = s.id b → a = b
  id_lt : ∀ a, s.Present a → s.id a < s.newMsgId
  calls : CallsOk s

variable {tr : List Event} {s s' : Pool} {xs : List Addr} {p q : ProcId} {a b : Addr} {st : Stage}
  {c : Call}

/-- A call goes on with an address that no other call works on. -/
theorem CallsOk.set (h : CallsOk s) (hfree : ∀ q st, (s.call q).use = some (a, st) → q = p)
    (hc : c.use = none ∨ c.use = some (a, st)) (hstage : s'.stage = Function.update s.stage a st)
    (hcall : s'.call = Function.update s.call p c) : CallsOk s' := by
  have hself : (s'.call p).use = c.use := by rw [hcall, Function.update_self]
  have hother : ∀ q, q ≠ p → s'.call q = s.call q := fun q hq => by
    rw [hcall, Function.update_of_ne hq]
  have ha : ∀ b st', (s'.call p).use = some (b, st') → b = a ∧ st' = st := by
    intro b st' hp
    rw [hself] at hp
    obtain hc | hc := hc
    · rw [hc] at hp
      cases hp
    · rw [hc] at hp
      cases hp
      exact ⟨rfl, rfl⟩
  -- what the other calls work on
  have hne : ∀ q b st', q ≠ p → (s.call q).use = some (b, st') → b ≠ a := by
    rintro q b st' hq huse rfl
    exact hq (hfree q st' huse)
  refine ⟨fun q b st' hq => ?_, fun q r b st' st'' hq hr => ?_⟩
  · by_cases hqp : q = p
    · subst hqp
      obtain ⟨rfl, rfl⟩ := ha b st' hq
      rw [hstage, Function.update_self]
    · rw [hother q hqp] at hq
      rw [hstage, Function.update_of_ne (hne q b st' hqp hq)]
      exact h.stage q b st' hq
  · by_cases hqp : q = p <;> by_cases hrp : r = p
    · rw [hqp, hrp]
    · subst hqp
      rw [hother r hrp] at hr
      exact absurd (ha b st' hq).1 (hne r b st'' hrp hr)
    · subst hrp
      rw [hother q hqp] at hq
      exact absurd (ha b st'' hr).1 (hne q b st' hqp hq)
    · rw [hother q hqp] at hq
      rw [hother r hrp] at hr
      exact h.inj q r b st' st'' hq hr

namespace PoolOk

theorem nodup (h : PoolOk tr s xs) : xs.Nodup := h.ring.nodup.of_cons.of_map

/-- What is pending when `a` has left the list. -/
theorem ids_erase (h : PoolOk tr s xs) (ha : s.Present a) {e : Event}
    (he : e = .returned (some (s.id a)) ∨ e = .deleted (s.id a)) :
    (xs.erase a).map s.id = (pending (tr ++ [e])).reverse := by
  rw [pending_filter he, ← List.filter_reverse, ← h.ids, h.nodup.erase_eq_filter, List.filter_map]
  refine congrArg _ (List.filter_congr fun b hb => ?_)
  by_cases hab : b = a
  · simp [hab]
  · have hid : s.id b ≠ s.id a := fun hid => hab (h.inj b a (h.present b hb) ha hid)
    simp [hab, hid]

theorem map_erase : (xs.map Node.msg).erase (.msg a) = (xs.erase a).map .msg :=
  (List.map_erase (fun _ _ => Node.msg.inj) xs).symm

theorem length_le (h : PoolOk tr s xs) : xs.length ≤ s.newMsgId := by
  have hlen := congrArg List.length h.ids
  rw [List.length_map, List.length_reverse] at hlen
  have hle : (pending tr).length ≤ (Mbcdd.created tr).length := List.length_filter_le ..
  rw [h.created, List.length_range] at hle
  omega

theorem boot : PoolOk [] .boot [] where
  ring := ⟨.last rfl rfl, by simp⟩
  ids := rfl
  created := rfl
  once _ := Nat.zero_le _
  returned_lt _ h := nomatch h
  deleted_lt _ h := nomatch h
  present _ h := nomatch h
  inj _ _ h := h.elim (fun h => nomatch h) fun h => nomatch h
  id_lt _ h := h.elim (fun h => nomatch h) fun h => nomatch h
  calls := ⟨fun _ _ _ h => (nomatch h), fun _ _ _ _ _ h => (nomatch h)⟩

/-- Only a call goes on. -/
theorem quiet (h : PoolOk tr s xs) (hpresent : ∀ b, s'.Present b ↔ s.Present b)
    (hlinks : s'.links = s.links) (hid : s'.id = s.id) (hnew : s'.newMsgId = s.newMsgId)
    (hcalls : CallsOk s') : PoolOk tr s' xs where
  ring := hlinks ▸ h.ring
  ids := hid ▸ h.ids
  created := hnew ▸ h.created
  once := h.once
  returned_lt := hnew ▸ h.returned_lt
  deleted_lt := hnew ▸ h.deleted_lt
  present b hb := (hpresent b).mpr (h.present b hb)
  inj b c hb hc := hid ▸ h.inj b c ((hpresent b).mp hb) ((hpresent c).mp hc)
  id_lt b hb := by
    rw [hid, hnew]
    exact h.id_lt b ((hpresent b).mp hb)
  calls := hcalls

theorem present_setStage (hst : s.Present a ↔ (st = .created ∨ st = .deleting)) :
    ((s.setStage a st).setCall p c).Present b ↔ s.Present b := by
  by_cases hab : b = a
  · subst hab
    rw [hst]
    simp [Pool.Present, Pool.setStage, Pool.setCall]
  · simp [Pool.Present, Pool.setStage, Pool.setCall, hab]

/-! ## the calls -/

theorem newMsg_kmalloc (h : PoolOk tr s xs) (ha : s.stage a = .unallocated) :
    PoolOk tr ((s.setStage a .allocated).setCall p (.newMsg a)) xs := by
  refine h.quiet (fun b => present_setStage ?_) rfl rfl rfl
    (h.calls.set (fun q st hq => ?_) (.inr rfl) rfl rfl)
  · simp [Pool.Present, ha]
  · have hst := ha.symm.trans (h.calls.stage q a st hq)
    cases hc : s.call q <;> rw [hc] at hq <;> cases hq <;> cases hst

theorem delMsg_slots (h : PoolOk tr s xs) (ha : s.stage a = .created) :
    PoolOk tr ((s.setStage a .deleting).setCall p (.delMsg a)) xs := by
  refine h.quiet (fun b => present_setStage ?_) rfl rfl rfl
    (h.calls.set (fun q st hq => ?_) (.inr rfl) rfl rfl)
  · simp [Pool.Present, ha]
  · have hst := ha.symm.trans (h.calls.stage q a st hq)
    cases hc : s.call q <;> rw [hc] at hq <;> cases hq <;> cases hst

/-- The message is added. -/
theorem addMsg (h : PoolOk tr s xs) (hcall : s.call p = .newMsg a) :
    ∃ r, s.addMsg a = some r ∧
      PoolOk (tr ++ [r.1]) ((r.2.setStage a .created).setCall p .none) (a :: xs) := by
  have hst : s.stage a = .allocated := h.calls.stage p a _ (by rw [hcall]; rfl)
  have hnot : ¬ s.Present a := by simp [Pool.Present, hst]
  have hne : ∀ b, s.Present b → b ≠ a := by
    rintro b hb rfl
    exact hnot hb
  have hnotin : Node.msg a ∉ .root :: xs.map Node.msg := by
    simp only [List.mem_cons, reduceCtorEq, List.mem_map, Node.msg.injEq, exists_eq_right, false_or]
    exact fun hin => hnot (h.present a hin)
  obtain ⟨links, hadd, hring⟩ := h.ring.add hnotin
  have hret : .returned (some s.newMsgId) ∉ tr := fun hin => Nat.lt_irrefl _ (h.returned_lt _ hin)
  have hdel : .deleted s.newMsgId ∉ tr := fun hin => Nat.lt_irrefl _ (h.deleted_lt _ hin)
  have heq : s.addMsg a = some (.created s.newMsgId, { s with
      id := Function.update s.id a s.newMsgId
      newMsgId := s.newMsgId + 1
      links := links }) := by
    simp [Pool.addMsg, hadd]
  refine ⟨_, heq, ?_⟩
  generalize hs' : (({ s with
      id := Function.update s.id a s.newMsgId
      newMsgId := s.newMsgId + 1
      links := links } : Pool).setStage a .created).setCall p .none = s'
  have hself : s'.id a = s.newMsgId := by
    rw [← hs']
    exact Function.update_self ..
  have hid : ∀ b, b ≠ a → s'.id b = s.id b := fun b hb => by
    rw [← hs']
    exact Function.update_of_ne hb ..
  have hnew : s'.newMsgId = s.newMsgId + 1 := by rw [← hs']; rfl
  have hpresent : ∀ b, s'.Present b ↔ b = a ∨ s.Present b := by
    intro b
    rw [← hs']
    by_cases hb : b = a
    · subst hb
      simp [Pool.Present, Pool.setStage, Pool.setCall]
    · simp [Pool.Present, Pool.setStage, Pool.setCall, hb]
  refine ⟨by rw [← hs']; exact hring, ?_, ?_, fun i => ?_, fun i hi => ?_, fun i hi => ?_,
    fun b hb => ?_, fun b c hb hc hbc => ?_, fun b hb => ?_, ?_⟩
  · rw [pending_created hret hdel, List.reverse_append, ← h.ids, List.map_cons, hself]
    exact congrArg _ (List.map_congr_left fun b hb => hid b (hne b (h.present b hb)))
  · rw [created_created, h.created, hnew, List.range_succ]
  · rw [List.count_append]
    simpa using h.once i
  · rw [hnew]
    exact Nat.lt_succ_of_lt (h.returned_lt i (by simpa using hi))
  · rw [hnew]
    exact Nat.lt_succ_of_lt (h.deleted_lt i (by simpa using hi))
  · rw [hpresent]
    exact (List.mem_cons.mp hb).imp_right (h.present b)
  · rw [hpresent] at hb hc
    obtain rfl | hb := hb <;> obtain rfl | hc := hc
    · rfl
    · rw [hself, hid c (hne c hc)] at hbc
      exact absurd hbc (Nat.ne_of_gt (h.id_lt c hc))
    · rw [hself, hid b (hne b hb)] at hbc
      exact absurd hbc (Nat.ne_of_lt (h.id_lt b hb))
    · rw [hid b (hne b hb), hid c (hne c hc)] at hbc
      exact h.inj b c hb hc hbc
  · rw [hnew]
    obtain rfl | hb := (hpresent b).mp hb
    · rw [hself]
      exact Nat.lt_succ_self _
    · rw [hid b (hne b hb)]
      exact Nat.lt_succ_of_lt (h.id_lt b hb)
  · rw [← hs']
    refine h.calls.set (fun q st hq => ?_) (.inl rfl) rfl rfl
    exact h.calls.inj q p a st _ hq (by rw [hcall]; rfl)

/-- The message leaves the list, or it is not in it any more. -/
theorem leave (h : PoolOk tr s xs) (ha : s.Present a) {e : Event}
    (he : e = .returned (some (s.id a)) ∧ a ∈ xs ∨ e = .deleted (s.id a))
    (hring : Ring s'.links .root ((xs.erase a).map .msg))
    (hpresent : ∀ b, s'.Present b → s.Present b) (hkeep : ∀ b, b ≠ a → s.Present b → s'.Present b)
    (hid : s'.id = s.id) (hnew : s'.newMsgId = s.newMsgId) (hcalls : CallsOk s') :
    PoolOk (tr ++ [e]) s' (xs.erase a) := by
  have hids := h.ids_erase ha (he.imp_left And.left)
  refine ⟨hring, hid ▸ hids, ?_, fun i => ?_, fun i hi => ?_, fun i hi => ?_, fun b hb => ?_,
    fun b c hb hc => hid ▸ h.inj b c (hpresent b hb) (hpresent c hc), fun b hb => ?_, hcalls⟩
  · rw [hnew, ← h.created]
    obtain ⟨rfl, -⟩ | rfl := he <;> simp
  · rw [List.count_append]
    obtain ⟨rfl, hin⟩ | rfl := he
    · by_cases hi : i = s.id a
      · -- what is pending was not returned
        have hpending : s.id a ∈ pending tr := by
          rw [← List.mem_reverse, ← h.ids]
          exact List.mem_map_of_mem hin
        rw [hi, List.count_eq_zero_of_not_mem (mem_pending.mp hpending).2.1]
        simp
      · simpa [Ne.symm hi] using h.once i
    · simpa using h.once i
  · rw [hnew]
    obtain hi | hi := List.mem_append.mp hi
    · exact h.returned_lt i hi
    · obtain ⟨rfl, -⟩ | rfl := he
      · simp at hi
        exact hi ▸ h.id_lt a ha
      · simp at hi
  · rw [hnew]
    obtain hi | hi := List.mem_append.mp hi
    · exact h.deleted_lt i hi
    · obtain ⟨rfl, -⟩ | rfl := he
      · simp at hi
      · simp at hi
        exact hi ▸ h.id_lt a ha
  · obtain ⟨hne, hb⟩ := (List.Nodup.mem_erase_iff h.nodup).mp hb
    exact hkeep b hne (h.present b hb)
  · rw [hid, hnew]
    exact h.id_lt b (hpresent b hb)

/-- The newest message is handed out, or there is none. -/
theorem getMsg (h : PoolOk tr s xs) : ∃ s', s.getMsg = some (.returned (pending tr).getLast?, s') ∧
    PoolOk (tr ++ [.returned (pending tr).getLast?]) s' xs.tail := by
  rw [← List.head?_reverse, ← h.ids]
  cases xs with
  | nil =>
    have hempty : listEmpty .root s.links := h.ring.empty.mpr rfl
    refine ⟨s, by simp [Pool.getMsg, hempty], h.ring, ?_, ?_, fun i => ?_, fun i hi => ?_,
      fun i hi => ?_, h.present, h.inj, h.id_lt, h.calls⟩
    · rw [List.map_nil, List.head?_nil, pending_none]
      exact h.ids
    · simpa using h.created
    · simpa using h.once i
    · exact h.returned_lt i (by simpa using hi)
    · exact h.deleted_lt i (by simpa using hi)
  | cons a xs =>
    have hempty : listEmpty .root s.links = false := by
      rw [← Bool.not_eq_true, h.ring.empty]
      exact List.cons_ne_nil _ _
    have hnext : s.links.next .root = some (.msg a) := by
      cases h.ring.seg with
      | cons hnext => exact hnext
    obtain ⟨links, hdel, hring⟩ := h.ring.del (List.mem_cons_self (a := Node.msg a))
    refine ⟨{ s with links := links }, by simp [Pool.getMsg, hempty, hnext, hdel], ?_⟩
    have herase : (a :: xs).erase a = xs := List.erase_cons_head ..
    rw [← herase]
    exact h.leave (h.present a List.mem_cons_self) (.inl ⟨rfl, List.mem_cons_self⟩)
      (map_erase ▸ hring) (fun _ hb => hb) (fun _ _ hb => hb) rfl rfl
      ⟨h.calls.stage, h.calls.inj⟩

/-- The message is deleted, wherever it is. -/
theorem delMsg (h : PoolOk tr s xs) (hcall : s.call p = .delMsg a) :
    ∃ r, s.delMsg a = some r ∧ PoolOk (tr ++ [r.1]) (r.2.setCall p .none) (xs.erase a) := by
  have hst : s.stage a = .deleting := h.calls.stage p a _ (by rw [hcall]; rfl)
  have hfind := h.ring.find (p := (· = .msg a)) (n := s.newMsgId + 1)
    (by rw [List.length_map]; exact Nat.lt_succ_of_le h.length_le)
  obtain ⟨links, hlinks, hring⟩ : ∃ links,
      (if (((xs.map Node.msg).find? (· = .msg a)).isSome) then listDel (.msg a) s.links
        else some s.links) = some links ∧ Ring links .root ((xs.erase a).map .msg) := by
    by_cases hin : a ∈ xs
    · have hmem : Node.msg a ∈ xs.map Node.msg := List.mem_map_of_mem hin
      have hsome : ((xs.map Node.msg).find? (· = .msg a)).isSome := by
        rw [List.find?_isSome]
        exact ⟨_, hmem, by simp⟩
      obtain ⟨links, hdel, hring⟩ := h.ring.del hmem
      exact ⟨links, by rw [if_pos hsome, hdel], map_erase ▸ hring⟩
    · have hnone : ((xs.map Node.msg).find? (· = .msg a)).isSome = false := by
        rw [Option.isSome_eq_false_iff, Option.isNone_iff_eq_none, List.find?_eq_none]
        simpa using fun b hb => ne_of_mem_of_not_mem hb hin
      refine ⟨s.links, by rw [hnone]; rfl, ?_⟩
      rw [List.erase_of_not_mem hin]
      exact h.ring
  have heq : s.delMsg a = some (.deleted (s.id a),
      ({ s with links := links } : Pool).setStage a .unallocated) := by
    simp only [Pool.delMsg, hfind, Option.bind_eq_bind, Option.bind_some]
    split at hlinks
    · next hsome =>
      rw [if_pos hsome, hlinks]
      rfl
    · next hnone =>
      rw [if_neg hnone]
      cases hlinks
      rfl
  have hpresent : ∀ b, b ≠ a → ((({ s with links := links } : Pool).setStage a
      .unallocated).setCall p .none).Present b = s.Present b := by
    intro b hb
    simp [Pool.Present, Pool.setStage, Pool.setCall, hb]
  refine ⟨_, heq, h.leave (.inr hst) (.inr rfl) hring (fun b hb => ?_) (fun b hb => ?_) rfl rfl ?_⟩
  · by_cases hab : b = a
    · subst hab
      exact .inr hst
    · rwa [hpresent b hab] at hb
  · rw [hpresent b hb]
    exact id
  · refine h.calls.set (fun q st hq => ?_) (.inl rfl) rfl rfl
    exact h.calls.inj q p a st _ hq (by rw [hcall]; rfl)

/-! ## runs -/

/-- A call never follows a bad pointer, and keeps what is to be kept. -/
theorem serve (h : PoolOk tr s xs) {r : Request} (hen : enabled p r s) :
    ∃ es s' xs', Mbcdd.serve p r s = some (es, s') ∧ PoolOk (tr ++ es) s' xs' ∧
      (r = .getMsg → es = [.returned (pending tr).getLast?]) := by
  cases hcall : s.call p with
  | none =>
    cases r with
    | newMsg a =>
      refine ⟨[], _, xs, by simp only [Mbcdd.serve, hcall]; rfl, ?_, fun h => (nomatch h)⟩
      rw [List.append_nil]
      exact h.newMsg_kmalloc (by simpa [enabled, hcall] using hen)
    | getMsg =>
      obtain ⟨s', hget, hok⟩ := h.getMsg
      exact ⟨_, s', _, by simp only [Mbcdd.serve, hcall, hget]; rfl, hok, fun _ => rfl⟩
    | delMsg a =>
      refine ⟨[], _, xs, by simp only [Mbcdd.serve, hcall]; rfl, ?_, fun h => (nomatch h)⟩
      rw [List.append_nil]
      exact h.delMsg_slots (by simpa [enabled, hcall] using hen)
    | go => simp [enabled, hcall] at hen
  | newMsg a =>
    cases r with
    | go =>
      obtain ⟨⟨e, s'⟩, hadd, hok⟩ := h.addMsg hcall
      exact ⟨_, _, _, by simp only [Mbcdd.serve, hcall, hadd]; rfl, hok, fun h => (nomatch h)⟩
    | _ => simp [enabled, hcall] at hen
  | delMsg a =>
    cases r with
    | go =>
      obtain ⟨⟨e, s'⟩, hdel, hok⟩ := h.delMsg hcall
      exact ⟨_, _, _, by simp only [Mbcdd.serve, hcall, hdel]; rfl, hok, fun h => (nomatch h)⟩
    | _ => simp [enabled, hcall] at hen

theorem run (hrun : PoolRun tr s) : ∃ xs, PoolOk tr s xs := by
  induction hrun with
  | boot => exact ⟨[], boot⟩
  | step _ hen hstep ih =>
    obtain ⟨xs, h⟩ := ih
    obtain ⟨es, s', xs', hserve, hok, -⟩ := h.serve hen
    cases hserve.symm.trans hstep
    exact ⟨xs', hok⟩

end PoolOk

/--
**Handing out.** In every run of any number of processes no message is handed out twice, `msg_root` has
the messages that are created, not handed out and not deleted, the newest first, and every call goes
on; `mbcdd_get_msg` returns the newest of these, and `NULL` when there is none.
-/
theorem handed_out_once {tr : List Event} {s : Pool} (hrun : PoolRun tr s) :
    (created tr).Nodup ∧ (∀ i, tr.count (.returned (some i)) ≤ 1) ∧ Holds tr s ∧
      ∀ p r, enabled p r s → ∃ es s', serve p r s = some (es, s') ∧
        (r = .getMsg → es = [.returned (pending tr).getLast?]) := by
  obtain ⟨xs, h⟩ := PoolOk.run hrun
  refine ⟨h.created ▸ List.nodup_range, h.once, ⟨xs, h.ring, h.ids⟩, fun p r hen => ?_⟩
  obtain ⟨es, s', -, hserve, -, hget⟩ := h.serve hen
  exact ⟨es, s', hserve, hget⟩

/-- The run of the given requests, if each is possible. -/
def serveAll : List (ProcId × Request) → Pool → Option (List Event × Pool)
  | [], s => some ([], s)
  | (p, r) :: l, s =>
    if enabled p r s then
      (serve p r s).bind fun x => (serveAll l x.2).map fun y => (x.1 ++ y.1, y.2)
    else none

theorem serveAll_run : ∀ {l : List (ProcId × Request)} {tr es : List Event} {s s' : Pool},
    PoolRun tr s → serveAll l s = some (es, s') → PoolRun (tr ++ es) s'
  | [], tr, es, s, s', hrun, h => by
    cases h
    rwa [List.append_nil]
  | (p, r) :: l, tr, es, s, s', hrun, h => by
    unfold serveAll at h
    split at h
    · next hen =>
      obtain ⟨⟨es₁, s₁⟩, hserve, hrest⟩ := Option.bind_eq_some_iff.mp h
      obtain ⟨⟨es₂, s₂⟩, hall, heq⟩ := Option.map_eq_some_iff.mp hrest
      cases heq
      rw [← List.append_assoc]
      exact serveAll_run (hrun.step hen hserve) hall
    · cases h

/-- Two processes create a message each; one of them deletes the message that the other one gets. -/
def twoMessages : List (ProcId × Request) :=
  [(0, .newMsg 5), (1, .newMsg 3), (1, .go), (0, .go), (0, .delMsg 5), (1, .getMsg), (0, .go),
    (1, .newMsg 5), (1, .go)]

theorem handed_out_once_twoMessages : ∃ tr s, serveAll twoMessages .boot = some (tr, s) ∧
    pending tr = [0, 2] ∧ (∀ i, tr.count (.returned (some i)) ≤ 1) ∧ Holds tr s := by
  have hsome : ((serveAll twoMessages .boot).any fun r => decide (pending r.1 = [0, 2])) := by
    decide +kernel
  obtain ⟨⟨tr, s⟩, hall, hpending⟩ := (Option.any_eq_true _ _).mp hsome
  obtain ⟨-, honce, hholds, -⟩ := handed_out_once (serveAll_run .boot hall)
  exact ⟨tr, s, hall, of_decide_eq_true hpending, honce, hholds⟩

/-! ## the lists of the device model -/

section

variable {s : State} {l : Links Node} {m : Addr}

theorem ring_newMsg (h : Ring l .root (s.msgRoot.map .msg)) (hm : s.next ∉ s.msgRoot) :
    ∃ l', listAdd (.msg s.next) .root l = some l' ∧
      Ring l' .root ((mbcddNewMsg true s).1.msgRoot.map .msg) :=
  h.add (by simpa using hm)

theorem ring_getMsg {ms : List Addr} (h : Ring l .root (s.msgRoot.map .msg))
    (hroot : s.msgRoot = m :: ms) : (mbcddGetMsg s).2 = some m ∧ ∃ l', listDel (.msg m) l = some l' ∧
      Ring l' .root ((mbcddGetMsg s).1.msgRoot.map .msg) := by
  obtain ⟨l', hdel, hring⟩ := h.del (x := .msg m) (by rw [hroot]; exact List.mem_cons_self)
  rw [PoolOk.map_erase, hroot, List.erase_cons_head] at hring
  simp only [mbcddGetMsg, hroot]
  exact ⟨trivial, l', hdel, hring⟩

theorem ring_delMsg (h : Ring l .root (s.msgRoot.map .msg)) (hm : m ∈ s.msgRoot) :
    ∃ l', listDel (.msg m) l = some l' ∧ Ring l' .root ((mbcddDelMsg m s).msgRoot.map .msg) := by
  obtain ⟨l', hdel, hring⟩ := h.del (List.mem_map_of_mem hm)
  exact ⟨l', hdel, PoolOk.map_erase ▸ hring⟩

end

end Mbcdd
