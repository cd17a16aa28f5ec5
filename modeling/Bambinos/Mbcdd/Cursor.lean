import Bambinos.Mbcdd.Handout

/-!
# The slots of a message

`mbcdd_add_data_slot` and `mbcdd_get_data_slot` on one message, with the links of `slot_root` and the
cursor `slot_current`, called by any number of processes. `kmalloc` has always memory.

* `SlotPool`, `serveSlot` — the slots, and what a process does up to the next critical section
* `added`, `returned` — the data of the adds, and of the gets that find a slot
* `SlotOk` — the cursor divides the list into what is returned and what is not
* `slots_fifo` — the gets return the data in the order of the adds, and `NULL` when there is no more
* `ring_addDataSlot`, `ring_getDataSlot` — the lists of the device model are what the links are
-/

namespace Mbcdd

open Infra

/-- `slot_root`, and the `list` of a slot. -/
inductive SlotNode where
  | root
  | slot (a : Addr)
deriving DecidableEq, Repr

/-- What a call has done. -/
inductive SlotEvent (D : Type) where
  | added (d : D)
  | got (r : Option D)
deriving DecidableEq, Repr

/-- The calls on the message, and the next step of the one that is going on. -/
inductive SlotRequest (D : Type) where
  | addDataSlot (a : Addr) (data : D)
  | getDataSlot
  | go
deriving DecidableEq, Repr

/-- `adding` is the call of a process to `mbcdd_add_data_slot`, with the slot and its data. -/
structure SlotPool (D : Type) where
  links : Links SlotNode
  slotCurrent : SlotNode
  allocated : Addr → Bool
  data : Addr → Option D
  adding : ProcId → Option (Addr × D)

section

variable {D : Type}

namespace SlotPool

/-- The message as `mbcdd_new_msg` makes it. -/
def newMsg : SlotPool D where
  links := ⟨fun _ => some .root, fun _ => some .root⟩
  slotCurrent := .root
  allocated _ := false
  data _ := none
  adding _ := none

/-- `mbcdd_add_data_slot` up to the critical section. -/
def prepare (p : ProcId) (a : Addr) (data : D) (s : SlotPool D) : SlotPool D :=
  { s with
    allocated := Function.update s.allocated a true
    data := Function.update s.data a (some data)
    adding := Function.update s.adding p (some (a, data)) }

/-- The critical section of `mbcdd_add_data_slot`. -/
def append (p : ProcId) (a : Addr) (s : SlotPool D) : Option (SlotPool D) := do
  let links ← listAddTail (.slot a) .root s.links
  some { s with links := links, adding := Function.update s.adding p none }

/-- `mbcdd_get_data_slot`. -/
def getDataSlot (s : SlotPool D) : Option (Option D × SlotPool D) := do
  let next ← s.links.next s.slotCurrent
  match next with
  | .root => some (none, s)
  | .slot a => some (s.data a, { s with slotCurrent := next })

end SlotPool

/-- The process may do this now: `kmalloc` returns what is not allocated. -/
def slotEnabled (p : ProcId) (r : SlotRequest D) (s : SlotPool D) : Bool :=
  match s.adding p, r with
  | none, .addDataSlot a _ => !s.allocated a
  | none, .getDataSlot => true
  | some _, .go => true
  | _, _ => false

/-- `none` is a bad pointer. -/
def serveSlot (p : ProcId) (r : SlotRequest D) (s : SlotPool D) :
    Option (List (SlotEvent D) × SlotPool D) :=
  match s.adding p, r with
  | none, .addDataSlot a data => some ([], s.prepare p a data)
  | none, .getDataSlot => s.getDataSlot.map fun r => ([.got r.1], r.2)
  | some (a, data), .go => (s.append p a).map fun s => ([.added data], s)
  | _, _ => some ([], s)

/-- The runs, with what the calls have done so far. -/
inductive SlotRun : List (SlotEvent D) → SlotPool D → Prop
  | newMsg : SlotRun [] .newMsg
  | step {tr es : List (SlotEvent D)} {s s' : SlotPool D} {p : ProcId} {r : SlotRequest D}
    (hrun : SlotRun tr s) (hen : slotEnabled p r s) (hstep : serveSlot p r s = some (es, s')) :
    SlotRun (tr ++ es) s'

/-! ## what is to be returned -/

/-- The data that was added, in that order. -/
def added (tr : List (SlotEvent D)) : List D :=
  tr.filterMap fun
    | .added d => some d
    | .got _ => none

/-- The data that was returned, in that order. -/
def returned (tr : List (SlotEvent D)) : List D :=
  tr.filterMap fun
    | .added _ => none
    | .got r => r

/-- `NULL` is returned exactly when everything is. -/
def NullsOk (tr : List (SlotEvent D)) : Prop :=
  ∀ tr₁ r tr₂, tr = tr₁ ++ .got r :: tr₂ → (r = none ↔ returned tr₁ = added tr₁)

variable {tr tr' : List (SlotEvent D)} {s : SlotPool D} {p : ProcId} {d : D} {r : Option D}

theorem added_append : added (tr ++ tr') = added tr ++ added tr' := List.filterMap_append

theorem returned_append : returned (tr ++ tr') = returned tr ++ returned tr' :=
  List.filterMap_append

theorem NullsOk.added (h : NullsOk tr) : NullsOk (tr ++ [.added d]) := by
  intro tr₁ r tr₂ heq
  obtain rfl | ⟨tr₃, e, rfl⟩ := List.eq_nil_or_concat tr₂
  · have hlast := (List.append_inj' heq rfl).2
    cases hlast
  · rw [List.concat_eq_append, ← List.cons_append, ← List.append_assoc] at heq
    exact h tr₁ r tr₃ (List.append_inj' heq rfl).1

theorem NullsOk.got (h : NullsOk tr) (hr : r = none ↔ returned tr = Mbcdd.added tr) :
    NullsOk (tr ++ [.got r]) := by
  intro tr₁ r' tr₂ heq
  obtain rfl | ⟨tr₃, e, rfl⟩ := List.eq_nil_or_concat tr₂
  · obtain ⟨rfl, hlast⟩ := List.append_inj' heq rfl
    cases hlast
    exact hr
  · rw [List.concat_eq_append, ← List.cons_append, ← List.append_assoc] at heq
    exact h tr₁ r' tr₃ (List.append_inj' heq rfl).1

/-! ## the list and the cursor -/

/-- The slots `ys` are returned, and `zs` are not. -/
structure SlotOk (tr : List (SlotEvent D)) (s : SlotPool D) (ys zs : List Addr) : Prop where
  ring : Ring s.links .root (ys.map .slot ++ zs.map .slot)
  current : s.slotCurrent = (ys.map .slot).getLast?.getD .root
  returned : ys.map s.data = (returned tr).map some
  added : (ys ++ zs).map s.data = (added tr).map some
  nulls : NullsOk tr
  allocated : ∀ a ∈ ys ++ zs, s.allocated a = true
  adding : ∀ p a d, s.adding p = some (a, d) →
    s.allocated a = true ∧ a ∉ ys ++ zs ∧ s.data a = some d
  once : ∀ p q a d d', s.adding p = some (a, d) → s.adding q = some (a, d') → p = q

namespace SlotOk

variable {ys zs : List Addr} {a : Addr}

theorem newMsg : SlotOk ([] : List (SlotEvent D)) .newMsg [] [] where
  ring := ⟨.last rfl rfl, List.nodup_singleton _⟩
  current := rfl
  returned := rfl
  added := rfl
  nulls := by
    intro tr₁ r tr₂ heq
    have hlength := congrArg List.length heq
    simp at hlength
  allocated := fun a ha => absurd ha List.not_mem_nil
  adding := fun p a d h => by cases h
  once := fun p q a d d' h => by cases h

/-- A slot is allocated. -/
theorem prepare (h : SlotOk tr s ys zs) (ha : s.allocated a = false) :
    SlotOk tr (s.prepare p a d) ys zs := by
  have hfresh : ∀ b, s.allocated b = true → b ≠ a := by
    rintro b hb rfl
    rw [ha] at hb
    cases hb
  have hdata : ∀ l : List Addr, (∀ b ∈ l, s.allocated b = true) →
      l.map (s.prepare p a d).data = l.map s.data := fun l hl =>
    List.map_congr_left fun b hb => Function.update_of_ne (hfresh b (hl b hb)) ..
  have hallocated : ∀ b, s.allocated b = true → (s.prepare p a d).allocated b = true :=
    fun b hb => (Function.update_of_ne (hfresh b hb) ..).trans hb
  have hcases : ∀ {q b e}, (s.prepare p a d).adding q = some (b, e) →
      q = p ∧ b = a ∧ e = d ∨ q ≠ p ∧ s.adding q = some (b, e) := by
    intro q b e hq
    by_cases hqp : q = p
    · subst hqp
      have hself : (s.prepare q a d).adding q = some (a, d) := Function.update_self ..
      cases hself.symm.trans hq
      exact .inl ⟨rfl, rfl, rfl⟩
    · exact .inr ⟨hqp, (Function.update_of_ne hqp ..).symm.trans hq⟩
  refine ⟨h.ring, h.current, ?_, ?_, h.nulls, fun b hb => hallocated b (h.allocated b hb), ?_, ?_⟩
  · rw [hdata ys fun b hb => h.allocated b (List.mem_append_left _ hb)]
    exact h.returned
  · rw [hdata _ h.allocated]
    exact h.added
  · intro q b e hq
    obtain ⟨-, rfl, rfl⟩ | ⟨-, hq⟩ := hcases hq
    · exact ⟨Function.update_self .., fun hb => hfresh b (h.allocated b hb) rfl,
        Function.update_self ..⟩
    · obtain ⟨hb, hnotin, hdata⟩ := h.adding q b e hq
      exact ⟨hallocated b hb, hnotin, (Function.update_of_ne (hfresh b hb) ..).trans hdata⟩
  · intro q q' b e e' hq hq'
    obtain ⟨hqp, hb, -⟩ | ⟨-, hq⟩ := hcases hq <;>
      obtain ⟨hqp', hb', -⟩ | ⟨-, hq'⟩ := hcases hq'
    · rw [hqp, hqp']
    · exact absurd hb (hfresh b (h.adding q' b e' hq').1)
    · exact absurd hb' (hfresh b (h.adding q b e hq).1)
    · exact h.once q q' b e e' hq hq'

/-- A slot goes to the end. -/
theorem append (h : SlotOk tr s ys zs) (hadding : s.adding p = some (a, d)) :
    ∃ s', s.append p a = some s' ∧ SlotOk (tr ++ [.added d]) s' ys (zs ++ [a]) := by
  obtain ⟨hallocated, hnotin, hdata⟩ := h.adding p a d hadding
  have hnew : SlotNode.slot a ∉ SlotNode.root :: (ys.map .slot ++ zs.map .slot) := by
    intro hin
    obtain hin | hin := List.mem_cons.mp hin
    · cases hin
    · rw [← List.map_append] at hin
      obtain ⟨b, hb, hba⟩ := List.mem_map.mp hin
      cases hba
      exact hnotin hb
  obtain ⟨links, hadd, hring⟩ := h.ring.addTail hnew
  have hcases : ∀ {q b e}, Function.update s.adding p none q = some (b, e) →
      q ≠ p ∧ s.adding q = some (b, e) := by
    intro q b e hq
    by_cases hqp : q = p
    · subst hqp
      rw [Function.update_self] at hq
      cases hq
    · rw [Function.update_of_ne hqp] at hq
      exact ⟨hqp, hq⟩
  refine ⟨{ s with links := links, adding := Function.update s.adding p none }, ?_, ?_, h.current,
    ?_, ?_, h.nulls.added, ?_, ?_, ?_⟩
  · unfold SlotPool.append
    rw [hadd]
    rfl
  · rw [List.map_append, ← List.append_assoc]
    exact hring
  · rw [returned_append]
    exact h.returned.trans (by rw [List.map_append]; exact (List.append_nil _).symm)
  · rw [added_append, ← List.append_assoc]
    have hnew : [a].map s.data = [d].map some := congrArg (fun x => [x]) hdata
    calc (ys ++ zs ++ [a]).map s.data
      _ = (ys ++ zs).map s.data ++ [a].map s.data := List.map_append
      _ = (Mbcdd.added tr).map some ++ [d].map some := congrArg₂ _ h.added hnew
      _ = (Mbcdd.added tr ++ [d]).map some := List.map_append.symm
  · intro b hb
    rw [← List.append_assoc] at hb
    obtain hb | hb := List.mem_append.mp hb
    · exact h.allocated b hb
    · rw [List.mem_singleton.mp hb]
      exact hallocated
  · intro q b e hq
    obtain ⟨hqp, hq⟩ := hcases hq
    obtain ⟨hb, hnotin', hdata'⟩ := h.adding q b e hq
    refine ⟨hb, fun hin => ?_, hdata'⟩
    rw [← List.append_assoc] at hin
    obtain hin | hin := List.mem_append.mp hin
    · exact hnotin' hin
    · rw [List.mem_singleton.mp hin] at hq
      exact hqp (h.once q p a e d hq hadding)
  · intro q q' b e e' hq hq'
    exact h.once q q' b e e' (hcases hq).2 (hcases hq').2

/-- What the next get returns. -/
theorem getDataSlot (h : SlotOk tr s ys zs) : ∃ s' ys' zs',
    s.getDataSlot = some ((Mbcdd.added tr)[(Mbcdd.returned tr).length]?, s') ∧
      SlotOk (tr ++ [.got (Mbcdd.added tr)[(Mbcdd.returned tr).length]?]) s' ys' zs' := by
  have hlength : ys.length = (Mbcdd.returned tr).length := by
    have := congrArg List.length h.returned
    rwa [List.length_map, List.length_map] at this
  have hget : ((Mbcdd.added tr)[(Mbcdd.returned tr).length]?).map some =
      (zs.head?).map s.data := by
    rw [← List.getElem?_map, ← h.added, List.getElem?_map, ← hlength,
      List.getElem?_append_right (Nat.le_refl _), Nat.sub_self, List.head?_eq_getElem?]
  have hnext := h.ring.seg.next_getLast
  rw [← h.current] at hnext
  have hreturned : ∀ r : Option D, Mbcdd.returned (tr ++ [.got r]) = Mbcdd.returned tr ++ r.toList := by
    intro r
    rw [returned_append]
    cases r <;> rfl
  cases zs with
  | nil =>
    have hnone : (Mbcdd.added tr)[(Mbcdd.returned tr).length]? = none :=
      Option.map_eq_none_iff.mp hget
    have hall : Mbcdd.returned tr = Mbcdd.added tr := by
      have hmap : (Mbcdd.returned tr).map some = (Mbcdd.added tr).map some := by
        rw [← h.returned, ← h.added, List.append_nil]
      exact List.map_injective_iff.mpr (Option.some_injective D) hmap
    refine ⟨s, ys, [], ?_, h.ring, h.current, ?_, ?_, h.nulls.got ?_, h.allocated, h.adding, h.once⟩
    · unfold SlotPool.getDataSlot
      rw [hnext, hnone]
      rfl
    · rw [hnone, hreturned, Option.toList_none, List.append_nil]
      exact h.returned
    · rw [hnone, added_append]
      exact h.added.trans (by rw [List.map_append]; exact (List.append_nil _).symm)
    · exact iff_of_true hnone hall
  | cons a zs =>
    obtain ⟨e, he, hdata⟩ : ∃ e, (Mbcdd.added tr)[(Mbcdd.returned tr).length]? = some e ∧
        s.data a = some e := by
      rw [List.head?_cons, Option.map_some] at hget
      obtain ⟨e, he, hdata⟩ := Option.map_eq_some_iff.mp hget
      exact ⟨e, he, hdata.symm⟩
    have hlist : ys ++ [a] ++ zs = ys ++ a :: zs := by
      rw [List.append_assoc, List.singleton_append]
    have hring : ys.map SlotNode.slot ++ (a :: zs).map SlotNode.slot =
        (ys ++ [a]).map SlotNode.slot ++ zs.map SlotNode.slot := by
      rw [← List.map_append, ← List.map_append, hlist]
    refine ⟨{ s with slotCurrent := .slot a }, ys ++ [a], zs, ?_, ?_, ?_, ?_, ?_, h.nulls.got ?_, ?_,
      ?_, h.once⟩
    · unfold SlotPool.getDataSlot
      rw [hnext, he, ← hdata]
      rfl
    · rw [← hring]
      exact h.ring
    · rw [List.map_append, List.map_singleton, List.getLast?_concat, Option.getD_some]
    · rw [he, hreturned, List.map_append, List.map_append]
      have hnew : [a].map s.data = [some e] := congrArg (fun x => [x]) hdata
      exact congrArg₂ (· ++ ·) h.returned hnew
    · rw [he, added_append, hlist]
      exact h.added.trans (by rw [List.map_append]; exact (List.append_nil _).symm)
    · -- the one that is got is not returned yet
      refine iff_of_false (fun hnone => ?_) fun hall => ?_
      · cases hnone.symm.trans he
      · rw [hall, List.getElem?_eq_none (Nat.le_refl _)] at he
        cases he
    · rw [hlist]
      exact h.allocated
    · rw [hlist]
      exact h.adding

/-- Whatever a process does. -/
theorem serve {q : SlotRequest D} (h : SlotOk tr s ys zs) (hen : slotEnabled p q s) :
    ∃ es s' ys' zs', serveSlot p q s = some (es, s') ∧ SlotOk (tr ++ es) s' ys' zs' := by
  unfold slotEnabled at hen
  unfold serveSlot
  rcases hadding : s.adding p with _ | ⟨a, d⟩
  · rw [hadding] at hen
    cases q with
    | addDataSlot a d =>
      have hfree : s.allocated a = false := by simpa using hen
      refine ⟨[], _, ys, zs, rfl, ?_⟩
      rw [List.append_nil]
      exact h.prepare hfree
    | getDataSlot =>
      obtain ⟨s', ys', zs', hget, hok⟩ := h.getDataSlot
      exact ⟨_, s', ys', zs', by simp only [hget, Option.map_some], hok⟩
    | go => cases hen
  · rw [hadding] at hen
    cases q with
    | addDataSlot => cases hen
    | getDataSlot => cases hen
    | go =>
      obtain ⟨s', happend, hok⟩ := h.append hadding
      exact ⟨_, s', ys, zs ++ [a], by simp only [happend, Option.map_some], hok⟩

end SlotOk

theorem SlotRun.ok (h : SlotRun tr s) : ∃ ys zs, SlotOk tr s ys zs := by
  induction h with
  | newMsg => exact ⟨[], [], .newMsg⟩
  | step _ hen hstep ih =>
    obtain ⟨ys, zs, hok⟩ := ih
    obtain ⟨es, s', ys', zs', hserve, hok'⟩ := hok.serve hen
    cases hserve.symm.trans hstep
    exact ⟨ys', zs', hok'⟩

theorem SlotOk.isPrefix {ys zs : List Addr} (h : SlotOk tr s ys zs) :
    Mbcdd.returned tr <+: Mbcdd.added tr := by
  have hmap : (Mbcdd.returned tr).map some ++ zs.map s.data = (Mbcdd.added tr).map some := by
    rw [← h.returned, ← h.added, List.map_append]
  exact (List.prefix_map_iff_of_injective (Option.some_injective D)).mp ⟨_, hmap⟩

/-- No call meets a bad pointer, the data comes back in the order it was added in, and `NULL` when
everything is back. -/
theorem slots_fifo (h : SlotRun tr s) :
    (∀ (k : ℕ) e, (returned tr)[k]? = some e → (added tr)[k]? = some e) ∧ NullsOk tr ∧
      ∀ p q, slotEnabled p q s → ∃ es s', serveSlot p q s = some (es, s') := by
  obtain ⟨ys, zs, hok⟩ := h.ok
  refine ⟨fun k e hk => ?_, hok.nulls, fun p q hen => ?_⟩
  · obtain ⟨rest, hrest⟩ := hok.isPrefix
    have hlt : k < (returned tr).length := (List.getElem?_eq_some_iff.mp hk).1
    rw [← hrest, List.getElem?_append_left hlt]
    exact hk
  · obtain ⟨es, s', -, -, hserve, -⟩ := hok.serve hen
    exact ⟨es, s', hserve⟩

end

/-- Two processes add, and the second one is first; a get comes before, and one after everything. -/
def twoSlots : List (SlotEvent Nat) :=
  [.got none, .added 3, .got (some 3), .added 5, .got (some 5), .got none]

theorem twoSlots_run : ∃ s, SlotRun twoSlots s := by
  have hget : SlotRun [.got (none : Option Nat)] .newMsg :=
    SlotRun.newMsg.step (p := 2) (r := .getDataSlot) rfl rfl
  have hprepare := (hget.step (p := 0) (r := .addDataSlot 7 5) rfl rfl).step
    (p := 1) (r := .addDataSlot 8 3) rfl rfl
  have hadd := (hprepare.step (p := 1) (r := .go) rfl rfl).step (p := 2) (r := .getDataSlot) rfl rfl
  have hall := ((hadd.step (p := 0) (r := .go) rfl rfl).step (p := 2) (r := .getDataSlot) rfl
    rfl).step (p := 2) (r := .getDataSlot) rfl rfl
  exact ⟨_, hall⟩

theorem slots_fifo_two : ∃ s, SlotRun twoSlots s ∧ returned twoSlots = [3, 5] ∧
    (∀ (k : ℕ) e, (returned twoSlots)[k]? = some e → (added twoSlots)[k]? = some e) ∧
    NullsOk twoSlots ∧ ∀ p q, slotEnabled p q s → ∃ es s', serveSlot p q s = some (es, s') := by
  obtain ⟨s, hrun⟩ := twoSlots_run
  exact ⟨s, hrun, rfl, slots_fifo hrun⟩

/-! ## the slots of the device model -/

section

variable {s : State} {l : Links SlotNode} {m : Addr} {data : Option Data}

/-- Where `slot_current` points to. -/
def SlotNode.current : Option Addr → SlotNode
  | none => .root
  | some c => .slot c

theorem ring_addDataSlot (h : Ring l .root ((s.message m).slotRoot.map .slot))
    (hm : s.next ∉ (s.message m).slotRoot) : ∃ l', listAddTail (.slot s.next) .root l = some l' ∧
      Ring l' .root (((mbcddAddDataSlot m data true s).message m).slotRoot.map .slot) := by
  have hnew : SlotNode.slot s.next ∉ SlotNode.root :: (s.message m).slotRoot.map .slot := by
    simpa using hm
  obtain ⟨l', hadd, hring⟩ := h.addTail hnew
  refine ⟨l', hadd, ?_⟩
  have hroot : ((mbcddAddDataSlot m data true s).message m).slotRoot =
      (s.message m).slotRoot ++ [s.next] := by
    simp [mbcddAddDataSlot, State.setMessage]
  rw [hroot, List.map_append]
  exact hring

/-- The slot behind the cursor is the first one that is not read. -/
theorem ring_getDataSlot (h : Ring l .root ((s.message m).slotRoot.map .slot))
    (hcurrent : ∀ c, (s.message m).slotCurrent = some c → c ∈ (s.message m).slotRoot) :
    l.next (.current (s.message m).slotCurrent) = some (.current (s.message m).unread.head?) := by
  have hhead : ∀ xs : List Addr,
      (xs.map SlotNode.slot).head?.getD SlotNode.root = SlotNode.current xs.head? := by
    intro xs
    cases xs <;> rfl
  unfold Message.unread
  cases hc : (s.message m).slotCurrent with
  | none =>
    have hnext := @Seg.next_getLast _ _ _ _ [] _ h.seg
    rw [hhead] at hnext
    exact hnext
  | some c =>
    obtain ⟨xs, ys, hroot⟩ : ∃ xs ys, (s.message m).slotRoot = xs ++ c :: ys ∧ c ∉ xs :=
      List.eq_append_cons_of_mem (hcurrent c hc)
    have hne : ∀ b ∈ xs, decide (b ≠ c) = true := by
      rintro b hb
      exact decide_eq_true fun hbc => hroot.2 (hbc ▸ hb)
    have hrest : (s.message m).slotRoot.dropWhile (· ≠ c) = c :: ys := by
      rw [hroot.1, List.dropWhile_append_of_pos hne]
      simp
    have hring : Ring l .root ((xs ++ [c]).map .slot ++ ys.map .slot) := by
      rw [← List.map_append, List.append_assoc, List.singleton_append, ← hroot.1]
      exact h
    have hnext := hring.seg.next_getLast
    rw [hhead, List.map_append, List.map_singleton, List.getLast?_concat] at hnext
    simp only [hrest, List.tail_cons]
    exact hnext

end

end Mbcdd
