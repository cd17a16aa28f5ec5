import Bambinos.GeekOS.Threads
import Mathlib.Data.List.Nodup
import Mathlib.Tactic.Tauto

/-!
# What holds of the threads

* `Sound`, `Inv` — what holds of a thread, and of all of them
* `Quiet`, `InPhase` — a change in which no reference is given up
* `Inv.move` — a thread goes from one phase to another
* `Inv.drop` — a reference is given up
-/

namespace GeekOS.Kthread

open Infra

namespace Kernel

variable (k : Kernel)

abbrev Live (a : Addr) : Prop := k.memory.status a = .live

/-- The threads that the reaper has not destroyed yet. -/
def handed : List Addr :=
  (match k.reaper with
    | .disposing threads => threads
    | _ => []) ++ k.graveyardQueue

end Kernel

/-- The thread that `Spawn` or `Join` deals with. -/
def Phase.child : Phase → Option Addr
  | .spawning c | .found c | .joining c | .blocked c => some c
  | _ => none

/-- What holds of a thread. -/
structure Sound (k : Kernel) (a : Addr) : Prop where
  pid_lt : (k.objects a).pid < k.nextFreePid
  handed : a ∈ k.handed ↔ (k.objects a).refCount = 0
  /-- The references are that of the thread to itself and that of its owner. -/
  refs : (k.objects a).refCount = (if .left (k.objects a).pid ∈ k.trace then 0 else 1) +
    (if (k.objects a).owner = none ∨ .released (k.objects a).pid ∈ k.trace then 0 else 1)
  left : .left (k.objects a).pid ∈ k.trace ↔ k.phase a = .gone
  alive : (k.objects a).alive = true ↔ k.phase a ≠ .exiting ∧ k.phase a ≠ .gone
  spawned : (k.objects a).owner ≠ none ↔ .spawned (k.objects a).pid ∈ k.trace
  queue : ∀ p ∈ (k.objects a).joinQueue, k.Live p ∧ k.phase p = .blocked a
  child : ∀ c, (k.phase a).child = some c → k.Live c ∧ (k.objects c).owner = some a ∧
    .released (k.objects c).pid ∉ k.trace
  enabled : (∃ c, k.phase a = .spawning c ∨ k.phase a = .found c) → k.interrupts a = true
  disabled : k.phase a = .exiting ∨ (∃ c, k.phase a = .joining c ∨ k.phase a = .blocked c) →
    k.interrupts a = false

structure Inv (k : Kernel) : Prop where
  list : ∀ a, a ∈ k.allThreadList ↔ k.Live a
  nodup : k.allThreadList.Nodup
  inj : ∀ a b, k.Live a → k.Live b → (k.objects a).pid = (k.objects b).pid → a = b
  events : ∀ e ∈ k.trace, e.pid < k.nextFreePid
  handed_nodup : k.handed.Nodup
  handed_live : ∀ a ∈ k.handed, k.Live a
  sound : ∀ a, k.Live a → Sound k a
  count : ∀ pid, .spawned pid ∈ k.trace → k.trace.count (.handed pid) =
    if .left pid ∈ k.trace ∧ .released pid ∈ k.trace then 1 else 0
  faults : k.memory.faults = [] ↔ ∀ pid, .destroyed pid ∉ k.trace
  /-- What has been freed, or never was allocated, is nowhere in the functions. -/
  idle : ∀ a, ¬ k.Live a → k.phase a = .running ∨ k.phase a = .gone

theorem inv_boot : Inv .boot where
  list a := by
    by_cases ha : a = 0
    · subst ha
      simp [Kernel.boot, Kernel.Live, Ledger.alloc_self]
    · simp [Kernel.boot, Kernel.Live, Ledger.alloc_of_ne ha, ha, Ledger.empty]
  nodup := by simp [Kernel.boot]
  inj a b ha hb _ := by
    have hlive : ∀ a, Kernel.boot.Live a → a = 0 := by
      intro a ha
      by_contra hne
      simp [Kernel.boot, Kernel.Live, Ledger.alloc_of_ne hne, Ledger.empty] at ha
    rw [hlive a ha, hlive b hb]
  events := by simp [Kernel.boot]
  handed_nodup := by simp [Kernel.boot, Kernel.handed]
  handed_live := by simp [Kernel.boot, Kernel.handed]
  sound a _ := by
    constructor <;> simp [Kernel.boot, Kernel.handed, Phase.child]
  count := by simp [Kernel.boot]
  faults := by simp [Kernel.boot, Ledger.empty]
  idle _ _ := .inl rfl

variable {k k' : Kernel} {p a c : Addr}

/-- A thread that is blocked, and only such a one, may be in a queue. -/
theorem Inv.not_queued (h : Inv k) (ha : k.Live a) (hphase : ∀ c, k.phase p ≠ .blocked c) :
    p ∉ (k.objects a).joinQueue := fun hp => hphase a ((h.sound a ha).queue p hp).2

/-- No reference is given up, and no event happens: what is left is to look at the phases. -/
structure Quiet (k k' : Kernel) : Prop where
  memory : k'.memory = k.memory
  list : k'.allThreadList = k.allThreadList
  handed : k'.handed = k.handed
  trace : k'.trace = k.trace
  nextFreePid : k'.nextFreePid = k.nextFreePid
  pid : ∀ b, (k'.objects b).pid = (k.objects b).pid
  owner : ∀ b, (k'.objects b).owner = (k.objects b).owner
  refCount : ∀ b, (k'.objects b).refCount = (k.objects b).refCount
  gone : ∀ b, k.Live b → (k'.phase b = .gone ↔ k.phase b = .gone)
  idle : ∀ b, ¬ k.Live b → k'.phase b = k.phase b

/-- What is to be seen of the phase of a thread. -/
structure InPhase (k : Kernel) (a : Addr) : Prop where
  alive : (k.objects a).alive = true ↔ k.phase a ≠ .exiting ∧ k.phase a ≠ .gone
  queue : ∀ p ∈ (k.objects a).joinQueue, k.Live p ∧ k.phase p = .blocked a
  child : ∀ c, (k.phase a).child = some c → k.Live c ∧ (k.objects c).owner = some a ∧
    .released (k.objects c).pid ∉ k.trace
  enabled : (∃ c, k.phase a = .spawning c ∨ k.phase a = .found c) → k.interrupts a = true
  disabled : k.phase a = .exiting ∨ (∃ c, k.phase a = .joining c ∨ k.phase a = .blocked c) →
    k.interrupts a = false

theorem Quiet.inv (hq : Quiet k k') (h : Inv k) (hphase : ∀ a, k.Live a → InPhase k' a) :
    Inv k' where
  list a := by
    rw [hq.list, Kernel.Live, hq.memory]
    exact h.list a
  nodup := by
    rw [hq.list]
    exact h.nodup
  inj a b ha hb heq := by
    rw [Kernel.Live, hq.memory] at ha hb
    rw [hq.pid, hq.pid] at heq
    exact h.inj a b ha hb heq
  events := by
    rw [hq.trace, hq.nextFreePid]
    exact h.events
  handed_nodup := by
    rw [hq.handed]
    exact h.handed_nodup
  handed_live a ha := by
    rw [hq.handed] at ha
    rw [Kernel.Live, hq.memory]
    exact h.handed_live a ha
  sound a ha := by
    rw [Kernel.Live, hq.memory] at ha
    have hs := h.sound a ha
    have hp := hphase a ha
    refine ⟨?_, ?_, ?_, ?_, hp.alive, ?_, hp.queue, hp.child, hp.enabled, hp.disabled⟩
    · rw [hq.pid, hq.nextFreePid]
      exact hs.pid_lt
    · rw [hq.handed, hq.refCount]
      exact hs.handed
    · rw [hq.refCount, hq.pid, hq.owner, hq.trace]
      exact hs.refs
    · rw [hq.pid, hq.trace, hq.gone a ha]
      exact hs.left
    · rw [hq.owner, hq.pid, hq.trace]
      exact hs.spawned
  count := by
    rw [hq.trace]
    exact h.count
  faults := by
    rw [hq.memory, hq.trace]
    exact h.faults
  idle a ha := by
    rw [Kernel.Live, hq.memory] at ha
    rw [hq.idle a ha]
    exact h.idle a ha

/-- A thread in whose phase nothing has changed. -/
theorem Inv.inPhase (h : Inv k) (ha : k.Live a) (hmemory : k'.memory = k.memory)
    (htrace : k'.trace = k.trace) (hpid : ∀ b, (k'.objects b).pid = (k.objects b).pid)
    (howner : ∀ b, (k'.objects b).owner = (k.objects b).owner)
    (halive : (k'.objects a).alive = (k.objects a).alive)
    (hqueue : ∀ p ∈ (k'.objects a).joinQueue, p ∈ (k.objects a).joinQueue ∧ k'.phase p = k.phase p)
    (hphase : k'.phase a = k.phase a) (hinterrupts : k'.interrupts a = k.interrupts a) :
    InPhase k' a := by
  have hs := h.sound a ha
  refine ⟨?_, ?_, ?_, ?_, ?_⟩
  · rw [halive, hphase]
    exact hs.alive
  · intro p hp
    obtain ⟨hmem, hpp⟩ := hqueue p hp
    rw [Kernel.Live, hmemory, hpp]
    exact hs.queue p hmem
  · intro c hc
    rw [hphase] at hc
    rw [Kernel.Live, hmemory, howner, hpid, htrace]
    exact hs.child c hc
  · intro hc
    rw [hphase] at hc
    rw [hinterrupts]
    exact hs.enabled hc
  · intro hd
    rw [hphase] at hd
    rw [hinterrupts]
    exact hs.disabled hd

/-- The thread `p` goes from one phase to another, and nothing else happens. -/
theorem Inv.move (h : Inv k) (phase : Phase) (enabled : Bool)
    (hp : k.Live p) (hfrom : ∀ c, k.phase p ≠ .blocked c)
    (hgone : k.phase p ≠ .gone ∧ k.phase p ≠ .exiting) (hto : phase ≠ .gone ∧ phase ≠ .exiting)
    (hchild : ∀ c, phase.child = some c → k.Live c ∧ (k.objects c).owner = some p ∧
      .released (k.objects c).pid ∉ k.trace)
    (henabled : (∃ c, phase = .spawning c ∨ phase = .found c) → enabled = true)
    (hdisabled : (∃ c, phase = .joining c ∨ phase = .blocked c) → enabled = false) :
    Inv ((k.setInterrupts p enabled).setPhase p phase) := by
  generalize hk' : (k.setInterrupts p enabled).setPhase p phase = k'
  have hself : k'.phase p = phase := by
    rw [← hk']
    exact Function.update_self ..
  have hother : ∀ b, b ≠ p → k'.phase b = k.phase b := by
    intro b hb
    rw [← hk']
    exact Function.update_of_ne hb ..
  have hint : k'.interrupts p = enabled := by
    rw [← hk']
    exact Function.update_self ..
  have hintother : ∀ b, b ≠ p → k'.interrupts b = k.interrupts b := by
    intro b hb
    rw [← hk']
    exact Function.update_of_ne hb ..
  have hquiet : Quiet k k' := by
    have hgone' : ∀ b, k.Live b → (k'.phase b = .gone ↔ k.phase b = .gone) := by
      intro b _
      by_cases hb : b = p
      · subst hb
        rw [hself]
        exact iff_of_false hto.1 hgone.1
      · rw [hother b hb]
    have hidle : ∀ b, ¬ k.Live b → k'.phase b = k.phase b :=
      fun b hb => hother b fun heq => hb (heq ▸ hp)
    subst hk'
    exact ⟨rfl, rfl, rfl, rfl, rfl, fun _ => rfl, fun _ => rfl, fun _ => rfl, hgone', hidle⟩
  refine hquiet.inv h fun a ha => ?_
  by_cases hap : a = p
  · subst hap
    have hs := h.sound a ha
    have hobject : k'.objects a = k.objects a := by
      rw [← hk']
      rfl
    refine ⟨?_, ?_, ?_, ?_, ?_⟩
    · rw [hobject, hself]
      exact iff_of_true (hs.alive.mpr ⟨hgone.2, hgone.1⟩) ⟨hto.2, hto.1⟩
    · intro q hq
      rw [hobject] at hq
      rw [Kernel.Live, hquiet.memory, hother q fun heq => h.not_queued ha hfrom (heq ▸ hq)]
      exact hs.queue q hq
    · intro c hc
      rw [hself] at hc
      rw [Kernel.Live, hquiet.memory, hquiet.owner, hquiet.pid, hquiet.trace]
      exact hchild c hc
    · intro hc
      rw [hself] at hc
      rw [hint]
      exact henabled hc
    · intro hd
      rw [hself] at hd
      rw [hint]
      rcases hd with hd | hd
      · exact absurd hd hto.2
      · exact hdisabled hd
  · refine h.inPhase ha hquiet.memory hquiet.trace hquiet.pid hquiet.owner ?_ ?_ (hother a hap)
      (hintother a hap)
    · rw [← hk']
      rfl
    · intro q hq
      have hq' : q ∈ (k.objects a).joinQueue := by
        rw [← hk'] at hq
        exact hq
      exact ⟨hq', hother q fun heq => h.not_queued ha hfrom (heq ▸ hq')⟩

/-! ## a reference is given up -/

/-- What `detachThread` does, behind the event `e`. -/
def Kernel.drop (k : Kernel) (a : Addr) (e : Event) : Kernel :=
  let thread := { k.objects a with refCount := (k.objects a).refCount - 1 }
  if thread.refCount = 0 then
    ({ k with
      objects := Function.update k.objects a thread
      graveyardQueue := k.graveyardQueue ++ [a]
      reaper := if k.reaper = Reaper.waiting then Reaper.looking else k.reaper
      trace := .handed thread.pid :: e :: k.trace } : Kernel)
  else
    { k with objects := Function.update k.objects a thread, trace := e :: k.trace }

theorem uses_live {as : List Addr} (h : ∀ a ∈ as, k.Live a) : k.uses as = k := by
  unfold Kernel.uses
  rw [Ledger.uses_live h]

theorem use_live (h : k.Live a) : k.use a = k := by
  unfold Kernel.use
  rw [Ledger.use_live h]

/-- An assertion that holds. -/
theorem kassert_bind {prop : Prop} [Decidable prop] {assertion : Assertion}
    {f : Kernel → Except Assertion Kernel} (h : prop) :
    (k.kassert prop assertion >>= f) = f k := by
  unfold Kernel.kassert
  rw [if_pos h]
  rfl

theorem reapThread_eq (hoff : k.interrupts p = false) (ha : k.Live a)
    (hlive : ∀ b ∈ k.graveyardQueue, k.Live b) (hnot : a ∉ k.graveyardQueue) :
    k.reapThread p a = .ok ({ k with
      graveyardQueue := k.graveyardQueue ++ [a]
      reaper := if k.reaper = Reaper.waiting then Reaper.looking else k.reaper
      trace := .handed (k.objects a).pid :: k.trace } : Kernel) := by
  have huses : k.uses (k.graveyardQueue ++ [a]) = k := by
    refine uses_live fun b hb => ?_
    rcases List.mem_append.mp hb with hb | hb
    · exact hlive b hb
    · obtain rfl := List.mem_singleton.mp hb
      exact ha
  unfold Kernel.reapThread
  rw [kassert_bind hoff, huses, kassert_bind hnot]
  rfl

theorem detachThread_eq {e : Event} (hoff : k.interrupts p = false) (ha : k.Live a)
    (hpos : 0 < (k.objects a).refCount) (hlive : ∀ b ∈ k.graveyardQueue, k.Live b)
    (hnot : a ∉ k.graveyardQueue) :
    (k.happens e).detachThread p a = .ok (k.drop a e) := by
  have huse : (k.happens e).use a = k.happens e := use_live ha
  unfold Kernel.detachThread Kernel.drop
  rw [kassert_bind (show (k.happens e).interrupts p = false from hoff), huse,
    kassert_bind (show 0 < ((k.happens e).objects a).refCount from hpos)]
  dsimp only
  rw [show (k.happens e).objects a = k.objects a from rfl]
  by_cases hzero : (k.objects a).refCount - 1 = 0
  · rw [if_pos hzero, if_pos hzero, reapThread_eq (by exact hoff) (by exact ha) (by exact hlive)
      (by exact hnot)]
    have hself : ∀ t, ((k.happens e).setObject a t).objects a = t :=
      fun t => Function.update_self ..
    rw [hself]
    rfl
  · rw [if_neg hzero, if_neg hzero]
    rfl

/-- How the trace grows when a reference is given up. -/
theorem mem_drop {e e' : Event} : e' ∈ (k.drop a e).trace ↔ e' = e ∨ e' ∈ k.trace ∨
    (k.objects a).refCount = 1 ∧ e' = .handed (k.objects a).pid := by
  unfold Kernel.drop
  dsimp only
  by_cases hzero : (k.objects a).refCount - 1 = 0
  · rw [if_pos hzero, List.mem_cons, List.mem_cons]
    have hone : (k.objects a).refCount = 1 := by omega
    simp only [hone, true_and]
    tauto
  · rw [if_neg hzero, List.mem_cons]
    have hone : (k.objects a).refCount ≠ 1 := by omega
    simp only [hone, false_and, or_false]

theorem mem_handed_drop {e : Event} {b : Addr} : b ∈ (k.drop a e).handed ↔
    b ∈ k.handed ∨ (k.objects a).refCount = 1 ∧ b = a := by
  unfold Kernel.drop Kernel.handed
  dsimp only
  by_cases hzero : (k.objects a).refCount - 1 = 0
  · have hone : (k.objects a).refCount = 1 := by omega
    rw [if_pos hzero]
    cases k.reaper <;> simp [hone, or_assoc]
  · have hone : (k.objects a).refCount ≠ 1 := by omega
    rw [if_neg hzero]
    simp only [hone, false_and, or_false]

theorem nodup_handed_drop {e : Event} (h : k.handed.Nodup) (hnot : a ∉ k.handed) :
    (k.drop a e).handed.Nodup := by
  unfold Kernel.drop
  dsimp only
  split
  · have heq : ∀ (o : Addr → KernelThread) (t : List Event), Kernel.handed { k with
        objects := o
        graveyardQueue := k.graveyardQueue ++ [a]
        reaper := if k.reaper = Reaper.waiting then Reaper.looking else k.reaper
        trace := t } = k.handed ++ [a] := by
      intro o t
      unfold Kernel.handed
      cases k.reaper <;> simp
    rw [heq]
    exact List.nodup_append.mpr ⟨h, List.nodup_singleton a, by
      rintro b hb c hc rfl
      exact hnot (List.mem_singleton.mp hc ▸ hb)⟩
  · exact h

theorem objects_drop {e : Event} (b : Addr) : (k.drop a e).objects b =
    if b = a then { k.objects a with refCount := (k.objects a).refCount - 1 } else k.objects b := by
  unfold Kernel.drop
  dsimp only
  split <;> exact Function.update_apply ..

/-- What does not change. -/
theorem drop_frame {e : Event} : (k.drop a e).memory = k.memory ∧
    (k.drop a e).allThreadList = k.allThreadList ∧ (k.drop a e).nextFreePid = k.nextFreePid ∧
      (k.drop a e).phase = k.phase ∧ (k.drop a e).interrupts = k.interrupts := by
  unfold Kernel.drop
  dsimp only
  split <;> exact ⟨rfl, rfl, rfl, rfl, rfl⟩

theorem count_drop {e : Event} (he : ∀ pid, e ≠ .handed pid) (pid : Nat) :
    (k.drop a e).trace.count (.handed pid) = k.trace.count (.handed pid) +
      if (k.objects a).refCount = 1 ∧ (k.objects a).pid = pid then 1 else 0 := by
  unfold Kernel.drop
  dsimp only
  by_cases hzero : (k.objects a).refCount - 1 = 0
  · have hone : (k.objects a).refCount = 1 := by omega
    rw [if_pos hzero, List.count_cons, List.count_cons_of_ne (he pid)]
    simp [hone]
  · have hone : (k.objects a).refCount ≠ 1 := by omega
    rw [if_neg hzero, List.count_cons_of_ne (he pid), if_neg fun hand => hone hand.1]
    rfl

/-- A reference that is there is given up. -/
theorem Inv.drop (h : Inv k) {e : Event} (ha : k.Live a)
    (he : e = .left (k.objects a).pid ∨
      e = .released (k.objects a).pid ∧ (k.objects a).owner ≠ none) (hnew : e ∉ k.trace)
    {phase : Addr → Phase} (hother : ∀ b, b ≠ a → phase b = k.phase b)
    (hleft : e = .left (k.objects a).pid ∨ .left (k.objects a).pid ∈ k.trace ↔ phase a = .gone)
    (halive : (k.objects a).alive = true ↔ phase a ≠ .exiting ∧ phase a ≠ .gone)
    (hself : phase a = k.phase a ∨ phase a = .gone)
    (hqueue : ∀ p ∈ (k.objects a).joinQueue, p ≠ a)
    (hfrom : ∀ c, k.phase a ≠ .blocked c)
    (hchild : e = .released (k.objects a).pid → ∀ b, k.Live b → (phase b).child ≠ some a) :
    Inv (({ k with phase := phase } : Kernel).drop a e) := by
  obtain ⟨hmemory, hlist, hnext, hphase, hinterrupts⟩ :=
    @drop_frame { k with phase := phase } a e
  have hobjects := @objects_drop { k with phase := phase } a e
  have hhanded : ∀ b, b ∈ (({ k with phase := phase } : Kernel).drop a e).handed ↔
      b ∈ k.handed ∨ (k.objects a).refCount = 1 ∧ b = a := fun b => mem_handed_drop
  have htrace := fun e' => @mem_drop { k with phase := phase } a e e'
  have hs := h.sound a ha
  -- `e` takes the reference away
  have hpos : 0 < (k.objects a).refCount := by
    rw [hs.refs]
    rcases he with rfl | ⟨rfl, howner⟩
    · rw [if_neg hnew]
      split <;> omega
    · rw [if_neg (show ¬ (_ ∨ _) from fun hor => hor.elim howner hnew)]
      split <;> omega
  have hnot : a ∉ k.handed := fun hin => by
    have hzero := hs.handed.mp hin
    omega
  have hepid : e.pid = (k.objects a).pid := by
    rcases he with rfl | ⟨rfl, -⟩ <;> rfl
  have hcount := @count_drop { k with phase := phase } a e (by
    intro pid
    rcases he with rfl | ⟨rfl, -⟩ <;> exact Event.noConfusion)
  have hnodup := @nodup_handed_drop { k with phase := phase } a e h.handed_nodup hnot
  generalize ({ k with phase := phase } : Kernel).drop a e = k' at *
  dsimp only at hmemory hlist hnext hphase hinterrupts hobjects hhanded htrace hcount
  have hlive : ∀ b, k'.Live b ↔ k.Live b := fun b => by rw [Kernel.Live, hmemory]
  have hpid : ∀ b, (k'.objects b).pid = (k.objects b).pid := fun b => by
    rw [hobjects]
    split
    · rename_i heq
      rw [heq]
    · rfl
  have howner : ∀ b, (k'.objects b).owner = (k.objects b).owner := fun b => by
    rw [hobjects]
    split
    · rename_i heq
      rw [heq]
    · rfl
  have hspawned : ∀ pid, .spawned pid ∈ k'.trace ↔ .spawned pid ∈ k.trace := by
    intro pid
    rw [htrace]
    rcases he with rfl | ⟨rfl, -⟩ <;> simp
  have hframe : ∀ b, k.Live b → b ≠ a → ∀ e', e'.pid = (k.objects b).pid →
      (e' ∈ k'.trace ↔ e' ∈ k.trace) := by
    intro b hb hne e' he'
    have hneq : (k.objects b).pid ≠ (k.objects a).pid := fun heq => hne (h.inj b a hb ha heq)
    rw [htrace]
    constructor
    · rintro (rfl | hmem | ⟨-, rfl⟩)
      · exact absurd (he'.symm.trans hepid) hneq
      · exact hmem
      · exact absurd he'.symm hneq
    · exact fun hmem => .inr (.inl hmem)
  refine ⟨?_, ?_, ?_, ?_, hnodup, ?_, ?_, ?_, ?_, ?_⟩
  · intro b
    rw [hlist, hlive]
    exact h.list b
  · rw [hlist]
    exact h.nodup
  · intro b c hb hc heq
    rw [hpid, hpid] at heq
    exact h.inj b c ((hlive b).mp hb) ((hlive c).mp hc) heq
  · intro e' he'
    rw [hnext]
    rcases (htrace e').mp he' with rfl | hmem | ⟨-, rfl⟩
    · rw [hepid]
      exact hs.pid_lt
    · exact h.events e' hmem
    · exact hs.pid_lt
  · intro b hb
    rw [hlive]
    rcases (hhanded b).mp hb with hb | ⟨-, rfl⟩
    · exact h.handed_live b hb
    · exact ha
  · intro b hb
    rw [hlive] at hb
    have hsb := h.sound b hb
    by_cases hne : b = a
    · subst hne
      have hobject : k'.objects b = { k.objects b with refCount := (k.objects b).refCount - 1 } := by
        rw [hobjects, if_pos rfl]
      constructor
      · rw [hpid, hnext]
        exact hs.pid_lt
      · rw [hobject, hhanded]
        simp only [hnot, false_or, and_true]
        omega
      · have hrefs := hs.refs
        rw [hobject]
        simp only [htrace]
        rcases he with rfl | ⟨rfl, hown⟩
        · simp only [hrefs, hnew]
          simp only [if_false, reduceCtorEq, and_false, or_false, false_or, if_true]
          omega
        · simp only [hrefs, hnew, hown]
          simp
      · rw [hpid, htrace, hphase, ← hleft]
        simp [eq_comm]
      · rw [hobject, hphase]
        exact halive
      · rw [howner, hpid, hspawned]
        exact hs.spawned
      · intro q hq
        rw [hobject] at hq
        obtain ⟨hqlive, hqphase⟩ := hs.queue q hq
        rw [hlive, hphase, hother q (hqueue q hq)]
        exact ⟨hqlive, hqphase⟩
      · intro c hc
        rw [hphase] at hc
        have hca : c ≠ b := by
          rintro rfl
          rcases he with rfl | ⟨rfl, -⟩
          · rw [hleft.mp (.inl rfl)] at hc
            cases hc
          · exact hchild rfl c hb hc
        have hckphase : (k.phase b).child = some c := by
          rcases hself with hself | hself
          · rwa [hself] at hc
          · rw [hself] at hc
            cases hc
        obtain ⟨hclive, hcowner, hcrel⟩ := hs.child c hckphase
        rw [hlive, howner, hpid, hframe c hclive hca _ rfl]
        exact ⟨hclive, hcowner, hcrel⟩
      · intro hc
        rw [hphase] at hc
        rw [hinterrupts]
        rcases hself with hself | hself
        · exact hs.enabled (hself ▸ hc)
        · rw [hself] at hc
          rcases hc with ⟨c, hc | hc⟩ <;> cases hc
      · intro hd
        rw [hphase] at hd
        rw [hinterrupts]
        rcases hself with hself | hself
        · exact hs.disabled (hself ▸ hd)
        · rw [hself] at hd
          rcases hd with hd | ⟨c, hd | hd⟩ <;> cases hd
    · have hobject : k'.objects b = k.objects b := by rw [hobjects, if_neg hne]
      have hfr := hframe b hb hne
      constructor
      · rw [hobject, hnext]
        exact hsb.pid_lt
      · rw [hobject, hhanded, hsb.handed]
        simp [hne]
      · simp only [hobject, hsb.refs, hfr (.left _) rfl, hfr (.released _) rfl]
      · rw [hobject, hfr _ rfl, hphase, hother b hne]
        exact hsb.left
      · rw [hobject, hphase, hother b hne]
        exact hsb.alive
      · rw [hobject, hspawned]
        exact hsb.spawned
      · intro q hq
        rw [hobject] at hq
        obtain ⟨hqlive, hqphase⟩ := hsb.queue q hq
        have hqa : q ≠ a := by
          rintro rfl
          exact hfrom b hqphase
        rw [hlive, hphase, hother q hqa]
        exact ⟨hqlive, hqphase⟩
      · intro c hc
        rw [hphase] at hc
        have hca : e = .released (k.objects a).pid → c ≠ a := by
          rintro hrel rfl
          exact hchild hrel b hb hc
        rw [hother b hne] at hc
        obtain ⟨hclive, hcowner, hcrel⟩ := hsb.child c hc
        rw [hlive, howner, hpid]
        refine ⟨hclive, hcowner, ?_⟩
        by_cases hceq : c = a
        · subst hceq
          rw [htrace]
          rcases he with rfl | ⟨rfl, -⟩
          · simpa using hcrel
          · exact absurd rfl (hca rfl)
        · rw [hframe c hclive hceq _ rfl]
          exact hcrel
      · intro hc
        rw [hphase, hother b hne] at hc
        rw [hinterrupts]
        exact hsb.enabled hc
      · intro hd
        rw [hphase, hother b hne] at hd
        rw [hinterrupts]
        exact hsb.disabled hd
  · intro pid hpidmem
    rw [hspawned] at hpidmem
    rw [hcount, h.count pid hpidmem]
    by_cases heq : (k.objects a).pid = pid
    · subst heq
      have howned := hs.spawned.mpr hpidmem
      have hrefs := hs.refs
      simp only [htrace]
      rcases he with rfl | ⟨rfl, -⟩
      · by_cases hrel : Event.released (k.objects a).pid ∈ k.trace
        · simp [hrefs, hnew, hrel]
        · simp [hrefs, hnew, hrel, howned]
      · by_cases hlft : Event.left (k.objects a).pid ∈ k.trace
        · simp [hrefs, hnew, hlft, howned]
        · simp [hrefs, hnew, hlft, howned]
    · simp only [htrace]
      rcases he with rfl | ⟨rfl, -⟩
      · simp [heq, Ne.symm heq]
      · simp [heq, Ne.symm heq]
  · rw [hmemory, h.faults]
    refine forall_congr' fun pid => not_congr ?_
    rw [htrace]
    rcases he with rfl | ⟨rfl, -⟩ <;> simp
  · intro b hb
    rw [hlive] at hb
    rw [hphase, hother b (fun heq => hb (heq ▸ ha))]
    exact h.idle b hb

end GeekOS.Kthread
