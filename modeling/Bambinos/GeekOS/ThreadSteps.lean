import Bambinos.GeekOS.ThreadInvariant

/-!
# The steps of the threads

* `wakeUp_eq`, `spawn_eq`, `destroyThread_eq` — what the functions do where the invariant holds
* `Inv.wake`, `Inv.block`, `Inv.beginExit`, `Inv.created`, `Inv.destroyed` — the invariant is kept
-/

namespace GeekOS.Kthread

open Infra

variable {k k' : Kernel} {p a c : Addr}

/-! ## queues and phases -/

/-- What becomes of the threads in a queue. -/
def Kernel.woken (k : Kernel) (queue : List Addr) (c : Addr) : Kernel :=
  { k with phase := fun q => if q ∈ queue then .joining c else k.phase q }

theorem wakeUp_eq : ∀ (queue : List Addr) {k : Kernel},
    (∀ q ∈ queue, k.Live q ∧ (k.phase q = .blocked c ∨ k.phase q = .joining c)) →
      k.wakeUp queue = k.woken queue c
  | [], k, _ => by
    unfold Kernel.woken
    simp [Kernel.wakeUp]
  | q :: queue, k, h => by
    obtain ⟨hlive, hphase⟩ := h q List.mem_cons_self
    have hstep : k.makeRunnable q = k.setPhase q (.joining c) := by
      unfold Kernel.makeRunnable
      rw [use_live hlive]
      rcases hphase with hphase | hphase
      · rw [hphase]
      · have hsame : Function.update k.phase q (.joining c) = k.phase := by
          rw [← hphase, Function.update_eq_self]
        rw [hphase]
        show k = k.setPhase q (.joining c)
        unfold Kernel.setPhase
        rw [hsame]
    have hset : ∀ r, (k.setPhase q (.joining c)).phase r =
        if r = q then .joining c else k.phase r := fun r => Function.update_apply ..
    have hrest : ∀ r ∈ queue, (k.setPhase q (.joining c)).Live r ∧
        ((k.setPhase q (.joining c)).phase r = .blocked c ∨
          (k.setPhase q (.joining c)).phase r = .joining c) := by
      intro r hr
      refine ⟨(h r (List.mem_cons_of_mem _ hr)).1, ?_⟩
      rw [hset]
      split
      · exact .inr rfl
      · exact (h r (List.mem_cons_of_mem _ hr)).2
    show (k.makeRunnable q).wakeUp queue = _
    rw [hstep, wakeUp_eq queue hrest]
    unfold Kernel.woken
    congr 1
    funext r
    rw [hset]
    by_cases hr : r = q
    · subst hr
      simp
    · simp [hr]

/-- The threads that wait for `p` are woken. -/
theorem Inv.wake (h : Inv k) (hp : k.Live p) : Inv ((k.woken (k.objects p).joinQueue p).setObject p
    { k.objects p with joinQueue := [] }) := by
  generalize hk' : (k.woken (k.objects p).joinQueue p).setObject p
    { k.objects p with joinQueue := [] } = k'
  have hphase : ∀ q, k'.phase q =
      if q ∈ (k.objects p).joinQueue then .joining p else k.phase q := by
    intro q
    rw [← hk']
    rfl
  have hobject : k'.objects p = { k.objects p with joinQueue := [] } := by
    rw [← hk']
    exact Function.update_self ..
  have hother : ∀ b, b ≠ p → k'.objects b = k.objects b := by
    intro b hb
    rw [← hk']
    exact Function.update_of_ne hb ..
  have hint : k'.interrupts = k.interrupts := by
    rw [← hk']
    rfl
  have hqueued := (h.sound p hp).queue
  have hquiet : Quiet k k' := by
    have hkeeps : ∀ b, (k'.objects b).pid = (k.objects b).pid ∧
        (k'.objects b).owner = (k.objects b).owner ∧
          (k'.objects b).refCount = (k.objects b).refCount := by
      intro b
      by_cases hb : b = p
      · subst hb
        rw [hobject]
        exact ⟨rfl, rfl, rfl⟩
      · rw [hother b hb]
        exact ⟨rfl, rfl, rfl⟩
    have hgone : ∀ b, k.Live b → (k'.phase b = .gone ↔ k.phase b = .gone) := by
      intro b _
      rw [hphase]
      split
      · rename_i hb
        rw [(hqueued b hb).2]
        exact iff_of_false Phase.noConfusion Phase.noConfusion
      · rfl
    have hidle : ∀ b, ¬ k.Live b → k'.phase b = k.phase b := by
      intro b hb
      rw [hphase, if_neg fun hin => hb (hqueued b hin).1]
    subst hk'
    exact ⟨rfl, rfl, rfl, rfl, rfl, fun b => (hkeeps b).1, fun b => (hkeeps b).2.1,
      fun b => (hkeeps b).2.2, hgone, hidle⟩
  refine hquiet.inv h fun a ha => ?_
  have hs := h.sound a ha
  have halive : (k'.objects a).alive = (k.objects a).alive := by
    by_cases hap : a = p
    · subst hap
      rw [hobject]
    · rw [hother a hap]
  have hqueue : ∀ q ∈ (k'.objects a).joinQueue, q ∈ (k.objects a).joinQueue ∧
      k'.phase q = k.phase q := by
    intro q hq
    by_cases hap : a = p
    · subst hap
      rw [hobject] at hq
      cases hq
    · rw [hother a hap] at hq
      refine ⟨hq, ?_⟩
      rw [hphase, if_neg]
      intro hin
      have heq := (hqueued q hin).2.symm.trans (hs.queue q hq).2
      exact hap (Phase.blocked.inj heq).symm
  by_cases hwoken : a ∈ (k.objects p).joinQueue
  · have hblocked := (hqueued a hwoken).2
    have hjoining : k'.phase a = .joining p := by rw [hphase, if_pos hwoken]
    refine ⟨?_, ?_, ?_, ?_, ?_⟩
    · rw [halive, hjoining]
      refine iff_of_true (hs.alive.mpr ?_) ⟨Phase.noConfusion, Phase.noConfusion⟩
      rw [hblocked]
      exact ⟨Phase.noConfusion, Phase.noConfusion⟩
    · intro q hq
      obtain ⟨hmem, hqp⟩ := hqueue q hq
      rw [Kernel.Live, hquiet.memory, hqp]
      exact hs.queue q hmem
    · intro c hc
      rw [hjoining] at hc
      rw [Kernel.Live, hquiet.memory, hquiet.owner, hquiet.pid, hquiet.trace]
      exact hs.child c (by rw [hblocked]; exact hc)
    · intro hc
      rw [hjoining] at hc
      rcases hc with ⟨c, hc | hc⟩ <;> cases hc
    · intro _
      rw [hint]
      exact hs.disabled (.inr ⟨p, .inr hblocked⟩)
  · exact h.inPhase ha hquiet.memory hquiet.trace hquiet.pid hquiet.owner halive hqueue
      (by rw [hphase, if_neg hwoken]) (by rw [hint])

/-- A thread goes to the queue of the one that it waits for. -/
theorem Inv.block (h : Inv k) (hp : k.Live p) (hjoining : k.phase p = .joining c) :
    Inv ((k.setObject c { k.objects c with joinQueue := (k.objects c).joinQueue ++ [p] }).setPhase p
      (.blocked c)) := by
  have hcp := (h.sound p hp).child c (by rw [hjoining]; rfl)
  have hfrom : ∀ c, k.phase p ≠ .blocked c := fun c => by
    rw [hjoining]
    exact Phase.noConfusion
  generalize hk' : (k.setObject c { k.objects c with
    joinQueue := (k.objects c).joinQueue ++ [p] }).setPhase p (.blocked c) = k'
  have hself : k'.phase p = .blocked c := by
    rw [← hk']
    exact Function.update_self ..
  have hother : ∀ b, b ≠ p → k'.phase b = k.phase b := by
    intro b hb
    rw [← hk']
    exact Function.update_of_ne hb ..
  have hobject : k'.objects c = { k.objects c with
      joinQueue := (k.objects c).joinQueue ++ [p] } := by
    rw [← hk']
    exact Function.update_self ..
  have hothers : ∀ b, b ≠ c → k'.objects b = k.objects b := by
    intro b hb
    rw [← hk']
    exact Function.update_of_ne hb ..
  have hint : k'.interrupts = k.interrupts := by
    rw [← hk']
    rfl
  have hkeeps : ∀ b, (k'.objects b).pid = (k.objects b).pid ∧
      (k'.objects b).owner = (k.objects b).owner ∧
        (k'.objects b).refCount = (k.objects b).refCount ∧
          (k'.objects b).alive = (k.objects b).alive := by
    intro b
    by_cases hb : b = c
    · subst hb
      rw [hobject]
      exact ⟨rfl, rfl, rfl, rfl⟩
    · rw [hothers b hb]
      exact ⟨rfl, rfl, rfl, rfl⟩
  have hquiet : Quiet k k' := by
    have hgone : ∀ b, k.Live b → (k'.phase b = .gone ↔ k.phase b = .gone) := by
      intro b _
      by_cases hb : b = p
      · subst hb
        rw [hself, hjoining]
        exact iff_of_false Phase.noConfusion Phase.noConfusion
      · rw [hother b hb]
    have hidle : ∀ b, ¬ k.Live b → k'.phase b = k.phase b :=
      fun b hb => hother b fun heq => hb (heq ▸ hp)
    subst hk'
    exact ⟨rfl, rfl, rfl, rfl, rfl, fun b => (hkeeps b).1, fun b => (hkeeps b).2.1,
      fun b => (hkeeps b).2.2.1, hgone, hidle⟩
  refine hquiet.inv h fun a ha => ?_
  have hs := h.sound a ha
  have hqueue : ∀ q ∈ (k'.objects a).joinQueue, k'.Live q ∧ k'.phase q = .blocked a := by
    intro q hq
    rw [Kernel.Live, hquiet.memory]
    have hold : q ∈ (k.objects a).joinQueue → k.Live q ∧ k'.phase q = .blocked a := by
      intro hmem
      rw [hother q fun heq => h.not_queued ha hfrom (heq ▸ hmem)]
      exact hs.queue q hmem
    by_cases hac : a = c
    · subst hac
      rw [hobject] at hq
      rcases List.mem_append.mp hq with hq | hq
      · exact hold hq
      · obtain rfl := List.mem_singleton.mp hq
        exact ⟨hp, hself⟩
    · rw [hothers a hac] at hq
      exact hold hq
  by_cases hap : a = p
  · subst hap
    refine ⟨?_, hqueue, ?_, ?_, ?_⟩
    · rw [(hkeeps a).2.2.2, hself]
      refine iff_of_true (hs.alive.mpr ?_) ⟨Phase.noConfusion, Phase.noConfusion⟩
      rw [hjoining]
      exact ⟨Phase.noConfusion, Phase.noConfusion⟩
    · intro c' hc'
      rw [hself] at hc'
      obtain rfl : c = c' := Option.some.inj hc'
      rw [Kernel.Live, hquiet.memory, hquiet.owner, hquiet.pid, hquiet.trace]
      exact hcp
    · intro hc'
      rw [hself] at hc'
      rcases hc' with ⟨c', hc' | hc'⟩ <;> cases hc'
    · intro _
      rw [hint]
      exact hs.disabled (.inr ⟨c, .inl hjoining⟩)
  · have hin : InPhase k a := ⟨hs.alive, hs.queue, hs.child, hs.enabled, hs.disabled⟩
    refine ⟨?_, hqueue, ?_, ?_, ?_⟩
    · rw [(hkeeps a).2.2.2, hother a hap]
      exact hin.alive
    · intro c' hc'
      rw [hother a hap] at hc'
      rw [Kernel.Live, hquiet.memory, hquiet.owner, hquiet.pid, hquiet.trace]
      exact hin.child c' hc'
    · intro hc'
      rw [hother a hap] at hc'
      rw [hint]
      exact hin.enabled hc'
    · intro hd
      rw [hother a hap] at hd
      rw [hint]
      exact hin.disabled hd

/-- A thread begins to exit. -/
theorem Inv.beginExit (h : Inv k) (hp : k.Live p) (hrunning : k.phase p = .running)
    (exitCode : Int) : Inv (k.beginExit p exitCode) := by
  have hfrom : ∀ c, k.phase p ≠ .blocked c := fun c => by
    rw [hrunning]
    exact Phase.noConfusion
  have hk' : k.beginExit p exitCode = ((k.setInterrupts p false).setObject p
      { k.objects p with exitCode := exitCode, alive := false }).setPhase p .exiting := by
    unfold Kernel.beginExit
    rw [use_live hp]
    rfl
  generalize k.beginExit p exitCode = k' at hk'
  have hself : k'.phase p = .exiting := by
    rw [hk']
    exact Function.update_self ..
  have hother : ∀ b, b ≠ p → k'.phase b = k.phase b := by
    intro b hb
    rw [hk']
    exact Function.update_of_ne hb ..
  have hobject : k'.objects p = { k.objects p with exitCode := exitCode, alive := false } := by
    rw [hk']
    exact Function.update_self ..
  have hothers : ∀ b, b ≠ p → k'.objects b = k.objects b := by
    intro b hb
    rw [hk']
    exact Function.update_of_ne hb ..
  have hint : k'.interrupts p = false := by
    rw [hk']
    exact Function.update_self ..
  have hints : ∀ b, b ≠ p → k'.interrupts b = k.interrupts b := by
    intro b hb
    rw [hk']
    exact Function.update_of_ne hb ..
  have hkeeps : ∀ b, (k'.objects b).pid = (k.objects b).pid ∧
      (k'.objects b).owner = (k.objects b).owner ∧
        (k'.objects b).refCount = (k.objects b).refCount ∧
          (k'.objects b).joinQueue = (k.objects b).joinQueue := by
    intro b
    by_cases hb : b = p
    · subst hb
      rw [hobject]
      exact ⟨rfl, rfl, rfl, rfl⟩
    · rw [hothers b hb]
      exact ⟨rfl, rfl, rfl, rfl⟩
  have hquiet : Quiet k k' := by
    have hgone : ∀ b, k.Live b → (k'.phase b = .gone ↔ k.phase b = .gone) := by
      intro b _
      by_cases hb : b = p
      · subst hb
        rw [hself, hrunning]
        exact iff_of_false Phase.noConfusion Phase.noConfusion
      · rw [hother b hb]
    have hidle : ∀ b, ¬ k.Live b → k'.phase b = k.phase b :=
      fun b hb => hother b fun heq => hb (heq ▸ hp)
    subst hk'
    exact ⟨rfl, rfl, rfl, rfl, rfl, fun b => (hkeeps b).1, fun b => (hkeeps b).2.1,
      fun b => (hkeeps b).2.2.1, hgone, hidle⟩
  refine hquiet.inv h fun a ha => ?_
  have hs := h.sound a ha
  have hqueue : ∀ q ∈ (k'.objects a).joinQueue,
      q ∈ (k.objects a).joinQueue ∧ k'.phase q = k.phase q := by
    intro q hq
    rw [(hkeeps a).2.2.2] at hq
    exact ⟨hq, hother q fun heq => h.not_queued ha hfrom (heq ▸ hq)⟩
  by_cases hap : a = p
  · subst hap
    refine ⟨?_, ?_, ?_, ?_, fun _ => hint⟩
    · rw [hobject, hself]
      exact iff_of_false Bool.false_ne_true fun hand => hand.1 rfl
    · intro q hq
      obtain ⟨hmem, hqp⟩ := hqueue q hq
      rw [Kernel.Live, hquiet.memory, hqp]
      exact hs.queue q hmem
    · intro c hc
      rw [hself] at hc
      cases hc
    · intro hc
      rw [hself] at hc
      rcases hc with ⟨c, hc | hc⟩ <;> cases hc
  · exact h.inPhase ha hquiet.memory hquiet.trace hquiet.pid hquiet.owner
      (by rw [hothers a hap]) hqueue (hother a hap) (hints a hap)

/-- The reaper takes the threads from its queue, or goes to sleep. -/
theorem Inv.takes (h : Inv k) {graveyard : List Addr} {reaper : Reaper}
    (hhanded : Kernel.handed { k with graveyardQueue := graveyard, reaper := reaper } = k.handed) :
    Inv { k with graveyardQueue := graveyard, reaper := reaper } := by
  refine Quiet.inv (k := k) ⟨rfl, rfl, hhanded, rfl, rfl, fun _ => rfl, fun _ => rfl, fun _ => rfl,
    fun _ _ => Iff.rfl, fun _ _ => rfl⟩ h fun a ha => ?_
  exact h.inPhase ha rfl rfl (fun _ => rfl) (fun _ => rfl) rfl (fun q hq => ⟨hq, rfl⟩) rfl rfl

/-! ## threads come and go -/

/-- The new thread of `p` in the page `a`. -/
def Kernel.created (k : Kernel) (p a : Addr) : Kernel :=
  { k with
    memory := k.memory.alloc a
    objects := Function.update k.objects a
      { owner := some p
        refCount := 2
        alive := true
        joinQueue := []
        exitCode := 0
        pid := k.nextFreePid }
    nextFreePid := k.nextFreePid + 1
    allThreadList := k.allThreadList ++ [a]
    trace := .spawned k.nextFreePid :: k.trace
    interrupts := Function.update (Function.update k.interrupts p true) a true
    phase := Function.update (Function.update k.phase a .running) p (.spawning a) }

theorem spawn_eq (h : Inv k) (hp : k.Live p) (hrunning : k.phase p = .running) (ha : ¬ k.Live a) :
    step k (.spawn p a) = some (.ok (k.created p a)) := by
  have hlist : a ∉ k.allThreadList := fun hin => ha ((h.list a).mp hin)
  have hlive : ∀ b ∈ k.allThreadList, (k.memory.alloc a).status b = .live :=
    fun b hb => Ledger.alloc_live ((h.list b).mp hb)
  show (if k.memory.status p = .live ∧ k.phase p = .running ∧ k.memory.status a ≠ .live then
    some _ else none) = _
  rw [if_pos ⟨hp, hrunning, ha⟩]
  unfold Kernel.createThread
  rw [show (k.setInterrupts p true).memory.alloc a = k.memory.alloc a from rfl,
    show (k.setInterrupts p true).allThreadList = k.allThreadList from rfl,
    Ledger.uses_live hlive, kassert_bind hlist]
  rfl

/-- A thread is created, in a page that no thread lies in. -/
theorem Inv.created (h : Inv k) (hp : k.Live p) (hrunning : k.phase p = .running)
    (ha : ¬ k.Live a) : Inv (k.created p a) := by
  have hpa : p ≠ a := fun heq => ha (heq ▸ hp)
  have hnew : ∀ e : Event, e.pid = k.nextFreePid → e ∉ k.trace := fun e he hin => by
    have hlt := h.events e hin
    omega
  have hlive : ∀ b, (k.created p a).Live b ↔ k.Live b ∨ b = a := by
    intro b
    show (k.memory.alloc a).status b = .live ↔ _
    by_cases hb : b = a
    · subst hb
      exact iff_of_true Ledger.alloc_self (.inr rfl)
    · rw [Ledger.alloc_of_ne hb]
      exact ⟨.inl, fun hor => hor.resolve_right hb⟩
  have hself : (k.created p a).objects a = _ := Function.update_self ..
  have hother : ∀ b, b ≠ a → (k.created p a).objects b = k.objects b :=
    fun b hb => Function.update_of_ne hb ..
  have hphasep : (k.created p a).phase p = .spawning a := Function.update_self ..
  have hphasea : (k.created p a).phase a = .running :=
    (Function.update_of_ne hpa.symm ..).trans (Function.update_self ..)
  have hphase : ∀ b, b ≠ p → b ≠ a → (k.created p a).phase b = k.phase b :=
    fun b hb hb' => (Function.update_of_ne hb ..).trans (Function.update_of_ne hb' ..)
  have hint : ∀ b, b ≠ p → b ≠ a → (k.created p a).interrupts b = k.interrupts b :=
    fun b hb hb' => (Function.update_of_ne hb' ..).trans (Function.update_of_ne hb ..)
  have hintp : (k.created p a).interrupts p = true :=
    (Function.update_of_ne hpa ..).trans (Function.update_self ..)
  have htrace : ∀ e, e ∈ (k.created p a).trace ↔ e = .spawned k.nextFreePid ∨ e ∈ k.trace :=
    fun e => List.mem_cons
  have hnext : (k.created p a).nextFreePid = k.nextFreePid + 1 := rfl
  refine ⟨?_, ?_, ?_, ?_, h.handed_nodup, ?_, ?_, ?_, ?_, ?_⟩
  · intro b
    rw [hlive, ← h.list b]
    show b ∈ k.allThreadList ++ [a] ↔ _
    rw [List.mem_append, List.mem_singleton]
  · have hnot : a ∉ k.allThreadList := fun hin => ha ((h.list a).mp hin)
    refine List.nodup_append.mpr ⟨h.nodup, List.pairwise_singleton .., ?_⟩
    rintro b hb c hc rfl
    exact hnot (List.mem_singleton.mp hc ▸ hb)
  · intro b c hb hc heq
    by_cases hba : b = a <;> by_cases hca : c = a
    · rw [hba, hca]
    · subst hba
      rw [hself, hother c hca] at heq
      have hlt := (h.sound c (((hlive c).mp hc).resolve_right hca)).pid_lt
      dsimp only at heq
      omega
    · subst hca
      rw [hself, hother b hba] at heq
      have hlt := (h.sound b (((hlive b).mp hb).resolve_right hba)).pid_lt
      dsimp only at heq
      omega
    · rw [hother b hba, hother c hca] at heq
      exact h.inj b c (((hlive b).mp hb).resolve_right hba) (((hlive c).mp hc).resolve_right hca) heq
  · intro e he
    rw [hnext]
    rcases (htrace e).mp he with rfl | he
    · exact Nat.lt_succ_self _
    · exact Nat.lt_succ_of_lt (h.events e he)
  · intro b hb
    exact (hlive b).mpr (.inl (h.handed_live b hb))
  · intro b hb
    by_cases hba : b = a
    · subst hba
      have hleft := hnew (.left k.nextFreePid) rfl
      have hreleased := hnew (.released k.nextFreePid) rfl
      constructor
      · rw [hself, hnext]
        exact Nat.lt_succ_self _
      · rw [hself]
        exact iff_of_false (fun hin => ha (h.handed_live b hin)) (show ¬ (2 : Int) = 0 by decide)
      · rw [hself]
        simp [htrace, hleft, hreleased]
      · rw [hself, hphasea]
        simp [htrace, hleft]
      · rw [hself, hphasea]
        simp
      · rw [hself]
        simp [htrace]
      · rw [hself]
        exact fun q hq => absurd hq List.not_mem_nil
      · rw [hphasea]
        exact fun c hc => by cases hc
      · rw [hphasea]
        rintro ⟨c, hc | hc⟩ <;> cases hc
      · rw [hphasea]
        rintro (hd | ⟨c, hd | hd⟩) <;> cases hd
    · have hblive := ((hlive b).mp hb).resolve_right hba
      have hs := h.sound b hblive
      have hobject := hother b hba
      have hpid : (k.objects b).pid ≠ k.nextFreePid := by
        have hlt := hs.pid_lt
        omega
      constructor
      · rw [hobject, hnext]
        exact Nat.lt_succ_of_lt hs.pid_lt
      · rw [hobject]
        exact hs.handed
      · rw [hobject, hs.refs]
        simp [htrace]
      · rw [hobject, htrace]
        by_cases hbp : b = p
        · subst hbp
          rw [hphasep]
          have hnl : .left (k.objects b).pid ∉ k.trace := fun hin => by
            have hgone := hs.left.mp hin
            rw [hrunning] at hgone
            cases hgone
          simp [hnl]
        · rw [hphase b hbp hba, ← hs.left]
          simp
      · rw [hobject]
        by_cases hbp : b = p
        · subst hbp
          rw [hphasep]
          refine iff_of_true (hs.alive.mpr ?_) ⟨Phase.noConfusion, Phase.noConfusion⟩
          rw [hrunning]
          exact ⟨Phase.noConfusion, Phase.noConfusion⟩
        · rw [hphase b hbp hba]
          exact hs.alive
      · rw [hobject, htrace, hs.spawned]
        simp [hpid]
      · intro q hq
        rw [hobject] at hq
        obtain ⟨hqlive, hqphase⟩ := hs.queue q hq
        have hqp : q ≠ p := by
          rintro rfl
          rw [hrunning] at hqphase
          cases hqphase
        have hqa : q ≠ a := fun heq => ha (heq ▸ hqlive)
        rw [hphase q hqp hqa]
        exact ⟨(hlive q).mpr (.inl hqlive), hqphase⟩
      · intro c hc
        by_cases hbp : b = p
        · subst hbp
          rw [hphasep] at hc
          obtain rfl : a = c := Option.some.inj hc
          rw [hself]
          refine ⟨(hlive a).mpr (.inr rfl), rfl, ?_⟩
          rw [htrace]
          simp [hnew (.released k.nextFreePid) rfl]
        · rw [hphase b hbp hba] at hc
          obtain ⟨hclive, hcowner, hcrel⟩ := hs.child c hc
          have hca : c ≠ a := fun heq => ha (heq ▸ hclive)
          rw [hother c hca, htrace]
          refine ⟨(hlive c).mpr (.inl hclive), hcowner, ?_⟩
          simp [hcrel]
      · intro hc
        by_cases hbp : b = p
        · subst hbp
          exact hintp
        · rw [hphase b hbp hba] at hc
          rw [hint b hbp hba]
          exact hs.enabled hc
      · intro hd
        by_cases hbp : b = p
        · subst hbp
          rw [hphasep] at hd
          rcases hd with hd | ⟨c, hd | hd⟩ <;> cases hd
        · rw [hphase b hbp hba] at hd
          rw [hint b hbp hba]
          exact hs.disabled hd
  · intro pid hpid
    show (Event.spawned k.nextFreePid :: k.trace).count (.handed pid) = _
    rw [List.count_cons_of_ne Event.noConfusion]
    simp only [htrace, reduceCtorEq, false_or]
    rcases (htrace _).mp hpid with heq | hmem
    · obtain rfl := Event.spawned.inj heq
      rw [List.count_eq_zero.mpr (hnew (.handed k.nextFreePid) rfl),
        if_neg fun hand => hnew (.left k.nextFreePid) rfl hand.1]
    · exact h.count pid hmem
  · show k.memory.faults = [] ↔ _
    rw [h.faults]
    refine forall_congr' fun pid => not_congr ?_
    rw [htrace]
    simp
  · intro b hb
    rw [hlive, not_or] at hb
    rw [hphase b (fun heq => hb.1 (heq ▸ hp)) hb.2]
    exact h.idle b hb.1

/-- `Destroy_Thread` reads the links of the thread when it has been freed. -/
theorem destroyThread_eq (hlist : ∀ a, a ∈ k.allThreadList ↔ k.Live a)
    (hnodup : k.allThreadList.Nodup) (ha : k.Live a) : ∃ memory,
    k.destroyThread a = .ok { k with
      memory := memory
      allThreadList := k.allThreadList.erase a
      trace := .destroyed (k.objects a).pid :: k.trace } ∧
    (∀ b, memory.status b = .live ↔ k.Live b ∧ b ≠ a) ∧ memory.faults ≠ [] := by
  have hin : a ∈ k.allThreadList := (hlist a).mpr ha
  obtain ⟨before, after, hsplit⟩ := List.append_of_mem hin
  rw [hsplit] at hnodup
  have hne : ∀ b ∈ before, decide (b ≠ a) = true := by
    intro b hb
    refine decide_eq_true fun heq => ?_
    exact (List.nodup_append.mp hnodup).2.2 b hb a List.mem_cons_self heq
  have htake : k.allThreadList.takeWhile (· ≠ a) = before := by
    rw [hsplit, List.takeWhile_append_of_pos hne, List.takeWhile_cons_of_neg (by simp),
      List.append_nil]
  have hdrop : k.allThreadList.dropWhile (· ≠ a) = a :: after := by
    rw [hsplit, List.dropWhile_append_of_pos hne, List.dropWhile_cons_of_neg (by simp)]
  have hbefore : (k.memory.free a).uses before = k.memory.free a := by
    refine Ledger.uses_live fun b hb => Ledger.free_live.mpr ?_
    refine ⟨(hlist b).mp ?_, of_decide_eq_true (hne b hb)⟩
    rw [hsplit]
    exact List.mem_append_left _ hb
  refine ⟨(k.memory.free a).uses (a :: after.take 1), ?_, ?_, ?_⟩
  · unfold Kernel.destroyThread Kernel.uses
    dsimp only
    rw [htake, hbefore, kassert_bind hin]
    dsimp only
    rw [hdrop]
    rfl
  · intro b
    rw [Ledger.uses_status]
    exact Ledger.free_live
  · rw [Ledger.uses, List.foldl_cons]
    refine Ledger.faults_uses_of_faults (Ledger.faults_use ?_)
    rw [Ledger.free_self ha]
    exact fun heq => Status.noConfusion heq

/-- A thread is destroyed. -/
theorem Inv.destroyed (h : Inv k) {threads : List Addr} (hreaper : k.reaper = .disposing (a :: threads))
    {memory : Ledger Addr} (hstatus : ∀ b, memory.status b = .live ↔ k.Live b ∧ b ≠ a)
    (hfaults : memory.faults ≠ []) : Inv { k with
      memory := memory
      allThreadList := k.allThreadList.erase a
      reaper := .disposing threads
      trace := .destroyed (k.objects a).pid :: k.trace } := by
  have hhanded : k.handed = a :: (threads ++ k.graveyardQueue) := by
    unfold Kernel.handed
    rw [hreaper]
    rfl
  have hnodup := h.handed_nodup
  rw [hhanded] at hnodup
  have ha : k.Live a := h.handed_live a (by rw [hhanded]; exact List.mem_cons_self)
  have hs := h.sound a ha
  have hzero : (k.objects a).refCount = 0 := hs.handed.mp (by rw [hhanded]; exact List.mem_cons_self)
  -- both references have been given up
  have hgiven : .left (k.objects a).pid ∈ k.trace ∧
      ((k.objects a).owner = none ∨ .released (k.objects a).pid ∈ k.trace) := by
    have hrefs := hs.refs
    rw [hzero] at hrefs
    by_cases hl : .left (k.objects a).pid ∈ k.trace
    · by_cases hr : (k.objects a).owner = none ∨ .released (k.objects a).pid ∈ k.trace
      · exact ⟨hl, hr⟩
      · rw [if_pos hl, if_neg hr] at hrefs
        omega
    · rw [if_neg hl] at hrefs
      split at hrefs <;> omega
  have hgone := hs.left.mp hgiven.1
  generalize hk' : ({ k with
      memory := memory
      allThreadList := k.allThreadList.erase a
      reaper := .disposing threads
      trace := .destroyed (k.objects a).pid :: k.trace } : Kernel) = k'
  have hlive : ∀ b, k'.Live b ↔ k.Live b ∧ b ≠ a := fun b => by
    rw [← hk']
    exact hstatus b
  have htrace : ∀ e, e ∈ k'.trace ↔ e = .destroyed (k.objects a).pid ∨ e ∈ k.trace := fun e => by
    rw [← hk']
    exact List.mem_cons
  have hobjects : k'.objects = k.objects := by
    rw [← hk']
  have hphase : k'.phase = k.phase := by
    rw [← hk']
  have hint : k'.interrupts = k.interrupts := by
    rw [← hk']
  have hhanded' : k'.handed = threads ++ k.graveyardQueue := by
    rw [← hk']
    rfl
  have hnext : k'.nextFreePid = k.nextFreePid := by
    rw [← hk']
  refine ⟨?_, ?_, ?_, ?_, ?_, ?_, ?_, ?_, ?_, ?_⟩
  · intro b
    rw [hlive, ← h.list b, ← hk']
    exact h.nodup.mem_erase_iff.trans and_comm
  · rw [← hk']
    exact h.nodup.erase a
  · intro b c hb hc heq
    rw [hobjects] at heq
    exact h.inj b c ((hlive b).mp hb).1 ((hlive c).mp hc).1 heq
  · intro e he
    rw [hnext]
    rcases (htrace e).mp he with rfl | he
    · exact hs.pid_lt
    · exact h.events e he
  · rw [hhanded']
    exact hnodup.of_cons
  · intro b hb
    rw [hhanded'] at hb
    refine (hlive b).mpr ⟨h.handed_live b (by rw [hhanded]; exact List.mem_cons_of_mem _ hb), ?_⟩
    rintro rfl
    exact (List.nodup_cons.mp hnodup).1 hb
  · intro b hb
    obtain ⟨hblive, hba⟩ := (hlive b).mp hb
    have hsb := h.sound b hblive
    constructor
    · rw [hobjects, hnext]
      exact hsb.pid_lt
    · rw [hobjects, ← hsb.handed, hhanded', hhanded, List.mem_cons]
      exact ⟨.inr, fun hor => hor.resolve_left hba⟩
    · rw [hobjects, hsb.refs]
      simp [htrace]
    · rw [hobjects, hphase, ← hsb.left, htrace]
      simp
    · rw [hobjects, hphase]
      exact hsb.alive
    · rw [hobjects, hsb.spawned, htrace]
      simp
    · intro q hq
      rw [hobjects] at hq
      obtain ⟨hqlive, hqphase⟩ := hsb.queue q hq
      rw [hphase]
      refine ⟨(hlive q).mpr ⟨hqlive, ?_⟩, hqphase⟩
      rintro rfl
      rw [hgone] at hqphase
      cases hqphase
    · intro c hc
      rw [hphase] at hc
      obtain ⟨hclive, hcowner, hcrel⟩ := hsb.child c hc
      rw [hobjects]
      refine ⟨(hlive c).mpr ⟨hclive, ?_⟩, hcowner, ?_⟩
      · rintro rfl
        rcases hgiven.2 with hnone | hrel
        · rw [hnone] at hcowner
          cases hcowner
        · exact hcrel hrel
      · rw [htrace]
        simp [hcrel]
    · intro hc
      rw [hphase] at hc
      rw [hint]
      exact hsb.enabled hc
    · intro hd
      rw [hphase] at hd
      rw [hint]
      exact hsb.disabled hd
  · intro pid hpid
    have hmem : .spawned pid ∈ k.trace := by
      simpa [htrace] using hpid
    have hcount := h.count pid hmem
    rw [← hk']
    show (Event.destroyed (k.objects a).pid :: k.trace).count (.handed pid) = _
    rw [List.count_cons_of_ne Event.noConfusion, hcount]
    simp
  · rw [← hk']
    refine iff_of_false hfaults fun hall => ?_
    exact hall (k.objects a).pid List.mem_cons_self
  · intro b hb
    rw [hphase]
    by_cases hba : b = a
    · subst hba
      exact .inr hgone
    · exact h.idle b fun hbl => hb ((hlive b).mpr ⟨hbl, hba⟩)

end GeekOS.Kthread
