import Bambinos.GeekOS.ThreadSteps

/-!
# The life cycle of a thread

* `First` — the thread that is waited for has not been joined before
* `inv_step` — a step of this kind fails no assertion, and keeps the invariant
* `LifeCycle` — no assertion fails, every thread is handed to the reaper once, when it has left and
  its owner has released it, and no freed thread is accessed
* `life_cycle_iff` — in a run with such waits only, the life cycle is as it is to be up to the accesses
  of `Destroy_Thread` to the thread that it has freed
-/

namespace GeekOS.Kthread

open Infra

variable {k k' : Kernel} {p a c : Addr}

/-- A thread is waited for that has not been joined before. -/
def First (k : Kernel) : Action → Prop
  | .wait p pid => ∀ child, (k.lookupThread p pid).1 = some child → .released pid ∉ k.trace
  | _ => True

/-! ## the system calls -/

theorem lookupIn_eq (pid : Nat) : ∀ {list : List Addr} {k : Kernel}, (∀ a ∈ list, k.Live a) →
    (Kernel.lookupIn p pid list k).2 = k ∧ ∀ c, (Kernel.lookupIn p pid list k).1 = some c →
      c ∈ list ∧ (k.objects c).pid = pid ∧ (k.objects c).owner = some p
  | [], k, _ => ⟨rfl, fun c hc => by cases hc⟩
  | a :: list, k, h => by
    have huse : k.use a = k := use_live (h a List.mem_cons_self)
    unfold Kernel.lookupIn
    rw [huse]
    by_cases hpid : (k.objects a).pid = pid
    · rw [if_pos hpid]
      refine ⟨rfl, fun c hc => ?_⟩
      by_cases howner : (k.objects a).owner = some p
      · rw [if_pos howner] at hc
        obtain rfl : a = c := Option.some.inj hc
        exact ⟨List.mem_cons_self, hpid, howner⟩
      · rw [if_neg howner] at hc
        cases hc
    · rw [if_neg hpid]
      obtain ⟨hk, hfound⟩ := lookupIn_eq pid (fun b hb => h b (List.mem_cons_of_mem _ hb))
      refine ⟨hk, fun c hc => ?_⟩
      obtain ⟨hmem, hrest⟩ := hfound c hc
      exact ⟨List.mem_cons_of_mem _ hmem, hrest⟩

theorem Inv.setEax (h : Inv k) (value : Int) : Inv (k.setEax p value) := by
  refine Quiet.inv (k := k) ⟨rfl, rfl, rfl, rfl, rfl, fun _ => rfl, fun _ => rfl, fun _ => rfl,
    fun _ _ => Iff.rfl, fun _ _ => rfl⟩ h fun a ha => ?_
  exact h.inPhase ha rfl rfl (fun _ => rfl) (fun _ => rfl) rfl (fun q hq => ⟨hq, rfl⟩) rfl rfl

/-- A thread that is somewhere in the functions is live. -/
theorem Inv.live_of_phase (h : Inv k) (hrunning : k.phase p ≠ .running)
    (hgone : k.phase p ≠ .gone) : k.Live p := by
  by_contra hp
  rcases h.idle p hp with hidle | hidle
  · exact hrunning hidle
  · exact hgone hidle

/-- A thread that its owner has not released is live, and its reference is there. -/
theorem Inv.pos (h : Inv k) (hc : k.Live c) (howner : (k.objects c).owner = some p)
    (hrel : .released (k.objects c).pid ∉ k.trace) : 0 < (k.objects c).refCount := by
  have hno : ¬ ((k.objects c).owner = none ∨ .released (k.objects c).pid ∈ k.trace) := by
    rintro (hnone | hmem)
    · rw [howner] at hnone
      cases hnone
    · exact hrel hmem
  rw [(h.sound c hc).refs, if_neg hno]
  split <;> omega

theorem Inv.detach_eq (h : Inv k) {e : Event} (hoff : k.interrupts p = false) (ha : k.Live a)
    (hpos : 0 < (k.objects a).refCount) :
    (k.happens e).detachThread p a = .ok (k.drop a e) := by
  have hgraveyard : ∀ b ∈ k.graveyardQueue, b ∈ k.handed :=
    fun b hb => List.mem_append_right _ hb
  refine detachThread_eq hoff ha hpos (fun b hb => h.handed_live b (hgraveyard b hb)) fun hin => ?_
  have hzero := (h.sound a ha).handed.mp (hgraveyard a hin)
  omega

/-- `Spawn` returns. -/
theorem Inv.returns (h : Inv k) (hphase : k.phase p = .spawning c) (join : Bool) :
    Inv (((k.use c).setEax p (k.objects c).pid).setPhase p
      (if join then .found c else .running)) := by
  have hp : k.Live p := h.live_of_phase (by rw [hphase]; exact Phase.noConfusion)
    (by rw [hphase]; exact Phase.noConfusion)
  have hs := h.sound p hp
  obtain ⟨hclive, hcowner, hcrel⟩ := hs.child c (by rw [hphase]; rfl)
  have hon : k.interrupts p = true := hs.enabled ⟨c, .inl hphase⟩
  rw [use_live hclive]
  have hsame : (k.setEax p (k.objects c).pid).setInterrupts p true =
      k.setEax p (k.objects c).pid := by
    unfold Kernel.setInterrupts Kernel.setEax
    dsimp only
    rw [← hon, Function.update_eq_self]
  have hkept : Inv (k.setEax p (k.objects c).pid) := h.setEax _
  rw [← hsame]
  refine hkept.move _ true hp ?_ ?_ ?_ ?_ (fun _ => rfl) ?_
  · show ∀ c, k.phase p ≠ _
    rw [hphase]
    exact fun _ => Phase.noConfusion
  · show k.phase p ≠ _ ∧ k.phase p ≠ _
    rw [hphase]
    exact ⟨Phase.noConfusion, Phase.noConfusion⟩
  · cases join <;> exact ⟨Phase.noConfusion, Phase.noConfusion⟩
  · intro c' hc'
    cases join with
    | false => cases hc'
    | true =>
      obtain rfl : c = c' := Option.some.inj hc'
      exact ⟨hclive, hcowner, hcrel⟩
  · cases join <;> rintro ⟨c', hc' | hc'⟩ <;> cases hc'

/-- `Sys_Wait` up to `Join`. -/
theorem Inv.wait (h : Inv k) (hp : k.Live p) (hrunning : k.phase p = .running) {pid : Nat}
    (hfirst : First k (.wait p pid)) :
    ∃ k', step k (.wait p pid) = some (.ok k') ∧ Inv k' := by
  obtain ⟨hsame, hfound⟩ := lookupIn_eq (p := p) pid fun a ha => (h.list a).mp ha
  rw [show step k (.wait p pid) = _ from if_pos ⟨hp, hrunning⟩]
  have hpair : k.lookupThread p pid = ((k.lookupThread p pid).1, k) := Prod.ext rfl hsame
  cases hlookup : (k.lookupThread p pid).1 with
  | none =>
    rw [hpair, hlookup]
    exact ⟨_, rfl, h.setEax _⟩
  | some child =>
    obtain ⟨hmem, hpid, howner⟩ := hfound child hlookup
    have hrel := hfirst child hlookup
    rw [hpair, hlookup]
    refine ⟨_, rfl, h.move _ true hp ?_ ?_ ⟨Phase.noConfusion, Phase.noConfusion⟩ ?_ (fun _ => rfl) ?_⟩
    · rw [hrunning]
      exact fun _ => Phase.noConfusion
    · rw [hrunning]
      exact ⟨Phase.noConfusion, Phase.noConfusion⟩
    · intro c hc
      obtain rfl : child = c := Option.some.inj hc
      rw [hpid]
      exact ⟨(h.list child).mp hmem, howner, hrel⟩
    · rintro ⟨c, hc | hc⟩ <;> cases hc

/-- `Join` up to its loop. -/
theorem Inv.enterJoin (h : Inv k) (hphase : k.phase p = .found c) :
    ∃ k', k.enterJoin p c = .ok k' ∧ Inv k' := by
  have hp : k.Live p := h.live_of_phase (by rw [hphase]; exact Phase.noConfusion)
    (by rw [hphase]; exact Phase.noConfusion)
  have hs := h.sound p hp
  obtain ⟨hclive, hcowner, hcrel⟩ := hs.child c (by rw [hphase]; rfl)
  refine ⟨(k.setInterrupts p false).setPhase p (.joining c), ?_, ?_⟩
  · unfold Kernel.enterJoin
    rw [kassert_bind (hs.enabled ⟨c, .inr hphase⟩), use_live hclive, kassert_bind hcowner]
    rfl
  · refine h.move _ false hp ?_ ?_ ⟨Phase.noConfusion, Phase.noConfusion⟩ ?_ ?_ (fun _ => rfl)
    · rw [hphase]
      exact fun _ => Phase.noConfusion
    · rw [hphase]
      exact ⟨Phase.noConfusion, Phase.noConfusion⟩
    · intro c' hc'
      obtain rfl : c = c' := Option.some.inj hc'
      exact ⟨hclive, hcowner, hcrel⟩
    · rintro ⟨c', hc' | hc'⟩ <;> cases hc'

/-- The owner releases a thread that has died. -/
theorem Inv.release (h : Inv k) (hphase : k.phase p = .joining c)
    (hdead : (k.objects c).alive = false) :
    Inv (((k.drop c (.released (k.objects c).pid)).setInterrupts p true).setPhase p .running) := by
  have hp : k.Live p := h.live_of_phase (by rw [hphase]; exact Phase.noConfusion)
    (by rw [hphase]; exact Phase.noConfusion)
  obtain ⟨hclive, hcowner, hcrel⟩ := (h.sound p hp).child c (by rw [hphase]; rfl)
  have hs := h.sound c hclive
  have hdying : k.phase c = .exiting ∨ k.phase c = .gone := by
    by_contra hno
    rw [not_or] at hno
    rw [hs.alive.mpr hno] at hdead
    cases hdead
  have hpc : c ≠ p := by
    rintro rfl
    rw [hphase] at hdying
    rcases hdying with hd | hd <;> cases hd
  have hmoved : Inv ((k.setInterrupts p true).setPhase p .running) := by
    refine h.move _ true hp ?_ ?_ ⟨Phase.noConfusion, Phase.noConfusion⟩ (fun c' hc' => by cases hc')
      (fun _ => rfl) ?_
    · rw [hphase]
      exact fun _ => Phase.noConfusion
    · rw [hphase]
      exact ⟨Phase.noConfusion, Phase.noConfusion⟩
    · rintro ⟨c', hc' | hc'⟩ <;> cases hc'
  have hself : Function.update (k.setInterrupts p true).phase p .running p = .running :=
    Function.update_self ..
  have hother : ∀ b, b ≠ p →
      Function.update (k.setInterrupts p true).phase p .running b = k.phase b :=
    fun b hb => Function.update_of_ne hb ..
  have hcommute : ((k.drop c (.released (k.objects c).pid)).setInterrupts p true).setPhase p
      .running = ((k.setInterrupts p true).setPhase p .running).drop c
        (.released (k.objects c).pid) := by
    unfold Kernel.drop
    dsimp only
    rw [show ((k.setInterrupts p true).setPhase p .running).objects c = k.objects c from rfl]
    split <;> rfl
  have howned : (k.objects c).owner ≠ none := by
    rw [hcowner]
    exact Option.some_ne_none _
  rw [hcommute]
  refine hmoved.drop hclive (.inr ⟨rfl, howned⟩) hcrel (fun b _ => rfl) ?_ ?_ (.inl rfl) ?_ ?_ ?_
  · rw [hother c hpc]
    show _ ∨ .left (k.objects c).pid ∈ k.trace ↔ _
    rw [hs.left]
    exact or_iff_right Event.noConfusion
  · rw [hother c hpc]
    exact hs.alive
  · rintro q hq rfl
    have hblocked := (hs.queue q hq).2
    rw [hblocked] at hdying
    rcases hdying with hd | hd <;> cases hd
  · intro c' hc'
    have hkc : k.phase c = .blocked c' := (hother c hpc).symm.trans hc'
    rw [hkc] at hdying
    rcases hdying with hd | hd <;> cases hd
  · intro _ b hb hbc
    by_cases hbp : b = p
    · subst hbp
      rw [hself] at hbc
      cases hbc
    · rw [hother b hbp] at hbc
      have howner := ((h.sound b hb).child c hbc).2.1
      rw [hcowner] at howner
      exact hbp (Option.some.inj howner).symm

/-- A turn of the loop of `Join`. -/
theorem Inv.testJoin (h : Inv k) (hphase : k.phase p = .joining c) :
    ∃ k', k.testJoin p c = .ok k' ∧ Inv k' := by
  have hp : k.Live p := h.live_of_phase (by rw [hphase]; exact Phase.noConfusion)
    (by rw [hphase]; exact Phase.noConfusion)
  have hsp := h.sound p hp
  obtain ⟨hclive, hcowner, hcrel⟩ := hsp.child c (by rw [hphase]; rfl)
  have hs := h.sound c hclive
  have hoff : k.interrupts p = false := hsp.disabled (.inr ⟨c, .inl hphase⟩)
  have hnot : p ∉ (k.objects c).joinQueue := h.not_queued hclive fun c' => by
    rw [hphase]
    exact Phase.noConfusion
  unfold Kernel.testJoin
  rw [use_live hclive]
  dsimp only
  by_cases halive : (k.objects c).alive = true
  · have hlive : ∀ q ∈ (k.objects c).joinQueue ++ [p], k.Live q := by
      intro q hq
      rcases List.mem_append.mp hq with hq | hq
      · exact (hs.queue q hq).1
      · obtain rfl := List.mem_singleton.mp hq
        exact hp
    rw [if_pos halive, uses_live hlive, kassert_bind hnot]
    exact ⟨_, rfl, h.block hp hphase⟩
  · rw [if_neg halive, h.detach_eq hoff hclive (h.pos hclive hcowner hcrel)]
    refine ⟨_, rfl, ?_⟩
    exact (h.release hphase (Bool.eq_false_iff.mpr halive)).setEax _

/-- A thread leaves. -/
theorem Inv.endExit (h : Inv k) (hphase : k.phase p = .exiting) :
    ∃ k', k.endExit p = .ok k' ∧ Inv k' := by
  have hp : k.Live p := h.live_of_phase (by rw [hphase]; exact Phase.noConfusion)
    (by rw [hphase]; exact Phase.noConfusion)
  have hs := h.sound p hp
  have hoff : k.interrupts p = false := hs.disabled (.inl hphase)
  have hnotleft : .left (k.objects p).pid ∉ k.trace := fun hin => by
    have hgone := hs.left.mp hin
    rw [hphase] at hgone
    cases hgone
  have hdead : (k.objects p).alive = false := by
    cases halive : (k.objects p).alive with
    | false => rfl
    | true => exact absurd hphase (hs.alive.mp halive).1
  have hpos : 0 < (k.objects p).refCount := by
    rw [hs.refs, if_neg hnotleft]
    split <;> omega
  have hwake := h.wake hp
  have hwoken := wakeUp_eq (k := k) (c := p) (k.objects p).joinQueue fun q hq =>
    ⟨(hs.queue q hq).1, .inl (hs.queue q hq).2⟩
  have hnotself : p ∉ (k.objects p).joinQueue := fun hin => by
    have hblocked := (hs.queue p hin).2
    rw [hphase] at hblocked
    cases hblocked
  unfold Kernel.endExit
  rw [use_live hp]
  dsimp only
  rw [hwoken]
  generalize hk₁ : (k.woken (k.objects p).joinQueue p).setObject p
    { k.objects p with joinQueue := [] } = k₁ at *
  have hobject : k₁.objects p = { k.objects p with joinQueue := [] } := by
    rw [← hk₁]
    exact Function.update_self ..
  have hphase₁ : k₁.phase p = .exiting := by
    rw [← hk₁]
    exact (if_neg hnotself).trans hphase
  have hlive₁ : k₁.Live p := by
    rw [← hk₁]
    exact hp
  have hint₁ : k₁.interrupts p = false := by
    rw [← hk₁]
    exact hoff
  have hpid₁ : (k₁.objects p).pid = (k.objects p).pid := by rw [hobject]
  have hnew₁ : .left (k₁.objects p).pid ∉ k₁.trace := by
    rw [hpid₁, ← hk₁]
    exact hnotleft
  have hpos₁ : 0 < (k₁.objects p).refCount := by
    rw [hobject]
    exact hpos
  have hgraveyard : ∀ b ∈ k₁.graveyardQueue, b ∈ k₁.handed :=
    fun b hb => List.mem_append_right _ hb
  have hdetach := detachThread_eq (k := k₁.setPhase p .gone) (p := p) (a := p)
    (e := .left (k.objects p).pid) hint₁ hlive₁ hpos₁
    (fun b hb => hwake.handed_live b (hgraveyard b hb)) fun hin => by
      have hzero := (hwake.sound p hlive₁).handed.mp (hgraveyard p hin)
      omega
  refine ⟨_, hdetach, ?_⟩
  rw [← hpid₁]
  have hgone : Function.update k₁.phase p .gone p = .gone := Function.update_self ..
  refine hwake.drop hlive₁ (.inl rfl) hnew₁ (fun b hb => Function.update_of_ne hb ..) ?_ ?_ ?_ ?_ ?_ ?_
  · exact iff_of_true (.inl rfl) hgone
  · rw [hgone, hobject]
    refine iff_of_false ?_ fun hand => hand.2 rfl
    rw [hdead]
    exact Bool.false_ne_true
  · exact .inr hgone
  · rw [hobject]
    exact fun q hq => absurd hq List.not_mem_nil
  · rw [hphase₁]
    exact fun _ => Phase.noConfusion
  · exact fun heq => Event.noConfusion heq

/-- The reaper. -/
theorem Inv.reap (h : Inv k) {r : Except Assertion Kernel} (hstep : k.reap = some r) :
    ∃ k', r = .ok k' ∧ Inv k' := by
  unfold Kernel.reap at hstep
  split at hstep
  · cases hstep
  · rename_i hreaper
    split at hstep
    · rename_i hempty
      obtain rfl := Option.some.inj hstep
      refine ⟨_, rfl, h.takes ?_⟩
      unfold Kernel.handed
      rw [hreaper]
    · obtain rfl := Option.some.inj hstep
      refine ⟨_, rfl, h.takes ?_⟩
      unfold Kernel.handed
      rw [hreaper]
      exact List.append_nil _
  · rename_i hreaper
    obtain rfl := Option.some.inj hstep
    refine ⟨_, rfl, h.takes ?_⟩
    unfold Kernel.handed
    rw [hreaper]
  · rename_i b threads hreaper
    obtain rfl := Option.some.inj hstep
    have hb : k.Live b := h.handed_live b (by
      unfold Kernel.handed
      rw [hreaper]
      exact List.mem_cons_self)
    obtain ⟨memory, hrun, hstatus, hfaults⟩ :=
      destroyThread_eq (k := { k with reaper := .disposing threads }) h.list h.nodup hb
    rw [use_live hb]
    exact ⟨_, hrun, h.destroyed hreaper hstatus hfaults⟩

/-- **A step** in which no thread is waited for again fails no assertion, and keeps the invariant. -/
theorem inv_step (h : Inv k) {action : Action} {r : Except Assertion Kernel}
    (hfirst : First k action) (hstep : step k action = some r) : ∃ k', r = .ok k' ∧ Inv k' := by
  cases action with
  | spawn p a =>
    by_cases henabled : k.memory.status p = .live ∧ k.phase p = .running ∧ k.memory.status a ≠ .live
    · obtain ⟨hp, hrunning, ha⟩ := henabled
      rw [spawn_eq h hp hrunning ha] at hstep
      exact ⟨_, (Option.some.inj hstep).symm, h.created hp hrunning ha⟩
    · rw [show step k (.spawn p a) = none from if_neg henabled] at hstep
      cases hstep
  | spawned p join =>
    unfold step at hstep
    dsimp only at hstep
    split at hstep
    · rename_i c hphase
      exact ⟨_, (Option.some.inj hstep).symm, h.returns hphase join⟩
    · cases hstep
  | wait p pid =>
    by_cases henabled : k.memory.status p = .live ∧ k.phase p = .running
    · obtain ⟨k', hrun, hinv⟩ := h.wait henabled.1 henabled.2 hfirst
      rw [hrun] at hstep
      exact ⟨k', (Option.some.inj hstep).symm, hinv⟩
    · rw [show step k (.wait p pid) = none from if_neg henabled] at hstep
      cases hstep
  | enterJoin p =>
    unfold step at hstep
    dsimp only at hstep
    split at hstep
    · rename_i c hphase
      obtain ⟨k', hrun, hinv⟩ := h.enterJoin hphase
      exact ⟨k', (Option.some.inj hstep).symm.trans hrun, hinv⟩
    · cases hstep
  | testJoin p =>
    unfold step at hstep
    dsimp only at hstep
    split at hstep
    · rename_i c hphase
      obtain ⟨k', hrun, hinv⟩ := h.testJoin hphase
      exact ⟨k', (Option.some.inj hstep).symm.trans hrun, hinv⟩
    · cases hstep
  | exit p exitCode =>
    by_cases henabled : k.memory.status p = .live ∧ k.phase p = .running
    · rw [show step k (.exit p exitCode) = some (.ok (k.beginExit p exitCode)) from
        if_pos henabled] at hstep
      exact ⟨_, (Option.some.inj hstep).symm, h.beginExit henabled.1 henabled.2 exitCode⟩
    · rw [show step k (.exit p exitCode) = none from if_neg henabled] at hstep
      cases hstep
  | endExit p =>
    unfold step at hstep
    dsimp only at hstep
    split at hstep
    · rename_i hphase
      obtain ⟨k', hrun, hinv⟩ := h.endExit hphase
      exact ⟨k', (Option.some.inj hstep).symm.trans hrun, hinv⟩
    · cases hstep
  | reap => exact h.reap hstep

/-- **The invariant** holds in every run in which no thread is waited for again. -/
theorem Reaches.inv (h : Reaches First k) : Inv k := by
  induction h with
  | boot => exact inv_boot
  | step h hok hstep ih =>
    obtain ⟨k', hk', hinv⟩ := inv_step ih hok hstep
    obtain rfl := Except.ok.inj hk'
    exact hinv

/-! ## the property -/

/-- What is to hold in every state; the next step is one of those that are `ok`. -/
structure LifeCycle (ok : Kernel → Action → Prop) (k : Kernel) : Prop where
  /-- No assertion fails. -/
  asserts : ∀ action, ok k action → ∀ assertion, step k action ≠ some (.error assertion)
  /-- Every thread is handed to the reaper once, when it has left and has been released. -/
  handed : ∀ pid, .spawned pid ∈ k.trace → k.trace.count (.handed pid) =
    if .left pid ∈ k.trace ∧ .released pid ∈ k.trace then 1 else 0
  /-- No thread is accessed that has been freed. -/
  accesses : k.memory.faults = []

/--
**The life cycle** is as it is to be in every run in which no thread is waited for again and none has
been destroyed; `Destroy_Thread` accesses every thread that it has freed.
-/
theorem life_cycle_iff (k : Kernel) (h : Reaches First k) :
    LifeCycle First k ↔ ∀ pid, .destroyed pid ∉ k.trace := by
  have hinv := h.inv
  constructor
  · intro hcycle
    exact hinv.faults.mp hcycle.accesses
  · intro hno
    refine ⟨?_, hinv.count, hinv.faults.mpr hno⟩
    intro action hok assertion hstep
    obtain ⟨k', hk', -⟩ := inv_step hinv hok hstep
    cases hk'

/-! ## computing a run -/

/-- A run. -/
def run : List Action → Kernel → Option (Except Assertion Kernel)
  | [], k => some (.ok k)
  | a :: actions, k =>
    match step k a with
    | some (.ok k') => run actions k'
    | r => r

/-- What is allowed in every state is allowed along a run. -/
theorem reaches_run {ok : Kernel → Action → Prop} : ∀ {actions : List Action} {k k' : Kernel},
    (∀ a ∈ actions, ∀ k, ok k a) → Reaches ok k → run actions k = some (.ok k') → Reaches ok k'
  | [], k, k', _, h, hrun => by
    obtain rfl := Except.ok.inj (Option.some.inj hrun)
    exact h
  | a :: actions, k, k', hok, h, hrun => by
    unfold run at hrun
    split at hrun
    · rename_i k₁ hstep
      have hrest : ∀ b ∈ actions, ∀ k, ok k b := fun b hb => hok b (List.mem_cons_of_mem _ hb)
      exact reaches_run hrest (h.step (hok a List.mem_cons_self k) hstep) hrun
    · rename_i hno
      exact absurd hrun (hno k')

theorem run_concat {a : Action} : ∀ {actions : List Action} {k k' : Kernel},
    run actions k = some (.ok k') → run (actions ++ [a]) k = run [a] k'
  | [], k, k', hrun => by
    obtain rfl := Except.ok.inj (Option.some.inj hrun)
    rfl
  | b :: actions, k, k', hrun => by
    unfold run at hrun
    split at hrun
    · rename_i k₁ hstep
      rw [List.cons_append, run, hstep]
      exact run_concat hrun
    · rename_i hno
      exact absurd hrun (hno k')

/-- The main thread starts a thread, which exits. -/
def exits : List Action := [.spawn 0 1, .spawned 0 false, .exit 1 7, .endExit 1]

/-- The main thread waits for it, and the reaper takes it. -/
def joins : List Action := [.enterJoin 0, .testJoin 0]

def waits : List Action := exits ++ .wait 0 4 :: joins

theorem life_cycle_iff_joined : ∃ k₁ k₂ k₃, run exits .boot = some (.ok k₁) ∧
    step k₁ (.wait 0 4) = some (.ok k₂) ∧ run (joins ++ [.reap]) k₂ = some (.ok k₃) ∧
    k₃.reaper = .disposing [1] ∧ LifeCycle First k₃ := by
  obtain ⟨k₁, k₂, k₃, hexits, hnot, hwait, hjoins, htaken, htrace⟩ : ∃ k₁ k₂ k₃,
      run exits .boot = some (.ok k₁) ∧ .released 4 ∉ k₁.trace ∧
        step k₁ (.wait 0 4) = some (.ok k₂) ∧ run (joins ++ [.reap]) k₂ = some (.ok k₃) ∧
        k₃.reaper = .disposing [1] ∧ k₃.trace = [.handed 4, .released 4, .left 4, .spawned 4] :=
    ⟨_, _, _, rfl, by decide, rfl, rfl, rfl, rfl⟩
  have h₁ : Reaches First k₁ := by
    refine reaches_run (fun a ha k => ?_) .boot hexits
    simp only [exits, List.mem_cons, List.not_mem_nil, or_false] at ha
    rcases ha with rfl | rfl | rfl | rfl <;> trivial
  have h₂ : Reaches First k₂ := h₁.step (a := .wait 0 4) (fun _ _ => hnot) hwait
  have h₃ : Reaches First k₃ := by
    refine reaches_run (fun a ha k => ?_) h₂ hjoins
    simp only [joins, List.cons_append, List.nil_append, List.mem_cons, List.not_mem_nil,
      or_false] at ha
    rcases ha with rfl | rfl | rfl <;> trivial
  refine ⟨k₁, k₂, k₃, hexits, hwait, hjoins, htaken, (life_cycle_iff k₃ h₃).mpr fun pid hmem => ?_⟩
  rw [htrace] at hmem
  simp at hmem

/-! ## a thread that is waited for twice -/

/-- The reference count is not positive when the thread is joined again. -/
theorem second_wait_fails : ¬ ∀ k, Reaches (fun _ _ => True) k →
    LifeCycle (fun _ _ => True) k := by
  intro hall
  obtain ⟨k, hrun⟩ : ∃ k, run (waits ++ [.wait 0 4, .enterJoin 0]) .boot = some (.ok k) := ⟨_, rfl⟩
  have hfails : run (waits ++ [.wait 0 4, .enterJoin 0] ++ [.testJoin 0]) .boot =
      some (.error .detachRefCount) := rfl
  rw [run_concat hrun, run] at hfails
  have hcycle := hall k (reaches_run (fun _ _ _ => trivial) .boot hrun)
  split at hfails
  · cases hfails
  · exact hcycle.asserts (.testJoin 0) trivial .detachRefCount hfails

end GeekOS.Kthread
