import Bambinos.Minix.IpcRuns
import Bambinos.Minix.Talks

/-!
# What has to do with no message

Priorities, policies, quanta and memory maps: nobody starts or stops to wait for a message.

* `Still` — what such an operation keeps
* `Still.moves`, `Still.requeue`, `Still.setFlags` — what it is made of
* `kernel_still` — the operations that have to do with no message
-/

namespace Minix

open Infra

variable {s s' s₁ : Kernel} {rp : ProcPtr} {f : Proc → Proc} {e : Int}

/-- A slot that is free has no other flag. -/
def Tidy (s : Kernel) : Prop := ∀ p, .slotFree ∈ (s.proc p).rtsFlags → (s.proc p).rtsFlags = {.slotFree}

/-- The fields that have to do with messages and notifications are kept, and the flags. -/
structure Still (s s' : Kernel) : Prop where
  priv : s'.priv = s.priv
  proc : ∀ r, s'.proc r =
    { s.proc r with
      rtsFlags := (s'.proc r).rtsFlags
      priority := (s'.proc r).priority
      maxPriority := (s'.proc r).maxPriority
      ticksLeft := (s'.proc r).ticksLeft
      quantumSize := (s'.proc r).quantumSize
      nextready := (s'.proc r).nextready
      scheduler := (s'.proc r).scheduler }
  flags : ∀ r, ∀ flag : RtsFlag, flag = .slotFree ∨ flag = .sending ∨ flag = .receiving →
    (flag ∈ (s'.proc r).rtsFlags ↔ flag ∈ (s.proc r).rtsFlags)
  tidy : Tidy s'

namespace Still

theorem refl (h : Tidy s) : Still s s := ⟨rfl, fun _ => rfl, fun _ _ _ => Iff.rfl, h⟩

theorem trans (h : Still s s₁) (h' : Still s₁ s') : Still s s' where
  priv := h'.priv.trans h.priv
  proc r := by
    rw [h'.proc r, h.proc r]
  flags r flag hflag := (h'.flags r flag hflag).trans (h.flags r flag hflag)
  tidy := h'.tidy

theorem field (h : Still s s') {β : Type} {g : Proc → β} (hg : ∀ r f p m t y n c, g { r with
    rtsFlags := f, priority := p, maxPriority := m, ticksLeft := t, quantumSize := y
    nextready := n, scheduler := c } = g r) (r : ProcPtr) : g (s'.proc r) = g (s.proc r) := by
  rw [h.proc r]
  exact hg _ _ _ _ _ _ _ _

theorem sameTalk (h : Still s s') : SameTalk s s' :=
  ⟨h.tidy, fun r => h.flags r _ (by simp), fun r => h.flags r _ (by simp),
    fun r => h.flags r _ (by simp), h.field fun _ _ _ _ _ _ _ _ => rfl,
    h.field fun _ _ _ _ _ _ _ _ => rfl, h.field fun _ _ _ _ _ _ _ _ => rfl,
    h.field fun _ _ _ _ _ _ _ _ => rfl, h.field fun _ _ _ _ _ _ _ _ => rfl⟩

theorem moves (htidy : Tidy s) (h : Moves s s') : Still s s' := by
  refine ⟨h.priv, fun r => ?_, fun r flag _ => by rw [h.rtsFlags], fun r hr => ?_⟩
  · rw [h.proc r]
  · rw [h.rtsFlags] at hr ⊢
    exact htidy r hr

theorem set {p m t y c : Int} (htidy : Tidy s) (hf : f (s.proc rp) = { s.proc rp with
    priority := p, maxPriority := m, ticksLeft := t, quantumSize := y, scheduler := c }) :
    Still s (s.setProc rp f) := by
  have hproc : ∀ r, (s.setProc rp f).proc r = s.proc r ∨
      r = rp ∧ (s.setProc rp f).proc r = { s.proc r with
        priority := p, maxPriority := m, ticksLeft := t, quantumSize := y, scheduler := c } := by
    intro r
    rcases eq_or_ne r rp with rfl | hr
    · exact Or.inr ⟨rfl, by rw [Kernel.setProc_self, hf]⟩
    · exact Or.inl (Kernel.setProc_of_ne hr)
  refine ⟨rfl, fun r => ?_, fun r flag _ => ?_, fun r hr => ?_⟩
  all_goals rcases hproc r with he | ⟨-, he⟩
  · rw [he]
  · rw [he]
  · rw [he]
  · rw [he]
  · rw [he] at hr ⊢
    exact htidy r hr
  · rw [he] at hr ⊢
    exact htidy r hr

/-- A process is taken off, a field is set, and it is put on again. -/
theorem requeue {p m t y c : Int} (htidy : Tidy s) (hmoves : Moves s s₁)
    (hstep : enqueueReady rp (s₁.setProc rp f) = some s') (hf : f (s₁.proc rp) = { s₁.proc rp with
      priority := p, maxPriority := m, ticksLeft := t, quantumSize := y, scheduler := c }) :
    Still s s' := by
  have h₁ := moves htidy hmoves
  have h₂ := h₁.trans (set h₁.tidy hf)
  exact h₂.trans (moves h₂.tidy (enqueueReady_moves hstep))

/-- Another flag is taken or given. -/
theorem setFlags {g : Proc → Finset RtsFlag} (htidy : Tidy s)
    (hrp : .slotFree ∉ (s.proc rp).rtsFlags)
    (hg : ∀ flag : RtsFlag, flag = .slotFree ∨ flag = .sending ∨ flag = .receiving →
      (flag ∈ g (s.proc rp) ↔ flag ∈ (s.proc rp).rtsFlags)) :
    Still s (s.setProc rp fun r => { r with rtsFlags := g r }) := by
  have hflags : FlagsOf s (s.setProc rp fun r => { r with rtsFlags := g r }) rp (g (s.proc rp)) :=
    flagsOf_setProc
  refine ⟨rfl, fun r => ?_, fun r flag hflag => hflags.mem_iff (hg flag hflag) r, fun p hp => ?_⟩
  · rcases eq_or_ne r rp with rfl | hr
    · rw [Kernel.setProc_self]
    · rw [Kernel.setProc_of_ne hr]
  · rcases eq_or_ne p rp with rfl | hne
    · rw [hflags.1] at hp
      exact absurd ((hg _ (by simp)).mp hp) hrp
    · rw [hflags.2 p hne] at hp ⊢
      exact htidy p hp

theorem of_proc_eq (htidy : Tidy s) (hpriv : s'.priv = s.priv) (hproc : s'.proc = s.proc) :
    Still s s' := by
  refine ⟨hpriv, fun r => by rw [hproc], fun r flag _ => by rw [hproc], fun r hr => ?_⟩
  rw [hproc] at hr ⊢
  exact htidy r hr

end Still

/-- A process that is not free. -/
theorem Tidy.notMem (h : Tidy s) (halive : Alive s rp) : .slotFree ∉ (s.proc rp).rtsFlags :=
  fun hfree => halive (h rp hfree)

/-! ## the operations -/

theorem doNice_still {endpt pri : Int} (htidy : Tidy s)
    (hstep : doNice endpt pri s = some (e, s')) : Still s s' := by
  unfold doNice at hstep
  split at hstep
  · cases hstep
    exact .refl htidy
  · next rp hrp =>
    split at hstep
    · cases hstep
      exact .refl htidy
    · split at hstep
      · obtain ⟨s₁, hdequeue, hstep⟩ := Option.bind_eq_some_iff.mp hstep
        cases hstep
        have hmoves := (dequeue_moves hdequeue).1
        have h₁ := Still.moves htidy hmoves
        have hrp₁ : .slotFree ∉ (s₁.proc rp).rtsFlags := by
          rw [hmoves.rtsFlags]
          exact htidy.notMem (isokendpt_spec hrp).2.2
        refine h₁.trans (.setFlags h₁.tidy hrp₁ fun flag hflag => ?_)
        rcases hflag with rfl | rfl | rfl <;> simp
      · split at hstep
        · obtain ⟨s₁, hdequeue, hstep⟩ := Option.bind_eq_some_iff.mp hstep
          obtain ⟨s₂, henqueue, hstep⟩ := Option.bind_eq_some_iff.mp hstep
          cases hstep
          exact .requeue htidy (dequeue_moves hdequeue).1 henqueue rfl
        · cases hstep
          exact .refl htidy

theorem doSetscheduler_still {endpt policy : Int} (htidy : Tidy s)
    (hstep : doSetscheduler endpt policy s = some (e, s')) : Still s s' := by
  unfold doSetscheduler at hstep
  split at hstep
  · cases hstep
    exact .refl htidy
  · split at hstep
    · cases hstep
      exact .refl htidy
    · obtain ⟨s₁, hdequeue, hstep⟩ := Option.bind_eq_some_iff.mp hstep
      obtain ⟨s₂, henqueue, hstep⟩ := Option.bind_eq_some_iff.mp hstep
      cases hstep
      exact .requeue htidy (dequeue_moves hdequeue).1 henqueue rfl

theorem doClocktick_still (htidy : Tidy s) (hstep : doClocktick s = some s') :
    Still s s' := by
  unfold doClocktick at hstep
  obtain ⟨rp, -, hstep⟩ := Option.bind_eq_some_iff.mp hstep
  dsimp only at hstep
  split at hstep
  · obtain ⟨s₁, hdequeue, henqueue⟩ := Option.bind_eq_some_iff.mp hstep
    exact .moves htidy ((dequeue_moves hdequeue).1.trans (enqueue_moves henqueue))
  · cases hstep
    exact .refl htidy

theorem balanceProcess_still (htidy : Tidy s) (hstep : balanceProcess rp s = some s') :
    Still s s' := by
  unfold balanceProcess at hstep
  split at hstep
  · cases hstep
    exact .refl htidy
  · split at hstep
    · obtain ⟨s₁, hdequeue, henqueue⟩ := Option.bind_eq_some_iff.mp hstep
      exact .requeue htidy (dequeueReady_moves hdequeue) henqueue rfl
    · cases hstep
      exact .set htidy rfl

theorem doNewmap_still {endpt : Int} {mapped : Bool} (htidy : Tidy s)
    (hstep : doNewmap endpt mapped s = some (e, s')) : Still s s' := by
  unfold doNewmap at hstep
  split at hstep
  · cases hstep
    exact .refl htidy
  · next rp hrp =>
    split at hstep
    · cases hstep
      exact .refl htidy
    · split at hstep
      · cases hstep
        exact .refl htidy
      · dsimp only at hstep
        have h₁ : Still s (s.setProc rp fun r => { r with rtsFlags := r.rtsFlags.erase .noMap }) :=
          .setFlags htidy (htidy.notMem (isokendpt_spec hrp).2.2) fun flag hflag => by
            rcases hflag with rfl | rfl | rfl <;> simp
        split at hstep
        · obtain ⟨s₁, henqueue, hstep⟩ := Option.bind_eq_some_iff.mp hstep
          cases hstep
          exact h₁.trans (.moves h₁.tidy (enqueueReady_moves henqueue))
        · cases hstep
          exact h₁

theorem chargeTicks_still {ticks : Int} (htidy : Tidy s)
    (hstep : chargeTicks ticks s = some s') : Still s s' := by
  unfold chargeTicks at hstep
  obtain ⟨procPtr, -, hstep⟩ := Option.bind_eq_some_iff.mp hstep
  dsimp only at hstep
  have h₁ : Still s (if .preemptible ∈ (s.priv (s.proc procPtr).priv).flags ∧
      (s.proc procPtr).scheduler ≠ SCHED_FIFO then
        s.setProc procPtr fun r => { r with ticksLeft := toChar (r.ticksLeft - ticks) }
      else s) := by
    split
    · exact .set htidy rfl
    · exact .refl htidy
  split at hstep
  · obtain ⟨billPtr, -, hstep⟩ := Option.bind_eq_some_iff.mp hstep
    cases hstep
    exact h₁.trans (.set h₁.tidy rfl)
  · cases hstep
    exact h₁

/-- **The operations** that have to do with no message. -/
theorem kernel_still {op : Op} (hop : Ipc.NoMessage op = true) (htidy : Tidy s)
    (hstep : op.run s = some s') : Still s s' := by
  cases op with
  | doNice endpt pri =>
    obtain ⟨⟨e, s₁⟩, hrun, rfl⟩ := Option.map_eq_some_iff.mp hstep
    exact doNice_still htidy hrun
  | doSetscheduler endpt policy =>
    obtain ⟨⟨e, s₁⟩, hrun, rfl⟩ := Option.map_eq_some_iff.mp hstep
    exact doSetscheduler_still htidy hrun
  | doClocktick => exact doClocktick_still htidy hstep
  | balanceQueues =>
    refine foldlM_keeps (P := fun s' => Still s s') (fun h hstep => ?_) (.refl htidy) hstep
    exact h.trans (balanceProcess_still h.tidy hstep)
  | doNewmap endpt mapped =>
    obtain ⟨⟨e, s₁⟩, hrun, rfl⟩ := Option.map_eq_some_iff.mp hstep
    exact doNewmap_still htidy hrun
  | restart =>
    cases hstep
    refine .of_proc_eq htidy ?_ ?_ <;> unfold restart <;> split <;> rfl
  | sysCall | lockNotify | doFork | doExit | clockHandler => cases hop

end Minix
