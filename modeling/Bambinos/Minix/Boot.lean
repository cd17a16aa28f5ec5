import Bambinos.Minix.Lifecycle

/-!
# The state `main` leaves is consistent

* `Booting` — the invariant of the loop over the boot image
* `boot_consistent` — the result
-/

namespace Minix

open Infra

variable {s s' : Kernel} {r rp : ProcPtr} {ip : BootImage} {l : List BootImage}

/-! ## the privileges -/

/-- `s'` is `s` but for the privileges. -/
structure SamePriv (s s' : Kernel) : Prop where
  proc : ∀ r, s'.proc r = { s.proc r with priv := (s'.proc r).priv }
  rdyHead : s'.rdyHead = s.rdyHead
  rdyTail : s'.rdyTail = s.rdyTail

theorem SamePriv.of_proc_eq (hproc : s'.proc = s.proc) (hhead : s'.rdyHead = s.rdyHead)
    (htail : s'.rdyTail = s.rdyTail) : SamePriv s s' :=
  ⟨fun r => by rw [hproc], hhead, htail⟩

theorem getPriv_same (rp : ProcPtr) (b : Bool) (s : Kernel) : SamePriv s (getPriv rp b s) := by
  have hset : ∀ (s₁ : Kernel) (id : PrivPtr), s₁.proc = s.proc → s₁.rdyHead = s.rdyHead →
      s₁.rdyTail = s.rdyTail → SamePriv s (s₁.setProc rp fun r => { r with priv := id }) := by
    intro s₁ id hproc hhead htail
    refine ⟨fun r => ?_, hhead, htail⟩
    by_cases he : r = rp
    · subst he
      rw [Kernel.setProc_self, hproc]
    · rw [Kernel.setProc_of_ne he, hproc]
  unfold getPriv
  split
  · split
    · exact .of_proc_eq rfl rfl rfl
    · exact hset _ _ rfl rfl rfl
  · exact hset _ _ rfl rfl rfl

/-! ## the loop -/

/-- The invariant of the loop; the slots of the processes in `l` are free still. -/
structure Booting (s : Kernel) (l : List BootImage) : Prop where
  runnable : Runnable s
  callerQ : ∀ r, (s.proc r).callerQ = none
  numbered : Numbered s
  range : InPriorityRange s
  free : ∀ ip ∈ l, ∀ rp, procAddr ip.procNr = some rp → (s.proc rp).rtsFlags = {.slotFree}

/-- The entry of a process of the boot image before it is made ready. -/
theorem Booting.fill (h : Booting s (ip :: l)) (hrp : procAddr ip.procNr = some rp)
    (hlow : ip.procNr ≠ IDLE → ip.priority ≤ IDLE_Q - 1) :
    Booting (s.setProc rp fun r =>
      { r with
        maxPriority := ip.priority, priority := ip.priority
        quantumSize := ip.quantum, ticksLeft := ip.quantum }) (ip :: l) := by
  have hfree := h.free ip List.mem_cons_self rp hrp
  have hflags : ∀ r, ((s.setProc rp fun r =>
      { r with
        maxPriority := ip.priority, priority := ip.priority
        quantumSize := ip.quantum, ticksLeft := ip.quantum }).proc r).rtsFlags =
      (s.proc r).rtsFlags := Kernel.setProc_field rfl
  refine ⟨?_, fun r => ?_, ⟨fun r => ?_, fun r => ?_⟩, fun r hr => ?_, fun ip' hip' r hr => ?_⟩
  · refine (Ready.setProc_of_not h.runnable ?_).iff fun r => by rw [hflags]
    rw [hfree]
    exact Finset.singleton_ne_empty _
  · rw [Kernel.setProc_field (g := Proc.callerQ) rfl]
    exact h.callerQ r
  · rw [Kernel.setProc_field (g := Proc.nr) rfl]
    exact h.numbered.nr r
  · rw [Kernel.setProc_field (g := Proc.endpoint) rfl]
    exact h.numbered.endpoint r
  · by_cases he : r = rp
    · subst he
      rw [Kernel.setProc_self] at hr ⊢
      refine ⟨Int.le_refl _, hlow ?_⟩
      rw [procAddr_eq_some hrp, ← h.numbered.nr r]
      exact hr
    · rw [Kernel.setProc_of_ne he] at hr ⊢
      exact h.range r hr
  · rw [hflags]
    exact h.free ip' hip' r hr

theorem Booting.same (h : Booting s l) (hs : SamePriv s s') : Booting s' l := by
  have hfield : ∀ {β : Type} {g : Proc → β}, (∀ p i, g { p with priv := i } = g p) → ∀ r,
      g (s'.proc r) = g (s.proc r) := fun hg r => by
    rw [hs.proc r]
    exact hg _ _
  have hflags := hfield (g := Proc.rtsFlags) fun _ _ => rfl
  refine ⟨?_, fun r => ?_, ⟨fun r => ?_, fun r => ?_⟩, fun r hr => ?_, fun ip' hip' r hr => ?_⟩
  · refine (Ready.of_fields h.runnable hs.rdyHead hs.rdyTail ?_ ?_ ?_).iff fun r => by rw [hflags]
    · exact hfield fun _ _ => rfl
    · exact hfield fun _ _ => rfl
    · exact hfield fun _ _ => rfl
  · rw [hfield (g := Proc.callerQ) fun _ _ => rfl]
    exact h.callerQ r
  · rw [hfield (g := Proc.nr) fun _ _ => rfl]
    exact h.numbered.nr r
  · rw [hfield (g := Proc.endpoint) fun _ _ => rfl]
    exact h.numbered.endpoint r
  · rw [hfield (g := Proc.nr) fun _ _ => rfl] at hr
    rw [hfield (g := Proc.maxPriority) fun _ _ => rfl, hfield (g := Proc.priority) fun _ _ => rfl]
    exact h.range r hr
  · rw [hflags]
    exact h.free ip' hip' r hr

/-- Behind an operation that only changes the flags of a process, and the ready lists. -/
theorem Booting.ready {flags : Finset RtsFlag} (h : Booting s (ip :: l)) (hrun : Runnable s')
    (hq : Quiet s s') (hflags : FlagsOf s s' rp flags) (hrp : procAddr ip.procNr = some rp)
    (hnot : ∀ ip' ∈ l, ip'.procNr ≠ ip.procNr) : Booting s' l := by
  refine ⟨hrun, fun r => (hq.callerQ r).trans (h.callerQ r), h.numbered.steady hq.toSteady,
    h.range.steady hq.toSteady, fun ip' hip' r hr => ?_⟩
  have hne : r ≠ rp := by
    rintro rfl
    exact hnot ip' hip' ((procAddr_eq_some hr).trans (procAddr_eq_some hrp).symm)
  rw [hflags.2 r hne]
  exact h.free ip' (List.mem_cons_of_mem _ hip') r hr

theorem Booting.bootProcess (h : Booting s (ip :: l))
    (hlow : ip.procNr ≠ IDLE → ip.priority ≤ IDLE_Q - 1)
    (hnot : ∀ ip' ∈ l, ip'.procNr ≠ ip.procNr) (hstep : bootProcess ip s = some s') :
    Booting s' l := by
  unfold Minix.bootProcess at hstep
  obtain ⟨rp, hrp, hstep⟩ := Option.bind_eq_some_iff.mp hstep
  dsimp only at hstep
  have h₁ := (h.fill hrp hlow).same (getPriv_same rp (decide (.sysProc ∈ ip.flags)) _)
  generalize getPriv rp _ _ = s₁ at h₁ hstep
  have h₂ : Booting (s₁.setPriv (s₁.proc rp).priv fun p => { p with flags := ip.flags }) (ip :: l) :=
    h₁.same (.of_proc_eq rfl rfl rfl)
  generalize (s₁.setPriv (s₁.proc rp).priv fun p => { p with flags := ip.flags }) = s₂ at h₂ hstep
  have h₃ : Booting (if iskerneln (s₂.proc rp).nr ∧ ip.stack then
      s₂.setPriv (s₂.proc rp).priv fun p => { p with stackGuard := true } else s₂) (ip :: l) := by
    split
    · exact h₂.same (.of_proc_eq rfl rfl rfl)
    · exact h₂
  generalize (if iskerneln (s₂.proc rp).nr ∧ ip.stack then
    s₂.setPriv (s₂.proc rp).priv fun p => { p with stackGuard := true } else s₂) = s₃ at h₃ hstep
  have hset : (s₃.proc rp).rtsFlags ≠ ∅ := by
    rw [h₃.free ip List.mem_cons_self rp hrp]
    exact Finset.singleton_ne_empty _
  split at hstep
  · have hwake : enqueueReady rp (s₃.setProc rp fun r => { r with rtsFlags := ∅ }) = some s' := by
      unfold enqueueReady
      rw [Kernel.setProc_self, if_pos rfl]
      exact hstep
    obtain ⟨hrun, hq, hflags⟩ := h₃.runnable.wake hset hwake
    exact h₃.ready hrun hq hflags hrp hnot
  · cases hstep
    exact h₃.ready (h₃.runnable.setFlags hset (Finset.singleton_ne_empty _)) setFlags_quiet
      flagsOf_setProc hrp hnot

theorem Booting.loop : ∀ {l : List BootImage} {s s' : Kernel}, Booting s l →
    (∀ ip ∈ l, ip.procNr ≠ IDLE → ip.priority ≤ IDLE_Q - 1) → (l.map (·.procNr)).Nodup →
    l.foldlM (fun s ip => Minix.bootProcess ip s) s = some s' → Booting s' []
  | [], s, s', h, _, _, hstep => by
    cases hstep
    exact h
  | ip :: l, s, s', h, hlow, hnodup, hstep => by
    rw [List.foldlM_cons] at hstep
    obtain ⟨s₁, hstep₁, hstep⟩ := Option.bind_eq_some_iff.mp hstep
    rw [List.map_cons, List.nodup_cons] at hnodup
    refine Booting.loop (h.bootProcess (hlow ip List.mem_cons_self) ?_ hstep₁)
      (fun ip' hip' => hlow ip' (List.mem_cons_of_mem _ hip')) hnodup.2 hstep
    exact fun ip' hip' he => hnodup.1 (he ▸ List.mem_map_of_mem hip')

theorem cleared_booting (l : List BootImage) : Booting cleared l := by
  refine ⟨⟨fun _ => [], ⟨fun _ => .nil, fun _ h => absurd rfl h, fun _ _ h => absurd h ?_,
    fun _ h => absurd rfl h⟩, fun r => ⟨fun h => absurd h ?_, fun h => absurd h (Finset.singleton_ne_empty _)⟩⟩,
    fun _ => rfl, ⟨fun _ => rfl, fun r => ⟨0, by decide, rfl⟩⟩, fun _ _ => ⟨?_, ?_⟩,
    fun _ _ _ _ => rfl⟩
  · exact List.not_mem_nil
  · exact List.not_mem_nil
  · exact Int.le_refl _
  · show (0 : Int) ≤ IDLE_Q - 1
    decide

/-- **Booting.** The state `main` leaves is consistent. -/
theorem boot_consistent (h : boot = some s) : Consistent s := by
  unfold boot at h
  obtain ⟨s₁, hloop, h⟩ := Option.bind_eq_some_iff.mp h
  cases h
  have h₁ := (cleared_booting image).loop (by decide) (by decide) hloop
  have hc : Consistent s₁ := by
    refine ⟨h₁.runnable, ⟨fun _ => [], ⟨⟨fun y _ => ?_, nofun⟩, nofun⟩⟩, h₁.numbered, h₁.range⟩
    rw [h₁.callerQ]
    exact .nil
  exact hc.of_proc_eq rfl rfl rfl

end Minix
