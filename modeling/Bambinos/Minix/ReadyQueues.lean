import Bambinos.Minix.Scheduler

/-!
# The ready lists as lists

* `ReadyLists` — the pointers represent the given lists
* `Ready` — the given processes are on the lists, each on its own and once, and no other is
* `Ready.enqueue`, `Ready.dequeue` — a process is added or removed
* `Moves` — what the two leave unchanged
-/

namespace Minix

open Infra

variable {s s' : Kernel} {q : Queue} {r rp : ProcPtr} {L : Queue → List ProcPtr}
  {R : ProcPtr → Prop} {place x : Option ProcPtr}

/-! ## what stays -/

/-- `enqueue` and `dequeue` change links of the ready lists, and the quantum and the priority of the
process that is enqueued. -/
structure Moves (s s' : Kernel) : Prop where
  priv : s'.priv = s.priv
  proc : ∀ r, s'.proc r =
    { s.proc r with
      nextready := (s'.proc r).nextready
      ticksLeft := (s'.proc r).ticksLeft
      priority := (s'.proc r).priority }
  lowered : ∀ r, (s.proc r).priority ≤ (s'.proc r).priority
  lowest : ∀ r, (s.proc r).priority ≤ IDLE_Q - 1 → (s'.proc r).priority ≤ IDLE_Q - 1

namespace Moves

theorem refl (s : Kernel) : Moves s s := ⟨rfl, fun _ => rfl, fun _ => Int.le_refl _, fun _ => id⟩

theorem trans {s'' : Kernel} (h : Moves s s') (h' : Moves s' s'') : Moves s s'' where
  priv := h'.priv.trans h.priv
  proc r := by rw [h'.proc r, h.proc r]
  lowered r := Int.le_trans (h.lowered r) (h'.lowered r)
  lowest r hr := h'.lowest r (h.lowest r hr)

/-- A field that is none of the three is kept. -/
theorem field (h : Moves s s') {β : Type} {g : Proc → β}
    (hg : ∀ p n t y, g { p with nextready := n, ticksLeft := t, priority := y } = g p) (r : ProcPtr) :
    g (s'.proc r) = g (s.proc r) := by
  rw [h.proc r]
  exact hg _ _ _ _

theorem rtsFlags (h : Moves s s') (r : ProcPtr) : (s'.proc r).rtsFlags = (s.proc r).rtsFlags :=
  h.field (g := Proc.rtsFlags) (fun _ _ _ _ => rfl) r

end Moves

/-! ## the representation -/

/-- The pointers lead through the given lists. -/
structure ReadyLists (s : Kernel) (L : Queue → List ProcPtr) : Prop where
  chain : ∀ q, Chain (fun r => (s.proc r).nextready) (s.rdyHead q) (L q)
  tail : ∀ q, L q ≠ [] → s.rdyTail q = (L q).getLast?
  key : ∀ q, ∀ r ∈ L q, s.queueOf r = q
  inRange : ∀ q, L q ≠ [] → InRange q

theorem ReadyLists.congr (h : ReadyLists s L) (hhead : s'.rdyHead = s.rdyHead)
    (htail : s'.rdyTail = s.rdyTail) (hlink : ∀ r, (s'.proc r).nextready = (s.proc r).nextready)
    (hkey : ∀ q, ∀ r ∈ L q, s'.queueOf r = s.queueOf r) : ReadyLists s' L where
  chain q := by
    rw [hhead]
    exact (h.chain q).congr fun r _ => hlink r
  tail q hne := by
    rw [htail]
    exact h.tail q hne
  key q r hr := (hkey q r hr).trans (h.key q r hr)
  inRange := h.inRange

/-! ## `dequeue` -/

theorem setReadyLink_nextready : (fun r => ((s.setReadyLink q place x).proc r).nextready) =
    relink (fun r => (s.proc r).nextready) place x := by
  cases place with
  | none => rfl
  | some b =>
    funext r
    by_cases hr : r = b
    · subst hr
      simp [Kernel.setReadyLink, Kernel.setNextready, relink]
    · simp [Kernel.setReadyLink, Kernel.setNextready, relink, hr]

theorem setReadyLink_rdyHead : (s.setReadyLink q place x).rdyHead =
    Function.update s.rdyHead q (rehead (s.rdyHead q) place x) := by
  cases place with
  | none => rfl
  | some b => exact (Function.update_eq_self q s.rdyHead).symm

theorem setReadyLink_proc (r : ProcPtr) : (s.setReadyLink q place x).proc r =
    { s.proc r with nextready := ((s.setReadyLink q place x).proc r).nextready } := by
  cases place with
  | none => rfl
  | some b =>
    by_cases hr : r = b
    · subst hr
      simp [Kernel.setReadyLink, Kernel.setNextready]
    · simp [Kernel.setReadyLink, Kernel.setNextready, hr]

/-- What only changes links moves nothing else. -/
theorem Moves.of_links (hpriv : s'.priv = s.priv)
    (hproc : ∀ r, s'.proc r = { s.proc r with nextready := (s'.proc r).nextready }) :
    Moves s s' := by
  refine ⟨hpriv, fun r => ?_, fun r => ?_, fun r hr => ?_⟩
  · rw [hproc r]
  · rw [hproc r]
  · rwa [hproc r]

theorem Moves.of_proc_eq (hpriv : s'.priv = s.priv) (hproc : s'.proc = s.proc) : Moves s s' :=
  .of_links hpriv fun r => by rw [hproc]

theorem setReadyLink_moves : Moves s (s.setReadyLink q place x) :=
  .of_links (by cases place <;> rfl) setReadyLink_proc

theorem removeReady_moves : Moves s (s.removeReady q rp place) := by
  unfold Kernel.removeReady
  dsimp only
  split
  · obtain ⟨h1, h2, h3, h4⟩ := @setReadyLink_moves s q place (s.proc rp).nextready
    exact ⟨h1, h2, h3, h4⟩
  · exact setReadyLink_moves

theorem setNextready_moves : Moves s (s.setNextready rp x) :=
  @setReadyLink_moves s (0, 0) (some rp) x

theorem pickProc_moves : Moves s (pickProc s) := .of_proc_eq pickProc_priv pickProc_proc

theorem ReadyLists.pickProc (h : ReadyLists s L) : ReadyLists (pickProc s) L :=
  h.congr pickProc_rdyHead pickProc_rdyTail (fun r => by rw [pickProc_proc]) fun q r _ => by
    unfold Kernel.queueOf
    rw [pickProc_proc]

theorem setReadyLink_queueOf : (s.setReadyLink q place x).queueOf r = s.queueOf r := by
  unfold Kernel.queueOf
  rw [setReadyLink_proc r]

/-- The tail behind the removal of a process. -/
theorem tail_of_remove {l₁ l₂ : List ProcPtr} {t : Option ProcPtr}
    (hnodup : (l₁ ++ rp :: l₂).Nodup) (ht : t = (l₁ ++ rp :: l₂).getLast?) (hne : l₁ ++ l₂ ≠ []) :
    (if t = some rp then l₁.getLast? else t) = (l₁ ++ l₂).getLast? := by
  subst ht
  rw [List.getLast?_append, List.getLast?_append, List.getLast?_cons]
  cases l₂ with
  | nil => simp
  | cons b l₂ =>
    have hlast : (b :: l₂).getLast? ≠ some rp := by
      intro he
      have hmem := List.mem_of_getLast? he
      rw [List.nodup_append, List.nodup_cons] at hnodup
      exact hnodup.2.1.1 hmem
    obtain ⟨c, hc⟩ : ∃ c, (b :: l₂).getLast? = some c :=
      ⟨_, List.getLast?_eq_some_getLast (List.cons_ne_nil _ _)⟩
    rw [hc] at hlast ⊢
    simp [Option.some_inj.not.mp hlast]

theorem ReadyLists.removeReady (h : ReadyLists s L) {l₁ l₂ : List ProcPtr}
    (hq : L q = l₁ ++ rp :: l₂) :
    ReadyLists (s.removeReady q rp l₁.getLast?) (Function.update L q (l₁ ++ l₂)) := by
  have hnodup := (h.chain q).nodup
  have hlink : ReadyLists { s.setReadyLink q l₁.getLast? (s.proc rp).nextready with
      rdyTail := Function.update s.rdyTail q
        (if s.rdyTail q = some rp then l₁.getLast? else s.rdyTail q) }
      (Function.update L q (l₁ ++ l₂)) := by
    refine ⟨fun q' => ?_, fun q' hne => ?_, fun q' r hr => ?_, fun q' hne => ?_⟩
    · show Chain (fun r => ((s.setReadyLink q l₁.getLast? (s.proc rp).nextready).proc r).nextready)
        ((s.setReadyLink q l₁.getLast? (s.proc rp).nextready).rdyHead q') _
      rw [setReadyLink_nextready, setReadyLink_rdyHead]
      by_cases hq' : q' = q
      · subst hq'
        rw [Function.update_self, Function.update_self]
        have hchain := h.chain q'
        rw [hq] at hchain
        exact hchain.unlink
      · rw [Function.update_of_ne hq', Function.update_of_ne hq']
        -- a link of the list `q` is stored, and the nodes of `q'` are others
        refine (h.chain q').congr fun r hr => relink_of_ne fun he => hq' ?_
        have hmem : r ∈ L q := by
          rw [hq]
          exact List.mem_append_left _ (List.mem_of_getLast? he)
        rw [← h.key q' r hr, h.key q r hmem]
    · show Function.update s.rdyTail q _ q' = _
      by_cases hq' : q' = q
      · subst hq'
        rw [Function.update_self] at hne ⊢
        rw [Function.update_self]
        rw [hq] at hnodup
        refine tail_of_remove hnodup ?_ hne
        rw [← hq]
        exact h.tail q' (by rw [hq]; simp)
      · rw [Function.update_of_ne hq'] at hne ⊢
        rw [Function.update_of_ne hq']
        exact h.tail q' hne
    · have hr' : r ∈ L q' := by
        by_cases hq' : q' = q
        · subst hq'
          rw [Function.update_self] at hr
          rw [hq]
          rcases List.mem_append.mp hr with hr | hr
          · exact List.mem_append_left _ hr
          · exact List.mem_append_right _ (List.mem_cons_of_mem _ hr)
        · rwa [Function.update_of_ne hq'] at hr
      exact setReadyLink_queueOf.trans (h.key q' r hr')
    · by_cases hq' : q' = q
      · subst hq'
        exact h.inRange q' (by rw [hq]; simp)
      · rw [Function.update_of_ne hq'] at hne
        exact h.inRange q' hne
  unfold Kernel.removeReady
  dsimp only
  rw [Kernel.setReadyLink_rdyTail]
  split
  · next ht =>
    rw [if_pos ht] at hlink
    refine hlink.congr rfl ?_ (fun _ => rfl) fun _ _ _ => rfl
    show Function.update _ q _ = _
    rw [Kernel.setReadyLink_rdyTail]
  · next ht =>
    rw [if_neg ht, Function.update_eq_self] at hlink
    exact hlink.congr rfl Kernel.setReadyLink_rdyTail (fun _ => rfl) fun _ _ _ => rfl

/-! ## the processes on the lists -/

/-- The processes of `R`, and no others, are on the list of their priority and policy. -/
def Ready (s : Kernel) (R : ProcPtr → Prop) : Prop :=
  ∃ L, ReadyLists s L ∧ ∀ r, r ∈ L (s.queueOf r) ↔ R r

theorem ReadyLists.length_lt (h : ReadyLists s L) (q : Queue) : (L q).length < loopLimit := by
  have hle := (h.chain q).length_le
  rw [Fintype.card_fin] at hle
  exact Nat.lt_succ_of_le hle

/-- What the search of `dequeue` finds. -/
theorem ReadyLists.seek_cases (h : ReadyLists s L)
    (hseek : seek (fun r => (s.proc r).nextready) (fun r => r = rp) loopLimit none (s.rdyHead q) =
      some (place, x)) :
    (x = none ∧ rp ∉ L q) ∨
      (x = some rp ∧ ∃ l₁ l₂, L q = l₁ ++ rp :: l₂ ∧ place = l₁.getLast?) := by
  rw [seek_eq (h.chain q) none (h.length_lt q)] at hseek
  obtain ⟨hplace, hx⟩ := Prod.mk.inj (Option.some.inj hseek)
  cases hfind : (L q).find? fun r => decide (r = rp) with
  | none =>
    rw [hfind] at hx
    refine Or.inl ⟨hx.symm, fun hmem => ?_⟩
    have := List.find?_eq_none.mp hfind rp hmem
    exact this (decide_eq_true rfl)
  | some c =>
    rw [hfind] at hx
    have hc : c = rp := by simpa using List.find?_some hfind
    obtain ⟨l₁, l₂, hq, htake⟩ := find?_split hfind
    rw [htake, Option.or_none] at hplace
    subst hc
    exact Or.inr ⟨hx.symm, l₁, l₂, hq, hplace.symm⟩

theorem dequeue_moves (h : dequeue rp s = some s') :
    Moves s s' ∧ ∀ r, s'.queueOf r = s.queueOf r := by
  have hremove : ∀ q place r, (s.removeReady q rp place).queueOf r = s.queueOf r := by
    intro q place r
    unfold Kernel.removeReady
    dsimp only
    split
    · exact setReadyLink_queueOf
    · exact setReadyLink_queueOf
  obtain ⟨-, place, x, -, hcases⟩ := dequeue_cases h
  rcases hcases with ⟨-, rfl⟩ | ⟨-, -, rfl⟩ | ⟨-, -, rfl⟩
  · exact ⟨Moves.refl _, fun _ => rfl⟩
  · refine ⟨removeReady_moves.trans pickProc_moves, fun r => ?_⟩
    unfold Kernel.queueOf at hremove ⊢
    rw [pickProc_proc]
    exact hremove _ _ r
  · exact ⟨removeReady_moves, hremove _ _⟩

/-- A process is taken off the list it is on. -/
theorem ReadyLists.dequeue (h : ReadyLists s L) (hstep : dequeue rp s = some s') :
    ∃ L', ReadyLists s' L' ∧ ∀ q, L' q = (L q).erase rp := by
  have hoff : ∀ q, q ≠ s.queueOf rp → rp ∉ L q := fun q hq hmem => hq (h.key q rp hmem).symm
  obtain ⟨-, place, x, hseek, hcases⟩ := dequeue_cases hstep
  rcases h.seek_cases hseek with ⟨rfl, hnot⟩ | ⟨rfl, l₁, l₂, hq, rfl⟩
  · rcases hcases with ⟨-, rfl⟩ | ⟨hx, -⟩ | ⟨hx, -⟩
    · refine ⟨L, h, fun q => (List.erase_of_not_mem ?_).symm⟩
      by_cases hq : q = s'.queueOf rp
      · rwa [hq]
      · exact hoff q hq
    · cases hx
    · cases hx
  · have hnodup := (h.chain (s.queueOf rp)).nodup
    rw [hq, List.nodup_append] at hnodup
    have hnot : rp ∉ l₁ := fun hmem => hnodup.2.2 rp hmem rp List.mem_cons_self rfl
    refine ⟨Function.update L (s.queueOf rp) (l₁ ++ l₂), ?_, fun q => ?_⟩
    · rcases hcases with ⟨hx, -⟩ | ⟨-, -, rfl⟩ | ⟨-, -, rfl⟩
      · cases hx
      · exact (h.removeReady hq).pickProc
      · exact h.removeReady hq
    · by_cases hq' : q = s.queueOf rp
      · subst hq'
        rw [Function.update_self, hq, List.erase_append_right _ hnot, List.erase_cons_head]
      · rw [Function.update_of_ne hq', List.erase_of_not_mem (hoff q hq')]

/-- **A process is taken off.** -/
theorem Ready.dequeue (h : Ready s R) (hstep : dequeue rp s = some s') :
    Ready s' fun r => R r ∧ r ≠ rp := by
  obtain ⟨L, hL, hR⟩ := h
  obtain ⟨L', hL', heq⟩ := hL.dequeue hstep
  refine ⟨L', hL', fun r => ?_⟩
  show _ ↔ R r ∧ r ≠ rp
  rw [(dequeue_moves hstep).2 r, heq, (hL.chain _).nodup.mem_erase_iff, ← hR r, and_comm]

/-! ## `enqueue` -/

/-- What the policies change. -/
theorem sched_spec (r : Proc) :
    (sched r).1 = { r with
      ticksLeft := (sched r).1.ticksLeft
      priority := (sched r).1.priority } ∧
    (sched r).2.1 = ((sched r).1.priority, (sched r).1.scheduler) ∧
    r.priority ≤ (sched r).1.priority ∧
    (r.priority ≤ IDLE_Q - 1 → (sched r).1.priority ≤ IDLE_Q - 1) := by
  unfold sched
  split
  · exact ⟨rfl, rfl, Int.le_refl _, id⟩
  · split
    · unfold schedRr
      dsimp only
      split <;> exact ⟨rfl, rfl, Int.le_refl _, id⟩
    · unfold schedOther
      dsimp only
      split
      · exact ⟨rfl, rfl, Int.le_refl _, id⟩
      · refine ⟨rfl, rfl, ?_, fun h => ?_⟩
        · dsimp only
          split <;> omega
        · dsimp only
          split <;> omega

theorem sched_moves (s : Kernel) (rp : ProcPtr) :
    Moves s (s.setProc rp fun _ => (sched (s.proc rp)).1) := by
  obtain ⟨hproc, -, hle, hlow⟩ := sched_spec (s.proc rp)
  refine ⟨rfl, fun r => ?_, fun r => ?_, fun r hr => ?_⟩
  · by_cases h : r = rp
    · subst h
      rw [Kernel.setProc_self]
      rw [hproc]
    · rw [Kernel.setProc_of_ne h]
  · by_cases h : r = rp
    · subst h
      rwa [Kernel.setProc_self]
    · rw [Kernel.setProc_of_ne h]
  · by_cases h : r = rp
    · subst h
      rw [Kernel.setProc_self]
      exact hlow hr
    · rwa [Kernel.setProc_of_ne h]

theorem enqueue_cases (h : enqueue rp s = some s') :
    ∃ s₁ q, s₁ = (s.setProc rp fun _ => (sched (s.proc rp)).1) ∧ s₁.queueOf rp = q ∧ InRange q ∧
      ((s₁.rdyHead q = none ∧ s' = pickProc
          (((s₁.setHead q (some rp)).setTail q (some rp)).setNextready rp none)) ∨
        (∃ head, s₁.rdyHead q = some head ∧ (sched (s.proc rp)).2.2 = true ∧
          s' = pickProc ((s₁.setNextready rp (some head)).setHead q (some rp))) ∨
        (∃ head tail, s₁.rdyHead q = some head ∧ s₁.rdyTail q = some tail ∧
          s' = pickProc (((s₁.setNextready tail (some rp)).setTail q (some rp)).setNextready
            rp none))) := by
  refine ⟨_, (sched (s.proc rp)).2.1, rfl, ?_, ?_⟩
  · unfold Kernel.queueOf
    rw [Kernel.setProc_self]
    exact (sched_spec (s.proc rp)).2.1.symm
  · unfold enqueue at h
    dsimp only at h
    split at h
    · next hrange =>
      refine ⟨hrange, ?_⟩
      split at h
      · next hhead =>
        cases h
        exact Or.inl ⟨hhead, rfl⟩
      · next head hhead =>
        split at h
        · next hfront =>
          cases h
          exact Or.inr (Or.inl ⟨head, hhead, hfront, rfl⟩)
        · obtain ⟨tail, htail, h⟩ := Option.bind_eq_some_iff.mp h
          cases h
          exact Or.inr (Or.inr ⟨head, tail, hhead, htail, rfl⟩)
    · cases h

section Add

theorem setNextready_nextready : (fun r => ((s.setNextready rp x).proc r).nextready) =
    Function.update (fun r => (s.proc r).nextready) rp x :=
  @setReadyLink_nextready s (0, 0) (some rp) x

theorem setNextready_queueOf : (s.setNextready rp x).queueOf r = s.queueOf r :=
  @setReadyLink_queueOf s (0, 0) r (some rp) x

/-- A process that is on no list goes to the front of one. -/
theorem ReadyLists.pushFront (h : ReadyLists s L) (hnot : ∀ q, rp ∉ L q) (hkey : s.queueOf rp = q)
    (hne : L q ≠ []) (hrange : InRange q) :
    ReadyLists ((s.setNextready rp (s.rdyHead q)).setHead q (some rp))
      (Function.update L q (rp :: L q)) := by
  refine ⟨fun q' => ?_, fun q' hne' => ?_, fun q' r hr => ?_, fun q' hne' => ?_⟩
  · show Chain (fun r => ((s.setNextready rp (s.rdyHead q)).proc r).nextready)
      (Function.update s.rdyHead q (some rp) q') _
    rw [setNextready_nextready]
    by_cases hq' : q' = q
    · subst hq'
      rw [Function.update_self, Function.update_self]
      exact (h.chain q').push (hnot q')
    · rw [Function.update_of_ne hq', Function.update_of_ne hq']
      exact (h.chain q').congr fun r hr =>
        Function.update_of_ne (ne_of_mem_of_not_mem hr (hnot q')) _ _
  · show s.rdyTail q' = _
    by_cases hq' : q' = q
    · subst hq'
      rw [Function.update_self, h.tail q' hne]
      obtain ⟨b, l, hl⟩ := List.exists_cons_of_ne_nil hne
      rw [hl, List.getLast?_cons_cons]
    · rw [Function.update_of_ne hq'] at hne' ⊢
      exact h.tail q' hne'
  · refine setNextready_queueOf.trans ?_
    by_cases hq' : q' = q
    · subst hq'
      rw [Function.update_self] at hr
      rcases List.mem_cons.mp hr with rfl | hr
      · exact hkey
      · exact h.key q' r hr
    · rw [Function.update_of_ne hq'] at hr
      exact h.key q' r hr
  · by_cases hq' : q' = q
    · rwa [hq']
    · rw [Function.update_of_ne hq'] at hne'
      exact h.inRange q' hne'

/-- A process that is on no list goes to the end of one. -/
theorem ReadyLists.append (h : ReadyLists s L) (hnot : ∀ q, rp ∉ L q) (hkey : s.queueOf rp = q)
    (hrange : InRange q)
    (hnext : (fun r => (s'.proc r).nextready) = Function.update
      (relink (fun r => (s.proc r).nextready) (L q).getLast? (some rp)) rp none)
    (hhead : s'.rdyHead =
      Function.update s.rdyHead q (rehead (s.rdyHead q) (L q).getLast? (some rp)))
    (htail : s'.rdyTail = Function.update s.rdyTail q (some rp))
    (hqueue : ∀ r, s'.queueOf r = s.queueOf r) :
    ReadyLists s' (Function.update L q (L q ++ [rp])) := by
  refine ⟨fun q' => ?_, fun q' hne => ?_, fun q' r hr => ?_, fun q' hne => ?_⟩
  · rw [hnext, hhead]
    by_cases hq' : q' = q
    · subst hq'
      rw [Function.update_self, Function.update_self]
      exact (h.chain q').concat (hnot q')
    · rw [Function.update_of_ne hq', Function.update_of_ne hq']
      refine (h.chain q').congr fun r hr => ?_
      rw [Function.update_of_ne (ne_of_mem_of_not_mem hr (hnot q'))]
      refine relink_of_ne fun he => hq' ?_
      rw [← h.key q' r hr, h.key q r (List.mem_of_getLast? he)]
  · rw [htail]
    by_cases hq' : q' = q
    · subst hq'
      rw [Function.update_self, Function.update_self, List.getLast?_concat]
    · rw [Function.update_of_ne hq'] at hne ⊢
      rw [Function.update_of_ne hq']
      exact h.tail q' hne
  · refine (hqueue r).trans ?_
    by_cases hq' : q' = q
    · subst hq'
      rw [Function.update_self] at hr
      rcases List.mem_append.mp hr with hr | hr
      · exact h.key q' r hr
      · rw [List.mem_singleton.mp hr]
        exact hkey
    · rw [Function.update_of_ne hq'] at hr
      exact h.key q' r hr
  · by_cases hq' : q' = q
    · rwa [hq']
    · rw [Function.update_of_ne hq'] at hne
      exact h.inRange q' hne

end Add

theorem ReadyLists.eq_nil_iff (h : ReadyLists s L) : L q = [] ↔ s.rdyHead q = none := by
  rw [(h.chain q).head, List.head?_eq_none_iff]

theorem enqueue_moves (h : enqueue rp s = some s') : Moves s s' := by
  obtain ⟨s₁, q, rfl, -, -, hcases⟩ := enqueue_cases h
  refine (sched_moves s rp).trans ?_
  generalize (s.setProc rp fun _ => (sched (s.proc rp)).1) = s₁ at hcases ⊢
  rcases hcases with ⟨-, rfl⟩ | ⟨head, -, -, rfl⟩ | ⟨head, tail, -, -, rfl⟩
  · have hset : Moves s₁ ((s₁.setHead q (some rp)).setTail q (some rp)) := .of_proc_eq rfl rfl
    exact (hset.trans setNextready_moves).trans pickProc_moves
  · have hset : Moves (s₁.setNextready rp (some head))
        ((s₁.setNextready rp (some head)).setHead q (some rp)) := .of_proc_eq rfl rfl
    exact (setNextready_moves.trans hset).trans pickProc_moves
  · have hset : Moves (s₁.setNextready tail (some rp))
        ((s₁.setNextready tail (some rp)).setTail q (some rp)) := .of_proc_eq rfl rfl
    exact ((setNextready_moves.trans hset).trans setNextready_moves).trans pickProc_moves

/-- Only the two policies with a quantum put a process to the front. -/
theorem sched_front {r : Proc} (h : (sched r).2.2 = true) : r.scheduler ≠ SCHED_FIFO := by
  intro hfifo
  unfold sched at h
  rw [if_pos hfifo] at h
  cases h

/-- A process that is on no list is put on the list of its priority and policy, to the end or, when
it has a quantum left, to the front. -/
theorem ReadyLists.enqueue (h : ReadyLists s L) (hoff : ∀ q, rp ∉ L q)
    (hstep : enqueue rp s = some s') :
    ∃ L', ReadyLists s' L' ∧ (∀ q, q ≠ s'.queueOf rp → L' q = L q) ∧
      (L' (s'.queueOf rp) = L (s'.queueOf rp) ++ [rp] ∨
        (s.proc rp).scheduler ≠ SCHED_FIFO ∧ L' (s'.queueOf rp) = rp :: L (s'.queueOf rp)) ∧
      ∀ r, r ≠ rp → s'.queueOf r = s.queueOf r := by
  obtain ⟨s₁, q, hs₁, hkey, hrange, hcases⟩ := enqueue_cases hstep
  have hsame : ∀ r ≠ rp, s₁.proc r = s.proc r := by
    intro r hr
    rw [hs₁, Kernel.setProc_of_ne hr]
  have hsame' : ∀ r ≠ rp, s₁.queueOf r = s.queueOf r := by
    intro r hr
    unfold Kernel.queueOf
    rw [hsame r hr]
  have hlink : ∀ r, (s₁.proc r).nextready = (s.proc r).nextready := by
    intro r
    rw [hs₁]
    refine Kernel.setProc_field (g := Proc.nextready) ?_ r
    rw [(sched_spec (s.proc rp)).1]
  have hL₁ : ReadyLists s₁ L := h.congr (by rw [hs₁]; rfl) (by rw [hs₁]; rfl) hlink
    fun q r hr => hsame' r (ne_of_mem_of_not_mem hr (hoff q))
  clear hs₁
  have hpick : ∀ {s : Kernel} r, (Minix.pickProc s).queueOf r = s.queueOf r := by
    intro s r
    unfold Kernel.queueOf
    rw [pickProc_proc]
  -- the list of the process is the only one that changes
  have hdone : ∀ {l : List ProcPtr}, (∀ r, s'.queueOf r = s₁.queueOf r) →
      ReadyLists s' (Function.update L q l) →
      (l = L q ++ [rp] ∨ (s.proc rp).scheduler ≠ SCHED_FIFO ∧ l = rp :: L q) →
      ∃ L', ReadyLists s' L' ∧ (∀ q, q ≠ s'.queueOf rp → L' q = L q) ∧
        (L' (s'.queueOf rp) = L (s'.queueOf rp) ++ [rp] ∨
          (s.proc rp).scheduler ≠ SCHED_FIFO ∧ L' (s'.queueOf rp) = rp :: L (s'.queueOf rp)) ∧
        ∀ r, r ≠ rp → s'.queueOf r = s.queueOf r := by
    intro l hqueue hL' hl
    rw [hqueue rp, hkey]
    refine ⟨_, hL', fun q' hq' => Function.update_of_ne hq' .., ?_, fun r hr => ?_⟩
    · rwa [Function.update_self]
    · rw [hqueue, hsame' r hr]
  rcases hcases with ⟨hhead, rfl⟩ | ⟨head, hhead, hfront, rfl⟩ | ⟨head, tail, hhead, htail, rfl⟩
  · have hnil := hL₁.eq_nil_iff.mpr hhead
    refine hdone (fun r => (hpick r).trans setNextready_queueOf)
      (ReadyLists.pickProc (hL₁.append hoff hkey hrange ?_ ?_ rfl fun r => setNextready_queueOf))
      (.inl rfl)
    · rw [setNextready_nextready, hnil]
      rfl
    · rw [hnil, hhead]
      rfl
  · have hcons : L q ≠ [] := fun hnil => by
      rw [hL₁.eq_nil_iff.mp hnil] at hhead
      cases hhead
    refine hdone (fun r => (hpick r).trans setNextready_queueOf) (ReadyLists.pickProc ?_)
      (.inr ⟨sched_front hfront, rfl⟩)
    rw [← hhead]
    exact hL₁.pushFront hoff hkey hcons hrange
  · have hcons : L q ≠ [] := fun hnil => by
      rw [hL₁.eq_nil_iff.mp hnil] at hhead
      cases hhead
    have hlast : (L q).getLast? = some tail := by rw [← hL₁.tail q hcons, htail]
    refine hdone (fun r => (hpick r).trans (setNextready_queueOf.trans setNextready_queueOf))
      (ReadyLists.pickProc (hL₁.append hoff hkey hrange ?_ ?_ rfl
        fun r => setNextready_queueOf.trans setNextready_queueOf)) (.inl rfl)
    · rw [setNextready_nextready, hlast]
      exact congrArg (fun n => Function.update n rp none) setNextready_nextready
    · rw [hlast]
      exact (Function.update_eq_self q s₁.rdyHead).symm

/-- Who is on no list by the predicate is on none. -/
theorem ReadyLists.not_mem (h : ReadyLists s L) (hR : ∀ r, r ∈ L (s.queueOf r) ↔ R r)
    (hnot : ¬ R rp) (q : Queue) : rp ∉ L q := by
  intro hmem
  refine hnot ((hR rp).mp ?_)
  rwa [h.key q rp hmem]

/-- **A process is put on.** -/
theorem Ready.enqueue (h : Ready s R) (hnot : ¬ R rp) (hstep : enqueue rp s = some s') :
    Ready s' fun r => R r ∨ r = rp := by
  obtain ⟨L, hL, hR⟩ := h
  obtain ⟨L', hL', hother, hself, hqueue⟩ := hL.enqueue (hL.not_mem hR hnot) hstep
  have hmem : ∀ r, r ∈ L' (s'.queueOf rp) ↔ r ∈ L (s'.queueOf rp) ∨ r = rp := by
    intro r
    rcases hself with hself | ⟨-, hself⟩ <;> rw [hself] <;> simp [or_comm]
  refine ⟨L', hL', fun r => ?_⟩
  show _ ↔ R r ∨ r = rp
  by_cases hr : r = rp
  · subst hr
    rw [hmem]
    exact ⟨fun _ => Or.inr rfl, fun _ => Or.inr rfl⟩
  · rw [← hR r, ← hqueue r hr]
    by_cases hq : s'.queueOf r = s'.queueOf rp
    · rw [hq, hmem]
    · rw [hother _ hq]
      exact ⟨Or.inl, fun h => h.resolve_right hr⟩

end Minix
