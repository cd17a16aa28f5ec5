import Bambinos.Mbcdd.Steps

/-!
# Readers that wait

* `NoLostWakeup` — a reader is woken when there is something to read or nothing will come
* `Prompt` — no reader begins to wait in vain, none is left waiting, and the writer says that it has
  finished
* `no_lost_wakeup` — then no wake-up is lost
* `wakeup_lost` — otherwise it can be: the writer completes what its own wrapper holds, and does not
  say that it has finished when there is a reader
-/

namespace Mbcdd

open Infra

/-- `f` is open for writing, or was, and its message is `m`. -/
def State.IsWriter (s : State) (f : FileId) (m : Addr) : Prop :=
  (s.filp f).accMode = .wronly ∧ (s.pc f).opened ∧ s.msgOf f = some m

def State.IsReader (s : State) (f : FileId) (m : Addr) : Prop :=
  (s.filp f).accMode = .rdonly ∧ (s.pc f).opened ∧ s.msgOf f = some m

/-- The read that `g` begins, or in which it has found no slot, when no one else moves. -/
def readOn (g : FileId) (s : State) : Option State :=
  (if s.pc g = .idle then step g .read s else some s).bind fun s₁ =>
    if s₁.pc g = .readFinWriter then step g (.go true) s₁ else some s₁

/-- The reader of a message does not wait in vain. -/
structure NoLostWakeup (s : State) : Prop where
  /-- When it waits and there is a slot, or the writer has released the device, its completion has
  been signalled. -/
  wakeup : ∀ f g m, s.IsWriter f m → s.IsReader g m → s.pc g = .readWait →
    ((s.message m).unread ≠ [] ∨ s.pc f = .released) →
      0 < (s.wrapper (s.devWrapper g)).holdReaders.done
  /-- When the writer has released the device and all slots are read, the next read returns 0. -/
  eof : ∀ f g m, s.IsWriter f m → s.IsReader g m → s.pc f = .released →
    (s.message m).unread = [] → s.pc g = .idle ∨ s.pc g = .readFinWriter →
      ∃ s', readOn g s = some s' ∧ s'.pc g = .idle ∧ (s'.filp g).ret = 0

/-- The reader only begins to wait when there is no slot and the writer is still there; while it
waits, the writer neither adds a slot nor releases the device; the writer releases it when there is
no reader. -/
structure Prompt (s : State) (f : FileId) : Prop where
  wait : ∀ m, s.msgOf f = some m → s.pc f = .readFinWriter → (s.message m).finWriter = 1 ∨
    (s.message m).unread = [] ∧ ∀ g, s.IsWriter g m → s.pc g ≠ .released
  write : ∀ m data retval, s.msgOf f = some m → s.pc f = .writeAdd data retval →
    ∀ g, s.IsReader g m → s.pc g ≠ .readWait
  release : ∀ m, s.IsWriter f m → s.pc f = .relReturn → ∀ g, s.IsReader g m → s.pc g ≠ .readWait
  idle : ∀ m, s.msgOf f = some m → s.pc f = .relBusyReader → (s.message m).busyReader = 0

/-- The writer has done what there is to do with the message. -/
def Pc.pastFin : Pc → Bool
  | .relWrapper | .relReturn | .released => true
  | _ => false

/-- What such steps keep. -/
structure Handed (s : State) : Prop where
  wf : Wf s
  fin : ∀ f m, s.IsWriter f m → (s.pc f).pastFin → (s.message m).finWriter = 1
  waiting : ∀ g m, s.IsReader g m → s.pc g = .readWait →
    (s.message m).unread = [] ∧ ∀ f, s.IsWriter f m → s.pc f ≠ .released

variable {s s' : State} {f g : FileId} {a : Act} {m n : Addr} {pc : Pc} {msg : Message}
  {mem : Ledger Obj}

/-! ## steps -/

theorem Local.fin (h : Local s f m pc msg mem) (hfin : (s.message m).finWriter = 1) :
    msg.finWriter = 1 := by
  cases h <;> first | exact hfin | rfl

theorem Local.unread (h : Local s f m pc msg mem) (hunread : (s.message m).unread = [])
    (hadd : ∀ data retval, s.pc f ≠ .writeAdd data retval) : msg.unread = [] := by
  cases h with
  | add h => exact absurd h (hadd _ _)
  | getSlot _ _ h => cases hunread.symm.trans h
  | relSlots =>
    unfold Message.unread
    cases (s.message m).slotCurrent <;> rfl
  | _ => exact hunread

namespace Handed

theorem isWriter_of_ne (h : Handed s) (he : Effect f s s') (hg : g ≠ f) (hw : s'.IsWriter g m) :
    s.IsWriter g m := by
  obtain ⟨hmode, hopened, hmsg⟩ := hw
  rw [State.pc, he.filp_of_ne hg] at hopened
  rw [he.filp_of_ne hg] at hmode
  rw [h.wf.msgOf_of_ne he hg hopened] at hmsg
  exact ⟨hmode, hopened, hmsg⟩

theorem isReader_of_ne (h : Handed s) (he : Effect f s s') (hg : g ≠ f) (hr : s'.IsReader g m) :
    s.IsReader g m := by
  obtain ⟨hmode, hopened, hmsg⟩ := hr
  rw [State.pc, he.filp_of_ne hg] at hopened
  rw [he.filp_of_ne hg] at hmode
  rw [h.wf.msgOf_of_ne he hg hopened] at hmsg
  exact ⟨hmode, hopened, hmsg⟩

theorem fin_moves (h : Handed s) (hp : Prompt s f) (hmsg : s.msgOf f = some m)
    (hlocal : Local s f m pc msg mem) (hch : Changes s s' f m pc msg mem)
    (hw : s'.IsWriter f n) (hpast : (s'.pc f).pastFin) : (s'.message n).finWriter = 1 := by
  obtain ⟨hmode, -, hmsg'⟩ := hw
  rw [hch.accMode] at hmode
  rw [hch.msgOf, hmsg] at hmsg'
  cases hmsg'
  rw [hch.message_self]
  rw [hch.pc_self] at hpast
  have hold : (s.pc f).pastFin → (s.message m).finWriter = 1 :=
    h.fin f m ⟨hmode, hlocal.opened, hmsg⟩
  cases hlocal with
  | releaseOther _ hother => cases hmode.symm.trans hother
  | relBusyReader hpc hbusy => exact absurd (hp.idle m hmsg hpc) hbusy
  | relFinWriter => rfl
  | relMsg hpc => cases hmode.symm.trans (h.wf.mode f .rdonly (by rw [hpc]; rfl))
  | relWrapper hpc => exact hold (by rw [hpc]; rfl)
  | relReturn hpc => exact hold (by rw [hpc]; rfl)
  | getNone _ hpc => obtain rfl | rfl := hpc <;> cases hpast
  | getSlot _ hpc => obtain rfl | rfl := hpc <;> cases hpast
  | _ => cases hpast

theorem released_moves (hp : Prompt s f) (hmsg : s.msgOf f = some m)
    (hlocal : Local s f m pc msg mem) (hpc : pc = .released) (hr : s.IsReader g m)
    (hwait : s.pc g = .readWait) : (s.filp f).accMode ≠ .wronly := by
  intro hmode
  cases hlocal with
  | relReturn h => exact hp.release m ⟨hmode, by rw [h]; rfl, hmsg⟩ h g hr hwait
  | getNone _ hpc' => obtain rfl | rfl := hpc' <;> cases hpc
  | getSlot _ hpc' => obtain rfl | rfl := hpc' <;> cases hpc
  | _ => cases hpc

theorem moves (h : Handed s) (hwf : Wf s') (hp : Prompt s f) (he : Effect f s s')
    (hmsg : s.msgOf f = some m) (hlocal : Local s f m pc msg mem)
    (hch : Changes s s' f m pc msg mem) : Handed s' where
  wf := hwf
  fin g n hw hpast := by
    by_cases hg : g = f
    · subst hg
      exact h.fin_moves hp hmsg hlocal hch hw hpast
    · have hw' := h.isWriter_of_ne he hg hw
      rw [State.pc, he.filp_of_ne hg] at hpast
      have hold := h.fin g n hw' hpast
      by_cases hn : n = m
      · subst hn
        rw [hch.message_self]
        exact hlocal.fin hold
      · rwa [hch.message_of_ne hn]
  waiting g n hr hwait := by
    by_cases hg : g = f
    · -- the reader begins to wait
      subst hg
      obtain ⟨hmode, -, hmsg'⟩ := hr
      rw [hch.accMode] at hmode
      rw [hch.msgOf, hmsg] at hmsg'
      cases hmsg'
      rw [hch.pc_self] at hwait
      cases hlocal with
      | unfinished hpc hfin =>
        obtain ⟨hunread, hnone⟩ := (hp.wait m hmsg hpc).resolve_left hfin
        refine ⟨by rwa [hch.message_self], fun w hw => ?_⟩
        by_cases hwg : w = g
        · rw [hwg, hch.pc_self]
          exact Pc.noConfusion
        · rw [State.pc, he.filp_of_ne hwg]
          exact hnone w (h.isWriter_of_ne he hwg hw)
      | getNone _ hpc => obtain rfl | rfl := hpc <;> cases hwait
      | getSlot _ hpc => obtain rfl | rfl := hpc <;> cases hwait
      | _ => cases hwait
    · -- it waits already
      have hr' := h.isReader_of_ne he hg hr
      rw [State.pc, he.filp_of_ne hg] at hwait
      obtain ⟨hunread, hnone⟩ := h.waiting g n hr' hwait
      refine ⟨?_, fun w hw => ?_⟩
      · by_cases hn : n = m
        · subst hn
          rw [hch.message_self]
          exact hlocal.unread hunread fun data retval hpc =>
            hp.write n data retval hmsg hpc g hr' hwait
        · rwa [hch.message_of_ne hn]
      · by_cases hwf' : w = f
        · subst hwf'
          obtain ⟨hmode, -, hmsg'⟩ := hw
          rw [hch.accMode] at hmode
          rw [hch.msgOf, hmsg] at hmsg'
          cases hmsg'
          rw [hch.pc_self]
          exact fun hpc => released_moves hp hmsg hlocal hpc hr' hwait hmode
        · rw [State.pc, he.filp_of_ne hwf']
          exact hnone w (h.isWriter_of_ne he hwf' hw)

/-- A file that is being opened neither waits nor has finished. -/
theorem opening (h : Handed s) (hwf : Wf s') (he : Effect f s s') (hpc : (s'.pc f).opening)
    (hmessage : ∀ m < s.next, s'.message m = s.message m) : Handed s' where
  wf := hwf
  fin g n hw hpast := by
    have hg : g ≠ f := by
      rintro rfl
      cases hf : s'.pc g <;> simp_all [Pc.opening, Pc.pastFin]
    have hw' := h.isWriter_of_ne he hg hw
    rw [State.pc, he.filp_of_ne hg] at hpast
    rw [hmessage n (h.wf.msg_lt _ n hw'.2.2)]
    exact h.fin g n hw' hpast
  waiting g n hr hwait := by
    have hg : g ≠ f := by
      rintro rfl
      rw [hwait] at hpc
      cases hpc
    have hr' := h.isReader_of_ne he hg hr
    rw [State.pc, he.filp_of_ne hg] at hwait
    obtain ⟨hunread, hnone⟩ := h.waiting g n hr' hwait
    refine ⟨by rwa [hmessage n (h.wf.msg_lt _ n hr'.2.2)], fun w hw => ?_⟩
    by_cases hwf' : w = f
    · rintro hreleased
      rw [hwf'] at hreleased
      rw [hreleased] at hpc
      cases hpc
    · rw [State.pc, he.filp_of_ne hwf']
      exact hnone w (h.isWriter_of_ne he hwf' hw)

theorem step (h : Handed s) (hp : Prompt s f) (hstep : step f a s = some s') : Handed s' := by
  have he := step_cases h.wf.hasMsg hstep
  have hwf := h.wf.step hstep
  obtain ⟨hpc, hmessage⟩ | ⟨m, pc, msg, mem, hmsg, hlocal, hch⟩ := he.opening_or_moves
  · exact h.opening hwf he hpc hmessage
  · exact h.moves hwf hp he hmsg hlocal hch

theorem boot : Handed boot where
  wf := .boot
  fin _ _ hw := by cases hw.2.1
  waiting _ _ hr := by cases hr.2.1

theorem run {h : History} (hrun : Run h s) (hp : ∀ e ∈ h, Prompt e.1 e.2.1) : Handed s := by
  induction hrun with
  | boot => exact boot
  | step hrun hstep ih =>
    exact (ih fun e he => hp e (List.mem_append_left _ he)).step
      (hp _ (List.mem_append_right _ (List.mem_singleton_self _))) hstep

end Handed

/-! ## the end of the message -/

theorem readFinWriter_returns (hmsg : s.msgOf g = some m) (hpc : s.pc g = .readFinWriter)
    (hfin : (s.message m).finWriter = 1) :
    ∃ s', step g (.go true) s = some s' ∧ s'.pc g = .idle ∧ (s'.filp g).ret = 0 := by
  refine ⟨readFinWriter g s, by simp only [step, hpc], ?_⟩
  rw [readFinWriter, derefMsg_some hmsg]
  dsimp only
  rw [if_pos hfin]
  simp [State.pc, State.return_, State.setFilp]

/-- A read that finds no slot. -/
theorem mbcddRead_none (hmsg : s.msgOf g = some m) (hunread : (s.message m).unread = []) :
    mbcddRead g s = ({ s with mem := s.currentMem g m }).setPc g .readFinWriter := by
  rw [mbcddRead, derefMsg_some hmsg]
  obtain ⟨-, hget⟩ | ⟨x, xs, hnil, -⟩ := getDataSlot_cases (s := s) (f := g) (m := m)
  · rw [hget]
  · cases hunread.symm.trans hnil

theorem readOn_returns (hr : s.IsReader g m) (hunread : (s.message m).unread = [])
    (hfin : (s.message m).finWriter = 1) (hpc : s.pc g = .idle ∨ s.pc g = .readFinWriter) :
    ∃ s', readOn g s = some s' ∧ s'.pc g = .idle ∧ (s'.filp g).ret = 0 := by
  obtain ⟨hmode, -, hmsg⟩ := hr
  unfold readOn
  obtain hpc | hpc := hpc
  · have hread : step g .read s = some (mbcddRead g s) := by
      simp only [step, hpc, hmode, if_true]
    rw [if_pos hpc, hread, mbcddRead_none hmsg hunread, Option.bind_some]
    set s₁ := ({ s with mem := s.currentMem g m }).setPc g .readFinWriter with hs₁
    have hpc₁ : s₁.pc g = .readFinWriter := by
      simp [hs₁, State.pc, State.setPc, State.setFilp]
    have hmsg₁ : s₁.msgOf g = some m := by
      simpa [hs₁, State.msgOf, State.devWrapper, State.setPc, State.setFilp] using hmsg
    rw [if_pos hpc₁]
    exact readFinWriter_returns hmsg₁ hpc₁ hfin
  · rw [if_neg (by rw [hpc]; exact Pc.noConfusion), Option.bind_some, if_pos hpc]
    exact readFinWriter_returns hmsg hpc hfin

/--
**Waiting.** In every run whose steps are prompt, no wake-up is lost and the reader of a message gets
to its end.
-/
theorem no_lost_wakeup {h : History} (hrun : Run h s) (hp : ∀ e ∈ h, Prompt e.1 e.2.1) :
    NoLostWakeup s := by
  have hs := Handed.run hrun hp
  refine ⟨fun f g m hw hr hwait hcause => ?_, fun f g m hw hr hreleased hunread hpc => ?_⟩
  · obtain ⟨hunread, hnone⟩ := hs.waiting g m hr hwait
    exact hcause.elim (fun h => absurd hunread h) fun h => absurd h (hnone f hw)
  · exact readOn_returns hr hunread (hs.fin f m hw (by rw [hreleased]; rfl)) hpc

/-! ## computing a run -/

/-- `Prompt`, when only the files below `k` are open. -/
def promptBelow (k : Nat) (s : State) (f : FileId) : Bool :=
  (s.msgOf f).all fun m =>
    let noneWaits := (List.range k).all fun g =>
      decide (s.pc g ≠ .readWait ∨ s.msgOf g ≠ some m)
    match s.pc f with
    | .readFinWriter => decide ((s.message m).finWriter = 1)
    | .writeAdd .. => noneWaits
    | .relReturn => noneWaits
    | .relBusyReader => decide ((s.message m).busyReader = 0)
    | _ => true

theorem prompt_of_below {k : Nat} (hclosed : ∀ g, k ≤ g → s.pc g = .closed)
    (h : promptBelow k s f) : Prompt s f := by
  have hcheck : ∀ m, s.msgOf f = some m → _ := fun m hm => by
    unfold promptBelow at h
    rw [hm] at h
    exact h
  have hwaits : ∀ m, ((List.range k).all fun g =>
      decide (s.pc g ≠ .readWait ∨ s.msgOf g ≠ some m)) →
      ∀ g, s.IsReader g m → s.pc g ≠ .readWait := by
    intro m hall g hr hwait
    have hlt : g < k := by
      by_contra hge
      rw [hclosed g (Nat.le_of_not_lt hge)] at hwait
      cases hwait
    have hg := of_decide_eq_true (List.all_eq_true.mp hall g (List.mem_range.mpr hlt))
    exact hg.elim (fun hg => hg hwait) fun hg => hg hr.2.2
  refine ⟨fun m hm hpc => ?_, fun m data retval hm hpc => ?_, fun m hw hpc => ?_, fun m hm hpc => ?_⟩
  · have hc := hcheck m hm
    rw [hpc] at hc
    exact .inl (of_decide_eq_true hc)
  · have hc := hcheck m hm
    rw [hpc] at hc
    exact hwaits m hc
  · have hc := hcheck m hw.2.2
    rw [hpc] at hc
    exact hwaits m hc
  · have hc := hcheck m hm
    rw [hpc] at hc
    exact of_decide_eq_true hc

/-- The files that make no step stay closed. -/
theorem execute_closed {k : Nat} : ∀ {l : List (FileId × Act)} {h : History} {s s' : State},
    Wf s → (∀ p ∈ l, p.1 < k) → (∀ g, k ≤ g → s.pc g = .closed) → execute l s = some (h, s') →
      ∀ e ∈ h, ∀ g, k ≤ g → e.1.pc g = .closed
  | [], h, s, s', _, _, _, hexec => by
    cases hexec
    simp
  | (f, a) :: l, h, s, s', hwf, hlt, hclosed, hexec => by
    obtain ⟨s₁, hstep, hrest⟩ := Option.bind_eq_some_iff.mp hexec
    obtain ⟨⟨h₁, s₂⟩, hexec₁, heq⟩ := Option.map_eq_some_iff.mp hrest
    cases heq
    have hclosed₁ : ∀ g, k ≤ g → s₁.pc g = .closed := by
      intro g hg
      have hf : f < k := hlt (f, a) (List.mem_cons_self ..)
      have hne : g ≠ f := Nat.ne_of_gt (Nat.lt_of_lt_of_le hf hg)
      rw [State.pc, (step_cases hwf.hasMsg hstep).filp_of_ne hne]
      exact hclosed g hg
    intro e he
    obtain rfl | he := List.mem_cons.mp he
    · exact hclosed
    · exact execute_closed (hwf.step hstep) (fun p hp => hlt p (List.mem_cons_of_mem _ hp)) hclosed₁
        hexec₁ e he

/-- One message, which is read when it is complete: the slot, and then the end. -/
def oneMessage : List (FileId × Act) :=
  writerOpen 0 ++ writeSlot 0 ++
    [(0, .release), (0, .go true), (0, .go true), (0, .go true), (0, .go true)] ++
    readerOpen 1 ++ [(1, .read), (1, .read), (1, .go true)]

theorem no_lost_wakeup_oneMessage : ∃ h s, execute oneMessage boot = some (h, s) ∧
    (s.filp 1).ret = 0 ∧ NoLostWakeup s := by
  have hsome : ((execute oneMessage boot).any fun r => decide ((r.2.filp 1).ret = 0) &&
      r.1.all fun e => promptBelow 2 e.1 e.2.1) := by
    decide +kernel
  obtain ⟨⟨h, s⟩, hexec, hcheck⟩ := (Option.any_eq_true _ _).mp hsome
  obtain ⟨hret, hall⟩ := Bool.and_eq_true_iff.mp hcheck
  have hclosed := execute_closed (k := 2) .boot (by decide) (fun _ _ => rfl) hexec
  refine ⟨h, s, hexec, of_decide_eq_true hret, ?_⟩
  exact no_lost_wakeup (execute_run .boot hexec) fun e he =>
    prompt_of_below (hclosed e he) (List.all_eq_true.mp hall e he)

/-! ## a wake-up that is lost -/

/-- The reader finds no slot and waits, then the writer adds one. -/
def lateWrite : List (FileId × Act) :=
  writerOpen 0 ++ readerOpen 1 ++ [(1, .read), (1, .go true)] ++ writeSlot 0 ++ [(0, .go true)]

/-- The writer signals the completion in its own wrapper, and the reader goes on waiting. -/
theorem wakeup_lost : ∃ h s, Run h s ∧ s.pc 0 = .idle ∧ s.pc 1 = .readWait ∧ ¬ NoLostWakeup s := by
  have hsome : ((execute lateWrite boot).any fun r =>
      decide ((r.2.filp 0).accMode = .wronly ∧ r.2.pc 0 = .idle ∧ r.2.msgOf 0 = some 1) &&
      decide ((r.2.filp 1).accMode = .rdonly ∧ r.2.pc 1 = .readWait ∧ r.2.msgOf 1 = some 1) &&
      decide ((r.2.message 1).unread ≠ []) &&
      decide ((r.2.wrapper (r.2.devWrapper 1)).holdReaders.done = 0)) := by
    decide +kernel
  obtain ⟨⟨h, s⟩, hexec, hcheck⟩ := (Option.any_eq_true _ _).mp hsome
  simp only [Bool.and_eq_true, decide_eq_true_eq] at hcheck
  obtain ⟨⟨⟨⟨hmode₀, hpc₀, hmsg₀⟩, hmode₁, hpc₁, hmsg₁⟩, hunread⟩, hdone⟩ := hcheck
  refine ⟨h, s, execute_run .boot hexec, hpc₀, hpc₁, fun hok => ?_⟩
  have hw : s.IsWriter 0 1 := ⟨hmode₀, by rw [hpc₀]; rfl, hmsg₀⟩
  have hr : s.IsReader 1 1 := ⟨hmode₁, by rw [hpc₁]; rfl, hmsg₁⟩
  have hpos := hok.wakeup 0 1 1 hw hr hpc₁ (.inl hunread)
  rw [hdone] at hpos
  exact Nat.lt_irrefl 0 hpos

end Mbcdd
