import Bambinos.Mbcdd.Steps

/-!
# What is freed

* `LifetimesOk` — nothing was used or freed after it had been freed, and the messages of the writers
  are there
* `Careful` — no release gets as far as its last line, and no message is freed under its writer
* `lifetimes_ok_iff` — a run goes well exactly if its steps are careful
* `message_freed` — a reader that is faster than the writer frees the message under it
-/

namespace Mbcdd

open Infra

/-- The file has a wrapper that is not freed. -/
def Pc.holdsWrapper : Pc → Bool
  | .closed | .relReturn | .released | .failed | .oops => false
  | _ => true

/-- The message is open at a writer. -/
def State.OpenForWriting (s : State) (f : FileId) (m : Addr) : Prop :=
  (s.filp f).accMode = .wronly ∧ (s.pc f).holdsWrapper ∧ s.msgOf f = some m

structure LifetimesOk (s : State) : Prop where
  faults : s.mem.faults = []
  writers : ∀ f m, s.OpenForWriting f m → s.mem.status (.message m) = .live

/-- The step is not the last line of `mbcdd_release`, and does not free a message that a writer has
open. -/
structure Careful (s : State) (f : FileId) : Prop where
  print : s.pc f ≠ .relReturn
  delete : ∀ m, s.pc f = .relMsg → s.msgOf f = some m → ∀ g, ¬ s.OpenForWriting g m

/-- The file may use the message. -/
def State.Holds (s : State) (f : FileId) (m : Addr) : Prop :=
  s.msgOf f = some m ∧ (s.pc f).holdsWrapper ∧
    ((s.filp f).accMode = .wronly ∨ (s.filp f).accMode = .rdonly ∧ s.pc f ≠ .relWrapper)

/-! ## the invariant -/

structure WrappersOk (s : State) : Prop where
  live : ∀ f, (s.pc f).holdsWrapper → s.mem.status (.wrapper (s.devWrapper f)) = .live
  freed : ∀ f, s.pc f = .relReturn → s.mem.status (.wrapper (s.devWrapper f)) ≠ .live
  mode : ∀ f, (s.pc f).holdsWrapper → (s.filp f).accMode ≠ .other

structure MessagesOk (s : State) : Prop where
  live : ∀ f m, s.Holds f m → s.mem.status (.message m) = .live
  reader : ∀ f g m, (s.filp f).accMode = .rdonly → (s.filp g).accMode = .rdonly →
    s.Holds f m → s.Holds g m → f = g
  rootNodup : s.msgRoot.Nodup
  rootLive : ∀ m ∈ s.msgRoot, s.mem.status (.message m) = .live
  rootReader : ∀ f m, (s.filp f).accMode = .rdonly → s.Holds f m → m ∉ s.msgRoot

structure SlotsOk (s : State) : Prop where
  live : ∀ m, s.mem.status (.message m) = .live →
    ∀ x ∈ (s.message m).slotRoot, s.mem.status (.slot x) = .live
  nodup : ∀ m, s.mem.status (.message m) = .live → (s.message m).slotRoot.Nodup
  disjoint : ∀ m n x, s.mem.status (.message m) = .live → s.mem.status (.message n) = .live →
    x ∈ (s.message m).slotRoot → x ∈ (s.message n).slotRoot → m = n
  lt : ∀ m, s.mem.status (.message m) = .live → ∀ x ∈ (s.message m).slotRoot, x < s.next
  current : ∀ f m, (s.filp f).accMode = .rdonly → s.Holds f m → s.pc f ≠ .relMsg →
    ∀ c ∈ (s.message m).slotCurrent, c ∈ (s.message m).slotRoot
  rootCurrent : ∀ m ∈ s.msgRoot, (s.message m).slotCurrent = none

/-- What careful steps keep. -/
structure Owned (s : State) : Prop where
  wf : Wf s
  faults : s.mem.faults = []
  wrappers : WrappersOk s
  messages : MessagesOk s
  slots : SlotsOk s

variable {s s' : State} {f g : FileId} {a : Act} {m n : Addr} {pc : Pc} {msg : Message}
  {mem : Ledger Obj}

/-! ## the places of a file -/

namespace Local

theorem holdsWrapper (h : Local s f m pc msg mem) (hpc : pc.holdsWrapper) :
    (s.pc f).holdsWrapper := by
  cases h with
  | getNone h => obtain ⟨h, -⟩ | h := h <;> rw [h] <;> rfl
  | getSlot h => obtain ⟨h, -⟩ | h := h <;> rw [h] <;> rfl
  | _ => simp_all [Pc.holdsWrapper]

theorem relReturn_of (h : Local s f m pc msg mem) (hpc : pc = .relReturn) :
    s.pc f = .relWrapper := by
  cases h with
  | getNone _ h => obtain rfl | rfl := h <;> cases hpc
  | getSlot _ h => obtain rfl | rfl := h <;> cases hpc
  | relWrapper h => exact h
  | _ => cases hpc

theorem source (h : Local s f m pc msg mem) :
    (s.pc f).holdsWrapper ∨ s.pc f = .relReturn := by
  cases h with
  | getNone h => obtain ⟨h, -⟩ | h := h <;> exact .inl (by rw [h]; rfl)
  | getSlot h => obtain ⟨h, -⟩ | h := h <;> exact .inl (by rw [h]; rfl)
  | relReturn h => exact .inr h
  | _ h => simp_all [Pc.holdsWrapper]

theorem of_relWrapper (h : Local s f m pc msg mem) (hpc : s.pc f = .relWrapper) :
    pc = .relReturn := by
  cases h with
  | getNone h => obtain ⟨h, -⟩ | h := h <;> cases hpc.symm.trans h
  | getSlot h => obtain ⟨h, -⟩ | h := h <;> cases hpc.symm.trans h
  | relWrapper h => rfl
  | _ h => simp_all

end Local

theorem holds_of_ne (hwf : Wf s) (he : Effect f s s') (hg : g ≠ f) (h : s'.Holds g m) :
    s.Holds g m := by
  obtain ⟨hmsg, hpc, hmode⟩ := h
  rw [State.pc, he.filp_of_ne hg] at hpc hmode
  refine ⟨?_, hpc, hmode⟩
  rwa [hwf.msgOf_of_ne he hg (by cases hf : s.pc g <;> simp_all [Pc.holdsWrapper, Pc.opened])]
    at hmsg

theorem holds_moves (hwf : Wf s) (he : Effect f s s') (hlocal : Local s f m pc msg mem)
    (hch : Changes s s' f m pc msg mem) (h : s'.Holds g n) : s.Holds g n := by
  by_cases hg : g = f
  · subst hg
    obtain ⟨hmsg, hpc, hmode⟩ := h
    rw [hch.pc_self] at hpc hmode
    rw [hch.accMode] at hmode
    rw [hch.msgOf] at hmsg
    refine ⟨hmsg, hlocal.holdsWrapper hpc, hmode.imp_right fun hmode => ⟨hmode.1, fun hw => ?_⟩⟩
    rw [hlocal.of_relWrapper hw] at hpc
    cases hpc
  · exact holds_of_ne hwf he hg h

/-! ## the ledger -/

theorem delSlots_spec : ∀ {xs : List Addr} {mem : Ledger Obj}, xs.Nodup →
    (∀ x ∈ xs, mem.status (.slot x) = .live) → (delSlots xs mem).faults = mem.faults ∧
      ∀ o, (∀ x ∈ xs, o ≠ .slot x) → (delSlots xs mem).status o = mem.status o
  | [], mem, _, _ => ⟨rfl, fun _ _ => rfl⟩
  | x :: xs, mem, hnodup, hlive => by
    obtain ⟨hx, hnodup⟩ := List.nodup_cons.mp hnodup
    have huses : mem.uses ((x :: xs.head?.toList).map .slot) = mem := by
      refine Ledger.uses_live fun o ho => ?_
      obtain ⟨y, hy, rfl⟩ := List.mem_map.mp ho
      refine hlive y ?_
      obtain rfl | hy := List.mem_cons.mp hy
      · exact List.mem_cons_self ..
      · exact List.mem_cons_of_mem _ (List.mem_of_head? (Option.mem_toList.mp hy))
    have hfree := hlive x (List.mem_cons_self ..)
    have hlive' : ∀ y ∈ xs, (mem.free (.slot x)).status (.slot y) = .live := by
      intro y hy
      rw [Ledger.free_of_ne (by rintro ⟨⟩; exact hx hy)]
      exact hlive y (List.mem_cons_of_mem _ hy)
    obtain ⟨hfaults, hstatus⟩ := delSlots_spec hnodup hlive'
    rw [delSlots, huses]
    refine ⟨hfaults.trans (Ledger.free_faults hfree), fun o ho => ?_⟩
    rw [hstatus o fun y hy => ho y (List.mem_cons_of_mem _ hy)]
    exact Ledger.free_of_ne (ho x (List.mem_cons_self ..))

namespace Owned

/-- A file that has not freed its wrapper holds its message, except a reader that has deleted it. -/
theorem holds (h : Owned s) (hmsg : s.msgOf f = some m) (hpc : (s.pc f).holdsWrapper)
    (hw : s.pc f ≠ .relWrapper) : s.Holds f m := by
  refine ⟨hmsg, hpc, ?_⟩
  have hmode := h.wrappers.mode f hpc
  cases hm : (s.filp f).accMode with
  | wronly => exact .inl rfl
  | rdonly => exact .inr ⟨rfl, hw⟩
  | other => exact absurd hm hmode

theorem derefMem_eq (h : Owned s) (hmsg : s.msgOf f = some m) (hpc : (s.pc f).holdsWrapper)
    (hw : s.pc f ≠ .relWrapper) : s.derefMem f m = s.mem := by
  rw [State.derefMem, Ledger.use_live (h.wrappers.live f hpc)]
  exact Ledger.use_live (h.messages.live f m (h.holds hmsg hpc hw))

theorem currentMem_eq (h : Owned s) (hmsg : s.msgOf f = some m) (hpc : (s.pc f).holdsWrapper)
    (hw : s.pc f ≠ .relWrapper) (hmode : (s.filp f).accMode = .rdonly) (hdel : s.pc f ≠ .relMsg) :
    s.currentMem f m = s.mem := by
  rw [State.currentMem, h.derefMem_eq hmsg hpc hw]
  have hholds := h.holds hmsg hpc hw
  refine Ledger.uses_live fun o ho => ?_
  obtain ⟨c, hc, rfl⟩ := List.mem_map.mp ho
  refine h.slots.live m (h.messages.live f m hholds) c ?_
  exact h.slots.current f m hmode hholds hdel c (Option.mem_toList.mp hc)

end Owned

/-! ## the wrappers -/

namespace WrappersOk

theorem moves (h : WrappersOk s) (hlocal : Local s f m pc msg mem)
    (hch : Changes s s' f m pc msg mem) (hpc : s.pc f ≠ .relWrapper)
    (hstatus : ∀ w, mem.status (.wrapper w) = s.mem.status (.wrapper w)) : WrappersOk s' where
  live g hg := by
    rw [hch.mem, hstatus, hch.devWrapper]
    by_cases hgf : g = f
    · subst hgf
      rw [hch.pc_self] at hg
      exact h.live g (hlocal.holdsWrapper hg)
    · rw [State.pc, hch.filp_of_ne hgf] at hg
      exact h.live g hg
  freed g hg := by
    rw [hch.mem, hstatus, hch.devWrapper]
    by_cases hgf : g = f
    · subst hgf
      rw [hch.pc_self] at hg
      exact absurd (hlocal.relReturn_of hg) hpc
    · rw [State.pc, hch.filp_of_ne hgf] at hg
      exact h.freed g hg
  mode g hg := by
    rw [hch.accMode]
    by_cases hgf : g = f
    · subst hgf
      rw [hch.pc_self] at hg
      exact h.mode g (hlocal.holdsWrapper hg)
    · rw [State.pc, hch.filp_of_ne hgf] at hg
      exact h.mode g hg

/-- A wrapper is freed by its own file. -/
theorem relWrapper (h : WrappersOk s) (hwf : Wf s) (hpc : s.pc f = .relWrapper)
    (hch : Changes s s' f m .relReturn msg (s.mem.free (.wrapper (s.devWrapper f)))) :
    WrappersOk s' := by
  have hfree := Ledger.free_self (h.live f (by rw [hpc]; rfl))
  have hother : ∀ g, g ≠ f → (s.pc g).opened →
      (s.mem.free (.wrapper (s.devWrapper f))).status (.wrapper (s.devWrapper g)) =
        s.mem.status (.wrapper (s.devWrapper g)) := by
    intro g hg hopened
    refine Ledger.free_of_ne fun heq => hg ?_
    exact hwf.wrapper_inj g f hopened (by rw [hpc]; rfl) (Obj.wrapper.inj heq)
  have hpc' : ∀ g, g ≠ f → s'.pc g = s.pc g := fun g hg => by rw [State.pc, hch.filp_of_ne hg]
  refine ⟨fun g hg => ?_, fun g hg => ?_, fun g hg => ?_⟩
  · have hgf : g ≠ f := by
      rintro rfl
      rw [hch.pc_self] at hg
      cases hg
    rw [hpc' g hgf] at hg
    rw [hch.mem, hch.devWrapper,
      hother g hgf (by cases hf : s.pc g <;> simp_all [Pc.holdsWrapper, Pc.opened])]
    exact h.live g hg
  · rw [hch.mem, hch.devWrapper]
    by_cases hgf : g = f
    · rw [hgf, hfree]
      exact Status.noConfusion
    · rw [hpc' g hgf] at hg
      rw [hother g hgf (by rw [hg]; rfl)]
      exact h.freed g hg
  · have hgf : g ≠ f := by
      rintro rfl
      rw [hch.pc_self] at hg
      cases hg
    rw [hpc' g hgf] at hg
    rw [hch.accMode]
    exact h.mode g hg

end WrappersOk

/-! ## the messages -/

namespace MessagesOk

theorem moves (h : MessagesOk s) (hwf : Wf s) (he : Effect f s s')
    (hlocal : Local s f m pc msg mem) (hch : Changes s s' f m pc msg mem)
    (hpc : s.pc f ≠ .relMsg)
    (hstatus : ∀ n, mem.status (.message n) = s.mem.status (.message n)) : MessagesOk s' := by
  have hroot : s'.msgRoot = s.msgRoot := hch.root.trans (if_neg hpc)
  refine ⟨fun g n hg => ?_, fun g g' n hg hg' hh hh' => ?_, ?_, fun n hn => ?_, fun g n hg hh => ?_⟩
  · rw [hch.mem, hstatus]
    exact h.live g n (holds_moves hwf he hlocal hch hg)
  · rw [hch.accMode] at hg hg'
    exact h.reader g g' n hg hg' (holds_moves hwf he hlocal hch hh)
      (holds_moves hwf he hlocal hch hh')
  · rw [hroot]
    exact h.rootNodup
  · rw [hch.mem, hstatus]
    rw [hroot] at hn
    exact h.rootLive n hn
  · rw [hch.accMode] at hg
    rw [hroot]
    exact h.rootReader g n hg (holds_moves hwf he hlocal hch hh)

/-- A message is freed by its reader, when no writer has it open. -/
theorem relMsg (h : MessagesOk s) (hwf : Wf s) (he : Effect f s s')
    (hlocal : Local s f m pc msg mem) (hch : Changes s s' f m pc msg mem)
    (hpc : s.pc f = .relMsg) (hpc' : pc = .relWrapper) (hf : s.Holds f m)
    (hnone : ∀ g, ¬ s.OpenForWriting g m)
    (hmem : ∀ n, n ≠ m → mem.status (.message n) = s.mem.status (.message n)) :
    MessagesOk s' := by
  have hmode : (s.filp f).accMode = .rdonly := hwf.mode f .rdonly (by rw [hpc]; rfl)
  have hnotin : m ∉ s.msgRoot := h.rootReader f m hmode hf
  have hroot : s'.msgRoot = s.msgRoot := by
    rw [hch.root, if_pos hpc, List.erase_of_not_mem hnotin]
  -- no one else holds the message
  have hne : ∀ g n, s'.Holds g n → n ≠ m := by
    rintro g n hg rfl
    obtain ⟨hmsg, hhold, hmode'⟩ := id hg
    have hold := holds_moves hwf he hlocal hch hg
    obtain hw | ⟨hr, hpcg⟩ := hmode'
    · rw [hch.accMode] at hw
      exact hnone g ⟨hw, hold.2.1, hold.1⟩
    · rw [hch.accMode] at hr
      have hgf := h.reader g f n hr hmode hold hf
      rw [hgf, hch.pc_self] at hpcg
      exact hpcg hpc'
  refine ⟨fun g n hg => ?_, fun g g' n hg hg' hh hh' => ?_, ?_, fun n hn => ?_, fun g n hg hh => ?_⟩
  · rw [hch.mem, hmem n (hne g n hg)]
    exact h.live g n (holds_moves hwf he hlocal hch hg)
  · rw [hch.accMode] at hg hg'
    exact h.reader g g' n hg hg' (holds_moves hwf he hlocal hch hh)
      (holds_moves hwf he hlocal hch hh')
  · rw [hroot]
    exact h.rootNodup
  · rw [hroot] at hn
    rw [hch.mem, hmem n (by rintro rfl; exact hnotin hn)]
    exact h.rootLive n hn
  · rw [hch.accMode] at hg
    rw [hroot]
    exact h.rootReader g n hg (holds_moves hwf he hlocal hch hh)

end MessagesOk

/-! ## the slots -/

theorem unread_subset (msg : Message) : msg.unread ⊆ msg.slotRoot := by
  unfold Message.unread
  split
  · exact List.Subset.refl _
  · exact fun x hx => (List.dropWhile_sublist _).subset (List.mem_of_mem_tail hx)

namespace SlotsOk

/-- The slots of the messages that are live are as before. -/
theorem moves (h : SlotsOk s) (hwf : Wf s) (he : Effect f s s')
    (hlocal : Local s f m pc msg mem) (hch : Changes s s' f m pc msg mem)
    (hroot : msg.slotRoot = (s.message m).slotRoot)
    (hcurrent : msg.slotCurrent = (s.message m).slotCurrent)
    (hpc : s.pc f = .relMsg → pc = .relWrapper)
    (hlive : ∀ n, mem.status (.message n) = .live → s.mem.status (.message n) = .live)
    (hslot : ∀ x, mem.status (.slot x) = s.mem.status (.slot x)) : SlotsOk s' := by
  have hroots : ∀ n, (s'.message n).slotRoot = (s.message n).slotRoot := by
    intro n
    by_cases hn : n = m
    · rw [hn, hch.message_self, hroot]
    · rw [hch.message_of_ne hn]
  have hcurrents : ∀ n, (s'.message n).slotCurrent = (s.message n).slotCurrent := by
    intro n
    by_cases hn : n = m
    · rw [hn, hch.message_self, hcurrent]
    · rw [hch.message_of_ne hn]
  refine ⟨fun n hn x hx => ?_, fun n hn => ?_, fun n k x hn hk hx hx' => ?_, fun n hn x hx => ?_,
    fun g n hg hh hdel c hc => ?_, fun n hn => ?_⟩
  · rw [hch.mem] at hn
    rw [hroots] at hx
    rw [hch.mem, hslot]
    exact h.live n (hlive n hn) x hx
  · rw [hch.mem] at hn
    rw [hroots]
    exact h.nodup n (hlive n hn)
  · rw [hch.mem] at hn hk
    rw [hroots] at hx hx'
    exact h.disjoint n k x (hlive n hn) (hlive k hk) hx hx'
  · rw [hch.mem] at hn
    rw [hroots] at hx
    exact Nat.lt_of_lt_of_le (h.lt n (hlive n hn) x hx) hch.next
  · rw [hch.accMode] at hg
    rw [hcurrents] at hc
    rw [hroots]
    refine h.current g n hg (holds_moves hwf he hlocal hch hh) (fun hrel => ?_) c hc
    by_cases hgf : g = f
    · subst hgf
      obtain ⟨-, -, hmode⟩ := hh
      rw [hch.accMode, hch.pc_self, hg, hpc hrel] at hmode
      obtain hmode | hmode := hmode
      · cases hmode
      · exact hmode.2 rfl
    · rw [State.pc, hch.filp_of_ne hgf] at hdel
      exact hdel hrel
  · rw [hcurrents]
    exact h.rootCurrent n (hch.root_subset hn)

/-- The writer adds a slot. -/
theorem add (h : SlotsOk s) (hwf : Wf s) (he : Effect f s s')
    (hlocal : Local s f m pc msg (s.mem.alloc (.slot s.next)))
    (hch : Changes s s' f m pc msg (s.mem.alloc (.slot s.next)))
    (hmsg : msg = { s.message m with slotRoot := (s.message m).slotRoot ++ [s.next] })
    (hpc : s.pc f ≠ .relMsg) (hlive : s.mem.status (.message m) = .live) : SlotsOk s' := by
  have hold : ∀ n, n ≠ m → s'.message n = s.message n := fun n hn => hch.message_of_ne hn
  have hself : (s'.message m).slotRoot = (s.message m).slotRoot ++ [s.next] := by
    rw [hch.message_self, hmsg]
  have hcurrents : ∀ n, (s'.message n).slotCurrent = (s.message n).slotCurrent := by
    intro n
    by_cases hn : n = m
    · rw [hn, hch.message_self, hmsg]
    · rw [hold n hn]
  have hmem : ∀ n, s'.mem.status (.message n) = s.mem.status (.message n) := by
    intro n
    rw [hch.mem]
    exact Ledger.alloc_of_ne (by rintro ⟨⟩)
  have hfresh : ∀ n, s.mem.status (.message n) = .live → s.next ∉ (s.message n).slotRoot :=
    fun n hn hx => Nat.lt_irrefl _ (h.lt n hn _ hx)
  have hmem' : ∀ n x, x ∈ (s'.message n).slotRoot →
      x ∈ (s.message n).slotRoot ∨ n = m ∧ x = s.next := by
    intro n x hx
    by_cases hn : n = m
    · rw [hn, hself, List.mem_append, List.mem_singleton] at hx
      rw [hn]
      exact hx.imp_right fun hx => ⟨rfl, hx⟩
    · rw [hold n hn] at hx
      exact .inl hx
  refine ⟨fun n hn x hx => ?_, fun n hn => ?_, fun n k x hn hk hx hx' => ?_, fun n hn x hx => ?_,
    fun g n hg hh hdel c hc => ?_, fun n hn => ?_⟩
  · rw [hmem] at hn
    rw [hch.mem]
    obtain hx | ⟨-, rfl⟩ := hmem' n x hx
    · exact Ledger.alloc_live (h.live n hn x hx)
    · exact Ledger.alloc_self
  · rw [hmem] at hn
    by_cases hnm : n = m
    · rw [hnm, hself]
      refine List.nodup_append.mpr ⟨h.nodup m hlive, List.pairwise_singleton .., fun x hx y hy => ?_⟩
      rintro rfl
      exact hfresh m hlive (List.mem_singleton.mp hy ▸ hx)
    · rw [hold n hnm]
      exact h.nodup n hn
  · rw [hmem] at hn hk
    obtain hx | ⟨hnm, hxn⟩ := hmem' n x hx <;> obtain hx' | ⟨hkm, hxk⟩ := hmem' k x hx'
    · exact h.disjoint n k x hn hk hx hx'
    · exact absurd (hxk ▸ hx) (hfresh n hn)
    · exact absurd (hxn ▸ hx') (hfresh k hk)
    · rw [hnm, hkm]
  · rw [hmem] at hn
    have hlt : s.next < s'.next := by
      have hin : s.next ∈ msg.slotRoot := by
        rw [hmsg]
        exact List.mem_append_right _ (List.mem_singleton_self _)
      exact (hch.slots _ hin).elim (fun hin => absurd hin (hfresh m hlive)) And.right
    obtain hx | ⟨-, rfl⟩ := hmem' n x hx
    · exact Nat.lt_trans (h.lt n hn x hx) hlt
    · exact hlt
  · rw [hch.accMode] at hg
    rw [hcurrents] at hc
    have hc' := h.current g n hg (holds_moves hwf he hlocal hch hh) (fun hrel => ?_) c hc
    · by_cases hn : n = m
      · rw [hn, hself]
        exact List.mem_append_left _ (hn ▸ hc')
      · rwa [hold n hn]
    · by_cases hgf : g = f
      · exact hpc (hgf ▸ hrel)
      · rw [State.pc, hch.filp_of_ne hgf] at hdel
        exact hdel hrel
  · rw [hcurrents]
    exact h.rootCurrent n (hch.root_subset hn)

/-- The reader goes on to the next slot. -/
theorem getSlot {x : Addr} {xs : List Addr} (h : SlotsOk s) (hmessages : MessagesOk s) (hwf : Wf s)
    (he : Effect f s s') (hlocal : Local s f m pc msg s.mem)
    (hch : Changes s s' f m pc msg s.mem)
    (hmsg : msg = { s.message m with slotCurrent := some x })
    (hunread : (s.message m).unread = x :: xs) (hpc : s.pc f ≠ .relMsg)
    (hmode : (s.filp f).accMode = .rdonly) (hf : s.Holds f m) : SlotsOk s' := by
  have hroots : ∀ n, (s'.message n).slotRoot = (s.message n).slotRoot := by
    intro n
    by_cases hn : n = m
    · rw [hn, hch.message_self, hmsg]
    · rw [hch.message_of_ne hn]
  have hin : x ∈ (s.message m).slotRoot := unread_subset _ (hunread ▸ List.mem_cons_self ..)
  refine ⟨fun n hn y hy => ?_, fun n hn => ?_, fun n k y hn hk hy hy' => ?_, fun n hn y hy => ?_,
    fun g n hg hh hdel c hc => ?_, fun n hn => ?_⟩
  · rw [hch.mem] at hn ⊢
    rw [hroots] at hy
    exact h.live n hn y hy
  · rw [hch.mem] at hn
    rw [hroots]
    exact h.nodup n hn
  · rw [hch.mem] at hn hk
    rw [hroots] at hy hy'
    exact h.disjoint n k y hn hk hy hy'
  · rw [hch.mem] at hn
    rw [hroots] at hy
    exact Nat.lt_of_lt_of_le (h.lt n hn y hy) hch.next
  · rw [hch.accMode] at hg
    have hold := holds_moves hwf he hlocal hch hh
    rw [hroots]
    by_cases hn : n = m
    · rw [hn, hch.message_self, hmsg] at hc
      rw [hn]
      cases hc
      exact hin
    · rw [hch.message_of_ne hn] at hc
      refine h.current g n hg hold (fun hrel => ?_) c hc
      by_cases hgf : g = f
      · exact hpc (hgf ▸ hrel)
      · rw [State.pc, hch.filp_of_ne hgf] at hdel
        exact hdel hrel
  · have hn' := hch.root_subset hn
    have hne : n ≠ m := by
      rintro rfl
      exact hmessages.rootReader f n hmode hf hn'
    rw [hch.message_of_ne hne]
    exact h.rootCurrent n hn'

/-- The reader frees the slots of its message. -/
theorem relSlots (h : SlotsOk s) (hmessages : MessagesOk s) (hwf : Wf s) (he : Effect f s s')
    (hlocal : Local s f m .relMsg msg mem) (hch : Changes s s' f m .relMsg msg mem)
    (hmsg : msg = { s.message m with slotRoot := [] })
    (hmem : mem = delSlots (s.message m).slotRoot s.mem)
    (hmode : (s.filp f).accMode = .rdonly) (hf : s.Holds f m) : SlotsOk s' := by
  have hlive := hmessages.live f m hf
  obtain ⟨-, hstatus⟩ := delSlots_spec (h.nodup m hlive) (h.live m hlive)
  have hmessage : ∀ n, s'.mem.status (.message n) = s.mem.status (.message n) := by
    intro n
    rw [hch.mem, hmem]
    exact hstatus _ fun x _ => by rintro ⟨⟩
  have hself : (s'.message m).slotRoot = [] := by
    rw [hch.message_self, hmsg]
  have hold : ∀ n x, x ∈ (s'.message n).slotRoot → n ≠ m ∧ x ∈ (s.message n).slotRoot := by
    intro n x hx
    have hne : n ≠ m := by
      rintro rfl
      rw [hself] at hx
      cases hx
    rw [hch.message_of_ne hne] at hx
    exact ⟨hne, hx⟩
  refine ⟨fun n hn x hx => ?_, fun n hn => ?_, fun n k x hn hk hx hx' => ?_, fun n hn x hx => ?_,
    fun g n hg hh hdel c hc => ?_, fun n hn => ?_⟩
  · rw [hmessage] at hn
    obtain ⟨hne, hx⟩ := hold n x hx
    rw [hch.mem, hmem, hstatus _ fun y hy => ?_]
    · exact h.live n hn x hx
    · rintro ⟨⟩
      exact hne (h.disjoint n m x hn hlive hx hy)
  · rw [hmessage] at hn
    by_cases hne : n = m
    · rw [hne, hself]
      exact List.nodup_nil
    · rw [hch.message_of_ne hne]
      exact h.nodup n hn
  · rw [hmessage] at hn hk
    exact h.disjoint n k x hn hk (hold n x hx).2 (hold k x hx').2
  · rw [hmessage] at hn
    exact Nat.lt_of_lt_of_le (h.lt n hn x (hold n x hx).2) hch.next
  · rw [hch.accMode] at hg
    have hold' := holds_moves hwf he hlocal hch hh
    have hgf : g ≠ f := by
      rintro rfl
      exact hdel hch.pc_self
    have hne : n ≠ m := by
      rintro rfl
      exact hgf (hmessages.reader g f n hg hmode hold' hf)
    rw [hch.message_of_ne hne] at hc ⊢
    rw [State.pc, hch.filp_of_ne hgf] at hdel
    exact h.current g n hg hold' hdel c hc
  · have hn' := hch.root_subset hn
    have hne : n ≠ m := by
      rintro rfl
      exact hmessages.rootReader f n hmode hf hn'
    rw [hch.message_of_ne hne]
    exact h.rootCurrent n hn'

end SlotsOk

/-! ## steps -/

namespace Owned

/-- A step that neither allocates nor frees, and leaves the slots alone. -/
theorem quiet (h : Owned s) (hwf : Wf s') (he : Effect f s s') (hlocal : Local s f m pc msg mem)
    (hch : Changes s s' f m pc msg mem) (hmem : mem = s.mem)
    (hroot : msg.slotRoot = (s.message m).slotRoot)
    (hcurrent : msg.slotCurrent = (s.message m).slotCurrent)
    (hwrapper : s.pc f ≠ .relWrapper) (hdel : s.pc f ≠ .relMsg) : Owned s' := by
  subst hmem
  refine ⟨hwf, by rw [hch.mem, h.faults], ?_, ?_, ?_⟩
  · exact h.wrappers.moves hlocal hch hwrapper fun _ => rfl
  · exact h.messages.moves h.wf he hlocal hch hdel fun _ => rfl
  · exact h.slots.moves h.wf he hlocal hch hroot hcurrent (fun h => absurd h hdel) (fun _ h => h)
      fun _ => rfl

theorem moves_relWrapper (h : Owned s) (hwf : Wf s') (he : Effect f s s')
    (hpc : s.pc f = .relWrapper)
    (hlocal : Local s f m .relReturn (s.message m) (s.mem.free (.wrapper (s.devWrapper f))))
    (hch : Changes s s' f m .relReturn (s.message m) (s.mem.free (.wrapper (s.devWrapper f)))) :
    Owned s' := by
  have hdel : s.pc f ≠ .relMsg := by rw [hpc]; exact Pc.noConfusion
  have hstatus : ∀ n, (s.mem.free (.wrapper (s.devWrapper f))).status (.message n) =
      s.mem.status (.message n) := fun n => Ledger.free_of_ne (by rintro ⟨⟩)
  refine ⟨hwf, ?_, h.wrappers.relWrapper h.wf hpc hch, ?_, ?_⟩
  · rw [hch.mem, Ledger.free_faults (h.wrappers.live f (by rw [hpc]; rfl)), h.faults]
  · exact h.messages.moves h.wf he hlocal hch hdel hstatus
  · exact h.slots.moves h.wf he hlocal hch rfl rfl (fun h => absurd h hdel)
      (fun n hn => (hstatus n).symm.trans hn) fun x => Ledger.free_of_ne (by rintro ⟨⟩)

theorem visited_subset {ms : List Addr} : visited m ms ⊆ ms := by
  intro x hx
  obtain hx | hx := List.mem_append.mp hx
  · exact (List.takeWhile_sublist _).subset hx
  · exact (List.dropWhile_sublist _).subset (List.mem_of_mem_take hx)

theorem moves_relMsg (h : Owned s) (hwf : Wf s') (he : Effect f s s') (hpc : s.pc f = .relMsg)
    (hmsg : s.msgOf f = some m) (hnone : ∀ g, ¬ s.OpenForWriting g m)
    (hlocal : Local s f m .relWrapper (s.message m) mem)
    (hch : Changes s s' f m .relWrapper (s.message m) mem)
    (hmem : mem = ((s.derefMem f m).uses ((visited m s.msgRoot).map .message)).free
      (.message m)) : Owned s' := by
  have hw : s.pc f ≠ .relWrapper := by rw [hpc]; exact Pc.noConfusion
  have hholds : (s.pc f).holdsWrapper := by rw [hpc]; rfl
  have hf := h.holds hmsg hholds hw
  have hlive := h.messages.live f m hf
  have hmem' : mem = s.mem.free (.message m) := by
    rw [hmem, h.derefMem_eq hmsg hholds hw, Ledger.uses_live fun o ho => ?_]
    obtain ⟨n, hn, rfl⟩ := List.mem_map.mp ho
    exact h.messages.rootLive n (visited_subset hn)
  refine ⟨hwf, ?_, ?_, ?_, ?_⟩
  · rw [hch.mem, hmem', Ledger.free_faults hlive, h.faults]
  · refine h.wrappers.moves hlocal hch hw fun w => ?_
    rw [hmem']
    exact Ledger.free_of_ne (by rintro ⟨⟩)
  · refine h.messages.relMsg h.wf he hlocal hch hpc rfl hf hnone fun n hn => ?_
    rw [hmem']
    exact Ledger.free_of_ne (by rintro ⟨⟩; exact hn rfl)
  · refine h.slots.moves h.wf he hlocal hch rfl rfl (fun _ => rfl) (fun n hn => ?_) fun x => ?_
    · by_cases hnm : n = m
      · rw [hnm, hmem', Ledger.free_self hlive] at hn
        cases hn
      · rw [hmem', Ledger.free_of_ne (by rintro ⟨⟩; exact hnm rfl)] at hn
        exact hn
    · rw [hmem']
      exact Ledger.free_of_ne (by rintro ⟨⟩)

theorem moves_relSlots (h : Owned s) (hwf : Wf s') (he : Effect f s s') (hpc : s.pc f = .relSlots)
    (hmsg : s.msgOf f = some m)
    (hlocal : Local s f m .relMsg { s.message m with slotRoot := [] } mem)
    (hch : Changes s s' f m .relMsg { s.message m with slotRoot := [] } mem)
    (hmem : mem = delSlots (s.message m).slotRoot (s.derefMem f m)) : Owned s' := by
  have hw : s.pc f ≠ .relWrapper := by rw [hpc]; exact Pc.noConfusion
  have hdel : s.pc f ≠ .relMsg := by rw [hpc]; exact Pc.noConfusion
  have hholds : (s.pc f).holdsWrapper := by rw [hpc]; rfl
  have hf := h.holds hmsg hholds hw
  have hlive := h.messages.live f m hf
  rw [h.derefMem_eq hmsg hholds hw] at hmem
  obtain ⟨hfaults, hstatus⟩ := delSlots_spec (h.slots.nodup m hlive) (h.slots.live m hlive)
  have hmode := h.wf.mode f .rdonly (by rw [hpc]; rfl)
  refine ⟨hwf, ?_, ?_, ?_, h.slots.relSlots h.messages h.wf he hlocal hch rfl hmem hmode hf⟩
  · rw [hch.mem, hmem, hfaults, h.faults]
  · refine h.wrappers.moves hlocal hch hw fun w => ?_
    rw [hmem]
    exact hstatus _ fun x _ => by rintro ⟨⟩
  · refine h.messages.moves h.wf he hlocal hch hdel fun n => ?_
    rw [hmem]
    exact hstatus _ fun x _ => by rintro ⟨⟩

theorem moves_add {data : Option Data} {retval : Int} (h : Owned s) (hwf : Wf s')
    (he : Effect f s s') (hpc : s.pc f = .writeAdd data retval) (hmsg : s.msgOf f = some m)
    (hlocal : Local s f m pc { s.message m with slotRoot := (s.message m).slotRoot ++ [s.next] } mem)
    (hch : Changes s s' f m pc
      { s.message m with slotRoot := (s.message m).slotRoot ++ [s.next] } mem)
    (hmem : mem = ((s.derefMem f m).alloc (.slot s.next)).uses
      ((s.message m).slotRoot.getLast?.toList.map .slot)) : Owned s' := by
  have hw : s.pc f ≠ .relWrapper := by rw [hpc]; exact Pc.noConfusion
  have hdel : s.pc f ≠ .relMsg := by rw [hpc]; exact Pc.noConfusion
  have hholds : (s.pc f).holdsWrapper := by rw [hpc]; rfl
  have hlive := h.messages.live f m (h.holds hmsg hholds hw)
  have hmem' : mem = s.mem.alloc (.slot s.next) := by
    rw [hmem, h.derefMem_eq hmsg hholds hw]
    refine Ledger.uses_live fun o ho => ?_
    obtain ⟨x, hx, rfl⟩ := List.mem_map.mp ho
    exact Ledger.alloc_live
      (h.slots.live m hlive x (List.mem_of_getLast? (Option.mem_toList.mp hx)))
  subst hmem'
  refine ⟨hwf, ?_, ?_, ?_, h.slots.add h.wf he hlocal hch rfl hdel hlive⟩
  · rw [hch.mem, Ledger.alloc_faults, h.faults]
  · exact h.wrappers.moves hlocal hch hw fun w => Ledger.alloc_of_ne (by rintro ⟨⟩)
  · exact h.messages.moves h.wf he hlocal hch hdel fun n => Ledger.alloc_of_ne (by rintro ⟨⟩)

theorem moves_write (h : Owned s) (hwf : Wf s') (he : Effect f s s') (hpc : s.pc f = .idle)
    (hmsg : s.msgOf f = some m) (hlocal : Local s f m pc (s.message m) mem)
    (hch : Changes s s' f m pc (s.message m) mem)
    (hmem : mem = (s.derefMem f m).alloc (.data s.next)) : Owned s' := by
  have hw : s.pc f ≠ .relWrapper := by rw [hpc]; exact Pc.noConfusion
  have hdel : s.pc f ≠ .relMsg := by rw [hpc]; exact Pc.noConfusion
  have hholds : (s.pc f).holdsWrapper := by rw [hpc]; rfl
  rw [h.derefMem_eq hmsg hholds hw] at hmem
  subst hmem
  have hmessage : ∀ n, (s.mem.alloc (.data s.next)).status (.message n) = s.mem.status (.message n) :=
    fun n => Ledger.alloc_of_ne (by rintro ⟨⟩)
  refine ⟨hwf, ?_, ?_, ?_, ?_⟩
  · rw [hch.mem, Ledger.alloc_faults, h.faults]
  · exact h.wrappers.moves hlocal hch hw fun w => Ledger.alloc_of_ne (by rintro ⟨⟩)
  · exact h.messages.moves h.wf he hlocal hch hdel hmessage
  · exact h.slots.moves h.wf he hlocal hch rfl rfl (fun h => absurd h hdel)
      (fun n hn => (hmessage n).symm.trans hn) fun x => Ledger.alloc_of_ne (by rintro ⟨⟩)

/-- What a reader in `mbcdd_get_data_slot` is allowed to. -/
theorem reading (h : Owned s) (hmsg : s.msgOf f = some m)
    (hget : s.pc f = .idle ∧ (s.filp f).accMode = .rdonly ∨ s.pc f = .readAgain) :
    s.Holds f m ∧ (s.filp f).accMode = .rdonly ∧ s.currentMem f m = s.mem ∧
      s.pc f ≠ .relWrapper ∧ s.pc f ≠ .relMsg := by
  have hmode : (s.filp f).accMode = .rdonly := by
    obtain ⟨-, hmode⟩ | hpc := hget
    · exact hmode
    · exact h.wf.mode f .rdonly (by rw [hpc]; rfl)
  have hpc : s.pc f = .idle ∨ s.pc f = .readAgain := hget.imp_left And.left
  have hholds : (s.pc f).holdsWrapper := by obtain hpc | hpc := hpc <;> rw [hpc] <;> rfl
  have hw : s.pc f ≠ .relWrapper := by obtain hpc | hpc := hpc <;> rw [hpc] <;> exact Pc.noConfusion
  have hdel : s.pc f ≠ .relMsg := by obtain hpc | hpc := hpc <;> rw [hpc] <;> exact Pc.noConfusion
  exact ⟨h.holds hmsg hholds hw, hmode, h.currentMem_eq hmsg hholds hw hmode hdel, hw, hdel⟩

theorem moves_getSlot {x : Addr} {xs : List Addr} (h : Owned s) (hwf : Wf s') (he : Effect f s s')
    (hget : s.pc f = .idle ∧ (s.filp f).accMode = .rdonly ∨ s.pc f = .readAgain)
    (hmsg : s.msgOf f = some m) (hunread : (s.message m).unread = x :: xs)
    (hlocal : Local s f m pc { s.message m with slotCurrent := some x } mem)
    (hch : Changes s s' f m pc { s.message m with slotCurrent := some x } mem)
    (hmem : mem = (s.currentMem f m).use (.slot x)) : Owned s' := by
  obtain ⟨hf, hmode, hcurrent, hw, hdel⟩ := h.reading hmsg hget
  have hlive := h.messages.live f m hf
  have hin : x ∈ (s.message m).slotRoot := unread_subset _ (hunread ▸ List.mem_cons_self ..)
  rw [hcurrent, Ledger.use_live (h.slots.live m hlive x hin)] at hmem
  subst hmem
  refine ⟨hwf, by rw [hch.mem, h.faults], h.wrappers.moves hlocal hch hw fun _ => rfl,
    h.messages.moves h.wf he hlocal hch hdel fun _ => rfl, ?_⟩
  exact h.slots.getSlot h.messages h.wf he hlocal hch rfl hunread hdel hmode hf

/-- A step of a file with a message. -/
theorem moves (h : Owned s) (hwf : Wf s') (hc : Careful s f) (he : Effect f s s')
    (hmsg : s.msgOf f = some m) (hlocal : Local s f m pc msg mem)
    (hch : Changes s s' f m pc msg mem) : Owned s' := by
  have hholds : (s.pc f).holdsWrapper := hlocal.source.resolve_right hc.print
  have hderef : s.pc f ≠ .relWrapper → s.derefMem f m = s.mem := h.derefMem_eq hmsg hholds
  have hl := hlocal
  cases hlocal with
  | write hpc => exact h.moves_write hwf he hpc hmsg hl hch rfl
  | add hpc => exact h.moves_add hwf he hpc hmsg hl hch rfl
  | getNone hget =>
    obtain ⟨-, -, hcurrent, hw, hdel⟩ := h.reading hmsg hget
    exact h.quiet hwf he hl hch hcurrent rfl rfl hw hdel
  | getSlot hget _ hunread => exact h.moves_getSlot hwf he hget hmsg hunread hl hch rfl
  | relSlots hpc => exact h.moves_relSlots hwf he hpc hmsg hl hch rfl
  | relMsg hpc => exact h.moves_relMsg hwf he hpc hmsg (hc.delete m hpc hmsg) hl hch rfl
  | relWrapper hpc => exact h.moves_relWrapper hwf he hpc hl hch
  | relReturn hpc => exact absurd hpc hc.print
  | woken hpc =>
    exact h.quiet hwf he hl hch (Ledger.use_live (h.wrappers.live f hholds)) rfl rfl
      (by simp [hpc]) (by simp [hpc])
  | badf hpc | releaseWriter hpc | releaseReader hpc | releaseOther hpc =>
    exact h.quiet hwf he hl hch rfl rfl rfl (by simp [hpc]) (by simp [hpc])
  | _ hpc =>
    exact h.quiet hwf he hl hch (hderef (by simp [hpc])) rfl rfl (by simp [hpc]) (by simp [hpc])

end Owned

/-! ## the parts of `mbcdd_open` -/

/-- The file that is being opened has a live wrapper or none; the other wrappers are as before. -/
theorem WrappersOk.opening (h : WrappersOk s) (he : Effect f s s') (hpc : s'.pc f ≠ .relReturn)
    (hlive : (s'.pc f).holdsWrapper → s'.mem.status (.wrapper (s'.devWrapper f)) = .live)
    (hmode : (s'.pc f).holdsWrapper → (s'.filp f).accMode ≠ .other)
    (hother : ∀ g, g ≠ f → (s.pc g).opened → s'.mem.status (.wrapper (s.devWrapper g)) =
      s.mem.status (.wrapper (s.devWrapper g))) : WrappersOk s' where
  live g hg := by
    by_cases hgf : g = f
    · subst hgf
      exact hlive hg
    · rw [State.pc, he.filp_of_ne hgf] at hg
      rw [State.devWrapper, he.filp_of_ne hgf]
      exact (hother g hgf (by cases hf : s.pc g <;> simp_all [Pc.holdsWrapper, Pc.opened])).trans
        (h.live g hg)
  freed g hg := by
    by_cases hgf : g = f
    · subst hgf
      exact absurd hg hpc
    · rw [State.pc, he.filp_of_ne hgf] at hg
      rw [State.devWrapper, he.filp_of_ne hgf]
      intro hl
      exact h.freed g hg ((hother g hgf (by rw [State.pc, hg]; rfl)).symm.trans hl)
  mode g hg := by
    by_cases hgf : g = f
    · subst hgf
      exact hmode hg
    · rw [State.pc, he.filp_of_ne hgf] at hg
      rw [he.filp_of_ne hgf]
      exact h.mode g hg

namespace Owned

/-- The file gets no message. -/
theorem withoutMsg (h : Owned s) (hwf : Wf s') (he : Effect f s s') (hfaults : s'.mem.faults = [])
    (hwrappers : WrappersOk s') (hnone : ∀ n, ¬ s'.Holds f n)
    (hmessage : ∀ n, s'.mem.status (.message n) = s.mem.status (.message n))
    (hslot : ∀ x, s'.mem.status (.slot x) = s.mem.status (.slot x))
    (hmessages : s'.message = s.message) (hroot : s'.msgRoot = s.msgRoot) : Owned s' := by
  have hne : ∀ g n, s'.Holds g n → g ≠ f := by
    rintro g n hg rfl
    exact hnone n hg
  have hold : ∀ g n, s'.Holds g n → s.Holds g n := fun g n hg =>
    holds_of_ne h.wf he (hne g n hg) hg
  have hmode : ∀ g n, s'.Holds g n → (s'.filp g).accMode = (s.filp g).accMode := fun g n hg => by
    rw [he.filp_of_ne (hne g n hg)]
  refine ⟨hwf, hfaults, hwrappers, ⟨fun g n hg => ?_, fun g g' n hg hg' hh hh' => ?_, ?_,
    fun n hn => ?_, fun g n hg hh => ?_⟩, ⟨fun n hn x hx => ?_, fun n hn => ?_,
    fun n k x hn hk hx hx' => ?_, fun n hn x hx => ?_, fun g n hg hh hdel => ?_, fun n hn => ?_⟩⟩
  · rw [hmessage]
    exact h.messages.live g n (hold g n hg)
  · rw [hmode g n hh] at hg
    rw [hmode g' n hh'] at hg'
    exact h.messages.reader g g' n hg hg' (hold g n hh) (hold g' n hh')
  · rw [hroot]
    exact h.messages.rootNodup
  · rw [hmessage]
    exact h.messages.rootLive n (hroot ▸ hn)
  · rw [hmode g n hh] at hg
    rw [hroot]
    exact h.messages.rootReader g n hg (hold g n hh)
  · rw [hmessage] at hn
    rw [hmessages] at hx
    rw [hslot]
    exact h.slots.live n hn x hx
  · rw [hmessage] at hn
    rw [hmessages]
    exact h.slots.nodup n hn
  · rw [hmessage] at hn hk
    rw [hmessages] at hx hx'
    exact h.slots.disjoint n k x hn hk hx hx'
  · rw [hmessage] at hn
    rw [hmessages] at hx
    exact Nat.lt_of_lt_of_le (h.slots.lt n hn x hx) he.next_le
  · rw [hmode g n hh] at hg
    rw [State.pc, he.filp_of_ne (hne g n hh)] at hdel
    rw [hmessages]
    exact h.slots.current g n hg (hold g n hh) hdel
  · rw [hmessages]
    exact h.slots.rootCurrent n (hroot ▸ hn)

theorem opens {mode : AccMode} {ok : Bool} (h : Owned s) (hwf : Wf (mbcddOpen f mode ok s))
    (hpc : s.pc f = .closed) : Owned (mbcddOpen f mode ok s) := by
  have he : Effect f s (mbcddOpen f mode ok s) := .opens mode ok hpc
  cases ok with
  | false =>
    have hpc' : (mbcddOpen f mode false s).pc f = .oops := by
      simp [mbcddOpen, State.pc, State.setPc, State.setFilp]
    refine h.withoutMsg hwf he h.faults (h.wrappers.opening he ?_ ?_ ?_ fun _ _ _ => rfl) ?_
      (fun _ => rfl) (fun _ => rfl) rfl rfl
    · rw [hpc']
      exact Pc.noConfusion
    · rw [hpc']
      rintro ⟨⟩
    · rw [hpc']
      rintro ⟨⟩
    · rintro n ⟨-, hholds, -⟩
      rw [hpc'] at hholds
      cases hholds
  | true =>
    have hmem : (mbcddOpen f mode true s).mem = s.mem.alloc (.wrapper s.next) := by
      cases mode <;> rfl
    have hwrapper : (mbcddOpen f mode true s).wrapper = Function.update s.wrapper s.next .zero := by
      cases mode <;> rfl
    have hdev : ((mbcddOpen f mode true s).pc f).holdsWrapper →
        (mbcddOpen f mode true s).devWrapper f = s.next := by
      cases mode <;> simp [mbcddOpen, State.pc, State.devWrapper, State.return_, State.setFilp,
        Pc.holdsWrapper]
    refine h.withoutMsg hwf he ?_ (h.wrappers.opening he ?_ ?_ ?_ fun g _ hg => ?_) ?_ (fun _ => ?_)
      (fun _ => ?_) ?_ ?_
    · rw [hmem, Ledger.alloc_faults, h.faults]
    · cases mode <;> simp [mbcddOpen, State.pc, State.return_, State.setFilp]
    · intro hholds
      rw [hmem, hdev hholds, Ledger.alloc_self]
    · cases mode <;> simp [mbcddOpen, State.pc, State.return_, State.setFilp, Pc.holdsWrapper]
    · rw [hmem]
      exact Ledger.alloc_of_ne fun heq => Nat.ne_of_lt (h.wf.wrapper_lt g hg) (Obj.wrapper.inj heq)
    · rintro n ⟨hmsg, hholds, -⟩
      rw [State.msgOf, hdev hholds, hwrapper, Function.update_self] at hmsg
      cases hmsg
    · rw [hmem]
      exact Ledger.alloc_of_ne (by rintro ⟨⟩)
    · rw [hmem]
      exact Ledger.alloc_of_ne (by rintro ⟨⟩)
    · cases mode <;> rfl
    · cases mode <;> rfl

theorem noMsg (h : Owned s) (hwf : Wf ((s.use (.wrapper (s.devWrapper f))).setPc f .oops))
    (hpc : s.pc f = .openReturn) (hmsg : s.msgOf f = none) :
    Owned ((s.use (.wrapper (s.devWrapper f))).setPc f .oops) := by
  have he : Effect f s ((s.use (.wrapper (s.devWrapper f))).setPc f .oops) := .noMsg hpc hmsg
  have hmem : ((s.use (.wrapper (s.devWrapper f))).setPc f .oops).mem = s.mem :=
    Ledger.use_live (h.wrappers.live f (by rw [hpc]; rfl))
  have hpc' : ((s.use (.wrapper (s.devWrapper f))).setPc f .oops).pc f = .oops := by
    simp [State.pc, State.setPc, State.setFilp]
  refine h.withoutMsg hwf he (by rw [hmem, h.faults]) (h.wrappers.opening he ?_ ?_ ?_ fun _ _ _ => ?_)
    ?_ (fun _ => by rw [hmem]) (fun _ => by rw [hmem]) rfl rfl
  · rw [hpc']
    exact Pc.noConfusion
  · rw [hpc']
    rintro ⟨⟩
  · rw [hpc']
    rintro ⟨⟩
  · rw [hmem]
  · rintro n ⟨-, hholds, -⟩
    rw [hpc'] at hholds
    cases hholds

theorem newMsg_none (h : Owned s) (hwf : Wf (openNewMsg f false s)) (hpc : s.pc f = .openNewMsg) :
    Owned (openNewMsg f false s) := by
  have he : Effect f s (openNewMsg f false s) := .newMsg false hpc
  have hlive := h.wrappers.live f (by rw [hpc]; rfl)
  have hmem : (openNewMsg f false s).mem = s.mem := Ledger.use_live hlive
  have hpc' : (openNewMsg f false s).pc f = .openReturn := by
    simp [openNewMsg, State.pc, State.setPc, State.setFilp]
  have hdev : (openNewMsg f false s).devWrapper f = s.devWrapper f := by
    simp [openNewMsg, State.devWrapper, State.setPc, State.setFilp, State.setWrapper, State.use,
      mbcddNewMsg]
  have hmode : ((openNewMsg f false s).filp f).accMode = .wronly := by
    simpa [openNewMsg, State.setPc, State.setFilp, State.setWrapper, State.use, mbcddNewMsg] using
      h.wf.mode f .wronly (by rw [hpc]; rfl)
  refine h.withoutMsg hwf he (by rw [hmem, h.faults]) (h.wrappers.opening he ?_ ?_ ?_ fun _ _ _ => ?_)
    ?_ (fun _ => by rw [hmem]) (fun _ => by rw [hmem]) rfl rfl
  · rw [hpc']
    exact Pc.noConfusion
  · rw [hmem, hdev]
    exact fun _ => hlive
  · rw [hmode]
    exact fun _ => AccMode.noConfusion
  · rw [hmem]
  · rintro n ⟨hmsg, -⟩
    rw [State.msgOf, hdev] at hmsg
    simp [openNewMsg, State.setPc, State.setFilp, State.setWrapper, State.use, mbcddNewMsg] at hmsg

/-- The writer gets a message that no one else knows, apart from `msg_root`. -/
theorem newMsg_some (h : Owned s) (hwf : Wf (openNewMsg f true s)) (hpc : s.pc f = .openNewMsg) :
    Owned (openNewMsg f true s) := by
  have he : Effect f s (openNewMsg f true s) := .newMsg true hpc
  have hlive := h.wrappers.live f (by rw [hpc]; rfl)
  have hmem : (openNewMsg f true s).mem = s.mem.alloc (.message s.next) := by
    have huses : (s.mem.alloc (.message s.next)).uses (s.msgRoot.head?.toList.map .message) =
        s.mem.alloc (.message s.next) := by
      refine Ledger.uses_live fun o ho => ?_
      obtain ⟨n, hn, rfl⟩ := List.mem_map.mp ho
      exact Ledger.alloc_live
        (h.messages.rootLive n (List.mem_of_head? (Option.mem_toList.mp hn)))
    calc (openNewMsg f true s).mem
        = ((s.mem.alloc (.message s.next)).uses (s.msgRoot.head?.toList.map .message)).use
            (.wrapper (s.devWrapper f)) := rfl
      _ = s.mem.alloc (.message s.next) := by
        rw [huses]
        exact Ledger.use_live (Ledger.alloc_live hlive)
  have hpc' : (openNewMsg f true s).pc f = .openReturn := by
    simp [openNewMsg, State.pc, State.setPc, State.setFilp]
  have hdev : (openNewMsg f true s).devWrapper f = s.devWrapper f := by
    simp [openNewMsg, State.devWrapper, State.setPc, State.setFilp, State.setWrapper, State.use,
      mbcddNewMsg]
  have hmode : ((openNewMsg f true s).filp f).accMode = .wronly := by
    simpa [openNewMsg, State.setPc, State.setFilp, State.setWrapper, State.use, mbcddNewMsg] using
      h.wf.mode f .wronly (by rw [hpc]; rfl)
  have hmsg : (openNewMsg f true s).msgOf f = some s.next := by
    rw [State.msgOf, hdev]
    show (Function.update s.wrapper (s.devWrapper f) _ (s.devWrapper f)).msg = _
    rw [Function.update_self]
  have hnew : (openNewMsg f true s).message s.next = .init s.msgId := by
    simp [openNewMsg, State.setPc, State.setFilp, State.setWrapper, State.use, mbcddNewMsg]
  have hold : ∀ n, n ≠ s.next → (openNewMsg f true s).message n = s.message n := fun n hn =>
    Function.update_of_ne hn ..
  have hroot : (openNewMsg f true s).msgRoot = s.next :: s.msgRoot := rfl
  have hstatus : ∀ n, n ≠ s.next →
      (openNewMsg f true s).mem.status (.message n) = s.mem.status (.message n) := by
    intro n hn
    rw [hmem]
    exact Ledger.alloc_of_ne (by rintro ⟨⟩; exact hn rfl)
  -- the other files have other messages
  have hother : ∀ g n, g ≠ f → (openNewMsg f true s).Holds g n → s.Holds g n ∧ n ≠ s.next := by
    intro g n hg hh
    have hh' := holds_of_ne h.wf he hg hh
    exact ⟨hh', Nat.ne_of_lt (h.wf.msg_lt _ n hh'.1)⟩
  have hreader : ∀ g n, ((openNewMsg f true s).filp g).accMode = .rdonly →
      (openNewMsg f true s).Holds g n → g ≠ f ∧ (s.filp g).accMode = .rdonly := by
    intro g n hg hh
    have hgf : g ≠ f := by
      rintro rfl
      cases hmode.symm.trans hg
    exact ⟨hgf, by rwa [he.filp_of_ne hgf] at hg⟩
  have hnoSlots : ((openNewMsg f true s).message s.next).slotRoot = [] := by
    rw [hnew]
    rfl
  have hslots : ∀ n x, x ∈ ((openNewMsg f true s).message n).slotRoot →
      n ≠ s.next ∧ x ∈ (s.message n).slotRoot := by
    intro n x hx
    have hn : n ≠ s.next := by
      rintro rfl
      rw [hnoSlots] at hx
      cases hx
    rw [hold n hn] at hx
    exact ⟨hn, hx⟩
  refine ⟨hwf, by rw [hmem, Ledger.alloc_faults, h.faults], h.wrappers.opening he ?_ ?_ ?_ ?_,
    ⟨fun g n hg => ?_, fun g g' n hg hg' hh hh' => ?_, ?_, fun n hn => ?_, fun g n hg hh => ?_⟩,
    ⟨fun n hn x hx => ?_, fun n hn => ?_, fun n k x hn hk hx hx' => ?_, fun n hn x hx => ?_,
      fun g n hg hh hdel => ?_, fun n hn => ?_⟩⟩
  · rw [hpc']
    exact Pc.noConfusion
  · rw [hmem, hdev]
    exact fun _ => Ledger.alloc_live hlive
  · rw [hmode]
    exact fun _ => AccMode.noConfusion
  · intro g _ _
    rw [hmem]
    exact Ledger.alloc_of_ne (by rintro ⟨⟩)
  · by_cases hgf : g = f
    · subst hgf
      have hn : n = s.next := Option.some.inj (hg.1.symm.trans hmsg)
      rw [hn, hmem, Ledger.alloc_self]
    · obtain ⟨hg, hn⟩ := hother g n hgf hg
      rw [hstatus n hn]
      exact h.messages.live g n hg
  · obtain ⟨hgf, hg⟩ := hreader g n hg hh
    obtain ⟨hgf', hg'⟩ := hreader g' n hg' hh'
    exact h.messages.reader g g' n hg hg' (hother g n hgf hh).1 (hother g' n hgf' hh').1
  · rw [hroot]
    exact List.nodup_cons.mpr
      ⟨fun hin => Nat.lt_irrefl _ (h.wf.root_lt _ hin), h.messages.rootNodup⟩
  · obtain rfl | hn := List.mem_cons.mp (hroot ▸ hn)
    · rw [hmem, Ledger.alloc_self]
    · rw [hstatus n (Nat.ne_of_lt (h.wf.root_lt n hn))]
      exact h.messages.rootLive n hn
  · obtain ⟨hgf, hg⟩ := hreader g n hg hh
    obtain ⟨hh, hn⟩ := hother g n hgf hh
    rw [hroot]
    exact fun hin => (List.mem_cons.mp hin).elim hn (h.messages.rootReader g n hg hh)
  · obtain ⟨hne, hx⟩ := hslots n x hx
    rw [hstatus n hne] at hn
    rw [hmem, Ledger.alloc_of_ne (by rintro ⟨⟩)]
    exact h.slots.live n hn x hx
  · by_cases hne : n = s.next
    · rw [hne, hnoSlots]
      exact List.nodup_nil
    · rw [hstatus n hne] at hn
      rw [hold n hne]
      exact h.slots.nodup n hn
  · obtain ⟨hne, hx⟩ := hslots n x hx
    obtain ⟨hne', hx'⟩ := hslots k x hx'
    rw [hstatus n hne] at hn
    rw [hstatus k hne'] at hk
    exact h.slots.disjoint n k x hn hk hx hx'
  · obtain ⟨hne, hx⟩ := hslots n x hx
    rw [hstatus n hne] at hn
    exact Nat.lt_of_lt_of_le (h.slots.lt n hn x hx) he.next_le
  · obtain ⟨hgf, hg⟩ := hreader g n hg hh
    obtain ⟨hh, hn⟩ := hother g n hgf hh
    rw [State.pc, he.filp_of_ne hgf] at hdel
    rw [hold n hn]
    exact h.slots.current g n hg hh hdel
  · obtain rfl | hn := List.mem_cons.mp (hroot ▸ hn)
    · rw [hnew]
      rfl
    · rw [hold n (Nat.ne_of_lt (h.wf.root_lt n hn))]
      exact h.slots.rootCurrent n hn

/-- There is no message for the reader. -/
theorem getMsg_none (h : Owned s) (hwf : Wf (openGetMsg f s)) (hpc : s.pc f = .openGetMsg)
    (hroot : s.msgRoot = []) : Owned (openGetMsg f s) := by
  have he : Effect f s (openGetMsg f s) := .getMsg hpc
  have hlive := h.wrappers.live f (by rw [hpc]; rfl)
  have heq : openGetMsg f s = ((s.use (.wrapper (s.devWrapper f))).setWrapper (s.devWrapper f)
      ({ · with msg := none })).return_ f (-ENOENT) .failed := by
    unfold openGetMsg mbcddGetMsg
    rw [hroot]
  have hmem : (openGetMsg f s).mem = s.mem := by
    rw [heq]
    exact Ledger.use_live hlive
  have hpc' : (openGetMsg f s).pc f = .failed := by
    rw [heq]
    simp [State.pc, State.return_, State.setFilp]
  refine h.withoutMsg hwf he (by rw [hmem, h.faults]) (h.wrappers.opening he ?_ ?_ ?_ fun _ _ _ => ?_)
    ?_ (fun _ => by rw [hmem]) (fun _ => by rw [hmem]) (by rw [heq]; rfl) (by rw [heq]; rfl)
  · rw [hpc']
    exact Pc.noConfusion
  · rw [hpc']
    rintro ⟨⟩
  · rw [hpc']
    rintro ⟨⟩
  · rw [hmem]
  · rintro n ⟨-, hholds, -⟩
    rw [hpc'] at hholds
    cases hholds

/-- The reader takes the first message from `msg_root`. -/
theorem getMsg_some {ms : List Addr} (h : Owned s) (hwf : Wf (openGetMsg f s))
    (hpc : s.pc f = .openGetMsg) (hroot : s.msgRoot = m :: ms) : Owned (openGetMsg f s) := by
  have he : Effect f s (openGetMsg f s) := .getMsg hpc
  have hlive := h.wrappers.live f (by rw [hpc]; rfl)
  have hin : m ∈ s.msgRoot := hroot ▸ List.mem_cons_self ..
  have hsub : ∀ n ∈ ms, n ∈ s.msgRoot := fun n hn => hroot ▸ List.mem_cons_of_mem m hn
  have hnotin : m ∉ ms := (List.nodup_cons.mp (hroot ▸ h.messages.rootNodup)).1
  have heq : openGetMsg f s = (((({ s with
      mem := s.mem.uses ((m :: ms.head?.toList).map .message), msgRoot := ms }).use
        (.wrapper (s.devWrapper f))).setWrapper (s.devWrapper f)
          ({ · with msg := some m })).setPc f .openBusyReader) := by
    unfold openGetMsg mbcddGetMsg
    rw [hroot]
    rfl
  have hmem : (openGetMsg f s).mem = s.mem := by
    have huses : s.mem.uses ((m :: ms.head?.toList).map .message) = s.mem := by
      refine Ledger.uses_live fun o ho => ?_
      obtain ⟨n, hn, rfl⟩ := List.mem_map.mp ho
      refine h.messages.rootLive n ?_
      obtain rfl | hn := List.mem_cons.mp hn
      · exact hin
      · exact hsub n (List.mem_of_head? (Option.mem_toList.mp hn))
    calc (openGetMsg f s).mem
        = (s.mem.uses ((m :: ms.head?.toList).map .message)).use (.wrapper (s.devWrapper f)) := by
          rw [heq]
          rfl
      _ = s.mem := by
        rw [huses]
        exact Ledger.use_live hlive
  have hpc' : (openGetMsg f s).pc f = .openBusyReader := by
    rw [heq]
    simp [State.pc, State.setPc, State.setFilp]
  have hdev : (openGetMsg f s).devWrapper f = s.devWrapper f := by
    rw [heq]
    simp [State.devWrapper, State.setPc, State.setFilp, State.setWrapper, State.use]
  have hmodeOld : (s.filp f).accMode = .rdonly := h.wf.mode f .rdonly (by rw [hpc]; rfl)
  have hmode : ((openGetMsg f s).filp f).accMode = .rdonly := by
    rw [heq]
    simpa [State.setPc, State.setFilp, State.setWrapper, State.use] using hmodeOld
  have hmsg : (openGetMsg f s).msgOf f = some m := by
    rw [State.msgOf, hdev, heq]
    show (Function.update s.wrapper (s.devWrapper f) _ (s.devWrapper f)).msg = _
    rw [Function.update_self]
  have hmessages : (openGetMsg f s).message = s.message := by
    rw [heq]
    rfl
  have hroot' : (openGetMsg f s).msgRoot = ms := by
    rw [heq]
    rfl
  have hself : ∀ n, (openGetMsg f s).Holds f n → n = m := fun n hh =>
    Option.some.inj (hh.1.symm.trans hmsg)
  have hmode' : ∀ g, ((openGetMsg f s).filp g).accMode = (s.filp g).accMode := by
    intro g
    by_cases hgf : g = f
    · rw [hgf, hmode, hmodeOld]
    · rw [he.filp_of_ne hgf]
  -- the message had no reader
  have hother : ∀ g n, g ≠ f → (s.filp g).accMode = .rdonly → (openGetMsg f s).Holds g n →
      n ≠ m := by
    rintro g n hgf hg hh rfl
    exact h.messages.rootReader g n hg (holds_of_ne h.wf he hgf hh) hin
  refine ⟨hwf, by rw [hmem, h.faults], h.wrappers.opening he ?_ ?_ ?_ ?_,
    ⟨fun g n hg => ?_, fun g g' n hg hg' hh hh' => ?_, ?_, fun n hn => ?_, fun g n hg hh => ?_⟩,
    ⟨fun n hn x hx => ?_, fun n hn => ?_, fun n k x hn hk hx hx' => ?_, fun n hn x hx => ?_,
      fun g n hg hh hdel => ?_, fun n hn => ?_⟩⟩
  · rw [hpc']
    exact Pc.noConfusion
  · rw [hmem, hdev]
    exact fun _ => hlive
  · rw [hmode]
    exact fun _ => AccMode.noConfusion
  · intro g _ _
    rw [hmem]
  · rw [hmem]
    by_cases hgf : g = f
    · subst hgf
      rw [hself n hg]
      exact h.messages.rootLive m hin
    · exact h.messages.live g n (holds_of_ne h.wf he hgf hg)
  · rw [hmode'] at hg hg'
    by_cases hgf : g = f <;> by_cases hgf' : g' = f
    · rw [hgf, hgf']
    · subst hgf
      exact absurd (hself n hh) (hother g' n hgf' hg' hh')
    · subst hgf'
      exact absurd (hself n hh') (hother g n hgf hg hh)
    · exact h.messages.reader g g' n hg hg' (holds_of_ne h.wf he hgf hh)
        (holds_of_ne h.wf he hgf' hh')
  · rw [hroot']
    exact (List.nodup_cons.mp (hroot ▸ h.messages.rootNodup)).2
  · rw [hmem]
    exact h.messages.rootLive n (hsub n (hroot' ▸ hn))
  · rw [hmode'] at hg
    rw [hroot']
    by_cases hgf : g = f
    · subst hgf
      rw [hself n hh]
      exact hnotin
    · exact fun hn => h.messages.rootReader g n hg (holds_of_ne h.wf he hgf hh) (hsub n hn)
  · rw [hmem] at hn ⊢
    rw [hmessages] at hx
    exact h.slots.live n hn x hx
  · rw [hmem] at hn
    rw [hmessages]
    exact h.slots.nodup n hn
  · rw [hmem] at hn hk
    rw [hmessages] at hx hx'
    exact h.slots.disjoint n k x hn hk hx hx'
  · rw [hmem] at hn
    rw [hmessages] at hx
    exact Nat.lt_of_lt_of_le (h.slots.lt n hn x hx) he.next_le
  · rw [hmode'] at hg
    rw [hmessages]
    by_cases hgf : g = f
    · subst hgf
      rw [hself n hh, h.slots.rootCurrent m hin]
      rintro c ⟨⟩
    · rw [State.pc, he.filp_of_ne hgf] at hdel
      exact h.slots.current g n hg (holds_of_ne h.wf he hgf hh) hdel
  · rw [hmessages]
    exact h.slots.rootCurrent n (hsub n (hroot' ▸ hn))

theorem step (h : Owned s) (hc : Careful s f) (hstep : step f a s = some s') : Owned s' := by
  have he := step_cases h.wf.hasMsg hstep
  have hwf := h.wf.step hstep
  cases he with
  | opens mode ok hpc => exact h.opens hwf hpc
  | newMsg ok hpc =>
    cases ok with
    | false => exact h.newMsg_none hwf hpc
    | true => exact h.newMsg_some hwf hpc
  | getMsg hpc =>
    cases hroot : s.msgRoot with
    | nil => exact h.getMsg_none hwf hpc hroot
    | cons m ms => exact h.getMsg_some hwf hpc hroot
  | noMsg hpc hmsg => exact h.noMsg hwf hpc hmsg
  | moves hmsg hlocal hch => exact h.moves hwf hc (.moves hmsg hlocal hch) hmsg hlocal hch

theorem boot : Owned boot where
  wf := .boot
  faults := rfl
  wrappers := ⟨fun _ h => (nomatch h), fun _ h => (nomatch h), fun _ h => (nomatch h)⟩
  messages := ⟨fun _ _ h => (nomatch h.2.1), fun _ _ _ _ _ h => (nomatch h.2.1), List.nodup_nil,
    fun _ h => (nomatch h), fun _ _ _ h => (nomatch h.2.1)⟩
  slots := ⟨fun _ _ _ h => (nomatch h), fun _ _ => List.nodup_nil,
    fun _ _ _ _ _ h => (nomatch h), fun _ _ _ h => (nomatch h), fun _ _ _ h => (nomatch h.2.1),
    fun _ h => (nomatch h)⟩

theorem run {h : History} (hrun : Run h s) (hc : ∀ e ∈ h, Careful e.1 e.2.1) : Owned s := by
  induction hrun with
  | boot => exact boot
  | step hrun hstep ih =>
    exact (ih fun e he => hc e (List.mem_append_left _ he)).step
      (hc _ (List.mem_append_right _ (List.mem_singleton_self _))) hstep

theorem lifetimesOk (h : Owned s) : LifetimesOk s where
  faults := h.faults
  writers f m hf := h.messages.live f m ⟨hf.2.2, hf.2.1, .inl hf.1⟩

/-- The last line of `mbcdd_release` reads the wrapper, which is freed. -/
theorem print_faults (h : Owned s) (hpc : s.pc f = .relReturn) (hstep : Mbcdd.step f a s = some s') :
    s'.mem.faults ≠ [] := by
  obtain ⟨m, hmsg⟩ := h.wf.hasMsg f (by rw [hpc]; rfl)
  have hs' : s' = relReturn f s := by
    cases a <;> simp only [Mbcdd.step, hpc, reduceCtorEq, Option.some.injEq] at hstep
    exact hstep.symm
  rw [hs', relReturn, derefMsg_some hmsg]
  exact Ledger.faults_use_of_faults (Ledger.faults_use (h.wrappers.freed f hpc))

/-- What the reader deletes is not live any more. -/
theorem delete_freed (h : Owned s) (hpc : s.pc f = .relMsg) (hmsg : s.msgOf f = some m)
    (hstep : Mbcdd.step f a s = some s') : s'.mem.status (.message m) ≠ .live := by
  have hw : s.pc f ≠ .relWrapper := by rw [hpc]; exact Pc.noConfusion
  have hholds : (s.pc f).holdsWrapper := by rw [hpc]; rfl
  have hlive := h.messages.live f m (h.holds hmsg hholds hw)
  have hs' : s' = relMsg f s := by
    cases a <;> simp only [Mbcdd.step, hpc, reduceCtorEq, Option.some.injEq] at hstep
    exact hstep.symm
  have huses : s.mem.uses ((visited m s.msgRoot).map .message) = s.mem := by
    refine Ledger.uses_live fun o ho => ?_
    obtain ⟨n, hn, rfl⟩ := List.mem_map.mp ho
    exact h.messages.rootLive n (visited_subset hn)
  have hmem : s'.mem = s.mem.free (.message m) := by
    rw [hs', relMsg, derefMsg_some hmsg]
    show ((s.derefMem f m).uses ((visited m s.msgRoot).map .message)).free (.message m) = _
    rw [h.derefMem_eq hmsg hholds hw, huses]
  rw [hmem, Ledger.free_self hlive]
  exact Status.noConfusion

theorem openForWriting_step (h : Owned s) (hpc : s.pc f = .relMsg) (hstep : Mbcdd.step f a s = some s')
    (hg : s.OpenForWriting g m) : s'.OpenForWriting g m := by
  have he := step_cases h.wf.hasMsg hstep
  obtain ⟨hmode, hholds, hmsg⟩ := hg
  have hgf : g ≠ f := by
    rintro rfl
    cases hmode.symm.trans (h.wf.mode g .rdonly (by rw [hpc]; rfl))
  refine ⟨by rwa [he.filp_of_ne hgf], by rwa [State.pc, he.filp_of_ne hgf], ?_⟩
  rw [h.wf.msgOf_of_ne he hgf (by cases hf : s.pc g <;> simp_all [Pc.holdsWrapper, Pc.opened])]
  exact hmsg

/-- A step that is not careful does harm. -/
theorem careful_of (h : Owned s) (hstep : Mbcdd.step f a s = some s') (hok : LifetimesOk s') :
    Careful s f where
  print hpc := h.print_faults hpc hstep hok.faults
  delete m hpc hmsg g hg :=
    h.delete_freed hpc hmsg hstep (hok.writers g m (h.openForWriting_step hpc hstep hg))

end Owned

/-! ## runs -/

/--
**Lifetimes.** In a run of any number of files, nothing is used or freed after it was freed and no
message is freed under its writer, exactly if no step is the last line of `mbcdd_release` and no
reader deletes a message that a writer has open.
-/
theorem lifetimes_ok_iff {h : History} (hrun : Run h s) :
    ((∀ e ∈ h, LifetimesOk e.1) ∧ LifetimesOk s) ↔ ∀ e ∈ h, Careful e.1 e.2.1 := by
  constructor
  · induction hrun with
    | boot => exact fun _ e he => nomatch he
    | @step h s s' f a hrun hstep ih =>
      rintro ⟨hall, hok⟩
      have hs : LifetimesOk s :=
        hall (s, f, a) (List.mem_append_right _ (List.mem_singleton_self _))
      have hc := ih ⟨fun e he => hall e (List.mem_append_left _ he), hs⟩
      intro e he
      obtain he | he := List.mem_append.mp he
      · exact hc e he
      · rw [List.mem_singleton.mp he]
        exact (Owned.run hrun hc).careful_of hstep hok
  · induction hrun with
    | boot => exact fun _ => ⟨fun e he => (nomatch he), Owned.boot.lifetimesOk⟩
    | @step h s s' f a hrun hstep ih =>
      intro hc
      have hc' : ∀ e ∈ h, Careful e.1 e.2.1 := fun e he => hc e (List.mem_append_left _ he)
      obtain ⟨hall, hok⟩ := ih hc'
      refine ⟨fun e he => ?_, ?_⟩
      · obtain he | he := List.mem_append.mp he
        · exact hall e he
        · rw [List.mem_singleton.mp he]
          exact hok
      · exact (Owned.run (hrun.step hstep) hc).lifetimesOk

/-- The writer opens the device and writes, the reader opens it. -/
def bothOpen : List (FileId × Act) := writerOpen 0 ++ writeSlot 0 ++ readerOpen 1

theorem lifetimes_ok_bothOpen : ∃ h s, execute bothOpen boot = some (h, s) ∧
    (((∀ e ∈ h, LifetimesOk e.1) ∧ LifetimesOk s) ↔ ∀ e ∈ h, Careful e.1 e.2.1) := by
  have hsome : (execute bothOpen boot).isSome := by
    decide +kernel
  obtain ⟨⟨h, s⟩, hexec⟩ := Option.isSome_iff_exists.mp hsome
  exact ⟨h, s, hexec, lifetimes_ok_iff (execute_run .boot hexec)⟩

/-- The reader closes the device before the writer does, which then writes once more. -/
def earlyClose : List (FileId × Act) :=
  bothOpen ++ [(1, .release), (1, .go true), (1, .go true)] ++ writeSlot 0

/-- The slot is added to a message that is freed. -/
theorem message_freed : ∃ h s, Run h s ∧ s.OpenForWriting 0 1 ∧
    .use (.message 1) ∈ s.mem.faults ∧ ¬ LifetimesOk s := by
  have hsome : ((execute earlyClose boot).any fun r =>
      decide ((r.2.filp 0).accMode = .wronly ∧ (r.2.pc 0).holdsWrapper = true ∧
        r.2.msgOf 0 = some 1) && decide (.use (.message 1) ∈ r.2.mem.faults)) := by
    decide +kernel
  obtain ⟨⟨h, s⟩, hexec, hcheck⟩ := (Option.any_eq_true _ _).mp hsome
  simp only [Bool.and_eq_true, decide_eq_true_eq] at hcheck
  obtain ⟨hopen, hfault⟩ := hcheck
  refine ⟨h, s, execute_run .boot hexec, hopen, hfault, fun hok => ?_⟩
  rw [hok.faults] at hfault
  cases hfault

end Mbcdd
