import Bambinos.Mbcdd.Lifetime

/-!
# What is not freed

* `NoLeak` — when no file is open, only the messages in `msg_root` are left
* `tidy` — a step that loses nothing it has to free
* `no_leak` — in a run of such steps nothing is lost
* `data_lost` — no one frees the data of a slot
-/

namespace Mbcdd

open Infra

/-- Not opened yet, not open any more, or `mbcdd_open` has failed. -/
def Pc.notOpen : Pc → Bool
  | .closed | .released | .failed | .oops => true
  | _ => false

/-- The object belongs to a message in `msg_root`. -/
def State.InRoot (s : State) : Obj → Prop
  | .wrapper _ => False
  | .message m => m ∈ s.msgRoot
  | .slot x => ∃ m ∈ s.msgRoot, x ∈ (s.message m).slotRoot
  | .data d => ∃ m ∈ s.msgRoot, ∃ x ∈ (s.message m).slotRoot, ∃ buf,
    (s.slot x).data = some buf ∧ buf.addr = d

def NoLeak (s : State) : Prop :=
  (∀ f, (s.pc f).notOpen) → ∀ o, s.mem.status o = .live → s.InRoot o

/-- `mbcdd_open` does not fail when it has its wrapper, a slot is added to a message that is there,
and a message is deleted whose slots have no data. -/
def tidy (s : State) (f : FileId) (a : Act) : Bool :=
  match s.pc f, a with
  | .closed, .open_ .other true => false
  | .openGetMsg, _ => s.msgRoot ≠ []
  | .openReturn, _ => (s.msgOf f).isSome
  | .writeAdd (some _) _, .go false => false
  | .writeAdd _ _, .go true => (s.msgOf f).all fun m => s.mem.status (.message m) = .live
  | .relSlots, _ => (s.msgOf f).all fun m =>
    (s.message m).slotRoot.all fun x => (s.slot x).data.isNone
  | .relMsg, _ => (s.msgOf f).all fun m => (s.message m).slotRoot = []
  | _, _ => true

/-! ## the invariant -/

/-- The message was handed out to the file, which has not deleted it. -/
structure State.Reads (s : State) (f : FileId) (m : Addr) : Prop where
  mode : (s.filp f).accMode = .rdonly
  holds : s.Holds f m
  got : s.pc f ≠ .openGetMsg

/-- Everything that is live has an owner: a file, `msg_root`, a message or a slot. -/
structure Accounted (s : State) : Prop where
  wf : Wf s
  wrapper : ∀ w, s.mem.status (.wrapper w) = .live →
    ∃ f, (s.pc f).holdsWrapper ∧ s.devWrapper f = w
  message : ∀ m, s.mem.status (.message m) = .live →
    m ∈ s.msgRoot ∨ ∃ f, s.Reads f m
  slot : ∀ x, s.mem.status (.slot x) = .live →
    ∃ m, s.mem.status (.message m) = .live ∧ x ∈ (s.message m).slotRoot
  data : ∀ d, s.mem.status (.data d) = .live →
    (∃ f buf r, s.pc f = .writeAdd (some buf) r ∧ buf.addr = d) ∨
      ∃ x buf, s.mem.status (.slot x) = .live ∧ (s.slot x).data = some buf ∧ buf.addr = d
  message_lt : ∀ m, s.mem.status (.message m) = .live → m < s.next
  slot_lt : ∀ x, s.mem.status (.slot x) = .live → x < s.next
  mode : ∀ f, (s.pc f).holdsWrapper → (s.filp f).accMode ≠ .other

variable {s s' : State} {f g : FileId} {a : Act} {m n : Addr} {pc : Pc} {msg : Message}
  {mem : Ledger Obj}

namespace Accounted

theorem noLeak (h : Accounted s) : NoLeak s := by
  intro hall
  have hnone : ∀ f, ¬ (s.pc f).holdsWrapper := by
    intro f hf
    have hno := hall f
    cases hpc : s.pc f <;> simp_all [Pc.holdsWrapper, Pc.notOpen]
  have hmessage : ∀ m, s.mem.status (.message m) = .live → m ∈ s.msgRoot := by
    intro m hm
    rcases h.message m hm with hroot | ⟨f, hf⟩
    · exact hroot
    · exact absurd hf.holds.2.1 (hnone f)
  intro o ho
  cases o with
  | wrapper w =>
    obtain ⟨f, hf, -⟩ := h.wrapper w ho
    exact absurd hf (hnone f)
  | message m => exact hmessage m ho
  | slot x =>
    obtain ⟨m, hm, hx⟩ := h.slot x ho
    exact ⟨m, hmessage m hm, hx⟩
  | data d =>
    obtain ⟨f, buf, r, hpc, -⟩ | ⟨x, buf, hx, hbuf, hd⟩ := h.data d ho
    · exact absurd (by rw [hpc]; rfl) (hnone f)
    · obtain ⟨m, hm, hin⟩ := h.slot x hx
      exact ⟨m, hmessage m hm, x, hin, buf, hbuf, hd⟩

theorem boot : Accounted boot where
  wf := .boot
  wrapper _ h := nomatch h
  message _ h := nomatch h
  slot _ h := nomatch h
  data _ h := nomatch h
  message_lt _ h := nomatch h
  slot_lt _ h := nomatch h
  mode _ h := nomatch h

end Accounted

/-! ## what is live behind a step -/

theorem delSlots_live : ∀ {xs : List Addr} {mem : Ledger Obj} {o : Obj},
    (delSlots xs mem).status o = .live ↔ mem.status o = .live ∧ ∀ x ∈ xs, o ≠ .slot x
  | [], _, _ => by simp [delSlots]
  | x :: xs, mem, o => by
    rw [delSlots, delSlots_live, Ledger.free_live, Ledger.uses_status, List.forall_mem_cons,
      and_assoc]

namespace Local

theorem live_wrapper (h : Local s f m pc msg mem) {w : Addr}
    (hw : mem.status (.wrapper w) = .live) :
    s.mem.status (.wrapper w) = .live ∧
      (w = s.devWrapper f → (s.pc f).holdsWrapper → pc.holdsWrapper) := by
  cases h with
  | getNone h hpc =>
    refine ⟨by simpa [State.currentMem, State.derefMem] using hw, fun _ _ => ?_⟩
    obtain rfl | rfl := hpc <;> rfl
  | getSlot h hpc =>
    refine ⟨by simpa [State.currentMem, State.derefMem] using hw, fun _ _ => ?_⟩
    obtain rfl | rfl := hpc <;> rfl
  | relWrapper h =>
    obtain ⟨hw, hne⟩ := Ledger.free_live.mp hw
    exact ⟨hw, fun heq => absurd (congrArg _ heq) hne⟩
  | relReturn h =>
    refine ⟨by simpa [State.derefMem] using hw, fun _ hh => ?_⟩
    rw [h] at hh
    cases hh
  | relSlots h => exact ⟨by simpa [State.derefMem] using (delSlots_live.mp hw).1, fun _ _ => rfl⟩
  | relMsg h =>
    exact ⟨by simpa [State.derefMem] using (Ledger.free_live.mp hw).1, fun _ _ => rfl⟩
  | add h | write h =>
    refine ⟨?_, fun _ _ => rfl⟩
    simpa [State.derefMem, Ledger.alloc_of_ne] using hw
  | _ => exact ⟨by simpa [State.derefMem] using hw, fun _ _ => rfl⟩

theorem live_message (h : Local s f m pc msg mem) :
    mem.status (.message n) = .live ↔
      s.mem.status (.message n) = .live ∧ (s.pc f = .relMsg → n ≠ m) := by
  cases h with
  | getNone h | getSlot h =>
    have hpc : s.pc f ≠ .relMsg := by
      obtain ⟨h, -⟩ | h := h <;> rw [h] <;> exact Pc.noConfusion
    simp [State.currentMem, State.derefMem, hpc]
  | relSlots h =>
    rw [delSlots_live]
    simp [State.derefMem, h]
  | relMsg h =>
    rw [Ledger.free_live]
    simp [State.derefMem, h]
  | relWrapper h =>
    rw [Ledger.free_live]
    simp [h]
  | add h | write h => simp [State.derefMem, Ledger.alloc_of_ne, h]
  | _ h => simp [State.derefMem, h]

theorem live_slot (h : Local s f m pc msg mem) {x : Addr} (hx : mem.status (.slot x) = .live) :
    s.mem.status (.slot x) = .live ∧ (x ∈ (s.message m).slotRoot → x ∈ msg.slotRoot) ∨
      msg.slotRoot = (s.message m).slotRoot ++ [s.next] ∧ x = s.next := by
  cases h with
  | getNone | getSlot =>
    exact .inl ⟨by simpa [State.currentMem, State.derefMem] using hx, id⟩
  | add h =>
    by_cases hnew : x = s.next
    · exact .inr ⟨rfl, hnew⟩
    · have hne : Obj.slot x ≠ .slot s.next := fun heq => hnew (Obj.slot.inj heq)
      refine .inl ⟨?_, fun hin => List.mem_append_left _ hin⟩
      simpa [State.derefMem, Ledger.alloc_of_ne hne] using hx
  | write h => exact .inl ⟨by simpa [State.derefMem, Ledger.alloc_of_ne] using hx, id⟩
  | relSlots h =>
    obtain ⟨hx, hne⟩ := delSlots_live.mp hx
    exact .inl ⟨by simpa [State.derefMem] using hx, fun hin => absurd rfl (hne x hin)⟩
  | relMsg h => exact .inl ⟨by simpa [State.derefMem] using (Ledger.free_live.mp hx).1, id⟩
  | relWrapper h => exact .inl ⟨(Ledger.free_live.mp hx).1, id⟩
  | _ => exact .inl ⟨by simpa [State.derefMem] using hx, id⟩

/-- A slot that is not freed. -/
theorem slot_live (h : Local s f m pc msg mem) {x : Addr} (hx : s.mem.status (.slot x) = .live)
    (hdel : s.pc f = .relSlots → x ∉ (s.message m).slotRoot) : mem.status (.slot x) = .live := by
  cases h with
  | add h =>
    rw [Ledger.uses_status]
    exact Ledger.alloc_live (by simpa [State.derefMem] using hx)
  | write h => exact Ledger.alloc_live (by simpa [State.derefMem] using hx)
  | relSlots h =>
    refine delSlots_live.mpr ⟨by simpa [State.derefMem] using hx, fun y hy heq => hdel h ?_⟩
    exact Obj.slot.inj heq ▸ hy
  | relMsg h => exact Ledger.free_live.mpr ⟨by simpa [State.derefMem] using hx, by rintro ⟨⟩⟩
  | relWrapper h => exact Ledger.free_live.mpr ⟨hx, by rintro ⟨⟩⟩
  | _ => simpa [State.currentMem, State.derefMem] using hx

theorem live_data (h : Local s f m pc msg mem) {d : Addr} (hd : mem.status (.data d) = .live) :
    s.mem.status (.data d) = .live ∨ ∃ buf r, pc = .writeAdd (some buf) r ∧ buf.addr = d := by
  cases h with
  | write h =>
    by_cases hnew : d = s.next
    · exact .inr ⟨_, _, rfl, hnew.symm⟩
    · have hne : Obj.data d ≠ .data s.next := fun heq => hnew (Obj.data.inj heq)
      exact .inl (by simpa [State.derefMem, Ledger.alloc_of_ne hne] using hd)
  | add h => exact .inl (by simpa [State.derefMem, Ledger.alloc_of_ne] using hd)
  | relSlots h => exact .inl (by simpa [State.derefMem] using (delSlots_live.mp hd).1)
  | relMsg h => exact .inl (by simpa [State.derefMem] using (Ledger.free_live.mp hd).1)
  | relWrapper h => exact .inl (Ledger.free_live.mp hd).1
  | _ => exact .inl (by simpa [State.currentMem, State.derefMem] using hd)

/-- Where a slot is added. -/
theorem added (h : Local s f m pc msg mem)
    (hnew : msg.slotRoot = (s.message m).slotRoot ++ [s.next]) :
    (∃ data r, s.pc f = .writeAdd data r) ∧ mem.status (.slot s.next) = .live := by
  cases h with
  | add h =>
    refine ⟨⟨_, _, h⟩, ?_⟩
    rw [Ledger.uses_status]
    exact Ledger.alloc_self
  | relSlots h => exact absurd hnew (by simp)
  | _ => exact absurd hnew.symm (Changes.append_ne _)

/-- A reader keeps its message until it deletes it. -/
theorem reader (h : Local s f m pc msg mem)
    (hmode : ∀ mode, (s.pc f).mode = some mode → (s.filp f).accMode = mode)
    (hr : (s.filp f).accMode = .rdonly) (hholds : (s.pc f).holdsWrapper)
    (hw : s.pc f ≠ .relWrapper) (hdel : s.pc f ≠ .relMsg) :
    pc.holdsWrapper ∧ pc ≠ .relWrapper ∧ pc ≠ .openGetMsg := by
  have hwriter : (s.pc f).mode ≠ some .wronly := fun h => by
    cases hr.symm.trans (hmode _ h)
  cases h with
  | getNone h hpc | getSlot h hpc =>
    obtain rfl | rfl := hpc <;> exact ⟨rfl, Pc.noConfusion, Pc.noConfusion⟩
  | relBusyReader h | relFinWriter h => exact absurd (by rw [h]; rfl) hwriter
  | releaseOther h hother => exact absurd (hr.symm.trans hother) AccMode.noConfusion
  | relMsg h => exact absurd h hdel
  | relWrapper h => exact absurd h hw
  | relReturn h =>
    rw [h] at hholds
    cases hholds
  | _ => exact ⟨rfl, Pc.noConfusion, Pc.noConfusion⟩

end Local

/-- What `mbcdd_add_data_slot` does with and without memory. -/
theorem writeAdd_cases {data : Option Data} {retval : Int} (hpc : s.pc f = .writeAdd data retval)
    (hmsg : s.msgOf f = some m) (hstep : step f a s = some s') :
    a = .go true ∧ (s'.message m).slotRoot = (s.message m).slotRoot ++ [s.next] ∨
      a = .go false ∧ s'.message m = s.message m := by
  cases a <;> simp only [step, hpc, reduceCtorEq, Option.some.injEq] at hstep
  rename_i ok
  subst hstep
  rw [writeAdd, derefMsg_some hmsg]
  cases ok with
  | false => exact .inr ⟨rfl, rfl⟩
  | true =>
    refine .inl ⟨rfl, ?_⟩
    simp [mbcddAddDataSlot, State.setMessage, State.setPc, State.setFilp]

namespace Accounted

/-- The message of a new slot is there. -/
theorem add_live (ht : tidy s f a) (hmsg : s.msgOf f = some m) (hstep : step f a s = some s')
    (hlocal : Local s f m pc msg mem) (hch : Changes s s' f m pc msg mem)
    (hnew : msg.slotRoot = (s.message m).slotRoot ++ [s.next]) :
    s.mem.status (.message m) = .live := by
  obtain ⟨⟨data, r, hpc⟩, -⟩ := hlocal.added hnew
  obtain ⟨rfl, -⟩ | ⟨-, hold⟩ := writeAdd_cases hpc hmsg hstep
  · cases data <;> simpa [tidy, hpc, hmsg] using ht
  · rw [hch.message_self] at hold
    exact absurd (hnew.symm.trans (congrArg Message.slotRoot hold)) (Changes.append_ne _)

/-- The data of a slot goes from the writer to the slot. -/
theorem data_moves (h : Accounted s) (ht : tidy s f a) (hstep : step f a s = some s')
    (he : Effect f s s') (hmsg : s.msgOf f = some m) (hlocal : Local s f m pc msg mem)
    (hch : Changes s s' f m pc msg mem) {d : Addr} (hd : mem.status (.data d) = .live) :
    (∃ g buf r, s'.pc g = .writeAdd (some buf) r ∧ buf.addr = d) ∨
      ∃ x buf, mem.status (.slot x) = .live ∧ (s'.slot x).data = some buf ∧ buf.addr = d := by
  obtain hold | ⟨buf, r, rfl, rfl⟩ := hlocal.live_data hd
  · obtain ⟨g, buf, r, hpc, rfl⟩ | ⟨x, buf, hx, hbuf, rfl⟩ := h.data d hold
    · by_cases hgf : g = f
      · subst hgf
        obtain ⟨-, hnew⟩ | ⟨rfl, -⟩ := writeAdd_cases hpc hmsg hstep
        · rw [hch.message_self] at hnew
          exact .inr ⟨s.next, buf, (hlocal.added hnew).2, (hch.newSlot hnew).2 _ r hpc, rfl⟩
        · simp [tidy, hpc] at ht
      · exact .inl ⟨g, buf, r, by rw [State.pc, he.filp_of_ne hgf]; exact hpc, rfl⟩
    · refine .inr ⟨x, buf, hlocal.slot_live hx fun hdel hin => ?_, ?_, rfl⟩
      · -- a slot with data is not deleted
        simp only [tidy, hdel, hmsg, Option.all_some, List.all_eq_true] at ht
        simpa [hbuf] using ht x hin
      · rw [hch.slot x (h.slot_lt x hx), hbuf]
  · exact .inl ⟨f, buf, r, hch.pc_self, rfl⟩

theorem moves (h : Accounted s) (hwf : Wf s') (ht : tidy s f a) (hstep : step f a s = some s')
    (he : Effect f s s') (hmsg : s.msgOf f = some m) (hlocal : Local s f m pc msg mem)
    (hch : Changes s s' f m pc msg mem) : Accounted s' := by
  have hpc : ∀ g, g ≠ f → s'.pc g = s.pc g := fun g hg => by rw [State.pc, he.filp_of_ne hg]
  -- a message that is deleted has no slots
  have hempty : s.pc f = .relMsg → (s.message m).slotRoot = [] := fun hpc => by
    simpa [tidy, hpc, hmsg] using ht
  have hmessage : ∀ n x, s.mem.status (.message n) = .live → x ∈ (s.message n).slotRoot →
      mem.status (.message n) = .live := by
    refine fun n x hn hx => hlocal.live_message.mpr ⟨hn, ?_⟩
    rintro hdel rfl
    rw [hempty hdel] at hx
    cases hx
  refine ⟨hwf, fun w hw => ?_, fun n hn => ?_, fun x hx => ?_, fun d hd => ?_, fun n hn => ?_,
    fun x hx => ?_, fun g hg => ?_⟩
  · rw [hch.mem] at hw
    obtain ⟨hold, hself⟩ := hlocal.live_wrapper hw
    obtain ⟨g, hg, hdev⟩ := h.wrapper w hold
    refine ⟨g, ?_, (hch.devWrapper g).trans hdev⟩
    by_cases hgf : g = f
    · subst hgf
      rw [hch.pc_self]
      exact hself hdev.symm hg
    · rwa [hpc g hgf]
  · rw [hch.mem] at hn
    obtain ⟨hold, hdel⟩ := hlocal.live_message.mp hn
    obtain hroot | ⟨g, hr, hg, hgot⟩ := h.message n hold
    · refine .inl ?_
      rw [hch.root]
      split
      · next hpc => exact (List.mem_erase_of_ne (hdel hpc)).mpr hroot
      · exact hroot
    · suffices (s'.pc g).holdsWrapper ∧ s'.pc g ≠ .relWrapper ∧ s'.pc g ≠ .openGetMsg by
        obtain ⟨hholds, hw, hgot⟩ := this
        have hr' := (hch.accMode g).trans hr
        exact .inr ⟨g, hr', ⟨(hch.msgOf g).trans hg.1, hholds, .inr ⟨hr', hw⟩⟩, hgot⟩
      have hw : s.pc g ≠ .relWrapper := fun hw => by
        obtain hmode | ⟨-, hmode⟩ := hg.2.2
        · cases hr.symm.trans hmode
        · exact hmode hw
      by_cases hgf : g = f
      · subst hgf
        have hnm : n = m := Option.some.inj (hg.1.symm.trans hmsg)
        rw [hch.pc_self]
        exact hlocal.reader (h.wf.mode g) hr hg.2.1 hw fun hpc => hdel hpc hnm
      · rw [hpc g hgf]
        exact ⟨hg.2.1, hw, hgot⟩
  · rw [hch.mem] at hx
    obtain ⟨hold, hin⟩ | ⟨hnew, rfl⟩ := hlocal.live_slot hx
    · obtain ⟨n, hn, hxn⟩ := h.slot x hold
      refine ⟨n, hch.mem ▸ hmessage n x hn hxn, ?_⟩
      by_cases hnm : n = m
      · subst hnm
        rw [hch.message_self]
        exact hin hxn
      · rwa [hch.message_of_ne hnm]
    · have hm := add_live ht hmsg hstep hlocal hch hnew
      refine ⟨m, hch.mem ▸ hlocal.live_message.mpr ⟨hm, fun hdel => ?_⟩, ?_⟩
      · obtain ⟨⟨data, r, hpc⟩, -⟩ := hlocal.added hnew
        cases hpc.symm.trans hdel
      · rw [hch.message_self, hnew]
        exact List.mem_append_right _ (List.mem_singleton_self _)
  · rw [hch.mem] at hd ⊢
    exact h.data_moves ht hstep he hmsg hlocal hch hd
  · rw [hch.mem] at hn
    exact Nat.lt_of_lt_of_le (h.message_lt n (hlocal.live_message.mp hn).1) hch.next
  · rw [hch.mem] at hx
    obtain ⟨hold, -⟩ | ⟨hnew, rfl⟩ := hlocal.live_slot hx
    · exact Nat.lt_of_lt_of_le (h.slot_lt x hold) hch.next
    · exact (hch.newSlot hnew).1
  · rw [hch.accMode]
    by_cases hgf : g = f
    · subst hgf
      rw [hch.pc_self] at hg
      exact h.mode g (hlocal.holdsWrapper hg)
    · rw [hpc g hgf] at hg
      exact h.mode g hg

/-! ## the parts of `mbcdd_open` -/

/-- The objects and owners that a part of `mbcdd_open` does not touch. -/
structure Opens (s s' : State) (f : FileId) : Prop where
  wf : Wf s'
  effect : Effect f s s'
  wrapper : ∀ w, s'.mem.status (.wrapper w) = .live →
    s.mem.status (.wrapper w) = .live ∧ (s.devWrapper f = w → ¬ (s.pc f).holdsWrapper) ∨
      (s'.pc f).holdsWrapper ∧ s'.devWrapper f = w
  message : ∀ m, s'.mem.status (.message m) = .live →
    s.mem.status (.message m) = .live ∧ (m ∈ s.msgRoot → m ∈ s'.msgRoot ∨ s'.Reads f m) ∨
      m ∈ s'.msgRoot ∧ m < s'.next
  reads : ∀ m, ¬ s.Reads f m
  live : ∀ m, s.mem.status (.message m) = .live → s'.mem.status (.message m) = .live
  messages : ∀ m < s.next, s'.message m = s.message m
  slot : ∀ x, s'.mem.status (.slot x) = s.mem.status (.slot x)
  data : ∀ d, s'.mem.status (.data d) = s.mem.status (.data d)
  slots : s'.slot = s.slot
  mode : (s'.pc f).holdsWrapper → (s'.filp f).accMode ≠ .other

theorem opens (h : Accounted s) (ho : Opens s s' f) (hpc : ∀ buf r, s.pc f ≠ .writeAdd buf r) :
    Accounted s' := by
  have he := ho.effect
  refine ⟨ho.wf, fun w hw => ?_, fun m hm => ?_, fun x hx => ?_, fun d hd => ?_, fun m hm => ?_,
    fun x hx => ?_, fun g hg => ?_⟩
  · obtain ⟨hold, hself⟩ | hnew := ho.wrapper w hw
    · obtain ⟨g, hg, hdev⟩ := h.wrapper w hold
      have hgf : g ≠ f := by
        rintro rfl
        exact hself hdev hg
      exact ⟨g, by rwa [State.pc, he.filp_of_ne hgf], by rwa [State.devWrapper, he.filp_of_ne hgf]⟩
    · exact ⟨f, hnew⟩
  · obtain ⟨hold, hroot⟩ | hnew := ho.message m hm
    · obtain hin | ⟨g, hg⟩ := h.message m hold
      · exact (hroot hin).imp_right fun hf => ⟨f, hf⟩
      · have hgf : g ≠ f := by
          rintro rfl
          exact ho.reads m hg
        obtain ⟨hr, ⟨hmsg, hpc, hmode⟩, hgot⟩ := hg
        refine .inr ⟨g, by rwa [he.filp_of_ne hgf], ⟨?_, ?_⟩, ?_⟩
        · rw [h.wf.msgOf_of_ne he hgf]
          · exact hmsg
          · cases hf : s.pc g <;> simp_all [Pc.holdsWrapper, Pc.opened]
        · rw [State.pc, he.filp_of_ne hgf]
          exact ⟨hpc, hmode⟩
        · rwa [State.pc, he.filp_of_ne hgf]
    · exact .inl hnew.1
  · rw [ho.slot] at hx
    obtain ⟨m, hm, hin⟩ := h.slot x hx
    exact ⟨m, ho.live m hm, by rwa [ho.messages m (h.message_lt m hm)]⟩
  · rw [ho.data] at hd
    obtain ⟨g, buf, r, hg, hbuf⟩ | ⟨x, buf, hx, hbuf, hd⟩ := h.data d hd
    · have hgf : g ≠ f := by
        rintro rfl
        exact hpc _ _ hg
      exact .inl ⟨g, buf, r, by rwa [State.pc, he.filp_of_ne hgf], hbuf⟩
    · exact .inr ⟨x, buf, (ho.slot x).trans hx, by rwa [ho.slots], hd⟩
  · obtain ⟨hold, -⟩ | ⟨-, hlt⟩ := ho.message m hm
    · exact Nat.lt_of_lt_of_le (h.message_lt m hold) he.next_le
    · exact hlt
  · rw [ho.slot] at hx
    exact Nat.lt_of_lt_of_le (h.slot_lt x hx) he.next_le
  · by_cases hgf : g = f
    · subst hgf
      exact ho.mode hg
    · rw [State.pc, he.filp_of_ne hgf] at hg
      rw [he.filp_of_ne hgf]
      exact h.mode g hg

/-- The file gets a wrapper, when there is memory. -/
theorem opens_open {mode : AccMode} {ok : Bool} (hwf : Wf (mbcddOpen f mode ok s))
    (ht : tidy s f (.open_ mode ok)) (hpc : s.pc f = .closed) :
    Opens s (mbcddOpen f mode ok s) f := by
  have he : Effect f s (mbcddOpen f mode ok s) := .opens mode ok hpc
  have hno : ¬ (s.pc f).holdsWrapper := by
    rw [hpc]
    exact Bool.noConfusion
  have hreads : ∀ m, ¬ s.Reads f m := fun m hr => hno hr.holds.2.1
  cases ok with
  | false =>
    have hself : ((mbcddOpen f mode false s).pc f).holdsWrapper = false := by
      simp [mbcddOpen, State.pc, State.setPc, State.setFilp, Pc.holdsWrapper]
    exact ⟨hwf, he, fun w hw => .inl ⟨hw, fun _ => hno⟩, fun m hm => .inl ⟨hm, .inl⟩, hreads,
      fun _ => id, fun _ _ => rfl, fun _ => rfl, fun _ => rfl, rfl,
      fun hh => absurd (hself.symm.trans hh) Bool.noConfusion⟩
  | true =>
    have hmode : mode ≠ .other := by
      rintro rfl
      simp [tidy, hpc] at ht
    have hmem : (mbcddOpen f mode true s).mem = s.mem.alloc (.wrapper s.next) := by
      cases mode <;> rfl
    have hself : ((mbcddOpen f mode true s).pc f).holdsWrapper ∧
        (mbcddOpen f mode true s).devWrapper f = s.next ∧
        ((mbcddOpen f mode true s).filp f).accMode ≠ .other := by
      cases mode with
      | other => exact absurd rfl hmode
      | _ => simp [mbcddOpen, State.pc, State.setFilp, State.devWrapper, Pc.holdsWrapper]
    refine ⟨hwf, he, fun w hw => ?_, fun m hm => .inl ⟨?_, fun hin => .inl ?_⟩, hreads,
      fun m hm => ?_, fun m _ => ?_, fun x => ?_, fun d => ?_, ?_, fun _ => hself.2.2⟩
    · by_cases hnew : w = s.next
      · exact .inr ⟨hself.1, hself.2.1.trans hnew.symm⟩
      · rw [hmem, Ledger.alloc_of_ne fun heq => hnew (Obj.wrapper.inj heq)] at hw
        exact .inl ⟨hw, fun _ => hno⟩
    · rwa [hmem, Ledger.alloc_of_ne (by rintro ⟨⟩)] at hm
    · cases mode <;> exact hin
    · rw [hmem]
      exact Ledger.alloc_live hm
    · cases mode <;> rfl
    · rw [hmem, Ledger.alloc_of_ne (by rintro ⟨⟩)]
    · rw [hmem, Ledger.alloc_of_ne (by rintro ⟨⟩)]
    · cases mode <;> rfl

/-- A new message is in `msg_root`. -/
theorem opens_newMsg {ok : Bool} (h : Accounted s) (hwf : Wf (openNewMsg f ok s))
    (hpc : s.pc f = .openNewMsg) : Opens s (openNewMsg f ok s) f := by
  have he : Effect f s (openNewMsg f ok s) := .newMsg ok hpc
  have hmode : (s.filp f).accMode = .wronly := h.wf.mode f .wronly (by rw [hpc]; rfl)
  have hreads : ∀ m, ¬ s.Reads f m := fun m hr => by cases hmode.symm.trans hr.mode
  have hself : ((openNewMsg f ok s).pc f).holdsWrapper ∧
      (openNewMsg f ok s).devWrapper f = s.devWrapper f ∧
      ((openNewMsg f ok s).filp f).accMode ≠ .other := by
    cases ok <;> simp [openNewMsg, mbcddNewMsg, State.pc, State.setPc, State.setFilp,
      State.devWrapper, State.setWrapper, State.use, Pc.holdsWrapper, hmode]
  have hwrapper : ∀ w, s.mem.status (.wrapper w) = .live →
      s.mem.status (.wrapper w) = .live ∧ (s.devWrapper f = w → ¬ (s.pc f).holdsWrapper) ∨
        ((openNewMsg f ok s).pc f).holdsWrapper ∧ (openNewMsg f ok s).devWrapper f = w := by
    intro w hw
    by_cases hdev : s.devWrapper f = w
    · exact .inr ⟨hself.1, hself.2.1.trans hdev⟩
    · exact .inl ⟨hw, fun heq => absurd heq hdev⟩
  cases ok with
  | false =>
    have hmem : (openNewMsg f false s).mem.status = s.mem.status := Ledger.use_status
    exact ⟨hwf, he, fun w hw => hwrapper w (by rwa [hmem] at hw),
      fun m hm => .inl ⟨by rwa [hmem] at hm, .inl⟩, hreads, fun _ hm => by rwa [hmem],
      fun _ _ => rfl, fun _ => by rw [hmem], fun _ => by rw [hmem], rfl, fun _ => hself.2.2⟩
  | true =>
    have hmem : (openNewMsg f true s).mem.status = (s.mem.alloc (.message s.next)).status :=
      Ledger.use_status.trans Ledger.uses_status
    refine ⟨hwf, he, fun w hw => hwrapper w ?_, fun m hm => ?_, hreads, fun m hm => ?_,
      fun m hm => ?_, fun x => ?_, fun d => ?_, rfl, fun _ => hself.2.2⟩
    · rwa [hmem, Ledger.alloc_of_ne (by rintro ⟨⟩)] at hw
    · by_cases hnew : m = s.next
      · rw [hnew]
        exact .inr ⟨List.mem_cons_self .., Nat.lt_succ_self _⟩
      · rw [hmem, Ledger.alloc_of_ne fun heq => hnew (Obj.message.inj heq)] at hm
        exact .inl ⟨hm, fun hin => .inl (List.mem_cons_of_mem _ hin)⟩
    · rw [hmem]
      exact Ledger.alloc_live hm
    · exact Function.update_of_ne (Nat.ne_of_lt hm) ..
    · rw [hmem, Ledger.alloc_of_ne (by rintro ⟨⟩)]
    · rw [hmem, Ledger.alloc_of_ne (by rintro ⟨⟩)]

/-- The message that leaves `msg_root` is handed out to the file. -/
theorem opens_getMsg (h : Accounted s) (hwf : Wf (openGetMsg f s)) (ht : tidy s f a)
    (hpc : s.pc f = .openGetMsg) : Opens s (openGetMsg f s) f := by
  have he : Effect f s (openGetMsg f s) := .getMsg hpc
  have hmode : (s.filp f).accMode = .rdonly := h.wf.mode f .rdonly (by rw [hpc]; rfl)
  obtain ⟨m, ms, hroot⟩ : ∃ m ms, s.msgRoot = m :: ms := by
    cases hroot : s.msgRoot with
    | nil => simp [tidy, hpc, hroot] at ht
    | cons m ms => exact ⟨m, ms, rfl⟩
  have heq : openGetMsg f s = ((State.setWrapper (s.devWrapper f) ({ · with msg := some m })
      (State.use (.wrapper (s.devWrapper f)) { s with
        mem := s.mem.uses ((m :: ms.head?.toList).map Obj.message)
        msgRoot := ms })).setPc f .openBusyReader) := by
    simp only [openGetMsg, mbcddGetMsg, hroot]
    rfl
  have hmem : (openGetMsg f s).mem.status = s.mem.status := by
    rw [heq]
    exact Ledger.use_status.trans Ledger.uses_status
  have hself : (openGetMsg f s).pc f = .openBusyReader ∧
      (openGetMsg f s).devWrapper f = s.devWrapper f ∧
      ((openGetMsg f s).filp f).accMode = .rdonly ∧ (openGetMsg f s).msgOf f = some m := by
    rw [heq]
    simp [State.pc, State.setPc, State.setFilp, State.devWrapper, State.setWrapper, State.use,
      State.msgOf, hmode]
  obtain ⟨hpc', hdev', hmode', hmsg'⟩ := hself
  refine ⟨hwf, he, fun w hw => ?_, fun n hn => .inl ⟨by rwa [hmem] at hn, fun hin => ?_⟩,
    fun n hn => hn.got hpc, fun n hn => by rwa [hmem], fun n _ => by rw [heq]; rfl,
    fun x => by rw [hmem], fun d => by rw [hmem], by rw [heq]; rfl, fun _ => ?_⟩
  · rw [hmem] at hw
    by_cases hdev : s.devWrapper f = w
    · exact .inr ⟨by rw [hpc']; rfl, hdev'.trans hdev⟩
    · exact .inl ⟨hw, fun heq => absurd heq hdev⟩
  · rw [hroot] at hin
    obtain rfl | hin := List.mem_cons.mp hin
    · refine .inr ⟨hmode', ⟨hmsg', by rw [hpc']; rfl, .inr ⟨hmode', ?_⟩⟩, ?_⟩ <;>
        rw [hpc'] <;> exact Pc.noConfusion
    · refine .inl ?_
      rw [heq]
      exact hin
  · rw [hmode']
    exact AccMode.noConfusion

/-! ## runs -/

theorem step (h : Accounted s) (ht : tidy s f a) (hstep : step f a s = some s') : Accounted s' := by
  have he := step_cases h.wf.hasMsg hstep
  have hwf := h.wf.step hstep
  by_cases hclosed : s.pc f = .closed
  · cases a <;> simp only [Mbcdd.step, hclosed, reduceCtorEq, Option.some.injEq] at hstep
    subst hstep
    exact h.opens (opens_open hwf ht hclosed) (by simp [hclosed])
  cases he with
  | opens mode ok hpc => exact absurd hpc hclosed
  | newMsg ok hpc => exact h.opens (h.opens_newMsg hwf hpc) (by simp [hpc])
  | getMsg hpc => exact h.opens (h.opens_getMsg hwf ht hpc) (by simp [hpc])
  | noMsg hpc hmsg => simp [tidy, hpc, hmsg] at ht
  | moves hmsg hlocal hch => exact h.moves hwf ht hstep (.moves hmsg hlocal hch) hmsg hlocal hch

theorem run {h : History} (hrun : Run h s) (ht : ∀ e ∈ h, tidy e.1 e.2.1 e.2.2) : Accounted s := by
  induction hrun with
  | boot => exact boot
  | step hrun hstep ih =>
    exact (ih fun e he => ht e (List.mem_append_left _ he)).step
      (ht _ (List.mem_append_right _ (List.mem_singleton_self _))) hstep

end Accounted

/--
**Leaks.** In a run of any number of files whose steps are tidy, everything that is left when no file
is open belongs to the messages in `msg_root`.
-/
theorem no_leak {h : History} (hrun : Run h s) (ht : ∀ e ∈ h, tidy e.1 e.2.1 e.2.2) : NoLeak s :=
  (Accounted.run hrun ht).noLeak

/-- What a writer does to close the device when no one reads its message. -/
def writerClose (f : FileId) : List (FileId × Act) :=
  [(f, .release), (f, .go true), (f, .go true), (f, .go true), (f, .go true)]

/-- An empty message is left for a reader, which closes the device, too. -/
def emptyMessage : List (FileId × Act) :=
  writerOpen 0 ++ writerClose 0 ++ readerOpen 1 ++
    [(1, .release), (1, .go true), (1, .go true), (1, .go true), (1, .go true)]

theorem no_leak_emptyMessage : ∃ h s, execute emptyMessage boot = some (h, s) ∧
    s.pc 1 = .released ∧ NoLeak s := by
  have hsome : ((execute emptyMessage boot).any fun r => decide (r.2.pc 1 = .released) &&
      r.1.all fun e => tidy e.1 e.2.1 e.2.2) := by
    decide +kernel
  obtain ⟨⟨h, s⟩, hexec, hcheck⟩ := (Option.any_eq_true _ _).mp hsome
  obtain ⟨hpc, hall⟩ := Bool.and_eq_true_iff.mp hcheck
  refine ⟨h, s, hexec, of_decide_eq_true hpc, ?_⟩
  exact no_leak (execute_run .boot hexec) fun e he => List.all_eq_true.mp hall e he

/-! ## data that is lost -/

/-- A file that makes no step stays as it is. -/
theorem execute_filp : ∀ {l : List (FileId × Act)} {h : History} {s s' : State}, Wf s →
    (∀ p ∈ l, p.1 ≠ g) → execute l s = some (h, s') → s'.filp g = s.filp g
  | [], h, s, s', _, _, hexec => by
    cases hexec
    rfl
  | (f, a) :: l, h, s, s', hwf, hne, hexec => by
    obtain ⟨s₁, hstep, hrest⟩ := Option.bind_eq_some_iff.mp hexec
    obtain ⟨⟨h₁, s₂⟩, hexec₁, heq⟩ := Option.map_eq_some_iff.mp hrest
    cases heq
    rw [execute_filp (hwf.step hstep) (fun p hp => hne p (List.mem_cons_of_mem _ hp)) hexec₁]
    exact (step_cases hwf.hasMsg hstep).filp_of_ne (hne (f, a) (List.mem_cons_self ..)).symm

/-- A message with one slot is written and read. -/
def oneSlot : List (FileId × Act) :=
  writerOpen 0 ++ writeSlot 0 ++ writerClose 0 ++ readerOpen 1 ++
    [(1, .read), (1, .release), (1, .go true), (1, .go true), (1, .go true), (1, .go true)]

/-- All files are closed, and the data of the slot is still there. -/
theorem data_lost : ∃ h s, Run h s ∧ (∀ f, (s.pc f).notOpen) ∧ s.mem.status (.data 2) = .live ∧
    ¬ NoLeak s := by
  have hsome : ((execute oneSlot boot).any fun r =>
      decide (r.2.pc 0 = .released ∧ r.2.pc 1 = .released ∧
        r.2.mem.status (.data 2) = .live ∧ r.2.msgRoot = [])) := by
    decide +kernel
  obtain ⟨⟨h, s⟩, hexec, hcheck⟩ := (Option.any_eq_true _ _).mp hsome
  obtain ⟨hpc₀, hpc₁, hlive, hroot⟩ := of_decide_eq_true hcheck
  have hclosed : ∀ f, (s.pc f).notOpen := by
    intro f
    by_cases hf₀ : f = 0
    · rw [hf₀, hpc₀]
      rfl
    · by_cases hf₁ : f = 1
      · rw [hf₁, hpc₁]
        rfl
      · have hfilp : s.filp f = boot.filp f := by
          refine execute_filp .boot (fun p hp => ?_) hexec
          have hmem : ∀ p ∈ oneSlot, p.1 = 0 ∨ p.1 = 1 := by decide
          rintro rfl
          exact (hmem p hp).elim hf₀ hf₁
        rw [State.pc, hfilp]
        rfl
  refine ⟨h, s, execute_run .boot hexec, hclosed, hlive, fun hok => ?_⟩
  obtain ⟨m, hm, -⟩ := hok hclosed _ hlive
  rw [hroot] at hm
  cases hm

end Mbcdd
