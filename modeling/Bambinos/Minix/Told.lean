import Bambinos.Minix.Notices

/-!
# What a notification takes along

Every bit that is set for a process is told once: the next notification takes all of them along, and
until then they are pending.

* `owed` — the bits that have been set since the last notification
* `Ipc.Kept` — they are the ones that are pending, and every notification took them along
* `signals_told` — in every run
-/

namespace Minix

open Infra

/-- The bits that have been set for `id` and not been told. -/
def owed (src : Int) (id : PrivPtr) : List Notice → Finset Nat :=
  List.foldl (fun bits e => match e with
    | .raised k t bit => if t = src ∧ k = id then insert bit bits else bits
    | .told k t _ => if t = src ∧ k = id then ∅ else bits) ∅

namespace Ipc

variable {α : Type} {st st' st₁ : Ipc α} {callerPtr dstPtr : ProcPtr} {srcE srcP dstE src e : Int}
  {m : Message α} {nonBlocking : Bool} {id : PrivPtr}

/-- What is owed is pending, and every notification took along what was owed. -/
structure Kept (st : Ipc α) : Prop where
  pending : ∀ src id, IsTask src → st.pending src id = owed src id st.notices
  told : ∀ l₁ l₂ id src arg, IsTask src → st.notices = l₁ ++ .told id src arg :: l₂ →
    arg = owed src id l₁

theorem Kept.same (h : st.Kept) (hpending : ∀ src, st'.pending src = st.pending src)
    (hnotices : st'.notices = st.notices) : st'.Kept where
  pending src id hsrc := by
    rw [hpending, hnotices]
    exact h.pending src id hsrc
  told := by
    rw [hnotices]
    exact h.told

theorem owed_concat {l : List Notice} {e : Notice} : owed src id (l ++ [e]) =
    match e with
    | .raised k t bit => if t = src ∧ k = id then insert bit (owed src id l) else owed src id l
    | .told k t _ => if t = src ∧ k = id then ∅ else owed src id l := by
  unfold owed
  rw [List.foldl_append]
  rfl

theorem split_concat {β : Type} {l l₁ l₂ : List β} {a b : β} (h : l ++ [a] = l₁ ++ b :: l₂) :
    l₁ = l ∧ b = a ∨ ∃ l₃, l = l₁ ++ b :: l₃ := by
  rcases List.eq_nil_or_concat l₂ with rfl | ⟨l₃, c, rfl⟩
  · obtain ⟨hl, hlast⟩ := List.append_inj' h rfl
    exact Or.inl ⟨hl.symm, (List.cons.inj hlast).1.symm⟩
  · rw [List.concat_eq_append, ← List.cons_append, ← List.append_assoc] at h
    exact Or.inr ⟨l₃, (List.append_inj' h rfl).1⟩

theorem Kept.deliver (h : st.Kept) (hstep : st.deliverNotice src dstPtr = some st') :
    st'.Kept := by
  have hnotices : st'.notices = st.notices ++
      [.told (st.kernel.proc dstPtr).priv src (st.pending src (st.kernel.proc dstPtr).priv)] := by
    unfold deliverNotice at hstep
    obtain ⟨srcPtr, -, hstep⟩ := Option.bind_eq_some_iff.mp hstep
    cases hstep
    rfl
  refine ⟨fun t id ht => ?_, fun l₁ l₂ id t arg ht hl => ?_⟩
  · rw [deliverNotice_pending hstep ht, hnotices, owed_concat, h.pending t id ht]
    simp only [eq_comm]
  · rw [hnotices] at hl
    rcases split_concat hl with ⟨rfl, hlast⟩ | ⟨l, hl⟩
    · cases hlast
      exact h.pending _ _ ht
    · exact h.told l₁ l id t arg ht hl

theorem Kept.raise {bit : Nat} (h : st.Kept) (hsrc : IsTask src) : (st.raise src id bit).Kept := by
  refine ⟨fun t k ht => ?_, fun l₁ l₂ k t arg ht hl => ?_⟩
  · rw [raise_pending hsrc ht, show (st.raise src id bit).notices = _ ++ [_] from rfl, owed_concat,
      h.pending t k ht]
    simp only [eq_comm]
  · rw [show (st.raise src id bit).notices = st.notices ++ [.raised id src bit] from rfl] at hl
    rcases split_concat hl with ⟨-, hlast⟩ | ⟨l, hl⟩
    · cases hlast
    · exact h.told l₁ l k t arg ht hl

/-! ## the operations -/

namespace Kept

theorem miniNotify (h : st.Kept) (hstep : st.miniNotify callerPtr dstPtr = some (e, st')) :
    st'.Kept := by
  unfold Ipc.miniNotify at hstep
  dsimp only at hstep
  split at hstep
  · obtain ⟨st₁, hnotice, hstep⟩ := Option.bind_eq_some_iff.mp hstep
    obtain ⟨s, -, hstep⟩ := Option.bind_eq_some_iff.mp hstep
    cases hstep
    exact (h.deliver hnotice).same (fun _ => rfl) rfl
  · cases hstep
    exact h.same (fun _ => rfl) rfl

theorem lockNotify (h : st.Kept) (hstep : st.lockNotify srcE dstE = some (e, st')) : st'.Kept := by
  unfold Ipc.lockNotify at hstep
  split at hstep
  · exact h.miniNotify hstep
  · cases hstep
    exact h

theorem miniSend (h : st.Kept) (hstep : st.miniSend callerPtr dstE m nonBlocking = some (e, st')) :
    st'.Kept := by
  unfold Ipc.miniSend at hstep
  obtain ⟨dst, -, hstep⟩ := Option.bind_eq_some_iff.mp hstep
  dsimp only at hstep
  split at hstep
  · cases hstep
    exact h
  · split at hstep
    · obtain ⟨s, -, hstep⟩ := Option.bind_eq_some_iff.mp hstep
      cases hstep
      exact h.same (fun _ => rfl) rfl
    · split at hstep
      · obtain ⟨s, -, hstep⟩ := Option.bind_eq_some_iff.mp hstep
        obtain ⟨place, -, hstep⟩ := Option.bind_eq_some_iff.mp hstep
        cases hstep
        exact h.same (fun _ => rfl) rfl
      · cases hstep
        exact h

theorem waitMessage (h : st.Kept)
    (hstep : st.waitMessage callerPtr srcE m nonBlocking = some (e, st')) : st'.Kept := by
  unfold Ipc.waitMessage at hstep
  split at hstep
  · obtain ⟨s, -, hstep⟩ := Option.bind_eq_some_iff.mp hstep
    cases hstep
    exact h.same (fun _ => rfl) rfl
  · cases hstep
    exact h

theorem takeMessage (h : st.Kept)
    (hstep : st.takeMessage callerPtr srcE srcP m nonBlocking = some (e, st')) : st'.Kept := by
  unfold Ipc.takeMessage at hstep
  dsimp only at hstep
  obtain ⟨⟨place, z⟩, -, hstep⟩ := Option.bind_eq_some_iff.mp hstep
  cases z with
  | none => exact h.waitMessage hstep
  | some x =>
    obtain ⟨s, -, hstep⟩ := Option.bind_eq_some_iff.mp hstep
    cases hstep
    exact h.same (fun _ => rfl) rfl

theorem miniReceive (h : st.Kept)
    (hstep : st.miniReceive callerPtr srcE m nonBlocking = some (e, st')) : st'.Kept := by
  unfold Ipc.miniReceive at hstep
  dsimp only at hstep
  obtain ⟨dead, -, hstep⟩ := Option.bind_eq_some_iff.mp hstep
  split at hstep
  · cases hstep
    exact h
  · split at hstep
    · split at hstep
      · obtain ⟨st₁, hnotice, hstep⟩ := Option.bind_eq_some_iff.mp hstep
        cases hstep
        refine Kept.deliver ?_ hnotice
        exact h.same (fun _ => rfl) rfl
      · exact h.takeMessage hstep
    · exact h.waitMessage hstep

theorem sysCall {callNr : Nat} {pointerOk : Bool} (h : st.Kept)
    (hstep : st.sysCall callerPtr callNr srcE m pointerOk = some (e, st')) : st'.Kept := by
  rcases sysCall_cases hstep with rfl | ⟨function, nonBlocking, -, -, hperform, -⟩
  · exact h
  · have hreply : ∀ b, (st.setReplyPending callerPtr b).Kept := fun b => h.same (fun _ => rfl) rfl
    unfold perform at hperform
    cases function with
    | send => exact h.miniSend hperform
    | receive => exact (hreply false).miniReceive hperform
    | sendrec =>
      obtain ⟨⟨result, st₁⟩, hsend, hperform⟩ := Option.bind_eq_some_iff.mp hperform
      have h₁ := (hreply true).miniSend hsend
      dsimp only at hperform
      split at hperform
      · cases hperform
        exact h₁
      · exact h₁.miniReceive hperform
    | notify =>
      obtain ⟨d, -, hperform⟩ := Option.bind_eq_some_iff.mp hperform
      exact h.miniNotify hperform
    | echo =>
      cases hperform
      exact h.same (fun _ => rfl) rfl

theorem op {op : Op α} (h : st.Kept) (hstep : op.run st = some st') : st'.Kept := by
  cases op with
  | sysCall callerPtr callNr srcDstE m pointerOk =>
    obtain ⟨⟨e, st₁⟩, hrun, rfl⟩ := Option.map_eq_some_iff.mp hstep
    exact h.sysCall hrun
  | lockSend procPtr dstE m =>
    obtain ⟨⟨e, st₁⟩, hrun, rfl⟩ := Option.map_eq_some_iff.mp hstep
    exact h.miniSend hrun
  | lockNotify srcE dstE =>
    obtain ⟨⟨e, st₁⟩, hrun, rfl⟩ := Option.map_eq_some_iff.mp hstep
    exact h.lockNotify hrun
  | genericHandler procNrE notifyId =>
    rcases genericHandler_cases hstep with rfl | ⟨rp, e, -, hnotify⟩
    · exact h
    · exact (h.raise (Or.inl rfl)).lockNotify hnotify
  | sendSig procNr sigNr =>
    rcases sendSig_cases hstep with rfl | ⟨rp, e, -, -, hnotify⟩
    · exact h
    · exact (h.raise (Or.inr rfl)).lockNotify hnotify
  | clockHandler ticks timeout =>
    obtain ⟨s, procPtr, -, rfl | ⟨e, hnotify⟩⟩ := clockHandler_cases hstep
    · exact h.same (fun _ => rfl) rfl
    · refine Kept.lockNotify ?_ hnotify
      exact h.same (fun _ => rfl) rfl
  | doFork endpt slot =>
    obtain ⟨⟨e, st₁⟩, hrun, rfl⟩ := Option.map_eq_some_iff.mp hstep
    obtain ⟨-, hpending, hnotices, -⟩ := doFork_rest hrun
    exact h.same hpending hnotices
  | doExit whoP endpt =>
    obtain ⟨⟨e, st₁⟩, hrun, rfl⟩ := Option.map_eq_some_iff.mp hstep
    rcases doExit_cases hrun with rfl | ⟨rc, hclear, -⟩
    · exact h
    · unfold clearProc at hclear
      split at hclear
      · cases hclear
        exact h
      · obtain ⟨s, -, hclear⟩ := Option.bind_eq_some_iff.mp hclear
        cases hclear
        exact h.same (fun _ => rfl) rfl
  | kernel op =>
    obtain ⟨s, -, hstep⟩ := Option.bind_eq_some_iff.mp hstep
    cases hstep
    exact h.same (fun _ => rfl) rfl

end Kept

theorem Run.kept (h : Run (fun _ _ => True) st) : st.Kept := by
  induction h with
  | boot h =>
    obtain ⟨hpending, hnotices⟩ := boot_pending h
    refine ⟨fun src id _ => ?_, fun l₁ l₂ id src arg _ hl => ?_⟩
    · rw [hpending, hnotices]
      rfl
    · rw [hnotices] at hl
      cases l₁ <;> cases hl
  | step _ _ _ hstep ih => exact ih.op hstep

end Ipc

/--
**Signals and interrupts** are told once. In every run, whatever happens, what is pending for a
process is what has been set since it was last told, and whenever it was told, it was told just that.
-/
theorem signals_told {α : Type} {st : Ipc α} (h : Ipc.Run (fun _ _ => True) st) {src : Int}
    (hsrc : IsTask src) (id : PrivPtr) :
    st.pending src id = owed src id st.notices ∧
      ∀ l₁ l₂ arg, st.notices = l₁ ++ .told id src arg :: l₂ → arg = owed src id l₁ :=
  ⟨h.kept.pending src id hsrc, fun l₁ l₂ arg => h.kept.told l₁ l₂ id src arg hsrc⟩

theorem signals_told_interrupt : ∃ st : Ipc Nat,
    st.notices.length = 3 ∧ ∀ id, st.pending HARDWARE id = owed HARDWARE id st.notices := by
  have h : ((Ipc.boot Ipc.blank).bind (Ipc.execute Ipc.Op.Orderly interruptOps)).any fun st =>
      decide (st.notices.length = 3) := by
    decide +kernel
  obtain ⟨st, hst, hlength⟩ := (Option.any_eq_true _ _).mp h
  obtain ⟨st₀, hboot, hexec⟩ := Option.bind_eq_some_iff.mp hst
  have hrun := (Ipc.execute_run (.boot hboot) hexec).mono fun _ _ _ => trivial
  exact ⟨st, of_decide_eq_true hlength, fun id => (signals_told hrun (Or.inl rfl) id).1⟩

end Minix
