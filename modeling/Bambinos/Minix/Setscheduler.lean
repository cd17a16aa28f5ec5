import Bambinos.Minix.ProcessManager

/-!
# The policies in the kernel and in the process manager

* `Pm.Fades` — what the calls that set no policy do to the table of the process manager
* `Act.Does`, `Act.keeps` — the operations of the kernel that a call consists of, and what they keep
* `policy_bounds` — the policies are valid as long as only valid ones are asked for
* `unchecked_policy` — a policy that is not valid is stored
* `policies_differ` — the policies in the two tables are never the same
-/

namespace Minix

open Infra

variable {pm pm' : Pm} {n m child : MprocNr} {f : Mproc → Mproc} {σ σ' : System}
  {kernel : Kernel} {policy who e : Int}

/-! ## the table of the process manager -/

@[simp] theorem Pm.set_self : (pm.set n f).mproc n = f (pm.mproc n) := Function.update_self _ _ _

@[simp] theorem Pm.set_of_ne (h : m ≠ n) : (pm.set n f).mproc m = pm.mproc m :=
  Function.update_of_ne h _ _

/-- No policy changes, no process is new, and the process manager stays. -/
structure Pm.Fades (pm pm' : Pm) : Prop where
  policy : ∀ n, (pm'.mproc n).schedPolicy = (pm.mproc n).schedPolicy
  inUse : ∀ n, .inUse ∈ (pm'.mproc n).flags → .inUse ∈ (pm.mproc n).flags
  live : pm.Live pmNr → pm'.Live pmNr

namespace Pm

theorem Fades.refl (pm : Pm) : Fades pm pm := ⟨fun _ => rfl, fun _ => id, id⟩

theorem Fades.trans {pm'' : Pm} (h : Fades pm pm') (h' : Fades pm' pm'') : Fades pm pm'' where
  policy n := (h'.policy n).trans (h.policy n)
  inUse n := h.inUse n ∘ h'.inUse n
  live := h'.live ∘ h.live

theorem Fades.set (hpolicy : (f (pm.mproc n)).schedPolicy = (pm.mproc n).schedPolicy)
    (hinUse : .inUse ∈ (f (pm.mproc n)).flags → .inUse ∈ (pm.mproc n).flags)
    (hlive : n = pmNr → pm.Live n →
      .inUse ∈ (f (pm.mproc n)).flags ∧ .zombie ∉ (f (pm.mproc n)).flags) :
    Fades pm (pm.set n f) := by
  refine ⟨fun m => ?_, fun m => ?_, fun h => ?_⟩
  · by_cases hm : m = n
    · subst hm
      rw [set_self, hpolicy]
    · rw [set_of_ne hm]
  · by_cases hm : m = n
    · subst hm
      rwa [set_self]
    · rw [set_of_ne hm]
      exact id
  · unfold Live
    by_cases hm : pmNr = n
    · subst hm
      rw [set_self]
      exact hlive rfl h
    · rw [set_of_ne hm]
      exact h

/-- A change of the flags that are not looked at here. -/
theorem Fades.setFlags (hpolicy : (f (pm.mproc n)).schedPolicy = (pm.mproc n).schedPolicy)
    (hinUse : .inUse ∈ (f (pm.mproc n)).flags ↔ .inUse ∈ (pm.mproc n).flags)
    (hzombie : .zombie ∈ (f (pm.mproc n)).flags ↔ .zombie ∈ (pm.mproc n).flags) :
    Fades pm (pm.set n f) :=
  .set hpolicy hinUse.mp fun _ hlive => ⟨hinUse.mpr hlive.1, mt hzombie.mp hlive.2⟩

theorem setreply_fades : Fades pm (pm.setreply n) :=
  .setFlags rfl (by simp) (by simp)

theorem cleanup_fades (hchild : child ≠ pmNr) : Fades pm (pm.cleanup child) := by
  have hwaiting : ∀ {pm : Pm} {n : MprocNr},
      Fades pm (pm.set n fun r => { r with flags := r.flags.erase .waiting }) :=
    .setFlags rfl (by simp) (by simp)
  have hfree : ∀ {pm : Pm},
      Fades pm (pm.set child fun r => { r with pid := 0, flags := ∅ }) :=
    .set rfl (fun h => absurd h (Finset.notMem_empty _)) fun h => absurd h hchild
  have hreply : Fades pm (pm.setreply (pm.mproc child).parent) := setreply_fades
  obtain ⟨hpolicy, hinUse, hlive⟩ := (hreply.trans hwaiting).trans hfree
  exact ⟨hpolicy, hinUse, hlive⟩

theorem disinherit_fades (hpm : pm.Live pmNr) (r : MprocNr) : Fades pm (disinherit n pm r) := by
  have hset : Fades pm (pm.set r fun r => { r with parent := initNr }) :=
    .setFlags rfl Iff.rfl Iff.rfl
  unfold disinherit
  split
  · dsimp only
    split
    · next hzombie =>
      refine hset.trans (cleanup_fades ?_)
      rintro rfl
      exact (hset.live hpm).2 hzombie.2
    · exact hset
  · exact .refl pm

theorem bury_fades (hn : pm.Live n) (hne : n ≠ pmNr) : Fades pm (pm.bury n) := by
  unfold bury
  dsimp only
  split
  · exact cleanup_fades hne
  · exact .set rfl (fun _ => hn.1) fun h => absurd h hne

theorem disinherit_loop : ∀ (l : List MprocNr) {pm : Pm}, pm.Live pmNr →
    Fades pm (l.foldl (fun pm r => disinherit n pm r) pm)
  | [], _, _ => .refl _
  | r :: l, _, hpm =>
    (disinherit_fades hpm r).trans (disinherit_loop l ((disinherit_fades hpm r).live hpm))

theorem getFreePid_mproc {fuel : Nat} {pid : Int} (h : pm.getFreePid fuel = some (pid, pm')) :
    pm'.mproc = pm.mproc := by
  induction fuel generalizing pm with
  | zero => cases h
  | succ fuel ih =>
    unfold getFreePid at h
    dsimp only at h
    generalize (if pm.nextPid < NR_PIDS then pm.nextPid + 1 else INIT_PID + 1) = nextPid at h
    split at h
    · have hmproc := ih h
      exact hmproc
    · cases h
      rfl

theorem findChild_spec (h : pm.findChild = some n) : .inUse ∉ (pm.mproc n).flags := by
  have := List.find?_some h
  simpa using this

end Pm

/-! ## one call -/

/-- The slot of the child is free before, and gets the policy of the parent. -/
theorem fork_pm {memory mapped : Bool} {whoP : MprocNr}
    (hstep : σ.fork memory mapped whoP = some (e, σ')) :
    σ'.pm = σ.pm ∨ ∃ child, .inUse ∉ (σ.pm.mproc child).flags ∧
      (σ'.pm.mproc child).schedPolicy = (σ.pm.mproc whoP).schedPolicy ∧
      ∀ n ≠ child, σ'.pm.mproc n = σ.pm.mproc n := by
  unfold System.fork at hstep
  dsimp only at hstep
  split at hstep
  · cases hstep
    exact .inl rfl
  · split at hstep
    · cases hstep
      exact .inl rfl
    · obtain ⟨child, hchild, hstep⟩ := Option.bind_eq_some_iff.mp hstep
      obtain ⟨⟨pid, pm₁⟩, hpid, hstep⟩ := Option.bind_eq_some_iff.mp hstep
      obtain ⟨⟨r, kernel₁⟩, -, hstep⟩ := Option.bind_eq_some_iff.mp hstep
      dsimp only at hstep
      split at hstep
      · cases hstep
      · obtain ⟨⟨r', kernel₂⟩, -, hstep⟩ := Option.bind_eq_some_iff.mp hstep
        dsimp only at hstep
        split at hstep
        · cases hstep
        · cases hstep
          have hmproc := Pm.getFreePid_mproc hpid
          refine .inr ⟨child, Pm.findChild_spec hchild, ?_, fun n hn => ?_⟩
          · simp [Pm.setreply, hmproc]
          · simp [Pm.setreply, hn, hmproc]

theorem getsetscheduler_cases {set : Bool} {whoP : MprocNr}
    (hstep : σ.getsetscheduler set whoP policy who = some (e, σ')) :
    σ' = σ ∨ (set = true ∧ (σ.pm.mproc whoP).effuid = SUPER_USER ∧ ∃ n kernel,
      σ.pm.target whoP who = some n ∧
      doSetscheduler (σ.pm.mproc n).endpoint policy σ.kernel = some (e, kernel) ∧
      σ' = ⟨kernel, σ.pm.set n fun r => { r with schedPolicy := policy }⟩) := by
  unfold System.getsetscheduler at hstep
  split at hstep
  · cases hstep
    exact .inl rfl
  · next n hn =>
    dsimp only at hstep
    split at hstep
    · cases hstep
      exact .inl rfl
    · split at hstep
      · cases hstep
        exact .inl rfl
      · next hset =>
        split at hstep
        · cases hstep
          exact .inl rfl
        · next hroot =>
          obtain ⟨⟨r, kernel⟩, hkernel, hstep⟩ := Option.bind_eq_some_iff.mp hstep
          cases hstep
          exact .inr ⟨by simpa using hset, not_not.mp hroot, n, kernel, hn, hkernel, rfl⟩

theorem waitpid_fades {whoP : MprocNr} {pid : Int} {nohang : Bool} (hpm : σ.pm.Live pmNr) :
    Pm.Fades σ.pm (σ.waitpid whoP pid nohang).2.pm := by
  have hwaiting : ∀ pidarg, Pm.Fades σ.pm (σ.pm.set whoP fun r =>
      { r with flags := insert .waiting r.flags, wpid := pidarg }) := fun pidarg =>
    .setFlags rfl (by simp) (by simp)
  unfold System.waitpid
  dsimp only
  generalize (if pid = 0 then -(σ.pm.mproc whoP).procgrp else pid) = pidarg
  split
  · next n hn =>
    refine Pm.cleanup_fades ?_
    rintro rfl
    have hzombie := List.find?_some hn
    exact hpm.2 (of_decide_eq_true hzombie)
  · split
    · split
      · exact .refl _
      · exact hwaiting pidarg
    · exact .refl _

/-- What an act does to the table of the process manager. -/
theorem Act.pm_cases {act : Act} (hallowed : act.Allowed σ) (hpm : σ.pm.Live pmNr)
    (hstep : act.run σ = some σ') :
    σ.pm.Fades σ'.pm ∨
      (∃ whoP child, σ.pm.Live whoP ∧ .inUse ∉ (σ.pm.mproc child).flags ∧
        (σ'.pm.mproc child).schedPolicy = (σ.pm.mproc whoP).schedPolicy ∧
        ∀ n ≠ child, σ'.pm.mproc n = σ.pm.mproc n) ∨
      ∃ whoP policy who n, act = .getsetscheduler true whoP policy who ∧
        (σ.pm.mproc whoP).effuid = SUPER_USER ∧ σ.pm.target whoP who = some n ∧
        σ'.pm = σ.pm.set n fun r => { r with schedPolicy := policy } := by
  cases act with
  | kernel op =>
    obtain ⟨kernel, -, rfl⟩ := Option.map_eq_some_iff.mp hstep
    exact .inl (.refl _)
  | getsetscheduler set whoP policy who =>
    obtain ⟨⟨e, σ₁⟩, hrun, rfl⟩ := Option.map_eq_some_iff.mp hstep
    rcases getsetscheduler_cases hrun with rfl | ⟨rfl, hroot, n, kernel, hn, -, rfl⟩
    · exact .inl (.refl _)
    · exact .inr (.inr ⟨whoP, policy, who, n, rfl, hroot, hn, rfl⟩)
  | fork memory mapped whoP =>
    obtain ⟨⟨e, σ₁⟩, hrun, rfl⟩ := Option.map_eq_some_iff.mp hstep
    rcases fork_pm hrun with heq | ⟨child, hfork⟩
    · rw [heq]
      exact .inl (.refl _)
    · exact .inr (.inl ⟨whoP, child, hallowed.1, hfork⟩)
  | pmExit n =>
    obtain ⟨⟨r, kernel₁⟩, -, hstep⟩ := Option.bind_eq_some_iff.mp hstep
    obtain ⟨⟨r', kernel₂⟩, -, hstep⟩ := Option.bind_eq_some_iff.mp hstep
    dsimp only at hstep
    split at hstep
    · cases hstep
    · cases hstep
      have hreply : Pm.Fades σ.pm
          (σ.pm.set n fun r => { r with flags := r.flags.erase .reply }) :=
        .setFlags rfl (by simp) (by simp)
      have hn : (σ.pm.set n fun r => { r with flags := r.flags.erase .reply }).Live n := by
        obtain ⟨⟨hinUse, hzombie⟩, -⟩ := hallowed
        unfold Pm.Live
        simp [hinUse, hzombie]
      have hbury := hreply.trans (Pm.bury_fades hn hallowed.2)
      have hloop := Pm.disinherit_loop (n := n) (List.finRange NR_PROCS) (hbury.live hpm)
      left
      dsimp only
      exact hbury.trans hloop
  | waitpid whoP pid nohang =>
    cases hstep
    exact .inl (waitpid_fades hpm)
  | setuid whoP usrId =>
    cases hstep
    have hset : Pm.Fades σ.pm
        (σ.pm.set whoP fun r => { r with realuid := usrId, effuid := usrId }) :=
      .setFlags rfl Iff.rfl Iff.rfl
    unfold System.setuid
    dsimp only
    split
    · exact .inl (.refl _)
    · exact .inl hset

/-- The operations of the kernel that an act consists of, and the states in which it makes them. -/
inductive Act.Does (σ : System) : Act → Kernel → Op → Prop
  | kernel (op : Op) : Act.Does σ (.kernel op) σ.kernel op
  | setscheduler {whoP : MprocNr} {policy who : Int} {n : MprocNr}
      (hroot : (σ.pm.mproc whoP).effuid = SUPER_USER) (hn : σ.pm.target whoP who = some n) :
      Act.Does σ (.getsetscheduler true whoP policy who) σ.kernel
        (.doSetscheduler (σ.pm.mproc n).endpoint policy)
  | fork (memory mapped : Bool) (whoP child : MprocNr) :
      Act.Does σ (.fork memory mapped whoP) σ.kernel
        (.doFork (σ.pm.mproc whoP).endpoint child.val)
  | newmap (memory mapped : Bool) (whoP : MprocNr) (kernel : Kernel) (endpt : Int) :
      Act.Does σ (.fork memory mapped whoP) kernel (.doNewmap endpt mapped)
  | nice (n : MprocNr) :
      Act.Does σ (.pmExit n) σ.kernel (.doNice (σ.pm.mproc n).endpoint PRIO_STOP)
  | exit (n : MprocNr) (kernel : Kernel) :
      Act.Does σ (.pmExit n) kernel (.doExit PM_PROC_NR (σ.pm.mproc n).endpoint)

/-- What these operations keep, the act keeps. -/
theorem Act.keeps {P : Kernel → Prop} {act : Act} (h : P σ.kernel)
    (hop : ∀ op s s', act.Does σ s op → P s → op.run s = some s' → P s')
    (hstep : act.run σ = some σ') : P σ'.kernel := by
  cases act with
  | kernel op =>
    obtain ⟨kernel, hrun, rfl⟩ := Option.map_eq_some_iff.mp hstep
    exact hop _ _ _ (.kernel op) h hrun
  | getsetscheduler set whoP policy who =>
    obtain ⟨⟨e, σ₁⟩, hrun, rfl⟩ := Option.map_eq_some_iff.mp hstep
    rcases getsetscheduler_cases hrun with rfl | ⟨rfl, hroot, n, kernel, hn, hkernel, rfl⟩
    · exact h
    · exact hop _ _ _ (.setscheduler hroot hn) h (Option.map_eq_some_iff.mpr ⟨_, hkernel, rfl⟩)
  | fork memory mapped whoP =>
    obtain ⟨⟨e, σ₁⟩, hrun, rfl⟩ := Option.map_eq_some_iff.mp hstep
    unfold System.fork at hrun
    dsimp only at hrun
    split at hrun
    · cases hrun
      exact h
    · split at hrun
      · cases hrun
        exact h
      · obtain ⟨child, -, hrun⟩ := Option.bind_eq_some_iff.mp hrun
        obtain ⟨⟨pid, pm₁⟩, -, hrun⟩ := Option.bind_eq_some_iff.mp hrun
        obtain ⟨⟨r, kernel₁⟩, hfork, hrun⟩ := Option.bind_eq_some_iff.mp hrun
        dsimp only at hrun
        split at hrun
        · cases hrun
        · obtain ⟨⟨r', kernel₂⟩, hnewmap, hrun⟩ := Option.bind_eq_some_iff.mp hrun
          dsimp only at hrun
          split at hrun
          · cases hrun
          · cases hrun
            have h₁ : P kernel₁ := hop _ _ _ (.fork memory mapped whoP child) h
              (Option.map_eq_some_iff.mpr ⟨_, hfork, rfl⟩)
            exact hop _ _ _ (.newmap memory mapped whoP kernel₁ _) h₁
              (Option.map_eq_some_iff.mpr ⟨_, hnewmap, rfl⟩)
  | pmExit n =>
    obtain ⟨⟨r, kernel₁⟩, hnice, hstep⟩ := Option.bind_eq_some_iff.mp hstep
    obtain ⟨⟨r', kernel₂⟩, hexit, hstep⟩ := Option.bind_eq_some_iff.mp hstep
    dsimp only at hstep
    split at hstep
    · cases hstep
    · cases hstep
      have h₁ : P kernel₁ := hop _ _ _ (.nice n) h (Option.map_eq_some_iff.mpr ⟨_, hnice, rfl⟩)
      exact hop _ _ _ (.exit n kernel₁) h₁ (Option.map_eq_some_iff.mpr ⟨_, hexit, rfl⟩)
  | waitpid whoP pid nohang =>
    cases hstep
    unfold System.waitpid
    dsimp only
    generalize (if pid = 0 then -(σ.pm.mproc whoP).procgrp else pid) = pidarg
    split
    · exact h
    · split
      · split <;> exact h
      · exact h
  | setuid whoP usrId =>
    cases hstep
    unfold System.setuid
    dsimp only
    split <;> exact h

/-- What an act does to the processes in the table of the kernel. -/
theorem Act.everywhere {P : Proc → Prop} (hP : Kept P) {act : Act} (hallowed : act.Allowed σ)
    (h : Everywhere P σ.kernel)
    (hpolicy : ∀ whoP policy who n, act = .getsetscheduler true whoP policy who →
      (σ.pm.mproc whoP).effuid = SUPER_USER → σ.pm.target whoP who = some n →
      ∀ r, P r → P { r with scheduler := toChar policy })
    (hstep : act.run σ = some σ') : Everywhere P σ'.kernel := by
  refine Act.keeps (P := Everywhere P) h (fun op s s' hdoes hs hrun => ?_) hstep
  refine hs.op hP (fun endpt policy hop => ?_) hrun
  subst hop
  cases hdoes with
  | kernel => exact hallowed.elim
  | setscheduler hroot hn => exact hpolicy _ _ _ _ rfl hroot hn

/-! ## the bounds -/

/-- What a request of the super-user to set a policy has to do: a valid policy leaves all lists
within bounds, and for another one there is an error and nothing changes. -/
def RequestOk (σ : System) (whoP : MprocNr) (policy who : Int) : Prop :=
  (ValidPolicy policy → ∀ e σ', σ.getsetscheduler true whoP policy who = some (e, σ') →
    Everywhere Bounded σ'.kernel) ∧
  (¬ ValidPolicy policy → ∃ e < 0, σ.getsetscheduler true whoP policy who = some (e, σ))

/-- A valid policy, or a process that does not exist. -/
def GoodRequest (σ : System) (whoP : MprocNr) (policy who : Int) : Prop :=
  ValidPolicy policy ∨ σ.pm.target whoP who = none

/-- All requests of the super-user to set a policy are good. -/
def Act.Good (σ : System) : Act → Prop
  | .getsetscheduler true whoP policy who =>
    (σ.pm.mproc whoP).effuid = SUPER_USER → GoodRequest σ whoP policy who
  | _ => True

instance (σ : System) (act : Act) : Decidable (act.Good σ) := by
  unfold Act.Good GoodRequest
  split <;> infer_instance

/-- The policies in both tables are valid. -/
structure PoliciesValid (σ : System) : Prop where
  kernel : Everywhere Bounded σ.kernel
  pm : ∀ n, ValidPolicy (σ.pm.mproc n).schedPolicy
  live : σ.pm.Live pmNr

theorem boot_kernel (h : System.boot = some σ) : boot = some σ.kernel := by
  unfold System.boot at h
  obtain ⟨kernel, hboot, h⟩ := Option.bind_eq_some_iff.mp h
  obtain ⟨pm, -, h⟩ := Option.bind_eq_some_iff.mp h
  cases h
  exact hboot

theorem boot_pm (h : System.boot = some σ) : σ.pm.Live pmNr ∧
    ∀ n, ValidPolicy (σ.pm.mproc n).schedPolicy ∧
      (.inUse ∈ (σ.pm.mproc n).flags → (σ.pm.mproc n).schedPolicy = SCHED_OTHER) := by
  have hall : System.boot.all fun σ => σ.pm.Live pmNr ∧
      ∀ n, ValidPolicy (σ.pm.mproc n).schedPolicy ∧
        (.inUse ∈ (σ.pm.mproc n).flags → (σ.pm.mproc n).schedPolicy = SCHED_OTHER) := by
    decide +kernel
  rw [h] at hall
  exact of_decide_eq_true hall

theorem boot_valid (h : System.boot = some σ) : PoliciesValid σ where
  kernel := boot_bounded (boot_kernel h)
  pm n := ((boot_pm h).2 n).1
  live := (boot_pm h).1

theorem PoliciesValid.act {act : Act} (h : PoliciesValid σ) (hallowed : act.Allowed σ)
    (hgood : act.Good σ) (hstep : act.run σ = some σ') : PoliciesValid σ' := by
  have hrequest : ∀ whoP policy who n, act = .getsetscheduler true whoP policy who →
      (σ.pm.mproc whoP).effuid = SUPER_USER → σ.pm.target whoP who = some n →
      ValidPolicy policy := by
    rintro whoP policy who n rfl hroot hn
    refine (hgood hroot).resolve_right fun hnone => ?_
    rw [hn] at hnone
    cases hnone
  have hkernel : Everywhere Bounded σ'.kernel :=
    Act.everywhere bounded_closed.kept hallowed h.kernel
      (fun whoP policy who n hact hroot hn r hr =>
        hr.policy (hrequest whoP policy who n hact hroot hn)) hstep
  rcases Act.pm_cases hallowed h.live hstep with hfades | ⟨whoP, child, -, hfree, hchild, hother⟩ |
    ⟨whoP, policy, who, n, hact, hroot, hn, hpm⟩
  · refine ⟨hkernel, fun m => ?_, hfades.live h.live⟩
    rw [hfades.policy]
    exact h.pm m
  · refine ⟨hkernel, fun m => ?_, ?_⟩
    · by_cases hm : m = child
      · subst hm
        rw [hchild]
        exact h.pm whoP
      · rw [hother m hm]
        exact h.pm m
    · have hne : pmNr ≠ child := by
        rintro rfl
        exact hfree h.live.1
      unfold Pm.Live
      rw [hother pmNr hne]
      exact h.live
  · have hset : σ.pm.Live pmNr → σ'.pm.Live pmNr := by
      intro hlive
      rw [hpm]
      unfold Pm.Live
      by_cases hm : pmNr = n
      · subst hm
        rw [Pm.set_self]
        exact hlive
      · rw [Pm.set_of_ne hm]
        exact hlive
    refine ⟨hkernel, fun m => ?_, hset h.live⟩
    rw [hpm]
    by_cases hm : m = n
    · subst hm
      rw [Pm.set_self]
      exact hrequest whoP policy who m hact hroot hn
    · rw [Pm.set_of_ne hm]
      exact h.pm m

theorem System.Reached.valid (h : System.Reached (fun σ act => act.Good σ) σ) : PoliciesValid σ := by
  induction h with
  | boot h => exact boot_valid h
  | step _ hallowed hgood hstep ih => exact ih.act hallowed hgood hstep

/-- A request is dealt with as it has to be exactly if it is good. -/
theorem PoliciesValid.requestOk_iff {whoP : MprocNr} (h : PoliciesValid σ)
    (hroot : (σ.pm.mproc whoP).effuid = SUPER_USER) :
    RequestOk σ whoP policy who ↔ GoodRequest σ whoP policy who := by
  constructor
  · rintro ⟨-, hinvalid⟩
    by_contra hbad
    obtain ⟨hpolicy, htarget⟩ := not_or.mp hbad
    obtain ⟨e, -, hstep⟩ := hinvalid hpolicy
    obtain ⟨n, hn⟩ := Option.ne_none_iff_exists'.mp htarget
    unfold System.getsetscheduler at hstep
    rw [hn] at hstep
    simp only [hroot, ne_eq, not_true_eq_false, false_and, if_false, Bool.not_true,
      Bool.false_eq_true] at hstep
    obtain ⟨⟨r, kernel⟩, -, hstep⟩ := Option.bind_eq_some_iff.mp hstep
    -- the policy is in the table of the process manager, where it was not before
    have hpm := congrArg (fun σ => (System.pm σ).mproc n)
      (Prod.mk.inj (Option.some.inj hstep)).2
    dsimp only at hpm
    rw [Pm.set_self] at hpm
    have hstored := h.pm n
    rw [← hpm] at hstored
    exact hpolicy hstored
  · intro hgood
    refine ⟨fun hpolicy e σ' hstep => ?_, fun hpolicy => ?_⟩
    · rcases getsetscheduler_cases hstep with rfl | ⟨-, -, n, kernel, -, hkernel, rfl⟩
      · exact h.kernel
      · exact h.kernel.doSetscheduler bounded_closed.kept (fun r hr => hr.policy hpolicy) hkernel
    · have hnone := hgood.resolve_left hpolicy
      refine ⟨ESRCH, by decide, ?_⟩
      unfold System.getsetscheduler
      rw [hnone]

/--
**The bounds of the policies.** As long as the super-user sets only valid policies, the lists that
`dequeue` and `enqueue` take for a process exist in every state; and a request is dealt with as it has
to be exactly if its policy is valid or its process does not exist.
-/
theorem policy_bounds (h : System.Reached (fun σ act => act.Good σ) σ) :
    (∀ r, ValidPolicy (σ.kernel.proc r).scheduler ∧ InRange (σ.kernel.queueOf r) ∧
      InRange (sched (σ.kernel.proc r)).2.1) ∧
    ∀ whoP policy who, (σ.pm.mproc whoP).effuid = SUPER_USER →
      (RequestOk σ whoP policy who ↔ GoodRequest σ whoP policy who) := by
  have hvalid := h.valid
  refine ⟨fun r => ?_, fun whoP policy who hroot => hvalid.requestOk_iff hroot⟩
  exact ⟨(hvalid.kernel r).2.2, (hvalid.kernel r).2, (hvalid.kernel r).sched⟩

/-! ## computing a run -/

/-- The state behind what is given, if all of it meets the condition and has a next state. -/
def System.execute (cond : System → Act → Prop) [∀ σ act, Decidable (cond σ act)] :
    List Act → System → Option System
  | [], σ => some σ
  | act :: acts, σ =>
    if act.Allowed σ ∧ cond σ act then (act.run σ).bind (System.execute cond acts) else none

theorem System.execute_reached {cond : System → Act → Prop} [∀ σ act, Decidable (cond σ act)] :
    ∀ {acts : List Act} {σ σ' : System}, System.Reached cond σ → System.execute cond acts σ = some σ' →
      System.Reached cond σ'
  | [], σ, σ', h, hrun => by
    cases hrun
    exact h
  | act :: acts, σ, σ', h, hrun => by
    unfold System.execute at hrun
    split at hrun
    · next hcond =>
      obtain ⟨σ₁, hstep, hrun⟩ := Option.bind_eq_some_iff.mp hrun
      exact System.execute_reached (.step h hcond.1 hcond.2 hstep) hrun
    · cases hrun

/-- `init` calls the process manager and waits for the answer. -/
def callPm : List Act :=
  [.kernel (.sysCall initProc .sendrec PM_PROC_NR false),
   .kernel (.sysCall pmProc .receive ANY false)]

/-- `init` sets its policy to `SCHED_RR`. -/
theorem policy_bounds_init : ∃ σ₀ σ, System.boot = some σ₀ ∧
    System.execute (fun σ act => act.Good σ)
      (callPm ++ [.getsetscheduler true initNr SCHED_RR 0]) σ₀ = some σ ∧
    (∀ r, ValidPolicy (σ.kernel.proc r).scheduler ∧ InRange (σ.kernel.queueOf r) ∧
      InRange (sched (σ.kernel.proc r)).2.1) ∧
    ∀ whoP policy who, (σ.pm.mproc whoP).effuid = SUPER_USER →
      (RequestOk σ whoP policy who ↔ GoodRequest σ whoP policy who) := by
  have h : (System.boot.bind (System.execute (fun σ act => act.Good σ)
      (callPm ++ [.getsetscheduler true initNr SCHED_RR 0]))).isSome := by
    decide +kernel
  obtain ⟨σ, hσ⟩ := Option.isSome_iff_exists.mp h
  obtain ⟨σ₀, hboot, hexec⟩ := Option.bind_eq_some_iff.mp hσ
  exact ⟨σ₀, σ, hboot, hexec, policy_bounds (System.execute_reached (.boot hboot) hexec)⟩

/--
**The defect.** `init` asks for the policy 3. The answer is no error, both tables get the policy, and
there is no list for `init` when the process manager answers.
-/
theorem unchecked_policy : ∃ σ σ', System.Reached (fun _ _ => True) σ ∧
    (σ.pm.mproc initNr).effuid = SUPER_USER ∧
    σ.getsetscheduler true initNr 3 0 = some (3, σ') ∧
    System.Reached (fun _ _ => True) σ' ∧
    ¬ ValidPolicy (σ'.kernel.proc initProc).scheduler ∧
    ¬ ValidPolicy (σ'.pm.mproc initNr).schedPolicy ∧
    (Op.sysCall pmProc .send INIT_PROC_NR false).run σ'.kernel = none := by
  have h : (System.boot.bind (System.execute (fun _ _ => True) callPm)).any fun σ =>
      (σ.getsetscheduler true initNr 3 0).any fun result =>
        (σ.pm.mproc initNr).effuid = SUPER_USER ∧
        (Act.getsetscheduler true initNr 3 0).Allowed σ ∧
        result.1 = 3 ∧
        ¬ ValidPolicy (result.2.kernel.proc initProc).scheduler ∧
        ¬ ValidPolicy (result.2.pm.mproc initNr).schedPolicy ∧
        ((Op.sysCall pmProc .send INIT_PROC_NR false).run result.2.kernel).isNone := by
    decide +kernel
  obtain ⟨σ, hσ, h⟩ := (Option.any_eq_true _ _).mp h
  obtain ⟨σ₀, hboot, hexec⟩ := Option.bind_eq_some_iff.mp hσ
  obtain ⟨⟨e, σ'⟩, hstep, h⟩ := (Option.any_eq_true _ _).mp h
  obtain ⟨hroot, hallowed, rfl, hkernel, hpm, hreply⟩ := of_decide_eq_true h
  have hreached := System.execute_reached (.boot hboot) hexec
  refine ⟨σ, σ', hreached, hroot, hstep, ?_, hkernel, hpm, Option.isNone_iff_eq_none.mp hreply⟩
  refine .step hreached hallowed trivial ?_
  show (σ.getsetscheduler true initNr 3 0).map Prod.snd = some σ'
  rw [hstep]
  rfl

/-! ## the two tables -/

/-- What `GETSCHEDULER` reports for a process is what the kernel uses for it. -/
def Agree (σ : System) : Prop :=
  ∀ n, .inUse ∈ (σ.pm.mproc n).flags →
    (σ.pm.mproc n).schedPolicy = (σ.kernel.proc (procOf n)).scheduler

/-- No policy is set. -/
def Act.SetsNone : Act → Prop
  | .getsetscheduler true _ _ _ => False
  | _ => True

instance (act : Act) : Decidable act.SetsNone := by
  unfold Act.SetsNone
  split <;> infer_instance

/-- The policies as `pm_init` and `main` leave them. -/
structure Initial (σ : System) : Prop where
  kernel : Everywhere (fun r => r.scheduler = SCHED_FIFO) σ.kernel
  pm : ∀ n, .inUse ∈ (σ.pm.mproc n).flags → (σ.pm.mproc n).schedPolicy = SCHED_OTHER
  live : σ.pm.Live pmNr

theorem Initial.act {act : Act} (h : Initial σ) (hallowed : act.Allowed σ) (hnone : act.SetsNone)
    (hstep : act.run σ = some σ') : Initial σ' := by
  have hkernel := Act.everywhere fifo_closed.kept hallowed h.kernel
    (fun whoP policy who n hact => by subst hact; exact hnone.elim) hstep
  rcases Act.pm_cases hallowed h.live hstep with hfades | ⟨whoP, child, hlive, hfree, hchild, hother⟩ |
    ⟨whoP, policy, who, n, rfl, -⟩
  · refine ⟨hkernel, fun m hm => ?_, hfades.live h.live⟩
    rw [hfades.policy]
    exact h.pm m (hfades.inUse m hm)
  · refine ⟨hkernel, fun m hm => ?_, ?_⟩
    · by_cases he : m = child
      · subst he
        rw [hchild]
        exact h.pm whoP hlive.1
      · rw [hother m he] at hm ⊢
        exact h.pm m hm
    · have hne : pmNr ≠ child := by
        rintro rfl
        exact hfree h.live.1
      unfold Pm.Live
      rw [hother pmNr hne]
      exact h.live
  · exact hnone.elim

theorem System.Reached.initial (h : System.Reached (fun _ act => act.SetsNone) σ) : Initial σ := by
  induction h with
  | boot h =>
    exact ⟨boot_fifo (boot_kernel h), fun n => ((boot_pm h).2 n).2, (boot_pm h).1⟩
  | step _ hallowed hnone hstep ih => exact ih.act hallowed hnone hstep

/--
**The two tables.** In no state that is reached without setting a policy do they agree: the process
manager reports `SCHED_OTHER` for every process, and the kernel uses `SCHED_FIFO` for it.
-/
theorem policies_differ (h : System.Reached (fun _ act => act.SetsNone) σ) :
    ¬ Agree σ ∧ ∀ n, .inUse ∈ (σ.pm.mproc n).flags →
      (σ.pm.mproc n).schedPolicy = SCHED_OTHER ∧
        (σ.kernel.proc (procOf n)).scheduler = SCHED_FIFO := by
  have hinitial := h.initial
  have hboth := fun n hn => And.intro (hinitial.pm n hn) (hinitial.kernel (procOf n))
  refine ⟨fun hagree => ?_, hboth⟩
  have heq := hagree pmNr hinitial.live.1
  rw [(hboth pmNr hinitial.live.1).1, (hboth pmNr hinitial.live.1).2] at heq
  exact absurd heq (by decide)

/-- `init` forks, and a signal kills its child. -/
theorem policies_differ_fork : ∃ σ₀ σ, System.boot = some σ₀ ∧
    System.execute (fun _ act => act.SetsNone) (callPm ++ [.fork true true initNr, .pmExit 8]) σ₀ =
      some σ ∧
    ¬ Agree σ ∧ ∀ n, .inUse ∈ (σ.pm.mproc n).flags →
      (σ.pm.mproc n).schedPolicy = SCHED_OTHER ∧
        (σ.kernel.proc (procOf n)).scheduler = SCHED_FIFO := by
  have h : (System.boot.bind (System.execute (fun _ act => act.SetsNone)
      (callPm ++ [.fork true true initNr, .pmExit 8]))).isSome := by
    decide +kernel
  obtain ⟨σ, hσ⟩ := Option.isSome_iff_exists.mp h
  obtain ⟨σ₀, hboot, hexec⟩ := Option.bind_eq_some_iff.mp hσ
  exact ⟨σ₀, σ, hboot, hexec, policies_differ (System.execute_reached (.boot hboot) hexec)⟩

/-- **The defect.** They do not agree on `init` behind the start. -/
theorem boot_disagrees : ∃ σ, System.boot = some σ ∧ .inUse ∈ (σ.pm.mproc initNr).flags ∧
    (σ.pm.mproc initNr).schedPolicy ≠ (σ.kernel.proc (procOf initNr)).scheduler := by
  have h : System.boot.any fun σ => .inUse ∈ (σ.pm.mproc initNr).flags ∧
      (σ.pm.mproc initNr).schedPolicy ≠ (σ.kernel.proc (procOf initNr)).scheduler := by
    decide +kernel
  obtain ⟨σ, hσ, h⟩ := (Option.any_eq_true _ _).mp h
  exact ⟨σ, hσ, of_decide_eq_true h⟩

end Minix
