import Bambinos.Minix.Handover

/-!
# Processes come and go

* `Talks.child` — `do_fork`: the child waits for whom its parent waits for
* `alertedFlags`, `alert_spec` — whoever waits for a process that is gone goes on
* `Talks.clearProc` — `clear_proc`: the process leaves its queue, and its own queue is given up
-/

namespace Minix

open Infra

variable {s s' s₁ : Kernel} {M : Type} {n : Exchange ProcPtr M} {rp rpp rpc rc p x : ProcPtr} {m : M}

/-! ## `do_fork` -/

theorem childOf_mem {slot : Int} {flag : RtsFlag}
    (hflag : flag = .slotFree ∨ flag = .sending ∨ flag = .receiving) :
    flag ∈ (childOf s rpp rpc slot).rtsFlags ↔ flag ∈ (s.proc rpp).rtsFlags := by
  unfold childOf
  dsimp only
  split <;> rcases hflag with rfl | rfl | rfl <;> simp

/-- A free slot becomes a copy of a process that sends to nobody and has no queue. -/
theorem Talks.child (h : Talks s n) (hok : n.Ok) (hrpp : n.live rpp) (hfree : ¬ n.live rpc)
    (hsends : n.sends rpp = none) (hqueue : (s.proc rpp).callerQ = none) :
    Talks (s.setProc rpc fun _ => childOf s rpp rpc (rpc.val - NR_TASKS)) (n.copy rpp rpc) := by
  set s' := s.setProc rpc fun _ => childOf s rpp rpc (rpc.val - NR_TASKS) with hs'
  have hself : s'.proc rpc = childOf s rpp rpc (rpc.val - NR_TASKS) := Kernel.setProc_self
  have helse : ∀ {y}, y ≠ rpc → s'.proc y = s.proc y := fun hy => Kernel.setProc_of_ne hy
  have hendpoint : ∀ {y}, n.live y → (s'.proc y).endpoint = (s.proc y).endpoint := by
    intro y hy
    rw [helse (by rintro rfl; exact hfree hy)]
  have hsource : ∀ {e : Int} {src : Option ProcPtr}, Source s e src →
      (∀ y, src = some y → n.live y) → Source s' e src := by
    intro e src hsrc hlive
    cases hsrc with
    | any he => exact .any he
    | of y he => exact .of y (by rw [he, hendpoint (hlive y rfl)])
  have hlive' : ∀ {y}, n.live y → y ≠ rpc := by
    rintro y hy rfl
    exact hfree hy
  refine ⟨fun y hy => ?_, fun y => ?_, fun y hy => ?_, fun y hy => ?_, ?_⟩
  · rcases eq_or_ne y rpc with rfl | hne
    · rw [hself, childOf_mem (by simp)] at hy
      exact absurd hy ((h.live rpp).mp hrpp)
    · rw [helse hne] at hy ⊢
      exact h.tidy y hy
  · rcases eq_or_ne y rpc with rfl | hne
    · rw [hself, childOf_mem (by simp)]
      exact ⟨fun _ => (h.live rpp).mp hrpp, fun _ => Or.inr rfl⟩
    · rw [helse hne, ← h.live]
      exact ⟨fun hy => hy.resolve_right hne, Or.inl⟩
  · rcases eq_or_ne y rpc with rfl | hne
    · have hnone : (n.copy rpp y).sends y = none := by simp [Exchange.copy, hsends]
      rw [hnone]
      refine .no ?_
      rw [hself, childOf_mem (by simp), ← h.sends_eq_none_iff hrpp]
      exact hsends
    · have hy' : n.live y := hy.resolve_right hne
      have hsame : (n.copy rpp rpc).sends y = n.sends y := by simp [Exchange.copy, hne]
      rw [hsame]
      generalize ho : n.sends y = o
      have hold := h.sends y hy'
      rw [ho] at hold
      cases hold with
      | no hnot => exact .no (by rwa [helse hne])
      | dst d hflag hd =>
        refine .dst d (by rwa [helse hne]) ?_
        rw [hendpoint (hok.sender y d ho).2, helse hne, hd]
  · rcases eq_or_ne y rpc with rfl | hne
    · have hsame : (n.copy rpp y).hears y = n.hears rpp := by simp [Exchange.copy]
      rw [hsame]
      generalize ho : n.hears rpp = o
      have hold := h.hears rpp hrpp
      rw [ho] at hold
      cases hold with
      | no hnot => exact .no (by rwa [hself, childOf_mem (by simp)])
      | of src hflag hsrc =>
        refine .of src (by rwa [hself, childOf_mem (by simp)]) ?_
        rw [show (s'.proc y).getfromE = (s.proc rpp).getfromE by rw [hself]; rfl]
        exact hsource hsrc fun z hz => hok.source rpp z (hz ▸ ho)
    · have hy' : n.live y := hy.resolve_right hne
      have hsame : (n.copy rpp rpc).hears y = n.hears y := by simp [Exchange.copy, hne]
      rw [hsame]
      generalize ho : n.hears y = o
      have hold := h.hears y hy'
      rw [ho] at hold
      cases hold with
      | no hnot => exact .no (by rwa [helse hne])
      | of src hflag hsrc =>
        refine .of src (by rwa [helse hne]) ?_
        rw [helse hne]
        exact hsource hsrc fun z hz => hok.source y z (hz ▸ ho)
  · have hmem : ∀ {y z}, z ∈ (n.queue y).map Prod.fst → n.live z := by
      intro y z hz
      rw [← hok.queued] at hz
      exact (hok.sender z y hz).1
    refine ⟨fun y hy => ?_, fun y hy z hz => ?_⟩
    · rcases eq_or_ne y rpc with rfl | hne
      · have hempty : (n.copy rpp y).queue y = [] := by simp [Exchange.copy]
        rw [hself, hempty, show (childOf s rpp y (y.val - NR_TASKS)).callerQ = none from hqueue]
        exact .nil
      · have hsame : (n.copy rpp rpc).queue y = n.queue y := by simp [Exchange.copy, hne]
        rw [hsame, helse hne]
        refine (h.queued.chain y (hy.resolve_right hne)).congr fun z hz => ?_
        rw [helse (hlive' (hmem hz))]
    · rcases eq_or_ne y rpc with rfl | hne
      · simp [Exchange.copy] at hz
      · have hsame : (n.copy rpp rpc).queue y = n.queue y := by simp [Exchange.copy, hne]
        rw [hsame] at hz
        have hy' := hy.resolve_right hne
        rw [hendpoint hy', helse (hlive' (hmem hz))]
        exact h.queued.sendto y hy' z hz

theorem doFork_cases {endpt slot e : Int} (h : doFork endpt slot s = some (e, s')) :
    s' = s ∧ e ≠ OK ∨ ∃ rpp rpc, isokendpt s endpt = some rpp ∧ procAddr slot = some rpc ∧
      ¬ Alive s rpc ∧ e = OK ∧
      s' = (s.setProc rpc fun _ => childOf s rpp rpc (rpc.val - NR_TASKS)).setProc rpp fun r =>
        { r with ticksLeft := toChar (r.ticksLeft.tdiv 2) } := by
  unfold doFork at h
  split at h
  · cases h
    exact Or.inl ⟨rfl, by decide⟩
  · next rpp hrpp =>
    obtain ⟨rpc, hslot, h⟩ := Option.bind_eq_some_iff.mp h
    split at h
    · cases h
      exact Or.inl ⟨rfl, by decide⟩
    · next hcheck =>
      cases h
      obtain rfl := procAddr_eq_some hslot
      refine Or.inr ⟨rpp, rpc, hrpp, hslot, ?_, rfl, rfl⟩
      rw [← isempty_iff]
      simpa using fun hempty => hcheck (Or.inr hempty)

/-! ## `clear_endpoint` -/

theorem Queued.of_eq {A : ProcPtr → Prop} {C C' : ProcPtr → List ProcPtr} (h : Queued s A C)
    (hC : ∀ y, A y → C' y = C y) : Queued s A C' where
  chain y hy := by
    rw [hC y hy]
    exact h.chain y hy
  sendto y hy x hx := by
    rw [hC y hy] at hx
    exact h.sendto y hy x hx

/-- The flags of a process that has been told that `rc` is gone. -/
def alertedFlags (s : Kernel) (rc rp : ProcPtr) : Finset RtsFlag :=
  let r := s.proc rp
  let e := (s.proc rc).endpoint
  let flags := if r.getfromE = e then r.rtsFlags.erase .receiving else r.rtsFlags
  if r.sendtoE = e then flags.erase .sending else flags

/-- A field that neither the flags nor the queues are part of. -/
def Apart {β : Type} (g : Proc → β) : Prop := ∀ r f n t y c q, g { r with
  rtsFlags := f, nextready := n, ticksLeft := t, priority := y, callerQ := c, qLink := q } = g r

/-- No privileges change, but that notifications of one process are dropped. -/
structure Drops (s : Kernel) (id : PrivPtr) (s' : Kernel) : Prop where
  flags : ∀ k, (s'.priv k).flags = (s.priv k).flags
  procNr : ∀ k, (s'.priv k).procNr = (s.priv k).procNr
  fewer : ∀ k, (s'.priv k).notifyPending ⊆ (s.priv k).notifyPending
  others : ∀ k, ∀ src ∈ (s.priv k).notifyPending, src ≠ id → src ∈ (s'.priv k).notifyPending

theorem Drops.of_eq {id : PrivPtr} (h : s'.priv = s.priv) : Drops s id s' := by
  constructor <;> intro k <;> rw [h]
  exact fun _ hsrc _ => hsrc

theorem Drops.trans {id : PrivPtr} (h : Drops s id s₁) (h' : Drops s₁ id s') : Drops s id s' where
  flags k := (h'.flags k).trans (h.flags k)
  procNr k := (h'.procNr k).trans (h.procNr k)
  fewer k := (h'.fewer k).trans (h.fewer k)
  others k src hsrc hne := h'.others k src (h.others k src hsrc hne) hne

/-- The processes of `l` have been told. -/
structure Alerted (s : Kernel) (rc : ProcPtr) (l : List ProcPtr) (s' : Kernel) : Prop where
  runnable : Runnable s'
  quiet : Quiet s s'
  field : ∀ {β : Type} {g : Proc → β}, Apart g → ∀ r, g (s'.proc r) = g (s.proc r)
  flags : ∀ r, (s'.proc r).rtsFlags =
    if r ∈ l then alertedFlags s rc r else (s.proc r).rtsFlags
  drops : Drops s (s.proc rc).priv s'

theorem unset_apart {flag : RtsFlag} {β : Type} {g : Proc → β} (hg : Apart g)
    (h : unset flag rp s = some s') (r : ProcPtr) : g (s'.proc r) = g (s.proc r) :=
  unset_field (g := g) (fun r f n t y => hg r f n t y r.callerQ r.qLink) h r

theorem block_apart {flag : RtsFlag} {β : Type} {g : Proc → β} (hg : Apart g)
    (h : block flag rp s = some s') (r : ProcPtr) : g (s'.proc r) = g (s.proc r) :=
  block_field (g := g) (fun r f n t y => hg r f n t y r.callerQ r.qLink) h r

theorem setFlags_apart {β : Type} {g : Proc → β} {f : Proc → Finset RtsFlag} (hg : Apart g)
    (r : ProcPtr) : g ((s.setProc rp fun r => { r with rtsFlags := f r }).proc r) = g (s.proc r) :=
  Kernel.setProc_field (g := g) (hg (s.proc rp) _ (s.proc rp).nextready (s.proc rp).ticksLeft
    (s.proc rp).priority (s.proc rp).callerQ (s.proc rp).qLink) r

theorem Moves.apart {β : Type} {g : Proc → β} (hg : Apart g) (h : Moves s s') (r : ProcPtr) :
    g (s'.proc r) = g (s.proc r) :=
  h.field (g := g) (fun r n t y => hg r r.rtsFlags n t y r.callerQ r.qLink) r

theorem unset_priv {flag : RtsFlag} (h : unset flag rp s = some s') : s'.priv = s.priv :=
  (enqueueReady_moves h).priv

theorem block_priv {flag : RtsFlag} (h : block flag rp s = some s') : s'.priv = s.priv := by
  unfold block at h
  obtain ⟨s₁, hoff, h⟩ := Option.bind_eq_some_iff.mp h
  cases h
  exact (dequeueReady_moves hoff).priv

theorem setCallerLink_priv {d : ProcPtr} {place x : Option ProcPtr} :
    (s.setCallerLink d place x).priv = s.priv := by
  unfold Kernel.setCallerLink
  cases place <;> rfl

theorem unset_if_spec {flag : RtsFlag} {c : Prop} [Decidable c] (h : Runnable s)
    (hstep : (if flag ∈ (s.proc rp).rtsFlags ∧ c then unset flag rp s else some s) = some s') :
    Runnable s' ∧ Quiet s s' ∧
      (∀ {β : Type} {g : Proc → β}, Apart g → ∀ r, g (s'.proc r) = g (s.proc r)) ∧
      FlagsOf s s' rp (if c then (s.proc rp).rtsFlags.erase flag else (s.proc rp).rtsFlags) ∧
      s'.priv = s.priv := by
  split at hstep
  · next hc =>
    obtain ⟨hrun, hq, hflags⟩ := unset_spec h hc.1 hstep
    rw [if_pos hc.2]
    exact ⟨hrun, hq, fun hg => unset_apart hg hstep, hflags, unset_priv hstep⟩
  · next hc =>
    cases hstep
    refine ⟨h, Quiet.refl s, fun _ _ => rfl, ⟨?_, fun _ _ => rfl⟩, rfl⟩
    split
    · next hyes => rw [Finset.erase_eq_of_notMem fun hmem => hc ⟨hmem, hyes⟩]
    · rfl

theorem alertProcess_spec (h : Runnable s) (hstep : alertProcess rc rp s = some s') :
    Alerted s rc [rp] s' := by
  unfold alertProcess at hstep
  split at hstep
  · next hempty =>
    cases hstep
    refine ⟨h, Quiet.refl s, fun _ _ => rfl, fun r => ?_, .of_eq rfl⟩
    split
    · next hr =>
      rw [List.mem_singleton.mp hr]
      have hfree : (s.proc rp).rtsFlags = {.slotFree} := of_decide_eq_true hempty
      unfold alertedFlags
      dsimp only
      rw [hfree]
      split <;> split <;> decide
    · rfl
  · obtain ⟨s₁, hreceiving, hsending⟩ := Option.bind_eq_some_iff.mp hstep
    generalize hs₀ : (s.setPriv (s.proc rp).priv fun p =>
      { p with notifyPending := p.notifyPending.erase (s.proc rc).priv }) = s₀ at hreceiving
    have hproc₀ : s₀.proc = s.proc := by
      rw [← hs₀]
      rfl
    have h₀ : Runnable s₀ := by
      have hready : Ready s₀ fun r => (s.proc r).rtsFlags = ∅ := by
        refine Ready.of_eq h hproc₀ ?_ ?_ <;> rw [← hs₀] <;> rfl
      unfold Runnable
      rw [hproc₀]
      exact hready
    have hdrops : Drops s (s.proc rc).priv s₀ := by
      rw [← hs₀]
      unfold Kernel.setPriv
      constructor
      all_goals
        intro k
        rcases eq_or_ne k (s.proc rp).priv with rfl | hk
      all_goals simp_all [Finset.erase_subset]
    obtain ⟨hrun₁, hq₁, hfield₁, hflags₁, hpriv₁⟩ := unset_if_spec h₀ hreceiving
    obtain ⟨hrun, hq, hfield, hflags, hpriv⟩ := unset_if_spec hrun₁ hsending
    refine ⟨hrun, ((Quiet.of_proc_eq hproc₀).trans hq₁).trans hq, fun hg r => ?_, fun r => ?_,
      hdrops.trans (.of_eq (hpriv.trans hpriv₁))⟩
    · rw [hfield hg, hfield₁ hg, hproc₀]
    · split
      · next hr =>
        rw [List.mem_singleton.mp hr, hflags.1, hflags₁.1, hq₁.sendtoE, hq₁.endpoint, hproc₀]
        rfl
      · next hr =>
        rw [List.mem_singleton] at hr
        rw [hflags.2 r hr, hflags₁.2 r hr, hproc₀]

theorem alertedFlags_congr (hq : Quiet s s')
    (hget : ∀ r, (s'.proc r).getfromE = (s.proc r).getfromE)
    (hflags : (s'.proc p).rtsFlags = (s.proc p).rtsFlags) :
    alertedFlags s' rc p = alertedFlags s rc p := by
  unfold alertedFlags
  dsimp only
  rw [hq.endpoint, hq.sendtoE, hget, hflags]

/-- What the loop of `clear_endpoint` does. -/
theorem alert_spec : ∀ {l : List ProcPtr} {s s' : Kernel}, l.Nodup → Runnable s →
    l.foldlM (fun s rp => alertProcess rc rp s) s = some s' → Alerted s rc l s'
  | [], s, s', _, h, hstep => by
    cases hstep
    exact ⟨h, Quiet.refl s, fun _ _ => rfl, fun _ => rfl, .of_eq rfl⟩
  | a :: l, s, s', hl, h, hstep => by
    rw [List.foldlM_cons] at hstep
    obtain ⟨s₁, hstep₁, hstep⟩ := Option.bind_eq_some_iff.mp hstep
    have h₁ := alertProcess_spec h hstep₁
    have h₂ := alert_spec (List.nodup_cons.mp hl).2 h₁.runnable hstep
    have hpriv : (s₁.proc rc).priv = (s.proc rc).priv :=
      h₁.field (g := Proc.priv) (fun _ _ _ _ _ _ _ => rfl) rc
    have hdrops := h₂.drops
    rw [hpriv] at hdrops
    refine ⟨h₂.runnable, h₁.quiet.trans h₂.quiet,
      fun hg r => (h₂.field hg r).trans (h₁.field hg r), fun r => ?_, h₁.drops.trans hdrops⟩
    rw [h₂.flags]
    rcases eq_or_ne r a with rfl | hra
    · rw [if_neg (List.nodup_cons.mp hl).1, if_pos List.mem_cons_self, h₁.flags,
        if_pos (List.mem_singleton_self r)]
    · have hflags : (s₁.proc r).rtsFlags = (s.proc r).rtsFlags := by
        rw [h₁.flags, if_neg (by simpa using hra)]
      rw [alertedFlags_congr h₁.quiet (h₁.field (g := Proc.getfromE) fun _ _ _ _ _ _ _ => rfl)
        hflags, hflags]
      simp only [List.mem_cons, hra, false_or]

/-- The process leaves the queue where it waits to send. -/
theorem Talks.leaveQueue (h : Talks s n) (hok : n.Ok) (hn : Numbered s) (hrc : n.live rc)
    (hstep : leaveQueue rc s = some s') :
    FlagsOf s s' rc ((s.proc rc).rtsFlags.erase .sending) ∧
      (∀ {β : Type} {g : Proc → β}, Apart g → ∀ r, g (s'.proc r) = g (s.proc r)) ∧
      s'.priv = s.priv ∧ Queued s' n.live fun d => ((n.queue d).map Prod.fst).filter fun r => r ≠ rc := by
  have hoff : ∀ d, n.sends rc ≠ some d →
      ((n.queue d).map Prod.fst).filter (fun r => r ≠ rc) = (n.queue d).map Prod.fst := by
    intro d hd
    rw [List.filter_eq_self]
    intro r hr
    rw [decide_eq_true_iff]
    rintro rfl
    exact hd ((hok.queued _ _).mpr hr)
  unfold Minix.leaveQueue at hstep
  split at hstep
  · next hsending =>
    obtain ⟨target, htarget, hstep⟩ := Option.bind_eq_some_iff.mp hstep
    obtain ⟨⟨place, x⟩, hseek, hstep⟩ := Option.bind_eq_some_iff.mp hstep
    obtain ⟨htlive, htendpoint⟩ := h.isokendpt_spec htarget
    obtain ⟨d, hd⟩ : ∃ d, n.sends rc = some d := by
      rw [← Option.ne_none_iff_exists', Ne, h.sends_eq_none_iff hrc]
      exact not_not.mpr hsending
    have htd : target = d := hn.endpoint_inj (htendpoint.symm.trans (h.sends_endpoint hrc hd))
    subst htd
    obtain ⟨hplace, hx⟩ := h.queued.seek htlive hseek
    have hmem := (hok.queued _ _).mp hd
    cases x with
    | none =>
      have hnot := List.find?_eq_none.mp hx.symm rc hmem
      simp at hnot
    | some c =>
      obtain ⟨l₁, l₂, hl, htake⟩ := find?_split hx.symm
      have hc : c = rc := by simpa using List.find?_some hx.symm
      subst hc
      rw [htake] at hplace
      subst hplace
      cases hstep
      have hunlink := h.queued.unlink hn htlive hl
      have honce := hok.once target
      rw [hl, List.nodup_middle, List.nodup_cons, List.mem_append, not_or] at honce
      have hlink : ∀ {β : Type} {g : Proc → β}, Apart g → ∀ r,
          g ((s.setCallerLink target l₁.getLast? (s.proc c).qLink).proc r) = g (s.proc r) := by
        intro β g hg r
        exact setCallerLink_field (g := g)
          (fun p k => hg p p.rtsFlags p.nextready p.ticksLeft p.priority k p.qLink)
          (fun p k => hg p p.rtsFlags p.nextready p.ticksLeft p.priority p.callerQ k) r
      have hpriv : (s.setCallerLink target l₁.getLast? (s.proc c).qLink).priv = s.priv :=
        setCallerLink_priv
      have hflags : ∀ r,
          ((s.setCallerLink target l₁.getLast? (s.proc c).qLink).proc r).rtsFlags =
            (s.proc r).rtsFlags := fun r =>
        setCallerLink_field (g := Proc.rtsFlags) (fun _ _ => rfl) (fun _ _ => rfl) r
      generalize s.setCallerLink target l₁.getLast? (s.proc c).qLink = s₁ at hunlink hlink hflags hpriv
      refine ⟨⟨by rw [Kernel.setProc_self, hflags], fun r hr => by
        rw [Kernel.setProc_of_ne hr, hflags]⟩, fun {β g} hg r => ?_, hpriv, ?_⟩
      · rw [setFlags_apart hg]
        exact hlink hg r
      · have hq : Quiet s₁ (s₁.setProc c fun r => { r with rtsFlags := r.rtsFlags.erase .sending }) :=
          setFlags_quiet
        refine (hunlink.quiet hq fun _ => id).of_eq fun y _ => ?_
        rcases eq_or_ne y target with rfl | hy
        · rw [Function.update_self, hl, List.filter_append, List.filter_cons_of_neg (by simp)]
          congr 1
          all_goals
            rw [List.filter_eq_self]
            intro r hr
            rw [decide_eq_true_iff]
            rintro rfl
          · exact honce.1.1 hr
          · exact honce.1.2 hr
        · rw [Function.update_of_ne hy, hoff y]
          rw [hd]
          exact fun he => hy (Option.some.inj he).symm
  · next hsending =>
    cases hstep
    have hnone := (h.sends_eq_none_iff hrc).mpr hsending
    refine ⟨⟨by rw [Finset.erase_eq_of_notMem hsending], fun _ _ => rfl⟩, fun _ _ => rfl, rfl,
      h.queued.of_eq fun y _ => ?_⟩
    rw [hoff y]
    rw [hnone]
    exact nofun

/-! ## `clear_proc` -/

/-- The process is gone, and the others have been told. -/
structure Cleared (s : Kernel) (rc : ProcPtr) (s' : Kernel) (A : ProcPtr → Prop)
    (C : ProcPtr → List ProcPtr) : Prop where
  free : (s'.proc rc).rtsFlags = {.slotFree}
  flags : ∀ r ≠ rc, (s'.proc r).rtsFlags = alertedFlags s rc r
  field : ∀ {β : Type} {g : Proc → β}, Apart g → ∀ r, g (s'.proc r) = g (s.proc r)
  queued : Queued s' A C
  /-- The privileges of a system process have no owner any more. -/
  priv : ∃ s₁, Drops s (s.proc rc).priv s₁ ∧ ∀ id, s'.priv id = s₁.priv id ∨
    id = (s.proc rc).priv ∧ s'.priv id = { s₁.priv id with procNr := NONE }

namespace Cleared

variable {A : ProcPtr → Prop} {C : ProcPtr → List ProcPtr}

theorem endpoint (h : Cleared s rc s' A C) (r : ProcPtr) :
    (s'.proc r).endpoint = (s.proc r).endpoint :=
  h.field (g := Proc.endpoint) (fun _ _ _ _ _ _ _ => rfl) r

theorem sendtoE (h : Cleared s rc s' A C) (r : ProcPtr) :
    (s'.proc r).sendtoE = (s.proc r).sendtoE :=
  h.field (g := Proc.sendtoE) (fun _ _ _ _ _ _ _ => rfl) r

theorem getfromE (h : Cleared s rc s' A C) (r : ProcPtr) :
    (s'.proc r).getfromE = (s.proc r).getfromE :=
  h.field (g := Proc.getfromE) (fun _ _ _ _ _ _ _ => rfl) r

end Cleared

/-- The last part of `clear_proc`. -/
theorem free_proc (hstep : (if .sysProc ∈ (s.priv (s.proc rc).priv).flags then
      some (s.setPriv (s.proc rc).priv fun p => { p with procNr := NONE }) else some s) = some s') :
    s'.proc = s.proc ∧ ∀ id, s'.priv id = s.priv id ∨
      id = (s.proc rc).priv ∧ s'.priv id = { s.priv id with procNr := NONE } := by
  split at hstep
  · cases hstep
    refine ⟨rfl, fun id => ?_⟩
    unfold Kernel.setPriv
    rcases eq_or_ne id (s.proc rc).priv with rfl | hid
    · exact Or.inr ⟨rfl, Function.update_self _ _ _⟩
    · exact Or.inl (Function.update_of_ne hid _ _)
  · cases hstep
    exact ⟨rfl, fun _ => Or.inl rfl⟩

theorem Talks.cleared (h : Talks s n) (hok : n.Ok) (hs : Consistent s) (hrc : n.live rc)
    (hstep : clearProc rc s = some s') : Cleared s rc s' (fun y => n.live y ∧ y ≠ rc)
      fun d => ((n.queue d).map Prod.fst).filter fun r => r ≠ rc := by
  have halive := h.alive_iff.mpr hrc
  unfold Minix.clearProc Minix.clearEndpoint at hstep
  rw [if_neg (by rw [isempty_iff]; exact not_not.mpr halive),
    if_neg (by rw [isempty_iff]; exact not_not.mpr halive)] at hstep
  obtain ⟨s₄, hstep₁, hstep⟩ := Option.bind_eq_some_iff.mp hstep
  obtain ⟨s₅, hdequeue, hstep⟩ := Option.bind_eq_some_iff.mp hstep
  obtain ⟨s₁, hblock, hstep₁⟩ := Option.bind_eq_some_iff.mp hstep₁
  obtain ⟨s₂, hleave, halert⟩ := Option.bind_eq_some_iff.mp hstep₁
  obtain ⟨hproc, hpriv⟩ := free_proc hstep
  -- the process is blocked
  obtain ⟨-, hq₁, hflags₁⟩ := block_spec hs.runnable hblock
  have hget₁ := block_getfromE hblock
  have hapart₁ := fun {β : Type} {g : Proc → β} (hg : Apart g) => block_apart hg hblock
  have h₁ : Talks s₁ n := by
    refine h.same ⟨hflags₁.tidy_insert (by decide) ((h.live rc).mp hrc) h.tidy,
      hflags₁.mem_iff (by simp), hflags₁.mem_iff (by simp), hflags₁.mem_iff (by simp), hq₁.sendtoE,
      hget₁, hq₁.endpoint, hq₁.callerQ, hq₁.qLink⟩
  have hn₁ := hs.numbered.steady hq₁.toSteady
  -- it leaves the queue where it is, and waits for nobody
  obtain ⟨hflags₂, hfield₂, hpriv₂, hqueued₂⟩ := h₁.leaveQueue hok hn₁ hrc hleave
  have hrun₃ := (hs.detach halive hblock hleave).runnable
  have hq₃ : Quiet s₂ (s₂.setProc rc fun r => { r with rtsFlags := r.rtsFlags.erase .receiving }) :=
    setFlags_quiet
  have hapart₃ : ∀ {β : Type} {g : Proc → β}, Apart g → ∀ r,
      g ((s₂.setProc rc fun r => { r with rtsFlags := r.rtsFlags.erase .receiving }).proc r) =
        g (s₂.proc r) := fun hg => setFlags_apart hg
  have hpriv₃ : (s₂.setProc rc fun r =>
      { r with rtsFlags := r.rtsFlags.erase .receiving }).priv = s₂.priv := rfl
  have hflags₃ : ∀ r ≠ rc, ((s₂.setProc rc fun r =>
      { r with rtsFlags := r.rtsFlags.erase .receiving }).proc r).rtsFlags =
        (s.proc r).rtsFlags := fun r hr => by
    rw [Kernel.setProc_of_ne hr, hflags₂.2 r hr, hflags₁.2 r hr]
  generalize (s₂.setProc rc fun r => { r with rtsFlags := r.rtsFlags.erase .receiving }) = s₃
    at halert hrun₃ hq₃ hapart₃ hpriv₃ hflags₃
  -- the others are told
  have h₄ := alert_spec (List.nodup_finRange _) hrun₃ halert
  have hmoves := dequeueReady_moves hdequeue
  have hfield₃ : ∀ {β : Type} {g : Proc → β}, Apart g → ∀ r, g (s₃.proc r) = g (s.proc r) := by
    intro β g hg r
    rw [hapart₃ hg, hfield₂ hg, hapart₁ hg]
  have hfield : ∀ {β : Type} {g : Proc → β}, Apart g → ∀ r, g (s₅.proc r) = g (s.proc r) := by
    intro β g hg r
    rw [hmoves.apart hg, h₄.field hg, hfield₃ hg]
  refine ⟨?_, fun r hr => ?_, fun hg r => ?_, ?_, s₅, ?_, fun id => ?_⟩
  · rw [hproc, Kernel.setProc_self]
  · rw [hproc, Kernel.setProc_of_ne hr, hmoves.rtsFlags, h₄.flags, if_pos (List.mem_finRange r)]
    unfold alertedFlags
    dsimp only
    rw [hflags₃ r hr, hfield₃ (g := Proc.endpoint) (fun _ _ _ _ _ _ _ => rfl),
      hfield₃ (g := Proc.sendtoE) (fun _ _ _ _ _ _ _ => rfl),
      hfield₃ (g := Proc.getfromE) (fun _ _ _ _ _ _ _ => rfl)]
  · rw [hproc, setFlags_apart hg, hfield hg]
  · have hq₆ : Quiet s₅ (s₅.setProc rc fun r => { r with rtsFlags := {.slotFree} }) :=
      setFlags_quiet
    exact hqueued₂.quiet ((((hq₃.trans h₄.quiet).trans hmoves.quiet).trans hq₆).trans
      (.of_proc_eq hproc)) fun _ hy => hy.1
  · have hdrops := h₄.drops
    rw [hfield₃ (g := Proc.priv) fun _ _ _ _ _ _ _ => rfl] at hdrops
    refine (Drops.of_eq ?_).trans (hdrops.trans (.of_eq hmoves.priv))
    rw [hpriv₃, hpriv₂, block_priv hblock]
  · have hid := hpriv id
    rw [setFlags_apart (g := Proc.priv) (fun _ _ _ _ _ _ _ => rfl),
      hfield (g := Proc.priv) (fun _ _ _ _ _ _ _ => rfl)] at hid
    exact hid

theorem mem_alertedFlags_sending : .sending ∈ alertedFlags s rc p ↔
    .sending ∈ (s.proc p).rtsFlags ∧ (s.proc p).sendtoE ≠ (s.proc rc).endpoint := by
  unfold alertedFlags
  dsimp only
  split <;> split <;> simp_all

theorem mem_alertedFlags_receiving : .receiving ∈ alertedFlags s rc p ↔
    .receiving ∈ (s.proc p).rtsFlags ∧ (s.proc p).getfromE ≠ (s.proc rc).endpoint := by
  unfold alertedFlags
  dsimp only
  split <;> split <;> simp_all

theorem mem_alertedFlags_slotFree :
    .slotFree ∈ alertedFlags s rc p ↔ .slotFree ∈ (s.proc p).rtsFlags := by
  unfold alertedFlags
  dsimp only
  split <;> split <;> simp

/-- **The process is gone** from the exchange. -/
theorem Talks.clearProc (h : Talks s n) (hok : n.Ok) (hs : Consistent s) (hrc : n.live rc)
    (hstep : clearProc rc s = some s') : Talks s' (n.leave rc) := by
  have hc := h.cleared hok hs hrc hstep
  refine ⟨fun p hp => ?_, fun p => ?_, fun p hp => ?_, fun p hp => ?_, ?_⟩
  · rcases eq_or_ne p rc with rfl | hne
    · exact hc.free
    · rw [hc.flags p hne, mem_alertedFlags_slotFree] at hp
      rw [hc.flags p hne]
      unfold alertedFlags
      dsimp only
      rw [h.tidy p hp]
      split <;> split <;> decide
  · rcases eq_or_ne p rc with rfl | hne
    · rw [hc.free]
      simp [Exchange.leave]
    · rw [hc.flags p hne, mem_alertedFlags_slotFree, ← h.live]
      exact ⟨fun hp => hp.1, fun hp => ⟨hp, hne⟩⟩
  · obtain ⟨hlive, hne⟩ := hp
    generalize ho : n.sends p = o
    have hold := h.sends p hlive
    rw [ho] at hold
    have hsends : (n.leave rc).sends p = if o = some rc then none else o := by
      simp [Exchange.leave, hne, ho]
    rw [hsends]
    cases hold with
    | no hnot =>
      refine .no ?_
      rw [hc.flags p hne, mem_alertedFlags_sending]
      exact fun hmem => hnot hmem.1
    | dst d hflag hd =>
      split
      · next hdrc =>
        refine .no ?_
        rw [hc.flags p hne, mem_alertedFlags_sending, hd, Option.some.inj hdrc]
        exact fun hmem => hmem.2 rfl
      · next hdrc =>
        refine .dst d ?_ (by rw [hc.sendtoE, hc.endpoint, hd])
        rw [hc.flags p hne, mem_alertedFlags_sending, hd]
        exact ⟨hflag, fun he => hdrc (congrArg some (hs.numbered.endpoint_inj he))⟩
  · obtain ⟨hlive, hne⟩ := hp
    generalize ho : n.hears p = o
    have hold := h.hears p hlive
    rw [ho] at hold
    have hhears : (n.leave rc).hears p = if o = some (some rc) then none else o := by
      simp [Exchange.leave, hne, ho]
    rw [hhears]
    cases hold with
    | no hnot =>
      refine .no ?_
      rw [hc.flags p hne, mem_alertedFlags_receiving]
      exact fun hmem => hnot hmem.1
    | of src hflag hsrc =>
      split
      · next hdrc =>
        refine .no ?_
        rw [hc.flags p hne, mem_alertedFlags_receiving]
        rw [Option.some.inj hdrc] at hsrc
        cases hsrc with
        | of _ he => exact fun hmem => hmem.2 he
      · next hdrc =>
        refine .of src ?_ ?_
        · rw [hc.flags p hne, mem_alertedFlags_receiving]
          refine ⟨hflag, fun he => hdrc ?_⟩
          rw [hsrc.eq hs.numbered he]
        · rw [hc.getfromE]
          exact hsrc.congr hc.endpoint
  · refine hc.queued.of_eq fun y hy => ?_
    dsimp only [Exchange.leave]
    rw [if_neg hy.2, List.filter_map]
    rfl

namespace Ipc

variable {α : Type} {st st' : Ipc α} {n : Exchange ProcPtr (Message α)} {e : Int}

theorem doExit_answers {whoP endpt : Int} (hs : Consistent st.kernel) (h : st.Shows n) (hok : n.Ok)
    (hstep : st.doExit whoP endpt = some (e, st')) : st.Answers n st' := by
  rcases doExit_cases hstep with rfl | ⟨rc, hclear, -⟩
  · exact .nil h rfl
  · unfold clearProc at hclear
    split at hclear
    · cases hclear
      exact .nil h rfl
    · next hempty =>
      obtain ⟨s, hkernel, hclear⟩ := Option.bind_eq_some_iff.mp hclear
      cases hclear
      have hrc : n.live rc := by
        rw [← h.alive_iff]
        exact not_not.mp fun hdead => hempty (isempty_iff.mpr hdead)
      refine .one (.leave hrc) ⟨h.toTalks.clearProc hok hs hrc hkernel, fun d x m hx => ?_⟩ rfl
      have hold : (x, m) ∈ n.queue d := by
        unfold Exchange.leave at hx
        dsimp only at hx
        split at hx
        · cases hx
        · exact List.mem_of_mem_filter hx
      rw [h.message d x m hold]
      dsimp only
      rw [(h.toTalks.cleared hok hs hrc hkernel).endpoint]

theorem doFork_rest {endpt slot : Int} (h : st.doFork endpt slot = some (e, st')) :
    st'.mail = st.mail ∧ (∀ src, st'.pending src = st.pending src) ∧ st'.notices = st.notices ∧
      ∀ x, (e = OK → procAddr slot ≠ some x) → st'.messbuf x = st.messbuf x := by
  unfold doFork at h
  obtain ⟨⟨e₁, s⟩, -, h⟩ := Option.bind_eq_some_iff.mp h
  dsimp only at h
  split at h
  · next rpp rpc _ hrpc =>
    cases h
    split
    · next hok =>
      refine ⟨rfl, fun _ => rfl, rfl, fun x hx => Function.update_of_ne ?_ _ _⟩
      rintro rfl
      exact hx hok hrpc
    · exact ⟨rfl, fun _ => rfl, rfl, fun _ _ => rfl⟩
  · cases h
    exact ⟨rfl, fun _ => rfl, rfl, fun _ _ => rfl⟩

theorem doFork_answers {endpt slot : Int} (h : st.Shows n) (hok : n.Ok)
    (hclean : CleanFork st.kernel endpt) (hstep : st.doFork endpt slot = some (e, st')) :
    st.Answers n st' := by
  obtain ⟨hmail, -, -, hbuf⟩ := doFork_rest hstep
  rcases doFork_cases (doFork_kernel hstep) with ⟨hsame, he⟩ | ⟨rpp, rpc, hrpp, hslot, hfree, -, hs'⟩
  · refine .nil (h.of_proc_eq (by rw [hsame]) ?_) hmail
    exact funext fun x => hbuf x fun hok => absurd hok he
  · obtain ⟨hlive, -⟩ := h.isokendpt_spec hrpp
    have hsends := (h.sends_eq_none_iff hlive).mpr (hclean.2 rpp hrpp)
    have hdead : ¬ n.live rpc := by rwa [← h.alive_iff]
    have h₁ := h.toTalks.child hok hlive hdead hsends (hclean.1 rpp hrpp).1
    have hsame : SameTalk (st.kernel.setProc rpc fun _ =>
        childOf st.kernel rpp rpc (rpc.val - NR_TASKS)) st'.kernel := by
      rw [hs']
      exact (Still.set h₁.tidy rfl).sameTalk
    refine .one (.copy hlive hsends hdead) ⟨h₁.same hsame, fun d x m hx => ?_⟩
      (hmail.trans (List.append_nil _).symm)
    have hold : (x, m) ∈ n.queue d := by
      rcases eq_or_ne d rpc with rfl | hd
      · simp [Exchange.copy] at hx
      · simpa [Exchange.copy, hd] using hx
    have hlive : n.live x := by
      refine (hok.sender x d ((hok.queued x d).mpr ?_)).1
      exact List.mem_map_of_mem hold
    have hxc : x ≠ rpc := by
      rintro rfl
      exact hdead hlive
    have hxslot : procAddr slot ≠ some x := by
      rw [hslot]
      exact fun he => hxc (Option.some.inj he).symm
    rw [h.message d x m hold, hbuf x fun _ => hxslot, hsame.endpoint, Kernel.setProc_of_ne hxc]

end Ipc

end Minix
