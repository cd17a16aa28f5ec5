import Bambinos.Infra.Simulation
import Bambinos.Infra.WaitGraph
import Mathlib.Data.List.Nodup
import Mathlib.Logic.Function.Basic

/-!
# Messages that are handed over

Processes send to one another without a buffer: whoever sends to a process that does not wait for it
is queued there, and its message stays with it until it is fetched. Nobody starts to wait for a
process from which the chain of those who wait leads to itself.

* `Exchange` — who sends to whom, who hears whom, and the queues
* `Exchange.Step` — what may happen, with the messages that are sent and got
* `Exchange.Ok` — senders are queued where they send to, and nobody waits for a sender that is queued
* `Exchange.Careful` — nobody is on a circle of processes that wait for one another
* `Careful.step`, `Careful.run` — both are kept
-/

namespace Infra

variable {P M : Type}

/-- What is heard: anybody, or one process. -/
def Accepts (src : Option P) (x : P) : Prop := src = none ∨ src = some x

/-- What has been sent and got, and who is gone. -/
inductive Event (P M : Type) where
  | sent (x d : P) (m : M)
  | got (d : P) (src : Option P) (x : P) (m : M)
  | gone (x : P)

/-- Who is there, to whom the processes try to send, whom they wait to hear, and who is queued with
its message at each of them. -/
structure Exchange (P M : Type) where
  live : P → Prop
  sends : P → Option P
  hears : P → Option (Option P)
  queue : P → List (P × M)

namespace Exchange

variable {n n' : Exchange P M} {x y c d : P} {src : Option P} {m : M} {e : Event P M}
  {es : List (Event P M)}

/-- The process is there and waits for nobody. -/
structure Idle (n : Exchange P M) (x : P) : Prop where
  live : n.live x
  sends : n.sends x = none
  hears : n.hears x = none

/-- The one process that is waited for. -/
def waits (n : Exchange P M) (x : P) : Option P :=
  match n.sends x with
  | some d => some d
  | none => (n.hears x).getD none

section Ops

variable [DecidableEq P]

/-- What `d` waits to hear is set. -/
def hear (n : Exchange P M) (d : P) (src : Option (Option P)) : Exchange P M :=
  { n with hears := Function.update n.hears d src }

/-- To whom `x` sends is set, and the queue of `d`. -/
def send (n : Exchange P M) (x : P) (dst : Option P) (d : P) (q : List (P × M)) : Exchange P M :=
  { n with sends := Function.update n.sends x dst, queue := Function.update n.queue d q }

/-- The new process `c` is a copy of `p`, but nobody is queued at it. -/
def copy (n : Exchange P M) (p c : P) : Exchange P M where
  live y := n.live y ∨ y = c
  sends := Function.update n.sends c (n.sends p)
  hears := Function.update n.hears c (n.hears p)
  queue := Function.update n.queue c []

/-- The process `x` is gone; whoever waits for it goes on. -/
def leave (n : Exchange P M) (x : P) : Exchange P M where
  live y := n.live y ∧ y ≠ x
  sends y := if y = x ∨ n.sends y = some x then none else n.sends y
  hears y := if y = x ∨ n.hears y = some (some x) then none else n.hears y
  queue d := if d = x then [] else (n.queue d).filter fun c => c.1 ≠ x

@[simp] theorem hear_live {o : Option (Option P)} : (n.hear d o).live = n.live := rfl

@[simp] theorem hear_sends {o : Option (Option P)} : (n.hear d o).sends = n.sends := rfl

@[simp] theorem hear_queue {o : Option (Option P)} : (n.hear d o).queue = n.queue := rfl

@[simp] theorem hear_self {o : Option (Option P)} : (n.hear d o).hears d = o :=
  Function.update_self _ _ _

@[simp] theorem hear_of_ne {o : Option (Option P)} (h : x ≠ d) : (n.hear d o).hears x = n.hears x :=
  Function.update_of_ne h _ _

@[simp] theorem send_live {dst : Option P} {q : List (P × M)} : (n.send x dst d q).live = n.live :=
  rfl

@[simp] theorem send_hears {dst : Option P} {q : List (P × M)} :
    (n.send x dst d q).hears = n.hears := rfl

@[simp] theorem send_self {dst : Option P} {q : List (P × M)} : (n.send x dst d q).sends x = dst :=
  Function.update_self _ _ _

@[simp] theorem send_of_ne {dst : Option P} {q : List (P × M)} (h : y ≠ x) :
    (n.send x dst d q).sends y = n.sends y := Function.update_of_ne h _ _

@[simp] theorem send_queue {dst : Option P} {q : List (P × M)} : (n.send x dst d q).queue d = q :=
  Function.update_self _ _ _

@[simp] theorem send_queue_of_ne {dst : Option P} {q : List (P × M)} (h : c ≠ d) :
    (n.send x dst d q).queue c = n.queue c := Function.update_of_ne h _ _

/-- What may happen. -/
inductive Step : Exchange P M → List (Event P M) → Exchange P M → Prop
  /-- The message is handed to a process that waits for it. -/
  | pass {n : Exchange P M} {x d : P} {src : Option P} {m : M} (hx : n.Idle x)
      (hsends : n.sends d = none) (hhears : n.hears d = some src) (hsrc : Accepts src x) :
      Step n [.sent x d m, .got d src x m] (n.hear d none)
  /-- The sender is queued at the destination. -/
  | post {n : Exchange P M} {x d : P} {m : M} (hx : n.Idle x) (hd : n.live d)
      (hnot : ∀ src, n.sends d = none → n.hears d = some src → ¬ Accepts src x)
      (hsafe : x = d ∨ ¬ Reaches n.waits d x) :
      Step n [.sent x d m] (n.send x (some d) d (n.queue d ++ [(x, m)]))
  /-- The first message that is acceptable is fetched. -/
  | take {n : Exchange P M} {x d : P} {src : Option P} {m : M} {q₁ q₂ : List (P × M)}
      (hd : n.Idle d) (hq : n.queue d = q₁ ++ (x, m) :: q₂) (hsrc : Accepts src x)
      (hfirst : ∀ c ∈ q₁, ¬ Accepts src c.1) :
      Step n [.got d src x m] (n.send x none d (q₁ ++ q₂))
  /-- No message is there. -/
  | await {n : Exchange P M} {d : P} {src : Option P} (hd : n.Idle d)
      (hnone : ∀ c ∈ n.queue d, ¬ Accepts src c.1) (hlive : ∀ x, src = some x → n.live x)
      (hsafe : ∀ x, src = some x → d = x ∨ ¬ Reaches n.waits x d) :
      Step n [] (n.hear d (some src))
  /-- A process that still sends also waits for the answer. -/
  | expect {n : Exchange P M} {x d : P} (hsends : n.sends x = some d) (hhears : n.hears x = none) :
      Step n [] (n.hear x (some (some d)))
  /-- A process that waits is told of something else. -/
  | rouse {n : Exchange P M} {d : P} (hsends : n.sends d = none) : Step n [] (n.hear d none)
  | copy {n : Exchange P M} {p c : P} (hp : n.live p) (hsends : n.sends p = none)
      (hc : ¬ n.live c) : Step n [] (n.copy p c)
  | leave {n : Exchange P M} {x : P} (hx : n.live x) : Step n [.gone x] (n.leave x)

end Ops

/-- Senders are queued where they send to, and nobody waits for a sender that is queued. -/
structure Ok (n : Exchange P M) : Prop where
  queued : ∀ x d, n.sends x = some d ↔ x ∈ (n.queue d).map Prod.fst
  once : ∀ d, ((n.queue d).map Prod.fst).Nodup
  sender : ∀ x d, n.sends x = some d → n.live x ∧ n.live d
  hearer : ∀ x src, n.hears x = some src → n.live x
  source : ∀ x y, n.hears x = some (some y) → n.live y
  /-- Whoever sends waits for an answer of the same process at most. -/
  paired : ∀ x d src, n.sends x = some d → n.hears x = some src → src = some d
  met : ∀ d src, n.sends d = none → n.hears d = some src → ∀ c ∈ n.queue d, ¬ Accepts src c.1

/-- Nobody is on a circle, but for a process that waits for itself. -/
structure Careful (n : Exchange P M) : Prop extends Ok n where
  circles : OnlySelfWaits n.waits

/-! ## what is kept -/

theorem waits_of_sends (h : n.sends x = some d) : n.waits x = some d := by
  unfold waits
  rw [h]

theorem waits_of_not_sends (h : n.sends x = none) : n.waits x = (n.hears x).getD none := by
  unfold waits
  rw [h]

theorem Idle.waits (h : n.Idle x) : n.waits x = none := by
  rw [waits_of_not_sends h.sends, h.hears]
  rfl

namespace Ok

theorem not_queued (h : Ok n) (hx : n.sends x = none) (hc : (x, m) ∈ n.queue d) : False := by
  have hmem : x ∈ (n.queue d).map Prod.fst := List.mem_map_of_mem hc
  rw [← h.queued, hx] at hmem
  cases hmem

theorem waits_live (h : Ok n) (hxy : n.waits x = some y) : n.live y := by
  cases hsends : n.sends x with
  | some d =>
    rw [waits_of_sends hsends] at hxy
    cases hxy
    exact (h.sender x y hsends).2
  | none =>
    rw [waits_of_not_sends hsends] at hxy
    cases hhears : n.hears x with
    | none =>
      rw [hhears] at hxy
      cases hxy
    | some src =>
      rw [hhears] at hxy
      exact h.source x y (hhears.trans (congrArg some hxy))

variable [DecidableEq P]

/-- What one process hears is set. -/
theorem hear (h : Ok n) {o : Option (Option P)} (hlive : ∀ src, o = some src → n.live d)
    (hsource : ∀ y, o = some (some y) → n.live y)
    (hpaired : ∀ c src, n.sends d = some c → o = some src → src = some c)
    (hmet : ∀ src, n.sends d = none → o = some src → ∀ c ∈ n.queue d, ¬ Accepts src c.1) :
    Ok (n.hear d o) := by
  refine ⟨h.queued, h.once, h.sender, ?_, ?_, ?_, ?_⟩
  all_goals
    intro x
    rcases eq_or_ne x d with rfl | hxd
  · simpa using hlive
  · simpa [hxd] using h.hearer x
  · simpa using hsource
  · simpa [hxd] using h.source x
  · simpa using hpaired
  · simpa [hxd] using h.paired x
  · simpa using hmet
  · simpa [hxd] using h.met x

/-- The process hears nobody. -/
theorem deaf (h : Ok n) : Ok (n.hear d none) := by
  apply h.hear <;> simp

/-- A sender is queued at the destination. -/
theorem post (h : Ok n) (hx : n.Idle x) (hd : n.live d)
    (hnot : ∀ src, n.sends d = none → n.hears d = some src → ¬ Accepts src x) :
    Ok (n.send x (some d) d (n.queue d ++ [(x, m)])) := by
  have hoff : ∀ c, x ∉ (n.queue c).map Prod.fst := by
    intro c hmem
    rw [← h.queued, hx.sends] at hmem
    cases hmem
  refine ⟨fun y c => ?_, fun c => ?_, fun y c hy => ?_, h.hearer, h.source, fun y c src hy hsrc => ?_,
    fun c src hc hsrc z hz => ?_⟩
  · rcases eq_or_ne y x with rfl | hyx
    · rcases eq_or_ne c d with rfl | hcd
      · simp
      · simp [hcd, hcd.symm, hoff c]
    · rcases eq_or_ne c d with rfl | hcd
      · simp [hyx, h.queued]
      · simp [hyx, hcd, h.queued]
  · rcases eq_or_ne c d with rfl | hcd
    · have honce := h.once c
      have hoff := hoff c
      simp only [send_queue, List.map_append, List.map_cons, List.map_nil]
      exact List.nodup_append_comm.mp (List.nodup_cons.mpr ⟨hoff, honce⟩)
    · simpa [hcd] using h.once c
  · rcases eq_or_ne y x with rfl | hyx
    · rw [send_self] at hy
      cases hy
      exact ⟨hx.live, hd⟩
    · rw [send_of_ne hyx] at hy
      exact h.sender y c hy
  · rcases eq_or_ne y x with rfl | hyx
    · rw [send_hears, hx.hears] at hsrc
      cases hsrc
    · rw [send_of_ne hyx] at hy
      exact h.paired y c src hy hsrc
  · have hcx : c ≠ x := by
      rintro rfl
      rw [send_self] at hc
      cases hc
    rw [send_of_ne hcx] at hc
    rcases eq_or_ne c d with rfl | hcd
    · rw [send_queue, List.mem_append, List.mem_singleton] at hz
      rcases hz with hz | rfl
      · exact h.met c src hc hsrc z hz
      · exact hnot src hc hsrc
    · rw [send_queue_of_ne hcd] at hz
      exact h.met c src hc hsrc z hz

/-- A message is fetched. -/
theorem take {q₁ q₂ : List (P × M)} (h : Ok n) (hd : n.Idle d)
    (hq : n.queue d = q₁ ++ (x, m) :: q₂) : Ok (n.send x none d (q₁ ++ q₂)) := by
  have hxd : n.sends x = some d := by
    rw [h.queued, hq]
    simp
  have honce := h.once d
  rw [hq, List.map_append, List.map_cons, List.nodup_middle, List.nodup_cons, ← List.map_append]
    at honce
  refine ⟨fun y c => ?_, fun c => ?_, fun y c hy => ?_, h.hearer, h.source, fun y c src hy hsrc => ?_,
    fun c src hc hsrc z hz => ?_⟩
  · rcases eq_or_ne y x with rfl | hyx
    · rcases eq_or_ne c d with rfl | hcd
      · rw [send_self, send_queue]
        exact ⟨nofun, fun hmem => absurd hmem honce.1⟩
      · rw [send_self, send_queue_of_ne hcd, ← h.queued, hxd]
        refine ⟨nofun, fun hdc => absurd (Option.some.inj hdc).symm hcd⟩
    · rcases eq_or_ne c d with rfl | hcd
      · simp [hyx, h.queued, hq]
      · simp [hyx, hcd, h.queued]
  · rcases eq_or_ne c d with rfl | hcd
    · rw [send_queue]
      exact honce.2
    · simpa [hcd] using h.once c
  · rcases eq_or_ne y x with rfl | hyx
    · rw [send_self] at hy
      cases hy
    · rw [send_of_ne hyx] at hy
      exact h.sender y c hy
  · rcases eq_or_ne y x with rfl | hyx
    · rw [send_self] at hy
      cases hy
    · rw [send_of_ne hyx] at hy
      exact h.paired y c src hy hsrc
  · rcases eq_or_ne c x with rfl | hcx
    · -- the sender may now wait for an answer of `d`, which is not queued anywhere
      have hsrc' := h.paired c d src hxd hsrc
      subst hsrc'
      rintro (heq | heq)
      · cases heq
      · have hz' : (z.1, z.2) ∈ n.queue c := by
          rcases eq_or_ne c d with rfl | hcd
          · rw [hd.sends] at hxd
            cases hxd
          · rwa [send_queue_of_ne hcd] at hz
        cases heq
        exact h.not_queued hd.sends hz'
    · rw [send_of_ne hcx] at hc
      refine h.met c src hc hsrc z ?_
      rcases eq_or_ne c d with rfl | hcd
      · rw [send_queue] at hz
        rw [hq]
        simp only [List.mem_append, List.mem_cons] at hz ⊢
        exact hz.imp id Or.inr
      · rwa [send_queue_of_ne hcd] at hz

/-- A process is copied. -/
theorem copy {p : P} (h : Ok n) (hsends : n.sends p = none) (hc : ¬ n.live c) :
    Ok (n.copy p c) := by
  have hdead : ∀ y, n.sends y ≠ some c := fun y hy => hc (h.sender y c hy).2
  have hnone : n.sends c = none := by
    rcases hcs : n.sends c with _ | d
    · rfl
    · exact absurd (h.sender c d hcs).1 hc
  have hall : ∀ y, (n.copy p c).sends y = n.sends y := by
    intro y
    rcases eq_or_ne y c with rfl | hyc
    · simp [Exchange.copy, hsends, hnone]
    · simp [Exchange.copy, hyc]
  have hqueue : ∀ d, d ≠ c → (n.copy p c).queue d = n.queue d := fun d hd =>
    Function.update_of_ne hd _ _
  have hempty : (n.copy p c).queue c = [] := Function.update_self _ _ _
  have hhears : ∀ y, y ≠ c → (n.copy p c).hears y = n.hears y := fun y hy =>
    Function.update_of_ne hy _ _
  have hchild : (n.copy p c).hears c = n.hears p := Function.update_self _ _ _
  refine ⟨fun y d => ?_, fun d => ?_, fun y d hy => ?_, fun y src hy => ?_, fun y z hy => ?_,
    fun y d src hy hsrc => ?_, fun d src hd hsrc => ?_⟩
  · rw [hall]
    rcases eq_or_ne d c with rfl | hdc
    · simp [hempty, hdead]
    · rw [hqueue d hdc, h.queued]
  · rcases eq_or_ne d c with rfl | hdc
    · simp [hempty]
    · rw [hqueue d hdc]
      exact h.once d
  · rw [hall] at hy
    obtain ⟨hly, hld⟩ := h.sender y d hy
    exact ⟨Or.inl hly, Or.inl hld⟩
  · rcases eq_or_ne y c with rfl | hyc
    · exact Or.inr rfl
    · rw [hhears y hyc] at hy
      exact Or.inl (h.hearer y src hy)
  · rcases eq_or_ne y c with rfl | hyc
    · rw [hchild] at hy
      exact Or.inl (h.source p z hy)
    · rw [hhears y hyc] at hy
      exact Or.inl (h.source y z hy)
  · rw [hall] at hy
    have hyc : y ≠ c := by
      rintro rfl
      rw [hnone] at hy
      cases hy
    rw [hhears y hyc] at hsrc
    exact h.paired y d src hy hsrc
  · rcases eq_or_ne d c with rfl | hdc
    · simp [hempty]
    · rw [hall] at hd
      rw [hhears d hdc] at hsrc
      rw [hqueue d hdc]
      exact h.met d src hd hsrc

theorem leave_sends_eq (hy : y ≠ x) (hyx : n.sends y ≠ some x) :
    (n.leave x).sends y = n.sends y := by
  simp [leave, hy, hyx]

theorem leave_sends_some (h : (n.leave x).sends y = some d) :
    n.sends y = some d ∧ y ≠ x ∧ d ≠ x := by
  unfold Exchange.leave at h
  dsimp only at h
  split at h
  · cases h
  · next hnot =>
    rw [not_or] at hnot
    refine ⟨h, hnot.1, ?_⟩
    rintro rfl
    exact hnot.2 h

theorem leave_hears_some {o : Option P} (h : (n.leave x).hears y = some o) :
    n.hears y = some o ∧ y ≠ x ∧ o ≠ some x := by
  unfold Exchange.leave at h
  dsimp only at h
  split at h
  · cases h
  · next hnot =>
    rw [not_or] at hnot
    refine ⟨h, hnot.1, ?_⟩
    rintro rfl
    exact hnot.2 h

theorem mem_leave_queue {z : P × M} (h : z ∈ (n.leave x).queue d) :
    z ∈ n.queue d ∧ d ≠ x ∧ z.1 ≠ x := by
  unfold Exchange.leave at h
  dsimp only at h
  split at h
  · cases h
  · next hd =>
    rw [List.mem_filter, decide_eq_true_iff] at h
    exact ⟨h.1, hd, h.2⟩

/-- A process is gone. -/
theorem leave (h : Ok n) : Ok (n.leave x) := by
  refine ⟨fun y d => ?_, fun d => ?_, fun y d hy => ?_, fun y src hy => ?_, fun y z hy => ?_,
    fun y d src hy hsrc => ?_, fun d src hd hsrc z hz => ?_⟩
  · constructor
    · intro hy
      obtain ⟨hsends, hyx, hdx⟩ := leave_sends_some hy
      rw [h.queued] at hsends
      obtain ⟨z, hz, rfl⟩ := List.mem_map.mp hsends
      refine List.mem_map_of_mem ?_
      simp [Exchange.leave, hdx, hz, hyx]
    · intro hy
      obtain ⟨z, hz, rfl⟩ := List.mem_map.mp hy
      obtain ⟨hz, hd, hzx⟩ := mem_leave_queue hz
      have hsends := (h.queued z.1 d).mpr (List.mem_map_of_mem hz)
      rw [leave_sends_eq hzx]
      · exact hsends
      · rw [hsends]
        exact fun he => hd (Option.some.inj he)
  · unfold Exchange.leave
    dsimp only
    split
    · exact List.nodup_nil
    · exact (h.once d).sublist (List.filter_sublist.map _)
  · obtain ⟨hsends, hyx, hdx⟩ := leave_sends_some hy
    obtain ⟨hly, hld⟩ := h.sender y d hsends
    exact ⟨⟨hly, hyx⟩, hld, hdx⟩
  · obtain ⟨hhears, hyx, -⟩ := leave_hears_some hy
    exact ⟨h.hearer y src hhears, hyx⟩
  · obtain ⟨hhears, -, hzx⟩ := leave_hears_some hy
    exact ⟨h.source y z hhears, fun he => hzx (congrArg some he)⟩
  · obtain ⟨hsends, -, -⟩ := leave_sends_some hy
    obtain ⟨hhears, -, -⟩ := leave_hears_some hsrc
    exact h.paired y d src hsends hhears
  · obtain ⟨hz, -, -⟩ := mem_leave_queue hz
    obtain ⟨hhears, hdx, hsrcx⟩ := leave_hears_some hsrc
    refine h.met d src ?_ hhears z hz
    -- a process that sent to `x` would have waited for its answer
    rcases hsends : n.sends d with _ | c
    · rfl
    · exfalso
      have hpair := h.paired d c src hsends hhears
      rw [leave_sends_eq hdx] at hd
      · rw [hsends] at hd
        cases hd
      · rw [hsends]
        rintro he
        exact hsrcx (hpair.trans he)

/-- **What one step keeps.** -/
theorem step (h : Ok n) (hstep : Step n es n') : Ok n' := by
  cases hstep with
  | pass => exact h.deaf
  | post hx hd hnot => exact h.post hx hd hnot
  | take hd hq => exact h.take hd hq
  | @await d src hd hnone hlive =>
    refine h.hear (fun _ _ => hd.live) ?_ ?_ ?_
    · intro y hy
      exact hlive y (Option.some.inj hy)
    · intro c src' hc
      rw [hd.sends] at hc
      cases hc
    · intro src' _ hsrc
      cases hsrc
      exact hnone
  | @expect x d hsends hhears =>
    obtain ⟨hx, hd⟩ := h.sender x d hsends
    refine h.hear (fun _ _ => hx) ?_ ?_ ?_
    · intro y hy
      cases hy
      exact hd
    · intro c src' hc hsrc
      cases hsrc
      rw [hsends] at hc
      exact hc
    · intro src' hnot
      rw [hsends] at hnot
      cases hnot
  | rouse => exact h.deaf
  | copy _ hsends hc => exact h.copy hsends hc
  | leave => exact h.leave

theorem run {k : Nat} (h : Ok n) (hrun : Runs Step k n es n') : Ok n' := by
  induction hrun with
  | nil => exact h
  | cons hstep _ ih => exact ih (h.step hstep)

end Ok

/-! ## circles -/

section Circles

variable [DecidableEq P]

theorem waits_hear_self (h : n.sends d = none) {o : Option (Option P)} :
    (n.hear d o).waits d = o.getD none := by
  rw [waits_of_not_sends (by rw [hear_sends, h]), hear_self]

theorem waits_hear_of_ne (h : x ≠ d) {o : Option (Option P)} :
    (n.hear d o).waits x = n.waits x := by
  unfold waits
  rw [hear_sends, hear_of_ne h]

theorem waits_send_of_ne {dst : Option P} {q : List (P × M)} (h : y ≠ x) :
    (n.send x dst d q).waits y = n.waits y := by
  unfold waits
  rw [send_hears, send_of_ne h]

namespace Careful

/-- A process that hears nobody any more. -/
theorem deaf (h : Careful n) (hsends : n.sends d = none) : Careful (n.hear d none) where
  toOk := h.toOk.deaf
  circles := by
    refine h.circles.mono fun p q hpq => ?_
    rcases eq_or_ne p d with rfl | hpd
    · rw [waits_hear_self hsends] at hpq
      cases hpq
    · rwa [waits_hear_of_ne hpd] at hpq

/-- **No step closes a circle.** -/
theorem step (h : Careful n) (hstep : Step n es n') : Careful n' := by
  refine ⟨h.toOk.step hstep, ?_⟩
  cases hstep with
  | pass hx hsends => exact (h.deaf hsends).circles
  | @post x d m hx hd hnot hsafe =>
    refine h.circles.add hsafe fun p q hpq => ?_
    rcases eq_or_ne p x with rfl | hpx
    · rw [waits_of_sends send_self] at hpq
      exact Or.inr ⟨rfl, (Option.some.inj hpq).symm⟩
    · rw [waits_send_of_ne hpx] at hpq
      exact Or.inl hpq
  | @take x d src m q₁ q₂ hd hq hsrc hfirst =>
    have hsends : n.sends x = some d := by
      rw [h.queued, hq]
      simp
    refine h.circles.mono fun p q hpq => ?_
    rcases eq_or_ne p x with rfl | hpx
    · rw [waits_of_not_sends send_self, send_hears] at hpq
      rw [waits_of_sends hsends]
      cases hhears : n.hears p with
      | none =>
        rw [hhears] at hpq
        cases hpq
      | some src' =>
        rw [hhears, Option.getD_some] at hpq
        rw [← hpq, h.paired p d src' hsends hhears]
    · rwa [waits_send_of_ne hpx] at hpq
  | @await d src hd hnone hlive hsafe =>
    cases src with
    | none =>
      refine h.circles.mono fun p q hpq => ?_
      rcases eq_or_ne p d with rfl | hpd
      · rw [waits_hear_self hd.sends] at hpq
        cases hpq
      · rwa [waits_hear_of_ne hpd] at hpq
    | some x =>
      refine h.circles.add (hsafe x rfl) fun p q hpq => ?_
      rcases eq_or_ne p d with rfl | hpd
      · rw [waits_hear_self hd.sends] at hpq
        exact Or.inr ⟨rfl, (Option.some.inj hpq).symm⟩
      · rw [waits_hear_of_ne hpd] at hpq
        exact Or.inl hpq
  | @expect x d hsends hhears =>
    refine h.circles.mono fun p q hpq => ?_
    rcases eq_or_ne p x with rfl | hpx
    · rw [waits_of_sends (by rw [hear_sends, hsends])] at hpq
      rwa [waits_of_sends hsends]
    · rwa [waits_hear_of_ne hpx] at hpq
  | rouse hsends => exact (h.deaf hsends).circles
  | @copy p c hp hsends hc =>
    have hwaits : (n.copy p c).waits c = n.waits p := by
      unfold waits Exchange.copy
      simp
    have hsame : ∀ y, y ≠ c → (n.copy p c).waits y = n.waits y := by
      intro y hy
      unfold waits Exchange.copy
      simp [hy]
    refine h.circles.copy (c := c) (fun y hy => hc ?_) hsame
    rcases eq_or_ne y c with rfl | hyc
    · rw [hwaits] at hy
      exact h.toOk.waits_live hy
    · rw [hsame y hyc] at hy
      exact h.toOk.waits_live hy
  | @leave x hx =>
    refine h.circles.mono fun p q hpq => ?_
    cases hsends : (n.leave x).sends p with
    | some d =>
      rw [waits_of_sends hsends] at hpq
      rwa [waits_of_sends (Ok.leave_sends_some hsends).1]
    | none =>
      rw [waits_of_not_sends hsends] at hpq
      cases hhears : (n.leave x).hears p with
      | none =>
        rw [hhears] at hpq
        cases hpq
      | some src =>
        rw [hhears, Option.getD_some] at hpq
        subst hpq
        obtain ⟨hhears, hpx, hqx⟩ := Ok.leave_hears_some hhears
        cases hold : n.sends p with
        | none => rw [waits_of_not_sends hold, hhears, Option.getD_some]
        | some d => rw [waits_of_sends hold, h.paired p d _ hold hhears]

end Careful

theorem Careful.run {k : Nat} (h : Careful n) (hrun : Runs Step k n es n') : Careful n' := by
  induction hrun with
  | nil => exact h
  | cons hstep _ ih => exact ih (h.step hstep)

end Circles

/-- Nobody has done anything yet. -/
def start (live : P → Prop) : Exchange P M where
  live := live
  sends _ := none
  hears _ := none
  queue _ := []

theorem start_careful {live : P → Prop} : Careful (start live : Exchange P M) where
  queued _ _ := ⟨nofun, nofun⟩
  once _ := List.nodup_nil
  sender _ _ := nofun
  hearer _ _ := nofun
  source _ _ := nofun
  paired _ _ _ := nofun
  met _ _ _ := nofun
  circles _ _ := nofun

end Exchange

end Infra
