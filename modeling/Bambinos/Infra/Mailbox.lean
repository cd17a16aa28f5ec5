import Bambinos.Infra.Exchange

/-!
# Mailboxes

What is waiting at a process, as what has happened makes it.

* `Mailbox` — the mail is kept in the order in which it was sent, and what is got is the first message
  that is acceptable
* `Mailbox.accounted` — what was sent is what was got and what is waiting
* `Exchange.Ok.mailbox_run` — the queues of an exchange are such mailboxes
-/

namespace Infra

variable {P M : Type} {log es : List (Event P M)} {q q₁ q₂ : List (P × M)} {src : Option P}
  {x y c d : P} {m : M} {e : Event P M}

theorem filterMap_concat {β : Type} {f : Event P M → Option β} :
    (log ++ [e]).filterMap f = log.filterMap f ++ (f e).toList := by
  rw [List.filterMap_append]
  cases h : f e <;> simp [h]

variable [DecidableEq P]

/-- The mail that is waiting at `d` behind what has happened. -/
inductive Mailbox (d : P) : List (Event P M) → List (P × M) → Prop
  | nil : Mailbox d [] []
  | sent {log : List (Event P M)} {q : List (P × M)} {x : P} {m : M} (h : Mailbox d log q) :
      Mailbox d (log ++ [.sent x d m]) (q ++ [(x, m)])
  | got {log : List (Event P M)} {q₁ q₂ : List (P × M)} {src : Option P} {x : P} {m : M}
      (h : Mailbox d log (q₁ ++ (x, m) :: q₂)) (hsrc : Accepts src x)
      (hfirst : ∀ c ∈ q₁, ¬ Accepts src c.1) : Mailbox d (log ++ [.got d src x m]) (q₁ ++ q₂)
  | gone {log : List (Event P M)} {q : List (P × M)} {x : P} (h : Mailbox d log q) (hx : x ≠ d) :
      Mailbox d (log ++ [.gone x]) (q.filter fun c => c.1 ≠ x)
  | closed {log : List (Event P M)} {q : List (P × M)} (h : Mailbox d log q) :
      Mailbox d (log ++ [.gone d]) []
  | sentElse {log : List (Event P M)} {q : List (P × M)} {x c : P} {m : M} (h : Mailbox d log q)
      (hc : c ≠ d) : Mailbox d (log ++ [.sent x c m]) q
  | gotElse {log : List (Event P M)} {q : List (P × M)} {src : Option P} {x c : P} {m : M}
      (h : Mailbox d log q) (hc : c ≠ d) : Mailbox d (log ++ [.got c src x m]) q

/-! ## what was sent and what was got -/

/-- What `x` sent to `d`. -/
def sentTo (x d : P) : Event P M → Option M
  | .sent y c m => if y = x ∧ c = d then some m else none
  | _ => none

/-- What `d` got from `x`. -/
def gotFrom (x d : P) : Event P M → Option M
  | .got c _ y m => if y = x ∧ c = d then some m else none
  | _ => none

/-- What is waiting of `x`. -/
def waitingOf (x : P) (q : List (P × M)) : List M :=
  q.filterMap fun c => if c.1 = x then some c.2 else none

theorem waitingOf_append : waitingOf x (q₁ ++ q₂) = waitingOf x q₁ ++ waitingOf x q₂ :=
  List.filterMap_append

theorem waitingOf_of_not_mem (h : ∀ c ∈ q, c.1 ≠ x) : waitingOf x q = [] := by
  unfold waitingOf
  rw [List.filterMap_eq_nil_iff]
  intro c hc
  rw [if_neg (h c hc)]

/-- A sender that is queued once at most has one message waiting at most. -/
theorem waitingOf_of_nodup (hq : (q.map Prod.fst).Nodup) (hm : ∀ m', (x, m') ∈ q → m' = m) :
    waitingOf x q = if x ∈ q.map Prod.fst then [m] else [] := by
  induction q with
  | nil => rfl
  | cons c q ih =>
    rw [List.map_cons, List.nodup_cons] at hq
    have hrest := ih hq.2 fun m' hm' => hm m' (List.mem_cons_of_mem _ hm')
    rw [List.map_cons]
    rcases eq_or_ne c.1 x with rfl | hne
    · rw [if_neg hq.1] at hrest
      have hc : c.2 = m := hm c.2 List.mem_cons_self
      rw [if_pos List.mem_cons_self, ← hc]
      unfold waitingOf at hrest ⊢
      rw [List.filterMap_cons, if_pos rfl, hrest]
    · unfold waitingOf at hrest ⊢
      rw [List.filterMap_cons, if_neg hne, hrest]
      simp only [List.mem_cons, hne.symm, false_or]

/-- The first acceptable message is the first one of its sender. -/
theorem waitingOf_got (hsrc : Accepts src x) (hfirst : ∀ c ∈ q₁, ¬ Accepts src c.1) :
    waitingOf y (q₁ ++ (x, m) :: q₂) = (if x = y then [m] else []) ++ waitingOf y (q₁ ++ q₂) := by
  rw [waitingOf_append, waitingOf_append]
  by_cases hxy : x = y
  · subst hxy
    have hnone : waitingOf x q₁ = [] := by
      refine waitingOf_of_not_mem fun c hc he => hfirst c hc ?_
      rwa [he]
    rw [hnone, if_pos rfl]
    simp [waitingOf]
  · rw [if_neg hxy]
    simp [waitingOf, hxy]

theorem waitingOf_gone : (waitingOf y (q.filter fun c => c.1 ≠ x)).Sublist (waitingOf y q) :=
  List.filter_sublist.filterMap _

theorem waitingOf_concat : waitingOf x (q ++ [(y, m)]) =
    waitingOf x q ++ (if y = x then some m else none).toList := by
  rw [waitingOf_append]
  unfold waitingOf
  by_cases h : y = x <;> simp [h]

/-- What one message that is got does to the two sides of the account. -/
theorem gotFrom_append (hsrc : Accepts src y) (hfirst : ∀ c ∈ q₁, ¬ Accepts src c.1) :
    (log ++ [Event.got d src y m]).filterMap (gotFrom x d) ++ waitingOf x (q₁ ++ q₂) =
      log.filterMap (gotFrom x d) ++ waitingOf x (q₁ ++ (y, m) :: q₂) := by
  rw [filterMap_concat, waitingOf_got hsrc hfirst, List.append_assoc]
  unfold gotFrom
  by_cases h : y = x <;> simp [h]

namespace Mailbox

/-- Every message that is got or waiting has been sent, once and in this order. -/
theorem sublist (h : Mailbox d log q) :
    (log.filterMap (gotFrom x d) ++ waitingOf x q).Sublist (log.filterMap (sentTo x d)) := by
  induction h with
  | nil => exact List.Sublist.refl _
  | @sent log q y m h ih =>
    rw [filterMap_concat, filterMap_concat, waitingOf_concat]
    simpa [gotFrom, sentTo] using ih.append_right _
  | got h hsrc hfirst ih =>
    rw [gotFrom_append hsrc hfirst, filterMap_concat]
    simpa [sentTo] using ih
  | @gone log q y h hy ih =>
    rw [filterMap_concat, filterMap_concat]
    have hsub : (log.filterMap (gotFrom x d) ++ waitingOf x (q.filter fun c => c.1 ≠ y)).Sublist
        (log.filterMap (gotFrom x d) ++ waitingOf x q) :=
      (List.Sublist.refl _).append waitingOf_gone
    simpa [gotFrom, sentTo] using hsub.trans ih
  | closed h ih =>
    rw [filterMap_concat, filterMap_concat]
    have hsub := (List.prefix_append _ _).sublist.trans ih
    simpa [gotFrom, sentTo, waitingOf] using hsub
  | sentElse h hc ih =>
    rw [filterMap_concat, filterMap_concat]
    simpa [gotFrom, sentTo, hc] using ih
  | gotElse h hc ih =>
    rw [filterMap_concat, filterMap_concat]
    simpa [gotFrom, sentTo, hc] using ih

/-- While both are there, what was sent is what was got and what is waiting. -/
theorem accounted (h : Mailbox d log q) (hx : .gone x ∉ log) (hd : .gone d ∉ log) :
    log.filterMap (sentTo x d) = log.filterMap (gotFrom x d) ++ waitingOf x q := by
  induction h with
  | nil => rfl
  | @sent log q y m h ih =>
    simp only [List.mem_append, not_or] at hx hd
    rw [filterMap_concat, filterMap_concat, waitingOf_concat, ih hx.1 hd.1]
    simp [gotFrom, sentTo]
  | got h hsrc hfirst ih =>
    simp only [List.mem_append, not_or] at hx hd
    rw [gotFrom_append hsrc hfirst, filterMap_concat, ih hx.1 hd.1]
    simp [sentTo]
  | @gone log q y h hy ih =>
    simp only [List.mem_append, List.mem_singleton, not_or, Event.gone.injEq] at hx hd
    have hsame : waitingOf x (q.filter fun c => c.1 ≠ y) = waitingOf x q := by
      unfold waitingOf
      rw [List.filterMap_filter]
      refine List.filterMap_congr fun c _ => ?_
      by_cases hc : c.1 = x
      · simp [hc, hx.2]
      · simp [hc]
    rw [filterMap_concat, filterMap_concat, hsame, ih hx.1 hd.1]
    simp [gotFrom, sentTo]
  | closed => simp at hd
  | sentElse h hc ih =>
    simp only [List.mem_append, not_or] at hx hd
    rw [filterMap_concat, filterMap_concat, ih hx.1 hd.1]
    simp [gotFrom, sentTo, hc]
  | gotElse h hc ih =>
    simp only [List.mem_append, not_or] at hx hd
    rw [filterMap_concat, filterMap_concat, ih hx.1 hd.1]
    simp [gotFrom, sentTo, hc]

end Mailbox

/-! ## the queues of an exchange -/

namespace Exchange

variable {n n' : Exchange P M}

theorem mailbox_send {dst : Option P} (hq : Mailbox d es q)
    (helse : ∀ c ≠ d, Mailbox c es (n.queue c)) (c : P) :
    Mailbox c es ((n.send x dst d q).queue c) := by
  rcases eq_or_ne c d with rfl | hcd
  · rwa [send_queue]
  · rw [send_queue_of_ne hcd]
    exact helse c hcd

/-- **One step.** -/
theorem Ok.mailbox_step (h : Ok n) (hbox : ∀ d, Mailbox d log (n.queue d)) (hstep : Step n es n') :
    ∀ d, Mailbox d (log ++ es) (n'.queue d) := by
  cases hstep with
  | @pass x d src m hx hsends hhears hsrc =>
    intro c
    rw [show log ++ [.sent x d m, .got d src x m] = log ++ [.sent x d m] ++ [.got d src x m] by
      simp]
    rcases eq_or_ne d c with rfl | hdc
    · have hsent : Mailbox d (log ++ [.sent x d m]) (n.queue d ++ (x, m) :: []) := (hbox d).sent
      have hgot := hsent.got hsrc (h.met d src hsends hhears)
      rwa [List.append_nil] at hgot
    · exact ((hbox c).sentElse hdc).gotElse hdc
  | post => exact mailbox_send (hbox _).sent fun c hc => (hbox c).sentElse hc.symm
  | @take x d src m q₁ q₂ hd hq hsrc hfirst =>
    have hqd := hbox d
    rw [hq] at hqd
    exact mailbox_send (hqd.got hsrc hfirst) fun c hc => (hbox c).gotElse hc.symm
  | await | expect | rouse =>
    rw [List.append_nil]
    exact hbox
  | @copy p c hp hsends hc =>
    rw [List.append_nil]
    intro d
    rcases eq_or_ne d c with rfl | hdc
    · have hempty : n.queue d = [] := by
        rw [← List.map_eq_nil_iff (f := Prod.fst), List.eq_nil_iff_forall_not_mem]
        intro y hy
        rw [← h.queued] at hy
        exact hc (h.sender y d hy).2
      have hd := hbox d
      rw [hempty] at hd
      simpa [Exchange.copy] using hd
    · simpa [Exchange.copy, hdc] using hbox d
  | @leave x hx =>
    intro d
    unfold Exchange.leave
    dsimp only
    split
    · next hd =>
      subst hd
      exact (hbox d).closed
    · next hd => exact (hbox d).gone (Ne.symm hd)

/-- **The queues are mailboxes** in every run. -/
theorem Ok.mailbox_run {k : Nat} (h : Ok n) (hbox : ∀ d, Mailbox d log (n.queue d))
    (hrun : Runs Step k n es n') : ∀ d, Mailbox d (log ++ es) (n'.queue d) := by
  induction hrun generalizing log with
  | nil =>
    rw [List.append_nil]
    exact hbox
  | cons hstep _ ih =>
    rw [← List.append_assoc]
    exact ih (h.step hstep) (h.mailbox_step hbox hstep)

end Exchange

end Infra
