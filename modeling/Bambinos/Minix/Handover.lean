import Bambinos.Minix.Deadlock
import Bambinos.Minix.TalkFrames

/-!
# Messages are handed over

What the kernel does with messages is what an exchange does, step by step.

* `Ipc.Shows` — the process table and the messages in the memory show an exchange
* `Ipc.Answers` — what the kernel does is answered by steps of the exchange, with the same mail
* `Ipc.miniSend_reply`, `Ipc.miniReceive_answers`, `Ipc.miniNotify_answers` — one for each function
* `Ipc.sysCall_answers` — what `deadlock` lets pass closes no circle
-/

namespace Minix

open Infra

namespace Ipc

variable {α : Type} {st st' : Ipc α} {n n' : Exchange ProcPtr (Message α)}
  {callerPtr dstPtr : ProcPtr} {srcE srcP dstE e : Int} {m : Message α} {nonBlocking : Bool}

/-- The process table and the messages of those who are queued show the exchange. -/
structure Shows (st : Ipc α) (n : Exchange ProcPtr (Message α)) : Prop
    extends Talks st.kernel n where
  message : ∀ d x m, (x, m) ∈ n.queue d →
    m = ⟨(st.kernel.proc x).endpoint, (st.messbuf x).body⟩

/-- The exchange gets from here to there, with the same mail. -/
def Reply (st : Ipc α) (n : Exchange ProcPtr (Message α)) (st' : Ipc α)
    (n' : Exchange ProcPtr (Message α)) : Prop :=
  st'.Shows n' ∧ ∃ k es, Runs Exchange.Step k n es n' ∧ st'.mail = st.mail ++ es

def Answers (st : Ipc α) (n : Exchange ProcPtr (Message α)) (st' : Ipc α) : Prop :=
  ∃ n', st.Reply n st' n'

theorem Reply.nil (h : st'.Shows n) (hmail : st'.mail = st.mail) : st.Reply n st' n :=
  ⟨h, 0, [], .nil n, by rw [hmail, List.append_nil]⟩

theorem Reply.one {es : List (Event ProcPtr (Message α))} (hstep : Exchange.Step n es n')
    (h : st'.Shows n') (hmail : st'.mail = st.mail ++ es) : st.Reply n st' n' :=
  ⟨h, 1, es, .one hstep, hmail⟩

theorem Reply.trans {st'' : Ipc α} (h : st.Reply n st' n') (h' : st'.Answers n' st'') :
    st.Answers n st'' := by
  obtain ⟨-, k, es, hrun, hmail⟩ := h
  obtain ⟨n'', hshows, k', es', hrun', hmail'⟩ := h'
  exact ⟨n'', hshows, k + k', es ++ es', hrun.trans hrun', by
    rw [hmail', hmail, List.append_assoc]⟩

theorem Answers.nil (h : st'.Shows n) (hmail : st'.mail = st.mail) : st.Answers n st' :=
  ⟨n, .nil h hmail⟩

theorem Answers.one {es : List (Event ProcPtr (Message α))} (hstep : Exchange.Step n es n')
    (h : st'.Shows n') (hmail : st'.mail = st.mail ++ es) : st.Answers n st' :=
  ⟨n', .one hstep h hmail⟩

namespace Shows

/-- Whoever is queued has its message still. -/
theorem frame (h : st.Shows n) (ht : Talks st'.kernel n')
    (hqueue : ∀ d c, c ∈ n'.queue d → c ∈ n.queue d)
    (hendpoint : ∀ r, (st'.kernel.proc r).endpoint = (st.kernel.proc r).endpoint)
    (hbuf : ∀ d x m, (x, m) ∈ n'.queue d → st'.messbuf x = st.messbuf x) : st'.Shows n' where
  toTalks := ht
  message d x m hmem := by
    rw [h.message d x m (hqueue d (x, m) hmem), hendpoint, hbuf d x m hmem]

/-- A process that sends to nobody is not queued. -/
theorem ne_of_mem (hok : n.Ok) (hd : n.sends dstPtr = none) {c x : ProcPtr}
    (hx : (x, m) ∈ n.queue c) : x ≠ dstPtr := by
  rintro rfl
  exact hok.not_queued hd hx

theorem of_proc_eq (h : st.Shows n) (hproc : st'.kernel.proc = st.kernel.proc)
    (hbuf : st'.messbuf = st.messbuf) : st'.Shows n := by
  exact h.frame (h.toTalks.of_proc_eq hproc) (fun _ _ => id) (fun r => by rw [hproc])
    fun d x m _ => by rw [hbuf]

end Shows

/-! ## notifications -/

theorem deliverNotice_spec {src : Int} (h : st.deliverNotice src dstPtr = some st') :
    st'.kernel = st.kernel ∧ st'.mail = st.mail ∧
      ∀ x, x ≠ dstPtr → st'.messbuf x = st.messbuf x := by
  unfold deliverNotice at h
  obtain ⟨srcPtr, -, h⟩ := Option.bind_eq_some_iff.mp h
  cases h
  exact ⟨rfl, rfl, fun x hx => Function.update_of_ne hx _ _⟩

theorem miniNotify_answers (hs : Consistent st.kernel) (h : st.Shows n) (hok : n.Ok)
    (hstep : st.miniNotify callerPtr dstPtr = some (e, st')) : st.Answers n st' := by
  unfold miniNotify at hstep
  dsimp only at hstep
  split at hstep
  · next hready =>
    obtain ⟨st₁, hnotice, hstep⟩ := Option.bind_eq_some_iff.mp hstep
    obtain ⟨s, hunset, hstep⟩ := Option.bind_eq_some_iff.mp hstep
    cases hstep
    obtain ⟨-, hmail, hbuf⟩ := deliverNotice_spec hnotice
    have hlive := h.live_of_mem hready.1.1 (by decide)
    have hsends := (h.sends_eq_none_iff hlive).mpr hready.1.2
    refine .one (.rouse hsends) ?_ (hmail.trans (List.append_nil _).symm)
    exact h.frame (h.toTalks.wake hs.runnable hready.1.1 hunset) (fun _ _ => id)
      (unset_spec hs.runnable hready.1.1 hunset).2.1.endpoint
      fun d x m hx => hbuf x (Shows.ne_of_mem hok hsends hx)
  · cases hstep
    exact .nil (h.of_proc_eq rfl rfl) rfl

theorem lockNotify_answers (hs : Consistent st.kernel) (h : st.Shows n) (hok : n.Ok)
    (hstep : st.lockNotify srcE dstE = some (e, st')) : st.Answers n st' := by
  unfold lockNotify at hstep
  split at hstep
  · exact miniNotify_answers hs h hok hstep
  · cases hstep
    exact .nil h rfl

/-! ## sending -/

/-- How a message has been sent. -/
inductive Sent (st : Ipc α) (n : Exchange ProcPtr (Message α)) (callerPtr dstPtr : ProcPtr)
    (m : Message α) : Prop
  | handed (hidle : n.Idle callerPtr) (hdst : n.waits dstPtr = none) (hne : callerPtr ≠ dstPtr)
  | queued (hsends : n.sends callerPtr = some dstPtr) (hhears : n.hears callerPtr = none)
      (hbuf : st.messbuf callerPtr = m)

/-- The message is handed to a process that waits for it. -/
theorem pass_reply {s' : Kernel} (hs : Consistent st.kernel) (h : st.Shows n) (hok : n.Ok)
    (hcaller : (st.kernel.proc callerPtr).rtsFlags = ∅)
    (hready : (.receiving ∈ (st.kernel.proc dstPtr).rtsFlags ∧
        .sending ∉ (st.kernel.proc dstPtr).rtsFlags) ∧
      ((st.kernel.proc dstPtr).getfromE = ANY ∨
        (st.kernel.proc dstPtr).getfromE = (st.kernel.proc callerPtr).endpoint))
    (hunset : unset .receiving dstPtr st.kernel = some s') :
    st.Reply n { (((st.send callerPtr dstPtr m.body).get dstPtr
      ((st.kernel.proc dstPtr).getfromE = ANY) callerPtr m.body).copyMess callerPtr m.body
        dstPtr) with kernel := s' } (n.hear dstPtr none) ∧
      Sent st' (n.hear dstPtr none) callerPtr dstPtr m := by
  have hlive := h.live_of_mem hready.1.1 (by decide)
  have hsends := (h.sends_eq_none_iff hlive).mpr hready.1.2
  obtain ⟨src, hhears, hsource⟩ := h.source hready.1.1
  obtain ⟨haccepts, hsrc⟩ := hsource.accepts hs.numbered hready.2
  have hidle := h.idle hcaller
  have hne : callerPtr ≠ dstPtr := by
    rintro rfl
    rw [hidle.hears] at hhears
    cases hhears
  refine ⟨.one (.pass hidle hsends hhears haccepts
    (m := ⟨(st.kernel.proc callerPtr).endpoint, m.body⟩)) ?_ ?_, .handed ⟨hidle.live, hidle.sends, ?_⟩
      ?_ hne⟩
  · exact h.frame (h.toTalks.wake hs.runnable hready.1.1 hunset) (fun _ _ => id)
      (unset_spec hs.runnable hready.1.1 hunset).2.1.endpoint
      fun d x m hx => Function.update_of_ne (Shows.ne_of_mem hok hsends hx) _ _
  · rw [hsrc]
    unfold copyMess get send
    simp
  · rw [Exchange.hear_of_ne hne, hidle.hears]
  · rw [Exchange.waits_hear_self hsends, Option.getD_none]

theorem miniSend_reply (hs : Consistent st.kernel) (h : st.Shows n) (hok : n.Ok)
    (hcaller : (st.kernel.proc callerPtr).rtsFlags = ∅)
    (hdst : isokendpt st.kernel dstE = some dstPtr)
    (hsafe : n.hears dstPtr = some (some callerPtr) ∧ n.sends dstPtr = none ∨
      callerPtr = dstPtr ∨ ¬ Reaches n.waits dstPtr callerPtr)
    (hstep : st.miniSend callerPtr dstE m nonBlocking = some (e, st')) :
    ∃ n', st.Reply n st' n' ∧ (e = OK → Sent st' n' callerPtr dstPtr m) := by
  obtain ⟨hlive, hendpoint⟩ := h.isokendpt_spec hdst
  unfold miniSend at hstep
  rw [isokendpt_procAddr hdst, Option.bind_eq_bind, Option.bind_some] at hstep
  dsimp only at hstep
  split at hstep
  · cases hstep
    exact ⟨n, .nil h rfl, fun he => absurd he (by decide)⟩
  · split at hstep
    · next hready =>
      obtain ⟨s, hunset, hstep⟩ := Option.bind_eq_some_iff.mp hstep
      cases hstep
      obtain ⟨hreply, hsent⟩ := pass_reply hs h hok hcaller hready hunset
      exact ⟨_, hreply, fun _ => hsent⟩
    · next hready =>
      split at hstep
      · obtain ⟨s₁, hblock, hstep⟩ := Option.bind_eq_some_iff.mp hstep
        obtain ⟨⟨place, z⟩, hseek, hstep⟩ := Option.bind_eq_some_iff.mp hstep
        cases hstep
        have hnot : ∀ src, n.sends dstPtr = none → n.hears dstPtr = some src →
            ¬ Accepts src callerPtr := by
          intro src hsends hhears
          have hreceiving : .receiving ∈ (st.kernel.proc dstPtr).rtsFlags := by
            by_contra hnot
            rw [← h.hears_eq_none_iff hlive, hhears] at hnot
            cases hnot
          obtain ⟨src', hhears', hsource⟩ := h.source hreceiving
          rw [hhears] at hhears'
          cases hhears'
          refine hsource.not_accepts fun hget => hready ⟨⟨hreceiving, ?_⟩, hget⟩
          exact (h.sends_eq_none_iff hlive).mp hsends
        have hsafe' : callerPtr = dstPtr ∨ ¬ Reaches n.waits dstPtr callerPtr := by
          rcases hsafe with ⟨hhears, hsends⟩ | hsafe
          · exact absurd (Or.inr rfl) (hnot _ hsends hhears)
          · exact hsafe
        have hidle := h.idle hcaller
        have hsteady : ∀ r, (((s₁.setProc callerPtr fun r => { r with sendtoE := dstE }).addCaller
            dstPtr place callerPtr).proc r).endpoint = (st.kernel.proc r).endpoint := by
          intro r
          rw [addCaller_field (g := Proc.endpoint) (fun _ _ => rfl) fun _ _ => rfl,
            Kernel.setProc_field (g := Proc.endpoint) rfl]
          exact (block_spec hs.runnable hblock).2.1.endpoint r
        refine ⟨_, .one (.post hidle hlive hnot hsafe'
          (m := ⟨(st.kernel.proc callerPtr).endpoint, m.body⟩)) ⟨?_, ?_⟩ rfl, fun _ =>
            .queued Exchange.send_self hidle.hears (Function.update_self _ _ _)⟩
        · exact h.toTalks.enqueue hok hs hcaller hlive hendpoint hblock hseek
        · intro c x m' hmem
          rw [hsteady]
          by_cases hnew : (x, m') ∈ n.queue c
          · rw [h.message c x m' hnew]
            have hne : x ≠ callerPtr := Shows.ne_of_mem hok hidle.sends hnew
            exact congrArg _ (congrArg Message.body (Function.update_of_ne hne _ _).symm)
          · rcases eq_or_ne c dstPtr with rfl | hc
            · rw [Exchange.send_queue, List.mem_append, List.mem_singleton] at hmem
              cases hmem.resolve_left hnew
              have hself : Function.update st.messbuf callerPtr m callerPtr = m :=
                Function.update_self _ _ _
              exact congrArg _ (congrArg Message.body hself.symm)
            · rw [Exchange.send_queue_of_ne hc] at hmem
              exact absurd hmem hnew
      · cases hstep
        exact ⟨n, .nil h rfl, fun he => absurd he (by decide)⟩

/-- A task does not wait: the message is handed over or refused. -/
theorem lockSend_answers (hs : Consistent st.kernel) (h : st.Shows n) (hok : n.Ok)
    (hcaller : (st.kernel.proc callerPtr).rtsFlags = ∅)
    (hstep : st.lockSend callerPtr dstE m = some (e, st')) : st.Answers n st' := by
  unfold lockSend miniSend at hstep
  obtain ⟨dst, -, hstep⟩ := Option.bind_eq_some_iff.mp hstep
  dsimp only at hstep
  split at hstep
  · cases hstep
    exact .nil h rfl
  · split at hstep
    · next hready =>
      obtain ⟨s, hunset, hstep⟩ := Option.bind_eq_some_iff.mp hstep
      cases hstep
      obtain ⟨hreply, -⟩ : _ ∧ Sent st _ callerPtr dst m :=
        pass_reply hs h hok hcaller hready hunset
      exact ⟨_, hreply⟩
    · rw [Bool.not_true, if_neg Bool.false_ne_true] at hstep
      cases hstep
      exact .nil h rfl

/-! ## receiving -/

/-- The source of a call to receive. -/
theorem source_of_sourceDead {dead : Bool} (h : Talks s n)
    (hdead : sourceDead s srcE = some dead) :
    ∃ src, Source s srcE src ∧ ∀ x, src = some x → n.live x := by
  unfold sourceDead at hdead
  split at hdead
  · next hany => exact ⟨none, .any hany, nofun⟩
  · obtain ⟨x, hx, -⟩ := Option.bind_eq_some_iff.mp hdead
    obtain ⟨hlive, he⟩ := h.isokendpt_spec hx
    refine ⟨some x, .of x he, fun y hy => ?_⟩
    rwa [← Option.some.inj hy]

/-- The process waits. -/
theorem waitMessage_answers {src : Option ProcPtr} {b : Bool} (hs : Consistent st.kernel)
    (h : st.Shows n) (hok : n.Ok) (hsource : Source st.kernel srcE src) (hlive : n.live callerPtr)
    (hbuf : n.sends callerPtr = none ∨ st.messbuf callerPtr = m)
    (hwait : Exchange.Step n [] (n.hear callerPtr (some src)))
    (hstep : st.waitMessage callerPtr srcE m b = some (e, st')) : st.Answers n st' := by
  unfold waitMessage at hstep
  split at hstep
  · obtain ⟨s₁, hblock, hstep⟩ := Option.bind_eq_some_iff.mp hstep
    cases hstep
    refine .one hwait ?_ (List.append_nil _).symm
    have hrun : Runnable (st.kernel.setProc callerPtr fun r => { r with getfromE := srcE }) :=
      hs.runnable.setProc rfl rfl rfl rfl
    refine h.frame (h.toTalks.block hs.runnable hlive hsource hblock) (fun _ _ => id) (fun r => ?_)
      fun d x m' hx => ?_
    · rw [(block_spec hrun hblock).2.1.endpoint]
      exact Kernel.setProc_field (g := Proc.endpoint) rfl r
    · rcases eq_or_ne x callerPtr with rfl | hne
      · rcases hbuf with hsends | hbuf
        · exact absurd hx fun hx => hok.not_queued hsends hx
        · rw [hbuf]
          exact Function.update_self _ _ _
      · exact Function.update_of_ne hne _ _
  · cases hstep
    exact .nil h rfl

/-- The first caller whose message is acceptable. -/
theorem seek_split {src : Option ProcPtr} {place z : Option ProcPtr} (hs : Consistent s)
    (h : Talks s n) (hd : n.live d) (hsource : Source s srcE src)
    (hseek : seekCaller s (fun r => srcE = ANY ∨
      (if srcE = ANY then ANY else endpointP srcE) = (s.proc r).nr) d = some (place, z)) :
    match z with
    | none => ∀ c ∈ n.queue d, ¬ Accepts src c.1
    | some x => ∃ q₁ q₂ m, n.queue d = q₁ ++ (x, m) :: q₂ ∧ Accepts src x ∧
        (∀ c ∈ q₁, ¬ Accepts src c.1) ∧ place = (q₁.map Prod.fst).getLast? := by
  obtain ⟨hplace, hz⟩ := h.queued.seek hd hseek
  have hiff : ∀ r, (srcE = ANY ∨
      (if srcE = ANY then ANY else endpointP srcE) = (s.proc r).nr) ↔ Accepts src r := fun r =>
    hsource.accepts_iff hs.numbered
  rw [List.find?_map] at hz
  cases hfind : (n.queue d).find? ((fun r => decide (srcE = ANY ∨
      (if srcE = ANY then ANY else endpointP srcE) = (s.proc r).nr)) ∘ Prod.fst) with
  | none =>
    rw [hfind] at hz
    subst hz
    intro c hc haccepts
    have hnot := List.find?_eq_none.mp hfind c hc
    rw [Function.comp_apply, decide_eq_true_iff] at hnot
    exact hnot ((hiff c.1).mpr haccepts)
  | some c =>
    rw [hfind] at hz
    subst hz
    obtain ⟨q₁, q₂, hq, htake⟩ := find?_split hfind
    have haccepts := List.find?_some hfind
    rw [Function.comp_apply, decide_eq_true_iff] at haccepts
    refine ⟨q₁, q₂, c.2, hq, (hiff c.1).mp haccepts, fun c' hc' hacc => ?_, ?_⟩
    · rw [← htake] at hc'
      have hnot := List.mem_takeWhile_imp hc'
      rw [Function.comp_apply, Bool.not_eq_true', decide_eq_false_iff_not] at hnot
      exact hnot ((hiff c'.1).mpr hacc)
    · rw [hplace, ← htake, List.takeWhile_map]
      rfl

theorem takeMessage_answers {src : Option ProcPtr} (hs : Consistent st.kernel)
    (h : st.Shows n) (hok : n.Ok) (hsource : Source st.kernel srcE src) (hidle : n.Idle callerPtr)
    (hlive : ∀ x, src = some x → n.live x)
    (hsafe : ∀ x, src = some x → n.sends x = some callerPtr ∨
      callerPtr = x ∨ ¬ Reaches n.waits x callerPtr)
    (hstep : st.takeMessage callerPtr srcE (if srcE = ANY then ANY else endpointP srcE) m nonBlocking =
      some (e, st')) : st.Answers n st' := by
  unfold takeMessage at hstep
  dsimp only at hstep
  obtain ⟨⟨place, z⟩, hseek, hstep⟩ := Option.bind_eq_some_iff.mp hstep
  have hsplit := seek_split hs h.toTalks hidle.live hsource hseek
  cases z with
  | none =>
    refine waitMessage_answers hs h hok hsource hidle.live (Or.inl hidle.sends)
      (.await hidle hsplit hlive fun x hx => ?_) hstep
    rcases hsafe x hx with hsends | hsafe
    · -- a sender that is acceptable would be queued
      rw [hok.queued] at hsends
      obtain ⟨c, hc, hcx⟩ := List.mem_map.mp hsends
      refine absurd (Or.inr ?_) (hsplit c hc)
      rw [hx, hcx]
    · exact hsafe
  | some x =>
    obtain ⟨q₁, q₂, m', hq, haccepts, hfirst, rfl⟩ := hsplit
    obtain ⟨s₁, hunset, hstep⟩ := Option.bind_eq_some_iff.mp hstep
    cases hstep
    have hm' := h.message callerPtr x m' (by rw [hq]; simp)
    have hsrc : src = if srcE = ANY then none else some x := by
      cases hsource with
      | any hany => rw [if_pos hany]
      | of y hy =>
        have hne : srcE ≠ ANY := by
          rw [hy]
          exact endpoint_ne_any hs.numbered y
        rw [if_neg hne]
        exact haccepts.resolve_left nofun
    have hsends : n.sends x = some callerPtr := by
      rw [hok.queued, hq]
      simp
    have hsending : .sending ∈ (st.kernel.proc x).rtsFlags := by
      by_contra hnot
      rw [← h.sends_eq_none_iff (hok.sender x callerPtr hsends).1, hsends] at hnot
      cases hnot
    refine .one (.take hidle hq haccepts hfirst) ?_ ?_
    · have hsub : ∀ d c, c ∈ (n.send x none callerPtr (q₁ ++ q₂)).queue d → c ∈ n.queue d := by
        intro d c hc
        rcases eq_or_ne d callerPtr with rfl | hd
        · rw [Exchange.send_queue] at hc
          rw [hq]
          simp only [List.mem_append, List.mem_cons] at hc ⊢
          exact hc.imp id Or.inr
        · rwa [Exchange.send_queue_of_ne hd] at hc
      refine h.frame (h.toTalks.release hok hs hidle.live hq hunset) hsub (fun r => ?_)
        fun d y m₁ hy => Function.update_of_ne
          (Shows.ne_of_mem hok hidle.sends (hsub d (y, m₁) hy)) _ _
      rw [setCallerLink_field (g := Proc.endpoint) (fun _ _ => rfl) fun _ _ => rfl]
      exact (unset_spec hs.runnable hsending hunset).2.1.endpoint r
    · rw [hsrc, hm']
      unfold copyMess get
      simp

/-- `mini_receive`, called by a process that does not send. -/
theorem miniReceive_answers (hs : Consistent st.kernel) (h : st.Shows n) (hok : n.Ok)
    (hidle : n.Idle callerPtr)
    (hsafe : ∀ x, srcE = (st.kernel.proc x).endpoint → n.sends x = some callerPtr ∨
      callerPtr = x ∨ ¬ Reaches n.waits x callerPtr)
    (hstep : st.miniReceive callerPtr srcE m nonBlocking = some (e, st')) : st.Answers n st' := by
  unfold miniReceive at hstep
  obtain ⟨dead, hdead, hstep⟩ := Option.bind_eq_some_iff.mp hstep
  obtain ⟨src, hsource, hlive⟩ := source_of_sourceDead h.toTalks hdead
  have hsafe' : ∀ x, src = some x → n.sends x = some callerPtr ∨
      callerPtr = x ∨ ¬ Reaches n.waits x callerPtr := by
    rintro x rfl
    cases hsource with
    | of _ hx => exact hsafe x hx
  have hsending := (h.sends_eq_none_iff hidle.live).mp hidle.sends
  dsimp only at hstep
  split at hstep
  · cases hstep
    exact .nil h rfl
  · split at hstep
    · -- the message at the caller is a notification now
      next srcId _ =>
      obtain ⟨st₁, hnotice, hstep⟩ := Option.bind_eq_some_iff.mp hstep
      cases hstep
      obtain ⟨hkernel, hmail, hbuf⟩ := deliverNotice_spec hnotice
      have hproc : st'.kernel.proc = st.kernel.proc := by
        rw [hkernel]
        rfl
      refine .nil (h.frame (h.toTalks.of_proc_eq hproc) (fun _ _ => id) (fun r => by rw [hproc])
        fun d x m hx => hbuf x (Shows.ne_of_mem hok hidle.sends hx)) hmail
    · exact takeMessage_answers hs h hok hsource hidle hlive hsafe' hstep

/-- `mini_receive`, called by a process that waits for the answer to what it sends. -/
theorem miniReceive_expects (hs : Consistent st.kernel) (h : st.Shows n) (hok : n.Ok)
    (hsends : n.sends callerPtr = some dstPtr) (hhears : n.hears callerPtr = none)
    (hbuf : st.messbuf callerPtr = m) (hdst : srcE = (st.kernel.proc dstPtr).endpoint)
    (hstep : st.miniReceive callerPtr srcE m nonBlocking = some (e, st')) : st.Answers n st' := by
  unfold miniReceive at hstep
  obtain ⟨dead, hdead, hstep⟩ := Option.bind_eq_some_iff.mp hstep
  obtain ⟨src, hsource, -⟩ := source_of_sourceDead h.toTalks hdead
  rw [hsource.eq hs.numbered hdst] at hsource
  have hlive := (hok.sender callerPtr dstPtr hsends).1
  dsimp only at hstep
  split at hstep
  · cases hstep
    exact .nil h rfl
  · split at hstep
    · next hsending =>
      rw [← h.sends_eq_none_iff hlive, hsends] at hsending
      cases hsending
    · exact waitMessage_answers hs h hok hsource hlive (Or.inr hbuf) (.expect hsends hhears) hstep

/-! ## `sys_call` -/

theorem checks_deadlock {function : Nat} {pointerOk : Bool} (hecho : function ≠ ECHO)
    (hcheck : function &&& CHECK_DEADLOCK ≠ 0) (hany : srcE ≠ ANY)
    (h : st.checks callerPtr function srcE pointerOk = some OK) :
    deadlock st.kernel function callerPtr (endpointP srcE) = some 0 := by
  unfold checks at h
  dsimp only at h
  split at h
  · exact absurd (Option.some.inj h) (by decide)
  · rw [if_pos (⟨hany, hecho⟩ : srcE ≠ ANY ∧ function ≠ ECHO)] at h
    split at h
    · exact absurd (Option.some.inj h) (by decide)
    · split at h
      · exact absurd (Option.some.inj h) (by decide)
      · have hgroup : ∀ denied : Bool, (if denied then some ECALLDENIED else do
            let groupSize ← deadlock st.kernel function callerPtr (endpointP srcE)
            some (if groupSize ≠ 0 then ELOCKED else OK)) = some OK →
              deadlock st.kernel function callerPtr (endpointP srcE) = some 0 := by
          intro denied h
          split at h
          · exact absurd (Option.some.inj h) (by decide)
          · obtain ⟨k, hk, h⟩ := Option.bind_eq_some_iff.mp h
            split at h
            · exact absurd (Option.some.inj h) (by decide)
            · next hzero =>
              rw [not_not.mp hzero] at hk
              exact hk
        split at h
        · obtain ⟨denied, -, h⟩ := Option.bind_eq_some_iff.mp h
          exact hgroup denied h
        · exact hgroup false h

/-- The number of a function. -/
def trapOf : Function → Nat
  | .send => SEND
  | .receive => RECEIVE
  | .sendrec => SENDREC
  | .notify => NOTIFY
  | .echo => ECHO

theorem functionOf_val {k : Nat} {function : Function} (h : functionOf k = some function) :
    k = trapOf function := by
  unfold functionOf at h
  repeat' split at h
  all_goals
    cases h <;> assumption

/-- What a call to send is checked for. -/
theorem sends_safe {d : ProcPtr} {k : Nat} (h : st.Shows n) (hk : k = SEND ∨ k = SENDREC) (hd : n.live d)
    (hsafe : n.waits d = some callerPtr ∧ Meet st.kernel k d ∨ d = callerPtr ∨
      ¬ Reaches n.waits d callerPtr) :
    n.hears d = some (some callerPtr) ∧ n.sends d = none ∨ callerPtr = d ∨
      ¬ Reaches n.waits d callerPtr := by
  rcases hsafe with ⟨hwaits, hmeet⟩ | rfl | hsafe
  · have hsends : n.sends d = none := by
      rw [h.sends_eq_none_iff hd]
      intro hsending
      unfold Meet at hmeet
      rw [if_pos hsending] at hmeet
      rcases hk with rfl | rfl <;> exact hmeet (by decide)
    rw [Exchange.waits_of_not_sends hsends] at hwaits
    cases hhears : n.hears d with
    | none =>
      rw [hhears] at hwaits
      cases hwaits
    | some src =>
      rw [hhears, Option.getD_some] at hwaits
      exact Or.inl ⟨by rw [hwaits], hsends⟩
  · exact Or.inr (Or.inl rfl)
  · exact Or.inr (Or.inr hsafe)

/-- What a call to receive is checked for. -/
theorem receives_safe {d : ProcPtr} (h : st.Shows n) (hd : n.live d)
    (hsafe : n.waits d = some callerPtr ∧ Meet st.kernel RECEIVE d ∨ d = callerPtr ∨
      ¬ Reaches n.waits d callerPtr) :
    n.sends d = some callerPtr ∨ callerPtr = d ∨ ¬ Reaches n.waits d callerPtr := by
  rcases hsafe with ⟨hwaits, hmeet⟩ | rfl | hsafe
  · cases hsends : n.sends d with
    | none =>
      rw [h.sends_eq_none_iff hd] at hsends
      unfold Meet at hmeet
      rw [if_neg hsends] at hmeet
      exact absurd (by decide) hmeet
    | some c =>
      rw [Exchange.waits_of_sends hsends] at hwaits
      exact Or.inl hwaits
  · exact Or.inr (Or.inl rfl)
  · exact Or.inr (Or.inr hsafe)

theorem setReplyPending_kernel {b : Bool} : (st.setReplyPending callerPtr b).kernel =
    st.kernel.setProc callerPtr fun r => { r with replyPending := b } := rfl

theorem setReplyPending_field {b : Bool} {β : Type} {g : Proc → β}
    (hg : ∀ r b, g { r with replyPending := b } = g r) (r : ProcPtr) :
    g ((st.setReplyPending callerPtr b).kernel.proc r) = g (st.kernel.proc r) := by
  rw [setReplyPending_kernel]
  exact Kernel.setProc_field (g := g) (hg _ _) r

theorem setReplyPending_consistent {b : Bool} (hs : Consistent st.kernel) :
    Consistent (st.setReplyPending callerPtr b).kernel := by
  rw [setReplyPending_kernel]
  exact hs.setProc rfl

theorem setReplyPending_shows {b : Bool} (h : st.Shows n) :
    (st.setReplyPending callerPtr b).Shows n := by
  have hflags : ∀ r, ((st.setReplyPending callerPtr b).kernel.proc r).rtsFlags =
      (st.kernel.proc r).rtsFlags := setReplyPending_field (g := Proc.rtsFlags) fun _ _ => rfl
  have hsame : SameTalk st.kernel (st.setReplyPending callerPtr b).kernel := by
    refine ⟨fun p => ?_, fun p => ?_, fun p => ?_, fun p => ?_,
      setReplyPending_field fun _ _ => rfl, setReplyPending_field fun _ _ => rfl,
      setReplyPending_field fun _ _ => rfl, setReplyPending_field fun _ _ => rfl,
      setReplyPending_field fun _ _ => rfl⟩
    all_goals rw [hflags]
    exact h.tidy p
  exact h.frame (h.toTalks.same hsame) (fun _ _ => id) hsame.endpoint fun _ _ _ _ => rfl

theorem miniSend_endpoint {s s' : Kernel}
    (h : Minix.miniSend callerPtr dstE nonBlocking s = some (e, s')) (r : ProcPtr) :
    (s'.proc r).endpoint = (s.proc r).endpoint := by
  unfold Minix.miniSend at h
  obtain ⟨dst, -, h⟩ := Option.bind_eq_some_iff.mp h
  dsimp only at h
  split at h
  · cases h
    rfl
  · split at h
    · obtain ⟨s₁, hunset, h⟩ := Option.bind_eq_some_iff.mp h
      cases h
      exact unset_field (g := Proc.endpoint) (fun _ _ _ _ _ => rfl) hunset r
    · split at h
      · obtain ⟨s₁, hblock, h⟩ := Option.bind_eq_some_iff.mp h
        obtain ⟨place, -, h⟩ := Option.bind_eq_some_iff.mp h
        cases h
        rw [addCaller_field (g := Proc.endpoint) (fun _ _ => rfl) fun _ _ => rfl,
          Kernel.setProc_field (g := Proc.endpoint) rfl]
        exact block_field (g := Proc.endpoint) (fun _ _ _ _ _ => rfl) hblock r
      · cases h
        rfl

/-- What `sys_call` has checked of a call that may block. -/
theorem checks_safe {k : Nat} {d : ProcPtr} {pointerOk : Bool} (hs : Consistent st.kernel)
    (h : st.Shows n) (hok : n.Ok) (hidle : n.Idle callerPtr) (hecho : k ≠ ECHO)
    (hcheck : k &&& CHECK_DEADLOCK ≠ 0) (hd : n.live d) (hendpoint : srcE = (st.kernel.proc d).endpoint)
    (hchecks : st.checks callerPtr k srcE pointerOk = some OK) :
    n.waits d = some callerPtr ∧ Meet st.kernel k d ∨ d = callerPtr ∨
      ¬ Reaches n.waits d callerPtr := by
  have hany : srcE ≠ ANY := by
    rw [hendpoint]
    exact endpoint_ne_any hs.numbered d
  have hzero := checks_deadlock hecho hcheck hany hchecks
  rw [hendpoint, endpointP_endpoint hs.numbered] at hzero
  exact deadlock_safe h.toTalks hok hs.numbered hd hidle.waits hzero

theorem checks_destination {k : Nat} {pointerOk : Bool} {s₁ : Kernel} {result : Int × Kernel}
    (hecho : k ≠ ECHO) (hchecks : st.checks callerPtr k srcE pointerOk = some OK)
    (hsend : Minix.miniSend callerPtr srcE nonBlocking s₁ = some result) :
    ∃ d, isokendpt st.kernel srcE = some d :=
  exists_destination (fun hnot => checks_endpoint hchecks ⟨hnot.1, hecho, hnot.2⟩) hsend

/-- The first half of a call that sends and waits for the answer. -/
theorem sendrec_reply {pointerOk : Bool} {st₁ : Ipc α} {result : Int} (hs : Consistent st.kernel)
    (h : st.Shows n) (hok : n.Ok) (hcaller : (st.kernel.proc callerPtr).rtsFlags = ∅)
    (hchecks : st.checks callerPtr SENDREC dstE pointerOk = some OK)
    (hsend : (st.setReplyPending callerPtr true).miniSend callerPtr dstE m nonBlocking =
      some (result, st₁)) :
    ∃ d n₁, (st.setReplyPending callerPtr true).Reply n st₁ n₁ ∧ Consistent st₁.kernel ∧ n₁.Ok ∧
      dstE = (st₁.kernel.proc d).endpoint ∧ (result = OK → Sent st₁ n₁ callerPtr d m) := by
  obtain ⟨d, hd⟩ := checks_destination (by decide) hchecks (miniSend_kernel hsend)
  obtain ⟨hlive, hendpoint⟩ := h.isokendpt_spec hd
  have hsafe := sends_safe h (Or.inr rfl) hlive
    (checks_safe hs h hok (h.idle hcaller) (by decide) (by decide) hlive hendpoint hchecks)
  have hs₁ : Consistent (st.setReplyPending callerPtr true).kernel :=
    setReplyPending_consistent hs
  have h₁ : (st.setReplyPending callerPtr true).Shows n := setReplyPending_shows h
  have hd₁ : isokendpt (st.setReplyPending callerPtr true).kernel dstE = some d := by
    rw [← hd]
    exact isokendpt_congr (setReplyPending_field (g := Proc.endpoint) fun _ _ => rfl)
      (setReplyPending_field (g := Proc.rtsFlags) fun _ _ => rfl)
  have hcaller₁ : ((st.setReplyPending callerPtr true).kernel.proc callerPtr).rtsFlags = ∅ := by
    rw [← hcaller]
    exact setReplyPending_field (g := Proc.rtsFlags) (fun _ _ => rfl) callerPtr
  obtain ⟨n₁, hreply, hsent⟩ := miniSend_reply hs₁ h₁ hok hcaller₁ hd₁ hsafe hsend
  have hok₁ : n₁.Ok := by
    obtain ⟨-, k, es, hrun, -⟩ := hreply
    exact hok.run hrun
  refine ⟨d, n₁, hreply, (hs₁.miniSend hcaller₁ hd₁ (miniSend_kernel hsend)).1, hok₁, ?_, hsent⟩
  rw [miniSend_endpoint (miniSend_kernel hsend), (h₁.isokendpt_spec hd₁).2]

/-- A message is sent and the answer waited for. -/
theorem sendrec_answers {pointerOk : Bool} {st₁ : Ipc α} {result : Int} (hs : Consistent st.kernel)
    (h : st.Shows n) (hok : n.Ok) (hcaller : (st.kernel.proc callerPtr).rtsFlags = ∅)
    (hchecks : st.checks callerPtr SENDREC dstE pointerOk = some OK)
    (hsend : (st.setReplyPending callerPtr true).miniSend callerPtr dstE m nonBlocking =
      some (result, st₁))
    (hreceive : (if result ≠ OK then some (result, st₁) else
      st₁.miniReceive callerPtr dstE m nonBlocking) = some (e, st')) :
    (st.setReplyPending callerPtr true).Answers n st' := by
  obtain ⟨d, n₁, hreply, hs₁, hok₁, hendpoint, hsent⟩ :=
    sendrec_reply hs h hok hcaller hchecks hsend
  split at hreceive
  · cases hreceive
    exact ⟨n₁, hreply⟩
  · next hresult =>
    have hsent := hsent (not_not.mp hresult)
    refine hreply.trans ?_
    cases hsent with
    | handed hidle hwaits hne =>
      refine miniReceive_answers hs₁ hreply.1 hok₁ hidle (fun x hx => ?_) hreceive
      have hxd : x = d := hs₁.numbered.endpoint_inj (hx.symm.trans hendpoint)
      refine Or.inr (Or.inr fun hreach => hne ?_)
      rw [hxd] at hreach
      exact hreach.eq_of_none hwaits
    | queued hsends hhears hbuf =>
      exact miniReceive_expects hs₁ hreply.1 hok₁ hsends hhears hbuf hendpoint hreceive

/-- **`sys_call`** does what an exchange does. -/
theorem sysCall_answers {callNr : Nat} {pointerOk : Bool} (hs : Consistent st.kernel)
    (h : st.Shows n) (hok : n.Ok) (hcaller : (st.kernel.proc callerPtr).rtsFlags = ∅)
    (hstep : st.sysCall callerPtr callNr srcE m pointerOk = some (e, st')) : st.Answers n st' := by
  have hidle := h.idle hcaller
  rcases sysCall_cases hstep with rfl | ⟨function, nonBlocking, hchecks, hfunction, hperform, -⟩
  · exact .nil h rfl
  · rw [functionOf_val hfunction] at hchecks
    unfold perform at hperform
    cases function with
    | send =>
      obtain ⟨d, hd⟩ := checks_destination (by decide) hchecks (miniSend_kernel hperform)
      obtain ⟨hlive, hendpoint⟩ := h.isokendpt_spec hd
      have hsends := sends_safe h (Or.inl rfl) hlive
        (checks_safe hs h hok hidle (by decide) (by decide) hlive hendpoint hchecks)
      obtain ⟨n', hreply, -⟩ := miniSend_reply hs h hok hcaller hd hsends hperform
      exact ⟨n', hreply⟩
    | receive =>
      have hs₁ : Consistent (st.setReplyPending callerPtr false).kernel :=
        setReplyPending_consistent hs
      have h₁ : (st.setReplyPending callerPtr false).Shows n := setReplyPending_shows h
      refine (Reply.nil h₁ rfl).trans (miniReceive_answers hs₁ h₁ hok hidle ?_ hperform)
      intro x hx
      rw [setReplyPending_field (g := Proc.endpoint) fun _ _ => rfl] at hx
      have hany : srcE ≠ ANY := by
        rw [hx]
        exact endpoint_ne_any hs.numbered x
      obtain ⟨d, hd⟩ := Option.ne_none_iff_exists'.mp fun hnone =>
        checks_endpoint hchecks ⟨hany, by decide, hnone⟩
      obtain ⟨hlive, hendpoint⟩ := h.isokendpt_spec hd
      have hxd : x = d := hs.numbered.endpoint_inj (hx.symm.trans hendpoint)
      rw [hxd]
      exact receives_safe h hlive
        (checks_safe hs h hok hidle (by decide) (by decide) hlive hendpoint hchecks)
    | sendrec =>
      obtain ⟨⟨result, st₁⟩, hsend, hperform⟩ := Option.bind_eq_some_iff.mp hperform
      have h₁ : (st.setReplyPending callerPtr true).Shows n := setReplyPending_shows h
      exact (Reply.nil h₁ rfl).trans (sendrec_answers hs h hok hcaller hchecks hsend hperform)
    | notify =>
      obtain ⟨d, -, hperform⟩ := Option.bind_eq_some_iff.mp hperform
      exact miniNotify_answers hs h hok hperform
    | echo =>
      cases hperform
      exact .nil (h.frame h.toTalks (fun _ _ => id) (fun _ => rfl) fun d x m hx =>
        Function.update_of_ne (Shows.ne_of_mem hok hidle.sends hx) _ _) rfl

end Ipc

end Minix
