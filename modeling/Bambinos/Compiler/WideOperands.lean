import Bambinos.Compiler.ConstantRuns

/-!
# Wide operands inside of a condition

The third operand of a chain is an expression of its own, which takes the rest of a condition along
that follows the chain.

* `GoesOn` — the tokens at which a sum ends, but no expression
* `Leaves` — how many tokens are left at most where a production returns
* `expression_passes` — an expression in front of such a token passes it
* `term_passes` — so does a sum that is wide
-/

namespace Compiler.Folding

open Infra
open Compiler.Parser

variable {α : Type} {n k fuel : Nat} {s : ParserState} {l : Lexeme} {more : List Lexeme}
  {vec : List FixUps} {op : Operation} {x : Int}

/-- A token that ends a sum, but no expression. -/
def GoesOn (id : TokenID) : Prop := id.startSetRelation = true ∨ id = .tAnd ∨ id = .tOr

theorem GoesOn.endsTerm {id : TokenID} (h : GoesOn id) : EndsTerm id := by
  rcases h with h | rfl | rfl
  · cases id
    case tEql | tNot | tGtr | tLeq | tLss | tGeq =>
      exact ⟨⟨by decide, by decide, by decide, by decide⟩, by decide, by decide⟩
    all_goals cases h
  · exact ⟨⟨by decide, by decide, by decide, by decide⟩, by decide, by decide⟩
  · exact ⟨⟨by decide, by decide, by decide, by decide⟩, by decide, by decide⟩

theorem GoesOn.ne_eof {id : TokenID} (h : GoesOn id) : id ≠ .tEof := by
  rintro rfl
  rcases h with h | h | h <;> cases h

/-! ## what is left -/

/-- At most `k` tokens are left where a production returns. -/
def Leaves (k : Nat) (_ : α) (s : ParserState) : Prop := Within s k

theorem leaves_of_endsFrom {m : P α} {e : Nat} (h : EndsFrom m m s k e) :
    Yields m s True (Leaves k) := by
  cases hm : m s with
  | ok a s' => exact .ok hm (h.returns hm)
  | error e s' => exact .error hm trivial

theorem leaves_of_ends {m : P α} (h : Ends k m m) (hs : Within s k) :
    Yields m s True (Leaves k) := leaves_of_endsFrom (h s hs)

theorem within_of_ahead (h : s.ahead = l :: more) (hb : s.countTLBRACES ≤ 2) :
    Within s (more.length + 1) := by
  refine ⟨?_, hb⟩
  have hlen := congrArg List.length h
  simp only [ParserState.ahead, List.length_map, List.length_cons] at hlen
  have hcounted := s.currentToken.counted_le
  unfold ParserState.left
  omega

/-- In front of a token that is not the end of the file, it is one of those that are left. -/
theorem not_within_of_ahead (h : s.ahead = l :: more) (hl : l.1 ≠ .tEof) :
    ¬ Within s more.length := by
  intro hs
  have hlen := congrArg List.length h
  simp only [ParserState.ahead, List.length_map, List.length_cons] at hlen
  have hleft := hs.left
  unfold ParserState.left at hleft
  rw [Ident.counted_eq (by rwa [ParserState.currentToken_type h])] at hleft
  omega

/-! ## a comparison is passed -/

theorem keeps_loadOperand (item : Item) : Keeps SameInput (loadOperand item) fun _ => True := by
  unfold loadOperand
  refine Keeps.seq (keeps_takeItem _) fun _ => Keeps.ite (fun _ => ?_) fun _ =>
    Keeps.ite (fun _ => ?_) fun _ => Keeps.pure trivial
  · exact Keeps.seq keeps_tokenCount fun _ => Keeps.seq (keeps_putValue2Reg _) fun _ =>
      Keeps.pure trivial
  · exact Keeps.seq keeps_tokenCount fun _ => Keeps.seq (keeps_putValue2Reg _) fun _ =>
      Keeps.pure trivial

theorem relationOperator_passes (h : s.currentToken.type.startSetRelation = true)
    (hs : Within s (k + 1)) : EndsFrom relationOperator relationOperator s k k := by
  have htwo : ∀ (id id' : TokenID) (op : OpCode), s.currentToken.type = id → id ≠ .tEof →
      EndsFrom (do expect id; expect id'; return op) (do expect id; expect id'; return op) s k k :=
    fun id id' op htype hid => spends_expectThen htype hid hs
      (Settled.bind (ends_expect _) fun _ => Settled.pure op)
  have hone : ∀ (id : TokenID) (op : OpCode), s.currentToken.type = id → id ≠ .tEof →
      EndsFrom (do expect id; return op) (do expect id; return op) s k k :=
    fun id op htype hid => spends_expectThen htype hid hs (Settled.pure op)
  unfold relationOperator
  refine Settles.step (currentType_eq s) ?_
  cases htype : s.currentToken.type
  case tEql => exact htwo _ _ _ htype (by decide)
  case tNot => exact htwo _ _ _ htype (by decide)
  case tGtr => exact hone _ _ htype (by decide)
  case tLeq => exact hone _ _ htype (by decide)
  case tLss => exact hone _ _ htype (by decide)
  case tGeq => exact hone _ _ htype (by decide)
  all_goals
    rw [htype] at h
    cases h

/-- In front of the operator of a comparison, the operator is passed. -/
theorem behindTerm_passes (h : s.ahead = l :: more) (hl : l.1.startSetRelation = true)
    (hb : s.countTLBRACES ≤ 2) (hfuel : more.length < fuel) (r : Option Item × List FixUps) :
    Yields (behindTerm (expression delayedCodeGen fuel) fuel r) s True (Leaves more.length) := by
  have hinside := inside_expression hfuel hfuel
  unfold behindTerm
  refine Yields.step (currentType_eq s) ?_
  rw [ParserState.currentToken_type h, if_pos hl]
  obtain ⟨item, vec⟩ := r
  cases item with
  | none => exact Yields.error rfl trivial
  | some item =>
    rw [deref_some, pure_bind]
    cases hload : loadOperand item s with
    | error e s₁ => exact Yields.error (bind_error hload) trivial
    | ok item₁ s₁ =>
      have hsame := (keeps_loadOperand item s).of_eq_ok hload
      have hwithin := (ends_loadOperand item s (within_of_ahead h hb)).returns hload
      have htype : s₁.currentToken.type.startSetRelation = true := by
        rw [hsame.2.1, ParserState.currentToken_type h]
        exact hl
      refine Yields.step hload ?_
      refine Yields.bind (leaves_of_endsFrom (relationOperator_passes htype hwithin)) ?_
      intro op s₂ hs₂
      exact leaves_of_ends (ends_comparison (Nat.le_refl _) hfuel hfuel hinside item₁ vec op) hs₂

/-! ## products -/

/-- A nested expression goes on behind the token at which its sum ends. -/
def ExpressionPasses (n : Nat) : Prop :=
  ∀ {e : Constant} {s : ParserState} {l : Lexeme} {more : List Lexeme} {vec : List FixUps},
    s.ahead.length < n → s.ahead = e.lexemes ++ l :: more → GoesOn l.1 → s.Plain →
      s.countTLBRACES ≤ 2 →
        Yields (expression delayedCodeGen n vec) s True (Leaves more.length)

/-- What is done with the third operand, once it has passed the token. -/
theorem third_passes (ih : ExpressionPasses n) {e : Constant} {β : Type} {kind : Operation}
    {index : Int} {item : Option Item} {f : Option Item → P β} (hlen : s.ahead.length < n)
    (h : s.ahead = (kind.token, none) :: (e.lexemes ++ l :: more))
    (hl : GoesOn l.1) (hplain : s.Plain) (hb : s.countTLBRACES ≤ 2)
    (hf : ∀ r, Ends more.length (f r) (f r)) :
    Yields (do
      let kind ← deref (← getOperation)
      let r ← delayedCodeGen kind index item (← freshExpression (expression delayedCodeGen n))
      f r) s True (Leaves more.length) := by
  obtain ⟨l₁, ls₁, heq, herr⟩ := e.lexemes_cons (l :: more)
  obtain ⟨hget, hpassed⟩ := getOperation_run kind h hplain ⟨l₁, ls₁, heq, herr⟩
  have hlen' : s.shift.ahead.length < n := by
    rw [hpassed.ahead]
    rw [h, List.length_cons] at hlen
    omega
  refine Yields.step hget ?_
  refine Yields.step (deref_run kind) ?_
  unfold freshExpression
  simp only [bind_assoc, pure_bind]
  refine Yields.bind (ih hlen' hpassed.ahead hl hpassed.plain (hpassed.braces hb)) ?_
  intro r s₁ hs₁
  exact leaves_of_ends (Settled.bind (ends_delayedCodeGen _ _ _ _) fun _ => hf _) hs₁

/-- A product with three values goes on behind the token. -/
theorem factor_passes (ih : ExpressionPasses n) {e : Constant} (hlen : s.ahead.length ≤ n)
    (h : s.ahead = e.body ++ l :: more) (hl : GoesOn l.1) (hplain : s.Plain)
    (hb : s.countTLBRACES ≤ 2) (hchain : e.chain = true) :
    Yields (factor delayedCodeGen (expression delayedCodeGen n) (fuel + 1) vec) s True
      (Leaves more.length) := by
  obtain _ | ⟨minus, v, op, _ | ⟨minus', w, op', rest⟩⟩ := e
  · cases hchain
  · exact absurd (Bool.and_eq_true_iff.mp hchain).2 Bool.false_ne_true
  have hop : op.isProduct = true := (Bool.and_eq_true_iff.mp hchain).1
  have hop' : op'.isProduct = true := (Bool.and_eq_true_iff.mp hchain).2
  rw [h] at hlen
  simp only [Constant.body, Constant.lexemes, List.length_append, List.length_cons] at hlen
  simp only [Constant.body, List.append_assoc, List.cons_append] at h
  rw [factor_eq]
  refine Yields.bind ((value_folds (expression_folds n) (by omega) h op.token_follows hplain).mono
    (fun _ => trivial) fun _ _ => id) ?_
  rintro r s₁ ⟨item1, vec₁, x, ts₁, rfl, hitem1, -, hpassed₁, -⟩
  refine Yields.step (currentType_eq s₁) ?_
  rw [ParserState.currentToken_type hpassed₁.ahead, op.isFactorOperator_token, if_pos hop]
  obtain ⟨l₁, ls₁, heq, herr⟩ := (Constant.cons minus' w op' rest).lexemes_cons (l :: more)
  obtain ⟨hget, hpassed₂⟩ := getOperation_run op hpassed₁.ahead hpassed₁.plain ⟨l₁, ls₁, heq, herr⟩
  have hahead := hpassed₂.ahead
  unfold behindValue
  refine Yields.step (tokenCount_eq s₁) ?_
  refine Yields.step hget ?_
  refine Yields.step (deref_run op) ?_
  cases minus' with
  | true =>
    refine Yields.step (value_minus (ParserState.currentToken_type hahead)) ?_
    exact Yields.bind (delayedCodeGen_missing op _ _ _) fun _ _ h => h.elim
  | false =>
    simp only [Constant.lexemes, sign, Bool.false_eq_true, if_false, List.nil_append,
      List.append_assoc, List.cons_append] at hahead hlen
    refine Yields.bind ((value_folds (expression_folds n) (by omega) hahead op'.token_follows
      hpassed₂.plain).mono (fun _ => trivial) fun _ _ => id) ?_
    rintro r s₃ ⟨item2, vec₃, y, ts₃, rfl, hitem2, -, hpassed₃, hwritten₃⟩
    refine Yields.bind ((fold_last hitem1 hitem2 ((hpassed₁.trans hpassed₂).trans hpassed₃)
      (hwritten₃.prepend _)).mono (fun _ => trivial) fun _ _ => id) ?_
    rintro r s₄ ⟨item, w, rfl, hitem, -, hpassed₄, -⟩
    refine Yields.step (currentType_eq s₄) ?_
    rw [ParserState.currentToken_type hpassed₄.ahead, op'.isFactorOperator_token, if_pos hop']
    refine third_passes ih ?_ hpassed₄.ahead hl hpassed₄.plain (hpassed₄.braces hb)
      fun _ => Settled.pure _
    rw [hpassed₄.ahead]
    simp only [List.length_append, List.length_cons] at hlen ⊢
    omega

/-! ## sums -/

/-- The second factor of a sum, and what follows it, where one of them has a third operand. -/
theorem behindFactor_passes (ih : ExpressionPasses n) {e : Constant} {left : Option Item}
    (hlen : s.ahead.length ≤ n) (h : s.ahead = (op.token, none) :: (e.body ++ l :: more))
    (hop : op.isProduct = false) (hl : GoesOn l.1) (hplain : s.Plain)
    (hb : s.countTLBRACES ≤ 2) (hleft : IsLeft left x op) (hwide : e.wideFactor true = true) :
    Yields (behindFactor (expression delayedCodeGen n) (fuel + 1) (left, vec)) s True
      (Leaves more.length) := by
  obtain ⟨l₁, ls₁, heq₁, herr₁⟩ := e.body_cons (l :: more)
  have herr : l₁.1 ≠ .tError := by rcases herr₁ with h₁ | h₁ <;> rw [h₁] <;> decide
  rw [heq₁] at h
  obtain ⟨item1, index, hitem1, hpassed₀, hrun⟩ := behindFactor_run h herr hop hplain hleft
  rw [← heq₁] at hpassed₀
  have hlen₀ : s.shift.ahead.length < n := by
    rw [hpassed₀.ahead, heq₁]
    rw [h, List.length_cons] at hlen
    omega
  have hbody : e.body.length + (more.length + 1) < n := by
    rwa [hpassed₀.ahead, List.length_append, List.length_cons] at hlen₀
  refine yields_congr hrun ?_
  unfold behindOperator
  cases hchain : e.chain with
  | true =>
    refine Yields.bind (factor_passes ih hlen₀.le hpassed₀.ahead hl hpassed₀.plain (hpassed₀.braces hb)
      hchain) ?_
    intro r s₁ hs₁
    have hinside : Parser.Inside more.length (expression delayedCodeGen n)
        (expression delayedCodeGen n) :=
      inside_expression (by omega) (by omega)
    refine leaves_of_ends (Settled.bind (ends_delayedCodeGen _ _ _ _) fun item => ?_) hs₁
    exact Settled.bind ends_currentType fun t => ends_third hinside fun _ _ _ => Settled.pure _
  | false =>
    refine Yields.bind ((factor_folds (expression_folds n) (by omega) hpassed₀.ahead
      hl.endsTerm (fun h => absurd (hchain.symm.trans h) (by decide))
      hpassed₀.plain).mono (fun _ => trivial) fun _ _ => id) ?_
    rintro r s₁ ⟨item2, vec₁, y, ts, rfl, hitem2, hdone | hsum⟩
    · exact absurd (hwide.symm.trans (hdone.2.2.2 hchain true)) (by decide)
    · obtain ⟨op', rest, hop', -, hless, -, -, hpassed₁, _, _, hwritten₁⟩ := hsum
      refine Yields.bind ((fold_last hitem1 hitem2 (hpassed₀.trans hpassed₁)
        (hwritten₁.prepend _)).mono (fun _ => trivial) fun _ _ => id) ?_
      rintro r s₂ ⟨item, w, rfl, hitem, -, hpassed₂, -⟩
      refine Yields.step (currentType_eq s₂) ?_
      rw [ParserState.currentToken_type hpassed₂.ahead, op'.isTermOperator_token, hop',
        Bool.not_false, if_pos rfl]
      refine third_passes ih ?_ hpassed₂.ahead hl hpassed₂.plain (hpassed₂.braces hb)
        fun _ => Settled.pure _
      rw [hpassed₂.ahead]
      simp only [List.length_append, List.length_cons]
      omega

/-- **A wide sum** goes on behind the token at which it ends. -/
theorem term_passes (ih : ExpressionPasses n) {e : Constant} (hlen : s.ahead.length ≤ n)
    (hfuel : n ≤ fuel + 1) (h : s.ahead = e.lexemes ++ l :: more)
    (hl : GoesOn l.1) (hplain : s.Plain) (hb : s.countTLBRACES ≤ 2)
    (hwide : e.wide = true) :
    Yields (term delayedCodeGen (expression delayedCodeGen n) (fuel + 1) vec) s True
      (Leaves more.length) := by
  rw [term_eq]
  unfold Constant.wide at hwide
  cases hminus : e.minus with
  | true =>
    rw [Constant.lexemes_of_minus hminus] at h
    rw [hminus] at hwide
    have hleft : IsLeft none 0 .sub := Or.inr ⟨rfl, rfl, rfl⟩
    have hsub : s.ahead = (Operation.sub.token, none) :: (e.body ++ l :: more) := h
    refine Yields.step (factor_minus (ParserState.currentToken_type h) (Nat.succ_pos _) vec) ?_
    exact behindFactor_passes ih hlen hsub rfl hl hplain hb hleft hwide
  | false =>
    rw [Constant.lexemes_of_not_minus hminus] at h
    rw [hminus] at hwide
    have hbody : e.body.length + (more.length + 1) ≤ n := by
      rwa [h, List.length_append, List.length_cons] at hlen
    cases hchain : e.chain with
    | true =>
      refine Yields.bind (factor_passes ih hlen h hl hplain hb hchain) ?_
      intro r s₁ hs₁
      have hinside : Parser.Inside more.length (expression delayedCodeGen n)
        (expression delayedCodeGen n) :=
        inside_expression (by omega) (by omega)
      exact leaves_of_ends
        (spends_behindFactor (Nat.le_refl _) (by omega) (by omega) hinside r).ends hs₁
    | false =>
      refine Yields.bind ((factor_folds (expression_folds n) (by omega) h hl.endsTerm
        (fun h => absurd (hchain.symm.trans h) (by decide)) hplain).mono (fun _ => trivial)
        fun _ _ => id) ?_
      rintro r s₁ ⟨item, vec₁, y, ts, rfl, hitem, hdone | hsum⟩
      · exact absurd (hwide.symm.trans (hdone.2.2.2 hchain false)) (by decide)
      · obtain ⟨op, rest, hop, -, hless, hwide', -, hpassed, -⟩ := hsum
        have hahead := hpassed.ahead
        cases hrest : rest.minus with
        | true =>
          rw [Constant.lexemes_of_minus hrest] at hahead
          exact (behindFactor_minus hop hahead hpassed.plain hitem).mono id fun _ _ h => h.elim
        | false =>
          rw [Constant.lexemes_of_not_minus hrest] at hahead hless
          rw [hwide', Bool.false_or] at hwide
          refine behindFactor_passes ih ?_ hahead hop hl hpassed.plain (hpassed.braces hb)
            (Or.inl ⟨item, rfl, hitem⟩) hwide
          rw [hahead]
          simp only [List.length_append, List.length_cons]
          omega

/-! ## conditions -/

/-- A value that is not compared is tested at most. -/
theorem behindTerm_stays {ex : Production} (hl : s.currentToken.type.startSetRelation = false)
    (r : Option Item × List FixUps) :
    Yields (behindTerm ex fuel r) s True fun _ s' => SameInput s s' := by
  unfold behindTerm
  refine Yields.step (currentType_eq s) ?_
  rw [hl, if_neg Bool.false_ne_true]
  refine Yields.step get_run ?_
  by_cases hmode : s.condMode = true
  · rw [if_pos hmode]
    obtain ⟨item, vec⟩ := r
    cases item with
    | none => exact Yields.error rfl trivial
    | some item =>
      rw [deref_some, pure_bind]
      exact (keeps_testValue item vec s).mono id fun _ _ h => h.2
  · rw [if_neg hmode]
    exact Yields.pure ⟨rfl, rfl, rfl⟩

/-- The token `l` is passed, or it is a connective and comes next. -/
def Meets (l : Lexeme) (k : Nat) (_ : α) (s : ParserState) : Prop :=
  Within s k ∨ Within s (k + 1) ∧ s.currentToken.type = l.1 ∧ (l.1 = .tAnd ∨ l.1 = .tOr)

/-- In front of its operator, a loop over operands passes it. -/
theorem operands_passes {id : TokenID} (hid : id ≠ .tEof) {f : List FixUps → P (List FixUps)}
    (hf : ∀ j vec, j ≤ k → Ends j (f vec) (f vec)) (hfuel : k < fuel)
    (htype : s.currentToken.type = id) (hs : Within s (k + 1)) :
    Yields (whileLoop (fun s => s.currentToken.type == id) (fun vec => do expect id; f vec)
      (fuel + 1) vec) s True (Leaves k) := by
  refine whileLoop_turn (beq_iff_eq.mpr htype)
    (leaves_of_endsFrom (spends_expectThen htype hid hs (hf k vec (Nat.le_refl k)))) ?_
  intro vec' s' hs'
  exact leaves_of_ends (ends_operands hid (fun j vec hj => hf j vec hj.le) hfuel hfuel vec') hs'

/-- The loops behind a relation pass the connective. -/
theorem loops_pass {ex : Production} (hinside : Parser.Inside k ex ex) (hfuel : k < fuel)
    (h : Meets l k vec s) {f : List FixUps → P α} (hf : ∀ vec, Ends k (f vec) (f vec)) :
    Yields (do
      let andMap ← andLoop delayedCodeGen ex (fuel + 1) vec
      let orMap ← orLoop delayedCodeGen ex (fuel + 1) andMap
      f orMap) s True (Leaves k) := by
  have hfuel' : k < fuel + 1 := Nat.lt_succ_of_lt hfuel
  have hor : ∀ vec, Ends k
      (do let orMap ← orLoop delayedCodeGen ex (fuel + 1) vec; f orMap)
      (do let orMap ← orLoop delayedCodeGen ex (fuel + 1) vec; f orMap) := fun vec =>
    Settled.bind (ends_orLoop (Nat.le_refl k) hfuel' hfuel' hinside vec) hf
  rcases h with hs | ⟨hs, htype, hand | hor'⟩
  · exact leaves_of_ends
      (Settled.bind (ends_andLoop (Nat.le_refl k) hfuel' hfuel' hinside vec) hor) hs
  · refine Yields.bind (operands_passes (by decide) (fun j vec hj => ?_) hfuel (htype.trans hand) hs) ?_
    · exact ends_andOperand hj hfuel' hfuel' (hinside.mono hj) vec
    · exact fun vec' s' hs' => leaves_of_ends (hor vec') hs'
  · have hexit : (s.currentToken.type == TokenID.tAnd) = false := by
      rw [htype, hor']
      rfl
    refine Yields.step (whileLoop_exit hexit) ?_
    refine Yields.bind (operands_passes (by decide) (fun j vec hj => ?_) hfuel (htype.trans hor') hs) ?_
    · exact ends_orOperand hj hfuel' hfuel' (hinside.mono hj) vec
    · exact fun vec' s' hs' => leaves_of_ends (hf vec') hs'

/-- **An expression** goes on behind the token at which its sum ends. -/
theorem expression_passes : ∀ n, ExpressionPasses n := by
  intro n
  induction n with
  | zero =>
    intro e s l more vec hlen
    omega
  | succ n ih =>
    intro e s l more vec hlen h hl hplain hb
    have hlexemes : e.lexemes.length + (more.length + 1) ≤ n := by
      rw [h, List.length_append, List.length_cons] at hlen
      omega
    obtain ⟨n, rfl⟩ : ∃ k, n = k + 1 := ⟨n - 1, by omega⟩
    have hmore : more.length < n := by
      obtain ⟨l', ls, hls, -⟩ := e.lexemes_cons []
      have := congrArg List.length hls
      simp only [List.append_nil, List.length_cons] at this
      omega
    have hinside : Parser.Inside (more.length + 1) (expression delayedCodeGen (n + 1))
        (expression delayedCodeGen (n + 1)) := inside_expression (by omega) (by omega)
    unfold expression expressionBody andExpression
    refine Yields.step (modify_run _) ?_
    simp only [bind_assoc, pure_bind]
    -- the relation takes the token along, or it stops in front of a connective
    have hrelation : ∀ s' : ParserState, s'.ahead = e.lexemes ++ l :: more → s'.Plain →
        s'.countTLBRACES ≤ 2 →
        Yields (relation delayedCodeGen (expression delayedCodeGen (n + 1)) (n + 1) vec) s' True
          (Meets l more.length) := by
      intro s' h' hplain' hb'
      rw [relation_eq]
      cases hwide : e.wide with
      | true =>
        have hlen' : s'.ahead.length ≤ n + 1 := by
          rw [h', List.length_append, List.length_cons]
          omega
        refine Yields.bind (term_passes ih hlen' (Nat.le_refl _) h' hl hplain' hb' hwide) ?_
        intro r s₁ hs₁
        exact (leaves_of_ends (ends_behindTerm (Nat.le_refl _) (by omega) (by omega)
          (hinside.mono (by omega)) r) hs₁).mono id fun _ _ => Or.inl
      | false =>
        refine Yields.bind ((term_folds (expression_folds (n + 1)) (by omega) h' hl.endsTerm
          (fun h => absurd (hwide.symm.trans h) (by decide)) hplain').mono (fun _ => trivial)
          fun _ _ => id) ?_
        rintro r s₁ ⟨item, vec₁, y, ts, rfl, hitem, -, hpassed, -⟩
        have htype := ParserState.currentToken_type hpassed.ahead
        cases hset : l.1.startSetRelation with
        | true =>
          exact (behindTerm_passes hpassed.ahead hset (hpassed.braces hb') (by omega) _).mono id
            fun _ _ => Or.inl
        | false =>
          have hconnective : l.1 = .tAnd ∨ l.1 = .tOr :=
            hl.resolve_left (by rw [hset]; exact Bool.false_ne_true)
          have hwithin := within_of_ahead hpassed.ahead (hpassed.braces hb')
          have hfuel : more.length + 1 < n + 1 := by omega
          have hends := ends_behindTerm (Nat.le_refl _) hfuel hfuel hinside (some item, vec₁) s₁
            hwithin
          have hstays : Yields (behindTerm (expression delayedCodeGen (n + 1)) (n + 1)
              (some item, vec₁)) s₁ _ _ := behindTerm_stays (by rw [htype, hset]) _
          cases hrun : behindTerm (expression delayedCodeGen (n + 1)) (n + 1) (some item, vec₁) s₁ with
          | error x s₂ => exact .error hrun trivial
          | ok r s₂ =>
            refine .ok hrun (Or.inr ⟨hends.returns hrun, ?_, hconnective⟩)
            rw [(hstays.of_eq_ok hrun).1, htype]
    refine Yields.bind (hrelation _ h hplain hb) ?_
    intro r s₁ hs₁
    exact loops_pass (hinside.mono (by omega)) hmore hs₁ fun _ =>
      Settled.bind (Settled.modify fun _ h => h) fun _ => Settled.pure _

end Compiler.Folding
