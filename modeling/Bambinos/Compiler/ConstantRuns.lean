import Bambinos.Compiler.Constants

/-!
# Constant expressions in the parser

* `Trail` — what the token list ends with behind an expression
* `delayedCodeGen_constants` — two constants are folded, and the last token gets the result
* `factor_folds`, `term_folds` — the productions, one by one
* `expression_folds` — the parser reads an expression as `fold`
-/

namespace Compiler

open Infra

/-- A closing bracket that is still to come has no number as its value: the scanner gives it no
text at all. -/
def ParserState.Plain (s : ParserState) : Prop :=
  ∀ t ∈ s.currentToken :: s.input, t.type = .tRparen → ∀ n, t.value ≠ some (.number n)

theorem ParserState.Plain.shift {s : ParserState} (h : s.Plain) : s.shift.Plain := by
  intro t ht htype
  cases hin : s.input with
  | nil =>
    simp only [ParserState.shift, hin, List.headD_nil, List.tail_nil, List.mem_singleton] at ht
    rw [ht] at htype
    cases htype
  | cons t' input =>
    simp only [ParserState.shift, hin, List.headD_cons, List.tail_cons] at ht
    exact h t (by rw [hin]; exact List.mem_cons_of_mem _ ht) htype

namespace Folding

/-! ## the token list -/

/-- The number that is the value of a token. -/
def numberOf : Option TokenValue → Option Int
  | some (.number n) => some n
  | _ => none

/--
The tokens end in a number with the value `a`, and closing brackets if `closed`. The number that the
last token of all has as its value is `l`.
-/
inductive Trail : List Ident → Bool → Int → Option Int → Prop
  | number {pre : List Ident} {t : Ident} {a : Int} (htype : t.type = .tNumber)
      (hvalue : t.value = some (.number a)) : Trail (pre ++ [t]) false a (some a)
  | rparen {ts : List Ident} {t : Ident} {closed : Bool} {a : Int} {l : Option Int}
      (h : Trail ts closed a l) (htype : t.type = .tRparen) :
      Trail (ts ++ [t]) true a (numberOf t.value)

/-- `tokenList.get(tokenList.size() - 1).value = ...` -/
def setLast (ts : List Ident) (w : Int) : List Ident :=
  ts.modify (ts.length - 1) fun t => { t with value := some (.number w) }

theorem setLast_concat (ts : List Ident) (t : Ident) (w : Int) :
    setLast (ts ++ [t]) w = ts ++ [{ t with value := some (.number w) }] := by
  unfold setLast
  rw [List.length_append, List.length_singleton, Nat.add_sub_cancel]
  induction ts with
  | nil => rfl
  | cons t' ts ih =>
    rw [List.cons_append, List.length_cons, List.modify_succ_cons, ih, List.cons_append]

namespace Trail

variable {ts : List Ident} {closed : Bool} {a : Int} {l : Option Int}

/-- The last token is no identifier. -/
theorem concat (h : Trail ts closed a l) :
    ∃ pre t, ts = pre ++ [t] ∧ numberOf t.value = l ∧ t.type ≠ .tSident := by
  cases h with
  | number htype hvalue => exact ⟨_, _, rfl, by rw [hvalue]; rfl, by rw [htype]; decide⟩
  | rparen h htype => exact ⟨_, _, rfl, rfl, by rw [htype]; decide⟩

theorem prepend (pre : List Ident) (h : Trail ts closed a l) : Trail (pre ++ ts) closed a l := by
  induction h with
  | number htype hvalue =>
    rw [← List.append_assoc]
    exact .number htype hvalue
  | rparen h htype ih =>
    rw [← List.append_assoc]
    exact .rparen ih htype

/-- The number gets the value if it is the last token. -/
theorem set (h : Trail ts closed a l) (w : Int) :
    Trail (setLast ts w) closed (if closed then a else w) (some w) := by
  cases h with
  | number htype hvalue =>
    rw [setLast_concat]
    exact .number htype rfl
  | rparen h htype =>
    rw [setLast_concat]
    exact .rparen h htype

theorem setLast_append (h : Trail ts closed a l) (pre : List Ident) (w : Int) :
    setLast (pre ++ ts) w = pre ++ setLast ts w := by
  obtain ⟨ts', t, rfl, -⟩ := h.concat
  rw [← List.append_assoc, setLast_concat, setLast_concat, List.append_assoc]

end Trail

/--
What an expression with the value `y` leaves when `v` is its last operand: a number has got the
value, a bracket keeps what was written inside.
-/
def Written (ts : List Ident) (y : Int) (l : Option Int) : Value → Prop
  | .number _ => Trail ts false y l
  | .paren e => ∃ a, Trail ts true a l ∧ e.trailing.fold = some a

namespace Written

variable {ts : List Ident} {v : Value} {y : Int} {l : Option Int}

theorem trail (h : Written ts y l v) : ∃ closed a, Trail ts closed a l := by
  cases v with
  | number n => exact ⟨_, _, h⟩
  | paren e =>
    obtain ⟨a, h, -⟩ := h
    exact ⟨_, _, h⟩

theorem prepend (pre : List Ident) (h : Written ts y l v) : Written (pre ++ ts) y l v := by
  cases v with
  | number n => exact Trail.prepend pre h
  | paren e =>
    obtain ⟨a, h, ha⟩ := h
    exact ⟨a, h.prepend pre, ha⟩

theorem set (h : Written ts y l v) (w : Int) : Written (setLast ts w) w (some w) v := by
  cases v with
  | number n => exact Trail.set h w
  | paren e =>
    obtain ⟨a, h, ha⟩ := h
    exact ⟨a, h.set w, ha⟩

/-- Behind an expression, the number that was written last is that of `trailing`. -/
theorem trailing {e : Constant} (h : Written ts y l e.last) (hfold : e.fold = some y) :
    ∃ closed a, Trail ts closed a l ∧ e.trailing.fold = some a := by
  unfold Constant.trailing
  rw [e.trailingIn_eq]
  cases hlast : e.last with
  | number n =>
    rw [hlast] at h
    exact ⟨_, _, h, hfold⟩
  | paren e' =>
    rw [hlast] at h
    obtain ⟨a, h, ha⟩ := h
    exact ⟨_, _, h, ha⟩

end Written

/-- What a production passes: the tokens `ts`, so that `rest` is still to come. No code is written. -/
structure Passed (s s' : ParserState) (ts : List Ident) (rest : List Lexeme) : Prop where
  ahead : s'.ahead = rest
  cg : s'.cg = s.cg
  plain : s'.Plain
  tokens : s'.tokenList = s.tokenList ++ ts
  braces : s.countTLBRACES ≤ 2 → s'.countTLBRACES ≤ 2

namespace Passed

variable {s s₁ s₂ : ParserState} {ts ts' : List Ident} {rest rest' : List Lexeme}

theorem trans (h : Passed s s₁ ts rest) (h' : Passed s₁ s₂ ts' rest') :
    Passed s s₂ (ts ++ ts') rest' :=
  ⟨h'.ahead, h'.cg.trans h.cg, h'.plain, by rw [h'.tokens, h.tokens, List.append_assoc],
    fun hs => h'.braces (h.braces hs)⟩

theorem shift {l l' : Lexeme} (h : s.ahead = l :: l' :: rest) (hplain : s.Plain) :
    Passed s s.shift [s.currentToken] (l' :: rest) :=
  ⟨ParserState.shift_ahead h, rfl, hplain.shift, rfl, s.braces_le⟩

/-- The last token that was passed gets another value. -/
theorem set {closed : Bool} {a : Int} {l : Option Int} (h : Passed s s₁ ts rest)
    (htrail : Trail ts closed a l) (w : Int) :
    Passed s { s₁ with tokenList := setLast s₁.tokenList w } (setLast ts w) rest where
  ahead := h.ahead
  cg := h.cg
  plain := h.plain
  tokens := by
    dsimp only
    rw [h.tokens, htrail.setLast_append]
  braces := h.braces

end Passed

/-- Running a block is running what is left of it. -/
theorem yields_congr {α : Type} {m m' : P α} {s s' : ParserState} {fail : Prop}
    {Q : α → ParserState → Prop} (heq : m s = m' s') (h : Yields m' s' fail Q) : Yields m s fail Q := by
  cases h with
  | ok h hq => exact .ok (heq.trans h) hq
  | error h hf => exact .error (heq.trans h) hf

/-! ## operations -/

/-- The item of a constant. -/
def IsConstant (item : Item) (v : Int) : Prop :=
  item.mode = 2 ∧ item.type = some .intType ∧ item.val = v

open Compiler.Parser

variable {op : Operation} {x y : Int} {s : ParserState}

theorem foldConstants_yields (op : Operation) (x y : Int) (s : ParserState) :
    Yields (foldConstants op x y) s (op.fold x y = none) fun w s' =>
      op.fold x y = some w ∧ s' = s := by
  unfold foldConstants
  cases op
  case add | sub | mul => exact Yields.pure ⟨rfl, rfl⟩
  case div | mod =>
    dsimp only [Operation.fold]
    by_cases hy : y = 0
    · rw [if_pos hy, if_pos hy]
      exact Yields.throw rfl
    · rw [if_neg hy, if_neg hy]
      exact Yields.pure ⟨rfl, rfl⟩

theorem setLastValue_run {pre : List Ident} {t : Ident} (h : s.tokenList = pre ++ [t]) (w : Int) :
    setLastValue w s = .ok () { s with tokenList := setLast s.tokenList w } := by
  unfold setLastValue
  rw [bind_ok (tokenCount_eq s), bind_ok (tokenAt_last h)]
  rfl

theorem takeItem_constant {item : Item} (h : IsConstant item x) : takeItem item = pure () := by
  unfold takeItem
  rw [h.1]
  rfl

/-- **Two constants** are folded, and the last token gets the result. -/
theorem delayedCodeGen_constants {item1 item2 : Item} {index : Int} {pre : List Ident} {t : Ident}
    (h1 : IsConstant item1 x) (h2 : IsConstant item2 y) (hs : s.tokenList = pre ++ [t]) :
    Yields (delayedCodeGen op index (some item1) (some item2)) s (op.fold x y = none)
      fun r s' => ∃ item w, r = some item ∧ IsConstant item w ∧ op.fold x y = some w ∧
        s' = { s with tokenList := setLast s.tokenList w } := by
  unfold delayedCodeGen
  simp only [deref_some, pure_bind, takeItem_constant h1, takeItem_constant h2]
  have hregisters : ¬ (item1.mode = 3 ∧ item2.mode = 3) := by
    rw [h1.1]
    exact fun h => absurd h.1 (by decide)
  rw [if_neg hregisters, if_pos ⟨h1.1, h2.1⟩, if_neg (not_not_intro h2.2.1), h1.2.2, h2.2.2]
  refine Yields.bind (foldConstants_yields op x y s) ?_
  rintro w s' ⟨hfold, rfl⟩
  refine Yields.step (setLastValue_run hs w) ?_
  exact Yields.pure ⟨_, w, rfl, ⟨rfl, rfl, rfl⟩, hfold, rfl⟩

/-- An operand that is not there is an error. -/
theorem delayedCodeGen_missing (op : Operation) (index : Int) (item : Option Item)
    (s : ParserState) :
    Yields (delayedCodeGen op index item none) s True fun _ _ => False := by
  unfold delayedCodeGen
  refine Yields.step (show line s = .ok _ s from rfl) ?_
  exact Yields.error (bind_error (syntaxError_run _ s)) trivial

/-! ## values -/

/--
A production has read the constant `v`, whose last operand is `last`, and left the tokens `rest`. The
last token has the number `shown`.
-/
def Folds (s : ParserState) (rest : List Lexeme) (v : Option Int) (last : Value)
    (shown : Int → Option Int) (r : Option Item × List FixUps) (s' : ParserState) : Prop :=
  ∃ item vec y ts, r = (some item, vec) ∧ IsConstant item y ∧ v = some y ∧
    Passed s s' ts rest ∧ Written ts y (shown y) last

/-- A nested expression is read as `fold`. -/
def ExpressionFolds (n : Nat) : Prop :=
  ∀ {e : Constant} {s : ParserState} {l : Lexeme} {more : List Lexeme} {vec : List FixUps},
    e.lexemes.length < n → s.ahead = e.lexemes ++ l :: more → EndsExpression l.1 → s.Plain →
      Yields (expression delayedCodeGen n vec) s (e.fold = none)
        (Folds s (l :: more) e.fold e.last e.shown)

variable {n fuel depth : Nat} {l : Lexeme} {more : List Lexeme} {vec : List FixUps}

theorem intValue_folds {k : Nat} (h : s.ahead = (.tNumber, some (.number k)) :: l :: more)
    (hl : FollowsValue l.1) :
    Yields intValue s (¬ k < 2 ^ 31) fun r s' => r = k ∧ s' = s.shift ∧ k < 2 ^ 31 := by
  have hvalue := (Ident.value_of_number (ParserState.currentToken_lexeme h)).2
  have hlist : s.shift.tokenList = s.tokenList ++ [s.currentToken] := rfl
  unfold intValue
  refine Yields.step (expect_run h (by decide) hl.2.2.2) ?_
  refine Yields.step (tokenCount_eq _) ?_
  refine Yields.step (tokenAt_last hlist) ?_
  rw [hvalue]
  exact parseInt_yields k

/-- Behind the closing bracket, what was written last is inside. -/
theorem Written.rparen {ts : List Ident} {t : Ident} {e : Constant} {l : Option Int}
    (h : Written ts y l e.last) (hfold : e.fold = some y) (htype : t.type = .tRparen)
    (hplain : ∀ n, t.value ≠ some (.number n)) : Written (ts ++ [t]) y none (.paren e) := by
  obtain ⟨closed, a, htrail, ha⟩ := h.trailing hfold
  have hnone : numberOf t.value = none := by
    cases hvalue : t.value with
    | none => rfl
    | some v =>
      cases v with
      | text _ => rfl
      | number n => exact absurd hvalue (hplain n)
  exact ⟨a, hnone ▸ htrail.rparen htype, ha⟩

/-- **A value** is read as `fold`. -/
theorem value_folds (ih : ExpressionFolds n) {v : Value} (hlen : v.lexemes.length ≤ n)
    (h : s.ahead = v.lexemes ++ l :: more) (hl : FollowsValue l.1) (hplain : s.Plain) :
    Yields (value (expression delayedCodeGen n) fuel (depth + 1) vec) s (v.fold = none)
      (Folds s (l :: more) v.fold v v.shown) := by
  unfold value
  refine Yields.step (currentType_eq s) ?_
  cases v with
  | number k =>
    rw [ParserState.currentToken_type h]
    have hfail : ¬ k < 2 ^ 31 → (Value.number k).fold = none := fun hk => if_neg hk
    refine Yields.bind ((intValue_folds h hl).mono hfail fun _ _ => id) ?_
    rintro r s' ⟨rfl, rfl, hk⟩
    have htoken := Ident.value_of_number (ParserState.currentToken_lexeme h)
    refine Yields.pure ⟨_, _, k, _, rfl, ⟨rfl, rfl, rfl⟩, if_pos hk, Passed.shift h hplain, ?_⟩
    exact (Trail.number htoken.1 htoken.2 : Trail ([] ++ [s.currentToken]) false k (some k))
  | paren e =>
    simp only [Value.lexemes, List.length_cons, List.length_append, List.length_nil] at hlen
    simp only [Value.lexemes, List.cons_append, List.append_assoc, List.nil_append] at h
    rw [ParserState.currentToken_type h]
    obtain ⟨l', ls, hls, herr⟩ := e.lexemes_cons ((TokenID.tRparen, none) :: l :: more)
    rw [hls] at h
    refine Yields.step (expect_run h (by decide) herr) ?_
    have hpassed := Passed.shift h hplain
    rw [← hls] at hpassed
    refine Yields.bind (ih (by omega) hpassed.ahead rparen_ends hpassed.plain) ?_
    rintro r s₁ ⟨item, vec₁, y, ts, rfl, hitem, hfold, hpassed₁, hwritten⟩
    refine Yields.step (expect_run hpassed₁.ahead (by decide) hl.2.2.2) ?_
    have hpassed₂ := (hpassed.trans hpassed₁).trans (Passed.shift hpassed₁.ahead hpassed₁.plain)
    have htype := ParserState.currentToken_type hpassed₁.ahead
    refine Yields.pure ⟨item, _, y, _, rfl, hitem, hfold, hpassed₂, ?_⟩
    exact (hwritten.prepend _).rparen hfold htype
      (hpassed₁.plain _ (List.mem_cons_self ..) htype)

/-! ## products -/

theorem getOperation_run {rest : List Lexeme} (op : Operation)
    (h : s.ahead = (op.token, none) :: rest) (hplain : s.Plain)
    (hrest : ∃ l ls, rest = l :: ls ∧ l.1 ≠ .tError) :
    getOperation s = .ok (some op) s.shift ∧ Passed s s.shift [s.currentToken] rest := by
  obtain ⟨l, ls, rfl, hl⟩ := hrest
  have htype := ParserState.currentToken_type h
  have hrun := expect_run h (by cases op <;> decide) hl
  refine ⟨?_, Passed.shift h hplain⟩
  unfold getOperation
  cases op <;>
  · simp only [Operation.token] at htype hrun
    simp only [bind_run, currentType_eq, htype, hrun]
    rfl

/-- Folding the last two operands that were read. -/
theorem fold_last {s₁ : ParserState} {item1 item2 : Item} {index : Int} {ts : List Ident}
    {rest : List Lexeme} {z : Int} {shown : Option Int} {v : Value} (h1 : IsConstant item1 x)
    (h2 : IsConstant item2 y) (hpassed : Passed s s₁ ts rest) (hwritten : Written ts z shown v) :
    Yields (delayedCodeGen op index (some item1) (some item2)) s₁ (op.fold x y = none)
      fun r s₂ => ∃ item w, r = some item ∧ IsConstant item w ∧ op.fold x y = some w ∧
        Passed s s₂ (setLast ts w) rest ∧ Written (setLast ts w) w (some w) v := by
  obtain ⟨closed, a, htrail⟩ := hwritten.trail
  obtain ⟨pre, t, rfl, -⟩ := htrail.concat
  have hlist : s₁.tokenList = s.tokenList ++ pre ++ [t] := by
    rw [hpassed.tokens, List.append_assoc]
  refine (delayedCodeGen_constants h1 h2 hlist).mono id ?_
  rintro r s₂ ⟨item, w, rfl, hitem, hfold, rfl⟩
  exact ⟨item, w, rfl, hitem, hfold, hpassed.set htrail w, hwritten.set w⟩

/-- A nested expression starts a list of jumps of its own. -/
theorem freshExpression_folds (ih : ExpressionFolds n) {e : Constant} (hlen : e.lexemes.length < n)
    (h : s.ahead = e.lexemes ++ l :: more) (hl : EndsExpression l.1) (hplain : s.Plain) :
    Yields (freshExpression (expression delayedCodeGen n)) s (e.fold = none) fun r s' =>
      ∃ item y ts, r = some item ∧ IsConstant item y ∧ e.fold = some y ∧
        Passed s s' ts (l :: more) ∧ Written ts y (e.shown y) e.last := by
  unfold freshExpression
  refine Yields.bind (ih hlen h hl hplain) ?_
  rintro r s' ⟨item, vec', y, ts, rfl, hrest⟩
  exact Yields.pure ⟨item, y, ts, rfl, hrest⟩

/--
The first factor of `e` is read, its minus aside. Either that was all, or an operator of sums
comes next.
-/
def FactorFolds (e : Constant) (s : ParserState) (stop : List Lexeme)
    (r : Option Item × List FixUps) (s' : ParserState) : Prop :=
  ∃ item vec y ts, r = (some item, vec) ∧ IsConstant item y ∧
    (((∀ left, e.factor left = finish left y) ∧ Passed s s' ts stop ∧
        Written ts y (e.bodyShown y) e.last ∧
        (e.chain = false → ∀ second, e.wideFactor second = false)) ∨
      ∃ (op : Operation) (rest : Constant), op.isProduct = false ∧ rest.last = e.last ∧
        rest.lexemes.length < e.body.length ∧
        (∀ second, e.wideFactor second = (second || rest.wideFactor true)) ∧
        (∀ left, e.factor left = behind left y op
          (fun left => if rest.minus then none else rest.factor left) rest.fold) ∧
        Passed s s' ts ((op.token, none) :: (rest.lexemes ++ stop)) ∧
        ∃ shown v, Written ts y shown v)

/-- A minus is no value. -/
theorem value_minus {ex : Production} (h : s.currentToken.type = .tMinus) :
    value ex fuel (depth + 1) vec s = .ok (none, vec) s := by
  unfold value
  rw [bind_ok (currentType_eq s), h]
  rfl

/-- What `factor` does from its operator on. -/
def behindValue (ex : Production) (fuel : Nat) (item1 : Option Item) (vec : List FixUps) :
    P (Option Item × List FixUps) := do
  let indexFirst := (← tokenCount) - 1
  let factorKind ← deref (← getOperation)
  let (item2, vec) ← value ex fuel fuel vec
  let mut returnItem ← delayedCodeGen factorKind indexFirst item1 item2
  if isFactorOperator (← currentType) then
    let factorKind ← deref (← getOperation)
    returnItem ← delayedCodeGen factorKind indexFirst returnItem (← freshExpression ex)
  return (if item2.isSome then returnItem else item1, vec)

theorem factor_eq (ex : Production) (fuel : Nat) (vec : List FixUps) :
    factor delayedCodeGen ex fuel vec = (do
      let (item1, vec) ← value ex fuel fuel vec
      if isFactorOperator (← currentType) then behindValue ex fuel item1 vec
      else return (item1, vec)) := rfl

/-- The second value of a product, and what follows it. -/
theorem behindValue_folds (ih : ExpressionFolds n) {e : Constant} {item1 : Item}
    (hlen : e.lexemes.length ≤ n) (h : s.ahead = (op.token, none) :: (e.lexemes ++ l :: more))
    (hl : EndsTerm l.1) (hwide : e.multiplied = true → EndsExpression l.1)
    (hplain : s.Plain) (hitem1 : IsConstant item1 x) :
    Yields (behindValue (expression delayedCodeGen n) (fuel + 1) (some item1) vec) s
      (∀ left, e.product left x op = none) fun r s' =>
        ∃ item vec y ts, r = (some item, vec) ∧ IsConstant item y ∧
          (((∀ left, e.product left x op = finish left y) ∧ Passed s s' ts (l :: more) ∧
              Written ts y (some y) e.last ∧
              (e.multiplied = false → ∀ second, e.wideProduct second = false)) ∨
            ∃ (op' : Operation) (rest : Constant), op'.isProduct = false ∧ rest.last = e.last ∧
              rest.lexemes.length < e.body.length ∧
              (∀ second, e.wideProduct second = (second || rest.wideFactor true)) ∧
              (∀ left, e.product left x op = behind left y op'
                (fun left => if rest.minus then none else rest.factor left) rest.fold) ∧
              Passed s s' ts ((op'.token, none) :: (rest.lexemes ++ l :: more)) ∧
              ∃ shown v, Written ts y shown v) := by
  obtain ⟨l₁, ls₁, heq₁, herr₁⟩ := e.lexemes_cons (l :: more)
  obtain ⟨hget, hpassed₀⟩ := getOperation_run op h hplain ⟨l₁, ls₁, heq₁, herr₁⟩
  unfold behindValue
  refine Yields.step (tokenCount_eq s) ?_
  refine Yields.step hget ?_
  refine Yields.step (deref_run op) ?_
  cases hminus : e.minus with
  | true =>
    have hahead := hpassed₀.ahead
    rw [Constant.lexemes_of_minus hminus] at hahead
    refine Yields.step (value_minus (ParserState.currentToken_type hahead)) ?_
    refine Yields.bind ((delayedCodeGen_missing op _ _ _).mono (fun _ left => ?_) fun _ _ => id)
      fun _ _ h => h.elim
    cases e with
    | one minus v =>
      obtain rfl : minus = true := hminus
      rfl
    | cons minus v op' rest =>
      obtain rfl : minus = true := hminus
      rfl
  | false =>
    have hahead := hpassed₀.ahead
    rw [Constant.lexemes_of_not_minus hminus] at hahead hlen
    cases e with
    | one minus v =>
      obtain rfl : minus = false := hminus
      have hfactor : ∀ left, (Constant.one false v).product left x op =
          v.fold.bind fun y => (op.fold x y).bind (finish left) := by
        intro left
        rw [Constant.product, if_neg Bool.false_ne_true]
        cases v.fold <;> rfl
      refine Yields.bind ((value_folds ih hlen hahead hl.1 hpassed₀.plain).mono
        (fun hv left => by rw [hfactor, hv]; rfl) fun _ _ => id) ?_
      rintro r s₁ ⟨item2, vec₁, y, ts, rfl, hitem2, hv, hpassed₁, hwritten₁⟩
      simp only [hv, Option.bind_some] at hfactor
      refine Yields.bind ((fold_last hitem1 hitem2 (hpassed₀.trans hpassed₁)
        (hwritten₁.prepend _)).mono (fun hw left => by rw [hfactor, hw]; rfl) fun _ _ => id) ?_
      rintro r s₂ ⟨item, w, rfl, hitem, hw, hpassed₂, hwritten₂⟩
      simp only [hw, Option.bind_some] at hfactor
      refine Yields.step (currentType_eq s₂) ?_
      rw [ParserState.currentToken_type hpassed₂.ahead, hl.2.1]
      exact Yields.pure ⟨item, _, w, _, rfl, hitem,
        Or.inl ⟨hfactor, hpassed₂, hwritten₂, fun _ _ => rfl⟩⟩
    | cons minus v op' rest =>
      obtain rfl : minus = false := hminus
      simp only [Constant.body, List.append_assoc, List.cons_append] at hahead
      simp only [Constant.body, List.length_append, List.length_cons] at hlen
      have hfactor : ∀ left, (Constant.cons false v op' rest).product left x op =
          v.fold.bind fun y => (op.fold x y).bind fun w =>
            if op'.isProduct then rest.fold.bind fun z => (op'.fold w z).bind (finish left)
            else behind left w op' (fun left => if rest.minus then none else rest.factor left)
              rest.fold := by
        intro left
        rw [Constant.product, if_neg Bool.false_ne_true]
        cases v.fold <;> rfl
      refine Yields.bind ((value_folds ih (by omega) hahead op'.token_follows hpassed₀.plain).mono
        (fun hv left => by rw [hfactor, hv]; rfl) fun _ _ => id) ?_
      rintro r s₁ ⟨item2, vec₁, y, ts, rfl, hitem2, hv, hpassed₁, hwritten₁⟩
      simp only [hv, Option.bind_some] at hfactor
      refine Yields.bind ((fold_last hitem1 hitem2 (hpassed₀.trans hpassed₁)
        (hwritten₁.prepend _)).mono (fun hw left => by rw [hfactor, hw]; rfl) fun _ _ => id) ?_
      rintro r s₂ ⟨item, w, rfl, hitem, hw, hpassed₂, hwritten₂⟩
      simp only [hw, Option.bind_some] at hfactor
      refine Yields.step (currentType_eq s₂) ?_
      rw [ParserState.currentToken_type hpassed₂.ahead, op'.isFactorOperator_token]
      cases hop : op'.isProduct with
      | false =>
        simp only [hop, Bool.false_eq_true, if_false] at hfactor
        refine Yields.pure ⟨item, _, w, _, rfl, hitem,
          Or.inr ⟨op', rest, hop, rfl, ?_, fun second => ?_, hfactor, hpassed₂, _, _, hwritten₂⟩⟩
        · simp only [Constant.body, List.length_append, List.length_cons]
          omega
        · rw [Constant.wideProduct, hop, Bool.false_or]
      | true =>
        simp only [hop, if_true] at hfactor
        rw [if_pos rfl]
        obtain ⟨l₂, ls₂, heq₂, herr₂⟩ := rest.lexemes_cons (l :: more)
        obtain ⟨hget', hpassed₃⟩ := getOperation_run op' hpassed₂.ahead hpassed₂.plain
          ⟨l₂, ls₂, heq₂, herr₂⟩
        have hends : EndsExpression l.1 := hwide hop
        refine Yields.step hget' ?_
        refine Yields.step (deref_run op') ?_
        refine Yields.bind ((freshExpression_folds ih (by omega) hpassed₃.ahead hends
          hpassed₃.plain).mono (fun hz left => by rw [hfactor, hz]; rfl) fun _ _ => id) ?_
        rintro r s₄ ⟨item3, z, ts₄, rfl, hitem3, hz, hpassed₄, hwritten₄⟩
        simp only [hz, Option.bind_some] at hfactor
        refine Yields.bind ((fold_last hitem hitem3 ((hpassed₂.trans hpassed₃).trans hpassed₄)
          (hwritten₄.prepend _)).mono (fun hu left => by rw [hfactor, hu]; rfl) fun _ _ => id) ?_
        rintro r s₅ ⟨item', u, rfl, hitem', hu, hpassed₅, hwritten₅⟩
        simp only [hu, Option.bind_some] at hfactor
        have hno : (Constant.cons false v op' rest).multiplied = false →
            ∀ second, (Constant.cons false v op' rest).wideProduct second = false := fun h =>
          absurd (hop.symm.trans h) (by decide)
        exact Yields.pure ⟨item', _, u, _, rfl, hitem',
          Or.inl ⟨hfactor, hpassed₅, hwritten₅, hno⟩⟩

/-- **A product** is read up to its end, or from its third value on to the end of the sum. -/
theorem factor_folds (ih : ExpressionFolds n) {e : Constant}
    (hlen : e.body.length ≤ n) (h : s.ahead = e.body ++ l :: more) (hl : EndsTerm l.1)
    (hwide : e.chain = true → EndsExpression l.1) (hplain : s.Plain) :
    Yields (factor delayedCodeGen (expression delayedCodeGen n) (fuel + 1) vec) s
      (∀ left, e.factor left = none) (FactorFolds e s (l :: more)) := by
  rw [factor_eq]
  cases e with
  | one minus v =>
    have hfactor : ∀ left, (Constant.one minus v).factor left = v.fold.bind (finish left) :=
      fun left => by rw [Constant.factor]; rfl
    refine Yields.bind ((value_folds ih hlen h hl.1 hplain).mono
      (fun hv left => by rw [hfactor, hv]; rfl) fun _ _ => id) ?_
    rintro r s₁ ⟨item, vec₁, y, ts, rfl, hitem, hv, hpassed, hwritten⟩
    simp only [hv, Option.bind_some] at hfactor
    refine Yields.step (currentType_eq s₁) ?_
    rw [ParserState.currentToken_type hpassed.ahead, hl.2.1]
    exact Yields.pure ⟨item, _, y, ts, rfl, hitem,
      Or.inl ⟨hfactor, hpassed, hwritten, fun _ _ => rfl⟩⟩
  | cons minus v op rest =>
    simp only [Constant.body, List.append_assoc, List.cons_append] at h
    simp only [Constant.body, List.length_append, List.length_cons] at hlen
    have hfactor : ∀ left, (Constant.cons minus v op rest).factor left =
        v.fold.bind fun x =>
          if op.isProduct then rest.product left x op
          else behind left x op (fun left => if rest.minus then none else rest.factor left)
            rest.fold := fun left => by rw [Constant.factor]; rfl
    refine Yields.bind ((value_folds ih (by omega) h op.token_follows hplain).mono
      (fun hv left => by rw [hfactor, hv]; rfl) fun _ _ => id) ?_
    rintro r s₁ ⟨item1, vec₁, x, ts₁, rfl, hitem1, hv, hpassed₁, hwritten₁⟩
    simp only [hv, Option.bind_some] at hfactor
    refine Yields.step (currentType_eq s₁) ?_
    rw [ParserState.currentToken_type hpassed₁.ahead, op.isFactorOperator_token]
    cases hop : op.isProduct with
    | false =>
      simp only [hop, Bool.false_eq_true, if_false] at hfactor
      refine Yields.pure ⟨item1, _, x, ts₁, rfl, hitem1,
        Or.inr ⟨op, rest, hop, rfl, ?_, fun second => ?_, hfactor, hpassed₁, _, _, hwritten₁⟩⟩
      · simp only [Constant.body, List.length_append, List.length_cons]
        omega
      · rw [Constant.wideFactor, hop, if_neg Bool.false_ne_true]
    | true =>
      simp only [hop, if_true] at hfactor
      have hwideness : ∀ second,
          (Constant.cons minus v op rest).wideFactor second = rest.wideProduct second :=
        fun second => by rw [Constant.wideFactor, hop, if_pos rfl]
      rw [if_pos rfl]
      have hchain : (Constant.cons minus v op rest).chain = rest.multiplied := by
        rw [Constant.chain, hop, Bool.true_and]
      rw [hchain] at hwide
      refine (behindValue_folds ih (by omega) hpassed₁.ahead hl hwide hpassed₁.plain hitem1).mono
        (fun hno left => by rw [hfactor, hno]) ?_
      rintro r s₂ ⟨item, vec₂, y, ts₂, rfl, hitem, hdone | hsum⟩
      · obtain ⟨hproduct, hpassed₂, hwritten, hno⟩ := hdone
        exact ⟨item, vec₂, y, _, rfl, hitem, Or.inl ⟨fun left => by rw [hfactor, hproduct],
          hpassed₁.trans hpassed₂, hwritten.prepend _, fun h second => by
            rw [hwideness, hno (hchain ▸ h)]⟩⟩
      · obtain ⟨op', rest', hop', hlast, hless, hwide', hproduct, hpassed₂, _, _, hwritten⟩ := hsum
        refine ⟨item, vec₂, y, _, rfl, hitem, Or.inr ⟨op', rest', hop', hlast, ?_, fun second => ?_,
          fun left => by rw [hfactor, hproduct], hpassed₁.trans hpassed₂, _, _, hwritten.prepend _⟩⟩
        · have hbody := congrArg List.length rest.lexemes_eq
          rw [List.length_append] at hbody
          simp only [Constant.body, List.length_append, List.length_cons]
          omega
        · rw [hwideness, hwide']

/-! ## sums -/

/-- What `term` has to the left of its operator. A minus in front has 0 there. -/
def IsLeft (item : Option Item) (x : Int) (op : Operation) : Prop :=
  (∃ item1, item = some item1 ∧ IsConstant item1 x) ∨ item = none ∧ x = 0 ∧ op = .sub

/-- What `term` does behind its operator. -/
def behindOperator (ex : Production) (fuel : Nat) (termKind : Operation) (indexFirst : Int)
    (item1 : Option Item) (vec : List FixUps) : P (Option Item × List FixUps) := do
  let (item2, vec) ← factor delayedCodeGen ex fuel vec
  let mut returnItem ← delayedCodeGen termKind indexFirst item1 item2
  if isTermOperator (← currentType) then
    let termKind ← deref (← getOperation)
    returnItem ← delayedCodeGen termKind indexFirst returnItem (← freshExpression ex)
  return (if item2.isSome then returnItem else item1, vec)

/-- The operator of a sum is passed. -/
theorem behindFactor_run {ex : Production} {left : Option Item} {l : Lexeme} {ls : List Lexeme}
    (h : s.ahead = (op.token, none) :: l :: ls) (herr : l.1 ≠ .tError)
    (hop : op.isProduct = false) (hplain : s.Plain) (hleft : IsLeft left x op) :
    ∃ item1 index, IsConstant item1 x ∧ Passed s s.shift [s.currentToken] (l :: ls) ∧
      behindFactor ex fuel (left, vec) s =
        behindOperator ex fuel op index (some item1) vec s.shift := by
  have htype := ParserState.currentToken_type h
  obtain ⟨item1, heq, hitem1⟩ : ∃ item1,
      (if left = none ∧ s.currentToken.type = .tMinus then
        some { mode := 2, type := some .intType, expr := .number 0 }
      else left) = some item1 ∧ IsConstant item1 x := by
    rcases hleft with ⟨item1, rfl, hitem1⟩ | ⟨rfl, rfl, rfl⟩
    · exact ⟨item1, if_neg (fun h => Option.some_ne_none _ h.1), hitem1⟩
    · exact ⟨_, if_pos ⟨rfl, htype⟩, rfl, rfl, rfl⟩
  obtain ⟨hget, hpassed⟩ := getOperation_run op h hplain ⟨l, ls, rfl, herr⟩
  refine ⟨item1, (s.tokenList.length : Int) - 1, hitem1, hpassed, ?_⟩
  unfold behindFactor
  rw [bind_ok (currentType_eq s)]
  simp only [heq]
  rw [bind_ok (currentType_eq s), htype, op.isTermOperator_token, hop, Bool.not_false, if_pos rfl,
    bind_ok (tokenCount_eq s), bind_ok hget, bind_ok (deref_run op)]
  rfl

/-- The second factor of a sum, and what follows it. -/
theorem behindFactor_folds (ih : ExpressionFolds n) {e : Constant} {left : Option Item}
    (hlen : e.body.length ≤ n) (h : s.ahead = (op.token, none) :: (e.body ++ l :: more))
    (hop : op.isProduct = false) (hl : EndsTerm l.1)
    (hwide : e.wideFactor true = true → EndsExpression l.1) (hplain : s.Plain)
    (hleft : IsLeft left x op) :
    Yields (behindFactor (expression delayedCodeGen n) (fuel + 1) (left, vec)) s
      (e.factor (some (x, op)) = none)
      (Folds s (l :: more) (e.factor (some (x, op))) e.last some) := by
  obtain ⟨l₁, ls₁, heq₁, herr₁⟩ := e.body_cons (l :: more)
  have herr : l₁.1 ≠ .tError := by rcases herr₁ with h₁ | h₁ <;> rw [h₁] <;> decide
  rw [heq₁] at h
  obtain ⟨item1, index, hitem1, hpassed₀, hrun⟩ := behindFactor_run h herr hop hplain hleft
  rw [← heq₁] at hpassed₀
  refine yields_congr hrun ?_
  unfold behindOperator
  refine Yields.bind ((factor_folds ih hlen hpassed₀.ahead hl
    (fun h => hwide (Constant.wideFactor_of_chain h true)) hpassed₀.plain).mono
    (fun hno => hno _) fun _ _ => id) ?_
  rintro r s₁ ⟨item2, vec₁, y, ts, rfl, hitem2, hdone | hsum⟩
  · obtain ⟨hfactor, hpassed₁, hwritten₁, -⟩ := hdone
    refine Yields.bind ((fold_last hitem1 hitem2 (hpassed₀.trans hpassed₁)
      (hwritten₁.prepend _)).mono (fun hw => by rw [hfactor]; exact hw) fun _ _ => id) ?_
    rintro r s₂ ⟨item, w, rfl, hitem, hw, hpassed₂, hwritten₂⟩
    refine Yields.step (currentType_eq s₂) ?_
    rw [ParserState.currentToken_type hpassed₂.ahead, hl.2.2]
    exact Yields.pure ⟨item, _, w, _, rfl, hitem, by rw [hfactor]; exact hw, hpassed₂, hwritten₂⟩
  · obtain ⟨op', rest, hop', hlast, hless, hwide', hfactor, hpassed₁, _, _, hwritten₁⟩ := hsum
    have hends : EndsExpression l.1 := hwide (by rw [hwide', Bool.true_or])
    have hsum : e.factor (some (x, op)) =
        (op.fold x y).bind fun w => rest.fold.bind (op'.fold w) := by
      rw [hfactor]
      rfl
    refine Yields.bind ((fold_last hitem1 hitem2 (hpassed₀.trans hpassed₁)
      (hwritten₁.prepend _)).mono (fun hw => by rw [hsum, hw]; rfl) fun _ _ => id) ?_
    rintro r s₂ ⟨item, w, rfl, hitem, hw, hpassed₂, hwritten₂⟩
    rw [hw, Option.bind_some] at hsum
    refine Yields.step (currentType_eq s₂) ?_
    rw [ParserState.currentToken_type hpassed₂.ahead, op'.isTermOperator_token, hop', Bool.not_false,
      if_pos rfl]
    obtain ⟨l₂, ls₂, heq₂, herr₂⟩ := rest.lexemes_cons (l :: more)
    obtain ⟨hget', hpassed₃⟩ := getOperation_run op' hpassed₂.ahead hpassed₂.plain
      ⟨l₂, ls₂, heq₂, herr₂⟩
    refine Yields.step hget' ?_
    refine Yields.step (deref_run op') ?_
    refine Yields.bind ((freshExpression_folds ih (by omega) hpassed₃.ahead hends
      hpassed₃.plain).mono (fun hz => by rw [hsum, hz]; rfl) fun _ _ => id) ?_
    rintro r s₄ ⟨item3, z, ts₄, rfl, hitem3, hz, hpassed₄, hwritten₄⟩
    rw [hz, Option.bind_some] at hsum
    refine Yields.bind ((fold_last hitem hitem3 ((hpassed₂.trans hpassed₃).trans hpassed₄)
      (hwritten₄.prepend _)).mono (fun hu => by rw [hsum, hu]) fun _ _ => id) ?_
    rintro r s₅ ⟨item', u, rfl, hitem', hu, hpassed₅, hwritten₅⟩
    rw [hlast] at hwritten₅
    exact Yields.pure ⟨item', _, u, _, rfl, hitem', hsum.trans hu, hpassed₅, hwritten₅⟩

/-- A minus behind an operator of sums is an error. -/
theorem behindFactor_minus {ls : List Lexeme} {item : Item} (hop : op.isProduct = false)
    (h : s.ahead = (op.token, none) :: (.tMinus, none) :: ls) (hplain : s.Plain)
    (hitem : IsConstant item x) :
    Yields (behindFactor (expression delayedCodeGen n) (fuel + 1) (some item, vec)) s True
      fun _ _ => False := by
  obtain ⟨item1, index, -, hpassed, hrun⟩ := behindFactor_run h
    (show TokenID.tMinus ≠ .tError by decide) hop hplain (Or.inl ⟨item, rfl, hitem⟩)
  have htype := ParserState.currentToken_type hpassed.ahead
  refine yields_congr hrun ?_
  unfold behindOperator
  refine Yields.step (factor_minus htype (Nat.succ_pos _) vec) ?_
  exact Yields.bind (delayedCodeGen_missing op _ _ _) fun _ _ h => h.elim

/-- **A sum** is read as `fold`. -/
theorem term_folds (ih : ExpressionFolds n) {e : Constant} (hlen : e.lexemes.length ≤ n)
    (h : s.ahead = e.lexemes ++ l :: more) (hl : EndsTerm l.1)
    (hwide : e.wide = true → EndsExpression l.1) (hplain : s.Plain) :
    Yields (term delayedCodeGen (expression delayedCodeGen n) (fuel + 1) vec) s (e.fold = none)
      (Folds s (l :: more) e.fold e.last e.shown) := by
  have hbody := congrArg List.length e.lexemes_eq
  rw [List.length_append] at hbody
  rw [term_eq]
  unfold Constant.wide at hwide
  cases hminus : e.minus with
  | true =>
    rw [Constant.lexemes_of_minus hminus] at h
    rw [hminus] at hwide
    rw [Constant.fold_of_minus hminus]
    refine Yields.step (factor_minus (ParserState.currentToken_type h) (Nat.succ_pos _) vec) ?_
    have hleft : IsLeft none 0 .sub := Or.inr ⟨rfl, rfl, rfl⟩
    refine (behindFactor_folds ih (by omega) h rfl hl hwide hplain hleft).mono id ?_
    rintro r s₁ ⟨item, vec₁, y, ts, rfl, hitem, hfold, hpassed, hwritten⟩
    refine ⟨item, vec₁, y, ts, rfl, hitem, hfold, hpassed, ?_⟩
    rwa [Constant.shown_of_minus hminus]
  | false =>
    rw [Constant.lexemes_of_not_minus hminus] at h
    rw [hminus] at hwide
    rw [Constant.fold_of_not_minus hminus]
    refine Yields.bind ((factor_folds ih (by omega) h hl
      (fun h => hwide (Constant.wideFactor_of_chain h false)) hplain).mono (fun hno => hno none)
      fun _ _ => id) ?_
    rintro r s₁ ⟨item, vec₁, y, ts, rfl, hitem, hdone | hsum⟩
    · obtain ⟨hfactor, hpassed, hwritten, -⟩ := hdone
      unfold behindFactor
      refine Yields.step (currentType_eq s₁) ?_
      simp only [reduceCtorEq, false_and, if_false]
      refine Yields.step (currentType_eq s₁) ?_
      rw [ParserState.currentToken_type hpassed.ahead, hl.2.2]
      refine Yields.pure ⟨item, _, y, ts, rfl, hitem, hfactor none, hpassed, ?_⟩
      rwa [Constant.shown_of_not_minus hminus]
    · obtain ⟨op, rest, hop, hlast, hless, hwide', hfactor, hpassed, _, _, hwritten⟩ := hsum
      have hshown : ∀ y, e.shown y = some y := by
        intro y
        rw [Constant.shown_of_not_minus hminus]
        cases e with
        | one minus v => exact absurd (hwide' true) (by rw [Constant.wideFactor]; simp)
        | cons minus v op rest => rfl
      rw [hfactor]
      cases hrest : rest.minus with
      | true =>
        have hahead := hpassed.ahead
        rw [Constant.lexemes_of_minus hrest] at hahead
        refine (behindFactor_minus hop hahead hpassed.plain hitem).mono (fun _ => ?_) fun _ _ h => h.elim
        simp only [behind, if_true]
      | false =>
        have hahead := hpassed.ahead
        have hwiden : rest.wideFactor true = true → EndsExpression l.1 := fun h =>
          hwide (by rw [hwide', h, Bool.or_true])
        have hlast' := congrArg List.length rest.lexemes_eq
        rw [List.length_append] at hlast'
        rw [Constant.lexemes_of_not_minus hrest] at hahead
        simp only [behind, Bool.false_eq_true, if_false]
        refine (behindFactor_folds ih (by omega) hahead hop hl hwiden hpassed.plain
          (Or.inl ⟨item, rfl, hitem⟩)).mono id ?_
        rintro r s₂ ⟨item', vec₂, z, ts₂, rfl, hitem', hfold, hpassed₂, hwritten₂⟩
        rw [hlast] at hwritten₂
        refine ⟨item', vec₂, z, _, rfl, hitem', hfold, hpassed.trans hpassed₂, ?_⟩
        rw [hshown]
        exact hwritten₂.prepend _

/-! ## the whole expression -/

/-- The last token of a constant. -/
theorem Written.last_run {s₁ : ParserState} {ts : List Ident} {rest : List Lexeme}
    {shown : Option Int} {v : Value} (hwritten : Written ts y shown v) (hpassed : Passed s s₁ ts rest) :
    ∃ t, tokenAt ((s₁.tokenList.length : Int) - 1) s₁ = .ok t s₁ ∧ numberOf t.value = shown ∧
      t.type ≠ .tSident := by
  obtain ⟨closed, a, htrail⟩ := hwritten.trail
  obtain ⟨pre, t, rfl, hvalue, htype⟩ := htrail.concat
  have hlist : s₁.tokenList = s.tokenList ++ pre ++ [t] := by
    rw [hpassed.tokens, List.append_assoc]
  exact ⟨t, tokenAt_last hlist, hvalue, htype⟩

theorem Written.isBooleanIdentifier_run {s₁ : ParserState} {ts : List Ident} {rest : List Lexeme}
    {shown : Option Int} {v : Value} (hwritten : Written ts y shown v)
    (hpassed : Passed s s₁ ts rest) : isBooleanIdentifier s₁ = .ok false s₁ := by
  obtain ⟨t, hlast, -, htype⟩ := hwritten.last_run hpassed
  have hcell : getIdentifersCell ((s₁.tokenList.length : Int) - 1) s₁ = .ok none s₁ := by
    unfold getIdentifersCell
    rw [bind_ok hlast, if_neg htype]
    rfl
  unfold isBooleanIdentifier
  rw [bind_ok (tokenCount_eq s₁), bind_ok hcell]
  rfl

/-- A constant is no condition. -/
theorem relation_folds (ih : ExpressionFolds n) {e : Constant} (hlen : e.lexemes.length ≤ n)
    (h : s.ahead = e.lexemes ++ l :: more) (hl : EndsExpression l.1) (hplain : s.Plain) :
    Yields (relation delayedCodeGen (expression delayedCodeGen n) (fuel + 1) vec) s (e.fold = none)
      (Folds s (l :: more) e.fold e.last e.shown) := by
  unfold relation
  refine Yields.bind (term_folds ih hlen h ⟨hl.1, hl.2.1, hl.2.2.1⟩ (fun _ => hl) hplain) ?_
  rintro r s₁ ⟨item, vec₁, y, ts, rfl, hitem, hfold, hpassed, hwritten⟩
  have hdone : Folds s (l :: more) e.fold e.last e.shown (some item, vec₁) s₁ :=
    ⟨item, vec₁, y, ts, rfl, hitem, hfold, hpassed, hwritten⟩
  refine Yields.step (currentType_eq s₁) ?_
  rw [ParserState.currentToken_type hpassed.ahead, hl.2.2.2.1]
  refine Yields.step get_run ?_
  by_cases hmode : s₁.condMode = true
  · rw [if_pos hmode, deref_some, pure_bind]
    have hnumber : ¬ (item.mode = 2 ∧ item.type = some .boolType) := by
      rw [hitem.2.1]
      simp
    rw [if_neg hnumber]
    refine Yields.step (hwritten.isBooleanIdentifier_run hpassed) ?_
    exact Yields.pure hdone
  · rw [if_neg hmode]
    exact Yields.pure hdone

theorem andExpression_folds (ih : ExpressionFolds n) {e : Constant} (hlen : e.lexemes.length ≤ n)
    (h : s.ahead = e.lexemes ++ l :: more) (hl : EndsExpression l.1) (hplain : s.Plain) :
    Yields (andExpression delayedCodeGen (expression delayedCodeGen n) (fuel + 1) vec) s
      (e.fold = none) (Folds s (l :: more) e.fold e.last e.shown) := by
  unfold andExpression
  refine Yields.bind (relation_folds ih hlen h hl hplain) ?_
  rintro r s₁ ⟨item, vec₁, y, ts, rfl, hitem, hfold, hpassed, hwritten⟩
  have hand : (s₁.currentToken.type == TokenID.tAnd) = false := by
    rw [ParserState.currentToken_type hpassed.ahead]
    exact beq_false_of_ne hl.2.2.2.2.1
  refine Yields.step (whileLoop_exit hand) ?_
  exact Yields.pure ⟨item, _, y, ts, rfl, hitem, hfold, hpassed, hwritten⟩

/-- **An expression** is read as `fold`. -/
theorem expression_folds : ∀ n, ExpressionFolds n := by
  intro n
  induction n with
  | zero =>
    intro e s l more vec hlen
    omega
  | succ n ih =>
    intro e s l more vec hlen h hl hplain
    obtain ⟨n, rfl⟩ : ∃ k, n = k + 1 := by
      obtain ⟨l', ls, hls, -⟩ := e.lexemes_cons []
      have := congrArg List.length hls
      simp only [List.append_nil, List.length_cons] at this
      exact ⟨n - 1, by omega⟩
    unfold expression expressionBody
    refine Yields.step (modify_run _) ?_
    refine Yields.bind (andExpression_folds ih (by omega) h hl hplain) ?_
    rintro r s₁ ⟨item, vec₁, y, ts, rfl, hitem, hfold, hpassed, hwritten⟩
    have hor : (s₁.currentToken.type == TokenID.tOr) = false := by
      rw [ParserState.currentToken_type hpassed.ahead]
      exact beq_false_of_ne hl.2.2.2.2.2
    refine Yields.step (whileLoop_exit hor) ?_
    refine Yields.step (modify_run _) ?_
    refine Yields.pure ⟨item, _, y, ts, rfl, hitem, hfold, ?_, hwritten⟩
    exact ⟨hpassed.ahead, hpassed.cg, hpassed.plain, hpassed.tokens, hpassed.braces⟩

end Folding

end Compiler
