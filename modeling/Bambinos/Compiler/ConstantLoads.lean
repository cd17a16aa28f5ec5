import Bambinos.Compiler.ConstantRuns
import Bambinos.Compiler.Statement

/-!
# The callers of an expression

An expression of numbers is not loaded by the production that parses it. Each caller looks for the
constant in the token list: an assignment in the last token that is no closing bracket, the others in
the last token.

* `Trail.lastOperand_run`, `Written.loadLast_run` — which token is read
* `initialiser`, `firstArgument`, `operand` — the parts of productions that load an expression
* the runs of the callers on an expression of numbers, one by one
-/

namespace Compiler.Folding

open Infra
open Compiler.Parser

/-! ## the token that is read -/

section Tokens

variable {s s₁ : ParserState} {ts : List Ident} {closed : Bool} {a y : Int} {l : Option Int}
  {rest : List Lexeme} {α : Type}

/-- A closing bracket is skipped. A message is printed if no number comes before it. -/
theorem lastOperand_rparen {t : Ident} (next : Ident) (htype : t.type = .tRparen) (i : Int)
    (s : ParserState) : ∃ reports, ∀ rest, lastOperand (t :: next :: rest) i s =
      lastOperand (next :: rest) (i + 1) { s with reports := reports } := by
  by_cases hnumber : next.type ≠ .tNumber
  · refine ⟨s.reports ++ [.message ("INTERNAL ERROR IN PARSER. this should never ever happen, "
      ++ "probably your computer is defect, buy a new one !")], fun rest => ?_⟩
    rw [lastOperand, if_pos htype]
    dsimp only
    rw [if_pos hnumber]
    rfl
  · refine ⟨s.reports, fun rest => ?_⟩
    rw [lastOperand, if_pos htype]
    dsimp only
    rw [if_neg hnumber]

/-- An assignment finds the number, whatever it reports about the brackets behind it. -/
theorem Trail.lastOperand_run (h : Trail ts closed a l) : ∀ (i : Int) (s : ParserState),
    ∃ pre t suf reports, ts = pre ++ t :: suf ∧ t.type = .tNumber ∧ t.value = some (.number a) ∧
      lastOperand ts.reverse i s =
        .ok (i + (suf : List Ident).length) { s with reports := reports } := by
  induction h with
  | @number pre t a htype hvalue =>
    intro i s
    refine ⟨pre, t, [], s.reports, rfl, htype, hvalue, ?_⟩
    have hother : ¬ t.type = .tRparen := by
      rw [htype]
      decide
    rw [List.reverse_append, List.reverse_singleton, List.singleton_append, lastOperand,
      if_neg hother, List.length_nil, Int.natCast_zero, Int.add_zero]
    rfl
  | @rparen ts t closed a l h htype ih =>
    intro i s
    obtain ⟨ts', t', rfl, -⟩ := h.concat
    obtain ⟨message, hskip⟩ := lastOperand_rparen t' htype i s
    obtain ⟨pre, t₁, suf, reports, heq, htype₁, hvalue₁, hrun⟩ :=
      ih (i + 1) { s with reports := message }
    refine ⟨pre, t₁, suf ++ [t], reports, ?_, htype₁, hvalue₁, ?_⟩
    · rw [heq, List.append_assoc, List.cons_append]
    · rw [List.reverse_append, List.reverse_singleton, List.singleton_append] at hrun
      rw [List.reverse_append, List.reverse_append, List.reverse_singleton, List.reverse_singleton,
        List.singleton_append, List.singleton_append, hskip, hrun, List.length_append,
        List.length_singleton, Int.natCast_add, Int.natCast_one]
      congr 1
      omega

theorem putValue2Reg_number {i : Int} {t : Ident} (h : tokenAt i s = .ok t s)
    (htype : t.type ≠ .tSident) (hvalue : numberOf t.value = some a) (ha : int32 a = a) :
    putValue2Reg i s = .ok none { s with cg := s.cg.addI a } := by
  have hparse : (parseInt t.value : P Int) s = .ok a s := by
    unfold numberOf at hvalue
    split at hvalue
    · next n heq =>
      injection hvalue with hvalue
      rw [heq, hvalue]
      exact congrFun (if_pos ha) s
    · cases hvalue
  unfold putValue2Reg
  rw [bind_ok h, if_neg htype, bind_ok hparse]
  rfl

theorem putValue2Reg_text {i : Int} {t : Ident} (h : tokenAt i s = .ok t s)
    (htype : t.type ≠ .tSident) (hvalue : numberOf t.value = none) :
    putValue2Reg i s = .error .numberFormat s := by
  have hparse : (parseInt t.value : P Int) s = .error .numberFormat s := by
    cases hvalue' : t.value with
    | none => rfl
    | some v =>
      cases v with
      | text x => rfl
      | number n =>
        rw [hvalue'] at hvalue
        cases hvalue
  unfold putValue2Reg
  rw [bind_ok h, if_neg htype, bind_error hparse]

variable {v : Value} {shown : Option Int}

/-- The constant is found in the last token. -/
theorem Written.loadLast_run (hwritten : Written ts y (some y) v) (hpassed : Passed s s₁ ts rest)
    (hy : int32 y = y) {m : P α} :
    (do let _ ← putValue2Reg ((← tokenCount) - 1); m) s₁ = m { s₁ with cg := s.cg.addI y } := by
  obtain ⟨t, hlast, hvalue, htype⟩ := hwritten.last_run hpassed
  rw [bind_ok (tokenCount_eq s₁), bind_ok (putValue2Reg_number hlast htype hvalue hy), hpassed.cg]

/-- The last token is a bracket that carries no number. -/
theorem Written.loadLast_error (hwritten : Written ts y none v) (hpassed : Passed s s₁ ts rest)
    {m : P α} :
    (do let _ ← putValue2Reg ((← tokenCount) - 1); m) s₁ = .error .numberFormat s₁ := by
  obtain ⟨t, hlast, hvalue, htype⟩ := hwritten.last_run hpassed
  rw [bind_ok (tokenCount_eq s₁), bind_error (putValue2Reg_text hlast htype hvalue)]

end Tokens

/-! ## the callers -/

section Callers

variable (fuel : Nat)

/-- What `primitiveDeclaration` does up to the end of the initialiser. -/
def initialiser : P (Option TypeDesc × Item) := do
  let type ← primitive
  identifier
  let item ← assignmentSuffix fuel
  return (type, item)

/-- What it does then. -/
def initialised (type : Option TypeDesc) (item : Item) : P Unit := do
  let itemType ← assignedType item
  if itemType ≠ type then
    syntaxError ("Invalid Type assignment, in line :" ++ (← line))
  let name ← tokenName 1
  add2SymTable name .var type 1
  let cell ← deref (← getSymbol (← tokenAt 1).value)
  gen (·.storeWord cell)

/-- What `methodCallSuffix` does for the first argument. -/
def firstArgument : P Unit := do
  if (← currentType).startSetExpression then
    argument (expression delayedCodeGen fuel)

/-- What `relation` does with each of its operands. -/
def operand (vec : List FixUps) : P (Item × List FixUps) := do
  let (item, vec) ← term delayedCodeGen (expression delayedCodeGen fuel) fuel vec
  let item ← loadOperand (← deref item)
  return (item, vec)

/-- What it does behind the first one. -/
def comparison (item : Item) (vec : List FixUps) : P (Option Item × List FixUps) := do
  let op ← relationOperator
  let (item2, vec) ← operand fuel vec
  if item.type ≠ item2.type then
    syntaxError ("Cannot compare incompatible types in line: " ++ (← line))
  let pcPos ← genGet (·.relation op)
  return (some { item with inReg := false }, ← addFixUp vec pcPos)

/-- Both operands of a relation are loaded by `operand`. -/
theorem relation_operands {fuel : Nat} {s s₁ : ParserState} {vec vec₁ : List FixUps}
    {item : Option Item}
    (h : term delayedCodeGen (expression delayedCodeGen fuel) fuel vec s = .ok (item, vec₁) s₁)
    (hrelation : s₁.currentToken.type.startSetRelation = true) :
    relation delayedCodeGen (expression delayedCodeGen fuel) fuel vec s =
      (do let (item, vec) ← operand fuel vec; comparison fuel item vec) s := by
  unfold relation operand comparison operand
  simp only [bind_assoc, pure_bind]
  rw [bind_ok h, bind_ok h]
  dsimp only
  rw [bind_ok (currentType_eq s₁), if_pos hrelation]

/-- The initialiser of a declaration is an assignment. -/
theorem primitiveDeclaration_initialiser {fuel : Nat} {s s₁ s₂ : ParserState}
    {type : Option TypeDesc} (hprimitive : primitive s = .ok type s₁)
    (hname : identifier s₁ = .ok () s₂) (heq : s₂.currentToken.type = .tEql) :
    primitiveDeclaration fuel s =
      (do let (type, item) ← initialiser fuel; initialised type item) s := by
  unfold primitiveDeclaration initialiser initialised
  simp only [bind_assoc, pure_bind]
  rw [bind_ok hprimitive, bind_ok hprimitive, bind_ok hname, bind_ok hname,
    bind_ok (currentType_eq s₂), if_pos heq]

/-- The first argument of a call. -/
theorem methodCallSuffix_firstArgument {fuel : Nat} :
    methodCallSuffix (expression delayedCodeGen fuel) fuel = (do
      expect .tLparen
      let (procMethod, foreignClassMember, type) ← calledMethod
      firstArgument fuel
      whileLoop
        (fun s => s.currentToken.type == .tComma || s.currentToken.type.startSetExpression)
        (fun _ => do
          expectWeak .tComma
          argument (expression delayedCodeGen fuel))
        fuel ()
      expect .tRparen
      let fixup ← genGet (·.methodCall procMethod)
      gen fun g => { g with fixupTable := g.fixupTable ++ [⟨foreignClassMember, fixup + 1⟩] }
      return some { mode := 3, type := type }) := by
  unfold methodCallSuffix firstArgument
  refine bind_congr fun _ => bind_congr fun _ => ?_
  simp only [bind_assoc]
  refine bind_congr fun t => ?_
  split
  · rfl
  · rw [pure_bind]

end Callers

/-! ## running a caller -/

section Runs

variable {e : Constant} {v : Int} {fuel : Nat} {s : ParserState} {l l' : Lexeme} {more : List Lexeme}

theorem newExpression_run (hfold : e.fold = some v) (hlen : e.lexemes.length < fuel)
    (h : s.ahead = e.lexemes ++ l :: more) (hl : EndsExpression l.1) (hplain : s.Plain) :
    ∃ item s₁ ts, newExpression fuel s = .ok (some item) s₁ ∧ IsConstant item v ∧
      Passed s s₁ ts (l :: more) ∧ Written ts v (e.shown v) e.last := by
  obtain ⟨r, s₁, hrun, item, y, ts, rfl, hitem, hy, hpassed, hwritten⟩ :=
    (freshExpression_folds (expression_folds fuel) hlen h hl hplain).exists_ok
      (by rw [hfold]; exact Option.some_ne_none v)
  obtain rfl : v = y := Option.some.inj (hfold.symm.trans hy)
  exact ⟨item, s₁, ts, hrun, hitem, hpassed, hwritten⟩

/-- The state in front of an expression, behind a first token. -/
theorem shift_passed {id : TokenID} {x : Option TokenValue}
    (h : s.ahead = (id, x) :: (e.lexemes ++ l :: more)) (hid : id ≠ .tSemicolon) (hplain : s.Plain) :
    expect id s = .ok () s.shift ∧ Passed s s.shift [s.currentToken] (e.lexemes ++ l :: more) := by
  obtain ⟨l₁, ls₁, heq, herr⟩ := e.lexemes_cons (l :: more)
  rw [heq] at h ⊢
  exact ⟨expect_run h hid herr, Passed.shift h hplain⟩

/-- An assignment loads what the expression of the last number is folded to. -/
theorem assignmentSuffix_run (hfold : e.fold = some v) (hlen : e.lexemes.length < fuel)
    (h : s.ahead = (.tEql, none) :: (e.lexemes ++ l :: more)) (hl : EndsExpression l.1)
    (hplain : s.Plain) :
    ∃ item a s₁, assignmentSuffix fuel s = .ok item s₁ ∧ e.trailing.fold = some a ∧
      s₁.cg = s.cg.addI a := by
  obtain ⟨hexpect, hpassed₀⟩ := shift_passed h (by decide) hplain
  obtain ⟨item, s₁, ts, hrun, hitem, hpassed, hwritten⟩ :=
    newExpression_run hfold hlen hpassed₀.ahead hl hpassed₀.plain
  obtain ⟨closed, a, htrail, ha⟩ := hwritten.trailing hfold
  have htokens := htrail.prepend s.shift.tokenList
  rw [← hpassed.tokens] at htokens
  obtain ⟨pre, t, suf, reports, heq, htype, hvalue, hlast⟩ := htokens.lastOperand_run 1 s₁
  have hindex : (s₁.tokenList.length : Int) - (1 + suf.length) = pre.length := by
    rw [heq, List.length_append, List.length_cons]
    omega
  have htoken : tokenAt ((s₁.tokenList.length : Int) - (1 + suf.length))
      { s₁ with reports := reports } = .ok t { s₁ with reports := reports } := by
    rw [hindex]
    exact tokenAt_run (by simp [heq])
  have hload := putValue2Reg_number htoken (by rw [htype]; decide) (by rw [hvalue]; rfl)
    (Constant.fold_int32 ha)
  have hcg : s₁.cg.addI a = s.cg.addI a := by rw [hpassed.cg, hpassed₀.cg]
  refine ⟨item, a, { s₁ with reports := reports, cg := s₁.cg.addI a }, ?_, ha, hcg⟩
  unfold assignmentSuffix
  rw [bind_ok hexpect, bind_ok hrun, deref_some, pure_bind, if_pos (Or.inr hitem.1), bind_ok get_run,
    bind_ok hlast, bind_ok (tokenCount_eq _), bind_ok hload, takeItem_constant hitem, pure_bind]
  rfl

theorem shown_of_not_bracketed (h : e.bracketed = false) : e.shown v = some v := by
  unfold Constant.shown
  rw [h]
  rfl

theorem shown_of_bracketed (h : e.bracketed = true) : e.shown v = none := if_pos h

theorem returnStatement_run (hfold : e.fold = some v) (hlen : e.lexemes.length < fuel)
    (h : s.ahead = (.tReturn, none) :: (e.lexemes ++ l :: l' :: more)) (hl : l.1 = .tSemicolon)
    (herr : l'.1 ≠ .tError) (hplain : s.Plain) (hshape : e.bracketed = false) :
    ∃ s₁, returnStatement fuel s = .ok () s₁ ∧ s₁.cg = ((s.cg.addI v).methodCall (-43)).2 := by
  obtain ⟨id, x⟩ := l
  obtain rfl : id = .tSemicolon := hl
  obtain ⟨hexpect, hpassed₀⟩ := shift_passed h (by decide) hplain
  obtain ⟨item, s₁, ts, hrun, hitem, hpassed, hwritten⟩ :=
    newExpression_run hfold hlen hpassed₀.ahead semicolon_ends hpassed₀.plain
  rw [shown_of_not_bracketed hshape] at hwritten
  have hahead :
      ParserState.ahead { s₁ with cg := s.shift.cg.addI v, leaks := s₁.leaks ++ [.leftOver] } =
        (.tSemicolon, x) :: l' :: more := hpassed.ahead
  have hsemicolon := semicolon_run hahead herr
  unfold returnStatement
  rw [bind_ok hexpect, bind_ok hrun, deref_some, pure_bind, if_pos (Or.inr hitem.1),
    hwritten.loadLast_run hpassed (Constant.fold_int32 hfold), takeItem_constant hitem, pure_bind]
  dsimp only
  rw [bind_ok (show leak .leftOver _ = .ok _ _ from rfl), bind_ok hsemicolon]
  exact ⟨_, rfl, rfl⟩

theorem returnStatement_error (hfold : e.fold = some v) (hlen : e.lexemes.length < fuel)
    (h : s.ahead = (.tReturn, none) :: (e.lexemes ++ l :: more)) (hl : l.1 = .tSemicolon)
    (hplain : s.Plain) (hshape : e.bracketed = true) :
    ∃ s₁, returnStatement fuel s = .error .numberFormat s₁ := by
  obtain ⟨hexpect, hpassed₀⟩ := shift_passed h (by decide) hplain
  obtain ⟨item, s₁, ts, hrun, hitem, hpassed, hwritten⟩ :=
    newExpression_run hfold hlen hpassed₀.ahead (hl ▸ semicolon_ends) hpassed₀.plain
  rw [shown_of_bracketed hshape] at hwritten
  unfold returnStatement
  rw [bind_ok hexpect, bind_ok hrun, deref_some, pure_bind, if_pos (Or.inr hitem.1),
    hwritten.loadLast_error hpassed]
  exact ⟨_, rfl⟩

theorem argument_run (hfold : e.fold = some v) (hlen : e.lexemes.length < fuel)
    (h : s.ahead = e.lexemes ++ l :: more) (hl : EndsExpression l.1) (hplain : s.Plain)
    (hshape : e.bracketed = false) :
    ∃ s₁, argument (expression delayedCodeGen fuel) s = .ok () s₁ ∧
      s₁.cg = (s.cg.addI v).pushRegister := by
  obtain ⟨item, s₁, ts, hrun, hitem, hpassed, hwritten⟩ := newExpression_run hfold hlen h hl hplain
  rw [shown_of_not_bracketed hshape] at hwritten
  unfold newExpression at hrun
  unfold argument
  rw [bind_ok hrun, deref_some, pure_bind, if_pos (Or.inr hitem.1),
    hwritten.loadLast_run hpassed (Constant.fold_int32 hfold), takeItem_constant hitem, pure_bind]
  exact ⟨_, rfl, rfl⟩

theorem argument_error (hfold : e.fold = some v) (hlen : e.lexemes.length < fuel)
    (h : s.ahead = e.lexemes ++ l :: more) (hl : EndsExpression l.1) (hplain : s.Plain)
    (hshape : e.bracketed = true) :
    ∃ s₁, argument (expression delayedCodeGen fuel) s = .error .numberFormat s₁ := by
  obtain ⟨item, s₁, ts, hrun, hitem, hpassed, hwritten⟩ := newExpression_run hfold hlen h hl hplain
  rw [shown_of_bracketed hshape] at hwritten
  unfold newExpression at hrun
  unfold argument
  rw [bind_ok hrun, deref_some, pure_bind, if_pos (Or.inr hitem.1), hwritten.loadLast_error hpassed]
  exact ⟨_, rfl⟩

/-- The array that is indexed is declared: its name is the last token. -/
def ArrayNamed (s : ParserState) (cell : SymbolTableCell) : Prop :=
  ∃ ts t name, s.tokenList = ts ++ [t] ∧ t.value = some name ∧
    s.cg.symbolTable.getSymbol name.asString = some cell

theorem ArrayNamed.getSymbol_run {s₁ : ParserState} {ts : List Ident} {rest : List Lexeme}
    {cell : SymbolTableCell} (h : ArrayNamed s cell) (hpassed : Passed s s₁ ts rest) (a : Int) :
    ∃ t, tokenAt ((s.tokenList.length : Int) - 1) { s₁ with cg := s.cg.addI a } =
        .ok t { s₁ with cg := s.cg.addI a } ∧
      getSymbol t.value { s₁ with cg := s.cg.addI a } =
        .ok (some cell) { s₁ with cg := s.cg.addI a } := by
  obtain ⟨ts', t, name, hlist, hvalue, hcell⟩ := h
  refine ⟨t, ?_, ?_⟩
  · have hindex : (s.tokenList.length : Int) - 1 = ts'.length := by
      rw [hlist, List.length_append, List.length_singleton]
      omega
    rw [hindex]
    refine tokenAt_run ?_
    simp [hpassed.tokens, hlist]
  · unfold getSymbol
    rw [bind_ok get_run, hvalue]
    show EStateM.Result.ok (s.cg.symbolTable.getSymbol name.asString) _ = _
    rw [hcell]

theorem arraySelector_run {cell : SymbolTableCell} (hfold : e.fold = some v)
    (hlen : e.lexemes.length < fuel)
    (h : s.ahead = (.tLbrack, none) :: (e.lexemes ++ l :: l' :: more)) (hl : l.1 = .tRbrack)
    (herr : l'.1 ≠ .tError) (hplain : s.Plain) (harray : ArrayNamed s cell)
    (hshape : e.opens = false) :
    ∃ item s₁, arraySelector (expression delayedCodeGen fuel) s = .ok item s₁ ∧
      s₁.cg = (s.cg.addI v).selectElement cell := by
  obtain ⟨id, x⟩ := l
  obtain rfl : id = .tRbrack := hl
  have hends : EndsExpression .tRbrack :=
    ⟨⟨by decide, by decide, by decide, by decide⟩, by decide, by decide, by decide, by decide,
      by decide⟩
  have hbracketed : e.bracketed = false := by
    cases hb : e.bracketed with
    | false => rfl
    | true => rw [Constant.opens_of_bracketed hb] at hshape; cases hshape
  obtain ⟨hexpect, hpassed₀⟩ := shift_passed h (by decide) hplain
  obtain ⟨l₁, ls₁, heq, hstart⟩ := e.lexemes_of_not_opens hshape ((TokenID.tRbrack, x) :: l' :: more)
  have htype := hpassed₀.ahead
  rw [heq] at htype
  obtain ⟨item, s₁, ts, hrun, hitem, hpassed, hwritten⟩ :=
    newExpression_run hfold hlen hpassed₀.ahead hends hpassed₀.plain
  rw [shown_of_not_bracketed hbracketed] at hwritten
  have hahead : ParserState.ahead { s₁ with cg := (s.cg.addI v).selectElement cell } =
      (.tRbrack, x) :: l' :: more := hpassed.ahead
  have hrbrack := expectWeak_run hahead (by decide) herr
  obtain ⟨t, htoken, hcell⟩ := harray.getSymbol_run (hpassed₀.trans hpassed) v
  unfold newExpression at hrun
  unfold arraySelector
  rw [bind_ok (tokenCount_eq s), bind_ok hexpect, bind_ok (currentType_eq _),
    ParserState.currentToken_type htype, hstart, if_pos rfl, bind_ok hrun,
    deref_some, pure_bind, if_neg (not_not_intro hitem.2.1), if_pos (Or.inr hitem.1)]
  dsimp only
  rw [hwritten.loadLast_run hpassed (Constant.fold_int32 hfold), takeItem_constant hitem, pure_bind,
    hpassed₀.cg, bind_ok htoken, bind_ok hcell, deref_some, pure_bind,
    bind_ok (show gen _ _ = .ok () _ from rfl), bind_ok hrbrack]
  exact ⟨_, _, rfl, rfl⟩

/-- An index that begins with a bracket is not parsed. -/
theorem arraySelector_opens (h : s.ahead = (.tLbrack, none) :: (e.lexemes ++ l :: more))
    (hplain : s.Plain) (hshape : e.opens = true) :
    ∃ s₁, arraySelector (expression delayedCodeGen fuel) s = .ok none s₁ ∧ s₁.cg = s.cg := by
  obtain ⟨hexpect, hpassed₀⟩ := shift_passed h (by decide) hplain
  obtain ⟨ls, heq⟩ := e.lexemes_of_opens hshape (l :: more)
  have hahead := hpassed₀.ahead
  rw [heq] at hahead
  have htype : s.shift.currentToken.type = .tLparen := ParserState.currentToken_type hahead
  have hother : s.shift.currentToken.type ≠ .tRbrack := by
    rw [htype]
    decide
  obtain ⟨s₁, hrun, hstays⟩ := expectWeak_missing hother (by rw [htype]; decide)
  refine ⟨s₁, ?_, hstays.cg⟩
  unfold arraySelector
  rw [bind_ok (tokenCount_eq s), bind_ok hexpect, bind_ok (currentType_eq _), htype,
    if_neg (show ¬ TokenID.tLparen.startSetExpression = true by decide)]
  dsimp only
  rw [bind_ok hrun]
  rfl

theorem operand_run {vec : List FixUps} (hfold : e.fold = some v) (hlen : e.lexemes.length < fuel)
    (h : s.ahead = e.lexemes ++ l :: more) (hl : EndsTerm l.1)
    (hwide : e.wide = true → EndsExpression l.1) (hplain : s.Plain) (hshape : e.bracketed = false) :
    ∃ r s₁, operand fuel vec s = .ok r s₁ ∧ s₁.cg = s.cg.addI v := by
  obtain ⟨fuel, rfl⟩ : ∃ k, fuel = k + 1 := ⟨fuel - 1, by omega⟩
  have hterm : Yields (term delayedCodeGen (expression delayedCodeGen (fuel + 1)) (fuel + 1) vec) s
      _ _ := term_folds (expression_folds (fuel + 1)) (by omega) h hl hwide hplain
  obtain ⟨r, s₁, hrun, item, vec₁, y, ts, rfl, hitem, hy, hpassed, hwritten⟩ :=
    hterm.exists_ok (by rw [hfold]; exact Option.some_ne_none v)
  obtain rfl : v = y := Option.some.inj (hfold.symm.trans hy)
  rw [shown_of_not_bracketed hshape] at hwritten
  refine ⟨(item, vec₁), { s₁ with cg := s.cg.addI v }, ?_, rfl⟩
  unfold operand loadOperand
  rw [bind_ok hrun]
  dsimp only
  rw [deref_some, pure_bind, takeItem_constant hitem, pure_bind, hitem.1,
    if_neg (show ¬ 2 = 1 by decide), if_pos rfl]
  simp only [bind_assoc]
  rw [hwritten.loadLast_run hpassed (Constant.fold_int32 hfold)]
  rfl

theorem operand_error {vec : List FixUps} (hfold : e.fold = some v) (hlen : e.lexemes.length < fuel)
    (h : s.ahead = e.lexemes ++ l :: more) (hl : EndsTerm l.1)
    (hwide : e.wide = true → EndsExpression l.1) (hplain : s.Plain) (hshape : e.bracketed = true) :
    ∃ s₁, operand fuel vec s = .error .numberFormat s₁ := by
  obtain ⟨fuel, rfl⟩ : ∃ k, fuel = k + 1 := ⟨fuel - 1, by omega⟩
  have hterm : Yields (term delayedCodeGen (expression delayedCodeGen (fuel + 1)) (fuel + 1) vec) s
      _ _ := term_folds (expression_folds (fuel + 1)) (by omega) h hl hwide hplain
  obtain ⟨r, s₁, hrun, item, vec₁, y, ts, rfl, hitem, hy, hpassed, hwritten⟩ :=
    hterm.exists_ok (by rw [hfold]; exact Option.some_ne_none v)
  rw [shown_of_bracketed hshape] at hwritten
  refine ⟨s₁, ?_⟩
  unfold operand loadOperand
  rw [bind_ok hrun]
  dsimp only
  rw [deref_some, pure_bind, takeItem_constant hitem, pure_bind, hitem.1,
    if_neg (show ¬ 2 = 1 by decide), if_pos rfl]
  simp only [bind_assoc]
  rw [hwritten.loadLast_error hpassed]

/-- The type and the name in front of an initialiser. -/
theorem declared_run {id : TokenID} {name : String} {rest : List Lexeme}
    (h : s.ahead = (id, none) :: (.tSident, some (.text name)) :: (.tEql, none) :: rest)
    (hid : id.startSetPrimitive = true) (hplain : s.Plain) :
    ∃ type s₁ s₂ ts, primitive s = .ok type s₁ ∧ identifier s₁ = .ok () s₂ ∧
      Passed s s₂ ts ((.tEql, none) :: rest) := by
  have htype := ParserState.currentToken_type h
  have hsemi : id ≠ .tSemicolon := by
    rintro rfl
    cases hid
  have hexpect := expect_run h hsemi (show TokenID.tSident ≠ .tError by decide)
  have hpassed := Passed.shift h hplain
  have hprimitive : ∃ type, primitive s = .ok type s.shift := by
    unfold primitive
    rw [bind_ok (currentType_eq s), htype]
    cases id
    case tInt | tBool | tChar => exact ⟨_, by dsimp only; rw [bind_ok hexpect]; rfl⟩
    all_goals cases hid
  obtain ⟨type, hprimitive⟩ := hprimitive
  have hpassed' := hpassed.trans (Passed.shift hpassed.ahead hpassed.plain)
  refine ⟨type, s.shift, { s.shift.shift with classMember := true }, _, hprimitive, ?_,
    ⟨hpassed'.ahead, hpassed'.cg, hpassed'.plain, hpassed'.tokens, hpassed'.braces⟩⟩
  have hnext := ParserState.currentToken_type (ParserState.shift_ahead hpassed.ahead)
  unfold identifier
  rw [bind_ok (expect_run hpassed.ahead (by decide) (show TokenID.tEql ≠ .tError by decide))]
  simp only [bind_run, modify_run, currentType_eq, hnext]
  rfl

theorem initialiser_run {id : TokenID} {name : String} (hfold : e.fold = some v)
    (hlen : e.lexemes.length < fuel)
    (h : s.ahead = (id, none) :: (.tSident, some (.text name)) :: (.tEql, none) ::
      (e.lexemes ++ l :: more))
    (hid : id.startSetPrimitive = true) (hl : EndsExpression l.1) (hplain : s.Plain) :
    ∃ r a s₁, initialiser fuel s = .ok r s₁ ∧ e.trailing.fold = some a ∧ s₁.cg = s.cg.addI a := by
  obtain ⟨type, s₁, s₂, ts, hprimitive, hname, hpassed⟩ := declared_run h hid hplain
  obtain ⟨item, a, s₃, hrun, ha, hcg⟩ :=
    assignmentSuffix_run hfold hlen hpassed.ahead hl hpassed.plain
  refine ⟨(type, item), a, s₃, ?_, ha, hpassed.cg ▸ hcg⟩
  unfold initialiser
  rw [bind_ok hprimitive, bind_ok hname, bind_ok hrun]
  rfl

end Runs

end Compiler.Folding
