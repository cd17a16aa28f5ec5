import Bambinos.Compiler.Statement
import Bambinos.Compiler.Flow.Conditions

/-!
# Parsing statements

* `assignment_yields`, `while_yields`, `ifThen_yields`, `ifElse_yields` — the code of a statement is
  appended
* `bodyBlock_yields` — the code of a block is appended, and nothing else changes that matters
-/

namespace Compiler.Flow

open Infra Compiler.Parser

variable {s : ParserState} {c : Control} {l : Lexeme} {rest more : List Lexeme} {fuel n : Nat}
  {off : String → Int} {known : String → Prop} {o : Operand} {name : String}

/-- Code is appended. -/
def Control.write (c : Control) (code : List OpCodeElement) : Control :=
  { c with cg := c.cg.emit code }

@[simp] theorem Control.write_write (c : Control) (code code' : List OpCodeElement) :
    (c.write code).write code' = c.write (code ++ code') := by
  simp [Control.write]

@[simp] theorem Control.write_cg (c : Control) (code : List OpCodeElement) :
    (c.write code).cg = c.cg.emit code := rfl

/-- What holds between two statements. -/
structure InBody (off : String → Int) (known : String → Prop) (c : Control) : Prop where
  topReg : c.cg.topReg = 0
  pc : c.cg.pc = c.cg.opCode.length + 1
  condMode : c.condMode = false
  known : ∀ x, known x → Local c.cg.symbolTable x (off x)

theorem InBody.write (h : InBody off known c) (code : List OpCodeElement) :
    InBody off known (c.write code) where
  topReg := h.topReg
  pc := by
    simp only [Control.write_cg, CodeGenerator.emit_pc, CodeGenerator.emit_opCode,
      List.length_append, h.pc]
    omega
  condMode := h.condMode
  known := h.known

/-! ## assignments -/

/-- An operand that is the whole expression. -/
theorem newExpression_yields (hu : o.Uses known) (hmode : c.condMode = false)
    (h : Reached s c (o.lexeme :: (.tSemicolon, none) :: rest)) :
    Yields (newExpression (fuel + 2)) s False fun r s' =>
      r = some o.item ∧ Reached s' c ((.tSemicolon, none) :: rest) ∧ Last s.tokenList o s' := by
  have hafter : AfterOperand TokenID.tSemicolon := by decide
  have h₁ := h.level (· + 1)
  have hrelation : Yields (relation delayedCodeGen (expression delayedCodeGen (fuel + 1)) (fuel + 1)
      []) { s with booleanLevel := s.booleanLevel + 1 } False fun r s' => r = (some o.item, []) ∧
        Reached s' { c with booleanLevel := c.booleanLevel + 1 } ((.tSemicolon, none) :: rest) ∧
        Last s.tokenList o s' := by
    unfold relation
    refine Yields.bind (term_yields hu h₁ hafter) ?_
    rintro r s₁ ⟨rfl, h₂, hlast⟩
    refine Yields.step (currentType_eq s₁) ?_
    rw [h₂.type, if_neg (show ¬ TokenID.tSemicolon.startSetRelation = true from nofun)]
    refine Yields.step get_run ?_
    rw [show s₁.condMode = false from h₂.condMode.trans hmode, if_neg Bool.false_ne_true]
    exact Yields.pure ⟨rfl, h₂, hlast⟩
  unfold newExpression freshExpression expression expressionBody andExpression
  simp only [bind_assoc]
  refine Yields.step (modify_run _) ?_
  refine Yields.bind hrelation ?_
  rintro r s₁ ⟨rfl, h₂, hlast⟩
  have hand : (s₁.currentToken.type == TokenID.tAnd) = false := by
    rw [h₂.type]
    rfl
  have hor : (s₁.currentToken.type == TokenID.tOr) = false := by
    rw [h₂.type]
    rfl
  refine Yields.step (whileLoop_exit hand) ?_
  simp only [pure_bind]
  refine Yields.step (whileLoop_exit hor) ?_
  refine Yields.step (modify_run _) (Yields.pure ⟨rfl, ?_, hlast⟩)
  have h₃ := h₂.level (· - 1)
  dsimp only at h₃
  rw [Int.add_sub_cancel] at h₃
  exact h₃

theorem Last.type_ne {ts : List Ident} (h : Last ts o s) :
    ∃ t, s.tokenList = ts ++ [t] ∧ t.type ≠ .tRparen := by
  obtain ⟨t, hlist, ht⟩ := h
  refine ⟨t, hlist, ?_⟩
  rw [← t.lexeme_type, ht]
  cases o with
  | «variable» name => exact fun h => nomatch h
  | literal n => exact fun h => nomatch h

/-- `= operand` loads the operand. -/
theorem assignmentSuffix_yields (hin : InBody off known c) (hu : o.Uses known)
    (h : Reached s c ((.tEql, none) :: o.lexeme :: (.tSemicolon, none) :: rest)) :
    Yields (assignmentSuffix (fuel + 2)) s False fun item s' => item = o.item ∧
      Reached s' { c with cg := afterLoad off o c.cg } ((.tSemicolon, none) :: rest) ∧
      Last (s.tokenList ++ [s.currentToken]) o s' := by
  have h₁ := h.shift (by decide)
  unfold assignmentSuffix
  refine Yields.step (expect_run h.ahead (by decide) o.lexeme_ne_error) ?_
  refine Yields.bind (newExpression_yields hu hin.condMode h₁) ?_
  rintro r s₁ ⟨rfl, h₂, hlast⟩
  refine Yields.step (deref_run _) ?_
  have hmode : o.item.mode = 1 ∨ o.item.mode = 2 := by
    cases o with
    | «variable» name => exact Or.inl rfl
    | literal n => exact Or.inr rfl
  obtain ⟨t, hlist, ht⟩ := hlast.type_ne
  have hoperand : lastOperand s₁.tokenList.reverse 1 s₁ = .ok 1 s₁ := by
    rw [hlist, List.reverse_append, List.reverse_singleton, List.singleton_append]
    unfold lastOperand
    rw [if_neg ht]
    rfl
  have hput := @putValue2Reg_run s₁ o off known _ hu hlast h₁.dot (by rw [h₂.cg]; exact hin.known)
  rw [if_pos hmode]
  refine Yields.step get_run ?_
  refine Yields.step hoperand ?_
  refine Yields.step (tokenCount_eq s₁) ?_
  refine Yields.step hput ?_
  refine Yields.step (takeItem_run o) ?_
  exact Yields.pure ⟨rfl, h₂.gen _, hlast⟩

/-- The type of the assigned operand. -/
theorem assignedType_run {ts : List Ident} (hu : o.Uses known) (hlast : Last ts o s)
    (hknown : ∀ x, known x → Local s.cg.symbolTable x (off x)) :
    assignedType o.item s = .ok (some .intType) s := by
  unfold assignedType
  cases o with
  | «variable» name =>
    obtain ⟨cell, hcell, htype, -⟩ := hknown name hu
    obtain ⟨t, hlist, ht⟩ := hlast
    have hmode : (Operand.variable name).item.mode = 1 := rfl
    rw [if_pos hmode, bind_ok (tokenCount_eq s), bind_ok (tokenAt_last hlist),
      (Ident.value_of_sident ht).2, bind_ok (getSymbol_run name), hcell, bind_ok (deref_run cell),
      htype]
    rfl
  | literal n => rfl

/-- A load and a store. -/
theorem storeWord_afterLoad {g : CodeGenerator} (htop : g.topReg = 0) {cell : SymbolTableCell}
    (hglobal : cell.globalScope = false) :
    (afterLoad off o g).storeWord cell =
      g.emit [o.load off 1, .mk3 .stw 1 fp cell.offset] := by
  obtain ⟨_, _, _, topReg, _, _, _, _⟩ := g
  dsimp only at htop
  subst htop
  simp [afterLoad, CodeGenerator.storeWord, CodeGenerator.emit, CodeGenerator.putOpCode,
    CodeGenerator.increaseReg, CodeGenerator.decreaseReg, CodeGenerator.getCurrentReg,
    CodeGenerator.address, hglobal]

/-- **An assignment.** -/
theorem assignment_yields (hin : InBody off known c) (hname : known name) (hu : o.Uses known)
    (h : Reached s c ((Stmt.assign name o).lexemes ++ l :: rest)) (hl : l.1 ≠ .tError) :
    Yields (objectDeclarationAssignmentMethodCall (fuel + 2)) s False fun _ s' =>
      Reached s' (c.write ((Stmt.assign name o).code off c.cg.pc)) (l :: rest) := by
  simp only [Stmt.lexemes, List.cons_append, List.nil_append] at h
  have h₀ : Reached { s with tokenList := [] } c ((Operand.variable name).lexeme :: (.tEql, none) ::
      o.lexeme :: (.tSemicolon, none) :: l :: rest) :=
    ⟨h.control, h.ahead, h.braces, nofun⟩
  obtain ⟨cell, hcell, htype, hglobal, hoffset⟩ := hin.known name hname
  unfold objectDeclarationAssignmentMethodCall
  refine Yields.step (modify_run _) ?_
  refine Yields.bind (identifier_yields h₀ nofun nofun) ?_
  rintro - s₁ ⟨h₁, t, hlist, ht⟩
  refine Yields.step (currentType_eq s₁) ?_
  refine Yields.step (currentType_eq s₁) ?_
  refine Yields.step (currentType_eq s₁) ?_
  rw [h₁.type, if_pos (Or.inl rfl)]
  have hsuffix : Yields (arrayDeclarationSuffix (fuel + 2)) s₁ False fun _ s' =>
      Reached s' (c.write ((Stmt.assign name o).code off c.cg.pc))
        ((.tSemicolon, none) :: l :: rest) := by
    unfold arrayDeclarationSuffix
    refine Yields.step (currentType_eq s₁) ?_
    rw [h₁.type, if_neg nofun]
    refine Yields.step (currentType_eq s₁) ?_
    rw [h₁.type, if_neg nofun]
    refine Yields.step (currentType_eq s₁) ?_
    rw [h₁.type, if_pos rfl]
    refine Yields.bind (assignmentSuffix_yields hin hu h₁) ?_
    rintro item s₂ ⟨rfl, h₂, hlast⟩
    have htable : s₂.cg.symbolTable = c.cg.symbolTable := by rw [h₂.cg]; rfl
    have hfirst : tokenAt 0 s₂ = .ok t s₂ := by
      obtain ⟨t', hlist', -⟩ := hlast
      exact @tokenAt_run s₂ 0 t (by rw [hlist', hlist]; rfl)
    refine Yields.step (assignedType_run hu hlast (by rw [htable]; exact hin.known)) ?_
    rw [if_pos rfl]
    refine Yields.step hfirst ?_
    rw [(Ident.value_of_sident ht).2]
    refine Yields.step (getSymbol_run name) ?_
    rw [htable, hcell]
    refine Yields.step (deref_run cell) ?_
    rw [htype, if_neg fun hne => hne rfl]
    refine (gen_yields h₂ (·.storeWord cell)).mono id fun _ s₃ h₃ => ?_
    dsimp only at h₃
    rw [storeWord_afterLoad hin.topReg hglobal, hoffset] at h₃
    exact h₃
  refine Yields.bind hsuffix ?_
  intro _ s₂ h₂
  refine Yields.ok (semicolon_run h₂.ahead hl) ⟨h₂.control, ?_, braces_le h₂.braces, nofun⟩
  exact ParserState.shift_ahead h₂.ahead

/-! ## conditions of statements -/

theorem Reached.update (h : Reached s c rest) (f : Control → Control) (s' : ParserState)
    (hc : Flow.control s' = f (Flow.control s)) (hahead : s'.ahead = s.ahead)
    (hbraces : s'.countTLBRACES = s.countTLBRACES) (hlist : s'.tokenList = s.tokenList) :
    Reached s' (f c) rest where
  control := by rw [hc, h.control]
  ahead := hahead.trans h.ahead
  braces := by
    rw [hbraces]
    exact h.braces
  dot := by
    rw [hlist]
    exact h.dot

/-- The condition of a statement starts a list of jumps of its own. -/
def Control.push (c : Control) : Control :=
  { c with condFixStack := c.condFixup :: c.condFixStack, condFixup := some [] }

/-- The code of a condition whose jumps go nowhere yet. -/
def Control.condition (off : String → Int) (cond : Condition) (c : Control) : Control :=
  { c.push.juncts off cond.connective cond.operands with condMode := false }

/-- **The condition of a statement** between its brackets. -/
theorem condition_yields (hin : InBody off known c) {cond : Condition} (hu : cond.Uses known)
    (hlen : cond.lexemes.length < fuel)
    (h : Reached s c.push (cond.lexemes ++ (.tRparen, none) :: rest)) :
    Yields (condition fuel) s False fun _ s' =>
      Reached s' (c.condition off cond) ((.tRparen, none) :: rest) := by
  have hin₁ : InCondition off known { c.push with condMode := true } :=
    ⟨hin.topReg, hin.pc, rfl, ⟨[], rfl⟩, hin.known⟩
  have h₁ := h.update (fun c => { c with condMode := true }) { s with condMode := true } rfl rfl rfl
    rfl
  unfold Parser.condition newExpression freshExpression
  refine Yields.step (modify_run _) ?_
  simp only [bind_assoc, pure_bind]
  refine Yields.bind (conditionParses off known fuel hlen hin₁ hu h₁ nofun) ?_
  rintro r s₁ ⟨item, entries, rfl, htype, hadded, h₂⟩
  refine Yields.bind (dropItem_yields h₂ (some item)) ?_
  intro _ s₂ h₃
  exact Yields.ok rfl (h₃.update (fun c => { c with condMode := false }) _ rfl rfl rfl rfl)

theorem InBody.condition (h : InBody off known c) (cond : Condition) :
    InBody off known (c.condition off cond) where
  topReg := h.topReg
  pc := by
    simp only [Control.condition, Control.juncts, Control.emit_cg, CodeGenerator.emit_pc,
      CodeGenerator.emit_opCode, List.length_append]
    have := h.pc
    dsimp only [Control.push]
    omega
  condMode := rfl
  known := h.known

theorem Control.condition_pc (c : Control) (cond : Condition) :
    (c.condition off cond).cg.pc = c.cg.pc + cond.size := by
  simp only [condition, juncts, Control.emit_cg, CodeGenerator.emit_pc, Juncts.code_length]
  rfl

/-- The code so far, when the jumps of a condition are fixed. -/
def Control.fixed (off : String → Int) (cond : Condition) (code : List OpCodeElement)
    (c : Control) : Control :=
  { c.condition off cond with cg := c.cg.emit code }

/-- **The jumps of a condition are fixed** when the code behind it is known. -/
theorem fixCondition_yields (hin : InBody off known c) {cond : Condition} (f t : Nat)
    (code : List OpCodeElement) (h : Reached s ((c.condition off cond).write code) rest) :
    Yields (fixCondition f t) s False fun _ s' =>
      Reached s' (c.fixed off cond (cond.code off c.cg.pc t f ++ code)) rest := by
  have hfixup : s.condFixup = some (cond.operands.jumps c.cg.opCode.length) := by
    rw [h.condFixup]
    rfl
  have hcg : ((c.condition off cond).write code).cg.fixConditionJumps
      (cond.operands.jumps c.cg.opCode.length) f t =
        c.cg.emit (cond.code off c.cg.pc t f ++ code) := by
    have hfix := @Condition.fix off f t (-1000) (-100) c.cg.opCode code cond
    have ht : fixTarget f t (-1000) = t := rfl
    have hf : fixTarget f t (-100) = f := rfl
    rw [← hin.pc, ht, hf] at hfix
    have hlen := cond.code_length off c.cg.pc (-1000) (-100)
    have hlen' := cond.code_length off c.cg.pc t f
    rw [fixConditionJumps_eq]
    simp only [Control.write, Control.condition, Control.juncts, Control.emit, Control.push,
      CodeGenerator.emit_emit]
    simp only [CodeGenerator.emit, List.length_append, hlen']
    simp only [Condition.code] at hfix hlen ⊢
    rw [hfix, hlen]
  unfold fixCondition
  refine Yields.step get_run ?_
  rw [hfixup]
  refine Yields.step (deref_run _) ?_
  refine (gen_yields h _).mono id fun _ s' h' => ?_
  rw [hcg] at h'
  exact h'

/-- The jumps of the enclosing condition come back. -/
theorem popCondFixup_yields (hin : InBody off known c) {cond : Condition}
    {code : List OpCodeElement} (h : Reached s (c.fixed off cond code) rest) :
    Yields popCondFixup s False fun _ s' => Reached s' (c.write code) rest := by
  have hstack : s.condFixStack = c.condFixup :: c.condFixStack := by
    have := congrArg Control.condFixStack h.control
    exact this
  unfold popCondFixup
  refine Yields.step get_run ?_
  rw [hstack]
  refine Yields.ok rfl ⟨?_, h.ahead, h.braces, h.dot⟩
  have hc := h.control
  simp only [control, Control.fixed, Control.condition, Control.mk.injEq] at hc
  simp only [control, Control.write, Control.mk.injEq]
  exact ⟨hc.1, trivial, trivial, hc.2.2.2.1, hc.2.2.2.2.trans hin.condMode.symm⟩

/-! ## blocks -/

/-- What a block or the brace behind it begins with. -/
theorem blockLexemes_cons (b : List Stmt) (more : List Lexeme) :
    ∃ l ls, blockLexemes b ++ (.tRbraces, none) :: more = l :: ls ∧ l.1 ≠ .tError ∧
      l.1 ≠ .tElse := by
  cases b with
  | nil => exact ⟨_, _, rfl, nofun, nofun⟩
  | cons st rest =>
    cases st with
    | assign name value => exact ⟨_, _, rfl, nofun, nofun⟩
    | whileDo cond body => exact ⟨_, _, rfl, nofun, nofun⟩
    | ifThen cond body => exact ⟨_, _, rfl, nofun, nofun⟩
    | ifElse cond body alternative => exact ⟨_, _, rfl, nofun, nofun⟩

/-- A block appends its code. -/
def BlockParses (off : String → Int) (known : String → Prop) (n : Nat) (m : P Unit) : Prop :=
  ∀ {b : List Stmt} {s : ParserState} {c : Control} {more : List Lexeme},
    (blockLexemes b).length < n → InBody off known c → blockUses known b →
      Reached s c (blockLexemes b ++ (.tRbraces, none) :: more) →
        Yields m s False fun _ s' =>
          Reached s' (c.write (blockCode off c.cg.pc b)) ((.tRbraces, none) :: more)

theorem codePC_run (h : Reached s c rest) : codePC s = .ok c.cg.pc s := by
  rw [← h.cg]
  rfl

theorem pushCondFixup_yields (h : Reached s c rest) :
    Yields pushCondFixup s False fun _ s' => Reached s' c.push rest :=
  Yields.ok rfl (h.update Control.push _ rfl rfl rfl rfl)

/-- The head of a statement, up to its condition. -/
theorem head_yields {id : TokenID} {cond : Condition} (hid : id = .tWhile ∨ id = .tIf)
    (h : Reached s c ((id, none) :: (.tLparen, none) ::
      (cond.lexemes ++ (.tRparen, none) :: rest))) :
    Yields (do expect id; expectWeak .tLparen) s False fun _ s' =>
      Reached s' c (cond.lexemes ++ (.tRparen, none) :: rest) := by
  obtain ⟨l, ls, hls, herr⟩ := cond.operands.lexemes_cons cond.connective ((.tRparen, none) :: rest)
  unfold Condition.lexemes at h ⊢
  rw [hls] at h ⊢
  have hne : id ≠ .tSemicolon ∧ id ≠ .tDot := by
    rcases hid with rfl | rfl
    · decide
    · decide
  refine Yields.bind (expect_yields h hne.1 hne.2 (by decide)) ?_
  intro _ s₁ h₁
  exact expectWeak_yields h₁ (by decide) (by decide) herr

/-- The opening brace of a block, behind a condition or `else`. -/
theorem open_yields {id : TokenID} {b : List Stmt} (hid : id = .tRparen ∨ id = .tElse)
    (level : ErrorLevel)
    (h : Reached s c ((id, none) :: (.tLbraces, none) ::
      (blockLexemes b ++ (.tRbraces, none) :: rest))) :
    Yields (do expectAt level id; expectWeak .tLbraces) s False fun _ s' =>
      Reached s' c (blockLexemes b ++ (.tRbraces, none) :: rest) := by
  obtain ⟨l, ls, hls, herr, -⟩ := blockLexemes_cons b rest
  rw [hls] at h ⊢
  have hne : id ≠ .tSemicolon ∧ id ≠ .tDot := by
    rcases hid with rfl | rfl
    · exact ⟨nofun, nofun⟩
    · exact ⟨nofun, nofun⟩
  refine Yields.step (expectAt_run level h.ahead hne.1 nofun) ?_
  exact expectWeak_yields (h.shift hne.2) nofun nofun herr

/-- A block and its closing brace. -/
theorem block_yields {m : P Unit} (hbody : BlockParses off known n m) {b : List Stmt}
    (hlen : (blockLexemes b).length < n) (hin : InBody off known c) (hu : blockUses known b)
    (h : Reached s c (blockLexemes b ++ (.tRbraces, none) :: l :: rest)) (hl : l.1 ≠ .tError) :
    Yields (do m; expectWeak .tRbraces) s False fun _ s' =>
      Reached s' (c.write (blockCode off c.cg.pc b)) (l :: rest) := by
  refine Yields.bind (hbody hlen hin hu h) ?_
  exact fun _ s₁ h₁ => expectWeak_yields h₁ nofun nofun hl

/-- A jump that is not fixed later. -/
theorem elseAndLoopJump_yields (h : Reached s c rest) (hpc : c.cg.pc = c.cg.opCode.length + 1)
    (a : Int) :
    Yields (genGet (·.elseAndLoopJump a)) s False fun pos s' => pos = c.cg.opCode.length ∧
      Reached s' (c.write [.mk2 .beq 0 a]) rest := by
  refine Yields.ok rfl ⟨?_, h.gen fun g => (g.elseAndLoopJump a).2⟩
  rw [h.cg]
  simp only [CodeGenerator.elseAndLoopJump, CodeGenerator.putOpCode]
  omega

/-- **`while`.** -/
theorem while_yields {m : P Unit} (hbody : BlockParses off known n m) {cond : Condition}
    {body : List Stmt} (hcond : cond.lexemes.length < fuel) (hlen : (blockLexemes body).length < n)
    (hin : InBody off known c) (hu : (Stmt.whileDo cond body).Uses known)
    (h : Reached s c ((Stmt.whileDo cond body).lexemes ++ l :: rest)) (hl : l.1 ≠ .tError) :
    Yields (whileStatement fuel m) s False fun _ s' =>
      Reached s' (c.write ((Stmt.whileDo cond body).code off c.cg.pc)) (l :: rest) := by
  simp only [Stmt.lexemes, List.cons_append, List.append_assoc, List.nil_append] at h
  unfold whileStatement
  refine Yields.bind (pushCondFixup_yields h) ?_
  intro _ s₁ h₁
  rw [← bind_assoc]
  refine Yields.bind (head_yields (Or.inl rfl) h₁) ?_
  intro _ s₂ h₂
  refine Yields.step (codePC_run h₂) ?_
  refine Yields.bind (condition_yields hin hu.1 hcond h₂) ?_
  intro _ s₃ h₃
  rw [← bind_assoc]
  refine Yields.bind (open_yields (Or.inl rfl) .week h₃) ?_
  intro _ s₄ h₄
  refine Yields.step (codePC_run h₄) ?_
  rw [← bind_assoc]
  refine Yields.bind (block_yields hbody hlen (hin.condition cond) hu.2 h₄ hl) ?_
  intro _ s₅ h₅
  refine Yields.bind (elseAndLoopJump_yields h₅ ((hin.condition cond).write _).pc _) ?_
  rintro - s₆ ⟨-, h₆⟩
  rw [Control.write_write] at h₆
  refine Yields.step (codePC_run h₆) ?_
  refine Yields.bind (fixCondition_yields hin _ _ _ h₆) ?_
  intro _ s₇ h₇
  refine (popCondFixup_yields hin h₇).mono id fun _ s₈ h₈ => ?_
  simp only [Control.write_cg, CodeGenerator.emit_pc, Control.condition_pc, List.length_append,
    blockCode_length, List.length_singleton] at h₈
  exact h₈

/-- The part of `if` that every `if` has: its condition and its first block. -/
theorem then_yields {m : P Unit} (hbody : BlockParses off known n m) {cond : Condition}
    {body : List Stmt} (hcond : cond.lexemes.length < fuel) (hlen : (blockLexemes body).length < n)
    (hin : InBody off known c) (hu : cond.Uses known) (hu' : blockUses known body)
    (h : Reached s c.push (cond.lexemes ++ (.tRparen, none) :: (.tLbraces, none) ::
      (blockLexemes body ++ (.tRbraces, none) :: l :: rest))) (hl : l.1 ≠ .tError)
    {k : Nat → P Unit} {Q : Unit → ParserState → Prop}
    (hk : ∀ s', Reached s' ((c.condition off cond).write
        (blockCode off (c.cg.pc + cond.size) body)) (l :: rest) →
      Yields (k (c.cg.pc + cond.size)) s' False Q) :
    Yields (do
        condition fuel
        expectWeak .tRparen
        expectWeak .tLbraces
        let trueJump ← codePC
        m
        expectWeak .tRbraces
        k trueJump) s False Q := by
  refine Yields.bind (condition_yields hin hu hcond h) ?_
  intro _ s₁ h₁
  rw [← bind_assoc]
  refine Yields.bind (open_yields (Or.inl rfl) .week h₁) ?_
  intro _ s₂ h₂
  refine Yields.step (codePC_run h₂) ?_
  rw [← bind_assoc]
  refine Yields.bind (block_yields hbody hlen (hin.condition cond) hu' h₂ hl) ?_
  intro _ s₃ h₃
  rw [Control.condition_pc] at h₃ ⊢
  exact hk s₃ h₃

theorem InBody.fixed (h : InBody off known c) (cond : Condition) (code : List OpCodeElement) :
    InBody off known (c.fixed off cond code) where
  topReg := h.topReg
  pc := (h.write code).pc
  condMode := rfl
  known := h.known

/-- **`if` without `else`.** -/
theorem ifThen_yields {m : P Unit} (hbody : BlockParses off known n m) {cond : Condition}
    {body : List Stmt} (hcond : cond.lexemes.length < fuel) (hlen : (blockLexemes body).length < n)
    (hin : InBody off known c) (hu : (Stmt.ifThen cond body).Uses known)
    (h : Reached s c ((Stmt.ifThen cond body).lexemes ++ l :: rest)) (hl : l.1 ≠ .tError)
    (helse : l.1 ≠ .tElse) :
    Yields (ifStatement fuel m) s False fun _ s' =>
      Reached s' (c.write ((Stmt.ifThen cond body).code off c.cg.pc)) (l :: rest) := by
  simp only [Stmt.lexemes, List.cons_append, List.append_assoc, List.nil_append] at h
  unfold ifStatement
  refine Yields.bind (pushCondFixup_yields h) ?_
  intro _ s₁ h₁
  rw [← bind_assoc]
  refine Yields.bind (head_yields (Or.inr rfl) h₁) ?_
  intro _ s₂ h₂
  refine then_yields hbody hcond hlen hin hu.1 hu.2 h₂ hl ?_
  intro s₃ h₃
  refine Yields.step (currentType_eq s₃) ?_
  rw [h₃.type, if_neg helse]
  refine Yields.step (codePC_run h₃) ?_
  refine Yields.bind (fixCondition_yields hin _ _ _ h₃) ?_
  intro _ s₄ h₄
  refine (popCondFixup_yields hin h₄).mono id fun _ s₅ h₅ => ?_
  simp only [Control.write_cg, CodeGenerator.emit_pc, Control.condition_pc, blockCode_length] at h₅
  exact h₅

/-- The jump over the `else` block is the last instruction before it. -/
theorem fixElseJump (g : CodeGenerator) (code code' : List OpCodeElement) (pc : Nat) (t : Int) :
    (g.emit (code ++ .mk2 .beq 0 (-100) :: code')).fixConditionJump
        (g.opCode.length + code.length) pc t =
      g.emit (code ++ jump pc :: code') := by
  have hmodify := modify_middle (OpCodeElement.mk2 .beq 0 (-100)) code'
    (CodeGenerator.fixJump pc t) (g.opCode ++ code)
  rw [List.length_append, List.append_assoc, List.append_assoc] at hmodify
  simp only [CodeGenerator.fixConditionJump, CodeGenerator.emit, hmodify, List.length_append,
    List.length_cons]
  rfl

/-- **`if` with `else`.** -/
theorem ifElse_yields {m : P Unit} (hbody : BlockParses off known n m) {cond : Condition}
    {body alternative : List Stmt} (hcond : cond.lexemes.length < fuel)
    (hlen : (blockLexemes body).length < n) (hlen' : (blockLexemes alternative).length < n)
    (hin : InBody off known c) (hu : (Stmt.ifElse cond body alternative).Uses known)
    (h : Reached s c ((Stmt.ifElse cond body alternative).lexemes ++ l :: rest))
    (hl : l.1 ≠ .tError) :
    Yields (ifStatement fuel m) s False fun _ s' =>
      Reached s' (c.write ((Stmt.ifElse cond body alternative).code off c.cg.pc)) (l :: rest) := by
  simp only [Stmt.lexemes, List.cons_append, List.append_assoc, List.nil_append] at h
  unfold ifStatement
  refine Yields.bind (pushCondFixup_yields h) ?_
  intro _ s₁ h₁
  rw [← bind_assoc]
  refine Yields.bind (head_yields (Or.inr rfl) h₁) ?_
  intro _ s₂ h₂
  refine then_yields hbody hcond hlen hin hu.1 hu.2.1 h₂ nofun ?_
  intro s₃ h₃
  refine Yields.step (currentType_eq s₃) ?_
  rw [h₃.type, if_pos rfl]
  refine Yields.bind (elseAndLoopJump_yields h₃ ((hin.condition cond).write _).pc _) ?_
  rintro elsePC s₄ ⟨hpos, h₄⟩
  have hpc := hin.pc
  -- the addresses of the `else` block and of what follows it
  have hother : elsePC + 2 = c.cg.pc + cond.size + (blockSize body + 1) := by
    rw [hpos, Control.write_cg, CodeGenerator.emit_opCode, List.length_append, blockCode_length]
    have hcond := (hin.condition cond).pc
    rw [Control.condition_pc] at hcond
    omega
  generalize hB : blockCode off (c.cg.pc + cond.size) body = B at h₄
  have hB' : B.length = blockSize body := by rw [← hB, blockCode_length]
  rw [Control.write_write] at h₄
  refine Yields.bind (fixCondition_yields hin (elsePC + 2) _ _ h₄) ?_
  intro _ s₅ h₅
  rw [hother] at h₅
  generalize hC : cond.code off c.cg.pc (c.cg.pc + cond.size : Nat)
    (c.cg.pc + cond.size + (blockSize body + 1) : Nat) = C at h₅
  have hC' : C.length = cond.size := by rw [← hC, Condition.code_length]
  have hfixed : ∀ X : List OpCodeElement, (c.fixed off cond X).cg.pc = c.cg.pc + X.length :=
    fun X => rfl
  rw [← bind_assoc]
  refine Yields.bind (open_yields (Or.inr rfl) .strong h₅) ?_
  intro _ s₆ h₆
  rw [← bind_assoc]
  refine Yields.bind (block_yields hbody hlen' (hin.fixed cond _) hu.2.2 h₆ hl) ?_
  intro _ s₇ h₇
  rw [show (c.fixed off cond (C ++ (B ++ [.mk2 .beq 0 (-100)]))).cg.pc =
    c.cg.pc + cond.size + (blockSize body + 1) by
      rw [hfixed, List.length_append, List.length_append, hC', hB', List.length_singleton,
        Nat.add_assoc]] at h₇
  generalize hA : blockCode off (c.cg.pc + cond.size + (blockSize body + 1)) alternative = A at h₇
  have hA' : A.length = blockSize alternative := by rw [← hA, blockCode_length]
  have hwrite : (c.fixed off cond (C ++ (B ++ [.mk2 .beq 0 (-100)]))).write A =
      c.fixed off cond ((C ++ B) ++ .mk2 .beq 0 (-100) :: A) := by
    simp [Control.fixed, Control.write]
  rw [hwrite] at h₇
  refine Yields.step (codePC_run h₇) ?_
  refine Yields.bind (gen_yields h₇ _) ?_
  intro _ s₈ h₈
  have helse : elsePC = c.cg.opCode.length + (C ++ B).length := by
    rw [List.length_append, hC', hB']
    omega
  have hjump := fixElseJump c.cg (C ++ B) A
    (c.fixed off cond ((C ++ B) ++ .mk2 .beq 0 (-100) :: A)).cg.pc (c.cg.pc + cond.size : Nat)
  rw [← helse] at hjump
  have h₉ : Reached s₈ (c.fixed off cond ((C ++ B) ++ jump
      (c.fixed off cond ((C ++ B) ++ .mk2 .beq 0 (-100) :: A)).cg.pc :: A)) (l :: rest) := by
    unfold Control.fixed at hjump ⊢
    rw [← hjump]
    exact h₈
  refine (popCondFixup_yields hin h₉).mono id fun _ s₁₀ h₁₀ => ?_
  have hcode : (Stmt.ifElse cond body alternative).code off c.cg.pc = (C ++ B) ++ jump
      (c.fixed off cond ((C ++ B) ++ .mk2 .beq 0 (-100) :: A)).cg.pc :: A := by
    have hbehind : (c.fixed off cond ((C ++ B) ++ .mk2 .beq 0 (-100) :: A)).cg.pc =
        c.cg.pc + cond.size + (blockSize body + 1) + blockSize alternative := by
      rw [hfixed]
      simp only [List.length_append, List.length_cons, hC', hB', hA']
      omega
    rw [hbehind, List.append_assoc, ← hC, ← hB, ← hA]
    rfl
  rw [hcode]
  exact h₁₀

/-! ## the body of a method -/

/-- **A statement.** -/
theorem bodyStatement_yields {st : Stmt} (hbody : BlockParses off known fuel (bodyBlock fuel))
    (hlen : st.lexemes.length ≤ fuel) (hin : InBody off known c) (hu : st.Uses known)
    (h : Reached s c (st.lexemes ++ l :: rest)) (hl : l.1 ≠ .tError) (helse : l.1 ≠ .tElse) :
    Yields (bodyStatement fuel (bodyBlock fuel)) s False fun goOn s' => goOn = true ∧
      Reached s' (c.write (st.code off c.cg.pc)) (l :: rest) := by
  unfold bodyStatement
  refine Yields.step (currentType_eq s) ?_
  cases st with
  | assign name value =>
    obtain ⟨fuel, rfl⟩ : ∃ m, fuel = m + 2 := by
      simp only [Stmt.lexemes, List.length_cons, List.length_nil] at hlen
      exact ⟨fuel - 2, by omega⟩
    have htype : s.currentToken.type = .tSident := h.type
    rw [htype]
    refine Yields.bind (assignment_yields hin hu.1 hu.2 h hl) ?_
    exact fun _ s₁ h₁ => Yields.pure ⟨rfl, h₁⟩
  | whileDo cond body =>
    have htype : s.currentToken.type = .tWhile := h.type
    simp only [Stmt.lexemes, List.length_cons, List.length_append, List.length_nil] at hlen
    rw [htype, if_pos rfl]
    refine Yields.bind (while_yields hbody (by omega) (by omega) hin hu h hl) ?_
    exact fun _ s₁ h₁ => Yields.pure ⟨rfl, h₁⟩
  | ifThen cond body =>
    have htype : s.currentToken.type = .tIf := h.type
    simp only [Stmt.lexemes, List.length_cons, List.length_append, List.length_nil] at hlen
    rw [htype, if_neg nofun, if_pos rfl]
    refine Yields.bind (ifThen_yields hbody (by omega) (by omega) hin hu h hl helse) ?_
    exact fun _ s₁ h₁ => Yields.pure ⟨rfl, h₁⟩
  | ifElse cond body alternative =>
    have htype : s.currentToken.type = .tIf := h.type
    simp only [Stmt.lexemes, List.length_cons, List.length_append, List.length_nil] at hlen
    rw [htype, if_neg nofun, if_pos rfl]
    refine Yields.bind (ifElse_yields hbody (by omega) (by omega) (by omega) hin hu h hl) ?_
    exact fun _ s₁ h₁ => Yields.pure ⟨rfl, h₁⟩

/-- The closing brace ends the block. -/
theorem bodyStatement_end (h : Reached s c ((.tRbraces, none) :: rest)) (m : P Unit) :
    bodyStatement fuel m s = .ok false s := by
  have htype : s.currentToken.type = .tRbraces := h.type
  have hrun : (do return !decide ((← get).countTLBRACES ≤ 2) : P Bool) s = .ok false s := by
    simp only [bind_run, get_run, pure_run, decide_eq_true h.braces]
    rfl
  unfold bodyStatement
  rw [bind_ok (currentType_eq s), htype]
  exact hrun

theorem Stmt.lexemes_pos (st : Stmt) : 0 < st.lexemes.length := by
  cases st <;> exact Nat.succ_pos _

/-- **A block appends its code.** -/
theorem bodyBlock_yields (off : String → Int) (known : String → Prop) :
    ∀ fuel, BlockParses off known fuel (bodyBlock fuel) := by
  intro fuel
  induction fuel with
  | zero =>
    intro b s c more hlen
    exact absurd hlen (Nat.not_lt_zero _)
  | succ fuel ih =>
    intro b s c more hlen hin hu h
    unfold bodyBlock
    cases b with
    | nil =>
      refine @Yields.ok _ _ _ _ _ _ () s ?_ ?_
      · have hrun : catchIllegal (bodyStatement fuel (bodyBlock fuel)) (fun message => do
            report (.stackTrace message)
            skipBelow fuel .strongSymBB
            bodyBlock fuel
            return true) s = .ok false s := by
          unfold catchIllegal
          rw [bodyStatement_end h]
        rw [bind_ok hrun]
        rfl
      · have hnil : c.write (blockCode off c.cg.pc []) = c := by
          simp [Control.write, blockCode]
        rw [hnil]
        exact h
    | cons st b =>
      obtain ⟨l, ls, hls, herr, helse⟩ := blockLexemes_cons b more
      have hpos := st.lexemes_pos
      simp only [blockLexemes, List.length_append] at hlen
      simp only [blockLexemes, List.append_assoc] at h
      rw [hls] at h
      obtain ⟨goOn, s₁, hrun, rfl, h₁⟩ := (bodyStatement_yields ih (by omega) hin hu.1 h herr
        helse).exists_ok id
      have hcatch : catchIllegal (bodyStatement fuel (bodyBlock fuel)) (fun message => do
          report (.stackTrace message)
          skipBelow fuel .strongSymBB
          bodyBlock fuel
          return true) s = .ok true s₁ := by
        unfold catchIllegal
        rw [hrun]
      refine Yields.step hcatch ?_
      rw [if_pos rfl]
      rw [← hls] at h₁
      refine (ih (by omega) (hin.write _) hu.2 h₁).mono id fun _ s₂ h₂ => ?_
      rw [Control.write_write, Control.write_cg, CodeGenerator.emit_pc, Stmt.code_length] at h₂
      exact h₂

end Compiler.Flow
