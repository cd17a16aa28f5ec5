import Bambinos.Compiler.Expression
import Bambinos.Compiler.Flow.Code

/-!
# Parsing comparisons

* `Control` — what the parser knows about the code it is writing
* `Reached` — the parser has come to a point of its input
* `term_yields`, `putValue2Reg_run` — an operand is parsed, and then loaded
* `comparison_yields` — a comparison is written with a branch to nowhere, which is remembered
-/

namespace Compiler.Flow

open Infra Compiler.Parser

/-! ## where the parser is -/

/-- The code and the jumps of the conditions, innermost first. -/
structure Control where
  cg : CodeGenerator
  condFixup : Option (List Nat)
  condFixStack : List (Option (List Nat))
  booleanLevel : Int
  condMode : Bool

/-- Code is appended, and the jumps of the condition in it are remembered. -/
def Control.emit (c : Control) (code : List OpCodeElement) (jumps : List Nat) : Control :=
  { c with cg := c.cg.emit code, condFixup := c.condFixup.map (· ++ jumps) }

@[simp] theorem Control.emit_emit (c : Control) (code code' : List OpCodeElement)
    (jumps jumps' : List Nat) :
    (c.emit code jumps).emit code' jumps' = c.emit (code ++ code') (jumps ++ jumps') := by
  simp [Control.emit, Option.map_map, Function.comp_def]

@[simp] theorem Control.emit_cg (c : Control) (code : List OpCodeElement) (jumps : List Nat) :
    (c.emit code jumps).cg = c.cg.emit code := rfl

@[simp] theorem Control.emit_booleanLevel (c : Control) (code : List OpCodeElement)
    (jumps : List Nat) : (c.emit code jumps).booleanLevel = c.booleanLevel := rfl

def control (s : ParserState) : Control :=
  { cg := s.cg, condFixup := s.condFixup, condFixStack := s.condFixStack,
    booleanLevel := s.booleanLevel, condMode := s.condMode }

/-- No closing brace is taken for one of the class, and no identifier for a symbol of another. -/
structure Reached (s : ParserState) (c : Control) (rest : List Lexeme) : Prop where
  control : control s = c
  ahead : s.ahead = rest
  braces : s.countTLBRACES ≤ 2
  dot : ∀ t, s.tokenList.getLast? = some t → t.type ≠ .tDot

variable {s s' : ParserState} {c : Control} {l l' : Lexeme} {rest more : List Lexeme}

theorem Reached.cg (h : Reached s c rest) : s.cg = c.cg := by rw [← h.control]; rfl

theorem Reached.condMode (h : Reached s c rest) : s.condMode = c.condMode := by
  rw [← h.control]
  rfl

theorem Reached.condFixup (h : Reached s c rest) : s.condFixup = c.condFixup := by
  rw [← h.control]
  rfl

theorem Reached.booleanLevel (h : Reached s c rest) : s.booleanLevel = c.booleanLevel := by
  rw [← h.control]
  rfl

theorem Reached.type (h : Reached s c (l :: rest)) : s.currentToken.type = l.1 :=
  s.currentToken_type h.ahead

theorem braces_le (h : s.countTLBRACES ≤ 2) : s.braces ≤ 2 := by
  unfold ParserState.braces
  split
  · decide
  · split
    · decide
    · exact h

/-- The current token is passed. -/
theorem Reached.shift (h : Reached s c (l :: l' :: rest)) (hdot : l.1 ≠ .tDot) :
    Reached s.shift c (l' :: rest) where
  control := h.control
  ahead := ParserState.shift_ahead h.ahead
  braces := braces_le h.braces
  dot := by
    intro t ht
    have hlast : s.shift.tokenList.getLast? = some s.currentToken := by
      simp [ParserState.shift]
    rw [hlast] at ht
    injection ht with ht
    rw [← ht, h.type]
    exact hdot

theorem Reached.gen (h : Reached s c rest) (f : CodeGenerator → CodeGenerator) :
    Reached { s with cg := f s.cg } { c with cg := f c.cg } rest where
  control := by
    rw [← h.control]
    rfl
  ahead := h.ahead
  braces := h.braces
  dot := h.dot

theorem gen_yields (h : Reached s c rest) (f : CodeGenerator → CodeGenerator) :
    Yields (Parser.gen f) s False fun _ s' => Reached s' { c with cg := f c.cg } rest :=
  Yields.ok rfl (h.gen f)

/-- Nothing that matters here changes. -/
theorem Reached.same (h : Reached s c rest) (hc : Flow.control s' = Flow.control s)
    (hahead : s'.ahead = s.ahead) (hbraces : s'.countTLBRACES = s.countTLBRACES)
    (hlist : s'.tokenList = s.tokenList) : Reached s' c rest where
  control := hc.trans h.control
  ahead := hahead.trans h.ahead
  braces := by
    rw [hbraces]
    exact h.braces
  dot := by
    rw [hlist]
    exact h.dot

/-- `expect` passes a token. -/
theorem expect_yields {id : TokenID} {v : Option TokenValue}
    (h : Reached s c ((id, v) :: l :: rest)) (hsemi : id ≠ .tSemicolon) (hdot : id ≠ .tDot)
    (herr : l.1 ≠ .tError) :
    Yields (expect id) s False fun _ s' => Reached s' c (l :: rest) :=
  Yields.ok (expect_run h.ahead hsemi herr) (h.shift hdot)

theorem expectWeak_yields {id : TokenID} {v : Option TokenValue}
    (h : Reached s c ((id, v) :: l :: rest)) (hsemi : id ≠ .tSemicolon) (hdot : id ≠ .tDot)
    (herr : l.1 ≠ .tError) :
    Yields (expectWeak id) s False fun _ s' => Reached s' c (l :: rest) :=
  Yields.ok (expectWeak_run h.ahead hsemi herr) (h.shift hdot)

/-- What nobody takes is a ghost. -/
theorem dropItem_yields (h : Reached s c rest) (item : Option Item) :
    Yields (dropItem item) s False fun _ s' => Reached s' c rest := by
  unfold dropItem
  cases item with
  | none => exact Yields.pure h
  | some item =>
    dsimp only
    split
    · exact Yields.ok rfl (h.same rfl rfl rfl rfl)
    · exact Yields.pure h

/-! ## operands -/

/-- A name that denotes an `int` of the current method, and its distance from the frame pointer. -/
def Local (t : SymbolTableList) (name : String) (offset : Int) : Prop :=
  ∃ cell, t.getSymbol name = some cell ∧ cell.type = some .intType ∧ cell.globalScope = false ∧
    cell.offset = offset

/-- What may stand behind an operand. -/
def AfterOperand (id : TokenID) : Prop :=
  id ≠ .tDot ∧ id ≠ .tLbrack ∧ id ≠ .tLparen ∧ id ≠ .tError ∧ isFactorOperator id = false ∧
    isTermOperator id = false

instance (id : TokenID) : Decidable (AfterOperand id) :=
  inferInstanceAs (Decidable (_ ∧ _))

/-- What the productions up to `term` answer with. -/
def Operand.item : Operand → Item
  | .variable name => { mode := 1, type := none, expr := .variable name }
  | .literal n => { mode := 2, type := some .intType, val := n, expr := .number n }

/-- The token that was passed last is an operand. -/
def Last (ts : List Ident) (o : Operand) (s : ParserState) : Prop :=
  ∃ t, s.tokenList = ts ++ [t] ∧ t.lexeme = o.lexeme

variable {o : Operand} {fuel depth : Nat} {codeGen : DelayedCodeGen} {expression : Production}
  {vec : List FixUps} {off : String → Int} {known : String → Prop}

theorem shift_last (h : s.ahead = o.lexeme :: rest) : Last s.tokenList o s.shift :=
  ⟨s.currentToken, rfl, ParserState.currentToken_lexeme h⟩

theorem lastName_last {ts : List Ident} {name : String} (h : Last ts (.variable name) s) :
    lastName s.tokenList = name := by
  obtain ⟨t, hlist, ht⟩ := h
  have hvalue := (Ident.value_of_sident ht).2
  simp [lastName, hlist, hvalue, TokenValue.asString]

theorem Operand.lexeme_ne (o : Operand) : o.lexeme.1 ≠ .tDot := by
  cases o with
  | «variable» name => exact fun h => nomatch h
  | literal n => exact fun h => nomatch h

theorem Operand.lexeme_ne_error (o : Operand) : o.lexeme.1 ≠ .tError := by
  cases o with
  | «variable» name => exact fun h => nomatch h
  | literal n => exact fun h => nomatch h

theorem identifier_yields {name : String}
    (h : Reached s c ((Operand.variable name).lexeme :: l :: rest)) (hl : l.1 ≠ .tDot)
    (herr : l.1 ≠ .tError) :
    Yields identifier s False fun _ s' =>
      Reached s' c (l :: rest) ∧ Last s.tokenList (.variable name) s' := by
  have hreach := h.shift (Operand.lexeme_ne _)
  have hlast := shift_last h.ahead
  refine @Yields.ok _ _ _ _ _ _ () { s.shift with classMember := true } ?_
    ⟨hreach.same rfl rfl rfl rfl, hlast⟩
  unfold identifier
  rw [bind_ok (expect_run h.ahead (by decide) herr)]
  simp only [bind_run, modify_run, currentType_eq, hreach.type, if_neg hl]
  rfl

theorem parseInt_run {n : Nat} (hn : n ≤ 32767) :
    (parseInt (some (.number n)) : P Int) s = .ok n s := by
  simp only [parseInt, if_pos ((int32_natCast n).mpr (by omega)), pure_run]

theorem value_yields (hu : o.Uses known) (h : Reached s c (o.lexeme :: l :: rest))
    (hl : AfterOperand l.1) :
    Yields (value expression fuel (depth + 1) vec) s False fun r s' =>
      r = (some o.item, vec) ∧ Reached s' c (l :: rest) ∧ Last s.tokenList o s' := by
  unfold value
  refine Yields.step (currentType_eq s) ?_
  rw [h.type]
  cases o with
  | «variable» name =>
    refine Yields.bind (identifier_yields h hl.1 hl.2.2.2.1) ?_
    rintro - s₁ ⟨hreach, hlast⟩
    refine Yields.step get_run ?_
    refine Yields.step (currentType_eq s₁) ?_
    rw [hreach.type, if_neg hl.2.1]
    refine Yields.step (currentType_eq s₁) ?_
    rw [hreach.type, if_neg hl.2.2.1, lastName_last hlast]
    exact Yields.pure ⟨rfl, hreach, hlast⟩
  | literal n =>
    have hreach := h.shift (Operand.lexeme_ne _)
    have hlast := shift_last h.ahead
    obtain ⟨t, hlist, ht⟩ := hlast
    have hint : intValue s = .ok n s.shift := by
      unfold intValue
      rw [bind_ok (expect_run h.ahead (by decide) hl.2.2.2.1), bind_ok (tokenCount_eq _),
        bind_ok (tokenAt_last hlist), (Ident.value_of_number ht).2, parseInt_run hu]
    exact Yields.step hint (Yields.pure ⟨rfl, hreach, t, hlist, ht⟩)

theorem factor_yields (hu : o.Uses known) (h : Reached s c (o.lexeme :: l :: rest))
    (hl : AfterOperand l.1) :
    Yields (factor codeGen expression (fuel + 1) vec) s False fun r s' =>
      r = (some o.item, vec) ∧ Reached s' c (l :: rest) ∧ Last s.tokenList o s' := by
  unfold factor
  refine Yields.bind (value_yields hu h hl) ?_
  rintro r s₁ ⟨rfl, hreach, hlast⟩
  refine Yields.step (currentType_eq s₁) ?_
  rw [hreach.type, hl.2.2.2.2.1]
  exact Yields.pure ⟨rfl, hreach, hlast⟩

/-- **An operand** is parsed, but not loaded yet. -/
theorem term_yields (hu : o.Uses known) (h : Reached s c (o.lexeme :: l :: rest))
    (hl : AfterOperand l.1) :
    Yields (term codeGen expression (fuel + 1) vec) s False fun r s' =>
      r = (some o.item, vec) ∧ Reached s' c (l :: rest) ∧ Last s.tokenList o s' := by
  unfold term
  refine Yields.bind (factor_yields hu h hl) ?_
  rintro r s₁ ⟨rfl, hreach, hlast⟩
  refine Yields.step (currentType_eq s₁) ?_
  refine Yields.step (currentType_eq s₁) ?_
  rw [hreach.type, hl.2.2.2.2.2, if_neg Bool.false_ne_true, if_neg fun hnone => nomatch hnone.1]
  exact Yields.pure ⟨rfl, hreach, hlast⟩

/-! ## loading an operand -/

/-- The code generator behind the load of an operand. -/
def afterLoad (off : String → Int) (o : Operand) (g : CodeGenerator) : CodeGenerator :=
  g.increaseReg.emit [o.load off (g.topReg + 1)]

/-- The type of a variable is known once it is loaded. -/
def Operand.loadedType : Operand → Option TypeDesc
  | .variable _ => some .intType
  | .literal _ => none

theorem getSymbol_run (name : String) :
    getSymbol (some (.text name)) s = .ok (s.cg.symbolTable.getSymbol name) s := rfl

/-- The cell of the last token, when it is not behind a dot. -/
theorem getIdentifersCell_run {ts : List Ident} {name : String}
    (hlast : Last ts (.variable name) s) (hdot : ∀ t, ts.getLast? = some t → t.type ≠ .tDot) :
    getIdentifersCell ((s.tokenList.length : Int) - 1) s =
      .ok (s.cg.symbolTable.getSymbol name) s := by
  obtain ⟨t, hlist, ht⟩ := hlast
  have htype := (Ident.value_of_sident ht).1
  have hvalue := (Ident.value_of_sident ht).2
  unfold getIdentifersCell
  rw [bind_ok (tokenAt_last hlist), if_pos htype, hvalue, bind_ok (getSymbol_run name)]
  by_cases hpos : 0 < (s.tokenList.length : Int) - 1
  · rw [if_pos hpos]
    have hlen : s.tokenList.length = ts.length + 1 := by rw [hlist]; simp
    obtain ⟨t', ht'⟩ : ∃ t', ts.getLast? = some t' := by
      cases hts : ts.getLast? with
      | none =>
        rw [List.getLast?_eq_none_iff] at hts
        rw [hts] at hlen
        simp only [List.length_nil] at hlen
        omega
      | some t' => exact ⟨t', rfl⟩
    have hprev : tokenAt ((s.tokenList.length : Int) - 1 - 1) s = .ok t' s := by
      have hidx : (s.tokenList.length : Int) - 1 - 1 = ((ts.length - 1 : Nat) : Int) := by omega
      rw [hidx]
      refine tokenAt_run ?_
      rw [hlist, List.getElem?_append_left (by omega), ← ht', List.getLast?_eq_getElem?]
    rw [bind_ok hprev, if_neg (hdot t' ht')]
    rfl
  · rw [if_neg hpos]
    rfl

theorem putValue2Reg_run {ts : List Ident} (hu : o.Uses known) (hlast : Last ts o s)
    (hdot : ∀ t, ts.getLast? = some t → t.type ≠ .tDot)
    (hknown : ∀ x, known x → Local s.cg.symbolTable x (off x)) :
    putValue2Reg ((s.tokenList.length : Int) - 1) s =
      .ok o.loadedType { s with cg := afterLoad off o s.cg } := by
  unfold putValue2Reg
  cases o with
  | «variable» name =>
    obtain ⟨cell, hcell, htype, hglobal, hoffset⟩ := hknown name hu
    have hget := getIdentifersCell_run hlast hdot
    obtain ⟨t, hlist, ht⟩ := hlast
    rw [bind_ok (tokenAt_last hlist), if_pos (Ident.value_of_sident ht).1]
    unfold putIdentifiers2Reg
    rw [bind_ok hget, hcell, bind_ok (deref_run cell)]
    simp only [gen, bind_run, modify_run, pure_run, htype, Operand.loadedType, afterLoad,
      CodeGenerator.loadWordType, CodeGenerator.address, hglobal, Bool.false_eq_true, if_false,
      hoffset, CodeGenerator.putOpCode_eq, CodeGenerator.increaseReg, Operand.load]
  | literal n =>
    obtain ⟨t, hlist, ht⟩ := hlast
    have htype : t.type ≠ .tSident := by
      rw [(Ident.value_of_number ht).1]
      decide
    rw [bind_ok (tokenAt_last hlist), if_neg htype, (Ident.value_of_number ht).2,
      bind_ok (parseInt_run hu)]
    simp only [gen, bind_run, modify_run, pure_run, Operand.loadedType, afterLoad,
      CodeGenerator.addI, CodeGenerator.putOpCode_eq, CodeGenerator.increaseReg, Operand.load]

/-- What holds while a condition is parsed. -/
structure InCondition (off : String → Int) (known : String → Prop) (c : Control) : Prop where
  topReg : c.cg.topReg = 0
  pc : c.cg.pc = c.cg.opCode.length + 1
  condMode : c.condMode = true
  condFixup : ∃ fixups, c.condFixup = some fixups
  known : ∀ x, known x → Local c.cg.symbolTable x (off x)

theorem InCondition.emit (h : InCondition off known c) (code : List OpCodeElement)
    (jumps : List Nat) : InCondition off known (c.emit code jumps) where
  topReg := h.topReg
  pc := by
    simp only [Control.emit_cg, CodeGenerator.emit_pc, CodeGenerator.emit_opCode,
      List.length_append, h.pc]
    omega
  condMode := h.condMode
  condFixup := by
    obtain ⟨fixups, hfixups⟩ := h.condFixup
    exact ⟨fixups ++ jumps, by rw [Control.emit, hfixups]; rfl⟩
  known := h.known

theorem takeItem_run (o : Operand) : takeItem o.item s = .ok () s := by
  cases o <;> rfl

/-- An operand of a comparison. -/
theorem loadOperand_yields {ts : List Ident} (hu : o.Uses known) (h : Reached s c rest)
    (hlast : Last ts o s) (hdot : ∀ t, ts.getLast? = some t → t.type ≠ .tDot)
    (hknown : ∀ x, known x → Local c.cg.symbolTable x (off x)) :
    Yields (loadOperand o.item) s False fun item s' =>
      item.type = some .intType ∧ Reached s' { c with cg := afterLoad off o c.cg } rest := by
  have hput := @putValue2Reg_run s o off known ts hu hlast hdot (by rw [h.cg]; exact hknown)
  have hreach := h.gen (afterLoad off o)
  unfold loadOperand
  refine Yields.step (takeItem_run o) ?_
  cases o with
  | «variable» name =>
    have hmode : (Operand.variable name).item.mode = 1 := rfl
    rw [if_pos hmode]
    refine Yields.step (tokenCount_eq s) ?_
    exact Yields.step hput (Yields.pure ⟨rfl, hreach⟩)
  | literal n =>
    have hmode : (Operand.literal n).item.mode = 2 := rfl
    rw [if_neg (by rw [hmode]; decide), if_pos hmode]
    refine Yields.step (tokenCount_eq s) ?_
    exact Yields.step hput (Yields.pure ⟨rfl, hreach⟩)

/-! ## comparisons -/

theorem Rel.lexemes_cons (r : Rel) (ext : List Lexeme) :
    ∃ l ls, r.lexemes ++ ext = l :: ls ∧ AfterOperand l.1 ∧ l.1.startSetRelation = true := by
  cases r <;> exact ⟨_, _, rfl, by decide, rfl⟩

theorem relationOperator_yields (r : Rel) (h : Reached s c (r.lexemes ++ l :: rest))
    (hl : l.1 ≠ .tError) :
    Yields relationOperator s False fun op s' => op = r.falseBranch ∧ Reached s' c (l :: rest) := by
  unfold relationOperator
  refine Yields.step (currentType_eq s) ?_
  cases r with
  | eq =>
    rw [h.type]
    refine Yields.bind (expect_yields h (by decide) (by decide) (by decide)) ?_
    intro _ s₁ h₁
    refine Yields.bind (expect_yields h₁ (by decide) (by decide) hl) ?_
    exact fun _ s₂ h₂ => Yields.pure ⟨rfl, h₂⟩
  | ne =>
    rw [h.type]
    refine Yields.bind (expect_yields h (by decide) (by decide) (by decide)) ?_
    intro _ s₁ h₁
    refine Yields.bind (expect_yields h₁ (by decide) (by decide) hl) ?_
    exact fun _ s₂ h₂ => Yields.pure ⟨rfl, h₂⟩
  | lt | le | gt | ge =>
    rw [h.type]
    refine Yields.bind (expect_yields h (by decide) (by decide) hl) ?_
    exact fun _ s₁ h₁ => Yields.pure ⟨rfl, h₁⟩

/-- Two loads, the comparison and its branch, which goes nowhere yet. -/
theorem relation_afterLoad {g : CodeGenerator} (htop : g.topReg = 0)
    (hpc : g.pc = g.opCode.length + 1) (cmp : Comparison) :
    (afterLoad off cmp.second (afterLoad off cmp.first g)).relation cmp.rel.falseBranch =
      (g.opCode.length + 3, g.emit (cmp.code off false (-1000) (-100))) := by
  obtain ⟨_, _, _, topReg, _, opCode, _, _⟩ := g
  dsimp only at htop hpc
  subst htop hpc
  simp [afterLoad, CodeGenerator.relation, CodeGenerator.emit, CodeGenerator.putOpCode,
    CodeGenerator.increaseReg, CodeGenerator.decreaseReg, CodeGenerator.getCurrentReg,
    Comparison.code, Rel.branch]

theorem addFixUp_yields (h : Reached s c rest) (hc : ∃ fixups, c.condFixup = some fixups)
    (vec : List FixUps) (pos : Nat) :
    Yields (addFixUp vec pos) s False fun r s' =>
      r = vec ++ [⟨pos, c.booleanLevel⟩] ∧ Reached s' (c.emit [] [pos]) rest := by
  obtain ⟨fixups, hfixups⟩ := hc
  have hs : s.condFixup = some fixups := by rw [h.condFixup, hfixups]
  have hadd : addCondFixup pos s = .ok () { s with condFixup := some (fixups ++ [pos]) } := by
    unfold addCondFixup
    rw [bind_ok get_run, hs, bind_ok (deref_run fixups), modify_run]
  unfold addFixUp
  refine Yields.step hadd (Yields.step get_run (Yields.pure ⟨?_, ?_⟩))
  · rw [← h.booleanLevel]
  · refine ⟨?_, h.ahead, h.braces, h.dot⟩
    rw [← h.control, Control.emit, CodeGenerator.emit_nil]
    simp only [control, hs, Option.map_some]

/-- **A comparison** is written with a false jump, which is remembered. -/
theorem comparison_yields (hin : InCondition off known c) {cmp : Comparison}
    (hu : cmp.Uses known) (h : Reached s c (cmp.lexemes ++ l :: rest)) (hl : AfterOperand l.1) :
    Yields (relation codeGen expression (fuel + 1) vec) s False fun r s' =>
      ∃ item, r = (some item, vec ++ [⟨c.cg.opCode.length + 3, c.booleanLevel⟩]) ∧
        item.type = some .intType ∧ Reached s' (c.emit (cmp.code off false (-1000) (-100))
          [c.cg.opCode.length + 3]) (l :: rest) := by
  obtain ⟨hu1, hu2⟩ := hu
  simp only [Comparison.lexemes, List.cons_append, List.append_assoc, List.nil_append] at h
  obtain ⟨l', ls, hls, hafter, hset⟩ := cmp.rel.lexemes_cons (cmp.second.lexeme :: l :: rest)
  rw [hls] at h
  unfold relation
  refine Yields.bind (term_yields hu1 h hafter) ?_
  rintro r s₁ ⟨rfl, h₁, hlast₁⟩
  refine Yields.step (currentType_eq s₁) ?_
  rw [h₁.type, hset, if_pos rfl]
  refine Yields.step (deref_run _) ?_
  refine Yields.bind (loadOperand_yields hu1 h₁ hlast₁ h.dot hin.known) ?_
  rintro item s₂ ⟨htype, h₂⟩
  rw [← hls] at h₂
  refine Yields.bind (relationOperator_yields cmp.rel h₂ cmp.second.lexeme_ne_error) ?_
  rintro op s₃ ⟨rfl, h₃⟩
  refine Yields.bind (term_yields hu2 h₃ hl) ?_
  rintro r s₄ ⟨rfl, h₄, hlast₄⟩
  dsimp only
  refine Yields.step (deref_run _) ?_
  refine Yields.bind (loadOperand_yields hu2 h₄ hlast₄ h₃.dot hin.known) ?_
  rintro item2 s₅ ⟨htype2, h₅⟩
  rw [htype, htype2, if_neg (fun hne => hne rfl)]
  have h₆ := h₅.gen fun g => (g.relation cmp.rel.falseBranch).2
  rw [relation_afterLoad hin.topReg hin.pc] at h₆
  have hgen : genGet (·.relation cmp.rel.falseBranch) s₅ = .ok (c.cg.opCode.length + 3)
      { s₅ with cg := (s₅.cg.relation cmp.rel.falseBranch).2 } := by
    rw [← (show (s₅.cg.relation cmp.rel.falseBranch).1 = c.cg.opCode.length + 3 by
      rw [h₅.cg, relation_afterLoad hin.topReg hin.pc])]
    rfl
  refine Yields.step hgen ?_
  refine Yields.bind (addFixUp_yields h₆ hin.condFixup vec _) ?_
  rintro vec' s₇ ⟨rfl, h₇⟩
  have hemit : ({ c with cg := c.cg.emit (cmp.code off false (-1000) (-100)) } : Control).emit []
      [c.cg.opCode.length + 3] = c.emit (cmp.code off false (-1000) (-100))
        [c.cg.opCode.length + 3] := by
    rw [Control.emit, CodeGenerator.emit_nil]
    rfl
  rw [← hemit]
  exact Yields.pure ⟨_, rfl, rfl, h₇⟩

end Compiler.Flow
