import Bambinos.Compiler.Handed
import Bambinos.Compiler.TokenRuns

/-!
# How the parser groups an expression

`term` and `factor` parse the third operand of a chain with `expression()`.

* `Parsed` — an expression was parsed: its code is written, and its value is where its item says
* `operation_yields` — `delayedCodeGen` takes two of them to their operation
* `expression_yields` — the parser reads an expression as `handed`
* `expression_groups_iff` — the tree and the value are the usual ones exactly for narrow expressions
  that the machine does not take the other way round
-/

namespace Compiler

open Infra Vm

/-! ## the tokens of an expression -/

def MulOp.token : MulOp → TokenID
  | mult => .tMult
  | div => .tDiv
  | mod => .tMod

def AddOp.token : AddOp → TokenID
  | plus => .tPlus
  | minus => .tMinus

mutual

def Value.lexemes : Value → List Lexeme
  | .ident name => [(.tSident, some (.text name))]
  | .number n => [(.tNumber, some (.number n))]
  | .paren t => (.tLparen, none) :: (t.lexemes ++ [(.tRparen, none)])

def FactorTail.lexemes : FactorTail → List Lexeme
  | .nil => []
  | .cons op v tail => (op.token, none) :: (v.lexemes ++ tail.lexemes)

def Term.lexemes : Term → List Lexeme
  | .mk (.mk v tail) rest => v.lexemes ++ tail.lexemes ++ rest.lexemes

def TermTail.lexemes : TermTail → List Lexeme
  | .nil => []
  | .cons op (.mk v tail) rest => (op.token, none) :: (v.lexemes ++ tail.lexemes ++ rest.lexemes)

end

/-- The first token of a value can be read. -/
theorem Value.lexemes_cons (v : Value) (ext : List Lexeme) :
    ∃ l ls, v.lexemes ++ ext = l :: ls ∧ l.1 ≠ .tError := by
  cases v with
  | ident name => exact ⟨_, _, rfl, show TokenID.tSident ≠ .tError by decide⟩
  | number n => exact ⟨_, _, rfl, show TokenID.tNumber ≠ .tError by decide⟩
  | paren t => exact ⟨_, _, rfl, show TokenID.tLparen ≠ .tError by decide⟩

theorem Term.lexemes_cons (t : Term) (ext : List Lexeme) :
    ∃ l ls, t.lexemes ++ ext = l :: ls ∧ l.1 ≠ .tError := by
  obtain ⟨⟨v, tail⟩, rest⟩ := t
  simp only [lexemes, List.append_assoc]
  exact v.lexemes_cons _

/-- A token that can follow a value. -/
def FollowsValue (id : TokenID) : Prop :=
  id ≠ .tDot ∧ id ≠ .tLbrack ∧ id ≠ .tLparen ∧ id ≠ .tError

/-- A token that ends an expression. -/
def EndsExpression (id : TokenID) : Prop :=
  FollowsValue id ∧ Parser.isFactorOperator id = false ∧ Parser.isTermOperator id = false ∧
    id.startSetRelation = false ∧ id ≠ .tAnd ∧ id ≠ .tOr

theorem MulOp.isFactorOperator_token (op : MulOp) : Parser.isFactorOperator op.token = true := by
  cases op <;> rfl

theorem AddOp.isTermOperator_token (op : AddOp) : Parser.isTermOperator op.token = true := by
  cases op <;> rfl

theorem MulOp.token_follows (op : MulOp) : FollowsValue op.token := by
  cases op <;> exact ⟨by decide, by decide, by decide, by decide⟩

theorem AddOp.token_follows (op : AddOp) : FollowsValue op.token := by
  cases op <;> exact ⟨by decide, by decide, by decide, by decide⟩

theorem rparen_ends : EndsExpression .tRparen :=
  ⟨⟨by decide, by decide, by decide, by decide⟩, by decide, by decide, by decide, by decide,
    by decide⟩

namespace Parser

/-! ## what operations leave alone -/

/-- The token to come and the mode do not change. -/
def SameInput (s s' : ParserState) : Prop :=
  s'.currentToken = s.currentToken ∧ s'.input = s.input ∧ s'.condMode = s.condMode

theorem SameInput.ahead {s s' : ParserState} (h : SameInput s s') : s'.ahead = s.ahead := by
  unfold ParserState.ahead
  rw [h.1, h.2.1]

instance : Std.Refl SameInput := ⟨fun _ => ⟨rfl, rfl, rfl⟩⟩

instance : IsTrans ParserState SameInput :=
  ⟨fun _ _ _ h h' => ⟨h'.1.trans h.1, h'.2.1.trans h.2.1, h'.2.2.trans h.2.2⟩⟩

theorem keeps_gen (f : CodeGenerator → CodeGenerator) :
    Keeps SameInput (gen f) fun _ => True := Keeps.modify fun _ => ⟨rfl, rfl, rfl⟩

theorem keeps_genGet {α : Type} (f : CodeGenerator → α × CodeGenerator) :
    Keeps SameInput (genGet f) fun _ => True := fun _ =>
  Yields.ok rfl ⟨trivial, rfl, rfl, rfl⟩

theorem keeps_parseInt (v : Option TokenValue) :
    Keeps SameInput (parseInt v : P Int) fun _ => True := by
  unfold parseInt
  split
  · exact Keeps.ite (fun _ => Keeps.pure trivial) fun _ => Keeps.throw _
  · exact Keeps.throw _

theorem keeps_line : Keeps SameInput line fun _ => True :=
  Keeps.seq Keeps.get fun _ => Keeps.pure trivial

theorem keeps_syntaxError {α : Type} {Q : α → Prop} (message : String) :
    Keeps SameInput (syntaxError message) Q :=
  Keeps.seq (Keeps.modify fun _ => ⟨rfl, rfl, rfl⟩) fun _ => Keeps.throw _

theorem keeps_takeItem (item : Item) : Keeps SameInput (takeItem item) fun _ => True :=
  Keeps.ite (fun _ => Keeps.modify fun _ => ⟨rfl, rfl, rfl⟩) fun _ => Keeps.pure trivial

theorem keeps_tokenCount : Keeps SameInput tokenCount fun _ => True :=
  Keeps.seq Keeps.get fun _ => Keeps.pure trivial

theorem keeps_tokenAt (i : Int) : Keeps SameInput (tokenAt i) fun _ => True :=
  Keeps.seq Keeps.get fun _ => (Keeps.elementAt _ _).mono fun _ _ => trivial

theorem keeps_getSymbol (name : Option TokenValue) :
    Keeps SameInput (getSymbol name) fun _ => True :=
  Keeps.seq Keeps.get fun _ => Keeps.pure trivial

theorem keeps_getIdentifersCell (index : Int) :
    Keeps SameInput (getIdentifersCell index) fun _ => True := by
  unfold getIdentifersCell
  refine Keeps.seq (keeps_tokenAt _) fun t => ?_
  refine Keeps.ite (fun _ => ?_) fun _ => Keeps.pure trivial
  refine Keeps.seq (keeps_getSymbol _) fun cell => ?_
  refine Keeps.ite (fun _ => ?_) fun _ => Keeps.pure trivial
  refine Keeps.seq (keeps_tokenAt _) fun t => ?_
  refine Keeps.ite (fun _ => ?_) fun _ => Keeps.pure trivial
  refine Keeps.seq (keeps_tokenAt _) fun t => ?_
  refine Keeps.ite (fun _ => ?_) fun _ => Keeps.pure trivial
  refine Keeps.seq Keeps.get fun _ => ?_
  exact Keeps.bind (Keeps.deref _) fun _ _ => Keeps.pure trivial

theorem keeps_putIdentifiers2Reg (index : Int) :
    Keeps SameInput (putIdentifiers2Reg index) fun _ => True := by
  unfold putIdentifiers2Reg
  refine Keeps.seq (keeps_getIdentifersCell _) fun cell => ?_
  refine Keeps.bind (Keeps.deref _) fun cell _ => ?_
  exact Keeps.seq (keeps_gen _) fun _ => Keeps.pure trivial

theorem keeps_putValue2Reg (index : Int) :
    Keeps SameInput (putValue2Reg index) fun _ => True := by
  unfold putValue2Reg
  refine Keeps.seq (keeps_tokenAt _) fun t => ?_
  refine Keeps.ite (fun _ => keeps_putIdentifiers2Reg _) fun _ => ?_
  refine Keeps.seq (keeps_parseInt _) fun _ => ?_
  exact Keeps.seq (keeps_gen _) fun _ => Keeps.pure trivial

theorem keeps_isBooleanIdentifier : Keeps SameInput isBooleanIdentifier fun _ => True := by
  unfold isBooleanIdentifier
  refine Keeps.seq keeps_tokenCount fun _ => ?_
  refine Keeps.seq (keeps_getIdentifersCell _) fun cell => ?_
  cases cell with
  | none => exact Keeps.pure trivial
  | some cell => exact Keeps.pure trivial

theorem keeps_addFixUp (fixupMap : List FixUps) (pcPos : Nat) :
    Keeps SameInput (addFixUp fixupMap pcPos) fun _ => True := by
  unfold addFixUp addCondFixup
  refine Keeps.seq ?_ fun _ => Keeps.seq Keeps.get fun _ => Keeps.pure trivial
  refine Keeps.seq Keeps.get fun _ => ?_
  refine Keeps.bind (Keeps.deref _) fun _ _ => ?_
  exact Keeps.modify fun _ => ⟨rfl, rfl, rfl⟩

theorem keeps_requireInt (type : Option TypeDesc) :
    Keeps SameInput (requireInt type) fun _ => True := by
  unfold requireInt
  refine Keeps.ite (fun _ => ?_) fun _ => Keeps.pure trivial
  exact Keeps.seq keeps_line fun _ => keeps_syntaxError _

theorem keeps_setLastValue (v : Int) : Keeps SameInput (setLastValue v) fun _ => True := by
  unfold setLastValue
  refine Keeps.seq keeps_tokenCount fun _ => ?_
  exact Keeps.seq (keeps_tokenAt _) fun _ => Keeps.modify fun _ => ⟨rfl, rfl, rfl⟩

theorem keeps_foldConstants (kind : Operation) (v w : Int) :
    Keeps SameInput (foldConstants kind v w) fun _ => True := by
  unfold foldConstants
  cases kind
  case div | mod => exact Keeps.ite (fun _ => Keeps.throw _) fun _ => Keeps.pure trivial
  all_goals exact Keeps.pure trivial

theorem keeps_invertForSub (kind : Operation) :
    Keeps SameInput (delayedCodeGen.invertForSub kind) fun _ => True := by
  unfold delayedCodeGen.invertForSub
  refine Keeps.ite (fun _ => ?_) fun _ => Keeps.pure trivial
  exact Keeps.seq (keeps_gen _) fun _ => Keeps.pure trivial

/-- Loads an `int` variable. -/
theorem keeps_loadInt {β : Type} {f : P β} {Q : β → Prop} (index : Int)
    (hf : Keeps SameInput f Q) :
    Keeps SameInput (do requireInt (← putIdentifiers2Reg index); f) Q :=
  Keeps.seq (keeps_putIdentifiers2Reg index) fun _ => Keeps.seq (keeps_requireInt _) fun _ => hf

/-- The last step of an operation. -/
theorem keeps_genReturn {r : Item} (f : CodeGenerator → CodeGenerator) :
    Keeps SameInput (do gen f; return some r) fun _ => True :=
  Keeps.seq (keeps_gen f) fun _ => Keeps.pure trivial

theorem keeps_foldReturn {r : Item} (kind : Operation) (v w : Int) :
    Keeps SameInput (do
      let val ← foldConstants kind v w
      setLastValue val
      return some { r with mode := 2, val := val, inReg := false }) fun _ => True :=
  Keeps.seq (keeps_foldConstants kind v w) fun val =>
    Keeps.seq (keeps_setLastValue val) fun _ => Keeps.pure trivial

/-- **No token is passed** by an operation. -/
theorem keeps_delayedCodeGen (kind : Operation) (index : Int) (item1 item2 : Item) :
    Keeps SameInput (delayedCodeGen kind index (some item1) (some item2)) fun _ => True := by
  unfold delayedCodeGen
  simp only [deref_some, pure_bind]
  refine Keeps.seq (keeps_takeItem _) fun _ => ?_
  refine Keeps.seq (keeps_takeItem _) fun _ => ?_
  refine Keeps.ite (fun _ => keeps_genReturn _) fun h33 => ?_
  refine Keeps.ite (fun _ => ?constants) fun h22 => ?_
  case constants =>
    refine Keeps.ite (fun _ => ?_) fun _ => keeps_foldReturn kind _ _
    exact Keeps.seq keeps_line fun _ => Keeps.seq (keeps_syntaxError _) fun _ =>
      keeps_foldReturn kind _ _
  refine Keeps.ite (fun _ => ?_) fun h11 => ?_
  · refine keeps_loadInt _ ?_
    refine Keeps.seq keeps_tokenCount fun _ => ?_
    exact keeps_loadInt _ (keeps_genReturn _)
  refine Keeps.ite (fun _ => keeps_loadInt _ (keeps_genReturn _)) fun h13 => ?_
  refine Keeps.ite (fun _ => ?_) fun h31 => ?_
  · refine Keeps.seq keeps_tokenCount fun _ => ?_
    exact Keeps.seq (keeps_putIdentifiers2Reg _) fun _ => keeps_genReturn _
  refine Keeps.ite (fun _ => keeps_genReturn _) fun h32 => ?_
  refine Keeps.ite (fun _ => ?_) fun h23 => ?_
  · exact Keeps.seq (keeps_invertForSub kind) fun _ => keeps_genReturn _
  refine Keeps.ite (fun _ => keeps_loadInt _ (keeps_genReturn _)) fun h12 => ?_
  refine Keeps.ite (fun _ => ?_) fun _ => Keeps.pure trivial
  refine Keeps.seq keeps_tokenCount fun _ => ?_
  refine keeps_loadInt _ ?_
  exact Keeps.seq (keeps_invertForSub kind) fun _ => keeps_genReturn _

/-! ## cells -/

section Cells

variable {s : ParserState} {pre post : List Ident} {t : Ident} {name : String}

theorem tokenAt_middle (h : s.tokenList = pre ++ t :: post) : tokenAt pre.length s = .ok t s :=
  tokenAt_run (by rw [h]; simp)

/-- An identifier with no dot in front is looked up in the symbol table. -/
theorem getIdentifersCell_name (h : s.tokenList = pre ++ t :: post) (ht : t.type = .tSident)
    (hv : t.value = some (.text name)) (hdot : ∀ d ∈ pre.getLast?, d.type ≠ .tDot) :
    getIdentifersCell pre.length s = .ok (s.cg.symbolTable.getSymbol name) s := by
  have hsymbol : getSymbol t.value s = .ok (s.cg.symbolTable.getSymbol name) s := by
    rw [hv]
    rfl
  unfold getIdentifersCell
  rw [bind_ok (tokenAt_middle h), if_pos ht, bind_ok hsymbol]
  rcases List.eq_nil_or_concat pre with rfl | ⟨init, d, rfl⟩
  · rfl
  · rw [List.concat_eq_append] at h hdot ⊢
    have hindex : (((init ++ [d]).length : Nat) : Int) - 1 = init.length := by simp
    have hd : tokenAt ((((init ++ [d]).length : Nat) : Int) - 1) s = .ok d s := by
      rw [hindex]
      have hlist : s.tokenList = init ++ d :: (t :: post) := by simp [h]
      exact tokenAt_middle hlist
    rw [if_pos (by simp), bind_ok hd, if_neg (hdot d (by simp))]
    rfl

theorem getIdentifersCell_none (h : s.tokenList = pre ++ t :: post) (ht : t.type ≠ .tSident) :
    getIdentifersCell pre.length s = .ok none s := by
  unfold getIdentifersCell
  rw [bind_ok (tokenAt_middle h), if_neg ht]
  rfl

end Cells

/-! ## an expression that was parsed -/

section Parsed

variable {T : SymbolTableList} {cells : String → SymbolTableCell} {s₀ s₁ s₂ s₃ s s' : ParserState}
  {h l r : Handed} {item item1 item2 : Item} {kind : Operation} {i : Int}

/-- The variable is an `int` and is declared as `cells` says. -/
def IntVariable (T : SymbolTableList) (cells : String → SymbolTableCell) (name : String) : Prop :=
  T.getSymbol name = some (cells name) ∧ (cells name).type = some .intType

/-- The parser is at an expression: no dot is in front of it. -/
structure AtExpression (T : SymbolTableList) (s : ParserState) : Prop where
  table : s.cg.symbolTable = T
  noDot : ∀ t ∈ s.tokenList.getLast?, t.type ≠ .tDot

/-- What the last token is, and that it has no dot in front if it is a name. -/
def EndsWith (name : Option String) (pre : List Ident) (t : Ident) : Prop :=
  match name with
  | some name => t.type = .tSident ∧ t.value = some (.text name) ∧
      ∀ d ∈ pre.getLast?, d.type ≠ .tDot
  | none => t.type ≠ .tSident ∧ t.type ≠ .tDot

/-- The item says where the value is. -/
def Shows (item : Item) : Place → Prop
  | .memory _ => item.mode = 1
  | .immediate val => item.mode = 2 ∧ item.val = val
  | .register => item.mode = 3

/-- Between `s₀` and `s` an expression was parsed, and its operations were compiled. -/
structure Parsed (cells : String → SymbolTableCell) (s₀ s : ParserState) (h : Handed)
    (item : Item) : Prop where
  cg : s.cg = { s₀.cg.emit (h.code cells s₀.cg.topReg) with
    topReg := s₀.cg.topReg + (h.place cells).registers }
  tokens : ∃ pre t, s.tokenList = pre ++ [t] ∧ s₀.tokenList <+: pre ∧ EndsWith h.last pre t
  expr : item.expr = h.tree
  shows : Shows item (h.place cells)
  type : item.type ≠ some .boolType ∧ (item.mode = 2 → item.type = some .intType)
  condMode : s.condMode = s₀.condMode

theorem EndsWith.noDot {name : Option String} {pre : List Ident} {t : Ident}
    (h : EndsWith name pre t) : t.type ≠ .tDot := by
  cases name with
  | none => exact h.2
  | some name =>
    rw [h.1]
    decide

theorem Parsed.begins (h : Parsed cells s₀ s l item) (h₀ : AtExpression T s₀) : AtExpression T s where
  table := by
    rw [h.cg]
    exact h₀.table
  noDot t ht := by
    obtain ⟨pre, t', hlist, -, hends⟩ := h.tokens
    rw [hlist, List.getLast?_concat] at ht
    rw [← Option.some.inj ht]
    exact hends.noDot

theorem AtExpression.shift (h : AtExpression T s) (hdot : s.currentToken.type ≠ .tDot) :
    AtExpression T s.shift where
  table := h.table
  noDot t ht := by
    have hlist : s.shift.tokenList = s.tokenList ++ [s.currentToken] := rfl
    rw [hlist, List.getLast?_concat] at ht
    rw [← Option.some.inj ht]
    exact hdot

/-- **An operand is found again**, unless it is a variable in brackets. -/
theorem Parsed.of (h : Parsed cells s₀ s₁ l item) (hu : l.Uses (IntVariable T cells))
    (hd : l.Direct) (htokens : s₁.tokenList <+: s.tokenList) (htable : s.cg.symbolTable = T)
    (hi : ∀ name, l.lone = some name → i = (s₁.tokenList.length : Int) - 1) :
    (l.place cells).Of s i item ∧ (l.place cells).IsInt := by
  have hshows := h.shows
  rcases Handed.place_cases cells l with ⟨val, -, -, hp⟩ | ⟨name, hl, -, hp⟩ | ⟨-, -, hp⟩ <;>
    rw [hp] at hshows ⊢
  · exact ⟨hshows, trivial⟩
  · obtain rfl := Handed.eq_variable hd hl
    obtain ⟨pre, t, hlist, -, ht, hv, hdot⟩ := h.tokens
    obtain ⟨post, hpost⟩ := htokens
    have hlist' : s.tokenList = pre ++ t :: post := by
      rw [← hpost, hlist, List.append_assoc]
      rfl
    have hindex : i = pre.length := by
      rw [hi name hl, hlist, List.length_append]
      simp
    have hu' : IntVariable T cells name := hu
    refine ⟨⟨hshows, ?_⟩, hu'.2⟩
    rw [hindex, getIdentifersCell_name hlist' ht hv hdot, htable, hu'.1]
  · exact ⟨hshows, trivial⟩

theorem Parsed.not_found (h : Parsed cells s₀ s₁ l item) (hd : ¬ l.Direct)
    (htokens : s₁.tokenList <+: s.tokenList)
    (hi : ∀ name, l.lone = some name → i = (s₁.tokenList.length : Int) - 1) :
    item.mode = 1 ∧ getIdentifersCell i s = .ok none s := by
  obtain ⟨hlast, name, hl⟩ := Handed.last_of_not_direct hd
  have hshows := h.shows
  rw [Handed.place_lone hl] at hshows
  obtain ⟨pre, t, hlist, -, hends⟩ := h.tokens
  rw [hlast] at hends
  obtain ⟨post, hpost⟩ := htokens
  have hlist' : s.tokenList = pre ++ t :: post := by
    rw [← hpost, hlist, List.append_assoc]
    rfl
  have hindex : i = pre.length := by
    rw [hi name hl, hlist, List.length_append]
    simp
  exact ⟨hshows, by rw [hindex]; exact getIdentifersCell_none hlist' hends.1⟩

/-! ## variables in brackets -/

section Brackets

variable {fail : Prop} {p₁ : Place} {Q : Option TypeDesc → ParserState → Prop}
  {R : Option Item → ParserState → Prop}

theorem putIdentifiers2Reg_none (hcell : getIdentifersCell i s = .ok none s) (hfail : fail) :
    Yields (putIdentifiers2Reg i) s fail Q := by
  unfold putIdentifiers2Reg
  exact Yields.step hcell (Yields.error rfl hfail)

theorem getIdentifersCell_withCode {f : CodeGenerator → CodeGenerator}
    {cell : Option SymbolTableCell} (ls : List Leak) (hf : ∀ g, (f g).symbolTable = g.symbolTable)
    (hcell : getIdentifersCell i s = .ok cell s) :
    getIdentifersCell i (s.withCode f ls) = .ok cell (s.withCode f ls) :=
  (getIdentifersCell_commutes hf).ok hcell

/-- A variable in brackets is not found as the first operand. -/
theorem delayedCodeGen_left_none (hm : item1.mode = 1) (hcell : getIdentifersCell i s = .ok none s)
    (hm₂ : item2.mode = 1 ∨ item2.mode = 2 ∨ item2.mode = 3) (hfail : fail) :
    Yields (delayedCodeGen kind i (some item1) (some item2)) s fail R := by
  obtain ⟨ls₁, htake₁⟩ := @takeItem_withCode s item1
  obtain ⟨ls₂, htake₂⟩ := @takeItem_withCode (s.withCode id ls₁) item2
  have hid : ∀ g : CodeGenerator, (id g).symbolTable = g.symbolTable := fun _ => rfl
  replace hcell := getIdentifersCell_withCode ls₂ hid (getIdentifersCell_withCode ls₁ hid hcell)
  unfold delayedCodeGen
  dsimp only
  refine Yields.step pure_run (Yields.step (by rfl : deref (some item1) s = .ok item1 s) ?_)
  refine Yields.step htake₁ (Yields.step htake₂ ?_)
  rcases hm₂ with hm₂ | hm₂ | hm₂
  all_goals
    simp only [hm, hm₂, Nat.reduceEqDiff, and_false, false_and, and_self, if_true, if_false]
    exact Yields.bind (Q := fun _ _ => False) (putIdentifiers2Reg_none hcell hfail) fun _ _ h => h.elim

/-- A variable in brackets is not found as the second operand. -/
theorem delayedCodeGen_right_none (hm : item2.mode = 1)
    (hcell : getIdentifersCell ((s.tokenList.length : Int) - 1) s = .ok none s)
    (h₁ : p₁.Of s i item1) (hfail : fail) :
    Yields (delayedCodeGen kind i (some item1) (some item2)) s fail R := by
  obtain ⟨ls₁, htake₁⟩ := @takeItem_withCode s item1
  obtain ⟨ls₂, htake₂⟩ := @takeItem_withCode (s.withCode id ls₁) item2
  have hid : ∀ g : CodeGenerator, (id g).symbolTable = g.symbolTable := fun _ => rfl
  replace hcell := getIdentifersCell_withCode ls₂ hid (getIdentifersCell_withCode ls₁ hid hcell)
  replace h₁ : p₁.Of ((s.withCode id ls₁).withCode id ls₂) i item1 :=
    (h₁.withCode hid).withCode hid
  have hlength : s.tokenList.length = ((s.withCode id ls₁).withCode id ls₂).tokenList.length := rfl
  rw [hlength] at hcell
  unfold delayedCodeGen
  dsimp only
  refine Yields.step pure_run (Yields.step (by rfl : deref (some item1) s = .ok item1 s) ?_)
  refine Yields.step htake₁ (Yields.step htake₂ ?_)
  generalize (s.withCode id ls₁).withCode id ls₂ = s₀ at h₁ hcell
  cases p₁ with
  | register =>
    have hm₁ : item1.mode = 3 := h₁
    simp only [hm₁, hm, Nat.reduceEqDiff, and_false, false_and, and_self, if_true, if_false]
    exact Yields.step (tokenCount_eq _)
      (Yields.bind (Q := fun _ _ => False) (putIdentifiers2Reg_none hcell hfail) fun _ _ h => h.elim)
  | immediate val =>
    have hm₁ := h₁.1
    simp only [hm₁, hm, Nat.reduceEqDiff, and_false, false_and, and_self, if_true, if_false]
    exact Yields.step (tokenCount_eq _)
      (Yields.bind (Q := fun _ _ => False) (putIdentifiers2Reg_none hcell hfail) fun _ _ h => h.elim)
  | memory c =>
    have hm₁ := h₁.1
    simp only [hm₁, hm, Nat.reduceEqDiff, and_false, false_and, and_self, if_true, if_false]
    refine Yields.step (putIdentifiers2Reg_withCode h₁) ?_
    refine Yields.bind (requireInt_yields fun _ => hfail) ?_
    rintro _ _ rfl
    have hcell' := @getIdentifersCell_withCode _ _ (·.loadWordType c) _ [] (fun _ => rfl) hcell
    exact Yields.step (tokenCount_eq _)
      (Yields.bind (Q := fun _ _ => False) (putIdentifiers2Reg_none hcell' hfail) fun _ _ h => h.elim)

end Brackets

/-! ## operations -/

theorem shows_of {p : Place} (h : p.Of s i item) : Shows item p := by
  cases p with
  | memory cell => exact h.1
  | immediate val => exact h
  | register => exact h

theorem Shows.modes {p : Place} (h : Shows item p) :
    item.mode = 1 ∨ item.mode = 2 ∨ item.mode = 3 := by
  cases p with
  | memory cell => exact Or.inl h
  | immediate val => exact Or.inr (Or.inl h.1)
  | register => exact Or.inr (Or.inr h)

/-- The code of an operation stands behind that of its operands. -/
theorem code_operation {g₀ g₁ g₂ : CodeGenerator}
    (h₁ : g₁ = { g₀.emit (l.code cells g₀.topReg) with
      topReg := g₀.topReg + (l.place cells).registers })
    (h₂ : g₂ = { g₁.emit (r.code cells g₁.topReg) with
      topReg := g₁.topReg + (r.place cells).registers }) :
    writtenCode kind (l.place cells) (r.place cells) g₂ =
      { g₀.emit ((Handed.operation kind l r).code cells g₀.topReg) with
        topReg := g₀.topReg + ((Handed.operation kind l r).place cells).registers } := by
  have htop : g₀.topReg + (l.place cells).registers + (r.place cells).registers +
      (resultPlace kind (l.place cells) (r.place cells)).registers - (l.place cells).registers -
      (r.place cells).registers =
      g₀.topReg + (resultPlace kind (l.place cells) (r.place cells)).registers := by omega
  subst h₂ h₁
  simp [writtenCode, Handed.place_operation, Handed.code, CodeGenerator.emit, htop, Nat.add_assoc]

/-- The token list behind an operation. -/
theorem tokens_operation {ts : List Ident} {pre : List Ident} {t : Ident} (hlist : ts = pre ++ [t])
    (hends : EndsWith r.last pre t) :
    ∃ t', foldedTokens kind ts (l.place cells) (r.place cells) = pre ++ [t'] ∧
      EndsWith (Handed.operation kind l r).last pre t' := by
  rcases Handed.place_cases cells r with ⟨b, hr, -, hpr⟩ | ⟨y, -, -, hpr⟩ | ⟨-, -, hpr⟩
  · rcases Handed.place_cases cells l with ⟨a, -, -, hpl⟩ | ⟨x, -, -, hpl⟩ | ⟨-, -, hpl⟩ <;>
      rw [hpl, hpr]
    · rw [Handed.last_of_constant hr] at hends
      refine ⟨{ t with value := some (.number (foldValue kind a b)) }, ?_, ?_⟩
      · subst hlist
        simp [foldedTokens, modify_middle]
      · rw [show (Handed.operation kind l r).last = r.last from rfl, Handed.last_of_constant hr]
        exact hends
    · exact ⟨t, hlist, hends⟩
    · exact ⟨t, hlist, hends⟩
  · rw [hpr]
    rcases Handed.place_cases cells l with ⟨a, -, -, hpl⟩ | ⟨x, -, -, hpl⟩ | ⟨-, -, hpl⟩ <;>
      rw [hpl] <;> exact ⟨t, hlist, hends⟩
  · rw [hpr]
    rcases Handed.place_cases cells l with ⟨a, -, -, hpl⟩ | ⟨x, -, -, hpl⟩ | ⟨-, -, hpl⟩ <;>
      rw [hpl] <;> exact ⟨t, hlist, hends⟩

/--
**An operation is compiled** behind its operands, when these are found and no constant is divided
by the constant 0.
-/
theorem operation_yields {fail : Prop} {known : String → Prop}
    (hknown : ∀ name, known name → IntVariable T cells name) (h₀ : AtExpression T s₀)
    (h₁ : Parsed cells s₀ s₁ l item1) (hul : l.Uses known) (hsl : l.Sound) (hcg : s₂.cg = s₁.cg)
    (hbehind : s₁.tokenList <+: s₂.tokenList) (hmode : s₂.condMode = s₁.condMode)
    (h₂ : Parsed cells s₂ s₃ r item2) (hur : r.Uses known) (hsr : r.Sound)
    (hi : ∀ name, l.lone = some name → i = (s₁.tokenList.length : Int) - 1)
    (hfail : ¬ (Handed.operation kind l r).Sound → fail) :
    Yields (delayedCodeGen kind i (some item1) (some item2)) s₃ fail fun result s' =>
      (∃ item, result = some item ∧ Parsed cells s₀ s' (.operation kind l r) item) ∧
        SameInput s₃ s' ∧ (Handed.operation kind l r).Sound := by
  obtain ⟨pre₁, t₁, hlist₁, hpre₁, -⟩ := h₁.tokens
  obtain ⟨pre₂, t₂, hlist₂, hpre₂, hends₂⟩ := h₂.tokens
  have htable : s₃.cg.symbolTable = T := by
    rw [h₂.cg]
    exact (congrArg _ hcg).trans (h₁.begins h₀).table
  have hbehind₃ : s₁.tokenList <+: s₃.tokenList := by
    rw [hlist₂]
    exact (hbehind.trans hpre₂).trans (List.prefix_append _ _)
  -- an operand in brackets that is a lone name has no cell, and the generator fails on it
  by_cases hd₁ : l.Direct
  case neg =>
    obtain ⟨hm, hcell⟩ := h₁.not_found hd₁ hbehind₃ hi
    exact delayedCodeGen_left_none hm hcell h₂.shows.modes (hfail fun hall => hd₁ hall.2.2.1)
  obtain ⟨hof₁, hint₁⟩ := h₁.of (hul.mono hknown) hd₁ hbehind₃ htable hi
  by_cases hd₂ : r.Direct
  case neg =>
    obtain ⟨hm, hcell⟩ := h₂.not_found hd₂ (List.prefix_refl _) fun _ _ => rfl
    exact delayedCodeGen_right_none hm hcell hof₁ (hfail fun hall => hd₂ hall.2.2.2.1)
  obtain ⟨hof₂, hint₂⟩ := h₂.of (hur.mono hknown) hd₂ (List.prefix_refl _) htable fun _ _ => rfl
  -- a constant is folded at once, so the division by 0 that counts is that of two constants
  have hdivisor : (Handed.operation kind l r).Sound ↔
      ∀ a, l.place cells = .immediate a → r.place cells = .immediate 0 → ¬ kind.Divides := by
    constructor
    · intro hall a hpl hpr
      refine hall.2.2.2.2 ?_ ?_
      · rcases Handed.place_cases cells l with ⟨b, hl, -⟩ | ⟨x, -, -, hp⟩ | ⟨-, -, hp⟩
        · rw [hl]
          rfl
        · rw [hp] at hpl
          cases hpl
        · rw [hp] at hpl
          cases hpl
      · rcases Handed.place_cases cells r with ⟨b, hr, -, hp⟩ | ⟨x, -, -, hp⟩ | ⟨-, -, hp⟩
        · rw [hp] at hpr
          injection hpr with hb
          rw [hr, hb]
        · rw [hp] at hpr
          cases hpr
        · rw [hp] at hpr
          cases hpr
    · intro hno
      refine ⟨hsl, hsr, hd₁, hd₂, fun hl hr => ?_⟩
      obtain ⟨a, ha⟩ := Option.isSome_iff_exists.mp hl
      exact hno a (Handed.place_constant ha) (Handed.place_constant hr)
  -- with both operands found the generator fails only if what is handed to it is not sound
  have hyields := @delayedCodeGen_yields kind i item1 item2 _ _ s₃ fail hof₁ hof₂ fun hno =>
    hfail fun hall => hno ⟨⟨hint₁, hint₂, h₂.type.2, hdivisor.mp hall⟩, by simp [hlist₂]⟩
  cases hyields with
  | error hrun hfails => exact Yields.error hrun hfails
  | ok hrun hwritten =>
    obtain ⟨-, hsame⟩ := (keeps_delayedCodeGen kind i item1 item2 s₃).of_eq_ok hrun
    obtain ⟨item, hitem, hexpr, htype, hplace⟩ := hwritten.item
    obtain ⟨t, htokens, hends⟩ := @tokens_operation cells l r kind _ _ _ hlist₂ hends₂
    refine Yields.ok hrun ⟨⟨item, hitem, ?_, ⟨pre₂, t, ?_, ?_, hends⟩, ?_, ?_, ?_, ?_⟩, hsame,
      hdivisor.mpr hwritten.divisor⟩
    · rw [hwritten.cg]
      exact code_operation h₁.cg (by rw [← hcg]; exact h₂.cg)
    · rw [hwritten.tokens, htokens]
    · refine (hpre₁.trans ?_).trans (hbehind.trans hpre₂)
      rw [hlist₁]
      exact List.prefix_append _ _
    · rw [hexpr, h₁.expr, h₂.expr]
      rfl
    · rw [Handed.place_operation]
      exact shows_of hplace
    · rw [htype]
      exact ⟨by decide, fun _ => rfl⟩
    · rw [hsame.2.2, h₂.condMode, hmode, h₁.condMode]

end Parsed

/-! ## values -/

/-- The variables among the tokens are known. -/
def Knows (known : String → Prop) (ls : List Lexeme) : Prop :=
  ∀ name, (.tSident, some (.text name)) ∈ ls → known name

section Knows

variable {known : String → Prop} {ls ls' : List Lexeme} {l : Lexeme}

theorem Knows.left (h : Knows known (ls ++ ls')) : Knows known ls := fun name hmem =>
  h name (List.mem_append_left _ hmem)

theorem Knows.right (h : Knows known (ls ++ ls')) : Knows known ls' := fun name hmem =>
  h name (List.mem_append_right _ hmem)

theorem Knows.tail (h : Knows known (l :: ls)) : Knows known ls := fun name hmem =>
  h name (List.mem_cons_of_mem _ hmem)

end Knows

/-- A production that started in `s₀` has read the expression `h` and leaves the tokens `rest`. -/
structure Reads (known : String → Prop) (cells : String → SymbolTableCell) (h : Handed)
    (rest : List Lexeme) (s₀ : ParserState) (r : Option Item × List FixUps) (s : ParserState) :
    Prop where
  item : ∃ item vec, r = (some item, vec) ∧ Parsed cells s₀ s h item
  ahead : s.ahead = rest
  sound : h.Sound
  uses : h.Uses known

section Productions

variable {T : SymbolTableList} {cells : String → SymbolTableCell} {known : String → Prop}
  {fail : Prop} {n fuel depth : Nat} {s : ParserState} {l : Lexeme} {more : List Lexeme}
  {vec : List FixUps}

/-- A nested expression is read as `handed`. -/
def ExpressionReads (T : SymbolTableList) (known : String → Prop)
    (cells : String → SymbolTableCell) (fail : Prop) (n : Nat) : Prop :=
  ∀ {t : Term} {s : ParserState} {l : Lexeme} {more : List Lexeme} {vec : List FixUps},
    t.lexemes.length < n → AtExpression T s → Knows known t.lexemes →
      s.ahead = t.lexemes ++ l :: more → EndsExpression l.1 → (¬ t.handed.Sound → fail) →
        Yields (expression delayedCodeGen n vec) s fail (Reads known cells t.handed (l :: more) s)

theorem identifier_run {name : String}
    (h : s.ahead = (.tSident, some (.text name)) :: l :: more) (hl : FollowsValue l.1) :
    ∃ s', identifier s = .ok () s' ∧ s'.ahead = l :: more ∧ s'.condMode = s.condMode ∧
      s'.cg = s.cg ∧ lastName s'.tokenList = name ∧ ∃ t, s'.tokenList = s.tokenList ++ [t] ∧
        t.type = .tSident ∧ t.value = some (.text name) := by
  have hshift : s.shift.ahead = l :: more := ParserState.shift_ahead h
  have hvalue := (Ident.value_of_sident (ParserState.currentToken_lexeme h)).2
  have htype := (Ident.value_of_sident (ParserState.currentToken_lexeme h)).1
  refine ⟨{ s.shift with classMember := true }, ?_, hshift, rfl, rfl, ?_, _, rfl, htype, hvalue⟩
  · unfold identifier
    rw [bind_ok (expect_run h (by decide) hl.2.2.2)]
    simp only [bind_run, modify_run, currentType_eq, ParserState.currentToken_type hshift,
      if_neg hl.1]
    rfl
  · simp [lastName, ParserState.shift, hvalue, TokenValue.asString]

theorem parseInt_yields (k : Nat) :
    Yields (parseInt (some (.number k))) s (¬ k < 2 ^ 31) fun r s' =>
      r = k ∧ s' = s ∧ k < 2 ^ 31 := by
  unfold parseInt
  by_cases hk : k < 2 ^ 31
  · simp only [if_pos ((int32_natCast k).mpr hk)]
    exact Yields.pure ⟨rfl, rfl, hk⟩
  · simp only [if_neg fun h => hk ((int32_natCast k).mp h)]
    exact Yields.throw hk

theorem intValue_yields {k : Nat} (h : s.ahead = (.tNumber, some (.number k)) :: l :: more)
    (hl : FollowsValue l.1) (hfail : ¬ k < 2 ^ 31 → fail) :
    Yields intValue s fail fun r s' =>
      r = k ∧ s' = s.shift ∧ s'.ahead = l :: more ∧ s.currentToken.type = .tNumber ∧
        k < 2 ^ 31 := by
  obtain ⟨htype, hvalue⟩ := Ident.value_of_number (ParserState.currentToken_lexeme h)
  have hlist : s.shift.tokenList = s.tokenList ++ [s.currentToken] := rfl
  unfold intValue
  refine Yields.step (expect_run h (by decide) hl.2.2.2) ?_
  refine Yields.step (tokenCount_eq _) ?_
  refine Yields.step (tokenAt_last hlist) ?_
  rw [hvalue]
  refine (parseInt_yields k).mono hfail ?_
  rintro r s' ⟨rfl, rfl, hk⟩
  exact ⟨rfl, rfl, ParserState.shift_ahead h, htype, hk⟩

/-- **A value** is read as `handed`. -/
theorem value_yields (ih : ExpressionReads T known cells fail n) {v : Value}
    (hlen : v.lexemes.length ≤ n) (hbegins : AtExpression T s) (hknows : Knows known v.lexemes)
    (h : s.ahead = v.lexemes ++ l :: more) (hl : FollowsValue l.1)
    (hfail : ¬ v.handed.Sound → fail) :
    Yields (value (expression delayedCodeGen n) fuel (depth + 1) vec) s fail
      (Reads known cells v.handed (l :: more) s) := by
  unfold value
  refine Yields.step (currentType_eq s) ?_
  cases v with
  | ident name =>
    rw [ParserState.currentToken_type h]
    -- neither a call nor an index follows, so the name stands for itself
    obtain ⟨s', hrun, hahead, hmode, hcg, hname, t, hlist, ht, hv⟩ := identifier_run h hl
    have htype := ParserState.currentToken_type hahead
    refine Yields.step hrun ?_
    refine Yields.step (get_run) ?_
    refine Yields.step (currentType_eq s') ?_
    rw [htype, if_neg hl.2.1]
    refine Yields.step (currentType_eq s') ?_
    rw [htype, if_neg hl.2.2.1, hname]
    refine Yields.pure ⟨⟨_, _, rfl, ?_, ⟨_, t, hlist, List.prefix_refl _, ht, hv,
      hbegins.noDot⟩, rfl, rfl, ⟨(by decide : (none : Option TypeDesc) ≠ some .boolType), nofun⟩,
      hmode⟩, hahead, trivial,
      hknows name List.mem_cons_self⟩
    rw [hcg]
    show s.cg = { s.cg.emit [] with topReg := s.cg.topReg + 0 }
    rw [CodeGenerator.emit_nil, add_zero]
  | number k =>
    rw [ParserState.currentToken_type h]
    refine Yields.bind (intValue_yields h hl hfail) ?_
    rintro r s' ⟨rfl, rfl, hahead, htype, hk⟩
    refine Yields.pure ⟨⟨_, _, rfl, ?_, ⟨_, s.currentToken, rfl, List.prefix_refl _, ?_, ?_⟩, rfl,
      ⟨rfl, rfl⟩, ⟨(by decide : some TypeDesc.intType ≠ some .boolType), fun _ => rfl⟩, rfl⟩, hahead, hk,
      trivial⟩
    · show s.cg = { s.cg.emit [] with topReg := s.cg.topReg + 0 }
      rw [CodeGenerator.emit_nil, add_zero]
    · rw [htype]
      decide
    · rw [htype]
      decide
  | paren t =>
    simp only [Value.lexemes, List.length_cons, List.length_append, List.length_nil] at hlen
    simp only [Value.lexemes, List.cons_append, List.append_assoc, List.nil_append] at h
    rw [ParserState.currentToken_type h]
    -- the brackets are passed and nothing is noted of them: the item is that of the inside
    obtain ⟨l', ls, hls, herr⟩ := t.lexemes_cons ((TokenID.tRparen, none) :: l :: more)
    have hdot : s.currentToken.type ≠ .tDot := by
      rw [ParserState.currentToken_type h]
      exact (by decide : TokenID.tLparen ≠ .tDot)
    rw [hls] at h
    refine Yields.step (expect_run h (by decide) herr) ?_
    have hahead := ParserState.shift_ahead h
    rw [← hls] at hahead
    refine Yields.bind (ih (by omega) (hbegins.shift hdot) hknows.tail.left hahead rparen_ends
      hfail) ?_
    rintro r s' ⟨⟨item, vec', rfl, hparsed⟩, hahead', hsound, huses⟩
    refine Yields.step (expect_run hahead' (by decide) hl.2.2.2) ?_
    have htype : s'.currentToken.type = .tRparen := ParserState.currentToken_type hahead'
    obtain ⟨pre, t', hlist, hbehind, -⟩ := hparsed.tokens
    -- the token that the item ends with is now the bracket
    refine Yields.pure ⟨⟨item, _, rfl, hparsed.cg, ⟨s'.tokenList, s'.currentToken, rfl, ?_, ?_, ?_⟩,
      hparsed.expr, hparsed.shows, hparsed.type, hparsed.condMode⟩, ParserState.shift_ahead hahead',
      hsound, huses⟩
    · rw [hlist]
      exact ((List.prefix_append _ _).trans hbehind).trans (List.prefix_append _ _)
    · rw [htype]
      decide
    · rw [htype]
      decide

/-! ## operators -/

theorem getOperation_mul (op : MulOp) {rest : List Lexeme}
    (h : s.ahead = (op.token, none) :: rest) (hrest : ∃ l ls, rest = l :: ls ∧ l.1 ≠ .tError) :
    getOperation s = .ok (some op.operation) s.shift ∧ s.shift.ahead = rest := by
  obtain ⟨l, ls, rfl, hl⟩ := hrest
  have htype := ParserState.currentToken_type h
  have hrun := expect_run h (by cases op <;> decide) hl
  refine ⟨?_, ParserState.shift_ahead h⟩
  unfold getOperation
  cases op <;>
  · simp only [MulOp.token] at htype hrun
    simp only [bind_run, currentType_eq, htype, hrun]
    rfl

theorem getOperation_add (op : AddOp) {rest : List Lexeme}
    (h : s.ahead = (op.token, none) :: rest) (hrest : ∃ l ls, rest = l :: ls ∧ l.1 ≠ .tError) :
    getOperation s = .ok (some op.operation) s.shift ∧ s.shift.ahead = rest := by
  obtain ⟨l, ls, rfl, hl⟩ := hrest
  have htype := ParserState.currentToken_type h
  have hrun := expect_run h (by cases op <;> decide) hl
  refine ⟨?_, ParserState.shift_ahead h⟩
  unfold getOperation
  cases op <;>
  · simp only [AddOp.token] at htype hrun
    simp only [bind_run, currentType_eq, htype, hrun]
    rfl

/-! ## products -/

/-- What follows a value of a product can be read on. -/
theorem head_of_rest (tail : FactorTail) (rest : TermTail) (more : List Lexeme)
    (hl : EndsExpression l.1) :
    ∃ l' ls, tail.lexemes ++ (rest.lexemes ++ l :: more) = l' :: ls ∧ FollowsValue l'.1 ∧
      (tail = .nil → isFactorOperator l'.1 = false) ∧
      (tail = .nil → rest = .nil → isTermOperator l'.1 = false) := by
  cases tail with
  | cons op v tail => exact ⟨_, _, rfl, op.token_follows, by simp, by simp⟩
  | nil =>
    cases rest with
    | nil => exact ⟨l, more, rfl, hl.1, fun _ => hl.2.1, fun _ _ => hl.2.2.1⟩
    | cons op f rest =>
      obtain ⟨v, tail⟩ := f
      exact ⟨_, _, rfl, op.token_follows, fun _ => by cases op <;> rfl, by simp⟩

/-- What is left of an expression behind a product. -/
def afterFactor (tail : FactorTail) (rest : TermTail) (v : Handed) (stop : List Lexeme) :
    Handed × List Lexeme :=
  if tail.length < 2 then (tail.handed v id, rest.lexemes ++ stop)
  else (tail.handed v rest.handedFirst, stop)

/-- The operations of a chain contain what they start with. -/
theorem sound_of_handed {finish : Handed → Handed} (hfinish : ∀ h, (finish h).Sound → h.Sound)
    (tail : FactorTail) (first : Handed) (h : (tail.handed first finish).Sound) : first.Sound := by
  match tail with
  | .nil => exact hfinish first h
  | .cons op v .nil => exact (hfinish _ h).1
  | .cons op v (.cons op' v' tail) => exact h.1.1

theorem sound_of_second (rest : TermTail) (left : Handed) (h : (rest.handedSecond left).Sound) :
    left.Sound := by
  match rest with
  | .nil => exact h
  | .cons op (.mk v tail) rest => exact h.1

theorem sound_of_first (rest : TermTail) (left : Handed) (h : (rest.handedFirst left).Sound) :
    left.Sound := by
  match rest with
  | .nil => exact h
  | .cons op (.mk v tail) rest =>
    rw [TermTail.handedFirst] at h
    split at h
    · exact (sound_of_second rest _ h).1
    · exact h.1

theorem sound_of_afterFactor {tail : FactorTail} {rest : TermTail} {v : Handed}
    {stop : List Lexeme} (h : (afterFactor tail rest v stop).1.Sound) : v.Sound := by
  unfold afterFactor at h
  split at h
  · exact sound_of_handed (fun _ h => h) tail v h
  · exact sound_of_handed (sound_of_first rest) tail v h

/-- `expression()` drops the jumps of its own list. -/
theorem freshExpression_yields (ih : ExpressionReads T known cells fail n) {t : Term}
    (hlen : t.lexemes.length < n) (hbegins : AtExpression T s) (hknows : Knows known t.lexemes)
    (h : s.ahead = t.lexemes ++ l :: more) (hl : EndsExpression l.1)
    (hfail : ¬ t.handed.Sound → fail) :
    Yields (freshExpression (expression delayedCodeGen n)) s fail fun r s' =>
      Reads known cells t.handed (l :: more) s (r, []) s' := by
  unfold freshExpression
  refine Yields.bind (ih hlen hbegins hknows h hl hfail) ?_
  rintro r s' ⟨⟨item, vec', rfl, hparsed⟩, hahead, hsound, huses⟩
  exact Yields.pure ⟨⟨item, [], rfl, hparsed⟩, hahead, hsound, huses⟩

/-- **A product** is read up to its end, or from its third value on to the end of the sum. -/
theorem factor_yields (hknown : ∀ name, known name → IntVariable T cells name)
    (ih : ExpressionReads T known cells fail n) {v : Value} {tail : FactorTail}
    {rest : TermTail} (hlen : v.lexemes.length + tail.lexemes.length + rest.lexemes.length ≤ n)
    (hbegins : AtExpression T s) (hknows : Knows known (v.lexemes ++ (tail.lexemes ++ rest.lexemes)))
    (h : s.ahead = v.lexemes ++ (tail.lexemes ++ (rest.lexemes ++ l :: more)))
    (hl : EndsExpression l.1)
    (hfail : ¬ (afterFactor tail rest v.handed (l :: more)).1.Sound → fail) :
    Yields (factor delayedCodeGen (expression delayedCodeGen n) (fuel + 1) vec) s fail
      (Reads known cells (afterFactor tail rest v.handed (l :: more)).1
        (afterFactor tail rest v.handed (l :: more)).2 s) := by
  unfold factor
  -- the first value, behind which comes an operator or the end
  obtain ⟨l₁, ls₁, heq₁, hf₁, hop₁, -⟩ := head_of_rest tail rest more hl
  rw [heq₁] at h
  refine Yields.bind (value_yields ih (by omega) hbegins hknows.left h hf₁
    fun hno => hfail fun hall => hno (sound_of_afterFactor hall)) ?_
  rintro r s₁ ⟨⟨item1, vec₁, rfl, hparsed₁⟩, hahead1, hsound₁, huses₁⟩
  dsimp only
  refine Yields.step (currentType_eq s₁) ?_
  cases tail with
  | nil =>
    rw [ParserState.currentToken_type hahead1, hop₁ rfl]
    refine Yields.pure ⟨⟨item1, _, rfl, hparsed₁⟩, ?_, hsound₁, huses₁⟩
    rw [hahead1, ← heq₁]
    rfl
  | cons op v₂ tail₂ =>
    rw [← heq₁] at hahead1
    simp only [FactorTail.lexemes, List.cons_append, List.append_assoc] at hahead1
    simp only [FactorTail.lexemes, List.length_cons, List.length_append] at hlen
    simp only [FactorTail.lexemes, List.cons_append, List.append_assoc] at hknows
    -- a second value, whose operation is generated before the next operator is looked at
    replace hknows := hknows.right.tail
    have hdot : s₁.currentToken.type ≠ .tDot := by
      rw [ParserState.currentToken_type hahead1]
      exact op.token_follows.1
    rw [ParserState.currentToken_type hahead1, if_pos (op.isFactorOperator_token)]
    obtain ⟨hget, hahead2⟩ := getOperation_mul op hahead1 (v₂.lexemes_cons _)
    obtain ⟨l₂, ls₂, heq₂, hf₂, hop₂, -⟩ := head_of_rest tail₂ rest more hl
    rw [heq₂] at hahead2
    have hfail₂ : ¬ (Handed.operation op.operation v.handed v₂.handed).Sound → fail := by
      refine fun hno => hfail fun hall => hno ?_
      cases tail₂ with
      | nil => exact hall
      | cons op' v₃ tail₃ => exact hall.1
    refine Yields.step (tokenCount_eq s₁) ?_
    refine Yields.step hget ?_
    refine Yields.step (deref_run op.operation) ?_
    refine Yields.bind (value_yields ih (by omega) ((hparsed₁.begins hbegins).shift hdot)
      hknows.left hahead2 hf₂ fun hno => hfail₂ fun hall => hno hall.2.1) ?_
    rintro r s₃ ⟨⟨item2, vec₂, rfl, hparsed₂⟩, hahead3, hsound₂, huses₂⟩
    refine Yields.bind (operation_yields hknown hbegins hparsed₁ huses₁ hsound₁ (by rfl)
      (List.prefix_append _ _) (by rfl) hparsed₂ huses₂ hsound₂ (fun _ _ => rfl) hfail₂) ?_
    rintro r s₄ ⟨⟨item, rfl, hparsed⟩, hsame, hsound⟩
    rw [← hsame.ahead, ← heq₂] at hahead3
    refine Yields.step (currentType_eq s₄) ?_
    cases tail₂ with
    | nil =>
      rw [heq₂] at hahead3
      rw [ParserState.currentToken_type hahead3, hop₂ rfl]
      refine Yields.pure ⟨⟨item, _, rfl, hparsed⟩, ?_, hsound, huses₁, huses₂⟩
      rw [hahead3, ← heq₂]
      rfl
    | cons op' v₃ tail₃ =>
      simp only [FactorTail.lexemes, List.cons_append, List.append_assoc] at hahead3
      simp only [FactorTail.lexemes, List.length_cons, List.length_append] at hlen
      simp only [FactorTail.lexemes, List.cons_append, List.append_assoc] at hknows
      have hdot' : s₄.currentToken.type ≠ .tDot := by
        rw [ParserState.currentToken_type hahead3]
        exact op'.token_follows.1
      rw [ParserState.currentToken_type hahead3, if_pos (op'.isFactorOperator_token)]
      obtain ⟨hget', hahead5⟩ := getOperation_mul op' hahead3 (v₃.lexemes_cons _)
      refine Yields.step hget' ?_
      refine Yields.step (deref_run op'.operation) ?_
      -- behind a second operator the source asks for a whole expression: all that is left is one
      have hterm : s₄.shift.ahead =
          (Term.mk (.mk v₃ tail₃) rest).lexemes ++ l :: more := by
        rw [hahead5]
        simp only [Term.lexemes, List.append_assoc]
      have hshort : (Term.mk (.mk v₃ tail₃) rest).lexemes.length < n := by
        simp only [Term.lexemes, List.length_append]
        omega
      have hknows₃ : Knows known (Term.mk (.mk v₃ tail₃) rest).lexemes := by
        rw [Term.lexemes, List.append_assoc]
        exact hknows.right.tail
      refine Yields.bind (freshExpression_yields ih hshort ((hparsed.begins hbegins).shift hdot')
        hknows₃ hterm hl fun hno => hfail fun hall => hno hall.2.1) ?_
      rintro r s₅ ⟨⟨item3, vec₃, heq, hparsed₃⟩, hahead6, hsound₃, huses₃⟩
      obtain ⟨rfl, rfl⟩ := Prod.mk.inj heq
      refine Yields.bind (operation_yields hknown hbegins hparsed ⟨huses₁, huses₂⟩ hsound
        (by rfl) (List.prefix_append _ _) (by rfl) hparsed₃ huses₃ hsound₃ nofun hfail) ?_
      rintro r s₆ ⟨⟨item', rfl, hparsed'⟩, hsame', hsound'⟩
      exact Yields.pure ⟨⟨item', _, rfl, hparsed'⟩, hsame'.ahead.trans hahead6, hsound',
        ⟨huses₁, huses₂⟩, huses₃⟩

/-! ## sums -/

/-- **A sum** is read as `handed`. -/
theorem term_yields (hknown : ∀ name, known name → IntVariable T cells name)
    (ih : ExpressionReads T known cells fail n) {t : Term}
    (hlen : t.lexemes.length ≤ n) (hbegins : AtExpression T s) (hknows : Knows known t.lexemes)
    (h : s.ahead = t.lexemes ++ l :: more) (hl : EndsExpression l.1)
    (hfail : ¬ t.handed.Sound → fail) :
    Yields (term delayedCodeGen (expression delayedCodeGen n) (fuel + 1) vec) s fail
      (Reads known cells t.handed (l :: more) s) := by
  obtain ⟨⟨v, tail⟩, rest⟩ := t
  simp only [Term.lexemes, List.append_assoc] at h hknows
  simp only [Term.lexemes, List.length_append] at hlen
  have hfail₁ : ¬ (afterFactor tail rest v.handed (l :: more)).1.Sound → fail := by
    refine fun hno => hfail fun hall => hno ?_
    unfold afterFactor
    split
    · next hshort =>
      rw [Term.handed, FactorTail.handed_short (by omega)] at hall
      exact sound_of_first rest _ hall
    · exact hall
  unfold term
  refine Yields.bind (factor_yields hknown ih (by omega) hbegins hknows h hl hfail₁) ?_
  rintro r s₁ ⟨⟨item1, vec₁, rfl, hparsed₁⟩, hahead1, hsound₁, huses₁⟩
  refine Yields.step (currentType_eq s₁) ?_
  simp only [reduceCtorEq, false_and, if_false]
  refine Yields.step (currentType_eq s₁) ?_
  unfold afterFactor at hahead1 hparsed₁ hsound₁ huses₁
  by_cases hshort : tail.length < 2
  · rw [if_pos hshort] at hahead1 hparsed₁ hsound₁ huses₁
    rw [Term.handed, FactorTail.handed_short (by omega)] at hfail ⊢
    cases rest with
    | nil =>
      rw [ParserState.currentToken_type hahead1, hl.2.2.1]
      exact Yields.pure ⟨⟨item1, _, rfl, hparsed₁⟩, hahead1, hsound₁, huses₁⟩
    | cons op f rest₂ =>
      obtain ⟨v₂, tail₂⟩ := f
      simp only [TermTail.lexemes, List.cons_append, List.append_assoc] at hahead1 hknows
      simp only [TermTail.lexemes, List.length_cons, List.length_append] at hlen
      replace hknows := hknows.right.right.tail
      have hdot : s₁.currentToken.type ≠ .tDot := by
        rw [ParserState.currentToken_type hahead1]
        exact op.token_follows.1
      rw [ParserState.currentToken_type hahead1, if_pos op.isTermOperator_token]
      obtain ⟨hget, hahead2⟩ := getOperation_add op hahead1 (v₂.lexemes_cons _)
      -- the operation of the first two products
      have hfail₂ : ¬ (Handed.operation op.operation (tail.handed v.handed id)
          (afterFactor tail₂ rest₂ v₂.handed (l :: more)).1).Sound → fail := by
        refine fun hno => hfail fun hall => hno ?_
        rw [TermTail.handedFirst] at hall
        unfold afterFactor
        split
        · next hshort₂ =>
          rw [if_pos hshort₂] at hall
          exact sound_of_second rest₂ _ hall
        · next hshort₂ =>
          rw [if_neg hshort₂] at hall
          exact hall
      refine Yields.step (tokenCount_eq s₁) ?_
      refine Yields.step hget ?_
      refine Yields.step (deref_run op.operation) ?_
      refine Yields.bind (factor_yields hknown ih (by omega)
        ((hparsed₁.begins hbegins).shift hdot) hknows
        hahead2 hl fun hno => hfail₂ fun hall => hno hall.2.1) ?_
      rintro r s₃ ⟨⟨item2, vec₂, rfl, hparsed₂⟩, hahead3, hsound₂, huses₂⟩
      refine Yields.bind (operation_yields hknown hbegins hparsed₁ huses₁ hsound₁ (by rfl)
        (List.prefix_append _ _) (by rfl) hparsed₂ huses₂ hsound₂ (fun _ _ => rfl) hfail₂) ?_
      rintro r s₄ ⟨⟨item, rfl, hparsed⟩, hsame, hsound⟩
      rw [← hsame.ahead] at hahead3
      refine Yields.step (currentType_eq s₄) ?_
      unfold afterFactor at hahead3 hparsed hsound huses₂
      rw [TermTail.handedFirst] at hfail ⊢
      by_cases hshort₂ : tail₂.length < 2
      · rw [if_pos hshort₂] at hahead3 hparsed hsound huses₂ hfail ⊢
        cases rest₂ with
        | nil =>
          rw [ParserState.currentToken_type hahead3, hl.2.2.1]
          exact Yields.pure ⟨⟨item, _, rfl, hparsed⟩, hahead3, hsound, huses₁, huses₂⟩
        | cons op₃ f₃ rest₃ =>
          obtain ⟨v₃, tail₃⟩ := f₃
          simp only [TermTail.lexemes, List.cons_append, List.append_assoc] at hahead3 hknows
          simp only [TermTail.lexemes, List.length_cons, List.length_append] at hlen
          have hdot' : s₄.currentToken.type ≠ .tDot := by
            rw [ParserState.currentToken_type hahead3]
            exact op₃.token_follows.1
          rw [ParserState.currentToken_type hahead3, if_pos op₃.isTermOperator_token]
          obtain ⟨hget', hahead5⟩ := getOperation_add op₃ hahead3 (v₃.lexemes_cons _)
          refine Yields.step hget' ?_
          refine Yields.step (deref_run op₃.operation) ?_
          have hterm : s₄.shift.ahead = (Term.mk (.mk v₃ tail₃) rest₃).lexemes ++ l :: more := by
            rw [hahead5]
            simp only [Term.lexemes, List.append_assoc]
          have hlen₃ : (Term.mk (.mk v₃ tail₃) rest₃).lexemes.length < n := by
            simp only [Term.lexemes, List.length_append]
            omega
          have hknows₃ : Knows known (Term.mk (.mk v₃ tail₃) rest₃).lexemes := by
            rw [Term.lexemes, List.append_assoc]
            exact hknows.right.right.tail
          refine Yields.bind (freshExpression_yields ih hlen₃
            ((hparsed.begins hbegins).shift hdot') hknows₃ hterm hl
            fun hno => hfail fun hall => hno hall.2.1) ?_
          rintro r s₅ ⟨⟨item3, vec₃, heq, hparsed₃⟩, hahead6, hsound₃, huses₃⟩
          obtain ⟨rfl, rfl⟩ := Prod.mk.inj heq
          refine Yields.bind (operation_yields hknown hbegins hparsed ⟨huses₁, huses₂⟩
            hsound (by rfl) (List.prefix_append _ _) (by rfl) hparsed₃ huses₃ hsound₃ nofun hfail) ?_
          rintro r s₆ ⟨⟨item', rfl, hparsed'⟩, hsame', hsound'⟩
          exact Yields.pure ⟨⟨item', _, rfl, hparsed'⟩, hsame'.ahead.trans hahead6, hsound',
            ⟨huses₁, huses₂⟩, huses₃⟩
      · rw [if_neg hshort₂] at hahead3 hparsed hsound huses₂ hfail ⊢
        rw [ParserState.currentToken_type hahead3, hl.2.2.1]
        exact Yields.pure ⟨⟨item, _, rfl, hparsed⟩, hahead3, hsound, huses₁, huses₂⟩
  · rw [if_neg hshort] at hahead1 hparsed₁ hsound₁ huses₁
    rw [ParserState.currentToken_type hahead1, hl.2.2.1]
    exact Yields.pure ⟨⟨item1, _, rfl, hparsed₁⟩, hahead1, hsound₁, huses₁⟩

/-! ## the whole expression -/

/-- A value that is the whole of a condition is tested, if it is a boolean. -/
theorem keeps_testValue (item : Item) (fixupMap : List FixUps) :
    Keeps SameInput (do
      if item.mode = 2 ∧ item.type = some .boolType then
        let pcPos ← genGet (·.boolAss true item.val)
        return (some item, ← addFixUp fixupMap pcPos)
      else if ← isBooleanIdentifier then
        let _ ← putValue2Reg ((← tokenCount) - 1)
        let pcPos ← genGet (·.boolAss false item.val)
        return (some item, ← addFixUp fixupMap pcPos)
      else
        return (some item, fixupMap)) fun r => ∃ vec, r = (some item, vec) := by
  refine Keeps.ite (fun _ => ?_) fun _ => ?_
  · refine Keeps.seq (keeps_genGet _) fun pcPos => ?_
    exact Keeps.seq (keeps_addFixUp _ _) fun vec => Keeps.pure ⟨vec, rfl⟩
  · refine Keeps.seq keeps_isBooleanIdentifier fun test => ?_
    refine Keeps.ite (fun _ => ?_) fun _ => Keeps.pure ⟨_, rfl⟩
    refine Keeps.seq keeps_tokenCount fun _ => ?_
    refine Keeps.seq (keeps_putValue2Reg _) fun _ => ?_
    refine Keeps.seq (keeps_genGet _) fun pcPos => ?_
    exact Keeps.seq (keeps_addFixUp _ _) fun vec => Keeps.pure ⟨vec, rfl⟩

/-- No expression of `int`s ends with a boolean. -/
theorem isBooleanIdentifier_parsed {s₀ : ParserState} {h : Handed} {item : Item}
    (hbegins : AtExpression T s₀) (hparsed : Parsed cells s₀ s h item)
    (huses : h.Uses known) (hknown : ∀ name, known name → IntVariable T cells name) :
    isBooleanIdentifier s = .ok false s := by
  have htable := (hparsed.begins hbegins).table
  obtain ⟨pre, t, hlist, -, hends⟩ := hparsed.tokens
  have hindex : (s.tokenList.length : Int) - 1 = pre.length := by
    rw [hlist, List.length_append]
    simp
  unfold isBooleanIdentifier
  rw [bind_ok (tokenCount_eq s), hindex]
  cases hlast : h.last with
  | none =>
    rw [hlast] at hends
    rw [bind_ok (getIdentifersCell_none hlist hends.1)]
    rfl
  | some name =>
    rw [hlast] at hends
    obtain ⟨hcell, htype⟩ := hknown name (huses.last hlast)
    rw [bind_ok (getIdentifersCell_name hlist hends.1 hends.2.1 hends.2.2), htable, hcell]
    show EStateM.Result.ok _ s = _
    rw [htype]
    rfl

theorem relation_yields (hknown : ∀ name, known name → IntVariable T cells name)
    (ih : ExpressionReads T known cells fail n) {t : Term}
    (hlen : t.lexemes.length ≤ n) (hbegins : AtExpression T s) (hknows : Knows known t.lexemes)
    (h : s.ahead = t.lexemes ++ l :: more) (hl : EndsExpression l.1)
    (hfail : ¬ t.handed.Sound → fail) :
    Yields (relation delayedCodeGen (expression delayedCodeGen n) (fuel + 1) vec) s fail
      (Reads known cells t.handed (l :: more) s) := by
  unfold relation
  refine Yields.bind (term_yields hknown ih hlen hbegins hknows h hl hfail) ?_
  rintro r s₁ ⟨⟨item, vec₁, rfl, hparsed⟩, hahead, hsound, huses⟩
  refine Yields.step (currentType_eq s₁) ?_
  rw [ParserState.currentToken_type hahead, hl.2.2.2.1]
  refine Yields.step get_run ?_
  by_cases hmode : s₁.condMode = true
  · rw [if_pos hmode, deref_some, pure_bind, if_neg fun hbool => hparsed.type.1 hbool.2]
    refine Yields.step (isBooleanIdentifier_parsed hbegins hparsed huses hknown) ?_
    exact Yields.pure ⟨⟨item, vec₁, rfl, hparsed⟩, hahead, hsound, huses⟩
  · rw [if_neg hmode]
    exact Yields.pure ⟨⟨item, vec₁, rfl, hparsed⟩, hahead, hsound, huses⟩

theorem andExpression_yields (hknown : ∀ name, known name → IntVariable T cells name)
    (ih : ExpressionReads T known cells fail n) {t : Term}
    (hlen : t.lexemes.length ≤ n) (hbegins : AtExpression T s) (hknows : Knows known t.lexemes)
    (h : s.ahead = t.lexemes ++ l :: more) (hl : EndsExpression l.1)
    (hfail : ¬ t.handed.Sound → fail) :
    Yields (andExpression delayedCodeGen (expression delayedCodeGen n) (fuel + 1) vec) s fail
      (Reads known cells t.handed (l :: more) s) := by
  unfold andExpression
  refine Yields.bind (relation_yields hknown ih hlen hbegins hknows h hl hfail) ?_
  rintro r s₁ ⟨⟨item, vec₁, rfl, hparsed⟩, hahead, hsound, huses⟩
  have hand : (s₁.currentToken.type == TokenID.tAnd) = false := by
    rw [ParserState.currentToken_type hahead]
    exact beq_false_of_ne hl.2.2.2.2.1
  refine Yields.step (whileLoop_exit hand) ?_
  exact Yields.pure ⟨⟨item, _, rfl, hparsed⟩, hahead, hsound, huses⟩

/-- **An expression** is read as `handed`. -/
theorem expression_yields (hknown : ∀ name, known name → IntVariable T cells name) (fail : Prop) :
    ∀ n, ExpressionReads T known cells fail n := by
  intro n
  induction n with
  | zero =>
    intro t s l more vec hlen
    omega
  | succ n ih =>
    intro t s l more vec hlen hbegins hknows h hl hfail
    obtain ⟨n, rfl⟩ : ∃ k, n = k + 1 := by
      obtain ⟨l', ls, hls, -⟩ := t.lexemes_cons []
      have := congrArg List.length hls
      simp only [List.append_nil, List.length_cons] at this
      exact ⟨n - 1, by omega⟩
    unfold expression expressionBody
    refine Yields.step (modify_run _) ?_
    refine Yields.bind (andExpression_yields hknown ih (by omega)
      ⟨hbegins.table, hbegins.noDot⟩ hknows h hl
      hfail) ?_
    rintro r s₁ ⟨⟨item, vec₁, rfl, hparsed⟩, hahead, hsound, huses⟩
    have hor : (s₁.currentToken.type == TokenID.tOr) = false := by
      rw [ParserState.currentToken_type hahead]
      exact beq_false_of_ne hl.2.2.2.2.2
    refine Yields.step (whileLoop_exit hor) ?_
    refine Yields.step (modify_run _) ?_
    obtain ⟨hcg, htokens, hexpr, hshows, htype, hmode⟩ := hparsed
    exact Yields.pure ⟨⟨item, _, rfl, hcg, htokens, hexpr, hshows, htype, hmode⟩, hahead, hsound,
      huses⟩

end Productions

/-! ## the grouping -/

/-- The code that was written. -/
def newCode (s s' : ParserState) : List OpCodeElement := s'.cg.opCode.drop s.cg.opCode.length

/--
The expression is compiled to its usual tree, the machine comes to the end of the code, and its
usual value is then where the parser will look for it.
-/
def GivesUsual (t : Term) (env : String → Word) (instructions : Instructions Word) (a : Nat)
    (m : State Word) (fuel : Nat) (vec : List FixUps) (s : ParserState) (rest : List Lexeme) :
    Prop :=
  ∃ item vec' s', expression delayedCodeGen fuel vec s = .ok (some item, vec') s' ∧
    s'.ahead = rest ∧ item.expr = t.usual ∧
    ∃ (p : Place) (es : List (Word × Option Word)) (m' : State Word),
      p.Of s' ((s'.tokenList.length : Int) - 1) item ∧
      Runs (MStep decode instructions) (newCode s s').length m es m' ∧
      Here instructions (a + (newCode s s').length) m' ∧
      p.Holds m' s'.cg.topReg (t.usual.value env)

section Value

variable {ι : Type} {p p' : Place} {s : ParserState} {i : Int} {item : Item} {m m' : State ι}
  {v w : Word} {reg : Int}

theorem of_unique (h : p.Of s i item) (h' : p'.Of s i item) : p = p' := by
  cases p <;> cases p' <;> simp only [Place.Of] at h h'
  case memory.memory c c' =>
    have heq := h.2.symm.trans h'.2
    injection heq with heq
    exact congrArg _ (Option.some.inj heq)
  case immediate.immediate a b => exact congrArg _ (h.2.symm.trans h'.2)
  case register.register => rfl
  all_goals omega

theorem holds_unique (h : p.Holds m reg v) (h' : p.Holds m reg w) : v = w := by
  cases p with
  | memory cell =>
    obtain ⟨base, hbase, -, hmem⟩ := h
    obtain ⟨base', hbase', -, hmem'⟩ := h'
    obtain rfl := Option.some.inj (hbase.symm.trans hbase')
    exact Option.some.inj (hmem.symm.trans hmem')
  | immediate val => exact h.2.trans h'.2.symm
  | register => exact Option.some.inj (h.symm.trans h')

theorem holds_looks (hlooks : Looks m m') (h : p.Holds m reg v) : p.Holds m' reg v := by
  cases p with
  | memory cell =>
    obtain ⟨base, hbase, haddress, hmem⟩ := h
    exact ⟨base, (hlooks.reg _).trans hbase, haddress, (hlooks.mem _).trans hmem⟩
  | immediate val => exact h
  | register => exact (hlooks.reg _).trans h

end Value

section Groups

variable {t : Term} {s : ParserState} {l : Lexeme} {more : List Lexeme} {vec : List FixUps}
  {fuel a : Nat} {cells : String → SymbolTableCell} {env : String → Word}
  {instructions : Instructions Word} {m : State Word}

/-- The expression contains the variable. -/
def Mentions (t : Term) (name : String) : Prop := (.tSident, some (.text name)) ∈ t.lexemes

theorem newCode_parsed {s' : ParserState} {h : Handed} {item : Item}
    (hparsed : Parsed cells s s' h item) : newCode s s' = h.code cells s.cg.topReg ∧
      s'.cg.topReg = s.cg.topReg + (h.place cells).registers := by
  unfold newCode
  rw [hparsed.cg]
  exact ⟨List.drop_left, rfl⟩

/-- The machine comes to the end of the code, where the value is. -/
theorem machine_run {s' : ParserState} {h : Handed} {item : Item} {known : String → Prop}
    (hparsed : Parsed cells s s' h item) (huses : h.Uses known) (hsound : h.Sound)
    (hfits : h.Fits cells s.cg.topReg) (hplace : (h.place cells).Fits) (htop : 0 ≤ s.cg.topReg)
    (hwords : WordsAt instructions a (newCode s s'))
    (hnext : Stands instructions (a + (newCode s s').length)) (hhere : Here instructions a m)
    (hzero : m.reg 0 = some 0) (hmem : Handed.HasVariables cells env known m) :
    ∃ es m', Runs (MStep decode instructions) (newCode s s').length m es m' ∧
      Here instructions (a + (newCode s s').length) m' ∧
      (h.place cells).Holds m' s'.cg.topReg (h.exchanged.value env) := by
  obtain ⟨hcode, htopReg⟩ := newCode_parsed hparsed
  rw [hcode] at hwords hnext ⊢
  have hshape := Handed.code_shape hfits htop
  have hstraight : Straight (h.code cells s.cg.topReg) := fun e he => (hshape e he).1.1.straight
  have hloaded := hwords.loaded fun e he => (hshape e he).2
  obtain ⟨m₁, hexecute, hholds⟩ := Handed.code_run huses hsound hfits htop hzero hmem
  obtain ⟨m', hruns, hhere', hlooks⟩ := straight_run hloaded hstraight hhere hexecute hnext
  refine ⟨_, m', hruns, hhere', holds_looks hlooks ?_⟩
  rw [htopReg]
  exact hholds hplace

/-- What the parser says of a value that it will look for. -/
theorem direct_of_found {s' : ParserState} {h : Handed} {item : Item} {p : Place}
    (hparsed : Parsed cells s s' h item)
    (hp : p.Of s' ((s'.tokenList.length : Int) - 1) item) : h.Direct := by
  by_contra hno
  obtain ⟨hm, hcell⟩ := hparsed.not_found hno (List.prefix_refl _) fun _ _ => rfl
  cases p with
  | memory c =>
    have heq := hcell.symm.trans hp.2
    injection heq with heq
    cases heq
  | immediate val =>
    have := hp.1
    omega
  | register =>
    have hm' : item.mode = 3 := hp
    omega

/-- Whatever run of the parser succeeds has written the code of the expression. -/
theorem newCode_run {r : Option Item × List FixUps} {s' : ParserState}
    (h : s.ahead = t.lexemes ++ l :: more) (hl : EndsExpression l.1)
    (hfuel : t.lexemes.length < fuel) (hdot : ∀ d ∈ s.tokenList.getLast?, d.type ≠ .tDot)
    (hvars : ∀ name, Mentions t name → IntVariable s.cg.symbolTable cells name)
    (hrun : expression delayedCodeGen fuel vec s = .ok r s') :
    newCode s s' = t.handed.code cells s.cg.topReg := by
  have hreads : Yields (expression delayedCodeGen fuel vec) s True
      (Reads (Mentions t) cells t.handed (l :: more) s) :=
    expression_yields hvars _ fuel hfuel ⟨rfl, hdot⟩ (fun _ hname => hname) h hl fun _ => trivial
  obtain ⟨item, vec', -, hparsed⟩ := (hreads.of_eq_ok hrun).item
  exact (newCode_parsed hparsed).1

end Groups

/-- The state in which the tokens are still to come, with nothing declared. -/
def reading (ls : List Lexeme) : ParserState :=
  let tokens := ls.map fun l => ({ type := l.1, value := l.2, lineNumber := 1 } : Ident)
  { ParserState.init "Main" [] tokens.tail 1 with currentToken := tokens.headD (.eof 1) }

theorem semicolon_ends : EndsExpression .tSemicolon :=
  ⟨⟨by decide, by decide, by decide, by decide⟩, by decide, by decide, by decide, by decide,
    by decide⟩

/-- `(x + 1) * 2 - x` -/
def doubledMinusX : Term :=
  .mk (.mk (.paren (.mk (.mk (.ident "x") .nil) (.cons .plus (.mk (.number 1) .nil) .nil)))
    (.cons .mult (.number 2) .nil)) (.cons .minus (.mk (.ident "x") .nil) .nil)

/-- `int x;` of a class. -/
def intX : SymbolTableCell := ⟨"x", .var, some .intType, 0, -1, 1, true⟩

/-- The parser in front of the expression, with `x` declared. -/
def doubledReading : ParserState :=
  { reading (doubledMinusX.lexemes ++ [(.tSemicolon, none)]) with
    cg := { CodeGenerator.init with
      symbolTable := (SymbolTableList.empty.addSym "x" .var (some .intType) 1 true).1 } }

/-- Its words, with an instruction behind. -/
def doubledWords : Instructions Word :=
  load (([] ++ (doubledMinusX.handed.code (fun _ => intX) 0 ++
    OpCodeElement.mk3 .ret 0 0 lnk :: [])).map OpCodeElement.word)

/-- The machine, with 5 in `x`. -/
def doubledState : State Word :=
  start doubledWords (fun i => if i = 0 then some 0 else none) fun a => if a = 1 then some 5 else none

/-- `8 - 1 - 1 - 1` -/
def fourTerms : Term :=
  .mk (.mk (.number 8) .nil)
    (.cons .minus (.mk (.number 1) .nil)
      (.cons .minus (.mk (.number 1) .nil) (.cons .minus (.mk (.number 1) .nil) .nil)))

end Parser

end Compiler
