import Bambinos.Compiler.Expression
import Bambinos.Compiler.Flow.Code
import Bambinos.Infra.Frame

/-!
# The code of an operation

What `delayedCodeGen` writes when both operands are parsed, by the places the operands are in.

* `Place` — a variable in memory, a constant, or a value in a register
* `operationCode` — the instructions, with the load of a result that is a constant
* `Accepts`, `OperationWritten` — when an operation is compiled, and what is there then
* `delayedCodeGen_yields` — the operation is written, unless it is not accepted
-/

namespace Compiler

open Infra Compiler.Parser

/-! ## operands -/

/-- Where the value of an operand is. -/
inductive Place where
  | memory (cell : SymbolTableCell)
  | immediate (val : Int)
  | register
deriving DecidableEq, Repr

namespace Place

/-- How many registers it takes up. -/
def registers : Place → Int
  | register => 1
  | _ => 0

/-- The place of an item; `position` is that of its last token. -/
def Of (s : ParserState) (position : Int) (item : Item) : Place → Prop
  | memory cell => item.mode = 1 ∧ getIdentifersCell position s = .ok (some cell) s
  | immediate val => item.mode = 2 ∧ item.val = val
  | register => item.mode = 3

/-- A variable is an `int`. -/
def IsInt : Place → Prop
  | memory cell => cell.type = some .intType
  | _ => True

end Place

/-- The operation divides. -/
def Operation.Divides (kind : Operation) : Prop := kind = .div ∨ kind = .mod

instance (kind : Operation) : Decidable kind.Divides := inferInstanceAs (Decidable (_ ∨ _))

/-! ## instructions -/

/-- On two registers. -/
def Operation.instruction : Operation → OpCode
  | add => .add
  | sub => .sub
  | mul => .mul
  | div => .div
  | mod => .mod

/-- On a register and a constant. -/
def Operation.immediate : Operation → OpCode
  | add => .addi
  | sub => .subi
  | mul => .muli
  | div => .divi
  | mod => .modi

/-- The load of a variable. -/
def loadCode (reg : Int) (cell : SymbolTableCell) : OpCodeElement :=
  .mk3 .ldw reg (CodeGenerator.address cell).1 (CodeGenerator.address cell).2

/-- A constant and the value of a register. -/
def constantFirst (kind : Operation) (reg val : Int) : List OpCodeElement :=
  if kind = .sub then [.mk3 .sub reg 0 reg, .mk3 .addi reg reg val]
  else [.mk3 kind.immediate reg reg val]

/-- The value of two constants. -/
def foldValue (kind : Operation) (val1 val2 : Int) : Int :=
  match kind with
  | .mul => int32 (val1 * val2)
  | .div => int32 (val1.tdiv val2)
  | .add => int32 (val1 + val2)
  | .sub => int32 (val1 - val2)
  | .mod => int32 (val1.tmod val2)

/-- The code; `top` is the register that was loaded last. -/
def operationCode (kind : Operation) (top : Int) : Place → Place → List OpCodeElement
  | .register, .register => [.mk3 kind.instruction (top - 1) (top - 1) top]
  | .immediate a, .immediate b => [.mk3 .addi (top + 1) 0 (foldValue kind a b)]
  | .memory c₁, .memory c₂ =>
    [loadCode (top + 1) c₁, loadCode (top + 2) c₂,
      .mk3 kind.instruction (top + 1) (top + 1) (top + 2)]
  | .memory c, .register | .register, .memory c =>
    [loadCode (top + 1) c, .mk3 kind.instruction top top (top + 1)]
  | .register, .immediate b => [.mk3 kind.immediate top top b]
  | .immediate a, .register => constantFirst kind top a
  | .memory c, .immediate b => [loadCode (top + 1) c, .mk3 kind.immediate (top + 1) (top + 1) b]
  | .immediate a, .memory c => loadCode (top + 1) c :: constantFirst kind (top + 1) a

/-- The register that the result is in. -/
def resultReg (top : Int) (p₁ p₂ : Place) : Int := top + 1 - p₁.registers - p₂.registers

/-- A constant is loaded. -/
def loadResult (item : Item) (g : CodeGenerator) : CodeGenerator :=
  if item.mode = 2 then g.addI item.val else g

/-- The code generator behind the operation. -/
def afterOperation (kind : Operation) (p₁ p₂ : Place) (g : CodeGenerator) : CodeGenerator :=
  { g.emit (operationCode kind g.topReg p₁ p₂) with topReg := resultReg g.topReg p₁ p₂ }

/-! ## results -/

/-- Where the result is, before a constant is loaded. -/
def resultPlace (kind : Operation) : Place → Place → Place
  | .immediate a, .immediate b => .immediate (foldValue kind a b)
  | _, _ => .register

/-- What `delayedCodeGen` writes: nothing for two constants. -/
def writtenOperation (kind : Operation) (top : Int) : Place → Place → List OpCodeElement
  | .immediate _, .immediate _ => []
  | p₁, p₂ => operationCode kind top p₁ p₂

/-- The code generator behind `delayedCodeGen`. -/
def writtenCode (kind : Operation) (p₁ p₂ : Place) (g : CodeGenerator) : CodeGenerator :=
  { g.emit (writtenOperation kind g.topReg p₁ p₂) with
    topReg := g.topReg + (resultPlace kind p₁ p₂).registers - p₁.registers - p₂.registers }

/-- The value of two constants is put into the last token. -/
def foldedTokens (kind : Operation) (tokens : List Ident) : Place → Place → List Ident
  | .immediate a, .immediate b =>
    tokens.modify (tokens.length - 1) fun t =>
      { t with value := some (.number (foldValue kind a b)) }
  | _, _ => tokens

/-- The types are right, and no constant is divided by the constant 0. -/
structure Accepts (kind : Operation) (p₁ p₂ : Place) (item2 : Item) : Prop where
  left : p₁.IsInt
  right : p₂.IsInt
  constant : item2.mode = 2 → item2.type = some .intType
  divisor : ∀ a, p₁ = .immediate a → p₂ = .immediate 0 → ¬ kind.Divides

/-- An operation was compiled. -/
structure OperationWritten (kind : Operation) (p₁ p₂ : Place) (item1 item2 : Item) (s : ParserState)
    (result : Option Item) (s' : ParserState) : Prop where
  item : ∃ item, result = some item ∧ item.expr = .operation kind item1.expr item2.expr ∧
    item.type = some .intType ∧ (resultPlace kind p₁ p₂).Of s' 0 item
  cg : s'.cg = writtenCode kind p₁ p₂ s.cg
  tokens : s'.tokenList = foldedTokens kind s.tokenList p₁ p₂
  divisor : ∀ a, p₁ = .immediate a → p₂ = .immediate 0 → ¬ kind.Divides

/-! ## the methods of the code generator -/

section Generator

variable (kind : Operation) (g : CodeGenerator) (c c' : SymbolTableCell) (a b : Int)

theorem putOperation2Reg_eq : g.putOperation2Reg kind =
    { g.emit [.mk3 kind.instruction (g.topReg - 1) (g.topReg - 1) g.topReg] with
      topReg := g.topReg - 1 } := by
  cases kind <;> rfl

theorem putImOp2Reg_eq :
    g.putImOp2Reg kind b = g.emit [.mk3 kind.immediate g.topReg g.topReg b] := by
  cases kind <;> rfl

/-- What `invertForSub` leads to. -/
theorem constantFirst_eq : (if kind = .sub then g.invertValofLastReg else g).putImOp2Reg
    (if kind = .sub then .add else kind) a = g.emit (constantFirst kind g.topReg a) := by
  by_cases h : kind = .sub
  · simp only [h, if_true, constantFirst]
    exact (g.emit_emit [.mk3 .sub g.topReg 0 g.topReg] [.mk3 .addi g.topReg g.topReg a])
  · simp only [h, if_false, constantFirst]
    exact putImOp2Reg_eq kind g a

theorem loadWordType_eq : g.loadWordType c =
    { g.emit [loadCode (g.topReg + 1) c] with topReg := g.topReg + 1 } := rfl

/-- Behind the load of a variable. -/
theorem loadWordType_emit (code : List OpCodeElement) : (g.loadWordType c).emit code =
    { g.emit (loadCode (g.topReg + 1) c :: code) with topReg := g.topReg + 1 } := by
  rw [loadWordType_eq]
  simp [CodeGenerator.emit, Nat.add_assoc, Nat.add_comm 1]

theorem registers_eq : g.putOperation2Reg kind = afterOperation kind .register .register g := by
  rw [putOperation2Reg_eq]
  simp [afterOperation, operationCode, resultReg, Place.registers]

theorem register_immediate_eq :
    g.putImOp2Reg kind b = afterOperation kind .register (.immediate b) g := by
  rw [putImOp2Reg_eq]
  simp [afterOperation, operationCode, resultReg, Place.registers, CodeGenerator.emit]

theorem register_memory_eq : (g.loadWordType c).putOperation2Reg kind =
    afterOperation kind .register (.memory c) g := by
  rw [putOperation2Reg_eq, loadWordType_emit]
  simp [afterOperation, operationCode, resultReg, Place.registers, loadWordType_eq]

/-- The operands of a register and a variable stand in the same order as those of a variable and a
register. -/
theorem memory_register_eq : (g.loadWordType c).putOperation2Reg kind =
    afterOperation kind (.memory c) .register g := by
  rw [register_memory_eq]
  simp [afterOperation, operationCode, resultReg, Place.registers]

theorem memories_eq : ((g.loadWordType c).loadWordType c').putOperation2Reg kind =
    afterOperation kind (.memory c) (.memory c') g := by
  have htop : g.topReg + 2 - 1 = g.topReg + 1 := by omega
  rw [putOperation2Reg_eq, loadWordType_emit]
  simp [afterOperation, operationCode, resultReg, Place.registers, loadWordType_eq,
    CodeGenerator.emit, Nat.add_assoc, Int.add_assoc, htop]

theorem memory_immediate_eq : (g.loadWordType c).putImOp2Reg kind b =
    afterOperation kind (.memory c) (.immediate b) g := by
  rw [putImOp2Reg_eq, loadWordType_emit]
  simp [afterOperation, operationCode, resultReg, Place.registers, loadWordType_eq]

theorem immediate_register_eq : (if kind = .sub then g.invertValofLastReg else g).putImOp2Reg
    (if kind = .sub then .add else kind) a = afterOperation kind (.immediate a) .register g := by
  rw [constantFirst_eq]
  simp [afterOperation, operationCode, resultReg, Place.registers, CodeGenerator.emit]

theorem immediate_memory_eq :
    (if kind = .sub then (g.loadWordType c).invertValofLastReg else g.loadWordType c).putImOp2Reg
      (if kind = .sub then .add else kind) a = afterOperation kind (.immediate a) (.memory c) g := by
  rw [constantFirst_eq, loadWordType_emit]
  simp [afterOperation, operationCode, resultReg, Place.registers, loadWordType_eq]

/-- Nothing is written for two constants. -/
theorem writtenCode_immediates : writtenCode kind (.immediate a) (.immediate b) g = g := by
  simp [writtenCode, writtenOperation, resultPlace, Place.registers]

theorem immediates_eq : g.addI (foldValue kind a b) =
    afterOperation kind (.immediate a) (.immediate b) g := by
  simp [afterOperation, operationCode, resultReg, Place.registers, CodeGenerator.addI,
    CodeGenerator.increaseReg, CodeGenerator.putOpCode, CodeGenerator.emit]

end Generator

/-! ## a cell is found again -/

/-- The parser with another code generator, and with ghosts. -/
def ParserState.withCode (f : CodeGenerator → CodeGenerator) (leaks : List Leak)
    (s : ParserState) : ParserState :=
  { s with cg := f s.cg, leaks := s.leaks ++ leaks }

section Commutes

variable {f : CodeGenerator → CodeGenerator} {ls : List Leak} {i : Int} {s : ParserState}

instance : Commutes (ParserState.withCode f ls) (tokenAt i) where
  run s := by
    simp only [tokenAt, bind_run, get_run, ParserState.withCode]
    cases i with
    | negSucc n => rfl
    | ofNat n => cases h : s.tokenList[n]? <;> simp [elementAt, h, mapState] <;> rfl

theorem getSymbol_commutes (hf : ∀ g, (f g).symbolTable = g.symbolTable)
    (name : Option TokenValue) : Commutes (ParserState.withCode f ls) (getSymbol name) where
  run s := by
    simp only [getSymbol, bind_run, get_run, ParserState.withCode, hf]
    rfl

/-- What is made of the symbol table, which stays. -/
theorem commutes_table {β : Type} (hf : ∀ g, (f g).symbolTable = g.symbolTable)
    (k : SymbolTableList → P β) (hk : ∀ t, Commutes (ParserState.withCode f ls) (k t)) :
    Commutes (ParserState.withCode f ls) (do k (← get).cg.symbolTable) where
  run s := by
    have h := (hk s.cg.symbolTable).run s
    simp only [bind_run, get_run]
    rw [← h, ParserState.withCode, hf]

theorem getIdentifersCell_commutes (hf : ∀ g, (f g).symbolTable = g.symbolTable) :
    Commutes (ParserState.withCode f ls) (getIdentifersCell i) := by
  have hsymbol := @getSymbol_commutes f ls hf
  unfold getIdentifersCell
  refine @commutes_bind _ _ _ _ _ _ inferInstance fun t => ?_
  refine @commutes_ite _ _ _ _ _ _ _ ?_ inferInstance
  refine @commutes_bind _ _ _ _ _ _ inferInstance fun cell => ?_
  refine @commutes_ite _ _ _ _ _ _ _ ?_ inferInstance
  refine @commutes_bind _ _ _ _ _ _ inferInstance fun dot => ?_
  refine @commutes_ite _ _ _ _ _ _ _ ?_ inferInstance
  refine @commutes_bind _ _ _ _ _ _ inferInstance fun outer => ?_
  refine @commutes_ite _ _ _ _ _ _ _ ?_ inferInstance
  exact commutes_table hf (fun table => do
    let symbols ← deref (outer.value.bind fun name => table.getMethodSymbols name.asString)
    return t.value.bind fun name => symbols.getSymbol name.asString) fun _ => inferInstance

/-- An operand stays where it is. -/
theorem Place.Of.withCode {p : Place} {item : Item} (h : p.Of s i item)
    (hf : ∀ g, (f g).symbolTable = g.symbolTable) : p.Of (s.withCode f ls) i item := by
  cases p with
  | memory cell =>
    have hcommutes := @getIdentifersCell_commutes f ls i hf
    exact ⟨h.1, hcommutes.ok h.2⟩
  | immediate val => exact h
  | register => exact h

end Commutes

/-! ## what is written -/

section Run

variable {kind : Operation} {i : Int} {item item1 item2 : Item} {p₁ p₂ : Place}
  {s : ParserState} {cell : SymbolTableCell}

theorem takeItem_withCode (item : Item) :
    ∃ ls, takeItem item s = .ok () (s.withCode id ls) := by
  unfold takeItem
  split
  · exact ⟨[.noRegister], rfl⟩
  · refine ⟨[], ?_⟩
    simp [ParserState.withCode]

theorem requireInt_yields {type : Option TypeDesc} {fail : Prop}
    (hfail : type ≠ some .intType → fail) :
    Yields (requireInt type) s fail fun _ s' => s' = s := by
  unfold requireInt
  split
  · next h => exact Yields.error rfl (hfail h)
  · exact Yields.pure rfl

/-- A variable is loaded. -/
theorem putIdentifiers2Reg_withCode (h : (Place.memory cell).Of s i item) :
    putIdentifiers2Reg i s = .ok cell.type (s.withCode (·.loadWordType cell) []) := by
  unfold putIdentifiers2Reg
  rw [bind_ok h.2, bind_ok (by rfl : deref (some cell) s = .ok cell s)]
  simp [gen, bind_run, ParserState.withCode]

theorem foldConstants_yields {val1 val2 : Int} {fail : Prop}
    (hfail : kind.Divides → val2 = 0 → fail) :
    Yields (foldConstants kind val1 val2) s fail fun v s' =>
      (v = foldValue kind val1 val2 ∧ s' = s) ∧ (kind.Divides → val2 ≠ 0) := by
  cases kind with
  | add | sub | mul => exact Yields.pure ⟨⟨rfl, rfl⟩, fun h => absurd h (by decide)⟩
  | div =>
    unfold foldConstants
    dsimp only
    split
    · next h => exact Yields.throw (hfail (Or.inl rfl) h)
    · next h => exact Yields.pure ⟨⟨rfl, rfl⟩, fun _ => h⟩
  | mod =>
    unfold foldConstants
    dsimp only
    split
    · next h => exact Yields.throw (hfail (Or.inr rfl) h)
    · next h => exact Yields.pure ⟨⟨rfl, rfl⟩, fun _ => h⟩

theorem setLastValue_yields (v : Int) {fail : Prop} (hfail : s.tokenList = [] → fail) :
    Yields (setLastValue v) s fail fun _ s' => s' = { s with
      tokenList := s.tokenList.modify (s.tokenList.length - 1) fun t =>
        { t with value := some (.number v) } } := by
  unfold setLastValue
  refine Yields.step (tokenCount_eq s) ?_
  rcases List.eq_nil_or_concat s.tokenList with hnil | ⟨ts, t, hlist⟩
  · have hindex : ∃ e s', tokenAt ((s.tokenList.length : Int) - 1) s = .error e s' := by
      rw [hnil]
      exact ⟨_, _, rfl⟩
    obtain ⟨e, s', herror⟩ := hindex
    exact Yields.error (bind_error herror) (hfail hnil)
  · rw [List.concat_eq_append] at hlist
    exact Yields.step (tokenAt_last hlist) (Yields.ok (modify_run _) rfl)

/-- The negation of a register, before a constant is added. -/
theorem invertForSub_run (kind : Operation) : ∃ s', delayedCodeGen.invertForSub kind s =
    .ok (if kind = .sub then .add else kind) s' ∧ s'.tokenList = s.tokenList ∧
      s'.cg = if kind = .sub then s.cg.invertValofLastReg else s.cg := by
  unfold delayedCodeGen.invertForSub
  by_cases h : kind = .sub
  · simp only [h, if_true]
    exact ⟨_, rfl, rfl, rfl⟩
  · simp only [h, if_false]
    exact ⟨_, rfl, rfl, rfl⟩

/--
**The code of an operation.** The modes of the operands decide what is written. Otherwise an operand
is of the wrong type, or a constant is divided by 0.
-/
theorem delayedCodeGen_yields {fail : Prop} (h₁ : p₁.Of s i item1)
    (h₂ : p₂.Of s ((s.tokenList.length : Int) - 1) item2)
    (hfail : ¬ (Accepts kind p₁ p₂ item2 ∧ s.tokenList ≠ []) → fail) :
    Yields (delayedCodeGen kind i (some item1) (some item2)) s fail
      (OperationWritten kind p₁ p₂ item1 item2 s) := by
  obtain ⟨ls₁, htake₁⟩ := @takeItem_withCode s item1
  obtain ⟨ls₂, htake₂⟩ := @takeItem_withCode (s.withCode id ls₁) item2
  have hid : ∀ g : CodeGenerator, (id g).symbolTable = g.symbolTable := fun _ => rfl
  replace h₁ : p₁.Of ((s.withCode id ls₁).withCode id ls₂) i item1 :=
    (h₁.withCode hid).withCode hid
  replace h₂ : p₂.Of ((s.withCode id ls₁).withCode id ls₂)
      ((((s.withCode id ls₁).withCode id ls₂).tokenList.length : Int) - 1) item2 :=
    (h₂.withCode hid).withCode hid
  have hcg : ((s.withCode id ls₁).withCode id ls₂).cg = s.cg := rfl
  have htokens : ((s.withCode id ls₁).withCode id ls₂).tokenList = s.tokenList := rfl
  have hint₁ : ¬ p₁.IsInt → fail := fun h => hfail fun hall => h hall.1.left
  have hint₂ : ¬ p₂.IsInt → fail := fun h => hfail fun hall => h hall.1.right
  unfold delayedCodeGen
  dsimp only
  refine Yields.step pure_run (Yields.step (by rfl : deref (some item1) s = .ok item1 s) ?_)
  refine Yields.step htake₁ (Yields.step htake₂ ?_)
  -- the ghosts are part of the state from here on
  suffices h : Yields _ _ fail
      (OperationWritten kind p₁ p₂ item1 item2 ((s.withCode id ls₁).withCode id ls₂)) from
    h.mono id fun _ _ h => ⟨h.item, h.cg, h.tokens, h.divisor⟩
  rw [← htokens] at hfail
  generalize (s.withCode id ls₁).withCode id ls₂ = s₀ at h₁ h₂ hfail
  cases p₁ with
  | register =>
    have hm₁ : item1.mode = 3 := h₁
    cases p₂ with
    | register =>
      have hm₂ : item2.mode = 3 := h₂
      simp only [hm₁, hm₂, and_self, if_true]
      exact Yields.step (modify_run _)
        (Yields.pure ⟨⟨_, rfl, rfl, rfl, rfl⟩, registers_eq .., rfl, nofun⟩)
    | immediate val =>
      obtain ⟨hm₂, rfl⟩ := h₂
      simp only [hm₁, hm₂, Nat.reduceEqDiff, and_false, false_and, and_self, if_true, if_false]
      exact Yields.step (modify_run _)
        (Yields.pure ⟨⟨_, rfl, rfl, rfl, rfl⟩, register_immediate_eq .., rfl, nofun⟩)
    | memory c =>
      have hm₂ := h₂.1
      simp only [hm₁, hm₂, Nat.reduceEqDiff, and_false, false_and, and_self, if_true, if_false]
      refine Yields.step (tokenCount_eq _) (Yields.step (putIdentifiers2Reg_withCode h₂) ?_)
      exact Yields.step (modify_run _)
        (Yields.pure ⟨⟨_, rfl, rfl, rfl, rfl⟩, register_memory_eq .., rfl, nofun⟩)
  | immediate val =>
    obtain ⟨hm₁, rfl⟩ := h₁
    cases p₂ with
    | register =>
      have hm₂ : item2.mode = 3 := h₂
      simp only [hm₁, hm₂, Nat.reduceEqDiff, and_false, false_and, and_self, if_true, if_false]
      obtain ⟨s₁, hinvert, htokens₁, hcg₁⟩ := @invertForSub_run s₀ kind
      refine Yields.step hinvert (Yields.step (modify_run _)
        (Yields.pure ⟨⟨_, rfl, rfl, rfl, rfl⟩, ?_, htokens₁, nofun⟩))
      show s₁.cg.putImOp2Reg _ _ = _
      rw [hcg₁]
      exact immediate_register_eq ..
    | immediate val =>
      obtain ⟨hm₂, rfl⟩ := h₂
      simp only [hm₁, hm₂, Nat.reduceEqDiff, and_false, false_and, and_self, if_true, if_false]
      split
      · next htype => exact Yields.error rfl (hfail fun hall => htype (hall.1.constant hm₂))
      · refine Yields.bind (foldConstants_yields fun hdivides hzero => hfail fun hall =>
          hall.1.divisor _ rfl (congrArg Place.immediate hzero) hdivides) ?_
        rintro _ s₁ ⟨⟨rfl, rfl⟩, hdivisor⟩
        refine Yields.bind (setLastValue_yields _ fun hnil => hfail fun hall => hall.2 hnil) ?_
        rintro _ s₂ rfl
        refine Yields.pure ⟨⟨_, rfl, rfl, rfl, rfl, rfl⟩, (writtenCode_immediates ..).symm, rfl, ?_⟩
        rintro a - hzero hdivides
        injection hzero with hzero
        exact hdivisor hdivides hzero
    | memory c =>
      have hm₂ := h₂.1
      simp only [hm₁, hm₂, Nat.reduceEqDiff, and_false, false_and, and_self, if_true, if_false]
      refine Yields.step (tokenCount_eq _) (Yields.step (putIdentifiers2Reg_withCode h₂) ?_)
      refine Yields.bind (requireInt_yields hint₂) ?_
      rintro _ _ rfl
      obtain ⟨s₁, hinvert, htokens₁, hcg₁⟩ :=
        @invertForSub_run (s₀.withCode (·.loadWordType c) []) kind
      refine Yields.step hinvert (Yields.step (modify_run _)
        (Yields.pure ⟨⟨_, rfl, rfl, rfl, rfl⟩, ?_, htokens₁, nofun⟩))
      show s₁.cg.putImOp2Reg _ _ = _
      rw [hcg₁]
      exact immediate_memory_eq ..
  | memory c =>
    have hm₁ := h₁.1
    cases p₂ with
    | register =>
      have hm₂ : item2.mode = 3 := h₂
      simp only [hm₁, hm₂, Nat.reduceEqDiff, and_false, false_and, and_self, if_true, if_false]
      refine Yields.step (putIdentifiers2Reg_withCode h₁) ?_
      refine Yields.bind (requireInt_yields hint₁) ?_
      rintro _ _ rfl
      exact Yields.step (modify_run _)
        (Yields.pure ⟨⟨_, rfl, rfl, rfl, rfl⟩, memory_register_eq .., rfl, nofun⟩)
    | immediate val =>
      obtain ⟨hm₂, rfl⟩ := h₂
      simp only [hm₁, hm₂, Nat.reduceEqDiff, and_false, false_and, and_self, if_true, if_false]
      refine Yields.step (putIdentifiers2Reg_withCode h₁) ?_
      refine Yields.bind (requireInt_yields hint₁) ?_
      rintro _ _ rfl
      exact Yields.step (modify_run _)
        (Yields.pure ⟨⟨_, rfl, rfl, rfl, rfl⟩, memory_immediate_eq .., rfl, nofun⟩)
    | memory c' =>
      have hm₂ := h₂.1
      simp only [hm₁, hm₂, Nat.reduceEqDiff, and_false, false_and, and_self, if_true, if_false]
      refine Yields.step (putIdentifiers2Reg_withCode h₁) ?_
      refine Yields.bind (requireInt_yields hint₁) ?_
      rintro _ _ rfl
      -- the second cell is looked up behind the first load
      have h₂' := @Place.Of.withCode (·.loadWordType c) [] _ _ _ _ h₂ fun _ => rfl
      refine Yields.step (tokenCount_eq _) (Yields.step (putIdentifiers2Reg_withCode h₂') ?_)
      refine Yields.bind (requireInt_yields hint₂) ?_
      rintro _ _ rfl
      exact Yields.step (modify_run _)
        (Yields.pure ⟨⟨_, rfl, rfl, rfl, rfl⟩, memories_eq .., rfl, nofun⟩)

/-- With the load of a constant, the whole operation is there. -/
theorem OperationWritten.loadResult {result : Option Item} {s' : ParserState}
    (h : OperationWritten kind p₁ p₂ item1 item2 s result s') : ∃ item, result = some item ∧
      loadResult item s'.cg = afterOperation kind p₁ p₂ s.cg := by
  obtain ⟨item, rfl, -, -, hplace⟩ := h.item
  refine ⟨item, rfl, ?_⟩
  have hregister : item.mode = 3 → Compiler.loadResult item s'.cg = s'.cg := fun hm =>
    if_neg (by omega)
  rw [h.cg] at hregister ⊢
  cases p₁ with
  | immediate a =>
    cases p₂ with
    | immediate b =>
      obtain ⟨hm, hval⟩ := hplace
      rw [Compiler.loadResult, if_pos hm, hval, writtenCode_immediates]
      exact immediates_eq ..
    | register | memory => exact hregister hplace
  | register | memory => cases p₂ <;> exact hregister hplace

end Run

end Compiler
