import Bambinos.Compiler.ExpressionGrowth
import Bambinos.Compiler.EnoughFuel

/-!
# What the statements add to the code

The body of a method is appended behind its prologue. A condition fixes its own jumps only: when it
begins, those of the condition around it are put aside. Variables are declared in the method.

* `Stable` — what is known of the symbol table is not changed by declaring a variable
* `grows_whileStatement`, `grows_ifStatement` — one level deeper and back again
* `grows_bodyBlock` — the body of a method, by induction on the fuel
-/

namespace Compiler.Parser

open Infra

/-- Declaring a variable keeps what is known of the symbol table. -/
def Stable (T : SymbolTableList → Prop) : Prop :=
  ∀ (t : SymbolTableList) (name : String) (classType : ClassType) (type : Option TypeDesc)
    (size : Int), classType ≠ .method → T t → T (t.addSym name classType type size true).1

variable {inside : Bool} {T : SymbolTableList → Prop} {g₀ : CodeGenerator} {k : Option Nat} {fuel : Nat}
  {α : Type} {q : α → Prop} {I E E' : ParserState → Prop}
  {Q : α → ParserState → Prop}

/-- What is thrown inside is dealt with by the handler. -/
theorem guards_catchIllegal {x : P α} {handler : String → P α} (hx : Guards I x Q E)
    (hhandler : ∀ message, Guards E (handler message) Q E') :
    Guards I (catchIllegal x handler) Q E' where
  ok {s a s'} hI hrun := by
    cases hbody : x s with
    | ok b s₁ =>
      rw [catchIllegal_ok hbody] at hrun
      cases hrun
      exact hx.ok hI hbody
    | error thrown s₁ =>
      by_cases hcaught : thrown.Caught
      · obtain ⟨message, rfl⟩ := hcaught
        rw [catchIllegal_caught hbody] at hrun
        exact (hhandler message).ok (hx.caught hI hbody ⟨message, rfl⟩) hrun
      · rw [catchIllegal_other hbody hcaught] at hrun
        cases hrun
  caught {s x' s'} hI hrun hx' := by
    cases hbody : x s with
    | ok b s₁ =>
      rw [catchIllegal_ok hbody] at hrun
      cases hrun
    | error thrown s₁ =>
      by_cases hcaught : thrown.Caught
      · obtain ⟨message, rfl⟩ := hcaught
        rw [catchIllegal_caught hbody] at hrun
        exact (hhandler message).caught (hx.caught hI hbody ⟨message, rfl⟩) hrun hx'
      · rw [catchIllegal_other hbody hcaught] at hrun
        cases hrun
        exact absurd hx' hcaught

/-! ## types and values -/

theorem grows_newExpression : Grows inside T g₀ k (newExpression fuel) fun _ => True :=
  grows_freshExpression (parses_expression fuel)

/-- A type is one token. -/
theorem grows_typeToken {type : Option TypeDesc} (id : TokenID) :
    Grows inside T g₀ k (do expect id; return type) fun _ => True :=
  (grows_expect id).seq fun _ => Guards.keep trivial

theorem grows_primitive : Grows inside T g₀ k primitive fun _ => True := by
  unfold primitive
  refine grows_currentType.seq fun t => ?_
  split
  · exact grows_typeToken _
  · exact grows_typeToken _
  · exact grows_typeToken _
  · exact grows_line.seq fun _ => grows_syntaxError _

theorem grows_primitiveArray : Grows inside T g₀ k primitiveArray fun _ => True := by
  unfold primitiveArray
  refine grows_currentType.seq fun t => ?_
  split
  · exact grows_typeToken _
  · exact grows_typeToken _
  · exact grows_typeToken _
  · exact grows_line.seq fun _ => grows_syntaxError _

theorem grows_dataType : Grows inside T g₀ k dataType fun _ => True := by
  unfold dataType
  refine grows_currentType.seq fun t => Guards.ite (fun _ => grows_primitive) fun _ =>
    Guards.ite (fun _ => grows_primitiveArray) fun _ => Guards.ite (fun _ => grows_typeToken _) fun _ =>
      Guards.ite (fun _ => grows_typeToken _) fun _ =>
        Guards.ite (fun _ => grows_typeToken _) fun _ => ?_
  exact grows_line.seq fun _ => grows_syntaxError _

theorem grows_dataTypeDescriptor : Grows inside T g₀ k (dataTypeDescriptor fuel) fun _ => True := by
  unfold dataTypeDescriptor
  refine grows_dataType.seq fun type => grows_identifier.seq fun _ => grows_currentType.seq fun _ => ?_
  refine Guards.ite (fun _ => ?_) fun _ => Guards.keep trivial
  exact (grows_arraySelector (parses_expression fuel)).seq fun _ => (grows_dropItem _).seq fun _ =>
    Guards.keep trivial

theorem grows_lastOperand : ∀ (l : List Ident) (i : Int),
    Grows inside T g₀ k (lastOperand l i) fun _ => True
  | [], _ => Guards.throw nofun
  | t :: rest, i => by
    unfold lastOperand
    refine Guards.ite (fun _ => ?_) fun _ => Guards.keep trivial
    cases rest with
    | nil => exact Guards.throw nofun
    | cons next rest =>
      exact Guards.optional (grows_report _) (grows_lastOperand (next :: rest) (i + 1))

theorem grows_assignmentSuffix : Grows inside T g₀ k (assignmentSuffix fuel) fun _ => True := by
  unfold assignmentSuffix
  refine (grows_expect _).seq fun _ => grows_newExpression.seq fun item =>
    (grows_deref _).seq fun _ => ?_
  have hlast : ∀ item : Item, Grows inside T g₀ k (do takeItem item; return item) fun _ => True :=
    fun item => (grows_takeItem item).seq fun _ => Guards.keep trivial
  refine Guards.ite (fun _ => grows_get.seq fun _ => ?_) fun _ => hlast _
  exact (grows_lastOperand _ _).seq fun _ => grows_tokenCount.seq fun _ =>
    (grows_putValue2Reg _).seq fun _ => hlast _

theorem grows_assignedType (item : Item) : Grows inside T g₀ k (assignedType item) fun _ => True := by
  unfold assignedType
  refine Guards.ite (fun _ => ?_) fun _ => Guards.keep trivial
  exact grows_tokenCount.seq fun _ => (grows_tokenAt _).seq fun _ => (grows_getSymbol _).seq fun _ =>
    (grows_deref _).seq fun _ => Guards.keep trivial

theorem grows_objectDeclarationSuffix :
    Grows inside T g₀ k (objectDeclarationSuffix fuel) fun _ => True := by
  unfold objectDeclarationSuffix
  refine grows_identifier.seq fun _ => (grows_expectWeak _).seq fun _ =>
    (grows_expectWeak _).seq fun _ => ?_
  refine grows_currentType.seq fun _ => Guards.ite (fun _ => ?object) fun _ => ?other
  case object =>
    refine (grows_expect _).seq fun _ => grows_currentType.seq fun _ =>
      Guards.ite (fun _ => ?_) fun _ => ?_
    · refine (grows_expect _).seq fun _ => grows_currentType.seq fun _ => Guards.ite (fun _ => ?_)
        fun _ => grows_expect _
      exact grows_newExpression.seq fun _ => (grows_dropItem _).seq fun _ => grows_expect _
    · exact (grows_expect _).seq fun _ => (grows_expect _).seq fun _ => grows_expectWeak _
  case other =>
    refine grows_currentType.seq fun _ => Guards.ite (fun _ => ?_) fun _ => ?_
    · exact grows_primitive.seq fun _ => (grows_expectWeak _).seq fun _ =>
        (grows_expectWeak _).seq fun _ => grows_expectWeak _
    · exact grows_currentType.seq fun _ => grows_line.seq fun _ => grows_syntaxError _

/-! ## assignments and declarations -/

theorem writes_storeWord (cell : SymbolTableCell) : Writes true g₀ (·.storeWord cell) :=
  fun _ h => ⟨(h.putOpCode nofun).reg _, rfl⟩

theorem writes_storeWordArray (globalScope : Bool) : Writes true g₀ (·.storeWordArray globalScope) := by
  intro g h
  unfold CodeGenerator.storeWordArray
  have hadd : Extended true g₀ (g.putOpCode (.mk3 .add (g.getCurrentReg - 1)
      (if globalScope then heap else fp) (g.getCurrentReg - 1))) := h.putOpCode nofun
  exact ⟨((hadd.putOpCode nofun).reg _).reg _, rfl⟩

theorem grows_arrayDeclarationSuffix :
    Grows true T g₀ k (arrayDeclarationSuffix fuel) fun _ => True := by
  unfold arrayDeclarationSuffix
  have hrest : ∀ (type : Nat) (itemArray : Option Item), Grows true T g₀ k
      (do
        if (← currentType) = .tSident then
          dropItem itemArray
          objectDeclarationSuffix fuel
        else if (← currentType) = .tEql then
          let item ← assignmentSuffix fuel
          let itemType ← assignedType item
          if type = 0 then
            let cell ← deref (← getSymbol (← tokenAt 0).value)
            if cell.type ≠ itemType then
              syntaxError ("Invalid type assignment in line: " ++ (← line))
            gen (·.storeWord cell)
          else
            let element ← deref itemArray
            if element.type = itemType then
              gen (·.storeWordArray element.globalScope)
            else
              syntaxError ("Not Type Safe, in array, in line: " ++ (← line))
        else
          dropItem itemArray) fun _ => True := by
    intro type itemArray
    refine grows_currentType.seq fun _ => Guards.ite (fun _ => (grows_dropItem _).seq fun _ =>
      grows_objectDeclarationSuffix) fun _ => grows_currentType.seq fun _ => Guards.ite (fun _ => ?_)
        fun _ => grows_dropItem _
    refine grows_assignmentSuffix.seq fun item => (grows_assignedType _).seq fun itemType => ?_
    refine Guards.ite (fun _ => ?_) fun _ => ?_
    · refine (grows_tokenAt _).seq fun _ => (grows_getSymbol _).seq fun _ =>
        (grows_deref _).seq fun _ => ?_
      exact grows_guard _ (grows_gen (writes_storeWord _))
    · refine (grows_deref _).seq fun _ =>
        Guards.ite (fun _ => grows_gen (writes_storeWordArray _)) fun _ => ?_
      exact grows_line.seq fun _ => grows_syntaxError _
  refine grows_currentType.seq fun _ => Guards.ite (fun _ => ?_) fun _ => hrest _ _
  exact (grows_arraySelector (parses_expression fuel)).seq fun _ => hrest _ _

theorem grows_objectDeclarationAssignmentMethodCall :
    Grows true T g₀ k (objectDeclarationAssignmentMethodCall fuel) fun _ => True := by
  unfold objectDeclarationAssignmentMethodCall
  refine (grows_frame (by exact fun _ => rfl)).seq fun _ => grows_identifier.seq fun _ => ?_
  have hrest : Grows true T g₀ k
      (do
        if (← currentType) = .tLparen then
          let _ ← methodCallSuffix (expression delayedCodeGen fuel) fuel
        expectWeak .tSemicolon) fun _ => True :=
    grows_currentType.seq fun _ => Guards.ite
      (fun _ => (grows_methodCallSuffix (parses_expression fuel) fuel).seq fun _ => grows_expectWeak _)
      fun _ => grows_expectWeak _
  exact grows_currentType.seq fun _ => grows_currentType.seq fun _ => grows_currentType.seq fun _ =>
    Guards.ite (fun _ => grows_arrayDeclarationSuffix.seq fun _ => grows_expectWeak _) fun _ => hrest

/-- The parser with another symbol table. -/
def withTable (s : ParserState) (t : SymbolTableList) : ParserState :=
  { s with cg := { s.cg with symbolTable := t } }

/-- What a declaration does; a duplicate stops the code generation. -/
theorem add2SymTable_run (name : String) (classType : ClassType) (type : TypeDesc) (arraySize : Int)
    (s : ParserState) {t : SymbolTableList} {found : Bool}
    (h : s.cg.symbolTable.addSym name classType (some type) (int32 (type.getSize * arraySize)) true =
      (t, found)) :
    add2SymTable name classType (some type) arraySize s =
      if found then
        .ok () { withTable s t with
          setCodeGeneration := false
          reports := s.reports ++ [.stackTrace ("Multiple declaration of field: " ++ name)] }
      else .ok () (withTable s t) := by
  unfold add2SymTable
  rw [deref_some, bind_ok pure_run, bind_ok get_run]
  dsimp only
  rw [h, bind_ok set_run]
  cases found
  · rfl
  · rfl

theorem grows_add2SymTable (hT : Stable T) (name : String) {classType : ClassType}
    (hclass : classType ≠ .method) (type : Option TypeDesc) (arraySize : Int) :
    Grows inside T g₀ k (add2SymTable name classType type arraySize) fun _ => True := by
  cases type with
  | none => exact Guards.step (@grows_deref inside g₀ T k _ none) fun _ h => by cases h
  | some type =>
    refine Guards.of_ok fun s h => ?_
    cases hadd : s.cg.symbolTable.addSym name classType (some type)
      (int32 (type.getSize * arraySize)) true with
    | mk t found =>
      have hrun := add2SymTable_run name classType type arraySize s hadd
      have htable : T t := by
        have := hT s.cg.symbolTable name classType (some type) (int32 (type.getSize * arraySize))
          hclass h.table
        rwa [hadd] at this
      have hwritten : Extended inside g₀ { s.cg with symbolTable := t } :=
        ⟨h.written.opCode, h.written.pc, h.written.methodFix, h.written.mainAddr,
          h.written.fixupTable⟩
      cases found with
      | true => exact ⟨_, _, hrun, ⟨⟨hwritten, htable, h.jumps, h.returns, h.tokens⟩, Or.inl rfl⟩,
          trivial⟩
      | false => exact ⟨_, _, hrun, ⟨⟨hwritten, htable, h.jumps, h.returns, h.tokens⟩,
          h.level.imp id fun h => ⟨h.1, h.2⟩⟩, trivial⟩

theorem grows_primitiveDeclaration (hT : Stable T) :
    Grows true T g₀ k (primitiveDeclaration fuel) fun _ => True := by
  unfold primitiveDeclaration
  have hstore : ∀ type : Option TypeDesc, Grows true T g₀ k
      (do
        let name ← tokenName 1
        add2SymTable name .var type 1
        let cell ← deref (← getSymbol (← tokenAt 1).value)
        gen (·.storeWord cell)) fun _ => True := fun type =>
    (grows_tokenName _).seq fun name => (grows_add2SymTable hT name (by decide) type 1).seq fun _ =>
      (grows_tokenAt _).seq fun _ => (grows_getSymbol _).seq fun _ => (grows_deref _).seq fun _ =>
        grows_gen (writes_storeWord _)
  refine grows_primitive.seq fun type => grows_identifier.seq fun _ => grows_currentType.seq fun _ => ?_
  refine Guards.ite (fun _ => ?_) fun _ => Guards.ite (fun _ => ?_) fun _ => ?_
  · exact grows_assignmentSuffix.seq fun item => (grows_assignedType _).seq fun itemType =>
      grows_guard _ (hstore type)
  · exact (grows_gen (Writes.addI 0)).seq fun _ => hstore type
  · exact (grows_leak _).seq fun _ => hstore type

theorem grows_primitiveArrayDeclaration (hT : Stable T) :
    Grows inside T g₀ k primitiveArrayDeclaration fun _ => True := by
  unfold primitiveArrayDeclaration
  refine grows_primitiveArray.seq fun type => grows_identifier.seq fun _ => ?_
  refine (grows_expectWeak _).seq fun _ => (grows_expectWeak _).seq fun _ =>
    grows_primitive.seq fun _ => ?_
  refine (grows_expectWeak _).seq fun _ => grows_get.seq fun _ => (grows_parseInt _).seq fun _ => ?_
  refine (grows_expect _).seq fun _ => (grows_expectWeak _).seq fun _ =>
    (grows_tokenName _).seq fun _ => ?_
  exact grows_add2SymTable hT _ (by decide) _ _

theorem grows_stringDeclaration : Grows inside T g₀ k stringDeclaration fun _ => True := by
  unfold stringDeclaration
  refine (grows_expect _).seq fun _ => grows_identifier.seq fun _ =>
    (grows_expectWeak _).seq fun _ => ?_
  refine (grows_expectWeak _).seq fun _ => (grows_expectWeak _).seq fun _ =>
    (grows_expectWeak _).seq fun _ => ?_
  exact grows_currentType.seq fun _ => Guards.optional (grows_expect _) (grows_expectWeak _)

theorem grows_stringArrayDeclaration : Grows inside T g₀ k stringArrayDeclaration fun _ => True := by
  unfold stringArrayDeclaration
  refine (grows_expect _).seq fun _ => grows_identifier.seq fun _ =>
    (grows_expectWeak _).seq fun _ => ?_
  refine (grows_expectWeak _).seq fun _ => (grows_expectWeak _).seq fun _ =>
    (grows_expectWeak _).seq fun _ => ?_
  exact (grows_expect _).seq fun _ => grows_expectWeak _

theorem grows_simpleDeclaration (hT : Stable T) :
    Grows true T g₀ k (simpleDeclaration fuel) fun _ => True := by
  unfold simpleDeclaration
  refine (grows_frame (by exact fun _ => rfl)).seq fun _ => grows_currentType.seq fun t => ?_
  refine Guards.ite (fun _ => (grows_primitiveDeclaration hT).seq fun _ => grows_expectWeak _) fun _ =>
    Guards.ite (fun _ => (grows_primitiveArrayDeclaration hT).seq fun _ => grows_expectWeak _) fun _ =>
    Guards.ite (fun _ => grows_stringDeclaration.seq fun _ => grows_expectWeak _) fun _ => ?_
  exact Guards.optional grows_stringArrayDeclaration (grows_expectWeak _)

/-! ## output and `return` -/

theorem writes_printIo (type : Option TypeDesc) : Writes inside g₀ (·.printIo type) := by
  intro g h
  unfold CodeGenerator.printIo
  split
  · exact ⟨h.putOpCode fun _ => nofun, rfl⟩
  · exact ⟨h.putOpCode fun _ => nofun, rfl⟩
  · exact ⟨h.putOpCode fun _ => nofun, rfl⟩
  · exact ⟨h, rfl⟩

theorem grows_print : Grows inside T g₀ k (print fuel) fun _ => True := by
  unfold print
  have hvalue : ∀ type : Option TypeDesc,
      Grows inside T g₀ k (print.printValue fuel type) fun _ => True := fun type =>
    (parses_value (parses_expression fuel) fuel fuel [] nofun).seq fun _ => grows_tokenCount.seq fun _ =>
      (grows_putValue2Reg _).seq fun _ => (grows_gen (writes_printIo type)).seq fun _ => grows_leak _
  have hend : Grows inside T g₀ k (do expectWeak .tRparen; expectWeak .tSemicolon) fun _ => True :=
    (grows_expectWeak _).seq fun _ => grows_expectWeak _
  refine (grows_frame (by exact fun _ => rfl)).seq fun _ => (grows_expect _).seq fun _ => ?_
  refine (grows_expectWeak _).seq fun _ => grows_currentType.seq fun t => ?_
  split
  · refine grows_identifier.seq fun _ => grows_tokenCount.seq fun _ => ?_
    refine (grows_getIdentifersCell _).seq fun cell => grows_tokenCount.seq fun _ => ?_
    refine (grows_putValue2Reg _).seq fun _ => (grows_deref _).seq fun _ => ?_
    exact (grows_gen (writes_printIo _)).seq fun _ => (grows_leak _).seq fun _ => hend
  · exact (hvalue _).seq fun _ => hend
  · exact (hvalue _).seq fun _ => hend
  · exact (hvalue _).seq fun _ => hend
  · exact (hvalue _).seq fun _ => hend
  · exact (grows_expect _).seq fun _ => hend
  · exact grows_line.seq fun _ => (grows_report _).seq fun _ => hend

/-- The position of an instruction that is put. -/
theorem grows_position {f : CodeGenerator → Nat × CodeGenerator}
    (hf : Writes inside g₀ fun g => (f g).2) (hpos : ∀ g, (f g).1 = g.pc + 1 - 2) :
    Grows inside T g₀ k (genGet f) fun pos => g₀.opCode.length ≤ pos := by
  refine grows_genGet hf fun g h => ?_
  have hle := h.length_le
  have hpc := h.pc
  rw [hpos g]
  omega

theorem grows_returnStatement : Grows true T g₀ k (returnStatement fuel) fun _ => True := by
  unfold returnStatement
  refine (grows_expect _).seq fun _ => grows_newExpression.seq fun item =>
    (grows_deref _).seq fun _ => ?_
  refine grows_loadLast ((grows_takeItem _).seq fun _ => (grows_leak _).seq fun _ => ?_)
  refine (grows_expectWeak _).seq fun _ => ?_
  refine (grows_position (Writes.methodCall _) fun _ => rfl).step fun pos hpos => ?_
  refine Guards.modify fun s h => ⟨⟨⟨h.written, h.table, h.jumps, fun i hi => ?_, h.tokens⟩,
    h.level.imp id fun h => ⟨h.1, h.2⟩⟩, trivial⟩
  rcases List.mem_append.mp hi with hmem | hmem
  · exact h.returns i hmem
  · rw [List.mem_singleton.mp hmem]
    exact ⟨rfl, hpos⟩

/-! ## conditions and loops -/

/-- One condition deeper. -/
theorem guards_pushCondFixup : Guards (Growing inside T g₀ k) pushCondFixup
    (fun _ => Growing inside T g₀ (k.map (· + 1))) E := by
  refine Guards.modify fun s h => ⟨⟨h.written, h.table, ?_, h.returns, h.tokens⟩,
    h.level.imp id fun hlevel => ⟨by rw [hlevel.depth]; rfl, hlevel.outer⟩⟩
  intro l hl js hjs i hi
  rcases List.mem_cons.mp hl with rfl | hl
  · cases hjs
    cases hi
  · exact h.jumps l hl js hjs i hi

/-- One condition less deep. -/
theorem guards_popCondFixup : Guards (Growing inside T g₀ (k.map (· + 1))) popCondFixup
    (fun _ s => Growing inside T g₀ k s ∧ True) E where
  ok {s a s'} h hrun := by
    unfold popCondFixup at hrun
    rw [bind_ok get_run] at hrun
    cases hstack : s.condFixStack with
    | nil =>
      rw [hstack] at hrun
      cases hrun
    | cons top rest =>
      rw [hstack] at hrun
      cases hrun
      obtain ⟨⟨hwritten, htable, hjumps, hreturns, htokens⟩, hlevel⟩ := h
      rw [hstack] at hjumps
      refine ⟨⟨⟨hwritten, htable, fun l hl => hjumps l (List.mem_cons_of_mem _ hl), hreturns,
        htokens⟩, hlevel.imp id fun hlevel => ?_⟩, trivial⟩
      have hdepth := hlevel.depth
      have houter := hlevel.outer
      rw [hstack] at hdepth houter
      obtain ⟨j, rfl, hj⟩ := Option.map_eq_some_iff.mp hdepth
      exact ⟨congrArg some (Nat.succ.inj hj), by rwa [List.getLast?_cons_cons] at houter⟩
  caught {s x s'} _ hrun hx := by
    obtain ⟨message, rfl⟩ := hx
    unfold popCondFixup at hrun
    rw [bind_ok get_run] at hrun
    cases hstack : s.condFixStack with
    | nil =>
      rw [hstack] at hrun
      cases hrun
    | cons top rest =>
      rw [hstack] at hrun
      cases hrun

theorem grows_condition : Grows inside T g₀ k (condition fuel) fun _ => True :=
  (grows_frame (by exact fun _ => rfl)).seq fun _ => grows_newExpression.seq fun _ =>
    (grows_dropItem _).seq fun _ => grows_frame (by exact fun _ => rfl)

theorem grows_codePC : Grows inside T g₀ k codePC fun _ => True :=
  grows_get.seq fun _ => Guards.keep trivial

theorem writes_fixConditionJump {pos : Nat} (hpos : g₀.opCode.length ≤ pos) (falseJump trueJump : Int) :
    Writes inside g₀ (·.fixConditionJump pos falseJump trueJump) := by
  refine fun g h => ⟨h.modify hpos fun e he => ?_, rfl⟩
  unfold CodeGenerator.fixJump
  split
  · exact he
  · split
    · exact he
    · exact he

/-- The jumps of the innermost condition are fixed. -/
theorem grows_fixCondition (falseJump trueJump : Int) :
    Grows inside T g₀ k (fixCondition falseJump trueJump) fun _ => True := by
  refine grows_get.step fun s h => (grows_deref _).step fun fixups hfixups => ?_
  exact grows_gen (Writes.foldl fun pos hpos =>
    writes_fixConditionJump (h.jumps _ List.mem_cons_self fixups hfixups pos hpos) _ _)

theorem grows_elseAndLoopJump (pos : Int) : Grows inside T g₀ k (genGet (·.elseAndLoopJump pos))
    fun pos => g₀.opCode.length ≤ pos :=
  grows_position (Writes.put (fun _ => rfl) fun _ => nofun) fun _ => rfl

section Blocks

variable {block : P Unit}

theorem grows_whileStatement (hblock : ∀ k, Grows inside T g₀ k block fun _ => True) :
    Grows inside T g₀ k (whileStatement fuel block) fun _ => True := by
  unfold whileStatement
  refine guards_pushCondFixup.bind fun _ => (grows_expect _).seq fun _ => ?_
  refine (grows_expectWeak _).seq fun _ => grows_codePC.seq fun start => grows_condition.seq fun _ => ?_
  refine (grows_expectWeak _).seq fun _ => (grows_expectWeak _).seq fun _ =>
    grows_codePC.seq fun _ => ?_
  refine (hblock _).seq fun _ => (grows_expectWeak _).seq fun _ => ?_
  refine (grows_elseAndLoopJump _).seq fun _ => grows_codePC.seq fun _ => ?_
  exact (grows_fixCondition _ _).seq fun _ => guards_popCondFixup

theorem grows_ifStatement (hblock : ∀ k, Grows inside T g₀ k block fun _ => True) :
    Grows inside T g₀ k (ifStatement fuel block) fun _ => True := by
  unfold ifStatement
  refine guards_pushCondFixup.bind fun _ => (grows_expect _).seq fun _ => ?_
  refine (grows_expectWeak _).seq fun _ => grows_condition.seq fun _ => ?_
  refine (grows_expectWeak _).seq fun _ => (grows_expectWeak _).seq fun _ =>
    grows_codePC.seq fun _ => ?_
  refine (hblock _).seq fun _ => (grows_expectWeak _).seq fun _ => grows_currentType.seq fun _ => ?_
  refine Guards.ite (fun _ => ?_) fun _ => ?_
  · refine (grows_elseAndLoopJump _).step fun elsePC hpos => (grows_fixCondition _ _).seq fun _ => ?_
    refine (grows_expect _).seq fun _ => (grows_expectWeak _).seq fun _ => (hblock _).seq fun _ => ?_
    refine (grows_expectWeak _).seq fun _ => grows_codePC.seq fun _ => ?_
    exact (grows_gen (writes_fixConditionJump hpos _ _)).seq fun _ => guards_popCondFixup
  · exact grows_codePC.seq fun _ => (grows_fixCondition _ _).seq fun _ => guards_popCondFixup

theorem grows_bodyStatement (hT : Stable T) (hblock : ∀ k, Grows true T g₀ k block fun _ => True) :
    Grows true T g₀ k (bodyStatement fuel block) fun _ => True := by
  have hon : ∀ {m : P Unit}, Grows true T g₀ k m (fun _ => True) →
      Grows true T g₀ k (do m; return true) fun _ => True := fun hm =>
    hm.seq fun _ => Guards.keep trivial
  unfold bodyStatement
  refine grows_currentType.seq fun t =>
    Guards.ite (fun _ => hon (grows_whileStatement hblock)) fun _ => ?_
  refine Guards.ite (fun _ => hon (grows_ifStatement hblock)) fun _ => ?_
  refine Guards.ite (fun _ => hon grows_returnStatement) fun _ => ?_
  refine Guards.ite (fun _ => hon (grows_simpleDeclaration hT)) fun _ => ?_
  refine Guards.ite (fun _ => hon grows_objectDeclarationAssignmentMethodCall) fun _ => ?_
  refine Guards.ite (fun _ => hon grows_print) fun _ => ?_
  refine Guards.ite (fun _ => grows_get.seq fun _ => Guards.keep trivial) fun _ => ?_
  exact Guards.ite (fun _ => hon grows_nextToken) fun _ => Guards.keep trivial

end Blocks

theorem grows_skipBelow (border : TokenID) :
    Grows inside T g₀ k (skipBelow fuel border) fun _ => True :=
  Guards.whileLoop (fun _ _ => grows_nextToken) fuel trivial

/-- **The body of a method** appends to the code. -/
theorem grows_bodyBlock (hT : Stable T) : ∀ (fuel : Nat) (k : Option Nat),
    Grows true T g₀ k (bodyBlock fuel) fun _ => True
  | 0, _ => Guards.throw nofun
  | fuel + 1, k => by
    have hblock := grows_bodyBlock hT fuel
    unfold bodyBlock
    refine Guards.seq (q := fun _ => True) (guards_catchIllegal (grows_bodyStatement hT hblock)
      fun message => ?_) fun goOn => ?_
    · have hhandler : Grows true T g₀ k
          (do
            report (.stackTrace message)
            skipBelow fuel .strongSymBB
            bodyBlock fuel
            return true) fun _ => True :=
        (grows_report _).seq fun _ => (grows_skipBelow _).seq fun _ => (hblock k).seq fun _ =>
          Guards.keep trivial
      exact hhandler.weaken (fun _ h => h.growing) (fun _ _ h => h) fun _ h => h
    · exact Guards.ite (fun _ => hblock k) fun _ => Guards.keep trivial

end Compiler.Parser
