import Bambinos.Compiler.ExpressionEnds

/-!
# Statements come to an end

With more fuel than there are tokens left, a block of statements is read to its end. Every statement
passes the token it begins with, also where it is given up on a syntax error; so what is skipped
after the error is not read again.

* `spends_simpleDeclaration`, `spends_whileStatement` and so on — the statements, one by one
* `ends_bodyBlock` — the circle of blocks is closed by induction on the fuel
* `spends_methodDeclaration` — a method begins with `public`
-/

namespace Compiler.Parser

open Infra

variable {α : Type} {n k fuel fuel' : Nat} {s : ParserState} {t : TokenID}

/-! ## types -/

/-- Behind a token of its own kind a production has read all it reads. -/
theorem spends_one (id : TokenID) (hid : id ≠ .tEof) (a : α) :
    Spends (· = id) n (do expect id; return a) (do expect id; return a) :=
  Spends.expect hid fun _ _ => Settled.pure a

theorem spends_primitive :
    Spends (fun t => t.startSetPrimitive = true) n primitive primitive := by
  unfold primitive
  refine Spends.currentType (fun t ht => ?_) fun t ht => ?_
  · split
    · exact absurd rfl ht
    · exact absurd rfl ht
    · exact absurd rfl ht
    · exact Settled.bind ends_line fun _ => ends_syntaxError _
  · cases t <;> first | exact absurd ht (by decide) | exact spends_one _ (by decide) _

theorem spends_primitiveArray :
    Spends (fun t => t.startSetPrimitiveArray = true) n primitiveArray primitiveArray := by
  unfold primitiveArray
  refine Spends.currentType (fun t ht => ?_) fun t ht => ?_
  · split
    · exact absurd rfl ht
    · exact absurd rfl ht
    · exact absurd rfl ht
    · exact Settled.bind ends_line fun _ => ends_syntaxError _
  · cases t <;> first | exact absurd ht (by decide) | exact spends_one _ (by decide) _

/-- A type as it begins a declaration. -/
def StartsDeclaration (t : TokenID) : Prop := t.startSetSimpleDeclaration = true

theorem startsDeclaration_cases {t : TokenID} (h : StartsDeclaration t) :
    t.startSetPrimitive = true ∨ t.startSetPrimitiveArray = true ∨ t = .tString ∨
      t = .tStringArray := by
  simpa [StartsDeclaration, TokenID.startSetSimpleDeclaration, or_assoc] using h

theorem spends_dataType : Spends StartsDeclaration n dataType dataType := by
  unfold dataType
  refine Spends.currentType (fun t ht => ?_) fun t ht => ?_
  · refine Settled.ite spends_primitive.ends (Settled.ite spends_primitiveArray.ends ?_)
    refine Settled.ite (spends_one _ (by decide) _).ends
      (Settled.ite (spends_one _ (by decide) _).ends (Settled.ite ?_ ?_))
    · exact Settled.bind (ends_expect _) fun _ => Settled.pure _
    · exact Settled.bind ends_line fun _ => ends_syntaxError _
  · refine Spends.ite (fun h₁ => spends_primitive.mono fun _ h => h ▸ h₁) fun h₁ => ?_
    refine Spends.ite (fun h₂ => spends_primitiveArray.mono fun _ h => h ▸ h₂) fun h₂ => ?_
    rcases startsDeclaration_cases ht with h | h | rfl | rfl
    · exact absurd h h₁
    · exact absurd h h₂
    · exact spends_one _ (by decide) _
    · exact spends_one _ (by decide) _

theorem spends_newExpression (hfuel : n + 1 < fuel) (hfuel' : n + 1 < fuel') :
    Spends StartsExpression n (newExpression fuel) (newExpression fuel') :=
  (spends_expression [] hfuel hfuel').bind fun _ _ _ => Settled.pure _

theorem ends_selector (hfuel : n < fuel) (hfuel' : n < fuel') :
    Ends n (arraySelector (expression delayedCodeGen fuel))
      (arraySelector (expression delayedCodeGen fuel')) :=
  ends_arraySelector (inside_expression hfuel hfuel')

theorem spends_dataTypeDescriptor (hfuel : n < fuel) (hfuel' : n < fuel') :
    Spends StartsDeclaration n (dataTypeDescriptor fuel) (dataTypeDescriptor fuel') := by
  refine spends_dataType.bind fun j hj type => Settled.bind ends_identifier fun _ => ?_
  refine Settled.bind ends_currentType fun t => Settled.ite ?_ (Settled.pure _)
  refine Settled.bind (ends_selector (by omega) (by omega)) fun item => ?_
  exact Settled.bind (ends_dropItem _) fun _ => Settled.pure _

/-! ## assignments -/

theorem ends_lastOperand : ∀ (tokens : List Ident) (i : Int),
    Ends n (lastOperand tokens i) (lastOperand tokens i)
  | [], _ => Settled.throw nofun
  | t :: [], i => by
    unfold lastOperand
    refine Settled.ite ?_ (Settled.pure _)
    exact Settled.throw nofun
  | t :: t' :: rest, i => by
    have ih := ends_lastOperand (t' :: rest) (i + 1)
    unfold lastOperand
    refine Settled.ite ?_ (Settled.pure _)
    exact Settled.optional (ends_report _) ih

theorem ends_assignmentSuffix (hfuel : n < fuel) (hfuel' : n < fuel') :
    Ends n (assignmentSuffix fuel) (assignmentSuffix fuel') := by
  unfold assignmentSuffix
  refine ends_expectThen (by decide) fun k hk => ?_
  refine Settled.bind (spends_newExpression (by omega) (by omega)).ends fun item => ?_
  refine Settled.bind (Settled.deref _) fun item => ?_
  have hlast : Ends k (do takeItem item; return item) (do takeItem item; return item) :=
    Settled.bind (ends_takeItem _) fun _ => Settled.pure _
  refine Settled.ite ?_ hlast
  refine Settled.bind Settled.get fun s => Settled.bind (ends_lastOperand _ _) fun i => ?_
  exact Settled.bind ends_tokenCount fun c => Settled.bind (ends_putValue2Reg _) fun _ => hlast

theorem ends_assignedType (item : Item) : Ends n (assignedType item) (assignedType item) := by
  unfold assignedType
  refine Settled.ite (Settled.bind ends_tokenCount fun _ => ?_) (Settled.pure _)
  refine Settled.bind (ends_tokenAt _) fun _ => Settled.bind (ends_getSymbol _) fun _ => ?_
  exact Settled.bind (Settled.deref _) fun _ => Settled.pure _

theorem ends_objectDeclarationSuffix (hfuel : n + 1 < fuel) (hfuel' : n + 1 < fuel') :
    Ends n (objectDeclarationSuffix fuel) (objectDeclarationSuffix fuel') := by
  unfold objectDeclarationSuffix
  refine Settled.bind ends_identifier fun _ => Settled.bind (ends_expectWeak _) fun _ => ?_
  refine Settled.bind (ends_expectWeak _) fun _ => Settled.bind ends_currentType fun _ => ?_
  refine Settled.ite (Settled.bind (ends_expect _) fun _ => ?_) ?_
  · refine Settled.bind ends_currentType fun _ => Settled.ite ?_ ?_
    · refine Settled.bind (ends_expect _) fun _ => Settled.bind ends_currentType fun _ => ?_
      refine Settled.ite ?_ (ends_expect _)
      refine Settled.bind (spends_newExpression hfuel hfuel').ends fun _ => ?_
      exact Settled.bind (ends_dropItem _) fun _ => ends_expect _
    · exact Settled.bind (ends_expect _) fun _ => Settled.bind (ends_expect _) fun _ =>
        ends_expectWeak _
  · refine Settled.bind ends_currentType fun _ => Settled.ite ?_ ?_
    · refine Settled.bind spends_primitive.ends fun _ => Settled.bind (ends_expectWeak _) fun _ => ?_
      exact Settled.bind (ends_expectWeak _) fun _ => ends_expectWeak _
    · exact Settled.bind ends_currentType fun _ => Settled.bind ends_line fun _ =>
        ends_syntaxError _

theorem ends_arrayDeclarationSuffix (hfuel : n + 1 < fuel) (hfuel' : n + 1 < fuel') :
    Ends n (arrayDeclarationSuffix fuel) (arrayDeclarationSuffix fuel') := by
  unfold arrayDeclarationSuffix
  refine Settled.bind ends_currentType fun _ => Settled.ite
    (Settled.bind (ends_selector (by omega) (by omega)) fun item => ?_) ?_
  -- the rest is the same with an index and without
  all_goals
    refine Settled.bind ends_currentType fun _ => Settled.ite ?_ ?_
    · exact Settled.bind (ends_dropItem _) fun _ => ends_objectDeclarationSuffix hfuel hfuel'
    refine Settled.bind ends_currentType fun _ => Settled.ite ?_ (ends_dropItem _)
    refine Settled.bind (ends_assignmentSuffix (by omega) (by omega)) fun item => ?_
    refine Settled.bind (ends_assignedType _) fun itemType => Settled.ite ?_ ?_
    · refine Settled.bind (ends_tokenAt _) fun _ => Settled.bind (ends_getSymbol _) fun _ => ?_
      exact Settled.bind (Settled.deref _) fun cell => ends_guard _ (ends_gen _)
    · refine Settled.bind (Settled.deref _) fun element => Settled.ite (ends_gen _) ?_
      exact Settled.bind ends_line fun _ => ends_syntaxError _

theorem spends_assignmentMethodCall (hfuel : n + 1 < fuel) (hfuel' : n + 1 < fuel') :
    Spends (· = .tSident) n (objectDeclarationAssignmentMethodCall fuel)
      (objectDeclarationAssignmentMethodCall fuel') := by
  unfold objectDeclarationAssignmentMethodCall arrayListEmpty
  refine Spends.modify (fun _ => rfl) (fun _ _ h => h) (spends_identifier.bind fun j hj _ => ?_)
  refine Settled.bind ends_currentType fun _ => Settled.bind ends_currentType fun _ => ?_
  refine Settled.bind ends_currentType fun _ => Settled.ite ?_ ?_
  · exact Settled.bind (ends_arrayDeclarationSuffix (by omega) (by omega)) fun _ =>
      ends_expectWeak _
  · refine Settled.bind ends_currentType fun _ => Settled.optional ?_ (ends_expectWeak _)
    exact ends_methodCallSuffix (inside_expression (by omega) (by omega)) (by omega) (by omega)

/-! ## declarations -/

theorem spends_objectDeclaration (hfuel : n + 1 < fuel) (hfuel' : n + 1 < fuel') :
    Spends (· = .tSident) n (objectDeclaration fuel) (objectDeclaration fuel') := by
  unfold objectDeclaration object
  refine Spends.expect (by decide) fun k hk => ?_
  exact Settled.bind (ends_objectDeclarationSuffix (by omega) (by omega)) fun _ => ends_expectWeak _

theorem spends_primitiveDeclaration (hfuel : n < fuel) (hfuel' : n < fuel') :
    Spends (fun t => t.startSetPrimitive = true) n (primitiveDeclaration fuel)
      (primitiveDeclaration fuel') := by
  unfold primitiveDeclaration
  refine spends_primitive.bind fun j hj type => Settled.bind ends_identifier fun _ => ?_
  have hstore : Ends j
      (do
        let name ← tokenName 1
        add2SymTable name .var type 1
        let cell ← deref (← getSymbol (← tokenAt 1).value)
        gen (·.storeWord cell))
      (do
        let name ← tokenName 1
        add2SymTable name .var type 1
        let cell ← deref (← getSymbol (← tokenAt 1).value)
        gen (·.storeWord cell)) := by
    refine Settled.bind (ends_tokenName _) fun _ => Settled.bind (ends_add2SymTable _ _ _ _) ?_
    refine fun _ => Settled.bind (ends_tokenAt _) fun _ => Settled.bind (ends_getSymbol _) ?_
    exact fun _ => Settled.bind (Settled.deref _) fun _ => ends_gen _
  refine Settled.bind ends_currentType fun _ => Settled.ite ?_ (Settled.ite ?_ ?_)
  · refine Settled.bind (ends_assignmentSuffix (by omega) (by omega)) fun item => ?_
    exact Settled.bind (ends_assignedType _) fun itemType => ends_guard _ hstore
  · exact Settled.bind (ends_gen _) fun _ => hstore
  · exact Settled.bind (ends_leak _) fun _ => hstore

theorem spends_primitiveArrayDeclaration :
    Spends (fun t => t.startSetPrimitiveArray = true) n primitiveArrayDeclaration
      primitiveArrayDeclaration := by
  unfold primitiveArrayDeclaration
  refine spends_primitiveArray.bind fun j hj type => Settled.bind ends_identifier fun _ => ?_
  refine Settled.bind (ends_expectWeak _) fun _ => Settled.bind (ends_expectWeak _) fun _ => ?_
  refine Settled.bind spends_primitive.ends fun _ => Settled.bind (ends_expectWeak _) fun _ => ?_
  refine Settled.bind Settled.get fun _ => Settled.bind (ends_parseInt _) fun arraySize => ?_
  refine Settled.bind (ends_expect _) fun _ => Settled.bind (ends_expectWeak _) fun _ => ?_
  exact Settled.bind (ends_tokenName _) fun _ => ends_add2SymTable _ _ _ _

theorem spends_stringDeclaration :
    Spends (· = .tString) n stringDeclaration stringDeclaration := by
  unfold stringDeclaration
  refine Spends.expect (by decide) fun k hk => Settled.bind ends_identifier fun _ => ?_
  refine Settled.bind (ends_expectWeak _) fun _ => Settled.bind (ends_expectWeak _) fun _ => ?_
  refine Settled.bind (ends_expectWeak _) fun _ => Settled.bind (ends_expectWeak _) fun _ => ?_
  exact Settled.bind ends_currentType fun _ => Settled.optional (ends_expect _) (ends_expectWeak _)

theorem spends_stringArrayDeclaration :
    Spends (· = .tStringArray) n stringArrayDeclaration stringArrayDeclaration := by
  unfold stringArrayDeclaration
  refine Spends.expect (by decide) fun k hk => Settled.bind ends_identifier fun _ => ?_
  refine Settled.bind (ends_expectWeak _) fun _ => Settled.bind (ends_expectWeak _) fun _ => ?_
  refine Settled.bind (ends_expectWeak _) fun _ => Settled.bind (ends_expectWeak _) fun _ => ?_
  exact Settled.bind (ends_expect _) fun _ => ends_expectWeak _

theorem spends_simpleDeclaration (hfuel : n < fuel) (hfuel' : n < fuel') :
    Spends StartsDeclaration n (simpleDeclaration fuel) (simpleDeclaration fuel') := by
  unfold simpleDeclaration arrayListEmpty
  have hsemi : ∀ {starts : TokenID → Prop} {m m' : P Unit}, Spends starts n m m' →
      Spends starts n (do m; expectWeak .tSemicolon) (do m'; expectWeak .tSemicolon) := fun h =>
    h.bind fun _ _ _ => ends_expectWeak _
  have hprimitive := hsemi (spends_primitiveDeclaration hfuel hfuel')
  have harray := hsemi (@spends_primitiveArrayDeclaration n)
  have hstring := hsemi (@spends_stringDeclaration n)
  have hstrings := hsemi (@spends_stringArrayDeclaration n)
  refine Spends.modify (fun _ => rfl) (fun _ _ h => h)
    (Spends.currentType (fun t _ => ?_) fun t ht => ?_)
  · exact Settled.ite hprimitive.ends (Settled.ite harray.ends (Settled.ite hstring.ends
      (Settled.ite hstrings.ends (ends_expectWeak _))))
  · refine Spends.ite (fun h₁ => hprimitive.mono fun _ h => h ▸ h₁) fun h₁ => ?_
    refine Spends.ite (fun h₂ => harray.mono fun _ h => h ▸ h₂) fun h₂ => ?_
    rcases startsDeclaration_cases ht with h | h | rfl | rfl
    · exact absurd h h₁
    · exact absurd h h₂
    · exact hstring
    · exact hstrings

/-! ## statements -/

theorem ends_printLast (type : Option TypeDesc) : Ends n (printLast type) (printLast type) := by
  refine Settled.bind ends_tokenCount fun _ => Settled.bind (ends_putValue2Reg _) fun _ => ?_
  exact Settled.bind (ends_gen _) fun _ => ends_leak _

theorem spends_print (hfuel : n < fuel) (hfuel' : n < fuel') :
    Spends (· = .tPrint) n (print fuel) (print fuel') := by
  unfold print arrayListEmpty
  refine Spends.modify (fun _ => rfl) (fun _ _ h => h) (Spends.expect (by decide) fun k hk => ?_)
  have hvalue : ∀ type : Option TypeDesc,
      Ends k (print.printValue fuel type) (print.printValue fuel' type) := fun type =>
    Settled.bind (spends_value hfuel hfuel' (by omega) (by omega) (by omega)
      (inside_expression (by omega) (by omega))).ends fun _ => ends_printLast type
  have hend : Ends k (do expectWeak .tRparen; expectWeak .tSemicolon)
      (do expectWeak .tRparen; expectWeak .tSemicolon) :=
    Settled.bind (ends_expectWeak _) fun _ => ends_expectWeak _
  refine Settled.bind (ends_expectWeak _) fun _ => Settled.bind ends_currentType fun t => ?_
  cases t
  case tSident =>
    refine Settled.bind ends_identifier fun _ => Settled.bind ends_tokenCount fun _ => ?_
    refine Settled.bind (ends_getIdentifersCell _) fun cell => ?_
    refine Settled.bind ends_tokenCount fun _ => Settled.bind (ends_putValue2Reg _) fun _ => ?_
    refine Settled.bind (Settled.deref _) fun _ => Settled.bind (ends_gen _) fun _ => ?_
    exact Settled.bind (ends_leak _) fun _ => hend
  case tNumber | tCharValue | tTrue | tFalse => exact Settled.bind (hvalue _) fun _ => hend
  case tStringValue => exact Settled.bind (ends_expect _) fun _ => hend
  all_goals
    exact Settled.bind ends_line fun _ => Settled.bind (ends_report _) fun _ => hend

theorem spends_returnStatement (hfuel : n < fuel) (hfuel' : n < fuel') :
    Spends (· = .tReturn) n (returnStatement fuel) (returnStatement fuel') := by
  unfold returnStatement
  refine Spends.expect (by decide) fun k hk => ?_
  refine Settled.bind (spends_newExpression (by omega) (by omega)).ends fun item => ?_
  refine Settled.bind (Settled.deref _) fun item => ends_loadLast ?_
  refine Settled.bind (ends_takeItem _) fun _ => Settled.bind (ends_leak _) fun _ => ?_
  refine Settled.bind (ends_expectWeak _) fun _ => Settled.bind (ends_genGet _) fun _ => ?_
  exact Settled.modify fun _ h => h

theorem ends_popCondFixup : Ends n popCondFixup popCondFixup := by
  unfold popCondFixup
  intro s hs
  refine Settles.step get_run ?_
  cases s.condFixStack with
  | nil => exact .error (throw_run _) nofun fun _ => hs
  | cons top rest => exact .ok (modify_run _) hs

theorem ends_condition (hfuel : n + 1 < fuel) (hfuel' : n + 1 < fuel') :
    Ends n (condition fuel) (condition fuel') := by
  refine Settled.bind (Settled.modify fun _ h => h) fun _ => ?_
  refine Settled.bind (spends_newExpression hfuel hfuel').ends fun item => ?_
  exact Settled.bind (ends_dropItem _) fun _ => Settled.modify fun _ h => h

theorem ends_fixCondition (falseJump trueJump : Int) :
    Ends n (fixCondition falseJump trueJump) (fixCondition falseJump trueJump) :=
  Settled.bind Settled.get fun _ => Settled.bind (Settled.deref _) fun _ => ends_gen _

theorem ends_codePC : Ends n codePC codePC := Settled.bind Settled.get fun _ => Settled.pure _

/-- Blocks are settled while less than `n` tokens are left. -/
def Nested (n : Nat) (block block' : P Unit) : Prop := ∀ k, k < n → Ends k block block'

variable {block block' : P Unit}

theorem spends_whileStatement (h : Nested n block block') (hfuel : n < fuel) (hfuel' : n < fuel') :
    Spends (· = .tWhile) n (whileStatement fuel block) (whileStatement fuel' block') := by
  unfold whileStatement pushCondFixup
  refine Spends.modify (fun _ => rfl) (fun _ _ h => h) (Spends.expect (by decide) fun k hk => ?_)
  refine Settled.bind (ends_expectWeak _) fun _ => Settled.bind ends_codePC fun start => ?_
  refine Settled.bind (ends_condition (by omega) (by omega)) fun _ => ?_
  refine Settled.bind (ends_expectWeak _) fun _ => Settled.bind (ends_expectWeak _) fun _ => ?_
  refine Settled.bind ends_codePC fun trueJump => Settled.bind (h k hk) fun _ => ?_
  refine Settled.bind (ends_expectWeak _) fun _ => Settled.bind (ends_genGet _) fun _ => ?_
  refine Settled.bind ends_codePC fun _ => Settled.bind (ends_fixCondition _ _) fun _ => ?_
  exact ends_popCondFixup

theorem spends_ifStatement (h : Nested n block block') (hfuel : n < fuel) (hfuel' : n < fuel') :
    Spends (· = .tIf) n (ifStatement fuel block) (ifStatement fuel' block') := by
  unfold ifStatement pushCondFixup
  refine Spends.modify (fun _ => rfl) (fun _ _ h => h) (Spends.expect (by decide) fun k hk => ?_)
  refine Settled.bind (ends_expectWeak _) fun _ => ?_
  refine Settled.bind (ends_condition (by omega) (by omega)) fun _ => ?_
  refine Settled.bind (ends_expectWeak _) fun _ => Settled.bind (ends_expectWeak _) fun _ => ?_
  refine Settled.bind ends_codePC fun trueJump => Settled.bind (h k hk) fun _ => ?_
  refine Settled.bind (ends_expectWeak _) fun _ => Settled.bind ends_currentType fun _ => ?_
  refine Settled.ite ?_ ?_
  · refine Settled.bind (ends_genGet _) fun _ => Settled.bind (ends_fixCondition _ _) fun _ => ?_
    refine Settled.bind (ends_expect _) fun _ => Settled.bind (ends_expectWeak _) fun _ => ?_
    refine Settled.bind (h k hk) fun _ => Settled.bind (ends_expectWeak _) fun _ => ?_
    refine Settled.bind ends_codePC fun _ => Settled.bind (ends_gen _) fun _ => ?_
    exact ends_popCondFixup
  · refine Settled.bind ends_codePC fun _ => Settled.bind (ends_fixCondition _ _) fun _ => ?_
    exact ends_popCondFixup

/-- The tokens with which the loop of `bodyBlock` goes on. -/
def Continues (t : TokenID) : Prop :=
  t ≠ .tRbraces ∧ t.ordinal < TokenID.strongSymCB.ordinal

theorem spends_skipOne (ht : t ≠ .tEof) (a : α) :
    Spends (· = t) n (do nextToken; return a) (do nextToken; return a) where
  ends := Settled.bind ends_nextToken fun _ => Settled.pure a
  less _ h hs := (nextToken_spends (h ▸ ht) hs).bind fun _ s' hs' => Settled.pure a s' hs'

/-- A statement, behind which the loop goes on. -/
theorem Spends.goOn {starts : TokenID → Prop} {m m' : P Unit} (h : Spends starts n m m') :
    Spends starts n (do m; return true) (do m'; return true) :=
  h.bind fun _ _ _ => Settled.pure true

theorem spends_bodyStatement (h : Nested n block block') (hfuel : n + 1 < fuel)
    (hfuel' : n + 1 < fuel') :
    Spends Continues n (bodyStatement fuel block) (bodyStatement fuel' block') := by
  have hlt : n < fuel := by omega
  have hlt' : n < fuel' := by omega
  have hwhile := (spends_whileStatement h hlt hlt').goOn
  have hif := (spends_ifStatement h hlt hlt').goOn
  have hreturn := (spends_returnStatement hlt hlt').goOn
  have hdeclaration := (spends_simpleDeclaration hlt hlt').goOn
  have hcall := (spends_assignmentMethodCall hfuel hfuel').goOn
  have hprint := (spends_print hlt hlt').goOn
  unfold bodyStatement
  refine Spends.currentType (fun t _ => ?_) fun t ht => ?_
  · refine Settled.ite hwhile.ends (Settled.ite hif.ends (Settled.ite hreturn.ends ?_))
    refine Settled.ite hdeclaration.ends (Settled.ite hcall.ends (Settled.ite hprint.ends ?_))
    refine Settled.ite (Settled.bind Settled.get fun _ => Settled.pure _) (Settled.ite ?_ ?_)
    · exact Settled.bind ends_nextToken fun _ => Settled.pure _
    · exact Settled.pure _
  · refine Spends.ite (fun h => hwhile.mono fun _ h' => h'.trans h) fun _ => ?_
    refine Spends.ite (fun h => hif.mono fun _ h' => h'.trans h) fun _ => ?_
    refine Spends.ite (fun h => hreturn.mono fun _ h' => h'.trans h) fun _ => ?_
    refine Spends.ite (fun h => hdeclaration.mono fun _ h' => h' ▸ h) fun _ => ?_
    refine Spends.ite (fun h => hcall.mono fun _ h' => h'.trans h) fun _ => ?_
    refine Spends.ite (fun h => hprint.mono fun _ h' => h'.trans h) fun _ => ?_
    refine Spends.ite (fun h => absurd h ht.1) fun _ => ?_
    refine Spends.ite (fun h => spends_skipOne ?_ true) fun h => absurd ht.2 h
    rintro rfl
    exact absurd h (by decide)

/-- Elsewhere the loop is left. -/
theorem bodyStatement_stops (h : ¬ Continues s.currentToken.type) (hbraces : s.countTLBRACES ≤ 2) :
    bodyStatement fuel block s = .ok false s := by
  have hother : s.currentToken.type = .tRbraces ∨
      s.currentToken.type ≠ .tRbraces ∧
        ¬ s.currentToken.type.ordinal < TokenID.strongSymCB.ordinal := by
    by_cases hclose : s.currentToken.type = .tRbraces
    · exact .inl hclose
    · exact .inr ⟨hclose, fun hlt => h ⟨hclose, hlt⟩⟩
  unfold bodyStatement
  rw [bind_ok (currentType_eq s)]
  generalize s.currentToken.type = t at hother
  rcases hother with rfl | ⟨hne, hlt⟩
  · show (do return !decide ((← get).countTLBRACES ≤ 2) : P Bool) s = _
    rw [bind_ok (get_run (s := s)), decide_eq_true hbraces]
    rfl
  · cases t <;> first | exact absurd (by decide) hlt | exact absurd rfl hne | rfl

theorem ends_skipBelow (border : TokenID) (hborder : border.ordinal ≤ TokenID.tEof.ordinal)
    (hfuel : n < fuel) (hfuel' : n < fuel') :
    Ends n (skipBelow fuel border) (skipBelow fuel' border) := by
  have hne : ∀ s : ParserState, decide (s.currentToken.type.ordinal < border.ordinal) = true →
      s.currentToken.type ≠ .tEof := by
    intro s h heof
    rw [heof] at h
    exact Nat.not_lt.mpr hborder (of_decide_eq_true h)
  refine Settled.whileLoop (fun s h => not_within_zero (hne s h)) (fun k a s _ h hs => ?_) hfuel hfuel'
  exact nextToken_spends (hne s h) hs

/-- **Blocks come to an end.** -/
theorem ends_bodyBlock (hfuel : n + 2 < fuel) (hfuel' : n + 2 < fuel') :
    Ends n (bodyBlock fuel) (bodyBlock fuel') := by
  induction fuel generalizing n fuel' with
  | zero => exact absurd hfuel (Nat.not_lt_zero _)
  | succ fuel ih =>
    obtain ⟨fuel', rfl⟩ : ∃ x, fuel' = x + 1 := ⟨fuel' - 1, by omega⟩
    intro s hs
    unfold bodyBlock
    by_cases hstart : Continues s.currentToken.type
    · have hne : s.currentToken.type ≠ .tEof := by
        intro h
        rw [h] at hstart
        exact absurd hstart.2 (by decide)
      obtain ⟨k, rfl⟩ := within_succ hne hs
      have hnested : Nested (k + 1) (bodyBlock fuel) (bodyBlock fuel') := fun j hj =>
        ih (by omega) (by omega)
      have hk : k + 1 + 1 < fuel := by omega
      have hk' : k + 1 + 1 < fuel' := by omega
      have hless := (spends_bodyStatement hnested hk hk').less (Nat.lt_succ_self k) hstart hs
      have hskip : Ends k (skipBelow fuel .strongSymBB) (skipBelow fuel' .strongSymBB) :=
        ends_skipBelow .strongSymBB (by decide) (by omega) (by omega)
      have hblock : Ends k (bodyBlock fuel) (bodyBlock fuel') := ih (by omega) (by omega)
      -- a statement that is given up has passed its first token
      have hcatch := ends_catchIllegal hless fun message s' _ hs' =>
        (Settled.bind (ends_report (.stackTrace message)) fun _ =>
          Settled.bind hskip fun _ => Settled.bind hblock fun _ => Settled.pure true) s' hs'
      refine (hcatch.bind fun goOn s' hs' => ?_).mono (Nat.le_succ k) (Nat.le_succ k)
      exact (Settled.ite hblock (Settled.pure _)) s' hs'
    · have hstop : ∀ f : Nat, catchIllegal (bodyStatement f (bodyBlock f)) (fun message => do
          report (.stackTrace message)
          skipBelow f .strongSymBB
          bodyBlock f
          return true) s = .ok false s := fun f =>
        catchIllegal_ok (bodyStatement_stops hstart hs.right)
      refine Settles.steps (hstop fuel) (hstop fuel') ?_
      exact .ok pure_run hs

/-! ## methods -/

theorem ends_fixMethodOffset (name : String) (fix : Int) :
    Ends n (fixMethodOffset name fix) (fixMethodOffset name fix) :=
  Settled.bind Settled.get fun _ => Settled.bind (Settled.deref _) fun _ => ends_gen _

theorem ends_modifySymbol (name : String) (f : SymbolTableCell → SymbolTableCell) :
    Ends n (modifySymbol name f) (modifySymbol name f) :=
  Settled.bind Settled.get fun _ => Settled.bind (Settled.deref _) fun _ => ends_gen _

theorem spends_parameter (hfuel : n < fuel) (hfuel' : n < fuel') :
    Spends StartsDeclaration n (parameter fuel) (parameter fuel') := by
  refine (spends_dataTypeDescriptor hfuel hfuel').bind fun j hj type => ?_
  refine Settled.bind ends_tokenCount fun _ => Settled.bind (ends_tokenName _) fun name => ?_
  exact Settled.pure _

/-- A turn of the loop of the parameters: a comma is passed, or a type is. -/
theorem parameter_turn {params : List (Option TypeDesc × String)} (hfuel : k + 1 < fuel)
    (hfuel' : k + 1 < fuel') (h : s.currentToken.type = .tComma ∨ StartsDeclaration s.currentToken.type)
    (hs : Within s (k + 1)) :
    EndsFrom (do expectWeak .tComma; return params ++ [← parameter fuel])
      (do expectWeak .tComma; return params ++ [← parameter fuel']) s k k := by
  have hparameter := @spends_parameter (k + 1) fuel fuel' hfuel hfuel'
  by_cases hcomma : s.currentToken.type = .tComma
  · refine (expectAt_spends .week hcomma (by decide) hs).bind fun _ s' hs' => ?_
    have hlast := (spends_parameter (by omega : k < fuel) (by omega : k < fuel')).ends
    exact (Settled.bind hlast fun _ => Settled.pure _) s' hs'
  · have hstart := h.resolve_left hcomma
    have herr : s.currentToken.type ≠ .tError := by
      intro herr
      rw [herr] at hstart
      exact absurd hstart (by unfold StartsDeclaration; decide)
    obtain ⟨s', hrun, hstays⟩ := expectWeak_missing hcomma herr
    refine Settles.step hrun ((hparameter.less (Nat.lt_succ_self k) ?_ (hstays.within hs)).bind ?_)
    · rwa [hstays.currentToken]
    · exact fun _ s₁ hs₁ => Settled.pure _ s₁ hs₁

theorem ends_parameterList (hfuel : n + 1 < fuel) (hfuel' : n + 1 < fuel') :
    Ends n (parameterList fuel) (parameterList fuel') := by
  have hfirst := @spends_parameter n fuel fuel' (by omega) (by omega)
  have hstarts : ∀ s : ParserState,
      (s.currentToken.type == .tComma || s.currentToken.type.startSetSimpleDeclaration) = true →
      s.currentToken.type = .tComma ∨ StartsDeclaration s.currentToken.type := by
    intro s h
    rcases Bool.or_eq_true_iff.mp h with h | h
    · exact .inl (beq_iff_eq.mp h)
    · exact .inr h
  refine Settled.bind ends_currentType fun _ => Settled.ite ?_ (Settled.pure _)
  refine Settled.bind hfirst.ends fun first => ?_
  refine Settled.whileLoop (fun s h => not_within_zero fun heof => ?_) (fun k a s hk h hs => ?_)
    (by omega) (by omega)
  · rw [heof] at h
    exact absurd h (by decide)
  · exact parameter_turn (by omega) (by omega) (hstarts s h) hs

theorem ends_addParameters : ∀ params : List (Option TypeDesc × String),
    Ends n (addParameters params) (addParameters params)
  | [] => Settled.pure _
  | (type, name) :: rest =>
    Settled.bind (ends_add2SymTable name .var type 1) fun _ => ends_addParameters rest

theorem ends_returnType : Ends n returnType returnType := by
  unfold returnType
  refine Settled.bind ends_currentType fun _ => Settled.ite ?_ ?_
  · exact Settled.bind (ends_expect _) fun _ => Settled.pure _
  · refine Settled.bind ends_currentType fun _ => Settled.ite ?_ ?_
    · exact Settled.bind spends_dataType.ends fun _ => Settled.pure _
    · exact Settled.bind ends_currentType fun _ => Settled.bind ends_line fun _ =>
        ends_syntaxError _

theorem spends_methodDeclaration (hfuel : n + 1 < fuel) (hfuel' : n + 1 < fuel') :
    Spends (· = .tPublic) n (methodDeclaration fuel) (methodDeclaration fuel') := by
  unfold methodDeclaration arrayListEmpty
  refine Spends.modify (fun _ => rfl) (fun _ _ h => h) (Spends.expect (by decide) fun k hk => ?_)
  refine Settled.bind (ends_expectWeak _) fun _ => Settled.bind ends_returnType fun verify => ?_
  refine Settled.bind Settled.get fun _ => Settled.bind (Settled.deref _) fun value => ?_
  refine Settled.optional (ends_gen _) (Settled.bind ends_currentType fun _ => ?_)
  have hguard : ∀ {c : Prop} [Decidable c] {m m' : P Unit} (text : TokenID → String → String),
      Ends k m m' →
      Ends k (if c then do let t ← currentType; let l ← line; let _ ← (syntaxError (text t l) : P PUnit); m else m)
        (if c then do let t ← currentType; let l ← line; let _ ← (syntaxError (text t l) : P PUnit); m' else m') :=
    fun text hm => Settled.ite (Settled.bind ends_currentType fun _ => Settled.bind ends_line fun _ =>
      Settled.bind (ends_syntaxError _) fun _ => hm) hm
  refine Settled.ite (Settled.bind (ends_expect _) fun _ => ?_) ?_
  -- the rest is the same with a name and without
  all_goals
    refine hguard (fun t l => "Illegal Method Declaration, no return type specified. Token: "
      ++ t.toString ++ "not valid. in line:" ++ l) ?_
    refine Settled.bind (ends_expect _) fun _ => Settled.bind Settled.get fun _ => ?_
    refine Settled.bind (ends_add2SymTable _ _ _ _) fun _ => ?_
    refine Settled.bind (ends_parameterList (by omega) (by omega)) fun params => ?_
    refine Settled.bind (ends_expectWeak _) fun _ => Settled.bind (ends_expectWeak _) fun _ => ?_
    refine Settled.bind (ends_fixMethodOffset _ _) fun _ => ?_
    refine Settled.bind (ends_addParameters _) fun _ => ?_
    refine Settled.bind (ends_fixMethodOffset _ _) fun _ => ?_
    refine Settled.bind (ends_genGet _) fun _ => Settled.bind (ends_modifySymbol _ _) fun _ => ?_
    refine Settled.bind (ends_bodyBlock (by omega) (by omega)) fun _ => ?_
    refine Settled.bind Settled.get fun _ => Settled.bind (Settled.deref _) fun symbols => ?_
    refine Settled.bind (ends_modifySymbol _ _) fun _ => Settled.bind (ends_gen _) fun _ => ?_
    refine Settled.bind (ends_expectWeak _) fun _ => Settled.bind Settled.get fun _ => ?_
    refine Settled.bind (ends_gen _) fun _ => Settled.bind (Settled.modify fun _ h => h) fun _ => ?_
    exact Settled.ite (ends_gen _) (ends_gen _)

end Compiler.Parser
