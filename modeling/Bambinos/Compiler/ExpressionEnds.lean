import Bambinos.Compiler.EnoughFuel

/-!
# Expressions come to an end

With more fuel than there are tokens left, an expression is read to its end, and more fuel changes
nothing.

* `Inside` — what is assumed of the expressions inside
* `spends_value`, `spends_factor`, `spends_term`, `spends_relation` — the productions, one by one
* `spends_expression` — the circle of productions is closed by induction on the fuel
-/

namespace Compiler.Parser

open Infra

variable {α : Type} {n k fuel fuel' : Nat} {s : ParserState}

/-! ## values -/

/-- An expression begins. -/
def StartsExpression (t : TokenID) : Prop := t.startSetExpression = true

/-- A value begins: a minus is read by `term`. -/
def StartsValue (t : TokenID) : Prop := t.startSetExpression = true ∧ t ≠ .tMinus

/-- Expressions are settled while less than `n` tokens are left. -/
def Inside (n : Nat) (ex ex' : Production) : Prop :=
  ∀ k, k < n → ∀ vec, Spends StartsExpression k (ex vec) (ex' vec)

variable {ex ex' : Production}

theorem Inside.mono (h : Inside n ex ex') (hk : k ≤ n) : Inside k ex ex' :=
  fun j hj => h j (Nat.lt_of_lt_of_le hj hk)

theorem spends_freshExpression (h : Inside n ex ex') (hk : k < n) :
    Spends StartsExpression k (freshExpression ex) (freshExpression ex') :=
  (h k hk []).bind fun _ _ _ => Settled.pure _

theorem ends_arraySelector (h : Inside n ex ex') :
    Ends n (arraySelector ex) (arraySelector ex') := by
  unfold arraySelector
  refine Settled.bind ends_tokenCount fun sIdentPos => ends_expectThen (by decide) fun k hk => ?_
  have hlast : ∀ result : Option Item, Ends k
      (do expectWeak .tRbrack; return result) (do expectWeak .tRbrack; return result) := fun result =>
    Settled.bind (ends_expectWeak _) fun _ => Settled.pure result
  refine Settled.bind ends_currentType fun t => Settled.ite ?_ (hlast none)
  refine Settled.bind (spends_freshExpression h hk).ends fun item => ?_
  refine Settled.bind (Settled.deref _) fun item => ends_guard _ (ends_loadLast ?_)
  refine Settled.bind (ends_takeItem _) fun _ => Settled.bind (ends_tokenAt _) fun _ => ?_
  refine Settled.bind (ends_getSymbol _) fun _ => Settled.bind (Settled.deref _) fun _ => ?_
  exact Settled.bind (ends_gen _) fun _ => hlast _

theorem spends_argument (h : Inside n ex ex') (hk : k < n) :
    Spends StartsExpression k (argument ex) (argument ex') := by
  unfold argument
  refine (spends_freshExpression h hk).bind fun j _ item => ?_
  refine Settled.bind (Settled.deref _) fun item => ends_loadLast ?_
  exact Settled.bind (ends_takeItem _) fun _ => ends_gen _

theorem ends_calledMethod : Ends n calledMethod calledMethod := by
  unfold calledMethod
  refine Settled.bind ends_tokenCount fun _ => Settled.bind (ends_tokenName _) fun name => ?_
  refine Settled.bind Settled.get fun _ => Settled.ite ?_ ?_
  · refine Settled.bind ends_tokenCount fun _ => Settled.bind (ends_getIdentifersCell _) fun _ => ?_
    exact Settled.bind (Settled.deref _) fun _ => Settled.bind Settled.get fun _ => Settled.pure _
  · refine Settled.bind ends_tokenCount fun _ => Settled.bind (ends_tokenName _) fun className => ?_
    refine Settled.bind Settled.get fun s => ?_
    cases s.cg.objectTypes.lookup className with
    | none => exact Settled.bind ends_line fun _ => ends_syntaxError _
    | some fields => exact Settled.bind (Settled.deref _) fun _ => Settled.pure _

/-- A turn of the loop over the arguments passes the comma, or the argument begins at once. -/
theorem ends_arguments (h : Inside n ex ex') (hk : k < n) (hfuel : k < fuel) (hfuel' : k < fuel') :
    Ends k
      (whileLoop
        (fun s => s.currentToken.type == .tComma || s.currentToken.type.startSetExpression)
        (fun _ => do expectWeak .tComma; argument ex) fuel ())
      (whileLoop
        (fun s => s.currentToken.type == .tComma || s.currentToken.type.startSetExpression)
        (fun _ => do expectWeak .tComma; argument ex') fuel' ()) := by
  refine Settled.whileLoop (fun s hcond => not_within_zero fun heof => ?_)
    (fun j _ s hj hcond hs => ?_) hfuel hfuel'
  · rw [heof] at hcond
    cases hcond
  by_cases hcomma : s.currentToken.type = .tComma
  · refine (expectAt_spends .week hcomma nofun hs).bind fun _ s' hs' => ?_
    exact (spends_argument h (by omega)).ends s' hs'
  · have hstart : s.currentToken.type.startSetExpression = true := by
      simpa [hcomma] using hcond
    have herr : s.currentToken.type ≠ .tError := by
      intro herr
      rw [herr] at hstart
      cases hstart
    obtain ⟨s', hrun, hstays⟩ := expectWeak_missing hcomma herr
    refine Settles.step hrun ((spends_argument h hk).less hj ?_ (hstays.within hs))
    rw [hstays.currentToken]
    exact hstart

theorem ends_methodCallSuffix (h : Inside n ex ex') (hfuel : n < fuel) (hfuel' : n < fuel') :
    Ends n (methodCallSuffix ex fuel) (methodCallSuffix ex' fuel') := by
  unfold methodCallSuffix
  refine ends_expectThen (by decide) fun k hk => Settled.bind ends_calledMethod fun called => ?_
  refine Settled.bind ends_currentType fun _ => Settled.optional (spends_argument h hk).ends ?_
  refine Settled.bind (ends_arguments h hk (by omega) (by omega)) fun _ => ?_
  refine Settled.bind (ends_expect _) fun _ => Settled.bind (ends_genGet _) fun _ => ?_
  exact Settled.bind (ends_gen _) fun _ => Settled.pure _

/-- A character is converted before it is passed. What is no number throws what nobody catches. -/
theorem spends_charValue {f : Int → P α} (hf : ∀ j v, j ≤ n → Ends j (f v) (f v)) :
    Spends (· = .tCharValue) n
      (do let v ← parseInt (← get).currentToken.value; expect .tCharValue; f v)
      (do let v ← parseInt (← get).currentToken.value; expect .tCharValue; f v) where
  ends := Settled.bind Settled.get fun _ => Settled.bind (ends_parseInt _) fun v =>
    Settled.bind (ends_expect _) fun _ => hf n v (Nat.le_refl n)
  less {k s} hk h hs := by
    have hthrow : ∀ value : Option TokenValue, (parseInt value : P Int) s = .error .numberFormat s →
        EndsFrom (do let v ← parseInt value; expect .tCharValue; f v)
          (do let v ← parseInt value; expect .tCharValue; f v) s k k := fun value hrun =>
      .stop hrun nofun fun hcaught => by
        obtain ⟨message, hx⟩ := hcaught
        cases hx
    refine Settles.step get_run ?_
    rcases s.currentToken.value with - | (text | v)
    · exact hthrow none rfl
    · exact hthrow (some (.text text)) rfl
    · by_cases hv : int32 v = v
      · refine Settles.step (show parseInt (some (.number v)) s = .ok v s by simp [parseInt, hv]) ?_
        exact spends_expectThen h nofun hs (hf k v (Nat.le_of_lt hk))
      · exact hthrow (some (.number v)) (by simp [parseInt, hv])

theorem startsValue_cases {t : TokenID} (h : StartsValue t) :
    t = .tNot ∨ t = .tNumber ∨ t = .tSident ∨ t = .tStringValue ∨ t = .tCharValue ∨ t = .tNull ∨
      t = .tTrue ∨ t = .tFalse := by
  obtain ⟨hstart, hne⟩ := h
  cases t <;> first | exact absurd hstart (by decide) | exact absurd rfl hne | simp

/-- **A value** ends, and passes the token it begins with. -/
theorem spends_value (hfuel : n < fuel) (hfuel' : n < fuel') :
    ∀ {depth depth' k : Nat} {vec : List FixUps}, k ≤ n → k < depth → k < depth' →
      Inside k ex ex' → Spends StartsValue k (value ex fuel depth vec) (value ex' fuel' depth' vec) := by
  intro depth
  induction depth with
  | zero => exact fun _ h => absurd h (Nat.not_lt_zero _)
  | succ depth ih =>
    intro depth' k vec hk hdepth hdepth' h
    obtain ⟨depth', rfl⟩ : ∃ x, depth' = x + 1 := ⟨depth' - 1, by omega⟩
    unfold value
    refine Spends.currentType (fun t ht => ?_) fun t ht => ?_
    · cases t
      case tLparen =>
        refine ends_expectThen (by decide) fun j hj => ?_
        exact Settled.bind (h j hj vec).ends fun _ =>
          Settled.bind (ends_expect _) fun _ => Settled.pure _
      all_goals first | exact Settled.pure _ | exact absurd ⟨rfl, nofun⟩ ht
    · rcases startsValue_cases ht with rfl | rfl | rfl | rfl | rfl | rfl | rfl | rfl
      · refine Spends.expect (by decide) fun j hj => ?_
        refine Settled.bind (ih (by omega) (by omega) (by omega) (h.mono (by omega))).ends ?_
        exact fun _ => Settled.bind (ends_dropItem _) fun _ => Settled.pure _
      · exact spends_intValue.bind fun _ _ _ => Settled.pure _
      · refine spends_identifier.bind fun j hj _ => Settled.bind Settled.get fun _ => ?_
        have hinside := h.mono hj
        refine Settled.bind ends_currentType fun _ => Settled.ite
          (Settled.bind (ends_arraySelector hinside) fun item => Settled.bind (Settled.deref _)
            fun _ => Settled.bind (ends_gen _) fun _ => ?_) ?_
        -- the call comes next, behind an index or not
        all_goals
          refine Settled.bind ends_currentType fun _ => Settled.ite ?_ (Settled.pure _)
          refine Settled.bind (ends_dropItem _) fun _ => ?_
          refine Settled.bind (ends_methodCallSuffix hinside (by omega) (by omega)) fun _ => ?_
          exact Settled.pure _
      · exact Spends.expect (by decide) fun _ _ => Settled.pure _
      · exact spends_charValue fun _ _ _ => Settled.pure _
      · exact Spends.expect (by decide) fun _ _ => Settled.pure _
      · exact (spends_booleanValue.mono fun _ h => .inl h).bind fun _ _ _ => Settled.pure _
      · exact (spends_booleanValue.mono fun _ h => .inr h).bind fun _ _ _ => Settled.pure _

/-! ## factor and term -/

theorem isTermOperator_isOperation {t : TokenID} (h : isTermOperator t = true) :
    IsOperation t := by
  rw [IsOperation, h, Bool.or_true]

/-- The third operand of an operation is an expression of its own. -/
theorem ends_third {c : Prop} [Decidable c] (h : Inside n ex ex') {index : Int} {item : Option Item}
    {f : Option Item → P α} (hf : ∀ j r, j ≤ n → Ends j (f r) (f r)) :
    Ends n
      (do
        if c then
          let kind ← deref (← getOperation)
          let r ← delayedCodeGen kind index item (← freshExpression ex)
          f r
        else f item)
      (do
        if c then
          let kind ← deref (← getOperation)
          let r ← delayedCodeGen kind index item (← freshExpression ex')
          f r
        else f item) := by
  refine Settled.ite ?_ (hf n item (Nat.le_refl n))
  refine (Spends.operation fun k hk kind => ?_).ends
  refine Settled.bind (spends_freshExpression h hk).ends fun _ => ?_
  exact Settled.bind (ends_delayedCodeGen _ _ _ _) fun r => hf k r (Nat.le_of_lt hk)

theorem spends_factor (hfuel : n < fuel) (hfuel' : n < fuel') (hk : k ≤ n) (h : Inside k ex ex')
    (vec : List FixUps) : Spends StartsValue k (factor delayedCodeGen ex fuel vec)
      (factor delayedCodeGen ex' fuel' vec) := by
  unfold factor
  refine (spends_value hfuel hfuel' hk (by omega) (by omega) h).bind fun j hj r => ?_
  refine Settled.bind ends_currentType fun t => Settled.ite ?_ (Settled.pure _)
  refine Settled.bind ends_tokenCount fun index => (Spends.operation fun i hi kind => ?_).ends
  have hinside : Inside i ex ex' := h.mono (by omega)
  refine Settled.bind (spends_value hfuel hfuel' (by omega) (by omega) (by omega) hinside).ends ?_
  intro r'
  refine Settled.bind (ends_delayedCodeGen _ _ _ _) fun item => ?_
  refine Settled.bind ends_currentType fun t => ends_third hinside fun _ _ _ => Settled.pure _

/-- What `term` does behind its first product. -/
def behindFactor (ex : Production) (fuel : Nat) (r : Option Item × List FixUps) :
    P (Option Item × List FixUps) := do
  let item1 :=
    if r.1 = none ∧ (← currentType) = .tMinus then
      some { mode := 2, type := some .intType, expr := .number 0 }
    else r.1
  if isTermOperator (← currentType) then
    let indexFirst := (← tokenCount) - 1
    let termKind ← deref (← getOperation)
    let (item2, vec) ← factor delayedCodeGen ex fuel r.2
    let mut returnItem ← delayedCodeGen termKind indexFirst item1 item2
    if isTermOperator (← currentType) then
      let termKind ← deref (← getOperation)
      returnItem ← delayedCodeGen termKind indexFirst returnItem (← freshExpression ex)
    return (if item2.isSome then returnItem else item1, vec)
  else
    return (item1, r.2)

theorem term_eq (ex : Production) (fuel : Nat) (vec : List FixUps) :
    term delayedCodeGen ex fuel vec = factor delayedCodeGen ex fuel vec >>= behindFactor ex fuel := rfl

theorem spends_behindFactor (hk : k ≤ n) (hfuel : n < fuel) (hfuel' : n < fuel')
    (h : Inside k ex ex') (r : Option Item × List FixUps) :
    Spends (fun t => isTermOperator t = true) k (behindFactor ex fuel r)
      (behindFactor ex' fuel' r) := by
  unfold behindFactor
  refine Spends.look (fun s => ⟨_, currentType_eq s⟩) fun _ => ?_
  refine Spends.currentType (fun t ht => ?_) fun t ht => ?_
  · rw [if_neg ht, if_neg ht]
    exact Settled.pure _
  · rw [if_pos ht, if_pos ht]
    refine Spends.look (fun s => ⟨_, tokenCount_eq s⟩) fun index => ?_
    refine Spends.mono (Spends.operation fun i hi kind => ?_) ?_
    · have hinside : Inside i ex ex' := h.mono (by omega)
      refine Settled.bind (spends_factor hfuel hfuel' (by omega) hinside _).ends fun r' => ?_
      refine Settled.bind (ends_delayedCodeGen _ _ _ _) fun item => ?_
      exact Settled.bind ends_currentType fun t => ends_third hinside fun _ _ _ => Settled.pure _
    · rintro t' rfl
      exact isTermOperator_isOperation ht

theorem factor_minus (h : s.currentToken.type = .tMinus) (hfuel : 0 < fuel) (vec : List FixUps) :
    factor delayedCodeGen ex fuel vec s = .ok (none, vec) s := by
  obtain ⟨fuel, rfl⟩ : ∃ x, fuel = x + 1 := ⟨fuel - 1, by omega⟩
  have hvalue : value ex (fuel + 1) (fuel + 1) vec s = .ok (none, vec) s := by
    unfold value
    rw [bind_ok (currentType_eq s), h]
    rfl
  unfold factor
  rw [bind_ok hvalue]
  show (currentType >>= _ : P _) s = _
  rw [bind_ok (currentType_eq s), h]
  rfl

/-- **A sum** ends, and passes the token it begins with. -/
theorem spends_term (hk : k ≤ n) (hfuel : n < fuel) (hfuel' : n < fuel') (h : Inside k ex ex')
    (vec : List FixUps) : Spends StartsExpression k (term delayedCodeGen ex fuel vec)
      (term delayedCodeGen ex' fuel' vec) := by
  rw [term_eq, term_eq]
  have hvalue := (spends_factor hfuel hfuel' hk h vec).bind fun j hj r =>
    (spends_behindFactor (hj.trans hk) hfuel hfuel' (h.mono hj) r).ends
  refine ⟨hvalue.ends, fun {j s} hj hstart hs => ?_⟩
  by_cases hminus : s.currentToken.type = .tMinus
  · refine Settles.steps (factor_minus hminus (by omega) vec) (factor_minus hminus (by omega) vec) ?_
    refine (spends_behindFactor hk hfuel hfuel' h (none, vec)).less hj ?_ hs
    rw [hminus]
    rfl
  · exact hvalue.less hj ⟨hstart, hminus⟩ hs

/-! ## conditions -/

theorem ends_relationOperator : Ends n relationOperator relationOperator := by
  unfold relationOperator
  refine Settled.bind ends_currentType fun t => ?_
  have hone : ∀ (id : TokenID) (op : OpCode),
      Ends n (do expect id; return op) (do expect id; return op) := fun id op =>
    Settled.bind (ends_expect id) fun _ => Settled.pure op
  split
  · exact Settled.bind (ends_expect _) fun _ => hone _ _
  · exact Settled.bind (ends_expect _) fun _ => hone _ _
  · exact hone _ _
  · exact hone _ _
  · exact hone _ _
  · exact hone _ _
  · exact Settled.pure _

theorem ends_loadOperand (item : Item) : Ends n (loadOperand item) (loadOperand item) := by
  unfold loadOperand
  refine Settled.bind (ends_takeItem _) fun _ => Settled.ite ?_ (Settled.ite ?_ (Settled.pure _))
  · exact Settled.bind ends_tokenCount fun _ =>
      Settled.bind (ends_putValue2Reg _) fun _ => Settled.pure _
  · exact Settled.bind ends_tokenCount fun _ =>
      Settled.bind (ends_putValue2Reg _) fun _ => Settled.pure _

theorem ends_addFixUp (vec : List FixUps) (pcPos : Nat) :
    Ends n (addFixUp vec pcPos) (addFixUp vec pcPos) := by
  refine Settled.bind (Settled.bind Settled.get fun _ => ?_) fun _ =>
    Settled.bind Settled.get fun _ => Settled.pure _
  exact Settled.bind (Settled.deref _) fun _ => Settled.modify fun _ h => h

theorem ends_isBooleanIdentifier : Ends n isBooleanIdentifier isBooleanIdentifier := by
  unfold isBooleanIdentifier
  refine Settled.bind ends_tokenCount fun _ => Settled.bind (ends_getIdentifersCell _) fun cell => ?_
  cases cell with
  | none => exact Settled.pure _
  | some cell => exact Settled.pure _

/-- What `relation` does behind its first sum. -/
def behindTerm (ex : Production) (fuel : Nat) (r : Option Item × List FixUps) :
    P (Option Item × List FixUps) := do
  let (item, fixupMap) := r
  if (← currentType).startSetRelation then
    let item ← loadOperand (← deref item)
    let op ← relationOperator
    let (item2, fixupMap) ← term delayedCodeGen ex fuel fixupMap
    let item2 ← loadOperand (← deref item2)
    if item.type ≠ item2.type then
      syntaxError ("Cannot compare incompatible types in line: " ++ (← line))
    let pcPos ← genGet (·.relation op)
    return (some { item with inReg := false }, ← addFixUp fixupMap pcPos)
  else if (← get).condMode then
    let item ← deref item
    if item.mode = 2 ∧ item.type = some .boolType then
      let pcPos ← genGet (·.boolAss true item.val)
      return (some item, ← addFixUp fixupMap pcPos)
    else if ← isBooleanIdentifier then
      let _ ← putValue2Reg ((← tokenCount) - 1)
      let pcPos ← genGet (·.boolAss false item.val)
      return (some item, ← addFixUp fixupMap pcPos)
    else
      return (some item, fixupMap)
  else
    return (item, fixupMap)

theorem relation_eq (ex : Production) (fuel : Nat) (vec : List FixUps) :
    relation delayedCodeGen ex fuel vec = term delayedCodeGen ex fuel vec >>= behindTerm ex fuel := rfl

/-- What follows the operator of a relation. -/
theorem ends_comparison (hk : k ≤ n) (hfuel : n < fuel) (hfuel' : n < fuel') (h : Inside k ex ex')
    (item : Item) (vec : List FixUps) (op : OpCode) :
    Ends k
      (do
        let (item2, fixupMap) ← term delayedCodeGen ex fuel vec
        let item2 ← loadOperand (← deref item2)
        if item.type ≠ item2.type then
          syntaxError ("Cannot compare incompatible types in line: " ++ (← line))
        let pcPos ← genGet (·.relation op)
        return (some { item with inReg := false }, ← addFixUp fixupMap pcPos))
      (do
        let (item2, fixupMap) ← term delayedCodeGen ex' fuel' vec
        let item2 ← loadOperand (← deref item2)
        if item.type ≠ item2.type then
          syntaxError ("Cannot compare incompatible types in line: " ++ (← line))
        let pcPos ← genGet (·.relation op)
        return (some { item with inReg := false }, ← addFixUp fixupMap pcPos)) := by
  refine Settled.bind (spends_term hk hfuel hfuel' h _).ends fun r => ?_
  refine Settled.bind (Settled.deref _) fun item => Settled.bind (ends_loadOperand _) fun item => ?_
  refine ends_guard _ (Settled.bind (ends_genGet _) fun _ => ?_)
  exact Settled.bind (ends_addFixUp _ _) fun _ => Settled.pure _

theorem ends_behindTerm (hk : k ≤ n) (hfuel : n < fuel) (hfuel' : n < fuel') (h : Inside k ex ex')
    (r : Option Item × List FixUps) : Ends k (behindTerm ex fuel r) (behindTerm ex' fuel' r) := by
  unfold behindTerm
  have htest : ∀ (test : P Nat) (item : Item), Ends k test test →
      Ends k (do let pcPos ← test; return (some item, ← addFixUp r.2 pcPos))
        (do let pcPos ← test; return (some item, ← addFixUp r.2 pcPos)) := fun test item htest =>
    Settled.bind htest fun _ => Settled.bind (ends_addFixUp _ _) fun _ => Settled.pure _
  refine Settled.bind ends_currentType fun t => Settled.ite ?_ ?_
  · refine Settled.bind (Settled.deref _) fun item => Settled.bind (ends_loadOperand _) fun item => ?_
    exact Settled.bind ends_relationOperator fun op => ends_comparison hk hfuel hfuel' h item _ op
  · refine Settled.bind Settled.get fun s => Settled.ite ?_ (Settled.pure _)
    refine Settled.bind (Settled.deref _) fun item => Settled.ite (htest _ _ (ends_genGet _)) ?_
    refine Settled.bind ends_isBooleanIdentifier fun b => Settled.ite ?_ (Settled.pure _)
    refine Settled.bind ends_tokenCount fun _ => Settled.bind (ends_putValue2Reg _) fun _ => ?_
    exact htest _ _ (ends_genGet _)

/-- **A relation** ends, and passes the token it begins with. -/
theorem spends_relation (hk : k ≤ n) (hfuel : n < fuel) (hfuel' : n < fuel') (h : Inside k ex ex')
    (vec : List FixUps) : Spends StartsExpression k (relation delayedCodeGen ex fuel vec)
      (relation delayedCodeGen ex' fuel' vec) := by
  rw [relation_eq, relation_eq]
  exact (spends_term hk hfuel hfuel' h vec).bind fun j hj r =>
    ends_behindTerm (hj.trans hk) hfuel hfuel' (h.mono hj) r

/-! ## expressions -/

theorem fixAllButLast_ends (veci : List Nat) (and : Bool) :
    Ends n (fixAllButLast veci and) (fixAllButLast veci and) := ends_gen _

/-- A loop over the operands of an operator passes the operator in each turn. -/
theorem ends_operands {id : TokenID} (hid : id ≠ .tEof) {f f' : List FixUps → P (List FixUps)}
    (hf : ∀ j vec, j < k → Ends j (f vec) (f' vec)) (hfuel : k < fuel) (hfuel' : k < fuel')
    (vec : List FixUps) :
    Ends k
      (whileLoop (fun s => s.currentToken.type == id) (fun vec => do expect id; f vec) fuel vec)
      (whileLoop (fun s => s.currentToken.type == id) (fun vec => do expect id; f' vec) fuel' vec) := by
  refine Settled.whileLoop (fun s hcond => not_within_zero ?_) (fun j vec s hj hcond hs => ?_) hfuel
    hfuel'
  · rw [beq_iff_eq.mp hcond]
    exact hid
  · exact spends_expectThen (beq_iff_eq.mp hcond) hid hs (hf j vec hj)

/-- An operand of `&&`. -/
theorem ends_andOperand (hk : k ≤ n) (hfuel : n < fuel) (hfuel' : n < fuel') (h : Inside k ex ex')
    (vec : List FixUps) :
    Ends k
      (do
        let (veci, fixupMap) := selectJumps (← get).booleanLevel vec
        fixAllButLast veci true
        let (item, fixupMap) ← relation delayedCodeGen ex fuel fixupMap
        dropItem item
        return fixupMap)
      (do
        let (veci, fixupMap) := selectJumps (← get).booleanLevel vec
        fixAllButLast veci true
        let (item, fixupMap) ← relation delayedCodeGen ex' fuel' fixupMap
        dropItem item
        return fixupMap) := by
  refine Settled.bind Settled.get fun s => Settled.bind (fixAllButLast_ends _ _) fun _ => ?_
  refine Settled.bind (spends_relation hk hfuel hfuel' h _).ends ?_
  exact fun r => Settled.bind (ends_dropItem _) fun _ => Settled.pure _

theorem ends_andLoop (hk : k ≤ n) (hfuel : n < fuel) (hfuel' : n < fuel') (h : Inside k ex ex')
    (vec : List FixUps) : Ends k (andLoop delayedCodeGen ex fuel vec)
      (andLoop delayedCodeGen ex' fuel' vec) := by
  refine ends_operands (by decide) (fun j vec hj => ?_) (by omega) (by omega) vec
  exact ends_andOperand (by omega) hfuel hfuel' (h.mono (Nat.le_of_lt hj)) vec

theorem spends_andExpression (hk : k ≤ n) (hfuel : n < fuel) (hfuel' : n < fuel')
    (h : Inside k ex ex') (vec : List FixUps) :
    Spends StartsExpression k (andExpression delayedCodeGen ex fuel vec)
      (andExpression delayedCodeGen ex' fuel' vec) :=
  (spends_relation hk hfuel hfuel' h vec).bind fun _ hj _ =>
    Settled.bind (ends_andLoop (hj.trans hk) hfuel hfuel' (h.mono hj) _) fun _ => Settled.pure _

/-- An operand of `||`. -/
theorem ends_orOperand (hk : k ≤ n) (hfuel : n < fuel) (hfuel' : n < fuel') (h : Inside k ex ex')
    (vec : List FixUps) :
    Ends k
      (do
        let (veci, orMap) := selectJumps (← get).booleanLevel vec
        fixAllButLast veci false
        let last ← elementAt veci ((veci.length : Int) - 1)
        gen (·.fixOrJumps last true false)
        let (item, orMap) ← andExpression delayedCodeGen ex fuel orMap
        dropItem item
        return orMap)
      (do
        let (veci, orMap) := selectJumps (← get).booleanLevel vec
        fixAllButLast veci false
        let last ← elementAt veci ((veci.length : Int) - 1)
        gen (·.fixOrJumps last true false)
        let (item, orMap) ← andExpression delayedCodeGen ex' fuel' orMap
        dropItem item
        return orMap) := by
  refine Settled.bind Settled.get fun s => Settled.bind (fixAllButLast_ends _ _) fun _ => ?_
  refine Settled.bind (Settled.elementAt _ _) fun last => Settled.bind (ends_gen _) fun _ => ?_
  refine Settled.bind (spends_andExpression hk hfuel hfuel' h _).ends ?_
  exact fun r => Settled.bind (ends_dropItem _) fun _ => Settled.pure _

theorem ends_orLoop (hk : k ≤ n) (hfuel : n < fuel) (hfuel' : n < fuel') (h : Inside k ex ex')
    (vec : List FixUps) : Ends k (orLoop delayedCodeGen ex fuel vec)
      (orLoop delayedCodeGen ex' fuel' vec) := by
  refine ends_operands (by decide) (fun j vec hj => ?_) (by omega) (by omega) vec
  exact ends_orOperand (by omega) hfuel hfuel' (h.mono (Nat.le_of_lt hj)) vec

theorem spends_expressionBody (hk : k ≤ n) (hfuel : n < fuel) (hfuel' : n < fuel')
    (h : Inside k ex ex') (vec : List FixUps) :
    Spends StartsExpression k (expressionBody delayedCodeGen ex fuel vec)
      (expressionBody delayedCodeGen ex' fuel' vec) := by
  refine Spends.modify (fun _ => rfl) (fun _ _ h => h)
    ((spends_andExpression hk hfuel hfuel' h vec).bind fun j hj r => ?_)
  refine Settled.bind (ends_orLoop (hj.trans hk) hfuel hfuel' (h.mono hj) _) fun orMap => ?_
  exact Settled.bind (Settled.modify fun _ h => h) fun _ => Settled.pure _

/-- **An expression** ends, and passes the token it begins with. -/
theorem spends_expression : ∀ {fuel fuel' n : Nat} (vec : List FixUps), n + 1 < fuel →
    n + 1 < fuel' → Spends StartsExpression n (expression delayedCodeGen fuel vec)
      (expression delayedCodeGen fuel' vec) := by
  intro fuel
  induction fuel with
  | zero => exact fun _ h => absurd h (Nat.not_lt_zero _)
  | succ fuel ih =>
    intro fuel' n vec hfuel hfuel'
    obtain ⟨fuel', rfl⟩ : ∃ x, fuel' = x + 1 := ⟨fuel' - 1, by omega⟩
    exact spends_expressionBody (Nat.le_refl n) (by omega) (by omega)
      (fun k hk vec => ih vec (by omega) (by omega)) vec

/-- Enough fuel is enough for the expressions inside. -/
theorem inside_expression (hfuel : n < fuel) (hfuel' : n < fuel') :
    Inside n (expression delayedCodeGen fuel) (expression delayedCodeGen fuel') :=
  fun k hk vec => spends_expression vec (by omega) (by omega)

end Compiler.Parser
