import Bambinos.Compiler.ConstantLoads
import Bambinos.Compiler.WideOperands

/-!
# Where a folded constant is loaded

* `Context` — the places where an expression is loaded
* `Context.Loads` — the caller writes the constant into the next register
* `Context.Finds` — the expressions for which it does
* `constant_loaded_iff` — the one holds exactly when the other does
-/

namespace Compiler.Folding

open Infra
open Compiler.Parser

/-! ## contexts -/

/-- A place where an expression is loaded. -/
inductive Context where
  | assignment
  | initialiser (type : TokenID) (name : String)
  | returned
  | firstArgument
  | argument
  | index (cell : SymbolTableCell)
  /-- Of a comparison, behind the jumps `vec` of the same condition. -/
  | operand (vec : List FixUps)

namespace Context

/-- The tokens that the caller passes in front of the expression. -/
def before : Context → List Lexeme
  | assignment => [(.tEql, none)]
  | initialiser type name => [(type, none), (.tSident, some (.text name)), (.tEql, none)]
  | returned => [(.tReturn, none)]
  | index _ => [(.tLbrack, none)]
  | firstArgument | argument | operand _ => []

/-- The token behind the expression. -/
def EndsAt (c : Context) (id : TokenID) : Prop :=
  match c with
  | returned => id = .tSemicolon
  | index _ => id = .tRbrack
  | operand _ => EndsTerm id
  | _ => EndsExpression id

/-- What the caller needs besides: a type, or a declared array. -/
def Declared (c : Context) (s : ParserState) : Prop :=
  match c with
  | initialiser type _ => type.startSetPrimitive = true
  | index cell => ArrayNamed s cell
  | _ => True

/-- The caller begins, and its expression is `e`. -/
structure Faces (c : Context) (e : Constant) (s : ParserState) (l l' : Lexeme)
    (more : List Lexeme) : Prop where
  ahead : s.ahead = c.before ++ (e.lexemes ++ l :: l' :: more)
  ends : c.EndsAt l.1
  next : l'.1 ≠ .tError
  plain : s.Plain
  declared : c.Declared s

/-- What parses the expression. -/
def reader (fuel : Nat) : Context → P (Option Item)
  | operand vec => do return (← term delayedCodeGen (expression delayedCodeGen fuel) fuel vec).1
  | _ => newExpression fuel

/-- Parsed by the same production, the expression yields an item of mode 2 with the value `v`. -/
def YieldsConstant (c : Context) (fuel : Nat) (e : Constant) (stop : List Lexeme) (v : Int) : Prop :=
  ∃ s item s', s.ahead = e.lexemes ++ stop ∧ s.Plain ∧ s.countTLBRACES ≤ 2 ∧
    c.reader fuel s = .ok (some item) s' ∧ s'.ahead = stop ∧ item.mode = 2 ∧ item.val = v

/-- A production returns, and the code is `g`. -/
def Writes {α : Type} (m : P α) (s : ParserState) (g : CodeGenerator) : Prop :=
  ∃ a s', m s = .ok a s' ∧ s'.cg = g

/-- The caller loads the constant `v` into the next register, and does what it does with it. -/
def Loads (c : Context) (fuel : Nat) (s : ParserState) (v : Int) : Prop :=
  let g := s.cg.addI v
  match c with
  | assignment => Writes (assignmentSuffix fuel) s g
  | initialiser _ _ => Writes (Folding.initialiser fuel) s g
  | returned => Writes (returnStatement fuel) s (g.methodCall (-43)).2
  | firstArgument => Writes (Folding.firstArgument fuel) s g.pushRegister
  | argument => Writes (Parser.argument (expression delayedCodeGen fuel)) s g.pushRegister
  | index cell => Writes (arraySelector (expression delayedCodeGen fuel)) s (g.selectElement cell)
  | operand vec => Writes (Folding.operand fuel vec) s g

/--
The expressions whose constant the caller finds. An assignment looks for the last number, and that has
the value of the brackets it is in; the others look at the last token.
-/
def Finds (c : Context) (e : Constant) : Prop :=
  match c with
  | assignment | initialiser _ _ => e.trailing.fold = e.fold
  | returned | argument | operand _ => e.bracketed = false
  | firstArgument | index _ => e.opens = false

end Context

section Contexts

variable {α : Type} {c : Context} {e : Constant} {v : Int} {fuel : Nat} {s : ParserState}
  {l l' : Lexeme} {more stop : List Lexeme} {g : CodeGenerator} {m : P α}

theorem rbrack_ends : EndsExpression .tRbrack :=
  ⟨⟨by decide, by decide, by decide, by decide⟩, by decide, by decide, by decide, by decide, by decide⟩

theorem EndsTerm.goesOn {id : TokenID} (h : EndsTerm id) (hid : ¬ EndsExpression id) : GoesOn id := by
  by_contra hgoes
  unfold GoesOn at hgoes
  push Not at hgoes
  exact hid ⟨h.1, h.2.1, h.2.2, Bool.eq_false_iff.mpr hgoes.1, hgoes.2.1, hgoes.2.2⟩

/-- A chain that is the operand of a comparison stops where an expression does. -/
theorem wide_ends {vec : List FixUps} {r : Option Item × List FixUps} {s' : ParserState}
    (h : s.ahead = e.lexemes ++ l :: more) (hl : EndsTerm l.1) (hplain : s.Plain)
    (hb : s.countTLBRACES ≤ 2) (hlen : s.ahead.length < fuel)
    (hrun : term delayedCodeGen (expression delayedCodeGen fuel) fuel vec s = .ok r s')
    (hstop : s'.ahead = l :: more) (hwide : e.wide = true) : EndsExpression l.1 := by
  by_contra hno
  have hgoes := hl.goesOn hno
  obtain ⟨fuel, rfl⟩ : ∃ k, fuel = k + 1 := ⟨fuel - 1, by omega⟩
  have hpasses : Yields (term delayedCodeGen (expression delayedCodeGen (fuel + 1)) (fuel + 1) vec) s
      True (Leaves more.length) :=
    term_passes (expression_passes (fuel + 1)) (by omega) (Nat.le_refl _) h hgoes hplain hb hwide
  exact not_within_of_ahead hstop hgoes.ne_eof (hpasses.of_eq_ok hrun)

theorem Context.reader_operand {vec : List FixUps} {item : Option Item} {s' : ParserState}
    (h : (operand vec).reader fuel s = .ok item s') :
    ∃ r vec', term delayedCodeGen (expression delayedCodeGen fuel) fuel vec s = .ok (r, vec') s' ∧
      r = item := by
  have hread : (operand vec).reader fuel s =
      (term delayedCodeGen (expression delayedCodeGen fuel) fuel vec >>= fun r => pure r.1) s := rfl
  rw [hread] at h
  cases hterm : term delayedCodeGen (expression delayedCodeGen fuel) fuel vec s with
  | error x s₁ =>
    rw [bind_error hterm] at h
    cases h
  | ok r s₁ =>
    rw [bind_ok hterm] at h
    injection h with hitem hstate
    exact ⟨r.1, r.2, by rw [hstate], hitem⟩

/-- The operand of a comparison takes nothing along. -/
theorem Context.YieldsConstant.ends {vec : List FixUps}
    (h : (operand vec).YieldsConstant fuel e (l :: more) v) (hl : EndsTerm l.1)
    (hlen : e.lexemes.length + (more.length + 1) < fuel) (hwide : e.wide = true) :
    EndsExpression l.1 := by
  obtain ⟨s, item, s', hahead, hplain, hb, hrun, hstop, -⟩ := h
  obtain ⟨item', vec', hterm, -⟩ := reader_operand hrun
  refine wide_ends hahead hl hplain hb ?_ hterm hstop hwide
  rw [hahead, List.length_append, List.length_cons]
  exact hlen

/-- What the parser yields is what the expression is folded to. -/
theorem Context.YieldsConstant.fold (h : c.YieldsConstant fuel e (l :: more) v)
    (hl : c.EndsAt l.1) (hlen : e.lexemes.length + (more.length + 1) < fuel) : e.fold = some v := by
  have hwhole := h
  obtain ⟨s, item, s', hahead, hplain, hb, hrun, -, -, hval⟩ := h
  have hexpression : EndsExpression l.1 → newExpression fuel s = .ok (some item) s' →
      e.fold = some v := by
    intro hends hrun
    obtain ⟨item', y, ts, heq, hitem, hfold, -⟩ := (freshExpression_folds (expression_folds fuel)
      (by omega) hahead hends hplain).of_eq_ok hrun
    obtain rfl := Option.some.inj heq
    rw [hfold, ← hval, hitem.2.2]
  cases c with
  | returned => exact hexpression ((show l.1 = .tSemicolon from hl) ▸ semicolon_ends) hrun
  | index cell => exact hexpression ((show l.1 = .tRbrack from hl) ▸ rbrack_ends) hrun
  | operand vec =>
    obtain ⟨item', vec', hterm, rfl⟩ := reader_operand hrun
    obtain ⟨fuel, rfl⟩ : ∃ k, fuel = k + 1 := ⟨fuel - 1, by omega⟩
    obtain ⟨item', vec₁, y, ts, heq, hitem, hfold, -⟩ := (term_folds (expression_folds (fuel + 1))
      (by omega) hahead hl (hwhole.ends hl hlen) hplain).of_eq_ok hterm
    injection heq with heq
    obtain rfl := Option.some.inj heq
    rw [hfold, ← hval, hitem.2.2]
  | _ => exact hexpression hl hrun

/-! ## what is written -/

theorem Context.writes_iff {a : α} {s₁ : ParserState} (h : m s = .ok a s₁) :
    Writes m s g ↔ s₁.cg = g := by
  constructor
  · rintro ⟨a', s', hrun, hcg⟩
    rw [h] at hrun
    injection hrun with _ hstate
    rw [hstate, hcg]
  · exact fun hcg => ⟨a, s₁, h, hcg⟩

theorem Context.not_writes {x : Throwable} (h : ∃ s₁, m s = .error x s₁) : ¬ Writes m s g := by
  rintro ⟨a, s', hrun, -⟩
  obtain ⟨s₁, h⟩ := h
  rw [h] at hrun
  cases hrun

/-- The constant can be read off the last instruction. -/
theorem addI_inj {a b : Int} : g.addI a = g.addI b ↔ a = b := by
  refine ⟨fun h => ?_, fun h => by rw [h]⟩
  have hcode := List.append_cancel_left (congrArg CodeGenerator.opCode h)
  exact congrArg OpCodeElement.c (List.singleton_inj.mp hcode)

theorem selectElement_length (g : CodeGenerator) (cell : SymbolTableCell) :
    g.opCode.length ≤ (g.selectElement cell).opCode.length := by
  have hput : ∀ (g : CodeGenerator) code, g.opCode.length ≤ (g.putOpCode code).opCode.length :=
    fun g code => by
      rw [CodeGenerator.putOpCode, List.length_append]
      exact Nat.le_add_right _ _
  unfold CodeGenerator.selectElement CodeGenerator.invertValofLastReg CodeGenerator.putImOp2Reg
  dsimp only
  split
  · split
    · exact (hput _ _).trans (hput _ _)
    · exact hput _ _
  · split
    · exact hput _ _
    · exact Nat.le_refl _

/-- An index that is loaded is more code. -/
theorem ne_selectElement (g : CodeGenerator) (cell : SymbolTableCell) :
    g ≠ (g.addI v).selectElement cell := by
  intro h
  have hlen := congrArg (fun g => g.opCode.length) h
  have hselect := selectElement_length (g.addI v) cell
  have hload : (g.addI v).opCode.length = g.opCode.length + 1 := List.length_append
  omega

theorem ne_pushRegister (g : CodeGenerator) : g ≠ (g.addI v).pushRegister := by
  intro h
  have hlen := congrArg (fun g => g.opCode.length) h
  have hload : (g.addI v).opCode.length = g.opCode.length + 1 := List.length_append
  have hpush : (g.addI v).pushRegister.opCode.length = (g.addI v).opCode.length + 1 :=
    List.length_append
  omega

theorem Context.writes_iff_false {shape : Bool} (hrun : shape = false → Writes m s g)
    (hno : shape = true → ¬ Writes m s g) : Writes m s g ↔ shape = false := by
  cases shape with
  | false => exact iff_of_true (hrun rfl) rfl
  | true => exact iff_of_false (hno rfl) (by decide)

/-! ## where it is found -/

theorem assignment_writes_iff (hfold : e.fold = some v) (hlen : e.lexemes.length < fuel)
    (h : s.ahead = (.tEql, none) :: (e.lexemes ++ l :: more)) (hl : EndsExpression l.1)
    (hplain : s.Plain) :
    Context.Writes (assignmentSuffix fuel) s (s.cg.addI v) ↔ e.trailing.fold = e.fold := by
  obtain ⟨item, a, s₁, hrun, ha, hcg⟩ := assignmentSuffix_run hfold hlen h hl hplain
  rw [Context.writes_iff hrun, hcg, addI_inj, ha, hfold, Option.some_inj]

theorem initialiser_writes_iff {id : TokenID} {name : String} (hfold : e.fold = some v)
    (hlen : e.lexemes.length < fuel)
    (h : s.ahead = (id, none) :: (.tSident, some (.text name)) :: (.tEql, none) ::
      (e.lexemes ++ l :: more))
    (hid : id.startSetPrimitive = true) (hl : EndsExpression l.1) (hplain : s.Plain) :
    Context.Writes (initialiser fuel) s (s.cg.addI v) ↔ e.trailing.fold = e.fold := by
  obtain ⟨r, a, s₁, hrun, ha, hcg⟩ := initialiser_run hfold hlen h hid hl hplain
  rw [Context.writes_iff hrun, hcg, addI_inj, ha, hfold, Option.some_inj]

theorem returned_writes_iff (hfold : e.fold = some v) (hlen : e.lexemes.length < fuel)
    (h : s.ahead = (.tReturn, none) :: (e.lexemes ++ l :: l' :: more)) (hl : l.1 = .tSemicolon)
    (herr : l'.1 ≠ .tError) (hplain : s.Plain) :
    Context.Writes (returnStatement fuel) s ((s.cg.addI v).methodCall (-43)).2 ↔
      e.bracketed = false := by
  refine Context.writes_iff_false (fun hshape => ?_) fun hshape => ?_
  · obtain ⟨s₁, hrun, hcg⟩ := returnStatement_run hfold hlen h hl herr hplain hshape
    exact ⟨(), s₁, hrun, hcg⟩
  · exact Context.not_writes (returnStatement_error hfold hlen h hl hplain hshape)

theorem argument_writes_iff (hfold : e.fold = some v) (hlen : e.lexemes.length < fuel)
    (h : s.ahead = e.lexemes ++ l :: more) (hl : EndsExpression l.1) (hplain : s.Plain) :
    Context.Writes (argument (expression delayedCodeGen fuel)) s (s.cg.addI v).pushRegister ↔
      e.bracketed = false := by
  refine Context.writes_iff_false (fun hshape => ?_) fun hshape => ?_
  · obtain ⟨s₁, hrun, hcg⟩ := argument_run hfold hlen h hl hplain hshape
    exact ⟨(), s₁, hrun, hcg⟩
  · exact Context.not_writes (argument_error hfold hlen h hl hplain hshape)

/-- The first argument is left out if it begins with a bracket. -/
theorem firstArgument_writes_iff (hfold : e.fold = some v) (hlen : e.lexemes.length < fuel)
    (h : s.ahead = e.lexemes ++ l :: more) (hl : EndsExpression l.1) (hplain : s.Plain) :
    Context.Writes (firstArgument fuel) s (s.cg.addI v).pushRegister ↔ e.opens = false := by
  refine Context.writes_iff_false (fun hshape => ?_) fun hshape => ?_
  · have hbracketed : e.bracketed = false := by
      by_contra hb
      rw [Bool.not_eq_false] at hb
      rw [Constant.opens_of_bracketed hb] at hshape
      cases hshape
    obtain ⟨s₁, hrun, hcg⟩ := argument_run hfold hlen h hl hplain hbracketed
    obtain ⟨l₁, ls₁, heq, hstart⟩ := e.lexemes_of_not_opens hshape (l :: more)
    rw [heq] at h
    refine ⟨(), s₁, ?_, hcg⟩
    unfold firstArgument
    rw [bind_ok (currentType_eq s), ParserState.currentToken_type h, hstart, if_pos rfl, hrun]
  · obtain ⟨ls, heq⟩ := e.lexemes_of_opens hshape (l :: more)
    rw [heq] at h
    have hrun : firstArgument fuel s = .ok () s := by
      unfold firstArgument
      rw [bind_ok (currentType_eq s), ParserState.currentToken_type h]
      rfl
    rw [Context.writes_iff hrun]
    exact ne_pushRegister s.cg

/-- An index is left out if it begins with a bracket. -/
theorem index_writes_iff {cell : SymbolTableCell} (hfold : e.fold = some v)
    (hlen : e.lexemes.length < fuel)
    (h : s.ahead = (.tLbrack, none) :: (e.lexemes ++ l :: l' :: more)) (hl : l.1 = .tRbrack)
    (herr : l'.1 ≠ .tError) (hplain : s.Plain) (harray : ArrayNamed s cell) :
    Context.Writes (arraySelector (expression delayedCodeGen fuel)) s
      ((s.cg.addI v).selectElement cell) ↔ e.opens = false := by
  refine Context.writes_iff_false (fun hshape => ?_) fun hshape => ?_
  · obtain ⟨item, s₁, hrun, hcg⟩ := arraySelector_run hfold hlen h hl herr hplain harray hshape
    exact ⟨item, s₁, hrun, hcg⟩
  · obtain ⟨s₁, hrun, hcg⟩ := arraySelector_opens h hplain hshape
    rw [Context.writes_iff hrun, hcg]
    exact ne_selectElement s.cg cell

theorem operand_writes_iff {vec : List FixUps} (hfold : e.fold = some v)
    (hlen : e.lexemes.length < fuel) (h : s.ahead = e.lexemes ++ l :: more) (hl : EndsTerm l.1)
    (hwide : e.wide = true → EndsExpression l.1) (hplain : s.Plain) :
    Context.Writes (operand fuel vec) s (s.cg.addI v) ↔ e.bracketed = false := by
  refine Context.writes_iff_false (fun hshape => ?_) fun hshape => ?_
  · obtain ⟨r, s₁, hrun, hcg⟩ := operand_run hfold hlen h hl hwide hplain hshape
    exact ⟨r, s₁, hrun, hcg⟩
  · exact Context.not_writes (operand_error hfold hlen h hl hwide hplain hshape)

/-- The constant is loaded exactly where it is found. -/
theorem loads_iff_finds (hyields : c.YieldsConstant fuel e (l :: l' :: more) v)
    (hfaces : c.Faces e s l l' more) (hfuel : s.ahead.length < fuel) :
    c.Loads fuel s v ↔ c.Finds e := by
  have hahead := hfaces.ahead
  have hlength : e.lexemes.length + ((l' :: more).length + 1) < fuel := by
    have hcount := congrArg List.length hahead
    simp only [List.length_append, List.length_cons] at hcount ⊢
    omega
  have hlen : e.lexemes.length < fuel := by omega
  have hfold := hyields.fold hfaces.ends hlength
  have hplain := hfaces.plain
  cases c with
  | assignment => exact assignment_writes_iff hfold hlen hahead hfaces.ends hplain
  | initialiser type name =>
    exact initialiser_writes_iff hfold hlen hahead hfaces.declared hfaces.ends hplain
  | returned => exact returned_writes_iff hfold hlen hahead hfaces.ends hfaces.next hplain
  | firstArgument => exact firstArgument_writes_iff hfold hlen hahead hfaces.ends hplain
  | argument => exact argument_writes_iff hfold hlen hahead hfaces.ends hplain
  | index cell =>
    exact index_writes_iff hfold hlen hahead hfaces.ends hfaces.next hplain hfaces.declared
  | operand vec =>
    exact operand_writes_iff hfold hlen hahead hfaces.ends (hyields.ends hfaces.ends hlength) hplain

/-- An expression that is folded yields its constant. -/
theorem Context.yieldsConstant (hfold : e.fold = some v) (h : s.ahead = e.lexemes ++ l :: more)
    (hl : EndsExpression l.1) (hplain : s.Plain) (hb : s.countTLBRACES ≤ 2)
    (hlen : e.lexemes.length < fuel) : c.YieldsConstant fuel e (l :: more) v := by
  have hexpression : ∃ item s', newExpression fuel s = .ok (some item) s' ∧ s'.ahead = l :: more ∧
      item.mode = 2 ∧ item.val = v := by
    obtain ⟨item, s₁, ts, hrun, hitem, hpassed, -⟩ := newExpression_run hfold hlen h hl hplain
    exact ⟨item, s₁, hrun, hpassed.ahead, hitem.1, hitem.2.2⟩
  cases c with
  | operand vec =>
    obtain ⟨fuel, rfl⟩ : ∃ k, fuel = k + 1 := ⟨fuel - 1, by omega⟩
    have hterm : Yields (term delayedCodeGen (expression delayedCodeGen (fuel + 1)) (fuel + 1) vec)
        s _ _ := term_folds (expression_folds (fuel + 1)) (by omega) h
      ⟨hl.1, hl.2.1, hl.2.2.1⟩ (fun _ => hl) hplain
    obtain ⟨r, s₁, hrun, item, vec₁, y, ts, rfl, hitem, hy, hpassed, -⟩ :=
      hterm.exists_ok (by rw [hfold]; exact Option.some_ne_none v)
    obtain rfl : v = y := Option.some.inj (hfold.symm.trans hy)
    exact ⟨s, item, s₁, h, hplain, hb, bind_ok hrun, hpassed.ahead, hitem.1, hitem.2.2⟩
  | _ =>
    obtain ⟨item, s', hrun, hrest⟩ := hexpression
    exact ⟨s, item, s', h, hplain, hb, hrun, hrest⟩

/--
**A folded constant is loaded exactly where it is found.** In an assignment or an initialiser that is
where the last number is in brackets with the value of the whole expression, or in none. An expression
that is one pair of brackets is not found as an operand, as an argument or behind `return`. An index
and a first argument are not even parsed if they begin with a bracket.
-/
theorem constant_loaded_iff (hyields : c.YieldsConstant fuel e (l :: l' :: more) v)
    (hfaces : c.Faces e s l l' more) (hfuel : s.ahead.length < fuel) :
    c.Loads fuel s v ↔ c.Finds e := loads_iff_finds hyields hfaces hfuel

end Contexts

/-! ## examples -/

/-- `(1 + 2) * (3 + 4)` -/
def productOfBrackets : Constant :=
  .cons false (.paren (.cons false (.number 1) .add (.one false (.number 2)))) .mul
    (.one false (.paren (.cons false (.number 3) .add (.one false (.number 4)))))

/-- `2 * 3` -/
def twoTimesThree : Constant := .cons false (.number 2) .mul (.one false (.number 3))

/-- The end of a statement and of the file. -/
def semicolonEof : List Lexeme := [(.tSemicolon, none), (.tEof, none)]

theorem reading_plain {ls : List Lexeme} (h : ∀ l ∈ ls, l.1 = .tRparen → l.2 = none) :
    (reading ls).Plain := by
  intro t ht htype n hvalue
  cases ls with
  | nil =>
    obtain rfl : t = Ident.eof 1 := List.mem_singleton.mp ht
    cases htype
  | cons l ls =>
    have hmem : t ∈ (l :: ls).map fun l => ({ type := l.1, value := l.2, lineNumber := 1 } : Ident) := ht
    obtain ⟨l', hl', rfl⟩ := List.mem_map.mp hmem
    rw [h l' hl' htype] at hvalue
    cases hvalue

theorem constant_loaded_iff_return :
    Context.returned.Loads 10 (reading ((.tReturn, none) :: (twoTimesThree.lexemes ++ semicolonEof)))
      6 := by
  have hyields : Context.returned.YieldsConstant 10 twoTimesThree semicolonEof 6 :=
    Context.yieldsConstant (s := reading (twoTimesThree.lexemes ++ semicolonEof)) (by decide) rfl
      semicolon_ends (reading_plain (by decide)) (by decide) (by decide)
  have hfaces : Context.returned.Faces twoTimesThree
      (reading ((.tReturn, none) :: (twoTimesThree.lexemes ++ semicolonEof)))
      (.tSemicolon, none) (.tEof, none) [] :=
    ⟨rfl, rfl, by decide, reading_plain (by decide), trivial⟩
  exact (constant_loaded_iff hyields hfaces (by decide)).mpr rfl

/-- `x = (1 + 2) * (3 + 4);` loads 7 and not 21. -/
theorem productOfBrackets_assigned :
    Context.assignment.YieldsConstant 20 productOfBrackets semicolonEof 21 ∧
    Context.assignment.Faces productOfBrackets
      (reading ((.tEql, none) :: (productOfBrackets.lexemes ++ semicolonEof)))
      (.tSemicolon, none) (.tEof, none) [] ∧
    Context.assignment.Loads 20
      (reading ((.tEql, none) :: (productOfBrackets.lexemes ++ semicolonEof))) 7 ∧
    ¬ Context.assignment.Loads 20
      (reading ((.tEql, none) :: (productOfBrackets.lexemes ++ semicolonEof))) 21 := by
  have hyields : Context.assignment.YieldsConstant 20 productOfBrackets semicolonEof 21 :=
    Context.yieldsConstant (s := reading (productOfBrackets.lexemes ++ semicolonEof)) (by decide) rfl
      semicolon_ends (reading_plain (by decide)) (by decide) (by decide)
  have hfaces : Context.assignment.Faces productOfBrackets
      (reading ((.tEql, none) :: (productOfBrackets.lexemes ++ semicolonEof)))
      (.tSemicolon, none) (.tEof, none) [] :=
    ⟨rfl, semicolon_ends, by decide, reading_plain (by decide), trivial⟩
  refine ⟨hyields, hfaces, ?_, fun hloads => ?_⟩
  · obtain ⟨item, a, s₁, hrun, ha, hcg⟩ := assignmentSuffix_run (e := productOfBrackets) (v := 21)
      (by decide) (show productOfBrackets.lexemes.length < 20 by decide) hfaces.ahead hfaces.ends
      hfaces.plain
    obtain rfl : 7 = a := Option.some.inj ha
    exact ⟨item, s₁, hrun, hcg⟩
  · have hfinds := (loads_iff_finds hyields hfaces (by decide)).mp hloads
    exact absurd hfinds
      (show ¬ productOfBrackets.trailing.fold = productOfBrackets.fold by decide)

end Compiler.Folding
