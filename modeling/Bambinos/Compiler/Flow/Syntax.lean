import Mathlib
import Bambinos.Compiler.TokenRuns

/-!
# Assignments, conditions and loops

The statements of a method body that is made of assignments, `while`, `if` and `if`-`else`, and
what they mean.

* `lexemes` — how they are written. `&&` and `||` are mixed with brackets only
* `eval` — a condition; the right operands of `&&` and `||` are looked at only when they matter, and
  a comparison has a value when the difference of its operands is an `int`
* `Config.next` — a step of a program: an assignment, or a test of a condition
-/

namespace Compiler.Flow

open Infra

/-! ## syntax -/

/-- A variable or a number. -/
inductive Operand where
  | variable (name : String)
  | literal (n : Nat)
deriving DecidableEq, Repr

inductive Rel where
  | eq | ne | lt | le | gt | ge
deriving DecidableEq, Repr

structure Comparison where
  first : Operand
  rel : Rel
  second : Operand
deriving DecidableEq, Repr

inductive Connective where
  | and | or
deriving DecidableEq, Repr

mutual

/-- An operand of `&&` or `||`. -/
inductive Junct where
  | comparison (c : Comparison)
  | brackets (k : Connective) (js : Juncts)

/-- The operands that one connective joins. -/
inductive Juncts where
  | last (j : Junct)
  | cons (j : Junct) (js : Juncts)

end

structure Condition where
  connective : Connective
  operands : Juncts

inductive Stmt where
  | assign (name : String) (value : Operand)
  | whileDo (cond : Condition) (body : List Stmt)
  | ifThen (cond : Condition) (body : List Stmt)
  | ifElse (cond : Condition) (body alternative : List Stmt)

/-! ## tokens -/

def Operand.lexeme : Operand → Lexeme
  | .variable name => (.tSident, some (.text name))
  | .literal n => (.tNumber, some (.number n))

def Rel.lexemes : Rel → List Lexeme
  | eq => [(.tEql, none), (.tEql, none)]
  | ne => [(.tNot, none), (.tEql, none)]
  | lt => [(.tLss, none)]
  | le => [(.tLeq, none)]
  | gt => [(.tGtr, none)]
  | ge => [(.tGeq, none)]

def Comparison.lexemes (c : Comparison) : List Lexeme :=
  c.first.lexeme :: (c.rel.lexemes ++ [c.second.lexeme])

def Connective.token : Connective → TokenID
  | and => .tAnd
  | or => .tOr

mutual

def Junct.lexemes : Junct → List Lexeme
  | .comparison c => c.lexemes
  | .brackets k js => (.tLparen, none) :: (js.lexemes k ++ [(.tRparen, none)])

def Juncts.lexemes (k : Connective) : Juncts → List Lexeme
  | .last j => j.lexemes
  | .cons j js => j.lexemes ++ (k.token, none) :: js.lexemes k

end

def Condition.lexemes (c : Condition) : List Lexeme := c.operands.lexemes c.connective

mutual

def Stmt.lexemes : Stmt → List Lexeme
  | .assign name value =>
    [(.tSident, some (.text name)), (.tEql, none), value.lexeme, (.tSemicolon, none)]
  | .whileDo cond body =>
    (.tWhile, none) :: (.tLparen, none) :: (cond.lexemes ++ (.tRparen, none) :: (.tLbraces, none) ::
      (blockLexemes body ++ [(.tRbraces, none)]))
  | .ifThen cond body =>
    (.tIf, none) :: (.tLparen, none) :: (cond.lexemes ++ (.tRparen, none) :: (.tLbraces, none) ::
      (blockLexemes body ++ [(.tRbraces, none)]))
  | .ifElse cond body alternative =>
    (.tIf, none) :: (.tLparen, none) :: (cond.lexemes ++ (.tRparen, none) :: (.tLbraces, none) ::
      (blockLexemes body ++ (.tRbraces, none) :: (.tElse, none) :: (.tLbraces, none) ::
        (blockLexemes alternative ++ [(.tRbraces, none)])))

def blockLexemes : List Stmt → List Lexeme
  | [] => []
  | s :: rest => s.lexemes ++ blockLexemes rest

end

/-! ## meaning -/

/-- The values of the variables. -/
abbrev Store := String → Word

def Operand.value (σ : Store) : Operand → Word
  | .variable name => σ name
  | .literal n => BitVec.ofNat 32 n

def Rel.holds (a b : Int) : Rel → Bool
  | eq => decide (a = b)
  | ne => decide (a ≠ b)
  | lt => decide (a < b)
  | le => decide (a ≤ b)
  | gt => decide (b < a)
  | ge => decide (b ≤ a)

/-- Undefined when the difference of the operands overflows. -/
def Comparison.eval (σ : Store) (c : Comparison) : Option Bool :=
  let a := (c.first.value σ).toInt
  let b := (c.second.value σ).toInt
  if int32 (a - b) = a - b then some (c.rel.holds a b) else none

/-- The value of an operand that makes the other operands irrelevant. -/
def Connective.decisive : Connective → Bool
  | and => false
  | or => true

mutual

def Junct.eval (σ : Store) : Junct → Option Bool
  | .comparison c => c.eval σ
  | .brackets k js => js.eval σ k

def Juncts.eval (σ : Store) (k : Connective) : Juncts → Option Bool
  | .last j => j.eval σ
  | .cons j js => (j.eval σ).bind fun b => if b = k.decisive then some b else js.eval σ k

end

def Condition.eval (σ : Store) (c : Condition) : Option Bool := c.operands.eval σ c.connective

/-- What is left to do, and the values of the variables. -/
structure Config where
  todo : List Stmt
  store : Store

namespace Config

/-- A step, with the assignment that it makes. Nothing is next when nothing is left to do. -/
def next (c : Config) : Option (List (String × Word) × Config) :=
  match c.todo with
  | [] => none
  | .assign name value :: rest =>
    let v := value.value c.store
    some ([(name, v)], ⟨rest, Function.update c.store name v⟩)
  | .whileDo cond body :: rest =>
    (cond.eval c.store).map fun b =>
      ([], ⟨if b then body ++ .whileDo cond body :: rest else rest, c.store⟩)
  | .ifThen cond body :: rest =>
    (cond.eval c.store).map fun b => ([], ⟨if b then body ++ rest else rest, c.store⟩)
  | .ifElse cond body alternative :: rest =>
    (cond.eval c.store).map fun b =>
      ([], ⟨if b then body ++ rest else alternative ++ rest, c.store⟩)

/-- A step as a relation. -/
def Step (c : Config) (es : List (String × Word)) (c' : Config) : Prop := c.next = some (es, c')

end Config

/-! ## the variables of a program -/

/-- A number has to be an operand of an instruction, a variable has to be known. -/
def Operand.Uses (known : String → Prop) : Operand → Prop
  | .variable name => known name
  | .literal n => n ≤ 32767

def Comparison.Uses (known : String → Prop) (c : Comparison) : Prop :=
  c.first.Uses known ∧ c.second.Uses known

mutual

def Junct.Uses (known : String → Prop) : Junct → Prop
  | .comparison c => c.Uses known
  | .brackets _ js => js.Uses known

def Juncts.Uses (known : String → Prop) : Juncts → Prop
  | .last j => j.Uses known
  | .cons j js => j.Uses known ∧ js.Uses known

end

def Condition.Uses (known : String → Prop) (c : Condition) : Prop := c.operands.Uses known

mutual

def Stmt.Uses (known : String → Prop) : Stmt → Prop
  | .assign name value => known name ∧ value.Uses known
  | .whileDo cond body => cond.Uses known ∧ blockUses known body
  | .ifThen cond body => cond.Uses known ∧ blockUses known body
  | .ifElse cond body alternative =>
    cond.Uses known ∧ blockUses known body ∧ blockUses known alternative

def blockUses (known : String → Prop) : List Stmt → Prop
  | [] => True
  | s :: rest => s.Uses known ∧ blockUses known rest

end

end Compiler.Flow
