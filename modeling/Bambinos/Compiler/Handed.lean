import Bambinos.Compiler.Arithmetic
import Bambinos.Compiler.OperandOrder
import Bambinos.Vm.Registers

/-!
# The code of an expression

An expression as the parser groups it, with the brackets: a variable in brackets is still to be
loaded, but is found no more.

* `Term.handed` — the reading of the parser; without the brackets it is `grouped`
* `Handed.code`, `Handed.place` — the code of all operations, and where the value is then
* `Handed.exchanged` — the operations with their operands as the machine takes them
* `Handed.code_run` — the code leaves the value of `exchanged`
-/

namespace Compiler

open Infra Vm

/-- An expression whose operations are handed to the code generator. -/
inductive Handed where
  | variable (name : String)
  | number (n : Nat)
  | bracketed (h : Handed)
  | operation (kind : Operation) (left right : Handed)
deriving DecidableEq, Repr

/-! ## the reading of the parser -/

mutual

def Value.handed : Value → Handed
  | .ident name => .variable name
  | .number n => .number n
  | .paren t => .bracketed t.handed

/-- See `FactorTail.grouped`. -/
def FactorTail.handed : FactorTail → Handed → (Handed → Handed) → Handed
  | .nil, first, finish => finish first
  | .cons op v .nil, first, finish => finish (.operation op.operation first v.handed)
  | .cons op v (.cons op' v' tail), first, finish =>
    .operation op'.operation (.operation op.operation first v.handed)
      (tail.handed v'.handed finish)

def Term.handed : Term → Handed
  | .mk (.mk v tail) rest => tail.handed v.handed rest.handedFirst

def TermTail.handedFirst : TermTail → Handed → Handed
  | .nil, left => left
  | .cons op (.mk v tail) rest, left =>
    if tail.length < 2 then
      rest.handedSecond (.operation op.operation left (tail.handed v.handed id))
    else
      .operation op.operation left (tail.handed v.handed rest.handedFirst)

def TermTail.handedSecond : TermTail → Handed → Handed
  | .nil, left => left
  | .cons op (.mk v tail) rest, left =>
    .operation op.operation left (tail.handed v.handed rest.handedFirst)

end

/-- A product of at most two values is finished before its sum goes on. -/
theorem FactorTail.handed_short {tail : FactorTail} (h : tail.length ≤ 1) (first : Handed)
    (finish : Handed → Handed) : tail.handed first finish = finish (tail.handed first id) := by
  match tail with
  | nil => rfl
  | cons op v nil => rfl
  | cons op v (cons op' v' tail) =>
    simp only [length] at h
    omega

namespace Handed

/-- Without the brackets. -/
def tree : Handed → Arith
  | .variable name => .variable name
  | .number n => .number n
  | .bracketed h => h.tree
  | .operation kind l r => .operation kind l.tree r.tree

/-- A variable, maybe in brackets. -/
def lone : Handed → Option String
  | .variable name => some name
  | .bracketed h => h.lone
  | _ => none

/-- Constants are folded. -/
def constant : Handed → Option Int
  | .variable _ => none
  | .number n => some n
  | .bracketed h => h.constant
  | .operation kind l r =>
    match l.constant, r.constant with
    | some a, some b => some (foldValue kind a b)
    | _, _ => none

/-- The name in the last token. -/
def last : Handed → Option String
  | .variable name => some name
  | .operation _ _ r => r.last
  | _ => none

/-- Where the value is; `cells` is what the variables are declared as. -/
def place (cells : String → SymbolTableCell) (h : Handed) : Place :=
  match h.constant, h.lone with
  | some val, _ => .immediate val
  | none, some name => .memory (cells name)
  | none, none => .register

/-- The code of the operations; `top` is the register that was loaded last. -/
def code (cells : String → SymbolTableCell) (top : Int) : Handed → List OpCodeElement
  | .operation kind l r =>
    l.code cells top ++ (r.code cells (top + (l.place cells).registers) ++
      writtenOperation kind (top + (l.place cells).registers + (r.place cells).registers)
        (l.place cells) (r.place cells))
  | .bracketed h => h.code cells top
  | _ => []

/-- The code takes the second operand for the first one, see `Swapped`. -/
def Exchanges (kind : Operation) (l r : Handed) : Prop :=
  (l.lone.isSome ∧ r.lone = none ∧ r.constant = none ∧ (kind = .sub ∨ kind.Divides)) ∨
    (l.constant.isSome ∧ r.constant = none ∧ kind.Divides)

instance (kind : Operation) (l r : Handed) : Decidable (Exchanges kind l r) :=
  inferInstanceAs (Decidable (_ ∨ _))

/-- The operations with their operands as the machine takes them. -/
def exchanged : Handed → Arith
  | .variable name => .variable name
  | .number n => .number n
  | .bracketed h => h.exchanged
  | .operation kind l r =>
    if Exchanges kind l r then .operation kind r.exchanged l.exchanged
    else .operation kind l.exchanged r.exchanged

/-! ## conditions -/

/-- It is not a variable in brackets. -/
def Direct : Handed → Prop
  | .bracketed h => h.lone = none
  | _ => True

instance : (h : Handed) → Decidable h.Direct
  | .bracketed h => inferInstanceAs (Decidable (h.lone = none))
  | .variable _ | .number _ | .operation .. => inferInstanceAs (Decidable True)

/-- The expression can be compiled: a number is an `int`, an operand is not a variable in brackets,
and no constant is divided by the constant 0. -/
def Sound : Handed → Prop
  | .variable _ => True
  | .number n => n < 2 ^ 31
  | .bracketed h => h.Sound
  | .operation kind l r => l.Sound ∧ r.Sound ∧ l.Direct ∧ r.Direct ∧
      (l.constant.isSome → r.constant = some 0 → ¬ kind.Divides)

instance decidableSound : (h : Handed) → Decidable h.Sound
  | .variable _ => inferInstanceAs (Decidable True)
  | .number n => inferInstanceAs (Decidable (n < 2 ^ 31))
  | .bracketed h => decidableSound h
  | .operation kind l r =>
    have := decidableSound l
    have := decidableSound r
    inferInstanceAs (Decidable (l.Sound ∧ r.Sound ∧ l.Direct ∧ r.Direct ∧
      (l.constant.isSome → r.constant = some 0 → ¬ kind.Divides)))

/-- Every variable has the property. -/
def Uses (known : String → Prop) : Handed → Prop
  | .variable name => known name
  | .number _ => True
  | .bracketed h => h.Uses known
  | .operation _ l r => l.Uses known ∧ r.Uses known

end Handed

/-- The constant or the offset fits into an instruction. -/
def Place.Fits : Place → Prop
  | .memory cell => (CodeGenerator.address cell).2.natAbs ≤ maxImmediate
  | .immediate val => Encodable val
  | .register => True

/-- The operands of the instructions fit, and there are registers enough. -/
def Handed.Fits (cells : String → SymbolTableCell) (top : Int) : Handed → Prop
  | .operation kind l r =>
    l.Fits cells top ∧ r.Fits cells (top + (l.place cells).registers) ∧
      ((operation kind l r).constant = none → (l.place cells).Fits ∧ (r.place cells).Fits ∧
        highestReg (top + (l.place cells).registers + (r.place cells).registers)
          (l.place cells) (r.place cells) < fp)
  | .bracketed h => h.Fits cells top
  | _ => True

instance (p : Place) : Decidable p.Fits :=
  match p with
  | .memory cell => inferInstanceAs (Decidable ((CodeGenerator.address cell).2.natAbs ≤ _))
  | .immediate val => inferInstanceAs (Decidable (Encodable val))
  | .register => inferInstanceAs (Decidable True)

instance Handed.decidableFits (cells : String → SymbolTableCell) :
    (h : Handed) → (top : Int) → Decidable (h.Fits cells top)
  | .variable _, _ | .number _, _ => inferInstanceAs (Decidable True)
  | .bracketed h, top => decidableFits cells h top
  | .operation kind l r, top =>
    have := decidableFits cells l top
    have := decidableFits cells r (top + (l.place cells).registers)
    inferInstanceAs (Decidable (l.Fits cells top ∧
      r.Fits cells (top + (l.place cells).registers) ∧
      ((operation kind l r).constant = none → (l.place cells).Fits ∧ (r.place cells).Fits ∧
        highestReg (top + (l.place cells).registers + (r.place cells).registers)
          (l.place cells) (r.place cells) < fp)))

/-! ## values -/

/-- The value, where an operation that divides by 0 has its first operand. -/
def Arith.value (env : String → Word) : Arith → Word
  | .variable name => env name
  | .number n => imm n
  | .operation kind l r => kind.left (l.value env) (r.value env)
  | .other => 0

/-! ## readings without the brackets -/

mutual

theorem Value.handed_tree : ∀ v : Value, v.handed.tree = v.grouped
  | .ident _ => rfl
  | .number _ => rfl
  | .paren t => t.handed_tree

theorem FactorTail.handed_tree {finish : Handed → Handed} {finish' : Arith → Arith}
    (hfinish : ∀ h, (finish h).tree = finish' h.tree) :
    ∀ (tail : FactorTail) (first : Handed),
      (tail.handed first finish).tree = tail.grouped first.tree finish'
  | .nil, first => hfinish first
  | .cons op v .nil, first => by
    rw [FactorTail.handed, FactorTail.grouped, hfinish, Handed.tree, v.handed_tree]
  | .cons op v (.cons op' v' tail), first => by
    rw [FactorTail.handed, FactorTail.grouped, Handed.tree, Handed.tree, v.handed_tree,
      tail.handed_tree hfinish, v'.handed_tree]

/-- **Without the brackets** the expression is grouped in the same way. -/
theorem Term.handed_tree : ∀ t : Term, t.handed.tree = t.grouped
  | .mk (.mk v tail) rest => by
    rw [Term.handed, Term.grouped, tail.handed_tree rest.handedFirst_tree, v.handed_tree]

theorem TermTail.handedFirst_tree : ∀ (rest : TermTail) (left : Handed),
    (rest.handedFirst left).tree = rest.afterFirst left.tree
  | .nil, left => rfl
  | .cons op (.mk v tail) rest, left => by
    rw [TermTail.handedFirst, TermTail.afterFirst]
    split
    · have hid : ∀ h : Handed, (id h).tree = id h.tree := fun _ => rfl
      rw [rest.handedSecond_tree, Handed.tree, tail.handed_tree hid, v.handed_tree]
    · rw [Handed.tree, tail.handed_tree rest.handedFirst_tree, v.handed_tree]

theorem TermTail.handedSecond_tree : ∀ (rest : TermTail) (left : Handed),
    (rest.handedSecond left).tree = rest.afterSecond left.tree
  | .nil, left => rfl
  | .cons op (.mk v tail) rest, left => by
    rw [TermTail.handedSecond, TermTail.afterSecond, Handed.tree,
      tail.handed_tree rest.handedFirst_tree, v.handed_tree]

end

namespace Handed

variable {cells : String → SymbolTableCell} {env : String → Word} {known : String → Prop}
  {h l r : Handed} {kind : Operation} {top val : Int} {name : String}

/-! ## places -/

theorem constant_of_lone : ∀ {h : Handed}, h.lone = some name → h.constant = none
  | .variable _, _ => rfl
  | .bracketed h, hl => constant_of_lone (h := h) hl

theorem lone_of_constant (hc : h.constant = some val) : h.lone = none := by
  cases hl : h.lone with
  | none => rfl
  | some name =>
    rw [constant_of_lone hl] at hc
    cases hc

theorem place_constant (hc : h.constant = some val) : h.place cells = .immediate val := by
  unfold place
  rw [hc]

theorem place_lone (hl : h.lone = some name) : h.place cells = .memory (cells name) := by
  unfold place
  rw [constant_of_lone hl, hl]

theorem place_computed (hc : h.constant = none) (hl : h.lone = none) :
    h.place cells = .register := by
  unfold place
  rw [hc, hl]

/-- An expression is a constant, a variable, or it is computed. -/
theorem place_cases (cells : String → SymbolTableCell) (h : Handed) :
    (∃ val, h.constant = some val ∧ h.lone = none ∧ h.place cells = .immediate val) ∨
    (∃ name, h.lone = some name ∧ h.constant = none ∧ h.place cells = .memory (cells name)) ∨
    (h.constant = none ∧ h.lone = none ∧ h.place cells = .register) := by
  cases hc : h.constant with
  | some val => exact Or.inl ⟨val, rfl, lone_of_constant hc, place_constant hc⟩
  | none =>
    cases hl : h.lone with
    | some name => exact Or.inr (Or.inl ⟨name, rfl, rfl, place_lone hl⟩)
    | none => exact Or.inr (Or.inr ⟨rfl, rfl, place_computed hc hl⟩)

/-- An operation is a constant, or it is computed. -/
theorem place_operation : (operation kind l r).place cells =
    resultPlace kind (l.place cells) (r.place cells) := by
  rcases place_cases cells l with ⟨a, hl, -, hpl⟩ | ⟨x, -, hl, hpl⟩ | ⟨hl, -, hpl⟩ <;>
    rcases place_cases cells r with ⟨b, hr, -, hpr⟩ | ⟨y, -, hr, hpr⟩ | ⟨hr, -, hpr⟩ <;>
    rw [hpl, hpr] <;> simp [place, constant, lone, resultPlace, hl, hr]

theorem constant_operation (hc : (operation kind l r).constant = some val) :
    ∃ a b, l.constant = some a ∧ r.constant = some b ∧ val = foldValue kind a b := by
  unfold constant at hc
  split at hc
  · next a b ha hb => exact ⟨a, b, ha, hb, (Option.some.inj hc).symm⟩
  · cases hc

/-- A variable that is not in brackets. -/
theorem eq_variable (hd : h.Direct) (hl : h.lone = some name) : h = .variable name := by
  cases h with
  | «variable» name' => exact congrArg _ (Option.some.inj hl)
  | bracketed h =>
    have hnone : h.lone = none := hd
    have hsome : h.lone = some name := hl
    rw [hnone] at hsome
    cases hsome
  | number | operation => cases hl

theorem last_of_not_direct (hd : ¬ h.Direct) : h.last = none ∧ ∃ name, h.lone = some name := by
  cases h with
  | bracketed h => exact ⟨rfl, Option.ne_none_iff_exists'.mp hd⟩
  | «variable» | number | operation => exact absurd trivial hd

theorem last_of_constant : ∀ {h : Handed} {val : Int}, h.constant = some val → h.last = none
  | .number _, _, _ => rfl
  | .bracketed _, _, _ => rfl
  | .operation _ _ r, _, hc => by
    obtain ⟨a, b, -, hb, -⟩ := constant_operation hc
    exact last_of_constant (h := r) hb

theorem Uses.mono {known' : String → Prop} (hsub : ∀ name, known name → known' name) :
    ∀ {h : Handed}, h.Uses known → h.Uses known'
  | .variable name, hu => hsub name hu
  | .number _, _ => trivial
  | .bracketed h, hu => Uses.mono (h := h) hsub hu
  | .operation _ l r, hu => ⟨Uses.mono (h := l) hsub hu.1, Uses.mono (h := r) hsub hu.2⟩

/-- The name in the last token is that of a variable. -/
theorem Uses.last : ∀ {h : Handed}, h.Uses known → h.last = some name → known name
  | .variable _, hu, hl => by
    obtain rfl := Option.some.inj hl
    exact hu
  | .operation _ _ r, hu, hl => Uses.last (h := r) hu.2 hl

/-- The kinds of the operands decide, not the cells. -/
theorem exchanges_iff : Exchanges kind l r ↔ Swapped kind (l.place cells) (r.place cells) := by
  unfold Exchanges
  rcases place_cases cells l with ⟨a, hl, hl', hpl⟩ | ⟨x, hl', hl, hpl⟩ | ⟨hl, hl', hpl⟩ <;>
    rcases place_cases cells r with ⟨b, hr, hr', hpr⟩ | ⟨y, hr', hr, hpr⟩ | ⟨hr, hr', hpr⟩ <;>
    rw [hpl, hpr] <;> simp [Swapped, hl, hl', hr, hr']

/-! ## values -/

theorem value_operation : (operation kind l r).exchanged.value env =
    leaves kind (l.place cells) (r.place cells) (l.exchanged.value env) (r.exchanged.value env) := by
  unfold leaves
  rw [exchanged]
  by_cases hex : Exchanges kind l r
  · rw [if_pos hex, if_pos (exchanges_iff.mp hex)]
    rfl
  · rw [if_neg hex, if_neg fun hs => hex (exchanges_iff.mpr hs)]
    rfl

/-- **Constants are folded right.** -/
theorem constant_value : ∀ {h : Handed} {val : Int}, h.Sound → h.constant = some val →
    (-2147483648 ≤ val ∧ val < 2147483648) ∧ h.exchanged.value env = imm val
  | .number n, val, hsound, hc => by
    obtain rfl := Option.some.inj hc
    have hn : n < 2 ^ 31 := hsound
    exact ⟨by omega, rfl⟩
  | .bracketed h, val, hsound, hc => constant_value (h := h) hsound hc
  | .operation kind l r, val, hsound, hc => by
    obtain ⟨hsl, hsr, -, -, hdivisor⟩ := hsound
    obtain ⟨a, b, ha, hb, rfl⟩ := constant_operation hc
    obtain ⟨hia, hva⟩ := constant_value hsl ha
    obtain ⟨hib, hvb⟩ := constant_value hsr hb
    refine ⟨foldValue_int kind a b, ?_⟩
    have hplain : ¬ Exchanges kind l r := by
      rintro (⟨-, -, hnone, -⟩ | ⟨-, hnone, -⟩)
      · rw [hb] at hnone
        cases hnone
      · rw [hb] at hnone
        cases hnone
    have hzero : kind.Divides → imm b ≠ 0 := by
      intro hdivides hzero
      have hb0 : b = 0 := by rw [← toInt_imm hib, hzero]; rfl
      exact hdivisor (by rw [ha]; rfl) (by rw [hb, hb0]) hdivides
    rw [exchanged, if_neg hplain, Arith.value, hva, hvb, Operation.left_eq hzero,
      imm_foldValue hia hib]

/-! ## the instructions -/

end Handed

section Instructions

variable {kind : Operation} {top lo : Int} {p₁ p₂ : Place} {e : OpCodeElement} {op : OpCode}
  {a b c : Int}

/-- It computes into its first operand. -/
def Calculates (op : OpCode) : Prop :=
  (op ≠ .pop ∧ op ≠ .psh) ∧ op ≠ .stw ∧ ¬ Jumps op.code

instance (op : OpCode) : Decidable (Calculates op) := inferInstanceAs (Decidable (_ ∧ _))

theorem calculates_instruction (kind : Operation) : Calculates kind.instruction := by
  cases kind <;> decide

theorem calculates_immediate (kind : Operation) : Calculates kind.immediate := by
  cases kind <;> decide

/-- The instruction computes into a register above `lo`. -/
def Above (lo : Int) (e : OpCodeElement) : Prop :=
  Computes e ∧ e.instruction ≠ .stw ∧ lo < e.a

theorem above_mk3 (hop : Calculates op) (hlo : 0 ≤ lo) (ha : lo < a) (hafp : a < fp) :
    Above lo (.mk3 op a b c) :=
  ⟨⟨hop.1, hop.2.2, fun _ => ⟨by exact (by omega : 1 ≤ a), hafp⟩⟩, hop.2.1, ha⟩

theorem Above.mono {lo' : Int} (h : Above lo e) (hlo : lo' ≤ lo) : Above lo' e :=
  ⟨h.1, h.2.1, lt_of_le_of_lt hlo h.2.2⟩

/-- A constant and the value of a register. -/
theorem constantFirst_above (hlo : 0 ≤ lo) (ha : lo < a) (hafp : a < fp)
    (he : e ∈ constantFirst kind a b) : Above lo e := by
  unfold constantFirst at he
  split at he
  · rcases List.mem_pair.mp he with rfl | rfl
    · exact above_mk3 (by decide) hlo ha hafp
    · exact above_mk3 (by decide) hlo ha hafp
  · rw [List.mem_singleton.mp he]
    exact above_mk3 (calculates_immediate kind) hlo ha hafp

/-- An operation computes into the registers of its operands and above. -/
theorem writtenOperation_above (hlow : p₁.registers + p₂.registers ≤ top)
    (hhigh : highestReg top p₁ p₂ < fp) (he : e ∈ writtenOperation kind top p₁ p₂) :
    Above (top - p₁.registers - p₂.registers) e := by
  have hlo : 0 ≤ top - p₁.registers - p₂.registers := by omega
  have hregisters := calculates_instruction kind
  have himmediate := calculates_immediate kind
  have hload : Calculates .ldw := by decide
  cases p₁ <;> cases p₂ <;>
    simp only [writtenOperation, operationCode, loadCode, Place.registers, highestReg,
      List.mem_cons, List.not_mem_nil, or_false] at he hlow hhigh hlo ⊢
  case memory.memory =>
    rcases he with rfl | rfl | rfl
    · exact above_mk3 hload hlo (by omega) (by omega)
    · exact above_mk3 hload hlo (by omega) (by omega)
    · exact above_mk3 hregisters hlo (by omega) (by omega)
  case memory.immediate =>
    rcases he with rfl | rfl
    · exact above_mk3 hload hlo (by omega) (by omega)
    · exact above_mk3 himmediate hlo (by omega) (by omega)
  case memory.register | register.memory =>
    rcases he with rfl | rfl
    · exact above_mk3 hload hlo (by omega) (by omega)
    · exact above_mk3 hregisters hlo (by omega) (by omega)
  case immediate.memory =>
    rcases he with rfl | he
    · exact above_mk3 hload hlo (by omega) (by omega)
    · exact constantFirst_above hlo (by omega) (by omega) he
  case immediate.register => exact constantFirst_above hlo (by omega) (by omega) he
  case register.immediate =>
    subst he
    exact above_mk3 himmediate hlo (by omega) (by omega)
  case register.register =>
    subst he
    exact above_mk3 hregisters hlo (by omega) (by omega)

/-! ## the instructions in their formats -/

theorem registerField_of (hlow : 0 ≤ a) (hhigh : a < fp) : RegisterField a := by
  have hfp : fp ≤ 31 := by decide
  exact ⟨hlow, by omega⟩

theorem operandsFit_instruction (ha : RegisterField a) (hb : RegisterField b)
    (hc : RegisterField c) : OperandsFit (.mk3 kind.instruction a b c) :=
  operandsFit_format2 (by cases kind <;> decide) ha hb hc

theorem operandsFit_immediate (ha : RegisterField a) (hb : RegisterField b) (hc : Encodable c) :
    OperandsFit (.mk3 kind.immediate a b c) :=
  operandsFit_format1 (by cases kind <;> decide) ha hb (by
    obtain ⟨hlow, hhigh⟩ := hc
    exact (by omega : c.natAbs ≤ 32767))

theorem operandsFit_load {cell : SymbolTableCell} (ha : RegisterField a)
    (hc : (Place.memory cell).Fits) : OperandsFit (loadCode a cell) := by
  obtain ⟨hlow, hhigh⟩ := address_register cell
  unfold registerCount at hhigh
  exact operandsFit_format1 (by decide) ha ⟨hlow, by omega⟩ hc

theorem operandsFit_constantFirst (ha : RegisterField a) (hb : Encodable b)
    (he : e ∈ constantFirst kind a b) : OperandsFit e := by
  unfold constantFirst at he
  split at he
  · rcases List.mem_pair.mp he with rfl | rfl
    · exact operandsFit_format2 (by decide) ha ⟨by decide, by decide⟩ ha
    · exact @operandsFit_immediate .add a a b ha ha hb
  · rw [List.mem_singleton.mp he]
    exact operandsFit_immediate ha ha hb

/-- **The operands fit** when there are registers enough and those of the expression fit. -/
theorem writtenOperation_fits (hlow : p₁.registers + p₂.registers ≤ top)
    (hhigh : highestReg top p₁ p₂ < fp) (h₁ : p₁.Fits) (h₂ : p₂.Fits)
    (he : e ∈ writtenOperation kind top p₁ p₂) : OperandsFit e := by
  have hfield : ∀ r, top - p₁.registers - p₂.registers < r → r ≤ highestReg top p₁ p₂ →
      RegisterField r := fun r hr hr' => registerField_of (by omega) (by omega)
  cases p₁ <;> cases p₂ <;>
    simp only [writtenOperation, operationCode, Place.registers, highestReg,
      List.mem_cons, List.not_mem_nil, or_false] at he hlow hhigh hfield
  case memory.memory =>
    rcases he with rfl | rfl | rfl
    · exact operandsFit_load (hfield _ (by omega) (by omega)) h₁
    · exact operandsFit_load (hfield _ (by omega) (by omega)) h₂
    · exact operandsFit_instruction (hfield _ (by omega) (by omega))
        (hfield _ (by omega) (by omega)) (hfield _ (by omega) (by omega))
  case memory.immediate =>
    rcases he with rfl | rfl
    · exact operandsFit_load (hfield _ (by omega) (by omega)) h₁
    · exact operandsFit_immediate (hfield _ (by omega) (by omega))
        (hfield _ (by omega) (by omega)) h₂
  case memory.register =>
    rcases he with rfl | rfl
    · exact operandsFit_load (hfield _ (by omega) (by omega)) h₁
    · exact operandsFit_instruction (hfield _ (by omega) (by omega))
        (hfield _ (by omega) (by omega)) (hfield _ (by omega) (by omega))
  case register.memory =>
    rcases he with rfl | rfl
    · exact operandsFit_load (hfield _ (by omega) (by omega)) h₂
    · exact operandsFit_instruction (hfield _ (by omega) (by omega))
        (hfield _ (by omega) (by omega)) (hfield _ (by omega) (by omega))
  case immediate.memory =>
    rcases he with rfl | he
    · exact operandsFit_load (hfield _ (by omega) (by omega)) h₂
    · exact operandsFit_constantFirst (hfield _ (by omega) (by omega)) h₁ he
  case immediate.register =>
    exact operandsFit_constantFirst (hfield _ (by omega) (by omega)) h₁ he
  case register.immediate =>
    subst he
    exact operandsFit_immediate (hfield _ (by omega) (by omega)) (hfield _ (by omega) (by omega)) h₂
  case register.register =>
    subst he
    exact operandsFit_instruction (hfield _ (by omega) (by omega))
      (hfield _ (by omega) (by omega)) (hfield _ (by omega) (by omega))

end Instructions

namespace Handed

variable {cells : String → SymbolTableCell} {h l r : Handed} {kind : Operation} {top : Int}

theorem registers_nonneg (p : Place) : 0 ≤ p.registers := by
  cases p with
  | register => exact (by decide : (0 : Int) ≤ 1)
  | memory | immediate => exact le_refl _

/-- Nothing is written for a constant. -/
theorem written_of_constant (hc : (operation kind l r).constant.isSome) (reg : Int) :
    writtenOperation kind reg (l.place cells) (r.place cells) = [] := by
  obtain ⟨val, hval⟩ := Option.isSome_iff_exists.mp hc
  obtain ⟨a, b, ha, hb, -⟩ := constant_operation hval
  rw [place_constant ha, place_constant hb]
  rfl

/-- An operation that is computed has an operand that is no constant. -/
theorem computed_operation (hc : (operation kind l r).constant = none) :
    (∀ a b, l.place cells = .immediate a → r.place cells ≠ .immediate b) ∧
      (operation kind l r).place cells = .register ∧
      ∀ reg, writtenOperation kind reg (l.place cells) (r.place cells) =
        operationCode kind reg (l.place cells) (r.place cells) := by
  rw [place_operation]
  rcases place_cases cells l with ⟨a, hl, -, hpl⟩ | ⟨x, -, hl, hpl⟩ | ⟨hl, -, hpl⟩ <;>
    rcases place_cases cells r with ⟨b, hr, -, hpr⟩ | ⟨y, -, hr, hpr⟩ | ⟨hr, -, hpr⟩ <;>
    rw [hpl, hpr]
  · simp [constant, hl, hr] at hc
  all_goals exact ⟨nofun, rfl, fun _ => rfl⟩

/-- **All of the code** computes into registers that were free, and its operands fit. -/
theorem code_shape : ∀ {h : Handed} {top : Int}, h.Fits cells top → 0 ≤ top →
    ∀ e ∈ h.code cells top, Above top e ∧ OperandsFit e
  | .variable _, _, _, _, _, he => absurd he List.not_mem_nil
  | .number _, _, _, _, _, he => absurd he List.not_mem_nil
  | .bracketed h, _, hfits, htop, e, he => code_shape (h := h) hfits htop e he
  | .operation kind l r, top, hfits, htop, e, he => by
    obtain ⟨hl, hr, hop⟩ := hfits
    have hl0 := registers_nonneg (l.place cells)
    have hr0 := registers_nonneg (r.place cells)
    rcases List.mem_append.mp he with he | he
    · exact code_shape hl htop e he
    rcases List.mem_append.mp he with he | he
    · obtain ⟨habove, hfit⟩ := code_shape hr (by omega) e he
      exact ⟨habove.mono (by omega), hfit⟩
    cases hc : (operation kind l r).constant with
    | some val =>
      rw [written_of_constant (by rw [hc]; rfl)] at he
      cases he
    | none =>
      obtain ⟨hfl, hfr, hhigh⟩ := hop hc
      refine ⟨(writtenOperation_above (by omega) hhigh he).mono (by omega),
        writtenOperation_fits (by omega) hhigh hfl hfr he⟩

end Handed

/-! ## what the code leaves -/

section Run

variable {ι : Type} {s s' : State ι} {code : List OpCodeElement} {top reg : Int} {p : Place} {v : Word}

/-- The memory and the registers that are in use stay. -/
structure KeptBelow (top : Int) (s s' : State ι) : Prop where
  memory : s'.memory = s.memory
  reg : ∀ i, 0 ≤ i → i ≤ top ∨ fp ≤ i → s'.reg i = s.reg i

theorem keptBelow (habove : ∀ e ∈ code, Above top e) (hrun : executeAll code s = .ok () s') :
    KeptBelow top s s' where
  memory := executeAll_memory (fun e he => (habove e he).1) (fun e he => (habove e he).2.1) hrun
  reg i hi hkept := by
    refine executeAll_other (fun e he => (habove e he).1) hi (fun e he => Or.inr ?_) hrun
    obtain ⟨hcomputes, hstw, hlo⟩ := habove e he
    have hhigh := (hcomputes.target hstw).2
    omega

/-- A value stays where it is. -/
theorem KeptBelow.holds (h : KeptBelow top s s') (htop : 0 ≤ top) (hv : p.Holds s reg v)
    (hreg : p = .register → 0 ≤ reg ∧ reg ≤ top) : p.Holds s' reg v := by
  cases p with
  | memory cell =>
    obtain ⟨base, hbase, haddress, hmem⟩ := hv
    have hregister : (CodeGenerator.address cell).1 ≤ top ∨ fp ≤ (CodeGenerator.address cell).1 := by
      unfold CodeGenerator.address
      split
      · exact Or.inl htop
      · exact Or.inr (le_refl _)
    refine ⟨base, ?_, haddress, ?_⟩
    · rw [h.reg _ (address_register cell).1 hregister]
      exact hbase
    · unfold State.mem
      rw [h.memory]
      exact hmem
  | immediate val => exact hv
  | register => exact (h.reg reg (hreg rfl).1 (Or.inl (hreg rfl).2)).trans hv

end Run

namespace Handed

variable {ι : Type} {cells : String → SymbolTableCell} {env : String → Word}
  {known : String → Prop} {s : State ι}

/-- The variables are where they are declared. -/
def HasVariables (cells : String → SymbolTableCell) (env : String → Word) (known : String → Prop)
    (s : State ι) : Prop :=
  ∀ name, known name → (Place.memory (cells name)).Holds s 0 (env name)

/-- **The code leaves the value** of the operations with their operands as the machine takes them. -/
theorem code_run : ∀ {h : Handed} {top : Int} {s : State ι}, h.Uses known → h.Sound →
    h.Fits cells top → 0 ≤ top → s.reg 0 = some 0 → HasVariables cells env known s →
      ∃ s', executeAll (h.code cells top) s = .ok () s' ∧
        ((h.place cells).Fits →
          (h.place cells).Holds s' (top + (h.place cells).registers) (h.exchanged.value env))
  | .variable name, _, s, huses, _, _, _, _, hvars => ⟨s, rfl, fun _ => hvars name huses⟩
  | .number _, _, s, _, _, _, _, _, _ => ⟨s, rfl, fun hfits => ⟨hfits, rfl⟩⟩
  | .bracketed h, _, _, huses, hsound, hfits, htop, hzero, hvars =>
    code_run (h := h) huses hsound hfits htop hzero hvars
  | .operation kind l r, top, s, huses, hsound, hfits, htop, hzero, hvars => by
    have hl0 := registers_nonneg (l.place cells)
    have hr0 := registers_nonneg (r.place cells)
    have hall := hsound
    have hshape := code_shape hfits htop
    obtain ⟨hsl, hsr, -, -, -⟩ := hsound
    obtain ⟨hfl, hfr, hop⟩ := hfits
    -- the operands, one after the other
    obtain ⟨s₁, hrun₁, hval₁⟩ := code_run huses.1 hsl hfl htop hzero hvars
    have hkept₁ := keptBelow (fun e he => (code_shape hfl htop e he).1) hrun₁
    have hzero₁ : s₁.reg 0 = some 0 := (hkept₁.reg 0 (le_refl _) (Or.inl htop)).trans hzero
    have hvars₁ : HasVariables cells env known s₁ := fun name hname =>
      hkept₁.holds htop (hvars name hname) nofun
    have htop₁ : 0 ≤ top + (l.place cells).registers := by omega
    obtain ⟨s₂, hrun₂, hval₂⟩ := code_run huses.2 hsr hfr htop₁ hzero₁ hvars₁
    have hkept₂ := keptBelow (fun e he => (code_shape hfr htop₁ e he).1) hrun₂
    have hoperands := executeAll_join hrun₁ hrun₂
    cases hc : (operation kind l r).constant with
    | some val =>
      refine ⟨s₂, ?_, fun hfits => ?_⟩
      · rw [code, written_of_constant (by rw [hc]; rfl), List.append_nil]
        exact hoperands
      · rw [place_constant hc] at hfits ⊢
        exact ⟨hfits, (constant_value hall hc).2⟩
    | none =>
      obtain ⟨hpl, hpr, hhigh⟩ := hop hc
      obtain ⟨hplaces, hplace, hcode⟩ := @computed_operation cells l r kind hc
      have hready : Operands (l.place cells) (r.place cells)
          (top + (l.place cells).registers + (r.place cells).registers)
          (l.exchanged.value env) (r.exchanged.value env) s₂ := by
        refine ⟨(hkept₂.reg 0 (le_refl _) (Or.inl htop₁)).trans hzero₁, ?_, hval₂ hpr, by omega,
          lt_trans hhigh (by decide), fun c₁ c₂ hc₁ hc₂ => ?_⟩
        · rw [add_sub_cancel_right]
          exact hkept₂.holds htop₁ (hval₁ hpl) fun _ => ⟨htop₁, le_refl _⟩
        · rw [hc₁, hc₂] at hhigh ⊢
          simp only [highestReg, Place.registers] at hhigh ⊢
          unfold CodeGenerator.address
          split
          · exact fun h => by
              have hheap : heap = 0 := rfl
              omega
          · exact fun h => by
              dsimp only at h
              omega
      have hleaves : ∃ s', executeAll (operationCode kind _ _ _) s₂ = .ok () s' ∧
          s'.reg _ = some (leaves kind _ _ _ _) :=
        operationCode_leaves hready fun a b ha hb => absurd hb (hplaces a b ha)
      obtain ⟨s₃, hrun₃, hreg⟩ := hleaves
      refine ⟨s₃, ?_, fun _ => ?_⟩
      · rw [code, hcode, ← List.append_assoc]
        exact executeAll_join hoperands hrun₃
      · rw [hplace, @value_operation cells]
        have hresult : resultReg (top + (l.place cells).registers + (r.place cells).registers)
            (l.place cells) (r.place cells) = top + Place.register.registers := by
          unfold resultReg
          have hone : Place.register.registers = 1 := rfl
          omega
        rw [hresult] at hreg
        exact hreg

end Handed

end Compiler
