import Bambinos.Compiler.ParserState

/-!
# The arithmetic grammar and its two readings

`term = factor {("+" | "-") factor}`, `factor = value {("*" | "/" | "%") value}`,
`value = variable | number | "(" term ")"`.

* `usual` — every chain associates to the left
* `grouped` — the reading of the parser, which parses the third operand of a chain as an
  expression: it takes everything that follows along
* `Narrow` — no chain is long enough for the two to differ
* `Term.grouped_eq_usual_iff` — the readings agree on an expression exactly when it is narrow
-/

namespace Compiler

/-! ## operators -/

inductive MulOp where
  | mult | div | mod
deriving DecidableEq, Repr

inductive AddOp where
  | plus | minus
deriving DecidableEq, Repr

def MulOp.operation : MulOp → Operation
  | mult => .mul
  | div => .div
  | mod => .mod

def AddOp.operation : AddOp → Operation
  | plus => .add
  | minus => .sub

theorem MulOp.operation_ne (o : MulOp) (o' : AddOp) : o.operation ≠ o'.operation := by
  cases o <;> cases o' <;> decide

/-! ## syntax -/

mutual

inductive Value where
  | ident (name : String)
  | number (n : Nat)
  | paren (t : Term)

inductive Factor where
  | mk (v : Value) (tail : FactorTail)

inductive FactorTail where
  | nil
  | cons (op : MulOp) (v : Value) (tail : FactorTail)

inductive Term where
  | mk (f : Factor) (tail : TermTail)

inductive TermTail where
  | nil
  | cons (op : AddOp) (f : Factor) (tail : TermTail)

end

/-- The number of operators. -/
def FactorTail.length : FactorTail → Nat
  | nil => 0
  | cons _ _ tail => tail.length + 1

/-- The number of operators. -/
def TermTail.length : TermTail → Nat
  | nil => 0
  | cons _ _ tail => tail.length + 1

/-! ## readings -/

mutual

/-- The usual reading: left-associative, products before sums. -/
def Value.usual : Value → Arith
  | .ident name => .variable name
  | .number n => .number n
  | .paren t => t.usual

def Factor.usual : Factor → Arith
  | .mk v tail => tail.usual v.usual

def FactorTail.usual : FactorTail → Arith → Arith
  | .nil, left => left
  | .cons op v tail, left => tail.usual (.operation op.operation left v.usual)

def Term.usual : Term → Arith
  | .mk f tail => tail.usual f.usual

def TermTail.usual : TermTail → Arith → Arith
  | .nil, left => left
  | .cons op f tail, left => tail.usual (.operation op.operation left f.usual)

end

mutual

/-- The reading of the parser. -/
def Value.grouped : Value → Arith
  | .ident name => .variable name
  | .number n => .number n
  | .paren t => t.grouped

/--
The rest of a product whose first value is `first`. `finish` is what becomes of the product in its
sum; an expression that starts at the third value takes that along.
-/
def FactorTail.grouped : FactorTail → Arith → (Arith → Arith) → Arith
  | .nil, first, finish => finish first
  | .cons op v .nil, first, finish => finish (.operation op.operation first v.grouped)
  | .cons op v (.cons op' v' tail), first, finish =>
    .operation op'.operation (.operation op.operation first v.grouped)
      (tail.grouped v'.grouped finish)

def Term.grouped : Term → Arith
  | .mk (.mk v tail) rest => tail.grouped v.grouped rest.afterFirst

/-- The rest of a sum behind its first product. -/
def TermTail.afterFirst : TermTail → Arith → Arith
  | .nil, left => left
  | .cons op (.mk v tail) rest, left =>
    if tail.length < 2 then
      rest.afterSecond (.operation op.operation left (tail.grouped v.grouped id))
    else
      .operation op.operation left (tail.grouped v.grouped rest.afterFirst)

/-- The rest of a sum behind its second product: an expression of its own. -/
def TermTail.afterSecond : TermTail → Arith → Arith
  | .nil, left => left
  | .cons op (.mk v tail) rest, left =>
    .operation op.operation left (tail.grouped v.grouped rest.afterFirst)

end

/-! ## narrow expressions -/

/-- How many operators a product in front of the tail may have. -/
def TermTail.room : TermTail → Nat
  | nil => 2
  | cons _ _ _ => 1

/-- No product is too long for what follows it. -/
def TermTail.Shape : TermTail → Prop
  | nil => True
  | cons _ (.mk _ tail) rest => tail.length ≤ rest.room ∧ rest.Shape

/--
A sum of at most three products. A product has at most three values, and only the last one has
three.
-/
def Term.Shape : Term → Prop
  | mk (.mk _ tail) rest => tail.length ≤ rest.room ∧ rest.Shape ∧ rest.length ≤ 2

mutual

/-- Inside of brackets the expression is narrow, too. -/
def Value.Narrow : Value → Prop
  | .ident _ => True
  | .number _ => True
  | .paren t => t.Narrow

def FactorTail.Narrow : FactorTail → Prop
  | .nil => True
  | .cons _ v tail => v.Narrow ∧ tail.Narrow

def Term.Narrow : Term → Prop
  | .mk (.mk v tail) rest =>
    Term.Shape (.mk (.mk v tail) rest) ∧ v.Narrow ∧ tail.Narrow ∧ rest.Narrow

def TermTail.Narrow : TermTail → Prop
  | .nil => True
  | .cons _ (.mk v tail) rest => v.Narrow ∧ tail.Narrow ∧ rest.Narrow

end

/-! ## the size of a reading -/

/-- The number of variables and numbers. -/
def Arith.leaves : Arith → Nat
  | operation _ left right => left.leaves + right.leaves
  | _ => 1

theorem Arith.leaves_pos : ∀ a : Arith, 0 < a.leaves
  | .variable _ => Nat.one_pos
  | .number _ => Nat.one_pos
  | .other => Nat.one_pos
  | .operation _ left right => by
    have := left.leaves_pos
    simp only [Arith.leaves]
    omega

mutual

/-- The number of variables and numbers. -/
def Value.leaves : Value → Nat
  | .ident _ => 1
  | .number _ => 1
  | .paren t => t.leaves

def FactorTail.leaves : FactorTail → Nat
  | .nil => 0
  | .cons _ v tail => v.leaves + tail.leaves

def Term.leaves : Term → Nat
  | .mk (.mk v tail) rest => v.leaves + tail.leaves + rest.leaves

def TermTail.leaves : TermTail → Nat
  | .nil => 0
  | .cons _ (.mk v tail) rest => v.leaves + tail.leaves + rest.leaves

end

mutual

theorem Value.leaves_usual : ∀ v : Value, v.usual.leaves = v.leaves
  | .ident _ => rfl
  | .number _ => rfl
  | .paren t => t.leaves_usual

theorem FactorTail.leaves_usual :
    ∀ (tail : FactorTail) (left : Arith), (tail.usual left).leaves = left.leaves + tail.leaves
  | .nil, left => rfl
  | .cons op v tail, left => by
    rw [FactorTail.usual, tail.leaves_usual, Arith.leaves, v.leaves_usual, FactorTail.leaves]
    omega

theorem Term.leaves_usual : ∀ t : Term, t.usual.leaves = t.leaves
  | .mk (.mk v tail) rest => by
    rw [Term.usual, rest.leaves_usual, Factor.usual, tail.leaves_usual, v.leaves_usual,
      Term.leaves]

theorem TermTail.leaves_usual :
    ∀ (tail : TermTail) (left : Arith), (tail.usual left).leaves = left.leaves + tail.leaves
  | .nil, left => rfl
  | .cons op (.mk v tail) rest, left => by
    rw [TermTail.usual, rest.leaves_usual, Arith.leaves, Factor.usual, tail.leaves_usual,
      v.leaves_usual, TermTail.leaves]
    omega

end

mutual

theorem Value.leaves_grouped : ∀ v : Value, v.grouped.leaves = v.leaves
  | .ident _ => rfl
  | .number _ => rfl
  | .paren t => t.leaves_grouped

theorem FactorTail.leaves_grouped (finish : Arith → Arith) (n : Nat)
    (hfinish : ∀ a, (finish a).leaves = a.leaves + n) :
    ∀ (tail : FactorTail) (first : Arith),
      (tail.grouped first finish).leaves = first.leaves + tail.leaves + n
  | .nil, first => hfinish first
  | .cons op v .nil, first => by
    rw [FactorTail.grouped, hfinish, Arith.leaves, v.leaves_grouped, FactorTail.leaves,
      FactorTail.leaves]
    omega
  | .cons op v (.cons op' v' tail), first => by
    rw [FactorTail.grouped, Arith.leaves, Arith.leaves, v.leaves_grouped,
      tail.leaves_grouped finish n hfinish, v'.leaves_grouped, FactorTail.leaves, FactorTail.leaves]
    omega

theorem Term.leaves_grouped : ∀ t : Term, t.grouped.leaves = t.leaves
  | .mk (.mk v tail) rest => by
    rw [Term.grouped, tail.leaves_grouped _ rest.leaves rest.leaves_afterFirst, v.leaves_grouped,
      Term.leaves]

theorem TermTail.leaves_afterFirst :
    ∀ (tail : TermTail) (left : Arith), (tail.afterFirst left).leaves = left.leaves + tail.leaves
  | .nil, left => rfl
  | .cons op (.mk v tail) rest, left => by
    rw [TermTail.afterFirst, TermTail.leaves]
    split
    · rw [rest.leaves_afterSecond, Arith.leaves, tail.leaves_grouped id 0 fun _ => rfl,
        v.leaves_grouped]
      omega
    · rw [Arith.leaves, tail.leaves_grouped _ rest.leaves rest.leaves_afterFirst,
        v.leaves_grouped]

theorem TermTail.leaves_afterSecond :
    ∀ (tail : TermTail) (left : Arith), (tail.afterSecond left).leaves = left.leaves + tail.leaves
  | .nil, left => rfl
  | .cons op (.mk v tail) rest, left => by
    rw [TermTail.afterSecond, TermTail.leaves, Arith.leaves,
      tail.leaves_grouped _ rest.leaves rest.leaves_afterFirst, v.leaves_grouped]

end

/-! ## where the readings agree -/

/-- The values of a product are grouped as usual. -/
def FactorTail.Agree : FactorTail → Prop
  | nil => True
  | cons _ v tail => v.grouped = v.usual ∧ tail.Agree

/-- The values of a sum are grouped as usual. -/
def TermTail.Agree : TermTail → Prop
  | nil => True
  | cons _ (.mk v tail) rest => v.grouped = v.usual ∧ tail.Agree ∧ rest.Agree

def Term.Agree : Term → Prop
  | mk (.mk v tail) rest => v.grouped = v.usual ∧ tail.Agree ∧ rest.Agree

/-- The last operation of a product has all of its beginning to the left. -/
theorem FactorTail.usual_cons (op : MulOp) (v : Value) (tail : FactorTail) (left : Arith) :
    ∃ (o : MulOp) (l r : Arith),
      (cons op v tail).usual left = .operation o.operation l r ∧ left.leaves ≤ l.leaves := by
  match tail with
  | nil => exact ⟨op, left, v.usual, rfl, le_refl _⟩
  | cons op' v' tail' =>
    obtain ⟨o, l, r, heq, hle⟩ :=
      usual_cons op' v' tail' (.operation op.operation left v.usual)
    refine ⟨o, l, r, heq, ?_⟩
    rw [Arith.leaves] at hle
    omega

/-- The last operation of a sum has all of its beginning to the left. -/
theorem TermTail.usual_cons (op : AddOp) (f : Factor) (tail : TermTail) (left : Arith) :
    ∃ (o : AddOp) (l r : Arith),
      (cons op f tail).usual left = .operation o.operation l r ∧ left.leaves ≤ l.leaves := by
  match tail with
  | nil => exact ⟨op, left, f.usual, rfl, le_refl _⟩
  | cons op' f' tail' =>
    obtain ⟨o, l, r, heq, hle⟩ :=
      usual_cons op' f' tail' (.operation op.operation left f.usual)
    refine ⟨o, l, r, heq, ?_⟩
    rw [Arith.leaves] at hle
    omega

/-- A product that is an expression of its own. -/
theorem FactorTail.grouped_eq_usual_iff {first firstU : Arith}
    (hleaves : first.leaves = firstU.leaves) :
    ∀ tail : FactorTail, tail.grouped first id = tail.usual firstU ↔
      first = firstU ∧ tail.length ≤ 2 ∧ tail.Agree
  | nil => by simp [grouped, usual, length, Agree]
  | cons op v nil => by simp [grouped, usual, length, Agree]
  | cons op v (cons op' v' nil) => by simp [grouped, usual, length, Agree, and_assoc]
  | cons op v (cons op' v' (cons op'' v'' tail)) => by
    refine iff_of_false ?_ ?_
    · intro h
      obtain ⟨o, l, r, heq, hle⟩ := usual_cons op'' v'' tail
        (.operation op'.operation (.operation op.operation firstU v.usual) v'.usual)
      rw [grouped, usual, usual, heq] at h
      injection h with _ hl _
      have hpos := v'.usual.leaves_pos
      rw [← hl, Arith.leaves, Arith.leaves, Arith.leaves, v.leaves_grouped, v.leaves_usual] at hle
      omega
    · rintro ⟨-, hlen, -⟩
      simp only [length] at hlen
      omega

/-- A product of at most two values is finished before its sum goes on. -/
theorem FactorTail.grouped_short {tail : FactorTail} (h : tail.length ≤ 1) (first : Arith)
    (finish : Arith → Arith) : tail.grouped first finish = finish (tail.grouped first id) := by
  match tail with
  | nil => rfl
  | cons op v nil => rfl
  | cons op v (cons op' v' tail) =>
    simp only [length] at h
    omega

/-- A product of three or more values is a product of what comes before its third value. -/
theorem FactorTail.grouped_long {tail : FactorTail} (h : ¬ tail.length ≤ 1) (first : Arith)
    (finish : Arith → Arith) :
    ∃ (o : MulOp) (l r : Arith), tail.grouped first finish = .operation o.operation l r := by
  match tail with
  | nil => simp [length] at h
  | cons op v nil => simp [length] at h
  | cons op v (cons op' v' tail) => exact ⟨op', _, _, rfl⟩

/-- The readings of a sum with one product. -/
theorem TermTail.afterFirst_single (op : AddOp) (v : Value) (tail : FactorTail) (left : Arith) :
    (cons op (.mk v tail) nil).afterFirst left =
      .operation op.operation left (tail.grouped v.grouped id) := by
  rw [afterFirst]
  split
  · rfl
  · rfl

section Sum

variable {op : AddOp} {v₂ : Value} {tail₂ : FactorTail} {p pU : Arith}

/-- Two operands are grouped as usual when both of them are. -/
theorem TermTail.afterFirst_two :
    (cons op (.mk v₂ tail₂) nil).afterFirst p = (cons op (.mk v₂ tail₂) nil).usual pU ↔
      p = pU ∧ v₂.grouped = v₂.usual ∧ tail₂.length ≤ 2 ∧ tail₂.Agree := by
  have hv : v₂.grouped.leaves = v₂.usual.leaves := by rw [v₂.leaves_grouped, v₂.leaves_usual]
  rw [afterFirst_single, usual, usual, Factor.usual, ← tail₂.grouped_eq_usual_iff hv]
  simp only [Arith.operation.injEq, true_and]

/-- Three operands: the second one must not run into the third one. -/
theorem TermTail.afterFirst_three {op₃ : AddOp} {v₃ : Value} {tail₃ : FactorTail} {rest : TermTail}
    (hp : p.leaves = pU.leaves) :
    (cons op (.mk v₂ tail₂) (cons op₃ (.mk v₃ tail₃) rest)).afterFirst p =
        (cons op (.mk v₂ tail₂) (cons op₃ (.mk v₃ tail₃) rest)).usual pU ↔
      p = pU ∧ (v₂.grouped = v₂.usual ∧ tail₂.length ≤ 1 ∧ tail₂.Agree) ∧
        v₃.grouped = v₃.usual ∧ tail₃.length ≤ 2 ∧ tail₃.Agree ∧ rest = nil := by
  have hv₂ : v₂.grouped.leaves = v₂.usual.leaves := by rw [v₂.leaves_grouped, v₂.leaves_usual]
  have hv₃ : v₃.grouped.leaves = v₃.usual.leaves := by rw [v₃.leaves_grouped, v₃.leaves_usual]
  have hpos₂ := (tail₂.usual v₂.usual).leaves_pos
  rw [usual, Factor.usual]
  by_cases hshort : tail₂.length ≤ 1
  · rw [afterFirst, if_pos (by omega), afterSecond]
    cases rest with
    | nil =>
      have h₂ := tail₂.grouped_eq_usual_iff hv₂
      have h₃ := tail₃.grouped_eq_usual_iff hv₃
      rw [usual, usual, Factor.usual, show (afterFirst nil) = id from rfl]
      simp only [Arith.operation.injEq, true_and, h₂, h₃]
      constructor
      · rintro ⟨⟨h, h21, -, h22⟩, h31, h32, h33⟩
        exact ⟨h, ⟨h21, hshort, h22⟩, h31, h32, h33, trivial⟩
      · rintro ⟨h, ⟨h21, -, h22⟩, h31, h32, h33, -⟩
        exact ⟨⟨h, h21, by omega, h22⟩, h31, h32, h33⟩
    | cons op₄ f₄ rest₄ =>
      refine iff_of_false ?_ (by simp)
      intro h
      obtain ⟨o, l, r, heq, hle⟩ := usual_cons op₄ f₄ rest₄
        (.operation op₃.operation (.operation op.operation pU (tail₂.usual v₂.usual))
          (Factor.mk v₃ tail₃).usual)
      rw [usual, heq] at h
      injection h with _ hl _
      have hpos₃ := (Factor.mk v₃ tail₃).usual.leaves_pos
      have hleaves : (tail₂.grouped v₂.grouped id).leaves = (tail₂.usual v₂.usual).leaves := by
        rw [tail₂.leaves_grouped id 0 fun _ => rfl, tail₂.leaves_usual, hv₂, Nat.add_zero]
      rw [← hl, Arith.leaves, Arith.leaves, Arith.leaves, hleaves, hp] at hle
      omega
  · refine iff_of_false ?_ fun h => hshort h.2.1.2.1
    intro h
    obtain ⟨o, l, r, heq, hle⟩ := usual_cons op₃ (.mk v₃ tail₃) rest
      (.operation op.operation pU (tail₂.usual v₂.usual))
    rw [afterFirst, if_neg (by omega), heq] at h
    injection h with _ hl _
    rw [← hl, Arith.leaves, hp] at hle
    omega

end Sum

/-- The readings of an expression agree when it has the right shape and its values agree. -/
theorem Term.grouped_eq_usual_iff_shape (t : Term) :
    t.grouped = t.usual ↔ t.Shape ∧ t.Agree := by
  obtain ⟨⟨v, tail⟩, rest⟩ := t
  have hv : v.grouped.leaves = v.usual.leaves := by rw [v.leaves_grouped, v.leaves_usual]
  have htail := tail.grouped_eq_usual_iff hv
  cases rest with
  | nil =>
    simp only [grouped, usual, Factor.usual, TermTail.usual, Shape, Agree, TermTail.room,
      TermTail.Shape, TermTail.length, TermTail.Agree]
    rw [show (TermTail.afterFirst .nil) = id from rfl, htail]
    tauto
  | cons op f rest =>
    obtain ⟨v₂, tail₂⟩ := f
    by_cases hshort : tail.length ≤ 1
    · have hp : (tail.grouped v.grouped id).leaves = (tail.usual v.usual).leaves := by
        rw [tail.leaves_grouped id 0 fun _ => rfl, tail.leaves_usual, hv, Nat.add_zero]
      rw [grouped, usual, Factor.usual, FactorTail.grouped_short hshort]
      cases rest with
      | nil =>
        rw [TermTail.afterFirst_two, htail]
        simp only [Shape, Agree, TermTail.room, TermTail.Shape, TermTail.length, TermTail.Agree,
          hshort]
        constructor
        · rintro ⟨⟨h1, -, h2⟩, h3, h4, h5⟩
          exact ⟨⟨trivial, ⟨h4, trivial⟩, by omega⟩, h1, h2, h3, h5, trivial⟩
        · rintro ⟨⟨-, ⟨h4, -⟩, -⟩, h1, h2, h3, h5, -⟩
          exact ⟨⟨h1, by omega, h2⟩, h3, h4, h5⟩
      | cons op₃ f₃ rest₃ =>
        obtain ⟨v₃, tail₃⟩ := f₃
        rw [TermTail.afterFirst_three hp, htail]
        simp only [Shape, Agree, TermTail.room, TermTail.Shape, TermTail.length, TermTail.Agree,
          hshort]
        constructor
        · rintro ⟨⟨h1, -, h2⟩, ⟨h3, h4, h5⟩, h6, h7, h8, rfl⟩
          exact ⟨⟨trivial, ⟨h4, h7, trivial⟩, by simp [TermTail.length]⟩, h1, h2, h3, h5, h6, h8,
            trivial⟩
        · rintro ⟨⟨-, ⟨h4, h7, -⟩, hlen⟩, h1, h2, h3, h5, h6, h8, -⟩
          have hnil : rest₃ = .nil := by
            cases rest₃ with
            | nil => rfl
            | cons _ _ _ =>
              simp only [TermTail.length] at hlen
              omega
          subst hnil
          exact ⟨⟨h1, by omega, h2⟩, ⟨h3, h4, h5⟩, h6, h7, h8, rfl⟩
    · obtain ⟨o, l, r, hg⟩ := tail.grouped_long hshort v.grouped
        (TermTail.cons op (.mk v₂ tail₂) rest).afterFirst
      obtain ⟨o', l', r', hu, -⟩ := TermTail.usual_cons op (.mk v₂ tail₂) rest
        (Factor.mk v tail).usual
      refine iff_of_false ?_ fun h => hshort h.1.1
      rw [grouped, usual, hg, hu]
      intro h
      injection h with ho _ _
      exact o.operation_ne o' ho

mutual

theorem Value.grouped_eq_usual_iff : ∀ v : Value, v.grouped = v.usual ↔ v.Narrow
  | .ident _ => iff_of_true rfl trivial
  | .number _ => iff_of_true rfl trivial
  | .paren t => t.grouped_eq_usual_iff

theorem FactorTail.agree_iff : ∀ tail : FactorTail, tail.Agree ↔ tail.Narrow
  | .nil => Iff.rfl
  | .cons _ v tail => and_congr v.grouped_eq_usual_iff tail.agree_iff

/-- **The readings of an expression agree exactly when it is narrow.** -/
theorem Term.grouped_eq_usual_iff : ∀ t : Term, t.grouped = t.usual ↔ t.Narrow
  | .mk (.mk v tail) rest =>
    (Term.grouped_eq_usual_iff_shape _).trans (and_congr Iff.rfl
      (and_congr v.grouped_eq_usual_iff (and_congr tail.agree_iff rest.agree_iff)))

theorem TermTail.agree_iff : ∀ tail : TermTail, tail.Agree ↔ tail.Narrow
  | .nil => Iff.rfl
  | .cons _ (.mk v tail) rest =>
    and_congr v.grouped_eq_usual_iff (and_congr tail.agree_iff rest.agree_iff)

end

end Compiler
