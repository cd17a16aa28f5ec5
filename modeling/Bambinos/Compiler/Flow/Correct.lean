import Bambinos.Compiler.Layout
import Bambinos.Compiler.Grouping
import Bambinos.Compiler.Flow.Statements
import Bambinos.Compiler.Flow.Machine

/-!
# Control flow is compiled correctly

* `IntLocal` — the variables that a method body is made of
* `intLocals_apart` — they have different cells in every frame
* `Performs` — the code of a block performs its assignments
* `bodyBlock_correct` — the parser writes such code
* `long_body_fails` — not if a branch has to go too far
-/

namespace Compiler

open Infra

/-! ## the variables of a method -/

namespace SymbolTableList

variable {name : String} {c : SymbolTableCell} {t t₀ : SymbolTableList} {m : MethodDecl}

/-- A cell that is found is one of the class or the one that the last method has. -/
theorem lookup_mem {m : SymbolEntry} : ∀ {l : List SymbolEntry} {found : Option SymbolTableCell},
    lookup name (l ++ [m]) found = some c →
      found = some c ∨ (∃ e ∈ l ++ [m], e.cell = c) ∨ m.methodSymbols.getSymbol name = some c
  | [], found, h => by
    rw [List.nil_append, lookup] at h
    by_cases hm : m.cell.name = name ∧ m.cell.classType = .method
    · rw [if_pos hm] at h
      exact Or.inr (Or.inl ⟨m, by simp, Option.some.inj h⟩)
    · rw [if_neg hm] at h
      dsimp only at h
      have hclass : (if m.cell.name = name then some m.cell else found) = some c →
          found = some c ∨ (∃ e ∈ [] ++ [m], e.cell = c) ∨
            m.methodSymbols.getSymbol name = some c := by
        intro h
        split at h
        · exact Or.inr (Or.inl ⟨m, by simp, Option.some.inj h⟩)
        · exact Or.inl h
      by_cases hlast : m.cell.classType = .method ∧ ([] : List SymbolEntry) = []
      · rw [if_pos hlast] at h
        rcases Option.or_eq_some_iff.mp h with hsym | ⟨-, h⟩
        · exact Or.inr (Or.inr hsym)
        · exact hclass h
      · rw [if_neg hlast] at h
        exact hclass h
  | e :: l, found, h => by
    rw [List.cons_append, lookup] at h
    by_cases hm : e.cell.name = name ∧ e.cell.classType = .method
    · rw [if_pos hm] at h
      exact Or.inr (Or.inl ⟨e, by simp, Option.some.inj h⟩)
    · rw [if_neg hm] at h
      dsimp only at h
      rw [if_neg (by simp)] at h
      rcases lookup_mem h with hfound | ⟨e', he', hc⟩ | hsym
      · split at hfound
        · exact Or.inr (Or.inl ⟨e, by simp, Option.some.inj hfound⟩)
        · exact Or.inl hfound
      · exact Or.inr (Or.inl ⟨e', List.mem_cons_of_mem _ he', hc⟩)
      · exact Or.inr (Or.inr hsym)

/-- A cell that is not one of the class is one of the method whose body is parsed. -/
theorem mem_symbols_of_getSymbol (hw : m.words < 2147483648) (hglobal : t₀.ClassGlobal)
    (hbody : t₀.methodBody m = some t) (h : t.getSymbol name = some c)
    (hlocal : c.globalScope = false) : c ∈ m.symbols ∧ c.name = name := by
  obtain ⟨cell, -, -, -, hlist, -⟩ := methodBody_symList hw hbody
  have hclass := hglobal.methodBody hbody
  rw [getSymbol_eq, hlist] at h
  rcases lookup_mem h with hnone | ⟨e, he, rfl⟩ | hsym
  · cases hnone
  · have hg := hclass e (by rw [hlist]; exact he)
    rw [hg] at hlocal
    cases hlocal
  · rw [MethodSymbols.getSymbol_eq] at hsym
    exact ⟨List.mem_reverse.mp (List.mem_of_find?_eq_some hsym), by simpa using List.find?_some hsym⟩

end SymbolTableList

theorem cells_size {globalScope : Bool} {offset : Int} {ds : List Declaration}
    {c : SymbolTableCell} (hc : c ∈ cells globalScope offset ds) (hvar : c.classType = .var) :
    c.size = 1 := by
  induction ds generalizing offset with
  | nil => simp [cells] at hc
  | cons d ds ih =>
    rcases List.mem_cons.mp hc with rfl | hmem
    · cases d with
      | scalar type name => rfl
      | array type name size => cases hvar
    · exact ih hmem

/-- Two scalars have different places. -/
theorem cells_apart {globalScope : Bool} {offset : Int} {ds : List Declaration}
    {c c' : SymbolTableCell} (hc : c ∈ cells globalScope offset ds)
    (hc' : c' ∈ cells globalScope offset ds) (hvar : c.classType = .var)
    (hvar' : c'.classType = .var) (h : c.offset = c'.offset) : c = c' := by
  induction ds generalizing offset with
  | nil => simp [cells] at hc
  | cons d ds ih =>
    have hsize := cells_size hc hvar
    have hsize' := cells_size hc' hvar'
    rcases List.mem_cons.mp hc with heq | hmem <;> rcases List.mem_cons.mp hc' with heq' | hmem'
    · rw [heq, heq']
    · have hbound := cells_bound hmem'
      rw [heq] at h
      dsimp only at h
      omega
    · have hbound := cells_bound hmem
      rw [heq'] at h
      dsimp only at h
      omega
    · exact ih hmem hmem'

namespace MethodDecl

variable {m : MethodDecl} {c c' : SymbolTableCell}

/-- The parameters are above the frame pointer, the variables below. -/
theorem symbols_bound (hc : c ∈ m.symbols) (hvar : c.classType = .var) :
    (c ∈ cells false (m.params.length + 2) m.paramDecls ∧ 2 ≤ c.offset ∧
        c.offset < m.params.length + 2) ∨
      (c ∈ cells false 0 m.locals ∧ -totalWords m.locals ≤ c.offset ∧ c.offset < 0) := by
  rcases List.mem_append.mp hc with hmem | hmem
  · have hbound := cells_bound hmem
    have hsize := cells_size hmem hvar
    rw [paramDecls, totalWords_params] at hbound
    exact Or.inl ⟨hmem, by omega, by omega⟩
  · have hbound := cells_bound hmem
    have hsize := cells_size hmem hvar
    exact Or.inr ⟨hmem, by omega, by omega⟩

theorem symbols_apart (hc : c ∈ m.symbols) (hc' : c' ∈ m.symbols) (hvar : c.classType = .var)
    (hvar' : c'.classType = .var) (h : c.offset = c'.offset) : c = c' := by
  rcases symbols_bound hc hvar with ⟨hmem, hlo, -⟩ | ⟨hmem, -, hhi⟩ <;>
    rcases symbols_bound hc' hvar' with ⟨hmem', hlo', -⟩ | ⟨hmem', -, hhi'⟩
  · exact cells_apart hmem hmem' hvar hvar' h
  · omega
  · omega
  · exact cells_apart hmem hmem' hvar hvar' h

end MethodDecl

namespace Flow

open Compiler.Parser Vm

variable {t t₀ : SymbolTableList} {m : MethodDecl}

/-- A name that denotes an `int` of the current method. -/
def IntLocal (t : SymbolTableList) (x : String) : Prop :=
  ∃ cell, t.getSymbol x = some cell ∧ cell.classType = .var ∧ cell.type = some .intType ∧
    cell.globalScope = false

/-- The distance of a variable from the frame pointer. -/
def distance (t : SymbolTableList) (x : String) : Int :=
  ((t.getSymbol x).map SymbolTableCell.offset).getD 0

theorem distance_eq {x : String} {cell : SymbolTableCell} (h : t.getSymbol x = some cell) :
    distance t x = cell.offset := by
  rw [distance, h]
  rfl

theorem IntLocal.local {x : String} (h : IntLocal t x) : Local t x (distance t x) := by
  obtain ⟨cell, hcell, -, htype, hscope⟩ := h
  exact ⟨cell, hcell, htype, hscope, (distance_eq hcell).symm⟩

/-- **The variables have different cells** in every frame. -/
theorem intLocals_apart (hw : m.words < 2147483648) (hglobal : t₀.ClassGlobal)
    (hbody : t₀.methodBody m = some t) (base : Word) :
    Apart (distance t) (IntLocal t) base := by
  rintro x y ⟨c, hc, hvar, -, hlocal⟩ ⟨c', hc', hvar', -, hlocal'⟩ h
  obtain ⟨hmem, hx⟩ := SymbolTableList.mem_symbols_of_getSymbol hw hglobal hbody hc hlocal
  obtain ⟨hmem', hy⟩ := SymbolTableList.mem_symbols_of_getSymbol hw hglobal hbody hc' hlocal'
  rw [distance_eq hc, distance_eq hc', add_right_inj] at h
  unfold MethodDecl.words at hw
  have hrange : ∀ {c : SymbolTableCell}, c ∈ m.symbols → c.classType = .var →
      -2147483648 ≤ c.offset ∧ c.offset < 2147483648 := by
    intro c hc hvar
    rcases MethodDecl.symbols_bound hc hvar with ⟨-, h₁, h₂⟩ | ⟨-, h₁, h₂⟩
    · omega
    · omega
  have hoffset := imm_injective (hrange hmem hvar) (hrange hmem' hvar') h
  rw [← hx, ← hy, MethodDecl.symbols_apart hmem hmem' hvar hvar' hoffset]

/-- In a frame that is not too large every variable is close to the frame pointer. -/
theorem intLocals_near (hw : m.words ≤ maxImmediate) (hglobal : t₀.ClassGlobal)
    (hbody : t₀.methodBody m = some t) : Near (distance t) (IntLocal t) := by
  rintro x ⟨c, hc, hvar, -, hlocal⟩
  have hlt : m.words < 2147483648 := hw.trans_lt (by decide)
  obtain ⟨hmem, -⟩ := SymbolTableList.mem_symbols_of_getSymbol hlt hglobal hbody hc hlocal
  unfold MethodDecl.words at hw
  rw [distance_eq hc]
  rcases MethodDecl.symbols_bound hmem hvar with ⟨-, h₁, h₂⟩ | ⟨-, h₁, h₂⟩
  · omega
  · omega

/-! ## the code of a block -/

/--
The code between two addresses performs the assignments of a block. Every run of the block is
answered by a run of the machine that makes the same assignments, and what the machine has written
before that is a part of them.
-/
def Performs {ι : Type} (decode : ι → Fields) (instructions : Instructions ι) (off : String → Int)
    (known : String → Prop) (start exit : Nat) (block : List Stmt) : Prop :=
  ∀ (base : Word) (σ : Store) (s : State ι), Here instructions start s →
    Represents off known base σ s →
      ∀ (n : Nat) (es : List (String × Word)) (c : Config), Runs Config.Step n ⟨block, σ⟩ es c →
        (∃ m s', n ≤ m ∧ Runs (MStep decode instructions) m s (es.map (observed off base)) s' ∧
          (c.todo = [] → Here instructions exit s' ∧ Represents off known base c.store s')) ∧
        ∀ m written s', m ≤ n → Runs (MStep decode instructions) m s written s' →
          written <+: es.map (observed off base)

theorem performs_of_loaded {ι : Type} {decode : ι → Fields} {instructions : Instructions ι}
    {off : String → Int} {known : String → Prop} {start : Nat} {block : List Stmt}
    (hapart : ∀ base, Apart off known base) (hu : blockUses known block)
    (hcode : Loaded decode instructions start (blockCode off start block))
    (hexit : Stands instructions (start + blockSize block)) :
    Performs decode instructions off known start (start + blockSize block) block := by
  intro base σ s hhere hrep n es c hrun
  have hfollows : Follows decode instructions off (start + blockSize block) start block := by
    have hblock := Follows.block block hcode (.nil hexit)
    rw [List.append_nil] at hblock
    exact hblock
  have hsim : Simulates decode instructions off known base (start + blockSize block) ⟨block, σ⟩ s :=
    ⟨hu, hrep, start, hhere, hfollows⟩
  obtain ⟨m, s₁, hm, hrun₁, hsim₁⟩ := hrun.simulate
    (R := Simulates decode instructions off known base (start + blockSize block))
    (f := observed off base) (fun hR hstep => next_answered (hapart base) hR hstep) hsim
  obtain ⟨-, hrep₁, a, hhere₁, hfollows₁⟩ := hsim₁
  obtain ⟨m₂, s₂, a₂, hrun₂, hhere₂, hrep₂, hstarts⟩ := hfollows₁.starts hhere₁ hrep₁
  constructor
  · refine ⟨m + m₂, s₂, by omega, hrun₁.trans_silent hrun₂, ?_⟩
    intro htodo
    rw [htodo] at hstarts
    have haddress : a₂ = start + blockSize block := hstarts
    rw [haddress] at hhere₂
    exact ⟨hhere₂, hrep₂⟩
  · intro m' written s' hle hrun'
    refine hrun'.prefix_of_le ?_ hrun₁ (by omega)
    exact mstep_det

/-- Where the parser is at the first statement of a method body. -/
structure BodyStart (t : SymbolTableList) (s : ParserState) : Prop where
  symbolTable : s.cg.symbolTable = t
  topReg : s.cg.topReg = 0
  pc : s.cg.pc = s.cg.opCode.length + 1
  condMode : s.condMode = false
  braces : s.countTLBRACES ≤ 2
  dot : ∀ token, s.tokenList.getLast? = some token → token.type ≠ .tDot

/-- The block is parsed, and its code is appended. -/
theorem bodyBlock_code {block : List Stmt} (hu : blockUses (IntLocal t) block) {s : ParserState}
    (hs : BodyStart t s) {more : List Lexeme}
    (hahead : s.ahead = blockLexemes block ++ (.tRbraces, none) :: more) {fuel : Nat}
    (hfuel : (blockLexemes block).length < fuel) :
    ∃ s', bodyBlock fuel s = .ok () s' ∧ s'.ahead = (.tRbraces, none) :: more ∧
      s'.cg = s.cg.emit (blockCode (distance t) s.cg.pc block) := by
  have hin : InBody (distance t) (IntLocal t) (control s) :=
    ⟨hs.topReg, hs.pc, hs.condMode, fun x hx => by
      show Local s.cg.symbolTable x _
      rw [hs.symbolTable]
      exact hx.local⟩
  have hreached : Reached s (control s) (blockLexemes block ++ (.tRbraces, none) :: more) :=
    ⟨rfl, hahead, hs.braces, hs.dot⟩
  obtain ⟨_, s', hrun, hreached'⟩ :=
    (bodyBlock_yields (distance t) (IntLocal t) fuel hfuel hin hu hreached).exists_ok id
  exact ⟨s', hrun, hreached'.ahead, hreached'.cg⟩

/--
**Control flow is compiled correctly.** The code of the block is appended, all its branches go to
addresses of the method, and no register is left in use. The operands of its instructions fit as
long as the addresses and the distances of the variables are small, and wherever words that they fit
into are loaded, these perform the assignments of the block.
-/
theorem bodyBlock_correct {globals : List Declaration} {methods : List MethodDecl}
    (hclass : SymbolTableList.ofClass globals methods = some t₀) (hw : m.words < 2147483648)
    (hbody : t₀.methodBody m = some t) {block : List Stmt} (hu : blockUses (IntLocal t) block)
    {s : ParserState} (hs : BodyStart t s) {more : List Lexeme}
    (hahead : s.ahead = blockLexemes block ++ (.tRbraces, none) :: more) {fuel : Nat}
    (hfuel : (blockLexemes block).length < fuel) :
    ∃ s' code, bodyBlock fuel s = .ok () s' ∧ s'.ahead = (.tRbraces, none) :: more ∧
      s'.cg.opCode = s.cg.opCode ++ code ∧ s'.cg.pc = s.cg.pc + code.length ∧ s'.cg.topReg = 0 ∧
      Within s.cg.pc (s.cg.pc + code.length) code ∧
      (∀ base, Apart (distance t) (IntLocal t) base) ∧
      (s.cg.pc + code.length ≤ maxImmediate → m.words ≤ maxImmediate →
        ∀ e ∈ code, OperandsFit e) ∧
      ((∀ e ∈ code, OperandsFit e) → ∀ instructions, WordsAt instructions s.cg.pc code →
        Stands instructions (s.cg.pc + code.length) →
          Performs decode instructions (distance t) (IntLocal t) s.cg.pc
            (s.cg.pc + code.length) block) := by
  have hapart := intLocals_apart hw (SymbolTableList.ofClass_classGlobal hclass) hbody
  obtain ⟨s', hrun, hahead', hcg⟩ := bodyBlock_code hu hs hahead hfuel
  have hlength := blockCode_length (distance t) s.cg.pc block
  have hwithin := @blockCode_within (distance t) s.cg.pc
    (s.cg.pc + (blockCode (distance t) s.cg.pc block).length) block s.cg.pc (Nat.le_refl _)
    (by rw [hlength])
  refine ⟨s', blockCode (distance t) s.cg.pc block, hrun, hahead', ?_, ?_, ?_, hwithin, hapart,
    ?_, ?_⟩
  · rw [hcg]
    rfl
  · rw [hcg]
    rfl
  · rw [hcg]
    exact hs.topReg
  · intro hhi hframe
    have hnear := intLocals_near hframe (SymbolTableList.ofClass_classGlobal hclass) hbody
    exact (blockCode_shaped hnear block _ hu).operandsFit hwithin hhi
  · intro hfits instructions hcode hexit
    rw [hlength] at hexit ⊢
    exact performs_of_loaded hapart hu (hcode.loaded hfits) hexit

/-- `void main() { int x; int y; … }` -/
def twoInts : MethodDecl :=
  { name := "main", params := [], locals := [.scalar .intType "x", .scalar .intType "y"] }

/-- `while (x < 3) { if (x == y || (y > 1 && x != 2)) { x = y; } else { x = 5; } }` -/
def nestedLoop : List Stmt :=
  let small : Condition := ⟨.and, .last (.comparison ⟨.variable "x", .lt, .literal 3⟩)⟩
  let inner : Juncts := .cons (.comparison ⟨.variable "y", .gt, .literal 1⟩)
    (.last (.comparison ⟨.variable "x", .ne, .literal 2⟩))
  let choice : Condition := ⟨.or, .cons (.comparison ⟨.variable "x", .eq, .variable "y"⟩)
    (.last (.brackets .and inner))⟩
  [.whileDo small [.ifElse choice [.assign "x" (.variable "y")] [.assign "x" (.literal 5)]]]

/-- The parser at the first statement of a body with the given symbols. -/
def bodyReading (t : SymbolTableList) (ls : List Lexeme) : ParserState :=
  { reading ls with cg := { CodeGenerator.init with symbolTable := t } }

theorem bodyReading_start (t : SymbolTableList) (ls : List Lexeme) :
    BodyStart t (bodyReading t ls) :=
  ⟨rfl, rfl, rfl, rfl, show (0 : Int) ≤ 2 by decide, nofun⟩

/-- The token of a lexeme gives the lexeme back, unless it has a value that it should not have. -/
def Plain (ls : List Lexeme) : Prop :=
  ls.map (fun l => ({ type := l.1, value := l.2, lineNumber := 1 } : Ident).lexeme) = ls

theorem Plain.append {ls ls' : List Lexeme} (h : Plain ls) (h' : Plain ls') : Plain (ls ++ ls') := by
  unfold Plain at *
  rw [List.map_append, h, h']

theorem bodyReading_ahead (t : SymbolTableList) {ls : List Lexeme} (hne : ls ≠ []) (h : Plain ls) :
    (bodyReading t ls).ahead = ls := by
  cases ls with
  | nil => exact absurd rfl hne
  | cons l ls =>
    refine Eq.trans ?_ h
    simp [bodyReading, reading, ParserState.ahead, ParserState.init]

theorem twoInts_symbols (hbody : SymbolTableList.empty.methodBody twoInts = some t) :
    IntLocal t "x" ∧ IntLocal t "y" ∧ distance t "x" = -1 ∧ distance t "y" = -2 := by
  cases hbody
  exact ⟨⟨_, rfl, rfl, rfl, rfl⟩, ⟨_, rfl, rfl, rfl, rfl⟩, rfl, rfl⟩

/-- The two variables are close to the frame pointer. -/
theorem twoInts_distance (hbody : SymbolTableList.empty.methodBody twoInts = some t) {z : String}
    (hz : IntLocal t z) : distance t z = -1 ∨ distance t z = -2 := by
  obtain ⟨c, hc, -, -, hlocal⟩ := hz
  have hglobal : SymbolTableList.empty.ClassGlobal := fun e he => by cases he
  obtain ⟨hmem, -⟩ := SymbolTableList.mem_symbols_of_getSymbol (by decide) hglobal hbody hc hlocal
  rw [distance_eq hc]
  have hcells : twoInts.symbols =
      [⟨"x", .var, some .intType, 0, -1, 1, false⟩, ⟨"y", .var, some .intType, 0, -2, 1, false⟩] := by
    decide
  rw [hcells] at hmem
  rcases List.mem_pair.mp hmem with rfl | rfl
  · exact Or.inl rfl
  · exact Or.inr rfl

/-- What follows the body, for a start. -/
def behindBody : OpCodeElement := .mk3 .ret 0 0 lnk

theorem bodyBlock_correct_nestedLoop :
    ∃ t s', SymbolTableList.empty.methodBody twoInts = some t ∧
      bodyBlock 60 (bodyReading t (blockLexemes nestedLoop ++ [(.tRbraces, none)])) = .ok () s' ∧
      Performs decode (load ((s'.cg.opCode ++ [behindBody]).map OpCodeElement.word)) (distance t)
        (IntLocal t) 2 (s'.cg.opCode.length + 1) nestedLoop := by
  obtain ⟨t, hbody⟩ : ∃ t, SymbolTableList.empty.methodBody twoInts = some t := ⟨_, rfl⟩
  obtain ⟨hx, hy, -⟩ := twoInts_symbols hbody
  have hl : ∀ n ≤ 5, (Operand.literal n).Uses (IntLocal t) := fun n hn =>
    hn.trans (show 5 ≤ 32767 by decide)
  have hinner : (Junct.comparison ⟨.variable "y", .gt, .literal 1⟩).Uses (IntLocal t) ∧
      (Junct.comparison ⟨.variable "x", .ne, .literal 2⟩).Uses (IntLocal t) :=
    ⟨⟨hy, hl 1 (by decide)⟩, hx, hl 2 (by decide)⟩
  have hu : blockUses (IntLocal t) nestedLoop :=
    ⟨⟨⟨hx, hl 3 (by decide)⟩, ⟨⟨⟨hx, hy⟩, hinner⟩, ⟨⟨hx, hy⟩, trivial⟩,
      ⟨hx, hl 5 (by decide)⟩, trivial⟩, trivial⟩, trivial⟩
  have hstart := bodyReading_start t (blockLexemes nestedLoop ++ [(.tRbraces, none)])
  obtain ⟨s', code, hrun, -, hcode, -, -, -, -, hfits, hperforms⟩ :=
    @bodyBlock_correct t _ twoInts [] [] rfl (by decide) hbody nestedLoop hu _ hstart [] rfl 60
      (by decide)
  obtain ⟨s₁, hrun₁, -, hcg⟩ := @bodyBlock_code t nestedLoop hu _ hstart [] rfl 60 (by decide)
  rw [hrun₁] at hrun
  injection hrun with _ hs
  rw [← hs, hcg] at hcode
  have hlength : code.length = blockSize nestedLoop := by
    rw [← List.append_cancel_left hcode, blockCode_length]
  have hfits := hfits (by
    rw [hlength]
    exact (by decide : 2 + blockSize nestedLoop ≤ maxImmediate)) (by decide)
  have hend : s₁.cg.opCode.length + 1 = 2 + code.length := by
    rw [hcg, hcode, List.length_append]
    show 1 + code.length + 1 = 2 + code.length
    omega
  refine ⟨t, s₁, hbody, hrun₁, ?_⟩
  rw [hend, hcg, hcode, List.append_assoc]
  exact hperforms hfits _ (wordsAt_load _ _ _) (stands_load _ _ _ [])

/-! ## a body that is too long -/

/-- `if (x < y) { x = 5; … }`, with so many assignments that what follows is at address 32786. -/
def longBody : List Stmt :=
  [.ifThen ⟨.and, .last (.comparison ⟨.variable "x", .lt, .variable "y"⟩)⟩
    (List.replicate 16390 (.assign "x" (.literal 5)))]

theorem blockSize_replicate (n : Nat) (x : String) (o : Operand) :
    blockSize (List.replicate n (.assign x o)) = 2 * n := by
  induction n with
  | zero => rfl
  | succ n ih =>
    rw [List.replicate_succ, blockSize, ih, Stmt.size]
    omega

theorem plain_replicate (n : Nat) (x : String) (o : Operand) :
    Plain (blockLexemes (List.replicate n (.assign x o))) := by
  induction n with
  | zero => rfl
  | succ n ih =>
    rw [List.replicate_succ, blockLexemes]
    refine Plain.append ?_ ih
    cases o <;> rfl

theorem longBody_plain : Plain (blockLexemes longBody ++ [(.tRbraces, none)]) := by
  unfold longBody
  rw [blockLexemes, Stmt.lexemes]
  generalize hbody : blockLexemes (List.replicate 16390 (.assign "x" (.literal 5))) = body
  have hplain : Plain body := by
    rw [← hbody]
    exact plain_replicate _ _ _
  unfold Plain at hplain ⊢
  simp only [List.map_cons, List.map_append, hplain]
  rfl

theorem blockUses_replicate {known : String → Prop} {x : String} {o : Operand} (hx : known x)
    (ho : o.Uses known) (n : Nat) : blockUses known (List.replicate n (.assign x o)) := by
  induction n with
  | zero => trivial
  | succ n ih => exact ⟨⟨hx, ho⟩, ih⟩

/-- The words of `longBody` up to its branch, which is written for address 32786. -/
def longTest : List OpCodeElement := [.mk3 .ldw 1 fp (-1), .mk3 .ldw 2 fp (-2), .mk3 .cmp 1 1 2]

def longBranch : OpCodeElement := .mk2 .bge 1 32786

theorem longBody_code (hbody : SymbolTableList.empty.methodBody twoInts = some t) :
    ∃ rest, blockCode (distance t) 2 longBody = longTest ++ longBranch :: rest := by
  obtain ⟨-, -, hx, hy⟩ := twoInts_symbols hbody
  refine ⟨blockCode (distance t) 6 (List.replicate 16390 (.assign "x" (.literal 5))), ?_⟩
  simp only [longBody, blockCode, Stmt.code, Condition.code, Condition.size, Juncts.code, Junct.code,
    Juncts.size, Junct.size, Comparison.code, Operand.load, hx, hy, blockSize_replicate,
    List.append_nil]
  rfl

/-- The branch is read back with another address. -/
theorem decode_longBranch :
    decode longBranch.word = ⟨OpCode.bge.code, 1, 0, -18⟩ := by decide

/-- The machine stops at the branch when it is to be taken. -/
theorem longBranch_stuck {instructions : Instructions Word} {a : Nat} {s : State Word} {v : Word}
    (hw : instructions[a]? = some (some longBranch.word)) (hhere : Here instructions a s)
    (hv : s.reg 1 = some v) (hle : 0 ≤ v.toInt) (es : List (Word × Option Word)) (s' : State Word) :
    ¬ MStep decode instructions s es s' := by
  rintro ⟨a', w, hat, hstep, -⟩
  obtain ⟨w', hat'⟩ := hhere
  obtain ⟨rfl, rfl⟩ := hat'.unique hat
  have hword := hat.word
  rw [hw] at hword
  obtain rfl : longBranch.word = w' := Option.some.inj (Option.some.inj hword)
  have hdispatch : dispatch (decode longBranch.word) s = .ok () (s.jump (-18)) := by
    rw [decode_longBranch]
    show branch (fun v => 0 ≤ v) 1 (-18) s = _
    rw [branch_run (by decide) hv, if_pos (by simpa using hle)]
    exact executeBSR_run (by decide)
  have hfetch : fetch instructions (s.jump (-18)) = .error .indexOutOfBounds (s.jump (-18)) := by
    have hle : (-18 : Int) ≤ instructions.length := by omega
    simp only [fetch, bind_run, get_run, State.jump, hle, if_true]
    rfl
  unfold step at hstep
  rw [bind_ok hdispatch, hfetch] at hstep
  cases hstep

/-- A machine that stops at a branch has not been at any address but the first ones. -/
theorem Compared.stuck {ι : Type} {decode : ι → Fields} {instructions : Instructions ι}
    {off : String → Int} {known : String → Prop} {base : Word} {σ : Store} {c : Comparison}
    {pc a n : Nat} {s s₁ s₂ s₃ s' : State ι} {es : List (Word × Option Word)}
    (h : Compared decode instructions off known base σ c pc s s₁ s₂ s₃)
    (hhere : Here instructions pc s) (hstuck : ∀ es s', ¬ MStep decode instructions s₃ es s')
    (hrun : Runs (MStep decode instructions) n s es s') (ha : Here instructions a s') :
    a ≤ pc + 3 := by
  cases hrun with
  | nil =>
    have := hhere.unique ha
    omega
  | cons hstep hrest =>
    obtain ⟨-, rfl⟩ := mstep_det h.first hstep
    cases hrest with
    | nil =>
      have := h.here₁.unique ha
      omega
    | cons hstep hrest =>
      obtain ⟨-, rfl⟩ := mstep_det h.second hstep
      cases hrest with
      | nil =>
        have := h.here₂.unique ha
        omega
      | cons hstep hrest =>
        obtain ⟨-, rfl⟩ := mstep_det h.third hstep
        cases hrest with
        | nil =>
          have := h.here₃.unique ha
          omega
        | cons hstep _ => exact absurd hstep (hstuck _ _)

theorem skip_step {σ : Store} {cond : Condition} (h : cond.eval σ = some false) (body : List Stmt) :
    Config.Step ⟨[.ifThen cond body], σ⟩ [] ⟨[], σ⟩ := by
  show (cond.eval σ).map _ = _
  rw [h]
  rfl

/-- The frame pointer is 100, `x` is 7 and `y` is 3. -/
def longStart : State Word where
  registers i := if i = 0 then some 0 else some 100
  memory a := if a = 98 then some 3 else some 7
  pc := some 3
  ir := some (OpCodeElement.word (.mk3 .ldw 1 fp (-1)))
  cip := 2
  output := []

def longStore (t : SymbolTableList) : Store := fun z => if distance t z = -2 then 3 else 7

theorem longStart_represents (hbody : SymbolTableList.empty.methodBody twoInts = some t) :
    Represents (distance t) (IntLocal t) 100 (longStore t) longStart where
  zero := rfl
  frame := rfl
  address := by
    intro z hz
    rcases twoInts_distance hbody hz with h | h <;> rw [h] <;> decide
  value := by
    intro z hz
    unfold longStore
    rcases twoInts_distance hbody hz with h | h <;> rw [h] <;> decide

/-- **The branch over a long body misses**: nothing is to be assigned, but the end is not reached. -/
theorem long_body_fails :
    ∃ t s', SymbolTableList.empty.methodBody twoInts = some t ∧
      bodyBlock ((blockLexemes longBody).length + 1)
        (bodyReading t (blockLexemes longBody ++ [(.tRbraces, none)])) = .ok () s' ∧
      ¬ Performs decode (load ((s'.cg.opCode ++ [behindBody]).map OpCodeElement.word)) (distance t)
        (IntLocal t) 2 (s'.cg.opCode.length + 1) longBody := by
  -- the program and its code: a comparison, the branch over the body, and the body
  obtain ⟨t, hbody⟩ : ∃ t, SymbolTableList.empty.methodBody twoInts = some t := ⟨_, rfl⟩
  obtain ⟨hx, hy, hdx, hdy⟩ := twoInts_symbols hbody
  have hassign := blockUses_replicate hx
    (show (Operand.literal 5).Uses (IntLocal t) from (by decide : 5 ≤ 32767)) 16390
  have hu : blockUses (IntLocal t) longBody := ⟨⟨⟨hx, hy⟩, hassign⟩, trivial⟩
  have hne : blockLexemes longBody ++ [(.tRbraces, none)] ≠ [] := fun h =>
    List.cons_ne_nil _ _ (List.append_eq_nil_iff.mp h).2
  have hahead := bodyReading_ahead t hne longBody_plain
  obtain ⟨s', hrun, -, hcg⟩ := @bodyBlock_code t longBody hu _ (bodyReading_start t _) [] hahead _
    (Nat.lt_add_one _)
  refine ⟨t, s', hbody, hrun, fun hperforms => ?_⟩
  obtain ⟨rest, hcode⟩ := longBody_code hbody
  have hlength := blockCode_length (distance t) 2 longBody
  rw [hcode] at hlength
  have hopCode : s'.cg.opCode = CodeGenerator.init.opCode ++ (longTest ++ longBranch :: rest) := by
    rw [hcg, ← hcode]
    rfl
  have hwords := wordsAt_load CodeGenerator.init.opCode (longTest ++ longBranch :: rest) [behindBody]
  rw [hopCode, List.append_assoc] at hperforms
  generalize load ((CodeGenerator.init.opCode ++ ((longTest ++ longBranch :: rest) ++
    [behindBody])).map OpCodeElement.word) = instructions at hwords hperforms
  -- from a state where the comparison is false the machine comes to the branch
  have hhere : Here instructions 2 longStart :=
    ⟨_, (hwords 0 _ rfl).1, rfl, rfl, rfl, (hwords 0 _ rfl).2⟩
  have hbranch := hwords 3 longBranch rfl
  obtain ⟨s₁, s₂, s₃, hcompared⟩ := @operands_run Word decode instructions (distance t) (IntLocal t)
    100 (longStore t) longStart 2 ⟨.variable "x", .lt, .variable "y"⟩ ⟨hx, hy⟩ (by
      rw [Operand.load, Operand.load, hdx, hdy]
      exact hwords.left.loaded (by decide)) hhere (longStart_represents hbody)
    ⟨⟨_, hbranch.1⟩, hbranch.2⟩
  have hvalue : s₃.reg 1 = some 4 := by
    rw [hcompared.difference]
    simp only [Operand.value, longStore, hdx, hdy]
    decide
  -- the word of the branch is read back with a negative distance, and no instruction is there
  have hstuck := longBranch_stuck hbranch.1 hcompared.here₃ hvalue (by decide)
  -- but the source statement is finished at once, and the machine would have to be behind the body
  have heval : Condition.eval (longStore t)
      ⟨.and, .last (.comparison ⟨.variable "x", .lt, .variable "y"⟩)⟩ = some false := by
    simp only [Condition.eval, Juncts.eval, Junct.eval, Comparison.eval, Operand.value, longStore,
      hdx, hdy]
    decide
  obtain ⟨⟨m, s, -, hmachine, hend⟩, -⟩ := hperforms 100 (longStore t) longStart hhere
    (longStart_represents hbody) 1 [] ⟨[], longStore t⟩ (Runs.one (skip_step heval _))
  have hle := hcompared.stuck hhere hstuck hmachine (hend rfl).1
  rw [List.length_append, hlength, longBody, blockSize, Stmt.size, blockSize_replicate] at hle
  omega

end Flow

end Compiler
