import Bambinos.Compiler.Growth

/-!
# What the productions add to the code

Every production appends to the code, and the jumps that it hands on are in what was appended.

* `Own` — the jumps of a list are behind the code of `g₀`
* `Parses` — a production keeps that
* `parses_expression` — the circle of productions is closed by induction on the fuel
-/

namespace Compiler.Parser

open Infra

/-- The jumps of a list are in the code that was appended. -/
def Own (g₀ : CodeGenerator) (vec : List FixUps) : Prop :=
  ∀ f ∈ vec, g₀.opCode.length ≤ f.position

/-- A production appends to the code, and hands on jumps of its own. -/
def Parses (inside : Bool) (T : SymbolTableList → Prop) (g₀ : CodeGenerator)
    (k : Option Nat) (ex : Production) : Prop :=
  ∀ vec, Own g₀ vec → Grows inside T g₀ k (ex vec) fun r => Own g₀ r.2

variable {inside : Bool} {T : SymbolTableList → Prop} {g₀ : CodeGenerator}
  {k : Option Nat} {ex : Production} {α : Type} {q : α → Prop}

/-! ## values -/

theorem grows_freshExpression (h : Parses inside T g₀ k ex) :
    Grows inside T g₀ k (freshExpression ex) fun _ => True :=
  (h [] nofun).seq fun _ => Guards.keep trivial

theorem grows_arraySelector (h : Parses inside T g₀ k ex) :
    Grows inside T g₀ k (arraySelector ex) fun _ => True := by
  unfold arraySelector
  refine grows_tokenCount.seq fun sIdentPos => (grows_expect _).seq fun _ => ?_
  have hlast : ∀ result : Option Item, Grows inside T g₀ k
      (do expectWeak .tRbrack; return result) fun _ => True := fun result =>
    (grows_expectWeak _).seq fun _ => Guards.keep trivial
  refine grows_currentType.seq fun t => Guards.ite (fun _ => ?_) fun _ => hlast none
  refine (grows_freshExpression h).seq fun item => (grows_deref _).seq fun item => ?_
  refine grows_guard _ (grows_loadLast ?_)
  refine (grows_takeItem _).seq fun _ => (grows_tokenAt _).seq fun _ => ?_
  refine (grows_getSymbol _).seq fun _ => (grows_deref _).seq fun _ => ?_
  exact (grows_gen (Writes.selectElement _)).seq fun _ => hlast _

theorem grows_argument (h : Parses inside T g₀ k ex) :
    Grows inside T g₀ k (argument ex) fun _ => True := by
  unfold argument
  refine (grows_freshExpression h).seq fun item => (grows_deref _).seq fun item => ?_
  exact grows_loadLast ((grows_takeItem _).seq fun _ => grows_gen Writes.pushRegister)

theorem grows_calledMethod : Grows inside T g₀ k calledMethod fun _ => True := by
  unfold calledMethod
  refine grows_tokenCount.seq fun _ => (grows_tokenName _).seq fun name => ?_
  refine grows_get.seq fun _ => Guards.ite (fun _ => ?_) fun _ => ?_
  · refine grows_tokenCount.seq fun _ => (grows_getIdentifersCell _).seq fun _ => ?_
    exact (grows_deref _).seq fun _ => grows_get.seq fun _ => Guards.keep trivial
  · refine grows_tokenCount.seq fun _ => (grows_tokenName _).seq fun className => ?_
    refine grows_get.seq fun s => ?_
    cases s.cg.objectTypes.lookup className with
    | none => exact grows_line.seq fun _ => grows_syntaxError _
    | some fields => exact (grows_deref _).seq fun _ => Guards.keep trivial

/-- The call, and its entry in the fixup table. -/
theorem grows_call (proc : Int) (name : String) {m : P α}
    (hm : Grows inside T g₀ k m q) :
    Grows inside T g₀ k
      (do
        let fixup ← genGet (·.methodCall proc)
        gen fun g => { g with fixupTable := g.fixupTable ++ [⟨name, fixup + 1⟩] }
        m) q := by
  have hcall : Grows inside T g₀ k
      (do
        let fixup ← genGet (·.methodCall proc)
        gen fun g => { g with fixupTable := g.fixupTable ++ [⟨name, fixup + 1⟩] } : P Unit)
      fun _ => True := by
    refine Guards.of_ok fun s h => ⟨_, _, rfl, ⟨⟨?_, h.table, h.jumps, h.returns, h.tokens⟩,
      h.level.imp id fun h => ⟨h.1, h.2⟩⟩, trivial⟩
    have hle := h.written.length_le
    have hpc := h.written.pc
    obtain ⟨hcode, hpc', hfix, hmain, calls, hcalls, hbound⟩ :=
      (Writes.methodCall proc s.cg h.written).1
    have hlength : ((s.cg.methodCall proc).2.opCode).length = s.cg.opCode.length + 1 :=
      List.length_append
    -- the position in the entry is that of the `BSR` itself
    have hposition : ((s.cg.methodCall proc).1 : Int) = s.cg.opCode.length := by
      show (((s.cg.pc + 1) - 2 : Nat) : Int) = _
      omega
    refine ⟨hcode, hpc', hfix, hmain, calls ++ [⟨name, (s.cg.methodCall proc).1 + 1⟩], ?_, ?_⟩
    · show (s.cg.methodCall proc).2.fixupTable ++ _ = _
      rw [hcalls, List.append_assoc]
    · intro f hf
      rcases List.mem_append.mp hf with hmem | hmem
      · exact hbound f hmem
      · rw [List.mem_singleton.mp hmem]
        show _ ∧ _ ≤ (((s.cg.methodCall proc).2.opCode).length : Int)
        rw [hlength]
        dsimp only
        omega
  -- the call and its entry belong together: in between the entry is missing
  have hassoc : (do
        let fixup ← genGet (·.methodCall proc)
        gen fun g => { g with fixupTable := g.fixupTable ++ [⟨name, fixup + 1⟩] }
        m : P α) =
      ((do
        let fixup ← genGet (·.methodCall proc)
        gen fun g => { g with fixupTable := g.fixupTable ++ [⟨name, fixup + 1⟩] } : P Unit) >>=
        fun _ => m) := rfl
  rw [hassoc]
  exact hcall.seq fun _ => hm

theorem grows_methodCallSuffix (h : Parses inside T g₀ k ex) (fuel : Nat) :
    Grows inside T g₀ k (methodCallSuffix ex fuel) fun _ => True := by
  unfold methodCallSuffix
  refine (grows_expect _).seq fun _ => grows_calledMethod.seq fun called => ?_
  refine grows_currentType.seq fun _ => Guards.optional (grows_argument h) ?_
  refine Guards.seq (q := fun _ => True) ?arguments fun _ => ?_
  case arguments =>
    exact Guards.whileLoop (fun _ _ => (grows_expectWeak _).seq fun _ => grows_argument h) fuel trivial
  exact (grows_expect _).seq fun _ => grows_call _ _ (Guards.keep trivial)

theorem parses_value (h : Parses inside T g₀ k ex) (fuel : Nat) :
    ∀ depth, Parses inside T g₀ k (value ex fuel depth)
  | 0 => fun _ _ => Guards.throw nofun
  | depth + 1 => by
    intro vec hvec
    unfold value
    refine grows_currentType.seq fun t => ?_
    split
    · refine grows_identifier.seq fun _ => grows_get.seq fun _ => ?_
      -- an identifier may be the name of a method
      have hcall : ∀ item : Option Item, Grows inside T g₀ k
          (do
            let mut returnItem := item
            if (← currentType) = .tLparen then
              dropItem returnItem
              returnItem ← methodCallSuffix ex fuel
            return (returnItem, vec)) fun r => Own g₀ r.2 := fun item =>
        grows_currentType.seq fun _ => Guards.ite (fun _ => (grows_dropItem _).seq fun _ =>
          (grows_methodCallSuffix h fuel).seq fun _ => Guards.keep hvec) fun _ => Guards.keep hvec
      refine grows_currentType.seq fun _ => Guards.ite (fun _ => ?_) fun _ => hcall _
      refine (grows_arraySelector h).seq fun item => (grows_deref _).seq fun _ => ?_
      exact (grows_gen (Writes.loadWordArray _)).seq fun _ => hcall item
    · exact grows_intValue.seq fun _ => Guards.keep hvec
    · exact grows_get.seq fun _ => (grows_parseInt _).seq fun _ => (grows_expect _).seq fun _ =>
        Guards.keep hvec
    · exact grows_booleanValue.seq fun _ => Guards.keep hvec
    · exact grows_booleanValue.seq fun _ => Guards.keep hvec
    · exact (grows_expect _).seq fun _ => Guards.keep hvec
    · exact (grows_expect _).seq fun _ => Guards.keep hvec
    · refine (grows_expect _).seq fun _ => (parses_value h fuel depth vec hvec).step fun r hr => ?_
      exact (grows_dropItem _).seq fun _ => Guards.keep hr
    · exact (grows_expect _).seq fun _ => (h vec hvec).step fun r hr =>
        (grows_expect _).seq fun _ => Guards.keep hr
    · exact Guards.keep hvec

/-! ## factor and term -/

/-- The third operand of an operation is an expression of its own. -/
theorem grows_third {c : Prop} [Decidable c] (h : Parses inside T g₀ k ex) {index : Int}
    {item : Option Item} {f : Option Item → P α} (hf : ∀ r, Grows inside T g₀ k (f r) q) :
    Grows inside T g₀ k
      (do
        if c then
          let kind ← deref (← getOperation)
          let r ← delayedCodeGen kind index item (← freshExpression ex)
          f r
        else f item) q := by
  refine Guards.ite (fun _ => ?_) fun _ => hf item
  refine grows_getOperation.seq fun _ => (grows_deref _).seq fun kind => ?_
  exact (grows_freshExpression h).seq fun _ => (grows_delayedCodeGen _ _ _ _).seq hf

theorem parses_factor (h : Parses inside T g₀ k ex) (fuel : Nat) :
    Parses inside T g₀ k (factor delayedCodeGen ex fuel) := by
  intro vec hvec
  unfold factor
  refine (parses_value h fuel fuel vec hvec).step fun r hr => ?_
  refine grows_currentType.seq fun t => Guards.ite (fun _ => ?_) fun _ => Guards.keep hr
  refine grows_tokenCount.seq fun index => grows_getOperation.seq fun _ => ?_
  refine (grows_deref _).seq fun kind => (parses_value h fuel fuel r.2 hr).step fun r' hr' => ?_
  refine (grows_delayedCodeGen _ _ _ _).seq fun item => grows_currentType.seq fun t => ?_
  exact grows_third h fun _ => Guards.keep hr'

theorem parses_term (h : Parses inside T g₀ k ex) (fuel : Nat) :
    Parses inside T g₀ k (term delayedCodeGen ex fuel) := by
  intro vec hvec
  unfold term
  refine (parses_factor h fuel vec hvec).step fun r hr => grows_currentType.seq fun _ => ?_
  refine grows_currentType.seq fun t => Guards.ite (fun _ => ?_) fun _ => Guards.keep hr
  refine grows_tokenCount.seq fun index => grows_getOperation.seq fun _ => ?_
  refine (grows_deref _).seq fun kind => (parses_factor h fuel r.2 hr).step fun r' hr' => ?_
  refine (grows_delayedCodeGen _ _ _ _).seq fun item => grows_currentType.seq fun t => ?_
  exact grows_third h fun _ => Guards.keep hr'

/-! ## conditions -/

theorem grows_relationOperator : Grows inside T g₀ k relationOperator fun op => op ≠ .stw := by
  unfold relationOperator
  refine grows_currentType.seq fun t => ?_
  have hone : ∀ (id : TokenID) (op : OpCode), op ≠ .stw →
      Grows inside T g₀ k (do expect id; return op) fun op => op ≠ .stw := fun id op hop =>
    (grows_expect id).seq fun _ => Guards.keep hop
  split
  · exact (grows_expect _).seq fun _ => hone _ _ nofun
  · exact (grows_expect _).seq fun _ => hone _ _ nofun
  · exact hone _ _ nofun
  · exact hone _ _ nofun
  · exact hone _ _ nofun
  · exact hone _ _ nofun
  · exact Guards.keep nofun

theorem grows_loadOperand (item : Item) :
    Grows inside T g₀ k (loadOperand item) fun _ => True := by
  unfold loadOperand
  have hload : ∀ f : Option TypeDesc → Item, Grows inside T g₀ k
      (do let t ← putValue2Reg ((← tokenCount) - 1); return f t) fun _ => True := fun f =>
    grows_tokenCount.seq fun _ => (grows_putValue2Reg _).seq fun _ => Guards.keep trivial
  refine (grows_takeItem _).seq fun _ => Guards.ite (fun _ => hload _) fun _ =>
    Guards.ite (fun _ => hload fun _ => item) fun _ => Guards.keep trivial

theorem grows_relationJump {op : OpCode} (hop : op ≠ .stw) : Grows inside T g₀ k
    (genGet (·.relation op)) fun pos => g₀.opCode.length ≤ pos := by
  refine grows_genGet (fun g h => ?_) fun g h => ?_
  · have hcmp : Extended inside g₀ (g.putOpCode (.mk3 .cmp (g.getCurrentReg - 1)
        (g.getCurrentReg - 1) g.getCurrentReg)) := h.putOpCode fun _ => nofun
    exact ⟨((hcmp.reg _).putOpCode fun _ => hop).reg _, rfl⟩
  · have hle := h.length_le
    have hpc := h.pc
    show _ ≤ g.pc + 1 + 1 - 2
    omega

theorem writes_boolTest : Writes inside g₀ fun g =>
    (g.putOpCode (.mk2 .beq g.getCurrentReg (-100))).decreaseReg :=
  Writes.put (fun _ => rfl) fun _ => nofun

theorem grows_boolAss (imm : Bool) (v : Int) : Grows inside T g₀ k
    (genGet (·.boolAss imm v)) fun pos => g₀.opCode.length ≤ pos := by
  refine grows_genGet (fun g h => ?_) fun g h => ?_
  · cases imm with
    | false => exact writes_boolTest g h
    | true => exact Writes.comp (Writes.addI v) writes_boolTest g h
  · have hle := h.length_le
    have hpc := h.pc
    cases imm with
    | false =>
      show _ ≤ g.pc + 1 - 2
      omega
    | true =>
      show _ ≤ g.pc + 1 + 1 - 2
      omega

theorem grows_addFixUp {vec : List FixUps} (hvec : Own g₀ vec) {pcPos : Nat}
    (hpos : g₀.opCode.length ≤ pcPos) :
    Grows inside T g₀ k (addFixUp vec pcPos) fun vec' => Own g₀ vec' := by
  refine Guards.seq (q := fun _ => True) ?add fun _ => grows_get.seq fun _ => Guards.keep ?own
  -- the jump is the caller's own, since it stands behind `g₀`
  case own =>
    intro f hf
    rcases List.mem_append.mp hf with hmem | hmem
    · exact hvec f hmem
    · rw [List.mem_singleton.mp hmem]
      exact hpos
  case add =>
    refine ⟨fun {s a s'} hI hrun => ?_, fun {s x s'} hI hrun hx => ?_⟩
    · -- the list of the innermost condition gets the jump; without one a null pointer is thrown
      unfold addCondFixup at hrun
      rw [bind_ok get_run] at hrun
      cases hfix : s.condFixup with
      | none =>
        rw [hfix] at hrun
        cases hrun
      | some js =>
        rw [hfix] at hrun
        cases hrun
        obtain ⟨⟨hwritten, htable, hjumps, hreturns, htokens⟩, hlevel⟩ := hI
        rw [hfix] at hjumps
        refine ⟨⟨⟨hwritten, htable, ?_, hreturns, htokens⟩, hlevel.imp id fun hlevel => ?_⟩, trivial⟩
        · intro l hl js' hjs i hi
          rcases List.mem_cons.mp hl with rfl | hl
          · cases hjs
            rcases List.mem_append.mp hi with hi | hi
            · exact hjumps _ List.mem_cons_self js rfl i hi
            · rw [List.mem_singleton.mp hi]
              exact hpos
          · exact hjumps l (List.mem_cons_of_mem _ hl) js' hjs i hi
        · refine ⟨hlevel.depth, ?_⟩
          have houter := hlevel.outer
          rw [hfix] at houter
          show (some (js ++ [pcPos]) :: s.condFixStack).getLast? = some none
          cases hstack : s.condFixStack with
          | nil =>
            rw [hstack] at houter
            cases houter
          | cons l ls =>
            rw [hstack, List.getLast?_cons_cons] at houter
            rwa [List.getLast?_cons_cons]
    · obtain ⟨message, rfl⟩ := hx
      unfold addCondFixup at hrun
      rw [bind_ok get_run] at hrun
      cases hfix : s.condFixup with
      | none =>
        rw [hfix] at hrun
        cases hrun
      | some js =>
        rw [hfix] at hrun
        cases hrun

theorem grows_isBooleanIdentifier : Grows inside T g₀ k isBooleanIdentifier fun _ => True := by
  unfold isBooleanIdentifier
  refine grows_tokenCount.seq fun _ => (grows_getIdentifersCell _).seq fun cell => ?_
  cases cell with
  | none => exact Guards.keep trivial
  | some cell => exact Guards.keep trivial

theorem parses_relation (h : Parses inside T g₀ k ex) (fuel : Nat) :
    Parses inside T g₀ k (relation delayedCodeGen ex fuel) := by
  intro vec hvec
  unfold relation
  refine (parses_term h fuel vec hvec).step fun r hr => grows_currentType.seq fun t => ?_
  have htest : ∀ (test : P Nat) (item : Item),
      Grows inside T g₀ k test (fun pos => g₀.opCode.length ≤ pos) →
      Grows inside T g₀ k (do let pcPos ← test; return (some item, ← addFixUp r.2 pcPos))
        fun r => Own g₀ r.2 := fun test item htest =>
    htest.step fun _ hpos => (grows_addFixUp hr hpos).step fun _ hvec => Guards.keep hvec
  refine Guards.ite (fun _ => ?_) fun _ => ?_
  · refine (grows_deref _).seq fun item => (grows_loadOperand _).seq fun item => ?_
    refine grows_relationOperator.step fun op hop => (parses_term h fuel r.2 hr).step fun r' hr' => ?_
    refine (grows_deref _).seq fun item2 => (grows_loadOperand _).seq fun item2 => ?_
    refine grows_guard _ ((grows_relationJump hop).step fun _ hpos => ?_)
    exact (grows_addFixUp hr' hpos).step fun _ hvec => Guards.keep hvec
  · refine grows_get.seq fun s => Guards.ite (fun _ => ?_) fun _ => Guards.keep hr
    refine (grows_deref _).seq fun item =>
      Guards.ite (fun _ => htest _ _ (grows_boolAss _ _)) fun _ => ?_
    refine grows_isBooleanIdentifier.seq fun b => Guards.ite (fun _ => ?_) fun _ => Guards.keep hr
    refine grows_tokenCount.seq fun _ => (grows_putValue2Reg _).seq fun _ => ?_
    exact htest _ _ (grows_boolAss _ _)

/-! ## expressions -/

theorem own_selectJumps {level : Int} {vec : List FixUps} (h : Own g₀ vec) :
    (∀ i ∈ (selectJumps level vec).1, g₀.opCode.length ≤ i) ∧ Own g₀ (selectJumps level vec).2 := by
  constructor
  · intro i hi
    obtain ⟨f, hf, rfl⟩ := List.mem_map.mp hi
    exact h f (List.mem_of_mem_filter hf)
  · intro f hf
    obtain ⟨f', hf', rfl⟩ := List.mem_map.mp hf
    split
    · exact h f' hf'
    · exact h f' hf'

theorem grows_fixAllButLast {veci : List Nat} (h : ∀ i ∈ veci, g₀.opCode.length ≤ i) (and : Bool) :
    Grows inside T g₀ k (fixAllButLast veci and) fun _ => True :=
  grows_gen (Writes.foldl fun i hi => Writes.fixOrJumps (h i (List.mem_of_mem_dropLast hi)) _ _)

theorem parses_andExpression (h : Parses inside T g₀ k ex) (fuel : Nat) :
    Parses inside T g₀ k (andExpression delayedCodeGen ex fuel) := by
  intro vec hvec
  refine (parses_relation h fuel vec hvec).step fun r hr => ?_
  refine Guards.step ?loop fun vec' hvec' => Guards.keep hvec'
  refine Guards.whileLoop (fun vec hvec => (grows_expect _).seq fun _ => ?_) fuel hr
  refine grows_get.seq fun s => ?_
  obtain ⟨hveci, hown⟩ := @own_selectJumps g₀ s.booleanLevel vec hvec
  refine (grows_fixAllButLast hveci true).seq fun _ => ?_
  exact (parses_relation h fuel _ hown).step fun r hr => (grows_dropItem _).seq fun _ => Guards.keep hr

theorem parses_orLoop (h : Parses inside T g₀ k ex) (fuel : Nat) {vec : List FixUps}
    (hvec : Own g₀ vec) :
    Grows inside T g₀ k (orLoop delayedCodeGen ex fuel vec) fun vec => Own g₀ vec := by
  refine Guards.whileLoop (fun vec hvec => (grows_expect _).seq fun _ => ?_) fuel hvec
  refine grows_get.seq fun s => ?_
  obtain ⟨hveci, hown⟩ := @own_selectJumps g₀ s.booleanLevel vec hvec
  refine (grows_fixAllButLast hveci false).seq fun _ => ?_
  refine (Guards.elementAt _ _).step fun last hlast => ?_
  refine (grows_gen (Writes.fixOrJumps (hveci last hlast) _ _)).seq fun _ => ?_
  exact (parses_andExpression h fuel _ hown).step fun r hr =>
    (grows_dropItem _).seq fun _ => Guards.keep hr

/-- **An expression** appends to the code, and stores nothing. -/
theorem parses_expression : ∀ fuel, Parses inside T g₀ k (expression delayedCodeGen fuel)
  | 0 => fun _ _ => Guards.throw nofun
  | fuel + 1 => by
    have h := @parses_expression fuel
    intro vec hvec
    unfold expression expressionBody
    refine (grows_frame (by exact fun _ => rfl)).seq fun _ => ?_
    refine (parses_andExpression h fuel vec hvec).step fun r hr => ?_
    refine (parses_orLoop h fuel hr).step fun vec hvec => ?_
    exact (grows_frame (by exact fun _ => rfl)).seq fun _ => Guards.keep hvec

end Compiler.Parser
