import Bambinos.Compiler.ClassCode
import Bambinos.Compiler.StatementGrowth

/-!
# What a method of the parser adds

As long as there is no error a method appends its code and its symbol; an error stops the code
generation for good.

* `Halted` — the code generation has been stopped
* `Leads` — where a block leads to, unless there is an error
* `MethodAdded` — what a method adds
* `leads_methodDeclaration` — that `methodDeclaration` adds it
-/

namespace Compiler

open Infra MethodCode

/-! ## until an error -/

/-- What every state of the parser has. -/
structure Tidy (s : ParserState) : Prop where
  pc : s.cg.pc = s.cg.opCode.length + 1
  tokens : ∀ t ∈ s.currentToken :: s.input, t.Plain

/-- The code generation has been stopped. -/
structure Halted (s : ParserState) : Prop extends Tidy s where
  stopped : Stopped s

/-- The code generation has been stopped, or `P` holds. -/
def Until (P : ParserState → Prop) (s : ParserState) : Prop := Halted s ∨ P s

/-- Between the members of a class no jump is left to be fixed. -/
structure Quiet (s : ParserState) : Prop extends Tidy s where
  level : Level (some 0) s
  returns : s.fixReturn = []

section States

variable {inside : Bool} {T : SymbolTableList → Prop} {g₀ : CodeGenerator} {k : Option Nat}
  {s : ParserState} {Q Q' : ParserState → Prop}

theorem Behind.tidy (h : Behind inside T g₀ s) : Tidy s := ⟨h.written.pc, h.tokens⟩

theorem Until.mono (h : Until Q s) (hQ : Q s → Q' s) : Until Q' s := h.imp_right hQ

theorem Caught.halted (h : Caught inside T g₀ s) : Halted s := ⟨h.tidy, h.stopped⟩

/-- As long as there is no error the parser knows how deep it is. -/
theorem Growing.until (h : Growing inside T g₀ k s) : Until (Level k) s :=
  h.level.imp_left fun hstopped => ⟨h.tidy, hstopped⟩

theorem Level.condFixup (h : Level (some 0) s) : s.condFixup = none ∧ s.condFixStack = [] := by
  have hstack := List.length_eq_zero_iff.mp (Option.some.inj h.depth).symm
  have houter := h.outer
  rw [hstack] at houter
  exact ⟨Option.some.inj houter, hstack⟩

/-- A state between two members begins a new piece of code. -/
theorem Quiet.growing (h : Quiet s) (hT : T s.cg.symbolTable) :
    Growing inside T s.cg (some 0) s where
  written := .refl h.pc
  table := hT
  jumps := by
    obtain ⟨hfix, hstack⟩ := h.level.condFixup
    rw [hfix, hstack]
    intro l hl js hjs
    rw [List.mem_singleton.mp hl] at hjs
    cases hjs
  returns := by
    rw [h.returns]
    exact nofun
  tokens := h.tokens
  level := Or.inr h.level

/-- Outside of a method nothing returns. -/
theorem Growing.quiet (h : Growing false T g₀ (some 0) s) (hlevel : Level (some 0) s) : Quiet s :=
  ⟨h.tidy, hlevel, List.eq_nil_iff_forall_not_mem.mpr fun i hi => by cases (h.returns i hi).1⟩

end States

namespace Parser

variable {α β : Type} {m : P α} {q q' : α → Prop} {inside : Bool} {T T' : SymbolTableList → Prop}
  {g₀ g : CodeGenerator} {k : Option Nat} {fuel : Nat} {s s' : ParserState}

/-- A block that appends to the code leaves the code generation stopped. -/
theorem halts (h : ∀ g₀, g₀.opCode = [] → Grows true (fun _ => True) g₀ none m q) :
    Maintains Halted Halted m fun _ => True := by
  have hstart : ∀ {s}, Halted s → Growing true (fun _ => True) { s.cg with opCode := [] } none s :=
    fun {s} hs =>
      { written :=
          { opCode := ⟨s.cg.opCode, rfl, nofun⟩
            pc := hs.pc
            methodFix := rfl
            mainAddr := Iff.rfl
            fixupTable := ⟨[], (List.append_nil _).symm, nofun⟩ }
        table := trivial
        jumps := fun _ _ _ _ _ _ => Nat.zero_le _
        returns := fun _ _ => ⟨rfl, Nat.zero_le _⟩
        tokens := hs.tokens
        level := Or.inl hs.stopped }
  refine ⟨fun {s a s'} hs hrun => ⟨?_, trivial⟩, fun {s x s'} hs hrun hx => ?_⟩
  · obtain ⟨hgrowing, -⟩ := (h _ rfl).ok (hstart hs) hrun
    rcases hgrowing.until with hhalted | hlevel
    · exact hhalted
    · cases hlevel.depth
  · exact ((h _ rfl).caught (hstart hs) hrun hx).halted

/-- From `Q` the block ends in `R`, unless there is an error. -/
structure Leads (Q : ParserState → Prop) (m : P α) (R : α → ParserState → Prop) : Prop where
  goes : Guards Q m (fun a => Until (R a)) Halted
  stays : Maintains Halted Halted m fun _ => True

variable {Q Q' : ParserState → Prop} {R R' : α → ParserState → Prop} {R'' : β → ParserState → Prop}

namespace Leads

theorem from_until (h : Leads Q m R) : Guards (Until Q) m (fun a => Until (R a)) Halted where
  ok hQ hrun := by
    rcases hQ with hhalted | hQ
    · exact Or.inl (h.stays.ok hhalted hrun).1
    · exact h.goes.ok hQ hrun
  caught hQ hrun hx := by
    rcases hQ with hhalted | hQ
    · exact h.stays.caught hhalted hrun hx
    · exact h.goes.caught hQ hrun hx

/-- A block that appends to the code. -/
theorem grows (h : Grows inside T g₀ k m q)
    (hstop : ∀ g₀, Grows true (fun _ => True) g₀ none m q') :
    Leads (Growing inside T g₀ k) m fun _ => Growing inside T g₀ k where
  goes := h.weaken (fun _ h => h) (fun _ _ h => Or.inr h.1) fun _ h => h.halted
  stays := halts fun g₀ _ => hstop g₀

/-- A step that throws nothing and leaves the flag alone. -/
theorem modify {f : ParserState → ParserState} (h : ∀ s, Q s → Until Q' (f s))
    (hstop : ∀ s, Halted s → Halted (f s)) :
    Leads Q (modify f) fun _ => Q' :=
  ⟨Guards.modify h, Guards.modify fun s hs => ⟨hstop s hs, trivial⟩⟩

theorem bind {f : α → P β} (hm : Leads Q m R) (hf : ∀ a, Leads (R a) (f a) R'') :
    Leads Q (m >>= f) R'' :=
  ⟨hm.goes.bind fun a => (hf a).from_until, hm.stays.seq fun a => (hf a).stays⟩

theorem mono (h : Leads Q m R) (hQ : ∀ s, Q' s → Q s) (hR : ∀ a s, R a s → R' a s) :
    Leads Q' m R' :=
  ⟨h.goes.weaken hQ (fun a _ hs => hs.mono (hR a _)) fun _ h => h, h.stays⟩

/-- What is known of the start of a block. -/
theorem of_exists {ι : Type} {P' : ι → ParserState → Prop} (i₀ : ι) (h : ∀ i, Leads (P' i) m R) :
    Leads (fun s => ∃ i, P' i s) m R :=
  ⟨Guards.of_exists fun i => (h i).goes, (h i₀).stays⟩

/-- A fact that does not depend on the state. -/
theorem frame (h : Leads Q m R) (p : Prop) : Leads (fun s => p ∧ Q s) m fun a s => p ∧ R a s :=
  ⟨Guards.of_and fun hp => h.goes.post fun _ _ hs => hs.mono fun hR => ⟨hp, hR⟩, h.stays⟩

theorem ite {c : Prop} [Decidable c] {m' : P α} (h : c → Leads Q m R) (h' : ¬ c → Leads Q m' R) :
    Leads Q (if c then m else m') R := by
  by_cases hc : c
  · rw [if_pos hc]
    exact h hc
  · rw [if_neg hc]
    exact h' hc

/-- A step that only looks. -/
theorem get {f : ParserState → P β} (hf : ∀ s, Leads (fun s' => Q s' ∧ s' = s) (f s) R'') :
    Leads Q (get >>= f) R'' where
  goes := Guards.bind (Guards.of_ok (Q := fun s s' => Q s' ∧ s' = s) fun s hs => ⟨s, s, rfl, hs, rfl⟩)
    fun s => (hf s).goes
  stays := Guards.get.seq fun s => (hf s).stays

/-- Nothing need be known of what is seen. -/
theorem look {f : ParserState → P β} (hf : ∀ s, Leads Q (f s) R'') :
    Leads Q (MonadState.get >>= f) R'' :=
  get fun s => (hf s).mono (fun _ h => h.1) fun _ _ h => h

/-- A reference that may be `null`. -/
theorem deref {x : Option α} {f : α → P β} (hf : ∀ a, Leads Q (f a) R'') :
    Leads Q (deref x >>= f) R'' := by
  cases x with
  | none =>
    exact ⟨Guards.step (q := fun _ => False) (Guards.throw nofun) fun _ h => h.elim,
      Guards.step (q := fun _ => False) (Guards.throw nofun) fun _ h => h.elim⟩
  | some a => exact hf a

/-- A block of which nothing is known but that it appends. -/
theorem seq {f : α → P β} (h : ∀ inside T g₀ k, Grows inside T g₀ k m q)
    (hf : ∀ a, Leads (Growing inside T g₀ k) (f a) R'') :
    Leads (Growing inside T g₀ k) (m >>= f) R'' :=
  (grows (h inside T g₀ k) fun g₀ => h true _ g₀ none).bind hf

/-- A statement that is run under a condition, and what comes after it. -/
theorem optional {c : Prop} [Decidable c] {x : P α} {m : P β}
    (hx : c → Leads Q x fun _ => Q') (hQ : ¬ c → ∀ s, Q s → Q' s) (hm : Leads Q' m R'') :
    Leads Q (if c then x >>= fun _ => m else m) R'' :=
  ite (fun hc => (hx hc).bind fun _ => hm) fun hc => hm.mono (hQ hc) fun _ _ h => h

/-- A syntax error in the middle of a block. -/
theorem guard {c : Prop} [Decidable c] (message : TokenID → String → String) {m : P α}
    (hm : Leads Q m R) (hQ : ∀ s, Q s → Tidy s) :
    Leads Q (if c then do
      let t ← currentType
      let l ← line
      let _ ← (syntaxError (message t l) : P PUnit)
      m else m) R := by
  have herror : ∀ {P' : ParserState → Prop} {Q'' : α → ParserState → Prop}, (∀ s, P' s → Tidy s) →
      Guards P' (do
        let t ← currentType
        let l ← line
        let _ ← (syntaxError (message t l) : P PUnit)
        m) Q'' Halted := by
    refine fun hP => ⟨fun {s a s'} _ hrun => (by cases hrun), fun {s x s'} hs hrun _ => ?_⟩
    cases hrun
    exact ⟨⟨(hP s hs).pc, (hP s hs).tokens⟩, rfl⟩
  exact ite (fun _ => ⟨herror hQ, herror fun _ h => h.toTidy⟩) fun _ => hm

end Leads

/-! ## the symbol table of a method -/

/-- The last symbol of a class is a method, behind those of `pre`. -/
structure InMethod (pre : List SymbolEntry) (name : String) (proc : Int → Prop)
    (t : SymbolTableList) : Prop where
  scope : t.scope = 1
  entry : ∃ e, t.symList = pre ++ [e] ∧ e.cell.name = name ∧ e.cell.classType = .method ∧
    proc e.cell.proc
  fresh : ∀ e ∈ pre, e.cell.name ≠ name

variable {pre : List SymbolEntry} {name : String} {proc proc' : Int → Prop} {offsetBefore : Int}
  {t t' : SymbolTableList}

theorem modifyLast_append (e : SymbolEntry) (f : MethodSymbols → MethodSymbols)
    (h : t.symList = pre ++ [e]) :
    t.modifyLast f = { t with symList := pre ++ [{ e with methodSymbols := f e.methodSymbols }] } := by
  unfold SymbolTableList.modifyLast
  rw [h, List.length_append, List.length_singleton, Nat.add_sub_cancel, modify_middle]

/-- Variables are declared in the method. -/
theorem stable_inMethod : Stable (InMethod pre name proc) := by
  intro t n classType type size hclass h
  obtain ⟨hscope, ⟨e, hlist, hname, hmethod, hproc⟩, hfresh⟩ := h
  unfold SymbolTableList.addSym
  simp only [hclass, if_false, hscope, Nat.one_ne_zero, false_and, true_and, if_true]
  split
  · exact ⟨hscope, ⟨e, hlist, hname, hmethod, hproc⟩, hfresh⟩
  · rw [modifyLast_append e _ hlist]
    exact ⟨hscope, ⟨_, rfl, hname, hmethod, hproc⟩, hfresh⟩

theorem InMethod.modifySymbols (h : InMethod pre name proc t) (f : MethodSymbols → MethodSymbols) :
    InMethod pre name proc (t.modifyMethodSymbols name f) := by
  obtain ⟨hscope, ⟨⟨cell, symbols⟩, hlist, rfl, hmethod, hproc⟩, hfresh⟩ := h
  rw [SymbolTableList.modifyMethodSymbols_last hlist hmethod hfresh f]
  exact ⟨hscope, ⟨_, rfl, rfl, hmethod, hproc⟩, hfresh⟩

theorem InMethod.modifyCell (h : InMethod pre name proc t) {f : SymbolTableCell → SymbolTableCell}
    (hname : ∀ c, (f c).name = c.name) (hclass : ∀ c, (f c).classType = c.classType)
    (hproc : ∀ c, proc c.proc → proc' (f c).proc) : InMethod pre name proc' (t.modifyCell name f) := by
  obtain ⟨hscope, ⟨⟨cell, symbols⟩, hlist, rfl, hmethod, hproc'⟩, hfresh⟩ := h
  rw [SymbolTableList.modifyCell_last hlist hmethod hfresh f]
  exact ⟨hscope, ⟨_, rfl, hname cell, (hclass cell).trans hmethod, hproc cell hproc'⟩, hfresh⟩

/-- The declaration of a method, unless the name is taken. -/
theorem inMethod_addSym (h : t.symList = pre) (type : TypeDesc)
    (hadd : t.addSym name .method (some type) (int32 (type.getSize * 0)) true = (t', false)) :
    InMethod pre name (fun _ => True) t' := by
  have hdeclare : t.declareCell name .method type 0 = some t' := by
    unfold SymbolTableList.declareCell
    rw [hadd]
    rfl
  obtain ⟨hfresh, rfl⟩ := SymbolTableList.declareCell_method hdeclare
  subst h
  exact ⟨rfl, ⟨_, rfl, rfl, rfl, trivial⟩, hfresh⟩

/-! ## the parts of a method -/

theorem grows_returnType : Grows inside T g₀ k returnType fun _ => True := by
  unfold returnType
  refine grows_currentType.seq fun _ => Guards.ite (fun _ => ?_) fun _ => ?_
  · exact (grows_expect _).seq fun _ => Guards.keep trivial
  refine grows_currentType.seq fun _ => Guards.ite (fun _ => ?_) fun _ => ?_
  · exact grows_dataType.seq fun _ => Guards.keep trivial
  · exact grows_currentType.seq fun _ => grows_line.seq fun _ => grows_syntaxError _

theorem grows_parameterList : Grows inside T g₀ k (parameterList fuel) fun _ => True := by
  have hparameter : Grows inside T g₀ k (parameter fuel) fun _ => True :=
    grows_dataTypeDescriptor.seq fun type => grows_tokenCount.seq fun _ =>
      (grows_tokenName _).seq fun name => Guards.keep trivial
  refine grows_currentType.seq fun _ => Guards.ite (fun _ => ?_) fun _ => Guards.keep trivial
  refine hparameter.seq fun first => Guards.whileLoop (fun params _ => ?_) fuel trivial
  exact (grows_expectWeak _).seq fun _ => hparameter.seq fun _ => Guards.keep trivial

theorem grows_addParameters (hT : Stable T) : ∀ params : List (Option TypeDesc × String),
    Grows inside T g₀ k (addParameters params) fun _ => True
  | [] => Guards.keep trivial
  | (type, name) :: rest =>
    (grows_add2SymTable hT name (by decide) type 1).seq fun _ => grows_addParameters hT rest

theorem stable_true : Stable fun _ => True := fun _ _ _ _ _ _ _ => trivial

/-- A change of the symbol table. -/
theorem leads_table {f : SymbolTableList → SymbolTableList} (h : ∀ t, T t → T' (f t)) :
    Leads (Growing inside T g₀ k) (gen fun g => { g with symbolTable := f g.symbolTable })
      fun _ => Growing inside T' g₀ k := by
  refine Leads.modify (fun s hs => Or.inr ?_) fun s hs => ⟨⟨hs.pc, hs.tokens⟩, hs.stopped⟩
  obtain ⟨hcode, hpc, hfix, hmain, hcalls⟩ := hs.written
  exact ⟨⟨⟨hcode, hpc, hfix, hmain, hcalls⟩, h _ hs.table, hs.jumps, hs.returns, hs.tokens⟩,
    hs.level.imp id fun h => ⟨h.1, h.2⟩⟩

theorem leads_fixMethodOffset (fix : Int) :
    Leads (Growing inside (InMethod pre name proc) g₀ k) (fixMethodOffset name fix)
      fun _ => Growing inside (InMethod pre name proc) g₀ k :=
  Leads.look fun _ => Leads.deref fun _ =>
    leads_table (f := fun t => t.modifyMethodSymbols name fun x => x.fixOffset fix)
      fun t (h : InMethod pre name proc t) => h.modifySymbols _

theorem leads_modifySymbol {f : SymbolTableCell → SymbolTableCell} (hname : ∀ c, (f c).name = c.name)
    (hclass : ∀ c, (f c).classType = c.classType) (hproc : ∀ c, proc c.proc → proc' (f c).proc) :
    Leads (Growing inside (InMethod pre name proc) g₀ k) (modifySymbol name f)
      fun _ => Growing inside (InMethod pre name proc') g₀ k :=
  Leads.look fun _ => Leads.deref fun _ =>
    leads_table (f := fun t => t.modifyCell name f)
      fun t (h : InMethod pre name proc t) => h.modifyCell hname hclass hproc

/-- The code generator once it knows whether the method is `main`. -/
def afterName (name : String) (g : CodeGenerator) : CodeGenerator :=
  if name = "main" then { g with mainAddr := 0 } else g

theorem leads_setMainPC (hname : name = "main") :
    Leads (Growing inside T g k) (gen (·.setMainPC)) fun _ => Growing inside T (afterName name g) k := by
  refine Leads.modify (fun s hs => Or.inr ?_) fun s hs => ⟨⟨hs.pc, hs.tokens⟩, hs.stopped⟩
  obtain ⟨hcode, hpc, hfix, -, hcalls⟩ := hs.written
  unfold afterName
  rw [if_pos hname]
  refine ⟨⟨⟨hcode, hpc, hfix, ?_, hcalls⟩, hs.table, hs.jumps, hs.returns, hs.tokens⟩,
    hs.level.imp id fun h => ⟨h.1, h.2⟩⟩
  refine iff_of_false (fun h => ?_) (by decide : ¬ ((0 : Int) = -50))
  have hmain : (s.cg.pc : Int) = -50 := h
  omega

/-- A name that is taken stops the code generation. -/
theorem leads_addMethod :
    Leads (Growing inside (fun t => t.symList = pre) g₀ k)
      (add2SymTable name .method (some .intType) 0)
      fun _ => Growing inside (InMethod pre name fun _ => True) g₀ k := by
  refine ⟨?_, halts (q := fun _ => True) fun g₀ _ => ?_⟩
  · refine Guards.of_ok fun s hs => ?_
    cases hadd : s.cg.symbolTable.addSym name .method (some .intType)
      (int32 (TypeDesc.intType.getSize * 0)) true with
    | mk t found =>
      have hrun := add2SymTable_run name .method .intType 0 s hadd
      cases found with
      | true => exact ⟨_, _, hrun, Or.inl ⟨⟨hs.written.pc, hs.tokens⟩, rfl⟩⟩
      | false =>
        refine ⟨_, _, hrun, Or.inr ⟨⟨?_, inMethod_addSym hs.table .intType hadd, hs.jumps, hs.returns,
          hs.tokens⟩, hs.level.imp id fun h => ⟨h.1, h.2⟩⟩⟩
        exact ⟨hs.written.opCode, hs.written.pc, hs.written.methodFix, hs.written.mainAddr,
          hs.written.fixupTable⟩
  · -- nothing is known of the table then
    refine Guards.of_ok fun s hs => ?_
    cases hadd : s.cg.symbolTable.addSym name .method (some .intType)
      (int32 (TypeDesc.intType.getSize * 0)) true with
    | mk t found =>
      have hrun := add2SymTable_run name .method .intType 0 s hadd
      have hwritten : Extended true g₀ { s.cg with symbolTable := t } :=
        ⟨hs.written.opCode, hs.written.pc, hs.written.methodFix, hs.written.mainAddr,
          hs.written.fixupTable⟩
      cases found with
      | true => exact ⟨_, _, hrun, ⟨⟨hwritten, trivial, hs.jumps, hs.returns, hs.tokens⟩, Or.inl rfl⟩,
          trivial⟩
      | false => exact ⟨_, _, hrun, ⟨⟨hwritten, trivial, hs.jumps, hs.returns, hs.tokens⟩,
          hs.level.imp id fun h => ⟨h.1, h.2⟩⟩, trivial⟩

/-! ## a method -/

/-- What a method leaves behind its prologue, when it was begun in `g`. -/
structure MethodEnded (pre : List SymbolEntry) (name : String) (proc : Int → Prop)
    (g : CodeGenerator) (s : ParserState) : Prop extends Quiet s where
  table : InMethod pre name proc s.cg.symbolTable
  opCode : ∃ m : MethodCode, m.name = name ∧ s.cg.opCode = g.opCode ++ m.code
  mainAddr : s.cg.mainAddr = -50 ↔ g.mainAddr = -50
  fixupTable : ∃ calls, s.cg.fixupTable = g.fixupTable ++ calls ∧
    ∀ f ∈ calls, (g.opCode.length : Int) < f.offset ∧ f.offset ≤ s.cg.opCode.length

/-- The size is put behind the start of the code. -/
theorem writes_setC {pos : CodeGenerator → Nat} {c : CodeGenerator → Int}
    (h : ∀ g, Extended inside g₀ g → g₀.opCode.length ≤ pos g) :
    Writes inside g₀ fun g => g.setC (pos g) (c g) :=
  fun g hg => ⟨hg.modify (h g hg) fun _ he => he, rfl⟩

theorem writes_emit {code : List OpCodeElement} (h : ∀ e ∈ code, e.instruction ≠ .stw) :
    Writes inside g₀ (·.emit code) := by
  induction code with
  | nil => exact fun g hg => by simpa only [CodeGenerator.emit_nil, and_true] using hg
  | cons e code ih =>
    have hput : Writes inside g₀ (·.putOpCode e) := fun g hg =>
      ⟨hg.putOpCode fun _ => h e List.mem_cons_self, rfl⟩
    have hrest := hput.comp (ih fun e' he' => h e' (List.mem_cons_of_mem _ he'))
    intro g hg
    have := hrest g hg
    simp only [CodeGenerator.putOpCode_eq, CodeGenerator.emit_emit] at this
    exact this

theorem writes_fixReturnJumps {l : List Nat} (h : ∀ pos ∈ l, g₀.opCode.length ≤ pos) :
    Writes inside g₀ (·.fixReturnJumps l) :=
  Writes.foldl fun pos hpos => writes_setC fun _ _ => h pos hpos

theorem epilogue_stores (main : Bool) : ∀ e ∈ epilogue main, e.instruction ≠ .stw := by
  cases main <;> decide

theorem leads_fixReturnJumps (s₀ : ParserState) :
    Leads (fun s => Growing inside T g₀ k s ∧ s = s₀) (gen (·.fixReturnJumps s₀.fixReturn))
      fun _ => Growing inside T g₀ k where
  goes := by
    refine Guards.modify fun s hs => Or.inr ?_
    obtain ⟨hs, rfl⟩ := hs
    obtain ⟨hwritten, htable⟩ := writes_fixReturnJumps (fun i hi => (hs.returns i hi).2) _ hs.written
    exact ⟨⟨hwritten, htable ▸ hs.table, hs.jumps, hs.returns, hs.tokens⟩,
      hs.level.imp id fun h => ⟨h.1, h.2⟩⟩
  stays := halts fun g₀ hg₀ => grows_gen (writes_fixReturnJumps fun _ _ => by
    rw [hg₀]
    exact Nat.zero_le _)

/-- The epilogue puts the size of the method into its prologue. -/
theorem leads_methodEpilogue (size : Int) (main : Bool) (hmain : main = decide (name = "main")) :
    Leads (fun s => Growing true (InMethod pre name proc) g.methodPrologue.2
        (some 0) s ∧ s.fixReturn = [])
      (gen (·.methodEpilogueMain size main)) fun _ => MethodEnded pre name proc g where
  goes := by
    refine Guards.modify fun s hs => ?_
    obtain ⟨hs, hreturn⟩ := hs
    obtain ⟨⟨body, hcode, -⟩, hpc, hfix, haddr, calls, hcalls, hbound⟩ := hs.written
    rw [CodeGenerator.methodPrologue_eq] at hcode hfix haddr hcalls hbound
    dsimp only at hcode hfix haddr hcalls hbound ⊢
    rw [CodeGenerator.methodEpilogueMain_eq]
    have hend : ((s.cg.emit (epilogue main)).setC s.cg.methodFix size).opCode =
        g.opCode ++ (MethodCode.mk name body size).code := by
      show (s.cg.opCode ++ epilogue main).modify s.cg.methodFix _ = _
      rw [hfix, hcode, MethodCode.code]
      simp only [CodeGenerator.emit_opCode, List.append_assoc]
      rw [CodeGenerator.setC_prologue, hmain]
    have hlength : ((s.cg.emit (epilogue main)).setC s.cg.methodFix size).opCode.length =
        s.cg.opCode.length + (epilogue main).length := by
      show ((s.cg.opCode ++ epilogue main).modify _ _).length = _
      rw [List.length_modify, List.length_append]
    have htidy : Tidy { s with cg := (s.cg.emit (epilogue main)).setC s.cg.methodFix size } := by
      refine ⟨?_, hs.tokens⟩
      show s.cg.pc + (epilogue main).length = _
      rw [hlength, hpc]
      omega
    rcases hs.level with hstopped | hlevel
    · exact Or.inl ⟨htidy, hstopped⟩
    · refine Or.inr ⟨⟨htidy, ⟨hlevel.1, hlevel.2⟩, hreturn⟩, hs.table, ⟨_, rfl, hend⟩, haddr, calls,
        hcalls,
        fun f hf => ?_⟩
      have := hbound f hf
      rw [CodeGenerator.emit_opCode, List.length_append] at this
      rw [hlength]
      omega
  stays := halts fun g₀ hg₀ => grows_gen (by
    have hset : Writes true g₀ fun g => g.setC g.methodFix size := writes_setC fun _ _ => by
      rw [hg₀]
      exact Nat.zero_le _
    intro g hg
    dsimp only
    rw [CodeGenerator.methodEpilogueMain_eq]
    exact ((writes_emit (epilogue_stores main)).comp hset) g hg)

/-- What is done behind the body of a method. -/
theorem leads_methodEnd (size : Int) :
    Leads (Growing true (InMethod pre name proc) g.methodPrologue.2 (some 0))
      (do
        let fixReturn := (← get).fixReturn
        gen (·.fixReturnJumps fixReturn)
        modify fun s => { s with fixReturn := [] }
        if name ≠ "main" then
          gen (·.methodEpilogue size)
        else
          gen (·.methodEpilogueMain size true))
      fun _ => MethodEnded pre name proc g := by
  refine Leads.get fun s₀ => (leads_fixReturnJumps s₀).bind fun _ => ?_
  refine Leads.bind (R := fun _ s => Growing true (InMethod pre name proc)
    g.methodPrologue.2 (some 0) s ∧ s.fixReturn = []) ?_ fun _ => ?_
  · refine Leads.modify (fun s hs => Or.inr ⟨⟨⟨hs.written, hs.table, hs.jumps, nofun, hs.tokens⟩,
      hs.level.imp id fun h => ⟨h.1, h.2⟩⟩, rfl⟩) fun s hs => ⟨⟨hs.pc, hs.tokens⟩, hs.stopped⟩
  · exact Leads.ite (fun h => leads_methodEpilogue size false (decide_eq_false h).symm) fun h =>
      leads_methodEpilogue size true (decide_eq_true (not_not.mp h)).symm

/-- The prologue of a method, and the address it gets. -/
theorem leads_methodPrologue :
    Leads (Growing false T g₀ (some 0)) (genGet (·.methodPrologue)) fun proc s =>
      ∃ g, (Extended false g₀ g ∧ proc = g.pc) ∧ Growing true T g.methodPrologue.2 (some 0) s where
  goes := by
    refine Guards.of_ok fun s hs => ⟨_, _, rfl, ?_⟩
    have htidy : Tidy { s with cg := s.cg.methodPrologue.2 } := by
      refine ⟨?_, hs.tokens⟩
      dsimp only
      rw [CodeGenerator.methodPrologue_eq]
      dsimp only [CodeGenerator.emit]
      rw [hs.written.pc, List.length_append]
      omega
    rcases hs.level with hstopped | hlevel
    · exact Or.inl ⟨htidy, hstopped⟩
    · have hquiet : Quiet { s with cg := s.cg.methodPrologue.2 } :=
        ⟨htidy, ⟨hlevel.1, hlevel.2⟩, (hs.quiet hlevel).returns⟩
      exact Or.inr ⟨s.cg, ⟨hs.written, rfl⟩, hquiet.growing hs.table⟩
  stays := by
    refine Guards.of_ok fun s hs => ⟨_, _, rfl, ⟨⟨?_, hs.tokens⟩, hs.stopped⟩, trivial⟩
    dsimp only
    rw [CodeGenerator.methodPrologue_eq]
    dsimp only [CodeGenerator.emit]
    rw [hs.pc, List.length_append]
    omega

/-- The body of a method, and what is done behind it. -/
theorem leads_methodBody (procNow : Int) :
    Leads (Growing true (InMethod pre name fun _ => True) g.methodPrologue.2 (some 0))
      (do
        modifySymbol name fun cell => { cell with proc := procNow }
        bodyBlock fuel
        let symbols ← deref ((← get).cg.symbolTable.getMethodSymbols name)
        let size := if symbols.offset < 0 then int32 (0 - symbols.offset) else symbols.offset
        modifySymbol name fun cell => { cell with size := size, offset := int32 (offsetBefore + size - 1) }
        gen fun g => { g with symbolTable := g.symbolTable.fixOffset size }
        expectWeak .tRbraces
        let fixReturn := (← get).fixReturn
        gen (·.fixReturnJumps fixReturn)
        modify fun s => { s with fixReturn := [] }
        if name ≠ "main" then
          gen (·.methodEpilogue size)
        else
          gen (·.methodEpilogueMain size true))
      fun _ => MethodEnded pre name (fun proc => proc = procNow) g := by
  have hproc : Leads (Growing true (InMethod pre name fun _ => True) g.methodPrologue.2 (some 0))
      (modifySymbol name fun cell => { cell with proc := procNow }) fun _ =>
      Growing true (InMethod pre name fun proc => proc = procNow) g.methodPrologue.2 (some 0) :=
    leads_modifySymbol (fun _ => rfl) (fun _ => rfl) fun _ _ => rfl
  refine hproc.bind fun _ => ?_
  refine (Leads.grows (grows_bodyBlock stable_inMethod fuel _) fun _ =>
    grows_bodyBlock stable_true fuel _).bind fun _ => ?_
  refine Leads.look fun _ => Leads.deref fun symbols => ?_
  have hplace : ∀ size offset : Int,
      Leads (Growing true (InMethod pre name fun proc => proc = procNow) g.methodPrologue.2 (some 0))
        (modifySymbol name fun cell => { cell with size := size, offset := offset }) fun _ =>
        Growing true (InMethod pre name fun proc => proc = procNow) g.methodPrologue.2 (some 0) :=
    fun _ _ => leads_modifySymbol (fun _ => rfl) (fun _ => rfl) fun _ h => h
  refine (hplace _ _).bind fun _ => ?_
  have hfix : ∀ size : Int,
      Leads (Growing true (InMethod pre name fun proc => proc = procNow) g.methodPrologue.2 (some 0))
        (gen fun g => { g with symbolTable := g.symbolTable.fixOffset size }) fun _ =>
        Growing true (InMethod pre name fun proc => proc = procNow) g.methodPrologue.2 (some 0) :=
    fun size => leads_table (f := fun t => t.fixOffset size) fun t h =>
      ⟨h.scope, h.entry, h.fresh⟩
  refine (hfix _).bind fun _ => ?_
  exact Leads.seq (fun _ _ _ _ => grows_expectWeak _) fun _ => leads_methodEnd _

/-- A method of a class, begun in `g₀`. -/
structure MethodAdded (pre : List SymbolEntry) (g₀ : CodeGenerator) (s : ParserState) : Prop extends
    Quiet s where
  added : ∃ m : ClassMethod, InMethod pre m.name
      (fun proc => proc = g₀.opCode.length + m.header.length + 1) s.cg.symbolTable ∧
    s.cg.opCode = g₀.opCode ++ m.whole ∧
    (s.cg.mainAddr = -50 ↔ g₀.mainAddr = -50 ∧ m.name ≠ "main")
  fixupTable : ∃ calls, s.cg.fixupTable = g₀.fixupTable ++ calls ∧
    ∀ f ∈ calls, (g₀.opCode.length : Int) < f.offset ∧ f.offset ≤ s.cg.opCode.length

theorem afterName_mainAddr :
    (afterName name g₀).mainAddr = -50 ↔ g₀.mainAddr = -50 ∧ name ≠ "main" := by
  unfold afterName
  by_cases h : name = "main"
  · rw [if_pos h]
    exact iff_of_false (by decide : ¬ ((0 : Int) = -50)) fun h' => h'.2 h
  · rw [if_neg h]
    exact ⟨fun h' => ⟨h', h⟩, fun h' => h'.1⟩

theorem MethodEnded.added (h : MethodEnded pre name (fun proc => proc = g.pc) g s)
    (hwritten : Extended false (afterName name g₀) g) : MethodAdded pre g₀ s := by
  have hcodes : (afterName name g₀).opCode = g₀.opCode := by
    unfold afterName
    split <;> rfl
  have hfixups : (afterName name g₀).fixupTable = g₀.fixupTable := by
    unfold afterName
    split <;> rfl
  obtain ⟨⟨header, hheader, -⟩, hpc, -, haddr, calls, hcalls, hbound⟩ := hwritten
  obtain ⟨m, hname, hcode⟩ := h.opCode
  obtain ⟨calls', hcalls', hbound'⟩ := h.fixupTable
  rw [hcodes] at hheader hbound
  rw [hfixups] at hcalls
  have hlength := congrArg List.length hheader
  rw [List.length_append] at hlength
  refine ⟨h.toQuiet, ⟨⟨m, header⟩, ?_, ?_, ?_⟩, calls ++ calls', ?_, fun f hf => ?_⟩
  · obtain ⟨hscope, ⟨e, hlist, hcell, hmethod, hproc⟩, hfresh⟩ := h.table
    refine ⟨hscope, ⟨e, hlist, hcell.trans hname.symm, hmethod, ?_⟩, fun e he => ?_⟩
    · rw [hproc, hpc, hlength]
      push_cast
      rfl
    · rw [hname]
      exact hfresh e he
  · rw [hcode, hheader, List.append_assoc]
    rfl
  · rw [h.mainAddr, haddr, afterName_mainAddr, hname]
  · rw [hcalls', hcalls, List.append_assoc]
  · have hle := congrArg List.length hcode
    rw [List.length_append] at hle
    rcases List.mem_append.mp hf with hmem | hmem
    · have := hbound f hmem
      omega
    · have := hbound' f hmem
      omega

/-- A method appends its code and its symbol. -/
theorem leads_methodDeclaration :
    Leads (fun s => Quiet s ∧ s.cg = g₀ ∧ g₀.symbolTable.symList = pre) (methodDeclaration fuel)
      fun _ => MethodAdded pre g₀ := by
  have hstart : ∀ s, Quiet s ∧ s.cg = g₀ ∧ g₀.symbolTable.symList = pre →
      Growing false (fun t => t.symList = pre) g₀ (some 0) s := by
    rintro s ⟨hquiet, rfl, hpre⟩
    exact hquiet.growing hpre
  refine Leads.mono ?_ hstart fun _ _ h => h
  unfold methodDeclaration arrayListEmpty
  refine Leads.seq (fun _ _ _ _ => grows_frame (by exact fun _ => rfl)) fun _ => ?_
  refine Leads.seq (fun _ _ _ _ => grows_expect _) fun _ => ?_
  refine Leads.seq (fun _ _ _ _ => grows_expectWeak _) fun _ => ?_
  refine Leads.seq (fun _ _ _ _ => grows_returnType) fun verify => ?_
  refine Leads.look fun s₀ => Leads.deref fun value => ?_
  have hname : ∀ s, ¬ value.asString = "main" →
      Growing false (fun t => t.symList = pre) g₀ (some 0) s →
      Growing false (fun t => t.symList = pre) (afterName value.asString g₀) (some 0) s := by
    intro s hne hs
    unfold afterName
    rwa [if_neg hne]
  refine Leads.optional leads_setMainPC (fun hne s hs => hname s hne hs) ?_
  refine Leads.seq (fun _ _ _ _ => grows_currentType) fun _ => ?_
  refine Leads.ite (fun _ => Leads.seq (fun _ _ _ _ => grows_expect _) fun _ => ?_) fun _ => ?_
  -- the rest is the same with a name and without
  all_goals
    refine Leads.guard (fun t l => "Illegal Method Declaration, no return type specified. Token: "
      ++ t.toString ++ "not valid. in line:" ++ l) ?_ fun _ h => h.tidy
    refine Leads.seq (fun _ _ _ _ => grows_expect _) fun _ => Leads.look fun _ => ?_
    refine leads_addMethod.bind fun _ => ?_
    refine Leads.seq (fun _ _ _ _ => grows_parameterList) fun params => ?_
    refine Leads.seq (fun _ _ _ _ => grows_expectWeak _) fun _ => ?_
    refine Leads.seq (fun _ _ _ _ => grows_expectWeak _) fun _ => ?_
    refine (leads_fixMethodOffset _).bind fun _ => ?_
    refine (Leads.grows (grows_addParameters stable_inMethod params) fun _ =>
      grows_addParameters stable_true params).bind fun _ => ?_
    refine (leads_fixMethodOffset _).bind fun _ => leads_methodPrologue.bind fun procNow => ?_
    refine Leads.of_exists g₀ fun g =>
      ((leads_methodBody procNow).frame _).mono (fun _ h => h) fun _ s h => ?_
    obtain ⟨⟨hwritten, rfl⟩, hended⟩ := h
    exact hended.added hwritten

end Parser

end Compiler
