import Bambinos.Compiler.TokenRuns
import Bambinos.Compiler.Statement
import Bambinos.Infra.Guard
import Bambinos.Infra.Patch

/-!
# What an expression adds to the code

Code is appended, and what stands before it is not touched: the jumps that are fixed later are its
own. An expression declares nothing, and stores nothing to a variable.

* `Extended` — the code generator has only appended to what another one had written
* `Behind` — the same of the parser, with the jumps that it has still to fix
* `Grows` — a block of the parser keeps that
* `grows_frame`, `Growing.congr` — the rules by which larger blocks are put together
* `grows_delayedCodeGen`, `grows_intValue`, `grows_booleanValue` — the parts of an expression do
-/

namespace Compiler

open Infra

/-! ## the code generator -/

/-- What `g` has written begins with what `g₀` had. Outside of methods nothing is stored. -/
structure Extended (inside : Bool) (g₀ g : CodeGenerator) : Prop where
  opCode : ∃ code, g.opCode = g₀.opCode ++ code ∧
    (inside = false → ∀ e ∈ code, e.instruction ≠ .stw)
  pc : g.pc = g.opCode.length + 1
  methodFix : g.methodFix = g₀.methodFix
  mainAddr : g.mainAddr = -50 ↔ g₀.mainAddr = -50
  /-- The calls are in the code that was appended. -/
  fixupTable : ∃ calls, g.fixupTable = g₀.fixupTable ++ calls ∧
    ∀ f ∈ calls, (g₀.opCode.length : Int) < f.offset ∧ f.offset ≤ g.opCode.length

/-- The method of the code generator writes behind `g₀`, and declares nothing. -/
def Writes (inside : Bool) (g₀ : CodeGenerator) (f : CodeGenerator → CodeGenerator) : Prop :=
  ∀ g, Extended inside g₀ g → Extended inside g₀ (f g) ∧ (f g).symbolTable = g.symbolTable

variable {inside : Bool} {g₀ g : CodeGenerator}

namespace Extended

theorem length_le (h : Extended inside g₀ g) : g₀.opCode.length ≤ g.opCode.length := by
  obtain ⟨code, hcode, -⟩ := h.opCode
  rw [hcode, List.length_append]
  exact Nat.le_add_right _ _

theorem refl (h : g₀.pc = g₀.opCode.length + 1) : Extended inside g₀ g₀ where
  opCode := ⟨[], (List.append_nil _).symm, fun _ => nofun⟩
  pc := h
  methodFix := rfl
  mainAddr := Iff.rfl
  fixupTable := ⟨[], (List.append_nil _).symm, nofun⟩

theorem putOpCode (h : Extended inside g₀ g) {e : OpCodeElement}
    (he : inside = false → e.instruction ≠ .stw) : Extended inside g₀ (g.putOpCode e) := by
  obtain ⟨⟨code, hcode, hstores⟩, hpc, hfix, hmain, calls, hcalls, hbound⟩ := h
  have hlength : (g.putOpCode e).opCode.length = g.opCode.length + 1 := List.length_append
  refine ⟨⟨code ++ [e], ?_, fun hs e' he' => ?_⟩, ?_, hfix, hmain, calls, hcalls, fun f hf => ?_⟩
  · rw [CodeGenerator.putOpCode, hcode, List.append_assoc]
  · rcases List.mem_append.mp he' with hmem | hmem
    · exact hstores hs e' hmem
    · rw [List.mem_singleton.mp hmem]
      exact he hs
  · rw [hlength, ← hpc]
    rfl
  · obtain ⟨hlow, hhigh⟩ := hbound f hf
    refine ⟨hlow, ?_⟩
    rw [hlength]
    omega

/-- The number of the last register does not matter. -/
theorem reg (h : Extended inside g₀ g) (r : Int) : Extended inside g₀ { g with topReg := r } :=
  ⟨h.opCode, h.pc, h.methodFix, h.mainAddr, h.fixupTable⟩

/-- An instruction behind `g₀` is changed. -/
theorem modify (h : Extended inside g₀ g) {i : Nat} (hi : g₀.opCode.length ≤ i)
    {f : OpCodeElement → OpCodeElement} (hf : ∀ e, e.instruction ≠ .stw → (f e).instruction ≠ .stw) :
    Extended inside g₀ { g with opCode := g.opCode.modify i f } := by
  obtain ⟨⟨code, hcode, hstores⟩, hpc, hfix, hmain, hfixups⟩ := h
  have hlength : (g.opCode.modify i f).length = g.opCode.length := List.length_modify _ _ _
  refine ⟨⟨code.modify (i - g₀.opCode.length) f, ?_, fun hs e he => ?_⟩, ?_, hfix, hmain, ?_⟩
  · show g.opCode.modify i f = _
    rw [hcode, modify_append code f _ hi]
  · obtain ⟨j, hj, rfl⟩ := List.mem_iff_getElem.mp he
    rw [List.length_modify] at hj
    have hmem := hstores hs _ (List.getElem_mem hj)
    rw [List.getElem_modify]
    split
    · exact hf _ hmem
    · exact hmem
  · show g.pc = (g.opCode.modify i f).length + 1
    rw [hlength]
    exact hpc
  · obtain ⟨calls, hcalls, hbound⟩ := hfixups
    refine ⟨calls, hcalls, fun call hcall => ?_⟩
    show _ ∧ call.offset ≤ ((g.opCode.modify i f).length : Int)
    rw [hlength]
    exact hbound call hcall

end Extended

/-! ## loads, operations and jumps -/

namespace Writes

/-- An instruction that stores nothing. -/
theorem put {f : CodeGenerator → CodeGenerator} {e : CodeGenerator → OpCodeElement}
    {r r' : CodeGenerator → Int}
    (hf : ∀ g, f g = { ({ g with topReg := r g }.putOpCode (e g)) with topReg := r' g })
    (he : ∀ g, (e g).instruction ≠ .stw) : Writes inside g₀ f := by
  intro g h
  rw [hf g]
  exact ⟨((h.reg (r g)).putOpCode fun _ => he g).reg (r' g), rfl⟩

theorem comp {f f' : CodeGenerator → CodeGenerator} (h : Writes inside g₀ f)
    (h' : Writes inside g₀ f') : Writes inside g₀ fun g => f' (f g) := fun g hg =>
  ⟨(h' _ (h g hg).1).1, (h' _ (h g hg).1).2.trans (h g hg).2⟩

theorem id : Writes inside g₀ fun g => g := fun _ h => ⟨h, rfl⟩

theorem loadWordType (cell : SymbolTableCell) : Writes inside g₀ (·.loadWordType cell) :=
  put (fun _ => rfl) fun _ => nofun

theorem addI (val : Int) : Writes inside g₀ (·.addI val) := put (fun _ => rfl) fun _ => nofun

theorem invertValofLastReg : Writes inside g₀ (·.invertValofLastReg) :=
  put (fun _ => rfl) fun _ => nofun

theorem putOperation2Reg (kind : Operation) : Writes inside g₀ (·.putOperation2Reg kind) :=
  put (fun _ => rfl) fun _ => by cases kind <;> exact nofun

theorem putImOp2Reg (kind : Operation) (value : Int) :
    Writes inside g₀ (·.putImOp2Reg kind value) :=
  put (fun _ => rfl) fun _ => by cases kind <;> exact nofun

theorem selectElement (cell : SymbolTableCell) : Writes inside g₀ (·.selectElement cell) := by
  intro g h
  unfold CodeGenerator.selectElement
  dsimp only
  split
  · split
    · exact comp (putImOp2Reg _ _) invertValofLastReg g h
    · exact invertValofLastReg g h
  · split
    · exact putImOp2Reg _ _ g h
    · exact ⟨h, rfl⟩

theorem loadWordArray (globalScope : Bool) : Writes inside g₀ (·.loadWordArray globalScope) := by
  intro g h
  unfold CodeGenerator.loadWordArray
  have hadd : Extended inside g₀ (g.putOpCode (.mk3 .add g.getCurrentReg
      (if globalScope then heap else fp) g.getCurrentReg)) := h.putOpCode fun _ => nofun
  exact ⟨hadd.putOpCode fun _ => nofun, rfl⟩

theorem pushRegister : Writes inside g₀ (·.pushRegister) := put (fun _ => rfl) fun _ => nofun

/-- A call. -/
theorem methodCall (proc : Int) : Writes inside g₀ fun g => (g.methodCall proc).2 :=
  put (fun _ => rfl) fun _ => nofun

theorem fixOrJumps {pos : Nat} (hpos : g₀.opCode.length ≤ pos) (falseJumps and : Bool) :
    Writes inside g₀ (·.fixOrJumps pos falseJumps and) := by
  intro g h
  have hinvert : ∀ e : OpCodeElement, e.instruction ≠ .stw →
      CodeGenerator.invertRelation e.instruction ≠ .stw := by
    intro e _
    cases e.instruction <;> exact nofun
  unfold CodeGenerator.fixOrJumps
  split
  · exact ⟨h.modify hpos hinvert, rfl⟩
  · split
    · exact ⟨h.modify hpos fun e he => by split <;> exact he, rfl⟩
    · exact ⟨h.modify hpos fun e he => by split <;> exact he, rfl⟩

theorem foldl {α : Type} {f : CodeGenerator → α → CodeGenerator} {l : List α}
    (hf : ∀ a ∈ l, Writes inside g₀ (f · a)) : Writes inside g₀ (fun g => l.foldl f g) := by
  induction l with
  | nil => exact id
  | cons a l ih =>
    have hrest := ih fun a' ha' => hf a' (List.mem_cons_of_mem _ ha')
    exact fun g h => comp (hf a List.mem_cons_self) hrest g h

end Writes

/-! ## the parser -/

/-- A number in the source has no sign. -/
def Ident.Plain (t : Ident) : Prop := ∀ n, t.value = some (.number n) → 0 ≤ n

/-- The parser has only appended to the code of `g₀`, and the jumps it will fix are behind that.
`T` is what is known of the symbol table. -/
structure Behind (inside : Bool) (T : SymbolTableList → Prop) (g₀ : CodeGenerator)
    (s : ParserState) : Prop where
  written : Extended inside g₀ s.cg
  table : T s.cg.symbolTable
  jumps : ∀ l ∈ s.condFixup :: s.condFixStack, ∀ js, l = some js → ∀ i ∈ js, g₀.opCode.length ≤ i
  returns : ∀ i ∈ s.fixReturn, inside = true ∧ g₀.opCode.length ≤ i
  tokens : ∀ t ∈ s.currentToken :: s.input, t.Plain

/-- A syntax error, or a duplicate. -/
def Stopped (s : ParserState) : Prop := s.setCodeGeneration = false

/-- The parser is inside of `k` conditions. Outside of the first one there are no jumps to fix. -/
structure Level (k : Option Nat) (s : ParserState) : Prop where
  depth : k = some s.condFixStack.length
  outer : (s.condFixup :: s.condFixStack).getLast? = some none

/-- What holds all the time, in the statements inside of `k` conditions. For `none` the code
generation has been stopped. -/
structure Growing (inside : Bool) (T : SymbolTableList → Prop) (g₀ : CodeGenerator) (k : Option Nat)
    (s : ParserState) : Prop extends Behind inside T g₀ s where
  level : Stopped s ∨ Level k s

/-- What holds behind a syntax error. -/
structure Caught (inside : Bool) (T : SymbolTableList → Prop) (g₀ : CodeGenerator)
    (s : ParserState) : Prop extends Behind inside T g₀ s where
  stopped : Stopped s

/-- A block of the parser that only appends to the code. -/
abbrev Grows (inside : Bool) (T : SymbolTableList → Prop) (g₀ : CodeGenerator) (k : Option Nat)
    {α : Type} (m : P α) (q : α → Prop) : Prop :=
  Maintains (Growing inside T g₀ k) (Caught inside T g₀) m q

/-- All that `Growing` speaks of. -/
def ParserState.view (s : ParserState) :=
  (s.cg, s.condFixup, s.condFixStack, s.fixReturn, s.currentToken, s.input, s.setCodeGeneration)

variable {T : SymbolTableList → Prop} {k : Option Nat} {s s' : ParserState}

theorem Growing.congr (h : Growing inside T g₀ k s) (hview : s'.view = s.view) :
    Growing inside T g₀ k s' := by
  obtain ⟨⟨hwritten, htable, hjumps, hreturns, htokens⟩, hlevel⟩ := h
  unfold ParserState.view at hview
  simp only [Prod.mk.injEq] at hview
  obtain ⟨hcg, hfix, hstack, hreturn, htoken, hinput, hflag⟩ := hview
  refine ⟨⟨by rwa [hcg], by rwa [hcg], by rwa [hfix, hstack], by rwa [hreturn],
    by rwa [htoken, hinput]⟩, ?_⟩
  unfold Stopped at hlevel ⊢
  rw [hflag]
  exact hlevel.imp_right fun h => ⟨by rw [hstack, ← h.depth], by rw [hfix, hstack, h.outer]⟩

/-- Behind a syntax error the parser may be anywhere. -/
theorem Caught.growing (h : Caught inside T g₀ s) : Growing inside T g₀ k s :=
  ⟨h.toBehind, Or.inl h.stopped⟩

namespace Parser

variable {α β : Type} {q : α → Prop} {id : TokenID}

/-! ## small steps -/

/-- A step that touches nothing that matters. -/
theorem grows_frame {f : ParserState → ParserState} (h : ∀ s, (f s).view = s.view) :
    Grows inside T g₀ k (modify f) fun _ => True :=
  Guards.modify fun s hI => ⟨hI.congr (h s), trivial⟩

theorem grows_get : Grows inside T g₀ k (get : P ParserState) (Growing inside T g₀ k) := Guards.get

theorem grows_gen {f : CodeGenerator → CodeGenerator} (hf : Writes inside g₀ f) :
    Grows inside T g₀ k (gen f) fun _ => True := by
  refine Guards.modify fun s h => ⟨?_, trivial⟩
  obtain ⟨hwritten, htable⟩ := hf _ h.written
  exact ⟨⟨hwritten, htable ▸ h.table, h.jumps, h.returns, h.tokens⟩, h.level.imp id fun h => ⟨h.1, h.2⟩⟩

/-- A method of the code generator that answers with a position in what it writes. -/
theorem grows_genGet {f : CodeGenerator → α × CodeGenerator} (hf : Writes inside g₀ fun g => (f g).2)
    (hq : ∀ g, Extended inside g₀ g → q (f g).1) : Grows inside T g₀ k (genGet f) q := by
  refine Guards.of_ok fun s h => ⟨_, _, rfl, ?_, hq _ h.written⟩
  obtain ⟨hwritten, htable⟩ := hf _ h.written
  exact ⟨⟨hwritten, htable ▸ h.table, h.jumps, h.returns, h.tokens⟩, h.level.imp id fun h => ⟨h.1, h.2⟩⟩

theorem grows_report (r : Report) : Grows inside T g₀ k (report r) fun _ => True :=
  grows_frame fun _ => rfl

theorem grows_leak (l : Leak) : Grows inside T g₀ k (leak l) fun _ => True :=
  grows_frame fun _ => rfl

theorem grows_takeItem (item : Item) : Grows inside T g₀ k (takeItem item) fun _ => True :=
  Guards.ite (fun _ => grows_leak _) fun _ => Guards.keep trivial

theorem grows_dropItem (item : Option Item) : Grows inside T g₀ k (dropItem item) fun _ => True := by
  cases item with
  | none => exact Guards.keep trivial
  | some item => exact Guards.ite (fun _ => grows_leak _) fun _ => Guards.keep trivial

theorem grows_line : Grows inside T g₀ k line fun _ => True :=
  grows_get.seq fun _ => Guards.keep trivial

theorem grows_currentType : Grows inside T g₀ k currentType fun _ => True :=
  grows_get.seq fun _ => Guards.keep trivial

theorem grows_tokenCount : Grows inside T g₀ k tokenCount fun _ => True :=
  grows_get.seq fun _ => Guards.keep trivial

theorem grows_tokenAt (i : Int) : Grows inside T g₀ k (tokenAt i) fun _ => True :=
  grows_get.seq fun _ => (Guards.elementAt _ _).mono fun _ _ => trivial

theorem grows_deref (x : Option α) : Grows inside T g₀ k (deref x) fun a => x = some a :=
  Guards.deref x

theorem grows_tokenName (i : Int) : Grows inside T g₀ k (tokenName i) fun _ => True :=
  (grows_tokenAt i).seq fun _ => (grows_deref _).seq fun _ => Guards.keep trivial

/-- A syntax error stops the code generation. -/
theorem grows_syntaxError (message : String) :
    Grows inside T g₀ k (syntaxError message : P α) q where
  ok _ h := by cases h
  caught hI h _ := by
    cases h
    exact ⟨⟨hI.written, hI.table, hI.jumps, hI.returns, hI.tokens⟩, rfl⟩

/-- What stands behind a syntax error is not reached. -/
theorem grows_stop (message : String) {f : β → P α} :
    Grows inside T g₀ k (syntaxError message >>= f) q :=
  Guards.step (@grows_syntaxError inside g₀ T k β (fun _ => False) message) fun _ h => h.elim

theorem grows_parseInt (v : Option TokenValue) :
    Grows inside T g₀ k (parseInt v) fun n => v = some (.number n) := by
  unfold parseInt
  split
  · exact Guards.ite (fun _ => Guards.keep rfl) fun _ => Guards.throw nofun
  · exact Guards.throw nofun

theorem grows_getSymbol (name : Option TokenValue) :
    Grows inside T g₀ k (getSymbol name) fun _ => True :=
  grows_get.seq fun _ => Guards.keep trivial

theorem grows_getIdentifersCell (i : Int) :
    Grows inside T g₀ k (getIdentifersCell i) fun _ => True := by
  unfold getIdentifersCell
  refine (grows_tokenAt _).seq fun t => Guards.ite (fun _ => ?_) fun _ => Guards.keep trivial
  refine (grows_getSymbol _).seq fun cell => Guards.ite (fun _ => ?_) fun _ => Guards.keep trivial
  refine (grows_tokenAt _).seq fun dot => Guards.ite (fun _ => ?_) fun _ => Guards.keep trivial
  refine (grows_tokenAt _).seq fun outer => Guards.ite (fun _ => ?_) fun _ => Guards.keep trivial
  exact grows_get.seq fun _ => (grows_deref _).seq fun _ => Guards.keep trivial

theorem grows_putIdentifiers2Reg (i : Int) :
    Grows inside T g₀ k (putIdentifiers2Reg i) fun _ => True :=
  (grows_getIdentifersCell i).seq fun _ => (grows_deref _).seq fun _ =>
    (grows_gen (Writes.loadWordType _)).seq fun _ => Guards.keep trivial

theorem grows_putValue2Reg (i : Int) : Grows inside T g₀ k (putValue2Reg i) fun _ => True :=
  (grows_tokenAt i).seq fun _ => Guards.ite (fun _ => grows_putIdentifiers2Reg i) fun _ =>
    (grows_parseInt _).seq fun _ => (grows_gen (Writes.addI _)).seq fun _ => Guards.keep trivial

/-! ## tokens -/

theorem grows_nextToken : Grows inside T g₀ k nextToken fun _ => True := by
  refine Guards.of_ok fun s h => ⟨_, _, nextToken_run s, ?_, trivial⟩
  refine ⟨⟨h.written, h.table, h.jumps, h.returns, ?_⟩, h.level.imp id fun h => ⟨h.1, h.2⟩⟩
  have htokens := h.tokens
  intro t ht
  cases hinput : s.input with
  | nil =>
    rw [hinput] at ht
    rw [List.mem_singleton.mp ht]
    exact nofun
  | cons t' input =>
    rw [hinput] at ht htokens
    exact htokens t (List.mem_cons_of_mem _ ht)

/-- What `expectAt` does to an invariant of the rest of the state. -/
theorem maintains_expectAt {I E : ParserState → Prop} (hview : ∀ s s', s'.view = s.view → I s → I s')
    (hnext : Maintains I E nextToken fun _ => True)
    (hstop : ∀ s, I s → E { s with setCodeGeneration := false }) (level : ErrorLevel) :
    Maintains I E (expectAt level id) fun _ => True := by
  have hframe : ∀ f : ParserState → ParserState, (∀ s, (f s).view = s.view) →
      Maintains I E (modify f : P PUnit) fun _ => True :=
    fun f h => Guards.modify fun s hI => ⟨hview _ _ (h s) hI, trivial⟩
  have hlook : ∀ {α : Type} (f : ParserState → α),
      Maintains I E (do return f (← get) : P α) fun _ => True :=
    fun f => Guards.of_ok fun s hI => ⟨_, s, rfl, hI, trivial⟩
  have herror : ∀ message : String, Maintains I E (syntaxError message : P Unit) fun _ => True :=
    fun message => ⟨fun {s a s'} _ h => (by cases h), fun {s x s'} hI h _ => (by
      cases h
      exact hstop s hI)⟩
  have hcheck : Maintains I E
      (do
        if (← currentType) = .tError then
          syntaxError ("Error: Token: \"Error\" received, thats not good ! in line " ++ (← line)) :
        P Unit) fun _ => True :=
    (hlook _).seq fun _ =>
      Guards.ite (fun _ => (hlook _).seq fun _ => herror _) fun _ => Guards.keep trivial
  have hlast : ∀ fetch : Bool, Maintains I E
      (do
        modify countBraces
        if fetch then nextToken
        if (← currentType) = .tError then
          syntaxError ("Error: Token: \"Error\" received, thats not good ! in line " ++ (← line)) :
        P Unit) fun _ => True := fun fetch =>
    (hframe _ fun s => by rw [countBraces_eq]; rfl).seq fun _ => Guards.optional hnext hcheck
  have hadd : ∀ fetch : Bool, Maintains I E
      (do
        if (← currentType) = .tSemicolon then generateCode
        else if fetch then addToken (← get).currentToken
        modify countBraces
        if fetch then nextToken
        if (← currentType) = .tError then
          syntaxError ("Error: Token: \"Error\" received, thats not good ! in line " ++ (← line)) :
        P Unit) fun _ => True := by
    intro fetch
    refine (hlook _).seq fun _ => Guards.ite (fun _ => ?_) fun _ =>
      Guards.ite (fun _ => ?_) fun _ => hlast fetch
    · exact (hframe _ (by exact fun _ => rfl)).seq fun _ => hlast fetch
    · exact Guards.get.seq fun _ => (hframe _ (by exact fun _ => rfl)).seq fun _ => hlast fetch
  have hmismatch : Maintains I E (mismatch level id) fun _ => True := by
    cases level with
    | week =>
      refine (hlook _).seq fun _ => (hframe _ (by exact fun _ => rfl)).seq fun _ => ?_
      exact Guards.ite (fun _ => Guards.keep trivial) fun _ => hframe _ (by exact fun _ => rfl)
    | strong => exact (hlook _).seq fun _ => (hlook _).seq fun _ => herror _
  exact (hlook _).seq fun _ =>
    Guards.ite (fun _ => hmismatch.seq fun _ => hadd _) fun _ => hadd _

theorem grows_expectAt (level : ErrorLevel) : Grows inside T g₀ k (expectAt level id) fun _ => True :=
  maintains_expectAt (fun _ _ hview h => h.congr hview) grows_nextToken
    (fun _ h => ⟨⟨h.written, h.table, h.jumps, h.returns, h.tokens⟩, rfl⟩) level

theorem grows_expect (id : TokenID) : Grows inside T g₀ k (expect id) fun _ => True :=
  grows_expectAt .strong

theorem grows_expectWeak (id : TokenID) : Grows inside T g₀ k (expectWeak id) fun _ => True :=
  grows_expectAt .week

theorem grows_identifier : Grows inside T g₀ k identifier fun _ => True := by
  refine (grows_expect _).seq fun _ => (grows_frame (by exact fun _ => rfl)).seq fun _ => ?_
  refine grows_currentType.seq fun _ => Guards.ite (fun _ => ?_) fun _ => Guards.keep trivial
  exact (grows_expect _).seq fun _ => (grows_expect _).seq fun _ =>
    grows_frame (by exact fun _ => rfl)

/-- A syntax error in the middle of a block. -/
theorem grows_guard {c : Prop} [Decidable c] (message : String → String) {m : P α}
    (hm : Grows inside T g₀ k m q) :
    Grows inside T g₀ k
      (if c then do let l ← line; let _ ← (syntaxError (message l) : P PUnit); m else m) q :=
  Guards.ite (fun _ => grows_line.seq fun _ => grows_stop _) fun _ => hm

/-- `if (...) putValue2Reg(tokenList.size() - 1);` -/
theorem grows_loadLast {c : Prop} [Decidable c] {m : P α} (hm : Grows inside T g₀ k m q) :
    Grows inside T g₀ k (if c then do let _ ← putValue2Reg ((← tokenCount) - 1); m else m) q :=
  Guards.ite (fun _ => grows_tokenCount.seq fun _ => (grows_putValue2Reg _).seq fun _ => hm) fun _ => hm

/-! ## arithmetic -/

theorem grows_foldConstants (kind : Operation) (v w : Int) :
    Grows inside T g₀ k (foldConstants kind v w) fun _ => True := by
  cases kind with
  | div | mod => exact Guards.ite (fun _ => Guards.throw nofun) fun _ => Guards.keep trivial
  | mul | add | sub => exact Guards.keep trivial

theorem grows_setLastValue (v : Int) : Grows inside T g₀ k (setLastValue v) fun _ => True :=
  grows_tokenCount.seq fun _ => (grows_tokenAt _).seq fun _ => grows_frame fun _ => rfl

theorem grows_requireInt (type : Option TypeDesc) :
    Grows inside T g₀ k (requireInt type) fun _ => True :=
  Guards.ite (fun _ => grows_line.seq fun _ => grows_syntaxError _) fun _ => Guards.keep trivial

theorem grows_invertForSub (kind : Operation) :
    Grows inside T g₀ k (delayedCodeGen.invertForSub kind) fun _ => True :=
  Guards.ite (fun _ => (grows_gen Writes.invertValofLastReg).seq fun _ => Guards.keep trivial)
    fun _ => Guards.keep trivial

/-- A variable is loaded as an operand. -/
theorem grows_loadInt (i : Int) {m : P α} (hm : Grows inside T g₀ k m q) :
    Grows inside T g₀ k (do requireInt (← putIdentifiers2Reg i); m) q :=
  (grows_putIdentifiers2Reg i).seq fun _ => (grows_requireInt _).seq fun _ => hm

theorem grows_delayedCodeGen (kind : Operation) (i : Int) (item1 item2 : Option Item) :
    Grows inside T g₀ k (delayedCodeGen kind i item1 item2) fun _ => True := by
  unfold delayedCodeGen
  have hgen : ∀ {f : CodeGenerator → CodeGenerator} (r : Option Item), Writes inside g₀ f →
      Grows inside T g₀ k (do gen f; return r) fun _ => True := fun r hf =>
    (grows_gen hf).seq fun _ => Guards.keep trivial
  have himm : ∀ (kind : Operation) (v : Int) (r : Option Item),
      Grows inside T g₀ k (do gen (·.putImOp2Reg kind v); return r) fun _ => True := fun kind v r =>
    hgen r (Writes.putImOp2Reg kind v)
  have hinvert : ∀ (v : Int) (r : Option Item), Grows inside T g₀ k
      (do let k ← delayedCodeGen.invertForSub kind; gen (·.putImOp2Reg k v); return r)
      fun _ => True := fun v r => (grows_invertForSub kind).seq fun _ => himm _ v r
  have hboth : ∀ r, Grows inside T g₀ k (do gen (·.putOperation2Reg kind); return r) fun _ => True :=
    fun r => hgen r (Writes.putOperation2Reg kind)
  cases item2 with
  | none => exact grows_line.seq fun _ => grows_stop _
  | some item2 =>
  refine (Guards.keep (q := fun _ => True) trivial).seq fun item2 => ?_
  refine (grows_deref _).seq fun item1 => ?_
  refine (grows_takeItem _).seq fun _ => (grows_takeItem _).seq fun _ => ?_
  refine Guards.ite (fun _ => hboth _) fun _ => Guards.ite (fun _ => ?constants) fun _ =>
    Guards.ite (fun _ => ?loaded) fun _ => ?_
  case constants =>
    refine grows_guard _ ((grows_foldConstants _ _ _).seq fun _ => ?_)
    exact (grows_setLastValue _).seq fun _ => Guards.keep trivial
  case loaded => exact grows_loadInt _ (grows_tokenCount.seq fun _ => grows_loadInt _ (hboth _))
  refine Guards.ite (fun _ => grows_loadInt _ (hboth _)) fun _ => Guards.ite (fun _ => ?_) fun _ =>
    Guards.ite (fun _ => himm _ _ _) fun _ => ?_
  · exact grows_tokenCount.seq fun _ => (grows_putIdentifiers2Reg _).seq fun _ => hboth _
  refine Guards.ite (fun _ => hinvert _ _) fun _ => Guards.ite (fun _ => grows_loadInt _ (himm _ _ _))
    fun _ => Guards.ite (fun _ => ?_) fun _ => Guards.keep trivial
  exact grows_tokenCount.seq fun _ => grows_loadInt _ (hinvert _ _)

theorem grows_getOperation : Grows inside T g₀ k getOperation fun _ => True := by
  unfold getOperation
  refine grows_currentType.seq fun t => ?_
  split
  · exact (grows_expect _).seq fun _ => Guards.keep trivial
  · exact (grows_expect _).seq fun _ => Guards.keep trivial
  · exact (grows_expect _).seq fun _ => Guards.keep trivial
  · exact (grows_expect _).seq fun _ => Guards.keep trivial
  · exact (grows_expect _).seq fun _ => Guards.keep trivial
  · exact Guards.keep trivial

/-! ## values -/

theorem grows_intValue : Grows inside T g₀ k intValue fun _ => True :=
  (grows_expect _).seq fun _ => grows_tokenCount.seq fun _ => (grows_tokenAt _).seq fun _ =>
    (grows_parseInt _).mono fun _ _ => trivial

theorem grows_booleanValue : Grows inside T g₀ k booleanValue fun _ => True := by
  refine grows_currentType.seq fun _ => Guards.ite (fun _ => ?_) fun _ => ?_
  · exact (grows_expect _).seq fun _ => (grows_setLastValue _).seq fun _ => Guards.keep trivial
  refine grows_currentType.seq fun _ => Guards.ite (fun _ => ?_) fun _ => ?_
  · exact (grows_expect _).seq fun _ => (grows_setLastValue _).seq fun _ => Guards.keep trivial
  · exact grows_currentType.seq fun _ => grows_line.seq fun _ => grows_syntaxError _

end Parser

end Compiler
