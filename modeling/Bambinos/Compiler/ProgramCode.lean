import Bambinos.Compiler.FieldGrowth
import Bambinos.Compiler.Main

/-!
# The code of a file

The parser is followed through a whole file. As long as there is no error, the code is that of the
fields, the jump to `main` and the methods.

* `procs` — the addresses of the methods
* `SourceCode` — the code and the symbols of a class
* `program_code` — what `program` leaves behind
-/

namespace Compiler

open Infra

/-! ## the addresses of the methods -/

/-- The names and addresses of methods that stand behind `n` instructions. -/
def procs : Nat → List ClassMethod → List (String × Int)
  | _, [] => []
  | n, m :: ms => (m.name, (n : Int) + m.header.length + 1) :: procs (n + m.whole.length) ms

theorem procs_append (n : Nat) (ms ms' : List ClassMethod) :
    procs n (ms ++ ms') = procs n ms ++ procs (n + (methodsCode ms).length) ms' := by
  induction ms generalizing n with
  | nil => rfl
  | cons m ms ih =>
    rw [List.cons_append, procs, procs, ih, List.cons_append, methodsCode_cons, List.length_append,
      Nat.add_assoc]

theorem procs_names (n : Nat) (ms : List ClassMethod) :
    (procs n ms).map Prod.fst = ms.map fun m => m.name := by
  induction ms generalizing n with
  | nil => rfl
  | cons m ms ih => rw [procs, List.map_cons, List.map_cons, ih]

theorem lookup_eq_of_mem {l : List (String × Int)} (hnd : (l.map Prod.fst).Nodup) {name : String}
    {proc : Int} (h : (name, proc) ∈ l) : l.lookup name = some proc := by
  induction l with
  | nil => cases h
  | cons x l ih =>
    rw [List.map_cons, List.nodup_cons] at hnd
    rw [List.lookup_cons]
    rcases List.mem_cons.mp h with rfl | hmem
    · rw [beq_self_eq_true]
    · have hne : name ≠ x.1 := fun heq => hnd.1 (heq ▸ List.mem_map_of_mem hmem)
      rw [beq_eq_false_iff_ne.mpr hne]
      exact ih hnd.2 hmem

/-- The number of instructions in front of the methods. -/
def startLength (fields : List FieldCode) : Nat := 2 + (fieldsCode fields).length

/-- The target of the jump to `main`. Without a method `main` it is left as it is. -/
def mainTarget (fields : List FieldCode) (ms : List ClassMethod) : Int :=
  ((procs (startLength fields) ms).lookup "main").getD (-5)

/-! ## the methods of a class -/

/-- What methods have added to `g₁`. -/
structure Methods (g₁ : CodeGenerator) (ms : List ClassMethod) (g : CodeGenerator) : Prop where
  opCode : g.opCode = g₁.opCode ++ methodsCode ms
  symbols : ∃ es : List SymbolEntry, g.symbolTable.symList = g₁.symbolTable.symList ++ es ∧
    (es.map fun e => (e.cell.name, e.cell.proc)) = procs g₁.opCode.length ms ∧
    ∀ e ∈ es, e.cell.classType = .method
  names : (ms.map fun m => m.name).Nodup
  fresh : ∀ m ∈ ms, ∀ e ∈ g₁.symbolTable.symList, e.cell.name ≠ m.name
  mainAddr : g.mainAddr = -50 ↔ g₁.mainAddr = -50 ∧ ∀ m ∈ ms, m.name ≠ "main"
  fixupTable : ∃ calls, g.fixupTable = g₁.fixupTable ++ calls ∧
    ∀ f ∈ calls, (g₁.opCode.length : Int) < f.offset ∧ f.offset ≤ g.opCode.length

section Methods

variable {g₁ g : CodeGenerator} {ms : List ClassMethod} {s : ParserState}

theorem Methods.refl (g₁ : CodeGenerator) : Methods g₁ [] g₁ where
  opCode := (List.append_nil _).symm
  symbols := ⟨[], (List.append_nil _).symm, rfl, List.forall_mem_nil _⟩
  names := List.nodup_nil
  fresh := List.forall_mem_nil _
  mainAddr := ⟨fun h => ⟨h, List.forall_mem_nil _⟩, fun h => h.1⟩
  fixupTable := ⟨[], (List.append_nil _).symm, List.forall_mem_nil _⟩

/-- One more method. -/
theorem Methods.append (h : Methods g₁ ms g) (h' : Parser.MethodAdded g.symbolTable.symList g s) :
    ∃ ms, Methods g₁ ms s.cg := by
  obtain ⟨m, hmethod, hcode, haddr⟩ := h'.added
  obtain ⟨-, ⟨e, hlist, hname, hclass, hproc⟩, hfresh⟩ := hmethod
  obtain ⟨es, hes, hprocs, hclasses⟩ := h.symbols
  obtain ⟨calls, hcalls, hbound⟩ := h.fixupTable
  obtain ⟨calls', hcalls', hbound'⟩ := h'.fixupTable
  -- the code and the symbol of the method stand behind those of the others
  have hlow := congrArg List.length h.opCode
  have hhigh := congrArg List.length hcode
  rw [List.length_append] at hlow hhigh
  refine ⟨ms ++ [m], ?_, ⟨es ++ [e], ?_, ?_, ?_⟩, ?_, ?_, ?_, calls ++ calls', ?_, ?_⟩
  · rw [hcode, h.opCode, methodsCode_append, List.append_assoc]
    exact congrArg _ (congrArg _ (List.append_nil _).symm)
  · rw [hlist, hes, List.append_assoc]
  · rw [List.map_append, List.map_singleton, hprocs, procs_append, hname, hproc, hlow]
    rfl
  · intro e' he'
    rcases List.mem_append.mp he' with hmem | hmem
    · exact hclasses e' hmem
    · rw [List.mem_singleton.mp hmem]
      exact hclass
  · rw [List.map_append, List.map_singleton]
    refine SymbolTableList.nodup_append_singleton h.names fun name hname' => ?_
    rw [← procs_names g₁.opCode.length ms, ← hprocs, List.map_map] at hname'
    obtain ⟨e', he', rfl⟩ := List.mem_map.mp hname'
    exact hfresh e' (by rw [hes]; exact List.mem_append_right _ he')
  · intro m' hm' e' he'
    rcases List.mem_append.mp hm' with hmem | hmem
    · exact h.fresh m' hmem e' he'
    · rw [List.mem_singleton.mp hmem]
      exact hfresh e' (by rw [hes]; exact List.mem_append_left _ he')
  · -- `main` is the method, or was one of the others
    rw [haddr, h.mainAddr, and_assoc]
    refine and_congr_right fun _ => ⟨fun hnames m' hm' => ?_, fun hnames => ?_⟩
    · rcases List.mem_append.mp hm' with hmem | hmem
      · exact hnames.1 m' hmem
      · rw [List.mem_singleton.mp hmem]
        exact hnames.2
    · exact ⟨fun m' hm' => hnames m' (List.mem_append_left _ hm'),
        hnames m (List.mem_append_right _ List.mem_cons_self)⟩
  · rw [hcalls', hcalls, List.append_assoc]
  · -- the calls of the method stand inside its own code
    intro f hf
    rcases List.mem_append.mp hf with hmem | hmem
    · have := hbound f hmem
      omega
    · have := hbound' f hmem
      omega

end Methods

/-! ## a class -/

/-- The code and the symbols of a class. -/
structure SourceCode (fields : List FieldCode) (ms : List ClassMethod) (g : CodeGenerator) : Prop where
  opCode : g.opCode = startCode fields (mainTarget fields ms) ++ methodsCode ms
  symbols : ∃ (t : SymbolTableList) (es : List SymbolEntry),
    Declared (fields.filterMap FieldCode.declaration) t ∧ (∀ field ∈ fields, field.InTable t) ∧
    g.symbolTable.symList = t.symList ++ es ∧
    (es.map fun e => (e.cell.name, e.cell.proc)) = procs (startLength fields) ms ∧
    ∀ e ∈ es, e.cell.classType = .method
  plain : ∀ field ∈ fields, field.Plain
  names : (ms.map fun m => m.name).Nodup
  mainAddr : g.mainAddr = -50 ↔ ∀ m ∈ ms, m.name ≠ "main"
  /-- The jump to `main` is no call. -/
  fixupTable : ∀ f ∈ g.fixupTable, 1 < f.offset ∧ f.offset ≠ startLength fields ∧
    f.offset ≤ g.opCode.length

/-- The code generator in front of a class. -/
structure Fresh (g : CodeGenerator) : Prop where
  opCode : g.opCode = [.mk3 .addi sp 0 4096]
  fixupTable : g.fixupTable = []
  mainAddr : g.mainAddr = -50
  table : Declared [] g.symbolTable

/-- The code generator between the methods of a class. The jump to `main` is at `pos`. -/
def AmongMethods (pos : Nat) (g : CodeGenerator) : Prop :=
  ∃ g₀ fields g₁ ms, Fresh g₀ ∧ FieldsAdded g₀ fields g₁ ∧ pos = g₁.opCode.length ∧
    Methods (g₁.methodCall (-5)).2 ms g

section Class

variable {g₀ g₁ g : CodeGenerator} {fields : List FieldCode} {ms : List ClassMethod}

theorem FieldsAdded.length (h : FieldsAdded g₀ fields g₁) (h₀ : Fresh g₀) :
    g₁.opCode.length = 1 + (fieldsCode fields).length := by
  rw [h.opCode, h₀.opCode, List.length_append]
  rfl

theorem methodCall_opCode (g : CodeGenerator) (proc : Int) :
    (g.methodCall proc).2.opCode = g.opCode ++ [.mk3 .bsr 0 0 proc] := rfl

theorem Methods.opCode_eq (h₀ : Fresh g₀) (hfields : FieldsAdded g₀ fields g₁)
    (h : Methods (g₁.methodCall (-5)).2 ms g) :
    g.opCode = startCode fields (-5) ++ methodsCode ms := by
  rw [h.opCode, methodCall_opCode, hfields.opCode, h₀.opCode]
  rfl

/-- Only the jump to `main` is changed behind the last method. -/
theorem Methods.sourceCode {g' : CodeGenerator} (h₀ : Fresh g₀) (hfields : FieldsAdded g₀ fields g₁)
    (h : Methods (g₁.methodCall (-5)).2 ms g)
    (hcode : g'.opCode = startCode fields (mainTarget fields ms) ++ methodsCode ms)
    (htable : g'.symbolTable = g.symbolTable) (hfix : g'.fixupTable = g.fixupTable)
    (haddr : g'.mainAddr = g.mainAddr) : SourceCode fields ms g' := by
  have hlength := hfields.length h₀
  have hstart : (g₁.methodCall (-5)).2.opCode.length = startLength fields := by
    rw [methodCall_opCode, List.length_append, hlength, startLength, List.length_singleton]
    omega
  obtain ⟨es, hes, hprocs, hclass⟩ := h.symbols
  obtain ⟨calls, hcalls, hbound⟩ := hfields.fixupTable
  obtain ⟨calls', hcalls', hbound'⟩ := h.fixupTable
  rw [hstart] at hprocs hbound'
  have hsame : g'.opCode.length = g.opCode.length := by
    rw [hcode, h.opCode_eq h₀ hfields]
    simp only [startCode, List.length_append, List.length_cons]
  refine ⟨hcode, ⟨g₁.symbolTable, es, hfields.table, hfields.cells, by rw [htable, hes]; rfl, hprocs,
    hclass⟩, hfields.plain, h.names, ?_, fun f hf => ?_⟩
  · rw [haddr, h.mainAddr]
    exact and_iff_right (hfields.mainAddr.mpr h₀.mainAddr)
  have hfixups : g.fixupTable = calls ++ calls' := by
    rw [hcalls']
    show g₁.fixupTable ++ calls' = _
    rw [hcalls, h₀.fixupTable, List.nil_append]
  have hinit : g₀.opCode.length = 1 := by rw [h₀.opCode]; rfl
  have hle : startLength fields ≤ g.opCode.length := by
    rw [h.opCode, List.length_append, hstart]
    exact Nat.le_add_right _ _
  rw [hfix, hfixups] at hf
  rw [hsame]
  rcases List.mem_append.mp hf with hmem | hmem
  · have := hbound f hmem
    unfold startLength at hle ⊢
    omega
  · have := hbound' f hmem
    unfold startLength at this ⊢
    omega

/-- The method `main` is found, with its address. -/
theorem Methods.main_proc (h₀ : Fresh g₀) (hfields : FieldsAdded g₀ fields g₁)
    (h : Methods (g₁.methodCall (-5)).2 ms g) (hmain : g.mainAddr ≠ -50) :
    ∃ cell, g.symbolTable.getSymbol "main" = some cell ∧ cell.proc = mainTarget fields ms := by
  obtain ⟨es, hes, hprocs, hclass⟩ := h.symbols
  have hstart : (g₁.methodCall (-5)).2.opCode.length = startLength fields := by
    rw [methodCall_opCode, List.length_append, hfields.length h₀, startLength, List.length_singleton]
    omega
  rw [hstart] at hprocs
  have haddr : g₁.mainAddr = -50 := hfields.mainAddr.mpr h₀.mainAddr
  obtain ⟨m, hm, hname⟩ : ∃ m ∈ ms, m.name = "main" := by
    by_contra hnone
    exact hmain (h.mainAddr.mpr ⟨haddr, fun m hm hname => hnone ⟨m, hm, hname⟩⟩)
  have hnames : (es.map fun e => e.cell.name) = ms.map fun m => m.name := by
    rw [← procs_names (startLength fields) ms, ← hprocs, List.map_map]
    rfl
  obtain ⟨e, he, hcell⟩ : ∃ e ∈ es, e.cell.name = "main" := by
    have hmem : "main" ∈ es.map fun e => e.cell.name := by
      rw [hnames]
      exact List.mem_map.mpr ⟨m, hm, hname⟩
    exact List.mem_map.mp hmem
  have hlist : g.symbolTable.symList = g₁.symbolTable.symList ++ es := hes
  obtain ⟨e', he', ⟨hmethod, hname'⟩, hlookup⟩ := SymbolTableList.lookup_method
    (l := g.symbolTable.symList)
    ⟨e, by rw [hlist]; exact List.mem_append_right _ he, hclass e he, hcell⟩ none
  refine ⟨e'.cell, by rw [SymbolTableList.getSymbol_eq, hlookup], ?_⟩
  rw [hlist] at he'
  rcases List.mem_append.mp he' with hmem | hmem
  · exact absurd hmethod (hfields.table.classType e' hmem)
  · have hproc : ("main", e'.cell.proc) ∈ procs (startLength fields) ms := by
      rw [← hprocs, ← hname']
      exact List.mem_map_of_mem hmem
    unfold mainTarget
    rw [lookup_eq_of_mem (by rw [procs_names]; exact h.names) hproc]
    rfl

/-- Without a method `main` nothing is put into the jump. -/
theorem Methods.no_main (h : Methods (g₁.methodCall (-5)).2 ms g) (hmain : g.mainAddr = -50) :
    mainTarget fields ms = -5 := by
  unfold mainTarget
  cases hlookup : (procs (startLength fields) ms).lookup "main" with
  | none => rfl
  | some proc =>
    have hmem : "main" ∈ ms.map fun m => m.name := by
      rw [← procs_names (startLength fields) ms]
      obtain ⟨l₁, l₂, hl, -⟩ := List.lookup_eq_some_iff.mp hlookup
      rw [hl]
      simp
    obtain ⟨m, hm, hname⟩ := List.mem_map.mp hmem
    exact absurd hname ((h.mainAddr.mp hmain).2 m hm)

/-- The jump to `main` gets its target. -/
theorem fixMainProc_startCode (fields : List FieldCode) (rest : List OpCodeElement) (target : Int)
    {pos : Nat} (hpos : pos = 1 + (fieldsCode fields).length) :
    (startCode fields (-5) ++ rest).modify pos (fun e => { e with c := target }) =
      startCode fields target ++ rest := by
  have h := modify_middle (.mk3 .bsr 0 0 (-5)) rest (fun e => { e with c := target })
    (.mk3 .addi sp 0 4096 :: fieldsCode fields)
  rw [List.length_cons, Nat.add_comm, ← hpos] at h
  simp only [startCode, List.cons_append, List.append_assoc, List.nil_append] at h ⊢
  exact h

theorem Fresh.no_fields (h : Fresh g) : FieldsAdded g [] g where
  opCode := (List.append_nil _).symm
  table := h.table
  plain := List.forall_mem_nil _
  cells := List.forall_mem_nil _
  mainAddr := Iff.rfl
  fixupTable := ⟨[], (List.append_nil _).symm, List.forall_mem_nil _⟩

end Class

namespace Parser

variable {g₀ g : CodeGenerator} {s : ParserState} {fuel pos : Nat}

/-- The jump to `main`. -/
theorem leads_methodCall : Leads (Between fun g => ∃ g₀ fields, Fresh g₀ ∧ FieldsAdded g₀ fields g)
    (genGet (·.methodCall (-5))) fun pos => Between (AmongMethods pos) where
  goes := by
    refine Guards.of_ok fun s hs => ⟨_, _, rfl, Or.inr ?_⟩
    obtain ⟨⟨⟨hpc, htokens⟩, hlevel, hreturns⟩, g₀, fields, h₀, hfields⟩ := hs
    have hpc' : (s.cg.methodCall (-5)).2.pc = (s.cg.methodCall (-5)).2.opCode.length + 1 := by
      rw [methodCall_opCode, List.length_append]
      exact congrArg (· + 1) hpc
    refine ⟨⟨⟨hpc', htokens⟩, ⟨hlevel.1, hlevel.2⟩, hreturns⟩, g₀, fields, s.cg, [], h₀, hfields, ?_,
      .refl _⟩
    show s.cg.pc + 1 - 2 = _
    omega
  stays := halts fun _ _ => grows_genGet (q := fun _ => True) (Writes.methodCall _) fun _ _ => trivial

theorem stays_methodDeclaration : Maintains Halted Halted (methodDeclaration fuel) fun _ => True :=
  (@leads_methodDeclaration .init fuel []).stays

/-- The methods of a class. -/
theorem leads_methods : Leads (Between (AmongMethods pos))
    (whileLoop (fun s => s.currentToken.type == .tPublic) (fun _ => methodDeclaration fuel) fuel ())
    fun _ => Between (AmongMethods pos) := by
  have hadded : ∀ {s s' : ParserState}, AmongMethods pos s.cg →
      MethodAdded s.cg.symbolTable.symList s.cg s' →
      Between (AmongMethods pos) s' := by
    rintro s s' ⟨g₀, fields, g₁, ms, h₀, hfields, hpos, hmethods⟩ hadd
    obtain ⟨ms', hmethods'⟩ := hmethods.append hadd
    exact ⟨hadd.toQuiet, g₀, fields, g₁, ms', h₀, hfields, hpos, hmethods'⟩
  have hmethod : Leads (Between (AmongMethods pos)) (methodDeclaration fuel) fun _ =>
      Between (AmongMethods pos) := by
    refine ⟨⟨fun {s u s'} hs hrun => ?_, fun {s x s'} hs hrun hx => ?_⟩, stays_methodDeclaration⟩
    · exact (leads_methodDeclaration.goes.ok ⟨hs.1, rfl, rfl⟩ hrun).mono (hadded hs.2)
    · exact leads_methodDeclaration.goes.caught ⟨hs.1, rfl, rfl⟩ hrun hx
  exact leads_whileLoop hmethod fuel

/-- The code generator behind a class. -/
def ClassDone (g : CodeGenerator) : Prop := ∃ fields ms, SourceCode fields ms g

/-- The jump to `main` is fixed. -/
theorem leads_fixMainProc : Leads (Between (AmongMethods pos))
    (do
      if (← get).cg.mainAddr ≠ -50 then
        let main ← deref ((← get).cg.symbolTable.getSymbol "main")
        gen (·.fixMainProc pos main.proc)) fun _ => Between ClassDone where
  goes := by
    refine Guards.of_ok fun s hs => ?_
    obtain ⟨hquiet, g₀, fields, g₁, ms, h₀, hfields, hpos, hmethods⟩ := hs
    by_cases hmain : s.cg.mainAddr = -50
    · refine ⟨(), s, by rw [bind_ok get_run, if_neg (not_not.mpr hmain)]; rfl,
        Or.inr ⟨hquiet, fields, ms, ?_⟩⟩
      refine hmethods.sourceCode h₀ hfields ?_ rfl rfl rfl
      rw [hmethods.no_main hmain, hmethods.opCode_eq h₀ hfields]
    · obtain ⟨cell, hcell, hproc⟩ := hmethods.main_proc h₀ hfields hmain
      have hcode : (s.cg.fixMainProc pos cell.proc).opCode =
          startCode fields (mainTarget fields ms) ++ methodsCode ms := by
        show s.cg.opCode.modify pos _ = _
        rw [hmethods.opCode_eq h₀ hfields, hproc,
          fixMainProc_startCode fields _ _ (hpos.trans (hfields.length h₀))]
      refine ⟨(), { s with cg := s.cg.fixMainProc pos cell.proc }, ?_, Or.inr ⟨?_, fields, ms, ?_⟩⟩
      · rw [bind_ok get_run, if_pos hmain, bind_ok get_run, hcell]
        rfl
      · refine ⟨⟨?_, hquiet.tokens⟩, ⟨hquiet.level.1, hquiet.level.2⟩, hquiet.returns⟩
        show s.cg.pc = (s.cg.opCode.modify pos _).length + 1
        rw [List.length_modify]
        exact hquiet.pc
      · exact hmethods.sourceCode h₀ hfields hcode rfl rfl rfl
  stays := by
    refine Guards.get.seq fun _ => Guards.ite (fun _ => ?_) fun _ => Guards.keep trivial
    refine Guards.get.seq fun _ => (Guards.deref _).seq fun main => ?_
    refine Guards.modify fun s hs => ⟨⟨⟨?_, hs.tokens⟩, hs.stopped⟩, trivial⟩
    show s.cg.pc = (s.cg.opCode.modify pos _).length + 1
    rw [List.length_modify]
    exact hs.pc

/-- The fields of a class. -/
theorem leads_fields : Leads (Between Fresh) (classDeclarations fuel) fun _ =>
    Between fun g => ∃ g₀ fields, Fresh g₀ ∧ FieldsAdded g₀ fields g where
  goes :=
    { ok := fun {s _ _} hs hrun =>
        (leads_classDeclarations.goes.ok ⟨hs.1, [], hs.2.no_fields⟩ hrun).mono
          fun ⟨hquiet, fields, h⟩ => ⟨hquiet, s.cg, fields, hs.2, h⟩
      caught := fun hs hrun hx =>
        leads_classDeclarations.goes.caught ⟨hs.1, [], hs.2.no_fields⟩ hrun hx }
  stays := (@leads_classDeclarations fuel .init).stays

theorem leads_classMembers : Leads (Between Fresh) (classMembers fuel) fun _ => Between ClassDone :=
  leads_fields.bind fun _ => leads_methodCall.bind fun _ => leads_methods.bind fun _ => leads_fixMainProc

/-! ## a file -/

/-- What goes wrong in a block stops the code generation, whatever the handler does. -/
theorem Leads.caught {Q R : ParserState → Prop} {x : P Unit} {handler : String → P Unit}
    (hx : Leads Q x fun _ => R)
    (hhandler : ∀ message, Maintains Halted Halted (handler message) fun _ => True) :
    Leads Q (catchIllegal x handler) fun _ => R where
  goes := guards_catchIllegal hx.goes fun message => (hhandler message).post fun _ _ h => Or.inl h.1
  stays := guards_catchIllegal hx.stays hhandler

theorem halted_report (r : Report) : Maintains Halted Halted (report r) fun _ => True :=
  Guards.modify fun _ hs => ⟨⟨⟨hs.pc, hs.tokens⟩, hs.stopped⟩, trivial⟩

theorem halted_nextToken : Maintains Halted Halted nextToken fun _ => True :=
  halts fun _ _ => grows_nextToken

/-- A class is written once; behind an error nothing counts. -/
theorem leads_classBlock : ∀ fuel : Nat,
    Leads (Between Fresh) (classBlock fuel) fun _ => Between ClassDone
  | 0 => ⟨Guards.throw nofun, Guards.throw nofun⟩
  | fuel + 1 => by
    refine Leads.caught leads_classMembers fun message => (halted_report _).seq fun _ => ?_
    exact (Guards.whileLoop (fun _ _ => halted_nextToken) fuel trivial).seq fun _ =>
      (leads_classBlock fuel).stays

theorem leads_classDeclaration :
    Leads (Between Fresh) (classDeclaration fuel) fun _ => Between ClassDone := by
  refine Leads.caught ?_ fun _ => halted_report _
  refine (leads_expectAt _ .week _).bind fun _ => (leads_expectAt _ .week _).bind fun _ => ?_
  refine (leads_expectAt _ .strong _).bind fun _ => (leads_expectAt _ .week _).bind fun _ => ?_
  refine (leads_classBlock fuel).bind fun _ => ?_
  exact (leads_expectAt _ .week _).bind fun _ => leads_expectAt _ .week _

/-! ## the imports -/

theorem keeps_report (r : Report) : KeepsCode g (report r) := Guards.modify fun _ h => ⟨h, trivial⟩

/-- What an import changes is not known of the code generator. -/
theorem leads_import {Known : CodeGenerator → Prop} {f : CodeGenerator → CodeGenerator}
    (hcode : ∀ g, (f g).opCode = g.opCode) (hpc : ∀ g, (f g).pc = g.pc)
    (hknown : ∀ g, Known g → Known (f g)) :
    Leads (Between Known) (gen f) fun _ => Between Known := by
  have htidy : ∀ {s : ParserState}, Tidy s → Tidy { s with cg := f s.cg } := by
    intro s hs
    refine ⟨?_, hs.tokens⟩
    show (f s.cg).pc = (f s.cg).opCode.length + 1
    rw [hcode, hpc]
    exact hs.pc
  exact Leads.modify
    (fun s hs => Or.inr ⟨⟨htidy hs.1.toTidy, ⟨hs.1.level.1, hs.1.level.2⟩, hs.1.returns⟩,
    hknown _ hs.2⟩) fun s hs => ⟨htidy hs.toTidy, hs.stopped⟩

theorem keeps_importSymbols (moduleName : String) : KeepsCode g (importSymbols moduleName) := by
  unfold importSymbols
  refine Guards.get.seq fun s => ?_
  split
  · exact Guards.keep trivial
  · exact (keeps_report _).seq fun _ => Guards.keep trivial

theorem grows_importSymbols {inside : Bool} {T : SymbolTableList → Prop} {k : Option Nat}
    (moduleName : String) : Grows inside T g k (importSymbols moduleName) fun _ => True := by
  unfold importSymbols
  refine grows_get.seq fun s => ?_
  split
  · exact Guards.keep trivial
  · exact (grows_report _).seq fun _ => Guards.keep trivial

theorem leads_identifier (Known : CodeGenerator → Prop) :
    Leads (Between Known) identifier fun _ => Between Known :=
  leads_kept (fun _ _ _ => grows_identifier) (fun _ => grows_identifier)
    (fun _ => keeps_identifier) Known

theorem leads_packageDeclaration : Leads (Between Fresh) packageDeclaration fun _ => Between Fresh :=
  (leads_expectAt _ .strong _).bind fun _ => (leads_identifier _).bind fun _ => leads_expectAt _ .week _

theorem leads_packageImport : Leads (Between Fresh) packageImport fun _ => Between Fresh := by
  refine (leads_expectAt _ .strong _).bind fun _ => (leads_identifier _).bind fun _ => ?_
  refine Leads.look fun s₀ => Leads.look fun s₁ => ?_
  refine (leads_kept (fun _ _ _ => grows_tokenName _) (fun _ => grows_tokenName _)
    (fun _ => keeps_tokenName _) Fresh).bind fun moduleName => ?_
  have hmodule : ∀ g, Fresh g →
      Fresh { g with symbolTable := g.symbolTable.addModule (packagePath s₀.tokenList) } := by
    intro g hg
    refine ⟨hg.opCode, hg.fixupTable, hg.mainAddr, ?_⟩
    have htable := hg.table
    unfold SymbolTableList.addModule
    split
    · exact htable
    · exact htable
  refine Leads.bind (R := fun _ => Between Fresh) ?_ fun _ => ?_
  · exact leads_import (fun _ => rfl) (fun _ => rfl) hmodule
  refine (leads_expectAt _ .week _).bind fun _ => ?_
  refine (leads_kept (fun _ _ _ => grows_importSymbols _) (fun _ => grows_importSymbols _)
    (fun _ => keeps_importSymbols _) Fresh).bind fun list => ?_
  have htypes : ∀ g, Fresh g → Fresh { g with
      objectTypes := (moduleName, list) :: g.objectTypes.filter (·.1 != moduleName) } :=
    fun g hg => ⟨hg.opCode, hg.fixupTable, hg.mainAddr, hg.table⟩
  exact leads_import (fun _ => rfl) (fun _ => rfl) htypes

theorem leads_program : Leads (Between Fresh) (program fuel) fun _ => Between ClassDone := by
  unfold program
  refine (leads_kept (fun _ _ _ => grows_nextToken) (fun _ => grows_nextToken)
    (fun _ => Guards.of_ok fun s h => ⟨_, _, nextToken_run s, h, trivial⟩) Fresh).bind fun _ => ?_
  have himports : Leads (Between Fresh) (do
      whileLoop (fun s => s.currentToken.type == .tImport)
        (fun _ =>
          catchIllegal packageImport fun message => do
            skipBelow fuel .strongSymCB
            report (.stackTrace message))
        fuel ()
      classDeclaration fuel) fun _ => Between ClassDone :=
    (leads_whileLoop (Leads.caught leads_packageImport fun message =>
      (halts fun _ _ => grows_skipBelow _).seq fun _ => halted_report _) fuel).bind fun _ =>
        leads_classDeclaration
  exact Leads.look fun s => Leads.optional
    (fun _ => Leads.caught leads_packageDeclaration fun _ => halted_report _) (fun _ _ h => h) himports

end Parser

/-- The parser in front of a file. -/
theorem between_init (className : String) (symbolFiles : List (String × SymbolTableList))
    {tokens : List Ident} (htokens : ∀ t ∈ tokens, t.Plain) (lastLine : Nat) :
    Between Fresh (ParserState.init className symbolFiles tokens lastLine) := by
  refine ⟨⟨⟨rfl, ?_⟩, ⟨rfl, rfl⟩, rfl⟩, rfl, rfl, rfl, rfl⟩
  intro t ht
  rcases List.mem_cons.mp ht with rfl | hmem
  · exact fun n hn => by cases hn
  · exact htokens t hmem

/-- A file that is compiled without an error, and the code generator behind it. -/
structure Compiles (src : Source) (g : CodeGenerator) : Prop where
  /-- A number in the source has no sign. -/
  tokens : ∀ t ∈ src.tokens, t.Plain
  run : ∃ fuel s, Parser.program fuel src.init = .ok () s ∧ s.setCodeGeneration = true ∧ s.cg = g

instance (t : Ident) : Decidable t.Plain :=
  match h : t.value with
  | some (.number n) => decidable_of_iff (0 ≤ n)
      ⟨fun hn n' hn' => by
        cases h.symm.trans hn'
        exact hn, fun hplain => hplain n h⟩
  | some (.text _) => isTrue fun n hn => by cases h.symm.trans hn
  | none => isTrue fun n hn => by cases h.symm.trans hn

/-- The compilation ends, and there was no error. -/
def Source.finishes (fuel : Nat) (src : Source) : Bool :=
  match Parser.program fuel src.init with
  | .ok _ s => s.setCodeGeneration
  | .error _ _ => false

/-- The code generator behind a file. -/
def Source.generated (fuel : Nat) (src : Source) : CodeGenerator :=
  (stateAfter (Parser.program fuel src.init)).cg

theorem Source.compiles {src : Source} {fuel : Nat} (htokens : ∀ t ∈ src.tokens, t.Plain)
    (h : src.finishes fuel = true) : Compiles src (src.generated fuel) := by
  unfold finishes at h
  unfold generated
  cases hrun : Parser.program fuel src.init with
  | ok u s =>
    rw [hrun] at h
    exact ⟨htokens, fuel, s, hrun, h, rfl⟩
  | error x s =>
    rw [hrun] at h
    cases h

/--
**The code of a file without errors**: the start of the stack, the fields, the jump to `main`, and the
methods in the order of the file.
-/
theorem program_code {src : Source} {g : CodeGenerator} (h : Compiles src g) :
    ∃ fields ms, SourceCode fields ms g := by
  obtain ⟨htokens, fuel, s, hrun, hflag, rfl⟩ := h
  rcases Parser.leads_program.goes.ok (between_init _ _ htokens _) hrun with hhalted | hdone
  · exact absurd (hflag.symm.trans hhalted.stopped) (by decide)
  · exact hdone.2

/-- The jump at the start of a class goes to `main`. -/
theorem mainTarget_eq {cls : ClassCode} (hnames : (cls.methods.map fun m => m.name).Nodup) :
    mainTarget cls.fields cls.methods = cls.mainStart := by
  have hproc : ("main", (cls.mainStart : Int)) ∈ procs (startLength cls.fields) cls.methods := by
    rw [ClassCode.methods, procs_append, ← cls.main_name]
    refine List.mem_append_right _ (List.mem_cons.mpr (Or.inl (Prod.ext rfl ?_)))
    unfold ClassCode.mainStart ClassCode.declarations startLength
    push_cast
    omega
  rw [mainTarget, lookup_eq_of_mem (by rw [procs_names]; exact hnames) hproc]
  rfl

theorem SourceCode.classCode {cls : ClassCode} {g : CodeGenerator}
    (h : SourceCode cls.fields cls.methods g) : g.opCode = cls.code := by
  rw [h.opCode, mainTarget_eq h.names]
  rfl

/-- A class with a method `main`. -/
theorem SourceCode.toClass {fields : List FieldCode} {ms : List ClassMethod} {g : CodeGenerator}
    (h : SourceCode fields ms g) (hmain : g.mainAddr ≠ -50) :
    ∃ cls : ClassCode, cls.fields = fields ∧ cls.methods = ms ∧ g.opCode = cls.code := by
  obtain ⟨m, hm, hname⟩ : ∃ m ∈ ms, m.name = "main" := by
    by_contra hnone
    exact hmain (h.mainAddr.mpr fun m hm hname => hnone ⟨m, hm, hname⟩)
  obtain ⟨before, after, rfl⟩ := List.append_of_mem hm
  have hnames := h.names
  rw [List.map_append, List.map_cons, List.nodup_append, List.nodup_cons] at hnames
  obtain ⟨-, ⟨hafter, -⟩, hbefore⟩ := hnames
  let cls : ClassCode :=
    { fields := fields, before := before, main := m, after := after, main_name := hname
      others := fun m' hm' heq => by
        rcases List.mem_append.mp hm' with hmem | hmem
        · exact hbefore _ (List.mem_map_of_mem hmem) _ List.mem_cons_self (heq.trans hname.symm)
        · exact hafter (List.mem_map.mpr ⟨m', hmem, heq.trans hname.symm⟩) }
  have hcls : SourceCode cls.fields cls.methods g := h
  exact ⟨cls, rfl, rfl, hcls.classCode⟩

end Compiler
