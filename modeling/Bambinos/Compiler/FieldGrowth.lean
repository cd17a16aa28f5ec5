import Bambinos.Compiler.MethodGrowth

/-!
# What the declarations of a class add

Every declaration appends its code and declares at most one variable. Its value is computed without
a store.

* `Declared` — the symbol table after some declarations
* `FieldAdded`, `FieldsAdded` — what one declaration adds, and what all of them do
* `leads_classDeclarations` — that `classDeclarations` adds it
-/

namespace Compiler

open Infra

/-! ## the symbol table of the fields -/

/-- The symbol table after some declarations. The imports do not matter. -/
def Declared (ds : List Declaration) (t : SymbolTableList) : Prop :=
  SymbolTableList.declareAll ds .empty = some { t with moduleList := [] }

section Table

variable {t t' : SymbolTableList} {d : Declaration} {ds ds' : List Declaration}

theorem getSymbol_congr {t t' : SymbolTableList} (h : t'.symList = t.symList) (name : String) :
    t'.getSymbol name = t.getSymbol name := by
  rw [SymbolTableList.getSymbol_eq, SymbolTableList.getSymbol_eq, h]

/-- The imports are no part of a declaration. -/
theorem declare_moduleList (hs : t.scope = 0) (l : List String) (d : Declaration) :
    ({ t with moduleList := l } : SymbolTableList).declare d =
      (t.declare d).map fun t' => { t' with moduleList := l } := by
  have hget : SymbolTableList.getSymbol { t with moduleList := l, scope := 0 } d.name =
      t.getSymbol d.name := getSymbol_congr rfl _
  unfold SymbolTableList.declare SymbolTableList.declareCell SymbolTableList.addSym
  simp only [if_neg d.classType_ne, hs, hget, true_and, Nat.zero_ne_one, false_and,
    decide_false, Bool.if_false_right, Bool.and_true, if_true, if_false]
  by_cases h : t.symList ≠ [] ∧ t.getSymbol d.name ≠ none
  · simp only [decide_eq_true h, if_true, Option.map_none]
  · simp only [decide_eq_false h, Bool.false_eq_true, if_false, Option.map_some]

theorem declareAll_append : ∀ {ds : List Declaration} {t : SymbolTableList},
    SymbolTableList.declareAll (ds ++ ds') t =
      (SymbolTableList.declareAll ds t).bind (SymbolTableList.declareAll ds')
  | [], _ => rfl
  | d :: ds, t => by
    show (t.declare d).bind _ = ((t.declare d).bind _).bind _
    rw [Option.bind_assoc]
    exact congrArg _ (funext fun _ => declareAll_append)

/-- What the fields leave in the class. -/
theorem declareAll_scope (hs : t.scope = 0) (h : SymbolTableList.declareAll ds t = some t') :
    t'.scope = 0 ∧ ∃ es, t'.symList = t.symList ++ es ∧ ∀ e ∈ es, e.cell.classType ≠ .method := by
  induction ds generalizing t with
  | nil =>
    cases h
    exact ⟨hs, [], (List.append_nil _).symm, nofun⟩
  | cons d ds ih =>
    obtain ⟨t₁, h₁, h₂⟩ := Option.bind_eq_some_iff.mp h
    obtain ⟨-, rfl⟩ := SymbolTableList.declareCell_global hs d.classType_ne h₁
    obtain ⟨hs', es, hlist, hclass⟩ := ih (by exact hs) h₂
    refine ⟨hs', _ :: es, by rw [hlist]; exact List.append_assoc _ _ _, fun e he => ?_⟩
    rcases List.mem_cons.mp he with rfl | hmem
    · exact d.classType_ne
    · exact hclass e hmem

theorem Declared.scope (h : Declared ds t) : t.scope = 0 := (declareAll_scope rfl h).1

/-- Only variables are declared. -/
theorem Declared.classType (h : Declared ds t) : ∀ e ∈ t.symList, e.cell.classType ≠ .method := by
  obtain ⟨-, es, hlist, hclass⟩ := declareAll_scope rfl h
  intro e he
  exact hclass e (by rw [← List.nil_append es]; exact hlist ▸ he)

/-- One more declaration. -/
theorem Declared.append (h : Declared ds t) (hadd : SymbolTableList.declareAll ds' t = some t') :
    Declared (ds ++ ds') t' := by
  induction ds' generalizing ds t with
  | nil =>
    cases hadd
    rwa [List.append_nil]
  | cons d ds' ih =>
    obtain ⟨t₁, h₁, h₂⟩ := Option.bind_eq_some_iff.mp hadd
    have hd : Declared (ds ++ [d]) t₁ := by
      unfold Declared at h ⊢
      rw [declareAll_append, h]
      show (SymbolTableList.declare _ d).bind _ = _
      rw [declare_moduleList (Declared.scope h)]
      rw [h₁]
      rfl
    rw [← List.singleton_append, ← List.append_assoc]
    exact ih hd h₂

/-- The variable that was declared last is found. -/
theorem Declared.getSymbol_new (h : Declared ds t) {type : TypeDesc} {name : String}
    (hadd : t.declare (.scalar type name) = some t') :
    ∃ cell, t'.getSymbol name = some cell ∧ cell.name = name ∧ cell.type = some type ∧
      t'.symList = t.symList ++ [⟨cell, .empty⟩] := by
  have hall : SymbolTableList.declareAll [.scalar type name] t = some t' := by
    show (t.declare _).bind some = _
    rw [hadd]
    rfl
  have h' : Declared (ds ++ [.scalar type name]) t' := h.append hall
  have hclass := h'.classType
  obtain ⟨-, rfl⟩ := SymbolTableList.declareCell_global h.scope (Declaration.classType_ne _) hadd
  refine ⟨_, ?_, rfl, rfl, rfl⟩
  rw [SymbolTableList.getSymbol_eq, SymbolTableList.lookup_vars hclass, SymbolTableList.addEntry,
    List.map_append, List.map_singleton, lastNamed_append,
    if_pos (by exact rfl : SymbolTableCell.name _ = name)]
  rfl

end Table

/-! ## one field -/

/-- Nothing is stored while a value is computed. -/
def FieldCode.Plain : FieldCode → Prop
  | .scalar _ _ value _ => ∀ e ∈ value, e.instruction ≠ .stw
  | .array _ _ _ => True
  | .object argument => ∀ e ∈ argument, e.instruction ≠ .stw

/-- The cell of a scalar is that of the symbol table. -/
def FieldCode.InTable (t : SymbolTableList) : FieldCode → Prop
  | .scalar type cell _ _ => cell.type = some type ∧ ⟨cell, .empty⟩ ∈ t.symList
  | _ => True

/-- What a declaration of a class adds to the code generator `g`. -/
structure FieldAdded (g : CodeGenerator) (field : FieldCode) (g' : CodeGenerator) : Prop where
  opCode : g'.opCode = g.opCode ++ field.code
  table : SymbolTableList.declareAll field.declaration.toList g.symbolTable = some g'.symbolTable
  plain : field.Plain
  cell : field.InTable g'.symbolTable
  mainAddr : g'.mainAddr = -50 ↔ g.mainAddr = -50
  fixupTable : ∃ calls, g'.fixupTable = g.fixupTable ++ calls ∧
    ∀ f ∈ calls, (g.opCode.length : Int) < f.offset ∧ f.offset ≤ g'.opCode.length

/-- The parser is between two members of a class. -/
def Between (Known : CodeGenerator → Prop) (s : ParserState) : Prop := Quiet s ∧ Known s.cg

namespace Parser

variable {α β : Type} {m : P α} {fuel : Nat} {g : CodeGenerator} {s : ParserState}
  {ds : List Declaration}

/-- The parser in a declaration that was begun in `g`. -/
abbrev InField (g : CodeGenerator) : ParserState → Prop :=
  Growing false (· = g.symbolTable) g (some 0)

/-- The parser behind a declaration that was begun in `g`. -/
abbrev AfterField (g : CodeGenerator) : ParserState → Prop :=
  Between fun g' => ∃ field, FieldAdded g field g'

/-- A declaration that declares nothing. -/
theorem InField.added (h : InField g s) : Until (AfterField g) s := by
  rcases h.level with hstopped | hlevel
  · exact Or.inl ⟨h.tidy, hstopped⟩
  · obtain ⟨⟨code, hcode, hstores⟩, -, -, haddr, hcalls⟩ := h.written
    exact Or.inr ⟨h.quiet hlevel, .object code, hcode, by rw [h.table]; rfl, hstores rfl, trivial,
      haddr, hcalls⟩

theorem tokenAt_eq_ok {i : Nat} {t : Ident} {s' : ParserState} (h : tokenAt i s = .ok t s') :
    s' = s ∧ s.tokenList[i]? = some t := by
  obtain ⟨s₁, s₂, hget, helement⟩ := bind_eq_ok h
  cases hget
  obtain ⟨rfl, n, hn, ht⟩ := elementAt_eq_ok helement
  rw [Int.ofNat_inj.mp hn]
  exact ⟨rfl, ht⟩

/-- The name of a token. -/
theorem tokenName_eq_ok {i : Nat} {name : String} {s' : ParserState}
    (h : tokenName i s = .ok name s') :
    s' = s ∧ ∃ t v, s.tokenList[i]? = some t ∧ t.value = some v ∧ name = v.asString := by
  obtain ⟨t, s₁, ht, hrest⟩ := bind_eq_ok h
  obtain ⟨rfl, hget⟩ := tokenAt_eq_ok ht
  cases hv : t.value with
  | none =>
    rw [hv] at hrest
    cases hrest
  | some v =>
    rw [hv] at hrest
    cases hrest
    exact ⟨rfl, t, v, hget, hv, rfl⟩

/-- The end of `primitiveDeclaration`, behind the declaration itself. -/
theorem storeLast_eq_ok {u : Unit} {s' : ParserState}
    (h : (do
      let cell ← deref (← getSymbol (← tokenAt 1).value)
      gen (·.storeWord cell) : P Unit) s = .ok u s') :
    ∃ t cell, s.tokenList[1]? = some t ∧
      (t.value.bind fun v => s.cg.symbolTable.getSymbol v.asString) = some cell ∧
      s' = { s with cg := s.cg.storeWord cell } := by
  obtain ⟨t, s₁, ht, hrest⟩ := bind_eq_ok h
  obtain ⟨rfl, hget⟩ := tokenAt_eq_ok (i := 1) ht
  obtain ⟨x, s₂, hx, hrest⟩ := bind_eq_ok hrest
  cases hx
  cases hcell : t.value.bind fun v => s₁.cg.symbolTable.getSymbol v.asString with
  | none =>
    rw [hcell] at hrest
    cases hrest
  | some cell =>
    rw [hcell] at hrest
    cases hrest
    exact ⟨t, cell, hget, hcell, rfl⟩

theorem storeWord_opCode (g : CodeGenerator) (cell : SymbolTableCell) : (g.storeWord cell).opCode =
    g.opCode ++ [.mk3 .stw g.getCurrentReg (CodeGenerator.address cell).1
      (CodeGenerator.address cell).2] := rfl

/-- A scalar is declared, and its value is stored. -/
theorem InField.stored (h : InField g s) (hds : Declared ds g.symbolTable) {type : TypeDesc}
    {name : String} {t : SymbolTableList} {cell : SymbolTableCell}
    (hadd : g.symbolTable.declare (.scalar type name) = some t) (hcell : t.getSymbol name = some cell) :
    Until (AfterField g)
      { s with cg := ({ s.cg with symbolTable := t } : CodeGenerator).storeWord cell } := by
  have hpc : s.cg.pc + 1 =
      (({ s.cg with symbolTable := t } : CodeGenerator).storeWord cell).opCode.length
      + 1 := by
    rw [storeWord_opCode, List.length_append, h.written.pc]
    rfl
  rcases h.level with hstopped | hlevel
  · exact Or.inl ⟨⟨hpc, h.tokens⟩, hstopped⟩
  · obtain ⟨⟨value, hcode, hstores⟩, -, -, haddr, calls, hcalls, hbound⟩ := h.written
    obtain ⟨cell', hcell', rfl, htype, hlist⟩ := hds.getSymbol_new hadd
    obtain rfl : cell' = cell := Option.some.inj (hcell'.symm.trans hcell)
    refine Or.inr ⟨⟨⟨hpc, h.tokens⟩, ⟨hlevel.1, hlevel.2⟩, (h.quiet hlevel).returns⟩,
      .scalar type cell' value s.cg.getCurrentReg, ?_, ?_, hstores rfl, ⟨htype, ?_⟩, haddr, calls,
      hcalls, fun f hf => ?_⟩
    · rw [storeWord_opCode]
      show s.cg.opCode ++ _ = _
      rw [hcode, List.append_assoc]
      rfl
    · show (g.symbolTable.declare _).bind some = _
      rw [hadd]
      rfl
    · show _ ∈ t.symList
      rw [hlist]
      exact List.mem_append_right _ List.mem_cons_self
    · have := hbound f hf
      rw [storeWord_opCode, List.length_append]
      show _ ∧ _ ≤ ((s.cg.opCode.length + _ : Nat) : Int)
      omega

/-- What is written in a class may be written in a method. -/
theorem InField.open (h : InField g s) : Growing true (fun _ => True) g (some 0) s where
  written := by
    obtain ⟨⟨code, hcode, -⟩, hpc, hfix, haddr, hcalls⟩ := h.written
    exact ⟨⟨code, hcode, nofun⟩, hpc, hfix, haddr, hcalls⟩
  table := trivial
  jumps := h.jumps
  returns i hi := ⟨rfl, (h.returns i hi).2⟩
  tokens := h.tokens
  level := h.level

/-- The end of `primitiveDeclaration` in a class. -/
theorem guards_storeField (hds : Declared ds g.symbolTable) (type : Option TypeDesc) :
    Guards (InField g)
      (do
        let name ← tokenName 1
        add2SymTable name .var type 1
        let cell ← deref (← getSymbol (← tokenAt 1).value)
        gen (·.storeWord cell))
      (fun _ => Until (AfterField g)) Halted where
  -- an error that is caught stops the code generation, whatever has been written
  caught {s x s'} hs hrun hx := by
    have hgrows : Grows true (fun _ => True) g (some 0)
        (do
          let name ← tokenName 1
          add2SymTable name .var type 1
          let cell ← deref (← getSymbol (← tokenAt 1).value)
          gen (·.storeWord cell)) fun _ => True :=
      (grows_tokenName _).seq fun name => (grows_add2SymTable stable_true name (by decide) type 1).seq
        fun _ => (grows_tokenAt _).seq fun _ => (grows_getSymbol _).seq fun _ => (grows_deref _).seq
          fun _ => grows_gen (writes_storeWord _)
    exact (hgrows.caught (InField.open hs) hrun hx).halted
  ok {s u s'} hs hrun := by
    obtain ⟨name, s₁, hname, hrun⟩ := bind_eq_ok hrun
    obtain ⟨rfl, t, v, ht, hv, rfl⟩ := tokenName_eq_ok (i := 1) hname
    cases type with
    | none => cases hrun
    | some type =>
      obtain ⟨u', s₂, hadd, hrun⟩ := bind_eq_ok hrun
      obtain ⟨t', cell, ht', hcell, rfl⟩ := storeLast_eq_ok hrun
      cases htable : s₁.cg.symbolTable.addSym v.asString .var (some type) (int32 (type.getSize * 1))
        true with
      | mk table found =>
        rw [add2SymTable_run _ _ _ _ _ htable] at hadd
        cases found with
        -- the name is already declared: the error is reported and the code generation stopped
        | true =>
          cases hadd
          refine Or.inl ⟨⟨?_, hs.tokens⟩, rfl⟩
          rw [storeWord_opCode, List.length_append]
          exact congrArg (· + 1) hs.written.pc
        -- the cell is the one that has just been added, since both read the same token
        | false =>
          cases hadd
          obtain rfl : t = t' := Option.some.inj (ht.symm.trans ht')
          rw [hv] at hcell
          rw [hs.table] at htable
          have hdeclare : g.symbolTable.declare (.scalar type v.asString) = some table :=
            SymbolTableList.declareCell_of_addSym htable
          exact hs.stored hds hdeclare hcell

/-- A block that writes no code and declares nothing. -/
abbrev KeepsCode (g : CodeGenerator) (m : P α) : Prop :=
  Maintains (fun s => s.cg = g) (fun _ => True) m fun _ => True

theorem keeps_look (f : ParserState → α) : KeepsCode g (do return f (← get)) :=
  Guards.of_ok fun s h => ⟨_, s, rfl, h, trivial⟩

theorem keeps_error (message : String) : KeepsCode g (syntaxError message : P α) :=
  ⟨fun {_ _ _} _ h => (by cases h), fun _ _ _ => trivial⟩

theorem keeps_expectAt (level : ErrorLevel) (id : TokenID) : KeepsCode g (expectAt level id) :=
  maintains_expectAt (fun _ _ hview h => (congrArg Prod.fst hview).trans h)
    (Guards.of_ok fun s h => ⟨_, _, nextToken_run s, h, trivial⟩) (fun _ _ => trivial) level

theorem keeps_parsedInt (v : Option TokenValue) : KeepsCode g (parseInt v) := by
  unfold parseInt
  split
  · exact Guards.ite (fun _ => Guards.keep trivial) fun _ => Guards.throw nofun
  · exact Guards.throw nofun

theorem keeps_tokenName (i : Int) : KeepsCode g (tokenName i) :=
  Guards.get.seq fun _ => (Guards.elementAt _ i).seq fun _ =>
    (Guards.deref _).seq fun _ => Guards.keep trivial

theorem keeps_typeToken {type : Option TypeDesc} (id : TokenID) :
    KeepsCode g (do expect id; return type) :=
  (keeps_expectAt .strong id).seq fun _ => Guards.keep trivial

theorem keeps_primitive : KeepsCode g primitive := by
  unfold primitive
  refine (keeps_look _).seq fun t => ?_
  split
  · exact keeps_typeToken _
  · exact keeps_typeToken _
  · exact keeps_typeToken _
  · exact (keeps_look _).seq fun _ => keeps_error _

theorem keeps_primitiveArray : KeepsCode g primitiveArray := by
  unfold primitiveArray
  refine (keeps_look _).seq fun t => ?_
  split
  · exact keeps_typeToken _
  · exact keeps_typeToken _
  · exact keeps_typeToken _
  · exact (keeps_look _).seq fun _ => keeps_error _

theorem keeps_identifier : KeepsCode g identifier := by
  have hmember : ∀ b : Bool, KeepsCode g (modify fun s => { s with classMember := b } : P PUnit) :=
    fun b => Guards.modify fun s h => ⟨h, trivial⟩
  refine (keeps_expectAt .strong _).seq fun _ => (hmember true).seq fun _ =>
    (keeps_look _).seq fun _ => ?_
  refine Guards.ite (fun _ => ?_) fun _ => Guards.keep trivial
  exact (keeps_expectAt .strong _).seq fun _ => (keeps_expectAt .strong _).seq fun _ => hmember false

/-- The parser in a declaration that has written nothing so far. -/
abbrev InPlain (g : CodeGenerator) (s : ParserState) : Prop := InField g s ∧ s.cg = g

theorem still {q : α → Prop} (h : Grows false (· = g.symbolTable) g (some 0) m q)
    (hkeep : KeepsCode g m) : Maintains (InPlain g) Halted m q :=
  (h.and hkeep).weaken (fun _ h => h) (fun _ _ h => ⟨⟨h.1.1, h.2.1⟩, h.1.2⟩) fun _ h => h.1.halted

/-- A block that writes nothing, between two members. -/
theorem leads_kept {α : Type} {m : P α} {q : α → Prop} (h : ∀ g₀ T k, Grows false T g₀ k m q)
    (hstop : ∀ g₀, Grows true (fun _ => True) g₀ none m q) (hkeep : ∀ g, KeepsCode g m)
    (Known : CodeGenerator → Prop) : Leads (Between Known) m fun _ => Between Known where
  goes :=
    { ok := fun {s _ s'} hs hrun => by
        have hgrowing := ((h s.cg (fun _ => True) (some 0)).ok (hs.1.growing trivial) hrun).1
        have hcg : s'.cg = s.cg := ((hkeep s.cg).ok rfl hrun).1
        rcases hgrowing.until with hhalted | hlevel
        · exact Or.inl hhalted
        · exact Or.inr ⟨hgrowing.quiet hlevel, hcg ▸ hs.2⟩
      caught := fun {s _ _} hs hrun hx =>
        ((h s.cg (fun _ => True) (some 0)).caught (hs.1.growing trivial) hrun hx).halted }
  stays := halts fun g₀ _ => hstop g₀

/-- Between two members a token is expected. -/
theorem leads_expectAt (Known : CodeGenerator → Prop) (level : ErrorLevel) (id : TokenID) :
    Leads (Between Known) (expectAt level id) fun _ => Between Known :=
  leads_kept (fun _ _ _ => grows_expectAt level) (fun _ => grows_expectAt level)
    (fun _ => keeps_expectAt level id) Known

theorem weak {inside : Bool} {T : SymbolTableList → Prop} {k : Option Nat} {q : α → Prop}
    (h : Grows inside T g k m q) : Maintains (Growing inside T g k) Halted m q :=
  h.weaken (fun _ h => h) (fun _ _ h => h) fun _ h => h.halted

/-- A scalar of a class. -/
theorem leads_primitiveDeclaration (hds : Declared ds g.symbolTable) :
    Leads (InField g) (primitiveDeclaration fuel) fun _ => AfterField g where
  goes := by
    unfold primitiveDeclaration
    refine (weak grows_primitive).seq fun type => (weak grows_identifier).seq fun _ =>
      (weak grows_currentType).seq fun _ => ?_
    refine Guards.ite (fun _ => ?_) fun _ => Guards.ite (fun _ => ?_) fun _ => ?_
    · refine (weak grows_assignmentSuffix).seq fun item =>
        (weak (grows_assignedType _)).seq fun itemType => ?_
      refine Guards.ite (fun _ => (weak grows_line).seq fun _ => ?_) fun _ =>
        guards_storeField hds type
      exact Guards.step (q := fun _ => False) (weak (grows_syntaxError _)) fun _ h => h.elim
    · exact (weak (grows_gen (Writes.addI 0))).seq fun _ => guards_storeField hds type
    · exact (weak (grows_leak _)).seq fun _ => guards_storeField hds type
  stays := halts fun g₀ _ => grows_primitiveDeclaration stable_true

/-- The end of `primitiveArrayDeclaration` in a class. -/
theorem guards_addArray (type : Option TypeDesc) {size : Int} (hsize : 0 ≤ size) :
    Guards (InPlain g) (do let name ← tokenName 1; add2SymTable name .array type size)
      (fun _ => Until (AfterField g)) Halted where
  ok {s u s'} hs hrun := by
    obtain ⟨hs, hcg⟩ := hs
    obtain ⟨n, rfl⟩ := Int.eq_ofNat_of_zero_le hsize
    obtain ⟨name, s₁, hname, hadd⟩ := bind_eq_ok hrun
    obtain ⟨rfl, t, v, ht, hv, rfl⟩ := tokenName_eq_ok (i := 1) hname
    cases type with
    | none => cases hadd
    | some type =>
      cases htable : s₁.cg.symbolTable.addSym v.asString .array (some type) (int32 (type.getSize * n))
        true with
      | mk table found =>
        rw [add2SymTable_run _ _ _ _ _ htable] at hadd
        have htidy : Tidy (withTable s₁ table) := ⟨hs.written.pc, hs.tokens⟩
        cases found with
        | true =>
          cases hadd
          exact Or.inl ⟨⟨htidy.pc, htidy.tokens⟩, rfl⟩
        | false =>
          cases hadd
          rcases hs.level with hstopped | hlevel
          · exact Or.inl ⟨htidy, hstopped⟩
          · refine Or.inr ⟨⟨htidy, ⟨hlevel.1, hlevel.2⟩, (hs.quiet hlevel).returns⟩,
              .array type v.asString n, ?_, ?_, trivial, trivial, hs.written.mainAddr,
              hs.written.fixupTable⟩
            · show s₁.cg.opCode = g.opCode ++ []
              rw [hcg, List.append_nil]
            · rw [hcg] at htable
              have hdeclare : g.symbolTable.declare (.array type v.asString n) = some table :=
                SymbolTableList.declareCell_of_addSym htable
              show (g.symbolTable.declare _).bind some = _
              rw [hdeclare]
              rfl
  caught {s x s'} hs hrun hx :=
    have hgrows : Grows true (fun _ => True) g (some 0)
        (do let name ← tokenName 1; add2SymTable name .array type size) fun _ => True :=
      (grows_tokenName _).seq fun name => grows_add2SymTable stable_true name (by decide) type size
    (hgrows.caught (InField.open hs.1) hrun hx).halted

/-- An array of a class. -/
theorem leads_primitiveArrayDeclaration :
    Leads (InPlain g) primitiveArrayDeclaration fun _ => AfterField g where
  goes := by
    have hexpect : ∀ (level : ErrorLevel) (id : TokenID),
        Maintains (InPlain g) Halted (expectAt level id) fun _ => True :=
      fun level id => still (grows_expectAt level) (keeps_expectAt level id)
    unfold primitiveArrayDeclaration
    refine (still grows_primitiveArray keeps_primitiveArray).seq fun type => ?_
    refine (still grows_identifier keeps_identifier).seq fun _ => (hexpect .week _).seq fun _ => ?_
    refine (hexpect .week _).seq fun _ => (still grows_primitive keeps_primitive).seq fun _ => ?_
    refine (hexpect .week _).seq fun _ => Guards.get.step fun s₀ hs₀ => ?_
    refine (still (grows_parseInt _) (keeps_parsedInt _)).step fun size hsize => ?_
    refine (hexpect .strong _).seq fun _ => (hexpect .week _).seq fun _ => ?_
    exact guards_addArray type (hs₀.1.tokens _ List.mem_cons_self size hsize)
  stays := halts fun _ _ => grows_primitiveArrayDeclaration stable_true

/-- A declaration that writes nothing but the code of an expression. -/
theorem leads_plain (h : ∀ inside T g₀ k, Grows inside T g₀ k m fun _ => True) :
    Leads (InPlain g) m fun _ => AfterField g where
  goes := (weak (h _ _ _ _)).weaken (fun _ h => h.1) (fun _ _ h => InField.added h.1) fun _ h => h
  stays := halts fun _ _ => h _ _ _ _

theorem leads_simpleDeclaration (hds : Declared ds g.symbolTable) :
    Leads (InPlain g) (simpleDeclaration fuel) fun _ => AfterField g := by
  unfold simpleDeclaration
  refine Leads.bind (R := fun _ => InPlain g) ?_ fun _ => Leads.look fun s => ?_
  · exact Leads.modify (fun s h => Or.inr ⟨h.1.congr rfl, h.2⟩) fun s h => ⟨⟨h.pc, h.tokens⟩, h.stopped⟩
  have hend := leads_expectAt (fun g' => ∃ field, FieldAdded g field g') .week .tSemicolon
  have hscalar : Leads (InPlain g) (primitiveDeclaration fuel) fun _ => AfterField g :=
    (leads_primitiveDeclaration hds).mono (fun _ h => h.1) fun _ _ h => h
  refine Leads.ite (fun _ => hscalar.bind fun _ => hend) fun _ =>
    Leads.ite (fun _ => leads_primitiveArrayDeclaration.bind fun _ => hend) fun _ =>
    Leads.ite (fun _ => (leads_plain fun _ _ _ _ => grows_stringDeclaration).bind fun _ => hend)
      fun _ => ?_
  exact Leads.ite (fun _ => (leads_plain fun _ _ _ _ => grows_stringArrayDeclaration).bind fun _ => hend)
    fun _ => leads_plain fun _ _ _ _ => grows_expectWeak _

theorem leads_objectDeclaration : Leads (InPlain g) (objectDeclaration fuel) fun _ => AfterField g :=
  leads_plain fun _ _ _ _ => (grows_expect _).seq fun _ => grows_objectDeclarationSuffix.seq fun _ =>
    grows_expectWeak _

end Parser

/-! ## all fields -/

/-- What the declarations of a class have added to `g₀`. -/
structure FieldsAdded (g₀ : CodeGenerator) (fields : List FieldCode) (g : CodeGenerator) : Prop where
  opCode : g.opCode = g₀.opCode ++ fieldsCode fields
  table : Declared (fields.filterMap FieldCode.declaration) g.symbolTable
  plain : ∀ field ∈ fields, field.Plain
  cells : ∀ field ∈ fields, field.InTable g.symbolTable
  mainAddr : g.mainAddr = -50 ↔ g₀.mainAddr = -50
  fixupTable : ∃ calls, g.fixupTable = g₀.fixupTable ++ calls ∧
    ∀ f ∈ calls, (g₀.opCode.length : Int) < f.offset ∧ f.offset ≤ g.opCode.length

section FieldsAdded

variable {g₀ g g' : CodeGenerator} {fields : List FieldCode} {field : FieldCode}
  {t t' : SymbolTableList} {ds : List Declaration}

/-- A cell of the table stays there. -/
theorem FieldCode.InTable.mono (h : field.InTable t) (hsub : ∀ e ∈ t.symList, e ∈ t'.symList) :
    field.InTable t' := by
  cases field with
  | scalar _ _ _ _ => exact ⟨h.1, hsub _ h.2⟩
  | array _ _ _ => trivial
  | object _ => trivial

theorem FieldsAdded.append (h : FieldsAdded g₀ fields g) (h' : FieldAdded g field g') :
    FieldsAdded g₀ (fields ++ [field]) g' := by
  obtain ⟨calls, hcalls, hbound⟩ := h.fixupTable
  obtain ⟨calls', hcalls', hbound'⟩ := h'.fixupTable
  have hlow := congrArg List.length h.opCode
  have hhigh := congrArg List.length h'.opCode
  rw [List.length_append] at hlow hhigh
  obtain ⟨-, es, hlist, -⟩ := declareAll_scope h.table.scope h'.table
  refine ⟨?_, ?_, fun f hf => ?_, fun f hf => ?_, h'.mainAddr.trans h.mainAddr, calls ++ calls', ?_,
    fun f hf => ?_⟩
  · rw [h'.opCode, h.opCode, fieldsCode_append, List.append_assoc]
    exact congrArg _ (congrArg _ (List.append_nil _).symm)
  · rw [List.filterMap_append]
    have hfield : [field].filterMap FieldCode.declaration = field.declaration.toList := by
      cases field <;> rfl
    rw [hfield]
    exact h.table.append h'.table
  · rcases List.mem_append.mp hf with hmem | hmem
    · exact h.plain f hmem
    · rw [List.mem_singleton.mp hmem]
      exact h'.plain
  · rcases List.mem_append.mp hf with hmem | hmem
    · exact (h.cells f hmem).mono fun e he => by
        rw [hlist]
        exact List.mem_append_left _ he
    · rw [List.mem_singleton.mp hmem]
      exact h'.cell
  · rw [hcalls', hcalls, List.append_assoc]
  · rcases List.mem_append.mp hf with hmem | hmem
    · have := hbound f hmem
      omega
    · have := hbound' f hmem
      omega

end FieldsAdded

namespace Parser

variable {α : Type} {m : P α} {fuel : Nat} {g₀ g : CodeGenerator} {Now Then : CodeGenerator → Prop}

/-- A declaration that begins in some state between two members. -/
theorem leads_between (h : ∀ g, Now g → Leads (InPlain g) m fun _ => Between Then)
    (hstop : Maintains Halted Halted m fun _ => True) :
    Leads (Between Now) m fun _ => Between Then where
  goes :=
    { ok := fun hs hrun => (h _ hs.2).goes.ok ⟨hs.1.growing rfl, rfl⟩ hrun
      caught := fun hs hrun hx => (h _ hs.2).goes.caught ⟨hs.1.growing rfl, rfl⟩ hrun hx }
  stays := hstop

/-- A loop. -/
theorem leads_whileLoop {Q : ParserState → Prop} {cond : ParserState → Bool} {body : Unit → P Unit}
    (hbody : Leads Q (body ()) fun _ => Q) : ∀ fuel : Nat,
    Leads Q (whileLoop cond body fuel ()) fun _ => Q
  | 0 => ⟨Guards.throw nofun, Guards.throw nofun⟩
  | fuel + 1 => by
    unfold Infra.whileLoop
    refine Leads.look fun s => Leads.ite (fun _ => ?_) fun _ => ?_
    · exact hbody.bind fun _ => leads_whileLoop hbody fuel
    · exact ⟨Guards.pure fun s hs => Or.inr hs, Guards.keep trivial⟩

/-- The declarations of a class. -/
theorem leads_classDeclarations :
    Leads (Between fun g => ∃ fields, FieldsAdded g₀ fields g) (classDeclarations fuel) fun _ =>
      Between fun g => ∃ fields, FieldsAdded g₀ fields g := by
  have hadded : ∀ {g : CodeGenerator}, (∃ fields, FieldsAdded g₀ fields g) → ∀ s, AfterField g s →
      Between (fun g => ∃ fields, FieldsAdded g₀ fields g) s := by
    rintro g ⟨fields, hfields⟩ s ⟨hquiet, field, hfield⟩
    exact ⟨hquiet, _, hfields.append hfield⟩
  refine leads_whileLoop (Leads.look fun s => ?_) fuel
  have hsimple : Leads (Between fun g => ∃ fields, FieldsAdded g₀ fields g) (do
      if (← currentType).startSetSimpleDeclaration then simpleDeclaration fuel) fun _ =>
      Between fun g => ∃ fields, FieldsAdded g₀ fields g := by
    refine Leads.look fun s => Leads.ite (fun _ => ?_) fun _ =>
      ⟨Guards.pure fun s hs => Or.inr hs, Guards.keep trivial⟩
    refine leads_between (fun g hg => ?_) (halts fun _ _ => grows_simpleDeclaration stable_true)
    exact (leads_simpleDeclaration hg.choose_spec.table).mono (fun _ h => h) fun _ => hadded hg
  refine Leads.optional (fun _ => ?_) (fun _ _ h => h) hsimple
  refine leads_between (fun g hg => ?_) (@leads_objectDeclaration fuel g₀).stays
  exact leads_objectDeclaration.mono (fun _ h => h) fun _ => hadded hg

end Parser

end Compiler
