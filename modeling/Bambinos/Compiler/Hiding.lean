import Bambinos.Compiler.Declarations

/-!
# Local hiding

What a sequence of declarations is to do, and what `addSym` and `getSymbol` make of it.

* `Scopes` — the names of the class and those of the current method
* `Agrees` — every declaration is refused when it is to be, and every name leads to what it is to
* `Clear` — no variable of a method has the name of a method, and nothing follows a method that is
  refused
* `agrees_iff` — these are the sequences that are treated properly
-/

namespace Compiler

open Infra

/-! ## the property -/

/-- What is declared; it is always declared as global, as the comment on `addSym` says. -/
structure Symbol where
  name : String
  classType : ClassType
  type : Option TypeDesc
  size : Int
deriving DecidableEq, Repr

def SymbolTableCell.symbol (c : SymbolTableCell) : Symbol := ⟨c.name, c.classType, c.type, c.size⟩

@[simp] theorem symbol_name (c : SymbolTableCell) : c.symbol.name = c.name := rfl

@[simp] theorem symbol_classType (c : SymbolTableCell) : c.symbol.classType = c.classType := rfl

/-- A call of `addSym`. -/
def SymbolTableList.addSymbol (t : SymbolTableList) (d : Symbol) : SymbolTableList × Bool :=
  t.addSym d.name d.classType d.type d.size true

/-- What `getSymbol` finds, and whether it belongs to the class. -/
def SymbolTableList.found (t : SymbolTableList) (name : String) : Option (Symbol × Bool) :=
  (t.getSymbol name).map fun c => (c.symbol, c.globalScope)

/-- The symbol of a name. -/
def named (name : String) (l : List Symbol) : Option Symbol := l.find? fun d => d.name == name

/-- The name is declared in a scope. -/
def Known (name : String) (l : List Symbol) : Prop := ∃ d ∈ l, d.name = name

instance (name : String) (l : List Symbol) : Decidable (Known name l) :=
  inferInstanceAs (Decidable (∃ d ∈ l, d.name = name))

/-- The scope of the class and that of the current method, if there is one. -/
structure Scopes where
  outer : List Symbol
  inner : Option (List Symbol)
deriving DecidableEq, Repr

namespace Scopes

def empty : Scopes := ⟨[], none⟩

/-- A method goes to the class and opens a scope of its own, a variable goes to the current method.
The result tells whether the name was declared in that scope already. -/
def declare (s : Scopes) (d : Symbol) : Scopes × Bool :=
  if d.classType = .method then
    if Known d.name s.outer then (s, true) else (⟨s.outer ++ [d], some []⟩, false)
  else
    match s.inner with
    | none => if Known d.name s.outer then (s, true) else (⟨s.outer ++ [d], none⟩, false)
    | some l => if Known d.name l then (s, true) else (⟨s.outer, some (l ++ [d])⟩, false)

/-- The variables of the current method hide the symbols of the class. -/
def lookup (s : Scopes) (name : String) : Option (Symbol × Bool) :=
  ((named name (s.inner.getD [])).map fun d => (d, false)).or
    ((named name s.outer).map fun d => (d, true))

/-- What a declaration must not do; `refused` tells that the last method was not added. -/
def Clear (s : Scopes) (refused : Bool) (d : Symbol) : Prop :=
  match s.inner with
  | none => True
  | some l =>
    if d.classType = .method then ¬ Known d.name l ∨ Known d.name s.outer
    else Known d.name l ∨
      refused = false ∧ ¬ Known d.name (s.outer.filter fun m => m.classType = .method)

/-- Whether the last method was not added, behind a declaration. -/
def refusedBy (s : Scopes) (refused : Bool) (d : Symbol) : Bool :=
  if d.classType = .method then (s.declare d).2 else refused

end Scopes

/-- In a sequence of declarations, each one is refused when it is to be, and behind it every name
leads to what it is to. -/
def Agrees : List Symbol → SymbolTableList → Scopes → Prop
  | [], _, _ => True
  | d :: ds, t, s =>
    ((t.addSymbol d).2 = (s.declare d).2 ∧
      ∀ name, (t.addSymbol d).1.found name = (s.declare d).1.lookup name) ∧
    Agrees ds (t.addSymbol d).1 (s.declare d).1

/-- Every declaration of the sequence is clear. -/
def Clear : List Symbol → Scopes → Bool → Prop
  | [], _, _ => True
  | d :: ds, s, refused =>
    s.Clear refused d ∧ Clear ds (s.declare d).1 (s.refusedBy refused d)

/-! ## names -/

section Names

variable {name : String} {l : List Symbol} {cells : List SymbolTableCell} {d : Symbol}

theorem named_eq_none : named name l = none ↔ ¬ Known name l := by
  simp [named, Known]

theorem named_of_mem (hnd : (l.map Symbol.name).Nodup) (hd : d ∈ l) : named d.name l = some d := by
  cases h : named d.name l with
  | none => exact absurd ⟨d, hd, rfl⟩ (named_eq_none.mp h)
  | some d' =>
    have hmem : d' ∈ l := List.mem_of_find?_eq_some h
    have hname : d'.name = d.name := by simpa using List.find?_some h
    rw [List.inj_on_of_nodup_map hnd hmem hd hname]

theorem known_map : Known name (cells.map SymbolTableCell.symbol) ↔ ∃ c ∈ cells, c.name = name := by
  simp [Known]

/-- Among different names, the last cell of a name is the only one. -/
theorem lastNamed_symbol (hnd : ((cells.map SymbolTableCell.symbol).map Symbol.name).Nodup) :
    (lastNamed name cells).map SymbolTableCell.symbol =
      named name (cells.map SymbolTableCell.symbol) := by
  cases h : lastNamed name cells with
  | none =>
    have hno : ¬ Known name (cells.map SymbolTableCell.symbol) := by
      rw [known_map]
      rintro ⟨c, hc, hname⟩
      exact lastNamed_eq_none.mp h c hc hname
    rw [named_eq_none.mpr hno]
    rfl
  | some c =>
    have hc : c ∈ cells := List.mem_reverse.mp (List.mem_of_find?_eq_some h)
    have hname : c.name = name := by simpa using List.find?_some h
    have hmem := named_of_mem hnd (List.mem_map_of_mem hc)
    rw [← hname]
    exact hmem.symm

theorem nodup_append_new (hnd : (l.map Symbol.name).Nodup) (hnew : ¬ Known d.name l) :
    ((l ++ [d]).map Symbol.name).Nodup := by
  rw [List.map_append]
  refine SymbolTableList.nodup_append_singleton hnd ?_
  intro b hb hname
  obtain ⟨d', hd', rfl⟩ := List.mem_map.mp hb
  exact hnew ⟨d', hd', hname⟩

/-- What is found in one scope. -/
theorem lastNamed_found {g : Bool} (hg : ∀ c ∈ cells, c.globalScope = g)
    (hnd : ((cells.map SymbolTableCell.symbol).map Symbol.name).Nodup) :
    ((lastNamed name cells).map fun c => (c.symbol, c.globalScope)) =
      (named name (cells.map SymbolTableCell.symbol)).map fun d => (d, g) := by
  rw [← lastNamed_symbol hnd]
  cases h : lastNamed name cells with
  | none => rfl
  | some c =>
    have hc : c ∈ cells := List.mem_reverse.mp (List.mem_of_find?_eq_some h)
    rw [Option.map_some, Option.map_some, Option.map_some, hg c hc]

end Names

/-! ## the table and the scopes -/

/-- The cells of the class. -/
def SymbolTableList.classCells (t : SymbolTableList) : List SymbolTableCell :=
  t.symList.map SymbolEntry.cell

/-- The last entry is the current method, with the symbols `l`. -/
structure Current (t : SymbolTableList) (l : List Symbol) (refused : Bool)
    (pre : List SymbolEntry) (e : SymbolEntry) : Prop where
  list : t.symList = pre ++ [e]
  method : e.cell.classType = .method
  symbols : e.methodSymbols.symList.map SymbolTableCell.symbol = l
  locals : ∀ c ∈ e.methodSymbols.symList, c.globalScope = false
  nodup : (l.map Symbol.name).Nodup
  scope : t.scope = if refused then 0 else 1
  /-- No symbol of the method has the name of a method. -/
  apart : ∀ d ∈ l, ¬ t.Hidden d.name

/-- The method that the table is in. -/
def Inside (t : SymbolTableList) (refused : Bool) : Option (List Symbol) → Prop
  | none => t.scope = 0 ∧ ∀ e ∈ t.symList, e.cell.classType ≠ .method
  | some l => ∃ pre e, Current t l refused pre e

/-- The table contains the two scopes. -/
structure Matches (t : SymbolTableList) (s : Scopes) (refused : Bool) : Prop where
  outer : t.classCells.map SymbolTableCell.symbol = s.outer
  global : t.ClassGlobal
  nodup : (s.outer.map Symbol.name).Nodup
  inner : Inside t refused s.inner

section Found

variable {t : SymbolTableList} {s : Scopes} {refused : Bool} {name : String}

theorem SymbolTableList.ClassGlobal.cells (h : t.ClassGlobal) : ∀ c ∈ t.classCells, c.globalScope = true := by
  intro c hc
  obtain ⟨e, he, rfl⟩ := List.mem_map.mp hc
  exact h e he

theorem hidden_iff (h : Matches t s refused) :
    t.Hidden name ↔ Known name (s.outer.filter fun m => m.classType = .method) := by
  rw [← h.outer]
  constructor
  · rintro ⟨e, he, hmethod, hname⟩
    refine ⟨e.cell.symbol, List.mem_filter.mpr ⟨?_, decide_eq_true hmethod⟩, hname⟩
    exact List.mem_map_of_mem (List.mem_map_of_mem he)
  · rintro ⟨d, hd, hname⟩
    obtain ⟨hd, hmethod⟩ := List.mem_filter.mp hd
    obtain ⟨c, hc, rfl⟩ := List.mem_map.mp hd
    obtain ⟨e, he, rfl⟩ := List.mem_map.mp hc
    exact ⟨e, he, of_decide_eq_true hmethod, hname⟩

/-- **Looking up**: every name leads to what it is to. -/
theorem found_eq (h : Matches t s refused) (name : String) : t.found name = s.lookup name := by
  have hnd := h.nodup
  rw [← h.outer] at hnd
  have hclass := @lastNamed_found name t.classCells true h.global.cells hnd
  unfold SymbolTableList.found Scopes.lookup
  rw [SymbolTableList.getSymbol_eq, ← h.outer]
  have hinner := h.inner
  cases hs : s.inner with
  | none =>
    rw [hs] at hinner
    rw [SymbolTableList.lookup_vars hinner.2, Option.or_none]
    exact hclass
  | some l =>
    rw [hs] at hinner
    obtain ⟨pre, e, hc⟩ := hinner
    have hlocal := @lastNamed_found name e.methodSymbols.symList false hc.locals
      (hc.symbols ▸ hc.nodup)
    rw [Option.getD_some, ← hc.symbols]
    by_cases hhidden : t.Hidden name
    · obtain ⟨e', he', ⟨-, hname⟩, hres⟩ := SymbolTableList.lookup_method hhidden none
      have hno : ¬ Known name l := by
        rintro ⟨d, hd, rfl⟩
        exact hc.apart d hd hhidden
      have hmem : e'.cell.symbol ∈ t.classCells.map SymbolTableCell.symbol :=
        List.mem_map_of_mem (List.mem_map_of_mem he')
      have hfound := named_of_mem hnd hmem
      rw [show e'.cell.symbol.name = name from hname] at hfound
      rw [hres, hc.symbols, named_eq_none.mpr hno, hfound]
      simp [h.global e' he']
    · have hno : ∀ e' ∈ pre ++ [e], e'.cell.classType = .method → e'.cell.name ≠ name := by
        intro e' he' hmethod hname
        exact hhidden ⟨e', by rw [hc.list]; exact he', hmethod, hname⟩
      rw [← hlocal, ← hclass, hc.list]
      cases hget : e.methodSymbols.getSymbol name with
      | some c =>
        rw [SymbolTableList.lookup_inner hc.method hget hno]
        rw [MethodSymbols.getSymbol_eq] at hget
        rw [hget]
        rfl
      | none =>
        rw [SymbolTableList.lookup_outer hc.method hget hno, Option.or_none]
        rw [MethodSymbols.getSymbol_eq] at hget
        have hcells : t.classCells = pre.map SymbolEntry.cell ++ [e.cell] := by
          simp [SymbolTableList.classCells, hc.list]
        rw [hget, hcells, lastNamed_append, if_neg (hno e (by simp) hc.method)]
        rfl

theorem getSymbol_eq_none_iff (h : Matches t s refused) : t.getSymbol name = none ↔
    ¬ Known name (s.inner.getD []) ∧ ¬ Known name s.outer := by
  have hfound := found_eq h name
  have hnone : t.found name = none ↔ t.getSymbol name = none := Option.map_eq_none_iff
  rw [← hnone, hfound, Scopes.lookup, Option.or_eq_none_iff, Option.map_eq_none_iff,
    Option.map_eq_none_iff, named_eq_none, named_eq_none]

end Found

/-! ## one declaration -/

section Step

variable {t : SymbolTableList} {s : Scopes} {refused : Bool} {d : Symbol} {l : List Symbol}
  {pre : List SymbolEntry} {e : SymbolEntry}

/-- The cell of a declaration. -/
def Symbol.cell (d : Symbol) (offset : Int) (globalScope : Bool) : SymbolTableCell :=
  ⟨d.name, d.classType, d.type, 0, offset, d.size, globalScope⟩

/-- The table with another symbol of the class. -/
def SymbolTableList.addOuter (t : SymbolTableList) (d : Symbol) : SymbolTableList :=
  { t with
    offset := int32 (t.offset - d.size)
    symList := t.symList ++ [⟨d.cell (int32 (t.offset - d.size)) true, .empty⟩]
    scope := if d.classType = .method then 1 else 0 }

/-- A declaration in the scope of the class. -/
theorem addSymbol_outer (h : d.classType = .method ∨ t.scope = 0) : t.addSymbol d =
    if t.getSymbol d.name = none then (t.addOuter d, false) else ({ t with scope := 0 }, true) := by
  have ht : (if d.classType = .method then { t with scope := 0 } else t) =
      ({ t with scope := 0 } : SymbolTableList) := by
    rcases h with h | h
    · rw [if_pos h]
    · split
      · rfl
      · rw [← h]
  have hget : ({ t with scope := 0 } : SymbolTableList).getSymbol d.name = t.getSymbol d.name := by
    rw [SymbolTableList.getSymbol_eq, SymbolTableList.getSymbol_eq]
  unfold SymbolTableList.addSymbol SymbolTableList.addSym
  rw [ht]
  simp only [hget, true_and, Nat.zero_ne_one, false_and, decide_false, if_true, if_false]
  by_cases hnone : t.getSymbol d.name = none
  · simp only [hnone, ne_eq, not_true_eq_false, and_false, if_false, if_true]
    rw [if_neg Bool.false_ne_true]
    unfold SymbolTableList.addOuter
    split <;> rfl
  · have hne : t.symList ≠ [] := by
      intro hnil
      rw [SymbolTableList.getSymbol_eq, hnil] at hnone
      exact hnone rfl
    simp [hnone, hne]

/-- A declaration in the scope of the current method. -/
theorem addSymbol_inner (hc : d.classType ≠ .method) (hs : t.scope = 1)
    (hl : t.symList = pre ++ [e]) : t.addSymbol d =
    if e.methodSymbols.getSymbol d.name = none then
      ({ t with symList := pre ++ [{ e with methodSymbols :=
        { symList := e.methodSymbols.symList ++
            [d.cell (int32 (e.methodSymbols.offset - d.size)) false]
          offset := int32 (e.methodSymbols.offset - d.size) } }] }, false)
    else (t, true) := by
  have hlast : t.lastMethodSymbols = some e.methodSymbols := by
    simp [SymbolTableList.lastMethodSymbols, hl]
  unfold SymbolTableList.addSymbol SymbolTableList.addSym
  simp only [if_neg hc, hs, true_and, Nat.one_ne_zero, false_and, hlast, Option.bind_some,
    if_false, if_true]
  by_cases hnone : e.methodSymbols.getSymbol d.name = none
  · simp only [hnone, ne_eq, not_true_eq_false, decide_false, if_true]
    rw [if_neg Bool.false_ne_true]
    unfold SymbolTableList.modifyLast
    rw [hl, List.length_append, List.length_singleton, Nat.add_sub_cancel, modify_middle]
    simp [MethodSymbols.addSym, hnone, Symbol.cell, hs]
  · simp [hnone]

/-- A new symbol of the class. -/
theorem Matches.addOuter (h : Matches t s refused) (hnew : ¬ Known d.name s.outer)
    {inner : Option (List Symbol)} {refused' : Bool}
    (hinner : Inside (t.addOuter d) refused' inner) :
    Matches (t.addOuter d) ⟨s.outer ++ [d], inner⟩ refused' where
  outer := by
    rw [← h.outer]
    simp [SymbolTableList.classCells, SymbolTableList.addOuter, Symbol.cell, SymbolTableCell.symbol]
  global := by
    intro e he
    rcases List.mem_append.mp he with he | he
    · exact h.global e he
    · rw [List.mem_singleton.mp he]
      rfl
  nodup := nodup_append_new h.nodup hnew
  inner := hinner

/-- A refused declaration leaves the table as it is, but for the scope. -/
theorem Matches.refuse (h : Matches t s refused) (hs : s.inner ≠ none) (refused' : Bool) :
    Matches { t with scope := if refused' then 0 else 1 } s refused' where
  outer := h.outer
  global := h.global
  nodup := h.nodup
  inner := by
    have hinner := h.inner
    cases hl : s.inner with
    | none => exact absurd hl hs
    | some l =>
      rw [hl] at hinner
      obtain ⟨pre, e, hc⟩ := hinner
      exact ⟨pre, e, hc.list, hc.method, hc.symbols, hc.locals, hc.nodup, rfl, hc.apart⟩

theorem clear_method (hs : s.inner = some l) (hm : d.classType = .method) :
    s.Clear refused d ↔ ¬ Known d.name l ∨ Known d.name s.outer := by
  unfold Scopes.Clear
  rw [hs]
  dsimp only
  rw [if_pos hm]

theorem clear_variable (hs : s.inner = some l) (hm : d.classType ≠ .method) :
    s.Clear refused d ↔ Known d.name l ∨
      refused = false ∧ ¬ Known d.name (s.outer.filter fun m => m.classType = .method) := by
  unfold Scopes.Clear
  rw [hs]
  dsimp only
  rw [if_neg hm]

/-- **A method** that is clear. -/
theorem method_step (h : Matches t s refused) (hm : d.classType = .method)
    (hclear : s.Clear refused d) : (t.addSymbol d).2 = (s.declare d).2 ∧
      Matches (t.addSymbol d).1 (s.declare d).1 (s.declare d).2 := by
  have hget : t.getSymbol d.name = none ↔ ¬ Known d.name s.outer := by
    rw [getSymbol_eq_none_iff h, and_iff_right_iff_imp]
    intro hno
    cases hs : s.inner with
    | none => simp [Known]
    | some l => exact ((clear_method hs hm).mp hclear).resolve_right hno
  rw [addSymbol_outer (.inl hm), Scopes.declare, if_pos hm]
  by_cases hknown : Known d.name s.outer
  · rw [if_pos hknown, if_neg fun hno => hget.mp hno hknown]
    refine ⟨rfl, ?_⟩
    by_cases hs : s.inner = none
    · have hinner := h.inner
      rw [hs] at hinner
      exact ⟨h.outer, h.global, h.nodup, by rw [hs]; exact ⟨rfl, hinner.2⟩⟩
    · exact h.refuse hs true
  · rw [if_neg hknown, if_pos (hget.mpr hknown)]
    refine ⟨rfl, h.addOuter hknown ⟨t.symList, _, rfl, hm, rfl, ?_, List.nodup_nil, ?_, ?_⟩⟩
    · exact fun c hc => absurd hc List.not_mem_nil
    · exact if_pos hm
    · exact fun d' hd' => absurd hd' List.not_mem_nil

/-- **A variable of the class.** -/
theorem outer_step (h : Matches t s refused) (hm : d.classType ≠ .method) (hs : s.inner = none) :
    (t.addSymbol d).2 = (s.declare d).2 ∧ Matches (t.addSymbol d).1 (s.declare d).1 refused := by
  have hinner := h.inner
  rw [hs] at hinner
  have hget : t.getSymbol d.name = none ↔ ¬ Known d.name s.outer := by
    rw [getSymbol_eq_none_iff h, hs]
    simp [Known]
  rw [addSymbol_outer (.inr hinner.1), Scopes.declare, if_neg hm, hs]
  dsimp only
  by_cases hknown : Known d.name s.outer
  · rw [if_pos hknown, if_neg fun hno => hget.mp hno hknown]
    exact ⟨rfl, h.outer, h.global, h.nodup, by rw [hs]; exact ⟨rfl, hinner.2⟩⟩
  · rw [if_neg hknown, if_pos (hget.mpr hknown)]
    refine ⟨rfl, h.addOuter hknown ⟨if_neg hm, ?_⟩⟩
    intro e he
    rcases List.mem_append.mp he with he | he
    · exact hinner.2 e he
    · rw [List.mem_singleton.mp he]
      exact hm

/-- The symbols of the current method. -/
theorem Current.getSymbol_eq_none (hc : Current t l refused pre e) (name : String) :
    e.methodSymbols.getSymbol name = none ↔ ¬ Known name l := by
  rw [MethodSymbols.getSymbol_eq, lastNamed_eq_none, ← hc.symbols, known_map]
  simp

/-- **A variable of the current method** that is clear. -/
theorem inner_step (h : Matches t s refused) (hm : d.classType ≠ .method) (hs : s.inner = some l)
    (hclear : s.Clear refused d) :
    (t.addSymbol d).2 = (s.declare d).2 ∧ Matches (t.addSymbol d).1 (s.declare d).1 refused := by
  have hinner := h.inner
  rw [hs] at hinner
  obtain ⟨pre, e, hc⟩ := hinner
  have hnone := hc.getSymbol_eq_none d.name
  rw [Scopes.declare, if_neg hm, hs]
  dsimp only
  by_cases hknown : Known d.name l
  · rw [if_pos hknown]
    cases refused with
    | true =>
      have hget : t.getSymbol d.name ≠ none := by
        rw [Ne, getSymbol_eq_none_iff h, hs]
        exact fun hno => hno.1 hknown
      rw [addSymbol_outer (.inr hc.scope), if_neg hget]
      exact ⟨rfl, h.refuse (by rw [hs]; exact Option.some_ne_none l) true⟩
    | false =>
      rw [addSymbol_inner hm hc.scope hc.list, if_neg fun hno => hnone.mp hno hknown]
      exact ⟨rfl, h⟩
  · obtain ⟨rfl, hno⟩ := ((clear_variable hs hm).mp hclear).resolve_left hknown
    rw [if_neg hknown, addSymbol_inner hm hc.scope hc.list, if_pos (hnone.mpr hknown)]
    rw [← hidden_iff h] at hno
    refine ⟨rfl, ?_, ?_, h.nodup, pre, _, rfl, hc.method, ?_, ?_, nodup_append_new hc.nodup hknown,
      hc.scope, ?_⟩
    · rw [← h.outer]
      simp [SymbolTableList.classCells, hc.list]
    · intro e' he'
      rcases List.mem_append.mp he' with he' | he'
      · exact h.global e' (by rw [hc.list]; exact List.mem_append_left _ he')
      · rw [List.mem_singleton.mp he']
        exact h.global e (by simp [hc.list])
    · simp [hc.symbols, Symbol.cell, SymbolTableCell.symbol]
    · intro c hmem
      rcases List.mem_append.mp hmem with hmem | hmem
      · exact hc.locals c hmem
      · rw [List.mem_singleton.mp hmem]
        rfl
    · -- the cells of the class are the same
      have hsame : ∀ name, SymbolTableList.Hidden { t with symList := pre ++ [{ e with
          methodSymbols := { symList := e.methodSymbols.symList ++
            [d.cell (int32 (e.methodSymbols.offset - d.size)) false]
                             offset := int32 (e.methodSymbols.offset - d.size) } }] } name ↔
          t.Hidden name := by
        intro name
        unfold SymbolTableList.Hidden
        rw [hc.list]
        simp
      intro d' hd'
      rw [hsame]
      rcases List.mem_append.mp hd' with hd' | hd'
      · exact hc.apart d' hd'
      · rw [List.mem_singleton.mp hd']
        exact hno

/-- **A declaration** that is clear. -/
theorem declare_step (h : Matches t s refused) (hclear : s.Clear refused d) :
    (t.addSymbol d).2 = (s.declare d).2 ∧
      Matches (t.addSymbol d).1 (s.declare d).1 (s.refusedBy refused d) := by
  unfold Scopes.refusedBy
  by_cases hm : d.classType = .method
  · rw [if_pos hm]
    exact method_step h hm hclear
  · rw [if_neg hm]
    cases hs : s.inner with
    | none => exact outer_step h hm hs
    | some l => exact inner_step h hm hs hclear

/-- When the last entry is a variable, only the class is searched. -/
theorem lookup_global {name : String} {c : SymbolTableCell} (he : e.cell.classType ≠ .method) :
    ∀ {l : List SymbolEntry} {found : Option SymbolTableCell},
      (∀ c', found = some c' → c'.globalScope = true) →
      (∀ e' ∈ l ++ [e], e'.cell.globalScope = true) →
        SymbolTableList.lookup name (l ++ [e]) found = some c → c.globalScope = true
  | [], found, hfound, hl, h => by
    rw [List.nil_append, SymbolTableList.lookup, if_neg fun hm => he hm.2] at h
    dsimp only at h
    rw [if_neg fun hm => he hm.1, SymbolTableList.lookup] at h
    split at h
    · cases h
      exact hl e (by simp)
    · exact hfound c h
  | e' :: l, found, hfound, hl, h => by
    rw [List.cons_append, SymbolTableList.lookup] at h
    split at h
    · cases h
      exact hl e' (by simp)
    · dsimp only at h
      rw [if_neg (by simp)] at h
      refine lookup_global he ?_ (fun e'' hmem => hl e'' (List.mem_cons_of_mem _ hmem)) h
      intro c' hc'
      split at hc'
      · cases hc'
        exact hl e' (by simp)
      · exact hfound c' hc'

/-- What is found behind a variable of the current method that was added. -/
theorem lookup_added (hm : d.classType ≠ .method) (hs : s.inner = some l)
    (hnew : ¬ Known d.name l) :
    (s.declare d).2 = false ∧ (s.declare d).1.lookup d.name = some (d, false) := by
  rw [Scopes.declare, if_neg hm, hs]
  dsimp only
  rw [if_neg hnew]
  have hnamed : named d.name (l ++ [d]) = some d := by
    unfold named
    rw [List.find?_append]
    have hno : named d.name l = none := named_eq_none.mpr hnew
    unfold named at hno
    rw [hno]
    simp
  simp [Scopes.lookup, hnamed]

/-- **A declaration that is not clear** is refused, or its symbol is not found. -/
theorem declare_step_not_clear (h : Matches t s refused) (hclear : ¬ s.Clear refused d) :
    ¬ ((t.addSymbol d).2 = (s.declare d).2 ∧
      ∀ name, (t.addSymbol d).1.found name = (s.declare d).1.lookup name) := by
  rintro ⟨hrefused, hfound⟩
  cases hs : s.inner with
  | none =>
    unfold Scopes.Clear at hclear
    rw [hs] at hclear
    exact hclear trivial
  | some l =>
    have hinner := h.inner
    rw [hs] at hinner
    obtain ⟨pre, e, hc⟩ := hinner
    by_cases hm : d.classType = .method
    · -- the symbol of the current method is taken for one of the class
      rw [clear_method hs hm, not_or, not_not] at hclear
      have hget : t.getSymbol d.name ≠ none := by
        rw [Ne, getSymbol_eq_none_iff h, hs]
        exact fun hno => hno.1 hclear.1
      rw [addSymbol_outer (.inl hm), if_neg hget, Scopes.declare, if_pos hm,
        if_neg hclear.2] at hrefused
      cases hrefused
    · rw [clear_variable hs hm, not_or] at hclear
      obtain ⟨hnew, hclear⟩ := hclear
      obtain ⟨hadd, hlookup⟩ := lookup_added hm hs hnew
      replace hfound := (hfound d.name).trans hlookup
      rw [hadd] at hrefused
      obtain ⟨c, hget, hglobal⟩ := Option.map_eq_some_iff.mp hfound
      have hlocal : c.globalScope = false := congrArg Prod.snd hglobal
      suffices hclass : c.globalScope = true by
        rw [hlocal] at hclass
        cases hclass
      cases refused with
      | true =>
        -- the variable goes to the class
        rw [addSymbol_outer (.inr hc.scope)] at hrefused hget
        by_cases hnone : t.getSymbol d.name = none
        · rw [if_pos hnone, SymbolTableList.getSymbol_eq] at hget
          refine lookup_global hm (fun _ hno => by cases hno) ?_ hget
          intro e' he'
          rcases List.mem_append.mp he' with he' | he'
          · exact h.global e' he'
          · rw [List.mem_singleton.mp he']
            rfl
        · rw [if_neg hnone] at hrefused
          cases hrefused
      | false =>
        -- the method of that name is found
        have hhidden : t.Hidden d.name := by
          rw [hidden_iff h]
          by_contra hno
          exact hclear ⟨rfl, hno⟩
        rw [addSymbol_inner hm hc.scope hc.list,
          if_pos ((hc.getSymbol_eq_none d.name).mpr hnew), SymbolTableList.getSymbol_eq] at hget
        obtain ⟨e', he', hmethod, hname⟩ := hhidden
        rw [hc.list] at he'
        obtain ⟨e'', he'', -, hres⟩ := @SymbolTableList.lookup_method d.name (pre ++ [{ e with
          methodSymbols := { symList := e.methodSymbols.symList ++
            [d.cell (int32 (e.methodSymbols.offset - d.size)) false]
                             offset := int32 (e.methodSymbols.offset - d.size) } }]) (by
          rcases List.mem_append.mp he' with he' | he'
          · exact ⟨e', by simp [he'], hmethod, hname⟩
          · obtain rfl := List.mem_singleton.mp he'
            exact ⟨_, List.mem_append_right _ (List.mem_singleton_self _), hmethod, hname⟩) none
        cases hres.symm.trans hget
        rcases List.mem_append.mp he'' with he'' | he''
        · exact h.global e'' (by rw [hc.list]; exact List.mem_append_left _ he'')
        · rw [List.mem_singleton.mp he'']
          exact h.global e (by simp [hc.list])

end Step

/-! ## sequences -/

theorem empty_matches : Matches .empty .empty false :=
  ⟨rfl, fun _ he => absurd he List.not_mem_nil, List.nodup_nil, rfl,
    fun _ he => absurd he List.not_mem_nil⟩

theorem agrees_iff_clear {ds : List Symbol} {t : SymbolTableList} {s : Scopes} {refused : Bool}
    (h : Matches t s refused) : Agrees ds t s ↔ Clear ds s refused := by
  induction ds generalizing t s refused with
  | nil => exact Iff.rfl
  | cons d ds ih =>
    unfold Agrees Clear
    by_cases hclear : s.Clear refused d
    · obtain ⟨hrefused, h'⟩ := declare_step h hclear
      rw [ih h']
      exact ⟨fun hagrees => ⟨hclear, hagrees.2⟩, fun hall => ⟨⟨hrefused, found_eq h'⟩, hall.2⟩⟩
    · refine iff_of_false ?_ fun hall => hclear hall.1
      exact fun hagrees => declare_step_not_clear h hclear hagrees.1

/--
**Local hiding**: a sequence of declarations is treated properly exactly when no variable of a
method has the name of a method, no method that of a variable of the method in front of it, and a
method that is refused is not followed by new variables.
-/
theorem agrees_iff (ds : List Symbol) : Agrees ds .empty .empty ↔ Clear ds .empty false :=
  agrees_iff_clear empty_matches

/-- A method `f` with a variable `f`. -/
def ownName : List Symbol := [⟨"f", .method, none, 0⟩, ⟨"f", .var, some .intType, 1⟩]

/-- The variable is not found. -/
theorem ownName_not_found : ¬ ∀ ds, Agrees ds .empty .empty := by
  intro h
  have hclear := (agrees_iff_clear empty_matches).mp (h ownName)
  obtain ⟨-, hvariable, -⟩ := hclear
  rcases hvariable with hknown | ⟨-, hno⟩
  · obtain ⟨d, hd, -⟩ := hknown
    cases hd
  · exact hno ⟨⟨"f", .method, none, 0⟩, by decide, rfl⟩

end Compiler
