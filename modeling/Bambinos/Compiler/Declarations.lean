import Bambinos.Compiler.SymbolTable
import Bambinos.Infra.Patch

/-!
# Sequences of declarations

What the declarations of a class do to its symbol table.

* `Declaration.declare` — the call of `addSym` that a variable leads to
* `openMethod`, `closeMethod` — what `methodDeclaration` does around the body of a method
* `lookup` — the loop of `getSymbol` on cells instead of positions
* `declareAll_global`, `declareAll_local` — the cells that a sequence of declarations adds
-/

namespace Compiler

open Infra

/-! ## declarations -/

/-- A declared variable, with the number of elements if it is an array. -/
inductive Declaration where
  | scalar (type : TypeDesc) (name : String)
  | array (type : TypeDesc) (name : String) (size : Nat)
deriving DecidableEq, Repr

namespace Declaration

def name : Declaration → String
  | scalar _ name => name
  | array _ name _ => name

def type : Declaration → TypeDesc
  | scalar type _ => type
  | array type _ _ => type

def classType : Declaration → ClassType
  | scalar _ _ => .var
  | array _ _ _ => .array

/-- The number of words it takes. -/
def words : Declaration → Nat
  | scalar _ _ => 1
  | array _ _ size => size

end Declaration

/-- All the words of some declarations. -/
def totalWords (ds : List Declaration) : Nat := (ds.map Declaration.words).sum

/-- A method: its parameters, the variables declared in its body and the address of its code. -/
structure MethodDecl where
  name : String
  params : List (TypeDesc × String)
  locals : List Declaration
  proc : Int := 0

/-- The parameters are declared as scalars. -/
def MethodDecl.paramDecls (m : MethodDecl) : List Declaration :=
  m.params.map fun p => .scalar p.1 p.2

/-- What the prologue of a method takes from the stack pointer. -/
def MethodSymbols.frameSize (t : MethodSymbols) : Int :=
  if t.offset < 0 then int32 (0 - t.offset) else t.offset

namespace SymbolTableList

/-- A declaration, unless it is refused as a duplicate. -/
def declareCell (t : SymbolTableList) (name : String) (classType : ClassType) (type : TypeDesc)
    (arraySize : Int) : Option SymbolTableList :=
  let (t', found) :=
    t.addSym name classType (some type) (int32 (type.getSize * arraySize)) true
  if found then none else some t'

theorem declareCell_of_addSym {t t' : SymbolTableList} {name : String} {classType : ClassType}
    {type : TypeDesc} {arraySize : Int}
    (h : t.addSym name classType (some type) (int32 (type.getSize * arraySize)) true = (t', false)) :
    t.declareCell name classType type arraySize = some t' := by
  unfold declareCell
  rw [h]
  rfl

def declare (t : SymbolTableList) (d : Declaration) : Option SymbolTableList :=
  t.declareCell d.name d.classType d.type d.words

def declareAll : List Declaration → SymbolTableList → Option SymbolTableList
  | [], t => some t
  | d :: ds, t => (t.declare d).bind (declareAll ds)

/-- The header of a method, up to its body. -/
def openMethod (t : SymbolTableList) (m : MethodDecl) : Option SymbolTableList := do
  let t ← t.declareCell m.name .method .intType 0
  let t := t.modifyMethodSymbols m.name (·.fixOffset (m.params.length + 2))
  let t ← declareAll m.paramDecls t
  let t := t.modifyMethodSymbols m.name (·.fixOffset (-2))
  return t.modifyCell m.name fun cell => { cell with proc := m.proc }

/-- The size of the current method's frame. -/
def frameSize (t : SymbolTableList) (name : String) : Int :=
  ((t.getMethodSymbols name).map MethodSymbols.frameSize).getD 0

/-- What is left to do behind the body of a method. -/
def closeMethod (t : SymbolTableList) (m : MethodDecl) (offsetBefore : Int) : SymbolTableList :=
  let size := t.frameSize m.name
  let t := t.modifyCell m.name fun cell =>
    { cell with size := size, offset := int32 (offsetBefore + size - 1) }
  t.fixOffset size

/-- The symbol table at the end of the body of a method. -/
def methodBody (t : SymbolTableList) (m : MethodDecl) : Option SymbolTableList :=
  (t.openMethod m).bind (declareAll m.locals)

/-- A method declared behind others. -/
def addMethod (t : SymbolTableList) (m : MethodDecl) : Option SymbolTableList :=
  (t.methodBody m).map fun t' => t'.closeMethod m t.getCurrentOffset

def addMethods : List MethodDecl → SymbolTableList → Option SymbolTableList
  | [], t => some t
  | m :: ms, t => (t.addMethod m).bind (addMethods ms)

/-- The symbol table behind the global variables and the first methods of a class. -/
def ofClass (globals : List Declaration) (methods : List MethodDecl) : Option SymbolTableList :=
  (declareAll globals .empty).bind (addMethods methods)

end SymbolTableList

/-! ## looking up a name -/

/-- The last cell of a name. -/
def lastNamed (name : String) (l : List SymbolTableCell) : Option SymbolTableCell :=
  l.reverse.find? fun c => c.name == name

theorem lastNamed_cons (name : String) (c : SymbolTableCell) (l : List SymbolTableCell) :
    lastNamed name (c :: l) = (lastNamed name l).or (if c.name = name then some c else none) := by
  unfold lastNamed
  rw [List.reverse_cons, List.find?_append]
  by_cases h : c.name = name <;> simp [h]

theorem lastNamed_append (name : String) (l : List SymbolTableCell) (c : SymbolTableCell) :
    lastNamed name (l ++ [c]) = if c.name = name then some c else lastNamed name l := by
  unfold lastNamed
  rw [List.reverse_append, List.reverse_singleton, List.singleton_append]
  by_cases h : c.name = name
  · rw [List.find?_cons_of_pos (by simpa using h), if_pos h]
  · rw [List.find?_cons_of_neg (by simpa using h), if_neg h]

theorem lastNamed_append_left {name : String} {l l' : List SymbolTableCell}
    (h : ∀ c ∈ l', c.name ≠ name) : lastNamed name (l ++ l') = lastNamed name l := by
  unfold lastNamed
  rw [List.reverse_append, List.find?_append, List.find?_eq_none.mpr (by simpa using h)]
  rfl

theorem lastNamed_eq_none {name : String} {l : List SymbolTableCell} :
    lastNamed name l = none ↔ ∀ c ∈ l, c.name ≠ name := by
  simp [lastNamed]

/-- The only cell of a name is found. -/
theorem lastNamed_of_mem {l : List SymbolTableCell} (hnd : (l.map SymbolTableCell.name).Nodup)
    {c : SymbolTableCell} (hc : c ∈ l) : lastNamed c.name l = some c := by
  cases h : lastNamed c.name l with
  | none => exact absurd rfl (lastNamed_eq_none.mp h c hc)
  | some c' =>
    have hmem : c' ∈ l := List.mem_reverse.mp (List.mem_of_find?_eq_some h)
    have hname : c'.name = c.name := by simpa using List.find?_some h
    rw [List.inj_on_of_nodup_map hnd hmem hc hname]

namespace MethodSymbols

theorem findSymbol_bind (name : String) (pre : List SymbolTableCell) :
    ∀ (l : List SymbolTableCell) (i : Nat) (found : Option Nat), i = pre.length →
      (findSymbol name l i found).bind ((pre ++ l)[·]?) =
        (lastNamed name l).or (found.bind ((pre ++ l)[·]?))
  | [], i, found, _ => by simp [findSymbol, lastNamed]
  | c :: l, i, found, hi => by
    have ih := findSymbol_bind name (pre ++ [c]) l (i + 1)
      (if c.name = name then some i else found) (by simp [hi])
    simp only [List.append_assoc, List.singleton_append] at ih
    rw [findSymbol, ih, lastNamed_cons, Option.or_assoc]
    congr 1
    by_cases h : c.name = name
    · simp [h, hi]
    · simp [h]

theorem getSymbol_eq (t : MethodSymbols) (name : String) :
    t.getSymbol name = lastNamed name t.symList := by
  have h := findSymbol_bind name [] t.symList 0 none rfl
  rw [Option.bind_none, Option.or_none] at h
  exact h

theorem findSymbol_lt (name : String) : ∀ (l : List SymbolTableCell) (i j : Nat)
    (found : Option Nat), (∀ k, found = some k → k < i) →
      findSymbol name l i found = some j → j < i + l.length
  | [], i, j, found, hlt, h => hlt j h
  | c :: l, i, j, found, hlt, h => by
    have hlt' : ∀ k, (if c.name = name then some i else found) = some k → k < i + 1 := by
      intro k hk
      split at hk
      · cases hk
        exact Nat.lt_succ_self i
      · exact Nat.lt_succ_of_lt (hlt k hk)
    have := findSymbol_lt name l (i + 1) j _ hlt' h
    rw [List.length_cons]
    omega

end MethodSymbols

namespace SymbolTableList

/-- The loop of `getSymbol`, on cells. -/
def lookup (name : String) :
    List SymbolEntry → Option SymbolTableCell → Option SymbolTableCell
  | [], found => found
  | e :: rest, found =>
    if e.cell.name = name ∧ e.cell.classType = .method then some e.cell
    else
      let found := if e.cell.name = name then some e.cell else found
      if e.cell.classType = .method ∧ rest = [] then
        (e.methodSymbols.getSymbol name).or found
      else lookup name rest found

theorem findSymbol_bind (t : SymbolTableList) (name : String) (pre : List SymbolEntry) :
    ∀ (l : List SymbolEntry) (i : Nat) (found : Option SymbolRef), i = pre.length →
      t.symList = pre ++ l →
      (findSymbol false name l i found).bind t.cellAt = lookup name l (found.bind t.cellAt) := by
  intro l
  induction l generalizing pre with
  | nil => intros; rfl
  | cons e rest ih =>
    intro i found hi hl
    have hcell : t.cellAt (.global i) = some e.cell := by simp [cellAt, hl, hi]
    rw [findSymbol, lookup]
    by_cases hm : e.cell.name = name ∧ e.cell.classType = .method
    · rw [if_pos hm, if_pos hm]
      exact hcell
    · rw [if_neg hm, if_neg hm]
      dsimp only
      have hfound : (if e.cell.name = name then some (SymbolRef.global i) else found).bind t.cellAt
          = if e.cell.name = name then some e.cell else found.bind t.cellAt := by
        by_cases h : e.cell.name = name
        · simp [h, hcell]
        · simp [h]
      by_cases hlast : e.cell.classType = .method ∧ rest = []
      · rw [if_pos ⟨rfl, hlast⟩, if_pos hlast]
        cases hj : MethodSymbols.findSymbol name e.methodSymbols.symList 0 none with
        | none =>
          have : e.methodSymbols.getSymbol name = none := by simp [MethodSymbols.getSymbol, hj]
          rw [this, Option.none_or]
          exact hfound
        | some j =>
          have hj' := MethodSymbols.findSymbol_lt name _ 0 j none nofun hj
          rw [Nat.zero_add] at hj'
          have hget : e.methodSymbols.symList[j]? = some e.methodSymbols.symList[j] :=
            List.getElem?_eq_getElem hj'
          simp [MethodSymbols.getSymbol, hj, hget, cellAt, hl, hi]
      · rw [if_neg (fun h => hlast h.2), if_neg hlast, ← hfound]
        exact ih (pre ++ [e]) (i + 1) _ (by simp [hi]) (by simp [hl])

theorem getSymbol_eq (t : SymbolTableList) (name : String) :
    t.getSymbol name = lookup name t.symList none :=
  findSymbol_bind t name [] t.symList 0 none rfl rfl

section Lookup

variable {name : String}

/-- Without methods the last cell of a name is found. -/
theorem lookup_vars : ∀ {l : List SymbolEntry} {found : Option SymbolTableCell},
    (∀ e ∈ l, e.cell.classType ≠ .method) →
      lookup name l found = (lastNamed name (l.map SymbolEntry.cell)).or found
  | [], found, _ => by simp [lookup, lastNamed]
  | e :: l, found, h => by
    have he := h e (by simp)
    rw [lookup, if_neg (fun hm => he hm.2)]
    dsimp only
    rw [if_neg (fun hm => he hm.1), lookup_vars fun e' he' => h e' (by simp [he']),
      List.map_cons, lastNamed_cons, Option.or_assoc]
    congr 1
    by_cases hn : e.cell.name = name <;> simp [hn]

/-- A symbol of the last method hides the variables of the class. -/
theorem lookup_inner {m : SymbolEntry} {c : SymbolTableCell} (hm : m.cell.classType = .method)
    (hc : m.methodSymbols.getSymbol name = some c) :
    ∀ {l : List SymbolEntry} {found : Option SymbolTableCell},
      (∀ e ∈ l ++ [m], e.cell.classType = .method → e.cell.name ≠ name) →
        lookup name (l ++ [m]) found = some c
  | [], found, h => by
    have hne := h m (by simp) hm
    rw [List.nil_append, lookup, if_neg (fun h => hne h.1)]
    simp [hm, hc]
  | e :: l, found, h => by
    rw [List.cons_append, lookup, if_neg fun he => h e (by simp) he.2 he.1]
    dsimp only
    rw [if_neg (by simp)]
    exact lookup_inner hm hc fun e' he' hmeth =>
      h e' (List.mem_cons_of_mem _ he') hmeth

/-- A name that the last method does not have is that of a variable of the class. -/
theorem lookup_outer {m : SymbolEntry} (hm : m.cell.classType = .method)
    (hc : m.methodSymbols.getSymbol name = none) :
    ∀ {l : List SymbolEntry} {found : Option SymbolTableCell},
      (∀ e ∈ l ++ [m], e.cell.classType = .method → e.cell.name ≠ name) →
        lookup name (l ++ [m]) found = (lastNamed name (l.map SymbolEntry.cell)).or found
  | [], found, h => by
    have hne := h m (by simp) hm
    rw [List.nil_append, lookup, if_neg (fun h => hne h.1)]
    simp [hm, hc, hne, lastNamed]
  | e :: l, found, h => by
    rw [List.cons_append, lookup, if_neg fun he => h e (by simp) he.2 he.1]
    dsimp only
    rw [if_neg (by simp), List.map_cons, lastNamed_cons, Option.or_assoc,
      lookup_outer hm hc fun e' he' hmeth => h e' (List.mem_cons_of_mem _ he') hmeth]
    congr 1
    by_cases hn : e.cell.name = name <;> simp [hn]

/-- A method of that name hides everything else. -/
theorem lookup_method {l : List SymbolEntry}
    (h : ∃ e ∈ l, e.cell.classType = .method ∧ e.cell.name = name)
    (found : Option SymbolTableCell) :
    ∃ e ∈ l, (e.cell.classType = .method ∧ e.cell.name = name) ∧
      lookup name l found = some e.cell := by
  induction l generalizing found with
  | nil => simp at h
  | cons e l ih =>
    rw [lookup]
    by_cases he : e.cell.name = name ∧ e.cell.classType = .method
    · exact ⟨e, by simp, he.symm, if_pos he⟩
    · obtain ⟨e', he', hmeth, hname⟩ := h
      have hmem : e' ∈ l := by
        rcases List.mem_cons.mp he' with rfl | hmem
        · exact absurd ⟨hname, hmeth⟩ he
        · exact hmem
      rw [if_neg he]
      dsimp only
      rw [if_neg fun h => List.ne_nil_of_mem hmem h.2]
      obtain ⟨e'', he'', hres⟩ := ih ⟨e', hmem, hmeth, hname⟩ _
      exact ⟨e'', List.mem_cons_of_mem _ he'', hres⟩

/-- A name that is not found is not in the class. -/
theorem lookup_eq_none {l : List SymbolEntry} {found : Option SymbolTableCell}
    (h : lookup name l found = none) : found = none ∧ ∀ e ∈ l, e.cell.name ≠ name := by
  induction l generalizing found with
  | nil => exact ⟨h, by simp⟩
  | cons e l ih =>
    rw [lookup] at h
    have hfound : ∀ {x : Option SymbolTableCell},
        (if e.cell.name = name then some e.cell else x) = none → x = none ∧ e.cell.name ≠ name := by
      intro x hx
      split at hx
      · cases hx
      · next hne => exact ⟨hx, hne⟩
    split at h
    · cases h
    · dsimp only at h
      split at h
      · next hlast =>
        obtain ⟨hx, hne⟩ := hfound (Option.or_eq_none_iff.mp h).2
        refine ⟨hx, fun e' he' => ?_⟩
        rw [hlast.2, List.mem_singleton] at he'
        rw [he']
        exact hne
      · obtain ⟨hx, hl⟩ := ih h
        obtain ⟨hx', hne⟩ := hfound hx
        exact ⟨hx', List.forall_mem_cons.mpr ⟨hne, hl⟩⟩

end Lookup

/-! ## what a declaration adds -/

section Declare

variable {t t' : SymbolTableList} {name : String} {classType : ClassType} {type : TypeDesc}
  {arraySize : Int} {pre : List SymbolEntry} {e : SymbolEntry}

/-- The cell that `addSym` makes. -/
def newCell (name : String) (classType : ClassType) (type : TypeDesc) (offset size : Int)
    (globalScope : Bool) : SymbolTableCell :=
  { name := name, classType := classType, type := some type, proc := 0,
    offset := int32 (offset - size), size := size, globalScope := globalScope }

/-- An entry of the class behind the others. -/
def addEntry (t : SymbolTableList) (cell : SymbolTableCell) : SymbolTableList :=
  { t with offset := cell.offset, symList := t.symList ++ [⟨cell, .empty⟩] }

theorem unknown_of_getSymbol (h : t.getSymbol name = none) :
    ∀ e ∈ t.symList, e.cell.name ≠ name := by
  rw [getSymbol_eq] at h
  exact (lookup_eq_none h).2

theorem declareCell_global (hs : t.scope = 0) (hc : classType ≠ .method)
    (h : t.declareCell name classType type arraySize = some t') :
    (∀ e ∈ t.symList, e.cell.name ≠ name) ∧
      t' = t.addEntry
        (newCell name classType type t.offset (int32 (type.getSize * arraySize)) true) := by
  unfold declareCell addSym at h
  simp only [if_neg hc, hs, true_and, Nat.zero_ne_one, false_and, decide_false,
    Bool.if_false_right, Bool.and_true, if_true, if_false] at h
  by_cases hfound : t.symList ≠ [] ∧ t.getSymbol name ≠ none
  · simp [hfound] at h
  · have hunknown : ∀ e ∈ t.symList, e.cell.name ≠ name := by
      by_cases hnil : t.symList = []
      · simp [hnil]
      · exact unknown_of_getSymbol (by by_contra hne; exact hfound ⟨hnil, hne⟩)
    refine ⟨hunknown, ?_⟩
    simp only [hfound, decide_false, Bool.false_eq_true, if_false, Option.some.injEq] at h
    rw [← h, addEntry, newCell, hs]

theorem declareCell_method (h : t.declareCell name .method type arraySize = some t') :
    (∀ e ∈ t.symList, e.cell.name ≠ name) ∧
      t' = { t.addEntry
        (newCell name .method type t.offset (int32 (type.getSize * arraySize)) true) with
          scope := 1 } := by
  unfold declareCell addSym at h
  have hget : ({ t with scope := 0 } : SymbolTableList).getSymbol name = t.getSymbol name := by
    rw [getSymbol_eq, getSymbol_eq]
  simp only [if_true, true_and, hget] at h
  by_cases hfound : t.symList ≠ [] ∧ t.getSymbol name ≠ none
  · simp [hfound] at h
  · have hunknown : ∀ e ∈ t.symList, e.cell.name ≠ name := by
      by_cases hnil : t.symList = []
      · simp [hnil]
      · exact unknown_of_getSymbol (by by_contra hne; exact hfound ⟨hnil, hne⟩)
    refine ⟨hunknown, ?_⟩
    simp [hfound] at h
    rw [← h, addEntry, newCell]

theorem declareCell_local (hs : t.scope = 1) (hl : t.symList = pre ++ [e])
    (hc : classType ≠ .method)
    (h : t.declareCell name classType type arraySize = some t') :
    (∀ c ∈ e.methodSymbols.symList, c.name ≠ name) ∧
      t' = { t with symList := pre ++ [{ e with methodSymbols :=
        { symList := e.methodSymbols.symList ++
            [newCell name classType type e.methodSymbols.offset
              (int32 (type.getSize * arraySize)) false]
          offset := int32 (e.methodSymbols.offset - int32 (type.getSize * arraySize)) } }] } := by
  unfold declareCell addSym at h
  have hlast : t.lastMethodSymbols = some e.methodSymbols := by
    simp [lastMethodSymbols, hl]
  simp only [if_neg hc, hs, true_and, Nat.one_ne_zero, false_and, hlast, Option.bind_some,
    if_false] at h
  by_cases hfound : e.methodSymbols.getSymbol name = none
  · refine ⟨?_, ?_⟩
    · rw [MethodSymbols.getSymbol_eq] at hfound
      exact lastNamed_eq_none.mp hfound
    · simp [hfound, modifyLast, hl, MethodSymbols.addSym] at h
      rw [← h, modify_middle, if_neg (by simp [hfound]), newCell]
  · simp [hfound] at h

end Declare

end SymbolTableList

/-! ## the cells of a sequence -/

/-- The cells of some declarations, from an offset downwards. -/
def cells (globalScope : Bool) : Int → List Declaration → List SymbolTableCell
  | _, [] => []
  | offset, d :: ds =>
    { name := d.name, classType := d.classType, type := some d.type, proc := 0,
      offset := offset - d.words, size := d.words, globalScope := globalScope } ::
      cells globalScope (offset - d.words) ds

@[simp] theorem totalWords_cons (d : Declaration) (ds : List Declaration) :
    totalWords (d :: ds) = d.words + totalWords ds := by
  simp [totalWords]

theorem TypeDesc.getSize_eq (type : TypeDesc) : type.getSize = 1 := by cases type <;> rfl

theorem Declaration.classType_ne (d : Declaration) : d.classType ≠ .method := by
  cases d <;> simp [classType]

/-- The class types and sizes of the cells are those of the declarations. -/
theorem cells_names (globalScope : Bool) (offset : Int) (ds : List Declaration) :
    (cells globalScope offset ds).map SymbolTableCell.name = ds.map Declaration.name := by
  induction ds generalizing offset with
  | nil => rfl
  | cons d ds ih => rw [cells, List.map_cons, List.map_cons, ih]

theorem cells_globalScope {globalScope : Bool} {offset : Int} {ds : List Declaration}
    {c : SymbolTableCell} (hc : c ∈ cells globalScope offset ds) : c.globalScope = globalScope := by
  induction ds generalizing offset with
  | nil => simp [cells] at hc
  | cons d ds ih =>
    rcases List.mem_cons.mp hc with rfl | hmem
    · rfl
    · exact ih hmem

theorem cells_classType {globalScope : Bool} {offset : Int} {ds : List Declaration}
    {c : SymbolTableCell} (hc : c ∈ cells globalScope offset ds) : c.classType ≠ .method := by
  induction ds generalizing offset with
  | nil => simp [cells] at hc
  | cons d ds ih =>
    rcases List.mem_cons.mp hc with rfl | hmem
    · exact d.classType_ne
    · exact ih hmem

/-- A scalar takes one word. -/
theorem cells_scalar {globalScope : Bool} {offset : Int} {ds : List Declaration}
    {c : SymbolTableCell} {type : TypeDesc} (hnd : (ds.map Declaration.name).Nodup)
    (hd : .scalar type c.name ∈ ds) (hc : c ∈ cells globalScope offset ds) : c.size = 1 := by
  induction ds generalizing offset with
  | nil => cases hd
  | cons d ds ih =>
    rw [List.map_cons, List.nodup_cons] at hnd
    rcases List.mem_cons.mp hc with rfl | hmem
    · rcases List.mem_cons.mp hd with heq | hd'
      · show (d.words : Int) = 1
        rw [← heq]
        rfl
      · exact absurd (List.mem_map_of_mem hd') hnd.1
    · rcases List.mem_cons.mp hd with rfl | hd'
      · refine absurd ?_ hnd.1
        rw [← cells_names globalScope]
        exact List.mem_map_of_mem hmem
      · exact ih hnd.2 hd' hmem

/-- The words of a cell are among those of the declarations. -/
theorem cells_bound {globalScope : Bool} {offset : Int} {ds : List Declaration}
    {c : SymbolTableCell} (hc : c ∈ cells globalScope offset ds) :
    offset - totalWords ds ≤ c.offset ∧ 0 ≤ c.size ∧ c.offset + c.size ≤ offset := by
  induction ds generalizing offset with
  | nil => cases hc
  | cons d ds ih =>
    rw [totalWords_cons]
    rcases List.mem_cons.mp hc with rfl | hmem
    · dsimp only
      omega
    · have := ih hmem
      omega

/-- Two cells that are not empty lie at different offsets. -/
theorem cells_offset_injective {globalScope : Bool} {offset : Int} {ds : List Declaration}
    {c c' : SymbolTableCell} (hc : c ∈ cells globalScope offset ds)
    (hc' : c' ∈ cells globalScope offset ds) (hsize : 0 < c.size) (hsize' : 0 < c'.size)
    (h : c.offset = c'.offset) : c = c' := by
  induction ds generalizing offset with
  | nil => cases hc
  | cons d ds ih =>
    rcases List.mem_cons.mp hc with rfl | hmem <;> rcases List.mem_cons.mp hc' with rfl | hmem'
    · rfl
    · have := cells_bound hmem'
      dsimp only at h
      omega
    · have := cells_bound hmem
      dsimp only at h
      omega
    · exact ih hmem hmem'

/-- The symbols below a method: its parameters above the frame pointer, its variables below. -/
def MethodDecl.symbols (m : MethodDecl) : List SymbolTableCell :=
  cells false (m.params.length + 2) m.paramDecls ++ cells false 0 m.locals

/-- The words that a method needs for its parameters and its variables. -/
def MethodDecl.words (m : MethodDecl) : Nat := m.params.length + 2 + totalWords m.locals

theorem totalWords_params (params : List (TypeDesc × String)) :
    totalWords (params.map fun p => .scalar p.1 p.2) = params.length := by
  induction params with
  | nil => rfl
  | cons p ps ih =>
    rw [List.map_cons, totalWords_cons, ih, List.length_cons]
    simp [Declaration.words, Nat.add_comm]

namespace SymbolTableList

/-- Below `2 ^ 31` words nothing wraps around. -/
theorem size_eq {d : Declaration} {offset : Int} (hlo : -2147483648 < offset - d.words)
    (hhi : offset < 2147483648) (hw : d.words < 2147483648) :
    int32 (d.type.getSize * d.words) = d.words ∧
      int32 (offset - int32 (d.type.getSize * d.words)) = offset - d.words := by
  have hsize : int32 (d.type.getSize * d.words) = d.words := by
    rw [TypeDesc.getSize_eq, one_mul]
    exact int32_eq (by omega) (by omega)
  rw [hsize]
  exact ⟨rfl, int32_eq (by omega) (by omega)⟩

variable {ds : List Declaration} {t t' : SymbolTableList} {pre : List SymbolEntry}
  {e : SymbolEntry}

theorem nodup_append_singleton {l : List String} {a : String} (hnd : l.Nodup)
    (ha : ∀ b ∈ l, b ≠ a) : (l ++ [a]).Nodup := by
  rw [List.nodup_append]
  refine ⟨hnd, List.nodup_singleton a, ?_⟩
  intro b hb c hc
  rw [List.mem_singleton.mp hc]
  exact ha b hb

/-- Global variables are added to the class. -/
theorem declareAll_global (hs : t.scope = 0) (hlo : -2147483648 < t.offset - totalWords ds)
    (hhi : t.offset < 1) (hnd : (t.symList.map (·.cell.name)).Nodup)
    (h : declareAll ds t = some t') :
    t'.symList = t.symList ++ (cells true t.offset ds).map (⟨·, .empty⟩) ∧
      (t'.symList.map (·.cell.name)).Nodup := by
  induction ds generalizing t with
  | nil =>
    cases h
    simp [cells, hnd]
  | cons d ds ih =>
    rw [totalWords_cons] at hlo
    obtain ⟨t₁, h₁, h₂⟩ := Option.bind_eq_some_iff.mp h
    obtain ⟨hfresh, ht₁⟩ := declareCell_global hs d.classType_ne h₁
    obtain ⟨hsize, hoffset⟩ := @size_eq d t.offset (by omega) (by omega) (by omega)
    rw [newCell, hoffset, hsize, addEntry] at ht₁
    have hs₁ : t₁.scope = 0 := by rw [ht₁]; exact hs
    have ho₁ : t₁.offset = t.offset - d.words := by rw [ht₁]
    have hnd₁ : (t₁.symList.map (·.cell.name)).Nodup := by
      rw [ht₁, List.map_append, List.map_singleton]
      exact nodup_append_singleton hnd (by simpa using hfresh)
    obtain ⟨hlist, hnd'⟩ := ih hs₁ (by omega) (by omega) hnd₁ h₂
    refine ⟨?_, hnd'⟩
    rw [hlist, ho₁, ht₁, cells]
    simp

/-- The variables of a method are added below it. -/
theorem declareAll_local (hs : t.scope = 1) (hl : t.symList = pre ++ [e])
    (hlo : -2147483648 < e.methodSymbols.offset - totalWords ds)
    (hhi : e.methodSymbols.offset < 2147483648) (hw : totalWords ds < 2147483648)
    (hnd : (e.methodSymbols.symList.map SymbolTableCell.name).Nodup)
    (h : declareAll ds t = some t') :
    let symbols := e.methodSymbols.symList ++ cells false e.methodSymbols.offset ds
    t' = { t with symList := pre ++ [{ e with methodSymbols :=
      { symList := symbols, offset := e.methodSymbols.offset - totalWords ds } }] } ∧
      (symbols.map SymbolTableCell.name).Nodup := by
  induction ds generalizing t e with
  | nil =>
    cases h
    simp [cells, totalWords, hnd, ← hl]
  | cons d ds ih =>
    rw [totalWords_cons] at hlo hw
    obtain ⟨t₁, h₁, h₂⟩ := Option.bind_eq_some_iff.mp h
    obtain ⟨hfresh, ht₁⟩ := declareCell_local hs hl d.classType_ne h₁
    obtain ⟨hsize, hoffset⟩ := @size_eq d e.methodSymbols.offset (by omega) hhi (by omega)
    rw [newCell, hoffset, hsize] at ht₁
    have hs₁ : t₁.scope = 1 := by rw [ht₁]; exact hs
    have hl₁ := congrArg symList ht₁
    have hnd₁ : (e.methodSymbols.symList ++ cells false e.methodSymbols.offset [d]).map
        SymbolTableCell.name |>.Nodup := by
      rw [List.map_append, cells, cells, List.map_singleton]
      exact nodup_append_singleton hnd (by simpa using hfresh)
    obtain ⟨hlist, hnd'⟩ := ih hs₁ hl₁ (by dsimp only; omega) (by dsimp only; omega) (by omega)
      hnd₁ h₂
    simp only [List.append_assoc, List.singleton_append] at hlist hnd'
    refine ⟨?_, hnd'⟩
    rw [hlist, ht₁, cells, totalWords_cons]
    simp only [Nat.cast_add, sub_sub]

/-! ## inside of a method -/

/-- A name that only the last cell has, which is a method, is found there. -/
theorem findSymbol_last {name : String} (hname : e.cell.name = name)
    (hm : e.cell.classType = .method) : ∀ (l : List SymbolEntry) (i : Nat) (found : Option SymbolRef),
      (∀ e' ∈ l, e'.cell.name ≠ name) →
        findSymbol false name (l ++ [e]) i found = some (.global (i + l.length))
  | [], i, found, _ => by simp [findSymbol, hname, hm]
  | e' :: l, i, found, h => by
    have hne := h e' (by simp)
    rw [List.cons_append, findSymbol, if_neg (fun h => hne h.1)]
    dsimp only
    rw [if_neg (by simp), if_neg hne,
      findSymbol_last hname hm l (i + 1) found fun e'' he'' => h e'' (by simp [he'']),
      List.length_cons]
    congr 2
    omega

section Method

variable {m : MethodDecl}

theorem modifyMethodSymbols_last {cell : SymbolTableCell} {symbols : MethodSymbols}
    (hl : t.symList = pre ++ [⟨cell, symbols⟩]) (hm : cell.classType = .method)
    (hfresh : ∀ e ∈ pre, e.cell.name ≠ cell.name) (f : MethodSymbols → MethodSymbols) :
    t.modifyMethodSymbols cell.name f = { t with symList := pre ++ [⟨cell, f symbols⟩] } := by
  unfold modifyMethodSymbols
  rw [hl, @findSymbol_last ⟨cell, symbols⟩ _ rfl hm pre 0 none hfresh, Nat.zero_add]
  dsimp only
  rw [modify_middle]

theorem modifyCell_last {cell : SymbolTableCell} {symbols : MethodSymbols}
    (hl : t.symList = pre ++ [⟨cell, symbols⟩]) (hm : cell.classType = .method)
    (hfresh : ∀ e ∈ pre, e.cell.name ≠ cell.name) (f : SymbolTableCell → SymbolTableCell) :
    t.modifyCell cell.name f = { t with symList := pre ++ [⟨f cell, symbols⟩] } := by
  unfold modifyCell
  rw [hl, @findSymbol_last ⟨cell, symbols⟩ _ rfl hm pre 0 none hfresh, Nat.zero_add]
  dsimp only
  rw [modify_middle]

/-- **The table at the end of the body of a method.** -/
theorem methodBody_symList (hw : m.words < 2147483648) (h : t.methodBody m = some t') :
    ∃ cell, cell.name = m.name ∧ cell.classType = .method ∧ cell.globalScope = true ∧
      t'.symList = t.symList ++
        [⟨cell, { symList := m.symbols, offset := -totalWords m.locals }⟩] ∧
      (m.symbols.map SymbolTableCell.name).Nodup ∧
      ∀ e ∈ t.symList, e.cell.name ≠ m.name := by
  unfold MethodDecl.words at hw
  obtain ⟨tₒ, hopen, hlocals⟩ := Option.bind_eq_some_iff.mp h
  obtain ⟨t₁, h₁, hopen⟩ := Option.bind_eq_some_iff.mp hopen
  obtain ⟨t₂, h₂, hopen⟩ := Option.bind_eq_some_iff.mp hopen
  obtain ⟨hfresh, ht₁⟩ := declareCell_method h₁
  have hn : int32 (0 + ((m.params.length : Int) + 2)) = m.params.length + 2 := by
    rw [zero_add]
    exact int32_eq (by omega) (by omega)
  generalize hcell : newCell m.name .method .intType t.offset
    (int32 (TypeDesc.intType.getSize * 0)) true = cell at ht₁
  have hname : cell.name = m.name := by rw [← hcell]; rfl
  have hmethod : cell.classType = .method := by rw [← hcell]; rfl
  have hglobal : cell.globalScope = true := by rw [← hcell]; rfl
  rw [← hname] at hfresh h₂ hopen
  have hl₁ : t₁.symList = t.symList ++ [⟨cell, .empty⟩] := by rw [ht₁]; rfl
  have hs₁ : t₁.scope = 1 := by rw [ht₁]
  rw [modifyMethodSymbols_last hl₁ hmethod hfresh, MethodSymbols.fixOffset, MethodSymbols.empty]
    at h₂
  rw [hn] at h₂
  have hparams : totalWords m.paramDecls = m.params.length := totalWords_params m.params
  obtain ⟨ht₂, hnd₂⟩ := @declareAll_local m.paramDecls _ t₂ t.symList
    ⟨cell, ⟨[], m.params.length + 2⟩⟩ (by exact hs₁) rfl (by dsimp only; omega)
    (by dsimp only; omega) (by omega) List.nodup_nil h₂
  simp only [List.nil_append, hparams] at ht₂ hnd₂
  have hl₂ : t₂.symList = t.symList ++ [⟨cell, ⟨cells false (m.params.length + 2) m.paramDecls,
    m.params.length + 2 - m.params.length⟩⟩] := by rw [ht₂]
  have hs₂ : t₂.scope = 1 := by rw [ht₂]; exact hs₁
  have hzero : int32 ((m.params.length : Int) + 2 - m.params.length + -2) = 0 := by
    rw [show (m.params.length : Int) + 2 - m.params.length + -2 = 0 by omega]
    rfl
  injection hopen with hopen
  rw [modifyMethodSymbols_last hl₂ hmethod hfresh, MethodSymbols.fixOffset, hzero,
    modifyCell_last rfl hmethod hfresh] at hopen
  have hlₒ := congrArg symList hopen.symm
  have hsₒ : tₒ.scope = 1 := by rw [← hopen]; exact hs₂
  obtain ⟨ht', hnd'⟩ := declareAll_local hsₒ hlₒ (by dsimp only; omega) (by dsimp only; omega)
    (by omega) hnd₂ hlocals
  refine ⟨{ cell with proc := m.proc }, hname, hmethod, hglobal, ?_, hnd', ?_⟩
  · rw [ht', zero_sub]
    rfl
  · rw [← hname]
    exact hfresh

/-- A method of the class, if only the current one, has the name. -/
def Hidden (t : SymbolTableList) (name : String) : Prop :=
  ∃ e ∈ t.symList, e.cell.classType = .method ∧ e.cell.name = name

instance (t : SymbolTableList) (name : String) : Decidable (t.Hidden name) :=
  inferInstanceAs (Decidable (∃ e ∈ t.symList, e.cell.classType = .method ∧ e.cell.name = name))

/-- A parameter or a variable of the current method is found, unless a method has its name. -/
theorem getSymbol_methodBody (hw : m.words < 2147483648) (h : t.methodBody m = some t')
    {c : SymbolTableCell} (hc : c ∈ m.symbols) (hhidden : ¬ t'.Hidden c.name) :
    t'.getSymbol c.name = some c := by
  obtain ⟨cell, -, hmethod, -, hlist, hnd, -⟩ := methodBody_symList hw h
  rw [getSymbol_eq, hlist]
  refine @lookup_inner _ ⟨cell, _⟩ c hmethod ?_ _ _ ?_
  · rw [MethodSymbols.getSymbol_eq]
    exact lastNamed_of_mem hnd hc
  · intro e he hm hname
    exact hhidden ⟨e, by rw [hlist]; exact he, hm, hname⟩

end Method

/-! ## the class level -/

/-- The global variables, and methods of other names behind them. -/
def Extends (gs : List Declaration) (t : SymbolTableList) : Prop :=
  ∃ rest, t.symList = (cells true 0 gs).map (⟨·, .empty⟩) ++ rest ∧
    ∀ e ∈ rest, e.cell.classType = .method ∧ e.cell.name ∉ gs.map Declaration.name

theorem Extends.append {gs : List Declaration} (h : Extends gs t)
    (hl : t'.symList = t.symList ++ [e]) (hm : e.cell.classType = .method)
    (hfresh : ∀ e' ∈ t.symList, e'.cell.name ≠ e.cell.name) : Extends gs t' := by
  obtain ⟨rest, hlist, hrest⟩ := h
  refine ⟨rest ++ [e], by rw [hl, hlist, List.append_assoc], ?_⟩
  intro e' he'
  rcases List.mem_append.mp he' with hmem | hmem
  · exact hrest e' hmem
  · rw [List.mem_singleton.mp hmem]
    refine ⟨hm, fun hin => ?_⟩
    rw [← cells_names true 0] at hin
    obtain ⟨c, hc, hcname⟩ := List.mem_map.mp hin
    refine hfresh ⟨c, .empty⟩ ?_ hcname
    rw [hlist]
    exact List.mem_append_left _ (List.mem_map_of_mem hc)

theorem Extends.closeMethod {gs : List Declaration} {m : MethodDecl} (h : Extends gs t)
    (hw : m.words < 2147483648) (hb : t.methodBody m = some t') (offsetBefore : Int) :
    Extends gs (t'.closeMethod m offsetBefore) := by
  obtain ⟨cell, hname, hmethod, -, hlist, -, hfresh⟩ := methodBody_symList hw hb
  rw [← hname] at hfresh
  have hmod := modifyCell_last hlist hmethod hfresh
  unfold SymbolTableList.closeMethod
  rw [← hname]
  dsimp only
  rw [hmod]
  exact h.append rfl hmethod hfresh

/-- **A class is its global variables, and methods of other names behind them.** -/
theorem ofClass_extends {gs : List Declaration} {ms : List MethodDecl}
    (hg : totalWords gs < 2147483648) (hms : ∀ m ∈ ms, m.words < 2147483648)
    (h : ofClass gs ms = some t) : Extends gs t := by
  obtain ⟨t₀, h₀, hadd⟩ := Option.bind_eq_some_iff.mp h
  have hext : Extends gs t₀ := by
    obtain ⟨hlist, -⟩ := @declareAll_global gs .empty t₀ rfl (by simp only [empty]; omega)
      (by decide) List.nodup_nil h₀
    exact ⟨[], by simpa [empty] using hlist, by simp⟩
  clear h h₀
  induction ms generalizing t₀ with
  | nil =>
    cases hadd
    exact hext
  | cons m ms ih =>
    obtain ⟨t₁, h₁, hadd⟩ := Option.bind_eq_some_iff.mp hadd
    obtain ⟨t₂, h₂, rfl⟩ := Option.map_eq_some_iff.mp h₁
    have hm := hms m (List.mem_cons_self ..)
    exact ih (fun m' hm' => hms m' (List.mem_cons_of_mem _ hm')) _ hadd
      (hext.closeMethod hm h₂ _)

/-- A global variable that the current method does not declare again is found. -/
theorem getSymbol_outer {gs : List Declaration} {m : MethodDecl} (h : Extends gs t)
    (hnd : (gs.map Declaration.name).Nodup) (hw : m.words < 2147483648)
    (hb : t.methodBody m = some t') {c : SymbolTableCell} (hc : c ∈ cells true 0 gs)
    (houter : c.name ∉ m.symbols.map SymbolTableCell.name) : t'.getSymbol c.name = some c := by
  obtain ⟨rest, hlist, hrest⟩ := h
  obtain ⟨cell, hname, hmethod, -, hlist', -, hfresh⟩ := methodBody_symList hw hb
  have hglobal : ∀ c' ∈ cells true 0 gs, (⟨c', .empty⟩ : SymbolEntry) ∈ t.symList := by
    intro c' hc'
    rw [hlist]
    exact List.mem_append_left _ (List.mem_map_of_mem hc')
  have hcname : c.name ∈ gs.map Declaration.name := by
    rw [← cells_names true 0]
    exact List.mem_map_of_mem hc
  have hinner : (⟨m.symbols, -totalWords m.locals⟩ : MethodSymbols).getSymbol c.name = none := by
    rw [MethodSymbols.getSymbol_eq, lastNamed_eq_none]
    exact fun c' hc' hname' => houter (List.mem_map.mpr ⟨c', hc', hname'⟩)
  have hmethods : ∀ e ∈ t.symList ++ [⟨cell, ⟨m.symbols, -totalWords m.locals⟩⟩],
      e.cell.classType = .method → e.cell.name ≠ c.name := by
    intro e he hm hname'
    rcases List.mem_append.mp he with hmem | hmem
    · rw [hlist] at hmem
      rcases List.mem_append.mp hmem with hmem | hmem
      · obtain ⟨c', hc', rfl⟩ := List.mem_map.mp hmem
        exact cells_classType hc' hm
      · exact (hrest e hmem).2 (hname' ▸ hcname)
    · rw [List.mem_singleton.mp hmem] at hname'
      exact hfresh _ (hglobal c hc) (hname'.symm.trans hname)
  rw [getSymbol_eq, hlist', lookup_outer hmethod hinner hmethods, Option.or_none, hlist,
    List.map_append, lastNamed_append_left]
  · have hcells : ((cells true 0 gs).map fun c => (⟨c, .empty⟩ : SymbolEntry)).map
        SymbolEntry.cell = cells true 0 gs := by
      simp [Function.comp_def]
    rw [hcells]
    exact lastNamed_of_mem (by rwa [cells_names]) hc
  · intro c' hc' hname'
    obtain ⟨e, he, rfl⟩ := List.mem_map.mp hc'
    exact (hrest e he).2 (hname' ▸ hcname)

/-- The cells of the class are addressed absolutely. -/
def ClassGlobal (t : SymbolTableList) : Prop := ∀ e ∈ t.symList, e.cell.globalScope = true

/-- The name of a method is addressed absolutely. -/
theorem ClassGlobal.getSymbol_hidden {name : String} (h : t.ClassGlobal) (hh : t.Hidden name) :
    ∃ cell, t.getSymbol name = some cell ∧ cell.globalScope = true := by
  obtain ⟨e, he, -, hres⟩ := lookup_method hh none
  exact ⟨e.cell, by rw [getSymbol_eq, hres], h e he⟩

theorem ClassGlobal.modify {l : List SymbolEntry} (h : ∀ e ∈ l, e.cell.globalScope = true)
    (i : Nat) (f : SymbolEntry → SymbolEntry)
    (hf : ∀ e, (f e).cell.globalScope = e.cell.globalScope) :
    ∀ e ∈ l.modify i f, e.cell.globalScope = true := by
  intro e he
  obtain ⟨j, hj, rfl⟩ := List.mem_iff_getElem.mp he
  rw [List.getElem_modify]
  split
  · rw [hf]
    exact h _ (List.getElem_mem _)
  · exact h _ (List.getElem_mem _)

theorem ClassGlobal.addSym {name : String} {classType : ClassType} {type : Option TypeDesc}
    {size : Int} (h : t.ClassGlobal) : (t.addSym name classType type size true).1.ClassGlobal := by
  unfold SymbolTableList.addSym
  have h₁ : (if classType = .method then { t with scope := 0 } else t).ClassGlobal := by
    split
    · exact h
    · exact h
  revert h₁
  generalize (if classType = .method then { t with scope := 0 } else t) = t₁
  intro h₁
  dsimp only
  generalize (if t₁.scope = 0 ∧ t₁.symList ≠ [] ∧ t₁.getSymbol name ≠ none then true
    else decide (t₁.scope = 1 ∧ (t₁.lastMethodSymbols.bind (·.getSymbol name)) ≠ none)) = found
  cases found with
  | true => exact h₁
  | false =>
    rw [if_neg Bool.false_ne_true]
    have h₂ : ∀ t₂ : SymbolTableList, t₂.ClassGlobal →
        (if t₂.scope = 1 then t₂.modifyLast (·.addSym name classType type size false)
          else t₂).ClassGlobal := by
      intro t₂ h₂
      split
      · exact modify h₂ _ _ fun _ => rfl
      · exact h₂
    have h₃ : ∀ t₃ : SymbolTableList, t₃.ClassGlobal →
        (if classType = .method then { t₃ with scope := 1 } else t₃).ClassGlobal := by
      intro t₃ h₃
      split
      · exact h₃
      · exact h₃
    refine h₃ _ (h₂ _ ?_)
    split
    · intro e he
      rcases List.mem_append.mp he with hmem | hmem
      · exact h₁ e hmem
      · rw [List.mem_singleton.mp hmem]
    · exact h₁

/-- A declaration keeps the cells of the class absolute. -/
theorem ClassGlobal.declareCell {name : String} {classType : ClassType} {type : TypeDesc}
    {arraySize : Int} (h : t.ClassGlobal)
    (hd : t.declareCell name classType type arraySize = some t') : t'.ClassGlobal := by
  unfold SymbolTableList.declareCell at hd
  have hadd := @addSym t name classType (some type) (int32 (type.getSize * arraySize)) h
  revert hd hadd
  generalize t.addSym name classType (some type) (int32 (type.getSize * arraySize)) true = r
  obtain ⟨t₁, found⟩ := r
  intro hd hadd
  cases found with
  | true => cases hd
  | false =>
    injection hd with hd
    rw [← hd]
    exact hadd

theorem ClassGlobal.declareAll (h : t.ClassGlobal)
    (hd : SymbolTableList.declareAll ds t = some t') : t'.ClassGlobal := by
  induction ds generalizing t with
  | nil =>
    cases hd
    exact h
  | cons d ds ih =>
    obtain ⟨t₁, h₁, h₂⟩ := Option.bind_eq_some_iff.mp hd
    exact ih (h.declareCell h₁) h₂

theorem ClassGlobal.modifyMethodSymbols (h : t.ClassGlobal) (name : String)
    (f : MethodSymbols → MethodSymbols) : (t.modifyMethodSymbols name f).ClassGlobal := by
  unfold SymbolTableList.modifyMethodSymbols
  split
  · exact modify h _ _ fun _ => rfl
  · exact h

theorem ClassGlobal.modifyCell (h : t.ClassGlobal) (name : String)
    (f : SymbolTableCell → SymbolTableCell) (hf : ∀ c, (f c).globalScope = c.globalScope) :
    (t.modifyCell name f).ClassGlobal := by
  unfold SymbolTableList.modifyCell
  split
  · exact modify h _ _ fun e => hf e.cell
  · exact modify h _ _ fun _ => rfl
  · exact h

theorem ClassGlobal.methodBody {m : MethodDecl} (h : t.ClassGlobal)
    (hd : t.methodBody m = some t') : t'.ClassGlobal := by
  obtain ⟨tₒ, hopen, hlocals⟩ := Option.bind_eq_some_iff.mp hd
  obtain ⟨t₁, h₁, hopen⟩ := Option.bind_eq_some_iff.mp hopen
  obtain ⟨t₂, h₂, hopen⟩ := Option.bind_eq_some_iff.mp hopen
  injection hopen with hopen
  have hₚ := ((h.declareCell h₁).modifyMethodSymbols m.name _).declareAll h₂
  have hₒ : tₒ.ClassGlobal := by
    rw [← hopen]
    exact (hₚ.modifyMethodSymbols m.name _).modifyCell m.name _ fun _ => rfl
  exact hₒ.declareAll hlocals

theorem ClassGlobal.closeMethod (h : t.ClassGlobal) (m : MethodDecl) (offsetBefore : Int) :
    (t.closeMethod m offsetBefore).ClassGlobal := by
  intro e he
  exact h.modifyCell m.name _ (by intro c; rfl) e he

theorem ClassGlobal.addMethods {ms : List MethodDecl} (h : t.ClassGlobal)
    (hd : SymbolTableList.addMethods ms t = some t') : t'.ClassGlobal := by
  induction ms generalizing t with
  | nil =>
    cases hd
    exact h
  | cons m ms ih =>
    obtain ⟨t₁, h₁, h₂⟩ := Option.bind_eq_some_iff.mp hd
    obtain ⟨t₀, h₀, rfl⟩ := Option.map_eq_some_iff.mp h₁
    exact ih ((h.methodBody h₀).closeMethod m _) h₂

/-- **In every class the cells of the class are addressed absolutely.** -/
theorem ofClass_classGlobal {globals : List Declaration} {methods : List MethodDecl}
    (h : ofClass globals methods = some t) : t.ClassGlobal := by
  obtain ⟨t₁, h₁, h₂⟩ := Option.bind_eq_some_iff.mp h
  have hempty : ClassGlobal .empty := by
    intro e he
    cases he
  exact (hempty.declareAll h₁).addMethods h₂

end SymbolTableList

end Compiler
