import Mathlib
import Bambinos.Compiler.SymbolExchange

/-!
# The symbols that survive an import

* `Importable` — what the reader can express
* `roundTrips_of_shaped` — exactly that survives
* `Built` — the tables that `addSym` builds, with the operations of the parser in any order
* `Built.shaped` — every one of them can be read back as far as it can be written
-/

namespace Compiler

open Infra ParseSymbolFile

/-! ## the round trip -/

/-- The same parameter. -/
structure SameParameter (c c' : SymbolTableCell) : Prop where
  name : c'.name = c.name
  classType : c'.classType = c.classType
  base : c'.type.map TypeDesc.base = c.type.map TypeDesc.base

/-- The same global symbol. -/
structure SameSymbol (e e' : SymbolEntry) : Prop where
  name : e'.cell.name = e.cell.name
  classType : e'.cell.classType = e.cell.classType
  base : e'.cell.type.map TypeDesc.base = e.cell.type.map TypeDesc.base
  size : e'.cell.size = e.cell.size
  params : e.cell.classType = .method →
    List.Forall₂ SameParameter (parameters e.methodSymbols) e'.methodSymbols.symList

/-- The words of the variables and arrays of a class. -/
def totalSize (t : SymbolTableList) : Int :=
  ((t.symList.filter fun e => e.cell.classType ≠ .method).map fun e => e.cell.size).sum

/-- **An import of the file yields the symbols of the class and its size.** -/
def RoundTrips (t : SymbolTableList) : Prop :=
  ∃ doc, writeSymbolfile t = some doc ∧ ∀ events, coalesce events = coalesce doc →
    List.Forall₂ SameSymbol t.symList (importClass events).fields.symList ∧
      (importClass events).size = totalSize t

/-- What the reader can express: methods with typed scalar parameters, and scalars of no words. -/
structure Importable (t : SymbolTableList) : Prop where
  typed : ∀ e ∈ t.symList, e.cell.type ≠ none
  noArray : ∀ e ∈ t.symList, e.cell.classType ≠ .array
  empty : ∀ e ∈ t.symList, e.cell.classType = .var → e.cell.size = 0
  params : ∀ e ∈ t.symList, e.cell.classType = .method → ∀ c ∈ parameters e.methodSymbols,
    c.type ≠ none ∧ c.classType = .var

theorem exists_mapM_iff {α β : Type} {f : α → Option β} {l : List α} :
    (∃ docs, l.mapM f = some docs) ↔ ∀ x ∈ l, ∃ doc, f x = some doc := by
  induction l with
  | nil => simp
  | cons x l ih =>
    rw [List.forall_mem_cons, ← ih]
    constructor
    · rintro ⟨docs, h⟩
      rw [List.mapM_cons] at h
      obtain ⟨doc, hdoc, h⟩ := Option.bind_eq_some_iff.mp h
      obtain ⟨docs', hdocs, -⟩ := Option.bind_eq_some_iff.mp h
      exact ⟨⟨doc, hdoc⟩, ⟨docs', hdocs⟩⟩
    · rintro ⟨⟨doc, hdoc⟩, ⟨docs, hdocs⟩⟩
      exact ⟨doc :: docs, by simp [hdoc, hdocs]⟩

/-- A cell can be written if it has a type, and what is below it can be written. -/
theorem exportCell_isSome {c : SymbolTableCell} {inner : Option (List Event)}
    (hexported : c.globalScope = true ∨ c.offset > 0) :
    (∃ doc, exportCell c inner = some doc) ↔
      c.type ≠ none ∧ (c.classType = .method → ∃ symbols, inner = some symbols) := by
  constructor
  · rintro ⟨doc, h⟩
    obtain ⟨type, htype⟩ := exportCell_type hexported h
    refine ⟨by simp [htype], fun hclass => ?_⟩
    rw [exportCell_method hexported htype hclass] at h
    obtain ⟨symbols, hsymbols, -⟩ := Option.map_eq_some_iff.mp h
    exact ⟨symbols, hsymbols⟩
  · rintro ⟨htype, hinner⟩
    obtain ⟨type, htype⟩ := Option.ne_none_iff_exists'.mp htype
    cases hclass : c.classType with
    | var => exact ⟨_, exportCell_var hexported htype hclass⟩
    | array => exact ⟨_, exportCell_array hexported htype hclass⟩
    | method =>
      obtain ⟨symbols, hsymbols⟩ := hinner hclass
      exact ⟨_, by rw [exportCell_method hexported htype hclass, hsymbols, Option.map_some]⟩

/-- The symbols of a method can be written if its parameters have types. -/
theorem exportSymbols_isSome {m : MethodSymbols} (hm : ∀ c ∈ m.symList, InnerCell c) :
    (∃ symbols, m.exportSymbols = some symbols) ↔ ∀ c ∈ parameters m, c.type ≠ none := by
  have hmap : (∃ symbols, m.exportSymbols = some symbols) ↔
      ∃ docs, m.symList.mapM (fun c => exportCell c (some (symbolsElement []))) = some docs := by
    unfold MethodSymbols.exportSymbols
    constructor
    · rintro ⟨symbols, h⟩
      obtain ⟨docs, hdocs, -⟩ := Option.bind_eq_some_iff.mp h
      exact ⟨docs, hdocs⟩
    · rintro ⟨docs, hdocs⟩
      exact ⟨symbolsElement docs, by rw [hdocs]; rfl⟩
  rw [hmap, exists_mapM_iff]
  constructor
  · intro h c hc
    rw [parameters, List.mem_filter, decide_eq_true_iff] at hc
    exact ((exportCell_isSome (.inr hc.2)).mp (h c hc.1)).1
  · intro h c hc
    by_cases hoffset : c.offset > 0
    · refine (exportCell_isSome (.inr hoffset)).mpr ⟨h c ?_, fun _ => ⟨_, rfl⟩⟩
      rw [parameters, List.mem_filter, decide_eq_true_iff]
      exact ⟨hc, hoffset⟩
    · have hinner := (hm c hc).inner
      exact ⟨[], by simp [exportCell, hinner, hoffset]⟩

theorem writeSymbolfile_isSome {t : SymbolTableList} (ht : Shaped t) :
    (∃ doc, writeSymbolfile t = some doc) ↔ ∀ e ∈ t.symList, e.cell.type ≠ none ∧
      (e.cell.classType = .method → ∀ c ∈ parameters e.methodSymbols, c.type ≠ none) := by
  have hmap : (∃ doc, writeSymbolfile t = some doc) ↔
      ∃ docs, t.symList.mapM (fun e => exportCell e.cell e.methodSymbols.exportSymbols) =
        some docs := by
    unfold writeSymbolfile SymbolTableList.exportSymbols
    constructor
    · rintro ⟨doc, h⟩
      obtain ⟨symbols, hsymbols, -⟩ := Option.bind_eq_some_iff.mp h
      obtain ⟨docs, hdocs, -⟩ := Option.bind_eq_some_iff.mp hsymbols
      exact ⟨docs, hdocs⟩
    · rintro ⟨docs, hdocs⟩
      exact ⟨_, by rw [hdocs]; rfl⟩
  rw [hmap, exists_mapM_iff]
  refine forall₂_congr fun e he => ?_
  rw [exportCell_isSome (.inl (ht.entries e he).outer),
    exportSymbols_isSome (ht.entries e he).inner]

/-- When a parameter is read as it was. -/
theorem sameParameter_iff {c : SymbolTableCell} (hc : c.classType ≠ .method) :
    SameParameter c (importedCell false c) ↔ c.classType = .var := by
  constructor
  · intro h
    have := h.classType
    simpa [importedCell, hc] using this.symm
  · intro h
    refine ⟨rfl, by simp [importedCell, h], ?_⟩
    cases htype : c.type with
    | none => simp [importedCell, htype]
    | some type => simp [importedCell, htype, base_importedType]

/-- When an entry is read as it was. -/
theorem sameSymbol_iff {e : SymbolEntry} (he : OuterEntry e) :
    SameSymbol e (importedEntry e) ↔ e.cell.classType ≠ .array ∧
      (e.cell.classType = .var → e.cell.size = 0) ∧
      (e.cell.classType = .method → ∀ c ∈ parameters e.methodSymbols, c.classType = .var) := by
  have hparams : e.cell.classType = .method →
      (List.Forall₂ SameParameter (parameters e.methodSymbols)
          (importedEntry e).methodSymbols.symList ↔
        ∀ c ∈ parameters e.methodSymbols, c.classType = .var) := by
    intro hclass
    rw [importedEntry, if_pos hclass, List.forall₂_map_right_iff, List.forall₂_same]
    exact forall₂_congr fun c hc =>
      sameParameter_iff (he.inner c (List.mem_of_mem_filter hc)).noMethod
  constructor
  · intro h
    refine ⟨fun harray => ?_, fun hvar => ?_, fun hm => (hparams hm).mp (h.params hm)⟩
    · have := h.classType
      simp [importedEntry, importedCell, harray] at this
    · have := h.size
      simpa [importedEntry, importedCell, hvar] using this.symm
  · rintro ⟨harray, hvar, hm⟩
    have hbase : (importedEntry e).cell.type.map TypeDesc.base = e.cell.type.map TypeDesc.base := by
      cases htype : e.cell.type with
      | none => simp [importedEntry, importedCell, htype]
      | some type => simp [importedEntry, importedCell, htype, base_importedType]
    cases hclass : e.cell.classType with
    | array => exact absurd hclass harray
    | var => exact ⟨rfl, by simp [importedEntry, importedCell, hclass], hbase,
        by simp [importedEntry, importedCell, hclass, hvar hclass], fun h => by simp [hclass] at h⟩
    | method => exact ⟨rfl, by simp [importedEntry, importedCell, hclass], hbase,
        by simp [importedEntry, importedCell, hclass], fun h => (hparams h).mpr (hm h)⟩

/-- A class of methods takes no words. -/
theorem totalSize_eq_zero {t : SymbolTableList} (ht : Importable t) : totalSize t = 0 := by
  unfold totalSize
  refine List.sum_eq_zero fun n hn => ?_
  obtain ⟨e, he, rfl⟩ := List.mem_map.mp hn
  rw [List.mem_filter] at he
  cases hclass : e.cell.classType with
  | var => exact ht.empty e he.1 hclass
  | array => exact absurd hclass (ht.noArray e he.1)
  | method => simp [hclass] at he

theorem roundTrips_of_shaped {t : SymbolTableList} (ht : Shaped t) :
    RoundTrips t ↔ Importable t := by
  constructor
  · rintro ⟨doc, hdoc, hread⟩
    have htyped := (writeSymbolfile_isSome ht).mp ⟨doc, hdoc⟩
    obtain ⟨hsame, -⟩ := hread doc rfl
    rw [importClass_eq ht hdoc rfl, importedList] at hsame
    dsimp only at hsame
    rw [List.forall₂_map_right_iff, List.forall₂_same] at hsame
    have hentry := fun e he => (sameSymbol_iff (ht.entries e he)).mp (hsame e he)
    exact ⟨fun e he => (htyped e he).1, fun e he => (hentry e he).1, fun e he => (hentry e he).2.1,
      fun e he hm c hc => ⟨(htyped e he).2 hm c hc, (hentry e he).2.2 hm c hc⟩⟩
  · intro h
    obtain ⟨doc, hdoc⟩ := (writeSymbolfile_isSome ht).mpr fun e he =>
      ⟨h.typed e he, fun hm c hc => (h.params e he hm c hc).1⟩
    refine ⟨doc, hdoc, fun events hevents => ?_⟩
    rw [importClass_eq ht hdoc hevents, totalSize_eq_zero h, importedList]
    dsimp only
    rw [List.forall₂_map_right_iff, List.forall₂_same]
    exact ⟨fun e he => (sameSymbol_iff (ht.entries e he)).mpr
      ⟨h.noArray e he, h.empty e he, fun hm c hc => (h.params e he hm c hc).2⟩, rfl⟩

/-! ## tables that `addSym` builds -/

/-- The name of a symbol: letters and digits. -/
def IsIdentifier (name : String) : Prop := name ≠ "" ∧ ∀ c ∈ name.toList, c.isAlphanum

/-- The path of a module: names with `/` between them. -/
def IsPath (path : String) : Prop := path ≠ "" ∧ ∀ c ∈ path.toList, c.isAlphanum ∨ c = '/'

/-- The symbol tables that the parser can build, with its operations in any order. -/
inductive Built : SymbolTableList → Prop
  | empty : Built .empty
  | addSym {t : SymbolTableList} (h : Built t) (name : String) (classType : ClassType)
    (type : Option TypeDesc) (size : Int) (hname : IsIdentifier name)
    (hsize : int32 size = size) : Built (t.addSym name classType type size true).1
  | addModule {t : SymbolTableList} (h : Built t) (path : String) (hpath : IsPath path) :
    Built (t.addModule path)
  | fixOffset {t : SymbolTableList} (h : Built t) (fix : Int) : Built (t.fixOffset fix)
  | fixMethodOffset {t : SymbolTableList} (h : Built t) (name : String) (fix : Int) :
    Built (t.modifyMethodSymbols name (·.fixOffset fix))
  | setProc {t : SymbolTableList} (h : Built t) (name : String) (proc : Int) :
    Built (t.modifyCell name fun cell => { cell with proc := proc })
  | fixSizeAndOffset {t : SymbolTableList} (h : Built t) (name : String) (size offset : Int)
    (hsize : int32 size = size) :
    Built (t.modifyCell name fun cell => { cell with size := size, offset := offset })

/-- Without a scope, `addSym` refuses a name or adds an entry to the class. -/
theorem addSym_class {t : SymbolTableList} {name : String} {classType : ClassType}
    {type : Option TypeDesc} {size : Int} (hs : classType = .method ∨ t.scope = 0) :
    let t' := (t.addSym name classType type size true).1
    t'.moduleList = t.moduleList ∧ (t'.symList = t.symList ∨
      (∀ e ∈ t.symList, e.cell.name ≠ name) ∧ t'.symList = t.symList ++
        [⟨{ name := name, classType := classType, type := type, proc := 0,
            offset := int32 (t.offset - size), size := size, globalScope := true }, .empty⟩]) := by
  dsimp only
  unfold SymbolTableList.addSym
  have hscope : (if classType = .method then { t with scope := 0 } else t : SymbolTableList) =
      { t with scope := 0 } := by
    split
    · rfl
    · rw [← hs.resolve_left ‹_›]
  have hget : ({ t with scope := 0 } : SymbolTableList).getSymbol name = t.getSymbol name := by
    rw [SymbolTableList.getSymbol_eq, SymbolTableList.getSymbol_eq]
  rw [hscope]
  dsimp only
  rw [hget]
  by_cases hfound : t.symList ≠ [] ∧ t.getSymbol name ≠ none
  · simp [hfound]
  · have hunknown : ∀ e ∈ t.symList, e.cell.name ≠ name := by
      by_cases hnil : t.symList = []
      · simp [hnil]
      · exact SymbolTableList.unknown_of_getSymbol
          (by by_contra hne; exact hfound ⟨hnil, hne⟩)
    have h1 : ¬ ((0 : Nat) = 0 ∧ t.symList ≠ [] ∧ t.getSymbol name ≠ none) := fun h => hfound h.2
    have h2 : decide ((0 : Nat) = 1 ∧ (SymbolTableList.lastMethodSymbols { t with scope := 0 }).bind
        (·.getSymbol name) ≠ none) = false := by simp
    rw [if_neg h1, h2, if_neg Bool.false_ne_true, if_pos rfl]
    dsimp only
    rw [if_neg Nat.zero_ne_one]
    refine ⟨?_, .inr ⟨hunknown, ?_⟩⟩
    · split <;> rfl
    · split <;> rfl

/-- Below a method, it adds a cell there. -/
theorem addSym_inner {t : SymbolTableList} {name : String} {classType : ClassType}
    {type : Option TypeDesc} {size : Int} (hc : classType ≠ .method) (hs : t.scope ≠ 0) :
    let t' := (t.addSym name classType type size true).1
    t'.moduleList = t.moduleList ∧ (t'.symList = t.symList ∨
      t'.symList = (t.modifyLast (·.addSym name classType type size false)).symList) := by
  dsimp only
  have h1 : ¬ (t.scope = 0 ∧ t.symList ≠ [] ∧ t.getSymbol name ≠ none) := fun h => hs h.1
  unfold SymbolTableList.addSym
  rw [if_neg hc]
  dsimp only
  rw [if_neg h1]
  by_cases hfound : t.scope = 1 ∧ (t.lastMethodSymbols.bind (·.getSymbol name)) ≠ none
  · simp [hfound]
  · rw [decide_eq_false hfound, if_neg Bool.false_ne_true, if_neg hs, if_neg hc]
    split
    · exact ⟨rfl, .inr rfl⟩
    · exact ⟨rfl, .inl rfl⟩

/-- A change of the entries that `Shaped` does not see. -/
theorem Shaped.modify {t t' : SymbolTableList} {i : Nat} {f : SymbolEntry → SymbolEntry}
    (h : Shaped t) (hsym : t'.symList = t.symList.modify i f)
    (hmodules : t'.moduleList = t.moduleList) (hname : ∀ e, (f e).cell.name = e.cell.name)
    (hf : ∀ e, OuterEntry e → OuterEntry (f e)) : Shaped t' := by
  have hnames : (t.symList.modify i f).map (fun e => e.cell.name) =
      t.symList.map fun e => e.cell.name := by
    apply List.ext_getElem (by simp)
    intro j h1 h2
    simp only [List.getElem_map, List.getElem_modify]
    split
    · exact hname _
    · rfl
  refine ⟨?_, by rw [hsym, hnames]; exact h.distinct, by rw [hmodules]; exact h.modules⟩
  rw [hsym]
  intro e he
  obtain ⟨j, hj, rfl⟩ := List.mem_iff_getElem.mp he
  rw [List.getElem_modify]
  split
  · exact hf _ (h.entries _ (List.getElem_mem _))
  · exact h.entries _ (List.getElem_mem _)

theorem plainText_of_isIdentifier {name : String} (h : IsIdentifier name) : PlainText name :=
  fun hc => absurd (h.2 '<' hc) (by decide)

theorem plainText_of_isPath {path : String} (h : IsPath path) : PlainText path :=
  fun hc => absurd (h.2 '<' hc) (by decide)

theorem ParseSymbolFile.OuterEntry.of_cell {e : SymbolEntry} (h : OuterEntry e) {cell : SymbolTableCell}
    (hname : cell.name = e.cell.name) (hscope : cell.globalScope = e.cell.globalScope)
    (hsize : int32 cell.size = cell.size) : OuterEntry { e with cell := cell } where
  name := by
    rw [hname]
    exact h.name
  size := hsize
  outer := by
    rw [hscope]
    exact h.outer
  inner := h.inner

theorem ParseSymbolFile.OuterEntry.of_inner {e : SymbolEntry} (h : OuterEntry e) {symbols : MethodSymbols}
    (hinner : ∀ c ∈ symbols.symList, InnerCell c) : OuterEntry { e with methodSymbols := symbols } :=
  { toWritableCell := h.toWritableCell, outer := h.outer, inner := hinner }

/-- A cell that is added below a method. -/
theorem innerCell_addSym {symbols : MethodSymbols} {name : String} {classType : ClassType}
    {type : Option TypeDesc} {size : Int} (h : ∀ c ∈ symbols.symList, InnerCell c)
    (hname : IsIdentifier name) (hsize : int32 size = size) (hc : classType ≠ .method) :
    ∀ c ∈ (symbols.addSym name classType type size false).symList, InnerCell c := by
  unfold MethodSymbols.addSym
  split
  · exact h
  · intro c hmem
    rcases List.mem_append.mp hmem with hmem | hmem
    · exact h c hmem
    · rw [List.mem_singleton.mp hmem]
      exact { name := plainText_of_isIdentifier hname, size := hsize, inner := rfl, noMethod := hc }

/-- A cell that is changed stays what it is. -/
theorem Shaped.modifyCell {t : SymbolTableList} (h : Shaped t) (name : String)
    {f : SymbolTableCell → SymbolTableCell} (hname : ∀ c, (f c).name = c.name)
    (hscope : ∀ c, (f c).globalScope = c.globalScope)
    (hclass : ∀ c, (f c).classType = c.classType)
    (hsize : ∀ c, int32 c.size = c.size → int32 (f c).size = (f c).size) :
    Shaped (t.modifyCell name f) := by
  unfold SymbolTableList.modifyCell
  split
  · exact h.modify rfl rfl (fun e => hname e.cell)
      fun e he => he.of_cell (hname _) (hscope _) (hsize _ he.size)
  · next j _ =>
    refine h.modify rfl rfl (fun e => rfl) fun e he => he.of_inner fun c hc => ?_
    obtain ⟨k, hk, rfl⟩ := List.mem_iff_getElem.mp hc
    have hk' := he.inner _ (List.getElem_mem (by simpa using hk))
    rw [List.getElem_modify]
    split
    · exact { name := by rw [hname]; exact hk'.name, size := hsize _ hk'.size,
              inner := by rw [hscope]; exact hk'.inner,
              noMethod := by rw [hclass]; exact hk'.noMethod }
    · exact hk'
  · exact h

/-- **Every table that `addSym` builds can be read back, as far as it can be written.** -/
theorem Built.shaped {t : SymbolTableList} (h : Built t) : Shaped t := by
  induction h with
  | empty => exact ⟨by simp [SymbolTableList.empty], by simp [SymbolTableList.empty],
      by simp [SymbolTableList.empty]⟩
  | @addSym t _ name classType type size hname hsize ih =>
    by_cases hs : classType = .method ∨ t.scope = 0
    · obtain ⟨hmodules, hsym | ⟨hfresh, hsym⟩⟩ := @addSym_class t name classType type size hs
      · exact ⟨by rw [hsym]; exact ih.entries, by rw [hsym]; exact ih.distinct,
          by rw [hmodules]; exact ih.modules⟩
      · refine ⟨?_, ?_, by rw [hmodules]; exact ih.modules⟩
        · rw [hsym]
          intro e he
          rcases List.mem_append.mp he with he | he
          · exact ih.entries e he
          · rw [List.mem_singleton.mp he]
            exact { name := plainText_of_isIdentifier hname, size := hsize, outer := rfl,
                    inner := by simp [MethodSymbols.empty] }
        · rw [hsym, List.map_append, List.nodup_append]
          refine ⟨ih.distinct, by simp, fun a ha b hb => ?_⟩
          obtain ⟨e, he, rfl⟩ := List.mem_map.mp ha
          have hb : b = name := by simpa using hb
          rw [hb]
          exact hfresh e he
    · rw [not_or] at hs
      obtain ⟨hmodules, hsym | hsym⟩ := @addSym_inner t name classType type size hs.1 hs.2
      · exact ⟨by rw [hsym]; exact ih.entries, by rw [hsym]; exact ih.distinct,
          by rw [hmodules]; exact ih.modules⟩
      · refine ih.modify hsym hmodules (fun e => rfl) fun e he => he.of_inner ?_
        exact innerCell_addSym he.inner hname hsize hs.1
  | @addModule t _ path hpath ih =>
    unfold SymbolTableList.addModule
    split
    · exact ih
    · refine ⟨ih.entries, ih.distinct, fun m hm => ?_⟩
      rcases List.mem_append.mp hm with hm | hm
      · exact ih.modules m hm
      · rw [List.mem_singleton.mp hm]
        exact plainText_of_isPath hpath
  | fixOffset _ fix ih => exact ⟨ih.entries, ih.distinct, ih.modules⟩
  | fixMethodOffset _ name fix ih =>
    unfold SymbolTableList.modifyMethodSymbols
    split
    · exact ih.modify rfl rfl (fun e => rfl) fun e he => he.of_inner he.inner
    · exact ih
  | setProc _ name proc ih =>
    exact ih.modifyCell name (fun _ => rfl) (fun _ => rfl) (fun _ => rfl) fun _ h => h
  | fixSizeAndOffset _ name size offset hsize ih =>
    exact ih.modifyCell name (fun _ => rfl) (fun _ => rfl) (fun _ => rfl) fun _ _ => hsize

/-- The symbols of a class survive an import exactly if they are methods of typed scalars. -/
theorem symbols_survive_iff {t : SymbolTableList} (h : Built t) : RoundTrips t ↔ Importable t :=
  roundTrips_of_shaped h.shaped

/-- A class with a method that has a parameter. -/
def oneMethod : SymbolTableList :=
  (((SymbolTableList.empty.addSym "f" .method (some .intType) 0 true).1.modifyMethodSymbols "f"
    (·.fixOffset 3)).addSym "n" .var (some .intType) 1 true).1

theorem oneMethod_built : Built oneMethod := by
  refine ((Built.empty.addSym "f" .method (some .intType) 0 ⟨by decide, by simp⟩
    (by decide)).fixMethodOffset "f" 3).addSym "n" .var (some .intType) 1 ⟨by decide, by simp⟩
    (by decide)

theorem oneMethod_survives : RoundTrips oneMethod :=
  (symbols_survive_iff oneMethod_built).mpr
    ⟨by decide, by decide, by decide, by decide⟩

/-- A class with a variable. -/
def oneVariable : SymbolTableList :=
  (SymbolTableList.empty.addSym "x" .var (some .intType) 1 true).1

/-- The variable is read without its size, and the size of the class as 0. -/
theorem variable_not_survives : ¬ ∀ t, Built t → RoundTrips t := by
  intro h
  have hbuilt : Built oneVariable :=
    Built.empty.addSym "x" .var (some .intType) 1 ⟨by decide, by simp⟩ (by decide)
  have hempty := ((roundTrips_of_shaped hbuilt.shaped).mp (h _ hbuilt)).empty
  exact absurd hempty (by decide)

end Compiler
