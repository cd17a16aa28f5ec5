import Bambinos.Compiler.Layout
import Bambinos.Linker.Initialisers
import Bambinos.Vm.Memory

/-!
# The global variables of different modules

Every module is compiled by itself and counts the words of its global variables from 0 on. The linker
moves the code of a module and fixes its calls; the addresses in the loads and stores stay.

* `CompiledClass.AccessAt` — where the code of a module loads or stores a global variable
* `Uses` — the words of such a load or store, in the binary, use an address
* `Isolated` — no address is used by two modules, and a variable is changed in an orderly run by the
  code of its own module only
* `globals_isolated_iff` — that is so when no two modules access the same word
-/

namespace Linker

open Infra Compiler Vm

/-! ## the global variables of a module -/

namespace CompiledClass

/-- The cells of the global variables, as they are in the symbol table. -/
def globals (m : CompiledClass) : List SymbolTableCell :=
  (m.cg.symbolTable.symList.map fun e => e.cell).filter fun c => c.classType != .method

/--
The code of an access to the variable or element `x` stands at the address `i + 1` of the module. A
piece of code can be the access to more than one element.
-/
structure AccessAt (m : CompiledClass) (x : Spot) (g : CodeGenerator) (cell : SymbolTableCell)
    (mode : AccessMode) (i : Nat) : Prop where
  spot : x ∈ spots m.declarations
  declared : cell ∈ m.globals ∧ cell.name = x.name
  free : FreeRegister g x.index
  code : ∀ j e, (accessCode g cell x.index mode)[j]? = some e → m.cg.opCode[i + j]? = some e

/-- A variable or element that is accessed somewhere. A scalar is, by its declaration. -/
def Accessed (m : CompiledClass) (x : Spot) : Prop := ∃ g cell mode i, m.AccessAt x g cell mode i

/-- The words of memory that a module counts for what it accesses. -/
def Counts (m : CompiledClass) (k : Int) : Prop :=
  ∃ x, (x, -k) ∈ places 0 m.declarations ∧ m.Accessed x

end CompiledClass

/-! ## the addresses in the binary -/

/-- Runs some words, the last of which is a load or a store, and returns its address. -/
def wordsAddress : List Word → M Word Word
  | [] => throw .noSuchElement
  | [w] => do
    let f := decode w
    return (← register f.firstSourceValue) + imm f.secondSourceValue
  | w :: rest => do
    dispatch (decode w)
    wordsAddress rest

theorem wordsAddress_map : ∀ es : List OpCodeElement,
    wordsAddress (es.map OpCodeElement.word) = lastAddress es
  | [] => rfl
  | [_] => rfl
  | e :: e' :: rest => by
    show (do dispatch (decode e.word); wordsAddress ((e' :: rest).map OpCodeElement.word)) = _
    rw [wordsAddress_map (e' :: rest)]
    rfl

/-- An address of the binary is inside of the code of a module. -/
def Placed.Contains (p : Placed) (a : Nat) : Prop :=
  p.offset ≤ a ∧ a < p.offset + p.contents.opCode.length

section Modules

variable (classes : String → CompiledClass)

/--
In the binary a load or store of the module uses the address `a` for `x`: the words that stand where
the module was placed are executed.
-/
def Uses (code : Instructions Word) (p : Placed) (x : Spot) (a : Word) : Prop :=
  ∃ g cell mode i fp s s' ws, (classes p.name).AccessAt x g cell mode i ∧
    ws.length = (accessCode g cell x.index mode).length ∧
    (∀ j w, ws[j]? = some w → code[p.image (i + 1) + j]? = some (some w)) ∧
    Ready g fp x.index s ∧ wordsAddress ws s = .ok a s'

/-- A turn of the machine, with the address of the instruction and the address of the word it
writes. -/
def Stores (code : Instructions Word) (s : State Word) (es : List (Nat × Word)) (s' : State Word) :
    Prop :=
  ∃ a w, At code a w s ∧ step decode code w s = .ok () s' ∧
    es = (writes (decode w) s).map fun x => (a, x.1)

/-- The instruction is the store to a scalar of its own module. -/
def OwnScalar (p : Placed) (a : Nat) : Prop :=
  ∃ x g cell i, x.index = none ∧ (classes p.name).AccessAt x g cell .store i ∧ a = p.image (i + 1)

/--
A store is orderly when it is the store to a scalar of its own module, or goes to a word that its own
module uses, or to no global variable at all.
-/
def OrderlyStore (ps : List Placed) (code : Instructions Word) (e : Nat × Word) : Prop :=
  (∃ p ∈ ps, p.Contains e.1 ∧ (OwnScalar classes p e.1 ∨ ∃ x, Uses classes code p x e.2)) ∨
    ∀ q ∈ ps, ∀ y, ¬ Uses classes code q y e.2

/-- A turn with an orderly store. Register 0 is what the global variables are addressed with. -/
def OrderlyStep (ps : List Placed) (code : Instructions Word) (s : State Word)
    (es : List (Nat × Word)) (s' : State Word) : Prop :=
  Stores code s es s' ∧ s.reg heap = some 0 ∧ ∀ e ∈ es, OrderlyStore classes ps code e

/-- The modules of a binary do not get at the global variables of one another. -/
structure Isolated (ps : List Placed) (code : Instructions Word) : Prop where
  disjoint : ∀ p ∈ ps, ∀ q ∈ ps, p ≠ q → ∀ x y a,
    Uses classes code p x a → ¬ Uses classes code q y a
  /-- What changes a variable in an orderly run is an instruction of its own module. -/
  kept : ∀ {n s es s'}, Runs (OrderlyStep classes ps code) n s es s' → ∀ q ∈ ps, ∀ y a,
    Uses classes code q y a → s'.mem a ≠ s.mem a → ∃ e ∈ es, e.2 = a ∧ q.Contains e.1

/-- No two modules count the same word for what they access. -/
def NoCommonWord (ps : List Placed) : Prop :=
  ∀ p ∈ ps, ∀ q ∈ ps, p ≠ q → ∀ k, (classes p.name).Counts k → ¬ (classes q.name).Counts k

end Modules

/-! ## the cells of a compiled class -/

section Cells

variable {m : CompiledClass} {x : Spot} {g : CodeGenerator} {cell : SymbolTableCell}
  {mode : AccessMode} {i : Nat} {d : Int}

/-- The global variables of the symbol table are those that the class declares. -/
theorem CompiledClass.globals_eq (hw : totalWords m.declarations < 2147483648) :
    m.globals = cells true 0 m.declarations ∧ (m.declarations.map Declaration.name).Nodup := by
  obtain ⟨t, es, hdeclared, -, hlist, -, hmethods⟩ := m.code.symbols
  obtain ⟨hcells, hnd⟩ := hdeclared.symList hw
  have hcells' : t.symList.map (fun e => e.cell) = cells true 0 m.declarations := by
    rw [hcells, List.map_map]
    exact List.map_id _
  refine ⟨?_, hnd⟩
  rw [globals, hlist, List.map_append, hcells', List.filter_append]
  have hvars : (cells true 0 m.declarations).filter (fun c => c.classType != .method) =
      cells true 0 m.declarations :=
    List.filter_eq_self.mpr fun c hc => bne_iff_ne.mpr (cells_classType hc)
  have hnone : (es.map fun e => e.cell).filter (fun c => c.classType != .method) = [] := by
    refine List.filter_eq_nil_iff.mpr fun c hc => ?_
    obtain ⟨e, he, rfl⟩ := List.mem_map.mp hc
    rw [hmethods e he]
    decide
  rw [hvars, hnone, List.append_nil]

theorem CompiledClass.AccessAt.mem_cells (h : m.AccessAt x g cell mode i)
    (hw : totalWords m.declarations < 2147483648) : cell ∈ cells true 0 m.declarations :=
  (m.globals_eq hw).1 ▸ h.declared.1

/-- The distance that is written into an access. -/
theorem CompiledClass.AccessAt.fits (h : m.AccessAt x g cell mode i)
    (hw : totalWords m.declarations ≤ maxImmediate) :
    (immediate cell x.index).natAbs ≤ maxImmediate := by
  unfold maxImmediate at hw ⊢
  have hmem := h.mem_cells (by omega)
  have hbound := cells_bound hmem
  have hoffset : int32 (0 - cell.offset) = -cell.offset := by
    rw [zero_sub]
    exact int32_eq (by omega) (by omega)
  have hend : int32 (cell.offset + cell.size) = cell.offset + cell.size :=
    int32_eq (by omega) (by omega)
  have hneg : int32 (0 - (cell.offset + cell.size)) = -(cell.offset + cell.size) := by
    rw [zero_sub]
    exact int32_eq (by omega) (by omega)
  cases hindex : x.index with
  | none =>
    rw [immediate, CodeGenerator.address, if_pos (cells_globalScope hmem), hoffset]
    omega
  | some k =>
    rw [immediate, hend, hneg]
    omega

/-- The code of an access uses the place that the declarations give to the variable. -/
theorem CompiledClass.AccessAt.place_eq (h : m.AccessAt x g cell mode i)
    (hw : totalWords m.declarations < 2147483648) (hd : (x, d) ∈ places 0 m.declarations) :
    place cell x.index = imm (-d) := by
  obtain ⟨hglobals, hnd⟩ := m.globals_eq hw
  obtain ⟨c, hc, hname, hplace⟩ := @place_of_mem true 0 m.declarations (x, d) (by omega) (by decide)
    (fun h => absurd h (by decide)) hd
  have hsame : cell = c := by
    rw [← cells_names true 0] at hnd
    exact List.inj_on_of_nodup_map hnd (h.mem_cells hw) hc (h.declared.2.trans hname.symm)
  rw [hsame]
  exact hplace

/-- The address of an access. -/
theorem CompiledClass.AccessAt.address (h : m.AccessAt x g cell mode i)
    (hw : totalWords m.declarations ≤ maxImmediate) (hd : (x, d) ∈ places 0 m.declarations)
    {fp : Word} {s : State Word} (hready : Ready g fp x.index s) :
    ∃ s', lastAddress (accessCode g cell x.index mode) s = .ok (imm (-d)) s' := by
  have hlt : totalWords m.declarations < 2147483648 := by
    unfold maxImmediate at hw
    omega
  obtain ⟨s', haddress⟩ := access_address hready (h.fits hw) mode
  refine ⟨s', ?_⟩
  rw [haddress, baseOf, cells_globalScope (h.mem_cells hlt), if_pos rfl, h.place_eq hlt hd, zero_add]

end Cells

/-! ## the addresses that the linked code uses -/

section Linked

variable {files : Files} {mainName : String} {main : Contents} {rest : List Placed}
  {instructions : List Word} {classes : String → CompiledClass} {p q : Placed} {x y : Spot}
  {g : CodeGenerator} {cell : SymbolTableCell} {mode : AccessMode} {i : Nat} {a : Word}

/-- The modules of a binary, compiled from source. No address is too large for an instruction. -/
structure Compiled (files : Files) (mainName : String) (main : Contents) (rest : List Placed)
    (classes : String → CompiledClass) (instructions : List Word) : Prop where
  linkable : Linkable files mainName main
  linked : Linked files mainName main rest instructions
  source : FromSource files mainName main classes
  words : ∀ p ∈ mainPlaced mainName main :: rest,
    totalWords (classes p.name).declarations ≤ maxImmediate

/-- **The linker leaves the code of an access as it is.** -/
theorem access_words (h : Compiled files mainName main rest classes instructions)
    (hp : p ∈ mainPlaced mainName main :: rest) (hat : (classes p.name).AccessAt x g cell mode i)
    {j : Nat} {e : OpCodeElement} (he : (accessCode g cell x.index mode)[j]? = some e) :
    (linkedCode instructions)[p.image (i + 1) + j]? = some (some e.word) := by
  have hobject := h.source.isObject h.linked hp
  obtain ⟨hfits, hjumps⟩ := accessCode_fits mode hat.free (hat.fits (h.words p hp)) e
    (List.mem_of_getElem? he)
  have halone : p.alone[i + j + 1]? = some (some e.word) := by
    refine load_getElem?_succ ?_
    rw [hobject.opCode, CodeGenerator.writeOpCode, List.getElem?_map, hat.code j e he]
    rfl
  have hwf : WellFormed p.contents := h.linked.arranged.wellFormed h.linkable hp
  obtain ⟨w, hw, -, hsame⟩ := linkedCode_image h.linked h.linkable hp halone
  rw [hsame (noCall_of_word hwf halone (fits_word hfits hjumps).2)] at hw
  rw [← hw]
  congr 1
  unfold Placed.image
  omega

theorem words_eq (h : Compiled files mainName main rest classes instructions)
    (hp : p ∈ mainPlaced mainName main :: rest) (hat : (classes p.name).AccessAt x g cell mode i)
    {ws : List Word} (hlength : ws.length = (accessCode g cell x.index mode).length)
    (hws : ∀ j w, ws[j]? = some w →
      (linkedCode instructions)[p.image (i + 1) + j]? = some (some w)) :
    ws = (accessCode g cell x.index mode).map OpCodeElement.word := by
  refine List.ext_getElem? fun j => ?_
  rw [List.getElem?_map]
  by_cases hj : j < ws.length
  · have he := List.getElem?_eq_getElem (hlength ▸ hj)
    have hw := List.getElem?_eq_getElem hj
    have hboth := (hws j _ hw).symm.trans (access_words h hp hat he)
    injection hboth with hboth
    rw [hw, he, Option.map_some, hboth]
  · rw [List.getElem?_eq_none (by omega), List.getElem?_eq_none (by omega)]
    rfl

/-- **The addresses that the linked code uses** are the words that its module counted. -/
theorem uses_iff (h : Compiled files mainName main rest classes instructions)
    (hp : p ∈ mainPlaced mainName main :: rest) :
    Uses classes (linkedCode instructions) p x a ↔
      ∃ d, (x, d) ∈ places 0 (classes p.name).declarations ∧ (classes p.name).Accessed x ∧
        a = imm (-d) := by
  constructor
  · rintro ⟨g, cell, mode, i, fp, s, s', ws, hat, hlength, hws, hready, hrun⟩
    have hspot := hat.spot
    rw [← places_spots 0] at hspot
    obtain ⟨⟨y, d⟩, hd, heq⟩ := List.mem_map.mp hspot
    obtain rfl : y = x := heq
    obtain ⟨s₁, haddress⟩ := hat.address (h.words p hp) hd hready
    rw [words_eq h hp hat hlength hws, wordsAddress_map, haddress] at hrun
    injection hrun with ha
    exact ⟨d, hd, ⟨g, cell, mode, i, hat⟩, ha.symm⟩
  · rintro ⟨d, hd, ⟨g, cell, mode, i, hat⟩, rfl⟩
    obtain ⟨s, hready⟩ := hat.free.exists_ready 0
    obtain ⟨s', haddress⟩ := hat.address (h.words p hp) hd hready
    refine ⟨g, cell, mode, i, 0, s, s', (accessCode g cell x.index mode).map OpCodeElement.word, hat,
      List.length_map _, fun j w hw => ?_, hready, by rw [wordsAddress_map, haddress]⟩
    rw [List.getElem?_map, Option.map_eq_some_iff] at hw
    obtain ⟨e, he, rfl⟩ := hw
    exact access_words h hp hat he

theorem places_lt_imm (h : Compiled files mainName main rest classes instructions)
    (hp : p ∈ mainPlaced mainName main :: rest) {d : Int}
    (hd : (x, d) ∈ places 0 (classes p.name).declarations) : 0 ≤ -d ∧ -d < 2147483648 := by
  have hbound := places_bound hd
  have hwords := h.words p hp
  unfold maxImmediate at hwords
  dsimp only at hbound
  omega

theorem uses_nonneg (h : Compiled files mainName main rest classes instructions)
    (hp : p ∈ mainPlaced mainName main :: rest)
    (huses : Uses classes (linkedCode instructions) p x a) : 0 ≤ a.toInt := by
  obtain ⟨d, hd, -, rfl⟩ := (uses_iff h hp).mp huses
  have hbound := places_lt_imm h hp hd
  rw [toInt_imm (by omega)]
  exact hbound.1

/-- A word is counted by a module that uses its address. -/
theorem countedWord_iff (h : Compiled files mainName main rest classes instructions)
    (hp : p ∈ mainPlaced mainName main :: rest) {k : Int} (hk : 0 ≤ k ∧ k < 2147483648) :
    (classes p.name).Counts k ↔ ∃ x, Uses classes (linkedCode instructions) p x (imm k) := by
  simp only [uses_iff h hp]
  constructor
  · rintro ⟨x, hx, hacc⟩
    exact ⟨x, -k, hx, hacc, by rw [neg_neg]⟩
  · rintro ⟨x, d, hd, hacc, heq⟩
    have hbound := places_lt_imm h hp hd
    have hkd : k = -d := imm_injective (by omega) (by omega) heq
    refine ⟨x, ?_, hacc⟩
    rw [hkd, neg_neg]
    exact hd

/-! ## what an orderly run changes -/

variable {s s' : State Word} {es : List (Nat × Word)} {n : Nat}

theorem stores_mem {code : Instructions Word} (h : Stores code s es s') (ha : 0 ≤ a.toInt)
    (hes : ∀ e ∈ es, e.2 ≠ a) : s'.mem a = s.mem a := by
  obtain ⟨p, w, hat, hstep, rfl⟩ := h
  refine mstep_mem ⟨p, w, hat, hstep, rfl⟩ ha fun x hx => ?_
  exact hes (p, x.1) (List.mem_map_of_mem hx)

/-- The store to a scalar of its own module goes to a word of the module. -/
theorem ownScalar_uses (h : Compiled files mainName main rest classes instructions)
    (hp : p ∈ mainPlaced mainName main :: rest)
    (hstores : Stores (linkedCode instructions) s es s') (hzero : s.reg heap = some 0)
    {e : Nat × Word} (he : e ∈ es) (hown : OwnScalar classes p e.1) :
    ∃ x, Uses classes (linkedCode instructions) p x e.2 := by
  obtain ⟨x, g, cell, i, hnone, hat, haddr⟩ := hown
  obtain ⟨a', w, hat', hstep, rfl⟩ := hstores
  obtain ⟨wr, hwr, rfl⟩ := List.mem_map.mp he
  have hlt : totalWords (classes p.name).declarations < 2147483648 := by
    have := h.words p hp
    unfold maxImmediate at this
    omega
  have hmem := hat.mem_cells hlt
  have hspot := hat.spot
  rw [← places_spots 0] at hspot
  obtain ⟨⟨y, d⟩, hd, heq⟩ := List.mem_map.mp hspot
  obtain rfl : y = x := heq
  have hplace : imm (CodeGenerator.address cell).2 = imm (-d) := by
    rw [← hat.place_eq hlt hd, hnone]
    rfl
  have hcode : (accessCode g cell y.index .store)[0]? =
      some (.mk3 .stw g.topReg heap (CodeGenerator.address cell).2) := by
    have hbase : (CodeGenerator.address cell).1 = heap := by
      rw [CodeGenerator.address, if_pos (cells_globalScope hmem)]
    rw [hnone, accessCode_storeWord, hbase]
    rfl
  have hword := access_words h hp hat hcode
  have haddr' : a' = p.image (i + 1) := haddr
  rw [Nat.add_zero, ← haddr'] at hword
  have hfits := (accessCode_fits .store hat.free (hat.fits (h.words p hp)) _
    (List.mem_of_getElem? hcode)).1
  have hwrites : writes (decode w) s =
      [(0 + imm (CodeGenerator.address cell).2, s.reg g.topReg)] := by
    rw [At.word_eq hat' hword, decode_word hfits]
    unfold writes
    have hbase :
        s.reg (fields (.mk3 .stw g.topReg heap (CodeGenerator.address cell).2)).firstSourceValue =
        some 0 := hzero
    rw [hbase]
    rfl
  rw [hwrites] at hwr
  obtain rfl := List.mem_singleton.mp hwr
  refine ⟨y, (uses_iff h hp).mpr ⟨d, hd, ⟨g, cell, .store, i, hat⟩, ?_⟩⟩
  dsimp only
  rw [zero_add, hplace]

/-- **What changes a variable** is an instruction of a module that uses it. -/
theorem changed_by (h : Compiled files mainName main rest classes instructions)
    (hruns : Runs (OrderlyStep classes (mainPlaced mainName main :: rest) (linkedCode instructions))
      n s es s')
    (hq : q ∈ mainPlaced mainName main :: rest)
    (huses : Uses classes (linkedCode instructions) q y a) (hchanged : s'.mem a ≠ s.mem a) :
    ∃ e ∈ es, e.2 = a ∧ ∃ p ∈ mainPlaced mainName main :: rest, p.Contains e.1 ∧
      ∃ x, Uses classes (linkedCode instructions) p x a := by
  have ha := uses_nonneg h hq huses
  induction hruns with
  | nil s => exact absurd rfl hchanged
  | @cons n s s₁ s₂ es es' hstep hrest ih =>
    obtain ⟨hstores, hzero, horderly⟩ := hstep
    by_cases hfirst : ∃ e ∈ es, e.2 = a
    · obtain ⟨e, he, rfl⟩ := hfirst
      refine ⟨e, List.mem_append_left _ he, rfl, ?_⟩
      rcases horderly e he with ⟨p, hp, hcontains, hown | hx⟩ | hnone
      · exact ⟨p, hp, hcontains, ownScalar_uses h hp hstores hzero he hown⟩
      · exact ⟨p, hp, hcontains, hx⟩
      · exact absurd huses (hnone q hq y)
    · have hsame := stores_mem hstores ha fun e he hea => hfirst ⟨e, he, hea⟩
      obtain ⟨e, he, hrest'⟩ := ih (hsame ▸ hchanged)
      exact ⟨e, List.mem_append_right _ he, hrest'⟩

/-! ## modules without a common word -/

theorem isolated_iff_noCommonWord (h : Compiled files mainName main rest classes instructions) :
    Isolated classes (mainPlaced mainName main :: rest) (linkedCode instructions) ↔
      NoCommonWord classes (mainPlaced mainName main :: rest) := by
  constructor
  · intro hisolated p hp q hq hne k hk hk'
    obtain ⟨x, hx, hacc⟩ := hk
    have hbound := places_lt_imm h hp hx
    rw [neg_neg] at hbound
    obtain ⟨x, hx⟩ := (countedWord_iff h hp hbound).mp ⟨x, hx, hacc⟩
    obtain ⟨y, hy⟩ := (countedWord_iff h hq hbound).mp hk'
    exact hisolated.disjoint p hp q hq hne x y _ hx hy
  · intro hno
    have hdisjoint : ∀ p ∈ mainPlaced mainName main :: rest, ∀ q ∈ mainPlaced mainName main :: rest,
        p ≠ q → ∀ x y a, Uses classes (linkedCode instructions) p x a →
          ¬ Uses classes (linkedCode instructions) q y a := by
      intro p hp q hq hne x y a hx hy
      obtain ⟨d, hd, -, rfl⟩ := (uses_iff h hp).mp hx
      have hbound := places_lt_imm h hp hd
      exact hno p hp q hq hne (-d) ((countedWord_iff h hp hbound).mpr ⟨x, hx⟩)
        ((countedWord_iff h hq hbound).mpr ⟨y, hy⟩)
    refine ⟨hdisjoint, fun hruns q hq y a hy hchanged => ?_⟩
    obtain ⟨e, he, hea, p, hp, hcontains, x, hx⟩ := changed_by h hruns hq hy hchanged
    by_cases hpq : p = q
    · exact ⟨e, he, hea, hpq ▸ hcontains⟩
    · exact absurd hy (hdisjoint p hp q hq hpq x y a hx)

end Linked

theorem callsGet_words (n : String) (_h : Reachable callsGetFiles "Main" callsGetObj n) :
    totalWords (callsGetClasses n).declarations ≤ maxImmediate := by
  unfold callsGetClasses
  split <;> decide

/-- The field `int x = n` is the word 1, and its declaration stores there. -/
theorem xField_counts {m : CompiledClass} {n : Int} (hfields : m.fields = [xField n])
    (hglobals : ⟨"x", .var, some .intType, 0, -1, 1, true⟩ ∈ m.globals)
    (hstore : m.cg.opCode[2]? = some (.mk3 .stw 1 0 1)) : m.Counts 1 := by
  have hdeclarations : m.declarations = [.scalar .intType "x"] := by
    unfold CompiledClass.declarations
    rw [hfields]
    rfl
  refine ⟨⟨"x", none⟩, by rw [hdeclarations]; decide, { CodeGenerator.init with topReg := 1 }, _,
    .store, 2, ⟨by rw [hdeclarations]; decide, ⟨hglobals, rfl⟩, ⟨by decide, by decide, nofun⟩, ?_⟩⟩
  intro j e he
  rw [accessCode_storeWord] at he
  obtain ⟨hj, rfl⟩ := List.getElem?_eq_some_iff.mp he
  obtain rfl : j = 0 := by
    rw [List.length_singleton] at hj
    omega
  exact hstore

end Linker
