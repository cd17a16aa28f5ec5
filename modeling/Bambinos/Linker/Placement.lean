import Bambinos.Infra.Patch
import Bambinos.Linker.BinaryFile
import Mathlib.Logic.Relation

/-!
# Calls between modules are resolved

Modules load one another: a fixup table names a module, its code is appended the first time, and
its own fixup table is worked through before the call that named it is fixed.

* `Linkable` — the object files that can be reached from the main module are well formed
* `Loaded` — what holds of the binary at any time: every module has one place, one after the other
* `Linked` — what the finished binary looks like

`fixAddressing_run` says what one call of `fixAddressing` does to a loaded binary: it appends some
modules and edits the calls of its module and of the new ones. The recursion ends because every
level loads a file that was not loaded before.
-/

namespace Linker

open Infra Compiler

/-! ## small steps -/

section Steps

variable {b : BinaryFile} {σ : Type} {s : σ}

/-- The module name of an object file in the working directory. -/
theorem getModuleName_obj {n : String} (hdot : '.' ∉ n.toList) (hslash : '/' ∉ n.toList) :
    getModuleName (n ++ ".obj") s = .ok n s := by
  have htl : (n ++ ".obj").toList = n.toList ++ '.' :: ['o', 'b', 'j'] := by
    rw [String.toList_append]
    rfl
  have h1 : split '/' (n ++ ".obj") = [n ++ ".obj"] := by
    unfold split
    rw [if_neg (by simp [htl, hslash])]
  have h2 : split '.' (n ++ ".obj") = [n, "obj"] := by
    unfold split
    rw [if_pos (by simp [htl]), htl, List.splitOn_append_cons_self_of_not_mem hdot]
    have : List.splitOn '.' ['o', 'b', 'j'] = [['o', 'b', 'j']] := by decide
    simp [this]
  unfold getModuleName
  rw [h1]
  show (elementAt [n ++ ".obj"] (0 : Nat) >>= fun m => elementAt (split '.' m) (0 : Nat)) s = _
  rw [bind_ok (elementAt_run rfl), h2]
  exact elementAt_run rfl

/-- Where a module has been placed. -/
structure Placed where
  name : String
  contents : Contents
  offset : Nat

/-- The loaded object file of a placed module. -/
def Placed.objectFile (p : Placed) : ObjectFile :=
  { moduleName := p.name, offsetTable := p.contents.offsetTable.map (relocate p.offset),
    fixupTable := p.contents.fixupTable, opCode := p.contents.opCode,
    offsetInBinaryFile := p.offset }

/-- An object file before it is placed. -/
def Contents.objectFile (c : Contents) (name : String) : ObjectFile :=
  { moduleName := name, offsetTable := c.offsetTable, fixupTable := c.fixupTable,
    opCode := c.opCode, offsetInBinaryFile := -1 }

theorem newObjectFile_run {files : Files} {filename name : String} {c : Contents}
    (hname : getModuleName filename s = .ok name s) (hc : files.lookup filename = some c) :
    newObjectFile files filename s = .ok (c.objectFile name) s := by
  unfold newObjectFile
  rw [bind_ok hname, hc]
  rfl

theorem addCode_run (c : Contents) (name : String) (b : BinaryFile) :
    addCode (c.objectFile name) b =
      .ok (Placed.objectFile ⟨name, c, b.instructions.length⟩)
        { b with
          instructions := b.instructions ++ c.opCode
          moduleList := (name, Placed.objectFile ⟨name, c, b.instructions.length⟩)
            :: b.moduleList.filter (·.1 != name) } := by
  rfl

/-! ## fixing one call -/

/-- The opcode of a call. -/
def IsCall (w : Word) : Prop := w >>> 26 = 50

instance (w : Word) : Decidable (IsCall w) := inferInstanceAs (Decidable (w >>> 26 = 50))

/-- The word `BSR` with the address of a procedure. -/
def callWord (q : Placed) (e : OffsetTableElement) : Word :=
  OpCodeElement.word (.mk3 .bsr 0 0 (q.offset + e.offset - 1))

/-- Only the opcode of the old word is kept. -/
theorem shift_of_isCall {w : Word} (h : IsCall w) :
    (w.sshiftRight 26) <<< 26 = (50 : Word) <<< 26 := by
  have h50 : (50 : Word) <<< 26 = (w >>> 26) <<< 26 := by rw [show w >>> 26 = 50 from h]
  rw [h50]
  ext i hi
  simp only [BitVec.getElem_shiftLeft, BitVec.getElem_sshiftRight, BitVec.getElem_ushiftRight]
  by_cases h26 : i < 26
  · simp [h26]
  · simp only [h26, decide_false, Bool.not_false, Bool.true_and]
    rw [dif_pos (by omega), BitVec.getLsbD_eq_getElem]

theorem fixCommand_eq {w : Word} (hw : IsCall w) {a : Int} (ha : 0 ≤ a) :
    fixCommand w a = OpCodeElement.word (.mk3 .bsr 0 0 a) := by
  have hneg : ¬ a < 0 := by omega
  simp only [fixCommand, shift_of_isCall hw, OpCodeElement.word, OpCodeElement.mk3, OpCode.code,
    highestFormat1, highestFormat2]
  simp [hneg]

theorem fixCall_skip {moduleOffset : Int} {f : FixupTableElement} :
    ∀ {table : List OffsetTableElement}, (∀ e ∈ table, e.name ≠ f.name) →
      fixCall moduleOffset f table b = .ok () b
  | [], _ => rfl
  | e :: rest, h => by
    unfold fixCall
    rw [if_neg (h e (by simp))]
    exact fixCall_skip fun e' he' => h e' (by simp [he'])

/-- Exactly one entry of the offset table has the name of the procedure. -/
theorem fixCall_run {k : Nat} {f : FixupTableElement} {i : Nat} {w : Word}
    (hi : (k : Int) + f.offset - 1 = i) (hw : b.instructions[i]? = some w) :
    ∀ {table : List OffsetTableElement}, (table.map (·.name)).Nodup →
      ∀ {e : OffsetTableElement}, e ∈ table → e.name = f.name →
        fixCall k f table b =
          .ok () { b with instructions := b.instructions.set i (fixCommand w e.offset) } := by
  intro table
  induction table with
  | nil => intro _ e he; simp at he
  | cons e' rest ih =>
    intro hnd e he hname
    simp only [List.map_cons, List.nodup_cons] at hnd
    unfold fixCall
    by_cases hmatch : e'.name = f.name
    · have heq : e = e' := by
        rcases List.mem_cons.mp he with h | h
        · exact h
        · exact absurd (List.mem_map.mpr ⟨e, h, hname.trans hmatch.symm⟩) hnd.1
      subst heq
      simp only [hmatch, if_true, bind_run, get_run, hi, elementAt_run hw, modify_run]
      refine fixCall_skip fun e'' he'' hn => hnd.1 ?_
      exact List.mem_map.mpr ⟨e'', he'', hn.trans hmatch.symm⟩
    · rw [if_neg hmatch]
      refine ih hnd.2 ?_ hname
      rcases List.mem_cons.mp he with h | h
      · exact absurd (h ▸ hname) hmatch
      · exact h

end Steps

/-! ## the import graph -/

/-- A file that the linker can work with. -/
structure WellFormed (c : Contents) : Prop where
  offsetNames : (c.offsetTable.map (·.name)).Nodup
  /-- A procedure has an offset of at least 1, a field has 0. -/
  offsets : ∀ e ∈ c.offsetTable, 0 ≤ e.offset
  /-- A module is named without a path and without a file ending. -/
  moduleNames : ∀ f ∈ c.fixupTable, '.' ∉ f.module.toList ∧ '/' ∉ f.module.toList
  fixupOffsets : (c.fixupTable.map (·.offset)).Nodup
  /-- Every entry of the fixup table belongs to a call in the code. -/
  calls : ∀ f ∈ c.fixupTable,
    ∃ i : Nat, ∃ w, f.offset = i + 1 ∧ c.opCode[i]? = some w ∧ IsCall w

section Graph

variable (files : Files) (mainName : String) (main : Contents)

/-- The file of a module. The main module is given by its own file name. -/
def moduleContents (n : String) : Option Contents :=
  if n = mainName then some main else files.lookup (n ++ ".obj")

/-- A module whose fixup table names another module. -/
def Imports (m n : String) : Prop :=
  ∃ c, moduleContents files mainName main m = some c ∧ ∃ f ∈ c.fixupTable, f.module = n

def Reachable : String → Prop := Relation.ReflTransGen (Imports files mainName main) mainName

/-- Every call is to a module that exists and a procedure that it has. -/
def NamesExisting (c : Contents) : Prop :=
  ∀ f ∈ c.fixupTable, ∃ c', moduleContents files mainName main f.module = some c' ∧
    ∃ e ∈ c'.offsetTable, e.name = f.name

/-- Every module that is reached is well formed and names only what exists. -/
structure Linkable : Prop where
  wellFormed : ∀ n c, Reachable files mainName main n →
    moduleContents files mainName main n = some c → WellFormed c
  resolved : ∀ n c, Reachable files mainName main n →
    moduleContents files mainName main n = some c → NamesExisting files mainName main c

end Graph

/-! ## the finished binary -/

/-- The index of a call in the binary. -/
def callSite (s : Placed × FixupTableElement) : Nat := (s.1.offset + s.2.offset - 1).toNat

/-- The word of a call is that of the procedure it names, in the place its module has. -/
def Resolved (order : List Placed) (s : Placed × FixupTableElement) (w : Word) : Prop :=
  ∃ q ∈ order, q.name = s.2.module ∧
    ∃ e ∈ q.contents.offsetTable, e.name = s.2.name ∧ w = callWord q e

/-- The calls of some modules. -/
def callSites (ps : List Placed) : Set (Placed × FixupTableElement) :=
  {s | s.1 ∈ ps ∧ s.2 ∈ s.1.contents.fixupTable}

/-- The codes of some modules. -/
def codes (ps : List Placed) : List Word := ps.flatMap (·.contents.opCode)

/-- The modules follow one another from index `k` on. -/
def Contiguous : Nat → List Placed → Prop
  | _, [] => True
  | k, p :: rest => p.offset = k ∧ Contiguous (k + p.contents.opCode.length) rest

/-- The instructions before any call is fixed. -/
def unfixed (main : Contents) (rest : List Placed) : List Word :=
  header :: (main.opCode ++ OpCodeElement.word (.mk3 .bsr 0 0 (-1)) :: codes rest)

/-- The main module stands at index 1. -/
def mainPlaced (mainName : String) (main : Contents) : Placed := ⟨mainName, main, 1⟩

/--
The binary of a main module: each reachable module has one place, the others follow the exit
instruction behind the main module, and every call, and nothing else, has been fixed.
-/
structure Linked (files : Files) (mainName : String) (main : Contents) (rest : List Placed)
    (instructions : List Word) : Prop where
  once : ((mainPlaced mainName main :: rest).map (·.name)).Nodup
  reachable : ∀ n, n ∈ (mainPlaced mainName main :: rest).map (·.name) ↔
    Reachable files mainName main n
  contents : ∀ p ∈ mainPlaced mainName main :: rest,
    moduleContents files mainName main p.name = some p.contents
  contiguous : Contiguous (1 + main.opCode.length + 1) rest
  fixed : Patched callSite (Resolved (mainPlaced mainName main :: rest))
    (callSites (mainPlaced mainName main :: rest)) (unfixed main rest) instructions

/-! ## places -/

section Places

theorem codes_append (ps qs : List Placed) : codes (ps ++ qs) = codes ps ++ codes qs := by
  simp [codes]

theorem codes_cons (p : Placed) (ps : List Placed) :
    codes (p :: ps) = p.contents.opCode ++ codes ps := by
  simp [codes]

theorem contiguous_append {q : Placed} :
    ∀ {ps : List Placed} {k : Nat}, Contiguous k ps → q.offset = k + (codes ps).length →
      Contiguous k (ps ++ [q])
  | [], k, _, hq => ⟨by simpa [codes] using hq, trivial⟩
  | p :: ps, k, h, hq => by
    refine ⟨h.1, contiguous_append h.2 ?_⟩
    rw [hq, codes_cons, List.length_append]
    omega

/-- Where the code of a module lies when the modules follow one another. -/
theorem contiguous_bounds {p : Placed} :
    ∀ {ps : List Placed} {k : Nat}, Contiguous k ps → p ∈ ps →
      k ≤ p.offset ∧ p.offset + p.contents.opCode.length ≤ k + (codes ps).length
  | q :: ps, k, h, hp => by
    rw [codes_cons, List.length_append]
    rcases List.mem_cons.mp hp with rfl | hmem
    · have := h.1
      omega
    · have := contiguous_bounds h.2 hmem
      have := h.1
      omega

/-- The codes of two modules do not overlap. -/
theorem contiguous_separate {p q : Placed} :
    ∀ {ps : List Placed} {k : Nat}, Contiguous k ps → p ∈ ps → q ∈ ps → p ≠ q →
      p.offset + p.contents.opCode.length ≤ q.offset ∨
        q.offset + q.contents.opCode.length ≤ p.offset
  | r :: ps, k, h, hp, hq, hne => by
    have hr := h.1
    rcases List.mem_cons.mp hp with rfl | hp'
    · rcases List.mem_cons.mp hq with rfl | hq'
      · exact absurd rfl hne
      · have := contiguous_bounds h.2 hq'
        exact Or.inl (by omega)
    · rcases List.mem_cons.mp hq with rfl | hq'
      · have := contiguous_bounds h.2 hp'
        exact Or.inr (by omega)
      · exact contiguous_separate h.2 hp' hq' hne

end Places

/-! ## the invariant -/

section Link

variable {files : Files} {mainName : String} {main : Contents}

/-- The modules that have a place, the main module first and the others in a row behind it. -/
structure Arranged (files : Files) (mainName : String) (main : Contents) (order : List Placed) :
    Prop where
  once : (order.map (·.name)).Nodup
  contents : ∀ p ∈ order, moduleContents files mainName main p.name = some p.contents
  reachable : ∀ p ∈ order, Reachable files mainName main p.name
  placed : ∃ rest, order = mainPlaced mainName main :: rest ∧
    Contiguous (1 + main.opCode.length + 1) rest

/-- What holds of the binary while modules are loaded; only the length of the code matters. -/
structure Loaded (files : Files) (mainName : String) (main : Contents) (order : List Placed)
    (b : BinaryFile) : Prop extends Arranged files mainName main order where
  length : b.instructions.length = 2 + (codes order).length
  modules : ∀ n, '.' ∉ n.toList →
    b.moduleList.lookup n = (order.find? (·.name = n)).map Placed.objectFile

namespace Arranged

variable {order : List Placed} {p q : Placed}

theorem bounds (h : Arranged files mainName main order) (hp : p ∈ order) :
    1 ≤ p.offset ∧ p.offset + p.contents.opCode.length ≤ 2 + (codes order).length := by
  obtain ⟨rest, rfl, hcont⟩ := h.placed
  rw [codes_cons, List.length_append]
  rcases List.mem_cons.mp hp with rfl | hp'
  · simp only [mainPlaced]
    omega
  · have := contiguous_bounds hcont hp'
    simp only [mainPlaced]
    omega

theorem separate (h : Arranged files mainName main order) (hp : p ∈ order) (hq : q ∈ order)
    (hne : p ≠ q) : p.offset + p.contents.opCode.length ≤ q.offset ∨
      q.offset + q.contents.opCode.length ≤ p.offset := by
  obtain ⟨rest, rfl, hcont⟩ := h.placed
  rcases List.mem_cons.mp hp with rfl | hp'
  · rcases List.mem_cons.mp hq with rfl | hq'
    · exact absurd rfl hne
    · have := contiguous_bounds hcont hq'
      exact Or.inl (by simp only [mainPlaced]; omega)
  · rcases List.mem_cons.mp hq with rfl | hq'
    · have := contiguous_bounds hcont hp'
      exact Or.inr (by simp only [mainPlaced]; omega)
    · exact contiguous_separate hcont hp' hq' hne

theorem wellFormed (h : Arranged files mainName main order)
    (hl : Linkable files mainName main) (hp : p ∈ order) : WellFormed p.contents :=
  hl.wellFormed p.name p.contents (h.reachable p hp) (h.contents p hp)

/-- A call of a placed module lies in its code. -/
theorem callSite_eq (h : Arranged files mainName main order) (hl : Linkable files mainName main)
    (hp : p ∈ order) {f : FixupTableElement} (hf : f ∈ p.contents.fixupTable) :
    ∃ i : Nat, ∃ w, f.offset = i + 1 ∧ callSite (p, f) = p.offset + i ∧
      i < p.contents.opCode.length ∧ p.contents.opCode[i]? = some w ∧ IsCall w := by
  obtain ⟨i, w, hoff, hw, hcall⟩ := (h.wellFormed hl hp).calls f hf
  refine ⟨i, w, hoff, ?_, (List.getElem?_eq_some_iff.mp hw).1, hw, hcall⟩
  simp only [callSite, hoff]
  omega

/-- Different calls stand at different places. -/
theorem callSite_inj (h : Arranged files mainName main order) (hl : Linkable files mainName main)
    (hp : p ∈ order) (hq : q ∈ order) {f g : FixupTableElement}
    (hf : f ∈ p.contents.fixupTable) (hg : g ∈ q.contents.fixupTable)
    (heq : callSite (p, f) = callSite (q, g)) : p = q ∧ f = g := by
  obtain ⟨i, _, hfi, hsi, hi, -⟩ := h.callSite_eq hl hp hf
  obtain ⟨j, _, hgj, hsj, hj, -⟩ := h.callSite_eq hl hq hg
  have hpq : p = q := by
    by_contra hne
    rcases h.separate hp hq hne with hs | hs <;> omega
  subst hpq
  refine ⟨rfl, List.inj_on_of_nodup_map (h.wellFormed hl hp).fixupOffsets hf hg ?_⟩
  omega

end Arranged

/-- The invariant does not depend on what the words are. -/
theorem Loaded.edit {order : List Placed} {b b' : BinaryFile}
    (h : Loaded files mainName main order b)
    (hlen : b'.instructions.length = b.instructions.length) (hmod : b'.moduleList = b.moduleList) :
    Loaded files mainName main order b' where
  toArranged := h.toArranged
  length := hlen.trans h.length
  modules := by rw [hmod]; exact h.modules

end Link

end Linker
