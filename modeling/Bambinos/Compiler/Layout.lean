import Bambinos.Compiler.Declarations
import Bambinos.Vm.Encoding
import Bambinos.Vm.Frame
import Bambinos.Vm.Instructions

/-!
# Where the variables lie

The address that the written code of an access computes, for scalars and for the elements of
arrays, and when these addresses are apart. An element lies one word above the place that its array
was given: the element 0 takes the word of what was declared before.

* `Accesses` — the code for a variable or an element uses an address
* `Writable` — the distance in that code fits into an instruction
* `accesses_iff` — that address, from the cell
* `layout_proper_iff` — when the addresses of a scope are apart and inside the frame
-/

namespace Compiler

open Infra Vm

/-! ## the code of an access -/

/-- An access reads or writes. -/
inductive AccessMode where
  | load | store
deriving DecidableEq, Repr

/--
The code generator behind an access: to a scalar, or to an element whose index is in the last
register. The value that is stored into an element is in the register after it.
-/
def CodeGenerator.access (g : CodeGenerator) (cell : SymbolTableCell) :
    Option Nat → AccessMode → CodeGenerator
  | none, .load => g.loadWordType cell
  | none, .store => g.storeWord cell
  | some _, .load => (g.selectElement cell).loadWordArray cell.globalScope
  | some _, .store => (g.selectElement cell).increaseReg.storeWordArray cell.globalScope

/-- The instructions of an access. -/
def accessCode (g : CodeGenerator) (cell : SymbolTableCell) (index : Option Nat)
    (mode : AccessMode) : List OpCodeElement :=
  (g.access cell index mode).opCode.drop g.opCode.length

/--
Runs the words that are written for the code, up to the last instruction, a load or a store, and
returns its address.
-/
def lastAddress : List OpCodeElement → M Word Word
  | [] => throw .noSuchElement
  | [e] => do
    let f := decode e.word
    return (← register f.firstSourceValue) + imm f.secondSourceValue
  | e :: rest => do
    dispatch (decode e.word)
    lastAddress rest

/-- The register of the code generator in front of an access. An index is in the last register. -/
structure FreeRegister (g : CodeGenerator) (index : Option Nat) : Prop where
  low : 0 ≤ g.topReg
  high : g.topReg < Compiler.fp
  element : ∀ i, index = some i → 1 ≤ g.topReg

/-- A machine in front of an access: the index is in the last register. -/
structure Ready (g : CodeGenerator) (fp : Word) (index : Option Nat) (s : State Word) : Prop
    extends FreeRegister g index where
  zero : s.reg 0 = some 0
  frame : s.reg Compiler.fp = some fp
  indexed : ∀ i, index = some i → s.reg g.topReg = some (BitVec.ofNat 32 i)

/-! ## its address -/

/-- The instructions of `selectElement`. -/
def selectCode (cell : SymbolTableCell) (r : Int) : List OpCodeElement :=
  (if int32 (cell.offset + cell.size) < 0 then
      [.mk3 .addi r r (int32 (0 - int32 (cell.offset + cell.size)))]
    else []) ++
    if cell.globalScope = false then [.mk3 .sub r 0 r] else []

theorem selectElement_eq (g : CodeGenerator) (cell : SymbolTableCell) :
    (g.selectElement cell).opCode = g.opCode ++ selectCode cell g.topReg ∧
      (g.selectElement cell).topReg = g.topReg := by
  unfold CodeGenerator.selectElement selectCode
  by_cases hc : int32 (cell.offset + cell.size) < 0 <;> cases hg : cell.globalScope <;>
    simp [hc, CodeGenerator.putImOp2Reg, CodeGenerator.invertValofLastReg,
      CodeGenerator.putOpCode, CodeGenerator.getCurrentReg]

/-- How far the register of the index is moved from the index. -/
def elementOffset (cell : SymbolTableCell) (i : Word) : Word :=
  let calcOffset := int32 (cell.offset + cell.size)
  let i := if calcOffset < 0 then i + imm (int32 (0 - calcOffset)) else i
  if cell.globalScope = false then 0 - i else i

/-- The distance of a variable or an element from its base. -/
def place (cell : SymbolTableCell) : Option Nat → Word
  | none => imm (CodeGenerator.address cell).2
  | some i => elementOffset cell (BitVec.ofNat 32 i)

/-- The distance that the code of an access writes into an instruction. -/
def immediate (cell : SymbolTableCell) : Option Nat → Int
  | none => (CodeGenerator.address cell).2
  | some _ => int32 (0 - int32 (cell.offset + cell.size))

/-- The value of the base register. -/
def baseOf (cell : SymbolTableCell) (fp : Word) : Word := if cell.globalScope then 0 else fp

section Run

variable {g : CodeGenerator} {cell : SymbolTableCell} {fp : Word} {s s' : State Word}
  {r : Int} {i : Word} {e e' : OpCodeElement} {rest : List OpCodeElement}

theorem lastAddress_cons (hfits : OperandsFit e) (h : dispatch (fields e) s = .ok () s') :
    lastAddress (e :: e' :: rest) s = lastAddress (e' :: rest) s' := by
  rw [← decode_word hfits] at h
  exact bind_ok h

/-- What an access needs of the registers, once the index is `i`. -/
structure Holds (r : Int) (fp : Word) (i : Word) (s : State Word) : Prop where
  zero : s.reg 0 = some 0
  frame : s.reg Compiler.fp = some fp
  index : s.reg r = some i

theorem Holds.setReg {i' : Word} (h : Holds r fp i s) (hlow : 1 ≤ r) (hhigh : r < Compiler.fp) :
    Holds r fp i' (s.setReg r (some i')) where
  zero := by
    rw [State.reg_setReg (by omega) (by omega), if_neg (by omega)]
    exact h.zero
  frame := by
    rw [State.reg_setReg (by omega) (by decide), if_neg (by omega)]
    exact h.frame
  index := State.reg_setReg_self

/-- An instruction that is only written if `c`. -/
theorem lastAddress_if {c : Prop} [Decidable c] {e₀ : OpCodeElement} (hfits : OperandsFit e₀)
    (h : dispatch (fields e₀) s = .ok () s') :
    lastAddress ((if c then [e₀] else []) ++ e :: rest) s =
      lastAddress (e :: rest) (if c then s' else s) := by
  by_cases hc : c
  · simp only [if_pos hc, List.singleton_append]
    exact lastAddress_cons hfits h
  · simp only [if_neg hc, List.nil_append]

/-- The code of `selectElement` turns the index into the distance from the base. -/
theorem selectCode_run (h : Holds r fp i s) (hlow : 1 ≤ r) (hhigh : r < Compiler.fp)
    (hfits : (int32 (0 - int32 (cell.offset + cell.size))).natAbs ≤ maxImmediate) :
    ∃ s', lastAddress (selectCode cell r ++ e :: rest) s = lastAddress (e :: rest) s' ∧
      Holds r fp (elementOffset cell i) s' := by
  unfold Compiler.fp at hhigh
  have hr : IsRegister r := ⟨by omega, by unfold registerCount; omega⟩
  have hfield : RegisterField r := ⟨by omega, by omega⟩
  have h0 : IsRegister 0 := by decide
  have haddFits : OperandsFit (.mk3 .addi r r (int32 (0 - int32 (cell.offset + cell.size)))) :=
    operandsFit_format1 (by decide) hfield hfield hfits
  have hsubFits : OperandsFit (.mk3 .sub r 0 r) :=
    operandsFit_format2 (by decide) hfield (by decide) hfield
  have hadd : ∀ k, dispatch (fields (.mk3 .addi r r k)) s =
      .ok () (s.setReg r (some (i + imm k))) := fun k => executeADDI_run hr hr h.index
  have hstep : ∀ k (c : Prop) [Decidable c],
      Holds r fp (if c then i + imm k else i) (if c then s.setReg r (some (i + imm k)) else s) := by
    intro k c _
    by_cases hc : c
    · rw [if_pos hc, if_pos hc]
      exact h.setReg hlow hhigh
    · rw [if_neg hc, if_neg hc]
      exact h
  unfold selectCode elementOffset
  cases hg : cell.globalScope with
  | true =>
    simp only [Bool.true_eq_false, if_false, List.append_nil]
    exact ⟨_, lastAddress_if haddFits (hadd _), hstep _ _⟩
  | false =>
    simp only [if_true, List.append_assoc, List.singleton_append]
    rw [lastAddress_if haddFits (hadd _)]
    have hsum := hstep (int32 (0 - int32 (cell.offset + cell.size)))
      (int32 (cell.offset + cell.size) < 0)
    exact ⟨_, lastAddress_cons hsubFits (executeSUB_run hr h0 hr hsum.zero hsum.index),
      hsum.setReg hlow hhigh⟩

/-- The base register of an element. -/
def elementBase (cell : SymbolTableCell) : Int := if cell.globalScope then heap else Compiler.fp

/-- The last instruction of an access: its base register and its distance. -/
structure LastAccess (e : OpCodeElement) (base distance : Int) : Prop where
  fits : OperandsFit e
  straight : ¬ Jumps e.instruction.code
  base : (decode e.word).firstSourceValue = base
  distance : (decode e.word).secondSourceValue = distance

theorem lastAccess_load {r b c : Int} (hfits : OperandsFit (.mk3 .ldw r b c)) :
    LastAccess (.mk3 .ldw r b c) b c where
  fits := hfits
  straight := (by decide : ¬ Jumps OpCode.ldw.code)
  base := by rw [decode_word hfits]; rfl
  distance := by rw [decode_word hfits]; rfl

theorem lastAccess_store {r b c : Int} (hfits : OperandsFit (.mk3 .stw r b c)) :
    LastAccess (.mk3 .stw r b c) b c where
  fits := hfits
  straight := (by decide : ¬ Jumps OpCode.stw.code)
  base := by rw [decode_word hfits]; rfl
  distance := by rw [decode_word hfits]; rfl

/-- The code of an access to an element. -/
theorem accessCode_element (g : CodeGenerator) (cell : SymbolTableCell) (k : Nat)
    (mode : AccessMode) (h : FreeRegister g (some k)) :
    ∃ e : OpCodeElement, LastAccess e g.topReg 0 ∧ accessCode g cell (some k) mode =
      selectCode cell g.topReg ++ [.mk3 .add g.topReg (elementBase cell) g.topReg, e] := by
  obtain ⟨hcode, htop⟩ := selectElement_eq g cell
  have hlow := h.element k rfl
  have hhigh : g.topReg < 29 := h.high
  have hfield : RegisterField g.topReg := ⟨by omega, by omega⟩
  unfold accessCode
  cases mode with
  | load =>
    refine ⟨.mk3 .ldw g.topReg g.topReg 0,
      lastAccess_load (operandsFit_format1 (by decide) hfield hfield (by decide)), ?_⟩
    simp [CodeGenerator.access, CodeGenerator.loadWordArray, CodeGenerator.putOpCode,
      CodeGenerator.getCurrentReg, hcode, htop, elementBase]
  | store =>
    refine ⟨.mk3 .stw (g.topReg + 1) g.topReg 0,
      lastAccess_store (operandsFit_format1 (by decide) ⟨by omega, by omega⟩ hfield (by decide)), ?_⟩
    simp [CodeGenerator.access, CodeGenerator.storeWordArray, CodeGenerator.putOpCode,
      CodeGenerator.getCurrentReg, CodeGenerator.increaseReg, CodeGenerator.decreaseReg, hcode,
      htop, elementBase]

theorem accessCode_storeWord (g : CodeGenerator) (cell : SymbolTableCell) :
    accessCode g cell none .store =
      [.mk3 .stw g.topReg (CodeGenerator.address cell).1 (CodeGenerator.address cell).2] := by
  simp [accessCode, CodeGenerator.access, CodeGenerator.storeWord, CodeGenerator.putOpCode,
    CodeGenerator.getCurrentReg, CodeGenerator.decreaseReg]

/-- The code of an access to a scalar. -/
theorem accessCode_scalar (g : CodeGenerator) (cell : SymbolTableCell) (mode : AccessMode)
    (h : FreeRegister g none) (hfits : (CodeGenerator.address cell).2.natAbs ≤ maxImmediate) :
    ∃ e : OpCodeElement,
      LastAccess e (CodeGenerator.address cell).1 (CodeGenerator.address cell).2 ∧
        accessCode g cell none mode = [e] := by
  have hlow := h.low
  have hhigh : g.topReg < 29 := h.high
  have hbase : RegisterField (CodeGenerator.address cell).1 := by
    unfold CodeGenerator.address
    split
    · exact (by decide : RegisterField heap)
    · exact (by decide : RegisterField Compiler.fp)
  unfold accessCode
  cases mode with
  | load =>
    refine ⟨_, lastAccess_load (r := g.topReg + 1)
      (operandsFit_format1 (by decide) ⟨by omega, by omega⟩ hbase hfits), ?_⟩
    simp [CodeGenerator.access, CodeGenerator.loadWordType, CodeGenerator.putOpCode,
      CodeGenerator.increaseReg]
  | store =>
    exact ⟨_, lastAccess_store (operandsFit_format1 (by decide) ⟨by omega, by omega⟩ hbase hfits),
      accessCode_storeWord g cell⟩

theorem lastAddress_single {v : Word} (hb : IsRegister (decode e.word).firstSourceValue)
    (hv : s.reg (decode e.word).firstSourceValue = some v) :
    lastAddress [e] s = .ok (v + imm (decode e.word).secondSourceValue) s := by
  unfold lastAddress
  dsimp only
  rw [bind_ok (register_run hb hv)]
  rfl

theorem selectCode_fits (hr : RegisterField r)
    (hfits : (int32 (0 - int32 (cell.offset + cell.size))).natAbs ≤ maxImmediate) :
    ∀ e ∈ selectCode cell r, OperandsFit e ∧ ¬ Jumps e.instruction.code := by
  intro e he
  unfold selectCode at he
  rcases List.mem_append.mp he with hmem | hmem
  · split at hmem
    · rw [List.mem_singleton.mp hmem]
      exact ⟨operandsFit_format1 (by decide) hr hr hfits, (by decide : ¬ Jumps OpCode.addi.code)⟩
    · cases hmem
  · split at hmem
    · rw [List.mem_singleton.mp hmem]
      exact ⟨operandsFit_format2 (by decide) hr (by decide) hr, (by decide : ¬ Jumps OpCode.sub.code)⟩
    · cases hmem

theorem elementBase_field (cell : SymbolTableCell) : RegisterField (elementBase cell) := by
  unfold elementBase
  split <;> decide

/-- No instruction of an access jumps, and all are encodable when the distance is. -/
theorem accessCode_fits {index : Option Nat} (mode : AccessMode) (h : FreeRegister g index)
    (hfits : (immediate cell index).natAbs ≤ maxImmediate) :
    ∀ e ∈ accessCode g cell index mode, OperandsFit e ∧ ¬ Jumps e.instruction.code := by
  intro e he
  cases index with
  | none =>
    obtain ⟨e', hlast, hcode⟩ := accessCode_scalar g cell mode h hfits
    rw [hcode] at he
    rw [List.mem_singleton.mp he]
    exact ⟨hlast.fits, hlast.straight⟩
  | some k =>
    obtain ⟨e', hlast, hcode⟩ := accessCode_element g cell k mode h
    have hlow := h.element k rfl
    have hhigh : g.topReg < 29 := h.high
    have hfield : RegisterField g.topReg := ⟨by omega, by omega⟩
    rw [hcode] at he
    rcases List.mem_append.mp he with hmem | hmem
    · exact selectCode_fits hfield hfits e hmem
    · simp only [List.mem_cons, List.not_mem_nil, or_false] at hmem
      rcases hmem with rfl | rfl
      · exact ⟨operandsFit_format2 (by decide) hfield (elementBase_field cell) hfield,
          (by decide : ¬ Jumps OpCode.add.code)⟩
      · exact ⟨hlast.fits, hlast.straight⟩

/-- **The address of an access.** -/
theorem access_address {index : Option Nat} (h : Ready g fp index s)
    (hfits : (immediate cell index).natAbs ≤ maxImmediate) (mode : AccessMode) :
    ∃ s', lastAddress (accessCode g cell index mode) s =
      .ok (baseOf cell fp + place cell index) s' := by
  have h0 : IsRegister 0 := by decide
  have hf : IsRegister Compiler.fp := by decide
  cases index with
  | none =>
    obtain ⟨e, hlast, hcode⟩ := accessCode_scalar g cell mode h.toFreeRegister hfits
    -- a scalar is accessed by one instruction, from 0 or from the frame pointer
    rw [hcode]
    refine ⟨s, ?_⟩
    have hb := hlast.base
    have hc := hlast.distance
    unfold baseOf place
    rw [← hc]
    cases hg : cell.globalScope with
    | true =>
      have hb0 : (decode e.word).firstSourceValue = 0 := by
        rw [hb]
        simp [CodeGenerator.address, hg, heap]
      exact lastAddress_single (by rw [hb0]; exact h0) (by rw [hb0]; exact h.zero)
    | false =>
      have hbf : (decode e.word).firstSourceValue = Compiler.fp := by
        rw [hb]
        simp [CodeGenerator.address, hg]
      exact lastAddress_single (by rw [hbf]; exact hf) (by rw [hbf]; exact h.frame)
  | some k =>
    -- for an element the offset is first computed into the top register, and the base is added
    obtain ⟨e, hlast, hcode⟩ := accessCode_element g cell k mode h.toFreeRegister
    have heb := hlast.base
    have hec := hlast.distance
    have hlow := h.element k rfl
    have hhigh : g.topReg < 29 := h.high
    have hr : IsRegister g.topReg := ⟨by omega, by unfold registerCount; omega⟩
    have hfield : RegisterField g.topReg := ⟨by omega, by omega⟩
    obtain ⟨s₁, hrun, hholds⟩ := @selectCode_run cell fp s g.topReg (BitVec.ofNat 32 k)
      (.mk3 .add g.topReg (elementBase cell) g.topReg) [e] ⟨h.zero, h.frame, h.indexed k rfl⟩
      hlow h.high hfits
    rw [hcode, hrun]
    have hbase : IsRegister (elementBase cell) ∧
        s₁.reg (elementBase cell) = some (baseOf cell fp) := by
      unfold elementBase baseOf
      cases cell.globalScope with
      | true => exact ⟨h0, hholds.zero⟩
      | false => exact ⟨hf, hholds.frame⟩
    have haddFits : OperandsFit (.mk3 .add g.topReg (elementBase cell) g.topReg) :=
      operandsFit_format2 (by decide) hfield (elementBase_field cell) hfield
    have hadd : dispatch (fields (.mk3 .add g.topReg (elementBase cell) g.topReg)) s₁ =
        .ok () (s₁.setReg g.topReg
          (some (baseOf cell fp + elementOffset cell (BitVec.ofNat 32 k)))) :=
      executeADD_run hr hbase.1 hr hbase.2 hholds.index
    refine ⟨s₁.setReg g.topReg
      (some (baseOf cell fp + elementOffset cell (BitVec.ofNat 32 k))), ?_⟩
    rw [lastAddress_cons haddFits hadd, lastAddress_single (by rw [heb]; exact hr)
      (by rw [heb]; exact State.reg_setReg_self), hec]
    simp [place, imm]

end Run

/-! ## spots and their places -/

/-- A scalar, or an element of an array. -/
structure Spot where
  name : String
  index : Option Nat
deriving DecidableEq, Repr

/-- Everything that can be accessed, with its distance from the base register. -/
def places : Int → List Declaration → List (Spot × Int)
  | _, [] => []
  | offset, .scalar _ name :: ds => (⟨name, none⟩, offset - 1) :: places (offset - 1) ds
  | offset, .array _ name size :: ds =>
    (List.range size).map (fun i : Nat => (⟨name, some i⟩, offset - i)) ++
      places (offset - size) ds

/-- Everything that can be accessed. -/
def spots (ds : List Declaration) : List Spot := (places 0 ds).map Prod.fst

/--
No array follows a scalar directly, where arrays without elements do not count. `scalar` says
whether a scalar stands before the declarations.
-/
def Apart : Bool → List Declaration → Prop
  | _, [] => True
  | _, .scalar _ _ :: ds => Apart true ds
  | scalar, .array _ _ size :: ds =>
    if size = 0 then Apart scalar ds else scalar = false ∧ Apart false ds

theorem places_spots (offset : Int) (ds : List Declaration) :
    (places offset ds).map Prod.fst = spots ds := by
  unfold spots
  generalize (0 : Int) = offset'
  induction ds generalizing offset offset' with
  | nil => rfl
  | cons d ds ih =>
    cases d with
    | scalar type name => simp only [places, List.map_cons, ih (offset - 1) (offset' - 1)]
    | array type name size =>
      simp only [places, List.map_append, List.map_map, ih (offset - size) (offset' - size)]
      rfl

/-- The places of some declarations are in the words that these take, moved by one for arrays. -/
theorem places_bound {offset : Int} {ds : List Declaration} {x : Spot × Int}
    (hx : x ∈ places offset ds) : offset - totalWords ds ≤ x.2 ∧ x.2 ≤ offset := by
  induction ds generalizing offset with
  | nil => simp [places] at hx
  | cons d ds ih =>
    rw [totalWords_cons]
    cases d with
    | scalar type name =>
      simp only [Declaration.words]
      rcases List.mem_cons.mp hx with rfl | hmem
      · dsimp only
        omega
      · have := ih hmem
        omega
    | array type name size =>
      simp only [Declaration.words]
      rcases List.mem_append.mp hx with hmem | hmem
      · obtain ⟨i, hi, rfl⟩ := List.mem_map.mp hmem
        have := List.mem_range.mp hi
        dsimp only
        omega
      · have := ih hmem
        omega

/-- **The places are different, and not that of a scalar before them, iff the arrays are apart.** -/
theorem places_nodup_iff (scalar : Bool) (offset : Int) (ds : List Declaration) :
    (((places offset ds).map Prod.snd).Nodup ∧
      (scalar = true → ∀ x ∈ places offset ds, x.2 ≠ offset)) ↔ Apart scalar ds := by
  induction ds generalizing scalar offset with
  | nil => simp [places, Apart]
  | cons d ds ih =>
    cases d with
    | scalar type name =>
      rw [Apart, ← ih true (offset - 1), places, List.map_cons, List.nodup_cons]
      constructor
      · rintro ⟨⟨hnotin, hnd⟩, -⟩
        exact ⟨hnd, fun _ x hx heq => hnotin (List.mem_map.mpr ⟨x, hx, heq⟩)⟩
      · rintro ⟨hnd, hne⟩
        refine ⟨⟨fun hin => ?_, hnd⟩, fun _ x hx => ?_⟩
        · obtain ⟨x, hx, heq⟩ := List.mem_map.mp hin
          exact hne rfl x hx heq
        · rcases List.mem_cons.mp hx with rfl | hmem
          · dsimp only
            omega
          · have := places_bound hmem
            omega
    | array type name size =>
      rw [Apart, places]
      by_cases hsize : size = 0
      · simp only [hsize, List.range_zero, List.map_nil, List.nil_append, if_true]
        rw [Nat.cast_zero, sub_zero]
        exact ih scalar offset
      · rw [if_neg hsize, ← ih false (offset - size), List.map_append, List.nodup_append,
          List.map_map]
        constructor
        · rintro ⟨⟨-, hnd, -⟩, hne⟩
          refine ⟨?_, hnd, fun h => absurd h Bool.false_ne_true⟩
          cases scalar with
          | false => rfl
          | true =>
            have hzero : 0 ∈ List.range size := List.mem_range.mpr (Nat.pos_of_ne_zero hsize)
            have := hne rfl _ (List.mem_append_left _ (List.mem_map_of_mem hzero))
            simp at this
        · rintro ⟨hscalar, hnd, -⟩
          refine ⟨⟨?_, hnd, ?_⟩, fun h => absurd (hscalar ▸ h) Bool.false_ne_true⟩
          · refine List.nodup_range.map ?_
            intro i j hij
            simp only [Function.comp_apply] at hij
            omega
          · intro a ha b hb
            obtain ⟨i, hi, rfl⟩ := List.mem_map.mp ha
            obtain ⟨x, hx, rfl⟩ := List.mem_map.mp hb
            have := List.mem_range.mp hi
            have := places_bound hx
            simp only [Function.comp_apply]
            omega

theorem places_name {offset : Int} {ds : List Declaration} {x : Spot × Int}
    (hx : x ∈ places offset ds) : x.1.name ∈ ds.map Declaration.name := by
  induction ds generalizing offset with
  | nil => simp [places] at hx
  | cons d ds ih =>
    cases d with
    | scalar type name =>
      rcases List.mem_cons.mp hx with rfl | hmem
      · exact List.mem_cons_self ..
      · exact List.mem_cons_of_mem _ (ih hmem)
    | array type name size =>
      rcases List.mem_append.mp hx with hmem | hmem
      · obtain ⟨i, -, rfl⟩ := List.mem_map.mp hmem
        exact List.mem_cons_self ..
      · exact List.mem_cons_of_mem _ (ih hmem)

/-- Different names give different spots. -/
theorem places_fst_nodup {offset : Int} {ds : List Declaration}
    (hnd : (ds.map Declaration.name).Nodup) : ((places offset ds).map Prod.fst).Nodup := by
  induction ds generalizing offset with
  | nil => exact List.nodup_nil
  | cons d ds ih =>
    obtain ⟨hnotin, hnd'⟩ := List.nodup_cons.mp hnd
    cases d with
    | scalar type name =>
      refine List.nodup_cons.mpr ⟨fun hin => hnotin ?_, ih hnd'⟩
      obtain ⟨x, hx, heq⟩ := List.mem_map.mp hin
      have := places_name hx
      rwa [heq] at this
    | array type name size =>
      rw [places, List.map_append, List.map_map]
      refine List.nodup_append.mpr ⟨?_, ih hnd', ?_⟩
      · refine List.nodup_range.map ?_
        intro i j hij
        simpa using hij
      · intro p hp q hq hpq
        obtain ⟨i, -, rfl⟩ := List.mem_map.mp hp
        obtain ⟨x, hx, rfl⟩ := List.mem_map.mp hq
        have := places_name hx
        rw [← hpq] at this
        exact hnotin this

/-- The sign of the distances: the class grows upwards from 0, a method downwards. -/
def signed (globalScope : Bool) (distance : Int) : Int :=
  if globalScope then -distance else distance

theorem imm_add (a b : Int) : imm a + imm b = imm (a + b) := (BitVec.ofInt_add a b).symm

theorem imm_natCast (k : Nat) : imm k = BitVec.ofNat 32 k := BitVec.ofInt_natCast 32 k

theorem imm_neg (a : Int) : 0 - imm a = imm (-a) := by
  unfold imm
  rw [BitVec.ofInt_neg]
  exact BitVec.zero_sub _

/-- An element lies as far behind the offset before its array as its index says. -/
theorem elementOffset_eq {cell : SymbolTableCell} {offset : Int}
    (hcell : cell.offset + cell.size = offset) (hlo : -2147483648 < offset) (hhi : offset ≤ 0)
    (i : Nat) :
    elementOffset cell (BitVec.ofNat 32 i) = imm (signed cell.globalScope (offset - i)) := by
  have hcalc : int32 (cell.offset + cell.size) = offset := by
    rw [hcell]
    exact int32_eq (by omega) (by omega)
  have hneg : int32 (0 - offset) = -offset := by
    rw [zero_sub]
    exact int32_eq (by omega) (by omega)
  have hi : BitVec.ofNat 32 i = imm i := (BitVec.ofInt_natCast 32 i).symm
  have hsum : (if offset < 0 then imm i + imm (-offset) else imm i) = imm (i - offset) := by
    split
    · rw [imm_add, ← sub_eq_add_neg]
    · rw [show offset = 0 by omega, sub_zero]
  unfold elementOffset
  dsimp only
  rw [hcalc, hneg, hi, hsum]
  cases cell.globalScope with
  | false =>
    simp only [if_true, signed]
    rw [imm_neg, neg_sub]
    rfl
  | true =>
    simp only [signed, if_true, neg_sub]
    rfl

/-- **The place of a spot is that of its cell.** -/
theorem place_of_mem {globalScope : Bool} {offset : Int} {ds : List Declaration} {x : Spot × Int}
    (hlo : -2147483648 < offset - totalWords ds) (hhi : offset < 2147483648)
    (harray : 0 < offset → ∀ d ∈ ds, d.classType = .var) (hx : x ∈ places offset ds) :
    ∃ c ∈ cells globalScope offset ds, c.name = x.1.name ∧
      place c x.1.index = imm (signed globalScope x.2) := by
  induction ds generalizing offset x with
  | nil => simp [places] at hx
  | cons d ds ih =>
    rw [totalWords_cons] at hlo
    have hlater : ∀ x ∈ places (offset - d.words) ds, ∃ c ∈ cells globalScope offset (d :: ds),
        c.name = x.1.name ∧ place c x.1.index = imm (signed globalScope x.2) := by
      intro x hx
      have hlo' : -2147483648 < offset - d.words - totalWords ds := by omega
      obtain ⟨c, hc, hres⟩ := ih hlo' (by omega)
        (fun hpos d' hd' => harray (by omega) d' (List.mem_cons_of_mem _ hd')) hx
      exact ⟨c, List.mem_cons_of_mem _ hc, hres⟩
    cases d with
    | scalar type name =>
      simp only [Declaration.words] at hlater hlo
      rcases List.mem_cons.mp hx with rfl | hmem
      · refine ⟨_, List.mem_cons_self .., rfl, ?_⟩
        cases globalScope with
        | false => rfl
        | true =>
          have hneg : int32 (0 - (offset - 1)) = -(offset - 1) := by
            rw [zero_sub]
            exact int32_eq (by omega) (by omega)
          exact congrArg imm hneg
      · exact hlater x hmem
    | array type name size =>
      simp only [Declaration.words] at hlater hlo
      rcases List.mem_append.mp hx with hmem | hmem
      · have hneg : offset ≤ 0 := by
          by_contra hpos
          exact absurd (harray (by omega) _ (List.mem_cons_self ..)) (by simp [Declaration.classType])
        obtain ⟨i, hi, rfl⟩ := List.mem_map.mp hmem
        refine ⟨_, List.mem_cons_self .., rfl, ?_⟩
        exact @elementOffset_eq ⟨name, .array, some type, 0, offset - size, size, globalScope⟩ offset
          (sub_add_cancel offset _) (by omega) hneg i
      · exact hlater x hmem

/-! ## the addresses of a scope -/

/-- The distance that is written for a spot fits into an instruction. -/
def Writable (t : SymbolTableList) (p : Spot) : Prop :=
  ∀ cell, t.getSymbol p.name = some cell → (immediate cell p.index).natAbs ≤ maxImmediate

instance (t : SymbolTableList) (p : Spot) : Decidable (Writable t p) :=
  decidable_of_iff (∀ cell ∈ t.getSymbol p.name, (immediate cell p.index).natAbs ≤ maxImmediate)
    Iff.rfl

/-- The code that is generated for a spot uses the address `a`. -/
def Accesses (t : SymbolTableList) (fp : Word) (p : Spot) (a : Word) : Prop :=
  ∃ cell, t.getSymbol p.name = some cell ∧ ∃ g mode s s', Ready g fp p.index s ∧
    lastAddress (accessCode g cell p.index mode) s = .ok a s'

/-- There is a machine in front of every access. -/
theorem FreeRegister.exists_ready {g : CodeGenerator} {index : Option Nat} (h : FreeRegister g index)
    (fp : Word) : ∃ s : State Word, Ready g fp index s := by
  have hlow := h.low
  have hhigh : g.topReg < 29 := h.high
  let registers : Nat → Option Word := fun i =>
    if i = 0 then some 0 else if i = 29 then some fp else some (BitVec.ofNat 32 (index.getD 0))
  refine ⟨{ registers := registers, memory := fun _ => none, pc := none, ir := none, cip := 0
            output := [] }, h, rfl, rfl, ?_⟩
  rintro i rfl
  have hpos := h.element i rfl
  show registers g.topReg.toNat = _
  rw [show registers g.topReg.toNat = _ from if_neg (by omega), if_neg (by omega)]
  rfl

theorem exists_ready (fp : Word) (index : Option Nat) :
    ∃ (g : CodeGenerator) (s : State Word), Ready g fp index s := by
  have hfree : FreeRegister { CodeGenerator.init with topReg := 1 } index :=
    ⟨by decide, by decide, fun _ _ => le_refl 1⟩
  obtain ⟨s, hready⟩ := hfree.exists_ready fp
  exact ⟨_, s, hready⟩

/-- **Every access to a spot uses one address.** -/
theorem accesses_iff {t : SymbolTableList} {fp : Word} {p : Spot} {cell : SymbolTableCell} {a : Word}
    (h : t.getSymbol p.name = some cell) (hfits : Writable t p) :
    Accesses t fp p a ↔ a = baseOf cell fp + place cell p.index := by
  have hfits := hfits cell h
  constructor
  · rintro ⟨cell', hcell, g, mode, s, s', hready, hrun⟩
    rw [h] at hcell
    injection hcell with hcell
    rw [← hcell] at hrun
    obtain ⟨s₁, haddr⟩ := access_address hready hfits mode
    rw [haddr] at hrun
    injection hrun with ha
    exact ha.symm
  · rintro rfl
    obtain ⟨g, s, hready⟩ := exists_ready fp p.index
    obtain ⟨s', haddr⟩ := access_address hready hfits .load
    exact ⟨cell, h, g, .load, s, s', hready, haddr⟩

/-- Two different spots are never accessed at the same address. -/
def Distinct (t : SymbolTableList) (l : List Spot) : Prop :=
  ∀ fp p q a, p ∈ l → q ∈ l → Accesses t fp p a → Accesses t fp q a → p = q

/-- The spots of a list of places are distinct iff the places are. -/
theorem distinct_iff {t : SymbolTableList} {l : List (Spot × Int)} {globalScope : Bool}
    (hnd : (l.map Prod.fst).Nodup)
    (hbound : ∀ x ∈ l, -2147483648 < x.2 ∧ x.2 < 2147483648)
    (hacc : ∀ x ∈ l, ∀ fp a, Accesses t fp x.1 a ↔
      a = (if globalScope then 0 else fp) + imm (signed globalScope x.2)) :
    Distinct t (l.map Prod.fst) ↔ (l.map Prod.snd).Nodup := by
  rw [List.nodup_map_iff_inj_on (List.Nodup.of_map _ hnd)]
  constructor
  · intro h x hx y hy hxy
    have hx' := (hacc x hx 0 _).mpr rfl
    have hy' := (hacc y hy 0 _).mpr rfl
    rw [← hxy] at hy'
    have hfst := h 0 x.1 y.1 _ (List.mem_map_of_mem hx) (List.mem_map_of_mem hy) hx' hy'
    exact List.inj_on_of_nodup_map hnd hx hy hfst
  · intro h fp p q a hp hq hpa hqa
    obtain ⟨x, hx, rfl⟩ := List.mem_map.mp hp
    obtain ⟨y, hy, rfl⟩ := List.mem_map.mp hq
    have heq := ((hacc x hx fp a).mp hpa).symm.trans ((hacc y hy fp a).mp hqa)
    have himm := add_left_cancel heq
    have hbx := hbound x hx
    have hby := hbound y hy
    have : signed globalScope x.2 = signed globalScope y.2 := by
      refine imm_injective ?_ ?_ himm
      · unfold signed
        split <;> omega
      · unfold signed
        split <;> omega
    have hxy : x.2 = y.2 := by
      unfold signed at this
      split at this <;> omega
    rw [h x hx y hy hxy]

/-! ## global variables -/

/-- The cell of a global variable. -/
theorem getSymbol_global {gs : List Declaration} {t : SymbolTableList}
    (hw : totalWords gs < 2147483648) (h : SymbolTableList.declareAll gs .empty = some t) :
    (gs.map Declaration.name).Nodup ∧ ∀ c ∈ cells true 0 gs, t.getSymbol c.name = some c := by
  obtain ⟨hlist, hnd⟩ := @SymbolTableList.declareAll_global gs .empty t rfl
    (by simp only [SymbolTableList.empty]; omega) (by decide) List.nodup_nil h
  have hcells : t.symList.map SymbolEntry.cell = cells true 0 gs := by
    rw [hlist]
    simp [SymbolTableList.empty, Function.comp_def]
  have hnames : (cells true 0 gs).map SymbolTableCell.name |>.Nodup := by
    rw [← hcells, List.map_map]
    exact hnd
  refine ⟨by rwa [cells_names] at hnames, fun c hc => ?_⟩
  have hvars : ∀ e ∈ t.symList, e.cell.classType ≠ .method := by
    intro e he
    refine cells_classType (?_ : e.cell ∈ cells true 0 gs)
    rw [← hcells]
    exact List.mem_map_of_mem he
  rw [SymbolTableList.getSymbol_eq, SymbolTableList.lookup_vars hvars, hcells,
    lastNamed_of_mem hnames hc]
  rfl

theorem places_lt {gs : List Declaration} (hw : totalWords gs < 2147483648) :
    ∀ x ∈ places 0 gs, -2147483648 < x.2 ∧ x.2 < 2147483648 := by
  intro x hx
  have := places_bound hx
  omega

/-- The address of a global variable or an element. -/
theorem accesses_global {gs : List Declaration} {t : SymbolTableList}
    (hw : totalWords gs < 2147483648) (h : SymbolTableList.declareAll gs .empty = some t)
    (hfits : ∀ p ∈ spots gs, Writable t p) :
    ∀ x ∈ places 0 gs, ∀ fp a, Accesses t fp x.1 a ↔ a = 0 + imm (signed true x.2) := by
  intro x hx fp a
  obtain ⟨-, hget⟩ := getSymbol_global hw h
  obtain ⟨c, hc, hname, hplace⟩ := @place_of_mem true 0 gs x (by omega) (by decide)
    (fun h => absurd h (by decide)) hx
  have hsym := hget c hc
  rw [hname] at hsym
  have hp : x.1 ∈ spots gs := by
    rw [← places_spots 0]
    exact List.mem_map_of_mem hx
  rw [accesses_iff hsym (hfits x.1 hp), hplace, baseOf, cells_globalScope hc]
  rfl

/-- **The global variables are apart iff no array follows a scalar directly.** -/
theorem distinct_globals_iff {gs : List Declaration} {t : SymbolTableList}
    (hw : totalWords gs < 2147483648) (h : SymbolTableList.declareAll gs .empty = some t)
    (hfits : ∀ p ∈ spots gs, Writable t p) :
    Distinct t (spots gs) ↔ Apart false gs := by
  obtain ⟨hnames, -⟩ := getSymbol_global hw h
  have hiff := @distinct_iff t (places 0 gs) true (places_fst_nodup hnames) (places_lt hw)
    (accesses_global hw h hfits)
  rw [places_spots] at hiff
  rw [hiff, ← places_nodup_iff false 0 gs]
  simp

/-! ## a method -/

/-- Everything that can be accessed below a method. -/
def MethodDecl.places (m : MethodDecl) : List (Spot × Int) :=
  Compiler.places (m.params.length + 2) m.paramDecls ++ Compiler.places 0 m.locals

def MethodDecl.spots (m : MethodDecl) : List Spot :=
  Compiler.spots m.paramDecls ++ Compiler.spots m.locals

/--
The layout of a method at the end of its body: nothing is accessed at the address of something
else, the parameters are above the return address and the variables inside of the frame.
-/
structure MethodLayout (t : SymbolTableList) (m : MethodDecl) : Prop where
  distinct : Distinct t m.spots
  params : ∀ fp p a, p ∈ spots m.paramDecls → Accesses t fp p a →
    ∃ k : Nat, 2 ≤ k ∧ k ≤ m.params.length + 1 ∧ a = fp + BitVec.ofNat 32 k
  locals : ∀ fp p a, p ∈ spots m.locals → Accesses t fp p a →
    ∃ k : Nat, 1 ≤ k ∧ k ≤ t.frameSize m.name ∧ a = fp - BitVec.ofNat 32 k

section Method

variable {t t' : SymbolTableList} {m : MethodDecl}

theorem apart_scalars (scalar : Bool) (ps : List (TypeDesc × String)) :
    Apart scalar (ps.map fun p => .scalar p.1 p.2) := by
  induction ps generalizing scalar with
  | nil => trivial
  | cons p ps ih => exact ih true

theorem paramDecls_classType {d : Declaration} (hd : d ∈ m.paramDecls) : d.classType = .var := by
  obtain ⟨p, -, rfl⟩ := List.mem_map.mp hd
  rfl

theorem MethodDecl.places_fst (m : MethodDecl) : m.places.map Prod.fst = m.spots := by
  unfold places spots
  rw [List.map_append, places_spots, places_spots]

/-- The frame takes the words of the variables. -/
theorem frameSize_eq (hw : m.words < 2147483648) (h : t.methodBody m = some t') :
    t'.frameSize m.name = totalWords m.locals := by
  obtain ⟨cell, hname, hmethod, -, hlist, -, hfresh⟩ :=
    SymbolTableList.methodBody_symList hw h
  unfold MethodDecl.words at hw
  have hfind := @SymbolTableList.findSymbol_last
    ⟨cell, { symList := m.symbols, offset := -totalWords m.locals }⟩ m.name hname hmethod t.symList
    0 none hfresh
  rw [← hlist, Nat.zero_add] at hfind
  unfold SymbolTableList.frameSize SymbolTableList.getMethodSymbols
  rw [hfind]
  simp only [hlist, List.getElem?_concat_length, hmethod, reduceCtorEq, if_false,
    Option.map_some, Option.getD_some, MethodSymbols.frameSize]
  split
  · rw [sub_neg_eq_add, zero_add]
    exact int32_eq (by omega) (by omega)
  · omega

/-- The address of a spot that no method hides. -/
theorem accesses_method (hw : m.words < 2147483648) (h : t.methodBody m = some t')
    {x : Spot × Int} (hx : x ∈ m.places) (hhidden : ¬ t'.Hidden x.1.name) (hfits : Writable t' x.1)
    (fp a : Word) :
    Accesses t' fp x.1 a ↔ a = fp + imm x.2 := by
  unfold MethodDecl.words at hw
  have hparams : totalWords m.paramDecls = m.params.length := totalWords_params m.params
  obtain ⟨c, hc, hname, hplace⟩ : ∃ c ∈ m.symbols, c.name = x.1.name ∧
      place c x.1.index = imm (signed false x.2) := by
    unfold MethodDecl.symbols
    rcases List.mem_append.mp hx with hmem | hmem
    · obtain ⟨c, hc, hres⟩ := @place_of_mem false (m.params.length + 2) m.paramDecls x (by omega)
        (by omega) (fun _ d hd => paramDecls_classType hd) hmem
      exact ⟨c, List.mem_append_left _ hc, hres⟩
    · obtain ⟨c, hc, hres⟩ := @place_of_mem false 0 m.locals x (by omega) (by decide)
        (fun h => absurd h (by decide)) hmem
      exact ⟨c, List.mem_append_right _ hc, hres⟩
  have hlocal : c.globalScope = false := by
    rcases List.mem_append.mp hc with hmem | hmem
    · exact cells_globalScope hmem
    · exact cells_globalScope hmem
  have hsym := SymbolTableList.getSymbol_methodBody hw h hc (by rw [hname]; exact hhidden)
  rw [hname] at hsym
  rw [accesses_iff hsym hfits, hplace, baseOf, hlocal]
  rfl

/-- A spot that a method hides is accessed at one address in every frame. -/
theorem accesses_hidden (hglobal : t'.ClassGlobal) {p : Spot} (hhidden : t'.Hidden p.name)
    (hfits : Writable t' p) : ∃ a, ∀ fp, Accesses t' fp p a := by
  obtain ⟨cell, hcell, hg⟩ := hglobal.getSymbol_hidden hhidden
  refine ⟨place cell p.index, fun fp => (accesses_iff hcell hfits).mpr ?_⟩
  rw [baseOf, hg, if_pos rfl, zero_add]

theorem ofNat_ne_zero {k : Nat} (h1 : 1 ≤ k) (h2 : k < 2147483648) : BitVec.ofNat 32 k ≠ 0 := by
  intro h
  have := congrArg BitVec.toNat h
  rw [BitVec.toNat_ofNat, Nat.mod_eq_of_lt (by omega)] at this
  exact absurd this (by show k ≠ 0; omega)

/-- In a proper layout no spot is hidden: its address would have to move with the frame. -/
theorem MethodLayout.not_hidden (hw : m.words < 2147483648) (h : t.methodBody m = some t')
    (hglobal : t'.ClassGlobal) (hlayout : MethodLayout t' m) {p : Spot} (hp : p ∈ m.spots)
    (hfits : Writable t' p) : ¬ t'.Hidden p.name := by
  intro hhidden
  have hframe := frameSize_eq hw h
  unfold MethodDecl.words at hw
  obtain ⟨a, ha⟩ := accesses_hidden hglobal hhidden hfits
  rcases List.mem_append.mp hp with hmem | hmem
  · obtain ⟨k, hlow, hhigh, hk⟩ := hlayout.params a p a hmem (ha a)
    exact ofNat_ne_zero (by omega) (by omega) (left_eq_add.mp hk)
  · obtain ⟨k, hlow, hhigh, hk⟩ := hlayout.locals a p a hmem (ha a)
    exact ofNat_ne_zero hlow (by omega) (sub_eq_self.mp hk.symm)

theorem MethodDecl.places_fst_nodup (m : MethodDecl)
    (hnd : (m.symbols.map SymbolTableCell.name).Nodup) : (m.places.map Prod.fst).Nodup := by
  unfold symbols at hnd
  rw [List.map_append, cells_names, cells_names] at hnd
  obtain ⟨hparams, hlocals, hdisjoint⟩ := List.nodup_append.mp hnd
  unfold places
  rw [List.map_append]
  refine List.nodup_append.mpr
    ⟨Compiler.places_fst_nodup hparams, Compiler.places_fst_nodup hlocals, ?_⟩
  intro p hp q hq hpq
  obtain ⟨x, hx, rfl⟩ := List.mem_map.mp hp
  obtain ⟨y, hy, rfl⟩ := List.mem_map.mp hq
  exact hdisjoint _ (places_name hx) _ (places_name hy) (by rw [hpq])

/-- The places of a method are different iff those of its variables are. -/
theorem MethodDecl.places_snd_nodup (m : MethodDecl) :
    (m.places.map Prod.snd).Nodup ↔ ((Compiler.places 0 m.locals).map Prod.snd).Nodup := by
  have hparams : totalWords m.paramDecls = m.params.length := totalWords_params m.params
  unfold places
  rw [List.map_append, List.nodup_append]
  constructor
  · rintro ⟨-, hnd, -⟩
    exact hnd
  · intro hnd
    refine ⟨((places_nodup_iff false _ m.paramDecls).mpr (apart_scalars false m.params)).1, hnd, ?_⟩
    intro a ha b hb
    obtain ⟨x, hx, rfl⟩ := List.mem_map.mp ha
    obtain ⟨y, hy, rfl⟩ := List.mem_map.mp hb
    have := places_bound hx
    have := places_bound hy
    omega

/-- **The layout of a method is proper iff it declares no array and hides nothing.** -/
theorem methodLayout_iff (hw : m.words < 2147483648) (h : t.methodBody m = some t')
    (hglobal : t'.ClassGlobal) (hfits : ∀ p ∈ m.spots, Writable t' p) :
    MethodLayout t' m ↔ (∀ p ∈ m.spots, ¬ t'.Hidden p.name) ∧ Apart true m.locals := by
  have hparams : totalWords m.paramDecls = m.params.length := totalWords_params m.params
  have hframe := frameSize_eq hw h
  have hnames := m.places_fst_nodup
    (by obtain ⟨_, -, -, -, -, hnd, -⟩ := SymbolTableList.methodBody_symList hw h; exact hnd)
  have hdistinct : (∀ p ∈ m.spots, ¬ t'.Hidden p.name) →
      (Distinct t' m.spots ↔ (m.places.map Prod.snd).Nodup) := by
    intro hhidden
    rw [← m.places_fst]
    refine @distinct_iff t' m.places false hnames ?_ ?_
    · intro x hx
      unfold MethodDecl.words at hw
      rcases List.mem_append.mp hx with hmem | hmem
      · have := places_bound hmem
        omega
      · have := places_bound hmem
        omega
    · intro x hx fp a
      have hp : x.1 ∈ m.spots := by
        rw [← m.places_fst]
        exact List.mem_map_of_mem hx
      exact accesses_method hw h hx (hhidden x.1 hp) (hfits x.1 hp) fp a
  constructor
  · intro hlayout
    have hhidden := fun p hp => hlayout.not_hidden hw h hglobal hp (hfits p hp)
    refine ⟨hhidden, (places_nodup_iff true 0 m.locals).mp ⟨?_, ?_⟩⟩
    · exact m.places_snd_nodup.mp ((hdistinct hhidden).mp hlayout.distinct)
    · intro _ x hx hzero
      -- at distance 0 is the saved frame pointer, which is outside of the frame
      have hmem : x ∈ m.places := List.mem_append_right _ hx
      have hp : x.1 ∈ spots m.locals := by
        rw [← places_spots 0]
        exact List.mem_map_of_mem hx
      have hp' : x.1 ∈ m.spots := List.mem_append_right _ hp
      have hacc := (accesses_method hw h hmem (hhidden x.1 hp') (hfits x.1 hp') 0 _).mpr rfl
      obtain ⟨k, hlow, hhigh, hk⟩ := hlayout.locals 0 x.1 _ hp hacc
      unfold MethodDecl.words at hw
      rw [hzero] at hk
      exact ofNat_ne_zero hlow (by omega) (sub_eq_self.mp (hk.symm.trans (add_zero 0)))
  · rintro ⟨hhidden, hapart⟩
    obtain ⟨hnd, hne⟩ := (places_nodup_iff true 0 m.locals).mpr hapart
    refine ⟨(hdistinct hhidden).mpr (m.places_snd_nodup.mpr hnd), ?_, ?_⟩
    · intro fp p a hp hacc
      have hmem := List.mem_append_left (spots m.locals) hp
      have hp' := hhidden p hmem
      rw [← places_spots (m.params.length + 2)] at hp
      obtain ⟨x, hx, rfl⟩ := List.mem_map.mp hp
      have hbound := places_bound hx
      have hlast := (places_nodup_iff true (m.params.length + 2) m.paramDecls).mpr
        (apart_scalars true m.params)
      have hne := hlast.2 rfl x hx
      refine ⟨x.2.toNat, by omega, by omega, ?_⟩
      rw [(accesses_method hw h (List.mem_append_left _ hx) hp' (hfits _ hmem) fp a).mp hacc,
        ← imm_natCast]
      congr 2
      omega
    · intro fp p a hp hacc
      have hmem := List.mem_append_right (spots m.paramDecls) hp
      have hp' := hhidden p hmem
      rw [← places_spots 0] at hp
      obtain ⟨x, hx, rfl⟩ := List.mem_map.mp hp
      have hbound := places_bound hx
      have hne := hne rfl x hx
      refine ⟨(-x.2).toNat, by omega, by omega, ?_⟩
      rw [(accesses_method hw h (List.mem_append_right _ hx) hp' (hfits _ hmem) fp a).mp hacc,
        ← imm_natCast, sub_eq_add_neg, ← zero_sub (imm _), imm_neg]
      congr 2
      omega

/-- A global variable lies at the same address in every method that does not declare its name. -/
theorem accesses_outer {gs : List Declaration} {t₀ : SymbolTableList}
    (hg : totalWords gs < 2147483648) (h₀ : SymbolTableList.declareAll gs .empty = some t₀)
    (hext : SymbolTableList.Extends gs t) (hw : m.words < 2147483648)
    (h : t.methodBody m = some t') {p : Spot} (hp : p ∈ spots gs) (hfits : Writable t₀ p)
    (houter : p.name ∉ m.symbols.map SymbolTableCell.name) (fp a : Word) :
    Accesses t' fp p a ↔ Accesses t₀ fp p a := by
  obtain ⟨hnames, hget⟩ := getSymbol_global hg h₀
  obtain ⟨x, hx, rfl⟩ := List.mem_map.mp hp
  obtain ⟨c, hc, hname, -⟩ := @place_of_mem true 0 gs x (by omega) (by decide)
    (fun h => absurd h (by decide)) hx
  rw [← hname] at houter
  have h₁ := SymbolTableList.getSymbol_outer hext hnames hw h hc houter
  have h₂ := hget c hc
  rw [hname] at h₁ h₂
  have hfits' : Writable t' x.1 := by
    intro cell hcell
    rw [h₁] at hcell
    exact hfits cell (h₂.trans hcell)
  rw [accesses_iff h₁ hfits', accesses_iff h₂ hfits]

/-- In front of the variables of a method stands the saved frame pointer, like a scalar. -/
theorem apart_true_iff {ds : List Declaration} :
    Apart true ds ↔ ∀ d ∈ ds, d.classType = .array → d.words = 0 := by
  induction ds with
  | nil => simp [Apart]
  | cons d ds ih =>
    cases d with
    | scalar type name => simp [Apart, ih, Declaration.classType]
    | array type name size =>
      by_cases hsize : size = 0
      · simp [Apart, hsize, ih, Declaration.classType, Declaration.words]
      · simp [Apart, hsize, Declaration.classType, Declaration.words]

end Method

/--
**When the variables lie properly**, for the global variables of a class and for a method behind
any others, as long as the distances fit into the instructions.
-/
theorem layout_proper_iff {gs : List Declaration} {ms : List MethodDecl} {m : MethodDecl}
    {t₀ t t₁ : SymbolTableList} (h₀ : SymbolTableList.declareAll gs .empty = some t₀)
    (h : SymbolTableList.addMethods ms t₀ = some t) (h₁ : t.methodBody m = some t₁)
    (hg : totalWords gs < 2147483648) (hm : ∀ m' ∈ m :: ms, m'.words < 2147483648)
    (hfits₀ : ∀ p ∈ spots gs, Writable t₀ p) (hfits : ∀ p ∈ m.spots, Writable t₁ p) :
    (Distinct t₀ (spots gs) ↔ Apart false gs) ∧
    (∀ p ∈ spots gs, p.name ∉ m.symbols.map SymbolTableCell.name →
      ∀ fp a, Accesses t₁ fp p a ↔ Accesses t₀ fp p a) ∧
    (MethodLayout t₁ m ↔ (∀ p ∈ m.spots, ¬ t₁.Hidden p.name) ∧
      ∀ d ∈ m.locals, d.classType = .array → d.words = 0) := by
  have hclass : SymbolTableList.ofClass gs ms = some t := Option.bind_eq_some_iff.mpr ⟨t₀, h₀, h⟩
  have hw := hm m (List.mem_cons_self ..)
  have hext := SymbolTableList.ofClass_extends hg
    (fun m' hm' => hm m' (List.mem_cons_of_mem _ hm')) hclass
  have hglobal := (SymbolTableList.ofClass_classGlobal hclass).methodBody h₁
  refine ⟨distinct_globals_iff hg h₀ hfits₀, ?_, ?_⟩
  · intro p hp houter fp a
    exact accesses_outer hg h₀ hext hw h₁ hp (hfits₀ p hp) houter fp a
  · rw [← apart_true_iff]
    exact methodLayout_iff hw h₁ hglobal hfits

/-- A distance of 32768 is read back as 0: `a[0]` and `b[0]` behind `int[] a = new int[32768];`. -/
example : (decode (OpCodeElement.mk3 .addi 1 1 32768).word).secondSourceValue = 0 := by decide

/-- `int[] a = new int[3]; int x;` -/
def arrayFirst : List Declaration := [.array .intType "a" 3, .scalar .intType "x"]

/-- `int f(int n) { int i; }` -/
def scalarsOnly : MethodDecl :=
  { name := "f", params := [(.intType, "n")], locals := [.scalar .intType "i"] }

def arrayFirstTable : SymbolTableList :=
  (SymbolTableList.declareAll arrayFirst .empty).getD .empty

def scalarsOnlyTable : SymbolTableList := (arrayFirstTable.methodBody scalarsOnly).getD .empty

theorem layout_proper_iff_scalars :
    Distinct arrayFirstTable (spots arrayFirst) ∧ MethodLayout scalarsOnlyTable scalarsOnly := by
  have h₀ : SymbolTableList.declareAll arrayFirst .empty = some arrayFirstTable := by
    decide +kernel
  have h₁ : arrayFirstTable.methodBody scalarsOnly = some scalarsOnlyTable := by decide +kernel
  have h := @layout_proper_iff arrayFirst [] scalarsOnly _ _ _ h₀ rfl h₁ (by decide) (by decide)
    (by decide +kernel) (by decide +kernel)
  exact ⟨h.1.mpr (by simp [Apart, arrayFirst]), h.2.2.mpr ⟨by decide +kernel, by decide⟩⟩

/-- `int x; int[] a = new int[2];` -/
def arrayLast : List Declaration := [.scalar .intType "x", .array .intType "a" 2]

/-- `void main() { int[] a = new int[2]; }` -/
def arrayOnly : MethodDecl := { name := "main", params := [], locals := [.array .intType "a" 2] }

def arrayLastTable : SymbolTableList :=
  (SymbolTableList.declareAll arrayLast .empty).getD .empty

def arrayOnlyTable : SymbolTableList :=
  (SymbolTableList.empty.methodBody arrayOnly).getD .empty

/-- `a[0]` is `x` in the class, and the saved frame pointer in the method. -/
theorem array_overlaps :
    (∃ a, Accesses arrayLastTable 0 ⟨"x", none⟩ a ∧ Accesses arrayLastTable 0 ⟨"a", some 0⟩ a) ∧
      ¬ Distinct arrayLastTable (spots arrayLast) ∧
      (∀ fp, Accesses arrayOnlyTable fp ⟨"a", some 0⟩ fp) ∧
      ¬ MethodLayout arrayOnlyTable arrayOnly := by
  have hglobals : SymbolTableList.declareAll arrayLast .empty = some arrayLastTable := by
    decide +kernel
  have hmethod : SymbolTableList.empty.methodBody arrayOnly = some arrayOnlyTable := by
    decide +kernel
  have hx : arrayLastTable.getSymbol "x" = some ⟨"x", .var, some .intType, 0, -1, 1, true⟩ := by
    decide +kernel
  have ha : arrayLastTable.getSymbol "a" = some ⟨"a", .array, some .intType, 0, -3, 2, true⟩ := by
    decide +kernel
  have hlocal : arrayOnlyTable.getSymbol "a" =
      some ⟨"a", .array, some .intType, 0, -2, 2, false⟩ := by decide +kernel
  refine ⟨⟨1, (accesses_iff hx (by decide +kernel)).mpr (by decide),
    (accesses_iff ha (by decide +kernel)).mpr (by decide)⟩, ?_, ?_, ?_⟩
  · rw [distinct_globals_iff (by decide) hglobals (by decide +kernel)]
    simp [Apart, arrayLast]
  · intro fp
    refine (accesses_iff hlocal (by decide +kernel)).mpr ?_
    rw [baseOf, if_neg Bool.false_ne_true,
      show place _ (some 0) = 0 from by decide +kernel, add_zero]
  · have hglobal : SymbolTableList.empty.ClassGlobal := fun e he => by cases he
    rw [methodLayout_iff (by decide) hmethod (hglobal.methodBody hmethod) (by decide +kernel),
      apart_true_iff]
    simp [arrayOnly, Declaration.classType, Declaration.words]

end Compiler
