import Bambinos.Compiler.ProgramCode
import Bambinos.Vm.Encoding
import Bambinos.Vm.Registers

/-!
# The values of the fields

The code of the fields of a class is executed from its start. Every scalar has a word of its own, so
that what was stored there stays until the end.

* `FieldCode.place` — the word of a scalar
* `SourceCode.separate` — the words of the scalars are different
* `fields_run` — behind the code of the fields every constant is in its word
-/

namespace Compiler

open Infra Vm

/-! ## the words -/

/-- The word of a scalar. -/
def FieldCode.place : FieldCode → Option Int
  | .scalar _ cell _ _ => some (CodeGenerator.address cell).2
  | _ => none

/-- The words of the scalars of a class. -/
def fieldPlaces (fields : List FieldCode) : List Int := fields.filterMap FieldCode.place

/-- Every scalar has its own word above the word 0. -/
structure Separate (fields : List FieldCode) : Prop where
  base : ∀ {type cell value r}, .scalar type cell value r ∈ fields →
    (CodeGenerator.address cell).1 = heap
  bound : ∀ k ∈ fieldPlaces fields,
    1 ≤ k ∧ k ≤ totalWords (fields.filterMap FieldCode.declaration)
  nodup : (fieldPlaces fields).Nodup

section Words

variable {fields : List FieldCode} {ms : List ClassMethod} {g : CodeGenerator}
  {ds : List Declaration} {t : SymbolTableList}

/-- The cells that the fields lead to. -/
theorem Declared.symList (h : Declared ds t) (hw : totalWords ds < 2147483648) :
    t.symList = (cells true 0 ds).map (⟨·, .empty⟩) ∧ (ds.map Declaration.name).Nodup := by
  obtain ⟨hlist, hnd⟩ := SymbolTableList.declareAll_global (t := .empty) rfl
    (by show -2147483648 < (0 : Int) - totalWords ds; omega) (by decide) List.nodup_nil h
  have hlist' : t.symList = (cells true 0 ds).map (⟨·, .empty⟩) := hlist
  refine ⟨hlist', ?_⟩
  rw [← cells_names true 0, ← List.map_id (cells true 0 ds), List.map_map]
  have hnd' : (t.symList.map (·.cell.name)).Nodup := hnd
  rw [hlist', List.map_map] at hnd'
  exact hnd'

theorem mem_declarations {type : TypeDesc} {cell : SymbolTableCell} {value : List OpCodeElement}
    {r : Int} (h : .scalar type cell value r ∈ fields) :
    .scalar type cell.name ∈ fields.filterMap FieldCode.declaration :=
  List.mem_filterMap.mpr ⟨_, h, rfl⟩

/-- **The scalars of a class have different words.** -/
theorem SourceCode.separate (h : SourceCode fields ms g)
    (hw : totalWords (fields.filterMap FieldCode.declaration) < 2147483648) :
    Separate fields := by
  obtain ⟨t, es, hdeclared, htable, -⟩ := h.symbols
  obtain ⟨hlist, hnd⟩ := hdeclared.symList hw
  -- each scalar is one of the cells of the declarations, and of one word
  have hcell : ∀ {type cell value r}, .scalar type cell value r ∈ fields →
      cell ∈ cells true 0 (fields.filterMap FieldCode.declaration) ∧ cell.size = 1 := by
    intro type cell value r hf
    obtain ⟨-, hmem⟩ := htable _ hf
    rw [hlist] at hmem
    obtain ⟨c, hc, heq⟩ := List.mem_map.mp hmem
    injection heq with heq
    rw [heq] at hc
    exact ⟨hc, cells_scalar hnd (mem_declarations hf) hc⟩
  -- so it lies below the heap pointer, as far as its offset says
  have haddress : ∀ {type cell value r}, .scalar type cell value r ∈ fields →
      CodeGenerator.address cell = (heap, -cell.offset) := by
    intro type cell value r hf
    obtain ⟨hc, hsize⟩ := hcell hf
    have hbound := cells_bound hc
    unfold CodeGenerator.address
    rw [if_pos (cells_globalScope hc), int32_eq (by omega) (by omega), zero_sub]
  refine ⟨fun hf => by rw [haddress hf], fun k hk => ?_, ?_⟩
  · obtain ⟨field, hf, hplace⟩ := List.mem_filterMap.mp hk
    cases field with
    | scalar type cell value r =>
      have hbound := cells_bound (hcell hf).1
      have hsize := (hcell hf).2
      have hk' : (CodeGenerator.address cell).2 = k := Option.some.inj hplace
      rw [haddress hf] at hk'
      dsimp only at hk'
      omega
    | array => cases hplace
    | object => cases hplace
  · -- two scalars of one word would have one offset, hence one cell and one name
    have hnames : (fields.filterMap FieldCode.declaration).Pairwise
        fun d d' => d.name ≠ d'.name := List.pairwise_map.mp hnd
    rw [List.pairwise_filterMap] at hnames
    unfold fieldPlaces
    rw [List.Nodup, List.pairwise_filterMap]
    refine hnames.imp_of_mem fun {field field'} hf hf' hne k hk k' hk' => ?_
    cases field with
    | scalar type cell value r =>
      cases field' with
      | scalar type' cell' value' r' =>
        have hsize := (hcell hf).2
        have hsize' := (hcell hf').2
        have hk₁ : (CodeGenerator.address cell).2 = k := Option.some.inj hk
        have hk₂ : (CodeGenerator.address cell').2 = k' := Option.some.inj hk'
        rw [haddress hf] at hk₁
        rw [haddress hf'] at hk₂
        dsimp only at hk₁ hk₂
        rintro rfl
        have hsame : cell = cell' := cells_offset_injective (hcell hf).1 (hcell hf').1
          (by omega) (by omega) (by omega)
        exact hne _ rfl _ rfl (congrArg SymbolTableCell.name hsame)
      | array => cases hk'
      | object => cases hk'
    | array => cases hk
    | object => cases hk

end Words

/-! ## the values -/

section Values

variable {ι : Type} {fields : List FieldCode} {field : FieldCode} {s s' : State ι} {k : Int}

/-- The code of a scalar stores one word. -/
theorem scalar_run {value : List OpCodeElement} {r : Int} (hvalue : ∀ e ∈ value, Computes e)
    (hplain : ∀ e ∈ value, e.instruction ≠ .stw) (hzero : s.reg 0 = some 0)
    (hrun : executeAll (value ++ [.mk3 .stw r heap k]) s = .ok () s') :
    ∃ s₁, executeAll value s = .ok () s₁ ∧ s₁.memory = s.memory ∧ IsAddress (imm k) ∧
      s' = s₁.setMem (imm k) (s₁.reg r) := by
  obtain ⟨s₁, hfirst, hlast⟩ := executeAll_append hrun
  obtain ⟨_, s₂, hstore, hend⟩ := bind_eq_ok hlast
  cases hend
  have hstore' : executeSTW r heap k s₁ = .ok () s' := hstore
  obtain ⟨v, hv, ha, rfl⟩ := executeSTW_eq_ok hstore'
  have hv' : s₁.reg heap = some 0 := (executeAll_reg hvalue (Or.inl rfl) hfirst).trans hzero
  cases hv.symm.trans hv'
  rw [zero_add] at ha ⊢
  exact ⟨s₁, hfirst, executeAll_memory hvalue hplain hfirst, ha, rfl⟩

theorem scalar_code {type : TypeDesc} {cell : SymbolTableCell} {value : List OpCodeElement} {r : Int}
    (hbase : (CodeGenerator.address cell).1 = heap) : (FieldCode.scalar type cell value r).code =
      value ++ [.mk3 .stw r heap (CodeGenerator.address cell).2] := by
  rw [← hbase]
  rfl

/-- What the code of one field does: it stores into the word of the field only. -/
theorem field_run (hcode : ∀ e ∈ field.code, Computes e) (hplain : field.Plain)
    (hbase : ∀ {type cell value r}, field = .scalar type cell value r →
      (CodeGenerator.address cell).1 = heap)
    (hzero : s.reg 0 = some 0) (hrun : executeAll field.code s = .ok () s') (h0 : 0 ≤ k)
    (hlt : k < 2147483648) (hbound : ∀ k', field.place = some k' → 0 ≤ k' ∧ k' < 2147483648)
    (hk : field.place ≠ some k) : s'.mem (imm k) = s.mem (imm k) := by
  cases field with
  | scalar type cell value r =>
    have hbase' : (CodeGenerator.address cell).1 = heap := hbase rfl
    rw [scalar_code hbase'] at hcode hrun
    have hvalue : ∀ e ∈ value, Computes e := fun e he => hcode e (List.mem_append_left _ he)
    obtain ⟨s₁, -, hmemory, ha, rfl⟩ := scalar_run hvalue hplain hzero hrun
    obtain ⟨h0', hlt'⟩ := hbound _ rfl
    have hne : imm k ≠ imm (CodeGenerator.address cell).2 := fun heq =>
      hk (congrArg some (imm_injective (by omega) (by omega) heq.symm))
    rw [State.mem_setMem ha.1 (by rw [toInt_imm (by omega)]; exact h0), if_neg hne]
    exact congrFun hmemory _
  | array type name size =>
    cases hrun
    rfl
  | object argument => exact congrFun (executeAll_memory hcode hplain hrun) _

/-- The value of a constant is stored into its word. -/
theorem constant_run {type : TypeDesc} {cell : SymbolTableCell} {r c : Int}
    (hcode : ∀ e ∈ (FieldCode.scalar type cell [.mk3 .addi r 0 c] r).code, Computes e)
    (hbase : (CodeGenerator.address cell).1 = heap) (hzero : s.reg 0 = some 0)
    (hrun : executeAll (FieldCode.scalar type cell [.mk3 .addi r 0 c] r).code s = .ok () s') :
    s'.mem (imm (CodeGenerator.address cell).2) = some (imm c) := by
  rw [scalar_code hbase] at hcode hrun
  have hadd : Computes (.mk3 .addi r 0 c) := hcode _ List.mem_cons_self
  have hvalue : ∀ e ∈ [OpCodeElement.mk3 .addi r 0 c], Computes e := fun e he =>
    hcode e (List.mem_append_left _ he)
  have hplain : ∀ e ∈ [OpCodeElement.mk3 .addi r 0 c], e.instruction ≠ .stw := by
    intro e he
    rw [List.mem_singleton.mp he]
    exact (by decide : OpCode.addi ≠ .stw)
  obtain ⟨s₁, hfirst, -, ha, rfl⟩ := scalar_run hvalue hplain hzero hrun
  obtain ⟨hlow, hhigh⟩ : 1 ≤ r ∧ r < 29 :=
    hadd.target (by decide : OpCode.addi ≠ .stw)
  have hr : IsRegister r := ⟨by omega, by unfold registerCount; omega⟩
  have hstep : dispatch (fields (.mk3 .addi r 0 c)) s = .ok () (s.setReg r (some (0 + imm c))) :=
    executeADDI_run hr (by decide : IsRegister 0) hzero
  rw [executeAll_cons hstep] at hfirst
  cases hfirst
  rw [State.mem_setMem ha.1 ha.1, if_pos rfl, State.reg_setReg_self, zero_add]

theorem fieldPlaces_append (fields fields' : List FieldCode) :
    fieldPlaces (fields ++ fields') = fieldPlaces fields ++ fieldPlaces fields' :=
  List.filterMap_append

/-- The code of the fields stores into their words only. -/
theorem fields_frame (hcode : ∀ e ∈ fieldsCode fields, Computes e)
    (hplain : ∀ field ∈ fields, field.Plain)
    (hbase : ∀ {type cell value r}, .scalar type cell value r ∈ fields →
      (CodeGenerator.address cell).1 = heap)
    (hbound : ∀ k ∈ fieldPlaces fields, 0 ≤ k ∧ k < 2147483648) (hzero : s.reg 0 = some 0)
    (hrun : executeAll (fieldsCode fields) s = .ok () s') (h0 : 0 ≤ k) (hlt : k < 2147483648)
    (hk : k ∉ fieldPlaces fields) : s'.mem (imm k) = s.mem (imm k) := by
  induction fields generalizing s with
  | nil =>
    cases hrun
    rfl
  | cons field fields ih =>
    obtain ⟨s₁, hfirst, hrest⟩ := executeAll_append hrun
    have hcode' : ∀ e ∈ field.code, Computes e := fun e he => hcode e (List.mem_append_left _ he)
    have hplace : ∀ k', field.place = some k' → k' ∈ fieldPlaces (field :: fields) := fun k' h =>
      List.mem_filterMap.mpr ⟨field, List.mem_cons_self, h⟩
    have htail : ∀ k' ∈ fieldPlaces fields, k' ∈ fieldPlaces (field :: fields) := by
      intro k' hk'
      obtain ⟨f, hf, h⟩ := List.mem_filterMap.mp hk'
      exact List.mem_filterMap.mpr ⟨f, List.mem_cons_of_mem _ hf, h⟩
    have hzero₁ : s₁.reg 0 = some 0 := (executeAll_reg hcode' (Or.inl rfl) hfirst).trans hzero
    rw [ih (fun e he => hcode e (List.mem_append_right _ he))
      (fun f hf => hplain f (List.mem_cons_of_mem _ hf))
      (fun hf => hbase (List.mem_cons_of_mem _ hf)) (fun k' hk' => hbound k' (htail k' hk'))
      hzero₁ hrest fun hmem => hk (htail k hmem)]
    exact field_run hcode' (hplain field List.mem_cons_self)
      (fun h => hbase (by rw [h]; exact List.mem_cons_self)) hzero hfirst h0 hlt
      (fun k' h => hbound k' (hplace k' h)) fun h => hk (hplace k h)

/-- **Behind the code of the fields** every constant is in its word. -/
theorem fields_run {type : TypeDesc} {cell : SymbolTableCell} {r c : Int}
    (hcode : ∀ e ∈ fieldsCode fields, Computes e) (hplain : ∀ field ∈ fields, field.Plain)
    (hsep : Separate fields) (hw : totalWords (fields.filterMap FieldCode.declaration) < 2147483648)
    (hzero : s.reg 0 = some 0) (hrun : executeAll (fieldsCode fields) s = .ok () s')
    (hf : .scalar type cell [.mk3 .addi r 0 c] r ∈ fields) :
    s'.mem (imm (CodeGenerator.address cell).2) = some (imm c) := by
  obtain ⟨pre, post, rfl⟩ := List.append_of_mem hf
  have hplace : (CodeGenerator.address cell).2 ∈
      fieldPlaces (pre ++ .scalar type cell [.mk3 .addi r 0 c] r :: post) :=
    List.mem_filterMap.mpr ⟨_, hf, rfl⟩
  have hbound : ∀ k ∈ fieldPlaces (pre ++ .scalar type cell [.mk3 .addi r 0 c] r :: post),
      0 ≤ k ∧ k < 2147483648 := by
    intro k hk
    have := hsep.bound k hk
    omega
  have hnd := hsep.nodup
  rw [fieldPlaces_append] at hnd hbound
  have hfresh : (CodeGenerator.address cell).2 ∉ fieldPlaces post :=
    (List.nodup_cons.mp (List.nodup_append.mp hnd).2.1).1
  rw [fieldsCode_append] at hcode hrun
  obtain ⟨s₁, hpre, hrest⟩ := executeAll_append hrun
  obtain ⟨s₂, hfield, hpost⟩ := executeAll_append hrest
  have hcode₁ : ∀ e ∈ fieldsCode pre, Computes e := fun e he =>
    hcode e (List.mem_append_left _ he)
  have hcode₂ : ∀ e ∈ (FieldCode.scalar type cell [.mk3 .addi r 0 c] r).code, Computes e :=
    fun e he => hcode e (List.mem_append_right _ (List.mem_append_left _ he))
  have hcode₃ : ∀ e ∈ fieldsCode post, Computes e := fun e he =>
    hcode e (List.mem_append_right _ (List.mem_append_right _ he))
  have hzero₁ : s₁.reg 0 = some 0 := (executeAll_reg hcode₁ (Or.inl rfl) hpre).trans hzero
  have hzero₂ : s₂.reg 0 = some 0 := (executeAll_reg hcode₂ (Or.inl rfl) hfield).trans hzero₁
  obtain ⟨h0, hlt⟩ := hbound _ (by rw [← fieldPlaces_append]; exact hplace)
  rw [fields_frame hcode₃
    (fun f hmem => hplain f (List.mem_append_right _ (List.mem_cons_of_mem _ hmem)))
    (fun hmem => hsep.base (List.mem_append_right _ (List.mem_cons_of_mem _ hmem)))
    (fun k hk => hbound k (List.mem_append_right _ (List.mem_cons_of_mem _ hk)))
    hzero₂ hpost h0 hlt hfresh]
  exact constant_run hcode₂ (hsep.base hf) hzero₁ hfield

end Values

end Compiler
