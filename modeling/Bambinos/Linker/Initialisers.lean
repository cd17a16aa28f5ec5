import Bambinos.Compiler.FieldValues
import Bambinos.Linker.MainEnd
import Bambinos.Linker.Objects

/-!
# Which initialisers run

The initialisers of a module are the first instructions of its code. The linked binary is entered at
the first instruction of the main module; the others are entered through their methods only.

* `Visits` — a run, with the addresses that it executes
* `Visits.straight` — a run through instructions that do not jump
* `path_to_main` — the only way to the body of `main`, and what it does
* `Initialised` — every initialiser has run once, and every constant is in its field
* `initialised_iff` — that is so exactly when the imported modules have no initialisers
-/

namespace Linker

open Infra Compiler Vm MethodCode

variable {instructions : Instructions Word} {s s' s₁ : State Word} {as : List Nat} {a b m : Nat}
  {w w' : Word} {code : List OpCodeElement}

/-! ## paths -/

/-- A run that executes the instructions at the given addresses and is at an instruction then. -/
inductive Visits (instructions : Instructions Word) : State Word → List Nat → State Word → Prop
  | nil {a : Nat} {w : Word} {s : State Word} (h : At instructions a w s) :
      Visits instructions s [] s
  | cons {a : Nat} {w : Word} {s s₁ s₂ : State Word} {as : List Nat}
      (h : At instructions a w s) (hstep : step decode instructions w s = .ok () s₁)
      (hrest : Visits instructions s₁ as s₂) : Visits instructions s (a :: as) s₂

theorem Visits.at (h : Visits instructions s as s') : ∃ a w, At instructions a w s := by
  cases h with
  | nil h => exact ⟨_, _, h⟩
  | cons h _ _ => exact ⟨_, _, h⟩

theorem Visits.run (h : Visits instructions s as s') :
    ∃ es, Runs (MStep decode instructions) as.length s es s' := by
  induction h with
  | nil h => exact ⟨[], .nil _⟩
  | cons h hstep hrest ih =>
    obtain ⟨es, hruns⟩ := ih
    exact ⟨_, .cons ⟨_, _, h, hstep, rfl⟩ hruns⟩

theorem decode_opCode (w : Word) : (decode w).opCode = (w >>> 26).toNat := by
  unfold decode
  dsimp only
  split
  · rfl
  · split <;> rfl

theorem not_isCall_of_not_jumps (h : ¬ Jumps (decode w).opCode) : ¬ IsCall w := by
  intro hcall
  rw [decode_opCode, hcall] at h
  exact h (by decide)

/-- Where the machine is behind an instruction that does not jump. -/
theorem step_at (hat : At instructions a w s) (h : ¬ Jumps (decode w).opCode)
    (hstep : step decode instructions w s = .ok () s₁) (hat₁ : At instructions b w' s₁) :
    b = a + 1 := by
  unfold step at hstep
  obtain ⟨⟨⟩, s₂, hrun, hfetch⟩ := bind_eq_ok hstep
  have hpc := (fetch_at hfetch hat₁).1
  rw [dispatch_pc h hrun, hat.pc] at hpc
  injection hpc with hpc
  omega

/-- **A run through instructions that do not jump** ends among them, or leaves them at the end. -/
theorem Visits.straight (h : Visits instructions s as s') (hs : Here instructions a s)
    (hcode : Vm.Loaded decode instructions a code) (hstraight : Straight code) :
    (as.length < code.length ∧ Here instructions (a + as.length) s') ∨
      ∃ as' s₁, as = List.range' a code.length ++ as' ∧ Here instructions (a + code.length) s₁ ∧
        Visits instructions s (List.range' a code.length) s₁ ∧ Visits instructions s₁ as' s' := by
  induction code generalizing a s as with
  | nil =>
    obtain ⟨w, hat⟩ := hs
    exact Or.inr ⟨as, s, rfl, ⟨w, hat⟩, .nil hat, h⟩
  | cons e code ih =>
    cases h with
    | nil h => exact Or.inl ⟨Nat.succ_pos _, hs⟩
    | @cons a' w _ s₁ _ as hat hstep hrest =>
      obtain ⟨w₀, hat₀⟩ := hs
      obtain ⟨rfl, rfl⟩ := hat.unique hat₀
      obtain ⟨w₁, hw₁, hdecode, -⟩ := hcode.head
      have hw : w = w₁ := At.word_eq hat hw₁
      have hjumps : ¬ Jumps (decode w).opCode := by
        rw [hw, hdecode, fields_opCode]
        exact hstraight e List.mem_cons_self
      obtain ⟨b, w₂, hat₁⟩ := hrest.at
      have hb : b = a' + 1 := step_at hat hjumps hstep hat₁
      rw [hb] at hat₁
      have hlength : a' + 1 + code.length = a' + (e :: code).length := by
        rw [List.length_cons]
        omega
      rcases ih hrest ⟨w₂, hat₁⟩ hcode.tail fun e' he' =>
          hstraight e' (List.mem_cons_of_mem _ he') with
        ⟨hlt, hhere⟩ | ⟨as', s₂, has, hhere, hfirst, hvisits⟩
      · left
        rw [List.length_cons, List.length_cons, Nat.add_comm as.length, ← Nat.add_assoc]
        exact ⟨by omega, hhere⟩
      · right
        rw [hlength] at hhere
        exact ⟨as', s₂, by rw [has]; rfl, hhere, .cons hat hstep hfirst, hvisits⟩

/-- What a run through instructions that do not jump has done at their end. -/
theorem Visits.executed (h : Visits instructions s (List.range' a code.length) s')
    (hs : Here instructions a s) (hs' : Here instructions (a + code.length) s')
    (hcode : Vm.Loaded decode instructions a code) (hstraight : Straight code) :
    ∃ s₁, executeAll code s = .ok () s₁ ∧ Looks s₁ s' := by
  obtain ⟨es, hruns⟩ := h.run
  rw [List.length_range'] at hruns
  obtain ⟨w, hat⟩ := hs'
  obtain ⟨s₁, hall, -, hlooks⟩ := straight_inv hcode hstraight hs hruns hat.stands
  exact ⟨s₁, hall, hlooks⟩

/-- A `BSR` keeps the memory, and all registers but R31. -/
theorem step_bsr (hdecode : decode w = fields (.mk3 .bsr 0 0 (b : Int)))
    (hstep : step decode instructions w s = .ok () s₁) {c : Nat} (hat₁ : At instructions c w' s₁) :
    c = b ∧ s₁.reg sp = s.reg sp ∧ s₁.memory = s.memory := by
  have hne : ((b : Nat) : Int) ≠ -1 := by omega
  have hrun : dispatch (decode w) s = .ok () (s.jump b) := by
    rw [hdecode]
    exact executeBSR_run hne
  unfold step at hstep
  rw [bind_ok hrun] at hstep
  have hpc := (fetch_at hstep hat₁).1
  injection hpc with hpc
  obtain ⟨hregs, hmem⟩ := fetch_registers hstep
  refine ⟨by omega, ?_, hmem⟩
  have hjump : (s.jump b).reg sp = s.reg sp := State.reg_jump (by decide) (by decide)
  rw [← hjump]
  exact congrFun hregs _

/-! ## the way to the body of `main` -/

variable {cls : ClassCode}

/-- The first address of the body of `main`. -/
def mainBody (cls : ClassCode) : Nat := cls.mainStart + 4

/-- The addresses of a run to the body of `main`. -/
def pathToMain (cls : ClassCode) : List Nat :=
  List.range' 1 (1 + cls.declarations.length) ++
    (2 + cls.declarations.length) :: List.range' cls.mainStart 4

theorem mem_pathToMain (h : a ∈ pathToMain cls) : a < mainBody cls := by
  have hstart : 3 + cls.declarations.length ≤ cls.mainStart := by
    unfold ClassCode.mainStart
    omega
  unfold mainBody
  rcases List.mem_append.mp h with h | h
  · have := (List.mem_range'_1.mp h).2
    omega
  · rcases List.mem_cons.mp h with rfl | h
    · omega
    · have := (List.mem_range'_1.mp h).2
      omega

theorem pathToMain_nodup (cls : ClassCode) : (pathToMain cls).Nodup := by
  have hstart : 3 + cls.declarations.length ≤ cls.mainStart := by
    unfold ClassCode.mainStart
    omega
  unfold pathToMain
  rw [List.nodup_append]
  refine ⟨List.nodup_range', List.nodup_cons.mpr ⟨?_, List.nodup_range'⟩, ?_⟩
  · intro h
    have := (List.mem_range'_1.mp h).1
    omega
  · intro a ha b hb hab
    have := (List.mem_range'_1.mp ha).2
    rcases List.mem_cons.mp hb with rfl | hb
    · omega
    · have := (List.mem_range'_1.mp hb).1
      omega

/-- The addresses of the initialisers of a module. -/
def initialisers (fields : List FieldCode) : List Nat := List.range' 2 (fieldsCode fields).length

/-- The initialisers of the main module are on the way. -/
theorem initialiser_mem (h : a ∈ initialisers cls.fields) : a ∈ pathToMain cls := by
  obtain ⟨hlo, hhi⟩ := List.mem_range'_1.mp h
  have hlength : cls.declarations.length = (fieldsCode cls.fields).length := rfl
  exact List.mem_append_left _ (List.mem_range'_1.mpr ⟨by omega, by omega⟩)

/-- What the code of a class does before the jump to `main`. -/
def startUp (cls : ClassCode) : List OpCodeElement := .mk3 .addi sp 0 4096 :: cls.declarations

/--
What the class is like: the code of its fields computes and stores, it fits into the instructions and
leaves the last words of the memory to `main`.
-/
structure StartsPlainly (cls : ClassCode) : Prop where
  computes : ∀ e ∈ cls.declarations, Computes e ∧ OperandsFit e
  words : totalWords (cls.fields.filterMap FieldCode.declaration) ≤ 4093
  jump : cls.mainStart < 2 ^ 25
  size : cls.main.size.natAbs ≤ maxImmediate

/-- What the instructions have to be for the path. -/
structure EntersMain (cls : ClassCode) (instructions : Instructions Word) : Prop where
  start : Vm.Loaded decode instructions 1 cls.initialisation
  prologue : Vm.Loaded decode instructions cls.mainStart (prologue cls.main.size)

theorem startUp_straight (h : StartsPlainly cls) : Straight (startUp cls) := by
  intro e he
  rcases List.mem_cons.mp he with rfl | hmem
  · decide
  · exact (h.computes e hmem).1.straight

theorem prologue_straight (size : Int) : Straight (prologue size) := by
  intro e he
  unfold MethodCode.prologue at he
  simp only [List.mem_cons, List.not_mem_nil, or_false] at he
  rcases he with rfl | rfl | rfl | rfl
  · decide
  · decide
  · decide
  · exact (by decide : ¬ Jumps OpCode.subi.code)

/-- **There is one way to the body of `main`**: the code of the fields, the jump, the prologue. -/
theorem path_to_main (h : EntersMain cls instructions) (hplain : StartsPlainly cls)
    (hs : Here instructions 1 s) (hvisits : Visits instructions s as s')
    (hs' : Here instructions (mainBody cls) s') (hfirst : mainBody cls ∉ as) :
    as = pathToMain cls ∧ ∃ s₁ s₂ s₃, executeAll (startUp cls) s = .ok () s₁ ∧
      (s₂.reg sp = s₁.reg sp ∧ s₂.memory = s₁.memory) ∧
      executeAll (prologue cls.main.size) s₂ = .ok () s₃ ∧ Looks s₃ s' := by
  have hstart : 3 + cls.declarations.length ≤ cls.mainStart := by
    unfold ClassCode.mainStart
    omega
  have hunique : ∀ {a : Nat}, Here instructions a s' → a = mainBody cls := fun h => h.unique hs'
  unfold mainBody at hunique
  -- the code of the fields has no jump: a visit ends inside it or gets behind it
  have hload : Vm.Loaded decode instructions 1
      (startUp cls ++ [.mk3 .bsr 0 0 (cls.mainStart : Int)]) := h.start
  have hlength : (startUp cls).length = 1 + cls.declarations.length := Nat.add_comm _ _
  rcases hvisits.straight hs hload.left (startUp_straight hplain) with
    ⟨hlt, hhere⟩ | ⟨as₁, s₁, has, hhere₁, hstartUp, hvisits₁⟩
  · have := hunique hhere
    omega
  · obtain ⟨t₁, ht₁, hlooks₁⟩ := hstartUp.executed hs hhere₁ hload.left (startUp_straight hplain)
    have hcall := hload.right
    have haddr : 1 + (startUp cls).length = 2 + cls.declarations.length := by omega
    rw [haddr] at hhere₁ hcall
    -- the next step is the call of `main`, and it goes to the prologue
    cases hvisits₁ with
    | nil =>
      have := hunique hhere₁
      omega
    | @cons a w _ s₂ _ as₂ hat hstep hvisits₂ =>
      obtain ⟨w₁, hat₁⟩ := hhere₁
      obtain ⟨rfl, rfl⟩ := hat.unique hat₁
      obtain ⟨w₀, hw₀, hdecode, -⟩ := hcall.head
      have hw : w = w₀ := At.word_eq hat hw₀
      rw [← hw] at hdecode
      obtain ⟨b, w₂, hat₂⟩ := hvisits₂.at
      obtain ⟨hb, hreg, hmem⟩ := step_bsr hdecode hstep hat₂
      rw [hb] at hat₂
      have hprologue : (prologue cls.main.size).length = 4 := rfl
      -- the prologue has no jump either
      rcases hvisits₂.straight ⟨w₂, hat₂⟩ h.prologue (prologue_straight _) with
        ⟨hlt, hhere⟩ | ⟨as₃, s₃, has₂, hhere₃, henter, hvisits₃⟩
      · have := hunique hhere
        omega
      · obtain ⟨t₃, ht₃, hlooks₃⟩ :=
          henter.executed ⟨w₂, hat₂⟩ hhere₃ h.prologue (prologue_straight _)
        cases hvisits₃ with
        | nil =>
          refine ⟨?_, t₁, s₂, t₃, ht₁, ⟨?_, ?_⟩, ht₃, hlooks₃⟩
          · rw [has, has₂, List.append_nil, hlength]
            rfl
          · rw [hreg, hlooks₁.reg]
          · rw [hmem, hlooks₁.memory]
        -- a visit that goes on from the body would have met it before
        | @cons a₃ w₃ _ s₄ _ as₄ hat₃ _ _ =>
          obtain ⟨w₄, hat₄⟩ := hhere₃
          have ha₃ := (hat₃.unique hat₄).1
          refine absurd ?_ hfirst
          rw [has, has₂, ha₃, mainBody]
          simp [hprologue]

/-! ## the values of the constants -/

/-- The prologue writes to the end of the memory. -/
theorem prologue_mem {k : Int} {size : Int} (hsp : s.reg sp = some 4096)
    (hrun : executeAll (prologue size) s = .ok () s') (h0 : 0 ≤ k) (hk : k ≤ 4093) :
    s'.mem (imm k) = s.mem (imm k) := by
  have hlink : IsRegister lnk := by decide
  obtain ⟨_, s₁, h₁, hrest₁⟩ := bind_eq_ok hrun
  obtain ⟨_, s₂, h₂, hrest₂⟩ := bind_eq_ok hrest₁
  obtain ⟨_, s₃, h₃, hrest₃⟩ := bind_eq_ok hrest₂
  obtain ⟨_, s₄, h₄, hend⟩ := bind_eq_ok hrest₃
  cases hend
  have hpush₁ : executePSH lnk sp 1 s = .ok () s₁ := h₁
  have hpush₂ : executePSH fp sp 1 s₁ = .ok () s₂ := h₂
  have hne : ∀ n : Int, 4094 ≤ n → n < 4096 → imm k ≠ imm n := fun n hlo hhi heq => by
    have := imm_injective (by omega) (by omega) heq
    omega
  have hpos : 0 ≤ (imm k).toInt := by
    rw [toInt_imm (by omega)]
    exact h0
  obtain ⟨v, hv, ha, x, rfl⟩ := executePSH_eq_ok hpush₁
  cases hv.symm.trans hsp
  obtain ⟨v', hv', ha', x', rfl⟩ := executePSH_eq_ok hpush₂
  have hsp' : ((s.setReg sp (some (4096 - imm 1))).setMem (4096 - imm 1) x).reg sp =
      some (4096 - imm 1) := by
    rw [State.reg_setMem, State.reg_setReg_self]
  cases hv'.symm.trans hsp'
  have hmem₃ := ((dispatch_keeps (fields (.mk3 .add fp 0 sp)) (by decide) (by decide) _).of_eq_ok
    h₃).2
  have hmem₄ : s'.memory = s₃.memory :=
    ((dispatch_keeps (fields (.mk3 .subi sp sp size)) (by exact (by decide : (1 : Nat) ≠ 16))
      (by exact (by decide : (1 : Nat) ≠ 18)) s₃).of_eq_ok h₄).2
  have hlast : (4096 - imm 1 : Word) = imm 4095 := by decide
  have hbefore : (4096 - imm 1 - imm 1 : Word) = imm 4094 := by decide
  have hsame : s'.mem (imm k) = ((((s.setReg sp (some (4096 - imm 1))).setMem (4096 - imm 1) x).setReg sp
      (some (4096 - imm 1 - imm 1))).setMem (4096 - imm 1 - imm 1) x').mem (imm k) :=
    congrFun (hmem₄.trans hmem₃) _
  rw [hsame, State.mem_setMem ha'.1 hpos, hbefore, if_neg (hne 4094 (by omega) (by omega)),
    State.mem_setReg, State.mem_setMem ha.1 hpos, hlast, if_neg (hne 4095 (by omega) (by omega)),
    State.mem_setReg]

/-- **The constants of the main module** are in their fields when its `main` is entered. -/
theorem main_constants {g : CodeGenerator} (hsource : SourceCode cls.fields cls.methods g)
    (h : EntersMain cls instructions) (hplain : StartsPlainly cls) (hs : Here instructions 1 s)
    (hzero : s.reg 0 = some 0) (hvisits : Visits instructions s as s')
    (hs' : Here instructions (mainBody cls) s') (hfirst : mainBody cls ∉ as) {type : TypeDesc}
    {cell : SymbolTableCell} {r c : Int}
    (hf : .scalar type cell [.mk3 .addi r 0 c] r ∈ cls.fields) :
    0 ≤ (imm (CodeGenerator.address cell).2).toInt ∧
      s'.mem (imm (CodeGenerator.address cell).2) = some (imm c) := by
  obtain ⟨-, s₁, s₂, s₃, hstartUp, ⟨hreg, hmem⟩, hprologue, hlooks⟩ :=
    path_to_main h hplain hs hvisits hs' hfirst
  have hwords := hplain.words
  have hsep := hsource.separate (by omega)
  obtain ⟨hlow, hhigh⟩ := hsep.bound (CodeGenerator.address cell).2
    (List.mem_filterMap.mpr ⟨_, hf, rfl⟩)
  have hadd : dispatch (fields (.mk3 .addi sp 0 4096)) s =
      .ok () (s.setReg sp (some (0 + imm 4096))) :=
    executeADDI_run (by decide : IsRegister sp) (by decide) hzero
  have hrun : executeAll cls.declarations (s.setReg sp (some (0 + imm 4096))) = .ok () s₁ := by
    rw [← hstartUp]
    exact (executeAll_cons hadd).symm
  have hcomputes : ∀ e ∈ cls.declarations, Computes e := fun e he => (hplain.computes e he).1
  have hzero' : (s.setReg sp (some (0 + imm 4096))).reg 0 = some 0 := by
    rw [State.reg_setReg (by decide) (by decide), if_neg (by decide)]
    exact hzero
  have hvalue := fields_run hcomputes hsource.plain hsep (by omega) hzero' hrun hf
  have hsp : s₂.reg sp = some 4096 := by
    rw [hreg, executeAll_reg hcomputes (Or.inr (by decide)) hrun, State.reg_setReg_self]
    rfl
  refine ⟨by rw [toInt_imm (by omega)]; omega, ?_⟩
  rw [hlooks.mem, prologue_mem hsp hprologue (by omega) (by omega), ← hvalue]
  exact congrFun hmem _

/-! ## the linked binary -/

theorem startUp_getElem? {i : Nat} {e : OpCodeElement} (he : cls.initialisation[i]? = some e) :
    (i < (startUp cls).length ∧ e ∈ startUp cls) ∨
      i = 1 + cls.declarations.length ∧ e = .mk3 .bsr 0 0 cls.mainStart := by
  have hcode : cls.initialisation = startUp cls ++ [.mk3 .bsr 0 0 (cls.mainStart : Int)] := rfl
  have hlength : (startUp cls).length = 1 + cls.declarations.length := Nat.add_comm _ _
  rw [hcode] at he
  by_cases hi : i < (startUp cls).length
  · rw [List.getElem?_append_left hi] at he
    exact Or.inl ⟨hi, List.mem_of_getElem? he⟩
  · rw [List.getElem?_append_right (by omega)] at he
    obtain ⟨hlt, heq⟩ := List.getElem?_eq_some_iff.mp he
    rw [List.length_singleton] at hlt
    rw [List.getElem_singleton] at heq
    exact Or.inr ⟨by omega, heq.symm⟩

theorem initialisation_getElem? {i : Nat} {e : OpCodeElement}
    (he : cls.initialisation[i]? = some e) : cls.code[i]? = some e := by
  have hi := (List.getElem?_eq_some_iff.mp he).1
  rw [ClassCode.code, List.getElem?_append_left hi]
  exact he

theorem prologue_getElem? {i : Nat} {e : OpCodeElement}
    (he : (prologue cls.main.size)[i]? = some e) : cls.code[cls.mainStart - 1 + i]? = some e := by
  have hi := (List.getElem?_eq_some_iff.mp he).1
  rw [ClassCode.code_getElem?, ClassCode.main_code, List.append_assoc,
    List.getElem?_append_left hi]
  exact he

theorem startUp_fits (h : StartsPlainly cls) : ∀ e ∈ startUp cls, OperandsFit e := by
  intro e he
  rcases List.mem_cons.mp he with rfl | hmem
  · decide
  · exact (h.computes e hmem).2

theorem prologue_fits (h : StartsPlainly cls) : ∀ e ∈ prologue cls.main.size, OperandsFit e := by
  intro e he
  unfold MethodCode.prologue at he
  simp only [List.mem_cons, List.not_mem_nil, or_false] at he
  rcases he with rfl | rfl | rfl | rfl
  · decide
  · decide
  · decide
  · exact operandsFit_format1 (by decide) (by decide) (by decide) h.size

/-- What does not jump is decoded as it was meant, and is no call. -/
theorem fits_word {e : OpCodeElement} (hfits : OperandsFit e) (hjumps : ¬ Jumps e.instruction.code) :
    decode e.word = fields e ∧ ¬ IsCall e.word := by
  have hdecode := decode_word hfits
  refine ⟨hdecode, not_isCall_of_not_jumps ?_⟩
  rwa [hdecode, fields_opCode]

section Linked

variable {files : Files} {filename mainName : String} {main : Contents} {rest : List Placed}
  {b₀ : BinaryFile} {fuel : Nat} {classes : String → CompiledClass}

/-- The class is the one that was compiled. -/
structure IsClass (cls : ClassCode) (cc : CompiledClass) : Prop where
  fields : cc.fields = cls.fields
  methods : cc.methods = cls.methods

theorem IsClass.sourceCode {cc : CompiledClass} (h : IsClass cls cc) :
    SourceCode cls.fields cls.methods cc.cg := by
  rw [← h.fields, ← h.methods]
  exact cc.code

theorem IsClass.words {cc : CompiledClass} (h : IsClass cls cc) (hobject : cc.IsObject main) :
    main.opCode = cls.words := by
  rw [hobject.opCode, CodeGenerator.writeOpCode, h.sourceCode.classCode]
  rfl

theorem StartsPlainly.entersMain {binary : List Word} (h : StartsPlainly cls) {cc : CompiledClass}
    (hcls : IsClass cls cc) (hobject : cc.IsObject main) (hl : Linkable files mainName main)
    (hlinked : Linked files mainName main rest binary)
    (houtput : Output cls (linkedCode binary)) : EntersMain cls (linkedCode binary) where
  start := by
    intro i e he
    have hcode := initialisation_getElem? he
    rcases startUp_getElem? he with ⟨-, hmem⟩ | ⟨rfl, rfl⟩
    · obtain ⟨hdecode, hcall⟩ := fits_word (startUp_fits h e hmem) (startUp_straight h e hmem)
      obtain ⟨hw, hlt⟩ := houtput.word hcode hcall
      rw [Nat.add_comm 1 i]
      exact ⟨_, hw, hdecode, by omega⟩
    · have hw : (mainPlaced mainName main).alone[2 + cls.declarations.length]? =
          some (some (OpCodeElement.word (.mk3 .bsr 0 0 cls.mainStart))) := by
        show (load main.opCode)[2 + cls.declarations.length]? = _
        rw [hcls.words hobject, show 2 + cls.declarations.length = 1 + cls.declarations.length + 1 by
          omega]
        refine load_getElem?_succ ?_
        rw [ClassCode.words, List.getElem?_map, hcode]
        rfl
      have hnoCall : NoCall (mainPlaced mainName main) (2 + cls.declarations.length) :=
        hobject.noCall fun f hf => (hcls.sourceCode.fixupTable f hf).2.1
      obtain ⟨w', hw', hlt, hsame⟩ := linkedCode_image hlinked hl List.mem_cons_self hw
      rw [hsame hnoCall, Placed.image_main rfl] at hw'
      rw [Placed.image_main rfl] at hlt
      rw [show 1 + (1 + cls.declarations.length) = 2 + cls.declarations.length by omega]
      refine ⟨_, hw', decode_word ?_, hlt⟩
      show ((cls.mainStart : Int)).natAbs < 2 ^ 25
      rw [Int.natAbs_natCast]
      exact h.jump
  prologue := by
    intro i e he
    have hmem := List.mem_of_getElem? he
    obtain ⟨hdecode, hcall⟩ := fits_word (prologue_fits h e hmem) (prologue_straight _ e hmem)
    have hpos : 0 < cls.mainStart := by
      unfold ClassCode.mainStart
      omega
    obtain ⟨hw, hlt⟩ := houtput.word (prologue_getElem? he) hcall
    rw [show cls.mainStart - 1 + i + 1 = cls.mainStart + i by omega] at hw
    exact ⟨_, hw, hdecode, by omega⟩

/-- The machine starts at the first instruction of the main class. -/
theorem Output.start (h : Output cls instructions) : Here instructions 1 (init instructions) := by
  have he : cls.code[0]? = some (.mk3 .addi sp 0 4096) := rfl
  obtain ⟨hw, hlt⟩ := h.word he (by decide)
  refine ⟨_, hw, ?_, ?_, ?_, hlt⟩ <;> unfold init Vm.start <;> rw [hw] <;> rfl

theorem init_zero (instructions : Instructions Word) : (init instructions).reg 0 = some 0 := by
  unfold init Vm.start State.reg
  split <;> rfl

/-- The initialisers of an imported module are behind the code of the main class. -/
theorem Linked.initialisers_behind {binary : List Word} (h : Linked files mainName main rest binary)
    (hcode : main.opCode = cls.words) {p : Placed} (hp : p ∈ rest) (ha : 2 ≤ a) :
    mainBody cls < p.image a := by
  have hb := (contiguous_bounds h.contiguous hp).1
  have hlength : main.opCode.length = cls.code.length := by
    rw [hcode]
    exact List.length_map _
  have hcls := cls.code_length
  unfold ClassCode.mainBehind ClassCode.mainEpilogue at hcls
  unfold Placed.image mainBody
  omega

/--
The fields of all modules are initialised when a run that has executed the instructions at the
addresses `as` is in the state `s`.
-/
structure Initialised (classes : String → CompiledClass) (ps : List Placed)
    (code : Instructions Word) (as : List Nat) (s : State Word) : Prop where
  /-- Every instruction of an initialiser was executed once. -/
  once : ∀ p ∈ ps, ∀ a ∈ initialisers (classes p.name).fields, as.count (p.image a) = 1
  /-- From then on a constant is found in its field, until something is stored there. -/
  holds : ∀ p ∈ ps, ∀ {type cell r c},
    .scalar type cell [.mk3 .addi r 0 c] r ∈ (classes p.name).fields →
      ∀ {n es s'}, Runs (MStep decode code) n s es s' →
        (∀ e ∈ es, e.1 ≠ imm (CodeGenerator.address cell).2) →
          s'.mem (imm (CodeGenerator.address cell).2) = some (imm c)

/-- On the way to the body of `main` the initialisers of the main module are executed, once. -/
theorem path_initialised_iff {binary : List Word} (h : Linked files mainName main rest binary)
    (hcls : IsClass cls (classes mainName)) (hcode : main.opCode = cls.words) :
    (∀ p ∈ mainPlaced mainName main :: rest, ∀ a ∈ initialisers (classes p.name).fields,
      (pathToMain cls).count (p.image a) = 1) ↔
      ∀ p ∈ rest, fieldsCode (classes p.name).fields = [] := by
  constructor
  · intro honce p hp
    by_contra hne
    have hpos := List.length_pos_of_ne_nil hne
    have hcount := honce p (List.mem_cons_of_mem _ hp) 2
      (List.mem_range'_1.mpr ⟨Nat.le_refl 2, by omega⟩)
    have hmem : p.image 2 ∈ pathToMain cls := List.count_pos_iff.mp (by omega)
    have hbehind := h.initialisers_behind hcode hp (Nat.le_refl 2)
    have := mem_pathToMain hmem
    omega
  · intro hnone p hp a ha
    rcases List.mem_cons.mp hp with rfl | hp
    · have hname : (mainPlaced mainName main).name = mainName := rfl
      rw [hname, hcls.fields] at ha
      rw [Placed.image_main rfl]
      exact List.count_eq_one_of_mem (pathToMain_nodup cls) (initialiser_mem ha)
    · rw [initialisers, hnone p hp] at ha
      cases ha

end Linked

def lexIdent (name : String) : Lexeme := (.tSident, some (.text name))

/-- `int x = n;` -/
def intField (n : Int) : List Lexeme :=
  [(.tInt, none), lexIdent "x", (.tEql, none), (.tNumber, some (.number n)), (.tSemicolon, none)]

/-- `int x = 5; public static int get() { return x; }` -/
def getBody : List Lexeme :=
  intField 5 ++ [(.tPublic, none), (.tStatic, none), (.tInt, none), lexIdent "get",
    (.tLparen, none), (.tRparen, none), (.tLbraces, none), (.tReturn, none), lexIdent "x",
    (.tSemicolon, none), (.tRbraces, none)]

/-- `int x = 1; public static void main() { int y = Util.get(); }` -/
def callsGetBody : List Lexeme :=
  intField 1 ++ [(.tPublic, none), (.tStatic, none), (.tVoid, none), lexIdent "main",
    (.tLparen, none), (.tRparen, none), (.tLbraces, none), (.tInt, none), lexIdent "y",
    (.tEql, none), lexIdent "Util", (.tDot, none), lexIdent "get", (.tLparen, none),
    (.tRparen, none), (.tSemicolon, none), (.tRbraces, none)]

/-- A class of the given name, behind some imports. -/
def classLexemes (name : String) (imports body : List Lexeme) : List Lexeme :=
  imports ++ [(.tPublic, none), (.tClass, none), lexIdent name, (.tLbraces, none)] ++ body ++
    [(.tRbraces, none)]

def classSource (name : String) (imports body : List Lexeme)
    (symbolFiles : List (String × SymbolTableList)) : Source :=
  { className := name, symbolFiles := symbolFiles
    tokens := (classLexemes name imports body).map fun l =>
      { type := l.1, value := l.2, lineNumber := 1 }
    lastLine := 1 }

/-- `public class Util { int x = 5; public static int get() { return x; } }` -/
def getSource : Source := classSource "Util" [] getBody []

/-- `import Util; public class Main { int x = 1; public static void main() { int y = Util.get(); } }` -/
def callsGetSource : Source :=
  classSource "Main" [(.tImport, none), lexIdent "Util", (.tSemicolon, none)] callsGetBody
    [("Util.sym", (getSource.generated 60).symbolTable)]

/-- The field `int x = n`. -/
def xField (n : Int) : FieldCode :=
  .scalar .intType ⟨"x", .var, some .intType, 0, -1, 1, true⟩ [.mk3 .addi 1 0 n] 1

def getMethod : ClassMethod := ⟨⟨"get", [.mk3 .ldw 1 0 1, .mk3 .bsr 0 0 11], 0⟩, []⟩

/-- The code of the main class. -/
def callsGet : ClassCode :=
  { fields := [xField 1], before := [], after := [], main_name := rfl
    others := ClassCode.no_others
    main := ⟨⟨"main", [.mk3 .bsr 0 0 (-55), .mk3 .stw 0 fp (-1)], 1⟩, []⟩ }

/-- The symbol table behind `int x`. -/
def xTable : SymbolTableList := (SymbolTableList.declareAll [.scalar .intType "x"] .empty).getD .empty

theorem callsGetSource_code :
    SourceCode callsGet.fields callsGet.methods (callsGetSource.generated 60) where
  opCode := by decide +kernel
  symbols := ⟨xTable, (callsGetSource.generated 60).symbolTable.symList.drop 1,
    (by decide +kernel : SymbolTableList.declareAll [.scalar .intType "x"] .empty = some xTable), by
      intro field hf
      obtain rfl := List.mem_singleton.mp hf
      exact ⟨rfl, (by decide +kernel : _ ∈ xTable.symList)⟩, by decide +kernel, by decide +kernel,
    by decide +kernel⟩
  plain := by
    intro field hf
    obtain rfl := List.mem_singleton.mp hf
    exact (by decide : ∀ e ∈ [OpCodeElement.mk3 .addi 1 0 1], e.instruction ≠ .stw)
  names := by decide
  mainAddr := by decide +kernel
  fixupTable := by decide +kernel

theorem getSource_code : SourceCode [xField 5] [getMethod] (getSource.generated 60) where
  opCode := by decide +kernel
  symbols := ⟨xTable, (getSource.generated 60).symbolTable.symList.drop 1,
    (by decide +kernel : SymbolTableList.declareAll [.scalar .intType "x"] .empty = some xTable), by
      intro field hf
      obtain rfl := List.mem_singleton.mp hf
      exact ⟨rfl, (by decide +kernel : _ ∈ xTable.symList)⟩, by decide +kernel, by decide +kernel,
    by decide +kernel⟩
  plain := by
    intro field hf
    obtain rfl := List.mem_singleton.mp hf
    exact (by decide : ∀ e ∈ [OpCodeElement.mk3 .addi 1 0 5], e.instruction ≠ .stw)
  names := by decide
  mainAddr := by decide +kernel
  fixupTable := by decide +kernel

def callsGetClass : CompiledClass where
  source := callsGetSource
  cg := callsGetSource.generated 60
  fields := callsGet.fields
  methods := callsGet.methods
  compiles := Source.compiles (by decide +kernel) (by decide +kernel)
  code := callsGetSource_code

def getClass : CompiledClass where
  source := getSource
  cg := getSource.generated 60
  fields := [xField 5]
  methods := [getMethod]
  compiles := Source.compiles (by decide +kernel) (by decide +kernel)
  code := getSource_code

/-- The object files. -/
def callsGetObj : Contents :=
  { offsetTable := [⟨"x", 0⟩, ⟨"main", 5⟩], fixupTable := [⟨"Util", "get", 9⟩]
    opCode := callsGet.words }

def getObj : Contents :=
  { offsetTable := [⟨"x", 0⟩, ⟨"get", 5⟩], fixupTable := []
    opCode := (startCode [xField 5] (-5) ++ methodsCode [getMethod]).map OpCodeElement.word }

def callsGetFiles : Files := [("Main.obj", callsGetObj), ("Util.obj", getObj)]

/-- The class of every module. -/
def callsGetClasses (n : String) : CompiledClass := if n = "Main" then callsGetClass else getClass

theorem callsGet_isClass : IsClass callsGet (callsGetClasses "Main") := ⟨rfl, rfl⟩

theorem callsGetObj_isObject : callsGetClass.IsObject callsGetObj where
  opCode := by decide +kernel
  fixupTable := by decide +kernel
  offsetTable := by decide +kernel

theorem getObj_isObject : getClass.IsObject getObj where
  opCode := by decide +kernel
  fixupTable := by decide +kernel
  offsetTable := by decide +kernel

theorem callsGet_fromSource : FromSource callsGetFiles "Main" callsGetObj callsGetClasses := by
  refine fromSource_of_files callsGetObj_isObject fun n c hc => ?_
  have hmem : (n ++ ".obj", c) ∈ callsGetFiles := by
    obtain ⟨l₁, l₂, hfiles, -⟩ := List.lookup_eq_some_iff.mp hc
    rw [hfiles]
    exact List.mem_append_right _ List.mem_cons_self
  unfold callsGetFiles at hmem
  simp only [List.mem_cons, List.not_mem_nil, or_false, Prod.mk.injEq] at hmem
  unfold callsGetClasses
  rcases hmem with ⟨hn, rfl⟩ | ⟨hn, rfl⟩
  · have : n = "Main" := by
      refine String.toList_injective ?_
      have := congrArg String.toList hn
      rw [String.toList_append] at this
      exact List.append_cancel_right (this.trans (by rfl : _ = "Main".toList ++ ".obj".toList))
    rw [if_pos this]
    exact callsGetObj_isObject
  · have : n ≠ "Main" := by
      rintro rfl
      exact absurd hn (by decide)
    rw [if_neg this]
    exact getObj_isObject

theorem callsGet_linkable : Linkable callsGetFiles "Main" callsGetObj := by
  have hmain : WellFormed callsGetObj ∧ NamesExisting callsGetFiles "Main" callsGetObj callsGetObj := by
    refine ⟨⟨by decide, by decide, by decide, by decide, ?_⟩, ?_⟩
    · intro f hf
      obtain rfl := List.mem_singleton.mp hf
      exact ⟨8, _, rfl, rfl, by decide⟩
    · intro f hf
      obtain rfl := List.mem_singleton.mp hf
      exact ⟨getObj, rfl, ⟨"get", 5⟩, by decide, rfl⟩
  have hutil : WellFormed getObj ∧ NamesExisting callsGetFiles "Main" callsGetObj getObj :=
    ⟨⟨by decide, by decide, by decide, by decide, List.forall_mem_nil _⟩, List.forall_mem_nil _⟩
  refine linkable_of_files fun c hc => ?_
  simp only [callsGetFiles, List.map_cons, List.map_nil, List.mem_cons, List.not_mem_nil,
    or_false] at hc
  rcases hc with rfl | rfl | rfl
  · exact hmain
  · exact hmain
  · exact hutil

theorem callsGet_startsPlainly : StartsPlainly callsGet where
  computes := by decide
  words := by decide
  jump := by decide
  size := by decide

/-- The addresses of a run of the given number of turns. -/
def path (instructions : Instructions Word) : Nat → State Word → List Nat
  | 0, _ => []
  | n + 1, s =>
    match s.ir with
    | none => []
    | some w =>
      match step decode instructions w s with
      | .ok _ s' => s.cip.toNat :: path instructions n s'
      | .error _ _ => []

theorem follow_visits : ∀ {n : Nat} {s : State Word}, follow decode instructions n s = some s' →
    Here instructions a s' → Visits instructions s (path instructions n s) s'
  | 0, s, h, hhere => by
    cases h
    obtain ⟨w, hat⟩ := hhere
    exact .nil hat
  | n + 1, s, h, hhere => by
    unfold follow at h
    unfold path
    cases hir : s.ir with
    | none =>
      rw [hir] at h
      cases h
    | some w =>
      rw [hir] at h
      dsimp only at h ⊢
      split at h
      · next hat =>
        obtain ⟨hword, hcip, hpc, hlt⟩ := hat
        cases hstep : step decode instructions w s with
        | error e s₁ =>
          rw [hstep] at h
          cases h
        | ok u s₁ =>
          rw [hstep] at h
          exact .cons ⟨hword, hir, hcip, hpc, hlt⟩ hstep (follow_visits h hhere)
      · cases h

/-- The linked program; the call of `get` goes to the first instruction of its prologue. -/
def callsGetBinary : List Word :=
  header :: (callsGet.words.set 8 (OpCodeElement.word (.mk3 .bsr 0 0 19)) ++
    OpCodeElement.word (.mk3 .bsr 0 0 (-1)) :: getObj.opCode)

end Linker
