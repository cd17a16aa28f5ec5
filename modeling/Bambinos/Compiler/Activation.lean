import Bambinos.Compiler.ClassCode
import Bambinos.Vm.Memory
import Bambinos.Vm.Straight

/-!
# Activation frames

What the machine does from the entry of a method to its `RET`, calls of other methods included.

* `Program` — methods at their addresses
* `BodyRun` — a run of the body of a method: its own instructions, and calls that have returned
* `Returns` — from the entry of a method to behind its `RET`, with calls nested to a depth
* `returns_restored` — the stack pointer, the frame pointer and the program counter are restored
-/

namespace Compiler

open Infra Vm

/-! ## programs -/

/-- A method of `params` parameters at an address. -/
structure MethodAt where
  entry : Nat
  params : Nat
  code : MethodCode
deriving DecidableEq, Repr

namespace MethodAt

/-- The address behind the prologue. -/
def first (m : MethodAt) : Nat := m.entry + 4

/-- The address of the epilogue. -/
def last (m : MethodAt) : Nat := m.first + m.code.body.length

end MethodAt

/-- A program in the memory of the machine. -/
structure Program (ι : Type) where
  decode : ι → Fields
  instructions : Instructions ι
  methods : List MethodAt
  loaded : ∀ m ∈ methods, Loaded decode instructions m.entry m.code.code
  /-- The method `main` does not return. -/
  returns : ∀ m ∈ methods, m.code.name ≠ "main"
  /-- The array is one of Java. -/
  length_lt : instructions.length < 2 ^ 31

/-- A cell that the body of a method may write to: below the frame pointer, or a parameter. -/
def Allowed (frame : Word) (params : Nat) (a : Word) : Prop :=
  a.toInt < frame.toInt ∨ frame.toInt + 2 ≤ a.toInt ∧ a.toInt ≤ frame.toInt + params + 1

section Runs

variable {ι : Type} (P : Program ι)

/-- A turn of the loop of `execute`. -/
abbrev Program.Step (s : State ι) (es : List (Word × Option Word)) (s' : State ι) : Prop :=
  MStep P.decode P.instructions s es s'

/-- The machine is in the body of a method. -/
def MethodAt.Within (m : MethodAt) (s : State ι) : Prop :=
  ∃ p, m.first ≤ p ∧ p < m.last ∧ Here P.instructions p s

/-- The method is called; `p` is the address of the `BSR`. -/
def CallStep (p : Nat) (callee : MethodAt) (s s' : State ι) : Prop :=
  ∃ w, At P.instructions p w s ∧ P.decode w = fields (.mk3 .bsr 0 0 callee.entry) ∧ P.Step s [] s'

/-- What an instruction of a body leaves. -/
def Own (s s' : State ι) : Prop := s'.reg fp = s.reg fp ∧ s'.reg 0 = some 0

/-- A run of the body of a method; `call` is a call that has returned. -/
inductive BodyRun (call : MethodAt → State ι → List (Word × Option Word) → State ι → Prop)
    (m : MethodAt) : State ι → List (Word × Option Word) → State ι → Prop
  | nil (s : State ι) : BodyRun call m s [] s
  | own {s s₁ s₂ : State ι} {es es' : List (Word × Option Word)} (hin : m.Within P s)
      (hstep : P.Step s es s₁) (hown : Own s s₁) (hrest : BodyRun call m s₁ es' s₂) :
      BodyRun call m s (es ++ es') s₂
  | call {s s₁ s₂ s₃ : State ι} {p : Nat} {callee : MethodAt} {es es' : List (Word × Option Word)}
      (hin : m.Within P s) (hmem : callee ∈ P.methods) (hcall : CallStep P p callee s s₁)
      (hret : call callee s₁ es s₂) (hrest : BodyRun call m s₂ es' s₃) :
      BodyRun call m s (es ++ es') s₃

/-- A method from its entry to behind its `RET`; its body writes to allowed cells only. -/
def Returns : Nat → MethodAt → State ι → List (Word × Option Word) → State ι → Prop
  | 0, _, _, _, _ => False
  | depth + 1, m, s, es, s' => ∃ s₁ s₂ es₁ es₂ es₃,
      Here P.instructions m.entry s ∧ Runs P.Step 4 s es₁ s₁ ∧
      BodyRun P (Returns depth) m s₁ es₂ s₂ ∧
      (∀ frame, s₁.reg fp = some frame → ∀ w ∈ es₂, Allowed frame m.params w.1) ∧
      Here P.instructions m.last s₂ ∧ Runs P.Step 4 s₂ es₃ s' ∧ es = es₁ ++ (es₂ ++ es₃)

/-- The method has been called from `p` and has returned. -/
structure Restored (p : Nat) (s s' : State ι) : Prop where
  sp : s'.reg sp = s.reg sp
  fp : s'.reg fp = s.reg fp
  zero : s'.reg 0 = some 0
  cip : s'.cip = p + 1

end Runs

/-! ## the prologue -/

section Method

variable {ι : Type} {P : Program ι} {m : MethodAt} {s s' s'' : State ι} {top : Word}
  {es : List (Word × Option Word)}

theorem MethodAt.code_eq (hm : m ∈ P.methods) : m.code.code =
    MethodCode.prologue m.code.size ++ (m.code.body ++
      ([.mk3 .add sp 0 fp, .mk3 .pop fp sp 1, .mk3 .pop lnk sp 1] ++ [.mk3 .ret 0 0 lnk])) := by
  unfold MethodCode.code MethodCode.epilogue
  rw [if_neg (by simpa using P.returns m hm)]

theorem prologue_loaded (hm : m ∈ P.methods) :
    Loaded P.decode P.instructions m.entry (MethodCode.prologue m.code.size) := by
  have h := P.loaded m hm
  rw [m.code_eq hm] at h
  exact h.left

theorem body_loaded (hm : m ∈ P.methods) : Loaded P.decode P.instructions m.first m.code.body := by
  have h := P.loaded m hm
  rw [m.code_eq hm] at h
  exact h.right.left

theorem epilogue_loaded (hm : m ∈ P.methods) : Loaded P.decode P.instructions m.last
    ([.mk3 .add sp 0 fp, .mk3 .pop fp sp 1, .mk3 .pop lnk sp 1] ++ [.mk3 .ret 0 0 lnk]) := by
  have h := P.loaded m hm
  rw [m.code_eq hm] at h
  exact h.right.right

/-- Behind every instruction of the body stands another one. -/
theorem body_stands (hm : m ∈ P.methods) {p : Nat} (hlow : m.first ≤ p) (hhigh : p ≤ m.last) :
    Stands P.instructions p := by
  by_cases hp : p = m.last
  · rw [hp]
    exact (epilogue_loaded hm).stands
  · unfold MethodAt.last at hp hhigh
    have hlt : p - m.first < m.code.body.length := by omega
    obtain ⟨w, hw, -, hlen⟩ := body_loaded hm _ _ (List.getElem?_eq_getElem hlt)
    rw [Nat.add_sub_cancel' hlow] at hw hlen
    exact ⟨⟨w, hw⟩, hlen⟩

/-- The two words that the prologue pushes can be addressed. -/
structure Frame (top : Word) : Prop where
  link : IsAddress (top - imm 1)
  frame : IsAddress (top - imm 2)

theorem imm_sub_one (a : Word) : a - imm 1 - imm 1 = a - imm 2 := by
  unfold imm
  bv_omega

/-- The machine behind the prologue. -/
structure Entered (size : Int) (top : Word) (s s' : State ι) : Prop where
  frame : s'.reg fp = some (top - imm 2)
  stack : s'.reg sp = some (top - imm 2 - imm size)
  zero : s'.reg 0 = some 0
  link : s'.mem (top - imm 1) = s.reg lnk
  saved : s'.mem (top - imm 2) = s.reg fp

theorem prologue_straight (size : Int) : Straight (MethodCode.prologue size) := by
  unfold MethodCode.prologue Straight
  simp only [List.mem_cons, List.not_mem_nil, or_false]
  rintro e (rfl | rfl | rfl | rfl)
  · decide
  · decide
  · decide
  · exact (by decide : ¬ Jumps OpCode.subi.code)

/-- A register is pushed. -/
theorem push_run {r : Int} {v : Word} (hr : IsRegister r) (hne : r ≠ sp) (hv : s.reg sp = some v)
    (ha : IsAddress (v - imm 1)) : dispatch (fields (.mk3 .psh r sp 1)) s =
      .ok () ((s.setReg sp (some (v - imm 1))).setMem (v - imm 1) (s.reg r)) :=
  executePSH_run hr (show IsRegister sp by decide) hne hv ha

theorem writes_push {r : Int} {v : Word} (hv : s.reg sp = some v) :
    writes (fields (.mk3 .psh r sp 1)) s = [(v - imm 1, s.reg r)] :=
  writes_psh rfl hv

/-- A register is popped. -/
theorem pop_run {r : Int} {v : Word} (hr : IsRegister r) (hne : r ≠ sp) (hv : s.reg sp = some v)
    (ha : IsAddress v) : dispatch (fields (.mk3 .pop r sp 1)) s =
      .ok () ((s.setReg r (s.mem v)).setReg sp (some (v + imm 1))) :=
  executePOP_run hr (show IsRegister sp by decide) hne hv ha

/-- A register takes the value of another one. -/
theorem move_run {r r' : Int} {v : Word} (hr : IsRegister r) (hr' : IsRegister r')
    (hzero : s.reg 0 = some 0) (hv : s.reg r' = some v) :
    dispatch (fields (.mk3 .add r 0 r')) s = .ok () (s.setReg r (some v)) := by
  have h : executeADD r 0 r' s = _ := executeADD_run hr (by decide) hr' hzero hv
  rw [zero_add] at h
  exact h

/-- **The prologue**: the return address and the frame pointer are saved. -/
theorem prologue_run (hframe : Frame top) (htop : s.reg sp = some top) (hzero : s.reg 0 = some 0)
    (size : Int) : ∃ s', executeAll (MethodCode.prologue size) s = .ok () s' ∧
      Entered size top s s' := by
  have hsp : IsRegister sp := by decide
  have hfp : IsRegister fp := by decide
  have hlink := push_run (by decide : IsRegister lnk) (by decide) htop hframe.link
  obtain ⟨s₁, hs₁⟩ : ∃ s₁, s₁ =
    (s.setReg sp (some (top - imm 1))).setMem (top - imm 1) (s.reg lnk) := ⟨_, rfl⟩
  rw [← hs₁] at hlink
  have htop₁ : s₁.reg sp = some (top - imm 1) := by
    rw [hs₁, State.reg_setMem, State.reg_setReg_self]
  have hframe₁ := hframe.frame
  rw [← imm_sub_one] at hframe₁
  have hsave := push_run hfp (by decide) htop₁ hframe₁
  rw [imm_sub_one] at hsave
  obtain ⟨s₂, hs₂⟩ : ∃ s₂, s₂ =
    (s₁.setReg sp (some (top - imm 2))).setMem (top - imm 2) (s₁.reg fp) := ⟨_, rfl⟩
  rw [← hs₂] at hsave
  have hzero₂ : s₂.reg 0 = some 0 := by
    rw [hs₂, hs₁]
    exact hzero
  have htop₂ : s₂.reg sp = some (top - imm 2) := by
    rw [hs₂, State.reg_setMem, State.reg_setReg_self]
  have hmove := move_run hfp hsp hzero₂ htop₂
  have htop₃ : (s₂.setReg fp (some (top - imm 2))).reg sp = some (top - imm 2) := htop₂
  have hsub : dispatch (fields (.mk3 .subi sp sp size)) (s₂.setReg fp (some (top - imm 2))) =
      .ok () ((s₂.setReg fp (some (top - imm 2))).setReg sp
        (some (top - imm 2 - imm size))) := by
    show executeSUBI sp sp size _ = _
    unfold executeSUBI
    rw [bind_ok (register_run hsp htop₃), setRegister_run hsp]
  refine ⟨_, (executeAll_cons hlink).trans ((executeAll_cons hsave).trans
    ((executeAll_cons hmove).trans ((executeAll_cons hsub).trans rfl))), ?_⟩
  have hne : top - imm 2 ≠ top - imm 1 := by
    unfold imm
    bv_omega
  refine ⟨?_, State.reg_setReg_self, hzero₂, ?_, ?_⟩
  · rw [State.reg_setReg hsp.1 hfp.1, if_neg (by decide), State.reg_setReg_self]
  · show s₂.mem (top - imm 1) = _
    rw [hs₂, State.mem_setMem hframe.frame.1 hframe.link.1, if_neg hne.symm, State.mem_setReg, hs₁,
      State.mem_setMem hframe.link.1 hframe.link.1, if_pos rfl]
  · show s₂.mem (top - imm 2) = _
    rw [hs₂, State.mem_setMem hframe.frame.1 hframe.frame.1, if_pos rfl, hs₁]
    rfl

/-- The prologue writes to the two cells of the frame. -/
theorem prologue_writes (hframe : Frame top) (htop : s.reg sp = some top) {size : Int}
    (h : executeAll (MethodCode.prologue size) s = .ok () s') :
    ∀ w ∈ writesAll (MethodCode.prologue size) s, w.1 = top - imm 1 ∨ w.1 = top - imm 2 := by
  obtain ⟨⟨⟩, s₁, hlink, hrest⟩ := bind_eq_ok h
  obtain ⟨⟨⟩, s₂, hsave, hrest⟩ := bind_eq_ok hrest
  obtain ⟨⟨⟩, s₃, hmove, hrest⟩ := bind_eq_ok hrest
  obtain ⟨⟨⟩, s₄, hsub, -⟩ := bind_eq_ok hrest
  have htop₁ : s₁.reg sp = some (top - imm 1) := by
    have hpushed := push_run (by decide : IsRegister lnk) (by decide) htop hframe.link
    rw [hpushed] at hlink
    injection hlink with _ hs₁
    rw [← hs₁, State.reg_setMem, State.reg_setReg_self]
  have hsubi : ∀ o ∈ [OpCode.stw, OpCode.psh], OpCode.subi.code ≠ o.code := by decide
  intro w hw
  rw [MethodCode.prologue, writesAll_cons hlink, writesAll_cons hsave, writesAll_cons hmove,
    writesAll_cons hsub, writes_push htop, writes_push htop₁, writes_eq_nil (by decide),
    writes_eq_nil (e := .mk3 .subi sp sp size) hsubi, imm_sub_one] at hw
  rcases List.mem_cons.mp hw with rfl | hw
  · exact Or.inl rfl
  · obtain rfl := List.mem_singleton.mp hw
    exact Or.inr rfl

/-- The prologue could be executed. -/
theorem frame_of_prologue {size : Int}
    (h : executeAll (MethodCode.prologue size) s = .ok () s') :
    ∃ top, s.reg sp = some top ∧ Frame top := by
  obtain ⟨⟨⟩, s₁, hlink, hrest⟩ := bind_eq_ok h
  obtain ⟨⟨⟩, s₂, hsave, -⟩ := bind_eq_ok hrest
  obtain ⟨top, htop, ha, w, hs₁⟩ :=
    executePSH_eq_ok (show executePSH lnk sp 1 s = .ok () s₁ from hlink)
  obtain ⟨top', htop', ha', -⟩ :=
    executePSH_eq_ok (show executePSH fp sp 1 s₁ = .ok () s₂ from hsave)
  have heq : s₁.reg sp = some (top - imm 1) := by
    rw [hs₁, State.reg_setMem, State.reg_setReg_self]
  obtain rfl : top - imm 1 = top' := Option.some.inj (heq.symm.trans htop')
  rw [imm_sub_one] at ha'
  exact ⟨top, htop, ha, ha'⟩

/-- **Behind the prologue.** -/
theorem entered (hm : m ∈ P.methods) (hhere : Here P.instructions m.entry s)
    (hzero : s.reg 0 = some 0) (hrun : Runs P.Step 4 s es s') :
    ∃ top, s.reg sp = some top ∧ Frame top ∧ Here P.instructions m.first s' ∧
      Entered m.code.size top s s' := by
  obtain ⟨s₁, hall, hhere', hlooks⟩ := straight_inv (prologue_loaded hm) (prologue_straight _)
    hhere hrun (body_stands hm (le_refl m.first) (Nat.le_add_right _ _))
  obtain ⟨top, htop, hframe⟩ := frame_of_prologue hall
  obtain ⟨s₂, hall₂, h⟩ := prologue_run hframe htop hzero m.code.size
  obtain rfl : s₂ = s₁ := by
    rw [hall] at hall₂
    injection hall₂ with _ hs
    exact hs.symm
  refine ⟨top, htop, hframe, hhere', ?_, ?_, ?_, ?_, ?_⟩
  · rw [hlooks.reg, h.frame]
  · rw [hlooks.reg, h.stack]
  · rw [hlooks.reg, h.zero]
  · rw [hlooks.mem, h.link]
  · rw [hlooks.mem, h.saved]

/-! ## the epilogue -/

/-- The frame that the epilogue takes off. -/
structure Kept (top : Word) (link saved : Option Word) (s : State ι) : Prop where
  frame : s.reg fp = some (top - imm 2)
  zero : s.reg 0 = some 0
  link : s.mem (top - imm 1) = link
  saved : s.mem (top - imm 2) = saved

theorem epilogue_straight :
    Straight [.mk3 .add sp 0 fp, .mk3 .pop fp sp 1, .mk3 .pop lnk sp 1] := by
  unfold Straight
  simp only [List.mem_cons, List.not_mem_nil, or_false]
  rintro e (rfl | rfl | rfl) <;> decide

/-- What the epilogue restores in front of the `RET`. -/
theorem epilogue_run {link saved : Option Word} (hframe : Frame top) (h : Kept top link saved s) :
    ∃ s', executeAll [.mk3 .add sp 0 fp, .mk3 .pop fp sp 1, .mk3 .pop lnk sp 1] s = .ok () s' ∧
      s'.reg sp = some top ∧ s'.reg fp = saved ∧ s'.reg lnk = link ∧ s'.reg 0 = some 0 := by
  have hsp : IsRegister sp := by decide
  have hfp : IsRegister fp := by decide
  have hlnk : IsRegister lnk := by decide
  have hmove := move_run hsp hfp h.zero h.frame
  obtain ⟨s₁, hs₁⟩ : ∃ s₁, s₁ = s.setReg sp (some (top - imm 2)) := ⟨_, rfl⟩
  rw [← hs₁] at hmove
  have htop₁ : s₁.reg sp = some (top - imm 2) := by
    rw [hs₁, State.reg_setReg_self]
  have hpop := pop_run hfp (by decide) htop₁ hframe.frame
  have hnext : top - imm 2 + imm 1 = top - imm 1 := by
    unfold imm
    bv_omega
  rw [hnext, show s₁.mem (top - imm 2) = saved by rw [hs₁, State.mem_setReg, h.saved]] at hpop
  obtain ⟨s₂, hs₂⟩ : ∃ s₂, s₂ = (s₁.setReg fp saved).setReg sp (some (top - imm 1)) := ⟨_, rfl⟩
  rw [← hs₂] at hpop
  have htop₂ : s₂.reg sp = some (top - imm 1) := by
    rw [hs₂, State.reg_setReg_self]
  have hlink := pop_run hlnk (by decide) htop₂ hframe.link
  have hend : top - imm 1 + imm 1 = top := by
    unfold imm
    bv_omega
  rw [hend, show s₂.mem (top - imm 1) = link by rw [hs₂, hs₁]; exact h.link] at hlink
  refine ⟨_, (executeAll_cons hmove).trans ((executeAll_cons hpop).trans
    ((executeAll_cons hlink).trans rfl)), State.reg_setReg_self, ?_, ?_, ?_⟩
  · rw [State.reg_setReg hsp.1 hfp.1, if_neg (by decide), State.reg_setReg hlnk.1 hfp.1,
      if_neg (by decide), hs₂, State.reg_setReg hsp.1 hfp.1, if_neg (by decide),
      State.reg_setReg_self]
  · rw [State.reg_setReg hsp.1 hlnk.1, if_neg (by decide), State.reg_setReg_self]
  · show s₂.reg 0 = some 0
    rw [hs₂, hs₁]
    exact h.zero

theorem epilogue_writes
    (h : executeAll [.mk3 .add sp 0 fp, .mk3 .pop fp sp 1, .mk3 .pop lnk sp 1] s = .ok () s') :
    writesAll [.mk3 .add sp 0 fp, .mk3 .pop fp sp 1, .mk3 .pop lnk sp 1] s = [] := by
  obtain ⟨⟨⟩, s₁, hmove, hrest⟩ := bind_eq_ok h
  obtain ⟨⟨⟩, s₂, hpop, hrest⟩ := bind_eq_ok hrest
  obtain ⟨⟨⟩, s₃, hlink, -⟩ := bind_eq_ok hrest
  rw [writesAll_cons hmove, writesAll_cons hpop, writesAll_cons hlink, writes_eq_nil (by decide),
    writes_eq_nil (by decide), writes_eq_nil (by decide)]
  rfl

/-- `RET` leads to the instruction behind the `BSR`. -/
theorem ret_run {p a : Nat}
    (hcode : Loaded P.decode P.instructions a [.mk3 .ret 0 0 lnk])
    (hhere : Here P.instructions a s)
    (hlink : s.reg lnk = some (BitVec.ofInt 32 ((p : Int) + 1)))
    (hp : p + 1 < P.instructions.length) :
    ∃ s', P.Step s [] s' ∧ Looks s s' ∧ s'.cip = p + 1 ∧
      (Stands P.instructions (p + 1) → Here P.instructions (p + 1) s') := by
  have hlt := P.length_lt
  -- the link register holds the address that `BSR` was followed by
  have haddress : (BitVec.ofInt 32 ((p : Int) + 1)).toInt = (p : Int) + 1 := by
    rw [BitVec.toInt_ofInt]
    exact Int.bmod_eq_of_le (by omega) (by omega)
  obtain ⟨w, hw, hd, -⟩ := hcode.head
  obtain ⟨w', hat⟩ := hhere
  obtain rfl : w = w' := Option.some.inj (Option.some.inj (hw.symm.trans hat.word))
  have hret : dispatch (P.decode w) s = .ok () { s with pc := some ((p : Int) + 1) } := by
    rw [hd]
    show executeRET lnk s = _
    unfold executeRET
    rw [bind_ok (getRegister_run (by decide : IsRegister lnk)), hlink, Option.map_some, haddress]
    rfl
  have hle : (p : Int) + 1 ≤ P.instructions.length := by omega
  have helement : (elementAt P.instructions ((p : Int) + 1) : M ι (Option ι))
      { s with pc := some ((p : Int) + 1) } =
        .ok P.instructions[p + 1] { s with pc := some ((p : Int) + 1) } :=
    elementAt_run (List.getElem?_eq_getElem hp)
  have hwrites : [] = writes (P.decode w) s := by
    rw [hd]
    exact (writes_eq_nil (by decide)).symm
  refine ⟨{ s with
    pc := increasePC P.instructions ((p : Int) + 1)
    ir := P.instructions[p + 1]
    cip := (p : Int) + 1 }, ⟨a, w, hat, ?_, hwrites⟩, ⟨rfl, rfl⟩, rfl, ?_⟩
  · unfold step
    rw [bind_ok hret]
    simp only [fetch, bind_run, get_run, hle, if_true, helement, modify_run]
  · -- whether that word is one that the machine stops at does not matter before it is reached
    rintro ⟨⟨w', hw'⟩, hstands⟩
    obtain ⟨_, hget⟩ := List.getElem?_eq_some_iff.mp hw'
    refine ⟨w', hw', hget, rfl, ?_, hstands⟩
    exact if_pos (by omega)

/-- The epilogue and the `RET`. -/
theorem leave_run {saved : Option Word} {p : Nat} (hm : m ∈ P.methods) (hframe : Frame top)
    (h : Kept top (some (BitVec.ofInt 32 ((p : Int) + 1))) saved s)
    (hp : p + 1 < P.instructions.length) (hhere : Here P.instructions m.last s) :
    ∃ s', Runs P.Step 4 s [] s' ∧ s'.reg sp = some top ∧ s'.reg fp = saved ∧
      s'.reg 0 = some 0 ∧ s'.cip = p + 1 ∧
      (Stands P.instructions (p + 1) → Here P.instructions (p + 1) s') := by
  have hcode := epilogue_loaded hm
  obtain ⟨s₁, hall, hsp, hfp, hlnk, hzero⟩ := epilogue_run hframe h
  obtain ⟨s₂, hruns₁, hhere₂, hlooks₂⟩ :=
    straight_run hcode.left epilogue_straight hhere hall hcode.right.stands
  rw [epilogue_writes hall] at hruns₁
  obtain ⟨s₃, hret, hlooks₃, hcip⟩ :=
    ret_run hcode.right hhere₂ (by rw [hlooks₂.reg, hlnk]) hp
  refine ⟨s₃, hruns₁.trans (Runs.one hret), ?_, ?_, ?_, hcip⟩
  · rw [hlooks₃.reg, hlooks₂.reg, hsp]
  · rw [hlooks₃.reg, hlooks₂.reg, hfp]
  · rw [hlooks₃.reg, hlooks₂.reg, hzero]

/-- **Behind the `RET`.** -/
theorem left_behind {saved : Option Word} {p : Nat} (hm : m ∈ P.methods) (hframe : Frame top)
    (h : Kept top (some (BitVec.ofInt 32 ((p : Int) + 1))) saved s)
    (hp : p + 1 < P.instructions.length) (hhere : Here P.instructions m.last s)
    (hrun : Runs P.Step 4 s es s') :
    s'.reg sp = some top ∧ s'.reg fp = saved ∧ s'.reg 0 = some 0 ∧ s'.cip = p + 1 := by
  obtain ⟨s₁, hruns, hsp, hfp, hzero, hcip, -⟩ := leave_run hm hframe h hp hhere
  obtain rfl : s₁ = s' := hrun.end_unique hruns mstep_det
  exact ⟨hsp, hfp, hzero, hcip⟩

/-! ## calls -/

/-- A call leaves the address behind it in the link register. -/
theorem callStep_eq {p : Nat} (h : CallStep P p m s s') :
    s'.reg lnk = some (BitVec.ofInt 32 ((p : Int) + 1)) ∧ s'.reg sp = s.reg sp ∧
      s'.reg fp = s.reg fp ∧ s'.reg 0 = s.reg 0 ∧ p + 1 < P.instructions.length := by
  obtain ⟨w, hat, hd, a, w', hat', hstep, -⟩ := h
  obtain ⟨-, rfl⟩ := hat.unique hat'
  obtain ⟨⟨⟩, s₁, hcall, hfetch⟩ := bind_eq_ok hstep
  rw [hd] at hcall
  have hne : (m.entry : Int) ≠ -1 := by omega
  rw [show dispatch (fields (.mk3 .bsr 0 0 m.entry)) s = executeBSR m.entry s from rfl,
    executeBSR_run hne] at hcall
  injection hcall with _ hs₁
  have hregisters : ∀ i, s'.reg i = (s.jump m.entry).reg i := by
    intro i
    unfold State.reg
    rw [(fetch_registers hfetch).1, hs₁]
  refine ⟨?_, ?_, ?_, ?_, hat.lt⟩
  · rw [hregisters]
    show (s.setReg 31 (s.pc.map (BitVec.ofInt 32))).reg 31 = _
    rw [State.reg_setReg_self, hat.pc]
    rfl
  · rw [hregisters, State.reg_jump (by decide) (by decide)]
  · rw [hregisters, State.reg_jump (by decide) (by decide)]
  · rw [hregisters, State.reg_jump (by decide) (by decide)]

/-- What a call that has returned leaves. -/
def Good (P : Program ι)
    (call : MethodAt → State ι → List (Word × Option Word) → State ι → Prop) : Prop :=
  ∀ m ∈ P.methods, ∀ (p : Nat) s es s', call m s es s' → s.reg 0 = some 0 →
    s.reg lnk = some (BitVec.ofInt 32 ((p : Int) + 1)) → p + 1 < P.instructions.length →
    Restored p s s' ∧ ∃ n, Runs P.Step n s es s'

/-- **The body** keeps the frame pointer, and is a run of the machine. -/
theorem body_run {call : MethodAt → State ι → List (Word × Option Word) → State ι → Prop}
    (hgood : Good P call) (h : BodyRun P call m s es s') (hzero : s.reg 0 = some 0) :
    s'.reg fp = s.reg fp ∧ s'.reg 0 = some 0 ∧ ∃ n, Runs P.Step n s es s' := by
  induction h with
  | nil s => exact ⟨rfl, hzero, 0, .nil s⟩
  | own hin hstep hown hrest ih =>
    obtain ⟨hfp, hzero', n, hruns⟩ := ih hown.2
    exact ⟨hfp.trans hown.1, hzero', n + 1, .cons hstep hruns⟩
  | call hin hmem hcall hret hrest ih =>
    obtain ⟨hlnk, -, hfp₁, hzero₁, hlt⟩ := callStep_eq hcall
    obtain ⟨hrestored, k, hruns₁⟩ := hgood _ hmem _ _ _ _ hret (hzero₁.trans hzero) hlnk hlt
    obtain ⟨hfp, hzero', n, hruns⟩ := ih hrestored.zero
    obtain ⟨w, -, -, hstep⟩ := hcall
    refine ⟨hfp.trans (hrestored.fp.trans hfp₁), hzero', 1 + (k + n), ?_⟩
    exact (Runs.one hstep).silent_trans (hruns₁.trans hruns)

/-- The frame of a method is not among the cells that its body may write to. -/
theorem not_allowed_frame {params : Nat} (hframe : Frame top) :
    ¬ Allowed (top - imm 2) params (top - imm 1) ∧
      ¬ Allowed (top - imm 2) params (top - imm 2) := by
  obtain ⟨⟨hlow₁, hhigh₁⟩, hlow₂, hhigh₂⟩ := hframe
  unfold memorySize at hhigh₁ hhigh₂
  have hnext : (top - imm 1).toInt = (top - imm 2).toInt + 1 := by
    have hsum : top - imm 1 = top - imm 2 + imm 1 := by
      unfold imm
      bv_omega
    rw [hsum, BitVec.toInt_add, show (imm 1).toInt = 1 from rfl]
    exact Int.bmod_eq_of_le (by omega) (by omega)
  unfold Allowed
  omega

/-- The body leaves the frame as it is. -/
theorem kept_of_body {call : MethodAt → State ι → List (Word × Option Word) → State ι → Prop}
    {link : Option Word} (hgood : Good P call) (hframe : Frame top) (hlink : s.reg lnk = link)
    (hentered : Entered m.code.size top s s') (hbody : BodyRun P call m s' es s'')
    (hallowed : ∀ w ∈ es, Allowed (top - imm 2) m.params w.1) : Kept top link (s.reg fp) s'' := by
  obtain ⟨hfp, hzero, n, hruns⟩ := body_run hgood hbody hentered.zero
  have hno := @not_allowed_frame top m.params hframe
  refine ⟨hfp.trans hentered.frame, hzero, ?_, ?_⟩
  · rw [runs_mem hruns hframe.link.1 fun w hw heq => hno.1 (heq ▸ hallowed w hw), hentered.link,
      hlink]
  · rw [runs_mem hruns hframe.frame.1 fun w hw heq => hno.2 (heq ▸ hallowed w hw), hentered.saved]

/-- **The frame law**, by induction on the depth of the calls. -/
theorem returns_restored (P : Program ι) : ∀ depth, Good P (Returns P depth)
  | 0 => fun _ _ _ _ _ _ h => h.elim
  | depth + 1 => by
    intro m hm p s es s' h hzero hlink hp
    obtain ⟨s₁, s₂, es₁, es₂, es₃, hhere, hprologue, hbody, hallowed, hlast, hepilogue, rfl⟩ := h
    obtain ⟨top, htop, hframe, -, hentered⟩ := entered hm hhere hzero hprologue
    obtain ⟨hfp, hzero₂, n, hruns⟩ := body_run (returns_restored P depth) hbody hentered.zero
    have hkept := kept_of_body (returns_restored P depth) hframe hlink hentered hbody
      (hallowed _ hentered.frame)
    obtain ⟨hsp, hfp', hzero', hcip⟩ := left_behind hm hframe hkept hp hlast hepilogue
    exact ⟨⟨hsp.trans htop.symm, hfp', hzero', hcip⟩, _, hprologue.trans (hruns.trans hepilogue)⟩

/-- Behind the prologue and in the body, calls included, the frame pointer is the same. -/
def During (P : Program ι) (depth : Nat) (m : MethodAt) (s b : State ι) : Prop :=
  ∃ s₁ es₁ es₂, Here P.instructions m.entry s ∧ Runs P.Step 4 s es₁ s₁ ∧
    BodyRun P (Returns P depth) m s₁ es₂ b

theorem during_frame {depth : Nat} {b : State ι} (hm : m ∈ P.methods) (hzero : s.reg 0 = some 0)
    (htop : s.reg sp = some top) (h : During P depth m s b) : b.reg fp = some (top - imm 2) := by
  obtain ⟨s₁, es₁, es₂, hhere, hprologue, hbody⟩ := h
  obtain ⟨top', htop', -, -, hentered⟩ := entered hm hhere hzero hprologue
  obtain rfl : top = top' := Option.some.inj (htop.symm.trans htop')
  obtain ⟨hfp, -⟩ := body_run (returns_restored P depth) hbody hentered.zero
  exact hfp.trans hentered.frame

/-- A method that has returned was in its body. -/
theorem Returns.during {depth : Nat} (h : Returns P (depth + 1) m s es s') :
    ∃ b, During P depth m s b := by
  obtain ⟨s₁, s₂, es₁, es₂, es₃, hhere, hprologue, hbody, -⟩ := h
  exact ⟨s₂, s₁, es₁, es₂, hhere, hprologue, hbody⟩

/-- A method returns whose body leads to its epilogue. -/
theorem returns_body {depth p : Nat} (hm : m ∈ P.methods) (hhere : Here P.instructions m.entry s)
    (htop : s.reg sp = some top) (hframe : Frame top) (hzero : s.reg 0 = some 0)
    (hlink : s.reg lnk = some (BitVec.ofInt 32 ((p : Int) + 1)))
    (hp : p + 1 < P.instructions.length)
    (hbody : ∀ s₁, Here P.instructions m.first s₁ → Entered m.code.size top s s₁ → ∃ es s₂,
      BodyRun P (Returns P depth) m s₁ es s₂ ∧ (∀ w ∈ es, Allowed (top - imm 2) m.params w.1) ∧
      Here P.instructions m.last s₂) :
    ∃ es s', Returns P (depth + 1) m s es s' ∧
      (∀ w ∈ es, w.1 = top - imm 1 ∨ w.1 = top - imm 2 ∨ Allowed (top - imm 2) m.params w.1) ∧
      (Stands P.instructions (p + 1) → Here P.instructions (p + 1) s') := by
  -- the prologue, the body, and the epilogue with the `RET`
  obtain ⟨s₁, hall, hentered⟩ := prologue_run hframe htop hzero m.code.size
  obtain ⟨s₂, hruns, hhere₂, hlooks⟩ := straight_run (prologue_loaded hm) (prologue_straight _)
    hhere hall (body_stands hm (le_refl m.first) (Nat.le_add_right _ _))
  have hentered₂ : Entered m.code.size top s s₂ := by
    refine ⟨?_, ?_, ?_, ?_, ?_⟩
    · rw [hlooks.reg, hentered.frame]
    · rw [hlooks.reg, hentered.stack]
    · rw [hlooks.reg, hentered.zero]
    · rw [hlooks.mem, hentered.link]
    · rw [hlooks.mem, hentered.saved]
  obtain ⟨es, s₃, hrun, hallowed, hlast⟩ := hbody s₂ hhere₂ hentered₂
  have hkept := kept_of_body (returns_restored P depth) hframe hlink hentered₂ hrun hallowed
  obtain ⟨s₄, hleave, -, -, -, -, hnext⟩ := leave_run hm hframe hkept hp hlast
  refine ⟨_, s₄, ⟨s₂, s₃, _, es, [], hhere, hruns, hrun, fun frame hfp => ?_, hlast, hleave, rfl⟩,
    fun w hw => ?_, hnext⟩
  · -- the frame pointer has not changed since the prologue
    obtain rfl := Option.some.inj (hentered₂.frame.symm.trans hfp)
    exact hallowed
  · rw [List.append_nil] at hw
    rcases List.mem_append.mp hw with hw | hw
    · exact (prologue_writes hframe htop hall w hw).imp_right Or.inl
    · exact Or.inr (Or.inr (hallowed w hw))

end Method

end Compiler
