import Bambinos.Compiler.Activation
import Bambinos.Compiler.Layout

/-!
# The arguments of a method

Where a method finds what its caller has pushed.

* `Pushes` — the evaluation of the arguments of a call, each of them pushed
* `Steady` — the evaluation of an argument leaves the stack pointer as it is
* `FrameLaw` — the registers are restored, the arguments are found at the offsets of the parameters,
  and the variables lie in the frame
* `frame_law_iff` — that is so, unless a call among the arguments has left its own ones on the stack
-/

namespace Compiler

open Infra Vm

/-! ## pushing arguments -/

section Pushes

variable {ι : Type} (P : Program ι)

/-- A register is pushed; `v` is the stack pointer in front of it. -/
def PushStep (v : Word) (s s' : State ι) : Prop :=
  ∃ p w r es, At P.instructions p w s ∧ P.decode w = fields (.mk3 .psh r sp 1) ∧
    P.Step s es s' ∧ s.reg sp = some v

/-- The arguments of a call are evaluated and pushed one after the other. The list contains the
stack pointer in front of each push; the argument goes to the cell below. -/
inductive Pushes : State ι → List Word → State ι → Prop
  | nil (s : State ι) : Pushes s [] s
  | push {s s₁ s₂ s₃ : State ι} {starts : List Word} {v : Word} {n : Nat}
      {es : List (Word × Option Word)} (h : Pushes s starts s₁) (heval : Runs P.Step n s₁ es s₂)
      (hpush : PushStep P v s₂ s₃) : Pushes s (starts ++ [v]) s₃

end Pushes

/-- Every push begins where the one before it ended. -/
def Steady : List Word → Prop
  | a :: b :: rest => b = a - imm 1 ∧ Steady (b :: rest)
  | _ => True

/-- While the method runs, its parameters are the arguments: the `i`-th one, counted from 0, is at
the offset that the symbol table has assigned to it. -/
def Placed {ι : Type} (P : Program ι) (m : MethodAt) (symbols : MethodSymbols)
    (starts : List Word) (s : State ι) : Prop :=
  ∀ depth b frame, During P depth m s b → b.reg fp = some frame →
    ∀ i c a, i < m.params → symbols.symList[i]? = some c → starts[i]? = some a →
      c.offset = m.params + 2 - ((i : Int) + 1) ∧ a - imm 1 = frame + imm c.offset

/-- A method that was called, and has returned: `starts` are those of its arguments. -/
structure FrameLaw {ι : Type} (P : Program ι) (m : MethodAt) (symbols : MethodSymbols)
    (starts : List Word) (p : Nat) (s s' : State ι) : Prop where
  restored : Restored p s s'
  placed : Placed P m symbols starts s
  /-- Its variables lie in what the prologue has reserved. -/
  locals : ∀ c ∈ symbols.symList.drop m.params, -m.code.size ≤ c.offset ∧ c.offset ≤ -1

/-! ## the symbols of a method -/

section Symbols

variable {globalScope : Bool} {offset : Int} {ds : List Declaration} {c : SymbolTableCell} {i : Nat}

theorem cells_length : (cells globalScope offset ds).length = ds.length := by
  have h := congrArg List.length (cells_names globalScope offset ds)
  simpa using h

/-- Scalars are laid out one word after the other. -/
theorem cells_offset (hscalar : ∀ d ∈ ds, d.classType = .var)
    (h : (cells globalScope offset ds)[i]? = some c) : c.offset = offset - ((i : Int) + 1) := by
  induction ds generalizing offset i with
  | nil => simp [cells] at h
  | cons d ds ih =>
    have hwords : d.words = 1 := by
      have hd := hscalar d List.mem_cons_self
      cases d with
      | scalar type name => rfl
      | array type name size => cases hd
    rw [cells, hwords] at h
    cases i with
    | zero =>
      simp only [List.getElem?_cons_zero, Option.some.injEq] at h
      rw [← h]
      rfl
    | succ i =>
      rw [List.getElem?_cons_succ] at h
      rw [ih (fun d' hd' => hscalar d' (List.mem_cons_of_mem _ hd')) h]
      push_cast
      omega

theorem totalWords_scalars (hscalar : ∀ d ∈ ds, d.classType = .var) :
    totalWords ds = ds.length := by
  induction ds with
  | nil => rfl
  | cons d ds ih =>
    have hwords : d.words = 1 := by
      have hd := hscalar d List.mem_cons_self
      cases d with
      | scalar type name => rfl
      | array type name size => cases hd
    rw [totalWords_cons, hwords, ih fun d' hd' => hscalar d' (List.mem_cons_of_mem _ hd'),
      List.length_cons, Nat.add_comm]

end Symbols

/-! ## where the arguments are -/

section Arguments

variable {ι : Type} {P : Program ι} {s s' : State ι} {starts : List Word} {v : Word}

theorem pushStep_eq (h : PushStep P v s s') : s'.reg sp = some (v - imm 1) := by
  obtain ⟨p, w, r, es, hat, hd, ⟨a, w', hat', hstep, -⟩, hv⟩ := h
  obtain ⟨-, rfl⟩ := hat.unique hat'
  obtain ⟨⟨⟩, s₁, hpush, hfetch⟩ := bind_eq_ok hstep
  rw [hd] at hpush
  obtain ⟨v', hv', -, w', hs₁⟩ := executePSH_eq_ok (show executePSH r sp 1 s = .ok () s₁ from hpush)
  obtain rfl : v = v' := Option.some.inj (hv.symm.trans hv')
  have hreg : s'.reg sp = s₁.reg sp := by
    unfold State.reg
    rw [(fetch_registers hfetch).1]
  rw [hreg, hs₁, State.reg_setMem, State.reg_setReg_self]

/-- The stack pointer behind the last push. -/
theorem pushes_last (h : Pushes P s (starts ++ [v]) s') : s'.reg sp = some (v - imm 1) := by
  generalize hl : starts ++ [v] = l at h
  cases h with
  | nil => exact absurd hl (by simp)
  | push h heval hpush =>
    obtain ⟨-, hv⟩ := List.append_inj' hl rfl
    obtain rfl := List.head_eq_of_cons_eq hv
    exact pushStep_eq hpush

/-- A steady sequence of pushes is known from its last one. -/
theorem steady_iff {last : Word} : ∀ {starts : List Word}, starts.getLast? = some last →
    (Steady starts ↔ ∀ (i : Nat) (a : Word), starts[i]? = some a →
      a = last + imm ((starts.length : Int) - ((i : Int) + 1)))
  | [], h => by cases h
  | [a], h => by
    obtain rfl : a = last := Option.some.inj h
    refine iff_of_true (by simp [Steady]) ?_
    intro i a' hi
    match i, hi with
    | 0, hi =>
      obtain rfl : a = a' := Option.some.inj hi
      simp [imm]
  | a :: b :: rest, h => by
    have ih := @steady_iff last (b :: rest) (by rwa [List.getLast?_cons_cons] at h)
    have hshift : ∀ i : Nat, ((b :: rest).length : Int) - ((i : Int) + 1) =
        ((a :: b :: rest).length : Int) - (((i + 1 : Nat) : Int) + 1) := by
      intro i
      rw [List.length_cons, List.length_cons, List.length_cons]
      push_cast
      omega
    have hhead : ((a :: b :: rest).length : Int) - (((0 : Nat) : Int) + 1) =
        ((b :: rest).length : Int) - (((0 : Nat) : Int) + 1) + 1 := by
      rw [List.length_cons, List.length_cons]
      push_cast
      omega
    have hnext : last + imm (((b :: rest).length : Int) - (((0 : Nat) : Int) + 1) + 1) =
        last + imm (((b :: rest).length : Int) - (((0 : Nat) : Int) + 1)) + imm 1 := by
      rw [add_assoc, imm_add]
    show b = a - imm 1 ∧ Steady (b :: rest) ↔ _
    rw [ih]
    constructor
    · rintro ⟨hb, hrest⟩ i a' hi
      cases i with
      | zero =>
        obtain rfl : a = a' := Option.some.inj hi
        rw [hhead, hnext, ← hrest 0 b rfl, hb, sub_add_cancel]
      | succ i =>
        rw [← hshift]
        exact hrest i a' hi
    · intro hall
      have hrest : ∀ (i : Nat) (a' : Word), (b :: rest)[i]? = some a' →
          a' = last + imm (((b :: rest).length : Int) - ((i : Int) + 1)) := by
        intro i a' hi
        rw [hshift]
        exact hall (i + 1) a' hi
      refine ⟨?_, hrest⟩
      have ha := hall 0 a rfl
      rw [hhead, hnext, ← hrest 0 b rfl] at ha
      rw [ha, add_sub_cancel_right]

end Arguments

/-! ## the property -/

section Property

variable {ι : Type} {P : Program ι} {t t' : SymbolTableList} {decl : MethodDecl} {m : MethodAt}
  {symbols : MethodSymbols} {s₀ s₁ s s' : State ι} {starts : List Word} {depth p : Nat}
  {es : List (Word × Option Word)}

/-- A method of the program, with the symbols of its declaration. -/
structure Declares (P : Program ι) (t t' : SymbolTableList) (decl : MethodDecl) (m : MethodAt)
    (symbols : MethodSymbols) : Prop where
  mem : m ∈ P.methods
  body : t.methodBody decl = some t'
  words : decl.words < 2147483648
  /-- Its variables are scalars. -/
  scalar : ∀ d ∈ decl.locals, d.classType = .var
  symbols : t'.lastMethodSymbols = some symbols
  params : m.params = decl.params.length
  size : m.code.size = t'.frameSize decl.name

theorem Declares.symList (h : Declares P t t' decl m symbols) : symbols.symList = decl.symbols := by
  obtain ⟨cell, -, -, -, hlist, -⟩ := SymbolTableList.methodBody_symList h.words h.body
  have hsymbols := h.symbols
  unfold SymbolTableList.lastMethodSymbols at hsymbols
  rw [hlist, List.getLast?_concat, Option.map_some] at hsymbols
  rw [← Option.some.inj hsymbols]

/-- The offset of a parameter. -/
theorem Declares.param_offset (h : Declares P t t' decl m symbols) {i : Nat} {c : SymbolTableCell}
    (hi : i < m.params) (hc : symbols.symList[i]? = some c) :
    c.offset = m.params + 2 - ((i : Int) + 1) := by
  rw [h.symList, MethodDecl.symbols, List.getElem?_append_left (by
    rw [cells_length, MethodDecl.paramDecls, List.length_map, ← h.params]
    exact hi)] at hc
  rw [cells_offset (fun d hd => paramDecls_classType hd) hc, h.params]

/-- The variables are in the frame. -/
theorem Declares.local_offset (h : Declares P t t' decl m symbols) {c : SymbolTableCell}
    (hc : c ∈ symbols.symList.drop m.params) : -m.code.size ≤ c.offset ∧ c.offset ≤ -1 := by
  have hlength : (cells false (decl.params.length + 2) decl.paramDecls).length = m.params := by
    rw [cells_length, MethodDecl.paramDecls, List.length_map, h.params]
  rw [h.symList, MethodDecl.symbols, List.drop_left' hlength] at hc
  obtain ⟨i, hi, hget⟩ := List.mem_iff_getElem.mp hc
  have hoffset := cells_offset h.scalar (List.getElem?_eq_some_iff.mpr ⟨hi, hget⟩)
  rw [cells_length] at hi
  rw [h.size, frameSize_eq h.words h.body, totalWords_scalars h.scalar, hoffset]
  omega

/-- **The arguments** are the parameters exactly if they are pushed one behind the other. -/
theorem placed_iff (h : Declares P t t' decl m symbols) (hpushes : Pushes P s₀ starts s₁)
    (hcount : starts.length = m.params) (hcall : CallStep P p m s₁ s)
    (hzero : s₁.reg 0 = some 0) (hret : Returns P depth m s es s') :
    Placed P m symbols starts s ↔ Steady starts := by
  obtain ⟨-, hsp, -, hzero₁, -⟩ := callStep_eq hcall
  have hzero' : s.reg 0 = some 0 := hzero₁.trans hzero
  -- where an argument is, seen from the frame
  have hplace : ∀ top depth b frame, s.reg sp = some top → During P depth m s b →
      b.reg fp = some frame → ∀ offset : Int, frame + imm offset = top + imm (offset - 2) := by
    intro top depth b frame htop hduring hframe offset
    rw [during_frame h.mem hzero' htop hduring] at hframe
    have hsum : imm offset = imm (offset - 2) + imm 2 := by
      rw [imm_add, Int.sub_add_cancel]
    rw [← Option.some.inj hframe, hsum, sub_add_add_cancel]
  cases hlast : starts.getLast? with
  | none =>
    obtain rfl := List.getLast?_eq_none_iff.mp hlast
    refine iff_of_true ?_ (by simp [Steady])
    intro depth b frame _ _ i c a _ _ ha
    cases ha
  | some last =>
    obtain ⟨init, rfl⟩ := List.getLast?_eq_some_iff.mp hlast
    have htop : s.reg sp = some (last - imm 1) := hsp.trans (pushes_last hpushes)
    have hshift : ∀ (i : Nat) (x : Word), x - imm 1 = last - imm 1 + imm ((m.params : Int) + 2 -
        ((i : Int) + 1) - 2) ↔ x = last + imm ((m.params : Int) - ((i : Int) + 1)) := by
      intro i x
      have hoffset : (m.params : Int) + 2 - ((i : Int) + 1) - 2 =
        (m.params : Int) - ((i : Int) + 1) := by omega
      rw [hoffset, sub_add_eq_add_sub, sub_left_inj]
    rw [steady_iff hlast, hcount]
    constructor
    · intro hplaced i a ha
      obtain ⟨d, rfl⟩ : ∃ d, depth = d + 1 := by
        cases depth with
        | zero => exact hret.elim
        | succ d => exact ⟨d, rfl⟩
      obtain ⟨b, hduring⟩ := hret.during
      have hframe := during_frame h.mem hzero' htop hduring
      have hi : i < m.params := by
        rw [← hcount]
        exact (List.getElem?_eq_some_iff.mp ha).1
      have hlength : i < symbols.symList.length := by
        rw [h.symList, MethodDecl.symbols, List.length_append, cells_length, MethodDecl.paramDecls,
          List.length_map, ← h.params]
        omega
      obtain ⟨hoffset, hargument⟩ := hplaced d b _ hduring hframe i _ a hi
        (List.getElem?_eq_getElem hlength) ha
      rw [hplace _ _ b _ htop hduring hframe, hoffset] at hargument
      exact (hshift i a).mp hargument
    · intro hall depth b frame hduring hframe i c a hi hc ha
      have hoffset := h.param_offset hi hc
      refine ⟨hoffset, ?_⟩
      rw [hplace _ _ b _ htop hduring hframe, hoffset]
      exact (hshift i a).mpr (hall i a ha)

/--
**The frame law**: when a method has returned, the stack pointer, the frame pointer and the program
counter are what they are to be. Its parameters are the arguments exactly if the evaluation of the
arguments leaves the stack pointer alone between the pushes.
-/
theorem frame_law_iff (h : Declares P t t' decl m symbols) (hpushes : Pushes P s₀ starts s₁)
    (hcount : starts.length = m.params) (hcall : CallStep P p m s₁ s)
    (hzero : s₁.reg 0 = some 0) (hret : Returns P depth m s es s') :
    FrameLaw P m symbols starts p s s' ↔ Steady starts := by
  obtain ⟨hlink, -, -, hzero₁, hp⟩ := callStep_eq hcall
  have hzero' : s.reg 0 = some 0 := hzero₁.trans hzero
  have hrestored := (returns_restored P depth m h.mem p s es s' hret hzero' hlink hp).1
  have hplaced := placed_iff h hpushes hcount hcall hzero hret
  constructor
  · intro hlaw
    exact hplaced.mp hlaw.placed
  · intro hsteady
    exact ⟨hrestored, hplaced.mpr hsteady, fun c hc => h.local_offset hc⟩

end Property

/-! ## a call among the arguments -/

section Example

/-- `g` has one parameter and no body. -/
def methodG : MethodAt := ⟨1, 1, ⟨"g", [], 0⟩⟩

/-- `f` has two parameters and a local variable, and calls `g` with the value in register 1. -/
def methodF : MethodAt := ⟨9, 2, ⟨"f", [.mk3 .psh 1 sp 1, .mk3 .bsr 0 0 1], 1⟩⟩

/-- The two methods, the call `f(x, g(x))`, and the call `f(g(x), x)`, for a value in register 1. -/
def nestedCode : List OpCodeElement :=
  methodG.code.code ++ (methodF.code.code ++
    [.mk3 .psh 1 sp 1, .mk3 .psh 1 sp 1, .mk3 .bsr 0 0 1, .mk3 .psh 1 sp 1, .mk3 .bsr 0 0 9,
     .mk3 .psh 1 sp 1, .mk3 .bsr 0 0 1, .mk3 .psh 1 sp 1, .mk3 .psh 1 sp 1, .mk3 .bsr 0 0 9])

theorem loaded_middle (pre code post : List OpCodeElement) :
    Loaded fields (load (pre ++ (code ++ post))) (pre.length + 1) code := by
  intro i e he
  have hi := (List.getElem?_eq_some_iff.mp he).1
  refine ⟨e, ?_, rfl, ?_⟩
  · rw [Nat.add_right_comm]
    refine load_getElem?_succ ?_
    rw [List.getElem?_append_right (Nat.le_add_right _ _), Nat.add_sub_cancel_left,
      List.getElem?_append_left hi, he]
  · rw [load_length, List.length_append, List.length_append]
    omega

def nestedProgram : Program OpCodeElement where
  decode := fields
  instructions := load nestedCode
  methods := [methodG, methodF]
  loaded := by
    intro m hm
    rcases List.mem_cons.mp hm with rfl | hm
    · exact loaded_middle [] methodG.code.code _
    · obtain rfl := List.mem_singleton.mp hm
      exact loaded_middle methodG.code.code methodF.code.code _
  returns := by
    intro m hm
    rcases List.mem_cons.mp hm with rfl | hm
    · decide
    · obtain rfl := List.mem_singleton.mp hm
      decide
  length_lt := by
    rw [load_length]
    decide

/-- An instruction of the program. -/
theorem nested_loaded {k : Nat} {e : OpCodeElement} (h : nestedCode[k]? = some e) :
    Loaded nestedProgram.decode nestedProgram.instructions (k + 1) [e] := by
  intro i e' he
  match i, he with
  | 0, rfl =>
    have hk := (List.getElem?_eq_some_iff.mp h).1
    refine ⟨_, load_getElem?_succ h, rfl, ?_⟩
    show k + 1 + 0 + 1 < (load nestedCode).length
    rw [load_length]
    omega

theorem nested_stands {k : Nat} {e : OpCodeElement} (h : nestedCode[k]? = some e) :
    Stands nestedProgram.instructions (k + 1) := (nested_loaded h).stands

variable {ι : Type} {P : Program ι} {s : State ι} {a : Nat} {v : Word}

/-- A value is pushed. -/
theorem push_step (hcode : Loaded P.decode P.instructions a [.mk3 .psh 1 sp 1])
    (hhere : Here P.instructions a s) (hv : s.reg sp = some v) (ha : IsAddress (v - imm 1))
    (hnext : Stands P.instructions (a + 1)) :
    ∃ s', P.Step s [(v - imm 1, s.reg 1)] s' ∧ PushStep P v s s' ∧ Here P.instructions (a + 1) s' ∧
      s'.reg sp = some (v - imm 1) ∧ s'.reg fp = s.reg fp ∧ s'.reg 0 = s.reg 0 := by
  have hpush := push_run (show IsRegister 1 by decide) (show (1 : Int) ≠ sp by decide) hv ha
  obtain ⟨s', hstep, hhere', hlooks⟩ := next_run hcode hhere hpush rfl hnext
  rw [writes_push hv] at hstep
  obtain ⟨w, hw, hd, -⟩ := hcode.head
  obtain ⟨w', hat⟩ := hhere
  obtain rfl : w = w' := Option.some.inj (Option.some.inj (hw.symm.trans hat.word))
  have hpushed : PushStep P v s s' := ⟨a, w, 1, _, hat, hd, hstep, hv⟩
  refine ⟨s', hstep, hpushed, hhere', pushStep_eq hpushed, ?_, ?_⟩
  · rw [hlooks.reg, State.reg_setMem, State.reg_setReg (by decide) (by decide), if_neg (by decide)]
  · rw [hlooks.reg]
    rfl

/-- A method is called. -/
theorem call_step (callee : MethodAt)
    (hcode : Loaded P.decode P.instructions a [.mk3 .bsr 0 0 callee.entry])
    (hhere : Here P.instructions a s) (hstands : Stands P.instructions callee.entry) :
    ∃ s', CallStep P a callee s s' ∧ Here P.instructions callee.entry s' := by
  have hentry : (callee.entry : Int) ≠ -1 := by omega
  have hcall : dispatch (fields (.mk3 .bsr 0 0 callee.entry)) s = .ok () (s.jump callee.entry) :=
    executeBSR_run hentry
  obtain ⟨s', hstep, hhere', -⟩ := jump_run hcode hhere hcall rfl hstands
  obtain ⟨w, hw, hd, -⟩ := hcode.head
  obtain ⟨w', hat⟩ := hhere
  obtain rfl : w = w' := Option.some.inj (Option.some.inj (hw.symm.trans hat.word))
  have hwrites : writes (fields (.mk3 .bsr 0 0 callee.entry)) s = [] := by
    unfold writes
    cases s.reg (fields (.mk3 .bsr 0 0 callee.entry)).firstSourceValue <;> rfl
  rw [hwrites] at hstep
  exact ⟨s', ⟨w, hat, hd, hstep⟩, hhere'⟩

/-- A cell below the top of the stack. -/
theorem toInt_below {n : Int} (hn : 0 ≤ n) (hv : n ≤ v.toInt) : (v - imm n).toInt = v.toInt - n := by
  have hhigh := BitVec.toInt_lt (x := v)
  unfold imm
  rw [BitVec.toInt_sub, BitVec.toInt_ofInt, Int.bmod_eq_of_le (n := n) (by omega) (by omega),
    Int.bmod_eq_of_le (by omega) (by omega)]

/-- There is room on the stack. -/
structure Roomy (v : Word) : Prop where
  low : 6 ≤ v.toInt
  high : v.toInt ≤ memorySize

instance (v : Word) : Decidable (Roomy v) :=
  decidable_of_iff (6 ≤ v.toInt ∧ v.toInt ≤ memorySize) ⟨fun h => ⟨h.1, h.2⟩, fun h => ⟨h.1, h.2⟩⟩

theorem Roomy.isAddress (h : Roomy v) {n : Int} (hlow : 0 < n) (hhigh : n ≤ 6) :
    IsAddress (v - imm n) := by
  have hv := h.low
  have hv' := h.high
  unfold IsAddress
  rw [toInt_below (by omega) (by omega)]
  omega

theorem Roomy.frame (h : Roomy v) : Frame v :=
  ⟨h.isAddress (by decide) (by decide), h.isAddress (by decide) (by decide)⟩

/-- The table of a class with one method. -/
def tableOf (decl : MethodDecl) : SymbolTableList :=
  (SymbolTableList.empty.methodBody decl).getD .empty

def declG : MethodDecl := { name := "g", params := [(.intType, "x")], locals := [] }

def declF : MethodDecl :=
  { name := "f", params := [(.intType, "a"), (.intType, "b")], locals := [.scalar .intType "c"] }

theorem declares_g : Declares nestedProgram .empty (tableOf declG) declG methodG
    ((tableOf declG).lastMethodSymbols.getD .empty) where
  mem := by decide
  body := by decide
  words := by decide
  scalar d hd := absurd hd List.not_mem_nil
  symbols := by decide
  params := rfl
  size := by decide

theorem declares_f : Declares nestedProgram .empty (tableOf declF) declF methodF
    ((tableOf declF).lastMethodSymbols.getD .empty) where
  mem := by decide
  body := by decide
  words := by decide
  scalar := by decide
  symbols := by decide
  params := rfl
  size := by decide

/-- `g` returns. -/
theorem returns_g {s : State OpCodeElement} {p : Nat}
    (hhere : Here nestedProgram.instructions methodG.entry s) (hv : s.reg sp = some v)
    (hframe : Frame v) (hzero : s.reg 0 = some 0)
    (hlink : s.reg lnk = some (BitVec.ofInt 32 ((p : Int) + 1)))
    (hp : p + 1 < nestedProgram.instructions.length) :
    ∃ es s', Returns nestedProgram 1 methodG s es s' ∧
      (∀ w ∈ es, w.1 = v - imm 1 ∨ w.1 = v - imm 2 ∨ Allowed (v - imm 2) 1 w.1) ∧
      (Stands nestedProgram.instructions (p + 1) → Here nestedProgram.instructions (p + 1) s') :=
  returns_body declares_g.mem hhere hv hframe hzero hlink hp fun s₁ hhere₁ _ =>
    ⟨[], s₁, .nil s₁, fun _ hw => absurd hw List.not_mem_nil, hhere₁⟩

/-- `g(x)` is called, behind the push of `x`. -/
theorem nested_g {s : State OpCodeElement} {k : Nat} (hpsh : nestedCode[k]? = some (.mk3 .psh 1 sp 1))
    (hbsr : nestedCode[k + 1]? = some (.mk3 .bsr 0 0 1)) {e : OpCodeElement}
    (hnext : nestedCode[k + 2]? = some e) (hhere : Here nestedProgram.instructions (k + 1) s)
    (hv : s.reg sp = some v) (hzero : s.reg 0 = some 0) (ha : IsAddress (v - imm 1))
    (hframe : Frame (v - imm 1)) : ∃ s₁ s₂ es s₃,
      nestedProgram.Step s [(v - imm 1, s.reg 1)] s₁ ∧ Own s s₁ ∧
      Here nestedProgram.instructions (k + 2) s₁ ∧ CallStep nestedProgram (k + 2) methodG s₁ s₂ ∧
      Returns nestedProgram 1 methodG s₂ es s₃ ∧
      (∀ w ∈ es, w.1 = v - imm 1 - imm 1 ∨ w.1 = v - imm 1 - imm 2 ∨
        Allowed (v - imm 1 - imm 2) 1 w.1) ∧
      Here nestedProgram.instructions (k + 3) s₃ ∧ s₃.reg sp = some (v - imm 1) ∧
      s₃.reg 0 = some 0 ∧ ∃ n es', Runs nestedProgram.Step n s es' s₃ := by
  obtain ⟨s₁, hstep, hpush, hhere₁, hsp₁, hfp₁, hzero₁⟩ :=
    push_step (nested_loaded hpsh) hhere hv ha (nested_stands hbsr)
  obtain ⟨s₂, hcall, hhere₂⟩ := call_step methodG (nested_loaded hbsr) hhere₁
    (nested_stands (k := 0) rfl)
  obtain ⟨hlink, hsp₂, -, hzero₂, hp⟩ := callStep_eq hcall
  have hzero' : s₂.reg 0 = some 0 := hzero₂.trans (hzero₁.trans hzero)
  obtain ⟨es, s₃, hret, hwrites, hhere₃⟩ :=
    returns_g hhere₂ (hsp₂.trans hsp₁) hframe hzero' hlink hp
  obtain ⟨hrestored, n, hruns⟩ :=
    returns_restored nestedProgram 1 methodG declares_g.mem _ _ _ _ hret hzero' hlink hp
  obtain ⟨-, -, -, hstep₂⟩ := id hcall
  exact ⟨s₁, s₂, es, s₃, hstep, ⟨hfp₁, hzero₁.trans hzero⟩, hhere₁, hcall, hret, hwrites,
    hhere₃ (nested_stands hnext), hrestored.sp.trans (hsp₂.trans hsp₁), hrestored.zero, _, _,
    (Runs.one hstep).trans ((Runs.one hstep₂).trans hruns)⟩

theorem sub_imm_sub_imm {n m : Int} : v - imm n - imm m = v - imm (n + m) := by
  rw [← imm_add]
  ring

theorem Roomy.toInt (h : Roomy v) {n : Int} (hlow : 0 ≤ n) (hhigh : n ≤ 6) :
    (v - imm n).toInt = v.toInt - n :=
  toInt_below hlow (Int.le_trans hhigh h.low)

/-- The body of `f`: everything is written below its local variable. -/
theorem body_f {s s₁ : State OpCodeElement} (hroom : Roomy v)
    (hhere : Here nestedProgram.instructions methodF.first s₁)
    (hentered : Entered methodF.code.size v s s₁) : ∃ es s₂,
      BodyRun nestedProgram (Returns nestedProgram 1) methodF s₁ es s₂ ∧
      (∀ w ∈ es, Allowed (v - imm 2) methodF.params w.1) ∧
      Here nestedProgram.instructions methodF.last s₂ := by
  have hsp : s₁.reg sp = some (v - imm 3) := hentered.stack.trans (congrArg some sub_imm_sub_imm)
  have haddress : IsAddress (v - imm 3 - imm 1) := by
    rw [sub_imm_sub_imm]
    exact hroom.isAddress (by decide) (by decide)
  have hframe : Frame (v - imm 3 - imm 1) := by
    rw [sub_imm_sub_imm]
    refine ⟨?_, ?_⟩ <;> rw [sub_imm_sub_imm] <;> exact hroom.isAddress (by decide) (by decide)
  obtain ⟨s₂, s₃, es, s₄, hstep, hown, hhere₂, hcall, hret, hwrites, hhere₄, -⟩ :=
    nested_g (k := 12) rfl rfl rfl hhere hsp hentered.zero haddress hframe
  refine ⟨_, s₄, .own ⟨13, le_refl _, by decide, hhere⟩ hstep hown (.call
    ⟨14, by decide, by decide, hhere₂⟩ declares_g.mem hcall hret (.nil s₄)), fun w hw => ?_, hhere₄⟩
  left
  rw [hroom.toInt (by decide) (by decide)]
  rw [List.append_nil] at hw
  rcases List.mem_append.mp hw with hw | hw
  · obtain rfl := List.mem_singleton.mp hw
    dsimp only
    rw [sub_imm_sub_imm, hroom.toInt (by decide) (by decide)]
    omega
  · have hw := hwrites w hw
    unfold Allowed at hw
    rw [sub_imm_sub_imm, sub_imm_sub_imm, sub_imm_sub_imm, sub_imm_sub_imm,
      hroom.toInt (n := 3 + (1 + 2)) (by decide) (by decide)] at hw
    rcases hw with hw | hw | hw | ⟨-, hw⟩
    · rw [hw, hroom.toInt (by decide) (by decide)]
      omega
    · rw [hw, hroom.toInt (by decide) (by decide)]
      omega
    · omega
    · omega

/-- `f` returns. -/
theorem returns_f {s : State OpCodeElement} {p : Nat}
    (hhere : Here nestedProgram.instructions methodF.entry s) (hv : s.reg sp = some v)
    (hroom : Roomy v) (hzero : s.reg 0 = some 0)
    (hlink : s.reg lnk = some (BitVec.ofInt 32 ((p : Int) + 1)))
    (hp : p + 1 < nestedProgram.instructions.length) :
    ∃ es s', Returns nestedProgram 2 methodF s es s' := by
  obtain ⟨es, s', hret, -⟩ := returns_body declares_f.mem hhere hv hroom.frame hzero hlink hp
    fun _ hhere₁ hentered => body_f hroom hhere₁ hentered
  exact ⟨es, s', hret⟩

/-- The machine in front of a push, with a stack pointer. -/
def atPush (p : Nat) (top : Word) : State OpCodeElement :=
  { registers := fun i => if i = 30 then some top else some 0
    memory := fun _ => none
    pc := some ((p : Int) + 1)
    ir := some (.mk3 .psh 1 sp 1)
    cip := p
    output := [] }

theorem atPush_here {k : Nat} (h : nestedCode[k]? = some (.mk3 .psh 1 sp 1)) (top : Word) :
    Here nestedProgram.instructions (k + 1) (atPush (k + 1) top) := by
  refine ⟨.mk3 .psh 1 sp 1, load_getElem?_succ h, rfl, rfl, rfl, ?_⟩
  have hk := (List.getElem?_eq_some_iff.mp h).1
  show k + 1 + 1 < (load nestedCode).length
  rw [load_length]
  omega

/-- `f(g(x), x)`: the argument of `g` is below the ones of `f`. -/
theorem frame_law_iff_nested : ∃ s s', FrameLaw nestedProgram methodF
    ((tableOf declF).lastMethodSymbols.getD .empty) [4095, 4094] 28 s s' := by
  obtain ⟨-, -, -, s₃, -, -, -, -, -, -, hhere₃, hsp₃, hzero₃, n, es, hruns⟩ :=
    nested_g (k := 23) rfl rfl rfl (atPush_here (k := 23) rfl 4096) rfl rfl (by decide)
      ⟨by decide, by decide⟩
  obtain ⟨s₄, -, hpush₄, hhere₄, hsp₄, -, hzero₄⟩ := push_step
    (nested_loaded (show nestedCode[25]? = _ from rfl)) hhere₃ hsp₃ (by decide)
    (nested_stands (k := 26) rfl)
  obtain ⟨s₅, -, hpush₅, hhere₅, hsp₅, -, hzero₅⟩ := push_step
    (nested_loaded (show nestedCode[26]? = _ from rfl)) hhere₄ hsp₄ (by decide)
    (nested_stands (k := 27) rfl)
  have hpushes : Pushes nestedProgram (atPush 24 4096) [4095, 4094] s₅ :=
    .push (.push (.nil _) hruns hpush₄) (.nil _) hpush₅
  obtain ⟨s₆, hcall, hhere₆⟩ := call_step methodF
    (nested_loaded (show nestedCode[27]? = _ from rfl)) hhere₅ (nested_stands (k := 8) rfl)
  obtain ⟨hlink, hsp₆, -, hzero₆, hp⟩ := callStep_eq hcall
  have hzero : s₅.reg 0 = some 0 := hzero₅.trans (hzero₄.trans hzero₃)
  obtain ⟨es', s', hret⟩ := returns_f hhere₆ (hsp₆.trans hsp₅) (by decide) (hzero₆.trans hzero)
    hlink hp
  exact ⟨s₆, s', (frame_law_iff declares_f hpushes rfl hcall hzero hret).mpr ⟨by decide, trivial⟩⟩

/-- `f(x, g(x))`: the argument of `g` is still on the stack, where `f` looks for its first
parameter. -/
theorem nested_call_shifts : ¬ ∀ (P : Program OpCodeElement) (t t' : SymbolTableList)
    (decl : MethodDecl) (m : MethodAt) (symbols : MethodSymbols)
    (s₀ s₁ s s' : State OpCodeElement) (starts : List Word) (depth p : Nat)
    (es : List (Word × Option Word)), Declares P t t' decl m symbols → Pushes P s₀ starts s₁ →
      starts.length = m.params → CallStep P p m s₁ s → s₁.reg 0 = some 0 →
      Returns P depth m s es s' → FrameLaw P m symbols starts p s s' := by
  intro hall
  -- the first argument of `f` is pushed
  obtain ⟨s₁, -, hpush₁, hhere₁, hsp₁, -, hzero₁⟩ := push_step
    (nested_loaded (show nestedCode[18]? = _ from rfl)) (atPush_here (k := 18) rfl 4096)
    (show (atPush 19 4096).reg sp = some 4096 from rfl) (by decide) (nested_stands (k := 19) rfl)
  -- the second one is `g(x)`
  obtain ⟨-, -, -, s₄, -, -, -, -, -, -, hhere₄, hsp₄, hzero₄, n, es, heval⟩ :=
    nested_g (k := 19) rfl rfl rfl hhere₁ hsp₁ hzero₁ (by decide) ⟨by decide, by decide⟩
  obtain ⟨s₅, -, hpush₅, hhere₅, hsp₅, -, hzero₅⟩ := push_step
    (nested_loaded (show nestedCode[21]? = _ from rfl)) hhere₄ hsp₄ (by decide)
    (nested_stands (k := 22) rfl)
  have hpushes : Pushes nestedProgram (atPush 19 4096) [4096, 4094] s₅ :=
    .push (.push (.nil _) (.nil _) hpush₁) heval hpush₅
  obtain ⟨s₆, hcall₆, hhere₆⟩ := call_step methodF
    (nested_loaded (show nestedCode[22]? = _ from rfl)) hhere₅ (nested_stands (k := 8) rfl)
  obtain ⟨hlink, hsp₆, -, hzero₆, hp⟩ := callStep_eq hcall₆
  have hzero : s₅.reg 0 = some 0 := hzero₅.trans hzero₄
  obtain ⟨e₇, s₇, hret⟩ := returns_f hhere₆ (hsp₆.trans hsp₅) (by decide) (hzero₆.trans hzero)
    hlink hp
  have hlaw := hall _ _ _ _ _ _ _ _ _ _ _ _ _ _ declares_f hpushes rfl hcall₆ hzero hret
  have hsteady := (placed_iff declares_f hpushes rfl hcall₆ hzero hret).mp hlaw.placed
  exact absurd hsteady.1 (by decide)

end Example

end Compiler
