import Bambinos.Compiler.ProgramCode
import Bambinos.Linker.Output
import Bambinos.Vm.Ending

/-!
# What is executed behind `main`

The epilogue of `main` has no `RET`. The machine goes on with whatever stands behind it.

* `ClassCode.own` — the addresses of `main`, and the one behind the class
* `mainEnd_iff` — the machine ends there exactly when `main` is the last method of its class
-/

namespace Compiler.ClassCode

open MethodCode

variable {cls : ClassCode} {e : OpCodeElement} {i : Nat}

/-- The first address of the epilogue of `main`. A `return` jumps there. -/
def mainEpilogue (cls : ClassCode) : Nat := cls.mainStart + 4 + cls.main.body.length

/-- The address behind `main`. -/
def mainBehind (cls : ClassCode) : Nat := cls.mainEpilogue + 3

/-- The addresses of `main`, and the one behind the class, where the linker puts `BSR -1`. -/
def own (cls : ClassCode) : Set Nat :=
  {a | cls.mainStart ≤ a ∧ a < cls.mainBehind ∨ a = cls.code.length + 1}

theorem main_code (cls : ClassCode) :
    cls.main.code = prologue cls.main.size ++ (cls.main.body ++ epilogue true) := by
  rw [MethodCode.code, cls.main_name]
  rfl

theorem main_code_length (cls : ClassCode) :
    cls.main.code.length = 4 + (cls.main.body.length + 3) := by
  rw [main_code, List.length_append, List.length_append]
  rfl

theorem code_length (cls : ClassCode) :
    cls.code.length + 1 = cls.mainBehind + (methodsCode cls.after).length := by
  simp only [code_eq, List.length_append, initialisation_length, main_code_length, mainBehind,
    mainEpilogue, mainStart]
  omega

/-- Where the code from `main` on stands. -/
theorem code_getElem? (cls : ClassCode) (i : Nat) :
    cls.code[cls.mainStart - 1 + i]? = (cls.main.code ++ methodsCode cls.after)[i]? := by
  have hlength : cls.mainStart - 1 =
      (cls.initialisation ++ methodsCode cls.before ++ cls.main.header).length := by
    rw [List.length_append, List.length_append, initialisation_length, mainStart]
    omega
  rw [code_eq, hlength, List.getElem?_append_right (Nat.le_add_right _ _), Nat.add_sub_cancel_left]

theorem epilogue_getElem? (h : (epilogue true)[i]? = some e) :
    cls.code[cls.mainEpilogue - 1 + i]? = some e := by
  have hpos : 0 < cls.mainStart := by
    unfold mainStart
    omega
  have hlt := (List.getElem?_eq_some_iff.mp h).1
  have hepilogue : cls.mainEpilogue - 1 + i = cls.mainStart - 1 + (4 + cls.main.body.length + i) := by
    unfold mainEpilogue
    omega
  have hlength : (prologue cls.main.size ++ cls.main.body).length = 4 + cls.main.body.length := by
    rw [List.length_append]
    rfl
  rw [hepilogue, code_getElem?, main_code, ← List.append_assoc, List.append_assoc,
    List.getElem?_append_right (by omega), hlength, Nat.add_sub_cancel_left,
    List.getElem?_append_left hlt]
  exact h

/-- Another method behind `main` has a first instruction. -/
theorem after_lt {m : ClassMethod} {ms : List ClassMethod} (h : cls.after = m :: ms) :
    cls.mainBehind - 1 < cls.code.length := by
  have hlength := cls.code_length
  have hpos := m.code_length_pos
  rw [h, methodsCode_cons, ClassMethod.whole, List.length_append, List.length_append] at hlength
  have hbehind : 0 < cls.mainBehind := Nat.succ_pos _
  omega

end Compiler.ClassCode

namespace Linker

open Infra Compiler Vm MethodCode

variable {cls : ClassCode} {instructions : Instructions Word} {s s' : State Word} {i : Nat}
  {e : OpCodeElement}

theorem Output.epilogue_word (h : Output cls instructions) (he : (epilogue true)[i]? = some e)
    (hcall : ¬ IsCall e.word) : instructions[cls.mainEpilogue + i]? = some (some e.word) ∧
      cls.mainEpilogue + i + 1 < instructions.length := by
  obtain ⟨hw, hlt⟩ := h.word (ClassCode.epilogue_getElem? he) hcall
  have hpos : 0 < cls.mainEpilogue := by
    unfold ClassCode.mainEpilogue ClassCode.mainStart
    omega
  rw [show cls.mainEpilogue - 1 + i + 1 = cls.mainEpilogue + i by omega] at hw
  exact ⟨hw, by omega⟩

theorem mainEpilogue_mem (hi : i < 3) : cls.mainEpilogue + i ∈ cls.own := by
  left
  unfold ClassCode.mainBehind ClassCode.mainEpilogue
  omega

/-- The machine in the epilogue of `main`. -/
theorem Output.epilogue_step (h : Output cls instructions) (he : (epilogue true)[i]? = some e)
    (hcall : ¬ IsCall e.word) (hjumps : ¬ Jumps (decode e.word).opCode)
    (hs : Here instructions (cls.mainEpilogue + i) s) :
    At instructions (cls.mainEpilogue + i) e.word s ∧
      ∀ s', step decode instructions e.word s = .ok () s' →
        (Stands instructions (cls.mainEpilogue + (i + 1)) →
          Here instructions (cls.mainEpilogue + (i + 1)) s') ∧
        (instructions[cls.mainEpilogue + (i + 1)]? = some none → s'.ir = none) := by
  obtain ⟨hw, -⟩ := h.epilogue_word he hcall
  obtain ⟨w, hat⟩ := hs
  rw [At.word_eq hat hw] at hat
  exact ⟨hat, fun s' hstep => ⟨step_next hat hjumps hstep, step_null hat hjumps hstep⟩⟩

theorem Output.epilogue_stands (h : Output cls instructions) (he : (epilogue true)[i]? = some e)
    (hcall : ¬ IsCall e.word) : Stands instructions (cls.mainEpilogue + i) := by
  obtain ⟨hw, hlt⟩ := h.epilogue_word he hcall
  exact ⟨⟨_, hw⟩, hlt⟩

/-- **Behind the last method the machine ends.** -/
theorem ends_of_last (h : Output cls instructions) (hafter : cls.after = [])
    (hs : Here instructions cls.mainEpilogue s) :
    EndsWithin decode instructions cls.own s := by
  obtain ⟨hat₀, hnext₀⟩ := h.epilogue_step (i := 0) rfl (by decide) (by decide) hs
  refine (endsWithin_iff hat₀ (mainEpilogue_mem (by decide))).mpr fun s₁ h₁ => ?_
  have hhere₁ := (hnext₀ s₁ h₁).1 (h.epilogue_stands rfl (by decide))
  obtain ⟨hat₁, hnext₁⟩ := h.epilogue_step (i := 1) rfl (by decide) (by decide) hhere₁
  refine (endsWithin_iff hat₁ (mainEpilogue_mem (by decide))).mpr fun s₂ h₂ => ?_
  have hhere₂ := (hnext₁ s₂ h₂).1 (h.epilogue_stands rfl (by decide))
  obtain ⟨hat₂, hnext₂⟩ := h.epilogue_step (i := 2) rfl (by decide) (by decide) hhere₂
  refine (endsWithin_iff hat₂ (mainEpilogue_mem (by decide))).mpr fun s₃ h₃ => ?_
  have hbehind : cls.code.length + 1 = cls.mainEpilogue + (2 + 1) := by
    rw [ClassCode.code_length, hafter]
    rfl
  rcases h.behind with hnull | ⟨hexit, hlt⟩
  · rw [hbehind] at hnull
    exact .halted ((hnext₂ s₃ h₃).2 hnull)
  · have hmem : cls.code.length + 1 ∈ cls.own := Or.inr rfl
    rw [hbehind] at hexit hmem
    obtain ⟨w, hat₃⟩ := (hnext₂ s₃ h₃).1 ⟨⟨_, hexit⟩, by omega⟩
    rw [At.word_eq hat₃ hexit] at hat₃
    exact exit_ends hat₃ hmem (by decide) (by decide)

/-- **Another method behind `main` is entered.** -/
theorem enters_of_after (h : Output cls instructions) {m : ClassMethod} {ms : List ClassMethod}
    (hafter : cls.after = m :: ms) (hs : Here instructions cls.mainEpilogue s)
    {es : List (Word × Option Word)} (hrun : Runs (MStep decode instructions) 3 s es s') :
    Here instructions cls.mainBehind s' := by
  have hstands : Stands instructions (cls.mainEpilogue + (2 + 1)) :=
    h.stands (ClassCode.after_lt hafter)
  -- the turn of each instruction of the epilogue
  have hturn : ∀ {i : Nat} {e : OpCodeElement} {s s' : State Word}
      {es : List (Word × Option Word)}, (epilogue true)[i]? = some e → ¬ IsCall e.word →
      ¬ Jumps (decode e.word).opCode → Stands instructions (cls.mainEpilogue + (i + 1)) →
      Here instructions (cls.mainEpilogue + i) s → MStep decode instructions s es s' →
      Here instructions (cls.mainEpilogue + (i + 1)) s' := by
    rintro i e s s' es he hcall hjumps hnext hs ⟨a, w, hat, hstep, -⟩
    obtain ⟨hat', hsteps⟩ := h.epilogue_step he hcall hjumps hs
    rw [(hat.unique hat').2] at hstep
    exact (hsteps s' hstep).1 hnext
  cases hrun with
  | cons h₁ hrun =>
    cases hrun with
    | cons h₂ hrun =>
      cases hrun with
      | cons h₃ hrun =>
        cases hrun with
        | nil =>
          have hhere₁ := hturn (i := 0) rfl (by decide) (by decide)
            (h.epilogue_stands (i := 1) rfl (by decide)) hs h₁
          have hhere₂ := hturn (i := 1) rfl (by decide) (by decide)
            (h.epilogue_stands (i := 2) rfl (by decide)) hhere₁ h₂
          exact hturn (i := 2) rfl (by decide) (by decide) hstands hhere₂ h₃

/-- With no instruction of another method the machine ends behind `main` exactly when no method is
behind it, or when the epilogue itself throws. -/
theorem endsWithin_own_iff (h : Output cls instructions) (hs : Here instructions cls.mainEpilogue s) :
    EndsWithin decode instructions cls.own s ↔
      cls.after = [] ∨ ¬ ∃ es s', Runs (MStep decode instructions) 3 s es s' := by
  constructor
  · intro hends
    cases hafter : cls.after with
    | nil => exact Or.inl rfl
    | cons m ms =>
      right
      rintro ⟨es, s', hrun⟩
      obtain ⟨w, hat⟩ := enters_of_after h hafter hs hrun
      have hlt := ClassCode.after_lt hafter
      rcases (hends.runs hrun).mem hat with ⟨-, hbehind⟩ | hlast
      · exact absurd hbehind (Nat.lt_irrefl _)
      · omega
  · rintro (hafter | hnone)
    · exact ends_of_last h hafter hs
    · obtain ⟨hat₀, hnext₀⟩ := h.epilogue_step (i := 0) rfl (by decide) (by decide) hs
      refine (endsWithin_iff hat₀ (mainEpilogue_mem (by decide))).mpr fun s₁ h₁ => ?_
      have hhere₁ := (hnext₀ s₁ h₁).1 (h.epilogue_stands rfl (by decide))
      obtain ⟨hat₁, hnext₁⟩ := h.epilogue_step (i := 1) rfl (by decide) (by decide) hhere₁
      refine (endsWithin_iff hat₁ (mainEpilogue_mem (by decide))).mpr fun s₂ h₂ => ?_
      have hhere₂ := (hnext₁ s₂ h₂).1 (h.epilogue_stands rfl (by decide))
      obtain ⟨hat₂, -⟩ := h.epilogue_step (i := 2) rfl (by decide) (by decide) hhere₂
      refine (endsWithin_iff hat₂ (mainEpilogue_mem (by decide))).mpr fun s₃ h₃ => ?_
      exact absurd ⟨_, s₃, .cons ⟨_, _, hat₀, h₁, rfl⟩ (.cons ⟨_, _, hat₁, h₂, rfl⟩
        (.cons ⟨_, _, hat₂, h₃, rfl⟩ (.nil s₃)))⟩ hnone

/-- **What happens behind `main`**, for every file that is compiled without an error: once the machine
has come to the epilogue of `main`, it ends there, with no instruction of another method, exactly
when `main` is the last method of its class (or the epilogue itself throws). -/
theorem mainEnd_iff {src : Source} {g : CodeGenerator} (h : Compiles src g) (hmain : g.mainAddr ≠ -50) :
    ∃ cls : ClassCode, SourceCode cls.fields cls.methods g ∧ cls.words = g.writeOpCode ∧
      ∀ {instructions : Instructions Word} {s : State Word}, Output cls instructions →
        Here instructions cls.mainEpilogue s →
        (EndsWithin decode instructions cls.own s ↔
          cls.after = [] ∨ ¬ ∃ es s', Runs (MStep decode instructions) 3 s es s') := by
  obtain ⟨fields, ms, hsource⟩ := program_code h
  obtain ⟨cls, rfl, rfl, hcode⟩ := hsource.toClass hmain
  refine ⟨cls, hsource, ?_, fun houtput hs => endsWithin_own_iff houtput hs⟩
  rw [ClassCode.words, CodeGenerator.writeOpCode, hcode]

/-- `public static void name() { }` -/
def emptyMethod (name : String) : List Lexeme :=
  [(.tPublic, none), (.tStatic, none), (.tVoid, none), (.tSident, some (.text name)),
   (.tLparen, none), (.tRparen, none), (.tLbraces, none), (.tRbraces, none)]

/-- `public class Main { public static void main() { } public static void f() { } }` -/
def mainThenF : List Lexeme :=
  [(.tPublic, none), (.tClass, none), (.tSident, some (.text "Main")), (.tLbraces, none)] ++
    emptyMethod "main" ++ emptyMethod "f" ++ [(.tRbraces, none)]

def mainThenFSource : Source :=
  { className := "Main", symbolFiles := []
    tokens := mainThenF.map fun l => { type := l.1, value := l.2, lineNumber := 1 }, lastLine := 1 }

theorem mainEnd_iff_mainThenF :
    ∃ cls : ClassCode, SourceCode cls.fields cls.methods (mainThenFSource.generated 40) ∧
      cls.words = (mainThenFSource.generated 40).writeOpCode ∧
      ∀ {instructions : Instructions Word} {s : State Word}, Output cls instructions →
        Here instructions cls.mainEpilogue s →
        (EndsWithin decode instructions cls.own s ↔
          cls.after = [] ∨ ¬ ∃ es s', Runs (MStep decode instructions) 3 s es s') :=
  mainEnd_iff (Source.compiles (by decide +kernel) (by decide +kernel)) (by decide +kernel)

def mainThenFCode : ClassCode :=
  { fields := [], before := [], main := ⟨⟨"main", [], 0⟩, []⟩, after := [⟨⟨"f", [], 0⟩, []⟩]
    main_name := rfl, others := by decide }

/-- The program does not end behind `main`: the machine goes on with `f`. -/
theorem main_enters_f :
    (mainThenFSource.finishes 40 = true ∧
      (mainThenFSource.generated 40).writeOpCode = mainThenFCode.words) ∧
    Output mainThenFCode (load mainThenFCode.words) ∧
    ∃ es s, Runs (MStep decode (load mainThenFCode.words)) 6 (init (load mainThenFCode.words)) es s ∧
      Here (load mainThenFCode.words) mainThenFCode.mainEpilogue s ∧
      ¬ EndsWithin decode (load mainThenFCode.words) mainThenFCode.own s := by
  refine ⟨by decide +kernel, .alone, ?_⟩
  generalize hcode : load mainThenFCode.words = code
  obtain ⟨s, s', hs, hs', hat⟩ : ∃ s s', follow decode code 6 (init code) = some s ∧
      follow decode code 3 s = some s' ∧ s.ir = some (OpCodeElement.word (.mk3 .add sp 0 fp)) ∧
      s.cip = 7 ∧ s.pc = some 8 := by
    rw [← hcode]
    exact ⟨_, _, rfl, rfl, rfl, rfl, rfl⟩
  obtain ⟨es, hrun⟩ := follow_runs hs
  obtain ⟨es', hrun'⟩ := follow_runs hs'
  have hhere : Here code mainThenFCode.mainEpilogue s := by
    refine ⟨_, ?_, hat.1, hat.2.1, hat.2.2, ?_⟩ <;> rw [← hcode] <;> decide
  have houtput : Output mainThenFCode code := hcode ▸ .alone
  refine ⟨es, s, hrun, hhere, fun hends => ?_⟩
  obtain ⟨w, hat'⟩ := enters_of_after houtput rfl hhere hrun'
  have hout : ¬ (mainThenFCode.mainStart ≤ mainThenFCode.mainBehind ∧
      mainThenFCode.mainBehind < mainThenFCode.mainBehind ∨
      mainThenFCode.mainBehind = mainThenFCode.code.length + 1) := by decide
  exact hout ((hends.runs hrun').mem hat')

end Linker
