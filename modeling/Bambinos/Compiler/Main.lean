import Bambinos.Compiler.Statement
import Bambinos.Compiler.SymbolFile
import Bambinos.Compiler.TokenRuns
import Bambinos.Linker.ObjectFormat

/-!
# `Parser.main`

What a compilation writes.

* `main` — parses, writes the output file and the symbol file
* `program_catches` — no syntax error gets out of `program`
* `outputFile_eq_none_iff` — nothing but an exception that gets out keeps `main` from writing
* `program_bad_header` — files that do not get past the name of their class
-/

namespace Compiler

open Infra

/-! ## the output -/

/-- The file that is written, by its words. -/
inductive OutputFile where
  | binary (words : List Word)
  | object (words : List Word)
deriving DecidableEq, Repr

section Main

-- the order in which a `HashMap` is gone through
variable (hashOrder : List Linker.Row → List Linker.Row)

/-- A binary file for a class that has `main` and calls no other class, else an object file. -/
def writeOutputFile (g : CodeGenerator) : OutputFile :=
  if g.mainAddr ≠ -50 ∧ g.fixupTable.isEmpty then .binary (1 :: g.writeOpCode)
  else .object (Linker.writeObjectFile g (hashOrder (Linker.getGlobalSymList g.symbolTable)))

/-- A source file: its tokens, and the symbol files that it can import. -/
structure Source where
  className : String
  symbolFiles : List (String × SymbolTableList)
  tokens : List Ident
  lastLine : Nat

/-- The fields at the start of `program`. -/
def Source.init (src : Source) : ParserState :=
  .init src.className src.symbolFiles src.tokens src.lastLine

/-- What the scanner delivers first. -/
def Source.firstToken (src : Source) : Ident := src.tokens.headD (.eof src.lastLine)

/-- The files that are written, and what ended the compilation early. -/
structure Written where
  outputFile : Option OutputFile
  symbolFile : Option (List Event)
  thrown : Option Throwable
deriving DecidableEq, Repr

/-- `main`, up to the fuel of `program`. -/
def main (fuel : Nat) (src : Source) : Written :=
  match Parser.program fuel src.init with
  | .ok _ s =>
    let outputFile := writeOutputFile hashOrder s.cg
    match writeSymbolfile s.cg.symbolTable with
    | some symbolFile =>
      { outputFile := some outputFile, symbolFile := some symbolFile, thrown := none }
    | none => { outputFile := some outputFile, symbolFile := none, thrown := some .nullPointer }
  | .error e _ => { outputFile := none, symbolFile := none, thrown := some e }

/-- The state in which a method ends. -/
def stateAfter {σ α : Type} : EStateM.Result Throwable σ α → σ
  | .ok _ s => s
  | .error _ s => s

/-- What Java ends the compilation with. Without fuel it does not end. -/
def Unchecked (e : Throwable) : Prop := ∀ message, e ≠ .illegalToken message

/-! ## syntax errors are caught -/

/-- Whatever it throws is unchecked. -/
def Catches {α : Type} (m : P α) : Prop := ∀ s e s', m s = .error e s' → Unchecked e

namespace Catches

variable {α β : Type} {m : P α} {f : α → P β}

theorem of_ok (h : ∀ s, ∃ a s', m s = .ok a s') : Catches m := by
  intro s e s' herr
  obtain ⟨a, s₁, hok⟩ := h s
  rw [hok] at herr
  cases herr

theorem bind (hm : Catches m) (hf : ∀ a, Catches (f a)) : Catches (m >>= f) := by
  intro s e s' herr
  rw [bind_run] at herr
  cases h : m s with
  | ok a s₁ =>
    rw [h] at herr
    exact hf a s₁ e s' herr
  | error e₁ s₁ =>
    rw [h] at herr
    injection herr with he
    exact he ▸ hm s e₁ s₁ h

/-- A handler that catches makes a block that does. -/
theorem catchIllegal (handler : String → P α) (h : ∀ message, Catches (handler message)) :
    Catches (Parser.catchIllegal m handler) := by
  intro s e s' herr
  unfold Parser.catchIllegal at herr
  cases hm : m s with
  | ok a s₁ =>
    rw [hm] at herr
    cases herr
  | error e₁ s₁ =>
    rw [hm] at herr
    cases e₁ with
    | illegalToken message => exact h message s₁ e s' herr
    | _ =>
      injection herr with he
      subst he
      nofun

theorem whileLoop {cond : ParserState → Bool} {body : α → P α} (hbody : ∀ a, Catches (body a)) :
    ∀ (fuel : Nat) (a : α), Catches (Infra.whileLoop cond body fuel a)
  | 0, a => by
    intro s e s' herr
    injection herr with he
    subst he
    nofun
  | fuel + 1, a => by
    unfold Infra.whileLoop
    refine bind (of_ok fun s => ⟨s, s, rfl⟩) fun s => ?_
    split
    · exact bind (hbody a) fun a' => whileLoop hbody fuel a'
    · exact of_ok fun s => ⟨a, s, rfl⟩

end Catches

namespace Parser

theorem report_catches (r : Report) : Catches (report r) := Catches.of_ok fun _ => ⟨_, _, rfl⟩

theorem nextToken_catches : Catches nextToken := Catches.of_ok fun s => ⟨_, _, nextToken_run s⟩

theorem skipBelow_catches (fuel : Nat) (border : TokenID) : Catches (skipBelow fuel border) :=
  Catches.whileLoop (fun _ => nextToken_catches) fuel ()

/-- **Every syntax error is caught.** -/
theorem program_catches (fuel : Nat) : Catches (program fuel) := by
  unfold program
  refine nextToken_catches.bind fun _ => ?_
  refine (Catches.of_ok fun s => ⟨_, s, currentType_eq s⟩).bind fun t => ?_
  have himports : Catches (do
      whileLoop (fun s => s.currentToken.type == .tImport)
        (fun _ =>
          catchIllegal packageImport fun message => do
            skipBelow fuel .strongSymCB
            report (.stackTrace message))
        fuel ()
      classDeclaration fuel) := by
    refine (Catches.whileLoop (fun _ => ?_) fuel ()).bind fun _ => ?_
    · exact Catches.catchIllegal _ fun message =>
        (skipBelow_catches fuel _).bind fun _ => report_catches _
    · exact Catches.catchIllegal _ fun message => report_catches _
  split
  · exact (Catches.catchIllegal _ fun message => report_catches _).bind fun _ => himports
  · exact himports

end Parser

variable {hashOrder}

/-- A compilation that comes to its end writes. -/
theorem outputFile_eq_none_iff (fuel : Nat) (src : Source) :
    (main hashOrder fuel src).outputFile = none ↔
      ∃ e s, Parser.program fuel src.init = .error e s := by
  unfold main
  cases h : Parser.program fuel src.init with
  | ok a s =>
    simp only [reduceCtorEq, exists_false, iff_false]
    split
    · nofun
    · nofun
  | error e s => simp

/-! ## files that are no class -/

/-- The tokens that the compiler looks for at the start of a file. -/
def StartsFile (id : TokenID) : Prop :=
  id = .tPackage ∨ id = .tImport ∨ id = .tPublic ∨ id = .tClass ∨ id = .tSident ∨ id = .tError

/-- Such a file does not get past the name of its class. -/
theorem program_bad_header {src : Source} (h : ¬ StartsFile src.firstToken.type) (fuel : Nat) :
    ∃ s, Parser.program (fuel + 1) src.init = .ok () s ∧ s.setCodeGeneration = false ∧
      s.cg = src.init.cg := by
  unfold StartsFile at h
  simp only [not_or] at h
  obtain ⟨hpackage, himport, hpublic, hclass, hident, herr⟩ := h
  let s₀ : ParserState :=
    { src.init with currentToken := src.firstToken, input := src.tokens.tail }
  obtain ⟨s₁, h₁, ht₁, -, hcg₁, -⟩ := Parser.expectWeak_missing (s := s₀) hpublic herr
  have hclass₁ : s₁.currentToken.type ≠ .tClass := by rwa [ht₁]
  have herr₁ : s₁.currentToken.type ≠ .tError := by rwa [ht₁]
  obtain ⟨s₂, h₂, ht₂, -, hcg₂, -⟩ := Parser.expectWeak_missing hclass₁ herr₁
  have hident₂ : s₂.currentToken.type ≠ .tSident := by rwa [ht₂, ht₁]
  obtain ⟨message, s₃, h₃, hflag, -, -, hcg₃, -⟩ := Parser.expect_missing hident₂
  have hclassDeclaration : Parser.classDeclaration (fuel + 1) s₀ =
      .ok () { s₃ with reports := s₃.reports ++ [.stackTrace message] } := by
    unfold Parser.classDeclaration Parser.catchIllegal
    rw [bind_ok h₁, bind_ok h₂, bind_error h₃]
    rfl
  refine ⟨{ s₃ with reports := s₃.reports ++ [.stackTrace message] }, ?_, hflag,
    hcg₃.trans (hcg₂.trans hcg₁)⟩
  have hloop : (s₀.currentToken.type == TokenID.tImport) = false := by
    simpa using himport
  have hnext : Parser.nextToken src.init = .ok () s₀ := Parser.nextToken_run _
  have hpackage₀ : ¬ s₀.currentToken.type = .tPackage := hpackage
  unfold Parser.program
  rw [bind_ok hnext, bind_ok (Parser.currentType_eq _), if_neg hpackage₀]
  show (whileLoop _ _ (fuel + 1) () >>= fun _ => Parser.classDeclaration (fuel + 1)) s₀ = _
  rw [bind_ok (Parser.whileLoop_exit hloop), hclassDeclaration]

end Main

end Compiler
