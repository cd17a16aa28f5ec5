import Bambinos.Compiler.ClassCode
import Bambinos.Vm.Encoding
import Bambinos.Linker.ControlFlow

/-!
# The two outputs of a class

The compiler writes a binary of its own for every class, and the linker one for a class and the
modules that it imports.

* `Output` — the instructions of such a binary
* `Output.word` — what is no call stands at the address where the compiler put it
* `Output.behind` — what follows the code of the class
-/

namespace Compiler

open Infra

/-- The code of a class as `writeOpCode` writes it. -/
def ClassCode.words (cls : ClassCode) : List Word := cls.code.map OpCodeElement.word

end Compiler

namespace Linker

open Infra Compiler Vm

/-- The instructions of a binary with the given class as its main class. -/
inductive Output (cls : ClassCode) : Instructions Word → Prop
  | alone : Output cls (load cls.words)
  | linked {files : Files} {filename mainName : String} {main : Contents} {b₀ b : BinaryFile}
    {fuel : Nat} {m : ObjectFile} (hname : getModuleName filename b₀ = .ok mainName b₀)
    (hmain : files.lookup filename = some main) (hl : Linkable files mainName main)
    (hfuel : files.length < fuel) (hlink : link files fuel filename b₀ = .ok m b)
    (hcode : main.opCode = cls.words) : Output cls (linkedCode b.instructions)

section Linked

variable {files : Files} {mainName : String} {main : Contents} {rest : List Placed}
  {instructions : List Word} {p : Placed}

/-- Every entry of a fixup table belongs to a call, so that nothing else is fixed. -/
theorem noCall_of_word (hwf : WellFormed p.contents) {a : Nat} {w : Word}
    (hw : p.alone[a]? = some (some w)) (hcall : ¬ IsCall w) : NoCall p a := by
  intro f hf heq
  obtain ⟨i, w', hoff, hi, hc⟩ := hwf.calls f hf
  obtain ⟨j, rfl, hj⟩ := load_getElem? hw
  have hij : i = j := by omega
  rw [hij, hj] at hi
  injection hi with hi
  rw [hi] at hcall
  exact hcall hc

/-- The exit instruction stands behind the main module. -/
theorem Linked.exit (h : Linked files mainName main rest instructions)
    (hl : Linkable files mainName main) :
    instructions[1 + main.opCode.length]? = some (OpCodeElement.word (.mk3 .bsr 0 0 (-1))) := by
  have hA := h.arranged
  rw [h.fixed.frame (1 + main.opCode.length) ?_]
  · unfold unfixed
    rw [show 1 + main.opCode.length = main.opCode.length + 1 by omega, List.getElem?_cons_succ,
      List.getElem?_append_right (Nat.le_refl _), Nat.sub_self]
    rfl
  · rintro ⟨q, f⟩ ⟨hq, hf⟩ heq
    have hq : q ∈ mainPlaced mainName main :: rest := hq
    have hf : f ∈ q.contents.fixupTable := hf
    obtain ⟨j, _, -, hsite, hj, -⟩ := hA.callSite_eq hl hq hf
    rcases List.mem_cons.mp hq with rfl | hq'
    · have hoffset : (mainPlaced mainName main).offset = 1 := rfl
      have hlength : (mainPlaced mainName main).contents.opCode.length = main.opCode.length := rfl
      omega
    · have hb := contiguous_bounds h.contiguous hq'
      omega

end Linked

namespace Output

variable {cls : ClassCode} {instructions : Instructions Word} {i : Nat} {e : OpCodeElement}

/-- **What is no call stands at the address where the compiler put it.** -/
theorem word (h : Output cls instructions) (he : cls.code[i]? = some e) (hcall : ¬ IsCall e.word) :
    instructions[i + 1]? = some (some e.word) ∧ i + 2 < instructions.length := by
  have hw : cls.words[i]? = some e.word := by
    rw [ClassCode.words, List.getElem?_map, he]
    rfl
  cases h with
  | alone =>
    have hi := (List.getElem?_eq_some_iff.mp hw).1
    refine ⟨load_getElem?_succ hw, ?_⟩
    rw [load_length]
    omega
  | @linked files filename mainName main b₀ b fuel m hname hmain hl hfuel hlink hcode =>
    obtain ⟨m', b', rest, hrun, hlinked⟩ := link_linked hname hmain hl hfuel
    rw [hlink] at hrun
    injection hrun with _ hb
    rw [← hb] at hlinked
    have halone : (mainPlaced mainName main).alone[i + 1]? = some (some e.word) := by
      show (load main.opCode)[i + 1]? = _
      rw [hcode]
      exact load_getElem?_succ hw
    have hwf : WellFormed (mainPlaced mainName main).contents :=
      hlinked.arranged.wellFormed hl List.mem_cons_self
    obtain ⟨w', hw', hlt, hsame⟩ := linkedCode_image hlinked hl List.mem_cons_self halone
    rw [hsame (noCall_of_word hwf halone hcall)] at hw'
    rw [Placed.image_main (p := mainPlaced mainName main) rfl] at hw' hlt
    exact ⟨hw', hlt⟩

/-- At every address of the class stands a word. -/
theorem stands (h : Output cls instructions) (hi : i < cls.code.length) :
    Stands instructions (i + 1) := by
  have hw : cls.words[i]? = some (cls.code[i].word) := by
    rw [ClassCode.words, List.getElem?_map, List.getElem?_eq_getElem hi]
    rfl
  cases h with
  | alone =>
    refine ⟨⟨_, load_getElem?_succ hw⟩, ?_⟩
    rw [load_length, ClassCode.words, List.length_map]
    omega
  | @linked files filename mainName main b₀ b fuel m hname hmain hl hfuel hlink hcode =>
    obtain ⟨m', b', rest, hrun, hlinked⟩ := link_linked hname hmain hl hfuel
    rw [hlink] at hrun
    injection hrun with _ hb
    rw [← hb] at hlinked
    have halone : (mainPlaced mainName main).alone[i + 1]? = some (some cls.code[i].word) := by
      show (load main.opCode)[i + 1]? = _
      rw [hcode]
      exact load_getElem?_succ hw
    obtain ⟨w', hw', hlt, -⟩ := linkedCode_image hlinked hl List.mem_cons_self halone
    rw [Placed.image_main (p := mainPlaced mainName main) rfl] at hw' hlt
    exact ⟨⟨w', hw'⟩, hlt⟩

/-- **Behind the class** stands `BSR -1`, or nothing. -/
theorem behind (h : Output cls instructions) :
    instructions[cls.code.length + 1]? = some none ∨
      (instructions[cls.code.length + 1]? = some (some (OpCodeElement.word (.mk3 .bsr 0 0 (-1)))) ∧
        cls.code.length + 2 < instructions.length) := by
  have hlength : cls.words.length = cls.code.length := List.length_map _
  cases h with
  | alone =>
    left
    unfold load
    rw [← hlength, List.cons_append, List.getElem?_cons_succ,
      List.getElem?_append_right (by simp), List.length_map, Nat.sub_self]
    rfl
  | @linked files filename mainName main b₀ b fuel m hname hmain hl hfuel hlink hcode =>
    obtain ⟨m', b', rest, hrun, hlinked⟩ := link_linked hname hmain hl hfuel
    rw [hlink] at hrun
    injection hrun with _ hb
    rw [← hb] at hlinked
    have hexit := hlinked.exit hl
    rw [hcode, hlength] at hexit
    right
    have hlt := (List.getElem?_eq_some_iff.mp hexit).1
    refine ⟨load_getElem?_succ ?_, ?_⟩
    · rw [List.getElem?_tail, ← hexit]
      congr 1
      omega
    · unfold linkedCode
      rw [load_length, List.length_tail]
      omega

end Output

end Linker
