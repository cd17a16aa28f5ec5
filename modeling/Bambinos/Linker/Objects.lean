import Bambinos.Compiler.ProgramCode
import Bambinos.Linker.ControlFlow
import Bambinos.Linker.RoundTrip

/-!
# Modules that were compiled

The linker works with any object files. Here they are those of source files that were compiled
without an error.

* `CompiledClass` — a source file, its code generator, and the parts of its code
* `CompiledClass.IsObject` — what the linker reads is what the compiler wrote for it
* `FromSource` — every module that is reached was compiled
-/

namespace Linker

open Infra Compiler Vm

/-- A source file and what it is compiled to. -/
structure CompiledClass where
  source : Source
  cg : CodeGenerator
  fields : List FieldCode
  methods : List ClassMethod
  compiles : Compiles source cg
  code : SourceCode fields methods cg

namespace CompiledClass

/-- Every source file that is compiled without an error is one. -/
theorem exists_of_compiles {src : Source} {g : CodeGenerator} (h : Compiles src g) :
    ∃ m : CompiledClass, m.source = src ∧ m.cg = g := by
  obtain ⟨fields, methods, hcode⟩ := program_code h
  exact ⟨⟨src, g, fields, methods, h, hcode⟩, rfl, rfl⟩

/-- The variables that the class declares. -/
def declarations (m : CompiledClass) : List Declaration := m.fields.filterMap FieldCode.declaration

/-- The contents are those of the object file of the class. -/
structure IsObject (m : CompiledClass) (c : Contents) : Prop where
  opCode : c.opCode = m.cg.writeOpCode
  fixupTable : c.fixupTable.map fixupOf = m.cg.fixupTable
  offsetTable : (c.offsetTable.map fun e => (e.name, e.offset)).Perm
    (getGlobalSymList m.cg.symbolTable)

end CompiledClass

/-- Every module that is reached is the object file of a class. -/
def FromSource (files : Files) (mainName : String) (main : Contents)
    (classes : String → CompiledClass) : Prop :=
  ∀ n c, Reachable files mainName main n → moduleContents files mainName main n = some c →
    (classes n).IsObject c

section Linked

variable {files : Files} {mainName : String} {main : Contents} {rest : List Placed}
  {classes : String → CompiledClass} {p : Placed} {m : CompiledClass} {c : Contents}
  {instructions : List Word}

theorem FromSource.isObject (h : FromSource files mainName main classes)
    (hlinked : Linked files mainName main rest instructions)
    (hp : p ∈ mainPlaced mainName main :: rest) : (classes p.name).IsObject p.contents :=
  h p.name p.contents ((hlinked.reachable p.name).mp (List.mem_map_of_mem hp))
    (hlinked.contents p hp)

/-- What was compiled is seen file by file. -/
theorem fromSource_of_files (hmain : (classes mainName).IsObject main)
    (h : ∀ n c, files.lookup (n ++ ".obj") = some c → (classes n).IsObject c) :
    FromSource files mainName main classes := by
  intro n c _ hc
  unfold moduleContents at hc
  split at hc
  · next hn =>
    cases hc
    rw [hn]
    exact hmain
  · exact h n c hc

/-- An address that is in no fixup table of the code generator is no call. -/
theorem CompiledClass.IsObject.noCall (h : m.IsObject p.contents) {a : Nat}
    (ha : ∀ e ∈ m.cg.fixupTable, e.offset ≠ a) : NoCall p a := by
  intro f hf
  refine ha (fixupOf f) ?_
  rw [← h.fixupTable]
  exact List.mem_map_of_mem hf

end Linked

end Linker
