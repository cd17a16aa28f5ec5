import Bambinos.Compiler.Declarations
import Bambinos.Compiler.Flow.Code
import Bambinos.Compiler.Statement

/-!
# The code of a class

What `classBlock` leaves in `opCode` when nothing is wrong with the class: the fields, the jump to
`main`, and the methods one after the other. That it does so is said in `program_code`.

* `FieldCode`, `MethodCode`, `ClassMethod` — the parts
* `ClassCode` — a class that has a method `main`
-/

namespace Compiler

open Infra

/-! ## methods -/

/-- A method. `body` is what `bodyBlock` writes, `size` is what the prologue takes from the stack. -/
structure MethodCode where
  name : String
  body : List OpCodeElement
  size : Int
deriving DecidableEq, Repr

namespace MethodCode

/-- What `methodPrologue` writes, once the epilogue has put in the size. -/
def prologue (size : Int) : List OpCodeElement :=
  [.mk3 .psh lnk sp 1, .mk3 .psh fp sp 1, .mk3 .add fp 0 sp, .mk3 .subi sp sp size]

/-- What `methodEpilogueMain` writes. -/
def epilogue (main : Bool) : List OpCodeElement :=
  [.mk3 .add sp 0 fp, .mk3 .pop fp sp 1, .mk3 .pop lnk sp 1] ++
    if main then [] else [.mk3 .ret 0 0 lnk]

def code (m : MethodCode) : List OpCodeElement :=
  prologue m.size ++ (m.body ++ epilogue (m.name = "main"))

theorem code_length_pos (m : MethodCode) : 0 < m.code.length := by
  unfold code prologue
  simp

end MethodCode

/-! ## the code generator on a method -/

namespace CodeGenerator

open MethodCode

variable (g : CodeGenerator) (size : Int) (main : Bool)

theorem methodPrologue_eq : g.methodPrologue =
    (g.pc, { g.emit (prologue (-100)) with methodFix := g.opCode.length + 3 }) := by
  simp [methodPrologue, putOpCode, emit, prologue]

theorem methodEpilogueMain_eq : g.methodEpilogueMain size main =
    (g.emit (epilogue main)).setC g.methodFix size := by
  cases main <;> simp [methodEpilogueMain, putOpCode, emit, epilogue, setC]

/-- The epilogue puts the size into the prologue. -/
theorem setC_prologue (pre rest : List OpCodeElement) :
    (pre ++ (prologue (-100) ++ rest)).modify (pre.length + 3) (fun e => { e with c := size }) =
      pre ++ (prologue size ++ rest) := by
  have h := modify_middle (.mk3 .subi sp sp (-100)) rest (fun e => { e with c := size })
    (pre ++ [.mk3 .psh lnk sp 1, .mk3 .psh fp sp 1, .mk3 .add fp 0 sp])
  rw [List.length_append] at h
  simp only [prologue, List.append_assoc, List.cons_append, List.nil_append] at h ⊢
  exact h

end CodeGenerator

/-! ## fields -/

/--
What a declaration of a class writes. A scalar is stored behind the code of its value; an array
writes nothing, and the constructor of an object is not called, but its argument is computed.
-/
inductive FieldCode where
  | scalar (type : TypeDesc) (cell : SymbolTableCell) (value : List OpCodeElement) (register : Int)
  | array (type : TypeDesc) (name : String) (size : Nat)
  | object (argument : List OpCodeElement)
deriving DecidableEq

namespace FieldCode

def code : FieldCode → List OpCodeElement
  | scalar _ cell value register =>
    value ++ [.mk3 .stw register (CodeGenerator.address cell).1 (CodeGenerator.address cell).2]
  | array _ _ _ => []
  | object argument => argument

/-- The variable that is declared. Objects have no place. -/
def declaration : FieldCode → Option Declaration
  | scalar type cell _ _ => some (.scalar type cell.name)
  | array type name size => some (.array type name size)
  | object _ => none

end FieldCode

/-- The code of the declarations of a class. -/
def fieldsCode (fields : List FieldCode) : List OpCodeElement := fields.flatMap FieldCode.code

theorem fieldsCode_append (fields fields' : List FieldCode) :
    fieldsCode (fields ++ fields') = fieldsCode fields ++ fieldsCode fields' := List.flatMap_append

/-! ## classes -/

/-- A method of a class. An index in its parameters is computed in front of the prologue. -/
structure ClassMethod extends MethodCode where
  header : List OpCodeElement
deriving DecidableEq, Repr

def ClassMethod.whole (m : ClassMethod) : List OpCodeElement := m.header ++ m.code

/-- The code of some methods. -/
def methodsCode (ms : List ClassMethod) : List OpCodeElement := ms.flatMap ClassMethod.whole

@[simp] theorem methodsCode_cons (m : ClassMethod) (ms : List ClassMethod) :
    methodsCode (m :: ms) = m.whole ++ methodsCode ms := rfl

@[simp] theorem methodsCode_append (ms ms' : List ClassMethod) :
    methodsCode (ms ++ ms') = methodsCode ms ++ methodsCode ms' := List.flatMap_append

/-- What stands in front of the methods, with the target of the jump to `main`. -/
def startCode (fields : List FieldCode) (target : Int) : List OpCodeElement :=
  .mk3 .addi sp 0 4096 :: (fieldsCode fields ++ [.mk3 .bsr 0 0 target])

/-- A class with a method `main`. -/
structure ClassCode where
  fields : List FieldCode
  before : List ClassMethod
  main : ClassMethod
  after : List ClassMethod
  main_name : main.name = "main"
  /-- A name is declared once. -/
  others : ∀ m ∈ before ++ after, m.name ≠ "main"

namespace ClassCode

theorem no_others : ∀ m ∈ ([] : List ClassMethod) ++ [], m.name ≠ "main" := nofun

/-- The methods in the order of the class. -/
def methods (cls : ClassCode) : List ClassMethod := cls.before ++ cls.main :: cls.after

/-- What the fields are initialised with. -/
def declarations (cls : ClassCode) : List OpCodeElement := fieldsCode cls.fields

/-- The address of `main`. -/
def mainStart (cls : ClassCode) : Nat :=
  3 + cls.declarations.length + (methodsCode cls.before).length + cls.main.header.length

/-- What stands before the methods. -/
def initialisation (cls : ClassCode) : List OpCodeElement := startCode cls.fields cls.mainStart

/-- The code of a class. -/
def code (cls : ClassCode) : List OpCodeElement := cls.initialisation ++ methodsCode cls.methods

theorem initialisation_length (cls : ClassCode) :
    cls.initialisation.length = 2 + cls.declarations.length := by
  simp only [initialisation, startCode, declarations, List.length_cons, List.length_append,
    List.length_nil]
  omega

/-- The prologue of `main` stands behind its header. -/
theorem code_eq (cls : ClassCode) : cls.code = (cls.initialisation ++ methodsCode cls.before ++
    cls.main.header) ++ (cls.main.code ++ methodsCode cls.after) := by
  simp only [code, methods, methodsCode_append, methodsCode_cons, ClassMethod.whole,
    List.append_assoc]

end ClassCode

end Compiler
