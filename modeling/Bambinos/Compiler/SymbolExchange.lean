import Bambinos.Compiler.Declarations
import Bambinos.Compiler.SymbolFile

/-!
# What an import reads of a symbol file

* `handleAll_coalesce` — in which pieces the text is delivered does not matter
* `type_line`, `name_line`, `size_line` — the lines of a cell
* `parameters_run`, `entries_run` — the symbols of a method, the entries of a class
* `importClass_eq` — the table that is read, for every table that is written
-/

namespace Compiler

open Infra

/-! ## pieces of text -/

namespace ParseSymbolFile

theorem handleAll_append (l r : List Event) :
    handleAll (l ++ r) = (do handleAll l; handleAll r) := by
  induction l with
  | nil => rfl
  | cons e l ih =>
    funext st
    show (handle e >>= fun _ => handleAll (l ++ r)) st =
      ((handle e >>= fun _ => handleAll l) >>= fun _ => handleAll r) st
    rw [bind_assoc, ih]

/-- Two pieces of a text do what the whole of it does. -/
theorem handle_pieces (s s' : String) (rest : List Event) :
    handleAll (.characters s :: .characters s' :: rest) =
      handleAll (.characters (s ++ s') :: rest) := by
  funext st
  simp only [handleAll, handle]
  show handleAll rest _ = handleAll rest _
  congr 2
  dsimp only
  cases st.textBuffer <;> simp [String.append_assoc]

/-- **In which pieces a text is delivered does not matter.** -/
theorem handleAll_coalesce : ∀ events : List Event, handleAll (coalesce events) = handleAll events
  | [] => rfl
  | .startElement _ :: rest => by
    rw [coalesce, handleAll, handleAll, handleAll_coalesce rest]
    · nofun
  | .endElement _ :: rest => by
    rw [coalesce, handleAll, handleAll, handleAll_coalesce rest]
    · nofun
  | .characters s :: rest => by
    have ih := handleAll_coalesce rest
    rw [coalesce]
    split
    · next s' rest' heq =>
      rw [← handle_pieces, ← heq, handleAll, ih, handleAll]
    · rw [handleAll, ih, handleAll]

/-! ## lines -/

/-- A text without tags. -/
def PlainText (s : String) : Prop := '<' ∉ s.toList

theorem PlainText.ne {s tag : String} (h : PlainText s) (htag : '<' ∈ tag.toList) : s ≠ tag := by
  rintro rfl
  exact h htag

theorem addTag_text {s : String} (h : PlainText s) : addTag s = pure () := by
  funext st
  have h1 : ¬ (s = "<variable" ∨ s = "<array") :=
    not_or.mpr ⟨h.ne (by decide), h.ne (by decide)⟩
  have h2 : ¬ (s = "</variable>" ∨ s = "</array>") :=
    not_or.mpr ⟨h.ne (by decide), h.ne (by decide)⟩
  have h3 : ¬ s = "<method" := h.ne (by decide)
  have h4 : ¬ (s = "<symbols" ∧ st.cell.isSome) := fun hs => h.ne (by decide) hs.1
  have h5 : ¬ s = "</symbols>" := h.ne (by decide)
  unfold addTag
  rw [bind_ok get_run, if_neg h1, if_neg h2, if_neg h3, if_neg h4, if_neg h5]

theorem setNameMode_text {s : String} (h : PlainText s) : setNameMode s = pure () := by
  have h1 : ¬ s = "<type" := h.ne (by decide)
  have h2 : ¬ s = "<name" := h.ne (by decide)
  have h3 : ¬ s = "<size" := h.ne (by decide)
  unfold setNameMode
  rw [if_neg h1, if_neg h2, if_neg h3]

/-- A text sets a field, if any. -/
theorem addString_text {s : String} (h : PlainText s) : addString s = setField s := by
  unfold addString
  rw [addTag_text h, setNameMode_text h, pure_bind, bind_pure_unit]

/-- Between two lines of the symbols. -/
def atLine (list : SymbolTableList) (cell : Option SymbolEntry) (globalScope : Bool)
    (methodName : Option String) (methodMode : Bool) (sum : Int) : ParseSymbolFile :=
  { textBuffer := some "\n", startpars := true, cell := cell, list := list, nameMode := .nothing,
    globalScope := globalScope, methodName := methodName, methodMode := methodMode, sum := sum }

/-- The type that a type is read as: a string is read as a character. -/
def importedType : TypeDesc → TypeDesc
  | .stringType => .charType
  | t => t

theorem base_importedType (t : TypeDesc) : (importedType t).base = t.base := by
  cases t <;> rfl

theorem setType_base (cell : SymbolTableCell) (t : TypeDesc) :
    setType cell t.base.toString = { cell with type := some (importedType t) } := by
  cases t <;> rfl

theorem plainText_base (t : TypeDesc) : PlainText t.base.toString := by
  unfold PlainText
  cases t <;> decide

theorem digits_toDigits (n : Nat) : digits (Nat.toDigits 10 n) = some (n : Int) := by
  unfold digits
  rw [if_pos, Nat.ofDigitChars_ten_toDigits]
  refine ⟨Nat.toDigits_ne_nil, List.all_eq_true.mpr fun c hc => ?_⟩
  exact Nat.isDigit_of_mem_toDigits (by decide) (by decide) hc

theorem head_toDigits_ne {n : Nat} {c : Char} {ds : List Char} (h : Nat.toDigits 10 n = c :: ds) :
    c.isDigit := by
  refine Nat.isDigit_of_mem_toDigits (b := 10) (n := n) (by decide) (by decide) ?_
  rw [h]
  exact List.mem_cons_self

/-- The text of a size. -/
theorem toList_toString (n : Int) :
    (toString n).toList = if n < 0 then '-' :: Nat.toDigits 10 n.natAbs
      else Nat.toDigits 10 n.natAbs := by
  cases n with
  | ofNat n =>
    rw [if_neg (by simp)]
    exact Nat.toList_repr
  | negSucc n =>
    rw [if_pos (Int.negSucc_lt_zero n)]
    show ("-" ++ (n + 1).repr).toList = _
    rw [String.toList_append, Nat.toList_repr]
    rfl

theorem plainText_toString (n : Int) : PlainText (toString n) := by
  intro h
  rw [toList_toString] at h
  have hdigit : '<' ∉ Nat.toDigits 10 n.natAbs := fun h =>
    absurd (Nat.isDigit_of_mem_toDigits (by decide) (by decide) h) (by decide)
  split at h
  · rcases List.mem_cons.mp h with h | h
    · exact absurd h (by decide)
    · exact hdigit h
  · exact hdigit h

theorem signedDigits_toString (n : Int) : signedDigits (toString n).toList = some n := by
  rw [toList_toString]
  split_ifs with hn
  · rw [signedDigits, digits_toDigits, Option.map_some]
    congr 1
    omega
  · have hd : digits (Nat.toDigits 10 n.natAbs) = some n := by
      rw [digits_toDigits]
      congr 1
      omega
    unfold signedDigits
    split
    · next ds heq => exact absurd (head_toDigits_ne heq) (by decide)
    · next ds heq => exact absurd (head_toDigits_ne heq) (by decide)
    · exact hd

theorem parseInt_toString {n : Int} (h : int32 n = n) (st : ParseSymbolFile) :
    parseInt (toString n) st = .ok n st := by
  unfold parseInt
  rw [signedDigits_toString]
  dsimp only
  rw [if_pos h, pure_run]

section Lines

variable {list : SymbolTableList} {cell : Option SymbolEntry} {e : SymbolEntry}
  {globalScope methodMode : Bool} {methodName : Option String} {sum : Int} {s : String}

theorem start_variable :
    handleAll (appendLine [.startElement "variable"])
        (atLine list cell globalScope methodName methodMode sum) =
      .ok () (atLine list (some (newEntry globalScope false)) globalScope methodName methodMode
        sum) := rfl

theorem start_array :
    handleAll (appendLine [.startElement "array"])
        (atLine list cell globalScope methodName methodMode sum) =
      .ok () (atLine list (some (newEntry globalScope false)) globalScope methodName methodMode
        sum) := rfl

theorem start_method :
    handleAll (appendLine [.startElement "method"])
        (atLine list cell globalScope methodName methodMode sum) =
      .ok () (atLine list (some (newEntry true true)) false methodName true sum) := rfl

theorem start_symbols :
    handleAll (appendLine [.startElement "symbols"])
        (atLine list (some e) globalScope methodName methodMode sum) =
      .ok () (atLine (add list e) (some (newEntry globalScope false)) globalScope methodName false
        sum) := rfl

theorem end_symbols :
    handleAll (appendLine [.endElement "symbols"])
        (atLine list cell globalScope methodName methodMode sum) =
      .ok () (atLine list cell true methodName methodMode sum) := rfl

theorem end_method :
    handleAll (appendLine [.endElement "method"])
        (atLine list cell globalScope methodName methodMode sum) =
      .ok () (atLine list cell globalScope methodName methodMode sum) := rfl

/-- The words that an entry of the class adds to the sum. -/
def entrySize (e : SymbolEntry) : Int := if e.cell.size = 0 then 1 else e.cell.size

theorem end_variable_global :
    handleAll (appendLine [.endElement "variable"])
        (atLine list (some e) true methodName methodMode sum) =
      .ok () (atLine (add list e) (some e) true methodName methodMode
        (int32 (sum + entrySize e))) := rfl

theorem end_array_global :
    handleAll (appendLine [.endElement "array"])
        (atLine list (some e) true methodName methodMode sum) =
      .ok () (atLine (add list e) (some e) true methodName methodMode
        (int32 (sum + entrySize e))) := rfl

/-- A text in front of a tag sets the field that is awaited. -/
theorem echoTextBuffer_text (h : PlainText s) {st st' : ParseSymbolFile}
    (hbuffer : st.textBuffer = some s) (hset : setField s st = .ok () st') :
    echoTextBuffer st = .ok () { st' with textBuffer := none } := by
  unfold echoTextBuffer
  rw [bind_ok get_run, hbuffer]
  dsimp only
  rw [addString_text h, bind_ok hset, modify_run]

/-- The state in which the text of an element is read. -/
def inElement (st : ParseSymbolFile) (mode : NameMode) (s : String) : ParseSymbolFile :=
  { st with textBuffer := some s, nameMode := mode }

theorem type_line (h : PlainText s) :
    handleAll (appendElement "type" s)
        (atLine list (some e) globalScope methodName methodMode sum) =
      .ok () (atLine list (some { e with cell := setType e.cell s }) globalScope methodName
        methodMode sum) := by
  show ((echoTextBuffer >>= fun _ => addString "</type>") >>= fun _ =>
    handleAll [.characters "\n"])
      (inElement (atLine list (some e) globalScope methodName methodMode sum) .type s) = _
  rw [bind_assoc, bind_ok (echoTextBuffer_text h rfl rfl)]
  rfl

theorem name_line (h : PlainText s) :
    handleAll (appendElement "name" s)
        (atLine list (some e) globalScope methodName methodMode sum) =
      .ok () (atLine list (some { e with cell := { e.cell with name := s } }) globalScope
        (if methodMode then some s else methodName) methodMode sum) := by
  show ((echoTextBuffer >>= fun _ => addString "</name>") >>= fun _ =>
    handleAll [.characters "\n"])
      (inElement (atLine list (some e) globalScope methodName methodMode sum) .name s) = _
  rw [bind_assoc, bind_ok (echoTextBuffer_text h rfl rfl)]
  rfl

theorem size_line {n : Int} (h : int32 n = n) :
    handleAll (appendElement "size" (toString n))
        (atLine list (some e) globalScope methodName methodMode sum) =
      .ok () (atLine list (some { e with cell := { e.cell with size := n } }) globalScope methodName
        methodMode sum) := by
  show ((echoTextBuffer >>= fun _ => addString "</size>") >>= fun _ =>
    handleAll [.characters "\n"])
      (inElement (atLine list (some e) globalScope methodName methodMode sum) .size (toString n)) = _
  have hset : setField (toString n)
      (inElement (atLine list (some e) globalScope methodName methodMode sum) .size (toString n)) =
      .ok () { inElement (atLine list (some e) globalScope methodName methodMode sum) .nothing
        (toString n) with cell := some { e with cell := { e.cell with size := n } } } := by
    unfold setField
    rw [bind_ok get_run]
    show ((parseInt (toString n)) >>= _) _ = _
    rw [bind_ok (parseInt_toString h _)]
    rfl
  rw [bind_assoc, bind_ok (echoTextBuffer_text (plainText_toString n) rfl hset)]
  rfl

end Lines

/-! ## cells -/

/-- What a cell is read as. -/
def importedCell (globalScope : Bool) (c : SymbolTableCell) : SymbolTableCell :=
  { name := c.name, classType := if c.classType = .method then .method else .var,
    type := c.type.map importedType, proc := 0, offset := 0,
    size := if c.classType = .var then 0 else c.size, globalScope := globalScope }

/-- What the cells need for their lines to be read. -/
structure WritableCell (c : SymbolTableCell) : Prop where
  name : PlainText c.name
  size : int32 c.size = c.size

/-- The sequence of two runs. -/
theorem handleAll_seq {l r : List Event} {st st₁ st₂ : ParseSymbolFile}
    (hl : handleAll l st = .ok () st₁) (hr : handleAll r st₁ = .ok () st₂) :
    handleAll (l ++ r) st = .ok () st₂ := by
  rw [handleAll_append, bind_ok hl, hr]

/-- An exported cell has a type. -/
theorem exportCell_type {c : SymbolTableCell} {inner : Option (List Event)} {doc : List Event}
    (hexported : c.globalScope = true ∨ c.offset > 0) (h : exportCell c inner = some doc) :
    ∃ type, c.type = some type := by
  unfold exportCell at h
  rw [if_pos hexported] at h
  obtain ⟨type, htype, -⟩ := Option.bind_eq_some_iff.mp h
  exact ⟨type, htype⟩

section Cells

variable {list : SymbolTableList} {cell : Option SymbolEntry} {c : SymbolTableCell}
  {globalScope methodMode : Bool} {methodName : Option String} {sum : Int}
  {inner : Option (List Event)} {doc : List Event} {type : TypeDesc}

variable (c type) in
/-- The lines of a scalar up to its last one. -/
def variableLines : List Event :=
  appendLine [.startElement "variable"] ++ appendElement "type" type.base.toString ++
    appendElement "name" c.name

variable (c type) in
/-- The lines of an array or a method up to its size. -/
def sizedLines (qName : String) : List Event :=
  appendLine [.startElement qName] ++ appendElement "type" type.base.toString ++
    appendElement "name" c.name ++ appendElement "size" (toString c.size)

section Export

variable (hexported : c.globalScope = true ∨ c.offset > 0) (htype : c.type = some type)

include hexported htype

theorem exportCell_var (hc : c.classType = .var) : exportCell c inner =
    some (variableLines c type ++ appendLine [.endElement "variable"]) := by
  unfold exportCell
  rw [if_pos hexported, htype, hc]
  rfl

theorem exportCell_array (hc : c.classType = .array) : exportCell c inner =
    some (sizedLines c type "array" ++ appendLine [.endElement "array"]) := by
  unfold exportCell
  rw [if_pos hexported, htype, hc]
  rfl

theorem exportCell_method (hc : c.classType = .method) : exportCell c inner =
    inner.map fun symbols =>
      sizedLines c type "method" ++ symbols ++ appendLine [.endElement "method"] := by
  unfold exportCell
  rw [if_pos hexported, htype, hc]
  cases inner <;> rfl

end Export

/-- A scalar is read up to its last line. -/
theorem variable_run (hw : WritableCell c) (hc : c.classType = .var) (htype : c.type = some type) :
    handleAll (variableLines c type) (atLine list cell globalScope methodName methodMode sum) =
      .ok () (atLine list (some ⟨importedCell globalScope c, .empty⟩) globalScope
        (if methodMode then some c.name else methodName) methodMode sum) := by
  rw [variableLines, handleAll_seq (handleAll_seq start_variable (type_line (plainText_base type)))
    (name_line hw.name), setType_base]
  simp [newEntry, importedCell, hc, htype]

/-- So is an array. -/
theorem array_run (hw : WritableCell c) (hc : c.classType = .array) (htype : c.type = some type) :
    handleAll (sizedLines c type "array")
        (atLine list cell globalScope methodName methodMode sum) =
      .ok () (atLine list (some ⟨importedCell globalScope c, .empty⟩) globalScope
        (if methodMode then some c.name else methodName) methodMode sum) := by
  rw [sizedLines, handleAll_seq (handleAll_seq (handleAll_seq start_array
    (type_line (plainText_base type))) (name_line hw.name)) (size_line hw.size), setType_base]
  simp [newEntry, importedCell, hc, htype]

/-- The head of a method is read up to the symbols below it. -/
theorem method_run (hw : WritableCell c) (hc : c.classType = .method) (htype : c.type = some type) :
    handleAll (sizedLines c type "method")
        (atLine list cell globalScope methodName methodMode sum) =
      .ok () (atLine list (some ⟨importedCell true c, .empty⟩) false (some c.name) true sum) := by
  rw [sizedLines, handleAll_seq (handleAll_seq (handleAll_seq start_method
    (type_line (plainText_base type))) (name_line hw.name)) (size_line hw.size), setType_base]
  simp [newEntry, importedCell, hc, htype]

end Cells

/-! ## the symbols of a method -/

/-- The parameters of a method lie above its frame pointer. -/
def parameters (t : MethodSymbols) : List SymbolTableCell :=
  t.symList.filter fun c => decide (c.offset > 0)

/-- What the cells below a method are like. -/
structure InnerCell (c : SymbolTableCell) : Prop extends WritableCell c where
  inner : c.globalScope = false
  noMethod : c.classType ≠ .method

section Inner

variable {list : SymbolTableList} {pre : List SymbolEntry} {m : SymbolTableCell}
  {symbols : MethodSymbols} {e : SymbolEntry} {cell : Option SymbolEntry} {sum : Int}

/-- A list whose last entry is the method that is being read. -/
def withMethod (list : SymbolTableList) (pre : List SymbolEntry) (m : SymbolTableCell)
    (cells : List SymbolTableCell) : SymbolTableList :=
  { list with symList := pre ++ [⟨m, { symList := cells, offset := 0 }⟩] }

variable {cells : List SymbolTableCell} (hm : m.classType = .method)
  (hfresh : ∀ e ∈ pre, e.cell.name ≠ m.name)

include hm hfresh in
theorem addCell_inner {st : ParseSymbolFile} (hglobal : st.globalScope = false)
    (hname : st.methodName = some m.name) (hlist : st.list = withMethod list pre m cells) :
    addCell e st = .ok () { st with list := withMethod list pre m (cells ++ [e.cell]) } := by
  have hl : (withMethod list pre m cells).symList =
      pre ++ [⟨m, { symList := cells, offset := 0 }⟩] := rfl
  have hget : st.list.getMethodSymbols m.name = some { symList := cells, offset := 0 } := by
    have hfind := @SymbolTableList.findSymbol_last ⟨m, { symList := cells, offset := 0 }⟩ m.name rfl
      hm pre 0 none hfresh
    unfold SymbolTableList.getMethodSymbols
    rw [hlist, hl, hfind]
    simp [hm]
  have hmodify : st.list.modifyMethodSymbols m.name (addInner · e.cell) =
      withMethod list pre m (cells ++ [e.cell]) := by
    rw [hlist, SymbolTableList.modifyMethodSymbols_last hl hm hfresh]
    rfl
  have hinner : ¬ st.globalScope = true := by simp [hglobal]
  have hderef : (deref st.methodName : H String) = pure m.name := by rw [hname, deref_some]
  have hderef' : (deref (st.list.getMethodSymbols m.name) : H MethodSymbols) =
      pure { symList := cells, offset := 0 } := by rw [hget, deref_some]
  unfold addCell
  rw [bind_ok get_run, if_neg hinner, hderef, pure_bind, hderef', pure_bind, modify_run, hmodify]

include hm hfresh in
/-- The end of a scalar or an array below the method. -/
theorem end_cell_inner {qName : String} (hq : qName = "variable" ∨ qName = "array") :
    handleAll (appendLine [.endElement qName])
        (atLine (withMethod list pre m cells) (some e) false (some m.name) false sum) =
      .ok () (atLine (withMethod list pre m (cells ++ [e.cell])) (some e) false (some m.name) false
        sum) := by
  let st : ParseSymbolFile :=
    { atLine (withMethod list pre m cells) (some e) false (some m.name) false sum with
      textBuffer := none }
  let st' : ParseSymbolFile := { st with list := withMethod list pre m (cells ++ [e.cell]) }
  have htag : addTag ("</" ++ qName ++ ">") st = .ok () st' := by
    have hadd : addCell e st = .ok () st' := addCell_inner hm hfresh rfl rfl rfl
    rcases hq with rfl | rfl
    · exact hadd
    · exact hadd
  have hstring : addString ("</" ++ qName ++ ">") st = .ok () st' := by
    unfold addString
    rw [bind_ok htag]
    rcases hq with rfl | rfl <;> rfl
  show ((echoTextBuffer >>= fun _ => addString ("</" ++ qName ++ ">")) >>= fun _ =>
    handleAll [.characters "\n"]) _ = _
  have hecho : echoTextBuffer (atLine (withMethod list pre m cells) (some e) false (some m.name)
      false sum) = .ok () st := rfl
  rw [bind_assoc, bind_ok hecho, bind_ok hstring]
  rfl

variable (list cells cell sum) in
include hm hfresh in
/-- A cell below the method is read, if it is exported. -/
theorem inner_run {c : SymbolTableCell} (hc : InnerCell c) {inner : Option (List Event)}
    {doc : List Event} (h : exportCell c inner = some doc) :
    ∃ cell', handleAll doc
        (atLine (withMethod list pre m cells) cell false (some m.name) false sum) =
      .ok () (atLine (withMethod list pre m
        (cells ++ ([c].filter fun c => decide (c.offset > 0)).map (importedCell false))) cell' false
          (some m.name) false sum) := by
  by_cases hexported : c.globalScope = true ∨ c.offset > 0
  · have hoffset : c.offset > 0 := hexported.resolve_left (by simp [hc.inner])
    obtain ⟨type, htype⟩ := exportCell_type hexported h
    simp only [List.filter_cons, decide_eq_true hoffset, if_true, List.filter_nil, List.map_cons,
      List.map_nil]
    cases hclass : c.classType with
    | method => exact absurd hclass hc.noMethod
    | var =>
      rw [exportCell_var hexported htype hclass] at h
      injection h with h
      subst h
      exact ⟨_, handleAll_seq (variable_run hc.toWritableCell hclass htype)
        (end_cell_inner hm hfresh (.inl rfl))⟩
    | array =>
      rw [exportCell_array hexported htype hclass] at h
      injection h with h
      subst h
      exact ⟨_, handleAll_seq (array_run hc.toWritableCell hclass htype)
        (end_cell_inner hm hfresh (.inr rfl))⟩
  · unfold exportCell at h
    rw [if_neg hexported] at h
    injection h with h
    subst h
    have hoffset : ¬ c.offset > 0 := fun h => hexported (.inr h)
    simp only [List.filter_cons, decide_eq_false hoffset, Bool.false_eq_true, if_false,
      List.filter_nil, List.map_nil, List.append_nil]
    exact ⟨cell, rfl⟩

include hm hfresh in
/-- **The cells below a method are read as its parameters.** -/
theorem parameters_run {inner : Option (List Event)} :
    ∀ (cs : List SymbolTableCell) (cells : List SymbolTableCell) (cell : Option SymbolEntry)
      (docs : List (List Event)), (∀ c ∈ cs, InnerCell c) →
      cs.mapM (fun c => exportCell c inner) = some docs →
      ∃ cell', handleAll docs.flatten
          (atLine (withMethod list pre m cells) cell false (some m.name) false sum) =
        .ok () (atLine (withMethod list pre m
          (cells ++ (cs.filter fun c => decide (c.offset > 0)).map (importedCell false))) cell' false
            (some m.name) false sum)
  | [], cells, cell, docs, _, h => by
    injection h with h
    subst h
    exact ⟨cell, by simp [handleAll]⟩
  | c :: cs, cells, cell, docs, hcs, h => by
    rw [List.mapM_cons] at h
    obtain ⟨doc, hdoc, h⟩ := Option.bind_eq_some_iff.mp h
    obtain ⟨docs', hdocs, h⟩ := Option.bind_eq_some_iff.mp h
    injection h with h
    subst h
    obtain ⟨cell₁, h₁⟩ := inner_run list cell sum cells hm hfresh (hcs c (by simp)) hdoc
    obtain ⟨cell₂, h₂⟩ := parameters_run cs _ cell₁ docs' (fun c hc => hcs c (by simp [hc])) hdocs
    refine ⟨cell₂, ?_⟩
    rw [List.flatten_cons, handleAll_seq h₁ h₂, List.append_assoc, ← List.map_append,
      ← List.filter_append, List.singleton_append]

end Inner

/-! ## the entries of a class -/

/-- What an entry of the class is read as. -/
def importedEntry (e : SymbolEntry) : SymbolEntry :=
  { cell := importedCell true e.cell
    methodSymbols :=
      { symList := if e.cell.classType = .method then
          (parameters e.methodSymbols).map (importedCell false) else []
        offset := 0 } }

/-- What the entries of a class are like. -/
structure OuterEntry (e : SymbolEntry) : Prop extends WritableCell e.cell where
  outer : e.cell.globalScope = true
  inner : ∀ c ∈ e.methodSymbols.symList, InnerCell c

/-- The list of the import, with some entries. -/
def importedList (es : List SymbolEntry) : SymbolTableList :=
  { SymbolTableList.empty with symList := es }

theorem importedCell_name (globalScope : Bool) (c : SymbolTableCell) :
    (importedCell globalScope c).name = c.name := rfl

section Entries

variable {es : List SymbolEntry} {e : SymbolEntry} {cell : Option SymbolEntry} {sum : Int}
  {methodName : Option String} {doc : List Event}

variable (cell sum methodName) in
/-- **An entry is read.** -/
theorem entry_run (he : OuterEntry e) (hfresh : ∀ e' ∈ es, e'.cell.name ≠ e.cell.name)
    (h : exportCell e.cell e.methodSymbols.exportSymbols = some doc) :
    ∃ cell' methodName' sum', handleAll doc
        (atLine (importedList es) cell true methodName false sum) =
      .ok () (atLine (importedList (es ++ [importedEntry e])) cell' true methodName' false
        sum') := by
  obtain ⟨type, htype⟩ := exportCell_type (.inl he.outer) h
  have hscalar : e.cell.classType ≠ .method →
      importedEntry e = ⟨importedCell true e.cell, .empty⟩ := by
    intro hclass
    simp [importedEntry, hclass, MethodSymbols.empty]
  cases hclass : e.cell.classType with
  | var =>
    rw [exportCell_var (.inl he.outer) htype hclass] at h
    injection h with h
    subst h
    rw [hscalar (by simp [hclass])]
    exact ⟨_, _, _, handleAll_seq (variable_run he.toWritableCell hclass htype) end_variable_global⟩
  | array =>
    rw [exportCell_array (.inl he.outer) htype hclass] at h
    injection h with h
    subst h
    rw [hscalar (by simp [hclass])]
    exact ⟨_, _, _, handleAll_seq (array_run he.toWritableCell hclass htype) end_array_global⟩
  | method =>
    rw [exportCell_method (.inl he.outer) htype hclass] at h
    obtain ⟨symbols, hsymbols, rfl⟩ := Option.map_eq_some_iff.mp h
    obtain ⟨docs, hdocs, hsymbols⟩ := Option.bind_eq_some_iff.mp hsymbols
    injection hsymbols with hsymbols
    subst hsymbols
    have hm : (importedCell true e.cell).classType = .method := by simp [importedCell, hclass]
    -- the method is added before its parameters are read
    have hstart : handleAll (sizedLines e.cell type "method" ++ appendLine [.startElement "symbols"])
        (atLine (importedList es) cell true methodName false sum) =
        .ok () (atLine (withMethod (importedList es) es (importedCell true e.cell) [])
          (some (newEntry false false)) false (some e.cell.name) false sum) :=
      handleAll_seq (method_run he.toWritableCell hclass htype) start_symbols
    obtain ⟨cell', hparams⟩ := parameters_run hm hfresh e.methodSymbols.symList [] _ docs he.inner
      hdocs
    refine ⟨cell', some e.cell.name, sum, ?_⟩
    have hall := handleAll_seq (handleAll_seq (handleAll_seq hstart hparams) end_symbols) end_method
    rw [symbolsElement, ← List.append_assoc, ← List.append_assoc, hall]
    simp only [withMethod, importedList, importedEntry, parameters, hclass, if_true,
      List.nil_append, importedCell_name]

/-- **The entries of a class are read.** -/
theorem entries_run : ∀ (rest es : List SymbolEntry) (cell : Option SymbolEntry)
    (methodName : Option String) (sum : Int) (docs : List (List Event)),
    (∀ e ∈ rest, OuterEntry e) → ((es ++ rest).map fun e => e.cell.name).Nodup →
    rest.mapM (fun e => exportCell e.cell e.methodSymbols.exportSymbols) = some docs →
    ∃ cell' methodName' sum', handleAll docs.flatten
        (atLine (importedList (es.map importedEntry)) cell true methodName false sum) =
      .ok () (atLine (importedList ((es ++ rest).map importedEntry)) cell' true methodName' false
        sum')
  | [], es, cell, methodName, sum, docs, _, _, h => by
    injection h with h
    subst h
    exact ⟨cell, methodName, sum, by simp [handleAll]⟩
  | e :: rest, es, cell, methodName, sum, docs, hrest, hnd, h => by
    rw [List.mapM_cons] at h
    obtain ⟨doc, hdoc, h⟩ := Option.bind_eq_some_iff.mp h
    obtain ⟨docs', hdocs, h⟩ := Option.bind_eq_some_iff.mp h
    injection h with h
    subst h
    have hfresh : ∀ e' ∈ es.map importedEntry, e'.cell.name ≠ e.cell.name := by
      rw [List.forall_mem_map]
      intro e' he'
      rw [List.map_append, List.nodup_append] at hnd
      exact hnd.2.2 _ (List.mem_map_of_mem he') _ (List.mem_map_of_mem List.mem_cons_self)
    obtain ⟨cell₁, name₁, sum₁, h₁⟩ :=
      entry_run cell sum methodName (hrest e (by simp)) hfresh hdoc
    have hes : es.map importedEntry ++ [importedEntry e] = (es ++ [e]).map importedEntry := by
      simp
    rw [hes] at h₁
    obtain ⟨cell₂, name₂, sum₂, h₂⟩ := entries_run rest (es ++ [e]) cell₁ name₁ sum₁ docs'
      (fun e he => hrest e (by simp [he])) (by simpa using hnd) hdocs
    refine ⟨cell₂, name₂, sum₂, ?_⟩
    rw [List.flatten_cons, handleAll_seq h₁ h₂]
    simp

end Entries

/-! ## the file -/

/-- The state before the symbols: nothing is read but text. -/
def beforeSymbols : ParseSymbolFile := { new .empty with textBuffer := some "\n" }

/-- The names of the modules are read over. -/
theorem module_line {s : String} (h : PlainText s) :
    handleAll (appendLine [.startElement "module"] ++ appendElement "name" s ++
        appendLine [.endElement "module"]) beforeSymbols = .ok () beforeSymbols := by
  have hname : handleAll (appendElement "name" s) beforeSymbols = .ok () beforeSymbols := by
    show ((echoTextBuffer >>= fun _ => addString "</name>") >>= fun _ =>
      handleAll [.characters "\n"]) (inElement beforeSymbols .nothing s) = _
    rw [bind_assoc, bind_ok (echoTextBuffer_text h rfl rfl)]
    rfl
  have hstart : handleAll (appendLine [.startElement "module"]) beforeSymbols =
      .ok () beforeSymbols := rfl
  exact handleAll_seq (handleAll_seq hstart hname) rfl

theorem modules_run (modules : List String) (h : ∀ m ∈ modules, PlainText m) :
    handleAll (modules.flatMap fun module =>
      appendLine [.startElement "module"] ++ appendElement "name" module ++
        appendLine [.endElement "module"]) beforeSymbols = .ok () beforeSymbols := by
  induction modules with
  | nil => rfl
  | cons m modules ih =>
    rw [List.flatMap_cons]
    exact handleAll_seq (module_line (h m (by simp))) (ih fun m hm => h m (by simp [hm]))

/-- The lines before the first entry. -/
theorem header_run (modules : List String) (h : ∀ m ∈ modules, PlainText m) :
    handleAll (appendLine [.startElement "symbolfile"] ++ appendModuleAnchors modules ++
        appendLine [.startElement "symbols"]) (new .empty) =
      .ok () (atLine (importedList []) none true none false 0) := by
  have hroot : handleAll (appendLine [.startElement "symbolfile"]) (new .empty) =
      .ok () beforeSymbols := rfl
  have hstart : handleAll (appendLine [.startElement "modules"]) beforeSymbols =
      .ok () beforeSymbols := rfl
  have hend : handleAll (appendLine [.endElement "modules"]) beforeSymbols =
      .ok () beforeSymbols := rfl
  have hmodules := handleAll_seq (handleAll_seq hstart (modules_run modules h)) hend
  exact handleAll_seq (handleAll_seq hroot hmodules) rfl

end ParseSymbolFile

open ParseSymbolFile

/-- What `exportSymbols` and `addSym` agree on. -/
structure Shaped (t : SymbolTableList) : Prop where
  entries : ∀ e ∈ t.symList, OuterEntry e
  distinct : (t.symList.map fun e => e.cell.name).Nodup
  modules : ∀ m ∈ t.moduleList, PlainText m

/-- **The table that is read of a file, and the size.** -/
theorem importClass_eq {t : SymbolTableList} (ht : Shaped t) {doc events : List Event}
    (hdoc : writeSymbolfile t = some doc) (hevents : coalesce events = coalesce doc) :
    importClass events = { fields := importedList (t.symList.map importedEntry), size := 0 } := by
  obtain ⟨symbols, hsymbols, hdoc⟩ := Option.bind_eq_some_iff.mp hdoc
  injection hdoc with hdoc
  obtain ⟨docs, hdocs, hsymbols⟩ := Option.bind_eq_some_iff.mp hsymbols
  injection hsymbols with hsymbols
  obtain ⟨cell, name, sum, hentries⟩ := entries_run t.symList [] none none 0 docs ht.entries
    (by simpa using ht.distinct) hdocs
  rw [List.nil_append, List.map_nil] at hentries
  have hend : handleAll (appendLine [.endElement "symbols"] ++ [.endElement "symbolfile"])
      (atLine (importedList (t.symList.map importedEntry)) cell true name false sum) =
      .ok () { atLine (importedList (t.symList.map importedEntry)) cell true name false sum with
        textBuffer := none } := rfl
  have hrun := handleAll_seq (handleAll_seq (header_run t.moduleList ht.modules) hentries) hend
  have hsame : handleAll events = handleAll (appendLine [.startElement "symbolfile"] ++
      appendModuleAnchors t.moduleList ++ appendLine [.startElement "symbols"] ++ docs.flatten ++
        (appendLine [.endElement "symbols"] ++ [.endElement "symbolfile"])) := by
    rw [← handleAll_coalesce, hevents, handleAll_coalesce, ← hdoc, ← hsymbols, symbolsElement]
    simp only [List.append_assoc]
  unfold importClass newOfFile parse
  rw [hsame]
  dsimp only
  rw [hrun]
  rfl

end Compiler
