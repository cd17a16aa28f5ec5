import Bambinos.Linker.Placement

/-!
# `fixAddressing` resolves every call

The runs of the linker, from the loading of one module up to `link`.

* `importedModule_run` — a module is found, or its code is appended and its own calls are fixed
* `fixFixupTable_run` — the loop over a fixup table
* `fixAddressing_run` — one module, by induction on how deep modules may load one another
* `link_resolves_calls` — the whole program

`remaining` counts the files that are not loaded; it bounds the depth of the recursion.
-/

namespace Linker

open Infra Compiler

section Link

variable {files : Files} {mainName : String} {main : Contents} {order : List Placed}
  {b : BinaryFile}

/-! ## the table of modules -/

section Lookup

variable {β : Type} {l : List (String × β)} {k n : String} {v : β}

theorem lookup_put_self : ((k, v) :: l.filter (·.1 != k)).lookup k = some v := by
  simp

theorem lookup_put_ne (h : n ≠ k) :
    ((k, v) :: l.filter (·.1 != k)).lookup n = l.lookup n := by
  rw [List.lookup_cons, beq_false_of_ne h]
  simp only
  induction l with
  | nil => rfl
  | cons x rest ih =>
    obtain ⟨k', v'⟩ := x
    by_cases hk : k' = k
    · subst hk
      rw [List.filter_cons_of_neg (by simp), List.lookup_cons, beq_false_of_ne h]
      exact ih
    · rw [List.filter_cons_of_pos (by simpa using hk), List.lookup_cons, List.lookup_cons, ih]

end Lookup

/-- The code of a module that has just been read goes behind everything else. -/
theorem Loaded.push (h : Loaded files mainName main order b) {n : String} {c : Contents}
    (hnew : order.find? (·.name = n) = none) (hc : moduleContents files mainName main n = some c)
    (hr : Reachable files mainName main n) {b' : BinaryFile}
    (hinstr : b'.instructions = b.instructions ++ c.opCode)
    (hmod : b'.moduleList = (n, Placed.objectFile ⟨n, c, b.instructions.length⟩)
      :: b.moduleList.filter (·.1 != n)) :
    Loaded files mainName main (order ++ [⟨n, c, b.instructions.length⟩]) b' := by
  have hfresh : ∀ p ∈ order, p.name ≠ n := by simpa using hnew
  refine ⟨⟨?_, ?_, ?_, ?_⟩, ?_, ?_⟩
  · rw [List.map_append, List.nodup_append]
    refine ⟨h.once, by simp, ?_⟩
    rintro x hx y hy rfl
    obtain ⟨p, hp, rfl⟩ := List.mem_map.mp hx
    exact hfresh p hp (by simpa using hy)
  · intro p hp
    rcases List.mem_append.mp hp with hp | hp
    · exact h.contents p hp
    · rw [List.mem_singleton.mp hp]
      exact hc
  · intro p hp
    rcases List.mem_append.mp hp with hp | hp
    · exact h.reachable p hp
    · rw [List.mem_singleton.mp hp]
      exact hr
  · obtain ⟨rest, rfl, hcont⟩ := h.placed
    refine ⟨rest ++ [⟨n, c, b.instructions.length⟩], rfl, contiguous_append hcont ?_⟩
    show b.instructions.length = _
    rw [h.length, codes_cons, List.length_append]
    simp only [mainPlaced]
    omega
  · rw [hinstr, List.length_append, h.length, codes_append, List.length_append]
    simp [codes]
    omega
  · intro n' hdot
    rw [hmod, List.find?_append]
    by_cases hn : n' = n
    · subst hn
      rw [lookup_put_self, hnew]
      simp
    · rw [lookup_put_ne hn, h.modules n' hdot]
      have : ¬ n = n' := fun hc => hn hc.symm
      simp [this]

/-- A key with a dot is not the name of a module. -/
theorem Loaded.put (h : Loaded files mainName main order b) (n : String) (o : ObjectFile) :
    Loaded files mainName main order
      { b with moduleList := (n ++ ".obj", o) :: b.moduleList.filter (·.1 != n ++ ".obj") } where
  toArranged := h.toArranged
  length := h.length
  modules := by
    intro n' hdot
    have hne : n' ≠ n ++ ".obj" := by
      rintro rfl
      exact hdot (by simp)
    rw [lookup_put_ne hne, h.modules n' hdot]

/-! ## the files that are left -/

/-- The files of modules that have no place yet. -/
def remaining (files : Files) (order : List Placed) : Nat :=
  (files.filter fun x => !(order.map (·.name ++ ".obj")).contains x.1).length

theorem remaining_append_le (order new : List Placed) :
    remaining files (order ++ new) ≤ remaining files order := by
  unfold remaining
  refine (List.monotone_filter_right files ?_).length_le
  intro x hx
  simp only [List.map_append, List.contains_append, Bool.not_or, Bool.and_eq_true] at hx
  exact hx.1

theorem obj_inj {m n : String} (h : m ++ ".obj" = n ++ ".obj") : m = n := by
  have := congrArg String.toList h
  rw [String.toList_append, String.toList_append] at this
  exact String.toList_injective (List.append_cancel_right this)

/-- Loading a file uses it up. -/
theorem remaining_push_lt {q : Placed} {c : Contents}
    (hc : files.lookup (q.name ++ ".obj") = some c) (hnew : ∀ p ∈ order, p.name ≠ q.name) :
    remaining files (order ++ [q]) < remaining files order := by
  have hmem : (q.name ++ ".obj", c) ∈ files := by
    obtain ⟨l₁, l₂, rfl, -⟩ := List.lookup_eq_some_iff.mp hc
    simp
  have heq : remaining files (order ++ [q]) =
      ((files.filter fun x => !(order.map (·.name ++ ".obj")).contains x.1).filter
        fun x => x.1 != q.name ++ ".obj").length := by
    unfold remaining
    rw [List.filter_filter]
    congr 2
    funext x
    simp [Bool.and_comm]
    rfl
  rw [heq]
  refine List.length_filter_lt_length_iff_exists.mpr ⟨(q.name ++ ".obj", c), ?_, by simp⟩
  refine List.mem_filter.mpr ⟨hmem, ?_⟩
  simp only [Bool.not_eq_true', List.contains_eq_mem, List.mem_map, decide_eq_false_iff_not]
  rintro ⟨p, hp, hname⟩
  exact hnew p hp (obj_inj hname)

/-! ## one module -/

theorem Resolved.append {s : Placed × FixupTableElement} {w : Word} (h : Resolved order s w)
    (new : List Placed) : Resolved (order ++ new) s w := by
  obtain ⟨q, hq, h⟩ := h
  exact ⟨q, List.mem_append_left _ hq, h⟩

/-- The calls of one module that are named by a part of its fixup table. -/
def callsOf (p : Placed) (fs : List FixupTableElement) : Set (Placed × FixupTableElement) :=
  {s | s.1 = p ∧ s.2 ∈ fs}

/-- The words at the calls of a module are still calls. -/
def CallsAt (b : BinaryFile) (p : Placed) (fs : List FixupTableElement) : Prop :=
  ∀ f ∈ fs, ∃ w, b.instructions[callSite (p, f)]? = some w ∧ IsCall w

/-- The effect of linking: modules were appended, and some calls are fixed. -/
structure Extends (files : Files) (mainName : String) (main : Contents)
    (order new : List Placed) (sites : Set (Placed × FixupTableElement)) (b b' : BinaryFile) :
    Prop where
  loaded : Loaded files mainName main (order ++ new) b'
  patched : Patched callSite (Resolved (order ++ new)) sites (b.instructions ++ codes new)
    b'.instructions

/-- `fixAddressing` does its work when fewer than `fuel` files are left. -/
def FixesModule (files : Files) (mainName : String) (main : Contents) (fuel : Nat)
    (fixAddressing : ObjectFile → B ObjectFile) : Prop :=
  ∀ {order : List Placed} {b : BinaryFile} {p : Placed},
    Loaded files mainName main order b → p ∈ order → remaining files order < fuel →
    CallsAt b p p.contents.fixupTable →
    ∃ new b', fixAddressing p.objectFile b = .ok p.objectFile b' ∧
      Extends files mainName main order new (callSites (p :: new)) b b'

theorem callSites_cons (p : Placed) (ps : List Placed) :
    callSites (p :: ps) = callsOf p p.contents.fixupTable ∪ callSites ps := by
  ext ⟨q, f⟩
  simp only [callSites, callsOf, List.mem_cons, Set.mem_ofPred_eq, Set.mem_union]
  constructor
  · rintro ⟨rfl | hq, hf⟩
    · exact Or.inl ⟨rfl, hf⟩
    · exact Or.inr ⟨hq, hf⟩
  · rintro (⟨rfl, hf⟩ | ⟨hq, hf⟩)
    · exact ⟨Or.inl rfl, hf⟩
    · exact ⟨Or.inr hq, hf⟩

/-- A module that was there before is none of the new ones. -/
theorem Loaded.not_mem_new {new : List Placed} {p : Placed}
    (h : Loaded files mainName main (order ++ new) b) (hp : p ∈ order) : p ∉ new := by
  intro hnew
  have := h.once
  rw [List.map_append, List.nodup_append] at this
  exact this.2.2 _ (List.mem_map_of_mem hp) _ (List.mem_map_of_mem hnew) rfl

section Runs

variable {fuel : Nat} {fixA : ObjectFile → B ObjectFile}

/-- The code that has just been appended still has its calls. -/
theorem Loaded.callsAt_push {c : Contents} {n : String} {b' : BinaryFile}
    (h : Loaded files mainName main (order ++ [⟨n, c, b.instructions.length⟩]) b')
    (hl : Linkable files mainName main) (hinstr : b'.instructions = b.instructions ++ c.opCode) :
    CallsAt b' ⟨n, c, b.instructions.length⟩ c.fixupTable := by
  intro f hf
  obtain ⟨i, w, -, hsite, hi, hw, hcall⟩ :=
    h.callSite_eq hl (p := ⟨n, c, b.instructions.length⟩) (by simp) hf
  refine ⟨w, ?_, hcall⟩
  have hsite' : callSite (⟨n, c, b.instructions.length⟩, f) = b.instructions.length + i := hsite
  rw [hsite', hinstr, List.getElem?_append_right (by omega), Nat.add_sub_cancel_left]
  exact hw

/-- The module of a fixup entry is found, or it is loaded and its calls are fixed. -/
theorem importedModule_run (hl : Linkable files mainName main)
    (hA : FixesModule files mainName main fuel fixA)
    (h : Loaded files mainName main order b) {p : Placed} (hp : p ∈ order)
    {f : FixupTableElement} (hf : f ∈ p.contents.fixupTable)
    (hfuel : remaining files order ≤ fuel) :
    ∃ new q b', importedModule files fixA f b = .ok q.objectFile b' ∧ q ∈ order ++ new ∧
      q.name = f.module ∧ Extends files mainName main order new (callSites new) b b' := by
  obtain ⟨hdot, hslash⟩ := (h.wellFormed hl hp).moduleNames f hf
  cases hfind : order.find? (·.name = f.module) with
  | some q =>
    have hq : q ∈ order := List.mem_of_find?_eq_some hfind
    have hname : q.name = f.module := by simpa using List.find?_some hfind
    refine ⟨[], q, b, ?_, by simpa using hq, hname, by simpa using h, ?_⟩
    · simp only [importedModule, bind_run, get_run, h.modules _ hdot, hfind, Option.map_some]
      rfl
    · have hnone : callSites [] = ∅ := by
        ext s
        simp [callSites]
      simpa [hnone, codes] using Patched.refl
  | none =>
    obtain ⟨c, hc, -⟩ := hl.resolved p.name p.contents (h.reachable p hp) (h.contents p hp) f hf
    have hreach : Reachable files mainName main f.module :=
      (h.reachable p hp).tail ⟨p.contents, h.contents p hp, f, hf, rfl⟩
    have hfresh : ∀ q ∈ order, q.name ≠ f.module := by simpa using hfind
    -- the main module has a place, so this one is read from its file
    have hfile : files.lookup (f.module ++ ".obj") = some c := by
      obtain ⟨rest, rfl, -⟩ := h.placed
      have hne : f.module ≠ mainName := fun he => hfresh _ List.mem_cons_self he.symm
      simpa [moduleContents, hne] using hc
    let q : Placed := ⟨f.module, c, b.instructions.length⟩
    let b₁ : BinaryFile :=
      { b with
        instructions := b.instructions ++ c.opCode
        moduleList := (f.module, q.objectFile) :: b.moduleList.filter (·.1 != f.module) }
    have h₁ : Loaded files mainName main (order ++ [q]) b₁ := h.push hfind hc hreach rfl rfl
    have hlt : remaining files (order ++ [q]) < fuel :=
      lt_of_lt_of_le (remaining_push_lt hfile hfresh) hfuel
    obtain ⟨new, b', hrun, hext⟩ :=
      hA h₁ (List.mem_append_right _ List.mem_cons_self) hlt (h₁.callsAt_push hl rfl)
    refine ⟨q :: new, q, b', ?_, by simp, rfl, ?_⟩
    · simp only [importedModule, bind_run, get_run, h.modules _ hdot, hfind, Option.map_none,
        newObjectFile_run (getModuleName_obj hdot hslash) hfile, addCode_run]
      exact hrun
    · constructor
      · simpa using hext.loaded
      · have := hext.patched
        simpa [b₁, codes_cons, q] using this

/-- The call is fixed with the address of the procedure. -/
theorem fixCall_extends (hl : Linkable files mainName main)
    (h : Loaded files mainName main order b) {p q : Placed} (hp : p ∈ order) (hq : q ∈ order)
    {f : FixupTableElement} (hf : f ∈ p.contents.fixupTable) (hname : q.name = f.module)
    (hcalls : CallsAt b p [f]) :
    ∃ b', fixCall p.offset f q.objectFile.offsetTable b = .ok () b' ∧
      b'.moduleList = b.moduleList ∧
      Patched callSite (Resolved order) {(p, f)} b.instructions b'.instructions := by
  obtain ⟨c, hc, e, he, hen⟩ :=
    hl.resolved p.name p.contents (h.reachable p hp) (h.contents p hp) f hf
  have hqc : q.contents = c := by
    have := h.contents q hq
    rw [hname, hc] at this
    exact (Option.some.inj this).symm
  subst hqc
  obtain ⟨i, -, hoff, hsite, -⟩ := h.callSite_eq hl hp hf
  obtain ⟨w, hw, hcall⟩ := hcalls f (by simp)
  have hwf := h.wellFormed hl hq
  have hnodup : (q.objectFile.offsetTable.map (·.name)).Nodup := by
    simpa [Placed.objectFile, Function.comp_def, relocate] using hwf.offsetNames
  have hmem : relocate q.offset e ∈ q.objectFile.offsetTable := List.mem_map_of_mem he
  have hpos : (p.offset : Int) + f.offset - 1 = callSite (p, f) := by
    rw [hsite, hoff]
    omega
  have hword : fixCommand w (relocate q.offset e).offset = callWord q e := by
    have h0 := hwf.offsets e he
    have h1 := (h.bounds hq).1
    rw [fixCommand_eq hcall (by simp only [relocate]; omega)]
    simp only [callWord, relocate, Int.add_comm]
  refine ⟨_, fixCall_run hpos hw hnodup hmem hen, rfl, ?_⟩
  refine Patched.set (s := (p, f)) (List.getElem?_eq_some_iff.mp hw).1 ?_
  exact ⟨q, hq, hname, e, he, hen, hword⟩

/-- **The loop over a fixup table** fixes the calls of its entries and of what it loads. -/
theorem fixFixupTable_run (hl : Linkable files mainName main)
    (hA : FixesModule files mainName main fuel fixA) {p : Placed}
    {fs : List FixupTableElement} (hsub : ∀ f ∈ fs, f ∈ p.contents.fixupTable) (hnd : fs.Nodup) :
    ∀ {order : List Placed} {b : BinaryFile}, Loaded files mainName main order b → p ∈ order →
      remaining files order ≤ fuel → CallsAt b p fs →
      ∃ new b', fixFixupTable files fixA p.offset fs b = .ok () b' ∧
        Extends files mainName main order new (callsOf p fs ∪ callSites new) b b' := by
  induction fs with
  | nil =>
    intro order b h hp hfuel hcalls
    refine ⟨[], b, rfl, by simpa using h, ?_⟩
    have hnone : callsOf p [] ∪ callSites [] = ∅ := by
      ext s
      simp [callsOf, callSites]
    simpa [hnone, codes] using Patched.refl
  | cons f rest ih =>
    intro order b h hp hfuel hcalls
    have hf : f ∈ p.contents.fixupTable := hsub f (by simp)
    obtain ⟨new₁, q, b₁, hrun₁, hq, hname, h₁⟩ := importedModule_run hl hA h hp hf hfuel
    have hp₁ : p ∈ order ++ new₁ := List.mem_append_left _ hp
    -- loading leaves the calls of this module alone
    have hframe₁ : ∀ g ∈ p.contents.fixupTable, ∀ w,
        b.instructions[callSite (p, g)]? = some w →
          b₁.instructions[callSite (p, g)]? = some w := by
      intro g hg w hw
      rw [h₁.patched.frame, List.getElem?_append_left (List.getElem?_eq_some_iff.mp hw).1, hw]
      rintro ⟨r, g'⟩ ⟨hr, hg'⟩ heq
      obtain ⟨hrp, -⟩ :=
        h₁.loaded.callSite_inj hl (List.mem_append_right _ hr) hp₁ hg' hg heq
      exact h₁.loaded.not_mem_new hp (hrp ▸ hr)
    have hcalls₁ : CallsAt b₁ p [f] := by
      intro g hg
      obtain rfl := List.mem_singleton.mp hg
      obtain ⟨w, hw, hcall⟩ := hcalls g (by simp)
      exact ⟨w, hframe₁ g hf w hw, hcall⟩
    obtain ⟨b₂, hrun₂, hmod₂, h₂⟩ := fixCall_extends hl h₁.loaded hp₁ hq hf hname hcalls₁
    let b₃ : BinaryFile :=
      { b₂ with
        moduleList := (f.module ++ ".obj", q.objectFile)
          :: b₂.moduleList.filter (·.1 != f.module ++ ".obj") }
    have h₃ : Loaded files mainName main (order ++ new₁) b₃ :=
      (h₁.loaded.edit h₂.length_eq hmod₂).put _ _
    have hnd' := List.nodup_cons.mp hnd
    have hcalls₃ : CallsAt b₃ p rest := by
      intro g hg
      obtain ⟨w, hw, hcall⟩ := hcalls g (by simp [hg])
      have hg' := hsub g (by simp [hg])
      refine ⟨w, ?_, hcall⟩
      show b₂.instructions[callSite (p, g)]? = some w
      rw [h₂.frame, hframe₁ g hg' w hw]
      rintro s rfl heq
      obtain ⟨-, rfl⟩ := h₁.loaded.callSite_inj hl hp₁ hp₁ hf hg' heq
      exact hnd'.1 hg
    obtain ⟨new₂, b₄, hrun₄, h₄⟩ :=
      ih (fun g hg => hsub g (by simp [hg])) hnd'.2 h₃ hp₁
        ((remaining_append_le order new₁).trans hfuel) hcalls₃
    refine ⟨new₁ ++ new₂, b₄, ?_, ?_, ?_⟩
    · unfold fixFixupTable
      rw [bind_ok hrun₁, bind_ok hrun₂]
      exact hrun₄
    · simpa using h₄.loaded
    · have hsites : callsOf p (f :: rest) ∪ callSites (new₁ ++ new₂) =
          (callSites new₁ ∪ {(p, f)}) ∪ (callsOf p rest ∪ callSites new₂) := by
        ext ⟨r, g⟩
        simp only [callsOf, callSites, List.mem_cons, List.mem_append, Set.mem_union,
          Set.mem_ofPred_eq, Set.mem_singleton_iff, Prod.mk.injEq]
        tauto
      have hboth : Patched callSite (Resolved (order ++ new₁)) (callSites new₁ ∪ {(p, f)})
          (b.instructions ++ codes new₁) b₂.instructions := by
        refine h₁.patched.trans h₂ ?_
        rintro ⟨r, g⟩ ⟨hr, hg⟩ s rfl heq
        obtain ⟨hrp, -⟩ := h₁.loaded.callSite_inj hl hp₁ (List.mem_append_right _ hr) hf hg heq
        exact h₁.loaded.not_mem_new hp (hrp ▸ hr)
      have hmono : Patched callSite (Resolved (order ++ (new₁ ++ new₂)))
          (callSites new₁ ∪ {(p, f)}) (b.instructions ++ codes new₁) b₂.instructions :=
        hboth.mono fun s _ w hw => by simpa using hw.append new₂
      have hrest := h₄.patched
      rw [List.append_assoc] at hrest
      rw [hsites, codes_append, ← List.append_assoc b.instructions]
      refine (hmono.append (codes new₂)).trans hrest ?_
      have hL := h₄.loaded
      have hmem₁ : ∀ r ∈ new₁, r ∈ order ++ new₁ ++ new₂ := fun r hr => by simp [hr]
      have hmem₂ : ∀ r ∈ new₂, r ∈ order ++ new₁ ++ new₂ := fun r hr => by simp [hr]
      rintro ⟨r, g⟩ hs ⟨r', g'⟩ hs' heq
      rcases hs with ⟨hr, hg⟩ | hs <;> rcases hs' with ⟨rfl, hg'⟩ | ⟨hr', hg'⟩
      · obtain ⟨rfl, -⟩ :=
          hL.callSite_inj hl (by simp [hp]) (hmem₁ r hr) (hsub g' (by simp [hg'])) hg heq
        exact h₁.loaded.not_mem_new hp hr
      · obtain ⟨rfl, -⟩ := hL.callSite_inj hl (hmem₂ r' hr') (hmem₁ r hr) hg' hg heq
        exact hL.not_mem_new (List.mem_append_right _ hr) hr'
      · obtain ⟨rfl, rfl⟩ := Prod.mk.inj hs
        obtain ⟨-, rfl⟩ :=
          hL.callSite_inj hl (by simp [hp]) (by simp [hp]) (hsub g' (by simp [hg'])) hf heq
        exact hnd'.1 hg'
      · obtain ⟨rfl, rfl⟩ := Prod.mk.inj hs
        obtain ⟨rfl, -⟩ := hL.callSite_inj hl (hmem₂ r' hr') (by simp [hp]) hg' hf heq
        exact hL.not_mem_new hp₁ hr'

/-- **One module**: its calls and those of what it loads are fixed. -/
theorem fixAddressing_run (hl : Linkable files mainName main) :
    ∀ fuel, FixesModule files mainName main fuel (fixAddressing files fuel) := by
  intro fuel
  induction fuel with
  | zero =>
    intro order b p _ _ hfuel
    omega
  | succ fuel ih =>
    intro order b p h hp hfuel hcalls
    have hnd : p.contents.fixupTable.Nodup := (h.wellFormed hl hp).fixupOffsets.of_map
    obtain ⟨new, b', hrun, hext⟩ :=
      fixFixupTable_run hl ih (fun f hf => hf) hnd h hp (by omega) hcalls
    refine ⟨new, b', ?_, hext.loaded, ?_⟩
    · unfold fixAddressing
      rw [show p.objectFile.offsetInBinaryFile = p.offset from rfl,
        show p.objectFile.fixupTable = p.contents.fixupTable from rfl, bind_ok hrun]
      rfl
    · rw [callSites_cons]
      exact hext.patched

end Runs

/-! ## the whole program -/

/-- The binary after the constructor. -/
def mainFile (mainName : String) (main : Contents) : BinaryFile :=
  { instructions := unfixed main []
    moduleList := [(mainName, (mainPlaced mainName main).objectFile)]
    mainModule := some (mainPlaced mainName main).objectFile }

theorem exitInstruction_eq : exitInstruction = OpCodeElement.word (.mk3 .bsr 0 0 (-1)) := by
  decide

theorem newBinaryFile_run (mainName : String) (main : Contents) :
    newBinaryFile (main.objectFile mainName) b = .ok () (mainFile mainName main) := by
  simp only [newBinaryFile, addExitSymbol, bind_run, set_run, addCode_run, modify_run,
    exitInstruction_eq]
  rfl

theorem mainFile_loaded : Loaded files mainName main [mainPlaced mainName main]
    (mainFile mainName main) where
  once := by simp
  contents := by
    intro p hp
    rw [List.mem_singleton.mp hp]
    simp [moduleContents, mainPlaced]
  reachable := by
    intro p hp
    rw [List.mem_singleton.mp hp]
    exact Relation.ReflTransGen.refl
  placed := ⟨[], rfl, trivial⟩
  length := by simp [mainFile, unfixed, codes, mainPlaced]; omega
  modules := by
    intro n _
    by_cases hn : n = mainName
    · subst hn
      simp [mainFile, mainPlaced]
    · have : ¬ mainName = n := fun h => hn h.symm
      simp [mainFile, mainPlaced, List.lookup_cons, beq_false_of_ne hn, this]

/-- The calls of the main module stand behind the header. -/
theorem mainFile_callsAt (hl : Linkable files mainName main) :
    CallsAt (mainFile mainName main) (mainPlaced mainName main) main.fixupTable := by
  intro f hf
  have h₀ : Loaded files mainName main [mainPlaced mainName main] (mainFile mainName main) :=
    mainFile_loaded
  obtain ⟨i, w, -, hsite, hi, hw, hcall⟩ :=
    h₀.callSite_eq hl (p := mainPlaced mainName main) (by simp) hf
  refine ⟨w, ?_, hcall⟩
  have hsite' : callSite (mainPlaced mainName main, f) = i + 1 := by
    rw [hsite]
    exact Nat.add_comm 1 i
  rw [hsite']
  show (main.opCode ++ _)[i]? = some w
  rw [List.getElem?_append_left (show i < main.opCode.length from hi)]
  exact hw

/-- Once every call is resolved, nothing else can be reached. -/
theorem reachable_mem {sites : Set (Placed × FixupTableElement)}
    (h : Loaded files mainName main order b) (hsites : callSites order ⊆ sites)
    {l l' : List Word} (hp : Patched callSite (Resolved order) sites l l') {n : String}
    (hn : Reachable files mainName main n) : n ∈ order.map (·.name) := by
  induction hn with
  | refl =>
    obtain ⟨rest, rfl, -⟩ := h.placed
    simp [mainPlaced]
  | tail _ himp ih =>
    obtain ⟨p, hp', rfl⟩ := List.mem_map.mp ih
    obtain ⟨c, hc, f, hf, rfl⟩ := himp
    rw [h.contents p hp'] at hc
    obtain rfl := Option.some.inj hc
    obtain ⟨w, -, q, hq, hname, -⟩ := hp.hit (p, f) (hsites ⟨hp', hf⟩)
    exact List.mem_map.mpr ⟨q, hq, hname⟩

/-- Linking ends with a binary that is `Linked`. -/
theorem link_linked {files : Files} {filename mainName : String} {main : Contents}
    {b₀ : BinaryFile} {fuel : Nat} (hname : getModuleName filename b₀ = .ok mainName b₀)
    (hmain : files.lookup filename = some main) (hl : Linkable files mainName main)
    (hfuel : files.length < fuel) :
    ∃ m b rest, link files fuel filename b₀ = .ok m b ∧
      Linked files mainName main rest b.instructions := by
  have h₀ : Loaded files mainName main [mainPlaced mainName main] (mainFile mainName main) :=
    mainFile_loaded
  have hleft : remaining files [mainPlaced mainName main] < fuel :=
    lt_of_le_of_lt (List.length_filter_le _ _) hfuel
  obtain ⟨new, b, hrun, hext⟩ :=
    fixAddressing_run hl fuel h₀ (by simp) hleft (mainFile_callsAt hl)
  refine ⟨(mainPlaced mainName main).objectFile, b, new, ?_, ?_⟩
  · unfold link
    rw [bind_ok (newObjectFile_run hname hmain), bind_ok (newBinaryFile_run mainName main)]
    exact hrun
  · have hL := hext.loaded
    have hP := hext.patched
    refine ⟨hL.once, ?_, hL.contents, ?_, ?_⟩
    · intro n
      refine ⟨?_, reachable_mem hL (fun s hs => hs) hP⟩
      intro hn
      obtain ⟨p, hp, rfl⟩ := List.mem_map.mp hn
      exact hL.reachable p hp
    · obtain ⟨rest, hrest, hcont⟩ := hL.placed
      obtain rfl : new = rest := (List.cons.inj hrest).2
      exact hcont
    · simpa [mainFile, unfixed, codes] using hP

/-- What can be linked is seen file by file. -/
theorem linkable_of_files {files : Files} {mainName : String} {main : Contents}
    (h : ∀ c ∈ main :: files.map Prod.snd, WellFormed c ∧ NamesExisting files mainName main c) :
    Linkable files mainName main := by
  have hmem : ∀ n c, moduleContents files mainName main n = some c →
      c ∈ main :: files.map Prod.snd := by
    intro n c hc
    unfold moduleContents at hc
    split at hc
    · exact Option.some.inj hc ▸ List.mem_cons_self
    · obtain ⟨l₁, l₂, rfl, -⟩ := List.lookup_eq_some_iff.mp hc
      simp
  exact ⟨fun n c _ hc => (h c (hmem n c hc)).1, fun n c _ hc => (h c (hmem n c hc)).2⟩

end Link

/--
**Calls are resolved across any import graph.** Linking ends; every module that can be reached
from the main module stands once in the binary, one after the other, the main module at index 1 and
followed by `BSR -1`; every call has the address of the procedure it names, and every other word is
what the object file says.
-/
theorem link_resolves_calls {files : Files} {filename mainName : String} {main : Contents}
    {b₀ : BinaryFile} {fuel : Nat} (hname : getModuleName filename b₀ = .ok mainName b₀)
    (hmain : files.lookup filename = some main) (hl : Linkable files mainName main)
    (hfuel : files.length < fuel) :
    ∃ m b rest, link files fuel filename b₀ = .ok m b ∧
      (∀ n, n ∈ (mainPlaced mainName main :: rest).map (·.name) ↔
        Reachable files mainName main n) ∧
      ((mainPlaced mainName main :: rest).map (·.name)).Nodup ∧
      (∀ p ∈ mainPlaced mainName main :: rest,
        moduleContents files mainName main p.name = some p.contents) ∧
      Contiguous (1 + main.opCode.length + 1) rest ∧
      (∀ p ∈ mainPlaced mainName main :: rest, ∀ f ∈ p.contents.fixupTable,
        ∃ q ∈ mainPlaced mainName main :: rest, q.name = f.module ∧
          ∃ e ∈ q.contents.offsetTable, e.name = f.name ∧
            b.instructions[(p.offset + f.offset - 1).toNat]? =
              some (OpCodeElement.word (.mk3 .bsr 0 0 (q.offset + e.offset - 1)))) ∧
      b.instructions.length = (unfixed main rest).length ∧
      ∀ i, (∀ p ∈ mainPlaced mainName main :: rest, ∀ f ∈ p.contents.fixupTable,
          (p.offset + f.offset - 1).toNat ≠ i) →
        b.instructions[i]? = (unfixed main rest)[i]? := by
  obtain ⟨m, b, rest, hrun, h⟩ := link_linked hname hmain hl hfuel
  refine ⟨m, b, rest, hrun, h.reachable, h.once, h.contents, h.contiguous, ?_,
    h.fixed.length_eq, ?_⟩
  · intro p hp f hf
    obtain ⟨w, hw, q, hq, hqn, e, he, hen, rfl⟩ := h.fixed.hit (p, f) ⟨hp, hf⟩
    exact ⟨q, hq, hqn, e, he, hen, hw⟩
  · intro i hi
    exact h.fixed.frame i fun s hs => hi s.1 hs.1 s.2 hs.2

/-! ## an import cycle -/

/-- `main` calls `Util.f`. -/
def mainObj : Contents :=
  { offsetTable := [⟨"main", 3⟩]
    fixupTable := [⟨"Util", "f", 7⟩]
    opCode := [.mk3 .addi 30 0 4096, .mk3 .bsr 0 0 3, .mk3 .psh 31 30 1, .mk3 .psh 29 30 1,
      .mk3 .add 29 0 30, .mk3 .subi 30 30 0, .mk3 .bsr 0 0 (-55), .mk3 .add 30 0 29,
      .mk3 .pop 29 30 1, .mk3 .pop 31 30 1].map OpCodeElement.word }

/-- `f` calls `Main.main` inside of `if (1 == 2)`. -/
def utilObj : Contents :=
  { offsetTable := [⟨"f", 3⟩]
    fixupTable := [⟨"Main", "main", 11⟩]
    opCode := [.mk3 .addi 30 0 4096, .mk3 .bsr 0 0 (-5), .mk3 .psh 31 30 1, .mk3 .psh 29 30 1,
      .mk3 .add 29 0 30, .mk3 .subi 30 30 0, .mk3 .addi 1 0 1, .mk3 .addi 2 0 2, .mk3 .cmp 1 1 2,
      .mk2 .bne 1 12, .mk3 .bsr 0 0 (-55), .mk3 .add 30 0 29, .mk3 .pop 29 30 1,
      .mk3 .pop 31 30 1, .mk3 .ret 0 0 31].map OpCodeElement.word }

def cycle : Files := [("Main.obj", mainObj), ("Util.obj", utilObj)]

theorem mainObj_wellFormed : WellFormed mainObj := by
  refine ⟨by decide, by decide, by decide, by decide, ?_⟩
  intro f hf
  obtain rfl := List.mem_singleton.mp hf
  exact ⟨6, _, rfl, rfl, by decide⟩

theorem utilObj_wellFormed : WellFormed utilObj := by
  refine ⟨by decide, by decide, by decide, by decide, ?_⟩
  intro f hf
  obtain rfl := List.mem_singleton.mp hf
  exact ⟨10, _, rfl, rfl, by decide⟩

theorem cycle_linkable : Linkable cycle "Main" mainObj := by
  have hmain : NamesExisting cycle "Main" mainObj mainObj := by
    intro f hf
    obtain rfl := List.mem_singleton.mp hf
    exact ⟨utilObj, rfl, ⟨"f", 3⟩, by decide, rfl⟩
  have hutil : NamesExisting cycle "Main" mainObj utilObj := by
    intro f hf
    obtain rfl := List.mem_singleton.mp hf
    exact ⟨mainObj, rfl, ⟨"main", 3⟩, by decide, rfl⟩
  refine linkable_of_files ?_
  intro c hc
  simp only [cycle, List.map_cons, List.map_nil, List.mem_cons, List.not_mem_nil, or_false] at hc
  rcases hc with rfl | rfl | rfl
  · exact ⟨mainObj_wellFormed, hmain⟩
  · exact ⟨mainObj_wellFormed, hmain⟩
  · exact ⟨utilObj_wellFormed, hutil⟩

theorem link_resolves_calls_cycle :
    ∃ m b rest, link cycle 3 "Main.obj" .empty = .ok m b ∧
      (∀ n, n ∈ (mainPlaced "Main" mainObj :: rest).map (·.name) ↔
        Reachable cycle "Main" mainObj n) := by
  obtain ⟨m, b, rest, hrun, hreach, -⟩ :=
    @link_resolves_calls cycle "Main.obj" "Main" mainObj .empty 3 rfl rfl cycle_linkable
      (by decide)
  exact ⟨m, b, rest, hrun, hreach⟩

end Linker
