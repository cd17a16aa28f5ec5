import Bambinos.Linker.Resolution
import Bambinos.Vm.ReturnAddress

/-!
# The jumps inside of a module are not relocated

Only calls stand in a fixup table. A branch and the `BSR` of a `return` keep the address that the
compiler gave them, which counts from the first instruction of their own module.

* `localJumps` — the branches of a module and the `BSR`s of its `return` statements
* `PreservesFlow` — in the linked binary they go to the image of their target, and a run between
  calls visits the images of the addresses it visits in the module alone
* `runs_of_relocated` — the second part follows from the first one, in any binary
* `link_preserves_flow_iff` — a module whose code lies at index 1 is fine, and so is one without
  such jumps; no other is
-/

namespace Linker

open Infra Compiler Vm

/-! ## runs -/

/--
A run that executes the instructions at the given addresses and is at an instruction then. `saved`
and `saved₂` are the cells of the memory that hold return addresses before and behind it; nothing
but `POP` looks at them.
-/
inductive Passes (instructions : Instructions Word) :
    Set Nat → State Word → List Nat → Set Nat → State Word → Prop
  | nil {saved : Set Nat} {a : Nat} {w : Word} {s : State Word} (h : At instructions a w s) :
      Passes instructions saved s [] saved s
  | cons {saved saved₂ : Set Nat} {a : Nat} {w : Word} {s s₁ s₂ : State Word} {as : List Nat}
      (h : At instructions a w s) (hdiscreet : Discreet (decode w) s saved)
      (hstep : step decode instructions w s = .ok () s₁)
      (hrest : Passes instructions (saves (decode w) s saved) s₁ as saved₂ s₂) :
      Passes instructions saved s (a :: as) saved₂ s₂

/-! ## the property -/

/-- The target of a branch or a `BSR`. -/
def jumpTarget (w : Word) : Option Int :=
  let f := decode w
  if isBranch f.opCode then some f.secondSourceValue
  else if f.opCode = 50 then some f.targetValue
  else none

/-- The instructions of a module that is executed alone. -/
def Placed.alone (p : Placed) : Instructions Word := load p.contents.opCode

/-- The instructions of a binary; its header is no instruction. -/
def linkedCode (instructions : List Word) : Instructions Word := load instructions.tail

/-- Where an address of a module is in the binary. -/
def Placed.image (p : Placed) (a : Nat) : Nat := p.offset + a - 1

/-- The address is in no fixup table. -/
def NoCall (p : Placed) (a : Nat) : Prop := ∀ f ∈ p.contents.fixupTable, f.offset ≠ a

/-- The branches of a module and the `BSR`s at the addresses `returns`. -/
def localJumps (p : Placed) (returns : Set Nat) : Set Nat :=
  {a | NoCall p a ∧ ∃ w, p.alone[a]? = some (some w) ∧
    (isBranch (decode w).opCode ∨ (decode w).opCode = 50 ∧ a ∈ returns)}

/-- The instructions inside of a method: no calls, no `RET`, and not the jump to `main`. -/
def innerAddresses (p : Placed) (returns : Set Nat) : Set Nat :=
  {a | NoCall p a ∧ ∀ w, p.alone[a]? = some (some w) →
    (decode w).opCode ≠ 51 ∧ ((decode w).opCode = 50 → a ∈ returns)}

/-- The same state up to return addresses, at an address of the module alone and at its image. -/
structure SameState (p : Placed) (code : Instructions Word) (saved : Set Nat)
    (s s' : State Word) : Prop where
  position : ∃ a w w', At p.alone a w s ∧ At code (p.image a) w' s'
  alike : Alike saved s s'

/-- Linking preserves the control flow inside of the methods of a module. -/
structure PreservesFlow (p : Placed) (returns : Set Nat) (code : Instructions Word) : Prop where
  targets : ∀ a ∈ localJumps p returns, ∀ w t, p.alone[a]? = some (some w) →
    jumpTarget w = some t → ∃ w', code[p.image a]? = some (some w') ∧
      jumpTarget w' = some (p.offset + t - 1)
  runs : ∀ {saved saved₂ : Set Nat} {s s₂ : State Word} {as : List Nat},
    Passes p.alone saved s as saved₂ s₂ → (∀ a ∈ as, a ∈ innerAddresses p returns) →
      ∀ s', SameState p code saved s s' →
        ∃ s₂', Passes code saved s' (as.map p.image) saved₂ s₂' ∧ SameState p code saved₂ s₂ s₂'

/-! ## the words of a module in the binary -/

theorem codes_getElem? {p : Placed} {i : Nat} (hi : i < p.contents.opCode.length) :
    ∀ {ps : List Placed} {k : Nat}, Contiguous k ps → p ∈ ps →
      (codes ps)[p.offset - k + i]? = p.contents.opCode[i]?
  | q :: ps, k, h, hp => by
    have hq := h.1
    rw [codes_cons]
    rcases List.mem_cons.mp hp with rfl | hp'
    · rw [List.getElem?_append_left (by omega)]
      congr 1
      omega
    · have hb := contiguous_bounds h.2 hp'
      rw [List.getElem?_append_right (by omega), ← codes_getElem? hi h.2 hp']
      congr 1
      omega

section Linked

variable {files : Files} {mainName : String} {main : Contents} {rest : List Placed}
  {instructions : List Word} {p : Placed} {returns : Set Nat}

theorem Linked.arranged (h : Linked files mainName main rest instructions) :
    Arranged files mainName main (mainPlaced mainName main :: rest) where
  once := h.once
  contents := h.contents
  reachable := fun p hp => (h.reachable p.name).mp (List.mem_map_of_mem hp)
  placed := ⟨rest, rfl, h.contiguous⟩

theorem unfixed_getElem? (h : Linked files mainName main rest instructions)
    (hp : p ∈ mainPlaced mainName main :: rest) {i : Nat} (hi : i < p.contents.opCode.length) :
    (unfixed main rest)[p.offset + i]? = p.contents.opCode[i]? := by
  unfold unfixed
  rcases List.mem_cons.mp hp with rfl | hp'
  · have hi' : i < main.opCode.length := hi
    rw [show (mainPlaced mainName main).offset + i = i + 1 from Nat.add_comm 1 i,
      List.getElem?_cons_succ, List.getElem?_append_left hi']
    rfl
  · have hb := contiguous_bounds h.contiguous hp'
    rw [show p.offset + i = (p.offset + i - 1) + 1 by omega, List.getElem?_cons_succ,
      List.getElem?_append_right (by omega),
      show p.offset + i - 1 - main.opCode.length
        = (p.offset - (1 + main.opCode.length + 1) + i) + 1 by omega,
      List.getElem?_cons_succ]
    exact codes_getElem? hi h.contiguous hp'

/-- What is no call is what the object file says. -/
theorem linkedCode_image (h : Linked files mainName main rest instructions)
    (hl : Linkable files mainName main) (hp : p ∈ mainPlaced mainName main :: rest) {a : Nat}
    {w : Word} (hw : p.alone[a]? = some (some w)) :
    ∃ w', (linkedCode instructions)[p.image a]? = some (some w') ∧
      p.image a + 1 < (linkedCode instructions).length ∧ (NoCall p a → w' = w) := by
  obtain ⟨i, rfl, hi⟩ := load_getElem? hw
  have hlt := (List.getElem?_eq_some_iff.mp hi).1
  have hA := h.arranged
  have hb := hA.bounds hp
  have hlen : instructions.length = 2 + (codes (mainPlaced mainName main :: rest)).length := by
    rw [h.fixed.length_eq]
    simp [unfixed, codes, mainPlaced]
    omega
  obtain ⟨w', hw'⟩ : ∃ w', instructions[p.offset + i]? = some w' :=
    ⟨_, List.getElem?_eq_getElem (by omega)⟩
  have himage : p.image (i + 1) = (p.offset + i - 1) + 1 := by
    unfold Placed.image
    omega
  refine ⟨w', ?_, ?_, ?_⟩
  · rw [himage]
    refine load_getElem?_succ ?_
    rw [List.getElem?_tail, ← hw']
    congr 1
    omega
  · unfold linkedCode
    rw [himage, load_length, List.length_tail]
    omega
  · intro hno
    have hframe := h.fixed.frame (p.offset + i) ?_
    · rw [hw', unfixed_getElem? h hp hlt, hi] at hframe
      exact Option.some.inj hframe
    · rintro ⟨q, f⟩ ⟨hq, hf⟩ heq
      have hq : q ∈ mainPlaced mainName main :: rest := hq
      have hf : f ∈ q.contents.fixupTable := hf
      obtain ⟨j, _, hoff, hsite, hj, -⟩ := hA.callSite_eq hl hq hf
      have hqp : q = p := by
        by_contra hne
        rcases hA.separate hq hp hne with hs | hs <;> omega
      subst hqp
      refine hno f hf ?_
      rw [hoff]
      omega

end Linked

/-! ## a run and its image -/

section Relocated

variable {p : Placed} {returns : Set Nat} {code : Instructions Word}

/-- A jump that was moved with its module. -/
def movedFields (offset : Nat) (f : Fields) : Fields :=
  if isBranch f.opCode then { f with secondSourceValue := offset + f.secondSourceValue - 1 }
  else if f.opCode = 50 then { f with targetValue := offset + f.targetValue - 1 }
  else f

/-- Every instruction of a module has an image. But for the calls it is the instruction itself, or
the local jump to the image of its target. -/
structure Relocated (p : Placed) (returns : Set Nat) (code : Instructions Word) : Prop where
  stands : ∀ {a w}, p.alone[a]? = some (some w) → Stands code (p.image a)
  stays : ∀ {a w w'}, p.alone[a]? = some (some w) → code[p.image a]? = some (some w') →
    NoCall p a → a ∉ localJumps p returns → decode w' = decode w
  moved : ∀ {a w w'}, p.alone[a]? = some (some w) → code[p.image a]? = some (some w') →
    a ∈ localJumps p returns → decode w' = movedFields p.offset (decode w)

theorem Passes.at {saved saved₂ : Set Nat} {s s₂ : State Word} {as : List Nat}
    (h : Passes code saved s as saved₂ s₂) : ∃ a w, At code a w s := by
  cases h with
  | nil h => exact ⟨_, _, h⟩
  | cons h _ _ _ => exact ⟨_, _, h⟩

/-- The main module stays where it is. -/
theorem Placed.image_main (h : p.offset = 1) (a : Nat) : p.image a = a := by
  unfold Placed.image
  omega

/-- The image of the address behind an instruction is behind its image. -/
theorem Placed.image_succ {a : Nat} (ha : 0 < a) : p.image (a + 1) = p.image a + 1 := by
  unfold Placed.image
  omega

theorem alone_pos {a : Nat} {w : Word} (h : p.alone[a]? = some (some w)) : 0 < a := by
  obtain ⟨i, rfl, -⟩ := load_getElem? h
  exact Nat.succ_pos i

theorem image_cast {a : Nat} (ha : 0 < a) : (p.image a : Int) = p.offset + a - 1 := by
  unfold Placed.image
  omega

theorem jumpTarget_eq {w w' : Word} {t : Int} (ht : jumpTarget w = some t)
    (hd : decode w' = movedFields p.offset (decode w)) :
    jumpTarget w' = some (p.offset + t - 1) := by
  unfold jumpTarget movedFields at *
  by_cases hb : isBranch (decode w).opCode
  · simp only [hb, if_true] at ht hd
    simp only [hd, hb, if_true]
    rw [← Option.some.inj ht]
  · by_cases hop : (decode w).opCode = 50
    · simp only [hop, if_true] at ht hd
      have hb' : ¬ isBranch 50 := by decide
      simp only [hd, hb', if_true, if_false]
      rw [← Option.some.inj ht]
    · simp only [hb, hop, if_false, reduceCtorEq] at ht

/-- A local jump, and the jump to the image of its target. -/
theorem moved_image {a a₁ : Nat} {f : Fields} {saved : Set Nat} {s s' s₁ : State Word}
    (hjump : isBranch f.opCode ∨ f.opCode = 50) (hdiscreet : Discreet f s saved)
    (halike : Alike saved s s') (ha : 0 < a) (ha₁ : 0 < a₁) (hpos : s.pc = some ((a : Int) + 1))
    (hpos' : s'.pc = some ((p.image a : Int) + 1)) (hrun : dispatch f s = .ok () s₁)
    (hpc : s₁.pc = some (a₁ : Int)) :
    ∃ s₁', dispatch (movedFields p.offset f) s' = .ok () s₁' ∧ s₁'.pc = some (p.image a₁ : Int) ∧
      Alike saved s₁ s₁' := by
  have hsome : s₁.pc ≠ none := by
    rw [hpc]
    nofun
  -- the relocated field is the image of the target, for whatever the instruction goes to
  have htarget : ∀ t : Int, s₁.pc = some t → p.offset + t - 1 = (p.image a₁ : Int) := by
    intro t ht
    rw [hpc] at ht
    rw [← Option.some.inj ht, image_cast ha₁]
  rcases hjump with hb | hop
  · -- a branch goes on or jumps, and its test does not read the link register
    obtain ⟨taken, hbranch⟩ := @dispatch_branch Word f hb
    have hr0 : f.targetValue ≠ 31 := by
      intro hlink
      rcases hdiscreet.target hlink with hcode | hcode | hcode
      · rw [hcode] at hb
        exact absurd hb (by decide)
      · rw [hcode] at hb
        exact absurd hb (by decide)
      · rw [hcode] at hb
        exact absurd hb (by decide)
    obtain ⟨s₁', hrun', halike', hpcs⟩ := @branch_alike Word saved s s' s₁ f.targetValue taken
      f.secondSourceValue (p.offset + f.secondSourceValue - 1) halike hr0
      (fun ht hexit => absurd ((htarget _ ht).symm.trans hexit) (by omega))
      ((hbranch f.secondSourceValue) ▸ hrun) hsome
    refine ⟨s₁', ?_, ?_, halike'⟩
    · rw [movedFields, if_pos hb, hbranch]
      exact hrun'
    · -- if it goes on, the next word is the next in the image too
      rcases hpcs with ⟨hstay, hstay'⟩ | ⟨hgo, hgo'⟩
      · rw [hpc, hpos] at hstay
        have hnext : a₁ = a + 1 := by have := Option.some.inj hstay; omega
        rw [hstay', hpos', hnext, Placed.image_succ ha]
        rfl
      · rw [hgo', htarget _ hgo]
  · -- a call also writes the link register, where the two states may differ
    have hb : ¬ isBranch f.opCode := by
      rw [hop]
      decide
    have hbsr : ∀ t : Int, (dispatch { f with targetValue := t } : M Word Unit) = executeBSR t := by
      intro t
      obtain ⟨opCode, r0, r1, r2⟩ := f
      dsimp only at hop
      subst hop
      rfl
    obtain ⟨hgo, s₁', hrun', hgo', halike'⟩ := @executeBSR_alike Word saved s s' s₁ f.targetValue
      (p.offset + f.targetValue - 1) halike
      (fun ht hexit => absurd ((htarget _ ht).symm.trans hexit) (by omega))
      ((hbsr f.targetValue) ▸ hrun) hsome
    refine ⟨s₁', ?_, by rw [hgo', htarget _ hgo], halike'⟩
    rw [movedFields, if_neg hb, if_pos hop, hbsr]
    exact hrun'

/-- An inner instruction does the same at its image. -/
theorem dispatch_image (hmoved : Relocated p returns code) {a a₁ : Nat} {w w' : Word}
    {saved : Set Nat} {s s' s₁ : State Word} (hinner : a ∈ innerAddresses p returns)
    (hat : At p.alone a w s) (hat' : At code (p.image a) w' s') (halike : Alike saved s s')
    (hdiscreet : Discreet (decode w) s saved) (hrun : dispatch (decode w) s = .ok () s₁)
    (ha₁ : 0 < a₁) (hpc : s₁.pc = some (a₁ : Int)) :
    Discreet (decode w') s' saved ∧ saves (decode w') s' saved = saves (decode w) s saved ∧
      ∃ s₁', dispatch (decode w') s' = .ok () s₁' ∧ s₁'.pc = some (p.image a₁ : Int) ∧
        Alike (saves (decode w) s saved) s₁ s₁' := by
  obtain ⟨hno, hin⟩ := hinner
  obtain ⟨hret, hbsr⟩ := hin w hat.word
  have ha := alone_pos hat.word
  by_cases hlocal : a ∈ localJumps p returns
  · -- the jump goes somewhere else now
    have hjump : isBranch (decode w).opCode ∨ (decode w).opCode = 50 := by
      obtain ⟨-, w₁, hw₁, hj⟩ := hlocal
      obtain rfl : w₁ = w := by
        rw [hat.word] at hw₁
        exact (Option.some.inj (Option.some.inj hw₁)).symm
      exact hj.imp_right And.left
    rw [hmoved.moved hat.word hat'.word hlocal]
    generalize decode w = f at *
    have hcodes : f.opCode ≠ 13 ∧ f.opCode ≠ 15 ∧ f.opCode ≠ 16 ∧ f.opCode ≠ 18 := by
      unfold isBranch at hjump
      omega
    obtain ⟨hldw, hpop, hstw, hpsh⟩ := hcodes
    have hopCode : (movedFields p.offset f).opCode = f.opCode := by
      unfold movedFields
      split
      · rfl
      · split
        · rfl
        · rfl
    have hsaves : ∀ t : State Word, saves (movedFields p.offset f) t saved = saved := fun t =>
      saves_eq (by rwa [hopCode]) (by rwa [hopCode])
    obtain ⟨s₁', hrun', hpc', halike'⟩ :=
      moved_image hjump hdiscreet halike ha ha₁ hat.pc hat'.pc hrun hpc
    rw [hsaves, saves_eq hstw hpsh]
    refine ⟨?_, rfl, s₁', hrun', hpc', halike'⟩
    rcases hjump with hb | hop
    · have hfields : movedFields p.offset f =
          { f with secondSourceValue := p.offset + f.secondSourceValue - 1 } := if_pos hb
      rw [hfields]
      refine ⟨hdiscreet.base, fun hhigh => ?_, hdiscreet.target, ?_⟩
      · obtain ⟨-, hle⟩ := hb
        have : highestFormat1 < f.opCode := hhigh
        unfold highestFormat1 at this
        omega
      · rw [looksAt_eq (by exact hldw) (by exact hpop)]
        exact fun i hi => absurd hi (Set.notMem_empty i)
    · have hb : ¬ isBranch f.opCode := by
        rw [hop]
        decide
      have hfields : movedFields p.offset f =
          { f with targetValue := p.offset + f.targetValue - 1 } := by
        rw [movedFields, if_neg hb, if_pos hop]
      rw [hfields]
      refine ⟨hdiscreet.base, hdiscreet.operand, fun _ => Or.inr (Or.inr hop), ?_⟩
      rw [looksAt_eq (by exact hldw) (by exact hpop)]
      exact fun i hi => absurd hi (Set.notMem_empty i)
  · -- the same instruction, which does not jump
    have hstay : ¬ Jumps (decode w).opCode := by
      rintro (hb | hb | hb)
      · exact hlocal ⟨hno, w, hat.word, Or.inl hb⟩
      · exact hlocal ⟨hno, w, hat.word, Or.inr ⟨hb, hbsr hb⟩⟩
      · exact hret hb
    rw [hmoved.stays hat.word hat'.word hno hlocal]
    obtain ⟨s₁', hrun', halike'⟩ := dispatch_alike halike hdiscreet hstay hrun
    refine ⟨hdiscreet.alike halike, saves_alike hdiscreet halike, s₁', hrun', ?_, halike'⟩
    have hnext : (a₁ : Int) = a + 1 := by
      rw [dispatch_pc hstay hrun, hat.pc] at hpc
      exact (Option.some.inj hpc).symm
    rw [dispatch_pc hstay hrun', hat'.pc, show a₁ = a + 1 by omega, Placed.image_succ ha]
    rfl

/-- One step of a run. -/
theorem step_image (hmoved : Relocated p returns code) {a a₁ : Nat} {w w₁ : Word}
    {saved : Set Nat} {s s' s₁ : State Word} (hinner : a ∈ innerAddresses p returns)
    (hat : At p.alone a w s) (hsame : SameState p code saved s s')
    (hdiscreet : Discreet (decode w) s saved) (hrun : step decode p.alone w s = .ok () s₁)
    (hat₁ : At p.alone a₁ w₁ s₁) :
    ∃ w', At code (p.image a) w' s' ∧ Discreet (decode w') s' saved ∧
      saves (decode w') s' saved = saves (decode w) s saved ∧
      ∃ s₁', step decode code w' s' = .ok () s₁' ∧
        SameState p code (saves (decode w) s saved) s₁ s₁' := by
  obtain ⟨b, wb, w', hb, hat'⟩ := hsame.position
  obtain ⟨rfl, rfl⟩ := hb.unique hat
  obtain ⟨⟨⟩, s_d, hd, hf⟩ := bind_eq_ok hrun
  obtain ⟨hpc, hr, hm, ho⟩ := fetch_at hf hat₁
  obtain ⟨hdiscreet', hsaves, s_d', hd', hpc', halike⟩ := dispatch_image hmoved hinner hat hat'
    hsame.alike hdiscreet hd (alone_pos hat₁.word) hpc
  obtain ⟨⟨w₁', hw₁'⟩, hlt₁⟩ := hmoved.stands hat₁.word
  obtain ⟨s₁', hf', hat₁', hr₁, hm₁, ho₁⟩ := fetch_run hpc' hw₁' hlt₁
  refine ⟨w', hat', hdiscreet', hsaves, s₁', ?_, ⟨a₁, w₁, w₁', hat₁, hat₁'⟩, ?_, ?_, ?_⟩
  · unfold step
    rw [bind_ok hd']
    exact hf'
  · rw [hr, hr₁]
    exact halike.registers
  · rw [hm, hm₁]
    exact halike.memory
  · rw [ho, ho₁]
    exact halike.output

/-- **A run of inner instructions.** Where the jumps go to the images of their targets, it visits
the images of its addresses. -/
theorem runs_of_relocated (hmoved : Relocated p returns code) {saved saved₂ : Set Nat}
    {s s₂ : State Word} {as : List Nat} (hv : Passes p.alone saved s as saved₂ s₂)
    (hinner : ∀ a ∈ as, a ∈ innerAddresses p returns) :
    ∀ s', SameState p code saved s s' →
      ∃ s₂', Passes code saved s' (as.map p.image) saved₂ s₂' ∧
        SameState p code saved₂ s₂ s₂' := by
  induction hv with
  | nil hat =>
    intro s' hsame
    obtain ⟨a, w, w', -, hat'⟩ := hsame.position
    exact ⟨s', Passes.nil hat', hsame⟩
  | cons hat hdiscreet hstep hrest ih =>
    intro s' hsame
    obtain ⟨a₁, w₁, hat₁⟩ := hrest.at
    obtain ⟨w', hat', hdiscreet', hsaves, s₁', hstep', hsame₁⟩ :=
      step_image hmoved (hinner _ (by simp)) hat hsame hdiscreet hstep hat₁
    obtain ⟨s₂', hpasses, hsame₂⟩ := ih (fun b hb => hinner b (by simp [hb])) s₁' hsame₁
    rw [← hsaves] at hpasses
    exact ⟨s₂', Passes.cons hat' hdiscreet' hstep' hpasses, hsame₂⟩

/-- **Relocated code.** It keeps the control flow of the module. -/
theorem preservesFlow_of_relocated (hmoved : Relocated p returns code) :
    PreservesFlow p returns code where
  targets a ha w t hw ht := by
    obtain ⟨⟨w', hw'⟩, -⟩ := hmoved.stands hw
    exact ⟨w', hw', jumpTarget_eq ht (hmoved.moved hw hw' ha)⟩
  runs hv hinner s' hsame := runs_of_relocated hmoved hv hinner s' hsame

end Relocated

/-! ## which modules keep their control flow -/

section Linked

variable {files : Files} {mainName : String} {main : Contents} {rest : List Placed}
  {instructions : List Word} {p : Placed} {returns : Set Nat}

theorem jumpTarget_of_localJump {a : Nat} {w : Word} (ha : a ∈ localJumps p returns)
    (hw : p.alone[a]? = some (some w)) : ∃ t, jumpTarget w = some t := by
  obtain ⟨-, w', hw', hj⟩ := ha
  obtain rfl : w' = w := by
    rw [hw] at hw'
    exact (Option.some.inj (Option.some.inj hw')).symm
  unfold jumpTarget
  by_cases hb : isBranch (decode w').opCode
  · exact ⟨_, if_pos hb⟩
  · rcases hj with hj | ⟨hj, -⟩
    · exact absurd hj hb
    · exact ⟨(decode w').targetValue, by rw [if_neg hb, if_pos hj]⟩

theorem offset_eq_one_iff (h : Linked files mainName main rest instructions)
    (hp : p ∈ mainPlaced mainName main :: rest) : p.offset = 1 ↔ p.name = mainName := by
  rcases List.mem_cons.mp hp with rfl | hp'
  · simp [mainPlaced]
  · have hb := contiguous_bounds h.contiguous hp'
    refine iff_of_false (by omega) ?_
    intro hname
    have := h.once
    rw [List.map_cons, List.nodup_cons] at this
    exact this.1 (List.mem_map.mpr ⟨p, hp', hname⟩)

/-- The linker changes the calls only. -/
theorem Linked.relocated (h : Linked files mainName main rest instructions)
    (hl : Linkable files mainName main) (hp : p ∈ mainPlaced mainName main :: rest)
    (hcond : p.offset = 1 ∨ localJumps p returns = ∅) :
    Relocated p returns (linkedCode instructions) where
  stands hw := by
    obtain ⟨w', hw', hlt, -⟩ := linkedCode_image h hl hp hw
    exact ⟨⟨w', hw'⟩, hlt⟩
  stays hw hw' hno _ := by
    obtain ⟨w'', hw'', -, heq⟩ := linkedCode_image h hl hp hw
    rw [hw''] at hw'
    rw [← Option.some.inj (Option.some.inj hw'), heq hno]
  moved hw hw' ha := by
    rcases hcond with hone | hnone
    · obtain ⟨w'', hw'', -, heq⟩ := linkedCode_image h hl hp hw
      rw [hw''] at hw'
      rw [← Option.some.inj (Option.some.inj hw'), heq ha.1, hone]
      unfold movedFields
      simp
    · rw [hnone] at ha
      exact ha.elim

theorem Linked.preservesFlow_iff (h : Linked files mainName main rest instructions)
    (hl : Linkable files mainName main) (hp : p ∈ mainPlaced mainName main :: rest) :
    PreservesFlow p returns (linkedCode instructions) ↔
      p.name = mainName ∨ localJumps p returns = ∅ := by
  rw [← offset_eq_one_iff h hp]
  constructor
  · intro hflow
    by_contra hcond
    rw [not_or] at hcond
    obtain ⟨a, ha⟩ := Set.nonempty_iff_ne_empty.mpr hcond.2
    obtain ⟨hno, w, hw, -⟩ := id ha
    obtain ⟨t, ht⟩ := jumpTarget_of_localJump ha hw
    obtain ⟨w', hw', ht'⟩ := hflow.targets a ha w t hw ht
    obtain ⟨w'', hw'', -, heq⟩ := linkedCode_image h hl hp hw
    rw [hw''] at hw'
    obtain rfl : w'' = w' := Option.some.inj (Option.some.inj hw')
    rw [heq hno, ht] at ht'
    have := Option.some.inj ht'
    exact hcond.1 (by omega)
  · exact fun hcond => preservesFlow_of_relocated (h.relocated hl hp hcond)

end Linked

/--
**Only the main module keeps its jumps.** In every linked binary a module keeps its control flow
exactly when it is the main module or has no jump of its own besides its calls. `returns` are the
addresses of the `BSR`s that belong to `return` statements.
-/
theorem link_preserves_flow_iff {files : Files} {filename mainName : String} {main : Contents}
    {b₀ : BinaryFile} {fuel : Nat} (hname : getModuleName filename b₀ = .ok mainName b₀)
    (hmain : files.lookup filename = some main) (hl : Linkable files mainName main)
    (hfuel : files.length < fuel) :
    ∃ m b rest, link files fuel filename b₀ = .ok m b ∧
      Linked files mainName main rest b.instructions ∧
      ∀ p ∈ mainPlaced mainName main :: rest, ∀ returns : Set Nat,
        (PreservesFlow p returns (linkedCode b.instructions) ↔
          p.name = mainName ∨ localJumps p returns = ∅) := by
  obtain ⟨m, b, rest, hrun, h⟩ := link_linked hname hmain hl hfuel
  exact ⟨m, b, rest, hrun, h, fun p hp returns => h.preservesFlow_iff hl hp⟩

theorem link_preserves_flow_iff_cycle :
    ∃ m b rest, link cycle 3 "Main.obj" .empty = .ok m b ∧
      Linked cycle "Main" mainObj rest b.instructions ∧
      ∀ p ∈ mainPlaced "Main" mainObj :: rest, ∀ returns : Set Nat,
        (PreservesFlow p returns (linkedCode b.instructions) ↔
          p.name = "Main" ∨ localJumps p returns = ∅) :=
  link_preserves_flow_iff rfl rfl cycle_linkable (by decide)

/--
The branch of `f` is at address 10 of its module and goes to 12. In the binary it still goes to 12,
which is in the middle of the code of `main`.
-/
theorem util_loses_flow :
    ∃ m b rest, link cycle 3 "Main.obj" .empty = .ok m b ∧
      ∃ p ∈ mainPlaced "Main" mainObj :: rest, p.name = "Util" ∧
        ¬ PreservesFlow p ∅ (linkedCode b.instructions) := by
  have hname : getModuleName "Main.obj" BinaryFile.empty = .ok "Main" BinaryFile.empty :=
    getModuleName_obj (n := "Main") (by decide) (by decide)
  obtain ⟨m, b, rest, hrun, h⟩ :=
    @link_linked cycle "Main.obj" "Main" mainObj .empty 3 hname rfl cycle_linkable (by decide)
  have hreach : Reachable cycle "Main" mainObj "Util" :=
    Relation.ReflTransGen.single ⟨mainObj, rfl, ⟨"Util", "f", 7⟩, by decide, rfl⟩
  obtain ⟨p, hp, hpn⟩ := List.mem_map.mp ((h.reachable "Util").mpr hreach)
  have hpc : p.contents = utilObj := by
    have := h.contents p hp
    rw [hpn] at this
    exact (Option.some.inj this).symm
  refine ⟨m, b, rest, hrun, p, hp, hpn, ?_⟩
  rw [h.preservesFlow_iff cycle_linkable hp, hpn]
  rintro (hmain | hnone)
  · exact absurd hmain (by decide)
  · have hjump : 10 ∈ localJumps p ∅ := by
      refine ⟨?_, OpCodeElement.word (.mk2 .bne 1 12), ?_, Or.inl (by decide)⟩
      · intro f hf
        rw [hpc] at hf
        obtain rfl := List.mem_singleton.mp hf
        decide
      · rw [Placed.alone, hpc]
        rfl
    rw [hnone] at hjump
    exact hjump

end Linker
