import Bambinos.GeekOS.Image
import Mathlib

/-!
# The table of the segments

* `Buffer.loadable` — the headers with memory, in the order of the file
* `Extracts` — `Parse_ELF_Executable` puts them, and nothing else, into `segmentList`
* `unfilled` — what may be on the stack: segments without memory
* `extracts_iff` — it does so if the headers without memory come last
* `skipped_header` — a header in front of which one is skipped is not found
-/

namespace GeekOS

/-- The segments with memory, in the order of the file. -/
def Buffer.loadable (b : Buffer) : List ExeSegment :=
  ((List.range b.phnum).map b.segment).filter fun seg => seg.sizeInMemory ≠ 0

/-- What the loops of `Load_User_Program` find in the format is what is loadable, whatever the
format was before. -/
def Extracts (b : Buffer) : Prop :=
  ∀ fmt log, ∃ fmt' log', parseElfExecutable b fmt log = some ((0, fmt'), log') ∧
    fmt'.numSegments = b.loadable.length ∧ fmt'.list = b.loadable

/-- No place is filled. -/
def unfilled : ExeFormat := ⟨fun _ => ⟨0, 0, 0, 0, 0⟩, 0, 0⟩

variable {b : Buffer} {fmt : ExeFormat}

theorem loadable_eq :
    b.loadable = ((List.range b.phnum).filter fun i => b.Present i).map b.segment := by
  rw [Buffer.loadable, List.filter_map]
  rfl

theorem numSegments_eq : b.numSegments = b.loadable.length := by
  rw [loadable_eq, List.length_map, Buffer.numSegments, List.countP_eq_length_filter]

theorem list_getElem? {k : Nat} (hk : k < fmt.numSegments) :
    fmt.list[k]? = some (fmt.segmentList k) := by
  rw [ExeFormat.list, List.getElem?_map, List.getElem?_range' hk, Option.map_some, Nat.one_mul,
    Nat.zero_add]

/-- Every place up to `numSegments` is filled. -/
theorem present_of_list (h : (b.parsed unfilled).list = b.loadable) :
    ∀ k < b.numSegments, b.Present k := by
  intro k hk
  have hget : (b.parsed unfilled).list[k]? = some ((b.parsed unfilled).segmentList k) :=
    list_getElem? hk
  rw [h] at hget
  have hsize : ((b.parsed unfilled).segmentList k).sizeInMemory ≠ 0 := by
    have hmem := List.mem_of_getElem? hget
    exact of_decide_eq_true (List.mem_filter.mp hmem).2
  by_contra hno
  rw [parsed_segment, if_neg fun hp => hno hp.2] at hsize
  exact hsize rfl

/-- The headers without memory come last. -/
theorem order_of_list (h : (b.parsed unfilled).list = b.loadable) :
    ∀ i j, i < j → j < b.phnum → b.Present j → b.Present i := by
  intro i j hij hj hp
  have hall := present_of_list h
  have hlt : j < b.numSegments := lt_countP hall hj hp
  exact hall i (by omega)

theorem Extracts.list_eq (h : Extracts b) (hmagic : ELF_MAGIC_NUMBER = b.magic)
    (hphnum : b.phnum ≤ EXE_MAX_SEGMENTS) : (b.parsed unfilled).list = b.loadable := by
  obtain ⟨fmt', log', hrun, -, hlist⟩ := h unfilled .empty
  rw [parseElfExecutable_eq, if_pos ⟨hmagic, hphnum⟩] at hrun
  cases hrun
  exact hlist

/--
**The table.** `Parse_ELF_Executable` extracts the loadable segments, whatever is on the stack,
exactly if no header with memory is behind one without.
-/
theorem extracts_iff (b : Buffer) (hmagic : ELF_MAGIC_NUMBER = b.magic)
    (hphnum : b.phnum ≤ EXE_MAX_SEGMENTS) :
    Extracts b ↔ ∀ i j, i < j → j < b.phnum → b.Present j → b.Present i := by
  constructor
  · intro h
    exact order_of_list (h.list_eq hmagic hphnum)
  · intro horder fmt log
    rw [parseElfExecutable_eq, if_pos ⟨hmagic, hphnum⟩]
    exact ⟨_, _, rfl, numSegments_eq, by rw [parsed_list horder, loadable_eq]⟩

/-- Two program headers, of which the second one has no memory. -/
def codeFirst : ExeFile where
  bytes :=
    [127, 69, 76, 70, 1, 1, 1, 0, 0, 0, 0, 0, 0, 0, 0, 0, 2, 0, 3, 0, 1, 0, 0, 0,
      0, 16, 0, 0, 52, 0, 0, 0, 0, 0, 0, 0, 0, 0, 0, 0, 52, 0, 32, 0, 2, 0, 0, 0, 0, 0, 0, 0,
      1, 0, 0, 0, 0, 0, 0, 0, 0, 16, 0, 0, 0, 16, 0, 0, 4, 0, 0, 0, 8, 0, 0, 0, 5, 0, 0, 0,
      0, 16, 0, 0,
      81, 229, 116, 100, 0, 0, 0, 0, 0, 0, 0, 0, 0, 0, 0, 0, 0, 0, 0, 0, 0, 0, 0, 0, 7, 0, 0, 0,
      4, 0, 0, 0]
  length_lt := by decide

theorem extracts_iff_codeFirst : codeFirst.buffer.loadable = [⟨0, 4, 4096, 8, 5⟩] ∧
    Extracts codeFirst.buffer := by
  refine ⟨by decide +kernel, (extracts_iff codeFirst.buffer (by decide +kernel)
    (by decide +kernel)).mpr fun i j hij hj _ => ?_⟩
  -- the first header is in front of the other one
  have hphnum : codeFirst.buffer.phnum = 2 := by
    decide +kernel
  obtain rfl : i = 0 := by omega
  decide +kernel

/-- Two program headers, of which the first one has no memory. -/
def gap : ExeFile where
  bytes :=
    [127, 69, 76, 70, 1, 1, 1, 0, 0, 0, 0, 0, 0, 0, 0, 0, 2, 0, 3, 0, 1, 0, 0, 0,
      0, 16, 0, 0, 52, 0, 0, 0, 0, 0, 0, 0, 0, 0, 0, 0, 52, 0, 32, 0, 2, 0, 0, 0, 0, 0, 0, 0,
      81, 229, 116, 100, 0, 0, 0, 0, 0, 0, 0, 0, 0, 0, 0, 0, 0, 0, 0, 0, 0, 0, 0, 0, 7, 0, 0, 0,
      4, 0, 0, 0,
      1, 0, 0, 0, 0, 0, 0, 0, 0, 16, 0, 0, 0, 16, 0, 0, 4, 0, 0, 0, 8, 0, 0, 0, 5, 0, 0, 0,
      0, 16, 0, 0]
  length_lt := by decide

/-- One segment is counted, and it is not where the loader looks for it. -/
theorem skipped_header : gap.buffer.loadable = [⟨0, 4, 4096, 8, 5⟩] ∧
    (gap.buffer.parsed unfilled).numSegments = 1 ∧
    (gap.buffer.parsed unfilled).list = [⟨0, 0, 0, 0, 0⟩] ∧ ¬ Extracts gap.buffer := by
  have hloadable : gap.buffer.loadable = [⟨0, 4, 4096, 8, 5⟩] := by decide +kernel
  have hlist : (gap.buffer.parsed unfilled).list = [⟨0, 0, 0, 0, 0⟩] := by decide +kernel
  refine ⟨hloadable, by decide +kernel, hlist, fun h => ?_⟩
  have heq := h.list_eq (by decide +kernel) (by decide +kernel)
  rw [hlist, hloadable] at heq
  exact absurd heq (by decide)

end GeekOS
