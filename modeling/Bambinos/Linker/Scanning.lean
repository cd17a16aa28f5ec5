import Bambinos.Linker.RoundTrip

/-!
# Which files can be scanned

The loop over the characters of a name is only left at a `=`, and `readNextByte` goes on at the end of
the file for ever.

* `TableEnds` — a table that can be read: whole rows up to the stated length, or a row whose offset
  is missing at the end of the file
* `readUntil_timeout` — a name without a `=` is never read to its end
* `readRows_ends`, `TableEnds.readRows` — the loop of a table ends exactly at such tables
* `scanFile_iff` — `scanFile` returns exactly when both tables are such
-/

namespace Linker

open Infra RandomAccessFile

/-! ## the tables -/

/-- The byte of `=`. -/
def delimiter : Byte := byteOf '='

/-- How many bytes are thrown away behind a name of that length. -/
def filling (length : Nat) : Nat :=
  let bytesToRead := (length + 1) % 4
  if bytesToRead > 0 then 4 - bytesToRead else 0

/-- The words of a name of that length. -/
def nameWords (length : Nat) : Nat := (length + 1 + filling length) / 4

/-- The string that is made of the bytes of a name. -/
def nameOf (name : List Byte) : String := String.ofList (name.map fun b => charOfByte b.toInt)

/--
The reading of a table of `n` words comes to an end, and what is ahead then. `isRow` says which names
the table can have.
-/
inductive TableEnds (isRow : String → Bool) : Int → List Byte → List Byte → Prop
  | done {n : Int} {t : List Byte} (h : n ≤ 0) : TableEnds isRow n t t
  | bad {n : Int} {name t : List Byte} (h : 0 < n) (hname : delimiter ∉ name)
      (hrow : isRow (nameOf name) = false) :
      TableEnds isRow n (name ++ delimiter :: t) (t.drop (filling name.length))
  | row {n : Int} {name fill offset t t' : List Byte} (h : 0 < n) (hname : delimiter ∉ name)
      (hrow : isRow (nameOf name) = true) (hfill : fill.length = filling name.length)
      (hoffset : offset.length = 4)
      (hrest : TableEnds isRow (n - (nameWords name.length + 1)) t t') :
      TableEnds isRow n (name ++ delimiter :: (fill ++ (offset ++ t))) t'
  | cut {n : Int} {name fill : List Byte} (h : 0 < n) (hname : delimiter ∉ name)
      (hrow : isRow (nameOf name) = true) (hfill : fill.length = filling name.length)
      (hlast : n ≤ nameWords name.length) : TableEnds isRow n (name ++ delimiter :: fill) []

/-! ## names -/

section Read

variable {f : RandomAccessFile} {name t : List Byte} {value : List Char} {fuel n : Nat}

theorem toInt_delimiter {b : Byte} : b.toInt = ('='.toNat : Int) ↔ b = delimiter := by
  constructor
  · intro h
    refine BitVec.eq_of_toInt_eq (h.trans ?_)
    decide
  · rintro rfl
    decide

theorem readNextByte_end (h : f.rest = []) : readNextByte f = .ok (-2) f := by
  unfold readNextByte readByte
  rw [@bind_ok _ _ _ _ _ f f none]
  · rfl
  · rw [bind_ok get_run, h]
    rfl

theorem rest_skip_drop (n : Nat) : (f.skip n).rest = f.rest.drop n := by
  unfold rest
  rw [contents_skip, filePointer_skip, List.drop_drop]

/-- Without a `=` ahead, the loop has no end, however long it runs. -/
theorem readUntil_timeout : ∀ {fuel n : Nat} {value : List Char} {f : RandomAccessFile},
    delimiter ∉ f.rest → ∃ f', readUntil '=' fuel value n f = .error .timeout f'
  | 0, n, value, f, _ => ⟨f, rfl⟩
  | fuel + 1, n, value, f, h => by
    cases hrest : f.rest with
    | nil =>
      have hne : ¬ (-2 : Int) = '='.toNat := by decide
      rw [readUntil, bind_ok (readNextByte_end hrest), if_neg hne]
      exact readUntil_timeout h
    | cons b t =>
      rw [hrest] at h
      obtain ⟨hb, ht⟩ := not_or.mp (mt List.mem_cons.mpr h)
      have hne : ¬ b.toInt = ('='.toNat : Int) := fun heq => hb (toInt_delimiter.mp heq).symm
      rw [readUntil, bind_ok (readNextByte_run hrest), if_neg hne]
      refine readUntil_timeout ?_
      rw [rest_skip_drop, hrest]
      exact ht

/-- The bytes of a name are read up to the first `=`. -/
theorem readUntil_bytes (name : List Byte) (h : delimiter ∉ name) :
    ∀ {fuel n : Nat} {value : List Char} {f : RandomAccessFile}, name.length < fuel →
      f.rest = name ++ delimiter :: t → readUntil '=' fuel value n f =
        .ok (value ++ name.map (fun b => charOfByte b.toInt), n + name.length)
          (f.skip (name.length + 1)) := by
  induction name with
  | nil =>
    intro fuel n value f hfuel hrest
    obtain ⟨fuel, rfl⟩ := Nat.exists_eq_succ_of_ne_zero (Nat.ne_of_gt (Nat.zero_lt_of_lt hfuel))
    rw [readUntil, bind_ok (readNextByte_run hrest), if_pos (toInt_delimiter.mpr rfl)]
    simp
  | cons b name ih =>
    intro fuel n value f hfuel hrest
    obtain ⟨fuel, rfl⟩ := Nat.exists_eq_succ_of_ne_zero (Nat.ne_of_gt (Nat.zero_lt_of_lt hfuel))
    obtain ⟨hb, hname⟩ := not_or.mp (mt List.mem_cons.mpr h)
    have hne : ¬ b.toInt = ('='.toNat : Int) := fun heq => hb (toInt_delimiter.mp heq).symm
    have hskip : (f.skip 1).rest = name ++ delimiter :: t := rest_skip [b] hrest
    rw [readUntil, bind_ok (readNextByte_run hrest), if_neg hne]
    show readUntil '=' fuel (value ++ [charOfByte b.toInt]) (n + 1) (f.skip 1) = _
    rw [ih hname (Nat.lt_of_succ_lt_succ hfuel) hskip, skip_skip, List.append_assoc]
    simp only [List.map_cons, List.singleton_append, List.length_cons]
    rw [Nat.add_assoc n 1, Nat.add_comm 1 name.length, Nat.add_comm 1]

/-- Bytes are dropped as long as there are any. -/
theorem dropBytes_min : ∀ {n : Nat} {f : RandomAccessFile},
    dropBytes n f = .ok () (f.skip (min n f.rest.length))
  | 0, f => by simp [dropBytes]
  | n + 1, f => by
    cases hrest : f.rest with
    | nil =>
      rw [dropBytes, bind_ok (readNextByte_end hrest), dropBytes_min, hrest]
      simp
    | cons b t =>
      rw [dropBytes, bind_ok (readNextByte_run hrest), dropBytes_min, rest_skip_drop, hrest,
        skip_skip, List.drop_one, List.tail_cons, List.length_cons]
      congr 2
      omega

/-- A word, or what is left of the file. -/
theorem readNextWord_min : ∃ w, readNextWord f = .ok w (f.skip (min 4 f.rest.length)) ∧
    (w = none ↔ f.rest.length < 4) := by
  unfold readNextWord readInt
  rcases hrest : f.rest with _ | ⟨a, _ | ⟨b, _ | ⟨c, _ | ⟨d, t⟩⟩⟩⟩
  case cons.cons.cons.cons =>
    refine ⟨some (intOfBytes a b c d).toInt, ?_, ?_⟩
    · rw [bind_run, bind_ok get_run, hrest]
      have hmin : min 4 (a :: b :: c :: d :: t).length = 4 := by simp
      rw [hmin]
      rfl
    · simp
  all_goals
    refine ⟨none, ?_, by simp⟩
    rw [bind_run, bind_ok get_run, hrest]
    rfl

theorem readStringFromFile_bytes (h : delimiter ∉ name) (hrest : f.rest = name ++ delimiter :: t) :
    readStringFromFile '=' f =
      .ok (nameOf name) (f.skip (name.length + 1 + min (filling name.length) t.length)) := by
  have hlength := f.length_rest_le
  rw [hrest, List.length_append, List.length_cons] at hlength
  have hskip : (f.skip (name.length + 1)).rest = t := by
    have hrest' : f.rest = (name ++ [delimiter]) ++ t := by
      rw [hrest, List.append_assoc, List.singleton_append]
    have hsk := rest_skip (name ++ [delimiter]) hrest'
    rwa [List.length_append, List.length_singleton] at hsk
  unfold readStringFromFile
  rw [bind_ok get_run, bind_ok (readUntil_bytes name h (by omega) hrest)]
  dsimp only
  rw [Nat.zero_add, bind_ok dropBytes_min, hskip, pure_run, skip_skip]
  rfl

theorem readStringFromFile_timeout (h : delimiter ∉ f.rest) :
    ∃ f', readStringFromFile '=' f = .error .timeout f' := by
  obtain ⟨f', hf⟩ := @readUntil_timeout f.contents.length 0 [] _ h
  refine ⟨f', ?_⟩
  unfold readStringFromFile
  rw [bind_ok get_run, bind_error hf]

end Read

/-! ## tables -/

section Rows

variable {α : Type} {entry : String → Option (Option Int → α)} {f f' : RandomAccessFile}
  {name t : List Byte} {tableEnd : Int} {fuel p : Nat} {r : Option (List α)}

/-- The names that the loop takes. -/
def isRow {α : Type} (entry : String → Option (Option Int → α)) (name : String) : Bool :=
  (entry name).isSome

theorem filling_words (k : Nat) : k + 1 + filling k = 4 * nameWords k ∧ filling k < 4 := by
  unfold nameWords filling
  dsimp only
  split <;> omega

/-- What is ahead behind a name and `k` bytes more. -/
theorem rest_skip_name (hrest : f.rest = name ++ delimiter :: t) (k : Nat) :
    (f.skip (name.length + 1 + k)).rest = t.drop k := by
  have hlength : name.length + 1 = (name ++ [delimiter]).length := by
    rw [List.length_append, List.length_singleton]
  rw [rest_skip_drop, hrest, ← List.drop_drop, ← List.singleton_append, ← List.append_assoc, hlength,
    List.drop_left]

/-- Before the end of the table and at the end of the file, the loop has no end. -/
theorem readRows_timeout (hlt : getCurrentFileOffset f < tableEnd) (h : delimiter ∉ f.rest)
    (fuel : Nat) : ∃ f', readRows entry tableEnd fuel f = .error .timeout f' := by
  cases fuel with
  | zero => exact ⟨f, rfl⟩
  | succ fuel =>
    obtain ⟨f', hread⟩ := readStringFromFile_timeout h
    exact ⟨f', by rw [readRows, bind_ok get_run, if_pos hlt, bind_error hread]⟩

/-- A name that makes no entry. -/
theorem readRows_bad (hlt : getCurrentFileOffset f < tableEnd) (hname : delimiter ∉ name)
    (hrest : f.rest = name ++ delimiter :: t) (hentry : entry (nameOf name) = none) (fuel : Nat) :
    readRows entry tableEnd (fuel + 1) f =
      .ok none (f.skip (name.length + 1 + min (filling name.length) t.length)) := by
  rw [readRows, bind_ok get_run, if_pos hlt, bind_ok (readStringFromFile_bytes hname hrest), hentry]
  rfl

/-- A turn of the loop; the end of the file may come first. -/
theorem readRows_turn {make : Option Int → α} (hlt : getCurrentFileOffset f < tableEnd)
    (hname : delimiter ∉ name) (hrest : f.rest = name ++ delimiter :: t)
    (hentry : entry (nameOf name) = some make) (fuel : Nat) :
    ∃ w, readRows entry tableEnd (fuel + 1) f =
      (do return (← readRows entry tableEnd fuel).map (make w :: ·))
        (f.skip (name.length + 1 + min (filling name.length + 4) t.length)) := by
  have hread := readStringFromFile_bytes hname hrest
  set f₁ := f.skip (name.length + 1 + min (filling name.length) t.length) with hf₁
  have hrest₁ : f₁.rest = t.drop (min (filling name.length) t.length) := rest_skip_name hrest _
  have hsize : name.length + 1 + min (filling name.length) t.length +
      min 4 (t.length - min (filling name.length) t.length) =
        name.length + 1 + min (filling name.length + 4) t.length := by
    omega
  obtain ⟨w, hword, -⟩ := readNextWord_min (f := f₁)
  refine ⟨w, ?_⟩
  rw [readRows, bind_ok get_run, if_pos hlt, bind_ok hread, hentry]
  dsimp only
  rw [bind_ok hword, hrest₁, List.length_drop, hf₁, skip_skip, hsize]

/-- What the loop leaves behind. -/
theorem readRows_ends : ∀ {fuel p : Nat} {f f' : RandomAccessFile} {r : Option (List α)},
    f.filePointer = 4 * p → readRows entry tableEnd fuel f = .ok r f' →
      TableEnds (isRow entry) (tableEnd - p) f.rest f'.rest ∧
        ((∀ name, isRow entry name = true) → 4 ∣ f'.filePointer)
  | 0, p, f, f', r, _, h => by cases h
  | fuel + 1, p, f, f', r, hp, h => by
    by_cases hlt : (p : Int) < tableEnd
    · have hoffset : getCurrentFileOffset f < tableEnd := by
        rwa [getCurrentFileOffset_eq hp]
      have hdelim : delimiter ∈ f.rest := by
        by_contra hdelim
        obtain ⟨f₁, htimeout⟩ := @readRows_timeout _ entry _ _ hoffset hdelim (fuel + 1)
        cases htimeout.symm.trans h
      obtain ⟨name, t, hrest, hname⟩ := List.eq_append_cons_of_mem hdelim
      have hwords := filling_words name.length
      cases hentry : entry (nameOf name) with
      | none =>
        have hrow : isRow entry (nameOf name) = false := by
          unfold isRow
          rw [hentry]
          rfl
        cases (readRows_bad hoffset hname hrest hentry fuel).symm.trans h
        refine ⟨?_, fun hall => ?_⟩
        · rw [rest_skip_name hrest, hrest, ← List.drop_eq_drop_min]
          exact .bad (by omega) hname hrow
        · rw [hall] at hrow
          cases hrow
      | some make =>
        have hrow : isRow entry (nameOf name) = true := by
          unfold isRow
          rw [hentry]
          rfl
        obtain ⟨w, hturn⟩ := readRows_turn hoffset hname hrest hentry fuel
        rw [hturn] at h
        obtain ⟨l, f₁, hloop, hend⟩ := bind_eq_ok h
        cases hend
        rcases Nat.lt_or_ge t.length (filling name.length + 4) with hshort | hlong
        · rw [Nat.min_eq_right (Nat.le_of_lt hshort)] at hloop
          have hrest₁ : (f.skip (name.length + 1 + t.length)).rest = [] := by
            rw [rest_skip_name hrest, List.drop_length]
          -- the file ends in this row, so the loop has to end here
          have hend : ¬ getCurrentFileOffset (f.skip (name.length + 1 + t.length)) < tableEnd := by
            intro hlt'
            have hnot : delimiter ∉ (f.skip (name.length + 1 + t.length)).rest := by
              rw [hrest₁]
              exact List.not_mem_nil
            obtain ⟨f₂, htimeout⟩ := @readRows_timeout _ entry _ _ hlt' hnot fuel
            cases htimeout.symm.trans hloop
          have hfill : t.length = filling name.length := by
            by_contra hne
            refine hend ?_
            unfold getCurrentFileOffset
            rw [filePointer_skip, hp, if_neg (by omega)]
            omega
          have hpos : (f.skip (name.length + 1 + t.length)).filePointer =
              4 * (p + nameWords name.length) := by
            rw [filePointer_skip, hp]
            omega
          rw [getCurrentFileOffset_eq hpos] at hend
          cases fuel with
          | zero => cases hloop
          | succ fuel =>
            cases (readRows_end hpos (Int.not_lt.mp hend) fuel).symm.trans hloop
            refine ⟨?_, fun _ => ⟨_, hpos⟩⟩
            rw [hrest₁, hrest]
            exact .cut (by omega) hname hrow hfill (by omega)
        · rw [Nat.min_eq_left hlong] at hloop
          have hpos : (f.skip (name.length + 1 + (filling name.length + 4))).filePointer =
              4 * (p + (nameWords name.length + 1)) := by
            rw [filePointer_skip, hp]
            omega
          obtain ⟨hends, haligned⟩ := readRows_ends hpos hloop
          refine ⟨?_, haligned⟩
          rw [rest_skip_name hrest] at hends
          have hsplit : t = t.take (filling name.length) ++
              ((t.drop (filling name.length)).take 4 ++ t.drop (filling name.length + 4)) := by
            rw [← List.drop_drop, List.take_append_drop, List.take_append_drop]
          rw [hrest, hsplit]
          refine .row (by omega) hname hrow ?_ ?_ ?_
          · rw [List.length_take]
            omega
          · rw [List.length_take, List.length_drop]
            omega
          · have hrows : tableEnd - p - (nameWords name.length + 1) =
                tableEnd - ((p + (nameWords name.length + 1) : Nat) : Int) := by
              omega
            rw [hrows]
            exact hends
    · rw [readRows, bind_ok get_run, getCurrentFileOffset_eq hp, if_neg hlt] at h
      cases h
      exact ⟨.done (by omega), fun _ => ⟨p, hp⟩⟩

/-- At such a table, the loop ends. -/
theorem TableEnds.readRows {n : Int} {l t : List Byte} (h : TableEnds (isRow entry) n l t) :
    ∀ {fuel p : Nat} {f : RandomAccessFile}, f.filePointer = 4 * p → f.rest = l →
      n = tableEnd - p → l.length < fuel →
        ∃ r f', Linker.readRows entry tableEnd fuel f = .ok r f' ∧ f'.rest = t ∧
          ((∀ name, isRow entry name = true) → 4 ∣ f'.filePointer) := by
  induction h with
  | done h =>
    intro fuel p f hp hrest hn hfuel
    obtain ⟨fuel, rfl⟩ := Nat.exists_eq_succ_of_ne_zero (Nat.ne_of_gt (Nat.zero_lt_of_lt hfuel))
    exact ⟨some [], f, readRows_end hp (by omega) fuel, hrest, fun _ => ⟨p, hp⟩⟩
  | @bad n name t h hname hrow =>
    intro fuel p f hp hrest hn hfuel
    obtain ⟨fuel, rfl⟩ := Nat.exists_eq_succ_of_ne_zero (Nat.ne_of_gt (Nat.zero_lt_of_lt hfuel))
    have hlt : getCurrentFileOffset f < tableEnd := by
      rw [getCurrentFileOffset_eq hp]
      omega
    have hentry : entry (nameOf name) = none := Option.not_isSome_iff_eq_none.mp (by
      rw [Bool.not_eq_true]
      exact hrow)
    refine ⟨none, _, readRows_bad hlt hname hrest hentry fuel, ?_, fun hall => ?_⟩
    · rw [rest_skip_name hrest, ← List.drop_eq_drop_min]
    · rw [hall] at hrow
      cases hrow
  | @row n name fill offset t t' h hname hrow hfill hoffset _ ih =>
    intro fuel p f hp hrest hn hfuel
    obtain ⟨fuel, rfl⟩ := Nat.exists_eq_succ_of_ne_zero (Nat.ne_of_gt (Nat.zero_lt_of_lt hfuel))
    have hlt : getCurrentFileOffset f < tableEnd := by
      rw [getCurrentFileOffset_eq hp]
      omega
    obtain ⟨make, hentry⟩ := Option.isSome_iff_exists.mp hrow
    obtain ⟨w, hturn⟩ := readRows_turn hlt hname hrest hentry fuel
    have hwords := filling_words name.length
    have hlength : (fill ++ (offset ++ t)).length = filling name.length + 4 + t.length := by
      rw [List.length_append, List.length_append, hfill, hoffset, Nat.add_assoc]
    rw [hlength, Nat.min_eq_left (Nat.le_add_right _ _)] at hturn
    have hpos : (f.skip (name.length + 1 + (filling name.length + 4))).filePointer =
        4 * (p + (nameWords name.length + 1)) := by
      rw [filePointer_skip, hp]
      omega
    have hrest' : (f.skip (name.length + 1 + (filling name.length + 4))).rest = t := by
      rw [rest_skip_name hrest, ← List.append_assoc, ← hfill, ← hoffset, ← List.length_append,
        List.drop_left]
    rw [List.length_append, List.length_cons, hlength] at hfuel
    obtain ⟨r, f', hloop, hend, haligned⟩ := ih hpos hrest' (by omega) (by omega : t.length < fuel)
    exact ⟨r.map (make w :: ·), f', by rw [hturn, bind_ok hloop]; rfl, hend, haligned⟩
  | @cut n name fill h hname hrow hfill hlast =>
    intro fuel p f hp hrest hn hfuel
    obtain ⟨fuel, rfl⟩ := Nat.exists_eq_succ_of_ne_zero (Nat.ne_of_gt (Nat.zero_lt_of_lt hfuel))
    have hlt : getCurrentFileOffset f < tableEnd := by
      rw [getCurrentFileOffset_eq hp]
      omega
    obtain ⟨make, hentry⟩ := Option.isSome_iff_exists.mp hrow
    obtain ⟨w, hturn⟩ := readRows_turn hlt hname hrest hentry fuel
    have hwords := filling_words name.length
    rw [hfill, Nat.min_eq_right (Nat.le_add_right _ _)] at hturn
    have hpos : (f.skip (name.length + 1 + filling name.length)).filePointer =
        4 * (p + nameWords name.length) := by
      rw [filePointer_skip, hp]
      omega
    rw [List.length_append, List.length_cons] at hfuel
    obtain ⟨fuel, rfl⟩ := Nat.exists_eq_succ_of_ne_zero (by omega : fuel ≠ 0)
    have hloop := @readRows_end _ entry _ _ _ hpos (by omega : tableEnd ≤ _) fuel
    refine ⟨some [make w], _, by rw [hturn, bind_ok hloop]; rfl, ?_, fun _ => ⟨_, hpos⟩⟩
    rw [rest_skip_name hrest, ← hfill, List.drop_length]

end Rows

/-! ## files -/

section Files

variable {f : RandomAccessFile} {p : Nat}

/-- A word is read, or the file ends. -/
theorem readNextWord_cases (f : RandomAccessFile) :
    (∃ w t, f.rest = intBytes w ++ t ∧ readNextWord f = .ok (some w.toInt) (f.skip 4)) ∨
      f.rest.length < 4 ∧ ∃ f', readNextWord f = .ok none f' ∧ f'.rest = [] := by
  obtain ⟨w, hread, hnone⟩ := readNextWord_min (f := f)
  rcases Nat.lt_or_ge f.rest.length 4 with hshort | hlong
  · refine .inr ⟨hshort, f.skip (min 4 f.rest.length), ?_, ?_⟩
    · rw [hread, hnone.mpr hshort]
    · rw [rest_skip_drop, Nat.min_eq_right (Nat.le_of_lt hshort), List.drop_length]
  · refine .inl ?_
    rcases hrest : f.rest with _ | ⟨a, _ | ⟨b, _ | ⟨c, _ | ⟨d, t⟩⟩⟩⟩
    case cons.cons.cons.cons =>
      have hword : f.rest = intBytes (intOfBytes a b c d) ++ t := by
        rw [intBytes_intOfBytes, hrest]
        rfl
      exact ⟨intOfBytes a b c d, t, hword ▸ hrest.symm, readNextWord_run hword⟩
    all_goals
      rw [hrest] at hlong
      simp at hlong

theorem readTable_at {α : Type} {entry : String → Option (Option Int → α)} {size : Int}
    (hp : f.filePointer = 4 * p) : readTable entry (getCurrentFileOffset f) size f =
      readRows entry (p + size) (f.contents.length + 1) f := by
  rw [getCurrentFileOffset_eq hp, readTable_eq hp]

/-- The reading of both tables comes to an end. -/
def TablesEnd (size : Int) (t : List Byte) : Prop :=
  ∃ t₁, TableEnds (isRow offsetEntry) size t t₁ ∧
    ∀ (w : Word) (t₂ : List Byte), t₁ = intBytes w ++ t₂ →
      ∃ t₃, TableEnds (isRow fixupEntry) w.toInt t₂ t₃

/-- If the header is right, the tables come to an end. -/
def FileEnds (bytes : List Byte) : Prop :=
  ∀ (main size : Word) (t : List Byte),
    bytes = intBytes 0 ++ (intBytes main ++ (intBytes size ++ t)) → TablesEnd size.toInt t

theorem scanTables_iff {main : Option Int} {size : Int} (hp : f.filePointer = 4 * p) :
    (∃ r f', scanTables main size f = .ok r f') ↔ TablesEnd size f.rest := by
  have hall : ∀ name, isRow offsetEntry name = true := fun _ => rfl
  constructor
  · rintro ⟨r, f', h⟩
    unfold scanTables at h
    rw [bind_ok get_run] at h
    obtain ⟨l, f₁, hoffset, h⟩ := bind_eq_ok h
    rw [readOffsetTable, readTable_at hp] at hoffset
    obtain ⟨hends, haligned⟩ := readRows_ends hp hoffset
    rw [add_sub_cancel_left] at hends
    refine ⟨f₁.rest, hends, fun w t₂ hrest => ?_⟩
    obtain ⟨q, hq⟩ := haligned hall
    rw [bind_ok (readNextWord_run hrest)] at h
    dsimp only at h
    rw [bind_ok get_run] at h
    obtain ⟨l', f₂, hfixup, -⟩ := bind_eq_ok h
    have hq' : (f₁.skip 4).filePointer = 4 * (q + 1) := by
      rw [filePointer_skip, hq]
      omega
    rw [readFixupTable, readTable_at hq'] at hfixup
    obtain ⟨hends', -⟩ := readRows_ends hq' hfixup
    rw [add_sub_cancel_left, rest_skip_int hrest] at hends'
    exact ⟨_, hends'⟩
  · rintro ⟨t₁, hends, hfix⟩
    obtain ⟨l, f₁, hoffset, hrest, haligned⟩ := hends.readRows hp rfl
      (show size = (p : Int) + size - p by omega) (Nat.lt_succ_of_le f.length_rest_le)
    rw [← readTable_at hp] at hoffset
    obtain ⟨q, hq⟩ := haligned hall
    unfold scanTables
    rw [bind_ok get_run, readOffsetTable, bind_ok hoffset]
    obtain ⟨w, t₂, hword, hread⟩ | ⟨-, f₂, hread, -⟩ := readNextWord_cases f₁
    · rw [bind_ok hread]
      dsimp only
      have hq' : (f₁.skip 4).filePointer = 4 * (q + 1) := by
        rw [filePointer_skip, hq]
        omega
      obtain ⟨t₃, hends'⟩ := hfix w t₂ (hrest.symm.trans hword)
      obtain ⟨l', f₃, hfixup, -⟩ := hends'.readRows hq' (rest_skip_int hword)
        (show w.toInt = ((q + 1 : Nat) : Int) + w.toInt - (q + 1 : Nat) by omega)
        (Nat.lt_succ_of_le (rest_skip_int hword ▸ (f₁.skip 4).length_rest_le))
      rw [← readTable_at hq'] at hfixup
      rw [bind_ok get_run, readFixupTable, bind_ok hfixup, bind_ok get_run]
      exact ⟨_, _, rfl⟩
    · rw [bind_ok hread]
      exact ⟨_, _, rfl⟩

theorem intBytes_inj {v w : Word} (h : intBytes v = intBytes w) : v = w := by
  simp only [intBytes, List.cons.injEq, and_true] at h
  obtain ⟨h₁, h₂, h₃, h₄⟩ := h
  rw [← intOfBytes_intBytes v, ← intOfBytes_intBytes w, h₁, h₂, h₃, h₄]

/-- A file that ends before its tables is refused. -/
theorem FileEnds.of_short {bytes : List Byte} (h : bytes.length < 12) : FileEnds bytes := by
  rintro main size t rfl
  simp only [List.length_append, length_intBytes] at h
  omega

/-- `scanFile` returns exactly when what it reads as tables comes to an end. -/
theorem scanFile_iff {bytes : List Byte} :
    (∃ r f', scanFile (ofBytes bytes) = .ok r f') ↔ FileEnds bytes := by
  have hrest₀ : (ofBytes bytes).rest = bytes := rest_ofBytes bytes
  unfold scanFile
  obtain ⟨magic, t₀, hmagic, hread₀⟩ | ⟨hshort, f₁, hread₀, -⟩ := readNextWord_cases (ofBytes bytes)
  · rw [bind_ok hread₀]
    by_cases hzero : magic = 0
    · subst hzero
      rw [if_neg (by decide)]
      have hrest₁ : ((ofBytes bytes).skip 4).rest = t₀ := rest_skip_int hmagic
      obtain ⟨main, t₁, hmain, hread₁⟩ | ⟨hshort, f₂, hread₁, hend⟩ :=
        readNextWord_cases ((ofBytes bytes).skip 4)
      · rw [bind_ok hread₁]
        have hrest₂ : (((ofBytes bytes).skip 4).skip 4).rest = t₁ := rest_skip_int hmain
        obtain ⟨size, t₂, hsize, hread₂⟩ | ⟨hshort, f₃, hread₂, -⟩ :=
          readNextWord_cases (((ofBytes bytes).skip 4).skip 4)
        · rw [bind_ok hread₂]
          dsimp only
          have hp : ((((ofBytes bytes).skip 4).skip 4).skip 4).filePointer = 4 * 3 := rfl
          have hbytes : bytes = intBytes 0 ++ (intBytes main ++ (intBytes size ++ t₂)) := by
            rw [← hsize, hrest₂, ← hmain, hrest₁, ← hmagic, hrest₀]
          rw [scanTables_iff hp, rest_skip_int hsize]
          constructor
          · rintro hends main' size' t' heq
            obtain ⟨-, heq⟩ := List.append_inj (hbytes.symm.trans heq) rfl
            obtain ⟨-, heq⟩ := List.append_inj heq rfl
            obtain ⟨hword, rfl⟩ := List.append_inj heq rfl
            rw [← intBytes_inj hword]
            exact hends
          · exact fun hends => hends main size t₂ hbytes
        · rw [bind_ok hread₂]
          refine iff_of_true ⟨_, _, rfl⟩ (.of_short ?_)
          rw [rest_skip_drop, rest_skip_drop, hrest₀, List.length_drop, List.length_drop] at hshort
          omega
      · rw [bind_ok hread₁]
        refine iff_of_true ?_ (.of_short ?_)
        · obtain ⟨w, t, hword, -⟩ | ⟨-, f₃, hread₂, -⟩ := readNextWord_cases f₂
          · rw [hend] at hword
            cases hword
          · rw [bind_ok hread₂]
            exact ⟨_, _, rfl⟩
        · rw [rest_skip_drop, hrest₀, List.length_drop] at hshort
          omega
    · have hne : some magic.toInt ≠ some 0 := fun heq =>
        hzero (BitVec.eq_of_toInt_eq (Option.some.inj heq))
      rw [if_pos hne]
      refine iff_of_true ⟨_, _, rfl⟩ fun main size t heq => absurd ?_ hzero
      rw [← hrest₀, hmagic] at heq
      exact intBytes_inj (List.append_inj heq rfl).1
  · rw [bind_ok hread₀, if_pos (by simp)]
    refine iff_of_true ⟨_, _, rfl⟩ (.of_short ?_)
    rw [hrest₀] at hshort
    omega

/-- A header that says that a table of a word follows, and the end of the file. -/
def headerOnly : List Byte := bytesOf [0, 0, 1]

theorem headerOnly_not_scanned :
    ¬ ∀ bytes : List Byte, ∃ r f', scanFile (ofBytes bytes) = .ok r f' := by
  intro h
  obtain ⟨t₁, hends, -⟩ := scanFile_iff.mp (h headerOnly) 0 1 [] rfl
  -- a row has at least a `=`
  generalize hrest : ([] : List Byte) = l at hends
  cases hends with
  | done hn => exact absurd hn (by decide)
  | bad => exact absurd hrest (by simp)
  | row => exact absurd hrest (by simp)
  | cut => exact absurd hrest (by simp)

end Files

end Linker
