import Mathlib
import Bambinos.Linker.ObjectFormat

/-!
# An object file is read as it was written

The writer fills a name up to full words and the reader throws the filling away, so the two agree
on every length of a name. What they do not share is the length of a table: it is summed up in an
`int`, while the rows are all written.

* `readStringFromFile_run` — a name is read back, and the file pointer stands behind its words
* `readRows_run` — so is a table whose length is known
* `readRows_short` — a table whose length is too small is cut
* `round_trips_iff` — the file is read back exactly if both lengths fit into an `int`
* `scanned_contents` — what the linker then works on
-/

namespace Linker

open Infra Compiler RandomAccessFile

/-! ## characters -/

/-- The byte of a character. -/
def byteOf (c : Char) : Byte := BitVec.ofNat 8 c.toNat

/-- An ASCII character that does not end a name. -/
def NameChar (c : Char) : Prop := c.toNat < 128 ∧ c ≠ '='

theorem nameChar_of_isAlphanum {c : Char} (h : c.isAlphanum) : NameChar c ∧ c ≠ '.' := by
  have hc : 48 ≤ c.toNat ∧ c.toNat ≤ 57 ∨ 65 ≤ c.toNat ∧ c.toNat ≤ 90 ∨
      97 ≤ c.toNat ∧ c.toNat ≤ 122 := by
    simp only [Char.isAlphanum, Char.isAlpha, Char.isUpper, Char.isLower, Char.isDigit,
      Bool.or_eq_true, Bool.and_eq_true, decide_eq_true_eq, UInt32.le_iff_toNat_le] at h
    change (_ ∨ _) ∨ _ at h
    simp only [Char.toNat]
    rcases h with (⟨h1, h2⟩ | ⟨h1, h2⟩) | ⟨h1, h2⟩
    · exact .inr (.inl ⟨h1, h2⟩)
    · exact .inr (.inr ⟨h1, h2⟩)
    · exact .inl ⟨h1, h2⟩
  refine ⟨⟨by omega, ?_⟩, ?_⟩ <;>
  · rintro rfl
    simp at hc

theorem toNat_byteOf {c : Char} (h : c.toNat < 128) : (byteOf c).toNat = c.toNat := by
  rw [byteOf, BitVec.toNat_ofNat]
  omega

theorem toInt_byteOf {c : Char} (h : c.toNat < 128) : (byteOf c).toInt = c.toNat := by
  rw [BitVec.toInt_eq_toNat_of_lt (by rw [toNat_byteOf h]; omega), toNat_byteOf h]

theorem charOfByte_byteOf {c : Char} (h : c.toNat < 128) : charOfByte (byteOf c).toInt = c := by
  have hc : ((c.toNat : Int) % 65536).toNat = c.toNat := by omega
  rw [toInt_byteOf h, charOfByte, hc, Char.ofNat_toNat]

/-! ## words of characters -/

theorem length_makeCorrString (x : List Char) : 4 ∣ (makeCorrString x).length := by
  unfold makeCorrString
  dsimp only
  split
  · rw [List.length_append, List.length_replicate]
    omega
  · omega

/-- What is filled up is thrown away. -/
theorem makeCorrString_eq (x : List Char) :
    makeCorrString x =
      x ++ List.replicate (if x.length % 4 > 0 then 4 - x.length % 4 else 0) '0' := by
  unfold makeCorrString
  dsimp only
  by_cases h : x.length % 4 = 0
  · rw [if_neg (by omega), if_neg (by omega), List.replicate_zero, List.append_nil]
  · rw [if_pos h, if_pos (by omega)]

theorem ofNat_eq_setWidth {c : Char} (h : c.toNat < 128) :
    BitVec.ofNat 32 c.toNat = (byteOf c).setWidth 32 := by
  apply BitVec.eq_of_toNat_eq
  rw [BitVec.toNat_setWidth, toNat_byteOf h, BitVec.toNat_ofNat]

theorem length_packWords : ∀ cs : List Char, (packWords cs).length = cs.length / 4
  | [] | [_] | [_, _] | [_, _, _] => by simp [packWords]
  | a :: b :: c :: d :: rest => by
    rw [packWords, List.length_cons, length_packWords rest]
    simp only [List.length_cons]
    omega

/-- Full words of characters are the bytes of the characters. -/
theorem bytesOf_packWords : ∀ cs : List Char, 4 ∣ cs.length → (∀ c ∈ cs, c.toNat < 128) →
    bytesOf (packWords cs) = cs.map byteOf
  | [], _, _ => rfl
  | [_], hlen, _ => by simp at hlen
  | [_, _], hlen, _ => by simp at hlen
  | [_, _, _], hlen, _ => by simp at hlen
  | a :: b :: c :: d :: rest, hlen, hascii => by
    have hrest : ∀ x ∈ rest, x.toNat < 128 := fun x hx => hascii x (by simp [hx])
    have hlen' : 4 ∣ rest.length := by
      simp only [List.length_cons] at hlen
      omega
    rw [packWords, bytesOf_cons, bytesOf_packWords rest hlen' hrest,
      ofNat_eq_setWidth (hascii a (by simp)), ofNat_eq_setWidth (hascii b (by simp)),
      ofNat_eq_setWidth (hascii c (by simp)), ofNat_eq_setWidth (hascii d (by simp))]
    exact congrArg (· ++ rest.map byteOf) (intBytes_intOfBytes _ _ _ _)

/-- The bytes of a name with its delimiter and its filling. -/
def nameBytes (name : List Char) : List Byte := (makeCorrString (name ++ ['='])).map byteOf

theorem bytesOf_name {name : List Char} (h : ∀ c ∈ name, NameChar c) :
    bytesOf (packWords (makeCorrString (name ++ ['=']))) = nameBytes name := by
  refine bytesOf_packWords _ (length_makeCorrString _) fun c hc => ?_
  rw [makeCorrString_eq, List.mem_append, List.mem_append] at hc
  rcases hc with (hc | hc) | hc
  · exact (h c hc).1
  · rw [List.mem_singleton] at hc
    subst hc
    decide
  · rw [(List.mem_replicate.mp hc).2]
    decide

/-! ## reading a name -/

section Read

variable {f : RandomAccessFile} {t : List Byte}

theorem readNextWord_run {w : Word} (h : f.rest = intBytes w ++ t) :
    readNextWord f = .ok (some w.toInt) (f.skip 4) := by
  unfold readNextWord
  rw [bind_ok (readInt_run h)]
  rfl

theorem readNextByte_run {b : Byte} (h : f.rest = b :: t) :
    readNextByte f = .ok b.toInt (f.skip 1) := by
  unfold readNextByte
  rw [bind_ok (readByte_run h)]
  rfl

/-- The characters up to the delimiter, and how many they are. -/
theorem readUntil_run (name : List Char) (h : ∀ c ∈ name, NameChar c) {fuel : Nat}
    (hfuel : name.length < fuel) (value : List Char) (bytesRead : Nat)
    (hrest : f.rest = name.map byteOf ++ byteOf '=' :: t) :
    readUntil '=' fuel value bytesRead f =
      .ok (value ++ name, bytesRead + name.length) (f.skip (name.length + 1)) := by
  induction name generalizing f fuel value bytesRead with
  | nil =>
    obtain ⟨fuel, rfl⟩ := Nat.exists_eq_succ_of_ne_zero (Nat.ne_of_gt (Nat.zero_lt_of_lt hfuel))
    rw [readUntil, bind_ok (readNextByte_run hrest), if_pos (by decide)]
    simp
  | cons c name ih =>
    obtain ⟨hc, hne⟩ := h c (by simp)
    obtain ⟨fuel, rfl⟩ := Nat.exists_eq_succ_of_ne_zero (Nat.ne_of_gt (Nat.zero_lt_of_lt hfuel))
    have hbyte : ¬ (byteOf c).toInt = '='.toNat := by
      rw [toInt_byteOf hc]
      intro heq
      exact hne (Char.toNat_inj.mp (by exact_mod_cast heq))
    rw [readUntil, bind_ok (readNextByte_run hrest), if_neg hbyte, charOfByte_byteOf hc]
    have hskip : (f.skip 1).rest = name.map byteOf ++ byteOf '=' :: t :=
      rest_skip [byteOf c] hrest
    show readUntil '=' fuel (value ++ [c]) (bytesRead + 1) (f.skip 1) = _
    rw [ih (fun x hx => h x (List.mem_cons_of_mem _ hx)) (by simpa using hfuel) _ _ hskip]
    simp only [List.append_assoc, List.cons_append, List.nil_append, List.length_cons, skip_skip]
    rw [Nat.add_assoc bytesRead 1, Nat.add_comm 1 name.length, Nat.add_comm 1]

theorem dropBytes_run (read : List Byte) (h : f.rest = read ++ t) :
    dropBytes read.length f = .ok () (f.skip read.length) := by
  induction read generalizing f with
  | nil => rfl
  | cons b read ih =>
    have hskip : (f.skip 1).rest = read ++ t := rest_skip [b] h
    rw [List.length_cons, dropBytes, bind_ok (readNextByte_run h), ih hskip, skip_skip,
      Nat.add_comm 1]

theorem nameBytes_eq (name : List Char) :
    nameBytes name = name.map byteOf ++ byteOf '=' ::
      (List.replicate (if (name.length + 1) % 4 > 0 then 4 - (name.length + 1) % 4 else 0)
        '0').map byteOf := by
  simp [nameBytes, makeCorrString_eq]

/-- A name is read with its filling. -/
theorem readStringFromFile_run {name : List Char} (h : ∀ c ∈ name, NameChar c)
    (hrest : f.rest = nameBytes name ++ t) :
    readStringFromFile '=' f = .ok (String.ofList name) (f.skip (nameBytes name).length) := by
  have hlength := f.length_rest_le
  rw [hrest, List.length_append] at hlength
  rw [nameBytes_eq] at hrest hlength ⊢
  generalize hfill : (List.replicate (if (name.length + 1) % 4 > 0 then
    4 - (name.length + 1) % 4 else 0) '0').map byteOf = fill at hrest hlength ⊢
  simp only [List.append_assoc, List.cons_append, List.length_append, List.length_map,
    List.length_cons] at hrest hlength ⊢
  have hfill' : (if (name.length + 1) % 4 > 0 then 4 - (name.length + 1) % 4 else 0) =
      fill.length := by
    rw [← hfill, List.length_map, List.length_replicate]
  have hread : readUntil '=' f.contents.length [] 0 f = .ok (name, name.length)
      (f.skip (name.length + 1)) := by
    simpa using readUntil_run name h (by omega) [] 0 hrest
  have hskip : (f.skip (name.length + 1)).rest = fill ++ t := by
    simpa using rest_skip (f := f) (name.map byteOf ++ [byteOf '=']) (by simpa using hrest)
  unfold readStringFromFile
  rw [bind_ok get_run, bind_ok hread]
  dsimp only
  rw [hfill', bind_ok (dropBytes_run fill hskip), pure_run, skip_skip]
  congr 2
  omega

end Read

/-! ## reading a table -/

/-- A row that is read back: the name can be read, the offset is an `int`. -/
structure ReadableRow (row : Row) : Prop where
  name : ∀ c ∈ row.1.toList, NameChar c
  offset : int32 row.2 = row.2

/-- The words of a table. -/
def tableLength (rows : List Row) : Nat := (rows.map fun row => rowLength row.1).sum

@[simp] theorem tableLength_nil : tableLength [] = 0 := rfl

@[simp] theorem tableLength_cons (row : Row) (rows : List Row) :
    tableLength (row :: rows) = rowLength row.1 + tableLength rows := List.sum_cons

theorem rowLength_pos (name : String) : 0 < rowLength name := by
  unfold rowLength
  dsimp only
  split <;> omega

theorem length_writeRow (row : Row) : (writeRow row).length = rowLength row.1 := by
  have hdvd := length_makeCorrString (row.1.toList ++ ['='])
  unfold writeRow rowLength
  rw [List.length_append, length_packWords, makeCorrString_eq, ← String.length_toList]
  simp only [List.length_append, List.length_replicate, List.length_cons, List.length_nil]
  split <;> split <;> omega

theorem length_writeTable (rows : List Row) : (writeTable rows).length = tableLength rows := by
  unfold writeTable tableLength
  rw [List.length_flatMap]
  exact congrArg List.sum (List.map_congr_left fun row _ => length_writeRow row)

theorem toInt_ofInt {n : Int} (h : int32 n = n) : (BitVec.ofInt 32 n).toInt = n := by
  rw [BitVec.toInt_ofInt]
  exact h

/-- The bytes of a row. -/
theorem bytesOf_writeRow {row : Row} (h : ReadableRow row) :
    bytesOf (writeRow row) = nameBytes row.1.toList ++ intBytes (BitVec.ofInt 32 row.2) := by
  rw [writeRow, bytesOf_append, bytesOf_name h.name]
  simp

section Rows

variable {α : Type} {entry : String → Option (Option Int → α)} {f : RandomAccessFile}
  {t : List Byte} {p : Nat}

/-- The file pointer is at a word. -/
theorem getCurrentFileOffset_eq (h : f.filePointer = 4 * p) : getCurrentFileOffset f = p := by
  unfold getCurrentFileOffset
  rw [if_pos (by omega), h, Nat.mul_div_cancel_left p (by omega)]

/-- A turn of the loop: a row is read, and the file pointer stands behind it. -/
theorem readRows_cons {row : Row} {make : Option Int → α} (hrow : ReadableRow row)
    (hentry : entry row.1 = some make) {tableEnd : Int} (hp : f.filePointer = 4 * p)
    (hlt : (p : Int) < tableEnd) (hrest : f.rest = bytesOf (writeRow row) ++ t) (fuel : Nat) :
    readRows entry tableEnd (fuel + 1) f =
      (do return (← readRows entry tableEnd fuel).map (make (some row.2) :: ·))
        (f.skip (4 * rowLength row.1)) := by
  rw [bytesOf_writeRow hrow, List.append_assoc] at hrest
  have hlength : 4 * rowLength row.1 = (nameBytes row.1.toList).length + 4 := by
    rw [← length_writeRow, ← length_bytesOf, bytesOf_writeRow hrow, List.length_append,
      length_intBytes]
  rw [readRows, bind_ok get_run, getCurrentFileOffset_eq hp, if_pos hlt,
    bind_ok (readStringFromFile_run hrow.name hrest), String.ofList_toList, hentry]
  dsimp only
  rw [bind_ok (readNextWord_run (rest_skip _ hrest)), toInt_ofInt hrow.offset, skip_skip, hlength]

theorem readRows_end {tableEnd : Int} (hp : f.filePointer = 4 * p) (hle : tableEnd ≤ p)
    (fuel : Nat) : readRows entry tableEnd (fuel + 1) f = .ok (some []) f := by
  rw [readRows, bind_ok get_run, getCurrentFileOffset_eq hp, if_neg (by omega), pure_run]

/-- What is ahead behind the first row. -/
theorem rest_skip_row {row : Row} {rows : List Row}
    (hrest : f.rest = bytesOf (writeTable (row :: rows)) ++ t) :
    (f.skip (4 * rowLength row.1)).rest = bytesOf (writeTable rows) ++ t := by
  rw [← length_writeRow, ← length_bytesOf]
  refine rest_skip _ ?_
  rw [hrest, writeTable, List.flatMap_cons, bytesOf_append, List.append_assoc]
  rfl

/-- **A table whose length is right is read back.** -/
theorem readRows_run (rows : List Row) {make : Row → Option Int → α}
    (hrows : ∀ row ∈ rows, ReadableRow row) (hentry : ∀ row ∈ rows, entry row.1 = some (make row))
    {tableEnd : Int} (hp : f.filePointer = 4 * p) (hend : tableEnd = p + tableLength rows)
    (hrest : f.rest = bytesOf (writeTable rows) ++ t) {fuel : Nat} (hfuel : rows.length < fuel) :
    readRows entry tableEnd fuel f =
      .ok (some (rows.map fun row => make row (some row.2))) (f.skip (4 * tableLength rows)) := by
  obtain ⟨fuel, rfl⟩ := Nat.exists_eq_succ_of_ne_zero (Nat.ne_of_gt (Nat.zero_lt_of_lt hfuel))
  induction rows generalizing f p fuel with
  | nil => exact readRows_end hp (by simp [hend]) fuel
  | cons row rows ih =>
    have hpos := rowLength_pos row.1
    rw [tableLength_cons] at hend
    have hrest' := hrest
    rw [writeTable, List.flatMap_cons, bytesOf_append, List.append_assoc] at hrest'
    rw [readRows_cons (hrows row (by simp)) (hentry row (by simp)) hp (by omega) hrest' fuel]
    obtain ⟨fuel, rfl⟩ := Nat.exists_eq_succ_of_ne_zero
      (Nat.ne_of_gt (Nat.zero_lt_of_lt (Nat.lt_of_succ_lt_succ hfuel)))
    have hrun := ih (fun r hr => hrows r (List.mem_cons_of_mem _ hr))
      (fun r hr => hentry r (List.mem_cons_of_mem _ hr)) (f := f.skip (4 * rowLength row.1))
      (p := p + rowLength row.1) (by rw [filePointer_skip, hp]; omega) (by omega)
      (rest_skip_row hrest) fuel (by simpa using hfuel)
    rw [bind_ok hrun, pure_run, skip_skip, tableLength_cons, Nat.mul_add]
    rfl

/-- **A table whose length ends before its last row is cut.** -/
theorem readRows_short (rows : List Row) (last : Row) {make : Row → Option Int → α}
    (hrows : ∀ row ∈ rows, ReadableRow row) (hentry : ∀ row ∈ rows, entry row.1 = some (make row))
    {tableEnd : Int} (hp : f.filePointer = 4 * p) (hend : tableEnd ≤ p + tableLength rows)
    (hrest : f.rest = bytesOf (writeTable (rows ++ [last])) ++ t) {fuel : Nat}
    {f' : RandomAccessFile} {l : List α}
    (h : readRows entry tableEnd fuel f = .ok (some l) f') : l.length < (rows ++ [last]).length := by
  induction rows generalizing f p fuel l with
  | nil =>
    cases fuel with
    | zero => cases h
    | succ fuel =>
      rw [readRows_end hp (by simpa using hend)] at h
      cases h
      simp
  | cons row rows ih =>
    cases fuel with
    | zero => cases h
    | succ fuel =>
      by_cases hlt : (p : Int) < tableEnd
      · have hrest' := hrest
        rw [List.cons_append, writeTable, List.flatMap_cons, bytesOf_append,
          List.append_assoc] at hrest'
        rw [readRows_cons (hrows row (by simp)) (hentry row (by simp)) hp hlt hrest' fuel] at h
        obtain ⟨elements, f₁, hrun, h⟩ := bind_eq_ok h
        injection h with h hf
        cases elements with
        | none => cases h
        | some elements =>
          injection h with h
          subst h hf
          rw [tableLength_cons] at hend
          have := ih (fun r hr => hrows r (List.mem_cons_of_mem _ hr))
            (fun r hr => hentry r (List.mem_cons_of_mem _ hr)) (p := p + rowLength row.1)
            (by rw [filePointer_skip, hp]; omega) (by omega) (rest_skip_row hrest) hrun
          simpa using this
      · rw [readRows_end hp (by omega)] at h
        cases h
        simp

end Rows

/-! ## the lengths of the tables -/

/-- An `int` that sums up lengths wraps around as often as the sum does. -/
theorem foldl_int32 {β : Type} (g : β → Nat) (l : List β) (n : Int) :
    l.foldl (fun size x => int32 (size + g x)) (int32 n) = int32 (n + (l.map g).sum) := by
  induction l generalizing n with
  | nil => simp
  | cons x l ih =>
    have hstep : int32 (int32 n + g x) = int32 (n + g x) := by
      unfold int32
      exact Int.bmod_add_bmod
    rw [List.foldl_cons, hstep, ih, List.map_cons, List.sum_cons, Nat.cast_add, Int.add_assoc]

theorem sum_int32 {β : Type} (g : β → Nat) (l : List β) :
    l.foldl (fun size x => int32 (size + g x)) 0 = int32 ((l.map g).sum : Nat) := by
  rw [← Int.zero_add ((l.map g).sum : Int), ← foldl_int32 g l 0]
  rfl

theorem symbolTableLength_eq (t : SymbolTableList) :
    symbolTableLength t = int32 (tableLength (globalRows t)) := by
  rw [symbolTableLength, sum_int32, tableLength, globalRows, List.map_map]
  rfl

theorem getLenghtofTable_eq (map : List FixupEntry) :
    getLenghtofTable map = int32 (tableLength (fixupRows map)) := by
  rw [getLenghtofTable, sum_int32, tableLength, fixupRows, List.map_map]
  rfl

/-- A length that does not fit into an `int` becomes a whole range of it smaller. -/
theorem int32_le_sub {n : Nat} (h : 2 ^ 31 ≤ n) : int32 n ≤ n - 4294967296 := by
  unfold int32
  rw [Int.bmod_def]
  split <;> omega

/-- Rows that are put under distinct names are all in the map. -/
theorem foldl_put (rows map : List Row) (h : ((map ++ rows).map Prod.fst).Nodup) :
    rows.foldl put map = map ++ rows := by
  induction rows generalizing map with
  | nil => simp
  | cons row rows ih =>
    have hput : put map row = map ++ [row] := by
      unfold put
      congr 1
      rw [List.filter_eq_self]
      intro r hr
      rw [List.map_append, List.nodup_append] at h
      have := h.2.2 r.1 (List.mem_map_of_mem hr) row.1 (by simp)
      simpa using this
    rw [List.foldl_cons, hput, ih _ (by simpa using h)]
    simp

theorem getGlobalSymList_eq {t : SymbolTableList} (h : ((globalRows t).map Prod.fst).Nodup) :
    getGlobalSymList t = globalRows t := by
  rw [getGlobalSymList, foldl_put (globalRows t) [] (by simpa using h), List.nil_append]

/-! ## reading the file -/

/-- Letters and digits. -/
def Alphanumeric (s : String) : Prop := ∀ c ∈ s.toList, c.isAlphanum

/-- The fixup entry of a call. -/
def fixupOf (call : FixupTableElement) : FixupEntry :=
  { module := call.module ++ "." ++ call.name, offset := call.offset }

/--
What is written: tables with names of letters and digits, distinct in the symbol table, with
offsets that are `int`s, and with names that a Java string can hold together with their `=`. The
symbol table is written in an order of its own.
-/
structure Writable (g : CodeGenerator) (map : List Row) (calls : List FixupTableElement) :
    Prop where
  order : map.Perm (getGlobalSymList g.symbolTable)
  distinct : ((globalRows g.symbolTable).map Prod.fst).Nodup
  symbols : ∀ row ∈ globalRows g.symbolTable,
    Alphanumeric row.1 ∧ row.1.length + 1 < 2 ^ 31 ∧ int32 row.2 = row.2
  fixups : g.fixupTable = calls.map fixupOf
  calls : ∀ call ∈ calls, (Alphanumeric call.module ∧ call.module ≠ "") ∧
    (Alphanumeric call.name ∧ call.name ≠ "") ∧
    (fixupOf call).module.length + 1 < 2 ^ 31 ∧ int32 call.offset = call.offset

theorem readableRow_of_alphanumeric {row : Row} (h : Alphanumeric row.1)
    (hoffset : int32 row.2 = row.2) : ReadableRow row :=
  ⟨fun c hc => (nameChar_of_isAlphanum (h c hc)).1, hoffset⟩

theorem dot_notMem {s : String} (h : Alphanumeric s) : '.' ∉ s.toList :=
  fun hdot => (nameChar_of_isAlphanum (h '.' hdot)).2 rfl

/-- The name of a fixup entry is split at its dot. -/
theorem split_fixupOf {call : FixupTableElement} (hmodule : Alphanumeric call.module)
    (hname : Alphanumeric call.name) (hne : call.name ≠ "") :
    split '.' (fixupOf call).module = [call.module, call.name] := by
  have htl : (fixupOf call).module.toList = call.module.toList ++ '.' :: call.name.toList := by
    simp [fixupOf, String.toList_append]
  have hempty : call.name.toList ≠ [] := by simpa using hne
  unfold split
  rw [if_pos (by simp [htl]), htl, List.splitOn_append_cons_self_of_not_mem (dot_notMem hmodule),
    List.splitOn_eq_singleton (dot_notMem hname)]
  simp [hempty]

theorem readable_fixup {call : FixupTableElement} (hmodule : Alphanumeric call.module)
    (hname : Alphanumeric call.name) (hoffset : int32 call.offset = call.offset) :
    ReadableRow ((fixupOf call).module, (fixupOf call).offset) := by
  refine ⟨fun c hc => ?_, hoffset⟩
  simp only [fixupOf, String.toList_append, List.mem_append] at hc
  rcases hc with (hc | hc) | hc
  · exact (nameChar_of_isAlphanum (hmodule c hc)).1
  · have : c = '.' := by simpa using hc
    subst this
    exact ⟨by decide, by decide⟩
  · exact (nameChar_of_isAlphanum (hname c hc)).1

section Scan

variable {α : Type} {entry : String → Option (Option Int → α)} {f f' : RandomAccessFile}
  {t : List Byte} {p : Nat}

theorem setFileOffset_run (hp : f.filePointer = 4 * p) : setFileOffset p f = .ok () f := by
  unfold setFileOffset
  rw [if_neg (by omega), modify_run, Int.toNat_natCast, RandomAccessFile.seek, Nat.mul_comm, ← hp]

/-- Before its first row the table is where the file pointer is. -/
theorem readTable_eq (hp : f.filePointer = 4 * p) (size : Int) :
    readTable entry p size f = readRows entry (p + size) (f.contents.length + 1) f := by
  unfold readTable
  rw [bind_ok (setFileOffset_run hp), bind_ok get_run]

theorem length_le_tableLength (rows : List Row) : rows.length ≤ tableLength rows := by
  induction rows with
  | nil => simp
  | cons row rows ih =>
    have := rowLength_pos row.1
    rw [List.length_cons, tableLength_cons]
    omega

theorem length_le_contents {rows : List Row} (hrest : f.rest = bytesOf (writeTable rows) ++ t) :
    rows.length ≤ f.contents.length := by
  have h := f.length_rest_le
  rw [hrest, List.length_append, length_bytesOf, length_writeTable] at h
  have := length_le_tableLength rows
  omega

theorem readTable_run (rows : List Row) {make : Row → Option Int → α}
    (hrows : ∀ row ∈ rows, ReadableRow row) (hentry : ∀ row ∈ rows, entry row.1 = some (make row))
    (hp : f.filePointer = 4 * p) (hrest : f.rest = bytesOf (writeTable rows) ++ t)
    (hsize : tableLength rows < 2 ^ 31) :
    readTable entry p (int32 (tableLength rows)) f =
      .ok (some (rows.map fun row => make row (some row.2))) (f.skip (4 * tableLength rows)) := by
  rw [readTable_eq hp, (int32_natCast _).mpr hsize]
  exact readRows_run rows hrows hentry hp rfl hrest (Nat.lt_succ_of_le (length_le_contents hrest))

/-- A table whose length does not fit into an `int` is not read as it was written. -/
theorem readTable_short (rows : List Row) {make : Row → Option Int → α}
    (hrows : ∀ row ∈ rows, ReadableRow row) (hentry : ∀ row ∈ rows, entry row.1 = some (make row))
    (hnames : ∀ row ∈ rows, row.1.length + 1 < 2 ^ 31) (hp : f.filePointer = 4 * p)
    (hrest : f.rest = bytesOf (writeTable rows) ++ t) (hsize : 2 ^ 31 ≤ tableLength rows)
    {l : List α} (h : readTable entry p (int32 (tableLength rows)) f = .ok (some l) f') :
    l.length < rows.length := by
  rw [readTable_eq hp] at h
  rcases List.eq_nil_or_concat rows with rfl | ⟨init, last, rfl⟩
  · simp at hsize
  · rw [List.concat_eq_append] at *
    have hlast : rowLength last.1 ≤ 2 ^ 29 + 2 := by
      have := hnames last (by simp)
      unfold rowLength
      dsimp only
      split <;> omega
    have hsum : tableLength (init ++ [last]) = tableLength init + rowLength last.1 := by
      simp [tableLength]
    have hwrap := int32_le_sub hsize
    refine readRows_short init last (fun row hrow => hrows row ?_) (fun row hrow => hentry row ?_)
      hp (by omega) hrest h
    all_goals exact List.mem_append_left _ hrow

end Scan

/-- The entry that a row of the symbol table is read as. -/
def offsetOfRow (row : Row) (offset : Option Int) : ReadOffset := (row.1, offset)

/-- The entry that a row of the fixup table is read as. -/
def fixupOfRow (row : Row) (offset : Option Int) : ReadFixup :=
  (((split '.' row.1)[0]?.getD "", (split '.' row.1)[1]?.getD ""), offset)

section File

variable (g : CodeGenerator) (map : List Row) (calls : List FixupTableElement)

/-- The file that is written, before it is read. -/
def writtenFile : RandomAccessFile := .ofBytes (bytesOf (writeObjectFile g map))

/-- **The file is read back**: both tables and, from its first word on, the code. -/
def RoundTrips : Prop :=
  ∃ scanned f₁ f₂, scanFile (writtenFile g map) = .ok (.ok scanned) f₁ ∧
    scanned.offsetTable = some (map.map fun row => (row.1, some row.2)) ∧
    scanned.fixupTable =
      some (calls.map fun call => ((call.module, call.name), some call.offset)) ∧
    (f₁.seek (scanned.opCodeOffset.toNat * 4)).rest = bytesOf g.writeOpCode ∧
    getOpCode scanned.opCodeOffset f₁ = .ok g.writeOpCode f₂

variable {g map calls} {f f' : RandomAccessFile}

/-! ### the rows -/

theorem Writable.perm (h : Writable g map calls) : map.Perm (globalRows g.symbolTable) := by
  rw [← getGlobalSymList_eq h.distinct]
  exact h.order

theorem Writable.tableLength_map (h : Writable g map calls) :
    tableLength map = tableLength (globalRows g.symbolTable) := (h.perm.map _).sum_nat

theorem Writable.readable_map (h : Writable g map calls) : ∀ row ∈ map, ReadableRow row :=
  fun row hrow =>
    have hrow := h.symbols row (h.perm.mem_iff.mp hrow)
    readableRow_of_alphanumeric hrow.1 hrow.2.2

theorem Writable.fixupRows_eq (h : Writable g map calls) : fixupRows g.fixupTable =
    calls.map fun call => ((fixupOf call).module, (fixupOf call).offset) := by
  rw [h.fixups, fixupRows, List.map_map]
  rfl

theorem Writable.readable_fixups (h : Writable g map calls) :
    ∀ row ∈ fixupRows g.fixupTable, ReadableRow row := by
  rw [h.fixupRows_eq, List.forall_mem_map]
  intro call hcall
  obtain ⟨⟨hmodule, _⟩, ⟨hname, _⟩, _, hoffset⟩ := h.calls call hcall
  exact readable_fixup hmodule hname hoffset

theorem Writable.fixupEntry_eq (h : Writable g map calls) :
    ∀ row ∈ fixupRows g.fixupTable, fixupEntry row.1 = some (fixupOfRow row) := by
  rw [h.fixupRows_eq, List.forall_mem_map]
  intro call hcall
  obtain ⟨⟨hmodule, _⟩, ⟨hname, hne⟩, _⟩ := h.calls call hcall
  unfold fixupEntry fixupOfRow
  dsimp only
  rw [split_fixupOf hmodule hname hne]
  rfl

/-- The fixup entries with their names split are the calls. -/
theorem Writable.map_fixupRows (h : Writable g map calls) :
    ((fixupRows g.fixupTable).map fun row => fixupOfRow row (some row.2)) =
      calls.map fun call => ((call.module, call.name), some call.offset) := by
  rw [h.fixupRows_eq, List.map_map]
  refine List.map_congr_left fun call hcall => ?_
  obtain ⟨⟨hmodule, _⟩, ⟨hname, hne⟩, _⟩ := h.calls call hcall
  simp only [Function.comp_apply, fixupOfRow, split_fixupOf hmodule hname hne]
  rfl

/-! ### the parts of the file -/

/-- Words that are skipped. -/
theorem skip_words (p n : Nat) : (f.skip (4 * p)).skip (4 * n) = f.skip (4 * (p + n)) := by
  rw [skip_skip, ← Nat.mul_add]

theorem skip_word (p : Nat) : (f.skip (4 * p)).skip 4 = f.skip (4 * (p + 1)) := skip_words p 1

theorem filePointer_writtenFile (p : Nat) :
    ((writtenFile g map).skip (4 * p)).filePointer = 4 * p := Nat.zero_add _

theorem seek_writtenFile (p : Nat) : ((writtenFile g map).skip (4 * p)).seek (4 * p) =
    (writtenFile g map).skip (4 * p) := by
  conv_rhs => rw [skip]
  rw [show (writtenFile g map).filePointer + 4 * p = 4 * p from filePointer_writtenFile p]
  rfl

theorem rest_writtenFile : (writtenFile g map).rest =
    intBytes 0 ++ (intBytes (mainCall g.mainAddr) ++
      (intBytes (BitVec.ofInt 32 (symbolTableLength g.symbolTable)) ++ (bytesOf (writeTable map) ++
        (intBytes (BitVec.ofInt 32 (getLenghtofTable g.fixupTable)) ++
          (bytesOf (writeTable (fixupRows g.fixupTable)) ++ bytesOf g.writeOpCode))))) := by
  simp [writtenFile, writeObjectFile]

theorem int32_int32 (n : Int) : int32 (int32 n) = int32 n := by
  unfold int32
  exact Int.bmod_bmod

/-- The first three words are read. -/
theorem scanFile_eq : scanFile (writtenFile g map) =
    scanTables (some (mainCall g.mainAddr).toInt) (int32 (tableLength (globalRows g.symbolTable)))
      ((writtenFile g map).skip (4 * 3)) := by
  have h0 := @rest_writtenFile g map
  have h1 := rest_skip_int h0
  have h2 := rest_skip_int h1
  rw [skip_skip] at h2
  have hsize : (BitVec.ofInt 32 (symbolTableLength g.symbolTable)).toInt =
      int32 (tableLength (globalRows g.symbolTable)) := by
    rw [symbolTableLength_eq, toInt_ofInt (int32_int32 _)]
  unfold scanFile
  rw [bind_ok (readNextWord_run h0), if_neg (by decide), bind_ok (readNextWord_run h1), skip_skip,
    bind_ok (readNextWord_run h2), hsize, skip_skip]

theorem rest_offsetTable : ((writtenFile g map).skip (4 * 3)).rest =
    bytesOf (writeTable map) ++ (intBytes (BitVec.ofInt 32 (getLenghtofTable g.fixupTable)) ++
      (bytesOf (writeTable (fixupRows g.fixupTable)) ++ bytesOf g.writeOpCode)) := by
  have h := rest_skip_int (rest_skip_int (rest_skip_int (@rest_writtenFile g map)))
  rwa [skip_skip, skip_skip] at h

/-- Behind a table that was read, its words are skipped. -/
theorem rest_skip_table {rows : List Row} {t : List Byte}
    (h : f.rest = bytesOf (writeTable rows) ++ t) : (f.skip (4 * tableLength rows)).rest = t := by
  rw [← length_writeTable, ← length_bytesOf]
  exact rest_skip _ h

/-- The length of the fixup table is read behind the offset table. -/
theorem readNextWord_size (hrest : f.rest =
    intBytes (BitVec.ofInt 32 (getLenghtofTable g.fixupTable)) ++
      (bytesOf (writeTable (fixupRows g.fixupTable)) ++ bytesOf g.writeOpCode)) :
    readNextWord f = .ok (some (int32 (tableLength (fixupRows g.fixupTable)))) (f.skip 4) := by
  rw [readNextWord_run hrest, getLenghtofTable_eq, toInt_ofInt (int32_int32 _)]

theorem readCommands_run (words : List Word) {fuel : Nat} (hfuel : words.length < fuel)
    (hrest : f.rest = bytesOf words) :
    readCommands fuel f = .ok words (f.skip (4 * words.length)) := by
  obtain ⟨fuel, rfl⟩ := Nat.exists_eq_succ_of_ne_zero (Nat.ne_of_gt (Nat.zero_lt_of_lt hfuel))
  induction words generalizing f fuel with
  | nil =>
    rw [readCommands, bind_ok (readInt_end hrest)]
    rfl
  | cons w words ih =>
    obtain ⟨fuel, rfl⟩ := Nat.exists_eq_succ_of_ne_zero
      (Nat.ne_of_gt (Nat.zero_lt_of_lt (Nat.lt_of_succ_lt_succ hfuel)))
    rw [readCommands, bind_ok (readInt_run hrest)]
    dsimp only
    rw [bind_ok (ih (rest_skip_int hrest) fuel (by simpa using hfuel)), pure_run, skip_skip,
      List.length_cons, Nat.mul_add, Nat.add_comm]

/-- **The code is read from where the tables end.** -/
theorem getOpCode_run {p : Nat} (hp : f.filePointer = 4 * p) {words : List Word}
    (hrest : f.rest = bytesOf words) :
    getOpCode p f = .ok words (f.skip (4 * words.length)) := by
  have hlength := f.length_rest_le
  rw [hrest, length_bytesOf] at hlength
  unfold getOpCode
  rw [bind_ok (setFileOffset_run hp), bind_ok get_run]
  exact readCommands_run words (by omega) hrest

/-- What a scan that succeeded has read. -/
theorem scanTables_ok {mainInstruction : Option Int} {offsetTableSize : Int} {scanned : Scanned}
    (h : scanTables mainInstruction offsetTableSize f = .ok (.ok scanned) f') :
    ∃ f₁ size f₂,
      readOffsetTable (getCurrentFileOffset f) offsetTableSize f = .ok scanned.offsetTable f₁ ∧
      readNextWord f₁ = .ok (some size) f₂ ∧
      readFixupTable (getCurrentFileOffset f₂) size f₂ = .ok scanned.fixupTable f' := by
  unfold scanTables at h
  rw [bind_ok get_run] at h
  obtain ⟨offsetTable, f₁, hoffset, h⟩ := bind_eq_ok h
  obtain ⟨size, f₂, hsize, h⟩ := bind_eq_ok h
  cases size with
  | none =>
    injection h with h
    cases h
  | some size =>
    dsimp only at h
    rw [bind_ok get_run] at h
    obtain ⟨fixupTable, f₃, hfixup, h⟩ := bind_eq_ok h
    rw [bind_ok get_run, pure_run] at h
    injection h with h hf
    injection h with h
    subst h hf
    exact ⟨f₁, size, f₂, hoffset, hsize, hfixup⟩

/-! ### the file as a whole -/

theorem rest_fixupSize : ((writtenFile g map).skip (4 * (3 + tableLength map))).rest =
    intBytes (BitVec.ofInt 32 (getLenghtofTable g.fixupTable)) ++
      (bytesOf (writeTable (fixupRows g.fixupTable)) ++ bytesOf g.writeOpCode) := by
  rw [← skip_words]
  exact rest_skip_table rest_offsetTable

theorem rest_fixupTable : ((writtenFile g map).skip (4 * (3 + tableLength map + 1))).rest =
    bytesOf (writeTable (fixupRows g.fixupTable)) ++ bytesOf g.writeOpCode := by
  rw [← skip_word]
  exact rest_skip_int rest_fixupSize

/-- Where the code starts, in words. -/
def opCodeStart (g : CodeGenerator) (map : List Row) : Nat :=
  3 + tableLength map + 1 + tableLength (fixupRows g.fixupTable)

theorem rest_opCode :
    ((writtenFile g map).skip (4 * opCodeStart g map)).rest = bytesOf g.writeOpCode := by
  rw [opCodeStart, ← skip_words]
  exact rest_skip_table rest_fixupTable

theorem readOffsetTable_run (h : Writable g map calls) (hsize : tableLength map < 2 ^ 31) :
    readOffsetTable (3 : Nat) (int32 (tableLength (globalRows g.symbolTable)))
        ((writtenFile g map).skip (4 * 3)) =
      .ok (some (map.map fun row => (row.1, some row.2)))
        ((writtenFile g map).skip (4 * (3 + tableLength map))) := by
  have hentry : ∀ row ∈ map, offsetEntry row.1 = some (offsetOfRow row) := fun _ _ => rfl
  rw [← h.tableLength_map, ← skip_words]
  exact readTable_run map h.readable_map hentry (filePointer_writtenFile 3) rest_offsetTable hsize

theorem readFixupTable_run (h : Writable g map calls)
    (hsize : tableLength (fixupRows g.fixupTable) < 2 ^ 31) :
    readFixupTable (3 + tableLength map + 1 : Nat) (int32 (tableLength (fixupRows g.fixupTable)))
        ((writtenFile g map).skip (4 * (3 + tableLength map + 1))) =
      .ok (some (calls.map fun call => ((call.module, call.name), some call.offset)))
        ((writtenFile g map).skip (4 * opCodeStart g map)) := by
  rw [opCodeStart, ← skip_words (3 + tableLength map + 1), ← h.map_fixupRows]
  exact readTable_run _ h.readable_fixups h.fixupEntry_eq (filePointer_writtenFile _)
    rest_fixupTable hsize

/-- A written file whose tables have lengths that fit into an `int`. -/
theorem scanFile_run (h : Writable g map calls) (hsymbols : tableLength map < 2 ^ 31)
    (hfixups : tableLength (fixupRows g.fixupTable) < 2 ^ 31) :
    scanFile (writtenFile g map) =
      .ok (.ok { mainInstruction := some (mainCall g.mainAddr).toInt
                 offsetTable := some (map.map fun row => (row.1, some row.2))
                 fixupTable := some (calls.map fun call =>
                   ((call.module, call.name), some call.offset))
                 opCodeOffset := opCodeStart g map })
        ((writtenFile g map).skip (4 * opCodeStart g map)) := by
  rw [scanFile_eq]
  unfold scanTables
  rw [bind_ok get_run, getCurrentFileOffset_eq (filePointer_writtenFile 3),
    bind_ok (readOffsetTable_run h hsymbols), bind_ok (readNextWord_size rest_fixupSize), skip_word]
  dsimp only
  rw [bind_ok get_run, getCurrentFileOffset_eq (filePointer_writtenFile _),
    bind_ok (readFixupTable_run h hfixups), bind_ok get_run,
    getCurrentFileOffset_eq (filePointer_writtenFile _), pure_run]

/-- The symbol table is not read back when its length does not fit into an `int`. -/
theorem tableLength_lt_of_roundTrips (h : Writable g map calls) (hrt : RoundTrips g map calls) :
    tableLength map < 2 ^ 31 := by
  obtain ⟨scanned, f₁, f₂, hscan, hoffsets, -⟩ := hrt
  rw [scanFile_eq] at hscan
  obtain ⟨f₃, size, f₄, hread, -⟩ := scanTables_ok hscan
  rw [getCurrentFileOffset_eq (filePointer_writtenFile 3), hoffsets, ← h.tableLength_map] at hread
  by_contra hsize
  have hentry : ∀ row ∈ map, offsetEntry row.1 = some (offsetOfRow row) := fun _ _ => rfl
  have hshort := readTable_short map h.readable_map hentry
    (fun row hrow => (h.symbols row (h.perm.mem_iff.mp hrow)).2.1) (filePointer_writtenFile 3)
    rest_offsetTable (Nat.le_of_not_lt hsize) hread
  rw [List.length_map] at hshort
  exact Nat.lt_irrefl _ hshort

/-- Nor is the fixup table. -/
theorem fixupLength_lt_of_roundTrips (h : Writable g map calls) (hrt : RoundTrips g map calls) :
    tableLength (fixupRows g.fixupTable) < 2 ^ 31 := by
  have hsymbols := tableLength_lt_of_roundTrips h hrt
  obtain ⟨scanned, f₁, f₂, hscan, -, hfixups, -⟩ := hrt
  rw [scanFile_eq] at hscan
  obtain ⟨f₃, size, f₄, hread, hsize, hread'⟩ := scanTables_ok hscan
  rw [getCurrentFileOffset_eq (filePointer_writtenFile 3), readOffsetTable_run h hsymbols] at hread
  injection hread with _ hf
  subst hf
  rw [readNextWord_size rest_fixupSize, skip_word] at hsize
  injection hsize with hsize hf
  injection hsize with hsize
  subst hsize hf
  rw [getCurrentFileOffset_eq (filePointer_writtenFile _), hfixups] at hread'
  by_contra hlong
  have hnames : ∀ row ∈ fixupRows g.fixupTable, row.1.length + 1 < 2 ^ 31 := by
    rw [h.fixupRows_eq, List.forall_mem_map]
    exact fun call hcall => (h.calls call hcall).2.2.1
  have hshort := readTable_short _ h.readable_fixups h.fixupEntry_eq hnames
    (filePointer_writtenFile _) rest_fixupTable (Nat.le_of_not_lt hlong) hread'
  rw [List.length_map, h.fixupRows_eq, List.length_map] at hshort
  exact Nat.lt_irrefl _ hshort

/-- The tables and the code are read back exactly if the tables' lengths fit into an `int`. -/
theorem round_trips_iff (h : Writable g map calls) : RoundTrips g map calls ↔
    tableLength map < 2 ^ 31 ∧ tableLength (fixupRows g.fixupTable) < 2 ^ 31 := by
  constructor
  · exact fun hrt => ⟨tableLength_lt_of_roundTrips h hrt, fixupLength_lt_of_roundTrips h hrt⟩
  · rintro ⟨hsymbols, hfixups⟩
    refine ⟨_, _, _, scanFile_run h hsymbols hfixups, rfl, rfl, ?_,
      getOpCode_run (filePointer_writtenFile _) rest_opCode⟩
    rw [Int.toNat_natCast, Nat.mul_comm _ 4, seek_writtenFile, rest_opCode]

/-- A class with a field, a method and two calls; no two names are of the same length modulo 4. -/
def callingTwice : CodeGenerator :=
  { CodeGenerator.init with
    symbolTable :=
      ((SymbolTableList.empty.addSym "x" .var none 1 true).1.addSym "main" .method none 0
        true).1.modifyCell "main" fun cell => { cell with proc := 3 }
    fixupTable := [{ module := "List", name := "next", offset := 7 },
      { module := "Util", name := "set", offset := 12 }].map fixupOf }

theorem callingTwice_writable : Writable callingTwice [("main", 3), ("x", 0)]
    [{ module := "List", name := "next", offset := 7 },
     { module := "Util", name := "set", offset := 12 }] where
  order := List.Perm.swap _ _ _
  distinct := by decide
  symbols := by
    intro row hrow
    rcases List.mem_cons.mp hrow with rfl | hrow
    · exact ⟨by simp [Alphanumeric], by decide, by decide⟩
    · rw [List.mem_singleton.mp hrow]
      exact ⟨by simp [Alphanumeric], by decide, by decide⟩
  fixups := rfl
  calls := by
    intro call hcall
    rcases List.mem_cons.mp hcall with rfl | hcall
    · exact ⟨⟨by simp [Alphanumeric], by decide⟩, ⟨by simp [Alphanumeric], by decide⟩,
        by decide, by decide⟩
    · rw [List.mem_singleton.mp hcall]
      exact ⟨⟨by simp [Alphanumeric], by decide⟩, ⟨by simp [Alphanumeric], by decide⟩,
        by decide, by decide⟩

theorem round_trips_twice : RoundTrips callingTwice [("main", 3), ("x", 0)]
    [{ module := "List", name := "next", offset := 7 },
     { module := "Util", name := "set", offset := 12 }] :=
  (round_trips_iff callingTwice_writable).mpr ⟨by decide, by decide⟩

/-! ### what the linker works on -/

/-- The tables and the code of a file, where no offset is `null`. -/
def Scanned.contents (scanned : Scanned) (opCode : List Word) : Option Contents := do
  let offsets ← scanned.offsetTable
  let fixups ← scanned.fixupTable
  let offsetTable ← offsets.mapM fun e =>
    e.2.map fun offset => ({ name := e.1, offset := offset } : OffsetTableElement)
  let fixupTable ← fixups.mapM fun e => e.2.map fun offset =>
    ({ module := e.1.1, name := e.1.2, offset := offset } : FixupTableElement)
  return { offsetTable := offsetTable, fixupTable := fixupTable, opCode := opCode }

theorem mapM_some_eq {β γ δ : Type} (l : List β) (g : β → γ) (k : γ → Option δ) (d : β → δ)
    (h : ∀ x, k (g x) = some (d x)) : (l.map g).mapM k = some (l.map d) := by
  induction l with
  | nil => rfl
  | cons x l ih => simp [h x, ih]

/-- What the linker works on is what the code generator had. -/
theorem scanned_contents (h : Writable g map calls) (hsymbols : tableLength map < 2 ^ 31)
    (hfixups : tableLength (fixupRows g.fixupTable) < 2 ^ 31) :
    ∃ scanned f₁ f₂, scanFile (writtenFile g map) = .ok (.ok scanned) f₁ ∧
      getOpCode scanned.opCodeOffset f₁ = .ok g.writeOpCode f₂ ∧
      scanned.contents g.writeOpCode =
        some { offsetTable := map.map fun row => { name := row.1, offset := row.2 }
               fixupTable := calls
               opCode := g.writeOpCode } := by
  refine ⟨_, _, _, scanFile_run h hsymbols hfixups,
    getOpCode_run (filePointer_writtenFile _) rest_opCode, ?_⟩
  have hoffsetTable := mapM_some_eq map (fun row => (row.1, some row.2))
    (fun e => e.2.map fun offset => ({ name := e.1, offset := offset } : OffsetTableElement))
    (fun row => { name := row.1, offset := row.2 }) fun _ => rfl
  have hfixupTable := mapM_some_eq calls
    (fun call => ((call.module, call.name), some call.offset))
    (fun e => e.2.map fun offset =>
      ({ module := e.1.1, name := e.1.2, offset := offset } : FixupTableElement)) id fun _ => rfl
  rw [List.map_id] at hfixupTable
  simp only [Scanned.contents, Option.bind_eq_bind, Option.bind_some, hoffsetTable, hfixupTable]
  rfl

/-! ### tables of any length -/

/-- A class with as many calls as make its fixup table wrap around. -/
def callingOften : CodeGenerator :=
  { CodeGenerator.init with fixupTable := List.replicate (2 ^ 30) { module := "A.f", offset := 0 } }

theorem callingOften_writable : Writable callingOften []
    (List.replicate (2 ^ 30) { module := "A", name := "f", offset := 0 }) where
  order := List.Perm.nil
  distinct := List.nodup_nil
  symbols := by
    intro row hrow
    cases hrow
  fixups := by
    rw [List.map_replicate]
    rfl
  calls := by
    intro call hcall
    rw [List.eq_of_mem_replicate hcall]
    exact ⟨⟨by simp [Alphanumeric], by decide⟩, ⟨by simp [Alphanumeric], by decide⟩,
      by decide, by decide⟩

theorem tableLength_callingOften : tableLength (fixupRows callingOften.fixupTable) = 2 ^ 31 := by
  show ((List.replicate (2 ^ 30) ({ module := "A.f", offset := 0 } : FixupEntry)).map _
    |>.map fun row : Row => rowLength row.1).sum = _
  rw [List.map_replicate, List.map_replicate, List.sum_replicate_nat]
  rfl

theorem often_called_not_read_back : ¬ ∀ g map calls, Writable g map calls →
    RoundTrips g map calls := by
  intro h
  have hlt := fixupLength_lt_of_roundTrips callingOften_writable (h _ _ _ callingOften_writable)
  rw [tableLength_callingOften] at hlt
  exact Nat.lt_irrefl _ hlt

end File

end Linker
