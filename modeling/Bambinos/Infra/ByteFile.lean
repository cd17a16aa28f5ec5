import Bambinos.Infra.Java

/-!
# Files of bytes

`RandomAccessFile`: the bytes of a file and where it is read next.

* `intBytes` — the bytes of an `int`, the highest first
* `readByte`, `readInt` — `none` at the end of the file
* `rest` — what is still ahead; everything that is read is described by it
* `readInt_run` — what `writeInt` wrote is read back
-/

namespace Infra

/-! ## bytes -/

abbrev Byte := BitVec 8

/-- The bytes of an `int` as `writeInt` writes them. -/
def intBytes (n : Word) : List Byte :=
  [(n >>> 24).setWidth 8, (n >>> 16).setWidth 8, (n >>> 8).setWidth 8, n.setWidth 8]

/-- The `int` that four bytes are read as. -/
def intOfBytes (a b c d : Byte) : Word :=
  (a.setWidth 32 <<< 24) + (b.setWidth 32 <<< 16) + (c.setWidth 32 <<< 8) + d.setWidth 32

theorem length_intBytes (n : Word) : (intBytes n).length = 4 := rfl

theorem toNat_intOfBytes (a b c d : Byte) :
    (intOfBytes a b c d).toNat =
      a.toNat * 2 ^ 24 + b.toNat * 2 ^ 16 + c.toNat * 2 ^ 8 + d.toNat := by
  have ha := a.isLt
  have hb := b.isLt
  have hc := c.isLt
  have hd := d.isLt
  simp only [intOfBytes, BitVec.toNat_add, BitVec.toNat_shiftLeft, BitVec.toNat_setWidth,
    Nat.shiftLeft_eq]
  omega

theorem intOfBytes_intBytes (n : Word) :
    intOfBytes ((n >>> 24).setWidth 8) ((n >>> 16).setWidth 8) ((n >>> 8).setWidth 8)
      (n.setWidth 8) = n := by
  apply BitVec.eq_of_toNat_eq
  have hn := n.isLt
  rw [toNat_intOfBytes]
  simp only [BitVec.toNat_setWidth, BitVec.toNat_ushiftRight, Nat.shiftRight_eq_div_pow]
  omega

theorem intBytes_intOfBytes (a b c d : Byte) : intBytes (intOfBytes a b c d) = [a, b, c, d] := by
  have ha := a.isLt
  have hb := b.isLt
  have hc := c.isLt
  have hd := d.isLt
  have h := toNat_intOfBytes a b c d
  simp only [intBytes, List.cons.injEq, and_true]
  refine ⟨?_, ?_, ?_, ?_⟩ <;>
  · apply BitVec.eq_of_toNat_eq
    simp only [BitVec.toNat_setWidth, BitVec.toNat_ushiftRight, Nat.shiftRight_eq_div_pow, h]
    omega

/-- The bytes of a file of `int`s. -/
def bytesOf (words : List Word) : List Byte := words.flatMap intBytes

@[simp] theorem bytesOf_nil : bytesOf [] = [] := rfl

@[simp] theorem bytesOf_cons (w : Word) (ws : List Word) :
    bytesOf (w :: ws) = intBytes w ++ bytesOf ws := rfl

@[simp] theorem bytesOf_append (l r : List Word) : bytesOf (l ++ r) = bytesOf l ++ bytesOf r :=
  List.flatMap_append

@[simp] theorem length_bytesOf (words : List Word) :
    (bytesOf words).length = 4 * words.length := by
  induction words with
  | nil => rfl
  | cons w ws ih =>
    rw [bytesOf_cons, List.length_append, length_intBytes, ih, List.length_cons]
    omega

/-! ## the file -/

structure RandomAccessFile where
  contents : List Byte
  filePointer : Nat
deriving DecidableEq, Repr

namespace RandomAccessFile

/-- A file that has just been opened. -/
def ofBytes (contents : List Byte) : RandomAccessFile := { contents := contents, filePointer := 0 }

/-- What is ahead of the file pointer. -/
def rest (f : RandomAccessFile) : List Byte := f.contents.drop f.filePointer

/-- The file pointer moved over `n` bytes. -/
def skip (f : RandomAccessFile) (n : Nat) : RandomAccessFile :=
  { f with filePointer := f.filePointer + n }

def seek (f : RandomAccessFile) (pos : Nat) : RandomAccessFile := { f with filePointer := pos }

variable {f : RandomAccessFile}

@[simp] theorem rest_ofBytes (contents : List Byte) : (ofBytes contents).rest = contents := rfl

@[simp] theorem contents_skip (n : Nat) : (f.skip n).contents = f.contents := rfl

@[simp] theorem filePointer_skip (n : Nat) : (f.skip n).filePointer = f.filePointer + n := rfl

@[simp] theorem skip_zero : f.skip 0 = f := rfl

@[simp] theorem skip_skip (m n : Nat) : (f.skip m).skip n = f.skip (m + n) := by
  simp only [skip, Nat.add_assoc]

theorem rest_skip (read : List Byte) {t : List Byte} (h : f.rest = read ++ t) :
    (f.skip read.length).rest = t := by
  unfold rest at h ⊢
  rw [contents_skip, filePointer_skip, ← List.drop_drop, h, List.drop_left]

theorem rest_skip_int {w : Word} {t : List Byte} (h : f.rest = intBytes w ++ t) :
    (f.skip 4).rest = t := rest_skip (intBytes w) h

/-- A file is at least as long as what is ahead. -/
theorem length_rest_le : f.rest.length ≤ f.contents.length := by
  unfold rest
  rw [List.length_drop]
  omega

/-! ## reading -/

/-- `none` at the end of the file. -/
def readByte : Method RandomAccessFile (Option Byte) := do
  match (← get).rest with
  | b :: _ =>
    modify (·.skip 1)
    return some b
  | [] => return none

/-- `none` when the file ends first. What is left of it is then read over. -/
def readInt : Method RandomAccessFile (Option Word) := do
  match (← get).rest with
  | a :: b :: c :: d :: _ =>
    modify (·.skip 4)
    return some (intOfBytes a b c d)
  | rest =>
    modify (·.skip rest.length)
    return none

theorem readByte_run {b : Byte} {t : List Byte} (h : f.rest = b :: t) :
    readByte f = .ok (some b) (f.skip 1) := by
  unfold readByte
  rw [bind_ok (get_run), h]
  rfl

theorem readInt_run {w : Word} {t : List Byte} (h : f.rest = intBytes w ++ t) :
    readInt f = .ok (some w) (f.skip 4) := by
  unfold readInt
  rw [bind_ok (get_run), h]
  show EStateM.Result.ok (some (intOfBytes _ _ _ _)) _ = _
  rw [intOfBytes_intBytes]

theorem readInt_end (h : f.rest = []) : readInt f = .ok none f := by
  unfold readInt
  rw [bind_ok (get_run), h]
  rfl

end RandomAccessFile

end Infra
