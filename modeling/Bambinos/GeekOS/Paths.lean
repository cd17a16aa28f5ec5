import Mathlib.Data.List.Basic

/-!
# Paths

The way from a path to a directory entry. Only the root directory of a file system is searched.

* `unpackPath` — `Unpack_Path` of `vfs.c`
* `lookupPath` — the search for the mount point, and `PFAT_Lookup` of `pfat.c` behind it
-/

namespace GeekOS

/-- The character between the parts of a path. -/
def slash : UInt8 := 47

def MAX_PREFIX_LEN : Nat := 16

/-- `Unpack_Path`: the prefix and the suffix of a path, which must start with a slash. -/
def unpackPath : List UInt8 → Option (List UInt8 × List UInt8)
  | [] => none
  | c :: path =>
    let pathPrefix := path.takeWhile (· ≠ slash)
    let suffix := path.dropWhile (· ≠ slash)
    if c ≠ slash ∨ pathPrefix.length = 0 ∨ MAX_PREFIX_LEN < pathPrefix.length then none
    -- a prefix alone stands for the root directory
    else some (pathPrefix, if suffix = [] then [slash] else suffix)

/-- A mounted file system, with the names in its root directory. -/
structure MountPoint (α : Type) where
  pathPrefix : List UInt8
  rootDir : List (List UInt8 × α)

variable {α : Type}

/-- `Lookup_Mount_Point`. -/
def lookupMountPoint (mountPointList : List (MountPoint α)) (pathPrefix : List UInt8) :
    Option (MountPoint α) :=
  mountPointList.find? (·.pathPrefix = pathPrefix)

/-- `PFAT_Lookup`. -/
def pfatLookup (rootDirEntry : α) (mountPoint : MountPoint α) (path : List UInt8) : Option α :=
  if path = [slash] then some rootDirEntry else mountPoint.rootDir.lookup (path.drop 1)

/-- `Do_Open` up to the directory entry. -/
def lookupPath (rootDirEntry : α) (mountPointList : List (MountPoint α)) (path : List UInt8) :
    Option α := do
  let (pathPrefix, suffix) ← unpackPath path
  let mountPoint ← lookupMountPoint mountPointList pathPrefix
  pfatLookup rootDirEntry mountPoint suffix

/-- What is found is the root directory, or in one. -/
theorem mem_of_lookupPath {rootDirEntry a : α} {mountPointList : List (MountPoint α)}
    {path : List UInt8} (h : lookupPath rootDirEntry mountPointList path = some a) :
    a = rootDirEntry ∨ ∃ m ∈ mountPointList, ∃ name, (name, a) ∈ m.rootDir := by
  unfold lookupPath at h
  simp only [Option.bind_eq_bind, Option.bind_eq_some_iff] at h
  obtain ⟨⟨pathPrefix, suffix⟩, -, m, hm, h⟩ := h
  unfold pfatLookup at h
  split at h
  · exact .inl (Option.some.inj h).symm
  · obtain ⟨l₁, l₂, heq, -⟩ := List.lookup_eq_some_iff.mp h
    exact .inr ⟨m, List.mem_of_find?_eq_some hm, suffix.drop 1, by rw [heq]; simp⟩

/-- `/c/a` -/
example : unpackPath [47, 99, 47, 97] = some ([99], [47, 97]) := by decide

end GeekOS
