import Mathlib

/-!
# The argument block

`argblock.c`: the command is cut into words, which are handed to the process as `argc` and `argv`.

* `getArgumentBlockSize` — how large the block is, and how many arguments there are
* `formatArgumentBlock` — the bytes of the block
* `words` — what the arguments are to be
-/

namespace GeekOS

/-- The addresses and the `unsigned long`s. -/
def W : Nat := 2 ^ 32

/-- A C string, not so long that its length is not an `int`. -/
structure Command where
  chars : List UInt8
  nonzero : ∀ c ∈ chars, c ≠ 0
  length_lt : chars.length < 2 ^ 31

/-- `' '`, `'\t'`, `'\n'` and `'\r'`. -/
def isSpace (c : UInt8) : Bool := c = 32 || c = 9 || c = 10 || c = 13

def skipWhitespace (s : List UInt8) : List UInt8 := s.dropWhile isSpace

def getArgumentLen (s : List UInt8) : Nat := (s.takeWhile fun c => !isSpace c).length

/-- The loop of `Get_Argument_Block_Size`: the size and the number of the arguments in `s`; each
takes a character at least. -/
def argumentLoop : Nat → List UInt8 → Nat × Nat → Nat × Nat
  | 0, _, r => r
  | n + 1, s, (size, argCount) =>
    let s := skipWhitespace s
    if s = [] then (size, argCount)
    else
      let len := getArgumentLen s
      argumentLoop n (s.drop len) ((size + 4 + (len + 1)) % W, (argCount + 1) % W)

/-- The number of the arguments and the size. -/
def getArgumentBlockSize (command : Command) : Nat × Nat :=
  let (size, argCount) := argumentLoop (command.chars.length + 1) command.chars (4 + 4, 0)
  (argCount, (size + 4) % W)

/-- A word in memory. -/
def word (n : Nat) : List UInt8 :=
  [UInt8.ofNat n, UInt8.ofNat (n / 2 ^ 8), UInt8.ofNat (n / 2 ^ 16), UInt8.ofNat (n / 2 ^ 24)]

/-- The loop of `Format_Argument_Block`: `argv` and the strings, which go to `dst`. -/
def formatLoop (userAddress : Nat) : Nat → List UInt8 → Nat → List UInt8 × List UInt8
  | 0, _, _ => ([], [])
  | n + 1, s, dst =>
    let s := skipWhitespace s
    if s = [] then ([], [])
    else
      let len := getArgumentLen s
      let (argv, strings) := formatLoop userAddress n (s.drop len) (dst + len + 1)
      (word ((userAddress + dst) % W) ++ argv, s.take len ++ 0 :: strings)

def formatArgumentBlock (numArgs userAddress : Nat) (command : Command) : List UInt8 :=
  let (argv, strings) := formatLoop userAddress (command.chars.length + 1) command.chars
    (8 + (numArgs + 1) * 4)
  word numArgs ++ word ((userAddress + 8) % W) ++ argv ++ word 0 ++ strings

/-- The words of a command. -/
def words (command : Command) : List (List UInt8) :=
  (command.chars.splitOnP isSpace).filter (· ≠ [])

/-- `a\tbc `. -/
example : (formatArgumentBlock 2 4096 ⟨[97, 9, 98, 99, 32], by simp, by decide⟩).length =
    (getArgumentBlockSize ⟨[97, 9, 98, 99, 32], by simp, by decide⟩).2 := by
  decide

end GeekOS
