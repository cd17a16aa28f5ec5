import Bambinos.Infra.ByteFile
import Bambinos.Linker.BinaryFile

/-!
# The bytes of an object file

`writeObjectFile` of the code generator and `scanFile` of the linker.

A name is written with a `=` behind it, four characters to a word, and filled up with `0`. Both
sides count in words. A table is preceded by its length, which is summed up in an `int`.

* `writeObjectFile` — the words of the file
* `scanFile`, `getOpCode` — what is read from its bytes

A `HashMap` is written in an order of its own. The writer takes that order as an argument.
-/

namespace Linker

open Infra Compiler

/-! ## the writer -/

/-- The string at hand, filled up to a multiple of four characters. -/
def makeCorrString (x : List Char) : List Char :=
  let mod := x.length % 4
  if mod ≠ 0 then x ++ List.replicate (4 - mod) '0' else x

/-- Four characters to a word. -/
def packWords : List Char → List Word
  | a :: b :: c :: d :: rest =>
    ((BitVec.ofNat 32 a.toNat <<< 24) + (BitVec.ofNat 32 b.toNat <<< 16)
      + (BitVec.ofNat 32 c.toNat <<< 8) + BitVec.ofNat 32 d.toNat) :: packWords rest
  | _ => []

/-- A row of a table: the name and the offset. -/
abbrev Row := String × Int

/-- A turn of the loop of `writeTable`. -/
def writeRow (row : Row) : List Word :=
  packWords (makeCorrString (row.1.toList ++ ['='])) ++ [BitVec.ofInt 32 row.2]

/-- Both `writeTable` methods. -/
def writeTable (rows : List Row) : List Word := rows.flatMap writeRow

/-- What a name adds to the length of its table. -/
def rowLength (name : String) : Nat :=
  let count := name.length + 1
  if count % 4 = 0 then count / 4 + 1 else count / 4 + 2

/-- `map.put(name, offset)`: the row of that name is replaced. -/
def put (map : List Row) (row : Row) : List Row := map.filter (·.1 != row.1) ++ [row]

/-- The rows that are put into the map, in the order of the declarations. -/
def globalRows (t : SymbolTableList) : List Row :=
  t.symList.map fun e => (e.cell.name, e.cell.proc)

/-- The entries of the map. -/
def getGlobalSymList (t : SymbolTableList) : List Row := (globalRows t).foldl put []

/-- The length that `getGlobalSymList` leaves in `symbolTableLength`. -/
def symbolTableLength (t : SymbolTableList) : Int :=
  t.symList.foldl (fun size e => int32 (size + rowLength e.cell.name)) 0

def getLenghtofTable (map : List FixupEntry) : Int :=
  map.foldl (fun size e => int32 (size + rowLength e.module)) 0

/-- The rows of the fixup table. -/
def fixupRows (map : List FixupEntry) : List Row := map.map fun e => (e.module, e.offset)

/-- The call of `main`, which stands behind the magic word. -/
def mainCall (mainAddr : Int) : Word :=
  if mainAddr < 0 then
    (BitVec.ofNat 32 OpCode.bsr.code <<< 26) + (1 <<< 25) + BitVec.ofInt 32 (0 - mainAddr)
  else
    (BitVec.ofNat 32 OpCode.bsr.code <<< 26) + BitVec.ofInt 32 mainAddr

/-- The words of the object file; `map` is the symbol table in the order of the `HashMap`. -/
def writeObjectFile (g : CodeGenerator) (map : List Row) : List Word :=
  [0, mainCall g.mainAddr, BitVec.ofInt 32 (symbolTableLength g.symbolTable)] ++ writeTable map
    ++ [BitVec.ofInt 32 (getLenghtofTable g.fixupTable)] ++ writeTable (fixupRows g.fixupTable)
    ++ g.writeOpCode

/-! ## the reader -/

/-- A method that reads the file. -/
abbrev R := Method RandomAccessFile

def readNextWord : R (Option Int) := do
  let currentWord ← RandomAccessFile.readInt
  return currentWord.map BitVec.toInt

/-- `-2` at the end of the file. -/
def readNextByte : R Int := do
  match ← RandomAccessFile.readByte with
  | some currentByte => return currentByte.toInt
  | none => return -2

/-- `(char) currentByte`. -/
def charOfByte (currentByte : Int) : Char := Char.ofNat (currentByte % 65536).toNat

/-- The loop of `readStringFromFile`. At the end of the file it does not end. -/
def readUntil (delimiter : Char) : Nat → List Char → Nat → R (List Char × Nat)
  | 0, _, _ => throw .timeout
  | fuel + 1, value, bytesRead => do
    let currentByte ← readNextByte
    if currentByte = delimiter.toNat then return (value, bytesRead)
    readUntil delimiter fuel (value ++ [charOfByte currentByte]) (bytesRead + 1)

/-- Reads `n` bytes and drops them. -/
def dropBytes : Nat → R Unit
  | 0 => pure ()
  | n + 1 => do
    let _ ← readNextByte
    dropBytes n

/-- Reads full words; what stands behind the delimiter is thrown away. -/
def readStringFromFile (stringDelimiter : Char) : R String := do
  -- no more bytes than the file has can be before the delimiter
  let fuel := (← get).contents.length
  let (value, bytesRead) ← readUntil stringDelimiter fuel [] 0
  let bytesToRead := (bytesRead + 1) % 4
  dropBytes (if bytesToRead > 0 then 4 - bytesToRead else 0)
  return String.ofList value

/-- The position in words, `-1` inside a word. -/
def getCurrentFileOffset (f : RandomAccessFile) : Int :=
  if f.filePointer % 4 = 0 then (f.filePointer / 4 : Nat) else -1

/-- A position before the start of the file is refused, and the pointer is left where it is. -/
def setFileOffset (offset : Int) : R Unit :=
  if offset < 0 then pure () else modify (·.seek (offset.toNat * 4))

/--
The loop of both tables, up to the end of the table. `entry` makes an entry of a name and an
offset; where it cannot, the table is `null`.
-/
def readRows {α : Type} (entry : String → Option (Option Int → α)) (tableEnd : Int) :
    Nat → R (Option (List α))
  | 0 => throw .timeout
  | fuel + 1 => do
    if getCurrentFileOffset (← get) < tableEnd then
      let name ← readStringFromFile '='
      match entry name with
      | none => return none
      | some currentElement =>
        let offset ← readNextWord
        let elements ← readRows entry tableEnd fuel
        return elements.map (currentElement offset :: ·)
    else return some []

/-- A name and its offset as they are read; the offset is `null` where the file ends before it. -/
abbrev ReadOffset := String × Option Int

/-- The module and the method of a fixup entry as they are read. -/
abbrev ReadFixup := (String × String) × Option Int

def offsetEntry (name : String) : Option (Option Int → ReadOffset) :=
  some fun offset => (name, offset)

def fixupEntry (path : String) : Option (Option Int → ReadFixup) :=
  match split '.' path with
  | [module, name] => some fun offset => ((module, name), offset)
  | _ => none

/-- Every row is at least a byte long, so the length of the file bounds the rows. -/
def readTable {α : Type} (entry : String → Option (Option Int → α)) (tableOffset tableSize : Int) :
    R (Option (List α)) := do
  setFileOffset tableOffset
  readRows entry (tableOffset + tableSize) ((← get).contents.length + 1)

def readOffsetTable : Int → Int → R (Option (List ReadOffset)) := readTable offsetEntry

def readFixupTable : Int → Int → R (Option (List ReadFixup)) := readTable fixupEntry

/-- What `scanFile` answers when the file is not an object file. -/
inductive ScanError where
  | invalidMagicWord | invalidFilestructure
deriving DecidableEq, Repr

/-- The fields that `scanFile` sets. A missing table is `null`. -/
structure Scanned where
  mainInstruction : Option Int
  offsetTable : Option (List ReadOffset)
  fixupTable : Option (List ReadFixup)
  opCodeOffset : Int
deriving DecidableEq, Repr

/-- The end of `scanFile`, from the offset table on. -/
def scanTables (mainInstruction : Option Int) (offsetTableSize : Int) :
    R (Except ScanError Scanned) := do
  let offsetTable ← readOffsetTable (getCurrentFileOffset (← get)) offsetTableSize
  match ← readNextWord with
  | none => return .error .invalidFilestructure
  | some fixupTableSize =>
    let fixupTable ← readFixupTable (getCurrentFileOffset (← get)) fixupTableSize
    return .ok { mainInstruction := mainInstruction, offsetTable := offsetTable,
                 fixupTable := fixupTable, opCodeOffset := getCurrentFileOffset (← get) }

def scanFile : R (Except ScanError Scanned) := do
  let magicWord ← readNextWord
  if magicWord ≠ some 0 then return .error .invalidMagicWord
  -- the call of main
  let mainInstruction ← readNextWord
  match ← readNextWord with
  | none => return .error .invalidFilestructure
  | some offsetTableSize => scanTables mainInstruction offsetTableSize

/-- The loop of `getOpCode`, up to the end of the file. -/
def readCommands : Nat → R (List Word)
  | 0 => throw .timeout
  | fuel + 1 => do
    match ← RandomAccessFile.readInt with
    | none => return []
    | some currentCommand =>
      let commands ← readCommands fuel
      return currentCommand :: commands

def getOpCode (opCodeOffset : Int) : R (List Word) := do
  setFileOffset opCodeOffset
  readCommands ((← get).contents.length + 1)

end Linker
