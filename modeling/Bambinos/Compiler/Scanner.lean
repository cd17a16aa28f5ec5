import Bambinos.Compiler.Ident
import Bambinos.Infra.ByteFile

/-!
# `Scanner`

The scanner reads the source byte by byte and knows two bytes beyond the current one.

* `readNextByte` — one byte further
* `readNumberSymbol`, `readTextSymbol`, `readStringValue`, `readCharValue`, `readSymbol` — a token;
  numbers and words have to be followed by one of the bytes of a list
* `getSym` — the next token, past white space and comments
* `scan` — what repeated calls of `getSym` deliver

The fuel of a loop bounds its turns. A byte that is `null` throws where it is compared.
-/

namespace Compiler

open Infra

/-- An `Ident` as the scanner makes it: a byte that begins no token leaves its type `null`. -/
structure RawIdent where
  type : Option TokenID
  value : String
  lineNumber : Nat
deriving DecidableEq, Repr

/-- The static fields. -/
structure Scanner where
  file : RandomAccessFile
  currentByte : Option Byte
  nextByte : Option Byte
  /-- the byte behind `nextByte` -/
  nextNextByte : Option Byte
  currentLineNumber : Nat
deriving DecidableEq, Repr

namespace Scanner

def importSource (contents : List Byte) : Scanner :=
  { file := .ofBytes contents
    currentByte := none
    nextByte := none
    nextNextByte := none
    currentLineNumber := 1 }

/-! ## bytes -/

def charIsLetter (character : Byte) : Bool :=
  (64 < character.toInt && character.toInt < 91) || (96 < character.toInt && character.toInt < 123)

def charIsDigit (character : Byte) : Bool := 47 < character.toInt && character.toInt < 58

/-- `(char) (int) b` -/
def character (b : Byte) : Char := Char.ofNat (b.toInt % 65536).toNat

/-- The part of `readNextByte` behind the first two bytes. -/
def advance (s : Scanner) : Scanner :=
  { file := s.file.skip (min s.file.rest.length 1)
    currentByte := s.nextByte
    nextByte := s.nextNextByte
    nextNextByte := s.file.rest.head?
    currentLineNumber :=
      if s.nextByte = some 10 ∨ s.nextByte = some 13 then s.currentLineNumber + 1
      else s.currentLineNumber }

/-- Reads the next byte from the source file. At its end the exception is caught, and what had
been assigned before stays. -/
def readNextByte : Method Scanner Unit := do
  let s ← get
  match s.currentByte, s.file.rest with
  | some _, _ => set s.advance
  | none, b :: b' :: _ =>
    set ({ s with file := s.file.skip 2, nextByte := some b, nextNextByte := some b' }).advance
  | none, [b] => set { s with file := s.file.skip 1, nextByte := some b, nextNextByte := none }
  | none, [] => set { s with nextNextByte := none }

/-- `(currentByte == c) && (nextByte == d)` -/
def both (c d : Byte) : Method Scanner Bool := do
  if (← deref (← get).currentByte) = c then
    return (← deref (← get).nextByte) == d
  else
    return false

/-! ## reserved words -/

/-- The comparisons of `getIdentifier`. -/
def reserved : List (String × TokenID) :=
  [("package", .tPackage), ("import", .tImport), ("class", .tClass), ("public", .tPublic),
    ("static", .tStatic), ("return", .tReturn), ("void", .tVoid), ("null", .tNull),
    ("new", .tNew), ("if", .tIf), ("else", .tElse), ("while", .tWhile), ("int", .tInt),
    ("int[]", .tIntArray), ("boolean", .tBool), ("boolean[]", .tBoolArray), ("char", .tChar),
    ("char[]", .tCharArray), ("String", .tString), ("String[]", .tStringArray),
    ("true", .tTrue), ("false", .tFalse), ("println", .tPrint)]

/-- Finds the token of a word. -/
def getIdentifier (symbolValue : String) : TokenID :=
  (reserved.lookup symbolValue).getD .tSident

/-! ## tokens -/

def ident (type : TokenID) (value : String) : RawIdent :=
  { type := some type, value := value, lineNumber := 0 }

/-- The bytes that may follow a number. -/
def followNumber : List Byte := [32, 33, 37, 38, 41, 42, 43, 44, 45, 47, 59, 60, 61, 62, 93, 124]

/-- Analyzes a symbol that starts with a digit. -/
def readNumberSymbol : Nat → String → Method Scanner RawIdent
  | 0, _ => throw .timeout
  | fuel + 1, symbolValue => do
    let symbolValue := symbolValue.push (character (← deref (← get).currentByte))
    let next ← deref (← get).nextByte
    if charIsDigit next then
      readNextByte
      readNumberSymbol fuel symbolValue
    else if next ∈ followNumber then
      return ident .tNumber symbolValue
    else
      return ident .tError ""

/-- The bytes that may follow a word. -/
def followText : List Byte :=
  [61, 60, 62, 33, 32, 38, 124, 59, 40, 41, 91, 93, 44, 42, 47, 37, 43, 45, 123, 125]

/-- A word: an identifier or a reserved word. -/
def textIdent (symbolValue : String) (symbolIsIdentifier : Bool) : RawIdent :=
  ident (if symbolIsIdentifier then .tSident else getIdentifier symbolValue) symbolValue

/-- `(nextByte == 91) && (nextNextByte == 93)` -/
def brackets (next : Byte) : Method Scanner Bool := do
  if next = 91 then
    return (← deref (← get).nextNextByte) == 93
  else
    return false

/-- Analyzes a symbol that starts with a letter. The brackets of an array type belong to it. -/
def readTextSymbol : Nat → String → Bool → Method Scanner RawIdent
  | 0, _, _ => throw .timeout
  | fuel + 1, symbolValue, symbolIsIdentifier => do
    let symbolValue := symbolValue.push (character (← deref (← get).currentByte))
    let next ← deref (← get).nextByte
    if charIsLetter next then
      readNextByte
      readTextSymbol fuel symbolValue symbolIsIdentifier
    else if charIsDigit next then
      readNextByte
      readTextSymbol fuel symbolValue true
    else if next = 46 then
      return textIdent symbolValue true
    else
      if ← brackets next then
        if getIdentifier symbolValue ≠ .tSident then
          readNextByte
          let symbolValue := symbolValue.push (character (← deref (← get).currentByte))
          readNextByte
          let symbolValue := symbolValue.push (character (← deref (← get).currentByte))
          return textIdent symbolValue false
        else
          return textIdent symbolValue true
      else if next ∈ followText then
        return textIdent symbolValue symbolIsIdentifier
      else
        return ident .tError symbolValue

/-- The loop of `readStringValue`. -/
def readUntilQuote : Nat → String → Method Scanner RawIdent
  | 0, _ => throw .timeout
  | fuel + 1, symbolValue => do
    let current ← deref (← get).currentByte
    if current ≠ 34 then
      readNextByte
      readUntilQuote fuel (symbolValue.push (character current))
    else
      return ident .tStringValue symbolValue

/-- Reads a text until the quote that ends it. -/
def readStringValue (fuel : Nat) : Method Scanner RawIdent := do
  readNextByte
  readUntilQuote fuel ""

/-- Reads a character; its value is its code. -/
def readCharValue : Method Scanner RawIdent := do
  readNextByte
  let current ← deref (← get).currentByte
  if current = 39 then
    return ident .tCharValue ""
  else if (← deref (← get).nextByte) = 39 then
    readNextByte
    return ident .tCharValue (toString current.toInt)
  else
    return ident .tError ""

/-- The tokens of one byte that are the beginning of no other one. -/
def singleSymbols : List (Byte × TokenID) :=
  [(33, .tNot), (59, .tSemicolon), (123, .tLbraces), (125, .tRbraces), (40, .tLparen),
    (41, .tRparen), (43, .tPlus), (44, .tComma), (45, .tMinus), (46, .tDot), (47, .tDiv),
    (42, .tMult), (37, .tMod), (58, .tColon), (61, .tEql), (91, .tLbrack), (93, .tRbrack)]

/-- Analyzes a symbol. The type of an unknown one stays `null`. -/
def readSymbol : Method Scanner RawIdent := do
  let current ← deref (← get).currentByte
  match singleSymbols.lookup current with
  | some type => return ident type ""
  | none =>
    if ← both 38 38 then
      readNextByte
      return ident .tAnd ""
    else if current = 60 then
      if (← deref (← get).nextByte) = 61 then
        readNextByte
        return ident .tLeq ""
      else
        return ident .tLss ""
    else if current = 62 then
      if (← deref (← get).nextByte) = 61 then
        readNextByte
        return ident .tGeq ""
      else
        return ident .tGtr ""
    else if ← both 124 124 then
      readNextByte
      return ident .tOr ""
    else
      return { type := none, value := "", lineNumber := 0 }

/-! ## comments -/

def passMultilineComment : Nat → Method Scanner Unit
  | 0 => throw .timeout
  | fuel + 1 => do
    let eoc ← both 42 47
    readNextByte
    if eoc then
      return
    else
      passMultilineComment fuel

def passSinglelineComment : Nat → Method Scanner Unit
  | 0 => throw .timeout
  | fuel + 1 => do
    if (← deref (← get).nextByte) ≠ 10 then
      readNextByte
      passSinglelineComment fuel
    else
      return

/-! ## the next token -/

/-- What `getSym` does behind its loop. -/
def found (identifier : RawIdent) : Method Scanner RawIdent := do
  return { identifier with lineNumber := (← get).currentLineNumber }

/-- Returns the next token. -/
def getSym : Nat → Method Scanner RawIdent
  | 0 => throw .timeout
  | fuel + 1 => do
    readNextByte
    match (← get).currentByte with
    | none => found (ident .tEof "")
    | some current =>
      if charIsDigit current then
        found (← readNumberSymbol fuel "")
      else if charIsLetter current then
        found (← readTextSymbol fuel "" false)
      else if current = 34 then
        found (← readStringValue fuel)
      else if current = 39 then
        found (← readCharValue)
      else if current = 32 ∨ current = 9 ∨ current = 10 ∨ current = 13 then
        getSym fuel
      else if ← both 47 47 then
        passSinglelineComment fuel
        getSym fuel
      else if ← both 47 42 then
        passMultilineComment fuel
        getSym fuel
      else
        found (← readSymbol)

/-- What the caller looks at. -/
abbrev Delivered := Option TokenID × String

/-- The types and values that repeated calls of `getSym` deliver up to the end of the file, or
up to an exception. -/
def scan (fuel : Nat) : Nat → Scanner → List Delivered × Option Throwable
  | 0, _ => ([], some .timeout)
  | n + 1, s =>
    match getSym fuel s with
    | .error e _ => ([], some e)
    | .ok identifier s' =>
      if identifier.type = some .tEof then ([], none)
      else
        let (more, ended) := scan fuel n s'
        ((identifier.type, identifier.value) :: more, ended)

/-- The tokens of a source file. A comment that is not closed takes a turn beyond its end. -/
def tokens (contents : List Byte) : List Delivered × Option Throwable :=
  scan (contents.length + 2) (contents.length + 1) (importSource contents)

end Scanner

end Compiler
