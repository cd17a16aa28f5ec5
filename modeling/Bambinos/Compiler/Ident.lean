import Bambinos.Infra.Java

/-!
# `Ident`

The tokens that the scanner hands to the parser. The order of the constructors of `TokenID`
is that of the source: error recovery skips every token below a border symbol.
-/

namespace Compiler

open Infra

inductive TokenID where
  | tNull | tError
  | tDiv | tMult | tMod | tAnd | tOr | tPlus | tMinus | tEql | tLss | tGeq | tLeq | tGtr
  | tComma | tDot | tColon | tSemicolon
  | tRparen | tLparen | tRbrack | tLbrack | tRbraces | tLbraces
  | tDquote | tSquote | tStringValue | tCharValue
  | tNot | tTrue | tFalse | tNumber
  | tStatic | tClass | tVoid | tElse | tNew
  | tPackage | strongSymBB
  | tWhile | tIf | tReturn
  | tInt | tBool | tChar | tString
  | tIntArray | tBoolArray | tCharArray | tStringArray
  | tSident | tPrint
  | strongSymCB | tImport | tPublic
  | tEof
deriving DecidableEq, Repr

namespace TokenID

/-- Java's `ordinal()`. -/
def ordinal (t : TokenID) : Nat := t.ctorIdx

/-- Java's `toString()`, which the messages print. -/
def toString : TokenID → String
  | tNull => "TNULL" | tError => "TERROR"
  | tDiv => "TDIV" | tMult => "TMULT" | tMod => "TMOD" | tAnd => "TAND" | tOr => "TOR"
  | tPlus => "TPLUS" | tMinus => "TMINUS" | tEql => "TEQL" | tLss => "TLSS" | tGeq => "TGEQ"
  | tLeq => "TLEQ" | tGtr => "TGTR" | tComma => "TCOMMA" | tDot => "TDOT" | tColon => "TCOLON"
  | tSemicolon => "TSEMICOLON" | tRparen => "TRPAREN" | tLparen => "TLPAREN"
  | tRbrack => "TRBRACK" | tLbrack => "TLBRACK" | tRbraces => "TRBRACES"
  | tLbraces => "TLBRACES" | tDquote => "TDQUOTE" | tSquote => "TSQUOTE"
  | tStringValue => "TSTRING_VALUE" | tCharValue => "TCHAR_VALUE" | tNot => "TNOT"
  | tTrue => "TTRUE" | tFalse => "TFALSE" | tNumber => "TNUMBER" | tStatic => "TSTATIC"
  | tClass => "TCLASS" | tVoid => "TVOID" | tElse => "TELSE" | tNew => "TNEW"
  | tPackage => "TPACKAGE" | strongSymBB => "STRONG_SYM_BB" | tWhile => "TWHILE" | tIf => "TIF"
  | tReturn => "TRETURN" | tInt => "TINT" | tBool => "TBOOL" | tChar => "TCHAR"
  | tString => "TSTRING" | tIntArray => "TINT_ARRAY" | tBoolArray => "TBOOL_ARRAY"
  | tCharArray => "TCHAR_ARRAY" | tStringArray => "TSTRING_ARRAY" | tSident => "TSIDENT"
  | tPrint => "TPRINT" | strongSymCB => "STRONG_SYM_CB" | tImport => "TIMPORT"
  | tPublic => "TPUBLIC" | tEof => "TEOF"

def startSetRelation : TokenID → Bool
  | tEql | tNot | tGtr | tLeq | tLss | tGeq => true
  | _ => false

def startSetExpression : TokenID → Bool
  | tNot | tNumber | tSident | tStringValue | tCharValue | tNull | tMinus | tTrue | tFalse => true
  | _ => false

def startSetPrimitive : TokenID → Bool
  | tInt | tBool | tChar => true
  | _ => false

def startSetPrimitiveArray : TokenID → Bool
  | tIntArray | tBoolArray | tCharArray => true
  | _ => false

def startSetSimpleDeclaration (t : TokenID) : Bool :=
  t.startSetPrimitive || t.startSetPrimitiveArray || t == tString || t == tStringArray

def startSetDataType (t : TokenID) : Bool :=
  t.startSetSimpleDeclaration || t == tSident

end TokenID

/--
The value of a token. The scanner delivers the digits of a number and the code of a character
as `number`; the parser writes a folded constant there. Every other value is a `text`.
-/
inductive TokenValue where
  | text (s : String)
  | number (n : Int)
deriving DecidableEq, Repr

/-- A token. A token that the parser inserts itself has no value. -/
structure Ident where
  type : TokenID
  value : Option TokenValue
  lineNumber : Nat
deriving DecidableEq, Repr

/-- What the scanner returns at the end of the file, as often as it is asked. -/
def Ident.eof (lineNumber : Nat) : Ident :=
  { type := .tEof, value := some (.text ""), lineNumber := lineNumber }

/-- The value read as a name. -/
def TokenValue.asString : TokenValue → String
  | .text s => s
  | .number n => toString n

/-- `Integer.parseInt`. -/
def parseInt {σ : Type} (v : Option TokenValue) : Method σ Int :=
  match v with
  | some (.number n) => if int32 n = n then pure n else throw .numberFormat
  | _ => throw .numberFormat

end Compiler
