/-!
# Tokens of C

The kinds of token that the grammar tells apart, and sets of them. The order of the kinds is
the order in which a token that is not there is looked for, and it settles ties between two
readings of one text.

Names that begin with `kw` are keywords, those that begin with `dir` directives.
-/
namespace Uninit.Grammar

/-- The kinds of token. A token `parenAtOnce` is a parenthesis directly behind a name, a token
`newline` the end of a directive, and a token `lineFeed` the end of a condition. -/
inductive Terminal where
  | eof | identifier | dirInclude | newline | dirDefine | parenAtOnce | ellipsis | comma
  | parenClose | dirIf | lineFeed | dirEndif | dirIfdef | dirIfndef | dirElse | dirElif
  | dirElifdef | dirElifndef | directiveText | directive | parenOpen | kwDefined | not | tilde
  | minus | plus | star | slash | percent | orOr | andAnd | bar | caret | ampersand | equal
  | notEqual | greater | greaterEqual | lessEqual | less | shiftLeft | shiftRight | semicolon
  | kwExtension | kwTypedef | kwExtern | kwAttributeGnu | kwAttribute | colonColon | attributeOpen
  | attributeClose | kwDeclspec | kwBased | kwCdecl | kwClrcall | kwStdcall | kwFastcall
  | kwThiscall | kwVectorcall | kwRestrictPointer | kwUptr | kwSptr | kwUnalignedShort
  | kwUnaligned | braceOpen | braceClose | kwSigned | kwUnsigned | kwLong | kwShort | bracketOpen
  | kwStatic | bracketClose | assign | kwAuto | kwRegister | kwInline | kwInlineShort
  | kwInlineGnu | kwForceinline | kwThreadLocal | kwThread | kwConst | kwConstexpr | kwVolatile
  | kwRestrict | kwRestrictGnu | kwAtomic | kwNoreturnOld | kwNoreturn | kwNonnull | kwAlignas
  | kwAlignasOld | primitiveType | kwEnum | colon | kwStruct | kwUnion | kwIf | kwElse | kwSwitch
  | kwCase | kwDefault | kwWhile | kwDo | kwFor | kwReturn | kwBreak | kwContinue | kwGoto | kwTry
  | kwExcept | kwFinally | kwLeave | question | timesAssign | divideAssign | remainderAssign
  | addAssign | subtractAssign | shiftLeftAssign | shiftRightAssign | andAssign | xorAssign
  | orAssign | decrement | increment | kwSizeof | kwAlignofGnu | kwAlignofGnuShort
  | kwAlignofLower | kwAlignof | kwAlignofOld | kwOffsetof | kwGeneric | kwAsm | kwAsmGnu
  | kwAsmShort | kwVolatileGnu | dot | arrow | number | wideQuote | utf16Quote | utf32Quote
  | utf8Quote | quote | character | wideDoubleQuote | utf16DoubleQuote | utf32DoubleQuote
  | utf8DoubleQuote | doubleQuote | stringContent | escape | systemHeader | kwTrue | kwFalse
  | kwNull | kwNullptr | comment
deriving Repr, DecidableEq, Inhabited

namespace Terminal

/-- The place of a kind of token among all of them. -/
def rank (t : Terminal) : Nat :=
  t.ctorIdx

def count : Nat := comment.rank + 1

def all : List Terminal :=
  (List.range count).map ofNat

end Terminal

/-- A set of kinds of token. -/
structure TokenSet where
  /-- The bit at the place of each member is set. -/
  bits : Nat
deriving Repr, DecidableEq, Inhabited

namespace TokenSet

def empty : TokenSet := ⟨0⟩

def single (t : Terminal) : TokenSet := ⟨1 <<< t.rank⟩

def union (a b : TokenSet) : TokenSet := ⟨a.bits ||| b.bits⟩

def inter (a b : TokenSet) : TokenSet := ⟨a.bits &&& b.bits⟩

def contains (s : TokenSet) (t : Terminal) : Bool := s.bits.testBit t.rank

def isEmpty (s : TokenSet) : Bool := s.bits == 0

def ofList (ts : List Terminal) : TokenSet :=
  ts.foldl (fun s t => s.union (single t)) empty

end TokenSet

end Uninit.Grammar
