import Uninit.Grammar.Pattern
import Uninit.Grammar.Terminal
import Uninit.Tree

/-!
# How tokens are written

A keyword is an identifier with a certain text, a mark is a fixed text, and every other token
has a pattern. A directive may have blanks behind its `#`.
-/
namespace Uninit.Grammar

/-- How a kind of token is written. -/
inductive Spelling where
  /-- It has no text. -/
  | nothing
  /-- It is an identifier with one of these texts. -/
  | words (ws : List String)
  | mark (s : String)
  | pattern (p : Pattern)
deriving Repr, DecidableEq, Inhabited

namespace Pattern

def digit : Pattern := range '0' '9'

def hexDigit : Pattern := one (.oneOf [('0', '9'), ('a', 'f'), ('A', 'F')])

/-- A character given by its number in an identifier. -/
def universalName : Pattern :=
  alt (seq (literal "\\u") (times 4 hexDigit)) (seq (literal "\\U") (times 8 hexDigit))

def identifier : Pattern :=
  seq (any [one .identifierStart, among "$_", universalName])
    (star (any [one .identifierPart, char '$', universalName]))

/-- The end of a directive. -/
def newline : Pattern := seq (opt (char '\r')) (char '\n')

/-- What opens a directive. -/
def directiveOpening : Pattern := seq (char '#') (star (among " \t"))

/-- A directive of a certain name. -/
def directiveNamed (name : String) : Pattern := seq directiveOpening (literal name)

/-- A directive of any name. -/
def directive : Pattern :=
  all [directiveOpening, one (.oneOf [('a', 'z'), ('A', 'Z'), ('0', '9')]),
    star (one (.oneOf [('a', 'z'), ('A', 'Z'), ('0', '9'), ('_', '_')]))]

/-- The rest of the line of a directive, up to a comment; a backslash goes on with the next line. -/
def directiveText : Pattern :=
  seq (one .solid)
    (star (any [except "/\n", seq (char '/') (except "*"), seq (char '\\') newline]))

/-- Digits that may be grouped by quotes. -/
def grouped (d : Pattern) : Pattern := seq (plus d) (star (seq (char '\'') (plus d)))

/-- A number with its base, fraction, exponent and suffixes. -/
def number : Pattern :=
  let decimal := grouped digit
  let hexadecimal := grouped hexDigit
  let hexBase := seq (char '0') (among "xX")
  let binaryBase := seq (char '0') (among "bB")
  all [opt (among "-+"), opt (alt hexBase binaryBase),
    alt (seq (any [decimal, seq binaryBase decimal, seq hexBase hexadecimal])
        (opt (seq (char '.') (opt hexadecimal))))
      (seq (char '.') decimal),
    opt (seq (among "eEpP") (opt (seq (opt (among "-+")) hexadecimal))),
    star (among "uUlLwWfFbBdD")]

/-- An escape in a string or character. -/
def escape : Pattern :=
  seq (char '\\') (any [seq (times 2 digit) (opt digit),
    seq (char 'x') (seq hexDigit (opt (seq hexDigit (opt (seq hexDigit (opt hexDigit)))))),
    seq (char 'u') (times 4 hexDigit), seq (char 'U') (times 8 hexDigit), except "xuU"])

/-- The name of a header between angle brackets. -/
def systemHeader : Pattern :=
  all [char '<', star (alt (literal "\\>") (except ">\n")), char '>']

/-- A comment up to the end of its line, where a backslash goes on with the next line, or
between its marks. -/
def comment : Pattern :=
  alt
    (seq (literal "//")
      (star (alt (seq (plus (char '\\')) (alt (except "\n") newline)) (except "\\\n"))))
    (all [literal "/*", star (except "*"), plus (char '*'),
      star (all [except "/*", star (except "*"), plus (char '*')]), char '/'])

end Pattern

namespace Terminal

/-- How a kind of token is written. -/
def spelling : Terminal → Spelling
  | .eof => .nothing
  | .identifier => .pattern .identifier
  | .dirInclude => .pattern (.directiveNamed "include")
  | .newline => .pattern .newline
  | .dirDefine => .pattern (.directiveNamed "define")
  | .parenAtOnce => .mark "("
  | .ellipsis => .mark "..."
  | .comma => .mark ","
  | .parenClose => .mark ")"
  | .dirIf => .pattern (.directiveNamed "if")
  | .lineFeed => .mark "\n"
  | .dirEndif => .pattern (.directiveNamed "endif")
  | .dirIfdef => .pattern (.directiveNamed "ifdef")
  | .dirIfndef => .pattern (.directiveNamed "ifndef")
  | .dirElse => .pattern (.directiveNamed "else")
  | .dirElif => .pattern (.directiveNamed "elif")
  | .dirElifdef => .pattern (.directiveNamed "elifdef")
  | .dirElifndef => .pattern (.directiveNamed "elifndef")
  | .directiveText => .pattern .directiveText
  | .directive => .pattern .directive
  | .parenOpen => .mark "("
  | .kwDefined => .words ["defined"]
  | .not => .mark "!"
  | .tilde => .mark "~"
  | .minus => .mark "-"
  | .plus => .mark "+"
  | .star => .mark "*"
  | .slash => .mark "/"
  | .percent => .mark "%"
  | .orOr => .mark "||"
  | .andAnd => .mark "&&"
  | .bar => .mark "|"
  | .caret => .mark "^"
  | .ampersand => .mark "&"
  | .equal => .mark "=="
  | .notEqual => .mark "!="
  | .greater => .mark ">"
  | .greaterEqual => .mark ">="
  | .lessEqual => .mark "<="
  | .less => .mark "<"
  | .shiftLeft => .mark "<<"
  | .shiftRight => .mark ">>"
  | .semicolon => .mark ";"
  | .kwExtension => .words ["__extension__"]
  | .kwTypedef => .words ["typedef"]
  | .kwExtern => .words ["extern"]
  | .kwAttributeGnu => .words ["__attribute__"]
  | .kwAttribute => .words ["__attribute"]
  | .colonColon => .mark "::"
  | .attributeOpen => .mark "[["
  | .attributeClose => .mark "]]"
  | .kwDeclspec => .words ["__declspec"]
  | .kwBased => .words ["__based"]
  | .kwCdecl => .words ["__cdecl"]
  | .kwClrcall => .words ["__clrcall"]
  | .kwStdcall => .words ["__stdcall"]
  | .kwFastcall => .words ["__fastcall"]
  | .kwThiscall => .words ["__thiscall"]
  | .kwVectorcall => .words ["__vectorcall"]
  | .kwRestrictPointer => .words ["__restrict"]
  | .kwUptr => .words ["__uptr"]
  | .kwSptr => .words ["__sptr"]
  | .kwUnalignedShort => .words ["_unaligned"]
  | .kwUnaligned => .words ["__unaligned"]
  | .braceOpen => .mark "\x7b"
  | .braceClose => .mark "\x7d"
  | .kwSigned => .words ["signed"]
  | .kwUnsigned => .words ["unsigned"]
  | .kwLong => .words ["long"]
  | .kwShort => .words ["short"]
  | .bracketOpen => .mark "["
  | .kwStatic => .words ["static"]
  | .bracketClose => .mark "]"
  | .assign => .mark "="
  | .kwAuto => .words ["auto"]
  | .kwRegister => .words ["register"]
  | .kwInline => .words ["inline"]
  | .kwInlineShort => .words ["__inline"]
  | .kwInlineGnu => .words ["__inline__"]
  | .kwForceinline => .words ["__forceinline"]
  | .kwThreadLocal => .words ["thread_local"]
  | .kwThread => .words ["__thread"]
  | .kwConst => .words ["const"]
  | .kwConstexpr => .words ["constexpr"]
  | .kwVolatile => .words ["volatile"]
  | .kwRestrict => .words ["restrict"]
  | .kwRestrictGnu => .words ["__restrict__"]
  | .kwAtomic => .words ["_Atomic"]
  | .kwNoreturnOld => .words ["_Noreturn"]
  | .kwNoreturn => .words ["noreturn"]
  | .kwNonnull => .words ["_Nonnull"]
  | .kwAlignas => .words ["alignas"]
  | .kwAlignasOld => .words ["_Alignas"]
  | .primitiveType => .words ["bool", "char", "int", "float", "double", "void", "size_t",
      "ssize_t", "ptrdiff_t", "intptr_t", "uintptr_t", "charptr_t", "nullptr_t", "max_align_t",
      "int8_t", "int16_t", "int32_t", "int64_t", "uint8_t", "uint16_t", "uint32_t", "uint64_t",
      "char8_t", "char16_t", "char32_t", "char64_t"]
  | .kwEnum => .words ["enum"]
  | .colon => .mark ":"
  | .kwStruct => .words ["struct"]
  | .kwUnion => .words ["union"]
  | .kwIf => .words ["if"]
  | .kwElse => .words ["else"]
  | .kwSwitch => .words ["switch"]
  | .kwCase => .words ["case"]
  | .kwDefault => .words ["default"]
  | .kwWhile => .words ["while"]
  | .kwDo => .words ["do"]
  | .kwFor => .words ["for"]
  | .kwReturn => .words ["return"]
  | .kwBreak => .words ["break"]
  | .kwContinue => .words ["continue"]
  | .kwGoto => .words ["goto"]
  | .kwTry => .words ["__try"]
  | .kwExcept => .words ["__except"]
  | .kwFinally => .words ["__finally"]
  | .kwLeave => .words ["__leave"]
  | .question => .mark "?"
  | .timesAssign => .mark "*="
  | .divideAssign => .mark "/="
  | .remainderAssign => .mark "%="
  | .addAssign => .mark "+="
  | .subtractAssign => .mark "-="
  | .shiftLeftAssign => .mark "<<="
  | .shiftRightAssign => .mark ">>="
  | .andAssign => .mark "&="
  | .xorAssign => .mark "^="
  | .orAssign => .mark "|="
  | .decrement => .mark "--"
  | .increment => .mark "++"
  | .kwSizeof => .words ["sizeof"]
  | .kwAlignofGnu => .words ["__alignof__"]
  | .kwAlignofGnuShort => .words ["__alignof"]
  | .kwAlignofLower => .words ["_alignof"]
  | .kwAlignof => .words ["alignof"]
  | .kwAlignofOld => .words ["_Alignof"]
  | .kwOffsetof => .words ["offsetof"]
  | .kwGeneric => .words ["_Generic"]
  | .kwAsm => .words ["asm"]
  | .kwAsmGnu => .words ["__asm__"]
  | .kwAsmShort => .words ["__asm"]
  | .kwVolatileGnu => .words ["__volatile__"]
  | .dot => .mark "."
  | .arrow => .mark "->"
  | .number => .pattern .number
  | .wideQuote => .mark "L'"
  | .utf16Quote => .mark "u'"
  | .utf32Quote => .mark "U'"
  | .utf8Quote => .mark "u8'"
  | .quote => .mark "'"
  | .character => .pattern (.except "\n'")
  | .wideDoubleQuote => .mark "L\""
  | .utf16DoubleQuote => .mark "u\""
  | .utf32DoubleQuote => .mark "U\""
  | .utf8DoubleQuote => .mark "u8\""
  | .doubleQuote => .mark "\""
  | .stringContent => .pattern (.plus (.except "\\\"\n"))
  | .escape => .pattern .escape
  | .systemHeader => .pattern .systemHeader
  | .kwTrue => .words ["TRUE", "true"]
  | .kwFalse => .words ["FALSE", "false"]
  | .kwNull => .words ["NULL"]
  | .kwNullptr => .words ["nullptr"]
  | .comment => .pattern .comment

/-- Whether a kind of token is an identifier with a certain text. -/
def isKeyword (t : Terminal) : Bool :=
  match t.spelling with
  | .words _ => true
  | _ => false

/-- Whether a kind of token stands only directly behind the token before it. -/
def isImmediate : Terminal → Bool
  | .newline | .parenAtOnce | .character | .stringContent => true
  | _ => false

/-- Of two kinds of token that match, the stronger wins whatever their lengths. -/
def strength : Terminal → Int
  | .directiveText => -1
  | .stringContent | .escape => 1
  | _ => 0

/-- What a token is in a tree, or none if it is left out. -/
def kind? : Terminal → Option Tree.Kind
  | .eof | .newline => none
  | .identifier => some .identifier
  | .comment => some .comment
  | .directiveText => some (.other "preproc_arg")
  | .directive => some (.other "preproc_directive")
  | .kwRestrictPointer => some (.other "ms_restrict_modifier")
  | .kwUptr => some (.other "ms_unsigned_ptr_modifier")
  | .kwSptr => some (.other "ms_signed_ptr_modifier")
  | .primitiveType => some (.other "primitive_type")
  | .number => some (.other "number_literal")
  | .character => some (.other "character")
  | .stringContent => some (.other "string_content")
  | .escape => some (.other "escape_sequence")
  | .systemHeader => some (.other "system_lib_string")
  | .kwTrue => some (.other "true")
  | .kwFalse => some (.other "false")
  | .dirInclude => some (.token "#include")
  | .dirDefine => some (.token "#define")
  | .dirIf => some (.token "#if")
  | .dirEndif => some (.token "#endif")
  | .dirIfdef => some (.token "#ifdef")
  | .dirIfndef => some (.token "#ifndef")
  | .dirElse => some (.token "#else")
  | .dirElif => some (.token "#elif")
  | .dirElifdef => some (.token "#elifdef")
  | .dirElifndef => some (.token "#elifndef")
  | t =>
    match t.spelling with
    | .words (w :: _) => some (.token w)
    | .mark s => some (.token s)
    | _ => none

end Terminal

end Uninit.Grammar
