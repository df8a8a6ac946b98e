import Uninit.Text.Blank

/-!
# Line markers

A line marker says where the text after it came from: `# 12 "foo.c" 2` or `#line 12 "foo.c"`.
In the file name a backslash makes the character after it stand for itself.
-/
namespace Uninit

/-- The line number of the next line and, if given, the name of the file it stands in. -/
structure Marker where
  number : Nat
  file : Option (List Char)
deriving Repr, DecidableEq

namespace Marker

/-- Line numbers are below this bound, the number of values of 64 bits. -/
def lineBound : Nat := 18446744073709551616

def valueOf (digits : List Char) : Nat :=
  digits.foldl (fun n c => n * 10 + (c.toNat - '0'.toNat)) 0

/-- A file name up to its closing quote, or to the end of the line if there is none. -/
def unquote : List Char → List Char
  | [] => []
  | '"' :: _ => []
  | ['\\'] => []
  | '\\' :: c :: rest => c :: unquote rest
  | c :: rest => c :: unquote rest

/-- Leave out the word `line` and the white space after it, if both are there. -/
def skipKeyword (cs : List Char) : List Char :=
  match cs with
  | 'l' :: 'i' :: 'n' :: 'e' :: c :: rest =>
    if Text.isBlank c then Text.trimStart (c :: rest) else cs
  | _ => cs

/-- Read what follows the sign and the keyword: a number, then the end of the line or white
space and perhaps a quoted file name. -/
def parseNumber? (cs : List Char) : Option Marker :=
  let digits := cs.takeWhile Char.isDigit
  let rest := cs.dropWhile Char.isDigit
  let number := valueOf digits
  if digits.isEmpty ∨ lineBound ≤ number then none
  else if rest.head?.any (!Text.isBlank ·) then none
  else match Text.trimStart rest with
    | '"' :: name => some ⟨number, some (unquote name)⟩
    | _ => some ⟨number, none⟩

/-- Read a line as a line marker. -/
def parse? (line : List Char) : Option Marker :=
  match Text.trimStart line with
  | '#' :: rest => parseNumber? (skipKeyword (Text.trimStart rest))
  | _ => none

end Marker

end Uninit
