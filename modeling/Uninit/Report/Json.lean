/-!
# JSON texts

The part of JSON that a report needs: whole numbers, strings, arrays and objects, written
with one member a line and two more spaces of indent at each level. An empty array is `[]`.
-/
namespace Uninit

/-- A JSON value. -/
inductive Json where
  | number (n : Nat)
  | string (s : String)
  | array (elements : List Json)
  | object (members : List (String × Json))

namespace Json

/-- The lower-case hexadecimal digit of a number below 16. -/
def hexDigit (n : Nat) : Char :=
  Char.ofNat (if n < 10 then n + '0'.toNat else n - 10 + 'a'.toNat)

/-- A character inside a quoted string. Quotes, backslashes and the control characters below
the space are escaped, those with a short form by it. -/
def escape (c : Char) : List Char :=
  if c = '"' then ['\\', '"']
  else if c = '\\' then ['\\', '\\']
  else if c = '\x08' then ['\\', 'b']
  else if c = '\x0c' then ['\\', 'f']
  else if c = '\n' then ['\\', 'n']
  else if c = '\r' then ['\\', 'r']
  else if c = '\t' then ['\\', 't']
  else if c.toNat < 0x20 then
    ['\\', 'u', '0', '0', hexDigit (c.toNat / 16), hexDigit (c.toNat % 16)]
  else [c]

def quote (s : String) : List Char :=
  '"' :: s.toList.flatMap escape ++ ['"']

/-- A line break and the indent of a level. -/
def newline (level : Nat) : List Char :=
  '\n' :: List.replicate (2 * level) ' '

/-- Write members between brackets, one a line, where `level` is that of the members. -/
def enclose (opening closing : Char) (level : Nat) : List (List Char) → List Char
  | [] => [opening, closing]
  | first :: rest =>
    opening :: newline level ++ first ++ rest.flatMap (fun m => ',' :: newline level ++ m) ++
      newline (level - 1) ++ [closing]

mutual

/-- Write a value whose first line stands at a level. -/
def render (level : Nat) : Json → List Char
  | number n => (toString n).toList
  | string s => quote s
  | array elements => enclose '[' ']' (level + 1) (renderElements (level + 1) elements)
  | object members => enclose '\x7b' '\x7d' (level + 1) (renderMembers (level + 1) members)

def renderElements (level : Nat) : List Json → List (List Char)
  | [] => []
  | e :: rest => e.render level :: renderElements level rest

def renderMembers (level : Nat) : List (String × Json) → List (List Char)
  | [] => []
  | (key, value) :: rest =>
    (quote key ++ ':' :: ' ' :: value.render level) :: renderMembers level rest

end

end Json

end Uninit
