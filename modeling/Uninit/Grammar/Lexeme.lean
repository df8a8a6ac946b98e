import Uninit.Grammar.Spelling

/-!
# Tokens of a text

Which token comes next depends on the kinds that can stand there: of these, the strongest
matches, then the longest, then a fixed text, then the first in order. A keyword is read as an
identifier and recognised by its text, where it can stand. Blanks and line ends behind a
backslash stand between tokens. If no token can be read that may stand there, any token is
read, and characters of which no token can be made become one unreadable piece.

## Main definitions

* `Cursor`: a place with the text that follows
* `Lexeme.read`: the next token
-/
namespace Uninit.Grammar

/-- A place in a text, with the text that follows. -/
structure Cursor where
  rest : List Char
  point : Tree.Point
deriving Repr, Inhabited

namespace Cursor

def start (text : List Char) : Cursor :=
  ⟨text, .origin⟩

/-- The place some characters further on. -/
def advance : Nat → Cursor → Cursor
  | 0, c => c
  | n + 1, ⟨ch :: rest, p⟩ => advance n ⟨rest, p.next ch⟩
  | _ + 1, ⟨[], p⟩ => ⟨[], p⟩

/-- The place behind a mark for the order of bytes, which may stand at the start of a text. -/
def passMark : Cursor → Cursor
  | ⟨ch :: rest, p⟩ =>
    if p.byte = 0 ∧ ch = '\uFEFF' then ⟨rest, p.next ch⟩ else ⟨ch :: rest, p⟩
  | c => c

end Cursor

namespace Lexeme

/-- The form of a token that is no keyword. -/
inductive Form where
  | mark (text : List Char)
  | pattern (p : Pattern)
deriving Repr, DecidableEq

/-- All tokens that are no keywords, with their forms, in order. -/
def forms : List (Terminal × Form) :=
  Terminal.all.filterMap fun t =>
    match t.spelling with
    | .mark s => some (t, .mark s.toList)
    | .pattern p => some (t, .pattern p)
    | _ => none

/-- All keywords with their texts. -/
def keywords : List (List Char × Terminal) :=
  Terminal.all.flatMap fun t =>
    match t.spelling with
    | .words ws => ws.map fun w => (w.toList, t)
    | _ => []

def keywordSet : TokenSet :=
  .ofList (keywords.map Prod.snd)

/-- The tokens that are looked for where no expected token can be read. -/
def anywhere : TokenSet :=
  .ofList (Terminal.all.filter fun t =>
    !(t.isImmediate || t == .directiveText || t == .systemHeader || t == .lineFeed))

/-- How many characters two texts have in common at their starts. -/
def commonLength : List Char → List Char → Nat
  | a :: as, b :: bs => if a = b then commonLength as bs + 1 else 0
  | _, _ => 0

/-- The match of a form at the start of a text. -/
def Form.extent (text : List Char) : Form → Pattern.Extent
  | mark m =>
    let n := commonLength m text
    ⟨if n = m.length then some n else none, n⟩
  | pattern p => p.scan text

/-- A match of a token. -/
structure Match where
  terminal : Terminal
  length : Nat
  isMark : Bool
deriving Repr, DecidableEq

/-- Whether a match wins over one that comes before it in order. -/
def Match.beats (a b : Match) : Bool :=
  let strength := a.terminal.strength
  let other := b.terminal.strength
  decide (other < strength) || (strength == other &&
    (decide (b.length < a.length) || (a.length == b.length && a.isMark && !b.isMark)))

/-- The match that wins at the start of a text among the tokens of a set; tokens that stand only
directly behind another are considered if `attached`. -/
def best (valid : TokenSet) (attached : Bool) (text : List Char) : Option Match :=
  forms.foldl (fun found entry =>
    if valid.contains entry.1 && (attached || !entry.1.isImmediate) then
      match (entry.2.extent text).longest with
      | some (n + 1) =>
        let new : Match := ⟨entry.1, n + 1, entry.2 matches .mark _⟩
        if found.all new.beats then some new else found
      | _ => found
    else found) none

/-- How far a match of some token of a set stays possible at the start of a text. -/
def viable (valid : TokenSet) (text : List Char) : Nat :=
  forms.foldl (fun n entry =>
    if valid.contains entry.1 then max n (entry.2.extent text).viable else n)
    (match text with
      | '\\' :: '\r' :: _ => 2
      | '\\' :: _ => 1
      | _ => 0)

/-- Whether a character stands between tokens. -/
def separates (c : Char) : Bool :=
  c == ' ' || ('\t' ≤ c && c ≤ '\r')

/-- The outcome of looking for a token of a set. -/
inductive Found where
  | token (t : Terminal) (start : Cursor) (length : Nat)
  /-- There is none at this place. -/
  | nothing (start : Cursor)

/-- How many characters a line end behind a backslash takes up, or none. -/
def joinLength : List Char → Nat
  | '\\' :: '\n' :: _ => 2
  | '\\' :: '\r' :: '\n' :: _ => 3
  | _ => 0

/-- Look for a token of a set behind `skip` characters, over blanks and line ends behind a
backslash. -/
def find (valid : TokenSet) (attached : Bool) (skip : Nat) (p : Tree.Point) : List Char → Found
  | [] => if valid.contains .eof then .token .eof ⟨[], p⟩ 0 else .nothing ⟨[], p⟩
  | c :: rest =>
    if 0 < skip then find valid attached (skip - 1) (p.next c) rest
    else
      let here := best valid attached (c :: rest)
      let join := joinLength (c :: rest)
      if 0 < join && here.all fun m => decide (m.terminal.strength < 0) then
        find valid false (join - 1) (p.next c) rest
      else
        match here with
        | some m => .token m.terminal ⟨c :: rest, p⟩ m.length
        | none =>
          if separates c then find valid false 0 (p.next c) rest else .nothing ⟨c :: rest, p⟩

/-- The tokens to look for, where keywords are read as identifiers. -/
def sought (valid : TokenSet) : TokenSet :=
  if (valid.inter keywordSet).isEmpty then valid else valid.union (.single .identifier)

/-- Look for a token of a set at a place. -/
def findAt (valid : TokenSet) (c : Cursor) : Found :=
  find (sought valid) true 0 c.point c.rest

/-- The end of an unreadable piece that reaches to `stop` so far. -/
def unreadableEnd : Nat → Cursor → Cursor
  | 0, stop => stop
  | fuel + 1, stop =>
    match findAt anywhere stop with
    | .token .. => stop
    | .nothing start =>
      let reached := start.advance (viable (sought anywhere) start.rest)
      unreadableEnd fuel
        (if reached.point.byte = stop.point.byte then reached.advance 1 else reached)

/-- The unreadable piece at a place from which nothing can be read: where it starts and ends. -/
def unreadable (start : Cursor) : Cursor × Cursor :=
  let reached := start.advance (viable (sought anywhere) start.rest)
  let stop := if reached.point.byte = start.point.byte then reached.advance 1 else reached
  (start, unreadableEnd stop.rest.length stop)

end Lexeme

/-- A token, or a piece that cannot be read, with the blanks before it. -/
structure Lexeme where
  /-- The kind of token, or none. -/
  terminal? : Option Terminal
  /-- Where the blanks before it start. -/
  before : Tree.Point
  start : Tree.Point
  stop : Cursor
deriving Inhabited

namespace Lexeme

/-- The kind of an identifier with a certain text, where some tokens can stand. -/
def recognise (valid : TokenSet) (word : List Char) : Terminal :=
  match keywords.lookup word with
  | some k => if valid.contains k then k else .identifier
  | none => .identifier

/-- The next token, where some tokens can stand. -/
def read (valid : TokenSet) (c : Cursor) : Lexeme :=
  let here := c.passMark
  let token (t : Terminal) (start : Cursor) (length : Nat) : Lexeme :=
    let t := if t = .identifier then recognise valid (start.rest.take length) else t
    ⟨some t, c.point, start.point, start.advance length⟩
  match findAt valid here with
  | .token t start length => token t start length
  | .nothing _ =>
    match findAt anywhere here with
    | .token t start length => token t start length
    | .nothing start =>
      let (start, stop) := unreadable start
      ⟨none, c.point, start.point, stop⟩

end Lexeme

end Uninit.Grammar
