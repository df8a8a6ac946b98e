import Uninit.Text.Blank
import Uninit.Text.Identifier

/-!
# Patterns of tokens

A pattern is a regular expression over sets of characters. What is left of a pattern after a
character is a list of residuals, each a list of patterns still to be matched one after the
other, so that matching keeps a set of residuals and never goes back.

## Main definitions

* `Pattern`, `Pattern.steps`: what is left of a pattern after one character
* `Pattern.scan`: the longest match at the start of a text, and how far one stays possible
-/
namespace Uninit.Grammar

/-- A set of characters. -/
inductive CharSet where
  | oneOf (ranges : List (Char × Char))
  | noneOf (ranges : List (Char × Char))
  /-- Everything but white space. -/
  | solid
  | identifierStart
  | identifierPart
deriving Repr, DecidableEq, Inhabited

def CharSet.contains : CharSet → Char → Bool
  | oneOf ranges, c => ranges.any fun r => r.1 ≤ c && c ≤ r.2
  | noneOf ranges, c => !ranges.any fun r => r.1 ≤ c && c ≤ r.2
  | solid, c => !Text.isBlank c
  | identifierStart, c => Text.startsIdentifier c
  | identifierPart, c => Text.continuesIdentifier c

/-- A regular expression. -/
inductive Pattern where
  | empty
  | one (s : CharSet)
  | seq (a b : Pattern)
  | alt (a b : Pattern)
  | star (a : Pattern)
deriving Repr, DecidableEq, Inhabited

namespace Pattern

def char (c : Char) : Pattern := one (.oneOf [(c, c)])

def among (cs : String) : Pattern := one (.oneOf (cs.toList.map fun c => (c, c)))

def except (cs : String) : Pattern := one (.noneOf (cs.toList.map fun c => (c, c)))

def range (low high : Char) : Pattern := one (.oneOf [(low, high)])

def all : List Pattern → Pattern
  | [] => empty
  | [p] => p
  | p :: rest => seq p (all rest)

/-- One of some patterns; without any, the empty text. -/
def any : List Pattern → Pattern
  | [] => empty
  | [p] => p
  | p :: rest => alt p (any rest)

def literal (s : String) : Pattern := all (s.toList.map char)

def opt (p : Pattern) : Pattern := alt p empty

def plus (p : Pattern) : Pattern := seq p (star p)

def times (n : Nat) (p : Pattern) : Pattern := all (List.replicate n p)

/-- Whether the empty text matches. -/
def nullable : Pattern → Bool
  | empty => true
  | one _ => false
  | seq a b => a.nullable && b.nullable
  | alt a b => a.nullable || b.nullable
  | star _ => true

/-- What is left of a pattern after a character, each followed by `more`. -/
def steps (c : Char) : Pattern → List Pattern → List (List Pattern)
  | empty, _ => []
  | one s, more => if s.contains c then [more] else []
  | seq a b, more => steps c a (b :: more) ++ if a.nullable then steps c b more else []
  | alt a b, more => steps c a more ++ steps c b more
  | star a, more => steps c a (star a :: more)

/-- What is left of some patterns in a row after a character. -/
def stepsOfRow (c : Char) : List Pattern → List (List Pattern)
  | [] => []
  | p :: rest => steps c p rest ++ if p.nullable then stepsOfRow c rest else []

/-- Add what is not there yet. -/
def insertAll (rows : List (List Pattern)) : List (List Pattern) → List (List Pattern)
  | [] => rows
  | r :: rest => insertAll (if r ∈ rows then rows else rows ++ [r]) rest

/-- What is left of a set of residuals after a character. -/
def stepsOfRows (c : Char) (rows : List (List Pattern)) : List (List Pattern) :=
  rows.foldl (fun found row => insertAll found (stepsOfRow c row)) []

/-- The outcome of a match at the start of a text, in characters. -/
structure Extent where
  /-- The longest match. -/
  longest : Option Nat
  /-- How far a match stays possible. -/
  viable : Nat
deriving Repr, DecidableEq

/-- Match a set of residuals behind `n` characters, where `best` is the longest match so far. -/
def scanFrom (n : Nat) (best : Option Nat) (rows : List (List Pattern)) : List Char → Extent
  | [] => ⟨if rows.any (·.all nullable) then some n else best, n⟩
  | c :: rest =>
    let best := if rows.any (·.all nullable) then some n else best
    match stepsOfRows c rows with
    | [] => ⟨best, n⟩
    | next => scanFrom (n + 1) best next rest

/-- Match a pattern at the start of a text. -/
def scan (p : Pattern) (text : List Char) : Extent :=
  scanFrom 0 none [[p]] text

end Pattern

end Uninit.Grammar
