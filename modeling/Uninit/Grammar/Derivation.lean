import Uninit.Grammar.Lexeme
import Uninit.Grammar.Production

/-!
# Derivations

A derivation is a phrase with its parts, a token, or a part of the text that has no place. It
carries what is needed to choose between readings: what its repairs cost, the weight of its
productions, and how many nodes it shows.

## Main definitions

* `Derivation`, `Derivation.ofLexeme`, `Derivation.ofParts`
* `Derivation.replaces`: the choice between two derivations of one text
-/
namespace Uninit.Grammar

/-- What is derived. -/
inductive Root where
  | terminal (t : Terminal)
  | nonterminal (n : Nonterminal)
  /-- Parts that have no place, taken out of the text. -/
  | error
  /-- Parts that have no place so far. -/
  | skipped
deriving Repr, DecidableEq, Inhabited

namespace Root

/-- The place of a root in an order of all roots. -/
def rank : Root → Nat
  | terminal t => t.rank
  | nonterminal n => Terminal.count + n.rank
  | skipped => Terminal.count + Nonterminal.count
  | error => Terminal.count + Nonterminal.count + 1

/-- What the root is in a tree, or none if its parts take its place. -/
def kind? : Root → Option Tree.Kind
  | terminal t => t.kind?
  | nonterminal n => n.kind?
  | error => some .error
  | skipped => none

/-- Whether the parts have no place. -/
def isFault : Root → Bool
  | error | skipped => true
  | _ => false

end Root

/-- What repairs cost. -/
structure Cost where
  /-- A part of the text is left without a place. -/
  recovery : Nat
  /-- A token is taken to be there. -/
  missing : Nat
  /-- A node is skipped. -/
  node : Nat
  /-- A byte is skipped. -/
  byte : Nat
  /-- A line is skipped. -/
  line : Nat
  /-- Two readings that differ by more are not both kept. -/
  difference : Nat

/-- The costs of repairs. -/
def cost : Cost :=
  { recovery := 500, missing := 110, node := 100, byte := 1, line := 30, difference := 1800 }

/-- The cost of the bytes and lines between two places. -/
def Cost.between (a b : Tree.Point) : Nat :=
  cost.byte * (b.byte - a.byte) + cost.line * (b.row - a.row)

/-- All there is to a derivation beside its parts. -/
structure Summary where
  root : Root
  /-- Where the blanks before it start. -/
  before : Tree.Point
  start : Tree.Point
  stop : Cursor
  /-- What its repairs cost. -/
  cost : Nat
  weight : Int
  /-- It may stand anywhere, and is no part of a production. -/
  extra : Bool
  /-- It is a token that is not there. -/
  missing : Bool
  /-- How many nodes it shows in its place in a tree, if it is none itself. -/
  shown : Nat
  /-- How many nodes of a tree are below it. -/
  below : Nat
  /-- The steps of the production that it follows. -/
  steps : List Step
deriving Inhabited

/-- A phrase with its parts, or a token. -/
inductive Derivation where
  | node (summary : Summary) (parts : List Derivation)
deriving Inhabited

namespace Derivation

def summary : Derivation → Summary
  | node s _ => s

def parts : Derivation → List Derivation
  | node _ ps => ps

def root (d : Derivation) : Root := d.summary.root

/-- What the repairs of a derivation cost. -/
def cost (d : Derivation) : Nat := d.summary.cost

def weight (d : Derivation) : Int := d.summary.weight

/-- Whether a derivation may stand anywhere. -/
def isExtra (d : Derivation) : Bool := d.summary.extra

/-- Whether a derivation is a node of a tree. -/
def isShown (d : Derivation) : Bool := d.root.kind?.isSome

/-- How many nodes of a tree a derivation makes, itself included. -/
def size (d : Derivation) : Nat :=
  d.summary.below + (if d.isShown then 1 else 0) + (if d.root = .skipped then 1 else 0)

/-- A token that has been read, or a piece that cannot be read. -/
def ofLexeme (l : Lexeme) (extra : Bool) : Derivation :=
  node ⟨(l.terminal?.map Root.terminal).getD .error, l.before, l.start, l.stop, 0, 0, extra,
    false, 0, 0, []⟩ []

/-- A token that is taken to be there. -/
def ofMissing (t : Terminal) (place : Cursor) : Derivation :=
  node ⟨.terminal t, place.point, place.point, place, Grammar.cost.missing + Grammar.cost.recovery,
    0, false, true, 0, 0, []⟩ []

/-- How many nodes a part counts for if it is skipped. -/
def skippedNodes (d : Derivation) : Nat :=
  if d.isExtra || (d.root == .error && d.parts.isEmpty) then 0
  else if d.isShown then 1
  else if d.parts.isEmpty then 0
  else d.summary.shown

/-- How many nodes a part shows in its place. -/
def shownNodes (d : Derivation) : Nat :=
  if d.isShown then 1 else if d.parts.isEmpty then 0 else d.summary.shown

/-- A derivation from its parts, which stands at `place` if there are none. -/
def ofParts (root : Root) (steps : List Step) (place : Cursor) (parts : List Derivation) :
    Derivation :=
  let before := (parts.head?.map fun d => d.summary.before).getD place.point
  let start := (parts.head?.map fun d => d.summary.start).getD place.point
  let stop := (parts.getLast?.map fun d => d.summary.stop).getD place
  let repairs := parts.foldl (fun n d => if d.root = .skipped then n else n + d.cost) 0
  let own :=
    if root.isFault then
      Grammar.cost.recovery + Cost.between start stop.point +
        parts.foldl (fun n d => n + Grammar.cost.node * d.skippedNodes) 0
    else 0
  let weight := parts.foldl (fun n d => n + d.weight) 0
  let shown := parts.foldl (fun n d => n + d.shownNodes) 0
  let below := parts.foldl (fun n d => n + d.summary.below + if d.isShown then 1 else 0) 0
  node ⟨root, before, start, stop, repairs + own, weight, false, false, shown, below, steps⟩ parts

/-- A derivation that weighs more by a rule that it follows. -/
def weighed (weight : Int) : Derivation → Derivation
  | node s ps => node { s with weight := s.weight + weight } ps

/-- A derivation that may stand anywhere. -/
def asExtra : Derivation → Derivation
  | node s ps => node { s with extra := true } ps

mutual

/-- The order of two derivations by their roots, their numbers of parts, and their parts. -/
def order : Derivation → Derivation → Ordering
  | node s ps, node t qs =>
    (compare s.root.rank t.root.rank).then
      ((compare ps.length qs.length).then (orderAll ps qs))

def orderAll : List Derivation → List Derivation → Ordering
  | p :: ps, q :: qs => (order p q).then (orderAll ps qs)
  | _, _ => .eq

end

/-- Whether a derivation is chosen over the one so far: the cheaper, then the weightier, then one
with repairs, then the lesser. -/
def replaces (new old : Derivation) : Bool :=
  if new.cost ≠ old.cost then decide (new.cost < old.cost)
  else if new.weight ≠ old.weight then decide (old.weight < new.weight)
  else decide (0 < old.cost) || order new old == .lt

/-- Whether two derivations do for one another in what follows. -/
def agrees (a b : Derivation) : Bool :=
  let s := a.summary
  let t := b.summary
  s.root == t.root && ((decide (0 < s.cost) && decide (0 < t.cost)) ||
    (s.start.byte - s.before.byte == t.start.byte - t.before.byte &&
      s.stop.point.byte - s.start.byte == t.stop.point.byte - t.start.byte &&
      a.parts.length == b.parts.length && s.extra == t.extra))

/-- The parts without those at the end that may stand anywhere, and these. -/
def splitExtras (ps : List Derivation) : List Derivation × List Derivation :=
  let trailing := (ps.reverse.takeWhile isExtra).reverse
  (ps.take (ps.length - trailing.length), trailing)

end Derivation

end Uninit.Grammar
