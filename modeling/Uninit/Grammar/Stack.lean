import Uninit.Grammar.Derivation
import Uninit.Grammar.State

/-!
# Stacks of readings

A stack holds the derivations read so far with the states between them. Where readings differ
in some stretch and then agree, they share what is before and what is behind: a state may be
linked to several states below it, each link with the derivation in between. A link without
a derivation stands where a reading got lost.

## Main definitions

* `Stack`, `Stack.push`, `Stack.join`
* `Stack.paths`: the ways down over a number of derivations
-/
namespace Uninit.Grammar

/-- All there is to the top of a stack beside its links. -/
structure Top where
  state : State
  place : Cursor
  /-- What the repairs so far cost. -/
  cost : Nat
  weight : Int
  /-- How many nodes of a tree have been made. -/
  nodes : Nat
  /-- The longest way down. -/
  height : Nat
  /-- A number that tells stacks apart. -/
  digest : Nat
deriving Inhabited

/-- The derivations read so far, with the states between them. -/
inductive Stack where
  | node (top : Top) (links : List (Option Derivation × Stack))
deriving Inhabited

/-- A way to what is below a state, with the derivation in between. -/
abbrev Link := Option Derivation × Stack

namespace Stack

def top : Stack → Top
  | node t _ => t

def links : Stack → List Link
  | node _ ls => ls

def state (s : Stack) : State := s.top.state

/-- Where the text that is still to be read starts. -/
def place (s : Stack) : Cursor := s.top.place

/-- What the repairs so far cost. -/
def cost (s : Stack) : Nat := s.top.cost

/-- The number that tells a link apart. -/
def linkDigest (l : Link) : Nat :=
  match l.1 with
  | none => mix l.2.top.digest 1
  | some d =>
    let s := d.summary
    [s.root.rank, s.start.byte, s.stop.point.byte, s.cost, s.weight.natAbs,
      (if s.weight < 0 then 1 else 0) + (if s.extra then 2 else 0) +
        (if s.missing then 4 else 0)].foldl mix l.2.top.digest

/-- A stack with the given top. -/
def make (state : State) (place : Cursor) (cost : Nat) (weight : Int) (nodes : Nat)
    (links : List Link) : Stack :=
  let height := links.foldl (fun n l => max n (l.2.top.height + 1)) 0
  let digest := (links.map linkDigest).foldl mix
    ([place.point.byte, cost, weight.natAbs, if weight < 0 then 1 else 0, nodes].foldl mix
      state.digest)
  node ⟨state, place, cost, weight, nodes, height, digest⟩ links

/-- The stack before anything is read. -/
def bottom (text : List Char) : Stack :=
  make .start (.start text) 0 0 0 []

/-- Put a derivation on a stack. -/
def push (s : Stack) (d : Derivation) (state : State) : Stack :=
  make state d.summary.stop (s.cost + d.cost) (s.top.weight + d.weight) (s.top.nodes + d.size)
    [(some d, s)]

/-- The stack of a reading that gets lost. -/
def loseWay (s : Stack) : Stack :=
  make .lost s.place s.cost s.top.weight s.top.nodes [(none, s)]

/-- Whether two stacks are at the same state and place, with repairs of the same cost. -/
def meets (a b : Stack) : Bool :=
  a.place.point.byte == b.place.point.byte && a.cost == b.cost && a.state.same b.state

/-- Whether two stacks are the same. -/
def same (a b : Stack) : Bool :=
  a.top.digest == b.top.digest && a.meets b && a.top.weight == b.top.weight

/-- The weight that a link gives to the stack above it. -/
def linkWeight (l : Link) : Int :=
  l.2.top.weight + (l.1.map Derivation.weight).getD 0

/-- Whether the derivations of two links do for one another. -/
def agree : Option Derivation → Option Derivation → Bool
  | none, none => true
  | some a, some b => a.agrees b
  | _, _ => false

/-- The greatest number of ways down from a state. -/
def maxLinks : Nat := 8

/-- Fit a link into one of some links with which it agrees, where `unite` joins stacks that meet.
Besides the links, the result says what becomes of the weight of the stack. -/
def fitLink (unite : Stack → Stack → Stack) (new : Link) :
    List Link → Option (List Link × (Int → Int))
  | [] => none
  | l :: rest =>
    if agree l.1 new.1 && l.2.same new.2 then
      match l.1, new.1 with
      | some d, some e =>
        if d.weight < e.weight then some (new :: rest, fun _ => linkWeight new)
        else some (l :: rest, id)
      | _, _ => some (l :: rest, id)
    else if agree l.1 new.1 && l.2.meets new.2 then
      some ((l.1, unite l.2 new.2) :: rest, fun w => max w (linkWeight new))
    else
      (fitLink unite new rest).map fun (ls, f) => (l :: ls, f)

/-- Add a link to a stack, going down at most `fuel` states where stacks have to be joined. -/
def addLink : Nat → Stack → Link → Stack
  | 0, s, _ => s
  | fuel + 1, s, new =>
    let t := s.top
    let unite (a b : Stack) : Stack := b.links.foldl (addLink fuel) a
    match fitLink unite new s.links with
    | some (ls, f) => make t.state t.place t.cost (f t.weight) t.nodes ls
    | none =>
      if maxLinks ≤ s.links.length then s
      else make t.state t.place t.cost (max t.weight (linkWeight new))
        (max t.nodes (new.2.top.nodes + (new.1.map Derivation.size).getD 0)) (s.links ++ [new])

def join (a b : Stack) : Stack :=
  b.links.foldl (addLink (a.top.height + 1)) a

/-- A way down: where it has come to, the derivations on it, and how many count. -/
structure Path where
  below : Stack
  parts : List Derivation
  depth : Nat

namespace Path

/-- A way down by one more link. A derivation that may stand anywhere does not count. -/
def extend (p : Path) (l : Link) : Path :=
  match l.1 with
  | some d => ⟨l.2, d :: p.parts, if d.isExtra then p.depth else p.depth + 1⟩
  | none => ⟨l.2, p.parts, p.depth + 1⟩

/-- The greatest number of ways that are followed at once. -/
def maxCount : Nat := 64

/-- The outcome of following some ways down by one link each. -/
structure Round where
  /-- The ways that had come to their ends before. -/
  ended : List Path
  /-- The ways that go on, each in its place. -/
  kept : List Path
  /-- The other ways where one parts. -/
  added : List Path

/-- Follow some ways down by one link each, up to ends over `count` derivations; `n` is the number
of ways that are under way. Of the ways that part, the first takes the place of the one before. -/
def stepAll (count n : Nat) : List Path → Round
  | [] => ⟨[], [], []⟩
  | p :: rest =>
    if p.depth == count then
      let r := stepAll count (n - 1) rest
      { r with ended := p :: r.ended }
    else
      match p.below.links with
      | [] => stepAll count (n - 1) rest
      | l :: more =>
        let others := (more.take (maxCount - n)).map p.extend
        let r := stepAll count (n + others.length) rest
        { r with kept := p.extend l :: r.kept, added := others ++ r.added }

/-- The ways down over `count` derivations from some ways that are under way. -/
def collect (count : Nat) : Nat → List Path → List Path
  | 0, _ => []
  | _ + 1, [] => []
  | fuel + 1, ps =>
    let r := stepAll count ps.length ps
    r.ended ++ collect count fuel (r.kept ++ r.added)

end Path

/-- The ways down over `count` derivations. -/
def paths (s : Stack) (count : Nat) : List Path :=
  Path.collect count (s.top.height + 2) [⟨s, [], 0⟩]

/-- The ways down to the bottom, from some that are under way. -/
def pathsToBottom : Nat → List Path → List (List Derivation)
  | 0, _ => []
  | _ + 1, [] => []
  | fuel + 1, ps =>
    (ps.filter fun p => p.below.links.isEmpty).map Path.parts ++
      pathsToBottom fuel ((ps.flatMap fun p => p.below.links.map p.extend).take Path.maxCount)

/-- The derivations on every way down to the bottom. -/
def contents (s : Stack) : List (List Derivation) :=
  pathsToBottom (s.top.height + 2) [⟨s, [], 0⟩]

end Stack

end Uninit.Grammar
