import Uninit.Grammar.Stack

/-!
# Versions of a reading

Where a text can be read in several ways, several versions of the reading are kept, the best
first. A version that can go on no more waits at its token until it is known whether another
does better.

## Main definitions

* `Version`, `Reading`
* `Version.compare`: which of two versions does better
* `Reading.reduce`: make the parts of a production whole
-/
namespace Uninit.Grammar

/-- A state further down to which a lost reading may go back. -/
structure Retreat where
  place : Tree.Point
  depth : Nat
  state : State
deriving Inhabited

/-- Whether a version goes on. -/
inductive Status where
  | running
  /-- Nothing can be done at a token. -/
  | waiting (l : Lexeme)
  | ended
deriving Inhabited

/-- One way to read a text up to some place. -/
structure Version where
  stack : Stack
  /-- The number of nodes when the reading last got lost. -/
  mark : Nat
  status : Status
  /-- The states to which a lost reading may go back, the nearest first. -/
  retreats : List Retreat
deriving Inhabited

namespace Version

/-- A version that goes on from a stack. -/
def of (stack : Stack) (mark : Nat) : Version :=
  ⟨stack, mark, .running, []⟩

def isRunning (v : Version) : Bool :=
  v.status matches .running

def isWaiting (v : Version) : Bool :=
  v.status matches .waiting _

def isEnded (v : Version) : Bool :=
  v.status matches .ended

def state (v : Version) : State :=
  v.stack.state

/-- Where the text that a version has still to read starts. -/
def place (v : Version) : Tree.Point :=
  v.stack.place.point

/-- What the repairs of a version cost, with the one that is due if it is at a loss. -/
def cost (v : Version) : Nat :=
  let atLoss := v.isWaiting ||
    (v.state.isLost && (v.stack.links.head?.map Prod.fst).all Option.isNone)
  v.stack.cost + if atLoss then Grammar.cost.recovery else 0

/-- How many nodes have been made since the reading last got lost. -/
def progress (v : Version) : Nat :=
  v.stack.top.nodes - v.mark

/-- What counts when versions are compared. -/
structure Standing where
  cost : Nat
  progress : Nat
  weight : Int
  atLoss : Bool

/-- What counts for a version. -/
def standing (v : Version) : Standing :=
  ⟨v.cost + (if v.isWaiting then Grammar.cost.node else 0), v.progress, v.stack.top.weight,
    v.isWaiting || v.state.isLost⟩

/-- Which of two versions does better, and whether the other is given up. -/
inductive Preference where
  | takeFirst | preferFirst | neither | preferSecond | takeSecond
deriving Repr, DecidableEq

/-- Compare two versions. One that is not at a loss does better than one that is, then the cheaper
does better. The other is given up if it is worse on both counts, or if its greater cost weighs
too much against its progress. -/
def compare (a b : Standing) : Preference :=
  if !a.atLoss && b.atLoss then (if a.cost < b.cost then .takeFirst else .preferFirst)
  else if a.atLoss && !b.atLoss then (if b.cost < a.cost then .takeSecond else .preferSecond)
  else if a.cost < b.cost then
    (if Grammar.cost.difference < (b.cost - a.cost) * (1 + a.progress) then .takeFirst
      else .preferFirst)
  else if b.cost < a.cost then
    (if Grammar.cost.difference < (a.cost - b.cost) * (1 + b.progress) then .takeSecond
      else .preferSecond)
  else if b.weight < a.weight then .preferFirst
  else if a.weight < b.weight then .preferSecond
  else .neither

/-- Whether two versions can be joined. -/
def meets (a b : Version) : Bool :=
  a.isRunning && b.isRunning && a.stack.meets b.stack

def join (a b : Version) : Version :=
  let stack := a.stack.join b.stack
  { a with stack, mark := if stack.state.isLost then stack.top.nodes else a.mark }

end Version

/-- All versions of a reading, and the best way to read the whole text found so far. -/
structure Reading where
  versions : List Version
  finished : Option Derivation
  /-- How many ways to read the whole text have been found. -/
  accepted : Nat
deriving Inhabited

namespace Reading

/-- The greatest number of versions that are kept. -/
def maxVersions : Nat := 6

/-- How many more versions there may be for a while. -/
def overflow : Nat := 4

def get (r : Reading) (i : Nat) : Version :=
  r.versions[i]?.getD default

def set (r : Reading) (i : Nat) (v : Version) : Reading :=
  { r with versions := r.versions.set i v }

def remove (r : Reading) (i : Nat) : Reading :=
  { r with versions := r.versions.eraseIdx i }

/-- Put the version from one place into another, where it was not. -/
def move (r : Reading) (source target : Nat) : Reading :=
  (r.set target (r.get source)).remove source

/-- Join a version with the first that it meets, or keep it at the end. The version at `skip` is
not considered. -/
def add (new : Version) (skip : Nat) (r : Reading) : Reading :=
  match r.versions.zipIdx.find? fun (v, j) => j != skip && v.meets new with
  | some (v, j) => r.set j (v.join new)
  | none => { r with versions := r.versions ++ [new] }

/-- The ways over the parts of a production, put together by what is below them. -/
def groupPaths : List (Stack × List (List Derivation)) → List Stack.Path →
    List (Stack × List (List Derivation))
  | groups, [] => groups
  | groups, p :: rest =>
    let fits (g : Stack × List (List Derivation)) : Bool := g.1.same p.below
    groupPaths
      (match groups.findIdx? fits with
        | some i => groups.modify i fun g => (g.1, g.2 ++ [p.parts])
        | none => groups ++ [(p.below, [p.parts])])
      rest

/-- The best way to make a production whole on a stack, with what stands behind it. -/
def bestWhole (p : Production) (below : Stack) :
    Option (Derivation × List Derivation) → List (List Derivation) →
    Option (Derivation × List Derivation)
  | found, [] => found
  | found, parts :: rest =>
    let (own, trailing) := Derivation.splitExtras parts
    let new := Derivation.ofParts (.nonterminal p.whole) p.steps below.place own
    let better := found.all fun (old, _) => new.replaces old
    bestWhole p below (if better then some (new, trailing) else found) rest

/-- Put a production that has been made whole on a stack, with what stands behind it. -/
def pushWhole (p : Production) (below : Stack) (whole : Derivation) (trailing : List Derivation) :
    Stack :=
  let next := below.state.after (.nonterminal p.whole)
  trailing.foldl (fun s d => s.push d next) (below.push (whole.weighed p.weight) next)

/-- Make the parts of a production whole in the version at a place. The versions that come of it
are joined with others or kept at the end; the place of the first of these, if there are any,
is given too. -/
def reduce (i : Nat) (p : Production) (r : Reading) : Reading × Option Nat :=
  let v := r.get i
  let first := r.versions.length
  let r := (groupPaths [] (v.stack.paths p.steps.length)).foldl (fun r (below, ways) =>
    if maxVersions + overflow < r.versions.length then r
    else
      match bestWhole p below none ways with
      | some (whole, trailing) =>
        r.add (.of (pushWhole p below whole trailing) v.mark) i
      | none => r) r
  (r, if first < r.versions.length then some first else none)

/-- Take note of a way to read the whole text. -/
def finish (parts : List Derivation) (r : Reading) : Reading :=
  let (own, trailing) := Derivation.splitExtras parts
  match own.getLast? with
  | none => r
  | some last =>
    let place := last.summary.stop
    let whole := Derivation.ofParts last.root [] { place with point := .origin }
      (own.dropLast ++ last.parts ++ trailing)
    { r with
      accepted := r.accepted + 1
      finished := if r.finished.all whole.replaces then some whole else r.finished }

/-- Take note of every way in which the version at a place reads the whole text, and end it. The end
of the text belongs to the whole with the blanks before it. -/
def accept (i : Nat) (l : Lexeme) (r : Reading) : Reading :=
  let v := r.get i
  let ending := Derivation.ofLexeme l true
  let r := v.stack.contents.foldl (fun r parts => r.finish (parts ++ [ending])) r
  r.set i { v with status := .ended }

end Reading

end Uninit.Grammar
