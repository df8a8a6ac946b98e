import Uninit.Grammar.Repair

/-!
# Reading a text

A text is read by all versions in turn, each up to the next token. After each turn the versions
are compared, and those that do much worse than another are given up. The reading ends as soon as
some way to read the whole text is better than all versions that are left.

## Main definitions

* `Reading.advance`: let a version read a token
* `Reading.condense`: compare all versions
* `Grammar.derive`: the best derivation of a text
-/
namespace Uninit.Grammar

namespace Reading

/-- Put a token on the stack of a version. -/
def shift (v : Version) (l : Lexeme) : Version :=
  let next := l.terminal?.elim State.lost fun t => v.state.after (.terminal t)
  { v with stack := v.stack.push (.ofLexeme l false) next }

/-- Put a token that may stand anywhere on the stack of a version. -/
def shiftExtra (v : Version) (l : Lexeme) : Version :=
  { v with stack := v.stack.push (.ofLexeme l true) v.state }

/-- What became of a version at a token. -/
inductive Outcome where
  /-- The token was read, or the reading of the version is at its end. -/
  | done
  /-- Phrases were made whole; the version at this place goes on, if there is one. -/
  | reduced (last : Option Nat)
  /-- Nothing could be done. -/
  | stuck

/-- Do at a token what can be done in the version at `i`. -/
def act (i : Nat) (l : Lexeme) : Outcome → List Action → Reading → Reading × Outcome
  | o, [], r => (r, o)
  | o, a :: rest, r =>
    match a with
    | .shift => (r.set i (shift (r.get i) l), .done)
    | .shiftInList => act i l o rest r
    | .accept => (r.accept i l, .done)
    | .reduce p =>
      let (r, last) := r.reduce i p
      let before :=
        match o with
        | .reduced j => j
        | _ => none
      act i l (.reduced (last.or before)) rest r

/-- How many times phrases are made whole before one token. -/
def advanceSteps : Nat := 10000

/-- Let the version at `i` read a token, making phrases whole as long as that is possible. A keyword
for which nothing can be done is taken for an identifier. -/
def advanceFrom (i : Nat) : Nat → Lexeme → Reading → Reading
  | 0, _, r => r
  | fuel + 1, l, r =>
    let v := r.get i
    let stuck := r.set i { v with status := .waiting l }
    if v.state.isLost then
      if l.terminal?.all Lexeme.anywhere.contains then r.recover i l else stuck
    else
      match l.terminal? with
      | none => stuck
      | some .comment => r.set i (shiftExtra v l)
      | some t =>
        match act i l .stuck (v.state.actions t) r with
        | (r, .done) => r
        | (r, .reduced (some j)) => advanceFrom i fuel l (r.move j i)
        | (r, .reduced none) => r.set i { v with status := .ended }
        | (_, .stuck) =>
          if t.isKeyword && !(v.state.actions .identifier).isEmpty then
            advanceFrom i fuel { l with terminal? := some .identifier } r
          else stuck

def advance (i : Nat) (r : Reading) : Reading :=
  let v := r.get i
  advanceFrom i advanceSteps (.read (v.state.valid Lexeme.anywhere) v.stack.place) r

/-- Let the version at `i` go on until it is past `reached`, or at that place if it is not the
first version. The place it has come to is given too. -/
def advanceTo (i : Nat) : Nat → Nat → Reading → Reading × Nat
  | 0, reached, r => (r, reached)
  | fuel + 1, reached, r =>
    if (r.get i).isRunning && i < r.versions.length then
      let r := r.advance i
      let place := (r.get i).place.byte
      if reached < place || (0 < i && place == reached) then (r, place)
      else advanceTo i fuel reached r
    else (r, reached)

/-- Let all versions from the one at `i` on go on in turn. -/
def advanceAll : Nat → Nat → Nat → Reading → Reading × Nat
  | 0, _, reached, r => (r, reached)
  | fuel + 1, i, reached, r =>
    if i < r.versions.length then
      let (r, reached) := r.advanceTo i advanceSteps reached
      advanceAll fuel (i + 1) reached r
    else (r, reached)

/-- Compare the last of some versions, which counts for `own`, with those from the place `j` on. It
changes places with one that it does better than, and then this one goes on in its stead. -/
def place (own : Version.Standing) : Nat → Nat → List Version → List Version
  | 0, _, vs => vs
  | fuel + 1, j, vs =>
    let i := vs.length - 1
    if i ≤ j then vs
    else
      let a := vs[j]?.getD default
      let b := vs[i]?.getD default
      match Version.compare a.standing own with
      | .takeFirst => vs.eraseIdx i
      | .takeSecond => place own fuel j (vs.eraseIdx j)
      | preference =>
        if a.meets b then (vs.set j (a.join b)).eraseIdx i
        else if preference = .preferSecond then place own fuel (j + 1) ((vs.set j b).set i a)
        else place own fuel (j + 1) vs

/-- Compare all versions, one by one with those before it, and leave out those that are at their
ends or given up. -/
def compareAll (vs : List Version) : List Version :=
  vs.foldl (fun found v =>
    if v.isEnded then found else place v.standing (found.length + 1) 0 (found ++ [v])) []

/-- The least cost of some versions that are not at a loss. -/
def leastCost (vs : List Version) : Option Nat :=
  vs.foldl (fun least v =>
    let s := v.standing
    if v.isEnded || s.atLoss then least else some (least.elim s.cost (min s.cost))) none

/-- Let the first version that waits go on with a repair if no version before it is running, and
leave out the others that wait. The cost of the version that goes on is given too. -/
def resume : Nat → Nat → Bool → Option Nat → Reading → Reading × Option Nat
  | 0, _, _, least, r => (r, least)
  | fuel + 1, i, running, least, r =>
    if r.versions.length ≤ i then (r, least)
    else
      let v := r.get i
      match v.status with
      | .waiting l =>
        if !running && r.accepted < maxVersions then
          resume fuel (i + 1) true (some v.cost)
            ((r.set i { v with status := .running }).repair i l)
        else resume fuel i running least (r.remove i)
      | _ => resume fuel (i + 1) true least r

/-- Compare all versions, and let a version go on with a repair if none is running. The least cost
of a version is given too. -/
def condense (r : Reading) : Reading × Option Nat :=
  let least := leastCost r.versions
  let kept := (compareAll r.versions).take maxVersions
  resume (2 * maxVersions + overflow) 0 false least { r with versions := kept }

/-- Whether some way to read the whole text is better than all versions that are left. -/
def isSettled (least : Option Nat) (r : Reading) : Bool :=
  r.finished.any fun d => least.all fun n => decide (d.cost < n)

/-- Let all versions go on in turn until the reading ends. -/
def run : Nat → Nat → Reading → Reading
  | 0, _, r => r
  | fuel + 1, reached, r =>
    let (r, reached) := r.advanceAll (maxVersions * (overflow + maxVersions)) 0 reached
    let (r, least) := r.condense
    if r.isSettled least || r.versions.isEmpty then r else run fuel reached r

def start (text : List Char) : Reading :=
  ⟨[.of (.bottom text) 0], none, 0⟩

end Reading

/-- How many turns are taken to read a text. -/
def turns (text : List Char) : Nat :=
  100 * (text.length + 100)

/-- The best derivation of a text. -/
def derive (text : List Char) : Option Derivation :=
  ((Reading.start text).run (turns text) 0).finished

end Uninit.Grammar
