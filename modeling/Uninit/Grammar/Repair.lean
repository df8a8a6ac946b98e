import Uninit.Grammar.Version

/-!
# Repairs

What is done where no version of a reading can go on. A token that is not there may be taken to
be there, if it makes a phrase whole at the next token. Otherwise the reading gets lost: it goes
back to a state in which the next token can stand and leaves the parts in between without a
place, or it skips the next token. All this costs, and the cheapest reading is kept.

## Main definitions

* `Reading.reduceAll`: all ways to make phrases whole, whatever comes next
* `Reading.recover`: go on where a reading got lost
* `Reading.repair`: what is done where a reading can go on no more
-/
namespace Uninit.Grammar

namespace Reading

/-! ### Phrases that can be made whole -/

/-- The tokens to consider: one, or all if it is the end of the text or none at all. -/
def considered : Option Terminal → List Terminal
  | none | some .eof => Terminal.all.drop 1
  | some t => [t]

def isSingle : Option Terminal → Bool
  | none | some .eof => false
  | some _ => true

/-- Whether one of some tokens can be read in a state. -/
def canShift (s : State) (ts : List Terminal) : Bool :=
  if s.isLost then ts.any Lexeme.anywhere.contains
  else ts.any fun t => (s.actions t).any fun
    | .shift => true
    | _ => false

/-- Add a production if none for the same phrase with as many parts is there. -/
def addProduction (ps : List Production) (p : Production) : List Production :=
  if p.steps.isEmpty || ps.any fun q => q.whole == p.whole && q.steps.length == p.steps.length
  then ps else ps ++ [p]

/-- The productions that can be made whole in a state at one of some tokens. -/
def wholes (s : State) (ts : List Terminal) : List Production :=
  ts.foldl (fun ps t => (s.actions t).foldl (fun ps a =>
    match a with
    | .reduce p => addProduction ps p
    | _ => ps) ps) []

/-- Make phrases whole from the version at `i` on. Versions from `first` on are joined with each
other where they meet; `n` counts the steps. The flag says whether some version can read a token
that is considered. -/
def reduceFrom (look : Option Terminal) (start first : Nat) :
    Nat → Nat → Nat → Bool → Reading → Reading × Bool
  | 0, _, _, can, r => (r, can)
  | fuel + 1, i, n, can, r =>
    if r.versions.length ≤ i then (r, can)
    else
      let v := r.get i
      let mates := (r.versions.zipIdx.take i).drop first
      match mates.find? fun (w, _) => w.meets v with
      | some (w, j) =>
        reduceFrom look start first fuel i (n + 1) can ((r.set j (w.join v)).remove i)
      | none =>
        let count := r.versions.length
        let ts := considered look
        let shifts := canShift v.state ts
        let (r, last) := (wholes v.state ts).foldl
          (fun (r, _) p => r.reduce i p) ((r, none) : Reading × Option Nat)
        let next := if i = start then count else i + 1
        if shifts then reduceFrom look start first fuel next (n + 1) true r
        else
          match last with
          | some j =>
            if n < maxVersions then
              reduceFrom look start first fuel i (n + 1) can (r.move j i)
            else
              reduceFrom look start first fuel next (n + 1) can
                (if isSingle look then r.remove i else r)
          | none =>
            reduceFrom look start first fuel next (n + 1) can
              (if isSingle look then r.remove i else r)

/-- How many steps are taken to make phrases whole. -/
def reduceSteps : Nat := 400

/-- Make phrases whole in the version at `i` in every way that is possible at a token, or at any
token. The flag says whether the token can be read after that. -/
def reduceAll (i : Nat) (look : Option Terminal) (r : Reading) : Reading × Bool :=
  reduceFrom look i r.versions.length reduceSteps i 0 false r

/-! ### Going back -/

/-- The states below a stack with their depths, from ways down that are under way. -/
structure Descent where
  below : Stack
  depth : Nat

/-- The greatest depth to which a lost reading goes back. -/
def maxDepth : Nat := 16

/-- Take note of a state, unless one like it is there at the same depth. -/
def noteRetreat (d : Descent) (found : List Retreat) : List Retreat :=
  let level := found.reverse.takeWhile fun e => decide (d.depth ≤ e.depth)
  if level.any fun e => e.depth == d.depth && e.state.same d.below.state then found
  else found ++ [⟨d.below.place.point, d.depth, d.below.state⟩]

/-- Follow some ways down by one link each. -/
def descendAll (n : Nat) (found : List Retreat) :
    List Descent → List Retreat × List Descent × List Descent
  | [] => (found, [], [])
  | d :: rest =>
    if maxDepth < d.depth then descendAll (n - 1) found rest
    else
      let found := noteRetreat d found
      let extend (l : Link) : Descent :=
        ⟨l.2, if l.1.any Derivation.isExtra then d.depth else d.depth + 1⟩
      match d.below.links with
      | [] => descendAll (n - 1) found rest
      | l :: more =>
        let others := (more.take (Stack.Path.maxCount - n)).map extend
        let (found, kept, added) := descendAll (n + others.length) found rest
        (found, extend l :: kept, others ++ added)

/-- The states to which a lost reading may go back, from ways down that are under way. -/
def retreatsFrom : Nat → List Retreat → List Descent → List Retreat
  | 0, found, _ => found
  | _ + 1, found, [] => found
  | fuel + 1, found, ds =>
    let (found, kept, added) := descendAll ds.length found ds
    retreatsFrom fuel found (kept ++ added)

/-- The states to which a lost reading may go back. -/
def retreats (s : Stack) : List Retreat :=
  retreatsFrom (s.top.height + 2) [] [⟨s, 0⟩]

/-- Whether some other version does better than the one at `i` would at some cost. -/
def betterThan (i : Nat) (cost : Nat) (r : Reading) : Bool :=
  let v := r.get i
  let own : Version.Standing := ⟨cost, v.progress, v.stack.top.weight, false⟩
  r.finished.any (fun d => decide (d.cost ≤ cost)) ||
    r.versions.zipIdx.any fun (w, j) =>
      j != i && w.isRunning && decide (v.place.byte ≤ w.place.byte) &&
        match Version.compare own w.standing with
        | .takeSecond => true
        | .preferSecond => w.meets v
        | _ => false

/-- Leave out the parts of an error that was taken out of the text directly below a stack. They
belong to the error that is taken out now. -/
def reopen (below : Stack) : Stack × List Derivation :=
  match below.links.find? fun l => l.1.any fun d => d.root == .error with
  | some (some d, lower) => (lower, d.parts)
  | _ => (below, [])

/-- The versions that go back over some ways down to a state and take out what is in between. -/
def goBackOver (v : Version) (goal : State) : List Stack → List Stack.Path → List Version
  | _, [] => []
  | seen, p :: rest =>
    if seen.any p.below.same || !p.below.state.same goal then goBackOver v goal seen rest
    else
      let (below, before) := reopen p.below
      let (own, trailing) := Derivation.splitExtras (before ++ p.parts)
      let stack :=
        if own.isEmpty then below
        else below.push (Derivation.ofParts .error [] below.place own).asExtra goal
      .of (trailing.foldl (fun s d => s.push d goal) stack) v.mark ::
        goBackOver v goal (p.below :: seen) rest

/-- The versions that go back to a state at some depth and take out what is in between. -/
def goBack (v : Version) (depth : Nat) (goal : State) : List Version :=
  goBackOver v goal [] (v.stack.paths depth)

/-- The versions that go back to the first state in which a token can stand, if that is worth it. -/
def firstRetreat (i : Nat) (t : Terminal) (r : Reading) : List Retreat → List Version
  | [] => []
  | e :: rest =>
    let v := r.get i
    let taken := r.versions.any fun w => w.place.byte == v.place.byte && w.state.same e.state
    if e.state.isLost || e.place.byte == v.place.byte || taken then firstRetreat i t r rest
    else if r.betterThan i (v.cost + Cost.between e.place v.place) then []
    else
      let back :=
        if t == .comment || !(e.state.actions t).isEmpty then
          goBack v (e.depth + if 0 < v.progress then 1 else 0) e.state
        else []
      if back.isEmpty then firstRetreat i t r rest else back

/-- The stack on which a token has been skipped. -/
def skip (v : Version) (l : Lexeme) : Stack :=
  let token := Derivation.ofLexeme l (l.terminal? == some .comment)
  let skipped := Derivation.ofParts .skipped [] v.stack.place [token]
  let (below, skipped) :=
    match if 0 < v.progress then (v.stack.paths 1).head? else none with
    | some p => (p.below, Derivation.ofParts .skipped [] p.below.place (p.parts ++ [skipped]))
    | none => (v.stack, skipped)
  below.push skipped .lost

/-- Go on where the version at `i` got lost: go back, and skip the next token. At the end of the
text, what has been read is taken as an error. -/
def recover (i : Nat) (l : Lexeme) (r : Reading) : Reading :=
  let v := r.get i
  let back :=
    match l.terminal? with
    | some t => firstRetreat i t r v.retreats
    | none => []
  let after := { r with versions := r.versions ++ back }
  let give := after.set i { v with mark := 0, status := .ended }
  if l.terminal? = some .eof then
    let rest := Derivation.ofParts .error [] v.stack.place []
    (after.set i (.of (v.stack.push rest .start) 0)).accept i l
  else if !back.isEmpty && maxVersions < after.versions.length then give
  else if after.betterThan i (v.cost + cost.node + Cost.between l.before l.stop.point) then give
  else after.set i { v with stack := skip v l, status := .running }

/-! ### Missing tokens -/

def canReduce (s : State) (t : Terminal) : Bool :=
  (s.actions t).any fun
    | .reduce _ => true
    | _ => false

/-- Take a token to be there in the version `v`, the first of some that makes a phrase whole at the
next token. -/
def insertMissing (v : Version) (look : Terminal) : List Terminal → Reading → Reading × Bool
  | [], r => (r, false)
  | t :: rest, r =>
    if !(v.state.valid .empty).contains t || !v.state.shifts t then insertMissing v look rest r
    else
      let next := v.state.after (.terminal t)
      if next.isLost || next.same v.state || !canReduce next look then insertMissing v look rest r
      else
        let token := Derivation.ofMissing t v.stack.place
        let i := r.versions.length
        let (r, found) :=
          reduceAll i (some look)
            { r with versions := r.versions ++ [Version.of (v.stack.push token next) v.mark] }
        if found then (r, true) else insertMissing v look rest r

/-- Let the versions at some places get lost. In the first that admits it, a token is taken to be
there before that; `look` is the next token, and none if that has been done. -/
def loseWays (look : Option Terminal) : List Nat → Reading → Reading
  | [], r => r
  | i :: rest, r =>
    let v := r.get i
    let (r, found) :=
      match look with
      | some t => insertMissing v t (Terminal.all.drop 1) r
      | none => (r, false)
    let v := r.get i
    loseWays (if found then none else look) rest (r.set i { v with stack := v.stack.loseWay })

/-- What is done where the version at `i` can go on no more: phrases are made whole, a token is
taken to be there, and the reading gets lost. -/
def repair (i : Nat) (l : Lexeme) (r : Reading) : Reading :=
  let first := r.versions.length
  let (r, _) := r.reduceAll i none
  let last := r.versions.length
  let made := (List.range last).drop first
  let r := loseWays l.terminal? (i :: made) r
  let stack := (made.map fun j => (r.get j).stack).foldl Stack.join (r.get i).stack
  let versions := r.versions.take first ++ r.versions.drop last
  recover i l ({ r with versions }.set i
    ⟨stack, stack.top.nodes, .running, retreats stack⟩)

end Reading

end Uninit.Grammar
