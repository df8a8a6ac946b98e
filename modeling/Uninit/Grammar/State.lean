import Uninit.Grammar.Production

/-!
# States of the reader

A state says which productions are under way, how far each has come, and what may follow it.
Only productions of which some part has been read are kept; those that could begin next are
found from them when they are needed. A state is found from the one before by the symbol that
was read, and says what can be done at a token.

## Main definitions

* `Item`, `State`, `State.start`
* `State.after`: the state behind a symbol
* `State.valid`: the tokens that may come next
* `State.actions`: what can be done at a token
-/
namespace Uninit.Grammar

/-- A production under way. -/
structure Item where
  production : Production
  /-- How many of its parts have been read. -/
  done : Nat
  /-- The parts still to come. -/
  next : List Step
  /-- The tokens that may follow the whole. -/
  follow : TokenSet
deriving Inhabited

namespace Item

/-- The symbol that has to come next. -/
def head? (i : Item) : Option Symbol :=
  i.next.head?.map Step.symbol

/-- What may follow the next symbol. -/
def afterHead (i : Item) : TokenSet :=
  match i.next with
  | _ :: s :: _ => s.symbol.firsts
  | _ => i.follow

def isComplete (i : Item) : Bool :=
  i.next.isEmpty

/-- Whether two items are the same. -/
def same (a b : Item) : Bool :=
  a.production.rank == b.production.rank && a.done == b.done && a.follow == b.follow

/-- Whether an item comes before another in the order of productions. -/
def precedes (a b : Item) : Bool :=
  decide (a.production.rank < b.production.rank) ||
    (a.production.rank == b.production.rank && decide (a.done < b.done))

def insert (i : Item) : List Item → List Item
  | [] => [i]
  | j :: rest => if j.precedes i then j :: insert i rest else i :: j :: rest

end Item

/-- Productions under way, in order. -/
structure State where
  items : List Item
  /-- A number that tells states apart. -/
  digest : Nat
deriving Inhabited

/-- Digests are below this bound, a prime. -/
def digestBound : Nat := 2305843009213693951

/-- Take a number into a digest. -/
def mix (digest n : Nat) : Nat :=
  (digest * 1000003 + n) % digestBound

/-- What can be done at a token. -/
inductive Action where
  | shift
  /-- The token may be read, but only as a part of a list that is first made whole. -/
  | shiftInList
  | reduce (p : Production)
  | accept
deriving Inhabited

namespace State

def ofItems (items : List Item) : State :=
  ⟨items, items.foldl (fun d i => mix (mix (mix d i.production.rank) i.done) i.follow.bits) 7⟩

/-- The state in which no production is under way. -/
def lost : State :=
  ofItems []

def isLost (s : State) : Bool :=
  s.items.isEmpty

/-- The state at the start of a file. The file may be empty. -/
def start : State :=
  ofItems (((Nonterminal.file.productions ++
      Nonterminal.translationUnit.productions.filter fun p => p.steps.isEmpty).map fun p =>
    (⟨p, 0, p.steps, .single .eof⟩ : Item)))

/-- Whether two states are the same. -/
def same (a b : State) : Bool :=
  a.digest == b.digest && a.items.length == b.items.length &&
    (a.items.zip b.items).all fun (x, y) => x.same y

/-- The phrases that may begin here. -/
def reach (s : State) : PhraseSet :=
  s.items.foldl (fun found i =>
    match i.head? with
    | some (.nonterminal n) => found.union n.reach
    | _ => found) .empty

/-- What may follow a phrase that begins here, where `reach` holds the phrases that may. -/
def followOf (s : State) (reach : PhraseSet) (n : Nonterminal) : TokenSet :=
  let inner := n.contexts.foldl (fun found c =>
    if reach.contains c.1 then found.union c.2 else found) .empty
  s.items.foldl (fun found i =>
    match i.head? with
    | some (.nonterminal m) =>
      if m.soleReach.contains n then found.union i.afterHead else found
    | _ => found) inner

/-- The productions of which a symbol is the first part that has been read, if they may begin
here. -/
def opened (s : State) (x : Symbol) : List Item :=
  let reach := s.reach
  x.openings.flatMap fun (n, ps) =>
    if reach.contains n then
      let follow := s.followOf reach n
      ps.map fun p => (⟨p, 1, p.steps.tail, follow⟩ : Item)
    else []

/-- The state behind a symbol. It is lost if the symbol cannot stand here. -/
def after (s : State) (x : Symbol) : State :=
  let advanced := s.items.filterMap fun i =>
    if i.head? = some x then some { i with done := i.done + 1, next := i.next.tail } else none
  ofItems ((s.opened x).foldl (fun items i => i.insert items) advanced)

/-- The tokens that may come next; anywhere else, every token is looked for. -/
def valid (s : State) (otherwise : TokenSet) : TokenSet :=
  if s.isLost then otherwise
  else s.items.foldl (fun found i =>
    found.union ((i.head?.map Symbol.firsts).getD i.follow)) (.single .comment)

/-- The productions that can be made whole at a token: of all that are complete, those that bind
most strongly. -/
def reductions (complete : List Item) : List Item :=
  let strength := complete.foldl (fun m i => max m i.production.strength)
    ((complete.head?.map fun i => i.production.strength).getD 0)
  complete.filter fun i => i.production.strength == strength

/-- The outcome where a token may be read and productions may be made whole too. The more strongly
bound wins; of equals, grouping to the left makes the whole, and grouping to the right reads on.
Otherwise both are done. -/
def settleConflict (reading complete reduced : List Item) : List Action :=
  let strength := (reduced.head?.map fun i => i.production.strength).getD 0
  let reduces := reduced.map fun i => Action.reduce i.production
  let stronger := reading.any fun i => decide (strength < i.production.strength)
  let weaker := reading.any fun i => decide (i.production.strength < strength)
  let sides := reduced.map fun i => i.production.side
  if (reading ++ complete).all fun i => i.production.whole.isList then reduces ++ [.shiftInList]
  else if stronger && !weaker then [.shift]
  else if weaker && !stronger then reduces
  else if stronger || weaker then reduces ++ [.shift]
  else if sides.all (· == some .left) then reduces
  else if sides.all (· == some .right) then [.shift]
  else reduces ++ [.shift]

/-- What can be done at a token. -/
def actions (s : State) (t : Terminal) : List Action :=
  let complete := s.items.filter fun i => i.isComplete && i.follow.contains t
  let reads := s.items.filter fun i => (i.head?.map Symbol.firsts).any fun f => f.contains t
  if complete.any fun i => i.production.whole == .file then [.accept]
  else if reads.isEmpty then (reductions complete).map fun i => .reduce i.production
  else if complete.isEmpty then [.shift]
  else settleConflict (reads.filter fun i => 0 < i.done) complete (reductions complete)

/-- Whether a token may be read. -/
def shifts (s : State) (t : Terminal) : Bool :=
  (s.actions t).any fun
    | .shift | .shiftInList => true
    | _ => false

end State

end Uninit.Grammar
