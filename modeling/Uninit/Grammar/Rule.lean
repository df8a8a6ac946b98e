import Uninit.Grammar.Nonterminal
import Uninit.Grammar.Terminal

/-!
# Rules

A rule says what a phrase is made of. It is expanded to productions, each a row of steps with
no choice left. A rule may bind its parts more or less strongly and to one side, which settles
what follows what in an expression, and it may be preferred to other readings of a whole text.

## Main definitions

* `Rule`, and the functions that build rules
* `Rule.expand`: the rows of a rule
-/
namespace Uninit.Grammar

/-- A token or a phrase. -/
inductive Symbol where
  | terminal (t : Terminal)
  | nonterminal (n : Nonterminal)
deriving Repr, DecidableEq, Inhabited

/-- One part of a production. -/
structure Step where
  symbol : Symbol
  /-- The part it plays. -/
  field : Option Tree.Field
  /-- What it is called here, if not by its own kind. -/
  kind : Option Tree.Kind
deriving Repr, DecidableEq, Inhabited

/-- The side to which an operator groups. -/
inductive Side where
  | left | right
deriving Repr, DecidableEq, Inhabited

/-- What a phrase is made of. -/
inductive Rule where
  | nothing
  | symbol (s : Symbol)
  | seq (a b : Rule)
  | alt (a b : Rule)
  /-- Every part of it plays a part in the phrase. -/
  | field (f : Tree.Field) (r : Rule)
  /-- Every part of it is called by another kind. -/
  | called (k : Tree.Kind) (r : Rule)
  /-- It binds with some strength, and to a side if there is one. -/
  | bind (strength : Int) (side : Option Side) (r : Rule)
  /-- Readings with a greater weight are preferred. -/
  | weigh (weight : Int) (r : Rule)
deriving Repr, DecidableEq, Inhabited

/-- A way to make a phrase, as a row of steps. -/
structure Row where
  steps : List Step
  strength : Option Int
  side : Option Side
  weight : Int
deriving Repr, DecidableEq, Inhabited

namespace Rule

def tok (t : Terminal) : Rule := symbol (.terminal t)

def sub (n : Nonterminal) : Rule := symbol (.nonterminal n)

/-- Rules one after the other. -/
def sequence : List Rule → Rule
  | [] => nothing
  | [r] => r
  | r :: rest => seq r (sequence rest)

def any : List Rule → Rule
  | [] => nothing
  | [r] => r
  | r :: rest => alt r (any rest)

def oneOf (ts : List Terminal) : Rule := any (ts.map tok)

def opt (r : Rule) : Rule := alt r nothing

/-- A list of phrases, or nothing. -/
def many (n : Nonterminal) : Rule := opt (sub n)

/-- A phrase and more of the kind, where `tail` is the list of the others with their commas. -/
def separated (r : Rule) (tail : Nonterminal) : Rule := seq r (many tail)

def bindLeft (strength : Int) (r : Rule) : Rule := bind strength (some .left) r

def bindRight (strength : Int) (r : Rule) : Rule := bind strength (some .right) r

def bindFirm (strength : Int) (r : Rule) : Rule := bind strength none r

/-- The weight that counts more, whichever its sign. -/
def heavier (a b : Int) : Int := if a.natAbs < b.natAbs then b else a

/-- The rows of a rule, in the order of its choices. -/
def expand : Rule → List Row
  | nothing => [⟨[], none, none, 0⟩]
  | symbol s => [⟨[⟨s, none, none⟩], none, none, 0⟩]
  | seq a b =>
    let later := b.expand
    a.expand.flatMap fun x => later.map fun y =>
      ⟨x.steps ++ y.steps, x.strength.or y.strength, x.side.or y.side, heavier x.weight y.weight⟩
  | alt a b => a.expand ++ b.expand
  | field f r => r.expand.map fun x =>
    { x with steps := x.steps.map fun s => { s with field := s.field.or (some f) } }
  | called k r => r.expand.map fun x =>
    { x with steps := x.steps.map fun s => { s with kind := some k } }
  | bind strength side r => r.expand.map fun x =>
    { x with strength := x.strength.or (some strength), side := x.side.or side }
  | weigh weight r => r.expand.map fun x => { x with weight := heavier weight x.weight }

end Rule

end Uninit.Grammar
