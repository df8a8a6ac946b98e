import Uninit.Grammar.Rules

/-!
# Productions

The productions of the grammar, and what can begin a phrase. Only a whole file can be empty, so a
phrase begins with its first part.

What does not change is kept in tables by the places of phrases and tokens.

## Main definitions

* `Nonterminal.productions`: the productions of a phrase
* `Symbol.firsts`: the tokens with which a symbol can begin
* `Nonterminal.reach`, `Nonterminal.soleReach`: the phrases with which a phrase can begin
* `Nonterminal.contexts`: what can follow a phrase with which others begin
* `Symbol.openings`: the productions that begin with a symbol
-/
namespace Uninit.Grammar

/-- A way to make a phrase. -/
structure Production where
  /-- The place of the production in the order of all. -/
  rank : Nat
  whole : Nonterminal
  steps : List Step
  strength : Int
  side : Option Side
  weight : Int
deriving Repr, DecidableEq, Inhabited

namespace Production

/-- More than the number of productions of any phrase. -/
def perPhrase : Nat := 1024

/-- Rows as productions of a phrase, numbered from `n`. -/
def ofRows (whole : Nonterminal) (n : Nat) : List Row → List Production
  | [] => []
  | r :: rest =>
    ⟨n, whole, r.steps, r.strength.getD 0, r.side, r.weight⟩ :: ofRows whole (n + 1) rest

/-- The productions of a phrase, as its rule gives them. -/
def ofRule (n : Nonterminal) : List Production :=
  ofRows n (n.rank * perPhrase) n.rule.expand

def table : Array (List Production) :=
  (Nonterminal.all.map ofRule).toArray

/-- The symbol with which a production begins. -/
def head? (p : Production) : Option Symbol :=
  p.steps.head?.map Step.symbol

def isSole (p : Production) : Bool :=
  match p.steps with
  | [_] => true
  | _ => false

end Production

/-- A set of kinds of phrase. -/
structure PhraseSet where
  /-- The bit at the place of each member is set. -/
  bits : Nat
deriving Repr, DecidableEq, Inhabited

namespace PhraseSet

def empty : PhraseSet := ⟨0⟩

def single (n : Nonterminal) : PhraseSet := ⟨1 <<< n.rank⟩

def union (a b : PhraseSet) : PhraseSet := ⟨a.bits ||| b.bits⟩

def contains (s : PhraseSet) (n : Nonterminal) : Bool := s.bits.testBit n.rank

/-- The union of what belongs to the members. -/
def extend (f : Nonterminal → PhraseSet) (s : PhraseSet) : PhraseSet :=
  Nonterminal.all.foldl (fun found n => if s.contains n then found.union (f n) else found) s

/-- Go on from a set to what belongs to its members until nothing is new, at most `fuel` times. -/
def settle (f : Nonterminal → PhraseSet) : Nat → PhraseSet → PhraseSet
  | 0, s => s
  | fuel + 1, s =>
    let more := s.extend f
    if more.bits == s.bits then s else settle f fuel more

/-- All that belongs to a phrase, to what belongs to it, and so on. -/
def closure (f : Nonterminal → PhraseSet) (n : Nonterminal) : PhraseSet :=
  settle f Nonterminal.count (single n)

end PhraseSet

namespace Nonterminal

def productions (n : Nonterminal) : List Production :=
  Production.table[n.rank]?.getD []

/-- The phrases with which some productions begin. -/
def headsOf (ps : List Production) : PhraseSet :=
  ps.foldl (fun found p =>
    match p.head? with
    | some (.nonterminal n) => found.union (.single n)
    | _ => found) .empty

/-- The tokens with which some productions begin. -/
def leadsOf (ps : List Production) : TokenSet :=
  ps.foldl (fun found p =>
    match p.head? with
    | some (.terminal t) => found.union (.single t)
    | _ => found) .empty

def reachTable : Array PhraseSet :=
  (all.map (PhraseSet.closure fun n => headsOf n.productions)).toArray

/-- The phrases with which a phrase can begin, itself included. -/
def reach (n : Nonterminal) : PhraseSet :=
  reachTable[n.rank]?.getD .empty

/-- The phrases that can make up every phrase alone. -/
def soleTable : Array PhraseSet :=
  (all.map (PhraseSet.closure fun n =>
    headsOf (n.productions.filter Production.isSole))).toArray

/-- The phrases that can make up a phrase alone, itself included. -/
def soleReach (n : Nonterminal) : PhraseSet :=
  soleTable[n.rank]?.getD .empty

def firstTable : Array TokenSet :=
  (all.map fun n => all.foldl (fun found m =>
    if n.reach.contains m then found.union (leadsOf m.productions) else found) .empty).toArray

/-- The tokens with which a phrase can begin. -/
def firsts (n : Nonterminal) : TokenSet :=
  firstTable[n.rank]?.getD .empty

end Nonterminal

def Symbol.firsts : Symbol → TokenSet
  | terminal t => .single t
  | nonterminal n => n.firsts

namespace Nonterminal

/-- What follows a phrase in some productions of another that begin with it, as far as it is no
sole part. -/
def followIn (n : Nonterminal) (ps : List Production) : TokenSet :=
  ps.foldl (fun found p =>
    match p.steps with
    | ⟨.nonterminal m, _, _⟩ :: next :: _ =>
      if m.soleReach.contains n then found.union next.symbol.firsts else found
    | _ => found) .empty

/-- For every phrase, the phrases that can begin with it, and what follows it there. -/
def contextTable : Array (List (Nonterminal × TokenSet)) :=
  (all.map fun n => all.filterMap fun m =>
    let found := n.followIn m.productions
    if found.isEmpty then none else some (m, found)).toArray

/-- The phrases of which some production begins with a phrase and goes on, and what follows it
there. -/
def contexts (n : Nonterminal) : List (Nonterminal × TokenSet) :=
  contextTable[n.rank]?.getD []

end Nonterminal

/-- The productions that begin with a symbol, by the phrases that they make. -/
def Production.beginningWith (x : Symbol) : List (Nonterminal × List Production) :=
  Nonterminal.all.filterMap fun n =>
    match n.productions.filter fun p => p.head? == some x with
    | [] => none
    | ps => some (n, ps)

def Terminal.openingTable : Array (List (Nonterminal × List Production)) :=
  (Terminal.all.map fun t => Production.beginningWith (.terminal t)).toArray

def Nonterminal.openingTable : Array (List (Nonterminal × List Production)) :=
  (Nonterminal.all.map fun n => Production.beginningWith (.nonterminal n)).toArray

/-- The productions that begin with a symbol, by the phrases that they make. -/
def Symbol.openings : Symbol → List (Nonterminal × List Production)
  | terminal t => Terminal.openingTable[t.rank]?.getD []
  | nonterminal n => Nonterminal.openingTable[n.rank]?.getD []

end Uninit.Grammar
