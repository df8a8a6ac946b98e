import Uninit.Tree

/-!
# Writing tokens as one line of text

The tokens of a declaration are written the way declarations are written by hand: one space
where the source has a gap, none inside brackets or before punctuation, the `*` of a pointer
against what follows it, and the parenthesis of a call or a prototype against the name.
Tokens come in segments, and a new segment always counts as a gap.

## Main definitions

* `Tree.tokens`: the tokens of a tree, without its comments
* `Spacing.render`: the text of some segments
-/
namespace Uninit

/-- A token with the bytes where it stands. -/
structure Token where
  text : String
  kind : Tree.Kind
  start : Nat
  stop : Nat
  /-- It is the `*` of a pointer. -/
  bindsRight : Bool
deriving Repr, DecidableEq, Inhabited

namespace Tree

/-- The token of a node without children; a node without text gives none. -/
def leafToken (source : String) (parent : Option Kind) (l : Label) : List Token :=
  let text := Text.slice source l.start.byte l.stop.byte
  if text = "" then []
  else [⟨text, l.kind, l.start.byte, l.stop.byte, text = "*" && parent.any Kind.makesPointer⟩]

mutual

/-- The tokens of a tree in source order, under a parent of the given kind. Comments give none. -/
def tokens (source : String) (parent : Option Kind) : Tree → List Token
  | node l cs =>
    if l.kind = .comment then []
    else match cs with
      | [] => leafToken source parent l
      | c :: rest => tokens source (some l.kind) c ++ tokensOf source (some l.kind) rest

def tokensOf (source : String) (parent : Option Kind) : List Tree → List Token
  | [] => []
  | t :: rest => tokens source parent t ++ tokensOf source parent rest

end

end Tree

namespace Spacing

/-- Whether nothing may be set off before a text. -/
def closes (text : String) : Bool :=
  text == ")" || text == "]" || text == "," || text == ";" || text == "["

/-- Whether nothing may be set off behind a text. -/
def opens (text : String) : Bool :=
  text == "(" || text == "["

/-- Whether a parenthesis behind such a token is that of a call or a prototype. -/
def calls : Tree.Kind → Bool
  | .identifier | .fieldIdentifier => true
  | .token text => text == ")"
  | _ => false

/-- Whether a gap between two tokens is written as a space. -/
def spaced (previous next : Token) : Bool :=
  if previous.bindsRight || opens previous.text then false
  else if closes next.text then false
  else !(next.text == "(" && calls previous.kind)

/-- What stands between two tokens, where `border` says that a segment starts at the second. -/
def gap (border : Bool) (previous next : Token) : String :=
  if (border || decide (previous.stop < next.start)) && spaced previous next then " " else ""

/-- The text of the rest of a segment behind a token. -/
def renderAfter (previous : Token) : List Token → String
  | [] => ""
  | t :: rest => gap false previous t ++ t.text ++ renderAfter t rest

/-- The last token so far, after one more segment. -/
def lastToken (previous : Option Token) (segment : List Token) : Option Token :=
  segment.getLast?.or previous

/-- The text of a segment behind the last token so far. -/
def renderSegment (previous : Option Token) : List Token → String
  | [] => ""
  | t :: rest => (previous.elim "" fun p => gap true p t) ++ t.text ++ renderAfter t rest

/-- The text of some segments behind the last token so far. -/
def renderFrom (previous : Option Token) : List (List Token) → String
  | [] => ""
  | segment :: rest =>
    renderSegment previous segment ++ renderFrom (lastToken previous segment) rest

/-- The text of some segments. -/
def render (segments : List (List Token)) : String :=
  renderFrom none segments

end Spacing

end Uninit
