import Mathlib.Data.String.Basic
import Uninit.Proofs.Alike

/-!
# Tokens where they are written

The text of some segments has the tokens in it, each at a place of its own. Laid out at these
places, the tokens are written as the same text again: a space that was written is a gap in the new
layout, and where none was written inside a segment the tokens touch. Only the border of two
segments counts as a gap wherever the tokens stand, and there the tokens alone decide.

So a text that is written is a normal form. It consists of all the tokens in their order, with
nothing or one space between two that follow each other.

## Main definitions

* `Spacing.place`: the tokens of some segments where they are written
* `Spacing.Covers`: tokens fill a part of a text

## Main statements

* `covers_place`: the tokens of a text fill it
* `render_place_exact`: what is written is written again
-/
namespace Uninit

/-- The same token at another place. -/
def Token.movedTo (t : Token) (start : ℕ) : Token :=
  { t with start := start, stop := start + t.text.utf8ByteSize }

theorem Token.alike_movedTo (t : Token) (start : ℕ) : t.Alike (t.movedTo start) :=
  ⟨rfl, rfl, rfl⟩

/-- No character stands over the border of two texts. -/
theorem Text.isValid_append (a b : String) :
    String.Pos.Raw.isValid (a ++ b) ⟨a.utf8ByteSize⟩ = true :=
  String.Pos.Raw.isValid_eq_true_iff.mpr
    (String.Pos.Raw.isValid_iff_exists_append.mpr ⟨a, b, rfl, rfl⟩)

/-- The part of a text that stands between two others. -/
theorem Text.slice_append (a b c : String) :
    slice (a ++ b ++ c) a.utf8ByteSize (a.utf8ByteSize + b.utf8ByteSize) = b := by
  have hstart := isValid_append a (b ++ c)
  have hstop := isValid_append (a ++ b) c
  rw [← String.append_assoc] at hstart
  rw [String.utf8ByteSize_append] at hstop
  have h := String.extract_of_valid a.toList b.toList c.toList
  simp only [← String.utf8ByteSize_ofList, String.ofList_append, String.ofList_toList] at h
  rw [slice, hstart, hstop]
  exact h

namespace Spacing

/-! ## Places -/

/-- The rest of a segment where it is written, behind a token and some bytes. -/
def placeAfter (written : ℕ) (previous : Token) : List Token → List Token
  | [] => []
  | t :: rest =>
    let moved := t.movedTo (written + (gap false previous t).utf8ByteSize)
    moved :: placeAfter moved.stop t rest

def placeSegment (written : ℕ) (previous : Option Token) : List Token → List Token
  | [] => []
  | t :: rest =>
    let moved := t.movedTo (written + (previous.elim "" fun p => gap true p t).utf8ByteSize)
    moved :: placeAfter moved.stop t rest

/-- Segments where they are written, behind the last token so far and some bytes. -/
def placeFrom (written : ℕ) (previous : Option Token) : List (List Token) → List (List Token)
  | [] => []
  | segment :: rest =>
    placeSegment written previous segment ::
      placeFrom (written + (renderSegment previous segment).utf8ByteSize)
        (lastToken previous segment) rest

/-- The tokens of some segments where they stand in the text of the segments. -/
def place (segments : List (List Token)) : List (List Token) :=
  placeFrom 0 none segments

section Alike

theorem alike_placeAfter (written : ℕ) (previous : Token) (ts : List Token) :
    List.Forall₂ Token.Alike ts (placeAfter written previous ts) := by
  induction ts generalizing written previous with
  | nil => exact .nil
  | cons t rest ih => exact .cons (t.alike_movedTo _) (ih _ t)

theorem alike_placeSegment (written : ℕ) (previous : Option Token) (ts : List Token) :
    List.Forall₂ Token.Alike ts (placeSegment written previous ts) := by
  cases ts with
  | nil => exact .nil
  | cons t rest => exact .cons (t.alike_movedTo _) (alike_placeAfter _ t rest)

/-- Placing changes neither the tokens nor the segments. -/
theorem alike_placeFrom (written : ℕ) (previous : Option Token) (segments : List (List Token)) :
    List.Forall₂ (List.Forall₂ Token.Alike) segments (placeFrom written previous segments) := by
  induction segments generalizing written previous with
  | nil => exact .nil
  | cons segment rest ih => exact .cons (alike_placeSegment written previous segment) (ih _ _)

end Alike

/-! ## Writing again -/

theorem gap_eq_or (border : Bool) (previous next : Token) :
    gap border previous next = "" ∨ gap border previous next = " " := by
  rw [gap]
  split
  · exact .inr rfl
  · exact .inl rfl

theorem spaced_of_gap {border : Bool} {previous next : Token}
    (h : gap border previous next = " ") : spaced previous next = true := by
  rw [gap] at h
  split at h
  case isTrue hgap =>
    rw [Bool.and_eq_true] at hgap
    exact hgap.2
  case isFalse => simp at h

/-- **A gap that is written is a gap where it is written**, and tokens without one touch there. -/
theorem gap_movedTo {previous previous' : Token} (h : previous.Alike previous') (next : Token) :
    gap false previous'
        (next.movedTo (previous'.stop + (gap false previous next).utf8ByteSize)) =
      gap false previous next := by
  rcases gap_eq_or false previous next with hnone | hspace
  · rw [hnone]
    simp [gap, Token.movedTo]
  · have hspaced : spaced previous'
        (next.movedTo (previous'.stop + (gap false previous next).utf8ByteSize)) = true := by
      rw [← spaced_congr h (next.alike_movedTo _), spaced_of_gap hspace]
    rw [gap, hspaced, hspace]
    simp [Token.movedTo]

/-- At the border of two segments the places of the tokens do not matter. -/
theorem gap_border_congr {a b c d : Token} (h : a.Alike b) (h' : c.Alike d) :
    gap true a c = gap true b d := by
  rw [gap, gap, spaced_congr h h']
  rfl

theorem renderAfter_placeAfter {previous previous' : Token} (h : previous.Alike previous')
    (ts : List Token) :
    renderAfter previous' (placeAfter previous'.stop previous ts) = renderAfter previous ts := by
  induction ts generalizing previous previous' with
  | nil => rfl
  | cons t rest ih =>
    rw [placeAfter, renderAfter, renderAfter, gap_movedTo h, ih (t.alike_movedTo _)]
    rfl

theorem renderSegment_placeSegment {previous previous' : Option Token}
    (h : Option.Rel Token.Alike previous previous') (written : ℕ) (ts : List Token) :
    renderSegment previous' (placeSegment written previous ts) = renderSegment previous ts := by
  cases ts with
  | nil => rfl
  | cons t rest =>
    rw [placeSegment, renderSegment, renderSegment, renderAfter_placeAfter (t.alike_movedTo _)]
    cases h with
    | none => rfl
    | some h =>
      rw [Option.elim_some, Option.elim_some, ← gap_border_congr h (t.alike_movedTo _)]
      rfl

/-- **What is written is written again.** -/
theorem renderFrom_placeFrom {previous previous' : Option Token}
    (h : Option.Rel Token.Alike previous previous') (written : ℕ)
    (segments : List (List Token)) :
    renderFrom previous' (placeFrom written previous segments) =
      renderFrom previous segments := by
  induction segments generalizing previous previous' written with
  | nil => rfl
  | cons segment rest ih =>
    have hlast := lastToken_alike h (alike_placeSegment written previous segment)
    rw [placeFrom, renderFrom, renderFrom, renderSegment_placeSegment h, ih hlast]

/-! ## Filling a text -/

/-- Tokens fill a part of a text. They stand there in their order, each where its text is, with
nothing or one space in front of it. -/
inductive Covers (text : String) : ℕ → ℕ → List Token → Prop
  | nil (n : ℕ) : Covers text n n []
  | cons {start stop : ℕ} {t : Token} {rest : List Token}
      (hgap : t.start = start ∨ t.start = start + 1 ∧ Text.slice text start t.start = " ")
      (hstop : t.stop = t.start + t.text.utf8ByteSize)
      (htext : Text.slice text t.start t.stop = t.text) (h : Covers text t.stop stop rest) :
      Covers text start stop (t :: rest)

theorem Covers.append {text : String} {start middle stop : ℕ} {ts us : List Token}
    (h : Covers text start middle ts) (h' : Covers text middle stop us) :
    Covers text start stop (ts ++ us) := by
  induction h with
  | nil => exact h'
  | cons hgap hstop htext _ ih => exact .cons hgap hstop htext (ih h')

/-- A token fills the text behind its gap, and what is written behind it the rest. -/
theorem covers_token {text before gap more after : String} {t : Token}
    (rest : ℕ → List Token) (hgap : gap = "" ∨ gap = " ")
    (htext : text = before ++ (gap ++ t.text ++ more) ++ after)
    (h : ∀ front : String, text = front ++ more ++ after →
      Covers text front.utf8ByteSize (front.utf8ByteSize + more.utf8ByteSize)
        (rest front.utf8ByteSize)) :
    Covers text before.utf8ByteSize
      (before.utf8ByteSize + (gap ++ t.text ++ more).utf8ByteSize)
      (t.movedTo (before.utf8ByteSize + gap.utf8ByteSize) ::
        rest (t.movedTo (before.utf8ByteSize + gap.utf8ByteSize)).stop) := by
  have hcut : text = before ++ gap ++ t.text ++ (more ++ after) := by
    simpa only [String.append_assoc] using htext
  have hwritten := Text.slice_append (before ++ gap) t.text (more ++ after)
  have hrest := h (before ++ gap ++ t.text) (by rwa [String.append_assoc])
  rw [← hcut] at hwritten
  simp only [String.utf8ByteSize_append, ← Nat.add_assoc] at hwritten hrest ⊢
  refine .cons ?_ rfl hwritten hrest
  rcases hgap with rfl | rfl
  · left
    simp [Token.movedTo]
  · right
    have hspace := Text.slice_append before " " (t.text ++ (more ++ after))
    rw [← String.append_assoc, ← hcut] at hspace
    exact ⟨rfl, hspace⟩

theorem covers_placeAfter {text before after : String} {previous : Token} {ts : List Token}
    (htext : text = before ++ renderAfter previous ts ++ after) :
    Covers text before.utf8ByteSize
      (before.utf8ByteSize + (renderAfter previous ts).utf8ByteSize)
      (placeAfter before.utf8ByteSize previous ts) := by
  induction ts generalizing before previous with
  | nil => exact .nil _
  | cons t rest ih =>
    exact covers_token (placeAfter · t rest) (gap_eq_or false previous t) htext fun _ h => ih h

theorem covers_placeSegment {text before after : String} {previous : Option Token}
    {ts : List Token} (htext : text = before ++ renderSegment previous ts ++ after) :
    Covers text before.utf8ByteSize
      (before.utf8ByteSize + (renderSegment previous ts).utf8ByteSize)
      (placeSegment before.utf8ByteSize previous ts) := by
  cases ts with
  | nil => exact .nil _
  | cons t rest =>
    have hgap : (previous.elim "" fun p => gap true p t) = "" ∨
        (previous.elim "" fun p => gap true p t) = " " := by
      cases previous with
      | none => exact .inl rfl
      | some p => exact gap_eq_or true p t
    exact covers_token (placeAfter · t rest) hgap htext fun _ h => covers_placeAfter h

theorem covers_placeFrom {text before : String} {previous : Option Token}
    {segments : List (List Token)} (htext : text = before ++ renderFrom previous segments) :
    Covers text before.utf8ByteSize text.utf8ByteSize
      (placeFrom before.utf8ByteSize previous segments).flatten := by
  induction segments generalizing before previous with
  | nil =>
    obtain rfl : text = before := by simpa [renderFrom] using htext
    exact .nil _
  | cons segment rest ih =>
    rw [renderFrom, ← String.append_assoc] at htext
    have hrest := ih htext
    rw [String.utf8ByteSize_append] at hrest
    rw [placeFrom, List.flatten_cons]
    exact (covers_placeSegment htext).append hrest

/-- **The tokens fill the text they are written as.** -/
theorem covers_place (segments : List (List Token)) :
    Covers (render segments) 0 (render segments).utf8ByteSize (place segments).flatten := by
  have htext : render segments = "" ++ renderFrom none segments := by
    rw [String.empty_append]
    rfl
  exact covers_placeFrom htext

/-- The first token stands at the front of the text. -/
theorem start_head_placeFrom (written : ℕ) (segments : List (List Token)) :
    ∀ t ∈ (placeFrom written none segments).flatten.head?, t.start = written := by
  induction segments with
  | nil => simp [placeFrom]
  | cons segment rest ih =>
    cases segment with
    | nil => simpa [placeFrom, placeSegment, renderSegment, lastToken] using ih
    | cons t more => simp [placeFrom, placeSegment, Token.movedTo]

/-- **A text that is written is a normal form.** The tokens have places in it: the same tokens in
the same segments, each once and in order, the first at the front and the last at the end, with
nothing or one space between two that follow each other. Laid out at these places they are written
as the same text again, wherever they stood before. -/
theorem render_place_exact (segments : List (List Token)) :
    List.Forall₂ (List.Forall₂ Token.Alike) segments (place segments) ∧
      Covers (render segments) 0 (render segments).utf8ByteSize (place segments).flatten ∧
      (∀ t ∈ (place segments).flatten.head?, t.start = 0) ∧
      render (place segments) = render segments :=
  ⟨alike_placeFrom 0 none segments, covers_place segments, start_head_placeFrom 0 segments,
    renderFrom_placeFrom .none 0 segments⟩

/-- The tokens of `int   *  p` as they stand in `int *p`. -/
example : (place [[⟨"int", .other "primitive_type", 0, 3, false⟩],
      [⟨"*", .token "*", 6, 7, true⟩, ⟨"p", .identifier, 9, 10, false⟩]]).flatten.map
    (fun t => (t.start, t.stop)) = [(0, 3), (4, 5), (5, 6)] := by
  decide +kernel

end Spacing

end Uninit
