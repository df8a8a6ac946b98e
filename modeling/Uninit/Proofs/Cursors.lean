import Uninit.Grammar.Lexeme
import Uninit.Proofs.SourceOrder

/-!
# Where tokens stand

A cursor stands in a text if the text that follows it follows there in the text too. Looking for a
token only moves a cursor on, so every token that is read from a cursor of a text stands in that
text, behind the cursor, and it is not empty unless it is the end of the text.

## Main definitions

* `Text.IsPlace`: the place behind some characters at the start of a text
* `Cursor.IsIn`: a cursor stands in a text
* `Lexeme.StandsIn`: a token stands in a text

## Main statements

* `Text.IsPlace.row_eq`: the row of a place counts the line feeds before it
* `Lexeme.standsIn_read`: the token that is read from a cursor stands behind it
-/
namespace Uninit

namespace Tree.Point

def after (p : Point) (cs : List Char) : Point :=
  cs.foldl next p

@[simp] theorem after_nil (p : Point) : p.after [] = p := rfl

@[simp] theorem after_cons (p : Point) (c : Char) (cs : List Char) :
    p.after (c :: cs) = (p.next c).after cs := rfl

theorem after_append (p : Point) (cs ds : List Char) :
    p.after (cs ++ ds) = (p.after cs).after ds :=
  List.foldl_append

theorem byte_next (p : Point) (c : Char) : (p.next c).byte = p.byte + c.utf8Size := by
  rw [next]
  split
  · next h =>
    rw [h]
    rfl
  · rfl

theorem row_next (p : Point) (c : Char) : (p.next c).row = p.row + if c = '\n' then 1 else 0 := by
  rw [next]
  split <;> rfl

theorem byte_after (p : Point) (cs : List Char) :
    (p.after cs).byte = p.byte + (String.ofList cs).utf8ByteSize := by
  induction cs generalizing p with
  | nil => simp
  | cons c rest ih =>
    rw [after_cons, ih, byte_next, String.ofList_cons, String.utf8ByteSize_append,
      String.utf8ByteSize_singleton, Nat.add_assoc]

/-- The rows between two places count the line feeds between them. -/
theorem row_after (p : Point) (cs rest : List Char) :
    (p.after cs).row = p.row + Text.feedsBefore (cs ++ rest) (String.ofList cs).utf8ByteSize := by
  induction cs generalizing p with
  | nil => simp
  | cons c more ih =>
    have hsize : (String.ofList (c :: more)).utf8ByteSize =
        c.utf8Size + (String.ofList more).utf8ByteSize := by
      rw [String.ofList_cons, String.utf8ByteSize_append, String.utf8ByteSize_singleton]
    have hfilled : c.utf8Size + (String.ofList more).utf8ByteSize ≠ 0 := by
      have hpos := c.utf8Size_pos
      omega
    rw [after_cons, ih, row_next, hsize, List.cons_append, Text.feedsBefore, if_neg hfilled,
      Nat.add_sub_cancel_left, Nat.add_assoc]

end Tree.Point

namespace Text

/-- A point is the place behind some characters at the start of a text. -/
def IsPlace (text : List Char) (p : Tree.Point) : Prop :=
  ∃ pre, pre <+: text ∧ p = Tree.Point.origin.after pre

theorem isPlace_origin (text : List Char) : IsPlace text .origin :=
  ⟨[], List.nil_prefix, rfl⟩

/-- **The row of a place counts the line feeds before it.** -/
theorem IsPlace.row_eq {text : List Char} {p : Tree.Point} (h : IsPlace text p) :
    p.row = feedsBefore text p.byte := by
  obtain ⟨pre, ⟨rest, rfl⟩, rfl⟩ := h
  rw [Tree.Point.row_after _ _ rest, Tree.Point.byte_after]
  simp [Tree.Point.origin]

theorem IsPlace.byte_le {text : List Char} {p : Tree.Point} (h : IsPlace text p) :
    p.byte ≤ (String.ofList text).utf8ByteSize := by
  obtain ⟨pre, ⟨rest, rfl⟩, rfl⟩ := h
  rw [Tree.Point.byte_after, String.ofList_append, String.utf8ByteSize_append]
  simp [Tree.Point.origin]

end Text

namespace Grammar

namespace Cursor

/-- A cursor stands in a text: what follows it follows at its place in the text, as far as it
goes. -/
def IsIn (text : List Char) (c : Cursor) : Prop :=
  ∃ pre, pre ++ c.rest <+: text ∧ c.point = Tree.Point.origin.after pre

/-- A cursor comes to another one on its way through a text. -/
def LeadsTo (c d : Cursor) : Prop :=
  ∃ pre, c.rest = pre ++ d.rest ∧ d.point = c.point.after pre

variable {text : List Char} {c d e : Cursor}

theorem isIn_start (text : List Char) : (start text).IsIn text :=
  ⟨[], List.prefix_rfl, rfl⟩

theorem isIn_default (text : List Char) : (default : Cursor).IsIn text :=
  ⟨[], List.nil_prefix, rfl⟩

theorem IsIn.isPlace (h : c.IsIn text) : Text.IsPlace text c.point := by
  obtain ⟨pre, hpre, hpoint⟩ := h
  exact ⟨pre, (List.prefix_append pre c.rest).trans hpre, hpoint⟩

@[refl] theorem LeadsTo.refl (c : Cursor) : c.LeadsTo c :=
  ⟨[], rfl, rfl⟩

@[trans] theorem LeadsTo.trans (h : c.LeadsTo d) (h' : d.LeadsTo e) : c.LeadsTo e := by
  obtain ⟨pre, hrest, hpoint⟩ := h
  obtain ⟨more, hrest', hpoint'⟩ := h'
  refine ⟨pre ++ more, ?_, ?_⟩
  · rw [hrest, hrest', List.append_assoc]
  · rw [hpoint', hpoint, Tree.Point.after_append]

theorem leadsTo_cons (ch : Char) (rest : List Char) (p : Tree.Point) :
    LeadsTo ⟨ch :: rest, p⟩ ⟨rest, p.next ch⟩ :=
  ⟨[ch], rfl, rfl⟩

theorem leadsTo_advance (n : ℕ) (c : Cursor) : c.LeadsTo (c.advance n) := by
  induction n generalizing c with
  | zero => exact .refl c
  | succ n ih =>
    obtain ⟨rest, p⟩ := c
    cases rest with
    | nil => exact .refl _
    | cons ch rest => exact (leadsTo_cons ch rest p).trans (ih _)

theorem leadsTo_passMark (c : Cursor) : c.LeadsTo c.passMark := by
  obtain ⟨rest, p⟩ := c
  cases rest with
  | nil => exact .refl _
  | cons ch rest =>
    rw [passMark]
    split_ifs
    · exact leadsTo_cons ch rest p
    · exact .refl _

theorem LeadsTo.isIn (h : c.LeadsTo d) (hc : c.IsIn text) : d.IsIn text := by
  obtain ⟨pre, hrest, hpoint⟩ := h
  obtain ⟨before, hbefore, hplace⟩ := hc
  refine ⟨before ++ pre, ?_, ?_⟩
  · rwa [List.append_assoc, ← hrest]
  · rw [hpoint, hplace, Tree.Point.after_append]

theorem LeadsTo.byte_le (h : c.LeadsTo d) : c.point.byte ≤ d.point.byte := by
  obtain ⟨pre, -, hpoint⟩ := h
  rw [hpoint, Tree.Point.byte_after]
  exact Nat.le_add_right _ _

/-- A step into a text that goes on there leaves some of it behind. -/
theorem byte_lt_advance {n : ℕ} (hn : 0 < n) (hrest : c.rest ≠ []) :
    c.point.byte < (c.advance n).point.byte := by
  obtain ⟨rest, p⟩ := c
  obtain ⟨m, rfl⟩ := Nat.exists_eq_add_one_of_ne_zero (Nat.pos_iff_ne_zero.mp hn)
  obtain ⟨ch, rest, rfl⟩ := List.exists_cons_of_ne_nil hrest
  refine Nat.lt_of_lt_of_le ?_ (leadsTo_advance m ⟨rest, p.next ch⟩).byte_le
  rw [Tree.Point.byte_next]
  exact Nat.lt_add_of_pos_right ch.utf8Size_pos

end Cursor

namespace Lexeme

/-! ## Looking for a token -/

variable {valid : TokenSet} {attached : Bool} {cs : List Char}

theorem length_pos_of_best {m : Match} (h : best valid attached cs = some m) : 0 < m.length := by
  refine List.foldlRecOn (motive := fun found => ∀ m, found = some m → 0 < m.length) forms _
    (by simp) (fun found hfound entry _ m hm => ?_) m h
  by_cases hvalid : (valid.contains entry.1 && (attached || !entry.1.isImmediate)) = true
  · rw [if_pos hvalid] at hm
    split at hm
    · dsimp only at hm
      split_ifs at hm
      · obtain rfl := Option.some.inj hm
        exact Nat.succ_pos _
      · exact hfound m hm
    · exact hfound m hm
  · rw [if_neg hvalid] at hm
    exact hfound m hm

/-- What has been found behind a cursor: a place, and a token there that is not empty unless it is
the end of the text. -/
def Found.IsBehind (c : Cursor) : Found → Prop
  | .token t start length =>
    c.LeadsTo start ∧ (t ≠ .eof → 0 < length ∧ start.rest ≠ [])
  | .nothing start => c.LeadsTo start

theorem Found.IsBehind.trans {c d : Cursor} {f : Found} (h : c.LeadsTo d) (hf : f.IsBehind d) :
    f.IsBehind c := by
  cases f with
  | token t start length => exact ⟨h.trans hf.1, hf.2⟩
  | nothing start => exact h.trans hf

/-- The search goes over blanks and joins alone, so it comes to a token on the way. -/
theorem isBehind_find (valid : TokenSet) (attached : Bool) (skip : ℕ) (p : Tree.Point)
    (cs : List Char) : (find valid attached skip p cs).IsBehind ⟨cs, p⟩ := by
  induction cs generalizing attached skip p with
  | nil =>
    rw [find]
    split_ifs
    · exact ⟨.refl _, fun h => absurd rfl h⟩
    · exact .refl _
  | cons ch rest ih =>
    have hstep : Cursor.LeadsTo ⟨ch :: rest, p⟩ ⟨rest, p.next ch⟩ := Cursor.leadsTo_cons ch rest p
    rw [find]
    dsimp only
    split
    · exact .trans hstep (ih attached (skip - 1) (p.next ch))
    · split
      · exact .trans hstep (ih false _ (p.next ch))
      · split
        · next m hbest =>
          exact ⟨.refl _, fun _ => ⟨length_pos_of_best hbest, List.cons_ne_nil ch rest⟩⟩
        · split
          · exact .trans hstep (ih false 0 (p.next ch))
          · exact .refl _

theorem isBehind_findAt (valid : TokenSet) (c : Cursor) : (findAt valid c).IsBehind c :=
  isBehind_find _ _ _ _ _

/-- A step by one character is taken where nothing else moves the cursor on. -/
theorem leadsTo_pushOn (p : Prop) [Decidable p] (c : Cursor) :
    c.LeadsTo (if p then c.advance 1 else c) := by
  split_ifs
  · exact Cursor.leadsTo_advance 1 c
  · exact .refl c

theorem leadsTo_unreadableEnd (fuel : ℕ) (stop : Cursor) :
    stop.LeadsTo (unreadableEnd fuel stop) := by
  induction fuel generalizing stop with
  | zero => exact .refl stop
  | succ fuel ih =>
    have hfound := isBehind_findAt anywhere stop
    rw [unreadableEnd]
    split
    · exact .refl stop
    · next start hnothing =>
      rw [hnothing] at hfound
      have hreached : stop.LeadsTo (start.advance (viable (sought anywhere) start.rest)) :=
        Cursor.LeadsTo.trans hfound (Cursor.leadsTo_advance _ start)
      exact (hreached.trans (leadsTo_pushOn _ _)).trans (ih _)

theorem leadsTo_unreadable (c : Cursor) : c.LeadsTo (unreadable c).2 := by
  have hreached : c.LeadsTo (c.advance (viable (sought anywhere) c.rest)) :=
    Cursor.leadsTo_advance _ c
  rw [unreadable]
  dsimp only
  exact (hreached.trans (leadsTo_pushOn _ _)).trans (leadsTo_unreadableEnd _ _)

/-! ## Tokens in a text -/

/-- A token stands in a text, behind a byte. It is not empty unless it is the end of the text. -/
structure StandsIn (text : List Char) (place : ℕ) (l : Lexeme) : Prop where
  start : Text.IsPlace text l.start
  stop : l.stop.IsIn text
  behind : place ≤ l.start.byte
  ordered : l.start.byte ≤ l.stop.point.byte
  filled : ∀ t, l.terminal? = some t → t ≠ .eof → l.start.byte < l.stop.point.byte

variable {text : List Char} {c start stop : Cursor}

theorem standsIn_of_leadsTo (hc : c.IsIn text) (hstart : c.LeadsTo start)
    (hstop : start.LeadsTo stop) (t : Option Terminal)
    (hfilled : ∀ k, t = some k → k ≠ .eof → start.point.byte < stop.point.byte) :
    StandsIn text c.point.byte ⟨t, c.point, start.point, stop⟩ where
  start := (hstart.isIn hc).isPlace
  stop := hstop.isIn (hstart.isIn hc)
  behind := hstart.byte_le
  ordered := hstop.byte_le
  filled := hfilled

/-- A token that has been found stands in the text, whether or not it is recognised as a keyword. -/
theorem standsIn_found (hc : c.IsIn text) {t t' : Terminal} {length : ℕ}
    (hfound : (Found.token t start length).IsBehind c) (ht : t = .eof → t' = .eof) :
    StandsIn text c.point.byte ⟨some t', c.point, start.point, start.advance length⟩ := by
  refine standsIn_of_leadsTo hc hfound.1 (Cursor.leadsTo_advance length start) _ fun k hk heof => ?_
  obtain rfl := Option.some.inj hk
  obtain ⟨hlength, hrest⟩ := hfound.2 fun h => heof (ht h)
  exact Cursor.byte_lt_advance hlength hrest

/-- **The token that is read from a cursor stands behind it.** -/
theorem standsIn_read (hc : c.IsIn text) (valid : TokenSet) :
    (read valid c).StandsIn text c.point.byte := by
  have hmark : c.LeadsTo c.passMark := Cursor.leadsTo_passMark c
  have hkeyword : ∀ t word, t = Terminal.eof →
      (if t = .identifier then recognise valid word else t) = .eof := by
    rintro t word rfl
    rfl
  have hvalid := (isBehind_findAt valid c.passMark).trans hmark
  have hany := (isBehind_findAt anywhere c.passMark).trans hmark
  rw [read]
  dsimp only
  split
  · next t start length hfound =>
    rw [hfound] at hvalid
    exact standsIn_found hc hvalid (hkeyword t _)
  · split
    · next t start length hfound =>
      rw [hfound] at hany
      exact standsIn_found hc hany (hkeyword t _)
    · next start hnothing =>
      rw [hnothing] at hany
      exact standsIn_of_leadsTo hc hany (leadsTo_unreadable start) none (by simp)

end Lexeme

end Grammar

end Uninit
