import Mathlib.Data.List.TakeWhile
import Uninit.Origin.Marker

/-!
# The grammar of line markers

A line is a line marker exactly if it is spelled as one: a sign, perhaps the keyword `line`, a
number below the bound of line numbers, and then the end of the line or white space. White space may
stand around the sign. What follows the number tells a file only if a quote is the first thing
there. The name reaches up to the first quote that is not escaped or to the end of the line, and
each backslash that escapes something is left out of it.

The grammar takes a line apart into its pieces, where the reader goes through it from the left.
Both agree on every line, so that no line of a program is taken for a marker and no marker for a
line of the program.

## Main definitions

* `Marker.Opening`: a marker up to its number
* `Marker.quote`: a name with its quotes and backslashes escaped
* `Marker.Names`: the file that the rest of a marker names
* `Marker.Spells`: a line is a marker

## Main statements

* `Opening.parse?_append_rest`: what is read behind an opening
* `Opening.parse?_quote`: an escaped name is read back
* `parse?_spells_exact`: the reader accepts exactly the grammar
-/
namespace Uninit.Marker

/-! ## The grammar -/

/-- White space, which may be empty. -/
def AreBlank (cs : List Char) : Prop :=
  ∀ c ∈ cs, Text.isBlank c = true

instance (cs : List Char) : Decidable (AreBlank cs) :=
  decidable_of_iff (cs.all Text.isBlank = true) List.all_eq_true

/-- What may stand in front of the number: nothing, or the keyword with white space behind it. -/
inductive IsKeyword : List Char → Prop
  | absent : IsKeyword []
  | present {blank : List Char} (hne : blank ≠ []) (hblank : AreBlank blank) :
      IsKeyword ('l' :: 'i' :: 'n' :: 'e' :: blank)

/-- The start of a line that looks like a marker, up to the last digit of its number. -/
structure Opening where
  /-- White space in front of the sign. -/
  indent : List Char
  /-- White space behind the sign. -/
  space : List Char
  keyword : List Char
  digits : List Char
  areBlank_indent : AreBlank indent
  areBlank_space : AreBlank space
  isKeyword : IsKeyword keyword
  digits_ne_nil : digits ≠ []
  isDigit_digits : ∀ d ∈ digits, d.isDigit = true

namespace Opening

def text (o : Opening) : List Char :=
  o.indent ++ '#' :: (o.space ++ (o.keyword ++ o.digits))

def number (o : Opening) : ℕ :=
  Nat.ofDigitChars 10 o.digits 0

end Opening

/-- A number ends where the line ends or white space begins. -/
def EndsNumber (rest : List Char) : Prop :=
  ∀ c ∈ rest.head?, Text.isBlank c = true

instance (rest : List Char) : Decidable (EndsNumber rest) :=
  decidable_of_iff (rest.head?.all Text.isBlank = true) (Option.all_eq_true _ _)

/-- Characters without a quote that is not escaped, and what they stand for: each backslash that
escapes a character is left out. -/
inductive Unescapes : List Char → List Char → Prop
  | nil : Unescapes [] []
  | plain {c : Char} {cs name : List Char} (hquote : c ≠ '"') (hescape : c ≠ '\\')
      (h : Unescapes cs name) : Unescapes (c :: cs) (c :: name)
  | escaped {c : Char} {cs name : List Char} (h : Unescapes cs name) :
      Unescapes ('\\' :: c :: cs) (c :: name)

/-- What may stand behind an opening quote, and the name it gives. A backslash that is the last
character of the line has nothing to escape and is left out as well. -/
inductive Quotes : List Char → List Char → Prop
  | closed {cs name : List Char} (ending : List Char) (h : Unescapes cs name) :
      Quotes (cs ++ '"' :: ending) name
  | unclosed {cs name : List Char} (h : Unescapes cs name) : Quotes cs name
  | broken {cs name : List Char} (h : Unescapes cs name) : Quotes (cs ++ ['\\']) name

/-- What may stand behind the number, and the name of the file if a quote comes first there. -/
inductive Names : List Char → Option (List Char) → Prop
  | absent {blank other : List Char} (hblank : AreBlank blank)
      (hother : ∀ c ∈ other.head?, Text.isBlank c = false ∧ c ≠ '"') :
      Names (blank ++ other) none
  | present {blank cs name : List Char} (hblank : AreBlank blank) (h : Quotes cs name) :
      Names (blank ++ '"' :: cs) (some name)

/-- A file name with a backslash before each quote and each backslash. -/
def quote (name : List Char) : List Char :=
  name.flatMap fun c => if c = '"' ∨ c = '\\' then ['\\', c] else [c]

/-- **The grammar of line markers**: a line is a marker, and what it tells. -/
inductive Spells : List Char → Marker → Prop
  | marker (o : Opening) {rest : List Char} {file : Option (List Char)}
      (hnumber : o.number < lineBound) (hrest : EndsNumber rest) (hfile : Names rest file) :
      Spells (o.text ++ rest) ⟨o.number, file⟩

/-! ## White space -/

/-- No digit is white space. -/
theorem isBlank_of_isDigit {c : Char} (h : c.isDigit = true) : Text.isBlank c = false := by
  have hrange : 48 ≤ c.toNat ∧ c.toNat ≤ 57 := by
    simpa [Char.isDigit, UInt32.le_iff_toNat_le] using h
  simp only [Text.isBlank]
  simp; omega

theorem trimStart_of_isBlank_eq_false {c : Char} (h : Text.isBlank c = false) (rest : List Char) :
    Text.trimStart (c :: rest) = c :: rest := by
  simp [Text.trimStart, h]

theorem trimStart_append {blank : List Char} (h : AreBlank blank) (rest : List Char) :
    Text.trimStart (blank ++ rest) = Text.trimStart rest :=
  List.dropWhile_append_of_pos h

theorem trimStart_of_head? {cs : List Char} (h : ∀ c ∈ cs.head?, Text.isBlank c = false) :
    Text.trimStart cs = cs := by
  cases cs with
  | nil => rfl
  | cons c rest => exact trimStart_of_isBlank_eq_false (h c rfl) rest

theorem exists_trimStart (cs : List Char) :
    ∃ blank, AreBlank blank ∧ cs = blank ++ Text.trimStart cs := by
  refine ⟨cs.takeWhile Text.isBlank, ?_, List.takeWhile_append_dropWhile.symm⟩
  intro c hc
  exact List.mem_takeWhile_imp hc

theorem isBlank_of_mem_head?_trimStart {cs : List Char} {c : Char}
    (h : c ∈ (Text.trimStart cs).head?) : Text.isBlank c = false := by
  have hhead := List.head?_dropWhile_not Text.isBlank cs
  rw [Option.mem_def, Text.trimStart] at h
  simpa [h] using hhead

/-! ## Names -/

theorem unquote_escaped (c : Char) (rest : List Char) :
    unquote ('\\' :: c :: rest) = c :: unquote rest := by
  rw [unquote]

theorem unquote_plain {c : Char} (hquote : c ≠ '"') (hescape : c ≠ '\\') (rest : List Char) :
    unquote (c :: rest) = c :: unquote rest := by
  rw [unquote] <;> simp [hquote, hescape]

theorem unquote_of_unescapes {cs name : List Char} (h : Unescapes cs name) (rest : List Char) :
    unquote (cs ++ rest) = name ++ unquote rest := by
  induction h with
  | nil => rfl
  | plain hquote hescape _ ih =>
    rw [List.cons_append, unquote_plain hquote hescape, ih, List.cons_append]
  | escaped _ ih => rw [List.cons_append, List.cons_append, unquote_escaped, ih, List.cons_append]

/-- What is quoted can be continued in front by a character, escaped or not. -/
theorem Quotes.cons {cs name : List Char} (h : Quotes cs name) (pre : List Char) {c : Char}
    (hpre : ∀ {ds s}, Unescapes ds s → Unescapes (pre ++ ds) (c :: s)) :
    Quotes (pre ++ cs) (c :: name) := by
  cases h with
  | closed ending h =>
    rw [← List.append_assoc]
    exact .closed ending (hpre h)
  | unclosed h => exact .unclosed (hpre h)
  | broken h =>
    rw [← List.append_assoc]
    exact .broken (hpre h)

theorem quotes_unquote (cs : List Char) : Quotes cs (unquote cs) := by
  fun_induction unquote cs with
  | case1 => exact .unclosed .nil
  | case2 rest => exact .closed rest .nil
  | case3 => exact .broken .nil
  | case4 c rest ih => exact ih.cons ['\\', c] .escaped
  | case5 c rest hquote hmid hescape ih =>
    refine ih.cons [c] (.plain hquote ?_)
    rintro rfl
    cases rest with
    | nil => exact hmid rfl rfl
    | cons d rest => exact hescape d rest rfl rfl

theorem quotes_iff {cs name : List Char} : Quotes cs name ↔ unquote cs = name := by
  constructor
  · intro h
    cases h with
    | closed ending h => simp [unquote_of_unescapes h, unquote]
    | unclosed h => simpa [unquote] using unquote_of_unescapes h []
    | broken h => simp [unquote_of_unescapes h, unquote]
  · rintro rfl
    exact quotes_unquote cs

/-- The file that the rest of a marker names, as the reader looks for it. -/
def nameIn (rest : List Char) : Option (List Char) :=
  match Text.trimStart rest with
  | '"' :: cs => some (unquote cs)
  | _ => none

theorem names_nameIn (rest : List Char) : Names rest (nameIn rest) := by
  obtain ⟨blank, hblank, hrest⟩ := exists_trimStart rest
  have hhead : ∀ c ∈ (Text.trimStart rest).head?, Text.isBlank c = false := fun c =>
    isBlank_of_mem_head?_trimStart
  rw [nameIn]
  generalize Text.trimStart rest = other at hrest hhead
  subst hrest
  split
  · exact .present hblank (quotes_unquote _)
  · rename_i hquote
    refine .absent hblank fun c hc => ⟨hhead c hc, ?_⟩
    rintro rfl
    cases other with
    | nil => cases hc
    | cons d cs => exact hquote cs (by rw [Option.some.inj hc])

theorem names_iff {rest : List Char} {file : Option (List Char)} :
    Names rest file ↔ nameIn rest = file := by
  constructor
  · intro h
    cases h with
    | @absent blank other hblank hother =>
      rw [nameIn, trimStart_append hblank, trimStart_of_head? fun c hc => (hother c hc).1]
      split
      · exact absurd rfl (hother '"' rfl).2
      · rfl
    | @present blank cs name hblank h =>
      rw [nameIn, trimStart_append hblank, trimStart_of_isBlank_eq_false (by decide)]
      exact congrArg some (quotes_iff.mp h)
  · rintro rfl
    exact names_nameIn rest

/-- Escaping is undone. -/
theorem unescapes_quote (name : List Char) : Unescapes (quote name) name := by
  induction name with
  | nil => exact .nil
  | cons c name ih =>
    by_cases hc : c = '"' ∨ c = '\\'
    · have hquote : quote (c :: name) = '\\' :: c :: quote name := by simp [quote, hc]
      rw [hquote]
      exact .escaped ih
    · have hquote : quote (c :: name) = c :: quote name := by simp [quote, hc]
      rw [hquote]
      rw [not_or] at hc
      exact .plain hc.1 hc.2 ih

/-- An escaped name is named, whatever stands behind its closing quote. -/
theorem names_quote {blank : List Char} (hblank : AreBlank blank) (name ending : List Char) :
    Names (blank ++ '"' :: (quote name ++ '"' :: ending)) (some name) :=
  .present hblank (.closed ending (unescapes_quote name))

/-! ## Openings -/

theorem skipKeyword_of_isDigit {c : Char} (h : c.isDigit = true) (rest : List Char) :
    skipKeyword (c :: rest) = c :: rest := by
  have hc : c ≠ 'l' := by
    rintro rfl
    simp at h
  rw [skipKeyword]
  simp [hc]

theorem skipKeyword_append {keyword : List Char} (h : IsKeyword keyword) {c : Char}
    (hc : c.isDigit = true) (rest : List Char) :
    skipKeyword (keyword ++ c :: rest) = c :: rest := by
  cases h with
  | absent => exact skipKeyword_of_isDigit hc rest
  | @present blank hne hblank =>
    obtain ⟨b, bs, rfl⟩ := List.exists_cons_of_ne_nil hne
    have hb : Text.isBlank b = true := hblank b List.mem_cons_self
    have htrim : Text.trimStart (b :: (bs ++ c :: rest)) = c :: rest := by
      rw [← List.cons_append, trimStart_append hblank,
        trimStart_of_isBlank_eq_false (isBlank_of_isDigit hc)]
    simp only [List.cons_append]
    rw [skipKeyword, if_pos hb, htrim]

theorem exists_skipKeyword (cs : List Char) :
    ∃ keyword, IsKeyword keyword ∧ cs = keyword ++ skipKeyword cs := by
  fun_cases skipKeyword cs with
  | case1 c rest hc =>
    obtain ⟨blank, hblank, hrest⟩ := exists_trimStart (c :: rest)
    have hne : blank ≠ [] := by
      rintro rfl
      have hhead : c ∈ (Text.trimStart (c :: rest)).head? := by
        rw [← List.nil_append (Text.trimStart (c :: rest)), ← hrest]
        rfl
      rw [isBlank_of_mem_head?_trimStart hhead] at hc
      cases hc
    refine ⟨'l' :: 'i' :: 'n' :: 'e' :: blank, .present hne hblank, ?_⟩
    simp only [List.cons_append]
    rw [← hrest]
  | case2 c rest hc => exact ⟨[], .absent, rfl⟩
  | case3 => exact ⟨[], .absent, rfl⟩

namespace Opening

variable (o : Opening)

theorem exists_digits : ∃ d ds, o.digits = d :: ds ∧ d.isDigit = true := by
  obtain ⟨d, ds, h⟩ := List.exists_cons_of_ne_nil o.digits_ne_nil
  exact ⟨d, ds, h, o.isDigit_digits d (by simp [h])⟩

theorem valueOf_digits : valueOf o.digits = o.number := by
  simp only [valueOf, number, Nat.ofDigitChars, Nat.mul_comm]

/-- The reader gets through an opening to its digits. -/
theorem parse?_append (rest : List Char) :
    parse? (o.text ++ rest) = parseNumber? (o.digits ++ rest) := by
  obtain ⟨d, ds, hdigits, hd⟩ := o.exists_digits
  have hkeyword : ∀ c ∈ (o.keyword ++ (o.digits ++ rest)).head?, Text.isBlank c = false := by
    intro c hc
    rw [hdigits] at hc
    generalize o.keyword = keyword, o.isKeyword = h at hc
    cases h with
    | absent =>
      obtain rfl := Option.some.inj hc
      exact isBlank_of_isDigit hd
    | present =>
      obtain rfl := Option.some.inj hc
      decide
  have htext : o.text ++ rest =
      o.indent ++ '#' :: (o.space ++ (o.keyword ++ (o.digits ++ rest))) := by
    simp [text]
  rw [parse?, htext, trimStart_append o.areBlank_indent,
    trimStart_of_isBlank_eq_false (by decide)]
  simp only
  rw [trimStart_append o.areBlank_space, trimStart_of_head? hkeyword, hdigits, List.cons_append,
    skipKeyword_append o.isKeyword hd]

/-- **What is read behind an opening**: the number, and the file if one is named, as long as the
number is below the bound. -/
theorem parse?_append_rest {rest : List Char} (hrest : EndsNumber rest) :
    parse? (o.text ++ rest) =
      if o.number < lineBound then some ⟨o.number, nameIn rest⟩ else none := by
  have hnodigit : ∀ c ∈ rest.head?, c.isDigit = false := by
    intro c hc
    by_contra hdigit
    have hblank := hrest c hc
    rw [isBlank_of_isDigit (by simpa using hdigit)] at hblank
    cases hblank
  have htake : (o.digits ++ rest).takeWhile Char.isDigit = o.digits := by
    rw [List.takeWhile_append_of_pos o.isDigit_digits]
    cases rest with
    | nil => simp
    | cons c rest => simp [hnodigit c rfl]
  have hdrop : (o.digits ++ rest).dropWhile Char.isDigit = rest := by
    rw [List.dropWhile_append_of_pos o.isDigit_digits]
    cases rest with
    | nil => rfl
    | cons c rest => simp [hnodigit c rfl]
  have hends : ¬ rest.head?.any (fun c => !Text.isBlank c) = true := by
    cases rest with
    | nil => simp
    | cons c rest => simpa using hrest c rfl
  rw [parse?_append, parseNumber?]
  simp only [htake, hdrop, o.valueOf_digits, nameIn]
  by_cases hnumber : o.number < lineBound
  · have hnone : ¬ (o.digits.isEmpty = true ∨ lineBound ≤ o.number) := by
      simp [o.digits_ne_nil, hnumber]
    rw [if_neg hnone, if_neg hends, if_pos hnumber]
    split <;> simp_all only
  · rw [if_pos (.inr (Nat.le_of_not_lt hnumber)), if_neg hnumber]

/-- **An escaped name is read back** behind an opening, whatever follows its closing quote. -/
theorem parse?_quote (hnumber : o.number < lineBound) {blank : List Char} (hne : blank ≠ [])
    (hblank : AreBlank blank) (name ending : List Char) :
    parse? (o.text ++ (blank ++ '"' :: (quote name ++ '"' :: ending))) =
      some ⟨o.number, some name⟩ := by
  have hrest : EndsNumber (blank ++ '"' :: (quote name ++ '"' :: ending)) := by
    obtain ⟨b, bs, rfl⟩ := List.exists_cons_of_ne_nil hne
    intro c hc
    obtain rfl := Option.some.inj hc
    exact hblank _ List.mem_cons_self
  rw [o.parse?_append_rest hrest, if_pos hnumber, names_iff.mp (names_quote hblank name ending)]

end Opening

/-- A line that is read as a marker can be taken apart. -/
theorem exists_opening {line : List Char} {m : Marker} (h : parse? line = some m) :
    ∃ (o : Opening) (rest : List Char), line = o.text ++ rest ∧ EndsNumber rest := by
  obtain ⟨indent, hindent, hline⟩ := exists_trimStart line
  rw [parse?] at h
  split at h
  case h_2 => cases h
  case h_1 cs hsign =>
    obtain ⟨space, hspace, hcs⟩ := exists_trimStart cs
    obtain ⟨keyword, hkeyword, hkept⟩ := exists_skipKeyword (Text.trimStart cs)
    generalize skipKeyword (Text.trimStart cs) = kept at h hkept
    rw [parseNumber?] at h
    split_ifs at h with hnone hends
    rw [not_or] at hnone
    refine ⟨⟨indent, space, keyword, kept.takeWhile Char.isDigit, hindent, hspace, hkeyword,
      by simpa using hnone.1, fun d hd => List.mem_takeWhile_imp hd⟩,
      kept.dropWhile Char.isDigit, ?_, ?_⟩
    · rw [hline, hsign, hcs, hkept]
      simp [Opening.text]
    · intro c hc
      rw [Option.mem_def] at hc
      simpa [hc] using hends

/-- **A line is read as a marker exactly if it is spelled as one**, with the number and the file
that its spelling tells, and every other line is read as none. So a name whose quotes and backslashes
are escaped is read back whatever stands behind its closing quote, and no way to read a line turns a
number that reaches the bound into a marker. -/
theorem parse?_spells_exact :
    (∀ line m, parse? line = some m ↔ Spells line m) ∧
    (∀ line, parse? line = none ↔ ∀ m, ¬ Spells line m) ∧
    (∀ (o : Opening) (blank name ending : List Char), o.number < lineBound → blank ≠ [] →
      AreBlank blank →
      parse? (o.text ++ (blank ++ '"' :: (quote name ++ '"' :: ending))) =
        some ⟨o.number, some name⟩) ∧
    ∀ (o : Opening) (rest : List Char), lineBound ≤ o.number → EndsNumber rest →
      parse? (o.text ++ rest) = none := by
  have hspells : ∀ line m, parse? line = some m ↔ Spells line m := by
    intro line m
    constructor
    · intro h
      obtain ⟨o, rest, rfl, hrest⟩ := exists_opening h
      rw [o.parse?_append_rest hrest] at h
      split_ifs at h with hnumber
      obtain rfl := Option.some.inj h
      exact .marker o hnumber hrest (names_nameIn rest)
    · rintro ⟨o, hnumber, hrest, hfile⟩
      rw [o.parse?_append_rest hrest, if_pos hnumber, names_iff.mp hfile]
  refine ⟨hspells, fun line => ?_, fun o blank name ending hnumber hne hblank => ?_,
    fun o rest hnumber hrest => ?_⟩
  · simp only [← hspells, Option.eq_none_iff_forall_ne_some, ne_eq]
  · exact o.parse?_quote hnumber hne hblank name ending
  · rw [o.parse?_append_rest hrest, if_neg (Nat.not_lt.mpr hnumber)]

/-- A directive with white space of several kinds and a number with leading zeros. -/
def paddedOpening : Opening :=
  ⟨['\t'], [' ', ' '], ['l', 'i', 'n', 'e', '\u00a0'], ['0', '0', '7'], by decide, by decide,
    .present (by decide) (by decide), by decide, List.all_eq_true.mp (by decide)⟩

/-- A sign and the least number that is too large. -/
def boundOpening : Opening :=
  ⟨[], [], [], "18446744073709551616".toList, by decide, by decide, .absent, by decide,
    List.all_eq_true.mp (by decide)⟩

theorem parse?_spells_exact_padded :
    paddedOpening.number < lineBound ∧ AreBlank ['\u2003'] ∧
      parse? "\t#  line\u00a0007\u2003\"my \\\"dir\\\"\\\\a.c\"2".toList =
        some ⟨7, some "my \"dir\"\\a.c".toList⟩ ∧
      lineBound ≤ boundOpening.number ∧ EndsNumber [' '] ∧
      parse? "#18446744073709551616 ".toList = none := by
  have hnumber : paddedOpening.number < lineBound := by decide
  have hblank : AreBlank ['\u2003'] := by decide
  have hbound : lineBound ≤ boundOpening.number := by decide
  have hends : EndsNumber [' '] := by decide
  obtain ⟨-, -, hread, hlarge⟩ := parse?_spells_exact
  refine ⟨hnumber, hblank, ?_, hbound, hends, ?_⟩
  · exact hread paddedOpening _ "my \"dir\"\\a.c".toList ['2'] hnumber (by decide) hblank
  · exact hlarge boundOpening _ hbound hends

/-- Lines that begin like a marker and are none. -/
example : ["#pragma once", "#12abc", "#linefoo 3", "#line3", "# \"a.c\" 1"].all
    (fun line => (parse? line.toList).isNone) := by
  decide

end Uninit.Marker
