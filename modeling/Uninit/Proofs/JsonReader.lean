import Uninit.Proofs.JsonGrammar

/-!
# Reading JSON texts

The reader takes a value off the front of a text and goes on behind it. It reads every text of the
grammar as what the text stands for, so no text stands for two values.

## Main definitions

* `Json.read`: the value of a whole text

## Main statements

* `Json.readValue_append`: a value is read off the front of a text
* `Json.read_of_spells`: every text is read as what it stands for
* `Json.Spells.unique`: no text stands for two values
-/
namespace Uninit.Json

/-! ## The reader -/

def skip (cs : List Char) : List Char :=
  cs.dropWhile isBlank

def readDigits (cs : List Char) : Option (List Char × List Char) :=
  if cs.takeWhile Char.isDigit = [] then none
  else some (cs.takeWhile Char.isDigit, cs.dropWhile Char.isDigit)

def readFraction : List Char → Option (List Char × List Char)
  | [] => some ([], [])
  | c :: rest => if c = '.' then readDigits rest else some ([], c :: rest)

/-- Take digits with or without a sign off the front of a text. -/
def readSigned : List Char → Option (ℤ × List Char)
  | [] => none
  | c :: rest =>
    if c = '-' then (readDigits rest).map fun (ds, rest) => (-valueOf ds, rest)
    else if c = '+' then (readDigits rest).map fun (ds, rest) => (valueOf ds, rest)
    else (readDigits (c :: rest)).map fun (ds, rest) => (valueOf ds, rest)

def readExponent : List Char → Option (ℤ × List Char)
  | [] => some (0, [])
  | c :: rest => if isExponentSign c then readSigned rest else some (0, c :: rest)

def readSign : List Char → Bool × List Char
  | [] => (false, [])
  | c :: rest => if c = '-' then (true, rest) else (false, c :: rest)

/-- Take a number off the front of a text. -/
def readNumber (cs : List Char) : Option (ℚ × List Char) := do
  let (isNegative, cs) := readSign cs
  let (whole, cs) ← readDigits cs
  if whole.head? = some '0' ∧ whole ≠ ['0'] then none
  else do
    let (fraction, cs) ← readFraction cs
    let (exponent, cs) ← readExponent cs
    return (amount isNegative whole fraction exponent, cs)

/-- Take four hexadecimal digits off the front of a text. -/
def readUnit : List Char → Option (ℕ × List Char)
  | a :: b :: c :: d :: rest => (unit? a b c d).map fun n => (n, rest)
  | _ => none

/-- Take what stands behind `\u` off the front of a text. -/
def readUnits (cs : List Char) : Option (Char × List Char) := do
  let (n, cs) ← readUnit cs
  if isHigh n then
    match cs with
    | '\\' :: 'u' :: cs => do
      let (low, cs) ← readUnit cs
      if isLow low then return (paired n low, cs) else none
    | _ => none
  else if isLow n then none
  else return (Char.ofNat n, cs)

/-- Take a character of a string off the front of a text. -/
def readChar : List Char → Option (Char × List Char)
  | [] => none
  | c :: rest =>
    if isPlain c then some (c, rest)
    else if c = '\\' then
      match rest with
      | [] => none
      | e :: rest => if e = 'u' then readUnits rest else (shortEscape? e).map fun c => (c, rest)
    else none

def readChars : ℕ → List Char → Option (List Char × List Char)
  | 0, _ => none
  | _ + 1, [] => none
  | fuel + 1, c :: rest =>
    if c = '"' then some ([], rest)
    else do
      let (d, cs) ← readChar (c :: rest)
      let (s, cs) ← readChars fuel cs
      return (d :: s, cs)

def readString (fuel : ℕ) : List Char → Option (String × List Char)
  | [] => none
  | c :: rest =>
    if c = '"' then (readChars fuel rest).map fun (s, rest) => (String.ofList s, rest) else none

section Parts

variable {α : Type} (readPart : List Char → Option (α × List Char)) (closing : Char)

/-- Take parts with commas between them off the front of a text, up to the closing bracket. -/
def readSeparated : ℕ → List Char → Option (List α × List Char)
  | 0, _ => none
  | fuel + 1, cs => do
    let (x, cs) ← readPart (skip cs)
    match skip cs with
    | [] => none
    | c :: cs =>
      if c = ',' then do
        let (xs, cs) ← readSeparated fuel cs
        return (x :: xs, cs)
      else if c = closing then return ([x], cs)
      else none

/-- Take what stands behind an opening bracket off the front of a text. -/
def readEnclosed (fuel : ℕ) (cs : List Char) : Option (List α × List Char) :=
  match skip cs with
  | [] => none
  | c :: rest =>
    if c = closing then some ([], rest) else readSeparated readPart closing fuel cs

end Parts

def readMember (readPart : List Char → Option (Value × List Char)) (fuel : ℕ) (cs : List Char) :
    Option ((String × Value) × List Char) := do
  let (name, cs) ← readString fuel cs
  match skip cs with
  | [] => none
  | c :: cs =>
    if c = ':' then do
      let (v, cs) ← readPart (skip cs)
      return ((name, v), cs)
    else none

/-- Take a value off the front of a text. Its first character tells what it is. -/
def readValue : ℕ → List Char → Option (Value × List Char)
  | 0, _ => none
  | _ + 1, [] => none
  | fuel + 1, c :: rest =>
    if c = 'n' then
      match rest with
      | 'u' :: 'l' :: 'l' :: rest => some (.null, rest)
      | _ => none
    else if c = 't' then
      match rest with
      | 'r' :: 'u' :: 'e' :: rest => some (.bool true, rest)
      | _ => none
    else if c = 'f' then
      match rest with
      | 'a' :: 'l' :: 's' :: 'e' :: rest => some (.bool false, rest)
      | _ => none
    else if c = '"' then
      (readString fuel (c :: rest)).map fun (s, rest) => (.string s, rest)
    else if c = '[' then
      (readEnclosed (readValue fuel) ']' fuel rest).map fun (vs, rest) => (.array vs, rest)
    else if c = '\x7b' then
      (readEnclosed (readMember (readValue fuel) fuel) '\x7d' fuel rest).map
        fun (ms, rest) => (.object ms, rest)
    else (readNumber (c :: rest)).map fun (q, rest) => (.number q, rest)

/-- Read a whole text. No value nests deeper than its text is long. -/
def read (cs : List Char) : Option Value := do
  let (v, rest) ← readValue cs.length (skip cs)
  if skip rest = [] then return v else none

/-! ## Reading what is spelled -/

/-- A text does not begin with a character of some sort. -/
def StartsNo (p : Char → Bool) (cs : List Char) : Prop :=
  ∀ c ∈ cs.head?, p c = false

@[simp] theorem startsNo_nil (p : Char → Bool) : StartsNo p [] := by
  simp [StartsNo]

@[simp] theorem startsNo_cons {p : Char → Bool} {c : Char} {cs : List Char} :
    StartsNo p (c :: cs) ↔ p c = false := by
  simp [StartsNo]

theorem StartsNo.mono {p q : Char → Bool} {cs : List Char} (h : StartsNo q cs)
    (hpq : ∀ c, q c = false → p c = false) : StartsNo p cs :=
  fun c hc => hpq c (h c hc)

theorem takeWhile_of_startsNo {p : Char → Bool} {cs : List Char} (h : StartsNo p cs) :
    cs.takeWhile p = [] := by
  cases cs with
  | nil => rfl
  | cons c cs => simp [startsNo_cons.mp h]

theorem dropWhile_of_startsNo {p : Char → Bool} {cs : List Char} (h : StartsNo p cs) :
    cs.dropWhile p = cs := by
  cases cs with
  | nil => rfl
  | cons c cs => simp [startsNo_cons.mp h]

theorem skip_append {blank : List Char} (h : AreBlank blank) (cs : List Char) :
    skip (blank ++ cs) = skip cs :=
  List.dropWhile_append_of_pos h

theorem skip_of_startsNo {cs : List Char} (h : StartsNo isBlank cs) : skip cs = cs :=
  dropWhile_of_startsNo h

/-- White space in front of what is none is left out. -/
theorem skip_append_of_startsNo {blank cs : List Char} (h : AreBlank blank)
    (hcs : StartsNo isBlank cs) : skip (blank ++ cs) = cs := by
  rw [skip_append h, skip_of_startsNo hcs]

theorem skip_blank {blank : List Char} (h : AreBlank blank) : skip blank = [] := by
  simpa using skip_append_of_startsNo h (startsNo_nil isBlank)

/-! ### Numbers -/

/-- Whether a number may go on with a character. -/
def continuesNumber (c : Char) : Bool :=
  c.isDigit || c == '.' || isExponentSign c

theorem readDigits_append {ds rest : List Char} (h : AreDigits ds)
    (hrest : StartsNo Char.isDigit rest) : readDigits (ds ++ rest) = some (ds, rest) := by
  have htake : (ds ++ rest).takeWhile Char.isDigit = ds := by
    rw [List.takeWhile_append_of_pos h.2, takeWhile_of_startsNo hrest, List.append_nil]
  have hdrop : (ds ++ rest).dropWhile Char.isDigit = rest := by
    rw [List.dropWhile_append_of_pos h.2, dropWhile_of_startsNo hrest]
  rw [readDigits, htake, hdrop, if_neg h.1]

/-- Digits begin with a digit. -/
theorem AreDigits.exists_cons {ds : List Char} (h : AreDigits ds) :
    ∃ d more, ds = d :: more ∧ d.isDigit = true := by
  obtain ⟨d, more, rfl⟩ := List.exists_cons_of_ne_nil h.1
  exact ⟨d, more, rfl, h.2 d List.mem_cons_self⟩

theorem isExponentSign_iff {c : Char} : isExponentSign c = true ↔ c = 'e' ∨ c = 'E' := by
  simp [isExponentSign]

theorem readSigned_append {ds rest : List Char} (h : AreDigits ds)
    (hrest : StartsNo Char.isDigit rest) :
    readSigned (ds ++ rest) = some ((valueOf ds : ℤ), rest) := by
  obtain ⟨d, more, rfl, hd⟩ := h.exists_cons
  have hminus : d ≠ '-' := by
    rintro rfl
    simp at hd
  have hplus : d ≠ '+' := by
    rintro rfl
    simp at hd
  rw [List.cons_append, readSigned, if_neg hminus, if_neg hplus, ← List.cons_append,
    readDigits_append h hrest]
  rfl

theorem readExponent_append {n : ℤ} {cs rest : List Char} (h : SpellsExponent n cs)
    (hrest : StartsNo continuesNumber rest) : readExponent (cs ++ rest) = some (n, rest) := by
  have hdigits : StartsNo Char.isDigit rest := hrest.mono (by simp +contextual [continuesNumber])
  cases h with
  | absent =>
    cases rest with
    | nil => rfl
    | cons c rest =>
      have hc : isExponentSign c = false := by
        have hno := startsNo_cons.mp hrest
        simp only [continuesNumber, Bool.or_eq_false_iff] at hno
        exact hno.2
      simp [readExponent, hc]
  | unsigned he h =>
    rw [List.cons_append, readExponent, if_pos he, readSigned_append h hdigits]
  | positive he h =>
    rw [List.cons_append, readExponent, if_pos he, List.cons_append]
    simp [readSigned, readDigits_append h hdigits]
  | negative he h =>
    rw [List.cons_append, readExponent, if_pos he, List.cons_append]
    simp [readSigned, readDigits_append h hdigits]

theorem readFraction_append {ds cs rest : List Char} (h : SpellsFraction ds cs)
    (hpoint : StartsNo (· == '.') rest) (hdigits : StartsNo Char.isDigit rest) :
    readFraction (cs ++ rest) = some (ds, rest) := by
  cases h with
  | absent =>
    cases rest with
    | nil => rfl
    | cons c rest =>
      have hc : c ≠ '.' := by simpa using hpoint
      simp [readFraction, hc]
  | present h =>
    rw [List.cons_append, readFraction, if_pos rfl, readDigits_append h hdigits]

/-- Neither a digit nor a point stands behind the digits of a number, but what ends it. -/
theorem startsNo_exponent {n : ℤ} {cs rest : List Char} (h : SpellsExponent n cs)
    (hrest : StartsNo continuesNumber rest) :
    StartsNo (fun c => c.isDigit || c == '.') (cs ++ rest) := by
  have hsign : ∀ c, isExponentSign c = true → (c.isDigit || c == '.') = false := by
    intro c hc
    rcases isExponentSign_iff.mp hc with rfl | rfl <;> decide
  cases h with
  | absent => exact hrest.mono (by simp +contextual [continuesNumber])
  | unsigned he _ => simpa using hsign _ he
  | positive he _ => simpa using hsign _ he
  | negative he _ => simpa using hsign _ he

theorem startsNo_fraction {ds cs rest : List Char} (h : SpellsFraction ds cs)
    (hrest : StartsNo Char.isDigit rest) : StartsNo Char.isDigit (cs ++ rest) := by
  cases h with
  | absent => exact hrest
  | present _ => simp

theorem readSign_append {isNegative : Bool} {cs ds rest : List Char}
    (h : SpellsSign isNegative cs) (hds : AreDigits ds) :
    readSign (cs ++ (ds ++ rest)) = (isNegative, ds ++ rest) := by
  cases h with
  | absent =>
    obtain ⟨d, more, rfl, hd⟩ := hds.exists_cons
    have hminus : d ≠ '-' := by
      rintro rfl
      simp at hd
    simp [readSign, hminus]
  | minus => rfl

theorem readNumber_append {q : ℚ} {cs rest : List Char} (h : SpellsNumber q cs)
    (hrest : StartsNo continuesNumber rest) : readNumber (cs ++ rest) = some (q, rest) := by
  obtain @⟨isNegative, whole, fraction, exponent, s, f, e, hsign, hwhole, hfraction,
    hexponent⟩ := h
  have hbehind := startsNo_exponent hexponent hrest
  have hdigits : StartsNo Char.isDigit (e ++ rest) := hbehind.mono (by simp +contextual)
  have hpoint : StartsNo (· == '.') (e ++ rest) := hbehind.mono (by simp)
  have hzero : ¬ (whole.head? = some '0' ∧ whole ≠ ['0']) := fun h => h.2 (hwhole.2 h.1)
  simp only [List.append_assoc, readNumber, readSign_append hsign hwhole.1,
    readDigits_append hwhole.1 (startsNo_fraction hfraction hdigits), Option.bind_eq_bind,
    Option.bind_some, if_neg hzero, readFraction_append hfraction hpoint hdigits,
    readExponent_append hexponent hrest]
  rfl

/-! ### Strings -/

theorem readUnit_append {a b c d : Char} {n : ℕ} (h : unit? a b c d = some n)
    (rest : List Char) : readUnit (a :: b :: c :: d :: rest) = some (n, rest) := by
  simp [readUnit, h]

/-- No character has a short form and a long one behind the same letter. -/
theorem ne_of_shortEscape? {e c : Char} (h : shortEscape? e = some c) : e ≠ 'u' := by
  rintro rfl
  simp [shortEscape?] at h

theorem readChar_append {c : Char} {cs : List Char} (h : SpellsChar c cs) (rest : List Char) :
    readChar (cs ++ rest) = some (c, rest) := by
  have hescape : isPlain '\\' = false := by decide
  cases h with
  | plain h => simp [readChar, h]
  | short h => simp [readChar, hescape, ne_of_shortEscape? h, h]
  | unit h hhigh hlow =>
    simp [readChar, hescape, readUnits, readUnit_append h, hhigh, hlow]
  | pair h hhigh h' hlow =>
    simp [readChar, hescape, readUnits, readUnit_append h, hhigh, readUnit_append h', hlow]

theorem SpellsChar.exists_cons {c : Char} {cs : List Char} (h : SpellsChar c cs) :
    ∃ d more, cs = d :: more ∧ d ≠ '"' := by
  cases h with
  | plain h =>
    refine ⟨_, _, rfl, ?_⟩
    rintro rfl
    simp [isPlain] at h
  | short _ => exact ⟨_, _, rfl, by decide⟩
  | unit _ _ _ => exact ⟨_, _, rfl, by decide⟩
  | pair _ _ _ _ => exact ⟨_, _, rfl, by decide⟩

theorem readChars_append {s cs : List Char} (h : SpellsChars s cs) {n : ℕ}
    (hfuel : cs.length < n) (rest : List Char) :
    readChars n (cs ++ '"' :: rest) = some (s, rest) := by
  induction h generalizing n with
  | nil =>
    obtain ⟨fuel, rfl⟩ := Nat.exists_eq_add_of_lt hfuel
    simp [readChars]
  | @cons c s cs more hc _ ih =>
    obtain ⟨d, ds, rfl, hd⟩ := hc.exists_cons
    simp only [List.length_append, List.length_cons] at hfuel
    obtain ⟨fuel, rfl⟩ : ∃ fuel, n = fuel + 1 := ⟨n - 1, by omega⟩
    have hchar := readChar_append hc (more ++ '"' :: rest)
    have hmore := ih (n := fuel) (by omega)
    rw [List.cons_append] at hchar
    simp only [List.cons_append, List.append_assoc, readChars, if_neg hd, hchar, hmore,
      Option.bind_eq_bind, Option.bind_some]
    rfl

theorem readString_append {s : String} {cs : List Char} (h : SpellsString s cs) {n : ℕ}
    (hfuel : cs.length ≤ n + 1) (rest : List Char) :
    readString n (cs ++ rest) = some (s, rest) := by
  obtain ⟨h⟩ := h
  simp only [List.length_cons, List.length_append, List.length_nil] at hfuel
  have hchars := readChars_append h (n := n) (by omega) rest
  simp [readString, hchars]

/-! ### Parts -/

/-- Whether a part of an array or an object may begin with a character. -/
def opensPart (c : Char) : Bool :=
  !isBlank c && c != ']' && c != '\x7d'

def closes (c : Char) : Bool :=
  c == ']' || c == '\x7d'

theorem closes_iff {c : Char} : closes c = true ↔ c = ']' ∨ c = '\x7d' := by
  simp [closes]

theorem isBlank_iff {c : Char} :
    isBlank c = true ↔ c = ' ' ∨ c = '\t' ∨ c = '\n' ∨ c = '\r' := by
  simp [isBlank, or_assoc]

/-- No number goes on behind white space in front of a comma or a closing bracket. -/
theorem startsNo_continuesNumber {blank rest : List Char} {c : Char} (h : AreBlank blank)
    (hc : c = ',' ∨ closes c = true) :
    StartsNo continuesNumber (blank ++ c :: rest) := by
  cases blank with
  | nil =>
    rw [closes_iff] at hc
    rcases hc with rfl | rfl | rfl <;> simp <;> decide
  | cons d blank =>
    rcases isBlank_iff.mp (h d List.mem_cons_self) with rfl | rfl | rfl | rfl <;> simp <;> decide

theorem isBlank_of_separator {c : Char} (hc : c = ',' ∨ closes c = true) : isBlank c = false := by
  rw [closes_iff] at hc
  rcases hc with rfl | rfl | rfl <;> decide

section Parts

variable {α : Type} {P : α → List Char → Prop} {readPart : List Char → Option (α × List Char)}
  {closing : Char}

/-- A part is read off the front of a text, if no number can go on behind it. -/
def ReadsPart (readPart : List Char → Option (α × List Char)) (x : α) (cs : List Char) : Prop :=
  (∃ c more, cs = c :: more ∧ opensPart c = true) ∧
    ∀ rest, StartsNo continuesNumber rest → readPart (cs ++ rest) = some (x, rest)

theorem ReadsPart.startsNo_isBlank {x : α} {cs : List Char} (h : ReadsPart readPart x cs)
    (rest : List Char) : StartsNo isBlank (cs ++ rest) := by
  obtain ⟨c, more, rfl, hc⟩ := h.1
  simp only [opensPart, Bool.and_eq_true, Bool.not_eq_true'] at hc
  simpa using hc.1.1

/-- A part with white space around it is read up to the separator behind it. -/
theorem ReadsPart.read_skip {x : α} {before cs after : List Char} {c : Char}
    (h : ReadsPart readPart x cs) (rest : List Char) (hbefore : AreBlank before)
    (hafter : AreBlank after) (hc : c = ',' ∨ closes c = true) :
    readPart (skip (before ++ (cs ++ (after ++ c :: rest)))) = some (x, after ++ c :: rest) ∧
      skip (after ++ c :: rest) = c :: rest := by
  refine ⟨?_, skip_append_of_startsNo hafter (by simpa using isBlank_of_separator hc)⟩
  rw [skip_append_of_startsNo hbefore (h.startsNo_isBlank _)]
  exact h.2 _ (startsNo_continuesNumber hafter hc)

theorem readSeparated_append (hclosing : closes closing = true) {xs : List α} {cs : List Char}
    (h : Separated P xs cs)
    (hparts : ∀ x ∈ xs, ∀ part, P x part → part.length ≤ cs.length → ReadsPart readPart x part)
    {fuel : ℕ} (hfuel : cs.length < fuel) (rest : List Char) :
    readSeparated readPart closing fuel (cs ++ closing :: rest) = some (xs, rest) := by
  induction h generalizing fuel with
  | @one x before part after hbefore hx hafter =>
    obtain ⟨fuel, rfl⟩ : ∃ n, fuel = n + 1 := ⟨fuel - 1, by omega⟩
    have hpart : ReadsPart readPart x part := hparts x (by simp) part hx (by simp; omega)
    obtain ⟨hread, hskip⟩ := hpart.read_skip rest hbefore hafter (.inr hclosing)
    have hcomma : closing ≠ ',' := by
      rintro rfl
      revert hclosing
      decide
    simp only [List.append_assoc, readSeparated, hread, hskip, Option.bind_eq_bind,
      Option.bind_some, if_neg hcomma, if_true]
    rfl
  | @cons x xs before part after more hbefore hx hafter _ ih =>
    simp only [List.length_append, List.length_cons] at hfuel
    obtain ⟨fuel, rfl⟩ : ∃ n, fuel = n + 1 := ⟨fuel - 1, by omega⟩
    have hpart : ReadsPart readPart x part := hparts x (by simp) part hx (by simp; omega)
    obtain ⟨hread, hskip⟩ :=
      hpart.read_skip (more ++ closing :: rest) hbefore hafter (.inl rfl)
    have hmore : readSeparated readPart closing fuel (more ++ closing :: rest) =
        some (xs, rest) := by
      refine ih (fun y hy p hp hlength => ?_) (by omega)
      exact hparts y (List.mem_cons_of_mem x hy) p hp (by simp; omega)
    simp only [List.append_assoc, List.cons_append, readSeparated, hread, hskip,
      Option.bind_eq_bind, Option.bind_some, if_true, hmore]
    rfl

/-- Parts begin as the first of them does. -/
theorem Separated.exists_cons {xs : List α} {cs : List Char} (h : Separated P xs cs)
    (hparts : ∀ x ∈ xs, ∀ part, P x part → part.length ≤ cs.length → ReadsPart readPart x part)
    (rest : List Char) :
    ∃ c more, skip (cs ++ rest) = c :: more ∧ opensPart c = true := by
  cases h with
  | @one x before part after hbefore hx hafter =>
    have hpart : ReadsPart readPart x part := hparts x (by simp) part hx (by simp; omega)
    obtain ⟨c, more, rfl, hc⟩ := hpart.1
    refine ⟨c, more ++ (after ++ rest), ?_, hc⟩
    rw [List.append_assoc, List.append_assoc, skip_append_of_startsNo hbefore
      (hpart.startsNo_isBlank _), List.cons_append]
  | @cons x xs before part after more hbefore hx hafter _ =>
    have hpart : ReadsPart readPart x part := hparts x (by simp) part hx (by simp; omega)
    obtain ⟨c, more', rfl, hc⟩ := hpart.1
    refine ⟨c, more' ++ ((after ++ ',' :: more) ++ rest), ?_, hc⟩
    rw [List.append_assoc, List.append_assoc, skip_append_of_startsNo hbefore
      (hpart.startsNo_isBlank _), List.cons_append]

theorem readEnclosed_append {opening : Char} (hclosing : closes closing = true) {xs : List α}
    {cs : List Char} (h : Enclosed P opening closing xs cs)
    (hparts : ∀ x ∈ xs, ∀ part, P x part → part.length < cs.length → ReadsPart readPart x part)
    {fuel : ℕ} (hfuel : cs.length ≤ fuel + 1) (rest : List Char) :
    ∃ inner, cs = opening :: inner ∧
      readEnclosed readPart closing fuel (inner ++ rest) = some (xs, rest) := by
  cases h with
  | @empty blank h =>
    refine ⟨_, rfl, ?_⟩
    have hskip : skip (blank ++ closing :: rest) = closing :: rest :=
      skip_append_of_startsNo h (by simpa using isBlank_of_separator (.inr hclosing))
    simp [readEnclosed, hskip]
  | @parts _ cs h =>
    have hlength : ∀ x ∈ xs, ∀ part, P x part → part.length ≤ cs.length →
        ReadsPart readPart x part := by
      intro x hx part hpart hle
      refine hparts x hx part hpart ?_
      simp only [List.length_cons, List.length_append]
      omega
    simp only [List.length_cons, List.length_append, List.length_nil] at hfuel
    refine ⟨_, rfl, ?_⟩
    obtain ⟨c, more, hskip, hc⟩ := h.exists_cons hlength (closing :: rest)
    have hne : c ≠ closing := by
      rintro rfl
      rcases closes_iff.mp hclosing with rfl | rfl <;> revert hc <;> decide
    rw [List.append_assoc, List.singleton_append, readEnclosed, hskip]
    simp only [if_neg hne]
    exact readSeparated_append hclosing h hlength (by omega) rest

end Parts

/-! ### Values -/

theorem SpellsString.exists_cons {s : String} {cs : List Char} (h : SpellsString s cs) :
    ∃ more, cs = '"' :: more := by
  obtain ⟨-⟩ := h
  exact ⟨_, rfl⟩

/-- A number begins with a sign or a digit. -/
theorem SpellsNumber.exists_cons {q : ℚ} {cs : List Char} (h : SpellsNumber q cs) :
    ∃ c more, cs = c :: more ∧ (c = '-' ∨ c.isDigit = true) := by
  obtain ⟨hsign, hwhole, -, -⟩ := h
  cases hsign with
  | absent =>
    obtain ⟨d, more, rfl, hd⟩ := hwhole.1.exists_cons
    exact ⟨d, _, rfl, .inr hd⟩
  | minus => exact ⟨'-', _, rfl, .inl rfl⟩

theorem Enclosed.exists_cons {α : Type} {P : α → List Char → Prop} {opening closing : Char}
    {xs : List α} {cs : List Char} (h : Enclosed P opening closing xs cs) :
    ∃ more, cs = opening :: more := by
  cases h <;> exact ⟨_, rfl⟩

/-- No digit is white space or a bracket. -/
theorem opensPart_of_isDigit {c : Char} (h : c.isDigit = true) : opensPart c = true := by
  simp only [opensPart, isBlank]
  simp
  refine ⟨⟨⟨⟨⟨?_, ?_⟩, ?_⟩, ?_⟩, ?_⟩, ?_⟩ <;> rintro rfl <;> simp at h

theorem Spells.exists_cons {v : Value} {cs : List Char} (h : Spells v cs) :
    ∃ c more, cs = c :: more ∧ opensPart c = true := by
  cases h with
  | null => exact ⟨_, _, rfl, by decide⟩
  | yes => exact ⟨_, _, rfl, by decide⟩
  | no => exact ⟨_, _, rfl, by decide⟩
  | number h =>
    obtain ⟨c, more, rfl, hc⟩ := h.exists_cons
    refine ⟨c, more, rfl, ?_⟩
    rcases hc with rfl | hc
    · decide
    · exact opensPart_of_isDigit hc
  | string h =>
    obtain ⟨more, rfl⟩ := h.exists_cons
    exact ⟨_, _, rfl, by decide⟩
  | array h =>
    obtain ⟨more, rfl⟩ := h.exists_cons
    exact ⟨_, _, rfl, by decide⟩
  | object h =>
    obtain ⟨more, rfl⟩ := h.exists_cons
    exact ⟨_, _, rfl, by decide⟩

/-- A value is read off the front of a text. -/
def ReadsValue (v : Value) : Prop :=
  ∀ cs fuel rest, Spells v cs → cs.length ≤ fuel → StartsNo continuesNumber rest →
    readValue fuel (cs ++ rest) = some (v, rest)

theorem ReadsValue.readsPart {v : Value} (h : ReadsValue v) {cs : List Char} {n : ℕ}
    (hcs : Spells v cs) (hfuel : cs.length ≤ n) : ReadsPart (readValue n) v cs :=
  ⟨hcs.exists_cons, fun rest hrest => h cs n rest hcs hfuel hrest⟩

theorem ReadsValue.readsMember {name : String} {v : Value} (h : ReadsValue v) {cs : List Char}
    {fuel : ℕ} (hcs : SpellsMember (name, v) cs) (hfuel : cs.length ≤ fuel) :
    ReadsPart (readMember (readValue fuel) fuel) (name, v) cs := by
  obtain @⟨_, _, ns, before, after, vs, hname, hbefore, hafter, hv⟩ := hcs
  simp only [List.length_append, List.length_cons] at hfuel
  constructor
  · obtain ⟨more, rfl⟩ := hname.exists_cons
    exact ⟨_, _, rfl, by decide⟩
  · intro rest hrest
    have hcolon : StartsNo isBlank (':' :: (after ++ (vs ++ rest))) := by
      rw [startsNo_cons]
      decide
    have hpart := h.readsPart hv (n := fuel) (by omega)
    simp only [List.append_assoc, List.cons_append, readMember,
      readString_append hname (n := fuel) (by omega), Option.bind_eq_bind, Option.bind_some,
      skip_append_of_startsNo hbefore hcolon, if_true,
      skip_append_of_startsNo hafter (hpart.startsNo_isBlank rest), hpart.2 rest hrest]
    rfl

/-- A number begins with none of the characters with which another value begins. -/
theorem readValue_number {c : Char} (hc : c = '-' ∨ c.isDigit = true) (fuel : ℕ)
    (rest : List Char) :
    readValue (fuel + 1) (c :: rest) =
      (readNumber (c :: rest)).map fun (q, rest) => (.number q, rest) := by
  have hne : c ≠ 'n' ∧ c ≠ 't' ∧ c ≠ 'f' ∧ c ≠ '"' ∧ c ≠ '[' ∧ c ≠ '\x7b' := by
    refine ⟨?_, ?_, ?_, ?_, ?_, ?_⟩ <;> rintro rfl <;> simp at hc
  obtain ⟨hn, ht, hf, hquote, hbracket, hbrace⟩ := hne
  rw [readValue.eq_def]
  simp only [if_neg hn, if_neg ht, if_neg hf, if_neg hquote, if_neg hbracket, if_neg hbrace]

/-- **A value is read off the front of a text**, whatever stands behind it, unless the value is a
number that could go on there. -/
theorem readValue_append (v : Value) : ReadsValue v := by
  have hpositive : ∀ {cs : List Char} {fuel : ℕ} {v : Value}, Spells v cs → cs.length ≤ fuel →
      ∃ n, fuel = n + 1 := by
    intro cs fuel v h hfuel
    obtain ⟨c, more, rfl, -⟩ := h.exists_cons
    rw [List.length_cons] at hfuel
    exact ⟨fuel - 1, by omega⟩
  induction v using Value.induct with
  | null =>
    intro cs fuel rest h hfuel _
    obtain ⟨fuel, rfl⟩ := hpositive h hfuel
    cases h
    rfl
  | bool b =>
    intro cs fuel rest h hfuel _
    obtain ⟨fuel, rfl⟩ := hpositive h hfuel
    cases h <;> rfl
  | number q =>
    intro cs fuel rest h hfuel hrest
    obtain ⟨fuel, rfl⟩ := hpositive h hfuel
    cases h with
    | number h =>
      have hnumber := readNumber_append h hrest
      obtain ⟨c, more, rfl, hc⟩ := h.exists_cons
      rw [List.cons_append] at hnumber ⊢
      rw [readValue_number hc, hnumber]
      rfl
  | string s =>
    intro cs fuel rest h hfuel _
    obtain ⟨fuel, rfl⟩ := hpositive h hfuel
    cases h with
    | string h =>
      have hstring := readString_append h (n := fuel) (by omega) rest
      obtain ⟨more, rfl⟩ := h.exists_cons
      rw [List.cons_append] at hstring ⊢
      rw [readValue.eq_def]
      simp only [Char.reduceEq, if_false, if_true, hstring, Option.map_some]
  | array vs ih =>
    intro cs fuel rest h hfuel _
    obtain ⟨fuel, rfl⟩ := hpositive h hfuel
    cases h with
    | array h =>
      have hparts : ∀ v ∈ vs, ∀ part, Spells v part → part.length < cs.length →
          ReadsPart (readValue fuel) v part :=
        fun v hv part hpart hlength => (ih v hv).readsPart hpart (by omega)
      obtain ⟨inner, rfl, hread⟩ := readEnclosed_append (by decide) h hparts hfuel rest
      rw [List.cons_append, readValue.eq_def]
      simp only [Char.reduceEq, if_false, if_true, hread, Option.map_some]
  | object ms ih =>
    intro cs fuel rest h hfuel _
    obtain ⟨fuel, rfl⟩ := hpositive h hfuel
    cases h with
    | object h =>
      have hparts : ∀ m ∈ ms, ∀ part, SpellsMember m part → part.length < cs.length →
          ReadsPart (readMember (readValue fuel) fuel) m part :=
        fun m hm part hpart hlength => (ih m hm).readsMember hpart (by omega)
      obtain ⟨inner, rfl, hread⟩ := readEnclosed_append (by decide) h hparts hfuel rest
      rw [List.cons_append, readValue.eq_def]
      simp only [Char.reduceEq, if_false, if_true, hread, Option.map_some]

/-- **Every text is read as what it stands for**, with white space around it. -/
theorem read_of_spells {v : Value} {before cs after : List Char} (hbefore : AreBlank before)
    (h : Spells v cs) (hafter : AreBlank after) : read (before ++ (cs ++ after)) = some v := by
  have hends : StartsNo continuesNumber after := by
    cases after with
    | nil => simp
    | cons c after =>
      rcases isBlank_iff.mp (hafter c List.mem_cons_self) with rfl | rfl | rfl | rfl <;>
        rw [startsNo_cons] <;> decide
  obtain ⟨hstart, hread⟩ := (readValue_append v).readsPart h
    (n := (before ++ (cs ++ after)).length) (by simp; omega)
  rw [read, skip_append_of_startsNo hbefore (ReadsPart.startsNo_isBlank ⟨hstart, hread⟩ after),
    hread after hends]
  simp [skip_blank hafter]

/-- **No text stands for two values.** -/
theorem Spells.unique {v w : Value} {cs : List Char} (hv : Spells v cs) (hw : Spells w cs) :
    v = w := by
  have hblank : AreBlank [] := by simp [AreBlank]
  have hread := (read_of_spells hblank hv hblank).symm.trans (read_of_spells hblank hw hblank)
  exact Option.some.inj hread

end Uninit.Json
