import Mathlib.Algebra.Field.Rat
import Mathlib.Data.List.Basic
import Uninit.Report.Json

/-!
# The grammar of JSON

A JSON text stands for a value. The grammar says which texts there are and what each of them stands
for, with all the ways to spell a number or a character and with white space wherever it may stand.
What a report needs of JSON is a small part of this.

## Main definitions

* `Json.Value`: what a text stands for
* `Json.Spells`: a text stands for a value
-/
namespace Uninit.Json

/-- What a JSON text stands for. Numbers are taken by what they amount to. -/
inductive Value where
  | null
  | bool (b : Bool)
  | number (q : ℚ)
  | string (s : String)
  | array (elements : List Value)
  | object (members : List (String × Value))

/-- What holds of a value as soon as it holds of the values in it holds of every value. -/
theorem Value.induct {P : Value → Prop} (null : P .null) (bool : ∀ b, P (.bool b))
    (number : ∀ q, P (.number q)) (string : ∀ s, P (.string s))
    (array : ∀ vs, (∀ v ∈ vs, P v) → P (.array vs))
    (object : ∀ ms, (∀ m ∈ ms, P m.2) → P (.object ms)) (v : Value) : P v := by
  refine Value.rec (motive_1 := P) (motive_2 := fun vs => ∀ v ∈ vs, P v)
    (motive_3 := fun ms => ∀ m ∈ ms, P m.2) (motive_4 := fun m => P m.2)
    null bool number string array object ?_ ?_ ?_ ?_ ?_ v
  · simp
  · exact fun v vs hv hvs => List.forall_mem_cons.mpr ⟨hv, hvs⟩
  · simp
  · exact fun m ms hm hms => List.forall_mem_cons.mpr ⟨hm, hms⟩
  · exact fun _ _ hv => hv

/-! ## White space and numbers -/

def isBlank (c : Char) : Bool :=
  c == ' ' || c == '\t' || c == '\n' || c == '\r'

/-- White space, which may be empty. -/
def AreBlank (cs : List Char) : Prop :=
  ∀ c ∈ cs, isBlank c = true

/-- Digits, at least one. -/
def AreDigits (ds : List Char) : Prop :=
  ds ≠ [] ∧ ∀ d ∈ ds, d.isDigit = true

/-- The digits before the point of a number. No other digit stands behind a leading zero. -/
def AreWhole (ds : List Char) : Prop :=
  AreDigits ds ∧ (ds.head? = some '0' → ds = ['0'])

/-- The digits behind the point of a number. -/
inductive SpellsFraction : List Char → List Char → Prop
  | absent : SpellsFraction [] []
  | present {ds : List Char} (h : AreDigits ds) : SpellsFraction ds ('.' :: ds)

def valueOf (ds : List Char) : ℕ :=
  Nat.ofDigitChars 10 ds 0

def isExponentSign (c : Char) : Bool :=
  c == 'e' || c == 'E'

/-- The exponent of a number, in digits with or without a sign. -/
inductive SpellsExponent : ℤ → List Char → Prop
  | absent : SpellsExponent 0 []
  | unsigned {e : Char} {ds : List Char} (he : isExponentSign e = true) (h : AreDigits ds) :
      SpellsExponent (valueOf ds) (e :: ds)
  | positive {e : Char} {ds : List Char} (he : isExponentSign e = true) (h : AreDigits ds) :
      SpellsExponent (valueOf ds) (e :: '+' :: ds)
  | negative {e : Char} {ds : List Char} (he : isExponentSign e = true) (h : AreDigits ds) :
      SpellsExponent (-valueOf ds) (e :: '-' :: ds)

/-- What a number amounts to, by its sign, the digits before and behind the point, and the
exponent. -/
def amount (isNegative : Bool) (whole fraction : List Char) (exponent : ℤ) : ℚ :=
  (if isNegative then -1 else 1) * (valueOf (whole ++ fraction) : ℚ) *
    10 ^ (exponent - fraction.length)

/-- The sign of a number. -/
inductive SpellsSign : Bool → List Char → Prop
  | absent : SpellsSign false []
  | minus : SpellsSign true ['-']

/-- A number. -/
inductive SpellsNumber : ℚ → List Char → Prop
  | number {isNegative : Bool} {whole fraction : List Char} {exponent : ℤ} {s f e : List Char}
      (hsign : SpellsSign isNegative s) (hwhole : AreWhole whole)
      (hfraction : SpellsFraction fraction f) (hexponent : SpellsExponent exponent e) :
      SpellsNumber (amount isNegative whole fraction exponent) (s ++ (whole ++ (f ++ e)))

/-! ## Strings -/

/-- The value of a hexadecimal digit. -/
def hexValue? (c : Char) : Option ℕ :=
  if c.isDigit then some (c.toNat - '0'.toNat)
  else if 'a' ≤ c ∧ c ≤ 'f' then some (c.toNat - 'a'.toNat + 10)
  else if 'A' ≤ c ∧ c ≤ 'F' then some (c.toNat - 'A'.toNat + 10)
  else none

/-- The value of four hexadecimal digits. -/
def unit? (a b c d : Char) : Option ℕ := do
  let a ← hexValue? a
  let b ← hexValue? b
  let c ← hexValue? c
  let d ← hexValue? d
  return ((a * 16 + b) * 16 + c) * 16 + d

def isHigh (n : ℕ) : Bool :=
  0xD800 ≤ n && n < 0xDC00

def isLow (n : ℕ) : Bool :=
  0xDC00 ≤ n && n < 0xE000

/-- The character beyond U+FFFF that two numbers stand for. -/
def paired (high low : ℕ) : Char :=
  Char.ofNat (0x10000 + (high - 0xD800) * 0x400 + (low - 0xDC00))

/-- The character that stands for a character behind a backslash. -/
def shortEscape? (e : Char) : Option Char :=
  if e = '"' ∨ e = '\\' ∨ e = '/' then some e
  else if e = 'b' then some '\x08'
  else if e = 'f' then some '\x0c'
  else if e = 'n' then some '\n'
  else if e = 'r' then some '\r'
  else if e = 't' then some '\t'
  else none

/-- Whether a character stands for itself in a string: it is no quote, no backslash and no control
character. -/
def isPlain (c : Char) : Bool :=
  c != '"' && c != '\\' && decide (0x20 ≤ c.toNat)

/-- A character of a string. -/
inductive SpellsChar : Char → List Char → Prop
  | plain {c : Char} (h : isPlain c = true) : SpellsChar c [c]
  | short {e c : Char} (h : shortEscape? e = some c) : SpellsChar c ['\\', e]
  | unit {a b c d : Char} {n : ℕ} (h : unit? a b c d = some n) (hhigh : isHigh n = false)
      (hlow : isLow n = false) : SpellsChar (Char.ofNat n) ['\\', 'u', a, b, c, d]
  | pair {a b c d a' b' c' d' : Char} {high low : ℕ} (h : unit? a b c d = some high)
      (hhigh : isHigh high = true) (h' : unit? a' b' c' d' = some low)
      (hlow : isLow low = true) :
      SpellsChar (paired high low) ['\\', 'u', a, b, c, d, '\\', 'u', a', b', c', d']

/-- Characters of a string, one after the other. -/
inductive SpellsChars : List Char → List Char → Prop
  | nil : SpellsChars [] []
  | cons {c : Char} {s cs more : List Char} (hc : SpellsChar c cs) (h : SpellsChars s more) :
      SpellsChars (c :: s) (cs ++ more)

/-- A string in its quotes. -/
inductive SpellsString : String → List Char → Prop
  | string {s cs : List Char} (h : SpellsChars s cs) :
      SpellsString (String.ofList s) ('"' :: (cs ++ ['"']))

/-! ## Values -/

section Parts

variable {α : Type}

/-- Parts, at least one, with a comma between each two of them and white space around each. -/
inductive Separated (P : α → List Char → Prop) : List α → List Char → Prop
  | one {x : α} {before cs after : List Char} (hbefore : AreBlank before) (hx : P x cs)
      (hafter : AreBlank after) : Separated P [x] (before ++ (cs ++ after))
  | cons {x : α} {xs : List α} {before cs after more : List Char} (hbefore : AreBlank before)
      (hx : P x cs) (hafter : AreBlank after) (h : Separated P xs more) :
      Separated P (x :: xs) (before ++ (cs ++ (after ++ ',' :: more)))

/-- Parts between brackets, or nothing but white space between them. -/
inductive Enclosed (P : α → List Char → Prop) (opening closing : Char) :
    List α → List Char → Prop
  | empty {blank : List Char} (h : AreBlank blank) :
      Enclosed P opening closing [] (opening :: (blank ++ [closing]))
  | parts {xs : List α} {cs : List Char} (h : Separated P xs cs) :
      Enclosed P opening closing xs (opening :: (cs ++ [closing]))

end Parts

mutual

/-- **The grammar of JSON**: a text stands for a value. -/
inductive Spells : Value → List Char → Prop
  | null : Spells .null ['n', 'u', 'l', 'l']
  | yes : Spells (.bool true) ['t', 'r', 'u', 'e']
  | no : Spells (.bool false) ['f', 'a', 'l', 's', 'e']
  | number {q : ℚ} {cs : List Char} (h : SpellsNumber q cs) : Spells (.number q) cs
  | string {s : String} {cs : List Char} (h : SpellsString s cs) : Spells (.string s) cs
  | array {vs : List Value} {cs : List Char} (h : Enclosed Spells '[' ']' vs cs) :
      Spells (.array vs) cs
  | object {ms : List (String × Value)} {cs : List Char}
      (h : Enclosed SpellsMember '\x7b' '\x7d' ms cs) : Spells (.object ms) cs

/-- A member of an object: its name in quotes and its value, with a colon between them. -/
inductive SpellsMember : String × Value → List Char → Prop
  | member {name : String} {v : Value} {ns before after vs : List Char}
      (hname : SpellsString name ns) (hbefore : AreBlank before) (hafter : AreBlank after)
      (hv : Spells v vs) : SpellsMember (name, v) (ns ++ (before ++ ':' :: (after ++ vs)))

end

end Uninit.Json
