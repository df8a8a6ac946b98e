import Mathlib.Data.List.Basic
import Uninit.Proofs.Lines
import Uninit.Proofs.MarkerGrammar

/-!
# Reading written markers

A preprocessor writes a line marker as a sign, a number and a quoted name, with a backslash before
each quote and each backslash of the name. Such a marker is read back as the number and the name,
whatever the name holds and whatever stands behind the closing quote. It is one line if the name is.

## Main definitions

* `Marker.write`: a line marker in one of its two forms

## Main statements

* `parse?_write`: a written marker is read back
-/
namespace Uninit.Marker

/-! ## Numbers -/

theorem isDigit_of_mem_toDigits {n : ℕ} {c : Char} (h : c ∈ Nat.toDigits 10 n) :
    c.isDigit = true :=
  Nat.isDigit_of_mem_toDigits (by decide) (by decide) h

/-- Nothing but digits is written for a number. -/
theorem notMem_toDigits {c : Char} (h : c.isDigit = false) (n : ℕ) : c ∉ Nat.toDigits 10 n := by
  intro hmem
  rw [isDigit_of_mem_toDigits hmem] at h
  cases h

/-! ## Written markers -/

/-- The two ways of writing a line marker. -/
inductive Form where
  /-- As preprocessors do, with a sign alone. -/
  | sign
  /-- As programs do, with the directive `#line`. -/
  | directive
deriving DecidableEq

def Form.opening : Form → List Char
  | sign => ['#', ' ']
  | directive => ['#', 'l', 'i', 'n', 'e', ' ']

def write (form : Form) (number : ℕ) (name : List Char) : List Char :=
  form.opening ++ Nat.toDigits 10 number ++ ' ' :: '"' :: quote name ++ ['"']

/-- A written marker begins as an opening with its number. -/
theorem Form.exists_opening (form : Form) (number : ℕ) :
    ∃ o : Opening, o.text = form.opening ++ Nat.toDigits 10 number ∧ o.number = number := by
  have hdigits : ∀ d ∈ Nat.toDigits 10 number, d.isDigit = true := fun _ =>
    isDigit_of_mem_toDigits
  have hnumber : Nat.ofDigitChars 10 (Nat.toDigits 10 number) 0 = number :=
    Nat.ofDigitChars_ten_toDigits
  cases form with
  | sign =>
    exact ⟨⟨[], [' '], [], Nat.toDigits 10 number, by decide, by decide, .absent,
      Nat.toDigits_ne_nil, hdigits⟩, rfl, hnumber⟩
  | directive =>
    have hkeyword : IsKeyword ['l', 'i', 'n', 'e', ' '] := .present (by decide) (by decide)
    exact ⟨⟨[], [], ['l', 'i', 'n', 'e', ' '], Nat.toDigits 10 number, by decide, by decide,
      hkeyword, Nat.toDigits_ne_nil, hdigits⟩, rfl, hnumber⟩

/-- **A written marker is read back**, whatever its name holds and whatever follows it. -/
theorem parse?_write {number : ℕ} (h : number < lineBound) (form : Form)
    (name ending : List Char) :
    parse? (write form number name ++ ending) = some ⟨number, some name⟩ := by
  obtain ⟨o, htext, rfl⟩ := form.exists_opening number
  have hwrite : write form o.number name ++ ending =
      o.text ++ ([' '] ++ '"' :: (quote name ++ '"' :: ending)) := by
    rw [htext]
    simp [write]
  rw [hwrite, o.parse?_quote h (by decide) (by decide)]

/-! ## Markers as lines -/

theorem mem_of_mem_quote {name : List Char} {c : Char} (h : c ∈ quote name) :
    c = '\\' ∨ c ∈ name := by
  obtain ⟨d, hd, hmem⟩ := List.mem_flatMap.mp h
  split at hmem
  · rw [List.mem_cons, List.mem_singleton] at hmem
    rcases hmem with rfl | rfl
    · exact .inl rfl
    · exact .inr hd
  · rw [List.mem_singleton] at hmem
    exact .inr (hmem ▸ hd)

/-- A marker is one line if its name is. -/
theorem notMem_write {name : List Char} (h : '\n' ∉ name) (form : Form) (number : ℕ) :
    '\n' ∉ write form number name := by
  have hopening : '\n' ∉ form.opening := by cases form <;> decide
  have hdigits : '\n' ∉ Nat.toDigits 10 number := notMem_toDigits (by decide) number
  have hquote : '\n' ∉ quote name := by
    intro hmem
    rcases mem_of_mem_quote hmem with hescape | hname
    · exact absurd hescape (by decide)
    · exact h hname
  simp [write, hopening, hdigits, hquote]

/-- A carriage return at the end of a marker is behind its closing quote. -/
theorem dropReturn_write (form : Form) (number : ℕ) (name ending : List Char) :
    Text.dropReturn (write form number name ++ ending) =
      write form number name ++ Text.dropReturn ending := by
  rw [write, List.append_assoc, Text.dropReturn_append (by simp), List.singleton_append,
    Text.dropReturn_cons_of_ne (by decide), List.append_cons]

end Uninit.Marker
