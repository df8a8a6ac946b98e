import Mathlib.Data.List.Basic
import Uninit.Proofs.Breaks
import Uninit.Proofs.Writing

/-!
# Reading text reports

A text report can be read back as long as no text of a finding holds a line feed. Its lines are
then the findings, and the first colon in a line that has a blank behind it ends the number, because
there is no colon in a number. What the text holds behind that colon does not matter, even if it
looks like a line of a report itself.

A report does not tell the names of its findings, so that the lines and the texts are all there is
to read.

## Main definitions

* `Finding.read?`: the line and the text that a line of a report tells
* `Format.readText?`: what a text report tells

## Main statements

* `Finding.read?_render`: a finding is read back
* `Format.readText?_report_iff`: which reports can be read back
* `Format.report_text_exact`: a text report tells the lines and the texts of its findings
-/
namespace Uninit

namespace Finding

/-- What a text report tells of a finding. -/
def told (f : Finding) : ℕ × String :=
  (f.line, f.text)

/-- The number and the text that a line of a report tells. The number stands between the opening
and the first colon with a blank behind it. -/
def read? (line : List Char) : Option (ℕ × String) := do
  let rest ← line.dropPrefix? "line ".toList
  let (digits, text) ← rest.dropInfix? ": ".toList
  if digits ≠ [] ∧ digits.all Char.isDigit = true then
    return (Nat.ofDigitChars 10 digits 0, String.ofList text)
  else none

/-- A mark is found where it stands if its first character does not occur before. -/
theorem dropInfix?_of_notMem {c : Char} {before : List Char} (h : c ∉ before)
    (mark after : List Char) :
    (before ++ (c :: mark ++ after)).dropInfix? (c :: mark) = some (before, after) := by
  rw [← List.append_assoc, List.dropInfix?_eq_some_iff]
  refine ⟨⟨c :: mark, rfl, by simp⟩, ?_⟩
  intro earlier found behind htext hfound
  obtain rfl := eq_of_beq hfound
  by_contra hlt
  have hchar : (before ++ (c :: mark) ++ after)[earlier.length]? = some c := by
    rw [htext]
    simp
  rw [List.append_assoc, List.getElem?_append_left (by omega)] at hchar
  exact h (List.mem_of_getElem? hchar)

theorem toList_render (f : Finding) :
    f.render.toList =
      "line ".toList ++ (Nat.toDigits 10 f.line ++ (": ".toList ++ f.text.toList)) := by
  simp [render]

/-- **A finding is read back**, whatever its text holds. -/
theorem read?_render (f : Finding) : read? f.render.toList = some f.told := by
  have hopening : ∀ rest : List Char,
      ("line ".toList ++ rest).dropPrefix? "line ".toList = some rest := by
    intro rest
    exact List.dropPrefix?_append_of_beq rest (by simp)
  have hcolon : (Nat.toDigits 10 f.line ++ (": ".toList ++ f.text.toList)).dropInfix? ": ".toList =
      some (Nat.toDigits 10 f.line, f.text.toList) :=
    dropInfix?_of_notMem (Marker.notMem_toDigits (by decide) f.line) [' '] f.text.toList
  have hdigits : Nat.toDigits 10 f.line ≠ [] ∧
      (Nat.toDigits 10 f.line).all Char.isDigit = true :=
    ⟨Nat.toDigits_ne_nil, List.all_eq_true.mpr fun _ => Marker.isDigit_of_mem_toDigits⟩
  rw [read?, toList_render, hopening]
  simp only [Option.bind_eq_bind, Option.bind_some, hcolon]
  rw [if_pos hdigits, Nat.ofDigitChars_ten_toDigits, String.ofList_toList]
  rfl

/-- The text that a line tells is made of characters of the line. -/
theorem subset_of_read? {line : List Char} {n : ℕ} {text : String}
    (h : read? line = some (n, text)) : text.toList ⊆ line := by
  simp only [read?, Option.bind_eq_bind, Option.bind_eq_some_iff] at h
  obtain ⟨rest, hrest, ⟨digits, behind⟩, hcut, h⟩ := h
  obtain ⟨opening, rfl, -⟩ := List.dropPrefix?_eq_some_iff.mp hrest
  obtain ⟨⟨mark, rfl, -⟩, -⟩ := List.dropInfix?_eq_some_iff.mp hcut
  split_ifs at h
  obtain ⟨-, rfl⟩ := Prod.mk.inj (Option.some.inj h)
  intro c hc
  rw [String.toList_ofList] at hc
  simp [hc]

end Finding

namespace Format

/-- What a text report tells: one finding by each line, and nothing behind the last line feed. -/
def readText? (report : String) : Option (List (ℕ × String)) :=
  let pieces := Text.splitFeeds report.toList
  if pieces.getLast? = some [] then pieces.dropLast.mapM Finding.read? else none

theorem mapM_read?_render (findings : List Finding) :
    (findings.map fun f => f.render.toList).mapM Finding.read? =
      some (findings.map Finding.told) := by
  induction findings with
  | nil => rfl
  | cons f rest ih =>
    rw [List.map_cons, List.mapM_cons, Finding.read?_render, ih]
    rfl

/-- What is told by some lines is told by one of them. -/
theorem exists_of_mem_mapM {lines : List (List Char)} {told : List (ℕ × String)}
    (h : lines.mapM Finding.read? = some told) {p : ℕ × String} (hp : p ∈ told) :
    ∃ line ∈ lines, Finding.read? line = some p := by
  induction lines generalizing told with
  | nil =>
    obtain rfl := Option.some.inj h
    cases hp
  | cons line rest ih =>
    simp only [List.mapM_cons, Option.bind_eq_bind, Option.bind_eq_some_iff] at h
    obtain ⟨q, hq, more, hmore, h⟩ := h
    obtain rfl := Option.some.inj h
    rcases List.mem_cons.mp hp with rfl | hp
    · exact ⟨line, List.mem_cons_self, hq⟩
    · obtain ⟨l, hl, hread⟩ := ih hmore hp
      exact ⟨l, List.mem_cons_of_mem line hl, hread⟩

/-- **A text report can be read back** exactly if no text of a finding holds a line feed. -/
theorem readText?_report_iff (findings : List Finding) :
    readText? (text.report findings) = some (findings.map Finding.told) ↔
      ∀ f ∈ findings, '\n' ∉ f.text.toList := by
  constructor
  · intro h f hf
    simp only [readText?] at h
    split_ifs at h
    have htold : f.told ∈ findings.map Finding.told := List.mem_map_of_mem hf
    obtain ⟨line, hline, hread⟩ := exists_of_mem_mapM h htold
    have hfeed : '\n' ∉ line := Text.notMem_of_mem_splitFeeds (List.dropLast_subset _ hline)
    intro hmem
    exact hfeed (Finding.subset_of_read? hread hmem)
  · intro h
    have hpieces := (splitFeeds_report_text_iff findings).mpr h
    simp only [readText?, hpieces, List.getLast?_append, List.dropLast_concat]
    exact mapM_read?_render findings

/-- **A text report tells the lines and the texts of its findings**, as long as no text holds a
line feed. What is written is the report, its pieces are the findings and an empty one behind the
last line feed, and the number and the text of each finding can be read off it. So two such lists
that are written as the same bytes have the same lines and the same texts. -/
theorem report_text_exact {findings : List Finding}
    (h : ∀ f ∈ findings, '\n' ∉ f.text.toList) :
    text.write findings (.empty none) = (⟨(text.report findings).toUTF8, none⟩, true) ∧
      Text.splitFeeds (text.report findings).toList =
        (findings.map fun f => f.render.toList) ++ [[]] ∧
      (∀ f ∈ findings, Finding.read? f.render.toList = some (f.line, f.text)) ∧
      readText? (text.report findings) = some (findings.map fun f => (f.line, f.text)) ∧
      ∀ others : List Finding, (∀ f ∈ others, '\n' ∉ f.text.toList) →
        (text.write others (.empty none)).1.written =
          (text.write findings (.empty none)).1.written →
        (others.map fun f => (f.line, f.text)) = findings.map fun f => (f.line, f.text) := by
  have hread := (readText?_report_iff findings).mpr h
  refine ⟨write_empty text findings, (splitFeeds_report_text_iff findings).mpr h,
    fun f _ => f.read?_render, hread, ?_⟩
  intro others hothers hbytes
  rw [write_empty, write_empty] at hbytes
  have hreport : text.report others = text.report findings := String.toByteArray_inj.mp hbytes
  have hsame := (readText?_report_iff others).mpr hothers
  rw [hreport, hread] at hsame
  exact (Option.some.inj hsame).symm

/-- Findings whose texts look like lines of a report, and the greatest number. -/
def imitations : List Finding :=
  [⟨18446744073709551615, some "x", "line 3: x"⟩, ⟨0, none, ": : "⟩, ⟨3, some "x", ""⟩]

def renamedImitations : List Finding :=
  imitations.map fun f => { f with name := none }

theorem report_text_exact_imitations :
    (∀ f ∈ imitations, '\n' ∉ f.text.toList) ∧
      (∀ f ∈ renamedImitations, '\n' ∉ f.text.toList) ∧
      readText? "line 18446744073709551615: line 3: x\nline 0: : : \nline 3: \n" =
        some [(18446744073709551615, "line 3: x"), (0, ": : "), (3, "")] ∧
      renamedImitations.map (fun f => (f.line, f.text)) =
        imitations.map fun f => (f.line, f.text) := by
  have himitations : ∀ f ∈ imitations, '\n' ∉ f.text.toList := by decide
  have hrenamed : ∀ f ∈ renamedImitations, '\n' ∉ f.text.toList := by decide
  obtain ⟨-, -, -, hread, hsame⟩ := report_text_exact himitations
  exact ⟨himitations, hrenamed, hread, hsame renamedImitations hrenamed rfl⟩

/-- A text with a line feed is told as two findings. -/
example : text.report [⟨1, none, "a\nline 2: b"⟩] =
    text.report [⟨1, none, "a"⟩, ⟨2, none, "b"⟩] := by
  decide

end Format

end Uninit
