import Mathlib.Algebra.Ring.Rat
import Uninit.Proofs.JsonReader
import Uninit.Proofs.Markers
import Uninit.Proofs.Writing

/-!
# Reading JSON reports

What the writer of JSON writes is a text of the grammar and stands for the value that was written,
at every level of indentation. So a JSON report can be read back: it is an array, and its elements
tell the findings one by one, with their names where they have one.

## Main definitions

* `Json.value`: what a written value stands for
* `Finding.ofValue?`: the finding that an object tells

## Main statements

* `Json.spells_render`: what is written stands for what was to be written
* `Format.report_json_exact`: a JSON report is one array, and its findings can be read back
-/
namespace Uninit

namespace Json

/-! ## Written numbers and strings -/

/-- The digits of a number do not begin with a zero, unless it is zero. -/
theorem head?_toDigits_ne {n : ℕ} (h : n ≠ 0) : (Nat.toDigits 10 n).head? ≠ some '0' := by
  induction n using Nat.strong_induction_on with
  | _ n ih =>
    by_cases hn : n < 10
    · have hdigit : ∀ m < 10, m ≠ 0 → [m.digitChar].head? ≠ some '0' := by decide
      rw [Nat.toDigits_of_lt_base hn]
      exact hdigit n hn h
    · rw [Nat.toDigits_of_base_le (by decide) (by omega), List.head?_append_of_ne_nil]
      · exact ih (n / 10) (by omega) (by omega)
      · exact Nat.toDigits_ne_nil

theorem areWhole_toDigits (n : ℕ) : AreWhole (Nat.toDigits 10 n) := by
  refine ⟨⟨Nat.toDigits_ne_nil, fun c hc => Marker.isDigit_of_mem_toDigits hc⟩, fun hhead => ?_⟩
  by_cases hn : n = 0
  · subst n
    rfl
  · exact absurd hhead (head?_toDigits_ne hn)

theorem spellsNumber_toString (n : ℕ) : SpellsNumber n (toString n).toList := by
  have hamount : amount false (Nat.toDigits 10 n) [] 0 = n := by
    simp [amount, valueOf, Nat.ofDigitChars_ten_toDigits]
  have hspells := SpellsNumber.number .absent (areWhole_toDigits n) .absent .absent
  rw [hamount] at hspells
  simpa using hspells

theorem hexValue?_hexDigit {n : ℕ} (h : n < 16) : hexValue? (hexDigit n) = some n := by
  revert n
  decide

/-- A control character is escaped by its number. -/
theorem unit?_hexDigits {n : ℕ} (h : n < 0x20) :
    unit? '0' '0' (hexDigit (n / 16)) (hexDigit (n % 16)) = some n := by
  have hzero : hexValue? '0' = some 0 := by decide
  rw [unit?, hzero, hexValue?_hexDigit (by omega), hexValue?_hexDigit (by omega)]
  simp only [Option.bind_eq_bind, Option.bind_some, Option.pure_def, Option.some.injEq]
  omega

theorem spellsChar_escape (c : Char) : SpellsChar c (escape c) := by
  rw [escape]
  split_ifs with hquote hbackslash hbackspace hfeed hline hreturn htab hcontrol
  · subst c
    exact .short rfl
  · subst c
    exact .short rfl
  · subst c
    exact .short rfl
  · subst c
    exact .short rfl
  · subst c
    exact .short rfl
  · subst c
    exact .short rfl
  · subst c
    exact .short rfl
  · have hhigh : isHigh c.toNat = false := by
      simp [isHigh]
      omega
    have hlow : isLow c.toNat = false := by
      simp [isLow]
      omega
    have hspells := SpellsChar.unit (unit?_hexDigits hcontrol) hhigh hlow
    rwa [Char.ofNat_toNat] at hspells
  · exact .plain (by simp [isPlain, hquote, hbackslash]; omega)

theorem spellsChars_escape (cs : List Char) : SpellsChars cs (cs.flatMap escape) := by
  induction cs with
  | nil => exact .nil
  | cons c cs ih => exact .cons (spellsChar_escape c) ih

theorem spellsString_quote (s : String) : SpellsString s (quote s) := by
  have hspells := SpellsString.string (spellsChars_escape s.toList)
  rwa [String.ofList_toList] at hspells

/-! ## Written values -/

mutual

/-- What a written value stands for. -/
def value : Json → Value
  | number n => .number n
  | string s => .string s
  | array elements => .array (values elements)
  | object members => .object (memberValues members)

def values : List Json → List Value
  | [] => []
  | e :: rest => e.value :: values rest

def memberValues : List (String × Json) → List (String × Value)
  | [] => []
  | (name, v) :: rest => (name, v.value) :: memberValues rest

end

theorem areBlank_newline (level : ℕ) : AreBlank (newline level) := by
  intro c hc
  rw [newline, List.mem_cons, List.mem_replicate] at hc
  rcases hc with rfl | ⟨-, rfl⟩ <;> decide

theorem areBlank_nil : AreBlank [] := by
  simp [AreBlank]

theorem areBlank_space : AreBlank [' '] := by
  simp [AreBlank, isBlank]

section Parts

variable {α : Type} {P : α → List Char → Prop}

/-- Parts that are written one a line are separated. -/
theorem separated_lines {x : α} {xs : List α} {first : List Char} {rest : List (List Char)}
    (hx : P x first) (hxs : List.Forall₂ P xs rest) (level : ℕ) {last : List Char}
    (hlast : AreBlank last) :
    Separated P (x :: xs) (newline level ++
      (first ++ (rest.flatMap (fun m => ',' :: newline level ++ m) ++ last))) := by
  induction hxs generalizing x first with
  | nil => exact .one (areBlank_newline level) hx hlast
  | @cons y ys second rest hy hys ih =>
    have hmore := Separated.cons (areBlank_newline level) hx areBlank_nil (ih hy)
    simpa using hmore

theorem enclosed_enclose {xs : List α} {texts : List (List Char)} (h : List.Forall₂ P xs texts)
    (opening closing : Char) (level : ℕ) :
    Enclosed P opening closing xs (enclose opening closing level texts) := by
  cases h with
  | nil => exact .empty areBlank_nil
  | cons hx hxs =>
    have hlines := separated_lines hx hxs level (areBlank_newline (level - 1))
    have hparts : Enclosed P opening closing _ _ := .parts hlines
    simpa [enclose] using hparts

end Parts

mutual

/-- **What is written stands for what was to be written**, at every level. -/
theorem spells_render (level : ℕ) : ∀ j : Json, Spells j.value (j.render level)
  | number n => .number (spellsNumber_toString n)
  | string s => .string (spellsString_quote s)
  | array elements =>
    .array (enclosed_enclose (spells_renderElements (level + 1) elements) _ _ _)
  | object members =>
    .object (enclosed_enclose (spells_renderMembers (level + 1) members) _ _ _)

theorem spells_renderElements (level : ℕ) :
    ∀ elements : List Json, List.Forall₂ Spells (values elements) (renderElements level elements)
  | [] => .nil
  | e :: rest => .cons (spells_render level e) (spells_renderElements level rest)

theorem spells_renderMembers (level : ℕ) :
    ∀ members : List (String × Json),
      List.Forall₂ SpellsMember (memberValues members) (renderMembers level members)
  | [] => .nil
  | (name, v) :: rest =>
    .cons (.member (spellsString_quote name) areBlank_nil areBlank_space (spells_render level v))
      (spells_renderMembers level rest)

end

theorem values_eq_map (elements : List Json) : values elements = elements.map value := by
  induction elements with
  | nil => rfl
  | cons e rest ih => rw [values, ih, List.map_cons]

namespace Value

/-- The number that a value is, if it is a whole number and not negative. -/
def natural? : Value → Option ℕ
  | number q => if q.den = 1 ∧ 0 ≤ q.num then some q.num.toNat else none
  | _ => none

def string? : Value → Option String
  | string s => some s
  | _ => none

theorem natural?_number (n : ℕ) : natural? (.number n) = some n := by
  simp [natural?]

end Value

end Json

/-! ## Findings -/

namespace Finding

/-- The finding that an object tells by its members, in whatever order they stand. -/
def ofValue? : Json.Value → Option Finding
  | .object members => do
    let line ← (members.lookup "line").bind Json.Value.natural?
    let text ← (members.lookup "text").bind Json.Value.string?
    match members.lookup "name" with
    | none => return ⟨line, none, text⟩
    | some value => do
      let name ← value.string?
      return ⟨line, some name, text⟩
  | _ => none

def listOfValue? : Json.Value → Option (List Finding)
  | .array values => values.mapM ofValue?
  | _ => none

/-- The members of the object that a finding is written as: its name is one of them exactly if it
has one. -/
def members (f : Finding) : List (String × Json.Value) :=
  ("line", .number f.line) :: (f.name.map fun name => ("name", .string name)).toList ++
    [("text", .string f.text)]

theorem value_toJson (f : Finding) : f.toJson.value = .object f.members := by
  obtain ⟨line, name, text⟩ := f
  cases name <;> rfl

theorem lookup_name_members (f : Finding) :
    f.members.lookup "name" = f.name.map Json.Value.string := by
  obtain ⟨line, name, text⟩ := f
  cases name <;> simp [members, List.lookup_cons]

/-- A finding is told by its object. -/
theorem ofValue?_members (f : Finding) : ofValue? (.object f.members) = some f := by
  have hline : f.members.lookup "line" = some (.number f.line) := by simp [members]
  have htext : f.members.lookup "text" = some (.string f.text) := by
    obtain ⟨line, name, text⟩ := f
    cases name <;> simp [members, List.lookup_cons]
  rw [ofValue?, hline, htext, lookup_name_members]
  obtain ⟨line, name, text⟩ := f
  cases name <;> simp [Json.Value.natural?_number, Json.Value.string?]

theorem mapM_ofValue? (findings : List Finding) :
    (findings.map fun f => Json.Value.object f.members).mapM ofValue? = some findings := by
  induction findings with
  | nil => rfl
  | cons f rest ih =>
    rw [List.map_cons, List.mapM_cons, ofValue?_members, ih]
    rfl

end Finding

namespace Format

/-- The text of a JSON report, without the line feed behind it. -/
def jsonText (findings : List Finding) : List Char :=
  (Json.array (findings.map Finding.toJson)).render 0

theorem spells_jsonText (findings : List Finding) :
    Json.Spells (.array (findings.map fun f => .object f.members)) (jsonText findings) := by
  have hspells := Json.spells_render 0 (.array (findings.map Finding.toJson))
  have hvalue : (Json.array (findings.map Finding.toJson)).value =
      .array (findings.map fun f => .object f.members) := by
    rw [Json.value, Json.values_eq_map, List.map_map]
    congr 1
    exact List.map_congr_left fun f _ => f.value_toJson
  rwa [hvalue] at hspells

/-- A JSON report is written whole where there is room for it. -/
theorem write_json (findings : List Finding) :
    json.write findings (.empty none) =
      (⟨(String.ofList (jsonText findings ++ ['\n'])).toUTF8, none⟩, true) := by
  have htext : json.report findings = String.ofList (jsonText findings ++ ['\n']) := by
    simp [report, pieces, jsonText]
  rw [write_empty, htext]

/-- **A JSON report can be read back.** What is written is one JSON array and a line feed. The array
holds an object for each finding, in order, with a name exactly if the finding has one, and the
text stands for nothing else. So the findings can be read off the output again, and no two lists of
findings are written as the same bytes. -/
theorem report_json_exact (findings : List Finding) :
    ∃ text : List Char,
      json.write findings (.empty none) =
        (⟨(String.ofList (text ++ ['\n'])).toUTF8, none⟩, true) ∧
      (∀ v, Json.Spells v text ↔ v = .array (findings.map fun f => f.toJson.value)) ∧
      (∀ f ∈ findings, ∃ members, f.toJson.value = .object members ∧
        members.lookup "name" = f.name.map Json.Value.string) ∧
      (Json.read (text ++ ['\n'])).bind Finding.listOfValue? = some findings ∧
      ∀ others, (json.write others (.empty none)).1.written =
        (json.write findings (.empty none)).1.written → others = findings := by
  have hfeed : Json.AreBlank ['\n'] := by simp [Json.AreBlank, Json.isBlank]
  have hread : ∀ fs : List Finding,
      (Json.read (jsonText fs ++ ['\n'])).bind Finding.listOfValue? = some fs := by
    intro fs
    have hvalue := Json.read_of_spells Json.areBlank_nil (spells_jsonText fs) hfeed
    rw [List.nil_append] at hvalue
    rw [hvalue, Option.bind_some]
    exact Finding.mapM_ofValue? fs
  refine ⟨jsonText findings, write_json findings, fun v => ?_, fun f _ => ?_, hread findings,
    fun others h => ?_⟩
  · have hspells := spells_jsonText findings
    simp only [Finding.value_toJson]
    constructor
    · intro hv
      exact hv.unique hspells
    · rintro rfl
      exact hspells
  · exact ⟨f.members, f.value_toJson, f.lookup_name_members⟩
  · rw [write_json, write_json] at h
    have htext := String.ofList_injective (String.toByteArray_inj.mp h)
    have hfindings := hread others
    rw [htext, hread findings] at hfindings
    exact (Option.some.inj hfindings).symm

end Format

end Uninit
