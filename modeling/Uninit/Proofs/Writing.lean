import Mathlib.Data.List.Basic
import Uninit.Analysis

/-!
# Reports and outputs with limited room

A report is written in pieces, and the output may be full in the middle of any of them. That the
pieces are written one by one cannot be told from what the output has taken: it is the start of
the report, as much of it as there was room for, however the report was cut.

## Main statements

* `Sink.writeAll_eq_write`: pieces are written as if they were one text
* `Analysis.run_within_exact`: what a run leaves in an output with limited room
-/
namespace Uninit

namespace Sink

/-! ## What fits -/

/-- The start of some bytes, as many as there is room for. -/
def fitting (room : ℕ) (bytes : ByteArray) : ByteArray :=
  bytes.extract 0 (min room bytes.size)

theorem extract_of_size_le {bytes : ByteArray} {n : ℕ} (h : bytes.size ≤ n) :
    bytes.extract 0 n = bytes := by
  ext1
  simp [h]

theorem fitting_of_size_le {bytes : ByteArray} {room : ℕ} (h : bytes.size ≤ room) :
    fitting room bytes = bytes :=
  extract_of_size_le (Nat.le_min.mpr ⟨h, Nat.le_refl _⟩)

theorem fitting_of_le_size {bytes : ByteArray} {room : ℕ} (h : room ≤ bytes.size) :
    fitting room bytes = bytes.extract 0 room := by
  rw [fitting, Nat.min_eq_left h]

@[simp] theorem fitting_zero (bytes : ByteArray) : fitting 0 bytes = ByteArray.empty := by
  rw [fitting, ByteArray.extract_eq_empty_iff]
  omega

/-- What fits of two texts: what fits of the first, and then of the second what fits into the room
that is left. -/
theorem fitting_append (room : ℕ) (a b : ByteArray) :
    fitting room (a ++ b) = fitting room a ++ fitting (room - a.size) b := by
  rcases Nat.le_total a.size room with h | h
  · rw [fitting_of_size_le h, fitting, fitting, ByteArray.extract_append, ByteArray.size_append,
      extract_of_size_le (by omega)]
    congr 2 <;> omega
  · have hsize : room ≤ (a ++ b).size := by
      rw [ByteArray.size_append]
      omega
    rw [fitting_of_le_size h, fitting_of_le_size hsize, fitting, ByteArray.extract_append]
    congr 2 <;> omega

/-! ## Writing -/

/-- A text that does not fit is taken as far as there is room. -/
theorem write_within (written : ByteArray) (room : ℕ) (text : String) :
    (⟨written, some room⟩ : Sink).write text =
      (⟨written ++ fitting room text.toUTF8, some (room - text.toUTF8.size)⟩,
        decide (text.toUTF8.size ≤ room)) := by
  simp only [write]
  by_cases h : text.toUTF8.size ≤ room
  · rw [if_pos h, fitting_of_size_le h, decide_eq_true h]
  · rw [if_neg h, fitting_of_le_size (by omega), decide_eq_false h,
      Nat.sub_eq_zero_of_le (by omega)]

theorem toUTF8_append (a b : String) : (a ++ b).toUTF8 = a.toUTF8 ++ b.toUTF8 :=
  String.toByteArray_append

/-- A text is written by writing its first part and then, if all of that was taken, the rest. -/
theorem write_append (s : Sink) (a b : String) :
    s.write (a ++ b) =
      match s.write a with
      | (s, true) => s.write b
      | (s, false) => (s, false) := by
  obtain ⟨written, room⟩ := s
  cases room with
  | none => simp only [write, toUTF8_append, ByteArray.append_assoc]
  | some room =>
    rw [write_within, write_within, toUTF8_append, fitting_append, ByteArray.size_append,
      ← Nat.sub_sub, ← ByteArray.append_assoc]
    by_cases h : a.toUTF8.size ≤ room
    · have hfits : a.toUTF8.size + b.toUTF8.size ≤ room ↔
          b.toUTF8.size ≤ room - a.toUTF8.size := by omega
      simp only [decide_eq_true h, write_within, hfits]
    · have hfull : room - a.toUTF8.size = 0 := by omega
      have hfits : ¬ a.toUTF8.size + b.toUTF8.size ≤ room := by omega
      simp only [decide_eq_false h, decide_eq_false hfits, hfull, fitting_zero, Nat.zero_sub,
        ByteArray.append_empty]

/-- **Pieces are written as if they were one text**: how a text is cut into pieces changes neither
what is taken of it nor whether all of it is taken. -/
theorem writeAll_eq_write (s : Sink) (pieces : List String) :
    s.writeAll pieces = s.write (String.join pieces) := by
  induction pieces generalizing s with
  | nil =>
    obtain ⟨written, room⟩ := s
    cases room <;> simp [writeAll, write]
  | cons piece rest ih =>
    rw [String.join_cons, write_append, writeAll]
    obtain ⟨next, taken⟩ := s.write piece
    cases taken with
    | true => exact ih next
    | false => rfl

end Sink

/-- A report is written whole where there is room for it. -/
theorem Format.write_empty (format : Format) (findings : List Finding) :
    format.write findings (.empty none) = (⟨(format.report findings).toUTF8, none⟩, true) := by
  rw [write, Sink.writeAll_eq_write, report]
  simp [Sink.write, Sink.empty]

namespace Analysis

/-- The report of an analysis that succeeds is written as one text. -/
theorem run_of_findings {parse : Reader} {path : String} {source : Except Stop Prepared}
    {found : List Finding} (h : findings parse path source = .ok found) (format : Format)
    (written : ByteArray) (room : ℕ) :
    run parse format path source ⟨written, some room⟩ =
      (if (format.report found).toUTF8.size ≤ room then .ok found else .error (.failed .unwritten),
        ⟨written ++ Sink.fitting room (format.report found).toUTF8,
          some (room - (format.report found).toUTF8.size)⟩) := by
  have hwrite : format.write found ⟨written, some room⟩ =
      (⟨written ++ Sink.fitting room (format.report found).toUTF8,
        some (room - (format.report found).toUTF8.size)⟩,
        decide ((format.report found).toUTF8.size ≤ room)) := by
    rw [Format.write, Sink.writeAll_eq_write, ← Format.report, Sink.write_within]
  rw [run, h]
  by_cases hfits : (format.report found).toUTF8.size ≤ room
  · simp only [hwrite, decide_eq_true hfits, if_pos hfits]
  · simp only [hwrite, decide_eq_false hfits, if_neg hfits]

/-- **What a run leaves in an output with limited room.** Nothing is written if the source cannot
be loaded or read. Otherwise the output takes as much of the report as there is room for, however it
is cut into pieces, and the run gives the findings exactly if that is the whole report. -/
theorem run_within_exact (parse : Reader) (format : Format) (path : String)
    (load : String → Except Stop Prepared) (written : ByteArray) (room : ℕ) :
    (∀ stop, load path = .error stop →
      run parse format path (load path) ⟨written, some room⟩ =
        (.error stop, ⟨written, some room⟩)) ∧
    (∀ p fault, load path = .ok p → parse p.text = .error fault →
      run parse format path (load path) ⟨written, some room⟩ =
        (.error (.failed (.unparsable path fault)), ⟨written, some room⟩)) ∧
    (∀ p u, load path = .ok p → parse p.text = .ok u →
      ∃ found report, findings parse path (load path) = .ok found ∧ found = p.findingsOf u ∧
        report = (format.report found).toUTF8 ∧
        (run parse format path (load path) ⟨written, some room⟩).2.written =
          written ++ report.extract 0 (min room report.size) ∧
        ((run parse format path (load path) ⟨written, some room⟩).1 = .ok found ↔
          report.size ≤ room) ∧
        (room < report.size → ∃ failure,
          (run parse format path (load path) ⟨written, some room⟩).1 = .error (.failed failure) ∧
          failure.chain = ["Failed to write report", "failed to write whole buffer"]) ∧
        ∀ pieces, String.join pieces = format.report found →
          (⟨written, some room⟩ : Sink).writeAll pieces =
            format.write found ⟨written, some room⟩) := by
  refine ⟨fun stop h => ?_, fun p fault hp h => ?_, fun p u hp hu => ?_⟩
  · rw [h]
    rfl
  · simp only [run, findings, hp, h]
  · have hfound : findings parse path (load path) = .ok (p.findingsOf u) := by
      simp only [findings, hp, hu]
    have hrun := run_of_findings hfound format written room
    refine ⟨_, _, hfound, rfl, rfl, ?_, ?_, fun hfull => ⟨.unwritten, ?_, rfl⟩, ?_⟩
    · rw [hrun, Sink.fitting]
    · rw [hrun]
      simp
    · rw [hrun]
      exact if_neg (Nat.not_le.mpr hfull)
    · intro pieces hpieces
      rw [Format.write, Sink.writeAll_eq_write, Sink.writeAll_eq_write, hpieces, ← Format.report]

/-- The unit of `char a["x"];`. -/
def quotedUnit : TranslationUnit :=
  ⟨[.decl ⟨some "a", 1, "char a[\"x\"]", none⟩]⟩

/-- The start of its report, which ends inside an escape. -/
def cutReport : String :=
  "[\n  \x7b\n    \"line\": 1,\n    \"name\": \"a\",\n    \"text\": \"char a[\\"

theorem run_within_exact_cutReport :
    (run (fun _ => .ok quotedUnit) .json "a.c" (.ok (.raw "a.c" "char a[\"x\"];"))
        ⟨.empty, some cutReport.utf8ByteSize⟩).2.written = cutReport.toUTF8 ∧
      ∃ failure, (run (fun _ => .ok quotedUnit) .json "a.c"
          (.ok (.raw "a.c" "char a[\"x\"];")) ⟨.empty, some cutReport.utf8ByteSize⟩).1 =
            .error (.failed failure) ∧
        failure.chain = ["Failed to write report", "failed to write whole buffer"] := by
  obtain ⟨found, report, -, rfl, rfl, hwritten, -, hfull, -⟩ :=
    (run_within_exact (fun _ => .ok quotedUnit) .json "a.c"
      (fun path => .ok (.raw path "char a[\"x\"];")) .empty cutReport.utf8ByteSize).2.2 _ _ rfl rfl
  exact ⟨hwritten.trans (by decide +kernel), hfull (by decide +kernel)⟩

end Analysis

end Uninit
