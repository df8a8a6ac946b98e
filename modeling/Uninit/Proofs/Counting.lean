import Uninit.Proofs.Origins

/-!
# Counting lines within the bound

A marker may carry any number below the bound of line numbers, and each line of text behind it
counts one further, so the count can come to the bound. There is no greater number, and the
preparation is broken off, even where no line is left that would carry it.

## Main statements

* `counting_exact_iff`: for which outputs no count overflows
* `counting_overflows`: an output for which one does
-/
namespace Uninit

open Marker

namespace Prepared

/-- **Preparing comes to its end as long as no number that the markers tell reaches the bound**, and
is broken off otherwise. Where it comes to its end, every line of text can be counted on from. -/
theorem counting_exact_iff (primary output : String) :
    ((∃ p, ofPreprocessed primary output = .ok p) ↔ Countable (Text.lines output.toList)) ∧
      (ofPreprocessed primary output = .error .overflow ↔
        ¬ Countable (Text.lines output.toList)) ∧
      ∀ p, ofPreprocessed primary output = .ok p → ∀ i origin,
        p.resolve i = some origin → nextLine origin.line = .ok (origin.line + 1) := by
  refine ⟨?_, ?_, fun p hp i origin horigin => ?_⟩
  · rw [ofPreprocessed_eq_ite]
    split <;> simp [*]
  · rw [ofPreprocessed_eq_ite]
    split <;> simp [*]
  · obtain ⟨hcount, rfl⟩ := ofPreprocessed_eq_ok_iff.mp hp
    rw [resolve_prepared] at horigin
    exact nextLine_of_lt (hcount.line_add_one_lt horigin)

/-- A marker with the greatest number, and a line behind it. -/
def lastLineOutput : String :=
  "# 18446744073709551615\nint a;\n"

/-- The marker is read, and the line carries its number; but no number is left for a line behind. -/
theorem counting_overflows :
    parse? "# 18446744073709551615".toList = some ⟨18446744073709551615, none⟩ ∧
      Origin.ofLine? "m.c" (Text.lines lastLineOutput.toList) 2 =
        some ⟨"m.c", 18446744073709551615⟩ ∧
      ofPreprocessed "m.c" lastLineOutput = .error .overflow ∧
      ¬ ∃ p, ofPreprocessed "m.c" lastLineOutput = .ok p := by
  have hoverflow : ofPreprocessed "m.c" lastLineOutput = .error .overflow := by
    rw [ofPreprocessed_eq_ite]
    exact if_neg (by decide +kernel)
  refine ⟨by decide +kernel, by decide +kernel, hoverflow, ?_⟩
  rintro ⟨p, hp⟩
  rw [hoverflow] at hp
  cases hp

end Prepared

end Uninit
