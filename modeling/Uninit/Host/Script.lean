import Uninit.Host

/-!
# Shell scripts

The part of the shell language that small scripts need: simple commands with quoted words,
variables and the arguments of the script, loops over words, output to the error stream, and
the commands `echo`, `printf`, `cat`, `exit`, `kill`, `true`, `false` and `:`.
-/
namespace Uninit.Script

/-- A part of a word. -/
inductive Fragment where
  | text (cs : List Char)
  /-- A variable. -/
  | variable (name : List Char)
  /-- All arguments of the script, each a word of its own. -/
  | arguments
deriving Repr, DecidableEq

/-- A word before its variables are filled in. -/
abbrev Word := List Fragment

/-- A token of a script. -/
inductive Token where
  | word (w : Word)
  /-- The end of a command. -/
  | stop
  /-- The redirection of the output to the error stream. -/
  | toErrors
deriving Repr, DecidableEq

def isNameChar (c : Char) : Bool :=
  c.isAlphanum || c = '_'

/-- How a character is read. -/
inductive Mode where
  | plain
  | single
  | double
deriving Repr, DecidableEq

/-- Cut a script into tokens. `word` is the word that has been started, to which what is read is
appended. Every step reads a character at least, so `fuel` bounds the length of the script. -/
def scan (fuel : Nat) (mode : Mode) (word : Option Word) (cs : List Char) : List Token :=
  let close : List Token := match word with
    | some w => [.word w]
    | none => []
  let grow (f : Fragment) : Option Word := some (word.getD [] ++ [f])
  match fuel with
  | 0 => close
  | fuel + 1 =>
    match mode, cs with
    | _, [] => close
    | .single, '\'' :: rest => scan fuel .plain word rest
    | .single, c :: rest => scan fuel .single (grow (.text [c])) rest
    | .double, '"' :: rest => scan fuel .plain word rest
    | .double, '\\' :: c :: rest =>
      if c = '"' || c = '\\' || c = '$' || c = '\x60' then scan fuel .double (grow (.text [c])) rest
      else if c = '\n' then scan fuel .double word rest
      else scan fuel .double (grow (.text ['\\', c])) rest
    | .plain, '\\' :: c :: rest => scan fuel .plain (grow (.text [c])) rest
    | .plain, '\'' :: rest => scan fuel .single (grow (.text [])) rest
    | .plain, '"' :: rest => scan fuel .double (grow (.text [])) rest
    | mode, '$' :: '@' :: rest => scan fuel mode (grow .arguments) rest
    | mode, '$' :: '$' :: rest => scan fuel mode (grow (.variable ['$'])) rest
    | mode, '$' :: c :: rest =>
      if isNameChar c then
        let name := c :: rest.takeWhile isNameChar
        scan fuel mode (grow (.variable name)) (rest.dropWhile isNameChar)
      else scan fuel mode (grow (.text ['$'])) (c :: rest)
    | .double, c :: rest => scan fuel .double (grow (.text [c])) rest
    | .plain, '>' :: '&' :: '2' :: rest => close ++ .toErrors :: scan fuel .plain none rest
    | .plain, '#' :: rest =>
      match word with
      | none => scan fuel .plain none (rest.dropWhile (· ≠ '\n'))
      | some _ => scan fuel .plain (grow (.text ['#'])) rest
    | .plain, c :: rest =>
      if c = ';' || c = '\n' then close ++ .stop :: scan fuel .plain none rest
      else if c = ' ' || c = '\t' then close ++ scan fuel .plain none rest
      else scan fuel .plain (grow (.text [c])) rest

/-- A command. -/
inductive Command where
  | simple (words : List Word) (toErrors : Bool)
  /-- A loop over words, or over the arguments of the script. -/
  | loop (name : List Char) (words : List Word) (body : List Command)

/-- The characters of a word without variables. -/
def plainText? : Word → Option (List Char)
  | [] => some []
  | .text cs :: rest => (plainText? rest).map (cs ++ ·)
  | _ :: _ => none

/-- The text of a token that is a word without variables. -/
def keyword? : Token → Option (List Char)
  | .word w => plainText? w
  | _ => none

/-- The words of a command, and what follows them. -/
def takeWords : List Token → List Word × List Token
  | .word w :: rest =>
    let (words, rest) := takeWords rest
    (w :: words, rest)
  | rest => ([], rest)

/-- Whether the output of a command goes to the error stream, and the words that follow. -/
def takeRedirection (words : List Word) : List Token → List Word × Bool × List Token
  | .toErrors :: rest =>
    let (more, rest) := takeWords rest
    (words ++ more, true, rest)
  | rest => (words, false, rest)

/-- Read commands up to the end, or up to the word `done`. -/
def parse : Nat → List Token → List Command × List Token
  | 0, ts => ([], ts)
  | _, [] => ([], [])
  | fuel + 1, .stop :: rest => parse fuel rest
  | fuel + 1, t :: rest =>
    if keyword? t = some "done".toList then ([], rest)
    else if keyword? t = some "do".toList then parse fuel rest
    else if keyword? t = some "for".toList then
      let (header, rest) := takeWords rest
      let name := (header.head?.bind plainText?).getD []
      let words := if header.length ≤ 1 then [[.arguments]] else header.drop 2
      let (body, rest) := parse fuel rest
      let (more, rest) := parse fuel rest
      (.loop name words body :: more, rest)
    else
      let (words, rest) := takeWords (t :: rest)
      let (words, toErrors, rest) := takeRedirection words rest
      let (more, rest) := parse fuel rest
      (.simple words toErrors :: more, rest)

/-- The state of a script that runs. -/
structure Shell where
  /-- The files that can be read. -/
  read : String → Except OsError (List UInt8)
  arguments : List String
  bindings : List (List Char × String)
  output : List UInt8
  errors : List UInt8
  /-- The exit code of the last command. -/
  status : Nat
  /-- Set once the script has ended: its exit code, or none if it was killed. -/
  ended : Option (Option Nat)

def Shell.value (s : Shell) (name : List Char) : String :=
  match s.bindings.find? (·.1 = name) with
  | some (_, value) => value
  | none =>
    match (String.ofList name).toNat? with
    | some (n + 1) => s.arguments[n]?.getD ""
    | _ => ""

/-- Fill in the variables of a word. Only the arguments of the script alone give several words. -/
def Shell.expand (s : Shell) (w : Word) : List String :=
  if w.filter (· ≠ .text []) = [.arguments] then s.arguments
  else [String.join (w.map fun
    | .text cs => String.ofList cs
    | .variable ['$'] => "$$"
    | .variable name => s.value name
    | .arguments => " ".intercalate s.arguments)]

/-- Append to the output, or to the errors. -/
def Shell.put (s : Shell) (toErrors : Bool) (bytes : List UInt8) : Shell :=
  if toErrors then { s with errors := s.errors ++ bytes }
  else { s with output := s.output ++ bytes }

/-- The value of up to `most` octal digits, and what follows them. -/
def octal : Nat → Nat → List Char → Nat × List Char
  | 0, n, cs => (n, cs)
  | most + 1, n, c :: rest =>
    if '0' ≤ c ∧ c ≤ '7' then octal most (n * 8 + (c.toNat - '0'.toNat)) rest else (n, c :: rest)
  | _, n, [] => (n, [])

def bytesOf (c : Char) : List UInt8 :=
  c.toString.toUTF8.toList

/-- The bytes of a text in which a backslash escapes. A number in octal digits needs a zero in
front where `zeroFirst` is set. -/
def unescape (zeroFirst : Bool) : Nat → List Char → List UInt8
  | 0, _ => []
  | _, [] => []
  | fuel + 1, '\\' :: c :: rest =>
    match c with
    | 'n' => 10 :: unescape zeroFirst fuel rest
    | 't' => 9 :: unescape zeroFirst fuel rest
    | 'r' => 13 :: unescape zeroFirst fuel rest
    | 'a' => 7 :: unescape zeroFirst fuel rest
    | 'b' => 8 :: unescape zeroFirst fuel rest
    | 'f' => 12 :: unescape zeroFirst fuel rest
    | 'v' => 11 :: unescape zeroFirst fuel rest
    | '\\' => 92 :: unescape zeroFirst fuel rest
    | _ =>
      if zeroFirst && c = '0' then
        let (n, rest) := octal 3 0 rest
        UInt8.ofNat n :: unescape zeroFirst fuel rest
      else if !zeroFirst && '0' ≤ c && c ≤ '7' then
        let (n, rest) := octal 3 0 (c :: rest)
        UInt8.ofNat n :: unescape zeroFirst fuel rest
      else 92 :: bytesOf c ++ unescape zeroFirst fuel rest
  | fuel + 1, c :: rest => bytesOf c ++ unescape zeroFirst fuel rest

/-- The bytes of a text with its escapes. -/
def unescaped (zeroFirst : Bool) (text : String) : List UInt8 :=
  unescape zeroFirst (text.length + 1) text.toList

/-- Write files one after the other. -/
def concatenate (read : String → Except OsError (List UInt8)) : List String → Exit
  | [] => ⟨some 0, [], []⟩
  | name :: rest =>
    let later := concatenate read rest
    match read name with
    | .ok bytes => { later with output := bytes ++ later.output }
    | .error e =>
      let complaint := "cat: " ++ name ++ ": " ++ e.reason ++ "\n"
      { later with code := some 1, errors := complaint.toUTF8.toList ++ later.errors }

/-- The command `cat`, which knows none of the options that begin with a capital `I` or `D`. -/
def cat (read : String → Except OsError (List UInt8)) (arguments : List String) : Exit :=
  match arguments.find? fun a => a.startsWith "-" && a ≠ "-" with
  | some option =>
    let letter := ((option.toList.drop 1).take 1)
    let complaint := "cat: invalid option -- '" ++ String.ofList letter ++
      "'\nTry 'cat --help' for more information.\n"
    ⟨some 1, [], complaint.toUTF8.toList⟩
  | none => concatenate read arguments

def Shell.simple (s : Shell) (toErrors : Bool) : List String → Shell
  | [] => s
  | command :: arguments =>
    let s := { s with status := 0 }
    match command with
    | "echo" => s.put toErrors (unescaped true (" ".intercalate arguments) ++ [10])
    | "printf" => s.put toErrors (unescaped false (arguments.headD ""))
    | "cat" =>
      let result := cat s.read arguments
      let s := s.put toErrors result.output
      { s with errors := s.errors ++ result.errors, status := result.code.getD 1 }
    | "exit" =>
      { s with ended := some (some ((arguments.head?.bind String.toNat?).getD s.status % 256)) }
    | "kill" => { s with ended := some none }
    | "false" => { s with status := 1 }
    | _ => s

mutual

/-- Run a command, unless the script has ended. -/
def Shell.exec (s : Shell) (c : Command) : Shell :=
  if s.ended.isSome then s
  else match c with
    | .simple words toErrors => s.simple toErrors (words.flatMap s.expand)
    | .loop name words body =>
      (words.flatMap s.expand).foldl (fun s value =>
        Shell.execAll { s with bindings := (name, value) :: s.bindings } body) s

def Shell.execAll (s : Shell) : List Command → Shell
  | [] => s
  | c :: rest => Shell.execAll (Shell.exec s c) rest

end

def run (script : String) (read : String → Except OsError (List UInt8)) (arguments : List String) :
    Exit :=
  let cs := script.toList
  let tokens := scan (cs.length + 1) .plain none cs
  let commands := (parse (2 * tokens.length + 1) tokens).1
  let s := Shell.execAll ⟨read, arguments, [], [], [], 0, none⟩ commands
  ⟨s.ended.getD (some s.status), s.output, s.errors⟩

end Uninit.Script
