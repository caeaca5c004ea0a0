import Ferric.Path

/-!
# Flags

What may stand on the command line: flags with and without values, before or after the name of a
command, and the names of files.  The arguments are read from left to right, and the first one that
does not fit ends the reading, as do the flags that ask for the version or for help.

A short flag takes the rest of its argument as its value, with or without an equals sign, or else
the next argument; a long flag takes what follows an equals sign, or else the next argument.  An
argument that starts with a dash and has more to it is never taken for a value.  After two dashes
everything is the name of a file.

## Main definitions

* `Invocation`: what the command line asks for.
* `Stop`: why the reading ends before that is known.
* `Invocation.read`: the invocation of a command line.
-/

namespace Ferric.CommandLine

inductive Flag where
  | verbose | config | help | version
  | output | define | includeDir | stdout
deriving DecidableEq, Repr

namespace Flag

def letter? : Flag → Option Char
  | .verbose => some 'v'
  | .config => some 'c'
  | .help => some 'h'
  | .version => some 'V'
  | .output => some 'o'
  | .define => some 'D'
  | .includeDir => some 'I'
  | .stdout => none

def word : Flag → String
  | .verbose => "verbose"
  | .config => "config"
  | .help => "help"
  | .version => "version"
  | .output => "output"
  | .define => "define"
  | .includeDir => "include"
  | .stdout => "stdout"

def takesValue : Flag → Bool
  | .config | .output | .define | .includeDir => true
  | _ => false

/-- Whether a flag may be given more than once. -/
def isRepeatable : Flag → Bool
  | .verbose | .define | .includeDir => true
  | _ => false

/-- Whether the value of a flag is a path, which is never empty. -/
def namesPath : Flag → Bool
  | .config | .output => true
  | _ => false

end Flag

/-- What the arguments belong to: the program itself, or one of its commands. -/
inductive Scope where
  | program | convert | check | dump
deriving DecidableEq, Repr

namespace Scope

def flags : Scope → List Flag
  | .program => [.verbose, .config, .help, .version]
  | .convert => [.verbose, .config, .help, .output, .define, .includeDir, .stdout]
  | .check | .dump => [.verbose, .config, .help]

/-- How many files a scope takes at most. -/
def capacity : Scope → Option Nat
  | .program => some 0
  | .convert | .dump => some 1
  | .check => none

def command? : String → Option Scope
  | "convert" => some .convert
  | "check" => some .check
  | "dump" => some .dump
  | _ => none

end Scope

/-- **Why the reading ends** before it is known what is asked for. -/
inductive Stop where
  /-- The arguments do not fit. -/
  | misuse (text : String)
  | version
  | help (scope : Scope)
deriving DecidableEq, Repr

/-- What has been read in one scope. -/
structure Reading where
  given : List (Flag × String) := []
  files : List String := []
  /-- The flag whose value comes next. -/
  pending : Option Flag := none
  /-- Whether everything else is the name of a file. -/
  isLiteral : Bool := false

namespace Reading

/-- How often a flag was given. -/
def count (r : Reading) (flag : Flag) : Nat :=
  (r.given.filter (·.1 == flag)).length

def values (r : Reading) (flag : Flag) : List String :=
  (r.given.filter (·.1 == flag)).map (·.2)

def record (r : Reading) (flag : Flag) (value : String) : Except Stop Reading :=
  if flag.namesPath && value == "" then
    .error (.misuse ("a value is required for '--" ++ flag.word ++ "'"))
  else if !flag.isRepeatable && r.count flag != 0 then
    .error (.misuse ("the argument '--" ++ flag.word ++ "' cannot be used multiple times"))
  else .ok { r with given := r.given ++ [(flag, value)], pending := none }

/-- No value may be owed when the next flag comes. -/
def settled (r : Reading) : Except Stop Reading :=
  match r.pending with
  | some flag => .error (.misuse ("a value is required for '--" ++ flag.word ++ "'"))
  | none => .ok r

def takeFlag (r : Reading) (scope : Scope) (flag : Flag) (attached : Option String) :
    Except Stop Reading := do
  let r ← r.settled
  if flag.takesValue then
    match attached with
    | some value => r.record flag value
    | none => .ok { r with pending := some flag }
  else match attached, flag with
    | some _, _ => .error (.misuse ("unexpected value for '--" ++ flag.word ++ "'"))
    | none, .help => .error (.help scope)
    | none, .version => .error .version
    | none, flag => r.record flag ""

/-- An argument that is not known. -/
def unexpected (text : String) : Stop :=
  .misuse ("unexpected argument '" ++ text ++ "' found")

def takeFile (r : Reading) (scope : Scope) (name : String) : Except Stop Reading :=
  if scope.capacity.any (· ≤ r.files.length) then .error (unexpected name)
  else if name == "" then .error (.misuse "a value is required for a file")
  else .ok { r with files := r.files ++ [name] }

/-- Take a long flag, given the characters after its dashes. -/
def takeLong (r : Reading) (scope : Scope) (cs : List Char) : Except Stop Reading :=
  let name := String.ofList (cs.takeWhile (· != '='))
  let attached := match cs.dropWhile (· != '=') with
    | _ :: value => some (String.ofList value)
    | [] => none
  match scope.flags.find? fun flag => flag.word == name with
  | some flag => r.takeFlag scope flag attached
  | none => .error (unexpected ("--" ++ name))

/-- The value attached to a short flag: the rest of its argument, without an equals sign. -/
def attachedValue? : List Char → Option String
  | [] => none
  | '=' :: cs => some (String.ofList cs)
  | cs => some (String.ofList cs)

/-- Take a run of short flags; the first one with a value takes the rest of the run for it. -/
def takeShort (scope : Scope) : Reading → List Char → Except Stop Reading
  | r, [] => .ok r
  | r, c :: cs =>
    match scope.flags.find? fun flag => flag.letter? == some c with
    | none => .error (unexpected (String.ofList ['-', c]))
    | some flag =>
      if flag.takesValue then r.takeFlag scope flag (attachedValue? cs)
      else (r.takeFlag scope flag none).bind fun r => takeShort scope r cs

def take (r : Reading) (scope : Scope) (argument : String) : Except Stop Reading :=
  if r.isLiteral then r.takeFile scope argument
  else match argument.toList with
    | ['-', '-'] => .ok { r with isLiteral := true }
    | '-' :: '-' :: cs => r.takeLong scope cs
    | '-' :: c :: cs => takeShort scope r (c :: cs)
    | _ =>
      match r.pending with
      | some flag => r.record flag argument
      | none => r.takeFile scope argument

/-- Take all arguments of a command. -/
def takeAll (scope : Scope) : Reading → List String → Except Stop Reading
  | r, [] => r.settled
  | r, argument :: rest => (r.take scope argument).bind fun r => takeAll scope r rest

end Reading

/-- A command with its arguments. -/
inductive Command where
  /-- Convert a file, or the one that the settings name. -/
  | convert (file output : Option Path) (defines includes : List String) (toStdout : Bool)
  | check (files : List Path)
  /-- Print the syntax tree of a file. -/
  | dump (file : Path)

/-- **What the command line asks for.** -/
structure Invocation where
  verbosity : Nat := 0
  config : Option Path := none
  command : Command

namespace Invocation

/-- The help that is asked for by name. -/
def helpOn : List String → Stop
  | [] => .help .program
  | name :: rest =>
    match Scope.command? name, rest with
    | some scope, [] => .help scope
    | _, _ => Reading.unexpected name

/-- The arguments before the command, the command, and those after it. -/
def splitCommand : Reading → List String → Except Stop (Reading × Scope × List String)
  | _, [] => .error (.misuse "a command is required")
  | r, argument :: rest =>
    if !r.isLiteral && r.pending.isNone then
      match Scope.command? argument with
      | some scope => .ok (r, scope, rest)
      | none =>
        if argument == "help" then .error (helpOn rest)
        else (r.take .program argument).bind fun r => splitCommand r rest
    else (r.take .program argument).bind fun r => splitCommand r rest

def commandOf (scope : Scope) (r : Reading) : Except Stop Command :=
  let files := r.files.map Path.mk
  match scope, files with
  | .convert, files =>
    .ok (.convert files.head? ((r.values .output).head?.map Path.mk)
      (r.values .define) (r.values .includeDir) (r.count .stdout != 0))
  | .check, _ :: _ => .ok (.check files)
  | .dump, file :: _ => .ok (.dump file)
  | _, _ => .error (.misuse "a file is required")

/-- **The invocation of a command line.**  A flag after the command goes before one ahead of it. -/
def read (arguments : List String) : Except Stop Invocation := do
  let (outer, scope, rest) ← splitCommand {} arguments
  let inner ← Reading.takeAll scope {} rest
  let command ← commandOf scope inner
  let config := (inner.values .config).head?.or (outer.values .config).head?
  let verbosity := if inner.count .verbose = 0 then outer.count .verbose else inner.count .verbose
  .ok { verbosity
        config := config.map Path.mk
        command }

end Invocation

end Ferric.CommandLine
