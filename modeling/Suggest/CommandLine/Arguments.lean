/-
# Arguments

    [OPTIONS] build [--force] | clear | stats | export --output <PATH>

| option | value | default |
| --- | --- | --- |
| `--catalog` | path | `./catalog` |
| `--cache` | path | `./cache` |
| `--cache-key` | text | `trie_search_index` |
| `--cache-ttl` | seconds | 3600 |

These options may stand before the command or behind it, where they count more. Each may be given once in either place. A
value follows as the next argument or after an equals sign; the short form `-o` of `--output` may also have it attached. A
path is not empty, and a value that is an argument of its own does not start with a hyphen, unless it is nothing else.
-/

import Suggest.Json.Reader
import Suggest.Text.Natural

namespace Suggest

namespace CommandLine

/-- What an option is for. -/
inductive Flag where
  | catalog
  | cache
  | cacheKey
  | cacheTtl
  | force
  | output
  deriving DecidableEq, Repr

/-- Whether an option has a value. -/
def Flag.hasValue : Flag → Bool
  | .force => false
  | _ => true

/-- Whether an option may have the value. -/
def Flag.admits (flag : Flag) (value : String) : Bool :=
  match flag with
  | .catalog | .cache | .output => !value.isEmpty
  | .cacheTtl => (Text.natural? Json.Reader.maxWord value).isSome
  | .cacheKey | .force => true

/-- The options that may stand everywhere, by name. -/
def sharedFlags : List (String × Flag) :=
  [("catalog", .catalog), ("cache", .cache), ("cache-key", .cacheKey), ("cache-ttl", .cacheTtl)]

/-- A command, before its options are known. -/
inductive Verb where
  | build
  | clear
  | stats
  | exportTo
  deriving DecidableEq, Repr

/-- The commands by name. -/
def verbs : List (String × Verb) := [("build", .build), ("clear", .clear), ("stats", .stats), ("export", .exportTo)]

/-- The long options of a command, by name. -/
def Verb.flags : Verb → List (String × Flag)
  | .build => ("force", .force) :: sharedFlags
  | .clear | .stats => sharedFlags
  | .exportTo => ("output", .output) :: sharedFlags

/-- The short options of a command. -/
def Verb.shortFlags : Verb → List (Char × Flag)
  | .exportTo => [('o', .output)]
  | _ => []

/-- Why there are no arguments to go by: they are misused, or help is asked for. -/
inductive Stop where
  | misuse
  | help
  deriving DecidableEq, Repr

/-- Options with their values; a value of an option without one is empty. -/
abbrev Given := List (Flag × String)

/-- Add an option, once. -/
def Given.add (given : Given) (flag : Flag) (value : String) : Except Stop Given :=
  if (given.lookup flag).isSome || !flag.admits value then .error .misuse else .ok (given ++ [(flag, value)])

/-- Whether an argument can be the value of the option before it. -/
def isValue (argument : String) : Bool := argument = "-" || !argument.startsWith "-"

/-- What an argument may be. -/
inductive Argument where
  /-- Two hyphens: no options come after it. -/
  | separator
  /-- A long option, with what stands behind its equals sign. -/
  | long (name : List Char) (attached : Option String)
  /-- A short option, with what stands behind its letter. -/
  | short (letter : Char) (attached : List Char)
  | plain (text : String)

/-- Tell what an argument may be. -/
def Argument.ofText (text : String) : Argument :=
  match text.toList with
  | ['-', '-'] => .separator
  | '-' :: '-' :: rest =>
    .long (rest.takeWhile (· ≠ '='))
      (match rest.dropWhile (· ≠ '=') with
        | _ :: value => some (String.ofList value)
        | [] => none)
  | '-' :: letter :: attached => .short letter attached
  | _ => .plain text

/-- Take the value of an option from the arguments behind it. -/
def takeValue (given : Given) (flag : Flag) : List String → Except Stop (Given × List String)
  | value :: rest => if isValue value then (given.add flag value).map (·, rest) else .error .misuse
  | [] => .error .misuse

/-- Take an option with what is attached to it, if anything is, and what may be the value of it behind it. -/
def takeOption (given : Given) (flag : Flag) (attached : Option String) (rest : List String) :
    Except Stop (Given × List String) :=
  match flag.hasValue, attached with
  | true, some value => (given.add flag value).map (·, rest)
  | true, none => takeValue given flag rest
  | false, none => (given.add flag "").map (·, rest)
  | false, some _ => .error .misuse

/-- What is attached to the letter of a short option. -/
def attachedValue : List Char → Option String
  | [] => none
  | '=' :: value => some (String.ofList value)
  | value => some (String.ofList value)

/-- Take options until an argument that is none. -/
def takeOptions (long : List (String × Flag)) (short : List (Char × Flag)) :
    Nat → Given → List String → Except Stop (Given × List String)
  | 0, given, rest => .ok (given, rest)
  | _, given, [] => .ok (given, [])
  | fuel + 1, given, argument :: rest =>
    match Argument.ofText argument with
    | .separator | .plain _ => .ok (given, argument :: rest)
    | .long name attached =>
      match long.lookup (String.ofList name) with
      | some flag => do
        let (given, rest) ← takeOption given flag attached rest
        takeOptions long short fuel given rest
      | none => .error (if name = "help".toList && attached.isNone then .help else .misuse)
    | .short letter attached =>
      match short.lookup letter with
      | some flag => do
        let (given, rest) ← takeOption given flag (attachedValue attached) rest
        takeOptions long short fuel given rest
      | none => .error (if letter = 'h' then .help else .misuse)

/-- What the program is to do. -/
inductive Command where
  | build (force : Bool)
  | clear
  | stats
  | exportTo (path : String)
  deriving DecidableEq, Repr

/-- The command and the shared options. -/
structure Arguments where
  command : Command
  catalog : String := "./catalog"
  cache : String := "./cache"
  cacheKey : String := "trie_search_index"
  cacheTtl : Nat := 3600
  deriving DecidableEq, Repr

/-- The command of a verb with its options. -/
def Verb.command (verb : Verb) (given : Given) : Except Stop Command :=
  match verb with
  | .build => .ok (.build (given.lookup .force).isSome)
  | .clear => .ok .clear
  | .stats => .ok .stats
  | .exportTo => match given.lookup .output with
    | some path => .ok (.exportTo path)
    | none => .error .misuse

/-- Put a command together with options, of which the first one counts. -/
def assemble (command : Command) (given : Given) : Arguments :=
  let defaults : Arguments := { command }
  { command
    catalog := (given.lookup .catalog).getD defaults.catalog
    cache := (given.lookup .cache).getD defaults.cache
    cacheKey := (given.lookup .cacheKey).getD defaults.cacheKey
    cacheTtl := ((given.lookup .cacheTtl).bind (Text.natural? Json.Reader.maxWord)).getD defaults.cacheTtl }

/-- Whether nothing but a separator is left. -/
def isDone (rest : List String) : Bool := rest = [] || rest = ["--"]

/-- What the arguments behind the command `help` come to. -/
def help (rest : List String) : Stop :=
  match rest with
  | [] => .help
  | [topic] => if topic = "help" || (verbs.lookup topic).isSome then .help else .misuse
  | _ => .misuse

/-- Make sense of the arguments. -/
def Arguments.parse (arguments : List String) : Except Stop Arguments := do
  let (before, rest) ← takeOptions sharedFlags [] arguments.length [] arguments
  match rest with
  | [] => .error .misuse
  | name :: rest =>
    if name = "help" then .error (help rest)
    else match verbs.lookup name with
      | none => .error .misuse
      | some verb =>
        let (behind, rest) ← takeOptions verb.flags verb.shortFlags rest.length [] rest
        if !isDone rest then .error .misuse
        return assemble (← verb.command behind) (behind ++ before)

end CommandLine

end Suggest
