import RpcBridge.Config.Basic

/-!
# Command/Line — what a command line asks for

A command line names a command, with flags before and behind it.  A flag has a long name behind two
dashes and may have a letter behind one; a flag that takes a value has it in the next word, or
behind an equals sign, or right behind its letter.  Two dashes alone end the flags.  No flag may
come twice, and no path may be empty.

Each command knows its own flags and how many words it takes (`Scope`); the flags `verbose`,
`config` and `help` are known everywhere.
-/

namespace RpcBridge.Command

/-- A flag. -/
inductive Flag where
  | verbose
  | config
  | help
  | version
  | output
  | url
  | prelude
  | check
deriving DecidableEq

namespace Flag

/-- The long name of a flag. -/
def name : Flag → String
  | .verbose => "verbose"
  | .config => "config"
  | .help => "help"
  | .version => "version"
  | .output => "output"
  | .url => "url"
  | .prelude => "prelude"
  | .check => "check"

/-- The letter of a flag. -/
def letter? : Flag → Option Char
  | .verbose => some 'v'
  | .help => some 'h'
  | .version => some 'V'
  | .output => some 'o'
  | .config | .url | .prelude | .check => none

/-- Whether a flag takes a value. -/
def takesValue : Flag → Bool
  | .config | .output | .url | .prelude => true
  | .verbose | .help | .version | .check => false

/-- Whether the value of a flag is a path. -/
def takesPath : Flag → Bool
  | .config | .output | .prelude => true
  | .verbose | .help | .version | .url | .check => false

end Flag

/-- Where words stand: before the command, or behind the name of one. -/
inductive Scope where
  | top
  | export
  | check
  | init
deriving DecidableEq

namespace Scope

/-- The flags that are known. -/
def flags : Scope → List Flag
  | .top => [.verbose, .config, .help, .version]
  | .export => [.verbose, .config, .help, .output, .url, .prelude, .check]
  | .check | .init => [.verbose, .config, .help]

/-- Whether a word that is no flag names a document of procedures. -/
def takesSchema : Scope → Bool
  | .export | .check => true
  | .top | .init => false

/-- The scope behind the name of a command. -/
def ofName? : String → Option Scope
  | "export" => some .export
  | "check" => some .check
  | "init" => some .init
  | _ => none

end Scope

/-- What makes a command line stop short. -/
inductive Stop where
  /-- The command line makes no sense. -/
  | refused
  | help
  | version
deriving DecidableEq

/-- What the words of one scope say. -/
structure Words where
  flags : List (Flag × String)
  schema? : Option String

namespace Words

/-- No words. -/
def none : Words := ⟨[], Option.none⟩

/-- The value of a flag. -/
def value? (w : Words) (f : Flag) : Option String := w.flags.lookup f

/-- One more flag and its value. -/
def addFlag (w : Words) (f : Flag) (value : String) : Except Stop Words :=
  if (w.value? f).isSome || (f.takesPath && value.isEmpty) then .error .refused
  else match f with
    | .help => .error .help
    | .version => .error .version
    | f => .ok { w with flags := w.flags ++ [(f, value)] }

/-- One more word that is no flag. -/
def addWord (scope : Scope) (w : Words) (word : String) : Except Stop Words :=
  if scope.takesSchema && w.schema?.isNone && !word.isEmpty then
    .ok { w with schema? := some word }
  else .error .refused

/-- How a word that stands for flags ends. -/
inductive Ending where
  | complete
  /-- With a flag whose value has to come next. -/
  | due (f : Flag)
  /-- With a flag and its value. -/
  | valued (f : Flag) (value : String)
  /-- With something that is no flag. -/
  | unknown

/-- The flag that a test selects among the known ones. -/
def known? (scope : Scope) (test : Flag → Bool) : Option Flag := scope.flags.find? test

/-- The flags behind a single dash: those without a value, and how the word ends. -/
def ofLetters (scope : Scope) : List Char → List Flag × Ending
  | [] => ([], .complete)
  | c :: rest =>
    match known? scope fun f => f.letter? == some c with
    | Option.none => ([], .unknown)
    | some f =>
      if f.takesValue then
        match rest with
        | [] => ([], .due f)
        | '=' :: value => ([], .valued f (String.ofList value))
        | value => ([], .valued f (String.ofList value))
      else
        let (others, ending) := ofLetters scope rest
        (f :: others, ending)

/-- The flag behind two dashes, if it takes no value, and how the word ends. -/
def ofLong (scope : Scope) (s : List Char) : List Flag × Ending :=
  let (name, rest) := s.span (· ≠ '=')
  match known? scope fun f => f.name == String.ofList name with
  | Option.none => ([], .unknown)
  | some f =>
    match f.takesValue, rest with
    | true, [] => ([], .due f)
    | true, _ :: value => ([], .valued f (String.ofList value))
    | false, [] => ([f], .complete)
    | false, _ :: _ => ([], .unknown)

/-- The flags a word stands for, if it looks like flags. -/
def flags? (scope : Scope) (word : String) : Option (List Flag × Ending) :=
  match word.toList with
  | '-' :: '-' :: rest => some (ofLong scope rest)
  | '-' :: c :: rest => some (ofLetters scope (c :: rest))
  | _ => Option.none

/-- Whether a word can be the value of a flag that stands before it. -/
def isValue (word : String) : Bool := word == "-" || !word.startsWith "-"

/-- What the words behind `help` come to: at most one, the name of a command. -/
def helpOn : List String → Stop
  | [] => .help
  | [name] => if name = "help" || (Scope.ofName? name).isSome then .help else .refused
  | _ => .refused

/-- Reads the words of a scope; `due?` is a flag whose value has to come next.  At the top the name
of a command ends the scope; the answer holds the words behind that name. -/
def read (scope : Scope) (w : Words) (due? : Option Flag) :
    List String → Except Stop (Words × Option (Scope × List String))
  | [] => if due?.isSome then .error .refused else .ok (w, Option.none)
  | word :: rest =>
    match due? with
    | some f =>
      if isValue word then do read scope (← w.addFlag f word) Option.none rest
      else .error .refused
    | Option.none =>
      if word = "--" then do
        return (← rest.foldlM (addWord scope) w, Option.none)
      else match flags? scope word with
        | some (plain, ending) => do
          let w ← plain.foldlM (fun w f => w.addFlag f "") w
          match ending with
          | .complete => read scope w Option.none rest
          | .due f => read scope w (some f) rest
          | .valued f value => do read scope (← w.addFlag f value) Option.none rest
          | .unknown => .error .refused
        | Option.none =>
          match scope, Scope.ofName? word with
          | .top, some command => .ok (w, some (command, rest))
          | .top, Option.none => .error (if word = "help" then helpOn rest else .refused)
          | _, _ => do read scope (← w.addWord scope word) Option.none rest

end Words

/-- What to do. -/
inductive Action where
  /-- Generate a client; `check` only asks whether the generated module is up to date. -/
  | export (given : Config) (check : Bool)
  /-- Tell what would be generated. -/
  | check (given : Config)
  /-- Make a configuration. -/
  | init

/-- What a command line asks for. -/
structure Invocation where
  /-- The configuration, if it is not to be searched for. -/
  config? : Option Path
  action : Action

namespace Invocation

/-- What the words of a command ask for. -/
def actionOf (scope : Scope) (w : Words) : Except Stop Action :=
  let given : Config :=
    ⟨w.schema?.map .mk, (w.value? .output).map .mk, w.value? .url, (w.value? .prelude).map .mk⟩
  match scope with
  | .export => .ok (.export given (w.value? .check).isSome)
  | .check => .ok (.check given)
  | .init => .ok .init
  | .top => .error .refused

/-- What a command line asks for.  A configuration named behind the command counts before one named
in front of it. -/
def ofWords (words : List String) : Except Stop Invocation := do
  match ← Words.read .top .none none words with
  | (_, none) => .error .refused
  | (top, some (scope, rest)) => do
    let (w, _) ← Words.read scope .none none rest
    let action ← actionOf scope w
    return ⟨((w.value? .config).or (top.value? .config)).map .mk, action⟩

end Invocation

end RpcBridge.Command
