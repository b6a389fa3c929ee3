import Switchboard.Identity
import Switchboard.Path
import Switchboard.Text.Printable

/-!
# The command line

One option before or after the command names the configuration file; the environment may name it
as well, and counts least. A value is looked at only when the next option comes or the words of
its level are over, so an unknown word behind a bad value is reported first.
-/
namespace Switchboard

namespace CommandLine

inductive UsageError where
  | help
  | helpForNothing
  | missingCommand
  | invalidCommand
  | unknownArgument
  | invalidValue
  | repeatedOption
  | tooManyValues
  | badRoot (raw : String)
  deriving DecidableEq

def UsageError.message? : UsageError → Option String
  | .badRoot raw => some ("expected <worktree>=<path>, got " ++ Text.quoted raw)
  | _ => none

inductive Command where
  | run (roots : List (WorktreeId × Path)) (focus : Option String)
  | config
  deriving DecidableEq

structure Invocation where
  config : Option Path
  command : Command
  deriving DecidableEq

inductive Level where
  | top
  | run
  | config
  deriving DecidableEq

inductive OptionName where
  | config
  | root
  | focus
  | help
  deriving DecidableEq

def Level.long? (level : Level) (name : String) : Option OptionName :=
  match name with
  | "config" => some .config
  | "help" => some .help
  | "root" => if level = .run then some .root else none
  | "focus" => if level = .run then some .focus else none
  | _ => none

def short? (c : Char) : Option OptionName :=
  if c = 'c' then some .config else if c = 'h' then some .help else none

structure Taken where
  config : Option String
  focus : Option String
  roots : List (WorktreeId × Path)
  pending : Option (OptionName × Option String)
  trailing : Bool
  deriving DecidableEq

namespace Taken

def nothing : Taken := ⟨none, none, [], none, false⟩

def isWaiting (t : Taken) : Bool :=
  match t.pending with
  | some (_, none) => true
  | _ => false

end Taken

def root? (raw : String) : Option (WorktreeId × Path) :=
  match raw.toList.span (· ≠ '=') with
  | (id, _ :: path) =>
    if id.isEmpty || path.isEmpty then none
    else some (⟨String.ofList id⟩, ⟨String.ofList path⟩)
  | _ => none

def use (t : Taken) (o : OptionName) (value : Option String) : Except UsageError Taken :=
  match value, o with
  | none, _ => .error .invalidValue
  | some _, .help => .error .help
  | some v, .config =>
    if t.config.isSome then .error .repeatedOption
    else if v.isEmpty then .error .invalidValue
    else .ok { t with config := some v }
  | some v, .focus =>
    if t.focus.isSome then .error .repeatedOption else .ok { t with focus := some v }
  | some v, .root =>
    match root? v with
    | some r => .ok { t with roots := t.roots ++ [r] }
    | none => .error (.badRoot v)

def settle (t : Taken) : Except UsageError Taken :=
  match t.pending with
  | none => .ok t
  | some (o, value) => use { t with pending := none } o value

def takeOption (t : Taken) (o : OptionName) (attached : Option String) :
    Except UsageError Taken := do
  let t ← settle t
  match o, attached with
  | .help, _ => .error .help
  | o, some v => use t o (some v)
  | o, none => .ok { t with pending := some (o, none) }

inductive Word where
  | long (name : String) (value : Option String)
  | short (name : Char) (rest : List Char)
  | plain
  deriving DecidableEq

/-- How a word looks; a single dash is a plain word. -/
def Word.of (word : String) : Word :=
  match word.toList with
  | '-' :: '-' :: rest =>
    match rest.span (· ≠ '=') with
    | (name, _ :: value) => .long (String.ofList name) (some (String.ofList value))
    | (name, []) => .long (String.ofList name) none
  | '-' :: c :: rest => .short c rest
  | _ => .plain

def attachedValue : List Char → Option String
  | [] => none
  | '=' :: value => some (String.ofList value)
  | value => some (String.ofList value)

def takeWord (level : Level) (t : Taken) (word : String) : Word → Except UsageError Taken
  | .long name value =>
    match level.long? name, value with
    | none, _ => .error .unknownArgument
    | some .help, some _ => .error .tooManyValues
    | some o, value => takeOption t o value
  | .short c rest =>
    match short? c with
    | none => .error .unknownArgument
    | some o => takeOption t o (attachedValue rest)
  | .plain =>
    match t.pending with
    | some (o, none) => .ok { t with pending := some (o, some word) }
    | _ => .error (if level = .top then .invalidCommand else .unknownArgument)

def isCommandName (word : String) : Bool := word = "run" || word = "config" || word = "help"

def helpAbout : List String → UsageError
  | [] => .help
  | [command] => if isCommandName command then .help else .invalidCommand
  | _ => .invalidCommand

def strayWord (level : Level) (word : String) : UsageError :=
  if level = .top && !isCommandName word then .invalidCommand else .unknownArgument

def scan (level : Level) (t : Taken) : List String →
    Except UsageError (Taken × Option (Level × List String))
  | [] => .ok (t, none)
  | word :: rest =>
    if t.trailing then .error (strayWord level word)
    else if level = .top && !t.isWaiting && isCommandName word then
      if word = "help" then .error (helpAbout rest)
      else .ok (t, some (if word = "run" then .run else .config, rest))
    else if word = "--" then scan level { t with trailing := true } rest
    else do scan level (← takeWord level t word (Word.of word)) rest

def finish (env : Option String) (t : Taken) : Except UsageError (Taken × Option String) := do
  let t ← settle t
  match t.config, env with
  | some _, _ => .ok (t, t.config)
  | none, some e => if e.isEmpty then .error .invalidValue else .ok (t, some e)
  | none, none => .ok (t, none)

/-- The option behind the command counts most, then the one before it. -/
def parse (env : Option String) (words : List String) : Except UsageError Invocation := do
  match ← scan .top .nothing words with
  | (top, none) =>
    let (_, file) ← finish env top
    .error (if file.isSome then .missingCommand else .helpForNothing)
  | (top, some (level, rest)) =>
    let (sub, _) ← scan level .nothing rest
    let (sub, _) ← finish env sub
    let (top, file) ← finish env top
    .ok {
      config := ((sub.config.or top.config).or file).map Path.mk
      command := if level = .run then .run sub.roots sub.focus else .config }

end CommandLine

end Switchboard
