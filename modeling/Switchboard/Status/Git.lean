import Switchboard.Tree
import Switchboard.Status.Porcelain
import Switchboard.Text.Utf8

/-!
# Asking git

Two calls make a report: the first tells where the root lies in its repository, the second the
status below it.
-/
namespace Switchboard.Status

inductive SpawnError where
  | notFound
  | nulByte
  deriving DecidableEq

def SpawnError.message : SpawnError → String
  | .notFound => FileError.notFound.message
  | .nulByte => "nul byte found in provided data"

inductive StatusError where
  | spawn (root : Path) (cause : SpawnError)
  | failed (root : Path) (code : Int) (stderr : String)
  deriving DecidableEq

def StatusError.message : StatusError → String
  | .spawn root cause =>
    "failed to spawn status command for " ++ root.display ++ ": " ++ cause.message
  | .failed root code stderr =>
    "status command failed for " ++ root.display ++ " (exit code " ++ toString code ++ "): "
      ++ stderr

structure CommandOutput where
  stdout : RawText
  stderr : RawText
  exit : Option Int
  deriving DecidableEq

abbrev Git := List RawText → Option CommandOutput

namespace Git

def arguments (root : Path) (rest : List RawText) : List RawText :=
  "--no-optional-locks" :: "-C" :: root.text :: rest

def stemArguments (root : Path) : List RawText := arguments root ["rev-parse", "--show-prefix"]

def statusArguments (root : Path) : List RawText :=
  arguments root ["status", "--porcelain=v2", "--branch", "--untracked-files=all", "--", "."]

def spawn (git : Git) (args : List RawText) : Except SpawnError CommandOutput :=
  if args.any (·.contains 0) then .error .nulByte
  else (git args).elim (.error .notFound) .ok

def run (git : Git) (root : Path) (args : List RawText) : Except StatusError String :=
  match spawn git args with
  | .error cause => .error (.spawn root cause)
  | .ok output =>
    if output.exit = some 0 then .ok output.stdout.lossy
    else
      .error (.failed root (output.exit.getD (-1)) (Text.trim output.stderr.lossy))

def made (args : List RawText) : Except StatusError α → List (List RawText)
  | .error (.spawn ..) => []
  | _ => [args]

/-- The report, and the calls made for it. -/
def probe (git : Git) (root : Path) : Except StatusError StatusReport × List (List RawText) :=
  let stem := run git root (stemArguments root)
  let calls := made (stemArguments root) stem
  match stem with
  | .error e => (.error e, calls)
  | .ok stem =>
    let status := run git root (statusArguments root)
    (status.map (Porcelain.parse · (Text.trim stem)), calls ++ made (statusArguments root) status)

end Git

end Switchboard.Status
