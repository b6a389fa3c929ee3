import Switchboard.Status.Git
import Switchboard.Wire.Files
import Switchboard.Wire.Pane
import Switchboard.Workspace

/-!
# The written form of errors

An error is written with its name and its message. Of errors in files only the name is written.
-/
namespace Switchboard

def namedError (name message : String) : Json :=
  .obj [("error", .str name), ("message", .str message)]

def bareError (name : String) : Json := .obj [("error", .str name)]

def orError (encode : α → Json) (failed : ε → Json) : Except ε α → Json
  | .ok a => encode a
  | .error e => failed e

def IllegalTransition.toJson (e : IllegalTransition) : Json :=
  namedError "IllegalTransition" e.message

def ReplayError.toJson (e : ReplayError) : Json :=
  let name := match e with
    | .nonMonotonic .. => "NonMonotonic"
    | .sourceMismatch .. => "SourceMismatch"
    | .staleEpoch .. => "StaleEpoch"
  namedError name e.message

def RootError.toJson (e : RootError) : Json :=
  let name := match e with
    | .canonicalize .. => "Canonicalize"
    | .notADirectory .. => "NotADirectory"
    | .duplicateWorktree .. => "DuplicateWorktree"
    | .duplicatePath .. => "DuplicatePath"
    | .notRegistered .. => "NotRegistered"
  namedError name e.message

def Status.StatusError.toJson (e : StatusError) : Json :=
  let name := match e with
    | .spawn .. => "Spawn"
    | .failed .. => "Failed"
  namedError name e.message

def BackendError.toJson : BackendError → Json
  | .invalid reason => namedError "Invalid" reason
  | .fatal reason => namedError "Fatal" reason

namespace CommandError

def name : CommandError → String
  | .capabilityDenied .. => "CapabilityDenied"
  | .lifecycleClosed .. => "LifecycleClosed"
  | .unknownPane .. => "UnknownPane"
  | .validation .. => "Validation"
  | .backend .. => "Backend"

def toJson (e : CommandError) : Json := namedError e.name e.message

end CommandError

def CommandAck.orErrorJson : Except CommandError CommandAck → Json
  | .ok a => a.toJson
  | .error e =>
    .obj [("error", .str e.name), ("message", .str e.message),
      ("is_rejection", .bool e.isRejection), ("is_fatal", .bool e.isFatal)]

def RegistryError.toJson (e : RegistryError) : Json :=
  let name := match e with
    | .alreadyRegistered _ => "AlreadyRegistered"
    | .notRegistered _ => "NotRegistered"
  namedError name e.message

def WorkspaceError.toJson : WorkspaceError → Json
  | .registry e => e.toJson
  | .command e => e.toJson
  | .root e => e.toJson

def ConfigFault.toJson (f : ConfigFault) : Json := namedError "Invalid" f.message

def ConfigError.toJson : ConfigError → Json
  | .read _ => bareError "Read"
  | .parse => bareError "Parse"
  | .invalid fault => fault.toJson
  | .unwritable => bareError "Invalid"

end Switchboard
