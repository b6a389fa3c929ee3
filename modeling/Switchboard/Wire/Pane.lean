import Switchboard.Pane.Stream
import Switchboard.Wire.Command
import Switchboard.Wire.Delivery
import Switchboard.Wire.Files
import Switchboard.Workspace.Operation

/-! # The written form of panes, their answers and their streams -/
namespace Switchboard

open Json (nat)

def CommandEnvelope.toJson (c : CommandEnvelope) : Json := c.toJson?.getD .null

def PaneKind.ofJson? : Json → Option PaneKind := constant? .inPlace PaneKind.name PaneKind.all

def CommandKind.ofJson? : Json → Option CommandKind :=
  constant? .inPlace CommandKind.name CommandKind.all

namespace Capabilities

def toJson (c : Capabilities) : Json := .ofList (fun k => .str k.name) c.kinds

def ofJson? (v : Json) : Option Capabilities := (v.list? CommandKind.ofJson?).map ofList

end Capabilities

def resources (ids : List ResourceId) : Json := .ofList (fun r => .str r.name) ids

def CommandAck.toJson (a : CommandAck) : Json :=
  .obj [("command_id", a.command.toJson), ("emitted_seqs", .ofList nat a.emitted)]

def PaneSnapshot.toJson (s : PaneSnapshot) : Json :=
  .obj ([("pane_id", s.pane.toJson), ("kind", .str s.kind.name),
      ("lifecycle", .str s.lifecycle.name)]
    ++ member "failure" Json.str s.failure
    ++ [("metadata", s.metadata.toJson), ("capabilities", s.capabilities.toJson),
      ("epoch", nat s.epoch), ("last_seq", nat s.lastSeq)])

def StreamItem.toJson : StreamItem → Json
  | .event e => e.stamp.pair
  | .resync epoch lastSeq =>
    .obj [("resync", .obj [("epoch", nat epoch), ("last_seq", nat lastSeq)])]

def Follower.Read.toJson (r : Follower.Read) : Json :=
  .obj [("items", .ofList StreamItem.toJson r.items), ("ended", .bool r.ended)]

def Follower.Read.eventsJson (r : Follower.Read) : Json :=
  let events := r.items.filterMap fun
    | .event e => some e.stamp.pair
    | .resync .. => none
  .obj [("events", .arr events), ("ended", .bool r.ended)]

namespace Scripted

/-- No answer is no events. -/
def answerOfJson? (v : Json) : Option Answer := do
  let f ← v.fields? 3
  match ← f.optional? 1 "invalid" Json.text?, ← f.optional? 2 "fatal" Json.text? with
  | some s, _ => some (.error (.invalid s))
  | _, some s => some (.error (.fatal s))
  | _, _ => do
    let es ← f.optional? 0 "ok" (Json.list? Event.ofJson?)
    some (.ok (es.getD []))

def ofJson? (kind : PaneKind) (v : Json) : Option Scripted := do
  let f ← v.fields? 4
  let onStart ← f.optional? 0 "start" answerOfJson?
  let onApply ← f.optional? 1 "apply" (Json.list? (fun a => Json.nullable? answerOfJson? a))
  let ids ← f.optional? 3 "shutdown" (Json.list? Json.text?)
  some {
    kind
    onStart := onStart.getD (.ok [])
    onApply := (onApply.getD []).map (·.getD (.ok []))
    diesAfter := ← f.optional? 2 "dies_after" Json.nat64?
    resources := (ids.getD []).map ResourceId.mk
    calls := 0
    released := false }

end Scripted

def PaneSpec.ofJson? (v : Json) : Option PaneSpec := do
  let f ← v.fields? 4
  some {
    pane := ← f.required? 0 "pane" PaneId.ofJson?
    kind := ← f.required? 1 "kind" PaneKind.ofJson?
    metadata := (← f.optional? 2 "metadata" Metadata.ofJson?).getD .empty
    capabilities := ← f.optional? 3 "capabilities" Capabilities.ofJson? }

end Switchboard
