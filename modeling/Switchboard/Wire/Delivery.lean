import Switchboard.Reducer
import Switchboard.Wire.Event

/-!
# The written form of what is delivered, and of gaps in it

In an answer `null` stands for what cannot be written.
-/
namespace Switchboard

open Json (nat)

def Path.toJson (p : Path) : Json := p.toJson?.getD .null

def Metadata.toJson (m : Metadata) : Json := m.toJson?.getD .null

def Changeset.toJson (cs : Changeset) : Json := cs.toJson?.getD .null

def Event.toJson (e : Event) : Json := e.toJson?.getD .null

def Envelope.toJson (e : Envelope) : Json := e.toJson?.getD .null

def nat? : Json → Option Nat
  | .int (.ofNat n) => some n
  | _ => none

namespace Stamp

def toJson (s : Stamp) : Json := .obj [("epoch", nat s.epoch), ("seq", nat s.seq)]

def ofJson? (v : Json) : Option Stamp := do
  let f ← v.fields? 2
  some ⟨← f.required? 0 "epoch" Json.nat64?, ← f.required? 1 "seq" Json.nat64?⟩

def pair (s : Stamp) : Json := .arr [nat s.epoch, nat s.seq]

end Stamp

namespace Focus

def toJson (f : Focus) : Json :=
  .obj [("app_active", .bool f.appActive), ("focused_pane", .ofOption PaneId.toJson f.focused),
    ("visible_panes", .ofList PaneId.toJson f.visible)]

def ofJson? (v : Json) : Option Focus := do
  let f ← v.fields? 3
  some {
    appActive := ← f.required? 0 "app_active" Json.bool?
    focused := ← f.optional? 1 "focused_pane" PaneId.ofJson?
    visible := orderedOf (← f.defaulted? 2 "visible_panes" (Json.list? PaneId.ofJson?) []) }

end Focus

def DeliveryGap.toJson (g : DeliveryGap) : Json :=
  .obj [("source", g.source.toJson), ("epoch", nat g.epoch), ("last_seq", nat g.lastSeq)]

def GapReason.name : GapReason → String
  | .evicted => "evicted"
  | .epochReset => "epoch_reset"

def ReplayResult.members : ReplayResult → List (String × Json)
  | .events es => [("events", .ofList (fun e => nat e.seq) es)]
  | .gap reason requested oldest epoch =>
    [("gap", .str reason.name), ("requested_seq", nat requested),
      ("oldest_retained", .ofOption nat oldest), ("epoch", nat epoch)]

def ReplayResult.toJson (r : ReplayResult) : Json := .obj (r.members ++ [("is_gap", .bool r.isGap)])

def Recovery.toJson (r : Recovery) : Json :=
  .obj [("events", .ofList (fun e => e.stamp.pair) r.events),
    ("lost", .ofOption DeliveryGap.toJson r.lost)]

def Notification.toJson (n : Notification) : Json :=
  .obj [("tier", .str n.tier.name), ("tier_number", nat n.tier.rank),
    ("source", .str n.envelope.source.text), ("epoch", nat n.envelope.epoch),
    ("seq", nat n.envelope.seq), ("event", n.envelope.event.toJson)]

def Batch.toJson (b : Batch) : Json :=
  .obj [("flushed_at_ms", nat b.flushedAt), ("coalesced", nat b.coalesced),
    ("len", nat b.notifications.length), ("is_empty", .bool b.isEmpty),
    ("gaps", .ofList DeliveryGap.toJson b.gaps),
    ("notifications", .ofList Notification.toJson b.notifications)]

def ReducerStats.toJson (s : ReducerStats) : Json :=
  .obj [("pushed", nat s.pushed), ("delivered", nat s.delivered), ("coalesced", nat s.coalesced),
    ("flushes", nat s.flushes), ("gaps", nat s.gaps)]

end Switchboard
