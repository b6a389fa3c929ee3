import Switchboard.Backend.Diff
import Switchboard.Backend.Basic
import Switchboard.Backend.Terminal
import Switchboard.Backend.Viewer
import Switchboard.Backend.Web

/-!
# Backends

What stands behind a pane. A backend only takes commands of its own kind; the life and the
description of a pane are not its business.
-/
namespace Switchboard

inductive Backend where
  | terminal (state : Terminal)
  | web (state : Web)
  | diff (state : Diff)
  | viewer (state : Viewer)
  | scripted (state : Scripted)

namespace Backend

def create (pane : PaneId) : PaneKind → Backend
  | .terminal => .terminal (.create pane)
  | .webView => .web (.create pane)
  | .diff => .diff (.create pane)
  | .codeViewer => .viewer (.create pane)

def kind : Backend → PaneKind
  | .terminal _ => .terminal
  | .web _ => .webView
  | .diff _ => .diff
  | .viewer _ => .codeViewer
  | .scripted s => s.kind

abbrev Reply := Reaction Backend Event

def reply (wrap : σ → Backend) (event : ε → Event) (r : Reaction σ ε) : Reply :=
  (wrap r.1, r.2.map (List.map event))

def start (b : Backend) (metadata : Metadata) : Reply :=
  match b with
  | .terminal t => reply .terminal .terminal (t.start metadata)
  | .web w => reply .web .web w.start
  | .diff d => reply .diff .diff d.start
  | .viewer v => reply .viewer .viewer v.start
  | .scripted s => reply .scripted id s.start

def apply (b : Backend) (command : Command) : Reply :=
  match b, command with
  | .terminal t, .terminal c => reply .terminal .terminal (t.apply c)
  | .web w, .web c => reply .web .web (w.apply c)
  | .diff d, .diff c => reply .diff .diff (d.apply c)
  | .viewer v, .viewer c => reply .viewer .viewer (v.apply c)
  | .scripted s, _ => reply .scripted id s.apply
  | b, command => (b, .error (.wrongDomain b.kind command))

/-- Whether the backend still runs; one that was never started counts as running. -/
def isAlive : Backend → Bool
  | .terminal t => t.isAlive
  | .scripted s => s.isAlive
  | _ => true

def shutdown : Backend → Backend × List ResourceId
  | .terminal t => let (t, ids) := t.shutdown; (.terminal t, ids)
  | .web w => let (w, ids) := w.shutdown; (.web w, ids)
  | .diff d => let (d, ids) := d.shutdown; (.diff d, ids)
  | .viewer v => let (v, ids) := v.shutdown; (.viewer v, ids)
  | .scripted s => let (s, ids) := s.shutdown; (.scripted s, ids)

end Backend

end Switchboard
