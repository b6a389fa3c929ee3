import Switchboard.Backend.Basic
import Switchboard.Text.Printable

/-!
# Web views

A web view holds the pages visited and where it stands among them. Going to a page drops the
pages after the current one.
-/
namespace Switchboard

structure Web where
  pane : PaneId
  history : List String
  cursor : Nat
  isOpen : Bool
  deriving DecidableEq

namespace Web

def create (pane : PaneId) : Web := ⟨pane, [], 0, false⟩

def schemeMark : List Char := [':', '/', '/']

def splitScheme : List Char → Option (List Char × List Char)
  | [] => none
  | c :: rest =>
    if schemeMark.isPrefixOf (c :: rest) then some ([], (c :: rest).drop schemeMark.length)
    else (splitScheme rest).map fun (scheme, tail) => (c :: scheme, tail)

/-- A scheme and something behind it, or a page of the browser itself. -/
def isAbsoluteUrl (url : String) : Bool :=
  (match splitScheme url.toList with
    | some (scheme, rest) => !scheme.isEmpty && !rest.isEmpty
    | none => false) || "about:".toList.isPrefixOf url.toList

/-- The host of a page, or all of its address if it has no host. -/
def titleOf (url : String) : String :=
  match splitScheme url.toList with
  | some (_, rest) => String.ofList (rest.takeWhile (· ≠ '/'))
  | none => url

def current? (w : Web) : Option String := w.history[w.cursor]?

def canGoBack (w : Web) : Bool := !w.history.isEmpty && 0 < w.cursor

def canGoForward (w : Web) : Bool := w.cursor + 1 < w.history.length

def load (url : String) : List WebEvent :=
  [.navigationStarted url, .loadProgress 100, .navigationCompleted url, .titleChanged (titleOf url)]

def historyChanged (w : Web) : WebEvent := .historyChanged w.canGoBack w.canGoForward

def moved (w : Web) : Reaction Web WebEvent :=
  (w, .ok (load (w.current?.getD "") ++ [w.historyChanged]))

def start (w : Web) : Reaction Web WebEvent := ({ w with isOpen := true }, .ok [])

def apply (w : Web) : WebCommand → Reaction Web WebEvent
  | .navigate url =>
    if isAbsoluteUrl url then
      let kept := if w.history.isEmpty then [] else w.history.take (w.cursor + 1)
      { w with history := kept ++ [url], cursor := kept.length }.moved
    else (w, .error (.invalid ("not an absolute url: " ++ Text.quoted url)))
  | .reload =>
    match w.current? with
    | some url => (w, .ok (load url))
    | none => (w, .error (.invalid "nothing to reload"))
  | .goBack =>
    if w.canGoBack then { w with cursor := w.cursor - 1 }.moved
    else (w, .error (.invalid "no back history"))
  | .goForward =>
    if w.canGoForward then { w with cursor := w.cursor + 1 }.moved
    else (w, .error (.invalid "no forward history"))

def shutdown (w : Web) : Web × List ResourceId :=
  ({ w with isOpen := false }, if w.isOpen then [⟨"webview:" ++ w.pane.name⟩] else [])

end Web

end Switchboard
