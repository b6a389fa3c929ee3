import Switchboard.Backend
import Switchboard.Backend.Basic
import Switchboard.Backend.Diff
import Switchboard.Backend.Terminal
import Switchboard.Backend.Viewer
import Switchboard.Backend.Web
import Switchboard.Batcher
import Switchboard.Command
import Switchboard.CommandLine
import Switchboard.Config
import Switchboard.Config.Document
import Switchboard.Envelope
import Switchboard.Event
import Switchboard.Feed
import Switchboard.FsSource
import Switchboard.Identity
import Switchboard.Intake
import Switchboard.Json
import Switchboard.Json.Parser
import Switchboard.Lifecycle
import Switchboard.Main
import Switchboard.Metadata
import Switchboard.Notifier
import Switchboard.Observer
import Switchboard.Pane
import Switchboard.Pane.Stream
import Switchboard.Path
import Switchboard.Projection
import Switchboard.Proofs.Backend.Events
import Switchboard.Proofs.Backend.Terminal
import Switchboard.Proofs.Backend.Web
import Switchboard.Proofs.Batcher
import Switchboard.Proofs.Feed.Lag
import Switchboard.Proofs.Feed.Recovery
import Switchboard.Proofs.FsSource.Changes
import Switchboard.Proofs.FsSource.Deadlines
import Switchboard.Proofs.FsSource.IgnoreDirs
import Switchboard.Proofs.FsSource.Invariants
import Switchboard.Proofs.FsSource.Numbering
import Switchboard.Proofs.FsSource.Overflow
import Switchboard.Proofs.FsSource.Probes
import Switchboard.Proofs.FsSource.Reports
import Switchboard.Proofs.FsSource.Resync
import Switchboard.Proofs.FsSource.Schedule
import Switchboard.Proofs.FsSource.StatusDelta
import Switchboard.Proofs.FsSource.Unregister
import Switchboard.Proofs.Intake
import Switchboard.Proofs.Notifier.CatchUp
import Switchboard.Proofs.Notifier.HandedOut
import Switchboard.Proofs.Notifier.Interleaving
import Switchboard.Proofs.Notifier.Losses
import Switchboard.Proofs.Notifier.Repetition
import Switchboard.Proofs.Notifier.Stamps
import Switchboard.Proofs.Notifier.Steps
import Switchboard.Proofs.Observer
import Switchboard.Proofs.Pane.Commands
import Switchboard.Proofs.Pane.Emission
import Switchboard.Proofs.Pane.Lifecycle
import Switchboard.Proofs.Pane.Ready
import Switchboard.Proofs.Pane.Resources
import Switchboard.Proofs.Pane.Snapshot
import Switchboard.Proofs.Pane.Started
import Switchboard.Proofs.Pane.Stream
import Switchboard.Proofs.Pane.StreamEnd
import Switchboard.Proofs.Pane.Subscription
import Switchboard.Proofs.Pane.Transitions
import Switchboard.Proofs.Path.Absolute
import Switchboard.Proofs.Path.Components
import Switchboard.Proofs.Path.Set
import Switchboard.Proofs.Projection.BatchCursor
import Switchboard.Proofs.Projection.ChangesSince
import Switchboard.Proofs.Projection.Isolation
import Switchboard.Proofs.Projection.Noticed
import Switchboard.Proofs.Projection.Rebinding
import Switchboard.Proofs.Projection.Redelivery
import Switchboard.Proofs.Projection.Scope
import Switchboard.Proofs.Projection.Status
import Switchboard.Proofs.Projection.Views
import Switchboard.Proofs.Reducer.Batch
import Switchboard.Proofs.Reducer.CollapseKeys
import Switchboard.Proofs.Reducer.Pending
import Switchboard.Proofs.Reducer.Runs
import Switchboard.Proofs.Reducer.StreamOrder
import Switchboard.Proofs.Registry.Concurrent
import Switchboard.Proofs.Registry.Entries
import Switchboard.Proofs.Replay.History
import Switchboard.Proofs.Replay.Recovery
import Switchboard.Proofs.Replay.Window
import Switchboard.Proofs.Roots.Deepest
import Switchboard.Proofs.Roots.Nesting
import Switchboard.Proofs.Roots.Ownership
import Switchboard.Proofs.Status.Porcelain
import Switchboard.Proofs.Table
import Switchboard.Proofs.Tree.Canonical
import Switchboard.Proofs.Tree.NormalForm
import Switchboard.Proofs.Tree.Walk
import Switchboard.Proofs.Wire.Payloads
import Switchboard.Proofs.Wire.Records
import Switchboard.Proofs.Wire.RoundTrip
import Switchboard.Proofs.Wire.Variants
import Switchboard.Proofs.Workspace.Accounts
import Switchboard.Proofs.Workspace.Consistency
import Switchboard.Proofs.Workspace.Delivery
import Switchboard.Proofs.Workspace.Epochs
import Switchboard.Proofs.Workspace.FocusedRoot
import Switchboard.Proofs.Workspace.Steps
import Switchboard.Proofs.Workspace.Unchanged
import Switchboard.Reducer
import Switchboard.Registry
import Switchboard.Replay
import Switchboard.Ring
import Switchboard.Roots
import Switchboard.Status
import Switchboard.Status.Git
import Switchboard.Status.Porcelain
import Switchboard.Table
import Switchboard.Text.Basic
import Switchboard.Text.Casing
import Switchboard.Text.Printable
import Switchboard.Text.Utf8
import Switchboard.Toml.Moment
import Switchboard.Toml.Number
import Switchboard.Toml.Parser
import Switchboard.Toml.Printer
import Switchboard.Toml.Text
import Switchboard.Toml.Value
import Switchboard.Tree
import Switchboard.Visibility
import Switchboard.Wire.Basic
import Switchboard.Wire.Command
import Switchboard.Wire.Delivery
import Switchboard.Wire.Error
import Switchboard.Wire.Event
import Switchboard.Wire.Files
import Switchboard.Wire.Pane
import Switchboard.Workspace
import Switchboard.Workspace.Operation
