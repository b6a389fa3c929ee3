import Switchboard.Proofs.Wire.Payloads
import Switchboard.Wire.Event

/-!
# Written envelopes come back

What was written is read as it was, in whatever order the members of its objects come. So nothing
else is written the same way; and what is read from anything at all is read again from its own
written form.
-/
namespace Switchboard

open Json (Fields)

namespace CommandEnvelope

def Fits (c : CommandEnvelope) : Prop := c.timestamp < UInt64.size

def paths (c : CommandEnvelope) : List Path := c.command.paths

theorem isSome_toJson? {c : CommandEnvelope} :
    c.toJson?.isSome = true ↔ ∀ p ∈ c.paths, p.isText = true := by
  rw [toJson?, Option.bind_eq_bind, isSome_bind_some]
  exact c.command.isSome_toJson?

theorem reads {c : CommandEnvelope} {v : Json} (hv : c.toJson? = some v) (hc : c.Fits) :
    v.Reads ofJson? c := by
  obtain ⟨command, hcommand, ⟨⟩⟩ := Option.bind_eq_some_iff.mp hv
  intro w hw
  obtain ⟨f, hf, h⟩ := Json.fields?_of_reordered (by cases c.correlation <;> simp [member]) hw 5
  have h0 : f.required? 0 "command_id" CommandId.ofJson? = some c.id :=
    h.required? (by simp) (reads_commandId _) 0
  have h1 : f.defaulted? 1 "correlation_id" (Json.nullable? CorrelationId.ofJson?) none =
      some c.correlation :=
    defaulted?_member h c.correlation (fun id ho => by simp [ho, member])
      (fun ho => by simp [ho, member]) reads_correlationId rfl 1
  have h2 : f.required? 2 "target_pane_id" PaneId.ofJson? = some c.target :=
    h.required? (by simp) (reads_paneId _) 2
  have h3 : f.required? 3 "command" Command.ofJson? = some c.command :=
    h.required? (by simp) (Command.reads hcommand) 3
  have h4 : f.required? 4 "timestamp_ms" Json.nat64? = some c.timestamp :=
    h.required? (by simp) (.below hc) 4
  simp only [ofJson?, hf, h0, h1, h2, h3, h4, Option.bind_eq_bind, Option.bind_some]

theorem of_ofJson? {w : Json} {c : CommandEnvelope} (h : ofJson? w = some c) :
    c.Fits ∧ ∀ p ∈ c.paths, p.isText = true := by
  simp only [ofJson?, Option.bind_eq_bind, Option.bind_eq_some_iff] at h
  obtain ⟨f, -, id, -, correlation, -, target, -, command, h3, timestamp, h4, ⟨⟩⟩ := h
  exact ⟨Fields.lt_of_required? h4,
    (Fields.of_required? h3).elim fun _ => Command.isText_of_ofJson?⟩

end CommandEnvelope

namespace Envelope

structure Fits (e : Envelope) : Prop where
  seq : e.seq < UInt64.size
  epoch : e.epoch < UInt64.size
  timestamp : e.timestamp < UInt64.size
  event : e.event.Fits

def paths (e : Envelope) : List Path := e.event.paths

theorem isSome_toJson? {e : Envelope} :
    e.toJson?.isSome = true ↔ ∀ p ∈ e.paths, p.isText = true := by
  rw [toJson?, Option.bind_eq_bind, isSome_bind_some]
  exact e.event.isSome_toJson?

theorem reads_facets (worktree : Option WorktreeId) :
    (facets worktree).Reads facets? worktree := by
  intro w hw
  obtain ⟨f, hf, h⟩ := Json.fields?_of_reordered (by cases worktree <;> simp [member]) hw 1
  have h0 : f.defaulted? 0 "worktree_id" (Json.nullable? WorktreeId.ofJson?) none =
      some worktree :=
    defaulted?_member h worktree (fun id ho => by simp [ho, member])
      (fun ho => by simp [ho, member]) reads_worktreeId rfl 0
  simp only [facets?, hf, h0, Option.bind_eq_bind, Option.bind_some]

theorem reads {e : Envelope} {v : Json} (hv : e.toJson? = some v) (he : e.Fits) :
    v.Reads ofJson? e := by
  obtain ⟨event, hevent, ⟨⟩⟩ := Option.bind_eq_some_iff.mp hv
  intro w hw
  obtain ⟨f, hf, h⟩ := Json.fields?_of_reordered
    (by cases e.command <;> cases e.correlation <;> simp [member]) hw 8
  have h0 : f.required? 0 "source" Source.ofJson? = some e.source :=
    h.required? (by simp) e.source.reads 0
  have h1 : f.defaulted? 1 "source_facets" facets? none = some e.worktree :=
    h.defaulted? (by simp) (reads_facets _) 1 none
  have h2 : f.required? 2 "seq" Json.nat64? = some e.seq := h.required? (by simp) (.below he.seq) 2
  have h3 : f.required? 3 "epoch" Json.nat64? = some e.epoch :=
    h.required? (by simp) (.below he.epoch) 3
  have h4 : f.defaulted? 4 "command_id" (Json.nullable? CommandId.ofJson?) none =
      some e.command :=
    defaulted?_member h e.command (fun id ho => by simp [ho, member])
      (fun ho => by cases e.correlation <;> simp [ho, member]) reads_commandId rfl 4
  have h5 : f.defaulted? 5 "correlation_id" (Json.nullable? CorrelationId.ofJson?) none =
      some e.correlation :=
    defaulted?_member h e.correlation (fun id ho => by simp [ho, member])
      (fun ho => by cases e.command <;> simp [ho, member]) reads_correlationId rfl 5
  have h6 : f.required? 6 "timestamp_ms" Json.nat64? = some e.timestamp :=
    h.required? (by simp) (.below he.timestamp) 6
  have h7 : f.required? 7 "event" Event.ofJson? = some e.event :=
    h.required? (by simp) (Event.reads hevent he.event) 7
  simp only [ofJson?, hf, h0, h1, h2, h3, h4, h5, h6, h7, Option.bind_eq_bind, Option.bind_some,
    seq, epoch]

theorem of_ofJson? {w : Json} {e : Envelope} (h : ofJson? w = some e) :
    e.Fits ∧ ∀ p ∈ e.paths, p.isText = true := by
  simp only [ofJson?, Option.bind_eq_bind, Option.bind_eq_some_iff] at h
  obtain ⟨f, -, source, -, worktree, -, seq, h2, epoch, h3, command, -, correlation, -,
    timestamp, h6, event, h7, ⟨⟩⟩ := h
  obtain ⟨v, hv⟩ := Fields.of_required? h7
  obtain ⟨hevent, htext⟩ := Event.of_ofJson? hv
  exact ⟨⟨Fields.lt_of_required? h2, Fields.lt_of_required? h3, Fields.lt_of_required? h6, hevent⟩,
    htext⟩

end Envelope

structure RoundTrips {α : Type} (Fits : α → Prop) (paths : α → List Path)
    (encode : α → Option Json) (decode : Json → Option α) : Prop where
  /-- What is written has no path that is not UTF-8, and all such values are written. -/
  written : ∀ a, (encode a).isSome = true ↔ ∀ p ∈ paths a, p.isText = true
  back : ∀ a v, Fits a → encode a = some v → decode v = some a
  reordered : ∀ a v, Fits a → encode a = some v → ∀ w, v.Reordered w → decode w = some a
  injective : ∀ a b v, Fits a → Fits b → encode a = some v → encode b = some v → a = b
  /-- What is read is written in a form of its own, which is read the same. -/
  again : ∀ v a, decode v = some a → Fits a ∧ ∃ w, encode a = some w ∧ decode w = some a

theorem RoundTrips.of_reads {α : Type} {Fits : α → Prop} {paths : α → List Path}
    {encode : α → Option Json} {decode : Json → Option α}
    (hwritten : ∀ a, (encode a).isSome = true ↔ ∀ p ∈ paths a, p.isText = true)
    (hreads : ∀ a v, encode a = some v → Fits a → v.Reads decode a)
    (hof : ∀ v a, decode v = some a → Fits a ∧ ∀ p ∈ paths a, p.isText = true) :
    RoundTrips Fits paths encode decode := by
  have hback : ∀ a v, Fits a → encode a = some v → decode v = some a :=
    fun a v ha hv => hreads a v hv ha _ (Json.Reordered.refl _)
  refine ⟨hwritten, hback, fun a v ha hv => hreads a v hv ha, fun a b v ha hb hav hbv => ?_,
    fun v a hv => ?_⟩
  · exact Option.some.inj ((hback a v ha hav).symm.trans (hback b v hb hbv))
  · obtain ⟨hfits, htext⟩ := hof v a hv
    obtain ⟨w, hw⟩ := Option.isSome_iff_exists.mp ((hwritten a).mpr htext)
    exact ⟨hfits, w, hw, hback a w hfits hw⟩

/-- Envelopes and commands whose paths are UTF-8 can be written, and survive being written and
read. -/
theorem written_form_round_trips :
    RoundTrips Envelope.Fits Envelope.paths Envelope.toJson? Envelope.ofJson? ∧
      RoundTrips CommandEnvelope.Fits CommandEnvelope.paths CommandEnvelope.toJson?
        CommandEnvelope.ofJson? :=
  ⟨.of_reads (fun _ => Envelope.isSome_toJson?) (fun _ _ => Envelope.reads)
      fun _ _ => Envelope.of_ofJson?,
    .of_reads (fun _ => CommandEnvelope.isSome_toJson?) (fun _ _ => CommandEnvelope.reads)
      fun _ _ => CommandEnvelope.of_ofJson?⟩

theorem written_form_round_trips_held :
    Envelope.ofJson? (.obj
        [("source", .obj [("id", .str "filesystem_watcher"), ("kind", .str "system")]),
          ("source_facets", .obj [("worktree_id", .str "main")]),
          ("seq", .int 18446744073709551615), ("epoch", .int 1), ("timestamp_ms", .int 40),
          ("event", .obj
            [("event", .obj [("type", .str "files_changed"), ("worktree_id", .str "main"),
                ("paths", .arr [.str "src/a b.txt"]), ("timestamp_ms", .int 40),
                ("batch_seq", .int 1), ("part", .int 1), ("parts", .int 1)]),
              ("domain", .str "filesystem")])]) =
      some {
        source := .filesystem
        worktree := some ⟨"main"⟩
        stamp := ⟨1, 18446744073709551615⟩
        command := none
        correlation := none
        timestamp := 40
        event := .filesystem (.filesChanged ⟨⟨"main"⟩, [⟨"src/a b.txt"⟩], 40, 1, 1, 1⟩) } := by
  refine written_form_round_trips.1.reordered _ _ ?_ rfl _ ?_
  · exact ⟨by decide, by decide, by decide, by decide, by decide, by decide, by decide⟩
  refine .obj (.cons _ (.obj (.refl _) (.swap _ _ [])) ?_) (.refl _)
  refine .cons _ (.refl _) (.cons _ (.refl _) (.cons _ (.refl _) (.cons _ (.refl _) ?_)))
  exact .cons _ (.obj (.refl _) (.swap _ _ [])) .nil

theorem not_always_written :
    let e : Envelope := {
      source := .pane ⟨"p1"⟩, worktree := none, stamp := ⟨1, 1⟩, command := none
      correlation := none, timestamp := 40
      event := .terminal (.cwdChanged ⟨RawText.slash :: [0xFF]⟩) }
    e.Fits ∧ e.toJson? = none :=
  ⟨⟨by decide, by decide, by decide, trivial⟩, rfl⟩

end Switchboard
