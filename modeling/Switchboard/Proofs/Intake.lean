import Switchboard.Notifier
import Switchboard.Proofs.Replay.History

/-!
# Ledgers

A ledger is an intake that only writes down: it lets the same envelopes pass, and keeps a list of
all that enters the reducer. The reducer is what this list makes of the one there was at first, so
everything the notifier hands out can be read off the list.
-/
namespace Switchboard

inductive Entry where
  | envelope (e : Envelope)
  | loss (gap : DeliveryGap)
  | control (c : Control)
  | flush (now : Nat)
  deriving DecidableEq

namespace Entry

def envelope? : Entry → Option Envelope
  | .envelope e => some e
  | _ => none

def loss? : Entry → Option DeliveryGap
  | .loss gap => some gap
  | _ => none

end Entry

namespace Reducer

def control (r : Reducer) : Control → Reducer
  | .setFocus focus => r.setFocus focus
  | .bind pane worktree => r.bind pane worktree
  | .forget pane => r.forget pane

def enter (r : Reducer) : Entry → Reducer
  | .envelope e => r.push e
  | .loss gap => r.recordGap gap
  | .control c => r.control c
  | .flush now => (r.flush now).1

def after (r : Reducer) (entries : List Entry) : Reducer := entries.foldl enter r

theorem after_append (r : Reducer) (xs ys : List Entry) :
    r.after (xs ++ ys) = (r.after xs).after ys := List.foldl_append

end Reducer

namespace Cursor

def follow (c : Cursor) (es : List Envelope) : Cursor := es.foldl (fun c e => (c.advance e).1) c

theorem follow_cons (c : Cursor) (e : Envelope) (es : List Envelope) :
    c.follow (e :: es) = (c.advance e).1.follow es := rfl

theorem follow_append (c : Cursor) (es more : List Envelope) :
    c.follow (es ++ more) = (c.follow es).follow more := List.foldl_append

theorem last?_advance_of_ne (c : Cursor) {e : Envelope} {source : Source}
    (h : e.source ≠ source) : (c.advance e).1.last? source = c.last? source := by
  simp only [advance]
  by_cases hn : c.isNew e = true
  · rw [if_pos hn, last?_put, if_neg h]
  · rw [if_neg hn]

theorem last?_follow_of_ne (c : Cursor) {es : List Envelope} {source : Source}
    (h : ∀ e ∈ es, e.source ≠ source) : (c.follow es).last? source = c.last? source := by
  induction es generalizing c with
  | nil => rfl
  | cons e rest ih =>
    rw [follow_cons, ih _ fun x hx => h x (List.mem_cons_of_mem _ hx)]
    exact c.last?_advance_of_ne (h e List.mem_cons_self)

theorem isNew_congr {c c' : Cursor} {e : Envelope} (h : c.last? e.source = c'.last? e.source) :
    c.isNew e = c'.isNew e := by
  simp only [isNew, h]

theorem last?_advance {c : Cursor} {e : Envelope} {source : Source} {stamp : Stamp}
    (h : (c.advance e).1.last? source = some stamp) :
    c.last? source = some stamp ∨ e.source = source ∧ e.stamp = stamp := by
  simp only [advance] at h
  by_cases hn : c.isNew e = true
  · rw [if_pos hn, last?_put] at h
    by_cases hs : e.source = source
    · rw [if_pos hs, Option.some.injEq] at h
      exact .inr ⟨hs, h⟩
    · rw [if_neg hs] at h
      exact .inl h
  · rw [if_neg hn] at h
    exact .inl h

theorem last?_follow {c : Cursor} {es : List Envelope} {source : Source} {stamp : Stamp}
    (h : (c.follow es).last? source = some stamp) :
    c.last? source = some stamp ∨ ∃ e ∈ es, e.source = source ∧ e.stamp = stamp := by
  induction es generalizing c with
  | nil => exact .inl h
  | cons e rest ih =>
    rw [follow_cons] at h
    rcases ih h with h | ⟨x, hx, hxs⟩
    · rcases last?_advance h with h | h
      · exact .inl h
      · exact .inr ⟨e, List.mem_cons_self, h⟩
    · exact .inr ⟨x, List.mem_cons_of_mem _ hx, hxs⟩

theorem isNew_advance (c : Cursor) (e x : Envelope) :
    (c.advance e).1.isNew x = true ↔
      c.isNew x = true ∧ (e.source = x.source → e.stamp.before x.stamp = true) := by
  by_cases hs : e.source = x.source
  · by_cases hn : c.isNew e = true
    · have hl : (c.advance e).1.last? x.source = some e.stamp := by
        simp only [advance, if_pos hn, last?_put, if_pos hs]
      simp only [isNew_iff, hl, Option.some.injEq, forall_eq']
      constructor
      · intro hb
        refine ⟨?_, fun _ => hb⟩
        intro stamp hc
        exact Stamp.before_trans (isNew_iff.mp hn stamp (hs ▸ hc)) hb
      · intro h
        exact h.2 hs
    · simp only [advance, if_neg hn]
      constructor
      · intro hx
        refine ⟨hx, fun _ => ?_⟩
        have hn' : ¬ ∀ stamp, c.last? e.source = some stamp →
            stamp.before e.stamp = true := fun h => hn (isNew_iff.mpr h)
        push Not at hn'
        obtain ⟨stamp, hc, hb⟩ := hn'
        refine Stamp.before_of_not_before (by simpa using hb) ?_
        exact isNew_iff.mp hx stamp (hs ▸ hc)
      · exact fun h => h.1
  · have hl : (c.advance e).1.isNew x = c.isNew x := isNew_congr (c.last?_advance_of_ne hs)
    rw [hl]
    constructor
    · exact fun h => ⟨h, fun hx => absurd hx hs⟩
    · exact fun h => h.1

theorem isNew_follow (c : Cursor) (es : List Envelope) (x : Envelope) :
    (c.follow es).isNew x = true ↔
      c.isNew x = true ∧ ∀ e ∈ es, e.source = x.source → e.stamp.before x.stamp = true := by
  induction es generalizing c with
  | nil => simp [follow]
  | cons e rest ih =>
    rw [follow_cons, ih, isNew_advance, List.forall_mem_cons, and_assoc]

theorem advance_of_isNew {c : Cursor} {e : Envelope} (h : c.isNew e = true) :
    c.advance e = (c.put e.source e.stamp, true) := if_pos h

theorem advance_of_not_isNew {c : Cursor} {e : Envelope} (h : ¬ c.isNew e = true) :
    c.advance e = (c, false) := if_neg h

theorem isNew_of_before {c : Cursor} {a b : Envelope} (ha : c.isNew a = true)
    (hs : a.source = b.source) (hab : a.stamp.before b.stamp = true) : c.isNew b = true := by
  rw [isNew_iff] at ha ⊢
  intro stamp hc
  exact Stamp.before_trans (ha stamp (hs ▸ hc)) hab

end Cursor

def Cursor.heed (c : Cursor) : Control → Cursor
  | .forget pane => c.forget (.pane pane)
  | _ => c

theorem Cursor.last?_foldl_heed (c : Cursor) (cs : List Control) (source : Source) :
    (cs.foldl heed c).last? source = none ∨
      (cs.foldl heed c).last? source = c.last? source := by
  induction cs generalizing c with
  | nil => exact .inr rfl
  | cons x rest ih =>
    rcases ih (c.heed x) with h | h
    · exact .inl h
    · have hx : (c.heed x).last? source = none ∨ (c.heed x).last? source = c.last? source := by
        cases x with
        | forget pane =>
          rw [heed, last?_forget]
          by_cases hs : Source.pane pane = source
          · exact .inl (if_pos hs)
          · exact .inr (if_neg hs)
        | _ => exact .inr rfl
      rw [List.foldl_cons, h]
      exact hx

structure Ledger where
  cursor : Cursor
  entries : List Entry
  deriving DecidableEq

namespace Ledger

variable {told : List Envelope}

def start : Ledger := ⟨.start, []⟩

def write (l : Ledger) (x : Entry) : Ledger := { l with entries := l.entries ++ [x] }

def accept (l : Ledger) (e : Envelope) : Ledger :=
  let (cursor, isNew) := l.cursor.advance e
  if isNew then { l.write (.envelope e) with cursor } else l

theorem cursor_accept (l : Ledger) (e : Envelope) :
    (l.accept e).cursor = (l.cursor.advance e).1 := by
  by_cases hn : l.cursor.isNew e = true
  · simp [accept, Cursor.advance, hn]
  · simp [accept, Cursor.advance, hn]

def recordLoss (l : Ledger) : Option DeliveryGap → Ledger
  | none => l
  | some gap => l.write (.loss gap)

def acceptRecovery (l : Ledger) (r : Recovery) : Ledger :=
  r.events.foldl accept (l.recordLoss r.lost)

def recover (l : Ledger) (histories : List ReplayBuffer) : Ledger :=
  (backfill histories l.cursor).foldl acceptRecovery l

def receive (histories : List ReplayBuffer) (l : Ledger) : Ring.Received Envelope → Ledger
  | .empty => l
  | .message e => l.accept e
  | .lagged _ => l.recover histories

def control (l : Ledger) (c : Control) : Ledger :=
  match c with
  | .forget pane => { l.write (.control c) with cursor := l.cursor.forget (.pane pane) }
  | _ => l.write (.control c)

def intake (l : Ledger) (r : Reducer) : Intake := ⟨r.after l.entries, l.cursor⟩

theorem intake_write (l : Ledger) (r : Reducer) (x : Entry) :
    (l.write x).intake r = ⟨(r.after l.entries).enter x, l.cursor⟩ := by
  simp only [intake, write, Reducer.after_append]
  rfl

theorem intake_accept (l : Ledger) (r : Reducer) (e : Envelope) :
    (l.accept e).intake r = (l.intake r).accept e := by
  by_cases hn : l.cursor.isNew e = true
  · simp only [accept, Intake.accept, Cursor.advance_of_isNew hn, if_true, intake, write,
      Reducer.after_append]
    rfl
  · have hi : ¬ (l.intake r).cursor.isNew e = true := hn
    simp only [accept, Intake.accept, Cursor.advance_of_not_isNew hn,
      Cursor.advance_of_not_isNew hi, Bool.false_eq_true, if_false]

theorem intake_foldl_accept (l : Ledger) (r : Reducer) (es : List Envelope) :
    (es.foldl accept l).intake r = es.foldl Intake.accept (l.intake r) := by
  induction es generalizing l with
  | nil => rfl
  | cons e rest ih => rw [List.foldl_cons, ih, intake_accept, List.foldl_cons]

theorem intake_acceptRecovery (l : Ledger) (r : Reducer) (y : Recovery) :
    (l.acceptRecovery y).intake r = (l.intake r).acceptRecovery y := by
  rw [acceptRecovery, intake_foldl_accept, Intake.acceptRecovery]
  cases y.lost with
  | none => rfl
  | some gap =>
    simp only [recordLoss, intake_write]
    rfl

theorem intake_recover (l : Ledger) (r : Reducer) (histories : List ReplayBuffer) :
    (l.recover histories).intake r = (l.intake r).recover histories := by
  have h : ∀ ys : List Recovery,
      (ys.foldl acceptRecovery l).intake r = ys.foldl Intake.acceptRecovery (l.intake r) := by
    intro ys
    induction ys generalizing l with
    | nil => rfl
    | cons y rest ih => rw [List.foldl_cons, ih, intake_acceptRecovery, List.foldl_cons]
  exact h _

theorem intake_receive (l : Ledger) (r : Reducer) (histories : List ReplayBuffer)
    (x : Ring.Received Envelope) :
    (l.receive histories x).intake r = Notifier.receive histories (l.intake r) x := by
  cases x with
  | empty => rfl
  | message e => exact l.intake_accept r e
  | lagged missed => exact l.intake_recover r histories

theorem intake_control (l : Ledger) (r : Reducer) (c : Control) :
    (l.control c).intake r = (l.intake r).control c := by
  cases c with
  | setFocus focus => exact l.intake_write r _
  | bind pane worktree => exact l.intake_write r _
  | forget pane =>
    simp only [control, intake, write, Reducer.after_append]
    rfl

theorem intake_foldl_receive (l : Ledger) (r : Reducer) (histories : List ReplayBuffer)
    (xs : List (Ring.Received Envelope)) :
    (xs.foldl (receive histories) l).intake r =
      xs.foldl (Notifier.receive histories) (l.intake r) := by
  induction xs generalizing l with
  | nil => rfl
  | cons x rest ih => rw [List.foldl_cons, ih, intake_receive, List.foldl_cons]

theorem intake_foldl_control (l : Ledger) (r : Reducer) (cs : List Control) :
    (cs.foldl control l).intake r = cs.foldl Intake.control (l.intake r) := by
  induction cs generalizing l with
  | nil => rfl
  | cons c rest ih => rw [List.foldl_cons, ih, intake_control, List.foldl_cons]

theorem foldl_control (l : Ledger) (cs : List Control) :
    cs.foldl control l = ⟨cs.foldl Cursor.heed l.cursor, l.entries ++ cs.map .control⟩ := by
  induction cs generalizing l with
  | nil => simp
  | cons c rest ih =>
    have hc : l.control c = ⟨l.cursor.heed c, l.entries ++ [.control c]⟩ := by cases c <;> rfl
    rw [List.foldl_cons, ih, hc]
    simp

theorem foldl_receive_message (histories : List ReplayBuffer) (l : Ledger)
    (es : List Envelope) :
    (es.map Ring.Received.message).foldl (receive histories) l = es.foldl accept l := by
  rw [List.foldl_map]
  rfl

theorem foldl_accept (l : Ledger) {es : List Envelope} (h : Ordered es) :
    es.foldl accept l =
      ⟨l.cursor.follow es, l.entries ++ (es.filter l.cursor.isNew).map .envelope⟩ := by
  induction es generalizing l with
  | nil => simp [Cursor.follow]
  | cons e rest ih =>
    have hrest : Ordered rest := h.sublist (List.sublist_cons_self _ _)
    have hnewer := (List.pairwise_cons.mp h.grows).1
    rw [List.foldl_cons, ih _ hrest, Cursor.follow_cons]
    by_cases hn : l.cursor.isNew e = true
    · have ha : l.accept e = ⟨(l.cursor.advance e).1, l.entries ++ [.envelope e]⟩ := by
        simp [accept, Cursor.advance, hn, write]
      -- what is behind `e` is newer, so it passes with `e` or without
      have hf : rest.filter (l.cursor.advance e).1.isNew = rest.filter l.cursor.isNew := by
        apply List.filter_congr
        intro x hx
        rw [Bool.eq_iff_iff, Cursor.isNew_advance]
        exact ⟨fun h => h.1, fun h => ⟨h, hnewer x hx⟩⟩
      rw [ha, hf, List.filter_cons_of_pos hn, List.map_cons, List.append_assoc]
      rfl
    · have ha : l.accept e = l := by simp [accept, Cursor.advance, hn]
      have hc : (l.cursor.advance e).1 = l.cursor := by simp [Cursor.advance, hn]
      rw [ha, hc, List.filter_cons_of_neg (by simpa using hn)]

def handed (l : Ledger) : List Envelope := l.entries.filterMap Entry.envelope?

def losses (l : Ledger) : List DeliveryGap := l.entries.filterMap Entry.loss?

/-- The envelope entered the reducer, or a gap that announces its loss did. -/
def Accounts (l : Ledger) (e : Envelope) : Prop := e ∈ l.handed ∨ ∃ g ∈ l.losses, g.Covers e

end Ledger

namespace Voice

variable (v : Voice)

def refill (told : List Envelope) (c : Cursor) : List Entry :=
  (((v.dropped told).getLast?.filter c.isNew).map fun e =>
      Entry.loss ⟨e.source, e.epoch, e.seq⟩).toList
    ++ ((v.kept told).filter c.isNew).map .envelope

theorem filterMap_envelope?_refill (told : List Envelope) (c : Cursor) :
    (v.refill told c).filterMap Entry.envelope? = (v.kept told).filter c.isNew := by
  have hmap : ∀ es : List Envelope, (es.map Entry.envelope).filterMap Entry.envelope? = es := by
    intro es
    rw [List.filterMap_map]
    exact List.filterMap_some
  rw [refill, List.filterMap_append, hmap]
  cases (v.dropped told).getLast?.filter c.isNew with
  | none => rfl
  | some e => rfl

theorem filterMap_loss?_refill (told : List Envelope) (c : Cursor) :
    (v.refill told c).filterMap Entry.loss? =
      (((v.dropped told).getLast?.filter c.isNew).map fun e =>
        DeliveryGap.mk e.source e.epoch e.seq).toList := by
  have hnone : (((v.kept told).filter c.isNew).map Entry.envelope).filterMap Entry.loss? = [] := by
    rw [List.filterMap_map, List.filterMap_eq_nil_iff]
    exact fun _ _ => rfl
  rw [refill, List.filterMap_append, hnone, List.append_nil]
  cases (v.dropped told).getLast?.filter c.isNew with
  | none => rfl
  | some e => rfl

theorem mem_refill_of_isNew {told : List Envelope} {c : Cursor} {e : Envelope} (h : Ordered told)
    (he : e ∈ v.spoken told) (hn : c.isNew e = true) :
    .envelope e ∈ v.refill told c ∨ ∃ g, .loss g ∈ v.refill told c ∧ g.Covers e := by
  rw [← v.dropped_append_kept told, List.mem_append] at he
  rcases he with he | he
  · have hne : v.dropped told ≠ [] := List.ne_nil_of_mem he
    have hlast := List.getLast?_eq_some_getLast hne
    have hmem := List.getLast_mem hne
    generalize (v.dropped told).getLast hne = l at hlast hmem
    obtain ⟨-, hes, hee⟩ := v.mem_spoken.mp (List.mem_of_mem_take he)
    obtain ⟨-, hls, hle⟩ := v.mem_spoken.mp (List.mem_of_mem_take hmem)
    have hord : Ordered (v.dropped told) := (v.ordered_spoken h).sublist (List.take_sublist _ _)
    -- the last one dropped is no older than `e`, so it is new and its gap covers `e`
    have hel : e = l ∨ e.stamp.before l.stamp = true := by
      rcases hord.eq_or_before_getLast he hlast with hel | hel
      · exact .inl hel
      · exact .inr (hel (hes.trans hls.symm))
    have hnew : c.isNew l = true := by
      rcases hel with rfl | hel
      · exact hn
      · exact Cursor.isNew_of_before hn (hes.trans hls.symm) hel
    refine .inr ⟨⟨l.source, l.epoch, l.seq⟩, ?_, hls.trans hes.symm, hle.trans hee.symm, ?_⟩
    · simp [refill, hlast, Option.filter_some_pos hnew]
    · rcases hel with rfl | hel
      · exact Nat.le_refl _
      · rw [Stamp.before_iff] at hel
        have : e.stamp.epoch = l.stamp.epoch := hee.trans hle.symm
        show e.stamp.seq ≤ l.stamp.seq
        omega
  · refine .inl (List.mem_append_right _ ?_)
    exact List.mem_map.mpr ⟨e, List.mem_filter.mpr ⟨he, hn⟩, rfl⟩

end Voice

def newKept (voices : List Voice) (told : List Envelope) (c : Cursor) : List Envelope :=
  voices.flatMap fun v => (v.kept told).filter c.isNew

section NewKept

variable {voices : List Voice} {told : List Envelope} {c : Cursor}

theorem mem_newKept {e : Envelope} :
    e ∈ newKept voices told c ↔ (∃ v ∈ voices, e ∈ v.kept told) ∧ c.isNew e = true := by
  simp only [newKept, List.mem_flatMap, List.mem_filter]
  constructor
  · rintro ⟨v, hv, he, hn⟩
    exact ⟨⟨v, hv, he⟩, hn⟩
  · rintro ⟨⟨v, hv, he⟩, hn⟩
    exact ⟨v, hv, he, hn⟩

theorem ordered_newKept (h : Ordered told) (hd : (voices.map Voice.source).Nodup) :
    Ordered (newKept voices told c) := by
  induction voices with
  | nil => exact .nil
  | cons v rest ih =>
    obtain ⟨hv, hrest⟩ := List.nodup_cons.mp hd
    have hcons : newKept (v :: rest) told c =
        (v.kept told).filter c.isNew ++ newKept rest told c := rfl
    rw [hcons]
    refine Ordered.append ?_ (ih hrest) ?_
    · exact ((v.ordered_spoken h).sublist (List.drop_sublist _ _)).sublist List.filter_sublist
    · intro a ha b hb hs
      obtain ⟨v', hv', hb⟩ := (mem_newKept.mp hb).1
      have has := (v.mem_spoken.mp (List.mem_of_mem_drop (List.mem_filter.mp ha).1)).2.1
      have hbs := (v'.mem_spoken.mp (List.mem_of_mem_drop hb)).2.1
      exact absurd (List.mem_map.mpr ⟨v', hv', hbs.symm.trans (hs.symm.trans has)⟩) hv

theorem not_isNew_follow_newKept (h : Ordered told) {v : Voice} (hv : v ∈ voices) {e : Envelope}
    (he : e ∈ v.spoken told) : ¬ (c.follow (newKept voices told c)).isNew e = true := by
  intro hn
  rw [Cursor.isNew_follow] at hn
  obtain ⟨hn, hlater⟩ := hn
  have hne : v.spoken told ≠ [] := List.ne_nil_of_mem he
  have hlast := List.getLast?_eq_some_getLast hne
  have hmem := List.getLast_mem hne
  generalize (v.spoken told).getLast hne = l at hlast hmem
  have hs : l.source = e.source :=
    (v.mem_spoken.mp hmem).2.1.trans (v.mem_spoken.mp he).2.1.symm
  have hkept : l ∈ v.kept told := List.mem_of_getLast? (v.getLast?_kept.trans hlast)
  rcases (v.ordered_spoken h).eq_or_before_getLast he hlast with hel | hel
  · have := hlater l (mem_newKept.mpr ⟨⟨v, hv, hkept⟩, hel ▸ hn⟩) hs
    rw [hel, Stamp.before_irrefl] at this
    cases this
  · have hle := hel hs.symm
    have hln : c.isNew l = true := Cursor.isNew_of_before hn hs.symm hle
    have := hlater l (mem_newKept.mpr ⟨⟨v, hv, hkept⟩, hln⟩) hs
    exact Stamp.before_asymm hle this

end NewKept

namespace Ledger

variable {told : List Envelope}

theorem acceptRecovery_history (h : Ordered told) (v : Voice) {l : Ledger} {c : Cursor}
    (hc : l.cursor.last? v.source = c.last? v.source) :
    l.acceptRecovery ((v.history told).recover (c.last? v.source)) =
      ⟨l.cursor.follow ((v.kept told).filter c.isNew), l.entries ++ v.refill told c⟩ := by
  have hsource : ∀ e ∈ v.kept told, e.source = v.source :=
    fun e he => (v.mem_spoken.mp (List.mem_of_mem_drop he)).2.1
  have hsame : ((v.kept told).filter c.isNew).filter l.cursor.isNew =
      (v.kept told).filter c.isNew := by
    rw [List.filter_eq_self]
    intro e he
    obtain ⟨he, hn⟩ := List.mem_filter.mp he
    have hcongr : l.cursor.isNew e = c.isNew e :=
      Cursor.isNew_congr (by rw [hsource e he, hc])
    rw [hcongr]
    exact hn
  have hord : Ordered ((v.kept told).filter c.isNew) :=
    ((v.ordered_spoken h).sublist (List.drop_sublist _ _)).sublist List.filter_sublist
  rw [v.recover_history h c, acceptRecovery, foldl_accept _ hord]
  cases hd : (v.dropped told).getLast?.filter c.isNew with
  | none => simp [recordLoss, hsame, Voice.refill, hd]
  | some e => simp [recordLoss, write, hsame, Voice.refill, hd]

theorem recover_histories (h : Ordered told) {voices : List Voice}
    (hd : (voices.map Voice.source).Nodup) (l : Ledger) :
    l.recover (voices.map (·.history told)) =
      ⟨l.cursor.follow (newKept voices told l.cursor),
        l.entries ++ voices.flatMap (·.refill told l.cursor)⟩ := by
  -- the cursor moves on from voice to voice, but not for the sources still to come
  have hall : ∀ (c : Cursor) (vs : List Voice) (l : Ledger), (vs.map Voice.source).Nodup →
      (∀ v ∈ vs, l.cursor.last? v.source = c.last? v.source) →
      (backfill (vs.map (·.history told)) c).foldl acceptRecovery l =
        ⟨l.cursor.follow (newKept vs told c), l.entries ++ vs.flatMap (·.refill told c)⟩ := by
    intro c vs
    induction vs with
    | nil => intro l _ _; simp [backfill, newKept, Cursor.follow]
    | cons v rest ih =>
      intro l hd hc
      obtain ⟨hv, hrest⟩ := List.nodup_cons.mp hd
      have hmap : backfill ((v :: rest).map (·.history told)) c =
          (v.history told).recover (c.last? v.source) ::
            backfill (rest.map (·.history told)) c := by
        simp [backfill, v.source_history]
      rw [hmap, List.foldl_cons, acceptRecovery_history h v (hc v List.mem_cons_self),
        ih _ hrest]
      · simp [newKept, Cursor.follow_append]
      · intro v' hv'
        rw [Cursor.last?_follow_of_ne, hc v' (List.mem_cons_of_mem _ hv')]
        intro e he hs
        have hes := (v.mem_spoken.mp (List.mem_of_mem_drop (List.mem_filter.mp he).1)).2.1
        exact hv (List.mem_map.mpr ⟨v', hv', hs.symm.trans hes⟩)
  exact hall l.cursor voices l hd fun _ _ => rfl

end Ledger

end Switchboard
