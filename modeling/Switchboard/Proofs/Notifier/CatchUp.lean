import Switchboard.Proofs.Notifier.Steps

/-!
# Catching up

When the notifier catches up it takes all that the bus has for it. If it was overtaken it asks those
who can be asked first, and what they hand out comes before what is still on the bus. What enters
the reducer is computed here from the list of all that was published.
-/
namespace Switchboard

namespace Notifier

theorem tick_cases (n : Notifier) (now : Nat) :
    n.tick now = (n, none) ∨
      n.tick now = (⟨⟨(n.intake.reducer.flush now).1, n.intake.cursor⟩, n.next, n.controls⟩,
        some (n.intake.reducer.flush now).2) := by
  simp only [Notifier.tick, Reducer.poll]
  by_cases hd : n.intake.reducer.isDue now = true
  · rw [if_pos hd]
    exact .inr rfl
  · rw [if_neg hd]
    exact .inl rfl

theorem finish_cases (n : Notifier) (now : Nat) :
    n.finish now = (n, none) ∧ n.intake.reducer.hasPending = false ∨
      n.finish now = (⟨⟨(n.intake.reducer.flush now).1, n.intake.cursor⟩, n.next, n.controls⟩,
        some (n.intake.reducer.flush now).2) := by
  simp only [Notifier.finish]
  by_cases hp : n.intake.reducer.hasPending = true
  · rw [if_pos hp]
    exact .inr rfl
  · rw [if_neg hp]
    exact .inl ⟨rfl, by simpa using hp⟩

end Notifier

namespace Scene

/-- The bus holds no longer what the notifier wants next. -/
def Overtaken (s : Scene) : Prop := s.notifier.next < s.bus.oldest

instance (s : Scene) : Decidable s.Overtaken := inferInstanceAs (Decidable (_ < _))

def refilled (s : Scene) : List Envelope :=
  if s.Overtaken then newKept s.voices s.published s.cursor else []

def refills (s : Scene) : List Entry :=
  if s.Overtaken then s.voices.flatMap (·.refill s.published s.cursor) else []

def onBus (s : Scene) : List Envelope := s.published.drop (max s.notifier.next s.bus.oldest)

def passed (s : Scene) : List Envelope := s.onBus.filter (s.cursor.follow s.refilled).isNew

def taken (s : Scene) : List Envelope := s.refilled ++ s.passed

def losses (s : Scene) : List DeliveryGap := s.refills.filterMap Entry.loss?

def entries (s : Scene) : List Entry :=
  s.refills ++ s.passed.map .envelope ++ s.notifier.controls.map .control

theorem histories_eq {s : Scene} (h : Sound s) :
    s.histories = s.voices.map (·.history s.published) := by
  rw [histories, voices, List.map_map]
  exact List.map_congr_left h.kept

theorem distinct_voices {s : Scene} (h : Sound s) : (s.voices.map Voice.source).Nodup := by
  rw [voices, List.map_map]
  exact h.distinct

theorem oldest_eq {s : Scene} (h : Sound s) :
    s.bus.oldest = s.published.length - s.bus.capacity := by
  have hb := Ring.oldest_window s.bus.capacity s.published
  rw [← h.bus] at hb
  exact hb

theorem drain_ledger {s : Scene} (h : Sound s) :
    (s.bus.outstanding s.notifier.next).foldl (Ledger.receive s.histories) ⟨s.cursor, []⟩ =
      ⟨(s.cursor.follow s.refilled).follow s.onBus, s.refills ++ s.passed.map .envelope⟩ := by
  have hord : Ordered s.onBus := h.ordered.sublist (List.drop_sublist _ _)
  by_cases ho : s.Overtaken
  · have hlag : s.notifier.next < s.published.length - s.bus.capacity := oldest_eq h ▸ ho
    have hout : s.bus.outstanding s.notifier.next =
        .lagged (s.published.length - s.bus.capacity - s.notifier.next) ::
          s.onBus.map .message := by
      have hb := Ring.outstanding_window_lagged hlag
      rw [← h.bus] at hb
      rw [hb, onBus, oldest_eq h, Nat.max_eq_right (Nat.le_of_lt hlag)]
    have hr : Ledger.receive s.histories ⟨s.cursor, []⟩
        (.lagged (s.published.length - s.bus.capacity - s.notifier.next)) =
          ⟨s.cursor.follow s.refilled, s.refills⟩ := by
      show Ledger.recover ⟨s.cursor, []⟩ s.histories = _
      rw [histories_eq h, Ledger.recover_histories h.ordered (distinct_voices h)]
      simp only [refilled, refills, if_pos ho, List.nil_append]
    rw [hout, List.foldl_cons, hr, Ledger.foldl_receive_message, Ledger.foldl_accept _ hord]
    rfl
  · have hlag : s.published.length - s.bus.capacity ≤ s.notifier.next :=
      Nat.le_of_not_lt (oldest_eq h ▸ ho)
    have hout : s.bus.outstanding s.notifier.next = s.onBus.map .message := by
      have hb := Ring.outstanding_window hlag
      rw [← h.bus] at hb
      rw [hb, onBus, oldest_eq h, Nat.max_eq_left hlag]
    rw [hout, Ledger.foldl_receive_message, Ledger.foldl_accept _ hord]
    simp only [passed, refilled, refills, if_neg ho]
    rfl

theorem intake_catchUp {s : Scene} (h : Sound s) :
    s.catchUp.notifier.intake =
      ⟨s.reducer.after s.entries,
        s.notifier.controls.foldl Cursor.heed
          ((s.cursor.follow s.refilled).follow s.onBus)⟩ := by
  have hstart : s.notifier.intake = Ledger.intake ⟨s.cursor, []⟩ s.reducer := rfl
  have hcatch : s.catchUp.notifier.intake = s.notifier.controls.foldl Intake.control
      ((s.bus.outstanding s.notifier.next).foldl (Notifier.receive s.histories)
        s.notifier.intake) := rfl
  rw [hcatch, hstart, ← Ledger.intake_foldl_receive, drain_ledger h,
    ← Ledger.intake_foldl_control, Ledger.foldl_control]
  rfl

theorem reducer_catchUp {s : Scene} (h : Sound s) :
    s.catchUp.reducer = s.reducer.after s.entries := congrArg Intake.reducer (intake_catchUp h)

theorem next_catchUp {s : Scene} (h : Sound s) :
    s.catchUp.notifier.next = s.published.length := by
  have hsent : s.bus.sent = s.published.length := congrArg Ring.sent h.bus
  show max s.notifier.next s.bus.sent = _
  rw [hsent]
  exact Nat.max_eq_right h.place

theorem read_catchUp {s : Scene} (h : Sound s) : s.catchUp.read = s.published :=
  List.take_of_length_le (Nat.le_of_eq (next_catchUp h).symm)

theorem gathers_entries (s : Scene) : Reducer.Gathers s.entries := by
  intro now hm
  simp only [entries, refills, Voice.refill, List.mem_append, List.mem_map, reduceCtorEq,
    and_false, exists_false, or_false] at hm
  by_cases ho : s.Overtaken
  · simp [if_pos ho] at hm
  · simp [if_neg ho] at hm

theorem taken_eq (s : Scene) : s.entries.filterMap Entry.envelope? = s.taken := by
  have hpassed : (s.passed.map Entry.envelope).filterMap Entry.envelope? = s.passed := by
    rw [List.filterMap_map]
    exact List.filterMap_some
  have hcontrols : (s.notifier.controls.map Entry.control).filterMap Entry.envelope? = [] := by
    rw [List.filterMap_map, List.filterMap_eq_nil_iff]
    exact fun _ _ => rfl
  have hrefills : s.refills.filterMap Entry.envelope? = s.refilled := by
    simp only [refills, refilled]
    by_cases ho : s.Overtaken
    · rw [if_pos ho, if_pos ho, List.filterMap_flatMap, newKept]
      congr 1
      funext v
      exact v.filterMap_envelope?_refill _ _
    · rw [if_neg ho, if_neg ho]
      rfl
  rw [entries, List.filterMap_append, List.filterMap_append, hpassed, hcontrols, hrefills,
    List.append_nil, taken]

theorem losses_eq (s : Scene) : s.entries.filterMap Entry.loss? = s.losses := by
  have hpassed : (s.passed.map Entry.envelope).filterMap Entry.loss? = [] := by
    rw [List.filterMap_map, List.filterMap_eq_nil_iff]
    exact fun _ _ => rfl
  have hcontrols : (s.notifier.controls.map Entry.control).filterMap Entry.loss? = [] := by
    rw [List.filterMap_map, List.filterMap_eq_nil_iff]
    exact fun _ _ => rfl
  rw [entries, List.filterMap_append, List.filterMap_append, hpassed, hcontrols,
    List.append_nil, List.append_nil, losses]

theorem losses_of_overtaken {s : Scene} (h : s.Overtaken) :
    s.losses = s.voices.flatMap fun v =>
      (((v.dropped s.published).getLast?.filter s.cursor.isNew).map fun e =>
        DeliveryGap.mk e.source e.epoch e.seq).toList := by
  rw [losses, refills, if_pos h, List.filterMap_flatMap]
  congr 1
  funext v
  exact v.filterMap_loss?_refill _ _

theorem losses_of_not_overtaken {s : Scene} (h : ¬ s.Overtaken) : s.losses = [] := by
  rw [losses, refills, if_neg h]
  rfl

theorem mem_losses {s : Scene} {g : DeliveryGap} :
    g ∈ s.losses ↔ s.Overtaken ∧ ∃ v ∈ s.voices, ∃ l, (v.dropped s.published).getLast? = some l ∧
      s.cursor.isNew l = true ∧ g = ⟨l.source, l.epoch, l.seq⟩ := by
  by_cases ho : s.Overtaken
  · rw [losses_of_overtaken ho]
    simp only [List.mem_flatMap, Option.mem_toList, Option.map_eq_some_iff,
      Option.filter_eq_some_iff]
    constructor
    · rintro ⟨v, hv, l, ⟨hl, hn⟩, rfl⟩
      exact ⟨ho, v, hv, l, hl, hn, rfl⟩
    · rintro ⟨-, v, hv, l, hl, hn, rfl⟩
      exact ⟨v, hv, l, ⟨hl, hn⟩, rfl⟩
  · rw [losses_of_not_overtaken ho]
    simp [ho]

theorem source_of_dropped {v : Voice} {told : List Envelope} {l : Envelope}
    (h : (v.dropped told).getLast? = some l) :
    l ∈ v.spoken told ∧ l.source = v.source ∧ l.epoch = v.epoch := by
  have hm : l ∈ v.spoken told := List.mem_of_mem_take (List.mem_of_getLast? h)
  exact ⟨hm, (v.mem_spoken.mp hm).2⟩

theorem distinct_losses {s : Scene} (h : Sound s) :
    (s.losses.map DeliveryGap.source).Nodup := by
  by_cases ho : s.Overtaken
  · have hd := distinct_voices h
    rw [losses_of_overtaken ho]
    generalize s.voices = vs at hd
    induction vs with
    | nil => exact .nil
    | cons v rest ih =>
      obtain ⟨hfirst, hrest⟩ := List.nodup_cons.mp hd
      rw [List.flatMap_cons, List.map_append]
      cases hl : (v.dropped s.published).getLast?.filter s.cursor.isNew with
      | none => exact ih hrest
      | some l =>
        refine List.nodup_cons.mpr ⟨?_, ih hrest⟩
        intro hm
        obtain ⟨g, hg, hgs⟩ := List.mem_map.mp hm
        obtain ⟨v', hv', hg⟩ := List.mem_flatMap.mp hg
        obtain ⟨l', hl', rfl⟩ := Option.map_eq_some_iff.mp (Option.mem_toList.mp hg)
        have hs := (source_of_dropped (Option.filter_eq_some_iff.mp hl).1).2.1
        have hs' := (source_of_dropped (Option.filter_eq_some_iff.mp hl').1).2.1
        exact hfirst (List.mem_map.mpr ⟨v', hv', hs'.symm.trans (hgs.trans hs)⟩)
  · rw [losses_of_not_overtaken ho]
    exact .nil

theorem mem_taken {s : Scene} {e : Envelope} (he : e ∈ s.taken) :
    e ∈ s.published ∧ s.cursor.isNew e = true := by
  rcases List.mem_append.mp he with he | he
  · by_cases ho : s.Overtaken
    · simp only [refilled, if_pos ho] at he
      obtain ⟨⟨v, -, hk⟩, hn⟩ := mem_newKept.mp he
      exact ⟨(v.mem_spoken.mp (List.mem_of_mem_drop hk)).1, hn⟩
    · simp [refilled, if_neg ho] at he
  · obtain ⟨hb, hn⟩ := List.mem_filter.mp he
    exact ⟨List.mem_of_mem_drop hb, ((Cursor.isNew_follow _ _ _).mp hn).1⟩

theorem nodup_taken {s : Scene} (h : Sound s) : s.taken.Nodup := by
  have hrefilled : Ordered s.refilled := by
    simp only [refilled]
    by_cases ho : s.Overtaken
    · rw [if_pos ho]
      exact ordered_newKept h.ordered (distinct_voices h)
    · rw [if_neg ho]
      exact .nil
  have hpassed : Ordered s.passed :=
    (h.ordered.sublist (List.drop_sublist _ _)).sublist List.filter_sublist
  refine (hrefilled.append hpassed ?_).nodup
  intro a ha b hb hs
  exact ((Cursor.isNew_follow _ _ _).mp (List.mem_filter.mp hb).2).2 a ha hs

theorem unread_of_mem_onBus {s : Scene} {e : Envelope} (he : e ∈ s.onBus) : e ∈ s.unread := by
  have hd : s.onBus = s.unread.drop (max s.notifier.next s.bus.oldest - s.notifier.next) := by
    rw [unread, List.drop_drop, onBus]
    congr 1
    omega
  exact List.mem_of_mem_drop (hd ▸ he)

theorem mem_read_or_onBus {s : Scene} {e : Envelope} (he : e ∈ s.published) :
    e ∈ s.read ∨ e ∈ s.onBus ∨
      s.Overtaken ∧ e ∈ s.published.take s.bus.oldest := by
  rw [← List.take_append_drop (max s.notifier.next s.bus.oldest) s.published,
    List.mem_append] at he
  rcases he with he | he
  · by_cases ho : s.Overtaken
    · rw [Nat.max_eq_right (Nat.le_of_lt ho)] at he
      exact .inr (.inr ⟨ho, he⟩)
    · rw [Nat.max_eq_left (Nat.le_of_not_lt ho)] at he
      exact .inl he
  · exact .inr (.inl he)

theorem seen_drained {s : Scene} (h : Sound s) {v : Voice} (hv : v ∈ s.voices) {e : Envelope}
    (he : e ∈ v.spoken s.published) :
    ((s.cursor.follow s.refilled).follow s.onBus).last? e.source = none ∨
      ¬ ((s.cursor.follow s.refilled).follow s.onBus).isNew e = true := by
  obtain ⟨hpub, hes, hee⟩ := v.mem_spoken.mp he
  rcases mem_read_or_onBus hpub with hread | hbus | ⟨ho, -⟩
  · by_cases hn : ((s.cursor.follow s.refilled).follow s.onBus).isNew e = true
    case neg => exact .inr hn
    obtain ⟨hn₁, hbus⟩ := (Cursor.isNew_follow _ _ _).mp hn
    obtain ⟨hn₀, hrefilled⟩ := (Cursor.isNew_follow _ _ _).mp hn₁
    have hforgot : s.cursor.last? e.source = none :=
      (h.seen v hv e he hread).resolve_right fun hseen => hseen hn₀
    -- nothing of the source passed, since all that could pass is no older than `e`
    have hnobus : ∀ x ∈ s.onBus, x.source ≠ e.source := by
      intro x hx hs
      have hb := h.ordered.before_of_take_drop _ hread (unread_of_mem_onBus hx) hs.symm
      exact Stamp.before_asymm hb (hbus x hx hs)
    have hnorefill : ∀ x ∈ s.refilled, x.source ≠ e.source := by
      intro x hx hs
      by_cases ho : s.Overtaken
      · simp only [refilled, if_pos ho] at hx hrefilled
        obtain ⟨⟨u, hu, hk⟩, -⟩ := mem_newKept.mp hx
        have hus := (u.mem_spoken.mp (List.mem_of_mem_drop hk)).2.1
        have huv : u = v :=
          List.inj_on_of_nodup_map (distinct_voices h) hu hv (hus.symm.trans (hs.trans hes))
        subst huv
        refine not_isNew_follow_newKept h.ordered hu he
          ((Cursor.isNew_follow _ _ _).mpr ⟨hn₀, hrefilled⟩)
      · simp [refilled, if_neg ho] at hx
    refine .inl ?_
    rw [Cursor.last?_follow_of_ne _ hnobus, Cursor.last?_follow_of_ne _ hnorefill, hforgot]
  · refine .inr fun hn => ?_
    have hb := ((Cursor.isNew_follow _ _ _).mp hn).2 e hbus rfl
    rw [Stamp.before_irrefl] at hb
    cases hb
  · refine .inr fun hn => ?_
    have hn₁ := ((Cursor.isNew_follow _ _ _).mp hn).1
    simp only [refilled, if_pos ho] at hn₁
    exact not_isNew_follow_newKept h.ordered hv he hn₁

namespace Sound

variable {s : Scene}

theorem catchUp (h : Sound s) : Sound s.catchUp := by
  have hcursor : s.catchUp.cursor = s.notifier.controls.foldl Cursor.heed
      ((s.cursor.follow s.refilled).follow s.onBus) :=
    congrArg Intake.cursor (intake_catchUp h)
  have hnext := next_catchUp h
  have hall : s.catchUp.read = s.published := read_catchUp h
  refine ⟨h.bus, h.distinct, h.ordered, h.kept, h.numbered, h.recorded, h.known,
    Nat.le_of_eq hnext, ?_, ?_, ?_⟩
  · intro source stamp hst
    rw [hall]
    rw [hcursor] at hst
    have hst' : ((s.cursor.follow s.refilled).follow s.onBus).last? source = some stamp := by
      rcases Cursor.last?_foldl_heed ((s.cursor.follow s.refilled).follow s.onBus)
        s.notifier.controls source with hn | hn
      · rw [hn] at hst
        cases hst
      · exact hn ▸ hst
    rcases Cursor.last?_follow hst' with hst' | ⟨e, he, hes⟩
    · rcases Cursor.last?_follow hst' with hst' | ⟨e, he, hes⟩
      · obtain ⟨e, he, hes⟩ := h.stamps hst'
        exact ⟨e, List.mem_of_mem_take he, hes⟩
      · exact ⟨e, (mem_taken (List.mem_append_left _ he)).1, hes⟩
    · exact ⟨e, List.mem_of_mem_drop he, hes⟩
  · intro v hv e he _
    rw [hcursor]
    rcases Cursor.last?_foldl_heed ((s.cursor.follow s.refilled).follow s.onBus)
      s.notifier.controls e.source with hn | hn
    · exact .inl hn
    · rw [hn, Cursor.isNew_congr hn]
      exact seen_drained h hv he
  · rw [reducer_catchUp h]
    exact Reducer.tidy_after h.tidy _

theorem of_notifier (h : Sound s) {n : Notifier} (delivered : List Batch)
    (hn : n.next = s.notifier.next) (hc : n.intake.cursor = s.cursor)
    (ht : n.intake.reducer.Tidy) : Sound { s with notifier := n, delivered } := by
  have hread : s.read = read { s with notifier := n, delivered } :=
    congrArg (fun k => s.published.take k) hn.symm
  refine ⟨h.bus, h.distinct, h.ordered, h.kept, h.numbered, h.recorded, h.known, ?_, ?_, ?_, ht⟩
  · rw [hn]
    exact h.place
  · intro source stamp hst
    have hst' : s.cursor.last? source = some stamp := hc ▸ hst
    obtain ⟨e, he, hes⟩ := h.stamps hst'
    exact ⟨e, hread ▸ he, hes⟩
  · intro v hv e he hr
    have hseen := h.seen v hv e he (hread ▸ hr)
    rwa [← hc] at hseen

theorem epoch_lt_nextEpoch (h : Sound s) {front behind : List Speaker} {pane : PaneId}
    {capacity : Nat} (hu : Unspent (s.welcome front behind pane capacity)) {e : Envelope}
    (he : e ∈ s.published) (hes : e.source = .pane pane) : e.epoch < s.nextEpoch pane := by
  obtain ⟨epoch, hget, hle⟩ := h.recorded e he pane hes
  have hlt := hu.epochs pane _ (Table.get?_set_self _ _ _)
  rw [hget, Option.getD_some] at hlt
  have hnext : s.nextEpoch pane = satSucc epoch := by simp only [nextEpoch, hget]
  rw [hnext] at hlt ⊢
  simp only [satSucc, satAdd] at hlt ⊢
  omega

theorem silent_newcomer (h : Sound s) {front behind : List Speaker} {pane : PaneId}
    {capacity : Nat} (hu : Unspent (s.welcome front behind pane capacity)) (size : Nat) :
    (Speaker.newcomer pane (s.nextEpoch pane) size).voice.spoken s.published = [] := by
  rw [Voice.spoken, List.filter_eq_nil_iff]
  intro e he ho
  obtain ⟨hes, hee⟩ := of_decide_eq_true ho
  have hlt := h.epoch_lt_nextEpoch hu he hes
  have hee' : e.epoch = s.nextEpoch pane := hee
  omega

theorem welcome (h : Sound s) {front behind : List Speaker} {pane : PaneId} {capacity : Nat}
    (hs : s.speakers = front ++ behind) (hnew : ∀ sp ∈ s.speakers, sp.source ≠ .pane pane)
    (hu : Unspent (s.welcome front behind pane capacity)) :
    Sound (s.welcome front behind pane capacity) := by
  have hsilent := h.silent_newcomer hu
  refine ⟨h.bus, distinct_welcome h.distinct capacity hs hnew, h.ordered, ?_, ?_, ?_, ?_, h.place,
    h.stamps, ?_, h.tidy⟩
  · intro x hx
    rcases (mem_speakers_welcome hs).mp hx with rfl | hx
    · show ReplayBuffer.create (.pane pane) capacity = Voice.history _ s.published
      rw [Voice.history, hsilent]
      simp [Speaker.voice, Speaker.newcomer, ReplayBuffer.create]
    · exact h.kept x hx
  · intro x hx e he hes
    rcases (mem_speakers_welcome hs).mp hx with rfl | hx
    · exact .inl (h.epoch_lt_nextEpoch hu he hes)
    · exact h.numbered x hx e he hes
  · intro e he other ho
    obtain ⟨epoch, hget, hle⟩ := h.recorded e he other ho
    obtain ⟨epoch', hget', hle'⟩ := s.epoch_le_welcome front behind pane capacity hget
    exact ⟨epoch', hget', Nat.le_trans hle hle'⟩
  · intro x hx other ho
    rcases (mem_speakers_welcome hs).mp hx with rfl | hx
    · cases ho
      exact ⟨_, Table.get?_set_self _ _ _, Nat.le_max_right _ _⟩
    · obtain ⟨epoch, hget, hle⟩ := h.known x hx other ho
      obtain ⟨epoch', hget', hle'⟩ := s.epoch_le_welcome front behind pane capacity hget
      exact ⟨epoch', hget', Nat.le_trans hle hle'⟩
  · intro v hv e he hr
    obtain ⟨x, hx, rfl⟩ := List.mem_map.mp hv
    rcases (mem_speakers_welcome hs).mp hx with rfl | hx
    · have hnil := hsilent capacity
      rw [show (s.welcome front behind pane capacity).published = s.published from rfl, hnil] at he
      cases he
    · exact h.seen x.voice (List.mem_map.mpr ⟨x, hx, rfl⟩) e he hr

theorem deliver (h : Sound s) {out : Notifier × Option Batch} {now : Nat}
    (ho : out = (s.notifier, none) ∨ out = (⟨⟨(s.reducer.flush now).1, s.cursor⟩,
      s.notifier.next, s.notifier.controls⟩, some (s.reducer.flush now).2)) :
    Sound (s.deliver out) := by
  rcases ho with rfl | rfl
  · exact h.of_notifier _ rfl rfl h.tidy
  · exact h.of_notifier _ rfl rfl (Reducer.tidy_flush _ _)

theorem move (h : Sound s) {s' : Scene} (hm : Move s s') (hu : Unspent s') : Sound s' := by
  cases hm with
  | catchUp => exact h.catchUp
  | control c => exact h.of_notifier s.delivered rfl rfl h.tidy
  | frame now => exact h.deliver (s.notifier.tick_cases now)
  | finish now => exact h.deliver ((s.notifier.finish_cases now).imp_left And.left)
  | @tell front behind sp sp' told hs ht =>
    have heq : front ++ sp' :: behind = front ++ [sp'] ++ behind := by simp
    rw [heq] at hu ⊢
    exact h.say hs ht (.inl rfl) hu
  | @leave front behind sp sp' told pane hp hs ht =>
    have heq : front ++ behind = front ++ [] ++ behind := by simp
    rw [heq] at hu ⊢
    exact h.say hs ht (.inr rfl) hu
  | enter pane capacity hs hnew => exact h.welcome hs hnew hu

theorem leads (h : Sound s) {s' : Scene} (hl : Leads s s') (hu : Unspent s') : Sound s' := by
  induction hl with
  | refl => exact h
  | tail hl hm ih => exact (ih (hm.unspent hu)).move hm hu

end Sound

end Scene

end Switchboard
