import Switchboard.Proofs.Pane.Subscription

/-!
# Streams without holes

However the steps of a subscription are mixed, the numbers its reader gets follow one another, and
where some are left out a mark says so. The invariant compares the stream with all that the pane
ever told: the stream has come to the number at which the follower stands, and whatever the ring
still holds for the follower goes on from there.
-/
namespace Switchboard

namespace StreamItem

def place : StreamItem → Nat
  | .event e => e.seq
  | .resync _ lastSeq => lastSeq

/-- The item goes on from a number: with the next event, or with a mark that does not lead back. -/
def Continues (n : Nat) : StreamItem → Prop
  | .event e => e.seq = n + 1
  | .resync _ lastSeq => n ≤ lastSeq

def placeAfter (n : Nat) (items : List StreamItem) : Nat := items.foldl (fun _ item => item.place) n

/-- From a number on there is neither a hole without a mark nor a repetition. -/
def Unbroken : Nat → List StreamItem → Prop
  | _, [] => True
  | n, item :: rest => item.Continues n ∧ Unbroken item.place rest

variable {n : Nat} {items more : List StreamItem}

theorem placeAfter_append (n : Nat) (items more : List StreamItem) :
    placeAfter n (items ++ more) = placeAfter (placeAfter n items) more := List.foldl_append

theorem unbroken_append :
    Unbroken n (items ++ more) ↔ Unbroken n items ∧ Unbroken (placeAfter n items) more := by
  induction items generalizing n with
  | nil => simp [Unbroken, placeAfter]
  | cons item rest ih =>
    simp only [List.cons_append, Unbroken, ih, and_assoc]
    rfl

theorem Continues.le {item : StreamItem} (h : item.Continues n) : n ≤ item.place := by
  cases item with
  | event e =>
    have : e.seq = n + 1 := h
    simp only [place]
    omega
  | resync epoch lastSeq => exact h

theorem Unbroken.le (h : Unbroken n items) : n ≤ placeAfter n items := by
  induction items generalizing n with
  | nil => exact Nat.le_refl n
  | cons item rest ih => exact Nat.le_trans h.1.le (ih h.2)

theorem placeAfter_of_getLast? {item : StreamItem} (h : items.getLast? = some item) :
    placeAfter n items = item.place := by
  obtain ⟨older, rfl⟩ := List.getLast?_eq_some_iff.mp h
  rw [placeAfter_append]
  rfl

theorem unbroken_events {es : List Envelope}
    (h : ∀ i e, es[i]? = some e → e.seq = n + i + 1) :
    Unbroken n (es.map .event) ∧ placeAfter n (es.map .event) = n + es.length := by
  induction es generalizing n with
  | nil => exact ⟨trivial, rfl⟩
  | cons e rest ih =>
    have he : e.seq = n + 1 := h 0 e rfl
    obtain ⟨hrest, hplace⟩ := ih (n := n + 1) fun i a ha => by
      have := h (i + 1) a (by simpa using ha)
      omega
    rw [← he] at hrest hplace
    refine ⟨⟨he, hrest⟩, ?_⟩
    show placeAfter e.seq (rest.map .event) = _
    rw [hplace, he, List.length_cons]
    omega

theorem placeAfter_events (n : Nat) (es : List Envelope) :
    placeAfter n (es.map .event) = (es.getLast?.map Envelope.seq).getD n := by
  cases hl : es.getLast? with
  | none => rw [List.getLast?_eq_none_iff.mp hl]; rfl
  | some l =>
    have hlast : (es.map StreamItem.event).getLast? = some (.event l) := by
      rw [List.getLast?_map, hl]
      rfl
    exact placeAfter_of_getLast? hlast

end StreamItem

theorem last_uptoFinal {es : List Envelope} (h : (uptoFinal es).any Envelope.isFinal = true) :
    ∃ e, (uptoFinal es).getLast? = some e ∧ e.isFinal = true := by
  induction es with
  | nil => cases h
  | cons e rest ih =>
    by_cases he : e.isFinal = true
    · rw [uptoFinal, if_pos he]
      exact ⟨e, rfl, he⟩
    · rw [uptoFinal, if_neg he, List.any_cons, Bool.eq_false_iff.mpr he, Bool.false_or] at h
      obtain ⟨l, hl, hf⟩ := ih h
      refine ⟨l, ?_, hf⟩
      rw [uptoFinal, if_neg he, List.getLast?_cons, hl]
      rfl

theorem uptoFinal_eq_self {es : List Envelope}
    (h : (uptoFinal es).any Envelope.isFinal = false) : uptoFinal es = es := by
  induction es with
  | nil => rfl
  | cons e rest ih =>
    by_cases he : e.isFinal = true
    · rw [uptoFinal, if_pos he, List.any_cons, he] at h
      cases h
    · rw [uptoFinal, if_neg he] at h ⊢
      rw [List.any_cons, Bool.or_eq_false_iff] at h
      rw [ih h.2]

theorem StreamItem.unbroken_uptoFinal {n : Nat} {new : List Envelope}
    (hrow : ∀ i e, new[i]? = some e → e.seq = n + i + 1) :
    Unbroken n ((uptoFinal new).map .event) ∧
      placeAfter n ((uptoFinal new).map .event) ≤ n + new.length := by
  obtain ⟨behind, hsplit⟩ := uptoFinal_isPrefix new
  obtain ⟨hall, hplace⟩ := unbroken_events hrow
  rw [← hsplit, List.map_append, unbroken_append] at hall
  rw [← hplace]
  nth_rewrite 3 [← hsplit]
  rw [List.map_append, placeAfter_append]
  exact ⟨hall.1, hall.2.le⟩

namespace Subscription

theorem stream_of_hand {s s' : Subscription} (hhand : s.follower.inHand = [])
    (ht : s'.taken = s.taken) (hq : s'.follower.queue = s.follower.queue) :
    s'.stream = s.stream ++ s'.follower.inHand := by
  rw [stream, stream, hhand, ht, hq, List.append_nil]

theorem stream_read (s : Subscription) (count : Nat) : (s.read count).stream = s.stream := by
  show s.taken ++ s.follower.queue.take count ++ s.follower.queue.drop count ++
    s.follower.inHand = _
  rw [List.append_assoc s.taken, List.take_append_drop]
  rfl

structure Reads (opened : Nat) (log : List Envelope) (items : List StreamItem) (place : Nat)
    (ended : Bool) : Prop where
  unbroken : StreamItem.Unbroken opened items
  place : StreamItem.placeAfter opened items = place
  told : ∀ e, .event e ∈ items → e ∈ log
  finals : ∀ e, .event e ∈ items → e.isFinal = true → ended = true
  last : ended = true → ∃ e, items.getLast? = some (.event e) ∧ e.isFinal = true

namespace Reads

variable {opened n m : Nat} {log : List Envelope} {items : List StreamItem} {ended : Bool}

theorem nil (opened : Nat) (log : List Envelope) : Reads opened log [] opened false where
  unbroken := trivial
  place := rfl
  told e he := by cases he
  finals e he := by cases he
  last h := by cases h

theorem mono (h : Reads opened log items n ended) (more : List Envelope) :
    Reads opened (log ++ more) items n ended :=
  { h with told := fun e he => List.mem_append_left _ (h.told e he) }

theorem mark (h : Reads opened log items n false) (epoch : Nat) (hle : n ≤ m) :
    Reads opened log (items ++ [.resync epoch m]) m false := by
  have hold : ∀ e, .event e ∈ items ++ [.resync epoch m] → .event e ∈ items := by
    intro e hmem
    refine (List.mem_append.mp hmem).resolve_right fun hmem => ?_
    cases List.mem_singleton.mp hmem
  refine ⟨?_, ?_, fun e hmem => h.told e (hold e hmem), fun e hmem => h.finals e (hold e hmem),
    fun hn => (by cases hn)⟩
  · refine StreamItem.unbroken_append.mpr ⟨h.unbroken, ?_, trivial⟩
    show StreamItem.placeAfter opened items ≤ m
    rw [h.place]
    exact hle
  · rw [StreamItem.placeAfter_append]
    rfl

theorem events (h : Reads opened log items n false) {new : List Envelope}
    (hrow : ∀ i e, new[i]? = some e → e.seq = n + i + 1) (htold : ∀ e ∈ new, e ∈ log) :
    Reads opened log (items ++ (uptoFinal new).map .event)
      (StreamItem.placeAfter n ((uptoFinal new).map .event))
      ((uptoFinal new).any Envelope.isFinal) := by
  have hold : ∀ e, .event e ∈ items ++ (uptoFinal new).map .event →
      .event e ∈ items ∨ e ∈ uptoFinal new := by
    intro e hmem
    refine (List.mem_append.mp hmem).imp_right fun hmem => ?_
    obtain ⟨a, ha, hae⟩ := List.mem_map.mp hmem
    cases hae
    exact ha
  refine ⟨?_, ?_, ?_, ?_, ?_⟩
  · refine StreamItem.unbroken_append.mpr ⟨h.unbroken, ?_⟩
    rw [h.place]
    exact (StreamItem.unbroken_uptoFinal hrow).1
  · rw [StreamItem.placeAfter_append, h.place]
  · intro e hmem
    rcases hold e hmem with hmem | hmem
    · exact h.told e hmem
    · exact htold e ((uptoFinal_isPrefix new).subset hmem)
  · intro e hmem hf
    rcases hold e hmem with hmem | hmem
    · cases h.finals e hmem hf
    · exact List.any_eq_true.mpr ⟨e, hmem, hf⟩
  · intro hy
    obtain ⟨e, hl, hf⟩ := last_uptoFinal hy
    refine ⟨e, ?_, hf⟩
    rw [List.getLast?_append, List.getLast?_map, hl]
    rfl

end Reads

structure Sound (c opened : Nat) (backlog : List StreamItem) (sent : List Envelope)
    (rest : List StreamItem) (s : Subscription) : Prop where
  logged : s.pane.speaker.Logged (sent ++ s.unsent)
  live : s.live = .window c sent
  next : s.follower.next ≤ sent.length
  behind : s.errand = none → s.follower.ending = false →
    min s.follower.next wordMax ≤ s.follower.lastSeq
  known : s.follower.lastSeq ≤ s.pane.lastSeq
  waiting : s.errand.isSome = true →
    s.follower.running = true ∧ s.follower.inHand = [] ∧ s.follower.ending = false
  stream : s.stream = backlog ++ rest
  reads : Reads opened (sent ++ s.unsent) rest s.follower.lastSeq s.follower.ending
  stopped : s.follower.running = false → s.follower.ending = true ∧ s.follower.inHand = []

namespace Sound

variable {c opened : Nat} {backlog rest : List StreamItem} {sent : List Envelope}
  {s s' : Subscription}

theorem lastSeq_eq (h : s.Sound c opened backlog sent rest) :
    s.pane.lastSeq = min (sent.length + s.unsent.length) wordMax := by
  have := h.logged.last
  rw [List.length_append] at this
  exact this

theorem perform (h : s.Sound c opened backlog sent rest) (op : Pane.Operation) :
    (s.perform op).Sound c opened backlog (sent ++ s.unsent) rest := by
  have hlogged := h.logged.tells (s.pane.sound_perform op)
  have hlast : (s.perform op).pane.lastSeq =
      min (sent ++ s.unsent ++ (s.perform op).unsent).length wordMax := hlogged.last
  have hold := h.lastSeq_eq
  refine { h with logged := hlogged, live := ?_, next := ?_, known := ?_, reads := h.reads.mono _ }
  · show s.unsent.foldl Ring.send s.live = _
    rw [h.live, Ring.foldl_send_window]
  · rw [List.length_append]
    exact Nat.le_trans h.next (Nat.le_add_right _ _)
  · refine Nat.le_trans h.known ?_
    rw [hlast, hold, List.length_append, List.length_append]
    omega

theorem send (h : s.Sound c opened backlog sent rest) :
    ∃ more, s.send.Sound c opened backlog (sent ++ more) rest ∧
      more ++ s.send.unsent = s.unsent := by
  cases hu : s.unsent with
  | nil =>
    have hs : s.send = s := by simp [Subscription.send, hu]
    rw [hs]
    exact ⟨[], (List.append_nil sent).symm ▸ h, hu⟩
  | cons e more =>
    have hs : s.send = { s with unsent := more, live := s.live.send e } := by
      simp [Subscription.send, hu]
    have hlogged := h.logged
    have hreads := h.reads
    rw [hu, List.append_cons] at hlogged hreads
    rw [hs]
    refine ⟨[e], { h with logged := hlogged, live := ?_, next := ?_, reads := hreads }, rfl⟩
    · show s.live.send e = _
      rw [h.live, Ring.send_window]
    · rw [List.length_append]
      exact Nat.le_trans h.next (Nat.le_add_right _ _)

theorem read (h : s.Sound c opened backlog sent rest) (count : Nat) :
    (s.read count).Sound c opened backlog sent rest :=
  { h with stream := (s.stream_read count).trans h.stream }

theorem lag (h : s.Sound c opened backlog sent rest)
    (ho : s.follower.overtaken s.live = true) : s.lag.Sound c opened backlog sent rest := by
  obtain ⟨hr, hhand, hend, -⟩ := overtaken_iff.mp ho
  refine { h with next := ?_, behind := ?_, waiting := fun _ => ⟨hr, hhand, hend⟩ }
  · show s.live.oldest ≤ sent.length
    rw [h.live, Ring.oldest_window]
    omega
  · intro he
    cases he

theorem gap (h : s.Sound c opened backlog sent rest) (he : s.errand.isSome = true) (epoch : Nat) :
    Sound c opened backlog sent rest { s with errand := some (.mark epoch) } :=
  { h with
    behind := fun hn => by cases hn
    waiting := fun _ => h.waiting he }

theorem mark (h : s.Sound c opened backlog sent rest) {epoch : Nat}
    (he : s.errand = some (.mark epoch)) :
    (s.mark epoch).Sound c opened backlog sent (rest ++ [.resync epoch s.pane.lastSeq]) := by
  obtain ⟨hr, hhand, hend⟩ := h.waiting (by rw [he]; rfl)
  have hlast := h.lastSeq_eq
  have hnext := h.next
  have hreads := h.reads
  rw [hend] at hreads
  have hmarked : Reads opened (sent ++ s.unsent) (rest ++ [.resync epoch s.pane.lastSeq])
      s.pane.lastSeq s.follower.ending := hend ▸ hreads.mark epoch h.known
  have hadded : (s.mark epoch).stream = s.stream ++ [.resync epoch s.pane.lastSeq] :=
    stream_of_hand hhand rfl rfl
  refine { h with
    behind := fun _ _ => ?_
    known := Nat.le_refl _
    waiting := fun hn => by cases hn
    stream := ?_
    reads := hmarked
    stopped := fun hn => ?_ }
  · show min s.follower.next wordMax ≤ s.pane.lastSeq
    omega
  · rw [hadded, h.stream, List.append_assoc]
  · exact absurd (hr.symm.trans hn) (by decide)

theorem take (h : s.Sound c opened backlog sent rest) (hr : s.follower.running = true)
    (hhand : s.follower.inHand = []) (hend : s.follower.ending = false) {next : Nat}
    {es new : List Envelope} (hnew : es.filter (s.follower.lastSeq < ·.seq) = new)
    (hrow : ∀ i e, new[i]? = some e → e.seq = s.follower.lastSeq + i + 1)
    (htold : ∀ e ∈ new, e ∈ sent ++ s.unsent)
    (hknown : s.follower.lastSeq + new.length ≤ s.pane.lastSeq) (hnext : next ≤ sent.length)
    (hbehind : min next wordMax ≤ s.follower.lastSeq + new.length) :
    ∃ rest, Sound c opened backlog sent rest
      { s with follower := { s.follower with next }.take es, errand := none } := by
  have hfollower : { s.follower with next }.take es =
      { s.follower with
        next
        inHand := (uptoFinal new).map .event
        lastSeq := StreamItem.placeAfter s.follower.lastSeq ((uptoFinal new).map .event)
        ending := (uptoFinal new).any Envelope.isFinal } := by
    rw [StreamItem.placeAfter_events, ← hnew]
    rfl
  have hreads := h.reads
  rw [hend] at hreads
  have hadded : s.taken ++ s.follower.queue ++ (uptoFinal new).map .event =
      s.stream ++ (uptoFinal new).map .event := by
    rw [Subscription.stream, hhand, List.append_nil]
  rw [hfollower]
  refine ⟨rest ++ (uptoFinal new).map .event, { h with
    next := hnext
    behind := fun _ hopen => ?_
    known := Nat.le_trans (StreamItem.unbroken_uptoFinal hrow).2 hknown
    waiting := fun hn => by cases hn
    stream := ?_
    reads := hreads.events hrow htold
    stopped := fun hn => absurd (hr.symm.trans hn) (by decide) }⟩
  · show min next wordMax ≤ StreamItem.placeAfter s.follower.lastSeq ((uptoFinal new).map .event)
    rw [uptoFinal_eq_self hopen, (StreamItem.unbroken_events hrow).2]
    exact hbehind
  · exact hadded.trans (by rw [h.stream, List.append_assoc])

theorem look (h : s.Sound c opened backlog sent rest) (he : s.errand = some .refill)
    (hu : s.unsent = []) : ∃ rest, s.look.Sound c opened backlog sent rest := by
  have hsent : s.errand.isSome = true := by rw [he]; rfl
  obtain ⟨hr, hhand, hend⟩ := h.waiting hsent
  have hlast := h.lastSeq_eq
  have hknown := h.known
  have hnext := h.next
  rw [hu, List.length_nil, Nat.add_zero] at hlast
  have hlogged := h.logged
  rw [hu, List.append_nil] at hlogged
  simp only [Subscription.look, ReplayBuffer.replayFrom]
  by_cases hepoch : s.follower.epoch ≠ s.pane.replay.epoch
  · rw [if_pos hepoch]
    exact ⟨rest, h.gap hsent _⟩
  rw [if_neg hepoch, ReplayBuffer.replay]
  by_cases hlost : s.follower.lastSeq < s.pane.replay.evictedThrough
  · rw [if_pos hlost]
    exact ⟨rest, h.gap hsent _⟩
  rw [if_neg hlost]
  have hafter : s.pane.replay.after s.follower.lastSeq =
      (sent.take wordMax).drop s.follower.lastSeq :=
    hlogged.after_history (Nat.le_of_not_lt hlost)
  have hfilter : (s.pane.replay.after s.follower.lastSeq).filter (s.follower.lastSeq < ·.seq) =
      (sent.take wordMax).drop s.follower.lastSeq := by
    rw [← hafter, List.filter_eq_self]
    intro a ha
    simpa using (ReplayBuffer.mem_after.mp ha).2
  have hlength : ((sent.take wordMax).drop s.follower.lastSeq).length =
      s.pane.lastSeq - s.follower.lastSeq := by
    rw [List.length_drop, List.length_take, hlast, Nat.min_comm]
  refine h.take hr hhand hend hfilter ?_ ?_ ?_ hnext ?_
  · intro i e hi
    rw [List.getElem?_drop] at hi
    exact hlogged.numbered_history hi
  · intro e hmem
    exact List.mem_append_left _ (List.mem_of_mem_take (List.mem_of_mem_drop hmem))
  · rw [hlength]
    omega
  · rw [hlength]
    show min s.follower.next wordMax ≤ _
    omega

theorem receive (h : s.Sound c opened backlog sent rest) (he : s.errand = none)
    (hr : s.follower.running = true) (hhand : s.follower.inHand = [])
    (hend : s.follower.ending = false) {e : Envelope} {next : Nat}
    (hm : s.live.receive s.follower.next = (.message e, next)) :
    ∃ rest, Sound c opened backlog sent rest
      { s with follower := { s.follower with next }.take [e] } := by
  rw [h.live] at hm
  obtain ⟨hget, rfl⟩ := Ring.message_of_receive hm
  have hlt := (List.getElem?_eq_some_iff.mp hget).1
  have hseq : e.seq = min (s.follower.next + 1) wordMax :=
    h.logged.numbered _ _ (by rw [List.getElem?_append_left hlt, hget])
  have hlast := h.lastSeq_eq
  have hbehind := h.behind he hend
  have hknown := h.known
  have hsame : ({ s with follower := { s.follower with next := s.follower.next + 1 }.take [e] } :
      Subscription) =
        { s with
          follower := { s.follower with next := s.follower.next + 1 }.take [e]
          errand := none } := by
    rw [← he]
  rw [hsame]
  -- The envelope may be one that a refill or a mark has covered before it was received.
  by_cases hnew : s.follower.lastSeq < e.seq
  · have hfilter : [e].filter (s.follower.lastSeq < ·.seq) = [e] := by simp [hnew]
    refine h.take hr hhand hend hfilter ?_ ?_ ?_ (by omega) ?_
    · intro i a ha
      cases i with
      | zero =>
        cases ha
        omega
      | succ i => cases ha
    · intro a ha
      rw [List.mem_singleton.mp ha]
      exact List.mem_append_left _ (List.mem_of_getElem? hget)
    · rw [List.length_singleton]
      omega
    · rw [List.length_singleton]
      omega
  · have hfilter : [e].filter (s.follower.lastSeq < ·.seq) = [] := by simp [hnew]
    refine h.take hr hhand hend hfilter ?_ ?_ ?_ (by omega) ?_
    · intro i a ha
      cases ha
    · intro a ha
      cases ha
    · exact hknown
    · rw [List.length_nil]
      omega

theorem stream_move? (h : s.Sound c opened backlog sent rest) (hm : s.move? = some s') :
    ∃ items, s'.stream = s.stream ++ items ∧
      ((∃ es : List Envelope, items = es.map .event) ∨
        ∃ epoch, s.errand = some (.mark epoch) ∧ items = [.resync epoch s.pane.lastSeq]) := by
  rcases move?_cases hm with ⟨he, hu, rfl⟩ | ⟨epoch, he, hu, rfl⟩ | ⟨he, ho, rfl⟩ |
    ⟨he, ho, f, hf, rfl⟩
  · obtain ⟨-, hhand, -⟩ := h.waiting (by rw [he]; rfl)
    simp only [Subscription.look]
    split
    · exact ⟨_, stream_of_hand hhand rfl rfl, .inl ⟨_, rfl⟩⟩
    · exact ⟨[], (List.append_nil _).symm, .inl ⟨[], rfl⟩⟩
  · obtain ⟨-, hhand, -⟩ := h.waiting (by rw [he]; rfl)
    exact ⟨_, stream_of_hand hhand rfl rfl, .inr ⟨epoch, he, rfl⟩⟩
  · exact ⟨[], (List.append_nil _).symm, .inl ⟨[], rfl⟩⟩
  obtain ⟨-, ⟨item, items, hhand, rfl⟩ | ⟨-, -, rfl⟩ | ⟨hhand, -, e, next, -, rfl⟩⟩ :=
    step?_cases hf ho
  · refine ⟨[], ?_, .inl ⟨[], rfl⟩⟩
    simp [Subscription.stream, hhand]
  · exact ⟨[], (List.append_nil _).symm, .inl ⟨[], rfl⟩⟩
  · exact ⟨_, stream_of_hand hhand rfl rfl, .inl ⟨_, rfl⟩⟩

theorem move (h : s.Sound c opened backlog sent rest) (hm : s.move? = some s') :
    ∃ rest, s'.Sound c opened backlog sent rest := by
  rcases move?_cases hm with ⟨he, hu, rfl⟩ | ⟨epoch, he, hu, rfl⟩ | ⟨he, ho, rfl⟩ |
    ⟨he, ho, f, hf, rfl⟩
  · exact h.look he hu
  · exact ⟨_, h.mark he⟩
  · exact ⟨_, h.lag ho⟩
  obtain ⟨hr, ⟨item, items, hhand, rfl⟩ | ⟨hhand, hend, rfl⟩ | ⟨hhand, hend, e, next, hget, rfl⟩⟩ :=
    step?_cases hf ho
  · refine ⟨rest, { h with waiting := ?_, stream := ?_, stopped := ?_ }⟩
    · intro hw
      rw [show ({ s with follower := _ } : Subscription).errand = s.errand from rfl, he] at hw
      cases hw
    · rw [← h.stream]
      simp [Subscription.stream, hhand]
    · exact fun hn => absurd (hr.symm.trans hn) (by decide)
  · refine ⟨rest, { h with waiting := ?_, stopped := fun _ => ⟨hend, hhand⟩ }⟩
    intro hw
    rw [show ({ s with follower := _ } : Subscription).errand = s.errand from rfl, he] at hw
    cases hw
  · exact h.receive he hr hhand hend hget

theorem step (h : s.Sound c opened backlog sent rest) (st : Step) :
    ∃ sent' rest', (s.step st).Sound c opened backlog sent' rest' ∧
      sent' ++ (s.step st).unsent = sent ++ s.unsent ++ s.pane.told st.operation?.toList := by
  cases st with
  | perform op =>
    refine ⟨_, _, h.perform op, ?_⟩
    simp [Subscription.step, Subscription.perform, Step.operation?, Pane.told]
  | send =>
    obtain ⟨more, hs, hu⟩ := h.send
    refine ⟨_, _, hs, ?_⟩
    simp [Subscription.step, Step.operation?, Pane.told, hu]
  | move =>
    cases hm : s.move? with
    | none =>
      simp only [Subscription.step, hm]
      exact ⟨sent, rest, h, by simp [Step.operation?, Pane.told]⟩
    | some next =>
      obtain ⟨rest, hs⟩ := h.move hm
      simp only [Subscription.step, hm]
      exact ⟨sent, rest, hs, by simp [Step.operation?, Pane.told, (pane_move? hm).2.1]⟩
  | read count =>
    refine ⟨_, _, h.read count, ?_⟩
    simp [Subscription.step, Subscription.read, Step.operation?, Pane.told]

theorem run (h : s.Sound c opened backlog sent rest) (steps : List Step) :
    ∃ sent' rest', (s.run steps).Sound c opened backlog sent' rest' ∧
      sent' ++ (s.run steps).unsent = sent ++ s.unsent ++ s.pane.told (operations steps) := by
  induction steps generalizing s sent rest with
  | nil => exact ⟨sent, rest, h, by simp [Subscription.run, operations, Pane.told]⟩
  | cons st steps ih =>
    obtain ⟨sent', rest', hs, hu⟩ := h.step st
    obtain ⟨sent'', rest'', hs', hu'⟩ := ih hs
    refine ⟨sent'', rest'', hs', ?_⟩
    rw [show s.run (st :: steps) = (s.step st).run steps from rfl, hu', hu, List.append_assoc,
      operations_cons, Pane.told_append, pane_step]

theorem open_ {l : LivePane} {log : List Envelope} (hl : l.live = .window c log)
    (hlog : l.pane.speaker.Logged log) (ho : l.pane.state.isTerminal = false)
    (from_ : Option Nat) :
    (Subscription.open_ l from_).Sound c l.pane.lastSeq (Follower.backlog l.pane from_) log [] := by
  have hf : Follower.open_ l.pane l.live from_ =
      ⟨l.pane.epoch, l.pane.lastSeq, l.live.sent, Follower.backlog l.pane from_, false, [],
        true⟩ := by
    simp [Follower.open_, ho]
  have hsent : l.live.sent = log.length := congrArg Ring.sent hl
  simp only [Subscription.open_, hf]
  refine
    { logged := ?_
      live := hl
      next := Nat.le_of_eq hsent
      behind := fun _ _ => ?_
      known := Nat.le_refl _
      waiting := fun hn => by cases hn
      stream := by simp [Subscription.stream]
      reads := .nil _ _
      stopped := fun hn => by cases hn }
  · rw [List.append_nil]
    exact hlog
  · rw [hsent]
    exact Nat.le_of_eq hlog.last.symm

end Sound

theorem unbroken_backlog {p : Pane} {log : List Envelope} (h : p.speaker.Logged log)
    {from_ : Option Nat} (hf : ∀ n, from_ = some n → n ≤ p.lastSeq) :
    StreamItem.Unbroken (from_.getD p.lastSeq) (Follower.backlog p from_) ∧
      StreamItem.placeAfter (from_.getD p.lastSeq) (Follower.backlog p from_) = p.lastSeq ∧
      ∀ e, .event e ∈ Follower.backlog p from_ → e ∈ log := by
  cases from_ with
  | none => exact ⟨trivial, rfl, fun e he => by cases he⟩
  | some n =>
    have hn : n ≤ p.lastSeq := hf n rfl
    have hlast : p.lastSeq = min log.length wordMax := h.last
    simp only [Follower.backlog, Option.getD_some, ReplayBuffer.replay]
    by_cases hlost : n < p.replay.evictedThrough
    · rw [if_pos hlost]
      refine ⟨⟨hn, trivial⟩, rfl, ?_⟩
      intro e he
      cases List.mem_singleton.mp he
    · rw [if_neg hlost]
      have hafter : p.replay.after n = (log.take wordMax).drop n :=
        h.after_history (Nat.le_of_not_lt hlost)
      have hrow : ∀ i e, ((log.take wordMax).drop n)[i]? = some e → e.seq = n + i + 1 := by
        intro i e hi
        rw [List.getElem?_drop] at hi
        exact h.numbered_history hi
      obtain ⟨hrest, hplace⟩ := StreamItem.unbroken_events hrow
      simp only [hafter]
      refine ⟨hrest, ?_, ?_⟩
      · rw [hplace, List.length_drop, List.length_take]
        omega
      · intro e he
        obtain ⟨a, ha, hae⟩ := List.mem_map.mp he
        cases hae
        exact List.mem_of_mem_take (List.mem_of_mem_drop ha)

theorem stream_of_stopped {s : Subscription} (hr : s.follower.running = false)
    (he : s.errand = none) (steps : List Step) :
    (s.run steps).stream = s.stream ∧ (s.run steps).follower.running = false ∧
      (s.run steps).follower.inHand = s.follower.inHand := by
  induction steps generalizing s with
  | nil => exact ⟨rfl, hr, rfl⟩
  | cons st steps ih =>
    have hstep : (s.step st).stream = s.stream ∧ (s.step st).follower.running = false ∧
        (s.step st).follower.inHand = s.follower.inHand ∧ (s.step st).errand = none := by
      cases st with
      | perform op => exact ⟨rfl, hr, rfl, he⟩
      | send =>
        simp only [step, send]
        split <;> exact ⟨rfl, hr, rfl, he⟩
      | move =>
        have hm : s.move? = none := by
          simp [move?, he, Follower.overtaken, Follower.step?, hr]
        simp only [step, hm]
        exact ⟨rfl, hr, rfl, he⟩
      | read count => exact ⟨s.stream_read count, hr, rfl, he⟩
    obtain ⟨hs, hr', hi, he'⟩ := hstep
    obtain ⟨hs', hr'', hi'⟩ := ih hr' he'
    exact ⟨hs'.trans hs, hr'', hi'.trans hi⟩

theorem logged_performAll (id : PaneId) (backend : Backend) (metadata : Metadata)
    (capabilities : Capabilities) (epoch capacity : Nat) (before : List Pane.Operation) :
    let p := Pane.create id backend metadata capabilities epoch capacity
    let l := (LivePane.create p).performAll before
    l.pane = p.performAll before ∧ l.pane.speaker.Logged (p.told before) ∧
      l.live = .window (Ring.sizeFor (max capacity 1)) (p.told before) := by
  intro p l
  obtain ⟨hpane, hlive⟩ := LivePane.performAll_window (LivePane.live_create p) before
  refine ⟨hpane, ?_, hlive⟩
  rw [show l.pane = p.performAll before from hpane]
  exact (Pane.logged_create id backend metadata capabilities epoch capacity).tells
    (p.tells_performAll before)

theorem open_of_over {l : LivePane} (ho : l.pane.state.isTerminal = true) (from_ : Option Nat) :
    (open_ l from_).follower.running = false ∧
      (open_ l from_).stream = Follower.backlog l.pane from_ ∧
      (open_ l from_).follower.inHand = [] := by
  simp [open_, Follower.open_, Subscription.stream, ho]

/-- A reader that asks for what comes after a number the pane has told gets the events from there
on, one after the other, or marks in place of those it does not get. A pane that has ended hands
out what is left of its history at once. -/
theorem stream_unbroken (id : PaneId) (backend : Backend) (metadata : Metadata)
    (capabilities : Capabilities) (epoch capacity : Nat) (before : List Pane.Operation)
    (from_ : Option Nat) (steps : List Step) :
    let p := Pane.create id backend metadata capabilities epoch capacity
    let l := (LivePane.create p).performAll before
    let s := (open_ l from_).run steps
    (∀ n, from_ = some n → n ≤ l.pane.lastSeq) →
      StreamItem.Unbroken (from_.getD l.pane.lastSeq) s.stream ∧
      (∀ e, .event e ∈ s.stream → e ∈ p.told (before ++ operations steps)) ∧
      (l.pane.state.isTerminal = true →
        let whole := match from_.map l.pane.replay.replay with
          | none => []
          | some (.events es) => es.map .event
          | some (.gap ..) => [.resync l.pane.epoch l.pane.lastSeq]
        s.stream = whole ∧ s.follower.inHand = [] ∧
          (s.follower.ended = true ↔ s.taken = whole)) := by
  intro p l s hfrom
  obtain ⟨hpane, hlog, hlive⟩ :=
    logged_performAll id backend metadata capabilities epoch capacity before
  obtain ⟨hback, hplace, hmem⟩ := unbroken_backlog hlog hfrom
  by_cases ho : l.pane.state.isTerminal = true
  · obtain ⟨hr, hstream, hhand⟩ := open_of_over ho from_
    obtain ⟨hs, hr', hh⟩ := stream_of_stopped hr rfl steps
    have hwhole : s.stream = Follower.backlog l.pane from_ := hs.trans hstream
    have hempty : s.follower.inHand = [] := hh.trans hhand
    refine ⟨hwhole ▸ hback, ?_, fun _ => ?_⟩
    · intro e he
      rw [hwhole] at he
      rw [Pane.told_append]
      exact List.mem_append_left _ (hmem e he)
    · have hbacklog : Follower.backlog l.pane from_ = match from_.map l.pane.replay.replay with
          | none => []
          | some (.events es) => es.map .event
          | some (.gap ..) => [.resync l.pane.epoch l.pane.lastSeq] := by
        cases from_ with
        | none => rfl
        | some n =>
          simp only [Follower.backlog, Option.map_some]
          cases l.pane.replay.replay n <;> rfl
      refine ⟨hwhole.trans hbacklog, hempty, ?_⟩
      rw [← hbacklog, ← hwhole, Subscription.stream, hempty, List.append_nil]
      have hstopped : s.follower.running = false := hr'
      simp [Follower.ended, hstopped]
  · have hopen : l.pane.state.isTerminal = false := Bool.eq_false_iff.mpr ho
    obtain ⟨sent, rest, hsound, htold⟩ := (Sound.open_ hlive hlog hopen from_).run steps
    refine ⟨?_, ?_, fun h => absurd h ho⟩
    · rw [hsound.stream]
      refine StreamItem.unbroken_append.mpr ⟨hback, ?_⟩
      rw [hplace]
      exact hsound.reads.unbroken
    · intro e he
      rw [hsound.stream] at he
      rw [Pane.told_append, ← hpane]
      rcases List.mem_append.mp he with he | he
      · exact List.mem_append_left _ (hmem e he)
      · have hin := hsound.reads.told e he
        rw [htold] at hin
        simpa [open_] using hin

def clear : Pane.Operation := .handle ⟨⟨"c1"⟩, none, ⟨"p1"⟩, .terminal .clear, 0⟩ 0

def outrun : List Step :=
  [.perform clear, .send, .move, .move, .move,
    .perform clear, .send, .perform clear, .send, .perform clear, .send, .move, .move,
    .perform clear, .send, .move, .read 3, .perform clear, .send, .move, .move, .move]

def terminal (capacity : Nat) : Pane :=
  .create ⟨"p1"⟩ (.create ⟨"p1"⟩ .terminal) ⟨none, none, none, none⟩ (.ofKind .terminal) 0 capacity

theorem stream_unbroken_outrun :
    let l := (LivePane.create (terminal 2)).performAll [.start 0]
    1 ≤ l.pane.lastSeq ∧
      ((open_ l (some 1)).run outrun).stream.map StreamItem.place = [2, 3, 7, 8] ∧
      StreamItem.Unbroken 1 ((open_ l (some 1)).run outrun).stream := by
  have hfrom : 1 ≤ ((LivePane.create (terminal 2)).performAll [.start 0]).pane.lastSeq := by
    decide +kernel
  have hplaces : ((open_ ((LivePane.create (terminal 2)).performAll [.start 0]) (some 1)).run
      outrun).stream.map StreamItem.place = [2, 3, 7, 8] := by decide +kernel
  obtain ⟨hunbroken, -⟩ := stream_unbroken ⟨"p1"⟩ (.create ⟨"p1"⟩ .terminal)
    ⟨none, none, none, none⟩ (.ofKind .terminal) 0 2 [.start 0] (some 1) outrun
    fun n hn => Option.some.inj hn ▸ hfrom
  exact ⟨hfrom, hplaces, hunbroken⟩

end Subscription

end Switchboard
