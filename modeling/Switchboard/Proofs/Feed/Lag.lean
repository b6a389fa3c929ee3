import Switchboard.Proofs.Feed.Recovery

/-!
# The pursuit of the file system

The file system puts what it tells into its history and then on the bus, between what panes tell.
The projection feed takes from the bus what is there, learns that it was overtaken, refills some
time later, and at last takes all that is left. However these steps are mixed, and however small the
bus and the history are, nobody can tell from the projection that the feed ever was overtaken, as
long as nothing was gone from the history that was new to the feed; and whenever something was, it
asks for everything to be told again.
-/
namespace Switchboard

/-- The bus, the history of the file system, and the feed that follows it. -/
structure Pursuit where
  bus : Ring Envelope
  history : ReplayBuffer
  waiting : List Envelope
  published : List Envelope
  feed : Feed
  /-- The feed has learned that it was overtaken, and has not refilled yet. -/
  behind : Bool
  asked : Nat

namespace Pursuit

inductive Step where
  | keep (e : Envelope)
  | publish
  | tell (e : Envelope)
  | receive
  | refill (others : List ReplayBuffer)
  | drain (others : List ReplayBuffer)

def start (p : Projection) (busCapacity historyCapacity : Nat) : Pursuit where
  bus := .create busCapacity
  history := .create .filesystem historyCapacity
  waiting := []
  published := []
  feed := ⟨p, .start, 0, false⟩
  behind := false
  asked := 0

def keep (r : Pursuit) (e : Envelope) : Pursuit :=
  { r with history := r.history.push e, waiting := r.waiting ++ [e] }

def tell (r : Pursuit) (e : Envelope) : Pursuit :=
  { r with bus := r.bus.send e, published := r.published ++ [e] }

def publish (r : Pursuit) : Pursuit :=
  match r.waiting with
  | [] => r
  | e :: rest => { r.tell e with waiting := rest }

def take (r : Pursuit) (next : Nat) : Ring.Received Envelope → Pursuit
  | .empty => r
  | .message e => { r with feed := { r.feed.accept e with next } }
  | .lagged _ => { r with feed := { r.feed with next }, behind := true }

def receive (r : Pursuit) : Pursuit :=
  if r.behind then r
  else
    let (received, next) := r.bus.receive r.feed.next
    r.take next received

def ask (r : Pursuit) : Pursuit :=
  if r.feed.wantsResync then
    { r with feed := { r.feed with wantsResync := false }, asked := r.asked + 1 }
  else r

def refill (r : Pursuit) (others : List ReplayBuffer) : Pursuit :=
  if r.behind then
    ask { r with feed := r.feed.recover (r.history :: others), behind := false }
  else r

def drain (r : Pursuit) (others : List ReplayBuffer) : Pursuit :=
  let r := r.refill others
  ask { r with feed := r.feed.drain r.bus (r.history :: others) }

def step (r : Pursuit) : Step → Pursuit
  | .keep e => r.keep e
  | .publish => r.publish
  | .tell e => r.tell e
  | .receive => r.receive
  | .refill others => r.refill others
  | .drain others => r.drain others

def run (r : Pursuit) (steps : List Step) : Pursuit := steps.foldl step r

def told (r : Pursuit) : List Envelope := toldBy .filesystem r.published ++ r.waiting

/-- Something is gone from the history that is new to the feed. -/
def Evicted (r : Pursuit) : Prop :=
  ∃ e ∈ r.told, r.feed.cursor.isNew e = true ∧ e ∉ r.history.entries

/-- In the step the feed refills, and something it has not seen is gone. -/
def Misses (r : Pursuit) : Step → Prop
  | .refill _ => r.behind = true ∧ r.Evicted
  | .drain _ => (r.behind = true ∨ r.feed.next < r.bus.oldest) ∧ r.Evicted
  | _ => False

instance (r : Pursuit) : Decidable r.Evicted := inferInstanceAs (Decidable (∃ e ∈ _, _))

instance (r : Pursuit) : ∀ x : Step, Decidable (r.Misses x)
  | .refill _ => inferInstanceAs (Decidable (_ ∧ _))
  | .drain _ => inferInstanceAs (Decidable (_ ∧ _))
  | .keep _ => inferInstanceAs (Decidable False)
  | .publish => inferInstanceAs (Decidable False)
  | .tell _ => inferInstanceAs (Decidable False)
  | .receive => inferInstanceAs (Decidable False)

def EverMisses (r : Pursuit) : List Step → Prop
  | [] => False
  | x :: rest => r.Misses x ∨ (r.step x).EverMisses rest

instance EverMisses.decide : ∀ (r : Pursuit) (steps : List Step), Decidable (r.EverMisses steps)
  | _, [] => inferInstanceAs (Decidable False)
  | r, x :: rest =>
    have := EverMisses.decide (r.step x) rest
    inferInstanceAs (Decidable (_ ∨ _))

def Step.kept? : Step → Option Envelope
  | .keep e => some e
  | _ => none

def kept (steps : List Step) : List Envelope := steps.filterMap Step.kept?

def Step.Lawful (epoch : Nat) : Step → Prop
  | .keep e => e.source = .filesystem ∧ e.epoch = epoch ∧ 1 ≤ e.seq
  | .tell e => e.source ≠ .filesystem
  | .refill others => ∀ b ∈ others, b.IsForeign
  | .drain others => ∀ b ∈ others, b.IsForeign
  | _ => True

instance (epoch : Nat) : ∀ x : Step, Decidable (x.Lawful epoch)
  | .keep _ => inferInstanceAs (Decidable (_ ∧ _))
  | .tell _ => inferInstanceAs (Decidable (_ ≠ _))
  | .refill _ => inferInstanceAs (Decidable (∀ b ∈ _, _))
  | .drain _ => inferInstanceAs (Decidable (∀ b ∈ _, _))
  | .publish => inferInstanceAs (Decidable True)
  | .receive => inferInstanceAs (Decidable True)

structure Lawful (epoch : Nat) (steps : List Step) : Prop where
  each : ∀ x ∈ steps, x.Lawful epoch
  grows : (kept steps).Pairwise fun a b => a.seq < b.seq

theorem receive_eq {r : Pursuit} (hb : r.behind = false) {x : Ring.Received Envelope} {next : Nat}
    (h : r.bus.receive r.feed.next = (x, next)) : r.receive = r.take next x := by
  simp only [receive, h]
  exact if_neg (Bool.eq_false_iff.mp hb)

theorem told_tell (r : Pursuit) {e : Envelope} (hs : e.source ≠ .filesystem) :
    (r.tell e).told = r.told := by
  have hnone : toldBy .filesystem [e] = [] := toldBy_cons_of_ne hs []
  show toldBy .filesystem (r.published ++ [e]) ++ r.waiting = _
  rw [toldBy_append, hnone, List.append_nil]
  rfl

theorem ask_eq (r : Pursuit) : r.ask = { r with
    feed := { r.feed with wantsResync := false }
    asked := r.asked + if r.feed.wantsResync = true then 1 else 0 } := by
  simp only [ask]
  split
  · rfl
  · next h =>
    rw [← Bool.eq_false_iff.mpr h]
    rfl

def files (epoch capacity : Nat) : Voice := ⟨.filesystem, epoch, capacity⟩

structure Sound (v : Voice) (size : Nat) (p : Projection) (r : Pursuit) : Prop where
  bus : r.bus = .window size r.published
  history : r.history = v.history r.told
  ordered : Ordered r.told
  own : ∀ e ∈ r.told, e.source = .filesystem ∧ v.owns e = true
  place : r.feed.next ≤ r.published.length
  calm : r.feed.wantsResync = false
  stands : ∃ n, r.feed.Stands r.told p (r.asked = 0) n ∧ (r.behind = false →
    (toldBy .filesystem (r.published.take r.feed.next)).length ≤ n)

def AsksIf (r r' : Pursuit) (lost : Prop) : Prop :=
  (lost → r'.asked = r.asked + 1) ∧ (¬ lost → r'.asked = r.asked)

namespace Sound

variable {v : Voice} {size epoch capacity : Nat} {p : Projection} {r : Pursuit} {e : Envelope}
  {others : List ReplayBuffer}

theorem start (v : Voice) (hv : v.source = .filesystem) (p : Projection) (busCapacity : Nat) :
    Sound v (Ring.sizeFor busCapacity) p (.start p busCapacity v.capacity) where
  bus := Ring.create_eq_window busCapacity
  history := by
    show ReplayBuffer.create .filesystem v.capacity = .create v.source v.capacity
    rw [hv]
  ordered := .nil
  own _ he := nomatch he
  place := Nat.le_refl 0
  calm := rfl
  stands := ⟨0, ⟨Nat.le_refl 0, rfl, fun _ => rfl⟩, fun _ => Nat.le_refl 0⟩

theorem keep (h : Sound (files epoch capacity) size p r)
    (he : e.source = .filesystem ∧ e.epoch = epoch ∧ 1 ≤ e.seq)
    (hnew : ∀ a ∈ r.told, a.seq < e.seq) : Sound (files epoch capacity) size p (r.keep e) := by
  obtain ⟨hs, hepoch, hpos⟩ := he
  have ht : (r.keep e).told = r.told ++ [e] := (List.append_assoc _ _ _).symm
  have hown : (files epoch capacity).owns e = true := decide_eq_true ⟨hs, hepoch⟩
  have hall : ∀ a ∈ r.told ++ [e],
      a.source = .filesystem ∧ (files epoch capacity).owns a = true := by
    intro a ha
    rcases List.mem_append.mp ha with ha | ha
    · exact h.own a ha
    · rw [List.mem_singleton.mp ha]
      exact ⟨hs, hown⟩
  refine ⟨h.bus, ?_, ?_, ht ▸ hall, h.place, h.calm, ?_⟩
  · rw [ht]
    show r.history.push e = _
    rw [h.history]
    simp only [Voice.history, Voice.spoken, List.filter_append, List.filter_cons_of_pos hown,
      List.filter_nil, List.foldl_append, List.foldl_cons, List.foldl_nil]
  · rw [ht]
    refine h.ordered.append ⟨List.pairwise_singleton _ _, by simpa using hpos⟩ ?_
    intro a ha b hb _
    rw [List.mem_singleton.mp hb, Stamp.before_iff]
    exact .inr ⟨(of_decide_eq_true (h.own a ha).2).2.trans hepoch.symm, hnew a ha⟩
  · obtain ⟨n, hst, hseen⟩ := h.stands
    exact ⟨n, ht ▸ hst.tell e, hseen⟩

theorem send (h : Sound v size p r) {waiting : List Envelope}
    (ht : told { r.tell e with waiting } = r.told) :
    Sound v size p { r.tell e with waiting } := by
  obtain ⟨n, hst, hseen⟩ := h.stands
  have htake : (r.published ++ [e]).take r.feed.next = r.published.take r.feed.next :=
    List.take_append_of_le_length h.place
  refine ⟨?_, ht ▸ h.history, ht ▸ h.ordered, ht ▸ h.own, ?_, h.calm, n, ht ▸ hst, ?_⟩
  · show r.bus.send e = _
    rw [h.bus, Ring.send_window]
    rfl
  · show _ ≤ (r.published ++ [e]).length
    rw [List.length_append]
    exact Nat.le_trans h.place (Nat.le_add_right _ _)
  · intro hb
    show (toldBy .filesystem ((r.published ++ [e]).take r.feed.next)).length ≤ n
    rw [htake]
    exact hseen hb

theorem publish (h : Sound v size p r) :
    Sound v size p r.publish ∧ r.publish.told = r.told := by
  simp only [Pursuit.publish]
  cases hw : r.waiting with
  | nil => exact ⟨h, rfl⟩
  | cons e rest =>
    have hs : e.source = .filesystem := by
      refine (h.own e (List.mem_append_right _ ?_)).1
      rw [hw]
      exact List.mem_cons_self
    have ht : told { r.tell e with waiting := rest } = r.told := by
      show toldBy .filesystem (r.published ++ [e]) ++ rest = toldBy .filesystem r.published ++ _
      rw [hw, toldBy_append, toldBy_cons_self hs, List.append_assoc]
      rfl
    exact ⟨h.send ht, ht⟩

theorem receive_message (h : Sound v size p r) (hb : r.behind = false)
    (hget : r.published[r.feed.next]? = some e) :
    Sound v size p { r with feed := { r.feed.accept e with next := r.feed.next + 1 } } := by
  obtain ⟨n, hst, hseen⟩ := h.stands
  obtain ⟨hlt, hat⟩ := List.getElem?_eq_some_iff.mp hget
  have hsplit : r.published.take (r.feed.next + 1) = r.published.take r.feed.next ++ [e] := by
    rw [List.take_add_one, hget]
    rfl
  have hparts : r.told = toldBy .filesystem (r.published.take r.feed.next) ++
      toldBy .filesystem [e] ++
        (toldBy .filesystem (r.published.drop (r.feed.next + 1)) ++ r.waiting) := by
    rw [← toldBy_append, ← hsplit, ← List.append_assoc, ← toldBy_append, List.take_append_drop]
    rfl
  have hnext := hst.acceptAll h.ordered (fun a ha => (h.own a ha).1) hparts (.inl (hseen hb))
  refine ⟨h.bus, h.history, h.ordered, h.own, hlt, ?_, _,
    (hnext.mono fun hw => ⟨hw, hseen hb⟩).congr rfl rfl, fun _ => ?_⟩
  · exact (r.feed.accept_frame e).2.trans h.calm
  · show (toldBy .filesystem (r.published.take (r.feed.next + 1))).length ≤ _
    rw [hsplit, toldBy_append, List.length_append]
    exact Nat.le_max_right _ _

theorem receive (h : Sound v size p r) :
    Sound v size p r.receive ∧ r.receive.told = r.told ∧ r.receive.asked = r.asked := by
  cases hb : r.behind with
  | true =>
    have hr : r.receive = r := if_pos hb
    rw [hr]
    exact ⟨h, rfl, rfl⟩
  | false =>
    by_cases hempty : r.published.length ≤ r.feed.next
    · have hreceived : r.bus.receive r.feed.next = (.empty, r.feed.next) := by
        rw [h.bus, Ring.receive_window_empty hempty]
      rw [receive_eq hb hreceived]
      exact ⟨h, rfl, rfl⟩
    by_cases hlag : r.feed.next < r.published.length - size
    · have hreceived : r.bus.receive r.feed.next = (.lagged (r.published.length - size -
          r.feed.next), r.published.length - size) := by
        rw [h.bus, Ring.receive_window_lagged hlag]
      obtain ⟨n, hst, -⟩ := h.stands
      rw [receive_eq hb hreceived]
      exact ⟨⟨h.bus, h.history, h.ordered, h.own, Nat.sub_le _ _, h.calm, n, hst.congr rfl rfl,
        fun hf => nomatch hf⟩, rfl, rfl⟩
    · have hget := List.getElem?_eq_getElem (Nat.lt_of_not_le hempty)
      have hreceived : r.bus.receive r.feed.next =
          (.message r.published[r.feed.next], r.feed.next + 1) := by
        rw [h.bus, Ring.receive_window_message hget (Nat.le_of_not_lt hlag)]
      rw [receive_eq hb hreceived]
      exact ⟨h.receive_message hb hget, rfl, rfl⟩

theorem evicted_iff (h : Sound v size p r) {whole : Prop} {n : Nat}
    (hst : r.feed.Stands r.told p whole n) : r.Evicted ↔ n < r.told.length - v.size := by
  have hspoken : v.spoken r.told = r.told :=
    List.filter_eq_self.mpr fun e he => (h.own e he).2
  have hentries : r.history.entries = r.told.drop (r.told.length - v.size) := by
    rw [h.history, v.entries_history h.ordered, Voice.kept, hspoken]
  have hs : ∀ e ∈ r.told, e.source = .filesystem := fun e he => (h.own e he).1
  rw [Evicted, hentries]
  constructor
  · rintro ⟨e, he, hn, hgone⟩
    obtain ⟨i, hi⟩ := List.getElem?_of_mem he
    have hni := (hst.isNew_iff h.ordered hs hi).mp hn
    by_contra hle
    have hkept : (r.told.drop (r.told.length - v.size))[i - (r.told.length - v.size)]? =
        some e := by
      rw [List.getElem?_drop, Nat.add_sub_of_le (by omega), hi]
    exact hgone (List.mem_of_getElem? hkept)
  · intro hlt
    have hget : r.told[n]? = some r.told[n] := List.getElem?_eq_getElem (by omega)
    refine ⟨_, List.mem_of_getElem? hget, (hst.isNew_iff h.ordered hs hget).mpr (Nat.le_refl n), ?_⟩
    have hold : r.told[n] ∈ r.told.take (r.told.length - v.size) := by
      refine List.mem_of_getElem? ((List.getElem?_take_of_lt hlt).trans hget)
    have hnodup := h.ordered.nodup
    rw [← List.take_append_drop (r.told.length - v.size) r.told] at hnodup
    exact fun hkept => (List.nodup_append.mp hnodup).2.2 _ hold _ hkept rfl

theorem ask (h : Sound v size p r) {g : Feed} {n : Nat}
    (hst : g.Stands r.told p (r.asked = 0 ∧ g.wantsResync = false) n)
    (hplace : g.next ≤ r.published.length)
    (hseen : (toldBy .filesystem (r.published.take g.next)).length ≤ n) :
    Sound v size p (ask { r with feed := g, behind := false }) ∧
      AsksIf r (Pursuit.ask { r with feed := g, behind := false }) (g.wantsResync = true) := by
  rw [ask_eq]
  refine ⟨⟨h.bus, h.history, h.ordered, h.own, hplace, rfl, n, ?_, fun _ => hseen⟩, ?_, ?_⟩
  · refine (hst.mono fun hnone => ?_).congr rfl rfl
    cases hw : g.wantsResync with
    | true =>
      simp only [hw, if_true] at hnone
      exact absurd hnone (Nat.succ_ne_zero _)
    | false =>
      simp only [hw, Bool.false_eq_true, if_false] at hnone
      exact ⟨hnone, rfl⟩
  · intro hw
    exact congrArg (r.asked + ·) (if_pos hw)
  · intro hw
    exact congrArg (r.asked + ·) (if_neg hw)

theorem refill (h : Sound v size p r) (hothers : ∀ b ∈ others, b.IsForeign) :
    Sound v size p (r.refill others) ∧ (r.refill others).told = r.told ∧
      (r.refill others).behind = false ∧
      AsksIf r (r.refill others) (r.behind = true ∧ r.Evicted) ∧
      (r.behind = true → ¬ (r.refill others).Evicted) := by
  cases hb : r.behind with
  | false =>
    have hr : r.refill others = r := if_neg (Bool.eq_false_iff.mp hb)
    rw [hr]
    exact ⟨h, rfl, hb, ⟨fun hl => (nomatch hl.1), fun _ => rfl⟩, fun hf => (nomatch hf)⟩
  | true =>
    have hr : r.refill others =
        Pursuit.ask { r with feed := r.feed.recover (r.history :: others), behind := false } :=
      if_pos hb
    obtain ⟨n, hst, -⟩ := h.stands
    obtain ⟨hst', hwants, hnext⟩ := hst.recover h.ordered (fun e he => (h.own e he).1)
      (fun e he => (h.own e he).2) hothers
    rw [← h.history] at hst' hwants hnext
    rw [h.calm, Bool.false_or] at hwants
    have hlost : (r.feed.recover (r.history :: others)).wantsResync = true ↔ r.Evicted := by
      rw [hwants, decide_eq_true_iff, h.evicted_iff hst]
    have hread : (toldBy .filesystem (r.published.take r.feed.next)).length ≤ r.told.length := by
      rw [told, List.length_append]
      exact Nat.le_add_right_of_le ((List.take_sublist _ _).filter _).length_le
    have hwhole := hst'.mono fun (hw : r.asked = 0 ∧ _ = false) =>
      ⟨hw.1, Nat.le_of_not_lt (of_decide_eq_false (hwants.symm.trans hw.2))⟩
    obtain ⟨hsound, hasks⟩ := h.ask hwhole (hnext.symm ▸ h.place) (hnext.symm ▸ hread)
    rw [← hr] at hsound hasks
    have hfeed : (r.refill others).feed =
        { r.feed.recover (r.history :: others) with wantsResync := false } := by rw [hr, ask_eq]
    have htold : (r.refill others).told = r.told := by
      rw [hr, ask_eq]
      rfl
    refine ⟨hsound, htold, by rw [hr, ask_eq], ?_, fun _ => ?_⟩
    · exact ⟨fun hl => hasks.1 (hlost.mpr hl.2), fun hn => hasks.2 fun hl => hn ⟨rfl, hlost.mp hl⟩⟩
    · have hend := hst'.congr (g := (r.refill others).feed) (by rw [hfeed]) (by rw [hfeed])
      rw [← htold] at hend
      rw [hsound.evicted_iff hend]
      omega

theorem drain (h : Sound v size p r) (hothers : ∀ b ∈ others, b.IsForeign) :
    Sound v size p (r.drain others) ∧ (r.drain others).told = r.told ∧
      (r.drain others).behind = false ∧
      (r.drain others).feed.next = (r.drain others).published.length ∧
      AsksIf r (r.drain others) (r.Misses (.drain others)) := by
  obtain ⟨hsound, htold, hbehind, hasks, hnone⟩ := h.refill hothers
  have hfirst : r.behind = false → r.refill others = r :=
    fun hb => if_neg (Bool.eq_false_iff.mp hb)
  simp only [Pursuit.drain]
  generalize r.refill others = q at hsound htold hbehind hasks hnone hfirst
  obtain ⟨n, hst, hseen⟩ := hsound.stands
  obtain ⟨⟨m, hst', hm⟩, hwants, hnext⟩ := hst.drain hsound.ordered
    (fun e he => (hsound.own e he).1) rfl (fun e he => (hsound.own e he).2) hothers size
    hsound.place (hseen hbehind)
  rw [← hsound.bus, ← hsound.history] at hst' hwants hnext
  rw [hsound.calm, Bool.false_or] at hwants
  have hlost : (q.feed.drain q.bus (q.history :: others)).wantsResync = true ↔
      q.feed.next < q.bus.oldest ∧ q.Evicted := by
    rw [hwants, decide_eq_true_iff, hsound.evicted_iff hst, hsound.bus, Ring.oldest_window]
  have hwhole := hst'.mono fun (hw : q.asked = 0 ∧ _ = false) =>
    ⟨hw.1, of_decide_eq_false (hwants.symm.trans hw.2)⟩
  have hread : (toldBy .filesystem (q.published.take
      (q.feed.drain q.bus (q.history :: others)).next)).length ≤ m := by
    rw [hnext, List.take_length]
    exact hm
  obtain ⟨hsound', hasks'⟩ := hsound.ask hwhole (Nat.le_of_eq hnext) hread
  have hq : { q with feed := q.feed.drain q.bus (q.history :: others), behind := false } =
      { q with feed := q.feed.drain q.bus (q.history :: others) } := by rw [hbehind]
  rw [hq] at hsound' hasks'
  refine ⟨hsound', ?_, ?_, ?_, ?_⟩
  · rw [ask_eq]
    exact htold
  · rw [ask_eq]
    exact hbehind
  · rw [ask_eq]
    exact hnext
  · show AsksIf r _ ((r.behind = true ∨ r.feed.next < r.bus.oldest) ∧ r.Evicted)
    cases hb : r.behind with
    | false =>
      obtain rfl := hfirst hb
      refine ⟨fun hl => hasks'.1 (hlost.mpr ⟨hl.1.resolve_left Bool.false_ne_true, hl.2⟩), ?_⟩
      exact fun hn => hasks'.2 fun hl => hn ⟨.inr (hlost.mp hl).1, (hlost.mp hl).2⟩
    | true =>
      -- the refill that was under way has left nothing for the drain to miss
      have hsame := hasks'.2 fun hl => hnone hb (hlost.mp hl).2
      refine ⟨fun hl => hsame.trans (hasks.1 ⟨hb, hl.2⟩), fun hn => hsame.trans (hasks.2 ?_)⟩
      exact fun hl => hn ⟨.inl rfl, hl.2⟩

theorem step (h : Sound (files epoch capacity) size p r) {x : Step} (hx : x.Lawful epoch)
    (hnew : ∀ e, x.kept? = some e → ∀ a ∈ r.told, a.seq < e.seq) :
    Sound (files epoch capacity) size p (r.step x) ∧
      (r.step x).told = r.told ++ x.kept?.toList ∧ AsksIf r (r.step x) (r.Misses x) := by
  have hquiet : ∀ {r' : Pursuit}, r'.asked = r.asked → AsksIf r r' False :=
    fun hr => ⟨False.elim, fun _ => hr⟩
  cases x with
  | keep e =>
    exact ⟨h.keep hx (hnew e rfl), (List.append_assoc _ _ _).symm, hquiet rfl⟩
  | publish =>
    obtain ⟨hsound, htold⟩ := h.publish
    refine ⟨hsound, htold.trans (List.append_nil _).symm, hquiet ?_⟩
    simp only [Pursuit.step, Pursuit.publish]
    split <;> rfl
  | tell e =>
    have htold := told_tell r hx
    exact ⟨h.send htold, htold.trans (List.append_nil _).symm, hquiet rfl⟩
  | receive =>
    obtain ⟨hsound, htold, hasked⟩ := h.receive
    exact ⟨hsound, htold.trans (List.append_nil _).symm, hquiet hasked⟩
  | refill others =>
    obtain ⟨hsound, htold, -, hasks, -⟩ := h.refill hx
    exact ⟨hsound, htold.trans (List.append_nil _).symm, hasks⟩
  | drain others =>
    obtain ⟨hsound, htold, -, -, hasks⟩ := h.drain hx
    exact ⟨hsound, htold.trans (List.append_nil _).symm, hasks⟩

/-- The invariant holds along every run, and as long as nothing is missed nobody is asked. -/
theorem run (h : Sound (files epoch capacity) size p r) {steps : List Step}
    (hsteps : ∀ x ∈ steps, x.Lawful epoch)
    (hgrows : (r.told ++ kept steps).Pairwise fun a b => a.seq < b.seq) :
    Sound (files epoch capacity) size p (r.run steps) ∧
      (r.run steps).told = r.told ++ kept steps ∧
      (¬ r.EverMisses steps → (r.run steps).asked = r.asked) := by
  induction steps generalizing r with
  | nil => exact ⟨h, (List.append_nil _).symm, fun _ => rfl⟩
  | cons x rest ih =>
    have hkept : kept (x :: rest) = x.kept?.toList ++ kept rest := by
      cases hk : x.kept? with
      | none => simp [kept, hk]
      | some e => simp [kept, hk]
    rw [hkept, ← List.append_assoc] at hgrows
    have hnew : ∀ e, x.kept? = some e → ∀ a ∈ r.told, a.seq < e.seq := by
      intro e he a ha
      rw [he] at hgrows
      exact (List.pairwise_append.mp (List.pairwise_append.mp hgrows).1).2.2 a ha e
        (List.mem_singleton.mpr rfl)
    obtain ⟨hsound, htold, hasks⟩ := h.step (hsteps x List.mem_cons_self) hnew
    rw [← htold] at hgrows
    obtain ⟨hsound', htold', hasked⟩ :=
      ih hsound (fun y hy => hsteps y (List.mem_cons_of_mem _ hy)) hgrows
    refine ⟨hsound', ?_, ?_⟩
    · rw [hkept, ← List.append_assoc, ← htold]
      exact htold'
    · intro hnone
      exact (hasked fun hm => hnone (.inr hm)).trans (hasks.2 fun hm => hnone (.inl hm))

end Sound

/-- However the steps are mixed, the file system is asked to tell everything again exactly when a
refill misses something. And if none does, then once everything is on the bus and the feed has taken
all that is left, it has applied all that the file system told, once and in order. -/
theorem lag_is_invisible (p : Projection) (busCapacity historyCapacity : Nat) {epoch : Nat}
    {steps : List Step} {others : List ReplayBuffer}
    (h : Lawful epoch (steps ++ [.drain others])) :
    let first := start p busCapacity historyCapacity
    let last := first.run (steps ++ [.drain others])
    (∀ before x after, steps ++ [.drain others] = before ++ x :: after →
      AsksIf (first.run before) (first.run (before ++ [x])) ((first.run before).Misses x)) ∧
    (last.waiting = [] → ¬ first.EverMisses (steps ++ [.drain others]) →
      last.feed.projection = p.applyEach (kept steps) ∧ last.asked = 0) := by
  intro first last
  have hfirst : Sound (files epoch historyCapacity) (Ring.sizeFor busCapacity) p first :=
    .start (files epoch historyCapacity) rfl p busCapacity
  have hbefore : ∀ before after, steps ++ [.drain others] = before ++ after →
      Sound (files epoch historyCapacity) (Ring.sizeFor busCapacity) p (first.run before) ∧
        (first.run before).told = kept before := by
    intro before after hsplit
    have hgrows := h.grows
    rw [hsplit, kept, List.filterMap_append] at hgrows
    obtain ⟨hsound, htold, -⟩ := hfirst.run
      (fun x hx => h.each x (hsplit ▸ List.mem_append_left _ hx)) (List.pairwise_append.mp hgrows).1
    exact ⟨hsound, htold⟩
  refine ⟨?_, ?_⟩
  · intro before x after hsplit
    obtain ⟨hsound, htold⟩ := hbefore before (x :: after) hsplit
    have hrun : first.run (before ++ [x]) = (first.run before).step x := List.foldl_append
    have hgrows := h.grows
    rw [hsplit, kept, List.filterMap_append] at hgrows
    have hx : x ∈ steps ++ [.drain others] :=
      hsplit ▸ List.mem_append_right _ List.mem_cons_self
    have hnew : ∀ e, x.kept? = some e → ∀ a ∈ (first.run before).told, a.seq < e.seq := by
      intro e he a ha
      rw [htold] at ha
      rw [List.filterMap_cons_some he] at hgrows
      exact (List.pairwise_append.mp hgrows).2.2 a ha e List.mem_cons_self
    exact hrun ▸ (hsound.step (h.each x hx) hnew).2.2
  · intro hwaiting hnone
    have hasked : last.asked = 0 := (hfirst.run h.each h.grows).2.2 hnone
    obtain ⟨hsound, htold⟩ := hbefore steps [.drain others] rfl
    have hlast : last = (first.run steps).drain others := List.foldl_append
    obtain ⟨hsound', htold', hbehind, hnext, -⟩ :=
      hsound.drain (h.each (.drain others) (List.mem_append_right _ (List.mem_singleton.mpr rfl)))
    rw [← hlast] at hsound' htold' hbehind hnext
    obtain ⟨n, hst, hseen⟩ := hsound'.stands
    have hall : (toldBy .filesystem last.published).length = last.told.length := by
      rw [told, hwaiting, List.append_nil]
    have hplace := hseen hbehind
    rw [hnext, List.take_length, hall] at hplace
    have happlied := hst.applied hasked
    rw [List.take_of_length_le hplace, htold', htold] at happlied
    exact ⟨happlied, hasked⟩

def bound : Projection := (Projection.create 8).bind ⟨"p1"⟩ ⟨"W1"⟩ none

def status (seq : Nat) (changed : UInt32) : Envelope :=
  ⟨.filesystem, some ⟨"W1"⟩, ⟨0, seq⟩, none, none, 0,
    .filesystem (.gitStatusChanged ⟨"W1"⟩ ⟨changed, 0, 0⟩)⟩

def ready : Envelope :=
  ⟨.pane ⟨"p1"⟩, none, ⟨0, 1⟩, none, none, 0, .lifecycle (.stateChanged .created .ready)⟩

def overrun : List Step :=
  [.keep (status 1 7), .publish, .keep (status 2 8), .publish, .keep (status 3 9), .tell ready,
    .publish, .receive, .keep (status 4 0),
    .refill [(ReplayBuffer.create (.pane ⟨"p1"⟩) 4).push ready], .receive, .receive, .publish]

theorem lag_is_invisible_overrun :
    Lawful 0 (overrun ++ [.drain []]) ∧
      ((start bound 2 4).run (overrun.take 8)).behind = true ∧
      ((start bound 2 4).run (overrun ++ [.drain []])).feed.projection =
        bound.applyEach (kept overrun) ∧
      ((start bound 2 4).run (overrun ++ [.drain []])).asked = 0 ∧
      ((start bound 2 3).run (overrun ++ [.drain []])).asked = 1 := by
  have hlawful : Lawful 0 (overrun ++ [.drain []]) := ⟨by decide +kernel, by decide +kernel⟩
  have hwaiting : ((start bound 2 4).run (overrun ++ [.drain []])).waiting = [] := by
    decide +kernel
  have hnone : ¬ (start bound 2 4).EverMisses (overrun ++ [.drain []]) := by decide +kernel
  obtain ⟨happlied, hasked⟩ := (lag_is_invisible bound 2 4 hlawful).2 hwaiting hnone
  exact ⟨hlawful, by decide +kernel, happlied, hasked, by decide +kernel⟩

end Pursuit

end Switchboard
