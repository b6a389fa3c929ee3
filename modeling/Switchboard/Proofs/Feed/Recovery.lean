import Switchboard.Feed
import Switchboard.Proofs.Intake
import Switchboard.Proofs.Projection.Views

/-!
# Following the file system

The projection feed reads the bus, on which the file system tells among others, and goes back to the
history of the file system when it was overtaken. What it has applied is always the first part of
what the file system told, each envelope once and in order, unless something was gone from the
history that was new to the feed; and exactly then it asks for everything to be told again.
-/
namespace Switchboard

theorem Source.isFilesystem_iff {source : Source} :
    source.isFilesystem = true ↔ source = .filesystem := by
  cases source with
  | pane id => exact ⟨fun h => (nomatch h), fun h => (nomatch h)⟩
  | system s => cases s with
    | filesystemWatcher => exact ⟨fun _ => rfl, fun _ => rfl⟩

theorem Projection.applyEach_concat (p : Projection) (es : List Envelope) (e : Envelope) :
    p.applyEach (es ++ [e]) = ((p.applyEach es).apply e).1 := List.foldl_append

def ReplayBuffer.IsForeign (b : ReplayBuffer) : Prop :=
  b.source ≠ .filesystem ∧ ∀ e ∈ b.entries, e.source ≠ .filesystem

instance (b : ReplayBuffer) : Decidable b.IsForeign := inferInstanceAs (Decidable (_ ∧ _))

namespace ReplayBuffer

theorem recover_cases (b : ReplayBuffer) (stamp : Option Stamp) :
    b.recover stamp = .nothing ∨ ∃ seq, b.recover stamp = b.recoverAfter seq := by
  simp only [recover]
  repeat' split
  · exact .inr ⟨_, rfl⟩
  · exact .inr ⟨_, rfl⟩
  · exact .inl rfl
  · exact .inr ⟨_, rfl⟩

theorem IsForeign.recover {b : ReplayBuffer} (h : b.IsForeign) (stamp : Option Stamp) :
    (∀ e ∈ (b.recover stamp).events, e.source ≠ .filesystem) ∧
      ∀ gap, (b.recover stamp).lost = some gap → gap.source ≠ .filesystem := by
  rcases b.recover_cases stamp with hr | ⟨seq, hr⟩ <;> rw [hr]
  · exact ⟨fun _ he => (nomatch he), fun _ hg => (nomatch hg)⟩
  · refine ⟨fun e he => h.2 e (mem_after.mp he).1, fun gap hg => ?_⟩
    simp only [recoverAfter] at hg
    split at hg
    · cases hg
      exact h.1
    · cases hg

end ReplayBuffer

namespace Feed

variable {f : Feed} {e : Envelope} {es : List Envelope}

theorem accept_of_ne (h : e.source ≠ .filesystem) : f.accept e = f := by
  have hnot : (!e.source.isFilesystem) = true := by
    rw [Bool.not_eq_true', Bool.eq_false_iff]
    exact fun ht => h (Source.isFilesystem_iff.mp ht)
  simp only [accept, if_pos hnot]

theorem accept_of_isNew (hs : e.source = .filesystem) (hn : f.cursor.isNew e = true) :
    f.accept e = { f with
      projection := (f.projection.apply e).1
      cursor := f.cursor.put e.source e.stamp } := by
  simp only [accept, Source.isFilesystem_iff.mpr hs, Cursor.advance_of_isNew hn, Bool.not_true,
    Bool.false_eq_true, if_false, if_true]

theorem accept_of_not_isNew (hn : ¬ f.cursor.isNew e = true) : f.accept e = f := by
  simp only [accept, Cursor.advance_of_not_isNew hn, Bool.false_eq_true, if_false, ite_self]

theorem accept_frame (f : Feed) (e : Envelope) :
    (f.accept e).next = f.next ∧ (f.accept e).wantsResync = f.wantsResync := by
  simp only [accept]
  repeat' split
  all_goals exact ⟨rfl, rfl⟩

theorem foldl_accept_frame (f : Feed) (es : List Envelope) :
    (es.foldl accept f).next = f.next ∧ (es.foldl accept f).wantsResync = f.wantsResync := by
  induction es generalizing f with
  | nil => exact ⟨rfl, rfl⟩
  | cons e rest ih =>
    obtain ⟨hnext, hwants⟩ := ih (f.accept e)
    exact ⟨hnext.trans (f.accept_frame e).1, hwants.trans (f.accept_frame e).2⟩

theorem foldl_accept_of_ne (h : ∀ e ∈ es, e.source ≠ .filesystem) : es.foldl accept f = f := by
  induction es with
  | nil => rfl
  | cons e rest ih =>
    rw [List.foldl_cons, accept_of_ne (h e List.mem_cons_self)]
    exact ih fun x hx => h x (List.mem_cons_of_mem _ hx)

theorem acceptRecovery_of_foreign {r : Recovery} (he : ∀ e ∈ r.events, e.source ≠ .filesystem)
    (hg : ∀ gap, r.lost = some gap → gap.source ≠ .filesystem) : f.acceptRecovery r = f := by
  rw [acceptRecovery, foldl_accept_of_ne he]
  cases hl : r.lost with
  | none => rfl
  | some gap =>
    have hnot : gap.source.isFilesystem = false :=
      Bool.eq_false_iff.mpr fun ht => hg gap hl (Source.isFilesystem_iff.mp ht)
    simp only [recordLoss, hnot, Bool.or_false]

theorem recover_cons (f : Feed) (b : ReplayBuffer) {others : List ReplayBuffer}
    (h : ∀ b ∈ others, b.IsForeign) :
    f.recover (b :: others) = f.acceptRecovery (b.recover (f.cursor.last? b.source)) := by
  have hrest : ∀ (c : Cursor) (g : Feed), (backfill others c).foldl acceptRecovery g = g := by
    intro c g
    induction others with
    | nil => rfl
    | cons o rest ih =>
      obtain ⟨he, hg⟩ := (h o List.mem_cons_self).recover (c.last? o.source)
      have hcons : backfill (o :: rest) c =
          o.recover (c.last? o.source) :: backfill rest c := rfl
      rw [hcons, List.foldl_cons, acceptRecovery_of_foreign he hg]
      exact ih fun b hb => h b (List.mem_cons_of_mem _ hb)
  exact hrest _ _

theorem recordLoss_map (f : Feed) {lost : Option Envelope}
    (h : ∀ e, lost = some e → e.source = .filesystem) :
    f.recordLoss (lost.map fun e => ⟨e.source, e.epoch, e.seq⟩) =
      { f with wantsResync := f.wantsResync || lost.isSome } := by
  cases lost with
  | none => simp [recordLoss]
  | some e => simp [recordLoss, Source.isFilesystem_iff.mpr (h e rfl)]

/-- The feed has gone past the first envelopes that the file system told. Unless something was lost
to it, these are what it has applied. -/
structure Stands (told : List Envelope) (p : Projection) (whole : Prop) (f : Feed) (n : Nat) :
    Prop where
  place : n ≤ told.length
  cursor : f.cursor.last? .filesystem = (told.take n).getLast?.map (·.stamp)
  applied : whole → f.projection = p.applyEach (told.take n)

namespace Stands

variable {told : List Envelope} {p : Projection} {whole : Prop} {n : Nat}

theorem mono (h : Stands told p whole f n) {whole' : Prop} (hw : whole' → whole) :
    Stands told p whole' f n := ⟨h.place, h.cursor, fun hw' => h.applied (hw hw')⟩

theorem isNew_iff (h : Stands told p whole f n) (hord : Ordered told)
    (hs : ∀ e ∈ told, e.source = .filesystem) {i : Nat} (hi : told[i]? = some e) :
    f.cursor.isNew e = true ↔ n ≤ i := by
  have he := List.mem_of_getElem? hi
  obtain ⟨hlt, rfl⟩ := List.getElem?_eq_some_iff.mp hi
  rw [Cursor.isNew_iff, hs _ he, h.cursor]
  cases n with
  | zero => simp
  | succ n =>
    have hn : n < told.length := h.place
    have hlast : (told.take (n + 1)).getLast? = some told[n] := by
      rw [List.take_add_one, List.getElem?_eq_getElem hn, Option.toList_some,
        List.getLast?_concat]
    have hpair := List.pairwise_iff_getElem.mp hord.grows
    have hsource : told[n].source = told[i].source :=
      (hs _ (List.getElem_mem hn)).trans (hs _ he).symm
    rw [hlast, Option.map_some]
    simp only [Option.some.injEq, forall_eq']
    constructor
    · intro hbefore
      by_contra hle
      rcases Nat.lt_or_eq_of_le (Nat.le_of_not_lt hle) with hgt | rfl
      · exact Stamp.before_asymm hbefore (hpair i n hlt hn hgt hsource.symm)
      · rw [Stamp.before_irrefl] at hbefore
        cases hbefore
    · intro hni
      exact hpair n i hn hlt hni hsource

theorem tell (h : Stands told p whole f n) (e : Envelope) : Stands (told ++ [e]) p whole f n := by
  have htake : (told ++ [e]).take n = told.take n := List.take_append_of_le_length h.place
  refine ⟨?_, ?_, ?_⟩
  · rw [List.length_append]
    exact Nat.le_trans h.place (Nat.le_add_right _ _)
  · rw [htake]
    exact h.cursor
  · rw [htake]
    exact h.applied

theorem congr (h : Stands told p whole f n) {g : Feed} (hp : g.projection = f.projection)
    (hc : g.cursor = f.cursor) : Stands told p whole g n :=
  ⟨h.place, hc ▸ h.cursor, hp ▸ h.applied⟩

section Accept

variable (hord : Ordered told) (hs : ∀ e ∈ told, e.source = .filesystem)

include hord hs

theorem accept (h : Stands told p whole f n) {front behind : List Envelope}
    (ht : told = front ++ e :: behind) :
    Stands told p (whole ∧ front.length ≤ n) (f.accept e) (max n (front.length + 1)) := by
  have hget : told[front.length]? = some e := by
    rw [ht, List.getElem?_append_right (Nat.le_refl _), Nat.sub_self]
    rfl
  have hnew := h.isNew_iff hord hs hget
  by_cases hle : n ≤ front.length
  · have hlen := (List.getElem?_eq_some_iff.mp hget).1
    have htake : told.take (front.length + 1) = front ++ [e] := by
      rw [List.take_add_one, hget, Option.toList_some, ht, List.take_left]
    have hsource : e.source = .filesystem := hs e (List.mem_of_getElem? hget)
    rw [accept_of_isNew hsource (hnew.mpr hle), Nat.max_eq_right (by omega)]
    refine ⟨hlen, ?_, ?_⟩
    · rw [htake, List.getLast?_concat, hsource]
      exact (Cursor.last?_put ..).trans (if_pos rfl)
    · rintro ⟨hwhole, hge⟩
      obtain rfl : n = front.length := Nat.le_antisymm hle hge
      have hfront : told.take front.length = front := by
        rw [ht, List.take_left]
      rw [htake, p.applyEach_concat, ← hfront, ← h.applied hwhole]
  · rw [accept_of_not_isNew fun hn => hle (hnew.mp hn), Nat.max_eq_left (by omega)]
    exact h.mono And.left

theorem acceptAll (h : Stands told p whole f n) {front behind : List Envelope}
    (ht : told = front ++ toldBy .filesystem es ++ behind)
    (hplace : front.length ≤ n ∨ toldBy .filesystem es ≠ []) :
    Stands told p (whole ∧ front.length ≤ n) (es.foldl Feed.accept f)
      (max n (front.length + (toldBy .filesystem es).length)) := by
  induction es generalizing f front whole n with
  | nil =>
    have hle : front.length ≤ n := hplace.resolve_right fun hne => hne rfl
    have hmax : max n (front.length + (toldBy .filesystem []).length) = n := Nat.max_eq_left hle
    rw [hmax]
    exact h.mono And.left
  | cons e rest ih =>
    rw [List.foldl_cons]
    by_cases hsource : e.source = .filesystem
    · rw [toldBy_cons_self hsource] at ht ⊢
      have hfirst : told = front ++ e :: (toldBy .filesystem rest ++ behind) := by
        rw [ht, List.append_assoc, List.cons_append]
      have hsecond : told = front ++ [e] ++ toldBy .filesystem rest ++ behind := by
        rw [hfirst, List.append_assoc, List.append_assoc, List.singleton_append]
      have hlen : (front ++ [e]).length = front.length + 1 := List.length_append
      have hrest := ih (h.accept hord hs hfirst) hsecond
        (.inl (hlen ▸ Nat.le_max_right _ _))
      rw [hlen] at hrest
      have hmax : max (max n (front.length + 1))
          (front.length + 1 + (toldBy .filesystem rest).length) =
            max n (front.length + (e :: toldBy .filesystem rest).length) := by
        rw [List.length_cons]
        omega
      rw [hmax] at hrest
      exact hrest.mono fun hw => ⟨hw, Nat.le_max_right _ _⟩
    · rw [accept_of_ne hsource]
      rw [toldBy_cons_of_ne hsource] at ht hplace ⊢
      exact ih h ht hplace

end Accept

section Refill

variable (hord : Ordered told) (hs : ∀ e ∈ told, e.source = .filesystem)

include hord hs

theorem filter_drop (h : Stands told p whole f n) {k : Nat} (hk : k ≤ told.length) :
    (told.drop k).filter f.cursor.isNew = told.drop (max n k) := by
  have hsplit : told.drop k = (told.take (max n k)).drop k ++ told.drop (max n k) := by
    conv_lhs => rw [← List.take_append_drop (max n k) told]
    refine List.drop_append_of_le_length ?_
    have := h.place
    rw [List.length_take]
    omega
  rw [hsplit, List.filter_append, List.filter_eq_nil_iff.mpr, List.nil_append,
    List.filter_eq_self.mpr]
  · intro e he
    obtain ⟨i, hi⟩ := List.getElem?_of_mem he
    rw [List.getElem?_drop] at hi
    exact (h.isNew_iff hord hs hi).mpr (Nat.le_trans (Nat.le_max_left n k) (Nat.le_add_right _ _))
  · intro e he hn
    obtain ⟨i, hi⟩ := List.getElem?_of_mem he
    rw [List.getElem?_drop] at hi
    have hlt := (List.getElem?_eq_some_iff.mp hi).1
    rw [List.length_take] at hlt
    rw [List.getElem?_take_of_lt (by omega)] at hi
    have := (h.isNew_iff hord hs hi).mp hn
    omega

theorem isSome_filter_take (h : Stands told p whole f n) {k : Nat} (hk : k ≤ told.length) :
    ((told.take k).getLast?.filter f.cursor.isNew).isSome = decide (n < k) := by
  cases k with
  | zero => rfl
  | succ k =>
    have hget : told[k]? = some told[k] := List.getElem?_eq_getElem hk
    have hnew := h.isNew_iff hord hs hget
    rw [List.take_add_one, hget, Option.toList_some, List.getLast?_concat]
    by_cases hle : n ≤ k
    · rw [Option.filter_some_pos (hnew.mpr hle), decide_eq_true (Nat.lt_succ_of_le hle)]
      rfl
    · rw [Option.filter_some_neg (Bool.eq_false_iff.mpr fun hn => hle (hnew.mp hn)),
        decide_eq_false (by omega)]
      rfl

/-- A refill brings the feed to the end of what was told. It misses what is gone from the history
and new to the feed, and wants it told again. -/
theorem recover (h : Stands told p whole f n) {v : Voice} (hown : ∀ e ∈ told, v.owns e = true)
    {others : List ReplayBuffer} (hothers : ∀ b ∈ others, b.IsForeign) :
    let g := f.recover (v.history told :: others)
    Stands told p (whole ∧ told.length - v.size ≤ n) g told.length ∧
      g.wantsResync = (f.wantsResync || decide (n < told.length - v.size)) ∧
      g.next = f.next := by
  intro g
  have hspoken : v.spoken told = told := List.filter_eq_self.mpr hown
  have hdropped : v.dropped told = told.take (told.length - v.size) := by
    rw [Voice.dropped, hspoken]
  have hkept : v.kept told = told.drop (told.length - v.size) := by
    rw [Voice.kept, hspoken]
  have hsize : 1 ≤ v.size := Nat.le_max_right _ _
  have hplace := h.place
  have hg : g = f.acceptRecovery ⟨told.drop (max n (told.length - v.size)),
      ((told.take (told.length - v.size)).getLast?.filter f.cursor.isNew).map
        fun e => ⟨e.source, e.epoch, e.seq⟩⟩ := by
    have hrecover := f.recover_cons (v.history told) hothers
    rw [v.source_history, v.recover_history hord, hkept, hdropped,
      h.filter_drop hord hs (Nat.sub_le ..)] at hrecover
    exact hrecover
  have hsome := h.isSome_filter_take hord hs (Nat.sub_le told.length v.size)
  have hlost : ∀ e, (told.take (told.length - v.size)).getLast?.filter f.cursor.isNew = some e →
      e.source = .filesystem := by
    intro e he
    exact hs e (List.mem_of_mem_take (List.mem_of_getLast? (Option.eq_some_of_filter_eq_some he)))
  rw [hg, acceptRecovery, recordLoss_map _ hlost, hsome]
  have hlast : told.length - v.size < told.length ∨ told.length ≤ n := by omega
  generalize told.length - v.size = k at hlast ⊢
  obtain ⟨hnext, hwants⟩ := f.foldl_accept_frame (told.drop (max n k))
  refine ⟨?_, congrArg (· || _) hwants, hnext⟩
  have hrest : toldBy .filesystem (told.drop (max n k)) = told.drop (max n k) :=
    toldBy_eq_self fun e he => hs e (List.mem_of_mem_drop he)
  have hparts : told = told.take (max n k) ++ toldBy .filesystem (told.drop (max n k)) ++ [] := by
    rw [hrest, List.take_append_drop, List.append_nil]
  have hall := h.acceptAll hord hs hparts (by
    rw [hrest, List.length_take, ← List.length_pos_iff, List.length_drop]
    omega)
  rw [hrest, List.length_take, List.length_drop] at hall
  have hend : max n (min (max n k) told.length + (told.length - max n k)) = told.length := by
    omega
  rw [hend] at hall
  exact (hall.mono fun hw => ⟨hw.1, by omega⟩).congr rfl rfl

end Refill

section Drain

variable (hord : Ordered told) (hs : ∀ e ∈ told, e.source = .filesystem)
  {published waiting : List Envelope} (ht : told = toldBy .filesystem published ++ waiting)

include hord hs ht

theorem acceptRest (h : Stands told p whole f n) {place : Nat}
    (hseen : (toldBy .filesystem (published.take place)).length ≤ n) :
    Stands told p whole ((published.drop place).foldl Feed.accept f)
      (max n (toldBy .filesystem published).length) := by
  have hsplit : toldBy .filesystem (published.take place) ++
      toldBy .filesystem (published.drop place) = toldBy .filesystem published := by
    rw [← toldBy_append, List.take_append_drop]
  have hparts : told = toldBy .filesystem (published.take place) ++
      toldBy .filesystem (published.drop place) ++ waiting := by rw [hsplit, ht]
  have hall := h.acceptAll hord hs hparts (.inl hseen)
  rw [← List.length_append, hsplit] at hall
  exact hall.mono fun hw => ⟨hw, hseen⟩

theorem drain (h : Stands told p whole f n) {v : Voice} (hown : ∀ e ∈ told, v.owns e = true)
    {others : List ReplayBuffer} (hothers : ∀ b ∈ others, b.IsForeign) (size : Nat)
    (hplace : f.next ≤ published.length)
    (hseen : (toldBy .filesystem (published.take f.next)).length ≤ n) :
    let g := f.drain (.window size published) (v.history told :: others)
    let lost := f.next < published.length - size ∧ n < told.length - v.size
    (∃ m, Stands told p (whole ∧ ¬ lost) g m ∧ (toldBy .filesystem published).length ≤ m) ∧
      g.wantsResync = (f.wantsResync || decide lost) ∧ g.next = published.length := by
  intro g lost
  have hmessages : ∀ (f : Feed) (es : List Envelope),
      (es.map Ring.Received.message).foldl (Feed.receive (v.history told :: others)) f =
        es.foldl Feed.accept f := fun f es => List.foldl_map
  have hnext : g.next = published.length := Nat.max_eq_right hplace
  by_cases hlag : f.next < published.length - size
  · obtain ⟨hstands, hwants, -⟩ := h.recover hord hs hown hothers
    have hg : g = { (published.drop (published.length - size)).foldl Feed.accept
        (f.recover (v.history told :: others)) with next := g.next } := by
      show Feed.drain .. = _
      rw [Feed.drain, Ring.outstanding_window_lagged hlag, List.foldl_cons, hmessages]
      rfl
    have htake : (toldBy .filesystem (published.take (published.length - size))).length ≤
        told.length := by
      rw [ht, List.length_append]
      exact Nat.le_add_right_of_le ((List.take_sublist _ _).filter _).length_le
    have hrest := hstands.acceptRest hord hs ht htake
    refine ⟨⟨_, ?_, Nat.le_max_right told.length _⟩, ?_, hnext⟩
    · rw [hg]
      refine (hrest.mono fun hw => ⟨hw.1, ?_⟩).congr rfl rfl
      exact Nat.le_of_not_lt fun hlt => hw.2 ⟨hlag, hlt⟩
    · have hlost : decide lost = decide (n < told.length - v.size) :=
        decide_eq_decide.mpr ⟨And.right, fun hlt => ⟨hlag, hlt⟩⟩
      rw [hg, hlost, ← hwants]
      exact (Feed.foldl_accept_frame _ _).2
  · have hg : g = { (published.drop f.next).foldl Feed.accept f with next := g.next } := by
      show Feed.drain .. = _
      rw [Feed.drain, Ring.outstanding_window (Nat.le_of_not_lt hlag), hmessages]
      rfl
    have hrest := h.acceptRest hord hs ht hseen
    refine ⟨⟨_, ?_, Nat.le_max_right n _⟩, ?_, hnext⟩
    · rw [hg]
      exact (hrest.mono And.left).congr rfl rfl
    · rw [decide_eq_false fun hl => hlag hl.1, Bool.or_false, hg]
      exact (Feed.foldl_accept_frame _ _).2

end Drain

end Stands

end Feed

end Switchboard
