import Mdswp.Link.Safety

/-!
# First-in first-out channels

While no copy is delivered after one that was sent later (`InOrder`), whatever arrives is recent:
the receiver has nothing more than a window beyond a segment that arrives, and at most what is in
flight has been issued after the number of an acknowledgement that arrives (`Link.Fifo`). This
decides which of them are accepted.

* A segment is accepted while the distance from `lower_bound` to `window` is below 246
  (`along_segmentAccepted`). The distance stays at most 10 while no delivery releases a whole
  window at distance 10; after such a delivery `lower_bound` never moves again, and the distance
  grows until segments are rejected (`wholeWindow_rejected`).
* An acknowledgement is accepted exactly when fewer than `WINDOW_SIZE - 1` numbers have been issued
  after the one it carries (`along_ackAccepted_iff`).
-/

namespace Mdswp

open Serial

variable {o : Opening} {l l' : Link} {e : LinkEvent}

/-- The first position that is ever sent. -/
def Opening.start : Opening → ℕ
  | byLocal _ => 1
  | byPeer _ _ => 0

theorem Opening.start_le_of_content {accepted : List SequentialSegment} {p : ℕ}
    {segment : SequentialSegment} (h : o.content accepted p = some segment) : o.start ≤ p := by
  cases o with
  | byLocal n =>
    cases p with
    | zero => cases h
    | succ p => exact Nat.le_add_left 1 p
  | byPeer n t => exact Nat.zero_le p

/-- What holds, in addition, while the channels keep the order. -/
structure Link.Fifo (o : Opening) (l : Link) : Prop where
  inv : l.Inv o
  copies_lt : l.copies.Pairwise fun c d => c.pos < d.pos + 10
  acks_le : l.acks.Pairwise fun a b => a.pos ≤ b.pos
  /-- What the receiver holds ends less than a window beyond whatever may still arrive. -/
  recent : ∃ top ≤ l.issued, Receives o l.accepted top l.released l.receiver ∧
    ∀ i c, l.copyCursor ≤ i → l.copies[i]? = some c → top < c.pos + 10
  /-- What was issued after an acknowledgement that may still arrive is in flight. -/
  acks_recent : ∀ i a, l.ackCursor ≤ i → l.acks[i]? = some a →
    l.issued ≤ a.pos + l.sender.queueSent.length
  /-- The lower bound is where it was at the start, or a window or more behind. -/
  lowerBound : 10 ≤ l.receiver.dist ∨ l.released + 1 = l.receiver.dist + o.start

theorem Opening.fifo (o : Opening) : o.link.Fifo o := by
  refine ⟨o.inv, ?_, .nil, ⟨0, le_rfl, o.inv.receives, fun i c _ hi => ?_⟩, fun i a _ => nofun,
    .inr ?_⟩
  · cases o with
    | byLocal n => exact .nil
    | byPeer n t => exact List.pairwise_singleton _ _
  · omega
  · cases o with
    | byLocal n => simp [link, Link.released, receiver, RecvStorage.dist, RecvStorage.newByPeer,
        start]
    | byPeer n t => simp [link, Link.released, receiver, RecvStorage.dist,
        RecvStorage.newByLocal, start]

namespace Link.Fifo

theorem timely (h : l.Fifo o) (he : InOrder l e) : Timely l e := by
  have hlen := h.inv.sends.length_le
  have hle := h.inv.issued_le
  cases e with
  | deliver i =>
    intro c hi
    obtain ⟨top, -, hrec, hrecent⟩ := h.recent
    have := hrecent i c he hi
    have := hrec.released_le
    omega
  | deliverAck i =>
    intro a hi
    have := h.acks_recent i a he hi
    omega
  | push _ _ => trivial
  | pop _ _ => trivial
  | popAcknowledge _ _ => trivial
  | read => trivial

end Link.Fifo

/-! ## Every step in order keeps the invariant -/

theorem rel_of_getElem? {α : Type*} {R : α → α → Prop} {xs : List α} (h : xs.Pairwise R)
    {i j : ℕ} {a b : α} (hij : i < j) (hi : xs[i]? = some a) (hj : xs[j]? = some b) : R a b := by
  obtain ⟨hi', rfl⟩ := List.getElem?_eq_some_iff.1 hi
  obtain ⟨hj', rfl⟩ := List.getElem?_eq_some_iff.1 hj
  exact List.pairwise_iff_getElem.1 h i j hi' hj' hij

theorem getElem?_append_cases {α : Type*} {xs ys : List α} {i : ℕ} {a : α}
    (h : (xs ++ ys)[i]? = some a) : xs[i]? = some a ∨ a ∈ ys := by
  rw [List.getElem?_append] at h
  split at h
  · exact .inl h
  · exact .inr (List.mem_of_getElem? h)

/-- The lower bound after a delivery. -/
theorem Delivers.lowerBound {accepted : List SequentialSegment} {top released pos k start : ℕ}
    {r r' : RecvStorage} (hd : Delivers o accepted top released r pos k r')
    (h : 10 ≤ r.dist ∨ released + 1 = r.dist + start) :
    10 ≤ r'.dist ∨ released + k + 1 = r'.dist + start := by
  rcases hd.slid with ⟨rfl, -, hdist⟩ | ⟨-, -, -, -, hdist⟩
  · rwa [hdist]
  · rw [hdist, RecvStorage.deleted]
    split_ifs <;> omega

namespace Link.Fifo

theorem delivered (h : l.Fifo o) {i : ℕ} (he : l.copyCursor ≤ i) {c : Copy}
    (hi : l.copies[i]? = some c) {r : RecvStorage}
    (hr : l.receiver.recv c.seqNum c.segment = .ok (.ok (), r)) :
    ∃ k top, top ≤ l.issued ∧ Delivers o l.accepted top l.released l.receiver c.pos k r ∧
      ∀ j d, l.copyCursor ≤ j → l.copies[j]? = some d → top < d.pos + 10 := by
  obtain ⟨top, htop, hrec, hrecent⟩ := h.recent
  obtain ⟨hpos, hnum, hc⟩ := h.inv.copies c (List.mem_of_getElem? hi)
  have hnear := hrecent i c he hi
  have hrel := hrec.released_le
  have hle := h.inv.issued_le
  have hlen := h.inv.sends.length_le
  rcases hrec.recv hc (by omega) (by omega) with ⟨err, hr'⟩ | ⟨k, r', hr', hd⟩
  · rw [← hnum, hr] at hr'
    cases hr'
  · rw [← hnum, hr] at hr'
    cases hr'
    exact ⟨k, top, htop, hd, hrecent⟩

theorem of_delivered (h : l.Fifo o) {i : ℕ} (he : l.copyCursor ≤ i) {c : Copy}
    (hi : l.copies[i]? = some c) {r : RecvStorage}
    (hr : l.receiver.recv c.seqNum c.segment = .ok (.ok (), r))
    (hinv : Inv o { l with receiver := r, copyCursor := max l.copyCursor i }) :
    Fifo o { l with receiver := r, copyCursor := max l.copyCursor i } := by
  obtain ⟨k, top, htop, hd, hrecent⟩ := h.delivered he hi hr
  obtain ⟨hpos, -, -⟩ := h.inv.copies c (List.mem_of_getElem? hi)
  have hlen := (h.inv.prefix_of_delivers htop hpos hd).2
  have hrec := hd.receives
  rw [← hlen] at hrec
  refine ⟨hinv, h.copies_lt, h.acks_le, ⟨_, max_le htop hpos, hrec, fun j d hj hdj => ?_⟩,
    h.acks_recent, ?_⟩
  · have hj' : i ≤ j := (le_max_right _ _).trans hj
    have := hrecent j d (he.trans hj') hdj
    have hcd : c.pos < d.pos + 10 := by
      rcases Nat.lt_or_eq_of_le hj' with hlt | rfl
      · exact rel_of_getElem? h.copies_lt hlt hi hdj
      · rw [hi] at hdj
        cases hdj
        omega
    exact max_lt this hcd
  · rw [released, hlen]
    exact hd.lowerBound h.lowerBound

theorem of_result (h : l.Fifo o) (he : InOrder l e) (hr : LinkResult o l e (.ok l')) :
    l'.Fifo o := by
  have hinv := h.inv.of_result hr
  cases hr with
  | unchanged => exact h
  | pushed segment hseg =>
    obtain ⟨top, htop, hrec, hrecent⟩ := h.recent
    exact ⟨hinv, h.copies_lt, h.acks_le, ⟨top, htop, hrec.append _, hrecent⟩, h.acks_recent,
      h.lowerBound⟩
  | sent t t' s issued c hs hle hlen hpos hlt hnext hnum hc =>
    obtain ⟨top, htop, hrec, hrecent⟩ := h.recent
    refine ⟨hinv, ?_, h.acks_le, ⟨top, htop.trans hle, hrec, fun i d hi hd => ?_⟩,
      fun i a hi ha => ?_, h.lowerBound⟩
    · refine List.pairwise_append.2 ⟨h.copies_lt, List.pairwise_singleton _ _, ?_⟩
      intro d hd d' hd'
      obtain rfl := List.mem_singleton.1 hd'
      obtain ⟨hdpos, -, -⟩ := h.inv.copies d hd
      omega
    · rcases getElem?_append_cases hd with hd | hd
      · exact hrecent i d hi hd
      · obtain rfl := List.mem_singleton.1 hd
        omega
    · have := h.acks_recent i a hi ha
      show issued ≤ a.pos + s.queueSent.length
      omega
  | delivered i c k r hi hrecv hd => exact h.of_delivered he hi hrecv hinv
  | acknowledges t t' as has =>
    obtain ⟨top, htop, hrec, hrecent⟩ := h.recent
    have hrel : (l.popped ++ (l.receiver.popAcknowledge t t').2.popQueue).length = l.released := by
      rw [RecvStorage.popAcknowledge_popQueue, released]
    have hdist : (l.receiver.popAcknowledge t t').2.dist = l.receiver.dist := by
      simp [RecvStorage.dist]
    refine ⟨hinv, h.copies_lt, ?_, ⟨top, htop, ?_, hrecent⟩, fun i a hi ha => ?_, ?_⟩
    · refine List.pairwise_append.2 ⟨h.acks_le, ?_, fun a ha b hb => ?_⟩
      · exact List.pairwise_iff_forall_sublist.2 fun {a b} hab => by
          rw [has a (hab.mem (by simp)), has b (hab.mem (by simp))]
      · rw [has b hb]
        exact (h.inv.acks a ha).1
    · rw [released, hrel]
      exact hrec.congr (by simp) (by simp) (by simp)
    · rcases getElem?_append_cases ha with ha | ha
      · exact h.acks_recent i a hi ha
      · rw [has a ha]
        exact h.inv.issued_le
    · rw [released, hrel, hdist]
      exact h.lowerBound
  | acked i a s hi hlt hs hlen =>
    refine ⟨hinv, h.copies_lt, h.acks_le, h.recent, fun j b hj hb => ?_, h.lowerBound⟩
    have hj' : i ≤ j := (le_max_right _ _).trans hj
    have := h.acks_recent j b (he.trans hj') hb
    have hab : a.pos ≤ b.pos := by
      rcases Nat.lt_or_eq_of_le hj' with hlt' | rfl
      · exact rel_of_getElem? h.acks_le hlt' hi hb
      · rw [hi] at hb
        cases hb
        exact le_rfl
    show l.issued ≤ b.pos + s.queueSent.length
    omega
  | reads segment rest hq =>
    obtain ⟨top, htop, hrec, hrecent⟩ := h.recent
    have hrel : (l.popped ++ [segment] ++ rest).length = l.released := by
      rw [List.append_assoc, List.singleton_append, ← hq, released]
    refine ⟨hinv, h.copies_lt, h.acks_le, ⟨top, htop, ?_, hrecent⟩, h.acks_recent, ?_⟩
    · rw [released, hrel]
      exact hrec.congr rfl rfl rfl
    · rw [released, hrel]
      exact h.lowerBound

theorem step (h : l.Fifo o) (he : InOrder l e) (hs : linkStep l e = .ok l') : l'.Fifo o :=
  h.of_result he (hs ▸ h.inv.linkStep_result (h.timely he))

end Link.Fifo

/-! ## Which segments are accepted -/

/-- If the step delivers a segment, `recv` accepts it. -/
def SegmentAccepted (l : Link) : LinkEvent → Prop
  | .deliver i => ∀ c ∈ l.copies[i]?, ∃ r,
      l.receiver.recv c.seqNum c.segment = .ok (.ok (), r)
  | _ => True

/-- If the step delivers a segment, the range of accepted numbers, from `lowerBound` to a window
beyond `window`, does not wrap around. -/
def RangeFits (l : Link) : LinkEvent → Prop
  | .deliver i => ∀ c ∈ l.copies[i]?, l.receiver.dist < 246
  | _ => True

/-- The step does not release a whole window, ten segments, at once while `lowerBound` is exactly
a window behind. -/
def NoWholeRelease (l : Link) : LinkEvent → Prop
  | .deliver i => ∀ c ∈ l.copies[i]?, c.seqNum = l.receiver.window → l.receiver.dist = 10 →
      ¬Filled l.receiver.segments (l.receiver.window + 1) 9
  | _ => True

instance (l : Link) : ∀ e, Decidable (RangeFits l e)
  | .deliver i => inferInstanceAs (Decidable (∀ c ∈ l.copies[i]?, l.receiver.dist < 246))
  | .push _ _ | .pop _ _ | .popAcknowledge _ _ | .deliverAck _ | .read => isTrue trivial

namespace Link.Fifo

theorem segmentAccepted (h : l.Fifo o) (he : InOrder l e) (hf : RangeFits l e) :
    SegmentAccepted l e := by
  cases e with
  | deliver i =>
    intro c hi
    obtain ⟨top, htop, hrec, hrecent⟩ := h.recent
    obtain ⟨hpos, hnum, hc⟩ := h.inv.copies c (List.mem_of_getElem? hi)
    have hnear := hrecent i c he hi
    have hstart := Opening.start_le_of_content hc
    have hlow := h.lowerBound
    have hrel := hrec.released_le
    have hle := h.inv.issued_le
    have hlen := h.inv.sends.length_le
    have hlt : l.receiver.dist < 246 := hf c hi
    have hlo : l.released < c.pos + l.receiver.dist := by omega
    have hoff := hrec.offset_eq hlo (by omega)
    rw [← hnum] at hoff
    have hres := hrec.bounded.recv_result c.seqNum c.segment
    generalize l.receiver.recv c.seqNum c.segment = out at hres
    cases hres with
    | outOfRange hacc =>
      rw [RecvStorage.accepts_iff_of_lt (by omega), hoff] at hacc
      omega
    | conflict expected hacc hs hne =>
      rw [hnum] at hs
      have := (hrec.present c.pos hlo (by omega) expected hs).2
      rw [hc] at this
      exact absurd (Option.some.inj this) hne
    | duplicate hacc hs => exact ⟨_, rfl⟩
    | buffered hacc hs hne => exact ⟨_, rfl⟩
    | slid k hn hacc hk hrun hret => exact ⟨_, rfl⟩
    | panicked k hn hacc hk hrun hret => exact absurd (hrec.retained.filled_deleted hk) hret
  | push _ _ => trivial
  | pop _ _ => trivial
  | popAcknowledge _ _ => trivial
  | deliverAck _ => trivial
  | read => trivial

/-- The distance stays at most a window while no whole window is released at once. -/
theorem dist_le_step (h : l.Fifo o) (he : InOrder l e) (hw : NoWholeRelease l e)
    (hd : l.receiver.dist ≤ 10) (hs : linkStep l e = .ok l') : l'.receiver.dist ≤ 10 := by
  have hr := h.inv.linkStep_result (h.timely he)
  rw [hs] at hr
  cases hr with
  | unchanged => exact hd
  | pushed => exact hd
  | sent => exact hd
  | delivered i c k r hi hrecv hdel =>
    obtain ⟨-, hnum, -⟩ := h.inv.copies c (List.mem_of_getElem? hi)
    show r.dist ≤ 10
    rcases hdel.slid with ⟨-, -, hdist⟩ | ⟨hwin, hk1, hk, hrun, hdist⟩
    · rwa [hdist]
    · have hnot : ¬(l.receiver.dist = 10 ∧ k = 10) := by
        rintro ⟨h10, rfl⟩
        exact hw c hi (hnum.trans hwin) h10 hrun.filled
      rw [hdist, RecvStorage.deleted]
      split_ifs <;> omega
  | acknowledges t t' as has => simpa [RecvStorage.dist] using hd
  | acked => exact hd
  | reads => exact hd

end Link.Fifo

theorem Opening.dist_le (o : Opening) : o.link.receiver.dist ≤ 10 := by
  have := o.inv.receives.dist_le
  have hrel : o.link.released = 0 := by cases o <;> rfl
  omega

/-- **An honest sender is not rejected** over first-in first-out channels in the runs in which the
range of accepted numbers never wraps around, and so in those in which no delivery releases a whole
window at once while the lower bound is exactly a window behind. -/
theorem along_segmentAccepted (o : Opening) {es : List LinkEvent}
    (he : Along linkStep InOrder o.link es) :
    (Along linkStep RangeFits o.link es → Along linkStep SegmentAccepted o.link es) ∧
      (Along linkStep NoWholeRelease o.link es → Along linkStep RangeFits o.link es) := by
  constructor
  · intro hf
    refine Along.of_invariant (Link.Fifo o) (fun l e h hs => h.segmentAccepted hs.1 hs.2)
      (fun l e l' h hs => h.step hs.1) o.fifo (along_and.2 ⟨he, hf⟩)
  · intro hw
    refine Along.of_invariant (fun l => l.Fifo o ∧ l.receiver.dist ≤ 10) (fun l e h hs => ?_)
      (fun l e l' h hs hst => ⟨h.1.step hs.1 hst, h.1.dist_le_step hs.1 hs.2 h.2 hst⟩)
      ⟨o.fifo, o.dist_le⟩ (along_and.2 ⟨he, hw⟩)
    cases e with
    | deliver i => exact fun c hi => by omega
    | push _ _ => trivial
    | pop _ _ => trivial
    | popAcknowledge _ _ => trivial
    | deliverAck _ => trivial
    | read => trivial

/-! ### A whole window at once -/

/-- The index of the copy that the event delivers. -/
def LinkEvent.copyIndex : LinkEvent → Option ℕ
  | .deliver i => some i
  | _ => none

def LinkEvent.ackIndex : LinkEvent → Option ℕ
  | .deliverAck i => some i
  | _ => none

theorem copyCursor_linkStep (h : linkStep l e = .ok l') :
    l'.copyCursor = (e.copyIndex.elim l.copyCursor (max l.copyCursor)) ∧
      l'.ackCursor = (e.ackIndex.elim l.ackCursor (max l.ackCursor)) := by
  unfold linkStep at h
  split at h <;> repeat' split at h
  all_goals cases h
  all_goals exact ⟨rfl, rfl⟩

/-- Events that deliver the copies in their order keep the order. -/
theorem along_inOrder {es : List LinkEvent} (l : Link)
    (hc : (l.copyCursor :: es.filterMap LinkEvent.copyIndex).IsChain (· ≤ ·))
    (ha : (l.ackCursor :: es.filterMap LinkEvent.ackIndex).IsChain (· ≤ ·)) :
    Along linkStep InOrder l es := by
  induction es generalizing l with
  | nil => trivial
  | cons e es ih =>
    have hstep : ∀ l', linkStep l e = .ok l' →
        l'.copyCursor = (e.copyIndex.elim l.copyCursor (max l.copyCursor)) ∧
          l'.ackCursor = (e.ackIndex.elim l.ackCursor (max l.ackCursor)) :=
      fun l' h => copyCursor_linkStep h
    cases e with
    | deliver i =>
      obtain ⟨hle, hc⟩ := List.isChain_cons_cons.1 hc
      refine ⟨hle, fun l' h => ih l' ?_ ?_⟩
      · rw [(hstep l' h).1]
        simpa [LinkEvent.copyIndex, max_eq_right hle] using hc
      · rw [(hstep l' h).2]
        exact ha
    | deliverAck i =>
      obtain ⟨hle, ha⟩ := List.isChain_cons_cons.1 ha
      refine ⟨hle, fun l' h => ih l' ?_ ?_⟩
      · rw [(hstep l' h).1]
        exact hc
      · rw [(hstep l' h).2]
        simpa [LinkEvent.ackIndex, max_eq_right hle] using ha
    | push _ _ => exact ⟨trivial, fun l' h => ih l' ((hstep l' h).1 ▸ hc) ((hstep l' h).2 ▸ ha)⟩
    | pop _ _ => exact ⟨trivial, fun l' h => ih l' ((hstep l' h).1 ▸ hc) ((hstep l' h).2 ▸ ha)⟩
    | popAcknowledge _ _ =>
      exact ⟨trivial, fun l' h => ih l' ((hstep l' h).1 ▸ hc) ((hstep l' h).2 ▸ ha)⟩
    | read => exact ⟨trivial, fun l' h => ih l' ((hstep l' h).1 ▸ hc) ((hstep l' h).2 ▸ ha)⟩

/-- `k` segments are pushed and sent. -/
def sends (k : ℕ) : List LinkEvent :=
  (List.range k).flatMap fun _ => [.push (.data (oneByte 1)) (data_ne_accept _), .pop 0 0]

/-- Ten segments are sent, and delivered as the copies from `i` on; the last one is acknowledged,
by the `j`-th acknowledgement. -/
def burst (i j : ℕ) : List LinkEvent :=
  sends 10 ++ (List.range 10).map (fun x => .deliver (i + x)) ++
    [.popAcknowledge connTimeout 0, .deliverAck j]

/-- A window is sent and delivered. Of the next one the first segment is lost at first, and releases
the whole window when it is sent again. Then follow `n` windows without a loss. -/
def wholeWindowRun (n : ℕ) : List LinkEvent :=
  burst 0 0 ++ sends 10 ++ (List.range 9).map (fun x => .deliver (11 + x)) ++
    [.pop connTimeout 0, .deliver 20, .popAcknowledge connTimeout 0, .deliverAck 1] ++
    (List.range n).flatMap fun x => burst (21 + 10 * x) (2 + x)

/-- After the whole window at once, three windows without a loss are accepted: the distance is then
50. -/
theorem segmentAccepted_wholeWindowRun :
    Along linkStep SegmentAccepted (Opening.byLocal 0).link (wholeWindowRun 3) := by
  have he : Along linkStep InOrder (Opening.byLocal 0).link (wholeWindowRun 3) :=
    along_inOrder _ (by decide +kernel) (by decide +kernel)
  have hf : Along linkStep RangeFits (Opening.byLocal 0).link (wholeWindowRun 3) := by
    decide +kernel
  exact (along_segmentAccepted (.byLocal 0) he).1 hf

/-- The 227th segment after the whole window at once is rejected. -/
theorem wholeWindow_rejected :
    Along linkStep InOrder (Opening.byLocal 0).link (wholeWindowRun 23) ∧
      run linkStep (Opening.byLocal 0).link (wholeWindowRun 23) =
        .error (.segmentRejected (connInvalidSeqNum 247 1 1)) :=
  ⟨along_inOrder _ (by decide +kernel) (by decide +kernel), by decide +kernel⟩

/-! ## Which acknowledgements are accepted -/

/-- If the step delivers an acknowledgement, the sender accepts it. -/
def AckAccepted (l : Link) : LinkEvent → Prop
  | .deliverAck i => ∀ a ∈ l.acks[i]?, ∃ s, l.sender.acknowledge a.ackNum = (.ok (), s)
  | _ => True

/-- If the step delivers an acknowledgement, at most 8 numbers have been issued after the one it
carries. -/
def FewIssuedAfter (l : Link) : LinkEvent → Prop
  | .deliverAck i => ∀ a ∈ l.acks[i]?, l.issued ≤ a.pos + 8
  | _ => True

instance (l : Link) : ∀ e, Decidable (FewIssuedAfter l e)
  | .deliverAck i => inferInstanceAs (Decidable (∀ a ∈ l.acks[i]?, l.issued ≤ a.pos + 8))
  | .push _ _ | .pop _ _ | .deliver _ | .popAcknowledge _ _ | .read => isTrue trivial

theorem Link.Fifo.ackAccepted_iff (h : l.Fifo o) (he : InOrder l e) :
    AckAccepted l e ↔ FewIssuedAfter l e := by
  cases e with
  | deliverAck i =>
    apply forall₂_congr
    intro a hi
    obtain ⟨hpos, hnum⟩ := h.inv.acks a (List.mem_of_getElem? hi)
    have hrecent := h.acks_recent i a he hi
    have hlen := h.inv.sends.length_le
    have hle := hpos.trans h.inv.released_le
    rw [hnum]
    rcases Nat.lt_or_ge l.issued (a.pos + 9) with hlt | hge
    · obtain ⟨s, hs, -⟩ := h.inv.sends.acknowledge_ok hle hlt
      exact iff_of_true ⟨s, hs⟩ (Nat.le_of_lt_succ hlt)
    · rw [h.inv.sends.acknowledge_error hge (by omega)]
      exact iff_of_false (fun ⟨_, hs⟩ => nomatch (Prod.mk.inj hs).1) (by omega)
  | push _ _ => exact Iff.rfl
  | pop _ _ => exact Iff.rfl
  | popAcknowledge _ _ => exact Iff.rfl
  | deliver _ => exact Iff.rfl
  | read => exact Iff.rfl

/-- **An honest receiver's acknowledgement is accepted** over first-in first-out channels exactly
when at most 8 numbers have been issued after the one it carries; the window allows 10. -/
theorem along_ackAccepted_iff (o : Opening) {es : List LinkEvent}
    (he : Along linkStep InOrder o.link es) :
    Along linkStep AckAccepted o.link es ↔ Along linkStep FewIssuedAfter o.link es :=
  along_congr_of (Link.Fifo o) (fun _ _ h hs => h.ackAccepted_iff hs)
    (fun _ _ _ h hs _ => h.step hs) o.fifo he

/-- Nine segments in flight, the first of them acknowledged. -/
theorem ackAccepted_firstOfNine :
    Along linkStep AckAccepted (Opening.byLocal 0).link
      (sends 9 ++ [.deliver 0, .popAcknowledge 0 0, .deliverAck 0]) := by
  have he : Along linkStep InOrder (Opening.byLocal 0).link
      (sends 9 ++ [.deliver 0, .popAcknowledge 0 0, .deliverAck 0]) := by decide
  exact (along_ackAccepted_iff (.byLocal 0) he).2 (by decide)

/-- With a full window in flight, the acknowledgement of its first segment is rejected. -/
theorem ackRejected_firstOfTen :
    Along linkStep InOrder (Opening.byLocal 0).link
        (sends 10 ++ [.deliver 0, .popAcknowledge 0 0, .deliverAck 0]) ∧
      run linkStep (Opening.byLocal 0).link
          (sends 10 ++ [.deliver 0, .popAcknowledge 0 0, .deliverAck 0]) =
        .error (.ackRejected (SendStorage.invalidAckNum 1)) :=
  ⟨by decide, rfl⟩

end Mdswp
