import Mdswp.Foundations.Run
import Mdswp.Link.Ends

/-!
# Delivery safety

`Link.Inv` ties both ends of a link and everything in the network to the positions of the accepted
segments. Under it a step that is `Timely` has one of the outcomes of `LinkResult`, and keeps it.
Hence in every timely run of a link, over a network that loses, duplicates and reorders, the
segments released to the reader are a prefix of those that `push` has accepted
(`released_prefix_accepted`).
-/

namespace Mdswp

open Serial

variable {o : Opening} {l l' : Link} {e : LinkEvent}

/-- What holds of a link and its network after every timely run. -/
structure Link.Inv (o : Opening) (l : Link) : Prop where
  sends : Sends o l.accepted l.issued l.sender
  receives : Receives o l.accepted l.issued l.released l.receiver
  prefix_accepted : l.popped ++ l.receiver.popQueue <+: l.accepted
  issued_le : l.issued ≤ l.released + l.sender.queueSent.length
  copies : ∀ c ∈ l.copies, c.pos ≤ l.issued ∧ c.seqNum = nth o.base c.pos ∧
    o.content l.accepted c.pos = some c.segment
  acks : ∀ a ∈ l.acks, a.pos ≤ l.released ∧ a.ackNum = nth o.base a.pos

theorem Opening.inv (o : Opening) : o.link.Inv o := by
  refine ⟨o.sends, ?_, ?_, Nat.zero_le _, fun c hc => ?_, fun _ => nofun⟩
  · cases o <;> exact Opening.receives _
  · cases o <;> exact List.nil_prefix
  · cases o with
    | byLocal n => cases hc
    | byPeer n t =>
      obtain rfl := List.mem_singleton.1 hc
      exact ⟨le_rfl, (nth_zero n).symm, rfl⟩

/-! ## The outcomes of a step -/

/-- The outcomes of a timely step. -/
inductive LinkResult (o : Opening) (l : Link) : LinkEvent → Except LinkStop Link → Prop
  | unchanged (e : LinkEvent) : LinkResult o l e (.ok l)
  | pushed (segment : SequentialSegment) (h : segment ≠ .accept) :
    LinkResult o l (.push segment h)
      (.ok { l with
        sender := l.sender.pushBack segment
        accepted := l.accepted ++ [segment] })
  | sent (t t' : Instant) (s : SendStorage) (issued : ℕ) (c : Copy)
      (hs : Sends o l.accepted issued s) (hle : l.issued ≤ issued)
      (hlen : issued + l.sender.queueSent.length = l.issued + s.queueSent.length)
      (hpos : c.pos ≤ issued) (hlt : issued < c.pos + 10)
      (hnext : c.pos ≤ l.issued + 1 ∧ issued = max l.issued c.pos)
      (hnum : c.seqNum = nth o.base c.pos)
      (hc : o.content l.accepted c.pos = some c.segment) :
    LinkResult o l (.pop t t')
      (.ok { l with sender := s, issued := issued, copies := l.copies ++ [c] })
  | delivered (i : ℕ) (c : Copy) (k : ℕ) (r : RecvStorage) (hi : l.copies[i]? = some c)
      (hr : l.receiver.recv c.seqNum c.segment = .ok (.ok (), r))
      (hd : Delivers o l.accepted l.issued l.released l.receiver c.pos k r) :
    LinkResult o l (.deliver i)
      (.ok { l with receiver := r, copyCursor := max l.copyCursor i })
  | segmentRejected (i : ℕ) (c : Copy) (err : IoError) (hi : l.copies[i]? = some c)
      (hr : l.receiver.recv c.seqNum c.segment = .ok (.error err, l.receiver)) :
    LinkResult o l (.deliver i) (.error (.segmentRejected err))
  | acknowledges (t t' : Instant) (as : List AckCopy)
      (has : ∀ a ∈ as, a = ⟨l.released, nth o.base l.released⟩) :
    LinkResult o l (.popAcknowledge t t')
      (.ok { l with receiver := (l.receiver.popAcknowledge t t').2, acks := l.acks ++ as })
  | acked (i : ℕ) (a : AckCopy) (s : SendStorage) (hi : l.acks[i]? = some a)
      (hlt : l.issued < a.pos + 9) (hs : Sends o l.accepted l.issued s)
      (hlen : s.queueSent.length = min l.sender.queueSent.length (l.issued - a.pos)) :
    LinkResult o l (.deliverAck i)
      (.ok { l with sender := s, ackCursor := max l.ackCursor i })
  | ackRejected (i : ℕ) (a : AckCopy) (err : IoError) (hi : l.acks[i]? = some a)
      (hle : a.pos + 9 ≤ l.issued) :
    LinkResult o l (.deliverAck i) (.error (.ackRejected err))
  | reads (segment : SequentialSegment) (rest : List SequentialSegment)
      (hq : l.receiver.popQueue = segment :: rest) :
    LinkResult o l .read
      (.ok { l with
        receiver := { l.receiver with popQueue := rest }
        popped := l.popped ++ [segment] })
  | absent (e : LinkEvent) : LinkResult o l e (.error .absent)

namespace Link.Inv

theorem released_le (h : l.Inv o) : l.released ≤ l.issued := h.receives.released_le

theorem pop_result (h : l.Inv o) (t t' : Instant) :
    LinkResult o l (.pop t t') (linkStep l (.pop t t')) := by
  obtain ⟨r, s, hp, hr⟩ := l.sender.pop_result t t' h.sends.block.length_le
  rw [linkStep, hp]
  cases hr with
  | idle hidle => exact .unchanged _
  | resent e rest hq ht =>
    obtain ⟨p, hp', hlt, hnum, hc⟩ := h.sends.inFlight e (by simp [hq])
    have hlt' := h.sends.lt_add_length (by simp [hq]) hp' hlt hnum
    have hlen := h.sends.length_le
    have hpos : l.issued - (l.sender.nextUnsent - 1 - e.seqNum).toNat = p := by
      rw [h.sends.dist_eq hp' hlt hnum]
      omega
    simp only [copyOf, BitVec.sub_self, BitVec.toNat_zero, Nat.add_zero, hpos]
    exact .sent t t' _ l.issued ⟨p, e.seqNum, e.segment⟩ (h.sends.resent hq t') le_rfl
      (by simp [hq]) hp' (by simp only; omega) ⟨hp'.trans (Nat.le_succ _), (max_eq_left hp').symm⟩
      hnum hc
  | fresh segment rest hq hlen =>
    obtain ⟨hc, hs⟩ := h.sends.fresh hq hlen t'
    have hone : (l.sender.nextUnsent + 1 - l.sender.nextUnsent).toNat = 1 := by
      rw [add_sub_cancel_left]
      rfl
    have hzero : (l.sender.nextUnsent + 1 - 1 - l.sender.nextUnsent).toNat = 0 := by
      rw [add_sub_cancel_right, BitVec.sub_self]
      rfl
    simp only [copyOf, hone, hzero, Nat.sub_zero]
    exact .sent t t' _ (l.issued + 1) ⟨l.issued + 1, l.sender.nextUnsent, segment⟩ hs (by omega)
      (by simp; omega) le_rfl (by simp) ⟨le_rfl, (max_eq_right (Nat.le_succ _)).symm⟩
      h.sends.nextUnsent_eq hc

theorem deliver_result (h : l.Inv o) {i : ℕ} (ht : Timely l (.deliver i)) :
    LinkResult o l (.deliver i) (linkStep l (.deliver i)) := by
  rw [linkStep]
  cases hi : l.copies[i]? with
  | none => exact .absent _
  | some c =>
    obtain ⟨hpos, hnum, hc⟩ := h.copies c (List.mem_of_getElem? hi)
    have hlate := ht c hi
    have hlen := h.sends.length_le
    have hissued := h.issued_le
    have hrel := h.released_le
    rcases h.receives.recv hc (by omega) (by omega) with ⟨err, hr⟩ | ⟨k, r, hr, hd⟩
    · rw [← hnum] at hr
      simp only [hr]
      exact .segmentRejected i c err hi hr
    · rw [← hnum] at hr
      simp only [hr]
      exact .delivered i c k r hi hr hd

theorem popAcknowledge_result (h : l.Inv o) (t t' : Instant) :
    LinkResult o l (.popAcknowledge t t') (linkStep l (.popAcknowledge t t')) := by
  rw [linkStep]
  cases hp : l.receiver.popAcknowledge t t' with
  | mk n r =>
  have hr : r = (l.receiver.popAcknowledge t t').2 := by rw [hp]
  cases n with
  | none =>
    have := LinkResult.acknowledges (o := o) (l := l) t t' [] (by simp)
    rw [List.append_nil, ← hr] at this
    exact this
  | some n =>
    have hn : n = nth o.base l.released := by
      have hw := RecvStorage.popAcknowledge_eq_some (r := l.receiver) (n := n) t t' (by rw [hp])
      rw [hw, h.receives.window_eq, nth_succ_sub_one]
    have := LinkResult.acknowledges (o := o) (l := l) t t' [⟨l.released, n⟩] (by simp [hn])
    rw [← hr] at this
    exact this

theorem deliverAck_result (h : l.Inv o) {i : ℕ} (ht : Timely l (.deliverAck i)) :
    LinkResult o l (.deliverAck i) (linkStep l (.deliverAck i)) := by
  rw [linkStep]
  cases hi : l.acks[i]? with
  | none => exact .absent _
  | some a =>
    obtain ⟨hpos, hnum⟩ := h.acks a (List.mem_of_getElem? hi)
    have hlate := ht a hi
    have hle := hpos.trans h.released_le
    rcases Nat.lt_or_ge l.issued (a.pos + 9) with hlt | hge
    · obtain ⟨s, hs, hsends, hlen⟩ := h.sends.acknowledge_ok hle hlt
      rw [← hnum] at hs
      simp only [hs]
      exact .acked i a s hi hlt hsends hlen
    · have hs := h.sends.acknowledge_error hge (by omega)
      rw [← hnum] at hs
      simp only [hs]
      exact .ackRejected i a _ hi hge

/-- Under the invariant a timely step has one of the outcomes. -/
theorem linkStep_result (h : l.Inv o) (ht : Timely l e) : LinkResult o l e (linkStep l e) := by
  cases e with
  | push segment hseg =>
    rcases h.sends.block.push_ok hseg with hp | hp
    · simp only [linkStep, hp]
      exact .unchanged _
    · simp only [linkStep, hp]
      exact .pushed segment hseg
  | pop t t' => exact h.pop_result t t'
  | deliver i => exact h.deliver_result ht
  | popAcknowledge t t' => exact h.popAcknowledge_result t t'
  | deliverAck i => exact h.deliverAck_result ht
  | read =>
    rw [linkStep, RecvStorage.pop]
    cases hq : l.receiver.popQueue with
    | nil => exact .unchanged _
    | cons segment rest => exact .reads segment rest hq

/-! ## Every timely step keeps the invariant -/

/-- What an accepted segment releases comes next among the accepted ones. -/
theorem prefix_of_delivers (h : l.Inv o) {top pos k : ℕ} {r : RecvStorage} (htop : top ≤ l.issued)
    (hpos : pos ≤ l.issued) (hd : Delivers o l.accepted top l.released l.receiver pos k r) :
    l.popped ++ r.popQueue <+: l.accepted ∧
      (l.popped ++ r.popQueue).length = l.released + k := by
  have hle : l.released + k ≤ l.accepted.length :=
    (hd.receives.released_le.trans (max_le htop hpos)).trans h.sends.issued_le
  have hpre : l.popped ++ l.receiver.popQueue = l.accepted.take l.released :=
    List.prefix_iff_eq_take.1 h.prefix_accepted
  have heq : l.popped ++ r.popQueue = l.accepted.take (l.released + k) := by
    rw [hd.popQueue_eq, ← List.append_assoc, hpre, ← List.take_add]
  rw [heq, List.length_take]
  exact ⟨List.take_prefix _ _, by omega⟩

theorem of_result (h : l.Inv o) (hr : LinkResult o l e (.ok l')) : l'.Inv o := by
  cases hr with
  | unchanged => exact h
  | pushed segment hseg =>
    refine ⟨h.sends.push segment, h.receives.append _, ?_, h.issued_le, fun c hc => ?_, h.acks⟩
    · exact h.prefix_accepted.trans (List.prefix_append _ _)
    · obtain ⟨hpos, hnum, hcon⟩ := h.copies c hc
      exact ⟨hpos, hnum, Opening.content_append hcon _⟩
  | sent t t' s issued c hs hle hlen hpos hlt hnext hnum hc =>
    have hissued := h.issued_le
    refine ⟨hs, h.receives.mono hle, h.prefix_accepted, ?_, fun c' hc' => ?_, h.acks⟩
    · show issued ≤ l.released + s.queueSent.length
      omega
    · rcases List.mem_append.1 hc' with hmem | hmem
      · obtain ⟨hpos', hnum', hcon⟩ := h.copies c' hmem
        exact ⟨hpos'.trans hle, hnum', hcon⟩
      · obtain rfl := List.mem_singleton.1 hmem
        exact ⟨hpos, hnum, hc⟩
  | delivered i c k r hi hr hd =>
    obtain ⟨hpos, -, -⟩ := h.copies c (List.mem_of_getElem? hi)
    obtain ⟨hpre, hlen⟩ := h.prefix_of_delivers le_rfl hpos hd
    have hrec := hd.receives
    rw [max_eq_left hpos, ← hlen] at hrec
    refine ⟨h.sends, hrec, hpre, ?_, h.copies, fun a ha => ?_⟩
    · show l.issued ≤ (l.popped ++ r.popQueue).length + l.sender.queueSent.length
      have := h.issued_le
      omega
    · obtain ⟨hle, hnum⟩ := h.acks a ha
      refine ⟨?_, hnum⟩
      show a.pos ≤ (l.popped ++ r.popQueue).length
      omega
  | acknowledges t t' as has =>
    have hrel : (l.popped ++ (l.receiver.popAcknowledge t t').2.popQueue).length = l.released := by
      rw [RecvStorage.popAcknowledge_popQueue, released]
    refine ⟨h.sends, ?_, ?_, ?_, h.copies, fun a ha => ?_⟩
    · rw [released, hrel]
      exact h.receives.congr (by simp) (by simp) (by simp)
    · simpa using h.prefix_accepted
    · rw [released, hrel]
      exact h.issued_le
    · rw [released, hrel]
      rcases List.mem_append.1 ha with hmem | hmem
      · exact h.acks a hmem
      · rw [has a hmem]
        exact ⟨le_rfl, rfl⟩
  | acked i a s hi hlt hs hlen =>
    obtain ⟨hpos, -⟩ := h.acks a (List.mem_of_getElem? hi)
    refine ⟨hs, h.receives, h.prefix_accepted, ?_, h.copies, h.acks⟩
    show l.issued ≤ l.released + s.queueSent.length
    have := h.issued_le
    omega
  | reads segment rest hq =>
    have hpop : l.popped ++ [segment] ++ rest = l.popped ++ l.receiver.popQueue := by
      rw [hq, List.append_assoc, List.singleton_append]
    have hrel : (l.popped ++ [segment] ++ rest).length = l.released := by
      rw [hpop, released]
    refine ⟨h.sends, ?_, ?_, ?_, h.copies, ?_⟩
    · rw [released, hrel]
      exact h.receives.congr rfl rfl rfl
    · show l.popped ++ [segment] ++ rest <+: l.accepted
      rw [hpop]
      exact h.prefix_accepted
    · rw [released, hrel]
      exact h.issued_le
    · rw [released, hrel]
      exact h.acks

theorem step (h : l.Inv o) (ht : Timely l e) (hs : linkStep l e = .ok l') : l'.Inv o :=
  h.of_result (hs ▸ h.linkStep_result ht)

theorem step_ne_fault (h : l.Inv o) (ht : Timely l e) (f : Fault) :
    linkStep l e ≠ .error (.fault f) := by
  intro hs
  have hr := h.linkStep_result ht
  rw [hs] at hr
  cases hr

end Link.Inv

/-! ## Runs -/

/-- **Delivery safety.** Over a network that loses, duplicates and reorders, with no copy delivered
too late, no call of a run panics or loops, and the segments popped by the reader, followed by those
in the queue, are a prefix of the accepted ones. -/
theorem released_prefix_accepted (o : Opening) {es : List LinkEvent}
    (ht : Along linkStep Timely o.link es) :
    (∀ f, run linkStep o.link es ≠ .error (.fault f)) ∧
      ∀ l, run linkStep o.link es = .ok l →
        l.popped ++ l.receiver.popQueue <+: l.accepted := by
  have hstep : ∀ l e l', l.Inv o → Timely l e → linkStep l e = .ok l' → l'.Inv o :=
    fun l e l' h he hs => h.step he hs
  refine ⟨fun f => run_ne_error (Link.Inv o) hstep (fun l e h he => h.step_ne_fault he f) o.inv ht,
    fun l hr => ?_⟩
  exact (run_invariant (Link.Inv o) hstep o.inv ht hr).prefix_accepted

/-- Two segments are sent; the second arrives first, the first arrives twice, and the reader gets
both in order. -/
def reorderedRun : List LinkEvent :=
  [.push (.data (oneByte 7)) (data_ne_accept _), .push .finish finish_ne_accept, .pop 0 0, .pop 0 0,
    .deliver 1, .deliver 0, .deliver 0, .popAcknowledge 0 0, .deliverAck 0, .read, .read]

theorem released_reorderedRun :
    ∃ l, run linkStep (Opening.byLocal 255).link reorderedRun = .ok l ∧
      l.popped = [.data (oneByte 7), .finish] ∧
      l.popped ++ l.receiver.popQueue <+: l.accepted :=
  have ht : Along linkStep Timely (Opening.byLocal 255).link reorderedRun := by decide
  ⟨_, rfl, rfl, (released_prefix_accepted (.byLocal 255) ht).2 _ rfl⟩

end Mdswp
