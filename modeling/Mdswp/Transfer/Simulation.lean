import Mdswp.Link.Lossless
import Mdswp.Transfer.System

/-!
# A transfer runs a link

While the stream of `b` is healthy, the direction from `a` to `b` of a transfer is a `Link` whose
channels lose nothing (`Transfer.Sim`): what is on its way to `b` are the link's undelivered copies,
and what is on its way to `a` its undelivered acknowledgements. The other direction carries nothing
but the `Accept` and its acknowledgements. Once the stream of `a` has ended there is a `Reset` on
its way to `b`, and what follows that does not matter.
-/

namespace Mdswp

open StreamInner

variable {n : SequenceNumber}

/-! ## The direction of the `Accept` -/

/-- The acceptor has issued its `Accept`, with the number `n`, and nothing else. -/
structure AcceptSent (n : SequenceNumber) (s : SendStorage) : Prop where
  nextUnsent_eq : s.nextUnsent = n + 1
  queueUnsent_eq : s.queueUnsent = []
  queueSent_eq : s.queueSent = [] ∨ ∃ t, s.queueSent = [⟨n, .accept, t⟩]

/-- All that is ever sent is the `Accept`. -/
theorem AcceptSent.pop {s s' : SendStorage} (h : AcceptSent n s) {t t' : Instant}
    {x : Option (SequenceNumber × SequentialSegment)} (hp : s.pop t t' = .ok (x, s')) :
    AcceptSent n s' ∧ (x = none ∨ x = some (n, .accept)) := by
  cases SendStorage.PopResult.of_pop hp with
  | resent e rest hq ht =>
    rcases h.queueSent_eq with hs | ⟨t₀, hs⟩
    · rw [hs] at hq
      cases hq
    · rw [hs] at hq
      cases hq
      exact ⟨⟨h.nextUnsent_eq, h.queueUnsent_eq, .inr ⟨t', rfl⟩⟩, .inr rfl⟩
  | fresh segment rest hq hlen =>
    rw [h.queueUnsent_eq] at hq
    cases hq
  | idle _ => exact ⟨h, .inl rfl⟩

theorem AcceptSent.acknowledge {s : SendStorage} (h : AcceptSent n s) :
    ∃ s', s.acknowledge n = (.ok (), s') ∧ AcceptSent n s' := by
  have hlt : s.nextUnsent - n < windowSize := by
    rw [h.nextUnsent_eq, add_sub_cancel_left]
    decide
  refine ⟨_, SendStorage.acknowledge_of_lt hlt, h.nextUnsent_eq, h.queueUnsent_eq, .inl ?_⟩
  rcases h.queueSent_eq with hs | ⟨t, hs⟩
  · simp [hs]
  · simp only [hs, List.filter_cons, BitVec.sub_self, List.filter_nil]
    exact if_neg (by decide)

/-- The connector has received the `Accept`, with the number `n`, and nothing else. -/
structure AcceptHeld (n : SequenceNumber) (r : RecvStorage) : Prop where
  window_eq : r.window = n + 1
  lowerBound_eq : r.lowerBound = n
  segments_eq : r.segments n = some .accept

theorem AcceptHeld.recv {r : RecvStorage} (h : AcceptHeld n r) :
    ∃ r', r.recv n .accept = .ok (.ok (), r') ∧ AcceptHeld n r' := by
  have hvalid : r.checkValidSeqNum n = .ok () := by
    rw [RecvStorage.checkValidSeqNum_eq, if_pos]
    rw [RecvStorage.Accepts, h.window_eq, h.lowerBound_eq, BitVec.sub_self, add_assoc,
      add_sub_cancel_left]
    decide
  have hpres : r.checkPresenceOf n .accept = .ok true := by
    simp [RecvStorage.checkPresenceOf, h.segments_eq]
  refine ⟨{ r with urgentAck := true }, ?_, h.window_eq, h.lowerBound_eq, h.segments_eq⟩
  simp only [RecvStorage.recv, hvalid, hpres]

theorem AcceptHeld.popAcknowledge {r r' : RecvStorage} (h : AcceptHeld n r) {t t' : Instant}
    {x : Option SequenceNumber} (hp : r.popAcknowledge t t' = (x, r')) :
    AcceptHeld n r' ∧ (x = none ∨ x = some n) := by
  obtain rfl : (r.popAcknowledge t t').2 = r' := congrArg Prod.snd hp
  refine ⟨⟨by simp [h.window_eq], by simp [h.lowerBound_eq], by simp [h.segments_eq]⟩, ?_⟩
  cases x with
  | none => exact .inl rfl
  | some k =>
    have := RecvStorage.popAcknowledge_eq_some (r := r) t t' (congrArg Prod.fst hp)
    rw [h.window_eq, add_sub_cancel_right] at this
    exact .inr (congrArg some this)

/-! ## The channels -/

/-- The queue carries the copies and acknowledgements of the `Accept`, up to the first `Reset`. -/
inductive CarriesCopies (n : SequenceNumber) : List Copy → List Segment → Prop
  | nil : CarriesCopies n [] []
  | reset (cs : List Copy) (q : List Segment) : CarriesCopies n cs (.reset :: q)
  | acknowledge {cs : List Copy} {q : List Segment} (h : CarriesCopies n cs q) :
    CarriesCopies n cs (.acknowledge n :: q)
  | sequential (c : Copy) {cs : List Copy} {q : List Segment} (h : CarriesCopies n cs q) :
    CarriesCopies n (c :: cs) (.sequential c.seqNum c.segment :: q)

/-- The queue carries the acknowledgements and copies of the `Accept`. -/
inductive CarriesAcks (n : SequenceNumber) : List AckCopy → List Segment → Prop
  | nil : CarriesAcks n [] []
  | accept {as : List AckCopy} {q : List Segment} (h : CarriesAcks n as q) :
    CarriesAcks n as (.sequential n .accept :: q)
  | acknowledge (a : AckCopy) {as : List AckCopy} {q : List Segment} (h : CarriesAcks n as q) :
    CarriesAcks n (a :: as) (.acknowledge a.ackNum :: q)

theorem CarriesCopies.append {cs cs' : List Copy} {q q' : List Segment} (h : CarriesCopies n cs q)
    (h' : CarriesCopies n cs' q') : CarriesCopies n (cs ++ cs') (q ++ q') := by
  induction h with
  | nil => exact h'
  | reset cs q => exact .reset _ _
  | acknowledge h ih => exact .acknowledge ih
  | sequential c h ih => exact .sequential c ih

/-- What is sent after a `Reset` does not matter. -/
theorem CarriesCopies.append_of_mem {cs : List Copy} {q : List Segment} (h : CarriesCopies n cs q)
    (hmem : .reset ∈ q) (out : List Segment) : CarriesCopies n cs (q ++ out) := by
  induction h with
  | nil => cases hmem
  | reset cs q => exact .reset _ _
  | acknowledge h ih => exact .acknowledge (ih (by simpa using hmem))
  | sequential c h ih => exact .sequential c (ih (by simpa using hmem))

theorem CarriesCopies.of_copies (cs : List Copy) :
    CarriesCopies n cs (cs.map fun c => .sequential c.seqNum c.segment) := by
  induction cs with
  | nil => exact .nil
  | cons c cs ih => exact .sequential c ih

theorem CarriesAcks.of_acks (as : List AckCopy) :
    CarriesAcks n as (as.map fun a => .acknowledge a.ackNum) := by
  induction as with
  | nil => exact .nil
  | cons a as ih => exact .acknowledge a ih

theorem CarriesAcks.append {as as' : List AckCopy} {q q' : List Segment} (h : CarriesAcks n as q)
    (h' : CarriesAcks n as' q') : CarriesAcks n (as ++ as') (q ++ q') := by
  induction h with
  | nil => exact h'
  | accept h ih => exact .accept ih
  | acknowledge a h ih => exact .acknowledge a ih

/-! ## The relation -/

/-- What the program of `a` still has to write, besides what `push` has accepted. -/
def Program.Pending (bs : List UInt8) (accepted : List SequentialSegment)
    (sendBuffer : List UInt8) : Program → Prop
  | calls rest => .finish ∉ accepted ∧
    bytesOf accepted ++ sendBuffer ++ rest.flatMap Call.bytes = bs
  | flushed => .finish ∉ accepted ∧ bytesOf accepted = bs
  | waiting => True
  | returned _ => True
  | dropped => False

/-- The stream of `a` is healthy, and its sending half is that of the link. -/
structure Transfer.Writing (n : SequenceNumber) (bs : List UInt8) (st : Transfer) (l : Link)
    (acked : ℕ) : Prop where
  healthy : st.a.stream.isErr = false
  sender : st.a.stream.sendStorage = l.sender
  held : AcceptHeld n st.a.stream.recvStorage
  unread : st.a.stream.recvFinished = false
  toA : CarriesAcks n (l.acks.drop acked) st.toA
  pending : st.program.Pending bs l.accepted st.a.stream.sendBuffer
  listening : st.listening

/-- What `b` has read and what it holds are what its reader has popped. -/
structure Transfer.Reading (st : Transfer) (l : Link) : Prop where
  receiver : st.b.stream.recvStorage = l.receiver
  bytes : bytesOf l.popped = st.bytesRead ++ st.b.stream.recvBuffer
  finished : st.b.stream.recvFinished → .finish ∈ l.popped ∧ st.b.stream.recvBuffer = [] ∧
    st.waiting = none

/-- The segments that `push` has accepted carry what was to be written, and end with `Finish` when
they carry all of it. -/
structure AcceptedOf (bs : List UInt8) (accepted : List SequentialSegment) : Prop where
  prefix_bs : bytesOf accepted <+: bs
  ne_accept : .accept ∉ accepted
  finish_last : .finish ∈ accepted → bytesOf accepted = bs ∧
    ∃ init, accepted = init ++ [.finish] ∧ .finish ∉ init

/-- The transfer of the bytes `bs` runs the link; `delivered` of its copies and `acked` of its
acknowledgements have arrived. -/
structure Transfer.Sim (e n : SequenceNumber) (bs : List UInt8) (st : Transfer) (l : Link)
    (delivered acked : ℕ) : Prop where
  lossless : l.Lossless (.byLocal e) delivered acked
  accepted : AcceptedOf bs l.accepted
  healthy : st.b.stream.isErr = false
  acceptor : AcceptSent n st.b.stream.sendStorage
  toB : CarriesCopies n (l.copies.drop delivered) st.toB
  reading : st.Reading l
  writing : st.Writing n bs l acked ∨ .reset ∈ st.toB

/-! ## What the relation says of `b` -/

section

variable {e : SequenceNumber} {bs : List UInt8} {st : Transfer} {l : Link} {delivered acked : ℕ}

theorem Transfer.Sim.popped_prefix (h : st.Sim e n bs l delivered acked) :
    l.popped <+: l.accepted :=
  (List.prefix_append _ _).trans h.lossless.fifo.inv.prefix_accepted

/-- What has been read comes first among the bytes. -/
theorem Transfer.Sim.bytesRead_prefix (h : st.Sim e n bs l delivered acked) :
    st.bytesRead <+: bs := by
  obtain ⟨rest, hrest⟩ := h.popped_prefix
  have hbytes : bytesOf l.accepted = st.bytesRead ++ (st.b.stream.recvBuffer ++ bytesOf rest) := by
    rw [← hrest, bytesOf_append, h.reading.bytes, List.append_assoc]
  exact (hbytes ▸ List.prefix_append _ _ : st.bytesRead <+: bytesOf l.accepted).trans
    h.accepted.prefix_bs

/-- The end is seen only after everything has been read. -/
theorem Transfer.Sim.bytesRead_eq (h : st.Sim e n bs l delivered acked)
    (hfin : st.b.stream.recvFinished) : st.bytesRead = bs := by
  obtain ⟨hmem, hbuf, -⟩ := h.reading.finished hfin
  have hpre := h.popped_prefix
  obtain ⟨hbs, init, hinit, hnot⟩ := h.accepted.finish_last (hpre.subset hmem)
  have hall : l.popped = l.accepted := by
    rw [hinit] at hpre ⊢
    exact (List.prefix_concat_iff.1 hpre).resolve_right fun h' => hnot (h'.subset hmem)
  have hbytes := h.reading.bytes
  rw [hall, hbs, hbuf, List.append_nil] at hbytes
  exact hbytes.symm

end

end Mdswp
