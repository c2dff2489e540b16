import Mdswp.Stream.Finish

/-!
# Buffered writing

`write` pushes full segments and keeps the rest in `sendBuffer`; `flush` pushes the rest. While
nothing but writes, flushes, transmissions and acknowledgements of issued numbers happens, every
`write` and `flush` succeeds, and the payloads pushed, followed by the buffer, are the bytes written
(`writes_buffered`). The invariant is `Session.Buffered`: the unwrap of the conversion is safe by
the bounds on a segment, and that of `finishedUnchecked` by the block of the numbers in flight.
-/

namespace Mdswp

open StreamInner SendStorage

variable {st st' : Session} {e : SessionEvent} {bs : List UInt8}

/-- The bytes that the event writes. -/
def SessionEvent.written : SessionEvent → List UInt8
  | .write buf => buf
  | _ => []

/-- The event is a write, a flush, a step of the worker whose datagrams are sent, or an
acknowledgement of an issued number that is accepted. -/
def WritesOnly (st : Session) : SessionEvent → Prop
  | .write _ => True
  | .flush => True
  | .worker _ _ sent => sent = .ok ()
  | .recv segment => ∃ n, segment = .acknowledge n ∧ n ≠ st.inner.sendStorage.nextUnsent ∧
    st.inner.sendStorage.nextUnsent - n < windowSize
  | _ => False

/-- A write takes its whole buffer and leaves less than a segment, and a flush leaves nothing. -/
def WriteSucceeds (st : Session) : SessionEvent → Prop
  | .write buf => ∃ s, st.inner.write buf = .ok (.ok buf.length, s) ∧
    s.sendBuffer.length < maxDataLen
  | .flush => ∃ s, st.inner.flush = .ok (.ok (), s) ∧ s.sendBuffer = []
  | _ => True

/-- The bytes `bs` have been written, and no `Finish` is pushed. -/
structure Session.Buffered (st : Session) (bs : List UInt8) : Prop where
  healthy : st.inner.isErr = false
  block : st.inner.sendStorage.Block
  unfinished : st.inner.sendStorage.finishedUnchecked = .ok false
  bytes : bytesOf st.enqueued ++ st.inner.sendBuffer = bs

theorem Fresh.buffered {s : StreamInner} (hs : Fresh s) : (Session.new s).Buffered [] := by
  cases hs with
  | byPeer addr e n => exact ⟨rfl, block_newByPeer n, rfl, rfl⟩
  | byLocal addr e n => exact ⟨rfl, block_newByLocal e, rfl, rfl⟩

/-- Pushing data leaves the storage unfinished. -/
theorem finishedUnchecked_pushed {s : StreamInner} (b : List UInt8) (l : List DataSegment)
    (h : s.sendStorage.finishedUnchecked = .ok false) :
    (s.pushed b l).sendStorage.finishedUnchecked = .ok false := by
  rcases List.eq_nil_or_concat l with rfl | ⟨l, d, rfl⟩
  · simpa [pushed] using h
  · rw [finishedUnchecked_of_queueUnsent (by simp [pushed])]
    simp [pushed]

namespace Session.Buffered

theorem pushes (h : st.Buffered bs) {b buf : List UInt8} {l : List DataSegment}
    (happ : l.flatMap DataSegment.data ++ b = st.inner.sendBuffer ++ buf) :
    (st.pushes b l).Buffered (bs ++ buf) := by
  refine ⟨h.healthy, ⟨h.block.numbers, h.block.length_le⟩,
    finishedUnchecked_pushed b l h.unfinished, ?_⟩
  calc bytesOf (st.enqueued ++ l.map .data) ++ b
      = bytesOf st.enqueued ++ (l.flatMap DataSegment.data ++ b) := by
        rw [bytesOf_append, bytesOf_map_data, List.append_assoc]
    _ = bytesOf st.enqueued ++ st.inner.sendBuffer ++ buf := by rw [happ, List.append_assoc]
    _ = bs ++ buf := by rw [h.bytes]

/-- A change of the receiving half and of the worker. -/
theorem of_sendStorage (h : st.Buffered bs) {s : StreamInner}
    (hc : s.connState = st.inner.connState) (hb : s.sendBuffer = st.inner.sendBuffer)
    (hblock : s.sendStorage.Block) (hf : s.sendStorage.finishedUnchecked = .ok false)
    (hi : st'.inner = s) (hq : st'.enqueued = st.enqueued) : st'.Buffered bs := by
  subst hi
  refine ⟨?_, hblock, hf, ?_⟩
  · rw [isErr, hc]
    exact h.healthy
  · rw [hq, hb]
    exact h.bytes

theorem worker (h : st.Buffered bs) (t t' : Instant) :
    ∃ st', sessionStep st (.worker t t' (.ok ())) = .ok st' ∧ st'.Buffered bs := by
  rw [sessionStep]
  cases st.worker with
  | check => exact ⟨_, rfl, { h with }⟩
  | ack =>
    obtain ⟨r, calls, hack⟩ := threadAck_of_sent st.inner t t'
    dsimp only
    rw [hack]
    refine ⟨_, rfl, h.of_sendStorage (s := { st.inner with recvStorage := r }) rfl rfl h.block
      h.unfinished rfl rfl⟩
  | send =>
    obtain ⟨x, s, calls, pc, hp, hsend⟩ := threadSend_of_sent st.inner t t' h.block.length_le
    dsimp only
    rw [hsend]
    refine ⟨_, rfl, h.of_sendStorage (s := { st.inner with sendStorage := s }) rfl rfl
      (h.block.of_popResult hp) ?_ rfl rfl⟩
    rw [h.block.finishedUnchecked_popResult hp]
    exact h.unfinished
  | exited => exact ⟨st, rfl, h⟩

theorem acknowledge (h : st.Buffered bs) {n : SequenceNumber}
    (hne : n ≠ st.inner.sendStorage.nextUnsent)
    (hlt : st.inner.sendStorage.nextUnsent - n < windowSize) :
    ∃ st', sessionStep st (.recv (.acknowledge n)) = .ok st' ∧ st'.Buffered bs := by
  have hack : st.inner.recvSegment (.acknowledge n) = .ok ({ st.inner with
      sendStorage := (st.inner.sendStorage.acknowledge n).2 }, []) := by
    rw [recvSegment, recvAcknowledge, acknowledge_of_lt hlt]
  rw [sessionStep, hack]
  refine ⟨_, rfl, h.of_sendStorage (s := { st.inner with
    sendStorage := (st.inner.sendStorage.acknowledge n).2 }) rfl rfl ?_ ?_ rfl rfl⟩
  · exact h.block.acknowledge fun heq => absurd heq hne
  · rcases h.block.finishedUnchecked_acknowledge fun heq => absurd heq hne with hempty | hsame
    · exact finishedUnchecked_of_isEmpty hempty
    · rw [hsame]
      exact h.unfinished

theorem step (h : st.Buffered bs) (he : WritesOnly st e) :
    ∃ st', sessionStep st e = .ok st' ∧ st'.Buffered (bs ++ e.written) := by
  cases e with
  | write buf =>
    obtain ⟨b, l, hw, happ, -⟩ := write_of_unfinished h.healthy h.unfinished buf
    refine ⟨st.pushes b l, ?_, h.pushes happ⟩
    rw [sessionStep, hw, ← st.pushing_pushed]
    rfl
  | flush =>
    obtain ⟨l, hf, happ⟩ := flush_of_unfinished h.healthy h.unfinished
    refine ⟨st.pushes [] l, ?_, h.pushes (by rw [happ]; rfl)⟩
    rw [sessionStep, hf, ← st.pushing_pushed]
    rfl
  | worker t t' sent =>
    obtain rfl : sent = .ok () := he
    simpa only [SessionEvent.written, List.append_nil] using h.worker t t'
  | recv segment =>
    obtain ⟨n, rfl, hne, hlt⟩ := he
    simpa only [SessionEvent.written, List.append_nil] using h.acknowledge hne hlt
  | finishFlush => exact he.elim
  | finishPush k => exact he.elim
  | finishPoll k => exact he.elim
  | read len => exact he.elim
  | readWait len => exact he.elim
  | error err sendReset => exact he.elim

theorem writeSucceeds (h : st.Buffered bs) (e : SessionEvent) : WriteSucceeds st e := by
  cases e with
  | write buf =>
    obtain ⟨b, l, hw, -, hlen⟩ := write_of_unfinished h.healthy h.unfinished buf
    exact ⟨_, hw, hlen⟩
  | flush =>
    obtain ⟨l, hf, -⟩ := flush_of_unfinished h.healthy h.unfinished
    exact ⟨_, hf, rfl⟩
  | _ => trivial

theorem run (h : st.Buffered bs) {es : List SessionEvent}
    (he : Along sessionStep WritesOnly st es) :
    ∃ st', run sessionStep st es = .ok st' ∧
      st'.Buffered (bs ++ es.flatMap SessionEvent.written) := by
  induction es generalizing st bs with
  | nil => exact ⟨st, rfl, by simpa using h⟩
  | cons e es ih =>
    obtain ⟨st₁, hstep, h₁⟩ := h.step he.1
    obtain ⟨st', hrun, h'⟩ := ih h₁ (he.2 st₁ hstep)
    refine ⟨st', by rw [run_cons_of_ok hstep, hrun], ?_⟩
    rwa [List.append_assoc, ← List.flatMap_cons] at h'

end Session.Buffered

/-- **Write buffering preserves the byte stream.** In every run of writes, flushes, steps of the
worker and accepted acknowledgements of issued numbers, every write and every flush succeeds; the
payloads pushed, each of 1 to `MAX_DATA_LEN` bytes, and then the buffer are the bytes written. -/
theorem writes_buffered {s : StreamInner} (hs : Fresh s) {es : List SessionEvent}
    (he : Along sessionStep WritesOnly (.new s) es) :
    Along sessionStep WriteSucceeds (.new s) es ∧
      ∃ st, run sessionStep (.new s) es = .ok st ∧
        bytesOf st.enqueued ++ st.inner.sendBuffer = es.flatMap SessionEvent.written ∧
        ∀ d, .data d ∈ st.enqueued → 1 ≤ d.data.length ∧ d.data.length ≤ maxDataLen := by
  constructor
  · refine Along.of_invariant (fun st => ∃ bs, st.Buffered bs) ?_ ?_ ⟨[], hs.buffered⟩ he
    · rintro st e ⟨bs, h⟩ -
      exact h.writeSucceeds e
    · rintro st e st' ⟨bs, h⟩ he hstep
      obtain ⟨st₁, hstep₁, h₁⟩ := h.step he
      obtain rfl := Except.ok.inj (hstep.symm.trans hstep₁)
      exact ⟨_, h₁⟩
  · obtain ⟨st, hrun, h⟩ := hs.buffered.run he
    refine ⟨st, hrun, h.bytes, ?_⟩
    intro d _
    exact ⟨List.length_pos_iff.2 d.ne_nil, d.length_le⟩

instance (st : Session) (e : SessionEvent) : Decidable (WritesOnly st e) :=
  match e with
  | .write _ => isTrue trivial
  | .flush => isTrue trivial
  | .worker _ _ sent => inferInstanceAs (Decidable (sent = .ok ()))
  | .recv (.acknowledge n) =>
    decidable_of_iff (n ≠ st.inner.sendStorage.nextUnsent ∧
      st.inner.sendStorage.nextUnsent - n < windowSize) (by simp [WritesOnly])
  | .recv (.establish _) => isFalse (by simp [WritesOnly])
  | .recv .reset => isFalse (by simp [WritesOnly])
  | .recv (.sequential _ _) => isFalse (by simp [WritesOnly])
  | .finishFlush => isFalse id
  | .finishPush _ => isFalse id
  | .finishPoll _ => isFalse id
  | .read _ => isFalse id
  | .readWait _ => isFalse id
  | .error _ _ => isFalse id

/-- More than a segment is written; the first segment is sent and acknowledged before the flush. -/
def twoSegments : List SessionEvent :=
  [.write (List.replicate 600 0), .worker 0 0 (.ok ()), .worker 0 0 (.ok ()), .worker 0 0 (.ok ()),
    .recv (.acknowledge 1), .flush]

theorem writes_buffered_twoSegments :
    ∃ st, run sessionStep (.new (.newByLocal (.v4 0 0) 0 0)) twoSegments = .ok st ∧
      bytesOf st.enqueued ++ st.inner.sendBuffer = List.replicate 600 0 := by
  have he : Along sessionStep WritesOnly (.new (.newByLocal (.v4 0 0) 0 0)) twoSegments := by
    decide +kernel
  obtain ⟨st, hrun, hbytes, -⟩ := (writes_buffered (.byLocal (.v4 0 0) 0 0) he).2
  exact ⟨st, hrun, hbytes.trans (by decide +kernel)⟩

end Mdswp
