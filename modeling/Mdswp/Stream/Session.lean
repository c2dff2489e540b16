import Mdswp.Foundations.Run
import Mdswp.Stream.Inner

/-!
# The life of a stream

A `Session` is a stream with its worker thread and the `finish_write` calls made on it. Its events
are the calls of the user, the parts of the calls that wait, the segments from the peer, errors, and
the steps of the worker, in any order.

A session also records what has happened, for the statements about it: what was enqueued in the send
storage, what accepted acknowledgements removed from it, when the connection errored, and what the
receive storage has released and the worker has acknowledged. None of this influences a step.

`SessionResult` lists what a step can do.
-/

namespace Mdswp

open StreamInner

/-- A call of `finish_write`: its flush is done, or its `Finish` is pushed, or it has returned. -/
inductive FinishCall
  | flushed
  | waiting
  | returned (result : IoResult Unit)
  deriving DecidableEq

structure Session where
  inner : StreamInner
  worker : WorkerPc
  calls : List FinishCall
  /-- Every segment ever enqueued in the send storage, in order. -/
  enqueued : List SequentialSegment
  /-- Every entry that an accepted acknowledgement has removed from `queueSent`. -/
  acknowledged : List Sent
  /-- If the connection has errored, how many entries had been acknowledged before. -/
  erroredAt : Option ℕ
  /-- Every segment that the receive storage has released to its queue, in order. -/
  released : List SequentialSegment
  /-- Those that had been released when the worker last sent an acknowledgement. -/
  confirmed : List SequentialSegment

/-- A new stream; the `Accept` of an accepted connection is enqueued by the constructor. -/
def Session.new (s : StreamInner) : Session where
  inner := s
  worker := .check
  calls := []
  enqueued := s.sendStorage.queueUnsent
  acknowledged := []
  erroredAt := none
  released := []
  confirmed := []

inductive SessionEvent
  | write (buf : List UInt8)
  | flush
  | finishFlush
  | finishPush (k : ℕ)
  | finishPoll (k : ℕ)
  | read (len : ℕ)
  | readWait (len : ℕ)
  | recv (segment : Segment)
  | error (err : IoError) (sendReset : Bool)
  | worker (t t' : Instant) (sent : IoResult Unit)

/-- The entries that a segment from the peer removes, if it is an acknowledgement. -/
def SendStorage.covered (s : SendStorage) : Segment → List Sent
  | .acknowledge ackNum =>
    if windowSize ≤ s.nextUnsent - ackNum then []
    else s.queueSent.filter fun e => ackNum - e.seqNum < windowSize
  | _ => []

namespace Session

/-- The stream after a step; the time of its first error is recorded. -/
def update (st : Session) (s : StreamInner) : Session :=
  { st with
    inner := s
    erroredAt := if st.inner.isErr = false ∧ s.isErr then some st.acknowledged.length
      else st.erroredAt }

/-- The stream after a step that may push. -/
def pushing (st : Session) (s : StreamInner) : Session :=
  { st.update s with
    enqueued := st.enqueued ++
      s.sendStorage.queueUnsent.drop st.inner.sendStorage.queueUnsent.length }

/-- The stream after a segment from the peer. -/
def receiving (st : Session) (segment : Segment) (s : StreamInner) : Session :=
  { st.update s with
    acknowledged := st.acknowledged ++ st.inner.sendStorage.covered segment
    released := st.released ++
      s.recvStorage.popQueue.drop st.inner.recvStorage.popQueue.length }

end Session

/-- One step. The events of a `finish_write` call that is not there, or not in that part, and those
of a worker that has exited, do nothing. -/
def sessionStep (st : Session) : SessionEvent → Exec Session
  | .write buf => (st.inner.write buf).map fun (_, s) => st.pushing s
  | .flush => st.inner.flush.map fun (_, s) => st.pushing s
  | .finishFlush =>
    st.inner.finishWriteFlush.map fun (result, s) =>
      { st.pushing s with
        calls := st.calls ++ [match result with
          | .ok () => .flushed
          | .error err => .returned (.error err)] }
  | .finishPush k =>
    if st.calls[k]? = some .flushed then
      st.inner.finishWritePush.map fun (result, s, _) =>
        { st.pushing s with
          calls := st.calls.set k (match result with
            | .ok () => .waiting
            | .error err => .returned (.error err)) }
    else .ok st
  | .finishPoll k =>
    if st.calls[k]? = some .waiting then
      match st.inner.finishWritePoll with
      | (none, s) => .ok (st.update s)
      | (some result, s) =>
        .ok { st.update s with calls := st.calls.set k (.returned result) }
    else .ok st
  | .read len => .ok (st.update (st.inner.read len).2)
  | .readWait len => .ok (st.update (st.inner.readWait len).2)
  | .recv segment => (st.inner.recvSegment segment).map fun (s, _) => st.receiving segment s
  | .error err sendReset => .ok (st.update (st.inner.error err sendReset).1)
  | .worker t t' sent =>
    match st.worker with
    | .check => .ok { st with worker := threadCheck (some st.inner) }
    | .ack =>
      match st.inner.threadAck t t' sent with
      | (s, calls, pc) =>
        .ok { st.update s with
          worker := pc
          confirmed := if calls ≠ [] ∧ pc = .send then st.released else st.confirmed }
    | .send =>
      (st.inner.threadSend t t' sent).map fun (s, _, pc) => { st.update s with worker := pc }
    | .exited => .ok st

/-! ## What a step can do -/

namespace Session

variable {st : Session} {s : StreamInner}

/-- The connection errors, if it has not done so before. -/
def fail (st : Session) (err : IoError) (sendReset : Bool) : Session :=
  { st with
    inner := (st.inner.error err sendReset).1
    erroredAt := if st.inner.isErr then st.erroredAt else some st.acknowledged.length }

theorem update_of_connState (h : s.connState = st.inner.connState) :
    st.update s = { st with inner := s } := by
  have hs : s.isErr = st.inner.isErr := by rw [isErr, h, isErr]
  have hnot : ¬(st.inner.isErr = false ∧ s.isErr) := by
    rw [hs]
    simp
  rw [update, if_neg hnot]

theorem update_error (h : s.connState = st.inner.connState) (err : IoError) (sendReset : Bool) :
    st.update (s.error err sendReset).1 = fail { st with inner := s } err sendReset := by
  have hs : s.isErr = st.inner.isErr := by rw [isErr, h, isErr]
  simp only [update, fail, isErr_error, and_true, hs]
  cases st.inner.isErr <;> rfl

/-- The payloads `l` are pushed, and `b` is left in the buffer. -/
def pushes (st : Session) (b : List UInt8) (l : List DataSegment) : Session :=
  { st with
    inner := st.inner.pushed b l
    enqueued := st.enqueued ++ l.map .data }

theorem pushing_pushed (st : Session) (b : List UInt8) (l : List DataSegment) :
    st.pushing (st.inner.pushed b l) = st.pushes b l := by
  rw [pushing, update_of_connState (by rfl)]
  simp [pushed, pushes]

theorem pushing_self (st : Session) : st.pushing st.inner = st := by
  rw [pushing, update_of_connState (by rfl)]
  simp

theorem error_queueUnsent (s : StreamInner) (err : IoError) (sendReset : Bool) :
    (s.error err sendReset).1.sendStorage.queueUnsent.drop s.sendStorage.queueUnsent.length =
      [] := by
  cases h : s.isErr with
  | true => rw [error_of_isErr h, List.drop_length]
  | false => simp [error_of_not_isErr h, SendStorage.clear]

theorem error_popQueue (s : StreamInner) (err : IoError) (sendReset : Bool) :
    (s.error err sendReset).1.recvStorage.popQueue = s.recvStorage.popQueue := by
  cases h : s.isErr with
  | true => rw [error_of_isErr h]
  | false => simp [error_of_not_isErr h, RecvStorage.clear]

theorem pushing_error (st : Session) (err : IoError) (sendReset : Bool) :
    st.pushing (st.inner.error err sendReset).1 = st.fail err sendReset := by
  rw [pushing, update_error (by rfl), error_queueUnsent, List.append_nil]
  rfl

theorem receiving_error (st : Session) {segment : Segment}
    (h : ∀ n, segment = .acknowledge n → windowSize ≤ st.inner.sendStorage.nextUnsent - n)
    (err : IoError) (sendReset : Bool) :
    st.receiving segment (st.inner.error err sendReset).1 = st.fail err sendReset := by
  have hnone : st.inner.sendStorage.covered segment = [] := by
    cases segment with
    | acknowledge n => exact if_pos (h n rfl)
    | establish _ => rfl
    | reset => rfl
    | sequential _ _ => rfl
  rw [receiving, update_error (by rfl), hnone, error_popQueue, List.drop_length, List.append_nil,
    List.append_nil]
  rfl

end Session

/-- The outcomes of a step that returns. -/
inductive SessionResult (st : Session) : SessionEvent → Session → Prop
  | same (e : SessionEvent) : SessionResult st e st
  | wrote (buf b : List UInt8) (l : List DataSegment) (h : st.inner.isErr = false) :
    SessionResult st (.write buf) (st.pushes b l)
  | flushed (b : List UInt8) (l : List DataSegment) (h : st.inner.isErr = false) :
    SessionResult st .flush (st.pushes b l)
  | finishRefused (err : IoError) (h : st.inner.isErr) :
    SessionResult st .finishFlush
      { st with calls := st.calls ++ [.returned (.error err)] }
  | finishFlushed (b : List UInt8) (l : List DataSegment) (c : FinishCall)
      (h : st.inner.isErr = false) (hc : c = .flushed ∨ ∃ err, c = .returned (.error err)) :
    SessionResult st .finishFlush { st.pushes b l with calls := st.calls ++ [c] }
  | finishPushed (k : ℕ) (hk : st.calls[k]? = some .flushed)
      (hf : st.inner.sendStorage.finishedUnchecked = .ok false) :
    SessionResult st (.finishPush k)
      { st with
        inner := { st.inner with sendStorage := st.inner.sendStorage.pushBack .finish }
        enqueued := st.enqueued ++ [.finish]
        calls := st.calls.set k .waiting }
  | finishFailed (k : ℕ) (hk : st.calls[k]? = some .flushed)
      (hf : st.inner.sendStorage.finishedUnchecked = .ok true) (err err' : IoError) :
    SessionResult st (.finishPush k)
      { st.fail err true with calls := st.calls.set k (.returned (.error err')) }
  | finished (k : ℕ) (hk : st.calls[k]? = some .waiting) (h : st.inner.sendStorage.isEmpty) :
    SessionResult st (.finishPoll k)
      { st with
        inner := { st.inner with sendFinished := true }
        calls := st.calls.set k (.returned (.ok ())) }
  | reads (e : SessionEvent) (b : List UInt8) (r : RecvStorage) (fin : Bool) :
    SessionResult st e
      { st with inner := { st.inner with recvBuffer := b, recvStorage := r, recvFinished := fin } }
  | fails (e : SessionEvent) (err : IoError) (sendReset : Bool) :
    SessionResult st e (st.fail err sendReset)
  | acked (n : SequenceNumber) (hn : st.inner.sendStorage.nextUnsent - n < windowSize) :
    SessionResult st (.recv (.acknowledge n))
      { st with
        inner := { st.inner with sendStorage := (st.inner.sendStorage.acknowledge n).2 }
        acknowledged := st.acknowledged ++ st.inner.sendStorage.covered (.acknowledge n) }
  | received (n : SequenceNumber) (variant : SequentialSegment) (r : RecvStorage)
      (h : st.inner.recvStorage.recv n variant = .ok (.ok (), r)) :
    SessionResult st (.recv (.sequential n variant))
      { st with
        inner := { st.inner with recvStorage := r }
        released := st.released ++ r.popQueue.drop st.inner.recvStorage.popQueue.length }
  | checked (t t' : Instant) (sent : IoResult Unit) (hw : st.worker = .check) :
    SessionResult st (.worker t t' sent) { st with worker := threadCheck (some st.inner) }
  | acks (t t' : Instant) (sent : IoResult Unit) (r : RecvStorage) (c : List SequentialSegment)
      (hw : st.worker = .ack) (hc : c = st.released ∨ c = st.confirmed) :
    SessionResult st (.worker t t' sent)
      { st with
        inner := { st.inner with recvStorage := r }
        worker := .send
        confirmed := c }
  | ackFails (t t' : Instant) (sent : IoResult Unit) (r : RecvStorage) (err : IoError)
      (hw : st.worker = .ack) :
    SessionResult st (.worker t t' sent)
      { Session.fail { st with inner := { st.inner with recvStorage := r } } err true with
        worker := .exited }
  | sends (t t' : Instant) (sent : IoResult Unit) (x : Option (SequenceNumber × SequentialSegment))
      (s : SendStorage) (pc : WorkerPc) (hw : st.worker = .send) (hpc : pc ≠ .exited)
      (hp : SendStorage.PopResult st.inner.sendStorage t t' x s) :
    SessionResult st (.worker t t' sent)
      { st with
        inner := { st.inner with sendStorage := s }
        worker := pc }
  | sendFails (t t' : Instant) (sent : IoResult Unit)
      (x : Option (SequenceNumber × SequentialSegment)) (s : SendStorage) (err : IoError)
      (hw : st.worker = .send) (hp : SendStorage.PopResult st.inner.sendStorage t t' x s) :
    SessionResult st (.worker t t' sent)
      { Session.fail { st with inner := { st.inner with sendStorage := s } } err true with
        worker := .exited }

theorem sessionStep_result {st st' : Session} {e : SessionEvent}
    (h : sessionStep st e = .ok st') : SessionResult st e st' := by
  cases e with
  | write buf =>
    obtain ⟨⟨r, s⟩, hw, rfl⟩ := exists_of_map_eq_ok h
    dsimp only
    rcases write_eq_ok hw with ⟨-, rfl⟩ | ⟨he, b, l, rfl⟩
    · rw [st.pushing_self]
      exact .same _
    · rw [st.pushing_pushed]
      exact .wrote buf b l he
  | flush =>
    obtain ⟨⟨r, s⟩, hw, rfl⟩ := exists_of_map_eq_ok h
    dsimp only
    rcases flush_eq_ok hw with ⟨-, rfl, -⟩ | ⟨he, b, l, rfl⟩
    · rw [st.pushing_self]
      exact .same _
    · rw [st.pushing_pushed]
      exact .flushed b l he
  | finishFlush =>
    obtain ⟨⟨r, s⟩, hw, rfl⟩ := exists_of_map_eq_ok h
    rcases flush_eq_ok hw with ⟨he, rfl, err, rfl⟩ | ⟨he, b, l, rfl⟩
    · dsimp only
      rw [st.pushing_self]
      exact .finishRefused err he
    · dsimp only
      rw [st.pushing_pushed]
      cases r with
      | ok u => exact .finishFlushed b l _ he (.inl rfl)
      | error err => exact .finishFlushed b l _ he (.inr ⟨err, rfl⟩)
  | finishPush k =>
    rw [sessionStep] at h
    split_ifs at h with hk
    · obtain ⟨⟨r, s, calls⟩, hp, rfl⟩ := exists_of_map_eq_ok h
      rcases finishWritePush_eq_ok hp with ⟨hf, rfl, rfl⟩ | ⟨hf, rfl, rfl⟩
      · dsimp only
        rw [st.pushing_error]
        exact .finishFailed k hk hf _ _
      · have hpush : st.pushing { st.inner with
            sendStorage := st.inner.sendStorage.pushBack .finish } = { st with
            inner := { st.inner with sendStorage := st.inner.sendStorage.pushBack .finish }
            enqueued := st.enqueued ++ [.finish] } := by
          rw [Session.pushing, Session.update_of_connState (by rfl)]
          simp [SendStorage.pushBack]
        dsimp only
        rw [hpush]
        exact .finishPushed k hk hf
    · obtain rfl := Except.ok.inj h
      exact .same _
  | finishPoll k =>
    rw [sessionStep] at h
    split_ifs at h with hk
    · rw [finishWritePoll] at h
      split_ifs at h with hempty
      · obtain rfl := Except.ok.inj h
        rw [Session.update_of_connState (by rfl)]
        exact .finished k hk hempty
      · obtain rfl := Except.ok.inj h
        rw [Session.update_of_connState (by rfl)]
        exact .same _
    · obtain rfl := Except.ok.inj h
      exact .same _
  | read len =>
    obtain rfl := Except.ok.inj h
    obtain ⟨b, r, fin, hr⟩ := st.inner.read_snd len
    rw [hr, Session.update_of_connState (by rfl)]
    exact .reads _ b r fin
  | readWait len =>
    obtain rfl := Except.ok.inj h
    obtain ⟨b, r, fin, hr⟩ := st.inner.readWait_snd len
    rw [hr, Session.update_of_connState (by rfl)]
    exact .reads _ b r fin
  | recv segment =>
    obtain ⟨⟨s, calls⟩, hr, rfl⟩ := exists_of_map_eq_ok h
    dsimp only
    rcases recvSegment_eq_ok hr with ⟨err, sendReset, heq, hack⟩ | ⟨n, rfl, hn, -, rfl⟩ |
      ⟨n, variant, r, rfl, hrecv, -, rfl⟩
    · obtain rfl : s = _ := congrArg Prod.fst heq
      rw [st.receiving_error hack]
      exact .fails _ err sendReset
    · have hrec := SessionResult.acked n hn
      rw [Session.receiving, Session.update_of_connState (by rfl), List.drop_length,
        List.append_nil]
      exact hrec
    · have hrec := SessionResult.received n variant r hrecv
      have hnone : st.inner.sendStorage.covered (.sequential n variant) = [] := rfl
      rw [Session.receiving, Session.update_of_connState (by rfl), hnone, List.append_nil]
      exact hrec
  | error err sendReset =>
    obtain rfl := Except.ok.inj h
    rw [Session.update_error (by rfl)]
    exact .fails _ err sendReset
  | worker t t' sent =>
    rw [sessionStep] at h
    cases hw : st.worker with
    | check =>
      rw [hw] at h
      obtain rfl := Except.ok.inj h
      exact .checked t t' sent hw
    | ack =>
      rw [hw] at h
      generalize hx : st.inner.threadAck t t' sent = x at h
      obtain ⟨s, calls, pc⟩ := x
      obtain rfl := Except.ok.inj h
      obtain ⟨r, ⟨rfl, rfl⟩ | ⟨rfl, err, rfl⟩⟩ := threadAck_eq hx
      · rw [Session.update_of_connState (by rfl)]
        refine .acks t t' sent r _ hw ?_
        split_ifs
        · exact .inl rfl
        · exact .inr rfl
      · have hnot : ¬(calls ≠ [] ∧ WorkerPc.exited = .send) :=
          fun hc => WorkerPc.noConfusion hc.2
        rw [Session.update_error (by rfl), if_neg hnot]
        exact .ackFails t t' sent r err hw
    | send =>
      rw [hw] at h
      obtain ⟨⟨s, calls, pc⟩, hx, rfl⟩ := exists_of_map_eq_ok h
      obtain ⟨x, s', hp, ⟨hpc, rfl⟩ | ⟨rfl, err, rfl⟩⟩ := threadSend_eq_ok hx
      · dsimp only
        rw [Session.update_of_connState (by rfl)]
        exact .sends t t' sent x s' pc hw hpc hp
      · dsimp only
        rw [Session.update_error (by rfl)]
        exact .sendFails t t' sent x s' err hw hp
    | exited =>
      rw [hw] at h
      obtain rfl := Except.ok.inj h
      exact .same _

end Mdswp
