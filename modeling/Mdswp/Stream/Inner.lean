import Mdswp.Stream.Recv
import Mdswp.Stream.Send

/-!
# A stream (`stream/inner.rs`)

`StreamInner` joins the two storages of a connection with the buffers of its user. A call that
asks the listener for something returns what it asks for, in order, as a list of `ListenerCall`s.
The calls that wait are cut at the places where they sleep: `finish_write` is `finishWriteFlush`,
`finishWritePush` and then `finishWritePoll` until that returns; `read` is `read` and then
`readWait` until that returns. One round of the worker thread `__thread` is `threadCheck`,
`threadAck` and then `threadSend` until there is nothing to send.
-/

namespace Mdswp

/-- `std::net::SocketAddr`. -/
inductive SocketAddr
  | v4 (ip : BitVec 32) (port : BitVec 16)
  | v6 (ip : BitVec 128) (port : BitVec 16) (flowinfo scopeId : BitVec 32)
  deriving DecidableEq, Repr

/-- What a stream asks of its listener. -/
inductive ListenerCall
  | removeConnection (peerAddr : SocketAddr)
  | sendTo (addr : SocketAddr) (segment : Segment)
  deriving DecidableEq, Repr

structure StreamInner where
  peerAddr : SocketAddr
  connState : IoResult Unit
  sendBuffer : List UInt8
  sendStorage : SendStorage
  sendFinished : Bool
  recvBuffer : List UInt8
  recvStorage : RecvStorage
  recvFinished : Bool

namespace StreamInner

def newByPeer (peerAddr : SocketAddr) (establishSeqNum acceptSeqNum : SequenceNumber) :
    StreamInner where
  peerAddr := peerAddr
  connState := .ok ()
  sendBuffer := []
  sendStorage := .newByPeer acceptSeqNum
  sendFinished := false
  recvBuffer := []
  recvStorage := .newByPeer establishSeqNum
  recvFinished := false

def newByLocal (peerAddr : SocketAddr) (establishSeqNum acceptSeqNum : SequenceNumber) :
    StreamInner where
  peerAddr := peerAddr
  connState := .ok ()
  sendBuffer := []
  sendStorage := .newByLocal establishSeqNum
  sendFinished := false
  recvBuffer := []
  recvStorage := .newByLocal acceptSeqNum
  recvFinished := false

/-! ## The state of the connection -/

def isErr (s : StreamInner) : Bool :=
  match s.connState with
  | .ok () => false
  | .error _ => true

def streamState (s : StreamInner) : IoResult Unit :=
  match s.connState with
  | .ok () => .ok ()
  | .error err => .error (cloneIoErr err)

/-- `peer_addr`, of an open connection only. -/
def getPeerAddr (s : StreamInner) : IoResult SocketAddr := s.streamState.map fun _ => s.peerAddr

def isWriteFinished (s : StreamInner) : IoResult Bool := s.streamState.map fun _ => s.sendFinished

def isReadFinished (s : StreamInner) : IoResult Bool := s.streamState.map fun _ => s.recvFinished

/-- The first error ends the connection; further ones are ignored. -/
def error (s : StreamInner) (err : IoError) (sendReset : Bool) :
    StreamInner × List ListenerCall :=
  if s.isErr then (s, [])
  else
    ({ s with
        connState := .error err
        sendStorage := s.sendStorage.clear
        recvStorage := s.recvStorage.clear },
      .removeConnection s.peerAddr :: if sendReset then [.sendTo s.peerAddr .reset] else [])

def reset (s : StreamInner) : IoResult Unit × StreamInner × List ListenerCall :=
  match s.streamState with
  | .error err => (.error err, s, [])
  | .ok () => (.ok (), s.error connResetLocal true)

/-- `Drop for StreamInner`. -/
def drop (s : StreamInner) : StreamInner × List ListenerCall :=
  if s.isErr then (s, [])
  else if !s.sendFinished || !s.recvFinished then s.reset.2
  else (s, [])

/-! ## Writing -/

/-- The loop of `write` and of `flush`: as long as `atLeast` bytes are buffered, up to
`MAX_DATA_LEN` of them are pushed as one segment. Every round takes a byte at least, so the rounds
are bounded by the number of bytes. -/
def pushBuffered (atLeast : ℕ) : ℕ → StreamInner → Exec (IoResult Unit × StreamInner)
  | 0, _ => .error .diverge
  | rounds + 1, s =>
    if s.sendBuffer.length < atLeast then .ok (.ok (), s)
    else
      let n := min maxDataLen s.sendBuffer.length
      let bytes := s.sendBuffer.take n
      let s := { s with sendBuffer := s.sendBuffer.drop n }
      match DataSegment.tryFrom bytes with
      | .error _ => .error .panic
      | .ok data =>
        match s.sendStorage.push (.data data) with
        | .error f => .error f
        | .ok (.error err, st) => .ok (.error err, { s with sendStorage := st })
        | .ok (.ok (), st) => pushBuffered atLeast rounds { s with sendStorage := st }

def write (s : StreamInner) (buf : List UInt8) : Exec (IoResult ℕ × StreamInner) :=
  match s.streamState with
  | .error err => .ok (.error err, s)
  | .ok () =>
    let s := { s with sendBuffer := s.sendBuffer ++ buf }
    (pushBuffered maxDataLen (s.sendBuffer.length + 1) s).map fun (result, s) =>
      (result.map fun _ => buf.length, s)

def flush (s : StreamInner) : Exec (IoResult Unit × StreamInner) :=
  match s.streamState with
  | .error err => .ok (.error err, s)
  | .ok () => pushBuffered 1 (s.sendBuffer.length + 1) s

/-- The first part of `finish_write`. -/
def finishWriteFlush (s : StreamInner) : Exec (IoResult Unit × StreamInner) := s.flush

/-- The second part: `Finish` is pushed; `finish_write` returns at once if that fails. -/
def finishWritePush (s : StreamInner) :
    Exec (IoResult Unit × StreamInner × List ListenerCall) :=
  match s.sendStorage.push .finish with
  | .error f => .error f
  | .ok (.ok (), st) => .ok (.ok (), { s with sendStorage := st }, [])
  | .ok (.error err, st) =>
    .ok (.error err, error { s with sendStorage := st } (cloneIoErr err) true)

/-- One look at the storage in the last part; `none` if `finish_write` goes on waiting. -/
def finishWritePoll (s : StreamInner) : Option (IoResult Unit) × StreamInner :=
  if s.sendStorage.isEmpty then (some (.ok ()), { s with sendFinished := true }) else (none, s)

/-! ## Reading -/

/-- The loop of `read`, until it leaves the loop or has to wait for a segment (`none`). The queue
bounds its rounds. -/
def readLoop : ℕ → StreamInner → Option (IoResult Unit) × StreamInner
  | 0, s => (none, s)
  | rounds + 1, s =>
    if s.recvBuffer ≠ [] then (some (.ok ()), s)
    else
      match s.isReadFinished with
      | .error err => (some (.error err), s)
      | .ok true => (some (.ok ()), s)
      | .ok false =>
        match s.recvStorage.pop with
        | (none, st) => (none, { s with recvStorage := st })
        | (some .finish, st) =>
          readLoop rounds { s with recvStorage := st, recvFinished := true }
        | (some (.data d), st) =>
          readLoop rounds { s with recvStorage := st, recvBuffer := s.recvBuffer ++ d.data }
        -- the source only prints a warning
        | (some .accept, st) => readLoop rounds { s with recvStorage := st }

/-- `read` from its loop on, with a buffer of `len` bytes. -/
def readWait (s : StreamInner) (len : ℕ) : Option (IoResult (List UInt8)) × StreamInner :=
  match readLoop (s.recvStorage.popQueue.length + 2) s with
  | (none, s) => (none, s)
  | (some (.error err), s) => (some (.error err), s)
  | (some (.ok ()), s) =>
    let n := min s.recvBuffer.length len
    (some (.ok (s.recvBuffer.take n)), { s with recvBuffer := s.recvBuffer.drop n })

def read (s : StreamInner) (len : ℕ) : Option (IoResult (List UInt8)) × StreamInner :=
  match s.isReadFinished with
  | .error err => (some (.error err), s)
  | .ok true => (some (.error connReadFinished), s)
  | .ok false => s.readWait len

/-! ## Segments from the peer -/

def recvAcknowledge (s : StreamInner) (seqNum : SequenceNumber) :
    StreamInner × List ListenerCall :=
  match s.sendStorage.acknowledge seqNum with
  | (.error err, st) => error { s with sendStorage := st } err true
  | (.ok (), st) => ({ s with sendStorage := st }, [])

def recvSequential (s : StreamInner) (seqNum : SequenceNumber) (variant : SequentialSegment) :
    Exec (StreamInner × List ListenerCall) :=
  match s.recvStorage.recv seqNum variant with
  | .error f => .error f
  | .ok (.error err, st) => .ok (error { s with recvStorage := st } err true)
  | .ok (.ok (), st) => .ok ({ s with recvStorage := st }, [])

def recvSegment (s : StreamInner) : Segment → Exec (StreamInner × List ListenerCall)
  | .reset => .ok (s.error connResetByPeer false)
  | .establish _ => .ok (s.error connUnexpEstablish true)
  | .acknowledge seqNum => .ok (s.recvAcknowledge seqNum)
  | .sequential seqNum variant => s.recvSequential seqNum variant

/-! ## The worker thread -/

/-- Where the worker thread is in its round. -/
inductive WorkerPc
  | check
  | ack
  | send
  | exited
  deriving DecidableEq, Repr

/-- The start of a round: the thread goes on unless the stream is gone or errored, or writing is
finished. The source looks at the state of the connection twice, with no error in between here. -/
def threadCheck : Option StreamInner → WorkerPc
  | none => .exited
  | some s =>
    if s.isErr then .exited
    else if s.sendFinished then .exited
    else .ack

/-- The segment is handed to the socket, which answers `sent`; if that is an error, the thread ends
the connection and returns. -/
def threadSendTo (s : StreamInner) (segment : Segment) (next : WorkerPc) (sent : IoResult Unit) :
    StreamInner × List ListenerCall × WorkerPc :=
  let call := .sendTo s.peerAddr segment
  match sent with
  | .ok () => (s, [call], next)
  | .error err =>
    let (s, calls) := s.error err true
    (s, call :: calls, .exited)

def threadAck (s : StreamInner) (t t' : Instant) (sent : IoResult Unit) :
    StreamInner × List ListenerCall × WorkerPc :=
  match s.recvStorage.popAcknowledge t t' with
  | (none, st) => ({ s with recvStorage := st }, [], .send)
  | (some seqNum, st) =>
    threadSendTo { s with recvStorage := st } (.acknowledge seqNum) .send sent

/-- One turn of the sending loop. -/
def threadSend (s : StreamInner) (t t' : Instant) (sent : IoResult Unit) :
    Exec (StreamInner × List ListenerCall × WorkerPc) :=
  match s.sendStorage.pop t t' with
  | .error f => .error f
  | .ok (none, st) => .ok ({ s with sendStorage := st }, [], .check)
  | .ok (some (seqNum, variant), st) =>
    .ok (threadSendTo { s with sendStorage := st } (.sequential seqNum variant) .send sent)

/-! ## What the calls do -/

variable {s s' : StreamInner}

theorem isErr_iff : s.isErr ↔ ∃ err, s.connState = .error err := by
  unfold isErr
  cases s.connState <;> simp

theorem connState_of_not_isErr (h : s.isErr = false) : s.connState = .ok () := by
  unfold isErr at h
  cases hc : s.connState with
  | ok u => rfl
  | error err => simp [hc] at h

theorem streamState_of_not_isErr (h : s.isErr = false) : s.streamState = .ok () := by
  rw [streamState, connState_of_not_isErr h]

theorem streamState_of_isErr (h : s.isErr) : ∃ err, s.streamState = .error err := by
  obtain ⟨err, herr⟩ := isErr_iff.1 h
  exact ⟨cloneIoErr err, by rw [streamState, herr]⟩

/-- An error of a stream that has errored is ignored. -/
theorem error_of_isErr (h : s.isErr) (err : IoError) (sendReset : Bool) :
    s.error err sendReset = (s, []) := if_pos h

theorem error_of_not_isErr (h : s.isErr = false) (err : IoError) (sendReset : Bool) :
    (s.error err sendReset).1 = { s with
      connState := .error err
      sendStorage := s.sendStorage.clear
      recvStorage := s.recvStorage.clear } := by
  rw [error, if_neg (by simp [h])]

@[simp] theorem isErr_error (s : StreamInner) (err : IoError) (sendReset : Bool) :
    (s.error err sendReset).1.isErr := by
  cases h : s.isErr with
  | true => rwa [error_of_isErr h]
  | false =>
    rw [error_of_not_isErr h]
    rfl

/-- The stream after the payloads `l` have been pushed, with `b` left in the buffer. -/
def pushed (s : StreamInner) (b : List UInt8) (l : List DataSegment) : StreamInner :=
  { s with
    sendBuffer := b
    sendStorage := { s.sendStorage with
      queueUnsent := s.sendStorage.queueUnsent ++ l.map .data } }

@[simp] theorem isErr_pushed (s : StreamInner) (b : List UInt8) (l : List DataSegment) :
    (s.pushed b l).isErr = s.isErr := rfl

theorem pushed_nil (s : StreamInner) : s.pushed s.sendBuffer [] = s := by
  simp [pushed]

theorem pushed_pushBack (s : StreamInner) (b c : List UInt8) (d : DataSegment)
    (l : List DataSegment) :
    pushed { s with sendBuffer := c, sendStorage := s.sendStorage.pushBack (.data d) } b l =
      s.pushed b (d :: l) := by
  simp [pushed, SendStorage.pushBack]

/-- Whatever the loop returns, it has pushed some data. -/
theorem pushBuffered_eq_ok {atLeast rounds : ℕ} {r : IoResult Unit}
    (h : pushBuffered atLeast rounds s = .ok (r, s')) : ∃ b l, s' = s.pushed b l := by
  induction rounds generalizing s with
  | zero => cases h
  | succ rounds ih =>
    rw [pushBuffered] at h
    split_ifs at h with hlen
    · cases h
      exact ⟨_, [], (pushed_nil _).symm⟩
    dsimp only at h
    split at h
    · cases h
    rename_i d hd
    cases hp : s.sendStorage.push (.data d) with
    | error f => simp [hp] at h
    | ok x =>
      rcases SendStorage.push_eq_ok (data_ne_accept d) hp with ⟨-, rfl⟩ | ⟨-, rfl⟩
      · simp only [hp] at h
        cases h
        exact ⟨s.sendBuffer.drop (min maxDataLen s.sendBuffer.length), [], by simp [pushed]⟩
      · simp only [hp] at h
        obtain ⟨b, l, rfl⟩ := ih h
        exact ⟨b, d :: l, s.pushed_pushBack _ _ _ _⟩

/-- After `Finish` has been pushed, and while the storage can tell, the loop pushes nothing: it
returns an error as soon as it has taken the bytes of a segment. -/
theorem pushBuffered_of_finished {atLeast rounds : ℕ} (hr : 0 < rounds) (ha : 0 < atLeast)
    (h : s.sendStorage.finishedUnchecked = .ok true) :
    pushBuffered atLeast rounds s =
      if s.sendBuffer.length < atLeast then .ok (.ok (), s)
      else .ok (.error connWriteFinished,
        { s with sendBuffer := s.sendBuffer.drop (min maxDataLen s.sendBuffer.length) }) := by
  obtain ⟨rounds, rfl⟩ := Nat.exists_eq_succ_of_ne_zero hr.ne'
  rw [pushBuffered]
  split_ifs with hlen
  · rfl
  obtain ⟨d, hd⟩ := DataSegment.exists_tryFrom_take (l := s.sendBuffer) (by
    rintro hnil
    rw [hnil] at hlen
    exact hlen ha)
  simp only [hd, SendStorage.push_of_finished h (data_ne_accept d)]

/-- Before that, it pushes what it should. -/
theorem pushBuffered_of_unfinished {atLeast rounds : ℕ} (ha : 0 < atLeast)
    (hr : s.sendBuffer.length < rounds) (h : s.sendStorage.finishedUnchecked = .ok false) :
    ∃ b l, pushBuffered atLeast rounds s = .ok (.ok (), s.pushed b l) ∧
      l.flatMap DataSegment.data ++ b = s.sendBuffer ∧ b.length < atLeast ∧
      (l = [] ↔ s.sendBuffer.length < atLeast) := by
  induction rounds generalizing s with
  | zero => omega
  | succ rounds ih =>
    rw [pushBuffered]
    split_ifs with hlen
    · exact ⟨s.sendBuffer, [], by rw [s.pushed_nil], by simp, hlen, by simp [hlen]⟩
    have hne : s.sendBuffer ≠ [] := by
      rintro hnil
      rw [hnil] at hlen
      exact hlen ha
    obtain ⟨d, hd⟩ := DataSegment.exists_tryFrom_take hne
    have hdata := DataSegment.tryFrom_eq_ok.1 hd
    simp only [hd, SendStorage.push_of_unfinished h (data_ne_accept d)]
    obtain ⟨b, l, hpush, happ, hb, -⟩ := ih
      (s := { s with
        sendBuffer := s.sendBuffer.drop (min maxDataLen s.sendBuffer.length)
        sendStorage := s.sendStorage.pushBack (.data d) })
      (by
        have := List.length_pos_iff.2 hne
        simp only [List.length_drop, maxDataLen, maxSegmentLen]
        omega)
      (by simp [SendStorage.finishedUnchecked_pushBack])
    refine ⟨b, d :: l, ?_, ?_, hb, by simp [hlen]⟩
    · rw [hpush, pushed_pushBack]
    · rw [List.flatMap_cons, List.append_assoc, happ, hdata]
      exact List.take_append_drop _ _

theorem write_eq_ok {buf : List UInt8} {r : IoResult ℕ} (h : s.write buf = .ok (r, s')) :
    (s.isErr ∧ s' = s) ∨ (s.isErr = false ∧ ∃ b l, s' = s.pushed b l) := by
  rw [write] at h
  cases he : s.isErr with
  | true =>
    obtain ⟨err, herr⟩ := streamState_of_isErr he
    rw [herr] at h
    cases h
    exact .inl ⟨rfl, rfl⟩
  | false =>
    rw [streamState_of_not_isErr he] at h
    dsimp only at h
    cases hp : pushBuffered maxDataLen ((s.sendBuffer ++ buf).length + 1)
        { s with sendBuffer := s.sendBuffer ++ buf } with
    | error f =>
      rw [hp] at h
      cases h
    | ok x =>
      obtain ⟨r', s₁⟩ := x
      obtain ⟨b, l, rfl⟩ := pushBuffered_eq_ok hp
      rw [hp] at h
      cases h
      exact .inr ⟨rfl, b, l, rfl⟩

theorem flush_eq_ok {r : IoResult Unit} (h : s.flush = .ok (r, s')) :
    (s.isErr ∧ s' = s ∧ ∃ err, r = .error err) ∨
      (s.isErr = false ∧ ∃ b l, s' = s.pushed b l) := by
  rw [flush] at h
  cases he : s.isErr with
  | true =>
    obtain ⟨err, herr⟩ := streamState_of_isErr he
    rw [herr] at h
    cases h
    exact .inl ⟨rfl, rfl, err, rfl⟩
  | false =>
    rw [streamState_of_not_isErr he] at h
    exact .inr ⟨rfl, pushBuffered_eq_ok h⟩

/-- `write` of a healthy stream is its loop, after the bytes have been buffered. -/
theorem write_of_pushBuffered (he : s.isErr = false) {buf : List UInt8} {r : IoResult Unit}
    (hp : pushBuffered maxDataLen ((s.sendBuffer ++ buf).length + 1)
      { s with sendBuffer := s.sendBuffer ++ buf } = .ok (r, s')) :
    s.write buf = .ok (r.map fun _ => buf.length, s') := by
  rw [write, streamState_of_not_isErr he]
  dsimp only
  rw [hp]
  rfl

/-- Before `Finish` has been pushed a healthy stream takes whatever is written. -/
theorem write_of_unfinished (he : s.isErr = false)
    (hf : s.sendStorage.finishedUnchecked = .ok false) (buf : List UInt8) :
    ∃ b l, s.write buf = .ok (.ok buf.length, s.pushed b l) ∧
      l.flatMap DataSegment.data ++ b = s.sendBuffer ++ buf ∧ b.length < maxDataLen := by
  have hpos : 0 < maxDataLen := by decide
  obtain ⟨b, l, hp, happ, hlen, -⟩ := pushBuffered_of_unfinished
    (s := { s with sendBuffer := s.sendBuffer ++ buf }) hpos (Nat.lt_succ_self _) hf
  exact ⟨b, l, write_of_pushBuffered he hp, happ, hlen⟩

theorem flush_of_unfinished (he : s.isErr = false)
    (hf : s.sendStorage.finishedUnchecked = .ok false) :
    ∃ l, s.flush = .ok (.ok (), s.pushed [] l) ∧ l.flatMap DataSegment.data = s.sendBuffer := by
  obtain ⟨b, l, hp, happ, hlen, -⟩ := pushBuffered_of_unfinished Nat.one_pos
    (Nat.lt_succ_self s.sendBuffer.length) hf
  obtain rfl := List.length_eq_zero_iff.1 (Nat.lt_one_iff.1 hlen)
  refine ⟨l, ?_, by simpa using happ⟩
  rw [flush, streamState_of_not_isErr he]
  exact hp

theorem finishWritePush_eq_ok {r : IoResult Unit} {calls : List ListenerCall}
    (h : s.finishWritePush = .ok (r, s', calls)) :
    (s.sendStorage.finishedUnchecked = .ok true ∧ r = .error connWriteFinished ∧
        s' = (s.error (cloneIoErr connWriteFinished) true).1) ∨
      (s.sendStorage.finishedUnchecked = .ok false ∧ r = .ok () ∧
        s' = { s with sendStorage := s.sendStorage.pushBack .finish }) := by
  rw [finishWritePush] at h
  cases hp : s.sendStorage.push .finish with
  | error f => simp [hp] at h
  | ok x =>
    rcases SendStorage.push_eq_ok finish_ne_accept hp with ⟨hf, rfl⟩ | ⟨hf, rfl⟩
    · simp only [hp, Except.ok.injEq, Prod.mk.injEq] at h
      exact .inl ⟨hf, h.1.symm, (congrArg Prod.fst h.2).symm⟩
    · simp only [hp, Except.ok.injEq] at h
      cases h
      exact .inr ⟨hf, rfl, rfl⟩

/-- Reading leaves everything but the receiving half alone. -/
theorem readLoop_snd (rounds : ℕ) (s : StreamInner) : ∃ b st fin,
    (readLoop rounds s).2 = { s with recvBuffer := b, recvStorage := st, recvFinished := fin } := by
  induction rounds generalizing s with
  | zero => exact ⟨_, _, _, rfl⟩
  | succ rounds ih =>
    rw [readLoop]
    split_ifs
    · exact ⟨_, _, _, rfl⟩
    split
    · exact ⟨_, _, _, rfl⟩
    · exact ⟨_, _, _, rfl⟩
    split
    · exact ⟨_, _, _, rfl⟩
    all_goals exact ih _

theorem readWait_snd (s : StreamInner) (len : ℕ) : ∃ b st fin,
    (s.readWait len).2 = { s with recvBuffer := b, recvStorage := st, recvFinished := fin } := by
  obtain ⟨b, st, fin, h⟩ := readLoop_snd (s.recvStorage.popQueue.length + 2) s
  rw [readWait]
  generalize readLoop (s.recvStorage.popQueue.length + 2) s = x at h
  obtain ⟨r, s₁⟩ := x
  obtain rfl : s₁ = _ := h
  split
  all_goals
    rename_i heq
    cases heq
    exact ⟨_, _, _, rfl⟩

theorem read_snd (s : StreamInner) (len : ℕ) : ∃ b st fin,
    (s.read len).2 = { s with recvBuffer := b, recvStorage := st, recvFinished := fin } := by
  rw [read]
  split
  · exact ⟨_, _, _, rfl⟩
  · exact ⟨_, _, _, rfl⟩
  · exact s.readWait_snd len

/-- What a `read` of a healthy stream does, with no `Accept` in the queue: it takes from the buffer
or, if that is empty, from the first segment of the queue. -/
inductive ReadResult (s : StreamInner) (len : ℕ) :
    Option (IoResult (List UInt8)) × StreamInner → Prop
  | buffered (h : s.recvBuffer ≠ [] ∨ s.recvFinished) :
    ReadResult s len (some (.ok (s.recvBuffer.take (min s.recvBuffer.length len))),
      { s with recvBuffer := s.recvBuffer.drop (min s.recvBuffer.length len) })
  | waits (hb : s.recvBuffer = []) (hfin : s.recvFinished = false)
      (hq : s.recvStorage.popQueue = []) : ReadResult s len (none, s)
  | finishes (rest : List SequentialSegment) (hb : s.recvBuffer = [])
      (hfin : s.recvFinished = false) (hq : s.recvStorage.popQueue = .finish :: rest) :
    ReadResult s len (some (.ok []),
      { s with recvStorage := { s.recvStorage with popQueue := rest }, recvFinished := true })
  | takes (d : DataSegment) (rest : List SequentialSegment) (hb : s.recvBuffer = [])
      (hfin : s.recvFinished = false) (hq : s.recvStorage.popQueue = .data d :: rest) :
    ReadResult s len (some (.ok (d.data.take (min d.data.length len))),
      { s with
        recvStorage := { s.recvStorage with popQueue := rest }
        recvBuffer := d.data.drop (min d.data.length len) })

theorem isReadFinished_of_not_isErr (he : s.isErr = false) :
    s.isReadFinished = .ok s.recvFinished := by
  rw [isReadFinished, streamState_of_not_isErr he]
  rfl

/-- A `read` after the one that has popped `Finish` fails. -/
theorem read_of_finished (he : s.isErr = false) (hfin : s.recvFinished) (len : ℕ) :
    s.read len = (some (.error connReadFinished), s) := by
  rw [read, isReadFinished_of_not_isErr he, hfin]

theorem read_of_unfinished (he : s.isErr = false) (hfin : s.recvFinished = false) (len : ℕ) :
    s.read len = s.readWait len := by
  rw [read, isReadFinished_of_not_isErr he, hfin]

theorem readLoop_of_done (h : s.recvBuffer ≠ [] ∨ (s.isErr = false ∧ s.recvFinished))
    (rounds : ℕ) : readLoop (rounds + 1) s = (some (.ok ()), s) := by
  rw [readLoop]
  split_ifs with hb
  · rfl
  · obtain ⟨he, hfin⟩ := h.resolve_left hb
    rw [isReadFinished_of_not_isErr he, hfin]

theorem readWait_result (he : s.isErr = false)
    (hq : ∀ segment ∈ s.recvStorage.popQueue, segment ≠ .accept) (len : ℕ) :
    ReadResult s len (s.readWait len) := by
  by_cases hb : s.recvBuffer ≠ []
  · rw [readWait, readLoop_of_done (.inl hb)]
    exact .buffered (.inl hb)
  rw [not_not] at hb
  rcases Bool.eq_false_or_eq_true s.recvFinished with hfin | hfin
  · rw [readWait, readLoop_of_done (.inr ⟨he, hfin⟩)]
    exact .buffered (.inr hfin)
  have hnot : s.isReadFinished = .ok false := by rw [isReadFinished_of_not_isErr he, hfin]
  rw [readWait, readLoop, if_neg (not_not.2 hb), hnot]
  dsimp only
  rw [RecvStorage.pop]
  cases hpop : s.recvStorage.popQueue with
  | nil => exact .waits hb hfin hpop
  | cons segment rest =>
    rw [List.length_cons]
    cases segment with
    | accept => exact absurd rfl (hq .accept (by simp [hpop]))
    | finish =>
      have hdone := readLoop_of_done (s := { s with
        recvStorage := { s.recvStorage with popQueue := rest }
        recvFinished := true }) (.inr ⟨he, rfl⟩) (rest.length + 1)
      have hres : ReadResult s len _ := .finishes rest hb hfin hpop
      dsimp only
      rw [hdone]
      simpa only [hb, List.take_nil, List.drop_nil] using hres
    | data d =>
      have hdone := readLoop_of_done (s := { s with
        recvStorage := { s.recvStorage with popQueue := rest }
        recvBuffer := s.recvBuffer ++ d.data }) (.inl (by simp [d.ne_nil])) (rest.length + 1)
      have hres : ReadResult s len _ := .takes d rest hb hfin hpop
      dsimp only
      rw [hdone]
      simpa only [hb, List.nil_append] using hres

/-- What a segment from the peer does: it ends the connection, or an acknowledgement removes what
it covers, or the receive storage takes a segment. -/
theorem recvSegment_eq_ok {segment : Segment} {calls : List ListenerCall}
    (h : s.recvSegment segment = .ok (s', calls)) :
    (∃ err sendReset, (s', calls) = s.error err sendReset ∧
        ∀ n, segment = .acknowledge n → windowSize ≤ s.sendStorage.nextUnsent - n) ∨
      (∃ n, segment = .acknowledge n ∧ s.sendStorage.nextUnsent - n < windowSize ∧ calls = [] ∧
        s' = { s with sendStorage := (s.sendStorage.acknowledge n).2 }) ∨
      (∃ n variant st, segment = .sequential n variant ∧
        s.recvStorage.recv n variant = .ok (.ok (), st) ∧ calls = [] ∧
        s' = { s with recvStorage := st }) := by
  cases segment with
  | reset => exact .inl ⟨_, _, (Except.ok.inj h).symm, nofun⟩
  | establish n => exact .inl ⟨_, _, (Except.ok.inj h).symm, nofun⟩
  | acknowledge n =>
    have h' := (Except.ok.inj h).symm
    rw [recvAcknowledge] at h'
    by_cases hn : s.sendStorage.nextUnsent - n < windowSize
    · rw [SendStorage.acknowledge_of_lt hn] at h'
      cases h'
      exact .inr (.inl ⟨n, rfl, hn, rfl, by rw [SendStorage.acknowledge_of_lt hn]⟩)
    · rw [SendStorage.acknowledge_of_le (BitVec.not_lt.1 hn)] at h'
      refine .inl ⟨_, _, h', fun m hm => ?_⟩
      cases hm
      exact BitVec.not_lt.1 hn
  | sequential n variant =>
    rw [recvSegment, recvSequential] at h
    cases hr : s.recvStorage.recv n variant with
    | error f => simp [hr] at h
    | ok x =>
      obtain ⟨r, st⟩ := x
      cases r with
      | ok u =>
        simp only [hr, Except.ok.injEq] at h
        cases h
        exact .inr (.inr ⟨n, variant, st, rfl, hr, rfl, rfl⟩)
      | error err =>
        obtain rfl := RecvStorage.recv_error hr
        simp only [hr, Except.ok.injEq] at h
        exact .inl ⟨_, _, h.symm, nofun⟩

theorem threadAck_eq {t t' : Instant} {sent : IoResult Unit} {calls : List ListenerCall}
    {pc : WorkerPc} (h : s.threadAck t t' sent = (s', calls, pc)) :
    ∃ st, (pc = .send ∧ s' = { s with recvStorage := st }) ∨
      (pc = .exited ∧ ∃ err, s' = (error { s with recvStorage := st } err true).1) := by
  rw [threadAck] at h
  split at h
  · cases h
    exact ⟨_, .inl ⟨rfl, rfl⟩⟩
  · rename_i n st hp
    cases sent with
    | ok u =>
      cases h
      exact ⟨st, .inl ⟨rfl, rfl⟩⟩
    | error err =>
      cases h
      exact ⟨st, .inr ⟨rfl, err, rfl⟩⟩

theorem threadSend_eq_ok {t t' : Instant} {sent : IoResult Unit} {calls : List ListenerCall}
    {pc : WorkerPc} (h : s.threadSend t t' sent = .ok (s', calls, pc)) :
    ∃ r st, SendStorage.PopResult s.sendStorage t t' r st ∧
      ((pc ≠ .exited ∧ s' = { s with sendStorage := st }) ∨
        (pc = .exited ∧ ∃ err, s' = (error { s with sendStorage := st } err true).1)) := by
  rw [threadSend] at h
  cases hp : s.sendStorage.pop t t' with
  | error f => simp [hp] at h
  | ok x =>
    obtain ⟨r, st⟩ := x
    refine ⟨r, st, .of_pop hp, ?_⟩
    cases r with
    | none =>
      simp only [hp, Except.ok.injEq] at h
      cases h
      exact .inl ⟨nofun, rfl⟩
    | some v =>
      obtain ⟨n, variant⟩ := v
      simp only [hp, Except.ok.injEq] at h
      cases sent with
      | ok u =>
        cases h
        exact .inl ⟨nofun, rfl⟩
      | error err =>
        cases h
        exact .inr ⟨rfl, err, rfl⟩

/-- With every datagram sent, the worker changes nothing but the storages. -/
theorem threadAck_of_sent (s : StreamInner) (t t' : Instant) :
    ∃ st calls, s.threadAck t t' (.ok ()) = ({ s with recvStorage := st }, calls, .send) := by
  rw [threadAck]
  split
  · exact ⟨_, _, rfl⟩
  · exact ⟨_, _, rfl⟩

theorem threadSend_of_sent (s : StreamInner) (t t' : Instant)
    (hlen : s.sendStorage.queueSent.length ≤ windowSize.toNat) :
    ∃ r st calls pc, SendStorage.PopResult s.sendStorage t t' r st ∧
      s.threadSend t t' (.ok ()) = .ok ({ s with sendStorage := st }, calls, pc) := by
  obtain ⟨r, st, hp, hres⟩ := SendStorage.pop_result t t' hlen
  refine ⟨r, st, ?_⟩
  rw [threadSend, hp]
  rcases r with _ | ⟨n, variant⟩
  · exact ⟨_, _, hres, rfl⟩
  · exact ⟨_, _, hres, rfl⟩

end StreamInner

end Mdswp
