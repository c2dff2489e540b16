import Mdswp.Listener.Peer
import Mdswp.Stream.Rounds

/-!
# A connection in both directions

A `Duplex` is both ends of a connection, each with its worker and any calls of its user, and the
network between them. As in a `Link` the network keeps every packet it was ever given; a packet may
arrive any number of times, at any time, or never. The connector comes into being when an `Accept`
has been sent.

A step is what a thread does under one lock, so that other threads come in between a look of a call
or of the worker at the state of the connection and what follows, between the rounds of a loop, and
before `finish_write` sets `sendFinished`. What `read` does under further locks to `recvBuffer` and
`recvFinished`, which nothing else changes, is part of its step, and a packet is sent in the step
that has taken it from its storage. The error that ends a call or a round of the worker belongs to
the last step of that; as an event of its own it may also come later. A worker that panics at its
second look holds no lock, and the other threads go on.

An end also records what its user has written and read, the segments that have been pushed and
popped, and what had been written when `Finish` was first pushed (`Station`). None of this
influences a step. `Station.Step` lists what a step can do to an end, apart from its worker and the
calls that write.
-/

namespace Mdswp

open StreamInner

/-- A segment in the network. -/
structure Packet where
  segment : Segment
  /-- How many numbers the end that sent it had issued by then. -/
  senderIssued : ℕ
  /-- How many numbers the other end had issued by then. -/
  receiverIssued : ℕ
  deriving DecidableEq

def Segment.isAccept : Segment → Bool
  | .sequential _ .accept => true
  | _ => false

/-- Where a `read` is in its loop. Its user has given it `len` bytes. -/
inductive ReadPc
  | looking (len : ℕ)
  | popping (len : ℕ)
  deriving DecidableEq

structure Station where
  stream : StreamInner
  /-- The `read` that holds the lock of `recvBuffer`. -/
  reader : Option ReadPc
  /-- How many numbers it has issued. -/
  issued : ℕ
  /-- Every packet it has sent, in order. -/
  outbox : List Packet
  /-- The bytes that `write` calls have put into `sendBuffer`. -/
  written : List UInt8
  /-- What had been written, and what of it was still buffered, when `Finish` was first pushed. -/
  closed : Option (List UInt8 × List UInt8)
  /-- The bytes that `read` calls have returned. -/
  bytesRead : List UInt8
  /-- The segments that `push` has accepted. -/
  accepted : List SequentialSegment
  /-- The segments that `read` calls have popped. -/
  popped : List SequentialSegment

/-- A call that writes. -/
inductive WriteKind
  | write (buf : List UInt8)
  | flush
  | finishWrite
  deriving DecidableEq

/-- How far such a call is: it has found the connection open, or it is in its loop with the lock of
`sendBuffer`, or its `Finish` comes next, or has been pushed behind the segments `before`, or it has
then found the storage empty, or it has returned. -/
inductive WritePc
  | checked
  | pushing
  | flushed
  | waiting (before : List SequentialSegment)
  | emptied (before : List SequentialSegment)
  | returned (result : IoResult Unit)
  deriving DecidableEq

structure WriteCall where
  kind : WriteKind
  pc : WritePc
  deriving DecidableEq

namespace WriteKind

/-- What the call puts into `sendBuffer`. -/
def bytes : WriteKind → List UInt8
  | .write buf => buf
  | .flush | .finishWrite => []

/-- Its loop goes on while that many bytes are buffered. -/
def atLeast : WriteKind → ℕ
  | .write _ => maxDataLen
  | .flush | .finishWrite => 1

theorem atLeast_pos (kind : WriteKind) : 0 < kind.atLeast := by
  cases kind with
  | write buf => exact (by decide : 0 < maxDataLen)
  | _ => exact Nat.one_pos

/-- Where the call goes on after its loop. -/
def ended : WriteKind → IoResult Unit → WritePc
  | .finishWrite, .ok () => .flushed
  | _, result => .returned result

end WriteKind

/-- An end of a connection: a stream with its worker, and the calls that write. -/
structure Party extends Station where
  worker : ThreadPc
  calls : List WriteCall

/-- A new stream. -/
def Party.new (s : StreamInner) : Party where
  stream := s
  reader := none
  issued := 0
  outbox := []
  written := []
  closed := none
  bytesRead := []
  accepted := []
  popped := []
  worker := .check
  calls := []

inductive PartyEvent
  | call (kind : WriteKind)
  /-- The call takes the lock of `sendBuffer`. -/
  | lock (k : ℕ)
  | push (k : ℕ)
  | finishPush (k : ℕ)
  | finishPoll (k : ℕ)
  | finishDone (k : ℕ)
  | read (len : ℕ)
  | readHead
  | readPop
  /-- `reset`, or `Drop` of an unfinished stream, or a datagram that is malformed or forged. -/
  | error (err : IoError) (sendReset : Bool)
  /-- The same, with a look at the state of the connection that may be out of date. -/
  | errorLate (err : IoError) (sendReset : Bool)
  /-- A packet of the other end reaches the stream. -/
  | deliver (i : ℕ)
  /-- The listener, which does not know the connection, answers with a `Reset`. -/
  | refuse
  | work (t t' : Instant) (sent : IoResult Unit)

namespace Station

/-- The stream changes, and sends segments. -/
def react (x y : Station) (s : StreamInner) (segments : List Segment) : Station :=
  let issued := x.issued + (s.sendStorage.nextUnsent - x.stream.sendStorage.nextUnsent).toNat
  { x with
    stream := s
    issued := issued
    outbox := x.outbox ++ segments.map fun segment => ⟨segment, issued, y.issued⟩ }

/-- A call that writes has the lock of `sendBuffer`. -/
def taking (x : Station) (bytes : List UInt8) : Station :=
  { x with
    stream := { x.stream with sendBuffer := x.stream.sendBuffer ++ bytes }
    written := x.written ++ bytes }

/-- The round of a call that writes has pushed what is new at the end of the queue. -/
def pushedData (x : Station) (s : StreamInner) : Station :=
  { x with
    stream := s
    accepted := x.accepted ++
      s.sendStorage.queueUnsent.drop x.stream.sendStorage.queueUnsent.length }

/-- `read` takes the lock of `recvBuffer`, unless another one holds it. -/
def startRead (x : Station) (len : ℕ) : Station :=
  match x.reader, x.stream.isReadFinished with
  | none, .ok false => { x with reader := some (.looking len) }
  | _, _ => x

/-- The head of the loop of `read`. -/
def lookRead (x : Station) : Station :=
  match x.reader with
  | some (.looking len) =>
    match x.stream.readHead with
    | none => { x with reader := some (.popping len) }
    | some (.error _) => { x with reader := none }
    | some (.ok ()) =>
      match x.stream.readTake len with
      | (bytes, s) => { x with stream := s, reader := none, bytesRead := x.bytesRead ++ bytes }
  | _ => x

/-- The rest of its round. -/
def popRead (x : Station) : Station :=
  match x.reader with
  | some (.popping len) =>
    { x with
      stream := x.stream.readPop
      reader := some (.looking len)
      popped := x.popped ++ x.stream.recvStorage.pop.1.toList }
  | _ => x

/-- The push of a `finish_write` has returned. -/
def pushedFinish (x y : Station) : IoResult Unit × StreamInner × List ListenerCall → Station
  | (.ok (), s, calls) =>
    { x.react y s (calls.filterMap ListenerCall.segment) with
      closed := x.closed <|> some (x.written, x.stream.sendBuffer)
      accepted := x.accepted ++ [.finish] }
  | (.error _, s, calls) => x.react y s (calls.filterMap ListenerCall.segment)

/-- The connection errs. -/
def fail (x y : Station) (err : IoError) (sendReset : Bool) : Station :=
  x.react y (x.stream.error err sendReset).1
    ((x.stream.error err sendReset).2.filterMap ListenerCall.segment)

/-- It errs, though it may have done so since the call of `error` has looked. -/
def failLate (x y : Station) (err : IoError) (sendReset : Bool) : Station :=
  x.react y (x.stream.errorLocked err sendReset).1
    ((x.stream.errorLocked err sendReset).2.filterMap ListenerCall.segment)

end Station

namespace Party

/-- One step of an end, whose peer is `y`. The events of a call that is not there, or not in that
part, and those of a worker that has come to its end, do nothing. -/
def step (x : Party) (y : Station) : PartyEvent → Exec Party
  | .call kind =>
    .ok { x with
      calls := x.calls ++ [⟨kind, match x.stream.streamState with
        | .ok () => .checked
        | .error err => .returned (.error err)⟩] }
  | .lock k =>
    match x.calls[k]? with
    | some ⟨kind, .checked⟩ =>
      if x.calls.any fun c => c.pc = .pushing then .ok x
      else
        .ok { x with
          toStation := x.taking kind.bytes
          calls := x.calls.set k ⟨kind, .pushing⟩ }
    | _ => .ok x
  | .push k =>
    match x.calls[k]? with
    | some ⟨kind, .pushing⟩ =>
      (x.stream.pushRound kind.atLeast).map fun (r, s) =>
        { x with
          toStation := x.pushedData s
          calls := match r with
            | none => x.calls
            | some result => x.calls.set k ⟨kind, kind.ended result⟩ }
    | _ => .ok x
  | .finishPush k =>
    match x.calls[k]? with
    | some ⟨kind, .flushed⟩ =>
      x.stream.finishWritePush.map fun result =>
        { x with
          toStation := x.pushedFinish y result
          calls := x.calls.set k ⟨kind, match result.1 with
            | .ok () => .waiting x.accepted
            | .error err => .returned (.error err)⟩ }
    | _ => .ok x
  | .finishPoll k =>
    match x.calls[k]? with
    | some ⟨kind, .waiting before⟩ =>
      if x.stream.sendStorage.isEmpty then
        .ok { x with calls := x.calls.set k ⟨kind, .emptied before⟩ }
      else .ok x
    | _ => .ok x
  | .finishDone k =>
    match x.calls[k]? with
    | some ⟨kind, .emptied _⟩ =>
      .ok { x with
        stream := x.stream.finishWriteDone
        calls := x.calls.set k ⟨kind, .returned (.ok ())⟩ }
    | _ => .ok x
  | .read len => .ok { x with toStation := x.startRead len }
  | .readHead => .ok { x with toStation := x.lookRead }
  | .readPop => .ok { x with toStation := x.popRead }
  | .error err sendReset => .ok { x with toStation := x.fail y err sendReset }
  | .errorLate err sendReset => .ok { x with toStation := x.failLate y err sendReset }
  | .deliver i =>
    match y.outbox[i]? with
    | none => .ok x
    | some p =>
      (x.stream.recvSegment p.segment).map fun (s, calls) =>
        { x with toStation := x.react y s (calls.filterMap ListenerCall.segment) }
  | .refuse => .ok { x with toStation := x.react y x.stream [.reset] }
  | .work t t' sent =>
    match x.worker with
    | .ack =>
      match x.stream.threadAck t t' sent with
      | (s, calls, pc) =>
        .ok { x with
          toStation := x.react y s (calls.filterMap ListenerCall.segment)
          worker := pc.toThreadPc }
    | .send =>
      (x.stream.threadSend t t' sent).map fun (s, calls, pc) =>
        { x with
          toStation := x.react y s (calls.filterMap ListenerCall.segment)
          worker := pc.toThreadPc }
    | pc => .ok { x with worker := x.stream.threadLook pc }

end Party

structure Duplex where
  connector : Party
  acceptor : Party

inductive DuplexEvent
  | connector (e : PartyEvent)
  | acceptor (e : PartyEvent)

namespace Duplex

/-- The connection as both ends create it. -/
def new (connectorAddr acceptorAddr : SocketAddr) (establishSeqNum acceptSeqNum : SequenceNumber) :
    Duplex where
  connector := .new (.newByLocal acceptorAddr establishSeqNum acceptSeqNum)
  acceptor := .new (.newByPeer connectorAddr establishSeqNum acceptSeqNum)

/-- An `Accept` has been sent. -/
def Opened (st : Duplex) : Prop := st.acceptor.outbox.any fun p => p.segment.isAccept

instance (st : Duplex) : Decidable st.Opened := inferInstanceAs (Decidable (_ = true))

end Duplex

def duplexStep (st : Duplex) : DuplexEvent → Exec Duplex
  | .connector e =>
    if st.Opened then
      (st.connector.step st.acceptor.toStation e).map fun x => { st with connector := x }
    else .ok st
  | .acceptor e =>
    (st.acceptor.step st.connector.toStation e).map fun x => { st with acceptor := x }

/-- A packet arrives before either end has issued more than 180 numbers since it was sent. -/
def Packet.Fresh (p : Packet) (sender receiver : Station) : Prop :=
  sender.issued ≤ p.senderIssued + 180 ∧ receiver.issued ≤ p.receiverIssued + 180

instance (p : Packet) (sender receiver : Station) : Decidable (p.Fresh sender receiver) :=
  inferInstanceAs (Decidable (_ ∧ _))

namespace Party

/-- The event is a part of a call that pushes a segment. -/
def pushes (x : Party) : PartyEvent → Bool
  | .push k =>
    match x.calls[k]? with
    | some ⟨kind, .pushing⟩ => kind.atLeast ≤ x.stream.sendBuffer.length
    | _ => false
  | .finishPush k =>
    match x.calls[k]? with
    | some ⟨_, .flushed⟩ => true
    | _ => false
  | _ => false

/-- The packet that arrives. -/
def arriving (y : Station) : PartyEvent → Option Packet
  | .deliver i => y.outbox[i]?
  | _ => none

/-- What arrives is fresh, and no call pushes to a stream that has errored since the call looked at
its state. -/
structure Orderly (x : Party) (y : Station) (e : PartyEvent) : Prop where
  healthy : x.pushes e → x.stream.isErr = false
  fresh : ∀ p ∈ arriving y e, p.Fresh y x.toStation

instance (x : Party) (y : Station) (e : PartyEvent) : Decidable (x.Orderly y e) :=
  decidable_of_iff ((x.pushes e → x.stream.isErr = false) ∧
    ∀ p ∈ arriving y e, p.Fresh y x.toStation) ⟨fun ⟨h, h'⟩ => ⟨h, h'⟩, fun ⟨h, h'⟩ => ⟨h, h'⟩⟩

end Party

def Orderly (st : Duplex) : DuplexEvent → Prop
  | .connector e => st.connector.Orderly st.acceptor.toStation e
  | .acceptor e => st.acceptor.Orderly st.connector.toStation e

instance (st : Duplex) : ∀ e, Decidable (Orderly st e)
  | .connector _ => inferInstanceAs (Decidable (Party.Orderly _ _ _))
  | .acceptor _ => inferInstanceAs (Decidable (Party.Orderly _ _ _))

/-! ## What a step does -/

namespace Station

/-- What a step that does not end the connection does. -/
inductive Step (x y : Station) : Station → Prop
  | same : Step x y x
  | takes (bytes : List UInt8) : Step x y (x.taking bytes)
  | pushes (b : List UInt8) (ds : List DataSegment) (he : x.stream.isErr = false)
    (hb : x.stream.sendStorage.finishedUnchecked = .ok false →
      ds.flatMap DataSegment.data ++ b = x.stream.sendBuffer) :
    Step x y { x with
      stream := x.stream.pushed b ds
      accepted := x.accepted ++ ds.map .data }
  | finishes (he : x.stream.isErr = false)
    (hf : x.stream.sendStorage.finishedUnchecked = .ok false) :
    Step x y { x with
      stream := { x.stream with sendStorage := x.stream.sendStorage.pushBack .finish }
      closed := x.closed <|> some (x.written, x.stream.sendBuffer)
      accepted := x.accepted ++ [.finish] }
  | finished : Step x y { x with stream := x.stream.finishWriteDone }
  | looks (r : Option ReadPc) (hr : ∀ len, r = some (.popping len) →
      x.stream.recvBuffer = [] ∧ x.stream.recvFinished = false) : Step x y { x with reader := r }
  | reads (len : ℕ) :
    Step x y { x with
      stream := (x.stream.readTake len).2
      reader := none
      bytesRead := x.bytesRead ++ (x.stream.readTake len).1 }
  | pops (len : ℕ) (hr : x.reader = some (.popping len)) :
    Step x y { x with
      stream := x.stream.readPop
      reader := some (.looking len)
      popped := x.popped ++ x.stream.recvStorage.pop.1.toList }
  | receives (p : Packet) (n : SequenceNumber) (segment : SequentialSegment) (r : RecvStorage)
    (hp : p ∈ y.outbox) (hf : p.Fresh y x) (hs : p.segment = .sequential n segment)
    (hr : x.stream.recvStorage.recv n segment = .ok (.ok (), r)) :
    Step x y { x with stream := { x.stream with recvStorage := r } }
  | acked (p : Packet) (n : SequenceNumber) (hp : p ∈ y.outbox) (hf : p.Fresh y x)
    (hs : p.segment = .acknowledge n)
    (hn : x.stream.sendStorage.nextUnsent - n < windowSize) :
    Step x y { x with
      stream := { x.stream with sendStorage := (x.stream.sendStorage.acknowledge n).2 } }
  | acknowledges (t t' : Instant) (k : Option SequenceNumber) (r : RecvStorage)
    (hk : x.stream.recvStorage.popAcknowledge t t' = (k, r)) :
    Step x y (x.react y { x.stream with recvStorage := r } (k.toList.map .acknowledge))
  | sends (t t' : Instant) (k : Option (SequenceNumber × SequentialSegment)) (s : SendStorage)
    (hk : x.stream.sendStorage.pop t t' = .ok (k, s)) :
    Step x y (x.react y { x.stream with sendStorage := s }
      (k.toList.map fun v => .sequential v.1 v.2))
  | refuses : Step x y (x.react y x.stream [.reset])

/-- A step goes on with the connection, and may then end it, for the first time or again. -/
inductive Outcome (x y : Station) : Station → Prop
  | goesOn {x' : Station} (h : Step x y x') : Outcome x y x'
  | ends {x₁ : Station} (h : Step x y x₁) (err : IoError) (sendReset : Bool) :
    Outcome x y (x₁.failLate y err sendReset)

variable {x x' y : Station} {s : StreamInner}

theorem pushedData_self (x : Station) : x.pushedData x.stream = x := by
  rw [pushedData, List.drop_length, List.append_nil]

theorem pushedData_pushed (x : Station) (b : List UInt8) (ds : List DataSegment) :
    x.pushedData (x.stream.pushed b ds) = { x with
      stream := x.stream.pushed b ds
      accepted := x.accepted ++ ds.map .data } := by
  rw [pushedData, pushed, List.drop_left]

theorem react_of_nextUnsent (h : s.sendStorage.nextUnsent = x.stream.sendStorage.nextUnsent)
    (y : Station) (segments : List Segment) : x.react y s segments = { x with
      stream := s
      outbox := x.outbox ++ segments.map fun segment => ⟨segment, x.issued, y.issued⟩ } := by
  rw [react, h, BitVec.sub_self]
  rfl

theorem error_nextUnsent (s : StreamInner) (err : IoError) (sendReset : Bool) :
    (s.error err sendReset).1.sendStorage.nextUnsent = s.sendStorage.nextUnsent := by
  cases he : s.isErr with
  | true => rw [error_of_isErr he]
  | false =>
    rw [error_of_not_isErr he]
    rfl

/-- The connection errs after the stream has changed. -/
theorem fail_react (x y : Station) (s : StreamInner) (segments : List Segment) (err : IoError)
    (sendReset : Bool) : (x.react y s segments).fail y err sendReset =
      x.react y (s.error err sendReset).1
        (segments ++ (s.error err sendReset).2.filterMap ListenerCall.segment) := by
  rw [fail, react_of_nextUnsent (error_nextUnsent _ err sendReset)]
  simp only [react, error_nextUnsent, List.map_append, List.append_assoc]

theorem fail_eq (x y : Station) (err : IoError) (sendReset : Bool) :
    x.fail y err sendReset = if x.stream.isErr then x else x.failLate y err sendReset := by
  rw [fail, error_eq]
  split_ifs
  · rw [react_of_nextUnsent rfl]
    simp
  · rfl

theorem Step.outcome_fail {x₁ : Station} (h : Step x y x₁) (err : IoError) (sendReset : Bool) :
    Outcome x y (x₁.fail y err sendReset) := by
  rw [fail_eq]
  split_ifs
  · exact .goesOn h
  · exact .ends h err sendReset

theorem outcome_deliver {p : Packet} {calls : List ListenerCall} (hp : p ∈ y.outbox)
    (hf : p.Fresh y x) (h : x.stream.recvSegment p.segment = .ok (s, calls)) :
    Outcome x y (x.react y s (calls.filterMap ListenerCall.segment)) := by
  rcases recvSegment_eq_ok h with ⟨err, sendReset, heq, -⟩ | ⟨n, hs, hn, rfl, rfl⟩ |
    ⟨n, segment, r, hs, hr, rfl, rfl⟩
  · obtain ⟨rfl, rfl⟩ := Prod.mk.inj heq
    exact Step.same.outcome_fail err sendReset
  · rw [react_of_nextUnsent]
    · simpa using Outcome.goesOn (.acked p n hp hf hs hn)
    · dsimp only
      rw [SendStorage.acknowledge_of_lt hn]
  · rw [react_of_nextUnsent]
    · simpa using Outcome.goesOn (.receives p n segment r hp hf hs hr)
    · rfl

theorem outcome_threadAck {t t' : Instant} {sent : IoResult Unit} {calls : List ListenerCall}
    {pc : WorkerPc} (h : x.stream.threadAck t t' sent = (s, calls, pc)) :
    Outcome x y (x.react y s (calls.filterMap ListenerCall.segment)) := by
  rw [threadAck] at h
  cases hk : x.stream.recvStorage.popAcknowledge t t' with
  | mk k r =>
  have hstep : Step x y _ := .acknowledges t t' k r hk
  rw [hk] at h
  cases k with
  | none =>
    cases h
    exact .goesOn hstep
  | some n =>
    cases sent with
    | ok u =>
      cases h
      exact .goesOn hstep
    | error err =>
      cases h
      have hout := hstep.outcome_fail err true
      rwa [fail_react] at hout

theorem outcome_threadSend {t t' : Instant} {sent : IoResult Unit} {calls : List ListenerCall}
    {pc : WorkerPc} (h : x.stream.threadSend t t' sent = .ok (s, calls, pc)) :
    Outcome x y (x.react y s (calls.filterMap ListenerCall.segment)) := by
  rw [threadSend] at h
  cases hk : x.stream.sendStorage.pop t t' with
  | error f => simp [hk] at h
  | ok v =>
    obtain ⟨k, st⟩ := v
    have hstep : Step x y _ := .sends t t' k st hk
    cases k with
    | none =>
      simp only [hk, Except.ok.injEq] at h
      cases h
      exact .goesOn hstep
    | some v =>
      obtain ⟨n, segment⟩ := v
      simp only [hk, Except.ok.injEq] at h
      cases sent with
      | ok u =>
        cases h
        exact .goesOn hstep
      | error err =>
        cases h
        have hout := hstep.outcome_fail err true
        rwa [fail_react] at hout

theorem outcome_startRead (len : ℕ) : Outcome x y (x.startRead len) := by
  rw [startRead]
  split
  · exact .goesOn (.looks _ nofun)
  · exact .goesOn .same

theorem outcome_lookRead : Outcome x y x.lookRead := by
  rw [lookRead]
  split
  · rename_i len hr
    cases hhead : x.stream.readHead with
    | none => exact .goesOn (.looks _ fun _ _ => readHead_eq_none hhead)
    | some r =>
      cases r with
      | error err => exact .goesOn (.looks _ nofun)
      | ok u => exact .goesOn (.reads len)
  · exact .goesOn .same

theorem outcome_popRead : Outcome x y x.popRead := by
  rw [popRead]
  split
  · rename_i len hr
    exact .goesOn (.pops len hr)
  · exact .goesOn .same

theorem outcome_pushRound {atLeast : ℕ} {r : Option (IoResult Unit)}
    (he : atLeast ≤ x.stream.sendBuffer.length → x.stream.isErr = false)
    (h : x.stream.pushRound atLeast = .ok (r, s)) : Outcome x y (x.pushedData s) := by
  rcases lt_or_ge x.stream.sendBuffer.length atLeast with hlen | hlen
  · rw [pushRound_of_lt hlen] at h
    cases h
    rw [pushedData_self]
    exact .goesOn .same
  · obtain ⟨b, ds, rfl, hb⟩ := pushRound_eq_ok h
    rw [pushedData_pushed]
    exact .goesOn (.pushes b ds (he hlen) hb)

end Station

namespace Party

variable {x x' : Party} {y : Station} {e : PartyEvent}

theorem outcome_finishPush {result : IoResult Unit × StreamInner × List ListenerCall}
    (he : x.stream.isErr = false) (h : x.stream.finishWritePush = .ok result) :
    x.toStation.Outcome y (x.pushedFinish y result) := by
  rw [finishWritePush] at h
  cases hp : x.stream.sendStorage.push .finish with
  | error f => simp [hp] at h
  | ok v =>
    rcases SendStorage.push_eq_ok finish_ne_accept hp with ⟨hf, rfl⟩ | ⟨hf, rfl⟩
    · simp only [hp, Except.ok.injEq] at h
      subst h
      exact Station.Step.same.outcome_fail (cloneIoErr connWriteFinished) true
    · simp only [hp, Except.ok.injEq] at h
      subst h
      rw [Station.pushedFinish, Station.react_of_nextUnsent (by rfl)]
      have hstep : x.toStation.Step y _ := .finishes he hf
      simpa using Station.Outcome.goesOn hstep

/-- What an orderly step does. -/
theorem step_outcome (ho : x.Orderly y e) (h : x.step y e = .ok x') :
    x.toStation.Outcome y x'.toStation := by
  have hhealthy := ho.healthy
  cases e with
  | call kind =>
    cases h
    exact .goesOn .same
  | lock k =>
    rw [step] at h
    split at h
    · split_ifs at h
      · cases h
        exact .goesOn .same
      · cases h
        exact .goesOn (.takes _)
    · cases h
      exact .goesOn .same
  | push k =>
    rw [step] at h
    rw [pushes] at hhealthy
    split at h
    · rename_i kind hk
      obtain ⟨⟨r, s⟩, hp, rfl⟩ := exists_of_map_eq_ok h
      simp only [hk, decide_eq_true_eq] at hhealthy
      exact Station.outcome_pushRound hhealthy hp
    · cases h
      exact .goesOn .same
  | finishPush k =>
    rw [step] at h
    rw [pushes] at hhealthy
    split at h
    · rename_i kind hk
      obtain ⟨result, hp, rfl⟩ := exists_of_map_eq_ok h
      simp only [hk, true_implies] at hhealthy
      exact outcome_finishPush hhealthy hp
    · cases h
      exact .goesOn .same
  | finishPoll k =>
    rw [step] at h
    split at h
    · split_ifs at h <;> cases h <;> exact .goesOn .same
    · cases h
      exact .goesOn .same
  | finishDone k =>
    rw [step] at h
    split at h
    · cases h
      exact .goesOn .finished
    · cases h
      exact .goesOn .same
  | read len =>
    cases h
    exact Station.outcome_startRead len
  | readHead =>
    cases h
    exact Station.outcome_lookRead
  | readPop =>
    cases h
    exact Station.outcome_popRead
  | error err sendReset =>
    cases h
    exact Station.Step.same.outcome_fail err sendReset
  | errorLate err sendReset =>
    cases h
    exact .ends .same err sendReset
  | deliver i =>
    rw [step] at h
    cases hi : y.outbox[i]? with
    | none =>
      rw [hi] at h
      cases h
      exact .goesOn .same
    | some p =>
      rw [hi] at h
      obtain ⟨⟨s, calls⟩, hr, rfl⟩ := exists_of_map_eq_ok h
      exact Station.outcome_deliver (List.mem_of_getElem? hi) (ho.fresh p hi) hr
  | refuse =>
    cases h
    exact .goesOn .refuses
  | work t t' sent =>
    rw [step] at h
    cases hw : x.worker with
    | ack =>
      cases hack : x.stream.threadAck t t' sent with
      | mk s v =>
        obtain ⟨calls, pc⟩ := v
        simp only [hw, hack] at h
        cases h
        exact Station.outcome_threadAck hack
    | send =>
      rw [hw] at h
      obtain ⟨⟨s, calls, pc⟩, hsend, rfl⟩ := exists_of_map_eq_ok h
      exact Station.outcome_threadSend hsend
    | _ =>
      rw [hw] at h
      cases h
      exact .goesOn .same

end Party

end Mdswp
