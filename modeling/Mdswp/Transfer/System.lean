import Mdswp.Foundations.Run
import Mdswp.Link.System
import Mdswp.Listener.Peer

/-!
# A transfer

As in the test `file_send`: the end `a`, which has connected, writes, calls `finish_write` and
drops its stream; the end `b`, which has accepted, reads until the end. Each direction of the
network is a queue; nothing is lost, duplicated or reordered.

A failed call ends the program of `a`. Its stream is dropped when the worker does not hold it, that
is between two rounds. The listener of `a` has no other owner than the stream, but its thread holds
it while it waits for a datagram; it answers that one and returns.
-/

namespace Mdswp

/-- What `a` does with its stream before `finish_write`. -/
inductive Call
  | write (buf : List UInt8)
  | flush
  deriving DecidableEq

def Call.bytes : Call → List UInt8
  | write buf => buf
  | flush => []

/-- Where the program of `a` is: the calls that are left, the parts of `finish_write`, what it has
returned, and the drop. -/
inductive Program
  | calls (rest : List Call)
  | flushed
  | waiting
  | returned (result : IoResult Unit)
  | dropped
  deriving DecidableEq

structure Transfer where
  a : Peer
  b : Peer
  program : Program
  /-- The listener's thread of `a` still runs. -/
  listening : Bool
  toA : List Segment
  toB : List Segment
  /-- The length of the buffer of a `read` of `b` that waits. -/
  waiting : Option ℕ
  /-- What `b` has read. -/
  bytesRead : List UInt8

/-- The acceptor once its worker has sent the `Accept`. -/
def Peer.accepted (addr : SocketAddr) (establishSeqNum acceptSeqNum : SequenceNumber)
    (t₀ t : Instant) : Peer where
  stream := { StreamInner.newByPeer addr establishSeqNum acceptSeqNum with
    sendStorage := (Opening.byPeer acceptSeqNum t).sender
    recvStorage := { RecvStorage.newByPeer establishSeqNum with
      lastAck := some (establishSeqNum + 1 - 1, t₀) } }
  worker := .send

/-- The first look of a new acceptor finds nothing to acknowledge. -/
theorem RecvStorage.popAcknowledge_newByPeer (n : SequenceNumber) (t t₀ : Instant) :
    (newByPeer n).popAcknowledge t t₀ =
      (none, { newByPeer n with lastAck := some (n + 1 - 1, t₀) }) := by
  simp [popAcknowledge, newByPeer]

/-- The worker gets there in the first three steps of its life. -/
theorem Peer.work_newByPeer (addr : SocketAddr) (e n : SequenceNumber) (t t₀ t₁ : Instant) :
    ∃ p₁ p₂, work ⟨.newByPeer addr e n, .check⟩ t t = .ok (p₁, []) ∧
      p₁.work t t₀ = .ok (p₂, []) ∧
      p₂.work t t₁ = .ok (accepted addr e n t₀ t₁, [.sequential n .accept]) := by
  refine ⟨_, ⟨{ StreamInner.newByPeer addr e n with
    recvStorage := { RecvStorage.newByPeer e with lastAck := some (e + 1 - 1, t₀) } }, .send⟩, rfl,
    ?_, rfl⟩
  simp only [work, StreamInner.threadCheck, StreamInner.isErr, StreamInner.newByPeer,
    StreamInner.threadAck, RecvStorage.popAcknowledge_newByPeer]
  rfl

namespace Transfer

/-- The connection is open, and nothing has been written. -/
def start (aAddr bAddr : SocketAddr) (establishSeqNum acceptSeqNum : SequenceNumber)
    (t₀ t : Instant) (calls : List Call) : Transfer where
  a := ⟨.newByLocal bAddr establishSeqNum acceptSeqNum, .check⟩
  b := .accepted aAddr establishSeqNum acceptSeqNum t₀ t
  program := .calls calls
  listening := true
  toA := []
  toB := []
  waiting := none
  bytesRead := []

/-- A call of `a` has returned. -/
def called (st : Transfer) (s : StreamInner) (result : IoResult Unit) (next : Program) : Transfer :=
  { st with
    a := { st.a with stream := s }
    program := match result with
      | .ok () => next
      | .error err => .returned (.error err) }

/-- The next step of the program of `a`. -/
def user (st : Transfer) : Exec Transfer :=
  match st.program with
  | .calls (.write buf :: rest) =>
    (st.a.stream.write buf).map fun (result, s) =>
      st.called s (result.map fun _ => ()) (.calls rest)
  | .calls (.flush :: rest) =>
    st.a.stream.flush.map fun (result, s) => st.called s result (.calls rest)
  | .calls [] =>
    st.a.stream.finishWriteFlush.map fun (result, s) => st.called s result .flushed
  | .flushed =>
    st.a.stream.finishWritePush.map fun (result, s, calls) =>
      { st.called s result .waiting with
        toB := st.toB ++ calls.filterMap ListenerCall.segment }
  | .waiting =>
    match st.a.stream.finishWritePoll with
    | (none, _) => .ok st
    | (some result, s) => .ok (st.called s result (.returned result))
  | .returned _ =>
    if st.a.worker = .check ∨ st.a.worker = .exited then
      match st.a.stream.drop with
      | (s, calls) =>
        .ok { st with
          a := { st.a with stream := s }
          program := .dropped
          toB := st.toB ++ calls.filterMap ListenerCall.segment }
    else .ok st
  | .dropped => .ok st

/-- A datagram reaches the listener of `a`. -/
def deliverA (st : Transfer) (segment : Segment) : Exec Transfer :=
  if st.listening then
    if st.program = .dropped then
      .ok { st with toB := st.toB ++ [.reset], listening := false }
    else (st.a.deliver segment).map fun (a, out) => { st with a := a, toB := st.toB ++ out }
  else .ok st

/-- A `read` of `b` with a buffer of `len` bytes has returned, or goes on waiting. -/
def readResult (st : Transfer) (len : ℕ) :
    Option (IoResult (List UInt8)) × StreamInner → Transfer
  | (result, s) =>
    { st with
      b := { st.b with stream := s }
      waiting := if result = none then some len else none
      bytesRead := st.bytesRead ++ match result with
        | some (.ok bytes) => bytes
        | _ => [] }

end Transfer

inductive TransferEvent
  | user
  | workA (t t' : Instant)
  | deliverA
  | endListener
  | workB (t t' : Instant)
  | deliverB
  | read (len : ℕ)
  | readWait

/-- The event of a part that has nothing to do does nothing. -/
def transferStep (st : Transfer) : TransferEvent → Exec Transfer
  | .user => st.user
  | .workA t t' =>
    if st.program = .dropped then
      .ok { st with a := { st.a with worker := StreamInner.threadCheck none } }
    else (st.a.work t t').map fun (a, out) => { st with a := a, toB := st.toB ++ out }
  | .deliverA =>
    match st.toA with
    | [] => .ok st
    | segment :: rest => Transfer.deliverA { st with toA := rest } segment
  | .endListener => .ok { st with listening := st.listening && st.program ≠ .dropped }
  | .workB t t' => (st.b.work t t').map fun (b, out) => { st with b := b, toA := st.toA ++ out }
  | .deliverB =>
    match st.toB with
    | [] => .ok st
    | segment :: rest => (st.b.deliver segment).map fun (b, out) =>
      { st with b := b, toA := st.toA ++ out, toB := rest }
  -- the loop is over when `is_read_finished` returns an error or `true`
  | .read len =>
    match st.waiting, st.b.stream.isReadFinished with
    | none, .ok false => .ok (st.readResult len (st.b.stream.read len))
    | _, _ => .ok st
  | .readWait =>
    match st.waiting with
    | none => .ok st
    | some len => .ok (st.readResult len (st.b.stream.readWait len))

end Mdswp
