import Mdswp.Stream.RecvWindow
import Mdswp.Stream.SendBlock

/-!
# One direction of a connection

A `Link` is the send storage of one end, the receive storage of the other and the network between
them. The network keeps every copy it was ever given, in order; a copy may be delivered any number
of times, at any time, or never, so copies are lost, duplicated and reordered. What a given network
does not do is said by a condition on the steps of a run:

* `Timely`: no copy is delivered once the sender has issued more than 200 numbers beyond its own;
* `InOrder`: a copy is delivered only if no later one has been. This is a first-in first-out
  channel that may lose and duplicate.

Positions count the issued numbers from `0` and do not wrap. Position `0` has the number exchanged
while the connection is opened, that of `Establish` or of `Accept`; the `k`-th segment that `push`
accepts has position `k + 1`.
-/

namespace Mdswp

open Serial

/-- A `Sequential` segment in the network, and its position. -/
structure Copy where
  pos : ℕ
  seqNum : SequenceNumber
  segment : SequentialSegment
  deriving DecidableEq

/-- An `Acknowledge` segment in the network, and the position of the number it carries. -/
structure AckCopy where
  pos : ℕ
  ackNum : SequenceNumber
  deriving DecidableEq

structure Link where
  sender : SendStorage
  receiver : RecvStorage
  /-- The segments `push` has accepted, in order. -/
  accepted : List SequentialSegment
  /-- The segments the reader has popped, in order. -/
  popped : List SequentialSegment
  /-- The position of the last number issued. -/
  issued : ℕ
  /-- Every `Sequential` segment sent, in order. -/
  copies : List Copy
  /-- Every `Acknowledge` segment sent, in order. -/
  acks : List AckCopy
  /-- The index of the latest of the copies delivered so far. -/
  copyCursor : ℕ
  /-- The index of the latest of the acknowledgements delivered so far. -/
  ackCursor : ℕ

/-- How the connection was opened. For the direction from the end that connects, `byLocal`, the
number of `Establish` is given; for the other one, `byPeer`, that of `Accept` and the time at which
the acceptor's worker has sent it. -/
inductive Opening
  | byLocal (establishSeqNum : SequenceNumber)
  | byPeer (acceptSeqNum : SequenceNumber) (t : Instant)

/-- The number of position `0`. -/
def Opening.base : Opening → SequenceNumber
  | byLocal n => n
  | byPeer n _ => n

/-- The segment at position `0`: there is none for the connecting end, whose `Establish` is not
sequential. -/
def Opening.first : Opening → Option SequentialSegment
  | byLocal _ => none
  | byPeer _ _ => some .accept

/-- The sender when the link starts. -/
def Opening.sender : Opening → SendStorage
  | byLocal n => .newByLocal n
  | byPeer n t => { queueSent := [⟨n, .accept, t⟩], queueUnsent := [], nextUnsent := n + 1 }

/-- The sender of an accepted connection is the new storage after its first `pop`. -/
theorem Opening.pop_newByPeer (n : SequenceNumber) (t t' : Instant) :
    (SendStorage.newByPeer n).pop t t' = .ok (some (n, .accept), (byPeer n t').sender) := rfl

def Opening.receiver : Opening → RecvStorage
  | byLocal n => .newByPeer n
  | byPeer n _ => .newByLocal n

/-- The link when both storages have been created. -/
def Opening.link (o : Opening) : Link where
  sender := o.sender
  receiver := o.receiver
  accepted := []
  popped := []
  issued := 0
  copies := o.first.toList.map fun segment => ⟨0, o.base, segment⟩
  acks := []
  copyCursor := 0
  ackCursor := 0

namespace Link

/-- How many segments the receiver has released in order, to the reader or to `popQueue`. -/
def released (l : Link) : ℕ := (l.popped ++ l.receiver.popQueue).length

end Link

/-- The segment at a position, when `push` has accepted the given ones. -/
def Opening.content (o : Opening) (accepted : List SequentialSegment) :
    ℕ → Option SequentialSegment
  | 0 => o.first
  | p + 1 => accepted[p]?

inductive LinkEvent
  | push (segment : SequentialSegment) (h : segment ≠ .accept)
  | pop (t t' : Instant)
  | deliver (i : ℕ)
  | popAcknowledge (t t' : Instant)
  | deliverAck (i : ℕ)
  | read

/-- Why a run of a link ends: there is no such copy, `recv` or `acknowledge` returns an error, or
a call does not come back. -/
inductive LinkStop
  | absent
  | segmentRejected (err : IoError)
  | ackRejected (err : IoError)
  | fault (f : Fault)
  deriving DecidableEq

/-- The copy of the segment that `pop` returns: its number is one of the last issued. -/
def copyOf (issued : ℕ) (s : SendStorage) (n : SequenceNumber) (segment : SequentialSegment) :
    Copy :=
  ⟨issued - (s.nextUnsent - 1 - n).toNat, n, segment⟩

def linkStep (l : Link) : LinkEvent → Except LinkStop Link
  | .push segment _ =>
    match l.sender.push segment with
    | .error f => .error (.fault f)
    | .ok (.error _, s) => .ok { l with sender := s }
    | .ok (.ok (), s) => .ok { l with sender := s, accepted := l.accepted ++ [segment] }
  | .pop t t' =>
    match l.sender.pop t t' with
    | .error f => .error (.fault f)
    | .ok (none, s) => .ok { l with sender := s }
    | .ok (some (n, segment), s) =>
      let issued := l.issued + (s.nextUnsent - l.sender.nextUnsent).toNat
      .ok { l with
        sender := s
        issued := issued
        copies := l.copies ++ [copyOf issued s n segment] }
  | .deliver i =>
    match l.copies[i]? with
    | none => .error .absent
    | some c =>
      match l.receiver.recv c.seqNum c.segment with
      | .error f => .error (.fault f)
      | .ok (.error err, _) => .error (.segmentRejected err)
      | .ok (.ok (), r) => .ok { l with receiver := r, copyCursor := max l.copyCursor i }
  | .popAcknowledge t t' =>
    match l.receiver.popAcknowledge t t' with
    | (none, r) => .ok { l with receiver := r }
    | (some n, r) => .ok { l with receiver := r, acks := l.acks ++ [⟨l.released, n⟩] }
  | .deliverAck i =>
    match l.acks[i]? with
    | none => .error .absent
    | some a =>
      match l.sender.acknowledge a.ackNum with
      | (.error err, _) => .error (.ackRejected err)
      | (.ok (), s) => .ok { l with sender := s, ackCursor := max l.ackCursor i }
  | .read =>
    match l.receiver.pop with
    | (none, r) => .ok { l with receiver := r }
    | (some segment, r) => .ok { l with receiver := r, popped := l.popped ++ [segment] }

/-- No copy is delivered once the sender has issued more than 200 numbers beyond the one it
carries. -/
def Timely (l : Link) : LinkEvent → Prop
  | .deliver i => ∀ c ∈ l.copies[i]?, l.issued ≤ c.pos + 200
  | .deliverAck i => ∀ a ∈ l.acks[i]?, l.issued ≤ a.pos + 200
  | _ => True

/-- No copy is delivered after one that was sent later. -/
def InOrder (l : Link) : LinkEvent → Prop
  | .deliver i => l.copyCursor ≤ i
  | .deliverAck i => l.ackCursor ≤ i
  | _ => True

instance (l : Link) (e : LinkEvent) : Decidable (Timely l e) := by
  cases e <;> unfold Timely <;> infer_instance

instance (l : Link) (e : LinkEvent) : Decidable (InOrder l e) := by
  cases e <;> unfold InOrder <;> infer_instance

end Mdswp
