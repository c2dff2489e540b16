import Mathlib.Data.List.AList
import Mdswp.Stream.Inner

/-!
# The listener (`listener/inner.rs`)

`ListenerInner` owns the socket, and the table that yields the stream of a peer address. A stream is
known by its `StreamId`; the listener keeps what the references to it lead to. Whatever is handed to
the socket is returned as a list of `Datagram`s.
-/

namespace Mdswp

/-- The index of a stream among those of its listener. -/
abbrev StreamId := ℕ

/-- What an `Arc<StreamInner>` leads to; `Weak::upgrade` succeeds while the stream is `live`. -/
structure StreamCell where
  inner : StreamInner
  live : Bool

structure Datagram where
  addr : SocketAddr
  bytes : List UInt8
  deriving DecidableEq

structure ListenerInner where
  connections : AList fun _ : SocketAddr => StreamId
  toAccept : List StreamId
  error : IoResult Unit
  streams : List StreamCell

namespace ListenerInner

/-- A listener without connections. -/
def empty : ListenerInner where
  connections := ∅
  toAccept := []
  error := .ok ()
  streams := []

def isErr (l : ListenerInner) : Bool :=
  match l.error with
  | .ok () => false
  | .error _ => true

/-- `accept_nonblocking`; a stream is handed out as its index. -/
def acceptNonblocking (l : ListenerInner) :
    IoResult (Option (StreamId × SocketAddr)) × ListenerInner :=
  match l.error with
  | .error err => (.error (cloneIoErr err), l)
  | .ok () =>
    match l.toAccept with
    | [] => (.ok none, l)
    | stream :: rest =>
      let l := { l with toAccept := rest }
      match l.streams[stream]? with
      | some conn =>
        match conn.inner.getPeerAddr with
        | .error err => (.error err, l)
        | .ok addr => (.ok (some (stream, addr)), l)
      -- the queue holds no other indices
      | none => (.ok none, l)

def addConnection (l : ListenerInner) (peerAddr : SocketAddr) (stream : StreamId) :
    ListenerInner :=
  { l with connections := l.connections.insert peerAddr stream }

def removeConnection (l : ListenerInner) (peerAddr : SocketAddr) : ListenerInner :=
  { l with connections := l.connections.erase peerAddr }

end ListenerInner

/-- What a call of a stream hands to the socket, by `_send_to`. -/
def ListenerCall.datagram : ListenerCall → Option Datagram
  | .removeConnection _ => none
  | .sendTo addr segment => some ⟨addr, segment.intoBytes⟩

namespace ListenerInner

def performCall (l : ListenerInner) : ListenerCall → ListenerInner
  | .removeConnection peerAddr => l.removeConnection peerAddr
  | .sendTo _ _ => l

/-- What a stream asks of its listener. The outcome of `_send_to` reaches the worker only, which
takes it as an argument. -/
def perform (l : ListenerInner) (calls : List ListenerCall) : ListenerInner × List Datagram :=
  (calls.foldl performCall l, calls.filterMap ListenerCall.datagram)

/-- The stream of an address in the table, if it can be upgraded. -/
def upgrade (l : ListenerInner) (addr : SocketAddr) : Option (StreamId × StreamInner) :=
  match l.connections.lookup addr with
  | none => none
  | some stream =>
    match l.streams[stream]? with
    | some ⟨conn, true⟩ => some (stream, conn)
    | _ => none

/-- A stream changes, and asks something of the listener. -/
def react (l : ListenerInner) (stream : StreamId) :
    StreamInner × List ListenerCall → ListenerInner × List Datagram
  | (conn, calls) =>
    perform { l with streams := l.streams.modify stream fun c => { c with inner := conn } } calls

/-- A new connection, for an `Establish` from an address without one. -/
def establish (l : ListenerInner) (addr : SocketAddr)
    (establishSeqNum acceptSeqNum : SequenceNumber) : ListenerInner :=
  let stream := l.streams.length
  { l with
    streams := l.streams ++ [⟨.newByPeer addr establishSeqNum acceptSeqNum, true⟩]
    connections := l.connections.insert addr stream
    toAccept := l.toAccept ++ [stream] }

/-- `__recv`; the random number is that of the `Accept`, should there be one. -/
def recv (l : ListenerInner) (data : List UInt8) (addr : SocketAddr)
    (acceptSeqNum : SequenceNumber) : Exec (ListenerInner × List Datagram) :=
  match l.upgrade addr with
  | some (stream, conn) =>
    match Segment.tryFrom data with
    | .error err => .ok (l.react stream (conn.error err true))
    | .ok segment => (conn.recvSegment segment).map (l.react stream)
  | none =>
    match Segment.tryFrom data with
    | .ok (.establish establishSeqNum) => .ok (l.establish addr establishSeqNum acceptSeqNum, [])
    | _ => .ok (l, [⟨addr, Segment.reset.intoBytes⟩])

/-- One turn of `__listen_thread`. Its buffer has `MAX_SEGMENT_LEN + 1` bytes; the rest of a longer
datagram is lost. -/
def listenThread (l : ListenerInner) (data : List UInt8) (addr : SocketAddr)
    (acceptSeqNum : SequenceNumber) : Exec (ListenerInner × List Datagram) :=
  l.recv (data.take (maxSegmentLen + 1)) addr acceptSeqNum

/-! ## What a datagram does -/

variable {l l' : ListenerInner} {data : List UInt8} {addr : SocketAddr}
  {acceptSeqNum : SequenceNumber} {out : List Datagram}

@[simp] theorem react_snd (l : ListenerInner) (stream : StreamId)
    (x : StreamInner × List ListenerCall) :
    (l.react stream x).2 = x.2.filterMap ListenerCall.datagram := rfl

/-- What an error hands to the socket. -/
theorem datagrams_error (s : StreamInner) (err : IoError) (sendReset : Bool) :
    (s.error err sendReset).2.filterMap ListenerCall.datagram =
      if s.isErr = false ∧ sendReset then [⟨s.peerAddr, Segment.reset.intoBytes⟩] else [] := by
  rw [StreamInner.error]
  cases s.isErr <;> cases sendReset <;> rfl

/-- In answer to a segment a stream hands nothing but a `Reset` to the socket. -/
theorem datagrams_recvSegment {s s' : StreamInner} {segment : Segment}
    {calls : List ListenerCall} (h : s.recvSegment segment = .ok (s', calls)) :
    calls.filterMap ListenerCall.datagram = [] ∨
      calls.filterMap ListenerCall.datagram = [⟨s.peerAddr, Segment.reset.intoBytes⟩] := by
  rcases StreamInner.recvSegment_eq_ok h with ⟨err, sendReset, heq, -⟩ | ⟨-, -, -, rfl, -⟩ |
    ⟨-, -, -, -, -, rfl, -⟩
  · rw [show calls = (s.error err sendReset).2 from congrArg Prod.snd heq, datagrams_error]
    split_ifs
    · exact .inr rfl
    · exact .inl rfl
  · exact .inl rfl
  · exact .inl rfl

/-- Whatever arrives, at most one datagram is emitted, and it is a `Reset`. -/
theorem recv_eq_ok (h : l.recv data addr acceptSeqNum = .ok (l', out)) :
    out = [] ∨ ∃ a, out = [⟨a, Segment.reset.intoBytes⟩] := by
  rw [recv] at h
  cases hu : l.upgrade addr with
  | some x =>
    obtain ⟨stream, conn⟩ := x
    rw [hu] at h
    dsimp only at h
    cases hd : Segment.tryFrom data with
    | error err =>
      rw [hd] at h
      obtain rfl : _ = out := congrArg Prod.snd (Except.ok.inj h)
      rw [react_snd, datagrams_error]
      split_ifs
      · exact .inr ⟨_, rfl⟩
      · exact .inl rfl
    | ok segment =>
      rw [hd] at h
      cases hr : conn.recvSegment segment with
      | error f => simp [hr, Except.map] at h
      | ok x =>
        dsimp only at h
        rw [hr] at h
        obtain rfl : _ = out := congrArg Prod.snd (Except.ok.inj h)
        rw [react_snd]
        exact (datagrams_recvSegment hr).imp_right fun h => ⟨_, h⟩
  | none =>
    rw [hu] at h
    dsimp only at h
    split at h
    · cases h
      exact .inl rfl
    · cases h
      exact .inr ⟨_, rfl⟩

/-- A `Reset` is answered exactly when there is no connection to reset. -/
theorem recv_reset (hd : Segment.tryFrom data = .ok .reset) (l : ListenerInner)
    (addr : SocketAddr) (acceptSeqNum : SequenceNumber) :
    ∃ l', l.recv data addr acceptSeqNum = .ok (l',
      if (l.upgrade addr).isSome then [] else [⟨addr, Segment.reset.intoBytes⟩]) := by
  rw [recv, hd]
  cases hu : l.upgrade addr with
  | some x =>
    obtain ⟨stream, conn⟩ := x
    have hno := datagrams_error conn connResetByPeer false
    rw [if_neg (by simp)] at hno
    refine ⟨(l.react stream (conn.error connResetByPeer false)).1, ?_⟩
    show Except.ok (l.react stream (conn.error connResetByPeer false)) = _
    refine congrArg Except.ok (Prod.ext rfl ?_)
    rw [react_snd, hno]
    rfl
  | none => exact ⟨l, rfl⟩

end ListenerInner

end Mdswp
