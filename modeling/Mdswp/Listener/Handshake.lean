import Mathlib.Data.Multiset.Basic
import Mdswp.Listener.Peer
import Mdswp.Listener.Resets
import Mdswp.Stream.Absorbing

/-!
# Opening a connection

A `Handshake` is one attempt to connect, `__try_single_connect_to`, and a listener that accepts.
The attempt is cut at the places where something else may happen in between; the stream it creates
has its worker from then on, and its listener a thread once that is started. The network loses and
reorders datagrams, and neither duplicates nor corrupts them. A datagram that has arrived but has
not been read is still in flight. Every datagram is taken by the socket.

Until the connection is in the table, the connector refuses whatever is not the answer to its
`Establish`: the attempt itself if that comes first, and the thread of the listener afterwards. So
an acceptor is not refused in exactly the runs in which what is read first is its answer, and
nothing else is read before the connection is in the table (`along_neverRefuses_iff`).
-/

namespace Mdswp

open StreamInner

/-- `_try_recv`, when the socket has a datagram. -/
def ListenerInner.tryRecv (data : List UInt8) : IoResult (Option Segment) :=
  let data := data.take (maxSegmentLen + 1)
  if data = [] then .ok none else (Segment.tryFrom data).map some

/-- An end of the network: a listener, and the workers of its streams. -/
structure Host where
  addr : SocketAddr
  listener : ListenerInner
  workers : StreamId → WorkerPc

namespace Host

/-- A host that has neither connected nor accepted. -/
def new (addr : SocketAddr) : Host := ⟨addr, .empty, fun _ => .check⟩

/-- A turn of `__listen_thread`. -/
def recv (h : Host) (data : List UInt8) (src : SocketAddr) (acceptSeqNum : SequenceNumber) :
    Exec (Host × List Datagram) :=
  (h.listener.listenThread data src acceptSeqNum).map fun (l, out) =>
    ({ h with listener := l }, out)

/-- A step of the worker of a stream that has not been dropped. -/
def work (h : Host) (stream : StreamId) (t t' : Instant) : Exec (Host × List Datagram) :=
  match h.listener.streams[stream]? with
  | some ⟨conn, true⟩ =>
    (Peer.work ⟨conn, h.workers stream⟩ t t').map fun (p, out) =>
      ({ h with
          listener := (h.listener.react stream (p.stream, [])).1
          workers := Function.update h.workers stream p.worker },
        out.map fun x => ⟨conn.peerAddr, x.intoBytes⟩)
  | _ => .ok (h, [])

/-- The user of a stream calls it. -/
def call (h : Host) (stream : StreamId) (op : Operation) : Exec (Host × List Datagram) :=
  match h.listener.streams[stream]? with
  | some ⟨conn, true⟩ => (op.perform conn).map fun x =>
      match h.listener.react stream x with
      | (l, out) => ({ h with listener := l }, out)
  | _ => .ok (h, [])

end Host

/-! ## The attempt -/

/-- Where `__try_single_connect_to` is: it waits for the first segment, it has created the stream,
it has started the thread of the listener, it has returned. -/
inductive ConnectPc
  | start
  | waiting (establishSeqNum : SequenceNumber) (start : Instant)
  | built (stream : StreamId)
  | started (stream : StreamId)
  | returned (result : IoResult StreamId)

/-- The attempt has added the connection to the table, and has returned. -/
def ConnectPc.isConnected : ConnectPc → Bool
  | .returned (.ok _) => true
  | _ => false

theorem ConnectPc.isConnected_iff {pc : ConnectPc} :
    pc.isConnected ↔ ∃ stream, pc = .returned (.ok stream) := by
  unfold isConnected
  split <;> simp_all

structure Handshake where
  pc : ConnectPc
  connector : Host
  acceptor : Host
  toConnector : Multiset (List UInt8)
  toAcceptor : Multiset (List UInt8)
  /-- What the connector has handed to its socket. -/
  sent : List Datagram

/-- The datagrams for an address; the others leave the network. -/
def payloads (addr : SocketAddr) (out : List Datagram) : Multiset (List UInt8) :=
  ((out.filter fun x => x.addr = addr).map Datagram.bytes : List (List UInt8))

namespace Handshake

/-- An attempt is to be made. -/
def new (connectorAddr : SocketAddr) (acceptor : Host) : Handshake where
  pc := .start
  connector := .new connectorAddr
  acceptor := acceptor
  toConnector := 0
  toAcceptor := 0
  sent := []

/-- The connector takes a step, and hands datagrams to its socket. -/
def connectorSends (st : Handshake) : Host × List Datagram → Handshake
  | (connector, out) =>
    { st with
      connector := connector
      toAcceptor := st.toAcceptor + payloads st.acceptor.addr out
      sent := st.sent ++ out }

def acceptorSends (st : Handshake) : Host × List Datagram → Handshake
  | (acceptor, out) =>
    { st with
      acceptor := acceptor
      toConnector := st.toConnector + payloads st.connector.addr out }

/-- The attempt sends a segment to the acceptor. -/
def sendTo (st : Handshake) (segment : Segment) : Handshake :=
  st.connectorSends (st.connector, [⟨st.acceptor.addr, segment.intoBytes⟩])

/-- The condition of the loop that waits for the first segment. As `_try_recv` blocks, the clock is
read again only when that has come back without a segment. -/
def loopCheck (st : Handshake) (start now : Instant) : Handshake :=
  if start.elapsed now < connTimeout then st
  else { st with pc := .returned (.error connTimedOut) }

/-- The stream of the connection is created. -/
def build (st : Handshake) (establishSeqNum acceptSeqNum : SequenceNumber) : Handshake :=
  let listener := st.connector.listener
  { st with
    pc := .built listener.streams.length
    connector := { st.connector with listener := { listener with
      streams := listener.streams ++
        [⟨.newByLocal st.acceptor.addr establishSeqNum acceptSeqNum, true⟩] } } }

/-- The attempt reads a datagram. -/
def recvFirst (st : Handshake) (establishSeqNum : SequenceNumber) (start now : Instant)
    (data : List UInt8) : Handshake :=
  match ListenerInner.tryRecv data with
  | .error err => { st with pc := .returned (.error err) }
  | .ok none => st.loopCheck start now
  | .ok (some .reset) => { st with pc := .returned (.error connResetByPeer) }
  | .ok (some (.sequential acceptSeqNum .accept)) => st.build establishSeqNum acceptSeqNum
  | .ok (some other) =>
    { st.sendTo .reset with
      pc := .returned (.error (connUnexpSeg s!"{other.debug} was sent instead of ACCEPT")) }

/-- Whoever reads the socket of the connector takes a datagram from it. The socket is closed once
the attempt has failed. -/
def deliverConnector (st : Handshake) (data : List UInt8) (acceptSeqNum : SequenceNumber)
    (now : Instant) : Exec Handshake :=
  let st' := { st with toConnector := st.toConnector.erase data }
  match st.pc with
  | .start => .ok st
  | .waiting establishSeqNum start => .ok (st'.recvFirst establishSeqNum start now data)
  | .built _ => .ok st
  | .started _ => (st.connector.recv data st.acceptor.addr acceptSeqNum).map st'.connectorSends
  | .returned (.ok _) =>
    (st.connector.recv data st.acceptor.addr acceptSeqNum).map st'.connectorSends
  | .returned (.error _) => .ok st'

end Handshake

inductive HandshakeEvent
  | sendEstablish (establishSeqNum : SequenceNumber) (now : Instant)
  /-- The socket is interrupted while the attempt waits. -/
  | interrupted (now : Instant)
  | startThread
  | addConnection
  | deliverConnector (data : List UInt8) (acceptSeqNum : SequenceNumber) (now : Instant)
  | workConnector (stream : StreamId) (t t' : Instant)
  | deliverAcceptor (data : List UInt8) (acceptSeqNum : SequenceNumber)
  | workAcceptor (stream : StreamId) (t t' : Instant)
  | callAcceptor (stream : StreamId) (op : Operation) (h : op.isCall)
  | loseToConnector (data : List UInt8)
  | loseToAcceptor (data : List UInt8)

/-- The event of a part that has nothing to do does nothing. -/
def handshakeStep (st : Handshake) : HandshakeEvent → Exec Handshake
  | .sendEstablish establishSeqNum now =>
    match st.pc with
    | .start => .ok { st.sendTo (.establish establishSeqNum) with
        pc := .waiting establishSeqNum now }
    | _ => .ok st
  | .interrupted now =>
    match st.pc with
    | .waiting _ start => .ok (st.loopCheck start now)
    | _ => .ok st
  | .startThread =>
    match st.pc with
    | .built stream => .ok { st with pc := .started stream }
    | _ => .ok st
  | .addConnection =>
    match st.pc with
    | .started stream => .ok { st with
        pc := .returned (.ok stream)
        connector := { st.connector with
          listener := st.connector.listener.addConnection st.acceptor.addr stream } }
    | _ => .ok st
  | .deliverConnector data acceptSeqNum now =>
    if data ∈ st.toConnector then st.deliverConnector data acceptSeqNum now else .ok st
  | .workConnector stream t t' => (st.connector.work stream t t').map st.connectorSends
  | .deliverAcceptor data acceptSeqNum =>
    if data ∈ st.toAcceptor then
      (st.acceptor.recv data st.connector.addr acceptSeqNum).map
        { st with toAcceptor := st.toAcceptor.erase data }.acceptorSends
    else .ok st
  | .workAcceptor stream t t' => (st.acceptor.work stream t t').map st.acceptorSends
  | .callAcceptor stream op _ => (st.acceptor.call stream op).map st.acceptorSends
  | .loseToConnector data => .ok { st with toConnector := st.toConnector.erase data }
  | .loseToAcceptor data => .ok { st with toAcceptor := st.toAcceptor.erase data }

/-! ## Refusing -/

/-- The connector has sent the acceptor a `Reset`, or has failed because of a segment that it did
not expect. -/
def Handshake.Refused (st : Handshake) : Prop :=
  ⟨st.acceptor.addr, Segment.reset.intoBytes⟩ ∈ st.sent ∨
    ∃ text, st.pc = .returned (.error (connUnexpSeg text))

/-- Until the connection is in the table, the step does not make the connector refuse. -/
def NeverRefuses (st : Handshake) (e : HandshakeEvent) : Prop :=
  st.pc.isConnected = false → ∀ st', handshakeStep st e = .ok st' → ¬st'.Refused

/-- The answers to an `Establish`. -/
def Segment.isAnswer : Segment → Bool
  | .reset => true
  | .sequential _ .accept => true
  | _ => false

/-- While it waits, the attempt expects an answer. While the thread of the listener runs and the
connection is not in the table, nothing is expected. -/
def ConnectPc.expects (data : List UInt8) : ConnectPc → Bool
  | .waiting _ _ => (Segment.tryFrom data).toOption.any Segment.isAnswer
  | .started _ => false
  | _ => true

/-- What is read from the socket of the connector is expected. -/
def ReadsExpected (st : Handshake) : HandshakeEvent → Prop
  | .deliverConnector data _ _ => data ∈ st.toConnector → st.pc.expects data
  | _ => True

instance (st : Handshake) (e : HandshakeEvent) : Decidable (ReadsExpected st e) :=
  match e with
  | .deliverConnector _ _ _ => inferInstanceAs (Decidable (_ → _))
  | .sendEstablish _ _ => isTrue trivial
  | .interrupted _ => isTrue trivial
  | .startThread => isTrue trivial
  | .addConnection => isTrue trivial
  | .workConnector _ _ _ => isTrue trivial
  | .deliverAcceptor _ _ => isTrue trivial
  | .workAcceptor _ _ _ => isTrue trivial
  | .callAcceptor _ _ _ => isTrue trivial
  | .loseToConnector _ => isTrue trivial
  | .loseToAcceptor _ => isTrue trivial

/-! ## What the hosts send -/

/-- The bytes are those of a segment of an open connection. -/
def OfConnection (data : List UInt8) : Prop :=
  ∃ segment : Segment, data = segment.intoBytes ∧ ∀ n, segment ≠ .establish n

theorem ofConnection_reset : OfConnection Segment.reset.intoBytes :=
  ⟨.reset, rfl, fun _ => Segment.noConfusion⟩

/-- A call of the user sends nothing but a `Reset`. -/
theorem Operation.datagrams_of_isCall {s s' : StreamInner} {op : Operation}
    {calls : List ListenerCall} (hop : op.isCall) (hp : op.perform s = .ok (s', calls)) :
    ∀ x ∈ calls.filterMap ListenerCall.datagram, x.bytes = Segment.reset.intoBytes := by
  have herror : ∀ {s : StreamInner} {err}, s.error err true = (s', calls) →
      ∀ x ∈ calls.filterMap ListenerCall.datagram, x.bytes = Segment.reset.intoBytes := by
    intro s err he x hx
    rw [show calls = (s.error err true).2 from (congrArg Prod.snd he).symm,
      ListenerInner.datagrams_error] at hx
    split_ifs at hx
    · rw [List.mem_singleton.1 hx]
    · cases hx
  cases op with
  | write buf =>
    obtain ⟨x, -, heq⟩ := exists_of_map_eq_ok hp
    cases heq
    simp
  | flush =>
    obtain ⟨x, -, heq⟩ := exists_of_map_eq_ok hp
    cases heq
    simp
  | finishWrite =>
    obtain ⟨⟨r, s₁, calls₁⟩, hw, heq⟩ := exists_of_map_eq_ok hp
    cases heq
    rcases finishWrite_eq_ok hw with ⟨-, rfl⟩ | ⟨s₁, err, -, herr⟩
    · simp
    · exact herror herr
  | finishWritePoll =>
    cases hp
    simp
  | read len =>
    cases hp
    simp
  | readWait len =>
    cases hp
    simp
  | reset =>
    have heq := Except.ok.inj hp
    unfold StreamInner.reset at heq
    split at heq
    · cases heq
      simp
    · exact herror heq
  | recvSegment segment => cases hop
  | error err sendReset => cases hop
  | work t t' sent turns => cases hop

namespace Host

variable {h h' : Host} {out : List Datagram} {stream : StreamId}

theorem recv_spec {data : List UInt8} {src : SocketAddr} {acceptSeqNum : SequenceNumber}
    (hr : h.recv data src acceptSeqNum = .ok (h', out)) :
    h'.addr = h.addr ∧ ∀ x ∈ out, x.bytes = Segment.reset.intoBytes := by
  obtain ⟨⟨l, out'⟩, hl, heq⟩ := exists_of_map_eq_ok hr
  cases heq
  refine ⟨rfl, ?_⟩
  rcases ListenerInner.recv_eq_ok hl with rfl | ⟨a, rfl⟩
  · simp
  · simp

/-- What arrives from an address without connection is refused. -/
theorem recv_unknown {segment : Segment} (hne : ∀ n, segment ≠ .establish n) {src : SocketAddr}
    (hu : h.listener.upgrade src = none) (acceptSeqNum : SequenceNumber) :
    h.recv segment.intoBytes src acceptSeqNum = .ok (h, [⟨src, Segment.reset.intoBytes⟩]) := by
  have hle := length_intoBytes_le segment
  have hl : h.listener.listenThread segment.intoBytes src acceptSeqNum =
      .ok (h.listener, [⟨src, Segment.reset.intoBytes⟩]) := by
    rw [ListenerInner.listenThread, List.take_of_length_le (by omega), ListenerInner.recv, hu,
      Segment.tryFrom_intoBytes]
    cases segment with
    | establish n => exact absurd rfl (hne n)
    | reset => rfl
    | acknowledge n => rfl
    | sequential n variant => rfl
  rw [recv, hl]
  rfl

/-- A worker acknowledges and sends, and leaves the table alone. -/
theorem work_spec {t t' : Instant} (hw : h.work stream t t' = .ok (h', out)) :
    h'.addr = h.addr ∧ h'.listener.connections = h.listener.connections ∧
      ∀ x ∈ out, OfConnection x.bytes ∧ x.bytes ≠ Segment.reset.intoBytes := by
  unfold work at hw
  split at hw
  · obtain ⟨⟨p, segments⟩, hp, heq⟩ := exists_of_map_eq_ok hw
    cases heq
    refine ⟨rfl, rfl, ?_⟩
    have hbytes : ∀ segment ∈ segments, segment ≠ .reset ∧ ∀ n, segment ≠ .establish n := by
      cases Peer.work_result hp with
      | goesOn pc => simp
      | acknowledges x r hx => simp
      | sends x s pc hx =>
        intro segment hmem
        obtain ⟨y, -, rfl⟩ := List.mem_map.1 hmem
        exact ⟨Segment.noConfusion, fun _ => Segment.noConfusion⟩
    intro x hx
    obtain ⟨segment, hmem, rfl⟩ := List.mem_map.1 hx
    obtain ⟨hreset, hestablish⟩ := hbytes segment hmem
    refine ⟨⟨segment, rfl, hestablish⟩, fun heq => hreset ?_⟩
    have := congrArg Segment.tryFrom heq
    simpa using this
  · cases hw
    simp

theorem call_spec {op : Operation} (hop : op.isCall)
    (hc : h.call stream op = .ok (h', out)) :
    h'.addr = h.addr ∧ ∀ x ∈ out, x.bytes = Segment.reset.intoBytes := by
  unfold call at hc
  split at hc
  · obtain ⟨⟨s', calls⟩, hp, heq⟩ := exists_of_map_eq_ok hc
    cases heq
    exact ⟨rfl, op.datagrams_of_isCall hop hp⟩
  · cases hc
    simp

end Host

theorem ListenerInner.tryRecv_intoBytes (segment : Segment) :
    tryRecv segment.intoBytes = .ok (some segment) := by
  have hle := length_intoBytes_le segment
  have hne : segment.intoBytes ≠ [] := by
    intro hnil
    have := Segment.tryFrom_intoBytes segment
    rw [hnil] at this
    cases this
  unfold tryRecv
  rw [List.take_of_length_le (by omega), if_neg hne, Segment.tryFrom_intoBytes]
  rfl

theorem mem_payloads {addr : SocketAddr} {out : List Datagram} {data : List UInt8}
    (h : data ∈ payloads addr out) : ∃ x ∈ out, x.bytes = data := by
  obtain ⟨x, hx, rfl⟩ := List.mem_map.1 (Multiset.mem_coe.1 h)
  exact ⟨x, (List.mem_filter.1 hx).1, rfl⟩

/-! ## The steps -/

namespace Handshake

variable {st st' : Handshake} {e : HandshakeEvent} {host : Host} {out : List Datagram}

theorem not_refused_connectorSends (h : ¬st.Refused)
    (hout : ∀ x ∈ out, x.bytes ≠ Segment.reset.intoBytes) :
    ¬(st.connectorSends (host, out)).Refused := by
  rintro (hsent | hpc)
  · rcases List.mem_append.1 hsent with hmem | hmem
    · exact h (.inl hmem)
    · exact hout _ hmem rfl
  · exact h (.inr hpc)

theorem not_refused_acceptorSends (h : ¬st.Refused) (haddr : host.addr = st.acceptor.addr) :
    ¬(st.acceptorSends (host, out)).Refused := by
  rintro (hsent | hpc)
  · refine h (.inl ?_)
    rw [← haddr]
    exact hsent
  · exact h (.inr hpc)

/-- A failure of another kind is no refusal. -/
theorem not_refused_of_kind (h : ¬st.Refused) {err : IoError} (hkind : err.kind ≠ .brokenPipe) :
    ¬Refused { st with pc := .returned (.error err) } := by
  rintro (hsent | ⟨text, heq⟩)
  · exact h (.inl hsent)
  · cases heq
    exact hkind rfl

theorem not_refused_loopCheck (h : ¬st.Refused) (start now : Instant) :
    ¬(st.loopCheck start now).Refused := by
  unfold loopCheck
  split_ifs
  · exact h
  · exact not_refused_of_kind h ErrorKind.noConfusion

theorem refused_sendTo_reset (st : Handshake) (pc : ConnectPc) :
    Refused { st.sendTo .reset with pc := pc } :=
  .inl (List.mem_append_right _ (List.mem_singleton_self _))

/-- The attempt takes an answer, and refuses whatever else comes first. -/
theorem recvFirst_refused_iff (h : ¬st.Refused) (establishSeqNum : SequenceNumber)
    (start now : Instant) (segment : Segment) :
    (st.recvFirst establishSeqNum start now segment.intoBytes).Refused ↔
      segment.isAnswer = false := by
  unfold recvFirst
  rw [ListenerInner.tryRecv_intoBytes]
  have hbuild : ∀ n, ¬(st.build establishSeqNum n).Refused := by
    rintro n (hsent | ⟨text, heq⟩)
    · exact h (.inl hsent)
    · cases heq
  cases segment with
  | reset => exact iff_of_false (not_refused_of_kind h ErrorKind.noConfusion) Bool.noConfusion
  | establish n => exact iff_of_true (refused_sendTo_reset _ _) rfl
  | acknowledge n => exact iff_of_true (refused_sendTo_reset _ _) rfl
  | sequential n variant =>
    cases variant with
    | accept => exact iff_of_false (hbuild n) Bool.noConfusion
    | finish => exact iff_of_true (refused_sendTo_reset _ _) rfl
    | data d => exact iff_of_true (refused_sendTo_reset _ _) rfl

/-- Reading the first datagram leaves the table and the network alone. -/
theorem recvFirst_frame (st : Handshake) (establishSeqNum : SequenceNumber) (start now : Instant)
    (data : List UInt8) :
    (st.recvFirst establishSeqNum start now data).toConnector = st.toConnector ∧
      (st.recvFirst establishSeqNum start now data).connector.listener.connections =
        st.connector.listener.connections := by
  unfold recvFirst
  split
  · exact ⟨rfl, rfl⟩
  · unfold loopCheck
    split_ifs <;> exact ⟨rfl, rfl⟩
  · exact ⟨rfl, rfl⟩
  · exact ⟨rfl, rfl⟩
  · exact ⟨rfl, rfl⟩

/-- Whatever is on its way to the connector belongs to an open connection. -/
def OnlyConnection (st : Handshake) : Prop := ∀ data ∈ st.toConnector, OfConnection data

theorem OnlyConnection.erase (h : st.OnlyConnection) (data : List UInt8) :
    ∀ x ∈ st.toConnector.erase data, OfConnection x :=
  fun x hx => h x (Multiset.mem_of_mem_erase hx)

theorem OnlyConnection.acceptorSends (h : st.OnlyConnection)
    (hout : ∀ x ∈ out, OfConnection x.bytes) : (st.acceptorSends (host, out)).OnlyConnection := by
  intro data hdata
  rcases Multiset.mem_add.1 hdata with hmem | hmem
  · exact h data hmem
  · obtain ⟨x, hx, rfl⟩ := mem_payloads hmem
    exact hout x hx

theorem OnlyConnection.deliverConnector (h : st.OnlyConnection) {data : List UInt8}
    {acceptSeqNum : SequenceNumber} {now : Instant}
    (hs : st.deliverConnector data acceptSeqNum now = .ok st') : st'.OnlyConnection := by
  unfold Handshake.deliverConnector at hs
  split at hs
  · cases hs
    exact h
  · cases hs
    rw [OnlyConnection, (recvFirst_frame _ _ _ _ _).1]
    exact h.erase data
  · cases hs
    exact h
  · obtain ⟨⟨host, out⟩, -, rfl⟩ := exists_of_map_eq_ok hs
    exact h.erase data
  · obtain ⟨⟨host, out⟩, -, rfl⟩ := exists_of_map_eq_ok hs
    exact h.erase data
  · cases hs
    exact h.erase data

/-- What an event does: nothing, a step of the attempt, a delivery to the connector, a step of a
worker of the connector, a step of the acceptor, or the loss of a datagram. -/
inductive StepResult (st : Handshake) : HandshakeEvent → Handshake → Prop
  | idle {e : HandshakeEvent} : StepResult st e st
  | sends (n : SequenceNumber) (now : Instant) (hpc : st.pc = .start) :
    StepResult st (.sendEstablish n now) { st.sendTo (.establish n) with pc := .waiting n now }
  | checks (n : SequenceNumber) (start now : Instant) (hpc : st.pc = .waiting n start) :
    StepResult st (.interrupted now) (st.loopCheck start now)
  | starts (stream : StreamId) (hpc : st.pc = .built stream) :
    StepResult st .startThread { st with pc := .started stream }
  | connects (stream : StreamId) (hpc : st.pc = .started stream) :
    StepResult st .addConnection { st with
      pc := .returned (.ok stream)
      connector := { st.connector with
        listener := st.connector.listener.addConnection st.acceptor.addr stream } }
  | delivers (data : List UInt8) (n : SequenceNumber) (now : Instant) {st' : Handshake}
      (hmem : data ∈ st.toConnector) (hs : st.deliverConnector data n now = .ok st') :
    StepResult st (.deliverConnector data n now) st'
  | works (stream : StreamId) (t t' : Instant) (host : Host) (out : List Datagram)
      (hw : st.connector.work stream t t' = .ok (host, out)) :
    StepResult st (.workConnector stream t t') (st.connectorSends (host, out))
  | accepts {e : HandshakeEvent} (toAcceptor : Multiset (List UInt8)) (host : Host)
      (out : List Datagram) (haddr : host.addr = st.acceptor.addr)
      (hout : ∀ x ∈ out, OfConnection x.bytes) :
    StepResult st e ({ st with toAcceptor := toAcceptor }.acceptorSends (host, out))
  | losesToConnector (data : List UInt8) :
    StepResult st (.loseToConnector data) { st with toConnector := st.toConnector.erase data }
  | losesToAcceptor (data : List UInt8) :
    StepResult st (.loseToAcceptor data) { st with toAcceptor := st.toAcceptor.erase data }

theorem step_result (hs : handshakeStep st e = .ok st') : st.StepResult e st' := by
  have hreset : ∀ {out : List Datagram}, (∀ x ∈ out, x.bytes = Segment.reset.intoBytes) →
      ∀ x ∈ out, OfConnection x.bytes := by
    intro out hout x hx
    rw [hout x hx]
    exact ofConnection_reset
  cases e with
  | sendEstablish n now =>
    rw [handshakeStep] at hs
    split at hs
    · cases hs
      exact .sends n now ‹_›
    · cases hs
      exact .idle
  | interrupted now =>
    rw [handshakeStep] at hs
    split at hs
    · cases hs
      exact .checks _ _ now ‹_›
    · cases hs
      exact .idle
  | startThread =>
    rw [handshakeStep] at hs
    split at hs
    · cases hs
      exact .starts _ ‹_›
    · cases hs
      exact .idle
  | addConnection =>
    rw [handshakeStep] at hs
    split at hs
    · cases hs
      exact .connects _ ‹_›
    · cases hs
      exact .idle
  | deliverConnector data n now =>
    rw [handshakeStep] at hs
    split_ifs at hs with hmem
    · exact .delivers data n now hmem hs
    · cases hs
      exact .idle
  | workConnector stream t t' =>
    obtain ⟨⟨host, out⟩, hw, rfl⟩ := exists_of_map_eq_ok hs
    exact .works stream t t' host out hw
  | deliverAcceptor data n =>
    rw [handshakeStep] at hs
    split_ifs at hs
    · obtain ⟨⟨host, out⟩, hr, rfl⟩ := exists_of_map_eq_ok hs
      obtain ⟨haddr, hout⟩ := Host.recv_spec hr
      exact .accepts _ host out haddr (hreset hout)
    · cases hs
      exact .idle
  | workAcceptor stream t t' =>
    obtain ⟨⟨host, out⟩, hw, rfl⟩ := exists_of_map_eq_ok hs
    obtain ⟨haddr, -, hout⟩ := Host.work_spec hw
    exact .accepts _ host out haddr fun x hx => (hout x hx).1
  | callAcceptor stream op hop =>
    obtain ⟨⟨host, out⟩, hc, rfl⟩ := exists_of_map_eq_ok hs
    obtain ⟨haddr, hout⟩ := Host.call_spec hop hc
    exact .accepts _ host out haddr (hreset hout)
  | loseToConnector data =>
    cases hs
    exact .losesToConnector data
  | loseToAcceptor data =>
    cases hs
    exact .losesToAcceptor data

/-- The acceptor sends no `Establish`. -/
theorem OnlyConnection.step (h : st.OnlyConnection) (hs : handshakeStep st e = .ok st') :
    st'.OnlyConnection := by
  cases step_result hs with
  | idle => exact h
  | sends n now hpc => exact h
  | checks n start now hpc =>
    unfold loopCheck
    split_ifs <;> exact h
  | starts stream hpc => exact h
  | connects stream hpc => exact h
  | delivers data n now hmem hd => exact h.deliverConnector hd
  | works stream t t' host out hw => exact h
  | accepts toAcceptor host out haddr hout =>
    have hkept : OnlyConnection { st with toAcceptor := toAcceptor } := h
    exact hkept.acceptorSends hout
  | losesToConnector data => exact h.erase data
  | losesToAcceptor data => exact h

/-- A connection in the table ends the attempt. -/
theorem isConnected_step (hc : st.pc.isConnected) (hs : handshakeStep st e = .ok st') :
    st'.pc = st.pc := by
  obtain ⟨stream, hpc⟩ := ConnectPc.isConnected_iff.1 hc
  cases step_result hs with
  | sends n now hpc' => cases hpc.symm.trans hpc'
  | checks n start now hpc' => cases hpc.symm.trans hpc'
  | starts stream' hpc' => cases hpc.symm.trans hpc'
  | connects stream' hpc' => cases hpc.symm.trans hpc'
  | delivers data n now hmem hd =>
    obtain ⟨pc, connector, acceptor, toConnector, toAcceptor, sent⟩ := st
    subst hpc
    obtain ⟨x, -, rfl⟩ := exists_of_map_eq_ok hd
    rfl
  | _ => rfl

/-- The connector trusts the acceptor as long as its table is empty. -/
structure Trusting (st : Handshake) : Prop where
  connections : st.connector.listener.connections = ∅
  not_refused : ¬st.Refused

theorem Trusting.upgrade (h : st.Trusting) (addr : SocketAddr) :
    st.connector.listener.upgrade addr = none := by
  rw [ListenerInner.upgrade, h.connections]
  rfl

/-- A datagram that is read before the connection is in the table. -/
theorem Trusting.deliverConnector (h : st.Trusting) (hc : st.pc.isConnected = false)
    {data : List UInt8} (hdata : OfConnection data) (acceptSeqNum : SequenceNumber)
    (now : Instant) : ∃ st', st.deliverConnector data acceptSeqNum now = .ok st' ∧
      st'.connector.listener.connections = ∅ ∧ (st'.Refused ↔ st.pc.expects data = false) := by
  obtain ⟨segment, rfl, hne⟩ := hdata
  have hkept : ¬Refused { st with toConnector := st.toConnector.erase segment.intoBytes } :=
    h.not_refused
  unfold Handshake.deliverConnector
  cases hpc : st.pc with
  | start => exact ⟨_, rfl, h.connections, iff_of_false h.not_refused (by simp [ConnectPc.expects])⟩
  | waiting n start =>
    refine ⟨_, rfl, ?_, ?_⟩
    · rw [(recvFirst_frame _ _ _ _ _).2]
      exact h.connections
    · rw [hpc] at hkept
      rw [recvFirst_refused_iff hkept]
      simp [ConnectPc.expects, Except.toOption]
  | built stream =>
    exact ⟨_, rfl, h.connections, iff_of_false h.not_refused (by simp [ConnectPc.expects])⟩
  | started stream =>
    dsimp only
    rw [Host.recv_unknown hne (h.upgrade _)]
    refine ⟨_, rfl, h.connections, iff_of_true (.inl ?_) rfl⟩
    exact List.mem_append_right _ (List.mem_singleton_self _)
  | returned result =>
    cases result with
    | ok stream =>
      rw [hpc] at hc
      cases hc
    | error err =>
      rw [hpc] at hkept
      exact ⟨_, rfl, h.connections, iff_of_false hkept (by simp [ConnectPc.expects])⟩

/-- As long as what it reads is expected, the connector trusts the acceptor. -/
theorem Trusting.step (h : st.Trusting) (hon : st.OnlyConnection) (hc : st.pc.isConnected = false)
    (he : ReadsExpected st e) (hs : handshakeStep st e = .ok st') :
    ¬st'.Refused ∧ (st'.pc.isConnected = false → st'.connector.listener.connections = ∅) := by
  have hmoved : ∀ {pc}, (∀ text, pc ≠ .returned (.error (connUnexpSeg text))) →
      ¬Refused { st with pc := pc } := by
    rintro pc hpc (hsent | ⟨text, heq⟩)
    · exact h.not_refused (.inl hsent)
    · exact hpc text heq
  cases step_result hs with
  | idle => exact ⟨h.not_refused, fun _ => h.connections⟩
  | sends n now hpc =>
    have hwaits : ¬Refused { st with pc := .waiting n now } :=
      hmoved fun _ => ConnectPc.noConfusion
    refine ⟨not_refused_connectorSends hwaits ?_, fun _ => h.connections⟩
    simp [Segment.intoBytes, instrCodeEstablish]
  | checks n start now hpc =>
    refine ⟨not_refused_loopCheck h.not_refused _ _, fun _ => ?_⟩
    unfold loopCheck
    split_ifs <;> exact h.connections
  | starts stream hpc => exact ⟨hmoved fun _ => ConnectPc.noConfusion, fun _ => h.connections⟩
  | connects stream hpc =>
    refine ⟨?_, fun hc' => Bool.noConfusion hc'⟩
    have hreturned : ¬Refused { st with pc := .returned (.ok stream) } :=
      hmoved fun _ heq => by cases heq
    exact hreturned
  | delivers data n now hmem hd =>
    obtain ⟨st₁, hd₁, hconn, hiff⟩ := h.deliverConnector hc (hon data hmem) n now
    obtain rfl := Except.ok.inj (hd.symm.trans hd₁)
    refine ⟨?_, fun _ => hconn⟩
    rw [hiff, he hmem]
    exact Bool.noConfusion
  | works stream t t' host out hw =>
    obtain ⟨-, hconn, hout⟩ := Host.work_spec hw
    refine ⟨not_refused_connectorSends h.not_refused fun x hx => (hout x hx).2, fun _ => ?_⟩
    exact hconn.trans h.connections
  | accepts toAcceptor host out haddr hout =>
    have hkept : ¬Refused { st with toAcceptor := toAcceptor } := h.not_refused
    exact ⟨not_refused_acceptorSends hkept haddr, fun _ => h.connections⟩
  | losesToConnector data => exact ⟨h.not_refused, fun _ => h.connections⟩
  | losesToAcceptor data => exact ⟨h.not_refused, fun _ => h.connections⟩

/-- The connector refuses in exactly the steps in which it reads something unexpected. -/
theorem Trusting.neverRefuses_iff (h : st.Trusting) (hon : st.OnlyConnection)
    (hc : st.pc.isConnected = false) (e : HandshakeEvent) :
    NeverRefuses st e ↔ ReadsExpected st e := by
  constructor
  · intro hnever
    cases e with
    | deliverConnector data n now =>
      intro hmem
      obtain ⟨st', hs, -, hiff⟩ := h.deliverConnector hc (hon data hmem) n now
      have hkept := hnever hc st' (by rw [handshakeStep, if_pos hmem, hs])
      rw [hiff, Bool.not_eq_false] at hkept
      exact hkept
    | _ => trivial
  · intro he _ st' hs
    exact (h.step hon hc he hs).1

/-- What the runs keep. -/
def Sound (st : Handshake) : Prop :=
  st.OnlyConnection ∧ (st.pc.isConnected = false → st.Trusting)

theorem sound_new (connectorAddr : SocketAddr) (acceptor : Host) :
    (new connectorAddr acceptor).Sound := by
  refine ⟨fun data hdata => ?_, fun _ => ⟨rfl, ?_⟩⟩
  · exact absurd hdata (Multiset.notMem_zero data)
  · rintro (hsent | ⟨text, hpc⟩)
    · cases hsent
    · cases hpc

theorem Sound.neverRefuses_iff (h : st.Sound) (e : HandshakeEvent) :
    NeverRefuses st e ↔ ReadsExpected st e := by
  cases hc : st.pc.isConnected with
  | false => exact (h.2 hc).neverRefuses_iff h.1 hc e
  | true =>
    refine iff_of_true (fun hc' => ?_) ?_
    · rw [hc] at hc'
      cases hc'
    · obtain ⟨stream, hpc⟩ := ConnectPc.isConnected_iff.1 hc
      cases e with
      | deliverConnector data n now =>
        intro _
        rw [hpc]
        rfl
      | _ => trivial

theorem Sound.step (h : st.Sound) (hn : NeverRefuses st e) (hs : handshakeStep st e = .ok st') :
    st'.Sound := by
  refine ⟨h.1.step hs, fun hc' => ?_⟩
  cases hc : st.pc.isConnected with
  | true =>
    rw [isConnected_step hc hs, hc] at hc'
    cases hc'
  | false =>
    obtain ⟨hkept, hconn⟩ := (h.2 hc).step h.1 hc ((h.neverRefuses_iff e).1 hn) hs
    exact ⟨hconn hc', hkept⟩

end Handshake

/-- **A handshake does not refuse the acceptor** in exactly the runs in which the first datagram
that is read is its answer, and nothing more is read until the connection is in the table. -/
theorem along_neverRefuses_iff (connectorAddr : SocketAddr) (acceptor : Host)
    (es : List HandshakeEvent) :
    Along handshakeStep NeverRefuses (.new connectorAddr acceptor) es ↔
      Along handshakeStep ReadsExpected (.new connectorAddr acceptor) es :=
  along_congr Handshake.Sound (fun _ e h => h.neverRefuses_iff e)
    (fun _ _ _ h hn hs => h.step hn hs) (Handshake.sound_new _ _) es

/-- An attempt to connect to a listener without connections. -/
def firstAttempt : Handshake := .new (.v4 0 1) (.new (.v4 0 2))

/-- The acceptor writes a byte at once: its `Accept` and its `Data` are on their way. -/
def writtenAtOnce : List HandshakeEvent :=
  [.sendEstablish 5 0, .deliverAcceptor (Segment.establish 5).intoBytes 7,
    .callAcceptor 0 (.write [104]) rfl, .callAcceptor 0 .flush rfl,
    .workAcceptor 0 0 0, .workAcceptor 0 0 0, .workAcceptor 0 0 0, .workAcceptor 0 0 0]

def deliverAccept : HandshakeEvent :=
  .deliverConnector (Segment.sequential 7 .accept).intoBytes 0 0

def deliverData : HandshakeEvent := .deliverConnector [instrCodeData, 8, 104] 0 0

example : Along handshakeStep ReadsExpected firstAttempt
    (writtenAtOnce ++ [deliverAccept, .startThread, .addConnection, deliverData]) := by
  decide +kernel

/-- The `Accept` is lost and the `Data` comes first: the attempt fails and sends a `Reset`. And with
nothing lost, the `Data` is read by the thread of the listener while the connection is not in the
table, which answers with a `Reset`. -/
theorem handshake_refuses_data :
    (¬Along handshakeStep NeverRefuses firstAttempt (writtenAtOnce ++
        [.loseToConnector (Segment.sequential 7 .accept).intoBytes] ++ [deliverData]) ∧
      ∃ st text, run handshakeStep firstAttempt (writtenAtOnce ++
          [.loseToConnector (Segment.sequential 7 .accept).intoBytes] ++ [deliverData]) = .ok st ∧
        st.pc = .returned (.error (connUnexpSeg text)) ∧
        ⟨st.acceptor.addr, Segment.reset.intoBytes⟩ ∈ st.sent) ∧
    ¬Along handshakeStep NeverRefuses firstAttempt
        (writtenAtOnce ++ [deliverAccept, .startThread] ++ [deliverData]) ∧
      ∃ st stream, run handshakeStep firstAttempt
          (writtenAtOnce ++ [deliverAccept, .startThread] ++ [deliverData]) = .ok st ∧
        st.pc = .started stream ∧ ⟨st.acceptor.addr, Segment.reset.intoBytes⟩ ∈ st.sent := by
  refine ⟨⟨fun h => ?_, _, _, rfl, rfl, by decide +kernel⟩, fun h => ?_, _, _, rfl, rfl,
    by decide +kernel⟩
  · exact h.last rfl rfl _ rfl (.inr ⟨_, rfl⟩)
  · exact h.last rfl rfl _ rfl (.inl (by decide +kernel))

end Mdswp
