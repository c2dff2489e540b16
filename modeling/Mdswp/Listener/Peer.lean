import Mdswp.Listener.Inner

/-!
# One end of a connection

A `Peer` is a stream with its worker thread, as the only connection of its listener. The listener's
table yields the stream until it errs (`ListenerInner.Holds`): a segment from the other end goes to
the stream, and is answered with a `Reset` afterwards. `ListenerInner.Holds.recv` says that this is
what the listener makes of the datagram.
-/

namespace Mdswp

open StreamInner

structure Peer where
  stream : StreamInner
  worker : WorkerPc

/-- The segment that a call of a stream sends to the other end. -/
def ListenerCall.segment : ListenerCall → Option Segment
  | .removeConnection _ => none
  | .sendTo _ segment => some segment

namespace Peer

/-- A segment other than `Establish` arrives. What is sent in answer is returned. -/
def deliver (p : Peer) (segment : Segment) : Exec (Peer × List Segment) :=
  if p.stream.isErr then .ok (p, [.reset])
  else (p.stream.recvSegment segment).map fun (s, calls) =>
    ({ p with stream := s }, calls.filterMap ListenerCall.segment)

/-- A step of the worker, for a socket that takes every datagram. -/
def work (p : Peer) (t t' : Instant) : Exec (Peer × List Segment) :=
  match p.worker with
  | .check => .ok ({ p with worker := threadCheck (some p.stream) }, [])
  | .ack =>
    match p.stream.threadAck t t' (.ok ()) with
    | (s, calls, pc) => .ok (⟨s, pc⟩, calls.filterMap ListenerCall.segment)
  | .send => (p.stream.threadSend t t' (.ok ())).map fun (s, calls, pc) =>
      (⟨s, pc⟩, calls.filterMap ListenerCall.segment)
  | .exited => .ok (p, [])

/-- A `Reset` ends the connection; nothing is sent. -/
theorem deliver_reset {p : Peer} (h : p.stream.isErr = false) :
    p.deliver .reset = .ok ({ p with stream := { p.stream with
      connState := .error connResetByPeer
      sendStorage := p.stream.sendStorage.clear
      recvStorage := p.stream.recvStorage.clear } }, []) := by
  have hnot : ¬p.stream.isErr := by simp [h]
  rw [deliver, if_neg hnot, recvSegment, error, if_neg hnot]
  rfl

/-- What a step of the worker does: nothing but go on, or acknowledge, or send. -/
inductive WorkResult (p : Peer) (t t' : Instant) : Peer → List Segment → Prop
  | goesOn (pc : WorkerPc) : WorkResult p t t' { p with worker := pc } []
  | acknowledges (x : Option SequenceNumber) (r : RecvStorage)
    (hp : p.stream.recvStorage.popAcknowledge t t' = (x, r)) :
    WorkResult p t t' ⟨{ p.stream with recvStorage := r }, .send⟩ (x.toList.map .acknowledge)
  | sends (x : Option (SequenceNumber × SequentialSegment)) (s : SendStorage) (pc : WorkerPc)
    (hp : p.stream.sendStorage.pop t t' = .ok (x, s)) :
    WorkResult p t t' ⟨{ p.stream with sendStorage := s }, pc⟩
      (x.toList.map fun y => .sequential y.1 y.2)

theorem work_result {p p' : Peer} {t t' : Instant} {out : List Segment}
    (h : p.work t t' = .ok (p', out)) : p.WorkResult t t' p' out := by
  rw [work] at h
  split at h
  · cases h
    exact .goesOn _
  · rw [threadAck] at h
    cases hp : p.stream.recvStorage.popAcknowledge t t' with
    | mk x r =>
    have hres := WorkResult.acknowledges (p := p) x r hp
    cases x with
    | none =>
      rw [hp] at h
      cases h
      exact hres
    | some n =>
      rw [hp] at h
      cases h
      exact hres
  · obtain ⟨⟨s, calls, pc⟩, hsend, heq⟩ := exists_of_map_eq_ok h
    rw [threadSend] at hsend
    cases hp : p.stream.sendStorage.pop t t' with
    | error f => simp [hp] at hsend
    | ok x =>
      obtain ⟨x, st⟩ := x
      have hres := WorkResult.sends (p := p) x st pc hp
      cases x with
      | none =>
        rw [hp] at hsend
        cases hsend
        cases heq
        exact hres
      | some y =>
        rw [hp] at hsend
        cases hsend
        cases heq
        exact hres
  · cases h
    exact .goesOn _

end Peer

/-! ## The listener of a peer -/

/-- The datagrams of the calls of a stream that sends to one address only. -/
theorem filterMap_datagram {addr : SocketAddr} {calls : List ListenerCall}
    (h : ∀ a segment, .sendTo a segment ∈ calls → a = addr) :
    calls.filterMap ListenerCall.datagram =
      (calls.filterMap ListenerCall.segment).map fun x => ⟨addr, x.intoBytes⟩ := by
  induction calls with
  | nil => rfl
  | cons call calls ih =>
    have ih := ih fun a segment hm => h a segment (List.mem_cons_of_mem _ hm)
    cases call with
    | removeConnection a => exact ih
    | sendTo a segment =>
      obtain rfl := h a segment List.mem_cons_self
      simp only [List.filterMap_cons, ListenerCall.datagram, ListenerCall.segment, List.map_cons,
        ih]

theorem error_snd (s : StreamInner) (err : IoError) (sendReset : Bool) :
    (s.error err sendReset).2 = if s.isErr then [] else
      .removeConnection s.peerAddr :: if sendReset then [.sendTo s.peerAddr .reset] else [] := by
  rw [error]
  split_ifs <;> rfl

theorem eq_of_sendTo_mem_error {s : StreamInner} {err : IoError} {sendReset : Bool}
    {a : SocketAddr} {segment : Segment} (h : .sendTo a segment ∈ (s.error err sendReset).2) :
    a = s.peerAddr := by
  rw [error_snd] at h
  split_ifs at h <;> simp_all

/-- The table yields the stream for the address as long as the stream is healthy. -/
structure ListenerInner.Holds (l : ListenerInner) (addr : SocketAddr) (stream : StreamId)
    (s : StreamInner) : Prop where
  cell : l.streams[stream]? = some ⟨s, true⟩
  entry : l.connections.lookup addr = if s.isErr then none else some stream
  peerAddr_eq : s.peerAddr = addr

namespace ListenerInner.Holds

variable {l : ListenerInner} {addr : SocketAddr} {stream : StreamId} {s : StreamInner}

theorem upgrade (h : l.Holds addr stream s) :
    l.upgrade addr = if s.isErr then none else some (stream, s) := by
  rw [ListenerInner.upgrade, h.entry]
  cases s.isErr <;> simp [h.cell]

theorem of_establish (l : ListenerInner) (addr : SocketAddr) (e a : SequenceNumber) :
    (l.establish addr e a).Holds addr l.streams.length (.newByPeer addr e a) := by
  refine ⟨?_, ?_, rfl⟩
  · simp [establish]
  · simp [establish, newByPeer, StreamInner.isErr]

/-- A step that neither ends the connection nor asks for anything. -/
theorem react_nil (h : l.Holds addr stream s) {s' : StreamInner} (he : s'.isErr = s.isErr)
    (hp : s'.peerAddr = s.peerAddr) : (l.react stream (s', [])).1.Holds addr stream s' := by
  refine ⟨?_, ?_, hp.trans h.peerAddr_eq⟩
  · simp [react, perform, h.cell]
  · rw [he]
    exact h.entry

/-- The error of a stream takes its entry out of the table. -/
theorem react_error (h : l.Holds addr stream s) (err : IoError) (sendReset : Bool) :
    (l.react stream (s.error err sendReset)).1.Holds addr stream (s.error err sendReset).1 := by
  cases he : s.isErr with
  | true =>
    rw [error_of_isErr he]
    exact h.react_nil rfl rfl
  | false =>
    have hcalls : (s.error err sendReset).2 =
        .removeConnection addr :: if sendReset then [.sendTo addr .reset] else [] := by
      rw [error_snd, if_neg (by simp [he]), h.peerAddr_eq]
    have hreact : (l.react stream (s.error err sendReset)).1 = removeConnection { l with
        streams := l.streams.modify stream fun c => { c with inner := (s.error err sendReset).1 } }
        addr := by
      rw [react, hcalls]
      cases sendReset <;> rfl
    rw [hreact]
    refine ⟨?_, ?_, ?_⟩
    · simp [removeConnection, h.cell]
    · simp [removeConnection]
    · rw [error_of_not_isErr he]
      exact h.peerAddr_eq

/-- **The listener does with the datagram of a segment what `Peer.deliver` says.** -/
theorem recv {p p' : Peer} {segment : Segment} {out : List Segment}
    (h : l.Holds addr stream p.stream) (hne : ∀ n, segment ≠ .establish n)
    (hd : p.deliver segment = .ok (p', out)) (acceptSeqNum : SequenceNumber) :
    ∃ l', l.recv segment.intoBytes addr acceptSeqNum =
        .ok (l', out.map fun x => ⟨addr, x.intoBytes⟩) ∧ l'.Holds addr stream p'.stream := by
  rw [Peer.deliver] at hd
  rw [ListenerInner.recv, h.upgrade, Segment.tryFrom_intoBytes]
  cases he : p.stream.isErr with
  | true =>
    rw [he] at hd
    cases hd
    cases segment with
    | establish n => exact absurd rfl (hne n)
    | reset => exact ⟨l, rfl, h⟩
    | acknowledge n => exact ⟨l, rfl, h⟩
    | sequential n variant => exact ⟨l, rfl, h⟩
  | false =>
    rw [he, if_neg (by simp)] at hd
    rw [if_neg (by simp)]
    dsimp only
    cases hr : p.stream.recvSegment segment with
    | error f => simp [hr, Except.map] at hd
    | ok x =>
      obtain ⟨s, calls⟩ := x
      rw [hr] at hd
      cases hd
      refine ⟨(l.react stream (s, calls)).1, ?_, ?_⟩
      · refine congrArg Except.ok (Prod.ext rfl ?_)
        rw [react_snd]
        apply filterMap_datagram
        intro a x hm
        rcases recvSegment_eq_ok hr with ⟨err, sendReset, heq, -⟩ | ⟨-, -, -, rfl, -⟩ |
          ⟨-, -, -, -, -, rfl, -⟩
        · obtain rfl : calls = _ := congrArg Prod.snd heq
          exact (eq_of_sendTo_mem_error hm).trans h.peerAddr_eq
        · cases hm
        · cases hm
      · rcases recvSegment_eq_ok hr with ⟨err, sendReset, heq, -⟩ | ⟨n, -, -, rfl, rfl⟩ |
          ⟨n, variant, r, -, -, rfl, rfl⟩
        · rw [heq, show s = _ from congrArg Prod.fst heq]
          exact h.react_error err sendReset
        · exact h.react_nil rfl rfl
        · exact h.react_nil rfl rfl

/-- The worker leaves the table alone. -/
theorem work {p p' : Peer} {t t' : Instant} {out : List Segment}
    (h : l.Holds addr stream p.stream) (hw : p.work t t' = .ok (p', out)) :
    (l.react stream (p'.stream, [])).1.Holds addr stream p'.stream := by
  cases Peer.work_result hw with
  | goesOn pc => exact h.react_nil rfl rfl
  | acknowledges x r hp => exact h.react_nil rfl rfl
  | sends x s pc hp => exact h.react_nil rfl rfl

end ListenerInner.Holds

end Mdswp
