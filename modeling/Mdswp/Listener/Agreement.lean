import Mathlib.Data.Multiset.Filter
import Mdswp.Codec
import Mdswp.Listener.Handshake
import Mdswp.Listener.Server

/-!
# What a handshake agrees on

The connector draws the number of its `Establish`, and the acceptor that of its `Accept`. The result
is `handshake_agrees`: when an attempt to connect has created its stream, from the numbers `e` and
`a`, then the acceptor has created one stream for the connector, from the same numbers, and no
other. So both ends start as the two ends of one connection.

Any `Accept` under way to the connector carries a number that the acceptor has drawn for it, since a
send storage never gives a second number to its `Accept` (`SendStorage.Announces`); and the acceptor
has drawn it upon the `Establish` of this attempt, since the network has no other.
-/

namespace Mdswp

open StreamInner

theorem eq_intoBytes_of_tryRecv {data : List UInt8} {segment : Segment}
    (h : ListenerInner.tryRecv data = .ok (some segment)) : data = segment.intoBytes := by
  rw [ListenerInner.tryRecv] at h
  split_ifs at h
  · cases h
  · cases htry : Segment.tryFrom (data.take (maxSegmentLen + 1)) with
    | error err =>
      rw [htry] at h
      cases h
    | ok segment' =>
      rw [htry] at h
      cases h
      exact eq_intoBytes_of_take htry

/-! ## The number of an `Accept` -/

/-- Any `Accept` in the storage has the number `a`, or is the next to get one, and that is `a`. -/
structure SendStorage.Announces (s : SendStorage) (a : SequenceNumber) : Prop where
  sent : ∀ x ∈ s.queueSent, x.segment = .accept → x.seqNum = a
  unsent : .accept ∈ s.queueUnsent →
    s.nextUnsent = a ∧ ∃ rest, s.queueUnsent = .accept :: rest ∧ .accept ∉ rest

namespace SendStorage

variable {s s' : SendStorage} {a : SequenceNumber}

theorem announces_newByPeer (a : SequenceNumber) : (newByPeer a).Announces a :=
  ⟨fun _ hx => absurd hx List.not_mem_nil, fun _ => ⟨rfl, [], rfl, List.not_mem_nil⟩⟩

theorem announces_clear (s : SendStorage) (a : SequenceNumber) : s.clear.Announces a :=
  ⟨fun _ hx => absurd hx List.not_mem_nil, fun h => absurd h List.not_mem_nil⟩

theorem Announces.acknowledge (h : s.Announces a) (n : SequenceNumber) :
    (s.acknowledge n).2.Announces a := by
  by_cases hn : s.nextUnsent - n < windowSize
  · rw [acknowledge_of_lt hn]
    exact ⟨fun x hx => h.sent x (List.mem_of_mem_filter hx), h.unsent⟩
  · rw [acknowledge_of_le (BitVec.not_lt.1 hn)]
    exact h

/-- Nothing but an `Accept` is pushed behind it. -/
theorem Announces.append (h : s.Announces a) {l : List SequentialSegment} (hl : .accept ∉ l) :
    Announces { s with queueUnsent := s.queueUnsent ++ l } a := by
  refine ⟨h.sent, fun hmem => ?_⟩
  rcases List.mem_append.1 hmem with hmem | hmem
  · obtain ⟨hnext, rest, hrest, hnot⟩ := h.unsent hmem
    refine ⟨hnext, rest ++ l, ?_, ?_⟩
    · rw [hrest, List.cons_append]
    · rw [List.mem_append]
      exact not_or.2 ⟨hnot, hl⟩
  · exact absurd hmem hl

/-- An `Accept` keeps its number when it is sent again. -/
theorem Announces.pop (h : s.Announces a) {t t' : Instant}
    {r : Option (SequenceNumber × SequentialSegment)} (hp : s.pop t t' = .ok (r, s')) :
    s'.Announces a ∧ ∀ n, r = some (n, .accept) → n = a := by
  cases PopResult.of_pop hp with
  | resent e rest hq ht =>
    have he : e.segment = .accept → e.seqNum = a := h.sent e (by simp [hq])
    refine ⟨⟨fun x hx => ?_, h.unsent⟩, ?_⟩
    · rcases List.mem_append.1 hx with hx | hx
      · exact h.sent x (by simp [hq, hx])
      · rw [List.mem_singleton.1 hx]
        exact he
    · rintro n heq
      obtain ⟨rfl, hseg⟩ := Prod.mk.inj (Option.some.inj heq)
      exact he hseg
  | fresh segment rest hq hlen =>
    have hfirst : segment = .accept → s.nextUnsent = a ∧ .accept ∉ rest := by
      rintro rfl
      obtain ⟨hnext, rest', hrest, hnot⟩ := h.unsent (by simp [hq])
      rw [hq] at hrest
      obtain rfl := (List.cons.inj hrest).2
      exact ⟨hnext, hnot⟩
    have hrest : .accept ∉ rest := by
      intro hmem
      obtain ⟨-, rest', hrest, hnot⟩ := h.unsent (by simp [hq, hmem])
      rw [hq] at hrest
      obtain ⟨-, rfl⟩ := List.cons.inj hrest
      exact hnot hmem
    refine ⟨⟨fun x hx => ?_, fun hmem => absurd hmem hrest⟩, ?_⟩
    · rcases List.mem_append.1 hx with hx | hx
      · exact h.sent x hx
      · rw [List.mem_singleton.1 hx]
        exact fun hseg => (hfirst hseg).1
    · rintro n heq
      obtain ⟨rfl, hseg⟩ := Prod.mk.inj (Option.some.inj heq)
      exact (hfirst hseg).1
  | idle hidle => exact ⟨h, fun n heq => by cases heq⟩

end SendStorage

/-- A stream keeps its address and the number of its `Accept`. -/
structure StreamInner.Keeps (s s' : StreamInner) : Prop where
  peerAddr_eq : s'.peerAddr = s.peerAddr
  announces : ∀ a, s.sendStorage.Announces a → s'.sendStorage.Announces a

namespace StreamInner

variable {s s' s'' : StreamInner}

theorem Keeps.of_eq (hp : s'.peerAddr = s.peerAddr) (hs : s'.sendStorage = s.sendStorage) :
    s.Keeps s' := ⟨hp, fun a h => by rw [hs]; exact h⟩

theorem Keeps.trans (h : s.Keeps s') (h' : s'.Keeps s'') : s.Keeps s'' :=
  ⟨h'.peerAddr_eq.trans h.peerAddr_eq, fun a ha => h'.announces a (h.announces a ha)⟩

theorem keeps_error (s : StreamInner) (err : IoError) (sendReset : Bool) :
    s.Keeps (s.error err sendReset).1 := by
  cases he : s.isErr with
  | true =>
    rw [error_of_isErr he]
    exact .of_eq rfl rfl
  | false =>
    rw [error_of_not_isErr he]
    exact ⟨rfl, fun a _ => s.sendStorage.announces_clear a⟩

theorem keeps_pushed (s : StreamInner) (b : List UInt8) (l : List DataSegment) :
    s.Keeps (s.pushed b l) :=
  ⟨rfl, fun a h => h.append (by simp)⟩

theorem keeps_flush {r : IoResult Unit} (h : s.flush = .ok (r, s')) : s.Keeps s' := by
  rcases flush_eq_ok h with ⟨-, rfl, -⟩ | ⟨-, b, l, rfl⟩
  · exact .of_eq rfl rfl
  · exact s.keeps_pushed b l

theorem keeps_finishWrite {x : IoResult Unit × StreamInner × List ListenerCall}
    (h : s.finishWrite = .ok x) : s.Keeps x.2.1 := by
  rw [finishWrite, finishWriteFlush] at h
  cases hf : s.flush with
  | error f => simp [hf] at h
  | ok y =>
    obtain ⟨_ | _, s₁⟩ := y
    · rw [hf] at h
      cases h
      exact keeps_flush hf
    · rw [hf] at h
      obtain ⟨r, s₂, calls⟩ := x
      refine (keeps_flush hf).trans ?_
      rcases finishWritePush_eq_ok h with ⟨-, -, rfl⟩ | ⟨-, -, rfl⟩
      · exact s₁.keeps_error _ _
      · exact ⟨rfl, fun a ha => ha.append (l := [.finish]) (by simp)⟩

/-- No call of the user touches the `Accept`. -/
theorem keeps_call {op : Operation} {calls : List ListenerCall} (hop : op.isCall)
    (hp : op.perform s = .ok (s', calls)) : s.Keeps s' := by
  cases op with
  | write buf =>
    obtain ⟨⟨r, s₁⟩, hw, heq⟩ := exists_of_map_eq_ok hp
    cases heq
    rcases write_eq_ok hw with ⟨-, rfl⟩ | ⟨-, b, l, rfl⟩
    · exact .of_eq rfl rfl
    · exact s.keeps_pushed b l
  | flush =>
    obtain ⟨⟨r, s₁⟩, hw, heq⟩ := exists_of_map_eq_ok hp
    cases heq
    exact keeps_flush hw
  | finishWrite =>
    obtain ⟨x, hw, heq⟩ := exists_of_map_eq_ok hp
    obtain rfl : x.2.1 = s' := congrArg Prod.fst heq
    exact keeps_finishWrite hw
  | finishWritePoll =>
    rw [Operation.perform, finishWritePoll] at hp
    split_ifs at hp <;> cases hp <;> exact .of_eq rfl rfl
  | read len =>
    obtain ⟨b, st, fin, hr⟩ := s.read_snd len
    rw [Operation.perform, hr] at hp
    cases hp
    exact .of_eq rfl rfl
  | readWait len =>
    obtain ⟨b, st, fin, hr⟩ := s.readWait_snd len
    rw [Operation.perform, hr] at hp
    cases hp
    exact .of_eq rfl rfl
  | reset =>
    rw [Operation.perform, reset] at hp
    split at hp
    · cases hp
      exact .of_eq rfl rfl
    · obtain rfl : _ = s' := congrArg Prod.fst (Except.ok.inj hp)
      exact s.keeps_error _ _
  | recvSegment segment => cases hop
  | error err sendReset => cases hop
  | work t t' sent turns => cases hop

theorem keeps_recvSegment {segment : Segment} {calls : List ListenerCall}
    (h : s.recvSegment segment = .ok (s', calls)) : s.Keeps s' := by
  rcases recvSegment_eq_ok h with ⟨err, sendReset, heq, -⟩ | ⟨n, -, -, -, rfl⟩ |
    ⟨n, variant, st, -, -, -, rfl⟩
  · rw [show s' = _ from congrArg Prod.fst heq]
    exact s.keeps_error _ _
  · exact ⟨rfl, fun a ha => ha.acknowledge n⟩
  · exact .of_eq rfl rfl

/-- The worker sends the `Accept` under its number. -/
theorem keeps_work {p p' : Peer} {t t' : Instant} {out : List Segment}
    (h : p.work t t' = .ok (p', out)) : p.stream.Keeps p'.stream ∧
      ∀ a, p.stream.sendStorage.Announces a → ∀ n, .sequential n .accept ∈ out → n = a := by
  cases Peer.work_result h with
  | goesOn pc => exact ⟨.of_eq rfl rfl, fun a _ n hn => absurd hn List.not_mem_nil⟩
  | acknowledges x r hp => exact ⟨.of_eq rfl rfl, fun a _ n hn => by simp at hn⟩
  | sends x st pc hp =>
    refine ⟨⟨rfl, fun a ha => (ha.pop hp).1⟩, fun a ha n hn => (ha.pop hp).2 n ?_⟩
    obtain ⟨⟨m, segment⟩, hx, heq⟩ := List.mem_map.1 hn
    cases heq
    exact Option.mem_toList.1 hx

end StreamInner

/-! ## The streams of a host -/

def ListenerInner.peerAddrs (l : ListenerInner) : List SocketAddr :=
  l.streams.map fun c => c.inner.peerAddr

/-- A stream of the address has a number for its `Accept` that satisfies `P`. -/
def ListenerInner.Announces (l : ListenerInner) (addr : SocketAddr)
    (P : SequenceNumber → Prop) : Prop :=
  ∀ c ∈ l.streams, c.inner.peerAddr = addr → ∃ a, P a ∧ c.inner.sendStorage.Announces a

/-- The listener has the same streams, with the same numbers. -/
structure ListenerInner.Keeps (l l' : ListenerInner) : Prop where
  peerAddrs_eq : l'.peerAddrs = l.peerAddrs
  announces : ∀ addr P, l.Announces addr P → l'.Announces addr P

namespace ListenerInner

variable {l l' : ListenerInner} {stream : StreamId} {s s' : StreamInner} {live : Bool}

theorem Keeps.refl (l : ListenerInner) : l.Keeps l := ⟨rfl, fun _ _ h => h⟩

theorem react_streams (l : ListenerInner) (stream : StreamId)
    (x : StreamInner × List ListenerCall) :
    (l.react stream x).1.streams = l.streams.modify stream fun c => { c with inner := x.1 } := by
  rw [react, perform_fst]
  generalize x.2.filterMap ListenerCall.removal = removed
  generalize l.streams.modify stream (fun c => { c with inner := x.1 }) = streams
  induction removed generalizing l with
  | nil => rfl
  | cons addr removed ih => exact ih (l.removeConnection addr)

theorem keeps_react (hcell : l.streams[stream]? = some ⟨s, live⟩) (h : s.Keeps s')
    (calls : List ListenerCall) : l.Keeps (l.react stream (s', calls)).1 := by
  obtain ⟨hlt, -⟩ := List.getElem?_eq_some_iff.1 hcell
  have hset : (l.react stream (s', calls)).1.streams = l.streams.set stream ⟨s', live⟩ := by
    rw [react_streams, List.modify_eq_set_getElem?]
    simp [hcell]
  constructor
  · rw [peerAddrs, peerAddrs, hset, List.map_set, h.peerAddr_eq]
    ext i : 1
    rw [List.getElem?_set]
    split_ifs with hi hlen
    · rw [← hi, List.getElem?_map, hcell]
      rfl
    · simp [hlt] at hlen
    · rfl
  · intro addr P hl c hc haddr
    rw [hset] at hc
    rcases List.mem_or_eq_of_mem_set hc with hc | rfl
    · exact hl c hc haddr
    · obtain ⟨a, hP, ha⟩ := hl _ (List.mem_of_getElem? hcell) (h.peerAddr_eq.symm.trans haddr)
      exact ⟨a, hP, h.announces a ha⟩

end ListenerInner

namespace Host

variable {h h' : Host} {out : List Datagram}

/-- Only the `Establish` of an address without stream creates one. -/
theorem recv_cases {data : List UInt8} {src : SocketAddr} {acceptSeqNum : SequenceNumber}
    (hr : h.recv data src acceptSeqNum = .ok (h', out)) :
    h.listener.Keeps h'.listener ∨
      ∃ e, data = (Segment.establish e).intoBytes ∧
        h'.listener = h.listener.establish src e acceptSeqNum := by
  obtain ⟨⟨l, out'⟩, hl, heq⟩ := exists_of_map_eq_ok hr
  cases heq
  rw [ListenerInner.listenThread, ListenerInner.recv] at hl
  cases hu : h.listener.upgrade src with
  | some x =>
    obtain ⟨stream, conn⟩ := x
    left
    have hcell := (Server.upgrade_eq_some.1 hu).2
    rw [hu] at hl
    dsimp only at hl
    split at hl
    · obtain rfl : _ = l := congrArg Prod.fst (Except.ok.inj hl)
      exact ListenerInner.keeps_react hcell (conn.keeps_error _ _) _
    · obtain ⟨⟨conn', calls⟩, hseg, heq⟩ := exists_of_map_eq_ok hl
      obtain rfl : _ = l := congrArg Prod.fst heq
      exact ListenerInner.keeps_react hcell (keeps_recvSegment hseg) calls
  | none =>
    rw [hu] at hl
    dsimp only at hl
    split at hl
    · rename_i e htry
      cases hl
      exact .inr ⟨e, eq_intoBytes_of_take htry, rfl⟩
    · cases hl
      exact .inl (.refl _)

theorem call_keeps {stream : StreamId} {op : Operation} (hop : op.isCall)
    (hc : h.call stream op = .ok (h', out)) : h.listener.Keeps h'.listener := by
  unfold call at hc
  split at hc
  · rename_i conn hcell
    obtain ⟨⟨s', calls⟩, hp, heq⟩ := exists_of_map_eq_ok hc
    cases heq
    exact ListenerInner.keeps_react hcell (keeps_call hop hp) calls
  · cases hc
    exact .refl _

/-- The workers send any `Accept` under its number. -/
theorem work_keeps {stream : StreamId} {t t' : Instant}
    (hw : h.work stream t t' = .ok (h', out)) : h.listener.Keeps h'.listener ∧
      ∀ addr P, h.listener.Announces addr P → ∀ n,
        (Segment.sequential n .accept).intoBytes ∈ payloads addr out → P n := by
  unfold work at hw
  split at hw
  · rename_i conn hcell
    obtain ⟨⟨p, segments⟩, hp, heq⟩ := exists_of_map_eq_ok hw
    cases heq
    obtain ⟨hkeeps, hacc⟩ := keeps_work hp
    refine ⟨ListenerInner.keeps_react hcell hkeeps [], fun addr P hl n hn => ?_⟩
    obtain ⟨x, hx, hbytes⟩ := List.mem_map.1 (Multiset.mem_coe.1 hn)
    obtain ⟨hx, haddr⟩ := List.mem_filter.1 hx
    obtain ⟨segment, hseg, rfl⟩ := List.mem_map.1 hx
    obtain rfl : segment = .sequential n .accept := intoBytes_injective hbytes
    obtain ⟨a, hP, ha⟩ := hl _ (List.mem_of_getElem? hcell) (of_decide_eq_true haddr)
    rwa [hacc a ha n hseg]
  · cases hw
    exact ⟨.refl _, fun addr P _ n hn => absurd hn (Multiset.notMem_zero _)⟩

end Host

/-! ## What a run has done -/

/-- The attempt may have sent an `Establish` with the number `e`. -/
def ConnectPc.Asked (e : SequenceNumber) : ConnectPc → Prop
  | .start => False
  | .waiting establishSeqNum _ => establishSeqNum = e
  | _ => True

/-- The stream that the attempt has created. -/
def ConnectPc.stream : ConnectPc → Option StreamId
  | .built stream => some stream
  | .started stream => some stream
  | .returned (.ok stream) => some stream
  | _ => none

def Segment.isEstablish : Segment → Bool
  | .establish _ => true
  | _ => false

/-- The acceptor may create a stream for this datagram. -/
def isEstablish (data : List UInt8) : Bool :=
  (Segment.tryFrom data).toOption.any Segment.isEstablish

theorem isEstablish_iff {data : List UInt8} :
    isEstablish data ↔ ∃ e, data = (Segment.establish e).intoBytes := by
  constructor
  · intro h
    cases htry : Segment.tryFrom data with
    | error err => simp [isEstablish, htry, Except.toOption] at h
    | ok segment =>
      obtain rfl := (tryFrom_eq_ok_iff _ _).1 htry
      cases segment with
      | establish e => exact ⟨e, rfl⟩
      | _ => simp [isEstablish, Except.toOption, Segment.isEstablish] at h
  · rintro ⟨e, rfl⟩
    simp [isEstablish, Except.toOption, Segment.isEstablish]

theorem not_isEstablish {data : List UInt8} (h : OfConnection data) : ¬isEstablish data := by
  obtain ⟨segment, rfl, hne⟩ := h
  intro hest
  obtain ⟨e, heq⟩ := isEstablish_iff.1 hest
  exact hne e (intoBytes_injective heq)

namespace Handshake

variable {s₀ st st' : Handshake} {es : List HandshakeEvent} {ev : HandshakeEvent}
  {e a : SequenceNumber} {stream : StreamId}

/-- The acceptor has created a stream for the connector, from the `Establish` with the number `e`
and with the number `a` for its `Accept`. -/
def Registers (s₀ : Handshake) (es : List HandshakeEvent) (e a : SequenceNumber) : Prop :=
  ∃ st st', Takes handshakeStep s₀ es st (.deliverAcceptor (Segment.establish e).intoBytes a) st' ∧
    st'.acceptor.listener.streams =
      st.acceptor.listener.streams ++ [⟨.newByPeer s₀.connector.addr e a, true⟩]

/-- The connector has created its stream, from the number `e` of its `Establish` and the `Accept`
with the number `a`. -/
def Builds (s₀ : Handshake) (es : List HandshakeEvent) (e a : SequenceNumber)
    (stream : StreamId) : Prop :=
  ∃ st st' n now, Takes handshakeStep s₀ es st
      (.deliverConnector (Segment.sequential a .accept).intoBytes n now) st' ∧
    stream = st.connector.listener.streams.length ∧
    st'.connector.listener.streams =
      st.connector.listener.streams ++ [⟨.newByLocal s₀.acceptor.addr e a, true⟩]

theorem Registers.append (h : Registers s₀ es e a) (es' : List HandshakeEvent) :
    Registers s₀ (es ++ es') e a := by
  obtain ⟨st, st', htakes, hstreams⟩ := h
  exact ⟨st, st', htakes.append es', hstreams⟩

theorem Builds.append (h : Builds s₀ es e a stream) (es' : List HandshakeEvent) :
    Builds s₀ (es ++ es') e a stream := by
  obtain ⟨st, st', n, now, htakes, hstream⟩ := h
  exact ⟨st, st', n, now, htakes.append es', hstream⟩

/-- The streams of the acceptor for the connector. -/
def acceptances (st : Handshake) : ℕ := st.acceptor.listener.peerAddrs.count st.connector.addr

/-- The acceptor has drawn the number `a` upon an `Establish` of this attempt. -/
def Offers (s₀ : Handshake) (es : List HandshakeEvent) (st : Handshake) (a : SequenceNumber) :
    Prop :=
  ∃ e, Registers s₀ es e a ∧ st.pc.Asked e ∧ 0 < st.acceptances

/-- What holds of a handshake after the events. -/
structure Agreed (s₀ : Handshake) (es : List HandshakeEvent) (st : Handshake) : Prop where
  connectorAddr : st.connector.addr = s₀.connector.addr
  acceptorAddr : st.acceptor.addr = s₀.acceptor.addr
  asked : ∀ e, (Segment.establish e).intoBytes ∈ st.toAcceptor → st.pc.Asked e
  announces : st.acceptor.listener.Announces st.connector.addr (Offers s₀ es st)
  accepts : ∀ a, (Segment.sequential a .accept).intoBytes ∈ st.toConnector → Offers s₀ es st a
  built : ∀ stream, st.pc.stream = some stream →
    0 < st.acceptances ∧ ∃ e a, Registers s₀ es e a ∧ Builds s₀ es e a stream
  /-- An `Establish` is under way, or has created a stream, but not both. -/
  once : (st.toAcceptor.filter (isEstablish ·)).card + st.acceptances ≤ 1
  start : st.pc = .start → (st.toAcceptor.filter (isEstablish ·)).card + st.acceptances = 0

/-- A step by which neither an `Establish` is sent nor a stream of the acceptor is created. -/
structure Quiet (st st' : Handshake) : Prop where
  connectorAddr : st'.connector.addr = st.connector.addr
  acceptorAddr : st'.acceptor.addr = st.acceptor.addr
  asked : ∀ e, st.pc.Asked e → st'.pc.Asked e
  start : st'.pc = .start → st.pc = .start
  listener : st.acceptor.listener.Keeps st'.acceptor.listener
  toAcceptor : st'.toAcceptor.filter (isEstablish ·) ≤ st.toAcceptor.filter (isEstablish ·)
  toConnector : ∀ P, st.acceptor.listener.Announces st.connector.addr P → ∀ a,
    (Segment.sequential a .accept).intoBytes ∈ st'.toConnector →
      (Segment.sequential a .accept).intoBytes ∈ st.toConnector ∨ P a

theorem Quiet.acceptances_eq (h : Quiet st st') : st'.acceptances = st.acceptances := by
  rw [acceptances, acceptances, h.listener.peerAddrs_eq, h.connectorAddr]

theorem Quiet.offers (h : Quiet st st') (ho : Offers s₀ es st a) :
    Offers s₀ (es ++ [ev]) st' a := by
  obtain ⟨e, hreg, hasked, hpos⟩ := ho
  exact ⟨e, hreg.append _, h.asked e hasked, by rwa [h.acceptances_eq]⟩

theorem Agreed.quiet (h : Agreed s₀ es st) (hq : Quiet st st')
    (hb : ∀ stream, st'.pc.stream = some stream → st.pc.stream = some stream ∨
      0 < st.acceptances ∧ ∃ e a, Registers s₀ es e a ∧ Builds s₀ (es ++ [ev]) e a stream) :
    Agreed s₀ (es ++ [ev]) st' where
  connectorAddr := hq.connectorAddr.trans h.connectorAddr
  acceptorAddr := hq.acceptorAddr.trans h.acceptorAddr
  asked e hmem := by
    have hest : isEstablish (Segment.establish e).intoBytes := isEstablish_iff.2 ⟨e, rfl⟩
    have hold := Multiset.mem_of_le hq.toAcceptor (Multiset.mem_filter.2 ⟨hmem, hest⟩)
    exact hq.asked e (h.asked e (Multiset.mem_filter.1 hold).1)
  announces := by
    rw [hq.connectorAddr]
    intro c hc haddr
    obtain ⟨a, hoffers, ha⟩ := hq.listener.announces _ _ h.announces c hc haddr
    exact ⟨a, hq.offers hoffers, ha⟩
  accepts a hmem := by
    rcases hq.toConnector _ h.announces a hmem with hmem | hoffers
    · exact hq.offers (h.accepts a hmem)
    · exact hq.offers hoffers
  built stream hstream := by
    rw [hq.acceptances_eq]
    rcases hb stream hstream with hstream | ⟨hpos, e, a, hreg, hbuild⟩
    · obtain ⟨hpos, e, a, hreg, hbuild⟩ := h.built stream hstream
      exact ⟨hpos, e, a, hreg.append _, hbuild.append _⟩
    · exact ⟨hpos, e, a, hreg.append _, hbuild⟩
  once := by
    rw [hq.acceptances_eq]
    exact (Nat.add_le_add_right (Multiset.card_le_card hq.toAcceptor) _).trans h.once
  start hpc := by
    have hzero := h.start (hq.start hpc)
    have hle := Multiset.card_le_card hq.toAcceptor
    rw [hq.acceptances_eq]
    omega

/-! ## Quiet steps -/

variable {host : Host} {out : List Datagram}

theorem Quiet.refl (st : Handshake) : Quiet st st :=
  ⟨rfl, rfl, fun _ h => h, fun h => h, .refl _, le_rfl, fun _ _ _ h => .inl h⟩

theorem Quiet.trans {st'' : Handshake} (h : Quiet st st') (h' : Quiet st' st'') :
    Quiet st st'' where
  connectorAddr := h'.connectorAddr.trans h.connectorAddr
  acceptorAddr := h'.acceptorAddr.trans h.acceptorAddr
  asked e he := h'.asked e (h.asked e he)
  start hpc := h.start (h'.start hpc)
  listener :=
    ⟨h'.listener.peerAddrs_eq.trans h.listener.peerAddrs_eq, fun addr P hP =>
      h'.listener.announces addr P (h.listener.announces addr P hP)⟩
  toAcceptor := h'.toAcceptor.trans h.toAcceptor
  toConnector P hP a hmem := by
    have hP' : st'.acceptor.listener.Announces st'.connector.addr P := by
      rw [h.connectorAddr]
      exact h.listener.announces _ P hP
    rcases h'.toConnector P hP' a hmem with hmem | ha
    · exact h.toConnector P hP a hmem
    · exact .inr ha

/-- The attempt goes on, and does not send anything. -/
theorem quiet_connector {pc : ConnectPc} (haddr : host.addr = st.connector.addr)
    (hasked : ∀ e, st.pc.Asked e → pc.Asked e) (hstart : pc = .start → st.pc = .start) :
    Quiet st { st with pc := pc, connector := host } :=
  ⟨haddr, rfl, hasked, hstart, .refl _, le_rfl, fun _ _ _ h => .inl h⟩

theorem quiet_returned {err : IoError} : Quiet st { st with pc := .returned (.error err) } :=
  quiet_connector rfl (fun _ _ => trivial) ConnectPc.noConfusion

theorem quiet_loopCheck (start now : Instant) : Quiet st (st.loopCheck start now) := by
  unfold loopCheck
  split_ifs
  · exact .refl st
  · exact quiet_returned

theorem quiet_connectorSends (haddr : host.addr = st.connector.addr)
    (hout : ∀ x ∈ out, OfConnection x.bytes) : Quiet st (st.connectorSends (host, out)) := by
  refine ⟨haddr, rfl, fun _ h => h, fun h => h, .refl _, ?_, fun _ _ _ h => .inl h⟩
  have hnone : (payloads st.acceptor.addr out).filter (isEstablish ·) = 0 := by
    refine Multiset.filter_eq_nil.2 fun data hdata => ?_
    obtain ⟨x, hx, rfl⟩ := mem_payloads hdata
    exact not_isEstablish (hout x hx)
  rw [connectorSends, Multiset.filter_add, hnone, Multiset.add_zero]

theorem quiet_acceptorSends (haddr : host.addr = st.acceptor.addr)
    (hkeeps : st.acceptor.listener.Keeps host.listener)
    (hout : ∀ P, st.acceptor.listener.Announces st.connector.addr P → ∀ a,
      (Segment.sequential a .accept).intoBytes ∈ payloads st.connector.addr out → P a) :
    Quiet st (st.acceptorSends (host, out)) := by
  refine ⟨rfl, haddr, fun _ h => h, fun h => h, hkeeps, le_rfl, fun P hP a hmem => ?_⟩
  exact (Multiset.mem_add.1 hmem).imp_right (hout P hP a)

theorem quiet_eraseToConnector (data : List UInt8) :
    Quiet st { st with toConnector := st.toConnector.erase data } :=
  ⟨rfl, rfl, fun _ h => h, fun h => h, .refl _, le_rfl,
    fun _ _ _ h => .inl (Multiset.mem_of_mem_erase h)⟩

theorem quiet_eraseToAcceptor (data : List UInt8) :
    Quiet st { st with toAcceptor := st.toAcceptor.erase data } :=
  ⟨rfl, rfl, fun _ h => h, fun h => h, .refl _,
    Multiset.filter_le_filter _ (Multiset.erase_le _ _), fun _ _ _ h => .inl h⟩

/-- A host that answers with `Reset` only sends no `Accept`. -/
theorem not_accept_of_reset (hout : ∀ x ∈ out, x.bytes = Segment.reset.intoBytes)
    (addr : SocketAddr) (a : SequenceNumber) :
    (Segment.sequential a .accept).intoBytes ∉ payloads addr out := by
  intro hmem
  obtain ⟨x, hx, hbytes⟩ := mem_payloads hmem
  cases intoBytes_injective ((hout x hx).symm.trans hbytes)

theorem ofConnection_of_reset (hout : ∀ x ∈ out, x.bytes = Segment.reset.intoBytes) :
    ∀ x ∈ out, OfConnection x.bytes := by
  intro x hx
  rw [hout x hx]
  exact ofConnection_reset

/-- The first segment is the `Accept`, or the attempt creates no stream. -/
theorem recvFirst_cases (st : Handshake) (e : SequenceNumber) (start now : Instant)
    (data : List UInt8) :
    (∃ n, data = (Segment.sequential n .accept).intoBytes ∧
        st.recvFirst e start now data = st.build e n) ∨
      Quiet st (st.recvFirst e start now data) ∧
        ∀ stream, (st.recvFirst e start now data).pc.stream = some stream →
          st.pc.stream = some stream := by
  have hfails : ∀ {err}, Quiet st { st with pc := .returned (.error err) } ∧
      ∀ stream, (ConnectPc.returned (.error err)).stream = some stream →
        st.pc.stream = some stream :=
    ⟨quiet_returned, fun stream h => by cases h⟩
  unfold recvFirst
  split
  · exact .inr hfails
  · refine .inr ⟨quiet_loopCheck start now, ?_⟩
    unfold loopCheck
    split_ifs
    · exact fun stream h => h
    · exact hfails.2
  · exact .inr hfails
  · rename_i n htry
    exact .inl ⟨n, eq_intoBytes_of_tryRecv htry, rfl⟩
  · refine .inr ⟨?_, hfails.2⟩
    have hsent : Quiet st (st.sendTo .reset) :=
      quiet_connectorSends rfl fun x hx => by
        rw [List.mem_singleton.1 hx]
        exact ofConnection_reset
    exact hsent.trans quiet_returned

/-! ## The steps -/

theorem Offers.asked (h : Offers s₀ es st a) : st.pc ≠ .start := by
  obtain ⟨e, -, hasked, -⟩ := h
  intro hpc
  rw [hpc] at hasked
  exact hasked

/-- The `Establish` of the attempt leaves, while nothing has been offered yet. -/
theorem Agreed.sendEstablish (h : Agreed s₀ es st) (hpc : st.pc = .start) (n : SequenceNumber)
    (now : Instant) :
    Agreed s₀ (es ++ [ev]) { st.sendTo (.establish n) with pc := .waiting n now } where
  connectorAddr := h.connectorAddr
  acceptorAddr := h.acceptorAddr
  asked e hmem := by
    rcases Multiset.mem_add.1 hmem with hmem | hmem
    · have hasked := h.asked e hmem
      rw [hpc] at hasked
      exact hasked.elim
    · obtain ⟨x, hx, hbytes⟩ := mem_payloads hmem
      obtain rfl := List.mem_singleton.1 hx
      cases intoBytes_injective (show (Segment.establish n).intoBytes = _ from hbytes)
      rfl
  announces c hc haddr := by
    obtain ⟨a, hoffers, -⟩ := h.announces c hc haddr
    exact absurd hpc hoffers.asked
  accepts a hmem := absurd hpc (h.accepts a hmem).asked
  built stream hstream := by cases hstream
  once := by
    have hzero := h.start hpc
    set sent := payloads st.acceptor.addr
      [⟨st.acceptor.addr, (Segment.establish n).intoBytes⟩] with hsent
    have hone : (sent.filter (isEstablish ·)).card ≤ 1 := by
      refine (Multiset.card_le_card (Multiset.filter_le _ _)).trans ?_
      simp [hsent, payloads]
    show ((st.toAcceptor + sent).filter (isEstablish ·)).card + st.acceptances ≤ 1
    rw [Multiset.filter_add, Multiset.card_add]
    omega
  start hstart := by cases hstart

/-- The acceptor creates a stream upon the `Establish` of the attempt, which is gone then. -/
theorem Agreed.registers (hr : run handshakeStep s₀ es = .ok st) (h : Agreed s₀ es st)
    (hmem : (Segment.establish e).intoBytes ∈ st.toAcceptor)
    (hs : handshakeStep st (.deliverAcceptor (Segment.establish e).intoBytes a) =
      .ok (acceptorSends { st with
        toAcceptor := st.toAcceptor.erase (Segment.establish e).intoBytes } (host, out)))
    (haddr : host.addr = st.acceptor.addr)
    (hhost : host.listener = st.acceptor.listener.establish st.connector.addr e a)
    (hout : ∀ x ∈ out, x.bytes = Segment.reset.intoBytes) :
    Agreed s₀ (es ++ [.deliverAcceptor (Segment.establish e).intoBytes a])
      (acceptorSends { st with
        toAcceptor := st.toAcceptor.erase (Segment.establish e).intoBytes } (host, out)) := by
  set ev : HandshakeEvent := .deliverAcceptor (Segment.establish e).intoBytes a
  set st' : Handshake := acceptorSends { st with
    toAcceptor := st.toAcceptor.erase (Segment.establish e).intoBytes } (host, out)
  have hstreams : st'.acceptor.listener.streams =
      st.acceptor.listener.streams ++ [⟨.newByPeer st.connector.addr e a, true⟩] := by
    show host.listener.streams = _
    rw [hhost]
    rfl
  have hcount : st'.acceptances = st.acceptances + 1 := by
    show host.listener.peerAddrs.count st.connector.addr = _
    rw [acceptances, ListenerInner.peerAddrs, hhost, ListenerInner.peerAddrs]
    simp [ListenerInner.establish, newByPeer]
  have hnew : Registers s₀ (es ++ [ev]) e a := by
    refine ⟨st, st', takes_last hr hs, ?_⟩
    rw [hstreams, h.connectorAddr]
  have hold : ∀ a, Offers s₀ es st a → Offers s₀ (es ++ [ev]) st' a := by
    rintro a ⟨e, hreg, hasked, -⟩
    exact ⟨e, hreg.append _, hasked, by omega⟩
  have hasked := h.asked e hmem
  refine ⟨h.connectorAddr, haddr.trans h.acceptorAddr, fun e' he' => ?_, fun c hc hcaddr => ?_,
    fun a' ha' => ?_, fun stream hstream => ?_, ?_, fun hpc => ?_⟩
  · exact h.asked e' (Multiset.mem_of_mem_erase he')
  · rw [hstreams] at hc
    rcases List.mem_append.1 hc with hc | hc
    · obtain ⟨a', hoffers, ha'⟩ := h.announces c hc hcaddr
      exact ⟨a', hold a' hoffers, ha'⟩
    · rw [List.mem_singleton.1 hc]
      exact ⟨a, ⟨e, hnew, hasked, by omega⟩, SendStorage.announces_newByPeer a⟩
  · rcases Multiset.mem_add.1 ha' with ha' | ha'
    · exact hold a' (h.accepts a' ha')
    · exact absurd ha' (not_accept_of_reset hout _ _)
  · obtain ⟨-, e', a', hreg, hbuild⟩ := h.built stream hstream
    exact ⟨by omega, e', a', hreg.append _, hbuild.append _⟩
  · have hest : isEstablish (Segment.establish e).intoBytes := isEstablish_iff.2 ⟨e, rfl⟩
    have hcard : (st.toAcceptor.filter (isEstablish ·)).card =
        (st'.toAcceptor.filter (isEstablish ·)).card + 1 := by
      show _ = ((st.toAcceptor.erase _).filter (isEstablish ·)).card + 1
      conv_lhs => rw [← Multiset.cons_erase hmem]
      rw [Multiset.filter_cons_of_pos (p := (isEstablish · = true)) _ hest, Multiset.card_cons]
    have honce := h.once
    omega
  · rw [show st.pc = .start from hpc] at hasked
    exact hasked.elim

/-- Whoever reads the socket of the connector: the attempt may create its stream. -/
theorem Agreed.deliverConnector (hr : run handshakeStep s₀ es = .ok st) (h : Agreed s₀ es st)
    {data : List UInt8} {n : SequenceNumber} {now : Instant} (hmem : data ∈ st.toConnector)
    (hs : handshakeStep st (.deliverConnector data n now) = .ok st')
    (hd : st.deliverConnector data n now = .ok st') :
    Agreed s₀ (es ++ [.deliverConnector data n now]) st' := by
  have hsame : ∀ {st'}, Quiet st st' → st'.pc = st.pc →
      Agreed s₀ (es ++ [.deliverConnector data n now]) st' :=
    fun hq hpc => h.quiet hq fun stream hstream => .inl (hpc ▸ hstream)
  have herased : Quiet st { st with toConnector := st.toConnector.erase data } :=
    quiet_eraseToConnector data
  have hrecv : ∀ {host out}, st.connector.recv data st.acceptor.addr n = .ok (host, out) →
      Quiet st ({ st with toConnector := st.toConnector.erase data }.connectorSends
        (host, out)) := by
    intro host out hrecv
    obtain ⟨haddr, hout⟩ := Host.recv_spec hrecv
    exact herased.trans (quiet_connectorSends haddr (ofConnection_of_reset hout))
  unfold Handshake.deliverConnector at hd
  split at hd
  · cases hd
    exact hsame (.refl st) rfl
  · rename_i e start hpc
    cases hd
    rcases recvFirst_cases { st with toConnector := st.toConnector.erase data } e start now data
      with ⟨a, rfl, hbuild⟩ | ⟨hq, hpc'⟩
    · rw [hbuild] at hs ⊢
      obtain ⟨e', hreg, hasked, hpos⟩ := h.accepts a hmem
      obtain rfl : e = e' := by
        rw [hpc] at hasked
        exact hasked
      refine h.quiet (herased.trans (quiet_connector rfl (fun _ _ => trivial)
        ConnectPc.noConfusion)) fun stream hstream => .inr ⟨hpos, e, a, hreg, ?_⟩
      refine ⟨st, _, n, now, takes_last hr hs, (Option.some.inj hstream).symm, ?_⟩
      rw [← h.acceptorAddr]
      rfl
    · exact h.quiet (herased.trans hq) fun stream hstream => .inl (hpc' stream hstream)
  · cases hd
    exact hsame (.refl st) rfl
  · obtain ⟨⟨host, out⟩, hr', rfl⟩ := exists_of_map_eq_ok hd
    exact hsame (hrecv hr') rfl
  · obtain ⟨⟨host, out⟩, hr', rfl⟩ := exists_of_map_eq_ok hd
    exact hsame (hrecv hr') rfl
  · cases hd
    exact hsame herased rfl

theorem Agreed.step (hr : run handshakeStep s₀ es = .ok st) (h : Agreed s₀ es st)
    (hs : handshakeStep st ev = .ok st') : Agreed s₀ (es ++ [ev]) st' := by
  have hsame : ∀ {st'}, Quiet st st' → st'.pc = st.pc → Agreed s₀ (es ++ [ev]) st' :=
    fun hq hpc => h.quiet hq fun stream hstream => .inl (hpc ▸ hstream)
  cases ev with
  | sendEstablish n now =>
    rw [handshakeStep] at hs
    split at hs
    · cases hs
      exact h.sendEstablish ‹_› n now
    · cases hs
      exact hsame (.refl st) rfl
  | interrupted now =>
    rw [handshakeStep] at hs
    split at hs
    · cases hs
      refine h.quiet (quiet_loopCheck _ now) fun stream hstream => .inl ?_
      unfold loopCheck at hstream
      split_ifs at hstream
      · exact hstream
      · cases hstream
    · cases hs
      exact hsame (.refl st) rfl
  | startThread =>
    rw [handshakeStep] at hs
    split at hs
    · rename_i stream hpc
      cases hs
      refine h.quiet (quiet_connector rfl (fun _ _ => trivial) ConnectPc.noConfusion)
        fun stream' hstream => .inl ?_
      rw [hpc]
      exact hstream
    · cases hs
      exact hsame (.refl st) rfl
  | addConnection =>
    rw [handshakeStep] at hs
    split at hs
    · rename_i stream hpc
      cases hs
      refine h.quiet (quiet_connector rfl (fun _ _ => trivial) ConnectPc.noConfusion)
        fun stream' hstream => .inl ?_
      rw [hpc]
      exact hstream
    · cases hs
      exact hsame (.refl st) rfl
  | deliverConnector data n now =>
    have hs' := hs
    rw [handshakeStep] at hs
    split_ifs at hs with hmem
    · exact h.deliverConnector hr hmem hs' hs
    · cases hs
      exact hsame (.refl st) rfl
  | workConnector stream t t' =>
    obtain ⟨⟨host, out⟩, hw, rfl⟩ := exists_of_map_eq_ok hs
    obtain ⟨haddr, -, hout⟩ := Host.work_spec hw
    exact hsame (quiet_connectorSends haddr fun x hx => (hout x hx).1) rfl
  | deliverAcceptor data n =>
    have hs' := hs
    rw [handshakeStep] at hs
    split_ifs at hs with hmem
    · obtain ⟨⟨host, out⟩, hrecv, rfl⟩ := exists_of_map_eq_ok hs
      obtain ⟨haddr, hout⟩ := Host.recv_spec hrecv
      rcases Host.recv_cases hrecv with hkeeps | ⟨e, rfl, hhost⟩
      · refine hsame ((quiet_eraseToAcceptor data).trans
          (quiet_acceptorSends haddr hkeeps fun P _ a ha => ?_)) rfl
        exact absurd ha (not_accept_of_reset hout _ _)
      · exact h.registers hr hmem hs' haddr hhost hout
    · cases hs
      exact hsame (.refl st) rfl
  | workAcceptor stream t t' =>
    obtain ⟨⟨host, out⟩, hw, rfl⟩ := exists_of_map_eq_ok hs
    obtain ⟨haddr, -, -⟩ := Host.work_spec hw
    obtain ⟨hkeeps, hout⟩ := Host.work_keeps hw
    exact hsame (quiet_acceptorSends haddr hkeeps (hout _)) rfl
  | callAcceptor stream op hop =>
    obtain ⟨⟨host, out⟩, hc, rfl⟩ := exists_of_map_eq_ok hs
    obtain ⟨haddr, hout⟩ := Host.call_spec hop hc
    refine hsame (quiet_acceptorSends haddr (Host.call_keeps hop hc) fun P _ a ha => ?_) rfl
    exact absurd ha (not_accept_of_reset hout _ _)
  | loseToConnector data =>
    cases hs
    exact hsame (quiet_eraseToConnector data) rfl
  | loseToAcceptor data =>
    cases hs
    exact hsame (quiet_eraseToAcceptor data) rfl

end Handshake

/-- **A handshake agrees.** When an attempt to connect, to an acceptor without a stream for the
connector, has created its stream, it has done so from the number `e` of its `Establish` and the
number `a` of an `Accept`; and the acceptor has created a stream for the connector from the same two
numbers, and has no other one for it. This holds after every run, whatever datagrams have been lost
or reordered, and whatever the other streams of the acceptor have done. -/
theorem handshake_agrees {connectorAddr : SocketAddr} {acceptor : Host}
    (hnew : connectorAddr ∉ acceptor.listener.peerAddrs) {es : List HandshakeEvent}
    {st : Handshake} (hr : run handshakeStep (.new connectorAddr acceptor) es = .ok st)
    {stream : StreamId} (hs : st.pc.stream = some stream) :
    st.acceptances = 1 ∧ ∃ e a, Handshake.Registers (.new connectorAddr acceptor) es e a ∧
      Handshake.Builds (.new connectorAddr acceptor) es e a stream := by
  have hzero : ((Handshake.new connectorAddr acceptor).toAcceptor.filter (isEstablish ·)).card +
      (Handshake.new connectorAddr acceptor).acceptances = 0 :=
    Nat.add_eq_zero_iff.2 ⟨by simp [Handshake.new], List.count_eq_zero.2 hnew⟩
  have h : Handshake.Agreed (.new connectorAddr acceptor) es st := by
    refine run_history (Handshake.Agreed (.new connectorAddr acceptor))
      (fun es st ev st' hr h hs => h.step hr hs) ?_ hr
    refine ⟨rfl, rfl, fun e he => absurd he (Multiset.notMem_zero _), fun c hc haddr => ?_,
      fun a ha => absurd ha (Multiset.notMem_zero _), fun stream hstream => (by cases hstream), ?_,
      fun _ => hzero⟩
    · exact absurd (List.mem_map.2 ⟨c, hc, haddr⟩) hnew
    · exact (Nat.le_of_eq hzero).trans (Nat.zero_le 1)
  obtain ⟨hpos, hagree⟩ := h.built stream hs
  have honce := h.once
  exact ⟨by omega, hagree⟩

/-- A byte is written before the `Accept` arrives, and its `Data` is lost. -/
theorem handshake_agrees_writtenAtOnce :
    ∃ st, run handshakeStep firstAttempt (writtenAtOnce ++
        [.loseToConnector [instrCodeData, 8, 104], deliverAccept, .startThread, .addConnection]) =
          .ok st ∧
      st.acceptances = 1 ∧ ∃ e a, Handshake.Registers firstAttempt (writtenAtOnce ++
          [.loseToConnector [instrCodeData, 8, 104], deliverAccept, .startThread,
            .addConnection]) e a ∧
        Handshake.Builds firstAttempt (writtenAtOnce ++
          [.loseToConnector [instrCodeData, 8, 104], deliverAccept, .startThread,
            .addConnection]) e a 0 :=
  ⟨_, rfl, @handshake_agrees (.v4 0 1) (.new (.v4 0 2)) (by decide) _ _ rfl _ rfl⟩

end Mdswp
