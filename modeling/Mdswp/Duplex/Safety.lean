import Mdswp.Duplex.Simulation

/-!
# Safety of a connection

In every orderly run of a connection each user has read a prefix of what the other has written, and
sees the end of the stream only after everything that had been pushed when `Finish` was
(`duplex_delivers`). This holds for all calls and errors at both ends, whatever the workers have
done, over a network that loses, duplicates and reorders what it carries in either direction.

What has been received is read in order also after an error. But when a call goes on pushing to a
stream that has errored, the other end may miss what was written before
(`truncated_finishAfterReset`, `gap_pushAfterReset`).
-/

namespace Mdswp

open StreamInner

variable {o : Opening} {x x' y y' : Station}

/-- What a user has read has been written, and the end of the stream is seen after what had been
pushed when `Finish` was. -/
structure Delivered (x y : Station) : Prop where
  prefix_written : y.bytesRead <+: x.written
  ended : y.stream.recvFinished → ∃ w b, x.closed = some (w, b) ∧ y.bytesRead ++ b = w

theorem Carries.delivered {l : Link} (h : Carries o x y l) : Delivered x y where
  prefix_written := (List.prefix_append _ _).trans h.read_prefix
  ended := h.closed_of_finished

/-- Two new streams of which the first has nothing to send yet but, if it accepts, its `Accept`. -/
theorem carries_byLocal (a b : SocketAddr) (e n : SequenceNumber) :
    Carries (.byLocal e) (Party.new (.newByLocal a e n)).toStation
      (Party.new (.newByPeer b e n)).toStation (Opening.byLocal e).link where
  inv := Opening.inv _
  accepted_eq := rfl
  popped_eq := rfl
  writes := ⟨nofun, fun _ => ⟨nofun, List.nil_prefix, fun _ => rfl⟩, nofun⟩
  sending := .sent rfl rfl
  issued_le := ⟨Nat.zero_le _, Nat.zero_le _⟩
  copies := nofun
  acks := nofun
  receiver := .refl (RecvStorage.bounded_newByPeer e)
  reads := ⟨fun _ => ⟨nofun, rfl⟩, nofun, nofun⟩

theorem carries_byPeer (a b : SocketAddr) (e n : SequenceNumber) (t : Instant) :
    Carries (.byPeer n t) (Party.new (.newByPeer b e n)).toStation
      (Party.new (.newByLocal a e n)).toStation (Opening.byPeer n t).link where
  inv := Opening.inv _
  accepted_eq := rfl
  popped_eq := rfl
  writes := ⟨nofun, fun _ => ⟨nofun, List.nil_prefix, fun _ => rfl⟩, nofun⟩
  sending := .unsent rfl {
    first_eq := rfl
    link_issued_eq := rfl
    issued_eq := rfl
    queueSent_eq := ⟨t, rfl⟩
    nextUnsent_eq := rfl
    storage_eq := rfl
    acks_eq := rfl
    copy_mem := List.mem_singleton_self _
    unopened := by simp [Party.new] }
  issued_le := ⟨Nat.zero_le _, Nat.zero_le _⟩
  copies := nofun
  acks := nofun
  receiver := .refl (RecvStorage.bounded_newByLocal n)
  reads := ⟨fun _ => ⟨nofun, rfl⟩, nofun, nofun⟩

/-- What holds of a connection after every orderly run. -/
structure Duplex.Safe (e n : SequenceNumber) (st : Duplex) : Prop where
  forth : ∃ l, Carries (.byLocal e) st.connector.toStation st.acceptor.toStation l
  back : ∃ l, Carries (.byPeer n 0) st.acceptor.toStation st.connector.toStation l

namespace Duplex.Safe

variable {e n : SequenceNumber} {st st' : Duplex}

theorem new (a b : SocketAddr) (e n : SequenceNumber) : (Duplex.new a b e n).Safe e n where
  forth := ⟨_, carries_byLocal b a e n⟩
  back := ⟨_, carries_byPeer b a e n 0⟩

theorem step (h : st.Safe e n) {ev : DuplexEvent} (ho : Orderly st ev)
    (hs : duplexStep st ev = .ok st') : st'.Safe e n := by
  obtain ⟨⟨l, hforth⟩, ⟨l', hback⟩⟩ := h
  cases ev with
  | connector ev =>
    rw [duplexStep] at hs
    split_ifs at hs with hopen
    · obtain ⟨x, hx, rfl⟩ := exists_of_map_eq_ok hs
      have hout := Party.step_outcome ho hx
      exact ⟨hforth.sender_outcome hout,
        hback.receiver_outcome (fun l hu => hu.unopened hopen) hout⟩
    · obtain rfl := Except.ok.inj hs
      exact ⟨⟨l, hforth⟩, ⟨l', hback⟩⟩
  | acceptor ev =>
    obtain ⟨x, hx, rfl⟩ := exists_of_map_eq_ok hs
    have hout := Party.step_outcome ho hx
    exact ⟨hforth.receiver_outcome (fun l hu => nomatch hu.first_eq) hout,
      hback.sender_outcome hout⟩

end Duplex.Safe

/-- **A connection delivers what is written.** After every orderly run of a new connection, and in
both directions, the bytes that have been read are a prefix of those that have been written; and if
the reader has seen the end of the stream, they are all that had been written when `Finish` was
pushed, but for what the buffer then still held. -/
theorem duplex_delivers (connectorAddr acceptorAddr : SocketAddr)
    (establishSeqNum acceptSeqNum : SequenceNumber) {es : List DuplexEvent} {st : Duplex}
    (ho : Along duplexStep Orderly
      (.new connectorAddr acceptorAddr establishSeqNum acceptSeqNum) es)
    (hr : run duplexStep (.new connectorAddr acceptorAddr establishSeqNum acceptSeqNum) es =
      .ok st) :
    Delivered st.connector.toStation st.acceptor.toStation ∧
      Delivered st.acceptor.toStation st.connector.toStation := by
  obtain ⟨⟨_, hforth⟩, ⟨_, hback⟩⟩ := run_invariant (Duplex.Safe establishSeqNum acceptSeqNum)
    (fun st ev st' h ho hs => h.step ho hs) (.new connectorAddr acceptorAddr _ _) ho hr
  exact ⟨hforth.delivered, hback.delivered⟩

/-- The worker of the connector, or of the acceptor, takes that many steps at the time `t`, and what
it sends is sent. -/
def connectorWorks (t : Instant) (steps : ℕ) : List DuplexEvent :=
  List.replicate steps (.connector (.work t t (.ok ())))

def acceptorWorks (t : Instant) (steps : ℕ) : List DuplexEvent :=
  List.replicate steps (.acceptor (.work t t (.ok ())))

/-- The `Accept` is sent. -/
def opens : List DuplexEvent := acceptorWorks 0 5

/-- Both ends write. `Finish` of the connector arrives before its data, which arrives twice, and the
acceptor resets the connection in the end. -/
def bothWays : List DuplexEvent :=
  opens ++ [.connector (.call (.write [1, 2])), .connector (.lock 0), .connector (.push 0),
    .connector (.call .finishWrite), .connector (.lock 1), .connector (.push 1),
    .connector (.push 1), .connector (.finishPush 1)] ++ connectorWorks 0 6 ++
    [.acceptor (.read 5), .acceptor .readHead, .acceptor .readPop, .acceptor (.deliver 2),
      .acceptor (.deliver 1), .acceptor (.deliver 1), .acceptor (.deliver 0),
      .acceptor .readHead, .acceptor .readPop, .acceptor .readHead, .acceptor (.read 5),
      .acceptor .readHead, .acceptor .readPop, .acceptor .readHead,
      .acceptor (.call (.write [9])), .acceptor (.lock 0), .acceptor (.push 0),
      .acceptor (.call .flush), .acceptor (.lock 1), .acceptor (.push 1), .acceptor (.push 1),
      .acceptor (.work 0 0 (.ok ())), .connector (.deliver 1), .connector (.read 1),
      .connector .readHead, .connector .readPop, .connector .readHead,
      .acceptor (.error connResetLocal true)]

theorem duplex_delivers_bothWays :
    ∃ st, run duplexStep (.new (.v4 0 1) (.v4 0 2) 255 7) bothWays = .ok st ∧
      st.acceptor.bytesRead = [1, 2] ∧ st.acceptor.stream.recvFinished ∧
      st.connector.bytesRead = [9] ∧
      Delivered st.connector.toStation st.acceptor.toStation ∧
      Delivered st.acceptor.toStation st.connector.toStation :=
  have ho : Along duplexStep Orderly (.new (.v4 0 1) (.v4 0 2) 255 7) bothWays := by decide
  ⟨_, rfl, rfl, rfl, rfl, duplex_delivers (.v4 0 1) (.v4 0 2) 255 7 ho rfl⟩

/-! ## Disorder -/

/-- The connector flushes two bytes and resets the connection before it pushes `Finish`, while its
worker is about to send. -/
def finishAfterReset : List DuplexEvent :=
  opens ++ connectorWorks 0 4 ++ [.connector (.call (.write [1, 2])), .connector (.lock 0),
    .connector (.push 0), .connector (.call .finishWrite), .connector (.lock 1),
    .connector (.push 1), .connector (.push 1), .connector (.error connResetLocal true),
    .connector (.finishPush 1), .connector (.work 0 0 (.ok ())), .acceptor (.deliver 2),
    .acceptor (.read 5), .acceptor .readHead, .acceptor .readPop, .acceptor .readHead]

/-- When `Finish` may be pushed onto a stream that has errored, the other end can see the end of the
stream without what was written before it. -/
theorem truncated_finishAfterReset :
    ∃ st, run duplexStep (.new (.v4 0 1) (.v4 0 2) 255 7) finishAfterReset = .ok st ∧
      st.acceptor.stream.recvFinished ∧ st.acceptor.bytesRead = [] ∧
      st.connector.closed = some ([1, 2], []) := ⟨_, rfl, rfl, rfl, rfl⟩

/-- The connector has flushed a byte and resets the connection while another `flush` is about to
push the next one. -/
def pushAfterReset : List DuplexEvent :=
  opens ++ connectorWorks 0 4 ++ [.connector (.call (.write [1])), .connector (.lock 0),
    .connector (.push 0), .connector (.call .flush), .connector (.lock 1), .connector (.push 1),
    .connector (.push 1), .connector (.call (.write [2])), .connector (.lock 2),
    .connector (.push 2), .connector (.call .flush), .connector (.lock 3),
    .connector (.error connResetLocal true), .connector (.push 3),
    .connector (.work 0 0 (.ok ())), .acceptor (.deliver 2), .acceptor (.read 5),
    .acceptor .readHead, .acceptor .readPop, .acceptor .readHead]

/-- When data may be pushed onto such a stream, the other end can read it without what was written
before it. -/
theorem gap_pushAfterReset :
    ∃ st, run duplexStep (.new (.v4 0 1) (.v4 0 2) 255 7) pushAfterReset = .ok st ∧
      st.acceptor.bytesRead = [2] ∧ st.connector.written = [1, 2] := ⟨_, rfl, rfl, rfl⟩

end Mdswp
