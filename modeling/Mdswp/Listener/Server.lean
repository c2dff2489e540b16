import Mdswp.Foundations.Registry
import Mdswp.Listener.Inner
import Mdswp.Stream.Absorbing

/-!
# A listener at work

A `Server` is a `ListenerInner` together with its streams over their whole life. Its thread handles
datagrams, users accept streams and call them, and each stream has its worker, which takes one step
of its round at a time. A stream is dropped in two steps: its last strong reference disappears, so
that it cannot be upgraded any more, and then its `Drop` runs.

Whatever is done to a stream, the listener is asked to forget it exactly when it ends by an error
(`StreamInner.Forgets`). So the table holds healthy streams only, each under its address
(`Server.Consistent`).
-/

namespace Mdswp

open StreamInner Registry

structure Server where
  listener : ListenerInner
  workers : StreamId → WorkerPc
  /-- The streams whose `Drop` has run. -/
  dropped : List StreamId
  /-- The streams that have been accepted, in order. -/
  accepted : List StreamId

inductive ServerEvent
  | recv (data : List UInt8) (addr : SocketAddr) (acceptSeqNum : SequenceNumber)
  | accept
  /-- A user of the stream calls it. -/
  | call (stream : StreamId) (op : Operation)
  /-- The worker takes a step, and the socket answers `sent` if it is handed a datagram. -/
  | work (stream : StreamId) (t t' : Instant) (sent : IoResult Unit)
  /-- The last strong reference to the stream disappears. -/
  | release (stream : StreamId)
  /-- `Drop` of the stream runs. -/
  | drop (stream : StreamId)

namespace ListenerInner

/-- `Weak::upgrade` of the stream fails from now on. -/
def release (l : ListenerInner) (stream : StreamId) : ListenerInner :=
  { l with streams := l.streams.modify stream fun c => { c with live := false } }

/-- The address of a stream that has not errored. -/
def openAddr (l : ListenerInner) (stream : StreamId) : Option SocketAddr :=
  (l.streams[stream]?).bind fun c => c.inner.getPeerAddr.toOption

/-- The stream has a strong reference. -/
def IsLive (l : ListenerInner) (stream : StreamId) : Prop :=
  ∃ s, l.streams[stream]? = some ⟨s, true⟩

end ListenerInner

namespace Server

/-- Nothing has happened yet. -/
def new : Server := ⟨.empty, fun _ => .check, [], []⟩

def call (st : Server) (stream : StreamId) (op : Operation) : Exec Server :=
  match st.listener.streams[stream]? with
  | some ⟨conn, true⟩ =>
    (op.perform conn).map fun x => { st with listener := (st.listener.react stream x).1 }
  | _ => .ok st

/-- The stream changes in a step of its worker, which goes on at `pc`. -/
def worked (st : Server) (stream : StreamId) :
    StreamInner × List ListenerCall × WorkerPc → Server
  | (conn, calls, pc) =>
    { st with
      listener := (st.listener.react stream (conn, calls)).1
      workers := Function.update st.workers stream pc }

def work (st : Server) (stream : StreamId) (t t' : Instant) (sent : IoResult Unit) :
    Exec Server :=
  match st.listener.streams[stream]? with
  | some ⟨conn, true⟩ =>
    match st.workers stream with
    | .check => .ok (st.worked stream (conn, [], threadCheck (some conn)))
    | .ack => .ok (st.worked stream (conn.threadAck t t' sent))
    | .send => (conn.threadSend t t' sent).map (st.worked stream)
    | .exited => .ok st
  | _ => .ok st

/-- The queue has a strong reference to its streams, and a worker has one during its round. -/
def IsHeld (st : Server) (stream : StreamId) : Prop :=
  stream ∈ st.listener.toAccept ∨ st.workers stream = .ack ∨ st.workers stream = .send

instance (st : Server) (stream : StreamId) : Decidable (st.IsHeld stream) :=
  inferInstanceAs (Decidable (_ ∨ _))

/-- What an `accept_nonblocking` has returned, if it is a stream. -/
def returned : IoResult (Option (StreamId × SocketAddr)) → List StreamId
  | .ok (some (stream, _)) => [stream]
  | _ => []

end Server

/-- The event of a part that has nothing to do does nothing. A user has accepted the stream it
calls. -/
def serverStep (st : Server) : ServerEvent → Exec Server
  | .recv data addr acceptSeqNum =>
    (st.listener.recv data addr acceptSeqNum).map fun x => { st with listener := x.1 }
  | .accept =>
    match st.listener.acceptNonblocking with
    | (result, l) =>
      .ok { st with listener := l, accepted := st.accepted ++ Server.returned result }
  | .call stream op =>
    if op.isCall ∧ stream ∈ st.accepted then st.call stream op else .ok st
  | .work stream t t' sent => st.work stream t t' sent
  | .release stream =>
    match st.listener.streams[stream]? with
    | some ⟨_, true⟩ =>
      if st.IsHeld stream then .ok st
      else .ok { st with listener := st.listener.release stream }
    | _ => .ok st
  | .drop stream =>
    match st.listener.streams[stream]? with
    | some ⟨conn, false⟩ =>
      if stream ∈ st.dropped then .ok st
      else .ok { st with
        listener := (st.listener.react stream conn.drop).1
        dropped := st.dropped ++ [stream] }
    | _ => .ok st

/-! ## What a stream asks of the table -/

/-- The address whose entry a call of a stream removes. -/
def ListenerCall.removal : ListenerCall → Option SocketAddr
  | .removeConnection peerAddr => some peerAddr
  | .sendTo _ _ => none

theorem ListenerInner.perform_fst (l : ListenerInner) (calls : List ListenerCall) :
    (l.perform calls).1 =
      (calls.filterMap ListenerCall.removal).foldl ListenerInner.removeConnection l := by
  rw [perform]
  dsimp only
  induction calls generalizing l with
  | nil => rfl
  | cons call calls ih =>
    cases call with
    | removeConnection peerAddr => exact ih (l.removeConnection peerAddr)
    | sendTo addr segment => exact ih l

namespace StreamInner

variable {s s' : StreamInner} {calls : List ListenerCall}

/-- The stream keeps its address, and the listener is asked to forget it exactly if it ends by an
error. -/
structure Forgets (s s' : StreamInner) (calls : List ListenerCall) : Prop where
  peerAddr_eq : s'.peerAddr = s.peerAddr
  isErr_mono : s.isErr → s'.isErr
  removals_eq : calls.filterMap ListenerCall.removal =
    if s.isErr = false ∧ s'.isErr then [s.peerAddr] else []

theorem GoesOn.removals_eq (h : s.GoesOn s' calls) :
    calls.filterMap ListenerCall.removal = [] := by
  refine List.filterMap_eq_nil_iff.2 fun call hc => ?_
  obtain ⟨segment, -, rfl⟩ := h.sends call hc
  rfl

theorem forgets_error (s : StreamInner) (err : IoError) (sendReset : Bool) :
    s.Forgets (s.error err sendReset).1 (s.error err sendReset).2 := by
  have hmono : s.isErr → (s.error err sendReset).1.isErr := fun _ => isErr_error s err sendReset
  cases he : s.isErr with
  | true =>
    rw [error_of_isErr he] at hmono ⊢
    exact ⟨rfl, hmono, by simp [he]⟩
  | false =>
    refine ⟨by rw [error_of_not_isErr he], hmono, ?_⟩
    rw [if_pos ⟨he, isErr_error s err sendReset⟩, error, if_neg (by simp [he])]
    cases sendReset <;> rfl

theorem Performs.forgets (h : s.Performs s' calls) : s.Forgets s' calls := by
  cases h with
  | goesOn h => exact ⟨h.peerAddr_eq, fun he => h.isErr_eq.trans he, by
      rw [h.removals_eq, h.isErr_eq, if_neg (by simp)]⟩
  | @ends s₁ before h err sendReset =>
    have herr := s₁.forgets_error err sendReset
    refine ⟨herr.peerAddr_eq.trans h.peerAddr_eq, fun he => herr.isErr_mono ?_, ?_⟩
    · rw [h.isErr_eq]
      exact he
    · rw [List.filterMap_append, h.removals_eq, herr.removals_eq, h.isErr_eq, h.peerAddr_eq,
        List.nil_append]

/-- A stream that has not finished both ways ends when it is dropped. -/
theorem drop_of_unfinished (he : s.isErr = false)
    (hfin : ¬(s.sendFinished ∧ s.recvFinished)) : s.drop.1.isErr := by
  rw [drop, if_neg (by simp [he]), if_pos (by simpa [imp_iff_not_or] using hfin), reset,
    streamState_of_not_isErr he]
  exact isErr_error s _ _

/-- The others are left as they are. -/
theorem drop_of_finished (h : s.isErr ∨ (s.sendFinished ∧ s.recvFinished)) : s.drop = (s, []) := by
  rw [drop]
  split_ifs with he hfin
  · rfl
  · obtain ⟨h₁, h₂⟩ := h.resolve_left he
    simp [h₁, h₂] at hfin
  · rfl

end StreamInner

namespace ListenerInner

variable {l l' : ListenerInner} {stream j : StreamId} {s s' : StreamInner} {live : Bool}
  {calls : List ListenerCall}

theorem openAddr_of_cell (h : l.streams[stream]? = some ⟨s, live⟩) :
    l.openAddr stream = if s.isErr then none else some s.peerAddr := by
  rw [openAddr, h, Option.bind_some, getPeerAddr]
  cases he : s.isErr with
  | true =>
    obtain ⟨err, hstate⟩ := streamState_of_isErr he
    rw [hstate]
    rfl
  | false =>
    rw [streamState_of_not_isErr he]
    rfl

theorem openAddr_eq_some {addr : SocketAddr} : l.openAddr stream = some addr ↔
    ∃ s live, l.streams[stream]? = some ⟨s, live⟩ ∧ s.isErr = false ∧ s.peerAddr = addr := by
  constructor
  · intro h
    cases hcell : l.streams[stream]? with
    | none => simp [openAddr, hcell] at h
    | some c =>
      obtain ⟨s, live⟩ := c
      rw [openAddr_of_cell hcell] at h
      cases he : s.isErr with
      | true => simp [he] at h
      | false => exact ⟨s, live, rfl, he, by simpa [he] using h⟩
  · rintro ⟨s, live, hcell, he, rfl⟩
    rw [openAddr_of_cell hcell, he]
    rfl

/-- What is done to a stream of the listener changes the table as it should. -/
theorem react_forgets (l : ListenerInner) (stream : StreamId) (h : s.Forgets s' calls) :
    (l.react stream (s', calls)).1 = { l with
      streams := l.streams.modify stream fun c => { c with inner := s' }
      connections := if s.isErr = false ∧ s'.isErr then l.connections.erase s.peerAddr
        else l.connections } := by
  rw [react, perform_fst, h.removals_eq]
  split_ifs with he
  · rfl
  · rfl

/-- What `recv` does: it hands the datagram to the stream of the address, or it registers a new
stream, or it leaves everything as it is. -/
inductive RecvResult (l : ListenerInner) (addr : SocketAddr) : ListenerInner → Prop
  | changes (stream : StreamId) (s s' : StreamInner) (calls : List ListenerCall)
    (hu : l.upgrade addr = some (stream, s)) (hf : s.Forgets s' calls) :
    RecvResult l addr (l.react stream (s', calls)).1
  | establishes (establishSeqNum acceptSeqNum : SequenceNumber) (hu : l.upgrade addr = none) :
    RecvResult l addr (l.establish addr establishSeqNum acceptSeqNum)
  | refuses (hu : l.upgrade addr = none) : RecvResult l addr l

theorem recv_result {data : List UInt8} {addr : SocketAddr} {acceptSeqNum : SequenceNumber}
    {out : List Datagram} (h : l.recv data addr acceptSeqNum = .ok (l', out)) :
    l.RecvResult addr l' := by
  rw [recv] at h
  cases hu : l.upgrade addr with
  | some x =>
    obtain ⟨stream, s⟩ := x
    rw [hu] at h
    dsimp only at h
    split at h
    · rename_i err _
      have hres := RecvResult.changes stream s _ _ hu (s.forgets_error err true)
      rwa [Except.ok.inj h] at hres
    · rename_i segment _
      obtain ⟨⟨s', calls⟩, hr, heq⟩ := exists_of_map_eq_ok h
      have hp : (Operation.recvSegment segment).perform s = .ok (s', calls) := hr
      have hres := RecvResult.changes stream s s' calls hu (perform_performs hp).forgets
      rwa [heq] at hres
  | none =>
    rw [hu] at h
    dsimp only at h
    split at h
    · cases h
      exact .establishes _ _ hu
    · cases h
      exact .refuses hu

theorem lt_of_openAddr (h : (l.openAddr stream).isSome) : stream < l.streams.length := by
  obtain ⟨addr, haddr⟩ := Option.isSome_iff_exists.1 h
  obtain ⟨s, live, hcell, -⟩ := openAddr_eq_some.1 haddr
  exact (List.getElem?_eq_some_iff.1 hcell).1

theorem react_cell_self (hcell : l.streams[stream]? = some ⟨s, live⟩) (hf : s.Forgets s' calls) :
    (l.react stream (s', calls)).1.streams[stream]? = some ⟨s', live⟩ := by
  rw [react_forgets l stream hf]
  simp [hcell]

theorem react_cell_of_ne (hf : s.Forgets s' calls) (hj : j ≠ stream) :
    (l.react stream (s', calls)).1.streams[j]? = l.streams[j]? := by
  rw [react_forgets l stream hf]
  simp [hj.symm]

theorem react_openAddr_self (hcell : l.streams[stream]? = some ⟨s, live⟩)
    (hf : s.Forgets s' calls) :
    (l.react stream (s', calls)).1.openAddr stream =
      if s'.isErr then none else some s.peerAddr := by
  rw [openAddr_of_cell (react_cell_self hcell hf), hf.peerAddr_eq]

theorem react_openAddr_of_ne (hf : s.Forgets s' calls) (hj : j ≠ stream) :
    (l.react stream (s', calls)).1.openAddr j = l.openAddr j := by
  rw [openAddr, react_cell_of_ne hf hj, openAddr]

theorem react_isLive (hcell : l.streams[stream]? = some ⟨s, live⟩) (hf : s.Forgets s' calls)
    (h : (l.react stream (s', calls)).1.IsLive j) : l.IsLive j := by
  obtain ⟨c, hc⟩ := h
  by_cases hj : j = stream
  · subst hj
    rw [react_cell_self hcell hf] at hc
    cases hc
    exact ⟨s, hcell⟩
  · rw [react_cell_of_ne hf hj] at hc
    exact ⟨c, hc⟩

/-- No stream gets an address. -/
theorem openAddr_of_react {addr : SocketAddr} (hcell : l.streams[stream]? = some ⟨s, live⟩)
    (hf : s.Forgets s' calls) (h : (l.react stream (s', calls)).1.openAddr j = some addr) :
    l.openAddr j = some addr := by
  by_cases hj : j = stream
  · subst hj
    rw [react_openAddr_self hcell hf] at h
    rw [openAddr_of_cell hcell]
    have hmono := hf.isErr_mono
    cases he : s.isErr <;> cases he' : s'.isErr <;> simp_all
  · rwa [react_openAddr_of_ne hf hj] at h

/-- A stream that ends loses its address, and its entry goes. -/
theorem filed_react (h : Filed l.openAddr l.connections)
    (hcell : l.streams[stream]? = some ⟨s, live⟩) (hf : s.Forgets s' calls) :
    Filed (l.react stream (s', calls)).1.openAddr (l.react stream (s', calls)).1.connections := by
  have hconn : (l.react stream (s', calls)).1.connections =
      if s.isErr = false ∧ s'.isErr then l.connections.erase s.peerAddr else l.connections := by
    rw [react_forgets l stream hf]
  rw [hconn]
  have hself := openAddr_of_cell hcell
  split_ifs with he
  · refine h.erase ?_ fun j hj => react_openAddr_of_ne hf hj
    rw [hself, he.1]
    rfl
  · refine h.congr fun j hj => ?_
    by_cases hji : j = stream
    · subst hji
      rw [react_openAddr_self hcell hf, hself]
      rw [hself] at hj
      cases hs : s.isErr with
      | true => simp [hs] at hj
      | false =>
        have hs' : s'.isErr = false := by simpa [hs] using he
        simp [hs']
    · exact react_openAddr_of_ne hf hji

section Establish
variable (l) (addr : SocketAddr) (establishSeqNum acceptSeqNum : SequenceNumber)

theorem establish_cell_self : (l.establish addr establishSeqNum acceptSeqNum).streams[
    l.streams.length]? = some ⟨.newByPeer addr establishSeqNum acceptSeqNum, true⟩ := by
  simp [establish]

theorem establish_cell_of_ne (hj : j ≠ l.streams.length) :
    (l.establish addr establishSeqNum acceptSeqNum).streams[j]? = l.streams[j]? := by
  rcases Nat.lt_or_gt_of_ne hj with hlt | hgt
  · exact List.getElem?_append_left hlt
  · rw [List.getElem?_eq_none hgt.le, List.getElem?_eq_none]
    simp [establish]
    omega

theorem establish_openAddr_self :
    (l.establish addr establishSeqNum acceptSeqNum).openAddr l.streams.length = some addr := by
  rw [openAddr_of_cell (l.establish_cell_self addr establishSeqNum acceptSeqNum)]
  rfl

theorem establish_openAddr_of_ne (hj : j ≠ l.streams.length) :
    (l.establish addr establishSeqNum acceptSeqNum).openAddr j = l.openAddr j := by
  rw [openAddr, l.establish_cell_of_ne addr establishSeqNum acceptSeqNum hj, openAddr]

theorem filed_establish (h : Filed l.openAddr l.connections) :
    Filed (l.establish addr establishSeqNum acceptSeqNum).openAddr
      (l.establish addr establishSeqNum acceptSeqNum).connections := by
  refine h.insert (l.establish_openAddr_self addr establishSeqNum acceptSeqNum) fun j hj => ?_
  exact l.establish_openAddr_of_ne addr establishSeqNum acceptSeqNum (lt_of_openAddr hj).ne
end Establish

theorem release_cell (l : ListenerInner) (stream j : StreamId) :
    (l.release stream).streams[j]? =
      if j = stream then (l.streams[j]?).map fun c => { c with live := false }
      else l.streams[j]? := by
  by_cases h : j = stream
  · subst h
    simp [release]
  · simp [release, h, Ne.symm h]

@[simp] theorem release_openAddr (l : ListenerInner) (stream : StreamId) :
    (l.release stream).openAddr = l.openAddr := by
  funext j
  rw [openAddr, openAddr, release_cell]
  split_ifs
  · cases l.streams[j]? <;> rfl
  · rfl

theorem release_isLive (h : (l.release stream).IsLive j) : l.IsLive j := by
  obtain ⟨s, hs⟩ := h
  rw [release_cell] at hs
  split_ifs at hs
  · cases hc : l.streams[j]? <;> simp [hc] at hs
  · exact ⟨s, hs⟩

/-- `accept_nonblocking` changes the queue only. -/
theorem acceptNonblocking_snd (l : ListenerInner) :
    l.acceptNonblocking.2 = { l with toAccept := l.acceptNonblocking.2.toAccept } := by
  obtain ⟨connections, toAccept, error, streams⟩ := l
  unfold acceptNonblocking
  cases error with
  | error err => rfl
  | ok u =>
    cases toAccept with
    | nil => rfl
    | cons stream rest =>
      dsimp only
      cases streams[stream]? with
      | none => rfl
      | some c =>
        dsimp only
        cases c.inner.getPeerAddr with
        | error err => rfl
        | ok addr => rfl

end ListenerInner

/-! ## What a step does -/

namespace Server

variable {st st' : Server} {e : ServerEvent}

/-- What a step may do. -/
inductive StepResult (st : Server) : ServerEvent → Server → Prop
  | stays (e : ServerEvent) : StepResult st e st
  | changes (e : ServerEvent) (stream : StreamId) (s s' : StreamInner) (calls : List ListenerCall)
    (workers : StreamId → WorkerPc) (hcell : st.listener.streams[stream]? = some ⟨s, true⟩)
    (hf : s.Forgets s' calls) :
    StepResult st e
      { st with listener := (st.listener.react stream (s', calls)).1, workers := workers }
  | establishes {data : List UInt8} {addr : SocketAddr} {n : SequenceNumber}
    (establishSeqNum acceptSeqNum : SequenceNumber) (hu : st.listener.upgrade addr = none) :
    StepResult st (.recv data addr n)
      { st with listener := st.listener.establish addr establishSeqNum acceptSeqNum }
  | accepts (queue : List StreamId) (accepted : List StreamId)
    (hq : queue = st.listener.acceptNonblocking.2.toAccept)
    (ha : accepted = st.accepted ++ returned st.listener.acceptNonblocking.1) :
    StepResult st .accept
      { st with listener := { st.listener with toAccept := queue }, accepted := accepted }
  | releases (stream : StreamId) (hq : stream ∉ st.listener.toAccept) :
    StepResult st (.release stream) { st with listener := st.listener.release stream }
  | drops {stream : StreamId} (s : StreamInner)
    (hcell : st.listener.streams[stream]? = some ⟨s, false⟩) (hd : stream ∉ st.dropped) :
    StepResult st (.drop stream)
      { st with
        listener := (st.listener.react stream s.drop).1
        dropped := st.dropped ++ [stream] }

theorem call_result {stream : StreamId} {op : Operation} (h : st.call stream op = .ok st')
    (e : ServerEvent) : st.StepResult e st' := by
  unfold call at h
  split at h
  · rename_i s hcell
    obtain ⟨⟨s', calls⟩, hp, rfl⟩ := exists_of_map_eq_ok h
    exact .changes e stream s s' calls _ hcell (perform_performs hp).forgets
  · cases h
    exact .stays e

theorem work_result {stream : StreamId} {t t' : Instant} {sent : IoResult Unit}
    (h : st.work stream t t' sent = .ok st') (e : ServerEvent) : st.StepResult e st' := by
  unfold work at h
  split at h
  · rename_i s hcell
    cases hpc : st.workers stream with
    | check =>
      rw [hpc] at h
      cases h
      have hquiet : s.Performs s [] := .goesOn (.quiet rfl rfl)
      exact .changes e stream s s [] _ hcell hquiet.forgets
    | ack =>
      rw [hpc] at h
      cases hack : s.threadAck t t' sent with
      | mk s' x =>
        obtain ⟨calls, pc⟩ := x
        rw [hack] at h
        cases h
        exact .changes e stream s s' calls _ hcell (threadAck_performs hack).1.forgets
    | send =>
      rw [hpc] at h
      obtain ⟨⟨s', calls, pc⟩, hs, rfl⟩ := exists_of_map_eq_ok h
      exact .changes e stream s s' calls _ hcell (threadSend_performs hs).1.forgets
    | exited =>
      rw [hpc] at h
      cases h
      exact .stays e
  · cases h
    exact .stays e

theorem upgrade_eq_some {l : ListenerInner} {addr : SocketAddr} {stream : StreamId}
    {s : StreamInner} : l.upgrade addr = some (stream, s) ↔
      l.connections.lookup addr = some stream ∧ l.streams[stream]? = some ⟨s, true⟩ := by
  rw [ListenerInner.upgrade]
  cases hl : l.connections.lookup addr with
  | none => simp
  | some i =>
    dsimp only
    split
    · rename_i conn hcell
      constructor
      · intro h
        cases h
        exact ⟨rfl, hcell⟩
      · rintro ⟨hi, hs⟩
        cases hi
        rw [hcell] at hs
        cases hs
        rfl
    · rename_i hno
      refine iff_of_false nofun ?_
      rintro ⟨hi, hs⟩
      cases hi
      exact hno _ hs

theorem step_result (h : serverStep st e = .ok st') : st.StepResult e st' := by
  cases e with
  | recv data addr acceptSeqNum =>
    obtain ⟨⟨l, out⟩, hr, rfl⟩ := exists_of_map_eq_ok h
    cases ListenerInner.recv_result hr with
    | changes stream s s' calls hu hf =>
      exact .changes _ stream s s' calls _ (upgrade_eq_some.1 hu).2 hf
    | establishes establishSeqNum acceptSeqNum hu => exact .establishes _ _ hu
    | refuses hu => exact .stays _
  | accept =>
    cases h
    have hres : st.StepResult .accept _ := .accepts _ _ rfl rfl
    rwa [← ListenerInner.acceptNonblocking_snd] at hres
  | call stream op =>
    rw [serverStep] at h
    split_ifs at h
    · exact call_result h _
    · cases h
      exact .stays _
  | work stream t t' sent => exact work_result h _
  | release stream =>
    rw [serverStep] at h
    split at h
    · split_ifs at h with hheld
      · cases h
        exact .stays _
      · cases h
        exact .releases stream fun hq => hheld (.inl hq)
    · cases h
      exact .stays _
  | drop stream =>
    rw [serverStep] at h
    split at h
    · rename_i s hcell
      split_ifs at h with hd
      · cases h
        exact .stays _
      · cases h
        exact .drops s hcell hd
    · cases h
      exact .stays _

/-- The table holds streams that have not errored, each under its address, and `Drop` has run only
for released streams, once for each. -/
structure Consistent (st : Server) : Prop where
  filed : Filed st.listener.openAddr st.listener.connections
  released : ∀ stream ∈ st.dropped, ∃ s, st.listener.streams[stream]? = some ⟨s, false⟩
  nodup : st.dropped.Nodup

theorem consistent_new : new.Consistent where
  filed := filed_empty _
  released := by simp [new]
  nodup := List.nodup_nil

/-- A released stream stays released. -/
theorem StepResult.released (h : st.StepResult e st') {stream : StreamId}
    (hr : ∃ s, st.listener.streams[stream]? = some ⟨s, false⟩) :
    ∃ s, st'.listener.streams[stream]? = some ⟨s, false⟩ := by
  obtain ⟨s₀, hs₀⟩ := hr
  cases h with
  | stays => exact ⟨s₀, hs₀⟩
  | changes _ i s s' calls workers hcell hf =>
    refine ⟨s₀, ?_⟩
    rwa [ListenerInner.react_cell_of_ne hf]
    rintro rfl
    rw [hcell] at hs₀
    cases hs₀
  | establishes n m hu =>
    refine ⟨s₀, ?_⟩
    rwa [ListenerInner.establish_cell_of_ne]
    exact (List.getElem?_eq_some_iff.1 hs₀).1.ne
  | accepts queue accepted hq ha => exact ⟨s₀, hs₀⟩
  | releases i hq =>
    refine ⟨s₀, ?_⟩
    dsimp only
    rw [ListenerInner.release_cell, hs₀]
    split_ifs <;> rfl
  | @drops i s hcell hd =>
    by_cases hi : stream = i
    · subst hi
      exact ⟨_, ListenerInner.react_cell_self hcell s.drop_performs.forgets⟩
    · refine ⟨s₀, ?_⟩
      rwa [ListenerInner.react_cell_of_ne s.drop_performs.forgets hi]

theorem Consistent.step (h : st.Consistent) (hs : serverStep st e = .ok st') : st'.Consistent := by
  have hres := step_result hs
  have hreleased : ∀ stream ∈ st.dropped, ∃ s, st'.listener.streams[stream]? = some ⟨s, false⟩ :=
    fun stream hm => hres.released (h.released stream hm)
  cases hres with
  | stays => exact h
  | changes _ i s s' calls workers hcell hf =>
    exact ⟨ListenerInner.filed_react h.filed hcell hf, hreleased, h.nodup⟩
  | establishes n m hu => exact ⟨ListenerInner.filed_establish _ _ _ _ h.filed, hreleased, h.nodup⟩
  | accepts queue accepted hq ha => exact ⟨h.filed, hreleased, h.nodup⟩
  | releases i hq =>
    refine ⟨?_, hreleased, h.nodup⟩
    rw [ListenerInner.release_openAddr]
    exact h.filed
  | @drops i s hcell hd =>
    refine ⟨ListenerInner.filed_react h.filed hcell s.drop_performs.forgets, ?_, ?_⟩
    · intro stream hm
      rcases List.mem_append.1 hm with hm | hm
      · exact hreleased stream hm
      · rw [List.mem_singleton.1 hm]
        exact ⟨_, ListenerInner.react_cell_self hcell s.drop_performs.forgets⟩
    · simpa [List.nodup_append] using ⟨h.nodup, fun a ha hi => hd (hi ▸ ha)⟩

end Server

end Mdswp
