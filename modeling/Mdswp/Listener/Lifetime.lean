import Mdswp.Listener.Server

/-!
# How long a listener lives

A `Lifetime` is a `Server` together with the references to it: the handles of its users, those to
its streams, and its thread, which has a strong reference from the start of a turn, that is, all the
time it waits for a datagram. A stream has a strong reference to its listener until its `Drop` has
run, and the queue of the listener has strong references to its streams. The socket may fail.

A stream in the queue and its listener keep each other alive. So when nobody can accept any more,
because there are no handles or because the socket has failed, a stream in the queue is there for
good (`Lifetime.Stranded.run`). After a failure the thread handles nothing any more, and every
`accept` returns the error (`failure_stays`).
-/

namespace Mdswp

open StreamInner

/-- Where `__listen_thread` is: between two turns, or waiting in `recv_from`, or it has returned. -/
inductive ListenPc
  | idle
  | receiving
  | exited
  deriving DecidableEq

/-- The errors of `recv_from`, as `__listen_thread` tells them apart. -/
inductive RecvFailure
  | interrupted
  | wouldBlock
  | other (err : IoError)

structure Lifetime where
  server : Server
  /-- The handles of the listener. -/
  handles : ℕ
  thread : ListenPc
  /-- The handles of each stream. -/
  users : StreamId → ℕ

inductive LifetimeEvent
  | cloneListener
  | dropListener
  /-- The thread begins a turn. -/
  | upgrade
  | receive (data : List UInt8) (addr : SocketAddr) (acceptSeqNum : SequenceNumber)
  | fail (failure : RecvFailure)
  | accept
  | cloneStream (stream : StreamId)
  | dropStream (stream : StreamId)
  | call (stream : StreamId) (op : Operation)
  | work (stream : StreamId) (t t' : Instant) (sent : IoResult Unit)
  /-- The last strong reference to the stream disappears. -/
  | release (stream : StreamId)
  /-- `Drop` of the stream runs, and its reference to the listener goes. -/
  | drop (stream : StreamId)

namespace Lifetime

/-- A listener that has been bound. -/
def bound : Lifetime := ⟨.new, 1, .idle, fun _ => 0⟩

/-- The listener of a connection that `__try_single_connect_to` has returned. -/
def connected (peerAddr : SocketAddr) (establishSeqNum acceptSeqNum : SequenceNumber) :
    Lifetime where
  server :=
    { listener := { ListenerInner.empty.addConnection peerAddr 0 with
        streams := [⟨.newByLocal peerAddr establishSeqNum acceptSeqNum, true⟩] }
      workers := fun _ => .check
      dropped := []
      accepted := [0] }
  handles := 0
  thread := .idle
  users := fun stream => if stream = 0 then 1 else 0

/-- There is a strong reference to the listener. -/
def Alive (st : Lifetime) : Prop :=
  0 < st.handles ∨ st.thread = .receiving ∨
    ∃ stream < st.server.listener.streams.length, stream ∉ st.server.dropped

instance (st : Lifetime) : Decidable st.Alive := inferInstanceAs (Decidable (_ ∨ _ ∨ _))

def serves (st : Lifetime) (e : ServerEvent) : Exec Lifetime :=
  (serverStep st.server e).map fun server => { st with server := server }

/-- An `accept_nonblocking` of a user, who gets a handle of the stream it returns. -/
def accept (st : Lifetime) : Exec Lifetime :=
  let accepted := Server.returned st.server.listener.acceptNonblocking.1
  (st.serves .accept).map fun st' =>
    { st' with users := fun stream => st.users stream + accepted.count stream }

/-- A turn of the thread ends with a datagram. -/
def receive (st : Lifetime) (data : List UInt8) (addr : SocketAddr)
    (acceptSeqNum : SequenceNumber) : Exec Lifetime :=
  (st.serves (.recv (data.take (maxSegmentLen + 1)) addr acceptSeqNum)).map fun st' =>
    { st' with thread := .idle }

/-- A turn of the thread ends with an error; a socket that would block makes it panic. -/
def fail (st : Lifetime) : RecvFailure → Lifetime
  | .interrupted => { st with thread := .idle }
  | .wouldBlock => { st with thread := .exited }
  | .other err =>
    { st with
      server := { st.server with listener := { st.server.listener with error := .error err } }
      thread := .idle }

end Lifetime

/-- The event of a part that has nothing to do does nothing. -/
def lifetimeStep (st : Lifetime) : LifetimeEvent → Exec Lifetime
  | .cloneListener =>
    if 0 < st.handles ∧ st.server.listener.isErr = false then
      .ok { st with handles := st.handles + 1 }
    else .ok st
  | .dropListener => .ok { st with handles := st.handles - 1 }
  | .upgrade =>
    match st.thread with
    | .idle =>
      if st.Alive ∧ st.server.listener.isErr = false then .ok { st with thread := .receiving }
      else .ok { st with thread := .exited }
    | _ => .ok st
  | .receive data addr acceptSeqNum =>
    match st.thread with
    | .receiving => st.receive data addr acceptSeqNum
    | _ => .ok st
  | .fail failure =>
    match st.thread with
    | .receiving => .ok (st.fail failure)
    | _ => .ok st
  | .accept => if 0 < st.handles then st.accept else .ok st
  | .cloneStream stream =>
    if 0 < st.users stream ∧ (st.server.listener.openAddr stream).isSome then
      .ok { st with users := Function.update st.users stream (st.users stream + 1) }
    else .ok st
  | .dropStream stream =>
    .ok { st with users := Function.update st.users stream (st.users stream - 1) }
  | .call stream op => if 0 < st.users stream then st.serves (.call stream op) else .ok st
  | .work stream t t' sent => st.serves (.work stream t t' sent)
  | .release stream => if st.users stream = 0 then st.serves (.release stream) else .ok st
  | .drop stream => st.serves (.drop stream)

/-! ## What the listener does -/

namespace ListenerInner

variable {l : ListenerInner} {stream : StreamId}

theorem acceptNonblocking_toAccept (l : ListenerInner) :
    l.acceptNonblocking.2.toAccept = if l.isErr then l.toAccept else l.toAccept.tail := by
  obtain ⟨connections, toAccept, error, streams⟩ := l
  unfold acceptNonblocking isErr
  cases error with
  | error err => rfl
  | ok u =>
    cases toAccept with
    | nil => rfl
    | cons stream rest =>
      dsimp only
      cases streams[stream]? with
      | none => rfl
      | some c =>
        dsimp only
        cases c.inner.getPeerAddr with
        | error err => rfl
        | ok addr => rfl

/-- What is accepted comes from the queue. -/
theorem mem_of_mem_returned (h : stream ∈ Server.returned l.acceptNonblocking.1) :
    stream ∈ l.toAccept := by
  obtain ⟨connections, toAccept, error, streams⟩ := l
  unfold acceptNonblocking at h
  cases error with
  | error err => exact absurd h List.not_mem_nil
  | ok u =>
    cases toAccept with
    | nil => exact absurd h List.not_mem_nil
    | cons front rest =>
      dsimp only at h
      cases hcell : streams[front]? with
      | none =>
        rw [hcell] at h
        exact absurd h List.not_mem_nil
      | some c =>
        rw [hcell] at h
        dsimp only at h
        cases haddr : c.inner.getPeerAddr with
        | error err =>
          rw [haddr] at h
          exact absurd h List.not_mem_nil
        | ok addr =>
          rw [haddr] at h
          rw [List.mem_singleton.1 h]
          exact List.mem_cons_self

theorem acceptNonblocking_of_isErr {err : IoError} (he : l.error = .error err) :
    l.acceptNonblocking = (.error (cloneIoErr err), l) := by
  rw [acceptNonblocking, he]

end ListenerInner

namespace Server

variable {st st' : Server} {e : ServerEvent} {stream : StreamId}

theorem StepResult.error_eq (h : st.StepResult e st') : st'.listener.error = st.listener.error := by
  cases h with
  | changes _ i s s' calls workers hcell hf =>
    dsimp only
    rw [ListenerInner.react_forgets _ _ hf]
  | @drops i s hcell hd =>
    dsimp only
    rw [ListenerInner.react_forgets _ _ s.drop_performs.forgets]
  | _ => rfl

/-- A stream that is not in the queue may be released; otherwise it stays alive. -/
theorem StepResult.isLive (h : st.StepResult e st') (hl : st.listener.IsLive stream) :
    st'.listener.IsLive stream ∨ e = .release stream ∧ stream ∉ st.listener.toAccept := by
  obtain ⟨s₀, hs₀⟩ := hl
  cases h with
  | stays => exact .inl ⟨s₀, hs₀⟩
  | changes _ i s s' calls workers hcell hf =>
    left
    by_cases hi : stream = i
    · subst hi
      exact ⟨s', ListenerInner.react_cell_self hcell hf⟩
    · exact ⟨s₀, by rwa [ListenerInner.react_cell_of_ne hf hi]⟩
  | establishes n m hu =>
    refine .inl ⟨s₀, ?_⟩
    rwa [ListenerInner.establish_cell_of_ne]
    exact (List.getElem?_eq_some_iff.1 hs₀).1.ne
  | accepts queue accepted hq ha => exact .inl ⟨s₀, hs₀⟩
  | releases i hq =>
    by_cases hi : stream = i
    · subst hi
      exact .inr ⟨rfl, hq⟩
    · refine .inl ⟨s₀, ?_⟩
      dsimp only
      rw [ListenerInner.release_cell, if_neg hi]
      exact hs₀
  | @drops i s hcell hd =>
    refine .inl ⟨s₀, ?_⟩
    rwa [ListenerInner.react_cell_of_ne s.drop_performs.forgets]
    rintro rfl
    rw [hcell] at hs₀
    cases hs₀

/-- The queue keeps its streams alive. -/
theorem StepResult.queued (h : st.StepResult e st')
    (hq : ∀ stream ∈ st.listener.toAccept, st.listener.IsLive stream) :
    ∀ stream ∈ st'.listener.toAccept, st'.listener.IsLive stream := by
  have hkept : ∀ stream ∈ st.listener.toAccept, st'.listener.IsLive stream :=
    fun stream hm => (h.isLive (hq stream hm)).resolve_right fun hno => hno.2 hm
  intro stream hm
  cases h with
  | stays => exact hq stream hm
  | changes _ i s s' calls workers hcell hf =>
    dsimp only at hm
    rw [ListenerInner.react_forgets _ _ hf] at hm
    exact hkept stream hm
  | establishes n m hu =>
    rcases List.mem_append.1 hm with hm | hm
    · exact hkept stream hm
    · rw [List.mem_singleton.1 hm]
      exact ⟨_, ListenerInner.establish_cell_self _ _ _ _⟩
  | accepts queue accepted hqueue ha =>
    rw [show _ = _ from hqueue, ListenerInner.acceptNonblocking_toAccept] at hm
    split_ifs at hm
    · exact hq stream hm
    · exact hq stream (List.mem_of_mem_tail hm)
  | releases i hi => exact hkept stream hm
  | @drops i s hcell hd =>
    dsimp only at hm
    rw [ListenerInner.react_forgets _ _ s.drop_performs.forgets] at hm
    exact hkept stream hm

/-- `Drop` runs for released streams only. -/
theorem StepResult.released_of_dropped (h : st.StepResult e st')
    (hr : ∀ stream ∈ st.dropped, ∃ s, st.listener.streams[stream]? = some ⟨s, false⟩) :
    ∀ stream ∈ st'.dropped, ∃ s, st'.listener.streams[stream]? = some ⟨s, false⟩ := by
  intro stream hm
  have hres := h
  cases h with
  | @drops i s hcell hd =>
    rcases List.mem_append.1 hm with hm | hm
    · exact hres.released (hr stream hm)
    · rw [List.mem_singleton.1 hm]
      exact hres.released ⟨s, hcell⟩
  | _ => exact hres.released (hr stream hm)

/-- Only a datagram creates streams, and only `accept` takes them from the queue. -/
theorem StepResult.queue_eq (h : st.StepResult e st') (hr : ∀ data addr n, e ≠ .recv data addr n)
    (ha : e ≠ .accept) : st'.listener.toAccept = st.listener.toAccept ∧
      st'.listener.streams.length = st.listener.streams.length := by
  cases h with
  | stays => exact ⟨rfl, rfl⟩
  | changes _ i s s' calls workers hcell hf =>
    dsimp only
    rw [ListenerInner.react_forgets _ _ hf]
    exact ⟨rfl, List.length_modify _ _ _⟩
  | establishes n m hu => exact absurd rfl (hr _ _ _)
  | accepts queue accepted hq hacc => exact absurd rfl ha
  | releases i hi => exact ⟨rfl, List.length_modify _ _ _⟩
  | @drops i s hcell hd =>
    dsimp only
    rw [ListenerInner.react_forgets _ _ s.drop_performs.forgets]
    exact ⟨rfl, List.length_modify _ _ _⟩

theorem StepResult.queue_grows {data : List UInt8} {addr : SocketAddr} {n : SequenceNumber}
    (h : st.StepResult (.recv data addr n) st') :
    st.listener.toAccept <+: st'.listener.toAccept := by
  cases h with
  | stays => exact List.prefix_rfl
  | changes _ i s s' calls workers hcell hf =>
    dsimp only
    rw [ListenerInner.react_forgets _ _ hf]
  | establishes n m hu => exact List.prefix_append _ _

theorem StepResult.dropped_subset (h : st.StepResult e st') : st.dropped ⊆ st'.dropped := by
  cases h with
  | @drops i s hcell hd => exact List.subset_append_left _ _
  | _ => exact List.Subset.refl _

end Server

/-! ## The steps -/

namespace Lifetime

variable {st st' : Lifetime} {e : LifetimeEvent} {es : List LifetimeEvent}

/-- What a step may do. -/
inductive StepResult (st : Lifetime) : LifetimeEvent → Lifetime → Prop
  | stays (e : LifetimeEvent) : StepResult st e st
  | clones (hpos : 0 < st.handles) (he : st.server.listener.isErr = false) :
    StepResult st .cloneListener { st with handles := st.handles + 1 }
  | dropsHandle : StepResult st .dropListener { st with handles := st.handles - 1 }
  | begins (hpc : st.thread = .idle) (he : st.server.listener.isErr = false) :
    StepResult st .upgrade { st with thread := .receiving }
  | returns (hpc : st.thread = .idle) : StepResult st .upgrade { st with thread := .exited }
  | receives {data : List UInt8} {addr : SocketAddr} {n : SequenceNumber} (server : Server)
      (hpc : st.thread = .receiving)
      (hs : serverStep st.server (.recv (data.take (maxSegmentLen + 1)) addr n) = .ok server) :
    StepResult st (.receive data addr n) { st with server := server, thread := .idle }
  | fails (failure : RecvFailure) (hpc : st.thread = .receiving) :
    StepResult st (.fail failure) (st.fail failure)
  | accepts (server : Server) (users : StreamId → ℕ) (hpos : 0 < st.handles)
      (hs : serverStep st.server .accept = .ok server)
      (hu : ∀ stream, 0 < users stream → 0 < st.users stream ∨
        stream ∈ st.server.listener.toAccept) :
    StepResult st .accept { st with server := server, users := users }
  | users (e : LifetimeEvent) (users : StreamId → ℕ)
      (hu : ∀ stream, 0 < users stream → 0 < st.users stream) :
    StepResult st e { st with users := users }
  | serves (e : LifetimeEvent) (ev : ServerEvent) (server : Server)
      (hr : ∀ data addr n, ev ≠ .recv data addr n) (ha : ev ≠ .accept)
      (hrelease : ∀ stream, ev = .release stream → st.users stream = 0)
      (hs : serverStep st.server ev = .ok server) :
    StepResult st e { st with server := server }

theorem serves_result {ev : ServerEvent} (h : st.serves ev = .ok st')
    (hr : ∀ data addr n, ev ≠ .recv data addr n) (ha : ev ≠ .accept)
    (hrelease : ∀ stream, ev = .release stream → st.users stream = 0) (e : LifetimeEvent) :
    st.StepResult e st' := by
  obtain ⟨server, hs, rfl⟩ := exists_of_map_eq_ok h
  exact .serves e ev server hr ha hrelease hs

theorem step_result (h : lifetimeStep st e = .ok st') : st.StepResult e st' := by
  cases e with
  | cloneListener =>
    rw [lifetimeStep] at h
    split_ifs at h with hc
    · cases h
      exact .clones hc.1 hc.2
    · cases h
      exact .stays _
  | dropListener =>
    cases h
    exact .dropsHandle
  | upgrade =>
    rw [lifetimeStep] at h
    split at h
    · rename_i hpc
      split_ifs at h with hc
      · cases h
        exact .begins hpc hc.2
      · cases h
        exact .returns hpc
    · cases h
      exact .stays _
  | receive data addr n =>
    rw [lifetimeStep] at h
    split at h
    · rename_i hpc
      obtain ⟨st₁, hserves, rfl⟩ := exists_of_map_eq_ok h
      obtain ⟨server, hs, rfl⟩ := exists_of_map_eq_ok hserves
      exact .receives server hpc hs
    · cases h
      exact .stays _
  | fail failure =>
    rw [lifetimeStep] at h
    split at h
    · cases h
      exact .fails failure ‹_›
    · cases h
      exact .stays _
  | accept =>
    rw [lifetimeStep] at h
    split_ifs at h with hpos
    · rw [accept] at h
      obtain ⟨st₁, hserves, rfl⟩ := exists_of_map_eq_ok h
      obtain ⟨server, hs, rfl⟩ := exists_of_map_eq_ok hserves
      refine .accepts server _ hpos hs fun stream hu => ?_
      rcases Nat.add_pos_iff_pos_or_pos.1 hu with hu | hu
      · exact .inl hu
      · exact .inr (ListenerInner.mem_of_mem_returned (List.count_pos_iff.1 hu))
    · cases h
      exact .stays _
  | cloneStream stream =>
    rw [lifetimeStep] at h
    split_ifs at h with hc
    · cases h
      refine .users _ _ fun j hj => ?_
      by_cases hji : j = stream
      · rw [hji]
        exact hc.1
      · rwa [Function.update_of_ne hji] at hj
    · cases h
      exact .stays _
  | dropStream stream =>
    cases h
    refine .users _ _ fun j hj => ?_
    by_cases hji : j = stream
    · subst hji
      rw [Function.update_self] at hj
      omega
    · rwa [Function.update_of_ne hji] at hj
  | call stream op =>
    rw [lifetimeStep] at h
    split_ifs at h
    · exact serves_result h (fun _ _ _ => ServerEvent.noConfusion) ServerEvent.noConfusion
        (fun _ => ServerEvent.noConfusion) _
    · cases h
      exact .stays _
  | work stream t t' sent =>
    exact serves_result h (fun _ _ _ => ServerEvent.noConfusion) ServerEvent.noConfusion
      (fun _ => ServerEvent.noConfusion) _
  | release stream =>
    rw [lifetimeStep] at h
    split_ifs at h with hu
    · exact serves_result h (fun _ _ _ => ServerEvent.noConfusion) ServerEvent.noConfusion
        (fun j hj => by cases hj; exact hu) _
    · cases h
      exact .stays _
  | drop stream =>
    exact serves_result h (fun _ _ _ => ServerEvent.noConfusion) ServerEvent.noConfusion
      (fun _ => ServerEvent.noConfusion) _

/-- What holds in every state that a new listener reaches. -/
structure Sound (st : Lifetime) : Prop where
  released : ∀ stream ∈ st.server.dropped, ∃ s,
    st.server.listener.streams[stream]? = some ⟨s, false⟩
  queued : ∀ stream ∈ st.server.listener.toAccept, st.server.listener.IsLive stream
  held : ∀ stream, 0 < st.users stream → st.server.listener.IsLive stream
  failed : st.server.listener.isErr → st.thread ≠ .receiving

theorem sound_bound : bound.Sound where
  released _ h := absurd h List.not_mem_nil
  queued _ h := absurd h List.not_mem_nil
  held _ h := absurd h (Nat.lt_irrefl 0)
  failed h := Bool.noConfusion h

theorem sound_connected (peerAddr : SocketAddr) (establishSeqNum acceptSeqNum : SequenceNumber) :
    (connected peerAddr establishSeqNum acceptSeqNum).Sound where
  released _ h := absurd h List.not_mem_nil
  queued _ h := absurd h List.not_mem_nil
  held stream h := by
    have hzero : stream = 0 := by
      by_contra hne
      simp [connected, hne] at h
    subst hzero
    exact ⟨_, rfl⟩
  failed h := Bool.noConfusion h

/-- A step of the server keeps what holds of its streams. -/
theorem Sound.server_step (h : st.Sound) {ev : ServerEvent} {server : Server}
    (hs : serverStep st.server ev = .ok server) {users : StreamId → ℕ} {thread : ListenPc}
    (hu : ∀ stream, 0 < users stream → st.server.listener.IsLive stream ∧
      (ev = .release stream → stream ∈ st.server.listener.toAccept))
    (hpc : thread = .receiving → st.thread = .receiving) :
    Sound { st with server := server, users := users, thread := thread } := by
  have hres := Server.step_result hs
  refine ⟨hres.released_of_dropped h.released, hres.queued h.queued, fun stream hpos => ?_,
    fun he hrecv => ?_⟩
  · obtain ⟨hlive, hno⟩ := hu stream hpos
    exact (hres.isLive hlive).resolve_right fun hrel => hrel.2 (hno hrel.1)
  · refine h.failed ?_ (hpc hrecv)
    rw [ListenerInner.isErr, ← hres.error_eq]
    exact he

theorem Sound.step (h : st.Sound) (hs : lifetimeStep st e = .ok st') : st'.Sound := by
  cases step_result hs with
  | stays => exact h
  | clones hpos he => exact ⟨h.released, h.queued, h.held, h.failed⟩
  | dropsHandle => exact ⟨h.released, h.queued, h.held, h.failed⟩
  | begins hpc he => exact ⟨h.released, h.queued, h.held, fun herr => absurd herr (by simp [he])⟩
  | returns hpc => exact ⟨h.released, h.queued, h.held, fun _ => ListenPc.noConfusion⟩
  | receives server hpc hserver =>
    exact h.server_step hserver (fun stream hpos => ⟨h.held stream hpos, ServerEvent.noConfusion⟩)
      ListenPc.noConfusion
  | fails failure hpc =>
    cases failure with
    | interrupted => exact ⟨h.released, h.queued, h.held, fun _ => ListenPc.noConfusion⟩
    | wouldBlock => exact ⟨h.released, h.queued, h.held, fun _ => ListenPc.noConfusion⟩
    | other err => exact ⟨h.released, h.queued, h.held, fun _ => ListenPc.noConfusion⟩
  | accepts server users hpos hserver hu =>
    refine h.server_step hserver (fun stream hpos => ⟨?_, ServerEvent.noConfusion⟩) fun hpc => hpc
    exact (hu stream hpos).elim (h.held stream) (h.queued stream)
  | users _ users hu => exact ⟨h.released, h.queued, fun stream hpos => h.held stream (hu _ hpos),
      h.failed⟩
  | serves _ ev server hr ha hrelease hserver =>
    refine h.server_step hserver (fun stream hpos => ⟨h.held stream hpos, fun heq => ?_⟩)
      fun hpc => hpc
    rw [hrelease stream heq] at hpos
    exact absurd hpos (Nat.lt_irrefl 0)

theorem Sound.run (h : st.Sound) (hr : run lifetimeStep st es = .ok st') : st'.Sound :=
  run_preserves Sound (fun _ _ _ h hs => h.step hs) h hr

/-! ## Stranded streams -/

/-- A stream is in the queue, and nobody can accept it. -/
structure Stranded (st : Lifetime) : Prop where
  queue : st.server.listener.toAccept ≠ []
  blocked : st.handles = 0 ∨ st.server.listener.isErr

/-- A stream that has its strong references keeps the listener alive. -/
theorem Sound.alive_of_isLive (h : st.Sound) {stream : StreamId}
    (hl : st.server.listener.IsLive stream) : st.Alive := by
  obtain ⟨s, hcell⟩ := hl
  refine .inr (.inr ⟨stream, (List.getElem?_eq_some_iff.1 hcell).1, fun hm => ?_⟩)
  obtain ⟨s', hcell'⟩ := h.released stream hm
  rw [hcell] at hcell'
  cases hcell'

theorem Stranded.alive (h : st.Stranded) (hst : st.Sound) : st.Alive := by
  obtain ⟨stream, hm⟩ := List.exists_mem_of_ne_nil _ h.queue
  exact hst.alive_of_isLive (hst.queued stream hm)

/-- What is stranded stays so. -/
theorem Stranded.step (h : st.Stranded) (hs : lifetimeStep st e = .ok st') :
    st'.Stranded ∧ st.server.listener.toAccept <+: st'.server.listener.toAccept := by
  have hsame : ∀ {st' : Lifetime}, st'.server.listener.toAccept = st.server.listener.toAccept →
      (st'.handles = 0 ∨ st'.server.listener.isErr) →
      st'.Stranded ∧ st.server.listener.toAccept <+: st'.server.listener.toAccept :=
    fun hq hb => ⟨⟨by rw [hq]; exact h.queue, hb⟩, by rw [hq]⟩
  have hblocked : ∀ {ev : ServerEvent} {server : Server}, serverStep st.server ev = .ok server →
      st.handles = 0 ∨ server.listener.isErr := by
    intro ev server hserver
    rw [ListenerInner.isErr, (Server.step_result hserver).error_eq]
    exact h.blocked
  cases step_result hs with
  | stays => exact hsame rfl h.blocked
  | clones hpos he =>
    rcases h.blocked with hzero | herr
    · omega
    · rw [he] at herr
      cases herr
  | dropsHandle => exact hsame rfl (h.blocked.imp_left fun hzero => by simp [hzero])
  | begins hpc he => exact hsame rfl h.blocked
  | returns hpc => exact hsame rfl h.blocked
  | receives server hpc hserver =>
    have hprefix := (Server.step_result hserver).queue_grows
    refine ⟨⟨fun hnil => h.queue ?_, hblocked hserver⟩, hprefix⟩
    rw [show server.listener.toAccept = [] from hnil] at hprefix
    exact List.prefix_nil.1 hprefix
  | fails failure hpc =>
    cases failure with
    | interrupted => exact hsame rfl h.blocked
    | wouldBlock => exact hsame rfl h.blocked
    | other err => exact hsame rfl (.inr rfl)
  | accepts server users hpos hserver hu =>
    refine hsame ?_ (hblocked hserver)
    have herr : st.server.listener.isErr := h.blocked.resolve_left hpos.ne'
    rw [serverStep] at hserver
    have htoAccept := ListenerInner.acceptNonblocking_toAccept st.server.listener
    rw [if_pos herr] at htoAccept
    cases hserver
    exact htoAccept
  | users _ users hu => exact hsame rfl h.blocked
  | serves _ ev server hr ha hrelease hserver =>
    exact hsame ((Server.step_result hserver).queue_eq hr ha).1 (hblocked hserver)

theorem Stranded.run (h : st.Stranded) (hst : st.Sound)
    (hr : run lifetimeStep st es = .ok st') :
    st'.Stranded ∧ st'.Alive ∧ st.server.listener.toAccept <+: st'.server.listener.toAccept := by
  have hinv := run_preserves (fun st' : Lifetime => st'.Sound ∧ st'.Stranded ∧
      st.server.listener.toAccept <+: st'.server.listener.toAccept) ?_
    ⟨hst, h, List.prefix_rfl⟩ hr
  · obtain ⟨hst', h', hprefix⟩ := hinv
    exact ⟨h', h'.alive hst', hprefix⟩
  · rintro st₁ e st₂ ⟨hst₁, h₁, hprefix⟩ hs
    obtain ⟨h₂, hprefix'⟩ := h₁.step hs
    exact ⟨hst₁.step hs, h₂, hprefix.trans hprefix'⟩

/-! ## New listeners -/

/-- A listener that has just been bound, or that of a connection that has just been made. -/
def IsNew (st : Lifetime) : Prop :=
  st = bound ∨ ∃ peerAddr establishSeqNum acceptSeqNum,
    st = connected peerAddr establishSeqNum acceptSeqNum

theorem IsNew.sound (h : st.IsNew) : st.Sound := by
  rcases h with rfl | ⟨peerAddr, e, a, rfl⟩
  · exact sound_bound
  · exact sound_connected peerAddr e a

end Lifetime

/-! ## Failures -/

/-- A turn of the loop of `accept`, which goes on as long as there is no answer. -/
def ListenerInner.accept (l : ListenerInner) :
    Option (IoResult (StreamId × SocketAddr)) × ListenerInner :=
  match l.acceptNonblocking with
  | (.ok none, l) => (none, l)
  | (.ok (some conn), l) => (some (.ok conn), l)
  | (.error err, l) => (some (.error err), l)

namespace Lifetime

variable {st st' : Lifetime} {e : LifetimeEvent} {es : List LifetimeEvent}

/-- The socket has failed: the error is `err`, the queue is `queue`, and `n` streams have been
created. -/
structure Failed (err : IoError) (queue : List StreamId) (n : ℕ) (st : Lifetime) : Prop where
  error : st.server.listener.error = .error err
  toAccept : st.server.listener.toAccept = queue
  length : st.server.listener.streams.length = n
  thread : st.thread ≠ .receiving

theorem Failed.step {err : IoError} {queue : List StreamId} {n : ℕ} (h : st.Failed err queue n)
    (hs : lifetimeStep st e = .ok st') : st'.Failed err queue n := by
  have herr : st.server.listener.isErr := by
    rw [ListenerInner.isErr, h.error]
  cases step_result hs with
  | stays => exact h
  | clones hpos he => exact ⟨h.error, h.toAccept, h.length, h.thread⟩
  | dropsHandle => exact ⟨h.error, h.toAccept, h.length, h.thread⟩
  | begins hpc he => simp [he] at herr
  | returns hpc => exact ⟨h.error, h.toAccept, h.length, ListenPc.noConfusion⟩
  | receives server hpc hserver => exact absurd hpc h.thread
  | fails failure hpc => exact absurd hpc h.thread
  | accepts server users hpos hserver hu =>
    rw [serverStep, ListenerInner.acceptNonblocking_of_isErr h.error] at hserver
    cases hserver
    exact ⟨h.error, h.toAccept, h.length, h.thread⟩
  | users _ users hu => exact ⟨h.error, h.toAccept, h.length, h.thread⟩
  | serves _ ev server hr ha hrelease hserver =>
    have hres := Server.step_result hserver
    obtain ⟨hqueue, hlen⟩ := hres.queue_eq hr ha
    exact ⟨hres.error_eq.trans h.error, hqueue.trans h.toAccept, hlen.trans h.length, h.thread⟩

theorem Failed.receive {err : IoError} {queue : List StreamId} {n : ℕ}
    (h : st.Failed err queue n) (data : List UInt8) (addr : SocketAddr)
    (acceptSeqNum : SequenceNumber) :
    lifetimeStep st (.receive data addr acceptSeqNum) = .ok st := by
  have hpc := h.thread
  rw [lifetimeStep]
  cases hthread : st.thread with
  | receiving => exact absurd hthread hpc
  | idle => rfl
  | exited => rfl

end Lifetime

/-- **A failure of the socket stays.** Once a listener has failed, then whatever happens its error
is the same, no datagram is handled, no stream is created or taken from the queue, and every
`accept` returns the error at once. -/
theorem failure_stays {st₀ st st' : Lifetime} (hnew : st₀.IsNew) {es es' : List LifetimeEvent}
    (hr : run lifetimeStep st₀ es = .ok st) {err : IoError}
    (he : st.server.listener.error = .error err) (hr' : run lifetimeStep st es' = .ok st') :
    st'.Failed err st.server.listener.toAccept st.server.listener.streams.length ∧
      st'.server.listener.accept = (some (.error (cloneIoErr err)), st'.server.listener) ∧
      ∀ data addr n, lifetimeStep st' (.receive data addr n) = .ok st' := by
  have hfailed : st.Failed err st.server.listener.toAccept st.server.listener.streams.length := by
    refine ⟨he, rfl, rfl, (hnew.sound.run hr).failed ?_⟩
    rw [ListenerInner.isErr, he]
  have hfailed' := run_preserves (Lifetime.Failed err _ _) (fun _ _ _ h hs => h.step hs) hfailed hr'
  refine ⟨hfailed', ?_, hfailed'.receive⟩
  rw [ListenerInner.accept, ListenerInner.acceptNonblocking_of_isErr hfailed'.error]

/-- The socket fails while a stream is in the queue, and two peers send datagrams afterwards. -/
def failedWhileQueued : List LifetimeEvent :=
  [.upgrade, .receive (Segment.establish 3).intoBytes (.v4 0 2) 7, .upgrade,
    .fail (.other ⟨.other, "Network is down"⟩)]

def afterFailure : List LifetimeEvent :=
  [.upgrade, .receive (Segment.establish 4).intoBytes (.v4 0 3) 7, .accept,
    .receive Segment.reset.intoBytes (.v4 0 2) 0]

theorem failure_stays_failedWhileQueued :
    ∃ st st', run lifetimeStep .bound failedWhileQueued = .ok st ∧
      run lifetimeStep st afterFailure = .ok st' ∧ st'.server.listener.toAccept = [0] ∧
      st'.server.listener.accept =
        (some (.error ⟨.other, "Network is down"⟩), st'.server.listener) := by
  obtain ⟨st, hr⟩ : ∃ st, run lifetimeStep .bound failedWhileQueued = .ok st := ⟨_, rfl⟩
  have hst : st.server.listener.error = .error ⟨.other, "Network is down"⟩ ∧
      st.server.listener.toAccept = [0] ∧ ∃ st', run lifetimeStep st afterFailure = .ok st' := by
    obtain rfl := Except.ok.inj hr
    exact ⟨rfl, rfl, _, rfl⟩
  obtain ⟨he, hqueue, st', hr'⟩ := hst
  obtain ⟨hfailed, haccept, -⟩ := failure_stays (.inl rfl) hr he hr'
  exact ⟨st, st', hr, hr', hfailed.toAccept.trans hqueue, haccept⟩

end Mdswp
