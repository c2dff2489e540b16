import Mdswp.Codec
import Mdswp.Listener.Lifetime

/-!
# Freeing a listener

A listener can be freed unless a stream is stranded in its queue (`freeable_iff`). Whoever has
handles of it can accept what is queued, and let go of the streams and of the handles; the workers
end their rounds; and the thread ends its turn with the next datagram.

The last handle may go while the thread waits. Then that datagram frees the listener, unless it is
an `Establish`: it creates a stream that nobody can accept (`waits_for_datagram`).
-/

namespace Mdswp

open StreamInner

namespace Lifetime

variable {st st' : Lifetime} {e : LifetimeEvent} {es : List LifetimeEvent}

/-! ## Winding down -/

/-- A run from `st` to `st'` by which nothing is queued, accepted or received. -/
structure WindsDown (st st' : Lifetime) : Prop where
  leads : Leads lifetimeStep st st'
  toAccept : st'.server.listener.toAccept = st.server.listener.toAccept
  length : st'.server.listener.streams.length = st.server.listener.streams.length
  handles : st'.handles = st.handles
  thread : st'.thread = st.thread
  dropped : st.server.dropped ⊆ st'.server.dropped

theorem WindsDown.refl (st : Lifetime) : st.WindsDown st :=
  ⟨.refl st, rfl, rfl, rfl, rfl, List.Subset.refl _⟩

theorem WindsDown.trans {st'' : Lifetime} (h : st.WindsDown st') (h' : st'.WindsDown st'') :
    st.WindsDown st'' where
  leads := h.leads.trans h'.leads
  toAccept := h'.toAccept.trans h.toAccept
  length := h'.length.trans h.length
  handles := h'.handles.trans h.handles
  thread := h'.thread.trans h.thread
  dropped := List.Subset.trans h.dropped h'.dropped

/-- A step of the streams. -/
theorem windsDown_serves {ev : ServerEvent} {server : Server}
    (hs : serverStep st.server ev = .ok server)
    (hstep : lifetimeStep st e = .ok { st with server := server })
    (hr : ∀ data addr n, ev ≠ .recv data addr n) (ha : ev ≠ .accept) :
    st.WindsDown { st with server := server } := by
  have hres := Server.step_result hs
  obtain ⟨hqueue, hlen⟩ := hres.queue_eq hr ha
  exact ⟨.single hstep, hqueue, hlen, rfl, rfl, hres.dropped_subset⟩

/-- All handles of a stream can go. -/
theorem exists_unused (st : Lifetime) (stream : StreamId) :
    ∃ st', st.WindsDown st' ∧ st'.users stream = 0 ∧ st'.server = st.server := by
  generalize hn : st.users stream = n
  induction n generalizing st with
  | zero => exact ⟨st, .refl st, hn, rfl⟩
  | succ n ih =>
    have hdrop : st.WindsDown
        { st with users := Function.update st.users stream (st.users stream - 1) } :=
      ⟨.single (e := .dropStream stream) rfl, rfl, rfl, rfl, rfl, List.Subset.refl _⟩
    obtain ⟨st', hwinds, hzero, hserver⟩ := ih
      { st with users := Function.update st.users stream (st.users stream - 1) }
      (by simp [hn])
    exact ⟨st', hdrop.trans hwinds, hzero, hserver⟩

end Lifetime

/-- At some time a `pop` returns: what is in flight is overdue then. -/
theorem SendStorage.exists_pop_ok (s : SendStorage) (t' : Instant) : ∃ t x, s.pop t t' = .ok x := by
  cases hq : s.queueSent with
  | nil =>
    refine ⟨0, ?_⟩
    rw [pop, tryPopSent, hq]
    dsimp only
    rw [tryPopUnsent, hq]
    cases s.queueUnsent with
    | nil => exact ⟨_, rfl⟩
    | cons segment rest => exact ⟨_, rfl⟩
  | cons e rest =>
    obtain ⟨t, -, hlate⟩ := exists_elapsed e.lastPop 0
    refine ⟨t, ?_⟩
    rw [pop, tryPopSent, hq]
    dsimp only
    rw [if_pos hlate]
    exact ⟨_, rfl⟩

namespace Server

variable {st : Server} {stream : StreamId} {s : StreamInner}

/-- A worker that sends goes to its check, or gives up when the socket fails. -/
theorem exists_work_of_send (hcell : st.listener.streams[stream]? = some ⟨s, true⟩)
    (hpc : st.workers stream = .send) (err : IoError) :
    ∃ t st', serverStep st (.work stream t 0 (.error err)) = .ok st' ∧
      st'.workers stream ≠ .ack ∧ st'.workers stream ≠ .send := by
  obtain ⟨t, ⟨x, storage⟩, hp⟩ := s.sendStorage.exists_pop_ok 0
  refine ⟨t, ?_⟩
  rw [serverStep, work, hcell, hpc]
  dsimp only
  rw [threadSend, hp]
  rcases x with _ | ⟨n, variant⟩
  · exact ⟨_, rfl, by simp [worked], by simp [worked]⟩
  · exact ⟨_, rfl, by simp [worked, threadSendTo], by simp [worked, threadSendTo]⟩

/-- A worker that acknowledges goes on to send, or gives up when the socket fails. -/
theorem exists_work_of_ack (hcell : st.listener.streams[stream]? = some ⟨s, true⟩)
    (hpc : st.workers stream = .ack) (err : IoError) :
    ∃ st', serverStep st (.work stream 0 0 (.error err)) = .ok st' ∧ st'.workers stream ≠ .ack := by
  rw [serverStep, work, hcell, hpc]
  dsimp only
  refine ⟨_, rfl, ?_⟩
  rw [threadAck]
  split
  · simp [worked]
  · simp [worked, threadSendTo]

end Server

namespace Lifetime

variable {st st' : Lifetime} {e : LifetimeEvent} {es : List LifetimeEvent} {stream : StreamId}

/-- The worker of a stream can end its round. -/
theorem exists_roundEnded (hl : st.server.listener.IsLive stream) : ∃ st', st.WindsDown st' ∧
    st'.users = st.users ∧ st'.server.listener.IsLive stream ∧
    st'.server.workers stream ≠ .ack ∧ st'.server.workers stream ≠ .send := by
  have hlive : ∀ {st : Lifetime} {t : Instant} {server : Server}, st.server.listener.IsLive stream →
      serverStep st.server (.work stream t 0 (.error connResetLocal)) = .ok server →
      st.WindsDown { st with server := server } ∧ server.listener.IsLive stream := by
    intro st t server hl hs
    have hstep : lifetimeStep st (.work stream t 0 (.error connResetLocal)) =
        .ok { st with server := server } := by
      rw [lifetimeStep, serves, hs]
      rfl
    refine ⟨windsDown_serves hs hstep (fun _ _ _ => ServerEvent.noConfusion)
      ServerEvent.noConfusion, ?_⟩
    exact ((Server.step_result hs).isLive hl).resolve_right fun h => ServerEvent.noConfusion h.1
  have hsend : ∀ st : Lifetime, st.server.listener.IsLive stream →
      st.server.workers stream = .send → ∃ st', st.WindsDown st' ∧ st'.users = st.users ∧
        st'.server.listener.IsLive stream ∧
        st'.server.workers stream ≠ .ack ∧ st'.server.workers stream ≠ .send := by
    intro st hl hpc
    obtain ⟨s, hcell⟩ := hl
    obtain ⟨t, server, hs, hne⟩ := Server.exists_work_of_send hcell hpc connResetLocal
    obtain ⟨hwinds, hl'⟩ := hlive ⟨s, hcell⟩ hs
    exact ⟨_, hwinds, rfl, hl', hne⟩
  cases hpc : st.server.workers stream with
  | send => exact hsend st hl hpc
  | ack =>
    obtain ⟨s, hcell⟩ := hl
    obtain ⟨server, hs, hne⟩ := Server.exists_work_of_ack hcell hpc connResetLocal
    obtain ⟨hwinds, hl'⟩ := hlive ⟨s, hcell⟩ hs
    by_cases hpc' : server.workers stream = .send
    · obtain ⟨st', hwinds', hrest⟩ := hsend { st with server := server } hl' hpc'
      exact ⟨st', hwinds.trans hwinds', hrest⟩
    · exact ⟨_, hwinds, rfl, hl', hne, hpc'⟩
  | check => exact ⟨st, .refl st, rfl, hl, by simp [hpc], by simp [hpc]⟩
  | exited => exact ⟨st, .refl st, rfl, hl, by simp [hpc], by simp [hpc]⟩

/-- `Drop` can run for a stream that has been released. -/
theorem exists_dropped_of_released (st : Lifetime) {s : StreamInner}
    (hcell : st.server.listener.streams[stream]? = some ⟨s, false⟩) :
    ∃ st', st.WindsDown st' ∧ stream ∈ st'.server.dropped := by
  by_cases hd : stream ∈ st.server.dropped
  · exact ⟨st, .refl st, hd⟩
  · obtain ⟨server, hs, hm⟩ : ∃ server, serverStep st.server (.drop stream) = .ok server ∧
        stream ∈ server.dropped := by
      rw [serverStep, hcell]
      dsimp only
      rw [if_neg hd]
      exact ⟨_, rfl, by simp⟩
    have hstep : lifetimeStep st (.drop stream) = .ok { st with server := server } := by
      rw [lifetimeStep, serves, hs]
      rfl
    exact ⟨_, windsDown_serves hs hstep (fun _ _ _ => ServerEvent.noConfusion)
      ServerEvent.noConfusion, hm⟩

/-- Every stream that is not in the queue can go. -/
theorem exists_dropped (hq : stream ∉ st.server.listener.toAccept)
    (hlt : stream < st.server.listener.streams.length) :
    ∃ st', st.WindsDown st' ∧ stream ∈ st'.server.dropped := by
  obtain ⟨⟨s, live⟩, hcell⟩ : ∃ c, st.server.listener.streams[stream]? = some c :=
    ⟨_, List.getElem?_eq_getElem hlt⟩
  cases live with
  | false => exact exists_dropped_of_released st hcell
  | true =>
    obtain ⟨st₁, h₁, hzero, hserver⟩ := exists_unused st stream
    have hl₁ : st₁.server.listener.IsLive stream := ⟨s, by rw [hserver, hcell]⟩
    obtain ⟨st₂, h₂, husers, ⟨s₂, hcell₂⟩, hack, hsend⟩ := exists_roundEnded hl₁
    have hnot : ¬st₂.server.IsHeld stream := by
      rintro (hm | hpc | hpc)
      · rw [h₂.toAccept, h₁.toAccept] at hm
        exact hq hm
      · exact hack hpc
      · exact hsend hpc
    have hrelease : serverStep st₂.server (.release stream) =
        .ok { st₂.server with listener := st₂.server.listener.release stream } := by
      rw [serverStep, hcell₂]
      dsimp only
      rw [if_neg hnot]
    have hstep : lifetimeStep st₂ (.release stream) = .ok { st₂ with
        server := { st₂.server with listener := st₂.server.listener.release stream } } := by
      rw [lifetimeStep, if_pos (by rw [husers, hzero]), serves, hrelease]
      rfl
    have h₃ := windsDown_serves hrelease hstep (fun _ _ _ => ServerEvent.noConfusion)
      ServerEvent.noConfusion
    have hcell₃ : (st₂.server.listener.release stream).streams[stream]? = some ⟨s₂, false⟩ := by
      rw [ListenerInner.release_cell, if_pos rfl, hcell₂]
      rfl
    obtain ⟨st₄, h₄, hm⟩ := exists_dropped_of_released { st₂ with
      server := { st₂.server with listener := st₂.server.listener.release stream } } hcell₃
    exact ⟨st₄, (h₁.trans h₂).trans (h₃.trans h₄), hm⟩

/-- When the queue is empty, all streams can go. -/
theorem exists_allDropped (hq : st.server.listener.toAccept = []) :
    ∃ st', st.WindsDown st' ∧
      ∀ stream < st'.server.listener.streams.length, stream ∈ st'.server.dropped := by
  have h : ∀ n ≤ st.server.listener.streams.length,
      ∃ st', st.WindsDown st' ∧ ∀ stream < n, stream ∈ st'.server.dropped := by
    intro n hn
    induction n with
    | zero => exact ⟨st, .refl st, fun stream hlt => absurd hlt (Nat.not_lt_zero _)⟩
    | succ n ih =>
      obtain ⟨st₁, h₁, hall⟩ := ih (Nat.le_of_succ_le hn)
      have hq₁ : n ∉ st₁.server.listener.toAccept := by
        rw [h₁.toAccept, hq]
        exact List.not_mem_nil
      obtain ⟨st₂, h₂, hm⟩ := exists_dropped hq₁ (by rw [h₁.length]; exact hn)
      refine ⟨st₂, h₁.trans h₂, fun stream hlt => ?_⟩
      rcases Nat.lt_succ_iff_lt_or_eq.1 hlt with hlt | rfl
      · exact h₂.dropped (hall stream hlt)
      · exact hm
  obtain ⟨st', hwinds, hall⟩ := h _ le_rfl
  exact ⟨st', hwinds, fun stream hlt => hall stream (by rwa [hwinds.length] at hlt)⟩

/-- Users who still can accept can empty the queue. -/
theorem exists_accepted (hst : st.Sound) (hpos : 0 < st.handles)
    (he : st.server.listener.isErr = false) :
    ∃ st', Leads lifetimeStep st st' ∧ st'.server.listener.toAccept = [] := by
  generalize hn : st.server.listener.toAccept.length = n
  induction n generalizing st with
  | zero => exact ⟨st, .refl st, List.length_eq_zero_iff.1 hn⟩
  | succ n ih =>
    obtain ⟨server, hserver, hqueue, herror⟩ : ∃ server,
        serverStep st.server .accept = .ok server ∧
          server.listener.toAccept = st.server.listener.toAccept.tail ∧
          server.listener.error = st.server.listener.error := by
      refine ⟨{ st.server with
        listener := st.server.listener.acceptNonblocking.2
        accepted := st.server.accepted ++
          Server.returned st.server.listener.acceptNonblocking.1 }, rfl, ?_, ?_⟩
      · dsimp only
        rw [ListenerInner.acceptNonblocking_toAccept, if_neg (by simp [he])]
      · dsimp only
        rw [ListenerInner.acceptNonblocking_snd]
    obtain ⟨users, hstep⟩ : ∃ users, lifetimeStep st .accept =
        .ok { st with server := server, users := users } := by
      rw [lifetimeStep, if_pos hpos, accept, serves, hserver]
      exact ⟨_, rfl⟩
    have he' : server.listener.isErr = false := by
      rw [ListenerInner.isErr, herror]
      exact he
    obtain ⟨st', hleads, hnil⟩ := ih (hst.step hstep) hpos he' (by simp [hqueue, hn])
    exact ⟨st', (Leads.single hstep).trans hleads, hnil⟩

/-- All handles of the listener can go. -/
theorem exists_noHandles (st : Lifetime) :
    Leads lifetimeStep st { st with handles := 0 } := by
  generalize hn : st.handles = n
  induction n generalizing st with
  | zero =>
    have heq : st = { st with handles := 0 } := by rw [← hn]
    exact heq ▸ .refl st
  | succ n ih =>
    have hstep : lifetimeStep st .dropListener = .ok { st with handles := n } := by
      rw [lifetimeStep, hn, Nat.add_sub_cancel]
    exact (Leads.single hstep).trans (ih { st with handles := n } rfl)

/-- No stream is found when all have been dropped. -/
theorem Sound.upgrade_eq_none (hst : st.Sound)
    (hall : ∀ stream < st.server.listener.streams.length, stream ∈ st.server.dropped)
    (addr : SocketAddr) : st.server.listener.upgrade addr = none := by
  cases hu : st.server.listener.upgrade addr with
  | none => rfl
  | some x =>
    obtain ⟨stream, s⟩ := x
    obtain ⟨-, hcell⟩ := Server.upgrade_eq_some.1 hu
    obtain ⟨s', hcell'⟩ := hst.released stream
      (hall stream (List.getElem?_eq_some_iff.1 hcell).1)
    rw [hcell] at hcell'
    cases hcell'

/-- A datagram of an address without stream leaves the streams alone, unless it is an `Establish`.
-/
theorem receive_of_upgrade_eq_none {data : List UInt8} {addr : SocketAddr} (n : SequenceNumber)
    (hpc : st.thread = .receiving) (hu : st.server.listener.upgrade addr = none)
    (hne : ∀ m, Segment.tryFrom (data.take (maxSegmentLen + 1)) ≠ .ok (.establish m)) :
    lifetimeStep st (.receive data addr n) = .ok { st with thread := .idle } := by
  have hrecv : st.server.listener.recv (data.take (maxSegmentLen + 1)) addr n =
      .ok (st.server.listener, [⟨addr, Segment.reset.intoBytes⟩]) := by
    rw [ListenerInner.recv, hu]
    dsimp only
    split
    · exact absurd ‹_› (hne _)
    · rfl
  rw [lifetimeStep, hpc]
  dsimp only
  rw [receive, serves, serverStep, hrecv]
  rfl

/-- A listener with no handles whose streams have been dropped is freed at the end of the turn. -/
theorem exists_freed (hst : st.Sound) (hzero : st.handles = 0)
    (hall : ∀ stream < st.server.listener.streams.length, stream ∈ st.server.dropped) :
    ∃ st', Leads lifetimeStep st st' ∧ ¬st'.Alive := by
  have hfreed : ∀ pc : ListenPc, pc ≠ .receiving → ¬Alive { st with thread := pc } := by
    rintro pc hpc (hpos | hrecv | ⟨stream, hlt, hm⟩)
    · exact absurd hpos (by simp [hzero])
    · exact hpc hrecv
    · exact hm (hall stream hlt)
  by_cases hpc : st.thread = .receiving
  · have hempty : ∀ m, Segment.tryFrom (([] : List UInt8).take (maxSegmentLen + 1)) ≠
        .ok (.establish m) := by
      simp [Segment.tryFrom, instrCodeOf]
    have hstep := receive_of_upgrade_eq_none 0 hpc (hst.upgrade_eq_none hall (.v4 0 0)) hempty
    exact ⟨_, .single hstep, hfreed .idle ListenPc.noConfusion⟩
  · exact ⟨st, .refl st, hfreed st.thread hpc⟩

theorem exists_freed_of_not_stranded (hst : st.Sound) (h : ¬st.Stranded) :
    ∃ st', Leads lifetimeStep st st' ∧ ¬st'.Alive := by
  obtain ⟨st₁, h₁, hq⟩ : ∃ st', Leads lifetimeStep st st' ∧
      st'.server.listener.toAccept = [] := by
    by_cases hq : st.server.listener.toAccept = []
    · exact ⟨st, .refl st, hq⟩
    · by_cases hzero : st.handles = 0
      · exact absurd ⟨hq, .inl hzero⟩ h
      · refine exists_accepted hst (Nat.pos_of_ne_zero hzero) ?_
        cases he : st.server.listener.isErr with
        | false => rfl
        | true => exact absurd ⟨hq, .inr he⟩ h
  obtain ⟨st₂, h₂, hall⟩ := exists_allDropped hq
  have h₃ := h₁.trans (h₂.leads.trans (exists_noHandles st₂))
  have hst₃ : Sound { st₂ with handles := 0 } := by
    obtain ⟨es, hr⟩ := h₃
    exact hst.run hr
  obtain ⟨st₄, h₄, hfreed⟩ := exists_freed hst₃ rfl hall
  exact ⟨st₄, h₃.trans h₄, hfreed⟩

end Lifetime

/-- **A listener can still be freed** exactly if it is not the case that a stream is in its queue
while nobody can accept, for want of a handle or because the socket has failed. -/
theorem freeable_iff {st₀ st : Lifetime} (hnew : st₀.IsNew) {es : List LifetimeEvent}
    (hr : run lifetimeStep st₀ es = .ok st) :
    (∃ es' st', run lifetimeStep st es' = .ok st' ∧ ¬st'.Alive) ↔ ¬st.Stranded := by
  have hst := hnew.sound.run hr
  constructor
  · rintro ⟨es', st', hr', hfreed⟩ h
    exact hfreed (h.run hst hr').2.1
  · intro h
    obtain ⟨st', ⟨es', hr'⟩, hfreed⟩ := Lifetime.exists_freed_of_not_stranded hst h
    exact ⟨es', st', hr', hfreed⟩

/-- A peer connects, and the last handle goes before it is accepted. -/
def droppedWhileQueued : List LifetimeEvent :=
  [.upgrade, .receive (Segment.establish 3).intoBytes (.v4 0 2) 7, .dropListener]

theorem freeable_iff_droppedWhileQueued :
    ∃ st, run lifetimeStep .bound droppedWhileQueued = .ok st ∧
      ∀ es' st', run lifetimeStep st es' = .ok st' → st'.Alive := by
  obtain ⟨st, hr⟩ : ∃ st, run lifetimeStep .bound droppedWhileQueued = .ok st := ⟨_, rfl⟩
  have hstranded : st.Stranded := by
    obtain rfl := Except.ok.inj hr
    exact ⟨List.cons_ne_nil 0 [], .inl rfl⟩
  refine ⟨st, hr, fun es' st' hr' => ?_⟩
  by_contra hfreed
  exact (freeable_iff (.inl rfl) hr).1 ⟨es', st', hr', hfreed⟩ hstranded

/-! ## The last turn -/

namespace Lifetime

variable {st st' : Lifetime} {e : LifetimeEvent}

/-- Nothing but the thread, which waits for a datagram, refers to the listener. -/
structure Lingers (st : Lifetime) : Prop where
  handles : st.handles = 0
  dropped : ∀ stream < st.server.listener.streams.length, stream ∈ st.server.dropped
  thread : st.thread = .receiving

/-- What becomes of it: it waits, until a datagram or an error ends the turn. -/
def EndsTurn (st : Lifetime) : LifetimeEvent → Lifetime → Prop
  | .receive data _ _, st' =>
    ((∃ n, data = (Segment.establish n).intoBytes) → st'.Stranded) ∧
      ((∀ n, data ≠ (Segment.establish n).intoBytes) → ¬st'.Alive)
  | .fail _, st' => ¬st'.Alive
  | _, st' => st' = st

theorem Lingers.not_isLive (h : st.Lingers) (hst : st.Sound) (stream : StreamId) :
    ¬st.server.listener.IsLive stream := by
  rintro ⟨s, hcell⟩
  obtain ⟨s', hcell'⟩ := hst.released stream
    (h.dropped stream (List.getElem?_eq_some_iff.1 hcell).1)
  rw [hcell] at hcell'
  cases hcell'

theorem Lingers.users_eq_zero (h : st.Lingers) (hst : st.Sound) (stream : StreamId) :
    st.users stream = 0 :=
  Nat.eq_zero_of_not_pos fun hpos => h.not_isLive hst stream (hst.held stream hpos)

/-- Nothing is left that could be done to a stream. -/
theorem Lingers.serves (h : st.Lingers) (hst : st.Sound) {ev : ServerEvent}
    (hev : (∃ stream t t' sent, ev = .work stream t t' sent) ∨
      (∃ stream, ev = .release stream) ∨ ∃ stream, ev = .drop stream) :
    st.serves ev = .ok st := by
  have hserver : serverStep st.server ev = .ok st.server := by
    rcases hev with ⟨stream, t, t', sent, rfl⟩ | ⟨stream, rfl⟩ | ⟨stream, rfl⟩
    · rw [serverStep, Server.work]
      split
      · exact absurd ⟨_, ‹_›⟩ (h.not_isLive hst stream)
      · rfl
    · rw [serverStep]
      split
      · exact absurd ⟨_, ‹_›⟩ (h.not_isLive hst stream)
      · rfl
    · rw [serverStep]
      split
      · rename_i hcell
        rw [if_pos (h.dropped stream (List.getElem?_eq_some_iff.1 hcell).1)]
      · rfl
  rw [Lifetime.serves, hserver]
  rfl

/-- A listener without handles whose streams have all been dropped is freed by the end of a turn. -/
theorem Lingers.not_alive (h : st.Lingers) {thread : ListenPc} (hpc : thread ≠ .receiving)
    {l : ListenerInner} (hl : l.streams = st.server.listener.streams) :
    ¬Alive { st with server := { st.server with listener := l }, thread := thread } := by
  rintro (hpos | hrecv | ⟨stream, hlt, hm⟩)
  · exact absurd hpos (by simp [h.handles])
  · exact hpc hrecv
  · dsimp only at hlt
    rw [hl] at hlt
    exact hm (h.dropped stream hlt)

/-- An `Establish` creates a stream that nobody can accept. -/
theorem Lingers.establish (h : st.Lingers) (hst : st.Sound) {n acceptSeqNum : SequenceNumber}
    {addr : SocketAddr}
    (hs : lifetimeStep st (.receive (Segment.establish n).intoBytes addr acceptSeqNum) =
      .ok st') : st'.Stranded := by
  have hle := length_intoBytes_le (.establish n)
  have hrecv : st.server.listener.recv ((Segment.establish n).intoBytes.take (maxSegmentLen + 1))
      addr acceptSeqNum = .ok (st.server.listener.establish addr n acceptSeqNum, []) := by
    rw [List.take_of_length_le (by omega), ListenerInner.recv,
      hst.upgrade_eq_none h.dropped, Segment.tryFrom_intoBytes]
  rw [lifetimeStep, h.thread] at hs
  dsimp only at hs
  rw [receive, Lifetime.serves, serverStep, hrecv] at hs
  cases hs
  refine ⟨?_, .inl h.handles⟩
  simp [ListenerInner.establish]

theorem Lingers.step (h : st.Lingers) (hst : st.Sound) (hs : lifetimeStep st e = .ok st') :
    st.EndsTurn e st' := by
  have hzero := h.handles
  have husers := h.users_eq_zero hst
  cases e with
  | cloneListener =>
    rw [lifetimeStep, if_neg (by omega)] at hs
    exact (Except.ok.inj hs).symm
  | dropListener =>
    obtain rfl := Except.ok.inj hs
    show { st with handles := st.handles - 1 } = st
    rw [show st.handles - 1 = st.handles by omega]
  | upgrade =>
    rw [lifetimeStep, h.thread] at hs
    exact (Except.ok.inj hs).symm
  | receive data addr acceptSeqNum =>
    refine ⟨?_, fun hne => ?_⟩
    · rintro ⟨n, rfl⟩
      exact h.establish hst hs
    · have hstep := receive_of_upgrade_eq_none acceptSeqNum h.thread
        (hst.upgrade_eq_none h.dropped addr) fun n htry => hne n (eq_intoBytes_of_take htry)
      obtain rfl := Except.ok.inj (hstep.symm.trans hs)
      exact h.not_alive ListenPc.noConfusion rfl
  | fail failure =>
    rw [lifetimeStep, h.thread] at hs
    obtain rfl := Except.ok.inj hs
    cases failure with
    | interrupted => exact h.not_alive ListenPc.noConfusion rfl
    | wouldBlock => exact h.not_alive ListenPc.noConfusion rfl
    | other err => exact h.not_alive ListenPc.noConfusion rfl
  | accept =>
    rw [lifetimeStep, if_neg (by omega)] at hs
    exact (Except.ok.inj hs).symm
  | cloneStream stream =>
    rw [lifetimeStep, if_neg (by simp [husers])] at hs
    exact (Except.ok.inj hs).symm
  | dropStream stream =>
    obtain rfl := Except.ok.inj hs
    show { st with users := Function.update st.users stream (st.users stream - 1) } = st
    rw [show st.users stream - 1 = st.users stream by rw [husers], Function.update_eq_self]
  | call stream op =>
    rw [lifetimeStep, if_neg (by simp [husers])] at hs
    exact (Except.ok.inj hs).symm
  | work stream t t' sent =>
    have hserves := h.serves hst (.inl ⟨stream, t, t', sent, rfl⟩)
    exact Except.ok.inj (hs.symm.trans hserves)
  | release stream =>
    rw [lifetimeStep, if_pos (husers stream)] at hs
    exact Except.ok.inj (hs.symm.trans (h.serves hst (.inr (.inl ⟨stream, rfl⟩))))
  | drop stream =>
    exact Except.ok.inj (hs.symm.trans (h.serves hst (.inr (.inr ⟨stream, rfl⟩))))

end Lifetime

/-- **The thread keeps the last reference** while it waits for a datagram. If there are no handles
any more and all streams have been dropped, nothing changes until the turn ends. An error frees the
listener then, and so does any datagram but an `Establish`, which creates a stream that nobody can
accept. -/
theorem waits_for_datagram {st₀ st st' : Lifetime} (hnew : st₀.IsNew) {es : List LifetimeEvent}
    (hr : run lifetimeStep st₀ es = .ok st) (h : st.Lingers) {e : LifetimeEvent}
    (hs : lifetimeStep st e = .ok st') : st.EndsTurn e st' :=
  h.step (hnew.sound.run hr) hs

/-- A connection has been made and reset, and its stream has been dropped. -/
def droppedConnection : List LifetimeEvent :=
  [.upgrade, .call 0 .reset, .dropStream 0, .release 0, .drop 0]

theorem waits_for_datagram_droppedConnection :
    ∃ st st' st'', run lifetimeStep (.connected (.v4 0 1) 3 7) droppedConnection = .ok st ∧
      lifetimeStep st (.receive Segment.reset.intoBytes (.v4 0 1) 0) = .ok st' ∧ ¬st'.Alive ∧
      lifetimeStep st (.receive (Segment.establish 3).intoBytes (.v4 0 1) 9) = .ok st'' ∧
      st''.Stranded := by
  obtain ⟨st, hr⟩ : ∃ st, run lifetimeStep (.connected (.v4 0 1) 3 7) droppedConnection =
      .ok st := ⟨_, rfl⟩
  have hst : st.Lingers ∧
      (∃ st', lifetimeStep st (.receive Segment.reset.intoBytes (.v4 0 1) 0) = .ok st') ∧
      ∃ st', lifetimeStep st (.receive (Segment.establish 3).intoBytes (.v4 0 1) 9) = .ok st' := by
    obtain rfl := Except.ok.inj hr
    exact ⟨⟨rfl, by decide, rfl⟩, ⟨_, rfl⟩, _, rfl⟩
  obtain ⟨hlingers, ⟨st', hs'⟩, st'', hs''⟩ := hst
  have hnew : (Lifetime.connected (.v4 0 1) 3 7).IsNew := .inr ⟨_, _, _, rfl⟩
  exact ⟨st, st', st'', hr, hs', (waits_for_datagram hnew hr hlingers hs').2 (by decide), hs'',
    (waits_for_datagram hnew hr hlingers hs'').1 ⟨3, rfl⟩⟩

end Mdswp
