import Mdswp.Listener.Server

/-!
# Accepting

`accept_nonblocking` takes the stream at the front of the queue and asks it for the address of its
peer, which an errored stream answers with its error. So a peer that resets its connection before it
is accepted makes the listener's `accept` fail. Otherwise what has been accepted, followed by the
queue, is all streams in the order of their creation (`Server.Queued`), and `accept_nonblocking`
returns the next one. That is so in exactly the runs in which it never finds an errored stream at
the front (`along_acceptsNext_iff`).
-/

namespace Mdswp

open StreamInner

namespace ListenerInner

variable {l : ListenerInner} {stream : StreamId} {rest : List StreamId} {c : StreamCell}

theorem acceptNonblocking_of_nil (he : l.error = .ok ()) (hq : l.toAccept = []) :
    l.acceptNonblocking = (.ok none, l) := by
  rw [acceptNonblocking, he, hq]

theorem acceptNonblocking_of_healthy (he : l.error = .ok ()) (hq : l.toAccept = stream :: rest)
    (hcell : l.streams[stream]? = some c) (hs : c.inner.isErr = false) :
    l.acceptNonblocking =
      (.ok (some (stream, c.inner.peerAddr)), { l with toAccept := rest }) := by
  have haddr : c.inner.getPeerAddr = .ok c.inner.peerAddr := by
    rw [getPeerAddr, streamState_of_not_isErr hs]
    rfl
  rw [acceptNonblocking, he, hq]
  dsimp only
  rw [hcell]
  dsimp only
  rw [haddr]

theorem acceptNonblocking_of_errored (he : l.error = .ok ()) (hq : l.toAccept = stream :: rest)
    (hcell : l.streams[stream]? = some c) (hs : c.inner.isErr) :
    ∃ err, l.acceptNonblocking = (.error err, { l with toAccept := rest }) := by
  obtain ⟨err, hstate⟩ := streamState_of_isErr hs
  have haddr : c.inner.getPeerAddr = .error err := by
    rw [getPeerAddr, hstate]
    rfl
  refine ⟨err, ?_⟩
  rw [acceptNonblocking, he, hq]
  dsimp only
  rw [hcell]
  dsimp only
  rw [haddr]

end ListenerInner

namespace Server

variable {st st' : Server} {e : ServerEvent} {stream : StreamId}

/-- What is expected of the outcome of `accept_nonblocking`. It is no error. A stream that is
returned is healthy, and newer than those returned before. If the stream at the front of the queue
is healthy, it is the one, and there is none only if no stream in the queue is healthy. -/
structure NextAccepted (st : Server) (result : IoResult (Option (StreamId × SocketAddr))) :
    Prop where
  ok : ∀ err, result ≠ .error err
  returned : ∀ stream addr, result = .ok (some (stream, addr)) →
    (∀ j ∈ st.accepted, j < stream) ∧
      ∃ s, st.listener.streams[stream]? = some ⟨s, true⟩ ∧ s.isErr = false ∧ s.peerAddr = addr
  front : ∀ stream rest s, st.listener.toAccept = stream :: rest →
    st.listener.streams[stream]? = some ⟨s, true⟩ → s.isErr = false →
      result = .ok (some (stream, s.peerAddr))
  none : result = .ok none → ∀ stream ∈ st.listener.toAccept, ∀ s,
    st.listener.streams[stream]? = some ⟨s, true⟩ → s.isErr

/-- A call of `accept_nonblocking` does what is expected of it. -/
def AcceptsNext (st : Server) : ServerEvent → Prop
  | .accept => st.NextAccepted st.listener.acceptNonblocking.1
  | _ => True

/-- A call of `accept_nonblocking` finds no errored stream at the front of the queue. -/
def FrontHealthy (st : Server) : ServerEvent → Prop
  | .accept => ∀ stream ∈ st.listener.toAccept.head?, ∀ c ∈ st.listener.streams[stream]?,
      c.inner.isErr = false
  | _ => True

instance (st : Server) (e : ServerEvent) : Decidable (FrontHealthy st e) :=
  match e with
  | .accept => inferInstanceAs (Decidable (∀ stream ∈ st.listener.toAccept.head?, _))
  | .recv _ _ _ => isTrue trivial
  | .call _ _ => isTrue trivial
  | .work _ _ _ _ => isTrue trivial
  | .release _ => isTrue trivial
  | .drop _ => isTrue trivial

/-- The listener has not errored. What has been accepted and what is in the queue are all streams,
in the order of their creation, and the queue keeps its streams alive. -/
structure Queued (st : Server) : Prop where
  error : st.listener.error = .ok ()
  order : st.accepted ++ st.listener.toAccept = List.range st.listener.streams.length
  live : ∀ stream ∈ st.listener.toAccept, st.listener.IsLive stream

theorem queued_new : new.Queued where
  error := rfl
  order := rfl
  live := by simp [new, ListenerInner.empty]

/-- What has been accepted is older than the front of the queue. -/
theorem Queued.lt_front (h : st.Queued) {rest : List StreamId}
    (hq : st.listener.toAccept = stream :: rest) : ∀ j ∈ st.accepted, j < stream := by
  have hlt : (st.accepted ++ st.listener.toAccept).Pairwise (· < ·) := by
    rw [h.order]
    exact List.pairwise_lt_range
  intro j hj
  refine (List.pairwise_append.1 hlt).2.2 j hj stream ?_
  rw [hq]
  exact List.mem_cons_self

theorem acceptsNext_iff (h : st.Queued) (e : ServerEvent) :
    AcceptsNext st e ↔ FrontHealthy st e := by
  cases e with
  | accept =>
    simp only [AcceptsNext, FrontHealthy]
    cases hq : st.listener.toAccept with
    | nil =>
      rw [ListenerInner.acceptNonblocking_of_nil h.error hq]
      refine iff_of_true ⟨nofun, nofun, fun _ _ _ hq' => ?_, fun _ stream hm => ?_⟩ nofun
      · rw [hq] at hq'
        cases hq'
      · rw [hq] at hm
        cases hm
    | cons stream rest =>
      obtain ⟨s, hcell⟩ := h.live stream (by simp [hq])
      cases hs : s.isErr with
      | true =>
        obtain ⟨err, hacc⟩ := ListenerInner.acceptNonblocking_of_errored h.error hq hcell hs
        rw [hacc]
        refine iff_of_false (fun hok => hok.ok err rfl) fun hall => ?_
        have := hall stream rfl ⟨s, true⟩ hcell
        rw [hs] at this
        cases this
      | false =>
        rw [ListenerInner.acceptNonblocking_of_healthy h.error hq hcell hs]
        refine iff_of_true ⟨nofun, ?_, ?_, nofun⟩ ?_
        · intro j addr hj
          cases hj
          exact ⟨h.lt_front hq, s, hcell, hs, rfl⟩
        · intro j rest' s' hq' hcell' _
          rw [hq] at hq'
          cases hq'
          rw [hcell] at hcell'
          cases hcell'
          rfl
        · intro j hj c hc
          obtain rfl := Option.some.inj hj
          obtain rfl := Option.some.inj (hcell.symm.trans hc)
          exact hs
  | _ => exact Iff.rfl

theorem Queued.react (h : st.Queued) {s s' : StreamInner} {live : Bool}
    {calls : List ListenerCall} (hcell : st.listener.streams[stream]? = some ⟨s, live⟩)
    (hf : s.Forgets s' calls) (hst' : st'.listener = (st.listener.react stream (s', calls)).1)
    (ha : st'.accepted = st.accepted) : st'.Queued := by
  have hreact := ListenerInner.react_forgets st.listener stream hf
  refine ⟨?_, ?_, fun j hj => ?_⟩
  · rw [hst', hreact]
    exact h.error
  · rw [ha, hst', hreact]
    simpa using h.order
  · rw [hst'] at hj ⊢
    rw [hreact] at hj
    obtain ⟨s₀, hs₀⟩ := h.live j hj
    by_cases hji : j = stream
    · subst hji
      rw [hcell] at hs₀
      cases hs₀
      exact ⟨s', ListenerInner.react_cell_self hcell hf⟩
    · exact ⟨s₀, by rwa [ListenerInner.react_cell_of_ne hf hji]⟩

theorem Queued.step (h : st.Queued) (ha : AcceptsNext st e) (hs : serverStep st e = .ok st') :
    st'.Queued := by
  cases step_result hs with
  | stays => exact h
  | changes _ i s s' calls workers hcell hf => exact h.react hcell hf rfl rfl
  | @establishes _ addr _ n m hu =>
    refine ⟨h.error, ?_, fun j hj => ?_⟩
    · simp [ListenerInner.establish, List.range_succ, ← h.order]
    · rcases List.mem_append.1 hj with hj | hj
      · obtain ⟨s, hcell⟩ := h.live j hj
        refine ⟨s, ?_⟩
        rwa [ListenerInner.establish_cell_of_ne]
        exact (List.getElem?_eq_some_iff.1 hcell).1.ne
      · rw [List.mem_singleton.1 hj]
        exact ⟨_, ListenerInner.establish_cell_self _ _ _ _⟩
  | accepts queue accepted hq hacc =>
    have hfront := (acceptsNext_iff h .accept).1 ha
    cases hto : st.listener.toAccept with
    | nil =>
      rw [ListenerInner.acceptNonblocking_of_nil h.error hto] at hq hacc
      rw [hq, hacc]
      simpa [returned] using h
    | cons stream rest =>
      obtain ⟨s, hcell⟩ := h.live stream (by simp [hto])
      have hhealthy : s.isErr = false := hfront stream (by simp [hto]) _ hcell
      rw [ListenerInner.acceptNonblocking_of_healthy h.error hto hcell hhealthy] at hq hacc
      obtain rfl : queue = rest := hq
      obtain rfl : accepted = st.accepted ++ [stream] := hacc
      refine ⟨h.error, ?_, fun j hj => h.live j (by simp [hto, hj])⟩
      have horder := h.order
      rw [hto] at horder
      simpa using horder
  | releases i hq =>
    refine ⟨h.error, ?_, fun j hj => ?_⟩
    · simpa [ListenerInner.release] using h.order
    · obtain ⟨s, hcell⟩ := h.live j hj
      refine ⟨s, ?_⟩
      rw [ListenerInner.release_cell, if_neg (by rintro rfl; exact hq hj)]
      exact hcell
  | @drops i s hcell hd => exact h.react hcell s.drop_performs.forgets rfl rfl

/-- **A healthy listener accepts** every stream in the order of their creation in exactly the runs
in which no stream has errored when it reaches the front of the queue. -/
theorem along_acceptsNext_iff (es : List ServerEvent) :
    Along serverStep AcceptsNext .new es ↔ Along serverStep FrontHealthy .new es :=
  along_congr Queued (fun _ e h => acceptsNext_iff h e) (fun _ _ _ h ha hs => h.step ha hs)
    queued_new es

/-- Two peers connect, and the first resets its connection. -/
def queuedReset : List ServerEvent :=
  [.recv (Segment.establish 0).intoBytes (.v4 1 1) 0,
    .recv (Segment.establish 0).intoBytes (.v4 2 2) 0, .recv Segment.reset.intoBytes (.v4 1 1) 0]

/-- A reset after it has been accepted does no harm. -/
example : Along serverStep FrontHealthy .new (queuedReset.take 2 ++ [.accept] ++
    queuedReset.drop 2 ++ [.accept, .accept]) := by decide

/-- After `queuedReset`, `accept_nonblocking` fails, although a healthy stream is queued. -/
theorem accept_fails_after_reset :
    ∃ st s, run serverStep .new queuedReset = .ok st ∧ st.listener.error = .ok () ∧
      st.listener.toAccept = [0, 1] ∧ st.listener.streams[1]? = some ⟨s, true⟩ ∧
      s.isErr = false ∧ st.listener.acceptNonblocking.1 = .error connResetByPeer ∧
      ¬Along serverStep AcceptsNext .new (queuedReset ++ [.accept]) := by
  obtain ⟨st, hrun⟩ : ∃ st, run serverStep .new queuedReset = .ok st := ⟨_, rfl⟩
  obtain ⟨s, he, hq, hcell, hs, hfails⟩ : ∃ s, st.listener.error = .ok () ∧
      st.listener.toAccept = [0, 1] ∧ st.listener.streams[1]? = some ⟨s, true⟩ ∧
      s.isErr = false ∧ st.listener.acceptNonblocking.1 = .error connResetByPeer := by
    obtain rfl := Except.ok.inj hrun
    exact ⟨_, rfl, rfl, rfl, rfl, rfl⟩
  exact ⟨st, s, hrun, he, hq, hcell, hs, hfails, fun h => (h.last hrun).ok _ hfails⟩

end Server

end Mdswp
