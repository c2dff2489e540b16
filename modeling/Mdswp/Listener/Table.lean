import Mdswp.Listener.Server

/-!
# The table of connections

Two things are expected of the table of a listener at work: that it yields every healthy stream for
the address of its peer (`Server.Reachable`), and that it has no entries of streams that are gone
(`Server.NoDeadEntries`). Both can fail when a stream is dropped. `Drop` removes the entry of the
address even if it is that of a newer connection by then, and it removes no entry at all if the
stream has finished both ways.

* `along_keepsReachable_iff`: the first holds as long as no stream that is dropped unfinished has
  been replaced by a live one;
* `along_keepsNoDeadEntries_iff`: the second holds as long as every stream that is dropped finished
  has been replaced.
-/

namespace Mdswp

open StreamInner Registry

namespace Server

variable {st st' : Server} {e : ServerEvent} {stream : StreamId}

/-! ## Every healthy stream is found -/

/-- The table yields every stream that has a strong reference and has not errored. -/
def Reachable (st : Server) : Prop :=
  ∀ stream s, st.listener.streams[stream]? = some ⟨s, true⟩ → s.isErr = false →
    st.listener.upgrade s.peerAddr = some (stream, s)

theorem reachable_iff : st.Reachable ↔
    Finds st.listener.IsLive st.listener.openAddr st.listener.connections := by
  constructor
  · rintro h stream addr ⟨s, hcell⟩ haddr
    obtain ⟨s', live, hcell', he, rfl⟩ := ListenerInner.openAddr_eq_some.1 haddr
    obtain ⟨rfl, rfl⟩ : s = s' ∧ true = live := by simpa [hcell] using hcell'
    exact (upgrade_eq_some.1 (h stream s hcell he)).1
  · intro h stream s hcell he
    have haddr := ListenerInner.openAddr_eq_some.2 ⟨s, true, hcell, he, rfl⟩
    exact upgrade_eq_some.2 ⟨h stream _ ⟨s, hcell⟩ haddr, hcell⟩

theorem reachable_new : new.Reachable := by
  intro stream s hcell
  simp [new, ListenerInner.empty] at hcell

/-- No healthy stream has an address for which the table yields nothing. -/
theorem Reachable.openAddr_ne (h : st.Reachable) {addr : SocketAddr}
    (hu : st.listener.upgrade addr = none) :
    ∀ j, st.listener.IsLive j → st.listener.openAddr j ≠ some addr := by
  rintro j ⟨s, hcell⟩ haddr
  have hentry := reachable_iff.1 h j addr ⟨s, hcell⟩ haddr
  rw [upgrade_eq_some.2 ⟨hentry, hcell⟩] at hu
  cases hu

/-- What is done to a stream keeps the others in the table, unless it ends and takes the entry of
another one with it. -/
theorem Reachable.react (h : st.Reachable) {s s' : StreamInner} {live : Bool}
    {calls : List ListenerCall} (hcell : st.listener.streams[stream]? = some ⟨s, live⟩)
    (hf : s.Forgets s' calls)
    (hfree : s.isErr = false → s'.isErr → ∀ j, j ≠ stream → st.listener.IsLive j →
      st.listener.openAddr j ≠ some s.peerAddr)
    (hst' : st'.listener = (st.listener.react stream (s', calls)).1) : st'.Reachable := by
  rw [reachable_iff] at h ⊢
  rw [hst']
  have hsub : ∀ j addr, (st.listener.react stream (s', calls)).1.IsLive j →
      (st.listener.react stream (s', calls)).1.openAddr j = some addr →
      st.listener.IsLive j ∧ st.listener.openAddr j = some addr := fun j addr hl ha =>
    ⟨ListenerInner.react_isLive hcell hf hl, ListenerInner.openAddr_of_react hcell hf ha⟩
  have hconn : (st.listener.react stream (s', calls)).1.connections =
      if s.isErr = false ∧ s'.isErr then st.listener.connections.erase s.peerAddr
      else st.listener.connections := by
    rw [ListenerInner.react_forgets _ stream hf]
  rw [hconn]
  split_ifs with he
  · refine h.erase hsub fun j hl ha => ?_
    obtain ⟨hl', ha'⟩ := hsub j _ hl ha
    refine hfree he.1 he.2 j ?_ hl' ha'
    rintro rfl
    rw [ListenerInner.react_openAddr_self hcell hf, if_pos he.2] at ha
    cases ha
  · exact h.mono hsub

/-- The step leaves every healthy stream in the table. -/
def KeepsReachable (st : Server) (e : ServerEvent) : Prop :=
  ∀ st', serverStep st e = .ok st' → st'.Reachable

/-- When a healthy stream that has not finished both ways is dropped, the table yields nothing for
its address. -/
def SparesNewer (st : Server) : ServerEvent → Prop
  | .drop stream => ∀ c ∈ st.listener.streams[stream]?, c.live = false → stream ∉ st.dropped →
      c.inner.isErr = false → ¬(c.inner.sendFinished ∧ c.inner.recvFinished) →
        st.listener.upgrade c.inner.peerAddr = none
  | _ => True

instance (st : Server) (e : ServerEvent) : Decidable (SparesNewer st e) :=
  match e with
  | .drop stream => inferInstanceAs (Decidable (∀ c ∈ st.listener.streams[stream]?, _))
  | .recv _ _ _ => isTrue trivial
  | .accept => isTrue trivial
  | .call _ _ => isTrue trivial
  | .work _ _ _ _ => isTrue trivial
  | .release _ => isTrue trivial

theorem serverStep_drop {s : StreamInner} (hcell : st.listener.streams[stream]? = some ⟨s, false⟩)
    (hd : stream ∉ st.dropped) :
    serverStep st (.drop stream) = .ok { st with
      listener := (st.listener.react stream s.drop).1
      dropped := st.dropped ++ [stream] } := by
  rw [serverStep, hcell]
  dsimp only
  rw [if_neg hd]

/-- A drop that ends a stream must not find a live one under its address. -/
theorem sparesNewer_of_keepsReachable (hc : st.Consistent)
    (h : KeepsReachable st (.drop stream)) : SparesNewer st (.drop stream) := by
  rintro ⟨s, live⟩ hcell rfl hd he hfin
  dsimp only at he hfin ⊢
  by_contra hne
  obtain ⟨⟨j, s'⟩, hu⟩ := Option.ne_none_iff_exists'.1 hne
  obtain ⟨hentry, hcell'⟩ := upgrade_eq_some.1 hu
  have hj : j ≠ stream := by
    rintro rfl
    rw [show st.listener.streams[j]? = _ from hcell] at hcell'
    cases hcell'
  have hf := s.drop_performs.forgets
  have hends := drop_of_unfinished he hfin
  have hst' := reachable_iff.1 (h _ (serverStep_drop hcell hd))
  dsimp only at hst'
  have hlookup := hst' j s.peerAddr
    ⟨s', by rwa [ListenerInner.react_cell_of_ne hf hj]⟩
    (by rw [ListenerInner.react_openAddr_of_ne hf hj]; exact hc.filed _ _ hentry)
  rw [ListenerInner.react_forgets _ stream hf, if_pos ⟨he, hends⟩, AList.lookup_erase] at hlookup
  cases hlookup

theorem keepsReachable_of_sparesNewer (h : st.Reachable) (hs : SparesNewer st e) :
    KeepsReachable st e := by
  intro st' hstep
  cases step_result hstep with
  | stays => exact h
  | changes _ i s s' calls workers hcell hf =>
    refine h.react hcell hf (fun he _ j hj hl ha => hj ?_) rfl
    have hself := ListenerInner.openAddr_eq_some.2 ⟨s, true, hcell, he, rfl⟩
    exact (reachable_iff.1 h).unique hl ⟨s, hcell⟩ ha hself
  | @establishes _ addr _ n m hu =>
    rw [reachable_iff] at h ⊢
    refine h.insert (fun j k hj hl ha => ?_) (st.listener.establish_openAddr_self addr n m)
      ((reachable_iff.2 h).openAddr_ne hu)
    obtain ⟨s, hcell⟩ := hl
    rw [ListenerInner.establish_cell_of_ne _ _ _ _ hj] at hcell
    rw [ListenerInner.establish_openAddr_of_ne _ _ _ _ hj] at ha
    exact ⟨⟨s, hcell⟩, ha⟩
  | accepts queue accepted hq ha => exact h
  | releases i hq =>
    rw [reachable_iff] at h ⊢
    refine h.mono fun j k hl ha => ⟨ListenerInner.release_isLive hl, ?_⟩
    rwa [ListenerInner.release_openAddr] at ha
  | @drops i s hcell hd =>
    refine h.react hcell s.drop_performs.forgets (fun he hends j _ => ?_) rfl
    refine h.openAddr_ne (hs _ hcell rfl hd he fun hfin => ?_) j
    rw [drop_of_finished (.inr hfin), he] at hends
    cases hends

theorem keepsReachable_iff (hc : st.Consistent) (h : st.Reachable) (e : ServerEvent) :
    KeepsReachable st e ↔ SparesNewer st e := by
  refine ⟨fun hk => ?_, keepsReachable_of_sparesNewer h⟩
  cases e with
  | drop stream => exact sparesNewer_of_keepsReachable hc hk
  | _ => trivial

/-- A peer connects, its stream is accepted and given up, and the peer connects again before `Drop`
of the first stream has run. -/
def reconnection : List ServerEvent :=
  [.recv (Segment.establish 0).intoBytes (.v4 1 1) 0, .accept, .release 0,
    .recv (Segment.establish 5).intoBytes (.v4 1 1) 0]

/-- Had `Drop` run first, it would have spared the second stream. -/
example : Along serverStep SparesNewer .new (reconnection.take 3 ++ [.drop 0] ++
    reconnection.drop 3) := by decide

/-- The streams that have been created and not dropped yet. -/
def alive (st : Server) : List StreamId :=
  (List.range st.listener.streams.length).filter fun stream => stream ∉ st.dropped

/-- The table has no entry of a stream that has been dropped, and no more entries than there are
streams that have not. -/
structure NoDeadEntries (st : Server) : Prop where
  forgotten : ∀ stream ∈ st.dropped, ∀ addr, st.listener.connections.lookup addr ≠ some stream
  length_le : st.listener.connections.entries.length ≤ st.alive.length

theorem NoDeadEntries.of_forgotten (hc : st.Consistent)
    (h : ∀ stream ∈ st.dropped, ∀ addr, st.listener.connections.lookup addr ≠ some stream) :
    st.NoDeadEntries := by
  refine ⟨h, hc.filed.length_entries_le fun addr stream hentry => ?_⟩
  have hlt := ListenerInner.lt_of_openAddr (by rw [hc.filed addr stream hentry]; rfl)
  exact List.mem_filter.2 ⟨List.mem_range.2 hlt,
    decide_eq_true fun hd => h stream hd addr hentry⟩

theorem noDeadEntries_new : new.NoDeadEntries :=
  .of_forgotten consistent_new (by simp [new])

/-- The step leaves no dead entries. -/
def KeepsNoDeadEntries (st : Server) (e : ServerEvent) : Prop :=
  ∀ st', serverStep st e = .ok st' → st'.NoDeadEntries

/-- When a healthy stream that has finished both ways is dropped, the entry of its address is not
its own any more. -/
def DropsReplaced (st : Server) : ServerEvent → Prop
  | .drop stream => ∀ c ∈ st.listener.streams[stream]?, c.live = false → stream ∉ st.dropped →
      c.inner.isErr = false → c.inner.sendFinished → c.inner.recvFinished →
        st.listener.connections.lookup c.inner.peerAddr ≠ some stream
  | _ => True

instance (st : Server) (e : ServerEvent) : Decidable (DropsReplaced st e) :=
  match e with
  | .drop stream => inferInstanceAs (Decidable (∀ c ∈ st.listener.streams[stream]?, _))
  | .recv _ _ _ => isTrue trivial
  | .accept => isTrue trivial
  | .call _ _ => isTrue trivial
  | .work _ _ _ _ => isTrue trivial
  | .release _ => isTrue trivial

/-- An entry that is there after something has been done to a stream was there before. -/
theorem lookup_of_react {s s' : StreamInner} {calls : List ListenerCall} {j : StreamId}
    {addr : SocketAddr} (hf : s.Forgets s' calls)
    (h : (st.listener.react stream (s', calls)).1.connections.lookup addr = some j) :
    st.listener.connections.lookup addr = some j := by
  rw [ListenerInner.react_forgets _ stream hf] at h
  dsimp only at h
  split_ifs at h
  · exact (lookup_erase_eq_some.1 h).2
  · exact h

/-- After its `Drop` a stream has no entry, unless it has finished both ways and still had one. -/
theorem lookup_ne_of_drop (hc : st.Consistent) {s : StreamInner} {live : Bool}
    (hcell : st.listener.streams[stream]? = some ⟨s, live⟩)
    (hfin : s.isErr = false → s.sendFinished → s.recvFinished →
      st.listener.connections.lookup s.peerAddr ≠ some stream) (addr : SocketAddr) :
    (st.listener.react stream s.drop).1.connections.lookup addr ≠ some stream := by
  have hf := s.drop_performs.forgets
  have hself := ListenerInner.openAddr_of_cell hcell
  intro h
  have hold := lookup_of_react hf h
  have haddr := hc.filed addr stream hold
  rw [hself] at haddr
  cases he : s.isErr with
  | true => simp [he] at haddr
  | false =>
    rw [he] at haddr
    obtain rfl : s.peerAddr = addr := Option.some.inj haddr
    by_cases hboth : s.sendFinished ∧ s.recvFinished
    · exact hfin he hboth.1 hboth.2 hold
    · rw [ListenerInner.react_forgets _ stream hf] at h
      dsimp only at h
      rw [if_pos ⟨he, drop_of_unfinished he hboth⟩, AList.lookup_erase] at h
      cases h

/-- A drop must not leave the entry of its stream. -/
theorem dropsReplaced_of_keepsNoDeadEntries
    (h : KeepsNoDeadEntries st (.drop stream)) : DropsReplaced st (.drop stream) := by
  rintro ⟨s, live⟩ hcell rfl hd he hsend hrecv hentry
  dsimp only at he hsend hrecv hentry
  refine (h _ (serverStep_drop hcell hd)).forgotten stream (by simp) s.peerAddr ?_
  dsimp only
  rw [drop_of_finished (.inr ⟨hsend, hrecv⟩)]
  exact hentry

theorem keepsNoDeadEntries_of_dropsReplaced (hc : st.Consistent) (h : st.NoDeadEntries)
    (hs : DropsReplaced st e) : KeepsNoDeadEntries st e := by
  intro st' hstep
  refine .of_forgotten (hc.step hstep) ?_
  cases step_result hstep with
  | stays => exact h.forgotten
  | changes _ i s s' calls workers hcell hf =>
    exact fun j hj addr hentry => h.forgotten j hj addr (lookup_of_react hf hentry)
  | @establishes _ addr _ n m hu =>
    intro j hj addr' hentry
    rcases lookup_insert_eq_some.1 hentry with ⟨-, rfl⟩ | ⟨-, hentry⟩
    · obtain ⟨s, hcell⟩ := hc.released _ hj
      simp at hcell
    · exact h.forgotten j hj addr' hentry
  | accepts queue accepted hq ha => exact h.forgotten
  | releases i hq => exact h.forgotten
  | @drops i s hcell hd =>
    intro j hj addr hentry
    rcases List.mem_append.1 hj with hj | hj
    · exact h.forgotten j hj addr (lookup_of_react s.drop_performs.forgets hentry)
    · rw [List.mem_singleton.1 hj] at hentry
      exact lookup_ne_of_drop hc hcell (hs _ hcell rfl hd) addr hentry

theorem keepsNoDeadEntries_iff (hc : st.Consistent) (h : st.NoDeadEntries) (e : ServerEvent) :
    KeepsNoDeadEntries st e ↔ DropsReplaced st e := by
  refine ⟨fun hk => ?_, keepsNoDeadEntries_of_dropsReplaced hc h⟩
  cases e with
  | drop stream => exact dropsReplaced_of_keepsNoDeadEntries hk
  | _ => trivial

/-- A connection is opened, finished both ways with everything acknowledged, and given up. -/
def gracefulEnd : List ServerEvent :=
  [.recv (Segment.establish 0).intoBytes (.v4 1 1) 0, .accept,
    .recv (Segment.sequential 1 .finish).intoBytes (.v4 1 1) 0, .call 0 (.read 1),
    .call 0 .finishWrite, .work 0 0 0 (.ok ()), .work 0 0 0 (.ok ()), .work 0 0 0 (.ok ()),
    .work 0 0 0 (.ok ()), .work 0 0 0 (.ok ()),
    .recv (Segment.acknowledge 1).intoBytes (.v4 1 1) 0, .call 0 .finishWritePoll, .release 0]

/-- If the peer connects again before `Drop` runs, no entry is left. -/
example : Along serverStep DropsReplaced .new (gracefulEnd ++
    [.recv (Segment.establish 5).intoBytes (.v4 1 1) 0, .drop 0]) := by decide

end Server

end Mdswp
