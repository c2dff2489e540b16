import Mdswp.Foundations.Run
import Mdswp.Foundations.Selection
import Mdswp.Listener.Server

/-!
# One peer at a time

`Server.narrow` is what a server is to one address: the streams of that address, with their workers,
their places in the queue and their entry in the table. The streams are numbered again, in the order
of their creation.

Each step of a server is a step of what it is to the address, or leaves that as it is. So a server
serves every address as if it had no other (`run_narrow`): whatever other peers send, and whatever
is done with their streams, the streams of an address go through the same states as they do alone.
-/

namespace Mdswp

open StreamInner Registry Selection

/-- The stream is to the address. -/
def StreamCell.isAt (addr : SocketAddr) (c : StreamCell) : Bool := c.inner.peerAddr = addr

namespace ListenerInner

/-- The number of a stream among those of the address, if it is one of them. -/
def place (l : ListenerInner) (addr : SocketAddr) (stream : StreamId) : Option StreamId :=
  rank (StreamCell.isAt addr) l.streams stream

/-- What a listener is to an address. -/
def narrow (l : ListenerInner) (addr : SocketAddr) : ListenerInner where
  connections :=
    match (l.connections.lookup addr).bind (l.place addr) with
    | some stream => AList.singleton addr stream
    | none => ∅
  toAccept := l.toAccept.filterMap (l.place addr)
  error := l.error
  streams := l.streams.filter (StreamCell.isAt addr)

/-- The workers of the streams of the address, by their numbers among these. -/
def narrowWorkers (l : ListenerInner) (addr : SocketAddr) (workers : StreamId → WorkerPc)
    (k : StreamId) : WorkerPc :=
  match (picks (StreamCell.isAt addr) l.streams)[k]? with
  | some stream => workers stream
  | none => .check

end ListenerInner

namespace Server

/-- What a server is to an address. -/
def narrow (st : Server) (addr : SocketAddr) : Server where
  listener := st.listener.narrow addr
  workers := st.listener.narrowWorkers addr st.workers
  dropped := st.dropped.filterMap (st.listener.place addr)
  accepted := st.accepted.filterMap (st.listener.place addr)

/-- What an event is to an address, if anything. A stream is accepted for its own address. -/
def narrowEvent (addr : SocketAddr) (st : Server) : ServerEvent → Option ServerEvent
  | .recv data sender acceptSeqNum =>
    if sender = addr then some (.recv data addr acceptSeqNum) else none
  | .accept => (st.listener.toAccept.head?.bind (st.listener.place addr)).map fun _ => .accept
  | .call stream op => (st.listener.place addr stream).map fun k => .call k op
  | .work stream t t' sent => (st.listener.place addr stream).map fun k => .work k t t' sent
  | .release stream => (st.listener.place addr stream).map .release
  | .drop stream => (st.listener.place addr stream).map .drop

end Server

namespace ListenerInner

variable {l : ListenerInner} {addr sender : SocketAddr} {stream k : StreamId} {s s' : StreamInner}
  {live : Bool} {calls : List ListenerCall}

theorem place_eq_none (hcell : l.streams[stream]? = some ⟨s, live⟩) :
    l.place addr stream = none ↔ s.peerAddr ≠ addr := by
  rw [place, rank_eq_none_iff, hcell]
  simp [StreamCell.isAt]

theorem exists_place (hcell : l.streams[stream]? = some ⟨s, live⟩) (h : s.peerAddr = addr) :
    ∃ k, l.place addr stream = some k := exists_rank hcell (by simp [StreamCell.isAt, h])

theorem narrow_cell (h : l.place addr stream = some k) :
    (l.narrow addr).streams[k]? = l.streams[stream]? := getElem?_filter_of_rank h

theorem peerAddr_of_place (h : l.place addr stream = some k)
    (hcell : l.streams[stream]? = some ⟨s, live⟩) : s.peerAddr = addr := by
  by_contra hne
  rw [(place_eq_none hcell).2 hne] at h
  cases h

theorem mem_filterMap_place (h : l.place addr stream = some k) {streams : List StreamId} :
    k ∈ streams.filterMap (l.place addr) ↔ stream ∈ streams := by
  rw [List.mem_filterMap]
  constructor
  · rintro ⟨j, hj, hk⟩
    exact rank_inj hk h ▸ hj
  · exact fun hm => ⟨stream, hm, h⟩

theorem narrow_lookup (l : ListenerInner) (addr : SocketAddr) :
    (l.narrow addr).connections.lookup addr = (l.connections.lookup addr).bind (l.place addr) := by
  unfold narrow
  cases (l.connections.lookup addr).bind (l.place addr) with
  | none => rfl
  | some k =>
    dsimp only
    rw [← AList.insert_empty, AList.lookup_insert]

theorem narrow_upgrade (hf : Filed l.openAddr l.connections)
    (hu : l.upgrade addr = some (stream, s)) :
    ∃ k, l.place addr stream = some k ∧ (l.narrow addr).upgrade addr = some (k, s) := by
  obtain ⟨hl, hcell⟩ := Server.upgrade_eq_some.1 hu
  obtain ⟨s₀, live, hcell', -, haddr⟩ := openAddr_eq_some.1 (hf addr stream hl)
  rw [hcell] at hcell'
  cases hcell'
  obtain ⟨k, hk⟩ := exists_place hcell haddr
  refine ⟨k, hk, Server.upgrade_eq_some.2 ⟨?_, (narrow_cell hk).trans hcell⟩⟩
  rw [narrow_lookup, hl, Option.bind_some, hk]

theorem narrow_upgrade_of_none (hu : l.upgrade addr = none) :
    (l.narrow addr).upgrade addr = none := by
  by_contra hne
  obtain ⟨⟨k, s⟩, hks⟩ := Option.ne_none_iff_exists'.1 hne
  obtain ⟨hl, hcell⟩ := Server.upgrade_eq_some.1 hks
  rw [narrow_lookup] at hl
  obtain ⟨stream, hstream, hk⟩ := Option.bind_eq_some_iff.1 hl
  rw [narrow_cell hk] at hcell
  rw [Server.upgrade_eq_some.2 ⟨hstream, hcell⟩] at hu
  cases hu

/-! ## Changes of a listener -/

section Modify

variable {f : StreamCell → StreamCell}
  (hat : ∀ c, l.streams[stream]? = some c → (f c).isAt addr = c.isAt addr)
include hat

theorem place_modify :
    place { l with streams := l.streams.modify stream f } addr = l.place addr := by
  funext j
  exact rank_modify hat j

/-- A stream of the address changes. -/
theorem narrow_modify (hk : l.place addr stream = some k) :
    narrow { l with streams := l.streams.modify stream f } addr =
      { l.narrow addr with streams := (l.narrow addr).streams.modify k f } := by
  unfold narrow
  rw [place_modify hat, filter_modify_of_rank hat hk]

theorem narrow_modify_of_none (hk : l.place addr stream = none) :
    narrow { l with streams := l.streams.modify stream f } addr = l.narrow addr := by
  unfold narrow
  rw [place_modify hat, filter_modify_of_not hat hk]

end Modify

theorem narrow_erase (l : ListenerInner) (addr : SocketAddr) :
    narrow { l with connections := l.connections.erase addr } addr =
      { l.narrow addr with connections := (l.narrow addr).connections.erase addr } := by
  unfold narrow
  rw [AList.lookup_erase]
  cases (l.connections.lookup addr).bind (l.place addr) with
  | none => rfl
  | some k =>
    dsimp only
    rw [erase_singleton]
    rfl

theorem narrow_erase_of_ne (l : ListenerInner) (h : addr ≠ sender) :
    narrow { l with connections := l.connections.erase sender } addr = l.narrow addr := by
  unfold narrow
  rw [AList.lookup_erase_ne h]
  rfl

/-- Whatever is done to a stream, it keeps its address. -/
theorem isAt_react (hf : s.Forgets s' calls) (hcell : l.streams[stream]? = some ⟨s, live⟩)
    (addr : SocketAddr) : ∀ c, l.streams[stream]? = some c →
      StreamCell.isAt addr { c with inner := s' } = c.isAt addr := by
  intro c hc
  obtain rfl := Option.some.inj (hcell.symm.trans hc)
  simp [StreamCell.isAt, hf.peerAddr_eq]

theorem picks_react (hf : s.Forgets s' calls) (hcell : l.streams[stream]? = some ⟨s, live⟩)
    (addr : SocketAddr) : picks (StreamCell.isAt addr) (l.react stream (s', calls)).1.streams =
      picks (StreamCell.isAt addr) l.streams := by
  rw [react_forgets l stream hf]
  exact picks_modify (isAt_react hf hcell addr)

/-- What is done to a stream of the address. -/
theorem narrow_react (hf : s.Forgets s' calls) (hcell : l.streams[stream]? = some ⟨s, live⟩)
    (hk : l.place addr stream = some k) :
    (l.react stream (s', calls)).1.narrow addr = ((l.narrow addr).react k (s', calls)).1 := by
  have haddr := peerAddr_of_place hk hcell
  have hat := isAt_react hf hcell addr
  rw [react_forgets l stream hf, react_forgets (l.narrow addr) k hf, haddr]
  split_ifs with he
  · have h₁ := narrow_erase { l with
      streams := l.streams.modify stream fun c => { c with inner := s' } } addr
    rw [narrow_modify hat hk] at h₁
    exact h₁
  · exact narrow_modify hat hk

/-- What is done to another one. -/
theorem narrow_react_of_none (hf : s.Forgets s' calls)
    (hcell : l.streams[stream]? = some ⟨s, live⟩) (hk : l.place addr stream = none) :
    (l.react stream (s', calls)).1.narrow addr = l.narrow addr := by
  have hne := (place_eq_none hcell).1 hk
  have hat := isAt_react hf hcell addr
  rw [react_forgets l stream hf]
  split_ifs with he
  · have h₁ := narrow_erase_of_ne { l with
      streams := l.streams.modify stream fun c => { c with inner := s' } } hne.symm
    rw [narrow_modify_of_none hat hk] at h₁
    exact h₁
  · exact narrow_modify_of_none hat hk

theorem narrow_release (hk : l.place addr stream = some k) :
    (l.release stream).narrow addr = (l.narrow addr).release k :=
  narrow_modify (fun _ _ => rfl) hk

theorem narrow_release_of_none (hk : l.place addr stream = none) :
    (l.release stream).narrow addr = l.narrow addr :=
  narrow_modify_of_none (fun _ _ => rfl) hk

section Establish

variable (l) (e n : SequenceNumber)

theorem place_establish (hs : stream < l.streams.length) :
    (l.establish sender e n).place addr stream = l.place addr stream := rank_concat hs _

theorem filterMap_place_establish {streams : List StreamId}
    (hs : ∀ i ∈ streams, i < l.streams.length) :
    streams.filterMap ((l.establish sender e n).place addr) = streams.filterMap (l.place addr) :=
  List.filterMap_congr fun i hi => l.place_establish e n (hs i hi)

/-- A new stream for the address. -/
theorem narrow_establish (hq : ∀ i ∈ l.toAccept, i < l.streams.length) :
    (l.establish addr e n).narrow addr = (l.narrow addr).establish addr e n := by
  have hnew : (l.establish addr e n).place addr l.streams.length =
      some (l.streams.filter (StreamCell.isAt addr)).length :=
    rank_concat_self (by simp [StreamCell.isAt, newByPeer])
  have hlookup : ((l.establish addr e n).connections.lookup addr).bind
      ((l.establish addr e n).place addr) =
        some (l.streams.filter (StreamCell.isAt addr)).length := by
    rw [← hnew]
    exact congrArg (Option.bind · _) (AList.lookup_insert l.connections)
  have hconnections : ((l.establish addr e n).narrow addr).connections =
      (l.narrow addr).connections.insert addr (l.narrow addr).streams.length := by
    unfold narrow
    rw [hlookup]
    cases (l.connections.lookup addr).bind (l.place addr) with
    | none => exact (AList.insert_empty addr _).symm
    | some j => exact AList.insert_singleton_eq.symm
  have hqueue : (l.toAccept ++ [l.streams.length]).filterMap ((l.establish addr e n).place addr) =
      (l.narrow addr).toAccept ++ [(l.narrow addr).streams.length] := by
    rw [List.filterMap_append, l.filterMap_place_establish e n hq, List.filterMap_cons, hnew]
    rfl
  have hstreams : (l.streams ++ [StreamCell.mk (newByPeer addr e n) true]).filter
      (StreamCell.isAt addr) = (l.narrow addr).streams ++ [⟨newByPeer addr e n, true⟩] := by
    rw [List.filter_append, List.filter_singleton]
    simp [StreamCell.isAt, newByPeer, narrow]
  show ListenerInner.mk _ _ _ _ = ListenerInner.mk _ _ _ _
  rw [ListenerInner.mk.injEq]
  exact ⟨hconnections, hqueue, rfl, hstreams⟩

/-- A new stream for another address. -/
theorem narrow_establish_of_ne (hne : sender ≠ addr)
    (hq : ∀ i ∈ l.toAccept, i < l.streams.length)
    (hl : ∀ i, l.connections.lookup addr = some i → i < l.streams.length) :
    (l.establish sender e n).narrow addr = l.narrow addr := by
  have hnew : (l.establish sender e n).place addr l.streams.length = none := by
    rw [place_eq_none (l.establish_cell_self sender e n)]
    exact hne
  have hlookup : ((l.establish sender e n).connections.lookup addr).bind
      ((l.establish sender e n).place addr) = (l.connections.lookup addr).bind (l.place addr) := by
    have hold : (l.establish sender e n).connections.lookup addr = l.connections.lookup addr :=
      AList.lookup_insert_ne hne.symm
    rw [hold]
    cases h : l.connections.lookup addr with
    | none => rfl
    | some i => exact l.place_establish e n (hl i h)
  have hqueue : (l.toAccept ++ [l.streams.length]).filterMap
      ((l.establish sender e n).place addr) = l.toAccept.filterMap (l.place addr) := by
    rw [List.filterMap_append, l.filterMap_place_establish e n hq, List.filterMap_cons, hnew]
    exact List.append_nil _
  have hstreams : (l.streams ++ [StreamCell.mk (newByPeer sender e n) true]).filter
      (StreamCell.isAt addr) = l.streams.filter (StreamCell.isAt addr) := by
    rw [List.filter_append, List.filter_singleton]
    simp [StreamCell.isAt, newByPeer, hne]
  unfold narrow
  rw [hlookup]
  show ListenerInner.mk _ _ _ _ = ListenerInner.mk _ _ _ _
  rw [ListenerInner.mk.injEq]
  exact ⟨rfl, hqueue, rfl, hstreams⟩

end Establish

/-! ## The workers -/

section Workers

variable {workers : StreamId → WorkerPc}

theorem narrowWorkers_of_place (hk : l.place addr stream = some k) :
    l.narrowWorkers addr workers k = workers stream := by
  rw [narrowWorkers, rank_eq_some_iff.1 hk]

theorem narrowWorkers_congr {l' : ListenerInner}
    (hp : picks (StreamCell.isAt addr) l'.streams = picks (StreamCell.isAt addr) l.streams) :
    l'.narrowWorkers addr workers = l.narrowWorkers addr workers := by
  funext k
  rw [narrowWorkers, hp, narrowWorkers]

theorem narrowWorkers_update (hk : l.place addr stream = some k) (pc : WorkerPc) :
    l.narrowWorkers addr (Function.update workers stream pc) =
      Function.update (l.narrowWorkers addr workers) k pc := by
  funext j
  by_cases hj : j = k
  · subst hj
    rw [narrowWorkers_of_place hk, Function.update_self, Function.update_self]
  · rw [Function.update_of_ne hj, narrowWorkers, narrowWorkers]
    cases hi : (picks (StreamCell.isAt addr) l.streams)[j]? with
    | none => rfl
    | some i =>
      refine Function.update_of_ne ?_ _ _
      rintro rfl
      rw [← rank_eq_some_iff] at hi
      exact hj (Option.some.inj (hi.symm.trans hk))

theorem narrowWorkers_update_of_none (hk : l.place addr stream = none) (pc : WorkerPc) :
    l.narrowWorkers addr (Function.update workers stream pc) = l.narrowWorkers addr workers := by
  funext j
  rw [narrowWorkers, narrowWorkers]
  cases hi : (picks (StreamCell.isAt addr) l.streams)[j]? with
  | none => rfl
  | some i =>
    refine Function.update_of_ne ?_ _ _
    rintro rfl
    rw [← rank_eq_some_iff] at hi
    cases hi.symm.trans hk

/-- The worker of a new stream is about to start. -/
theorem narrowWorkers_establish (hw : ∀ i, l.streams.length ≤ i → workers i = .check)
    (e n : SequenceNumber) :
    (l.establish sender e n).narrowWorkers addr workers = l.narrowWorkers addr workers := by
  funext j
  have hp : picks (StreamCell.isAt addr) (l.establish sender e n).streams = _ := picks_concat _ _ _
  rw [narrowWorkers, hp, narrowWorkers, List.getElem?_append]
  split_ifs with hj hat
  · rfl
  · rw [List.getElem?_eq_none (Nat.not_lt.1 hj)]
    cases hi : [l.streams.length][j - (picks (StreamCell.isAt addr) l.streams).length]? with
    | none => rfl
    | some i =>
      obtain rfl := List.mem_singleton.1 (List.mem_of_getElem? hi)
      exact hw _ le_rfl
  · rw [List.getElem?_eq_none (Nat.not_lt.1 hj), List.getElem?_nil]

end Workers

end ListenerInner

namespace Server

variable {st st' : Server} {e : ServerEvent} {addr : SocketAddr} {stream k : StreamId}

/-- The table is consistent, and only streams that are there are known. -/
structure Bounded (st : Server) : Prop where
  consistent : st.Consistent
  queue : ∀ i ∈ st.listener.toAccept, i < st.listener.streams.length
  accepted : ∀ i ∈ st.accepted, i < st.listener.streams.length
  workers : ∀ i, st.listener.streams.length ≤ i → st.workers i = .check

theorem bounded_new : new.Bounded where
  consistent := consistent_new
  queue := nofun
  accepted := nofun
  workers _ _ := rfl

namespace Bounded

theorem lookup (h : st.Bounded) {i : StreamId}
    (hl : st.listener.connections.lookup addr = some i) : i < st.listener.streams.length := by
  have hopen := h.consistent.filed addr i hl
  exact ListenerInner.lt_of_openAddr (hopen ▸ rfl)

theorem dropped (h : st.Bounded) : ∀ i ∈ st.dropped, i < st.listener.streams.length := by
  intro i hi
  obtain ⟨s, hs⟩ := h.consistent.released i hi
  exact (List.getElem?_eq_some_iff.1 hs).1

/-- No worker of a stream that is not there takes a step. -/
theorem workers_eq (hs : serverStep st e = .ok st') {i : StreamId}
    (hi : st.listener.streams.length ≤ i) : st'.workers i = st.workers i := by
  cases e with
  | recv data sender n =>
    obtain ⟨x, -, rfl⟩ := exists_of_map_eq_ok hs
    rfl
  | accept =>
    obtain rfl := Except.ok.inj hs
    rfl
  | call stream op =>
    rw [serverStep] at hs
    split_ifs at hs
    · unfold call at hs
      split at hs
      · obtain ⟨x, -, rfl⟩ := exists_of_map_eq_ok hs
        rfl
      · obtain rfl := Except.ok.inj hs
        rfl
    · obtain rfl := Except.ok.inj hs
      rfl
  | work stream t t' sent =>
    rw [serverStep, work] at hs
    split at hs
    · rename_i conn hcell
      have hne : i ≠ stream := by
        rintro rfl
        exact absurd (List.getElem?_eq_some_iff.1 hcell).1 (Nat.not_lt.2 hi)
      have hworked : ∀ x, (st.worked stream x).workers i = st.workers i :=
        fun x => Function.update_of_ne hne _ _
      split at hs
      · obtain rfl := Except.ok.inj hs
        exact hworked _
      · obtain rfl := Except.ok.inj hs
        exact hworked _
      · obtain ⟨x, -, rfl⟩ := exists_of_map_eq_ok hs
        exact hworked x
      · obtain rfl := Except.ok.inj hs
        rfl
    · obtain rfl := Except.ok.inj hs
      rfl
  | release stream =>
    rw [serverStep] at hs
    split at hs
    · split_ifs at hs
      · obtain rfl := Except.ok.inj hs
        rfl
      · obtain rfl := Except.ok.inj hs
        rfl
    · obtain rfl := Except.ok.inj hs
      rfl
  | drop stream =>
    rw [serverStep] at hs
    split at hs
    · split_ifs at hs
      · obtain rfl := Except.ok.inj hs
        rfl
      · obtain rfl := Except.ok.inj hs
        rfl
    · obtain rfl := Except.ok.inj hs
      rfl

/-- The queue loses its front at most, and only what was there is returned. -/
theorem acceptNonblocking_mem (l : ListenerInner) :
    (∀ i ∈ l.acceptNonblocking.2.toAccept, i ∈ l.toAccept) ∧
      ∀ i ∈ returned l.acceptNonblocking.1, i ∈ l.toAccept := by
  unfold ListenerInner.acceptNonblocking
  split
  · exact ⟨fun _ hi => hi, nofun⟩
  split
  · exact ⟨fun _ hi => hi, nofun⟩
  rename_i stream rest hq
  rw [hq]
  dsimp only
  split
  · split
    · exact ⟨fun _ hi => List.mem_cons_of_mem _ hi, nofun⟩
    · refine ⟨fun _ hi => List.mem_cons_of_mem _ hi, fun i hi => ?_⟩
      obtain rfl := List.mem_singleton.1 hi
      exact List.mem_cons_self
  · exact ⟨fun _ hi => List.mem_cons_of_mem _ hi, nofun⟩

/-- No stream disappears. -/
theorem of_length_le (h : st.Bounded) (hs : serverStep st e = .ok st')
    (hlen : st.listener.streams.length ≤ st'.listener.streams.length)
    (hq : ∀ i ∈ st'.listener.toAccept,
      i ∈ st.listener.toAccept ∨ i < st'.listener.streams.length)
    (ha : ∀ i ∈ st'.accepted, i ∈ st.accepted ∨ i ∈ st.listener.toAccept) : st'.Bounded where
  consistent := h.consistent.step hs
  queue i hi := (hq i hi).elim (fun hm => (h.queue i hm).trans_le hlen) id
  accepted i hi := (ha i hi).elim (fun hm => (h.accepted i hm).trans_le hlen)
    fun hm => (h.queue i hm).trans_le hlen
  workers i hi := (workers_eq hs (hlen.trans hi)).trans (h.workers i (hlen.trans hi))

theorem step (h : st.Bounded) (hs : serverStep st e = .ok st') : st'.Bounded := by
  have hreact : ∀ (stream) {s s' calls}, StreamInner.Forgets s s' calls →
      (st.listener.react stream (s', calls)).1.streams.length = st.listener.streams.length ∧
        (st.listener.react stream (s', calls)).1.toAccept = st.listener.toAccept := by
    intro stream s s' calls hf
    rw [ListenerInner.react_forgets st.listener stream hf]
    exact ⟨List.length_modify _ _ _, rfl⟩
  have hres := step_result hs
  cases hres with
  | stays => exact h
  | changes _ stream s s' calls workers hcell hf =>
    obtain ⟨hlen, hq⟩ := hreact stream hf
    exact h.of_length_le hs hlen.ge (fun i hi => .inl (hq ▸ hi)) fun i hi => .inl hi
  | establishes e n hu =>
    refine h.of_length_le hs ?_ (fun i hi => ?_) fun i hi => .inl hi
    · simp [ListenerInner.establish]
    · rcases List.mem_append.1 hi with hi | hi
      · exact .inl hi
      · rw [List.mem_singleton.1 hi]
        exact .inr (by simp [ListenerInner.establish])
  | accepts queue accepted hq ha =>
    obtain ⟨hrest, hret⟩ := acceptNonblocking_mem st.listener
    refine h.of_length_le hs le_rfl (fun i hi => .inl (hrest i (hq ▸ hi))) fun i hi => ?_
    rw [ha] at hi
    exact (List.mem_append.1 hi).imp_right (hret i)
  | releases stream hq =>
    refine h.of_length_le hs ?_ (fun i hi => .inl hi) fun i hi => .inl hi
    simp [ListenerInner.release]
  | @drops stream s hcell hd =>
    obtain ⟨hlen, hq⟩ := hreact stream s.drop_performs.forgets
    exact h.of_length_le hs hlen.ge (fun i hi => .inl (hq ▸ hi)) fun i hi => .inl hi

end Bounded

/-! ## Every step -/

/-- As long as the same streams are there, they have the same places. -/
theorem narrow_eq (hp : picks (StreamCell.isAt addr) st'.listener.streams =
    picks (StreamCell.isAt addr) st.listener.streams) : st'.narrow addr =
      { listener := st'.listener.narrow addr
        workers := st.listener.narrowWorkers addr st'.workers
        dropped := st'.dropped.filterMap (st.listener.place addr)
        accepted := st'.accepted.filterMap (st.listener.place addr) } := by
  have hplace : st'.listener.place addr = st.listener.place addr := by
    funext i
    rw [ListenerInner.place, rank, hp]
    rfl
  rw [narrow, ListenerInner.narrowWorkers_congr hp, hplace]

section Changes

variable {s s' : StreamInner} {live : Bool} {calls : List ListenerCall} {pc : WorkerPc}
  (hcell : st.listener.streams[stream]? = some ⟨s, live⟩)
include hcell

/-- A stream of the address changes. -/
theorem narrow_changes (hf : s.Forgets s' calls) (hk : st.listener.place addr stream = some k) :
    narrow { st with listener := (st.listener.react stream (s', calls)).1 } addr =
      { st.narrow addr with
        listener := ((st.listener.narrow addr).react k (s', calls)).1 } := by
  rw [narrow_eq (ListenerInner.picks_react hf hcell addr), ListenerInner.narrow_react hf hcell hk,
    narrow]

theorem narrow_changes_of_none (hf : s.Forgets s' calls)
    (hk : st.listener.place addr stream = none) :
    narrow { st with listener := (st.listener.react stream (s', calls)).1 } addr =
      st.narrow addr := by
  rw [narrow_eq (ListenerInner.picks_react hf hcell addr),
    ListenerInner.narrow_react_of_none hf hcell hk, narrow]

/-- Its worker has taken a step. -/
theorem narrow_worked (hf : s.Forgets s' calls) (hk : st.listener.place addr stream = some k) :
    (st.worked stream (s', calls, pc)).narrow addr =
      (st.narrow addr).worked k (s', calls, pc) := by
  rw [worked, narrow_eq (ListenerInner.picks_react hf hcell addr),
    ListenerInner.narrow_react hf hcell hk, ListenerInner.narrowWorkers_update hk, worked, narrow]

theorem narrow_worked_of_none (hf : s.Forgets s' calls)
    (hk : st.listener.place addr stream = none) :
    (st.worked stream (s', calls, pc)).narrow addr = st.narrow addr := by
  rw [worked, narrow_eq (ListenerInner.picks_react hf hcell addr),
    ListenerInner.narrow_react_of_none hf hcell hk, ListenerInner.narrowWorkers_update_of_none hk,
    narrow]

/-- Its `Drop` has run. -/
theorem narrow_dropping (hk : st.listener.place addr stream = some k) :
    narrow { st with
      listener := (st.listener.react stream s.drop).1
      dropped := st.dropped ++ [stream] } addr =
      { st.narrow addr with
        listener := ((st.listener.narrow addr).react k s.drop).1
        dropped := (st.narrow addr).dropped ++ [k] } := by
  have hf := s.drop_performs.forgets
  rw [narrow_eq (ListenerInner.picks_react hf hcell addr), ListenerInner.narrow_react hf hcell hk,
    List.filterMap_append, List.filterMap_cons, hk, narrow]
  rfl

theorem narrow_dropping_of_none (hk : st.listener.place addr stream = none) :
    narrow { st with
      listener := (st.listener.react stream s.drop).1
      dropped := st.dropped ++ [stream] } addr = st.narrow addr := by
  have hf := s.drop_performs.forgets
  rw [narrow_eq (ListenerInner.picks_react hf hcell addr),
    ListenerInner.narrow_react_of_none hf hcell hk, List.filterMap_append, List.filterMap_cons, hk,
    List.filterMap_nil, List.append_nil, narrow]

end Changes

/-- The last reference to a stream has disappeared. -/
theorem narrow_released (st : Server) (addr : SocketAddr) (stream : StreamId) :
    narrow { st with listener := st.listener.release stream } addr =
      { st.narrow addr with listener := (st.listener.release stream).narrow addr } := by
  have hp : picks (StreamCell.isAt addr) (st.listener.release stream).streams =
      picks (StreamCell.isAt addr) st.listener.streams := picks_modify fun _ _ => rfl
  rw [narrow_eq hp, narrow]

namespace Bounded

variable (h : st.Bounded) (e n : SequenceNumber)
include h

/-- A new stream for the address. -/
theorem narrow_establish :
    narrow { st with listener := st.listener.establish addr e n } addr =
      { st.narrow addr with listener := (st.listener.narrow addr).establish addr e n } := by
  unfold narrow
  rw [st.listener.narrow_establish e n h.queue, ListenerInner.narrowWorkers_establish h.workers,
    st.listener.filterMap_place_establish e n h.dropped,
    st.listener.filterMap_place_establish e n h.accepted]

/-- A new stream for another address. -/
theorem narrow_establish_of_ne {sender : SocketAddr} (hne : sender ≠ addr) :
    narrow { st with listener := st.listener.establish sender e n } addr = st.narrow addr := by
  unfold narrow
  rw [st.listener.narrow_establish_of_ne e n hne h.queue fun i hi => h.lookup hi,
    ListenerInner.narrowWorkers_establish h.workers,
    st.listener.filterMap_place_establish e n h.dropped,
    st.listener.filterMap_place_establish e n h.accepted]

end Bounded

/-- A datagram of the address. -/
theorem Bounded.narrow_recv (h : st.Bounded) {data : List UInt8} {n : SequenceNumber}
    (hs : serverStep st (.recv data addr n) = .ok st') :
    serverStep (st.narrow addr) (.recv data addr n) = .ok (st'.narrow addr) := by
  obtain ⟨⟨l, out⟩, hr, rfl⟩ := exists_of_map_eq_ok hs
  rw [ListenerInner.recv] at hr
  cases hu : st.listener.upgrade addr with
  | some x =>
    obtain ⟨stream, s⟩ := x
    obtain ⟨-, hcell⟩ := upgrade_eq_some.1 hu
    obtain ⟨k, hk, hu'⟩ := ListenerInner.narrow_upgrade h.consistent.filed hu
    rw [hu] at hr
    dsimp only at hr
    rw [serverStep, ListenerInner.recv, show (st.narrow addr).listener.upgrade addr = _ from hu']
    dsimp only
    cases hd : Segment.tryFrom data with
    | error err =>
      rw [hd] at hr
      obtain rfl : _ = l := congrArg Prod.fst (Except.ok.inj hr)
      exact congrArg Except.ok (narrow_changes hcell (s.forgets_error err true) hk).symm
    | ok segment =>
      rw [hd] at hr
      obtain ⟨⟨s', calls⟩, hseg, heq⟩ := exists_of_map_eq_ok hr
      obtain rfl : _ = l := congrArg Prod.fst heq
      have hp : (Operation.recvSegment segment).perform s = .ok (s', calls) := hseg
      dsimp only
      rw [hseg]
      exact congrArg Except.ok (narrow_changes hcell (perform_performs hp).forgets hk).symm
  | none =>
    have hu' := ListenerInner.narrow_upgrade_of_none hu
    rw [hu] at hr
    dsimp only at hr
    rw [serverStep, ListenerInner.recv, show (st.narrow addr).listener.upgrade addr = _ from hu']
    dsimp only
    split at hr
    · rename_i e hd
      obtain rfl : _ = l := congrArg Prod.fst (Except.ok.inj hr)
      exact congrArg Except.ok (h.narrow_establish e n).symm
    · obtain rfl : _ = l := congrArg Prod.fst (Except.ok.inj hr)
      rfl

/-- A datagram of another address. -/
theorem Bounded.narrow_recv_of_ne (h : st.Bounded) {data : List UInt8} {sender : SocketAddr}
    {n : SequenceNumber} (hne : sender ≠ addr)
    (hs : serverStep st (.recv data sender n) = .ok st') : st'.narrow addr = st.narrow addr := by
  obtain ⟨⟨l, out⟩, hr, rfl⟩ := exists_of_map_eq_ok hs
  cases ListenerInner.recv_result hr with
  | changes stream s s' calls hu hf =>
    obtain ⟨hl, hcell⟩ := upgrade_eq_some.1 hu
    obtain ⟨s₀, live, hcell', -, haddr⟩ :=
      ListenerInner.openAddr_eq_some.1 (h.consistent.filed sender stream hl)
    obtain rfl : s = s₀ := by
      rw [hcell] at hcell'
      cases hcell'
      rfl
    have hk := (ListenerInner.place_eq_none hcell).2 (haddr.trans_ne hne)
    exact narrow_changes_of_none hcell hf hk
  | establishes e n hu => exact h.narrow_establish_of_ne e n hne
  | refuses hu => rfl

/-- What an `accept_nonblocking` changes. -/
def accepting (st : Server) (rest accepted : List StreamId) : Server :=
  { st with
    listener := { st.listener with toAccept := rest }
    accepted := st.accepted ++ accepted }

theorem narrow_accepting (st : Server) (addr : SocketAddr) (rest accepted : List StreamId) :
    (st.accepting rest accepted).narrow addr =
      (st.narrow addr).accepting (rest.filterMap (st.listener.place addr))
        (accepted.filterMap (st.listener.place addr)) := by
  unfold accepting narrow
  rw [List.filterMap_append]
  rfl

theorem accept_of_error (he : st.listener.isErr) : serverStep st .accept = .ok st := by
  rw [serverStep, ListenerInner.acceptNonblocking]
  unfold ListenerInner.isErr at he
  cases herr : st.listener.error with
  | ok u => simp [herr] at he
  | error err => simp [returned]

/-- A stream that can be accepted is returned. -/
theorem accept_of_cons (he : st.listener.isErr = false) {rest : List StreamId}
    (hq : st.listener.toAccept = stream :: rest) :
    serverStep st .accept = .ok (st.accepting rest
      (if (st.listener.openAddr stream).isSome then [stream] else [])) := by
  rw [serverStep, ListenerInner.acceptNonblocking, ListenerInner.openAddr, hq]
  unfold ListenerInner.isErr at he
  cases herr : st.listener.error with
  | error err => simp [herr] at he
  | ok u =>
    dsimp only
    cases hc : st.listener.streams[stream]? with
    | none => simp [accepting, returned, herr]
    | some c =>
      cases haddr : c.inner.getPeerAddr with
      | error err => simp [accepting, returned, haddr, herr, Except.toOption]
      | ok addr => simp [accepting, returned, haddr, herr, Except.toOption]

theorem accept_of_nil (hq : st.listener.toAccept = []) : serverStep st .accept = .ok st := by
  cases he : st.listener.isErr with
  | true => exact accept_of_error he
  | false =>
    rw [serverStep, ListenerInner.acceptNonblocking, hq]
    unfold ListenerInner.isErr at he
    cases herr : st.listener.error with
    | error err => simp [herr] at he
    | ok u => simp [returned]

/-- A stream of the address is the next to be accepted. -/
theorem narrow_accept {rest : List StreamId} (hq : st.listener.toAccept = stream :: rest)
    (hk : st.listener.place addr stream = some k) (hs : serverStep st .accept = .ok st') :
    serverStep (st.narrow addr) .accept = .ok (st'.narrow addr) := by
  have herr : (st.narrow addr).listener.isErr = st.listener.isErr := rfl
  cases he : st.listener.isErr with
  | true =>
    rw [accept_of_error he] at hs
    obtain rfl := Except.ok.inj hs
    exact accept_of_error (herr.trans he)
  | false =>
    have hq' : (st.narrow addr).listener.toAccept =
        k :: rest.filterMap (st.listener.place addr) := by
      show st.listener.toAccept.filterMap _ = _
      rw [hq, List.filterMap_cons, hk]
    have hopen : (st.narrow addr).listener.openAddr k = st.listener.openAddr stream := by
      rw [ListenerInner.openAddr, ListenerInner.openAddr]
      exact congrArg (Option.bind · _) (ListenerInner.narrow_cell hk)
    rw [accept_of_cons he hq] at hs
    obtain rfl := Except.ok.inj hs
    rw [accept_of_cons (herr.trans he) hq', hopen, narrow_accepting]
    split_ifs <;> simp [hk]

/-- Another stream is, or none. -/
theorem narrow_accept_of_none
    (hk : st.listener.toAccept.head?.bind (st.listener.place addr) = none)
    (hs : serverStep st .accept = .ok st') : st'.narrow addr = st.narrow addr := by
  cases hq : st.listener.toAccept with
  | nil =>
    rw [accept_of_nil hq] at hs
    obtain rfl := Except.ok.inj hs
    rfl
  | cons stream rest =>
    rw [hq] at hk
    cases he : st.listener.isErr with
    | true =>
      rw [accept_of_error he] at hs
      obtain rfl := Except.ok.inj hs
      rfl
    | false =>
      rw [accept_of_cons he hq] at hs
      obtain rfl := Except.ok.inj hs
      have hk' : st.listener.place addr stream = none := hk
      have hrest : rest.filterMap (st.listener.place addr) =
          (st.narrow addr).listener.toAccept := by
        show _ = st.listener.toAccept.filterMap _
        rw [hq, List.filterMap_cons, hk']
      rw [narrow_accepting, hrest]
      split_ifs <;> simp [hk', accepting]

section Events

variable (hk : st.listener.place addr stream = some k)
include hk

theorem narrow_cell : (st.narrow addr).listener.streams[k]? = st.listener.streams[stream]? :=
  ListenerInner.narrow_cell hk

/-- A call of a user. -/
theorem narrow_call {op : Operation} (hs : serverStep st (.call stream op) = .ok st') :
    serverStep (st.narrow addr) (.call k op) = .ok (st'.narrow addr) := by
  have hacc : k ∈ (st.narrow addr).accepted ↔ stream ∈ st.accepted :=
    ListenerInner.mem_filterMap_place hk
  rw [serverStep] at hs ⊢
  simp only [hacc]
  split_ifs at hs ⊢ with hcall
  · unfold call at hs ⊢
    rw [narrow_cell hk]
    split at hs
    · rename_i s hcell
      obtain ⟨⟨s', calls⟩, hp, rfl⟩ := exists_of_map_eq_ok hs
      rw [hp]
      exact congrArg Except.ok (narrow_changes hcell (perform_performs hp).forgets hk).symm
    · obtain rfl := Except.ok.inj hs
      rfl
  · obtain rfl := Except.ok.inj hs
    rfl

/-- A step of a worker. -/
theorem narrow_work {t t' : Instant} {sent : IoResult Unit}
    (hs : serverStep st (.work stream t t' sent) = .ok st') :
    serverStep (st.narrow addr) (.work k t t' sent) = .ok (st'.narrow addr) := by
  have hpc : (st.narrow addr).workers k = st.workers stream :=
    ListenerInner.narrowWorkers_of_place hk
  rw [serverStep, work] at hs ⊢
  rw [narrow_cell hk, hpc]
  split at hs
  · rename_i s hcell
    split at hs
    · obtain rfl := Except.ok.inj hs
      have hquiet : s.Performs s [] := .goesOn (.quiet rfl rfl)
      exact congrArg Except.ok (narrow_worked hcell hquiet.forgets hk).symm
    · obtain rfl := Except.ok.inj hs
      exact congrArg Except.ok
        (narrow_worked hcell (threadAck_performs rfl).1.forgets hk).symm
    · obtain ⟨⟨s', calls, pc⟩, hsend, rfl⟩ := exists_of_map_eq_ok hs
      rw [hsend]
      exact congrArg Except.ok
        (narrow_worked hcell (threadSend_performs hsend).1.forgets hk).symm
    · obtain rfl := Except.ok.inj hs
      rfl
  · obtain rfl := Except.ok.inj hs
    rfl

/-- The last reference disappears. -/
theorem narrow_release (hs : serverStep st (.release stream) = .ok st') :
    serverStep (st.narrow addr) (.release k) = .ok (st'.narrow addr) := by
  have hqueue : k ∈ (st.narrow addr).listener.toAccept ↔ stream ∈ st.listener.toAccept :=
    ListenerInner.mem_filterMap_place hk
  have hpc : (st.narrow addr).workers k = st.workers stream :=
    ListenerInner.narrowWorkers_of_place hk
  have hheld : (st.narrow addr).IsHeld k ↔ st.IsHeld stream := by
    rw [IsHeld, IsHeld, hqueue, hpc]
  rw [serverStep] at hs ⊢
  rw [narrow_cell hk]
  simp only [hheld]
  split at hs
  · split_ifs at hs with h
    · obtain rfl := Except.ok.inj hs
      simp only [h, if_true]
    · obtain rfl := Except.ok.inj hs
      simp only [h, if_false]
      rw [narrow_released, ListenerInner.narrow_release hk]
      rfl
  · obtain rfl := Except.ok.inj hs
    rfl

/-- `Drop` runs. -/
theorem narrow_drop (hs : serverStep st (.drop stream) = .ok st') :
    serverStep (st.narrow addr) (.drop k) = .ok (st'.narrow addr) := by
  have hdropped : k ∈ (st.narrow addr).dropped ↔ stream ∈ st.dropped :=
    ListenerInner.mem_filterMap_place hk
  rw [serverStep] at hs ⊢
  rw [narrow_cell hk]
  simp only [hdropped]
  split at hs
  · rename_i s hcell
    split_ifs at hs with h
    · obtain rfl := Except.ok.inj hs
      simp only [h, if_true]
    · obtain rfl := Except.ok.inj hs
      simp only [h, if_false]
      exact congrArg Except.ok (narrow_dropping hcell hk).symm
  · obtain rfl := Except.ok.inj hs
    rfl

end Events

/-- An event of another stream is none of the address. -/
theorem narrow_of_place_none (hk : st.listener.place addr stream = none)
    (he : (∃ op, e = .call stream op) ∨ (∃ t t' sent, e = .work stream t t' sent) ∨
      e = .release stream ∨ e = .drop stream)
    (hs : serverStep st e = .ok st') : st'.narrow addr = st.narrow addr := by
  rcases he with ⟨op, rfl⟩ | ⟨t, t', sent, rfl⟩ | rfl | rfl
  · rw [serverStep] at hs
    split_ifs at hs
    · unfold call at hs
      split at hs
      · rename_i s hcell
        obtain ⟨⟨s', calls⟩, hp, rfl⟩ := exists_of_map_eq_ok hs
        exact narrow_changes_of_none hcell (perform_performs hp).forgets hk
      · obtain rfl := Except.ok.inj hs
        rfl
    · obtain rfl := Except.ok.inj hs
      rfl
  · rw [serverStep, work] at hs
    split at hs
    · rename_i s hcell
      split at hs
      · obtain rfl := Except.ok.inj hs
        have hquiet : s.Performs s [] := .goesOn (.quiet rfl rfl)
        exact narrow_worked_of_none hcell hquiet.forgets hk
      · obtain rfl := Except.ok.inj hs
        exact narrow_worked_of_none hcell (threadAck_performs rfl).1.forgets hk
      · obtain ⟨⟨s', calls, pc⟩, hsend, rfl⟩ := exists_of_map_eq_ok hs
        exact narrow_worked_of_none hcell (threadSend_performs hsend).1.forgets hk
      · obtain rfl := Except.ok.inj hs
        rfl
    · obtain rfl := Except.ok.inj hs
      rfl
  · rw [serverStep] at hs
    split at hs
    · split_ifs at hs
      · obtain rfl := Except.ok.inj hs
        rfl
      · obtain rfl := Except.ok.inj hs
        rw [narrow_released, ListenerInner.narrow_release_of_none hk]
        rfl
    · obtain rfl := Except.ok.inj hs
      rfl
  · rw [serverStep] at hs
    split at hs
    · rename_i s hcell
      split_ifs at hs
      · obtain rfl := Except.ok.inj hs
        rfl
      · obtain rfl := Except.ok.inj hs
        exact narrow_dropping_of_none hcell hk
    · obtain rfl := Except.ok.inj hs
      rfl

/-- What an event does to a stream, when the stream is one of the address and when it is not. -/
theorem narrow_event {f : StreamId → ServerEvent}
    (hev : narrowEvent addr st e = (st.listener.place addr stream).map f)
    (hsome : ∀ k, st.listener.place addr stream = some k →
      serverStep (st.narrow addr) (f k) = .ok (st'.narrow addr))
    (hnone : st.listener.place addr stream = none → st'.narrow addr = st.narrow addr) :
    run serverStep (st.narrow addr) (narrowEvent addr st e).toList = .ok (st'.narrow addr) := by
  rw [hev]
  cases hk : st.listener.place addr stream with
  | some k => exact run_singleton (hsome k hk)
  | none =>
    rw [hnone hk]
    rfl

/-- A step is one of what the server is to the address, or leaves that as it is. -/
theorem narrow_step (h : st.Bounded) (hs : serverStep st e = .ok st') :
    run serverStep (st.narrow addr) (narrowEvent addr st e).toList = .ok (st'.narrow addr) := by
  cases e with
  | recv data sender n =>
    rw [narrowEvent]
    split_ifs with haddr
    · subst haddr
      exact run_singleton (h.narrow_recv hs)
    · rw [h.narrow_recv_of_ne haddr hs]
      rfl
  | accept =>
    rw [narrowEvent]
    cases hk : st.listener.toAccept.head?.bind (st.listener.place addr) with
    | none =>
      rw [narrow_accept_of_none hk hs]
      rfl
    | some k =>
      obtain ⟨stream, hq, hk⟩ := Option.bind_eq_some_iff.1 hk
      obtain ⟨rest, hq⟩ := List.head?_eq_some_iff.1 hq
      exact run_singleton (narrow_accept hq hk hs)
  | call stream op =>
    exact narrow_event rfl (fun k hk => narrow_call hk hs) fun hk =>
      narrow_of_place_none hk (.inl ⟨op, rfl⟩) hs
  | work stream t t' sent =>
    exact narrow_event rfl (fun k hk => narrow_work hk hs) fun hk =>
      narrow_of_place_none hk (.inr (.inl ⟨t, t', sent, rfl⟩)) hs
  | release stream =>
    exact narrow_event rfl (fun k hk => narrow_release hk hs) fun hk =>
      narrow_of_place_none hk (.inr (.inr (.inl rfl))) hs
  | drop stream =>
    exact narrow_event rfl (fun k hk => narrow_drop hk hs) fun hk =>
      narrow_of_place_none hk (.inr (.inr (.inr rfl))) hs

/-- Two peers connect and are accepted; the first one sends rubbish and its stream is dropped. -/
def rubbishBeside : List ServerEvent :=
  [.recv (Segment.establish 0).intoBytes (.v4 1 1) 0,
    .recv (Segment.establish 5).intoBytes (.v4 2 2) 7, .accept, .accept, .recv [] (.v4 1 1) 0,
    .call 1 (.write [1]), .release 0, .work 1 0 0 (.ok ()), .drop 0]

end Server

end Mdswp
