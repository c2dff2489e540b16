import Mdswp.Transfer.Simulation

/-!
# End-to-end transfer

Each step of a transfer keeps the relation to the link (`Transfer.Sim.stepA` for the end `a`, one
lemma for each event of the end `b`), until a `Reset` reaches the stream of `b`. So what `b` reads
comes first among the bytes that were written, and nothing but a `Reset` ends its stream
(`along_keepsSafe_iff`). When `finish_write` returns, all segments have arrived, but `b` need not
have read them; the `Reset` that the drop of the stream sends may come first (`reset_before_read`).
-/

namespace Mdswp

open StreamInner

variable {e n : SequenceNumber} {bs : List UInt8} {st st' : Transfer} {l : Link}
  {delivered acked : ℕ}

/-! ## What is accepted -/

namespace AcceptedOf

variable {accepted : List SequentialSegment}

theorem data (h : AcceptedOf bs accepted) (hf : .finish ∉ accepted) {ds : List DataSegment}
    (hds : bytesOf accepted ++ ds.flatMap DataSegment.data <+: bs) :
    AcceptedOf bs (accepted ++ ds.map .data) := by
  refine ⟨?_, fun hmem => ?_, fun hmem => ?_⟩
  · rwa [bytesOf_append, bytesOf_map_data]
  · exact h.ne_accept (by simpa using hmem)
  · exact absurd (by simpa using hmem) hf

theorem finish (h : AcceptedOf bs accepted) (hf : .finish ∉ accepted)
    (hbs : bytesOf accepted = bs) : AcceptedOf bs (accepted ++ [.finish]) := by
  have hbytes : bytesOf (accepted ++ [.finish]) = bs := by
    rw [bytesOf_append, hbs]
    exact List.append_nil bs
  exact ⟨hbytes ▸ List.prefix_rfl, fun hmem => h.ne_accept (by simpa using hmem),
    fun _ => ⟨hbytes, accepted, rfl, hf⟩⟩

end AcceptedOf

/-! ## The end `a` -/

/-- What `a` does leaves `b` alone, and adds to what is on its way there. -/
structure Transfer.FromA (st st' : Transfer) : Prop where
  b_eq : st'.b = st.b
  waiting_eq : st'.waiting = st.waiting
  bytesRead_eq : st'.bytesRead = st.bytesRead
  toB_eq : ∃ out, st'.toB = st.toB ++ out

def TransferEvent.OfA : TransferEvent → Prop
  | .user | .workA _ _ | .deliverA | .endListener => True
  | .workB _ _ | .deliverB | .read _ | .readWait => False

namespace Transfer

theorem FromA.of_toB_eq (hb : st'.b = st.b) (hw : st'.waiting = st.waiting)
    (hread : st'.bytesRead = st.bytesRead) (hout : st'.toB = st.toB) : st.FromA st' := by
  refine ⟨hb, hw, hread, [], ?_⟩
  rw [hout, List.append_nil]

theorem user_eq_ok (h : st.user = .ok st') : st.FromA st' := by
  rw [user] at h
  split at h
  · obtain ⟨x, -, rfl⟩ := exists_of_map_eq_ok h
    exact .of_toB_eq rfl rfl rfl rfl
  · obtain ⟨x, -, rfl⟩ := exists_of_map_eq_ok h
    exact .of_toB_eq rfl rfl rfl rfl
  · obtain ⟨x, -, rfl⟩ := exists_of_map_eq_ok h
    exact .of_toB_eq rfl rfl rfl rfl
  · obtain ⟨x, -, rfl⟩ := exists_of_map_eq_ok h
    exact ⟨rfl, rfl, rfl, _, rfl⟩
  · split at h
    · obtain rfl := Except.ok.inj h
      exact .of_toB_eq rfl rfl rfl rfl
    · obtain rfl := Except.ok.inj h
      exact .of_toB_eq rfl rfl rfl rfl
  · split_ifs at h
    · obtain rfl := Except.ok.inj h
      exact ⟨rfl, rfl, rfl, _, rfl⟩
    · obtain rfl := Except.ok.inj h
      exact .of_toB_eq rfl rfl rfl rfl
  · obtain rfl := Except.ok.inj h
    exact .of_toB_eq rfl rfl rfl rfl

theorem deliverA_eq_ok {segment : Segment} (h : st.deliverA segment = .ok st') :
    st.FromA st' := by
  rw [deliverA] at h
  split_ifs at h
  · obtain rfl := Except.ok.inj h
    exact ⟨rfl, rfl, rfl, _, rfl⟩
  · obtain ⟨x, -, rfl⟩ := exists_of_map_eq_ok h
    exact ⟨rfl, rfl, rfl, _, rfl⟩
  · obtain rfl := Except.ok.inj h
    exact .of_toB_eq rfl rfl rfl rfl

theorem fromA {ev : TransferEvent} (hev : ev.OfA) (h : transferStep st ev = .ok st') :
    st.FromA st' := by
  cases ev with
  | user => exact user_eq_ok h
  | workA t t' =>
    rw [transferStep] at h
    split_ifs at h
    · obtain rfl := Except.ok.inj h
      exact .of_toB_eq rfl rfl rfl rfl
    · obtain ⟨x, -, rfl⟩ := exists_of_map_eq_ok h
      exact ⟨rfl, rfl, rfl, _, rfl⟩
  | deliverA =>
    rw [transferStep] at h
    split at h
    · obtain rfl := Except.ok.inj h
      exact .of_toB_eq rfl rfl rfl rfl
    · obtain ⟨hb, hw, hr, hout⟩ := deliverA_eq_ok h
      exact ⟨hb, hw, hr, hout⟩
  | endListener =>
    obtain rfl := Except.ok.inj h
    exact .of_toB_eq rfl rfl rfl rfl
  | workB t t' => exact hev.elim
  | deliverB => exact hev.elim
  | read len => exact hev.elim
  | readWait => exact hev.elim

/-- The reading of `b` is what it was if `a` and the link's other half have changed. -/
theorem Reading.of_eq {l' : Link} (h : st.Reading l) (hb : st'.b.stream = st.b.stream)
    (hread : st'.bytesRead = st.bytesRead) (hw : st'.waiting = st.waiting)
    (hr : l'.receiver = l.receiver) (hp : l'.popped = l.popped) : st'.Reading l' := by
  refine ⟨?_, ?_, ?_⟩
  · rw [hb, hr]
    exact h.receiver
  · rw [hb, hp, hread]
    exact h.bytes
  · rw [hb, hp, hw]
    exact h.finished

/-- The writing of `a` is what it was if `b` and the link's other half have changed. -/
theorem Writing.of_eq {l' : Link} {acked' : ℕ} (h : st.Writing n bs l acked)
    (ha : st'.a = st.a) (hp : st'.program = st.program) (hl : st'.listening = st.listening)
    (hs : l'.sender = l.sender) (hacc : l'.accepted = l.accepted)
    (htoA : CarriesAcks n (l'.acks.drop acked') st'.toA) : st'.Writing n bs l' acked' := by
  refine ⟨?_, ?_, ?_, ?_, htoA, ?_, ?_⟩
  · rw [ha]
    exact h.healthy
  · rw [ha, hs]
    exact h.sender
  · rw [ha]
    exact h.held
  · rw [ha]
    exact h.unread
  · rw [ha, hp, hacc]
    exact h.pending
  · rw [hl]
    exact h.listening

theorem Writing.not_dropped (hw : st.Writing n bs l acked) : st.program ≠ .dropped := by
  intro hprog
  have hpend := hw.pending
  rw [hprog] at hpend
  exact hpend.elim

/-- The error of a healthy stream sends a `Reset`. -/
theorem segments_error {s : StreamInner} (hs : s.isErr = false) (err : IoError) :
    (s.error err true).2.filterMap ListenerCall.segment = [.reset] := by
  rw [error_snd, if_neg (by simp [hs])]
  rfl

namespace Sim

/-- After a `Reset` has been sent, whatever `a` does. -/
theorem of_reset (h : st.Sim e n bs l delivered acked) (hr : .reset ∈ st.toB)
    (hf : st.FromA st') : st'.Sim e n bs l delivered acked := by
  obtain ⟨hb, hw, hread, out, hout⟩ := hf
  refine ⟨h.lossless, h.accepted, hb ▸ h.healthy, hb ▸ h.acceptor, ?_, ?_, .inr ?_⟩
  · rw [hout]
    exact h.toB.append_of_mem hr out
  · exact h.reading.of_eq (congrArg Peer.stream hb) hread hw rfl rfl
  · rw [hout]
    exact List.mem_append_left _ hr

/-- `a` sends a `Reset`. -/
theorem of_resets (h : st.Sim e n bs l delivered acked) (hf : st.FromA st')
    (hout : st'.toB = st.toB ++ [.reset]) : st'.Sim e n bs l delivered acked := by
  obtain ⟨hb, hw, hread, -⟩ := hf
  refine ⟨h.lossless, h.accepted, hb ▸ h.healthy, hb ▸ h.acceptor, ?_, ?_, .inr ?_⟩
  · rw [hout, ← List.append_nil (l.copies.drop delivered)]
    exact h.toB.append (.reset [] [])
  · exact h.reading.of_eq (congrArg Peer.stream hb) hread hw rfl rfl
  · rw [hout]
    exact List.mem_append_right _ List.mem_cons_self

/-- The user pushes the segments, and leaves `b` in the buffer. -/
theorem pushes (h : st.Sim e n bs l delivered acked) (hw : st.Writing n bs l acked)
    {segments : List SequentialSegment} (hacc : AcceptedOf bs (l.accepted ++ segments))
    {b : List UInt8} {program : Program}
    (hp : program.Pending bs (l.accepted ++ segments) b) :
    Sim e n bs { st with
      a := { st.a with stream := { st.a.stream with
        sendBuffer := b
        sendStorage := { st.a.stream.sendStorage with
          queueUnsent := st.a.stream.sendStorage.queueUnsent ++ segments } } }
      program := program } (l.pushes segments) delivered acked := by
  have hne : ∀ segment ∈ segments, segment ≠ .accept := by
    rintro segment hmem rfl
    exact hacc.ne_accept (List.mem_append_right _ hmem)
  refine ⟨h.lossless.pushes hne, hacc, h.healthy, h.acceptor, h.toB,
    h.reading.of_eq rfl rfl rfl rfl rfl,
    .inl ⟨hw.healthy, ?_, hw.held, hw.unread, hw.toA, hp, hw.listening⟩⟩
  simp only [Link.pushes, hw.sender]

/-- A step of `a` in which the link does not change and nothing is sent. -/
theorem same (h : st.Sim e n bs l delivered acked) {a : Peer} {program : Program}
    (hw : Transfer.Writing n bs { st with a := a, program := program } l acked) :
    Sim e n bs { st with a := a, program := program } l delivered acked :=
  ⟨h.lossless, h.accepted, h.healthy, h.acceptor, h.toB,
    h.reading.of_eq rfl rfl rfl rfl rfl, .inl hw⟩

/-- The user writes or flushes: data are pushed. -/
theorem writes (h : st.Sim e n bs l delivered acked) (hw : st.Writing n bs l acked)
    (hf : .finish ∉ l.accepted) {b rest : List UInt8} {ds : List DataSegment}
    (hb : bytesOf l.accepted ++ ds.flatMap DataSegment.data ++ b ++ rest = bs)
    {program : Program} (hp : program.Pending bs (l.accepted ++ ds.map .data) b) :
    Sim e n bs { st with
      a := { st.a with stream := st.a.stream.pushed b ds }
      program := program } (l.pushes (ds.map .data)) delivered acked := by
  refine h.pushes hw (h.accepted.data hf ⟨b ++ rest, ?_⟩) hp
  rw [← List.append_assoc]
  exact hb

theorem finish_notMem_append_data {accepted : List SequentialSegment} (hf : .finish ∉ accepted)
    (ds : List DataSegment) : .finish ∉ accepted ++ ds.map .data := by
  simpa using hf

/-- The user flushes, and all that is buffered is pushed. -/
theorem flushes (h : st.Sim e n bs l delivered acked) (hw : st.Writing n bs l acked)
    (hf : .finish ∉ l.accepted) {rest : List Call} {next : Program}
    (hbytes : bytesOf l.accepted ++ st.a.stream.sendBuffer ++ rest.flatMap Call.bytes = bs)
    (hnext : ∀ ds : List DataSegment,
      bytesOf (l.accepted ++ ds.map .data) ++ rest.flatMap Call.bytes = bs →
        next.Pending bs (l.accepted ++ ds.map .data) [])
    (hs : (st.a.stream.flush.map fun (result, s) => st.called s result next) = .ok st') :
    ∃ l', st'.Sim e n bs l' delivered acked := by
  have hunfinished : st.a.stream.sendStorage.finishedUnchecked = .ok false := by
    rw [hw.sender]
    exact h.lossless.fifo.inv.sends.finishedUnchecked hf
  obtain ⟨ds, hflush, happ⟩ := flush_of_unfinished hw.healthy hunfinished
  rw [hflush] at hs
  obtain rfl := Except.ok.inj hs
  rw [← happ] at hbytes
  have hall : bytesOf l.accepted ++ ds.flatMap DataSegment.data ++ [] ++
      rest.flatMap Call.bytes = bs := by
    rwa [List.append_nil]
  refine ⟨_, h.writes hw hf hall (hnext ds ?_)⟩
  rwa [bytesOf_append, bytesOf_map_data]

/-- The user of a healthy stream takes a step. -/
theorem user (h : st.Sim e n bs l delivered acked) (hw : st.Writing n bs l acked)
    (hs : st.user = .ok st') : ∃ l', st'.Sim e n bs l' delivered acked := by
  have hfin : .finish ∉ l.accepted → st.a.stream.sendStorage.finishedUnchecked = .ok false := by
    rw [hw.sender]
    exact h.lossless.fifo.inv.sends.finishedUnchecked
  have hpend := hw.pending
  rw [Transfer.user] at hs
  split at hs
  · rename_i buf rest hprog
    rw [hprog] at hpend
    obtain ⟨hf, hbytes⟩ := hpend
    obtain ⟨b, ds, hwrite, happ, -⟩ := write_of_unfinished hw.healthy (hfin hf) buf
    rw [hwrite] at hs
    obtain rfl := Except.ok.inj hs
    rw [List.flatMap_cons, Call.bytes] at hbytes
    have hall : bytesOf l.accepted ++ ds.flatMap DataSegment.data ++ b ++
        rest.flatMap Call.bytes = bs := by
      rw [List.append_assoc (bytesOf _), happ]
      simpa using hbytes
    refine ⟨_, h.writes hw hf hall ⟨finish_notMem_append_data hf ds, ?_⟩⟩
    rwa [bytesOf_append, bytesOf_map_data]
  · rename_i rest hprog
    rw [hprog] at hpend
    obtain ⟨hf, hbytes⟩ := hpend
    rw [List.flatMap_cons, Call.bytes, List.nil_append] at hbytes
    refine h.flushes hw hf hbytes ?_ hs
    intro ds hall
    refine ⟨finish_notMem_append_data hf ds, ?_⟩
    rwa [List.append_nil]
  · rename_i hprog
    rw [hprog] at hpend
    obtain ⟨hf, hbytes⟩ := hpend
    refine h.flushes hw hf hbytes ?_ hs
    intro ds hall
    refine ⟨finish_notMem_append_data hf ds, ?_⟩
    rwa [List.flatMap_nil, List.append_nil] at hall
  · rename_i hprog
    rw [hprog] at hpend
    obtain ⟨hf, hbytes⟩ := hpend
    have hpush : st.a.stream.finishWritePush = .ok (.ok (), { st.a.stream with
        sendStorage := st.a.stream.sendStorage.pushBack .finish }, []) := by
      rw [finishWritePush, SendStorage.push_of_unfinished (hfin hf) finish_ne_accept]
    rw [hpush] at hs
    obtain rfl := Except.ok.inj hs
    have hwait : Program.waiting.Pending bs (l.accepted ++ [.finish]) st.a.stream.sendBuffer :=
      trivial
    refine ⟨l.pushes [.finish], ?_⟩
    dsimp only
    rw [List.filterMap_nil, List.append_nil]
    exact h.pushes hw (h.accepted.finish hf hbytes) hwait
  · rw [finishWritePoll] at hs
    split at hs
    · obtain rfl := Except.ok.inj hs
      exact ⟨l, h⟩
    · rename_i result s hpoll
      split_ifs at hpoll
      · cases hpoll
        obtain rfl := Except.ok.inj hs
        exact ⟨l, h.same ⟨hw.healthy, hw.sender, hw.held, hw.unread, hw.toA, trivial,
          hw.listening⟩⟩
      · cases hpoll
  · split_ifs at hs
    · have hdrop : st.a.stream.drop = st.a.stream.error connResetLocal true := by
        rw [StreamInner.drop, if_neg (by simp [hw.healthy]), if_pos (by simp [hw.unread]), reset,
          streamState_of_not_isErr hw.healthy]
      rw [hdrop] at hs
      obtain rfl := Except.ok.inj hs
      have hout := segments_error hw.healthy connResetLocal
      exact ⟨l, h.of_resets ⟨rfl, rfl, rfl, _, rfl⟩ (congrArg (st.toB ++ ·) hout)⟩
    · obtain rfl := Except.ok.inj hs
      exact ⟨l, h⟩
  · rename_i hprog
    rw [hprog] at hpend
    exact hpend.elim

/-- The worker of a healthy `a` takes a step. -/
theorem workA (h : st.Sim e n bs l delivered acked) (hw : st.Writing n bs l acked)
    {t t' : Instant} (hs : transferStep st (.workA t t') = .ok st') :
    ∃ l', st'.Sim e n bs l' delivered acked := by
  rw [transferStep, if_neg hw.not_dropped] at hs
  obtain ⟨⟨a, out⟩, hwork, rfl⟩ := exists_of_map_eq_ok hs
  cases Peer.work_result hwork with
  | goesOn pc =>
    dsimp only
    rw [List.append_nil]
    exact ⟨l, h.same ⟨hw.healthy, hw.sender, hw.held, hw.unread, hw.toA, hw.pending, hw.listening⟩⟩
  | acknowledges x r hp =>
    obtain ⟨hheld, hx⟩ := hw.held.popAcknowledge hp
    have hcarries : CarriesCopies n [] (x.toList.map .acknowledge) := by
      rcases hx with rfl | rfl
      · exact .nil
      · exact .acknowledge .nil
    refine ⟨l, h.lossless, h.accepted, h.healthy, h.acceptor, ?_,
      h.reading.of_eq rfl rfl rfl rfl rfl,
      .inl ⟨hw.healthy, hw.sender, hheld, hw.unread, hw.toA, hw.pending, hw.listening⟩⟩
    simpa using h.toB.append hcarries
  | sends x s pc hp =>
    rw [hw.sender] at hp
    obtain ⟨issued, cs, hcs, hl⟩ := h.lossless.sends hp
    refine ⟨_, hl, h.accepted, h.healthy, h.acceptor, ?_,
      h.reading.of_eq rfl rfl rfl rfl rfl,
      .inl ⟨hw.healthy, rfl, hw.held, hw.unread, hw.toA, hw.pending, hw.listening⟩⟩
    dsimp only
    rw [List.drop_append_of_le_length h.lossless.copies_le, ← hcs, List.map_map]
    exact h.toB.append (.of_copies cs)

/-- A datagram reaches a healthy `a`: a copy of the `Accept`, or an acknowledgement, which may be
rejected. -/
theorem deliverA (h : st.Sim e n bs l delivered acked) (hw : st.Writing n bs l acked)
    (hs : transferStep st .deliverA = .ok st') :
    ∃ l' acked', st'.Sim e n bs l' delivered acked' := by
  have hf := Transfer.fromA (show TransferEvent.OfA .deliverA from trivial) hs
  have htoA := hw.toA
  rw [transferStep] at hs
  generalize hq : st.toA = q at htoA hs
  generalize hd : l.acks.drop acked = as at htoA
  cases htoA with
  | nil =>
    obtain rfl := Except.ok.inj hs
    exact ⟨l, acked, h⟩
  | accept htoA =>
    dsimp only at hs
    rw [Transfer.deliverA, if_pos hw.listening, if_neg hw.not_dropped] at hs
    obtain ⟨⟨a, out⟩, hdel, rfl⟩ := exists_of_map_eq_ok hs
    obtain ⟨r, hr, hheld⟩ := hw.held.recv
    rw [Peer.deliver, if_neg (by simp [hw.healthy]), recvSegment, recvSequential, hr] at hdel
    cases hdel
    refine ⟨l, acked, h.lossless, h.accepted, h.healthy, h.acceptor, ?_,
      h.reading.of_eq rfl rfl rfl rfl rfl,
      .inl ⟨hw.healthy, hw.sender, hheld, hw.unread, ?_, hw.pending, hw.listening⟩⟩
    · simpa using h.toB
    · rw [hd]
      exact htoA
  | acknowledge a htoA =>
    dsimp only at hs
    rw [Transfer.deliverA, if_pos hw.listening, if_neg hw.not_dropped] at hs
    obtain ⟨⟨p, out⟩, hdel, rfl⟩ := exists_of_map_eq_ok hs
    rw [Peer.deliver, if_neg (by simp [hw.healthy]), recvSegment, recvAcknowledge, hw.sender]
      at hdel
    rcases h.lossless.deliverAck hd with ⟨err, hack⟩ | ⟨s, hack, hl⟩
    · rw [hack] at hdel
      cases hdel
      have hout := segments_error (s := { st.a.stream with sendStorage := l.sender })
        hw.healthy err
      exact ⟨l, acked, h.of_resets hf (congrArg (st.toB ++ ·) hout)⟩
    · rw [hack] at hdel
      cases hdel
      refine ⟨_, acked + 1, hl, h.accepted, h.healthy, h.acceptor, ?_,
        h.reading.of_eq rfl rfl rfl rfl rfl,
        .inl ⟨hw.healthy, rfl, hw.held, hw.unread, ?_, hw.pending, hw.listening⟩⟩
      · simpa using h.toB
      · rw [← List.tail_drop, hd]
        exact htoA

theorem endListener (h : st.Sim e n bs l delivered acked) (hw : st.Writing n bs l acked)
    (hs : transferStep st .endListener = .ok st') : st'.Sim e n bs l delivered acked := by
  obtain rfl := Except.ok.inj hs
  refine ⟨h.lossless, h.accepted, h.healthy, h.acceptor, h.toB,
    h.reading.of_eq rfl rfl rfl rfl rfl,
    .inl ⟨hw.healthy, hw.sender, hw.held, hw.unread, hw.toA, hw.pending, ?_⟩⟩
  simp [hw.listening, hw.not_dropped]

/-- Every step of `a` keeps the relation. -/
theorem stepA (h : st.Sim e n bs l delivered acked) {ev : TransferEvent} (hev : ev.OfA)
    (hs : transferStep st ev = .ok st') : ∃ l' acked', st'.Sim e n bs l' delivered acked' := by
  rcases h.writing with hw | hr
  swap
  · exact ⟨l, acked, h.of_reset hr (Transfer.fromA hev hs)⟩
  cases ev with
  | user =>
    obtain ⟨l', hl'⟩ := h.user hw hs
    exact ⟨l', acked, hl'⟩
  | workA t t' =>
    obtain ⟨l', hl'⟩ := h.workA hw hs
    exact ⟨l', acked, hl'⟩
  | deliverA => exact h.deliverA hw hs
  | endListener => exact ⟨l, acked, h.endListener hw hs⟩
  | workB t t' => exact hev.elim
  | deliverB => exact hev.elim
  | read len => exact hev.elim
  | readWait => exact hev.elim

/-! ## The end `b` -/

/-- The worker of `b` takes a step. -/
theorem workB (h : st.Sim e n bs l delivered acked) {t t' : Instant}
    (hs : transferStep st (.workB t t') = .ok st') : ∃ l', st'.Sim e n bs l' delivered acked := by
  obtain ⟨⟨b, out⟩, hwork, rfl⟩ := exists_of_map_eq_ok hs
  cases Peer.work_result hwork with
  | goesOn pc =>
    dsimp only
    rw [List.append_nil]
    refine ⟨l, h.lossless, h.accepted, h.healthy, h.acceptor, h.toB,
      h.reading.of_eq rfl rfl rfl rfl rfl, ?_⟩
    rcases h.writing with hw | hr
    · exact .inl (hw.of_eq rfl rfl rfl rfl rfl hw.toA)
    · exact .inr hr
  | acknowledges x r hp =>
    rw [h.reading.receiver] at hp
    obtain ⟨as, has, hl⟩ := h.lossless.acknowledges hp
    refine ⟨_, hl, h.accepted, h.healthy, h.acceptor, h.toB,
      ⟨rfl, h.reading.bytes, h.reading.finished⟩, ?_⟩
    rcases h.writing with hw | hr
    · refine .inl (hw.of_eq rfl rfl rfl rfl rfl ?_)
      dsimp only
      rw [List.drop_append_of_le_length h.lossless.acks_le, ← has, List.map_map]
      exact hw.toA.append (.of_acks as)
    · exact .inr hr
  | sends x s pc hp =>
    obtain ⟨hsent, hx⟩ := h.acceptor.pop hp
    have hcarries : CarriesAcks n [] (x.toList.map fun y => .sequential y.1 y.2) := by
      rcases hx with rfl | rfl
      · exact .nil
      · exact .accept .nil
    refine ⟨l, h.lossless, h.accepted, h.healthy, hsent, h.toB,
      ⟨h.reading.receiver, h.reading.bytes, h.reading.finished⟩, ?_⟩
    rcases h.writing with hw | hr
    · refine .inl (hw.of_eq rfl rfl rfl rfl rfl ?_)
      simpa using hw.toA.append hcarries
    · exact .inr hr

end Sim

/-- `b` has read everything and seen the end, and its stream has ended. -/
structure Ended (bs : List UInt8) (st : Transfer) : Prop where
  isErr : st.b.stream.isErr
  bytesRead_eq : st.bytesRead = bs
  finished : st.b.stream.recvFinished
  waiting_eq : st.waiting = none

namespace Sim

/-- A segment reaches `b`; if it is a `Reset`, `b` has seen the end. -/
theorem deliverB (h : st.Sim e n bs l delivered acked)
    (hreset : st.toB.head? = some .reset → st.b.stream.recvFinished)
    (hs : transferStep st .deliverB = .ok st') :
    (∃ l' delivered', st'.Sim e n bs l' delivered' acked) ∨ st'.Ended bs := by
  have htoB := h.toB
  have hwr : st.Writing n bs l acked ∨ .reset ∈ st.toB := h.writing
  rw [transferStep] at hs
  generalize hq : st.toB = q at htoB hs hreset hwr
  generalize hd : l.copies.drop delivered = cs at htoB
  cases htoB with
  | nil =>
    obtain rfl := Except.ok.inj hs
    exact .inl ⟨l, delivered, h⟩
  | reset cs q =>
    obtain ⟨⟨b, out⟩, hdel, rfl⟩ := exists_of_map_eq_ok hs
    rw [Peer.deliver_reset h.healthy] at hdel
    cases hdel
    have hfin := hreset rfl
    exact .inr ⟨rfl, h.bytesRead_eq hfin, hfin, (h.reading.finished hfin).2.2⟩
  | acknowledge htoB =>
    obtain ⟨⟨b, out⟩, hdel, rfl⟩ := exists_of_map_eq_ok hs
    obtain ⟨s, hack, hsent⟩ := h.acceptor.acknowledge
    rw [Peer.deliver, if_neg (by simp [h.healthy]), recvSegment, recvAcknowledge, hack] at hdel
    cases hdel
    refine .inl ⟨l, delivered, h.lossless, h.accepted, h.healthy, hsent, hd ▸ htoB,
      ⟨h.reading.receiver, h.reading.bytes, h.reading.finished⟩, ?_⟩
    rcases hwr with hw | hr
    · refine .inl (hw.of_eq rfl rfl rfl rfl rfl ?_)
      simpa using hw.toA
    · exact .inr (by simpa using hr)
  | sequential c htoB =>
    obtain ⟨⟨b, out⟩, hdel, rfl⟩ := exists_of_map_eq_ok hs
    obtain ⟨r, hrecv, hl⟩ := h.lossless.deliver hd
    rw [Peer.deliver, if_neg (by simp [h.healthy]), recvSegment, recvSequential,
      h.reading.receiver, hrecv] at hdel
    cases hdel
    refine .inl ⟨_, delivered + 1, hl, h.accepted, h.healthy, h.acceptor, ?_,
      ⟨rfl, h.reading.bytes, h.reading.finished⟩, ?_⟩
    · rw [← List.tail_drop, hd]
      exact htoB
    · rcases hwr with hw | hr
      · refine .inl (hw.of_eq rfl rfl rfl rfl rfl ?_)
        simpa using hw.toA
      · exact .inr (by simpa using hr)

/-- What `b` reads does not concern the writing of `a`. -/
theorem writing_readResult (h : st.Sim e n bs l delivered acked) {len : ℕ}
    (x : Option (IoResult (List UInt8)) × StreamInner) {l' : Link} (hs : l'.sender = l.sender)
    (hacc : l'.accepted = l.accepted) (hacks : l'.acks = l.acks) :
    (st.readResult len x).Writing n bs l' acked ∨ .reset ∈ (st.readResult len x).toB := by
  rcases h.writing with hw | hr
  · refine .inl (hw.of_eq rfl rfl rfl hs hacc ?_)
    rw [hacks]
    exact hw.toA
  · exact .inr hr

/-- A `read` of `b` returns or goes on waiting. -/
theorem readResult (h : st.Sim e n bs l delivered acked) {len : ℕ}
    {x : Option (IoResult (List UInt8)) × StreamInner}
    (hx : ReadResult st.b.stream len x) (hfin : st.b.stream.recvFinished = false) :
    ∃ l', (st.readResult len x).Sim e n bs l' delivered acked := by
  have hbytes := h.reading.bytes
  have hq : ∀ segment rest, st.b.stream.recvStorage.popQueue = segment :: rest →
      l.receiver.popQueue = segment :: rest := by
    rw [h.reading.receiver]
    exact fun _ _ hq => hq
  have hno : ¬st.b.stream.recvFinished := by simp [hfin]
  cases hx with
  | buffered hb =>
    refine ⟨l, h.lossless, h.accepted, h.healthy, h.acceptor, h.toB,
      ⟨h.reading.receiver, ?_, fun hfin' => absurd hfin' hno⟩, ?_⟩
    · simpa [Transfer.readResult] using hbytes
    · exact h.writing_readResult _ rfl rfl rfl
  | waits hb _ hpop =>
    refine ⟨l, h.lossless, h.accepted, h.healthy, h.acceptor, h.toB,
      ⟨h.reading.receiver, ?_, fun hfin' => absurd hfin' hno⟩, ?_⟩
    · simpa [Transfer.readResult] using hbytes
    · exact h.writing_readResult _ rfl rfl rfl
  | finishes rest hb _ hpop =>
    refine ⟨_, h.lossless.read (hq _ _ hpop), h.accepted, h.healthy, h.acceptor, h.toB,
      ⟨?_, ?_, fun _ => ⟨by simp, hb, rfl⟩⟩, ?_⟩
    · exact congrArg (fun r : RecvStorage => { r with popQueue := rest }) h.reading.receiver
    · dsimp only
      rw [bytesOf_append, hbytes]
      simp [Transfer.readResult, bytesOf, SequentialSegment.payload]
    · exact h.writing_readResult _ rfl rfl rfl
  | takes d rest hb _ hpop =>
    refine ⟨_, h.lossless.read (hq _ _ hpop), h.accepted, h.healthy, h.acceptor, h.toB,
      ⟨?_, ?_, fun hfin' => absurd hfin' hno⟩, ?_⟩
    · exact congrArg (fun r : RecvStorage => { r with popQueue := rest }) h.reading.receiver
    · dsimp only
      rw [bytesOf_append, hbytes, hb]
      simp [Transfer.readResult, bytesOf, SequentialSegment.payload]
    · exact h.writing_readResult _ rfl rfl rfl

/-- No `Accept` is in the queue of `b`. -/
theorem popQueue_ne_accept (h : st.Sim e n bs l delivered acked) :
    ∀ segment ∈ st.b.stream.recvStorage.popQueue, segment ≠ .accept := by
  rintro segment hmem rfl
  rw [h.reading.receiver] at hmem
  exact h.accepted.ne_accept
    (h.lossless.fifo.inv.prefix_accepted.subset (List.mem_append_right _ hmem))

theorem readB (h : st.Sim e n bs l delivered acked) {len : ℕ}
    (hs : transferStep st (.read len) = .ok st') : ∃ l', st'.Sim e n bs l' delivered acked := by
  rw [transferStep, isReadFinished_of_not_isErr h.healthy] at hs
  split at hs
  · rename_i hfin
    have hfin := Except.ok.inj hfin
    obtain rfl := Except.ok.inj hs
    rw [StreamInner.read, isReadFinished_of_not_isErr h.healthy, hfin]
    exact h.readResult (readWait_result h.healthy h.popQueue_ne_accept len) hfin
  · obtain rfl := Except.ok.inj hs
    exact ⟨l, h⟩

theorem readWait (h : st.Sim e n bs l delivered acked)
    (hs : transferStep st .readWait = .ok st') : ∃ l', st'.Sim e n bs l' delivered acked := by
  rw [transferStep] at hs
  cases hw : st.waiting with
  | none =>
    rw [hw] at hs
    obtain rfl := Except.ok.inj hs
    exact ⟨l, h⟩
  | some len =>
    rw [hw] at hs
    obtain rfl := Except.ok.inj hs
    apply h.readResult (readWait_result h.healthy h.popQueue_ne_accept len)
    by_contra hfin
    have := (h.reading.finished (by simpa using hfin)).2.2
    rw [hw] at this
    cases this

end Sim

/-- What has ended stays as it is. -/
theorem Ended.step (h : st.Ended bs) {ev : TransferEvent} (hs : transferStep st ev = .ok st') :
    st'.Ended bs := by
  have hA : st.FromA st' → st'.Ended bs := by
    rintro ⟨hb, hw, hread, -⟩
    exact ⟨hb ▸ h.isErr, hread ▸ h.bytesRead_eq, hb ▸ h.finished, hw ▸ h.waiting_eq⟩
  cases ev with
  | user => exact hA (fromA (show TransferEvent.OfA .user from trivial) hs)
  | workA t t' => exact hA (fromA (show TransferEvent.OfA (.workA t t') from trivial) hs)
  | deliverA => exact hA (fromA (show TransferEvent.OfA .deliverA from trivial) hs)
  | endListener => exact hA (fromA (show TransferEvent.OfA .endListener from trivial) hs)
  | workB t t' =>
    obtain ⟨⟨b, out⟩, hwork, rfl⟩ := exists_of_map_eq_ok hs
    cases Peer.work_result hwork with
    | goesOn pc => exact ⟨h.isErr, h.bytesRead_eq, h.finished, h.waiting_eq⟩
    | acknowledges x r hp => exact ⟨h.isErr, h.bytesRead_eq, h.finished, h.waiting_eq⟩
    | sends x s pc hp => exact ⟨h.isErr, h.bytesRead_eq, h.finished, h.waiting_eq⟩
  | deliverB =>
    rw [transferStep] at hs
    split at hs
    · obtain rfl := Except.ok.inj hs
      exact h
    · rw [Peer.deliver, if_pos h.isErr] at hs
      obtain rfl := Except.ok.inj hs
      exact ⟨h.isErr, h.bytesRead_eq, h.finished, h.waiting_eq⟩
  | read len =>
    obtain ⟨err, herr⟩ := streamState_of_isErr h.isErr
    have hnot : st.b.stream.isReadFinished = .error err := by
      rw [isReadFinished, herr]
      rfl
    rw [transferStep, h.waiting_eq, hnot] at hs
    obtain rfl := Except.ok.inj hs
    exact h
  | readWait =>
    rw [transferStep, h.waiting_eq] at hs
    obtain rfl := Except.ok.inj hs
    exact h

/-! ## Runs -/

/-- What `b` has read comes first among the bytes, and its stream has not ended before it has read
all of them and seen the end. -/
structure Safe (bs : List UInt8) (st : Transfer) : Prop where
  prefix_bs : st.bytesRead <+: bs
  unbroken : st.b.stream.isErr → st.bytesRead = bs ∧ st.b.stream.recvFinished

end Transfer

/-- The state after the step is safe. -/
def KeepsSafe (bs : List UInt8) (st : Transfer) (ev : TransferEvent) : Prop :=
  ∀ st', transferStep st ev = .ok st' → st'.Safe bs

/-- If the step delivers a `Reset` to the healthy stream of `b`, that has seen the end. -/
def ResetAfterEnd (st : Transfer) : TransferEvent → Prop
  | .deliverB => st.toB.head? = some .reset → st.b.stream.isErr = false →
      st.b.stream.recvFinished
  | _ => True

namespace Transfer

/-- The transfer runs a link, or has ended. -/
def Inv (e n : SequenceNumber) (bs : List UInt8) (st : Transfer) : Prop :=
  (∃ l delivered acked, st.Sim e n bs l delivered acked) ∨ st.Ended bs

theorem Inv.safe (h : st.Inv e n bs) : st.Safe bs := by
  rcases h with ⟨l, delivered, acked, h⟩ | h
  · refine ⟨h.bytesRead_prefix, fun hx => ?_⟩
    rw [h.healthy] at hx
    cases hx
  · exact ⟨h.bytesRead_eq ▸ List.prefix_rfl, fun _ => ⟨h.bytesRead_eq, h.finished⟩⟩

theorem Inv.step (h : st.Inv e n bs) {ev : TransferEvent} (hr : ResetAfterEnd st ev)
    (hs : transferStep st ev = .ok st') : st'.Inv e n bs := by
  rcases h with ⟨l, delivered, acked, h⟩ | h
  swap
  · exact .inr (h.step hs)
  have hA : ev.OfA → st'.Inv e n bs := by
    intro hev
    obtain ⟨l', acked', hl'⟩ := h.stepA hev hs
    exact .inl ⟨l', delivered, acked', hl'⟩
  cases ev with
  | user => exact hA trivial
  | workA t t' => exact hA trivial
  | deliverA => exact hA trivial
  | endListener => exact hA trivial
  | workB t t' =>
    obtain ⟨l', hl'⟩ := h.workB hs
    exact .inl ⟨l', delivered, acked, hl'⟩
  | deliverB =>
    rcases h.deliverB (fun hhead => hr hhead h.healthy) hs with ⟨l', delivered', hl'⟩ | hend
    · exact .inl ⟨l', delivered', acked, hl'⟩
    · exact .inr hend
  | read len =>
    obtain ⟨l', hl'⟩ := h.readB hs
    exact .inl ⟨l', delivered, acked, hl'⟩
  | readWait =>
    obtain ⟨l', hl'⟩ := h.readWait hs
    exact .inl ⟨l', delivered, acked, hl'⟩

theorem Inv.keepsSafe_iff (h : st.Inv e n bs) (ev : TransferEvent) :
    KeepsSafe bs st ev ↔ ResetAfterEnd st ev := by
  refine ⟨fun hk => ?_, fun hr st' hs => (h.step hr hs).safe⟩
  cases ev with
  | deliverB =>
    intro hhead hok
    obtain ⟨rest, hrest⟩ := List.head?_eq_some_iff.1 hhead
    unfold KeepsSafe at hk
    rw [transferStep, hrest] at hk
    dsimp only at hk
    rw [Peer.deliver_reset hok] at hk
    exact ((hk _ rfl).unbroken rfl).2
  | _ => trivial

theorem inv_start (aAddr bAddr : SocketAddr) (e n : SequenceNumber) (t₀ t : Instant)
    (calls : List Call) :
    (start aAddr bAddr e n t₀ t calls).Inv e n (calls.flatMap Call.bytes) := by
  obtain ⟨as, has, hl⟩ := (Opening.byLocal e).lossless.acknowledges
    (RecvStorage.popAcknowledge_newByPeer e 0 t₀)
  obtain rfl : as = [] := List.map_eq_nil_iff.1 has
  refine .inl ⟨_, 0, 0, hl, ⟨List.nil_prefix, List.not_mem_nil, fun h => by cases h⟩, rfl,
    ⟨rfl, rfl, .inr ⟨t, rfl⟩⟩, .nil, ⟨rfl, rfl, fun h => by cases h⟩,
    .inl ⟨rfl, rfl, ⟨rfl, rfl, ?_⟩, rfl, .nil, ⟨List.not_mem_nil, rfl⟩, rfl⟩⟩
  simp [start, newByLocal, RecvStorage.newByLocal]

end Transfer

/-- **End-to-end transfer** is safe in exactly the runs in which every `Reset` reaches the healthy
stream of `b` only after that has seen the end: `b` reads a prefix of the bytes, and its stream does
not end before it has read all of them. -/
theorem along_keepsSafe_iff (aAddr bAddr : SocketAddr)
    (establishSeqNum acceptSeqNum : SequenceNumber) (t₀ t : Instant) (calls : List Call)
    (evs : List TransferEvent) :
    Along transferStep (KeepsSafe (calls.flatMap Call.bytes))
        (.start aAddr bAddr establishSeqNum acceptSeqNum t₀ t calls) evs ↔
      Along transferStep ResetAfterEnd
        (.start aAddr bAddr establishSeqNum acceptSeqNum t₀ t calls) evs :=
  along_congr (Transfer.Inv establishSeqNum acceptSeqNum (calls.flatMap Call.bytes))
    (fun _ ev h => h.keepsSafe_iff ev)
    (fun _ ev _ h hk hs => h.step ((h.keepsSafe_iff ev).1 hk) hs)
    (Transfer.inv_start aAddr bAddr establishSeqNum acceptSeqNum t₀ t calls) evs

/-- One byte is written and finished; `a` sends it with the `Finish`, `b` acknowledges both, and
`finish_write` returns. -/
def oneByteSent : List TransferEvent :=
  [.user, .user, .user, .workA 0 0, .workA 0 0, .workA 0 0, .workA 0 0, .workA 0 0, .deliverB,
    .deliverB, .deliverB, .workB 0 0, .workB 0 0, .workB connTimeout 0, .deliverA, .user]

/-- The stream of `a` is then dropped, and its `Reset` arrives before `b` has read the byte. -/
theorem reset_before_read :
    ∃ st₁ st₂, run transferStep (.start (.v4 0 1) (.v4 0 2) 0 0 0 0 [.write [7]]) oneByteSent =
        .ok st₁ ∧ st₁.program = .returned (.ok ()) ∧
      run transferStep st₁ [.user, .deliverB, .read 1] = .ok st₂ ∧ st₂.program = .dropped ∧
      st₂.b.stream.isErr ∧ st₂.bytesRead = [] :=
  ⟨_, _, rfl, rfl, rfl, rfl, rfl, rfl⟩

end Mdswp
