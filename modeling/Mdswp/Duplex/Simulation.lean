import Mdswp.Duplex.System
import Mdswp.Link.Cleared

/-!
# Each direction is a link

The direction from an end `x` to an end `y` of a connection is a `Link` (`Carries`): what `x` has
sent are copies of the link, and what `y` has acknowledged are its acknowledgements. A sender that
has errored sends no more, and its link goes on without it; a receiver that has errored may have
lost what lies before the window (`RecvStorage.Thins`). The acceptor's link starts when it has sent
its `Accept`.

A step of the sender is that of the link's sender (`Carries.sender_step`), and a step of the
receiver that of the link's receiver (`Carries.receiver_step`).
-/

namespace Mdswp

open Serial StreamInner

variable {o : Opening} {l : Link}

/-! ## Steps of the link -/

namespace Link.Inv

theorem pushes (h : l.Inv o) {segments : List SequentialSegment}
    (hs : .accept ∉ segments) : Inv o { l with
      sender := { l.sender with queueUnsent := l.sender.queueUnsent ++ segments }
      accepted := l.accepted ++ segments } := by
  induction segments generalizing l with
  | nil => simpa using h
  | cons segment segments ih =>
    have hne : segment ≠ .accept := fun heq => hs (heq ▸ List.mem_cons_self)
    have h₁ := h.of_result (.pushed segment hne)
    simpa [SendStorage.pushBack] using ih h₁ fun hm => hs (List.mem_cons_of_mem _ hm)

/-- The time of the last transmission does not matter. -/
theorem retime (h : l.Inv o) {n : SequenceNumber} {segment : SequentialSegment} {t : Instant}
    (hq : l.sender.queueSent = [⟨n, segment, t⟩]) (t' : Instant) :
    Inv o { l with sender := { l.sender with queueSent := [⟨n, segment, t'⟩] } } := by
  obtain ⟨⟨hnumbers, hlen⟩, hnext, hissued, hunsent, hflight⟩ := h.sends
  have hle := h.issued_le
  rw [hq] at hnumbers hlen hflight hle
  refine ⟨⟨⟨hnumbers, hlen⟩, hnext, hissued, hunsent, fun e he => ?_⟩, h.receives,
    h.prefix_accepted, hle, h.copies, h.acks⟩
  obtain rfl := List.mem_singleton.1 he
  exact hflight ⟨n, segment, t⟩ (List.mem_singleton_self _)

/-- What `pop` returns is a copy of one of the last numbers. -/
theorem of_pop (h : l.Inv o) {t t' : Instant} {k : Option (SequenceNumber × SequentialSegment)}
    {s : SendStorage} (hk : l.sender.pop t t' = .ok (k, s)) :
    ∃ cs issued, issued = l.issued + (s.nextUnsent - l.sender.nextUnsent).toNat ∧
      Inv o { l with sender := s, issued := issued, copies := l.copies ++ cs } ∧
      ∀ v ∈ k, ∃ c ∈ cs, c.seqNum = v.1 ∧ c.segment = v.2 ∧ issued < c.pos + 10 := by
  have hres := SendStorage.PopResult.of_pop hk
  cases k with
  | none =>
    obtain rfl : s = l.sender := by
      cases hres
      rfl
    exact ⟨[], l.issued, by simp, by simpa using h, nofun⟩
  | some v =>
    obtain ⟨n, segment⟩ := v
    have hstep : linkStep l (.pop t t') = .ok { l with
        sender := s
        issued := l.issued + (s.nextUnsent - l.sender.nextUnsent).toNat
        copies := l.copies ++ [copyOf (l.issued + (s.nextUnsent - l.sender.nextUnsent).toNat) s n
          segment] } := by
      rw [linkStep, hk]
    refine ⟨_, _, rfl, h.step (e := .pop t t') trivial hstep, fun v hv => ?_⟩
    obtain rfl := Option.some.inj hv
    refine ⟨_, List.mem_singleton_self _, rfl, rfl, ?_⟩
    have hmem : ∃ e ∈ s.queueSent, e.seqNum = n := by
      cases hres with
      | resent e rest hq ht => exact ⟨{ e with lastPop := t' }, by simp, rfl⟩
      | fresh segment rest hq hlen => exact ⟨⟨_, segment, t'⟩, by simp, rfl⟩
    obtain ⟨e, he, rfl⟩ := hmem
    have hb := h.sends.block.of_popResult hres
    have hdist := hb.dist_lt he
    have hlen := hb.length_le
    rw [toNat_windowSize] at hlen
    simp only [copyOf]
    omega

theorem of_acknowledge (h : l.Inv o) {a : AckCopy} (ha : a ∈ l.acks)
    (ht : l.issued ≤ a.pos + 200) (hn : l.sender.nextUnsent - a.ackNum < windowSize) :
    ∃ i, Inv o { l with
      sender := (l.sender.acknowledge a.ackNum).2
      ackCursor := max l.ackCursor i } := by
  obtain ⟨i, hi⟩ := List.mem_iff_getElem?.1 ha
  have htimely : Timely l (.deliverAck i) := fun a' ha' => by
    rw [hi] at ha'
    cases ha'
    exact ht
  refine ⟨i, h.step htimely ?_⟩
  simp only [linkStep, hi, SendStorage.acknowledge_of_lt hn]

theorem of_read (h : l.Inv o) {segment : SequentialSegment} {rest : List SequentialSegment}
    (hq : l.receiver.popQueue = segment :: rest) : Inv o { l with
      receiver := { l.receiver with popQueue := rest }
      popped := l.popped ++ [segment] } :=
  h.of_result (.reads segment rest hq)

end Link.Inv

/-- An error sends nothing but a `Reset`. -/
theorem errorLocked_segment_eq_reset (s : StreamInner) (err : IoError) (sendReset : Bool) :
    ∀ segment ∈ (s.errorLocked err sendReset).2.filterMap ListenerCall.segment,
      segment = .reset := by
  rw [errorLocked]
  cases sendReset <;> simp [ListenerCall.segment]

/-! ## The relation -/

/-- The segments that `push` has accepted carry what the user of `x` has written. -/
structure Station.Writes (x : Station) (accepted : List SequentialSegment) : Prop where
  ne_accept : .accept ∉ accepted
  opened : x.closed = none → .finish ∉ accepted ∧ bytesOf accepted <+: x.written ∧
    (x.stream.isErr = false → bytesOf accepted ++ x.stream.sendBuffer = x.written)
  closed : ∀ w b, x.closed = some (w, b) → ∃ init rest, accepted = init ++ .finish :: rest ∧
    .finish ∉ init ∧ bytesOf init ++ b = w ∧ w <+: x.written

/-- What the user of `y` has read, and what it has in its buffer, is what has been popped. -/
structure Station.Reads (y : Station) (popped : List SequentialSegment) : Prop where
  unfinished : y.stream.recvFinished = false →
    .finish ∉ popped ∧ bytesOf popped = y.bytesRead ++ y.stream.recvBuffer
  finished : y.stream.recvFinished → y.stream.recvBuffer = [] ∧
    ∃ init, popped = init ++ [.finish] ∧ .finish ∉ init ∧ bytesOf init = y.bytesRead
  popping : ∀ len, y.reader = some (.popping len) →
    y.stream.recvBuffer = [] ∧ y.stream.recvFinished = false

/-- The acceptor has not sent its `Accept` yet. -/
structure AcceptUnsent (o : Opening) (x : Station) (l : Link) : Prop where
  first_eq : o.first = some .accept
  link_issued_eq : l.issued = 0
  issued_eq : x.issued = 0
  queueSent_eq : ∃ t, l.sender.queueSent = [⟨o.base, .accept, t⟩]
  nextUnsent_eq : l.sender.nextUnsent = o.base + 1
  storage_eq : x.stream.sendStorage = ⟨[], .accept :: l.sender.queueUnsent, o.base⟩
  acks_eq : l.acks = []
  copy_mem : ⟨0, o.base, .accept⟩ ∈ l.copies
  unopened : ¬x.outbox.any fun p => p.segment.isAccept

/-- The sending half of `x` is that of the link, or is about to be, or has come to its end. -/
inductive Station.Sending (o : Opening) (x : Station) (l : Link) : Prop
  | sent (he : x.stream.isErr = false) (hs : x.stream.sendStorage = l.sender)
  | unsent (he : x.stream.isErr = false) (hu : AcceptUnsent o x l)
  | silent (he : x.stream.isErr) (hs : x.stream.sendStorage.isEmpty)

/-- The segments from `x` to `y` run the link. -/
structure Carries (o : Opening) (x y : Station) (l : Link) : Prop where
  inv : l.Inv o
  accepted_eq : x.accepted = l.accepted
  popped_eq : y.popped = l.popped
  writes : x.Writes l.accepted
  sending : x.Sending o l
  issued_le : l.issued ≤ x.issued ∧ x.issued ≤ l.issued + 1
  copies : ∀ p ∈ x.outbox, ∀ n segment, p.segment = .sequential n segment →
    ∃ c ∈ l.copies, c.seqNum = n ∧ c.segment = segment ∧ p.senderIssued ≤ c.pos + 10
  acks : ∀ p ∈ y.outbox, ∀ n, p.segment = .acknowledge n →
    ∃ a ∈ l.acks, a.ackNum = n ∧ p.receiverIssued ≤ a.pos + 11
  receiver : y.stream.recvStorage.Thins l.receiver
  reads : y.Reads l.popped

variable {x x' y y' : Station}

/-! ## What the relation says -/

theorem prefix_of_prefix_append_cons {α : Type*} {l init rest : List α} {a : α}
    (h : l <+: init ++ a :: rest) (ha : a ∉ l) : l <+: init := by
  obtain ⟨t, ht⟩ := h
  rcases List.append_eq_append_iff.1 ht with ⟨s, rfl, -⟩ | ⟨s, rfl, hs⟩
  · exact List.prefix_append l s
  · cases s with
    | nil => simp
    | cons b s =>
      cases hs
      simp at ha

theorem eq_of_concat_prefix_append_cons {α : Type*} {l init rest : List α} {a : α}
    (h : l ++ [a] <+: init ++ a :: rest) (hl : a ∉ l) (hi : a ∉ init) : l = init := by
  have hpre : l <+: init :=
    prefix_of_prefix_append_cons ((List.prefix_append l [a]).trans h) hl
  obtain ⟨s, rfl⟩ := hpre
  rw [List.append_assoc, List.prefix_append_right_inj] at h
  cases s with
  | nil => rw [List.append_nil]
  | cons b s =>
    obtain ⟨rfl, -⟩ := List.cons_prefix_cons.1 h
    simp at hi

theorem SendStorage.pop_of_nothingSent (n : SequenceNumber) (segment : SequentialSegment)
    (rest : List SequentialSegment) (t t' : Instant) : pop ⟨[], segment :: rest, n⟩ t t' =
      .ok (some (n, segment), ⟨[⟨n, segment, t'⟩], rest, n + 1⟩) := rfl

namespace Carries

theorem popped_prefix (h : Carries o x y l) : l.popped <+: l.accepted :=
  (List.prefix_append _ _).trans h.inv.prefix_accepted

/-- What has been read, and what is to be read next, has been written. -/
theorem read_prefix (h : Carries o x y l) :
    y.bytesRead ++ y.stream.recvBuffer <+: x.written := by
  have hpre := h.popped_prefix
  have hmono : ∀ {xs ys : List SequentialSegment}, xs <+: ys → bytesOf xs <+: bytesOf ys := by
    rintro xs _ ⟨zs, rfl⟩
    rw [bytesOf_append]
    exact List.prefix_append _ _
  cases hc : x.closed with
  | none =>
    obtain ⟨hf, hw, -⟩ := h.writes.opened hc
    cases hfin : y.stream.recvFinished with
    | true =>
      obtain ⟨-, init, hinit, -⟩ := h.reads.finished hfin
      exact absurd (hpre.subset (hinit ▸ by simp)) hf
    | false =>
      rw [← (h.reads.unfinished hfin).2]
      exact (hmono hpre).trans hw
  | some wb =>
    obtain ⟨w, b⟩ := wb
    obtain ⟨init, rest, hacc, hf, rfl, hw⟩ := h.writes.closed w b hc
    rw [hacc] at hpre
    cases hfin : y.stream.recvFinished with
    | true =>
      obtain ⟨hbuf, init', hinit, hf', hbytes⟩ := h.reads.finished hfin
      rw [hinit] at hpre
      obtain rfl := eq_of_concat_prefix_append_cons hpre hf' hf
      rw [hbuf, List.append_nil, ← hbytes]
      exact (List.prefix_append _ _).trans hw
    | false =>
      obtain ⟨hf', hbytes⟩ := h.reads.unfinished hfin
      rw [← hbytes]
      exact ((hmono (prefix_of_prefix_append_cons hpre hf')).trans (List.prefix_append _ _)).trans
        hw

/-- The end of the stream is seen after everything that had been written when it was closed. -/
theorem closed_of_finished (h : Carries o x y l) (hfin : y.stream.recvFinished) :
    ∃ w b, x.closed = some (w, b) ∧ y.bytesRead ++ b = w := by
  have hpre := h.popped_prefix
  obtain ⟨-, init', hinit, hf', hbytes⟩ := h.reads.finished hfin
  cases hc : x.closed with
  | none => exact absurd (hpre.subset (hinit ▸ by simp)) (h.writes.opened hc).1
  | some wb =>
    obtain ⟨w, b⟩ := wb
    obtain ⟨init, rest, hacc, hf, hw, -⟩ := h.writes.closed w b hc
    rw [hinit, hacc] at hpre
    obtain rfl := eq_of_concat_prefix_append_cons hpre hf' hf
    exact ⟨w, b, rfl, hbytes ▸ hw⟩

/-- No `Accept` is in the queue of the receiver. -/
theorem popQueue_ne_accept (h : Carries o x y l) :
    ∀ segment ∈ y.stream.recvStorage.popQueue, segment ≠ .accept := by
  rintro segment hmem rfl
  rw [h.receiver.popQueue_eq] at hmem
  exact h.writes.ne_accept (h.inv.prefix_accepted.subset (List.mem_append_right _ hmem))

/-- A storage to which no `Finish` has been pushed says so. -/
theorem finishedUnchecked (h : Carries o x y l) (he : x.stream.isErr = false)
    (hf : .finish ∉ l.accepted) : x.stream.sendStorage.finishedUnchecked = .ok false := by
  cases h.sending with
  | sent _ hs =>
    rw [hs]
    exact h.inv.sends.finishedUnchecked hf
  | unsent _ hu =>
    have hne : x.stream.sendStorage.queueUnsent ≠ [] := by simp [hu.storage_eq]
    have hlast : x.stream.sendStorage.queueUnsent.getLast hne ≠ .finish := by
      intro heq
      have hmem := List.getLast_mem hne
      rw [heq, hu.storage_eq] at hmem
      rcases List.mem_cons.1 hmem with heq' | hmem
      · cases heq'
      · rw [h.inv.sends.unsent_eq] at hmem
        exact hf (List.mem_of_mem_drop hmem)
    rw [SendStorage.finishedUnchecked_of_queueUnsent hne, decide_eq_false hlast]
  | silent he' _ => simp [he] at he'

/-! ## Steps of the sender -/

/-- A step that leaves the sending half alone, and sends no `Sequential` segment. -/
theorem sender_frame (h : Carries o x y l) {b : List UInt8} {st : RecvStorage} {fin : Bool}
    {out : List UInt8} {popped : List SequentialSegment} (r : Option ReadPc) (sent : Bool)
    (ps : List Packet) (hps : ∀ p ∈ ps, ∀ n segment, p.segment ≠ .sequential n segment) : Carries o
      { x with
        stream := { x.stream with
          recvBuffer := b, recvStorage := st, recvFinished := fin, sendFinished := sent }
        reader := r
        outbox := x.outbox ++ ps
        bytesRead := out
        popped := popped } y l := by
  refine { h with
    writes := ⟨h.writes.ne_accept, h.writes.opened, h.writes.closed⟩
    sending := ?_
    copies := fun p hp n segment hs => ?_ }
  · cases h.sending with
    | sent he hs => exact .sent he hs
    | silent he hs => exact .silent he hs
    | unsent he hu =>
      have hno : (x.outbox ++ ps).any (fun p => p.segment.isAccept) = false := by
        rw [List.any_append, Bool.or_eq_false_iff]
        refine ⟨by simpa using hu.unopened, List.any_eq_false.2 fun p hp ha => ?_⟩
        cases hseg : p.segment with
        | sequential n segment => exact hps p hp n segment hseg
        | _ => simp [hseg, Segment.isAccept] at ha
      exact .unsent he { hu with unopened := by simp [hno] }
  · rcases List.mem_append.1 hp with hp | hp
    · exact h.copies p hp n segment hs
    · exact absurd hs (hps p hp n segment)

theorem takes (h : Carries o x y l) (bytes : List UInt8) :
    Carries o (x.taking bytes) y l := by
  refine { h with
    writes := ⟨h.writes.ne_accept, fun hc => ?_, fun w b hc => ?_⟩
    sending := ?_ }
  · obtain ⟨hf, hpre, hw⟩ := h.writes.opened hc
    refine ⟨hf, hpre.trans (List.prefix_append _ _), fun he => ?_⟩
    rw [Station.taking, ← hw he, List.append_assoc]
  · obtain ⟨init, rest, hacc, hf, hw, hpre⟩ := h.writes.closed w b hc
    exact ⟨init, rest, hacc, hf, hw, hpre.trans (List.prefix_append _ _)⟩
  · cases h.sending with
    | sent he hs => exact .sent he hs
    | silent he hs => exact .silent he hs
    | unsent he hu => exact .unsent he { hu with }

theorem pushes (h : Carries o x y l) {b : List UInt8} {ds : List DataSegment}
    (he : x.stream.isErr = false)
    (hb : x.stream.sendStorage.finishedUnchecked = .ok false →
      ds.flatMap DataSegment.data ++ b = x.stream.sendBuffer) :
    ∃ l', Carries o { x with
      stream := x.stream.pushed b ds
      accepted := x.accepted ++ ds.map .data } y l' := by
  have hne : .accept ∉ ds.map SequentialSegment.data := by simp
  refine ⟨_, { h with
    inv := h.inv.pushes hne
    accepted_eq := congrArg (· ++ ds.map .data) h.accepted_eq
    writes := ⟨?_, fun hc => ?_, fun w b' hc => ?_⟩
    sending := ?_ }⟩
  · rw [List.mem_append, not_or]
    exact ⟨h.writes.ne_accept, hne⟩
  · obtain ⟨hf, -, hw⟩ := h.writes.opened hc
    have heq : bytesOf (l.accepted ++ ds.map .data) ++ b = x.written := by
      rw [bytesOf_append, bytesOf_map_data, List.append_assoc, hb (h.finishedUnchecked he hf),
        hw he]
    refine ⟨by simpa using hf, ?_, fun _ => heq⟩
    rw [← heq]
    exact List.prefix_append _ _
  · obtain ⟨init, rest, hacc, hf, hw, hpre⟩ := h.writes.closed w b' hc
    exact ⟨init, rest ++ ds.map .data, by simp [hacc], hf, hw, hpre⟩
  · cases h.sending with
    | sent _ hs => exact .sent he (by simp [pushed, hs])
    | silent he' _ => simp [he] at he'
    | unsent _ hu => exact .unsent he { hu with storage_eq := by simp [pushed, hu.storage_eq] }

theorem finishes (h : Carries o x y l) (he : x.stream.isErr = false) :
    ∃ l', Carries o { x with
      stream := { x.stream with sendStorage := x.stream.sendStorage.pushBack .finish }
      closed := x.closed <|> some (x.written, x.stream.sendBuffer)
      accepted := x.accepted ++ [.finish] } y l' := by
  have hne : .accept ∉ [SequentialSegment.finish] := by simp
  refine ⟨_, { h with
    inv := h.inv.pushes hne
    accepted_eq := congrArg (· ++ [.finish]) h.accepted_eq
    writes := ⟨?_, fun hc => ?_, fun w b hc => ?_⟩
    sending := ?_ }⟩
  · rw [List.mem_append, not_or]
    exact ⟨h.writes.ne_accept, hne⟩
  · cases hx : x.closed <;> simp [hx] at hc
  · cases hx : x.closed with
    | none =>
      obtain ⟨hf, -, hw⟩ := h.writes.opened hx
      obtain ⟨rfl, rfl⟩ : x.written = w ∧ x.stream.sendBuffer = b := by simpa [hx] using hc
      exact ⟨l.accepted, [], rfl, hf, hw he, List.prefix_rfl⟩
    | some wb =>
      obtain rfl : wb = (w, b) := by simpa [hx] using hc
      obtain ⟨init, rest, hacc, hf, hw, hpre⟩ := h.writes.closed w b hx
      exact ⟨init, rest ++ [.finish], by simp [hacc], hf, hw, hpre⟩
  · cases h.sending with
    | sent _ hs => exact .sent he (by simp [SendStorage.pushBack, hs])
    | silent he' _ => simp [he] at he'
    | unsent _ hu =>
      exact .unsent he { hu with storage_eq := by simp [SendStorage.pushBack, hu.storage_eq] }

theorem acked (h : Carries o x y l) {p : Packet} {n : SequenceNumber} (hp : p ∈ y.outbox)
    (hf : p.Fresh y x) (hs : p.segment = .acknowledge n)
    (hn : x.stream.sendStorage.nextUnsent - n < windowSize) :
    ∃ l', Carries o { x with stream := { x.stream with
      sendStorage := (x.stream.sendStorage.acknowledge n).2 } } y l' := by
  obtain ⟨a, ha, rfl, hpos⟩ := h.acks p hp n hs
  have hissued := h.issued_le
  cases h.sending with
  | sent he hsend =>
    rw [hsend] at hn ⊢
    obtain ⟨i, hinv⟩ := h.inv.of_acknowledge ha (by have := hf.2; omega) hn
    exact ⟨_, { h with
      inv := hinv
      writes := ⟨h.writes.ne_accept, fun hc => h.writes.opened hc, h.writes.closed⟩
      sending := .sent he rfl }⟩
  | unsent he hu =>
    rw [hu.acks_eq] at ha
    cases ha
  | silent he hsend =>
    exact ⟨l, { h with
      writes := ⟨h.writes.ne_accept, h.writes.opened, h.writes.closed⟩
      sending := .silent he (SendStorage.isEmpty_acknowledge hsend _) }⟩

theorem sends (h : Carries o x y l) {t t' : Instant}
    {k : Option (SequenceNumber × SequentialSegment)} {s : SendStorage}
    (hk : x.stream.sendStorage.pop t t' = .ok (k, s)) :
    ∃ l', Carries o (x.react y { x.stream with sendStorage := s }
      (k.toList.map fun v => .sequential v.1 v.2)) y l' := by
  have hissued := h.issued_le
  cases h.sending with
  | sent he hsend =>
    rw [hsend] at hk
    obtain ⟨cs, issued, rfl, hinv, hcs⟩ := h.inv.of_pop hk
    refine ⟨_, { h with
      inv := hinv
      writes := ⟨h.writes.ne_accept, fun hc => h.writes.opened hc, h.writes.closed⟩
      sending := .sent he rfl
      issued_le := ?_
      copies := fun p hp n segment hs => ?_ }⟩
    · simp only [Station.react, hsend]
      omega
    · rcases List.mem_append.1 hp with hp | hp
      · obtain ⟨c, hc, hrest⟩ := h.copies p hp n segment hs
        exact ⟨c, List.mem_append_left _ hc, hrest⟩
      · obtain ⟨seg, hseg, rfl⟩ := List.mem_map.1 hp
        obtain ⟨v, hv, rfl⟩ := List.mem_map.1 hseg
        obtain ⟨rfl, rfl⟩ : v.1 = n ∧ v.2 = segment := by simpa using hs
        obtain ⟨c, hc, hnum, hcon, hlt⟩ := hcs v (by simpa using hv)
        refine ⟨c, List.mem_append_right _ hc, hnum, hcon, ?_⟩
        simp only [hsend]
        omega
  | unsent he hu =>
    obtain ⟨t₀, hq⟩ := hu.queueSent_eq
    rw [hu.storage_eq, SendStorage.pop_of_nothingSent] at hk
    obtain ⟨rfl, rfl⟩ := Prod.mk.inj (Except.ok.inj hk)
    have hissued' : (o.base + 1 - x.stream.sendStorage.nextUnsent).toNat = 1 := by
      rw [hu.storage_eq, add_sub_cancel_left]
      rfl
    refine ⟨_, { h with
      inv := h.inv.retime hq t'
      writes := ⟨h.writes.ne_accept, fun hc => h.writes.opened hc, h.writes.closed⟩
      sending := .sent he (by rw [← hu.nextUnsent_eq]; rfl)
      issued_le := ?_
      copies := fun p hp n segment hs => ?_ }⟩
    · simp only [Station.react, hissued', hu.issued_eq, hu.link_issued_eq]
      omega
    · rcases List.mem_append.1 hp with hp | hp
      · exact h.copies p hp n segment hs
      · obtain rfl := List.mem_singleton.1 hp
        cases hs
        refine ⟨_, hu.copy_mem, rfl, rfl, ?_⟩
        simp only [hissued', hu.issued_eq]
        omega
  | silent he hsend =>
    obtain ⟨hqs, hqu⟩ := SendStorage.isEmpty_iff.1 hsend
    cases SendStorage.PopResult.of_pop hk with
    | resent e rest hq _ => simp [hqs] at hq
    | fresh segment rest hq _ => simp [hqu] at hq
    | idle _ =>
      rw [Station.react_of_nextUnsent (by rfl)]
      exact ⟨l, by simpa using h⟩

/-- A step of the sender. -/
theorem sender_step (h : Carries o x y l) (hs : x.Step y x') : ∃ l', Carries o x' y l' := by
  cases hs with
  | same => exact ⟨l, h⟩
  | takes bytes => exact ⟨l, h.takes bytes⟩
  | pushes b ds he hb => exact h.pushes he hb
  | finishes he _ => exact h.finishes he
  | finished => exact ⟨l, by simpa [finishWriteDone] using h.sender_frame x.reader true [] nofun⟩
  | looks r _ => exact ⟨l, by simpa using h.sender_frame r x.stream.sendFinished [] nofun⟩
  | reads len =>
    exact ⟨l, by simpa [readTake] using h.sender_frame none x.stream.sendFinished [] nofun⟩
  | pops len _ =>
    obtain ⟨b, st, fin, hpop⟩ := x.stream.readPop_eq
    rw [hpop]
    exact ⟨l, by simpa using
      h.sender_frame (some (.looking len)) x.stream.sendFinished [] nofun⟩
  | receives p n segment r hp hf hseg hr =>
    exact ⟨l, by simpa using h.sender_frame x.reader x.stream.sendFinished [] nofun⟩
  | acked p n hp hf hseg hn => exact h.acked hp hf hseg hn
  | acknowledges t t' k r hk =>
    rw [Station.react_of_nextUnsent (by rfl)]
    refine ⟨l, h.sender_frame x.reader x.stream.sendFinished _ fun p hp n segment hseg => ?_⟩
    obtain ⟨_, hmem, rfl⟩ := List.mem_map.1 hp
    obtain ⟨m, -, rfl⟩ := List.mem_map.1 hmem
    cases hseg
  | sends t t' k s hk => exact h.sends hk
  | refuses =>
    rw [Station.react_of_nextUnsent (by rfl)]
    refine ⟨l, h.sender_frame x.reader x.stream.sendFinished _ fun p hp n segment hseg => ?_⟩
    obtain rfl := List.mem_singleton.1 hp
    cases hseg

/-- The sender errs, for the first time or again. -/
theorem failLate (h : Carries o x y l) (err : IoError) (sendReset : Bool) :
    Carries o (x.failLate y err sendReset) y l := by
  have hreset := errorLocked_segment_eq_reset x.stream err sendReset
  rw [Station.failLate, Station.react_of_nextUnsent (by rfl)]
  refine { h with
    writes := ⟨h.writes.ne_accept, fun hc => ?_, h.writes.closed⟩
    sending := .silent rfl rfl
    copies := fun p hp n segment hs => ?_ }
  · obtain ⟨hf, hpre, -⟩ := h.writes.opened hc
    exact ⟨hf, hpre, fun he => Bool.noConfusion he⟩
  · rcases List.mem_append.1 hp with hp | hp
    · exact h.copies p hp n segment hs
    · obtain ⟨seg, hseg, rfl⟩ := List.mem_map.1 hp
      cases (hreset seg hseg).symm.trans hs

/-! ## Steps of the receiver -/

theorem sending_congr (h : x.Sending o l) (hno : ¬AcceptUnsent o x l) {l' : Link}
    (hl : l'.sender = l.sender) : x.Sending o l' := by
  cases h with
  | sent he hs => exact .sent he (hs.trans hl.symm)
  | unsent _ hu => exact absurd hu hno
  | silent he hs => exact .silent he hs

/-- A step that leaves the receiving half alone, and sends no `Acknowledge`. -/
theorem receiver_frame (h : Carries o x y l) {b : List UInt8} {st : SendStorage} {fin : Bool}
    {n : ℕ} {w : List UInt8} {cl : Option (List UInt8 × List UInt8)}
    {accepted : List SequentialSegment} (ps : List Packet)
    (hps : ∀ p ∈ ps, ∀ n, p.segment ≠ .acknowledge n) : Carries o x
      { y with
        stream := { y.stream with sendBuffer := b, sendStorage := st, sendFinished := fin }
        issued := n
        outbox := y.outbox ++ ps
        written := w
        closed := cl
        accepted := accepted } l := by
  refine { h with
    acks := fun p hp n hs => ?_
    reads := ⟨h.reads.unfinished, h.reads.finished, h.reads.popping⟩ }
  rcases List.mem_append.1 hp with hp | hp
  · exact h.acks p hp n hs
  · exact absurd hs (hps p hp n)

theorem looks (h : Carries o x y l) {r : Option ReadPc}
    (hr : ∀ len, r = some (.popping len) →
      y.stream.recvBuffer = [] ∧ y.stream.recvFinished = false) :
    Carries o x { y with reader := r } l :=
  { h with
    acks := h.acks
    reads := ⟨h.reads.unfinished, h.reads.finished, hr⟩ }

/-- A `read` returns what it finds in the buffer. -/
theorem reads_readTake (h : Carries o x y l) (len : ℕ) : Carries o x { y with
    stream := (y.stream.readTake len).2
    reader := none
    bytesRead := y.bytesRead ++ (y.stream.readTake len).1 } l := by
  refine { h with
    acks := h.acks
    reads := ⟨fun hfin => ?_, fun hfin => ?_, nofun⟩ }
  · obtain ⟨hf, hbytes⟩ := h.reads.unfinished hfin
    refine ⟨hf, hbytes.trans ?_⟩
    simp only [readTake, List.append_assoc, List.take_append_drop]
  · obtain ⟨hnil, init, hinit, hf, hbytes⟩ := h.reads.finished hfin
    refine ⟨?_, init, hinit, hf, ?_⟩
    · simp [readTake, hnil]
    · simp [readTake, hnil, hbytes]

/-- A `read` pops what is next in the queue. -/
theorem pops (h : Carries o x y l) (hno : ¬AcceptUnsent o x l) {len : ℕ}
    (hr : y.reader = some (.popping len)) : ∃ l', Carries o x
      { y with
        stream := y.stream.readPop
        reader := some (.looking len)
        popped := y.popped ++ y.stream.recvStorage.pop.1.toList } l' := by
  obtain ⟨hb, hfin⟩ := h.reads.popping len hr
  obtain ⟨hf, hbytes⟩ := h.reads.unfinished hfin
  have hlook : ∀ {P : Prop} (len' : ℕ), some (.looking len) = some (ReadPc.popping len') → P :=
    fun _ heq => ReadPc.noConfusion (Option.some.inj heq)
  cases hq : y.stream.recvStorage.popQueue with
  | nil =>
    rw [readPop_of_nil hq, RecvStorage.pop, hq]
    exact ⟨l, by simpa using h.looks hlook⟩
  | cons segment rest =>
    refine ⟨_, { h with
      inv := h.inv.of_read (h.receiver.popQueue_eq.symm.trans hq)
      popped_eq := by simp [RecvStorage.pop, hq, h.popped_eq]
      writes := h.writes
      sending := sending_congr h.sending hno rfl
      acks := h.acks
      receiver := ?_
      reads := ?_ }⟩
    · rw [readPop, RecvStorage.pop, hq]
      cases segment <;> exact h.receiver.pop rest
    cases segment with
    | accept => exact absurd rfl (h.popQueue_ne_accept .accept (by simp [hq]))
    | finish =>
      rw [readPop, RecvStorage.pop, hq]
      exact ⟨fun hno => Bool.noConfusion hno,
        fun _ => ⟨hb, l.popped, rfl, hf, by rw [hbytes, hb, List.append_nil]⟩, hlook⟩
    | data d =>
      rw [readPop, RecvStorage.pop, hq]
      refine ⟨fun _ => ⟨by simpa using hf, ?_⟩, fun hfin' => absurd hfin' (by simp [hfin]), hlook⟩
      rw [bytesOf_append, hbytes, List.append_assoc]
      simp [bytesOf, SequentialSegment.payload]

theorem receives (h : Carries o x y l) (hno : ¬AcceptUnsent o x l) {p : Packet}
    {n : SequenceNumber} {segment : SequentialSegment} {r : RecvStorage} (hp : p ∈ x.outbox)
    (hf : p.Fresh x y) (hs : p.segment = .sequential n segment)
    (hr : y.stream.recvStorage.recv n segment = .ok (.ok (), r)) :
    ∃ l', Carries o x { y with stream := { y.stream with recvStorage := r } } l' := by
  obtain ⟨c, hc, rfl, rfl, hpos⟩ := h.copies p hp n segment hs
  have hissued := h.issued_le
  have hfresh := hf.1
  obtain ⟨t, i, hinv, hthins⟩ := h.inv.of_recv hc (by omega) h.receiver hr
  exact ⟨_, { h with
    inv := hinv
    writes := h.writes
    sending := sending_congr h.sending hno rfl
    acks := h.acks
    receiver := hthins
    reads := ⟨h.reads.unfinished, h.reads.finished, h.reads.popping⟩ }⟩

theorem acknowledges (h : Carries o x y l) (hno : ¬AcceptUnsent o x l) {t t' : Instant}
    {k : Option SequenceNumber} {r : RecvStorage}
    (hk : y.stream.recvStorage.popAcknowledge t t' = (k, r)) :
    ∃ l', Carries o x
      (y.react x { y.stream with recvStorage := r } (k.toList.map .acknowledge)) l' := by
  have hissued := h.issued_le
  have hrel := h.inv.issued_le
  have hlen := h.inv.sends.length_le
  have hthins := h.receiver.popAcknowledge t t'
  have hnum : ∀ n ∈ k.toList, n = l.receiver.window - 1 := fun n hn => by
    rw [← h.receiver.window_eq]
    exact RecvStorage.popAcknowledge_eq_some t t' (by rw [hk]; simpa using hn)
  rw [hk] at hthins
  rw [Station.react_of_nextUnsent (by rfl)]
  refine ⟨_, { h with
    inv := h.inv.of_acks hnum
    writes := h.writes
    sending := sending_congr h.sending hno rfl
    acks := fun p hp n hs => ?_
    receiver := hthins
    reads := ⟨h.reads.unfinished, h.reads.finished, h.reads.popping⟩ }⟩
  rcases List.mem_append.1 hp with hp | hp
  · obtain ⟨a, ha, hrest⟩ := h.acks p hp n hs
    exact ⟨a, List.mem_append_left _ ha, hrest⟩
  · obtain ⟨_, hseg, rfl⟩ := List.mem_map.1 hp
    obtain ⟨m, hm, rfl⟩ := List.mem_map.1 hseg
    obtain rfl := Segment.acknowledge.inj hs
    exact ⟨_, List.mem_append_right _ (List.mem_map_of_mem hm), rfl, by simp only; omega⟩

/-- The receiver errs, for the first time or again. -/
theorem receiver_failLate (h : Carries o x y l) (hno : ¬AcceptUnsent o x l) (err : IoError)
    (sendReset : Bool) : ∃ l', Carries o x (y.failLate x err sendReset) l' := by
  have hreset := errorLocked_segment_eq_reset y.stream err sendReset
  rw [Station.failLate, Station.react_of_nextUnsent (by rfl)]
  refine ⟨_, { h with
    inv := h.inv.settled
    writes := h.writes
    sending := sending_congr h.sending hno rfl
    acks := fun p hp n hs => ?_
    receiver := h.receiver.clear
    reads := ⟨h.reads.unfinished, h.reads.finished, h.reads.popping⟩ }⟩
  rcases List.mem_append.1 hp with hp | hp
  · exact h.acks p hp n hs
  · obtain ⟨seg, hseg, rfl⟩ := List.mem_map.1 hp
    cases (hreset seg hseg).symm.trans hs

/-- A step of the receiver. -/
theorem receiver_step (h : Carries o x y l) (hno : ¬AcceptUnsent o x l) (hs : y.Step x y') :
    ∃ l', Carries o x y' l' := by
  cases hs with
  | same => exact ⟨l, h⟩
  | takes bytes => exact ⟨l, by simpa [Station.taking] using h.receiver_frame [] (by simp)⟩
  | pushes b ds _ _ => exact ⟨l, by simpa [pushed] using h.receiver_frame [] (by simp)⟩
  | finishes _ _ => exact ⟨l, by simpa using h.receiver_frame [] (by simp)⟩
  | finished => exact ⟨l, by simpa [finishWriteDone] using h.receiver_frame [] (by simp)⟩
  | looks r hr => exact ⟨l, h.looks hr⟩
  | reads len => exact ⟨l, h.reads_readTake len⟩
  | pops len hr => exact h.pops hno hr
  | receives p n segment r hp hf hseg hr => exact h.receives hno hp hf hseg hr
  | acked p n hp hf hseg hn => exact ⟨l, by simpa using h.receiver_frame [] (by simp)⟩
  | acknowledges t t' k r hk => exact h.acknowledges hno hk
  | sends t t' k s hk =>
    refine ⟨l, h.receiver_frame _ fun p hp n hseg => ?_⟩
    obtain ⟨_, hmem, rfl⟩ := List.mem_map.1 hp
    obtain ⟨v, -, rfl⟩ := List.mem_map.1 hmem
    cases hseg
  | refuses =>
    refine ⟨l, h.receiver_frame _ fun p hp n hseg => ?_⟩
    obtain rfl := List.mem_singleton.1 hp
    cases hseg

/-! ## Outcomes -/

theorem sender_outcome (h : Carries o x y l) (hs : x.Outcome y x') : ∃ l', Carries o x' y l' := by
  cases hs with
  | goesOn hstep => exact h.sender_step hstep
  | ends hstep err sendReset =>
    obtain ⟨l', h'⟩ := h.sender_step hstep
    exact ⟨l', h'.failLate err sendReset⟩

theorem receiver_outcome (h : Carries o x y l) (hno : ∀ l, ¬AcceptUnsent o x l)
    (hs : y.Outcome x y') : ∃ l', Carries o x y' l' := by
  cases hs with
  | goesOn hstep => exact h.receiver_step (hno l) hstep
  | ends hstep err sendReset =>
    obtain ⟨l', h'⟩ := h.receiver_step (hno l) hstep
    exact h'.receiver_failLate (hno l') err sendReset

end Carries

end Mdswp
