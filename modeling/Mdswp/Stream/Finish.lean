import Mdswp.Stream.SendBlock
import Mdswp.Stream.Session

/-!
# Finishing the sending half

`finish_write` waits until the send storage is empty, and takes that as a sign that everything was
acknowledged. But an error empties the storage too. `Session.Accounted` accounts for every enqueued
segment as long as no error comes between (`ErrorsQuietly`), and then `finish_write` returns `Ok`
only for delivered data (`along_okDelivered`).

Whether `Finish` has been pushed is read off the storage, which can tell only until it is
acknowledged. Nothing is written after `Finish` exactly as long as the storage can tell whenever it
is asked, and every `write` fills a segment, so that it is asked (`along_nothingAfterFinish_iff`).
-/

namespace Mdswp

open StreamInner SendStorage

variable {st st' : Session} {e : SessionEvent}

/-! ## Success means delivery -/

/-- If the step ends the connection with an error, no `finish_write` is between its flush and its
push, and the storage is empty if one is waiting. -/
def ErrorsQuietly (st : Session) (e : SessionEvent) : Prop :=
  ∀ st', sessionStep st e = .ok st' → st.inner.isErr = false → st'.inner.isErr →
    .flushed ∉ st'.calls ∧ (.waiting ∈ st'.calls → st.inner.sendStorage.isEmpty)

instance (st : Session) (e : SessionEvent) : Decidable (ErrorsQuietly st e) :=
  match h : sessionStep st e with
  | .ok st' =>
    decidable_of_iff (st.inner.isErr = false → st'.inner.isErr →
        .flushed ∉ st'.calls ∧ (.waiting ∈ st'.calls → st.inner.sendStorage.isEmpty))
      (by simp [ErrorsQuietly, h])
  | .error f => isTrue (by simp [ErrorsQuietly, h])

/-- If the step makes a `finish_write` return `Ok`, all that was ever enqueued has been removed by
accepted acknowledgements, and it had been when the connection errored, if it has. -/
def OkDelivered (st : Session) : SessionEvent → Prop
  | .finishPoll k => st.calls[k]? = some .waiting →
      st.inner.finishWritePoll.1 = some (.ok ()) →
        st.enqueued.Perm (st.acknowledged.map Sent.segment) ∧
          ∀ n ∈ st.erroredAt, n = st.enqueued.length
  | _ => True

/-- Every enqueued segment has been acknowledged, or is in flight, or is unsent. -/
structure Session.Accounted (st : Session) : Prop where
  healthy : st.inner.isErr = false → st.erroredAt = none ∧
    st.enqueued.Perm (st.acknowledged.map Sent.segment ++
      (st.inner.sendStorage.queueSent.map Sent.segment ++ st.inner.sendStorage.queueUnsent))
  errored : st.inner.isErr → .flushed ∉ st.calls ∧ (.waiting ∈ st.calls →
    st.inner.sendStorage.isEmpty ∧ st.enqueued.Perm (st.acknowledged.map Sent.segment) ∧
      st.erroredAt = some st.enqueued.length)

theorem accounted_new {s : StreamInner} (h : s.isErr = false) (hs : s.sendStorage.queueSent = []) :
    (Session.new s).Accounted :=
  ⟨fun _ => ⟨rfl, by simp [Session.new, hs]⟩, fun he => by simp [Session.new, h] at he⟩

/-- The entries an accepted acknowledgement covers are those it removes. -/
theorem covered_append_perm {s : SendStorage} {n : SequenceNumber}
    (hn : s.nextUnsent - n < windowSize) :
    (s.covered (.acknowledge n) ++ (s.acknowledge n).2.queueSent).Perm s.queueSent := by
  rw [acknowledge_of_lt hn, covered, if_neg (BitVec.not_le.2 hn)]
  simpa only [decide_not] using
    List.filter_append_perm (fun e : Sent => decide (n - e.seqNum < windowSize)) s.queueSent

namespace Session.Accounted

theorem fail (h : st.Accounted) {calls : List FinishCall}
    (hcalls : st.inner.isErr → calls = st.calls)
    (hq : st.inner.isErr = false → .flushed ∉ calls ∧
      (.waiting ∈ calls → st.inner.sendStorage.isEmpty)) (err : IoError) (sendReset : Bool) :
    Session.Accounted { st.fail err sendReset with calls := calls } := by
  refine ⟨fun he => by simp [Session.fail] at he, fun _ => ?_⟩
  cases he : st.inner.isErr with
  | true =>
    have hin : (st.fail err sendReset).inner = st.inner := by simp [Session.fail, error_of_isErr he]
    have hat : (st.fail err sendReset).erroredAt = st.erroredAt := by simp [Session.fail, he]
    dsimp only
    rw [hcalls he, hin, hat]
    exact h.errored he
  | false =>
    obtain ⟨hnone, hperm⟩ := h.healthy he
    obtain ⟨hfl, hw⟩ := hq he
    have hat : (st.fail err sendReset).erroredAt = some st.acknowledged.length := by
      simp [Session.fail, he]
    refine ⟨hfl, fun hwait => ?_⟩
    obtain ⟨hs, hu⟩ := isEmpty_iff.1 (hw hwait)
    rw [hs, hu, List.map_nil, List.append_nil, List.append_nil] at hperm
    refine ⟨?_, hperm, ?_⟩
    · simp [Session.fail, error_of_not_isErr he, clear, isEmpty]
    · dsimp only
      rw [hat]
      show some st.acknowledged.length = some st.enqueued.length
      rw [hperm.length_eq, List.length_map]

theorem sends (h : st.Accounted) {t t' : Instant} {x : Option (SequenceNumber × SequentialSegment)}
    {s : SendStorage} (hp : PopResult st.inner.sendStorage t t' x s) :
    Session.Accounted { st with inner := { st.inner with sendStorage := s } } := by
  constructor
  · intro he
    obtain ⟨hnone, hperm⟩ := h.healthy he
    exact ⟨hnone, hperm.trans (hp.perm.symm.append_left _)⟩
  · intro he
    obtain ⟨hfl, hw⟩ := h.errored he
    refine ⟨hfl, fun hwait => ?_⟩
    obtain ⟨hempty, hrest⟩ := hw hwait
    exact ⟨hp.isEmpty_iff.2 hempty, hrest⟩

theorem pushes (h : st.Accounted) (he : st.inner.isErr = false) (b : List UInt8)
    (l : List DataSegment) (calls : List FinishCall) :
    Session.Accounted { st.pushes b l with calls := calls } := by
  constructor
  · intro _
    obtain ⟨hnone, hperm⟩ := h.healthy he
    refine ⟨hnone, (hperm.append_right _).trans ?_⟩
    simp [Session.pushes, pushed]
  · intro he'
    rw [show Session.inner { st.pushes b l with calls := calls } = st.inner.pushed b l from rfl,
      isErr_pushed, he] at he'
    cases he'

/-- An accepted acknowledgement moves what it covers. -/
theorem acked (h : st.Accounted) {n : SequenceNumber}
    (hn : st.inner.sendStorage.nextUnsent - n < windowSize) :
    Session.Accounted { st with
      inner := { st.inner with sendStorage := (st.inner.sendStorage.acknowledge n).2 }
      acknowledged := st.acknowledged ++ st.inner.sendStorage.covered (.acknowledge n) } := by
  have hperm := covered_append_perm hn
  constructor
  · intro he
    obtain ⟨hnone, hall⟩ := h.healthy he
    refine ⟨hnone, hall.trans ?_⟩
    have hmap := (hperm.map Sent.segment).symm
    rw [List.map_append] at hmap
    rw [acknowledge_queueUnsent, List.map_append, List.append_assoc]
    apply List.Perm.append_left _
    rw [← List.append_assoc]
    exact hmap.append_right _
  · intro he
    obtain ⟨hfl, hw⟩ := h.errored he
    refine ⟨hfl, fun hwait => ?_⟩
    obtain ⟨hempty, hall, hat⟩ := hw hwait
    obtain ⟨hs, hu⟩ := isEmpty_iff.1 hempty
    rw [hs, List.perm_nil, List.append_eq_nil_iff] at hperm
    refine ⟨isEmpty_iff.2 ⟨hperm.2, ?_⟩, ?_, hat⟩
    · rw [acknowledge_queueUnsent, hu]
    · rw [hperm.1, List.append_nil]
      exact hall

/-- A `finish_write` between its flush and its push is that of a healthy stream. -/
theorem isErr_of_flushed (h : st.Accounted) {k : ℕ} (hk : st.calls[k]? = some .flushed) :
    st.inner.isErr = false := by
  by_contra he
  exact (h.errored (by simpa using he)).1 (List.mem_of_getElem? hk)

theorem step (h : st.Accounted) (hq : ErrorsQuietly st e) (hs : sessionStep st e = .ok st') :
    st'.Accounted := by
  have hq' := hq st' hs
  cases sessionStep_result hs with
  | same => exact h
  | wrote buf b l he => exact h.pushes he b l st.calls
  | flushed b l he => exact h.pushes he b l st.calls
  | finishRefused err he =>
    refine ⟨h.healthy, fun he' => ?_⟩
    obtain ⟨hfl, hw⟩ := h.errored he'
    refine ⟨by simpa using hfl, fun hwait => hw ?_⟩
    simpa using hwait
  | finishFlushed b l c he hc => exact h.pushes he b l _
  | finishPushed k hk hf =>
    have he := h.isErr_of_flushed hk
    refine ⟨fun _ => ?_, fun he' => absurd (he.symm.trans he') (by decide)⟩
    obtain ⟨hnone, hperm⟩ := h.healthy he
    refine ⟨hnone, (hperm.append_right _).trans ?_⟩
    simp [pushBack]
  | finishFailed k hk hf err err' =>
    have he := h.isErr_of_flushed hk
    exact h.fail (fun he' => absurd (he.symm.trans he') (by decide))
      (fun _ => hq' he (by simp [Session.fail])) err true
  | finished k hk hempty =>
    refine ⟨h.healthy, fun he => ?_⟩
    obtain ⟨hfl, hw⟩ := h.errored he
    refine ⟨fun hmem => ?_, fun hmem => hw ?_⟩
    · rcases List.mem_or_eq_of_mem_set hmem with hmem | heq
      · exact hfl hmem
      · cases heq
    · rcases List.mem_or_eq_of_mem_set hmem with hmem | heq
      · exact hmem
      · cases heq
  | reads => exact ⟨h.healthy, h.errored⟩
  | fails _ err sendReset =>
    exact h.fail (fun _ => rfl) (fun he => hq' he (by simp [Session.fail])) err sendReset
  | acked n hn => exact h.acked hn
  | received => exact ⟨h.healthy, h.errored⟩
  | checked => exact ⟨h.healthy, h.errored⟩
  | acks => exact ⟨h.healthy, h.errored⟩
  | ackFails t t' sent r err hw =>
    have h₁ : Session.Accounted { st with inner := { st.inner with recvStorage := r } } :=
      ⟨h.healthy, h.errored⟩
    have h₂ := h₁.fail (fun _ => rfl) (fun he => hq' he (by simp [Session.fail])) err true
    exact ⟨h₂.healthy, h₂.errored⟩
  | sends t t' sent x s pc hw hpc hp => exact ⟨(h.sends hp).healthy, (h.sends hp).errored⟩
  | sendFails t t' sent x s err hw hp =>
    have h₂ := (h.sends hp).fail (fun _ => Eq.refl st.calls) (fun he => ?_) err true
    · exact ⟨h₂.healthy, h₂.errored⟩
    · obtain ⟨hfl, hempty⟩ := hq' he (by simp [Session.fail])
      exact ⟨hfl, fun hwait => hp.isEmpty_iff.2 (hempty hwait)⟩

theorem okDelivered (h : st.Accounted) (e : SessionEvent) : OkDelivered st e := by
  cases e with
  | finishPoll k =>
    intro hk hpoll
    rw [finishWritePoll] at hpoll
    split_ifs at hpoll with hempty
    cases he : st.inner.isErr with
    | true =>
      obtain ⟨-, hperm, hat⟩ := (h.errored he).2 (List.mem_of_getElem? hk)
      refine ⟨hperm, fun n hn => ?_⟩
      rw [hat] at hn
      exact (Option.some.inj hn).symm
    | false =>
      obtain ⟨hnone, hperm⟩ := h.healthy he
      obtain ⟨hs, hu⟩ := isEmpty_iff.1 hempty
      refine ⟨by simpa [hs, hu] using hperm, fun n hn => ?_⟩
      rw [hnone] at hn
      cases hn
  | _ => trivial

end Session.Accounted

/-- A stream as a constructor makes it. -/
inductive Fresh : StreamInner → Prop
  | byPeer (peerAddr : SocketAddr) (establishSeqNum acceptSeqNum : SequenceNumber) :
    Fresh (.newByPeer peerAddr establishSeqNum acceptSeqNum)
  | byLocal (peerAddr : SocketAddr) (establishSeqNum acceptSeqNum : SequenceNumber) :
    Fresh (.newByLocal peerAddr establishSeqNum acceptSeqNum)

theorem Fresh.accounted {s : StreamInner} (h : Fresh s) : (Session.new s).Accounted := by
  cases h <;> exact accounted_new rfl rfl

/-- **`finish_write` reports success only for delivered data** in the runs in which no error comes
while a `finish_write` is under way, unless everything has been acknowledged. -/
theorem along_okDelivered {s : StreamInner} (hs : Fresh s) {es : List SessionEvent}
    (h : Along sessionStep ErrorsQuietly (.new s) es) :
    Along sessionStep OkDelivered (.new s) es :=
  Along.of_invariant Session.Accounted (fun _ e ha _ => ha.okDelivered e)
    (fun _ _ _ ha hq hst => ha.step hq hst) hs.accounted h

/-- A `finish_write` whose `Finish`, with the number 1, is sent and acknowledged, and then returns;
the connection is reset after that. -/
def finishThenReset : List SessionEvent :=
  [.finishFlush, .finishPush 0, .worker 0 0 (.ok ()), .worker 0 0 (.ok ()), .worker 0 0 (.ok ()),
    .finishPoll 0, .recv (.acknowledge 1), .finishPoll 0, .recv .reset]

theorem okDelivered_finishThenReset :
    Along sessionStep OkDelivered (.new (.newByLocal (.v4 0 0) 0 0)) finishThenReset :=
  along_okDelivered (.byLocal (.v4 0 0) 0 0) (by decide)

/-- The peer resets the connection while `finish_write` waits, and it returns `Ok`, although the
`Finish` has not even been sent. -/
theorem finishWrite_ok_after_reset :
    ∃ st, run sessionStep (.new (.newByLocal (.v4 0 0) 0 0))
        [.finishFlush, .finishPush 0, .recv .reset, .finishPoll 0] = .ok st ∧
      st.calls = [.returned (.ok ())] ∧ st.inner.connState = .error connResetByPeer ∧
      st.enqueued = [.finish] ∧ st.acknowledged = [] :=
  ⟨_, rfl, rfl, rfl, rfl, rfl⟩

/-! ## Nothing after `Finish` -/

/-- The step enqueues nothing; a `write` of a non-empty buffer and the push of a `finish_write`
return an error. -/
structure WritesNothing (st : Session) (e : SessionEvent) : Prop where
  enqueued_eq : ∀ st', sessionStep st e = .ok st' → st'.enqueued = st.enqueued
  write : ∀ buf, e = .write buf → buf ≠ [] → ∃ err s, st.inner.write buf = .ok (.error err, s)
  finishPush : ∀ k, e = .finishPush k → st.calls[k]? = some .flushed →
    ∃ err x, st.inner.finishWritePush = .ok (.error err, x)

/-- If `Finish` has been enqueued, nothing is written. -/
def NothingAfterFinish (st : Session) (e : SessionEvent) : Prop :=
  .finish ∈ st.enqueued → WritesNothing st e

/-- If the step would push, the storage is not empty, so that it can tell that `Finish` has been
pushed; and a `write` does push, unless it is one of nothing. An errored connection turns `write`
and `flush` away beforehand. -/
def StorageTells (st : Session) : SessionEvent → Prop
  | .write buf => st.inner.isErr ∨
      (buf = [] ∨ maxDataLen ≤ (st.inner.sendBuffer ++ buf).length) ∧
        (maxDataLen ≤ (st.inner.sendBuffer ++ buf).length → ¬st.inner.sendStorage.isEmpty)
  | .flush | .finishFlush =>
      st.inner.isErr ∨ st.inner.sendBuffer = [] ∨ ¬st.inner.sendStorage.isEmpty
  | .finishPush k => st.calls[k]? = some .flushed → ¬st.inner.sendStorage.isEmpty
  | _ => True

/-- If `Finish` has been enqueued, the storage can tell. -/
def TellsAfterFinish (st : Session) (e : SessionEvent) : Prop :=
  .finish ∈ st.enqueued → StorageTells st e

/-- An acknowledgement from the peer does not name the number issued next with a whole window in
flight. -/
def AckBelowNext (st : Session) : SessionEvent → Prop
  | .recv (.acknowledge n) => n = st.inner.sendStorage.nextUnsent →
      st.inner.sendStorage.queueSent.length < windowSize.toNat
  | _ => True

instance (st : Session) : ∀ e, Decidable (StorageTells st e)
  | .write _ | .flush | .finishFlush => inferInstanceAs (Decidable (_ ∨ _))
  | .finishPush _ => inferInstanceAs (Decidable (_ → _))
  | .finishPoll _ | .read _ | .readWait _ | .recv _ | .error _ _ | .worker _ _ _ => isTrue trivial

instance (st : Session) (e : SessionEvent) : Decidable (TellsAfterFinish st e) :=
  inferInstanceAs (Decidable (_ → _))

instance (st : Session) : ∀ e, Decidable (AckBelowNext st e)
  | .recv (.acknowledge _) => inferInstanceAs (Decidable (_ → _))
  | .recv .reset | .recv (.establish _) | .recv (.sequential _ _) => isTrue trivial
  | .write _ | .flush | .finishFlush | .finishPush _ | .finishPoll _ | .read _ | .readWait _
  | .error _ _ | .worker _ _ _ => isTrue trivial

/-- Once `Finish` has been enqueued, it is the last segment as long as there is any. -/
structure Session.FinishLast (st : Session) : Prop where
  block : st.inner.sendStorage.Block
  last : .finish ∈ st.enqueued → st.inner.sendStorage.isEmpty ∨
    st.inner.sendStorage.finishedUnchecked = .ok true

theorem Fresh.finishLast {s : StreamInner} (h : Fresh s) : (Session.new s).FinishLast := by
  cases h with
  | byPeer p e a =>
    refine ⟨block_newByPeer a, fun hf => ?_⟩
    rw [Session.new] at hf
    cases List.mem_singleton.1 hf
  | byLocal p e a => exact ⟨block_newByLocal e, fun _ => .inl rfl⟩

theorem writesNothing_write {buf : List UInt8} {r : IoResult ℕ} {s : StreamInner}
    (hw : st.inner.write buf = .ok (r, s)) (hen : (st.pushing s).enqueued = st.enqueued)
    (hr : buf ≠ [] → ∃ err, r = .error err) : WritesNothing st (.write buf) := by
  refine ⟨fun st' hs => ?_, fun buf' he hne => ?_, fun _ he => SessionEvent.noConfusion he⟩
  · rw [sessionStep, hw] at hs
    rw [← Except.ok.inj hs]
    exact hen
  · cases he
    obtain ⟨err, rfl⟩ := hr hne
    exact ⟨err, s, hw⟩

theorem writesNothing_finishPush {k : ℕ}
    (hen : ∀ st', sessionStep st (.finishPush k) = .ok st' → st'.enqueued = st.enqueued)
    (hp : st.calls[k]? = some .flushed →
      ∃ err x, st.inner.finishWritePush = .ok (.error err, x)) :
    WritesNothing st (.finishPush k) := by
  refine ⟨hen, fun _ he => SessionEvent.noConfusion he, fun k' he hk => ?_⟩
  cases he
  exact hp hk

namespace Session.FinishLast

/-- The loop of `write` and `flush` after `Finish` has been enqueued. -/
theorem pushBuffered (h : st.FinishLast) (hf : .finish ∈ st.enqueued) {s : StreamInner}
    (hs : s.sendStorage = st.inner.sendStorage) {atLeast rounds : ℕ} (ha : 0 < atLeast)
    (hr : s.sendBuffer.length < rounds) :
    (s.sendBuffer.length < atLeast ∧ StreamInner.pushBuffered atLeast rounds s = .ok (.ok (), s)) ∨
      (atLeast ≤ s.sendBuffer.length ∧ ¬s.sendStorage.isEmpty ∧ ∃ b,
        StreamInner.pushBuffered atLeast rounds s =
          .ok (.error connWriteFinished, { s with sendBuffer := b })) ∨
      (atLeast ≤ s.sendBuffer.length ∧ s.sendStorage.isEmpty ∧ ∃ b l, l ≠ [] ∧
        StreamInner.pushBuffered atLeast rounds s = .ok (.ok (), s.pushed b l)) := by
  have hlast := h.last hf
  rw [← hs] at hlast
  rcases Nat.lt_or_ge s.sendBuffer.length atLeast with hlen | hlen
  · left
    obtain ⟨rounds, rfl⟩ := Nat.exists_eq_add_of_le' (show 1 ≤ rounds by omega)
    exact ⟨hlen, by rw [StreamInner.pushBuffered, if_pos hlen]⟩
  right
  rcases hlast with hempty | hfin
  · right
    obtain ⟨b, l, hp, -, -, hl⟩ := pushBuffered_of_unfinished ha hr
      (finishedUnchecked_of_isEmpty hempty)
    exact ⟨hlen, hempty, b, l, fun h0 => Nat.not_lt.2 hlen (hl.1 h0), hp⟩
  · left
    refine ⟨hlen, fun hempty => ?_,
      s.sendBuffer.drop (min maxDataLen s.sendBuffer.length), ?_⟩
    · rw [finishedUnchecked_of_isEmpty hempty] at hfin
      cases hfin
    · rw [pushBuffered_of_finished (by omega) ha hfin, if_neg (Nat.not_lt.2 hlen)]

theorem write_iff (h : st.FinishLast) (hf : .finish ∈ st.enqueued) (buf : List UInt8) :
    WritesNothing st (.write buf) ↔ StorageTells st (.write buf) := by
  cases he : st.inner.isErr with
  | true =>
    obtain ⟨err, herr⟩ := streamState_of_isErr he
    have hw : st.inner.write buf = .ok (.error err, st.inner) := by rw [StreamInner.write, herr]
    have hen := congrArg Session.enqueued st.pushing_self
    exact iff_of_true (writesNothing_write hw hen fun _ => ⟨err, rfl⟩) (.inl he)
  | false =>
    have hmax : 0 < maxDataLen := by decide
    rcases h.pushBuffered hf (s := { st.inner with sendBuffer := st.inner.sendBuffer ++ buf })
        rfl hmax (Nat.lt_succ_self _) with ⟨hlen, hp⟩ | ⟨hlen, hne, b, hp⟩ |
        ⟨hlen, hempty, b, l, hl, hp⟩ <;>
      have hw := write_of_pushBuffered he hp <;>
      dsimp only at hlen
    · simp only [StorageTells, he, Bool.false_eq_true, false_or]
      constructor
      · intro hno
        refine ⟨.inl ?_, fun hle => absurd hlen (Nat.not_lt.2 hle)⟩
        by_contra hb
        obtain ⟨err, s, hw'⟩ := hno.write buf rfl hb
        rw [hw] at hw'
        cases hw'
      · rintro ⟨hb, -⟩
        apply writesNothing_write hw
        · simp [Session.pushing]
        · intro hne
          exact absurd hb (not_or.2 ⟨hne, Nat.not_le.2 hlen⟩)
    · have hen : (st.pushing { st.inner with sendBuffer := b }).enqueued = st.enqueued := by
        simp [Session.pushing]
      exact iff_of_true (writesNothing_write hw hen fun _ => ⟨connWriteFinished, rfl⟩)
        (.inr ⟨.inr hlen, fun _ => hne⟩)
    · refine iff_of_false (fun hno => hl ?_) ?_
      · have hen := hno.enqueued_eq (st.pushes b l) (by
          rw [sessionStep, hw, ← st.pushing_pushed]
          rfl)
        simpa [Session.pushes] using hen
      · simp only [StorageTells, he, Bool.false_eq_true, false_or]
        exact fun hq => hq.2 hlen hempty

theorem flush_iff (h : st.FinishLast) (hf : .finish ∈ st.enqueued) :
    (∀ r s, st.inner.flush = .ok (r, s) → (st.pushing s).enqueued = st.enqueued) ↔
      (st.inner.isErr ∨ st.inner.sendBuffer = [] ∨ ¬st.inner.sendStorage.isEmpty) := by
  cases he : st.inner.isErr with
  | true =>
    obtain ⟨err, herr⟩ := streamState_of_isErr he
    refine iff_of_true (fun r s hs => ?_) (.inl rfl)
    rw [flush, herr] at hs
    cases hs
    exact congrArg Session.enqueued st.pushing_self
  | false =>
    have hfl : st.inner.flush =
        StreamInner.pushBuffered 1 (st.inner.sendBuffer.length + 1) st.inner := by
      rw [flush, streamState_of_not_isErr he]
    rw [hfl]
    simp only [Bool.false_eq_true, false_or]
    rcases h.pushBuffered hf rfl Nat.one_pos (Nat.lt_succ_self _) with ⟨hlen, hp⟩ |
        ⟨hlen, hne, b, hp⟩ | ⟨hlen, hempty, b, l, hl, hp⟩ <;>
      rw [hp]
    · refine iff_of_true (fun r s hs => ?_) (.inl ?_)
      · cases hs
        exact congrArg Session.enqueued st.pushing_self
      · exact List.length_eq_zero_iff.1 (Nat.lt_one_iff.1 hlen)
    · refine iff_of_true (fun r s hs => ?_) (.inr hne)
      cases hs
      simp [Session.pushing]
    · refine iff_of_false (fun hall => hl ?_) ?_
      · have := hall _ _ rfl
        rw [st.pushing_pushed] at this
        simpa [Session.pushes] using this
      · rintro (hnil | hne)
        · rw [hnil] at hlen
          cases hlen
        · exact hne hempty

theorem finishPush_iff (h : st.FinishLast) (hf : .finish ∈ st.enqueued) (k : ℕ) :
    WritesNothing st (.finishPush k) ↔ StorageTells st (.finishPush k) := by
  by_cases hk : st.calls[k]? = some .flushed
  swap
  · refine iff_of_true (writesNothing_finishPush (fun st' hs => ?_) fun hk' => absurd hk' hk)
      fun hk' => absurd hk' hk
    rw [sessionStep, if_neg hk] at hs
    rw [← Except.ok.inj hs]
  rcases h.last hf with hempty | hfin
  · have hp : st.inner.finishWritePush = .ok (.ok (),
        { st.inner with sendStorage := st.inner.sendStorage.pushBack .finish }, []) := by
      rw [finishWritePush, push_of_unfinished (finishedUnchecked_of_isEmpty hempty)
        finish_ne_accept]
    refine iff_of_false (fun hno => ?_) fun hq => hq hk hempty
    obtain ⟨err, x, hp'⟩ := hno.finishPush k rfl hk
    rw [hp] at hp'
    cases hp'
  · have hp : st.inner.finishWritePush = .ok (.error connWriteFinished,
        st.inner.error (cloneIoErr connWriteFinished) true) := by
      rw [finishWritePush, push_of_finished hfin finish_ne_accept]
    refine iff_of_true (writesNothing_finishPush (fun st' hs => ?_) fun _ => ⟨_, _, hp⟩)
      fun _ hempty => ?_
    · rw [sessionStep, if_pos hk, hp] at hs
      rw [← Except.ok.inj hs]
      show (st.pushing (st.inner.error (cloneIoErr connWriteFinished) true).1).enqueued = _
      rw [st.pushing_error]
      rfl
    · rw [finishedUnchecked_of_isEmpty hempty] at hfin
      cases hfin

theorem nothingAfterFinish_iff (h : st.FinishLast) (e : SessionEvent) :
    NothingAfterFinish st e ↔ TellsAfterFinish st e := by
  refine forall_congr' fun hf => ?_
  have hother : (∀ st', sessionStep st e = .ok st' → st'.enqueued = st.enqueued) →
      (∀ buf, e ≠ .write buf) → (∀ k, e ≠ .finishPush k) → WritesNothing st e :=
    fun hen hw hp => ⟨hen, fun buf he => absurd he (hw buf), fun k he => absurd he (hp k)⟩
  cases e with
  | write buf => exact h.write_iff hf buf
  | finishPush k => exact h.finishPush_iff hf k
  | flush =>
    rw [show StorageTells st .flush ↔ _ from (h.flush_iff hf).symm]
    constructor
    · intro hno r s hs
      exact hno.enqueued_eq _ (by rw [sessionStep, hs]; rfl)
    · refine fun hall => hother (fun st' hs => ?_) (fun _ => SessionEvent.noConfusion)
        fun _ => SessionEvent.noConfusion
      obtain ⟨⟨r, s⟩, hfl, rfl⟩ := exists_of_map_eq_ok hs
      exact hall r s hfl
  | finishFlush =>
    rw [show StorageTells st .finishFlush ↔ _ from (h.flush_iff hf).symm]
    constructor
    · intro hno r s hs
      obtain ⟨st', hst, hen⟩ : ∃ st', sessionStep st .finishFlush = .ok st' ∧
          st'.enqueued = (st.pushing s).enqueued := by
        rw [sessionStep, finishWriteFlush, hs]
        exact ⟨_, rfl, rfl⟩
      rw [← hen]
      exact hno.enqueued_eq st' hst
    · refine fun hall => hother (fun st' hs => ?_) (fun _ => SessionEvent.noConfusion)
        fun _ => SessionEvent.noConfusion
      obtain ⟨⟨r, s⟩, hfl, rfl⟩ := exists_of_map_eq_ok hs
      exact hall r s hfl
  | _ =>
    refine iff_of_true (hother (fun st' hs => ?_) (fun _ => SessionEvent.noConfusion)
        fun _ => SessionEvent.noConfusion) trivial
    cases sessionStep_result hs <;> rfl

theorem pushes (h : st.FinishLast) (b : List UInt8) {l : List DataSegment}
    (hen : .finish ∈ st.enqueued → st.enqueued ++ l.map .data = st.enqueued) :
    (st.pushes b l).FinishLast := by
  refine ⟨⟨h.block.numbers, h.block.length_le⟩, fun hf => ?_⟩
  have hf' : .finish ∈ st.enqueued := by simpa [Session.pushes] using hf
  have hl : l = [] := by simpa using hen hf'
  subst hl
  simpa [Session.pushes, pushed] using h.last hf'

theorem sends (h : st.FinishLast) {t t' : Instant} {x : Option (SequenceNumber × SequentialSegment)}
    {s : SendStorage} (hp : PopResult st.inner.sendStorage t t' x s) :
    Session.FinishLast { st with inner := { st.inner with sendStorage := s } } := by
  refine ⟨h.block.of_popResult hp, fun hf => ?_⟩
  dsimp only
  rw [hp.isEmpty_iff, h.block.finishedUnchecked_popResult hp]
  exact h.last hf

theorem fail (h : st.FinishLast) (err : IoError) (sendReset : Bool) :
    (st.fail err sendReset).FinishLast := by
  cases he : st.inner.isErr with
  | true =>
    have hin : (st.fail err sendReset).inner = st.inner := by simp [Session.fail, error_of_isErr he]
    exact ⟨hin ▸ h.block, hin ▸ h.last⟩
  | false =>
    have hin : (st.fail err sendReset).inner.sendStorage = st.inner.sendStorage.clear := by
      simp [Session.fail, error_of_not_isErr he]
    exact ⟨hin ▸ block_of_queueSent_eq_nil rfl, fun _ => .inl (by rw [hin]; rfl)⟩

theorem step (h : st.FinishLast) (ha : AckBelowNext st e) (hno : NothingAfterFinish st e)
    (hs : sessionStep st e = .ok st') : st'.FinishLast := by
  have hen : .finish ∈ st.enqueued → st'.enqueued = st.enqueued :=
    fun hf => (hno hf).enqueued_eq st' hs
  cases sessionStep_result hs with
  | same => exact h
  | wrote buf b l he => exact h.pushes b hen
  | flushed b l he => exact h.pushes b hen
  | finishRefused err he => exact ⟨h.block, h.last⟩
  | finishFlushed b l c he hc => exact ⟨(h.pushes b hen).block, (h.pushes b hen).last⟩
  | finishPushed k hk hf =>
    refine ⟨h.block.pushBack _, fun _ => .inr ?_⟩
    simpa using finishedUnchecked_pushBack st.inner.sendStorage .finish
  | finishFailed k hk hf err err' => exact ⟨(h.fail err true).block, (h.fail err true).last⟩
  | finished k hk hempty => exact ⟨h.block, h.last⟩
  | reads => exact ⟨h.block, h.last⟩
  | fails _ err sendReset => exact h.fail err sendReset
  | acked n hn =>
    refine ⟨h.block.acknowledge ha, fun hf => ?_⟩
    rcases h.last hf with hempty | hfin
    · exact .inl (isEmpty_acknowledge hempty n)
    · rcases h.block.finishedUnchecked_acknowledge ha with hempty | heq
      · exact .inl hempty
      · exact .inr (heq.trans hfin)
  | received => exact ⟨h.block, h.last⟩
  | checked => exact ⟨h.block, h.last⟩
  | acks => exact ⟨h.block, h.last⟩
  | ackFails t t' sent r err hw =>
    have h₁ : Session.FinishLast { st with inner := { st.inner with recvStorage := r } } :=
      ⟨h.block, h.last⟩
    exact ⟨(h₁.fail err true).block, (h₁.fail err true).last⟩
  | sends t t' sent x s pc hw hpc hp => exact ⟨(h.sends hp).block, (h.sends hp).last⟩
  | sendFails t t' sent x s err hw hp =>
    exact ⟨((h.sends hp).fail err true).block, ((h.sends hp).fail err true).last⟩

end Session.FinishLast

/-- **Nothing is written after `Finish`** in exactly the runs in which, once `Finish` has been
enqueued, the storage is never empty when a call would push, and every `write` would. This is so
for peers that do not acknowledge the number issued next with a whole window in flight. -/
theorem along_nothingAfterFinish_iff {s : StreamInner} (hs : Fresh s) {es : List SessionEvent}
    (ha : Along sessionStep AckBelowNext (.new s) es) :
    Along sessionStep NothingAfterFinish (.new s) es ↔
      Along sessionStep TellsAfterFinish (.new s) es :=
  along_congr_of Session.FinishLast (fun _ e h _ => h.nothingAfterFinish_iff e)
    (fun _ _ _ h ha hno hst => h.step ha hno hst) hs.finishLast ha

/-- `Finish` is sent; then come a `write` of a whole segment and a second `finish_write`. -/
def writeInFlight : List SessionEvent :=
  [.finishFlush, .finishPush 0, .worker 0 0 (.ok ()), .worker 0 0 (.ok ()), .worker 0 0 (.ok ()),
    .write (List.replicate maxDataLen 7), .finishFlush, .finishPush 1]

theorem nothingAfterFinish_writeInFlight :
    Along sessionStep NothingAfterFinish (.new (.newByLocal (.v4 0 0) 0 0)) writeInFlight := by
  have ha : Along sessionStep AckBelowNext (.new (.newByLocal (.v4 0 0) 0 0)) writeInFlight := by
    decide +kernel
  exact (along_nothingAfterFinish_iff (.byLocal (.v4 0 0) 0 0) ha).2 (by decide +kernel)

/-- `Finish` is sent and acknowledged, and `finish_write` returns. Then a `write` of one byte is
accepted, and a second `finish_write` enqueues it and another `Finish`. -/
theorem write_after_finish :
    ∃ st, run sessionStep (.new (.newByLocal (.v4 0 0) 0 0))
        [.finishFlush, .finishPush 0, .worker 0 0 (.ok ()), .worker 0 0 (.ok ()),
          .worker 0 0 (.ok ()), .recv (.acknowledge 1), .finishPoll 0, .write [7], .finishFlush,
          .finishPush 1] = .ok st ∧
      st.calls = [.returned (.ok ()), .waiting] ∧
      st.enqueued = [.finish, .data (oneByte 7), .finish] :=
  ⟨_, rfl, rfl, rfl⟩

end Mdswp
