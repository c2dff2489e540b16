import Mdswp.Foundations.Run
import Mdswp.Stream.Inner

/-!
# Reading

A `Reader` is a healthy stream with the `read` calls made on it, one after the other, for a `read`
holds the lock of `recvBuffer` until it returns. Between the calls, and while one waits, segments
arrive in the queue of the receive storage.

The bytes returned, followed by `recvBuffer`, are the payloads of the segments popped. The `read`
that pops `Finish`, and no other, sets `recvFinished`, with nothing left in the buffer, and returns
`Ok(0)`; the flag stays set (`reads_reassemble`).
-/

namespace Mdswp

open StreamInner

structure Reader where
  inner : StreamInner
  /-- The length of the buffer of the `read` that waits for a segment. -/
  waiting : Option ℕ
  /-- What the calls have returned. -/
  results : List (IoResult (List UInt8))
  /-- The segments popped from the receive storage. -/
  popped : List SequentialSegment

inductive ReaderEvent
  /-- The receive storage changes; it may release segments. -/
  | arrive (storage : RecvStorage)
  | read (len : ℕ)
  /-- The `read` that waits looks again. -/
  | wake

namespace Reader

def new (s : StreamInner) : Reader := ⟨s, none, [], []⟩

/-- The bytes that the calls have returned. -/
def returned (st : Reader) : List UInt8 := st.results.flatMap fun r => r.toOption.getD []

/-- The read returns `r`, or waits if that is `none`, and leaves the stream `s`. -/
def answer (st : Reader) (len : ℕ) (r : Option (IoResult (List UInt8))) (s : StreamInner) :
    Reader where
  inner := s
  waiting := if r.isNone then some len else none
  results := st.results ++ r.toList
  popped := st.popped ++ st.inner.recvStorage.popQueue.take
    (st.inner.recvStorage.popQueue.length - s.recvStorage.popQueue.length)

end Reader

/-- A `read` has to wait for the one under way, and nobody wakes up when there is none. -/
def readerStep (st : Reader) : ReaderEvent → Exec Reader
  | .arrive storage => .ok { st with inner := { st.inner with recvStorage := storage } }
  | .read len =>
    match st.waiting with
    | some _ => .ok st
    | none =>
      match st.inner.read len with
      | (r, s) => .ok (st.answer len r s)
  | .wake =>
    match st.waiting with
    | none => .ok st
    | some len =>
      match st.inner.readWait len with
      | (r, s) => .ok (st.answer len r s)

/-- What arrives comes after what is in the queue, and is no `Accept`. -/
def ArrivesBehind (st : Reader) : ReaderEvent → Prop
  | .arrive storage => ∃ l, storage.popQueue = st.inner.recvStorage.popQueue ++ l ∧ .accept ∉ l
  | _ => True

/-- `Finish` has been popped with nothing left in the buffer; the `read` has set `recvFinished` and
returned `Ok(0)`. -/
structure Reader.FindsEnd (st st' : Reader) : Prop where
  empty : st.inner.recvBuffer = []
  nothingLeft : st'.inner.recvBuffer = []
  finished : st'.inner.recvFinished
  popped : st'.popped = st.popped ++ [.finish]
  results : st'.results = st.results ++ [.ok []]

/-- A step that pops `Finish`, or sets `recvFinished`, finds the end; once the flag is set it stays
so, and nothing is popped. -/
structure Reader.Ends (st st' : Reader) : Prop where
  popsFinish : ∃ l, st'.popped = st.popped ++ l ∧ (.finish ∈ l → st.FindsEnd st')
  setsFinished : st.inner.recvFinished = false → st'.inner.recvFinished → st.FindsEnd st'
  staysFinished : st.inner.recvFinished → st'.inner.recvFinished ∧ st'.popped = st.popped

/-- The end is found once: by the step that pops `Finish`. After that every `read` fails and changes
nothing. -/
structure EndsOnce (st : Reader) (e : ReaderEvent) : Prop where
  ends : ∀ st', readerStep st e = .ok st' → st.Ends st'
  fails : ∀ len, st.inner.recvFinished →
    st.inner.read len = (some (.error connReadFinished), st.inner)

variable {st st' : Reader} {e : ReaderEvent} {s₀ : StreamInner}

/-- The reads began with the stream `s₀`. -/
structure Reader.Reassembles (s₀ : StreamInner) (st : Reader) : Prop where
  healthy : st.inner.isErr = false
  noAccept : .accept ∉ st.inner.recvStorage.popQueue
  bytes : st.returned ++ st.inner.recvBuffer = s₀.recvBuffer ++ bytesOf st.popped
  finished_iff : st.inner.recvFinished ↔ s₀.recvFinished ∨ .finish ∈ st.popped
  waiting : st.waiting.isSome → st.inner.recvFinished = false

namespace Reader

@[simp] theorem returned_answer_ok (st : Reader) (len : ℕ) (bytes : List UInt8)
    (s : StreamInner) : (st.answer len (some (.ok bytes)) s).returned = st.returned ++ bytes := by
  simp [answer, returned, Except.toOption]

@[simp] theorem returned_answer_none (st : Reader) (len : ℕ) (s : StreamInner) :
    (st.answer len none s).returned = st.returned := by
  simp [answer, returned]

theorem popped_answer_of_cons {segment : SequentialSegment} {rest : List SequentialSegment}
    (hq : st.inner.recvStorage.popQueue = segment :: rest) {s : StreamInner}
    (hs : s.recvStorage.popQueue = rest) (len : ℕ) (r : Option (IoResult (List UInt8))) :
    (st.answer len r s).popped = st.popped ++ [segment] := by
  simp [answer, hq, hs]

theorem popped_answer_of_eq {s : StreamInner}
    (hs : s.recvStorage.popQueue = st.inner.recvStorage.popQueue) (len : ℕ)
    (r : Option (IoResult (List UInt8))) : (st.answer len r s).popped = st.popped := by
  simp [answer, hs]

/-- A step that pops nothing, and leaves `recvFinished` alone. -/
theorem Ends.of_eq (hp : st'.popped = st.popped)
    (hf : st'.inner.recvFinished = st.inner.recvFinished) : st.Ends st' where
  popsFinish := ⟨[], by rw [hp, List.append_nil], fun h => absurd h List.not_mem_nil⟩
  setsFinished h h' := by
    rw [hf, h] at h'
    cases h'
  staysFinished h := ⟨hf.trans h, hp⟩

/-- A step that pops a segment before the end. -/
theorem Ends.of_unfinished {segment : SequentialSegment} (hp : st'.popped = st.popped ++ [segment])
    (hf : st.inner.recvFinished = false)
    (hend : segment = .finish ∨ st'.inner.recvFinished → st.FindsEnd st') : st.Ends st' where
  popsFinish := ⟨[segment], hp, fun h => hend (.inl (List.mem_singleton.1 h).symm)⟩
  setsFinished _ h := hend (.inr h)
  staysFinished h := by
    rw [hf] at h
    cases h

end Reader

namespace Reader.Reassembles

theorem new {s : StreamInner} (hs : s.isErr = false) (hq : .accept ∉ s.recvStorage.popQueue) :
    (Reader.new s).Reassembles s :=
  ⟨hs, hq, by simp [Reader.new, returned, bytesOf], by simp [Reader.new], nofun⟩

/-- A look of a `read` at the buffer and the queue. -/
theorem readWait (h : st.Reassembles s₀) {len : ℕ} {r : Option (IoResult (List UInt8))}
    {s : StreamInner} (hr : ReadResult st.inner len (r, s)) :
    (st.answer len r s).Reassembles s₀ ∧ st.Ends (st.answer len r s) := by
  have hq := h.noAccept
  cases hr with
  | buffered hb =>
    have hpop : ∀ r, (st.answer len r { st.inner with
        recvBuffer := st.inner.recvBuffer.drop (min st.inner.recvBuffer.length len) }).popped =
          st.popped := popped_answer_of_eq rfl len
    refine ⟨⟨h.healthy, hq, ?_, ?_, nofun⟩, .of_eq (hpop _) rfl⟩
    · rw [returned_answer_ok, hpop, ← h.bytes, List.append_assoc]
      exact congrArg _ (List.take_append_drop _ _)
    · rw [hpop]
      exact h.finished_iff
  | waits hb hfin hnil =>
    have hpop : (st.answer len none st.inner).popped = st.popped := popped_answer_of_eq rfl len _
    refine ⟨⟨h.healthy, hq, ?_, ?_, fun _ => hfin⟩, .of_eq hpop rfl⟩
    · rw [returned_answer_none, hpop]
      exact h.bytes
    · rw [hpop]
      exact h.finished_iff
  | finishes rest hb hfin hcons =>
    rw [hcons, List.mem_cons, not_or] at hq
    have hpop := popped_answer_of_cons hcons (s := { st.inner with
      recvStorage := { st.inner.recvStorage with popQueue := rest }
      recvFinished := true }) rfl len (some (.ok []))
    refine ⟨⟨h.healthy, hq.2, ?_, ?_, nofun⟩,
      .of_unfinished hpop hfin fun _ => ⟨hb, hb, rfl, hpop, rfl⟩⟩
    · rw [returned_answer_ok, hpop, bytesOf_append, List.append_nil, ← List.append_assoc,
        ← h.bytes]
      exact (List.append_nil _).symm
    · rw [hpop]
      exact iff_of_true rfl (.inr (by simp))
  | takes d rest hb hfin hcons =>
    rw [hcons, List.mem_cons, not_or] at hq
    have hbytes := h.bytes
    rw [hb, List.append_nil] at hbytes
    have hpop : ∀ r, (st.answer len r { st.inner with
        recvStorage := { st.inner.recvStorage with popQueue := rest }
        recvBuffer := d.data.drop (min d.data.length len) }).popped = st.popped ++ [.data d] :=
      popped_answer_of_cons hcons rfl len
    refine ⟨⟨h.healthy, hq.2, ?_, ?_, nofun⟩, .of_unfinished (hpop _) hfin ?_⟩
    · rw [returned_answer_ok, hpop, bytesOf_append, ← List.append_assoc, ← hbytes,
        List.append_assoc]
      refine congrArg _ ?_
      simp [answer, bytesOf, SequentialSegment.payload]
    · rw [hpop]
      simpa [answer] using h.finished_iff
    · rintro (heq | hset)
      · cases heq
      · exact absurd hset (by simp [answer, hfin])

/-- One step, and what it means for the end of the stream. -/
theorem step (h : st.Reassembles s₀) (ha : ArrivesBehind st e) (hs : readerStep st e = .ok st') :
    st'.Reassembles s₀ ∧ st.Ends st' := by
  have hne : ∀ segment ∈ st.inner.recvStorage.popQueue, segment ≠ .accept :=
    fun segment hmem heq => h.noAccept (heq ▸ hmem)
  cases e with
  | arrive storage =>
    obtain ⟨l, hl, hno⟩ := ha
    obtain rfl := Except.ok.inj hs
    refine ⟨⟨h.healthy, ?_, h.bytes, h.finished_iff, h.waiting⟩, .of_eq rfl rfl⟩
    rw [hl, List.mem_append, not_or]
    exact ⟨h.noAccept, hno⟩
  | read len =>
    rw [readerStep] at hs
    cases hw : st.waiting with
    | some n =>
      rw [hw] at hs
      obtain rfl := Except.ok.inj hs
      exact ⟨h, .of_eq rfl rfl⟩
    | none =>
      rw [hw] at hs
      dsimp only at hs
      rcases Bool.eq_false_or_eq_true st.inner.recvFinished with hfin | hfin
      · rw [read_of_finished h.healthy hfin] at hs
        obtain rfl := Except.ok.inj hs
        have hpop : (st.answer len (some (.error connReadFinished)) st.inner).popped = st.popped :=
          popped_answer_of_eq rfl len _
        refine ⟨⟨h.healthy, h.noAccept, ?_, ?_, nofun⟩, .of_eq hpop rfl⟩
        · rw [hpop, ← h.bytes]
          simp [answer, returned, Except.toOption]
        · rw [hpop]
          exact h.finished_iff
      · rw [read_of_unfinished h.healthy hfin] at hs
        obtain rfl := Except.ok.inj hs
        exact h.readWait (readWait_result h.healthy hne len)
  | wake =>
    rw [readerStep] at hs
    cases hw : st.waiting with
    | none =>
      rw [hw] at hs
      obtain rfl := Except.ok.inj hs
      exact ⟨h, .of_eq rfl rfl⟩
    | some len =>
      rw [hw] at hs
      obtain rfl := Except.ok.inj hs
      exact h.readWait (readWait_result h.healthy hne len)

theorem endsOnce (h : st.Reassembles s₀) (ha : ArrivesBehind st e) : EndsOnce st e :=
  ⟨fun _ hs => (h.step ha hs).2, fun len hfin => read_of_finished h.healthy hfin len⟩

end Reader.Reassembles

theorem readerStep_ok (st : Reader) (e : ReaderEvent) : ∃ st', readerStep st e = .ok st' := by
  cases e with
  | arrive storage => exact ⟨_, rfl⟩
  | read len =>
    rw [readerStep]
    cases st.waiting with
    | none => exact ⟨_, rfl⟩
    | some n => exact ⟨_, rfl⟩
  | wake =>
    rw [readerStep]
    cases st.waiting with
    | none => exact ⟨_, rfl⟩
    | some n => exact ⟨_, rfl⟩

/-- **Reading reassembles the byte stream.** For every healthy stream and all arrivals and reads,
the bytes returned, and then the buffer, are the payloads of the segments popped, after what was in
the buffer at the start, and `recvFinished` is set if and only if `Finish` has been popped, or it
was set at the start. The end is found once, when `Finish` is popped and nothing is left in the
buffer: that `read` returns `Ok(0)`, and the later ones fail and change nothing. -/
theorem reads_reassemble {s : StreamInner} (hs : s.isErr = false)
    (hq : .accept ∉ s.recvStorage.popQueue) {es : List ReaderEvent}
    (ha : Along readerStep ArrivesBehind (.new s) es) :
    Along readerStep EndsOnce (.new s) es ∧
      ∃ st, run readerStep (.new s) es = .ok st ∧
        st.returned ++ st.inner.recvBuffer = s.recvBuffer ++ bytesOf st.popped ∧
        (st.inner.recvFinished ↔ s.recvFinished ∨ .finish ∈ st.popped) := by
  have hstep : ∀ st e st', Reader.Reassembles s st → ArrivesBehind st e →
      readerStep st e = .ok st' → Reader.Reassembles s st' :=
    fun st e st' h ha hst => (h.step ha hst).1
  constructor
  · exact Along.of_invariant (Reader.Reassembles s) (fun st e h ha => h.endsOnce ha) hstep
      (.new hs hq) ha
  · obtain ⟨st, hrun⟩ := (ha.mono fun st e _ => readerStep_ok st e).run_ok
    have h := run_invariant (Reader.Reassembles s) hstep (.new hs hq) ha hrun
    exact ⟨st, hrun, h.bytes, h.finished_iff⟩

instance (st : Reader) (e : ReaderEvent) : Decidable (ArrivesBehind st e) :=
  match e with
  | .arrive storage =>
    decidable_of_iff (st.inner.recvStorage.popQueue <+: storage.popQueue ∧
        .accept ∉ storage.popQueue.drop st.inner.recvStorage.popQueue.length) (by
      constructor
      · rintro ⟨⟨l, hl⟩, hno⟩
        refine ⟨l, hl.symm, ?_⟩
        rwa [← hl, List.drop_left] at hno
      · rintro ⟨l, hl, hno⟩
        rw [hl, List.drop_left]
        exact ⟨List.prefix_append _ _, hno⟩)
  | .read _ => isTrue trivial
  | .wake => isTrue trivial

/-- A `read` waits; then two bytes and the end arrive, and are read one byte at a time. -/
def waitingReads : List ReaderEvent :=
  [.read 1, .wake, .arrive { RecvStorage.newByPeer 0 with
      popQueue := [.data ⟨[1, 2], by decide, by decide⟩, .finish] },
    .wake, .read 1, .read 1, .read 1]

theorem reads_reassemble_waitingReads :
    ∃ st, run readerStep (.new (.newByPeer (.v4 0 0) 0 0)) waitingReads = .ok st ∧
      st.results = [.ok [1], .ok [2], .ok [], .error connReadFinished] ∧
      st.returned ++ st.inner.recvBuffer = bytesOf st.popped ∧
      (st.inner.recvFinished ↔ .finish ∈ st.popped) := by
  have ha : Along readerStep ArrivesBehind (.new (.newByPeer (.v4 0 0) 0 0)) waitingReads := by
    decide
  obtain ⟨st, hrun, hbytes, hfin⟩ := (reads_reassemble rfl (by decide) ha).2
  refine ⟨st, hrun, ?_, hbytes, hfin.trans (or_iff_right Bool.false_ne_true)⟩
  obtain rfl := Except.ok.inj hrun
  rfl

end Mdswp
