import Mdswp.Stream.Drain

/-!
# The error state of a stream

A `Life` is a stream under whole operations, each taken as one step: the calls of the user, the
segments from the peer, errors, and rounds of the worker. It records what the stream asks of its
listener.

Once `connState` is an error, no operation changes it, asks anything of the listener, or puts
anything into the send storage, and the user gets that error from every call
(`error_absorbs`). So the error path sends at most one `Reset`.
-/

namespace Mdswp

open SendStorage

namespace StreamInner

/-- `finish_write` up to its wait; it waits if the answer is `Ok`. -/
def finishWrite (s : StreamInner) : Exec (IoResult Unit × StreamInner × List ListenerCall) :=
  match s.finishWriteFlush with
  | .error f => .error f
  | .ok (.error err, s') => .ok (.error err, s', [])
  | .ok (.ok (), s') => s'.finishWritePush

/-- A round of the worker: the check, an acknowledgement, and the turns of the sending loop. -/
def threadRound (s : StreamInner) (t t' : Instant) (sent : IoResult Unit)
    (turns : List (Instant × Instant × IoResult Unit)) :
    Exec (StreamInner × List ListenerCall) :=
  match threadCheck (some s) with
  | .ack =>
    match s.threadAck t t' sent with
    | (s', calls, .send) =>
      match s'.threadSends turns with
      | .error f => .error f
      | .ok (s'', later, _) => .ok (s'', calls ++ later)
    | (s', calls, _) => .ok (s', calls)
  | _ => .ok (s, [])

end StreamInner

inductive Operation
  | write (buf : List UInt8)
  | flush
  | finishWrite
  /-- A `finish_write` that waits looks at the storage. -/
  | finishWritePoll
  | read (len : ℕ)
  /-- A `read` that waits looks at the queue. -/
  | readWait (len : ℕ)
  | reset
  | recvSegment (segment : Segment)
  | error (err : IoError) (sendReset : Bool)
  | work (t t' : Instant) (sent : IoResult Unit) (turns : List (Instant × Instant × IoResult Unit))

/-- The operations that are calls of the user. -/
def Operation.isCall : Operation → Bool
  | .recvSegment _ => false
  | .error _ _ => false
  | .work _ _ _ _ => false
  | _ => true

def Operation.perform (s : StreamInner) : Operation → Exec (StreamInner × List ListenerCall)
  | .write buf => (s.write buf).map fun x => (x.2, [])
  | .flush => s.flush.map fun x => (x.2, [])
  | .finishWrite => s.finishWrite.map Prod.snd
  | .finishWritePoll => .ok (s.finishWritePoll.2, [])
  | .read len => .ok ((s.read len).2, [])
  | .readWait len => .ok ((s.readWait len).2, [])
  | .reset => .ok s.reset.2
  | .recvSegment segment => s.recvSegment segment
  | .error err sendReset => .ok (s.error err sendReset)
  | .work t t' sent turns => s.threadRound t t' sent turns

structure Life where
  inner : StreamInner
  /-- What the stream has asked of its listener. -/
  calls : List ListenerCall

def lifeStep (st : Life) (op : Operation) : Exec Life :=
  (op.perform st.inner).map fun x => ⟨x.1, st.calls ++ x.2⟩

/-! ## An errored stream -/

def ListenerCall.isReset : ListenerCall → Bool
  | .sendTo _ .reset => true
  | _ => false

/-- The number of `Reset` segments among the calls. -/
def resets (calls : List ListenerCall) : ℕ := calls.countP ListenerCall.isReset

/-- Every call of the user that starts now returns the error and changes nothing. -/
structure StreamInner.Refuses (s : StreamInner) (err : IoError) : Prop where
  write : ∀ buf, s.write buf = .ok (.error err, s)
  flush : s.flush = .ok (.error err, s)
  finishWrite : s.finishWrite = .ok (.error err, s, [])
  read : ∀ len, s.read len = (some (.error err), s)
  reset : s.reset = (.error err, s, [])

namespace StreamInner

variable {s s' : StreamInner} {calls : List ListenerCall} {err : IoError}

theorem streamState_of_error (h : s.connState = .error err) : s.streamState = .error err := by
  rw [streamState, h]
  rfl

theorem isErr_of_connState (h : s.connState = .error err) : s.isErr :=
  isErr_iff.2 ⟨err, h⟩

theorem refuses_of_error (h : s.connState = .error err) : s.Refuses err := by
  have hs := streamState_of_error h
  have hflush : s.flush = .ok (.error err, s) := by rw [flush, hs]
  refine ⟨fun buf => ?_, hflush, ?_, fun len => ?_, ?_⟩
  · rw [write, hs]
  · rw [finishWrite, finishWriteFlush, hflush]
  · rw [read, isReadFinished, hs]
    rfl
  · rw [reset, hs]

/-- What an operation on an errored stream leaves alone. -/
structure Inert (s s' : StreamInner) (calls : List ListenerCall) : Prop where
  connState : s'.connState = s.connState
  isEmpty : s'.sendStorage.isEmpty
  calls : calls = []

theorem Inert.refl (he : s.sendStorage.isEmpty) : s.Inert s [] := ⟨rfl, he, rfl⟩

/-- No operation revives an errored stream or makes it send. -/
theorem perform_of_error (h : s.connState = .error err) (he : s.sendStorage.isEmpty)
    {op : Operation} (hp : op.perform s = .ok (s', calls)) : s.Inert s' calls := by
  have hrefuse := refuses_of_error h
  have hisErr := isErr_of_connState h
  cases op with
  | write buf =>
    rw [Operation.perform, hrefuse.write] at hp
    cases hp
    exact .refl he
  | flush =>
    rw [Operation.perform, hrefuse.flush] at hp
    cases hp
    exact .refl he
  | finishWrite =>
    rw [Operation.perform, hrefuse.finishWrite] at hp
    cases hp
    exact .refl he
  | finishWritePoll =>
    rw [Operation.perform, finishWritePoll, if_pos he] at hp
    cases hp
    exact ⟨rfl, he, rfl⟩
  | read len =>
    rw [Operation.perform, hrefuse.read] at hp
    cases hp
    exact .refl he
  | readWait len =>
    obtain ⟨b, st, fin, hr⟩ := s.readWait_snd len
    rw [Operation.perform, hr] at hp
    cases hp
    exact ⟨rfl, he, rfl⟩
  | reset =>
    rw [Operation.perform, hrefuse.reset] at hp
    cases hp
    exact .refl he
  | recvSegment segment =>
    rcases recvSegment_eq_ok hp with ⟨err', sendReset, heq, -⟩ | ⟨n, -, -, rfl, rfl⟩ |
      ⟨n, variant, st, -, -, rfl, rfl⟩
    · rw [error_of_isErr hisErr] at heq
      cases heq
      exact .refl he
    · exact ⟨rfl, isEmpty_acknowledge he n, rfl⟩
    · exact ⟨rfl, he, rfl⟩
  | error err' sendReset =>
    rw [Operation.perform, error_of_isErr hisErr] at hp
    cases hp
    exact .refl he
  | work t t' sent turns =>
    rw [Operation.perform, threadRound, threadCheck, if_pos hisErr] at hp
    cases hp
    exact .refl he

/-! ## What an operation does -/

/-- The stream has not ended, and only segments other than `Reset` have been sent. -/
structure GoesOn (s s' : StreamInner) (calls : List ListenerCall) : Prop where
  peerAddr_eq : s'.peerAddr = s.peerAddr
  isErr_eq : s'.isErr = s.isErr
  sends : ∀ call ∈ calls, ∃ segment, segment ≠ .reset ∧ call = .sendTo s.peerAddr segment

/-- What an operation may do: the stream goes on, and then it may end by an error. -/
inductive Performs (s : StreamInner) : StreamInner → List ListenerCall → Prop
  | goesOn {s' : StreamInner} {calls : List ListenerCall} (h : s.GoesOn s' calls) :
    Performs s s' calls
  | ends {s₁ : StreamInner} {calls : List ListenerCall} (h : s.GoesOn s₁ calls) (err : IoError)
    (sendReset : Bool) :
    Performs s (s₁.error err sendReset).1 (calls ++ (s₁.error err sendReset).2)

theorem GoesOn.quiet (hp : s'.peerAddr = s.peerAddr) (he : s'.isErr = s.isErr) :
    s.GoesOn s' [] := ⟨hp, he, by simp⟩

theorem GoesOn.trans {s'' : StreamInner} {calls' : List ListenerCall} (h : s.GoesOn s' calls)
    (h' : s'.GoesOn s'' calls') : s.GoesOn s'' (calls ++ calls') := by
  refine ⟨h'.peerAddr_eq.trans h.peerAddr_eq, h'.isErr_eq.trans h.isErr_eq, fun call hc => ?_⟩
  rcases List.mem_append.1 hc with hc | hc
  · exact h.sends call hc
  · rw [← h.peerAddr_eq]
    exact h'.sends call hc

theorem GoesOn.performs {s'' : StreamInner} {calls' : List ListenerCall} (h : s.GoesOn s' calls)
    (h' : s'.Performs s'' calls') : s.Performs s'' (calls ++ calls') := by
  cases h' with
  | goesOn h₁ => exact .goesOn (h.trans h₁)
  | ends h₁ err sendReset =>
    rw [← List.append_assoc]
    exact .ends (h.trans h₁) err sendReset

theorem performs_of_error {sendReset : Bool} (h : s.error err sendReset = (s', calls)) :
    s.Performs s' calls := by
  have hends := Performs.ends (GoesOn.quiet rfl rfl : s.GoesOn s []) err sendReset
  rwa [h] at hends

theorem threadSendTo_performs {segment : Segment} (hne : segment ≠ .reset) {next pc : WorkerPc}
    {sent : IoResult Unit} (h : s.threadSendTo segment next sent = (s', calls, pc)) :
    s.Performs s' calls ∧ (pc = .exited ∨ pc = next ∧ s.GoesOn s' calls) := by
  have hcall : s.GoesOn s [.sendTo s.peerAddr segment] :=
    ⟨rfl, rfl, fun call hc => ⟨segment, hne, List.mem_singleton.1 hc⟩⟩
  unfold threadSendTo at h
  cases sent with
  | ok u =>
    cases h
    exact ⟨.goesOn hcall, .inr ⟨rfl, hcall⟩⟩
  | error err =>
    cases h
    exact ⟨.ends hcall err true, .inl rfl⟩

theorem threadAck_performs {t t' : Instant} {sent : IoResult Unit} {pc : WorkerPc}
    (h : s.threadAck t t' sent = (s', calls, pc)) :
    s.Performs s' calls ∧ (pc = .exited ∨ pc = .send ∧ s.GoesOn s' calls) := by
  rw [threadAck] at h
  generalize s.recvStorage.popAcknowledge t t' = x at h
  obtain ⟨_ | n, st⟩ := x
  · cases h
    exact ⟨.goesOn (.quiet rfl rfl), .inr ⟨rfl, .quiet rfl rfl⟩⟩
  · have hpop : s.GoesOn { s with recvStorage := st } [] := .quiet rfl rfl
    obtain ⟨hperf, hpc⟩ := threadSendTo_performs Segment.noConfusion h
    exact ⟨hpop.performs hperf, hpc.imp_right fun hgoes => ⟨hgoes.1, hpop.trans hgoes.2⟩⟩

theorem threadSend_performs {t t' : Instant} {sent : IoResult Unit} {pc : WorkerPc}
    (h : s.threadSend t t' sent = .ok (s', calls, pc)) :
    s.Performs s' calls ∧ (pc = .send → s.GoesOn s' calls) := by
  rw [threadSend] at h
  cases hp : s.sendStorage.pop t t' with
  | error f => simp [hp] at h
  | ok x =>
    obtain ⟨_ | ⟨n, variant⟩, st⟩ := x
    · simp only [hp, Except.ok.injEq] at h
      cases h
      exact ⟨.goesOn (.quiet rfl rfl), fun _ => .quiet rfl rfl⟩
    · have hpop : s.GoesOn { s with sendStorage := st } [] := .quiet rfl rfl
      simp only [hp, Except.ok.injEq] at h
      obtain ⟨hperf, rfl | ⟨-, hgoes⟩⟩ := threadSendTo_performs Segment.noConfusion h
      · exact ⟨hpop.performs hperf, fun hpc => WorkerPc.noConfusion hpc⟩
      · exact ⟨hpop.performs hperf, fun _ => hpop.trans hgoes⟩

theorem threadSends_performs {turns : List (Instant × Instant × IoResult Unit)} {pc : WorkerPc}
    (h : s.threadSends turns = .ok (s', calls, pc)) : s.Performs s' calls := by
  induction turns generalizing s calls with
  | nil =>
    rw [threadSends] at h
    cases h
    exact .goesOn (.quiet rfl rfl)
  | cons turn turns ih =>
    obtain ⟨t, t', sent⟩ := turn
    rw [threadSends] at h
    cases hsend : s.threadSend t t' sent with
    | error f => simp [hsend] at h
    | ok x =>
      obtain ⟨s₁, calls₁, pc₁⟩ := x
      obtain ⟨hperf, hgoes⟩ := threadSend_performs hsend
      cases pc₁ with
      | send =>
        cases hrest : s₁.threadSends turns with
        | error f => simp [hsend, hrest] at h
        | ok y =>
          obtain ⟨s₂, later, pc₂⟩ := y
          simp only [hsend, hrest] at h
          cases h
          exact (hgoes rfl).performs (ih hrest)
      | _ =>
        simp only [hsend] at h
        cases h
        exact hperf

theorem threadRound_performs {t t' : Instant} {sent : IoResult Unit}
    {turns : List (Instant × Instant × IoResult Unit)}
    (h : s.threadRound t t' sent turns = .ok (s', calls)) : s.Performs s' calls := by
  rw [threadRound] at h
  cases hcheck : threadCheck (some s) with
  | ack =>
    rw [hcheck] at h
    cases hack : s.threadAck t t' sent with
    | mk s₁ x =>
      obtain ⟨calls₁, pc₁⟩ := x
      obtain ⟨hperf, rfl | ⟨rfl, hgoes⟩⟩ := threadAck_performs hack
      · simp only [hack] at h
        cases h
        exact hperf
      · cases hrest : s₁.threadSends turns with
        | error f => simp [hack, hrest] at h
        | ok y =>
          obtain ⟨s₂, later, pc₂⟩ := y
          simp only [hack, hrest] at h
          cases h
          exact hgoes.performs (threadSends_performs hrest)
  | _ =>
    simp only [hcheck] at h
    cases h
    exact .goesOn (.quiet rfl rfl)

/-- `finish_write` asks for nothing, or it fails to push `Finish` and ends the connection. -/
theorem finishWrite_eq_ok {r : IoResult Unit} (h : s.finishWrite = .ok (r, s', calls)) :
    (s.GoesOn s' [] ∧ calls = []) ∨
      ∃ (s₁ : StreamInner) (err : IoError), s.GoesOn s₁ [] ∧ s₁.error err true = (s', calls) := by
  unfold finishWrite finishWriteFlush at h
  cases hf : s.flush with
  | error f => simp [hf] at h
  | ok x =>
    obtain ⟨r₁, s₁⟩ := x
    have hflush : s.GoesOn s₁ [] := by
      rcases flush_eq_ok hf with ⟨-, rfl, -⟩ | ⟨-, b, l, rfl⟩
      · exact .quiet rfl rfl
      · exact .quiet rfl (isErr_pushed s b l)
    cases r₁ with
    | error err =>
      simp only [hf] at h
      cases h
      exact .inl ⟨hflush, rfl⟩
    | ok u =>
      simp only [hf, finishWritePush] at h
      cases hp : s₁.sendStorage.push .finish with
      | error f => simp [hp] at h
      | ok y =>
        obtain ⟨r₂, st⟩ := y
        have hpush : s.GoesOn { s₁ with sendStorage := st } [] := hflush.trans (.quiet rfl rfl)
        cases r₂ with
        | ok u =>
          simp only [hp] at h
          cases h
          exact .inl ⟨hpush, rfl⟩
        | error err =>
          simp only [hp] at h
          exact .inr ⟨_, _, hpush, (Prod.mk.inj (Except.ok.inj h)).2⟩

theorem reset_performs (s : StreamInner) : s.Performs s.reset.2.1 s.reset.2.2 := by
  rw [reset]
  cases s.streamState with
  | ok u => exact performs_of_error rfl
  | error err => exact .goesOn (.quiet rfl rfl)

/-- An operation goes on with the stream, and may end it by an error. -/
theorem perform_performs {op : Operation} (hp : op.perform s = .ok (s', calls)) :
    s.Performs s' calls := by
  cases op with
  | write buf =>
    obtain ⟨⟨r, s₁⟩, hw, heq⟩ := exists_of_map_eq_ok hp
    cases heq
    rcases write_eq_ok hw with ⟨-, rfl⟩ | ⟨-, b, l, rfl⟩
    · exact .goesOn (.quiet rfl rfl)
    · exact .goesOn (.quiet rfl (isErr_pushed s b l))
  | flush =>
    obtain ⟨⟨r, s₁⟩, hw, heq⟩ := exists_of_map_eq_ok hp
    cases heq
    rcases flush_eq_ok hw with ⟨-, rfl, -⟩ | ⟨-, b, l, rfl⟩
    · exact .goesOn (.quiet rfl rfl)
    · exact .goesOn (.quiet rfl (isErr_pushed s b l))
  | finishWrite =>
    obtain ⟨⟨r, s₁, calls₁⟩, hw, heq⟩ := exists_of_map_eq_ok hp
    cases heq
    rcases finishWrite_eq_ok hw with ⟨hgoes, rfl⟩ | ⟨s₂, err, hgoes, herr⟩
    · exact .goesOn hgoes
    · exact hgoes.performs (performs_of_error herr)
  | finishWritePoll =>
    rw [Operation.perform, finishWritePoll] at hp
    split_ifs at hp <;> cases hp <;> exact .goesOn (.quiet rfl rfl)
  | read len =>
    obtain ⟨b, st, fin, hr⟩ := s.read_snd len
    rw [Operation.perform, hr] at hp
    cases hp
    exact .goesOn (.quiet rfl rfl)
  | readWait len =>
    obtain ⟨b, st, fin, hr⟩ := s.readWait_snd len
    rw [Operation.perform, hr] at hp
    cases hp
    exact .goesOn (.quiet rfl rfl)
  | reset =>
    have hreset := s.reset_performs
    rwa [Except.ok.inj hp] at hreset
  | recvSegment segment =>
    rcases recvSegment_eq_ok hp with ⟨err, sendReset, heq, -⟩ | ⟨n, -, -, rfl, rfl⟩ |
      ⟨n, variant, st, -, -, rfl, rfl⟩
    · exact performs_of_error heq.symm
    · exact .goesOn (.quiet rfl rfl)
    · exact .goesOn (.quiet rfl rfl)
  | error err sendReset => exact performs_of_error (Except.ok.inj hp)
  | work t t' sent turns => exact threadRound_performs hp

theorem drop_performs (s : StreamInner) : s.Performs s.drop.1 s.drop.2 := by
  rw [drop]
  split_ifs
  · exact .goesOn (.quiet rfl rfl)
  · exact s.reset_performs
  · exact .goesOn (.quiet rfl rfl)

/-! ## A healthy stream -/

/-- At most one `Reset`, sent with the error, and the error has emptied the send storage. -/
structure Outcome (s' : StreamInner) (calls : List ListenerCall) : Prop where
  resets : resets calls ≤ if s'.isErr then 1 else 0
  isEmpty : s'.isErr → s'.sendStorage.isEmpty

theorem Outcome.of_healthy (hs : s'.isErr = false) (hc : Mdswp.resets calls = 0) :
    s'.Outcome calls :=
  ⟨by rw [hc]; exact Nat.zero_le _, fun h => absurd h (by simp [hs])⟩

theorem Outcome.append {before : List ListenerCall} (hb : Mdswp.resets before = 0)
    (h : s'.Outcome calls) : s'.Outcome (before ++ calls) := by
  refine ⟨?_, h.isEmpty⟩
  have hsum : Mdswp.resets (before ++ calls) = Mdswp.resets calls := by
    rw [Mdswp.resets, List.countP_append]
    exact (congrArg (· + _) hb).trans (Nat.zero_add _)
  rw [hsum]
  exact h.resets

theorem outcome_error (hs : s.isErr = false) {sendReset : Bool}
    (h : s.error err sendReset = (s', calls)) : s'.Outcome calls := by
  rw [error, if_neg (by simp [hs])] at h
  obtain ⟨rfl, rfl⟩ := Prod.mk.inj h
  constructor
  · cases sendReset <;> simp [Mdswp.resets, ListenerCall.isReset, isErr]
  · intro _
    exact isEmpty_iff.2 ⟨rfl, rfl⟩

theorem GoesOn.resets_eq (h : s.GoesOn s' calls) : Mdswp.resets calls = 0 := by
  refine List.countP_eq_zero.2 fun call hc => ?_
  obtain ⟨segment, hne, rfl⟩ := h.sends call hc
  cases segment <;> simp_all [ListenerCall.isReset]

/-- An operation on a healthy stream leaves it healthy, or ends it with at most one `Reset`. -/
theorem perform_of_healthy (hs : s.isErr = false) {op : Operation}
    (hp : op.perform s = .ok (s', calls)) : s'.Outcome calls := by
  cases perform_performs hp with
  | goesOn h => exact .of_healthy (h.isErr_eq.trans hs) h.resets_eq
  | ends h err sendReset =>
    exact (outcome_error (h.isErr_eq.trans hs) rfl).append h.resets_eq

end StreamInner

/-! ## Runs -/

variable {s : StreamInner} {st st' : Life} {op : Operation} {ops : List Operation}

open StreamInner

theorem outcome_step (h : st.inner.Outcome st.calls) (hs : lifeStep st op = .ok st') :
    st'.inner.Outcome st'.calls := by
  obtain ⟨⟨s', calls⟩, hp, rfl⟩ := exists_of_map_eq_ok hs
  cases hc : st.inner.connState with
  | ok u =>
    have he : st.inner.isErr = false := by simp [isErr, hc]
    have hzero := h.resets
    rw [he] at hzero
    exact (perform_of_healthy he hp).append (Nat.le_zero.1 hzero)
  | error err =>
    have he := isErr_of_connState hc
    obtain ⟨hconn, hempty, hcalls⟩ := perform_of_error hc (h.isEmpty he) hp
    have he' := isErr_of_connState (hconn.trans hc)
    have hone := h.resets
    dsimp only at hcalls ⊢
    rw [hcalls, List.append_nil]
    refine ⟨?_, fun _ => hempty⟩
    rw [he']
    rwa [he] at hone

/-- An errored life with an empty send storage goes on as it is. -/
theorem lifeStep_of_error {err : IoError} (hc : st.inner.connState = .error err)
    (he : st.inner.sendStorage.isEmpty) (hs : lifeStep st op = .ok st') :
    st'.inner.connState = .error err ∧ st'.inner.sendStorage.isEmpty ∧ st'.calls = st.calls := by
  obtain ⟨⟨s', calls⟩, hp, rfl⟩ := exists_of_map_eq_ok hs
  obtain ⟨hconn, hempty, rfl⟩ := perform_of_error hc he hp
  exact ⟨hconn.trans hc, hempty, List.append_nil _⟩

theorem run_of_error {err : IoError} (hc : st.inner.connState = .error err)
    (he : st.inner.sendStorage.isEmpty) (hr : run lifeStep st ops = .ok st') :
    st'.inner.connState = .error err ∧ st'.inner.sendStorage.isEmpty ∧ st'.calls = st.calls := by
  induction ops generalizing st with
  | nil =>
    obtain rfl := Except.ok.inj hr
    exact ⟨hc, he, rfl⟩
  | cons op ops ih =>
    obtain ⟨st₁, hstep, hrest⟩ := run_cons_eq_ok.1 hr
    obtain ⟨hc₁, he₁, hcalls₁⟩ := lifeStep_of_error hc he hstep
    obtain ⟨hc', he', hcalls'⟩ := ih hc₁ he₁ hrest
    exact ⟨hc', he', hcalls'.trans hcalls₁⟩

/-- **The error state of a stream is absorbing.** In every run of whole operations that return, from
a healthy stream, at most one `Reset` is sent. When an error has been recorded, then after any
further operations it is the same error, the send storage is empty, the listener has been asked
nothing more, and every call of the user returns that error and changes nothing. -/
theorem error_absorbs (hs : s.isErr = false) (hr : run lifeStep ⟨s, []⟩ ops = .ok st) :
    resets st.calls ≤ 1 ∧
      ∀ err, st.inner.connState = .error err → ∀ ops' st', run lifeStep st ops' = .ok st' →
        st'.inner.connState = .error err ∧ st'.inner.sendStorage.isEmpty ∧
          st'.calls = st.calls ∧ st'.inner.Refuses err := by
  have h : st.inner.Outcome st.calls := by
    refine run_invariant (P := fun _ _ => True) (fun st => st.inner.Outcome st.calls) ?_
      (.of_healthy hs rfl) (along_of_forall_mem (p := fun _ => True) (fun _ _ => trivial) _) hr
    intro st op st' h _ hstep
    exact outcome_step h hstep
  refine ⟨h.resets.trans (by split_ifs <;> omega), ?_⟩
  intro err hc ops' st' hr'
  obtain ⟨hc', he', hcalls⟩ := run_of_error hc (h.isEmpty (isErr_of_connState hc)) hr'
  exact ⟨hc', he', hcalls, refuses_of_error hc'⟩

/-- A byte is flushed, and a number is acknowledged that has not been issued. -/
def badAcknowledgement : List Operation :=
  [.write [1], .flush, .recvSegment (.acknowledge 5)]

/-- What comes after it. -/
def afterwards : List Operation :=
  [.recvSegment (.sequential 1 .finish), .recvSegment (.acknowledge 0), .work 0 0 (.ok ()) [],
    .recvSegment .reset, .error connResetLocal true]

theorem error_absorbs_badAcknowledgement :
    ∃ st st', run lifeStep ⟨.newByLocal (.v4 0 0) 0 0, []⟩ badAcknowledgement = .ok st ∧
      run lifeStep st afterwards = .ok st' ∧
      st'.inner.connState = .error (SendStorage.invalidAckNum 5) ∧
      st'.calls = [.removeConnection (.v4 0 0), .sendTo (.v4 0 0) .reset] := by
  obtain ⟨st, hr⟩ : ∃ st, run lifeStep ⟨.newByLocal (.v4 0 0) 0 0, []⟩ badAcknowledgement =
      .ok st := ⟨_, rfl⟩
  have hst : st.inner.connState = .error (SendStorage.invalidAckNum 5) ∧
      st.calls = [.removeConnection (.v4 0 0), .sendTo (.v4 0 0) .reset] ∧
      ∃ st', run lifeStep st afterwards = .ok st' := by
    obtain rfl := Except.ok.inj hr
    exact ⟨rfl, rfl, _, rfl⟩
  obtain ⟨hc, hcalls, st', hr'⟩ := hst
  obtain ⟨hc', -, hcalls', -⟩ := (error_absorbs (s := .newByLocal (.v4 0 0) 0 0) rfl hr).2 _ hc
    afterwards st' hr'
  exact ⟨st, st', hr, hr', hc', hcalls'.trans hcalls⟩

end Mdswp
