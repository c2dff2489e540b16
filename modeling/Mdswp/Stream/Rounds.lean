import Mdswp.Stream.Inner

/-!
# The loops of a stream, one round at a time

`write` and `flush` look at the state of the connection and then take the lock of `sendBuffer`;
every round of their loop takes the lock of `sendStorage` by itself. `read`, which holds the lock of
`recvBuffer`, looks at the state at the head of every round and then takes the lock of
`recvStorage`; `error` looks at it and then takes its own locks. `finish_write` finds the storage
empty and then sets `sendFinished`. The worker looks at the state twice before it looks at
`sendFinished`, and unwraps what it finds the second time. Other threads may come in between.

With nothing in between, the rounds are the loops (`pushBuffered_succ`, `readLoop_succ`), the parts
of `error` and of the last look of `finish_write` are these (`error_eq`, `finishWritePoll_eq`), and
the looks of the worker are its check (`threadLook_iterate`).
-/

namespace Mdswp

namespace StreamInner

/-- A round of the loop of `write` and `flush`; `none` if the loop goes on. -/
def pushRound (atLeast : ℕ) (s : StreamInner) : Exec (Option (IoResult Unit) × StreamInner) :=
  if s.sendBuffer.length < atLeast then .ok (some (.ok ()), s)
  else
    let n := min maxDataLen s.sendBuffer.length
    let bytes := s.sendBuffer.take n
    let s := { s with sendBuffer := s.sendBuffer.drop n }
    match DataSegment.tryFrom bytes with
    | .error _ => .error .panic
    | .ok data =>
      match s.sendStorage.push (.data data) with
      | .error f => .error f
      | .ok (.error err, st) => .ok (some (.error err), { s with sendStorage := st })
      | .ok (.ok (), st) => .ok (none, { s with sendStorage := st })

/-- The head of the loop of `read`; `none` if the loop goes on. -/
def readHead (s : StreamInner) : Option (IoResult Unit) :=
  if s.recvBuffer ≠ [] then some (.ok ())
  else
    match s.isReadFinished with
    | .error err => some (.error err)
    | .ok true => some (.ok ())
    | .ok false => none

/-- The rest of a round of that loop. -/
def readPop (s : StreamInner) : StreamInner :=
  match s.recvStorage.pop with
  | (none, st) => { s with recvStorage := st }
  | (some .finish, st) => { s with recvStorage := st, recvFinished := true }
  | (some (.data d), st) => { s with recvStorage := st, recvBuffer := s.recvBuffer ++ d.data }
  -- the source only prints a warning
  | (some .accept, st) => { s with recvStorage := st }

/-- `read` after its loop. -/
def readTake (s : StreamInner) (len : ℕ) : List UInt8 × StreamInner :=
  let n := min s.recvBuffer.length len
  (s.recvBuffer.take n, { s with recvBuffer := s.recvBuffer.drop n })

/-- `error` after its look at the state of the connection. -/
def errorLocked (s : StreamInner) (err : IoError) (sendReset : Bool) :
    StreamInner × List ListenerCall :=
  ({ s with
      connState := .error err
      sendStorage := s.sendStorage.clear
      recvStorage := s.recvStorage.clear },
    .removeConnection s.peerAddr :: if sendReset then [.sendTo s.peerAddr .reset] else [])

/-- The end of `finish_write`, when the storage has been found empty. -/
def finishWriteDone (s : StreamInner) : StreamInner := { s with sendFinished := true }

/-- Where the worker thread is, one look at a time. -/
inductive ThreadPc
  | check
  /-- It has found the connection open. -/
  | checked
  /-- It has found it open once more. -/
  | unwrapped
  | ack
  | send
  | exited
  | panicked
  deriving DecidableEq, Repr

def WorkerPc.toThreadPc : WorkerPc → ThreadPc
  | .check => .check
  | .ack => .ack
  | .send => .send
  | .exited => .exited

/-- The looks of the check: `is_err`; the one of `is_write_finished` at the state of the connection,
an error of which is unwrapped; and that at `sendFinished`. -/
def threadLook (s : StreamInner) : ThreadPc → ThreadPc
  | .check => if s.isErr then .exited else .checked
  | .checked =>
    match s.streamState with
    | .ok () => .unwrapped
    | .error _ => .panicked
  | .unwrapped => if s.sendFinished then .exited else .ack
  | pc => pc

/-! ## The loops -/

variable {s s' : StreamInner}

theorem pushBuffered_succ (atLeast rounds : ℕ) (s : StreamInner) :
    pushBuffered atLeast (rounds + 1) s = (s.pushRound atLeast).bind fun
      | (some r, s) => .ok (r, s)
      | (none, s) => pushBuffered atLeast rounds s := by
  rw [pushBuffered, pushRound]
  split_ifs with hlen
  · rfl
  dsimp only
  cases DataSegment.tryFrom (s.sendBuffer.take (min maxDataLen s.sendBuffer.length)) with
  | error e => rfl
  | ok d =>
    dsimp only
    cases s.sendStorage.push (.data d) with
    | error f => rfl
    | ok x =>
      obtain ⟨r, st⟩ := x
      cases r <;> rfl

theorem readLoop_succ (rounds : ℕ) (s : StreamInner) : readLoop (rounds + 1) s =
    match s.readHead with
    | some r => (some r, s)
    | none => if s.recvStorage.popQueue = [] then (none, s.readPop) else readLoop rounds s.readPop
    := by
  rw [readLoop, readHead]
  by_cases hb : s.recvBuffer ≠ []
  · rw [if_pos hb, if_pos hb]
  rw [if_neg hb, if_neg hb]
  cases s.isReadFinished with
  | error err => rfl
  | ok fin =>
    cases fin with
    | true => rfl
    | false =>
      cases hq : s.recvStorage.popQueue with
      | nil => simp only [readPop, RecvStorage.pop, hq, if_true]
      | cons segment rest =>
        simp only [readPop, RecvStorage.pop, hq, reduceCtorEq, if_false]
        cases segment <;> rfl

theorem readWait_eq (s : StreamInner) (len : ℕ) : s.readWait len =
    match readLoop (s.recvStorage.popQueue.length + 2) s with
    | (none, s) => (none, s)
    | (some (.error err), s) => (some (.error err), s)
    | (some (.ok ()), s) => (some (.ok (s.readTake len).1), (s.readTake len).2) := rfl

theorem error_eq (s : StreamInner) (err : IoError) (sendReset : Bool) :
    s.error err sendReset = if s.isErr then (s, []) else s.errorLocked err sendReset := rfl

theorem finishWritePoll_eq (s : StreamInner) : s.finishWritePoll =
    if s.sendStorage.isEmpty then (some (.ok ()), s.finishWriteDone) else (none, s) := rfl

theorem threadLook_iterate (s : StreamInner) :
    s.threadLook^[3] .check = (threadCheck (some s)).toThreadPc := by
  simp only [Function.iterate_succ_apply, Function.iterate_zero_apply]
  cases he : s.isErr with
  | true => simp [threadLook, threadCheck, he, WorkerPc.toThreadPc]
  | false =>
    have hs := streamState_of_not_isErr he
    cases hf : s.sendFinished <;>
      simp [threadLook, threadCheck, he, hs, hf, WorkerPc.toThreadPc]

@[simp] theorem WorkerPc.toThreadPc_ne_panicked (pc : WorkerPc) :
    pc.toThreadPc ≠ .panicked := by
  cases pc <;> exact ThreadPc.noConfusion

/-- Only the second look panics, when the connection has erred since the first one. -/
theorem threadLook_eq_panicked_iff {pc : ThreadPc} :
    s.threadLook pc = .panicked ↔ pc = .panicked ∨ pc = .checked ∧ s.isErr := by
  cases pc with
  | check => rw [threadLook]; split_ifs <;> simp
  | unwrapped => rw [threadLook]; split_ifs <;> simp
  | checked =>
    rw [threadLook]
    cases he : s.isErr with
    | true =>
      obtain ⟨err, herr⟩ := streamState_of_isErr he
      simp [herr]
    | false => simp [streamState_of_not_isErr he]
  | _ => simp [threadLook]

/-! ## What a round does -/

theorem pushRound_of_lt {atLeast : ℕ} (h : s.sendBuffer.length < atLeast) :
    s.pushRound atLeast = .ok (some (.ok ()), s) := if_pos h

/-- A round that goes on pushes what it takes from the buffer, unless `Finish` has been pushed. -/
theorem pushRound_eq_ok {atLeast : ℕ} {r : Option (IoResult Unit)}
    (h : s.pushRound atLeast = .ok (r, s')) : ∃ b ds, s' = s.pushed b ds ∧
      (s.sendStorage.finishedUnchecked = .ok false →
        ds.flatMap DataSegment.data ++ b = s.sendBuffer) := by
  rw [pushRound] at h
  split_ifs at h with hlen
  · cases h
    exact ⟨_, [], (pushed_nil _).symm, fun _ => rfl⟩
  dsimp only at h
  split at h
  · cases h
  rename_i d hd
  have hdata := DataSegment.tryFrom_eq_ok.1 hd
  cases hp : s.sendStorage.push (.data d) with
  | error f => simp [hp] at h
  | ok x =>
    rcases SendStorage.push_eq_ok (data_ne_accept d) hp with ⟨hf, rfl⟩ | ⟨-, rfl⟩
    · simp only [hp] at h
      cases h
      exact ⟨s.sendBuffer.drop (min maxDataLen s.sendBuffer.length), [], by simp [pushed],
        fun hno => by simp [hf] at hno⟩
    · simp only [hp] at h
      cases h
      refine ⟨s.sendBuffer.drop (min maxDataLen s.sendBuffer.length), [d], rfl, fun _ => ?_⟩
      rw [List.flatMap_singleton, hdata]
      exact List.take_append_drop _ _

/-- The loop of `read` goes on only with nothing in the buffer, and before the end. -/
theorem readHead_eq_none (h : s.readHead = none) : s.recvBuffer = [] ∧ s.recvFinished = false := by
  rw [readHead] at h
  split_ifs at h with hb
  rw [isReadFinished] at h
  cases hs : s.streamState with
  | error err => simp [hs, Except.map] at h
  | ok u =>
    cases hfin : s.recvFinished with
    | true => simp [hs, hfin, Except.map] at h
    | false => exact ⟨not_not.1 hb, rfl⟩

theorem readPop_of_nil (h : s.recvStorage.popQueue = []) : s.readPop = s := by
  rw [readPop, RecvStorage.pop, h]

theorem readPop_eq (s : StreamInner) : ∃ b st fin, s.readPop =
    { s with recvBuffer := b, recvStorage := st, recvFinished := fin } := by
  cases hq : s.recvStorage.popQueue with
  | nil => exact ⟨_, _, _, readPop_of_nil hq⟩
  | cons segment rest =>
    rw [readPop, RecvStorage.pop, hq]
    cases segment <;> exact ⟨_, _, _, rfl⟩

@[simp] theorem isErr_readPop (s : StreamInner) : s.readPop.isErr = s.isErr := by
  obtain ⟨b, st, fin, hpop⟩ := s.readPop_eq
  rw [hpop]
  rfl

theorem readPop_recvStorage (s : StreamInner) : s.readPop.recvStorage = s.recvStorage.pop.2 := by
  rw [readPop, RecvStorage.pop]
  cases s.recvStorage.popQueue with
  | nil => rfl
  | cons segment rest => cases segment <;> rfl

end StreamInner

end Mdswp
