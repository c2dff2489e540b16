import Mdswp.Stream.SendBlock
import Mdswp.Stream.Session

/-!
# The worker and the receiving half

The worker thread sends the acknowledgements of the receiving half, but returns as soon as the
sending half is finished. While the connection is healthy it lives on until the peer's `Finish` has
been received and acknowledged in exactly the runs in which writing is finished no sooner, as far
as the worker sees (`along_outlivesWriting_iff`).
-/

namespace Mdswp

open StreamInner

variable {st st' : Session} {e : SessionEvent}

/-- While the connection is healthy, the worker does its duty to the receiving half: it has not
exited unless the peer's `Finish` has been received and acknowledged; before that every round goes
on to the acknowledgement, and sends the one that is due. -/
structure OutlivesWriting (st : Session) (e : SessionEvent) : Prop where
  alive : ∀ st', sessionStep st e = .ok st' → st'.inner.isErr = false → st'.worker = .exited →
    .finish ∈ st'.confirmed
  goesOn : ∀ t t' sent, e = .worker t t' sent → st.worker = .check → st.inner.isErr = false →
    .finish ∉ st.confirmed → ∃ st', sessionStep st e = .ok st' ∧ st'.worker = .ack
  acknowledges : ∀ t t' sent, e = .worker t t' sent → st.worker = .ack →
    ∀ n ∈ (st.inner.recvStorage.popAcknowledge t t').1,
      .sendTo st.inner.peerAddr (.acknowledge n) ∈ (st.inner.threadAck t t' sent).2.1

/-- If the worker starts a round with writing finished, the peer's `Finish` has been received and
acknowledged. -/
def FinishedLater (st : Session) : SessionEvent → Prop
  | .worker _ _ _ => st.worker = .check → st.inner.isErr = false → st.inner.sendFinished →
      .finish ∈ st.confirmed
  | _ => True

instance (st : Session) : ∀ e, Decidable (FinishedLater st e)
  | .worker _ _ _ => inferInstanceAs (Decidable (_ → _))
  | .write _ | .flush | .finishFlush | .finishPush _ | .finishPoll _ | .read _ | .readWait _
  | .recv _ | .error _ _ => isTrue trivial

/-- A healthy session whose worker has exited has received and acknowledged the `Finish`. -/
def Session.Alive (st : Session) : Prop :=
  st.inner.isErr = false → st.worker = .exited → .finish ∈ st.confirmed

theorem sendTo_mem_threadAck {s : StreamInner} {t t' : Instant} {sent : IoResult Unit}
    {n : SequenceNumber} (h : (s.recvStorage.popAcknowledge t t').1 = some n) :
    .sendTo s.peerAddr (.acknowledge n) ∈ (s.threadAck t t' sent).2.1 := by
  rw [threadAck]
  split
  · rename_i hnone
    rw [hnone] at h
    cases h
  · rename_i m st hsome
    rw [hsome] at h
    cases h
    cases sent with
    | ok u => exact List.mem_singleton_self _
    | error err => exact List.mem_cons_self

theorem sessionStep_check {t t' : Instant} {sent : IoResult Unit} (hw : st.worker = .check) :
    sessionStep st (.worker t t' sent) =
      .ok { st with worker := threadCheck (some st.inner) } := by
  simp only [sessionStep, hw]

theorem threadCheck_of_not_isErr {s : StreamInner} (h : s.isErr = false) :
    threadCheck (some s) = if s.sendFinished then .exited else .ack := by
  simp [threadCheck, h]

namespace Session.Alive

theorem outlivesWriting_iff (h : st.Alive) (e : SessionEvent) :
    OutlivesWriting st e ↔ FinishedLater st e := by
  constructor
  · intro ho
    cases e with
    | worker t t' sent =>
      intro hw he hfin
      apply ho.alive { st with worker := threadCheck (some st.inner) } (sessionStep_check hw) he
      dsimp only
      rw [threadCheck_of_not_isErr he, if_pos hfin]
    | _ => trivial
  · intro hf
    refine ⟨fun st' hs he hx => ?_, fun t t' sent heq hw he hno => ?_,
      fun t t' sent heq hw n hn => sendTo_mem_threadAck hn⟩
    · cases sessionStep_result hs with
      | checked t t' sent hw =>
        dsimp only at he hx
        rw [threadCheck_of_not_isErr he] at hx
        split_ifs at hx with hfin
        exact hf hw he hfin
      | acks => cases hx
      | sends t t' sent x s pc hw hpc hp => exact absurd hx hpc
      | finishFailed => simp [Session.fail] at he
      | fails => simp [Session.fail] at he
      | ackFails => simp [Session.fail] at he
      | sendFails => simp [Session.fail] at he
      | _ => exact h he hx
    · subst heq
      refine ⟨_, sessionStep_check hw, ?_⟩
      have hnot : ¬st.inner.sendFinished := fun hfin => hno (hf hw he hfin)
      dsimp only
      rw [threadCheck_of_not_isErr he, if_neg hnot]

theorem new (s : StreamInner) : (Session.new s).Alive := by
  intro _ hx
  cases hx

theorem step (ho : OutlivesWriting st e) (hs : sessionStep st e = .ok st') : st'.Alive :=
  fun he hx => ho.alive st' hs he hx

end Session.Alive

/-- **Half-close keeps the other direction alive** in exactly the runs in which the worker finds
writing finished only after the peer's `Finish` has been received and acknowledged. -/
theorem along_outlivesWriting_iff (s : StreamInner) (es : List SessionEvent) :
    Along sessionStep OutlivesWriting (.new s) es ↔ Along sessionStep FinishedLater (.new s) es :=
  along_congr Session.Alive (fun _ e h => h.outlivesWriting_iff e)
    (fun _ _ _ _ ho hs => Session.Alive.step ho hs) (.new s) es

/-- A `finish_write` returns while the peer has not finished: the worker exits at its next round,
and what the peer sends afterwards is received but never acknowledged. -/
theorem worker_exits_before_peer_finished :
    ∃ st, run sessionStep (.new (.newByLocal (.v4 0 0) 0 0))
        [.finishFlush, .finishPush 0, .worker 0 0 (.ok ()), .worker 0 0 (.ok ()),
          .worker 0 0 (.ok ()), .worker 0 0 (.ok ()), .recv (.acknowledge 1), .finishPoll 0,
          .worker 0 0 (.ok ()), .recv (.sequential 1 (.data (oneByte 7)))] = .ok st ∧
      st.calls = [.returned (.ok ())] ∧ st.inner.connState = .ok () ∧ st.worker = .exited ∧
      st.released = [.data (oneByte 7)] ∧ st.confirmed = [] :=
  ⟨_, rfl, rfl, rfl, rfl, rfl, rfl⟩

end Mdswp
