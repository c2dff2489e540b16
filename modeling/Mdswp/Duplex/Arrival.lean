import Mdswp.Duplex.Safety

/-!
# What `finish_write` promises

When a `finish_write` finds nothing left in the send storage of a healthy stream, all that had been
pushed before its `Finish` is at the other end, and stays there: it has been popped by a `read`, or
is in the queue, in order and with `Finish` behind it (`finish_arrives`). This is so for every
`finish_write`, also for one after another that has returned. Nothing of it depends on the network
any more, whatever happens to either end.

The link says so at that moment (`Carries.received_eq`), and no later step takes it back
(`Comes.sender_outcome`, `Comes.receiver_outcome`).
-/

namespace Mdswp

open StreamInner

variable {o : Opening} {l : Link} {x x' y y' : Station} {before : List SequentialSegment}

/-- The segments that an end has received in order: those that have been popped, and the queue. -/
def Station.received (y : Station) : List SequentialSegment :=
  y.popped ++ y.stream.recvStorage.popQueue

/-- The segments `before` and the `Finish` behind them have been pushed, and have come to `y`. -/
structure Comes (before : List SequentialSegment) (x y : Station) : Prop where
  pushed : before ++ [.finish] <+: x.accepted
  received : before ++ [.finish] <+: y.received

/-- They have come to `y`, whose user has read what has been popped, but for what is in the buffer.
Before the first `Finish` they are what had been written, but for what was still buffered. -/
structure Arrived (before : List SequentialSegment) (x y : Station) : Prop
    extends Comes before x y where
  reads : y.Reads y.popped
  written : .finish ∉ before →
    ∃ w b, x.closed = some (w, b) ∧ bytesOf before ++ b = w ∧ w <+: x.written

/-! ## When nothing is left to be acknowledged -/

theorem Link.Inv.eq_accepted (h : l.Inv o) (hs : l.sender.isEmpty) :
    l.popped ++ l.receiver.popQueue = l.accepted := by
  obtain ⟨hsent, hunsent⟩ := SendStorage.isEmpty_iff.1 hs
  refine h.prefix_accepted.eq_of_length_le ?_
  have hissued := h.issued_le
  have hle := List.drop_eq_nil_iff.1 (h.sends.unsent_eq.symm.trans hunsent)
  rw [hsent, List.length_nil, Link.released] at hissued
  omega

theorem Carries.received_eq (h : Carries o x y l) (he : x.stream.isErr = false)
    (hs : x.stream.sendStorage.isEmpty) : y.received = x.accepted := by
  rw [Station.received, h.popped_eq, h.receiver.popQueue_eq, h.accepted_eq]
  cases h.sending with
  | sent _ hsend => exact h.inv.eq_accepted (hsend ▸ hs)
  | unsent _ hu => simp [hu.storage_eq, SendStorage.isEmpty] at hs
  | silent he' _ => simp [he] at he'

theorem Carries.arrived (h : Carries o x y l) (hc : Comes before x y) : Arrived before x y where
  toComes := hc
  reads := h.popped_eq ▸ h.reads
  written hno := by
    have hpre := h.accepted_eq ▸ hc.pushed
    cases hx : x.closed with
    | none => exact absurd (hpre.subset (by simp)) (h.writes.opened hx).1
    | some v =>
      obtain ⟨w, b⟩ := v
      obtain ⟨init, rest, hacc, hf, hw, hwr⟩ := h.writes.closed w b hx
      rw [hacc] at hpre
      obtain rfl := eq_of_concat_prefix_append_cons hpre hno hf
      exact ⟨w, b, rfl, hw, hwr⟩

/-! ## Nothing is taken back -/

theorem RecvStorage.Bounded.popQueue_prefix {r r' : RecvStorage} (h : r.Bounded)
    {n : SequenceNumber} {segment : SequentialSegment} {out : IoResult Unit}
    (hr : r.recv n segment = .ok (out, r')) : r.popQueue <+: r'.popQueue := by
  have hres := h.recv_result n segment
  rw [hr] at hres
  cases hres with
  | slid k _ _ _ _ _ => exact List.prefix_append _ _
  | _ => exact List.prefix_rfl

namespace Station

theorem Outcome.accepted_prefix (h : x.Outcome y x') : x.accepted <+: x'.accepted := by
  have hstep : ∀ x₁, x.Step y x₁ → x.accepted <+: x₁.accepted := fun x₁ h => by
    cases h with
    | pushes b ds _ _ => exact List.prefix_append _ _
    | finishes _ _ => exact List.prefix_append _ _
    | _ => exact List.prefix_rfl
  cases h with
  | goesOn h => exact hstep _ h
  | @ends x₁ h err sendReset => exact hstep x₁ h

/-- A healthy stream has been healthy before. -/
theorem Outcome.isErr_eq (h : x.Outcome y x') (he : x'.stream.isErr = false) :
    x.stream.isErr = false := by
  cases h with
  | goesOn h =>
    cases h with
    | pops len _ => rwa [isErr_readPop] at he
    | _ => exact he
  | ends h err sendReset => exact Bool.noConfusion he

/-- What a `read` pops is what was next in the queue. -/
theorem received_popRead (x : Station) (len : ℕ) : received { x with
    stream := x.stream.readPop
    reader := some (.looking len)
    popped := x.popped ++ x.stream.recvStorage.pop.1.toList } = x.received := by
  rw [received, received, readPop_recvStorage, RecvStorage.pop]
  cases hq : x.stream.recvStorage.popQueue <;> simp [hq]

theorem Step.received_prefix (h : x.Step y x') (hb : x.stream.recvStorage.Bounded) :
    x.received <+: x'.received := by
  cases h with
  | pops len _ =>
    rw [received_popRead]
  | receives p n segment r _ _ _ hr =>
    exact (List.prefix_append_right_inj _).2 (hb.popQueue_prefix hr)
  | acknowledges t t' k r hk =>
    have hpop := RecvStorage.popAcknowledge_popQueue (r := x.stream.recvStorage) t t'
    rw [hk] at hpop
    exact (List.prefix_append_right_inj _).2 (hpop ▸ List.prefix_rfl)
  | _ => exact List.prefix_rfl

theorem Outcome.received_prefix (h : x.Outcome y x') (hb : x.stream.recvStorage.Bounded) :
    x.received <+: x'.received := by
  cases h with
  | goesOn h => exact h.received_prefix hb
  | @ends x₁ h err sendReset => exact h.received_prefix hb

end Station

namespace Comes

theorem sender_outcome (h : Comes before x y) (hs : x.Outcome y x') : Comes before x' y :=
  ⟨h.pushed.trans hs.accepted_prefix, h.received⟩

theorem receiver_outcome (h : Comes before x y) (hb : y.stream.recvStorage.Bounded)
    (hs : y.Outcome x y') : Comes before x y' :=
  ⟨h.pushed, h.received.trans (hs.received_prefix hb)⟩

end Comes

/-! ## The calls -/

namespace Party

variable {x x' : Party} {y y' : Station} {e : PartyEvent}

/-- What a step has made of a call that is there after it. -/
inductive CallStep (x x' : Party) (c : WriteCall) : Prop
  | stays (h : c ∈ x.calls)
  | other (h : ∀ before, c.pc ≠ .waiting before ∧ c.pc ≠ .emptied before)
  | waits (hc : c.pc = .waiting x.accepted) (ha : x'.accepted = x.accepted ++ [.finish])
  | empties (d : WriteCall) (before : List SequentialSegment) (hd : d ∈ x.calls)
    (hw : d.pc = .waiting before) (hc : c.pc = .emptied before)
    (hs : x.stream.sendStorage.isEmpty) (hx : x'.toStation = x.toStation)

theorem callStep_returned {c : WriteCall} {result : IoResult Unit} (h : c.pc = .returned result) :
    CallStep x x' c :=
  .other fun before => by simp [h]

/-- A step that changes one call at most. -/
theorem callStep_of_set {k : ℕ} {c d : WriteCall} (hc : c ∈ x.calls.set k d)
    (hd : CallStep x x' d) : CallStep x x' c := by
  rcases List.mem_or_eq_of_mem_set hc with hc | rfl
  · exact .stays hc
  · exact hd

theorem step_call (h : x.step y e = .ok x') {c : WriteCall} (hc : c ∈ x'.calls) :
    CallStep x x' c := by
  cases e with
  | call kind =>
    cases h
    rcases List.mem_append.1 hc with hc | hc
    · exact .stays hc
    · obtain rfl := List.mem_singleton.1 hc
      refine .other fun before => ?_
      cases x.stream.streamState <;> simp
  | lock k =>
    rw [step] at h
    split at h
    · split_ifs at h
      · cases h
        exact .stays hc
      · cases h
        exact callStep_of_set hc (.other fun before => by simp)
    · cases h
      exact .stays hc
  | push k =>
    rw [step] at h
    split at h
    · rename_i kind _
      obtain ⟨⟨r, s⟩, -, rfl⟩ := exists_of_map_eq_ok h
      cases r with
      | none => exact .stays hc
      | some result =>
        refine callStep_of_set hc (.other fun before => ?_)
        cases kind <;> cases result <;> simp [WriteKind.ended]
    · cases h
      exact .stays hc
  | finishPush k =>
    rw [step] at h
    split at h
    · obtain ⟨⟨r, s, out⟩, -, rfl⟩ := exists_of_map_eq_ok h
      cases r with
      | ok u => exact callStep_of_set hc (.waits rfl rfl)
      | error err => exact callStep_of_set hc (callStep_returned rfl)
    · cases h
      exact .stays hc
  | finishPoll k =>
    rw [step] at h
    split at h
    · rename_i kind before hk
      split_ifs at h with hs
      · cases h
        exact callStep_of_set hc
          (.empties _ before (List.mem_of_getElem? hk) rfl rfl hs rfl)
      · cases h
        exact .stays hc
    · cases h
      exact .stays hc
  | finishDone k =>
    rw [step] at h
    split at h
    · cases h
      exact callStep_of_set hc (callStep_returned rfl)
    · cases h
      exact .stays hc
  | deliver i =>
    rw [step] at h
    split at h
    · cases h
      exact .stays hc
    · obtain ⟨⟨s, out⟩, -, rfl⟩ := exists_of_map_eq_ok h
      exact .stays hc
  | work t t' sent =>
    rw [step] at h
    cases hw : x.worker with
    | send =>
      rw [hw] at h
      obtain ⟨v, -, rfl⟩ := exists_of_map_eq_ok h
      exact .stays hc
    | _ =>
      rw [hw] at h
      cases h
      exact .stays hc
  | _ =>
    cases h
    exact .stays hc

/-- The calls that wait have pushed their `Finish`, and those that have found the storage of a
healthy stream empty know that it has come to the other end. -/
structure Closes (x : Party) (y : Station) : Prop where
  waiting : ∀ c ∈ x.calls, ∀ before, c.pc = .waiting before → before ++ [.finish] <+: x.accepted
  emptied : ∀ c ∈ x.calls, ∀ before, c.pc = .emptied before → x.stream.isErr = false →
    Comes before x.toStation y

namespace Closes

theorem sender_step (h : x.Closes y) (hc : Carries o x.toStation y l) (ho : x.Orderly y e)
    (hs : x.step y e = .ok x') : x'.Closes y := by
  have hout := step_outcome ho hs
  constructor
  · intro c hmem before hpc
    cases step_call hs hmem with
    | stays hold => exact (h.waiting c hold before hpc).trans hout.accepted_prefix
    | other hno => exact absurd hpc (hno before).1
    | waits hw ha =>
      obtain rfl := WritePc.waiting.inj (hw.symm.trans hpc)
      rw [ha]
    | empties d before' _ _ hemp => cases hemp.symm.trans hpc
  · intro c hmem before hpc he
    cases step_call hs hmem with
    | stays hold => exact (h.emptied c hold before hpc (hout.isErr_eq he)).sender_outcome hout
    | other hno => exact absurd hpc (hno before).2
    | waits hw _ => cases hw.symm.trans hpc
    | empties d before' hd hw hemp hempty hx =>
      obtain rfl := WritePc.emptied.inj (hemp.symm.trans hpc)
      have hpushed := h.waiting d hd before' hw
      rw [hx]
      exact ⟨hpushed, (hc.received_eq (hout.isErr_eq he) hempty).symm ▸ hpushed⟩

theorem receiver_outcome (h : x.Closes y) (hb : y.stream.recvStorage.Bounded)
    (hs : y.Outcome x.toStation y') : x.Closes y' :=
  ⟨h.waiting, fun c hmem before hpc he => (h.emptied c hmem before hpc he).receiver_outcome hb hs⟩

end Closes

/-- A `finish_write` of a healthy stream has found nothing left of what it has pushed behind the
segments `before`, and is about to return `Ok`. -/
def FinishesWell (x : Party) (before : List SequentialSegment) : Prop :=
  x.stream.isErr = false ∧ ∃ c ∈ x.calls, c.pc = .emptied before

theorem Closes.comes (h : x.Closes y) (hf : x.FinishesWell before) :
    Comes before x.toStation y := by
  obtain ⟨he, c, hmem, hpc⟩ := hf
  exact h.emptied c hmem before hpc he

end Party

/-! ## Runs -/

/-- What holds of a connection after every orderly run, for the statement of what `finish_write`
promises. -/
structure Duplex.Closes (e n : SequenceNumber) (st : Duplex) : Prop where
  safe : st.Safe e n
  connector : st.connector.Closes st.acceptor.toStation
  acceptor : st.acceptor.Closes st.connector.toStation

namespace Duplex

variable {e n : SequenceNumber} {st st' : Duplex} {ev : DuplexEvent}

theorem Closes.new (a b : SocketAddr) (e n : SequenceNumber) : (Duplex.new a b e n).Closes e n where
  safe := .new a b e n
  connector := ⟨fun _ hc => absurd hc List.not_mem_nil, fun _ hc => absurd hc List.not_mem_nil⟩
  acceptor := ⟨fun _ hc => absurd hc List.not_mem_nil, fun _ hc => absurd hc List.not_mem_nil⟩

theorem Closes.step (h : st.Closes e n) (ho : Orderly st ev) (hs : duplexStep st ev = .ok st') :
    st'.Closes e n := by
  have hsafe := h.safe.step ho hs
  obtain ⟨⟨⟨l, hforth⟩, ⟨l', hback⟩⟩, hc, ha⟩ := h
  cases ev with
  | connector ev =>
    rw [duplexStep] at hs
    split_ifs at hs
    · obtain ⟨x, hx, rfl⟩ := exists_of_map_eq_ok hs
      exact ⟨hsafe, hc.sender_step hforth ho hx,
        ha.receiver_outcome hback.receiver.bounded (Party.step_outcome ho hx)⟩
    · obtain rfl := Except.ok.inj hs
      exact ⟨hsafe, hc, ha⟩
  | acceptor ev =>
    obtain ⟨x, hx, rfl⟩ := exists_of_map_eq_ok hs
    exact ⟨hsafe, hc.receiver_outcome hforth.receiver.bounded (Party.step_outcome ho hx),
      ha.sender_step hback ho hx⟩

/-- What has come to either end stays there. -/
theorem Safe.comes_step (h : st.Safe e n) (ho : Orderly st ev) (hs : duplexStep st ev = .ok st') :
    (Comes before st.connector.toStation st.acceptor.toStation →
        Comes before st'.connector.toStation st'.acceptor.toStation) ∧
      (Comes before st.acceptor.toStation st.connector.toStation →
        Comes before st'.acceptor.toStation st'.connector.toStation) := by
  obtain ⟨⟨l, hforth⟩, ⟨l', hback⟩⟩ := h
  cases ev with
  | connector ev =>
    rw [duplexStep] at hs
    split_ifs at hs
    · obtain ⟨x, hx, rfl⟩ := exists_of_map_eq_ok hs
      have hout := Party.step_outcome ho hx
      exact ⟨fun hc => hc.sender_outcome hout,
        fun hc => hc.receiver_outcome hback.receiver.bounded hout⟩
    · obtain rfl := Except.ok.inj hs
      exact ⟨id, id⟩
  | acceptor ev =>
    obtain ⟨x, hx, rfl⟩ := exists_of_map_eq_ok hs
    have hout := Party.step_outcome ho hx
    exact ⟨fun hc => hc.receiver_outcome hforth.receiver.bounded hout,
      fun hc => hc.sender_outcome hout⟩

end Duplex

/-- **What `finish_write` promises.** Once a `finish_write` can return `Ok` from a healthy stream of
an orderly run, be it the first one or not, what had been pushed before its `Finish` has arrived at
the other end, and stays there after every orderly continuation. -/
theorem finish_arrives (connectorAddr acceptorAddr : SocketAddr)
    (establishSeqNum acceptSeqNum : SequenceNumber) {es es' : List DuplexEvent} {st st' : Duplex}
    (ho : Along duplexStep Orderly
      (.new connectorAddr acceptorAddr establishSeqNum acceptSeqNum) es)
    (hr : run duplexStep (.new connectorAddr acceptorAddr establishSeqNum acceptSeqNum) es =
      .ok st)
    (ho' : Along duplexStep Orderly st es') (hr' : run duplexStep st es' = .ok st')
    (before : List SequentialSegment) :
    (st.connector.FinishesWell before →
        Arrived before st'.connector.toStation st'.acceptor.toStation) ∧
      (st.acceptor.FinishesWell before →
        Arrived before st'.acceptor.toStation st'.connector.toStation) := by
  have h := run_invariant (Duplex.Closes establishSeqNum acceptSeqNum)
    (fun st ev st' h ho hs => h.step ho hs) (.new connectorAddr acceptorAddr _ _) ho hr
  obtain ⟨⟨⟨_, hforth⟩, ⟨_, hback⟩⟩, hc, ha⟩ := run_invariant
    (fun st' => st'.Safe establishSeqNum acceptSeqNum ∧
      (st.connector.FinishesWell before →
        Comes before st'.connector.toStation st'.acceptor.toStation) ∧
      (st.acceptor.FinishesWell before →
        Comes before st'.acceptor.toStation st'.connector.toStation))
    (fun _ _ _ h ho hs => ⟨h.1.step ho hs, fun hf => (h.1.comes_step ho hs).1 (h.2.1 hf),
      fun hf => (h.1.comes_step ho hs).2 (h.2.2 hf)⟩)
    ⟨h.safe, h.connector.comes, h.acceptor.comes⟩ ho' hr'
  exact ⟨fun hf => hforth.arrived (hc hf), fun hf => hback.arrived (ha hf)⟩

/-- The connector writes two bytes and finishes; both segments arrive, in the wrong order and one of
them twice, and are acknowledged. -/
def finishing : List DuplexEvent :=
  opens ++ [.connector (.call (.write [1, 2])), .connector (.lock 0), .connector (.push 0),
    .connector (.call .finishWrite), .connector (.lock 1), .connector (.push 1),
    .connector (.push 1), .connector (.finishPush 1)] ++ connectorWorks 0 6 ++
    [.acceptor (.deliver 0), .acceptor (.deliver 2), .acceptor (.deliver 1),
      .acceptor (.deliver 1)] ++ acceptorWorks 0 5 ++
    [.connector (.deliver 1), .connector (.finishPoll 1)]

/-- Then it writes one more byte and finishes once more. -/
def finishingAgain : List DuplexEvent :=
  finishing ++ [.connector (.finishDone 1), .connector (.call (.write [7])), .connector (.lock 2),
    .connector (.push 2), .connector (.call .finishWrite), .connector (.lock 3),
    .connector (.push 3), .connector (.push 3), .connector (.finishPush 3)] ++
    connectorWorks 0 2 ++ [.acceptor (.deliver 3), .acceptor (.deliver 4)] ++
    acceptorWorks connTimeout 5 ++ [.connector (.deliver 2), .connector (.finishPoll 3)]

/-- The connector resets the connection, and the acceptor reads. -/
def afterFinishing : List DuplexEvent :=
  [.connector (.error connResetLocal true), .acceptor (.read 1), .acceptor .readHead,
    .acceptor .readPop, .acceptor .readHead]

theorem finish_arrives_afterFinishing :
    ∃ st st', run duplexStep (.new (.v4 0 1) (.v4 0 2) 255 7) finishingAgain = .ok st ∧
      run duplexStep st afterFinishing = .ok st' ∧
      st'.acceptor.bytesRead = [1] ∧
      Arrived [.data ⟨[1, 2], by decide, by decide⟩, .finish, .data ⟨[7], by decide, by decide⟩]
        st'.connector.toStation st'.acceptor.toStation :=
  have ho : Along duplexStep Orderly (.new (.v4 0 1) (.v4 0 2) 255 7) finishingAgain := by decide
  ⟨_, _, rfl, rfl, rfl,
    (finish_arrives (.v4 0 1) (.v4 0 2) 255 7 ho rfl
      (by decide : Along duplexStep Orderly _ afterFinishing) rfl _).1
      ⟨rfl, _, .tail _ (.tail _ (.tail _ (.head _))), rfl⟩⟩

end Mdswp
