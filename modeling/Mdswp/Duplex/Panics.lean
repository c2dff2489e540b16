import Mdswp.Duplex.Safety

/-!
# When a thread of a connection panics

A panic of a thread poisons the locks it holds, and with them the whole connection; a worker that
panics without a lock ends alone. In an orderly run nothing panics, and no slide of a window goes on
for ever, but for two cases (`duplex_returns_iff`): an error has cleared the receive storage, a
segment arrives all the same, and the slide unwraps numbers that are no longer there; or an error
comes between the two looks of a worker at the state of the connection, the second of which it
unwraps.

The sender's numbers in flight form a block throughout (`Carries.block`), and a healthy receiver
keeps what lies before its window (`Station.Intact`).
-/

namespace Mdswp

open StreamInner

variable {o : Opening} {l : Link} {x x' y : Station}

/-! ## The two halves -/

theorem Carries.block (h : Carries o x y l) : x.stream.sendStorage.Block := by
  cases h.sending with
  | sent _ hs => exact hs ▸ h.inv.sends.block
  | unsent _ hu => exact SendStorage.block_of_queueSent_eq_nil (by rw [hu.storage_eq])
  | silent _ hs => exact SendStorage.block_of_queueSent_eq_nil (SendStorage.isEmpty_iff.1 hs).1

/-- A healthy receiver keeps what lies before its window. -/
def Station.Intact (x : Station) : Prop :=
  x.stream.isErr = false → x.stream.recvStorage.Retained

namespace Station

theorem Step.intact (h : x.Step y x') (hb : x.stream.recvStorage.Bounded) (hi : x.Intact) :
    x'.Intact := by
  cases h with
  | receives p n segment r _ _ _ hr =>
    intro he
    exact retained_recvStep hb (hi he) (e := .recv n segment) (by simp) (by rw [recvStep, hr]; rfl)
  | acknowledges t t' k r hk =>
    intro he
    exact retained_recvStep hb (hi he) (e := .popAcknowledge t t') (by simp)
      (by rw [recvStep, hk]; rfl)
  | pops len _ =>
    intro he
    rw [isErr_readPop] at he
    rw [readPop_recvStorage]
    exact retained_recvStep hb (hi he) (e := .pop) (by simp) rfl
  | _ => exact hi

theorem Outcome.intact (h : x.Outcome y x') (hb : x.stream.recvStorage.Bounded) (hi : x.Intact) :
    x'.Intact := by
  cases h with
  | goesOn h => exact h.intact hb hi
  | ends h err sendReset => exact fun he => Bool.noConfusion he

end Station

/-! ## What returns -/

variable {s : StreamInner}

theorem StreamInner.exists_pushRound (h : s.sendStorage.Block) {atLeast : ℕ} (ha : 0 < atLeast) :
    ∃ out, s.pushRound atLeast = .ok out := by
  rw [pushRound]
  split_ifs with hlen
  · exact ⟨_, rfl⟩
  obtain ⟨d, hd⟩ := DataSegment.exists_tryFrom_take (l := s.sendBuffer) (by
    rintro hnil
    rw [hnil] at hlen
    exact hlen ha)
  rcases h.push_ok (data_ne_accept d) with hp | hp
  · exact ⟨_, by simp only [hd, hp]; rfl⟩
  · exact ⟨_, by simp only [hd, hp]; rfl⟩

theorem StreamInner.exists_finishWritePush (h : s.sendStorage.Block) :
    ∃ out, s.finishWritePush = .ok out := by
  rw [finishWritePush]
  rcases h.push_ok finish_ne_accept with hp | hp
  · exact ⟨_, by rw [hp]⟩
  · exact ⟨_, by rw [hp]⟩

theorem StreamInner.exists_threadSend (h : s.sendStorage.Block) (t t' : Instant)
    (sent : IoResult Unit) : ∃ out, s.threadSend t t' sent = .ok out := by
  obtain ⟨r, st, hp, -⟩ := SendStorage.pop_result t t' h.length_le
  rw [threadSend, hp]
  cases r with
  | none => exact ⟨_, rfl⟩
  | some v => exact ⟨_, rfl⟩

/-- What the slide deletes, if the packet slides the window, is present. -/
def Packet.DeletesPresent (p : Packet) (r : RecvStorage) : Prop :=
  match p.segment with
  | .sequential n segment => Mdswp.DeletesPresent r (.recv n segment)
  | _ => True

instance (r : RecvStorage) : ∀ p : Packet, Decidable (p.DeletesPresent r)
  | ⟨.sequential n segment, _, _⟩ =>
    inferInstanceAs (Decidable (Mdswp.DeletesPresent r (.recv n segment)))
  | ⟨.reset, _, _⟩ | ⟨.establish _, _, _⟩ | ⟨.acknowledge _, _, _⟩ => isTrue trivial

theorem recvSegment_returns_iff (hb : s.recvStorage.Bounded) (p : Packet) :
    (∃ out, s.recvSegment p.segment = .ok out) ↔ p.DeletesPresent s.recvStorage := by
  rw [Packet.DeletesPresent]
  cases p.segment with
  | sequential n segment =>
    dsimp only
    rw [← returns_iff_deletesPresent hb, Returns, recvStep, recvSegment, recvSequential]
    cases s.recvStorage.recv n segment with
    | error f => exact iff_of_false (by rintro ⟨_, ⟨⟩⟩) (by rintro ⟨_, ⟨⟩⟩)
    | ok v =>
      obtain ⟨r, st⟩ := v
      cases r <;> exact iff_of_true ⟨_, rfl⟩ ⟨_, rfl⟩
  | _ => exact iff_of_true ⟨_, rfl⟩ trivial

namespace Party

variable {x : Party} {e : PartyEvent}

/-- When a packet reaches a stream that has errored, what its slide deletes is present. -/
def SlidesPresent (x : Party) (y : Station) (e : PartyEvent) : Prop :=
  x.stream.isErr → ∀ p ∈ arriving y e, p.DeletesPresent x.stream.recvStorage

instance (x : Party) (y : Station) (e : PartyEvent) : Decidable (x.SlidesPresent y e) :=
  inferInstanceAs (Decidable (_ → _))

/-- The worker unwraps its second look at the state of the connection. -/
def unwraps (x : Party) : PartyEvent → Bool
  | .work _ _ _ => x.worker = .checked
  | _ => false

/-- What a slide deletes is present, and there is no error between the two looks of the worker. -/
structure RunsOn (x : Party) (y : Station) (e : PartyEvent) : Prop where
  slides : x.SlidesPresent y e
  looks : x.unwraps e → x.stream.isErr = false

instance (x : Party) (y : Station) (e : PartyEvent) : Decidable (x.RunsOn y e) :=
  decidable_of_iff (x.SlidesPresent y e ∧ (x.unwraps e → x.stream.isErr = false))
    ⟨fun h => ⟨h.1, h.2⟩, fun h => ⟨h.slides, h.looks⟩⟩

theorem slidesPresent_of_none (h : arriving y e = none) : x.SlidesPresent y e := by
  intro _ p hp
  rw [h] at hp
  cases hp

theorem deletesPresent_of_healthy {p : Packet} (hi : x.Intact) (he : x.stream.isErr = false) :
    p.DeletesPresent x.stream.recvStorage := by
  rw [Packet.DeletesPresent]
  split
  · exact fun _ k hk _ => (hi he).filled_deleted (by omega)
  · trivial

/-- An event returns, but for a packet that reaches a stream that has errored. -/
theorem exists_step_iff (hs : x.stream.sendStorage.Block) (hb : x.stream.recvStorage.Bounded)
    (hi : x.Intact) (y : Station) (e : PartyEvent) :
    (∃ x', x.step y e = .ok x') ↔ x.SlidesPresent y e := by
  cases e with
  | lock k =>
    refine iff_of_true ?_ (slidesPresent_of_none rfl)
    rw [step]
    split
    · split_ifs <;> exact ⟨_, rfl⟩
    · exact ⟨_, rfl⟩
  | push k =>
    refine iff_of_true ?_ (slidesPresent_of_none rfl)
    rw [step]
    split
    · rename_i kind hk
      exact exists_map_eq_ok_iff.2 (exists_pushRound hs kind.atLeast_pos)
    · exact ⟨_, rfl⟩
  | finishPush k =>
    refine iff_of_true ?_ (slidesPresent_of_none rfl)
    rw [step]
    split
    · exact exists_map_eq_ok_iff.2 (exists_finishWritePush hs)
    · exact ⟨_, rfl⟩
  | finishPoll k =>
    refine iff_of_true ?_ (slidesPresent_of_none rfl)
    rw [step]
    split
    · split_ifs <;> exact ⟨_, rfl⟩
    · exact ⟨_, rfl⟩
  | finishDone k =>
    refine iff_of_true ?_ (slidesPresent_of_none rfl)
    rw [step]
    split <;> exact ⟨_, rfl⟩
  | deliver i =>
    cases hp : y.outbox[i]? with
    | none =>
      rw [step, hp]
      exact iff_of_true ⟨_, rfl⟩ (slidesPresent_of_none hp)
    | some p =>
      rw [step, SlidesPresent, arriving, hp]
      dsimp only
      rw [exists_map_eq_ok_iff, recvSegment_returns_iff hb]
      cases he : x.stream.isErr with
      | false => exact iff_of_true (deletesPresent_of_healthy hi he) (fun h => Bool.noConfusion h)
      | true => simp
  | work t t' sent =>
    refine iff_of_true ?_ (slidesPresent_of_none rfl)
    rw [step]
    cases x.worker with
    | send => exact exists_map_eq_ok_iff.2 (exists_threadSend hs t t' sent)
    | _ => exact ⟨_, rfl⟩
  | _ => exact iff_of_true ⟨_, rfl⟩ (slidesPresent_of_none rfl)

/-- The step after which the worker has panicked is its second look, at an error. -/
theorem step_panicked_iff {x' : Party} (h : x.step y e = .ok x') :
    x'.worker = .panicked ↔ x.worker = .panicked ∨ x.unwraps e ∧ x.stream.isErr := by
  have hsame : x'.worker = x.worker → x.unwraps e = false → (x'.worker = .panicked ↔
      x.worker = .panicked ∨ x.unwraps e ∧ x.stream.isErr) := fun hw hu => by simp [hw, hu]
  cases e with
  | work t t' sent =>
    rw [step] at h
    cases hw : x.worker with
    | ack =>
      rw [hw] at h
      cases h
      simp [unwraps, hw]
    | send =>
      rw [hw] at h
      obtain ⟨v, -, rfl⟩ := exists_of_map_eq_ok h
      simp [unwraps, hw]
    | _ =>
      rw [hw] at h
      cases h
      simp [threadLook_eq_panicked_iff, unwraps, hw]
  | push k =>
    rw [step] at h
    split at h
    · obtain ⟨v, -, rfl⟩ := exists_of_map_eq_ok h
      exact hsame rfl rfl
    · cases h
      exact hsame rfl rfl
  | finishPush k =>
    rw [step] at h
    split at h
    · obtain ⟨v, -, rfl⟩ := exists_of_map_eq_ok h
      exact hsame rfl rfl
    · cases h
      exact hsame rfl rfl
  | lock k =>
    rw [step] at h
    split at h
    · split_ifs at h <;> cases h <;> exact hsame rfl rfl
    · cases h
      exact hsame rfl rfl
  | finishPoll k =>
    rw [step] at h
    split at h
    · split_ifs at h <;> cases h <;> exact hsame rfl rfl
    · cases h
      exact hsame rfl rfl
  | finishDone k =>
    rw [step] at h
    split at h <;> cases h <;> exact hsame rfl rfl
  | deliver i =>
    rw [step] at h
    split at h
    · cases h
      exact hsame rfl rfl
    · obtain ⟨v, -, rfl⟩ := exists_of_map_eq_ok h
      exact hsame rfl rfl
  | _ =>
    cases h
    exact hsame rfl rfl

/-- An event returns, and leaves the worker alive, if and only if it runs on. -/
theorem step_returns_iff (hs : x.stream.sendStorage.Block) (hb : x.stream.recvStorage.Bounded)
    (hi : x.Intact) (hw : x.worker ≠ .panicked) (y : Station) (e : PartyEvent) :
    (∃ x', x.step y e = .ok x' ∧ x'.worker ≠ .panicked) ↔ x.RunsOn y e := by
  have hlooks : ∀ {x'}, x.step y e = .ok x' →
      (x'.worker ≠ .panicked ↔ (x.unwraps e → x.stream.isErr = false)) := fun h => by
    rw [ne_eq, step_panicked_iff h, or_iff_right hw, not_and, Bool.not_eq_true]
  constructor
  · rintro ⟨x', h, hw'⟩
    exact ⟨(exists_step_iff hs hb hi y e).1 ⟨x', h⟩, (hlooks h).1 hw'⟩
  · rintro ⟨hslides, hl⟩
    obtain ⟨x', h⟩ := (exists_step_iff hs hb hi y e).2 hslides
    exact ⟨x', h, (hlooks h).2 hl⟩

end Party

/-! ## Runs -/

/-- What a slide deletes is present, and there is no error between the two looks of the worker. -/
def RunsOn (st : Duplex) : DuplexEvent → Prop
  | .connector e => st.Opened → st.connector.RunsOn st.acceptor.toStation e
  | .acceptor e => st.acceptor.RunsOn st.connector.toStation e

instance (st : Duplex) : ∀ e, Decidable (RunsOn st e)
  | .connector _ => inferInstanceAs (Decidable (_ → _))
  | .acceptor _ => inferInstanceAs (Decidable (Party.RunsOn _ _ _))

/-- No worker has panicked. -/
structure Duplex.Alive (st : Duplex) : Prop where
  connector : st.connector.worker ≠ .panicked
  acceptor : st.acceptor.worker ≠ .panicked

/-- What holds after every orderly run, and keeps the next step from a panic. -/
structure Duplex.Sound (e n : SequenceNumber) (st : Duplex) : Prop where
  safe : st.Safe e n
  connector : st.connector.Intact
  acceptor : st.acceptor.Intact

namespace Duplex.Sound

variable {e n : SequenceNumber} {st st' : Duplex} {ev : DuplexEvent}

theorem new (a b : SocketAddr) (e n : SequenceNumber) : (Duplex.new a b e n).Sound e n where
  safe := .new a b e n
  connector _ := RecvStorage.retained_newByLocal n
  acceptor _ := RecvStorage.retained_newByPeer e

theorem step (h : st.Sound e n) (ho : Orderly st ev) (hs : duplexStep st ev = .ok st') :
    st'.Sound e n := by
  have hsafe := h.safe.step ho hs
  obtain ⟨⟨⟨l, hforth⟩, ⟨l', hback⟩⟩, hc, ha⟩ := h
  cases ev with
  | connector ev =>
    rw [duplexStep] at hs
    split_ifs at hs
    · obtain ⟨x, hx, rfl⟩ := exists_of_map_eq_ok hs
      exact ⟨hsafe, (Party.step_outcome ho hx).intact hback.receiver.bounded hc, ha⟩
    · obtain rfl := Except.ok.inj hs
      exact ⟨hsafe, hc, ha⟩
  | acceptor ev =>
    obtain ⟨x, hx, rfl⟩ := exists_of_map_eq_ok hs
    exact ⟨hsafe, hc, (Party.step_outcome ho hx).intact hforth.receiver.bounded ha⟩

theorem step_returns_iff (h : st.Sound e n) (halive : st.Alive) (ev : DuplexEvent) :
    (∃ st', duplexStep st ev = .ok st' ∧ st'.Alive) ↔ RunsOn st ev := by
  obtain ⟨⟨⟨l, hforth⟩, ⟨l', hback⟩⟩, hc, ha⟩ := h
  cases ev with
  | connector ev =>
    rw [duplexStep, RunsOn]
    split_ifs with hopen
    · rw [exists_map_eq_ok_and_iff, imp_iff_right hopen,
        ← Party.step_returns_iff hforth.block hback.receiver.bounded hc halive.connector]
      exact exists_congr fun x => and_congr_right fun _ =>
        ⟨fun h => h.connector, fun h => ⟨h, halive.acceptor⟩⟩
    · exact iff_of_true ⟨_, rfl, halive⟩ fun h => absurd h hopen
  | acceptor ev =>
    rw [duplexStep, RunsOn, exists_map_eq_ok_and_iff,
      ← Party.step_returns_iff hback.block hforth.receiver.bounded ha halive.acceptor]
    exact exists_congr fun x => and_congr_right fun _ =>
      ⟨fun h => h.acceptor, fun h => ⟨halive.connector, h⟩⟩

end Duplex.Sound

theorem Duplex.alive_new (a b : SocketAddr) (e n : SequenceNumber) : (Duplex.new a b e n).Alive :=
  ⟨fun h => ThreadPc.noConfusion h, fun h => ThreadPc.noConfusion h⟩

/-- A worker that has panicked does nothing any more. -/
theorem Duplex.Alive.of_step {st st' : Duplex} {ev : DuplexEvent} (h : duplexStep st ev = .ok st')
    (halive : st'.Alive) : st.Alive := by
  cases ev with
  | connector ev =>
    rw [duplexStep] at h
    split_ifs at h
    · obtain ⟨x, hx, rfl⟩ := exists_of_map_eq_ok h
      exact ⟨fun hw => halive.connector ((Party.step_panicked_iff hx).2 (.inl hw)),
        halive.acceptor⟩
    · obtain rfl := Except.ok.inj h
      exact halive
  | acceptor ev =>
    obtain ⟨x, hx, rfl⟩ := exists_of_map_eq_ok h
    exact ⟨halive.connector,
      fun hw => halive.acceptor ((Party.step_panicked_iff hx).2 (.inl hw))⟩

/-- **When a connection runs on.** In an orderly run of a new connection no thread panics, and no
slide of a window goes on for ever, if and only if every packet that reaches an end that has
errored, and slides its window, finds what the slide deletes, and no error comes between the two
looks of a worker at the state of the connection. -/
theorem duplex_returns_iff (connectorAddr acceptorAddr : SocketAddr)
    (establishSeqNum acceptSeqNum : SequenceNumber) {es : List DuplexEvent}
    (ho : Along duplexStep Orderly
      (.new connectorAddr acceptorAddr establishSeqNum acceptSeqNum) es) :
    (∃ st, run duplexStep (.new connectorAddr acceptorAddr establishSeqNum acceptSeqNum) es =
        .ok st ∧ st.Alive) ↔
      Along duplexStep RunsOn
        (.new connectorAddr acceptorAddr establishSeqNum acceptSeqNum) es := by
  have hnew := Duplex.alive_new connectorAddr acceptorAddr establishSeqNum acceptSeqNum
  rw [exists_run_eq_ok_and_iff (fun _ _ _ => Duplex.Alive.of_step) hnew]
  refine along_congr_of (fun st => st.Sound establishSeqNum acceptSeqNum ∧ st.Alive)
    (fun st ev h _ => h.1.step_returns_iff h.2 ev) ?_
    ⟨.new connectorAddr acceptorAddr _ _, hnew⟩ ho
  rintro st ev st' ⟨h, -⟩ ho ⟨st₁, h₁, halive⟩ hs
  obtain rfl := Except.ok.inj (h₁.symm.trans hs)
  exact ⟨h.step ho hs, halive⟩

/-- The data of `bothWays` arrives once more after the reset. -/
theorem duplex_returns_iff_afterReset :
    ∃ st, run duplexStep (.new (.v4 0 1) (.v4 0 2) 255 7) (bothWays ++ [.acceptor (.deliver 1)]) =
      .ok st ∧ st.Alive :=
  have ho : Along duplexStep Orderly (.new (.v4 0 1) (.v4 0 2) 255 7)
      (bothWays ++ [.acceptor (.deliver 1)]) := by decide
  (duplex_returns_iff (.v4 0 1) (.v4 0 2) 255 7 ho).2 (by decide)

/-- The connector writes and flushes a byte as its calls `2 * k` and `2 * k + 1`. -/
def flushes (k : ℕ) : List DuplexEvent :=
  [.call (.write [7]), .lock (2 * k), .push (2 * k), .call .flush, .lock (2 * k + 1),
    .push (2 * k + 1), .push (2 * k + 1)].map .connector

/-- Ten segments arrive and are acknowledged; the acceptor resets the connection, and the next
segment, which is under way, arrives. -/
def eleventhAfterReset : List DuplexEvent :=
  opens ++ (List.range 11).flatMap flushes ++ connectorWorks 0 14 ++
    (List.range 10).map (fun i => .acceptor (.deliver (i + 1))) ++ acceptorWorks 0 5 ++
    [.connector (.deliver 1), .connector (.work 0 0 (.ok ())),
      .acceptor (.error connResetLocal true), .acceptor (.deliver 11)]

theorem panics_eleventhAfterReset :
    run duplexStep (.new (.v4 0 1) (.v4 0 2) 255 7) eleventhAfterReset = .error .panic := rfl

/-- The acceptor resets the connection between the first look of its worker and the second one. -/
def resetBetweenLooks : List DuplexEvent :=
  acceptorWorks 0 1 ++ [.acceptor (.error connResetLocal true)] ++ acceptorWorks 0 1

theorem panics_resetBetweenLooks :
    ∃ st, run duplexStep (.new (.v4 0 1) (.v4 0 2) 255 7) resetBetweenLooks = .ok st ∧
      st.acceptor.worker = .panicked := ⟨_, rfl, rfl⟩

end Mdswp
