import Mathlib.Data.List.Pairwise
import Mdswp.Stream.Inner
import Mdswp.Stream.SendHistory

/-!
# The sending loop of the worker

The worker calls `pop` until it returns nothing. With a monotone clock `queueSent` is sorted by the
last transmissions (`Timely`), so that the overdue entries are a prefix of it, and the loop, run at
the time `t`, sends these first, each once, then unsent segments as far as the window has room, and
stops (`drain_complete`).

`threadSends` is the loop as the worker runs it, with the readings of the clock and the answers of
the listener at each turn; at one reading of the clock and with no failure it is `drain`
(`threadSends_eq_drain`).
-/

namespace Mdswp

open Serial

/-- `pop`, at the time `t`, until it returns nothing; `none` if this takes more than `rounds`
calls. -/
def drain (t : Instant) : ℕ → SendStorage →
    Exec (Option (List (SequenceNumber × SequentialSegment) × SendStorage))
  | 0, _ => .ok none
  | rounds + 1, s =>
    match s.pop t t with
    | .error f => .error f
    | .ok (none, s') => .ok (some ([], s'))
    | .ok (some popped, s') =>
      match drain t rounds s' with
      | .error f => .error f
      | .ok none => .ok none
      | .ok (some (later, s'')) => .ok (some (popped :: later, s''))

/-- The last transmission of the entry is more than half a timeout before `t`. -/
def Sent.Overdue (t : Instant) (e : Sent) : Prop := connTimeout / 2 < Instant.elapsed e.lastPop t

instance (t : Instant) (e : Sent) : Decidable (e.Overdue t) :=
  inferInstanceAs (Decidable (_ < _))

/-- What a transmission of the entry returns. -/
def Sent.transmission (e : Sent) : SequenceNumber × SequentialSegment := (e.seqNum, e.segment)

/-- The segments with consecutive numbers, the first of them `n`. -/
def numbered (n : SequenceNumber) (segments : List SequentialSegment) :
    List (SequenceNumber × SequentialSegment) :=
  segments.mapIdx fun i segment => (nth n i, segment)

theorem numbered_cons (n : SequenceNumber) (segment : SequentialSegment)
    (segments : List SequentialSegment) :
    numbered n (segment :: segments) = (n, segment) :: numbered (n + 1) segments := by
  simp only [numbered, List.mapIdx_cons, nth_zero, nth_add_one]

namespace SendStorage

/-- The entries that are overdue at `t`, in the order of the queue. -/
def overdue (s : SendStorage) (t : Instant) : List Sent := s.queueSent.filter (Sent.Overdue t)

/-- The unsent segments for which the window has room. -/
def sendable (s : SendStorage) : List SequentialSegment :=
  s.queueUnsent.take (windowSize.toNat - s.queueSent.length)

/-- The queue at `t`: at most a window, in the order of the last transmissions. -/
structure Timely (s : SendStorage) (t : Instant) : Prop where
  window : s.queueSent.length ≤ windowSize.toNat
  sorted : s.queueSent.Pairwise (·.lastPop ≤ ·.lastPop)
  past : ∀ e ∈ s.queueSent, e.lastPop ≤ t

end SendStorage

theorem not_overdue_self (t : Instant) (n : SequenceNumber) (segment : SequentialSegment) :
    ¬Sent.Overdue t ⟨n, segment, t⟩ := by
  simp [Sent.Overdue, Instant.elapsed]

theorem Sent.Overdue.of_le {t : Instant} {e e' : Sent} (h : e'.Overdue t)
    (hle : e.lastPop ≤ e'.lastPop) : e.Overdue t := by
  exact lt_of_lt_of_le h (Nat.sub_le_sub_left hle t)

namespace SendStorage

variable {s : SendStorage} {t t' : Instant}

theorem Timely.mono (h : s.Timely t) (ht : t ≤ t') : s.Timely t' :=
  ⟨h.window, h.sorted, fun e he => (h.past e he).trans ht⟩

/-- One more transmission at the back of the queue. -/
theorem Timely.concat {q : List Sent} {u : List SequentialSegment} {n : SequenceNumber}
    (hlen : q.length < windowSize.toNat) (hsorted : q.Pairwise (·.lastPop ≤ ·.lastPop))
    (hpast : ∀ e ∈ q, e.lastPop ≤ t) {e : Sent} (he : e.lastPop = t) :
    Timely ⟨q ++ [e], u, n⟩ t := by
  refine ⟨by rwa [List.length_append], ?_, ?_⟩
  · rw [List.pairwise_append]
    refine ⟨hsorted, List.pairwise_singleton _ _, ?_⟩
    intro d hd e' he'
    rw [List.mem_singleton.1 he', he]
    exact hpast d hd
  · intro d hd
    rcases List.mem_append.1 hd with hd | hd
    · exact hpast d hd
    · rw [List.mem_singleton.1 hd, he]

/-! ## The loop -/

theorem pop_of_overdue {e : Sent} {rest : List Sent} (hq : s.queueSent = e :: rest)
    (he : e.Overdue t) :
    s.pop t t' =
      .ok (some e.transmission, { s with queueSent := rest ++ [{ e with lastPop := t' }] }) := by
  rw [pop, tryPopSent, hq]
  unfold Sent.Overdue at he
  simp only [he, if_true]
  rfl

/-- With nothing overdue, `pop` tries an unsent segment. -/
theorem pop_of_overdue_eq_nil (h : s.overdue t = []) : s.pop t t' = s.tryPopUnsent t' := by
  rw [pop, tryPopSent]
  cases hq : s.queueSent with
  | nil => rfl
  | cons e rest =>
    have he : ¬e.Overdue t := by
      rw [overdue, hq, List.filter_eq_nil_iff] at h
      simpa using h e (by simp)
    unfold Sent.Overdue at he
    simp only [he, if_false]

/-- With nothing overdue, the loop sends the unsent segments for which there is room. -/
theorem drain_of_overdue_eq_nil (hlen : s.queueSent.length ≤ windowSize.toNat)
    (h : s.overdue t = []) {rounds : ℕ} (hr : s.sendable.length < rounds) :
    ∃ s', drain t rounds s = .ok (some (numbered s.nextUnsent s.sendable, s')) ∧
      s'.overdue t = [] ∧ (s'.queueSent.length = windowSize.toNat ∨ s'.queueUnsent = []) := by
  induction rounds generalizing s with
  | zero => exact absurd hr (Nat.not_lt_zero _)
  | succ rounds ih =>
    rw [drain, pop_of_overdue_eq_nil h, tryPopUnsent, if_neg (not_lt.2 hlen)]
    by_cases hfull : s.queueSent.length = windowSize.toNat
    · refine ⟨s, ?_, h, .inl hfull⟩
      rw [if_pos hfull, sendable, hfull, Nat.sub_self]
      rfl
    rw [if_neg hfull]
    cases hq : s.queueUnsent with
    | nil =>
      refine ⟨s, ?_, h, .inr hq⟩
      rw [sendable, hq, List.take_nil]
      rfl
    | cons segment rest =>
      have hroom : windowSize.toNat - s.queueSent.length =
          windowSize.toNat - (s.queueSent.length + 1) + 1 := by omega
      have hsend : s.sendable =
          segment :: rest.take (windowSize.toNat - (s.queueSent.length + 1)) := by
        rw [sendable, hq, hroom, List.take_succ_cons]
      have hnext : sendable ⟨s.queueSent ++ [⟨s.nextUnsent, segment, t⟩], rest,
          s.nextUnsent + 1⟩ = rest.take (windowSize.toNat - (s.queueSent.length + 1)) := by
        simp [sendable]
      obtain ⟨s', hs', hdone⟩ := ih (s := ⟨s.queueSent ++ [⟨s.nextUnsent, segment, t⟩], rest,
        s.nextUnsent + 1⟩)
        (by
          rw [List.length_append, List.length_singleton]
          omega)
        (by
          rw [overdue] at h ⊢
          simp [h, not_overdue_self])
        (by
          rw [hsend, List.length_cons] at hr
          rw [hnext]
          omega)
      refine ⟨s', ?_, hdone⟩
      simp only [hs', hnext]
      rw [hsend, numbered_cons]

/-- At a time that no transmission is later than, the loop sends the overdue entries, then the
unsent segments for which there is room, and stops. -/
theorem Timely.drain (h : s.Timely t) {rounds : ℕ}
    (hr : (s.overdue t).length + s.sendable.length < rounds) :
    ∃ s', drain t rounds s = .ok (some
        ((s.overdue t).map Sent.transmission ++ numbered s.nextUnsent s.sendable, s')) ∧
      s'.overdue t = [] ∧ (s'.queueSent.length = windowSize.toNat ∨ s'.queueUnsent = []) := by
  induction rounds generalizing s with
  | zero => exact absurd hr (Nat.not_lt_zero _)
  | succ rounds ih =>
    by_cases hnil : s.overdue t = []
    · rw [hnil] at hr ⊢
      exact drain_of_overdue_eq_nil h.window hnil (by simpa using hr)
    obtain ⟨e, rest, hq⟩ : ∃ e rest, s.queueSent = e :: rest := by
      cases hq : s.queueSent with
      | nil => exact absurd (by rw [overdue, hq, List.filter_nil]) hnil
      | cons e rest => exact ⟨e, rest, rfl⟩
    have hsorted := h.sorted
    rw [hq, List.pairwise_cons] at hsorted
    -- an overdue entry is no older than the front of the queue
    have he : e.Overdue t := by
      obtain ⟨d, hd⟩ := List.exists_mem_of_ne_nil _ hnil
      rw [overdue, hq, List.mem_filter, decide_eq_true_eq] at hd
      rcases List.mem_cons.1 hd.1 with rfl | hmem
      · exact hd.2
      · exact hd.2.of_le (hsorted.1 d hmem)
    have hover : s.overdue t = e :: rest.filter (Sent.Overdue t) := by
      rw [overdue, hq, List.filter_cons_of_pos (by simpa using he)]
    have hnext : overdue { s with queueSent := rest ++ [{ e with lastPop := t }] } t =
        rest.filter (Sent.Overdue t) := by
      simp [overdue, not_overdue_self]
    have hsend : sendable { s with queueSent := rest ++ [{ e with lastPop := t }] } =
        s.sendable := by
      simp [sendable, hq]
    have hwindow := h.window
    rw [hq, List.length_cons] at hwindow
    have htimely : Timely { s with queueSent := rest ++ [{ e with lastPop := t }] } t :=
      Timely.concat hwindow hsorted.2 (fun d hd => h.past d (by simp [hq, hd])) rfl
    rw [hover, List.length_cons] at hr
    obtain ⟨s', hs', hdone⟩ := ih htimely (by
      rw [hnext, hsend]
      omega)
    refine ⟨s', ?_, hdone⟩
    rw [Mdswp.drain, pop_of_overdue hq he]
    simp only [hs', hnext, hsend, hover]
    rfl

end SendStorage

/-! ## Runs under a monotone clock -/

/-- The readings of the clock are not before the last one, and in order. -/
def ClockMonotone (h : SendHistory) : SendCall → Prop
  | .pop t t' => h.clock ≤ t ∧ t ≤ t'
  | _ => True

instance (h : SendHistory) (e : SendCall) : Decidable (ClockMonotone h e) :=
  match e with
  | .push _ => isTrue trivial
  | .pop t t' => inferInstanceAs (Decidable (h.clock ≤ t ∧ t ≤ t'))
  | .acknowledge _ => isTrue trivial

theorem timely_step {h h' : SendHistory} {e : SendCall}
    (hi : Conserved h ∧ h.storage.Timely h.clock) (hm : ClockMonotone h e)
    (hs : historyStep h e = .ok h') : Conserved h' ∧ h'.storage.Timely h'.clock := by
  obtain ⟨hc, ht⟩ := hi
  have hc' := conserved_step hc hs
  refine ⟨hc', ?_⟩
  cases historyStep_result hc.inFlight_eq hs with
  | refused segment => exact ht
  | pushed segment => exact ⟨ht.window, ht.sorted, ht.past⟩
  | resent t t' k e rest hq =>
    have hqs : h.storage.queueSent = e :: rest.map Prod.snd := by
      rw [← hc.inFlight_eq, hq, List.map_cons]
    have ht := ht.mono (hm.1.trans hm.2)
    have hwindow := ht.window
    have hsorted := ht.sorted
    rw [hqs, List.length_cons] at hwindow
    rw [hqs, List.pairwise_cons] at hsorted
    exact SendStorage.Timely.concat hwindow hsorted.2
      (fun d hd => ht.past d (by simp [hqs, hd])) rfl
  | fresh t t' segment rest hq hlen =>
    have ht := ht.mono (hm.1.trans hm.2)
    exact SendStorage.Timely.concat hlen ht.sorted ht.past rfl
  | idle t t' => exact ht.mono (hm.1.trans hm.2)
  | rejected n hn => exact ht
  | removed n hn =>
    rw [SendStorage.acknowledge_of_lt hn]
    refine ⟨(List.length_filter_le _ _).trans ht.window, ht.sorted.filter _, ?_⟩
    intro d hd
    exact ht.past d (List.mem_filter.1 hd).1

/-- **The sending loop drains and stops.** In a storage that calls under a monotone clock have
reached, the loop at a time `t` not before the last of them returns, once it is given enough rounds,
every entry that is overdue at `t`, the oldest transmission first, and then the unsent segments
for which there is room, with consecutive numbers. After it nothing is overdue, and the window is
full or nothing is unsent. -/
theorem drain_complete {s : SendStorage} (hs : s.IsNew) {calls : List SendCall}
    (hm : Along historyStep ClockMonotone (.new s) calls) {h : SendHistory}
    (hr : run historyStep (.new s) calls = .ok h) {t : Instant} (ht : h.clock ≤ t) :
    (h.storage.overdue t).Pairwise (·.lastPop ≤ ·.lastPop) ∧
      ∀ rounds, (h.storage.overdue t).length + h.storage.sendable.length < rounds →
        ∃ s', drain t rounds h.storage = .ok (some
            ((h.storage.overdue t).map Sent.transmission ++
              numbered h.storage.nextUnsent h.storage.sendable, s')) ∧
          s'.overdue t = [] ∧
          (s'.queueSent.length = windowSize.toNat ∨ s'.queueUnsent = []) := by
  have hi : Conserved h ∧ h.storage.Timely h.clock := by
    refine run_invariant (P := ClockMonotone)
      (fun h => Conserved h ∧ h.storage.Timely h.clock) ?_ ?_ hm hr
    · intro h e h' hi hm hstep
      exact timely_step hi hm hstep
    · refine ⟨conserved_new hs.queueSent, ?_, ?_, ?_⟩ <;> simp [SendHistory.new, hs.queueSent]
  have htimely := hi.2.mono ht
  refine ⟨htimely.sorted.filter _, ?_⟩
  intro rounds hrounds
  exact htimely.drain hrounds

/-- `Accept` and a data segment are sent, and `Finish` is pushed. -/
def finishUnsent : List SendCall :=
  [.push (.data (oneByte 0)), .pop 0 0, .pop 0 1, .push .finish]

theorem drain_complete_finishUnsent :
    ∃ h s', run historyStep (.new (.newByPeer 255)) finishUnsent = .ok h ∧
      drain twoSeconds 4 h.storage =
        .ok (some ([(255, .accept), (0, .data (oneByte 0)), (1, .finish)], s')) ∧
      s'.overdue twoSeconds = [] := by
  have hm : Along historyStep ClockMonotone (.new (.newByPeer 255)) finishUnsent := by decide
  obtain ⟨s', hdrain, hdone, -⟩ := (drain_complete ⟨255, .inl rfl⟩ hm rfl
    (t := twoSeconds) (by decide)).2 4 (by decide)
  exact ⟨_, s', rfl, hdrain, hdone⟩

/-! ## The loop of the worker -/

namespace StreamInner

/-- The turns of the sending loop, each with its readings of the clock and the answer of the
listener. -/
def threadSends (s : StreamInner) : List (Instant × Instant × IoResult Unit) →
    Exec (StreamInner × List ListenerCall × WorkerPc)
  | [] => .ok (s, [], .send)
  | (t, t', sent) :: turns =>
    match s.threadSend t t' sent with
    | .error f => .error f
    | .ok (s', calls, .send) =>
      match s'.threadSends turns with
      | .error f => .error f
      | .ok (s'', later, pc) => .ok (s'', calls ++ later, pc)
    | .ok (s', calls, pc) => .ok (s', calls, pc)

/-- When the listener sends every datagram and the clock stands at `t`, the loop hands it what
`drain` returns, and ends. -/
theorem threadSends_eq_drain {s : StreamInner} {t : Instant} {rounds : ℕ}
    {sent : List (SequenceNumber × SequentialSegment)} {storage : SendStorage}
    (h : drain t rounds s.sendStorage = .ok (some (sent, storage))) :
    s.threadSends (List.replicate rounds (t, t, .ok ())) =
      .ok ({ s with sendStorage := storage },
        sent.map fun x => .sendTo s.peerAddr (.sequential x.1 x.2), .check) := by
  induction rounds generalizing s sent with
  | zero => cases h
  | succ rounds ih =>
    rw [List.replicate_succ, threadSends, threadSend]
    rw [drain] at h
    cases hp : s.sendStorage.pop t t with
    | error f => simp [hp] at h
    | ok x =>
      obtain ⟨_ | ⟨n, segment⟩, storage'⟩ := x
      · rw [hp] at h
        cases h
        rfl
      · rw [hp] at h
        cases hd : drain t rounds storage' with
        | error f => simp [hd] at h
        | ok y =>
          cases y with
          | none => simp [hd] at h
          | some y =>
            obtain ⟨later, storage''⟩ := y
            simp only [hd] at h
            cases h
            have := ih (s := { s with sendStorage := storage' }) hd
            simp only [threadSendTo, this]
            rfl

end StreamInner

end Mdswp
