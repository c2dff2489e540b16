import Mdswp.Stream.Drain
import Mdswp.Stream.Exhaustion

/-!
# How often an end sends

Two timers keep an end from flooding the network, both of half a timeout.

* `transmissions_spaced`: two transmissions of the same segment are more than half a timeout apart,
  whatever is acknowledged in between;
* `acknowledgements_rationed`: beyond the first one or two, each acknowledgement is paid for, by a
  repeated segment, by six segments released in order, or by half a timeout.

Both are about runs under a monotone clock.
-/

namespace Mdswp

open Serial

/-! ## Transmissions -/

/-- A send history with the time of each transmission. -/
structure SendLog extends SendHistory where
  /-- The counter of the segment, and the time. -/
  log : List (ℕ × Instant)

namespace SendLog

def new (s : SendStorage) : SendLog := ⟨.new s, []⟩

/-- The call has led to the history `h`. -/
def logged (x : SendLog) (h : SendHistory) : SendLog where
  toSendHistory := h
  log := x.log ++
    (h.transmissions.drop x.transmissions.length).map fun sent => (sent.index, h.clock)

end SendLog

def logStep (x : SendLog) (e : SendCall) : Exec SendLog :=
  (historyStep x.toSendHistory e).map x.logged

namespace SendLog

variable {x x' : SendLog} {h : SendHistory} {e : SendCall}

theorem logged_of_eq (hh : h.transmissions = x.transmissions) : (x.logged h).log = x.log := by
  rw [logged, hh, List.drop_length, List.map_nil, List.append_nil]

theorem logged_of_append {sent : Transmission} (hh : h.transmissions = x.transmissions ++ [sent]) :
    (x.logged h).log = x.log ++ [(sent.index, h.clock)] := by
  rw [logged, hh, List.drop_left, List.map_singleton]

/-- The log is spaced, and knows when each entry in flight was sent last. -/
structure Paced (x : SendLog) : Prop where
  conserved : Conserved x.toSendHistory
  counters : x.log.map Prod.fst = x.transmissions.map Transmission.index
  past : ∀ a ∈ x.log, a.2 ≤ x.clock
  recent : ∀ y ∈ x.inFlight, ∀ a ∈ x.log, a.1 = y.1 → a.2 ≤ y.2.lastPop
  spaced : x.log.Pairwise fun a b => a.1 = b.1 → a.2 + connTimeout / 2 < b.2

theorem Paced.lt_issued (hx : x.Paced) {a : ℕ × Instant} (ha : a ∈ x.log) : a.1 < x.issued := by
  have hmem : a.1 ∈ x.transmissions.map Transmission.index := by
    rw [← hx.counters]
    exact List.mem_map_of_mem ha
  obtain ⟨sent, hsent, heq⟩ := List.mem_map.1 hmem
  rw [← heq]
  exact (hx.conserved.sent sent hsent).1

/-- Only what is overdue is sent again. -/
theorem overdue_of_resent {h h' : SendHistory} {t t' : Instant} {k : ℕ} {s : Sent}
    {rest : List (ℕ × Sent)} (hc : Conserved h) (hs : historyStep h (.pop t t') = .ok h')
    (hq : h.inFlight = (k, s) :: rest) (hissued : h'.issued = h.issued)
    (hsent : h'.transmissions ≠ h.transmissions) : s.Overdue t := by
  rw [historyStep] at hs
  cases hp : h.storage.pop t t' with
  | error f => simp [hp] at hs
  | ok r =>
    obtain ⟨r, storage⟩ := r
    rw [hp] at hs
    cases SendStorage.PopResult.of_pop hp with
    | resent s' rest' hq' ht =>
      rw [← hc.inFlight_eq, hq] at hq'
      obtain rfl := (List.cons.inj hq').1
      exact ht
    | fresh segment rest' hq' hlen =>
      obtain rfl := Except.ok.inj hs
      rw [SendHistory.popped, if_pos (by simp [hq'])] at hissued
      exact absurd hissued (Nat.succ_ne_self _)
    | idle _ =>
      obtain rfl := Except.ok.inj hs
      exact absurd rfl hsent

namespace Paced

theorem of_eq (hx : x.Paced) (hc : Conserved h) (htr : h.transmissions = x.transmissions)
    (hclock : x.clock ≤ h.clock) (hflight : ∀ y ∈ h.inFlight, y ∈ x.inFlight) :
    (x.logged h).Paced where
  conserved := hc
  counters := by
    rw [logged_of_eq htr, hx.counters]
    exact congrArg _ htr.symm
  past a ha := by
    rw [logged_of_eq htr] at ha
    exact le_trans (hx.past a ha) hclock
  recent y hy a ha := by
    rw [logged_of_eq htr] at ha
    exact hx.recent y (hflight y hy) a ha
  spaced := by
    rw [logged_of_eq htr]
    exact hx.spaced

/-- A segment has been sent that was sent last long enough before, if at all. -/
theorem of_append (hx : x.Paced) (hc : Conserved h) {sent : Transmission}
    (htr : h.transmissions = x.transmissions ++ [sent]) (hclock : x.clock ≤ h.clock)
    (hspaced : ∀ a ∈ x.log, a.1 = sent.index → a.2 + connTimeout / 2 < h.clock)
    (hflight : ∀ y ∈ h.inFlight, y ∈ x.inFlight ∧ y.1 ≠ sent.index ∨ y.2.lastPop = h.clock) :
    (x.logged h).Paced where
  conserved := hc
  counters := by
    rw [logged_of_append htr, List.map_append, hx.counters]
    show _ = h.transmissions.map _
    rw [htr, List.map_append]
    rfl
  past a ha := by
    rw [logged_of_append htr] at ha
    rcases List.mem_append.1 ha with ha | ha
    · exact le_trans (hx.past a ha) hclock
    · rw [List.mem_singleton.1 ha]
      exact le_rfl
  recent y hy a ha heq := by
    rw [logged_of_append htr] at ha
    rcases hflight y hy with ⟨hy, hne⟩ | hlast
    · rcases List.mem_append.1 ha with ha | ha
      · exact hx.recent y hy a ha heq
      · rw [List.mem_singleton.1 ha] at heq
        exact absurd heq.symm hne
    · rw [hlast]
      rcases List.mem_append.1 ha with ha | ha
      · exact le_trans (hx.past a ha) hclock
      · rw [List.mem_singleton.1 ha]
  spaced := by
    rw [logged_of_append htr, List.pairwise_append]
    refine ⟨hx.spaced, List.pairwise_singleton _ _, fun a ha b hb heq => ?_⟩
    rw [List.mem_singleton.1 hb] at heq ⊢
    exact hspaced a ha heq

theorem step (hx : x.Paced) (hm : ClockMonotone x.toSendHistory e) (hs : logStep x e = .ok x') :
    x'.Paced := by
  obtain ⟨h, hh, rfl⟩ := exists_of_map_eq_ok hs
  have hc := conserved_step hx.conserved hh
  have hres := historyStep_result hx.conserved.inFlight_eq hh
  cases hres with
  | refused segment => exact hx.of_eq hc rfl le_rfl fun y hy => hy
  | pushed segment => exact hx.of_eq hc rfl le_rfl fun y hy => hy
  | resent t t' k s rest hq =>
    have hdue : s.Overdue t := overdue_of_resent hx.conserved hh hq rfl (by simp)
    refine hx.of_append hc rfl (le_trans hm.1 hm.2) (fun a ha heq => ?_) fun y hy => ?_
    · have hlast : a.2 ≤ s.lastPop := hx.recent (k, s) (by simp [hq]) a ha heq
      calc a.2 + connTimeout / 2 ≤ s.lastPop + connTimeout / 2 := Nat.add_le_add_right hlast _
        _ < t := Nat.add_comm s.lastPop _ ▸ Nat.lt_sub_iff_add_lt.1 hdue
        _ ≤ t' := hm.2
    · rcases List.mem_append.1 hy with hy | hy
      · refine .inl ⟨by simp [hq, hy], fun heq => ?_⟩
        have hnodup := (hx.conserved.places.nodup_iff.2 List.nodup_range).of_append_left
        rw [hq, List.map_cons, List.nodup_cons] at hnodup
        exact hnodup.1 (List.mem_map.2 ⟨y, hy, heq⟩)
      · rw [List.mem_singleton.1 hy]
        exact .inr rfl
  | fresh t t' segment rest hq hlen =>
    refine hx.of_append hc rfl (le_trans hm.1 hm.2) (fun a ha heq => ?_) fun y hy => ?_
    · exact absurd heq (hx.lt_issued ha).ne
    · rcases List.mem_append.1 hy with hy | hy
      · exact .inl ⟨hy, (hx.conserved.index_lt hy).ne⟩
      · rw [List.mem_singleton.1 hy]
        exact .inr rfl
  | idle t t' => exact hx.of_eq hc rfl (le_trans hm.1 hm.2) fun y hy => hy
  | rejected n hn => exact hx.of_eq hc rfl le_rfl fun y hy => hy
  | removed n hn =>
    exact hx.of_eq hc rfl le_rfl fun y hy => (List.mem_filter.1 hy).1

theorem new {s : SendStorage} (hs : s.queueSent = []) : (SendLog.new s).Paced where
  conserved := conserved_new hs
  counters := rfl
  past := nofun
  recent := nofun
  spaced := .nil

end Paced

end SendLog

/-- **Retransmissions are spaced.** In a storage that calls under a monotone clock have reached, any
two transmissions of the same segment are more than half a timeout apart. -/
theorem transmissions_spaced {s : SendStorage} (hs : s.IsNew) {calls : List SendCall} {x : SendLog}
    (hm : Along logStep (fun x e => ClockMonotone x.toSendHistory e) (.new s) calls)
    (hr : run logStep (.new s) calls = .ok x) :
    x.log.map Prod.fst = x.transmissions.map Transmission.index ∧
      x.log.Pairwise fun a b => a.1 = b.1 → a.2 + connTimeout / 2 < b.2 := by
  have hx : x.Paced :=
    run_invariant SendLog.Paced (fun _ _ _ hx hm hs => hx.step hm hs) (.new hs.queueSent) hm hr
  exact ⟨hx.counters, hx.spaced⟩

/-- `Accept` is sent again once it is overdue, and no more once it is acknowledged. -/
def acceptPaced : List SendCall :=
  [.pop 0 1, .pop 5 5, .pop twoSeconds twoSeconds, .pop twoSeconds twoSeconds, .acknowledge 255,
    .pop (2 * twoSeconds) (2 * twoSeconds)]

theorem transmissions_spaced_acceptPaced :
    ∃ x, run logStep (.new (.newByPeer 255)) acceptPaced = .ok x ∧
      x.log = [(0, 1), (0, twoSeconds)] ∧
      x.log.Pairwise fun a b => a.1 = b.1 → a.2 + connTimeout / 2 < b.2 := by
  have hm : Along logStep (fun x e => ClockMonotone x.toSendHistory e) (.new (.newByPeer 255))
      acceptPaced := by decide
  exact ⟨_, rfl, rfl, (transmissions_spaced ⟨255, .inl rfl⟩ hm rfl).2⟩

/-! ## Acknowledgements -/

/-- A receiver, and what its `pop_acknowledge` calls have returned. -/
structure AckLog extends Receiver where
  /-- How many acknowledgements have been returned. -/
  acks : ℕ
  /-- How many segments have come that were there already. -/
  repeats : ℕ
  /-- The first reading of the clock. -/
  start : Instant
  /-- The last one. -/
  clock : Instant

namespace AckLog

def new (r : RecvStorage) (start : Instant) : AckLog := ⟨.new r, 0, 0, start, start⟩

/-- The call has led to the receiver `st`. -/
def logged (x : AckLog) (e : ReceiverCall) (st : Receiver) : AckLog :=
  match e with
  | .recv n segment => { x with
      toReceiver := st
      repeats := x.repeats +
        if x.storage.Accepts n ∧ x.storage.segments n = some segment then 1 else 0 }
  | .pop => { x with toReceiver := st }
  | .popAcknowledge t t' => { x with
      toReceiver := st
      acks := x.acks + (x.storage.popAcknowledge t t').1.toList.length
      clock := t' }

end AckLog

def ackLogStep (x : AckLog) (e : ReceiverCall) : Exec AckLog :=
  (receiverStep x.toReceiver e).map (x.logged e)

/-- The readings of the clock are not before the last one, and in order. -/
def AckClockMonotone (x : AckLog) : ReceiverCall → Prop
  | .popAcknowledge t t' => x.clock ≤ t ∧ t ≤ t'
  | .recv _ _ => True
  | .pop => True

instance (x : AckLog) : ∀ e, Decidable (AckClockMonotone x e)
  | .popAcknowledge t t' => inferInstanceAs (Decidable (x.clock ≤ t ∧ t ≤ t'))
  | .recv _ _ => isTrue trivial
  | .pop => isTrue trivial

namespace RecvStorage

variable {r r' : RecvStorage} {n : SequenceNumber} {segment : SequentialSegment}

/-- `recv` asks for an acknowledgement only if the segment was there already. -/
theorem Bounded.recv_acks (h : r.Bounded) {result : IoResult Unit}
    (hr : r.recv n segment = .ok (result, r')) :
    r'.lastAck = r.lastAck ∧
      (r'.urgentAck = r.urgentAck ∨ r.Accepts n ∧ r.segments n = some segment) := by
  have hres := h.recv_result n segment
  rw [hr] at hres
  cases hres with
  | outOfRange hacc => exact ⟨rfl, .inl rfl⟩
  | conflict expected hacc hs hne => exact ⟨rfl, .inl rfl⟩
  | duplicate hacc hs => exact ⟨rfl, .inr ⟨hacc, hs⟩⟩
  | buffered hacc hs hne => exact ⟨rfl, .inl rfl⟩
  | slid k hn hacc hk hrun hret => exact ⟨rfl, .inl rfl⟩

/-- Whether an acknowledgement is asked for. -/
def urgency (r : RecvStorage) : ℕ := if r.urgentAck then 1 else 0

theorem urgency_le (r : RecvStorage) : r.urgency ≤ 1 := by
  rw [urgency]
  split_ifs <;> omega

theorem urgency_congr (h : r'.urgentAck = r.urgentAck) : r'.urgency = r.urgency := by
  rw [urgency, h, urgency]

end RecvStorage

namespace AckLog

open RecvStorage

variable {x x' : AckLog} {e : ReceiverCall}

/-- What the acknowledgements have been paid with, up to the last one, which was returned at the
time `last` when `r` segments had been released: `u` of them were urgent, `a` came half a timeout
later, and `w` after six segments. -/
structure Paid (x : AckLog) (last : Instant) (r u a w : ℕ) : Prop where
  acks : x.acks ≤ 1 + u + a + w
  urgent : u + x.storage.urgency ≤ x.repeats + x.initial.urgency
  released : 6 * w ≤ r
  released_le : r ≤ x.released
  elapsed : x.start + a * (connTimeout / 2) ≤ last
  last_le : last ≤ x.clock

/-- Acknowledgements have been paid for. -/
structure Rationed (x : AckLog) : Prop where
  simulates : x.Simulates
  start_le : x.start ≤ x.clock
  none_acked : x.storage.lastAck = none →
    x.acks = 0 ∧ x.storage.urgency ≤ x.repeats + x.initial.urgency
  paid : ∀ n last, x.storage.lastAck = some (n, last) →
    ∃ r u a w, n = nth x.initial.window r - 1 ∧ x.Paid last r u a w

namespace Rationed

/-- A call that returns no acknowledgement, and asks for one only if a segment repeats. -/
theorem of_same (h : x.Rationed) {st : Receiver} {repeats : ℕ} {clock : Instant}
    (hst : st.Simulates) (hinit : st.initial = x.initial) (hrel : x.released ≤ st.released)
    (hack : st.storage.lastAck = x.storage.lastAck)
    (hurgent : st.storage.urgency + x.repeats ≤ x.storage.urgency + repeats)
    (hclock : x.clock ≤ clock) :
    Rationed { x with toReceiver := st, repeats := repeats, clock := clock } where
  simulates := hst
  start_le := le_trans h.start_le hclock
  none_acked hnone := by
    obtain ⟨hacks, hu⟩ := h.none_acked (hack ▸ hnone)
    dsimp only
    rw [hinit]
    exact ⟨hacks, by omega⟩
  paid n last hsome := by
    obtain ⟨r, u, a, w, hn, hpaid⟩ := h.paid n last (hack ▸ hsome)
    have hu := hpaid.urgent
    dsimp only
    rw [hinit]
    refine ⟨r, u, a, w, hn, hpaid.acks, ?_, hpaid.released, hpaid.released_le.trans hrel,
      hpaid.elapsed, le_trans hpaid.last_le hclock⟩
    dsimp only
    rw [hinit]
    omega

/-- The number that is acknowledged next. -/
theorem window_eq (h : x.Rationed) : x.storage.window = nth x.initial.window x.released := by
  rw [h.simulates.window, h.simulates.released_eq]

/-- `last_ack` is set, and the acknowledgements are paid for with `u`, `a` and `w`. -/
theorem of_acked (h : x.Rationed) {t' : Instant} {r : RecvStorage} {acks u a w : ℕ}
    (hsim : Receiver.Simulates { x.toReceiver with storage := r })
    (hqueue : r.popQueue = x.storage.popQueue)
    (hlast : r.lastAck = some (x.storage.window - 1, t')) (hclock : x.clock ≤ t')
    (hacks : acks ≤ 1 + u + a + w) (hurgent : u + r.urgency ≤ x.repeats + x.initial.urgency)
    (hreleased : 6 * w ≤ x.released) (helapsed : x.start + a * (connTimeout / 2) ≤ t') :
    Rationed { x with storage := r, acks := acks, clock := t' } where
  simulates := hsim
  start_le := le_trans h.start_le hclock
  none_acked hnone := by simp [hlast] at hnone
  paid n last hsome := by
    obtain ⟨rfl, rfl⟩ := Prod.mk.inj (Option.some.inj (hlast.symm.trans hsome))
    refine ⟨x.released, u, a, w, by rw [h.window_eq], hacks, hurgent, hreleased, ?_, helapsed,
      le_rfl⟩
    rw [Receiver.released, Receiver.released, hqueue]

/-- The number before the window, where six more segments have been released. -/
theorem add_six_le (h : x.Rationed) {r : ℕ} (hle : r ≤ x.released)
    (hdiff : windowSize >>> 1 < x.storage.window - 1 - (nth x.initial.window r - 1)) :
    r + 6 ≤ x.released := by
  by_contra hlt
  rw [sub_sub_sub_cancel_right, h.window_eq, BitVec.lt_def,
    toNat_nth_sub_nth hle (by omega)] at hdiff
  have hfive : (windowSize >>> 1).toNat = 5 := rfl
  omega

theorem popAcknowledge (h : x.Rationed) {t t' : Instant} (ht : x.clock ≤ t) (ht' : t ≤ t')
    (hsim : Receiver.Simulates
      { x.toReceiver with storage := (x.storage.popAcknowledge t t').2 }) :
    (x.logged (.popAcknowledge t t')
      { x.toReceiver with storage := (x.storage.popAcknowledge t t').2 }).Rationed := by
  have hclock : x.clock ≤ t' := le_trans ht ht'
  rw [AckLog.logged]
  cases hack : x.storage.lastAck with
  | none =>
    obtain ⟨hacks, hurgent⟩ := h.none_acked hack
    refine h.of_acked (u := 0) (a := 0) (w := 0) hsim (by simp) ?_ hclock ?_ ?_ (Nat.zero_le _) ?_
    · rw [RecvStorage.popAcknowledge, hack]
    · have hle : (x.storage.popAcknowledge t t').1.toList.length ≤ 1 := by
        cases (x.storage.popAcknowledge t t').1 <;> simp
      omega
    · rw [RecvStorage.popAcknowledge, hack]
      exact (Nat.zero_add _).trans_le hurgent
    · rw [Nat.zero_mul]
      exact le_trans h.start_le hclock
  | some y =>
    obtain ⟨n, last⟩ := y
    obtain ⟨r, u, a, w, hn, hpaid⟩ := h.paid n last hack
    have hacks := hpaid.acks
    have hurgent := hpaid.urgent
    have hreleased := hpaid.released.trans hpaid.released_le
    have helapsed := hpaid.elapsed
    have hlast := hpaid.last_le
    by_cases hdue : x.storage.urgentAck ∨ connTimeout / 2 < Instant.elapsed last t ∨
        windowSize >>> 1 < x.storage.window - 1 - n
    · have hpop : x.storage.popAcknowledge t t' = (some (x.storage.window - 1),
          { x.storage with urgentAck := false, lastAck := some (x.storage.window - 1, t') }) := by
        rw [RecvStorage.popAcknowledge, hack]
        exact if_pos hdue
      rw [hpop] at hsim ⊢
      rcases hdue with hurg | hlate | hdiff
      · have hone : x.storage.urgency = 1 := if_pos hurg
        refine h.of_acked (u := u + 1) (a := a) (w := w) hsim rfl rfl hclock ?_ ?_ hreleased ?_
        · simp only [Option.toList_some, List.length_singleton]
          omega
        · rw [show RecvStorage.urgency _ = 0 from rfl]
          omega
        · exact le_trans helapsed (le_trans hlast hclock)
      · refine h.of_acked (u := u) (a := a + 1) (w := w) hsim rfl rfl hclock ?_ ?_ hreleased ?_
        · simp only [Option.toList_some, List.length_singleton]
          omega
        · rw [show RecvStorage.urgency _ = 0 from rfl]
          omega
        · rw [Nat.add_one_mul, ← Nat.add_assoc]
          calc x.start + a * (connTimeout / 2) + connTimeout / 2
              ≤ last + connTimeout / 2 := Nat.add_le_add_right helapsed _
            _ ≤ t := Nat.add_comm last _ ▸ (Nat.lt_sub_iff_add_lt.1 hlate).le
            _ ≤ t' := ht'
      · have hsix := h.add_six_le hpaid.released_le (hn ▸ hdiff)
        have hw := hpaid.released
        refine h.of_acked (u := u) (a := a) (w := w + 1) hsim rfl rfl hclock ?_ ?_ ?_ ?_
        · simp only [Option.toList_some, List.length_singleton]
          omega
        · rw [show RecvStorage.urgency _ = 0 from rfl]
          omega
        · omega
        · exact le_trans helapsed (le_trans hlast hclock)
    · have hpop : x.storage.popAcknowledge t t' = (none, x.storage) := by
        rw [RecvStorage.popAcknowledge, hack]
        exact if_neg hdue
      rw [hpop] at hsim ⊢
      exact h.of_same hsim rfl le_rfl rfl le_rfl hclock

theorem step (h : x.Rationed) (hm : AckClockMonotone x e) (hs : ackLogStep x e = .ok x') :
    x'.Rationed := by
  obtain ⟨st, hst, rfl⟩ := exists_of_map_eq_ok hs
  have hmoves := h.simulates.moves hst
  obtain ⟨st₁, hst₁, hinit, hsim⟩ := h.simulates.step e
  obtain rfl := Except.ok.inj (hst.symm.trans hst₁)
  cases e with
  | recv n segment =>
    obtain ⟨hack, hurgent⟩ : st.storage.lastAck = x.storage.lastAck ∧
        (st.storage.urgentAck = x.storage.urgentAck ∨
          x.storage.Accepts n ∧ x.storage.segments n = some segment) := by
      rw [receiverStep] at hst
      split at hst
      · cases hst
      · rename_i err r hr
        obtain rfl := Except.ok.inj hst
        exact h.simulates.bounded.recv_acks hr
      · rename_i r hr
        obtain rfl := Except.ok.inj hst
        exact h.simulates.bounded.recv_acks hr
    refine h.of_same hsim hinit hmoves.released_le hack ?_ le_rfl
    rcases hurgent with heq | hrepeat
    · rw [urgency_congr heq]
      omega
    · rw [if_pos hrepeat]
      have := st.storage.urgency_le
      omega
  | pop =>
    obtain rfl := Except.ok.inj hst
    have hpop : x.storage.pop.2.lastAck = x.storage.lastAck ∧
        x.storage.pop.2.urgentAck = x.storage.urgentAck := by
      rw [RecvStorage.pop]
      split <;> exact ⟨rfl, rfl⟩
    refine h.of_same hsim hinit hmoves.released_le hpop.1 ?_ le_rfl
    rw [show urgency _ = x.storage.urgency from urgency_congr hpop.2]
  | popAcknowledge t t' =>
    obtain rfl := Except.ok.inj hst
    exact h.popAcknowledge hm.1 hm.2 hsim

theorem new {r : RecvStorage} (hr : r.IsNew) (start : Instant) : (AckLog.new r start).Rationed where
  simulates := hr.simulates
  start_le := le_rfl
  none_acked _ := ⟨rfl, (Nat.zero_add _).ge⟩
  paid n last hsome := by
    obtain ⟨m, rfl | rfl⟩ := hr <;> cases hsome

end Rationed

end AckLog

/-- **Acknowledgements are rationed.** After any calls on a new storage under a monotone clock,
there have been at most two acknowledgements more than there have been repeated segments, six
segments released and half a timeout gone by. -/
theorem acknowledgements_rationed {r : RecvStorage} (hr : r.IsNew) {start : Instant}
    {calls : List ReceiverCall} {x : AckLog}
    (hm : Along ackLogStep AckClockMonotone (.new r start) calls)
    (hrun : run ackLogStep (.new r start) calls = .ok x) :
    x.acks ≤ 2 + x.repeats + x.released / 6 + (x.clock - x.start) / (connTimeout / 2) := by
  have h : x.Rationed :=
    run_invariant AckLog.Rationed (fun _ _ _ h hm hs => h.step hm hs) (.new hr start) hm hrun
  cases hack : x.storage.lastAck with
  | none => exact (h.none_acked hack).1.trans_le (Nat.zero_le _)
  | some y =>
    obtain ⟨n, last⟩ := y
    obtain ⟨r, u, a, w, -, hpaid⟩ := h.paid n last hack
    have hacks := hpaid.acks
    have hurgent := hpaid.urgent
    have hinit := x.initial.urgency_le
    have hw : w ≤ x.released / 6 :=
      (Nat.le_div_iff_mul_le (by decide)).2
        ((Nat.mul_comm w 6).trans_le (hpaid.released.trans hpaid.released_le))
    have ha : a ≤ (x.clock - x.start) / (connTimeout / 2) :=
      (Nat.le_div_iff_mul_le (by decide)).2
        (Nat.le_sub_of_add_le' (le_trans hpaid.elapsed hpaid.last_le))
    omega

/-- A segment comes twice; the second time it is acknowledged at once. -/
theorem acknowledgements_rationed_repeat :
    ∃ x, run ackLogStep (.new (.newByPeer 0) 3)
        [.recv 1 .finish, .popAcknowledge 4 4, .recv 1 .finish, .popAcknowledge 5 5,
          .popAcknowledge 6 6] = .ok x ∧ x.acks = 2 ∧
      x.acks ≤ 2 + x.repeats + x.released / 6 + (x.clock - x.start) / (connTimeout / 2) := by
  have hm : Along ackLogStep AckClockMonotone (.new (.newByPeer 0) 3)
      [.recv 1 .finish, .popAcknowledge 4 4, .recv 1 .finish, .popAcknowledge 5 5,
        .popAcknowledge 6 6] := by decide
  exact ⟨_, rfl, rfl, acknowledgements_rationed ⟨0, .inl rfl⟩ hm rfl⟩

end Mdswp
