import Mathlib.Data.List.Basic
import Mdswp.Segment

/-!
# The send storage (`stream/send.rs`)

`SendStorage` holds the segments of one direction from the moment they are pushed until the peer
has acknowledged them: `queueUnsent` those not sent yet, `queueSent` those in flight, in the order
of their last transmission. At most `WINDOW_SIZE` segments are in flight.

A call that reads the clock takes the readings as arguments: `t` for `elapsed`, `t'` for
`Instant::now`.
-/

namespace Mdswp

/-- An entry of `queue_sent`: the number, the segment and the time of its last transmission. -/
structure Sent where
  seqNum : SequenceNumber
  segment : SequentialSegment
  lastPop : Instant
  deriving DecidableEq, Repr

structure SendStorage where
  queueSent : List Sent
  queueUnsent : List SequentialSegment
  nextUnsent : SequenceNumber
  deriving DecidableEq, Repr

namespace SendStorage

def newByPeer (acceptSeqNum : SequenceNumber) : SendStorage where
  queueSent := []
  queueUnsent := [.accept]
  nextUnsent := acceptSeqNum

def newByLocal (establishSeqNum : SequenceNumber) : SendStorage where
  queueSent := []
  queueUnsent := []
  nextUnsent := establishSeqNum + 1

def clear (s : SendStorage) : SendStorage := { s with queueUnsent := [], queueSent := [] }

def isEmpty (s : SendStorage) : Bool := s.queueSent.isEmpty && s.queueUnsent.isEmpty

/-- `__finished_unchecked`. The last branch unwraps the entry with the highest number. -/
def finishedUnchecked (s : SendStorage) : Exec Bool :=
  if s.isEmpty then .ok false
  else
    match s.queueUnsent.getLast? with
    | some last => .ok (last = .finish)
    | none =>
      let highest := s.nextUnsent - 1
      match s.queueSent.find? (fun e => e.seqNum = highest) with
      | some e => .ok (e.segment = .finish)
      | none => .error .panic

def pushBack (s : SendStorage) (segment : SequentialSegment) : SendStorage :=
  { s with queueUnsent := s.queueUnsent ++ [segment] }

def push (s : SendStorage) (segment : SequentialSegment) : Exec (IoResult Unit × SendStorage) :=
  match segment with
  | .finish | .data _ =>
    match s.finishedUnchecked with
    | .error f => .error f
    | .ok true => .ok (.error connWriteFinished, s)
    | .ok false => .ok (.ok (), s.pushBack segment)
  | .accept =>
    -- the `assert!` of the source
    if s.isEmpty then .ok (.ok (), s.pushBack segment) else .error .panic

/-- The loop of `acknowledge`, from the index below `index` down to `0`. -/
def removeAcknowledged (ackNum : SequenceNumber) : ℕ → List Sent → List Sent
  | 0, queueSent => queueSent
  | index + 1, queueSent =>
    match queueSent[index]? with
    | some e =>
      removeAcknowledged ackNum index
        (if ackNum - e.seqNum < windowSize then queueSent.eraseIdx index else queueSent)
    | none => removeAcknowledged ackNum index queueSent

def invalidAckNum (ackNum : SequenceNumber) : IoError :=
  connUnexpSeg s!"Invalid acknowledgement number: {ackNum.toNat}"

def acknowledge (s : SendStorage) (ackNum : SequenceNumber) : IoResult Unit × SendStorage :=
  let offset := s.nextUnsent - ackNum
  if windowSize ≤ offset then (.error (invalidAckNum ackNum), s)
  else (.ok (), { s with queueSent := removeAcknowledged ackNum s.queueSent.length s.queueSent })

/-- `__try_pop_sent`: the front of `queueSent` is sent again when its last transmission is more
than half a timeout old. -/
def tryPopSent (s : SendStorage) (t t' : Instant) :
    Option (SequenceNumber × SequentialSegment) × SendStorage :=
  match s.queueSent with
  | [] => (none, s)
  | e :: rest =>
    if connTimeout / 2 < Instant.elapsed e.lastPop t then
      (some (e.seqNum, e.segment), { s with queueSent := rest ++ [{ e with lastPop := t' }] })
    else (none, s)

/-- `__try_pop_unsent`. -/
def tryPopUnsent (s : SendStorage) (t' : Instant) :
    Exec (Option (SequenceNumber × SequentialSegment) × SendStorage) :=
  -- the `assert!` of the source
  if windowSize.toNat < s.queueSent.length then .error .panic
  else if s.queueSent.length = windowSize.toNat then .ok (none, s)
  else
    match s.queueUnsent with
    | [] => .ok (none, s)
    | segment :: rest =>
      let popUnsent := s.nextUnsent
      .ok (some (popUnsent, segment),
        { queueSent := s.queueSent ++ [⟨popUnsent, segment, t'⟩]
          queueUnsent := rest
          nextUnsent := popUnsent + 1 })

def pop (s : SendStorage) (t t' : Instant) :
    Exec (Option (SequenceNumber × SequentialSegment) × SendStorage) :=
  match s.tryPopSent t t' with
  | (some popped, s') => .ok (some popped, s')
  | (none, s') => s'.tryPopUnsent t'

/-! ## What each call does -/

theorem removeAcknowledged_take (ackNum : SequenceNumber) (n : ℕ) (q : List Sent) :
    removeAcknowledged ackNum n q =
      ((q.take n).filter fun e => ¬ackNum - e.seqNum < windowSize) ++ q.drop n := by
  induction n generalizing q with
  | zero => simp [removeAcknowledged]
  | succ n ih =>
    rw [removeAcknowledged]
    rcases Nat.lt_or_ge n q.length with hn | hn
    · rw [List.getElem?_eq_getElem hn]
      dsimp only
      rw [ih, List.take_add_one, List.getElem?_eq_getElem hn]
      split_ifs with hc
      · have ht : (q.take n).length = n := List.length_take_of_le hn.le
        rw [List.eraseIdx_eq_take_drop_succ, List.take_left' ht, List.drop_left' ht,
          List.filter_append, Option.toList_some, List.filter_cons_of_neg (by simpa using hc),
          List.filter_nil, List.append_nil]
      · rw [List.drop_eq_getElem_cons hn, List.filter_append, Option.toList_some,
          List.filter_cons_of_pos (by simpa using hc), List.filter_nil, List.append_assoc,
          List.singleton_append]
    · rw [List.getElem?_eq_none hn]
      dsimp only
      rw [ih, List.take_of_length_le hn, List.take_of_length_le (by omega),
        List.drop_of_length_le hn, List.drop_of_length_le (by omega)]

/-- The loop of `acknowledge` removes the entries less than a window before `ackNum`, or at it. -/
theorem removeAcknowledged_eq (ackNum : SequenceNumber) (q : List Sent) :
    removeAcknowledged ackNum q.length q =
      q.filter fun e => ¬ackNum - e.seqNum < windowSize := by
  rw [removeAcknowledged_take, List.take_length, List.drop_length, List.append_nil]

theorem acknowledge_of_le {s : SendStorage} {n : SequenceNumber}
    (h : windowSize ≤ s.nextUnsent - n) : s.acknowledge n = (.error (invalidAckNum n), s) := by
  simp [acknowledge, h]

theorem acknowledge_of_lt {s : SendStorage} {n : SequenceNumber}
    (h : s.nextUnsent - n < windowSize) :
    s.acknowledge n =
      (.ok (), { s with queueSent := s.queueSent.filter fun e => ¬n - e.seqNum < windowSize }) := by
  rw [acknowledge, if_neg (BitVec.not_le.2 h), removeAcknowledged_eq]

@[simp] theorem acknowledge_queueUnsent (s : SendStorage) (n : SequenceNumber) :
    (s.acknowledge n).2.queueUnsent = s.queueUnsent := by
  unfold acknowledge
  dsimp only
  split_ifs <;> rfl

/-- What `pop` does: it sends the front of `queueSent` again, sends the front of `queueUnsent`
for the first time, or does nothing. -/
inductive PopResult (s : SendStorage) (t t' : Instant) :
    Option (SequenceNumber × SequentialSegment) → SendStorage → Prop
  | resent (e : Sent) (rest : List Sent) (hq : s.queueSent = e :: rest)
      (ht : connTimeout / 2 < Instant.elapsed e.lastPop t) :
      PopResult s t t' (some (e.seqNum, e.segment))
        { s with queueSent := rest ++ [{ e with lastPop := t' }] }
  | fresh (segment : SequentialSegment) (rest : List SequentialSegment)
      (hq : s.queueUnsent = segment :: rest) (hlen : s.queueSent.length < windowSize.toNat) :
      PopResult s t t' (some (s.nextUnsent, segment))
        { queueSent := s.queueSent ++ [⟨s.nextUnsent, segment, t'⟩]
          queueUnsent := rest
          nextUnsent := s.nextUnsent + 1 }
  | idle (h : s.queueSent.length = windowSize.toNat ∨ s.queueUnsent = []) :
      PopResult s t t' none s

theorem tryPopUnsent_result {s s' : SendStorage} {t t' : Instant}
    {r : Option (SequenceNumber × SequentialSegment)} (h : s.tryPopUnsent t' = .ok (r, s')) :
    PopResult s t t' r s' := by
  rw [tryPopUnsent] at h
  split_ifs at h with hgt hlen
  · cases h
    exact .idle (.inl hlen)
  · cases hq : s.queueUnsent with
    | nil =>
      rw [hq] at h
      cases h
      exact .idle (.inr hq)
    | cons segment rest =>
      rw [hq] at h
      cases h
      exact .fresh segment rest hq (by omega)

theorem PopResult.of_pop {s s' : SendStorage} {t t' : Instant}
    {r : Option (SequenceNumber × SequentialSegment)} (h : s.pop t t' = .ok (r, s')) :
    PopResult s t t' r s' := by
  rw [pop, tryPopSent] at h
  cases hq : s.queueSent with
  | nil =>
    rw [hq] at h
    exact tryPopUnsent_result h
  | cons e rest =>
    rw [hq] at h
    dsimp only at h
    split_ifs at h with ht
    · cases h
      exact .resent e rest hq ht
    · exact tryPopUnsent_result h

/-- A `pop` with at most a window in flight returns. -/
theorem pop_result {s : SendStorage} (t t' : Instant)
    (h : s.queueSent.length ≤ windowSize.toNat) :
    ∃ r s', s.pop t t' = .ok (r, s') ∧ PopResult s t t' r s' := by
  have hunsent : ∃ r s', s.tryPopUnsent t' = .ok (r, s') := by
    rw [tryPopUnsent, if_neg (Nat.not_lt.2 h)]
    split_ifs
    · exact ⟨_, _, rfl⟩
    · cases s.queueUnsent with
      | nil => exact ⟨_, _, rfl⟩
      | cons segment rest => exact ⟨_, _, rfl⟩
  have hret : ∃ r s', s.pop t t' = .ok (r, s') := by
    rw [pop, tryPopSent]
    cases s.queueSent with
    | nil => exact hunsent
    | cons e rest =>
      dsimp only
      split_ifs with ht
      · exact ⟨_, _, rfl⟩
      · exact hunsent
  obtain ⟨r, s', hp⟩ := hret
  exact ⟨r, s', hp, .of_pop hp⟩

theorem isEmpty_iff {s : SendStorage} : s.isEmpty ↔ s.queueSent = [] ∧ s.queueUnsent = [] := by
  simp [isEmpty]

theorem isEmpty_acknowledge {s : SendStorage} (h : s.isEmpty) (n : SequenceNumber) :
    (s.acknowledge n).2.isEmpty := by
  obtain ⟨hs, hu⟩ := isEmpty_iff.1 h
  refine isEmpty_iff.2 ⟨?_, by rw [acknowledge_queueUnsent, hu]⟩
  by_cases hn : s.nextUnsent - n < windowSize
  · rw [acknowledge_of_lt hn, hs, List.filter_nil]
  · rw [acknowledge_of_le (BitVec.not_lt.1 hn), hs]

/-- No `pop` loses a segment. -/
theorem PopResult.perm {s s' : SendStorage} {t t' : Instant}
    {r : Option (SequenceNumber × SequentialSegment)} (h : PopResult s t t' r s') :
    (s'.queueSent.map Sent.segment ++ s'.queueUnsent).Perm
      (s.queueSent.map Sent.segment ++ s.queueUnsent) := by
  cases h with
  | resent e rest hq ht =>
    apply List.Perm.append_right _
    rw [hq, List.map_append, List.map_cons]
    exact List.perm_append_singleton _ _
  | fresh segment rest hq hlen => simp [hq]
  | idle _ => rfl

theorem PopResult.isEmpty_iff {s s' : SendStorage} {t t' : Instant}
    {r : Option (SequenceNumber × SequentialSegment)} (h : PopResult s t t' r s') :
    s'.isEmpty ↔ s.isEmpty := by
  have hlen := h.perm.length_eq
  simp only [SendStorage.isEmpty_iff, ← List.length_eq_zero_iff]
  simp only [List.length_append, List.length_map] at hlen
  omega

/-- What a `push` of `Data` or `Finish` does, given the answer of `finishedUnchecked`. -/
theorem push_eq {s : SendStorage} {segment : SequentialSegment} (h : segment ≠ .accept) :
    s.push segment = s.finishedUnchecked.map fun finished =>
      if finished then (.error connWriteFinished, s) else (.ok (), s.pushBack segment) := by
  cases segment with
  | accept => exact absurd rfl h
  | finish => rw [push]; rcases s.finishedUnchecked with f | (_ | _) <;> rfl
  | data d => rw [push]; rcases s.finishedUnchecked with f | (_ | _) <;> rfl

theorem push_of_finished {s : SendStorage} (h : s.finishedUnchecked = .ok true)
    {segment : SequentialSegment} (hne : segment ≠ .accept) :
    s.push segment = .ok (.error connWriteFinished, s) := by
  rw [push_eq hne, h]
  rfl

theorem push_of_unfinished {s : SendStorage} (h : s.finishedUnchecked = .ok false)
    {segment : SequentialSegment} (hne : segment ≠ .accept) :
    s.push segment = .ok (.ok (), s.pushBack segment) := by
  rw [push_eq hne, h]
  rfl

/-- A `push` that returns is one of these two. -/
theorem push_eq_ok {s : SendStorage} {segment : SequentialSegment}
    {x : IoResult Unit × SendStorage} (hne : segment ≠ .accept) (h : s.push segment = .ok x) :
    (s.finishedUnchecked = .ok true ∧ x = (.error connWriteFinished, s)) ∨
      (s.finishedUnchecked = .ok false ∧ x = (.ok (), s.pushBack segment)) := by
  cases hf : s.finishedUnchecked with
  | error f =>
    rw [push_eq hne, hf] at h
    cases h
  | ok b =>
    cases b with
    | true =>
      rw [push_of_finished hf hne] at h
      exact .inl ⟨rfl, (Except.ok.inj h).symm⟩
    | false =>
      rw [push_of_unfinished hf hne] at h
      exact .inr ⟨rfl, (Except.ok.inj h).symm⟩

/-- After a `push` the last segment decides. -/
theorem finishedUnchecked_pushBack (s : SendStorage) (segment : SequentialSegment) :
    (s.pushBack segment).finishedUnchecked = .ok (segment = .finish) := by
  simp [finishedUnchecked, isEmpty, pushBack]

theorem finishedUnchecked_of_isEmpty {s : SendStorage} (h : s.isEmpty) :
    s.finishedUnchecked = .ok false := by
  rw [finishedUnchecked, if_pos h]

end SendStorage

end Mdswp
