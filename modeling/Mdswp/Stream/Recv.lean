import Mdswp.Foundations.Slots
import Mdswp.Segment

/-!
# The receive storage (`stream/recv.rs`)

`RecvStorage` keeps the segments of one direction by number. `window` is the first number not
received yet; the segments before it have been moved to `popQueue`, and those from `lowerBound` on
are kept to recognise duplicates.

The loops of `trySlideWindow` take a bound on their number of rounds. There are only 256 numbers,
so the search for an empty slot that has not ended after 256 rounds never ends; the other two loops
count up to a number and end sooner (`moveToQueue_eq`, `pruneOld_eq`).
-/

namespace Mdswp

open Serial

structure RecvStorage where
  segments : SequenceNumber → Option SequentialSegment
  popQueue : List SequentialSegment
  window : SequenceNumber
  lowerBound : SequenceNumber
  highest : Option SequenceNumber
  lastAck : Option (SequenceNumber × Instant)
  urgentAck : Bool

namespace RecvStorage

def newByPeer (establishSeqNum : SequenceNumber) : RecvStorage where
  segments := fun _ => none
  popQueue := []
  window := establishSeqNum + 1
  lowerBound := establishSeqNum + 1
  highest := some establishSeqNum
  lastAck := none
  urgentAck := false

/-- The `Accept` segment is in the storage from the start. -/
def newByLocal (acceptSeqNum : SequenceNumber) : RecvStorage where
  segments := Function.update (fun _ => none) acceptSeqNum (some .accept)
  popQueue := []
  window := acceptSeqNum + 1
  lowerBound := acceptSeqNum
  highest := some acceptSeqNum
  lastAck := none
  urgentAck := true

def clear (r : RecvStorage) : RecvStorage := { r with segments := fun _ => none }

/-! ## Sliding the window -/

/-- The first loop: the first number from `newWindow` on that is not present. -/
def searchWindow (segments : SequenceNumber → Option SequentialSegment) :
    ℕ → SequenceNumber → Exec SequenceNumber
  | 0, _ => .error .diverge
  | rounds + 1, newWindow =>
    match segments newWindow with
    | some _ => searchWindow segments rounds (newWindow + 1)
    | none => .ok newWindow

/-- The second loop: the segments from `index` up to `newWindow` go to the queue. -/
def moveToQueue (segments : SequenceNumber → Option SequentialSegment)
    (newWindow : SequenceNumber) :
    ℕ → SequenceNumber → List SequentialSegment → Exec (List SequentialSegment)
  | 0, _, _ => .error .diverge
  | rounds + 1, index, popQueue =>
    if index = newWindow then .ok popQueue
    else
      match segments index with
      | some segment => moveToQueue segments newWindow rounds (index + 1) (popQueue ++ [segment])
      | none => .error .panic

/-- The third loop: the segments from `index` up to `minLowerBound` are deleted. -/
def pruneOld (minLowerBound : SequenceNumber) :
    ℕ → SequenceNumber → (SequenceNumber → Option SequentialSegment) →
      Exec (SequenceNumber → Option SequentialSegment)
  | 0, _, _ => .error .diverge
  | rounds + 1, index, segments =>
    if index = minLowerBound then .ok segments
    else
      match segments index with
      | some _ => pruneOld minLowerBound rounds (index + 1) (Function.update segments index none)
      | none => .error .panic

def trySlideWindow (r : RecvStorage) : Exec RecvStorage := do
  let newWindow ← searchWindow r.segments 256 r.window
  let popQueue ← moveToQueue r.segments newWindow 256 r.window r.popQueue
  let r := { r with popQueue := popQueue, window := newWindow }
  let minLowerBound := newWindow - windowSize
  if minLowerBound - r.lowerBound < windowSize then
    let segments ← pruneOld minLowerBound 256 r.lowerBound r.segments
    return { r with segments := segments, lowerBound := minLowerBound }
  else
    return r

/-! ## The calls -/

def checkValidSeqNum (r : RecvStorage) (seqNum : SequenceNumber) : IoResult Unit :=
  let upperBound := r.window + windowSize
  let maxOffset := upperBound - r.lowerBound
  let offset := seqNum - r.lowerBound
  if offset < maxOffset then .ok () else .error (connInvalidSeqNum seqNum r.lowerBound upperBound)

def checkPresenceOf (r : RecvStorage) (seqNum : SequenceNumber) (segment : SequentialSegment) :
    IoResult Bool :=
  match r.segments seqNum with
  | some expected =>
    if segment = expected then .ok true
    else .error (connUnreliable segment.debug expected.debug)
  | none => .ok false

def updateHighest (seqNum : SequenceNumber) : Option SequenceNumber → Option SequenceNumber
  | none => some seqNum
  | some oldHigh => if seqNum - oldHigh < windowSize then some seqNum else some oldHigh

/-- The segment is put into the registry. -/
def insert (r : RecvStorage) (seqNum : SequenceNumber) (segment : SequentialSegment) :
    RecvStorage :=
  { r with
    segments := Function.update r.segments seqNum (some segment)
    highest := updateHighest seqNum r.highest }

def recv (r : RecvStorage) (seqNum : SequenceNumber) (segment : SequentialSegment) :
    Exec (IoResult Unit × RecvStorage) :=
  match r.checkValidSeqNum seqNum with
  | .error err => .ok (.error err, r)
  | .ok () =>
    match r.checkPresenceOf seqNum segment with
    | .error err => .ok (.error err, r)
    | .ok true => .ok (.ok (), { r with urgentAck := true })
    | .ok false =>
      let r := r.insert seqNum segment
      if seqNum = r.window then r.trySlideWindow.map fun r => (.ok (), r)
      else .ok (.ok (), r)

def pop (r : RecvStorage) : Option SequentialSegment × RecvStorage :=
  match r.popQueue with
  | [] => (none, r)
  | segment :: rest => (some segment, { r with popQueue := rest })

/-- The clock reads `t` at `elapsed` and `t'` at `Instant::now`. -/
def popAcknowledge (r : RecvStorage) (t t' : Instant) : Option SequenceNumber × RecvStorage :=
  let currAckNum := r.window - 1
  match r.lastAck with
  | none =>
    (if r.window = r.lowerBound then none else some currAckNum,
      { r with lastAck := some (currAckNum, t') })
  | some (lastAckNum, lastTime) =>
    let seqNumDiff := currAckNum - lastAckNum
    if r.urgentAck ∨ connTimeout / 2 < Instant.elapsed lastTime t ∨
        windowSize >>> 1 < seqNumDiff then
      (some currAckNum, { r with urgentAck := false, lastAck := some (currAckNum, t') })
    else (none, r)

/-! ## What the loops do -/

theorem searchWindow_eq {segments : SequenceNumber → Option SequentialSegment} {rounds k : ℕ}
    {b : SequenceNumber} (h : RunLength segments b k) (hk : k < rounds) :
    searchWindow segments rounds b = .ok (nth b k) := by
  induction rounds generalizing b k with
  | zero => omega
  | succ rounds ih =>
    rw [searchWindow]
    cases k with
    | zero =>
      have h0 : segments b = none := by simpa using h.absent
      rw [h0, nth_zero]
    | succ k =>
      obtain ⟨h0, h⟩ := runLength_succ.1 h
      obtain ⟨a, ha⟩ := Option.isSome_iff_exists.1 h0
      rw [ha]
      dsimp only
      rw [ih h (by omega), nth_add_one]

theorem eq_nth_iff (b : SequenceNumber) {k : ℕ} (hk : k < 256) : b = nth b k ↔ k = 0 := by
  have := nth_inj (b := b) (m := 0) (n := k) (by omega) (by omega)
  rw [nth_zero] at this
  rw [this, eq_comm]

theorem moveToQueue_eq {segments : SequenceNumber → Option SequentialSegment} {rounds k : ℕ}
    {b : SequenceNumber} (h : Filled segments b k) (hk : k < rounds) (hk' : k < 256)
    (popQueue : List SequentialSegment) :
    moveToQueue segments (nth b k) rounds b popQueue = .ok (popQueue ++ contents segments b k) := by
  induction rounds generalizing b k popQueue with
  | zero => omega
  | succ rounds ih =>
    rw [moveToQueue]
    cases k with
    | zero => simp [contents]
    | succ k =>
      obtain ⟨h0, h⟩ := filled_succ.1 h
      obtain ⟨a, ha⟩ := Option.isSome_iff_exists.1 h0
      rw [if_neg ((eq_nth_iff b hk').not.2 (by omega)), ha]
      dsimp only
      rw [← nth_add_one, ih h (by omega) (by omega), contents, ha, Option.toList_some,
        List.append_assoc]

/-- The third loop panics exactly when one of the numbers is not present. -/
theorem pruneOld_eq {segments : SequenceNumber → Option SequentialSegment} {rounds k : ℕ}
    {b : SequenceNumber} (hk : k < rounds) (hk' : k < 256) :
    pruneOld (nth b k) rounds b segments =
      if Filled segments b k then .ok (clearBlock segments b k) else .error .panic := by
  induction rounds generalizing b k segments with
  | zero => omega
  | succ rounds ih =>
    rw [pruneOld]
    cases k with
    | zero => simp [filled_zero]
    | succ k =>
      rw [if_neg ((eq_nth_iff b hk').not.2 (by omega))]
      have hf := filled_update_of_forall_ne (m := segments) (b := b + 1) (k := k) (n := b)
        (fun i hi => nth_add_one_ne b (by omega)) none
      cases h0 : segments b with
      | none => simp [filled_succ, h0]
      | some a =>
        dsimp only
        rw [← nth_add_one, ih (by omega) (by omega), clearBlock_update (by omega)]
        simp only [filled_succ, h0, hf, Option.isSome_some, true_and]

/-! ## What sliding does -/

/-- The window moved over `k` present segments, which go to the queue. -/
def slid (r : RecvStorage) (k : ℕ) : RecvStorage :=
  { r with
    popQueue := r.popQueue ++ contents r.segments r.window k
    window := nth r.window k }

/-- How many segments the last part of `trySlideWindow` deletes once the window has moved. -/
def pruneCount (r : RecvStorage) : ℕ :=
  let m := r.window - windowSize - r.lowerBound
  if m < windowSize then m.toNat else 0

/-- The oldest segments deleted, and `lowerBound` moved over them. -/
def pruned (r : RecvStorage) : RecvStorage :=
  { r with
    segments := clearBlock r.segments r.lowerBound r.pruneCount
    lowerBound := nth r.lowerBound r.pruneCount }

theorem trySlideWindow_eq {r : RecvStorage} {k : ℕ} (h : RunLength r.segments r.window k)
    (hk : k < 256) :
    r.trySlideWindow =
      if Filled r.segments r.lowerBound (r.slid k).pruneCount then .ok (r.slid k).pruned
      else .error .panic := by
  simp only [trySlideWindow, searchWindow_eq h hk, moveToQueue_eq h.filled hk hk, bind, Except.bind,
    pure, Except.pure]
  have hm := nth_toNat_sub r.lowerBound (nth r.window k - windowSize)
  by_cases hlt : nth r.window k - windowSize - r.lowerBound < windowSize
  · have hc : (r.slid k).pruneCount = (nth r.window k - windowSize - r.lowerBound).toNat :=
      if_pos hlt
    have hlt' := BitVec.lt_def.1 hlt
    rw [toNat_windowSize] at hlt'
    rw [← hc] at hm hlt'
    rw [if_pos hlt, ← hm, pruneOld_eq (by omega) (by omega)]
    split_ifs with hf
    · rfl
    · rfl
  · have hc : (r.slid k).pruneCount = 0 := if_neg hlt
    rw [if_neg hlt, hc, if_pos (filled_zero _ _), pruned, hc, clearBlock_zero, nth_zero]
    rfl

/-- A `recv` that returns an error changes nothing. -/
theorem recv_error {r r' : RecvStorage} {n : SequenceNumber} {segment : SequentialSegment}
    {err : IoError} (h : r.recv n segment = .ok (.error err, r')) : r' = r := by
  rw [recv] at h
  split at h
  · cases h
    rfl
  split at h
  · cases h
    rfl
  · cases h
  · dsimp only at h
    split_ifs at h
    · cases hs : (r.insert n segment).trySlideWindow with
      | error f => simp [hs, Except.map] at h
      | ok r₁ => simp [hs, Except.map] at h
    · simp at h

end RecvStorage

end Mdswp
