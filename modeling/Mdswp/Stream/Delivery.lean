import Mdswp.Foundations.Reassembly
import Mdswp.Foundations.Run
import Mdswp.Stream.RecvWindow

/-!
# Delivery in order

A `Receiver` is a receive storage beside the receiver that it should be: a `Reassembly` whose slot
`j` stands for the number `j` positions after the initial window. A `recv` that returns `Ok` for a
number less than `WINDOW_SIZE` from the window stores its segment in the reference.

Whatever a peer sends, what has been popped, and then the queue, is what the reference has
delivered (`delivers_gap_free`). The relation is `Simulates`. The pruning that `trySlideWindow`
misses does no harm here: once the accepted range has wrapped around, nothing at the window is
accepted any more, and the reference does not release anything either.
-/

namespace Mdswp

open Serial RecvStorage

structure Receiver where
  storage : RecvStorage
  /-- The storage at the start. -/
  initial : RecvStorage
  popped : List SequentialSegment
  reference : Reassembly SequentialSegment

inductive ReceiverCall
  | recv (seqNum : SequenceNumber) (segment : SequentialSegment)
  | pop
  | popAcknowledge (t t' : Instant)

namespace Receiver

def new (r : RecvStorage) : Receiver := ⟨r, r, [], .new⟩

/-- A `recv` has returned `Ok`. -/
def received (st : Receiver) (n : SequenceNumber) (segment : SequentialSegment)
    (r : RecvStorage) : Receiver :=
  { st with
    storage := r
    reference :=
      if n - st.storage.window < windowSize then
        st.reference.store (st.reference.released + (n - st.storage.window).toNat) segment
      else st.reference }

end Receiver

def receiverStep (st : Receiver) : ReceiverCall → Exec Receiver
  | .recv n segment =>
    match st.storage.recv n segment with
    | .error f => .error f
    | .ok (.error _, r) => .ok { st with storage := r }
    | .ok (.ok (), r) => .ok (st.received n segment r)
  | .pop => .ok { st with
      storage := st.storage.pop.2
      popped := st.popped ++ st.storage.pop.1.toList }
  | .popAcknowledge t t' => .ok { st with storage := (st.storage.popAcknowledge t t').2 }

theorem receiverStep_of_error {st : Receiver} {n : SequenceNumber} {segment : SequentialSegment}
    {err : IoError} {r : RecvStorage} (h : st.storage.recv n segment = .ok (.error err, r)) :
    receiverStep st (.recv n segment) = .ok { st with storage := r } := by
  rw [receiverStep, h]

theorem receiverStep_of_ok {st : Receiver} {n : SequenceNumber} {segment : SequentialSegment}
    {r : RecvStorage} (h : st.storage.recv n segment = .ok (.ok (), r)) :
    receiverStep st (.recv n segment) = .ok (st.received n segment r) := by
  rw [receiverStep, h]

/-- The segment is that of a released slot that is retained, or of the storage at the start, under
its own number. -/
def Receiver.Repeats (st : Receiver) (n : SequenceNumber) (segment : SequentialSegment) : Prop :=
  (∃ j < st.reference.released, st.reference.released ≤ j + st.storage.dist ∧
      n = nth st.initial.window j ∧ st.reference.slots j = some segment) ∨
    st.initial.segments n = some segment

/-- A `recv` that returns an error changes nothing, and one that returns `Ok` for a number outside
the window repeats a segment. -/
def AcceptsRepeats (st : Receiver) : ReceiverCall → Prop
  | .recv n segment =>
    (∀ err r, st.storage.recv n segment = .ok (.error err, r) → r = st.storage) ∧
      ∀ r, st.storage.recv n segment = .ok (.ok (), r) →
        windowSize ≤ n - st.storage.window → st.Repeats n segment
  | _ => True

/-! ## The simulation -/

variable {st st' : Receiver} {e : ReceiverCall} {n : SequenceNumber} {segment : SequentialSegment}

/-- The `i`-th number from the lower bound holds the segment of its slot, or was there at the
start. -/
def Receiver.Kept (st : Receiver) (i : ℕ) : Prop :=
  (∃ j, j + st.storage.dist = st.reference.released + i ∧
      st.storage.segments (nth st.storage.lowerBound i) = st.reference.slots j) ∨
    (st.reference.released + i + 1 = st.storage.dist ∧
      st.storage.segments (nth st.storage.lowerBound i) =
        st.initial.segments (nth st.storage.lowerBound i))

structure Receiver.Simulates (st : Receiver) : Prop where
  bounded : st.storage.Bounded
  retained : st.storage.Retained
  window : st.storage.window = nth st.initial.window st.reference.released
  queue : st.popped ++ st.storage.popQueue = st.reference.delivered
  kept : ∀ i < st.storage.dist, st.Kept i
  /-- As long as the accepted range has not wrapped around, the window holds what the slots from
  the first empty one on hold. -/
  live : st.storage.dist + 10 < 256 → ∀ i < 10,
    st.storage.segments (nth st.storage.window i) = st.reference.slots (st.reference.released + i)
  beyond : st.storage.dist + 10 < 256 →
    ∀ j ≥ st.reference.released + 10, st.reference.slots j = none

namespace Receiver

theorem simulates_newByPeer (n : SequenceNumber) : (new (.newByPeer n)).Simulates where
  bounded := bounded_newByPeer n
  retained := retained_newByPeer n
  window := (nth_zero _).symm
  queue := rfl
  kept := by simp [new, RecvStorage.dist, newByPeer]
  live := fun _ _ _ => rfl
  beyond := fun _ _ _ => rfl

theorem simulates_newByLocal (n : SequenceNumber) : (new (.newByLocal n)).Simulates := by
  have hd : (newByLocal n).dist = 1 := by simp [RecvStorage.dist, newByLocal]
  refine ⟨bounded_newByLocal n, retained_newByLocal n, (nth_zero _).symm, rfl, ?_, ?_, ?_⟩
  · intro i hi
    rw [show (new (newByLocal n)).storage.dist = 1 from hd] at hi
    obtain rfl := Nat.lt_one_iff.1 hi
    exact .inr ⟨hd.symm, rfl⟩
  · intro _ i hi
    have hne : nth (n + 1) i ≠ n := nth_add_one_ne n (by omega)
    exact Function.update_of_ne hne (some SequentialSegment.accept) fun _ => none
  · intro _ _ _
    rfl

theorem received_of_lt (hd : (n - st.storage.window).toNat < 10) (r : RecvStorage) :
    st.received n segment r = { st with
      storage := r
      reference := st.reference.store
        (st.reference.released + (n - st.storage.window).toNat) segment } := by
  rw [received, if_pos (by rwa [BitVec.lt_def, toNat_windowSize])]

theorem received_of_le (hd : 10 ≤ (n - st.storage.window).toNat) (r : RecvStorage) :
    st.received n segment r = { st with storage := r } := by
  rw [received, if_neg (by rwa [BitVec.lt_def, toNat_windowSize, not_lt])]

/-- The slot of a number other than the window is not the first empty one. -/
theorem slot_ne_released (hne : n ≠ st.storage.window) :
    st.reference.released + (n - st.storage.window).toNat ≠ st.reference.released := by
  intro heq
  apply hne
  have := nth_toNat_sub st.storage.window n
  rwa [show (n - st.storage.window).toNat = 0 by omega, nth_zero, eq_comm] at this

/-- Nothing is released for a number other than the window. -/
theorem released_received_of_ne (hne : n ≠ st.storage.window) (r : RecvStorage) :
    (st.received n segment r).reference.released = st.reference.released := by
  rcases Nat.lt_or_ge (n - st.storage.window).toNat 10 with hd | hd
  · rw [received_of_lt hd]
    exact Reassembly.released_store_of_ne (slot_ne_released hne)
  · rw [received_of_le hd]

namespace Simulates

/-- A number that passes the check is in the retained block, or less than a window from the
window. -/
theorem accepts_cases (hacc : st.storage.Accepts n) :
    (n - st.storage.lowerBound).toNat < st.storage.dist ∨
      st.storage.dist + 10 < 256 ∧ (n - st.storage.window).toNat < 10 := by
  rw [accepts_iff] at hacc
  have hlt := st.storage.dist_lt
  rcases Nat.lt_or_ge (n - st.storage.lowerBound).toNat st.storage.dist with h | h
  · exact .inl h
  · right
    have hn : n = nth st.storage.window ((n - st.storage.lowerBound).toNat - st.storage.dist) := by
      rw [nth_window, Nat.add_sub_cancel' h, nth_toNat_sub]
    have hd : (n - st.storage.window).toNat =
        (n - st.storage.lowerBound).toNat - st.storage.dist := by
      conv_lhs => rw [hn]
      rw [toNat_nth_sub, Nat.mod_eq_of_lt (by omega)]
    omega

/-- A number that passes and is not present is less than a window from the window. -/
theorem accepts_absent (h : st.Simulates) (hacc : st.storage.Accepts n)
    (hn : st.storage.segments n = none) :
    st.storage.dist + 10 < 256 ∧ (n - st.storage.window).toNat < 10 := by
  rcases accepts_cases hacc with hlt | hwin
  · have := h.retained _ hlt
    rw [nth_toNat_sub, hn] at this
    cases this
  · exact hwin

/-- A segment that is present in the retained block repeats one. -/
theorem repeats (h : st.Simulates) (hlt : (n - st.storage.lowerBound).toNat < st.storage.dist)
    (hn : st.storage.segments n = some segment) : st.Repeats n segment := by
  set i := (n - st.storage.lowerBound).toNat with hi
  have hnth : nth st.storage.lowerBound i = n := nth_toNat_sub _ _
  rcases h.kept i hlt with ⟨j, hj, hslot⟩ | ⟨-, hinit⟩
  · refine .inl ⟨j, by omega, by omega, ?_, by rw [← hslot, hnth, hn]⟩
    apply nth_left_cancel (n := st.storage.dist - i)
    rw [nth_nth, show j + (st.storage.dist - i) = st.reference.released by omega, ← h.window,
      ← hnth, nth_nth, Nat.add_sub_cancel' hlt.le, nth_dist]
  · exact .inr (by rw [← hn, ← hnth, hinit])

/-- Nothing that the relation speaks of has changed, but perhaps a slot beyond the first empty
one after the accepted range has wrapped around. -/
theorem congr (h : st.Simulates) (hi : st'.initial = st.initial)
    (hs : st'.storage.segments = st.storage.segments) (hw : st'.storage.window = st.storage.window)
    (hl : st'.storage.lowerBound = st.storage.lowerBound)
    (hr : st'.reference.released = st.reference.released)
    (hq : st'.popped ++ st'.storage.popQueue = st'.reference.delivered)
    (hkept : ∀ j < st.reference.released, st'.reference.slots j = st.reference.slots j)
    (hlive : st.storage.dist + 10 < 256 → st'.reference.slots = st.reference.slots) :
    st'.Simulates := by
  have hd : st'.storage.dist = st.storage.dist := by
    rw [RecvStorage.dist, hw, hl, RecvStorage.dist]
  refine ⟨h.bounded.congr hs hw hl, ?_, ?_, hq, ?_, ?_, ?_⟩
  · rw [RecvStorage.Retained, hs, hl, hd]
    exact h.retained
  · rw [hw, hi, hr]
    exact h.window
  · intro i hlt
    rw [hd] at hlt
    unfold Kept
    rw [hd, hr, hs, hl, hi]
    rcases h.kept i hlt with ⟨j, hj, hslot⟩ | hinit
    · exact .inl ⟨j, hj, by rw [hslot, hkept j (by omega)]⟩
    · exact .inr hinit
  · intro hlt
    rw [hd] at hlt
    rw [hs, hw, hr, hlive hlt]
    exact h.live hlt
  · intro hlt
    rw [hd] at hlt
    rw [hr, hlive hlt]
    exact h.beyond hlt

theorem ne_window (h : st.Simulates) (hn : st.storage.segments n = some segment) :
    n ≠ st.storage.window := by
  rintro rfl
  rw [h.bounded.window_absent] at hn
  cases hn

/-- An exact duplicate stores nothing below the first empty slot, nor in the window. -/
theorem duplicate (h : st.Simulates) (hn : st.storage.segments n = some segment) :
    (st.received n segment { st.storage with urgentAck := true }).Simulates := by
  rcases Nat.lt_or_ge (n - st.storage.window).toNat 10 with hd | hd
  swap
  · rw [received_of_le hd]
    exact h.congr rfl rfl rfl rfl rfl h.queue (fun _ _ => rfl) fun _ => rfl
  rw [received_of_lt hd]
  have hfront := slot_ne_released (h.ne_window hn)
  refine h.congr rfl rfl rfl rfl (Reassembly.released_store_of_ne hfront) ?_
    (fun j hj => Reassembly.slots_store_of_lt hj) ?_
  · rw [Reassembly.delivered_store_of_ne hfront]
    exact h.queue
  · intro hlive
    have hslot := h.live hlive _ hd
    rw [nth_toNat_sub, hn] at hslot
    rw [Reassembly.store_of_isSome]
    rw [← hslot]
    rfl

/-- An element stored in the window, in the storage and in the reference. -/
theorem live_insert (h : st.Simulates) (segment : SequentialSegment)
    (hlive : st.storage.dist + 10 < 256) (hn : st.storage.segments n = none)
    (hd : (n - st.storage.window).toNat < 10) {i : ℕ} (hi : i < 10) :
    (st.storage.insert n segment).segments (nth st.storage.window i) =
      (st.reference.store (st.reference.released + (n - st.storage.window).toNat) segment).slots
        (st.reference.released + i) := by
  have hslot := h.live hlive _ hd
  rw [nth_toNat_sub, hn] at hslot
  rw [insert_segments, Reassembly.slots_store hslot.symm]
  by_cases heq : i = (n - st.storage.window).toNat
  · subst heq
    rw [nth_toNat_sub, Function.update_self, Function.update_self]
  · have hne : nth st.storage.window i ≠ n := by
      rw [← nth_toNat_sub st.storage.window n, Ne, nth_inj (by omega) (by omega)]
      exact heq
    rw [Function.update_of_ne hne, Function.update_of_ne (by omega), h.live hlive i hi]

theorem beyond_store (h : st.Simulates) (segment : SequentialSegment)
    (hlive : st.storage.dist + 10 < 256) (hn : st.storage.segments n = none)
    (hd : (n - st.storage.window).toNat < 10) {j : ℕ} (hj : j ≥ st.reference.released + 10) :
    (st.reference.store (st.reference.released + (n - st.storage.window).toNat) segment).slots j =
      none := by
  have hslot := h.live hlive _ hd
  rw [nth_toNat_sub, hn] at hslot
  rw [Reassembly.slots_store hslot.symm, Function.update_of_ne (by omega)]
  exact h.beyond hlive j hj

/-- A segment is kept for a number beyond the window. -/
theorem buffered (h : st.Simulates) (hacc : st.storage.Accepts n)
    (hn : st.storage.segments n = none) (hne : n ≠ st.storage.window) :
    (st.received n segment (st.storage.insert n segment)).Simulates := by
  obtain ⟨hlive, hd⟩ := h.accepts_absent hacc hn
  have hfront := slot_ne_released hne
  have hrel := Reassembly.released_store_of_ne (a := segment) hfront
  rw [received_of_lt hd]
  refine ⟨h.bounded.insert hacc hne, h.retained.insert, ?_, ?_, ?_, ?_, ?_⟩
  · rw [insert_window, hrel]
    exact h.window
  · rw [insert_popQueue, Reassembly.delivered_store_of_ne hfront]
    exact h.queue
  · intro i hi
    have hother : nth st.storage.lowerBound i ≠ n := by
      intro heq
      have := h.retained i hi
      rw [heq, hn] at this
      cases this
    unfold Kept
    rw [dist_insert, hrel, insert_lowerBound, insert_segments, Function.update_of_ne hother]
    rcases h.kept i hi with ⟨j, hj, hslot⟩ | hinit
    · have hi : i < st.storage.dist := hi
      exact .inl ⟨j, hj, by rw [Reassembly.slots_store_of_lt (by omega), hslot]⟩
    · exact .inr hinit
  · intro _ i hi
    rw [insert_window, hrel]
    exact h.live_insert segment hlive hn hd hi
  · intro _ j hj
    rw [hrel] at hj
    exact h.beyond_store segment hlive hn hd hj

/-- What a slide needs to know of the slots: behind the first empty one, `k` are filled. -/
theorem slots_front (h : st.Simulates) (hlive : st.storage.dist + 10 < 256) {k : ℕ} (hk : k < 10)
    (hrun : RunLength st.storage.segments (st.storage.window + 1) k) :
    (∀ i < k, (st.reference.slots (st.reference.released + 1 + i)).isSome) ∧
      st.reference.slots (st.reference.released + 1 + k) = none := by
  constructor
  · intro i hi
    have := hrun.filled i hi
    rwa [nth_add_one, h.live hlive _ (by omega),
      show st.reference.released + (i + 1) = st.reference.released + 1 + i by omega] at this
  · have := hrun.absent
    rw [nth_add_one] at this
    rcases Nat.lt_or_ge (k + 1) 10 with hlt | hge
    · rwa [h.live hlive _ hlt,
        show st.reference.released + (k + 1) = st.reference.released + 1 + k by omega] at this
    · exact h.beyond hlive _ (by omega)

/-- The storage and the slots after a slide over `k + 1` numbers. -/
theorem kept_slid (h : st.Simulates) (hlive : st.storage.dist + 10 < 256) {k : ℕ} (hk : k < 10)
    {R : Reassembly SequentialSegment} (hrel : R.released = st.reference.released + (k + 1))
    (hold : ∀ j < st.reference.released, R.slots j = st.reference.slots j)
    (hin : ∀ i < 10, (st.storage.insert st.storage.window segment).segments
      (nth st.storage.window i) = R.slots (st.reference.released + i)) {i : ℕ}
    (hi : i < st.storage.dist + (k + 1) - st.storage.deleted (k + 1)) :
    Kept { st with
      storage := ((st.storage.insert st.storage.window segment).slid (k + 1)).pruned
      reference := R } i := by
  have hlt : st.storage.dist + (k + 1) < 256 := by omega
  have hdel := deleted_le (r := st.storage) (k := k + 1) hk
  unfold Kept
  rw [dist_slide hlt, slide_lowerBound hlt, nth_nth, slide_segments_nth hlt (by omega) (by omega),
    hrel]
  rcases Nat.lt_or_ge (st.storage.deleted (k + 1) + i) st.storage.dist with hlow | hnew
  · have hne : nth st.storage.lowerBound (st.storage.deleted (k + 1) + i) ≠ st.storage.window := by
      rw [← nth_dist, Ne, nth_inj (by omega) (by omega)]
      omega
    rw [insert_segments, Function.update_of_ne hne]
    rcases h.kept _ hlow with ⟨j, hj, hslot⟩ | ⟨hj, hinit⟩
    · exact .inl ⟨j, by omega, by rw [hold j (by omega), hslot]⟩
    · exact .inr ⟨by omega, hinit⟩
  · obtain ⟨m, hm⟩ := Nat.exists_eq_add_of_le hnew
    refine .inl ⟨st.reference.released + m, by omega, ?_⟩
    rw [hm, ← nth_window]
    exact hin m (by omega)

theorem live_slid (h : st.Simulates) {k : ℕ} (hk : k < 10)
    {R : Reassembly SequentialSegment} (hrel : R.released = st.reference.released + (k + 1))
    (hin : ∀ i < 10, (st.storage.insert st.storage.window segment).segments
      (nth st.storage.window i) = R.slots (st.reference.released + i))
    (hbeyond : ∀ j ≥ st.reference.released + 10, R.slots j = none)
    (hlt : st.storage.dist + (k + 1) < 256)
    (hlive : st.storage.dist + (k + 1) - st.storage.deleted (k + 1) + 10 < 256) {i : ℕ}
    (hi : i < 10) :
    ((st.storage.insert st.storage.window segment).slid (k + 1)).pruned.segments
      (nth (nth st.storage.window (k + 1)) i) = R.slots (R.released + i) := by
  have hdel := deleted_le (r := st.storage) (k := k + 1) hk
  -- if anything is deleted, the distances are small
  have hsmall : st.storage.dist + (k + 1) + i < 256 := by
    rw [deleted] at hlive
    split_ifs at hlive <;> omega
  rw [nth_nth, nth_window, slide_segments_nth hlt (by omega) (by omega), ← nth_window, hrel,
    Nat.add_assoc _ (k + 1) i]
  rcases Nat.lt_or_ge (k + 1 + i) 10 with hwin | hge
  · exact hin _ hwin
  · rw [hbeyond _ (by omega), h.bounded.insert_absent hge (by omega)]

theorem released_slid (h : st.Simulates) (hlive : st.storage.dist + 10 < 256) {k : ℕ} (hk : k < 10)
    (hrun : RunLength st.storage.segments (st.storage.window + 1) k) (r : RecvStorage) :
    (st.received st.storage.window segment r).reference.released =
      st.reference.released + (k + 1) := by
  obtain ⟨hfilled, habsent⟩ := h.slots_front hlive hk hrun
  rw [received_of_lt (by simp)]
  simpa using Reassembly.released_store_front (a := segment) hfilled habsent

/-- A slide over `k + 1` numbers releases as many slots. -/
theorem slid (h : st.Simulates) (hlive : st.storage.dist + 10 < 256) {k : ℕ} (hk : k < 10)
    (hrun : RunLength st.storage.segments (st.storage.window + 1) k) :
    (st.received st.storage.window segment
      ((st.storage.insert st.storage.window segment).slid (k + 1)).pruned).Simulates := by
  have hd : (st.storage.window - st.storage.window).toNat < 10 := by simp
  have hzero : (st.storage.window - st.storage.window).toNat = 0 := by simp
  have hlt : st.storage.dist + (k + 1) < 256 := by omega
  have hrun' : RunLength (st.storage.insert st.storage.window segment).segments st.storage.window
      (k + 1) := (runLength_insert_window_iff (by omega)).2 hrun
  obtain ⟨hfilled, habsent⟩ := h.slots_front hlive hk hrun
  have hrel := Reassembly.released_store_front (a := segment) hfilled habsent
  have hin := fun i (hi : i < 10) =>
    h.live_insert segment hlive h.bounded.window_absent hd hi
  have hbeyond := fun j (hj : j ≥ st.reference.released + 10) =>
    h.beyond_store segment hlive h.bounded.window_absent hd hj
  rw [received_of_lt hd]
  simp only [hzero, Nat.add_zero] at hin hbeyond ⊢
  have hcontents : contents (st.storage.insert st.storage.window segment).segments
      st.storage.window (k + 1) = (List.range (k + 1)).filterMap fun i =>
        (st.reference.store st.reference.released segment).slots (st.reference.released + i) := by
    rw [contents_eq_filterMap]
    apply List.filterMap_congr
    intro i hi
    rw [List.mem_range] at hi
    exact hin i (by omega)
  refine ⟨h.bounded.slide hlive hk hrun', h.retained.slide hlive hk hrun', ?_, ?_, ?_, ?_, ?_⟩
  · rw [slide_window, hrel, h.window, nth_nth]
  · rw [slide_popQueue, Reassembly.delivered_store_front hfilled habsent, ← h.queue, hcontents,
      List.append_assoc]
  · intro i hi
    rw [dist_slide hlt] at hi
    exact h.kept_slid hlive hk hrel (fun j hj => Reassembly.slots_store_of_lt hj) hin hi
  · intro hlive' i hi
    rw [dist_slide hlt] at hlive'
    exact h.live_slid hk hrel hin hbeyond hlt hlive' hi
  · intro _ j hj
    rw [hrel] at hj
    exact hbeyond j (by omega)

theorem recv (h : st.Simulates) (n : SequenceNumber) (segment : SequentialSegment) :
    ∃ st', receiverStep st (.recv n segment) = .ok st' ∧ st'.initial = st.initial ∧
      st'.Simulates := by
  have hres := h.bounded.recv_result n segment
  generalize hx : st.storage.recv n segment = x at hres
  cases hres with
  | outOfRange _ => exact ⟨_, receiverStep_of_error hx, rfl, h⟩
  | conflict expected _ _ _ => exact ⟨_, receiverStep_of_error hx, rfl, h⟩
  | duplicate _ hn => exact ⟨_, receiverStep_of_ok hx, rfl, h.duplicate hn⟩
  | buffered hacc hn hne => exact ⟨_, receiverStep_of_ok hx, rfl, h.buffered hacc hn hne⟩
  | slid k hn hlive hk hrun _ =>
    subst hn
    exact ⟨_, receiverStep_of_ok hx, rfl, h.slid hlive hk hrun⟩
  | panicked k _ _ hk _ hret => exact absurd (h.retained.filled_deleted hk) hret

/-- Every call returns, and keeps the relation. -/
theorem step (h : st.Simulates) (e : ReceiverCall) :
    ∃ st', receiverStep st e = .ok st' ∧ st'.initial = st.initial ∧ st'.Simulates := by
  cases e with
  | recv n segment => exact h.recv n segment
  | pop =>
    refine ⟨_, rfl, rfl, h.congr rfl ?_ ?_ ?_ rfl ?_ (fun _ _ => rfl) fun _ => rfl⟩
    · exact pop_segments _
    · exact pop_window _
    · exact pop_lowerBound _
    · rw [← h.queue, List.append_assoc]
      exact congrArg _ st.storage.pop_toList_append
  | popAcknowledge t t' =>
    refine ⟨_, rfl, rfl, h.congr rfl ?_ ?_ ?_ rfl ?_ (fun _ _ => rfl) fun _ => rfl⟩
    · exact popAcknowledge_segments _ _
    · exact popAcknowledge_window _ _
    · exact popAcknowledge_lowerBound _ _
    · rw [popAcknowledge_popQueue]
      exact h.queue

theorem acceptsRepeats (h : st.Simulates) (e : ReceiverCall) : AcceptsRepeats st e := by
  cases e with
  | recv n segment =>
    refine ⟨fun err r hr => recv_error hr, ?_⟩
    intro r hr hout
    have hd : 10 ≤ (n - st.storage.window).toNat := by
      rwa [BitVec.le_def, toNat_windowSize] at hout
    have hres := h.bounded.recv_result n segment
    rw [hr] at hres
    cases hres with
    | duplicate hacc hn =>
      rcases accepts_cases hacc with hlt | ⟨-, hwin⟩
      · exact h.repeats hlt hn
      · omega
    | buffered hacc hn hne =>
      have := (h.accepts_absent hacc hn).2
      omega
    | slid k hn _ _ _ _ =>
      subst hn
      simp at hd
  | pop => trivial
  | popAcknowledge t t' => trivial

end Simulates

end Receiver

/-- The storages that the constructors make. -/
def RecvStorage.IsNew (r : RecvStorage) : Prop := ∃ n, r = .newByPeer n ∨ r = .newByLocal n

theorem RecvStorage.IsNew.simulates {r : RecvStorage} (hr : r.IsNew) :
    (Receiver.new r).Simulates := by
  obtain ⟨n, rfl | rfl⟩ := hr
  · exact Receiver.simulates_newByPeer n
  · exact Receiver.simulates_newByLocal n

/-- **A receive storage delivers exactly the gap-free prefix**, once and in order, whatever its peer
sends. In every run from a new storage, what has been popped, and then the queue, is what the
reference has delivered, and the window is the number of its first empty slot. -/
theorem delivers_gap_free {r : RecvStorage} (hr : r.IsNew) (es : List ReceiverCall) :
    Along receiverStep AcceptsRepeats (.new r) es ∧
      ∃ st, run receiverStep (.new r) es = .ok st ∧
        st.popped ++ st.storage.popQueue = st.reference.delivered ∧
        st.storage.window = nth r.window st.reference.released := by
  have hstep : ∀ st e st', (st.initial = r ∧ st.Simulates) → True → receiverStep st e = .ok st' →
      st'.initial = r ∧ st'.Simulates := by
    rintro st e st' ⟨hinit, h⟩ - hs
    obtain ⟨st₁, hs₁, hinit₁, h₁⟩ := h.step e
    obtain rfl := Except.ok.inj (hs.symm.trans hs₁)
    exact ⟨hinit₁.trans hinit, h₁⟩
  have htriv : Along receiverStep (fun _ _ => True) (.new r) es :=
    along_of_forall_mem (p := fun _ => True) (fun _ _ => trivial) _
  have hnew : (Receiver.new r).initial = r ∧ (Receiver.new r).Simulates := ⟨rfl, hr.simulates⟩
  constructor
  · exact Along.of_invariant _ (fun st e h _ => h.2.acceptsRepeats e) hstep hnew htriv
  · obtain ⟨st, hrun⟩ := (Along.of_invariant
      (Q := fun st e => ∃ st', receiverStep st e = .ok st') _ (fun st e h _ => by
        obtain ⟨st', hs, -⟩ := h.2.step e
        exact ⟨st', hs⟩) hstep hnew htriv).run_ok
    obtain ⟨hinit, h⟩ := run_invariant _ hstep hnew htriv hrun
    exact ⟨st, hrun, h.queue, by rw [h.window, hinit]⟩

/-- Around the end of the numbers, in the wrong order, and one of them twice. -/
def reorderedCalls : List ReceiverCall :=
  [.recv 0 .finish, .recv 255 .accept, .recv 255 .accept, .pop]

theorem delivers_gap_free_reorderedCalls :
    ∃ st, run receiverStep (.new (.newByPeer 254)) reorderedCalls = .ok st ∧
      st.popped ++ st.storage.popQueue = st.reference.delivered ∧ st.popped = [.accept] ∧
      st.storage.popQueue = [.finish] := by
  obtain ⟨st, hrun, hqueue, -⟩ := (delivers_gap_free ⟨254, .inl rfl⟩ reorderedCalls).2
  refine ⟨st, hrun, hqueue, ?_⟩
  obtain rfl := Except.ok.inj hrun
  exact ⟨rfl, rfl⟩

end Mdswp
