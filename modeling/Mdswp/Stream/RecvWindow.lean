import Mdswp.Foundations.Run
import Mdswp.Stream.Recv

/-!
# The window of the receive storage

`dist` is the distance from `lowerBound` to `window`. In every state, whatever the peer sends and
also after `clear`, `window` is not present and every number present is less than
`dist + WINDOW_SIZE` from `lowerBound` (`Bounded`). Hence a segment that starts at the window slides
it over 1 to `WINDOW_SIZE` numbers (`Bounded.exists_slide`), and `recv` has the outcomes listed in
`RecvResult`.

The last of them is a panic: the slide deletes numbers that are not present. It does not happen
while every number from `lowerBound` up to `window` is present (`Retained`), which `clear` breaks.
-/

namespace Mdswp

open Serial

namespace RecvStorage

variable {r : RecvStorage} {n : SequenceNumber} {segment : SequentialSegment} {k : ℕ}

/-- The distance from the lower bound to the window. -/
def dist (r : RecvStorage) : ℕ := (r.window - r.lowerBound).toNat

theorem dist_lt (r : RecvStorage) : r.dist < 256 := (r.window - r.lowerBound).isLt

theorem nth_dist (r : RecvStorage) : nth r.lowerBound r.dist = r.window := nth_toNat_sub _ _

theorem nth_window (r : RecvStorage) (k : ℕ) : nth r.window k = nth r.lowerBound (r.dist + k) := by
  rw [← nth_nth, nth_dist]

/-- The number passes `checkValidSeqNum`. -/
def Accepts (r : RecvStorage) (n : SequenceNumber) : Prop :=
  n - r.lowerBound < r.window + windowSize - r.lowerBound

instance : Decidable (r.Accepts n) := inferInstanceAs (Decidable (_ < _))

theorem checkValidSeqNum_eq (r : RecvStorage) (n : SequenceNumber) :
    r.checkValidSeqNum n = if r.Accepts n then .ok () else
      .error (connInvalidSeqNum n r.lowerBound (r.window + windowSize)) := rfl

/-- Numbers pass up to a window beyond `window`, unless the range wraps around. -/
theorem accepts_iff : r.Accepts n ↔ (n - r.lowerBound).toNat < (r.dist + 10) % 256 := by
  have h : r.window + windowSize - r.lowerBound = r.window - r.lowerBound + windowSize :=
    add_sub_right_comm ..
  rw [Accepts, h, BitVec.lt_def, BitVec.toNat_add, dist, toNat_windowSize]

/-- The window itself passes exactly while the range does not wrap around. -/
theorem accepts_window_iff : r.Accepts r.window ↔ r.dist + 10 < 256 := by
  rw [accepts_iff, ← dist]
  have := r.dist_lt
  omega

theorem accepts_iff_of_lt (h : r.dist + 10 < 256) :
    r.Accepts n ↔ (n - r.lowerBound).toNat < r.dist + 10 := by
  rw [accepts_iff, Nat.mod_eq_of_lt h]

/-! ## The effect of a slide on the distance -/

@[simp] theorem insert_window : (r.insert n segment).window = r.window := rfl

@[simp] theorem insert_lowerBound : (r.insert n segment).lowerBound = r.lowerBound := rfl

@[simp] theorem insert_popQueue : (r.insert n segment).popQueue = r.popQueue := rfl

theorem insert_segments :
    (r.insert n segment).segments = Function.update r.segments n (some segment) := rfl

@[simp] theorem dist_insert : (r.insert n segment).dist = r.dist := rfl

theorem dist_slid (h : r.dist + k < 256) : (r.slid k).dist = r.dist + k := by
  have h0 := toNat_nth_sub_nth (b := r.lowerBound) (Nat.zero_le (r.dist + k)) (by omega)
  rwa [nth_zero, ← nth_window] at h0

/-- The condition of the source, on distances: it deletes what is more than a window behind, but
only while the lower bound is less than two windows behind. -/
theorem pruneCount_eq (r : RecvStorage) :
    r.pruneCount = if 10 ≤ r.dist ∧ r.dist < 20 then r.dist - 10 else 0 := by
  have hm : r.window - windowSize - r.lowerBound = r.window - r.lowerBound - windowSize :=
    sub_right_comm ..
  have hd := r.dist_lt
  have hsub : (r.window - r.lowerBound - windowSize).toNat = (r.dist + 246) % 256 := by
    rw [BitVec.toNat_sub, toNat_windowSize, dist]
    omega
  simp only [pruneCount, hm, BitVec.lt_def, hsub, toNat_windowSize]
  split_ifs <;> omega

theorem pruneCount_le_dist (r : RecvStorage) : r.pruneCount ≤ r.dist := by
  rw [pruneCount_eq]
  split_ifs <;> omega

theorem dist_pruned (r : RecvStorage) : r.pruned.dist = r.dist - r.pruneCount := by
  have hle := r.pruneCount_le_dist
  have hlt := r.dist_lt
  have h := toNat_nth_sub_nth (b := r.lowerBound) hle (by omega)
  rwa [nth_dist] at h

/-! ## Reachable states are bounded -/

/-- The window is not present, and everything present is less than a window beyond it. -/
structure Bounded (r : RecvStorage) : Prop where
  window_absent : r.segments r.window = none
  present_lt : ∀ n, (r.segments n).isSome → (n - r.lowerBound).toNat < r.dist + 10

/-- Every number from the lower bound up to the window is present. -/
def Retained (r : RecvStorage) : Prop := Filled r.segments r.lowerBound r.dist

theorem isSome_insert (m : SequenceNumber) :
    ((r.insert n segment).segments m).isSome ↔ m = n ∨ (r.segments m).isSome := by
  rw [insert_segments]
  by_cases h : m = n
  · simp [h]
  · simp [h]

/-- A window beyond the window nothing is present, also after an insertion at the window. -/
theorem Bounded.insert_absent (h : r.Bounded) {i : ℕ} (hi : 10 ≤ i) (hlt : r.dist + i < 256) :
    (r.insert r.window segment).segments (nth r.window i) = none := by
  have hoff : (nth r.window i - r.lowerBound).toNat = r.dist + i := by
    rw [nth_window, toNat_nth_sub, Nat.mod_eq_of_lt (by omega)]
  rw [← Option.not_isSome_iff_eq_none, isSome_insert]
  rintro (heq | hsome)
  · have := congrArg (fun x => (x - r.lowerBound).toNat) heq
    rw [hoff, ← dist] at this
    omega
  · have := h.present_lt _ hsome
    omega

/-- A segment at the window slides it over 1 to `WINDOW_SIZE` numbers. -/
theorem Bounded.exists_slide (h : r.Bounded) (segment : SequentialSegment)
    (hacc : r.dist + 10 < 256) :
    ∃ k, RunLength (r.insert r.window segment).segments r.window k ∧ 1 ≤ k ∧ k ≤ 10 := by
  -- the number a window beyond is still absent
  have hten : (r.insert r.window segment).segments (nth r.window 10) = none :=
    h.insert_absent le_rfl hacc
  obtain ⟨k, hk, hrun⟩ := exists_runLength hten r.window
  refine ⟨k, hrun, Nat.one_le_iff_ne_zero.2 fun h0 => ?_, ?_⟩
  · have := hrun.absent
    rw [h0, nth_zero, insert_segments, Function.update_self] at this
    cases this
  · rw [toNat_nth_sub] at hk
    omega

/-- How many numbers a slide over `k` numbers deletes. -/
def deleted (r : RecvStorage) (k : ℕ) : ℕ :=
  if 10 ≤ r.dist + k ∧ r.dist + k < 20 then r.dist + k - 10 else 0

theorem pruneCount_slid_insert (h : r.dist + k < 256) :
    ((r.insert n segment).slid k).pruneCount = r.deleted k := by
  rw [pruneCount_eq, dist_slid (by rwa [dist_insert]), dist_insert, deleted]

theorem deleted_le (hk : k ≤ 10) : r.deleted k ≤ r.dist := by
  rw [deleted]
  split_ifs <;> omega

/-- The numbers before the window are not the window. -/
theorem filled_insert_window_iff (segment : SequentialSegment) {j : ℕ} (hj : j ≤ r.dist) :
    Filled (r.insert r.window segment).segments r.lowerBound j ↔
      Filled r.segments r.lowerBound j := by
  refine filled_update_of_forall_ne (fun i hi => ?_) _
  have hlt := r.dist_lt
  rw [← nth_dist, Ne, nth_inj (by omega) (by omega)]
  omega

theorem runLength_insert_window_iff (hk : k + 1 < 256) :
    RunLength (r.insert r.window segment).segments r.window (k + 1) ↔
      RunLength r.segments (r.window + 1) k := by
  rw [runLength_succ, insert_segments, Function.update_self,
    runLength_update_of_forall_ne fun i hi => nth_add_one_ne _ (by omega)]
  simp

/-! ## The outcomes of `recv` -/

/-- The outcomes of `recv`. In the last two the segment starts at the window, which slides over
`k` numbers. -/
inductive RecvResult (r : RecvStorage) (n : SequenceNumber) (segment : SequentialSegment) :
    Exec (IoResult Unit × RecvStorage) → Prop
  | outOfRange (h : ¬r.Accepts n) :
    RecvResult r n segment
      (.ok (.error (connInvalidSeqNum n r.lowerBound (r.window + windowSize)), r))
  | conflict (expected : SequentialSegment) (hacc : r.Accepts n)
      (h : r.segments n = some expected) (hne : segment ≠ expected) :
    RecvResult r n segment (.ok (.error (connUnreliable segment.debug expected.debug), r))
  | duplicate (hacc : r.Accepts n) (h : r.segments n = some segment) :
    RecvResult r n segment (.ok (.ok (), { r with urgentAck := true }))
  | buffered (hacc : r.Accepts n) (h : r.segments n = none) (hne : n ≠ r.window) :
    RecvResult r n segment (.ok (.ok (), r.insert n segment))
  | slid (k : ℕ) (hn : n = r.window) (hacc : r.dist + 10 < 256) (hk : k < 10)
      (hrun : RunLength r.segments (r.window + 1) k)
      (hret : Filled r.segments r.lowerBound (r.deleted (k + 1))) :
    RecvResult r n segment (.ok (.ok (), ((r.insert n segment).slid (k + 1)).pruned))
  | panicked (k : ℕ) (hn : n = r.window) (hacc : r.dist + 10 < 256) (hk : k < 10)
      (hrun : RunLength r.segments (r.window + 1) k)
      (hret : ¬Filled r.segments r.lowerBound (r.deleted (k + 1))) :
    RecvResult r n segment (.error .panic)

theorem Bounded.recv_result (h : r.Bounded) (n : SequenceNumber) (segment : SequentialSegment) :
    RecvResult r n segment (r.recv n segment) := by
  rw [recv, checkValidSeqNum_eq]
  by_cases hacc : r.Accepts n
  swap
  · rw [if_neg hacc]
    exact .outOfRange hacc
  rw [if_pos hacc, checkPresenceOf]
  cases hs : r.segments n with
  | some expected =>
    dsimp only
    by_cases heq : segment = expected
    · rw [if_pos heq]
      exact .duplicate hacc (heq ▸ hs)
    · rw [if_neg heq]
      exact .conflict expected hacc hs heq
  | none =>
    dsimp only
    by_cases hn : n = r.window
    swap
    · rw [insert_window, if_neg hn]
      exact .buffered hacc hs hn
    subst hn
    have hd := accepts_window_iff.1 hacc
    obtain ⟨k, hrun, hk1, hk10⟩ := h.exists_slide segment hd
    obtain ⟨k, rfl⟩ := Nat.exists_eq_add_of_le' hk1
    have hrun' := (runLength_insert_window_iff (by omega)).1 hrun
    rw [insert_window, if_pos rfl, trySlideWindow_eq hrun (by omega), insert_lowerBound,
      pruneCount_slid_insert (by omega)]
    have hfill := filled_insert_window_iff segment (deleted_le (r := r) hk10)
    by_cases hret : Filled r.segments r.lowerBound (r.deleted (k + 1))
    · rw [if_pos (hfill.2 hret)]
      exact .slid k rfl hd (by omega) hrun' hret
    · rw [if_neg (mt hfill.1 hret)]
      exact .panicked k rfl hd (by omega) hrun' hret

/-! ## What every call preserves -/

theorem bounded_newByPeer (n : SequenceNumber) : (newByPeer n).Bounded :=
  ⟨rfl, fun _ h => by simp [newByPeer] at h⟩

theorem bounded_newByLocal (n : SequenceNumber) : (newByLocal n).Bounded := by
  constructor
  · have hne : n + 1 ≠ n := by simp
    exact Function.update_of_ne hne (some SequentialSegment.accept) fun _ => none
  · intro m hm
    by_cases h : m = n
    · simp [h, newByLocal]
    · simp [newByLocal, Function.update_of_ne h] at hm

theorem retained_newByPeer (n : SequenceNumber) : (newByPeer n).Retained := by
  simp [Retained, dist, newByPeer, filled_zero]

theorem retained_newByLocal (n : SequenceNumber) : (newByLocal n).Retained := by
  have hd : (newByLocal n).dist = 1 := by simp [dist, newByLocal]
  rw [Retained, hd, filled_succ]
  exact ⟨by simp [newByLocal], filled_zero _ _⟩

theorem bounded_clear (r : RecvStorage) : r.clear.Bounded :=
  ⟨rfl, fun _ hm => by simp [RecvStorage.clear] at hm⟩

theorem Bounded.insert (h : r.Bounded) (hacc : r.Accepts n) (hne : n ≠ r.window) :
    (r.insert n segment).Bounded := by
  constructor
  · rw [insert_window, insert_segments, Function.update_of_ne hne.symm]
    exact h.window_absent
  · intro m hm
    rcases (isSome_insert m).1 hm with rfl | hm
    · exact (accepts_iff.1 hacc).trans_le (Nat.mod_le _ _)
    · exact h.present_lt m hm

/-- The distances after a slide over `k` numbers from the window. -/
theorem dist_slide (h : r.dist + k < 256) :
    ((r.insert n segment).slid k).pruned.dist = r.dist + k - r.deleted k := by
  rw [dist_pruned, pruneCount_slid_insert h, dist_slid (by rwa [dist_insert]), dist_insert]

theorem slide_segments (h : r.dist + k < 256) :
    ((r.insert n segment).slid k).pruned.segments =
      clearBlock (r.insert n segment).segments r.lowerBound (r.deleted k) := by
  rw [pruned, pruneCount_slid_insert h]
  rfl

theorem slide_lowerBound (h : r.dist + k < 256) :
    ((r.insert n segment).slid k).pruned.lowerBound = nth r.lowerBound (r.deleted k) := by
  rw [pruned, pruneCount_slid_insert h]
  rfl

/-- A slide leaves what is not deleted. -/
theorem slide_segments_nth (h : r.dist + k < 256) {i : ℕ} (hi : r.deleted k ≤ i) (hlt : i < 256) :
    ((r.insert n segment).slid k).pruned.segments (nth r.lowerBound i) =
      (r.insert n segment).segments (nth r.lowerBound i) := by
  rw [slide_segments h, clearBlock_of_le]
  rwa [toNat_nth_sub, Nat.mod_eq_of_lt (by omega)]

@[simp] theorem slide_window :
    ((r.insert n segment).slid k).pruned.window = nth r.window k := rfl

@[simp] theorem slide_popQueue :
    ((r.insert n segment).slid k).pruned.popQueue =
      r.popQueue ++ contents (r.insert n segment).segments r.window k := rfl

theorem Bounded.slide (h : r.Bounded) (hacc : r.dist + 10 < 256) (hk : k ≤ 10)
    (hrun : RunLength (r.insert r.window segment).segments r.window k) :
    ((r.insert r.window segment).slid k).pruned.Bounded := by
  have hlt : r.dist + k < 256 := by omega
  have hdel := deleted_le (r := r) hk
  constructor
  · rw [slide_window, slide_segments hlt, clearBlock_of_le]
    · exact hrun.absent
    · rw [nth_window, toNat_nth_sub, Nat.mod_eq_of_lt (by omega)]
      omega
  · intro m hm
    rw [slide_segments hlt, isSome_clearBlock, isSome_insert] at hm
    obtain ⟨hge, hm⟩ := hm
    have hoff : (m - r.lowerBound).toNat < r.dist + 10 := by
      rcases hm with rfl | hm
      · rw [← dist]
        omega
      · exact h.present_lt m hm
    have hsub := toNat_nth_sub_nth (b := r.lowerBound) hge (by omega)
    rw [nth_toNat_sub] at hsub
    rw [dist_slide hlt, slide_lowerBound hlt, hsub]
    omega

theorem Retained.insert (h : r.Retained) : (r.insert n segment).Retained :=
  h.update_some _ _

theorem Retained.slide (h : r.Retained) (hacc : r.dist + 10 < 256) (hk : k ≤ 10)
    (hrun : RunLength (r.insert r.window segment).segments r.window k) :
    ((r.insert r.window segment).slid k).pruned.Retained := by
  have hlt : r.dist + k < 256 := by omega
  have hdel := deleted_le (r := r) hk
  have hall : Filled (r.insert r.window segment).segments r.lowerBound (r.dist + k) := by
    rw [filled_add, nth_dist]
    exact ⟨h.insert, hrun.filled⟩
  rw [Retained, dist_slide hlt, slide_segments hlt, slide_lowerBound hlt,
    filled_clearBlock (by omega)]
  refine (filled_add.1 ?_).2
  rwa [Nat.add_sub_cancel' (by omega)]

/-- A slide deletes only what is present. -/
theorem Retained.filled_deleted (h : r.Retained) (hk : k ≤ 10) :
    Filled r.segments r.lowerBound (r.deleted k) :=
  Filled.mono h (deleted_le hk)

/-! The calls other than `recv` and `clear` leave the registry and its bounds alone. -/

@[simp] theorem pop_segments (r : RecvStorage) : r.pop.2.segments = r.segments := by
  unfold pop
  split <;> rfl

@[simp] theorem pop_window (r : RecvStorage) : r.pop.2.window = r.window := by
  unfold pop
  split <;> rfl

@[simp] theorem pop_lowerBound (r : RecvStorage) : r.pop.2.lowerBound = r.lowerBound := by
  unfold pop
  split <;> rfl

/-- `pop` takes the first segment of the queue. -/
theorem pop_toList_append (r : RecvStorage) :
    r.pop.1.toList ++ r.pop.2.popQueue = r.popQueue := by
  rw [pop]
  cases hq : r.popQueue with
  | nil => exact hq
  | cons segment rest => rfl

section
variable (t t' : Instant)

@[simp] theorem popAcknowledge_segments :
    (r.popAcknowledge t t').2.segments = r.segments := by
  unfold popAcknowledge
  split
  · rfl
  · dsimp only
    split <;> rfl

@[simp] theorem popAcknowledge_window : (r.popAcknowledge t t').2.window = r.window := by
  unfold popAcknowledge
  split
  · rfl
  · dsimp only
    split <;> rfl

@[simp] theorem popAcknowledge_lowerBound :
    (r.popAcknowledge t t').2.lowerBound = r.lowerBound := by
  unfold popAcknowledge
  split
  · rfl
  · dsimp only
    split <;> rfl

@[simp] theorem popAcknowledge_popQueue :
    (r.popAcknowledge t t').2.popQueue = r.popQueue := by
  unfold popAcknowledge
  split
  · rfl
  · dsimp only
    split <;> rfl

/-- Whatever is acknowledged is the number before the window. -/
theorem popAcknowledge_eq_some (h : (r.popAcknowledge t t').1 = some n) : n = r.window - 1 := by
  unfold popAcknowledge at h
  split at h <;> dsimp only at h <;> split at h <;> simp_all
end

theorem Bounded.congr {r' : RecvStorage} (h : r.Bounded) (hs : r'.segments = r.segments)
    (hw : r'.window = r.window) (hl : r'.lowerBound = r.lowerBound) : r'.Bounded := by
  constructor
  · rw [hs, hw]
    exact h.window_absent
  · rw [hs, hl, dist, hw, hl]
    exact h.present_lt

end RecvStorage

/-! ## Runs -/

open RecvStorage

/-- The calls on a receive storage. -/
inductive RecvEvent
  | recv (seqNum : SequenceNumber) (segment : SequentialSegment)
  | pop
  | popAcknowledge (t t' : Instant)
  | clear

/-- One call; a `recv` that returns an error leaves the storage to the next call. -/
def recvStep (r : RecvStorage) : RecvEvent → Exec RecvStorage
  | .recv seqNum segment => (r.recv seqNum segment).map Prod.snd
  | .pop => .ok r.pop.2
  | .popAcknowledge t t' => .ok (r.popAcknowledge t t').2
  | .clear => .ok r.clear

/-- The call returns: it neither panics nor loops for ever. -/
def Returns (r : RecvStorage) (e : RecvEvent) : Prop := ∃ r', recvStep r e = .ok r'

/-- If the call receives the segment at the window, then with `k` segments buffered just after it,
the numbers that a slide over `k + 1` numbers deletes are present. -/
def DeletesPresent (r : RecvStorage) : RecvEvent → Prop
  | .recv n _ => n = r.window → ∀ k < 10, RunLength r.segments (r.window + 1) k →
      Filled r.segments r.lowerBound (r.deleted (k + 1))
  | _ => True

instance (r : RecvStorage) (e : RecvEvent) : Decidable (DeletesPresent r e) := by
  cases e <;> unfold DeletesPresent <;> infer_instance

theorem returns_iff_deletesPresent {r : RecvStorage} (h : r.Bounded) (e : RecvEvent) :
    Returns r e ↔ DeletesPresent r e := by
  cases e with
  | recv n segment =>
    have hres := h.recv_result n segment
    simp only [Returns, recvStep, DeletesPresent]
    generalize r.recv n segment = out at hres
    cases hres with
    | outOfRange hacc =>
      refine iff_of_true ⟨_, rfl⟩ ?_
      rintro rfl k hk -
      have hd := mt accepts_window_iff.2 hacc
      rw [deleted, if_neg (by omega)]
      exact filled_zero _ _
    | conflict expected hacc hs hne =>
      refine iff_of_true ⟨_, rfl⟩ ?_
      rintro rfl
      rw [h.window_absent] at hs
      cases hs
    | duplicate hacc hs =>
      refine iff_of_true ⟨_, rfl⟩ ?_
      rintro rfl
      rw [h.window_absent] at hs
      cases hs
    | buffered hacc hs hne => exact iff_of_true ⟨_, rfl⟩ fun hn => absurd hn hne
    | slid k hn hacc hk hrun hret =>
      refine iff_of_true ⟨_, rfl⟩ fun _ j _ hj => ?_
      rwa [hj.unique hrun]
    | panicked k hn hacc hk hrun hret =>
      refine iff_of_false ?_ fun hall => hret (hall hn k hk hrun)
      rintro ⟨r', hr'⟩
      cases hr'
  | pop => exact iff_of_true ⟨_, rfl⟩ trivial
  | popAcknowledge t t' => exact iff_of_true ⟨_, rfl⟩ trivial
  | clear => exact iff_of_true ⟨_, rfl⟩ trivial

theorem bounded_recvStep {r r' : RecvStorage} {e : RecvEvent} (h : r.Bounded)
    (hs : recvStep r e = .ok r') : r'.Bounded := by
  cases e with
  | recv n segment =>
    have hres := h.recv_result n segment
    rw [recvStep] at hs
    generalize r.recv n segment = out at hres hs
    cases hres with
    | outOfRange hacc => cases hs; exact h
    | conflict expected hacc hsome hne => cases hs; exact h
    | duplicate hacc hsome => cases hs; exact h.congr rfl rfl rfl
    | buffered hacc hnone hne => cases hs; exact h.insert hacc hne
    | slid k hn hacc hk hrun hret =>
      cases hs
      subst hn
      exact h.slide hacc hk ((runLength_insert_window_iff (by omega)).2 hrun)
    | panicked k hn hacc hk hrun hret => cases hs
  | pop => cases hs; exact h.congr (by simp) (by simp) (by simp)
  | popAcknowledge t t' => cases hs; exact h.congr (by simp) (by simp) (by simp)
  | clear => cases hs; exact bounded_clear r

/-- **The receiver never panics** in exactly the runs in which every slide deletes numbers that
are present. -/
theorem along_returns_iff (n : SequenceNumber) {r : RecvStorage}
    (hr : r = .newByPeer n ∨ r = .newByLocal n) (es : List RecvEvent) :
    Along recvStep Returns r es ↔ Along recvStep DeletesPresent r es := by
  have h : r.Bounded := by
    rcases hr with rfl | rfl
    · exact bounded_newByPeer n
    · exact bounded_newByLocal n
  exact along_congr Bounded (fun r e h => returns_iff_deletesPresent h e)
    (fun r e r' h _ hs => bounded_recvStep h hs) h es

theorem retained_recvStep {r r' : RecvStorage} {e : RecvEvent} (hb : r.Bounded) (h : r.Retained)
    (he : e ≠ .clear) (hs : recvStep r e = .ok r') : r'.Retained := by
  cases e with
  | recv n segment =>
    have hres := hb.recv_result n segment
    rw [recvStep] at hs
    generalize r.recv n segment = out at hres hs
    cases hres with
    | outOfRange hacc => cases hs; exact h
    | conflict expected hacc hsome hne => cases hs; exact h
    | duplicate hacc hsome => cases hs; exact h
    | buffered hacc hnone hne => cases hs; exact h.insert
    | slid k hn hacc hk hrun hret =>
      cases hs
      subst hn
      exact h.slide hacc hk ((runLength_insert_window_iff (by omega)).2 hrun)
    | panicked k hn hacc hk hrun hret => cases hs
  | pop => cases hs; simpa [Retained, RecvStorage.dist] using h
  | popAcknowledge t t' => cases hs; simpa [Retained, RecvStorage.dist] using h
  | clear => exact absurd rfl he

/-- Without a `clear` nothing panics. -/
theorem along_returns_of_forall_ne_clear (n : SequenceNumber) {r : RecvStorage}
    (hr : r = .newByPeer n ∨ r = .newByLocal n) {es : List RecvEvent} (hes : ∀ e ∈ es, e ≠ .clear) :
    Along recvStep Returns r es := by
  have h : r.Bounded ∧ r.Retained := by
    rcases hr with rfl | rfl
    · exact ⟨bounded_newByPeer n, retained_newByPeer n⟩
    · exact ⟨bounded_newByLocal n, retained_newByLocal n⟩
  refine Along.of_invariant (fun r => r.Bounded ∧ r.Retained) (fun r e h he => ?_)
    (fun r e r' h he hs => ?_) h (along_of_forall_mem hes r)
  · apply (returns_iff_deletesPresent h.1 e).2
    cases e with
    | recv n segment => exact fun _ k hk _ => h.2.filled_deleted (by omega)
    | pop => trivial
    | popAcknowledge t t' => trivial
    | clear => trivial
  · exact ⟨bounded_recvStep h.1 hs, retained_recvStep h.1 h.2 he hs⟩

/-- Ten segments are received, the storage is cleared, and the ten are received again before the
next one: the slide then finds what it deletes. -/
theorem returns_clear_refill :
    let tenth := (List.range 10).map fun i => RecvEvent.recv (BitVec.ofNat 8 (i + 1)) .finish
    Along recvStep Returns (.newByPeer 0) (tenth ++ .clear :: tenth ++ [.recv 11 .finish]) :=
  (along_returns_iff 0 (.inl rfl) _).2 (by decide)

/-- Ten segments are received, then `clear` empties the registry and the next segment slides the
window: the slide deletes a number that is not present. -/
theorem recv_after_clear_panics :
    run recvStep (.newByPeer 0)
      ((List.range 10).map (fun i => RecvEvent.recv (BitVec.ofNat 8 (i + 1)) .finish) ++
        [.clear, .recv 11 .finish]) = .error .panic := by
  rfl

end Mdswp
