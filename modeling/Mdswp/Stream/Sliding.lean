import Mdswp.Stream.Delivery

/-!
# The loops of a slide

`recv` of the segment at the window calls `__try_slide_window`. Its loops end only because some
number is not present: the first goes on as long as it finds segments, and the other two compare
wrapping numbers with `!=`. `SlidesOver r k` says that the first loop passes over `k` numbers, and
gives the rounds after which each of the three has ended.

* `slidesOver_of_runLength`: a slide ends if the `k`-th number after the window is the first that
  is not present, and what is deleted is present;
* `slide_terminates`: without `clear` every slide ends, after 1 to `WINDOW_SIZE` numbers.
-/

namespace Mdswp

open Serial

namespace RecvStorage

variable {r : RecvStorage} {n : SequenceNumber} {segment : SequentialSegment} {k : ℕ}

/-- `recv` of the segment calls `__try_slide_window`, once it has put the segment into the
registry. -/
structure Slides (r : RecvStorage) (n : SequenceNumber) (segment : SequentialSegment) : Prop where
  valid : r.checkValidSeqNum n = .ok ()
  absent : r.checkPresenceOf n segment = .ok false
  window : n = r.window

/-- A call of `__try_slide_window` moves the window over `k` numbers. Each loop ends after as many
rounds as it passes over numbers, and one more; the last one passes over less than a window. -/
structure SlidesOver (r : RecvStorage) (k : ℕ) : Prop where
  search : searchWindow r.segments (k + 1) r.window = .ok (nth r.window k)
  absent : r.segments (nth r.window k) = none
  move : moveToQueue r.segments (nth r.window k) (k + 1) r.window r.popQueue =
    .ok (r.popQueue ++ contents r.segments r.window k)
  prune : nth r.window k - windowSize - r.lowerBound < windowSize →
    ∃ j < windowSize.toNat, nth r.lowerBound j = nth r.window k - windowSize ∧
      pruneOld (nth r.window k - windowSize) (j + 1) r.lowerBound r.segments =
        .ok (clearBlock r.segments r.lowerBound j)
  returns : ∃ r', r.trySlideWindow = .ok r' ∧ r'.window = nth r.window k

theorem slides_iff : r.Slides n segment ↔ r.Accepts n ∧ r.segments n = none ∧ n = r.window := by
  have hvalid : r.checkValidSeqNum n = .ok () ↔ r.Accepts n := by
    rw [checkValidSeqNum_eq]
    split_ifs with h <;> simp [h]
  have habsent : r.checkPresenceOf n segment = .ok false ↔ r.segments n = none := by
    rw [checkPresenceOf]
    cases r.segments n with
    | none => simp
    | some expected =>
      dsimp only
      split_ifs <;> simp
  rw [← hvalid, ← habsent]
  exact ⟨fun h => ⟨h.valid, h.absent, h.window⟩, fun h => ⟨h.1, h.2.1, h.2.2⟩⟩

theorem Slides.recv_eq (h : r.Slides n segment) :
    r.recv n segment = (r.insert n segment).trySlideWindow.map fun r => (.ok (), r) := by
  rw [recv, h.valid]
  dsimp only
  rw [h.absent, insert_window, if_pos h.window]

theorem slidesOver_of_runLength (hrun : RunLength r.segments r.window k) (hk : k < 256)
    (hret : Filled r.segments r.lowerBound (r.slid k).pruneCount) : r.SlidesOver k where
  search := searchWindow_eq hrun k.lt_succ_self
  absent := hrun.absent
  move := moveToQueue_eq hrun.filled k.lt_succ_self hk _
  prune := by
    intro hlt
    have hcount : (r.slid k).pruneCount = (nth r.window k - windowSize - r.lowerBound).toNat :=
      if_pos hlt
    rw [hcount] at hret
    have hlt' := BitVec.lt_def.1 hlt
    have hend : nth r.lowerBound (nth r.window k - windowSize - r.lowerBound).toNat =
        nth r.window k - windowSize := nth_toNat_sub _ _
    refine ⟨_, hlt', hend, ?_⟩
    generalize (nth r.window k - windowSize - r.lowerBound).toNat = j at hret hlt' hend ⊢
    rw [toNat_windowSize] at hlt'
    rw [← hend, pruneOld_eq j.lt_succ_self (by omega), if_pos hret]
  returns := ⟨(r.slid k).pruned, by rw [trySlideWindow_eq hrun hk, if_pos hret], rfl⟩

/-- In a state that `clear` has not touched, a slide ends. -/
theorem Bounded.slidesOver (hb : r.Bounded) (hret : r.Retained) (h : r.Slides n segment) :
    ∃ k, 1 ≤ k ∧ k ≤ windowSize.toNat ∧ (r.insert n segment).SlidesOver k := by
  obtain ⟨hacc, -, rfl⟩ := slides_iff.1 h
  have hd := accepts_window_iff.1 hacc
  obtain ⟨k, hrun, hk1, hk10⟩ := hb.exists_slide segment hd
  refine ⟨k, hk1, hk10, slidesOver_of_runLength hrun (by omega) ?_⟩
  rw [pruneCount_slid_insert (by omega), insert_lowerBound,
    filled_insert_window_iff segment (deleted_le hk10)]
  exact hret.filled_deleted hk10

/-- What holds from a new storage on, until `clear`. -/
theorem IsNew.bounded_retained (hr : r.IsNew) : r.Bounded ∧ r.Retained := by
  obtain ⟨n, rfl | rfl⟩ := hr
  · exact ⟨bounded_newByPeer n, retained_newByPeer n⟩
  · exact ⟨bounded_newByLocal n, retained_newByLocal n⟩

end RecvStorage

open RecvStorage

/-- **The search for the window always stops.** Any calls but `clear` on a new storage return. Some
number is not present then, and `recv` of a segment that makes the window slide moves it over 1 to
`WINDOW_SIZE` numbers, where each of the three loops ends. -/
theorem slide_terminates {r₀ : RecvStorage} (hr : r₀.IsNew) {es : List RecvEvent}
    (hes : ∀ e ∈ es, e ≠ .clear) :
    ∃ r, run recvStep r₀ es = .ok r ∧ (∃ n, r.segments n = none) ∧
      ∀ n segment, r.Slides n segment →
        ∃ k, 1 ≤ k ∧ k ≤ windowSize.toNat ∧ (r.insert n segment).SlidesOver k := by
  have hreturns : Along recvStep Returns r₀ es := by
    obtain ⟨n, hn⟩ := hr
    exact along_returns_of_forall_ne_clear n hn hes
  obtain ⟨r, hrun⟩ := hreturns.run_ok
  have hinv : r.Bounded ∧ r.Retained :=
    run_invariant (fun r => r.Bounded ∧ r.Retained)
      (fun r e r' h he hs => ⟨bounded_recvStep h.1 hs, retained_recvStep h.1 h.2 he hs⟩)
      hr.bounded_retained (along_of_forall_mem hes r₀) hrun
  exact ⟨r, hrun, ⟨r.window, hinv.1.window_absent⟩, fun n segment => hinv.1.slidesOver hinv.2⟩

/-- Around the end of the numbers, two segments wait for the one at the window. -/
theorem slide_terminates_twoWaiting :
    ∃ r, run recvStep (.newByLocal 254) [.recv 0 .finish, .pop, .recv 1 .finish] = .ok r ∧
      r.Slides 255 .finish ∧ ∃ k, 1 ≤ k ∧ k ≤ windowSize.toNat ∧
        (r.insert 255 .finish).SlidesOver k := by
  have hes : ∀ e ∈ [RecvEvent.recv 0 .finish, .pop, .recv 1 .finish], e ≠ .clear := by simp
  obtain ⟨r, hrun, -, hslide⟩ := slide_terminates ⟨254, .inr rfl⟩ hes
  have hs : r.Slides 255 .finish := by
    obtain rfl := Except.ok.inj hrun
    exact ⟨rfl, rfl, rfl⟩
  exact ⟨r, hrun, hs, hslide 255 .finish hs⟩

end Mdswp
