import Mdswp.Link.Safety

/-!
# A receiver that has been cleared

An error empties the registry of the receive storage, but what arrives later still gets into it. It
then runs like a storage that has kept what lies before the window and lost only what lies beyond it
(`settled`), until it panics: `Thins` relates the two, and `Thins.recv` is its step. Hence a cleared
receiver releases what belongs where it is, and the invariant of the link goes on
(`Link.Inv.of_recv`).
-/

namespace Mdswp

open Serial

namespace RecvStorage

/-- The storage without what lies from the window on. -/
def settled (r : RecvStorage) : RecvStorage :=
  { r with segments := fun n => if (n - r.lowerBound).toNat < r.dist then r.segments n else none }

theorem settled_segments (r : RecvStorage) (n : SequenceNumber) : r.settled.segments n =
    if (n - r.lowerBound).toNat < r.dist then r.segments n else none := rfl

theorem settled_eq_some {r : RecvStorage} {n : SequenceNumber} {segment : SequentialSegment}
    (h : r.settled.segments n = some segment) :
    r.segments n = some segment ∧ (n - r.lowerBound).toNat < r.dist := by
  rw [settled_segments] at h
  split_ifs at h with hn
  exact ⟨h, hn⟩

theorem bounded_settled (r : RecvStorage) : r.settled.Bounded := by
  refine ⟨(settled_segments r r.window).trans (if_neg (lt_irrefl r.dist)), fun n hn => ?_⟩
  obtain ⟨segment, hs⟩ := Option.isSome_iff_exists.1 hn
  exact (settled_eq_some hs).2.trans (Nat.lt_add_of_pos_right (by omega))

theorem Retained.settled {r : RecvStorage} (h : r.Retained) : r.settled.Retained := by
  intro i (hi : i < r.dist)
  have hlt := r.dist_lt
  rw [settled_segments, if_pos]
  · exact h i hi
  · show (nth r.lowerBound i - r.lowerBound).toNat < r.dist
    rwa [toNat_nth_sub, Nat.mod_eq_of_lt (by omega)]

/-- `r` is `t`, but for some segments before the window that it has lost. While the range of numbers
has wrapped around, nothing can be released, and what is present does not matter. -/
structure Thins (r t : RecvStorage) : Prop where
  bounded : r.Bounded
  popQueue_eq : r.popQueue = t.popQueue
  window_eq : r.window = t.window
  lowerBound_eq : r.lowerBound = t.lowerBound
  segments_eq : r.dist + 10 < 256 → ∀ n, r.segments n = t.segments n ∨
    r.segments n = none ∧ (n - r.lowerBound).toNat < r.dist

namespace Thins

variable {r r' t : RecvStorage} {n : SequenceNumber} {segment : SequentialSegment} {k : ℕ}

theorem refl (h : r.Bounded) : r.Thins r := ⟨h, rfl, rfl, rfl, fun _ _ => .inl rfl⟩

theorem dist_eq (h : r.Thins t) : r.dist = t.dist := by
  rw [dist, h.window_eq, h.lowerBound_eq, dist]

theorem accepts_iff (h : r.Thins t) : r.Accepts n ↔ t.Accepts n := by
  rw [Accepts, h.window_eq, h.lowerBound_eq, Accepts]

/-- Only the registry, its bounds and the queue matter. -/
theorem congr (h : r.Thins t) (hs : r'.segments = r.segments) (hq : r'.popQueue = r.popQueue)
    (hw : r'.window = r.window) (hl : r'.lowerBound = r.lowerBound) : r'.Thins t := by
  have hd : r'.dist = r.dist := by rw [dist, hw, hl, dist]
  refine ⟨h.bounded.congr hs hw hl, hq.trans h.popQueue_eq, hw.trans h.window_eq,
    hl.trans h.lowerBound_eq, ?_⟩
  rw [hs, hl, hd]
  exact h.segments_eq

theorem pop (h : r.Thins t) (rest : List SequentialSegment) :
    Thins { r with popQueue := rest } { t with popQueue := rest } :=
  ⟨h.bounded.congr rfl rfl rfl, rfl, h.window_eq, h.lowerBound_eq, h.segments_eq⟩

theorem popAcknowledge (h : r.Thins t) (u u' : Instant) : (r.popAcknowledge u u').2.Thins t :=
  h.congr (by simp) (by simp) (by simp) (by simp)

theorem clear (h : r.Thins t) : r.clear.Thins t.settled := by
  refine ⟨bounded_clear r, h.popQueue_eq, h.window_eq, h.lowerBound_eq, fun _ n => ?_⟩
  by_cases hn : (n - r.lowerBound).toNat < r.dist
  · exact .inr ⟨rfl, hn⟩
  · rw [h.lowerBound_eq, h.dist_eq] at hn
    exact .inl (if_neg hn).symm

/-- The two agree from the window on. -/
theorem segments_eq_of_le (h : r.Thins t) (hd : r.dist + 10 < 256)
    (hn : r.dist ≤ (n - r.lowerBound).toNat) : r.segments n = t.segments n :=
  (h.segments_eq hd n).resolve_right fun hlt => Nat.not_lt.2 hn hlt.2

theorem segments_window (h : r.Thins t) (hd : r.dist + 10 < 256) {i : ℕ} (hi : i ≤ 10) :
    r.segments (nth r.window i) = t.segments (nth r.window i) := by
  refine h.segments_eq_of_le hd ?_
  rw [nth_window, toNat_nth_sub, Nat.mod_eq_of_lt (by omega)]
  exact Nat.le_add_right _ _

/-- What is put into both at a number. -/
theorem insert_segments_eq (h : r.Thins t) (hd : r.dist + 10 < 256) (n m : SequenceNumber)
    (segment : SequentialSegment) :
    (r.insert n segment).segments m = (t.insert n segment).segments m ∨
      (r.insert n segment).segments m = none ∧ (m - r.lowerBound).toNat < r.dist := by
  rw [insert_segments, insert_segments]
  by_cases hm : m = n
  · rw [hm, Function.update_self, Function.update_self]
    exact .inl rfl
  · rw [Function.update_of_ne hm, Function.update_of_ne hm]
    exact h.segments_eq hd m

theorem insert (h : r.Thins t) (hacc : r.Accepts n) (hne : n ≠ r.window) :
    (r.insert n segment).Thins (t.insert n segment) :=
  ⟨h.bounded.insert hacc hne, h.popQueue_eq, h.window_eq, h.lowerBound_eq,
    fun hd m => h.insert_segments_eq hd n m segment⟩

/-- What `r` has lost comes back. -/
theorem insert_left (h : r.Thins t) (hacc : r.Accepts n) (hne : n ≠ r.window)
    (hs : r.dist + 10 < 256 → t.segments n = some segment) : (r.insert n segment).Thins t := by
  refine ⟨h.bounded.insert hacc hne, h.popQueue_eq, h.window_eq, h.lowerBound_eq, fun hd m => ?_⟩
  rw [insert_segments]
  by_cases hm : m = n
  · rw [hm, Function.update_self, hs hd]
    exact .inl rfl
  · rw [Function.update_of_ne hm]
    exact h.segments_eq hd m

/-- Both slide over what they have from the window on. -/
theorem slide (h : r.Thins t) (hd : r.dist + 10 < 256) (hk : k ≤ 10)
    (hrun : RunLength (r.insert r.window segment).segments r.window k) :
    ((r.insert r.window segment).slid k).pruned.Thins
      ((t.insert t.window segment).slid k).pruned := by
  have hlt : r.dist + k < 256 := by omega
  have hlt' : t.dist + k < 256 := h.dist_eq ▸ hlt
  have hdel : t.deleted k = r.deleted k := by rw [deleted, ← h.dist_eq, deleted]
  have hle := deleted_le (r := r) hk
  refine ⟨h.bounded.slide hd hk hrun, ?_, ?_, ?_, fun _ n => ?_⟩
  · rw [slide_popQueue, slide_popQueue, h.popQueue_eq, ← h.window_eq]
    congr 1
    refine contents_congr fun i hi => ?_
    rw [insert_segments, insert_segments]
    by_cases hn : nth r.window i = r.window
    · rw [hn, Function.update_self, Function.update_self]
    · rw [Function.update_of_ne hn, Function.update_of_ne hn]
      exact h.segments_window hd (by omega)
  · rw [slide_window, slide_window, h.window_eq]
  · rw [slide_lowerBound hlt, slide_lowerBound hlt', h.lowerBound_eq, hdel]
  rw [slide_segments hlt, slide_segments hlt', dist_slide hlt, slide_lowerBound hlt, hdel,
    ← h.lowerBound_eq, ← h.window_eq]
  rcases Nat.lt_or_ge (n - r.lowerBound).toNat (r.deleted k) with hcl | hcl
  · rw [clearBlock_of_lt hcl, clearBlock_of_lt hcl]
    exact .inl rfl
  · rw [clearBlock_of_le hcl, clearBlock_of_le hcl]
    refine (h.insert_segments_eq hd r.window n segment).imp_right fun hn => ⟨hn.1, ?_⟩
    have hsub := toNat_nth_sub_nth (b := r.lowerBound) hcl (by omega)
    rw [nth_toNat_sub] at hsub
    omega

/-- **The step of a cleared receiver.** What it accepts, the other one accepts as well, or has it
already. -/
theorem recv (h : r.Thins t) (ht : t.Bounded) (hret : t.Retained)
    (hsame : t.dist + 10 < 256 → t.Accepts n → ∀ expected, t.segments n = some expected →
      expected = segment) (hr : r.recv n segment = .ok (.ok (), r')) :
    ∃ t', (t' = t ∨ t.recv n segment = .ok (.ok (), t')) ∧ r'.Thins t' := by
  have hres := h.bounded.recv_result n segment
  have hres' := ht.recv_result n segment
  rw [hr] at hres
  cases hres with
  | duplicate hacc hs => exact ⟨t, .inl rfl, h.congr rfl rfl rfl rfl⟩
  | buffered hacc hs hne =>
    have hacc' := h.accepts_iff.1 hacc
    cases hs' : t.segments n with
    | some expected =>
      refine ⟨t, .inl rfl, h.insert_left hacc hne fun hd => ?_⟩
      rw [hs', hsame (h.dist_eq ▸ hd) hacc' expected hs']
    | none =>
      refine ⟨_, .inr ?_, h.insert hacc hne⟩
      generalize t.recv n segment = out at hres'
      cases hres' with
      | outOfRange hacc => exact absurd hacc' hacc
      | conflict expected _ hs _ => simp [hs'] at hs
      | duplicate _ hs => simp [hs'] at hs
      | buffered => rfl
      | slid _ hn => exact absurd (hn.trans h.window_eq.symm) hne
      | panicked _ hn => exact absurd (hn.trans h.window_eq.symm) hne
  | slid k hn hd hk hrun _ =>
    subst hn
    have hd' : t.dist + 10 < 256 := h.dist_eq ▸ hd
    have hrun' : RunLength t.segments (t.window + 1) k := by
      rw [← h.window_eq]
      refine (runLength_congr fun i hi => ?_).1 hrun
      rw [nth_add_one]
      exact h.segments_window hd (by omega)
    refine ⟨_, .inr ?_, h.slide hd (by omega) ((runLength_insert_window_iff (by omega)).2 hrun)⟩
    rw [h.window_eq] at hres' ⊢
    generalize t.recv t.window segment = out at hres'
    cases hres' with
    | outOfRange hacc => exact absurd (accepts_window_iff.2 hd') hacc
    | conflict expected _ hs _ => simp [ht.window_absent] at hs
    | duplicate _ hs => simp [ht.window_absent] at hs
    | buffered _ _ hne => exact absurd rfl hne
    | slid j _ _ _ hj _ => rw [hj.unique hrun']
    | panicked j _ _ hj _ hno => exact absurd (hret.filled_deleted (by omega)) hno

end Thins

end RecvStorage

/-! ## The link -/

variable {o : Opening} {accepted : List SequentialSegment} {top released pos : ℕ}
  {segment : SequentialSegment}

namespace Receives

variable {r : RecvStorage}

theorem settled (h : Receives o accepted top released r) :
    Receives o accepted top released r.settled :=
  ⟨r.bounded_settled, h.retained.settled, h.window_eq, h.dist_le, h.released_le,
    fun p hp hp' segment hs => h.present p hp hp' segment (RecvStorage.settled_eq_some hs).1⟩

/-- What is present at the number of a segment near the window is that segment. -/
theorem eq_of_present (h : Receives o accepted top released r)
    (hc : o.content accepted pos = some segment) (hle : pos ≤ released + 10)
    (hge : released ≤ pos + 200) (hd : r.dist + 10 < 256) (hacc : r.Accepts (nth o.base pos))
    {expected : SequentialSegment} (hs : r.segments (nth o.base pos) = some expected) :
    expected = segment := by
  have hoff := (RecvStorage.accepts_iff_of_lt hd).1 hacc
  have hlo : released < pos + r.dist := by
    by_contra hlo
    rw [h.offset_eq_of_le (by omega) (by omega)] at hoff
    omega
  obtain ⟨-, hcon⟩ := h.present pos hlo (by omega) expected hs
  exact Option.some.inj (hcon.symm.trans hc)

end Receives

namespace Link.Inv

variable {l : Link} {r r' : RecvStorage}

theorem settled (h : l.Inv o) : Inv o { l with receiver := l.receiver.settled } :=
  { h with receives := h.receives.settled }

/-- A copy arrives at a receiver that may have been cleared. -/
theorem of_recv (h : l.Inv o) {c : Copy} (hc : c ∈ l.copies) (ht : l.issued ≤ c.pos + 200)
    (hth : r.Thins l.receiver) (hr : r.recv c.seqNum c.segment = .ok (.ok (), r')) :
    ∃ t i, Inv o { l with receiver := t, copyCursor := max l.copyCursor i } ∧ r'.Thins t := by
  obtain ⟨i, hi⟩ := List.mem_iff_getElem?.1 hc
  obtain ⟨hpos, hnum, hcon⟩ := h.copies c hc
  have hlen := h.sends.length_le
  have hissued := h.issued_le
  have hrel := h.released_le
  obtain ⟨t, ht' | hrecv, hthins⟩ := hth.recv h.receives.bounded h.receives.retained
    (fun hd hacc expected hs => by
      rw [hnum] at hacc hs
      exact h.receives.eq_of_present hcon (by omega) (by omega) hd hacc hs) hr
  · exact ⟨t, 0, by simpa [ht'] using h, hthins⟩
  · have htimely : Timely l (.deliver i) := fun c' hc' => by
      rw [hi] at hc'
      cases hc'
      exact ht
    exact ⟨t, i, h.step htimely (by simp only [linkStep, hi, hrecv]), hthins⟩

/-- An acknowledgement carries the number before the window. -/
theorem of_acks (h : l.Inv o) {ns : List SequenceNumber}
    (hns : ∀ n ∈ ns, n = l.receiver.window - 1) :
    Inv o { l with acks := l.acks ++ ns.map fun n => ⟨l.released, n⟩ } := by
  refine { h with acks := fun a ha => ?_ }
  rcases List.mem_append.1 ha with ha | ha
  · exact h.acks a ha
  · obtain ⟨n, hn, rfl⟩ := List.mem_map.1 ha
    refine ⟨le_rfl, ?_⟩
    rw [hns n hn, h.receives.window_eq, nth_succ_sub_one]

end Link.Inv

end Mdswp
