import Mdswp.Link.System

/-!
# The two ends of a link in positions

`Sends` ties a send storage, and `Receives` a receive storage, to the segments that `push` has
accepted, by position. Each operation of an end has one lemma here.

* `Sends.pop`: what `pop` returns is the segment at the position of its number;
* `Sends.acknowledge_ok`, `Sends.acknowledge_error`: an acknowledgement is accepted when fewer than
  `WINDOW_SIZE - 1` numbers have been issued after the one it carries;
* `Receives.recv`: a segment that is accepted is put at its own position, whatever the wrapping
  number says, and releases the segments that follow those released before.
-/

namespace Mdswp

open Serial

variable {o : Opening} {accepted : List SequentialSegment} {issued : ℕ} {s : SendStorage}

/-- Whatever is accepted later, the segment at a position stays. -/
theorem Opening.content_append {p : ℕ} {segment : SequentialSegment}
    (h : o.content accepted p = some segment) (l : List SequentialSegment) :
    o.content (accepted ++ l) p = some segment := by
  cases p with
  | zero => exact h
  | succ p =>
    obtain ⟨hp, -⟩ := List.getElem?_eq_some_iff.1 h
    exact (List.getElem?_append_left hp).trans h

theorem Opening.le_length_of_content {p : ℕ} {segment : SequentialSegment}
    (h : o.content accepted p = some segment) : p ≤ accepted.length := by
  cases p with
  | zero => exact Nat.zero_le _
  | succ p => exact (List.getElem?_eq_some_iff.1 h).1

/-! ## The sender -/

/-- The sender has issued the positions up to `issued`; what is in flight carries the number of its
position, and what is not issued yet is unsent. -/
structure Sends (o : Opening) (accepted : List SequentialSegment) (issued : ℕ) (s : SendStorage) :
    Prop where
  block : s.Block
  nextUnsent_eq : s.nextUnsent = nth o.base (issued + 1)
  issued_le : issued ≤ accepted.length
  unsent_eq : s.queueUnsent = accepted.drop issued
  inFlight : ∀ e ∈ s.queueSent, ∃ p ≤ issued, issued < p + 256 ∧ e.seqNum = nth o.base p ∧
    o.content accepted p = some e.segment

theorem Opening.sends (o : Opening) : Sends o [] 0 o.sender := by
  cases o with
  | byLocal n => exact ⟨SendStorage.block_newByLocal n, rfl, le_rfl, rfl, by simp [sender,
      SendStorage.newByLocal]⟩
  | byPeer n t =>
    refine ⟨?_, rfl, le_rfl, rfl, fun e he => ?_⟩
    · obtain ⟨r, s', h, hr⟩ := SendStorage.pop_result 0 t (s := .newByPeer n) (by simp [
        SendStorage.newByPeer])
      rw [pop_newByPeer] at h
      cases h
      exact (SendStorage.block_newByPeer n).of_popResult hr
    · obtain rfl := List.mem_singleton.1 he
      exact ⟨0, le_rfl, by omega, (nth_zero n).symm, rfl⟩

namespace Sends

theorem nextUnsent_sub_one (h : Sends o accepted issued s) :
    s.nextUnsent - 1 = nth o.base issued := by
  rw [h.nextUnsent_eq, nth_succ_sub_one]

/-- How far an entry in flight is from the last number issued. -/
theorem dist_eq (h : Sends o accepted issued s) {e : Sent} {p : ℕ} (hp : p ≤ issued)
    (hlt : issued < p + 256) (he : e.seqNum = nth o.base p) :
    (s.nextUnsent - 1 - e.seqNum).toNat = issued - p := by
  rw [h.nextUnsent_sub_one, he, toNat_nth_sub_nth hp (by omega)]

/-- What is in flight is among the last positions issued. -/
theorem lt_add_length (h : Sends o accepted issued s) {e : Sent} (hmem : e ∈ s.queueSent) {p : ℕ}
    (hp : p ≤ issued) (hlt : issued < p + 256) (he : e.seqNum = nth o.base p) :
    issued < p + s.queueSent.length := by
  have := h.block.dist_lt hmem
  rw [h.dist_eq hp hlt he] at this
  omega

theorem length_le (h : Sends o accepted issued s) : s.queueSent.length ≤ 10 := h.block.length_le

theorem push (h : Sends o accepted issued s) (segment : SequentialSegment) :
    Sends o (accepted ++ [segment]) issued (s.pushBack segment) := by
  refine ⟨h.block.pushBack segment, h.nextUnsent_eq, ?_, ?_, fun e he => ?_⟩
  · rw [List.length_append]
    exact h.issued_le.trans (Nat.le_add_right _ _)
  · rw [List.drop_append_of_le_length h.issued_le, ← h.unsent_eq]
    rfl
  · obtain ⟨p, hp, hlt, hnum, hc⟩ := h.inFlight e he
    exact ⟨p, hp, hlt, hnum, Opening.content_append hc _⟩

/-- The front of `queueSent`, sent again. -/
theorem resent (h : Sends o accepted issued s) {e : Sent} {rest : List Sent}
    (hq : s.queueSent = e :: rest) (t : Instant) :
    Sends o accepted issued { s with queueSent := rest ++ [{ e with lastPop := t }] } := by
  have hb : SendStorage.Block { s with queueSent := rest ++ [{ e with lastPop := t }] } := by
    obtain ⟨hn, hl⟩ := h.block
    rw [hq] at hn hl
    have hp : ((e :: rest).map Sent.seqNum).Perm (rest.map Sent.seqNum ++ [e.seqNum]) :=
      (List.perm_append_singleton _ _).symm
    exact ⟨by simpa using hn.perm hp, by simpa using hl⟩
  refine ⟨hb, h.nextUnsent_eq, h.issued_le, h.unsent_eq, fun e' he' => ?_⟩
  rcases List.mem_append.1 he' with hmem | hmem
  · exact h.inFlight e' (hq ▸ List.mem_cons_of_mem e hmem)
  · obtain rfl := List.mem_singleton.1 hmem
    exact h.inFlight e (hq ▸ List.mem_cons_self)

/-- The front of `queueUnsent`, sent for the first time. -/
theorem fresh (h : Sends o accepted issued s) {segment : SequentialSegment}
    {rest : List SequentialSegment} (hq : s.queueUnsent = segment :: rest)
    (hlen : s.queueSent.length < 10) (t : Instant) :
    o.content accepted (issued + 1) = some segment ∧
      Sends o accepted (issued + 1)
        { queueSent := s.queueSent ++ [⟨s.nextUnsent, segment, t⟩]
          queueUnsent := rest
          nextUnsent := s.nextUnsent + 1 } := by
  have hdrop : accepted.drop issued = segment :: rest := h.unsent_eq ▸ hq
  have hhead : accepted[issued]? = some segment := by
    rw [← List.head?_drop, hdrop, List.head?_cons]
  have hpop : s.PopResult 0 t (some (s.nextUnsent, segment)) _ := .fresh segment rest hq hlen
  have hb := h.block.of_popResult hpop
  refine ⟨hhead, hb, ?_, (List.getElem?_eq_some_iff.1 hhead).1, ?_, fun e he => ?_⟩
  · dsimp only
    rw [h.nextUnsent_eq, nth_succ _ (issued + 1)]
  · rw [← List.tail_drop, hdrop, List.tail_cons]
  · rcases List.mem_append.1 he with hmem | hmem
    · obtain ⟨p, hp, hlt, hnum, hc⟩ := h.inFlight e hmem
      have := h.lt_add_length hmem hp hlt hnum
      exact ⟨p, by omega, by omega, hnum, hc⟩
    · obtain rfl := List.mem_singleton.1 hmem
      exact ⟨issued + 1, le_rfl, by omega, h.nextUnsent_eq, hhead⟩

/-- The distance of `nextUnsent` from an issued number. -/
theorem offset_eq (h : Sends o accepted issued s) {a : ℕ} (ha : a ≤ issued)
    (hlt : issued + 1 < a + 256) : (s.nextUnsent - nth o.base a).toNat = issued + 1 - a := by
  rw [h.nextUnsent_eq, toNat_nth_sub_nth (by omega) (by omega)]

/-- An acknowledgement with at most 8 numbers issued after it is accepted, and leaves in flight
what was issued after it. -/
theorem acknowledge_ok (h : Sends o accepted issued s) {a : ℕ} (ha : a ≤ issued)
    (hlt : issued < a + 9) :
    ∃ s', s.acknowledge (nth o.base a) = (.ok (), s') ∧ Sends o accepted issued s' ∧
      s'.queueSent.length = min s.queueSent.length (issued - a) := by
  have hoff := h.offset_eq ha (by omega)
  have hn : s.nextUnsent - nth o.base a < windowSize := by
    rw [BitVec.lt_def, hoff, toNat_windowSize]
    omega
  have hne : nth o.base a ≠ s.nextUnsent := by
    intro heq
    rw [heq, BitVec.sub_self, BitVec.toNat_zero] at hoff
    omega
  have hdist : (s.nextUnsent - 1 - nth o.base a).toNat = issued - a := by
    rw [h.nextUnsent_sub_one, toNat_nth_sub_nth ha (by omega)]
  refine ⟨_, h.block.acknowledge_eq hn hne, ?_, ?_⟩
  · exact ⟨h.block.filter _, h.nextUnsent_eq, h.issued_le, h.unsent_eq,
      fun e he => h.inFlight e (List.mem_filter.1 he).1⟩
  · rw [← hdist]
    exact h.block.length_filter _

/-- With more numbers issued after it, it is rejected. -/
theorem acknowledge_error (h : Sends o accepted issued s) {a : ℕ} (ha : a + 9 ≤ issued)
    (hlt : issued + 1 < a + 256) :
    s.acknowledge (nth o.base a) = (.error (SendStorage.invalidAckNum (nth o.base a)), s) := by
  apply SendStorage.acknowledge_of_le
  rw [BitVec.le_def, h.offset_eq (by omega) hlt, toNat_windowSize]
  omega

theorem content_ne_finish (hf : .finish ∉ accepted) {p : ℕ} {segment : SequentialSegment}
    (h : o.content accepted p = some segment) : segment ≠ .finish := by
  rintro rfl
  cases p with
  | zero => cases o <;> cases h
  | succ p => exact hf (List.mem_of_getElem? h)

/-- A storage to which no `Finish` has been pushed says so. -/
theorem finishedUnchecked (h : Sends o accepted issued s) (hf : .finish ∉ accepted) :
    s.finishedUnchecked = .ok false := by
  by_cases hu : s.queueUnsent = []
  swap
  · have hmem : s.queueUnsent.getLast hu ∈ accepted :=
      List.drop_subset issued accepted (h.unsent_eq ▸ List.getLast_mem hu)
    have hne : s.queueUnsent.getLast hu ≠ .finish := by
      intro heq
      exact hf (heq ▸ hmem)
    rw [SendStorage.finishedUnchecked_of_queueUnsent hu, decide_eq_false hne]
  by_cases hs : s.queueSent = []
  · exact SendStorage.finishedUnchecked_of_isEmpty (SendStorage.isEmpty_iff.2 ⟨hs, hu⟩)
  · obtain ⟨e, he, hnum⟩ := h.block.exists_last hs
    obtain ⟨p, -, -, -, hc⟩ := h.inFlight e he
    rw [h.block.finishedUnchecked_of_last hu he hnum,
      decide_eq_false (content_ne_finish hf hc)]

end Sends

/-! ## The receiver -/

/-- The receiver has released the positions up to `released`, and what it holds, up to position
`top`, is what belongs there. -/
structure Receives (o : Opening) (accepted : List SequentialSegment) (top released : ℕ)
    (r : RecvStorage) : Prop where
  bounded : r.Bounded
  retained : r.Retained
  window_eq : r.window = nth o.base (released + 1)
  dist_le : r.dist ≤ released + 1
  released_le : released ≤ top
  present : ∀ p, released < p + r.dist → p + r.dist ≤ released + 256 → ∀ segment,
    r.segments (nth o.base p) = some segment → p ≤ top ∧ o.content accepted p = some segment

theorem Opening.receives (o : Opening) : Receives o [] 0 0 o.receiver := by
  cases o with
  | byLocal n =>
    have hd : (RecvStorage.newByPeer n).dist = 0 := by simp [RecvStorage.dist,
      RecvStorage.newByPeer]
    exact ⟨RecvStorage.bounded_newByPeer n, RecvStorage.retained_newByPeer n, rfl,
      hd.trans_le (Nat.zero_le _), le_rfl, by simp [receiver, RecvStorage.newByPeer]⟩
  | byPeer n t =>
    have hd : (RecvStorage.newByLocal n).dist = 1 := by simp [RecvStorage.dist,
      RecvStorage.newByLocal]
    refine ⟨RecvStorage.bounded_newByLocal n, RecvStorage.retained_newByLocal n, rfl, hd.le, le_rfl,
      fun p hp hp' segment hs => ?_⟩
    rw [receiver, hd] at hp'
    by_cases h0 : p = 0
    · subst h0
      simp only [receiver, base, RecvStorage.newByLocal, nth_zero, Function.update_self] at hs
      exact ⟨le_rfl, hs⟩
    · have hne : nth n p ≠ n := by
        rw [Ne, ← nth_zero n, nth_nth, nth_inj (by omega) (by omega)]
        omega
      simp only [receiver, base, RecvStorage.newByLocal, Function.update_of_ne hne] at hs
      cases hs

namespace Receives

variable {top released pos k : ℕ} {r r' : RecvStorage} {segment : SequentialSegment}

theorem mono (h : Receives o accepted top released r) {top' : ℕ} (htop : top ≤ top') :
    Receives o accepted top' released r := by
  refine ⟨h.bounded, h.retained, h.window_eq, h.dist_le, h.released_le.trans htop,
    fun p hp hp' segment hs => ?_⟩
  obtain ⟨hle, hc⟩ := h.present p hp hp' segment hs
  exact ⟨hle.trans htop, hc⟩

theorem append (h : Receives o accepted top released r) (l : List SequentialSegment) :
    Receives o (accepted ++ l) top released r := by
  refine ⟨h.bounded, h.retained, h.window_eq, h.dist_le, h.released_le,
    fun p hp hp' segment hs => ?_⟩
  obtain ⟨hle, hc⟩ := h.present p hp hp' segment hs
  exact ⟨hle, Opening.content_append hc l⟩

/-- Only the registry and its bounds matter. -/
theorem congr (h : Receives o accepted top released r) (hs : r'.segments = r.segments)
    (hw : r'.window = r.window) (hl : r'.lowerBound = r.lowerBound) :
    Receives o accepted top released r' := by
  have hd : r'.dist = r.dist := by rw [RecvStorage.dist, hw, hl, RecvStorage.dist]
  refine ⟨h.bounded.congr hs hw hl, ?_, hw.trans h.window_eq, hd ▸ h.dist_le, h.released_le, ?_⟩
  · rw [RecvStorage.Retained, hs, hl, hd]
    exact h.retained
  · rw [hs, hd]
    exact h.present

theorem lowerBound_eq (h : Receives o accepted top released r) :
    r.lowerBound = nth o.base (released + 1 - r.dist) := by
  have hw := r.nth_dist
  rw [h.window_eq, show released + 1 = released + 1 - r.dist + r.dist from
    (Nat.sub_add_cancel h.dist_le).symm, ← nth_nth] at hw
  exact add_right_cancel hw

/-- The offset of a position in the range from `lowerBound` on. -/
theorem offset_eq (h : Receives o accepted top released r) (hlo : released < pos + r.dist)
    (hhi : pos + r.dist ≤ released + 256) :
    (nth o.base pos - r.lowerBound).toNat = pos + r.dist - (released + 1) := by
  have := h.dist_le
  rw [h.lowerBound_eq, toNat_nth_sub_nth (by omega) (by omega)]
  omega

/-- The offset of a position before `lowerBound`, which has wrapped around. -/
theorem offset_eq_of_le (h : Receives o accepted top released r) (hlo : pos + r.dist ≤ released)
    (hhi : released + 1 < pos + r.dist + 256) :
    (nth o.base pos - r.lowerBound).toNat = 256 - (released + 1 - (pos + r.dist)) := by
  have := h.dist_le
  rw [h.lowerBound_eq, toNat_nth_sub_nth_of_lt (by omega) (by omega)]
  omega

theorem present_insert (h : Receives o accepted top released r)
    (hlo : released < pos + r.dist) (hhi : pos + r.dist ≤ released + 256)
    (hc : o.content accepted pos = some segment) {p : ℕ} (hp : released < p + r.dist)
    (hp' : p + r.dist ≤ released + 256) {segment' : SequentialSegment}
    (hs : (r.insert (nth o.base pos) segment).segments (nth o.base p) = some segment') :
    p ≤ max top pos ∧ o.content accepted p = some segment' := by
  rw [RecvStorage.insert_segments] at hs
  by_cases heq : p = pos
  · subst heq
    rw [Function.update_self] at hs
    exact ⟨le_max_right _ _, hc.trans hs⟩
  · have hne : nth o.base p ≠ nth o.base pos := by
      rw [Ne, nth_inj (by omega) (by omega)]
      exact heq
    rw [Function.update_of_ne hne] at hs
    obtain ⟨hle, hc'⟩ := h.present p hp hp' segment' hs
    exact ⟨hle.trans (le_max_left _ _), hc'⟩

/-- A segment beyond the window is kept at its position. -/
theorem insert (h : Receives o accepted top released r) (hlo : released < pos + r.dist)
    (hhi : pos + r.dist ≤ released + 256) (hacc : r.Accepts (nth o.base pos))
    (hne : nth o.base pos ≠ r.window) (hc : o.content accepted pos = some segment) :
    Receives o accepted (max top pos) released (r.insert (nth o.base pos) segment) :=
  ⟨h.bounded.insert hacc hne, h.retained.insert, h.window_eq, h.dist_le,
    h.released_le.trans (le_max_left _ _),
    fun _ hp hp' _ hs => h.present_insert hlo hhi hc hp hp' hs⟩

section Slide

variable (h : Receives o accepted top released r) (hd : r.dist + 10 < 256)
  (hc : o.content accepted (released + 1) = some segment) (hk : k ≤ 10)
  (hrun : RunLength (r.insert r.window segment).segments r.window k)
include h hd hc hk hrun

/-- What lies ahead of the window, as far as it slides. -/
theorem ahead {i : ℕ} (hi : i < k) : ∃ segment',
    (r.insert r.window segment).segments (nth r.window i) = some segment' ∧
      released + 1 + i ≤ max top (released + 1) ∧
      o.content accepted (released + 1 + i) = some segment' := by
  obtain ⟨segment', hs⟩ := Option.isSome_iff_exists.1 (hrun.filled i hi)
  refine ⟨segment', hs, ?_⟩
  rw [h.window_eq, nth_nth] at hs
  exact h.present_insert (by omega) (by omega) hc (by omega) (by omega) hs

theorem released_add_le (hk1 : 1 ≤ k) : released + k ≤ max top (released + 1) := by
  obtain ⟨_, -, hle, -⟩ := h.ahead hd hc hk hrun (i := k - 1) (by omega)
  omega

/-- The segments released by a slide are the next ones accepted. -/
theorem contents_window : contents (r.insert r.window segment).segments r.window k =
    (accepted.drop released).take k := by
  have hlook : ∀ i < k, (r.insert r.window segment).segments (nth r.window i) =
      ((accepted.drop released).take k)[i]? := by
    intro i hi
    obtain ⟨segment', hs, -, hc'⟩ := h.ahead hd hc hk hrun hi
    rw [List.getElem?_take_of_lt hi, List.getElem?_drop, hs, ← hc',
      show released + 1 + i = released + i + 1 by omega]
    rfl
  apply contents_eq_of_forall hlook
  have hlen : released + k ≤ accepted.length := by
    rcases Nat.eq_zero_or_pos k with h0 | hpos
    · have := Opening.le_length_of_content hc
      omega
    · obtain ⟨_, -, -, hc'⟩ := h.ahead hd hc hk hrun (i := k - 1) (by omega)
      have := Opening.le_length_of_content hc'
      omega
  rw [List.length_take, List.length_drop]
  omega

theorem slide (hk1 : 1 ≤ k) :
    Receives o accepted (max top (released + 1)) (released + k)
      ((r.insert r.window segment).slid k).pruned := by
  have hlt : r.dist + k < 256 := by omega
  have hdist : ((r.insert r.window segment).slid k).pruned.dist = _ := RecvStorage.dist_slide hlt
  have hdel := RecvStorage.deleted_le (r := r) hk
  have hle := h.dist_le
  refine ⟨h.bounded.slide hd hk hrun, h.retained.slide hd hk hrun, ?_, by rw [hdist]; omega,
    h.released_add_le hd hc hk hrun hk1, fun p hp hp' segment' hs => ?_⟩
  · rw [RecvStorage.slide_window, h.window_eq, nth_nth, Nat.add_right_comm]
  rw [hdist] at hp hp'
  rw [RecvStorage.slide_segments hlt] at hs
  rcases Nat.lt_or_ge (nth o.base p - r.lowerBound).toNat (r.deleted k) with hcl | hcl
  · rw [clearBlock_of_lt hcl] at hs
    cases hs
  rw [clearBlock_of_le hcl] at hs
  -- a position a full turn further on has a number that has just been deleted
  have hin : p + r.dist ≤ released + 256 := by
    by_contra hout
    obtain ⟨q, rfl⟩ := Nat.exists_eq_add_of_le' (show 256 ≤ p by omega)
    have hturn : nth o.base (q + 256) = nth o.base q := nth_add_two_pow o.base q
    rw [hturn, h.offset_eq (by omega) (by omega)] at hcl
    omega
  rw [h.window_eq] at hs
  exact h.present_insert (by omega) (by omega) hc (by omega) hin hs

end Slide

end Receives

/-- What an accepted segment does: it is put at its position, and `k` segments are released. -/
structure Delivers (o : Opening) (accepted : List SequentialSegment) (top released : ℕ)
    (r : RecvStorage) (pos k : ℕ) (r' : RecvStorage) : Prop where
  receives : Receives o accepted (max top pos) (released + k) r'
  popQueue_eq : r'.popQueue = r.popQueue ++ (accepted.drop released).take k
  slid : k = 0 ∧ nth o.base pos ≠ r.window ∧ r'.dist = r.dist ∨
    (nth o.base pos = r.window ∧ 1 ≤ k ∧ k ≤ 10 ∧ RunLength r.segments (r.window + 1) (k - 1) ∧
      r'.dist = r.dist + k - r.deleted k)

/-- A segment near the window that belongs to its number is accepted or rejected; it never makes
`recv` panic. -/
theorem Receives.recv {top released pos : ℕ} {r : RecvStorage} {segment : SequentialSegment}
    (h : Receives o accepted top released r) (hc : o.content accepted pos = some segment)
    (hle : pos ≤ released + 10) (hge : released ≤ pos + 200) :
    (∃ err, r.recv (nth o.base pos) segment = .ok (.error err, r)) ∨
      ∃ k r', r.recv (nth o.base pos) segment = .ok (.ok (), r') ∧
        Delivers o accepted top released r pos k r' := by
  have hres := h.bounded.recv_result (nth o.base pos) segment
  generalize r.recv (nth o.base pos) segment = out at hres
  cases hres with
  | outOfRange hacc => exact .inl ⟨_, rfl⟩
  | conflict expected hacc hs hne => exact .inl ⟨_, rfl⟩
  | duplicate hacc hs =>
    have hne : nth o.base pos ≠ r.window := by
      intro heq
      rw [heq, h.bounded.window_absent] at hs
      cases hs
    refine .inr ⟨0, _, rfl, (h.mono (le_max_left _ _)).congr rfl rfl rfl, ?_,
      .inl ⟨rfl, hne, rfl⟩⟩
    rw [List.take_zero, List.append_nil]
  | buffered hacc hs hne =>
    have hd := r.dist_lt
    rcases Nat.lt_or_ge (r.dist + 10) 256 with hlt | hge'
    · -- a position before the lower bound would have to be more than 200 behind
      have hoff := (RecvStorage.accepts_iff_of_lt hlt).1 hacc
      have hlo : released < pos + r.dist := by
        by_contra hlo
        rw [h.offset_eq_of_le (by omega) (by omega)] at hoff
        omega
      refine .inr ⟨0, _, rfl, h.insert hlo (by omega) hacc hne hc, ?_, .inl ⟨rfl, hne, rfl⟩⟩
      rw [List.take_zero, List.append_nil, RecvStorage.insert_popQueue]
    · -- the range has wrapped around: whatever is in it is present
      have hoff := RecvStorage.accepts_iff.1 hacc
      have := h.retained (nth o.base pos - r.lowerBound).toNat (by omega)
      rw [nth_toNat_sub, hs] at this
      cases this
  | slid k hn hd hk hrun hret =>
    have hpos : pos = released + 1 := by
      have hn' := hn
      rw [h.window_eq, nth_inj (by omega) (by omega)] at hn'
      exact hn'
    subst hpos
    have hrun' : RunLength (r.insert r.window segment).segments r.window (k + 1) :=
      (RecvStorage.runLength_insert_window_iff (by omega)).2 hrun
    rw [hn]
    refine .inr ⟨k + 1, _, rfl, h.slide hd hc hk hrun' (by omega), ?_,
      .inr ⟨hn, by omega, by omega, hrun, RecvStorage.dist_slide (by omega)⟩⟩
    rw [RecvStorage.slide_popQueue, h.contents_window hd hc hk hrun']
  | panicked k hn hd hk hrun hret => exact absurd (h.retained.filled_deleted hk) hret

end Mdswp
