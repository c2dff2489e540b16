import Mdswp.Foundations.Run
import Mdswp.Foundations.Serial
import Mdswp.Stream.Send

/-!
# The numbers in flight

While the peer acknowledges only numbers that have been issued, the numbers in `queueSent` are the
block of at most `WINDOW_SIZE` numbers that ends just before `nextUnsent` (`Block`), whatever the
order of pushes, transmissions, retransmissions and acknowledgements. On the block the two wrapping
comparisons of `acknowledge` agree (`Block.sub_lt_iff`): an accepted number removes the entries
up to it.

An acknowledgement of `nextUnsent`, which has not been issued, is accepted too, and removes the
entries less than a window before it. With a full window in flight one entry is left, the block is
broken, and the next `push` panics.
-/

namespace Mdswp

open Serial

namespace SendStorage

/-- The numbers in flight are the block of at most a window that ends before `nextUnsent`. -/
structure Block (s : SendStorage) : Prop where
  numbers : IsBlock (s.nextUnsent - 1) s.queueSent.length (s.queueSent.map Sent.seqNum)
  length_le : s.queueSent.length ≤ windowSize.toNat

theorem block_newByPeer (n : SequenceNumber) : (newByPeer n).Block :=
  ⟨IsBlock.nil _, Nat.zero_le _⟩

theorem block_newByLocal (n : SequenceNumber) : (newByLocal n).Block :=
  ⟨IsBlock.nil _, Nat.zero_le _⟩

theorem Block.pushBack {s : SendStorage} (h : s.Block) (segment : SequentialSegment) :
    (s.pushBack segment).Block :=
  ⟨h.numbers, h.length_le⟩

theorem Block.of_popResult {s s' : SendStorage} {t t' : Instant}
    {r : Option (SequenceNumber × SequentialSegment)} (h : s.Block)
    (hp : PopResult s t t' r s') : s'.Block := by
  obtain ⟨hn, hl⟩ := h
  cases hp with
  | resent e rest hq ht =>
    rw [hq] at hn hl
    have hp : ((e :: rest).map Sent.seqNum).Perm (rest.map Sent.seqNum ++ [e.seqNum]) :=
      (List.perm_append_singleton _ _).symm
    refine ⟨?_, by simpa using hl⟩
    simpa using hn.perm hp
  | fresh segment rest hq hlen =>
    rw [toNat_windowSize] at hlen
    refine ⟨?_, by simp; omega⟩
    have hc := hn.concat (by omega)
    rw [sub_add_cancel] at hc
    simpa using hc
  | idle _ => exact ⟨hn, hl⟩

/-- The distance of an entry in flight from the highest number. -/
theorem Block.dist_lt {s : SendStorage} (h : s.Block) {e : Sent} (he : e ∈ s.queueSent) :
    (s.nextUnsent - 1 - e.seqNum).toNat < s.queueSent.length :=
  (h.numbers.mem_iff _).1 (List.mem_map_of_mem he)

/-- For an entry in flight and an issued number, the comparison of the loop of `acknowledge` says
that the entry was issued no later than the number. -/
theorem Block.sub_lt_iff {s : SendStorage} (h : s.Block) {e : Sent} (he : e ∈ s.queueSent)
    {n : SequenceNumber} (hn : s.nextUnsent - n < windowSize) (hne : n ≠ s.nextUnsent) :
    n - e.seqNum < windowSize ↔
      (s.nextUnsent - 1 - n).toNat ≤ (s.nextUnsent - 1 - e.seqNum).toNat := by
  have hd := h.dist_lt he
  have hl := h.length_le
  rw [toNat_windowSize] at hl
  generalize s.nextUnsent = next at *
  generalize e.seqNum = k at *
  simp only [windowSize] at *
  bv_omega

/-- An accepted acknowledgement of an issued number keeps the entries nearer to the top. -/
theorem Block.acknowledge_eq {s : SendStorage} (h : s.Block) {n : SequenceNumber}
    (hn : s.nextUnsent - n < windowSize) (hne : n ≠ s.nextUnsent) :
    s.acknowledge n = (.ok (), { s with queueSent := s.queueSent.filter fun e =>
      (s.nextUnsent - 1 - e.seqNum).toNat < (s.nextUnsent - 1 - n).toNat }) := by
  have hf : s.queueSent.filter (fun e => ¬n - e.seqNum < windowSize) = s.queueSent.filter
      fun e => (s.nextUnsent - 1 - e.seqNum).toNat < (s.nextUnsent - 1 - n).toNat :=
    List.filter_congr fun e he => by simp [h.sub_lt_iff he hn hne]
  rw [acknowledge_of_lt hn, hf]

theorem Block.length_filter {s : SendStorage} (h : s.Block) (m : ℕ) :
    (s.queueSent.filter fun e => (s.nextUnsent - 1 - e.seqNum).toNat < m).length =
      min s.queueSent.length m := by
  have hb := h.numbers.filter m
  rw [List.filter_map] at hb
  have hlen := hb.length_eq (by have := h.length_le; rw [toNat_windowSize] at this; omega)
  rwa [List.length_map] at hlen

theorem Block.filter {s : SendStorage} (h : s.Block) (m : ℕ) :
    Block { s with queueSent := s.queueSent.filter fun e =>
      (s.nextUnsent - 1 - e.seqNum).toNat < m } := by
  have hb := h.numbers.filter m
  rw [List.filter_map, ← h.length_filter m] at hb
  exact ⟨hb, (List.length_filter_le _ _).trans h.length_le⟩

/-- An acknowledgement of the number issued next removes everything in flight, unless a whole
window is. -/
theorem Block.acknowledge_next {s : SendStorage} (h : s.Block)
    (hlen : s.queueSent.length < windowSize.toNat) :
    s.acknowledge s.nextUnsent = (.ok (), { s with queueSent := [] }) := by
  have hlt : s.nextUnsent - s.nextUnsent < windowSize := by
    rw [BitVec.sub_self]
    decide
  have hf : s.queueSent.filter (fun e => ¬s.nextUnsent - e.seqNum < windowSize) = [] := by
    apply List.filter_eq_nil_iff.2
    intro e he
    rw [toNat_windowSize] at hlen
    have hd : (s.nextUnsent - 1 - e.seqNum).toNat < 9 := by
      have := h.dist_lt he
      omega
    have hk : s.nextUnsent - e.seqNum < windowSize := by
      generalize s.nextUnsent = next at *
      generalize e.seqNum = k at *
      simp only [windowSize] at *
      bv_omega
    simp [hk]
  rw [acknowledge_of_lt hlt, hf]

theorem block_of_queueSent_eq_nil {s : SendStorage} (h : s.queueSent = []) : s.Block :=
  ⟨by rw [h]; exact IsBlock.nil _, by simp [h]⟩

theorem Block.acknowledge {s : SendStorage} (h : s.Block) {n : SequenceNumber}
    (hne : n = s.nextUnsent → s.queueSent.length < windowSize.toNat) :
    (s.acknowledge n).2.Block := by
  by_cases hn : s.nextUnsent - n < windowSize
  swap
  · rwa [acknowledge_of_le (BitVec.not_lt.1 hn)]
  by_cases hne' : n = s.nextUnsent
  · subst hne'
    rw [h.acknowledge_next (hne rfl)]
    exact block_of_queueSent_eq_nil rfl
  · rw [h.acknowledge_eq hn hne']
    exact h.filter _

/-- An acknowledgement of a number that is not in flight has no effect, unless it names the
number that is issued next. -/
theorem Block.acknowledge_eq_self {s : SendStorage} (h : s.Block) {n : SequenceNumber}
    (hn : n ∉ s.queueSent.map Sent.seqNum) (hne : n = s.nextUnsent → s.queueSent = []) :
    (s.acknowledge n).2 = s := by
  by_cases hlt : s.nextUnsent - n < windowSize
  swap
  · rw [acknowledge_of_le (BitVec.not_lt.1 hlt)]
  have hf : s.queueSent.filter (fun e => ¬n - e.seqNum < windowSize) = s.queueSent := by
    apply List.filter_eq_self.2
    intro e he
    have hne' : n ≠ s.nextUnsent := fun h0 => by simp [hne h0] at he
    rw [h.numbers.mem_iff, not_lt] at hn
    have hd := h.dist_lt he
    simp only [h.sub_lt_iff he hlt hne', decide_eq_true_eq]
    omega
  rw [acknowledge_of_lt hlt, hf]

/-- An acknowledgement of the number issued next removes the entries less than a window before
it, and so at least the last one. -/
theorem Block.acknowledge_next_ne_self {s : SendStorage} (h : s.Block)
    (hne : s.queueSent ≠ []) : (s.acknowledge s.nextUnsent).2 ≠ s := by
  have hlt : s.nextUnsent - s.nextUnsent < windowSize := by
    rw [sub_self]
    decide
  rw [acknowledge_of_lt hlt]
  have hlast : s.nextUnsent - 1 ∈ s.queueSent.map Sent.seqNum := by
    rw [h.numbers.mem_iff, BitVec.sub_self]
    exact List.length_pos_iff.2 hne
  obtain ⟨e, he, hnum⟩ := List.mem_map.1 hlast
  intro heq
  have := List.filter_eq_self.1 (congrArg SendStorage.queueSent heq) e he
  rw [hnum, sub_sub_cancel] at this
  exact absurd this (by decide)

/-! ### The last segment -/

theorem Block.exists_last {s : SendStorage} (h : s.Block) (hne : s.queueSent ≠ []) :
    ∃ e ∈ s.queueSent, e.seqNum = s.nextUnsent - 1 := by
  have hmem : s.nextUnsent - 1 ∈ s.queueSent.map Sent.seqNum := by
    rw [h.numbers.mem_iff, BitVec.sub_self]
    exact List.length_pos_iff.2 hne
  obtain ⟨e, he, hnum⟩ := List.mem_map.1 hmem
  exact ⟨e, he, hnum⟩

theorem finishedUnchecked_of_queueUnsent {s : SendStorage} (h : s.queueUnsent ≠ []) :
    s.finishedUnchecked = .ok (s.queueUnsent.getLast h = .finish) := by
  have hempty : ¬s.isEmpty := fun he => h (isEmpty_iff.1 he).2
  rw [finishedUnchecked, if_neg hempty, List.getLast?_eq_getLast_of_ne_nil h]

/-- With nothing unsent, the unwrap finds the entry with the highest number. -/
theorem Block.finishedUnchecked_of_last {s : SendStorage} (h : s.Block) (hu : s.queueUnsent = [])
    {e : Sent} (he : e ∈ s.queueSent) (hnum : e.seqNum = s.nextUnsent - 1) :
    s.finishedUnchecked = .ok (e.segment = .finish) := by
  have hempty : ¬s.isEmpty := fun h0 => by simp [(isEmpty_iff.1 h0).1] at he
  obtain ⟨e', he'⟩ := Option.isSome_iff_exists.1 (List.find?_isSome.2
    ⟨e, he, decide_eq_true hnum⟩ : (s.queueSent.find? fun e => e.seqNum = s.nextUnsent - 1).isSome)
  have hmem := List.mem_of_find?_eq_some he'
  have hnum' : e'.seqNum = s.nextUnsent - 1 := by simpa using List.find?_some he'
  obtain rfl := List.inj_on_of_nodup_map h.numbers.nodup hmem he (hnum'.trans hnum.symm)
  rw [finishedUnchecked, if_neg hempty, hu, List.getLast?_nil]
  simp only [he']

/-- With the numbers in flight in a block, the unwrap in `finishedUnchecked` finds its entry. -/
theorem Block.finishedUnchecked_ok {s : SendStorage} (h : s.Block) :
    ∃ b, s.finishedUnchecked = .ok b := by
  by_cases hu : s.queueUnsent = []
  swap
  · exact ⟨_, finishedUnchecked_of_queueUnsent hu⟩
  by_cases hs : s.queueSent = []
  · exact ⟨_, finishedUnchecked_of_isEmpty (isEmpty_iff.2 ⟨hs, hu⟩)⟩
  obtain ⟨e, he, hnum⟩ := h.exists_last hs
  exact ⟨_, h.finishedUnchecked_of_last hu he hnum⟩

/-- A transmission does not change which segment is the last. -/
theorem Block.finishedUnchecked_popResult {s s' : SendStorage} {t t' : Instant}
    {r : Option (SequenceNumber × SequentialSegment)} (h : s.Block)
    (hp : PopResult s t t' r s') : s'.finishedUnchecked = s.finishedUnchecked := by
  have hb := h.of_popResult hp
  cases hp with
  | idle _ => rfl
  | fresh segment rest hq hlen =>
    by_cases hr : rest = []
    · subst hr
      rw [hb.finishedUnchecked_of_last rfl (e := ⟨s.nextUnsent, segment, t'⟩) (by simp) (by simp),
        finishedUnchecked_of_queueUnsent (by simp [hq])]
      simp [hq]
    · rw [finishedUnchecked_of_queueUnsent hr, finishedUnchecked_of_queueUnsent (by simp [hq])]
      simp [hq, List.getLast_cons hr]
  | resent e rest hq ht =>
    by_cases hu : s.queueUnsent = []
    swap
    · rw [finishedUnchecked_of_queueUnsent hu]
      exact finishedUnchecked_of_queueUnsent
        (s := { s with queueSent := rest ++ [{ e with lastPop := t' }] }) hu
    obtain ⟨d, hd, hnum⟩ := h.exists_last (by simp [hq])
    rw [h.finishedUnchecked_of_last hu hd hnum]
    rw [hq] at hd
    rcases List.mem_cons.1 hd with rfl | hd
    · exact hb.finishedUnchecked_of_last hu (e := { d with lastPop := t' }) (by simp) hnum
    · exact hb.finishedUnchecked_of_last hu (List.mem_append_left _ hd) hnum

/-- Nor does an acknowledgement that leaves something. -/
theorem Block.finishedUnchecked_acknowledge {s : SendStorage} (h : s.Block) {n : SequenceNumber}
    (hne : n = s.nextUnsent → s.queueSent.length < windowSize.toNat) :
    (s.acknowledge n).2.isEmpty ∨ (s.acknowledge n).2.finishedUnchecked = s.finishedUnchecked := by
  have hb := h.acknowledge hne
  obtain ⟨hu, hn, hsub⟩ : (s.acknowledge n).2.queueUnsent = s.queueUnsent ∧
      (s.acknowledge n).2.nextUnsent = s.nextUnsent ∧
      ∀ e ∈ (s.acknowledge n).2.queueSent, e ∈ s.queueSent := by
    by_cases hlt : s.nextUnsent - n < windowSize
    · rw [acknowledge_of_lt hlt]
      exact ⟨rfl, rfl, fun e he => (List.mem_filter.1 he).1⟩
    · rw [acknowledge_of_le (BitVec.not_lt.1 hlt)]
      exact ⟨rfl, rfl, fun e he => he⟩
  by_cases hq : s.queueUnsent = []
  swap
  · right
    rw [finishedUnchecked_of_queueUnsent hq, finishedUnchecked_of_queueUnsent (by rwa [hu])]
    simp
  by_cases hs : (s.acknowledge n).2.queueSent = []
  · exact .inl (isEmpty_iff.2 ⟨hs, hu.trans hq⟩)
  · obtain ⟨e, he, hnum⟩ := hb.exists_last hs
    right
    rw [hb.finishedUnchecked_of_last (hu.trans hq) he hnum,
      h.finishedUnchecked_of_last hq (hsub e he) (hnum.trans (by rw [hn]))]

theorem Block.push_ok {s : SendStorage} (h : s.Block) {segment : SequentialSegment}
    (hs : segment ≠ .accept) :
    s.push segment = .ok (.error connWriteFinished, s) ∨
      s.push segment = .ok (.ok (), s.pushBack segment) := by
  obtain ⟨b, hb⟩ := h.finishedUnchecked_ok
  rw [push_eq hs, hb]
  cases b with
  | true => exact .inl rfl
  | false => exact .inr rfl

end SendStorage

/-! ## Runs -/

/-- The calls on a send storage; only `Data` and `Finish` are ever pushed. -/
inductive SendEvent
  | push (segment : SequentialSegment) (h : segment ≠ .accept)
  | pop (t t' : Instant)
  | acknowledge (ackNum : SequenceNumber)

/-- One call; a call that returns an error leaves the storage to the next one. -/
def sendStep (s : SendStorage) : SendEvent → Exec SendStorage
  | .push segment _ => (s.push segment).map Prod.snd
  | .pop t t' => (s.pop t t').map Prod.snd
  | .acknowledge ackNum => .ok (s.acknowledge ackNum).2

/-- The acknowledgement, if the call is one, does not name the number issued next, or nothing is
in flight. -/
def AcksIssued (s : SendStorage) : SendEvent → Prop
  | .acknowledge n => n = s.nextUnsent → s.queueSent = []
  | _ => True

instance (s : SendStorage) (e : SendEvent) : Decidable (AcksIssued s e) := by
  cases e <;> unfold AcksIssued <;> infer_instance

/-- The storage withstands the call: the numbers in flight are a block, the call returns, and an
acknowledgement of a number that is not in flight has no effect. -/
structure Withstands (s : SendStorage) (e : SendEvent) : Prop where
  block : s.Block
  returns : ∃ s', sendStep s e = .ok s'
  noEffect : ∀ n, e = .acknowledge n → n ∉ s.queueSent.map Sent.seqNum → (s.acknowledge n).2 = s

theorem withstands_iff_acksIssued {s : SendStorage} (h : s.Block) (e : SendEvent) :
    Withstands s e ↔ AcksIssued s e := by
  constructor
  · rintro ⟨-, -, hno⟩
    cases e with
    | push _ _ => trivial
    | pop _ _ => trivial
    | acknowledge n =>
    rintro rfl
    by_contra hne
    refine h.acknowledge_next_ne_self hne (hno _ rfl ?_)
    rw [h.numbers.mem_iff, sub_right_comm, BitVec.sub_self]
    have := h.length_le
    rw [toNat_windowSize] at this
    simp
    omega
  · intro ha
    refine ⟨h, ?_, fun n he hn => h.acknowledge_eq_self hn (by subst he; exact ha)⟩
    cases e with
    | push segment hs =>
      rcases h.push_ok hs with hp | hp
      · exact ⟨s, by rw [sendStep, hp]; rfl⟩
      · exact ⟨s.pushBack segment, by rw [sendStep, hp]; rfl⟩
    | pop t t' =>
      obtain ⟨r, s', hp, -⟩ := s.pop_result t t' h.length_le
      exact ⟨s', by rw [sendStep, hp]; rfl⟩
    | acknowledge n => exact ⟨_, rfl⟩

theorem block_sendStep {s s' : SendStorage} {e : SendEvent} (h : s.Block) (ha : AcksIssued s e)
    (hs : sendStep s e = .ok s') : s'.Block := by
  cases e with
  | push segment hne =>
    rcases h.push_ok hne with hp | hp <;> rw [sendStep, hp] at hs <;> cases hs
    · exact h
    · exact h.pushBack _
  | pop t t' =>
    obtain ⟨r, s₁, hp, hr⟩ := s.pop_result t t' h.length_le
    rw [sendStep, hp] at hs
    cases hs
    exact h.of_popResult hr
  | acknowledge n =>
    cases hs
    exact h.acknowledge fun hn => by rw [ha hn]; decide

/-- **The sender withstands arbitrary acknowledgement numbers** in exactly the runs in which no
acknowledgement names the number issued next while something is in flight. Such a run reaches a
state, and the numbers in flight there are a block. -/
theorem along_withstands_iff (n : SequenceNumber) {s : SendStorage}
    (hs : s = .newByPeer n ∨ s = .newByLocal n) (es : List SendEvent) :
    (Along sendStep Withstands s es ↔ Along sendStep AcksIssued s es) ∧
      (Along sendStep AcksIssued s es → ∃ t, run sendStep s es = .ok t ∧ t.Block) := by
  have h : s.Block := by
    rcases hs with rfl | rfl
    · exact SendStorage.block_newByPeer n
    · exact SendStorage.block_newByLocal n
  have hiff : Along sendStep AcksIssued s es ↔ Along sendStep Withstands s es :=
    along_congr SendStorage.Block (fun s e h => (withstands_iff_acksIssued h e).symm)
      (fun s e s' h ha hst => block_sendStep h ha hst) h es
  refine ⟨hiff.symm, fun ha => ?_⟩
  obtain ⟨t, ht⟩ := ((hiff.1 ha).mono fun _ _ hw => hw.returns).run_ok
  exact ⟨t, ht, run_invariant SendStorage.Block (fun s e s' h ha hst => block_sendStep h ha hst)
    h ha ht⟩

/-- A data segment of one byte. -/
def oneByte (b : UInt8) : DataSegment := ⟨[b], by simp, by simp [maxDataLen, maxSegmentLen]⟩

/-- A full window of data, sent. -/
def sendWindow : List SendEvent :=
  List.replicate 10 (.push (.data (oneByte 0)) (data_ne_accept _)) ++ List.replicate 10 (.pop 0 0)

/-- A window is sent and its fifth number acknowledged. -/
theorem along_withstands_sendWindow :
    Along sendStep Withstands (.newByLocal 0) (sendWindow ++ [.acknowledge 5]) :=
  (along_withstands_iff 0 (.inr rfl) _).1.2 (by decide)

/-- After an acknowledgement of the number issued next, with a full window in flight, only the
oldest entry is left, and the next `push` panics. -/
theorem acknowledge_next_breaks_block :
    ∃ t, run sendStep (.newByLocal 0) (sendWindow ++ [.acknowledge 11]) = .ok t ∧
      t.queueSent.map Sent.seqNum = [1] ∧ ¬t.Block ∧ t.push .finish = .error .panic := by
  refine ⟨⟨[⟨1, .data (oneByte 0), 0⟩], [], 11⟩, by decide, by decide, fun h => ?_, by decide⟩
  exact absurd ((h.numbers.mem_iff 10).2 (by decide)) (by decide)

end Mdswp
