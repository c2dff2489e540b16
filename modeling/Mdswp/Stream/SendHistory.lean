import Mdswp.Stream.SendBlock

/-!
# The history of a send storage

A `SendHistory` is a send storage with what has happened to it. The segments that `push` has
accepted are counted from `0`; the counter is the identity of a segment, which its number alone is
not, for numbers wrap around. `inFlight` is `queueSent` with the counters, and `transmissions`
lists what `pop` has returned. None of this influences a call.

* `history_conserves`: every accepted segment is unsent, in flight or removed, exactly one of
  these, and each is sent with its own number, for the first time in the order of the counters;
* `acknowledge_cumulative`: an accepted acknowledgement of an issued number removes exactly what
  was issued no later than that number.
-/

namespace Mdswp

open Serial

/-- What a `pop` has returned, and the counter of the segment. -/
structure Transmission where
  index : ℕ
  seqNum : SequenceNumber
  segment : SequentialSegment
  deriving DecidableEq

structure SendHistory where
  storage : SendStorage
  /-- The number of the first segment. -/
  start : SequenceNumber
  /-- Every segment that `push` has accepted, in order; the constructor may have pushed `Accept`. -/
  accepted : List SequentialSegment
  /-- How many of them have been sent. -/
  issued : ℕ
  /-- The entries of `queueSent`, with their counters. -/
  inFlight : List (ℕ × Sent)
  /-- The counters of the entries that accepted acknowledgements have removed. -/
  removed : List ℕ
  transmissions : List Transmission
  /-- The last reading of the clock. -/
  clock : Instant

inductive SendCall
  | push (segment : SequentialSegment)
  | pop (t t' : Instant)
  | acknowledge (ackNum : SequenceNumber)

namespace SendHistory

/-- A new storage. -/
def new (s : SendStorage) : SendHistory where
  storage := s
  start := s.nextUnsent
  accepted := s.queueUnsent
  issued := 0
  inFlight := []
  removed := []
  transmissions := []
  clock := 0

/-- `pop` has returned a segment; it is a new one if `queueUnsent` has become shorter, and else the
one that was at the front of `queueSent`. -/
def popped (h : SendHistory) (n : SequenceNumber) (segment : SequentialSegment) (t' : Instant)
    (s : SendStorage) : SendHistory :=
  if s.queueUnsent.length < h.storage.queueUnsent.length then
    { h with
      storage := s
      issued := h.issued + 1
      inFlight := h.inFlight ++ [(h.issued, ⟨n, segment, t'⟩)]
      transmissions := h.transmissions ++ [⟨h.issued, n, segment⟩]
      clock := t' }
  else
    let resent := h.inFlight.take 1
    { h with
      storage := s
      inFlight := h.inFlight.drop 1 ++ resent.map fun x => (x.1, { x.2 with lastPop := t' })
      transmissions := h.transmissions ++ resent.map fun x => ⟨x.1, n, segment⟩
      clock := t' }

/-- An acknowledgement has been accepted. -/
def acknowledged (h : SendHistory) (ackNum : SequenceNumber) (s : SendStorage) : SendHistory :=
  { h with
    storage := s
    inFlight := h.inFlight.filter fun x => ¬ackNum - x.2.seqNum < windowSize
    removed := h.removed ++
      (h.inFlight.filter fun x => ackNum - x.2.seqNum < windowSize).map Prod.fst }

end SendHistory

def historyStep (h : SendHistory) : SendCall → Exec SendHistory
  | .push segment =>
    match h.storage.push segment with
    | .error f => .error f
    | .ok (.error _, s) => .ok { h with storage := s }
    | .ok (.ok (), s) => .ok { h with storage := s, accepted := h.accepted ++ [segment] }
  | .pop t t' =>
    match h.storage.pop t t' with
    | .error f => .error f
    | .ok (none, s) => .ok { h with storage := s, clock := t' }
    | .ok (some (n, segment), s) => .ok (h.popped n segment t' s)
  | .acknowledge ackNum =>
    match h.storage.acknowledge ackNum with
    | (.error _, s) => .ok { h with storage := s }
    | (.ok (), s) => .ok (h.acknowledged ackNum s)

/-! ## What a call can do -/

/-- The outcomes of a call that returns. -/
inductive HistoryResult (h : SendHistory) : SendCall → SendHistory → Prop
  | refused (segment : SequentialSegment) : HistoryResult h (.push segment) h
  | pushed (segment : SequentialSegment) :
    HistoryResult h (.push segment)
      { h with storage := h.storage.pushBack segment, accepted := h.accepted ++ [segment] }
  | resent (t t' : Instant) (k : ℕ) (e : Sent) (rest : List (ℕ × Sent))
      (hq : h.inFlight = (k, e) :: rest) :
    HistoryResult h (.pop t t')
      { h with
        storage := { h.storage with
          queueSent := rest.map Prod.snd ++ [{ e with lastPop := t' }] }
        inFlight := rest ++ [(k, { e with lastPop := t' })]
        transmissions := h.transmissions ++ [⟨k, e.seqNum, e.segment⟩]
        clock := t' }
  | fresh (t t' : Instant) (segment : SequentialSegment) (rest : List SequentialSegment)
      (hq : h.storage.queueUnsent = segment :: rest)
      (hlen : h.storage.queueSent.length < windowSize.toNat) :
    HistoryResult h (.pop t t')
      { h with
        storage :=
          { queueSent := h.storage.queueSent ++ [⟨h.storage.nextUnsent, segment, t'⟩]
            queueUnsent := rest
            nextUnsent := h.storage.nextUnsent + 1 }
        issued := h.issued + 1
        inFlight := h.inFlight ++ [(h.issued, ⟨h.storage.nextUnsent, segment, t'⟩)]
        transmissions := h.transmissions ++ [⟨h.issued, h.storage.nextUnsent, segment⟩]
        clock := t' }
  | idle (t t' : Instant) : HistoryResult h (.pop t t') { h with clock := t' }
  | rejected (n : SequenceNumber) (hn : windowSize ≤ h.storage.nextUnsent - n) :
    HistoryResult h (.acknowledge n) h
  | removed (n : SequenceNumber) (hn : h.storage.nextUnsent - n < windowSize) :
    HistoryResult h (.acknowledge n) (h.acknowledged n (h.storage.acknowledge n).2)

variable {h h' : SendHistory} {e : SendCall}

/-- A `push` that returns changes nothing or appends the segment. -/
theorem SendStorage.push_cases {s : SendStorage} {segment : SequentialSegment}
    {x : IoResult Unit × SendStorage} (hp : s.push segment = .ok x) :
    x = (.error connWriteFinished, s) ∨ x = (.ok (), s.pushBack segment) := by
  by_cases hne : segment = .accept
  · subst hne
    rw [push] at hp
    split_ifs at hp
    exact .inr (Except.ok.inj hp).symm
  · exact (push_eq_ok hne hp).imp And.right And.right

theorem historyStep_result (htag : h.inFlight.map Prod.snd = h.storage.queueSent)
    (hs : historyStep h e = .ok h') : HistoryResult h e h' := by
  cases e with
  | push segment =>
    rw [historyStep] at hs
    cases hp : h.storage.push segment with
    | error f => simp [hp] at hs
    | ok x =>
      rw [hp] at hs
      rcases SendStorage.push_cases hp with rfl | rfl
      · obtain rfl := Except.ok.inj hs
        exact .refused segment
      · obtain rfl := Except.ok.inj hs
        exact .pushed segment
  | pop t t' =>
    rw [historyStep] at hs
    cases hp : h.storage.pop t t' with
    | error f => simp [hp] at hs
    | ok x =>
      obtain ⟨r, s⟩ := x
      rw [hp] at hs
      cases SendStorage.PopResult.of_pop hp with
      | resent e rest hq ht =>
        obtain rfl := Except.ok.inj hs
        rw [hq] at htag
        obtain ⟨⟨k, e'⟩, rest', hflight, rfl, rfl⟩ := List.map_eq_cons_iff.1 htag
        have hnot : ¬h.storage.queueUnsent.length < h.storage.queueUnsent.length :=
          Nat.lt_irrefl _
        rw [SendHistory.popped, if_neg hnot, hflight]
        exact .resent t t' k e' rest' hflight
      | fresh segment rest hq hlen =>
        obtain rfl := Except.ok.inj hs
        have hlt : rest.length < h.storage.queueUnsent.length := by simp [hq]
        rw [SendHistory.popped, if_pos hlt]
        exact .fresh t t' segment rest hq hlen
      | idle _ =>
        obtain rfl := Except.ok.inj hs
        exact .idle t t'
  | acknowledge n =>
    rw [historyStep] at hs
    by_cases hn : h.storage.nextUnsent - n < windowSize
    · have hres := HistoryResult.removed n hn
      rw [SendStorage.acknowledge_of_lt hn] at hs hres
      obtain rfl := Except.ok.inj hs
      exact hres
    · rw [SendStorage.acknowledge_of_le (BitVec.not_lt.1 hn)] at hs
      obtain rfl := Except.ok.inj hs
      exact .rejected n (BitVec.not_lt.1 hn)

/-! ## Conservation -/

/-- Where the accepted segments are, and what has been sent. -/
structure Conserved (h : SendHistory) : Prop where
  inFlight_eq : h.inFlight.map Prod.snd = h.storage.queueSent
  /-- The accepted segments that have not been sent are unsent, in the order of acceptance. -/
  unsent_eq : h.storage.queueUnsent = h.accepted.drop h.issued
  issued_le : h.issued ≤ h.accepted.length
  /-- Each of the others is in flight or removed, once. -/
  places : (h.inFlight.map Prod.fst ++ h.removed).Perm (List.range h.issued)
  window : h.storage.queueSent.length ≤ windowSize.toNat
  next_eq : h.storage.nextUnsent = nth h.start h.issued
  entry : ∀ x ∈ h.inFlight,
    x.2.seqNum = nth h.start x.1 ∧ h.accepted[x.1]? = some x.2.segment
  /-- Every transmission of a segment, the first one and the later ones, has its number and its
  contents. -/
  sent : ∀ x ∈ h.transmissions,
    x.index < h.issued ∧ x.seqNum = nth h.start x.index ∧ h.accepted[x.index]? = some x.segment
  sent_all : ∀ k < h.issued, k ∈ h.transmissions.map Transmission.index
  /-- A segment is sent only after all earlier ones. -/
  sent_inOrder : ∀ (i : ℕ) (x : Transmission), h.transmissions[i]? = some x →
    ∀ k < x.index, k ∈ (h.transmissions.take i).map Transmission.index

theorem Conserved.index_lt (hc : Conserved h) {x : ℕ × Sent} (hx : x ∈ h.inFlight) :
    x.1 < h.issued := by
  apply List.mem_range.1
  apply hc.places.mem_iff.1
  exact List.mem_append_left _ (List.mem_map_of_mem hx)

theorem conserved_new {s : SendStorage} (hs : s.queueSent = []) :
    Conserved (SendHistory.new s) where
  inFlight_eq := hs.symm
  unsent_eq := rfl
  issued_le := Nat.zero_le _
  places := .nil
  window := by simp [SendHistory.new, hs]
  next_eq := (nth_zero _).symm
  entry := by simp [SendHistory.new]
  sent := by simp [SendHistory.new]
  sent_all := by simp [SendHistory.new]
  sent_inOrder := by simp [SendHistory.new]

theorem getElem?_append_of_some {α : Type*} {l : List α} {i : ℕ} {a : α} (h : l[i]? = some a)
    (l' : List α) : (l ++ l')[i]? = some a := by
  obtain ⟨hi, -⟩ := List.getElem?_eq_some_iff.1 h
  rw [List.getElem?_append_left hi, h]

theorem Conserved.pushed (hc : Conserved h) (segment : SequentialSegment) :
    Conserved { h with
      storage := h.storage.pushBack segment
      accepted := h.accepted ++ [segment] } where
  inFlight_eq := hc.inFlight_eq
  unsent_eq := by
    rw [List.drop_append_of_le_length hc.issued_le, ← hc.unsent_eq]
    rfl
  issued_le := by
    have := hc.issued_le
    simp only [List.length_append]
    omega
  places := hc.places
  window := hc.window
  next_eq := hc.next_eq
  entry := fun x hx => ⟨(hc.entry x hx).1, getElem?_append_of_some (hc.entry x hx).2 _⟩
  sent := fun x hx => by
    obtain ⟨hlt, hnum, hseg⟩ := hc.sent x hx
    exact ⟨hlt, hnum, getElem?_append_of_some hseg _⟩
  sent_all := hc.sent_all
  sent_inOrder := hc.sent_inOrder

/-- One more transmission, of a segment all of whose predecessors have been sent. -/
theorem Conserved.sent_inOrder_concat (hc : Conserved h) {x : Transmission}
    (hx : x.index ≤ h.issued) (i : ℕ) (y : Transmission)
    (hy : (h.transmissions ++ [x])[i]? = some y) :
    ∀ k < y.index, k ∈ ((h.transmissions ++ [x]).take i).map Transmission.index := by
  intro k hk
  rcases Nat.lt_or_ge i h.transmissions.length with hi | hi
  · rw [List.getElem?_append_left hi] at hy
    rw [List.take_append_of_le_length hi.le]
    exact hc.sent_inOrder i y hy k hk
  · rw [List.getElem?_append_right hi] at hy
    obtain ⟨hzero, hxy⟩ := List.getElem?_eq_some_iff.1 hy
    simp only [List.length_singleton, Nat.lt_one_iff] at hzero
    simp only [hzero, List.getElem_cons_zero] at hxy
    subst hxy
    rw [show i = h.transmissions.length by omega, List.take_left]
    exact hc.sent_all k (by omega)

theorem Conserved.resent (hc : Conserved h) {k : ℕ} {e : Sent} {rest : List (ℕ × Sent)}
    (hq : h.inFlight = (k, e) :: rest) (t' : Instant) :
    Conserved { h with
      storage := { h.storage with queueSent := rest.map Prod.snd ++ [{ e with lastPop := t' }] }
      inFlight := rest ++ [(k, { e with lastPop := t' })]
      transmissions := h.transmissions ++ [⟨k, e.seqNum, e.segment⟩]
      clock := t' } := by
  have hmem : (k, e) ∈ h.inFlight := by simp [hq]
  have hlt : k < h.issued := hc.index_lt hmem
  obtain ⟨hnum, hseg⟩ := hc.entry _ hmem
  constructor
  · simp
  · exact hc.unsent_eq
  · exact hc.issued_le
  · have hplaces := hc.places
    rw [hq, List.map_cons] at hplaces
    simp only [List.map_append, List.map_cons, List.map_nil]
    exact ((List.perm_append_singleton _ _).append_right _).trans hplaces
  · have hwindow := hc.window
    rw [← hc.inFlight_eq, hq] at hwindow
    simpa using hwindow
  · exact hc.next_eq
  · intro x hx
    rcases List.mem_append.1 hx with hx | hx
    · exact hc.entry x (by simp [hq, hx])
    · rw [List.mem_singleton.1 hx]
      exact ⟨hnum, hseg⟩
  · intro x hx
    rcases List.mem_append.1 hx with hx | hx
    · exact hc.sent x hx
    · rw [List.mem_singleton.1 hx]
      exact ⟨hlt, hnum, hseg⟩
  · intro j hj
    rw [List.map_append]
    exact List.mem_append_left _ (hc.sent_all j hj)
  · exact hc.sent_inOrder_concat hlt.le

theorem Conserved.fresh (hc : Conserved h) {segment : SequentialSegment}
    {rest : List SequentialSegment} (hq : h.storage.queueUnsent = segment :: rest)
    (hlen : h.storage.queueSent.length < windowSize.toNat) (t' : Instant) :
    Conserved { h with
      storage :=
        { queueSent := h.storage.queueSent ++ [⟨h.storage.nextUnsent, segment, t'⟩]
          queueUnsent := rest
          nextUnsent := h.storage.nextUnsent + 1 }
      issued := h.issued + 1
      inFlight := h.inFlight ++ [(h.issued, ⟨h.storage.nextUnsent, segment, t'⟩)]
      transmissions := h.transmissions ++ [⟨h.issued, h.storage.nextUnsent, segment⟩]
      clock := t' } := by
  have hdrop : h.accepted.drop h.issued = segment :: rest := hc.unsent_eq.symm.trans hq
  have hlt : h.issued < h.accepted.length := by
    by_contra hle
    rw [List.drop_of_length_le (not_lt.1 hle)] at hdrop
    cases hdrop
  have hseg : h.accepted[h.issued]? = some segment := by
    rw [← List.head?_drop, hdrop, List.head?_cons]
  constructor
  · simp [hc.inFlight_eq]
  · rw [← List.drop_drop, hdrop, List.drop_one, List.tail_cons]
  · exact hlt
  · have hperm : (h.inFlight.map Prod.fst ++ [h.issued] ++ h.removed).Perm
        (h.inFlight.map Prod.fst ++ h.removed ++ [h.issued]) := by
      rw [List.append_assoc, List.append_assoc]
      exact List.perm_append_comm.append_left _
    simp only [List.map_append, List.map_cons, List.map_nil, List.range_succ]
    exact hperm.trans (hc.places.append_right _)
  · simp only [List.length_append, List.length_singleton]
    omega
  · rw [hc.next_eq, nth_succ]
  · intro x hx
    rcases List.mem_append.1 hx with hx | hx
    · exact hc.entry x hx
    · rw [List.mem_singleton.1 hx]
      exact ⟨hc.next_eq, hseg⟩
  · intro x hx
    rcases List.mem_append.1 hx with hx | hx
    · obtain ⟨hxlt, hx⟩ := hc.sent x hx
      exact ⟨hxlt.trans (Nat.lt_succ_self _), hx⟩
    · rw [List.mem_singleton.1 hx]
      exact ⟨Nat.lt_succ_self _, hc.next_eq, hseg⟩
  · intro k hk
    rw [List.map_append]
    rcases Nat.lt_succ_iff_lt_or_eq.1 hk with hk | rfl
    · exact List.mem_append_left _ (hc.sent_all k hk)
    · exact List.mem_append_right _ (by simp)
  · exact hc.sent_inOrder_concat le_rfl

theorem Conserved.acknowledged (hc : Conserved h) {n : SequenceNumber}
    (hn : h.storage.nextUnsent - n < windowSize) :
    Conserved (h.acknowledged n (h.storage.acknowledge n).2) := by
  rw [SendStorage.acknowledge_of_lt hn, SendHistory.acknowledged]
  constructor
  · rw [← hc.inFlight_eq, List.filter_map]
    rfl
  · exact hc.unsent_eq
  · exact hc.issued_le
  · have hp := (List.filter_append_perm
      (fun x : ℕ × Sent => decide (n - x.2.seqNum < windowSize)) h.inFlight).map Prod.fst
    rw [List.map_append] at hp
    refine List.Perm.trans ?_ ((hp.append_right h.removed).trans hc.places)
    simp only [← decide_not]
    rw [List.append_assoc, ← List.append_assoc]
    exact List.perm_append_comm
  · exact (List.length_filter_le _ _).trans hc.window
  · exact hc.next_eq
  · intro x hx
    exact hc.entry x (List.mem_filter.1 hx).1
  · exact hc.sent
  · exact hc.sent_all
  · exact hc.sent_inOrder

theorem conserved_step (hc : Conserved h) (hs : historyStep h e = .ok h') : Conserved h' := by
  cases historyStep_result hc.inFlight_eq hs with
  | refused segment => exact hc
  | pushed segment => exact hc.pushed segment
  | resent t t' k e rest hq => exact hc.resent hq t'
  | fresh t t' segment rest hq hlen => exact hc.fresh hq hlen t'
  | idle t t' => exact { hc with }
  | rejected n hn => exact hc
  | removed n hn => exact hc.acknowledged hn

/-- The storages that the constructors make. -/
def SendStorage.IsNew (s : SendStorage) : Prop :=
  ∃ n, s = .newByPeer n ∨ s = .newByLocal n

theorem SendStorage.IsNew.queueSent {s : SendStorage} (hs : s.IsNew) : s.queueSent = [] := by
  obtain ⟨n, rfl | rfl⟩ := hs <;> rfl

/-- **A send storage neither loses, reorders nor renumbers segments.** In every run of calls that
return, from a new storage, each accepted segment is unsent, in flight or removed; it is sent first
with the number of its counter, after all earlier ones, and later with the same number and
contents; and at most a window is in flight. -/
theorem history_conserves {s : SendStorage} (hs : s.IsNew) {calls : List SendCall}
    (hr : run historyStep (.new s) calls = .ok h) : Conserved h := by
  refine run_invariant (P := fun _ _ => True) Conserved ?_ (conserved_new hs.queueSent) ?_ hr
  · intro h e h' hc _ hstep
    exact conserved_step hc hstep
  · exact along_of_forall_mem (p := fun _ => True) (fun _ _ => trivial) _

def twoSeconds : Instant := 2 * 10 ^ 9

/-- Two segments are sent, around the end of the numbers, and `Accept` again; then its number is
acknowledged. -/
def acceptTwice : List SendCall :=
  [.push (.data (oneByte 0)), .push .finish, .pop 0 0, .pop 0 0, .pop twoSeconds twoSeconds,
    .acknowledge 255]

theorem history_conserves_acceptTwice :
    ∃ h, run historyStep (.new (.newByPeer 255)) acceptTwice = .ok h ∧ Conserved h ∧
      h.accepted = [.accept, .data (oneByte 0), .finish] ∧ h.removed = [0] ∧
      h.inFlight.map Prod.fst = [1] ∧ h.transmissions.map (·.seqNum) = [255, 0, 255] := by
  obtain ⟨h, hr⟩ : ∃ h, run historyStep (.new (.newByPeer 255)) acceptTwice = .ok h := ⟨_, rfl⟩
  refine ⟨h, hr, history_conserves ⟨255, .inl rfl⟩ hr, ?_⟩
  obtain rfl := Except.ok.inj hr
  exact ⟨rfl, rfl, rfl, rfl⟩

/-! ## Acknowledgements of issued numbers -/

/-- The number `n` was last issued at position `p`. Position `0` is that of the number before the
first, and the segment with the counter `k` has position `k + 1`. -/
structure LastIssue (h : SendHistory) (n : SequenceNumber) (p : ℕ) : Prop where
  le : p ≤ h.issued
  eq : nth (h.start - 1) p = n
  last : ∀ q ≤ h.issued, nth (h.start - 1) q = n → q ≤ p

/-- The acknowledgement, if the call is one, names a number that has been issued, or the one before
the first, and not the number issued next. -/
def NamesIssued (h : SendHistory) : SendCall → Prop
  | .acknowledge n => n ≠ h.storage.nextUnsent ∧ ∃ p ≤ h.issued, nth (h.start - 1) p = n
  | _ => True

theorem exists_lastIssue {n : SequenceNumber} (hn : NamesIssued h (.acknowledge n)) :
    ∃ p, LastIssue h n p := by
  obtain ⟨-, q, hq, heq⟩ := hn
  refine ⟨Nat.findGreatest (fun p => nth (h.start - 1) p = n) h.issued, ?_, ?_, ?_⟩
  · exact Nat.findGreatest_le _
  · exact Nat.findGreatest_spec (P := fun p => nth (h.start - 1) p = n) hq heq
  · intro q hq heq
    exact Nat.le_findGreatest hq heq

/-- The counters in flight are all those from some counter on. -/
structure Contiguous (h : SendHistory) : Prop where
  conserved : Conserved h
  upward : ∀ x ∈ h.inFlight, ∀ k, x.1 ≤ k → k < h.issued → k ∈ h.inFlight.map Prod.fst

/-- A segment in flight is among the last `WINDOW_SIZE` that have been issued. -/
theorem Contiguous.issued_le (hc : Contiguous h) {x : ℕ × Sent} (hx : x ∈ h.inFlight) :
    h.issued ≤ x.1 + windowSize.toNat := by
  have hsub : List.range' x.1 (h.issued - x.1) ⊆ h.inFlight.map Prod.fst := by
    intro k hk
    rw [List.mem_range'_1] at hk
    exact hc.upward x hx k hk.1 (by omega)
  have hlen := (List.subperm_of_subset List.nodup_range' hsub).length_le
  rw [List.length_range', List.length_map] at hlen
  have hwindow := hc.conserved.window
  rw [← hc.conserved.inFlight_eq, List.length_map] at hwindow
  omega

/-- The distance of the number issued next from a number that has been issued. -/
theorem LastIssue.toNat_sub {n : SequenceNumber} {p : ℕ} (hc : Conserved h)
    (hp : LastIssue h n p) (hne : n ≠ h.storage.nextUnsent) :
    (h.storage.nextUnsent - n).toNat = h.issued + 1 - p := by
  have hnext : h.storage.nextUnsent = nth (h.start - 1) (h.issued + 1) := by
    rw [hc.next_eq, ← nth_add_one, sub_add_cancel]
  have hlt : h.issued + 1 < p + 2 ^ 8 := by
    by_contra hge
    have hturn := hp.last (p + 2 ^ 8)
    rw [nth_add_two_pow] at hturn
    rcases Nat.lt_or_ge h.issued (p + 2 ^ 8) with hlt | hle
    · apply hne
      rw [hnext, show h.issued + 1 = p + 2 ^ 8 by omega, nth_add_two_pow, hp.eq]
    · have := hturn hle hp.eq
      omega
  have hle := hp.le
  rw [hnext, ← hp.eq, toNat_nth_sub_nth (by omega) hlt]

/-- For a segment in flight and an issued number that `acknowledge` accepts, the comparison of its
loop says that the segment was issued no later than the number. -/
theorem Contiguous.sub_lt_iff (hc : Contiguous h) {n : SequenceNumber} {p : ℕ}
    (hp : LastIssue h n p) (hne : n ≠ h.storage.nextUnsent)
    (hn : h.storage.nextUnsent - n < windowSize) {x : ℕ × Sent} (hx : x ∈ h.inFlight) :
    n - x.2.seqNum < windowSize ↔ x.1 < p := by
  have hd := hp.toNat_sub hc.conserved hne
  have hwindow := hc.issued_le hx
  have hlt := hc.conserved.index_lt hx
  have hle := hp.le
  have hnum : x.2.seqNum = nth (h.start - 1) (x.1 + 1) := by
    rw [(hc.conserved.entry x hx).1, ← nth_add_one, sub_add_cancel]
  rw [BitVec.lt_def, hd] at hn
  rw [BitVec.lt_def, hnum, ← hp.eq]
  rw [toNat_windowSize] at *
  rcases Nat.lt_or_ge x.1 p with hxp | hpx
  · rw [toNat_nth_sub_nth (by omega) (by omega)]
    omega
  · rw [toNat_nth_sub_nth_of_lt (by omega) (by omega)]
    omega

theorem Contiguous.acknowledged (hc : Contiguous h) {n : SequenceNumber}
    (hn : NamesIssued h (.acknowledge n)) (hlt : h.storage.nextUnsent - n < windowSize) :
    Contiguous (h.acknowledged n (h.storage.acknowledge n).2) := by
  obtain ⟨p, hp⟩ := exists_lastIssue hn
  have hiff := fun x hx => hc.sub_lt_iff (x := x) hp hn.1 hlt hx
  refine ⟨hc.conserved.acknowledged hlt, ?_⟩
  intro x hx k hk hki
  obtain ⟨hx, hkeep⟩ := List.mem_filter.1 hx
  rw [decide_eq_true_eq, hiff x hx] at hkeep
  obtain ⟨y, hy, rfl⟩ := List.mem_map.1 (hc.upward x hx k hk hki)
  apply List.mem_map_of_mem
  apply List.mem_filter.2
  rw [decide_eq_true_eq, hiff y hy]
  exact ⟨hy, by omega⟩

theorem contiguous_step (hc : Contiguous h) (hn : NamesIssued h e)
    (hs : historyStep h e = .ok h') : Contiguous h' := by
  have hcons := conserved_step hc.conserved hs
  cases historyStep_result hc.conserved.inFlight_eq hs with
  | refused segment => exact hc
  | pushed segment => exact ⟨hcons, hc.upward⟩
  | resent t t' k e rest hq =>
    refine ⟨hcons, ?_⟩
    have hmem : ∀ j, j ∈ (rest ++ [(k, { e with lastPop := t' })]).map Prod.fst ↔
        j ∈ h.inFlight.map Prod.fst := by
      intro j
      rw [hq]
      simp [or_comm]
    intro x hx j hj hji
    rw [hmem]
    have hx := List.mem_map_of_mem (f := Prod.fst) hx
    rw [hmem] at hx
    obtain ⟨y, hy, hxy⟩ := List.mem_map.1 hx
    exact hc.upward y hy j (hxy ▸ hj) hji
  | fresh t t' segment rest hq hlen =>
    refine ⟨hcons, ?_⟩
    intro x hx k hk hki
    rw [List.map_append]
    rcases Nat.lt_succ_iff_lt_or_eq.1 hki with hki | rfl
    · rcases List.mem_append.1 hx with hx | hx
      · exact List.mem_append_left _ (hc.upward x hx k hk hki)
      · rw [List.mem_singleton.1 hx] at hk
        exact absurd hk (not_le.2 hki)
    · exact List.mem_append_right _ (by simp)
  | idle t t' => exact ⟨hcons, hc.upward⟩
  | rejected n hn => exact hc
  | removed n hlt => exact hc.acknowledged hn hlt

/-- **An accepted acknowledgement is exactly cumulative.** In a storage that calls have reached
whose acknowledgements all name issued numbers, one more such acknowledgement keeps, when it is
accepted, the entries issued after the last issue of its number, and nothing else changes; when it
is rejected nothing changes. -/
theorem acknowledge_cumulative {s : SendStorage} (hs : s.IsNew) {calls : List SendCall}
    (hi : Along historyStep NamesIssued (.new s) calls)
    (hr : run historyStep (.new s) calls = .ok h) {n : SequenceNumber}
    (hn : n ≠ h.storage.nextUnsent) {p : ℕ} (hp : LastIssue h n p) :
    h.storage.queueSent = h.inFlight.map Prod.snd ∧
      (∀ s', h.storage.acknowledge n = (.ok (), s') →
        s' = { h.storage with queueSent := (h.inFlight.filter (p ≤ ·.1)).map Prod.snd }) ∧
      ∀ err s', h.storage.acknowledge n = (.error err, s') → s' = h.storage := by
  have hc : Contiguous h := by
    refine run_invariant Contiguous ?_ ⟨conserved_new hs.queueSent, ?_⟩ hi hr
    · intro h e h' hc hn hstep
      exact contiguous_step hc hn hstep
    · simp [SendHistory.new]
  refine ⟨hc.conserved.inFlight_eq.symm, ?_, ?_⟩
  · intro s' hack
    by_cases hlt : h.storage.nextUnsent - n < windowSize
    · rw [SendStorage.acknowledge_of_lt hlt] at hack
      obtain rfl := (Prod.mk.inj hack).2
      rw [← hc.conserved.inFlight_eq, List.filter_map]
      congr 2
      apply List.filter_congr
      intro x hx
      simp only [Function.comp, hc.sub_lt_iff hp hn hlt hx, not_lt]
    · rw [SendStorage.acknowledge_of_le (BitVec.not_lt.1 hlt)] at hack
      cases (Prod.mk.inj hack).1
  · intro err s' hack
    by_cases hlt : h.storage.nextUnsent - n < windowSize
    · rw [SendStorage.acknowledge_of_lt hlt] at hack
      cases (Prod.mk.inj hack).1
    · rw [SendStorage.acknowledge_of_le (BitVec.not_lt.1 hlt)] at hack
      exact (Prod.mk.inj hack).2.symm

instance (h : SendHistory) (e : SendCall) : Decidable (NamesIssued h e) :=
  match e with
  | .push _ => isTrue trivial
  | .pop _ _ => isTrue trivial
  | .acknowledge n =>
    inferInstanceAs (Decidable (n ≠ h.storage.nextUnsent ∧
      ∃ p ≤ h.issued, nth (h.start - 1) p = n))

/-- Four segments are sent, and the first of them again. -/
def rotation : List SendCall :=
  [.push (.data (oneByte 0)), .push (.data (oneByte 1)), .push .finish] ++
    List.replicate 4 (.pop 0 0) ++ [.pop twoSeconds twoSeconds]

/-- With the numbers `255`, `0`, `1` and `254` in flight, in this order, an acknowledgement of `0`
keeps `1`. -/
theorem acknowledge_cumulative_rotation :
    ∃ h, run historyStep (.new (.newByPeer 254)) rotation = .ok h ∧
      h.storage.queueSent.map Sent.seqNum = [255, 0, 1, 254] ∧
      (h.storage.acknowledge 0).2 = { h.storage with queueSent := [⟨1, .finish, 0⟩] } := by
  have hi : Along historyStep NamesIssued (.new (.newByPeer 254)) rotation := by decide
  exact ⟨_, rfl, rfl, (acknowledge_cumulative ⟨254, .inl rfl⟩ hi rfl (n := 0) (p := 3) (by decide)
    ⟨by decide, by decide, by decide⟩).2.1 _ rfl⟩

end Mdswp
