import Mdswp.Link.Fifo

/-!
# Channels that lose nothing

While every copy is delivered once and in the order of sending, the segments on their way continue
those that have arrived without a gap (`Continues`). Then the receiver holds nothing beyond its
window, `lower_bound` keeps up with it, and every segment is accepted (`Link.Lossless.deliver`).
-/

namespace Mdswp

open Serial

variable {o : Opening} {l : Link} {n m : ℕ}

/-- What is on its way continues what has arrived, up to position `top`, without a gap up to
position `issued`. -/
def Continues : ℕ → List Copy → ℕ → Prop
  | top, [], issued => top = issued
  | top, c :: cs, issued => c.pos ≤ top + 1 ∧ Continues (max top c.pos) cs issued

theorem Continues.concat {top issued : ℕ} {cs : List Copy} {c : Copy}
    (h : Continues top cs issued) (hc : c.pos ≤ issued + 1) :
    Continues top (cs ++ [c]) (max issued c.pos) := by
  induction cs generalizing top with
  | nil =>
    obtain rfl : top = issued := h
    exact ⟨hc, rfl⟩
  | cons d cs ih => exact ⟨h.1, ih h.2⟩

/-- The first `n` copies and the first `m` acknowledgements have been delivered, once and in order,
and no others. -/
structure Link.Lossless (o : Opening) (l : Link) (n m : ℕ) : Prop where
  fifo : l.Fifo o
  copyCursor_le : l.copyCursor ≤ n
  ackCursor_le : l.ackCursor ≤ m
  copies_le : n ≤ l.copies.length
  acks_le : m ≤ l.acks.length
  dense : Receives o l.accepted l.released l.released l.receiver
  dist_le : l.receiver.dist ≤ 10
  continues : Continues l.released (l.copies.drop n) l.issued

theorem Opening.lossless (o : Opening) : o.link.Lossless o 0 0 := by
  refine ⟨o.fifo, le_rfl, le_rfl, Nat.zero_le _, Nat.zero_le _, ?_, o.dist_le, ?_⟩
  · cases o <;> exact Opening.receives _
  · cases o with
    | byLocal n => rfl
    | byPeer n t => exact ⟨Nat.zero_le _, rfl⟩

namespace Link

/-- `push` has accepted the segments. -/
def pushes (l : Link) (segments : List SequentialSegment) : Link :=
  { l with
    sender := { l.sender with queueUnsent := l.sender.queueUnsent ++ segments }
    accepted := l.accepted ++ segments }

namespace Lossless

theorem pushes (h : l.Lossless o n m) {segments : List SequentialSegment}
    (hs : ∀ segment ∈ segments, segment ≠ .accept) : (l.pushes segments).Lossless o n m := by
  refine ⟨?_, h.copyCursor_le, h.ackCursor_le, h.copies_le, h.acks_le, h.dense.append _, h.dist_le,
    h.continues⟩
  have hf := h.fifo
  clear h
  induction segments generalizing l with
  | nil => simpa [Link.pushes] using hf
  | cons segment segments ih =>
    have h₁ := hf.of_result (e := .push segment (hs segment (by simp))) trivial (.pushed segment _)
    simpa [Link.pushes, SendStorage.pushBack] using ih (fun x hx => hs x (by simp [hx])) h₁

/-- A new copy goes to the end of the channel. -/
theorem of_sent (h : l.Lossless o n m) {s : SendStorage} {issued : ℕ} {c : Copy}
    (hf : Fifo o { l with sender := s, issued := issued, copies := l.copies ++ [c] })
    (hnext : c.pos ≤ l.issued + 1 ∧ issued = max l.issued c.pos) :
    Lossless o { l with sender := s, issued := issued, copies := l.copies ++ [c] } n m := by
  refine ⟨hf, h.copyCursor_le, h.ackCursor_le, ?_, h.acks_le, h.dense, h.dist_le, ?_⟩
  · rw [List.length_append]
    exact h.copies_le.trans (Nat.le_add_right _ _)
  · rw [List.drop_append_of_le_length h.copies_le, hnext.2]
    exact h.continues.concat hnext.1

/-- What `pop` returns goes to the end of the channel. -/
theorem sends (h : l.Lossless o n m) {t t' : Instant}
    {x : Option (SequenceNumber × SequentialSegment)} {s : SendStorage}
    (hp : l.sender.pop t t' = .ok (x, s)) :
    ∃ issued cs, cs.map (fun c => (c.seqNum, c.segment)) = x.toList ∧
      Lossless o { l with sender := s, issued := issued, copies := l.copies ++ cs } n m := by
  have hr := h.fifo.inv.pop_result t t'
  rw [linkStep, hp] at hr
  cases x with
  | none =>
    dsimp only at hr
    generalize hl : (.ok { l with sender := s } : Except LinkStop Link) = out at hr
    cases hr with
    | unchanged =>
      refine ⟨l.issued, [], rfl, ?_⟩
      rw [List.append_nil, Except.ok.inj hl]
      exact h
    | sent t t' s' issued c =>
      have := congrArg Link.copies (Except.ok.inj hl)
      simp at this
    | absent => cases hl
  | some x =>
    obtain ⟨k, segment⟩ := x
    have hf : ∀ l', LinkResult o l (.pop t t') (.ok l') → l'.Fifo o :=
      fun _ => h.fifo.of_result trivial
    dsimp only at hr
    generalize hi : l.issued + (s.nextUnsent - l.sender.nextUnsent).toNat = issued at hr
    generalize hl : (.ok { l with
      sender := s
      issued := issued
      copies := l.copies ++ [copyOf issued s k segment] } : Except LinkStop Link) = out at hr
    refine ⟨issued, [copyOf issued s k segment], rfl, ?_⟩
    cases hr with
    | unchanged =>
      have := congrArg Link.copies (Except.ok.inj hl)
      simp at this
    | sent t t' s' issued' c hs hle hlen hpos hlt hnext hnum hc =>
      have hl' := Except.ok.inj hl
      rw [hl']
      exact h.of_sent (hf _ (.sent t t' s' issued' c hs hle hlen hpos hlt hnext hnum hc)) hnext
    | absent => cases hl

/-- The next copy is the one after those that have arrived, or one of them again. -/
theorem deliver (h : l.Lossless o n m) {c : Copy} {cs : List Copy}
    (hn : l.copies.drop n = c :: cs) :
    ∃ r, l.receiver.recv c.seqNum c.segment = .ok (.ok (), r) ∧
      Lossless o { l with receiver := r, copyCursor := max l.copyCursor n } (n + 1) m := by
  have hi : l.copies[n]? = some c := by rw [← List.head?_drop, hn, List.head?_cons]
  have hord : InOrder l (.deliver n) := h.copyCursor_le
  obtain ⟨hpos, hnum, hc⟩ := h.fifo.inv.copies c (List.mem_of_getElem? hi)
  obtain ⟨r, hr⟩ := h.fifo.segmentAccepted hord
    (show RangeFits l (.deliver n) from fun _ _ => by have := h.dist_le; omega) c hi
  refine ⟨r, hr, ?_⟩
  have hstep : linkStep l (.deliver n) =
      .ok { l with receiver := r, copyCursor := max l.copyCursor n } := by
    simp only [linkStep, hi, hr]
  have hcont := h.continues
  rw [hn] at hcont
  obtain ⟨hnext, hcont⟩ := hcont
  obtain ⟨top, htop, hrec, hrecent⟩ := h.fifo.recent
  have hnear := hrecent n c hord hi
  have hrel := hrec.released_le
  obtain ⟨k, hd, hk⟩ : ∃ k, Delivers o l.accepted l.released l.released l.receiver c.pos k r ∧
      l.released + k = max l.released c.pos := by
    rcases h.dense.recv hc (by omega) (by omega) with ⟨err, hr'⟩ | ⟨k, r', hr', hd⟩
    · rw [← hnum, hr] at hr'
      cases hr'
    rw [← hnum, hr] at hr'
    cases hr'
    refine ⟨k, hd, ?_⟩
    have hwin : nth o.base c.pos = l.receiver.window ↔ c.pos = l.released + 1 := by
      rw [h.dense.window_eq, nth_inj (by omega) (by omega)]
    have hle := hd.receives.released_le
    rcases hd.slid with ⟨rfl, hne, -⟩ | ⟨heq, hk1, -, -, -⟩
    · have := hwin.not.1 hne
      omega
    · have := hwin.1 heq
      omega
  have hlen := (h.fifo.inv.prefix_of_delivers (h.fifo.inv.released_le) hpos hd).2
  refine ⟨h.fifo.step hord hstep, max_le (h.copyCursor_le.trans (Nat.le_succ n)) (Nat.le_succ n),
    h.ackCursor_le, (List.getElem?_eq_some_iff.1 hi).1, h.acks_le, ?_, ?_, ?_⟩
  · have hrec' := hd.receives
    rw [← hk, ← hlen] at hrec'
    exact hrec'
  · show r.dist ≤ 10
    have := h.dist_le
    rcases hd.slid with ⟨-, -, hdist⟩ | ⟨-, -, -, -, hdist⟩
    · omega
    · rw [hdist, RecvStorage.deleted]
      split_ifs <;> omega
  · show Continues (l.popped ++ r.popQueue).length (l.copies.drop (n + 1)) l.issued
    rw [hlen, hk, ← List.tail_drop, hn]
    exact hcont

theorem acknowledges (h : l.Lossless o n m) {t t' : Instant} {x : Option SequenceNumber}
    {r : RecvStorage} (hp : l.receiver.popAcknowledge t t' = (x, r)) :
    ∃ as, as.map AckCopy.ackNum = x.toList ∧
      Lossless o { l with receiver := r, acks := l.acks ++ as } n m := by
  refine ⟨x.toList.map (AckCopy.mk l.released), by simp [Function.comp_def], ?_⟩
  have hstep : linkStep l (.popAcknowledge t t') = .ok { l with
      receiver := r
      acks := l.acks ++ x.toList.map (AckCopy.mk l.released) } := by
    rw [linkStep, hp]
    cases x with
    | none => simp
    | some k => rfl
  obtain rfl : (l.receiver.popAcknowledge t t').2 = r := congrArg Prod.snd hp
  have hrel : (l.popped ++ (l.receiver.popAcknowledge t t').2.popQueue).length = l.released := by
    rw [RecvStorage.popAcknowledge_popQueue, released]
  refine ⟨h.fifo.step (e := .popAcknowledge t t') trivial hstep, h.copyCursor_le, h.ackCursor_le,
    h.copies_le, ?_, ?_, ?_, ?_⟩
  · rw [List.length_append]
    exact h.acks_le.trans (Nat.le_add_right _ _)
  · refine (hrel.symm ▸ h.dense.congr ?_ ?_ ?_ : Receives o l.accepted
      (l.popped ++ (l.receiver.popAcknowledge t t').2.popQueue).length _ _)
    · exact RecvStorage.popAcknowledge_segments t t'
    · exact RecvStorage.popAcknowledge_window t t'
    · exact RecvStorage.popAcknowledge_lowerBound t t'
  · simpa [RecvStorage.dist] using h.dist_le
  · exact (hrel.symm ▸ h.continues : Continues
      (l.popped ++ (l.receiver.popAcknowledge t t').2.popQueue).length _ _)

theorem deliverAck (h : l.Lossless o n m) {a : AckCopy} {as : List AckCopy}
    (hm : l.acks.drop m = a :: as) :
    (∃ err, l.sender.acknowledge a.ackNum = (.error err, l.sender)) ∨
      ∃ s, l.sender.acknowledge a.ackNum = (.ok (), s) ∧
        Lossless o { l with sender := s, ackCursor := max l.ackCursor m } n (m + 1) := by
  have hi : l.acks[m]? = some a := by rw [← List.head?_drop, hm, List.head?_cons]
  have hord : InOrder l (.deliverAck m) := h.ackCursor_le
  obtain ⟨hpos, hnum⟩ := h.fifo.inv.acks a (List.mem_of_getElem? hi)
  have hle := hpos.trans h.fifo.inv.released_le
  rcases Nat.lt_or_ge l.issued (a.pos + 9) with hlt | hge
  · obtain ⟨s, hs, -⟩ := h.fifo.inv.sends.acknowledge_ok hle hlt
    rw [← hnum] at hs
    have hstep : linkStep l (.deliverAck m) =
        .ok { l with sender := s, ackCursor := max l.ackCursor m } := by
      simp only [linkStep, hi, hs]
    exact .inr ⟨s, hs, h.fifo.step hord hstep, h.copyCursor_le,
      max_le (h.ackCursor_le.trans (Nat.le_succ m)) (Nat.le_succ m), h.copies_le,
      (List.getElem?_eq_some_iff.1 hi).1, h.dense, h.dist_le, h.continues⟩
  · have hrecent := h.fifo.acks_recent m a hord hi
    have hlen := h.fifo.inv.sends.length_le
    have hs := h.fifo.inv.sends.acknowledge_error hge (by omega)
    rw [← hnum] at hs
    exact .inl ⟨_, hs⟩

theorem read (h : l.Lossless o n m) {segment : SequentialSegment} {rest : List SequentialSegment}
    (hq : l.receiver.popQueue = segment :: rest) :
    Lossless o { l with
      receiver := { l.receiver with popQueue := rest }
      popped := l.popped ++ [segment] } n m := by
  have hrel : (l.popped ++ [segment] ++ rest).length = l.released := by
    rw [List.append_assoc, List.singleton_append, ← hq, released]
  refine ⟨h.fifo.of_result (e := .read) trivial (.reads segment rest hq), h.copyCursor_le,
    h.ackCursor_le, h.copies_le, h.acks_le, ?_, h.dist_le, ?_⟩
  · rw [released, hrel]
    exact h.dense.congr rfl rfl rfl
  · rw [released, hrel]
    exact h.continues

end Lossless

end Link

end Mdswp
