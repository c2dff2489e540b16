import Mdswp.Link.Fifo
import Mdswp.Stream.Drain

/-!
# Recovering from losses

Whatever has been lost, a link can make good for it by what both ends do anyway. In
`exists_complete` nothing is pushed any more, and nothing of what the network holds arrives; the
sender sends again what is overdue, the receiver acknowledges again, and all that had been accepted
is read and acknowledged in the end. The clock runs on all the while, from any time, and what
arrives does so in order.

The receiver has to be able to take what is left (`Link.Recoverable`). Once the lower bound is more
than a window behind it does not move any more, and the range of accepted numbers ends up closed.
-/

namespace Mdswp

open Serial

variable {o : Opening} {l l' l'' : Link} {e : LinkEvent} {n m : ℕ} {t t' t'' : Instant}

/-- The readings of the clock are in order, from `t` on and up to the second one. -/
def Clocked : Instant → List LinkEvent → Instant → Prop
  | t, [], t' => t ≤ t'
  | t, .pop t₁ t₂ :: es, t' => t ≤ t₁ ∧ t₁ ≤ t₂ ∧ Clocked t₂ es t'
  | t, .popAcknowledge t₁ t₂ :: es, t' => t ≤ t₁ ∧ t₁ ≤ t₂ ∧ Clocked t₂ es t'
  | t, .push _ _ :: es, t' => Clocked t es t'
  | t, .deliver _ :: es, t' => Clocked t es t'
  | t, .deliverAck _ :: es, t' => Clocked t es t'
  | t, .read :: es, t' => Clocked t es t'

theorem Clocked.of_le {es : List LinkEvent} (h : Clocked t' es t'') (hle : t ≤ t') :
    Clocked t es t'' := by
  induction es with
  | nil => exact le_trans hle h
  | cons e es ih =>
    cases e with
    | pop t₁ t₂ => exact ⟨le_trans hle h.1, h.2⟩
    | popAcknowledge t₁ t₂ => exact ⟨le_trans hle h.1, h.2⟩
    | push segment hs => exact ih h
    | deliver i => exact ih h
    | deliverAck i => exact ih h
    | read => exact ih h

theorem Clocked.append {es es' : List LinkEvent} (h : Clocked t es t') (h' : Clocked t' es' t'') :
    Clocked t (es ++ es') t'' := by
  induction es generalizing t with
  | nil => exact h'.of_le h
  | cons e es ih =>
    cases e with
    | pop t₁ t₂ => exact ⟨h.1, h.2.1, ih h.2.2⟩
    | popAcknowledge t₁ t₂ => exact ⟨h.1, h.2.1, ih h.2.2⟩
    | push segment hs => exact ih h
    | deliver i => exact ih h
    | deliverAck i => exact ih h
    | read => exact ih h

/-- A step of two ends that carry on by themselves. Of what has been sent before, `n` copies and `m`
acknowledgements, nothing arrives. -/
structure Retries (n m : ℕ) (l : Link) (e : LinkEvent) : Prop where
  timely : Timely l e
  inOrder : InOrder l e
  fresh : match e with
    | .push _ _ => False
    | .deliver i => n ≤ i
    | .deliverAck i => m ≤ i
    | _ => True

namespace Link

/-- How many accepted segments the receiver has not released. -/
def pending (l : Link) : ℕ := l.accepted.length - l.released

/-- The range of accepted numbers stays open until all segments have been released: there are few
enough of them, or the lower bound will keep up with the window. -/
def Recoverable (l : Link) : Prop :=
  l.receiver.dist + l.pending ≤ 245 ∨ l.receiver.dist ≤ 10 ∧
    (l.receiver.dist = 10 → ¬Filled l.receiver.segments (l.receiver.window + 1) 9)

instance (l : Link) : Decidable l.Recoverable := inferInstanceAs (Decidable (_ ∨ _))

/-- The ends carry on from `l` to `l'`, at times from `t` to `t'`. -/
def Reaches (n m : ℕ) (t : Instant) (l : Link) (t' : Instant) (l' : Link) : Prop :=
  ∃ es, Along linkStep (Retries n m) l es ∧ run linkStep l es = .ok l' ∧ Clocked t es t'

namespace Reaches

theorem refl (h : t ≤ t') (l : Link) : Reaches n m t l t' l := ⟨[], trivial, rfl, h⟩

theorem trans (h : Reaches n m t l t' l') (h' : Reaches n m t' l' t'' l'') :
    Reaches n m t l t'' l'' := by
  obtain ⟨es, hP, hr, hc⟩ := h
  obtain ⟨es', hP', hr', hc'⟩ := h'
  exact ⟨es ++ es', hP.append hr hP', (run_append hr es').trans hr', hc.append hc'⟩

theorem single (he : Retries n m l e) (hs : linkStep l e = .ok l') (hc : Clocked t [e] t') :
    Reaches n m t l t' l' :=
  ⟨[e], ⟨he, fun _ _ => trivial⟩, run_singleton hs, hc⟩

end Reaches

/-- The invariant of a link, `n` copies and `m` acknowledgements into a run. -/
structure Past (o : Opening) (n m : ℕ) (l : Link) : Prop where
  inv : l.Inv o
  copies : n ≤ l.copies.length
  acks : m ≤ l.acks.length
  copyCursor : l.copyCursor ≤ l.copies.length
  ackCursor : l.ackCursor ≤ l.acks.length

namespace Past

theorem step (h : l.Past o n m) (ht : Timely l e) (hs : linkStep l e = .ok l') :
    l'.Past o n m := by
  have hinv := h.inv.step ht hs
  have hr := h.inv.linkStep_result ht
  rw [hs] at hr
  cases hr with
  | unchanged => exact h
  | pushed => exact ⟨hinv, h.copies, h.acks, h.copyCursor, h.ackCursor⟩
  | sent =>
    refine ⟨hinv, ?_, h.acks, ?_, h.ackCursor⟩ <;> rw [List.length_append]
    · exact h.copies.trans (Nat.le_add_right _ _)
    · exact h.copyCursor.trans (Nat.le_add_right _ _)
  | delivered i c k r hi =>
    have hlt := (List.getElem?_eq_some_iff.1 hi).1
    exact ⟨hinv, h.copies, h.acks, max_le h.copyCursor hlt.le, h.ackCursor⟩
  | acknowledges =>
    refine ⟨hinv, h.copies, ?_, h.copyCursor, ?_⟩ <;> rw [List.length_append]
    · exact h.acks.trans (Nat.le_add_right _ _)
    · exact h.ackCursor.trans (Nat.le_add_right _ _)
  | acked i a s hi =>
    have hlt := (List.getElem?_eq_some_iff.1 hi).1
    exact ⟨hinv, h.copies, h.acks, h.copyCursor, max_le h.ackCursor hlt.le⟩
  | reads => exact ⟨hinv, h.copies, h.acks, h.copyCursor, h.ackCursor⟩

theorem reaches (h : l.Past o n m) (hr : Reaches n m t l t' l') : l'.Past o n m := by
  obtain ⟨es, hP, hrun, -⟩ := hr
  exact run_invariant (Past o n m) (fun _ _ _ h he hs => h.step he.timely hs) h hP hrun

/-! ## Sending again -/

end Past

/-- The sender sends copies. -/
def sending (l : Link) (s : SendStorage) (cs : List Copy) : Link :=
  { l with sender := s, copies := l.copies ++ cs }

theorem sending_sending (l : Link) (s s' : SendStorage) (cs cs' : List Copy) :
    (l.sending s cs).sending s' cs' = l.sending s' (cs ++ cs') := by
  simp [sending]

namespace Past

theorem pop_overdue (h : l.Past o n m) {x : Sent} {rest : List Sent}
    (hq : l.sender.queueSent = x :: rest) (hx : x.Overdue t) :
    ∃ c : Copy, (∀ pos ≤ l.issued, l.issued < pos + 256 → x.seqNum = nth o.base pos → c.pos = pos) ∧
      Reaches n m t l t (l.sending
        { l.sender with queueSent := rest ++ [{ x with lastPop := t }] } [c]) := by
  refine ⟨⟨l.issued - (l.sender.nextUnsent - 1 - x.seqNum).toNat, x.seqNum, x.segment⟩,
    fun pos hle hlt hnum => ?_, ?_⟩
  · rw [h.inv.sends.dist_eq hle hlt hnum]
    exact Nat.sub_sub_self hle
  · refine .single (e := .pop t t) ⟨trivial, trivial, trivial⟩ ?_ ⟨le_rfl, le_rfl, le_rfl⟩
    rw [linkStep, SendStorage.pop_of_overdue hq hx]
    simp [Sent.transmission, copyOf, sending]

/-- The sender goes through the overdue segments in flight, up to the one at a position. -/
theorem pop_until (h : l.Past o n m) {pos j : ℕ} {x : Sent} (hpos : pos ≤ l.issued)
    (hlt : l.issued < pos + 256) (hx : x.seqNum = nth o.base pos)
    (hj : l.sender.queueSent[j]? = some x)
    (hdue : ∀ y ∈ l.sender.queueSent.take (j + 1), y.Overdue t) :
    ∃ s cs, ∃ c : Copy, c.pos = pos ∧ Reaches n m t l t (l.sending s (cs ++ [c])) := by
  induction j generalizing l with
  | zero =>
    obtain ⟨rest, hq⟩ : ∃ rest, l.sender.queueSent = x :: rest := by
      cases hq : l.sender.queueSent with
      | nil => simp [hq] at hj
      | cons y rest =>
        rw [hq] at hj
        obtain rfl := Option.some.inj hj
        exact ⟨rest, rfl⟩
    obtain ⟨c, hc, hr⟩ := h.pop_overdue hq (hdue x (by simp [hq]))
    exact ⟨_, [], c, hc pos hpos hlt hx, hr⟩
  | succ j ih =>
    cases hq : l.sender.queueSent with
    | nil => simp [hq] at hj
    | cons y rest =>
      rw [hq] at hj hdue
      obtain ⟨c₁, -, hr₁⟩ := h.pop_overdue hq (hdue y (by simp))
      have hjlt : j < rest.length := Nat.lt_of_succ_lt_succ (List.getElem?_eq_some_iff.1 hj).1
      obtain ⟨s, cs, c, hc, hr⟩ := ih (h.reaches hr₁) hpos hlt
        ((List.getElem?_append_left hjlt).trans hj) fun z hz => hdue z (by
          rw [sending, List.take_append_of_le_length hjlt] at hz
          exact List.mem_cons_of_mem y hz)
      rw [sending_sending] at hr
      exact ⟨s, c₁ :: cs, c, hc, hr₁.trans hr⟩

theorem exists_overdue (q : List Sent) (t : Instant) : ∃ t', t ≤ t' ∧ ∀ x ∈ q, x.Overdue t' := by
  induction q with
  | nil => exact ⟨t, le_rfl, nofun⟩
  | cons x q ih =>
    obtain ⟨t₁, hle₁, hq⟩ := ih
    obtain ⟨t₂, hle₂, hx⟩ := exists_elapsed x.lastPop t₁
    refine ⟨t₂, le_trans hle₁ hle₂, fun y hy => ?_⟩
    rcases List.mem_cons.1 hy with rfl | hy
    · exact hx
    · exact lt_of_lt_of_le (hq y hy) (Nat.sub_le_sub_right hle₂ y.lastPop)

/-- A segment in flight can be sent again. -/
theorem exists_resent (h : l.Past o n m) {pos : ℕ} (hpos : pos ≤ l.issued)
    (hlt : l.issued < pos + l.sender.queueSent.length) (t : Instant) :
    ∃ t' s cs, ∃ c : Copy, c.pos = pos ∧ Reaches n m t l t' (l.sending s (cs ++ [c])) := by
  have hlen := h.inv.sends.length_le
  have hdist : (l.sender.nextUnsent - 1 - nth o.base pos).toNat = l.issued - pos := by
    rw [h.inv.sends.nextUnsent_sub_one, toNat_nth_sub_nth hpos (by omega)]
  obtain ⟨x, hx, hnum⟩ := List.mem_map.1
    ((h.inv.sends.block.numbers.mem_iff (nth o.base pos)).2 (by omega))
  obtain ⟨j, hj⟩ := List.mem_iff_getElem?.1 hx
  obtain ⟨t', hle, hdue⟩ := exists_overdue l.sender.queueSent t
  obtain ⟨s, cs, c, hc, hr⟩ := h.pop_until hpos (by omega) hnum hj
    fun y hy => hdue y (List.mem_of_mem_take hy)
  exact ⟨t', s, cs, c, hc, (Reaches.refl hle l).trans hr⟩

/-! ## Releasing what is next -/

/-- While the range of accepted numbers is open, the segment at the window is accepted. -/
theorem deliver_window (h : l.Past o n m) {cs : List Copy} {c : Copy} (hcs : l.copies = cs ++ [c])
    (hn : n ≤ cs.length) (hcur : l.copyCursor ≤ cs.length) (hpos : c.pos = l.released + 1)
    (hd : l.receiver.dist < 246) (t : Instant) :
    ∃ k r, 1 ≤ k ∧ Delivers o l.accepted l.issued l.released l.receiver c.pos k r ∧
      Reaches n m t l t { l with receiver := r, copyCursor := max l.copyCursor cs.length } := by
  have hi : l.copies[cs.length]? = some c := by rw [hcs, List.getElem?_concat_length]
  obtain ⟨hle, hnum, hc⟩ := h.inv.copies c (List.mem_of_getElem? hi)
  have hwin : nth o.base c.pos = l.receiver.window := by rw [hpos, h.inv.receives.window_eq]
  have htimely : Timely l (.deliver cs.length) := by
    intro c' hc'
    obtain rfl := Option.some.inj (hi.symm.trans hc')
    have := h.inv.issued_le
    have := h.inv.sends.length_le
    omega
  rcases h.inv.receives.recv hc (by omega) (by omega) with ⟨err, hr⟩ | ⟨k, r, hr, hdel⟩
  · rw [hwin] at hr
    have hres := h.inv.receives.bounded.recv_result l.receiver.window c.segment
    rw [hr] at hres
    cases hres with
    | outOfRange hacc => exact absurd (RecvStorage.accepts_window_iff.2 (by omega)) hacc
    | conflict expected hacc hsome hne =>
      rw [h.inv.receives.bounded.window_absent] at hsome
      cases hsome
  · refine ⟨k, r, ?_, hdel, .single (e := .deliver cs.length) ⟨htimely, hcur, hn⟩ ?_ le_rfl⟩
    · rcases hdel.slid with ⟨-, hne, -⟩ | ⟨-, hk, -⟩
      · exact absurd hwin hne
      · exact hk
    · rw [← hnum] at hr
      simp only [linkStep, hi, hr]

theorem released_eq_of_delivers (h : l.Past o n m) {pos k : ℕ} {r : RecvStorage} {i : ℕ}
    (hpos : pos ≤ l.issued)
    (hdel : Delivers o l.accepted l.issued l.released l.receiver pos k r) :
    Link.released { l with receiver := r, copyCursor := i } = l.released + k :=
  (h.inv.prefix_of_delivers le_rfl hpos hdel).2

/-- The lower bound keeps up: what is in flight ends less than a window after what is released
next, so there is no whole window to be released a second time. -/
theorem recoverable_of_delivers (h : l.Past o n m) (hrec : l.Recoverable) {pos k : ℕ}
    {r : RecvStorage} (i : ℕ) (hpos : pos ≤ l.issued) (hk : 1 ≤ k)
    (hdel : Delivers o l.accepted l.issued l.released l.receiver pos k r) :
    Link.Recoverable { l with receiver := r, copyCursor := i } ∧
      Link.pending { l with receiver := r, copyCursor := i } + k = l.pending := by
  have hlen := h.inv.sends.length_le
  have hissued := h.inv.issued_le
  have haccepted := h.inv.sends.issued_le
  have hreceives := hdel.receives
  rw [max_eq_left hpos] at hreceives
  have hrel := h.released_eq_of_delivers (i := i) hpos hdel
  have hle := hreceives.released_le
  have hpending : Link.pending { l with receiver := r, copyCursor := i } + k = l.pending := by
    rw [pending, pending, hrel]
    dsimp only
    omega
  refine ⟨?_, hpending⟩
  obtain ⟨hk10, hrun, hdist⟩ : k ≤ 10 ∧
      RunLength l.receiver.segments (l.receiver.window + 1) (k - 1) ∧
      r.dist = l.receiver.dist + k - l.receiver.deleted k := by
    rcases hdel.slid with ⟨rfl, -, -⟩ | ⟨-, -, hk10, hrun, hdist⟩
    · omega
    · exact ⟨hk10, hrun, hdist⟩
  rcases hrec with hfew | ⟨hd, hnine⟩
  · left
    dsimp only
    omega
  · right
    have hnot : ¬(l.receiver.dist = 10 ∧ k = 10) := by
      rintro ⟨h10, rfl⟩
      exact hnine h10 hrun.filled
    have hd' : r.dist ≤ 10 := by
      rw [hdist, RecvStorage.deleted]
      split_ifs <;> omega
    refine ⟨hd', fun _ hfilled => ?_⟩
    obtain ⟨segment, hs⟩ := Option.isSome_iff_exists.1 (hfilled 8 (by omega))
    dsimp only at hs
    rw [nth_add_one, hreceives.window_eq, nth_nth] at hs
    have := (hreceives.present _ (by omega) (by omega) segment hs).1
    omega

/-- As long as something in flight has not been released, more is. -/
theorem exists_released (h : l.Past o n m) (hrec : l.Recoverable) (hlt : l.released < l.issued)
    (t : Instant) :
    ∃ t' l', Reaches n m t l t' l' ∧ l'.accepted = l.accepted ∧ l'.Recoverable ∧
      l'.pending < l.pending := by
  have hlen := h.inv.sends.length_le
  have hissued := h.inv.issued_le
  have haccepted := h.inv.sends.issued_le
  obtain ⟨t', s, cs, c, hpos, hr⟩ := h.exists_resent (show l.released + 1 ≤ _ from hlt) (by omega) t
  have h₁ := h.reaches hr
  have hcs : l.copies ++ (cs ++ [c]) = (l.copies ++ cs) ++ [c] := (List.append_assoc _ _ _).symm
  have hn : ∀ {i}, i ≤ l.copies.length → i ≤ (l.copies ++ cs).length := fun hi =>
    hi.trans (by simp)
  have hd : l.receiver.dist < 246 := by
    rcases hrec with hfew | ⟨hd, -⟩
    · rw [pending] at hfew
      omega
    · omega
  obtain ⟨k, r, hk, hdel, hr₁⟩ := h₁.deliver_window hcs (hn h.copies) (hn h.copyCursor) hpos hd t'
  obtain ⟨hrec', hpending⟩ := h₁.recoverable_of_delivers hrec _
    (h₁.inv.copies c (by simp [sending])).1 hk hdel
  exact ⟨t', _, hr.trans hr₁, rfl, hrec', by rw [show l.pending = _ from hpending.symm]; omega⟩

/-! ## Acknowledging -/

end Past

/-- The receiver sends acknowledgements. -/
def acking (l : Link) (urgentAck : Bool) (lastAck : Option (SequenceNumber × Instant))
    (as : List AckCopy) : Link :=
  { l with
    receiver := { l.receiver with urgentAck := urgentAck, lastAck := lastAck }
    acks := l.acks ++ as }

theorem acking_acking (l : Link) (u u' : Bool) (x x' : Option (SequenceNumber × Instant))
    (as as' : List AckCopy) : (l.acking u x as).acking u' x' as' = l.acking u' x' (as ++ as') := by
  simp [acking]

namespace Past

theorem popAcknowledge_first (l : Link) (n m : ℕ) (t : Instant) :
    ∃ u x as, Reaches n m t l t (l.acking u (some x) as) := by
  have hevent : Retries n m l (.popAcknowledge t t) := ⟨trivial, trivial, trivial⟩
  have hstep : ∃ u x as, linkStep l (.popAcknowledge t t) = .ok (l.acking u (some x) as) := by
    rw [linkStep, RecvStorage.popAcknowledge]
    cases ha : l.receiver.lastAck with
    | none =>
      dsimp only
      split_ifs
      · exact ⟨l.receiver.urgentAck, (l.receiver.window - 1, t), [], by simp [acking]⟩
      · exact ⟨l.receiver.urgentAck, _, _, rfl⟩
    | some x =>
      dsimp only
      split_ifs
      · exact ⟨_, _, _, rfl⟩
      · refine ⟨l.receiver.urgentAck, x, [], ?_⟩
        simp [acking, ← ha]
  obtain ⟨u, x, as, hs⟩ := hstep
  exact ⟨u, x, as, .single hevent hs ⟨le_rfl, le_rfl, le_rfl⟩⟩

/-- Half a timeout later the receiver acknowledges again. -/
theorem popAcknowledge_elapsed {x : SequenceNumber × Instant} (hx : l.receiver.lastAck = some x)
    (ht : connTimeout / 2 < Instant.elapsed x.2 t) (n m : ℕ) :
    ∃ u y, Reaches n m t l t (l.acking u y [⟨l.released, l.receiver.window - 1⟩]) := by
  refine ⟨false, some (l.receiver.window - 1, t),
    .single (e := .popAcknowledge t t) ⟨trivial, trivial, trivial⟩ ?_ ⟨le_rfl, le_rfl, le_rfl⟩⟩
  rw [linkStep, RecvStorage.popAcknowledge, hx]
  simp only [ht, true_or, or_true, if_true]
  rfl

theorem deliverAck_eq {i : ℕ} {a : AckCopy} {s : SendStorage} (hi : l.acks[i]? = some a)
    (hs : l.sender.acknowledge a.ackNum = (.ok (), s)) :
    linkStep l (.deliverAck i) =
      .ok { l with sender := s, ackCursor := max l.ackCursor i } := by
  simp only [linkStep, hi, hs]

/-- When all that has been issued has been released, all of it can be acknowledged. -/
theorem exists_acknowledged (h : l.Past o n m) (hrel : l.released = l.issued) (t : Instant) :
    ∃ t' s u x as j, Reaches n m t l t' { l.acking u x as with sender := s, ackCursor := j } ∧
      s.queueSent = [] := by
  have hnum : l.receiver.window - 1 = nth o.base l.released := by
    rw [h.inv.receives.window_eq, nth_succ_sub_one]
  obtain ⟨u₁, x₁, as, hr₁⟩ := popAcknowledge_first l n m t
  obtain ⟨t', hle, helapsed⟩ := exists_elapsed x₁.2 t
  obtain ⟨u, x, hr₂⟩ := popAcknowledge_elapsed (l := l.acking u₁ (some x₁) as) rfl helapsed n m
  have hr : Reaches n m t l t' (l.acking u x (as ++ [⟨l.released, nth o.base l.released⟩])) := by
    rw [← hnum, ← acking_acking]
    exact hr₁.trans ((Reaches.refl hle _).trans hr₂)
  have h₂ := h.reaches hr
  obtain ⟨s, hs, -, hlen⟩ := h₂.inv.sends.acknowledge_ok (a := l.released) hrel.le
    (show l.issued < l.released + 9 by omega)
  have hi : (l.acks ++ (as ++ [⟨l.released, nth o.base l.released⟩]))[(l.acks ++ as).length]? =
      some ⟨l.released, nth o.base l.released⟩ := by
    rw [← List.append_assoc, List.getElem?_concat_length]
  have hle' : ∀ {k}, k ≤ l.acks.length → k ≤ (l.acks ++ as).length := fun hk =>
    hk.trans (by simp)
  have htimely : Timely (l.acking u x (as ++ [⟨l.released, nth o.base l.released⟩]))
      (.deliverAck (l.acks ++ as).length) := by
    intro a ha
    obtain rfl := Option.some.inj (hi.symm.trans ha)
    show l.issued ≤ l.released + 200
    omega
  refine ⟨t', s, u, x, _, _, hr.trans (.single ⟨htimely, hle' h.ackCursor, hle' h.acks⟩
    (deliverAck_eq hi hs) le_rfl), ?_⟩
  · apply List.eq_nil_of_length_eq_zero
    rw [hlen, hrel]
    show min _ (l.issued - l.issued) = 0
    omega

/-! ## Completing -/

/-- With nothing in flight, the next segment is sent. -/
theorem exists_sent (hsent : l.sender.queueSent = []) (hunsent : l.sender.queueUnsent ≠ [])
    (n m : ℕ) (t : Instant) :
    ∃ s cs, Reaches n m t l t { l.sending s cs with issued := l.issued + 1 } := by
  obtain ⟨segment, rest, hq⟩ := List.exists_cons_of_ne_nil hunsent
  have hpop : ∃ s, l.sender.pop t t = .ok (some (l.sender.nextUnsent, segment), s) ∧
      s.nextUnsent = l.sender.nextUnsent + 1 := by
    rw [SendStorage.pop, SendStorage.tryPopSent, hsent]
    simp only [SendStorage.tryPopUnsent, hsent, hq]
    exact ⟨_, rfl, rfl⟩
  obtain ⟨s, hpop, hnext⟩ := hpop
  have hone : (s.nextUnsent - l.sender.nextUnsent).toNat = 1 := by
    rw [hnext, add_sub_cancel_left]
    rfl
  refine ⟨s, [copyOf (l.issued + 1) s l.sender.nextUnsent segment],
    .single (e := .pop t t) ⟨trivial, trivial, trivial⟩ ?_ ⟨le_rfl, le_rfl, le_rfl⟩⟩
  simp only [linkStep, hpop, hone]
  rfl

/-- The reader reads all that has been released. -/
theorem exists_read (l : Link) (n m : ℕ) (t : Instant) :
    Reaches n m t l t { l with
      receiver := { l.receiver with popQueue := [] }
      popped := l.popped ++ l.receiver.popQueue } := by
  induction hq : l.receiver.popQueue generalizing l with
  | nil =>
    rw [List.append_nil, ← hq]
    exact .refl le_rfl l
  | cons segment rest ih =>
    have hs : linkStep l .read = .ok { l with
        receiver := { l.receiver with popQueue := rest }
        popped := l.popped ++ [segment] } := by
      rw [linkStep, RecvStorage.pop, hq]
    have hr : Reaches n m t l t _ := .single (e := .read) ⟨trivial, trivial, trivial⟩ hs le_rfl
    have := hr.trans (ih _ rfl)
    rwa [List.append_assoc] at this

/-- Both ends can carry on until all has been acknowledged and read. -/
theorem exists_complete (h : l.Past o n m) (hrec : l.Recoverable) (t : Instant) :
    ∃ t' l', Reaches n m t l t' l' ∧ l'.popped = l.accepted ∧ l'.sender.isEmpty := by
  induction hp : l.pending using Nat.strong_induction_on generalizing l t with
  | h p ih =>
  have hissued := h.inv.sends.issued_le
  -- something in flight has not been released
  have hstep : ∀ {l₁ : Link} {t₁ : Instant}, l₁.Past o n m → l₁.Recoverable →
      l₁.released < l₁.issued → l₁.pending ≤ p → l₁.accepted = l.accepted →
      ∃ t' l', Reaches n m t₁ l₁ t' l' ∧ l'.popped = l.accepted ∧ l'.sender.isEmpty := by
    intro l₁ t₁ h₁ hrec₁ hlt hle hacc
    obtain ⟨t₂, l₂, hr, hacc₂, hrec₂, hlt₂⟩ := h₁.exists_released hrec₁ hlt t₁
    obtain ⟨t₃, l₃, hr₃, hpop, hempty⟩ :=
      ih l₂.pending (hlt₂.trans_le hle) (h₁.reaches hr) hrec₂ t₂ rfl
    exact ⟨t₃, l₃, hr.trans hr₃, hpop.trans (hacc₂.trans hacc), hempty⟩
  rcases h.inv.released_le.lt_or_eq with hlt | hrel
  · exact hstep h hrec hlt hp.le rfl
  obtain ⟨t₁, s, u, x, as, j, hr, hsent⟩ := h.exists_acknowledged hrel t
  by_cases hunsent : s.queueUnsent = []
  · refine ⟨t₁, _, hr.trans (exists_read _ n m t₁), ?_, ?_⟩
    · have hinv := (h.reaches hr).inv
      have hpre : l.popped ++ l.receiver.popQueue <+: l.accepted := hinv.prefix_accepted
      have hdrop : l.accepted.drop l.issued = [] := hinv.sends.unsent_eq ▸ hunsent
      exact hpre.eq_of_length_le ((List.drop_eq_nil_iff.1 hdrop).trans hrel.ge)
    · exact SendStorage.isEmpty_iff.2 ⟨hsent, hunsent⟩
  · obtain ⟨s', cs, hr'⟩ := exists_sent (l := { l.acking u x as with sender := s, ackCursor := j })
      hsent hunsent n m t₁
    obtain ⟨t₂, l₂, hr₂, hpop, hempty⟩ := hstep ((h.reaches hr).reaches hr') hrec
      (show l.released < l.issued + 1 by omega) hp.le rfl
    exact ⟨t₂, l₂, (hr.trans hr').trans hr₂, hpop, hempty⟩

end Past

end Link

theorem Opening.past (o : Opening) : o.link.Past o 0 0 :=
  ⟨o.inv, Nat.zero_le _, Nat.zero_le _, Nat.zero_le _, Nat.zero_le _⟩

/-- **A transfer can always be completed.** After every timely run, whatever the network has lost,
both ends can carry on by themselves until all that `push` has accepted has been read and
acknowledged, if the receiver can take what is left. -/
theorem losses_recoverable (o : Opening) {es : List LinkEvent}
    (ht : Along linkStep Timely o.link es) (hr : run linkStep o.link es = .ok l)
    (hrec : l.Recoverable) (t : Instant) :
    ∃ t' l', Link.Reaches l.copies.length l.acks.length t l t' l' ∧ l'.popped = l.accepted ∧
      l'.sender.isEmpty := by
  have h : l.Past o 0 0 :=
    run_invariant (Link.Past o 0 0) (fun _ _ _ h he hs => h.step he hs) o.past ht hr
  have hl : l.Past o l.copies.length l.acks.length :=
    ⟨h.inv, le_rfl, le_rfl, h.copyCursor, h.ackCursor⟩
  exact hl.exists_complete hrec t

/-- The first two of three segments are lost. -/
def gapRun : List LinkEvent :=
  [.push (.data (oneByte 1)) (by simp), .push (.data (oneByte 2)) (by simp),
    .push .finish (by simp), .pop 0 0, .pop 0 0, .pop 0 0, .deliver 2, .popAcknowledge 0 0]

theorem losses_recoverable_gap :
    ∃ l, run linkStep (Opening.byLocal 254).link gapRun = .ok l ∧ l.released = 0 ∧
      ∃ t' l', Link.Reaches 3 0 0 l t' l' ∧ l'.popped = l.accepted ∧ l'.sender.isEmpty := by
  have ht : Along linkStep Timely (Opening.byLocal 254).link gapRun := by decide
  exact ⟨_, rfl, rfl, losses_recoverable (.byLocal 254) ht rfl (by decide) 0⟩

end Mdswp
