import Mdswp.Stream.Retention

/-!
# Running out of numbers

When a whole window is released at once while the lower bound is exactly a window behind,
`trySlideWindow` misses the pruning, and the lower bound is two windows behind. From there on
`min_lower_bound` is always too far ahead of it, so it never moves again. With each segment that is
released it falls behind by one more, until the range of accepted numbers is closed.

Such a connection has at most 235 segments left, whatever its peer sends (`exhausts`).
-/

namespace Mdswp

open Serial RecvStorage

namespace Receiver

variable {st st' : Receiver} {e : ReceiverCall}

/-- How many segments have been released. -/
def released (st : Receiver) : ℕ := (st.popped ++ st.storage.popQueue).length

theorem Simulates.released_eq (h : st.Simulates) : st.released = st.reference.released := by
  rw [released, h.queue, Reassembly.length_delivered]

/-- A call moves neither the window nor the lower bound, or `trySlideWindow` moves them. -/
inductive Moves (st st' : Receiver) : Prop
  | stays (hl : st'.storage.lowerBound = st.storage.lowerBound)
    (hd : st'.storage.dist = st.storage.dist) (hr : st'.released = st.released)
  | slides (k : ℕ) (hk : k ≤ 10)
    (hl : st'.storage.lowerBound = nth st.storage.lowerBound (st.storage.deleted k))
    (hd : st'.storage.dist = st.storage.dist + k - st.storage.deleted k)
    (hr : st'.released = st.released + k)

theorem released_received (st : Receiver) (n : SequenceNumber) (segment : SequentialSegment)
    (r : RecvStorage) : (st.received n segment r).released =
      (st.popped ++ r.popQueue).length := rfl

theorem Simulates.moves (h : st.Simulates) (hs : receiverStep st e = .ok st') : st.Moves st' := by
  cases e with
  | pop =>
    obtain rfl := Except.ok.inj hs
    refine .stays (by simp) (by simp [RecvStorage.dist]) ?_
    simp only [released, RecvStorage.pop]
    cases hq : st.storage.popQueue with
    | nil => simp [hq]
    | cons segment rest => simp
  | popAcknowledge t t' =>
    obtain rfl := Except.ok.inj hs
    exact .stays (by simp) (by simp [RecvStorage.dist]) (by simp [released])
  | recv n segment =>
    have hres := h.bounded.recv_result n segment
    generalize hx : st.storage.recv n segment = x at hres
    cases hres with
    | outOfRange hacc =>
      obtain rfl := Except.ok.inj ((receiverStep_of_error hx).symm.trans hs)
      exact .stays rfl rfl rfl
    | conflict expected hacc hn hne =>
      obtain rfl := Except.ok.inj ((receiverStep_of_error hx).symm.trans hs)
      exact .stays rfl rfl rfl
    | duplicate hacc hn =>
      obtain rfl := Except.ok.inj ((receiverStep_of_ok hx).symm.trans hs)
      exact .stays rfl rfl rfl
    | buffered hacc hn hne =>
      obtain rfl := Except.ok.inj ((receiverStep_of_ok hx).symm.trans hs)
      exact .stays rfl rfl rfl
    | slid k hn hlive hk hrun hret =>
      subst hn
      obtain rfl := Except.ok.inj ((receiverStep_of_ok hx).symm.trans hs)
      have hrun' : RunLength (st.storage.insert st.storage.window segment).segments
          st.storage.window (k + 1) := (runLength_insert_window_iff (by omega)).2 hrun
      refine .slides (k + 1) hk (slide_lowerBound (by omega)) (dist_slide (by omega)) ?_
      rw [released_received, slide_popQueue, ← List.append_assoc, List.length_append,
        length_contents hrun'.filled, released]
    | panicked k hn hlive hk hrun hret => exact absurd (h.retained.filled_deleted hk) hret

/-- The lower bound is at most a window behind, or at least two. -/
def Spread (st : Receiver) : Prop := st.storage.dist ≤ 10 ∨ 20 ≤ st.storage.dist

theorem Moves.released_le (h : st.Moves st') : st.released ≤ st'.released := by
  cases h with
  | stays hl hd hr => exact hr.ge
  | slides k hk hl hd hr => exact hr ▸ Nat.le_add_right _ _

theorem Moves.spread (h : st.Moves st') (hst : st.Spread) : st'.Spread := by
  cases h with
  | stays hl hd hr => rwa [Spread, hd]
  | slides k hk hl hd hr =>
    rw [Spread, hd, deleted]
    rcases hst with hst | hst <;> split_ifs <;> omega

/-- The lower bound is where it was, and what has been released since is how much further behind it
is. -/
structure Drifts (st st' : Receiver) : Prop where
  lowerBound : st'.storage.lowerBound = st.storage.lowerBound
  far : 20 ≤ st'.storage.dist
  balance : st'.released + st.storage.dist = st.released + st'.storage.dist

theorem Drifts.moves {st'' : Receiver} (h : st.Drifts st') (hm : st'.Moves st'') :
    st.Drifts st'' := by
  have hfar := h.far
  have hbalance := h.balance
  cases hm with
  | stays hl hd hr => exact ⟨hl.trans h.lowerBound, by omega, by omega⟩
  | slides k hk hl hd hr =>
    have hzero : st'.storage.deleted k = 0 := if_neg (by omega)
    rw [hzero, nth_zero] at hl
    exact ⟨hl.trans h.lowerBound, by omega, by omega⟩

end Receiver

open Receiver

/-- **The numbers run out.** When any calls on a new storage have left the lower bound more than a
window behind, it stays where it is. What the reader gets from there on is as much as the distance
grows, and so at most 235 segments, whatever is called later. -/
theorem exhausts {r : RecvStorage} (hr : r.IsNew) {calls later : List ReceiverCall}
    {st st' : Receiver} (hrun : run receiverStep (.new r) calls = .ok st)
    (hfar : windowSize.toNat < st.storage.dist) (hlater : run receiverStep st later = .ok st') :
    st'.storage.lowerBound = st.storage.lowerBound ∧
      st'.released + st.storage.dist = st.released + st'.storage.dist ∧
      st'.released ≤ st.released + 235 := by
  have hstep : ∀ st e st', st.Simulates → receiverStep st e = .ok st' → st'.Simulates := by
    intro st e st' h hs
    obtain ⟨st₁, hs₁, -, h₁⟩ := h.step e
    obtain rfl := Except.ok.inj (hs.symm.trans hs₁)
    exact h₁
  have htrue : ∀ (st : Receiver) es, Along receiverStep (fun _ _ => True) st es :=
    fun st es => along_of_forall_mem (fun _ _ => trivial) st
  obtain ⟨h, hspread⟩ : st.Simulates ∧ st.Spread := by
    refine run_invariant (fun st => st.Simulates ∧ st.Spread) (fun st e st' h _ hs => ?_) ?_
      (htrue _ _) hrun
    · exact ⟨hstep st e st' h.1 hs, (h.1.moves hs).spread h.2⟩
    · refine ⟨hr.simulates, .inl ?_⟩
      obtain ⟨n, rfl | rfl⟩ := hr <;> simp [Receiver.new, RecvStorage.dist, newByPeer, newByLocal]
  have h20 : 20 ≤ st.storage.dist := hspread.resolve_left (not_le.2 hfar)
  obtain ⟨-, hdrift⟩ : st'.Simulates ∧ st.Drifts st' :=
    run_invariant (fun st' => st'.Simulates ∧ st.Drifts st')
      (fun st₁ e st₂ h₁ _ hs => ⟨hstep st₁ e st₂ h₁.1 hs, h₁.2.moves (h₁.1.moves hs)⟩)
      ⟨h, rfl, h20, rfl⟩ (htrue _ _) hlater
  have hlt := st'.storage.dist_lt
  have hbalance := hdrift.balance
  exact ⟨hdrift.lowerBound, hbalance, by omega⟩

/-- After a whole window has come at once, the peer sends the next one in order. -/
theorem exhausts_wholeWindow :
    ∃ st st', run receiverStep (.new (.newByPeer 0))
        (windowAndRest ++ [.recv 11 .finish]) = .ok st ∧
      run receiverStep st [.recv 21 .finish, .recv 22 .finish] = .ok st' ∧ st'.released = 22 ∧
      st'.storage.lowerBound = st.storage.lowerBound ∧ st'.released ≤ st.released + 235 := by
  obtain ⟨st, hrun⟩ : ∃ st, run receiverStep (.new (.newByPeer 0))
      (windowAndRest ++ [.recv 11 .finish]) = .ok st := ⟨_, rfl⟩
  have hfar : windowSize.toNat < st.storage.dist := by
    obtain rfl := Except.ok.inj hrun
    decide +kernel
  obtain ⟨st', hlater, hreleased⟩ : ∃ st',
      run receiverStep st [.recv 21 .finish, .recv 22 .finish] = .ok st' ∧ st'.released = 22 := by
    obtain rfl := Except.ok.inj hrun
    exact ⟨_, rfl, rfl⟩
  obtain ⟨hl, -, hle⟩ := exhausts ⟨0, .inl rfl⟩ hrun hfar hlater
  exact ⟨st, st', hrun, hlater, hreleased, hl, hle⟩

end Mdswp
