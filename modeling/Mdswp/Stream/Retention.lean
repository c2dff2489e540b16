import Mathlib.Data.List.Nodup
import Mdswp.Stream.Delivery

/-!
# The retained segments

`trySlideWindow` is to keep one window of segments behind `window`, and the comparison that decides
whether anything is deleted is a wrapping one. It is right for every slide but one: when a whole
window is released while the lower bound is a window behind already, the two are two windows apart,
and the comparison says that nothing is to be deleted.

`OneWindow` says what is to be kept. It holds throughout exactly those runs in which no delivery
releases a whole window at that distance (`along_keepsOneWindow_iff`).
-/

namespace Mdswp

open Serial RecvStorage

/-- At most a window behind `window` is kept, all of it, and less than a window beyond it. -/
structure Receiver.OneWindow (st : Receiver) : Prop where
  dist_le : st.storage.dist ≤ windowSize.toNat
  /-- The initial lower bound, until a window of numbers precedes `window`. -/
  lowerBound : st.storage.lowerBound =
    if windowSize.toNat ≤ st.initial.dist + st.reference.released then
      st.storage.window - windowSize
    else st.initial.lowerBound
  retained : st.storage.Retained
  absent : st.storage.segments st.storage.window = none
  keys : ∀ n, (st.storage.segments n).isSome →
    (n - st.storage.lowerBound).toNat < st.storage.dist + windowSize.toNat
  entries : ∀ l : List SequenceNumber, l.Nodup → (∀ n ∈ l, (st.storage.segments n).isSome) →
    l.length ≤ 2 * windowSize.toNat - 1

def KeepsOneWindow (st : Receiver) (e : ReceiverCall) : Prop :=
  ∀ st', receiverStep st e = .ok st' → st'.OneWindow

/-- The call does not deliver the segment at the window while the rest of the window is buffered
and the lower bound is a window behind. -/
def ReleasesPart (st : Receiver) : ReceiverCall → Prop
  | .recv n _ => ¬(st.storage.dist = windowSize.toNat ∧ n = st.storage.window ∧
      Filled st.storage.segments (st.storage.window + 1) (windowSize.toNat - 1))
  | _ => True

instance (st : Receiver) (e : ReceiverCall) : Decidable (ReleasesPart st e) :=
  match e with
  | .recv _ _ => inferInstanceAs (Decidable (¬_))
  | .pop => isTrue trivial
  | .popAcknowledge _ _ => isTrue trivial

variable {st st' : Receiver} {e : ReceiverCall} {n : SequenceNumber} {segment : SequentialSegment}

/-! ## The distance decides -/

/-- All keys but the window are among the numbers at these distances from the lower bound. -/
theorem RecvStorage.Bounded.length_le {r : RecvStorage} (h : r.Bounded) {l : List SequenceNumber}
    (hl : l.Nodup) (hmem : ∀ n ∈ l, (r.segments n).isSome) : l.length ≤ r.dist + 9 := by
  have hnodup : (l.map fun n => (n - r.lowerBound).toNat).Nodup := by
    refine hl.map_on fun n _ m _ heq => ?_
    exact sub_left_injective (BitVec.eq_of_toNat_eq heq)
  have hsub : (l.map fun n => (n - r.lowerBound).toNat) ⊆
      (List.range (r.dist + 10)).erase r.dist := by
    intro i hi
    obtain ⟨n, hn, rfl⟩ := List.mem_map.1 hi
    rw [List.nodup_range.mem_erase_iff, List.mem_range]
    refine ⟨fun heq => ?_, h.present_lt n (hmem n hn)⟩
    have hsome := hmem n hn
    have hw : n = r.window := sub_left_injective (BitVec.eq_of_toNat_eq heq)
    rw [hw, h.window_absent] at hsome
    cases hsome
  have hlen := (List.subperm_of_subset hnodup hsub).length_le
  rw [List.length_map, List.length_erase_of_mem (by simp), List.length_range] at hlen
  omega

namespace Receiver.Simulates

/-- The distance from the initial lower bound, while it is below a turn of the numbers. -/
theorem window_eq (h : st.Simulates) :
    st.storage.window = nth st.initial.lowerBound (st.initial.dist + st.reference.released) := by
  rw [h.window, nth_window]

theorem oneWindow_iff (h : st.Simulates) :
    st.OneWindow ↔ st.storage.dist = min 10 (st.initial.dist + st.reference.released) := by
  constructor
  · intro hone
    have hle := hone.dist_le
    have hlb := hone.lowerBound
    rw [toNat_windowSize] at hle hlb
    split_ifs at hlb with hge
    · rw [RecvStorage.dist, hlb, sub_sub_cancel, toNat_windowSize]
      omega
    · rw [RecvStorage.dist, hlb, h.window_eq, toNat_nth_sub, Nat.mod_eq_of_lt (by omega)]
      omega
  · intro hd
    refine ⟨by rw [hd, toNat_windowSize]; omega, ?_, h.retained, h.bounded.window_absent,
      h.bounded.present_lt, ?_⟩
    · rw [toNat_windowSize]
      split_ifs with hge
      · rw [← st.storage.nth_dist, hd, Nat.min_eq_left hge]
        exact (BitVec.add_sub_cancel _ _).symm
      · apply nth_left_cancel (n := st.storage.dist)
        rw [nth_dist, h.window_eq, hd, Nat.min_eq_right (by omega)]
    · intro l hl hmem
      have := h.bounded.length_le hl hmem
      rw [toNat_windowSize]
      omega

/-- A call that moves neither the bounds nor the slots keeps what is kept. -/
theorem keepsOneWindow_of_eq (h : st.Simulates) (hone : st.OneWindow)
    (hsame : ∀ st', receiverStep st e = .ok st' → st'.storage.dist = st.storage.dist ∧
      st'.reference.released = st.reference.released) : KeepsOneWindow st e := by
  intro st' hs
  obtain ⟨st₁, hs₁, hinit, h₁⟩ := h.step e
  obtain rfl := Except.ok.inj (hs.symm.trans hs₁)
  obtain ⟨hd, hr⟩ := hsame st' hs
  rw [h₁.oneWindow_iff, hd, hr, hinit]
  exact h.oneWindow_iff.1 hone

theorem keepsOneWindow_slid (h : st.Simulates) (hone : st.OneWindow)
    (hlive : st.storage.dist + 10 < 256) {k : ℕ} (hk : k < 10)
    (hrun : RunLength st.storage.segments (st.storage.window + 1) k) :
    (st.received st.storage.window segment
        ((st.storage.insert st.storage.window segment).slid (k + 1)).pruned).OneWindow ↔
      ¬(st.storage.dist = 10 ∧ Filled st.storage.segments (st.storage.window + 1) 9) := by
  have hnine : Filled st.storage.segments (st.storage.window + 1) 9 ↔ k = 9 := by
    constructor
    · intro hfilled
      by_contra hne
      have := hfilled k (by omega)
      rw [hrun.absent] at this
      cases this
    · rintro rfl
      exact hrun.filled
  have hd := h.oneWindow_iff.1 hone
  have hinit : ∀ r, (st.received st.storage.window segment r).initial = st.initial := fun _ => rfl
  have hstorage : ∀ r, (st.received st.storage.window segment r).storage = r := fun _ => rfl
  rw [(h.slid hlive hk hrun).oneWindow_iff, hinit, hstorage, h.released_slid hlive hk hrun,
    dist_slide (by omega), hnine, deleted]
  split_ifs <;> omega

theorem keepsOneWindow_iff (h : st.Simulates) (hone : st.OneWindow) (e : ReceiverCall) :
    KeepsOneWindow st e ↔ ReleasesPart st e := by
  cases e with
  | pop =>
    refine iff_of_true (h.keepsOneWindow_of_eq hone fun st' hs => ?_) trivial
    obtain rfl := Except.ok.inj hs
    exact ⟨by simp [RecvStorage.dist], rfl⟩
  | popAcknowledge t t' =>
    refine iff_of_true (h.keepsOneWindow_of_eq hone fun st' hs => ?_) trivial
    obtain rfl := Except.ok.inj hs
    exact ⟨by simp [RecvStorage.dist], rfl⟩
  | recv n segment =>
    have hle := hone.dist_le
    rw [toNat_windowSize] at hle
    have hres := h.bounded.recv_result n segment
    generalize hx : st.storage.recv n segment = x at hres
    have hother : n ≠ st.storage.window → ReleasesPart st (.recv n segment) :=
      fun hne hpart => hne hpart.2.1
    cases hres with
    | outOfRange hacc =>
      have hne : n ≠ st.storage.window := by
        rintro rfl
        exact hacc (accepts_window_iff.2 (by omega))
      refine iff_of_true (h.keepsOneWindow_of_eq hone fun st' hs => ?_) (hother hne)
      obtain rfl := Except.ok.inj ((receiverStep_of_error hx).symm.trans hs)
      exact ⟨rfl, rfl⟩
    | conflict expected _ hn _ =>
      refine iff_of_true (h.keepsOneWindow_of_eq hone fun st' hs => ?_) (hother (h.ne_window hn))
      obtain rfl := Except.ok.inj ((receiverStep_of_error hx).symm.trans hs)
      exact ⟨rfl, rfl⟩
    | duplicate _ hn =>
      have hne := h.ne_window hn
      refine iff_of_true (h.keepsOneWindow_of_eq hone fun st' hs => ?_) (hother hne)
      obtain rfl := Except.ok.inj ((receiverStep_of_ok hx).symm.trans hs)
      exact ⟨rfl, released_received_of_ne hne _⟩
    | buffered hacc hn hne =>
      refine iff_of_true (h.keepsOneWindow_of_eq hone fun st' hs => ?_) (hother hne)
      obtain rfl := Except.ok.inj ((receiverStep_of_ok hx).symm.trans hs)
      exact ⟨rfl, released_received_of_ne hne _⟩
    | slid k hn hlive hk hrun _ =>
      subst hn
      have hkeeps : KeepsOneWindow st (.recv st.storage.window segment) ↔
          (st.received st.storage.window segment
            ((st.storage.insert st.storage.window segment).slid (k + 1)).pruned).OneWindow := by
        constructor
        · intro hall
          exact hall _ (receiverStep_of_ok hx)
        · intro hone' st' hs
          obtain rfl := Except.ok.inj ((receiverStep_of_ok hx).symm.trans hs)
          exact hone'
      rw [hkeeps, h.keepsOneWindow_slid hone hlive hk hrun]
      simp [ReleasesPart]
    | panicked k _ _ hk _ hret => exact absurd (h.retained.filled_deleted hk) hret

end Receiver.Simulates

theorem RecvStorage.IsNew.oneWindow {r : RecvStorage} (hr : r.IsNew) :
    (Receiver.new r).OneWindow := by
  rw [hr.simulates.oneWindow_iff]
  obtain ⟨n, rfl | rfl⟩ := hr
  · simp [Receiver.new, Reassembly.new, RecvStorage.dist, newByPeer]
  · simp [Receiver.new, Reassembly.new, RecvStorage.dist, newByLocal]

/-- **A receive storage retains at most one window** in exactly the runs in which no delivery
releases a whole window while the lower bound is a window behind. -/
theorem along_keepsOneWindow_iff {r : RecvStorage} (hr : r.IsNew) (es : List ReceiverCall) :
    (Receiver.new r).OneWindow ∧
      (Along receiverStep KeepsOneWindow (.new r) es ↔
        Along receiverStep ReleasesPart (.new r) es) := by
  refine ⟨hr.oneWindow, along_congr (fun st => st.Simulates ∧ st.OneWindow) ?_ ?_
    ⟨hr.simulates, hr.oneWindow⟩ es⟩
  · rintro st e ⟨h, hone⟩
    exact h.keepsOneWindow_iff hone e
  · rintro st e st' ⟨h, -⟩ hkeeps hs
    obtain ⟨st₁, hs₁, -, h₁⟩ := h.step e
    obtain rfl := Except.ok.inj (hs.symm.trans hs₁)
    exact ⟨h₁, hkeeps st' hs⟩

/-- A window of segments in order, and the next window but its first segment. -/
def windowAndRest : List ReceiverCall :=
  ((List.range 10).map fun i => .recv (.ofNat 8 (i + 1)) .finish) ++
    (List.range 9).map fun i => .recv (.ofNat 8 (i + 12)) .finish

theorem along_keepsOneWindow_windowAndRest :
    Along receiverStep KeepsOneWindow (.new (.newByPeer 0)) windowAndRest :=
  (along_keepsOneWindow_iff ⟨0, .inl rfl⟩ windowAndRest).2.2 (by decide +kernel)

/-- When the first segment of the second window comes last, two windows are retained. -/
theorem wholeWindow_retains_two :
    ∃ st, run receiverStep (.new (.newByPeer 0)) (windowAndRest ++ [.recv 11 .finish]) = .ok st ∧
      st.storage.window - st.storage.lowerBound = 20 ∧ ¬st.OneWindow := by
  obtain ⟨st, hrun⟩ : ∃ st, run receiverStep (.new (.newByPeer 0))
      (windowAndRest ++ [.recv 11 .finish]) = .ok st := ⟨_, rfl⟩
  have hd : st.storage.window - st.storage.lowerBound = 20 := by
    obtain rfl := Except.ok.inj hrun
    rfl
  refine ⟨st, hrun, hd, fun hone => ?_⟩
  have := hone.dist_le
  rw [RecvStorage.dist, hd] at this
  exact absurd this (by decide)

end Mdswp
