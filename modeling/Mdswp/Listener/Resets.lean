import Mathlib.Data.Multiset.Count
import Mdswp.Foundations.Run
import Mdswp.Listener.Inner

/-!
# Resets in flight

Two listeners with any tables of connections, and the datagrams in flight between them, which are
delivered in any order. Nothing else happens. A delivery emits at most one datagram, a `Reset`. If
every `Reset` that is delivered finds its connection, it emits nothing, and then the datagrams in
flight die out (`resets_die_out_iff`). A `Reset` for an unknown connection is answered with a
`Reset`; between two listeners that do not know each other that goes on for ever
(`resets_never_die_out`).
-/

namespace Mdswp

/-- One of the two ends. -/
inductive Side
  | left
  | right
  deriving DecidableEq

def Side.other : Side → Side
  | left => right
  | right => left

/-- A listener and its address; `listening` while its thread runs. -/
structure Endpoint where
  addr : SocketAddr
  listener : ListenerInner
  listening : Bool

structure Network where
  ends : Side → Endpoint
  /-- The datagrams on their way, each with its destination. -/
  inFlight : Multiset (Side × List UInt8)
  /-- How many datagrams have been emitted so far. -/
  emitted : ℕ

/-- The datagram `data` arrives at the end `dest`. The number is that of the `Accept`, should one
be sent. -/
structure Delivery where
  dest : Side
  data : List UInt8
  acceptSeqNum : SequenceNumber

/-- What is emitted for the address `addr` of the end `dest`; the rest leaves the network. -/
def onTheWay (dest : Side) (addr : SocketAddr) (out : List Datagram) :
    Multiset (Side × List UInt8) :=
  ((out.filter fun x => x.addr = addr).map fun x => (dest, x.bytes) : List (Side × List UInt8))

/-- There is no such datagram in flight. -/
inductive NotInFlight
  | absent

/-- A thread that panics listens no more, and an end that does not listen takes no notice of what
arrives. -/
def networkStep (st : Network) (d : Delivery) : Except NotInFlight Network :=
  if (d.dest, d.data) ∈ st.inFlight then
    let e := st.ends d.dest
    let peerAddr := (st.ends d.dest.other).addr
    let rest := st.inFlight.erase (d.dest, d.data)
    if e.listening then
      match e.listener.listenThread d.data peerAddr d.acceptSeqNum with
      | .error _ =>
        .ok { st with
          ends := Function.update st.ends d.dest { e with listening := false }
          inFlight := rest }
      | .ok (listener, out) =>
        .ok {
          ends := Function.update st.ends d.dest { e with listener := listener }
          inFlight := rest + onTheWay d.dest.other peerAddr out
          emitted := st.emitted + out.length }
    else .ok { st with inFlight := rest }
  else .error .absent

/-- The listener's thread takes the bytes for a `Reset`. -/
def IsReset (data : List UInt8) : Prop :=
  Segment.tryFrom (data.take (maxSegmentLen + 1)) = .ok .reset

instance (data : List UInt8) : Decidable (IsReset data) :=
  inferInstanceAs (Decidable (_ = Except.ok Segment.reset))

/-- If the step delivers a `Reset`, nothing is emitted. -/
def ResetSilent (st : Network) (d : Delivery) : Prop :=
  IsReset d.data → ∀ st', networkStep st d = .ok st' → st'.emitted = st.emitted

/-- If the step delivers a `Reset` to an end that listens, the table there yields a connection with
the other end. -/
def ResetKnown (st : Network) (d : Delivery) : Prop :=
  IsReset d.data → (d.dest, d.data) ∈ st.inFlight → (st.ends d.dest).listening →
    ((st.ends d.dest).listener.upgrade (st.ends d.dest.other).addr).isSome

instance (st : Network) (d : Delivery) : Decidable (ResetKnown st d) :=
  inferInstanceAs (Decidable (_ → _ → _ → _))

/-- How many of the datagrams in flight are no `Reset`. -/
def Network.others (st : Network) : ℕ := st.inFlight.countP fun x => ¬IsReset x.2

/-! ## What a delivery does -/

variable {st st' : Network} {d : Delivery} {out : List Datagram}

theorem isReset_intoBytes : IsReset Segment.reset.intoBytes := rfl

theorem card_onTheWay_le (dest : Side) (addr : SocketAddr) (out : List Datagram) :
    (onTheWay dest addr out).card ≤ out.length := by
  rw [onTheWay, Multiset.coe_card, List.length_map]
  exact List.length_filter_le _ _

theorem isReset_of_mem_onTheWay (hout : ∀ x ∈ out, x.bytes = Segment.reset.intoBytes)
    {dest : Side} {addr : SocketAddr} : ∀ x ∈ onTheWay dest addr out, IsReset x.2 := by
  intro x hx
  obtain ⟨y, hy, rfl⟩ := List.mem_map.1 (Multiset.mem_coe.1 hx)
  dsimp only
  rw [hout y (List.mem_filter.1 hy).1]
  exact isReset_intoBytes

theorem networkStep_of_notMem (h : (d.dest, d.data) ∉ st.inFlight) :
    networkStep st d = .error .absent := if_neg h

theorem networkStep_of_not_listening (h : (d.dest, d.data) ∈ st.inFlight)
    (hl : (st.ends d.dest).listening = false) :
    networkStep st d = .ok { st with inFlight := st.inFlight.erase (d.dest, d.data) } := by
  simp [networkStep, h, hl]

/-- What an end that listens makes of a datagram. -/
theorem networkStep_of_listening (h : (d.dest, d.data) ∈ st.inFlight)
    (hl : (st.ends d.dest).listening) :
    (∃ f, (st.ends d.dest).listener.listenThread d.data (st.ends d.dest.other).addr
        d.acceptSeqNum = .error f ∧ networkStep st d = .ok { st with
      ends := Function.update st.ends d.dest { st.ends d.dest with listening := false }
      inFlight := st.inFlight.erase (d.dest, d.data) }) ∨
    ∃ l out, (st.ends d.dest).listener.listenThread d.data (st.ends d.dest.other).addr
        d.acceptSeqNum = .ok (l, out) ∧ networkStep st d = .ok {
      ends := Function.update st.ends d.dest { st.ends d.dest with listener := l }
      inFlight := st.inFlight.erase (d.dest, d.data) +
        onTheWay d.dest.other (st.ends d.dest.other).addr out
      emitted := st.emitted + out.length } := by
  simp only [networkStep, if_pos h, if_pos hl]
  cases (st.ends d.dest).listener.listenThread d.data (st.ends d.dest.other).addr
      d.acceptSeqNum with
  | error f => exact .inl ⟨f, rfl, rfl⟩
  | ok x => exact .inr ⟨x.1, x.2, rfl, rfl⟩

/-- A delivery uses up its datagram. What it emits, one datagram at most, is a `Reset`. -/
theorem networkStep_eq_ok (h : networkStep st d = .ok st') :
    ∃ rest out, st.inFlight = (d.dest, d.data) ::ₘ rest ∧ st'.inFlight = rest + out ∧
      (∀ x ∈ out, IsReset x.2) ∧ st.emitted + out.card ≤ st'.emitted ∧
      st'.emitted ≤ st.emitted + 1 := by
  by_cases hmem : (d.dest, d.data) ∈ st.inFlight
  swap
  · rw [networkStep_of_notMem hmem] at h
    cases h
  have hrest := (Multiset.cons_erase hmem).symm
  cases hl : (st.ends d.dest).listening with
  | false =>
    rw [networkStep_of_not_listening hmem hl] at h
    cases h
    exact ⟨_, 0, hrest, (Multiset.add_zero _).symm, by simp, by simp, by simp⟩
  | true =>
    rcases networkStep_of_listening hmem hl with ⟨f, -, hst⟩ | ⟨l, out, hr, hst⟩
    · rw [hst] at h
      cases h
      exact ⟨_, 0, hrest, (Multiset.add_zero _).symm, by simp, by simp, by simp⟩
    · rw [hst] at h
      cases h
      have hout : (∀ x ∈ out, x.bytes = Segment.reset.intoBytes) ∧ out.length ≤ 1 := by
        rcases ListenerInner.recv_eq_ok hr with rfl | ⟨a, rfl⟩
        · simp
        · simp
      exact ⟨_, _, hrest, rfl, isReset_of_mem_onTheWay hout.1,
        Nat.add_le_add_left (card_onTheWay_le _ _ _) _, Nat.add_le_add_left hout.2 _⟩

/-- Exactly the delivery of a `Reset` for an unknown connection breaks the silence. -/
theorem resetSilent_iff (st : Network) (d : Delivery) : ResetSilent st d ↔ ResetKnown st d := by
  apply forall_congr'
  intro hd
  by_cases hmem : (d.dest, d.data) ∈ st.inFlight
  swap
  · rw [networkStep_of_notMem hmem]
    exact iff_of_true (fun st' h => by cases h) fun h => absurd h hmem
  rw [imp_iff_right hmem]
  cases hl : (st.ends d.dest).listening with
  | false =>
    rw [networkStep_of_not_listening hmem hl]
    refine iff_of_true (fun st' h => ?_) fun h => by cases h
    rw [← Except.ok.inj h]
  | true =>
    rw [imp_iff_right rfl]
    obtain ⟨l, hr⟩ := ListenerInner.recv_reset hd (st.ends d.dest).listener
      (st.ends d.dest.other).addr d.acceptSeqNum
    rcases networkStep_of_listening hmem hl with ⟨f, hf, -⟩ | ⟨l', out, hr', hst⟩
    · rw [ListenerInner.listenThread, hr] at hf
      cases hf
    rw [ListenerInner.listenThread, hr] at hr'
    cases hr'
    rw [hst]
    constructor
    · intro h
      have := h _ rfl
      by_contra hno
      rw [if_neg hno] at this
      exact Nat.succ_ne_self _ this
    · intro h st' hst'
      rw [if_pos h] at hst'
      rw [← Except.ok.inj hst']
      rfl

/-! ## Runs -/

/-- Every delivery makes the datagrams in flight fewer, or those that are no `Reset`. -/
theorem card_add_others_lt (hk : ResetKnown st d) (h : networkStep st d = .ok st') :
    st'.inFlight.card + st'.others < st.inFlight.card + st.others ∧
      st'.emitted + st'.others ≤ st.emitted + st.others := by
  obtain ⟨rest, out, hin, hin', hout, hle, hle'⟩ := networkStep_eq_ok h
  have hnone : out.countP (fun x => ¬IsReset x.2) = 0 :=
    Multiset.countP_eq_zero.2 fun x hx => not_not.2 (hout x hx)
  rw [Network.others, Network.others, hin, hin', Multiset.card_add, Multiset.card_cons,
    Multiset.countP_add, hnone]
  by_cases hd : IsReset d.data
  · have hsilent := (resetSilent_iff st d).2 hk hd st' h
    rw [Multiset.countP_cons_of_neg (p := fun x : Side × List UInt8 => ¬IsReset x.2) _
      (not_not.2 hd)]
    omega
  · rw [Multiset.countP_cons_of_pos (p := fun x : Side × List UInt8 => ¬IsReset x.2) _ hd]
    omega

/-- **Resets die out** in exactly the runs in which every `Reset` finds its connection: it emits
nothing then, no more datagrams are emitted than were in flight, and the run is at most twice as
long as that. -/
theorem resets_die_out_iff {st st' : Network} {ds : List Delivery}
    (h : run networkStep st ds = .ok st') :
    (Along networkStep ResetSilent st ds ∧ st'.emitted ≤ st.emitted + st.inFlight.card ∧
      ds.length ≤ 2 * st.inFlight.card) ↔ Along networkStep ResetKnown st ds := by
  have hiff : Along networkStep ResetSilent st ds ↔ Along networkStep ResetKnown st ds :=
    along_congr (fun _ => True) (fun st d _ => resetSilent_iff st d)
      (fun _ _ _ _ _ _ => trivial) trivial ds
  rw [hiff]
  apply and_iff_left_of_imp
  intro hk
  have hothers : st.others ≤ st.inFlight.card := Multiset.countP_le_card _ _
  have hlen := run_length_le (fun st => st.inFlight.card + st.others)
    (fun _ _ _ hk hs => (card_add_others_lt hk hs).1) hk h
  have hem := run_invariant (fun t => t.emitted + t.others ≤ st.emitted + st.others)
    (fun _ _ _ ht hk hs => (card_add_others_lt hk hs).2.trans ht) le_rfl hk h
  omega

def Side.addr : Side → SocketAddr
  | left => .v4 0 1
  | right => .v4 0 2

/-- Two listeners that do not know each other, with a `Reset` on its way. -/
def strangers (dest : Side) (emitted : ℕ) : Network where
  ends side := ⟨side.addr, .empty, true⟩
  inFlight := {(dest, Segment.reset.intoBytes)}
  emitted := emitted

/-- The connection of the left end is known there only. -/
def oneStranger : Network where
  ends
    | .left => ⟨.v4 0 1, ListenerInner.empty.establish (.v4 0 2) 5 6, true⟩
    | .right => ⟨.v4 0 2, .empty, true⟩
  inFlight := {(.right, [])}
  emitted := 0

/-- A datagram without bytes is answered with a `Reset`, which ends the connection. -/
theorem resets_die_out_oneStranger :
    ∃ st', run networkStep oneStranger
        [⟨.right, [], 0⟩, ⟨.left, Segment.reset.intoBytes, 0⟩] = .ok st' ∧
      Along networkStep ResetSilent oneStranger
        [⟨.right, [], 0⟩, ⟨.left, Segment.reset.intoBytes, 0⟩] ∧ st'.emitted ≤ 1 :=
  have hk : Along networkStep ResetKnown oneStranger
      [⟨.right, [], 0⟩, ⟨.left, Segment.reset.intoBytes, 0⟩] := by decide +kernel
  have h := (resets_die_out_iff rfl).2 hk
  ⟨_, rfl, h.1, h.2.1⟩

theorem networkStep_strangers (dest : Side) (n : ℕ) :
    networkStep (strangers dest n) ⟨dest, Segment.reset.intoBytes, 0⟩ =
      .ok (strangers dest.other (n + 1)) := by
  have hmem : (dest, Segment.reset.intoBytes) ∈ (strangers dest n).inFlight :=
    Multiset.mem_singleton_self _
  have hrecv : ListenerInner.empty.listenThread Segment.reset.intoBytes dest.other.addr 0 =
      .ok (.empty, [⟨dest.other.addr, Segment.reset.intoBytes⟩]) := rfl
  rw [networkStep, if_pos hmem]
  simp only [strangers, hrecv, if_true, Function.update_eq_self]
  simp [onTheWay]

theorem exists_run_strangers (n : ℕ) (dest : Side) (k : ℕ) :
    ∃ ds st, run networkStep (strangers dest k) ds = .ok st ∧ ds.length = n ∧
      st.emitted = k + n := by
  induction n generalizing dest k with
  | zero => exact ⟨[], _, rfl, rfl, rfl⟩
  | succ n ih =>
    obtain ⟨ds, st, hr, hlen, hem⟩ := ih dest.other (k + 1)
    refine ⟨⟨dest, Segment.reset.intoBytes, 0⟩ :: ds, st, ?_, ?_, ?_⟩
    · rw [run_cons_of_ok (networkStep_strangers dest k), hr]
    · rw [List.length_cons, hlen]
    · omega

/-- A single `Reset` between two listeners without connections goes to and fro for ever. -/
theorem resets_never_die_out :
    ¬(∃ b, ∀ ds st, run networkStep (strangers .left 0) ds = .ok st → ds.length ≤ b) ∧
      ¬∃ b, ∀ ds st, run networkStep (strangers .left 0) ds = .ok st → st.emitted ≤ b := by
  constructor
  · rintro ⟨b, hb⟩
    obtain ⟨ds, st, hr, hlen, -⟩ := exists_run_strangers (b + 1) .left 0
    have := hb ds st hr
    omega
  · rintro ⟨b, hb⟩
    obtain ⟨ds, st, hr, -, hem⟩ := exists_run_strangers (b + 1) .left 0
    have := hb ds st hr
    omega

end Mdswp
