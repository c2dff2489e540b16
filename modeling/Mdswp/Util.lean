import Mathlib.Data.BitVec

/-!
# Constants, errors and time (`util.rs`)

`IoError` is the part of `std::io::Error` the crate reads: the kind and the text. Instants and
durations are in nanoseconds. A call that does not come back, because it panics or because one of
its loops never ends, is a `Fault`.
-/

namespace Mdswp

/-- Sequence numbers, `Wrapping<u8>`. -/
abbrev SequenceNumber := BitVec 8

/-- `WINDOW_SIZE`. -/
def windowSize : SequenceNumber := 10

@[simp] theorem toNat_windowSize : windowSize.toNat = 10 := rfl

/-- The ways in which a call does not come back. -/
inductive Fault
  | panic
  | diverge
  deriving DecidableEq, Repr

/-- The outcome of a call that may not come back. -/
abbrev Exec := Except Fault

theorem exists_of_map_eq_ok {α β : Type*} {x : Exec α} {f : α → β} {b : β}
    (h : x.map f = .ok b) : ∃ a, x = .ok a ∧ f a = b := by
  cases x with
  | error e => cases h
  | ok a => exact ⟨a, rfl, Except.ok.inj h⟩

theorem exists_map_eq_ok_iff {α β : Type*} {x : Exec α} {f : α → β} :
    (∃ b, x.map f = .ok b) ↔ ∃ a, x = .ok a := by
  cases x with
  | error e => exact iff_of_false (by rintro ⟨_, ⟨⟩⟩) (by rintro ⟨_, ⟨⟩⟩)
  | ok a => exact iff_of_true ⟨_, rfl⟩ ⟨_, rfl⟩

theorem exists_map_eq_ok_and_iff {α β : Type*} {x : Exec α} {f : α → β} {P : β → Prop} :
    (∃ b, x.map f = .ok b ∧ P b) ↔ ∃ a, x = .ok a ∧ P (f a) := by
  constructor
  · rintro ⟨b, h, hb⟩
    obtain ⟨a, ha, rfl⟩ := exists_of_map_eq_ok h
    exact ⟨a, ha, hb⟩
  · rintro ⟨a, rfl, ha⟩
    exact ⟨f a, rfl, ha⟩

/-! ## Errors -/

/-- The kinds of `io::ErrorKind` that occur; `other` stands for those only the operating system
raises. -/
inductive ErrorKind
  | addrNotAvailable
  | brokenPipe
  | connectionAborted
  | connectionReset
  | invalidInput
  | timedOut
  | unexpectedEof
  | other
  deriving DecidableEq, Repr

/-- `io::Error`: its kind and its text. -/
structure IoError where
  kind : ErrorKind
  message : String
  deriving DecidableEq, Repr

/-- `io::Result<T>`. -/
abbrev IoResult := Except IoError

def cloneIoErr (err : IoError) : IoError := ⟨err.kind, err.message⟩

def connInvalidSeqNum (seqNum lowerBound upperBound : SequenceNumber) : IoError :=
  ⟨.brokenPipe, s!"Received segment with invalid sequence number: {seqNum.toNat}; " ++
    s!"expected number in range [{lowerBound.toNat}; {upperBound.toNat})"⟩

def connReadFinished : IoError :=
  ⟨.unexpectedEof, "Peer has sent all data. No more data is available"⟩

def connResetByPeer : IoError := ⟨.connectionReset, "Connection has been reset by peer"⟩

def connResetLocal : IoError := ⟨.connectionReset, "Connection has been reset locally"⟩

def connTimedOut : IoError := ⟨.timedOut, "Connection timed out"⟩

def connUnexpEstablish : IoError :=
  ⟨.brokenPipe, "Peer sent ESTABLISH segment in the middle of a connection"⟩

def connUnexpSeg (segment : String) : IoError :=
  ⟨.brokenPipe, s!"Peer sent unexpected segment: {segment}"⟩

/-- The arguments are the `Debug` texts of the two segments. -/
def connUnreliable (actual expected : String) : IoError :=
  ⟨.brokenPipe, s!"Expected to receive this: {expected}; but this was received: {actual}"⟩

def connWriteFinished : IoError :=
  ⟨.connectionAborted, "Sending data to peer has been already finished"⟩

/-! ## Time -/

/-- `Instant`, in nanoseconds since some origin. -/
abbrev Instant := ℕ

/-- `Duration`, in nanoseconds. -/
abbrev Duration := ℕ

/-- `Duration::from_secs(3)`. -/
def connTimeout : Duration := 3 * 10 ^ 9

/-- `Instant::elapsed` when the clock reads `now`; it saturates at zero. -/
def Instant.elapsed (last now : Instant) : Duration := now - last

theorem exists_elapsed (last t : Instant) :
    ∃ t', t ≤ t' ∧ connTimeout / 2 < Instant.elapsed last t' := by
  have hhalf : connTimeout / 2 < connTimeout := by decide
  exact ⟨max t (last + connTimeout), Nat.le_max_left _ _,
    Nat.lt_of_lt_of_le hhalf (Nat.le_sub_of_add_le' (Nat.le_max_right t (last + connTimeout)))⟩

end Mdswp
