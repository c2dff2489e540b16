import Mdswp.Stream.Absorbing

/-!
# Writes and flushes that fail

`write` and `flush` take the bytes of a segment out of the buffer before the `push` that may fail.
It fails if `Finish` was pushed last, and then already in the first round of the loop, so a healthy
stream loses up to `MAX_DATA_LEN` bytes (`write_error_iff`, `flush_error_iff`). A failing call
leaves the bytes alone exactly when there are none to take, or when those it takes cannot be told
from those it leaves (`write_flush_atomic_iff`).
-/

namespace Mdswp

namespace StreamInner

variable {s s' : StreamInner} {buf : List UInt8} {err : IoError}

/-- If `write` returns an error, buffer and storage are as before. -/
def WriteAtomic (s : StreamInner) (buf : List UInt8) : Prop :=
  ∀ err s', s.write buf = .ok (.error err, s') →
    s'.sendBuffer = s.sendBuffer ∧ s'.sendStorage = s.sendStorage

/-- If `flush` returns an error, every byte of the buffer is in a segment that has been pushed or
still in the buffer, in order. -/
def FlushKeepsBytes (s : StreamInner) : Prop :=
  ∀ err s', s.flush = .ok (.error err, s') → ∃ l : List DataSegment,
    s'.sendStorage = { s.sendStorage with
      queueUnsent := s.sendStorage.queueUnsent ++ l.map .data } ∧
    l.flatMap DataSegment.data ++ s'.sendBuffer = s.sendBuffer

/-- A `push` of data would fail, on a stream that has not errored. -/
def PushFails (s : StreamInner) : Prop :=
  s.isErr = false ∧ s.sendStorage.finishedUnchecked = .ok true

theorem not_pushFails_of_isErr (he : s.isErr) : ¬s.PushFails := by
  rintro ⟨hs, -⟩
  rw [he] at hs
  cases hs

/-! ## What fails, and what is left -/

/-- The loop fails in its first round or not at all. -/
theorem finishedUnchecked_of_pushBuffered_error {atLeast rounds : ℕ} (ha : 0 < atLeast)
    (hr : s.sendBuffer.length < rounds)
    (h : pushBuffered atLeast rounds s = .ok (.error err, s')) :
    s.sendStorage.finishedUnchecked = .ok true := by
  cases hf : s.sendStorage.finishedUnchecked with
  | error f =>
    obtain ⟨rounds, rfl⟩ := Nat.exists_eq_succ_of_ne_zero (Nat.ne_zero_of_lt hr)
    rw [pushBuffered] at h
    split_ifs at h with hlen
    · cases h
    dsimp only at h
    split at h
    · cases h
    rename_i d hd
    rw [SendStorage.push_eq (data_ne_accept d), hf] at h
    cases h
  | ok finished =>
    cases finished with
    | false =>
      obtain ⟨b, l, hok, -⟩ := pushBuffered_of_unfinished ha hr hf
      rw [hok] at h
      cases h
    | true => rfl

/-- It has taken the bytes of a segment then. -/
theorem pushBuffered_error_iff {atLeast rounds : ℕ} (ha : 0 < atLeast)
    (hr : s.sendBuffer.length < rounds) :
    pushBuffered atLeast rounds s = .ok (.error err, s') ↔
      s.sendStorage.finishedUnchecked = .ok true ∧ atLeast ≤ s.sendBuffer.length ∧
        err = connWriteFinished ∧
          s' = { s with sendBuffer := s.sendBuffer.drop (min maxDataLen s.sendBuffer.length) } := by
  constructor
  · intro h
    have hf := finishedUnchecked_of_pushBuffered_error ha hr h
    rw [pushBuffered_of_finished (Nat.zero_lt_of_lt hr) ha hf] at h
    split_ifs at h with hlen
    · cases h
    · cases h
      exact ⟨hf, Nat.not_lt.1 hlen, rfl, rfl⟩
  · rintro ⟨hf, hle, rfl, rfl⟩
    rw [pushBuffered_of_finished (Nat.zero_lt_of_lt hr) ha hf, if_neg (Nat.not_lt.2 hle)]

/-- On a healthy stream `write` fails if its loop does. -/
theorem write_error_iff_of_not_isErr (he : s.isErr = false) :
    s.write buf = .ok (.error err, s') ↔
      pushBuffered maxDataLen ((s.sendBuffer ++ buf).length + 1)
        { s with sendBuffer := s.sendBuffer ++ buf } = .ok (.error err, s') := by
  constructor
  · intro h
    rw [write, streamState_of_not_isErr he] at h
    obtain ⟨⟨r, s₁⟩, hp, heq⟩ := exists_of_map_eq_ok h
    cases r with
    | ok u => cases heq
    | error e =>
      cases heq
      exact hp
  · exact fun hp => write_of_pushBuffered he hp

/-- `write` fails on an errored stream, which it leaves alone, and after `Finish` as soon as a
segment is full, which is lost. -/
theorem write_error_iff : s.write buf = .ok (.error err, s') ↔
    (s.streamState = .error err ∧ s' = s) ∨
      (s.PushFails ∧ maxDataLen ≤ s.sendBuffer.length + buf.length ∧ err = connWriteFinished ∧
        s' = { s with sendBuffer := (s.sendBuffer ++ buf).drop maxDataLen }) := by
  cases he : s.isErr with
  | true =>
    obtain ⟨e, hstate⟩ := streamState_of_isErr he
    rw [write, hstate]
    simp only [not_pushFails_of_isErr he, false_and, or_false, Except.ok.injEq, Prod.mk.injEq,
      Except.error.injEq, eq_comm]
  | false =>
    have hpos : 0 < maxDataLen := by decide
    rw [write_error_iff_of_not_isErr he, streamState_of_not_isErr he, pushBuffered_error_iff
      (s := { s with sendBuffer := s.sendBuffer ++ buf }) hpos (Nat.lt_succ_self _)]
    simp only [reduceCtorEq, false_and, false_or, PushFails, he, true_and, List.length_append]
    refine and_congr_right fun _ => and_congr_right fun hle => ?_
    rw [min_eq_left hle]

/-- `flush` fails on an errored stream, which it leaves alone, and after `Finish` if anything is
buffered; the first bytes are lost. -/
theorem flush_error_iff : s.flush = .ok (.error err, s') ↔
    (s.streamState = .error err ∧ s' = s) ∨
      (s.PushFails ∧ s.sendBuffer ≠ [] ∧ err = connWriteFinished ∧
        s' = { s with sendBuffer := s.sendBuffer.drop (min maxDataLen s.sendBuffer.length) }) := by
  cases he : s.isErr with
  | true =>
    obtain ⟨e, hstate⟩ := streamState_of_isErr he
    rw [flush, hstate]
    simp only [not_pushFails_of_isErr he, false_and, or_false, Except.ok.injEq, Prod.mk.injEq,
      Except.error.injEq, eq_comm]
  | false =>
    rw [flush, streamState_of_not_isErr he]
    dsimp only
    rw [pushBuffered_error_iff Nat.one_pos (Nat.lt_succ_self _), Nat.one_le_iff_ne_zero, Ne,
      List.length_eq_zero_iff]
    simp only [reduceCtorEq, false_and, false_or, PushFails, he, true_and, ne_eq]

/-! ## Atomicity -/

theorem writeAtomic_iff : s.WriteAtomic buf ↔ (s.PushFails →
    s.sendBuffer.length + buf.length < maxDataLen ∨
      (buf.length = maxDataLen ∧ s.sendBuffer <:+ s.sendBuffer ++ buf)) := by
  constructor
  · intro h hf
    rw [or_iff_not_imp_left, Nat.not_lt]
    intro hle
    obtain ⟨hbuf, -⟩ := h _ _ (write_error_iff.2 (.inr ⟨hf, hle, rfl, rfl⟩))
    dsimp only at hbuf
    have hsuffix := List.drop_suffix maxDataLen (s.sendBuffer ++ buf)
    have hlen := congrArg List.length hbuf
    rw [List.length_drop, List.length_append] at hlen
    exact ⟨by omega, by rwa [hbuf] at hsuffix⟩
  · intro h err s' hw
    rcases write_error_iff.1 hw with ⟨-, rfl⟩ | ⟨hf, hle, -, rfl⟩
    · exact ⟨rfl, rfl⟩
    obtain ⟨hbuf, hsuffix⟩ := (h hf).resolve_left (Nat.not_lt.2 hle)
    refine ⟨?_, rfl⟩
    have hdrop := List.suffix_iff_eq_drop.1 hsuffix
    rw [List.length_append, Nat.add_sub_cancel_left, hbuf] at hdrop
    exact hdrop.symm

theorem flushKeepsBytes_iff : s.FlushKeepsBytes ↔ (s.PushFails → s.sendBuffer = []) := by
  constructor
  · intro h hf
    by_contra hne
    obtain ⟨l, hst, hbytes⟩ := h _ _ (flush_error_iff.2 (.inr ⟨hf, hne, rfl, rfl⟩))
    have hl : l = [] := by simpa using congrArg SendStorage.queueUnsent hst
    have hlen := congrArg List.length hbytes
    have hpos := List.length_pos_iff.2 hne
    simp only [hl, List.flatMap_nil, List.nil_append, List.length_drop, maxDataLen,
      maxSegmentLen] at hlen
    omega
  · intro h err s' hfl
    refine ⟨[], ?_⟩
    rcases flush_error_iff.1 hfl with ⟨-, rfl⟩ | ⟨hf, hne, -, -⟩
    · simp
    · exact absurd (h hf) hne

/-- **When failing writes and flushes are atomic**: after `Finish`, and before it is acknowledged, a
`write` must not fill a segment, or leave bytes that look like those before it, and a `flush` must
find nothing. -/
theorem write_flush_atomic_iff (s : StreamInner) (buf : List UInt8) :
    (s.WriteAtomic buf ↔ (s.PushFails →
      s.sendBuffer.length + buf.length < maxDataLen ∨
        (buf.length = maxDataLen ∧ s.sendBuffer <:+ s.sendBuffer ++ buf))) ∧
    (s.FlushKeepsBytes ↔ (s.PushFails → s.sendBuffer = [])) :=
  ⟨writeAtomic_iff, flushKeepsBytes_iff⟩

end StreamInner

/-- `Finish` is in the queue and a byte is buffered. A `write` that fills the segment fails: it has
discarded that byte and all new ones but the last, which it keeps. A `flush` fails and has discarded
the byte. -/
theorem write_flush_discard :
    ∃ st, run lifeStep ⟨.newByLocal (.v4 0 0) 0 0, []⟩ [.finishWrite, .write [1]] = .ok st ∧
      st.inner.write (List.replicate maxDataLen 2) =
        .ok (.error connWriteFinished, { st.inner with sendBuffer := [2] }) ∧
      st.inner.flush = .ok (.error connWriteFinished, { st.inner with sendBuffer := [] }) ∧
      st.inner.sendBuffer = [1] ∧
      ¬st.inner.WriteAtomic (List.replicate maxDataLen 2) ∧ ¬st.inner.FlushKeepsBytes := by
  refine ⟨⟨{ StreamInner.newByLocal (.v4 0 0) 0 0 with
    sendBuffer := [1]
    sendStorage := { queueSent := [], queueUnsent := [.finish], nextUnsent := 1 } }, []⟩, rfl, ?_⟩
  generalize hs : StreamInner.mk _ _ _ _ _ _ _ _ = s
  have hfails : s.PushFails := hs ▸ ⟨rfl, rfl⟩
  have hbuf : s.sendBuffer = [1] := hs ▸ rfl
  have hlast : ([1] ++ List.replicate maxDataLen (2 : UInt8)).drop maxDataLen = [2] := by
    rw [show maxDataLen = 509 + 1 from rfl, List.singleton_append, List.drop_succ_cons,
      List.drop_replicate]
    rfl
  have hwrite : s.write (List.replicate maxDataLen 2) =
      .ok (.error connWriteFinished, { s with sendBuffer := [2] }) :=
    StreamInner.write_error_iff.2 (.inr ⟨hfails, by simp, rfl, by rw [hbuf, hlast]⟩)
  have hflush : s.flush = .ok (.error connWriteFinished, { s with sendBuffer := [] }) :=
    StreamInner.flush_error_iff.2 (.inr ⟨hfails, by simp [hbuf], rfl, by rw [hbuf]; rfl⟩)
  refine ⟨hwrite, hflush, hbuf, fun h => ?_, fun h => ?_⟩
  · have := (h _ _ hwrite).1
    simp [hbuf] at this
  · obtain ⟨l, hst, hbytes⟩ := h _ _ hflush
    have hl : l = [] := by simpa using congrArg SendStorage.queueUnsent hst
    simp [hl, hbuf] at hbytes

end Mdswp
