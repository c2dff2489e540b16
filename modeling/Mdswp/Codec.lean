import Mdswp.Segment

/-!
# The codec of segments (`segment.rs`)

`Segment.tryFrom` and `Segment.intoBytes` are inverse to each other between the segments and the
byte strings of `IsEncoding` (`segment_codec`).

The source decodes through slices and unwraps, which panic when the slice has another length or
the option is empty. `Literal` spells them out; none of them panics (`Literal.tryFrom_eq`).
-/

namespace Mdswp

/-! ## Slices and unwraps -/

namespace Literal

/-- `slice::get` of the range from `start` up to `stop`. -/
def getRange (bytes : List UInt8) (start stop : ℕ) : Option (List UInt8) :=
  if start ≤ stop ∧ stop ≤ bytes.length then some ((bytes.drop start).take (stop - start))
  else none

/-- `slice::get` of the range from `start` on. -/
def getRangeFrom (bytes : List UInt8) (start : ℕ) : Option (List UInt8) :=
  if start ≤ bytes.length then some (bytes.drop start) else none

/-- A slice converted to `[u8; 1]`, and unwrapped. -/
def unwrapByte : List UInt8 → Exec UInt8
  | [byte] => .ok byte
  | _ => .error .panic

/-- `Option::unwrap`. -/
def unwrap {α : Type*} : Option α → Exec α
  | some a => .ok a
  | none => .error .panic

def instrCodeOf (segment : List UInt8) : Exec (Option InstrCode) :=
  match getRange segment 0 1 with
  | none => .ok none
  | some bytes => (unwrapByte bytes).map some

def seqNumOf (segment : List UInt8) : Exec (Option SequenceNumber) :=
  match getRange segment 1 2 with
  | none => .ok none
  | some bytes => (unwrapByte bytes).map fun byte => some byte.toBitVec

def dataOf (segment : List UInt8) : Option DataSegment :=
  match getRangeFrom segment 2 with
  | none => none
  | some bytes => (DataSegment.tryFrom bytes).toOption

/-- The three fields are decoded; what they make depends on the instruction code. -/
def tryFromFields (instrCode : InstrCode) (seqNum : Option SequenceNumber)
    (data : Option DataSegment) : Exec (IoResult Segment) :=
  if instrCode = instrCodeEstablish then
    if seqNum.isSome ∧ data.isNone then (unwrap seqNum).map fun n => .ok (.establish n)
    else .ok (.error (invalidInput "Invalid ESTABLISH segment"))
  else if instrCode = instrCodeReset then
    if seqNum.isNone then .ok (.ok .reset)
    else .ok (.error (invalidInput "Invalid RESET segment"))
  else if instrCode = instrCodeAccept then
    if seqNum.isSome ∧ data.isNone then (unwrap seqNum).map fun n => .ok (.sequential n .accept)
    else .ok (.error (invalidInput "Invalid ACCEPT segment"))
  else if instrCode = instrCodeFinish then
    if seqNum.isSome ∧ data.isNone then (unwrap seqNum).map fun n => .ok (.sequential n .finish)
    else .ok (.error (invalidInput "Invalid FINISH segment"))
  else if instrCode = instrCodeAcknowledge then
    if seqNum.isSome ∧ data.isNone then (unwrap seqNum).map fun n => .ok (.acknowledge n)
    else .ok (.error (invalidInput "Invalid ACKNOWLEDGE segment"))
  else if instrCode = instrCodeData then
    if seqNum.isSome ∧ data.isSome then do
      let n ← unwrap seqNum
      let d ← unwrap data
      return .ok (.sequential n (.data d))
    else .ok (.error (invalidInput "Invalid DATA segment"))
  else .ok (.error (invalidInput "Malformed segment: unknown type"))

/-- `TryFrom<&[u8]> for Segment`. -/
def tryFrom (segment : List UInt8) : Exec (IoResult Segment) :=
  if maxSegmentLen < segment.length then .ok (.error (invalidInput "Invalid segment length"))
  else do
    let instrCode ← instrCodeOf segment
    let seqNum ← seqNumOf segment
    let data := dataOf segment
    match instrCode with
    | none => return .error (invalidInput "Invalid segment length")
    | some instrCode => tryFromFields instrCode seqNum data

theorem instrCodeOf_eq (segment : List UInt8) :
    instrCodeOf segment = .ok (Mdswp.instrCodeOf segment) := by
  cases segment with
  | nil => rfl
  | cons code rest => simp [instrCodeOf, getRange, unwrapByte, Mdswp.instrCodeOf, Except.map]

theorem seqNumOf_eq (segment : List UInt8) :
    seqNumOf segment = .ok (Mdswp.seqNumOf segment) := by
  match segment with
  | [] => rfl
  | [code] => rfl
  | code :: num :: rest => simp [seqNumOf, getRange, unwrapByte, Mdswp.seqNumOf, Except.map]

theorem dataOf_eq (segment : List UInt8) : dataOf segment = Mdswp.dataOf segment := by
  unfold dataOf getRangeFrom Mdswp.dataOf
  split_ifs <;> rfl

/-- No unwrap panics: each is guarded by the test before it. -/
theorem tryFrom_eq (segment : List UInt8) : tryFrom segment = .ok (Segment.tryFrom segment) := by
  rw [tryFrom, Segment.tryFrom]
  split_ifs with hlen
  · rfl
  simp only [instrCodeOf_eq, seqNumOf_eq, dataOf_eq, bind, Except.bind, pure, Except.pure]
  cases Mdswp.instrCodeOf segment with
  | none => rfl
  | some code =>
    dsimp only [tryFromFields]
    generalize Mdswp.seqNumOf segment = seqNum
    generalize Mdswp.dataOf segment = data
    cases seqNum <;> cases data <;> simp only [Option.isSome_none, Option.isSome_some,
      Option.isNone_none, Option.isNone_some, Bool.false_eq_true, and_true, and_false, if_true,
      if_false] <;> split_ifs <;> rfl

end Literal

/-! ## What is decoded -/

/-- The encodings: a `Reset` is one byte, the segments without data are two, and `Data` carries 1
to `MAX_DATA_LEN` more. -/
def IsEncoding : List UInt8 → Prop
  | [] => False
  | [code] => code = instrCodeReset
  | [code, _] => code = instrCodeEstablish ∨ code = instrCodeAcknowledge ∨
      code = instrCodeAccept ∨ code = instrCodeFinish
  | code :: _ :: data => code = instrCodeData ∧ data.length ≤ maxDataLen

instance : DecidablePred IsEncoding
  | [] => isFalse id
  | [_] => inferInstanceAs (Decidable (_ = _))
  | [_, _] => inferInstanceAs (Decidable (_ ∨ _))
  | _ :: _ :: _ :: _ => inferInstanceAs (Decidable (_ ∧ _))

theorem isEncoding_intoBytes (s : Segment) : IsEncoding s.intoBytes := by
  cases s with
  | sequential seqNum variant =>
    cases variant with
    | data d =>
      obtain ⟨data, hne, hlen⟩ := d
      cases data with
      | nil => exact absurd rfl hne
      | cons b bs => exact ⟨rfl, hlen⟩
    | accept => exact .inr (.inr (.inl rfl))
    | finish => exact .inr (.inr (.inr rfl))
  | establish startSeqNum => exact .inl rfl
  | reset => rfl
  | acknowledge seqNum => exact .inr (.inl rfl)

/-- Every byte string of this form is an encoding. -/
theorem exists_of_isEncoding {b : List UInt8} (h : IsEncoding b) :
    ∃ s : Segment, s.intoBytes = b := by
  match b, h with
  | [code], h =>
    obtain rfl : code = instrCodeReset := h
    exact ⟨.reset, rfl⟩
  | [code, num], h =>
    rcases h with rfl | rfl | rfl | rfl
    · exact ⟨.establish num.toBitVec, rfl⟩
    · exact ⟨.acknowledge num.toBitVec, rfl⟩
    · exact ⟨.sequential num.toBitVec .accept, rfl⟩
    · exact ⟨.sequential num.toBitVec .finish, rfl⟩
  | code :: num :: byte :: bytes, h =>
    obtain ⟨rfl, hlen⟩ := h
    exact ⟨.sequential num.toBitVec (.data ⟨byte :: bytes, List.cons_ne_nil _ _, hlen⟩), rfl⟩

/-- `data_of` turns both no data and too much into `None`; within the length of a segment there is
never too much. -/
theorem dataOf_cons_cons {code num byte : UInt8} {bytes : List UInt8}
    (h : (byte :: bytes).length ≤ maxDataLen) :
    dataOf (code :: num :: byte :: bytes) = some ⟨byte :: bytes, List.cons_ne_nil _ _, h⟩ := by
  have hd : DataSegment.tryFrom (byte :: bytes) = .ok ⟨byte :: bytes, List.cons_ne_nil _ _, h⟩ :=
    DataSegment.tryFrom_eq_ok.2 rfl
  simp [dataOf, hd, Except.toOption]

/-- What is not an encoding is rejected. -/
theorem tryFrom_of_not_isEncoding {b : List UInt8} (h : ¬IsEncoding b) :
    ∃ message, Segment.tryFrom b = .error (invalidInput message) := by
  rw [Segment.tryFrom]
  split_ifs with hlen
  · exact ⟨_, rfl⟩
  rcases b with _ | ⟨code, _ | ⟨num, _ | ⟨byte, bytes⟩⟩⟩
  · exact ⟨_, rfl⟩
  · have hcode : code ≠ instrCodeReset := h
    simp only [instrCodeOf, seqNumOf, List.getElem?_cons_zero, if_neg hcode]
    split_ifs <;> exact ⟨_, rfl⟩
  · simp only [IsEncoding, not_or] at h
    obtain ⟨h₁, h₂, h₃, h₄⟩ := h
    simp only [instrCodeOf, List.getElem?_cons_zero, if_neg h₁, if_neg h₂, if_neg h₃, if_neg h₄]
    split_ifs <;> exact ⟨_, rfl⟩
  · have hle : (byte :: bytes).length ≤ maxDataLen := by
      simp only [List.length_cons, maxDataLen, maxSegmentLen] at hlen ⊢
      omega
    have hcode : code ≠ instrCodeData := fun hc => h ⟨hc, hle⟩
    rw [dataOf_cons_cons hle]
    simp only [instrCodeOf, seqNumOf, List.getElem?_cons_zero, List.getElem?_cons_succ,
      Option.map_some, if_neg hcode]
    split_ifs <;> exact ⟨_, rfl⟩

theorem tryFrom_eq_ok_iff (b : List UInt8) (s : Segment) :
    Segment.tryFrom b = .ok s ↔ s.intoBytes = b := by
  constructor
  · intro h
    by_cases hb : IsEncoding b
    · obtain ⟨s', rfl⟩ := exists_of_isEncoding hb
      rw [Segment.tryFrom_intoBytes] at h
      rw [Except.ok.inj h]
    · obtain ⟨message, hm⟩ := tryFrom_of_not_isEncoding hb
      rw [hm] at h
      cases h
  · rintro rfl
    exact s.tryFrom_intoBytes

theorem intoBytes_injective : Function.Injective Segment.intoBytes := by
  intro x y h
  have htry := Segment.tryFrom_intoBytes x
  rw [h, Segment.tryFrom_intoBytes] at htry
  exact (Except.ok.inj htry).symm

/-- No datagram that is too long for the buffer is taken for a segment. -/
theorem eq_intoBytes_of_take {data : List UInt8} {segment : Segment}
    (h : Segment.tryFrom (data.take (maxSegmentLen + 1)) = .ok segment) :
    data = segment.intoBytes := by
  have heq := (tryFrom_eq_ok_iff _ _).1 h
  have hle := length_intoBytes_le segment
  rw [heq, List.length_take] at hle
  rw [heq, List.take_of_length_le (by omega)]

/-- **The codec is a bijection** between the segments and the encodings, which are at most
`MAX_SEGMENT_LEN` bytes long; every other byte string is rejected, without a panic. -/
theorem segment_codec (b : List UInt8) :
    (∀ s, Literal.tryFrom b = .ok (.ok s) ↔ s.intoBytes = b) ∧
      (IsEncoding b ↔ ∃ s : Segment, s.intoBytes = b) ∧
      (IsEncoding b → b.length ≤ maxSegmentLen) ∧
      (¬IsEncoding b → ∃ message, Literal.tryFrom b = .ok (.error (invalidInput message))) := by
  have hiff : IsEncoding b ↔ ∃ s : Segment, s.intoBytes = b := by
    refine ⟨exists_of_isEncoding, ?_⟩
    rintro ⟨s, rfl⟩
    exact isEncoding_intoBytes s
  refine ⟨fun s => ?_, hiff, fun h => ?_, fun h => ?_⟩
  · rw [Literal.tryFrom_eq, Except.ok.injEq]
    exact tryFrom_eq_ok_iff b s
  · obtain ⟨s, rfl⟩ := hiff.1 h
    exact length_intoBytes_le s
  · obtain ⟨message, hm⟩ := tryFrom_of_not_isEncoding h
    exact ⟨message, by rw [Literal.tryFrom_eq, hm]⟩

end Mdswp
