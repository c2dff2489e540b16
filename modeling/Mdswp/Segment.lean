import Mdswp.Util

/-!
# Segments (`segment.rs`)

The segments of the protocol, and the byte strings that carry them in a datagram.
-/

namespace Mdswp

/-- `MAX_SEGMENT_LEN`. -/
def maxSegmentLen : ℕ := 512

/-- `MAX_DATA_LEN`: the instruction code and the sequence number take one byte each. -/
def maxDataLen : ℕ := maxSegmentLen - (1 + 1)

abbrev InstrCode := UInt8

def instrCodeReset : InstrCode := 0x00
def instrCodeEstablish : InstrCode := 0x01
def instrCodeAcknowledge : InstrCode := 0x10
def instrCodeAccept : InstrCode := 0x11
def instrCodeFinish : InstrCode := 0x12
def instrCodeData : InstrCode := 0x13

/-! ## Data -/

/-- `DataSegment`. The only constructor of the source is `tryFrom`, which admits 1 to
`MAX_DATA_LEN` bytes. -/
structure DataSegment where
  data : List UInt8
  ne_nil : data ≠ []
  length_le : data.length ≤ maxDataLen
  deriving DecidableEq, Repr

def DataSegment.tryFrom (data : List UInt8) : IoResult DataSegment :=
  if h₁ : data = [] then .error ⟨.invalidInput, "No data"⟩
  else if h₂ : maxDataLen < data.length then .error ⟨.invalidInput, "Data too long"⟩
  else .ok ⟨data, h₁, Nat.le_of_not_lt h₂⟩

/-- The conversion succeeds exactly on 1 to `MAX_DATA_LEN` bytes. -/
theorem DataSegment.tryFrom_eq_ok {bytes : List UInt8} {d : DataSegment} :
    tryFrom bytes = .ok d ↔ d.data = bytes := by
  obtain ⟨data, hne, hlen⟩ := d
  unfold tryFrom
  constructor
  · intro h
    split_ifs at h
    exact (congrArg DataSegment.data (Except.ok.inj h)).symm
  · rintro rfl
    rw [dif_neg hne, dif_neg (Nat.not_lt.2 hlen)]

/-- The bytes that `write` and `flush` take from a buffer make a segment. -/
theorem DataSegment.exists_tryFrom_take {l : List UInt8} (h : l ≠ []) :
    ∃ d, tryFrom (l.take (min maxDataLen l.length)) = .ok d := by
  have hpos := List.length_pos_iff.2 h
  have hlen : (l.take (min maxDataLen l.length)).length = min maxDataLen l.length := by
    rw [List.length_take]
    omega
  refine ⟨⟨l.take (min maxDataLen l.length), ?_, by omega⟩, tryFrom_eq_ok.2 rfl⟩
  rw [← List.length_pos_iff, hlen, maxDataLen, maxSegmentLen]
  omega

/-! ## Segments -/

inductive SequentialSegment
  | accept
  | finish
  | data (data : DataSegment)
  deriving DecidableEq, Repr

theorem finish_ne_accept : SequentialSegment.finish ≠ .accept := SequentialSegment.noConfusion

theorem data_ne_accept (d : DataSegment) : SequentialSegment.data d ≠ .accept :=
  SequentialSegment.noConfusion

/-- The bytes of the user that a segment carries. -/
def SequentialSegment.payload : SequentialSegment → List UInt8
  | .accept => []
  | .data d => d.data
  | .finish => []

/-- The bytes that the segments carry. -/
def bytesOf (segments : List SequentialSegment) : List UInt8 :=
  segments.flatMap SequentialSegment.payload

theorem bytesOf_append (xs ys : List SequentialSegment) :
    bytesOf (xs ++ ys) = bytesOf xs ++ bytesOf ys := List.flatMap_append

theorem bytesOf_map_data (ds : List DataSegment) :
    bytesOf (ds.map .data) = ds.flatMap DataSegment.data := by
  induction ds with
  | nil => rfl
  | cons d ds ih =>
    rw [List.map_cons, List.flatMap_cons, ← ih]
    rfl

/-- The text of `Debug for SequentialSegment`. -/
def SequentialSegment.debug : SequentialSegment → String
  | .accept => "ACCEPT"
  | .data d =>
    let len := min d.data.length 10
    s!"DATA ({d.data.length} bytes total, first {len} bytes: {(d.data.take len).map UInt8.toNat})"
  | .finish => "FINISH"

inductive Segment
  | establish (startSeqNum : SequenceNumber)
  | reset
  | acknowledge (seqNum : SequenceNumber)
  | sequential (seqNum : SequenceNumber) (variant : SequentialSegment)
  deriving DecidableEq, Repr

/-- The text of `Debug` and of `Display for Segment`. -/
def Segment.debug : Segment → String
  | .establish startSeqNum => s!"ESTABLISH (start_seq_num: {startSeqNum.toNat})"
  | .reset => "RESET"
  | .acknowledge seqNum => s!"ACKNOWLEDGE (seq_num: {seqNum.toNat})"
  | .sequential seqNum variant =>
    match variant with
    | .accept => s!"ACCEPT (start_seq_num: {seqNum.toNat})"
    | .finish => s!"FINISH (seq_num: {seqNum.toNat})"
    | .data d =>
      let len := min d.data.length 10
      s!"DATA (seq_num: {seqNum.toNat}, data: <{d.data.length} bytes> " ++
        s!"first {len} bytes: {(d.data.take len).map UInt8.toNat})"

def Segment.intoBytes : Segment → List UInt8
  | .establish startSeqNum => [instrCodeEstablish, .ofBitVec startSeqNum]
  | .reset => [instrCodeReset]
  | .acknowledge seqNum => [instrCodeAcknowledge, .ofBitVec seqNum]
  | .sequential seqNum variant =>
    match variant with
    | .accept => [instrCodeAccept, .ofBitVec seqNum]
    | .finish => [instrCodeFinish, .ofBitVec seqNum]
    | .data data => instrCodeData :: .ofBitVec seqNum :: data.data

/-- The bytes `RANGE_INSTR_CODE`, the first one. -/
def instrCodeOf (segment : List UInt8) : Option InstrCode := segment[0]?

/-- The bytes `RANGE_SEQ_NUM`, the second one. -/
def seqNumOf (segment : List UInt8) : Option SequenceNumber := segment[1]?.map UInt8.toBitVec

/-- The bytes `RANGE_DATA`, from the third one on; the range is out of bounds for fewer than two
bytes. -/
def dataOf (segment : List UInt8) : Option DataSegment :=
  if 2 ≤ segment.length then (DataSegment.tryFrom (segment.drop 2)).toOption else none

def invalidInput (message : String) : IoError := ⟨.invalidInput, message⟩

/-- `TryFrom<&[u8]> for Segment`. -/
def Segment.tryFrom (segment : List UInt8) : IoResult Segment :=
  if maxSegmentLen < segment.length then .error (invalidInput "Invalid segment length")
  else
    match instrCodeOf segment with
    | none => .error (invalidInput "Invalid segment length")
    | some instrCode =>
      if instrCode = instrCodeEstablish then
        match seqNumOf segment, dataOf segment with
        | some startSeqNum, none => .ok (.establish startSeqNum)
        | _, _ => .error (invalidInput "Invalid ESTABLISH segment")
      else if instrCode = instrCodeReset then
        match seqNumOf segment with
        | none => .ok .reset
        | some _ => .error (invalidInput "Invalid RESET segment")
      else if instrCode = instrCodeAccept then
        match seqNumOf segment, dataOf segment with
        | some seqNum, none => .ok (.sequential seqNum .accept)
        | _, _ => .error (invalidInput "Invalid ACCEPT segment")
      else if instrCode = instrCodeFinish then
        match seqNumOf segment, dataOf segment with
        | some seqNum, none => .ok (.sequential seqNum .finish)
        | _, _ => .error (invalidInput "Invalid FINISH segment")
      else if instrCode = instrCodeAcknowledge then
        match seqNumOf segment, dataOf segment with
        | some seqNum, none => .ok (.acknowledge seqNum)
        | _, _ => .error (invalidInput "Invalid ACKNOWLEDGE segment")
      else if instrCode = instrCodeData then
        match seqNumOf segment, dataOf segment with
        | some seqNum, some data => .ok (.sequential seqNum (.data data))
        | _, _ => .error (invalidInput "Invalid DATA segment")
      else .error (invalidInput "Malformed segment: unknown type")

/-! ## Decoding an encoding -/

theorem length_intoBytes_le (s : Segment) : s.intoBytes.length ≤ maxSegmentLen := by
  cases s with
  | sequential seqNum variant =>
    cases variant with
    | data d =>
      have := d.length_le
      simp only [Segment.intoBytes, List.length_cons, maxDataLen, maxSegmentLen] at *
      omega
    | accept => simp [Segment.intoBytes, maxSegmentLen]
    | finish => simp [Segment.intoBytes, maxSegmentLen]
  | establish startSeqNum => simp [Segment.intoBytes, maxSegmentLen]
  | reset => simp [Segment.intoBytes, maxSegmentLen]
  | acknowledge seqNum => simp [Segment.intoBytes, maxSegmentLen]

/-- Decoding undoes encoding. -/
@[simp] theorem Segment.tryFrom_intoBytes (s : Segment) : tryFrom s.intoBytes = .ok s := by
  rw [tryFrom, if_neg (Nat.not_lt.2 (length_intoBytes_le s))]
  cases s with
  | sequential seqNum variant =>
    cases variant with
    | data d =>
      have hd : DataSegment.tryFrom d.data = .ok d := DataSegment.tryFrom_eq_ok.2 rfl
      simp [intoBytes, instrCodeOf, seqNumOf, dataOf, hd, Except.toOption, instrCodeData,
        instrCodeEstablish, instrCodeReset, instrCodeAccept, instrCodeFinish,
        instrCodeAcknowledge]
    | accept => rfl
    | finish => rfl
  | establish startSeqNum => rfl
  | reset => rfl
  | acknowledge seqNum => rfl

end Mdswp
