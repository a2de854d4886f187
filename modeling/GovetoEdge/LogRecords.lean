import GovetoEdge.BigEndian
import GovetoEdge.GoJson

/-!
# Log records and their envelopes

In the queue on disk a log record is an envelope: a header of fixed size with
the lengths of the fields of variable size, and these fields.  A slice out of
range is a panic in Go; here it is the fault `panic`, so that the bounds checks
of the decoder are part of the model.

* `decodeLogEnvelope_eq`: the decoder stays within the envelope;
* `decodeLogEnvelope_encode`: it reads back what was written, with the time cut
  to 64 bits;
* `decodeLogEnvelope_take`: it refuses an envelope that was cut short.
-/

namespace LogRecords

open GoStrings BigEndian

/-- The zero value of `time.Time`: the first of January of year 1.  Instants are
nanoseconds since 1970. -/
def zeroTime : Int := -62135596800 * 10 ^ 9

/-- `LogRecord`. -/
structure LogRecord where
  id : Nat
  type : GoString
  siteID : GoString
  configVersion : UInt64
  createdAt : Int
  payload : GoString
deriving DecidableEq, Inhabited

/-- The errors of the log queue. -/
inductive LogError
  /-- log record %d: log payload is empty -/
  | payloadEmpty (index : Nat)
  /-- log record %d: log payload is invalid JSON -/
  | payloadInvalid (index : Nat)
  /-- log record %d: log record metadata is too long -/
  | metadataTooLong (index : Nat)
  /-- log record exceeds queue capacity -/
  | recordTooLarge
  /-- unsupported log queue chunk format -/
  | chunkFormat
  /-- empty log queue chunk -/
  | chunkEmpty
  /-- truncated log queue chunk -/
  | chunkTruncated
  /-- invalid log queue chunk record length -/
  | chunkRecordLength
  /-- log queue chunk has trailing data -/
  | chunkTrailing
  /-- invalid log queue chunk trim -/
  | chunkTrim
  /-- unsupported log queue record format -/
  | recordFormat
  /-- invalid log queue record length -/
  | recordLength
  /-- invalid log queue JSON payload -/
  | recordPayload
deriving DecidableEq

/-- How a function of the queue fails. -/
inductive Fault
  | error (reason : LogError)
  /-- an index or a slice out of range -/
  | panic
  /-- a loop that does not end -/
  | diverged
deriving DecidableEq

/-- A value, or an error that is reported: neither a panic nor an endless loop. -/
def Reports {α : Type} (result : Except Fault α) : Prop :=
  (∃ a, result = .ok a) ∨ ∃ reason, result = .error (.error reason)

theorem Reports.ok {α : Type} (a : α) : Reports (.ok a) := .inl ⟨a, rfl⟩

theorem Reports.error {α : Type} (reason : LogError) :
    Reports (.error (.error reason) : Except Fault α) := .inr ⟨reason, rfl⟩

/-- Both report. -/
theorem Reports.bind {α β : Type} {x : Except Fault α} {f : α → Except Fault β}
    (hx : Reports x) (hf : ∀ a, x = .ok a → Reports (f a)) : Reports (x >>= f) := by
  rcases hx with ⟨a, rfl⟩ | ⟨reason, rfl⟩
  · exact hf a rfl
  · exact .error reason

/-- `data[i]`. -/
def byteAt (data : GoString) (i : Nat) : Except Fault UInt8 :=
  match data[i]? with
  | some b => .ok b
  | none => .error .panic

/-- `data[i:j]`. -/
def sliceOf (data : GoString) (i j : Nat) : Except Fault GoString :=
  if i ≤ j ∧ j ≤ data.length then .ok (slice data i j) else .error .panic

theorem sliceOf_ok {data : GoString} {i j : Nat} (h : i ≤ j ∧ j ≤ data.length) :
    sliceOf data i j = .ok (slice data i j) := if_pos h

def logEnvelopeVersion : UInt8 := 1

/-- The fixed part of an envelope. -/
def headerSize : Nat := 1 + 2 + 2 + 8 + 8 + 4

/-- `logEnvelopeSize`; nothing when the metadata is too long. -/
def logEnvelopeSize (record : LogRecord) : Option Nat :=
  if record.type.length > 2 ^ 16 - 1 ∨ record.siteID.length > 2 ^ 16 - 1 ∨
      record.payload.length > 2 ^ 32 - 1 then none
  else some (headerSize + record.type.length + record.siteID.length + record.payload.length)

/-- `createdAt.UnixNano()` in the bits of a `uint64`. -/
def unixNano (t : Int) : Nat := (t % 2 ^ 64).toNat

/-- `time.Unix(0, int64(n))`. -/
def timeUnix (n : Nat) : Int := (n : Int).bmod (2 ^ 64)

/-- The time that is stored. -/
def LogRecord.instant (record : LogRecord) (defaultTime : Int) : Int :=
  if record.createdAt = zeroTime then defaultTime else record.createdAt

/-- `encodeLogEnvelopeInto`. -/
def encodeLogEnvelope (record : LogRecord) (defaultTime : Int) : GoString :=
  [logEnvelopeVersion] ++ put 2 record.type.length ++ put 2 record.siteID.length ++
    put 8 record.configVersion.toNat ++ put 8 (unixNano (record.instant defaultTime)) ++
    put 4 record.payload.length ++ record.type ++ record.siteID ++ record.payload

/-- `decodeLogEnvelope`. -/
def decodeLogEnvelope (data : GoString) (id : Nat) : Except Fault LogRecord :=
  if data.length < headerSize then .error (.error .recordFormat)
  else do
    let version ← byteAt data 0
    if version ≠ logEnvelopeVersion then .error (.error .recordFormat)
    else do
      let typeSize := get (← sliceOf data 1 3)
      let siteSize := get (← sliceOf data 3 5)
      let payloadSize := get (← sliceOf data 21 25)
      if headerSize + typeSize + siteSize + payloadSize ≠ data.length then
        .error (.error .recordLength)
      else do
        let offset := headerSize
        let type ← sliceOf data offset (offset + typeSize)
        let configVersion ← sliceOf data 5 13
        let createdAt ← sliceOf data 13 21
        let offset := offset + typeSize
        let siteID ← sliceOf data offset (offset + siteSize)
        let offset := offset + siteSize
        let payload ← sliceOf data offset data.length
        if GoJson.valid payload then
          .ok ⟨id, type, siteID, UInt64.ofNat (get configVersion), timeUnix (get createdAt),
            payload⟩
        else .error (.error .recordPayload)

/-- The length that the header of an envelope gives. -/
def headerLength (data : GoString) : Nat :=
  headerSize + get (slice data 1 3) + get (slice data 3 5) + get (slice data 21 25)

/-- The record in an envelope of the length that its header gives. -/
def fields (data : GoString) (id : Nat) : LogRecord where
  id := id
  type := slice data headerSize (headerSize + get (slice data 1 3))
  siteID := slice data (headerSize + get (slice data 1 3))
    (headerSize + get (slice data 1 3) + get (slice data 3 5))
  configVersion := UInt64.ofNat (get (slice data 5 13))
  createdAt := timeUnix (get (slice data 13 21))
  payload := slice data (headerSize + get (slice data 1 3) + get (slice data 3 5)) data.length

/-- **The decoder stays within the envelope**: none of its slices is out of
range. -/
theorem decodeLogEnvelope_eq (data : GoString) (id : Nat) :
    decodeLogEnvelope data id =
      if data.length < headerSize ∨ data[0]? ≠ some logEnvelopeVersion then
        .error (.error .recordFormat)
      else if headerLength data ≠ data.length then .error (.error .recordLength)
      else if GoJson.valid (fields data id).payload then .ok (fields data id)
      else .error (.error .recordPayload) := by
  unfold decodeLogEnvelope
  by_cases hshort : data.length < headerSize
  · rw [if_pos hshort, if_pos (.inl hshort)]
  · rw [if_neg hshort]
    have hlength : 25 ≤ data.length := not_lt.mp hshort
    have hversion : byteAt data 0 = .ok (data[0]) := by
      simp [byteAt, List.getElem?_eq_getElem (show 0 < data.length by omega)]
    rw [hversion, sliceOf_ok (by omega), sliceOf_ok (by omega), sliceOf_ok (by omega),
      sliceOf_ok (by omega), sliceOf_ok (by omega),
      List.getElem?_eq_getElem (show 0 < data.length by omega)]
    show (if data[0] ≠ logEnvelopeVersion then _ else _) = _
    by_cases hfirst : data[0] = logEnvelopeVersion
    · rw [if_neg (not_not_intro hfirst), if_neg (by simp [hshort, hfirst])]
      show (if headerLength data ≠ data.length then _ else _) = _
      by_cases hsize : headerLength data = data.length
      · unfold headerLength at hsize
        rw [sliceOf_ok (by omega)]
        dsimp only
        rw [sliceOf_ok (by omega), sliceOf_ok (by omega)]
        rfl
      · rw [if_pos hsize, if_pos hsize]
    · rw [if_pos hfirst, if_pos (by simp [hfirst])]

/-- Decoding never panics. -/
theorem decodeLogEnvelope_reports (data : GoString) (id : Nat) :
    Reports (decodeLogEnvelope data id) := by
  rw [decodeLogEnvelope_eq]
  split
  · exact .error _
  · split
    · exact .error _
    · split
      · exact .ok _
      · exact .error _

/-- What `logEnvelopeSize` accepts. -/
structure Fits (record : LogRecord) : Prop where
  type : record.type.length < 2 ^ 16
  siteID : record.siteID.length < 2 ^ 16
  payload : record.payload.length < 2 ^ 32

/-- Records whose fields fit have a size. -/
theorem logEnvelopeSize_eq_some {record : LogRecord} {size : Nat}
    (h : logEnvelopeSize record = some size) : Fits record ∧
      size = headerSize + record.type.length + record.siteID.length + record.payload.length := by
  unfold logEnvelopeSize at h
  split at h
  · cases h
  · exact ⟨⟨by omega, by omega, by omega⟩, (Option.some.inj h).symm⟩

theorem logEnvelopeSize_of_fits {record : LogRecord} (h : Fits record) :
    logEnvelopeSize record =
      some (headerSize + record.type.length + record.siteID.length + record.payload.length) := by
  obtain ⟨htype, hsite, hpayload⟩ := h
  exact if_neg (by omega)

/-- The size is that of the envelope. -/
theorem length_encodeLogEnvelope (record : LogRecord) (defaultTime : Int) :
    (encodeLogEnvelope record defaultTime).length =
      headerSize + record.type.length + record.siteID.length + record.payload.length := by
  simp only [encodeLogEnvelope, List.length_append, List.length_singleton, length_put]
  rfl

variable {record : LogRecord}

/-- The header, as one part. -/
def header (record : LogRecord) (defaultTime : Int) : GoString :=
  [logEnvelopeVersion] ++ put 2 record.type.length ++ put 2 record.siteID.length ++
    put 8 record.configVersion.toNat ++ put 8 (unixNano (record.instant defaultTime)) ++
    put 4 record.payload.length

theorem length_header (record : LogRecord) (defaultTime : Int) :
    (header record defaultTime).length = headerSize := by
  simp [header, headerSize]

/-- The header and three texts. -/
theorem encodeLogEnvelope_eq (record : LogRecord) (defaultTime : Int) :
    encodeLogEnvelope record defaultTime =
      header record defaultTime ++ (record.type ++ (record.siteID ++ record.payload)) := by
  simp only [encodeLogEnvelope, header, List.append_assoc]

/-- The numbers in the header, whatever follows. -/
theorem header_fields (h : Fits record) (defaultTime : Int) (rest : GoString) :
    get (slice (header record defaultTime ++ rest) 1 3) = record.type.length ∧
      get (slice (header record defaultTime ++ rest) 3 5) = record.siteID.length ∧
      get (slice (header record defaultTime ++ rest) 5 13) = record.configVersion.toNat ∧
      get (slice (header record defaultTime ++ rest) 13 21) =
        unixNano (record.instant defaultTime) ∧
      get (slice (header record defaultTime ++ rest) 21 25) = record.payload.length := by
  have hversion : ([logEnvelopeVersion] : GoString).length = 1 := rfl
  have hnano : unixNano (record.instant defaultTime) < 256 ^ 8 := by
    unfold unixNano
    omega
  have hconfig : record.configVersion.toNat < 256 ^ 8 := record.configVersion.toNat_lt
  obtain ⟨htype, hsite, hpayload⟩ := h
  simp only [header, List.append_assoc]
  simp (disch := simp [hversion]) only [slice_append_right, slice_append_left, hversion,
    length_put, Nat.reduceSub]
  exact ⟨get_put_of_lt (by omega), get_put_of_lt (by omega), get_put_of_lt hconfig,
    get_put_of_lt hnano, get_put_of_lt (by omega)⟩

/-- The time that comes back. -/
theorem timeUnix_unixNano (t : Int) : timeUnix (unixNano t) = t.bmod (2 ^ 64) := by
  unfold timeUnix unixNano
  rw [Int.toNat_of_nonneg (Int.emod_nonneg _ (by decide))]
  exact Int.emod_bmod t (2 ^ 64)

/-- The record that is read back. -/
def LogRecord.decoded (record : LogRecord) (defaultTime : Int) (id : Nat) : LogRecord :=
  { record with id := id, createdAt := (record.instant defaultTime).bmod (2 ^ 64) }

/-- **Envelopes are read back.** -/
theorem fields_encodeLogEnvelope (h : Fits record) (defaultTime : Int) (id : Nat) :
    fields (encodeLogEnvelope record defaultTime) id = record.decoded defaultTime id := by
  obtain ⟨htype, hsite, hconfig, hnano, -⟩ :=
    header_fields h defaultTime (record.type ++ (record.siteID ++ record.payload))
  have hlength := length_encodeLogEnvelope record defaultTime
  have hheader := length_header record defaultTime
  rw [← encodeLogEnvelope_eq] at htype hsite hconfig hnano
  unfold fields LogRecord.decoded
  rw [htype, hsite, hconfig, hnano, timeUnix_unixNano, hlength, UInt64.ofNat_toNat]
  congr 1
  · rw [encodeLogEnvelope_eq]
    exact slice_middle _ _ _ hheader rfl
  · rw [encodeLogEnvelope_eq, ← List.append_assoc]
    exact slice_middle _ _ _ (by rw [List.length_append, hheader]) rfl
  · rw [encodeLogEnvelope_eq, ← List.append_assoc, ← List.append_assoc]
    exact slice_last _ _ (by rw [List.length_append, List.length_append, hheader]) rfl

/-- **The round trip.** -/
theorem decodeLogEnvelope_encode (h : Fits record) (hvalid : GoJson.valid record.payload)
    (defaultTime : Int) (id : Nat) :
    decodeLogEnvelope (encodeLogEnvelope record defaultTime) id =
      .ok (record.decoded defaultTime id) := by
  have hfields := fields_encodeLogEnvelope h defaultTime id
  have hlength := length_encodeLogEnvelope record defaultTime
  have hheader : headerLength (encodeLogEnvelope record defaultTime) =
      (encodeLogEnvelope record defaultTime).length := by
    obtain ⟨htype, hsite, -, -, hpayload⟩ :=
      header_fields h defaultTime (record.type ++ (record.siteID ++ record.payload))
    rw [hlength, headerLength, encodeLogEnvelope_eq, htype, hsite, hpayload]
  have hpayload : GoJson.valid (record.decoded defaultTime id).payload := hvalid
  rw [decodeLogEnvelope_eq, hfields, if_neg, if_neg (not_not_intro hheader), if_pos hpayload]
  rintro (hshort | hversion)
  · omega
  · exact hversion rfl

/-- An envelope that was cut short is refused. -/
theorem decodeLogEnvelope_take (h : Fits record) (defaultTime : Int) (id : Nat) {n : Nat}
    (hn : n < (encodeLogEnvelope record defaultTime).length) :
    ∃ reason, decodeLogEnvelope ((encodeLogEnvelope record defaultTime).take n) id =
      .error (.error reason) := by
  rw [decodeLogEnvelope_eq]
  split
  · exact ⟨_, rfl⟩
  · next hformat =>
    have hheader := length_header record defaultTime
    have hlength : ((encodeLogEnvelope record defaultTime).take n).length = n := by
      rw [List.length_take]
      omega
    -- the header is whole, so that it gives the length of the whole envelope
    have htake : (encodeLogEnvelope record defaultTime).take n = header record defaultTime ++
        (record.type ++ (record.siteID ++ record.payload)).take (n - headerSize) := by
      rw [encodeLogEnvelope_eq, List.take_append, hheader,
        List.take_of_length_le (by omega)]
    have hsize : headerLength ((encodeLogEnvelope record defaultTime).take n) =
        (encodeLogEnvelope record defaultTime).length := by
      rw [htake, length_encodeLogEnvelope]
      obtain ⟨htype, hsite, -, -, hpayload⟩ := header_fields h defaultTime
        ((record.type ++ (record.siteID ++ record.payload)).take (n - headerSize))
      rw [headerLength, htype, hsite, hpayload]
    rw [if_pos (by omega)]
    exact ⟨_, rfl⟩

end LogRecords
