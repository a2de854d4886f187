import GovetoEdge.LogRecords
import GovetoEdge.Fallible

/-!
# Chunks of log records

The queue stores records in chunks: a version, a count of four bytes, and the
envelopes, each after its length in four bytes.  `buildLogChunks` splits a list
of records into chunks that the queue can hold; `visitLogChunk` walks through
a chunk, which may be any byte string, and `trimLogChunk` removes records from
its front.

* `Chunked` says what `buildLogChunks` produces (`buildLogChunks_chunked`);
* `decodeLogChunk_reports`: the decoder never reads outside a chunk.
-/

namespace LogChunks

open GoStrings BigEndian LogRecords Fallible

def logChunkVersion : UInt8 := 1

/-- Records of one chunk. -/
def maxChunkRecords : Nat := 1024

/-- `encodedLogChunk`. -/
structure EncodedLogChunk where
  start : Nat
  count : Nat
  data : GoString
deriving DecidableEq

/-- The inner loop of `buildLogChunks`: how many of the records go into the chunk
that holds `taken` records and has `size` bytes. -/
def chunkEnd (maxBytes : Nat) : List LogRecord → Nat → Nat → Nat → Except Fault Nat
  | [], _, taken, _ => .ok taken
  | record :: records, index, taken, size =>
    if maxChunkRecords ≤ taken then .ok taken
    else if record.payload = [] then .error (.error (.payloadEmpty index))
    else if !GoJson.valid record.payload then .error (.error (.payloadInvalid index))
    else match logEnvelopeSize record with
      | none => .error (.error (.metadataTooLong index))
      | some recordSize =>
        if 5 + 4 + recordSize > maxBytes then .error (.error .recordTooLarge)
        else if 0 < taken ∧ size + 4 + recordSize > maxBytes then .ok taken
        else chunkEnd maxBytes records (index + 1) (taken + 1) (size + 4 + recordSize)

/-- A record in a chunk; four bytes are kept of its size. -/
def encodeRecord (defaultTime : Int) (record : LogRecord) : GoString :=
  put 4 ((logEnvelopeSize record).getD 0) ++ encodeLogEnvelope record defaultTime

/-- Version, number and records. -/
def encodeChunk (defaultTime : Int) (records : List LogRecord) : GoString :=
  [logChunkVersion] ++ put 4 records.length ++ records.flatMap (encodeRecord defaultTime)

/-- The outer loop of `buildLogChunks`; every chunk takes a record, so that
`fuel` need not exceed the number of records. -/
def buildLoop (defaultTime : Int) (maxBytes : Nat) :
    Nat → Nat → List LogRecord → Except Fault (List EncodedLogChunk)
  | _, _, [] => .ok []
  | 0, _, _ :: _ => .error .diverged
  | fuel + 1, start, record :: records => do
    let count ← chunkEnd maxBytes (record :: records) start 0 5
    let chunk : EncodedLogChunk :=
      ⟨start, count, encodeChunk defaultTime ((record :: records).take count)⟩
    let chunks ← buildLoop defaultTime maxBytes fuel (start + count)
      ((record :: records).drop count)
    .ok (chunk :: chunks)

/-- `buildLogChunks`. -/
def buildLogChunks (records : List LogRecord) (defaultTime : Int) (maxBytes : Nat) :
    Except Fault (List EncodedLogChunk) :=
  buildLoop defaultTime maxBytes records.length 0 records

/-- `logChunkCount`. -/
def logChunkCount (data : GoString) : Except Fault Nat :=
  if data.length < 5 then .error (.error .chunkFormat)
  else do
    let version ← byteAt data 0
    if version ≠ logChunkVersion then .error (.error .chunkFormat)
    else do
      let count := get (← sliceOf data 1 5)
      if count < 1 then .error (.error .chunkEmpty) else .ok count

section Visit

variable {σ : Type} (visit : σ → Nat → GoString → Except Fault (σ × Bool))

/-- The loop of `visitLogChunk`.  `visit` says whether to go on; what it fails
with is returned, as the callers do after a walk that they stopped. -/
def visitLoop (data : GoString) : Nat → Nat → Nat → σ → Except Fault σ
  | 0, _, offset, s =>
    if offset ≠ data.length then .error (.error .chunkTrailing) else .ok s
  | remaining + 1, index, offset, s =>
    if offset + 4 > data.length then .error (.error .chunkTruncated)
    else do
      let size := get (← sliceOf data offset (offset + 4))
      let offset := offset + 4
      if size < 1 ∨ offset + size > data.length then .error (.error .chunkRecordLength)
      else do
        let envelope ← sliceOf data offset (offset + size)
        let result ← visit s index envelope
        if result.2 then visitLoop data remaining (index + 1) (offset + size) result.1
        else .ok result.1

/-- `visitLogChunk`. -/
def visitLogChunk (data : GoString) (s : σ) : Except Fault σ := do
  let count ← logChunkCount data
  visitLoop visit data count 0 5 s

end Visit

/-- The loop of `trimLogChunk`: the offset after the records to remove. -/
def trimLoop (data : GoString) : Nat → Nat → Except Fault Nat
  | 0, offset => .ok offset
  | remove + 1, offset =>
    if offset + 4 > data.length then .error (.error .chunkTruncated)
    else do
      let size := get (← sliceOf data offset (offset + 4))
      if size < 1 ∨ offset + 4 + size > data.length then .error (.error .chunkRecordLength)
      else trimLoop data remove (offset + (4 + size))

/-- `trimLogChunk`; a chunk that loses all of its records is empty. -/
def trimLogChunk (data : GoString) (remove : Int) : Except Fault GoString := do
  let count ← logChunkCount data
  if remove < 0 ∨ remove > count then .error (.error .chunkTrim)
  else if remove = count then .ok []
  else do
    let offset ← trimLoop data remove.toNat 5
    let rest ← sliceOf data offset data.length
    .ok ([logChunkVersion] ++ put 4 (count - remove.toNat) ++ rest)

/-- `oversizedLogChunkHead`. -/
def oversizedLogChunkHead (data : GoString) (maxBytes : Nat) : Except Fault Nat :=
  visitLogChunk (fun oversized _ envelope =>
    .ok (if envelope.length + 4 ≤ maxBytes then (oversized, false) else (oversized + 1, true)))
    data 0

/-- A walk that decodes every record, as `BatchSized` does when nothing stops it. -/
def decodeVisit (firstID : Nat) (records : List LogRecord) (index : Nat) (envelope : GoString) :
    Except Fault (List LogRecord × Bool) := do
  let record ← decodeLogEnvelope envelope (firstID + index)
  .ok (records ++ [record], true)

/-- The records of a chunk. -/
def decodeLogChunk (data : GoString) (firstID : Nat) : Except Fault (List LogRecord) :=
  visitLogChunk (decodeVisit firstID) data []

/-- Of all chunks. -/
def decodeLogChunks (firstID : Nat) : List EncodedLogChunk → Except Fault (List LogRecord)
  | [] => .ok []
  | chunk :: chunks => do
    let records ← decodeLogChunk chunk.data (firstID + chunk.start)
    let rest ← decodeLogChunks firstID chunks
    .ok (records ++ rest)

/-- A record that `buildLogChunks` accepts. -/
structure Accepted (record : LogRecord) : Prop where
  payload : record.payload ≠ []
  valid : GoJson.valid record.payload
  fits : Fits record

/-- The chunks of a list of records. -/
inductive Chunked (defaultTime : Int) (maxBytes : Nat) :
    Nat → List LogRecord → List EncodedLogChunk → Prop
  | nil (start : Nat) : Chunked defaultTime maxBytes start [] []
  | cons {start : Nat} {records rest : List LogRecord} {chunks : List EncodedLogChunk}
      (hne : records ≠ []) (hcount : records.length ≤ maxChunkRecords)
      (haccepted : ∀ r ∈ records, Accepted r)
      (hsize : (encodeChunk defaultTime records).length ≤ maxBytes)
      (hrest : Chunked defaultTime maxBytes (start + records.length) rest chunks) :
      Chunked defaultTime maxBytes start (records ++ rest)
        (⟨start, records.length, encodeChunk defaultTime records⟩ :: chunks)

section Build

variable {defaultTime : Int} {maxBytes : Nat}

/-- Length and envelope. -/
theorem encodeRecord_eq (defaultTime : Int) {record : LogRecord} (h : Accepted record) :
    encodeRecord defaultTime record =
      put 4 (encodeLogEnvelope record defaultTime).length ++
        encodeLogEnvelope record defaultTime := by
  rw [encodeRecord, logEnvelopeSize_of_fits h.fits, length_encodeLogEnvelope]
  rfl

theorem length_encodeRecord (defaultTime : Int) (record : LogRecord) :
    (encodeRecord defaultTime record).length =
      4 + (encodeLogEnvelope record defaultTime).length := by
  rw [encodeRecord, List.length_append, length_put]

variable {records : List LogRecord}

/-- The records that the inner loop takes are accepted, and fit into the chunk. -/
theorem chunkEnd_spec (defaultTime : Int) {index taken size count : Nat}
    (h : chunkEnd maxBytes records index taken size = .ok count) (hstart : taken = 0 → size = 5)
    (hle : taken ≤ maxChunkRecords) :
    ∃ k ≤ records.length, count = taken + k ∧ count ≤ maxChunkRecords ∧
      (∀ r ∈ records.take k, Accepted r) ∧
      (0 < k → size + ((records.take k).flatMap (encodeRecord defaultTime)).length ≤ maxBytes) ∧
      (taken = 0 → records ≠ [] → 0 < k) := by
  induction records generalizing index taken size with
  | nil =>
    obtain rfl : taken = count := by simpa [chunkEnd] using h
    exact ⟨0, le_refl 0, rfl, hle, by simp, by simp, by simp⟩
  | cons record records ih =>
    unfold chunkEnd at h
    split at h
    · next hfull =>
      obtain rfl : taken = count := by simpa using h
      refine ⟨0, Nat.zero_le _, rfl, hle, by simp, by simp, ?_⟩
      rintro rfl _
      cases hfull
    · next hroom =>
      obtain ⟨hpayload, h⟩ := ok_of_guard h
      obtain ⟨hvalid, h⟩ := ok_of_guard h
      split at h
      · cases h
      · next recordSize hrecord =>
        obtain ⟨hfits, hlength⟩ := logEnvelopeSize_eq_some hrecord
        rw [← length_encodeLogEnvelope record defaultTime] at hlength
        have haccepted : Accepted record := ⟨hpayload, by simpa using hvalid, hfits⟩
        obtain ⟨hsmall, h⟩ := ok_of_guard h
        split at h
        · next hstop =>
          obtain rfl : taken = count := by simpa using h
          exact ⟨0, Nat.zero_le _, rfl, hle, by simp, by simp, by omega⟩
        · next hgo =>
          obtain ⟨k, hk, hcount, hmax, hall, hbytes, -⟩ :=
            ih h (by omega) (by omega)
          have hrecordLength := length_encodeRecord defaultTime record
          refine ⟨k + 1, by simpa using hk, by omega, hmax, ?_, ?_,
            fun _ _ => Nat.succ_pos k⟩
          · exact List.forall_mem_cons.mpr ⟨haccepted, hall⟩
          · rw [List.take_succ_cons, List.flatMap_cons, List.length_append]
            rcases Nat.eq_zero_or_pos k with rfl | hpos
            · rw [List.take_zero, List.flatMap_nil, List.length_nil]
              omega
            · have := hbytes hpos
              omega

/-- The head has five bytes. -/
theorem length_encodeChunk (defaultTime : Int) (records : List LogRecord) :
    (encodeChunk defaultTime records).length =
      5 + (records.flatMap (encodeRecord defaultTime)).length := by
  simp only [encodeChunk, List.length_append, List.length_singleton, length_put]

/-- **The loop makes chunks.** -/
theorem buildLoop_chunked {fuel start : Nat} {chunks : List EncodedLogChunk}
    (h : buildLoop defaultTime maxBytes fuel start records = .ok chunks) :
    Chunked defaultTime maxBytes start records chunks := by
  induction fuel generalizing start records chunks with
  | zero =>
    cases records with
    | nil =>
      obtain rfl : chunks = [] := by simpa [buildLoop] using h.symm
      exact .nil start
    | cons record records => exact absurd h (by simp [buildLoop])
  | succ fuel ih =>
    cases records with
    | nil =>
      obtain rfl : chunks = [] := by simpa [buildLoop] using h.symm
      exact .nil start
    | cons record records =>
      obtain ⟨count, hend, h⟩ := exists_of_bind h
      obtain ⟨k, hk, hcount, hmax, hall, hbytes, hpos⟩ :=
        chunkEnd_spec defaultTime hend (fun _ => rfl) (Nat.zero_le _)
      obtain rfl : count = k := by omega
      have hpos := hpos rfl (by simp)
      obtain ⟨rest, hbuild, h⟩ := exists_of_bind h
      cases h
      have hlength : ((record :: records).take count).length = count := by
        rw [List.length_take]
        omega
      have hchunked : Chunked defaultTime maxBytes start
          ((record :: records).take count ++ (record :: records).drop count)
          (⟨start, ((record :: records).take count).length,
            encodeChunk defaultTime ((record :: records).take count)⟩ :: rest) := by
        refine .cons ?_ (by omega) hall ?_ (by rw [hlength]; exact ih hbuild)
        · intro hnil
          rw [hnil] at hlength
          simp only [List.length_nil] at hlength
          omega
        · rw [length_encodeChunk]
          exact hbytes hpos
      rwa [List.take_append_drop, hlength] at hchunked

/-- **What is built.** -/
theorem buildLogChunks_chunked {chunks : List EncodedLogChunk}
    (h : buildLogChunks records defaultTime maxBytes = .ok chunks) :
    Chunked defaultTime maxBytes 0 records chunks :=
  buildLoop_chunked h

/-- A record that fits is a chunk. -/
theorem buildLogChunks_single {record : LogRecord} (h : Accepted record)
    (hfit : 5 + 4 + (encodeLogEnvelope record defaultTime).length ≤ maxBytes) :
    buildLogChunks [record] defaultTime maxBytes =
      .ok [⟨0, 1, encodeChunk defaultTime [record]⟩] := by
  have hend : chunkEnd maxBytes [record] 0 0 5 = .ok 1 := by
    rw [length_encodeLogEnvelope] at hfit
    rw [chunkEnd, logEnvelopeSize_of_fits h.fits, if_neg (by decide), if_neg h.payload,
      if_neg (by simpa using h.valid)]
    dsimp only
    rw [if_neg (by omega), if_neg (by simp), chunkEnd]
  rw [buildLogChunks, List.length_singleton, buildLoop, hend]
  rfl

/-- A record with a payload of 4 GiB less a byte is accepted. -/
theorem exists_long_record :
    ∃ record, Accepted record ∧ (encodeLogEnvelope record 0).length = 2 ^ 32 + 24 := by
  obtain ⟨digits, hlength, hdigit⟩ := GoJson.exists_digits (2 ^ 32 - 2)
  refine ⟨⟨0, [], [], 0, 0, 0x31 :: digits⟩, ⟨List.cons_ne_nil _ _,
    GoJson.valid_digits rfl hdigit, Nat.zero_lt_succ _, Nat.zero_lt_succ _, ?_⟩, ?_⟩
  · rw [List.length_cons, hlength]
    decide
  · rw [length_encodeLogEnvelope]
    show 25 + 0 + 0 + (digits.length + 1) = _
    omega

end Build

/-- The checks of the head. -/
theorem logChunkCount_eq (data : GoString) :
    logChunkCount data =
      if data.length < 5 ∨ data[0]? ≠ some logChunkVersion then .error (.error .chunkFormat)
      else if get (slice data 1 5) < 1 then .error (.error .chunkEmpty)
      else .ok (get (slice data 1 5)) := by
  unfold logChunkCount
  by_cases hshort : data.length < 5
  · rw [if_pos hshort, if_pos (.inl hshort)]
  · rw [if_neg hshort]
    have hversion : byteAt data 0 = .ok (data[0]) := by
      simp [byteAt, List.getElem?_eq_getElem (show 0 < data.length by omega)]
    rw [hversion, sliceOf_ok (by omega), List.getElem?_eq_getElem (show 0 < data.length by omega)]
    show (if data[0] ≠ logChunkVersion then _ else _) = _
    by_cases hfirst : data[0] = logChunkVersion
    · rw [if_neg (not_not_intro hfirst), if_neg (by simp [hshort, hfirst])]
      rfl
    · rw [if_pos hfirst, if_pos (by simp [hfirst])]

theorem logChunkCount_reports (data : GoString) : Reports (logChunkCount data) := by
  rw [logChunkCount_eq]
  split
  · exact .error _
  · split
    · exact .error _
    · exact .ok _

/-- The count of a chunk with a header. -/
theorem logChunkCount_header {count : Nat} (hpos : 0 < count) (hlt : count < 2 ^ 32)
    (body : GoString) :
    logChunkCount ([logChunkVersion] ++ put 4 count ++ body) = .ok count := by
  have hcount : get (slice ([logChunkVersion] ++ put 4 count ++ body) 1 5) = count := by
    rw [List.append_assoc, slice_middle [logChunkVersion] (put 4 count) body (i := 1) rfl
      (by rw [length_put])]
    exact get_put_of_lt (by omega)
  rw [logChunkCount_eq, hcount, if_neg, if_neg (by omega)]
  rintro (hshort | hversion)
  · simp only [List.length_append, List.length_singleton, length_put] at hshort
    omega
  · exact hversion rfl

/-- What `logChunkCount` says about a chunk. -/
theorem logChunkCount_eq_ok {data : GoString} {count : Nat} (h : logChunkCount data = .ok count) :
    5 ≤ data.length ∧ 0 < count ∧ count < 2 ^ 32 ∧
      data = [logChunkVersion] ++ put 4 count ++ data.drop 5 := by
  rw [logChunkCount_eq] at h
  obtain ⟨hformat, h⟩ := ok_of_guard h
  obtain ⟨hlength, hversion⟩ : 5 ≤ data.length ∧ data[0]? = some logChunkVersion := by
    simpa using hformat
  obtain ⟨hpos, h⟩ := ok_of_guard h
  obtain rfl := Except.ok.inj h
  have hfield : (slice data 1 5).length = 4 := length_slice hlength
  have hlt := get_lt (slice data 1 5)
  rw [hfield] at hlt
  have hfirst : [logChunkVersion] ++ data.drop 1 = data := by
    cases data with
    | nil => cases hlength
    | cons b data => simpa using hversion.symm
  refine ⟨hlength, by omega, hlt, ?_⟩
  rw [put_get hfield, List.append_assoc, slice_append_drop (by decide), hfirst]

section Visit

variable {σ : Type} {visit : σ → Nat → GoString → Except Fault (σ × Bool)} {data : GoString}

/-- One turn of the loop, with its slices in range. -/
theorem visitLoop_succ (remaining index offset : Nat) (s : σ) :
    visitLoop visit data (remaining + 1) index offset s =
      let size := get (slice data offset (offset + 4))
      if offset + 4 > data.length then .error (.error .chunkTruncated)
      else if size < 1 ∨ offset + 4 + size > data.length then .error (.error .chunkRecordLength)
      else visit s index (slice data (offset + 4) (offset + 4 + size)) >>= fun result =>
        if result.2 then visitLoop visit data remaining (index + 1) (offset + 4 + size) result.1
        else .ok result.1 := by
  rw [visitLoop]
  by_cases hhead : offset + 4 > data.length
  · rw [if_pos hhead, if_pos hhead]
  · rw [if_neg hhead, if_neg hhead, sliceOf_ok (by omega)]
    show (if get (slice data offset (offset + 4)) < 1 ∨ _ then _ else _) = _
    by_cases hsize : get (slice data offset (offset + 4)) < 1 ∨
        offset + 4 + get (slice data offset (offset + 4)) > data.length
    · rw [if_pos hsize, if_pos hsize]
    · rw [if_neg hsize, if_neg hsize, sliceOf_ok (by omega)]
      rfl

/-- A walk never reads outside the chunk. -/
theorem visitLoop_reports (hvisit : ∀ s index envelope, Reports (visit s index envelope))
    (remaining index offset : Nat) (s : σ) :
    Reports (visitLoop visit data remaining index offset s) := by
  induction remaining generalizing index offset s with
  | zero =>
    unfold visitLoop
    split
    · exact .error _
    · exact .ok _
  | succ remaining ih =>
    rw [visitLoop_succ]
    dsimp only
    split
    · exact .error _
    · split
      · exact .error _
      · refine (hvisit _ _ _).bind fun result _ => ?_
        split
        · exact ih _ _ _
        · exact .ok _

/-- The envelope at the front of the body of a chunk, and what is behind it. -/
def nextEnvelope (body : GoString) : Option (GoString × GoString) :=
  let size := get (slice body 0 4)
  if 4 > body.length ∨ size < 1 ∨ 4 + size > body.length then none
  else some (slice body 4 (4 + size), body.drop (4 + size))

/-- The envelope at an index of the body of a chunk. -/
def envelopeAt : Nat → GoString → Option GoString
  | 0, body => (nextEnvelope body).map Prod.fst
  | i + 1, body => (nextEnvelope body).bind fun next => envelopeAt i next.2

/-- The envelope at an offset. -/
theorem nextEnvelope_drop {offset : Nat} (hhead : ¬ offset + 4 > data.length)
    (hsize : ¬ (get (slice data offset (offset + 4)) < 1 ∨
      offset + 4 + get (slice data offset (offset + 4)) > data.length)) :
    nextEnvelope (data.drop offset) =
      some (slice data (offset + 4) (offset + 4 + get (slice data offset (offset + 4))),
        data.drop (offset + 4 + get (slice data offset (offset + 4)))) := by
  have hget : slice (data.drop offset) 0 4 = slice data offset (offset + 4) := by simp [slice]
  unfold nextEnvelope
  rw [hget, List.length_drop, if_neg (by omega)]
  simp only [slice, List.drop_drop, Option.some.injEq, Prod.mk.injEq, ← Nat.add_assoc, and_true]
  congr 1
  omega

/-- An encoded record is read back. -/
theorem nextEnvelope_encodeRecord (now : Int) {record : LogRecord} (h : Accepted record)
    (hshort : (encodeLogEnvelope record now).length < 2 ^ 32) (rest : GoString) :
    nextEnvelope (encodeRecord now record ++ rest) = some (encodeLogEnvelope record now, rest) := by
  have hpos : 1 ≤ (encodeLogEnvelope record now).length := by
    rw [length_encodeLogEnvelope, headerSize]
    omega
  rw [encodeRecord_eq now h, List.append_assoc]
  generalize encodeLogEnvelope record now = envelope at *
  have hsize : get (slice (put 4 envelope.length ++ (envelope ++ rest)) 0 4) = envelope.length := by
    rw [slice_append_left (length_put 4 _), get_put_of_lt hshort]
  have hlength : (put 4 envelope.length ++ (envelope ++ rest)).length =
      4 + (envelope.length + rest.length) := by
    rw [List.length_append, List.length_append, length_put]
  unfold nextEnvelope
  dsimp only
  rw [hsize, hlength, if_neg (by omega), slice_middle _ _ _ (length_put 4 _) rfl,
    ← List.append_assoc, List.drop_left' (by simp)]

/-- A chunk has the envelopes of its records. -/
theorem envelopeAt_flatMap {now : Int} {records : List LogRecord} (h : ∀ r ∈ records, Accepted r)
    (hshort : ∀ r ∈ records, (encodeLogEnvelope r now).length < 2 ^ 32) {i : Nat} {r : LogRecord}
    (hr : records[i]? = some r) :
    envelopeAt i (records.flatMap (encodeRecord now)) = some (encodeLogEnvelope r now) := by
  induction records generalizing i with
  | nil => simp at hr
  | cons record records ih =>
    obtain ⟨haccepted, h⟩ := List.forall_mem_cons.mp h
    obtain ⟨hfirst, hshort⟩ := List.forall_mem_cons.mp hshort
    have hnext := nextEnvelope_encodeRecord now haccepted hfirst
      (records.flatMap (encodeRecord now))
    rw [List.flatMap_cons]
    cases i with
    | zero =>
      obtain rfl : record = r := by simpa using hr
      rw [envelopeAt, hnext]
      rfl
    | succ i =>
      rw [envelopeAt, hnext]
      exact ih h hshort (by simpa using hr)

/-- The invariant rule for walks: `P` holds before each record, `Q` when the walk
ends or is stopped. -/
theorem visitLoop_invariant {P : Nat → σ → Prop} {Q : σ → Prop} {count : Nat} {body : GoString}
    (hstep : ∀ index s envelope result, index < count → envelopeAt index body = some envelope →
      P index s → visit s index envelope = .ok result →
      if result.2 then P (index + 1) result.1 else Q result.1)
    (hend : ∀ s, P count s → Q s) {remaining index offset : Nat} {s t : σ}
    (hcount : index + remaining = count)
    (hbody : ∀ i, envelopeAt i (data.drop offset) = envelopeAt (index + i) body) (hs : P index s)
    (h : visitLoop visit data remaining index offset s = .ok t) : Q t := by
  induction remaining generalizing index offset s with
  | zero =>
    obtain ⟨-, h⟩ := ok_of_guard h
    obtain rfl := Except.ok.inj h
    obtain rfl : index = count := by omega
    exact hend _ hs
  | succ remaining ih =>
    rw [visitLoop_succ] at h
    dsimp only at h
    obtain ⟨hhead, h⟩ := ok_of_guard h
    obtain ⟨hsize, h⟩ := ok_of_guard h
    have hnext := nextEnvelope_drop hhead hsize
    obtain ⟨result, hresult, h⟩ := exists_of_bind h
    have hat := hbody 0
    rw [envelopeAt, hnext] at hat
    have hstepped := hstep _ _ _ _ (by omega) hat.symm hs hresult
    split at h
    · next hgo =>
      rw [if_pos hgo] at hstepped
      refine ih (by omega) (fun i => ?_) hstepped h
      have hbehind := hbody (i + 1)
      rw [envelopeAt, hnext, Option.bind_some] at hbehind
      rw [hbehind]
      congr 1
      omega
    · next hstop =>
      rw [if_neg hstop] at hstepped
      exact Except.ok.inj h ▸ hstepped

theorem visitLogChunk_reports (hvisit : ∀ s index envelope, Reports (visit s index envelope))
    (data : GoString) (s : σ) : Reports (visitLogChunk visit data s) :=
  (logChunkCount_reports data).bind fun count _ => visitLoop_reports hvisit count 0 5 s

end Visit

theorem decodeVisit_reports (firstID : Nat) (records : List LogRecord) (index : Nat)
    (envelope : GoString) : Reports (decodeVisit firstID records index envelope) :=
  (decodeLogEnvelope_reports _ _).bind fun _ _ => .ok _

/-- The decoder reads records or reports an error, and never reads outside the
chunk. -/
theorem decodeLogChunk_reports (data : GoString) (firstID : Nat) :
    Reports (decodeLogChunk data firstID) :=
  visitLogChunk_reports (decodeVisit_reports firstID) data []

/-- One envelope is passed over. -/
theorem trimLoop_succ (data : GoString) (remove offset : Nat) :
    trimLoop data (remove + 1) offset =
      let size := get (slice data offset (offset + 4))
      if offset + 4 > data.length then .error (.error .chunkTruncated)
      else if size < 1 ∨ offset + 4 + size > data.length then .error (.error .chunkRecordLength)
      else trimLoop data remove (offset + (4 + size)) := by
  rw [trimLoop]
  by_cases hhead : offset + 4 > data.length
  · rw [if_pos hhead, if_pos hhead]
  · rw [if_neg hhead, if_neg hhead, sliceOf_ok (by omega)]
    rfl

/-- The records that are removed are within the chunk. -/
theorem trimLoop_bounds {data : GoString} {k offset result : Nat}
    (h : trimLoop data k offset = .ok result) (hle : offset ≤ data.length) :
    offset + 5 * k ≤ result ∧ result ≤ data.length := by
  induction k generalizing offset with
  | zero =>
    obtain rfl : offset = result := by simpa [trimLoop] using h
    exact ⟨le_refl _, hle⟩
  | succ k ih =>
    rw [trimLoop_succ] at h
    dsimp only at h
    obtain ⟨-, h⟩ := ok_of_guard h
    obtain ⟨_, h⟩ := ok_of_guard h
    have := ih h (by omega)
    omega

/-- What is behind the records that are removed. -/
theorem envelopeAt_trimLoop {data : GoString} {k offset result : Nat}
    (h : trimLoop data k offset = .ok result) (i : Nat) :
    envelopeAt i (data.drop result) = envelopeAt (k + i) (data.drop offset) := by
  induction k generalizing offset with
  | zero =>
    obtain rfl : offset = result := by simpa [trimLoop] using h
    rw [Nat.zero_add]
  | succ k ih =>
    rw [trimLoop_succ] at h
    dsimp only at h
    obtain ⟨hhead, h⟩ := ok_of_guard h
    obtain ⟨hsize, h⟩ := ok_of_guard h
    rw [ih h, show k + 1 + i = (k + i) + 1 by omega, envelopeAt,
      nextEnvelope_drop hhead hsize, Option.bind_some, Nat.add_assoc]

end LogChunks
