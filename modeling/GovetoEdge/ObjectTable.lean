import GovetoEdge.ObjectFormat

/-!
# The chunk table a writer leaves, and what a reader makes of it

`Table` relates a byte sequence to the entries and the stored bytes of its
chunks.  `writeChunks_table` says that the writer's loop establishes it;
`readChunks_ok` that the reader's loop accepts the written table and gives
the same entries back, as long as the byte position of every entry fits into
the 32 bits it is computed in; `Table.chunk` that any chunk can be found and
decoded from its entry alone.
-/

namespace ObjectFormat

open BigEndian List

variable {lz4 : LZ4} {checksum : Bytes → UInt32}

/-- What the code relies on in the LZ4 package: compression into a buffer of
`compressBlockBound` bytes does not fail, the bound is no less than the length
of the block, and decompression inverts compression. -/
structure LZ4.Lawful (lz4 : LZ4) : Prop where
  bound : ∀ n, n ≤ lz4.compressBlockBound n
  compresses : ∀ raw, ∃ compressed, lz4.compressBlock raw = .ok compressed
  inverts : ∀ raw compressed dst, lz4.compressBlock raw = .ok compressed →
    compressed ≠ [] → dst.length = raw.length →
    lz4.uncompressBlock compressed dst = (raw, .ok raw.length)

/-- Stored bytes that decode to a chunk under its codec. -/
def Decodes (lz4 : LZ4) (codec : UInt8) (stored raw : Bytes) : Prop :=
  (codec = codecRaw ∧ stored = raw) ∨
  (codec = codecLZ4 ∧ 0 < stored.length ∧ stored.length ≤ raw.length ∧
    ∀ dst, dst.length = raw.length → lz4.uncompressBlock stored dst = (raw, .ok raw.length))

/-- Entries and stored bytes of the chunks of `value`, the first of which is
stored at `offset`. -/
inductive Table (lz4 : LZ4) (checksum : Bytes → UInt32) :
    Nat → Bytes → List ObjectChunk → Bytes → Prop
  | nil (offset : Nat) : Table lz4 checksum offset [] [] []
  | cons {offset : Nat} {value stored data : Bytes} {codec : UInt8}
      {chunks : List ObjectChunk} (hvalue : value ≠ [])
      (hdecodes : Decodes lz4 codec stored (value.take objectChunkSize))
      (tail : Table lz4 checksum (offset + stored.length) (value.drop objectChunkSize)
        chunks data) :
      Table lz4 checksum offset value
        (chunkEntry checksum codec offset stored (value.take objectChunkSize) :: chunks)
        (stored ++ data)

/-- What is stored for a chunk decodes to it. -/
theorem encodeChunk_decodes (hlz4 : lz4.Lawful) (logicalSize : Nat) (raw : Bytes) :
    ∃ codec stored, encodeChunk lz4 logicalSize raw = .ok (codec, stored) ∧
      Decodes lz4 codec stored raw := by
  unfold encodeChunk
  split
  · obtain ⟨compressed, hc⟩ := hlz4.compresses raw
    rw [hc]
    by_cases hsmall : 0 < compressed.length ∧ compressed.length * 8 ≤ raw.length * 7
    · refine ⟨codecLZ4, compressed, by simp [bind, Except.bind, hsmall, pure, Except.pure], ?_⟩
      refine .inr ⟨rfl, hsmall.1, by omega, fun dst hdst => ?_⟩
      exact hlz4.inverts raw compressed dst hc (length_pos_iff.mp hsmall.1) hdst
    · exact ⟨codecRaw, raw, by simp [bind, Except.bind, hsmall, pure, Except.pure],
        .inl ⟨rfl, rfl⟩⟩
  · exact ⟨codecRaw, raw, rfl, .inl ⟨rfl, rfl⟩⟩

/-- Number of chunks of `n` bytes. -/
def chunkCount (n : Nat) : Nat := (n + objectChunkSize - 1) / objectChunkSize

theorem chunkCount_zero : chunkCount 0 = 0 := by decide

/-- One chunk more. -/
theorem chunkCount_pos {n : Nat} (hn : 0 < n) :
    chunkCount n = chunkCount (n - min n objectChunkSize) + 1 := by
  have hsize : objectChunkSize = 65536 := rfl
  unfold chunkCount
  rw [hsize]
  omega

variable {codec : UInt8} {stored value : Bytes} {offset : Nat}

/-- One round of the writer's loop with a long enough source. -/
theorem writeChunks_succ (checksum : Bytes → UInt32) {logicalSize remaining : Nat}
    (count offset : Nat) {source : Bytes} (hlen : min remaining objectChunkSize ≤ source.length)
    (henc : encodeChunk lz4 logicalSize (source.take (min remaining objectChunkSize)) =
      .ok (codec, stored)) :
    writeChunks lz4 checksum logicalSize (count + 1) remaining offset source =
      (writeChunks lz4 checksum logicalSize count (remaining - min remaining objectChunkSize)
        (offset + stored.length) (source.drop (min remaining objectChunkSize))).map
        fun (chunks, data, rest) =>
          (chunkEntry checksum codec offset stored
            (source.take (min remaining objectChunkSize)) :: chunks,
            stored ++ data, rest) := by
  have hfull : ¬ (source.take (min remaining objectChunkSize)).length <
      min remaining objectChunkSize := by
    rw [length_take_of_le hlen]
    exact lt_irrefl _
  rw [writeChunks]
  simp only [hfull, if_false, henc, bind, Except.bind]
  cases writeChunks lz4 checksum logicalSize count (remaining - min remaining objectChunkSize)
    (offset + stored.length) (source.drop (min remaining objectChunkSize)) <;> rfl

/-- **The writer's loop leaves a table** of the `remaining` bytes it reads. -/
theorem writeChunks_table (checksum : Bytes → UInt32) (hlz4 : lz4.Lawful)
    (logicalSize count remaining offset : Nat) (source : Bytes)
    (hcount : count = chunkCount remaining) (hlen : remaining ≤ source.length) :
    ∃ chunks data, writeChunks lz4 checksum logicalSize count remaining offset source =
        .ok (chunks, data, source.drop remaining) ∧
      Table lz4 checksum offset (source.take remaining) chunks data := by
  induction count generalizing remaining offset source with
  | zero =>
    have hzero : remaining = 0 := by
      by_contra hne
      have := chunkCount_pos (pos_of_ne_zero hne)
      omega
    subst hzero
    exact ⟨[], [], rfl, Table.nil offset⟩
  | succ count ih =>
    have hpos : 0 < remaining := by
      rcases Nat.eq_zero_or_pos remaining with h | h
      · rw [h, chunkCount_zero] at hcount
        omega
      · exact h
    have hrest := chunkCount_pos hpos
    obtain ⟨codec, stored, henc, hdec⟩ := encodeChunk_decodes hlz4 logicalSize
      (source.take (min remaining objectChunkSize))
    obtain ⟨chunks, data, hok, htable⟩ := ih (remaining - min remaining objectChunkSize)
      (offset + stored.length) (source.drop (min remaining objectChunkSize)) (by omega)
      (by rw [length_drop]; omega)
    have htake : (source.take remaining).take objectChunkSize =
        source.take (min remaining objectChunkSize) := by
      rw [take_take, Nat.min_comm]
    have hdrop : (source.take remaining).drop objectChunkSize =
        (source.drop (min remaining objectChunkSize)).take
          (remaining - min remaining objectChunkSize) := by
      rw [drop_take]
      rcases Nat.le_total remaining objectChunkSize with h | h
      · simp [Nat.min_eq_left h, Nat.sub_eq_zero_of_le h]
      · rw [Nat.min_eq_right h]
    have hne : source.take remaining ≠ [] := by
      intro hnil
      have hzero := congrArg List.length hnil
      rw [length_take_of_le hlen, length_nil] at hzero
      omega
    have hround := writeChunks_succ checksum count offset (by omega) henc
    rw [hok, Except.map, drop_drop, Nat.add_sub_cancel' (Nat.min_le_left _ _), ← htake]
      at hround
    rw [← htake] at hdec
    rw [← hdrop] at htable
    exact ⟨_, _, hround, Table.cons hne hdec htable⟩

/-- A source that is too short makes the writer fail. -/
theorem writeChunks_short (checksum : Bytes → UInt32) (hlz4 : lz4.Lawful)
    (logicalSize count remaining offset : Nat) (source : Bytes)
    (hcount : count = chunkCount remaining) (hlen : source.length < remaining) :
    ∃ e, writeChunks lz4 checksum logicalSize count remaining offset source = .error e := by
  induction count generalizing remaining offset source with
  | zero =>
    have := chunkCount_pos (n := remaining) (by omega)
    omega
  | succ count ih =>
    have hrest := chunkCount_pos (n := remaining) (by omega)
    by_cases hfirst : min remaining objectChunkSize ≤ source.length
    · obtain ⟨codec, stored, henc, _⟩ := encodeChunk_decodes hlz4 logicalSize
        (source.take (min remaining objectChunkSize))
      obtain ⟨e, he⟩ := ih (remaining - min remaining objectChunkSize)
        (offset + stored.length) (source.drop (min remaining objectChunkSize)) (by omega)
        (by rw [length_drop]; omega)
      exact ⟨e, by rw [writeChunks_succ checksum count offset hfirst henc, he, Except.map]⟩
    · have hshort : (source.take (min remaining objectChunkSize)).length <
          min remaining objectChunkSize := by
        rw [length_take]
        omega
      rw [writeChunks]
      simp only [hshort, if_true]
      exact ⟨_, rfl⟩

/-- An entry comes back if its fields fit their widths. -/
theorem getEntry_putEntry {chunk : ObjectChunk} (rest : Bytes)
    (hoffset : chunk.offset < 2 ^ 64) (hstored : chunk.stored < 2 ^ 32)
    (hraw : chunk.raw < 2 ^ 32) (hcrc : chunk.crc < 2 ^ 32) :
    getEntry (putEntry chunk ++ rest) = chunk := by
  have hhead : ([chunk.codec, 0, 0, 0] : Bytes).length = 4 := rfl
  unfold getEntry putEntry
  simp (disch := simp) only [append_assoc, slice_append_right, slice_append_left, hhead,
    length_put, Nat.reduceSub, Nat.sub_self]
  rw [get_put_of_lt hoffset, get_put_of_lt hstored, get_put_of_lt hraw, get_put_of_lt hcrc]
  rfl

@[simp] theorem length_putEntry (chunk : ObjectChunk) :
    (putEntry chunk).length = objectEntrySize := by
  simp [putEntry, objectEntrySize]

/-- Entries have one size. -/
theorem length_flatMap_putEntry (chunks : List ObjectChunk) :
    (chunks.flatMap putEntry).length = chunks.length * objectEntrySize := by
  induction chunks with
  | nil => simp
  | cons chunk chunks ih =>
    rw [flatMap_cons, length_append, ih, length_putEntry, length_cons]
    ring

theorem add64_of_lt {a b : Nat} (h : a + b < 2 ^ 64) : add64 a b = a + b :=
  Nat.mod_eq_of_lt h

theorem sub64_of_le {a b : Nat} (hle : b ≤ a) (hlt : a < 2 ^ 64) : sub64 a b = a - b := by
  unfold sub64
  have hsplit : a + 2 ^ 64 - b = (a - b) + 2 ^ 64 := by omega
  rw [hsplit, Nat.add_mod_right]
  exact Nat.mod_eq_of_lt (by omega)

/-- Stored bytes are no longer than the chunk. -/
theorem Decodes.stored_le {raw : Bytes} (h : Decodes lz4 codec stored raw) :
    stored.length ≤ raw.length := by
  rcases h with ⟨_, rfl⟩ | ⟨_, _, hle, _⟩
  · exact le_refl _
  · exact hle

/-- The entry of a chunk passes the reader's checks. -/
theorem checkChunk_ok (checksum : Bytes → UInt32) (hlz4 : lz4.Lawful)
    {encodedSize length rawTotal : Nat}
    (hdecodes : Decodes lz4 codec stored (value.take objectChunkSize))
    (hsize : offset + stored.length ≤ encodedSize) (hsmall : encodedSize < 2 ^ 64)
    (htotal : rawTotal + value.length = length) (hlength : length < 2 ^ 63) :
    checkChunk lz4 encodedSize length objectChunkSize offset rawTotal
      (chunkEntry checksum codec offset stored (value.take objectChunkSize)) = .ok () := by
  have hchunk : objectChunkSize = 65536 := rfl
  have hexpected : min objectChunkSize (sub64 length rawTotal) % 2 ^ 32 =
      (value.take objectChunkSize).length := by
    rw [sub64_of_le (by omega) (by omega), length_take,
      show length - rawTotal = value.length by omega]
    exact Nat.mod_eq_of_lt (by omega)
  have hroom : ¬ sub64 encodedSize offset < stored.length := by
    rw [sub64_of_le (by omega) hsmall]
    omega
  have hbound := hlz4.bound objectChunkSize
  unfold checkChunk chunkEntry
  simp only [hexpected]
  rcases hdecodes with ⟨rfl, rfl⟩ | ⟨rfl, hpos, _, _⟩
  · rw [if_neg, if_neg, if_neg]
    · rfl
    · rintro ⟨h, _⟩
      cases h
    · rintro ⟨_, h⟩
      exact h rfl
    · rintro (⟨h, _⟩ | h | h | h)
      · exact h rfl
      · exact h rfl
      · exact h rfl
      · exact hroom h
  · rw [if_neg, if_neg, if_neg]
    · rfl
    · rintro ⟨_, h⟩
      omega
    · rintro ⟨h, _⟩
      cases h
    · rintro (⟨_, h⟩ | h | h | h)
      · exact h rfl
      · exact h rfl
      · exact h rfl
      · exact hroom h

/-- **The reader's loop accepts the written table** and gives its entries
back, provided that the position of every entry fits into 32 bits. -/
theorem readChunks_ok (hlz4 : lz4.Lawful) {encodedSize length : Nat} (hsmall : encodedSize < 2 ^ 64)
    (hlength : length < 2 ^ 63) {data : Bytes} {chunks : List ObjectChunk}
    (htable : Table lz4 checksum offset value chunks data) (before : Bytes)
    (index rawTotal : Nat) (hbefore : before.length = index * objectEntrySize)
    (hindex : ∀ i < index + chunks.length, i * objectEntrySize < 2 ^ 32)
    (hsize : offset + data.length = encodedSize) (htotal : rawTotal + value.length = length) :
    readChunks lz4 (before ++ chunks.flatMap putEntry) encodedSize length objectChunkSize
      chunks.length index offset rawTotal = .ok (chunks, encodedSize, length) := by
  induction htable generalizing before index rawTotal with
  | nil offset =>
    simp only [length_nil, Nat.add_zero] at hsize htotal
    rw [hsize, htotal]
    rfl
  | @cons offset value stored data codec chunks hvalue hdecodes _ ih =>
    have hchunk : objectChunkSize = 65536 := rfl
    rw [length_append] at hsize
    have hraw := length_take_le objectChunkSize value
    have hsplit : (value.take objectChunkSize).length +
        (value.drop objectChunkSize).length = value.length := by
      rw [← length_append, take_append_drop]
    have hstored := hdecodes.stored_le
    have hcheck := checkChunk_ok checksum hlz4 hdecodes
      (by omega : offset + stored.length ≤ encodedSize) hsmall htotal hlength
    set chunk := chunkEntry checksum codec offset stored (value.take objectChunkSize)
      with hdef
    have hoffset : chunk.offset = offset := rfl
    have hchunkStored : chunk.stored = stored.length := rfl
    have hchunkRaw : chunk.raw = (value.take objectChunkSize).length := rfl
    -- the entry at `index` is found where it was written
    have hentry : getEntry ((before ++ (putEntry chunk ++ chunks.flatMap putEntry)).drop
        (index * objectEntrySize % 2 ^ 32)) = chunk := by
      rw [Nat.mod_eq_of_lt (hindex index (by simp)), ← hbefore, drop_left]
      apply getEntry_putEntry
      · omega
      · omega
      · omega
      · exact UInt32.toNat_lt _
    have hrest := ih (before ++ putEntry chunk) (index + 1)
      (rawTotal + (value.take objectChunkSize).length)
      (by rw [length_append, hbefore, length_putEntry]; ring)
      (fun i hi => hindex i (by simp only [length_cons]; omega))
      (by omega) (by omega)
    rw [append_assoc] at hrest
    rw [flatMap_cons, length_cons, readChunks]
    simp only [hentry, hcheck, bind, Except.bind]
    rw [hchunkStored, hchunkRaw, add64_of_lt (by omega), add64_of_lt (by omega), hrest]
    rfl

/-- **Any chunk can be found from its entry.**  In a file that holds the
stored bytes from `offset` on, entry `i` leads to bytes that decode to the
`i`-th chunk of the value. -/
theorem Table.chunk {data : Bytes} {chunks : List ObjectChunk}
    (htable : Table lz4 checksum offset value chunks data) (before : Bytes) (i : Nat)
    (hbefore : before.length = offset) (hi : i * objectChunkSize < value.length) :
    ∃ codec at' stored, chunks[i]? = some (chunkEntry checksum codec at' stored
        ((value.drop (i * objectChunkSize)).take objectChunkSize)) ∧
      ((before ++ data).drop at').take stored.length = stored ∧
      Decodes lz4 codec stored ((value.drop (i * objectChunkSize)).take objectChunkSize) := by
  induction htable generalizing before i with
  | nil offset => simp at hi
  | @cons offset value stored data codec chunks hvalue hdecodes _ ih =>
    cases i with
    | zero =>
      refine ⟨codec, offset, stored, by simp, ?_, by simpa using hdecodes⟩
      rw [← hbefore, drop_left, take_left]
    | succ i =>
      have hstep : objectChunkSize + i * objectChunkSize = (i + 1) * objectChunkSize := by
        ring
      obtain ⟨codec', at', stored', hget, hbytes, hdec⟩ := ih (before ++ stored) i
        (by rw [length_append, hbefore])
        (by rw [length_drop]; omega)
      rw [drop_drop, hstep] at hget hdec
      rw [append_assoc] at hbytes
      exact ⟨codec', at', stored', by simpa using hget, hbytes, hdec⟩

end ObjectFormat
