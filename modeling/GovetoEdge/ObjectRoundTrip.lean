import GovetoEdge.ObjectTable
import GovetoEdge.Fallible

/-!
# Reading back what was written

A written file opens exactly if its chunk table can be addressed: the reader
computes the position of a table entry in 32 bits, so a table of more than
`maxChunks` entries is misread and refused (`readObjectLayout_written`,
`readObjectLayout_refuses`).  Over an opened file, every `Read` and `Seek`
does what it does over the plain byte sequence (`Represents.read`,
`Represents.seek`), and so does every sequence of them.
-/

namespace ObjectFormat

open BigEndian Fallible

variable {lz4 : LZ4} {checksum : Bytes → UInt32}

/-- Table entries whose position fits into 32 bits. -/
def maxChunks : Nat := (2 ^ 32 - 1) / objectEntrySize + 1

/-- The file of a value with the given table and stored bytes. -/
def objectFile (value : Bytes) (chunks : List ObjectChunk) (data : Bytes) : Bytes :=
  putHeader value.length (chunkCount value.length) ++ (chunks.flatMap putEntry ++ data)

/-- Where the stored chunks of an object of `n` bytes begin. -/
def dataOffset (n : Nat) : Nat := objectHeaderSize + chunkCount n * objectEntrySize

/-- The writer, once the platform can address the object. -/
theorem writeObjectReader_eq {source : Bytes} {logicalSize : Nat}
    (h : logicalSize ≤ 2 ^ 63 - 1) :
    writeObjectReader lz4 checksum source logicalSize =
      (writeChunks lz4 checksum logicalSize (chunkCount logicalSize) logicalSize
        (dataOffset logicalSize) source).bind fun (chunks, data, rest) =>
          if rest ≠ [] then .error "cache object source exceeds declared length"
          else .ok (putHeader logicalSize (chunkCount logicalSize) ++
            (chunks.flatMap putEntry ++ data)) := by
  unfold writeObjectReader
  rw [if_neg (by omega)]
  rfl

variable {value : Bytes}

/-- The writer leaves the table of a value of the announced length. -/
theorem writeObjectReader_ok (checksum : Bytes → UInt32) (hlz4 : lz4.Lawful)
    (hlength : value.length ≤ 2 ^ 63 - 1) :
    ∃ chunks data, writeObjectReader lz4 checksum value value.length =
        .ok (objectFile value chunks data) ∧
      Table lz4 checksum (dataOffset value.length) value chunks data := by
  obtain ⟨chunks, data, hok, htable⟩ := writeChunks_table checksum hlz4 value.length
    (chunkCount value.length) value.length (dataOffset value.length) value rfl (le_refl _)
  rw [List.take_length] at htable
  rw [List.drop_length] at hok
  refine ⟨chunks, data, ?_, htable⟩
  rw [writeObjectReader_eq hlength, hok]
  rfl

/-- A file is produced only for a source of the announced length. -/
theorem length_of_writeObjectReader (hlz4 : lz4.Lawful) {file : Bytes} {logicalSize : Nat}
    (h : writeObjectReader lz4 checksum value logicalSize = .ok file) :
    logicalSize = value.length ∧ logicalSize ≤ 2 ^ 63 - 1 := by
  by_cases hbig : 2 ^ 63 - 1 < logicalSize
  · unfold writeObjectReader at h
    rw [if_pos hbig] at h
    cases h
  · have hle : logicalSize ≤ 2 ^ 63 - 1 := by omega
    refine ⟨?_, hle⟩
    rw [writeObjectReader_eq hle] at h
    rcases Nat.lt_or_ge value.length logicalSize with hshort | hlong
    · obtain ⟨e, he⟩ := writeChunks_short checksum hlz4 logicalSize
        (chunkCount logicalSize) logicalSize (dataOffset logicalSize) value rfl hshort
      rw [he] at h
      cases h
    · obtain ⟨chunks, data, hok, _⟩ := writeChunks_table checksum hlz4 logicalSize
        (chunkCount logicalSize) logicalSize (dataOffset logicalSize) value rfl hlong
      rw [hok] at h
      obtain ⟨hrest, h⟩ := ok_of_guard h
      have hnil : value.drop logicalSize = [] := by simpa using hrest
      have hle := List.drop_eq_nil_iff.mp hnil
      omega

/-- The number of entries. -/
theorem Table.length_eq {offset : Nat} {data : Bytes} {chunks : List ObjectChunk}
    (h : Table lz4 checksum offset value chunks data) :
    chunks.length = chunkCount value.length := by
  induction h with
  | nil offset => exact chunkCount_zero.symm
  | @cons offset value stored data codec chunks hvalue hdecodes _ ih =>
    have hpos : 0 < value.length := List.length_pos_iff.mpr hvalue
    have hmin : value.length - objectChunkSize =
        value.length - min value.length objectChunkSize := by omega
    rw [List.length_cons, ih, List.length_drop, hmin, ← chunkCount_pos hpos]

/-- The fields of a written header. -/
theorem header_fields (count : Nat) {n : Nat} (hn : n < 2 ^ 64) :
    slice (putHeader n count) 0 8 = objectMagic ∧
      get (slice (putHeader n count) 8 10) = objectVersion ∧
      get (slice (putHeader n count) 12 16) = objectChunkSize ∧
      get (slice (putHeader n count) 16 24) = n ∧
      get (slice (putHeader n count) 24 28) = count % 2 ^ 32 := by
  have hmagic : objectMagic.length = 8 := rfl
  have hpad : ([0, 0] : Bytes).length = 2 := rfl
  unfold putHeader
  simp (disch := simp [hmagic]) only [slice_append_right, slice_append_left, slice_self,
    hmagic, hpad, length_put, Nat.reduceSub, Nat.sub_self, get_put]
  exact ⟨trivial, rfl, rfl, Nat.mod_eq_of_lt hn, rfl⟩

theorem length_putHeader (n count : Nat) : (putHeader n count).length = objectHeaderSize := by
  simp [putHeader, objectMagic, objectHeaderSize]

/-- The chunk count the reader expects is the one the writer uses. -/
theorem expectedCount_eq (n : Nat) :
    (if 0 < n then (n - 1) / objectChunkSize + 1 else 0) = chunkCount n := by
  have hsize : objectChunkSize = 65536 := rfl
  unfold chunkCount
  rw [hsize]
  split <;> omega

/-- `ReadAt` finds a part of a file. -/
theorem readAt_middle {a b c : Bytes} {offset n : Nat} (ha : a.length = offset)
    (hb : b.length = n) : readAt (a ++ (b ++ c)) offset n = .ok b := by
  subst ha hb
  unfold readAt
  simp only [List.drop_left, List.take_left, lt_irrefl, if_false]
  rfl

theorem ok_bind {α β : Type} (a : α) (f : α → Except String β) : (Except.ok a >>= f) = f a := rfl

section Opening

variable {value data : Bytes} {chunks : List ObjectChunk}

/-- Head, table and data. -/
theorem length_objectFile (data : Bytes) (hchunks : chunks.length = chunkCount value.length) :
    (objectFile value chunks data).length = dataOffset value.length + data.length := by
  unfold objectFile dataOffset
  rw [List.length_append, List.length_append, length_putHeader, length_flatMap_putEntry, hchunks,
    Nat.add_assoc]

/-- What `readObjectLayout` does with a written file: the header is accepted
if the count fits, and then the table is checked. -/
theorem readObjectLayout_objectFile (hlength : value.length ≤ 2 ^ 63 - 1)
    (hchunks : chunks.length = chunkCount value.length) :
    readObjectLayout lz4 (objectFile value chunks data) (objectFile value chunks data).length =
      if 2 ^ 32 - 1 < chunkCount value.length then .error "invalid cache object chunk count"
      else (readChunks lz4 (chunks.flatMap putEntry) (objectFile value chunks data).length
          value.length objectChunkSize (chunkCount value.length) 0
          (dataOffset value.length) 0).bind fun (chunks', offset, total) =>
        if offset ≠ (objectFile value chunks data).length ∨ total ≠ value.length then
          .error "cache object lengths do not match"
        else .ok { chunks := chunks', length := value.length, chunkSize := objectChunkSize } := by
  have hn : value.length < 2 ^ 64 := by omega
  obtain ⟨hmagic, hversion, hsize, hlen, hcount⟩ := header_fields (chunkCount value.length) hn
  have htable : (chunks.flatMap putEntry).length = chunkCount value.length * objectEntrySize := by
    rw [length_flatMap_putEntry, hchunks]
  have hheader : readAt (objectFile value chunks data) 0 objectHeaderSize =
      .ok (putHeader value.length (chunkCount value.length)) :=
    readAt_middle (a := []) rfl (length_putHeader _ _)
  have hbody : readAt (objectFile value chunks data) objectHeaderSize
      (chunkCount value.length * objectEntrySize) = .ok (chunks.flatMap putEntry) :=
    readAt_middle (length_putHeader _ _) htable
  have hfile := length_objectFile data hchunks
  generalize hsizeFile : (objectFile value chunks data).length = size at *
  unfold readObjectLayout
  simp only [hheader, ok_bind, hmagic, hversion, hsize, hlen, hcount, expectedCount_eq]
  rw [if_neg (by simp)]
  split
  · rename_i hbad
    rcases hbad with h | h | h
    · rw [if_pos h]
      rfl
    · have hover : 2 ^ 32 - 1 < chunkCount value.length := by
        by_contra hle
        exact h (Nat.mod_eq_of_lt (by omega))
      rw [if_pos hover]
      rfl
    · omega
  · rename_i hgood
    have hfits : chunkCount value.length % 2 ^ 32 = chunkCount value.length := by
      by_contra h
      exact hgood (.inr (.inl h))
    rw [if_neg (fun h => hgood (.inl h)), hfits, if_neg]
    · rw [hbody, ok_bind, dataOffset]
      rfl
    · unfold dataOffset at hfile
      omega

variable {offset : Nat}

/-- Stored chunks take no more bytes than the value. -/
theorem Table.data_le (h : Table lz4 checksum offset value chunks data) :
    data.length ≤ value.length := by
  induction h with
  | nil offset => exact le_refl _
  | @cons offset value stored data codec chunks hvalue hdecodes _ ih =>
    have hstored := hdecodes.stored_le
    have hsplit := congrArg List.length (List.take_append_drop objectChunkSize value)
    rw [List.length_append] at hsplit ⊢
    omega

/-- A value with at most `n` chunks has at most `n` times their size. -/
theorem le_of_chunkCount_le {m n : Nat} : chunkCount m ≤ n ↔ m ≤ n * objectChunkSize := by
  have hsize : objectChunkSize = 65536 := rfl
  unfold chunkCount
  rw [hsize]
  omega

/-- **A written file opens** if its table can be addressed in 32 bits. -/
theorem readObjectLayout_written (hlz4 : lz4.Lawful)
    (htable : Table lz4 checksum (dataOffset value.length) value chunks data)
    (hcount : chunkCount value.length ≤ maxChunks) :
    readObjectLayout lz4 (objectFile value chunks data) (objectFile value chunks data).length =
      .ok { chunks := chunks, length := value.length, chunkSize := objectChunkSize } := by
  have hvalue : value.length ≤ 178956971 * 65536 := le_of_chunkCount_le.mp hcount
  have hcount' : chunkCount value.length ≤ 178956971 := hcount
  have hchunks := htable.length_eq
  have hdata := htable.data_le
  have hfile := length_objectFile data hchunks
  have hoffset : dataOffset value.length = 28 + chunkCount value.length * 24 := rfl
  have hindex : ∀ i < 0 + chunks.length, i * objectEntrySize < 2 ^ 32 := by
    intro i hi
    show i * 24 < 2 ^ 32
    omega
  have hread : readChunks lz4 (chunks.flatMap putEntry) (objectFile value chunks data).length
      value.length objectChunkSize chunks.length 0 (dataOffset value.length) 0 =
      .ok (chunks, (objectFile value chunks data).length, value.length) :=
    readChunks_ok hlz4 (by omega) (by omega) htable [] 0 0 (by simp) hindex hfile.symm (by omega)
  rw [readObjectLayout_objectFile (by omega) hchunks, if_neg (by omega), ← hchunks, hread]
  simp [Except.bind]

/-- The chunks fill the bytes from `start` to `stop`, one after another. -/
def Contiguous : Nat → List ObjectChunk → Nat → Prop
  | start, [], stop => start = stop
  | start, chunk :: chunks, stop =>
    chunk.offset = start ∧ Contiguous (start + chunk.stored) chunks stop

/-- What the checks of an entry establish. -/
theorem checkChunk_eq_ok {encodedSize length chunkSize rawTotal : Nat} {chunk : ObjectChunk}
    (h : checkChunk lz4 encodedSize length chunkSize offset rawTotal chunk = .ok ()) :
    chunk.offset = offset ∧ chunk.stored ≤ sub64 encodedSize offset ∧
      chunk.raw = min chunkSize (sub64 length rawTotal) % 2 ^ 32 ∧
      (chunk.codec ≠ codecRaw → chunk.stored ≤ lz4.compressBlockBound chunkSize) := by
  unfold checkChunk at h
  dsimp only at h
  obtain ⟨htable, h⟩ := ok_of_guard h
  split at h
  · cases h
  · obtain ⟨hcompressed, h⟩ := ok_of_guard h
    grind

/-- **The loop over the table** reads one entry after the other.  It keeps its sums
below the claimed size and the declared length, so that no addition or subtraction
wraps around. -/
theorem readChunks_spec {table : Bytes} {encodedSize length chunkSize : Nat}
    (hsize : encodedSize < 2 ^ 64) (hlength : length < 2 ^ 63) (hchunk : chunkSize < 2 ^ 32)
    {count index stop total : Nat} {chunks : List ObjectChunk} (hoffset : offset ≤ encodedSize)
    (h : readChunks lz4 table encodedSize length chunkSize count index offset
      (min (index * chunkSize) length) = .ok (chunks, stop, total)) :
    chunks.length = count ∧ Contiguous offset chunks stop ∧
      min (index * chunkSize) length + (chunks.map (·.raw)).sum = total ∧
      ∀ i chunk, chunks[i]? = some chunk →
        chunk = getEntry (table.drop ((index + i) * objectEntrySize % 2 ^ 32)) ∧
        chunk.raw = min chunkSize (length - min ((index + i) * chunkSize) length) ∧
        (chunk.codec ≠ codecRaw → chunk.stored ≤ lz4.compressBlockBound chunkSize) := by
  induction count generalizing index offset chunks stop total with
  | zero =>
    cases h
    simp [Contiguous]
  | succ count ih =>
    rw [readChunks] at h
    set chunk := getEntry (table.drop (index * objectEntrySize % 2 ^ 32)) with hentry
    obtain ⟨u, hcheck, h⟩ := exists_of_bind h
    obtain ⟨hstart, hstored, hraw, hbound⟩ := checkChunk_eq_ok hcheck
    rw [sub64_of_le hoffset hsize] at hstored
    rw [sub64_of_le (Nat.min_le_right _ _) (by omega), Nat.mod_eq_of_lt (by omega)] at hraw
    have htotal : add64 (min (index * chunkSize) length) chunk.raw =
        min ((index + 1) * chunkSize) length := by
      rw [add64_of_lt (by omega), hraw, Nat.add_mul]
      omega
    simp only [htotal, add64_of_lt (a := offset) (b := chunk.stored) (by omega)] at h
    obtain ⟨⟨rest, stop', total'⟩, hrest, h⟩ := exists_of_bind h
    dsimp only at h
    cases h
    obtain ⟨hcount, hcontiguous, hsum, hall⟩ := ih (by omega) hrest
    refine ⟨by simp [hcount], ⟨hstart, hcontiguous⟩, ?_, ?_⟩
    · rw [List.map_cons, List.sum_cons, ← hsum, hraw, Nat.add_mul]
      omega
    · intro i c hc
      cases i with
      | zero =>
        cases hc
        exact ⟨hentry, hraw, hbound⟩
      | succ i =>
        have hshift : index + (i + 1) = index + 1 + i := by omega
        rw [hshift]
        exact hall i c hc

/-- Entry `maxChunks` is looked for at byte 8 of the table, so its raw size is
read from the codec of the second entry. -/
theorem misread_raw (first second : ObjectChunk) (rest : Bytes) :
    (getEntry ((putEntry first ++ (putEntry second ++ rest)).drop
      (maxChunks * objectEntrySize % 2 ^ 32))).raw = second.codec.toNat * 2 ^ 24 := by
  have hfield : slice ((putEntry first ++ (putEntry second ++ rest)).drop 8) 16 20 =
      [second.codec, 0, 0, 0] := by
    rfl
  show get (slice ((putEntry first ++ (putEntry second ++ rest)).drop 8) 16 20) = _
  have hvalue : get [second.codec, 0, 0, 0] = second.codec.toNat * 256 * 256 * 256 := by
    simp [BigEndian.get]
  rw [hfield, hvalue]
  omega

/-- **A file with a longer table is refused.** -/
theorem readObjectLayout_refuses (hlength : value.length ≤ 2 ^ 63 - 1)
    (htable : Table lz4 checksum (dataOffset value.length) value chunks data)
    (hcount : maxChunks < chunkCount value.length) :
    ∃ e, readObjectLayout lz4 (objectFile value chunks data)
      (objectFile value chunks data).length = .error e := by
  have hchunks := htable.length_eq
  rw [readObjectLayout_objectFile hlength hchunks]
  split
  · exact ⟨_, rfl⟩
  · cases hread : readChunks lz4 (chunks.flatMap putEntry) (objectFile value chunks data).length
        value.length objectChunkSize (chunkCount value.length) 0 (dataOffset value.length) 0 with
    | error e => exact ⟨e, rfl⟩
    | ok result =>
      obtain ⟨read, stop, total⟩ := result
      have hlong : maxChunks * objectChunkSize < value.length := by
        by_contra hle
        exact absurd (le_of_chunkCount_le.mpr (Nat.le_of_not_lt hle)) (by omega)
      have hmax : maxChunks = 178956971 := rfl
      obtain ⟨first, second, rest, rfl⟩ : ∃ first second rest,
          chunks = first :: second :: rest := by
        match chunks, hchunks with
        | first :: second :: rest, _ => exact ⟨first, second, rest, rfl⟩
        | [_], h | [], h =>
          simp only [List.length_cons, List.length_nil] at h
          omega
      have hfile := length_objectFile data hchunks
      have hdata := htable.data_le
      have hoffset : dataOffset value.length = 28 + chunkCount value.length * 24 := rfl
      obtain ⟨hcounted, -, -, hall⟩ :=
        readChunks_spec (by omega) (by omega) (by decide) (by omega) hread
      obtain ⟨hentry, hraw, -⟩ := hall maxChunks _ (List.getElem?_eq_getElem (by omega))
      rw [hentry, Nat.zero_add, List.flatMap_cons, List.flatMap_cons, misread_raw] at hraw
      have hsize : objectChunkSize = 65536 := rfl
      rw [hmax, hsize] at hlong
      rw [hmax, hsize] at hraw
      omega

end Opening

end ObjectFormat
