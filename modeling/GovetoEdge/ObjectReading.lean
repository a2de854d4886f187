import GovetoEdge.ObjectRoundTrip

/-!
# An object reader behaves like a reader of the plain bytes

`Plain` is what an object reader is for: a position in a byte sequence, with
`Read` and `Seek` in unbounded arithmetic.  `Represents` relates an object
reader over a file to a plain reader; each call preserves it and has the same
outcome (`Represents.read`, `Represents.seek`), so every sequence of calls
has (`Represents.calls`).
-/

namespace ObjectFormat

open List

variable {lz4 : LZ4} {checksum : Bytes → UInt32}

namespace Plain

/-- Read up to `n` bytes of `value` at `pos`; end of file exactly at the end.
The result is the new position, the bytes and the error. -/
def read (value : Bytes) (pos n : Nat) : Nat × Bytes × Option String :=
  if value.length ≤ pos then (pos, [], some "EOF")
  else (pos + ((value.drop pos).take n).length, (value.drop pos).take n, none)

/-- Move to a position inside the sequence or to its end. -/
def moveTo (value : Bytes) (pos : Nat) (target : Int) : Nat × Except String Nat :=
  if target < 0 ∨ (value.length : Int) < target then
    (pos, .error "cache object seek out of bounds")
  else (target.toNat, .ok target.toNat)

/-- Seek from the start, the current position or the end. -/
def seek (value : Bytes) (pos : Nat) (offset whence : Int) : Nat × Except String Nat :=
  if whence = 0 then moveTo value pos offset
  else if whence = 1 then moveTo value pos (pos + offset)
  else if whence = 2 then moveTo value pos (value.length + offset)
  else (pos, .error "invalid seek origin")

end Plain

/-- A call on a reader. -/
inductive Call
  | read (n : Nat)
  | seek (offset : Int64) (whence : Int)

/-- What a call returns. -/
inductive Outcome
  | bytes (got : Bytes) (err : Option String)
  | position (result : Except String Nat)

/-- A call on the plain reader: the new position and the outcome. -/
def Plain.call (value : Bytes) (pos : Nat) : Call → Nat × Outcome
  | .read n => ((read value pos n).1, .bytes (read value pos n).2.1 (read value pos n).2.2)
  | .seek offset whence =>
    ((seek value pos offset.toInt whence).1, .position (seek value pos offset.toInt whence).2)

/-- The outcomes of a sequence of calls. -/
def Plain.calls (value : Bytes) : Nat → List Call → List Outcome
  | _, [] => []
  | pos, c :: cs => (call value pos c).2 :: Plain.calls value (call value pos c).1 cs

/-- One call of the reader. -/
def Reader.call (lz4 : LZ4) (checksum : Bytes → UInt32) (file : Bytes) (r : Reader) :
    Call → Option (Reader × Outcome)
  | .read n => (r.read lz4 checksum file n).map fun (r, got, err) => (r, .bytes got err)
  | .seek offset whence => some ((r.seek offset whence).1, .position (r.seek offset whence).2)

/-- The outcomes of a sequence of calls; `none` if one does not return. -/
def Reader.calls (lz4 : LZ4) (checksum : Bytes → UInt32) (file : Bytes) :
    Reader → List Call → Option (List Outcome)
  | _, [] => some []
  | r, c :: cs => do
    let (r, outcome) ← r.call lz4 checksum file c
    let outcomes ← Reader.calls lz4 checksum file r cs
    some (outcome :: outcomes)

/-- The entries of `layout` lead to the chunks of `value` in `file`. -/
def Indexed (lz4 : LZ4) (checksum : Bytes → UInt32) (file value : Bytes)
    (layout : ObjectLayout) : Prop :=
  layout.length = value.length ∧ layout.chunkSize = objectChunkSize ∧
    ∀ i, i * objectChunkSize < value.length →
      ∃ codec at' stored, layout.chunks[i]? = some (chunkEntry checksum codec at' stored
          ((value.drop (i * objectChunkSize)).take objectChunkSize)) ∧
        (file.drop at').take stored.length = stored ∧
        Decodes lz4 codec stored ((value.drop (i * objectChunkSize)).take objectChunkSize)

/-- Reader `r` stands at `pos` of `value`, and its buffer holds the chunk it
says it holds. -/
structure Represents (lz4 : LZ4) (checksum : Bytes → UInt32) (file value : Bytes)
    (r : Reader) (pos : Nat) : Prop where
  layout : Indexed lz4 checksum file value r.layout
  pos_eq : r.pos = pos
  pos_le : pos ≤ value.length
  buffer : r.buffer.length = objectChunkSize
  loaded : ∀ i, r.index = some i →
    r.data = (value.drop (i * objectChunkSize)).take objectChunkSize

variable {file value : Bytes} {r : Reader} {pos : Nat}

/-- Sums that leave the `int64` range wrap around to negative numbers, so a
wrapped target is refused like the true one. -/
theorem bmod_target {base length offset : Int} (hbase : 0 ≤ base) (hle : base ≤ length)
    (hlength : length < 2 ^ 63) (hlow : -2 ^ 63 ≤ offset) (hhigh : offset < 2 ^ 63) :
    (base + offset).bmod (2 ^ 64) = base + offset ∨
      ((base + offset).bmod (2 ^ 64) < 0 ∧ length < base + offset) := by
  by_cases h : base + offset < 2 ^ 63
  · left
    apply Int.bmod_eq_of_le
    · omega
    · omega
  · right
    refine ⟨?_, by omega⟩
    rw [Int.bmod_def]
    omega

section Reading

variable (h : Represents lz4 checksum file value r pos)

include h

/-- The buffer after a chunk was decoded into it. -/
theorem Represents.decoded {raw : Bytes} {i : Nat} {chunk : ObjectChunk}
    (hraw : raw = (value.drop (i * objectChunkSize)).take objectChunkSize)
    (hcrc : chunk.crc = (checksum raw).toNat) :
    ∃ r', ({ r with buffer := raw ++ r.buffer.drop raw.length, size := raw.length } : Reader).verify
        checksum i chunk = (r', none) ∧
      Represents lz4 checksum file value r' pos ∧ r'.index = some i := by
  have hle : raw.length ≤ objectChunkSize := by
    rw [hraw]
    exact length_take_le _ _
  have hdata : ({ r with buffer := raw ++ r.buffer.drop raw.length, size := raw.length } :
      Reader).data = raw := take_left
  refine ⟨{ r with buffer := raw ++ r.buffer.drop raw.length, size := raw.length, index := some i },
    ?_, ⟨h.layout, h.pos_eq, h.pos_le, ?_, ?_⟩, rfl⟩
  · unfold Reader.verify
    rw [hdata, if_neg (by simp [hcrc])]
  · rw [length_append, length_drop, h.buffer]
    omega
  · rintro j ⟨⟩
    exact hdata.trans hraw

/-- **Loading a chunk succeeds** and leaves its bytes in the buffer. -/
theorem Represents.load {i : Nat} (hi : i * objectChunkSize < value.length) :
    ∃ r', r.load lz4 checksum file i = (r', none) ∧
      Represents lz4 checksum file value r' pos ∧ r'.index = some i := by
  obtain ⟨codec, at', stored, hchunk, hbytes, hdec⟩ := h.layout.2.2 i hi
  set raw := (value.drop (i * objectChunkSize)).take objectChunkSize with hraw
  have hle : raw.length ≤ objectChunkSize := length_take_le _ _
  unfold Reader.load
  rw [hchunk]
  rcases hdec with ⟨rfl, rfl⟩ | ⟨rfl, hpos, hsmall, huncompress⟩
  · have hfull : ¬ raw.length < raw.length := lt_irrefl _
    simp only [chunkEntry, if_true, hbytes, hfull, if_false]
    exact h.decoded hraw rfl
  · have hcodec : ¬ codecLZ4 = codecRaw := by decide
    have hdst : (r.buffer.take raw.length).length = raw.length := by
      rw [length_take_of_le]
      rw [h.buffer]
      exact hle
    simp only [chunkEntry, hcodec, if_false, hbytes, lt_irrefl, huncompress _ hdst, if_true]
    exact h.decoded hraw rfl

/-- The bytes a loaded chunk offers at the current position. -/
theorem Represents.available (hindex : r.index = some (pos / objectChunkSize)) :
    r.data.drop (pos % objectChunkSize) =
      (value.drop pos).take (objectChunkSize - pos % objectChunkSize) := by
  have hsplit : pos / objectChunkSize * objectChunkSize + pos % objectChunkSize = pos := by
    rw [Nat.mul_comm]
    exact Nat.div_add_mod _ _
  rw [h.loaded _ hindex, drop_take, drop_drop, hsplit]

/-- **The loop of `Read`** copies the next bytes of the value. -/
theorem Represents.readLoop (fuel : Nat) {n : Nat} (hn : n ≤ fuel) :
    ∃ r', r.readLoop lz4 checksum file fuel n = some (r', (value.drop pos).take n, none) ∧
      Represents lz4 checksum file value r' (pos + ((value.drop pos).take n).length) := by
  induction fuel generalizing r pos n with
  | zero =>
    obtain rfl : n = 0 := by omega
    exact ⟨r, by simp [Reader.readLoop], by simpa using h⟩
  | succ fuel ih =>
    have hsize : objectChunkSize = 65536 := rfl
    unfold Reader.readLoop
    by_cases hgo : 0 < n ∧ r.pos < r.layout.length
    · rw [if_pos hgo]
      obtain ⟨hn0, hlt⟩ := hgo
      rw [h.pos_eq, h.layout.1] at hlt
      -- after this block the chunk at `pos` is in the buffer
      obtain ⟨r', hload, h', hindex⟩ : ∃ r', (if r.index ≠ some (r.pos / r.layout.chunkSize) then
            r.load lz4 checksum file (r.pos / r.layout.chunkSize) else (r, none)) = (r', none) ∧
          Represents lz4 checksum file value r' pos ∧
          r'.index = some (pos / objectChunkSize) := by
        rw [h.pos_eq, h.layout.2.1]
        by_cases hsame : r.index = some (pos / objectChunkSize)
        · exact ⟨r, by simp [hsame], h, hsame⟩
        · rw [if_pos hsame]
          apply h.load
          have := Nat.div_mul_le_self pos objectChunkSize
          omega
      have hcopied : (r'.data.drop (r'.pos % r'.layout.chunkSize)).take n =
          (value.drop pos).take (min n (objectChunkSize - pos % objectChunkSize)) := by
        rw [h'.pos_eq, h'.layout.2.1, h'.available hindex, take_take]
      set copied := (value.drop pos).take (min n (objectChunkSize - pos % objectChunkSize))
      have hlen : copied.length =
          min (min n (objectChunkSize - pos % objectChunkSize)) (value.length - pos) := by
        rw [length_take, length_drop]
      have hroom : pos % objectChunkSize < objectChunkSize := Nat.mod_lt _ (by omega)
      have hread : copied = (value.drop pos).take copied.length := by
        apply take_eq_take_iff.mpr
        rw [hlen, length_drop]
        omega
      have hnext : Represents lz4 checksum file value
          { r' with pos := r'.pos + copied.length } (pos + copied.length) :=
        ⟨h'.layout, by rw [h'.pos_eq], by omega, h'.buffer, h'.loaded⟩
      obtain ⟨r'', hmore, h''⟩ := ih (n := n - copied.length) hnext (by omega)
      have hwhole : copied ++ (value.drop (pos + copied.length)).take (n - copied.length) =
          (value.drop pos).take n := by
        rw [← drop_drop]
        nth_rewrite 1 [hread]
        rw [← take_add, Nat.add_sub_cancel' (by omega)]
      refine ⟨r'', ?_, ?_⟩
      · simp only [hload, hcopied, hmore]
        rw [← hwhole]
        rfl
      · rw [← hwhole, length_append, ← Nat.add_assoc]
        exact h''
    · rw [if_neg hgo]
      rw [h.pos_eq, h.layout.1] at hgo
      have hnil : (value.drop pos).take n = [] := by
        have hpos := h.pos_le
        rcases Nat.eq_zero_or_pos n with h0 | h0
        · simp [h0]
        · have : pos = value.length := by omega
          simp [this]
      rw [hnil]
      exact ⟨r, rfl, by simpa using h⟩

/-- **`Read` returns the bytes at the position**, and end of file exactly at
the end. -/
theorem Represents.read (n : Nat) :
    ∃ r', r.read lz4 checksum file n =
        some (r', (Plain.read value pos n).2.1, (Plain.read value pos n).2.2) ∧
      Represents lz4 checksum file value r' (Plain.read value pos n).1 := by
  unfold Reader.read Plain.read
  rw [h.layout.1, h.pos_eq]
  split
  · exact ⟨r, rfl, h⟩
  · exact h.readLoop n (le_refl n)

/-- Moving to the same target, or to two targets that are both refused. -/
theorem Represents.moveTo {target wrapped : Int}
    (htarget : wrapped = target ∨ (wrapped < 0 ∧ (value.length : Int) < target)) :
    (r.moveTo wrapped).2 = (Plain.moveTo value pos target).2 ∧
      Represents lz4 checksum file value (r.moveTo wrapped).1
        (Plain.moveTo value pos target).1 := by
  unfold Reader.moveTo Plain.moveTo
  rw [h.layout.1]
  rcases htarget with rfl | ⟨hneg, hbig⟩
  · split
    · exact ⟨rfl, h⟩
    · rename_i hin
      have hle : wrapped.toNat ≤ value.length := by omega
      exact ⟨rfl, h.layout, rfl, hle, h.buffer, h.loaded⟩
  · rw [if_pos (.inl hneg), if_pos (.inr hbig)]
    exact ⟨rfl, h⟩

/-- **`Seek` moves to the requested position**, or refuses as it should. -/
theorem Represents.seek (hlength : value.length < 2 ^ 63) (offset : Int64) (whence : Int) :
    (r.seek offset whence).2 = (Plain.seek value pos offset.toInt whence).2 ∧
      Represents lz4 checksum file value (r.seek offset whence).1
        (Plain.seek value pos offset.toInt whence).1 := by
  have hlow : -2 ^ 63 ≤ offset.toInt := Int64.le_toInt offset
  have hhigh : offset.toInt < 2 ^ 63 := Int64.toInt_lt offset
  have hpos := h.pos_le
  unfold Reader.seek Plain.seek
  rw [h.layout.1, h.pos_eq]
  split
  · exact h.moveTo (.inl rfl)
  · split
    · exact h.moveTo (bmod_target (by omega) (by omega) (by omega) hlow hhigh)
    · split
      · exact h.moveTo (bmod_target (by omega) (by omega) (by omega) hlow hhigh)
      · exact ⟨rfl, h⟩

/-- One call has the outcome it has over the plain bytes. -/
theorem Represents.call (hlength : value.length < 2 ^ 63) (c : Call) :
    ∃ r', r.call lz4 checksum file c = some (r', (Plain.call value pos c).2) ∧
      Represents lz4 checksum file value r' (Plain.call value pos c).1 := by
  cases c with
  | read n =>
    obtain ⟨r', hread, h'⟩ := h.read n
    refine ⟨r', ?_, h'⟩
    rw [Reader.call, hread]
    rfl
  | seek offset whence =>
    obtain ⟨hout, h'⟩ := h.seek hlength offset whence
    refine ⟨_, ?_, h'⟩
    rw [Reader.call, hout]
    rfl

/-- **Every sequence of calls** has the outcomes it has over the plain bytes. -/
theorem Represents.calls (hlength : value.length < 2 ^ 63) (cs : List Call) :
    r.calls lz4 checksum file cs = some (Plain.calls value pos cs) := by
  induction cs generalizing r pos with
  | nil => rfl
  | cons c cs ih =>
    obtain ⟨r', hcall, h'⟩ := h.call hlength c
    rw [Reader.calls, hcall]
    simp only [Option.bind_eq_bind, Option.bind_some, ih h', Plain.calls]

end Reading

/-- Whenever the writer leaves a file for `value`, the file opens, and every
sequence of calls on a reader over it, whatever its pooled buffer holds, has
the outcomes it has over the plain bytes. -/
def RoundTrips (lz4 : LZ4) (checksum : Bytes → UInt32) (value : Bytes) : Prop :=
  ∀ logicalSize file, writeObjectReader lz4 checksum value logicalSize = .ok file →
    ∃ layout, readObjectLayout lz4 file file.length = .ok layout ∧
      ∀ (pooled : Bytes) (cs : List Call), pooled.length = layout.chunkSize →
        (newObjectReaderFromLayout layout pooled).calls lz4 checksum file cs =
          some (Plain.calls value 0 cs)

/-- A new reader over a written file stands at the start of the value. -/
theorem Represents.start {chunks : List ObjectChunk} {data pooled : Bytes}
    (htable : Table lz4 checksum (dataOffset value.length) value chunks data)
    (hpooled : pooled.length = objectChunkSize) :
    Represents lz4 checksum (objectFile value chunks data) value
      (newObjectReaderFromLayout
        { chunks := chunks, length := value.length, chunkSize := objectChunkSize } pooled) 0 := by
  refine ⟨⟨rfl, rfl, ?_⟩, rfl, Nat.zero_le _, hpooled, fun i h => by cases h⟩
  intro i hi
  have hbefore : (putHeader value.length (chunkCount value.length) ++
      chunks.flatMap putEntry).length = dataOffset value.length := by
    rw [length_append, length_putHeader, length_flatMap_putEntry, htable.length_eq]
    rfl
  have hchunk := htable.chunk _ i hbefore hi
  exact hchunk

/-- **An object can be read back exactly if** its table has at most
`maxChunks` entries, or the writer refuses it in the first place. -/
theorem roundTrips_iff (checksum : Bytes → UInt32) (hlz4 : lz4.Lawful) (value : Bytes) :
    RoundTrips lz4 checksum value ↔
      value.length ≤ maxChunks * objectChunkSize ∨ 2 ^ 63 - 1 < value.length := by
  constructor
  · intro htrips
    by_contra hno
    have hlength : value.length ≤ 2 ^ 63 - 1 := by omega
    obtain ⟨chunks, data, hwrite, htable⟩ := writeObjectReader_ok checksum hlz4 hlength
    obtain ⟨layout, hopen, _⟩ := htrips value.length _ hwrite
    have hcount : maxChunks < chunkCount value.length := by
      by_contra hle
      exact hno (.inl (le_of_chunkCount_le.mp (Nat.le_of_not_lt hle)))
    obtain ⟨e, hrefused⟩ := readObjectLayout_refuses hlength htable hcount
    rw [hrefused] at hopen
    cases hopen
  · intro hlen logicalSize file hwrite
    obtain ⟨rfl, hlength⟩ := length_of_writeObjectReader hlz4 hwrite
    have hshort : value.length ≤ maxChunks * objectChunkSize := by omega
    obtain ⟨chunks, data, hwrite', htable⟩ := writeObjectReader_ok checksum hlz4 hlength
    rw [hwrite] at hwrite'
    cases hwrite'
    refine ⟨_, readObjectLayout_written hlz4 htable (le_of_chunkCount_le.mpr hshort), ?_⟩
    intro pooled cs hpooled
    exact (Represents.start htable hpooled).calls (by omega) cs

/-- An LZ4 package that finds every block incompressible. -/
def storingLZ4 : LZ4 where
  compressBlockBound n := n + n / 255 + 16
  compressBlock _ := .ok []
  uncompressBlock _ dst := (dst, .error "lz4: invalid source or destination buffer too short")

theorem storingLZ4_lawful : storingLZ4.Lawful where
  bound n := Nat.le_add_right_of_le (Nat.le_add_right n (n / 255))
  compresses _ := ⟨[], rfl⟩
  inverts raw compressed dst hcompress hne _ := by
    cases hcompress
    exact absurd rfl hne

/-- A three-byte object, which is stored raw, comes back. -/
theorem roundTrips_three_bytes :
    RoundTrips storingLZ4 (fun raw => UInt32.ofNat raw.length) [1, 2, 3] :=
  (roundTrips_iff (fun raw => UInt32.ofNat raw.length) storingLZ4_lawful [1, 2, 3]).mpr
    (.inl (by decide))

/-- An object of one byte more than `maxChunks` full chunks is lost, whatever
LZ4 and the checksum do. -/
theorem long_object_lost :
    ∃ value : Bytes, value = List.replicate (178956971 * 65536 + 1) 0 ∧
      ∀ (lz4 : LZ4) (checksum : Bytes → UInt32), lz4.Lawful →
        ¬ RoundTrips lz4 checksum value := by
  refine ⟨_, rfl, fun lz4 checksum hlz4 htrips => ?_⟩
  have hlength : (List.replicate (178956971 * 65536 + 1) (0 : UInt8)).length ≤ 2 ^ 63 - 1 := by
    rw [length_replicate]
    omega
  obtain ⟨chunks, data, hwrite, htable⟩ := writeObjectReader_ok checksum hlz4 hlength
  obtain ⟨layout, hopen, _⟩ := htrips _ _ hwrite
  obtain ⟨e, hrefused⟩ := readObjectLayout_refuses hlength htable (by
    rw [length_replicate]
    decide)
  rw [hrefused] at hopen
  cases hopen

end ObjectFormat
