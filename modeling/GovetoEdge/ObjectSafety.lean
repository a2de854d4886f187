import GovetoEdge.ObjectReading
import GovetoEdge.Runs
import GovetoEdge.Fallible

/-!
# Object files that nobody vouches for

What `readObjectLayout` accepts, whatever the file holds and whatever size it
is said to have, and what a reader over an accepted layout does when the file
changes under it.

* `readObjectLayout_wellFormed`: the chunks of an accepted table fill the
  claimed size, and their raw sizes add up to the declared length;
* `Reader.Short` are the reads that do not come back, because a load that
  failed has shortened the chunk that the reader still takes as loaded;
* `Careful` are the calls after which all bytes are `Genuine`.
-/

namespace ObjectFormat

open BigEndian Runs Option Fallible

variable {lz4 : LZ4} {checksum : Bytes → UInt32}

/-- What an accepted table of a file of `encodedSize` bytes guarantees, in
unbounded arithmetic. -/
structure ObjectLayout.WellFormed (lz4 : LZ4) (encodedSize : Nat) (layout : ObjectLayout) :
    Prop where
  chunkSize : layout.chunkSize = objectChunkSize ∨ layout.chunkSize = legacyChunkSize
  contiguous : Contiguous (objectHeaderSize + layout.chunks.length * objectEntrySize)
    layout.chunks encodedSize
  inside : ∀ chunk ∈ layout.chunks, chunk.offset + chunk.stored ≤ encodedSize
  sum : (layout.chunks.map (·.raw)).sum = layout.length
  chunk : ∀ i, i * layout.chunkSize < layout.length → ∃ chunk, layout.chunks[i]? = some chunk ∧
    chunk.raw = min layout.chunkSize (layout.length - i * layout.chunkSize) ∧
    (chunk.codec ≠ codecRaw → chunk.stored ≤ lz4.compressBlockBound layout.chunkSize)

/-- Chunks lie inside the file. -/
theorem Contiguous.inside {chunks : List ObjectChunk} {start stop : Nat}
    (h : Contiguous start chunks stop) :
    start ≤ stop ∧ ∀ chunk ∈ chunks, chunk.offset + chunk.stored ≤ stop := by
  induction chunks generalizing start with
  | nil => exact ⟨le_of_eq h, List.forall_mem_nil _⟩
  | cons chunk chunks ih =>
    obtain ⟨hle, hall⟩ := ih h.2
    refine ⟨by omega, fun c hc => ?_⟩
    rcases List.mem_cons.mp hc with rfl | hc
    · rw [h.1]
      exact hle
    · exact hall c hc

/-- **An accepted table is well formed**, whatever the file holds. -/
theorem readObjectLayout_wellFormed {file : Bytes} {encodedSize : UInt64} {layout : ObjectLayout}
    (h : readObjectLayout lz4 file encodedSize.toNat = .ok layout) :
    layout.WellFormed lz4 encodedSize.toNat ∧
      layout.length = get (slice (file.take objectHeaderSize) 16 24) := by
  have hsize : encodedSize.toNat < 2 ^ 64 := encodedSize.toNat_lt
  obtain ⟨header, hheader, h⟩ := exists_of_bind h
  have htaken : header = file.take objectHeaderSize := by
    unfold readAt at hheader
    dsimp only at hheader
    split at hheader
    · cases hheader
    · cases hheader
      rw [List.drop_zero]
  set chunkSize := get (slice header 12 16)
  set length := get (slice header 16 24) with hlength
  set count := get (slice header 24 28)
  obtain ⟨hformat, h⟩ := ok_of_guard h
  obtain ⟨hcount, h⟩ := ok_of_guard h
  obtain ⟨hroom, h⟩ := ok_of_guard h
  obtain ⟨table, htable, h⟩ := exists_of_bind h
  obtain ⟨⟨chunks, stop, total⟩, hread, h⟩ := exists_of_bind h
  obtain ⟨hends, h⟩ := ok_of_guard h
  cases h
  obtain ⟨rfl, rfl⟩ : stop = encodedSize.toNat ∧ total = length := by tauto
  have hsizes : chunkSize = 65536 ∨ chunkSize = 262144 := by tauto
  have hexpected : count = if 0 < length then (length - 1) / chunkSize + 1 else 0 := by tauto
  have hstart : objectHeaderSize + count * objectEntrySize ≤ encodedSize.toNat := by omega
  have hread : readChunks lz4 table encodedSize.toNat length chunkSize count 0
      (objectHeaderSize + count * objectEntrySize) (min (0 * chunkSize) length) =
      .ok (chunks, encodedSize.toNat, length) := by
    rw [Nat.zero_mul, Nat.zero_min]
    exact hread
  have hchunkSize : chunkSize < 2 ^ 32 := by omega
  have hsmall : length < 2 ^ 63 := by omega
  obtain ⟨hlen, hcontiguous, hsum, hall⟩ :=
    readChunks_spec hsize hsmall hchunkSize hstart hread
  refine ⟨⟨hsizes, hlen.symm ▸ hcontiguous, hcontiguous.inside.2, by simpa using hsum, ?_⟩,
    htaken ▸ rfl⟩
  intro i hi
  dsimp only at hi
  have hindex : i < chunks.length := by
    have hle : i ≤ (length - 1) / chunkSize :=
      (Nat.le_div_iff_mul_le (by omega)).mpr (by omega)
    rw [if_pos (by omega)] at hexpected
    omega
  obtain ⟨-, hraw, hbound⟩ := hall i chunks[i] (List.getElem?_eq_getElem hindex)
  refine ⟨chunks[i], List.getElem?_eq_getElem hindex, ?_, hbound⟩
  rw [hraw, Nat.zero_add, Nat.min_eq_left (le_of_lt hi)]

/-- Decoding writes into the slice it is given, which keeps its length. -/
def LZ4.InPlace (lz4 : LZ4) : Prop :=
  ∀ src dst, (lz4.uncompressBlock src dst).1.length = dst.length

/-- `data` is what chunk `i` of the file decodes to, and has the checksum of
the table. -/
def ObjectLayout.Verified (lz4 : LZ4) (checksum : Bytes → UInt32) (file : Bytes)
    (layout : ObjectLayout) (i : Nat) (data : Bytes) : Prop :=
  ∃ chunk, layout.chunks[i]? = some chunk ∧ data.length = chunk.raw ∧
    (checksum data).toNat = chunk.crc ∧
    if chunk.codec = codecRaw then data = (file.drop chunk.offset).take chunk.raw
    else ((file.drop chunk.offset).take chunk.stored).length = chunk.stored ∧
      ∃ dst, dst.length = chunk.raw ∧ lz4.uncompressBlock
        ((file.drop chunk.offset).take chunk.stored) dst = (data, .ok chunk.raw)

/-- A reader of `layout` with a buffer for one chunk. -/
structure Reader.Over (layout : ObjectLayout) (r : Reader) : Prop where
  same : r.layout = layout
  buffer : r.buffer.length = layout.chunkSize

variable {file : Bytes} {layout : ObjectLayout} {r : Reader} {encodedSize i n : Nat}

/-- The reader after chunk `i` was decoded into its buffer and its checksum
compared. -/
theorem Reader.verify_spec (h : r.Over layout) {chunk : ObjectChunk} {data rest : Bytes}
    (hsize : r.size = chunk.raw) (hbuffer : r.buffer = data ++ rest)
    (hlength : data.length = chunk.raw)
    (hdecoded : (checksum data).toNat = chunk.crc →
      layout.Verified lz4 checksum file i data) :
    (r.verify checksum i chunk).1.Over layout ∧ (r.verify checksum i chunk).1.pos = r.pos ∧
      ((r.verify checksum i chunk).2 = none → (r.verify checksum i chunk).1.index = some i ∧
        layout.Verified lz4 checksum file i (r.verify checksum i chunk).1.data) := by
  have hdata : r.data = data := by
    rw [Reader.data, hsize, hbuffer, ← hlength]
    exact List.take_left
  unfold Reader.verify
  rw [hdata]
  split
  · exact ⟨h, rfl, nofun⟩
  · rename_i hsum
    refine ⟨⟨h.same, h.buffer⟩, rfl, fun _ => ⟨rfl, ?_⟩⟩
    exact hdata.symm ▸ hdecoded (not_not.mp hsum)

/-- **A load that does not fail** leaves the verified chunk in the buffer, and
every load leaves the position and the length of the buffer alone. -/
theorem Reader.load_spec (hlz4 : lz4.InPlace) (h : r.Over layout) {chunk : ObjectChunk}
    (hchunk : layout.chunks[i]? = some chunk) (hraw : chunk.raw ≤ layout.chunkSize)
    {out : Reader × Option String} (hload : r.load lz4 checksum file i = out) :
    out.1.Over layout ∧ out.1.pos = r.pos ∧ (out.2 = none →
      out.1.index = some i ∧ layout.Verified lz4 checksum file i out.1.data) := by
  obtain ⟨rfl, hbuffer⟩ := h
  rw [← hload]
  unfold Reader.load
  rw [hchunk]
  by_cases hcodec : chunk.codec = codecRaw
  · simp only [hcodec, if_true]
    set got := (file.drop chunk.offset).take chunk.raw with hgot
    have hle : got.length ≤ chunk.raw := List.length_take_le _ _
    have hover : ({ r with buffer := got ++ r.buffer.drop got.length, size := chunk.raw } :
        Reader).Over r.layout := ⟨rfl, by simp; omega⟩
    split
    · exact ⟨hover, rfl, nofun⟩
    · have hlength : got.length = chunk.raw := by omega
      refine Reader.verify_spec hover rfl rfl hlength fun hsum => ?_
      exact ⟨chunk, hchunk, hlength, hsum, by rw [if_pos hcodec]⟩
  · simp only [hcodec, if_false]
    set got := (file.drop chunk.offset).take chunk.stored with hgot
    have hdst : (r.buffer.take chunk.raw).length = chunk.raw := by
      rw [List.length_take, hbuffer]
      omega
    have hout := hlz4 got (r.buffer.take chunk.raw)
    rw [hdst] at hout
    split
    · exact ⟨⟨rfl, hbuffer⟩, rfl, nofun⟩
    · rename_i hfull
      cases hdecode : lz4.uncompressBlock got (r.buffer.take chunk.raw) with
      | mk out decoded =>
        rw [hdecode] at hout
        simp only [hdecode]
        have hover : ({ r with buffer := out ++ r.buffer.drop chunk.raw, size := chunk.raw } :
            Reader).Over r.layout := ⟨rfl, by simp [hout]; omega⟩
        cases decoded with
        | error e => exact ⟨hover, rfl, nofun⟩
        | ok m =>
          dsimp only
          split
          · rename_i hm
            refine Reader.verify_spec hover rfl rfl hout fun hsum => ?_
            refine ⟨chunk, hchunk, hout, hsum, ?_⟩
            rw [if_neg hcodec]
            have hle : got.length ≤ chunk.stored := List.length_take_le _ _
            have hread : got.length = chunk.stored := by omega
            exact ⟨hread, _, hdst, hm ▸ hdecode⟩
          · exact ⟨hover, rfl, nofun⟩

/-- The reader with the chunk at its position loaded. -/
def Reader.fetch (lz4 : LZ4) (checksum : Bytes → UInt32) (file : Bytes) (r : Reader) :
    Reader × Option String :=
  if r.index ≠ some (r.pos / r.layout.chunkSize) then
    r.load lz4 checksum file (r.pos / r.layout.chunkSize)
  else (r, none)

/-- The bytes of the loaded chunk that go to a target of `n` bytes. -/
def Reader.copied (r : Reader) (n : Nat) : Bytes :=
  (r.data.drop (r.pos % r.layout.chunkSize)).take n

/-- Some bytes were delivered. -/
def Reader.advance (r : Reader) (n : Nat) : Reader :=
  { r with pos := r.pos + (r.copied n).length }

theorem Reader.length_copied (r : Reader) (n : Nat) :
    (r.copied n).length = min n (r.data.length - r.pos % r.layout.chunkSize) := by
  rw [Reader.copied, List.length_take, List.length_drop]

/-- One round of the loop, and the rest. -/
theorem Reader.readLoop_succ {fuel : Nat} (hgo : 0 < n ∧ r.pos < r.layout.length) :
    r.readLoop lz4 checksum file (fuel + 1) n =
      match r.fetch lz4 checksum file with
      | (r, some e) => some (r, [], some e)
      | (r, none) =>
        ((r.advance n).readLoop lz4 checksum file fuel (n - (r.copied n).length)).map
          fun (r', more, e) => (r', r.copied n ++ more, e) := by
  rw [Reader.readLoop, if_pos hgo]
  unfold Reader.fetch
  dsimp only
  generalize (if r.index ≠ some (r.pos / r.layout.chunkSize) then
    r.load lz4 checksum file (r.pos / r.layout.chunkSize) else (r, none)) = fetched
  obtain ⟨r', failed⟩ := fetched
  cases failed with
  | some e => rfl
  | none =>
    exact map_eq_bind.symm

/-- Nothing is left to read. -/
theorem Reader.readLoop_done (hstop : ¬ (0 < n ∧ r.pos < r.layout.length)) (fuel : Nat) :
    r.readLoop lz4 checksum file fuel n = some (r, [], none) := by
  cases fuel with
  | zero => rw [Reader.readLoop, if_neg hstop]
  | succ fuel => rw [Reader.readLoop, if_neg hstop]

variable {r' : Reader}

/-- The chunk at the position, loaded now or before. -/
theorem Reader.fetch_spec (hlz4 : lz4.InPlace) (hwf : layout.WellFormed lz4 encodedSize)
    (h : r.Over layout) (hpos : r.pos < layout.length) {failed : Option String}
    (hfetch : r.fetch lz4 checksum file = (r', failed)) :
    r'.Over layout ∧ r'.pos = r.pos ∧ (failed = none →
      r'.index = some (r.pos / layout.chunkSize) ∧
        (layout.Verified lz4 checksum file (r.pos / layout.chunkSize) r'.data ∨
          r' = r)) := by
  unfold Reader.fetch at hfetch
  rw [h.same] at hfetch
  split at hfetch
  · have hle := Nat.div_mul_le_self r.pos layout.chunkSize
    obtain ⟨chunk, hchunk, hraw, -⟩ := hwf.chunk (r.pos / layout.chunkSize) (by omega)
    obtain ⟨hover, hsame, hok⟩ := Reader.load_spec hlz4 h hchunk (by omega) hfetch
    exact ⟨hover, hsame, fun hnone => ⟨(hok hnone).1, .inl (hok hnone).2⟩⟩
  · rename_i hcached
    cases hfetch
    exact ⟨h, rfl, fun _ => ⟨not_not.mp hcached, .inr rfl⟩⟩

/-- The raw size of the chunk at the position of a reader. -/
def Reader.rawSize (r : Reader) : Nat :=
  min r.layout.chunkSize (r.layout.length - r.pos / r.layout.chunkSize * r.layout.chunkSize)

theorem place_div_mod {chunkSize inside : Nat} (h : inside < chunkSize) :
    (i * chunkSize + inside) / chunkSize = i ∧ (i * chunkSize + inside) % chunkSize = inside :=
  (Nat.div_mod_unique (by omega)).mpr ⟨by rw [Nat.mul_comm, Nat.add_comm], h⟩

/-- A position lies inside its chunk. -/
theorem Reader.inside_lt (hwf : r.layout.WellFormed lz4 encodedSize)
    (hpos : r.pos < r.layout.length) :
    r.pos % r.layout.chunkSize < r.rawSize ∧
      r.pos = r.pos / r.layout.chunkSize * r.layout.chunkSize + r.pos % r.layout.chunkSize := by
  have hsplit : r.pos = r.pos / r.layout.chunkSize * r.layout.chunkSize +
      r.pos % r.layout.chunkSize := (Nat.div_add_mod' _ _).symm
  have hlt : r.pos % r.layout.chunkSize < r.layout.chunkSize := by
    apply Nat.mod_lt
    rcases hwf.chunkSize with h | h <;> rw [h] <;> decide
  exact ⟨by unfold Reader.rawSize; omega, hsplit⟩

/-- A verified chunk has the raw size of its place. -/
theorem ObjectLayout.Verified.length (hwf : r.layout.WellFormed lz4 encodedSize)
    (hpos : r.pos < r.layout.length) {data : Bytes}
    (h : r.layout.Verified lz4 checksum file (r.pos / r.layout.chunkSize) data) :
    data.length = r.rawSize := by
  have hle := Nat.div_mul_le_self r.pos r.layout.chunkSize
  obtain ⟨chunk, hchunk, hraw, -⟩ := hwf.chunk (r.pos / r.layout.chunkSize) (by omega)
  obtain ⟨other, hother, hlength, -⟩ := h
  obtain rfl : chunk = other := Option.some.inj (hchunk.symm.trans hother)
  exact hlength.trans hraw

/-- The accesses of `load` to chunk `i` are in range: the entry, and the parts
of the two buffers. -/
def Reader.LoadInRange (lz4 : LZ4) (r : Reader) (i : Nat) : Prop :=
  ∃ chunk, r.layout.chunks[i]? = some chunk ∧ chunk.raw ≤ r.buffer.length ∧
    (chunk.codec ≠ codecRaw → chunk.stored ≤ lz4.compressBlockBound r.layout.chunkSize)

/-- The accesses of the first `fuel` rounds of `Read` are in range. -/
def Reader.InRange (lz4 : LZ4) (checksum : Bytes → UInt32) (file : Bytes) :
    Nat → Reader → Nat → Prop
  | 0, _, _ => True
  | fuel + 1, r, n => 0 < n → r.pos < r.layout.length →
      (r.index ≠ some (r.pos / r.layout.chunkSize) →
        r.LoadInRange lz4 (r.pos / r.layout.chunkSize)) ∧
      ∀ r', r.fetch lz4 checksum file = (r', none) →
        r'.pos % r'.layout.chunkSize ≤ r'.data.length ∧
        Reader.InRange lz4 checksum file fuel (r'.advance n) (n - (r'.copied n).length)

/-- A read that is served from the loaded chunk, of which a failed load has
left too little. -/
def Reader.Short (r : Reader) (n : Nat) : Prop :=
  0 < n ∧ r.pos < r.layout.length ∧ r.index = some (r.pos / r.layout.chunkSize) ∧
    r.data.length < r.rawSize ∧ r.data.length < r.pos % r.layout.chunkSize + n

instance (r : Reader) (n : Nat) : Decidable (r.Short n) := by
  unfold Reader.Short
  infer_instance

/-- The chunk is there already. -/
theorem Reader.fetch_cached (hindex : r.index = some (r.pos / r.layout.chunkSize)) :
    r.fetch lz4 checksum file = (r, none) := by
  rw [Reader.fetch, if_neg (not_not.mpr hindex)]

/-- At the end of the loaded bytes nothing is copied any more. -/
theorem Reader.readLoop_stuck (hn : 0 < n) (hpos : r.pos < r.layout.length)
    (hindex : r.index = some (r.pos / r.layout.chunkSize))
    (hend : r.data.length ≤ r.pos % r.layout.chunkSize) (fuel : Nat) :
    r.readLoop lz4 checksum file fuel n = none := by
  induction fuel with
  | zero => rw [Reader.readLoop, if_pos ⟨hn, hpos⟩]
  | succ fuel ih =>
    have hnil : r.copied n = [] := by
      rw [Reader.copied, List.drop_of_length_le hend, List.take_nil]
    have hstays : r.advance n = r := by
      rw [Reader.advance, hnil]
      rfl
    rw [Reader.readLoop_succ ⟨hn, hpos⟩, Reader.fetch_cached hindex]
    dsimp only
    rw [hstays, hnil, List.length_nil, Nat.sub_zero, ih]
    rfl

/-- **A short read never comes back.** -/
theorem Reader.readLoop_short (h : r.Short n) (fuel : Nat) :
    r.readLoop lz4 checksum file fuel n = none := by
  obtain ⟨hn, hpos, hindex, hraw, hneeds⟩ := h
  cases fuel with
  | zero => rw [Reader.readLoop, if_pos ⟨hn, hpos⟩]
  | succ fuel =>
    rcases Nat.lt_or_ge (r.pos % r.layout.chunkSize) r.data.length with hlt | hge
    · have hcopied := r.length_copied n
      have hsplit := Nat.div_add_mod' r.pos r.layout.chunkSize
      obtain ⟨hdiv, hmod⟩ := place_div_mod (i := r.pos / r.layout.chunkSize)
        (show r.data.length < r.layout.chunkSize by unfold Reader.rawSize at hraw; omega)
      have hmove : (r.advance n).pos =
          r.pos / r.layout.chunkSize * r.layout.chunkSize + r.data.length := by
        unfold Reader.advance
        dsimp only
        omega
      have hstuck : (r.advance n).readLoop lz4 checksum file fuel (n - (r.copied n).length) =
          none := by
        refine Reader.readLoop_stuck (by omega) ?_ ?_ ?_ fuel
        · unfold Reader.rawSize at hraw
          simp only [Reader.advance]
          omega
        · rw [hmove]
          exact hindex.trans (congrArg some hdiv.symm)
        · rw [hmove]
          exact le_of_eq hmod.symm
      rw [Reader.readLoop_succ ⟨hn, hpos⟩, Reader.fetch_cached hindex]
      dsimp only
      rw [hstuck]
      rfl
    · exact Reader.readLoop_stuck hn hpos hindex hge _

/-- **Every other read comes back**, and all its accesses are in range. -/
theorem Reader.readLoop_safe (hlz4 : lz4.InPlace) (hwf : layout.WellFormed lz4 encodedSize)
    (fuel : Nat) {r : Reader} {n : Nat} (h : r.Over layout) (hshort : ¬ r.Short n) :
    r.InRange lz4 checksum file fuel n ∧
      (n ≤ fuel → (r.readLoop lz4 checksum file fuel n).isSome) := by
  induction fuel generalizing r n with
  | zero =>
    refine ⟨trivial, fun hn => ?_⟩
    rw [Reader.readLoop_done (by omega)]
    rfl
  | succ fuel ih =>
    by_cases hgo : 0 < n ∧ r.pos < r.layout.length
    · obtain rfl := h.same
      obtain ⟨hinside, hsplit⟩ := Reader.inside_lt hwf hgo.2
      have hround : ∀ r', r.fetch lz4 checksum file = (r', none) →
          r'.pos % r'.layout.chunkSize < r'.data.length ∧ (r'.advance n).Over r.layout ∧
            ¬ (r'.advance n).Short (n - (r'.copied n).length) := by
        intro r' hfetch
        obtain ⟨hover, hpos, hok⟩ := Reader.fetch_spec hlz4 hwf h hgo.2 hfetch
        obtain ⟨hindex, hdata⟩ := hok rfl
        have hfull : r.rawSize ≤ r'.data.length ∨
            r.pos % r.layout.chunkSize + n ≤ r'.data.length := by
          rcases hdata with hverified | rfl
          · exact .inl (le_of_eq (hverified.length hwf hgo.2).symm)
          · by_contra hno
            exact hshort ⟨hgo.1, hgo.2, hindex, by omega, by omega⟩
        have hcopied := r'.length_copied n
        rw [hover.same, hpos] at hcopied ⊢
        refine ⟨by omega, ⟨hover.same, hover.buffer⟩, ?_⟩
        rintro ⟨hmore, -, hindex', hless, -⟩
        -- the next round would stay in the chunk, so its raw size is the same
        have hlayout : (r'.advance n).layout = r.layout := hover.same
        have hraw : (r'.advance n).rawSize = r.rawSize := by
          rw [hlayout] at hindex'
          unfold Reader.rawSize
          rw [hlayout, ← Option.some.inj (hindex.symm.trans hindex')]
        have hkept : (r'.advance n).data = r'.data := rfl
        rw [hraw, hkept] at hless
        omega
      refine ⟨fun _ _ => ⟨fun _ => ?_, fun r' hfetch => ?_⟩, fun hn => ?_⟩
      · obtain ⟨chunk, hchunk, hraw, hstored⟩ :=
          hwf.chunk (r.pos / r.layout.chunkSize) (by omega)
        exact ⟨chunk, hchunk, by rw [h.buffer]; omega, hstored⟩
      · obtain ⟨hroom, hover, hnext⟩ := hround r' hfetch
        exact ⟨le_of_lt hroom, (ih hover hnext).1⟩
      · rw [Reader.readLoop_succ hgo]
        cases hfetch : r.fetch lz4 checksum file with
        | mk r' failed =>
          cases failed with
          | some e => rfl
          | none =>
            obtain ⟨hroom, hover, hnext⟩ := hround r' hfetch
            have hcopied := r'.length_copied n
            have hsome := (ih hover hnext).2 (by omega)
            rw [isSome_map]
            exact hsome
    · refine ⟨fun hn hpos => absurd ⟨hn, hpos⟩ hgo, fun _ => ?_⟩
      rw [Reader.readLoop_done hgo]
      rfl

/-- Byte `b` is at position `p` of the object, in a chunk that was decoded and
verified. -/
def ObjectLayout.Genuine (lz4 : LZ4) (checksum : Bytes → UInt32) (file : Bytes)
    (layout : ObjectLayout) (p : Nat) (b : UInt8) : Prop :=
  ∃ data, layout.Verified lz4 checksum file (p / layout.chunkSize) data ∧
    data[p % layout.chunkSize]? = some b

/-- The buffer holds the chunk that the reader takes as loaded. -/
def Reader.Sound (lz4 : LZ4) (checksum : Bytes → UInt32) (file : Bytes) (r : Reader) : Prop :=
  ∀ i, r.index = some i → r.layout.Verified lz4 checksum file i r.data

/-- The bytes that a round copies from a verified chunk. -/
theorem Reader.copied_genuine (hwf : r.layout.WellFormed lz4 encodedSize)
    (hpos : r.pos < r.layout.length)
    (h : r.layout.Verified lz4 checksum file (r.pos / r.layout.chunkSize) r.data)
    {k : Nat} {b : UInt8} (hb : (r.copied n)[k]? = some b) :
    r.layout.Genuine lz4 checksum file (r.pos + k) b := by
  obtain ⟨-, hsplit⟩ := Reader.inside_lt hwf hpos
  have hlength := h.length hwf hpos
  rw [Reader.copied, List.getElem?_take, List.getElem?_drop] at hb
  obtain ⟨hk, hb⟩ := ite_none_right_eq_some.mp hb
  obtain ⟨hlt, -⟩ := List.getElem?_eq_some_iff.mp hb
  obtain ⟨hdiv, hmod⟩ := place_div_mod (i := r.pos / r.layout.chunkSize)
    (show r.pos % r.layout.chunkSize + k < r.layout.chunkSize by
      unfold Reader.rawSize at hlength; omega)
  rw [← Nat.add_assoc, ← hsplit] at hdiv hmod
  exact ⟨r.data, hdiv.symm ▸ h, hmod.symm ▸ hb⟩

/-- **The loop of `Read`**: the reader stays one of its layout, and if it loads
the chunk it starts in or had it loaded properly, all bytes are genuine. -/
theorem Reader.readLoop_spec (hlz4 : lz4.InPlace) (hwf : layout.WellFormed lz4 encodedSize)
    (fuel : Nat) {r r' : Reader} {n : Nat} {got : Bytes} {err : Option String}
    (h : r.Over layout) (hread : r.readLoop lz4 checksum file fuel n = some (r', got, err)) :
    r'.Over layout ∧
      (r.Sound lz4 checksum file ∨ (0 < n ∧ r.pos < layout.length ∧
          r.index ≠ some (r.pos / layout.chunkSize)) →
        (∀ k b, got[k]? = some b → layout.Genuine lz4 checksum file (r.pos + k) b) ∧
        (err = none → r'.Sound lz4 checksum file)) := by
  induction fuel generalizing r n got with
  | zero =>
    by_cases hgo : 0 < n ∧ r.pos < r.layout.length
    · rw [Reader.readLoop, if_pos hgo] at hread
      cases hread
    · rw [Reader.readLoop_done hgo] at hread
      cases hread
      refine ⟨h, fun hready => ⟨by simp, fun _ => hready.resolve_right ?_⟩⟩
      rintro ⟨hn, hpos, -⟩
      exact hgo ⟨hn, h.same.symm ▸ hpos⟩
  | succ fuel ih =>
    by_cases hgo : 0 < n ∧ r.pos < r.layout.length
    · rw [Reader.readLoop_succ hgo] at hread
      obtain rfl := h.same
      cases hfetch : r.fetch lz4 checksum file with
      | mk loaded failed =>
        obtain ⟨hover, hpos, hok⟩ := Reader.fetch_spec hlz4 hwf h hgo.2 hfetch
        rw [hfetch] at hread
        cases failed with
        | some e =>
          cases hread
          exact ⟨hover, fun _ => ⟨by simp, by simp⟩⟩
        | none =>
          obtain ⟨⟨r'', more, e⟩, hmore, hout⟩ := map_eq_some_iff.mp hread
          cases hout
          have hnext : (loaded.advance n).Over r.layout := ⟨hover.same, hover.buffer⟩
          obtain ⟨hends, hrest⟩ := ih hnext hmore
          refine ⟨hends, fun hready => ?_⟩
          obtain ⟨hindex, hdata⟩ := hok rfl
          have hverified : loaded.layout.Verified lz4 checksum file
              (loaded.pos / loaded.layout.chunkSize) loaded.data := by
            rw [hover.same, hpos]
            rcases hdata with hverified | rfl
            · exact hverified
            · exact hready.elim (fun hsound => hsound _ hindex)
                (fun hmiss => absurd hindex hmiss.2.2)
          have hsound : (loaded.advance n).Sound lz4 checksum file := by
            intro i hi
            rw [hover.same, hpos] at hverified
            obtain rfl := Option.some.inj (hindex.symm.trans hi)
            exact hnext.same.symm ▸ hverified
          obtain ⟨hgenuine, hafter⟩ := hrest (.inl hsound)
          refine ⟨fun k b hb => ?_, hafter⟩
          rw [List.getElem?_append] at hb
          split at hb
          · have hcopied := Reader.copied_genuine (hover.same.symm ▸ hwf)
              (by rw [hpos, hover.same]; exact hgo.2) hverified hb
            rw [hover.same, hpos] at hcopied
            exact hcopied
          · have hlater := hgenuine _ b hb
            have hplace : (loaded.advance n).pos + (k - (loaded.copied n).length) =
                r.pos + k := by
              unfold Reader.advance
              dsimp only
              omega
            rw [hplace] at hlater
            exact hlater
    · rw [Reader.readLoop_done hgo] at hread
      cases hread
      refine ⟨h, fun hready => ⟨by simp, fun _ => hready.resolve_right ?_⟩⟩
      rintro ⟨hn, hpos, -⟩
      exact hgo ⟨hn, h.same.symm ▸ hpos⟩

/-- One call on a reader; none if it does not come back. -/
def Reader.step (lz4 : LZ4) (checksum : Bytes → UInt32) (file : Bytes) (r : Reader) (c : Call) :
    Option Reader :=
  (r.call lz4 checksum file c).map (·.1)

/-- `Seek` changes the position at most. -/
theorem Reader.seek_eq (r : Reader) (offset : Int64) (whence : Int) :
    ∃ pos, (r.seek offset whence).1 = { r with pos := pos } := by
  have hmove : ∀ target, ∃ pos, (r.moveTo target).1 = { r with pos := pos } := by
    intro target
    unfold Reader.moveTo
    split
    · exact ⟨r.pos, rfl⟩
    · exact ⟨target.toNat, rfl⟩
  unfold Reader.seek
  split_ifs
  · exact hmove _
  · exact hmove _
  · exact hmove _
  · exact ⟨r.pos, rfl⟩

/-- A read comes from the loop, or does nothing. -/
theorem Reader.read_eq_some {got : Bytes} {err : Option String}
    (h : r.read lz4 checksum file n = some (r', got, err)) :
    r.readLoop lz4 checksum file n n = some (r', got, err) ∨
      (r.layout.length ≤ r.pos ∧ r' = r ∧ got = []) := by
  unfold Reader.read at h
  split at h
  · rename_i hend
    cases h
    exact .inr ⟨hend, rfl, rfl⟩
  · exact .inl h

/-- Calls keep the reader on its layout. -/
theorem Reader.Over.step (hlz4 : lz4.InPlace) (hwf : layout.WellFormed lz4 encodedSize)
    (h : r.Over layout) {c : Call} (hstep : r.step lz4 checksum file c = some r') :
    r'.Over layout := by
  cases c with
  | read n =>
    obtain ⟨⟨_, outcome⟩, hcall, rfl⟩ := map_eq_some_iff.mp hstep
    obtain ⟨⟨r'', got, err⟩, hread, hout⟩ := map_eq_some_iff.mp hcall
    cases hout
    rcases Reader.read_eq_some hread with hloop | ⟨-, rfl, -⟩
    · exact (Reader.readLoop_spec hlz4 hwf n h hloop).1
    · exact h
  | seek offset whence =>
    cases hstep
    obtain ⟨pos, hseek⟩ := r.seek_eq offset whence
    rw [hseek]
    exact ⟨h.same, h.buffer⟩

/-- **Accepted layouts are well formed, and a read over one** comes back with all
accesses in range, unless it is a short one, which does not. -/
theorem readObjectLayout_safe (checksum : Bytes → UInt32) (hlz4 : lz4.InPlace) {file : Bytes}
    {encodedSize : UInt64} {layout : ObjectLayout}
    (hopen : readObjectLayout lz4 file encodedSize.toNat = .ok layout) :
    layout.WellFormed lz4 encodedSize.toNat ∧
      layout.length = get (slice (file.take objectHeaderSize) 16 24) ∧
      ∀ (contents pooled : Bytes) (cs : List Call) (r : Reader),
        pooled.length = layout.chunkSize →
        run (Reader.step lz4 checksum contents) (newObjectReaderFromLayout layout pooled) cs =
          some r →
        ∀ n, (¬ r.Short n → (r.read lz4 checksum contents n).isSome ∧
            ∀ fuel, r.InRange lz4 checksum contents fuel n) ∧
          (r.Short n → ∀ fuel, r.readLoop lz4 checksum contents fuel n = none) := by
  obtain ⟨hwf, hlength⟩ := readObjectLayout_wellFormed hopen
  refine ⟨hwf, hlength, fun contents pooled cs r hpooled hrun n => ⟨fun hshort => ?_, ?_⟩⟩
  · have hover : r.Over layout :=
      run_invariant (I := Reader.Over layout) (fun _ _ _ h => h.step hlz4 hwf) ⟨rfl, hpooled⟩ hrun
    refine ⟨?_, fun fuel => (Reader.readLoop_safe hlz4 hwf fuel hover hshort).1⟩
    unfold Reader.read
    split
    · rfl
    · exact (Reader.readLoop_safe hlz4 hwf n hover hshort).2 (le_refl n)
  · exact Reader.readLoop_short

theorem storingLZ4_inPlace : storingLZ4.InPlace := fun _ _ => rfl

/-- The file of the object `[1, 2, 3]`, under a checksum that is always zero. -/
def smallFile : Bytes :=
  putHeader 3 1 ++ (putEntry (chunkEntry (fun _ => 0) codecRaw 52 [1, 2, 3] [1, 2, 3]) ++ [1, 2, 3])

/-- A file with one chunk. -/
def smallLayout : ObjectLayout where
  chunks := [chunkEntry (fun _ => 0) codecRaw 52 [1, 2, 3] [1, 2, 3]]
  length := 3
  chunkSize := objectChunkSize

theorem smallFile_opened :
    readObjectLayout storingLZ4 smallFile (55 : UInt64).toNat = .ok smallLayout := by
  decide +kernel

/-- The chunks of a small file fill it. -/
theorem readObjectLayout_safe_smallFile : smallLayout.WellFormed storingLZ4 55 :=
  (readObjectLayout_safe (fun _ => 0) storingLZ4_inPlace smallFile_opened).1

/-- A reader, and whether its last load failed. -/
structure Tracked where
  reader : Reader
  failed : Bool

def Tracked.step (lz4 : LZ4) (checksum : Bytes → UInt32) (file : Bytes) (t : Tracked) :
    Call → Option Tracked
  | .read n => (t.reader.read lz4 checksum file n).map fun (r, _, err) =>
    { reader := r
      failed := if 0 < n ∧ t.reader.pos < t.reader.layout.length then err.isSome else t.failed }
  | .seek offset whence => some { t with reader := (t.reader.seek offset whence).1 }

/-- After a failed load, no read starts in the chunk that the reader takes as
loaded. -/
def Tracked.Careful (t : Tracked) : Call → Prop
  | .read n => t.failed → 0 < n → t.reader.pos < t.reader.layout.length →
      t.reader.index ≠ some (t.reader.pos / t.reader.layout.chunkSize)
  | .seek _ _ => True

/-- Every byte that the call returns is genuine. -/
def Tracked.Genuine (lz4 : LZ4) (checksum : Bytes → UInt32) (file : Bytes) (t : Tracked) :
    Call → Prop
  | .read n => ∀ r got err, t.reader.read lz4 checksum file n = some (r, got, err) →
      ∀ k b, got[k]? = some b →
        t.reader.layout.Genuine lz4 checksum file (t.reader.pos + k) b
  | .seek _ _ => True

/-- The loaded chunk is what it should be unless the last load failed. -/
structure Tracked.Inv (lz4 : LZ4) (checksum : Bytes → UInt32) (file : Bytes)
    (layout : ObjectLayout) (t : Tracked) : Prop where
  reads : t.reader.Over layout
  sound : t.failed = false → t.reader.Sound lz4 checksum file

variable {t t' : Tracked}

/-- A careful read. -/
theorem Tracked.Inv.read (hlz4 : lz4.InPlace) (hwf : layout.WellFormed lz4 encodedSize)
    (h : t.Inv lz4 checksum file layout) (hcareful : t.Careful (.read n)) {r : Reader}
    {got : Bytes} {err : Option String}
    (hread : t.reader.read lz4 checksum file n = some (r, got, err)) :
    (∀ k b, got[k]? = some b →
        layout.Genuine lz4 checksum file (t.reader.pos + k) b) ∧
      r.Over layout ∧
      (0 < n ∧ t.reader.pos < layout.length → err = none → r.Sound lz4 checksum file) ∧
      (¬ (0 < n ∧ t.reader.pos < layout.length) → r = t.reader) := by
  obtain ⟨hover, hsound⟩ := h
  have hsame := hover.same
  by_cases hgo : 0 < n ∧ t.reader.pos < layout.length
  · rcases Reader.read_eq_some hread with hloop | ⟨hend, -, -⟩
    · obtain ⟨hends, hbytes⟩ := Reader.readLoop_spec hlz4 hwf n hover hloop
      have hready : t.reader.Sound lz4 checksum file ∨ (0 < n ∧ t.reader.pos < layout.length ∧
          t.reader.index ≠ some (t.reader.pos / layout.chunkSize)) := by
        cases hfailed : t.failed with
        | false => exact .inl (hsound hfailed)
        | true =>
          rw [← hsame]
          exact .inr ⟨hgo.1, hsame ▸ hgo.2, hcareful hfailed hgo.1 (hsame ▸ hgo.2)⟩
      exact ⟨(hbytes hready).1, hends, fun _ => (hbytes hready).2, fun hno => absurd hgo hno⟩
    · rw [hsame] at hend
      omega
  · have hnothing : r = t.reader ∧ got = [] := by
      rcases Reader.read_eq_some hread with hloop | ⟨-, hr, hgot⟩
      · rw [Reader.readLoop_done (by rw [hsame]; exact hgo)] at hloop
        cases hloop
        exact ⟨rfl, rfl⟩
      · exact ⟨hr, hgot⟩
    obtain ⟨rfl, rfl⟩ := hnothing
    exact ⟨by simp, hover, fun h => absurd h hgo, fun _ => rfl⟩

/-- A careful call keeps the loaded chunk known. -/
theorem Tracked.Inv.step (hlz4 : lz4.InPlace) (hwf : layout.WellFormed lz4 encodedSize)
    (h : t.Inv lz4 checksum file layout) {c : Call} (hcareful : t.Careful c)
    (hstep : t.step lz4 checksum file c = some t') : t'.Inv lz4 checksum file layout := by
  cases c with
  | read n =>
    obtain ⟨⟨r, got, err⟩, hread, rfl⟩ := map_eq_some_iff.mp hstep
    obtain ⟨-, hover, hloaded, hidle⟩ := h.read hlz4 hwf hcareful hread
    refine ⟨hover, fun hok => ?_⟩
    dsimp only at hok
    rw [h.reads.same] at hok
    by_cases hgo : 0 < n ∧ t.reader.pos < layout.length
    · rw [if_pos hgo] at hok
      exact hloaded hgo (isSome_eq_false_iff.mp hok |> isNone_iff_eq_none.mp)
    · rw [if_neg hgo] at hok
      exact hidle hgo ▸ h.sound hok
  | seek offset whence =>
    cases hstep
    obtain ⟨pos, hseek⟩ := t.reader.seek_eq offset whence
    rw [hseek]
    exact ⟨⟨h.reads.same, h.reads.buffer⟩, h.sound⟩

/-- **Careful calls return genuine bytes only.** -/
theorem careful_calls_genuine (checksum : Bytes → UInt32) (hlz4 : lz4.InPlace) {written : Bytes}
    {encodedSize : UInt64} {layout : ObjectLayout}
    (hopen : readObjectLayout lz4 written encodedSize.toNat = .ok layout) {file pooled : Bytes}
    (hpooled : pooled.length = layout.chunkSize) {cs : List Call}
    (hcareful : Along (Tracked.step lz4 checksum file) Tracked.Careful
      ⟨newObjectReaderFromLayout layout pooled, false⟩ cs) :
    Along (Tracked.step lz4 checksum file) (Tracked.Genuine lz4 checksum file)
      ⟨newObjectReaderFromLayout layout pooled, false⟩ cs := by
  obtain ⟨hwf, -⟩ := readObjectLayout_wellFormed hopen
  refine along_of_invariant (I := Tracked.Inv lz4 checksum file layout)
    (fun _ _ _ h hok hstep => h.step hlz4 hwf hok hstep) ?_ ⟨⟨rfl, hpooled⟩, fun _ => nofun⟩
    hcareful
  intro t c h hok
  cases c with
  | read n =>
    intro r got err hread
    rw [h.reads.same]
    exact (h.read hlz4 hwf hok hread).1
  | seek offset whence => trivial

/-- Two bytes from the middle of a small object. -/
theorem careful_calls_genuine_smallFile :
    Along (Tracked.step storingLZ4 (fun _ => 0) smallFile)
      (Tracked.Genuine storingLZ4 (fun _ => 0) smallFile)
      ⟨newObjectReaderFromLayout smallLayout (List.replicate objectChunkSize 0), false⟩
      [.seek 1 0, .read 2] :=
  careful_calls_genuine (fun _ => 0) storingLZ4_inPlace smallFile_opened List.length_replicate
    ⟨trivial, fun _ ht => Option.some.inj ht ▸ ⟨nofun, fun _ _ => trivial⟩⟩

def zeros : Bytes := List.replicate objectChunkSize 0

/-- A checksum that looks at the first byte. -/
def firstByte (data : Bytes) : UInt32 := (data.headD 0).toUInt32

/-- The layout of an object of `objectChunkSize + 1` zeros, stored raw. -/
def zerosLayout : ObjectLayout where
  chunks := [⟨codecRaw, 76, objectChunkSize, objectChunkSize, 0⟩,
    ⟨codecRaw, 76 + objectChunkSize, 1, 1, 0⟩]
  length := objectChunkSize + 1
  chunkSize := objectChunkSize

/-- The header and the table of its file. -/
def zerosTable : Bytes := putHeader (objectChunkSize + 1) 2 ++ zerosLayout.chunks.flatMap putEntry

/-- Its file with another last byte. -/
def damaged : Bytes := List.replicate (76 + objectChunkSize) 0 ++ [1]

theorem zerosTable_opened :
    readObjectLayout storingLZ4 zerosTable (65613 : UInt64).toNat = .ok zerosLayout := by
  decide +kernel

theorem damaged_first : (damaged.drop 76).take objectChunkSize = zeros := by
  rw [damaged, List.drop_append_of_le_length (by simp), List.drop_replicate,
    Nat.add_sub_cancel_left, List.take_left' (by simp)]
  rfl

/-- Reading one byte. -/
theorem Reader.step_read_one (hpos : r.pos < r.layout.length) {r' : Reader}
    {failed : Option String} (hfetch : r.fetch lz4 checksum file = (r', failed))
    (hroom : failed = none → r'.pos % r'.layout.chunkSize < r'.data.length) :
    r.step lz4 checksum file (.read 1) =
      some (if failed = none then { r' with pos := r'.pos + 1 } else r') := by
  rw [Reader.step, Reader.call, Reader.read, if_neg (not_le.mpr hpos),
    Reader.readLoop_succ ⟨Nat.one_pos, hpos⟩, hfetch]
  cases failed with
  | some e => rfl
  | none =>
    have hinside := hroom rfl
    have hcopied := r'.length_copied 1
    have hone : (r'.copied 1).length = 1 := by omega
    dsimp only
    rw [hone, Reader.readLoop_done (by simp), Reader.advance, hone]
    rfl

/-- Moving to a position of the object. -/
theorem Reader.step_seek {offset : Int64} {p : Nat} (hoffset : offset.toInt = p)
    (hp : p ≤ r.layout.length) :
    r.step lz4 checksum file (.seek offset 0) = some { r with pos := p } := by
  rw [Reader.step, Reader.call, Reader.seek, if_pos rfl, Reader.moveTo, hoffset,
    if_neg (by omega)]
  rfl

/-- A reader that takes the first chunk as loaded. -/
def zerosReader (pos : Nat) (buffer : Bytes) (size : Nat) : Reader :=
  ⟨zerosLayout, pos, some 0, buffer, size⟩

/-- The first chunk loads, and the second is read into the buffer and fails. -/
theorem damaged_fetch :
    (newObjectReaderFromLayout zerosLayout zeros).fetch storingLZ4 firstByte damaged =
        (zerosReader 0 zeros objectChunkSize, none) ∧
      (zerosReader objectChunkSize zeros objectChunkSize).fetch storingLZ4 firstByte damaged =
        (zerosReader objectChunkSize (1 :: zeros.drop 1) 1,
          some "cache chunk checksum mismatch") := by
  have hlength : zeros.length = objectChunkSize := List.length_replicate
  constructor
  · have hzero : (newObjectReaderFromLayout zerosLayout zeros).pos /
        (newObjectReaderFromLayout zerosLayout zeros).layout.chunkSize = 0 := Nat.zero_div _
    have hfull : zeros.take objectChunkSize = zeros := List.take_of_length_le (le_of_eq hlength)
    have hrest : zeros.drop objectChunkSize = [] := List.drop_of_length_le (le_of_eq hlength)
    have hsum : (firstByte zeros).toNat = 0 := by decide +kernel
    rw [Reader.fetch, hzero, if_pos nofun]
    simp [Reader.load, newObjectReaderFromLayout, zerosLayout, damaged_first, hlength,
      hrest, Reader.verify, Reader.data, hfull, hsum, zerosReader]
  · have hone : (zerosReader objectChunkSize zeros objectChunkSize).pos /
        (zerosReader objectChunkSize zeros objectChunkSize).layout.chunkSize = 1 := by decide
    have hsecond : (damaged.drop (76 + objectChunkSize)).take 1 = [1] := by
      rw [damaged, List.drop_left' (by simp)]
      rfl
    have hsum : (firstByte [1]).toNat = 1 := by decide
    rw [Reader.fetch, hone, if_pos (by simp [zerosReader])]
    simp [Reader.load, zerosReader, zerosLayout, hsecond, Reader.verify, Reader.data, hsum]

/-- The reader over the damaged file after it read a byte of the first chunk,
failed to load the second and moved back to `p`. -/
theorem damaged_run {offset : Int64} {p : Nat} (hoffset : offset.toInt = p)
    (hp : p ≤ objectChunkSize) :
    run (Reader.step storingLZ4 firstByte damaged) (newObjectReaderFromLayout zerosLayout zeros)
        [.read 1, .seek 65536 0, .read 1, .seek offset 0] =
      some (zerosReader p (1 :: zeros.drop 1) 1) := by
  have hroom : 0 % objectChunkSize < (zerosReader 0 zeros objectChunkSize).data.length := by
    rw [zerosReader, Reader.data, zeros, List.length_take, List.length_replicate]
    decide
  refine run_cons_some.mpr ⟨zerosReader 1 zeros objectChunkSize,
    Reader.step_read_one (Nat.succ_pos _) damaged_fetch.1 fun _ => hroom, ?_⟩
  refine run_cons_some.mpr ⟨zerosReader objectChunkSize zeros objectChunkSize,
    Reader.step_seek (by decide) (Nat.le_succ _), ?_⟩
  refine run_cons_some.mpr ⟨zerosReader objectChunkSize (1 :: zeros.drop 1) 1,
    Reader.step_read_one (Nat.lt_succ_self _) damaged_fetch.2 nofun, ?_⟩
  exact run_cons_some.mpr ⟨_, Reader.step_seek hoffset (Nat.le_succ_of_le hp), rfl⟩

/-- A read in the first chunk then never comes back. -/
theorem damaged_read_hangs :
    readObjectLayout storingLZ4 zerosTable (65613 : UInt64).toNat = .ok zerosLayout ∧
      ∃ r, run (Reader.step storingLZ4 firstByte damaged)
          (newObjectReaderFromLayout zerosLayout zeros)
          [.read 1, .seek 65536 0, .read 1, .seek 1 0] = some r ∧
        ∀ fuel, r.readLoop storingLZ4 firstByte damaged fuel 1 = none := by
  refine ⟨zerosTable_opened, _, damaged_run (p := 1) (by decide) (by decide), ?_⟩
  exact Reader.readLoop_short (by decide)

/-- A read at the start of the object then returns the byte that failed the
checksum. -/
theorem damaged_read_wrong :
    readObjectLayout storingLZ4 zerosTable (65613 : UInt64).toNat = .ok zerosLayout ∧
      ∃ r, run (Reader.step storingLZ4 firstByte damaged)
          (newObjectReaderFromLayout zerosLayout zeros)
          [.read 1, .seek 65536 0, .read 1, .seek 0 0] = some r ∧ r.pos = 0 ∧
        (r.read storingLZ4 firstByte damaged 1).map (·.2) = some ([1], none) ∧
        ¬ zerosLayout.Genuine storingLZ4 firstByte damaged 0 1 := by
  refine ⟨zerosTable_opened, _, damaged_run (p := 0) (by decide) (by decide), rfl, ?_, ?_⟩
  · decide +kernel
  · rintro ⟨data, ⟨chunk, hchunk, -, -, hdecoded⟩, hbyte⟩
    cases hchunk
    simp only [if_true, damaged_first] at hdecoded
    rw [hdecoded, Nat.zero_mod, zeros, List.getElem?_replicate_of_lt (by decide)] at hbyte
    cases hbyte

end ObjectFormat
