import GovetoEdge.BigEndian

/-!
# Cache object files: the chunked format

A cache object file is a 28-byte header, a table of 24-byte entries, one for
each chunk of at most 64 KiB, and the stored chunks one after another, each
raw or LZ4-compressed.

* `writeObjectReader` produces the file for a byte source of a declared
  length;
* `readObjectLayout` checks the header and the table of a file;
* `Reader.read`, `Reader.seek` and `Reader.load` are the object reader, which
  decodes one chunk at a time into a reused buffer.

LZ4 and the checksum are parameters.  Sizes and offsets are natural numbers,
cut to their width where the code converts them and where its 64-bit
arithmetic could wrap around.  Files are byte lists; failing disk operations
other than reads past the end are outside of the model.
-/

namespace ObjectFormat

open BigEndian

abbrev Bytes := List UInt8

/-- The first bytes of a file. -/
def objectMagic : Bytes := [71, 86, 67, 79, 66, 74, 48, 49]
def objectVersion : Nat := 1
/-- Bytes of a chunk before compression. -/
def objectChunkSize : Nat := 64 * 2 ^ 10
/-- Chunks of older files. -/
def legacyChunkSize : Nat := 256 * 2 ^ 10
def objectHeaderSize : Nat := 28
def objectEntrySize : Nat := 24
def codecRaw : UInt8 := 0
def codecLZ4 : UInt8 := 1

/-- The block functions of the LZ4 package.  `compressBlock` compresses into a
buffer of `compressBlockBound` bytes and gives the compressed bytes, none if
the block is incompressible; `uncompressBlock src dst` gives the buffer after
decoding into `dst` and the number of bytes decoded. -/
structure LZ4 where
  compressBlockBound : Nat → Nat
  compressBlock : Bytes → Except String Bytes
  uncompressBlock : Bytes → Bytes → Bytes × Except String Nat

/-- An entry of the table. -/
structure ObjectChunk where
  codec : UInt8
  offset : Nat
  stored : Nat
  raw : Nat
  crc : Nat
deriving DecidableEq, Repr

variable (lz4 : LZ4) (checksum : Bytes → UInt32)

/-- Codec and stored bytes of one chunk of an object of `logicalSize` bytes. -/
def encodeChunk (logicalSize : Nat) (raw : Bytes) : Except String (UInt8 × Bytes) :=
  if objectChunkSize < logicalSize then do
    let compressed ← lz4.compressBlock raw
    if 0 < compressed.length ∧ compressed.length * 8 ≤ raw.length * 7 then
      return (codecLZ4, compressed)
    else return (codecRaw, raw)
  else return (codecRaw, raw)

/-- The table entry of a chunk. -/
def chunkEntry (codec : UInt8) (offset : Nat) (stored raw : Bytes) : ObjectChunk :=
  { codec := codec, offset := offset, stored := stored.length, raw := raw.length
    crc := (checksum raw).toNat }

/-- The loop of `writeObjectReader` over `count` chunks: their table entries,
their stored bytes, and what is left of the source. -/
def writeChunks (logicalSize : Nat) :
    Nat → Nat → Nat → Bytes → Except String (List ObjectChunk × Bytes × Bytes)
  | 0, _, _, source => return ([], [], source)
  | count + 1, remaining, offset, source => do
    let rawSize := min remaining objectChunkSize
    let raw := source.take rawSize
    if raw.length < rawSize then
      throw (if raw = [] then "EOF" else "unexpected EOF")
    let (codec, stored) ← encodeChunk lz4 logicalSize raw
    let chunk := chunkEntry checksum codec offset stored raw
    let (chunks, data, rest) ← writeChunks logicalSize count (remaining - rawSize)
      (offset + stored.length) (source.drop rawSize)
    return (chunk :: chunks, stored ++ data, rest)

/-- One entry of the chunk table. -/
def putEntry (chunk : ObjectChunk) : Bytes :=
  [chunk.codec, 0, 0, 0] ++
    (put 8 chunk.offset ++ (put 4 chunk.stored ++ (put 4 chunk.raw ++ put 4 chunk.crc)))

/-- The fixed part of the header.  The chunk count is cut to 32 bits. -/
def putHeader (logicalSize count : Nat) : Bytes :=
  objectMagic ++
    (put 2 objectVersion ++
      ([0, 0] ++ (put 4 objectChunkSize ++ (put 8 logicalSize ++ put 4 count))))

/-- `writeObjectReader`: the contents of the file for `source`, announced to
hold `logicalSize` bytes. -/
def writeObjectReader (source : Bytes) (logicalSize : Nat) : Except String Bytes := do
  if 2 ^ 63 - 1 < logicalSize then
    throw "cache object is too large for this platform"
  let count := (logicalSize + objectChunkSize - 1) / objectChunkSize
  let offset := objectHeaderSize + count * objectEntrySize
  let (chunks, data, rest) ← writeChunks lz4 checksum logicalSize count logicalSize offset source
  if rest ≠ [] then
    throw "cache object source exceeds declared length"
  return putHeader logicalSize count ++ (chunks.flatMap putEntry ++ data)

/-- `uint64` addition and subtraction. -/
def add64 (a b : Nat) : Nat := (a + b) % 2 ^ 64
/-- Subtraction of 64-bit numbers. -/
def sub64 (a b : Nat) : Nat := (a + 2 ^ 64 - b) % 2 ^ 64

/-- The table of a file. -/
structure ObjectLayout where
  chunks : List ObjectChunk
  length : Nat
  chunkSize : Nat
deriving DecidableEq, Repr

/-- `ReadAt` of `n` bytes; short files give `io.EOF`. -/
def readAt (file : Bytes) (offset n : Nat) : Except String Bytes :=
  let got := (file.drop offset).take n
  if got.length < n then throw "EOF" else return got

/-- An entry is read. -/
def getEntry (entry : Bytes) : ObjectChunk :=
  { codec := entry.headD 0
    offset := get (slice entry 4 12)
    stored := get (slice entry 12 16)
    raw := get (slice entry 16 20)
    crc := get (slice entry 20 24) }

/-- The checks of one table entry. -/
def checkChunk (encodedSize length chunkSize expectedOffset rawTotal : Nat)
    (chunk : ObjectChunk) : Except String Unit :=
  let expectedRaw := min chunkSize (sub64 length rawTotal) % 2 ^ 32
  if (chunk.codec ≠ codecRaw ∧ chunk.codec ≠ codecLZ4) ∨ chunk.offset ≠ expectedOffset ∨
      chunk.raw ≠ expectedRaw ∨ sub64 encodedSize expectedOffset < chunk.stored then
    throw "invalid cache object chunk table"
  else if chunk.codec = codecRaw ∧ chunk.stored ≠ chunk.raw then
    throw "invalid raw cache chunk"
  else if chunk.codec = codecLZ4 ∧
      (chunk.stored = 0 ∨ lz4.compressBlockBound chunkSize < chunk.stored) then
    throw "invalid compressed cache chunk"
  else return ()

/-- The loop of `readObjectLayout` over the remaining entries.  The loop
variable is a `uint32`, and so is its product with the entry size. -/
def readChunks (table : Bytes) (encodedSize length chunkSize : Nat) :
    Nat → Nat → Nat → Nat → Except String (List ObjectChunk × Nat × Nat)
  | 0, _, expectedOffset, rawTotal => return ([], expectedOffset, rawTotal)
  | count + 1, index, expectedOffset, rawTotal => do
    let chunk := getEntry (table.drop (index * objectEntrySize % 2 ^ 32))
    checkChunk lz4 encodedSize length chunkSize expectedOffset rawTotal chunk
    let (chunks, offset, total) ← readChunks table encodedSize length chunkSize count
      (index + 1) (add64 expectedOffset chunk.stored) (add64 rawTotal chunk.raw)
    return (chunk :: chunks, offset, total)

/-- `readObjectLayout` of a file that is said to have `encodedSize` bytes. -/
def readObjectLayout (file : Bytes) (encodedSize : Nat) : Except String ObjectLayout := do
  let header ← readAt file 0 objectHeaderSize
  let chunkSize := get (slice header 12 16)
  if slice header 0 8 ≠ objectMagic ∨ get (slice header 8 10) ≠ objectVersion ∨
      (chunkSize ≠ objectChunkSize ∧ chunkSize ≠ legacyChunkSize) then
    throw "unsupported cache object format"
  let length := get (slice header 16 24)
  let count := get (slice header 24 28)
  let expectedCount := if 0 < length then (length - 1) / chunkSize + 1 else 0
  if 2 ^ 32 - 1 < expectedCount ∨ count ≠ expectedCount ∨ 2 ^ 63 - 1 < length then
    throw "invalid cache object chunk count"
  let tableBytes := count * objectEntrySize
  if encodedSize < tableBytes ∨ encodedSize < objectHeaderSize + tableBytes then
    throw "cache object table exceeds file"
  let table ← readAt file objectHeaderSize tableBytes
  let (chunks, offset, total) ← readChunks lz4 table encodedSize length chunkSize count 0
    (objectHeaderSize + tableBytes) 0
  if offset ≠ encodedSize ∨ total ≠ length then
    throw "cache object lengths do not match"
  return { chunks := chunks, length := length, chunkSize := chunkSize }

/-- An object reader.  `buffer` is the pooled buffer behind `data`, of which
the first `size` bytes are in use; `index` is the chunk they hold. -/
structure Reader where
  layout : ObjectLayout
  pos : Nat
  index : Option Nat
  buffer : Bytes
  size : Nat
deriving DecidableEq, Repr

/-- `newObjectReaderFromLayout`, with the buffer it will take from the pool. -/
def newObjectReaderFromLayout (layout : ObjectLayout) (pooled : Bytes) : Reader :=
  { layout := layout, pos := 0, index := none, buffer := pooled, size := 0 }

/-- The slice `r.data`. -/
def Reader.data (r : Reader) : Bytes := r.buffer.take r.size

/-- Compare the checksum of the buffer with the table. -/
def Reader.verify (r : Reader) (index : Nat) (chunk : ObjectChunk) : Reader × Option String :=
  if (checksum r.data).toNat ≠ chunk.crc then (r, some "cache chunk checksum mismatch")
  else ({ r with index := some index }, none)

/-- `load`: decode chunk `index` into the buffer.  After an error the buffer
has changed and `index` has not. -/
def Reader.load (file : Bytes) (r : Reader) (index : Nat) : Reader × Option String :=
  match r.layout.chunks[index]? with
  | none => (r, some "index out of range")
  | some chunk =>
    let got := (file.drop chunk.offset).take
      (if chunk.codec = codecRaw then chunk.raw else chunk.stored)
    if chunk.codec = codecRaw then
      let r := { r with buffer := got ++ r.buffer.drop got.length, size := chunk.raw }
      if got.length < chunk.raw then (r, some "EOF")
      else r.verify checksum index chunk
    else if got.length < chunk.stored then ({ r with size := chunk.raw }, some "EOF")
    else
      let (out, decoded) := lz4.uncompressBlock got (r.buffer.take chunk.raw)
      let r := { r with buffer := out ++ r.buffer.drop chunk.raw, size := chunk.raw }
      match decoded with
      | .ok n =>
        if n = chunk.raw then r.verify checksum index chunk
        else (r, some "corrupt compressed cache chunk")
      | .error _ => (r, some "corrupt compressed cache chunk")

/-- The loop of `Read` into a target of `n` bytes; `none` is running out of
fuel. -/
def Reader.readLoop (file : Bytes) : Nat → Reader → Nat → Option (Reader × Bytes × Option String)
  | 0, r, n => if 0 < n ∧ r.pos < r.layout.length then none else some (r, [], none)
  | fuel + 1, r, n =>
    if 0 < n ∧ r.pos < r.layout.length then
      let chunkIndex := r.pos / r.layout.chunkSize
      let (r, failed) :=
        if r.index ≠ some chunkIndex then r.load lz4 checksum file chunkIndex else (r, none)
      match failed with
      | some e => some (r, [], some e)
      | none => do
        let inside := r.pos % r.layout.chunkSize
        let copied := (r.data.drop inside).take n
        let (r, more, e) ← Reader.readLoop file fuel
          { r with pos := r.pos + copied.length } (n - copied.length)
        some (r, copied ++ more, e)
    else some (r, [], none)

/-- `Read` into a target of `n` bytes: the bytes written and the error. -/
def Reader.read (file : Bytes) (r : Reader) (n : Nat) : Option (Reader × Bytes × Option String) :=
  if r.layout.length ≤ r.pos then some (r, [], some "EOF")
  else r.readLoop lz4 checksum file n n

/-- The end of `Seek`: move to `target` if it is in bounds. -/
def Reader.moveTo (r : Reader) (target : Int) : Reader × Except String Nat :=
  if target < 0 ∨ (r.layout.length : Int) < target then
    (r, .error "cache object seek out of bounds")
  else ({ r with pos := target.toNat }, .ok target.toNat)

/-- `Seek`, in `int64` arithmetic. -/
def Reader.seek (r : Reader) (offset : Int64) (whence : Int) : Reader × Except String Nat :=
  if whence = 0 then r.moveTo offset.toInt
  else if whence = 1 then r.moveTo ((r.pos + offset.toInt).bmod (2 ^ 64))
  else if whence = 2 then r.moveTo ((r.layout.length + offset.toInt).bmod (2 ^ 64))
  else (r, .error "invalid seek origin")

end ObjectFormat
