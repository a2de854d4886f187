import GovetoEdge.LogChunks

/-!
# The queue of log records

The queue keeps chunks of records in a bucket of a file, under the id of their
first record, and the totals of what it holds next to it.  Records get their ids
from the sequence of the bucket.  When a chunk does not fit, the oldest chunks
are dropped; acknowledged records, and records that are too long for a batch,
are trimmed from the front.

Every operation is one transaction: it takes effect as a whole, or fails and
changes nothing.  `acknowledged` and `discarded` are there for the statements:
the ids of the records that were acknowledged and of those that were dropped, in
the order in which they left the queue.
-/

namespace LogQueue

open GoStrings LogRecords LogChunks

/-- A bucket: values by increasing keys. -/
abbrev Bucket := List (Nat × GoString)

/-- `bucket.Put`. -/
def put (key : Nat) (value : GoString) : Bucket → Bucket
  | [] => [(key, value)]
  | entry :: bucket =>
    if key < entry.1 then (key, value) :: entry :: bucket
    else if key = entry.1 then (key, value) :: bucket
    else entry :: put key value bucket

/-- The totals that are stored, and what happened to the records that are gone. -/
structure Totals where
  bytes : Nat
  records : Nat
  dropped : Nat
  acknowledged : List Nat
  discarded : List Nat
deriving DecidableEq

/-- The store and its totals. -/
structure State where
  bucket : Bucket
  sequence : Nat
  totals : Totals
deriving DecidableEq

/-- `OpenLogQueue`, on a file without records. -/
def opened (sequence : Nat) : State := ⟨[], sequence, ⟨0, 0, 0, [], []⟩⟩

/-- The inner loop of `AppendBatch`: the oldest chunks are dropped until `size`
more bytes fit. -/
def evictLoop (maxBytes size : Nat) : Bucket → Totals → Except Fault (Bucket × Totals)
  | [], totals => .ok ([], totals)
  | (key, value) :: bucket, totals =>
    if totals.bytes + size > maxBytes then do
      let count ← logChunkCount value
      evictLoop maxBytes size bucket
        { totals with
          dropped := totals.dropped + count
          records := totals.records - min totals.records count
          bytes := if value.length ≤ totals.bytes then totals.bytes - value.length else 0
          discarded := totals.discarded ++ List.range' key count }
    else .ok ((key, value) :: bucket, totals)

/-- The loop of `AppendBatch` over the chunks. -/
def appendLoop (maxBytes firstID : Nat) :
    List EncodedLogChunk → Bucket → Totals → Except Fault (Bucket × Totals)
  | [], bucket, totals => .ok (bucket, totals)
  | chunk :: chunks, bucket, totals => do
    let (bucket, totals) ← evictLoop maxBytes chunk.data.length bucket totals
    appendLoop maxBytes firstID chunks (put (firstID + chunk.start) chunk.data bucket)
      { totals with
        bytes := totals.bytes + chunk.data.length
        records := totals.records + chunk.count }

/-- `AppendBatch`. -/
def appendBatch (maxBytes : Nat) (s : State) (records : List LogRecord) (now : Int) :
    Except Fault State :=
  if records = [] then .ok s
  else do
    let chunks ← buildLogChunks records now maxBytes
    let firstID := s.sequence + 1
    let (bucket, totals) ← appendLoop maxBytes firstID chunks s.bucket s.totals
    .ok ⟨bucket, firstID + records.length - 1, totals⟩

/-- The loop of `DropOversizedHead`.  Every turn makes the bucket shorter, so that
`fuel` need not exceed its bytes. -/
def dropLoop (maxBytes : Nat) : Nat → Bucket → Totals → Except Fault (Bucket × Totals)
  | _, [], totals => .ok ([], totals)
  | 0, _ :: _, _ => .error .diverged
  | fuel + 1, (key, value) :: bucket, totals => do
    let oversized ← oversizedLogChunkHead value maxBytes
    if oversized = 0 then .ok ((key, value) :: bucket, totals)
    else do
      let trimmed ← trimLogChunk value oversized
      let totals := { totals with
        bytes := totals.bytes - min totals.bytes value.length
        records := totals.records - min totals.records oversized
        dropped := totals.dropped + oversized
        discarded := totals.discarded ++ List.range' key oversized }
      if trimmed ≠ [] then
        dropLoop maxBytes fuel (put (key + oversized) trimmed bucket)
          { totals with bytes := totals.bytes + trimmed.length }
      else dropLoop maxBytes fuel bucket totals

/-- The bytes of the values of a bucket. -/
def size (bucket : Bucket) : Nat := (bucket.map fun entry => entry.2.length).sum

/-- `DropOversizedHead`. -/
def dropOversizedHead (s : State) (maxBytes : Nat) : Except Fault State :=
  if maxBytes = 0 then .ok s
  else do
    let (bucket, totals) ← dropLoop maxBytes (size s.bucket) s.bucket s.totals
    .ok { s with bucket := bucket, totals := totals }

/-- `int(n)` of a `uint64`. -/
def goInt (n : Nat) : Int := (n : Int).bmod (2 ^ 64)

/-- The loop of `Ack`. -/
def ackLoop (through : Nat) : Bucket → Totals → Except Fault (Bucket × Totals)
  | [], totals => .ok ([], totals)
  | (key, value) :: bucket, totals =>
    if key > through then .ok ((key, value) :: bucket, totals)
    else do
      let count ← logChunkCount value
      let remove := min (count : Int) (goInt (through - key + 1))
      let trimmed ← trimLogChunk value remove
      let totals := { totals with
        bytes := totals.bytes - min totals.bytes value.length
        records := totals.records - min totals.records remove.toNat
        acknowledged := totals.acknowledged ++ List.range' key remove.toNat }
      if trimmed ≠ [] then
        .ok (put (key + remove.toNat) trimmed bucket,
          { totals with bytes := totals.bytes + trimmed.length })
      else ackLoop through bucket totals

/-- `Ack`. -/
def ack (s : State) (through : Nat) : Except Fault State := do
  let (bucket, totals) ← ackLoop through s.bucket s.totals
  .ok { s with bucket := bucket, totals := totals }

/-- What `BatchSized` has collected; `stopped` by a limit. -/
structure Collected where
  records : List LogRecord
  size : Nat
  stopped : Bool

/-- The visitor of `BatchSized`. -/
def batchVisit (limit maxBytes firstID : Nat) (c : Collected) (index : Nat) (envelope : GoString) :
    Except Fault (Collected × Bool) :=
  let recordBytes := envelope.length + 4
  if limit ≤ c.records.length ∨ 0 < maxBytes ∧ c.size + recordBytes > maxBytes then
    .ok ({ c with stopped := true }, false)
  else do
    let record ← decodeLogEnvelope envelope (firstID + index)
    .ok ({ c with records := c.records ++ [record], size := c.size + recordBytes }, true)

/-- The loop of `BatchSized` over the bucket. -/
def batchLoop (limit maxBytes : Nat) :
    Bucket → List LogRecord → Nat → Except Fault (List LogRecord × Nat)
  | [], records, size => .ok (records, size)
  | (key, value) :: bucket, records, size =>
    if limit ≤ records.length then .ok (records, size)
    else do
      let c ← visitLogChunk (batchVisit limit maxBytes key) value ⟨records, size, false⟩
      if c.stopped ∨ limit ≤ c.records.length then .ok (c.records, c.size)
      else batchLoop limit maxBytes bucket c.records c.size

/-- `BatchSized`; a limit that is not positive stands for the default. -/
def batchSized (s : State) (limit : Int) (maxBytes : Nat) : Except Fault (List LogRecord × Nat) :=
  batchLoop (if limit ≤ 0 then 1000 else limit.toNat) maxBytes s.bucket [] 0

/-- What writers and the sender do. -/
inductive Action
  | append (records : List LogRecord) (now : Int)
  | ack (through : Nat)
  | dropOversizedHead (maxBytes : Nat)

/-- One operation. -/
def apply (maxBytes : Nat) (s : State) : Action → Except Fault State
  | .append records now => appendBatch maxBytes s records now
  | .ack through => LogQueue.ack s through
  | .dropOversizedHead limit => LogQueue.dropOversizedHead s limit

/-- A transaction that fails is rolled back. -/
def step (maxBytes : Nat) (s : State) (a : Action) : Option State :=
  match apply maxBytes s a with
  | .ok t => some t
  | .error _ => some s

end LogQueue
