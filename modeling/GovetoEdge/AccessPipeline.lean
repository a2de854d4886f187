import GovetoEdge.LogRecords
import GovetoEdge.RingBuffers
import GovetoEdge.Runs

/-!
# The access log pipeline

Requests leave their log records in a ring buffer in memory; one goroutine takes
them from there in batches, applies the policy of the log and appends what is
left to the queue on disk.  It does not hold the lock of the buffer while it
does so: a batch is a slice of the buffer, and its slots are given back when the
batch is done.

A step of the model is what one of the parties does under the lock, or one step
of the goroutine outside of it.  The policy is what `Apply` makes of a payload,
and the code sets it once; here it may change at any time.  The queue on disk
takes a batch as a whole or not at all.  `accepted` and `policies` are there for
the statements: the records that were accepted, and the policies there were.

* `Inv` says where every accepted record is;
* `pipeline_exact`: accepted records are persisted in order and at most once, or
  were filtered, or are still in the buffer; the count of bytes is exact, and
  the slots of a batch are left alone.
-/

namespace AccessPipeline

open GoStrings LogRecords RingBuffers List Runs

/-- `queuedAccessRecord`. -/
structure Queued where
  record : LogRecord
  sanitized : Bool
deriving DecidableEq, Inhabited

/-- `LogPolicy.Apply`. -/
abbrev Policy := GoString → Option GoString

/-- `AccessLogConfig` after `normalizeAccessLogConfig`. -/
structure Config where
  bufferBytes : Nat
  bufferRecords : Nat
  batchBytes : Nat
  batchRecords : Nat
  bufferRecords_pos : 0 < bufferRecords
  batchRecords_pos : 0 < batchRecords

/-- Where the goroutine stands.  A batch is given by its number of records and
of bytes. -/
inductive Consumer
  | idle
  /-- the records of a batch pass the policy one by one -/
  | filtering (records bytes next : Nat) (processed : List LogRecord)
  | appending (records bytes : Nat) (processed : List LogRecord)
  /-- the batch is persisted and is to be given back -/
  | completing (records bytes : Nat)
  | stopped
deriving DecidableEq

/-- The pipeline; `policies`, `accepted` and `persisted` are its history. -/
structure State where
  ring : RingBuffer Queued
  bufferBytes : Nat
  accepting : Bool
  memoryDropped : Nat
  policy : Policy
  consumer : Consumer
  persisted : List LogRecord
  accepted : List Queued
  policies : List Policy

/-- `StartAccessPipeline`. -/
def init (config : Config) (policy : Policy) : State where
  ring := RingBuffer.empty config.bufferRecords config.bufferRecords_pos
  bufferBytes := 0
  accepting := true
  memoryDropped := 0
  policy := policy
  consumer := .idle
  persisted := []
  accepted := []
  policies := [policy]

/-- `len(record.Payload)`. -/
def Queued.size (q : Queued) : Nat := q.record.payload.length

/-- A record without a time gets that of its arrival. -/
def stamp (record : LogRecord) (now : Int) : LogRecord :=
  { record with createdAt := if record.createdAt = zeroTime then now else record.createdAt }

/-- `enqueueAccess`; a record without a payload is not looked at. -/
def enqueueAccess (config : Config) (s : State) (record : LogRecord) (sanitized : Bool)
    (now : Int) : State :=
  if record.payload = [] then s
  else
    let queued : Queued := ⟨stamp record now, sanitized⟩
    if h : s.accepting ∧ s.ring.count < s.ring.capacity ∧
        s.bufferBytes + queued.size ≤ config.bufferBytes then
      { s with
        ring := s.ring.push h.2.1 queued
        bufferBytes := s.bufferBytes + queued.size
        accepted := s.accepted ++ [queued] }
    else { s with memoryDropped := s.memoryDropped + 1 }

/-- The loop of `peekAccessBatch`: how many of the records are taken, and their
bytes. -/
def peekLoop (batchBytes : Nat) : List Nat → Nat → Nat → Nat × Nat
  | [], index, bytes => (index, bytes)
  | size :: sizes, index, bytes =>
    if 0 < index ∧ batchBytes < bytes + size then (index, bytes)
    else peekLoop batchBytes sizes (index + 1) (bytes + size)

/-- `peekAccessBatch`. -/
def peekAccessBatch (config : Config) (s : State) : Nat × Nat :=
  let limit := min (min s.ring.count config.batchRecords) (s.ring.capacity - s.ring.head)
  peekLoop config.batchBytes ((s.ring.window limit).map Queued.size) 0 0

/-- What the policy makes of a record. -/
def Queued.process (policy : Policy) (q : Queued) : Option LogRecord :=
  if q.sanitized then some q.record
  else (policy q.record.payload).map fun payload => { q.record with payload := payload }

/-- The goroutine looks for a batch. -/
def peek (config : Config) (s : State) : Option State :=
  match s.consumer with
  | .idle =>
    let (records, bytes) := peekAccessBatch config s
    if records = 0 then none
    else some { s with consumer := .filtering records bytes 0 [] }
  | _ => none

/-- The next record of the batch, or the end of the loop of `persistAccessBatch`. -/
def filter (s : State) : Option State :=
  match s.consumer with
  | .filtering records bytes next processed =>
    if next < records then
      let result := (s.ring.slots (s.ring.head + next)).process s.policy
      some { s with consumer := .filtering records bytes (next + 1) (processed ++ result.toList) }
    else if processed = [] then some { s with consumer := .completing records bytes }
    else some { s with consumer := .appending records bytes processed }
  | _ => none

/-- `AppendBatch`; when it fails the goroutine tries again, or ends when it is
cancelled. -/
def append (s : State) (fails cancelled : Bool) : Option State :=
  match s.consumer with
  | .appending records bytes processed =>
    if !fails then
      some { s with
        persisted := s.persisted ++ processed, consumer := .completing records bytes }
    else if cancelled then some { s with consumer := .stopped }
    else some s
  | _ => none

/-- `completeAccessBatch`. -/
def complete (s : State) : Option State :=
  match s.consumer with
  | .completing records bytes =>
    some { s with
      ring := s.ring.release records
      bufferBytes := s.bufferBytes - min bytes s.bufferBytes
      consumer := .idle }
  | _ => none

/-- The steps of producers and of the consumer. -/
inductive Action
  | enqueue (record : LogRecord) (sanitized : Bool) (now : Int)
  | setPolicy (policy : Policy)
  | shutdown
  | peek
  | filter
  | append (fails cancelled : Bool)
  | complete
  /-- the goroutine is cancelled while it waits -/
  | cancel

/-- One step. -/
def step (config : Config) (s : State) : Action → Option State
  | .enqueue record sanitized now => some (enqueueAccess config s record sanitized now)
  | .setPolicy policy => some { s with policy := policy, policies := policy :: s.policies }
  | .shutdown => some { s with accepting := false }
  | .peek => AccessPipeline.peek config s
  | .filter => AccessPipeline.filter s
  | .append fails cancelled => AccessPipeline.append s fails cancelled
  | .complete => AccessPipeline.complete s
  | .cancel => if s.consumer = .idle then some { s with consumer := .stopped } else none

variable {config : Config} {s t : State} {a : Action} {ops : List Action}

/-- Every record of the one list is in the other, in the same order: as it is when
it was sanitized, and else with what one of the policies made of its payload,
unless one of them filtered it. -/
inductive Persists (policies : List Policy) : List Queued → List LogRecord → Prop
  | nil : Persists policies [] []
  | sanitized {queued records} (h : Persists policies queued records) (record : LogRecord) :
      Persists policies (queued ++ [⟨record, true⟩]) (records ++ [record])
  | kept {queued records} (h : Persists policies queued records) (record : LogRecord)
      (policy : Policy) (hpolicy : policy ∈ policies) (payload : GoString)
      (hkept : policy record.payload = some payload) :
      Persists policies (queued ++ [⟨record, false⟩]) (records ++ [{ record with payload }])
  | filtered {queued records} (h : Persists policies queued records) (record : LogRecord)
      (policy : Policy) (hpolicy : policy ∈ policies) (hfiltered : policy record.payload = none) :
      Persists policies (queued ++ [⟨record, false⟩]) records

variable {policies : List Policy} {queued : List Queued} {records : List LogRecord}
  {ring : RingBuffer Queued} {consumer : Consumer}

/-- More policies allow more. -/
theorem Persists.mono {policies' : List Policy} (h : ∀ p ∈ policies, p ∈ policies')
    (hp : Persists policies queued records) : Persists policies' queued records := by
  induction hp with
  | nil => exact .nil
  | sanitized _ record ih => exact .sanitized ih record
  | kept _ record policy hpolicy payload hkept ih =>
    exact .kept ih record policy (h policy hpolicy) payload hkept
  | filtered _ record policy hpolicy hfiltered ih =>
    exact .filtered ih record policy (h policy hpolicy) hfiltered

/-- Batches are persisted one after the other. -/
theorem Persists.append {queued' : List Queued} {records' : List LogRecord}
    (h : Persists policies queued records) (h' : Persists policies queued' records') :
    Persists policies (queued ++ queued') (records ++ records') := by
  induction h' with
  | nil => simpa using h
  | sanitized _ record ih =>
    rw [← append_assoc, ← append_assoc]
    exact .sanitized ih record
  | kept _ record policy hpolicy payload hkept ih =>
    rw [← append_assoc, ← append_assoc]
    exact .kept ih record policy hpolicy payload hkept
  | filtered _ record policy hpolicy hfiltered ih =>
    rw [← append_assoc]
    exact .filtered ih record policy hpolicy hfiltered

/-- One record more, as the loop of `persistAccessBatch` treats it. -/
theorem Persists.snoc (h : Persists policies queued records) (q : Queued) {policy : Policy}
    (hpolicy : policy ∈ policies) :
    Persists policies (queued ++ [q]) (records ++ (q.process policy).toList) := by
  obtain ⟨record, sanitized⟩ := q
  cases sanitized with
  | true => exact .sanitized h record
  | false =>
    cases hpayload : policy record.payload with
    | none =>
      simp only [Queued.process, hpayload, Bool.false_eq_true, if_false, Option.map_none,
        Option.toList_none, append_nil]
      exact .filtered h record policy hpolicy hpayload
    | some payload =>
      simp only [Queued.process, hpayload, Bool.false_eq_true, if_false, Option.map_some,
        Option.toList_some]
      exact .kept h record policy hpolicy payload hpayload

/-- The bytes of some slots. -/
def totalSize (queued : List Queued) : Nat := (queued.map Queued.size).sum

@[simp] theorem totalSize_append (x y : List Queued) :
    totalSize (x ++ y) = totalSize x + totalSize y := by
  simp [totalSize]

@[simp] theorem totalSize_singleton (q : Queued) : totalSize [q] = q.size := by
  simp [totalSize]

/-- A batch: the first records of the buffer, in slots that do not wrap around. -/
structure Batch (ring : RingBuffer Queued) (records bytes : Nat) : Prop where
  le_count : records ≤ ring.count
  noWrap : ring.head + records ≤ ring.capacity
  size : bytes = totalSize (ring.contents.take records)

/-- What the goroutine has, of the records in the buffer. -/
def Consumer.Sound (ring : RingBuffer Queued) (policies : List Policy) : Consumer → Prop
  | .idle => True
  | .filtering records bytes next processed =>
    Batch ring records bytes ∧ next ≤ records ∧
      Persists policies (ring.contents.take next) processed
  | .appending records bytes processed =>
    Batch ring records bytes ∧ Persists policies (ring.contents.take records) processed
  | .completing records bytes => Batch ring records bytes
  | .stopped => True

/-- The records of the buffer that are persisted already. -/
@[simp] def Consumer.done : Consumer → Nat
  | .idle => 0
  | .filtering _ _ _ _ => 0
  | .appending _ _ _ => 0
  | .completing records _ => records
  | .stopped => 0

/-- Where every accepted record is. -/
structure Inv (s : State) : Prop where
  bytes : s.bufferBytes = totalSize s.ring.contents
  policy : s.policy ∈ s.policies
  consumer : s.consumer.Sound s.ring s.policies
  records : ∃ handled, s.accepted = handled ++ s.ring.contents ∧
    Persists s.policies (handled ++ s.ring.contents.take s.consumer.done) s.persisted

/-- The invariant of an empty pipeline. -/
theorem inv_init (policy : Policy) : Inv (init config policy) where
  bytes := rfl
  policy := mem_singleton_self policy
  consumer := trivial
  records := ⟨[], rfl, .nil⟩

/-- A record that is pushed changes nothing about a batch. -/
theorem Batch.push {records bytes : Nat} (h : Batch ring records bytes)
    (hroom : ring.count < ring.capacity) (q : Queued) :
    Batch (ring.push hroom q) records bytes where
  le_count := Nat.le_succ_of_le h.le_count
  noWrap := h.noWrap
  size := by
    rw [RingBuffer.contents_push, take_append_of_le_length (by simpa using h.le_count)]
    exact h.size

/-- A batch is not touched by a new record. -/
theorem Consumer.Sound.push (h : consumer.Sound ring policies) (hroom : ring.count < ring.capacity)
    (q : Queued) : consumer.Sound (ring.push hroom q) policies := by
  have htake : ∀ k ≤ ring.count, (ring.push hroom q).contents.take k = ring.contents.take k := by
    intro k hk
    rw [RingBuffer.contents_push, take_append_of_le_length (by simpa using hk)]
  cases consumer with
  | idle | stopped => trivial
  | filtering records bytes next processed =>
    obtain ⟨hbatch, hnext, hprocessed⟩ := h
    refine ⟨hbatch.push hroom q, hnext, ?_⟩
    rw [htake next (le_trans hnext hbatch.le_count)]
    exact hprocessed
  | appending records bytes processed =>
    obtain ⟨hbatch, hprocessed⟩ := h
    refine ⟨hbatch.push hroom q, ?_⟩
    rw [htake records hbatch.le_count]
    exact hprocessed
  | completing records bytes => exact Batch.push h hroom q

/-- The consumer is done with records it holds. -/
theorem Consumer.Sound.done_le (h : consumer.Sound ring policies) : consumer.done ≤ ring.count := by
  cases consumer with
  | completing records bytes => exact Batch.le_count h
  | _ => exact Nat.zero_le _

/-- A change of the policy leaves it sound. -/
theorem Consumer.Sound.mono {policies' : List Policy} (h : consumer.Sound ring policies)
    (hp : ∀ p ∈ policies, p ∈ policies') : consumer.Sound ring policies' := by
  cases consumer with
  | idle | stopped => trivial
  | filtering records bytes next processed => exact ⟨h.1, h.2.1, h.2.2.mono hp⟩
  | appending records bytes processed => exact ⟨h.1, h.2.mono hp⟩
  | completing records bytes => exact h

/-- A record that is accepted, or nothing but the count of the others. -/
theorem enqueueAccess_cases (config : Config) (s : State) (record : LogRecord) (sanitized : Bool)
    (now : Int) :
    (∃ dropped, enqueueAccess config s record sanitized now = { s with memoryDropped := dropped }) ∨
      ∃ (q : Queued) (hroom : s.ring.count < s.ring.capacity),
        enqueueAccess config s record sanitized now = { s with
          ring := s.ring.push hroom q
          bufferBytes := s.bufferBytes + q.size
          accepted := s.accepted ++ [q] } := by
  unfold enqueueAccess
  split
  · exact .inl ⟨s.memoryDropped, rfl⟩
  · dsimp only
    split
    · next h => exact .inr ⟨_, h.2.1, rfl⟩
    · exact .inl ⟨_, rfl⟩

/-- A record comes in, or is dropped. -/
theorem inv_enqueue (hinv : Inv s) (record : LogRecord) (sanitized : Bool) (now : Int) :
    Inv (enqueueAccess config s record sanitized now) := by
  rcases enqueueAccess_cases config s record sanitized now with ⟨_, heq⟩ | ⟨q, hroom, heq⟩
  · rw [heq]
    exact ⟨hinv.bytes, hinv.policy, hinv.consumer, hinv.records⟩
  · rw [heq]
    refine ⟨?_, hinv.policy, hinv.consumer.push hroom q, ?_⟩
    · rw [RingBuffer.contents_push, totalSize_append, totalSize_singleton, hinv.bytes]
    · obtain ⟨handled, haccepted, hpersists⟩ := hinv.records
      refine ⟨handled, ?_, ?_⟩
      · rw [RingBuffer.contents_push, haccepted, append_assoc]
      · rw [RingBuffer.contents_push,
          take_append_of_le_length (by simpa using hinv.consumer.done_le)]
        exact hpersists

/-- The policy changes. -/
theorem inv_setPolicy (hinv : Inv s) (policy : Policy) :
    Inv { s with policy := policy, policies := policy :: s.policies } := by
  have hmem : ∀ p ∈ s.policies, p ∈ policy :: s.policies := fun p hp => mem_cons_of_mem _ hp
  refine ⟨hinv.bytes, mem_cons_self, hinv.consumer.mono hmem, ?_⟩
  obtain ⟨handled, haccepted, hpersists⟩ := hinv.records
  exact ⟨handled, haccepted, hpersists.mono hmem⟩

/-- The loop takes some of the records, at least one if there is one, and counts
their bytes. -/
theorem peekLoop_spec (batchBytes : Nat) (sizes : List Nat) (index bytes : Nat) :
    ∃ k ≤ sizes.length, peekLoop batchBytes sizes index bytes =
      (index + k, bytes + (sizes.take k).sum) := by
  induction sizes generalizing index bytes with
  | nil => exact ⟨0, le_refl _, rfl⟩
  | cons size sizes ih =>
    unfold peekLoop
    split
    · exact ⟨0, Nat.zero_le _, rfl⟩
    · obtain ⟨k, hk, heq⟩ := ih (index + 1) (bytes + size)
      refine ⟨k + 1, Nat.succ_le_succ hk, ?_⟩
      rw [heq, take_succ_cons, sum_cons]
      congr 1 <;> omega

/-- A batch is a front of the ring. -/
theorem batch_peek (config : Config) (s : State) :
    Batch s.ring (peekAccessBatch config s).1 (peekAccessBatch config s).2 := by
  unfold peekAccessBatch
  dsimp only
  generalize hlimit : min (min s.ring.count config.batchRecords)
    (s.ring.capacity - s.ring.head) = limit
  obtain ⟨k, hk, heq⟩ := peekLoop_spec config.batchBytes
    ((s.ring.window limit).map Queued.size) 0 0
  rw [heq]
  have hhead := s.ring.head_lt
  have hk : k ≤ limit := by simpa [RingBuffer.window] using hk
  have hcount : limit ≤ s.ring.count := by omega
  have hend : s.ring.head + limit ≤ s.ring.capacity := by omega
  refine ⟨by simpa using le_trans hk hcount, by omega, ?_⟩
  rw [RingBuffer.window_eq_take s.ring hcount hend, ← map_take, take_take, Nat.min_eq_left hk]
  simp [totalSize]

/-- The consumer takes a batch. -/
theorem inv_peek (hinv : Inv s) (h : peek config s = some t) : Inv t := by
  unfold peek at h
  split at h
  · next hidle =>
    dsimp only at h
    split at h
    · cases h
    · cases h
      refine ⟨hinv.bytes, hinv.policy, ⟨batch_peek config s, Nat.zero_le _, .nil⟩, ?_⟩
      obtain ⟨handled, haccepted, hpersists⟩ := hinv.records
      rw [hidle] at hpersists
      exact ⟨handled, haccepted, hpersists⟩
  · cases h

/-- The record in a slot of a batch. -/
theorem Batch.take_succ {records bytes next : Nat} (h : Batch ring records bytes)
    (hnext : next < records) :
    ring.contents.take (next + 1) =
      ring.contents.take next ++ [ring.slots (ring.head + next)] := by
  have hwindow : ∀ k ≤ records, ring.contents.take k = ring.window k := fun k hk =>
    (RingBuffer.window_eq_take ring (le_trans hk h.le_count)
      (le_trans (Nat.add_le_add_left hk _) h.noWrap)).symm
  rw [hwindow _ hnext, hwindow _ (le_of_lt hnext)]
  unfold RingBuffer.window
  rw [range_succ, map_append, map_singleton]

/-- It looks at one record of the batch. -/
theorem inv_filter (hinv : Inv s) (h : filter s = some t) : Inv t := by
  unfold filter at h
  split at h
  · next records bytes next processed hconsumer =>
    have hsound := hinv.consumer
    rw [hconsumer] at hsound
    obtain ⟨hbatch, hnext, hprocessed⟩ := hsound
    obtain ⟨handled, haccepted, hpersists⟩ := hinv.records
    rw [hconsumer, Consumer.done, take_zero, append_nil] at hpersists
    split at h
    · next hlt =>
      cases h
      refine ⟨hinv.bytes, hinv.policy, ⟨hbatch, hlt, ?_⟩, handled, haccepted, ?_⟩
      · rw [hbatch.take_succ hlt]
        exact hprocessed.snoc _ hinv.policy
      · simpa using hpersists
    · next hge =>
      obtain rfl : next = records := le_antisymm hnext (not_lt.mp hge)
      split at h
      · next hempty =>
        cases h
        refine ⟨hinv.bytes, hinv.policy, hbatch, handled, haccepted, ?_⟩
        rw [hempty] at hprocessed
        simpa using hpersists.append hprocessed
      · cases h
        exact ⟨hinv.bytes, hinv.policy, ⟨hbatch, hprocessed⟩, handled, haccepted,
          by simpa using hpersists⟩
  · cases h

/-- It persists what is left, or fails. -/
theorem inv_append (hinv : Inv s) {fails cancelled : Bool}
    (h : append s fails cancelled = some t) : Inv t := by
  unfold append at h
  split at h
  · next records bytes processed hconsumer =>
    have hsound := hinv.consumer
    rw [hconsumer] at hsound
    obtain ⟨hbatch, hprocessed⟩ := hsound
    obtain ⟨handled, haccepted, hpersists⟩ := hinv.records
    rw [hconsumer, Consumer.done, take_zero, append_nil] at hpersists
    split at h
    · cases h
      exact ⟨hinv.bytes, hinv.policy, hbatch, handled, haccepted, hpersists.append hprocessed⟩
    · split at h
      · cases h
        exact ⟨hinv.bytes, hinv.policy, trivial, handled, haccepted, by simpa using hpersists⟩
      · cases h
        exact hinv
  · cases h

/-- It gives the slots back. -/
theorem inv_complete (hinv : Inv s) (h : complete s = some t) : Inv t := by
  unfold complete at h
  split at h
  · next records bytes hconsumer =>
    have hbatch := hinv.consumer
    rw [hconsumer] at hbatch
    obtain ⟨hcount, _, hsize⟩ := hbatch
    obtain ⟨handled, haccepted, hpersists⟩ := hinv.records
    rw [hconsumer] at hpersists
    cases h
    have hsplit := take_append_drop records s.ring.contents
    refine ⟨?_, hinv.policy, trivial, handled ++ s.ring.contents.take records, ?_, ?_⟩
    · have htotal := hinv.bytes
      rw [← hsplit, totalSize_append] at htotal
      rw [RingBuffer.contents_release s.ring hcount]
      show s.bufferBytes - min bytes s.bufferBytes = _
      omega
    · rw [RingBuffer.contents_release s.ring hcount, append_assoc, hsplit]
      exact haccepted
    · rw [Consumer.done, take_zero, append_nil]
      exact hpersists
  · cases h

/-- Every step keeps the invariant. -/
theorem inv_step (hinv : Inv s) (h : step config s a = some t) : Inv t := by
  cases a with
  | enqueue record sanitized now =>
    cases h
    exact inv_enqueue hinv record sanitized now
  | setPolicy policy =>
    cases h
    exact inv_setPolicy hinv policy
  | shutdown =>
    cases h
    exact ⟨hinv.bytes, hinv.policy, hinv.consumer, hinv.records⟩
  | peek => exact inv_peek hinv h
  | filter => exact inv_filter hinv h
  | append fails cancelled => exact inv_append hinv h
  | complete => exact inv_complete hinv h
  | cancel =>
    simp only [step] at h
    split at h
    · next hidle =>
      cases h
      obtain ⟨handled, haccepted, hpersists⟩ := hinv.records
      rw [hidle] at hpersists
      exact ⟨hinv.bytes, hinv.policy, trivial, handled, haccepted, hpersists⟩
    · cases h

/-- And so does every run. -/
theorem inv_run {policy : Policy} (hrun : run (step config) (init config policy) ops = some s) :
    Inv s :=
  run_invariant (fun _ _ _ hinv h => inv_step hinv h) (inv_init policy) hrun

/-- The number of slots the goroutine holds. -/
def Consumer.holds : Consumer → Nat
  | .filtering records _ _ _ => records
  | .appending records _ _ => records
  | .completing records _ => records
  | _ => 0

/-- The batch lies in one piece of the ring. -/
theorem Inv.holds (hinv : Inv s) : s.consumer.holds ≤ s.ring.count ∧
    s.ring.head + s.consumer.holds ≤ s.ring.capacity := by
  have hsound := hinv.consumer
  have hhead := s.ring.head_lt
  cases hconsumer : s.consumer with
  | idle | stopped => exact ⟨Nat.zero_le _, le_of_lt hhead⟩
  | filtering | appending =>
    rw [hconsumer] at hsound
    exact ⟨hsound.1.le_count, hsound.1.noWrap⟩
  | completing records bytes =>
    rw [hconsumer] at hsound
    exact ⟨Batch.le_count hsound, Batch.noWrap hsound⟩

/-- Only `complete` changes the slots of the batch. -/
theorem window_step (hinv : Inv s) (ha : a ≠ .complete) (h : step config s a = some t) :
    t.ring.head = s.ring.head ∧
      t.ring.window s.consumer.holds = s.ring.window s.consumer.holds := by
  cases a with
  | enqueue record sanitized now =>
    cases h
    rcases enqueueAccess_cases config s record sanitized now with ⟨_, heq⟩ | ⟨q, hroom, heq⟩
    · rw [heq]
      exact ⟨rfl, rfl⟩
    · rw [heq]
      exact ⟨rfl, RingBuffer.window_push s.ring hroom q hinv.holds.1 hinv.holds.2⟩
  | setPolicy | shutdown =>
    cases h
    exact ⟨rfl, rfl⟩
  | peek =>
    simp only [step, peek] at h
    split at h
    · split at h
      · cases h
      · cases h
        exact ⟨rfl, rfl⟩
    · cases h
  | filter =>
    simp only [step, filter] at h
    split at h
    · split at h
      · cases h
        exact ⟨rfl, rfl⟩
      · split at h
        · cases h
          exact ⟨rfl, rfl⟩
        · cases h
          exact ⟨rfl, rfl⟩
    · cases h
  | append fails cancelled =>
    simp only [step, append] at h
    split at h
    · split at h
      · cases h
        exact ⟨rfl, rfl⟩
      · split at h
        · cases h
          exact ⟨rfl, rfl⟩
        · cases h
          exact ⟨rfl, rfl⟩
    · cases h
  | complete => exact absurd rfl ha
  | cancel =>
    simp only [step] at h
    split at h
    · cases h
      exact ⟨rfl, rfl⟩
    · cases h

/-- **The pipeline.**  In every run the accepted records are, in the order in
which they were accepted, those that were handled and those that wait in the
buffer; what is persisted is, of the handled ones and in their order, each
sanitized record and each other one that the policy did not filter, once.  The count
of bytes is the size of what is in the buffer.  No step but the completion of a batch
changes the slots of the batch that is being persisted. -/
theorem pipeline_exact {policy : Policy}
    (hrun : run (step config) (init config policy) ops = some s) :
    (∃ handled, s.accepted = handled ++ s.ring.contents.drop s.consumer.done ∧
      Persists s.policies handled s.persisted) ∧
    s.bufferBytes = (s.ring.contents.map fun q => q.record.payload.length).sum ∧
    ∀ a t, step config s a = some t → a ≠ .complete →
      t.ring.head = s.ring.head ∧
        t.ring.window s.consumer.holds = s.ring.window s.consumer.holds := by
  have hinv := inv_run hrun
  refine ⟨?_, hinv.bytes, fun a t h ha => window_step hinv ha h⟩
  obtain ⟨handled, haccepted, hpersists⟩ := hinv.records
  refine ⟨_, ?_, hpersists⟩
  rw [append_assoc, take_append_drop]
  exact haccepted

/-- A policy that filters the payload `22`, and blanks the others. -/
def blanking : Policy := fun payload => if payload = lit "22" then none else some (lit "0")

def accessRecord (text : String) : LogRecord := ⟨0, lit "access", [], 1, zeroTime, lit text⟩

/-- Records wrap around in a buffer of two while a batch is being persisted.  The
first passes the policy, which then filters the second, and the third was
sanitized before. -/
def wrappingRun : List Action :=
  [.enqueue (accessRecord "1") false 5, .peek, .filter, .enqueue (accessRecord "22") false 6,
    .filter, .append true false, .append false false, .complete,
    .enqueue (accessRecord "333") true 7, .peek, .filter, .filter, .complete, .peek, .filter,
    .filter, .append false false, .enqueue (accessRecord "4444") false 8]

/-- A ring of two slots. -/
def smallConfig : Config := ⟨100, 2, 100, 10, by decide, by decide⟩

theorem pipeline_exact_wrappingRun :
    ∃ s, run (step smallConfig) (init smallConfig blanking) wrappingRun = some s ∧
      s.persisted = [⟨0, lit "access", [], 1, 5, lit "0"⟩, ⟨0, lit "access", [], 1, 7, lit "333"⟩] ∧
      s.bufferBytes = 7 ∧
      s.bufferBytes = (s.ring.contents.map fun q => q.record.payload.length).sum ∧
      ∃ handled, s.accepted = handled ++ s.ring.contents.drop s.consumer.done ∧
        Persists s.policies handled s.persisted := by
  have hends : ∃ s, run (step smallConfig) (init smallConfig blanking) wrappingRun = some s ∧
      s.persisted = [⟨0, lit "access", [], 1, 5, lit "0"⟩, ⟨0, lit "access", [], 1, 7, lit "333"⟩] ∧
      s.bufferBytes = 7 := by
    apply ends_of_any
    decide +kernel
  obtain ⟨s, hs, hpersisted, hbytes⟩ := hends
  have hexact := pipeline_exact hs
  exact ⟨s, hs, hpersisted, hbytes, hexact.2.1, hexact.1⟩

end AccessPipeline
