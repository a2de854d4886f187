import GovetoEdge.Runs

/-!
# The batched write queue of a simplefs provider

Cache writes are queued by `enqueueWrite` and committed in batches by a flush
loop that is started on demand and stops when the queue is empty.  The queue
lock `batchMu` is held for single accesses only; it is free while a batch is
on its way to the disk, so callers, flush loops and drains interleave at every
lock boundary.

The model is one state and one step per critical section or channel
operation: `enqueueWrite` up to its wait for the result, the blocks of
`flushLoop` (a goroutine, so a program counter of its own), the receive that
ends `enqueueWrite`, and `drain` waiting on the condition variable.
`flushBatch` is the step `flush`, which may return any result for each write
of its batch.  The statistics counters are not part of the queue's logic and
are left out.
-/

namespace WriteQueue

/-- Objects of one batch. -/
def writeBatchMaxObjects : Nat := 64
/-- Bytes of one batch. -/
def writeBatchMaxBytes : Nat := 64 * 2 ^ 20
/-- Objects that wait at a time. -/
def writeQueueMaxObjects : Nat := 256
/-- Bytes that wait at a time. -/
def writeQueueMaxBytes : Nat := 256 * 2 ^ 20

/-- A `pendingWrite`, identified by its address. -/
structure Write where
  id : Nat
  compressedSize : Nat
deriving DecidableEq, Repr

/-- Total `compressedSize` of a list of writes. -/
def totalBytes (ws : List Write) : Nat :=
  (ws.map Write.compressedSize).sum

variable {ρ : Type}

/-- Where one `flushLoop` goroutine stands. -/
inductive Loop (ρ : Type)
  /-- at the top of the loop, before `immediate` is read -/
  | deciding
  /-- in the `select` on the batch timer and `batchWake` -/
  | waiting
  /-- before `takeBatch` -/
  | taking
  /-- inside `flushBatch`, with no queue lock held -/
  | flushing (batch : List Write)
  /-- before the lock under which `finished` is read -/
  | flushed (batch : List Write) (results : List ρ)
  /-- sending the remaining results, having read `finished` -/
  | delivering (left : List (Write × ρ)) (finished : Bool)
  | returned
deriving DecidableEq

/-- One call of `drain`: blocked in `batchCond.Wait` (woken or not), or back. -/
inductive Drain
  | waiting (notified : Bool)
  | returned
deriving DecidableEq

/-- The queue, its goroutines, and the history of what was accepted, batched
and answered. -/
structure Queue (ρ : Type) where
  pending : List Write
  pendingBytes : Nat
  flushing : Bool
  batchWake : Bool
  loops : List (Loop ρ)
  drains : List Drain
  /-- contents of the one-slot channel `done` of each write -/
  done : Nat → Option ρ
  /-- what `enqueueWrite` returned for each accepted write -/
  outcome : Nat → Option ρ
  nextId : Nat
  accepted : List Write
  batches : List (List Write)
  sent : List (Nat × ρ)

/-- A freshly built provider. -/
def init : Queue ρ where
  pending := []
  pendingBytes := 0
  flushing := false
  batchWake := false
  loops := []
  drains := []
  done := fun _ => none
  outcome := fun _ => none
  nextId := 0
  accepted := []
  batches := []
  sent := []

/-- The queue holds a full batch. -/
def Queue.immediate (q : Queue ρ) : Bool :=
  decide (writeBatchMaxObjects ≤ q.pending.length) ||
    decide (writeBatchMaxBytes ≤ q.pendingBytes)

/-- `enqueueWrite` up to the wait for the result.  A full queue rejects the
write and changes nothing. -/
def Queue.enqueueWrite (q : Queue ρ) (size : Nat) : Queue ρ :=
  if writeQueueMaxObjects ≤ q.pending.length ∨
      writeQueueMaxBytes < q.pendingBytes + size then q
  else
    let write : Write := ⟨q.nextId, size⟩
    let queued : Queue ρ :=
      { q with
        pending := q.pending ++ [write]
        pendingBytes := q.pendingBytes + size
        accepted := q.accepted ++ [write]
        nextId := q.nextId + 1
        loops := if q.flushing then q.loops else q.loops ++ [.deciding]
        flushing := true }
    { queued with batchWake := queued.immediate || q.batchWake }

/-- The counting loop of `takeBatch`. -/
def takeCount (count bytes : Nat) : List Write → Nat × Nat
  | [] => (count, bytes)
  | w :: rest =>
    if writeBatchMaxObjects ≤ count then (count, bytes)
    else if 0 < count ∧ writeBatchMaxBytes < bytes + w.compressedSize then
      (count, bytes)
    else takeCount (count + 1) (bytes + w.compressedSize) rest

/-- `batchCond.Broadcast` wakes every waiting drain. -/
def Drain.wake : Drain → Drain
  | .waiting _ => .waiting true
  | .returned => .returned

/-- Clear `flushing` and broadcast. -/
def Queue.finish (q : Queue ρ) : Queue ρ :=
  { q with flushing := false, drains := q.drains.map Drain.wake }

/-- `takeBatch`, called by loop `i`. -/
def Queue.takeBatch (q : Queue ρ) (i : Nat) : Queue ρ :=
  if q.pending = [] then { q.finish with loops := q.loops.set i .returned }
  else
    let (count, bytes) := takeCount 0 0 q.pending
    let batch := q.pending.take count
    { q with
      pending := q.pending.drop count
      pendingBytes := q.pendingBytes - bytes
      batches := q.batches ++ [batch]
      loops := q.loops.set i (.flushing batch) }

/-- The block of `flushLoop` after `flushBatch`: read `finished`. -/
def Queue.settle (q : Queue ρ) (i : Nat) (batch : List Write)
    (results : List ρ) : Queue ρ :=
  let finished := decide (q.pending = [])
  let left := batch.zip results
  if finished then
    { q.finish with loops := q.loops.set i (.delivering left true) }
  else { q with loops := q.loops.set i (.delivering left false) }

/-- Atomic steps of the callers, the flush loops and the drains. -/
inductive Action (ρ : Type)
  | enqueue (size : Nat)
  | decide (i : Nat)
  | timer (i : Nat)
  | wake (i : Nat)
  | take (i : Nat)
  | flush (i : Nat) (results : List ρ)
  | settle (i : Nat)
  | deliver (i : Nat)
  | receive (id : Nat)
  | drain
  | recheck (d : Nat)

/-- The steps of flush loop `i`. -/
def Action.ofLoop (i : Nat) : Action ρ → Bool
  | .decide j | .timer j | .wake j | .take j | .flush j _ | .settle j
  | .deliver j => i == j
  | _ => false

/-- One step.  An action that is not enabled has no successor. -/
def step (q : Queue ρ) : Action ρ → Option (Queue ρ)
  | .enqueue size => some (q.enqueueWrite size)
  | .decide i =>
    match q.loops[i]? with
    | some .deciding =>
      some { q with
        loops := q.loops.set i (if q.immediate then .taking else .waiting) }
    | _ => none
  | .timer i =>
    match q.loops[i]? with
    | some .waiting => some { q with loops := q.loops.set i .taking }
    | _ => none
  | .wake i =>
    match q.loops[i]? with
    | some .waiting =>
      if q.batchWake then
        some { q with batchWake := false, loops := q.loops.set i .taking }
      else none
    | _ => none
  | .take i =>
    match q.loops[i]? with
    | some .taking => some (q.takeBatch i)
    | _ => none
  | .flush i results =>
    match q.loops[i]? with
    | some (.flushing batch) =>
      if results.length = batch.length then
        some { q with loops := q.loops.set i (.flushed batch results) }
      else none
    | _ => none
  | .settle i =>
    match q.loops[i]? with
    | some (.flushed batch results) => some (q.settle i batch results)
    | _ => none
  | .deliver i =>
    match q.loops[i]? with
    | some (.delivering ((w, r) :: left) finished) =>
      -- a send on a full `done` channel would block
      if q.done w.id = none then
        some { q with
          done := Function.update q.done w.id (some r)
          sent := q.sent ++ [(w.id, r)]
          loops := q.loops.set i (.delivering left finished) }
      else none
    | some (.delivering [] finished) =>
      some { q with
        loops := q.loops.set i (if finished then .returned else .deciding) }
    | _ => none
  | .receive id =>
    match q.done id with
    | some r =>
      some { q with
        done := Function.update q.done id none
        outcome := Function.update q.outcome id (some r) }
    | none => none
  | .drain =>
    some { q with
      drains := q.drains ++ [if q.flushing then .waiting false else .returned] }
  | .recheck d =>
    match q.drains[d]? with
    | some (.waiting true) =>
      some { q with
        drains := q.drains.set d
          (if q.flushing then .waiting false else .returned) }
    | _ => none

/-- The loop may still take or flush a batch: it has not yet cleared
`flushing`.  A loop that read `finished` only hands out its last results. -/
def Loop.running : Loop ρ → Bool
  | .delivering _ true | .returned => false
  | _ => true

/-- The writes a loop has taken and not yet answered. -/
def Loop.owed : Loop ρ → List Nat
  | .flushing batch | .flushed batch _ => batch.map Write.id
  | .delivering left _ => left.map fun e => e.1.id
  | _ => []

/-- The batch a loop is committing, if it is inside `flushBatch`. -/
def Loop.committing : Loop ρ → List Write
  | .flushing batch => batch
  | _ => []

end WriteQueue
