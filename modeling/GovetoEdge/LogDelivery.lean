import GovetoEdge.AccessLogs
import GovetoEdge.Fallible

/-!
# Delivery of access logs

The agent sends the front of its queue and keeps it until the gateway has
acknowledged the batch; the gateway acknowledges it when the batch is in the
store.  Sessions end at any time, with a batch or an acknowledgement on the way
or while a batch is being ingested; then the agent sends what is at the front of
its queue again.
-/

namespace LogDelivery

open GoStrings LogRecords LogChunks LogQueue LogBatches AccessLogs List Fallible

section Front

variable {limit maxBytes key n : Nat} {value : GoString} {records : List LogRecord}

variable {size : Nat}

/-- The walk takes the records of a chunk from the first one on. -/
theorem visit_front {d : Collected} (hcount : logChunkCount value = .ok n)
    (h : visitLogChunk (batchVisit limit maxBytes key) value ⟨records, size, false⟩ = .ok d) :
    ∃ k ≤ n, d.records.map LogRecord.id = records.map LogRecord.id ++ List.range' key k ∧
      (d.stopped = false → k = n) ∧
      ∀ r ∈ d.records, r ∈ records ∨ ∃ envelope, Held [(key, value)] r.id envelope ∧
        decodeLogEnvelope envelope r.id = .ok r := by
  unfold visitLogChunk at h
  rw [hcount] at h
  refine visitLoop_invariant
    (P := fun index c => c.records.map LogRecord.id =
        records.map LogRecord.id ++ List.range' key index ∧ c.stopped = false ∧
      ∀ r ∈ c.records, r ∈ records ∨ ∃ envelope, Held [(key, value)] r.id envelope ∧
        decodeLogEnvelope envelope r.id = .ok r)
    (Q := fun c => ∃ k ≤ n, c.records.map LogRecord.id =
        records.map LogRecord.id ++ List.range' key k ∧ (c.stopped = false → k = n) ∧
      ∀ r ∈ c.records, r ∈ records ∨ ∃ envelope, Held [(key, value)] r.id envelope ∧
        decodeLogEnvelope envelope r.id = .ok r)
    ?_ (fun c hc => ⟨n, le_refl n, hc.1, fun _ => rfl, hc.2.2⟩) (Nat.zero_add n)
    (fun i => by rw [Nat.zero_add]) ⟨by simp, rfl, fun r hr => .inl hr⟩ h
  rintro index c envelope result hindex hat ⟨hids, hgoing, hheld⟩ hresult
  unfold batchVisit at hresult
  dsimp only at hresult
  split at hresult
  · rw [← Except.ok.inj hresult]
    exact ⟨index, hindex.le, hids, by simp, hheld⟩
  · obtain ⟨record, hrecord, hresult⟩ := exists_of_bind hresult
    simp only [Except.ok.injEq] at hresult
    have hid := id_of_decodeLogEnvelope hrecord
    rw [← hresult]
    refine ⟨?_, hgoing, forall_mem_append.mpr
      ⟨hheld, forall_mem_singleton.mpr (.inr ⟨envelope, ?_, ?_⟩)⟩⟩
    · rw [map_append, hids, map_singleton, hid, append_assoc,
        List.range'_1_concat]
    · rw [hid]
      refine ⟨(key, value), mem_cons_self, index, ?_, rfl, hat⟩
      rw [count_eq hcount]
      exact hindex
    · rw [hid]
      exact hrecord

/-- A batch is the front of the bucket. -/
theorem batchLoop_front {bucket : Bucket} {bytes : Nat} {batch : List LogRecord}
    (hcounted : ∀ entry ∈ bucket, ∃ n, logChunkCount entry.2 = .ok n)
    (h : batchLoop limit maxBytes bucket records size = .ok (batch, bytes)) :
    (∃ k, batch.map LogRecord.id = records.map LogRecord.id ++ (queued bucket).take k) ∧
      ∀ r ∈ batch, r ∈ records ∨ ∃ envelope, Held bucket r.id envelope ∧
        decodeLogEnvelope envelope r.id = .ok r := by
  induction bucket generalizing records size with
  | nil =>
    obtain ⟨rfl, rfl⟩ := h
    exact ⟨⟨0, by simp⟩, fun r hr => .inl hr⟩
  | cons entry bucket ih =>
    obtain ⟨key, value⟩ := entry
    obtain ⟨⟨n, hn⟩, hcounted⟩ := forall_mem_cons.mp hcounted
    unfold batchLoop at h
    split at h
    · obtain ⟨rfl, rfl⟩ := h
      exact ⟨⟨0, by simp⟩, fun r hr => .inl hr⟩
    · obtain ⟨c, hvisit, h⟩ := exists_of_bind h
      obtain ⟨k, hk, hids, hfull, hheld⟩ := visit_front hn hvisit
      have hheld' : ∀ r ∈ c.records, r ∈ records ∨ ∃ envelope,
          Held ((key, value) :: bucket) r.id envelope ∧
          decodeLogEnvelope envelope r.id = .ok r := by
        intro r hr
        refine (hheld r hr).imp_right (Exists.imp fun envelope h => ⟨h.1.mono fun e he => ?_, h.2⟩)
        rw [mem_singleton.mp he]
        exact mem_cons_self
      split at h
      · obtain ⟨rfl, rfl⟩ := h
        refine ⟨⟨k, ?_⟩, hheld'⟩
        rw [hids, queued_cons, count_eq hn, take_append_of_le_length (by simpa using hk),
          take_range'_of_length_ge hk]
      · next hgo =>
        obtain rfl := hfull (by simpa using fun hstopped => hgo (.inl hstopped))
        obtain ⟨⟨k', hids'⟩, hheld''⟩ := ih hcounted h
        refine ⟨⟨k + k', ?_⟩, fun r hr => ?_⟩
        · have hall : (List.range' key k).take (k + k') = List.range' key k :=
            take_of_length_le (by simp)
          rw [hids', hids, queued_cons, count_eq hn, append_assoc, take_append, hall,
            length_range', Nat.add_sub_cancel_left]
        · rcases hheld'' r hr with hr | ⟨envelope, hat, hdecode⟩
          · exact hheld' r hr
          · exact .inr ⟨envelope, hat.mono fun e he => mem_cons_of_mem _ he, hdecode⟩

/-- Ids increase along the queue. -/
theorem queued_increasing {bucket : Bucket} {totals : Totals} (h : Balanced bucket totals) :
    (queued bucket).Pairwise (· < ·) := by
  rw [queued, pairwise_flatMap]
  refine ⟨fun entry _ => pairwise_lt_range', h.ordered.imp fun {a b} hle x hx y hy => ?_⟩
  have hxb := mem_range'_1.mp hx
  have hyb := mem_range'_1.mp hy
  omega

/-- **A batch is the front of the queue**, as the queue holds it. -/
theorem batchSized_front {capacity first : Nat} {s : LogQueue.State} {limit : Int}
    {last : LogRecord} (hinv : Inv capacity first s)
    (h : batchSized s limit maxBytes = .ok (records, size)) (hlast : records.getLast? = some last) :
    (∀ id ∈ queued s.bucket, id ≤ last.id → ∃ r ∈ records, r.id = id) ∧
      ∀ r ∈ records, ∃ envelope, Held s.bucket r.id envelope ∧
        decodeLogEnvelope envelope r.id = .ok r := by
  obtain ⟨⟨k, hids⟩, hheld⟩ := batchLoop_front hinv.balanced.counted h
  rw [map_nil, nil_append] at hids
  refine ⟨fun id hid hle => ?_, fun r hr => (hheld r hr).resolve_left not_mem_nil⟩
  have hincreasing := queued_increasing hinv.balanced
  rw [← take_append_drop k (queued s.bucket)] at hid hincreasing
  rcases mem_append.mp hid with hfront | hback
  · rw [← hids] at hfront
    exact mem_map.mp hfront
  · have hmem : last.id ∈ (queued s.bucket).take k := by
      rw [← hids]
      exact mem_map_of_mem (mem_of_getLast? hlast)
    have := (pairwise_append.mp hincreasing).2.2 _ hmem _ hback
    omega

end Front

/-- A record as the gateway reads it: text that is not UTF-8 is replaced in JSON,
and the payload is compact. -/
def received (r : LogRecord) : LogRecord :=
  { r with
    type := Utf8.toValid r.type
    siteID := Utf8.toValid r.siteID
    payload := (marshalPayload r.payload).getD r.payload }

/-- The batch as JSON carries it. -/
def receivedBatch (batch : AgentLogBatch) : AgentLogBatch :=
  { batch with records := batch.records.map received }

/-- `AgentLogAck`; the agent sends again when it likes. -/
inductive Ack
  | accepted (through : Nat)
  | rejected

/-- Where a call of `Consume` stands. -/
inductive Stage
  | waiting
  | inserting (look : Lookup) (events : List WebRequestLog)
  | finished
  | failed

/-- A batch that is ingested. -/
structure Consumption where
  batch : AgentLogBatch
  stage : Stage

/-- What a call of `Consume` is told. -/
inductive Input
  /-- a lookup, a metric or the archive fails, or the context is done -/
  | fails
  | resolves (look : Lookup)
  /-- the next transaction of `Insert`; `lost` if its answer is -/
  | inserts (lost : Bool)
  | returns

/-- What one step of a consumer leads to. -/
structure Progress where
  consumption : Consumption
  rows : List WebRequestLog
  /-- the call has returned without an error -/
  returned : Option Lookup

/-- `Consume`, by one step. -/
def consume (lib : Library) (nodeID : GoString) (rows : List WebRequestLog) (c : Consumption)
    (input : Input) : Option Progress :=
  match c.stage, input with
  | .waiting, .fails => some ⟨⟨c.batch, .failed⟩, rows, none⟩
  | .waiting, .resolves look =>
    some ⟨⟨c.batch, .inserting look (events lib look nodeID c.batch.records)⟩, rows, none⟩
  | .inserting _ _, .fails => some ⟨⟨c.batch, .failed⟩, rows, none⟩
  | .inserting look (e :: es), .inserts lost =>
    some ⟨⟨c.batch, if lost then .failed else .inserting look ((e :: es).drop maxInsertBatch)⟩,
      insert rows ((e :: es).take maxInsertBatch), none⟩
  | .inserting look [], .returns => some ⟨⟨c.batch, .finished⟩, rows, some look⟩
  | _, _ => none

/-- A stream between agent and gateway, with what is on the way. -/
structure Session where
  /-- `logsOutstanding` -/
  outstanding : Bool
  outbound : List AgentLogBatch
  inFlight : Option Consumption
  inbound : List Ack

/-- The queue of the agent, its session, and the store; `orphans` are calls of
`Consume` whose session has ended.  `sent` and `consumed` are there for the
statements: the records that were read from the queue, and the calls of `Consume`
that returned without an error. -/
structure State where
  queue : LogQueue.State
  session : Option Session
  orphans : List Consumption
  rows : List WebRequestLog
  sent : List LogRecord
  consumed : List (Lookup × AgentLogBatch)

/-- An empty queue, and no session. -/
def init (first : Nat) : State := ⟨opened first, none, [], [], [], []⟩

/-- The session ends.  What is being ingested may go on for a while, and what is on
the way to the gateway may still arrive there. -/
def disconnect (s : State) (x : Session) : State :=
  let arriving := x.outbound.filter fun b => (validateLogBatch (receivedBatch b)).isOk
  { s with
    session := none
    orphans := s.orphans ++ x.inFlight.toList ++
      arriving.map fun b => ⟨receivedBatch b, .waiting⟩ }

/-- The part of `runSession` that sends. -/
def send (s : State) (x : Session) (limits : Limits) : State :=
  match batchSized s.queue limits.records limits.bytes with
  | .error _ => disconnect s x
  | .ok (records, size) =>
    match records.head?, records.getLast? with
    | some first, some last =>
      { s with
        session := some { x with
          outstanding := true
          outbound := x.outbound ++ [⟨first.id, last.id, size, records⟩] }
        sent := s.sent ++ records }
    | _, _ => s

/-- `Connect` gets a batch; `enabled` if there is an ingest. -/
def receive (s : State) (x : Session) (enabled : Bool) : Option State :=
  match x.outbound with
  | [] => none
  | b :: rest =>
    let x := { x with outbound := rest }
    let reply (ack : Ack) : State :=
      { s with session := some { x with inbound := x.inbound ++ [ack] } }
    if x.inFlight.isSome then some (disconnect s x)
    else if !enabled then some (reply .rejected)
    else match validateLogBatch (receivedBatch b) with
      | .error _ => some (reply .rejected)
      | .ok _ =>
        if b.records = [] then some (reply (.accepted 0))
        else some { s with
          session := some { x with inFlight := some ⟨receivedBatch b, .waiting⟩ } }

/-- `Connect` gets the result of an ingest. -/
def answer (s : State) (x : Session) : Option State :=
  let reply (ack : Ack) : State :=
    { s with session := some { x with inFlight := none, inbound := x.inbound ++ [ack] } }
  match x.inFlight with
  | some ⟨batch, .finished⟩ => some (reply (.accepted batch.through))
  | some ⟨_, .failed⟩ => some (reply .rejected)
  | _ => none

/-- `runSession` gets an acknowledgement. -/
def handle (s : State) (x : Session) : Option State :=
  match x.inbound with
  | [] => none
  | .accepted through :: rest =>
    match ack s.queue through with
    | .ok q =>
      some { s with
        queue := q, session := some { x with outstanding := false, inbound := rest } }
    | .error _ => some (disconnect s { x with inbound := rest })
  | .rejected :: rest =>
    some { s with session := some { x with outstanding := false, inbound := rest } }

/-- The effect of a call of `Consume`. -/
def State.progress (s : State) (p : Progress) : State :=
  { s with
    rows := p.rows
    consumed := s.consumed ++ p.returned.toList.map fun look => (look, p.consumption.batch) }

/-- The steps of the agent and of the consumer. -/
inductive Action
  | append (records : List LogRecord) (now : Int)
  | connect
  | disconnect
  | dropOversizedHead (maxBytes : Nat)
  | send (limits : Limits)
  | receive (enabled : Bool)
  | consume (input : Input)
  | consumeOrphan (index : Nat) (input : Input)
  | answer
  | handle
  /-- events of other nodes are ingested -/
  | foreign (events : List WebRequestLog)

/-- One step of the agent, the gateway or the ingest. -/
def step (lib : Library) (nodeID : GoString) (maxBytes : Nat) (s : State) :
    Action → Option State
  | .append records now =>
    (LogQueue.step maxBytes s.queue (.append records now)).map fun q => { s with queue := q }
  | .connect =>
    if s.session.isNone then some { s with session := some ⟨false, [], none, []⟩ } else none
  | .disconnect => s.session.map (disconnect s)
  | .dropOversizedHead limit =>
    s.session.bind fun x =>
      if x.outstanding then none
      else match LogQueue.dropOversizedHead s.queue limit with
        | .ok q => some { s with queue := q }
        | .error _ => some (disconnect s x)
  | .send limits =>
    s.session.bind fun x => if x.outstanding then none else some (send s x limits)
  | .receive enabled => s.session.bind fun x => receive s x enabled
  | .consume input =>
    s.session.bind fun x => x.inFlight.bind fun c =>
      (consume lib nodeID s.rows c input).map fun p =>
        { s.progress p with session := some { x with inFlight := some p.consumption } }
  | .consumeOrphan index input =>
    s.orphans[index]?.bind fun c =>
      (consume lib nodeID s.rows c input).map fun p =>
        { s.progress p with orphans := s.orphans.set index p.consumption }
  | .answer => s.session.bind fun x => answer s x
  | .handle => s.session.bind fun x => handle s x
  | .foreign es => some { s with rows := insert s.rows (es.filter fun e => e.nodeID ≠ nodeID) }

end LogDelivery
