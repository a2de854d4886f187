import GovetoEdge.AccessPipeline
import GovetoEdge.LogQueueAccounting
import GovetoEdge.Fallible

/-!
# Batches that the queue refuses

The access pipeline takes any record with a payload, and `persistAccessBatch`
tries to append the records that the policy leaves until the queue takes them.
The queue refuses a batch with a record that it cannot store, whatever its state
and the time: such a batch is tried for ever.

* `appendBatch_ok_iff`: the queue takes a batch exactly when it can store every
  record of it;
* `batch_persisted_iff`: the same of what the policy leaves of the records.
-/

namespace AccessBatches

open GoStrings LogRecords LogChunks LogQueue AccessPipeline List Runs Fallible

/-- A record with a payload of valid JSON, whose envelope is a chunk that the
queue has room for. -/
def Storable (maxBytes : Nat) (record : LogRecord) : Prop :=
  Accepted record ∧
    5 + 4 + (headerSize + record.type.length + record.siteID.length + record.payload.length) ≤
      maxBytes

variable {maxBytes : Nat} {records : List LogRecord}

/-- Storable records never end in an error. -/
theorem chunkEnd_of_storable (h : ∀ r ∈ records, Storable maxBytes r) (index taken size : Nat) :
    ∃ count, chunkEnd maxBytes records index taken size = .ok count := by
  induction records generalizing index taken size with
  | nil => exact ⟨taken, rfl⟩
  | cons record records ih =>
    obtain ⟨⟨haccepted, hsize⟩, h⟩ := forall_mem_cons.mp h
    rw [chunkEnd, logEnvelopeSize_of_fits haccepted.fits]
    by_cases hfull : maxChunkRecords ≤ taken
    · exact ⟨taken, if_pos hfull⟩
    · rw [if_neg hfull, if_neg haccepted.payload, if_neg (by simpa using haccepted.valid)]
      dsimp only
      rw [if_neg (by omega)]
      split
      · exact ⟨taken, rfl⟩
      · exact ih h _ _ _

/-- They are all put into chunks. -/
theorem buildLoop_of_storable (now : Int) (start : Nat) {fuel : Nat}
    (h : ∀ r ∈ records, Storable maxBytes r) (hfuel : records.length ≤ fuel) :
    ∃ chunks, buildLoop now maxBytes fuel start records = .ok chunks := by
  induction fuel generalizing start records with
  | zero =>
    obtain rfl := length_eq_zero_iff.mp (Nat.le_zero.mp hfuel)
    exact ⟨[], rfl⟩
  | succ fuel ih =>
    cases records with
    | nil => exact ⟨[], rfl⟩
    | cons record records =>
      obtain ⟨count, hend⟩ := chunkEnd_of_storable h start 0 5
      obtain ⟨k, hk, hcount, -, -, -, hpos⟩ :=
        chunkEnd_spec now hend (fun _ => rfl) (Nat.zero_le _)
      have hpos := hpos rfl (by simp)
      have hdrop : ∀ r ∈ (record :: records).drop count, Storable maxBytes r :=
        fun r hr => h r (mem_of_mem_drop hr)
      obtain ⟨chunks, hrest⟩ := ih (start + count) hdrop (by rw [length_drop]; omega)
      refine ⟨⟨start, count, encodeChunk now ((record :: records).take count)⟩ :: chunks, ?_⟩
      simp only [buildLoop, hend, hrest, bind, Except.bind]

/-- Whatever is in a chunk is storable. -/
theorem storable_of_chunked {now : Int} {start : Nat} {chunks : List EncodedLogChunk}
    (h : Chunked now maxBytes start records chunks) : ∀ r ∈ records, Storable maxBytes r := by
  induction h with
  | nil => simp
  | @cons start records rest chunks hne hcount haccepted hsize _ ih =>
    intro r hr
    obtain hr | hr := mem_append.mp hr
    · refine ⟨haccepted r hr, ?_⟩
      -- The record is a part of its chunk.
      obtain ⟨before, after, rfl⟩ := append_of_mem hr
      rw [length_encodeChunk, flatMap_append, flatMap_cons, length_append, length_append,
        length_encodeRecord, length_encodeLogEnvelope] at hsize
      omega
    · exact ih r hr

/-- **What the queue takes**, in every state that it can be in. -/
theorem appendBatch_ok_iff {first : Nat} {s : LogQueue.State} (hs : LogQueue.Inv maxBytes first s)
    (records : List LogRecord) (now : Int) :
    (∃ t, appendBatch maxBytes s records now = .ok t) ↔ ∀ r ∈ records, Storable maxBytes r := by
  unfold appendBatch
  by_cases hempty : records = []
  · rw [if_pos hempty, hempty]
    exact iff_of_true ⟨s, rfl⟩ (by simp)
  · rw [if_neg hempty]
    constructor
    · intro ⟨t, ht⟩
      obtain ⟨chunks, hbuild, ht⟩ := exists_of_bind ht
      exact storable_of_chunked (buildLogChunks_chunked hbuild)
    · intro h
      obtain ⟨chunks, hbuild⟩ := buildLoop_of_storable now 0 h le_rfl
      have hchunks : buildLogChunks records now maxBytes = .ok chunks := hbuild
      obtain ⟨bucket, totals, -, happend, -⟩ := appendLoop_spec (s.sequence + 1)
        (buildLogChunks_chunked hchunks) hs.balanced hs.below hs.max
      simp only [hchunks, happend, bind, Except.bind]
      exact ⟨_, rfl⟩

/-- **Which batches are persisted.**  In every state of the queue and at any time,
what the policy leaves of a batch is appended exactly when each record of it is
storable; otherwise every attempt fails. -/
theorem batch_persisted_iff (maxBytes first : Nat) (ops : List LogQueue.Action) (s : LogQueue.State)
    (hs : run (LogQueue.step maxBytes) (opened first) ops = some s) (policy : Policy)
    (raw : List Queued) (now : Int) :
    (∃ t, appendBatch maxBytes s (raw.filterMap (Queued.process policy)) now = .ok t) ↔
      ∀ q ∈ raw, ∀ r, q.process policy = some r → Storable maxBytes r := by
  rw [appendBatch_ok_iff (inv_run hs)]
  simp only [mem_filterMap]
  exact ⟨fun h q hq r hr => h r ⟨q, hq, hr⟩, fun h r ⟨q, hq, hr⟩ => h q hq r hr⟩

/-- A record of a request, by its payload. -/
def accessRecord (payload : GoString) : LogRecord := ⟨0, lit "access", lit "site", 7, 9, payload⟩

/-- Two records behind one that is queued already. -/
theorem json_persisted :
    ∃ s, run (LogQueue.step 1000) (opened 0) [.append [accessRecord (lit "0")] 0] = some s ∧
      ∃ t, appendBatch 1000 s ([⟨accessRecord (lit "[1]"), false⟩,
        ⟨accessRecord (lit "\x7b\x7d"), true⟩].filterMap (Queued.process some)) 0 = .ok t := by
  have hruns : (run (LogQueue.step 1000) (opened 0)
      [.append [accessRecord (lit "0")] 0]).isSome := by
    decide +kernel
  obtain ⟨s, hs⟩ := Option.isSome_iff_exists.mp hruns
  refine ⟨s, hs, (batch_persisted_iff 1000 0 _ s hs some _ 0).mpr ?_⟩
  have hrecords : ∀ payload ∈ [lit "[1]", lit "\x7b\x7d"],
      Storable 1000 (accessRecord payload) := by
    intro payload hpayload
    obtain rfl | rfl := mem_pair.mp hpayload
    · exact ⟨⟨by decide, by decide +kernel, by decide, by decide, by decide⟩, by decide⟩
    · exact ⟨⟨by decide, by decide +kernel, by decide, by decide, by decide⟩, by decide⟩
  intro q hq r hr
  obtain rfl | rfl := mem_pair.mp hq
  · cases hr
    exact hrecords _ mem_cons_self
  · cases hr
    exact hrecords _ (mem_cons_of_mem _ mem_cons_self)

/-- A payload that is no JSON is accepted, and the policy keeps it; the queue
never takes it. -/
theorem invalid_payload_refused :
    let config : Config := ⟨100, 4, 100, 4, by decide, by decide⟩
    (enqueueAccess config (init config some) (accessRecord (lit "x")) false 0).accepted =
        [⟨accessRecord (lit "x"), false⟩] ∧
      Queued.process some ⟨accessRecord (lit "x"), false⟩ = some (accessRecord (lit "x")) ∧
      ¬ ∃ t, appendBatch 1000 (opened 0) [accessRecord (lit "x")] 0 = .ok t := by
  refine ⟨by decide +kernel, by decide, ?_⟩
  rw [appendBatch_ok_iff (inv_opened 1000 0)]
  intro h
  exact absurd (h _ mem_cons_self).1.valid (by decide +kernel)

end AccessBatches
