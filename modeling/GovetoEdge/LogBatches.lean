import GovetoEdge.LogChunkRoundTrip
import GovetoEdge.LogQueueAccounting
import GovetoEdge.Fallible

/-!
# Batches of log records between agent and gateway

The agent takes the records at the front of its queue, as many as the limits of
the gateway allow, and sends them; the gateway checks the batch and asks for it
again later when it does not accept it.  The agent measures records by their
envelopes, the gateway by their JSON.

* `Good` says what is common to all batches (`batchSized_good`);
* `batch_accepted_iff`: of what the gateway checks, only the size of the JSON and
  the site of access records can fail;
* `long_batch_rejected`: a record that just fits for the agent is sent and
  rejected again and again.
-/

namespace LogBatches

open GoStrings LogRecords LogChunks LogQueue Option Runs Fallible

/-- Decimal digits, with zeros in front. -/
def pad (width n : Nat) : GoString :=
  List.replicate (width - (itoa n).length) 0x30 ++ itoa n

/-- Year, month and day of a number of days since 1970; the years begin in March,
so that the day that is added in leap years is the last one. -/
def civil (days : Int) : Int × Int × Int :=
  let shifted := days + 719468
  let era := shifted / 146097
  let dayOfEra := shifted % 146097
  let yearOfEra := (dayOfEra - dayOfEra / 1460 + dayOfEra / 36524 - dayOfEra / 146096) / 365
  let dayOfYear := dayOfEra - (365 * yearOfEra + yearOfEra / 4 - yearOfEra / 100)
  let month := (5 * dayOfYear + 2) / 153
  let day := dayOfYear - (153 * month + 2) / 5 + 1
  let year := yearOfEra + era * 400
  if month < 10 then (year, month + 3, day) else (year + 1, month - 9, day)

/-- The fraction of a second, without zeros at the end. -/
def fraction (nanoseconds : Nat) : GoString :=
  if nanoseconds = 0 then []
  else [0x2e] ++ ((pad 9 nanoseconds).reverse.dropWhile (· = 0x30)).reverse

/-- `Time.MarshalJSON` in UTC, which refuses years of more than four digits. -/
@[irreducible] def marshalTime (t : Int) : Option GoString :=
  let seconds := t / 10 ^ 9
  let (year, month, day) := civil (seconds / 86400)
  let second := (seconds % 86400).toNat
  if year < 0 ∨ 9999 < year then none
  else some ([0x22] ++ pad 4 year.toNat ++ [0x2d] ++ pad 2 month.toNat ++ [0x2d] ++
    pad 2 day.toNat ++ lit "T" ++ pad 2 (second / 3600) ++ [0x3a] ++ pad 2 (second / 60 % 60) ++
    [0x3a] ++ pad 2 (second % 60) ++ fraction (t % 10 ^ 9).toNat ++ lit "Z" ++ [0x22])

/-- `json.RawMessage` as it is written. -/
def marshalPayload (payload : GoString) : Option GoString :=
  if payload = [] then some (lit "null") else GoJson.compact payload

/-- What is written before the payload. -/
def marshalHead (id : Nat) (type siteID : GoString) (configVersion : UInt64)
    (createdAt : GoString) :
    GoString :=
  lit "\x7b\"id\":" ++ itoa id ++ lit ",\"type\":" ++ GoJson.quote type ++
    (if siteID = [] then [] else lit ",\"site_id\":" ++ GoJson.quote siteID) ++
    (if configVersion = 0 then [] else lit ",\"config_version\":" ++ itoa configVersion.toNat) ++
    lit ",\"created_at\":" ++ createdAt ++ lit ",\"payload\":"

/-- `json.Marshal` of a record. -/
@[irreducible] def marshal (r : LogRecord) : Option GoString := do
  let createdAt ← marshalTime r.createdAt
  let payload ← marshalPayload r.payload
  some (marshalHead r.id r.type r.siteID r.configVersion createdAt ++ payload ++ lit "\x7d")

example : marshal ⟨1, lit "waf", [], 0, 1700000000 * 10 ^ 9 + 120000000, lit "[ 1 ]"⟩ =
    some (lit "\x7b\"id\":1,\"type\":\"waf\",\"created_at\":\"2023-11-14T22:13:20.12Z\",\"payload\":[1]\x7d") := by
  decide +kernel

/-- Records of one batch. -/
def maxLogBatchRecords : Nat := 2000

/-- Bytes of one batch. -/
def maxLogBatchBytes : Nat := 4 * 2 ^ 20

/-- `AgentLogBatch`. -/
structure AgentLogBatch where
  firstID : Nat
  through : Nat
  bytes : Nat
  records : List LogRecord

/-- The errors of `validateLogBatch`. -/
inductive BatchError
  /-- empty log batch has a cursor -/
  | emptyCursor
  /-- log batch exceeds gateway limits -/
  | exceedsLimits
  /-- log batch record IDs must be positive -/
  | idNotPositive
  /-- log batch cursor does not match records -/
  | cursorMismatch
  /-- access log site_id is required -/
  | siteRequired
  /-- encode log batch record -/
  | encodeRecord
  /-- log batch record IDs are not increasing -/
  | notIncreasing
deriving DecidableEq

/-- An access record without a site. -/
abbrev SiteMissing (r : LogRecord) : Prop := r.type = lit "access" ∧ r.siteID = []

/-- The loop of `validateLogBatch`; `previous` is the id of the record before,
when there is one. -/
def validateRecords : List LogRecord → Option Nat → Nat → Except BatchError Unit
  | [], _, _ => .ok ()
  | record :: records, previous, actualBytes =>
    if SiteMissing record then .error .siteRequired
    else match marshal record with
      | none => .error .encodeRecord
      | some encoded =>
        if actualBytes + encoded.length > maxLogBatchBytes then .error .exceedsLimits
        else if previous.any (record.id ≤ ·) then .error .notIncreasing
        else validateRecords records (some record.id) (actualBytes + encoded.length)

/-- `validateLogBatch`. -/
def validateLogBatch (batch : AgentLogBatch) : Except BatchError Unit :=
  match batch.records.head?, batch.records.getLast? with
  | some first, some last =>
    if batch.records.length > maxLogBatchRecords ∨ batch.bytes > maxLogBatchBytes then
      .error .exceedsLimits
    else if first.id = 0 then .error .idNotPositive
    else if batch.firstID ≠ 0 ∧ batch.firstID ≠ first.id ∨ batch.through ≠ last.id then
      .error .cursorMismatch
    else validateRecords batch.records none 0
  | _, _ =>
    if batch.through ≠ 0 ∨ batch.firstID ≠ 0 then .error .emptyCursor else .ok ()

/-- The limits of a session. -/
structure Limits where
  records : Int
  bytes : Nat

/-- The limits before the gateway has answered. -/
def defaultLimits : Limits := ⟨1000, 4 * 2 ^ 20⟩

/-- The limits of a `Welcome`; those that are not positive are ignored. -/
def Limits.welcome (limits : Limits) (records bytes : Int) : Limits where
  records := if records > 0 then records else limits.records
  bytes := if bytes > 0 then bytes.toNat else limits.bytes

/-- The limits that the gateway advertises. -/
def advertised : Limits := defaultLimits.welcome maxLogBatchRecords maxLogBatchBytes

/-- What `runSession` sends when no batch is outstanding. -/
def offer (limits : Limits) (s : State) : Except Fault (State × Option AgentLogBatch) := do
  let s ← dropOversizedHead s limits.bytes
  let (records, size) ← batchSized s limits.records limits.bytes
  match records.head?, records.getLast? with
  | some first, some last => .ok (s, some ⟨first.id, last.id, size, records⟩)
  | _, _ => .ok (s, none)

/-- One round: a batch that the gateway accepts is stored there and acknowledged,
and the queue stays as it is when the gateway rejects it. -/
def exchange (limits : Limits) (s : State) : Except Fault State := do
  let (s, batch) ← offer limits s
  match batch with
  | none => .ok s
  | some batch =>
    match validateLogBatch batch with
    | .ok _ => ack s batch.through
    | .error _ => .ok s

/-- Years have four digits. -/
theorem civil_year {days : Int} (hlow : -106752 ≤ days) (hhigh : days ≤ 106752) :
    0 ≤ (civil days).1 ∧ (civil days).1 ≤ 9999 := by
  have hera : 4 ≤ (days + 719468) / 146097 ∧ (days + 719468) / 146097 ≤ 5 := by omega
  have hday : 0 ≤ (days + 719468) % 146097 ∧ (days + 719468) % 146097 < 146097 := by omega
  unfold civil
  dsimp only
  generalize (days + 719468) / 146097 = era at *
  generalize (days + 719468) % 146097 = dayOfEra at *
  split
  · omega
  · omega

/-- So times can be written. -/
theorem marshalTime_isSome {t : Int} (hlow : (-2 ^ 63 : Int) ≤ t) (hhigh : t < (2 ^ 63 : Int)) :
    (marshalTime t).isSome := by
  have hdays : -106752 ≤ t / 10 ^ 9 / 86400 ∧ t / 10 ^ 9 / 86400 ≤ 106752 := by
    omega
  have hyear := civil_year hdays.1 hdays.2
  unfold marshalTime
  dsimp only
  rw [if_neg (by omega)]
  rfl

/-- Stored times are in range. -/
theorem timeUnix_range (n : Nat) : (-2 ^ 63 : Int) ≤ timeUnix n ∧ timeUnix n < (2 ^ 63 : Int) :=
  ⟨@Int.le_bmod n (2 ^ 64) (by decide), @Int.bmod_lt n (2 ^ 64) (by decide)⟩

variable {data : GoString} {id : Nat} {r : LogRecord}

/-- So records can be written. -/
theorem marshal_isSome (h : decodeLogEnvelope data id = .ok r) : (marshal r).isSome := by
  rw [decodeLogEnvelope_eq] at h
  obtain ⟨-, h⟩ := ok_of_guard h
  obtain ⟨-, h⟩ := ok_of_guard h
  obtain ⟨hvalid, h⟩ := ok_of_require h
  obtain rfl := Except.ok.inj h
  have htime := timeUnix_range (BigEndian.get (BigEndian.slice data 13 21))
  obtain ⟨createdAt, hcreatedAt⟩ :=
    isSome_iff_exists.mp (marshalTime_isSome htime.1 htime.2)
  have hpayload : (marshalPayload (fields data id).payload).isSome := by
    unfold marshalPayload
    split
    · rfl
    · rw [GoJson.compact_isSome]
      exact hvalid
  obtain ⟨payload, hpayload⟩ := isSome_iff_exists.mp hpayload
  have hfield : (fields data id).createdAt =
      timeUnix (BigEndian.get (BigEndian.slice data 13 21)) := by
    simp only [fields]
  rw [marshal, hfield, hcreatedAt, hpayload]
  rfl

theorem eq_fields_of_decodeLogEnvelope (h : decodeLogEnvelope data id = .ok r) :
    r = fields data id := by
  rw [decodeLogEnvelope_eq] at h
  split at h
  · cases h
  · split at h
    · cases h
    · split at h
      · exact (Except.ok.inj h).symm
      · cases h

/-- The identifier is the one asked for. -/
theorem id_of_decodeLogEnvelope (h : decodeLogEnvelope data id = .ok r) : r.id = id := by
  rw [eq_fields_of_decodeLogEnvelope h]
  rfl

/-- Records within the limits, with increasing ids, that can be written as JSON. -/
structure Good (limit maxBytes : Nat) (records : List LogRecord) (size : Nat) : Prop where
  length : records.length ≤ limit
  size : size ≤ maxBytes
  increasing : (records.map LogRecord.id).Pairwise (· < ·)
  positive : ∀ r ∈ records, 0 < r.id
  encodes : ∀ r ∈ records, (marshal r).isSome

variable {limit maxBytes : Nat}

variable {bytes size : Nat} {records : List LogRecord} {s : State}

/-- One record more, behind the others. -/
theorem Good.append {r : LogRecord} (h : Good limit maxBytes records size)
    (hlength : records.length < limit) (hsize : size + bytes ≤ maxBytes)
    (hbelow : ∀ q ∈ records, q.id < r.id) (hpos : 0 < r.id) (hencodes : (marshal r).isSome) :
    Good limit maxBytes (records ++ [r]) (size + bytes) where
  length := by
    rw [List.length_append, List.length_singleton]
    exact hlength
  size := hsize
  increasing := by
    rw [List.map_append, List.pairwise_append]
    refine ⟨h.increasing, List.pairwise_singleton _ _, ?_⟩
    simpa using hbelow
  positive := List.forall_mem_append.mpr ⟨h.positive, List.forall_mem_singleton.mpr hpos⟩
  encodes := List.forall_mem_append.mpr ⟨h.encodes, List.forall_mem_singleton.mpr hencodes⟩

/-- The visitor keeps the limits, and gives the ids from the key of the chunk on. -/
theorem batchVisit_good {key index : Nat} {c : Collected} {envelope : GoString}
    {result : Collected × Bool} (hmax : 0 < maxBytes) (hkey : 0 < key)
    (h : Good limit maxBytes c.records c.size) (hbelow : ∀ r ∈ c.records, r.id < key + index)
    (hvisit : batchVisit limit maxBytes key c index envelope = .ok result) :
    Good limit maxBytes result.1.records result.1.size ∧
      ∀ r ∈ result.1.records, r.id < key + index + (if result.2 then 1 else 0) := by
  unfold batchVisit at hvisit
  dsimp only at hvisit
  split at hvisit
  · rw [← Except.ok.inj hvisit]
    exact ⟨h, hbelow⟩
  · next hroom =>
    obtain ⟨record, hrecord, hvisit⟩ := exists_of_bind hvisit
    simp only [Except.ok.injEq] at hvisit
    have hid := id_of_decodeLogEnvelope hrecord
    rw [← hvisit]
    refine ⟨h.append (by omega) (by omega) (fun q hq => ?_) (by omega)
      (marshal_isSome hrecord), ?_⟩
    · rw [hid]
      exact hbelow q hq
    · refine List.forall_mem_append.mpr ⟨fun q hq => ?_, List.forall_mem_singleton.mpr ?_⟩
      · exact Nat.lt_succ_of_lt (hbelow q hq)
      · rw [hid]
        exact Nat.lt_succ_self _

/-- One more record keeps the batch good. -/
theorem visit_good {key count : Nat} {value : GoString} {c d : Collected} (hmax : 0 < maxBytes)
    (hkey : 0 < key) (hcount : logChunkCount value = .ok count)
    (h : Good limit maxBytes c.records c.size) (hbelow : ∀ r ∈ c.records, r.id < key)
    (hvisit : visitLogChunk (batchVisit limit maxBytes key) value c = .ok d) :
    Good limit maxBytes d.records d.size ∧ ∀ r ∈ d.records, r.id < key + count := by
  unfold visitLogChunk at hvisit
  rw [hcount] at hvisit
  refine visitLoop_invariant
    (P := fun index c => Good limit maxBytes c.records c.size ∧ ∀ r ∈ c.records, r.id < key + index)
    (Q := fun c => Good limit maxBytes c.records c.size ∧ ∀ r ∈ c.records, r.id < key + count)
    ?_ (fun c hc => hc) (Nat.zero_add count) (fun i => by rw [Nat.zero_add]) ⟨h, hbelow⟩ hvisit
  intro index c envelope result hindex _ hc hresult
  obtain ⟨hgood, hids⟩ := batchVisit_good hmax hkey hc.1 hc.2 hresult
  split
  · next hgo =>
    rw [if_pos hgo] at hids
    exact ⟨hgood, hids⟩
  · next hstop =>
    rw [if_neg hstop] at hids
    exact ⟨hgood, fun r hr => lt_of_lt_of_le (hids r hr) (by omega)⟩

/-- The loop over chunks does. -/
theorem batchLoop_good {bucket : Bucket} {batch : List LogRecord} (hmax : 0 < maxBytes)
    (hcounted : ∀ entry ∈ bucket, ∃ n, logChunkCount entry.2 = .ok n)
    (hordered : bucket.Pairwise fun a b => a.1 + count a.2 ≤ b.1)
    (hkeys : ∀ entry ∈ bucket, 0 < entry.1) (h : Good limit maxBytes records size)
    (hbelow : ∀ r ∈ records, ∀ entry ∈ bucket, r.id < entry.1)
    (hloop : batchLoop limit maxBytes bucket records size = .ok (batch, bytes)) :
    Good limit maxBytes batch bytes := by
  induction bucket generalizing records size with
  | nil =>
    obtain ⟨rfl, rfl⟩ := hloop
    exact h
  | cons entry bucket ih =>
    obtain ⟨key, value⟩ := entry
    obtain ⟨⟨n, hn⟩, hcounted⟩ := List.forall_mem_cons.mp hcounted
    obtain ⟨hfirst, hordered⟩ := List.pairwise_cons.mp hordered
    obtain ⟨hkey, hkeys⟩ := List.forall_mem_cons.mp hkeys
    unfold batchLoop at hloop
    split at hloop
    · obtain ⟨rfl, rfl⟩ := hloop
      exact h
    · obtain ⟨c, hvisit, hloop⟩ := exists_of_bind hloop
      obtain ⟨hgood, hids⟩ := visit_good hmax hkey hn h
        (fun r hr => hbelow r hr _ List.mem_cons_self) hvisit
      split at hloop
      · obtain ⟨rfl, rfl⟩ := hloop
        exact hgood
      · refine ih hcounted hordered hkeys hgood (fun r hr entry hentry => ?_) hloop
        have hle := hfirst entry hentry
        rw [count_eq hn] at hle
        exact lt_of_lt_of_le (hids r hr) hle

/-- The ids in a queue are positive. -/
theorem keys_positive {first : Nat} (hinv : Inv maxBytes first s) :
    ∀ entry ∈ s.bucket, 0 < entry.1 := by
  intro entry hentry
  obtain ⟨n, hn⟩ := hinv.balanced.counted entry hentry
  have hpos := (logChunkCount_eq_ok hn).2.1
  have hqueued : entry.1 ∈ queued s.bucket := by
    refine List.mem_flatMap.mpr ⟨entry, hentry, ?_⟩
    rw [count_eq hn]
    exact List.mem_range'_1.mpr ⟨le_refl _, by omega⟩
  have hid := hinv.conserved.subset
    (List.mem_append_right _ (List.mem_append_right _ hqueued))
  have := (List.mem_range'_1.mp hid).1
  omega

/-- **A batch is good.** -/
theorem batchSized_good {first : Nat} {limit : Nat} {capacity : Nat} (hinv : Inv capacity first s)
    (hmax : 0 < maxBytes) (hlimit : 0 < limit)
    (h : batchSized s limit maxBytes = .ok (records, size)) : Good limit maxBytes records size := by
  unfold batchSized at h
  rw [if_neg (by omega), Int.toNat_natCast] at h
  exact batchLoop_good hmax hinv.balanced.counted hinv.balanced.ordered (keys_positive hinv)
    ⟨Nat.zero_le _, Nat.zero_le _, List.Pairwise.nil, by simp, by simp⟩ (by simp) h

/-- The bytes of the records as the gateway counts them. -/
def jsonSize (records : List LogRecord) : Nat :=
  (records.map fun r => ((marshal r).getD []).length).sum

/-- What the receiver checks. -/
theorem validateRecords_iff (hencodes : ∀ r ∈ records, (marshal r).isSome)
    (hincreasing : (records.map LogRecord.id).Pairwise (· < ·)) {previous : Option Nat}
    (hprevious : ∀ id, previous = some id → ∀ r ∈ records, id < r.id)
    (hbytes : bytes ≤ maxLogBatchBytes) :
    validateRecords records previous bytes = .ok () ↔
      (∀ r ∈ records, ¬ SiteMissing r) ∧ bytes + jsonSize records ≤ maxLogBatchBytes := by
  induction records generalizing previous bytes with
  | nil =>
    exact ⟨fun _ => ⟨by simp, hbytes⟩, fun _ => rfl⟩
  | cons record records ih =>
    obtain ⟨hrecord, hencodes⟩ := List.forall_mem_cons.mp hencodes
    obtain ⟨encoded, hencoded⟩ := isSome_iff_exists.mp hrecord
    rw [List.map_cons, List.pairwise_cons] at hincreasing
    have hsize : jsonSize (record :: records) = encoded.length + jsonSize records := by
      simp [jsonSize, hencoded]
    have horder : ¬ previous.any (record.id ≤ ·) = true := by
      cases previous with
      | none => simp
      | some id => simpa using hprevious id rfl record List.mem_cons_self
    rw [validateRecords, hencoded, hsize, List.forall_mem_cons]
    by_cases hsite : SiteMissing record
    · rw [if_pos hsite]
      exact ⟨fun h => absurd h (by simp), fun h => absurd hsite h.1.1⟩
    · rw [if_neg hsite]
      dsimp only
      by_cases hroom : bytes + encoded.length > maxLogBatchBytes
      · rw [if_pos hroom]
        exact ⟨fun h => absurd h (by simp), fun h => absurd h.2 (by omega)⟩
      · rw [if_neg hroom, if_neg horder, ih hencodes hincreasing.2 ?_ (not_lt.mp hroom),
          Nat.add_assoc]
        · exact ⟨fun h => ⟨⟨hsite, h.1⟩, h.2⟩, fun h => ⟨h.1.2, h.2⟩⟩
        · intro id hid r hr
          cases hid
          exact hincreasing.1 _ (List.mem_map_of_mem hr)

/-- A batch is what is at the front of the queue without records that are too long
for any batch. -/
theorem offer_eq_some {limits : Limits} {t : State} {batch : AgentLogBatch}
    (h : offer limits s = .ok (t, some batch)) :
    ∃ first last, dropOversizedHead s limits.bytes = .ok t ∧
      batchSized t limits.records limits.bytes = .ok (batch.records, batch.bytes) ∧
      batch.records.head? = some first ∧ batch.records.getLast? = some last ∧
      batch.firstID = first.id ∧ batch.through = last.id := by
  unfold offer at h
  obtain ⟨u, hdrop, h⟩ := exists_of_bind h
  obtain ⟨⟨records, bytes⟩, hbatch, h⟩ := exists_of_bind h
  dsimp only at h
  split at h
  · next first last hfirst hlast =>
    obtain ⟨rfl, rfl⟩ := h
    exact ⟨first, last, hdrop, hbatch, hfirst, hlast, rfl, rfl⟩
  · cases h

/-- **What the gateway accepts.**  Of a batch that the agent builds from its queue
under the limits of the gateway, the gateway accepts the number of records, the
size that the agent announces, the cursor and the order of the ids.  It accepts
the batch exactly when every access record has a site and the JSON of the records
fits. -/
theorem batch_accepted_iff {capacity first : Nat} {ops : List Action} {s t : State}
    {batch : AgentLogBatch} (hrun : run (step capacity) (opened first) ops = some s)
    (hoffer : offer advertised s = .ok (t, some batch)) :
    validateLogBatch batch = .ok () ↔
      (∀ r ∈ batch.records, ¬ SiteMissing r) ∧ jsonSize batch.records ≤ maxLogBatchBytes := by
  obtain ⟨head, last, hdrop, hbatch, hhead, hlast, hfirstID, hthrough⟩ := offer_eq_some hoffer
  have hinv := (inv_dropOversizedHead (inv_run hrun) hdrop).1
  have hgood : Good maxLogBatchRecords maxLogBatchBytes batch.records batch.bytes :=
    batchSized_good hinv (by decide) (by decide) hbatch
  have hpos := hgood.positive head (List.mem_of_mem_head? hhead)
  have hlimits : ¬ (batch.records.length > maxLogBatchRecords ∨ batch.bytes > maxLogBatchBytes) :=
    not_or.mpr ⟨not_lt.mpr hgood.length, not_lt.mpr hgood.size⟩
  have hcursor : ¬ (batch.firstID ≠ 0 ∧ batch.firstID ≠ head.id ∨ batch.through ≠ last.id) := by
    rw [hfirstID, hthrough]
    simp
  unfold validateLogBatch
  rw [hhead, hlast]
  dsimp only
  rw [if_neg hlimits, if_neg (ne_of_gt hpos), if_neg hcursor,
    validateRecords_iff hgood.encodes hgood.increasing (by simp) (Nat.zero_le _), Nat.zero_add]

/-- What is offered in a state, if anything is. -/
def offered (s : State) : Option AgentLogBatch :=
  match offer advertised s with
  | .ok (_, batch) => batch
  | .error _ => none

/-- What is offered is sent. -/
theorem offer_of_offered {s : State} {batch : AgentLogBatch} (h : offered s = some batch) :
    ∃ t, offer advertised s = .ok (t, some batch) := by
  unfold offered at h
  split at h
  · subst h
    exact ⟨_, ‹_›⟩
  · cases h

/-- Three records are offered together and accepted. -/
theorem batch_accepted_iff_sampleRun :
    ∃ s t batch, run (step 200) (opened 0) (sampleRun.take 1) = some s ∧
      offer advertised s = .ok (t, some batch) ∧ batch.records.length = 3 ∧
      validateLogBatch batch = .ok () := by
  have hends : ∃ s, run (step 200) (opened 0) (sampleRun.take 1) = some s ∧
      ∃ batch ∈ offered s, batch.records.length = 3 ∧
        (∀ r ∈ batch.records, ¬ SiteMissing r) ∧ jsonSize batch.records ≤ 400 := by
    apply ends_of_any
    decide +kernel
  obtain ⟨s, hs, batch, hoffered, hlength, hsites, hsize⟩ := hends
  obtain ⟨t, hoffer⟩ := offer_of_offered hoffered
  exact ⟨s, t, batch, hs, hoffer, hlength,
    (batch_accepted_iff hs hoffer).mpr ⟨hsites, le_trans hsize (by decide)⟩⟩

/-- The limits that both sides use are the same. -/
theorem advertised_eq : advertised = ⟨maxLogBatchRecords, maxLogBatchBytes⟩ := rfl

variable {r : LogRecord} {now : Int}

/-- A walk through the chunk of one record. -/
theorem visit_single {σ : Type} {visit : σ → Nat → GoString → Except Fault (σ × Bool)}
    (h : Accepted r) (hsize : (encodeLogEnvelope r now).length < 2 ^ 32) (c : σ)
    (result : σ × Bool) (hvisit : visit c 0 (encodeLogEnvelope r now) = .ok result) :
    visitLogChunk visit (encodeChunk now [r]) c = .ok result.1 := by
  have hframed : encodeChunk now [r] = [logChunkVersion] ++
      BigEndian.put 4 [encodeLogEnvelope r now].length ++ framed [encodeLogEnvelope r now] :=
    encodeChunk_framed (List.forall_mem_singleton.mpr h)
  rw [hframed, visitLogChunk_framed (List.cons_ne_nil _ _) (by simp)
    (List.forall_mem_singleton.mpr (sized_iff.mpr hsize)), visitAll, hvisit]
  simp only [bind, Except.bind, visitAll, ite_self]

theorem offer_single (h : Accepted r)
    (hsize : (encodeLogEnvelope r now).length + 4 ≤ maxLogBatchBytes) :
    offer advertised (single r now) = .ok (single r now,
      some ⟨1, 1, (encodeLogEnvelope r now).length + 4, [r.decoded now 1]⟩) := by
  have hsmall : (encodeLogEnvelope r now).length < 2 ^ 32 := by
    have : maxLogBatchBytes < 2 ^ 32 := by decide
    omega
  have hoversized : oversizedLogChunkHead (encodeChunk now [r]) maxLogBatchBytes = .ok 0 :=
    visit_single h hsmall 0 (0, false) (by rw [if_pos hsize])
  have hdrop : dropOversizedHead (single r now) maxLogBatchBytes = .ok (single r now) := by
    obtain ⟨fuel, hfuel⟩ : ∃ fuel, size (single r now).bucket = fuel + 1 :=
      ⟨_, (length_encodeChunk now [r]).trans (Nat.add_comm 5 _)⟩
    rw [dropOversizedHead, if_neg (by decide), hfuel, single, dropLoop, hoversized]
    rfl
  have hvisit : batchVisit maxLogBatchRecords maxLogBatchBytes 1 ⟨[], 0, false⟩ 0
      (encodeLogEnvelope r now) =
      .ok (⟨[r.decoded now 1], (encodeLogEnvelope r now).length + 4, false⟩, true) := by
    have hroom : ¬ (maxLogBatchRecords ≤ ([] : List LogRecord).length ∨
        0 < maxLogBatchBytes ∧ 0 + ((encodeLogEnvelope r now).length + 4) > maxLogBatchBytes) := by
      rw [Nat.zero_add]
      exact not_or.mpr ⟨by decide, fun hfull => absurd hfull.2 (not_lt.mpr hsize)⟩
    rw [batchVisit, if_neg hroom, decodeLogEnvelope_encode h.fits h.valid, Nat.zero_add]
    rfl
  have hbatch : batchSized (single r now) maxLogBatchRecords maxLogBatchBytes =
      .ok ([r.decoded now 1], (encodeLogEnvelope r now).length + 4) := by
    rw [batchSized, if_neg (by decide), Int.toNat_natCast, single, batchLoop, if_neg (by decide),
      visit_single h hsmall _ _ hvisit]
    rfl
  rw [offer, advertised_eq]
  simp only [bind, Except.bind, hdrop, hbatch]
  rfl

/-- The JSON of a record with a payload of `n + 1` digits. -/
theorem marshal_digits {n : Nat} {digits : GoString} (hlength : digits.length = n)
    (hdigits : ∀ d ∈ digits, GoJson.isDigit d) :
    ∃ encoded, marshal ⟨1, lit "access", lit "site", 1, 0, 0x31 :: digits⟩ = some encoded ∧
      n + 100 ≤ encoded.length := by
  have htime : marshalTime 0 = some (lit "\"1970-01-01T00:00:00Z\"") := by decide +kernel
  have hpayload : marshalPayload (0x31 :: digits) = some (0x31 :: digits) := by
    rw [marshalPayload, if_neg (List.cons_ne_nil _ _)]
    exact GoJson.compact_digits rfl rfl hdigits
  have hhead : 99 ≤ (marshalHead 1 (lit "access") (lit "site") 1
      (lit "\"1970-01-01T00:00:00Z\"")).length := by
    decide +kernel
  refine ⟨_, by rw [marshal, htime, hpayload]; rfl, ?_⟩
  rw [List.length_append, List.length_append, List.length_cons, hlength]
  dsimp only
  omega

/-- A record of 4 MiB fits for the agent, which counts its envelope.  Its JSON is
longer, so that the gateway rejects the batch; the queue stays as it is and the
agent sends the batch again. -/
theorem long_batch_rejected :
    ∃ ops s batch, run (step (2 ^ 31)) (opened 0) ops = some s ∧
      offer advertised s = .ok (s, some batch) ∧
      validateLogBatch batch = .error .exceedsLimits ∧ exchange advertised s = .ok s := by
  obtain ⟨digits, hlength, hdigits⟩ := GoJson.exists_digits (4 * 2 ^ 20 - 40)
  have haccepted : Accepted ⟨0, lit "access", lit "site", 1, 0, 0x31 :: digits⟩ := by
    refine ⟨List.cons_ne_nil _ _, GoJson.valid_digits rfl hdigits, ?_, ?_, ?_⟩
    · exact (by decide : (lit "access").length < 2 ^ 16)
    · exact (by decide : (lit "site").length < 2 ^ 16)
    · show digits.length + 1 < 2 ^ 32
      omega
  have hsize : (encodeLogEnvelope ⟨0, lit "access", lit "site", 1, 0, 0x31 :: digits⟩ 0).length =
      4 * 2 ^ 20 - 4 := by
    rw [length_encodeLogEnvelope]
    show 25 + 6 + 4 + (digits.length + 1) = _
    omega
  have hoffer := offer_single haccepted (show _ + 4 ≤ maxLogBatchBytes by rw [hsize]; decide)
  obtain ⟨encoded, hencoded, hlong⟩ := marshal_digits hlength hdigits
  have hdecoded : (⟨0, lit "access", lit "site", 1, 0, 0x31 :: digits⟩ : LogRecord).decoded 0 1 =
      ⟨1, lit "access", lit "site", 1, 0, 0x31 :: digits⟩ := rfl
  rw [hdecoded, hsize] at hoffer
  have hrejected : validateLogBatch ⟨1, 1, 4 * 2 ^ 20 - 4 + 4,
      [⟨1, lit "access", lit "site", 1, 0, 0x31 :: digits⟩]⟩ = .error .exceedsLimits := by
    have hfull : 0 + encoded.length > maxLogBatchBytes := by
      unfold maxLogBatchBytes
      omega
    have hsite : ¬ SiteMissing ⟨1, lit "access", lit "site", 1, 0, 0x31 :: digits⟩ :=
      fun hmissing => absurd hmissing.2 (by decide : lit "site" ≠ [])
    unfold validateLogBatch
    dsimp only [List.head?_cons, List.getLast?_singleton, List.length_singleton]
    rw [if_neg (by decide), if_neg (by decide), if_neg (by decide), validateRecords, if_neg hsite,
      hencoded]
    dsimp only
    rw [if_pos hfull]
  refine ⟨[.append [⟨0, lit "access", lit "site", 1, 0, 0x31 :: digits⟩] 0], _, _, ?_, hoffer,
    hrejected, ?_⟩
  · have happend : appendBatch (2 ^ 31) (opened 0)
        [⟨0, lit "access", lit "site", 1, 0, 0x31 :: digits⟩] 0 = .ok _ :=
      appendBatch_single haccepted (by rw [hsize]; decide)
    simp only [run, step, apply, happend, bind_some]
  · rw [exchange, hoffer]
    simp only [bind, Except.bind, hrejected]

end LogBatches
