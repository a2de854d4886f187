import GovetoEdge.JobQueue

/-!
# Publishing a site

A publish request builds a configuration of a site and leaves it in the database
as a snapshot, with a job that is to send it to the nodes.  A job that only some
of the nodes accept takes its configuration back: it reserves a newer version
with the previous configuration, moves the jobs behind it to versions newer
still, and sends the reserved version to the nodes that had accepted.

The model is of one site.  One step is one statement or one transaction, with
one exception: `EnqueueIdempotentDetailed` runs at the isolation level `READ
COMMITTED` and reads the row of the site before everything else, so this reading
is a step of its own.  After it nothing that the transaction reads can change
under it: the jobs that wait are locked, and versions are given out only under
the lock of the site.

* A configuration is given by what `samePublishRequest` compares: its content
  without the version and without the envelopes of its secrets.
* The queue's columns of a job are a row of `JobQueue`, and what the queue does
  to them is what it does there.  Times are arguments of the steps.
* The nodes answer as they like: their answers are an argument.  So is whether a
  statement fails, and whether it took effect when it seemed to fail.
* The rows of `node_site_config_versions` are written only and left out, as are
  the reports of a job.

`dispatched` is not in the database: it says what was sent to nodes.
-/

namespace Publisher

open GoStrings SqlTables
open JobQueue (WorkerId Lease Status Phase)

abbrev NodeId := GoString

/-- `ConfigStatus`. -/
inductive ConfigStatus
  | draft
  | published
  | failed
  | rolledBack
deriving DecidableEq

/-- A row of `config_versions`. -/
structure Snapshot (κ : Type) where
  version : Int
  config : κ
  status : ConfigStatus
  createdAt : Int
deriving DecidableEq

/-- `rollbackPlan`, without the results that it reports. -/
structure Plan where
  version : Int
  targets : List NodeId
deriving DecidableEq

/-- A row of `publish_jobs`; `plan` is what `compensation_json` holds. -/
structure Job where
  row : JobQueue.Job
  version : Int
  targets : List NodeId
  idempotencyKey : Option GoString
  plan : Option Plan
  createdAt : Int
deriving DecidableEq

/-- The rows of a site. -/
structure Tables (κ : Type) where
  siteVersion : Int
  snapshots : List (Snapshot κ)
  jobs : List Job

def Job.id (j : Job) : GoString := j.row.id

def Job.attempts (j : Job) : Nat := j.row.attempts

/-- `status IN ('PENDING', 'RUNNING')`. -/
def Job.active (j : Job) : Prop := j.row.status = .pending ∨ j.row.status = .running

instance (j : Job) : Decidable j.active := by
  unfold Job.active
  infer_instance

/-- `cancel_requested_at IS NOT NULL`. -/
def Job.cancelled (j : Job) : Bool := j.row.cancelRequestedAt.isSome

/-- All rows are of one site. -/
def siteID : GoString := lit "site"

/-- The row with the columns that only publish jobs have. -/
def Job.queueRow (j : Job) : JobQueue.Job := { j.row with site := some (siteID, j.version) }

/-- `restorableConfigStatus`. -/
def ConfigStatus.restorable : ConfigStatus → Bool
  | published => true
  | rolledBack => true
  | draft => false
  | failed => false

variable {κ : Type}

/-- The snapshot of a version. -/
def Tables.snapshot (t : Tables κ) (version : Int) : Option (Snapshot κ) :=
  t.snapshots.find? fun x => x.version = version

/-- `ORDER BY version DESC LIMIT 1`. -/
def newestSnapshot (snapshots : List (Snapshot κ)) : Option (Snapshot κ) :=
  @List.argmax _ _ Int.instLinearOrder.toPreorder inferInstance Snapshot.version snapshots

/-- `ORDER BY created_at DESC LIMIT 1`. -/
def newestJob (jobs : List Job) : Option Job :=
  @List.argmax _ _ Int.instLinearOrder.toPreorder inferInstance Job.createdAt jobs

/-- The statement that gives a status to the snapshot of a version. -/
def Tables.mark (t : Tables κ) (version : Int) (status : ConfigStatus) : Tables κ :=
  { t with
    snapshots := update (fun x : Snapshot κ => x.version = version)
      (fun x => { x with status := status }) t.snapshots }

/-- What becomes of a request. -/
inductive EnqueueMode
  | created
  | pendingUpdated
  | runningReused
  | currentReused
  | idempotentReused
deriving DecidableEq

/-- A request with what it built, the identifier and the time of its transaction,
and whether the snapshot that it is compared with can be unsealed. -/
structure Request (κ : Type) where
  config : κ
  targets : List NodeId
  key : Option GoString
  id : GoString
  now : Int
  readable : Bool

/-- `nextPublishVersion`. -/
def nextPublishVersion (siteVersion : Int) (pending : Option Job)
    (latest : Option (Snapshot κ)) : Int :=
  match pending with
  | some j => j.version
  | none =>
    match latest with
    | some x => if siteVersion + 1 ≤ x.version then x.version + 1 else siteVersion + 1
    | none => siteVersion + 1

/-- `sameTargetSet`: no node is on the right more often than on the left. -/
def sameTargetSet (left right : List NodeId) : Bool :=
  left.length = right.length ∧ ∀ n ∈ right, right.count n ≤ left.count n

/-- `samePublishRequest`. -/
def samePublishRequest [DecidableEq κ] (q : Request κ) (existing : Snapshot κ) (j : Job) : Bool :=
  q.readable ∧ q.config = existing.config ∧ sameTargetSet q.targets j.targets

/-- `canCoalesceIdempotencyKey`. -/
def canCoalesceIdempotencyKey (j : Job) (key : Option GoString) : Bool :=
  key = none ∨ j.idempotencyKey = none ∨ j.idempotencyKey = key

/-- The job that the request may still change. -/
def pendingJob (t : Tables κ) : Option Job :=
  newestJob (t.jobs.filter fun j => j.row.status = .pending ∧ j.attempts = 0 ∧ j.plan = none)

/-- The job that the request may attach to. -/
def runningJob (t : Tables κ) : Option Job :=
  newestJob (t.jobs.filter fun j => j.active ∧ j.plan = none)

/-- The job that published the version of the site. -/
def currentJob (t : Tables κ) (siteVersion : Int) : Option Job :=
  newestJob (t.jobs.filter fun j => j.version = siteVersion ∧ j.row.status = .succeeded)

/-- The running job has what the request asks for. -/
def sameAsRunning [DecidableEq κ] (t : Tables κ) (q : Request κ) (j : Job) : Bool :=
  canCoalesceIdempotencyKey j q.key ∧
    (t.snapshot j.version).any fun existing => samePublishRequest q existing j

/-- The version of the site has what the request asks for. -/
def sameAsCurrent [DecidableEq κ] (t : Tables κ) (siteVersion : Int) (q : Request κ) : Bool :=
  0 < siteVersion ∧
    (t.snapshots.find? fun x => x.version = siteVersion ∧ x.status = .published).any fun existing =>
      (currentJob t siteVersion).any fun j => samePublishRequest q existing j

/-- Give a job a key if it has none. -/
def Job.withKey (j : Job) (key : Option GoString) : Job :=
  { j with idempotencyKey := j.idempotencyKey <|> key }

/-- A job without an idempotency key gets one. -/
def setKey (t : Tables κ) (id : GoString) (key : Option GoString) : Tables κ :=
  { t with jobs := update (fun j : Job => j.id = id) (fun j => j.withKey key) t.jobs }

/-- The request takes the place of what the job had. -/
def coalesce (t : Tables κ) (pending : Job) (q : Request κ) : Tables κ :=
  { t with
    snapshots := update (fun x : Snapshot κ => x.version = pending.version ∧ x.status = .draft)
      (fun x => { x with config := q.config }) t.snapshots
    jobs := update (fun j : Job => j.id = pending.id ∧ j.row.status = .pending)
      (fun j => { j.withKey q.key with targets := q.targets }) t.jobs }

/-- The row of a new job. -/
def newJob (q : Request κ) (version : Int) : Job where
  row := {
    id := q.id, site := none, status := .pending, attempts := 0, maxAttempts := 3
    nextAttemptAt := q.now, leaseOwner := none, leaseUntil := none, cancelRequestedAt := none
    timeoutAt := none, resultJson := none, compensationJson := none, error := none }
  version := version
  targets := q.targets
  idempotencyKey := q.key
  plan := none
  createdAt := q.now

/-- A snapshot and its job. -/
def create (t : Tables κ) (siteVersion : Int) (q : Request κ) : Tables κ :=
  let version := nextPublishVersion siteVersion none (newestSnapshot t.snapshots)
  { t with
    snapshots := t.snapshots ++ [⟨version, q.config, .draft, q.now⟩]
    jobs := t.jobs ++ [newJob q version] }

/-- `EnqueueIdempotentDetailed` behind the reading of the site's row; the
identifier of a job is the primary key. -/
def enqueue [DecidableEq κ] (t : Tables κ) (siteVersion : Int) (q : Request κ) :
    Option (Tables κ × EnqueueMode) :=
  if q.key.isSome ∧ ∃ j ∈ t.jobs, j.idempotencyKey = q.key then some (t, .idempotentReused)
  else if ∃ j ∈ t.jobs, j.id = q.id then none
  else
    match pendingJob t with
    | some pending => some (coalesce t pending q, .pendingUpdated)
    | none =>
      match runningJob t with
      | some running =>
        if sameAsRunning t q running then some (setKey t running.id q.key, .runningReused)
        else some (create t siteVersion q, .created)
      | none =>
        if sameAsCurrent t siteVersion q then some (t, .currentReused)
        else some (create t siteVersion q, .created)

/-- The configuration that a rollback restores. -/
def baseline (t : Tables κ) (version : Int) : Option (Snapshot κ) :=
  newestSnapshot (t.snapshots.filter fun x => x.status.restorable ∧ x.version < version)

/-- The jobs that follow a version, oldest first. -/
def queued (t : Tables κ) (version : Int) : List Job :=
  (t.jobs.filter fun j => j.active ∧ version < j.version).mergeSort fun j k => j.version ≤ k.version

/-- The copies of the snapshots of queued jobs, numbered from a version on. -/
def copies (t : Tables κ) (now : Int) : Int → List Job → Option (List (Snapshot κ))
  | _, [] => some []
  | version, j :: jobs => do
    let old ← t.snapshot j.version
    let rest ← copies t now (version + 1) jobs
    some (⟨version, old.config, .draft, now⟩ :: rest)

/-- A job with its new version, if it is one of the queued jobs. -/
def renumber : Int → List Job → Job → Job
  | _, [], j => j
  | version, k :: jobs, j =>
    if k.id = j.id then { j with version := version } else renumber (version + 1) jobs j

/-- `reserveRollback`; a previous configuration that cannot be read is replaced
by one that disables the site. -/
def reserveRollback (tombstone : κ) (t : Tables κ) (job : Job) (targets : List NodeId) (now : Int)
    (readable : Bool) : Option (Tables κ × Plan) :=
  let version := nextPublishVersion job.version none (newestSnapshot t.snapshots)
  let previous := if readable then (baseline t job.version).map Snapshot.config else none
  let jobs := queued t job.version
  (copies t now (version + 1) jobs).map fun rows =>
    ({ t with
      snapshots :=
        update (fun x : Snapshot κ => ∃ j ∈ jobs, j.version = x.version)
          (fun x => { x with status := .failed }) t.snapshots ++
        ⟨version, previous.getD tombstone, .draft, now⟩ :: rows
      jobs := update (fun j : Job => j.id = job.id)
        (fun j => { j with plan := some ⟨version, targets⟩ })
        (t.jobs.map (renumber (version + 1) jobs)) },
      ⟨version, targets⟩)

/-- `jobqueue.Outcome`, without the result that it reports. -/
structure Outcome where
  compensation : Option Plan
  err : Option GoString
  retryable : Bool
  requeueAfter : Int
deriving DecidableEq

/-- The outcome as the queue records it. -/
def Outcome.toQueue (o : Outcome) : JobQueue.Outcome :=
  ⟨none, none, o.err, o.retryable, 0, o.requeueAfter⟩

/-- `publishOutcome` with an error. -/
def failure (message : GoString) (retryable : Bool) : Outcome := ⟨none, some message, retryable, 0⟩

/-- The same once a rollback is reserved: the plan goes with the outcome. -/
def rollbackFailure (plan : Plan) (message : GoString) (retryable : Bool) : Outcome :=
  ⟨some plan, some message, retryable, 0⟩

/-- Where `executeLocked` and `finishRollback` stand, by what comes next. -/
inductive Stage
  | load
  | answers
  | recordSite
  | markPublished
  | recordNodes
  | markRejected (message : GoString)
  | reserve (succeeded : List NodeId)
  | loadRollback (plan : Plan)
  | rollbackAnswers (plan : Plan)
  | markFailed (plan : Plan) (complete : Bool)
  | markRollback (plan : Plan) (complete : Bool)
  | recordRollback (plan : Plan)
  | recordRolledBackNodes (plan : Plan) (complete : Bool)
  | ended (outcome : Outcome)
deriving DecidableEq

/-- What an execution is told. -/
inductive Input
  | ok
  | fails (message : GoString)
  /-- the statement took effect, and its answer was lost -/
  | lost (message : GoString)
  /-- the stored configuration cannot be unsealed -/
  | unreadable (message : GoString)
  /-- the error of each node that did not accept -/
  | answers (errors : NodeId → Option GoString)
  /-- the rollback is reserved, at a time, with the previous configuration if it
  could be read; the error if the answer was lost -/
  | reserved (now : Int) (readable : Bool) (error : Option GoString)

/-- What an execution does: the tables, the next stage, and what it sends. -/
structure Progress (κ : Type) where
  tables : Tables κ
  stage : Stage
  sent : Option (Int × κ)

/-- A statement that writes. -/
def writes (t t' : Tables κ) (next : Stage) (failed : GoString → Outcome) :
    Input → Option (Progress κ)
  | .ok => some ⟨t', next, none⟩
  | .fails message => some ⟨t, .ended (failed message), none⟩
  | .lost message => some ⟨t', .ended (failed message), none⟩
  | _ => none

/-- A snapshot is loaded and sent. -/
def sends (t : Tables κ) (version : Int) (next : Stage) (missing : Outcome)
    (failed unreadable : GoString → Outcome) : Input → Option (Progress κ)
  | .ok =>
    match t.snapshot version with
    | some x => some ⟨t, next, some (version, x.config)⟩
    | none => some ⟨t, .ended missing, none⟩
  | .fails message => some ⟨t, .ended (failed message), none⟩
  | .unreadable message => some ⟨t, .ended (unreadable message), none⟩
  | _ => none

/-- `allTargetsRejectedError`. -/
def allTargetsRejected (failed : List (NodeId × GoString)) : GoString :=
  let details := (failed.take 3).map fun (node, error) =>
    lit "node " ++ node ++ lit ": " ++ (if error = [] then lit "unknown error" else error)
  lit "all nodes rejected the configuration" ++
    (if details = [] then [] else lit ": " ++ join details (lit "; ")) ++
    (if 3 < failed.length then lit "; and " ++ itoa (failed.length - 3) ++ lit " more" else [])

/-- The stage behind the answers of the nodes. -/
def afterAnswers (targets : List NodeId) (errors : NodeId → Option GoString) : Stage :=
  let failed := targets.filterMap fun n => (errors n).map fun e => (n, e)
  let succeeded := targets.filter fun n => errors n = none
  if failed = [] then .recordSite
  else if succeeded = [] then .markRejected (allTargetsRejected failed)
  else .reserve succeeded

def rolledBackMessage (complete : Bool) : GoString :=
  if complete then
    lit "one or more nodes rejected the configuration; successful nodes were rolled back"
  else lit "one or more nodes rejected the configuration; rollback was incomplete"

/-- `executeLocked` and `finishRollback`, by one statement. -/
def advance (tombstone : κ) (t : Tables κ) (job : Job) :
    Stage → Input → Option (Progress κ)
  | .load, input =>
    sends t job.version .answers (failure (lit "publish config version not found") false)
      (failure · true) (failure · false) input
  | .answers, .answers errors => some ⟨t, afterAnswers job.targets errors, none⟩
  | .recordSite, input =>
    writes t { t with siteVersion := job.version } .markPublished (failure · true) input
  | .markPublished, input =>
    writes t (t.mark job.version .published) .recordNodes (failure · true) input
  | .recordNodes, input => writes t t (.ended ⟨none, none, false, 0⟩) (failure · true) input
  | .markRejected message, input =>
    writes t (t.mark job.version .failed) (.ended (failure message false)) (failure · true) input
  | .reserve succeeded, .reserved now readable error =>
    (reserveRollback tombstone t job succeeded now readable).map fun (t', plan) =>
      ⟨t', match error with
        | none => .loadRollback plan
        | some message => .ended (failure message true), none⟩
  | .reserve _, .fails message => some ⟨t, .ended (failure message true), none⟩
  | .loadRollback plan, input =>
    sends t plan.version (.rollbackAnswers plan)
      (rollbackFailure plan (lit "reserved rollback snapshot not found") true)
      (rollbackFailure plan · true) (rollbackFailure plan · false) input
  | .rollbackAnswers plan, .answers errors =>
    some ⟨t, .markFailed plan (plan.targets.all fun n => errors n = none), none⟩
  | .markFailed plan complete, input =>
    writes t (t.mark job.version .failed) (.markRollback plan complete)
      (rollbackFailure plan · true) input
  | .markRollback plan complete, input =>
    writes t (t.mark plan.version (if complete then .rolledBack else .failed))
      (if complete then .recordRollback plan else .recordRolledBackNodes plan complete)
      (rollbackFailure plan · true) input
  | .recordRollback plan, input =>
    writes t { t with siteVersion := plan.version } (.recordRolledBackNodes plan true)
      (rollbackFailure plan · true) input
  | .recordRolledBackNodes plan complete, input =>
    writes t t (.ended (rollbackFailure plan (rolledBackMessage complete) false))
      (rollbackFailure plan · true) input
  | _, _ => none

/-- A worker that has claimed a job; the outcome once its handler has returned. -/
structure Run where
  lease : Lease
  outcome : Option Outcome
deriving DecidableEq

/-- The worker that holds the execution lock of the site, with the job as it was
read under the lock. -/
structure Execution where
  worker : WorkerId
  lease : Lease
  job : Job
  stage : Stage
deriving DecidableEq

/-- A configuration was sent to nodes. -/
structure Dispatch (κ : Type) where
  job : GoString
  attempt : Nat
  version : Int
  config : κ
  /-- the job was to be cancelled when the execution began -/
  cancelled : Bool

/-- The tables, the lock, the workers, and the log of what was sent. -/
structure State (κ : Type) where
  tables : Tables κ
  /-- the version of the site that a request under way has read -/
  reading : Option Int
  runs : WorkerId → Option Run
  lock : Option Execution
  dispatched : List (Dispatch κ)

/-- A new site. -/
def init (κ : Type) (version : Nat) : State κ :=
  ⟨⟨version, [], []⟩, none, fun _ => none, none, []⟩

/-- One worker goes on. -/
def State.setRun (s : State κ) (worker : WorkerId) (r : Option Run) : State κ :=
  { s with runs := fun w => if w = worker then r else s.runs w }

def State.setJobs (s : State κ) (jobs : List Job) : State κ :=
  { s with tables := { s.tables with jobs := jobs } }

/-- The worker has nothing to do. -/
def State.free (s : State κ) (worker : WorkerId) : Prop :=
  s.runs worker = none ∧ ∀ x ∈ s.lock, x.worker ≠ worker

instance (s : State κ) (worker : WorkerId) : Decidable (s.free worker) := by
  unfold State.free
  infer_instance

/-- The deadline of a publication. -/
def publishTimeout : Int := 15 * 60 * second

/-- `claim`, of the job that is picked. -/
def claim (s : State κ) (worker : WorkerId) (id : GoString) (now : Int) : Option (State κ) :=
  if s.free worker then
    (s.tables.jobs.find? fun j =>
      j.id = id ∧ j.queueRow.claimable (s.tables.jobs.map Job.queueRow) now).map fun j =>
      let row := j.row.claimed worker now publishTimeout
      (s.setJobs (update (fun j : Job => j.id = id) (fun j => { j with row := row })
        s.tables.jobs)).setRun worker
          (some ⟨⟨id, row.attempts, row.maxAttempts, row.timeoutAt,
            now + JobQueue.defaultLease⟩, none⟩)
  else none

/-- The lease that a worker runs under. -/
def State.lease (s : State κ) (worker : WorkerId) : Option Lease :=
  match s.lock with
  | some x => if x.worker = worker then some x.lease else (s.runs worker).map Run.lease
  | none => (s.runs worker).map Run.lease

/-- `renew`. -/
def renew (s : State κ) (worker : WorkerId) (now : Int) : Option (State κ) :=
  (s.lease worker).map fun lease =>
    s.setJobs (update (fun j : Job => j.row.fenced worker lease)
      (fun j => { j with row := { j.row with leaseUntil := some (now + JobQueue.defaultLease) } })
      s.tables.jobs)

/-- The handler of a worker that waits returns. -/
def returns (s : State κ) (worker : WorkerId) (outcome : Outcome) : Option (State κ) :=
  match s.runs worker with
  | some ⟨lease, none⟩ => some (s.setRun worker (some ⟨lease, some outcome⟩))
  | _ => none

/-- Where an execution of a job begins. -/
def firstStage (j : Job) : Stage :=
  match j.plan with
  | some plan => if 0 < plan.version then .loadRollback plan else .load
  | none => .load

/-- `execute` gets the lock and reads the job again. -/
def begin (s : State κ) (worker : WorkerId) : Option (State κ) :=
  match s.lock, s.runs worker with
  | none, some ⟨lease, none⟩ =>
    (s.tables.jobs.find? fun j => j.id = lease.id).map fun j =>
      { (s.setRun worker none) with lock := some ⟨worker, lease, j, firstStage j⟩ }
  | _, _ => none

/-- The execution under the lock goes on. -/
def work (tombstone : κ) (s : State κ) (input : Input) : Option (State κ) :=
  s.lock.bind fun x =>
    (advance tombstone s.tables x.job x.stage input).map fun p =>
      { s with
        tables := p.tables
        lock := some { x with stage := p.stage }
        dispatched := s.dispatched ++ p.sent.toList.map fun (version, config) =>
          ⟨x.job.id, x.lease.attempt, version, config, x.job.cancelled⟩ }

/-- The transaction of the lock ends; an outcome without a plan is replaced when
the commit fails. -/
def release (s : State κ) (error : Option GoString) : Option (State κ) :=
  match s.lock with
  | some ⟨worker, lease, _, .ended outcome⟩ =>
    let outcome := match error with
      | none => outcome
      | some message =>
        if outcome.compensation.isSome then
          { outcome with err := some message, retryable := true }
        else failure message true
    some ({ s with lock := none }.setRun worker (some ⟨lease, some outcome⟩))
  | _ => none

/-- The row of a job that is finished. -/
def Job.finished (now : Int) (lease : Lease) (outcome : Outcome) (j : Job) : Job :=
  { j with
    row := j.row.finished (JobQueue.outcomeDecision now lease outcome.toQueue) outcome.toQueue
    plan := outcome.compensation <|> j.plan }

/-- `finish`; with a stale lease nothing is written. -/
def finish (s : State κ) (worker : WorkerId) (now : Int) : Option (State κ) :=
  match s.runs worker with
  | some ⟨lease, some outcome⟩ =>
    some ((s.setJobs (update (fun j : Job => j.row.fenced worker lease)
      (Job.finished now lease outcome) s.tables.jobs)).setRun worker none)
  | _ => none

/-- The worker is gone: it crashed, is shut down, or knows its lease to be lost. -/
def abandon (s : State κ) (worker : WorkerId) : State κ :=
  { (s.setRun worker none) with
    lock := s.lock.filter fun x => x.worker ≠ worker }

/-- `Cancel`. -/
def cancel (s : State κ) (id : GoString) (now : Int) : State κ :=
  s.setJobs (update (fun j : Job => j.id = id ∧ j.active)
    (fun j => { j with row := { j.row with
      cancelRequestedAt := some now
      status := if j.row.status = .pending then .cancelled else j.row.status } }) s.tables.jobs)

/-- A pair of statements of `sweep`. -/
def sweep (s : State κ) (phase : Phase) (now : Int) : State κ :=
  s.setJobs (update (fun j : Job => phase.concerns now j.row ∧ j.row.sweepable now)
    (fun j => { j with row := { j.row with
      status := phase.status, error := j.row.error <|> some phase.message
      leaseOwner := none, leaseUntil := none } }) s.tables.jobs)

/-- The steps of requests and workers. -/
inductive Action (κ : Type)
  /-- a request takes the lock of the site and reads its row -/
  | readSite
  | enqueue (q : Request κ)
  | enqueueFails
  | claim (worker : WorkerId) (id : GoString) (now : Int)
  | renew (worker : WorkerId) (now : Int)
  /-- the job could not be read, or the lock not asked for -/
  | fail (worker : WorkerId) (message : GoString)
  /-- another worker has the lock -/
  | contend (worker : WorkerId)
  | begin (worker : WorkerId)
  | work (input : Input)
  | release (error : Option GoString)
  | finish (worker : WorkerId) (now : Int)
  | abandon (worker : WorkerId)
  | cancel (id : GoString) (now : Int)
  | sweep (phase : Phase) (now : Int)

/-- The reservation of a rollback waits for the lock of the site. -/
def Input.enabled (s : State κ) : Input → Prop
  | .reserved _ _ _ => s.reading = none
  | _ => True

instance (s : State κ) (input : Input) : Decidable (input.enabled s) := by
  unfold Input.enabled
  split <;> infer_instance

/-- One step of the publisher. -/
def step [DecidableEq κ] (tombstone : κ) (s : State κ) : Action κ → Option (State κ)
  | .readSite =>
    if s.reading = none then some { s with reading := some s.tables.siteVersion } else none
  | .enqueue q =>
    s.reading.bind fun siteVersion =>
      (Publisher.enqueue s.tables siteVersion q).map fun (t, _) =>
        { s with tables := t, reading := none }
  | .enqueueFails => s.reading.map fun _ => { s with reading := none }
  | .claim worker id now => Publisher.claim s worker id now
  | .renew worker now => Publisher.renew s worker now
  | .fail worker message => returns s worker (failure message true)
  | .contend worker =>
    if s.lock.isSome then returns s worker ⟨none, none, false, second⟩ else none
  | .begin worker => Publisher.begin s worker
  | .work input => if input.enabled s then Publisher.work tombstone s input else none
  | .release error => Publisher.release s error
  | .finish worker now => Publisher.finish s worker now
  | .abandon worker => some (Publisher.abandon s worker)
  | .cancel id now => some (Publisher.cancel s id now)
  | .sweep phase now => some (Publisher.sweep s phase now)

end Publisher
