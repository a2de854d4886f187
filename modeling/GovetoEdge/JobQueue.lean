import GovetoEdge.GoStrings
import GovetoEdge.Runs
import GovetoEdge.SqlTables

/-!
# The job queue

Background jobs of one kind are rows of one table.  Managers in several
processes claim them under a lease, renew the lease while they work, and
finish the job in the end; expired, cancelled and worn-out jobs are swept.

One step of the model is one transaction, or one statement outside a
transaction, with two exceptions:

* `sweep` is a transaction of three pairs of statements that runs at the
  isolation level `READ COMMITTED`, so every statement sees what others have
  committed since the one before.  A pair is one step, and other steps come
  between the pairs.
* A manager works in the order of `RunOne`: it claims, renews as long as the
  handler works, and then finishes or gives up.  `State.held` is where it
  stands.

Of the statements that a manager sends, each is done before the manager goes
on.  Which of the claimable jobs a claim picks depends on the rows that others
have locked, so the step names it.  Times are nanoseconds.  The columns
`heartbeat_at` and `updated_at` are written only and left out.
-/

namespace JobQueue

open GoStrings SqlTables

/-- `JobStatus`. -/
inductive Status
  | pending
  | running
  | succeeded
  | failed
  | deadLetter
  | cancelled
deriving DecidableEq, Repr

/-- The job has ended. -/
def Status.terminal : Status → Bool
  | pending => false
  | running => false
  | succeeded => true
  | failed => true
  | deadLetter => true
  | cancelled => true

abbrev WorkerId := Nat

/-- A row of a job table; `site` is the site and the version of a publish job,
and of no other. -/
structure Job where
  id : GoString
  site : Option (GoString × Int)
  status : Status
  attempts : Nat
  maxAttempts : Nat
  nextAttemptAt : Int
  leaseOwner : Option WorkerId
  leaseUntil : Option Int
  cancelRequestedAt : Option Int
  timeoutAt : Option Int
  resultJson : Option GoString
  compensationJson : Option GoString
  error : Option GoString
deriving DecidableEq

/-- A row of `job_executions`, for the jobs of the kind. -/
structure Execution where
  id : Nat
  jobId : GoString
  attempt : Nat
  workerId : WorkerId
  status : Status
  resultJson : Option GoString
  error : Option GoString
deriving DecidableEq

/-- `Lease`. -/
structure Lease where
  id : GoString
  attempt : Nat
  maxAttempts : Nat
  timeoutAt : Option Int
  leaseUntil : Int
deriving DecidableEq

/-- `Outcome`; results are given as the JSON text that is stored, the error by
its message. -/
structure Outcome where
  result : Option GoString
  compensation : Option GoString
  err : Option GoString
  retryable : Bool
  retryAfter : Int
  requeueAfter : Int

/-- How long a lease lasts. -/
def defaultLease : Int := 45 * second

/-- The longest wait for a retry. -/
def maxBackoff : Int := 300 * second

/-- `backoff`. -/
def backoff (attempt : Nat) : Int := if 9 ≤ attempt then maxBackoff else second * 2 ^ attempt

/-- `fnv.New32a`. -/
def fnv32a (bytes : GoString) : UInt32 :=
  bytes.foldl (fun h b => (h ^^^ b.toUInt32) * 16777619) 2166136261

/-- `retryDelay`. -/
def retryDelay (lease : Lease) (override : Int) : Int :=
  let delay := if override ≤ 0 then backoff lease.attempt else override
  if lease.id = [] then delay
  else
    let hash := fnv32a (lease.id ++ [UInt8.ofNat lease.attempt])
    let jittered := (delay * (80 + (hash % 41).toNat)).tdiv 100
    if override ≤ 0 ∧ maxBackoff < jittered then maxBackoff else jittered

/-- What `outcomeDecision` returns. -/
structure Decision where
  status : Status
  nextAttempt : Int
  message : GoString
  requeue : Bool

/-- `outcomeDecision`. -/
def outcomeDecision (now : Int) (lease : Lease) (outcome : Outcome) : Decision :=
  let requeue := decide (0 < outcome.requeueAfter)
  let status := if requeue then .pending else .succeeded
  let nextAttempt := if requeue then now + outcome.requeueAfter else now
  match outcome.err with
  | none => ⟨status, nextAttempt, [], requeue⟩
  | some message =>
    if lease.timeoutAt.any (fun t => decide (t ≤ now)) && (outcome.retryable || requeue) then
      ⟨.deadLetter, nextAttempt, message, false⟩
    else if requeue then ⟨status, nextAttempt, message, true⟩
    else if outcome.retryable ∧ lease.attempt < lease.maxAttempts then
      ⟨.pending, nextAttempt + retryDelay lease outcome.retryAfter, message, false⟩
    else if outcome.retryable then ⟨.deadLetter, nextAttempt, message, false⟩
    else ⟨.failed, nextAttempt, message, false⟩

/-- `executionOutcomeStatus`. -/
def executionOutcomeStatus (jobStatus : Status) (outcome : Outcome) : Status :=
  if jobStatus = .pending ∧ outcome.err.isSome then .failed else jobStatus

/-- `nullableString`. -/
def nullableString (value : GoString) : Option GoString := if value = [] then none else some value

/-- The lease of a running job is over. -/
def Job.expired (now : Int) (j : Job) : Prop := ∀ t ∈ j.leaseUntil, t ≤ now

instance (now : Int) (j : Job) : Decidable (j.expired now) := by
  unfold Job.expired
  infer_instance

/-- `sweepableJobPredicate`. -/
def Job.sweepable (now : Int) (j : Job) : Prop :=
  j.status = .pending ∨ j.status = .running ∧ j.expired now

instance (now : Int) (j : Job) : Decidable (j.sweepable now) := by
  unfold Job.sweepable
  infer_instance

/-- An older version of the same site is still to be published. -/
def Job.blocks (older candidate : Job) : Prop :=
  match older.site, candidate.site with
  | some (site, version), some (site', version') =>
    site = site' ∧ version < version' ∧ older.cancelRequestedAt = none ∧
      (older.status = .pending ∨ older.status = .running)
  | _, _ => False

instance (older candidate : Job) : Decidable (older.blocks candidate) := by
  unfold Job.blocks
  split <;> infer_instance

/-- The condition of `claimSQL`. -/
def Job.claimable (jobs : List Job) (now : Int) (j : Job) : Prop :=
  j.cancelRequestedAt = none ∧ j.attempts < j.maxAttempts ∧ (∀ t ∈ j.timeoutAt, now < t) ∧
    (j.status = .pending ∧ j.nextAttemptAt ≤ now ∨ j.status = .running ∧ j.expired now) ∧
    ∀ older ∈ jobs, ¬ older.blocks j

instance (jobs : List Job) (now : Int) (j : Job) : Decidable (j.claimable jobs now) := by
  unfold Job.claimable
  infer_instance

/-- The row of a job after it was claimed. -/
def Job.claimed (worker : WorkerId) (now defaultTimeout : Int) (j : Job) : Job :=
  { j with
    status := .running
    attempts := j.attempts + 1
    leaseOwner := some worker
    leaseUntil := some (now + defaultLease)
    timeoutAt := j.timeoutAt <|> if 0 < defaultTimeout then some (now + defaultTimeout) else none }

/-- What a manager that runs a job knows of it.  `execution` is the row its
claim inserted; the manager never asks for it. -/
structure Held where
  lease : Lease
  execution : Nat
deriving DecidableEq

/-- The statements of a sweep that are still to come, from the first pair. -/
inductive Phase
  | cancelRequested
  | deadlineExpired
  | attemptsExceeded
deriving DecidableEq

/-- The tables, the managers, and the sweep that holds the advisory lock. -/
structure State where
  jobs : List Job
  executions : List Execution
  held : WorkerId → Option Held
  sweep : Option (Int × Phase)

/-- No jobs. -/
def init : State := ⟨[], [], fun _ => none, none⟩

/-- Insert a job; the identifier is the primary key. -/
def enqueue (s : State) (id : GoString) (site : Option (GoString × Int)) (maxAttempts : Nat)
    (now : Int) : Option State :=
  if id ∈ s.jobs.map Job.id then none
  else
    some { s with
      jobs := s.jobs ++ [{
        id := id, site := site, status := .pending, attempts := 0, maxAttempts := maxAttempts
        nextAttemptAt := now, leaseOwner := none, leaseUntil := none, cancelRequestedAt := none
        timeoutAt := none, resultJson := none, compensationJson := none, error := none }] }

/-- Set what a manager runs. -/
def State.setHeld (s : State) (worker : WorkerId) (h : Option Held) : State :=
  { s with held := fun w => if w = worker then h else s.held w }

/-- The rows of `job_executions` in a claim: older rows of the job that still
run have lost their lease. -/
def claimExecutions (executions : List Execution) (j : Job) (worker : WorkerId) :
    List Execution :=
  update (fun e : Execution => e.jobId = j.id ∧ e.status = .running ∧ e.attempt < j.attempts)
      (fun e => { e with
        status := .failed, error := e.error <|> some (lit "worker lease expired") }) executions ++
    [⟨executions.length, j.id, j.attempts, worker, .running, none, none⟩]

/-- `claim`, of the job that is picked. -/
def claim (s : State) (worker : WorkerId) (id : GoString) (now defaultTimeout : Int) :
    Option State :=
  match s.held worker, s.jobs.find? fun j => j.id = id ∧ j.claimable s.jobs now with
  | none, some j =>
    let claimed := j.claimed worker now defaultTimeout
    some ({ s with
      jobs := update (fun j => j.id = id) (fun _ => claimed) s.jobs
      executions := claimExecutions s.executions claimed worker }.setHeld worker
        (some ⟨⟨id, claimed.attempts, claimed.maxAttempts, claimed.timeoutAt,
          now + defaultLease⟩, s.executions.length⟩))
  | _, _ => none

/-- The condition under which a statement of a manager takes effect. -/
def Job.fenced (worker : WorkerId) (lease : Lease) (j : Job) : Prop :=
  j.id = lease.id ∧ j.status = .running ∧ j.leaseOwner = some worker ∧ j.attempts = lease.attempt

instance (worker : WorkerId) (lease : Lease) (j : Job) : Decidable (j.fenced worker lease) := by
  unfold Job.fenced
  infer_instance

/-- `renew`. -/
def renew (s : State) (worker : WorkerId) (now : Int) : Option State :=
  (s.held worker).map fun h =>
    { s with
      jobs := update (fun j => j.fenced worker h.lease)
        (fun j => { j with leaseUntil := some (now + defaultLease) }) s.jobs }

/-- The row of a job that is finished: a cancelled job is not put back. -/
def Job.finished (decision : Decision) (outcome : Outcome) (j : Job) : Job :=
  let cancelled := j.cancelRequestedAt.isSome
  let message := if cancelled ∧ decision.message = [] then lit "job cancellation requested"
    else decision.message
  { j with
    status := if cancelled then .cancelled else decision.status
    attempts := if !cancelled ∧ decision.requeue then j.attempts - 1 else j.attempts
    nextAttemptAt := decision.nextAttempt
    leaseOwner := none
    leaseUntil := none
    resultJson := outcome.result
    compensationJson := outcome.compensation <|> j.compensationJson
    error := nullableString message }

/-- `finish`; with a stale lease nothing is written.  In any case the manager
is free again. -/
def finish (s : State) (worker : WorkerId) (now : Int) (outcome : Outcome) : Option State :=
  (s.held worker).map fun h =>
    let decision := outcomeDecision now h.lease outcome
    match s.jobs.find? fun j => j.fenced worker h.lease with
    | none => s.setHeld worker none
    | some j =>
      let done := j.finished decision outcome
      { s with
        jobs := update (fun j => j.fenced worker h.lease) (Job.finished decision outcome) s.jobs
        executions := update
          (fun e : Execution => e.jobId = h.lease.id ∧ e.attempt = h.lease.attempt ∧
            e.workerId = worker ∧
            e.status = Status.running)
          (fun e => { e with
            status := executionOutcomeStatus done.status outcome
            resultJson := outcome.result
            error := done.error }) s.executions }.setHeld worker none

/-- `Cancel`. -/
def cancel (s : State) (id : GoString) (now : Int) : State :=
  { s with
    jobs := update (fun j : Job => j.id = id ∧ (j.status = .pending ∨ j.status = .running))
      (fun j => { j with
        cancelRequestedAt := some now
        status := if j.status = .pending then .cancelled else j.status }) s.jobs }

/-- `Replay`. -/
def replay (s : State) (id : GoString) (now : Int) : State :=
  { s with
    jobs := update
      (fun j : Job => j.id = id ∧
        (j.status = .failed ∨ j.status = .deadLetter ∨ j.status = .cancelled))
      (fun j => { j with
        status := .pending, attempts := 0, nextAttemptAt := now, leaseOwner := none
        leaseUntil := none, cancelRequestedAt := none, timeoutAt := none, resultJson := none
        compensationJson := none, error := none }) s.jobs }

/-- The status a phase of a sweep gives. -/
def Phase.status : Phase → Status
  | cancelRequested => .cancelled
  | deadlineExpired => .deadLetter
  | attemptsExceeded => .deadLetter

/-- The error that a statement leaves. -/
def Phase.message : Phase → GoString
  | cancelRequested => lit "job cancellation requested"
  | deadlineExpired => lit "job execution deadline expired"
  | attemptsExceeded => lit "maximum delivery attempts exceeded"

/-- What a phase looks for. -/
def Phase.concerns (phase : Phase) (now : Int) (j : Job) : Prop :=
  match phase with
  | cancelRequested => j.cancelRequestedAt.isSome
  | deadlineExpired => ∃ t ∈ j.timeoutAt, t ≤ now
  | attemptsExceeded => j.maxAttempts ≤ j.attempts

instance (phase : Phase) (now : Int) (j : Job) : Decidable (phase.concerns now j) := by
  unfold Phase.concerns
  split <;> infer_instance

/-- The statement behind it. -/
def Phase.next : Phase → Option Phase
  | cancelRequested => some deadlineExpired
  | deadlineExpired => some attemptsExceeded
  | attemptsExceeded => none

/-- The statement of a phase on the jobs. -/
def sweepJobs (phase : Phase) (now : Int) (jobs : List Job) : List Job :=
  update (fun j => phase.concerns now j ∧ j.sweepable now)
    (fun j => { j with
      status := phase.status, error := j.error <|> some phase.message
      leaseOwner := none, leaseUntil := none }) jobs

/-- The statement of a phase on the executions. -/
def sweepExecutions (phase : Phase) (now : Int) (jobs : List Job) (executions : List Execution) :
    List Execution :=
  update (fun e : Execution => e.status = .running ∧ ∃ j ∈ jobs, j.id = e.jobId ∧
      j.status = phase.status ∧ phase.concerns now j ∧ j.attempts = e.attempt)
    (fun e => { e with
      status := phase.status, error := e.error <|> some phase.message }) executions

/-- The next two statements of the sweep that is under way. -/
def sweepStep (s : State) : Option State :=
  s.sweep.map fun (now, phase) =>
    let jobs := sweepJobs phase now s.jobs
    { s with
      jobs := jobs
      executions := sweepExecutions phase now jobs s.executions
      sweep := phase.next.map fun next => (now, next) }

/-- The statements of managers and users. -/
inductive Action
  | enqueue (id : GoString) (site : Option (GoString × Int)) (maxAttempts : Nat) (now : Int)
  | claim (worker : WorkerId) (id : GoString) (now defaultTimeout : Int)
  | renew (worker : WorkerId) (now : Int)
  | finish (worker : WorkerId) (now : Int) (outcome : Outcome)
  /-- the manager gives up: it is shut down, or has lost its lease -/
  | abandon (worker : WorkerId)
  | cancel (id : GoString) (now : Int)
  | replay (id : GoString) (now : Int)
  /-- a sweep gets the advisory lock -/
  | sweepBegin (now : Int)
  | sweepStep

/-- One step of the queue. -/
def step (s : State) : Action → Option State
  | .enqueue id site maxAttempts now => enqueue s id site maxAttempts now
  | .claim worker id now defaultTimeout => claim s worker id now defaultTimeout
  | .renew worker now => renew s worker now
  | .finish worker now outcome => finish s worker now outcome
  | .abandon worker => some (s.setHeld worker none)
  | .cancel id now => some (cancel s id now)
  | .replay id now => some (replay s id now)
  | .sweepBegin now =>
    if s.sweep = none then some { s with sweep := some (now, .cancelRequested) } else none
  | .sweepStep => sweepStep s

end JobQueue
