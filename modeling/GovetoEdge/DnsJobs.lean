import GovetoEdge.GoJson
import GovetoEdge.JobQueue

/-!
# The jobs of DNS synchronization

Requests to synchronize the DNS records of a cluster are jobs of the job queue.
A request that comes while a job waits changes that job and makes none of its
own, because a job brings the records to the latest desired state.  A rollback is
different: it goes one step back, so two rollbacks are two jobs.

The model is of one cluster.  A step is one transaction or one statement; a
request is one step because its transaction holds the lock of the cluster.  That
a worker holds the same lock while it executes is not modelled: requests may come
at any time.  Jobs of one cluster do not wait for one another, which is why the
queue's rows have no site.  Which of the oldest waiting jobs a request gets to
see, what execution leads to and what the time is are arguments.  The deletion of
old jobs is left out.

`accepted` and `executed` are not in the database: the jobs of the rollbacks that
were accepted, and what workers executed, the last first.

* `rollbacks_kept`: the job of a rollback stays a rollback, if no request for the
  whole cluster meets it as the oldest waiting job;
* `rollback_overwritten` is what happens otherwise.
-/

namespace DnsJobs

open GoStrings SqlTables List Option Runs
open JobQueue (WorkerId Lease Status Phase)

/-- `DNSSyncAction`. -/
inductive SyncAction
  | reconcile
  | upsertCluster
  | upsertSite
  | deleteCluster
  | deleteSite
  | rollbackCluster
deriving DecidableEq

/-- A row of `dns_sync_jobs`. -/
structure Job where
  row : JobQueue.Job
  site : Option GoString
  action : SyncAction
  createdAt : Int
deriving DecidableEq

def Job.id (j : Job) : GoString := j.row.id

/-- Where the handler of a worker stands. -/
inductive Stage
  | claimed
  /-- the job is read, and the lock of the cluster asked for -/
  | loaded (action : SyncAction)
  | executed (action : SyncAction)
deriving DecidableEq

/-- A job that a worker runs. -/
structure Run where
  lease : Lease
  stage : Stage
deriving DecidableEq

/-- The queue, its setting and the workers; `accepted` and `executed` are its history.
-/
structure State where
  jobs : List Job
  /-- whether the endpoint of the cluster is enabled, if it is configured -/
  config : Option Bool
  runs : WorkerId → Option Run
  accepted : List GoString
  executed : List (GoString × SyncAction)

/-- No jobs. -/
def init : State := ⟨[], none, fun _ => none, [], []⟩

/-- The action is for the whole cluster. -/
def isClusterAction (action : SyncAction) : Bool :=
  action = .upsertCluster ∨ action = .deleteCluster ∨ action = .rollbackCluster

/-- `resolveClusterAction`. -/
def resolveClusterAction (requested : SyncAction) (config : Option Bool) : Option SyncAction :=
  if !isClusterAction requested then some requested
  else
    match config with
    | none => none
    | some enabled =>
      if requested = .rollbackCluster then some requested
      else if enabled then some .upsertCluster else some .deleteCluster

/-- What a request asks for once the configuration is looked at. -/
def resolved (config : Option Bool) (site : Option GoString) (action : SyncAction) :
    Option SyncAction :=
  if site = none ∧ isClusterAction action then resolveClusterAction action config else some action

/-- `coalescePendingAction`. -/
def coalescePendingAction (active : Job) (site : Option GoString) (action : SyncAction) :
    SyncAction × Option GoString × Bool :=
  if site = none ∧ (active.action ≠ action ∨ active.site ≠ none) then (action, none, true)
  else (active.action, active.site, false)

/-- `refreshPendingJobSets`. -/
def Job.refreshed (action : SyncAction) (site : Option GoString) (now : Int) (j : Job) : Job :=
  { j with
    action := action, site := site
    row := { j.row with
      attempts := 0, nextAttemptAt := now, leaseOwner := none, leaseUntil := none
      cancelRequestedAt := none, timeoutAt := none, resultJson := none, compensationJson := none
      error := none } }

/-- The row of a new job. -/
def newJob (id : GoString) (site : Option GoString) (action : SyncAction) (now : Int) : Job where
  row := {
    id := id, site := none, status := .pending, attempts := 0, maxAttempts := 8
    nextAttemptAt := now, leaseOwner := none, leaseUntil := none, cancelRequestedAt := none
    timeoutAt := none, resultJson := none, compensationJson := none, error := none }
  site := site
  action := action
  createdAt := now

/-- The job waits. -/
def Job.pending (j : Job) : Prop := j.row.status = .pending

instance (j : Job) : Decidable j.pending := by
  unfold Job.pending
  infer_instance

/-- `ORDER BY created_at ASC LIMIT 1`, among the jobs that wait. -/
def oldest (jobs : List Job) (j : Job) : Prop :=
  j.pending ∧ ∀ k ∈ jobs, k.pending → j.createdAt ≤ k.createdAt

instance (jobs : List Job) (j : Job) : Decidable (oldest jobs j) := by
  unfold oldest
  infer_instance

/-- A request: the job that it would create, and the waiting job that it gets to
see if there is one. -/
structure Request where
  site : Option GoString
  action : SyncAction
  id : GoString
  picked : GoString
  now : Int

/-- A job of its own for a request; the identifier is the primary key. -/
def create (s : State) (q : Request) (action : SyncAction) : Option State :=
  if q.id ∈ s.jobs.map Job.id then none
  else
    some { s with
      jobs := s.jobs ++ [newJob q.id q.site action q.now]
      accepted := if action = .rollbackCluster then q.id :: s.accepted else s.accepted }

/-- The request changes the oldest job that waits. -/
def coalesce (s : State) (q : Request) (action : SyncAction) (refreshPending : Bool) :
    Option State :=
  (s.jobs.find? fun j => j.id = q.picked ∧ oldest s.jobs j).map fun current =>
    let (action, site, changed) := coalescePendingAction current q.site action
    if !changed && !refreshPending then s
    else
      { s with
        jobs := update (fun j : Job => j.id = current.id) (Job.refreshed action site q.now) s.jobs }

/-- `enqueueTx`. -/
def enqueueTx (s : State) (q : Request) (refreshPending : Bool) : Option State :=
  match resolved s.config q.site q.action with
  | none => some s
  | some action =>
    if action ≠ .rollbackCluster ∧ ∃ j ∈ s.jobs, j.pending then coalesce s q action refreshPending
    else create s q action

/-- One worker goes on. -/
def State.setRun (s : State) (worker : WorkerId) (r : Option Run) : State :=
  { s with runs := fun w => if w = worker then r else s.runs w }

def State.setJobs (s : State) (jobs : List Job) : State := { s with jobs := jobs }

/-- `claim`, of the job that is picked. -/
def claim (s : State) (worker : WorkerId) (id : GoString) (now : Int) : Option State :=
  if s.runs worker = none then
    (s.jobs.find? fun j => j.id = id ∧ j.row.claimable (s.jobs.map Job.row) now).map fun j =>
      let row := j.row.claimed worker now 0
      (s.setJobs (update (fun j : Job => j.id = id)
        (fun j => { j with row := j.row.claimed worker now 0 }) s.jobs)).setRun worker
        (some ⟨⟨id, row.attempts, row.maxAttempts, row.timeoutAt,
          now + JobQueue.defaultLease⟩, .claimed⟩)
  else none

/-- `renew`. -/
def renew (s : State) (worker : WorkerId) (now : Int) : Option State :=
  (s.runs worker).map fun r =>
    s.setJobs (update (fun j : Job => j.row.fenced worker r.lease)
      (fun j => { j with row := { j.row with leaseUntil := some (now + JobQueue.defaultLease) } })
      s.jobs)

/-- The handler reads its job. -/
def load (s : State) (worker : WorkerId) : Option State :=
  match s.runs worker with
  | some ⟨lease, .claimed⟩ =>
    (s.jobs.find? fun j => j.id = lease.id).map fun j =>
      s.setRun worker (some ⟨lease, .loaded j.action⟩)
  | _ => none

/-- The handler has the lock of the cluster and does what the job says. -/
def execute (s : State) (worker : WorkerId) : Option State :=
  match s.runs worker with
  | some ⟨lease, .loaded action⟩ =>
    some { s.setRun worker (some ⟨lease, .executed action⟩) with
      executed := (lease.id, action) :: s.executed }
  | _ => none

/-- What the handler returns.  Before it executes the job, that is an error to
try again after: the job cannot be read, the lock fails or is busy, or a panic. -/
def Stage.returns (outcome : JobQueue.Outcome) : Stage → Prop
  | .executed _ => True
  | _ => outcome.err.isSome ∧ (outcome.retryable ∨ 0 < outcome.requeueAfter)

instance (outcome : JobQueue.Outcome) (stage : Stage) : Decidable (stage.returns outcome) := by
  unfold Stage.returns
  split <;> infer_instance

/-- `finish`; with a stale lease nothing is written. -/
def finish (s : State) (worker : WorkerId) (outcome : JobQueue.Outcome) (now : Int) :
    Option State :=
  match s.runs worker with
  | some r =>
    if r.stage.returns outcome then
      some ((s.setJobs (update (fun j : Job => j.row.fenced worker r.lease)
        (fun j => { j with
          row := j.row.finished (JobQueue.outcomeDecision now r.lease outcome) outcome })
        s.jobs)).setRun worker none)
    else none
  | none => none

/-- `Cancel`. -/
def cancel (s : State) (id : GoString) (now : Int) : State :=
  s.setJobs (update
    (fun j : Job => j.id = id ∧ (j.row.status = .pending ∨ j.row.status = .running))
    (fun j => { j with row := { j.row with
      cancelRequestedAt := some now
      status := if j.row.status = .pending then .cancelled else j.row.status } }) s.jobs)

/-- `json.Marshal(map[string]string{"error": reason})`. -/
def errorPayload (reason : GoString) : GoString :=
  lit "\x7b\"error\":" ++ GoJson.quote reason ++ lit "\x7d"

/-- `CancelActiveTx`. -/
def cancelActive (s : State) (reason : GoString) (now : Int) : State :=
  s.setJobs (update (fun j : Job => j.row.status = .pending ∨ j.row.status = .running)
    (fun j => { j with row := { j.row with
      status := .cancelled, cancelRequestedAt := some now, error := some reason
      resultJson := some (errorPayload reason), leaseOwner := none, leaseUntil := none } }) s.jobs)

/-- The transaction of `DeleteConfiguration`. -/
def deleteConfiguration (s : State) : State :=
  { s with
    config := none
    jobs := update (fun j : Job => j.row.status = .pending ∨ j.row.status = .running)
      (fun j => { j with row := { j.row with
        status := .cancelled, leaseUntil := none
        resultJson := some (errorPayload (lit "DNS configuration deleted")) } }) s.jobs }

/-- `Replay`. -/
def replay (s : State) (id : GoString) (now : Int) : State :=
  s.setJobs (update
    (fun j : Job => j.id = id ∧
      (j.row.status = .failed ∨ j.row.status = .deadLetter ∨ j.row.status = .cancelled))
    (fun j => { j with row := { j.row with
      status := .pending, attempts := 0, nextAttemptAt := now, leaseOwner := none
      leaseUntil := none, cancelRequestedAt := none, timeoutAt := none, resultJson := none
      compensationJson := none, error := none } }) s.jobs)

/-- A pair of statements of `sweep`. -/
def sweep (s : State) (phase : Phase) (now : Int) : State :=
  s.setJobs (update (fun j : Job => phase.concerns now j.row ∧ j.row.sweepable now)
    (fun j => { j with row := { j.row with
      status := phase.status, error := j.row.error <|> some phase.message
      leaseOwner := none, leaseUntil := none } }) s.jobs)

/-- What requests and workers do. -/
inductive Action
  | configure (enabled : Bool)
  | deleteConfiguration
  /-- `EnqueueTx` -/
  | enqueue (q : Request)
  /-- `EnqueueLatestTx` -/
  | enqueueLatest (q : Request)
  | claim (worker : WorkerId) (id : GoString) (now : Int)
  | renew (worker : WorkerId) (now : Int)
  | load (worker : WorkerId)
  | execute (worker : WorkerId)
  | finish (worker : WorkerId) (outcome : JobQueue.Outcome) (now : Int)
  /-- the worker is gone -/
  | abandon (worker : WorkerId)
  | cancel (id : GoString) (now : Int)
  | cancelActive (reason : GoString) (now : Int)
  | replay (id : GoString) (now : Int)
  | sweep (phase : Phase) (now : Int)

/-- One step. -/
def step (s : State) : Action → Option State
  | .configure enabled => some { s with config := some enabled }
  | .deleteConfiguration => some (DnsJobs.deleteConfiguration s)
  | .enqueue q => enqueueTx s q false
  | .enqueueLatest q => enqueueTx s { q with site := none } true
  | .claim worker id now => DnsJobs.claim s worker id now
  | .renew worker now => DnsJobs.renew s worker now
  | .load worker => DnsJobs.load s worker
  | .execute worker => DnsJobs.execute s worker
  | .finish worker outcome now => DnsJobs.finish s worker outcome now
  | .abandon worker => some (s.setRun worker none)
  | .cancel id now => some (DnsJobs.cancel s id now)
  | .cancelActive reason now => some (DnsJobs.cancelActive s reason now)
  | .replay id now => some (DnsJobs.replay s id now)
  | .sweep phase now => some (DnsJobs.sweep s phase now)

/-- A request for the whole cluster, not for a rollback, does not meet a rollback
as the oldest waiting job. -/
def Request.Spares (s : State) (q : Request) : Prop :=
  q.site = none → ∀ action ∈ resolved s.config q.site q.action, action ≠ .rollbackCluster →
    ∀ j ∈ s.jobs, j.id = q.picked → oldest s.jobs j → j.action ≠ .rollbackCluster

instance (s : State) (q : Request) : Decidable (q.Spares s) := by
  unfold Request.Spares
  infer_instance

/-- The request makes no rollback another action. -/
def Spares (s : State) : Action → Prop
  | .enqueue q => q.Spares s
  | .enqueueLatest q => { q with site := none }.Spares s
  | _ => True

instance (s : State) (a : Action) : Decidable (Spares s a) := by
  unfold Spares
  split <;> infer_instance

/-- A job that was executed to its end. -/
def Job.ended (j : Job) : Prop := j.row.status = .succeeded ∨ j.row.status = .failed

instance (j : Job) : Decidable j.ended := by
  unfold Job.ended
  infer_instance

/-- A worker has a job of the table, and if that is the job of a rollback, then it
read a rollback. -/
def Run.Sound (s : State) (r : Run) : Prop :=
  r.lease.id ∈ s.jobs.map Job.id ∧
    (∀ a, r.stage = .loaded a ∨ r.stage = .executed a → r.lease.id ∈ s.accepted →
      a = .rollbackCluster) ∧
    ∀ a, r.stage = .executed a → (r.lease.id, a) ∈ s.executed

/-- Every rollback that ended was executed as one. -/
structure Kept (s : State) : Prop where
  nodup : (s.jobs.map Job.id).Nodup
  distinct : s.accepted.Nodup
  rollback : ∀ id ∈ s.accepted, ∃ j ∈ s.jobs, j.id = id ∧ j.action = .rollbackCluster
  runs : ∀ worker r, s.runs worker = some r → r.Sound s
  known : ∀ e ∈ s.executed, e.1 ∈ s.jobs.map Job.id
  executed : ∀ e ∈ s.executed, e.1 ∈ s.accepted → e.2 = .rollbackCluster
  ended : ∀ j ∈ s.jobs, j.ended → ∃ a, (j.id, a) ∈ s.executed

variable {s t : State}

/-- Nothing has ended. -/
theorem kept_init : Kept init where
  nodup := nodup_nil
  distinct := nodup_nil
  rollback := fun _ h => nomatch h
  runs := fun _ _ h => nomatch h
  known := fun _ h => nomatch h
  executed := fun _ h => nomatch h
  ended := fun _ h => nomatch h

/-- An update that makes no rollback something else and ends only jobs that were
executed. -/
theorem Kept.update {p : Job → Prop} [DecidablePred p] {f : Job → Job} (h : Kept s)
    (hid : ∀ j, (f j).id = j.id)
    (haction : ∀ j ∈ s.jobs, p j → j.action = .rollbackCluster → (f j).action = .rollbackCluster)
    (hended : ∀ j ∈ s.jobs, p j → (f j).ended → ∃ a, (j.id, a) ∈ s.executed) :
    Kept (s.setJobs (update p f s.jobs)) := by
  have hids : (SqlTables.update p f s.jobs).map Job.id = s.jobs.map Job.id := map_update hid
  refine { h with
    nodup := hids ▸ h.nodup, rollback := fun id hmem => ?_, runs := fun worker r hr => ?_
    known := fun e he => hids ▸ h.known e he
    ended := forall_update h.ended fun j hj hp he => hid j ▸ hended j hj hp he }
  · obtain ⟨j, hj, rfl, hroll⟩ := h.rollback id hmem
    by_cases hp : p j
    · exact ⟨f j, mem_update_of_pos hj hp, hid j, haction j hj hp hroll⟩
    · exact ⟨j, mem_update_of_not hj hp, rfl, hroll⟩
  · obtain ⟨hknown, hrest⟩ := h.runs worker r hr
    exact ⟨hids ▸ hknown, hrest⟩

/-- An update that keeps the action of every row, and ends none. -/
theorem Kept.updateRow {p : Job → Prop} [DecidablePred p] {g : Job → JobQueue.Job} (h : Kept s)
    (hid : ∀ j : Job, (g j).id = j.row.id)
    (hended : ∀ j : Job, ({ j with row := g j } : Job).ended → j.ended) :
    Kept (s.setJobs (SqlTables.update p (fun j => { j with row := g j }) s.jobs)) :=
  h.update hid (fun _ _ _ hroll => hroll) fun j hj _ he => h.ended j hj (hended j he)

/-- A worker goes on. -/
theorem Kept.setRun (h : Kept s) (worker : WorkerId) {r : Option Run}
    (hr : ∀ r' ∈ r, r'.Sound s) : Kept (s.setRun worker r) := by
  refine { h with runs := fun w r' hr' => ?_ }
  simp only [State.setRun] at hr'
  split at hr'
  · exact hr r' hr'
  · exact h.runs w r' hr'

/-- The row of an accepted rollback is a rollback. -/
theorem Kept.action_eq (h : Kept s) {j : Job} (hj : j ∈ s.jobs) (hmem : j.id ∈ s.accepted) :
    j.action = .rollbackCluster := by
  obtain ⟨k, hk, hid, hroll⟩ := h.rollback j.id hmem
  rw [← eq_of_key h.nodup hk hj hid]
  exact hroll

variable {q : Request} {id : GoString} {now : Int} {worker : WorkerId} {outcome : JobQueue.Outcome}

/-- A job of its own has an identifier that neither a worker nor the history
knows. -/
theorem Kept.create (h : Kept s) {action : SyncAction} (hstep : create s q action = some t) :
    Kept t := by
  simp only [DnsJobs.create, ite_none_left_eq_some, Option.some.injEq] at hstep
  obtain ⟨hfresh, rfl⟩ := hstep
  have hids : (s.jobs ++ [newJob q.id q.site action q.now]).map Job.id =
      s.jobs.map Job.id ++ [q.id] := by
    rw [map_append]
    rfl
  have hold : ∀ {id}, id ∈ s.jobs.map Job.id →
      id ∈ (if action = .rollbackCluster then q.id :: s.accepted else s.accepted) →
      id ∈ s.accepted := by
    intro id hid hmem
    split at hmem
    · rcases mem_cons.mp hmem with rfl | hmem
      · exact absurd hid hfresh
      · exact hmem
    · exact hmem
  refine ⟨?_, ?_, fun id hmem => ?_, fun worker r hr => ?_, fun e he => ?_, fun e he hmem => ?_,
    fun j hj he => ?_⟩
  · rw [hids]
    exact concat_eq_append ▸ h.nodup.concat hfresh
  · split
    · refine nodup_cons.mpr ⟨fun hmem => hfresh ?_, h.distinct⟩
      obtain ⟨j, hj, hid, _⟩ := h.rollback q.id hmem
      exact mem_map.mpr ⟨j, hj, hid⟩
    · exact h.distinct
  · by_cases hid : id ∈ s.accepted
    · obtain ⟨j, hj, hj'⟩ := h.rollback id hid
      exact ⟨j, mem_append_left _ hj, hj'⟩
    · split at hmem
      · next hroll =>
        obtain rfl : id = q.id := (mem_cons.mp hmem).resolve_right hid
        exact ⟨_, mem_append_right _ (mem_singleton_self _), rfl, hroll⟩
      · exact absurd hmem hid
  · obtain ⟨hknown, hread, hrecorded⟩ := h.runs worker r hr
    refine ⟨?_, fun a ha hmem => hread a ha (hold hknown hmem), hrecorded⟩
    rw [hids]
    exact mem_append_left _ hknown
  · rw [hids]
    exact mem_append_left _ (h.known e he)
  · exact h.executed e he (hold (h.known e he) hmem)
  · rcases mem_append.mp hj with hj | hj
    · exact h.ended j hj he
    · rw [mem_singleton.mp hj] at he
      rcases he with he | he <;> cases he

/-- A request joins a job. -/
theorem Kept.coalesce (h : Kept s) {action : SyncAction} {refreshPending : Bool}
    (hresolved : resolved s.config q.site q.action = some action)
    (haction : action ≠ .rollbackCluster) (hspares : q.Spares s)
    (hstep : coalesce s q action refreshPending = some t) : Kept t := by
  obtain ⟨current, hfind, rfl⟩ := map_eq_some_iff.mp hstep
  have hcurrent := mem_of_find?_eq_some hfind
  have hpicked := List.find?_some hfind
  simp only [decide_eq_true_eq] at hpicked
  simp only
  split
  · exact h
  · refine h.update (fun _ => rfl) ?_ fun j hj _ he => h.ended j hj he
    intro j hj hid hroll
    obtain rfl : j = current := eq_of_key h.nodup hj hcurrent hid
    -- a request for a site leaves the action as it is, and no other meets a rollback
    simp only [Job.refreshed, coalescePendingAction]
    split
    · next hsite =>
      exact absurd hroll
        (hspares hsite.1 action hresolved haction j hj hpicked.1 hpicked.2)
    · exact hroll

/-- A request is made. -/
theorem Kept.enqueueTx (h : Kept s) {refreshPending : Bool} (hspares : q.Spares s)
    (hstep : enqueueTx s q refreshPending = some t) : Kept t := by
  unfold DnsJobs.enqueueTx at hstep
  split at hstep
  · cases hstep
    exact h
  · next action hresolved =>
    split at hstep
    · next hpending => exact h.coalesce hresolved hpending.1 hspares hstep
    · exact h.create hstep

/-- A job is claimed. -/
theorem Kept.claim (h : Kept s) (hstep : claim s worker id now = some t) : Kept t := by
  simp only [DnsJobs.claim, ite_none_right_eq_some, map_eq_some_iff] at hstep
  obtain ⟨_, j, hfind, rfl⟩ := hstep
  have hid := List.find?_some hfind
  simp only [decide_eq_true_eq] at hid
  refine Kept.setRun ?_ worker fun r hr => ?_
  · refine h.updateRow (fun _ => rfl) fun _ he => ?_
    rcases he with he | he <;> cases he
  · cases hr
    have hknown : id ∈ s.jobs.map Job.id := mem_map.mpr ⟨j, mem_of_find?_eq_some hfind, hid.1⟩
    refine ⟨?_, fun a ha => ?_, nofun⟩
    · show id ∈ (SqlTables.update _ _ s.jobs).map Job.id
      rwa [map_update (by exact fun _ => rfl)]
    · rcases ha with ha | ha <;> cases ha

/-- Its action is loaded. -/
theorem Kept.load (h : Kept s) (hstep : load s worker = some t) : Kept t := by
  unfold DnsJobs.load at hstep
  split at hstep
  · next lease hrun =>
    obtain ⟨j, hfind, rfl⟩ := map_eq_some_iff.mp hstep
    have hid := List.find?_some hfind
    simp only [decide_eq_true_eq] at hid
    have hj := mem_of_find?_eq_some hfind
    apply h.setRun
    intro r hr
    cases hr
    refine ⟨(h.runs worker _ hrun).1, fun a ha hmem => ?_, fun a ha => nomatch ha⟩
    rcases ha with ha | ha
    · cases ha
      exact h.action_eq hj (hid.symm ▸ hmem)
    · cases ha
  · cases hstep

/-- It is executed. -/
theorem Kept.execute (h : Kept s) (hstep : execute s worker = some t) : Kept t := by
  unfold DnsJobs.execute at hstep
  split at hstep
  · next lease action hrun =>
    cases hstep
    obtain ⟨hknown, hread, _⟩ := h.runs worker _ hrun
    have hexecuted : Kept { s with executed := (lease.id, action) :: s.executed } := { h with
      runs := fun w r hr =>
        have ⟨hknown, hread, hrecorded⟩ := h.runs w r hr
        ⟨hknown, hread, fun a ha => mem_cons_of_mem _ (hrecorded a ha)⟩
      known := forall_mem_cons.mpr ⟨hknown, h.known⟩
      executed := forall_mem_cons.mpr ⟨hread action (.inl rfl), h.executed⟩
      ended := fun j hj he => (h.ended j hj he).imp fun _ => mem_cons_of_mem _ }
    refine hexecuted.setRun worker fun r hr => ?_
    cases hr
    refine ⟨hknown, fun a ha hmem => ?_, fun a ha => ?_⟩
    · rcases ha with ha | ha <;> cases ha
      exact hread action (.inl rfl) hmem
    · cases ha
      exact mem_cons_self
  · cases hstep

/-- A job ends by what the handler returned without an error, or with one that is
not to be tried again after. -/
theorem outcomeDecision_ended {lease : Lease}
    (h : (JobQueue.outcomeDecision now lease outcome).status = .succeeded ∨
      (JobQueue.outcomeDecision now lease outcome).status = .failed) :
    outcome.err = none ∨ ¬ (outcome.retryable ∨ 0 < outcome.requeueAfter) := by
  cases herr : outcome.err with
  | none => exact .inl rfl
  | some message =>
    right
    unfold JobQueue.outcomeDecision at h
    grind

/-- A job ends only after it was executed. -/
theorem executed_of_ended {stage : Stage} {lease : Lease} {row : JobQueue.Job}
    (hreturns : stage.returns outcome)
    (h : (row.finished (JobQueue.outcomeDecision now lease outcome) outcome).status = .succeeded ∨
      (row.finished (JobQueue.outcomeDecision now lease outcome) outcome).status = .failed) :
    ∃ a, stage = .executed a := by
  have hdecision : (JobQueue.outcomeDecision now lease outcome).status = .succeeded ∨
      (JobQueue.outcomeDecision now lease outcome).status = .failed := by
    simp only [JobQueue.Job.finished] at h
    split at h
    · rcases h with h | h <;> cases h
    · exact h
  have houtcome := outcomeDecision_ended hdecision
  cases stage with
  | executed a => exact ⟨a, rfl⟩
  | claimed | loaded =>
    obtain ⟨herr, hagain⟩ := hreturns
    rcases houtcome with hnone | hnot
    · simp [hnone] at herr
    · exact absurd hagain hnot

/-- The outcome is recorded. -/
theorem Kept.finish (h : Kept s) (hstep : finish s worker outcome now = some t) : Kept t := by
  unfold DnsJobs.finish at hstep
  split at hstep
  · next r hrun =>
    obtain ⟨hreturns, hstep⟩ := ite_none_right_eq_some.mp hstep
    cases hstep
    refine Kept.setRun ?_ worker fun _ hr => nomatch hr
    refine h.update (fun _ => rfl) (fun _ _ _ hroll => hroll) ?_
    intro j hj hfenced he
    obtain ⟨a, ha⟩ := executed_of_ended hreturns he
    have hid : j.id = r.lease.id := hfenced.1
    exact ⟨a, hid ▸ (h.runs worker r hrun).2.2 a ha⟩
  · cases hstep

/-- Every such step keeps the rollbacks. -/
theorem kept_step {a : Action} (h : Kept s) (hspares : Spares s a) (hstep : step s a = some t) :
    Kept t := by
  cases a with
  | configure enabled =>
    cases hstep
    exact { h with }
  | deleteConfiguration =>
    cases hstep
    have hjobs : Kept (s.setJobs (DnsJobs.deleteConfiguration s).jobs) := by
      refine h.updateRow (fun _ => rfl) fun j he => ?_
      rcases he with he | he <;> cases he
    exact { hjobs with }
  | enqueue q => exact h.enqueueTx hspares hstep
  | enqueueLatest q => exact h.enqueueTx hspares hstep
  | claim worker id now => exact h.claim hstep
  | renew worker now =>
    obtain ⟨r, _, rfl⟩ := map_eq_some_iff.mp hstep
    exact h.updateRow (fun _ => rfl) fun j he => he
  | load worker => exact h.load hstep
  | execute worker => exact h.execute hstep
  | finish worker outcome now => exact h.finish hstep
  | abandon worker =>
    cases hstep
    exact h.setRun worker fun _ hr => nomatch hr
  | cancel id now =>
    cases hstep
    refine h.updateRow (fun _ => rfl) fun j he => ?_
    split at he
    · rcases he with he | he <;> cases he
    · exact he
  | cancelActive reason now | replay id now =>
    cases hstep
    refine h.updateRow (fun _ => rfl) fun j he => ?_
    rcases he with he | he <;> cases he
  | sweep phase now =>
    cases hstep
    refine h.updateRow (fun _ => rfl) fun j he => ?_
    cases phase <;> rcases he with he | he <;> cases he

/-- And so does every run. -/
theorem kept_run {as : List Action} (has : Along step Spares init as)
    (hrun : run step init as = some s) : Kept s :=
  run_invariant_along (fun _ _ _ h hok hstep => kept_step h hok hstep) kept_init has hrun

/-- A worker that claims the job of an accepted rollback executes a rollback. -/
theorem Kept.claim_executes (h : Kept s) (hmem : id ∈ s.accepted)
    (hclaim : step s (.claim worker id now) = some t) :
    ∃ u, run step t [.load worker, .execute worker] = some u ∧
      u.executed = (id, .rollbackCluster) :: s.executed := by
  have ht : Kept t := h.claim hclaim
  simp only [step, DnsJobs.claim, ite_none_right_eq_some, map_eq_some_iff] at hclaim
  obtain ⟨_, current, _, rfl⟩ := hclaim
  obtain ⟨k, hk, hid, hroll⟩ := ht.rollback id hmem
  obtain ⟨found, hfound⟩ : ∃ found, List.find? (fun k : Job => k.id = id)
      (SqlTables.update (fun k : Job => k.id = id)
        (fun k => { k with row := k.row.claimed worker now 0 }) s.jobs) = some found := by
    apply isSome_iff_exists.mp
    rw [List.find?_isSome]
    exact ⟨k, hk, by simpa using hid⟩
  have hfoundId : found.id = id := by simpa using List.find?_some hfound
  have haction : found.action = .rollbackCluster :=
    ht.action_eq (mem_of_find?_eq_some hfound) (hfoundId.symm ▸ hmem)
  simp [run, step, DnsJobs.load, DnsJobs.execute, State.setRun, State.setJobs, hfound, haction]

/-- The rollbacks among what workers executed. -/
def State.rollbacks (s : State) : List GoString :=
  (s.executed.filter fun e => e.2 = .rollbackCluster).map Prod.fst

/-- The accepted rollbacks whose jobs were executed to their end. -/
def State.endedRollbacks (s : State) : List GoString :=
  s.accepted.filter fun id => ∃ j ∈ s.jobs, j.id = id ∧ j.ended

theorem Kept.ended_rollback (h : Kept s) (hid : id ∈ s.endedRollbacks) : id ∈ s.rollbacks := by
  obtain ⟨hmem, hended⟩ := mem_filter.mp hid
  simp only [decide_eq_true_eq] at hended
  obtain ⟨j, hj, rfl, he⟩ := hended
  obtain ⟨a, ha⟩ := h.ended j hj he
  have hroll : a = .rollbackCluster := h.executed (j.id, a) ha hmem
  refine mem_map.mpr ⟨(j.id, a), mem_filter.mpr ⟨ha, ?_⟩, rfl⟩
  simpa using hroll

/-- **Rollbacks stay rollbacks.**  If no request for the whole cluster meets a
rollback as the oldest waiting job, then every accepted rollback has a job of its
own that is a rollback, whatever is executed for it is a rollback, a worker that
claims it executes one, and there are at least as many executed rollbacks as
accepted ones whose jobs came to their end. -/
theorem rollbacks_kept (as : List Action) (s : State)
    (has : Along step Spares init as) (hrun : run step init as = some s) :
    s.accepted.Nodup ∧
      (∀ id ∈ s.accepted, ∃ j ∈ s.jobs, j.id = id ∧ j.action = .rollbackCluster) ∧
      (∀ e ∈ s.executed, e.1 ∈ s.accepted → e.2 = .rollbackCluster) ∧
      (∀ id ∈ s.accepted, ∀ worker now t, step s (.claim worker id now) = some t →
        ∃ u, run step t [.load worker, .execute worker] = some u ∧
          u.executed = (id, .rollbackCluster) :: s.executed) ∧
      s.endedRollbacks.Subperm s.rollbacks := by
  have h : Kept s := kept_run has hrun
  refine ⟨h.distinct, h.rollback, h.executed, ?_, ?_⟩
  · intro id hmem worker now t hclaim
    exact h.claim_executes hmem hclaim
  · exact subperm_of_subset (h.distinct.filter _) fun id hid => h.ended_rollback hid

/-- A request of the whole cluster. -/
def clusterRequest (action : SyncAction) (id picked : GoString) (now : Int) : Request :=
  ⟨none, action, id, picked, now⟩

/-- A worker takes a job and executes it without an error. -/
def worked (id : GoString) (now : Int) : List Action :=
  [.claim 0 id now, .load 0, .execute 0, .finish 0 ⟨none, none, none, false, 0, 0⟩ now]

/-- Two rollbacks, and between them requests for the cluster and for a site, which
find an older update to join. -/
def twoRollbacks : List Action :=
  [.configure true, .enqueueLatest (clusterRequest .upsertCluster (lit "u") [] 0),
    .enqueue (clusterRequest .rollbackCluster (lit "a") [] 1),
    .enqueueLatest (clusterRequest .upsertCluster (lit "v") (lit "u") 2),
    .enqueue ⟨some (lit "site"), .upsertSite, lit "x", lit "u", 3⟩,
    .enqueue (clusterRequest .rollbackCluster (lit "b") [] 4)] ++
    worked (lit "u") 5 ++ worked (lit "a") 6 ++ worked (lit "b") 7

theorem rollbacks_kept_twoRollbacks :
    ∃ s, run step init twoRollbacks = some s ∧
      s.endedRollbacks = [lit "b", lit "a"] ∧ s.endedRollbacks.Subperm s.rollbacks := by
  have has : Along step Spares init twoRollbacks := by decide +kernel
  have hends : ∃ s, run step init twoRollbacks = some s ∧
      s.endedRollbacks = [lit "b", lit "a"] := by
    apply ends_of_any
    decide +kernel
  obtain ⟨s, hs, hended⟩ := hends
  exact ⟨s, hs, hended, (rollbacks_kept _ s has hs).2.2.2.2⟩

/-- The endpoint is saved while a rollback waits: the job of the rollback becomes
an update of the records, and succeeds without any rollback. -/
theorem rollback_overwritten :
    ∃ (as : List Action) (s : State), run step init as = some s ∧
      s.endedRollbacks = [lit "a"] ∧
      (s.jobs.map fun j => (j.id, j.action, j.row.status)) =
        [(lit "a", .upsertCluster, .succeeded)] ∧
      s.rollbacks = [] := by
  refine ⟨[.configure true, .enqueue (clusterRequest .rollbackCluster (lit "a") [] 0),
    .enqueueLatest (clusterRequest .upsertCluster (lit "x") (lit "a") 1)] ++
    worked (lit "a") 2, ?_⟩
  apply ends_of_any
  decide +kernel

end DnsJobs
