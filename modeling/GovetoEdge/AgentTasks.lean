import GovetoEdge.JobQueue

/-!
# The tasks of edge nodes

The control plane leaves work for a node in a table of tasks.  A gateway session
of the node claims tasks under a lease, hands them to the agent, renews its
leases while the agent works and records the results; when it ends it gives its
leases back.  Sessions of one node overlap: a new one is opened while the
gateway, perhaps in another process, has not yet noticed that the old one is
gone.

One step of the model is one SQL statement, or one transaction whose statements
lock the same rows.  The statements of `convergeTasks`, `ensureGeoIPTask` and
`enqueueGeoIPForAll` are steps of their own and may come in any order, so that
the runs of the model are more than those of the code.  The owner of a lease is
a session; its identifier is new for every session, so sessions are numbered.
`claimTasks` skips rows that others have locked, so the step names the tasks it
picks.  What other parts of the control plane do to the table of nodes are two
steps, `setNode` and `deleteNode`, which takes the node's tasks along.  Times are
nanoseconds; the columns `heartbeat_at`, `created_at` and `compensation_json` are
left out.
-/

namespace AgentTasks

open GoStrings SqlTables
open JobQueue (Status Phase nullableString)

/-- `NodeStatus`. -/
inductive NodeStatus
  | pending
  | installing
  | online
  | offline
  | installFailed
  | disabled
deriving DecidableEq

/-- A row of `nodes` with its row of `node_credentials`, if there is one: the
credential is given by `revoked_at`. -/
structure Node where
  id : GoString
  status : NodeStatus
  credential : Option (Option Int)
deriving DecidableEq

/-- The kinds of tasks. -/
inductive Kind
  | applySiteConfig
  | purgeSite
  | nodeCacheConfig
  | syncGeoIP
deriving DecidableEq

/-- The JSON of a task: the members that statements look at, and the text. -/
structure Payload where
  siteID : Option GoString
  version : Nat
  disabled : Bool
  sha256 : Option GoString
  text : GoString
deriving DecidableEq

abbrev SessionId := Nat

/-- A row of `agent_tasks`. -/
structure Task where
  id : GoString
  nodeId : GoString
  kind : Kind
  payload : Payload
  status : Status
  leaseOwner : Option SessionId
  leaseUntil : Option Int
  attempts : Nat
  maxAttempts : Nat
  nextAttemptAt : Int
  idempotencyKey : Option GoString
  cancelRequestedAt : Option Int
  timeoutAt : Option Int
  resultJson : Option GoString
  error : Option GoString
  updatedAt : Int
deriving DecidableEq

/-- `AgentTaskResult`. -/
structure AgentTaskResult where
  taskID : GoString
  success : Bool
  result : GoString
  error : GoString

/-- A gateway session; `live` until it leaves its loop. -/
structure Session where
  node : GoString
  inflight : List GoString
  live : Bool

/-- The tables, the sessions, the number of the next session, and the digest of
the GeoIP database. -/
structure State where
  nodes : List Node
  tasks : List Task
  sessions : SessionId → Option Session
  nextSession : SessionId
  geoIP : GoString

/-- No nodes, no tasks and no sessions. -/
def init : State := ⟨[], [], fun _ => none, 0, []⟩

/-- How long a lease lasts. -/
def taskLease : Int := 45 * second

/-- The deadline of a dispatched task. -/
def agentTaskTimeout : Int := 900 * second

/-- How long ended tasks are kept. -/
def completedTaskTTL : Int := 7 * 24 * 3600 * second

/-- Tasks a session holds at a time. -/
def maxInflightTasks : Nat := 16

/-- `n.status = 'ONLINE' AND c.revoked_at IS NULL`. -/
def Node.serves (n : Node) : Prop := n.status = .online ∧ n.credential = some none

instance (n : Node) : Decidable n.serves := by
  unfold Node.serves
  infer_instance

/-- `n.status <> 'DISABLED' AND c.revoked_at IS NULL`. -/
def Node.admitted (n : Node) : Prop := n.status ≠ .disabled ∧ n.credential = some none

instance (n : Node) : Decidable n.admitted := by
  unfold Node.admitted
  infer_instance

/-- The node of a task serves. -/
def served (nodes : List Node) (nodeId : GoString) : Prop := ∃ n ∈ nodes, n.id = nodeId ∧ n.serves

instance (nodes : List Node) (nodeId : GoString) : Decidable (served nodes nodeId) := by
  unfold served
  infer_instance

/-- Tasks may be dispatched to the node. -/
def isAdmitted (nodes : List Node) (nodeId : GoString) : Prop :=
  ∃ n ∈ nodes, n.id = nodeId ∧ n.admitted

instance (nodes : List Node) (nodeId : GoString) : Decidable (isAdmitted nodes nodeId) := by
  unfold isAdmitted
  infer_instance

/-- The task has not ended. -/
def Task.active (t : Task) : Prop := t.status = .pending ∨ t.status = .running

instance (t : Task) : Decidable t.active := by
  unfold Task.active
  infer_instance

/-- The condition of `claimTasksSQL`. -/
def Task.claimable (nodes : List Node) (nodeId : GoString) (now : Int) (t : Task) : Prop :=
  t.nodeId = nodeId ∧ served nodes nodeId ∧ t.attempts < t.maxAttempts ∧
    t.cancelRequestedAt = none ∧ (∀ deadline ∈ t.timeoutAt, now < deadline) ∧
    (t.status = .pending ∧ t.nextAttemptAt ≤ now ∨
      t.status = .running ∧ ∀ till ∈ t.leaseUntil, till < now)

instance (nodes : List Node) (nodeId : GoString) (now : Int) (t : Task) :
    Decidable (t.claimable nodes nodeId now) := by
  unfold Task.claimable
  infer_instance

/-- A new row of `agent_tasks`, with the defaults of the schema. -/
def newTask (id nodeId : GoString) (kind : Kind) (payload : Payload) (key : Option GoString)
    (timeoutAt : Option Int) (now : Int) : Task :=
  { id := id, nodeId := nodeId, kind := kind, payload := payload, status := .pending
    leaseOwner := none, leaseUntil := none, attempts := 0, maxAttempts := 8, nextAttemptAt := now
    idempotencyKey := key, cancelRequestedAt := none, timeoutAt := timeoutAt, resultJson := none
    error := none, updatedAt := now }

/-- `ON CONFLICT (idempotency_key)`. -/
def conflicts (tasks : List Task) (task : Task) : Prop :=
  ∃ t ∈ tasks, t.idempotencyKey.isSome ∧ t.idempotencyKey = task.idempotencyKey

instance (tasks : List Task) (task : Task) : Decidable (conflicts tasks task) := by
  unfold conflicts
  infer_instance

/-- `INSERT … ON CONFLICT (idempotency_key) DO NOTHING`; identifiers are new. -/
def insertTask (tasks : List Task) (task : Task) : Option (List Task) :=
  if task.id ∈ tasks.map Task.id then none
  else if conflicts tasks task then some tasks
  else some (tasks ++ [task])

/-- The transaction of `Dispatch`. -/
def dispatch (s : State) (id nodeId : GoString) (kind : Kind) (payload : Payload) (now : Int) :
    Option State :=
  if isAdmitted s.nodes nodeId then
    (insertTask s.tasks
      (newTask id nodeId kind payload (some id) (some (now + agentTaskTimeout)) now)).map
        fun tasks => { s with tasks := tasks }
  else none

/-- The transaction of `reconcileCacheConfig`. -/
def reconcileCacheConfig (s : State) (id nodeId : GoString) (payload : Payload) (now : Int) :
    Option State :=
  if served s.nodes nodeId ∧
      ¬ ∃ t ∈ s.tasks, t.nodeId = nodeId ∧ t.kind = .nodeCacheConfig ∧ t.active then
    (insertTask s.tasks (newTask id nodeId .nodeCacheConfig payload none
      (some (now + agentTaskTimeout)) now)).map fun tasks => { s with tasks := tasks }
  else some s

/-- `enqueueSiteTombstoneSQL`, as `ensureSiteTombstone` uses it: `encoded` is
the text of the configuration. -/
def ensureSiteTombstone (s : State) (id nodeId siteID : GoString) (reportedVersion : Nat)
    (encoded : GoString) (now : Int) : Option State :=
  let version := reportedVersion + 1
  let done := fun t : Task => t.nodeId = nodeId ∧ t.kind = .applySiteConfig ∧
    (t.active ∨ t.status = .succeeded) ∧ t.payload.siteID = some siteID ∧ t.payload.disabled ∧
    reportedVersion ≤ t.payload.version
  if ∃ t ∈ s.tasks, done t then some s
  else
    (insertTask s.tasks (newTask id nodeId .applySiteConfig
      ⟨some siteID, version, true, none, encoded⟩
      (some (nodeId ++ lit ":site-tombstone:" ++ siteID ++ lit ":" ++ lit (toString version)))
      none now)).map fun tasks => { s with tasks := tasks }

/-- The idempotency key of a GeoIP task. -/
def geoIPKey (nodeId sha256 : GoString) : GoString := nodeId ++ lit ":geoip:" ++ sha256

/-- Its payload. -/
def geoIPPayload (sha256 : GoString) : Payload := ⟨none, 0, false, some sha256, sha256⟩

/-- A task that is to run again. -/
def Task.rearmed (now : Int) (t : Task) : Task :=
  { t with
    status := .pending, attempts := 0, nextAttemptAt := now, leaseOwner := none
    leaseUntil := none, cancelRequestedAt := none, resultJson := none, error := none
    updatedAt := now }

/-- `ensureGeoIPTask` has something to do: `agent` is the digest the agent
reports. -/
def State.lacksGeoIP (s : State) (agent : GoString) : Prop := s.geoIP ≠ [] ∧ agent ≠ s.geoIP

instance (s : State) (agent : GoString) : Decidable (s.lacksGeoIP agent) := by
  unfold State.lacksGeoIP
  infer_instance

/-- The first statement of `ensureGeoIPTask`: a completed task runs again. -/
def rearmGeoIPTask (s : State) (nodeId : GoString) (now : Int) : State :=
  { s with
    tasks := update
      (fun t : Task => t.idempotencyKey = some (geoIPKey nodeId s.geoIP) ∧ t.status.terminal)
      (Task.rearmed now) s.tasks }

/-- The second statement of `ensureGeoIPTask`. -/
def insertGeoIPTask (s : State) (id nodeId : GoString) (now : Int) : Option State :=
  (insertTask s.tasks (newTask id nodeId .syncGeoIP (geoIPPayload s.geoIP)
    (some (geoIPKey nodeId s.geoIP)) none now)).map fun tasks => { s with tasks := tasks }

/-- The first statement of `enqueueGeoIPForAll`. -/
def supersedeGeoIP (s : State) (now : Int) : State :=
  { s with
    tasks := update
      (fun t : Task => t.kind = .syncGeoIP ∧ t.status = .pending ∧
        ∃ sha ∈ t.payload.sha256, sha ≠ s.geoIP)
      (fun t => { t with
        status := .cancelled, cancelRequestedAt := some now
        error := some (lit "superseded by newer GeoIP database"), updatedAt := now }) s.tasks }

/-- The second statement of `enqueueGeoIPForAll`. -/
def rearmGeoIP (s : State) (now : Int) : State :=
  { s with
    tasks := update
      (fun t : Task => t.kind = .syncGeoIP ∧ t.payload.sha256 = some s.geoIP ∧
        (t.status = .failed ∨ t.status = .deadLetter ∨ t.status = .cancelled) ∧
        isAdmitted s.nodes t.nodeId)
      (Task.rearmed now) s.tasks }

/-- `enqueueGeoIPTasksSQL` for one node. -/
def enqueueGeoIPTask (sha256 : GoString) (ids : GoString → GoString) (now : Int)
    (tasks : List Task) (n : Node) : Option (List Task) :=
  if n.admitted ∧ ¬ ∃ t ∈ tasks, t.nodeId = n.id ∧ t.kind = .syncGeoIP ∧
      t.payload.sha256 = some sha256 ∧ (t.active ∨ t.status = .succeeded) then
    insertTask tasks (newTask (ids n.id) n.id .syncGeoIP (geoIPPayload sha256)
      (some (geoIPKey n.id sha256)) none now)
  else some tasks

/-- The third statement of `enqueueGeoIPForAll`; `ids` are the identifiers of
the new tasks. -/
def enqueueGeoIP (s : State) (ids : GoString → GoString) (now : Int) : Option State :=
  (s.nodes.foldlM (enqueueGeoIPTask s.geoIP ids now) s.tasks).map fun tasks =>
    { s with tasks := tasks }

/-- Set a session. -/
def State.setSession (s : State) (sid : SessionId) (session : Option Session) : State :=
  { s with sessions := fun i => if i = sid then session else s.sessions i }

/-- The sessions that are in their loop. -/
def State.liveSession (s : State) (sid : SessionId) : Option Session :=
  (s.sessions sid).filter Session.live

/-- `claimTasks`, of the tasks that are picked. -/
def claimTasks (s : State) (sid : SessionId) (ids : List GoString) (now : Int) : Option State :=
  (s.liveSession sid).bind fun session =>
    if ids.length ≤ maxInflightTasks - session.inflight.length ∧
        ∀ id ∈ ids, ∃ t ∈ s.tasks, t.id = id ∧ t.claimable s.nodes session.node now then
      some ({ s with
        tasks := update (fun t : Task => t.id ∈ ids)
          (fun t => { t with
            status := .running, leaseOwner := some sid, leaseUntil := some (now + taskLease)
            attempts := t.attempts + 1, updatedAt := now }) s.tasks }.setSession sid
        (some { session with inflight := session.inflight ++ ids }))
    else none

/-- `renewLeases`. -/
def renewLeases (s : State) (sid : SessionId) (now : Int) : Option State :=
  (s.liveSession sid).bind fun session =>
    if session.inflight = [] then none
    else
      some { s with
        tasks := update
          (fun t : Task => t.leaseOwner = some sid ∧ t.status = .running ∧
            t.cancelRequestedAt = none ∧ (∀ deadline ∈ t.timeoutAt, now < deadline) ∧
            served s.nodes t.nodeId)
          (fun t => { t with leaseUntil := some (now + taskLease), updatedAt := now }) s.tasks }

/-- The condition of `completeTask`. -/
def Task.completable (nodes : List Node) (nodeId : GoString) (sid : SessionId) (id : GoString)
    (t : Task) : Prop :=
  t.id = id ∧ t.nodeId = nodeId ∧ t.leaseOwner = some sid ∧ t.status = .running ∧
    served nodes nodeId

instance (nodes : List Node) (nodeId : GoString) (sid : SessionId) (id : GoString) (t : Task) :
    Decidable (t.completable nodes nodeId sid id) := by
  unfold Task.completable
  infer_instance

/-- The row of a task whose result is recorded. -/
def Task.completed (result : AgentTaskResult) (now : Int) (t : Task) : Task :=
  { t with
    status := if result.success then .succeeded else .failed
    resultJson := nullableString result.result
    error := nullableString result.error
    leaseOwner := none, leaseUntil := none, updatedAt := now }

/-- The statement of `completeTask`. -/
def completeTasks (s : State) (nodeId : GoString) (sid : SessionId) (result : AgentTaskResult)
    (now : Int) : List Task :=
  update (fun t => t.completable s.nodes nodeId sid result.taskID) (Task.completed result now)
    s.tasks

/-- `completeTask` for a result the agent sent: with a stale lease the session
ends, unless the task has converged. -/
def completeTask (s : State) (sid : SessionId) (result : AgentTaskResult) (now : Int) :
    Option State :=
  (s.liveSession sid).map fun session =>
    let recorded := ∃ t ∈ s.tasks, t.completable s.nodes session.node sid result.taskID
    let converged := ∃ t ∈ s.tasks, t.id = result.taskID ∧ t.nodeId = session.node ∧
      t.status.terminal
    { s with tasks := completeTasks s session.node sid result now }.setSession sid
      (some { session with
        inflight := session.inflight.erase result.taskID
        live := decide (recorded ∨ converged) })

/-- `completeTask` as `claimTasks` uses it, for a payload it cannot unseal. -/
def failUnsealed (s : State) (sid : SessionId) (taskID error : GoString) (now : Int) :
    Option State :=
  (s.liveSession sid).map fun session =>
    { s with tasks := completeTasks s session.node sid ⟨taskID, false, [], error⟩ now }.setSession
      sid (some { session with inflight := session.inflight.erase taskID })

/-- `releaseLeases`, of a session that has ended. -/
def releaseLeases (s : State) (sid : SessionId) (now : Int) : Option State :=
  ((s.sessions sid).filter fun session => !session.live).map fun session =>
    { s with
      tasks := update
        (fun t : Task => t.nodeId = session.node ∧ t.leaseOwner = some sid ∧
          t.status = Status.running ∧ t.cancelRequestedAt = none)
        (fun t => { t with
          status := .pending, leaseOwner := none, leaseUntil := none, nextAttemptAt := now
          updatedAt := now }) s.tasks }.setSession sid none

/-- The row of a task that is cancelled. -/
def Task.cancelled (error : Option GoString) (now : Int) (t : Task) : Task :=
  { t with
    status := .cancelled, cancelRequestedAt := some now, error := error, leaseOwner := none
    leaseUntil := none, updatedAt := now }

/-- `cancelAbandonedTaskSQL`. -/
def cancelAbandonedTask (s : State) (id : GoString) (now : Int) : State :=
  { s with
    tasks := update (fun t : Task => t.id = id ∧ t.active)
      (fun t => t.cancelled (t.error <|> some (lit "dispatch caller stopped waiting")) now)
      s.tasks }

/-- What revokes, disables and reinstalls a node does to its tasks. -/
def cancelNodeTasks (nodeId error : GoString) (now : Int) (tasks : List Task) : List Task :=
  update (fun t : Task => t.nodeId = nodeId ∧ t.active) (Task.cancelled (some error) now) tasks

/-- `RevokeTx`. -/
def revoke (s : State) (nodeId : GoString) (now : Int) : Option State :=
  if ∃ n ∈ s.nodes, n.id = nodeId ∧ n.credential.isSome then
    some { s with
      nodes := update (fun n : Node => n.id = nodeId)
        (fun n => { n with credential := some (some now) }) s.nodes
      tasks := cancelNodeTasks nodeId (lit "node credential was revoked") now s.tasks }
  else none

/-- The transaction of `disableNode`, for a node that is or is not disabled. -/
def disableNode (s : State) (nodeId : GoString) (now : Int) : State :=
  let disabled := ∃ n ∈ s.nodes, n.id = nodeId ∧ n.status = .disabled
  { s with
    nodes := update (fun n : Node => n.id = nodeId) (fun n => { n with status := .disabled })
      s.nodes
    tasks := cancelNodeTasks nodeId
      (if disabled then lit "node is disabled" else lit "node was disabled") now s.tasks }

/-- The transaction that prepares a reinstallation. -/
def reinstallNode (s : State) (nodeId : GoString) (now : Int) : State :=
  { s with
    nodes := update (fun n : Node => n.id = nodeId)
      (fun n => { n with status := .pending, credential := some none }) s.nodes
    tasks := cancelNodeTasks nodeId
      (lit "node reinstallation replaced the active credential") now s.tasks }

/-- A node is deleted; `onDelete: Cascade` deletes its tasks. -/
def deleteNode (s : State) (nodeId : GoString) : State :=
  { s with
    nodes := s.nodes.filter fun n => n.id ≠ nodeId
    tasks := s.tasks.filter fun t => t.nodeId ≠ nodeId }

/-- The error a statement of `convergeTasks` leaves. -/
def taskMessage : Phase → GoString
  | .cancelRequested => lit "agent task cancellation requested"
  | .deadlineExpired => lit "agent task execution deadline expired"
  | .attemptsExceeded => lit "maximum agent task delivery attempts exceeded"

/-- The condition of a statement of `convergeTasks`. -/
def Task.converges (phase : Phase) (now : Int) (t : Task) : Prop :=
  (match phase with
    | .cancelRequested => t.cancelRequestedAt.isSome = true
    | .deadlineExpired => ∃ deadline ∈ t.timeoutAt, deadline ≤ now
    | .attemptsExceeded => t.maxAttempts ≤ t.attempts) ∧
  (t.status = .pending ∨ t.status = .running ∧ ∀ till ∈ t.leaseUntil, till ≤ now)

instance (phase : Phase) (now : Int) (t : Task) : Decidable (t.converges phase now) := by
  unfold Task.converges
  cases phase <;> infer_instance

/-- A statement of `convergeTasks`. -/
def convergeTasks (s : State) (phase : Phase) (now : Int) : State :=
  { s with
    tasks := update (fun t => t.converges phase now)
      (fun t => { t with
        status := phase.status, error := t.error <|> some (taskMessage phase), leaseOwner := none
        leaseUntil := none, updatedAt := now }) s.tasks }

/-- `RewrapApplySiteConfigPayloads`, for one task. -/
def rewrapPayload (s : State) (id text : GoString) (now : Int) : State :=
  { s with
    tasks := update (fun t : Task => t.id = id ∧ t.kind = .applySiteConfig)
      (fun t => { t with payload := { t.payload with text := text }, updatedAt := now }) s.tasks }

/-- `cleanupTasks`. -/
def cleanupTasks (s : State) (now : Int) : State :=
  { s with
    tasks := s.tasks.filter fun t =>
      ¬ (t.status.terminal ∧ t.updatedAt < now - completedTaskTTL) }

/-- The statements of dispatchers, sessions and the control plane. -/
inductive Action
  | setNode (node : Node)
  | deleteNode (nodeId : GoString)
  | connect (nodeId : GoString)
  | recordHeartbeat (sid : SessionId)
  | dispatch (id nodeId : GoString) (kind : Kind) (payload : Payload) (now : Int)
  | reconcileCacheConfig (sid : SessionId) (id : GoString) (payload : Payload) (now : Int)
  | ensureSiteTombstone (sid : SessionId) (id siteID : GoString) (reportedVersion : Nat)
      (encoded : GoString) (now : Int)
  | refreshGeoIP (sha256 : GoString)
  | rearmGeoIPTask (sid : SessionId) (agent : GoString) (now : Int)
  | insertGeoIPTask (sid : SessionId) (id agent : GoString) (now : Int)
  | supersedeGeoIP (now : Int)
  | rearmGeoIP (now : Int)
  | enqueueGeoIP (ids : GoString → GoString) (now : Int)
  | claimTasks (sid : SessionId) (ids : List GoString) (now : Int)
  | renewLeases (sid : SessionId) (now : Int)
  | completeTask (sid : SessionId) (result : AgentTaskResult) (now : Int)
  | failUnsealed (sid : SessionId) (taskID error : GoString) (now : Int)
  /-- the session leaves its loop: the stream breaks, the heartbeat is late,
  the credential is refused, or the gateway closes it -/
  | disconnect (sid : SessionId)
  | releaseLeases (sid : SessionId) (now : Int)
  | cancelAbandonedTask (id : GoString) (now : Int)
  | revoke (nodeId : GoString) (now : Int)
  | disableNode (nodeId : GoString) (now : Int)
  | reinstallNode (nodeId : GoString) (now : Int)
  | convergeTasks (phase : Phase) (now : Int)
  | rewrapPayload (id text : GoString) (now : Int)
  | cleanupTasks (now : Int)

/-- One step. -/
def step (s : State) : Action → Option State
  | .setNode node =>
    some { s with nodes := s.nodes.filter (fun n => n.id ≠ node.id) ++ [node] }
  | .deleteNode nodeId => some (deleteNode s nodeId)
  | .connect nodeId =>
    if isAdmitted s.nodes nodeId then
      some ({ s with nextSession := s.nextSession + 1 }.setSession s.nextSession
        (some ⟨nodeId, [], true⟩))
    else none
  | .recordHeartbeat sid =>
    (s.liveSession sid).map fun session =>
      { s with
        nodes := update (fun n : Node => n.id = session.node ∧ n.status ≠ .disabled)
          (fun n => { n with status := .online }) s.nodes }
  | .dispatch id nodeId kind payload now => dispatch s id nodeId kind payload now
  | .reconcileCacheConfig sid id payload now =>
    (s.liveSession sid).bind fun session =>
      reconcileCacheConfig s id session.node payload now
  | .ensureSiteTombstone sid id siteID reportedVersion encoded now =>
    (s.liveSession sid).bind fun session =>
      ensureSiteTombstone s id session.node siteID reportedVersion encoded now
  | .refreshGeoIP sha256 => some { s with geoIP := sha256 }
  | .rearmGeoIPTask sid agent now =>
    (s.liveSession sid).bind fun session =>
      if s.lacksGeoIP agent then some (rearmGeoIPTask s session.node now) else none
  | .insertGeoIPTask sid id agent now =>
    (s.liveSession sid).bind fun session =>
      if s.lacksGeoIP agent then insertGeoIPTask s id session.node now else none
  | .supersedeGeoIP now => some (supersedeGeoIP s now)
  | .rearmGeoIP now => some (rearmGeoIP s now)
  | .enqueueGeoIP ids now => enqueueGeoIP s ids now
  | .claimTasks sid ids now => claimTasks s sid ids now
  | .renewLeases sid now => renewLeases s sid now
  | .completeTask sid result now => completeTask s sid result now
  | .failUnsealed sid taskID error now => failUnsealed s sid taskID error now
  | .disconnect sid =>
    (s.liveSession sid).map fun session =>
      s.setSession sid (some { session with live := false })
  | .releaseLeases sid now => releaseLeases s sid now
  | .cancelAbandonedTask id now => some (cancelAbandonedTask s id now)
  | .revoke nodeId now => revoke s nodeId now
  | .disableNode nodeId now => some (disableNode s nodeId now)
  | .reinstallNode nodeId now => some (reinstallNode s nodeId now)
  | .convergeTasks phase now => some (convergeTasks s phase now)
  | .rewrapPayload id text now => some (rewrapPayload s id text now)
  | .cleanupTasks now => some (cleanupTasks s now)

end AgentTasks
