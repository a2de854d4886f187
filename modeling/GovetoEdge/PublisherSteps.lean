import GovetoEdge.PublisherVersions

/-!
# The steps of the publisher

Each step is taken apart here once, so that invariants need not look into it.

* `Transition` is what an execution does with an answer; all statements that
  write are listed in `Write`.
* `Turn` is what a step does; `Effect` is what it does to the tables: the jobs are
  kept, or one is created, or a rollback is reserved.
* `Working` is the invariant of the rows and of what the workers know of them.
-/

namespace Publisher

open GoStrings SqlTables List Option JobQueue
open JobQueue (WorkerId Lease Status Phase)

variable {κ : Type}

variable {j : Job} {now : Int} {t : Tables κ}

/-- The oldest job is claimed. -/
theorem first_of_claimable (h : j.queueRow.claimable (t.jobs.map Job.queueRow) now) :
    t.First j := by
  intro k hk hactive hcancelled
  have hblocks := h.2.2.2.2 k.queueRow (mem_map_of_mem hk)
  by_contra hlt
  apply hblocks
  have hrequested : k.row.cancelRequestedAt = none := by simpa [Job.cancelled] using hcancelled
  exact ⟨rfl, by omega, hrequested, hactive⟩

/-- A claim keeps the version. -/
theorem keeps_claimed (worker : WorkerId) (h : j.queueRow.claimable (t.jobs.map Job.queueRow) now) :
    j.Keeps t { j with row := j.row.claimed worker now publishTimeout } where
  id := rfl
  version := rfl
  plan := rfl
  createdAt := rfl
  active _ := h.2.2.2.1.imp And.left And.left
  cancelled := id
  attempts _ := .inr (first_of_claimable h)

/-- Only a positive delay requeues. -/
theorem requeueAfter_of_requeue {lease : Lease} {o : Outcome}
    (h : (outcomeDecision now lease o.toQueue).requeue = true) : 0 < o.requeueAfter := by
  unfold outcomeDecision at h
  by_contra hle
  have hno : decide (0 < o.toQueue.requeueAfter) = false := decide_eq_false hle
  simp only [hno] at h
  split at h
  · simp at h
  · simp only [Bool.false_eq_true, if_false] at h
    repeat' split at h
    all_goals simp at h

/-- Only a job that is put back gets its attempt back. -/
theorem attempts_finished (j : Job) (now : Int) (lease : Lease) (outcome : Outcome) :
    (j.finished now lease outcome).attempts = j.attempts ∨
      0 < outcome.requeueAfter ∧ (j.finished now lease outcome).attempts = j.attempts - 1 := by
  unfold Job.finished Job.attempts JobQueue.Job.finished
  dsimp only
  split
  · next h => exact .inr ⟨requeueAfter_of_requeue h.2, rfl⟩
  · exact .inl rfl

/-- A plan that is returned is the one that is recorded. -/
theorem plan_finished {outcome : Outcome} (now : Int) (lease : Lease)
    (hplan : ∀ p ∈ outcome.compensation, j.plan = some p) :
    (j.finished now lease outcome).plan = j.plan := by
  unfold Job.finished
  cases hcompensation : outcome.compensation with
  | none => rfl
  | some p => exact (hplan p hcompensation).symm

/-- An outcome keeps the version, too. -/
theorem keeps_finished {worker : WorkerId} {lease : Lease} {outcome : Outcome} (now : Int)
    (hfenced : j.row.fenced worker lease) (hplan : ∀ p ∈ outcome.compensation, j.plan = some p) :
    j.Keeps t (j.finished now lease outcome) where
  id := rfl
  version := rfl
  plan := plan_finished now lease hplan
  createdAt := rfl
  active _ := .inr hfenced.2.1
  cancelled := id
  attempts := by
    intro hpos
    rcases attempts_finished j now lease outcome with h | ⟨-, h⟩
    · exact .inl (by omega)
    · exact .inl (by omega)

/-- The rollback that is under way. -/
def Stage.plan : Stage → Option Plan
  | .loadRollback p => some p
  | .rollbackAnswers p => some p
  | .markFailed p _ => some p
  | .markRollback p _ => some p
  | .recordRollback p => some p
  | .recordRolledBackNodes p _ => some p
  | .ended outcome => outcome.compensation
  | _ => none

/-- The statements of an execution that write. -/
inductive Write (t : Tables κ) (job : Job) : Stage → Tables κ → Stage → Prop
  | site : Write t job .recordSite { t with siteVersion := job.version } .markPublished
  | published : Write t job .markPublished (t.mark job.version .published) .recordNodes
  | nodes : Write t job .recordNodes t (.ended ⟨none, none, false, 0⟩)
  | rejected (message : GoString) :
      Write t job (.markRejected message) (t.mark job.version .failed)
        (.ended (failure message false))
  | failed (plan : Plan) (complete : Bool) :
      Write t job (.markFailed plan complete) (t.mark job.version .failed)
        (.markRollback plan complete)
  | rolledBack (plan : Plan) :
      Write t job (.markRollback plan true) (t.mark plan.version .rolledBack) (.recordRollback plan)
  | notRolledBack (plan : Plan) :
      Write t job (.markRollback plan false) (t.mark plan.version .failed)
        (.recordRolledBackNodes plan false)
  | siteBack (plan : Plan) :
      Write t job (.recordRollback plan) { t with siteVersion := plan.version }
        (.recordRolledBackNodes plan true)
  | nodesBack (plan : Plan) (complete : Bool) :
      Write t job (.recordRolledBackNodes plan complete) t
        (.ended (rollbackFailure plan (rolledBackMessage complete) false))

/-- An outcome of an execution that is cut short: the plan is not lost. -/
structure GivesUp (stage : Stage) (o : Outcome) : Prop where
  compensation : o.compensation = stage.plan
  err : o.err.isSome = true
  requeueAfter : o.requeueAfter = 0

/-- What an execution does with an answer. -/
inductive Transition (tombstone : κ) (t : Tables κ) (job : Job) : Stage → Input → Progress κ → Prop
  | sent (x : Snapshot κ) (hx : t.snapshot job.version = some x) :
      Transition tombstone t job .load .ok ⟨t, .answers, some (job.version, x.config)⟩
  | sentBack (plan : Plan) (x : Snapshot κ) (hx : t.snapshot plan.version = some x) :
      Transition tombstone t job (.loadRollback plan) .ok
        ⟨t, .rollbackAnswers plan, some (plan.version, x.config)⟩
  | answered (errors : NodeId → Option GoString) :
      Transition tombstone t job .answers (.answers errors)
        ⟨t, afterAnswers job.targets errors, none⟩
  | answeredBack (plan : Plan) (errors : NodeId → Option GoString) :
      Transition tombstone t job (.rollbackAnswers plan) (.answers errors)
        ⟨t, .markFailed plan (plan.targets.all fun n => errors n = none), none⟩
  | wrote (stage next : Stage) (t' : Tables κ) (h : Write t job stage t' next) :
      Transition tombstone t job stage .ok ⟨t', next, none⟩
  | lost (stage next : Stage) (t' : Tables κ) (message : GoString) (o : Outcome)
      (h : Write t job stage t' next) (ho : GivesUp stage o) :
      Transition tombstone t job stage (.lost message) ⟨t', .ended o, none⟩
  | gaveUp (stage : Stage) (input : Input) (o : Outcome) (ho : GivesUp stage o) :
      Transition tombstone t job stage input ⟨t, .ended o, none⟩
  | reserved (succeeded : List NodeId) (input : Input) (plan : Plan) (t' : Tables κ) (next : Stage)
      (h : Reserved t job t' plan)
      (hnext : next = .loadRollback plan ∨ ∃ message, next = .ended (failure message true)) :
      Transition tombstone t job (.reserve succeeded) input ⟨t', next, none⟩

section Transitions

variable {tombstone : κ} {t : Tables κ} {job : Job} {stage : Stage} {input : Input} {p : Progress κ}

variable {next : Stage} {t' : Tables κ}

/-- A write of the stage. -/
theorem transition_writes {failed : GoString → Outcome} (h : writes t t' next failed input = some p)
    (hwrite : Write t job stage t' next) (hfailed : ∀ message, GivesUp stage (failed message)) :
    Transition tombstone t job stage input p := by
  unfold writes at h
  split at h <;> simp only [Option.some.injEq, reduceCtorEq] at h
  all_goals subst h
  · exact .wrote stage next t' hwrite
  · exact .gaveUp stage _ _ (hfailed _)
  · exact .lost stage next t' _ _ hwrite (hfailed _)

/-- A request to nodes. -/
theorem transition_sends {version : Int} {missing : Outcome}
    {failed unreadable : GoString → Outcome}
    (h : sends t version next missing failed unreadable input = some p)
    (hsent : ∀ x, t.snapshot version = some x → Transition tombstone t job stage .ok ⟨t, next,
      some (version, x.config)⟩)
    (hmissing : GivesUp stage missing) (hfailed : ∀ message, GivesUp stage (failed message))
    (hunreadable : ∀ message, GivesUp stage (unreadable message)) :
    Transition tombstone t job stage input p := by
  unfold sends at h
  split at h
  · split at h
    · next x hx =>
      cases h
      exact hsent x hx
    · cases h
      exact .gaveUp stage _ _ hmissing
  · cases h
    exact .gaveUp stage _ _ (hfailed _)
  · cases h
    exact .gaveUp stage _ _ (hunreadable _)
  · cases h

/-- **An execution does nothing else.** -/
theorem transition_of_advance (h : advance tombstone t job stage input = some p) :
    Transition tombstone t job stage input p := by
  have hfailure : ∀ {stage : Stage} (message : GoString) (retryable : Bool), stage.plan = none →
      GivesUp stage (failure message retryable) := fun _ _ hplan => ⟨hplan.symm, rfl, rfl⟩
  have hrollback : ∀ {stage : Stage} {plan : Plan} (message : GoString) (retryable : Bool),
      stage.plan = some plan → GivesUp stage (rollbackFailure plan message retryable) :=
    fun _ _ hplan => ⟨hplan.symm, rfl, rfl⟩
  cases stage with
  | load =>
    exact transition_sends h (fun x hx => .sent x hx) (hfailure _ _ rfl)
      (fun _ => hfailure _ _ rfl) fun _ => hfailure _ _ rfl
  | answers =>
    cases input <;> simp only [advance, Option.some.injEq, reduceCtorEq] at h
    subst h
    exact .answered _
  | recordSite => exact transition_writes h .site fun _ => hfailure _ _ rfl
  | markPublished => exact transition_writes h .published fun _ => hfailure _ _ rfl
  | recordNodes => exact transition_writes h .nodes fun _ => hfailure _ _ rfl
  | markRejected message => exact transition_writes h (.rejected message) fun _ => hfailure _ _ rfl
  | reserve succeeded =>
    cases input <;> simp only [advance, Option.some.injEq, reduceCtorEq] at h
    case fails message =>
        subst h
        exact .gaveUp _ _ _ (hfailure _ _ rfl)
    case reserved now readable error =>
        obtain ⟨⟨t', plan⟩, hreserve, rfl⟩ := map_eq_some_iff.mp h
        refine .reserved succeeded _ plan t' _ (reserveRollback_spec hreserve) ?_
        cases error with
        | none => exact .inl rfl
        | some message => exact .inr ⟨message, rfl⟩
  | loadRollback plan =>
    exact transition_sends h (fun x hx => .sentBack plan x hx) (hrollback _ _ rfl)
      (fun _ => hrollback _ _ rfl) fun _ => hrollback _ _ rfl
  | rollbackAnswers plan =>
    cases input <;> simp only [advance, Option.some.injEq, reduceCtorEq] at h
    subst h
    exact .answeredBack plan _
  | markFailed plan complete =>
    exact transition_writes h (.failed plan complete) fun _ => hrollback _ _ rfl
  | markRollback plan complete =>
    cases complete with
    | false => exact transition_writes h (.notRolledBack plan) fun _ => hrollback _ _ rfl
    | true => exact transition_writes h (.rolledBack plan) fun _ => hrollback _ _ rfl
  | recordRollback plan => exact transition_writes h (.siteBack plan) fun _ => hrollback _ _ rfl
  | recordRolledBackNodes plan complete =>
    exact transition_writes h (.nodesBack plan complete) fun _ => hrollback _ _ rfl
  | ended outcome => simp [advance] at h

theorem not_ended_of_advance (h : advance tombstone t job stage input = some p) (o : Outcome) :
    stage ≠ .ended o := by
  rintro rfl
  simp [advance] at h

/-- Writes keep the jobs. -/
theorem Write.kept (h : Write t job stage t' next) : Kept t t' := by
  cases h with
  | site | siteBack => exact kept_site t _
  | published | rejected | failed | rolledBack | notRolledBack => exact kept_mark t _ _
  | nodes | nodesBack => exact .refl t

/-- A write does not change what is to be rolled back. -/
theorem Write.plan (h : Write t job stage t' next) : next.plan = stage.plan := by
  cases h <;> rfl

theorem plan_afterAnswers (targets : List NodeId) (errors : NodeId → Option GoString) :
    (afterAnswers targets errors).plan = none := by
  unfold afterAnswers
  dsimp only
  repeat' split
  all_goals rfl

theorem Write.jobs (h : Write t job stage t' next) : t'.jobs = t.jobs := by
  cases h <;> rfl

/-- An execution changes the tables by a statement or by a reservation. -/
theorem Transition.kinds (h : Transition tombstone t job stage input p) :
    (p.tables = t ∧ p.stage.plan = stage.plan) ∨
      (∃ next, Write t job stage p.tables next ∧ p.stage.plan = stage.plan) ∨
      ∃ succeeded plan, stage = .reserve succeeded ∧ Reserved t job p.tables plan ∧
        p.sent = none ∧
        (p.stage = .loadRollback plan ∨ ∃ message, p.stage = .ended (failure message true)) := by
  cases h with
  | sent | sentBack | answeredBack => exact .inl ⟨rfl, rfl⟩
  | answered errors => exact .inl ⟨rfl, plan_afterAnswers _ _⟩
  | wrote _ next _ h => exact .inr (.inl ⟨next, h, h.plan⟩)
  | lost _ next _ _ _ h ho => exact .inr (.inl ⟨next, h, ho.compensation⟩)
  | gaveUp _ _ _ ho => exact .inl ⟨rfl, ho.compensation⟩
  | reserved succeeded _ plan _ _ h hnext =>
    exact .inr (.inr ⟨succeeded, plan, rfl, h, rfl, hnext⟩)

/-- The jobs stay as they are, or a rollback is reserved. -/
theorem Transition.tables (h : Transition tombstone t job stage input p) :
    (Kept t p.tables ∧ p.tables.jobs = t.jobs ∧ p.stage.plan = stage.plan) ∨
      ∃ succeeded plan, stage = .reserve succeeded ∧ Reserved t job p.tables plan ∧
        p.sent = none ∧
        (p.stage = .loadRollback plan ∨ ∃ message, p.stage = .ended (failure message true)) := by
  rcases h.kinds with ⟨htables, hplan⟩ | ⟨next, hwrite, hplan⟩ | hreserved
  · rw [htables]
    exact .inl ⟨.refl t, rfl, hplan⟩
  · exact .inl ⟨hwrite.kept, hwrite.jobs, hplan⟩
  · exact .inr hreserved

/-- The site gets the version of the job or the reserved one. -/
theorem Transition.site (h : Transition tombstone t job stage input p) :
    p.tables.siteVersion = t.siteVersion ∨ p.tables.siteVersion = job.version ∨
      ∃ plan, stage.plan = some plan ∧ p.tables.siteVersion = plan.version := by
  rcases h.kinds with ⟨htables, -⟩ | ⟨next, hwrite, -⟩ | ⟨succeeded, plan, -, hreserved, -⟩
  · exact .inl (by rw [htables])
  · generalize p.tables = t' at hwrite ⊢
    cases hwrite with
    | site => exact .inr (.inl rfl)
    | siteBack plan => exact .inr (.inr ⟨plan, rfl, rfl⟩)
    | published | nodes | rejected | failed | rolledBack | notRolledBack | nodesBack =>
      exact .inl rfl
  · exact .inl hreserved.site

end Transitions

/-- What is known of the plan of a job at a stage. -/
def Stage.Agrees (plan : Option Plan) : Stage → Prop
  | .ended outcome => ∀ p ∈ outcome.compensation, plan = some p
  | stage => plan = stage.plan

/-- The plan of a stage is the job's. -/
theorem Stage.Agrees.plan {plan : Option Plan} {stage : Stage} (h : stage.Agrees plan) :
    ∀ p ∈ stage.plan, plan = some p := by
  intro p hp
  cases stage with
  | ended outcome => exact h p hp
  | _ => exact Eq.trans h hp

/-- A stage behind one with the same plan. -/
theorem agrees_of_plan {plan : Option Plan} {stage next : Stage} (h : stage.Agrees plan)
    (hended : ∀ o, stage ≠ .ended o) (hplan : next.plan = stage.plan) : next.Agrees plan := by
  have hstage : plan = stage.plan := by
    cases stage with
    | ended outcome => exact absurd rfl (hended outcome)
    | _ => exact h
  cases next with
  | ended outcome => exact fun p hp => hstage.trans (hplan.symm.trans hp)
  | _ => exact hstage.trans hplan.symm

/-- The row of the job that is executed. -/
structure Execution.Executes (x : Execution) (j : Job) : Prop where
  id : j.id = x.job.id
  lease : x.lease.id = x.job.id
  version : j.version = x.job.version
  plan : x.stage.Agrees j.plan
  cancelled : x.job.cancelled = true → j.cancelled = true

/-- The row of the job that is leased; a plan that is returned is recorded there. -/
structure Run.Leases (r : Run) (j : Job) : Prop where
  id : j.id = r.lease.id
  plan : ∀ o ∈ r.outcome, ∀ p ∈ o.compensation, j.plan = some p

/-- The rows, and what the workers know of them. -/
structure Working (s : State κ) : Prop where
  rows : Rows s.tables
  reading : ∀ v ∈ s.reading, 0 ≤ v
  site : 0 ≤ s.tables.siteVersion
  lock : ∀ x ∈ s.lock, ∃ j ∈ s.tables.jobs, x.Executes j
  runs : ∀ w, ∀ r ∈ s.runs w, ∃ j ∈ s.tables.jobs, r.Leases j

/-- Nobody works. -/
theorem working_init (version : Nat) : Working (init κ version) where
  rows := ⟨nodup_nil, nodup_nil, by simp [init], by simp [init], by simp [init]⟩
  reading := by simp [init]
  site := by simp [init]
  lock := by simp [init]
  runs := by simp [init]

variable {j : Job} {t t' : Tables κ} {x : Execution} {r : Run} {now : Int} {s s' : State κ}
  {worker : WorkerId} {tombstone : κ} {a : Action κ}

/-- An execution stays one of its job. -/
theorem Execution.Executes.keeps {j' : Job} (h : x.Executes j) (hkeeps : j.Keeps t j') :
    x.Executes j' where
  id := hkeeps.id.trans h.id
  lease := h.lease
  version := hkeeps.version.trans h.version
  plan := hkeeps.plan ▸ h.plan
  cancelled hc := hkeeps.cancelled (h.cancelled hc)

/-- So does a lease. -/
theorem Run.Leases.keeps {j' : Job} (h : r.Leases j) (hkeeps : j.Keeps t j') : r.Leases j' where
  id := hkeeps.id.trans h.id
  plan := fun o ho p hp => hkeeps.plan.trans (h.plan o ho p hp)

/-- What the tables are after a step: the jobs are kept, or one is created, or a
rollback is reserved. -/
inductive Effect (s : State κ) : Action κ → Tables κ → Prop
  | kept {a : Action κ} {t : Tables κ} (h : Kept s.tables t) : Effect s a t
  | created {a : Action κ} (q : Request κ) (siteVersion : Int)
      (hreading : s.reading = some siteVersion) (hid : ∀ j ∈ s.tables.jobs, j.id ≠ q.id) :
      Effect s a (create s.tables siteVersion q)
  | reserved {input : Input} (x : Execution) (succeeded : List NodeId) (plan : Plan) {t : Tables κ}
      (hlock : s.lock = some x) (hstage : x.stage = .reserve succeeded)
      (h : Reserved s.tables x.job t plan) : Effect s (.work input) t

/-- What a request does. -/
theorem enqueue_cases [DecidableEq κ] {siteVersion : Int} {q : Request κ} {mode : EnqueueMode}
    (h : enqueue t siteVersion q = some (t', mode)) :
    (mode = .idempotentReused ∧ t' = t) ∨
    (mode = .pendingUpdated ∧ ∃ pending, pendingJob t = some pending ∧ t' = coalesce t pending q) ∨
    (mode = .runningReused ∧ pendingJob t = none ∧ ∃ running, runningJob t = some running ∧
      sameAsRunning t q running = true ∧ t' = setKey t running.id q.key) ∨
    (mode = .currentReused ∧ pendingJob t = none ∧ runningJob t = none ∧
      sameAsCurrent t siteVersion q = true ∧ t' = t) ∨
    (mode = .created ∧ pendingJob t = none ∧ (∀ j ∈ t.jobs, j.id ≠ q.id) ∧
      t' = create t siteVersion q) := by
  unfold enqueue at h
  split at h
  · simp only [Option.some.injEq, Prod.mk.injEq] at h
    exact .inl ⟨h.2.symm, h.1.symm⟩
  split at h
  · cases h
  next hid =>
  have hids : ∀ j ∈ t.jobs, j.id ≠ q.id := fun j hj heq => hid ⟨j, hj, heq⟩
  split at h
  · next pending hpending =>
    simp only [Option.some.injEq, Prod.mk.injEq] at h
    exact .inr (.inl ⟨h.2.symm, pending, hpending, h.1.symm⟩)
  next hpending =>
  split at h
  · next running hrunning =>
    split at h
    · next hsame =>
      simp only [Option.some.injEq, Prod.mk.injEq] at h
      exact .inr (.inr (.inl ⟨h.2.symm, hpending, running, hrunning, hsame, h.1.symm⟩))
    · simp only [Option.some.injEq, Prod.mk.injEq] at h
      exact .inr (.inr (.inr (.inr ⟨h.2.symm, hpending, hids, h.1.symm⟩)))
  · next hrunning =>
    split at h
    · next hsame =>
      simp only [Option.some.injEq, Prod.mk.injEq] at h
      exact .inr (.inr (.inr (.inl ⟨h.2.symm, hpending, hrunning, hsame, h.1.symm⟩)))
    · simp only [Option.some.injEq, Prod.mk.injEq] at h
      exact .inr (.inr (.inr (.inr ⟨h.2.symm, hpending, hids, h.1.symm⟩)))

/-- The outcome of an execution whose lock is given back. -/
def released (outcome : Outcome) : Option GoString → Outcome
  | none => outcome
  | some message =>
    if outcome.compensation.isSome then { outcome with err := some message, retryable := true }
    else failure message true

theorem compensation_released (outcome : Outcome) (error : Option GoString) :
    (released outcome error).compensation = outcome.compensation := by
  cases error with
  | none => rfl
  | some message =>
    unfold released
    dsimp only
    split
    · rfl
    · next h => exact (not_isSome_iff_eq_none.mp h).symm

/-- The steps that touch no worker. -/
def Action.rests : Action κ → Bool
  | .readSite | .enqueueFails | .renew _ _ | .cancel _ _ | .sweep _ _ => true
  | _ => false

/-- What a step does. -/
inductive Turn [DecidableEq κ] (tombstone : κ) (s : State κ) : Action κ → State κ → Prop
  | rests {a : Action κ} {jobs : List Job} {reading : Option Int} (g : Job → Job) (ha : a.rests)
      (hjobs : jobs = s.tables.jobs.map g)
      (hg : ∀ j ∈ s.tables.jobs, j.Keeps s.tables (g j) ∧ (g j).attempts = j.attempts)
      (hreading : ∀ v ∈ reading, v ∈ s.reading ∨ v = s.tables.siteVersion) :
      Turn tombstone s a { s with tables := { s.tables with jobs }, reading }
  | enqueue {q : Request κ} {siteVersion : Int} {t : Tables κ} {mode : EnqueueMode}
      (hreading : s.reading = some siteVersion)
      (henqueue : enqueue s.tables siteVersion q = some (t, mode)) :
      Turn tombstone s (.enqueue q) { s with tables := t, reading := none }
  | claim {worker : WorkerId} {j : Job} {now : Int} (hfree : s.free worker)
      (hj : j ∈ s.tables.jobs)
      (hclaimable : j.queueRow.claimable (s.tables.jobs.map Job.queueRow) now) :
      Turn tombstone s (.claim worker j.id now)
        ((s.setJobs (update (fun k : Job => k.id = j.id)
          (fun k => { k with row := j.row.claimed worker now publishTimeout })
          s.tables.jobs)).setRun worker
            (some ⟨⟨j.id, j.attempts + 1, j.row.maxAttempts,
              (j.row.claimed worker now publishTimeout).timeoutAt, now + defaultLease⟩, none⟩))
  | fail {worker : WorkerId} {lease : Lease} {message : GoString}
      (hrun : s.runs worker = some ⟨lease, none⟩) :
      Turn tombstone s (.fail worker message)
        (s.setRun worker (some ⟨lease, some (failure message true)⟩))
  | contend {worker : WorkerId} {lease : Lease} (hrun : s.runs worker = some ⟨lease, none⟩) :
      Turn tombstone s (.contend worker)
        (s.setRun worker (some ⟨lease, some ⟨none, none, false, second⟩⟩))
  | begin {worker : WorkerId} {lease : Lease} {j : Job} (hlock : s.lock = none)
      (hrun : s.runs worker = some ⟨lease, none⟩) (hj : j ∈ s.tables.jobs) (hid : j.id = lease.id) :
      Turn tombstone s (.begin worker) { s.setRun worker none with
        lock := some ⟨worker, lease, j, firstStage j⟩ }
  | work {input : Input} {x : Execution} {p : Progress κ} (hlock : s.lock = some x)
      (hadvance : advance tombstone s.tables x.job x.stage input = some p) :
      Turn tombstone s (.work input) { s with
        tables := p.tables
        lock := some { x with stage := p.stage }
        dispatched := s.dispatched ++ p.sent.toList.map fun (version, config) =>
          ⟨x.job.id, x.lease.attempt, version, config, x.job.cancelled⟩ }
  | release {error : Option GoString} {x : Execution} {outcome : Outcome} (hlock : s.lock = some x)
      (hstage : x.stage = .ended outcome) :
      Turn tombstone s (.release error)
        ({ s with lock := none }.setRun x.worker (some ⟨x.lease, some (released outcome error)⟩))
  | finish {worker : WorkerId} {now : Int} {lease : Lease} {outcome : Outcome}
      (hrun : s.runs worker = some ⟨lease, some outcome⟩) :
      Turn tombstone s (.finish worker now)
        ((s.setJobs (update (fun j : Job => j.row.fenced worker lease)
          (Job.finished now lease outcome) s.tables.jobs)).setRun worker none)
  | abandon {worker : WorkerId} : Turn tombstone s (.abandon worker) (abandon s worker)

/-- An update that keeps each job. -/
theorem keeps_update {p : Job → Prop} [DecidablePred p] {f : Job → Job}
    (hf : ∀ j, p j → j.Keeps t (f j) ∧ (f j).attempts = j.attempts) :
    ∀ j ∈ t.jobs, j.Keeps t (if p j then f j else j) ∧
      (if p j then f j else j).attempts = j.attempts := by
  intro j _
  split
  · next hp => exact hf j hp
  · exact ⟨.refl t j, rfl⟩

/-- What a worker returns. -/
theorem returns_eq_some {outcome : Outcome} (h : returns s worker outcome = some s') :
    ∃ lease, s.runs worker = some ⟨lease, none⟩ ∧
      s' = s.setRun worker (some ⟨lease, some outcome⟩) := by
  unfold returns at h
  split at h
  · next lease hrun => exact ⟨lease, hrun, (Option.some.inj h).symm⟩
  · cases h

/-- **A step does nothing else.** -/
theorem step_turn [DecidableEq κ] (h : step tombstone s a = some s') : Turn tombstone s a s' := by
  have hself : ∀ j ∈ s.tables.jobs, j.Keeps s.tables (id j) ∧ (id j).attempts = j.attempts :=
    fun j _ => ⟨.refl _ j, rfl⟩
  cases a with
  | readSite =>
    obtain ⟨-, h⟩ := ite_none_right_eq_some.mp h
    cases h
    exact .rests id rfl (map_id _).symm hself fun v hv => .inr (Option.some.inj hv).symm
  | enqueue q =>
    obtain ⟨siteVersion, hreading, h⟩ := bind_eq_some_iff.mp h
    obtain ⟨⟨t, mode⟩, henqueue, rfl⟩ := map_eq_some_iff.mp h
    exact .enqueue hreading henqueue
  | enqueueFails =>
    obtain ⟨_, -, rfl⟩ := map_eq_some_iff.mp h
    exact .rests id rfl (map_id _).symm hself nofun
  | claim worker id now =>
    obtain ⟨hfree, h⟩ := ite_none_right_eq_some.mp h
    obtain ⟨j, hfind, rfl⟩ := map_eq_some_iff.mp h
    have hcond := List.find?_some hfind
    simp only [decide_eq_true_eq] at hcond
    obtain ⟨rfl, hclaimable⟩ := hcond
    exact .claim hfree (mem_of_find?_eq_some hfind) hclaimable
  | renew worker now =>
    obtain ⟨lease, -, rfl⟩ := map_eq_some_iff.mp h
    exact .rests _ rfl rfl
      (keeps_update fun j _ => ⟨⟨rfl, rfl, rfl, rfl, id, id, .inl⟩, rfl⟩) fun _ => .inl
  | fail worker message =>
    obtain ⟨lease, hrun, rfl⟩ := returns_eq_some h
    exact .fail hrun
  | contend worker =>
    obtain ⟨-, h⟩ := ite_none_right_eq_some.mp h
    obtain ⟨lease, hrun, rfl⟩ := returns_eq_some h
    exact .contend hrun
  | begin worker =>
    dsimp only [step, Publisher.begin] at h
    split at h
    · next lease hlock hrun =>
      obtain ⟨j, hfind, rfl⟩ := map_eq_some_iff.mp h
      exact .begin hlock hrun (mem_of_find?_eq_some hfind) (by simpa using List.find?_some hfind)
    · cases h
  | work input =>
    obtain ⟨-, h⟩ := ite_none_right_eq_some.mp h
    obtain ⟨x, hlock, h⟩ := bind_eq_some_iff.mp h
    obtain ⟨p, hadvance, rfl⟩ := map_eq_some_iff.mp h
    exact .work hlock hadvance
  | release error =>
    dsimp only [step, Publisher.release] at h
    split at h
    · next worker lease job outcome hlock =>
      rw [← Option.some.inj h]
      exact .release (x := ⟨worker, lease, job, .ended outcome⟩) hlock rfl
    · cases h
  | finish worker now =>
    dsimp only [step, Publisher.finish] at h
    split at h
    · next lease outcome hrun =>
      cases h
      exact .finish hrun
    · cases h
  | abandon worker =>
    cases h
    exact .abandon
  | cancel id now =>
    cases h
    exact .rests _ rfl rfl (keeps_update fun _ hcond =>
      ⟨⟨rfl, rfl, rfl, rfl, fun _ => hcond.2, fun _ => rfl, .inl⟩, rfl⟩) fun _ => .inl
  | sweep phase now =>
    cases h
    exact .rests _ rfl rfl (keeps_update fun _ hcond =>
      ⟨⟨rfl, rfl, rfl, rfl, fun _ => hcond.2.imp (fun h => h) And.left, fun h => h, .inl⟩, rfl⟩)
      fun _ => .inl

/-- **What a step does to the tables.** -/
theorem step_effect [DecidableEq κ] (hworking : Working s) (h : step tombstone s a = some s') :
    Effect s a s'.tables := by
  cases step_turn h with
  | rests g _ hjobs hg => exact .kept ⟨⟨g, hjobs, fun j hj => (hg j hj).1⟩, rfl⟩
  | enqueue hreading henqueue =>
    rcases enqueue_cases henqueue with ⟨-, rfl⟩ | ⟨-, pending, -, rfl⟩ |
      ⟨-, -, running, -, -, rfl⟩ | ⟨-, -, -, -, rfl⟩ | ⟨-, -, hid, rfl⟩
    · exact .kept (.refl _)
    · exact .kept (kept_coalesce _ _ _)
    · exact .kept (kept_setKey _ _ _)
    · exact .kept (.refl _)
    · exact .created _ _ hreading hid
  | claim hfree hj hclaimable =>
    refine .kept (kept_update fun k hk hkid => ?_)
    obtain rfl := hworking.rows.eq_of_id hj hk hkid.symm
    exact keeps_claimed _ hclaimable
  | work hlock hadvance =>
    rcases (transition_of_advance hadvance).tables with
      ⟨hkept, -⟩ | ⟨succeeded, plan, hstage, hreserved, -⟩
    · exact .kept hkept
    · exact .reserved _ succeeded plan hlock hstage hreserved
  | finish hrun =>
    refine .kept (kept_update fun j hj hfenced => keeps_finished _ hfenced fun p hp => ?_)
    obtain ⟨k, hk, hleases⟩ := hworking.runs _ _ hrun
    obtain rfl := hworking.rows.eq_of_id hk hj (hleases.id.trans hfenced.1.symm)
    exact hleases.plan _ rfl p hp
  | fail | contend | begin | release | abandon => exact .kept (.refl _)

/-- A request reads the version of the site. -/
theorem step_reading [DecidableEq κ] (h : step tombstone s a = some s') :
    ∀ v ∈ s'.reading, v ∈ s.reading ∨ v = s.tables.siteVersion := by
  cases step_turn h with
  | rests _ _ _ _ hreading => exact hreading
  | enqueue => exact nofun
  | claim | fail | contend | begin | work | release | finish | abandon => exact fun _ => .inl

/-- Versions are never taken back. -/
theorem Effect.grows (hworking : Working s) (h : Effect s a t) : Grows s.tables t := by
  cases h with
  | kept h => exact h.grows hworking.rows
  | created q siteVersion hreading hid =>
    exact grows_create hworking.rows (hworking.reading siteVersion hreading) hid
  | reserved x succeeded plan hlock hstage h =>
    obtain ⟨j, hj, hexecutes⟩ := hworking.lock x hlock
    refine h.grows hworking.rows ?_
    rw [← hexecutes.version]
    exact hworking.rows.positive j hj j.version (.inl rfl)

/-- The jobs keep what an execution has read, but for the one that reserves. -/
theorem Effect.executes (h : Effect s a t) (ha : ∀ input, a ≠ .work input)
    (hx : ∃ j ∈ s.tables.jobs, x.Executes j) : ∃ j ∈ t.jobs, x.Executes j := by
  obtain ⟨j, hj, hexecutes⟩ := hx
  cases h with
  | kept h =>
    obtain ⟨j', hj', hkeeps⟩ := h.forth hj
    exact ⟨j', hj', hexecutes.keeps hkeeps⟩
  | created => exact ⟨j, mem_append_left _ hj, hexecutes⟩
  | reserved => exact absurd rfl (ha _)

/-- A reservation keeps the version of the job. -/
theorem Execution.Executes.version_reserved (hrows : Rows t) (plan : Plan) (hj : j ∈ t.jobs)
    (h : x.Executes j) : (reservedJob t x.job plan j).version = j.version := by
  refine reservedJob_of_not_queued hrows hj fun hqueued => ?_
  have := (mem_queued.mp hqueued).2.2
  have := h.version
  omega

/-- The execution behind the reservation of its rollback. -/
theorem Execution.Executes.reserved (hrows : Rows t) {plan : Plan} (hj : j ∈ t.jobs)
    (h : x.Executes j) {next : Stage}
    (hnext : next = .loadRollback plan ∨ ∃ message, next = .ended (failure message true)) :
    { x with stage := next }.Executes (reservedJob t x.job plan j) where
  id := h.id
  lease := h.lease
  version := (h.version_reserved hrows plan hj).trans h.version
  plan := by
    rcases hnext with rfl | ⟨message, rfl⟩
    · exact if_pos h.id
    · intro p hp
      cases hp
  cancelled := h.cancelled

/-- The jobs keep what a run has returned: no plan of the job that reserves. -/
theorem Effect.leases (hworking : Working s) (h : Effect s a t)
    (hr : ∃ j ∈ s.tables.jobs, r.Leases j) : ∃ j ∈ t.jobs, r.Leases j := by
  obtain ⟨j, hj, hleases⟩ := hr
  cases h with
  | kept h =>
    obtain ⟨j', hj', hkeeps⟩ := h.forth hj
    exact ⟨j', hj', hleases.keeps hkeeps⟩
  | created => exact ⟨j, mem_append_left _ hj, hleases⟩
  | reserved x succeeded plan hlock hstage h =>
    obtain ⟨e, he, hexecutes⟩ := hworking.lock x hlock
    refine ⟨reservedJob s.tables x.job plan j, h.jobs ▸ mem_map_of_mem hj, hleases.id, ?_⟩
    intro o ho p hp
    have hplan := hleases.plan o ho p hp
    refine (if_neg fun hid => ?_).trans hplan
    obtain rfl := hworking.rows.eq_of_id hj he (hid.trans hexecutes.id.symm)
    have hnone : j.plan = none := by simpa [hstage, Stage.Agrees, Stage.plan] using hexecutes.plan
    simp [hnone] at hplan

/-- Where a job comes from: it is kept or created, it reserves a rollback, or it is
moved behind one. -/
inductive Job.Origin (s : State κ) (j' : Job) : Prop
  | kept {j : Job} (hj : j ∈ s.tables.jobs) (h : j.Keeps s.tables j')
  | created (habove : s.tables.Above j'.version) (hplan : j'.plan = none)
  | own {j : Job} {x : Execution} {succeeded : List NodeId} {plan : Plan} (hj : j ∈ s.tables.jobs)
      (hlock : s.lock = some x) (hstage : x.stage = .reserve succeeded) (hexecutes : x.Executes j)
      (habove : s.tables.Above plan.version) (hlater : j.version < plan.version)
      (h : j' = { j with plan := some plan })
  | moved {j : Job} {x : Execution} {version : Int} (hj : j ∈ s.tables.jobs)
      (hlock : s.lock = some x) (habove : s.tables.Above version) (hlater : x.job.version < version)
      (h : j' = { j with version })

/-- Where a job comes from. -/
theorem Effect.origin (hworking : Working s) (h : Effect s a t) {j' : Job} (hj' : j' ∈ t.jobs) :
    j'.Origin s := by
  cases h with
  | kept h =>
    obtain ⟨j, hj, hkeeps⟩ := h.back hj'
    exact .kept hj hkeeps
  | created q siteVersion =>
    rcases mem_append.mp hj' with hj | hnew
    · exact .kept hj (.refl _ _)
    · obtain rfl := mem_singleton.mp hnew
      exact .created (nextPublishVersion_above _ _).1 rfl
  | reserved x succeeded plan hlock hstage h =>
    rw [h.jobs] at hj'
    obtain ⟨j, hj, rfl⟩ := mem_map.mp hj'
    obtain ⟨e, he, hexecutes⟩ := hworking.lock x hlock
    by_cases hid : j.id = x.job.id
    · obtain rfl := hworking.rows.eq_of_id hj he (hid.trans hexecutes.id.symm)
      refine .own hj hlock hstage hexecutes h.above (hexecutes.version ▸ h.later) ?_
      have hversion := hexecutes.version_reserved hworking.rows plan hj
      unfold reservedJob at hversion ⊢
      rw [hversion, if_pos hid]
    · have hplan : reservedJob s.tables x.job plan j =
          { j with version := (reservedJob s.tables x.job plan j).version } := by
        unfold reservedJob
        rw [if_neg hid]
      by_cases hqueued : j ∈ queued s.tables x.job.version
      · have hlt := (reservedJob_of_queued plan hqueued).1
        exact .moved hj hlock (h.above_of_lt hlt.le) (h.later.trans hlt) hplan
      · rw [reservedJob_of_not_queued hworking.rows hj hqueued] at hplan
        rw [hplan]
        exact .kept hj (.refl _ j)

/-- The first stage has the job's plan. -/
theorem agrees_firstStage (hpositive : ∀ p ∈ j.plan, 0 < p.version) :
    (firstStage j).Agrees j.plan := by
  unfold firstStage
  cases hplan : j.plan with
  | none => rfl
  | some plan =>
    dsimp only
    rw [if_pos (hpositive plan hplan)]
    rfl

theorem mem_setRun {w : WorkerId} {run : Option Run} (h : r ∈ (s.setRun worker run).runs w) :
    (w = worker ∧ r ∈ run) ∨ (w ≠ worker ∧ r ∈ s.runs w) := by
  unfold State.setRun at h
  dsimp only at h
  split at h
  · next heq => exact .inl ⟨heq, h⟩
  · next hne => exact .inr ⟨hne, h⟩

/-- A lease of the attempt that follows those of its job. -/
def State.Next (s : State κ) (lease : Lease) : Prop :=
  ∃ j ∈ s.tables.jobs, j.id = lease.id ∧ lease.attempt = j.attempts + 1

/-- The worker claims the attempt that follows. -/
structure Claimed (s : State κ) (a : Action κ) (s' : State κ) (worker : WorkerId) (lease : Lease) :
    Prop where
  action : ∃ now, a = .claim worker lease.id now
  next : s.Next lease
  covered : ∃ j ∈ s'.tables.jobs, j.id = lease.id ∧ lease.attempt ≤ j.attempts

/-- Where a run comes from. -/
inductive Run.From (s : State κ) (a : Action κ) (s' : State κ) (worker : WorkerId) (r : Run) : Prop
  | same (h : r ∈ s.runs worker)
  | claimed (h : Claimed s a s' worker r.lease) (houtcome : r.outcome = none)
  | returned {lease : Lease} {o : Outcome} (hrun : s.runs worker = some ⟨lease, none⟩)
      (hr : r = ⟨lease, some o⟩) (hplan : o.compensation = none)
  | released {x : Execution} {o : Outcome} {error : Option GoString} (hlock : s.lock = some x)
      (hworker : x.worker = worker) (hstage : x.stage = .ended o)
      (hr : r = ⟨x.lease, some (Publisher.released o error)⟩)

/-- Runs of other workers stay. -/
theorem Run.From.setRun {w : WorkerId} {run : Option Run} (hr : r ∈ (s.setRun worker run).runs w)
    (hnew : ∀ r ∈ run, r.From s a s' worker) : r.From s a s' w := by
  rcases mem_setRun hr with ⟨rfl, h⟩ | ⟨-, h⟩
  · exact hnew r h
  · exact .same h

/-- Where a run comes from. -/
theorem step_runs [DecidableEq κ] (h : step tombstone s a = some s') {w : WorkerId}
    (hr : r ∈ s'.runs w) : r.From s a s' w := by
  cases step_turn h with
  | rests | enqueue | work => exact .same hr
  | claim hfree hj hclaimable =>
    refine .setRun hr fun r hr => ?_
    cases hr
    exact .claimed ⟨⟨_, rfl⟩, ⟨_, hj, rfl, rfl⟩, _, mem_update_of_pos hj rfl, rfl, le_rfl⟩ rfl
  | fail hrun =>
    refine .setRun hr fun r hr => ?_
    cases hr
    exact .returned hrun rfl rfl
  | contend hrun =>
    refine .setRun hr fun r hr => ?_
    cases hr
    exact .returned hrun rfl rfl
  | release hlock hstage =>
    refine .setRun hr fun r hr => ?_
    cases hr
    exact .released hlock rfl hstage rfl
  | begin | finish | abandon => exact .setRun hr nofun

/-- A run is of a job that was there, with the plan that is recorded. -/
theorem Run.From.leases (hworking : Working s) (h : r.From s a s' worker) :
    ∃ j ∈ s.tables.jobs, r.Leases j := by
  cases h with
  | same h => exact hworking.runs worker r h
  | claimed h houtcome =>
    obtain ⟨j, hj, hid, -⟩ := h.next
    exact ⟨j, hj, hid, by simp [houtcome]⟩
  | returned hrun hr hplan =>
    obtain ⟨j, hj, hleases⟩ := hworking.runs worker _ hrun
    subst hr
    exact ⟨j, hj, hleases.id, by simp [hplan]⟩
  | released hlock _ hstage hr =>
    obtain ⟨j, hj, hexecutes⟩ := hworking.lock _ hlock
    subst hr
    refine ⟨j, hj, hexecutes.id.trans hexecutes.lease.symm, fun o ho p hp => ?_⟩
    cases ho
    rw [compensation_released] at hp
    exact hexecutes.plan.plan p (by rw [hstage]; exact hp)

/-- The steps of an execution. -/
theorem Working.advance {input : Input} {p : Progress κ} (hworking : Working s) {x : Execution}
    (hlock : s.lock = some x) (h : advance tombstone s.tables x.job x.stage input = some p) :
    0 ≤ p.tables.siteVersion ∧ ∃ j ∈ p.tables.jobs, { x with stage := p.stage }.Executes j := by
  obtain ⟨j, hj, hexecutes⟩ := hworking.lock x hlock
  have htransition := transition_of_advance h
  constructor
  · have hpositive := hworking.rows.positive j hj
    rcases htransition.site with hsite | hsite | ⟨plan, hplan, hsite⟩
    · exact hsite ▸ hworking.site
    · have := hpositive j.version (.inl rfl)
      have := hexecutes.version
      omega
    · have := hpositive plan.version (.inr ⟨plan, hexecutes.plan.plan plan hplan, rfl⟩)
      omega
  · rcases htransition.tables with ⟨-, hjobs, hplan⟩ | ⟨succeeded, plan, -, hreserved, -, hnext⟩
    · have hagrees := agrees_of_plan hexecutes.plan (not_ended_of_advance h) hplan
      exact ⟨j, hjobs ▸ hj, { hexecutes with plan := hagrees }⟩
    · exact ⟨_, hreserved.jobs ▸ mem_map_of_mem hj, hexecutes.reserved hworking.rows hj hnext⟩

/-- Requests change no version of the site. -/
theorem site_enqueue [DecidableEq κ] {siteVersion : Int} {q : Request κ} {mode : EnqueueMode}
    (h : enqueue t siteVersion q = some (t', mode)) : t'.siteVersion = t.siteVersion := by
  rcases enqueue_cases h with ⟨-, rfl⟩ | ⟨-, pending, -, rfl⟩ | ⟨-, -, running, -, -, rfl⟩ |
    ⟨-, -, -, -, rfl⟩ | ⟨-, -, -, rfl⟩ <;> rfl

/-- **The workers know the plans of their jobs, and no version has two owners.** -/
theorem working_step [DecidableEq κ] (hworking : Working s) (h : step tombstone s a = some s') :
    Working s' where
  rows := hworking.rows.grows ((step_effect hworking h).grows hworking)
  reading := by
    intro v hv
    rcases step_reading h v hv with hold | rfl
    · exact hworking.reading v hold
    · exact hworking.site
  site := by
    cases step_turn h with
    | enqueue hreading henqueue =>
      rw [site_enqueue henqueue]
      exact hworking.site
    | work hlock hadvance => exact (hworking.advance hlock hadvance).1
    | rests | claim | fail | contend | begin | release | finish | abandon => exact hworking.site
  lock := by
    intro x hx
    have heffect := step_effect hworking h
    cases step_turn h with
    | rests g ha =>
      refine heffect.executes ?_ (hworking.lock x hx)
      rintro input rfl
      cases ha
    | enqueue | claim | finish => exact heffect.executes nofun (hworking.lock x hx)
    | fail | contend => exact hworking.lock x hx
    | begin hlock hrun hj hid =>
      cases hx
      refine ⟨_, hj, rfl, hid.symm, rfl, agrees_firstStage fun p hp => ?_, fun h => h⟩
      exact hworking.rows.positive _ hj p.version (.inr ⟨p, hp, rfl⟩)
    | work hlock hadvance =>
      cases hx
      exact (hworking.advance hlock hadvance).2
    | release => cases hx
    | abandon => exact hworking.lock x (mem_filter_iff.mp hx).1
  runs w r hr := (step_effect hworking h).leases hworking ((step_runs h hr).leases hworking)

end Publisher
