import GovetoEdge.PublisherLeases

/-!
# The order of what is sent

What was sent to a node stays what its snapshot says, and the versions that are
sent only go up, as long as no execution begins for a job that has ended.

* `Logged` ties the dispatches to the snapshots and to the jobs that hold their
  versions.
* `Ordered` is the order: a job that has an attempt is in front of all others
  that are still to run, and behind everything that was sent.
-/

namespace Publisher

open GoStrings SqlTables List Option Runs JobQueue
open JobQueue (WorkerId Lease Status Phase)

variable {κ : Type}

/-- The version that the job sends next. -/
def Job.next (j : Job) : Int :=
  match j.plan with
  | some plan => plan.version
  | none => j.version

/-- The version that the execution is about. -/
def Execution.next (x : Execution) : Int :=
  match x.stage.plan with
  | some plan => plan.version
  | none => x.job.version

/-- A job holds the version it sends next. -/
theorem Job.holds_next (j : Job) : j.Holds j.next := by
  unfold Job.next
  split
  · next plan hplan => exact .inr ⟨plan, hplan, rfl⟩
  · exact .inl rfl

variable {j job : Job} {x : Execution} {t t' : Tables κ} {tombstone : κ} {s s' : State κ}
  {a : Action κ} {plan : Plan}

/-- So does its execution. -/
theorem Execution.Executes.holds_next (h : x.Executes j) : j.Holds x.next := by
  unfold Execution.next
  split
  · next plan hplan => exact .inr ⟨plan, h.plan.plan plan hplan, rfl⟩
  · exact .inl h.version.symm

/-- An execution that goes on knows what its job is to send. -/
theorem Execution.Executes.next_eq (h : x.Executes j) (hended : ∀ o, x.stage ≠ .ended o) :
    j.next = x.next := by
  have hplan : j.plan = x.stage.plan := by
    have hagrees := h.plan
    cases hstage : x.stage with
    | ended outcome => exact absurd hstage (hended outcome)
    | _ =>
      rw [hstage] at hagrees
      exact hagrees
  unfold Job.next Execution.next
  rw [hplan, h.version]

/-- An execution sends the snapshot of the version that it is about. -/
theorem Transition.sent_eq {input : Input} {p : Progress κ}
    (h : Transition tombstone t x.job x.stage input p) :
    p.sent = none ∨ ∃ y ∈ t.snapshots, y.version = x.next ∧ p.sent = some (x.next, y.config) ∧
      p.tables = t := by
  have hfind : ∀ {version y}, t.snapshot version = some y → y ∈ t.snapshots ∧ y.version = version :=
    fun h => ⟨mem_of_find?_eq_some h, by simpa using List.find?_some h⟩
  obtain ⟨worker, lease, job, stage⟩ := x
  cases h with
  | sent y hy | sentBack _ y hy => exact .inr ⟨y, (hfind hy).1, (hfind hy).2, rfl, rfl⟩
  | answered | answeredBack | wrote | lost | gaveUp | reserved => exact .inl rfl

/-- What was sent, the snapshots and the jobs. -/
structure Logged (s : State κ) : Prop extends Leased s where
  content : ∀ d ∈ s.dispatched, ∃ x ∈ s.tables.snapshots, x.version = d.version ∧
    x.config = d.config
  owner : ∀ d ∈ s.dispatched, ∀ j ∈ s.tables.jobs, j.Holds d.version → j.id = d.job
  cancelled : ∀ d ∈ s.dispatched, d.cancelled = true →
    ∀ j ∈ s.tables.jobs, j.id = d.job → j.cancelled = true

/-- Nothing was sent. -/
theorem logged_init (version : Nat) : Logged (init κ version) := by
  refine ⟨leased_init version, ?_, ?_, ?_⟩ <;> simp [init]

/-- What was sent was given out. -/
theorem Logged.used (h : Logged s) {d : Dispatch κ} (hd : d ∈ s.dispatched) :
    s.tables.Used d.version := by
  obtain ⟨x, hx, hversion, -⟩ := h.content d hd
  exact ⟨x, hx, hversion.ge⟩

/-- What a step sends. -/
structure Sends (s s' : State κ) (x : Execution) (y : Snapshot κ) : Prop where
  lock : s.lock = some x
  ended : ∀ o, x.stage ≠ .ended o
  snapshot : y ∈ s.tables.snapshots
  version : y.version = x.next
  tables : s'.tables = s.tables
  log : s'.dispatched =
    s.dispatched ++ [⟨x.job.id, x.lease.attempt, x.next, y.config, x.job.cancelled⟩]
  stage : ∃ next, s'.lock = some { x with stage := next } ∧ next.plan = x.stage.plan

/-- Snapshots, the site and what was sent are touched by requests and executions
only. -/
theorem step_untouched [DecidableEq κ] (h : step tombstone s a = some s') :
    (∃ q siteVersion mode, a = .enqueue q ∧ s.reading = some siteVersion ∧
      enqueue s.tables siteVersion q = some (s'.tables, mode) ∧ s'.dispatched = s.dispatched) ∨
    (∃ input x p, a = .work input ∧ s.lock = some x ∧
      advance tombstone s.tables x.job x.stage input = some p ∧ s'.tables = p.tables ∧
      s'.lock = some { x with stage := p.stage } ∧
      s'.dispatched = s.dispatched ++ p.sent.toList.map fun (version, config) =>
        ⟨x.job.id, x.lease.attempt, version, config, x.job.cancelled⟩) ∨
    (s'.tables.snapshots = s.tables.snapshots ∧ s'.tables.siteVersion = s.tables.siteVersion ∧
      s'.dispatched = s.dispatched) := by
  cases step_turn h with
  | enqueue hreading henqueue => exact .inl ⟨_, _, _, rfl, hreading, henqueue, rfl⟩
  | work hlock hadvance => exact .inr (.inl ⟨_, _, _, rfl, hlock, hadvance, rfl, rfl, rfl⟩)
  | rests | claim | fail | contend | begin | release | finish | abandon =>
    exact .inr (.inr ⟨rfl, rfl, rfl⟩)

/-- A step sends one version at most. -/
theorem step_log [DecidableEq κ] (h : step tombstone s a = some s') :
    s'.dispatched = s.dispatched ∨ ∃ x y, Sends s s' x y := by
  rcases step_untouched h with ⟨-, -, -, -, -, -, hlog⟩ |
    ⟨input, x, p, -, hlock, hadvance, htables, hlock', hlog⟩ | ⟨-, -, hlog⟩
  · exact .inl hlog
  · have htransition := transition_of_advance hadvance
    rcases htransition.sent_eq with hnone | ⟨y, hy, hversion, hsent, hsame⟩
    · exact .inl (by simp [hlog, hnone])
    · refine .inr ⟨x, y, hlock, not_ended_of_advance hadvance, hy, hversion, htables.trans hsame,
        by simp [hlog, hsent], p.stage, hlock', ?_⟩
      rcases htransition.tables with ⟨-, -, hplan⟩ | ⟨-, -, -, -, hnone, -⟩
      · exact hplan
      · simp [hnone] at hsent
  · exact .inl hlog

/-- Snapshots keep their configuration. -/
def Content (t t' : Tables κ) : Prop :=
  ∀ x ∈ t.snapshots, ∃ x' ∈ t'.snapshots, x'.version = x.version ∧ x'.config = x.config

theorem Content.of_snapshots (h : t'.snapshots = t.snapshots) : Content t t' :=
  fun x hx => ⟨x, h ▸ hx, rfl, rfl⟩

/-- A status changes no content. -/
theorem content_status {p : Snapshot κ → Prop} [DecidablePred p] (status : ConfigStatus)
    {more : List (Snapshot κ)}
    (h : t'.snapshots = update p (fun x => { x with status := status }) t.snapshots ++ more) :
    Content t t' := by
  intro x hx
  rw [h]
  by_cases hp : p x
  · exact ⟨_, mem_append_left _ (mem_update_of_pos hx hp), rfl, rfl⟩
  · exact ⟨_, mem_append_left _ (mem_update_of_not hx hp), rfl, rfl⟩

/-- Marks leave contents alone. -/
theorem content_mark (t : Tables κ) (version : Int) (status : ConfigStatus) :
    Content t (t.mark version status) :=
  content_status (p := fun x => x.version = version) status (append_nil _).symm

/-- So do writes. -/
theorem Write.content {stage next : Stage} (h : Write t job stage t' next) : Content t t' := by
  cases h with
  | site | nodes | siteBack | nodesBack => exact .of_snapshots rfl
  | published | rejected | failed | rolledBack | notRolledBack => exact content_mark t _ _

/-- So do reservations. -/
theorem Reserved.content (h : Reserved t job t' plan) : Content t t' := by
  obtain ⟨config, now, rows, -, heq⟩ := h.snapshots
  exact content_status _ heq

/-- And so does a whole transition. -/
theorem Transition.content {stage : Stage} {input : Input} {p : Progress κ}
    (h : Transition tombstone t job stage input p) : Content t p.tables := by
  rcases h.kinds with ⟨htables, -⟩ | ⟨next, hwrite, -⟩ | ⟨succeeded, plan, -, hreserved, -⟩
  · exact .of_snapshots (by rw [htables])
  · exact hwrite.content
  · exact hreserved.content

/-- A pending job was never claimed. -/
theorem pendingJob_spec (h : pendingJob t = some j) :
    j ∈ t.jobs ∧ j.row.status = .pending ∧ j.attempts = 0 ∧ j.plan = none := by
  have hmem := argmax_mem h
  simpa [and_assoc] using hmem

/-- Only a request changes the content of a snapshot, and only that of a job
without attempts. -/
theorem content_enqueue [DecidableEq κ] {siteVersion : Int} {q : Request κ} {mode : EnqueueMode}
    (h : enqueue t siteVersion q = some (t', mode)) {x : Snapshot κ} (hx : x ∈ t.snapshots) :
    (∃ x' ∈ t'.snapshots, x'.version = x.version ∧ x'.config = x.config) ∨
      ∃ j ∈ t.jobs, j.version = x.version ∧ j.attempts = 0 := by
  rcases enqueue_cases h with ⟨-, rfl⟩ | ⟨-, pending, hpending, rfl⟩ | ⟨-, -, running, -, -, rfl⟩ |
    ⟨-, -, -, -, rfl⟩ | ⟨-, -, -, rfl⟩
  · exact .inl ⟨x, hx, rfl, rfl⟩
  · obtain ⟨hmem, -, hattempts, -⟩ := pendingJob_spec hpending
    by_cases hversion : x.version = pending.version
    · exact .inr ⟨pending, hmem, hversion.symm, hattempts⟩
    · exact .inl ⟨x, mem_update_of_not hx fun h => hversion h.1, rfl, rfl⟩
  · exact .inl ⟨x, hx, rfl, rfl⟩
  · exact .inl ⟨x, hx, rfl, rfl⟩
  · exact .inl ⟨x, mem_append_left _ hx, rfl, rfl⟩

/-- **Snapshots keep their content**, unless their job was never claimed. -/
theorem step_content [DecidableEq κ] (h : step tombstone s a = some s') {x : Snapshot κ}
    (hx : x ∈ s.tables.snapshots) :
    (∃ x' ∈ s'.tables.snapshots, x'.version = x.version ∧ x'.config = x.config) ∨
      ∃ j ∈ s.tables.jobs, j.version = x.version ∧ j.attempts = 0 := by
  rcases step_untouched h with ⟨q, siteVersion, mode, -, -, henqueue, -⟩ |
    ⟨input, y, p, -, -, hadvance, htables, -⟩ | ⟨hsnapshots, -⟩
  · exact content_enqueue henqueue hx
  · rw [htables]
    exact .inl ((transition_of_advance hadvance).content x hx)
  · exact .inl ⟨x, hsnapshots ▸ hx, rfl, rfl⟩

/-- **What was sent stays in its snapshot.** -/
theorem logged_step [DecidableEq κ] (h : Logged s) (hstep : step tombstone s a = some s') :
    Logged s' := by
  have hgrows := (step_effect h.toWorking hstep).grows h.toWorking
  have hleased := leased_step h.toLeased hstep
  rcases step_log hstep with hlog | ⟨x, y, hsends⟩
  · refine ⟨hleased, ?_, ?_, ?_⟩ <;> rw [hlog]
    · intro d hd
      obtain ⟨y, hy, hversion, hconfig⟩ := h.content d hd
      rcases step_content hstep hy with
        ⟨y', hy', hversion', hconfig'⟩ | ⟨j, hj, hjversion, hattempts⟩
      · exact ⟨y', hy', hversion'.trans hversion, hconfig'.trans hconfig⟩
      · -- the job of the dispatch has an attempt, so no request may change its snapshot
        have howner := h.owner d hd j hj (.inl (by omega))
        obtain ⟨k, hk, hkid, hpos, hle⟩ := h.logged d hd
        obtain rfl := h.rows.eq_of_id hj hk (howner.trans hkid.symm)
        omega
    · intro d hd j' hj' hholds
      obtain ⟨j, hj, hjgrows, hold⟩ := hgrows.old hj' hholds (h.used hd)
      rw [hjgrows.id]
      exact h.owner d hd j hj hold
    · intro d hd hcancelled j' hj' hid
      obtain ⟨j, hj, hjid, -⟩ := h.logged d hd
      obtain ⟨k', hk', hjgrows⟩ := hgrows.forth j hj
      obtain rfl := eq_of_key hgrows.ids hj' hk' (by rw [hid, hjgrows.id, hjid])
      exact hjgrows.cancelled (h.cancelled d hd hcancelled j hj hjid)
  · obtain ⟨e, he, hexecutes⟩ := h.lock x hsends.lock
    refine ⟨hleased, ?_, ?_, ?_⟩ <;> rw [hsends.tables, hsends.log]
    · intro d hd
      rcases mem_append.mp hd with hold | hnew
      · exact h.content d hold
      · obtain rfl := mem_singleton.mp hnew
        exact ⟨y, hsends.snapshot, hsends.version, rfl⟩
    · intro d hd j hj hholds
      rcases mem_append.mp hd with hold | hnew
      · exact h.owner d hold j hj hholds
      · obtain rfl := mem_singleton.mp hnew
        exact (h.rows.owner j hj e he _ hholds hexecutes.holds_next).trans hexecutes.id
    · intro d hd hcancelled j hj hid
      rcases mem_append.mp hd with hold | hnew
      · exact h.cancelled d hold hcancelled j hj hid
      · obtain rfl := mem_singleton.mp hnew
        obtain rfl := h.rows.eq_of_id hj he (hid.trans hexecutes.id.symm)
        exact hexecutes.cancelled hcancelled

/-- The job is still to run. -/
def Job.Due (j : Job) : Prop := j.active ∧ j.cancelled = false

/-- A job that has an attempt is in front of all others. -/
def Tables.Front (t : Tables κ) : Prop :=
  ∀ e ∈ t.jobs, e.Due → 0 < e.attempts → ∀ j ∈ t.jobs, j.Due → j.id ≠ e.id →
    ∀ v, e.Holds v → v < j.version

/-- What is due was due. -/
theorem Job.Grows.due {j' : Job} (h : j.Grows t j') (hdue : j'.Due) : j.Due := by
  refine ⟨h.active hdue.1, ?_⟩
  by_contra hcancelled
  have := h.cancelled (by simpa using hcancelled)
  rw [hdue.2] at this
  cases this

/-- A job without an attempt holds nothing but its version. -/
theorem Leased.holds_version (h : Leased s) (hj : j ∈ s.tables.jobs) (hattempts : j.attempts = 0)
    {v : Int} (hv : j.Holds v) : v = j.version := by
  rcases hv with hv | ⟨p, hp, -⟩
  · exact hv
  · obtain ⟨d, hd, hjob⟩ := h.planned j hj (by rw [mem_def.mp hp]; rfl)
    obtain ⟨k, hk, hid, hpos, hle⟩ := h.logged d hd
    obtain rfl := h.rows.eq_of_id hj hk (hjob.symm.trans hid.symm)
    omega

/-- **The job in front stays in front.** -/
theorem Effect.front (h : Leased s) (hfront : s.tables.Front) (heffect : Effect s a t) :
    t.Front := by
  intro e' he' hedue hattempts j' hj' hjdue hid v hv
  cases heffect with
  | kept hkept =>
    obtain ⟨e, he, hekeeps⟩ := hkept.back he'
    obtain ⟨j, hj, hjkeeps⟩ := hkept.back hj'
    have hne : j.id ≠ e.id := by rwa [← hjkeeps.id, ← hekeeps.id]
    have hedue := hekeeps.grows.due hedue
    have hjdue := hjkeeps.grows.due hjdue
    rw [hjkeeps.version]
    rw [hekeeps.holds] at hv
    by_cases hpos : 0 < e.attempts
    · exact hfront e he hedue hpos j hj hjdue hne v hv
    · -- the job is claimed, so it is the first
      have hfirst := (hekeeps.attempts hattempts).resolve_left hpos
      have hle := hfirst j hj hjdue.1 hjdue.2
      have hversion := h.holds_version he (by omega) hv
      have hneq : e.version ≠ j.version := fun heq => hne (h.rows.eq_of_version he hj heq ▸ rfl)
      omega
  | created q siteVersion hreading hfresh =>
    have habove := (nextPublishVersion_above s.tables siteVersion).1
    have he : e' ∈ s.tables.jobs := by
      rcases mem_append.mp he' with he | hnew
      · exact he
      · rw [mem_singleton.mp hnew] at hattempts
        exact absurd hattempts (lt_irrefl 0)
    rcases mem_append.mp hj' with hj | hnew
    · exact hfront e' he hedue hattempts j' hj hjdue hid v hv
    · rw [mem_singleton.mp hnew]
      exact (h.rows.used he hv).lt habove
  | reserved x succeeded plan hlock hstage hreserved =>
    rw [hreserved.jobs] at he' hj'
    obtain ⟨e, he, rfl⟩ := mem_map.mp he'
    obtain ⟨j, hj, rfl⟩ := mem_map.mp hj'
    have hlater := hfront e he hedue hattempts j hj hjdue hid
    have hversion := hlater e.version (.inl rfl)
    have hmoved : j ∈ queued s.tables x.job.version →
        plan.version < (reservedJob s.tables x.job plan j).version :=
      fun h => (reservedJob_of_queued plan h).1
    rcases reservedJob_holds h.rows he hv with hold | ⟨hqueued, rfl⟩ | ⟨hown, rfl⟩
    · have hlt := hlater v hold
      by_cases hjqueued : j ∈ queued s.tables x.job.version
      · have := (h.rows.used he hold).lt hreserved.above
        have := hmoved hjqueued
        omega
      · rwa [reservedJob_of_not_queued h.rows hj hjqueued]
    · have hejob := (mem_queued.mp hqueued).2.2
      have hjqueued : j ∈ queued s.tables x.job.version :=
        mem_queued.mpr ⟨hj, hjdue.1, by omega⟩
      exact reservedJob_lt plan h.rows hqueued hjqueued hversion
    · obtain ⟨k, hk, hexecutes⟩ := h.lock x hlock
      obtain rfl := h.rows.eq_of_id he hk (hown.trans hexecutes.id.symm)
      exact hmoved (mem_queued.mpr ⟨hj, hjdue.1, by rw [← hexecutes.version]; exact hversion⟩)

/-- The execution is in front of the jobs that are still to run. -/
def Execution.Ahead (x : Execution) (j : Job) : Prop :=
  x.next < j.version ∧ x.job.version < j.version ∧ j.plan = none

/-- What is sent is newer than what was sent. -/
structure Ordered (s : State κ) : Prop extends Logged s where
  front : s.tables.Front
  behind : ∀ d ∈ s.dispatched, d.cancelled = false → ∀ j ∈ s.tables.jobs, j.Due →
    d.version ≤ j.next
  ahead : ∀ x ∈ s.lock, x.job.cancelled = false → ∀ j ∈ s.tables.jobs, j.Due →
    j.id ≠ x.job.id → x.Ahead j
  top : ∀ x ∈ s.lock, x.job.cancelled = false → ∀ d ∈ s.dispatched, d.cancelled = false →
    d.version ≤ x.next
  sorted : s.dispatched.Pairwise fun d d' =>
    d.cancelled = false → d'.cancelled = false → d.version ≤ d'.version

/-- Nothing was sent. -/
theorem ordered_init (version : Nat) : Ordered (init κ version) := by
  refine ⟨logged_init version, ?_, ?_, ?_, ?_, ?_⟩ <;> simp [init, Tables.Front]

/-- An execution begins only for a job that has not ended. -/
def Timely (s : State κ) : Action κ → Prop
  | .begin worker => ∀ r ∈ s.runs worker, ∃ j ∈ s.tables.jobs, j.id = r.lease.id ∧ j.active
  | _ => True

instance (s : State κ) (a : Action κ) : Decidable (Timely s a) := by
  unfold Timely
  split <;> infer_instance

/-- What a step does to the execution under the lock. -/
inductive Locks (s s' : State κ) (a : Action κ) (x' : Execution) : Prop
  | same (h : x' ∈ s.lock)
  | begun (lease : Lease) (ha : a = .begin x'.worker) (hrun : s.runs x'.worker = some ⟨lease, none⟩)
      (hjob : x'.job ∈ s.tables.jobs) (hid : x'.job.id = lease.id)
      (hstage : x'.stage = firstStage x'.job) (htables : s'.tables = s.tables)
  | moved (input : Input) (ha : a = .work input) (x : Execution) (hlock : s.lock = some x)
      (hjob : x'.job = x.job) (hnext : x'.next = x.next)
  | reserved (input : Input) (ha : a = .work input) (x : Execution) (plan : Plan)
      (hlock : s.lock = some x) (hjob : x'.job = x.job)
      (h : Reserved s.tables x.job s'.tables plan) (hnext : x'.next = plan.version)

/-- Who holds the lock after a step. -/
theorem step_locks [DecidableEq κ] (h : step tombstone s a = some s') {x' : Execution}
    (hx' : x' ∈ s'.lock) : Locks s s' a x' := by
  cases step_turn h with
  | @work input x p hlock hadvance =>
    cases hx'
    rcases (transition_of_advance hadvance).tables with
      ⟨-, -, hplan⟩ | ⟨succeeded, plan, hstage, hreserved, -, hnext⟩
    · refine .moved input rfl x hlock rfl ?_
      unfold Execution.next
      rw [hplan]
    · rcases hnext with hnext | ⟨message, hnext⟩
      · exact .reserved input rfl x plan hlock rfl hreserved (by rw [hnext]; rfl)
      · refine .moved input rfl x hlock rfl ?_
        unfold Execution.next
        rw [hnext, hstage]
        rfl
  | begin hlock hrun hj hid =>
    cases hx'
    exact .begun _ rfl hrun hj hid rfl rfl
  | release => cases hx'
  | abandon => exact .same (mem_filter_iff.mp hx').1
  | rests | enqueue | claim | fail | contend | finish => exact .same hx'

/-- A version that was given out stays behind the jobs that are still to run. -/
theorem Effect.behind (hworking : Working s) (heffect : Effect s a t) {v : Int}
    (hused : s.tables.Used v) (h : ∀ j ∈ s.tables.jobs, j.Due → v ≤ j.next) :
    ∀ j' ∈ t.jobs, j'.Due → v ≤ j'.next := by
  intro j' hj' hdue
  cases heffect.origin hworking hj' with
  | kept hj hkeeps =>
    unfold Job.next
    rw [hkeeps.plan, hkeeps.version]
    exact h _ hj (hkeeps.grows.due hdue)
  | created habove hplan =>
    unfold Job.next
    rw [hplan]
    exact (hused.lt habove).le
  | own _ _ _ _ habove _ heq =>
    subst heq
    exact (hused.lt habove).le
  | @moved j _ _ hj _ habove _ heq =>
    subst heq
    have hle := h j hj hdue
    unfold Job.next at hle ⊢
    cases hplan : j.plan with
    | none => exact (hused.lt habove).le
    | some plan => rwa [hplan] at hle

/-- The jobs that follow are moved behind the reserved version. -/
theorem Reserved.lt_version (h : Reserved t job t' plan)
    (hfollow : ∀ j ∈ t.jobs, j.Due → j.id ≠ job.id → job.version < j.version) :
    ∀ j' ∈ t'.jobs, j'.Due → j'.id ≠ job.id → plan.version < j'.version := by
  intro j' hj' hdue hid
  rw [h.jobs] at hj'
  obtain ⟨j, hj, rfl⟩ := mem_map.mp hj'
  have hqueued : j ∈ queued t job.version := mem_queued.mpr ⟨hj, hdue.1, hfollow j hj hdue hid⟩
  exact (reservedJob_of_queued plan hqueued).1

/-- The execution stays in front of the jobs that are still to run. -/
theorem Effect.ahead (hworking : Working s) (heffect : Effect s a t) (hlock : s.lock = some x)
    (h : ∀ j ∈ s.tables.jobs, j.Due → j.id ≠ x.job.id → x.Ahead j) :
    ∀ j' ∈ t.jobs, j'.Due → j'.id ≠ x.job.id → x.Ahead j' := by
  obtain ⟨e, he, hexecutes⟩ := hworking.lock x hlock
  have hnext := hworking.rows.used he hexecutes.holds_next
  have hversion := hworking.rows.used he (.inl hexecutes.version.symm)
  intro j' hj' hdue hid
  cases heffect.origin hworking hj' with
  | kept hj hkeeps =>
    unfold Execution.Ahead
    rw [hkeeps.version, hkeeps.plan]
    exact h _ hj (hkeeps.grows.due hdue) (hkeeps.id ▸ hid)
  | created habove hplan => exact ⟨hnext.lt habove, hversion.lt habove, hplan⟩
  | own hj hlock' _ hexecutes' _ _ heq =>
    rw [hlock] at hlock'
    cases hlock'
    subst heq
    exact absurd hexecutes'.id hid
  | @moved j _ _ hj _ habove _ heq =>
    subst heq
    exact ⟨hnext.lt habove, hversion.lt habove, (h j hj hdue hid).2.2⟩

/-- A job that is due and has an attempt is in front, and no other has a plan. -/
theorem ahead_of_begun (h : Leased s) (hfront : s.tables.Front)
    (hjob : x.job ∈ s.tables.jobs) (hdue : x.job.Due) (hattempts : 0 < x.job.attempts)
    (hnext : x.job.Holds x.next) (hj : j ∈ s.tables.jobs) (hjdue : j.Due) (hid : j.id ≠ x.job.id) :
    x.Ahead j := by
  have hlater := hfront x.job hjob hdue hattempts j hj hjdue hid
  refine ⟨hlater _ hnext, hlater _ (.inl rfl), ?_⟩
  by_contra hplan
  obtain ⟨d, hd, hdjob⟩ := h.planned j hj (isSome_iff_ne_none.mpr hplan)
  obtain ⟨k, hk, hkid, hpos, hle⟩ := h.logged d hd
  obtain rfl := h.rows.eq_of_id hj hk (hdjob.symm.trans hkid.symm)
  have hback := hfront j hj hjdue (by omega) x.job hjob hdue (Ne.symm hid) j.version (.inl rfl)
  have := hlater _ (.inl rfl)
  omega

/-- The first version of an execution. -/
theorem next_of_firstStage (hpositive : ∀ p ∈ x.job.plan, 0 < p.version)
    (hstage : x.stage = firstStage x.job) : x.next = x.job.next := by
  unfold Execution.next Job.next
  rw [hstage]
  unfold firstStage
  cases hplan : x.job.plan with
  | none => rfl
  | some plan =>
    dsimp only
    rw [if_pos (hpositive plan hplan)]
    rfl

/-- The job of an execution that begins in time. -/
theorem Locks.due (h : Leased s) {lease : Lease}
    (htimely : Timely s (.begin x.worker)) (hrun : s.runs x.worker = some ⟨lease, none⟩)
    (hjob : x.job ∈ s.tables.jobs) (hid : x.job.id = lease.id) :
    x.job.active ∧ 0 < x.job.attempts := by
  obtain ⟨j, hj, hjid, hactive⟩ := htimely _ hrun
  obtain rfl := h.rows.eq_of_id hj hjob (hjid.trans hid.symm)
  obtain ⟨k, hk, hkid, hpos, hle⟩ := h.attempts x.worker lease (.inr ⟨_, hrun, rfl⟩)
  obtain rfl := h.rows.eq_of_id hj hk (hid.trans hkid.symm)
  exact ⟨hactive, by omega⟩

/-- **Versions are sent in order.** -/
theorem ordered_step [DecidableEq κ] (h : Ordered s) (htimely : Timely s a)
    (hstep : step tombstone s a = some s') : Ordered s' := by
  have hworking := h.toWorking
  have heffect := step_effect hworking hstep
  have hfront := heffect.front h.toLeased h.front
  have hlogged := logged_step h.toLogged hstep
  have hnext : ∀ x : Execution, x.job ∈ s.tables.jobs → x.stage = firstStage x.job →
      x.next = x.job.next := by
    intro x hjob hstage
    exact next_of_firstStage (fun p hp => h.rows.positive _ hjob _ (.inr ⟨p, hp, rfl⟩)) hstage
  have hahead : ∀ x ∈ s'.lock, x.job.cancelled = false → ∀ j ∈ s'.tables.jobs, j.Due →
      j.id ≠ x.job.id → x.Ahead j := by
    intro x' hx' hcancelled j hj hdue hid
    cases step_locks hstep hx' with
    | same hx => exact heffect.ahead hworking hx (h.ahead x' hx hcancelled) j hj hdue hid
    | begun lease ha hrun hjob hjobid hstage htables =>
      rw [htables] at hj
      obtain ⟨hactive, hattempts⟩ := Locks.due h.toLeased (ha ▸ htimely) hrun hjob hjobid
      refine ahead_of_begun h.toLeased h.front hjob ⟨hactive, hcancelled⟩ hattempts ?_ hj hdue hid
      rw [hnext x' hjob hstage]
      exact x'.job.holds_next
    | moved input ha x hlock hjob hsame =>
      rw [hjob] at hcancelled hid
      have hold := heffect.ahead hworking hlock (h.ahead x hlock hcancelled) j hj hdue hid
      unfold Execution.Ahead at hold ⊢
      rwa [hjob, hsame]
    | reserved input ha x plan hlock hjob hreserved hsame =>
      rw [hjob] at hcancelled hid
      have hold := h.ahead x hlock hcancelled
      have hlt := hreserved.lt_version (fun j hj hdue hid => (hold j hj hdue hid).2.1) j hj hdue hid
      obtain ⟨-, hversion, hplan⟩ := heffect.ahead hworking hlock hold j hj hdue hid
      unfold Execution.Ahead
      rw [hjob, hsame]
      exact ⟨hlt, hversion, hplan⟩
  rcases step_log hstep with hlog | ⟨x, y, hsends⟩
  · refine ⟨hlogged, hfront, ?_, hahead, ?_, hlog ▸ h.sorted⟩ <;> rw [hlog]
    · intro d hd hcancelled
      exact heffect.behind hworking (h.used hd) (h.behind d hd hcancelled)
    · intro x' hx' hcancelled d hd hdcancelled
      cases step_locks hstep hx' with
      | same hx => exact h.top x' hx hcancelled d hd hdcancelled
      | begun lease ha hrun hjob hjobid hstage htables =>
        have hactive := (Locks.due h.toLeased (ha ▸ htimely) hrun hjob hjobid).1
        rw [hnext x' hjob hstage]
        exact h.behind d hd hdcancelled x'.job hjob ⟨hactive, hcancelled⟩
      | moved input ha x hlock hjob hsame =>
        rw [hsame]
        exact h.top x hlock (hjob ▸ hcancelled) d hd hdcancelled
      | reserved input ha x plan hlock hjob hreserved hsame =>
        rw [hsame]
        exact ((h.used hd).lt hreserved.above).le
  · obtain ⟨e, he, hexecutes⟩ := h.lock x hsends.lock
    obtain ⟨stage, hlock', hplan⟩ := hsends.stage
    refine ⟨hlogged, hfront, ?_, hahead, ?_, ?_⟩ <;> rw [hsends.log]
    · rw [hsends.tables]
      intro d hd hcancelled j hj hdue
      rcases mem_append.mp hd with hold | hnew
      · exact h.behind d hold hcancelled j hj hdue
      · obtain rfl := mem_singleton.mp hnew
        by_cases hid : j.id = x.job.id
        · obtain rfl := h.rows.eq_of_id hj he (hid.trans hexecutes.id.symm)
          exact (hexecutes.next_eq hsends.ended).ge
        · obtain ⟨hlt, -, hnone⟩ := h.ahead x hsends.lock hcancelled j hj hdue hid
          unfold Job.next
          rw [hnone]
          exact hlt.le
    · intro x' hx' hcancelled d hd hdcancelled
      have hsame : x'.next = x.next := by
        rw [hlock'] at hx'
        cases hx'
        unfold Execution.next
        rw [hplan]
      have hjob : x'.job = x.job := by
        rw [hlock'] at hx'
        cases hx'
        rfl
      rw [hsame]
      rcases mem_append.mp hd with hold | hnew
      · exact h.top x hsends.lock (hjob ▸ hcancelled) d hold hdcancelled
      · rw [mem_singleton.mp hnew]
    · refine pairwise_append.mpr ⟨h.sorted, pairwise_singleton _ _, ?_⟩
      intro d hd d' hd' hcancelled hcancelled'
      obtain rfl := mem_singleton.mp hd'
      exact h.top x hsends.lock hcancelled' d hd hcancelled

/-- What holds in every run. -/
theorem logged_run [DecidableEq κ] {version : Nat} {as : List (Action κ)}
    (hrun : run (step tombstone) (init κ version) as = some s) : Logged s :=
  run_invariant (fun _ _ _ h hstep => logged_step h hstep) (logged_init version) hrun

/-- What holds in timely runs. -/
theorem ordered_run [DecidableEq κ] {version : Nat} {as : List (Action κ)}
    (htimely : Along (step tombstone) Timely (init κ version) as)
    (hrun : run (step tombstone) (init κ version) as = some s) : Ordered s :=
  run_invariant_along (fun _ _ _ h => ordered_step h) (ordered_init version) htimely hrun

/-- The job was never requested to be cancelled. -/
def State.NeverCancelled (s : State κ) (id : GoString) : Prop :=
  ∀ j ∈ s.tables.jobs, j.id = id → j.cancelled = false

/-- **The versions of a site.**  In every state that is reached, the versions of
the snapshots differ, a version that a step allocates is above all others, a job
that is not over has its snapshot, and a snapshot has the content that was sent.
What jobs sent that nobody wanted to cancel is in the order of the versions, if
no execution began for a job that was over. -/
theorem versions_lawful [DecidableEq κ] (tombstone : κ) (version : Nat) (as : List (Action κ))
    (s : State κ) (hrun : run (step tombstone) (init κ version) as = some s) :
    (s.tables.snapshots.map Snapshot.version).Nodup ∧
    (∀ a s', step tombstone s a = some s' → ∀ x' ∈ s'.tables.snapshots,
      (∃ x ∈ s.tables.snapshots, x.version = x'.version) ∨
        ∀ x ∈ s.tables.snapshots, x.version < x'.version) ∧
    (∀ j ∈ s.tables.jobs, j.active → ∃ x ∈ s.tables.snapshots, x.version = j.version) ∧
    (∀ d ∈ s.dispatched, ∃ x ∈ s.tables.snapshots, x.version = d.version ∧ x.config = d.config) ∧
    (Along (step tombstone) Timely (init κ version) as →
      s.dispatched.Pairwise fun d d' =>
        s.NeverCancelled d.job → s.NeverCancelled d'.job → d.version ≤ d'.version) := by
  have h := logged_run hrun
  refine ⟨h.rows.versions, ?_, ?_, h.content, ?_⟩
  · intro a s' hstep
    exact ((step_effect h.toWorking hstep).grows h.toWorking).fresh
  · intro j hj _
    exact h.rows.given j hj j.version (.inl rfl)
  · intro htimely
    have hflag : ∀ d ∈ s.dispatched, s.NeverCancelled d.job → d.cancelled = false := by
      intro d hd hnever
      obtain ⟨j, hj, hid, -⟩ := h.logged d hd
      by_contra hcancelled
      have := h.cancelled d hd (by simpa using hcancelled) j hj hid
      rw [hnever j hj hid] at this
      cases this
    refine (ordered_run htimely hrun).sorted.imp_of_mem ?_
    intro d d' hd hd' hle hnever hnever'
    exact hle (hflag d hd hnever) (hflag d' hd' hnever')

/-- A request for two nodes. -/
def exampleRequest (id : Nat) (config : Nat) : Request Nat :=
  ⟨config, [lit "n1", lit "n2"], none, itoa id, id, true⟩

/-- A job that both nodes accept, from its execution on. -/
def examplePublish (worker : WorkerId) (now : Int) : List (Action Nat) :=
  [.begin worker, .work .ok, .work (.answers fun _ => none), .work .ok, .work .ok, .work .ok,
    .release none, .finish worker now]

/-- A job is rolled back while another one waits. -/
def rollbackRun : List (Action Nat) :=
  [.readSite, .enqueue (exampleRequest 1 10), .claim 0 (itoa 1) 2, .begin 0, .work .ok,
    .readSite, .enqueue (exampleRequest 2 20),
    .work (.answers fun n => if n = lit "n2" then some (lit "rejected") else none),
    .work (.reserved 3 true none), .work .ok, .work (.answers fun _ => none),
    .work .ok, .work .ok, .work .ok, .work .ok, .release none, .finish 0 4,
    .claim 0 (itoa 2) 5] ++ examplePublish 0 6

theorem versions_lawful_rollbackRun :
    ∃ s, run (step 0) (init Nat 1) rollbackRun = some s ∧
      s.dispatched.map Dispatch.version = [2, 4, 5] ∧
      (s.tables.snapshots.map Snapshot.version).Nodup ∧
      s.dispatched.Pairwise fun d d' =>
        s.NeverCancelled d.job → s.NeverCancelled d'.job → d.version ≤ d'.version := by
  have hends : ∃ s, run (step 0) (init Nat 1) rollbackRun = some s ∧
      s.dispatched.map Dispatch.version = [2, 4, 5] := by
    apply ends_of_any
    decide +kernel
  obtain ⟨s, hrun, hlog⟩ := hends
  have hlawful := versions_lawful 0 1 rollbackRun s hrun
  exact ⟨s, hrun, hlog, hlawful.1, hlawful.2.2.2.2 (by decide +kernel)⟩

/-- A worker stops behind its claim; another one publishes the job and the one
behind it; then the first goes on. -/
def lateRun : List (Action Nat) :=
  [.readSite, .enqueue (exampleRequest 1 10), .claim 0 (itoa 1) 2,
    .claim 1 (itoa 1) (2 + 2 * defaultLease)] ++
  examplePublish 1 (3 + 2 * defaultLease) ++
  [.readSite, .enqueue (exampleRequest 2 20), .claim 1 (itoa 2) (4 + 2 * defaultLease)] ++
  examplePublish 1 (5 + 2 * defaultLease) ++ [.begin 0, .work .ok]

/-- **An execution that begins late sends an older version.** -/
theorem late_execution_sends_older :
    ∃ (as : List (Action Nat)) (s : State Nat), run (step 0) (init Nat 1) as = some s ∧
      (∀ j ∈ s.tables.jobs, j.cancelled = false) ∧
      s.dispatched.map Dispatch.version = [2, 3, 2] := by
  refine ⟨lateRun, ?_⟩
  apply ends_of_any
  decide +kernel

end Publisher
