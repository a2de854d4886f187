import GovetoEdge.JobQueue

/-!
# Leases and the life of a job

What a step does to a row of the job table is one `Move`; everything about
single jobs is derived from that.

* `jobs_lawful`: attempts are bounded, a lease belongs to a running job, a
  terminal status is left only by `Replay`, and a job whose cancellation is
  requested is never claimed and ends as cancelled.  The last part needs that
  no cancellation is requested between the statements of a sweep;
  `cancelled_during_sweep` is what happens otherwise.
* `claims_fenced`: a statement of a manager takes effect only for the latest
  claim of the job, and what is recorded for a claim is never changed.
-/

namespace JobQueue

open GoStrings SqlTables List Runs

variable {s t : State} {a : Action} {j : Job} {ops : List Action}

/-- What a step does to a row. -/
inductive Move (s : State) : Action → Job → Job → Prop
  | kept (a : Action) (j : Job) : Move s a j j
  | claimed (worker : WorkerId) (now defaultTimeout : Int) (j : Job)
      (h : j.claimable s.jobs now) :
      Move s (.claim worker j.id now defaultTimeout) j (j.claimed worker now defaultTimeout)
  | renewed (worker : WorkerId) (now : Int) (j : Job) (running : j.status = .running)
      (owner : j.leaseOwner = some worker) :
      Move s (.renew worker now) j { j with leaseUntil := some (now + defaultLease) }
  | finished (worker : WorkerId) (now : Int) (outcome : Outcome) (lease : Lease) (j : Job)
      (running : j.status = .running) :
      Move s (.finish worker now outcome) j
        (j.finished (outcomeDecision now lease outcome) outcome)
  | cancelled (now : Int) (j : Job) (active : j.status = .pending ∨ j.status = .running) :
      Move s (.cancel j.id now) j
        { j with
          cancelRequestedAt := some now
          status := if j.status = .pending then .cancelled else j.status }
  | replayed (now : Int) (j : Job)
      (h : j.status = .failed ∨ j.status = .deadLetter ∨ j.status = .cancelled) :
      Move s (.replay j.id now) j
        { j with
          status := .pending, attempts := 0, nextAttemptAt := now, leaseOwner := none
          leaseUntil := none, cancelRequestedAt := none, timeoutAt := none, resultJson := none
          compensationJson := none, error := none }
  | swept (now : Int) (phase : Phase) (j : Job) (sweep : s.sweep = some (now, phase))
      (concerns : phase.concerns now j) (sweepable : j.sweepable now) :
      Move s .sweepStep j
        { j with
          status := phase.status, error := j.error <|> some phase.message
          leaseOwner := none, leaseUntil := none }

variable {j' : Job} {id : GoString} {now : Int} {worker w : WorkerId} {e : Execution} {h : Held}

/-- A move keeps the identifier and the limit of attempts. -/
theorem Move.id_eq (h : Move s a j j') : j'.id = j.id ∧ j'.maxAttempts = j.maxAttempts := by
  cases h <;> exact ⟨rfl, rfl⟩

/-- A new job. -/
structure Fresh (s : State) (j : Job) : Prop where
  id : j.id ∉ s.jobs.map Job.id
  status : j.status = .pending
  attempts : j.attempts = 0
  leaseOwner : j.leaseOwner = none
  cancelRequestedAt : j.cancelRequestedAt = none

/-- Every row of a step is made from a row before, or is a new job. -/
def Moves (s : State) (a : Action) (t : State) : Prop :=
  (∃ f : Job → Job, t.jobs = s.jobs.map f ∧ ∀ j ∈ s.jobs, Move s a j (f j)) ∨
    ∃ j, Fresh s j ∧ t.jobs = s.jobs ++ [j]

/-- Every job was there, or is new. -/
theorem Moves.back (h : Moves s a t) (hj' : j' ∈ t.jobs) :
    (∃ j ∈ s.jobs, Move s a j j') ∨ Fresh s j' := by
  obtain ⟨f, hjobs, hf⟩ | ⟨j, hfresh, hjobs⟩ := h
  · rw [hjobs] at hj'
    obtain ⟨j, hj, rfl⟩ := mem_map.mp hj'
    exact .inl ⟨j, hj, hf j hj⟩
  · rw [hjobs] at hj'
    obtain hj' | hj' := mem_append.mp hj'
    · exact .inl ⟨j', hj', .kept a j'⟩
    · exact .inr (mem_singleton.mp hj' ▸ hfresh)

/-- Every job is still there. -/
theorem Moves.forth (h : Moves s a t) (hj : j ∈ s.jobs) : ∃ j' ∈ t.jobs, Move s a j j' := by
  obtain ⟨f, hjobs, hf⟩ | ⟨_, _, hjobs⟩ := h
  · exact ⟨f j, hjobs ▸ mem_map_of_mem hj, hf j hj⟩
  · exact ⟨j, hjobs ▸ mem_append_left _ hj, .kept a j⟩

/-- An update whose rows all move. -/
theorem moves_update {p : Job → Prop} [DecidablePred p] {f : Job → Job}
    (hjobs : t.jobs = update p f s.jobs) (hf : ∀ j ∈ s.jobs, p j → Move s a j (f j)) :
    Moves s a t := by
  refine .inl ⟨_, hjobs, fun j hj => ?_⟩
  by_cases hp : p j
  · rw [if_pos hp]
    exact hf j hj hp
  · rw [if_neg hp]
    exact .kept a j

/-- The table stays as it is. -/
theorem moves_same (hjobs : t.jobs = s.jobs) : Moves s a t :=
  .inl ⟨id, by rw [hjobs, map_id], fun j _ => .kept a j⟩

/-- A new job. -/
theorem enqueue_eq_some {site : Option (GoString × Int)} {maxAttempts : Nat}
    (h : enqueue s id site maxAttempts now = some t) :
    ∃ j, Fresh s j ∧ t = { s with jobs := s.jobs ++ [j] } := by
  unfold enqueue at h
  split at h
  · cases h
  · next hnew => exact ⟨_, ⟨hnew, rfl, rfl, rfl, rfl⟩, (Option.some.inj h).symm⟩

/-- One sweep at a time. -/
theorem sweepBegin_eq_some (h : step s (.sweepBegin now) = some t) :
    s.sweep = none ∧ t = { s with sweep := some (now, .cancelRequested) } := by
  simp only [step] at h
  split at h
  · next hfree => exact ⟨hfree, (Option.some.inj h).symm⟩
  · cases h

/-- The row a claim picks, and what it makes of the state. -/
theorem claim_eq_some {defaultTimeout : Int} (h : claim s worker id now defaultTimeout = some t) :
    s.held worker = none ∧ ∃ j ∈ s.jobs, j.id = id ∧ j.claimable s.jobs now ∧
      t = State.setHeld { s with
        jobs := update (fun j => j.id = id) (fun _ => j.claimed worker now defaultTimeout) s.jobs
        executions := claimExecutions s.executions (j.claimed worker now defaultTimeout) worker }
        worker (some ⟨⟨id, j.attempts + 1, j.maxAttempts,
          (j.claimed worker now defaultTimeout).timeoutAt, now + defaultLease⟩,
          s.executions.length⟩) := by
  unfold claim at h
  split at h
  · next hheld hfind =>
    refine ⟨hheld, _, mem_of_find?_eq_some hfind, ?_⟩
    have hpicked := List.find?_some hfind
    rw [decide_eq_true_eq] at hpicked
    exact ⟨hpicked.1, hpicked.2, (Option.some.inj h).symm⟩
  · cases h

/-- What a finish makes of the state. -/
theorem finish_eq_some {outcome : Outcome} (h : finish s worker now outcome = some t) :
    ∃ held, s.held worker = some held ∧
      ((∀ j ∈ s.jobs, ¬ j.fenced worker held.lease) ∧ t = s.setHeld worker none ∨
        ∃ j ∈ s.jobs, j.fenced worker held.lease ∧ t = State.setHeld { s with
          jobs := update (fun j => j.fenced worker held.lease)
            (Job.finished (outcomeDecision now held.lease outcome) outcome) s.jobs
          executions := update
            (fun e : Execution => e.jobId = held.lease.id ∧ e.attempt = held.lease.attempt ∧
              e.workerId = worker ∧ e.status = Status.running)
            (fun e => { e with
              status := executionOutcomeStatus
                (j.finished (outcomeDecision now held.lease outcome) outcome).status outcome
              resultJson := outcome.result
              error := (j.finished (outcomeDecision now held.lease outcome) outcome).error })
            s.executions } worker none) := by
  obtain ⟨held, hheld, rfl⟩ := Option.map_eq_some_iff.mp h
  refine ⟨held, hheld, ?_⟩
  split
  · next hnone =>
    refine .inl ⟨fun j hj => ?_, rfl⟩
    simpa using List.find?_eq_none.mp hnone j hj
  · next j hfind =>
    have hfenced := List.find?_some hfind
    rw [decide_eq_true_eq] at hfenced
    exact .inr ⟨j, mem_of_find?_eq_some hfind, hfenced, rfl⟩

/-- **What a step does to the jobs.** -/
theorem step_moves (hids : (s.jobs.map Job.id).Nodup) (h : step s a = some t) : Moves s a t := by
  cases a with
  | enqueue id site maxAttempts now =>
    obtain ⟨j, hfresh, rfl⟩ := enqueue_eq_some h
    exact .inr ⟨j, hfresh, rfl⟩
  | claim worker id now defaultTimeout =>
    obtain ⟨_, j, hj, rfl, hclaimable, rfl⟩ := claim_eq_some h
    refine moves_update rfl fun j' hj' heq => ?_
    rw [eq_of_key hids hj' hj heq]
    exact .claimed worker now defaultTimeout j hclaimable
  | renew worker now =>
    obtain ⟨held, _, rfl⟩ := Option.map_eq_some_iff.mp h
    exact moves_update rfl fun j _ hfenced => .renewed worker now j hfenced.2.1 hfenced.2.2.1
  | finish worker now outcome =>
    obtain ⟨held, _, ⟨_, rfl⟩ | ⟨_, _, _, rfl⟩⟩ := finish_eq_some h
    · exact moves_same rfl
    · exact moves_update rfl fun j _ hfenced =>
        .finished worker now outcome held.lease j hfenced.2.1
  | abandon worker =>
    cases h
    exact moves_same rfl
  | cancel id now =>
    cases h
    refine moves_update rfl fun j _ hactive => ?_
    rw [← hactive.1]
    exact .cancelled now j hactive.2
  | replay id now =>
    cases h
    refine moves_update rfl fun j _ hdone => ?_
    rw [← hdone.1]
    exact .replayed now j hdone.2
  | sweepBegin now =>
    obtain ⟨_, rfl⟩ := sweepBegin_eq_some h
    exact moves_same rfl
  | sweepStep =>
    obtain ⟨⟨now, phase⟩, hsweep, rfl⟩ := Option.map_eq_some_iff.mp h
    exact moves_update rfl fun j _ hmatch => .swept now phase j hsweep hmatch.1 hmatch.2

/-- The identifiers stay unique. -/
theorem step_ids (hids : (s.jobs.map Job.id).Nodup) (h : step s a = some t) :
    (t.jobs.map Job.id).Nodup := by
  obtain ⟨f, hjobs, hf⟩ | ⟨j, hfresh, hjobs⟩ := step_moves hids h
  · have hsame : t.jobs.map Job.id = s.jobs.map Job.id := by
      rw [hjobs, map_map]
      exact map_congr_left fun j hj => (hf j hj).id_eq.1
    rwa [hsame]
  · rw [hjobs, map_append, nodup_append]
    refine ⟨hids, nodup_singleton _, ?_⟩
    intro x hx y hy heq
    rw [map_singleton, mem_singleton] at hy
    exact hfresh.id (hy ▸ heq ▸ hx)

/-- A manager that is free has no claim. -/
theorem held_setHeld_none (hw : (s.setHeld worker none).held w = some h) : s.held w = some h := by
  have hfree : (if w = worker then none else s.held w) = some h := hw
  split at hfree
  · cases hfree
  · exact hfree

/-- The steps that neither claim a job nor release its lease. -/
def Action.plain : Action → Bool
  | claim _ _ _ _ => false
  | finish _ _ _ => false
  | sweepStep => false
  | _ => true

/-- What a step leaves alone, beside the jobs. -/
structure Frame (s : State) (a : Action) (t : State) : Prop where
  executions : a.plain → t.executions = s.executions
  held : a.plain → ∀ w h, t.held w = some h → s.held w = some h
  sweep : t.sweep = s.sweep ∨ (∃ now, t.sweep = some (now, .cancelRequested)) ∨ a = .sweepStep
  /-- what is recorded of a claim stays -/
  recorded : ∀ e ∈ s.executions, e.status ≠ .running → e ∈ t.executions

/-- **What a step leaves alone.** -/
theorem step_frame (h : step s a = some t) : Frame s a t := by
  cases a with
  | enqueue id site maxAttempts now =>
    obtain ⟨j, _, rfl⟩ := enqueue_eq_some h
    exact ⟨fun _ => rfl, fun _ _ _ hw => hw, .inl rfl, fun _ he _ => he⟩
  | claim worker id now defaultTimeout =>
    obtain ⟨_, j, _, _, _, rfl⟩ := claim_eq_some h
    exact ⟨nofun, nofun, .inl rfl, fun e he hdone =>
      mem_append_left _ (mem_update_of_not he fun hmatch => hdone hmatch.2.1)⟩
  | renew worker now =>
    obtain ⟨_, _, rfl⟩ := Option.map_eq_some_iff.mp h
    exact ⟨fun _ => rfl, fun _ _ _ hw => hw, .inl rfl, fun _ he _ => he⟩
  | finish worker now outcome =>
    obtain ⟨_, _, ⟨_, rfl⟩ | ⟨_, _, _, rfl⟩⟩ := finish_eq_some h
    · exact ⟨nofun, nofun, .inl rfl, fun _ he _ => he⟩
    · exact ⟨nofun, nofun, .inl rfl, fun e he hdone =>
        mem_update_of_not he fun hmatch => hdone hmatch.2.2.2⟩
  | abandon worker =>
    cases h
    exact ⟨fun _ => rfl, fun _ _ _ => held_setHeld_none, .inl rfl, fun _ he _ => he⟩
  | cancel id now | replay id now =>
    cases h
    exact ⟨fun _ => rfl, fun _ _ _ hw => hw, .inl rfl, fun _ he _ => he⟩
  | sweepBegin now =>
    obtain ⟨_, rfl⟩ := sweepBegin_eq_some h
    exact ⟨fun _ => rfl, fun _ _ _ hw => hw, .inr (.inl ⟨now, rfl⟩), fun _ he _ => he⟩
  | sweepStep =>
    obtain ⟨⟨now, phase⟩, _, rfl⟩ := Option.map_eq_some_iff.mp h
    exact ⟨nofun, nofun, .inr (.inr rfl), fun e he hdone =>
      mem_update_of_not he fun hmatch => hdone hmatch.1⟩

theorem outcomeDecision_status (now : Int) (lease : Lease) (outcome : Outcome) :
    (outcomeDecision now lease outcome).status ≠ .running := by
  unfold outcomeDecision
  cases outcome.err with
  | none =>
    dsimp only
    split <;> simp
  | some message =>
    dsimp only
    split
    · simp
    · split
      · simp
      · split
        · simp
        · split <;> simp

/-- A finished job does not run. -/
theorem finished_status (now : Int) (lease : Lease) (outcome : Outcome) (j : Job) :
    (j.finished (outcomeDecision now lease outcome) outcome).status ≠ .running := by
  unfold Job.finished
  dsimp only
  split
  · simp
  · exact outcomeDecision_status now lease outcome

/-- What holds of every row. -/
structure Job.Lawful (j : Job) : Prop where
  attempts : j.attempts ≤ j.maxAttempts
  owner : j.leaseOwner.isSome → j.status = .running

/-- A move is lawful. -/
theorem Move.lawful (h : Move s a j j') (hj : j.Lawful) : j'.Lawful := by
  cases h with
  | kept => exact hj
  | claimed worker now defaultTimeout _ hclaimable => exact ⟨hclaimable.2.1, fun _ => rfl⟩
  | renewed worker now _ running _ => exact ⟨hj.attempts, fun _ => running⟩
  | finished worker now outcome lease _ running =>
    refine ⟨?_, fun howner => absurd howner (by simp [Job.finished])⟩
    unfold Job.finished
    dsimp only
    split
    · exact Nat.le_trans (Nat.sub_le _ _) hj.attempts
    · exact hj.attempts
  | cancelled now _ active =>
    refine ⟨hj.attempts, fun howner => ?_⟩
    have hrunning := hj.owner howner
    simp [hrunning]
  | replayed now _ _ => exact ⟨Nat.zero_le _, fun howner => absurd howner (by simp)⟩
  | swept now phase _ _ _ _ => exact ⟨hj.attempts, fun howner => absurd howner (by simp)⟩

/-- A terminal status is left by `Replay` only. -/
theorem Move.terminal (h : Move s a j j') (hj : j.status.terminal) :
    j'.status = j.status ∨ ∃ now, a = .replay j.id now := by
  cases h with
  | kept => exact .inl rfl
  | claimed worker now defaultTimeout _ hclaimable =>
    rcases hclaimable.2.2.2.1 with h | h <;> simp [h.1, Status.terminal] at hj
  | renewed worker now _ running _ | finished worker now outcome lease _ running =>
    simp [running, Status.terminal] at hj
  | cancelled now _ active => rcases active with h | h <;> simp [h, Status.terminal] at hj
  | replayed now _ _ => exact .inr ⟨now, rfl⟩
  | swept now phase _ _ _ sweepable =>
    rcases sweepable with h | h
    · simp [h, Status.terminal] at hj
    · simp [h.1, Status.terminal] at hj

/-- A request for cancellation is taken back by `Replay` only. -/
theorem Move.cancel_requested (h : Move s a j j') (hj : j.cancelRequestedAt.isSome) :
    j'.cancelRequestedAt.isSome ∨ ∃ now, a = .replay j.id now := by
  cases h with
  | kept | claimed | renewed | finished | swept => exact .inl hj
  | cancelled _ _ _ => exact .inl rfl
  | replayed now _ _ => exact .inr ⟨now, rfl⟩

/-- A job whose cancellation is requested runs or is cancelled. -/
def Job.Stopping (j : Job) : Prop :=
  j.cancelRequestedAt.isSome → j.status = .running ∨ j.status = .cancelled

/-- After its first statements a sweep finds no job whose cancellation is
requested. -/
def Job.Clear (sweep : Option (Int × Phase)) (j : Job) : Prop :=
  ∀ now phase, sweep = some (now, phase) → phase ≠ .cancelRequested →
    j.cancelRequestedAt.isSome → j.status = .running → ¬ j.expired now

/-- A cancelled job stops. -/
theorem Move.stopping (h : Move s a j j') (hj : j.Stopping) (hclear : j.Clear s.sweep) :
    j'.Stopping := by
  intro hcancel
  cases h with
  | kept => exact hj hcancel
  | claimed _ _ _ _ _ => exact .inl rfl
  | renewed _ _ _ running _ => exact .inl running
  | finished _ _ _ _ _ _ =>
    have hrequested : j.cancelRequestedAt.isSome = true := hcancel
    exact .inr (by simp [Job.finished, hrequested])
  | cancelled _ _ active =>
    rcases active with h | h
    · exact .inr (if_pos h)
    · exact .inl (by simp [h])
  | replayed _ _ _ => cases hcancel
  | swept now phase _ sweep _ sweepable =>
    by_cases hphase : phase = .cancelRequested
    · exact .inr (by rw [hphase]; rfl)
    · have hrequested : j.cancelRequestedAt.isSome = true := hcancel
      rcases sweepable with hpending | hexpired
      · rcases hj hrequested with h | h <;> simp [hpending] at h
      · exact absurd hexpired.2 (hclear now phase sweep hphase hrequested hexpired.1)

/-- After the first statements of a sweep no cancellation is requested of a running
job whose lease the sweep takes for over, and no lease of a job whose cancellation is
requested is renewed to such a time. -/
def Quiet (s : State) (a : Action) : Prop :=
  match a, s.sweep with
  | .cancel id _, some (now, phase) => phase = .cancelRequested ∨
    ∀ j ∈ s.jobs, j.id = id → j.status = .running → ¬ j.expired now
  | .renew worker now, some (sweepNow, phase) => phase = .cancelRequested ∨
    ∀ j ∈ s.jobs, j.leaseOwner = some worker → j.cancelRequestedAt.isSome →
      sweepNow < now + defaultLease
  | _, _ => True

instance (s : State) (a : Action) : Decidable (Quiet s a) := by
  unfold Quiet
  split <;> infer_instance

/-- The sweep has passed over it. -/
theorem Move.clear (h : Move s a j j') (hquiet : Quiet s a) (hmem : j ∈ s.jobs)
    (hj : j.Clear s.sweep) : j'.Clear s.sweep := by
  intro now phase hsweep hphase hcancel hrunning
  cases h with
  | kept => exact hj now phase hsweep hphase hcancel hrunning
  | claimed _ _ _ _ hclaimable =>
    have hrequested : j.cancelRequestedAt.isSome = true := hcancel
    simp [hclaimable.1] at hrequested
  | renewed _ renewNow _ _ owner =>
    intro hexpired
    have hover := hexpired (renewNow + defaultLease) rfl
    simp only [Quiet, hsweep] at hquiet
    have hlater := hquiet.resolve_left hphase j hmem owner hcancel
    omega
  | finished _ _ outcome lease _ _ => exact absurd hrunning (finished_status _ lease outcome j)
  | cancelled _ _ _ =>
    simp only [Quiet, hsweep] at hquiet
    have hrunning : j.status = .running := by
      by_contra hnot
      simp_all
    exact hquiet.resolve_left hphase j hmem rfl hrunning
  | replayed _ _ _ => cases hcancel
  | swept _ phase' _ _ _ _ => cases phase' <;> simp [Phase.status] at hrunning

/-- The invariant of the job table in every run. -/
structure Rows (s : State) : Prop where
  ids : (s.jobs.map Job.id).Nodup
  lawful : ∀ j ∈ s.jobs, j.Lawful

/-- The empty table. -/
theorem rows_init : Rows init := ⟨nodup_nil, by simp [init]⟩

/-- Every step keeps the rows lawful. -/
theorem rows_step (hrows : Rows s) (h : step s a = some t) : Rows t := by
  refine ⟨step_ids hrows.ids h, fun j' hj' => ?_⟩
  rcases (step_moves hrows.ids h).back hj' with ⟨j, hj, hmove⟩ | hfresh
  · exact hmove.lawful (hrows.lawful j hj)
  · exact ⟨by simp [hfresh.attempts], fun howner => by simp [hfresh.leaseOwner] at howner⟩

/-- And so does every run. -/
theorem rows_run (hrun : run step init ops = some s) : Rows s :=
  run_invariant (fun _ _ _ hrows h => rows_step hrows h) rows_init hrun

/-- The invariant of the job table in runs with quiet sweeps. -/
structure Stops (s : State) : Prop where
  stopping : ∀ j ∈ s.jobs, j.Stopping
  clear : ∀ j ∈ s.jobs, j.Clear s.sweep

/-- The empty table. -/
theorem stops_init : Stops init := ⟨by simp [init], by simp [init]⟩

/-- The statements of a phase leave nothing that the first phase looks for. -/
theorem clear_sweepStep (hclear : ∀ j ∈ s.jobs, j.Clear s.sweep) (h : sweepStep s = some t) :
    ∀ j ∈ t.jobs, j.Clear t.sweep := by
  obtain ⟨⟨now, phase⟩, hsweep, rfl⟩ := Option.map_eq_some_iff.mp h
  intro j hj now' phase' hnext hphase' hcancel hrunning
  obtain ⟨next, hphase, heq⟩ := Option.map_eq_some_iff.mp hnext
  obtain ⟨rfl, rfl⟩ := Prod.mk.inj heq
  rcases mem_update_cases hj with ⟨old, _, _, rfl⟩ | ⟨hold, hnot⟩
  · cases phase <;> simp [Phase.status] at hrunning
  · cases phase with
    | cancelRequested =>
      intro hexpired
      exact hnot ⟨hcancel, .inr ⟨hrunning, hexpired⟩⟩
    | deadlineExpired => exact hclear j hold now .deadlineExpired hsweep (by simp) hcancel hrunning
    | attemptsExceeded => simp [Phase.next] at hphase

/-- Quiet steps stop what is cancelled. -/
theorem stops_step (hrows : Rows s) (hstops : Stops s) (hquiet : Quiet s a)
    (h : step s a = some t) : Stops t := by
  have hmoves := step_moves hrows.ids h
  refine ⟨fun j' hj' => ?_, ?_⟩
  · rcases hmoves.back hj' with ⟨j, hj, hmove⟩ | hfresh
    · exact hmove.stopping (hstops.stopping j hj) (hstops.clear j hj)
    · exact fun hcancel => by simp [hfresh.cancelRequestedAt] at hcancel
  · rcases (step_frame h).sweep with hsame | ⟨now, hbegin⟩ | rfl
    · rw [hsame]
      intro j' hj'
      rcases hmoves.back hj' with ⟨j, hj, hmove⟩ | hfresh
      · exact hmove.clear hquiet hj (hstops.clear j hj)
      · exact fun _ _ _ _ hcancel => by simp [hfresh.cancelRequestedAt] at hcancel
    · rw [hbegin]
      intro j' _ now' phase hsweep hphase
      exact absurd (Prod.mk.inj (Option.some.inj hsweep)).2.symm hphase
    · exact clear_sweepStep hstops.clear h

/-- And so do quiet runs. -/
theorem stops_run (hquiet : Along step Quiet init ops)
    (hrun : run step init ops = some s) : Stops s := by
  have hinv := run_invariant_along (I := fun s => Rows s ∧ Stops s)
    (fun s a t hinv hquiet h => ⟨rows_step hinv.1 h, stops_step hinv.1 hinv.2 hquiet h⟩)
    ⟨rows_init, stops_init⟩ hquiet hrun
  exact hinv.2

/-- A job whose cancellation is requested is not claimed. -/
theorem claim_of_cancelled (hids : (s.jobs.map Job.id).Nodup) (hj : j ∈ s.jobs)
    (hcancel : j.cancelRequestedAt.isSome) (worker : WorkerId) (now defaultTimeout : Int) :
    step s (.claim worker j.id now defaultTimeout) = none := by
  cases h : step s (.claim worker j.id now defaultTimeout) with
  | none => rfl
  | some t =>
    obtain ⟨_, j', hj', hid, hclaimable, _⟩ := claim_eq_some h
    rw [← eq_of_key hids hj' hj hid, hclaimable.1] at hcancel
    cases hcancel

/-- What one step may do to a job: a terminal status is left by `Replay` only,
and so is a request for cancellation, which keeps the job from being claimed. -/
structure Obeys (a : Action) (j j' : Job) : Prop where
  id : j'.id = j.id
  terminal : j.status.terminal → j'.status = j.status ∨ ∃ now, a = .replay j.id now
  requested : j.cancelRequestedAt.isSome →
    j'.cancelRequestedAt.isSome ∨ ∃ now, a = .replay j.id now
  unclaimed : j.cancelRequestedAt.isSome → ∀ worker now defaultTimeout,
    a ≠ .claim worker j.id now defaultTimeout

/-- **The life of a job.**  In every run attempts stay within their limit, only
a running job has a lease owner, and every further step leaves a terminal
status only by `Replay` and claims no job whose cancellation is requested.  If
none is requested of a job that a sweep under way takes for expired, then such a
job has no terminal status but `CANCELLED`. -/
theorem jobs_lawful (hrun : run step init ops = some s) :
    (∀ j ∈ s.jobs, j.attempts ≤ j.maxAttempts ∧ (j.leaseOwner.isSome → j.status = .running)) ∧
      (∀ a t, step s a = some t → ∀ j ∈ s.jobs, ∃ j' ∈ t.jobs, Obeys a j j') ∧
      (Along step Quiet init ops → ∀ j ∈ s.jobs,
        j.cancelRequestedAt.isSome → j.status.terminal → j.status = .cancelled) := by
  have hrows := rows_run hrun
  refine ⟨fun j hj => ?_, fun a t h j hj => ?_, fun hquiet j hj hcancel hterminal => ?_⟩
  · exact ⟨(hrows.lawful j hj).attempts, (hrows.lawful j hj).owner⟩
  · obtain ⟨j', hj', hmove⟩ := (step_moves hrows.ids h).forth hj
    refine ⟨j', hj', hmove.id_eq.1, hmove.terminal, hmove.cancel_requested, ?_⟩
    rintro hcancel worker now defaultTimeout rfl
    rw [claim_of_cancelled hrows.ids hj hcancel] at h
    cases h
  · rcases (stops_run hquiet hrun).stopping j hj hcancel with hrunning | hcancelled
    · simp [hrunning, Status.terminal] at hterminal
    · exact hcancelled

/-- A job whose only attempt is claimed and expires; the cancellation is
requested before the sweep or between its statements. -/
def expiredJob (cancelFirst : Bool) : List Action :=
  [.enqueue (lit "job") none 1 0, .claim 1 (lit "job") 0 0] ++
    (if cancelFirst then [.cancel (lit "job") (50 * second)] else []) ++
    [.sweepBegin (50 * second), .sweepStep] ++
    (if cancelFirst then [] else [.cancel (lit "job") (50 * second)]) ++
    [.sweepStep, .sweepStep]

theorem jobs_lawful_expiredJob :
    ∃ s, run step init (expiredJob true) = some s ∧
      ∃ j ∈ s.jobs, j.cancelRequestedAt.isSome ∧ j.status = .cancelled := by
  have hquiet : Along step Quiet init (expiredJob true) := by decide +kernel
  have hends : ∃ s, run step init (expiredJob true) = some s ∧
      ∃ j ∈ s.jobs, j.cancelRequestedAt.isSome ∧ j.status.terminal := by
    apply ends_of_any
    decide +kernel
  obtain ⟨s, hs, j, hj, hcancel, hterminal⟩ := hends
  exact ⟨s, hs, j, hj, hcancel, (jobs_lawful hs).2.2 hquiet j hj hcancel hterminal⟩

/-- A cancellation that is requested after the first statements of a sweep is
overruled by the later ones. -/
theorem cancelled_during_sweep :
    ∃ s, run step init (expiredJob false) = some s ∧
      ∃ j ∈ s.jobs, j.cancelRequestedAt.isSome ∧ j.status = .deadLetter := by
  apply ends_of_any
  decide +kernel

/-- The lease of the job is the one that the execution stands for. -/
structure Owns (j : Job) (e : Execution) : Prop where
  id : j.id = e.jobId
  running : j.status = .running
  attempts : j.attempts = e.attempt
  owner : j.leaseOwner = some e.workerId

/-- The lease of a running job: the job, the attempt and the owner. -/
def Job.grant (j : Job) : Option (GoString × Nat × WorkerId) :=
  if j.status = .running then j.leaseOwner.map fun w => (j.id, j.attempts, w) else none

/-- The lease that a running execution stands for. -/
def Execution.grant (e : Execution) : Option (GoString × Nat × WorkerId) :=
  if e.status = .running then some (e.jobId, e.attempt, e.workerId) else none

variable {lease : GoString × Nat × WorkerId}

/-- The lease of a job. -/
theorem Job.grant_eq_some : j.grant = some lease ↔
    j.id = lease.1 ∧ j.status = .running ∧ j.leaseOwner = some lease.2.2 ∧
      j.attempts = lease.2.1 := by
  obtain ⟨id, attempt, w⟩ := lease
  simp only [Job.grant, Option.ite_none_right_eq_some, Option.map_eq_some_iff, Prod.mk.injEq]
  grind

/-- The lease of an execution. -/
theorem Execution.grant_eq_some : e.grant = some lease ↔
    e.jobId = lease.1 ∧ e.attempt = lease.2.1 ∧ e.workerId = lease.2.2 ∧ e.status = .running := by
  obtain ⟨id, attempt, w⟩ := lease
  simp only [Execution.grant, Option.ite_none_right_eq_some, Option.some.injEq, Prod.mk.injEq]
  grind

theorem Job.grant_eq_none (h : j.status ≠ .running) : j.grant = none := if_neg h

/-- A job and an execution with one lease belong together. -/
theorem owns_of_grant (hj : j.grant = some lease) (he : e.grant = some lease) : Owns j e := by
  obtain ⟨hid, hrunning, howner, hattempts⟩ := Job.grant_eq_some.mp hj
  obtain ⟨hjob, hattempt, hworker, -⟩ := Execution.grant_eq_some.mp he
  exact ⟨hid.trans hjob.symm, hrunning, hattempts.trans hattempt.symm, hworker ▸ howner⟩

/-- What names an execution: its position, the job, the attempt and the manager. -/
def Execution.name (e : Execution) : Nat × GoString × Nat × WorkerId :=
  (e.id, e.jobId, e.attempt, e.workerId)

/-- What tells executions apart. -/
def names (executions : List Execution) : List (Nat × GoString × Nat × WorkerId) :=
  executions.map Execution.name

/-- The invariant of jobs, executions and managers: the same leases are granted in
both tables, what runs is the latest claim of its job, and what a manager holds is
its own latest claim. -/
structure Fencing (jobs : List Job) (executions : List Execution)
    (held : WorkerId → Option Held) : Prop where
  grants : ∀ lease, lease ∈ jobs.filterMap Job.grant ↔
    lease ∈ executions.filterMap Execution.grant
  positions : executions.map Execution.id = List.range executions.length
  latest : ∀ e ∈ executions, e.status = .running →
    ∀ n ∈ names executions, n.2.1 = e.jobId → n.1 ≤ e.id
  held : ∀ w h, held w = some h →
    (h.execution, h.lease.id, h.lease.attempt, w) ∈ names executions ∧
      ∀ n ∈ names executions, n.2.2.2 = w → n.1 ≤ h.execution

variable {jobs jobs' : List Job} {executions : List Execution}
  {held held' : WorkerId → Option Held}

/-- An identifier has one execution. -/
theorem Fencing.unique (hinv : Fencing jobs executions held) {e' : Execution}
    (he : e ∈ executions) (he' : e' ∈ executions) (hid : e.id = e'.id) : e = e' := by
  have hnodup : (executions.map Execution.id).Nodup := by
    rw [hinv.positions]
    exact nodup_range
  exact eq_of_key hnodup he he' hid

/-- The claim whose guard matches is the latest of its job and still runs. -/
theorem Fencing.fenced (hinv : Fencing jobs executions held) (hheld : held w = some h)
    (hj : j ∈ jobs) (hfenced : j.fenced w h.lease) :
    ∃ e ∈ executions, e.id = h.execution ∧ e.status = .running ∧ Owns j e := by
  have hgrant : j.grant = some (h.lease.id, h.lease.attempt, w) := Job.grant_eq_some.mpr hfenced
  obtain ⟨e, he, hlease⟩ := mem_filterMap.mp
    ((hinv.grants _).mp (mem_filterMap.mpr ⟨j, hj, hgrant⟩))
  obtain ⟨hjob, -, hworker, hrunning⟩ := Execution.grant_eq_some.mp hlease
  obtain ⟨hname, hlatest⟩ := hinv.held w h hheld
  have hle : e.id ≤ h.execution := hlatest e.name (mem_map_of_mem he) hworker
  have hge : h.execution ≤ e.id := hinv.latest e he hrunning _ hname hjob.symm
  exact ⟨e, he, Nat.le_antisymm hle hge, hrunning, owns_of_grant hgrant hlease⟩

/-- The moves of steps that neither claim nor release a lease. -/
theorem Move.grant (h : Move s a j j') (ha : a.plain) : j'.grant = j.grant := by
  cases h with
  | kept | renewed => rfl
  | claimed | finished | swept => cases ha
  | cancelled now _ active =>
    unfold Job.grant
    rcases active with h | h <;> simp [h]
  | replayed now _ done =>
    unfold Job.grant
    rcases done with h | h | h <;> simp [h]

/-- Plain moves leave leases alone. -/
theorem Moves.grants (h : Moves s a t) (ha : a.plain) :
    t.jobs.filterMap Job.grant = s.jobs.filterMap Job.grant := by
  obtain ⟨f, hjobs, hf⟩ | ⟨j, hfresh, hjobs⟩ := h
  · rw [hjobs, filterMap_map]
    exact filterMap_congr fun j hj => (hf j hj).grant ha
  · have hnone : j.grant = none := Job.grant_eq_none (by simp [hfresh.status])
    simp [hjobs, hnone]

/-- Leases are released, and the end of exactly those executions is recorded that
stood for them. -/
theorem Fencing.release (hinv : Fencing jobs executions held) {p : Job → Prop} [DecidablePred p]
    {f : Job → Job} {q : Execution → Prop} [DecidablePred q] {g : Execution → Execution}
    (hheld : ∀ w h, held' w = some h → held w = some h) (hf : ∀ j, (f j).status ≠ .running)
    (hname : ∀ e, (g e).name = e.name) (hg : ∀ e, (g e).status ≠ .running)
    (hpq : ∀ j ∈ jobs, ∀ e ∈ executions, ∀ lease, j.grant = some lease →
      e.grant = some lease → (p j ↔ q e)) :
    Fencing (update p f jobs) (update q g executions) held' := by
  have hnames : names (update q g executions) = names executions := map_update hname
  have hids : (update q g executions).map Execution.id = executions.map Execution.id :=
    map_update fun e => congrArg Prod.fst (hname e)
  refine ⟨fun lease => ?_, ?_, fun e he hrunning => ?_, ?_⟩
  · rw [mem_filterMap_update fun j => Job.grant_eq_none (hf j),
      mem_filterMap_update fun e => if_neg (hg e)]
    constructor
    · intro ⟨j, hj, hnot, hlease⟩
      obtain ⟨e, he, hlease'⟩ := mem_filterMap.mp
        ((hinv.grants lease).mp (mem_filterMap.mpr ⟨j, hj, hlease⟩))
      exact ⟨e, he, mt (hpq j hj e he lease hlease hlease').mpr hnot, hlease'⟩
    · intro ⟨e, he, hnot, hlease⟩
      obtain ⟨j, hj, hlease'⟩ := mem_filterMap.mp
        ((hinv.grants lease).mpr (mem_filterMap.mpr ⟨e, he, hlease⟩))
      exact ⟨j, hj, mt (hpq j hj e he lease hlease' hlease).mp hnot, hlease'⟩
  · rw [hids, hinv.positions, update, length_map]
  · rw [hnames]
    rcases mem_update_cases he with ⟨old, _, _, rfl⟩ | ⟨hold, _⟩
    · exact absurd hrunning (hg old)
    · exact hinv.latest e hold hrunning
  · rw [hnames]
    exact fun w h' hw => hinv.held w h' (hheld w h' hw)

/-- A lease is granted for a job that has none. -/
theorem Fencing.grant (hinv : Fencing jobs executions held) (hid : e.id = executions.length)
    (hidle : ∀ j ∈ jobs, j.id = e.jobId → j.grant = none)
    (hgrants : ∀ lease, lease ∈ jobs'.filterMap Job.grant ↔
      lease ∈ jobs.filterMap Job.grant ∨ e.grant = some lease) {got : Held}
    (hgot : e.name = (got.execution, got.lease.id, got.lease.attempt, worker)) :
    Fencing jobs' (executions ++ [e]) fun w => if w = worker then some got else held w := by
  have hnames : names (executions ++ [e]) = names executions ++ [e.name] := map_append
  have hbelow : ∀ n ∈ names executions, n.1 ≤ e.id := by
    intro n hn
    obtain ⟨e', he', rfl⟩ := mem_map.mp hn
    have hmem : e'.id ∈ executions.map Execution.id := mem_map_of_mem he'
    rw [hinv.positions, mem_range, ← hid] at hmem
    exact Nat.le_of_lt hmem
  refine ⟨fun lease => ?_, ?_, fun e' he' hrunning => ?_, fun w h' hw => ?_⟩
  · rw [hgrants, hinv.grants, filterMap_append, mem_append]
    simp
  · rw [map_append, hinv.positions, length_append, map_singleton, hid, length_singleton,
      range_succ]
  · rw [hnames, forall_mem_append, forall_mem_singleton]
    rcases mem_append.mp he' with he' | he'
    · refine ⟨hinv.latest e' he' hrunning, fun hjob => ?_⟩
      obtain ⟨j, hj, hlease⟩ := mem_filterMap.mp
        ((hinv.grants _).mpr (mem_filterMap.mpr ⟨e', he', if_pos hrunning⟩))
      rw [hidle j hj ((Job.grant_eq_some.mp hlease).1.trans hjob.symm)] at hlease
      cases hlease
    · rw [mem_singleton.mp he']
      exact ⟨fun n hn _ => hbelow n hn, fun _ => Nat.le_refl _⟩
  · rw [hnames, forall_mem_append, forall_mem_singleton, hgot]
    split at hw
    · next hworker =>
      cases hw
      have hself : got.execution = e.id := (congrArg Prod.fst hgot).symm
      exact ⟨by simp [hworker], fun n hn _ => hself ▸ hbelow n hn, fun _ => Nat.le_refl _⟩
    · next hworker =>
      obtain ⟨hname, hlatest⟩ := hinv.held w h' hw
      exact ⟨mem_append_left _ hname, hlatest, fun heq => absurd heq.symm hworker⟩

/-- The invariant, of the state. -/
def Fenced (s : State) : Prop := Fencing s.jobs s.executions s.held

/-- An outcome ends the execution with the lease. -/
theorem fencing_finish (hinv : Fenced s) {outcome : Outcome}
    (h : finish s worker now outcome = some t) : Fenced t := by
  obtain ⟨held, _, ⟨_, rfl⟩ | ⟨j, hj, hfenced, rfl⟩⟩ := finish_eq_some h
  · exact { hinv with held := fun w h hw => hinv.held w h (held_setHeld_none hw) }
  · refine hinv.release (fun _ _ => held_setHeld_none (s := s))
      (fun j => finished_status now held.lease outcome j) (fun _ => rfl) (fun e => ?_) ?_
    · unfold executionOutcomeStatus
      split
      · simp
      · exact finished_status now held.lease outcome j
    · intro j _ e _ lease hlease hlease'
      -- Both say that the lease is the one of the manager.
      have hj := @Job.grant_eq_some j (held.lease.id, held.lease.attempt, worker)
      have he := @Execution.grant_eq_some e (held.lease.id, held.lease.attempt, worker)
      rw [hlease] at hj
      rw [hlease'] at he
      exact hj.symm.trans he

/-- So does a sweep. -/
theorem fencing_sweepStep (hrows : Rows s) (hinv : Fenced s) (h : sweepStep s = some t) :
    Fenced t := by
  obtain ⟨⟨now, phase⟩, _, rfl⟩ := Option.map_eq_some_iff.mp h
  have hstatus : phase.status ≠ .running := by cases phase <;> simp [Phase.status]
  refine hinv.release (fun _ _ => id) (fun _ => hstatus) (fun _ => rfl) (fun _ => hstatus) ?_
  intro j hj e _ lease hlease hlease'
  have hown := owns_of_grant hlease hlease'
  constructor
  · intro hmatch
    refine ⟨(Execution.grant_eq_some.mp hlease').2.2.2, _, mem_update_of_pos hj hmatch, hown.id,
      rfl, ?_, hown.attempts⟩
    have hconcerns := hmatch.1
    cases phase <;> exact hconcerns
  · rintro ⟨_, j', hj', hid, hphase, _⟩
    rcases mem_update_cases hj' with ⟨old, hold, hmatch, rfl⟩ | ⟨hold, _⟩
    · rwa [eq_of_key hrows.ids hj hold (hown.id.trans hid.symm)]
    · rw [← eq_of_key hrows.ids hj hold (hown.id.trans hid.symm), hown.running] at hphase
      exact absurd hphase.symm hstatus

/-- A claim ends the execution that stood for the expired lease, and starts its
own. -/
theorem fencing_claim (hrows : Rows s) (hinv : Fenced s) {defaultTimeout : Int}
    (h : claim s worker id now defaultTimeout = some t) : Fenced t := by
  obtain ⟨_, j, hj, rfl, hclaimable, rfl⟩ := claim_eq_some h
  have hnone : ∀ j : Job, Job.grant { j with status := .failed } = none :=
    fun _ => Job.grant_eq_none (by simp)
  -- The claim is a release of the old lease and a grant of the new one.
  show Fencing _ (update _ _ s.executions ++ [_]) _
  refine (hinv.release (p := fun j' => j'.id = j.id) (f := fun j => { j with status := .failed })
    (fun _ _ => id) ?_ ?_ ?_ ?_).grant ?_ (fun j' hj' hid => ?_) (fun lease => ?_) rfl
  · simp
  · exact fun _ => rfl
  · simp
  · intro j' hj' e _ lease hlease hlease'
    have hown := owns_of_grant hlease hlease'
    refine ⟨fun hid => ?_, fun hmatch => hown.id.trans hmatch.1⟩
    rw [← hown.id, ← hown.attempts, eq_of_key hrows.ids hj' hj hid]
    exact ⟨rfl, (Execution.grant_eq_some.mp hlease').2.2.2, Nat.lt_succ_self _⟩
  · simp [update]
  · rcases mem_update_cases hj' with ⟨old, _, _, rfl⟩ | ⟨_, hne⟩
    · exact hnone old
    · exact absurd hid hne
  · rw [mem_filterMap_update hnone]
    constructor
    · intro hmem
      obtain ⟨j', hj', hlease⟩ := mem_filterMap.mp hmem
      rcases mem_update_cases hj' with ⟨_, _, _, rfl⟩ | ⟨hold, hne⟩
      · exact .inr hlease
      · exact .inl ⟨j', hold, hne, hlease⟩
    · intro hmem
      rcases hmem with ⟨j', hj', hne, hlease⟩ | hlease
      · exact mem_filterMap.mpr ⟨j', mem_update_of_not hj' hne, hlease⟩
      · exact mem_filterMap.mpr ⟨_, mem_update_of_pos hj rfl, hlease⟩

/-- Every step keeps leases and executions together. -/
theorem fencing_step (hrows : Rows s) (hinv : Fenced s) (h : step s a = some t) : Fenced t := by
  cases a with
  | claim worker id now defaultTimeout => exact fencing_claim hrows hinv h
  | finish worker now outcome => exact fencing_finish hinv h
  | sweepStep => exact fencing_sweepStep hrows hinv h
  | _ =>
    have hframe := step_frame h
    unfold Fenced
    rw [hframe.executions rfl]
    exact { hinv with
      grants := (step_moves hrows.ids h).grants rfl ▸ hinv.grants
      held := fun w h hw => hinv.held w h (hframe.held rfl w h hw) }

/-- And so does every run. -/
theorem fencing_run (hrun : run step init ops = some s) : Fenced s := by
  have hinit : Fenced init := ⟨fun _ => Iff.rfl, rfl, by simp [init], by simp [init]⟩
  have hinv := run_invariant (I := fun s => Rows s ∧ Fenced s)
    (fun _ _ _ hinv h => ⟨rows_step hinv.1 h, fencing_step hinv.1 hinv.2 h⟩)
    ⟨rows_init, hinit⟩ hrun
  exact hinv.2

/-- What is recorded stays. -/
theorem recorded_run {later : List Action} (hrun : run step s later = some t)
    (he : e ∈ s.executions) (hdone : e.status ≠ .running) : e ∈ t.executions :=
  run_invariant (I := fun t => e ∈ t.executions)
    (fun _ _ _ he h => (step_frame h).recorded e he hdone) he hrun

/-- The claim of a manager is the most recent one of its job, and its lease has
been neither released nor swept. -/
def Current (s : State) (w : WorkerId) (h : Held) : Prop :=
  ∃ e ∈ s.executions, e.id = h.execution ∧ e.workerId = w ∧ e.status = .running ∧
    (∀ e' ∈ s.executions, e'.jobId = e.jobId → e'.id ≤ e.id) ∧
    ∃ j ∈ s.jobs, j.id = h.lease.id ∧ Owns j e

/-- What a manager holds is current while the fence lets it through. -/
theorem Fenced.isCurrent (hinv : Fenced s) (hheld : s.held w = some h) (hj : j ∈ s.jobs)
    (hfenced : j.fenced w h.lease) : Current s w h := by
  obtain ⟨e, he, hid, hrunning, hown⟩ := hinv.fenced hheld hj hfenced
  have hworker : e.workerId = w := Option.some.inj (hown.owner.symm.trans hfenced.2.2.1)
  exact ⟨e, he, hid, hworker, hrunning,
    fun e' he' => hinv.latest e he hrunning _ (mem_map_of_mem he'), j, hj,
    hfenced.1, hown⟩

/-- A statement that a manager sends on behalf of its claim. -/
inductive OnBehalf (w : WorkerId) : Action → Prop
  | renew (now : Int) : OnBehalf w (.renew w now)
  | finish (now : Int) (outcome : Outcome) : OnBehalf w (.finish w now outcome)

/-- **Fencing.**  In every run, a statement on behalf of a claim changes a table
only if the claim is the most recent one of its job and its lease has been
neither released nor swept; then it changes the job of the claim and the
execution of the claim, and no other row.  Once an outcome is recorded for a
claim, it is there in every later state, and no other is. -/
theorem claims_fenced (hrun : run step init ops = some s) :
    (∀ w a t, OnBehalf w a → step s a = some t → ∃ h, s.held w = some h ∧
      (t.jobs = s.jobs ∧ t.executions = s.executions ∨
        Current s w h ∧ (∀ j ∈ s.jobs, j.id ≠ h.lease.id → j ∈ t.jobs) ∧
          ∀ e ∈ s.executions, e.id ≠ h.execution → e ∈ t.executions)) ∧
    (∀ later t, run step s later = some t → ∀ e ∈ s.executions, e.status ≠ .running →
      e ∈ t.executions ∧ ∀ e' ∈ t.executions, e'.id = e.id → e' = e) := by
  have hinv := fencing_run hrun
  refine ⟨fun w a t hbehalf h => ?_, fun later t hlater e he hdone => ?_⟩
  · cases hbehalf with
    | renew now =>
      obtain ⟨held, hheld, rfl⟩ := Option.map_eq_some_iff.mp h
      refine ⟨held, hheld, ?_⟩
      by_cases hfenced : ∃ j ∈ s.jobs, j.fenced w held.lease
      · obtain ⟨j, hj, hfenced⟩ := hfenced
        exact .inr ⟨hinv.isCurrent hheld hj hfenced,
          fun j' hj' hne => mem_update_of_not hj' fun hmatch => hne hmatch.1,
          fun e he _ => he⟩
      · refine .inl ⟨update_of_forall_not fun j hj hmatch => hfenced ⟨j, hj, hmatch⟩, rfl⟩
    | finish now outcome =>
      obtain ⟨held, hheld, ⟨_, rfl⟩ | ⟨j, hj, hfenced, rfl⟩⟩ := finish_eq_some h
      · exact ⟨held, hheld, .inl ⟨rfl, rfl⟩⟩
      · refine ⟨held, hheld, .inr ⟨hinv.isCurrent hheld hj hfenced,
          fun j' hj' hne => mem_update_of_not hj' fun hmatch => hne hmatch.1,
          fun e he hne => mem_update_of_not he fun hmatch => hne ?_⟩⟩
        obtain ⟨e₀, he₀, hid, hrunning, hown⟩ := hinv.fenced hheld hj hfenced
        have hjob : e.jobId = e₀.jobId := hmatch.1.trans (hfenced.1.symm.trans hown.id)
        have hle := hinv.latest e₀ he₀ hrunning _ (mem_map_of_mem he) hjob
        have hge := hinv.latest e he hmatch.2.2.2 _ (mem_map_of_mem he₀) hjob.symm
        exact (Nat.le_antisymm hle hge).trans hid
  · have hwhole : run step init (ops ++ later) = some t := by
      rw [run_append, hrun]
      exact hlater
    have hlast := fencing_run hwhole
    have hkept := recorded_run hlater he hdone
    exact ⟨hkept, fun e' he' hid => hlast.unique he' hkept hid⟩

/-- A manager loses its lease to another one. -/
def reclaimedJob : List Action :=
  [.enqueue (lit "job") none 3 0, .claim 1 (lit "job") 0 0, .claim 2 (lit "job") (50 * second) 0]

theorem claims_fenced_reclaimedJob :
    ∃ s, run step init reclaimedJob = some s ∧
      (∃ e ∈ s.executions, e.workerId = 1 ∧ e.status = .failed) ∧
      ∀ later t, run step s later = some t → ∀ e ∈ s.executions, e.status ≠ .running →
        e ∈ t.executions := by
  have hends : ∃ s, run step init reclaimedJob = some s ∧
      ∃ e ∈ s.executions, e.workerId = 1 ∧ e.status = .failed := by
    apply ends_of_any
    decide +kernel
  obtain ⟨s, hs, hfailed⟩ := hends
  exact ⟨s, hs, hfailed, fun later t hlater e he hdone =>
    ((claims_fenced hs).2 later t hlater e he hdone).1⟩

/-- **One execution at a time** runs of a job, under the lease in its row. -/
theorem grants_agree (hrun : run step init ops = some s) :
    (∀ l, l ∈ s.jobs.filterMap Job.grant ↔ l ∈ s.executions.filterMap Execution.grant) ∧
      ∀ e ∈ s.executions, ∀ e' ∈ s.executions, e.status = .running → e'.status = .running →
        e.jobId = e'.jobId → e = e' := by
  have h := fencing_run hrun
  refine ⟨h.grants, fun e he e' he' hr hr' hjob => h.unique he he' ?_⟩
  apply Nat.le_antisymm
  · exact h.latest e' he' hr' _ (mem_map_of_mem he) hjob
  · exact h.latest e he hr _ (mem_map_of_mem he') hjob.symm

theorem grants_agree_reclaimedJob :
    ∃ s, run step init reclaimedJob = some s ∧ ∀ l,
      l ∈ s.jobs.filterMap Job.grant ↔ l ∈ s.executions.filterMap Execution.grant := by
  have hruns : (run step init reclaimedJob).isSome := by decide +kernel
  obtain ⟨s, hs⟩ := Option.isSome_iff_exists.mp hruns
  exact ⟨s, hs, (grants_agree hs).1⟩

end JobQueue
