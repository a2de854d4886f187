import GovetoEdge.PublisherSteps

/-!
# Attempts, and what was sent

An attempt of a job is counted when it is claimed, and given back only by a
worker that found the lock of the site taken.  So an attempt that sent something
is never given back: the job of a dispatch has an attempt for good, and no
request changes its snapshot any more.

* `step_attempts`, `step_holding` and `step_dispatched` are what a step does to
  attempts, leases and dispatches.
* `Leased` is the invariant: no two workers have one attempt of one job, and an
  attempt that is going to be given back sent nothing.
-/

namespace Publisher

open GoStrings SqlTables List Option
open JobQueue (WorkerId Lease Status Phase)

variable {κ : Type}

/-- The worker runs under the lease. -/
def State.Holding (s : State κ) (worker : WorkerId) (lease : Lease) : Prop :=
  (∃ x ∈ s.lock, x.worker = worker ∧ x.lease = lease) ∨ ∃ r ∈ s.runs worker, r.lease = lease

/-- The handler has not returned, or found the lock taken. -/
def Run.Unexecuted (r : Run) : Prop := ∀ o ∈ r.outcome, 0 < o.requeueAfter

/-- The configuration of the job has been sent. -/
def Stage.asked : Stage → Bool
  | .answers => true
  | .reserve _ => true
  | _ => false

/-- An execution ends with an outcome that keeps the attempt. -/
structure Execution.Sound (x : Execution) (log : List (Dispatch κ)) : Prop where
  ended : ∀ o, x.stage = .ended o → o.requeueAfter ≤ 0
  asked : x.stage.asked = true → ∃ d ∈ log, d.job = x.job.id

/-- The attempts of jobs, of leases and of what was sent. -/
structure Leased (s : State κ) : Prop extends Working s where
  single : ∀ x ∈ s.lock, s.runs x.worker = none
  sound : ∀ x ∈ s.lock, x.Sound s.dispatched
  attempts : ∀ w l, s.Holding w l → ∃ j ∈ s.tables.jobs, j.id = l.id ∧ 0 < l.attempt ∧
    l.attempt ≤ j.attempts
  distinct : ∀ w₁ l₁ w₂ l₂, s.Holding w₁ l₁ → s.Holding w₂ l₂ → l₁.id = l₂.id →
    l₁.attempt = l₂.attempt → w₁ = w₂
  logged : ∀ d ∈ s.dispatched, ∃ j ∈ s.tables.jobs, j.id = d.job ∧ 0 < d.attempt ∧
    d.attempt ≤ j.attempts
  unlogged : ∀ w, ∀ r ∈ s.runs w, r.Unexecuted → ∀ d ∈ s.dispatched, d.job = r.lease.id →
    d.attempt ≠ r.lease.attempt
  planned : ∀ j ∈ s.tables.jobs, j.plan.isSome → ∃ d ∈ s.dispatched, d.job = j.id

/-- No leases. -/
theorem leased_init (version : Nat) : Leased (init κ version) := by
  refine ⟨working_init version, ?_, ?_, ?_, ?_, ?_, ?_, ?_⟩ <;> simp [init, State.Holding]

/-- The attempt of a run is given back, and the run is over. -/
structure GivenBack (s s' : State κ) (j j' : Job) (worker : WorkerId) (r : Run) : Prop where
  run : s.runs worker = some r
  unexecuted : r.Unexecuted
  id : r.lease.id = j.id
  attempt : r.lease.attempt = j.attempts
  attempts : j.attempts ≤ j'.attempts + 1
  dropped : ∀ l, ¬ s'.Holding worker l

section Steps

variable {s s' : State κ} {a : Action κ} {t : Tables κ} {tombstone : κ} {worker : WorkerId}

/-- A job has a plan only when it has sent something. -/
theorem Effect.planned (h : Leased s) (heffect : Effect s a t) {j' : Job} (hj' : j' ∈ t.jobs)
    (hplan : j'.plan.isSome) : ∃ d ∈ s.dispatched, d.job = j'.id := by
  cases heffect.origin h.toWorking hj' with
  | kept hj hkeeps =>
    rw [hkeeps.id]
    exact h.planned _ hj (hkeeps.plan ▸ hplan)
  | created _ hnone => simp [hnone] at hplan
  | own hj hlock hstage hexecutes _ _ heq =>
    obtain ⟨d, hd, hjob⟩ := (h.sound _ hlock).asked (by rw [hstage]; rfl)
    subst heq
    exact ⟨d, hd, hjob.trans hexecutes.id.symm⟩
  | @moved j _ _ hj _ _ _ heq =>
    subst heq
    exact h.planned j hj hplan

/-- Leases are numbered upwards. -/
theorem State.Next.lt (hrows : Rows s.tables) {lease : Lease} (h : s.Next lease) {id : GoString}
    {attempt : Nat} (hcovered : ∃ j ∈ s.tables.jobs, j.id = id ∧ 0 < attempt ∧ attempt ≤ j.attempts)
    (hid : id = lease.id) : attempt < lease.attempt := by
  obtain ⟨j, hj, hjid, hnext⟩ := h
  obtain ⟨k, hk, hkid, -, hle⟩ := hcovered
  obtain rfl := hrows.eq_of_id hj hk (by rw [hjid, hkid, hid])
  omega

/-- A worker that waits does not hold the lock. -/
theorem Leased.ne_worker (h : Leased s) {r : Run} (hrun : s.runs worker = some r) :
    ∀ x ∈ s.lock, x.worker ≠ worker := by
  rintro x hx rfl
  rw [h.single x hx] at hrun
  cases hrun

/-- What a worker had is gone. -/
theorem holding_setRun_none {w : WorkerId} {l : Lease} (h : (s.setRun worker none).Holding w l) :
    (∃ x ∈ s.lock, x.worker = w ∧ x.lease = l) ∨ (w ≠ worker ∧ ∃ r ∈ s.runs w, r.lease = l) := by
  rcases h with hx | ⟨r, hr, rfl⟩
  · exact .inl hx
  · rcases mem_setRun hr with ⟨-, hnone⟩ | ⟨hne, hold⟩
    · cases hnone
    · exact .inr ⟨hne, r, hold, rfl⟩

variable [DecidableEq κ]

/-- The attempts of a job only grow, but for one that is given back. -/
theorem step_attempts (h : Leased s) (hstep : step tombstone s a = some s') {j : Job}
    (hj : j ∈ s.tables.jobs) :
    ∃ j' ∈ s'.tables.jobs, j'.id = j.id ∧
      (j.attempts ≤ j'.attempts ∨ ∃ w r, GivenBack s s' j j' w r) := by
  cases step_turn hstep with
  | rests g _ hjobs hg =>
    exact ⟨g j, hjobs ▸ mem_map_of_mem hj, (hg j hj).1.id, .inl (hg j hj).2.ge⟩
  | enqueue _ henqueue =>
    rcases enqueue_cases henqueue with ⟨-, rfl⟩ | ⟨-, pending, -, rfl⟩ |
      ⟨-, -, running, -, -, rfl⟩ | ⟨-, -, -, -, rfl⟩ | ⟨-, -, -, rfl⟩
    · exact ⟨j, hj, rfl, .inl le_rfl⟩
    · refine ⟨_, mem_map_of_mem hj, ?_⟩
      split <;> exact ⟨rfl, .inl le_rfl⟩
    · refine ⟨_, mem_map_of_mem hj, ?_⟩
      split <;> exact ⟨rfl, .inl le_rfl⟩
    · exact ⟨j, hj, rfl, .inl le_rfl⟩
    · exact ⟨j, mem_append_left _ hj, rfl, .inl le_rfl⟩
  | claim hfree hk hclaimable =>
    refine ⟨_, mem_map_of_mem hj, ?_⟩
    split
    · next hid =>
      obtain rfl := h.rows.eq_of_id hj hk hid
      exact ⟨rfl, .inl (Nat.le_succ _)⟩
    · exact ⟨rfl, .inl le_rfl⟩
  | @work _ x _ hlock hadvance =>
    rcases (transition_of_advance hadvance).tables with ⟨-, hjobs, -⟩ | ⟨_, plan, -, hreserved, -⟩
    · exact ⟨j, hjobs ▸ hj, rfl, .inl le_rfl⟩
    · refine ⟨reservedJob s.tables x.job plan j, ?_, rfl, .inl le_rfl⟩
      exact hreserved.jobs ▸ mem_map_of_mem hj
  | @finish worker now lease outcome hrun =>
    by_cases hfenced : j.row.fenced worker lease
    · refine ⟨_, mem_update_of_pos hj hfenced, rfl, ?_⟩
      rcases attempts_finished j now lease outcome with hsame | ⟨hrequeue, hback⟩
      · exact .inl hsame.ge
      · refine .inr ⟨worker, _, hrun, fun o ho => ?_, hfenced.1.symm, hfenced.2.2.2.symm,
          by omega, ?_⟩
        · cases ho
          exact hrequeue
        · intro l hl
          rcases holding_setRun_none hl with ⟨x, hx, hworker, -⟩ | ⟨hne, -⟩
          · exact h.ne_worker hrun x hx hworker
          · exact hne rfl
    · exact ⟨j, mem_update_of_not hj hfenced, rfl, .inl le_rfl⟩
  | fail | contend | begin | release | abandon => exact ⟨j, hj, rfl, .inl le_rfl⟩

/-- The attempts behind a step cover those that were covered and are not given back. -/
theorem step_covered (h : Leased s) (hstep : step tombstone s a = some s') {id : GoString}
    {attempt : Nat}
    (hcovered : ∃ j ∈ s.tables.jobs, j.id = id ∧ 0 < attempt ∧ attempt ≤ j.attempts)
    (hback : ∀ w r, s.runs w = some r → r.Unexecuted → (∀ l, ¬ s'.Holding w l) → r.lease.id = id →
      attempt ≠ r.lease.attempt) :
    ∃ j' ∈ s'.tables.jobs, j'.id = id ∧ 0 < attempt ∧ attempt ≤ j'.attempts := by
  obtain ⟨j, hj, hid, hpos, hle⟩ := hcovered
  obtain ⟨j', hj', hid', hattempts | ⟨w, r, hgiven⟩⟩ := step_attempts h hstep hj
  · exact ⟨j', hj', hid'.trans hid, hpos, hle.trans hattempts⟩
  · have hne := hback w r hgiven.run hgiven.unexecuted hgiven.dropped (hgiven.id.trans hid)
    have := hgiven.attempt
    have := hgiven.attempts
    exact ⟨j', hj', hid'.trans hid, hpos, by omega⟩

/-- A lease is held already, or claimed. -/
theorem step_holding (hstep : step tombstone s a = some s') {w : WorkerId} {l : Lease}
    (hl : s'.Holding w l) : s.Holding w l ∨ Claimed s a s' w l := by
  rcases hl with ⟨x, hx, rfl, rfl⟩ | ⟨r, hr, rfl⟩
  · left
    cases step_turn hstep with
    | begin hlock hrun =>
      cases hx
      exact .inr ⟨_, hrun, rfl⟩
    | work hlock =>
      cases hx
      exact .inl ⟨_, hlock, rfl, rfl⟩
    | release => cases hx
    | abandon => exact .inl ⟨x, (mem_filter_iff.mp hx).1, rfl, rfl⟩
    | rests | enqueue | claim | fail | contend | finish => exact .inl ⟨x, hx, rfl, rfl⟩
  · cases step_runs hstep hr with
    | same h => exact .inl (.inr ⟨r, h, rfl⟩)
    | claimed h => exact .inr h
    | returned hrun heq => exact .inl (.inr ⟨_, hrun, by rw [heq]⟩)
    | released hlock hworker _ heq => exact .inl (.inl ⟨_, hlock, hworker, by rw [heq]⟩)

theorem requeueAfter_released {outcome : Outcome} (error : Option GoString)
    (h : outcome.requeueAfter ≤ 0) : (released outcome error).requeueAfter ≤ 0 := by
  cases error with
  | none => exact h
  | some message =>
    unfold released
    dsimp only
    split
    · exact h
    · exact le_rfl

/-- A run that has not executed had not before, or is claimed. -/
theorem step_unexecuted (h : Leased s) (hstep : step tombstone s a = some s') {w : WorkerId}
    {r' : Run} (hr' : r' ∈ s'.runs w) (hunexecuted : r'.Unexecuted) :
    (∃ r ∈ s.runs w, r.Unexecuted ∧ r.lease = r'.lease) ∨ s.Next r'.lease := by
  cases step_runs hstep hr' with
  | same hr => exact .inl ⟨r', hr, hunexecuted, rfl⟩
  | claimed h => exact .inr h.next
  | returned hrun heq => exact .inl ⟨_, hrun, by simp [Run.Unexecuted], by rw [heq]⟩
  | @released x o error hlock _ hstage heq =>
    subst heq
    have hrequeue := requeueAfter_released error ((h.sound x hlock).ended o hstage)
    have := hunexecuted _ rfl
    omega

/-- What is sent is of the attempt of the execution. -/
theorem step_dispatched (h : Working s) (hstep : step tombstone s a = some s') {d : Dispatch κ}
    (hd : d ∈ s'.dispatched) :
    d ∈ s.dispatched ∨ ∃ x ∈ s.lock, d.job = x.lease.id ∧ d.attempt = x.lease.attempt := by
  cases step_turn hstep with
  | work hlock hadvance =>
    rcases mem_append.mp hd with hold | hnew
    · exact .inl hold
    · obtain ⟨_, -, rfl⟩ := mem_map.mp hnew
      obtain ⟨j, -, hexecutes⟩ := h.lock _ hlock
      exact .inr ⟨_, hlock, hexecutes.lease.symm, rfl⟩
  | rests | enqueue | claim | fail | contend | begin | release | finish | abandon => exact .inl hd

/-- The log is never cut. -/
theorem mem_dispatched (hstep : step tombstone s a = some s') {d : Dispatch κ}
    (hd : d ∈ s.dispatched) : d ∈ s'.dispatched := by
  cases step_turn hstep with
  | work => exact mem_append_left _ hd
  | rests | enqueue | claim | fail | contend | begin | release | finish | abandon => exact hd

end Steps

section Executions

variable {t t' : Tables κ} {job : Job} {stage next : Stage} {tombstone : κ}

/-- A write that ends asks for no requeueing. -/
theorem Write.ended (h : Write t job stage t' next) {o : Outcome} (ho : next = .ended o) :
    o.requeueAfter ≤ 0 := by
  cases h <;> cases ho <;> exact le_rfl

theorem Write.asked (h : Write t job stage t' next) : next.asked = false := by
  cases h <;> rfl

theorem afterAnswers_ne_ended (targets : List NodeId) (errors : NodeId → Option GoString)
    (o : Outcome) : afterAnswers targets errors ≠ .ended o := by
  unfold afterAnswers
  dsimp only
  repeat' split
  all_goals simp

/-- An execution ends without giving its attempt back, and asks before it answers. -/
theorem Execution.Sound.advance {x : Execution} {input : Input} {p : Progress κ}
    {log : List (Dispatch κ)} (h : x.Sound log)
    (htransition : Transition tombstone t x.job x.stage input p) :
    { x with stage := p.stage }.Sound (log ++ p.sent.toList.map fun (version, config) =>
      (⟨x.job.id, x.lease.attempt, version, config, x.job.cancelled⟩ : Dispatch κ)) := by
  obtain ⟨worker, lease, job, stage⟩ := x
  have hasked : stage.asked = true → ∀ more, ∃ d ∈ log ++ more, d.job = job.id := by
    intro hstage more
    obtain ⟨d, hd, hjob⟩ := h.asked hstage
    exact ⟨d, mem_append_left _ hd, hjob⟩
  cases htransition with
  | sent x hx => exact ⟨by simp, fun _ => ⟨_, mem_append_right _ mem_cons_self, rfl⟩⟩
  | sentBack | answeredBack => exact ⟨by simp, by simp [Stage.asked]⟩
  | answered errors =>
    exact ⟨fun o ho => absurd ho (afterAnswers_ne_ended _ _ o), fun _ => hasked rfl _⟩
  | wrote _ _ _ hwrite => exact ⟨fun o ho => hwrite.ended ho, by simp [hwrite.asked]⟩
  | lost _ _ _ _ o _ ho | gaveUp _ _ o ho =>
    refine ⟨fun o' ho' => ?_, by simp [Stage.asked]⟩
    cases ho'
    exact ho.requeueAfter.le
  | reserved _ _ _ _ _ _ hnext =>
    rcases hnext with rfl | ⟨message, rfl⟩
    · exact ⟨by simp, by simp [Stage.asked]⟩
    · refine ⟨fun o' ho' => ?_, by simp [Stage.asked]⟩
      cases ho'
      exact le_rfl

/-- An execution starts without answers. -/
theorem sound_firstStage {x : Execution} (hstage : x.stage = firstStage x.job)
    (log : List (Dispatch κ)) : x.Sound log := by
  constructor <;> rw [hstage] <;> unfold firstStage
  · intro o
    repeat' split
    all_goals simp
  · repeat' split
    all_goals simp [Stage.asked]

end Executions

variable {s s' : State κ} {a : Action κ} {tombstone : κ}

/-- **No attempt that sent something is given back.** -/
theorem leased_step [DecidableEq κ] (h : Leased s) (hstep : step tombstone s a = some s') :
    Leased s' where
  toWorking := working_step h.toWorking hstep
  single := by
    cases step_turn hstep with
    | rests | enqueue => exact h.single
    | claim hfree => exact fun x hx => (if_neg (hfree.2 x hx)).trans (h.single x hx)
    | fail hrun | contend hrun | finish hrun =>
      exact fun x hx => (if_neg (h.ne_worker hrun x hx)).trans (h.single x hx)
    | begin =>
      intro x hx
      cases hx
      exact if_pos rfl
    | @work _ x _ hlock =>
      intro y hy
      cases hy
      exact h.single x hlock
    | release => exact fun x hx => nomatch hx
    | abandon =>
      intro x hx
      obtain ⟨hold, hne⟩ := mem_filter_iff.mp hx
      exact (if_neg (of_decide_eq_true hne)).trans (h.single x hold)
  sound := by
    intro x hx
    cases step_turn hstep with
    | rests | enqueue | claim | fail | contend | finish => exact h.sound x hx
    | begin =>
      cases hx
      exact sound_firstStage rfl _
    | work hlock hadvance =>
      cases hx
      exact (h.sound _ hlock).advance (transition_of_advance hadvance)
    | release => cases hx
    | abandon => exact h.sound x (mem_filter_iff.mp hx).1
  attempts := by
    intro w l hl
    rcases step_holding hstep hl with hold | hclaimed
    · refine step_covered h hstep (h.attempts w l hold) fun v r hrun _ hover hid hattempt => ?_
      obtain rfl := h.distinct w l v r.lease hold (.inr ⟨r, hrun, rfl⟩) hid.symm hattempt
      exact hover l hl
    · obtain ⟨j, -, -, hattempt⟩ := hclaimed.next
      obtain ⟨j', hj', hid, hle⟩ := hclaimed.covered
      exact ⟨j', hj', hid, by omega, hle⟩
  distinct := by
    intro w₁ l₁ w₂ l₂ h₁ h₂ hid hattempt
    rcases step_holding hstep h₁ with hold₁ | hclaimed₁
    · rcases step_holding hstep h₂ with hold₂ | hclaimed₂
      · exact h.distinct w₁ l₁ w₂ l₂ hold₁ hold₂ hid hattempt
      · have := hclaimed₂.next.lt h.rows (h.attempts w₁ l₁ hold₁) hid
        omega
    · rcases step_holding hstep h₂ with hold₂ | hclaimed₂
      · have := hclaimed₁.next.lt h.rows (h.attempts w₂ l₂ hold₂) hid.symm
        omega
      · obtain ⟨_, hw₁⟩ := hclaimed₁.action
        obtain ⟨_, hw₂⟩ := hclaimed₂.action
        exact (Action.claim.inj (hw₁.symm.trans hw₂)).1
  logged := by
    intro d hd
    rcases step_dispatched h.toWorking hstep hd with hold | ⟨x, hx, hjob, hattempt⟩
    · refine step_covered h hstep (h.logged d hold) fun w r hrun hunexecuted _ hid => ?_
      exact h.unlogged w r hrun hunexecuted d hold hid.symm
    · rw [hjob, hattempt]
      have hholding : s.Holding x.worker x.lease := .inl ⟨x, hx, rfl, rfl⟩
      refine step_covered h hstep (h.attempts _ _ hholding) fun w r hrun _ _ hid heq => ?_
      exact h.ne_worker hrun x hx
        (h.distinct _ _ w r.lease hholding (.inr ⟨r, hrun, rfl⟩) hid.symm heq)
  unlogged := by
    intro w r' hr' hunexecuted d hd hjob hattempt
    have hcovered : ∃ j ∈ s.tables.jobs, j.id = d.job ∧ 0 < d.attempt ∧ d.attempt ≤ j.attempts := by
      rcases step_dispatched h.toWorking hstep hd with hold | ⟨x, hx, hxjob, hxattempt⟩
      · exact h.logged d hold
      · rw [hxjob, hxattempt]
        exact h.attempts _ _ (.inl ⟨x, hx, rfl, rfl⟩)
    rcases step_unexecuted h hstep hr' hunexecuted with ⟨r, hr, hr_unexecuted, hlease⟩ | hnext
    · rw [← hlease] at hjob hattempt
      rcases step_dispatched h.toWorking hstep hd with hold | ⟨x, hx, hxjob, hxattempt⟩
      · exact h.unlogged w r hr hr_unexecuted d hold hjob hattempt
      · exact h.ne_worker hr x hx (h.distinct x.worker x.lease w r.lease (.inl ⟨x, hx, rfl, rfl⟩)
          (.inr ⟨r, hr, rfl⟩) (hxjob.symm.trans hjob) (hxattempt.symm.trans hattempt))
    · have := hnext.lt h.rows hcovered hjob
      omega
  planned := by
    intro j' hj' hplan
    obtain ⟨d, hd, hjob⟩ := (step_effect h.toWorking hstep).planned h hj' hplan
    exact ⟨d, mem_dispatched hstep hd, hjob⟩

end Publisher
