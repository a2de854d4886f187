import GovetoEdge.AgentTasks

/-!
# Results and leases of agent tasks

* `Change` is what a step does to a task, `Effect` what it does to the table.
* `tasks_lawful`: the result of a task is recorded only by the live session that
  holds its lease, attempts stay within their limit, and a task that has ended
  stays as it is until it is deleted, unless it is a GeoIP task that is to run
  again or its payload is sealed anew.
* `geoIP_task_runs_again`: a GeoIP task that succeeded is pending again.
-/

namespace AgentTasks

open GoStrings SqlTables List Option Runs
open JobQueue (Status Phase)

variable {s q : State} {a : Action} {t : Task} {ops : List Action}

/-- The step lets a GeoIP task run again. -/
inductive Rearms (s : State) (t : Task) : Action → Prop
  | task (sid : SessionId) (agent : GoString) (now : Int) (session : Session)
      (live : s.liveSession sid = some session)
      (key : t.idempotencyKey = some (geoIPKey session.node s.geoIP))
      (terminal : t.status.terminal) :
      Rearms s t (.rearmGeoIPTask sid agent now)
  | all (now : Int) (kind : t.kind = .syncGeoIP) (sha256 : t.payload.sha256 = some s.geoIP)
      (terminal : t.status.terminal) :
      Rearms s t (.rearmGeoIP now)

/-- Only a task that has ended runs again. -/
theorem Rearms.terminal (h : Rearms s t a) : t.status.terminal := by
  cases h with
  | task _ _ _ _ _ _ terminal | all _ _ _ terminal => exact terminal

/-- The step records a result for the session that holds the lease of the task. -/
structure RecordsFor (s : State) (a : Action) (t : Task) (sid : SessionId)
    (result : AgentTaskResult) (now : Int) : Prop where
  live : ∃ session, s.liveSession sid = some session ∧ t.nodeId = session.node
  owner : t.leaseOwner = some sid
  running : t.status = .running
  task : result.taskID = t.id
  action : a = .completeTask sid result now ∨ a = .failUnsealed sid t.id result.error now

/-- What a step does to a row. -/
inductive Change (s : State) (a : Action) (t : Task) : Task → Prop
  | kept : Change s a t t
  | claimed (sid : SessionId) (now : Int) (limit : t.attempts < t.maxAttempts)
      (active : t.active) :
      Change s a t { t with
        status := .running, leaseOwner := some sid, leaseUntil := some (now + taskLease)
        attempts := t.attempts + 1, updatedAt := now }
  | renewed (now : Int) (running : t.status = .running) :
      Change s a t { t with leaseUntil := some (now + taskLease), updatedAt := now }
  | completed (sid : SessionId) (result : AgentTaskResult) (now : Int)
      (h : RecordsFor s a t sid result now) : Change s a t (t.completed result now)
  | released (now : Int) (running : t.status = .running) :
      Change s a t { t with
        status := .pending, leaseOwner := none, leaseUntil := none, nextAttemptAt := now
        updatedAt := now }
  | superseded (error : Option GoString) (now : Int) (pending : t.status = .pending) :
      Change s a t { t with
        status := .cancelled, cancelRequestedAt := some now, error := error, updatedAt := now }
  | cancelled (error : Option GoString) (now : Int) (active : t.active) :
      Change s a t (t.cancelled error now)
  | converged (phase : Phase) (now : Int) (error : Option GoString) (active : t.active) :
      Change s a t { t with
        status := phase.status, error := error, leaseOwner := none, leaseUntil := none
        updatedAt := now }
  | rearmed (now : Int) (h : Rearms s t a) : Change s a t (t.rearmed now)
  | rewrapped (text : GoString) (now : Int) (h : a = .rewrapPayload t.id text now) :
      Change s a t { t with payload := { t.payload with text := text }, updatedAt := now }

/-- A new task. -/
structure New (t : Task) : Prop where
  status : t.status = .pending
  attempts : t.attempts = 0
  leaseOwner : t.leaseOwner = none
  resultJson : t.resultJson = none

/-- Rows that are added to a table, all new. -/
def Grows (tasks tasks' : List Task) : Prop :=
  ∃ new, tasks' = tasks ++ new ∧ (∀ t ∈ new, New t) ∧
    ((tasks.map Task.id).Nodup → (tasks'.map Task.id).Nodup)

theorem grows_refl (tasks : List Task) : Grows tasks tasks :=
  ⟨[], (append_nil _).symm, by simp, id⟩

/-- The step deletes a task that ended long ago, or its node. -/
def Deletes (a : Action) (t : Task) : Prop :=
  (∃ now, a = .cleanupTasks now ∧ t.status.terminal ∧ t.updatedAt < now - completedTaskTTL) ∨
    a = .deleteNode t.nodeId

/-- What a step does to the table: rows change, new ones come, old ones go. -/
inductive Effect (s : State) (a : Action) : List Task → Prop
  | updated (p : Task → Prop) [DecidablePred p] (f : Task → Task) (hid : ∀ t, (f t).id = t.id)
      (h : ∀ t ∈ s.tasks, p t → Change s a t (f t)) : Effect s a (update p f s.tasks)
  | grown {tasks : List Task} (h : Grows s.tasks tasks) : Effect s a tasks
  | deleted (p : Task → Bool) (h : ∀ t ∈ s.tasks, p t = false → Deletes a t) :
      Effect s a (s.tasks.filter p)

/-- The table stays as it is. -/
theorem effect_same (h : q.tasks = s.tasks) : Effect s a q.tasks := by
  rw [h]
  exact .grown (grows_refl _)

/-- An inserted task is new. -/
theorem new_newTask (id nodeId : GoString) (kind : Kind) (payload : Payload)
    (key : Option GoString) (timeoutAt : Option Int) (now : Int) :
    New (newTask id nodeId kind payload key timeoutAt now) :=
  ⟨rfl, rfl, rfl, rfl⟩

/-- Insertions one after the other. -/
theorem Grows.trans {x y z : List Task} (h : Grows x y) (h' : Grows y z) : Grows x z := by
  obtain ⟨new, rfl, hnew, hids⟩ := h
  obtain ⟨new', rfl, hnew', hids'⟩ := h'
  refine ⟨new ++ new', append_assoc _ _ _, fun t ht => ?_, fun h => hids' (hids h)⟩
  rcases mem_append.mp ht with ht | ht
  · exact hnew t ht
  · exact hnew' t ht

variable {tasks : List Task} {t' : Task}

/-- An insertion adds its row, or none. -/
theorem grows_insertTask {tasks' : List Task} {task : Task} (hnew : New task)
    (h : insertTask tasks task = some tasks') : Grows tasks tasks' := by
  unfold insertTask at h
  obtain ⟨hfresh, h⟩ := ite_none_left_eq_some.mp h
  split at h
  · cases h
    exact grows_refl tasks
  · cases h
    refine ⟨[task], rfl, fun t ht => ?_, fun hids => ?_⟩
    · rw [mem_singleton.mp ht]
      exact hnew
    · rw [map_append, nodup_append]
      refine ⟨hids, nodup_singleton _, ?_⟩
      intro x hx y hy heq
      rw [map_singleton, mem_singleton] at hy
      exact hfresh (hy ▸ heq ▸ hx)

/-- Insertions in a loop. -/
theorem grows_foldlM {α : Type} {f : List Task → α → Option (List Task)}
    (hf : ∀ tasks x tasks', f tasks x = some tasks' → Grows tasks tasks') (xs : List α)
    {tasks' : List Task} (h : xs.foldlM f tasks = some tasks') : Grows tasks tasks' := by
  induction xs generalizing tasks with
  | nil =>
    rw [← Option.some.inj h]
    exact grows_refl tasks
  | cons x xs ih =>
    obtain ⟨mid, hmid, hrest⟩ := bind_eq_some_iff.mp h
    exact (hf tasks x mid hmid).trans (ih hrest)

/-- The effect of an `INSERT`. -/
theorem effect_insertTask {task : Task} (hnew : New task)
    (h : ((insertTask s.tasks task).map fun tasks => { s with tasks := tasks }) = some q) :
    Effect s a q.tasks := by
  obtain ⟨tasks, htasks, rfl⟩ := map_eq_some_iff.mp h
  exact .grown (grows_insertTask hnew htasks)

/-- Only claimable tasks are claimed. -/
theorem effect_claimTasks (hids : (s.tasks.map Task.id).Nodup) {sid : SessionId}
    {ids : List GoString} {now : Int} (h : claimTasks s sid ids now = some q) :
    Effect s a q.tasks := by
  obtain ⟨session, _, h⟩ := bind_eq_some_iff.mp h
  obtain ⟨hpicked, h⟩ := ite_none_right_eq_some.mp h
  cases h
  refine .updated _ _ (fun _ => rfl) fun t ht hid => ?_
  obtain ⟨t', ht', heq, hclaimable⟩ := hpicked.2 t.id hid
  rw [eq_of_key hids ht' ht heq] at hclaimable
  refine .claimed sid now hclaimable.2.2.1 ?_
  rcases hclaimable.2.2.2.2.2 with h | h
  · exact .inl h.1
  · exact .inr h.1

/-- Results are recorded for the owner of the lease. -/
theorem effect_completeTasks {sid : SessionId} {session : Session} {result : AgentTaskResult}
    {now : Int} (hlive : s.liveSession sid = some session)
    (ha : a = .completeTask sid result now ∨ a = .failUnsealed sid result.taskID result.error now) :
    Effect s a (completeTasks s session.node sid result now) := by
  refine .updated _ _ (fun _ => rfl) fun t _ hmatch => .completed sid result now ?_
  refine ⟨⟨session, hlive, hmatch.2.1⟩, hmatch.2.2.1, hmatch.2.2.2.1, hmatch.1.symm, ?_⟩
  rw [hmatch.1]
  exact ha

/-- The active tasks of a node are cancelled. -/
theorem effect_cancelNodeTasks (nodeId error : GoString) (now : Int) :
    Effect s a (cancelNodeTasks nodeId error now s.tasks) :=
  .updated _ _ (fun _ => rfl) fun _ _ hmatch => .cancelled (some error) now hmatch.2

/-- **What a step does to the table of tasks.** -/
theorem step_effect (hids : (s.tasks.map Task.id).Nodup) (h : step s a = some q) :
    Effect s a q.tasks := by
  cases a with
  | setNode | refreshGeoIP =>
    cases h
    exact effect_same rfl
  | connect nodeId =>
    simp only [step] at h
    split at h
    · cases h
      exact effect_same rfl
    · cases h
  | recordHeartbeat | disconnect =>
    obtain ⟨_, _, rfl⟩ := map_eq_some_iff.mp h
    exact effect_same rfl
  | dispatch id nodeId kind payload now =>
    simp only [step, dispatch] at h
    split at h
    · exact effect_insertTask (new_newTask _ _ _ _ _ _ _) h
    · cases h
  | reconcileCacheConfig sid id payload now =>
    obtain ⟨_, _, h⟩ := bind_eq_some_iff.mp h
    unfold reconcileCacheConfig at h
    split at h
    · exact effect_insertTask (new_newTask _ _ _ _ _ _ _) h
    · cases h
      exact effect_same rfl
  | ensureSiteTombstone sid id siteID reportedVersion encoded now =>
    obtain ⟨_, _, h⟩ := bind_eq_some_iff.mp h
    unfold ensureSiteTombstone at h
    dsimp only at h
    split at h
    · cases h
      exact effect_same rfl
    · exact effect_insertTask (new_newTask _ _ _ _ _ _ _) h
  | rearmGeoIPTask sid agent now =>
    obtain ⟨session, hlive, h⟩ := bind_eq_some_iff.mp h
    split at h
    · cases h
      exact .updated _ _ (fun _ => rfl) fun t _ hmatch =>
        .rearmed now (.task sid agent now session hlive hmatch.1 hmatch.2)
    · cases h
  | insertGeoIPTask sid id agent now =>
    obtain ⟨session, hlive, h⟩ := bind_eq_some_iff.mp h
    split at h
    · exact effect_insertTask (new_newTask _ _ _ _ _ _ _) h
    · cases h
  | supersedeGeoIP now =>
    cases h
    exact .updated _ _ (fun _ => rfl) fun _ _ hmatch => .superseded _ now hmatch.2.1
  | rearmGeoIP now =>
    cases h
    refine .updated _ _ (fun _ => rfl) fun t _ hmatch => .rearmed now ?_
    refine .all now hmatch.1 hmatch.2.1 ?_
    rcases hmatch.2.2.1 with h | h | h <;> simp [h, Status.terminal]
  | enqueueGeoIP ids now =>
    obtain ⟨tasks, htasks, rfl⟩ := map_eq_some_iff.mp h
    refine .grown (grows_foldlM (fun tasks n tasks' h => ?_) s.nodes htasks)
    unfold enqueueGeoIPTask at h
    split at h
    · exact grows_insertTask (new_newTask _ _ _ _ _ _ _) h
    · cases h
      exact grows_refl tasks
  | claimTasks sid ids now => exact effect_claimTasks hids h
  | renewLeases sid now =>
    obtain ⟨session, _, h⟩ := bind_eq_some_iff.mp h
    split at h
    · cases h
    · cases h
      exact .updated _ _ (fun _ => rfl) fun _ _ hmatch => .renewed now hmatch.2.1
  | completeTask sid result now =>
    obtain ⟨session, hlive, rfl⟩ := map_eq_some_iff.mp h
    exact effect_completeTasks hlive (.inl rfl)
  | failUnsealed sid taskID error now =>
    obtain ⟨session, hlive, rfl⟩ := map_eq_some_iff.mp h
    exact effect_completeTasks hlive (.inr rfl)
  | releaseLeases sid now =>
    obtain ⟨session, _, rfl⟩ := map_eq_some_iff.mp h
    exact .updated _ _ (fun _ => rfl) fun _ _ hmatch => .released now hmatch.2.2.1
  | cancelAbandonedTask id now =>
    cases h
    exact .updated _ _ (fun _ => rfl) fun _ _ hmatch => .cancelled _ now hmatch.2
  | revoke nodeId now =>
    simp only [step, revoke] at h
    split at h
    · cases h
      exact effect_cancelNodeTasks nodeId _ now
    · cases h
  | disableNode nodeId now | reinstallNode nodeId now =>
    cases h
    exact effect_cancelNodeTasks nodeId _ now
  | convergeTasks phase now =>
    cases h
    refine .updated _ _ (fun _ => rfl) fun _ _ hmatch => .converged phase now _ ?_
    rcases hmatch.2 with h | h
    · exact .inl h
    · exact .inr h.1
  | rewrapPayload id text now =>
    cases h
    refine .updated _ _ (fun _ => rfl) fun t _ hmatch => .rewrapped text now ?_
    rw [hmatch.1]
  | cleanupTasks now =>
    cases h
    refine .deleted _ fun t _ hgone => .inl ⟨now, rfl, ?_⟩
    simpa only [decide_eq_false_iff_not, not_not] using hgone
  | deleteNode nodeId =>
    cases h
    refine .deleted _ fun t _ hgone => .inr ?_
    rw [show t.nodeId = nodeId by simpa using hgone]

/-- What holds of every row: the limit of attempts, and a lease while the task
runs. -/
structure Task.Lawful (t : Task) : Prop where
  attempts : t.attempts ≤ t.maxAttempts
  lease : t.leaseOwner.isSome ↔ t.status = .running

/-- A change keeps a row lawful. -/
theorem Change.lawful (h : Change s a t t') (ht : t.Lawful) : t'.Lawful := by
  cases h with
  | kept => exact ht
  | claimed sid now limit active => exact ⟨limit, by simp⟩
  | renewed | rewrapped => exact ⟨ht.attempts, ht.lease⟩
  | completed sid result now h =>
    refine ⟨ht.attempts, ?_⟩
    unfold Task.completed
    cases result.success <;> simp
  | released now running => exact ⟨ht.attempts, by simp⟩
  | superseded error now pending =>
    refine ⟨ht.attempts, ?_⟩
    have hfree := ht.lease
    simp only [pending, reduceCtorEq, iff_false] at hfree
    simp [hfree]
  | cancelled error now active => exact ⟨ht.attempts, by simp [Task.cancelled]⟩
  | converged phase now error active =>
    refine ⟨ht.attempts, ?_⟩
    cases phase <;> simp [Phase.status]
  | rearmed now h => exact ⟨Nat.zero_le _, by simp [Task.rearmed]⟩

/-- The invariant. -/
structure Inv (s : State) : Prop where
  ids : (s.tasks.map Task.id).Nodup
  lawful : ∀ t ∈ s.tasks, t.Lawful

/-- The empty table. -/
theorem inv_init : Inv init := ⟨nodup_nil, by simp [init]⟩

/-- Identifiers stay distinct. -/
theorem Effect.ids (h : Effect s a tasks) (hids : (s.tasks.map Task.id).Nodup) :
    (tasks.map Task.id).Nodup := by
  cases h with
  | updated p f hid _ =>
    rw [map_update hid]
    exact hids
  | grown h =>
    obtain ⟨_, -, -, hnodup⟩ := h
    exact hnodup hids
  | deleted p _ => exact hids.sublist (filter_sublist.map _)

/-- Rows stay lawful. -/
theorem Effect.lawful (h : Effect s a tasks) (hlawful : ∀ t ∈ s.tasks, t.Lawful) :
    ∀ t ∈ tasks, t.Lawful := by
  cases h with
  | updated p f _ hchange =>
    exact forall_update hlawful fun t ht hp => (hchange t ht hp).lawful (hlawful t ht)
  | grown h =>
    obtain ⟨new, rfl, hnew, -⟩ := h
    intro t ht
    rcases mem_append.mp ht with ht | ht
    · exact hlawful t ht
    · have h := hnew t ht
      exact ⟨by simp [h.attempts], by simp [h.leaseOwner, h.status]⟩
  | deleted p _ => exact fun t ht => hlawful t (mem_of_mem_filter ht)

/-- Every step keeps the invariant. -/
theorem inv_step (hinv : Inv s) (h : step s a = some q) : Inv q :=
  have heffect := step_effect hinv.ids h
  ⟨heffect.ids hinv.ids, heffect.lawful hinv.lawful⟩

/-- And so does every run. -/
theorem inv_run (hrun : run step init ops = some s) : Inv s :=
  run_invariant (fun _ _ _ hinv h => inv_step hinv h) inv_init hrun

/-- What one step may do to a task: a result is recorded only by the session
that holds the lease, and a task that has ended changes only when it is a GeoIP
task that is to run again, or when its payload is sealed anew. -/
structure Obeys (s : State) (a : Action) (t t' : Task) : Prop where
  id : t'.id = t.id
  recorded : ¬ t.status.terminal →
    t'.status = .succeeded ∨ t'.status = .failed ∨ t'.resultJson ≠ t.resultJson →
      ∃ sid result now, RecordsFor s a t sid result now
  ended : t.status.terminal → t' = t ∨ (∃ now, Rearms s t a ∧ t' = t.rearmed now) ∨
    ∃ text now, a = .rewrapPayload t.id text now ∧
      t' = { t with payload := { t.payload with text := text }, updatedAt := now }

/-- An active task has not ended. -/
theorem Task.active.not_terminal (h : t.active) : ¬ t.status.terminal := by
  rcases h with h | h <;> simp [h, Status.terminal]

/-- A change of a task that is not over, to one without a new result. -/
theorem Obeys.of_active (hid : t'.id = t.id) (hactive : t.active)
    (hstatus : t'.status ≠ .succeeded ∧ t'.status ≠ .failed)
    (hresult : t'.resultJson = t.resultJson) : Obeys s a t t' where
  id := hid
  recorded := by
    rintro _ (h | h | h)
    · exact absurd h hstatus.1
    · exact absurd h hstatus.2
    · exact absurd hresult h
  ended := fun h => absurd h hactive.not_terminal

/-- Every change obeys. -/
theorem Change.obeys (h : Change s a t t') : Obeys s a t t' := by
  cases h with
  | kept =>
    refine ⟨rfl, fun hactive hnew => ?_, fun _ => .inl rfl⟩
    rcases hnew with h | h | h
    · simp [h, Status.terminal] at hactive
    · simp [h, Status.terminal] at hactive
    · exact absurd rfl h
  | claimed sid now limit active => exact .of_active rfl active (by simp) rfl
  | renewed now running => exact .of_active rfl (.inr running) (by simp [running]) rfl
  | completed sid result now h =>
    exact ⟨rfl, fun _ _ => ⟨sid, result, now, h⟩,
      fun hterminal => absurd hterminal (by simp [h.running, Status.terminal])⟩
  | released now running => exact .of_active rfl (.inr running) (by simp) rfl
  | superseded error now pending => exact .of_active rfl (.inl pending) (by simp) rfl
  | cancelled error now active => exact .of_active rfl active (by simp [Task.cancelled]) rfl
  | converged phase now error active =>
    exact .of_active rfl active (by cases phase <;> simp [Phase.status]) rfl
  | rearmed now h =>
    exact ⟨rfl, fun hactive => absurd h.terminal hactive, fun _ => .inr (.inl ⟨now, h, rfl⟩)⟩
  | rewrapped text now h =>
    refine ⟨rfl, fun hactive hnew => ?_, fun _ => .inr (.inr ⟨text, now, h, rfl⟩)⟩
    rcases hnew with h | h | h
    · simp [show t.status = .succeeded from h, Status.terminal] at hactive
    · simp [show t.status = .failed from h, Status.terminal] at hactive
    · exact absurd rfl h

/-- A task obeys, or is deleted. -/
theorem Effect.obeys (h : Effect s a tasks) (ht : t ∈ s.tasks) :
    (∃ t' ∈ tasks, Obeys s a t t') ∨ Deletes a t := by
  cases h with
  | updated p f _ hchange =>
    by_cases hp : p t
    · exact .inl ⟨f t, mem_update_of_pos ht hp, (hchange t ht hp).obeys⟩
    · exact .inl ⟨t, mem_update_of_not ht hp, Change.kept.obeys⟩
  | grown h =>
    obtain ⟨new, rfl, -⟩ := h
    exact .inl ⟨t, mem_append_left _ ht, Change.kept.obeys⟩
  | deleted p hgone =>
    cases hkept : p t with
    | true => exact .inl ⟨t, mem_filter.mpr ⟨ht, hkept⟩, Change.kept.obeys⟩
    | false => exact .inr (hgone t ht hkept)

/-- Rows that a step adds have no result. -/
theorem Effect.added (h : Effect s a tasks) (ht : t ∈ tasks) (hid : t.id ∉ s.tasks.map Task.id) :
    t.status = .pending ∧ t.resultJson = none := by
  cases h with
  | updated p f hkey _ =>
    have hids : (update p f s.tasks).map Task.id = s.tasks.map Task.id := map_update hkey
    exact absurd (hids ▸ mem_map_of_mem ht) hid
  | grown h =>
    obtain ⟨new, rfl, hnew, -⟩ := h
    rcases mem_append.mp ht with ht | ht
    · exact absurd (mem_map_of_mem ht) hid
    · exact ⟨(hnew t ht).status, (hnew t ht).resultJson⟩
  | deleted p _ => exact absurd (mem_map_of_mem (mem_of_mem_filter ht)) hid

/-- **Tasks and their results.**  In every run attempts stay within their limit
and exactly the running tasks have a lease.  From every state reached, a step
records a result only for the live session that holds the lease of the task,
and leaves a task that has ended as it is, but for GeoIP tasks that are to run
again, payloads that are sealed anew, and tasks that ended long ago or go with their
node. -/
theorem tasks_lawful (hrun : run step init ops = some s) :
    (s.tasks.map Task.id).Nodup ∧
      (∀ t ∈ s.tasks, t.attempts ≤ t.maxAttempts ∧ (t.leaseOwner.isSome ↔ t.status = .running)) ∧
      ∀ a q, step s a = some q →
        (∀ t ∈ s.tasks, (∃ t' ∈ q.tasks, Obeys s a t t') ∨ Deletes a t) ∧
        ∀ t ∈ q.tasks, t.id ∉ s.tasks.map Task.id → t.status = .pending ∧ t.resultJson = none := by
  have hinv := inv_run hrun
  refine ⟨hinv.ids, fun t ht => ⟨(hinv.lawful t ht).attempts, (hinv.lawful t ht).lease⟩, ?_⟩
  intro a q h
  have heffect := step_effect hinv.ids h
  exact ⟨fun t ht => heffect.obeys ht, fun t ht hid => heffect.added ht hid⟩

/-- A GeoIP task that a session delivers. -/
def geoIPDelivery : List Action :=
  [.setNode ⟨lit "node", .online, some none⟩, .refreshGeoIP (lit "sha"), .connect (lit "node"),
    .insertGeoIPTask 0 (lit "task") [] 0, .claimTasks 0 [lit "task"] 0,
    .completeTask 0 ⟨lit "task", true, [], []⟩ 10]

theorem tasks_lawful_geoIPDelivery :
    ∃ s, run step init geoIPDelivery = some s ∧
      (∃ t ∈ s.tasks, t.status = .succeeded ∧ t.attempts = 1) ∧
      ∀ t ∈ s.tasks, t.attempts ≤ t.maxAttempts := by
  have hends : ∃ s, run step init geoIPDelivery = some s ∧
      ∃ t ∈ s.tasks, t.status = .succeeded ∧ t.attempts = 1 := by
    apply ends_of_any
    decide +kernel
  obtain ⟨s, hs, hdone⟩ := hends
  exact ⟨s, hs, hdone, fun t ht => ((tasks_lawful hs).2.1 t ht).1⟩

/-- When the agent reports that it lacks the database, its task is pending
again although it had succeeded. -/
theorem geoIP_task_runs_again :
    ∃ s, run step init geoIPDelivery = some s ∧
      (∃ t ∈ s.tasks, t.id = lit "task" ∧ t.status = .succeeded) ∧
      (step s (.rearmGeoIPTask 0 [] 20)).any fun q =>
        ∃ t ∈ q.tasks, t.id = lit "task" ∧ t.status = .pending := by
  apply ends_of_any
  decide +kernel

end AgentTasks
