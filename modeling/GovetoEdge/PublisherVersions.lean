import GovetoEdge.Publisher

/-!
# The versions of a site

Versions are given out in two places: a request takes the one behind the newest
snapshot, and a rollback takes one for itself and one for each job that follows.
`Rows` says that no version has two owners and that none was given out beyond
the newest snapshot; so a version that is given out is new.

* `Grows` is what a change of the tables may do to the versions that jobs hold;
  `Rows.grows` is that `Rows` is kept by all of them.
* `reserveRollback_spec` says what a reservation does, job by job.
-/

namespace Publisher

open GoStrings SqlTables List
open JobQueue (WorkerId Lease Status Phase)

variable {κ : Type}

/-- The job has the version, or has reserved it. -/
def Job.Holds (j : Job) (version : Int) : Prop :=
  version = j.version ∨ ∃ p ∈ j.plan, version = p.version

/-- The version is newer than all snapshots. -/
def Tables.Above (t : Tables κ) (version : Int) : Prop := ∀ x ∈ t.snapshots, x.version < version

/-- A version that was given out. -/
def Tables.Used (t : Tables κ) (version : Int) : Prop := ∃ x ∈ t.snapshots, version ≤ x.version

variable {t t' : Tables κ} {v : Int} {j k j' : Job} {jobs : List Job}

/-- A used version is not above the others. -/
theorem Tables.Used.not_above (h : t.Used v) : ¬ t.Above v := by
  obtain ⟨x, hx, hle⟩ := h
  intro habove
  have := habove x hx
  omega

/-- It is below what is. -/
theorem Tables.Used.lt {w : Int} (h : t.Used v) (hw : t.Above w) : v < w := by
  obtain ⟨x, hx, hle⟩ := h
  have := hw x hx
  omega

/-- The version of a snapshot. -/
def Tables.Given (t : Tables κ) (version : Int) : Prop := ∃ x ∈ t.snapshots, x.version = version

theorem Tables.Given.used (h : t.Given v) : t.Used v := by
  obtain ⟨x, hx, hversion⟩ := h
  exact ⟨x, hx, hversion.ge⟩

/-- Identifiers and versions are distinct, and all are used. -/
structure Rows (t : Tables κ) : Prop where
  ids : (t.jobs.map Job.id).Nodup
  versions : (t.snapshots.map Snapshot.version).Nodup
  given : ∀ j ∈ t.jobs, ∀ v, j.Holds v → t.Given v
  owner : ∀ j ∈ t.jobs, ∀ k ∈ t.jobs, ∀ v, j.Holds v → k.Holds v → j.id = k.id
  positive : ∀ j ∈ t.jobs, ∀ v, j.Holds v → 0 < v

/-- Versions of jobs are used. -/
theorem Rows.used (h : Rows t) (hj : j ∈ t.jobs) (hv : j.Holds v) : t.Used v :=
  (h.given j hj v hv).used

theorem Rows.eq_of_id (h : Rows t) (hj : j ∈ t.jobs) (hk : k ∈ t.jobs) (hid : j.id = k.id) :
    j = k :=
  eq_of_key h.ids hj hk hid

theorem Rows.eq_of_version (h : Rows t) (hj : j ∈ t.jobs) (hk : k ∈ t.jobs)
    (hversion : j.version = k.version) : j = k :=
  h.eq_of_id hj hk (h.owner j hj k hk j.version (.inl rfl) (.inl hversion))

/-- What a change of the tables may do to a job: it holds the same versions, or
new ones. -/
structure Job.Grows (t : Tables κ) (j j' : Job) : Prop where
  id : j'.id = j.id
  holds : ∀ v, j'.Holds v → j.Holds v ∨ t.Above v
  version : j.version ≤ j'.version
  active : j'.active → j.active
  cancelled : j.cancelled = true → j'.cancelled = true

/-- What a change of the tables may do to the versions that jobs hold. -/
structure Grows (t t' : Tables κ) : Prop where
  ids : (t'.jobs.map Job.id).Nodup
  versions : (t'.snapshots.map Snapshot.version).Nodup
  back : ∀ j' ∈ t'.jobs, (∃ j ∈ t.jobs, j.Grows t j') ∨ ∀ v, j'.Holds v → t.Above v
  forth : ∀ j ∈ t.jobs, ∃ j' ∈ t'.jobs, j.Grows t j'
  /-- a new version has a snapshot and one owner -/
  new : ∀ j' ∈ t'.jobs, ∀ v, j'.Holds v → t.Above v →
    0 < v ∧ t'.Given v ∧ ∀ k' ∈ t'.jobs, k'.Holds v → j'.id = k'.id
  snapshots : ∀ x ∈ t.snapshots, t'.Given x.version
  fresh : ∀ x' ∈ t'.snapshots, t.Given x'.version ∨ t.Above x'.version

/-- A version that was used before belongs to a job that was there. -/
theorem Grows.old (h : Grows t t') (hj' : j' ∈ t'.jobs) (hv : j'.Holds v) (hused : t.Used v) :
    ∃ j ∈ t.jobs, j.Grows t j' ∧ j.Holds v := by
  rcases h.back j' hj' with ⟨j, hj, hgrows⟩ | hnew
  · rcases hgrows.holds v hv with hold | habove
    · exact ⟨j, hj, hgrows, hold⟩
    · exact absurd habove hused.not_above
  · exact absurd (hnew v hv) hused.not_above

/-- A version that a job holds was used before or is new. -/
theorem Grows.used_or_above (hrows : Rows t) (h : Grows t t') (hj' : j' ∈ t'.jobs)
    (hv : j'.Holds v) : t.Used v ∨ t.Above v := by
  rcases h.back j' hj' with ⟨j, hj, hgrows⟩ | hnew
  · exact (hgrows.holds v hv).imp (hrows.used hj) id
  · exact .inr (hnew v hv)

/-- **No version gets two owners.** -/
theorem Rows.grows (hrows : Rows t) (h : Grows t t') : Rows t' where
  ids := h.ids
  versions := h.versions
  given := by
    intro j' hj' v hv
    rcases h.used_or_above hrows hj' hv with hused | habove
    · obtain ⟨j, hj, -, hold⟩ := h.old hj' hv hused
      obtain ⟨x, hx, rfl⟩ := hrows.given j hj v hold
      exact h.snapshots x hx
    · exact (h.new j' hj' v hv habove).2.1
  owner := by
    intro j' hj' k' hk' v hjv hkv
    rcases h.used_or_above hrows hj' hjv with hused | habove
    · obtain ⟨j, hj, hjgrows, hjold⟩ := h.old hj' hjv hused
      obtain ⟨k, hk, hkgrows, hkold⟩ := h.old hk' hkv hused
      rw [hjgrows.id, hkgrows.id]
      exact hrows.owner j hj k hk v hjold hkold
    · exact (h.new j' hj' v hjv habove).2.2 k' hk' hkv
  positive := by
    intro j' hj' v hv
    rcases h.used_or_above hrows hj' hv with hused | habove
    · obtain ⟨j, hj, -, hold⟩ := h.old hj' hv hused
      exact hrows.positive j hj v hold
    · exact (h.new j' hj' v hv habove).1

/-- No job that is still to run has an older version. -/
def Tables.First (t : Tables κ) (j : Job) : Prop :=
  ∀ k ∈ t.jobs, k.active → k.cancelled = false → j.version ≤ k.version

/-- The same job as far as versions go; it gets its first attempt when it is the
first. -/
structure Job.Keeps (t : Tables κ) (j j' : Job) : Prop where
  id : j'.id = j.id
  version : j'.version = j.version
  plan : j'.plan = j.plan
  createdAt : j'.createdAt = j.createdAt
  active : j'.active → j.active
  cancelled : j.cancelled = true → j'.cancelled = true
  attempts : 0 < j'.attempts → 0 < j.attempts ∨ t.First j

theorem Job.Keeps.refl (t : Tables κ) (j : Job) : j.Keeps t j :=
  ⟨rfl, rfl, rfl, rfl, fun h => h, fun h => h, .inl⟩

/-- A kept job holds the same versions. -/
theorem Job.Keeps.holds (h : j.Keeps t j') : j'.Holds v ↔ j.Holds v := by
  rw [Job.Holds, Job.Holds, h.version, h.plan]

theorem Job.Keeps.grows (h : j.Keeps t j') : j.Grows t j' :=
  ⟨h.id, fun _ hv => .inl (h.holds.mp hv), h.version.ge, h.active, h.cancelled⟩

/-- Every job is kept, and every snapshot keeps its version. -/
structure Kept (t t' : Tables κ) : Prop where
  jobs : ∃ g : Job → Job, t'.jobs = t.jobs.map g ∧ ∀ j ∈ t.jobs, j.Keeps t (g j)
  snapshots : t'.snapshots.map Snapshot.version = t.snapshots.map Snapshot.version

theorem Kept.refl (t : Tables κ) : Kept t t :=
  ⟨⟨id, (map_id _).symm, fun j _ => .refl t j⟩, rfl⟩

/-- Every job was there. -/
theorem Kept.back (h : Kept t t') (hj' : j' ∈ t'.jobs) : ∃ j ∈ t.jobs, j.Keeps t j' := by
  obtain ⟨g, hg, hkeeps⟩ := h.jobs
  rw [hg] at hj'
  obtain ⟨j, hj, rfl⟩ := mem_map.mp hj'
  exact ⟨j, hj, hkeeps j hj⟩

/-- Every job is still there. -/
theorem Kept.forth (h : Kept t t') (hj : j ∈ t.jobs) : ∃ j' ∈ t'.jobs, j.Keeps t j' := by
  obtain ⟨g, hg, hkeeps⟩ := h.jobs
  exact ⟨g j, hg ▸ mem_map_of_mem hj, hkeeps j hj⟩

theorem Kept.given (h : Kept t t') : t'.Given v ↔ t.Given v := by
  unfold Tables.Given
  rw [← mem_map, ← mem_map, h.snapshots]

/-- Kept tables grow. -/
theorem Kept.grows (hrows : Rows t) (h : Kept t t') : Grows t t' where
  ids := by
    obtain ⟨g, hg, hkeeps⟩ := h.jobs
    have hmap : t'.jobs.map Job.id = t.jobs.map Job.id := by
      rw [hg, map_map]
      exact map_congr_left fun j hj => (hkeeps j hj).id
    rw [hmap]
    exact hrows.ids
  versions := h.snapshots ▸ hrows.versions
  back := by
    intro j' hj'
    obtain ⟨j, hj, hkeeps⟩ := h.back hj'
    exact .inl ⟨j, hj, hkeeps.grows⟩
  forth := by
    intro j hj
    obtain ⟨j', hj', hkeeps⟩ := h.forth hj
    exact ⟨j', hj', hkeeps.grows⟩
  new := by
    intro j' hj' v hv habove
    obtain ⟨j, hj, hkeeps⟩ := h.back hj'
    exact absurd habove (hrows.used hj (hkeeps.holds.mp hv)).not_above
  snapshots x hx := h.given.mpr ⟨x, hx, rfl⟩
  fresh x' hx' := .inl (h.given.mp ⟨x', hx', rfl⟩)

/-- An update of jobs that are kept. -/
theorem kept_update {p : Job → Prop} [DecidablePred p] {f : Job → Job}
    (hf : ∀ j ∈ t.jobs, p j → j.Keeps t (f j)) : Kept t { t with jobs := update p f t.jobs } where
  jobs := by
    refine ⟨fun j => if p j then f j else j, rfl, fun j hj => ?_⟩
    dsimp only
    split
    · next hp => exact hf j hj hp
    · exact .refl t j
  snapshots := rfl

/-- Marks keep the jobs. -/
theorem kept_mark (t : Tables κ) (version : Int) (status : ConfigStatus) :
    Kept t (t.mark version status) where
  jobs := ⟨id, (map_id _).symm, fun j _ => .refl t j⟩
  snapshots := map_update fun _ => rfl

theorem kept_site (t : Tables κ) (version : Int) : Kept t { t with siteVersion := version } :=
  ⟨⟨id, (map_id _).symm, fun j _ => .refl t j⟩, rfl⟩

theorem keeps_withKey (t : Tables κ) (j : Job) (key : Option GoString) :
    j.Keeps t (j.withKey key) :=
  ⟨rfl, rfl, rfl, rfl, id, id, .inl⟩

/-- So does giving a job a key. -/
theorem kept_setKey (t : Tables κ) (id : GoString) (key : Option GoString) :
    Kept t (setKey t id key) :=
  kept_update fun j _ _ => keeps_withKey t j key

/-- So does joining a request to a job. -/
theorem kept_coalesce (t : Tables κ) (pending : Job) (q : Request κ) :
    Kept t (coalesce t pending q) where
  jobs := (kept_update (t := t) (p := fun j => j.id = pending.id ∧ j.row.status = .pending)
    fun j _ _ => (⟨rfl, rfl, rfl, rfl, id, id, .inl⟩ :
      j.Keeps t { j.withKey q.key with targets := q.targets })).jobs
  snapshots := map_update fun _ => rfl

/-- **New versions are above all others.** -/
theorem nextPublishVersion_above (t : Tables κ) (siteVersion : Int) :
    t.Above (nextPublishVersion siteVersion none (newestSnapshot t.snapshots)) ∧
      siteVersion < nextPublishVersion siteVersion none (newestSnapshot t.snapshots) := by
  unfold nextPublishVersion newestSnapshot
  cases hlatest : t.snapshots.argmax Snapshot.version with
  | none =>
    have hempty : t.snapshots = [] := argmax_eq_none.mp hlatest
    refine ⟨fun x hx => ?_, by dsimp only; omega⟩
    rw [hempty] at hx
    exact absurd hx not_mem_nil
  | some latest =>
    have hmax : ∀ x ∈ t.snapshots, x.version ≤ latest.version :=
      fun x hx => le_of_mem_argmax hx hlatest
    dsimp only
    split
    · exact ⟨fun x hx => by have := hmax x hx; omega, by omega⟩
    · exact ⟨fun x hx => by have := hmax x hx; omega, by omega⟩

/-- A request for which a job is created. -/
theorem grows_create (hrows : Rows t) {siteVersion : Int} (hsite : 0 ≤ siteVersion) {q : Request κ}
    (hid : ∀ j ∈ t.jobs, j.id ≠ q.id) : Grows t (create t siteVersion q) := by
  obtain ⟨habove, hlt⟩ := nextPublishVersion_above t siteVersion
  set version := nextPublishVersion siteVersion none (newestSnapshot t.snapshots) with hversion
  have hholds : ∀ v, (newJob q version).Holds v → v = version := by
    rintro v (hv | ⟨p, hp, -⟩)
    · exact hv
    · cases hp
  have hjobs : ∀ j', j' ∈ (create t siteVersion q).jobs → j' ∈ t.jobs ∨ j' = newJob q version := by
    intro j' hj'
    simpa [create, ← hversion] using hj'
  have hnew : ∀ j ∈ t.jobs, ∀ v, j.Holds v → ¬ t.Above v :=
    fun j hj v hv => (hrows.used hj hv).not_above
  have hsnapshot : (⟨version, q.config, .draft, q.now⟩ : Snapshot κ) ∈
      (create t siteVersion q).snapshots := by simp [create, ← hversion]
  refine ⟨?_, ?_, ?_, ?_, ?_, ?_, ?_⟩
  · simp only [create, map_append, map_cons, map_nil]
    refine List.Nodup.append hrows.ids (nodup_singleton _) ?_
    intro id hid₁ hid₂
    obtain ⟨j, hj, rfl⟩ := mem_map.mp hid₁
    exact hid j hj (mem_singleton.mp hid₂)
  · simp only [create, map_append, map_cons, map_nil]
    refine List.Nodup.append hrows.versions (nodup_singleton _) ?_
    intro v hv₁ hv₂
    obtain ⟨x, hx, rfl⟩ := mem_map.mp hv₁
    have heq := mem_singleton.mp hv₂
    have hlt := habove x hx
    omega
  · intro j' hj'
    rcases hjobs j' hj' with hj | rfl
    · exact .inl ⟨j', hj, (Job.Keeps.refl t j').grows⟩
    · exact .inr fun v hv => hholds v hv ▸ habove
  · intro j hj
    exact ⟨j, by simp [create, hj], (Job.Keeps.refl t j).grows⟩
  · intro j' hj' v hv hv'
    rcases hjobs j' hj' with hj | rfl
    · exact absurd hv' (hnew j' hj v hv)
    obtain rfl := hholds v hv
    refine ⟨by omega, ⟨_, hsnapshot, rfl⟩, fun k' hk' hkv => ?_⟩
    rcases hjobs k' hk' with hk | rfl
    · exact absurd hv' (hnew k' hk version hkv)
    · rfl
  · intro x hx
    exact ⟨x, by simp [create, hx], rfl⟩
  · intro x' hx'
    have hcases : x' ∈ t.snapshots ∨ x' = ⟨version, q.config, .draft, q.now⟩ := by
      simpa [create, ← hversion] using hx'
    rcases hcases with hx | rfl
    · exact .inl ⟨x', hx, rfl⟩
    · exact .inr habove

/-- Numbers in a row. -/
theorem map_range_succ (version : Int) (n : Nat) :
    (List.range (n + 1)).map (fun i : Nat => version + (i : Int)) =
      version :: (List.range n).map fun i : Nat => version + 1 + (i : Int) := by
  rw [range_succ_eq_map, map_cons, map_map, List.cons.injEq]
  refine ⟨by omega, map_congr_left fun i _ => ?_⟩
  simp only [Function.comp_apply]
  omega

/-- Copies are numbered one after the other. -/
theorem copies_versions {now version : Int} {rows : List (Snapshot κ)}
    (h : copies t now version jobs = some rows) :
    rows.map Snapshot.version =
      (List.range jobs.length).map fun i : Nat => version + (i : Int) := by
  induction jobs generalizing version rows with
  | nil =>
    cases h
    rfl
  | cons j jobs ih =>
    simp only [copies, Option.bind_eq_bind, Option.bind_eq_some_iff, Option.some.injEq] at h
    obtain ⟨old, -, rest, hrest, rfl⟩ := h
    rw [map_cons, ih hrest, length_cons]
    exact (map_range_succ version jobs.length).symm

/-- Other jobs keep their numbers. -/
theorem renumber_of_not_mem (h : ∀ k ∈ jobs, k.id ≠ j.id) :
    ∀ version, renumber version jobs j = j := by
  induction jobs with
  | nil => exact fun _ => rfl
  | cons k jobs ih =>
    intro version
    rw [renumber, if_neg (h k mem_cons_self)]
    exact ih (fun l hl => h l (mem_cons_of_mem _ hl)) _

/-- Only the version changes. -/
theorem renumber_eq (version : Int) (jobs : List Job) (j : Job) :
    renumber version jobs j = { j with version := (renumber version jobs j).version } := by
  induction jobs generalizing version with
  | nil => rfl
  | cons k jobs ih =>
    rw [renumber]
    split
    · rfl
    · exact ih (version + 1)

/-- New numbers follow the first. -/
theorem renumber_range (h : ∃ k ∈ jobs, k.id = j.id) :
    ∀ version, version ≤ (renumber version jobs j).version ∧
      (renumber version jobs j).version < version + jobs.length := by
  induction jobs with
  | nil => simp at h
  | cons k jobs ih =>
    intro version
    rw [renumber]
    by_cases hk : k.id = j.id
    · rw [if_pos hk]
      simp only [le_refl, length_cons, true_and]
      omega
    · rw [if_neg hk]
      obtain ⟨l, hl, hid⟩ := h
      have hl' : l ∈ jobs := by
        rcases mem_cons.mp hl with rfl | hl
        · exact absurd hid hk
        · exact hl
      have := ih ⟨l, hl', hid⟩ (version + 1)
      simp only [length_cons]
      omega

/-- Renumbering keeps the order. -/
theorem renumber_lt (hids : (jobs.map Job.id).Nodup)
    (hsorted : jobs.Pairwise fun j k => j.version ≤ k.version) (hj : j ∈ jobs) (hk : k ∈ jobs)
    (hlt : j.version < k.version) :
    ∀ version, (renumber version jobs j).version < (renumber version jobs k).version := by
  induction jobs with
  | nil => simp at hj
  | cons l jobs ih =>
    intro version
    rw [map_cons, nodup_cons] at hids
    obtain ⟨hle, hsorted⟩ := pairwise_cons.mp hsorted
    have hother : ∀ {m}, m ∈ jobs → l.id ≠ m.id :=
      fun hm heq => hids.1 (heq ▸ mem_map_of_mem hm)
    rcases mem_cons.mp hj with rfl | hj'
    · rcases mem_cons.mp hk with rfl | hk'
      · omega
      · have hrange := renumber_range (j := k) ⟨k, hk', rfl⟩ (version + 1)
        rw [renumber, if_pos rfl, renumber, if_neg (hother hk')]
        dsimp only
        omega
    · rcases mem_cons.mp hk with rfl | hk'
      · have := hle j hj'
        omega
      · rw [renumber, if_neg (hother hj'), renumber, if_neg (hother hk')]
        exact ih hids.2 hsorted hj' hk' (version + 1)

/-- The jobs behind a version. -/
theorem mem_queued {version : Int} :
    j ∈ queued t version ↔ j ∈ t.jobs ∧ j.active ∧ version < j.version := by
  simp [queued, mem_mergeSort]

/-- In the order of versions. -/
theorem queued_sorted (t : Tables κ) (version : Int) :
    (queued t version).Pairwise fun j k => j.version ≤ k.version := by
  have htrans : ∀ a b c : Job, decide (a.version ≤ b.version) = true →
      decide (b.version ≤ c.version) = true → decide (a.version ≤ c.version) = true := by
    intro a b c hab hbc
    simp only [decide_eq_true_eq] at *
    omega
  have htotal : ∀ a b : Job,
      (decide (a.version ≤ b.version) || decide (b.version ≤ a.version)) = true := by
    intro a b
    simp only [Bool.or_eq_true, decide_eq_true_eq]
    omega
  exact (pairwise_mergeSort htrans htotal _).imp fun h => by simpa using h

theorem queued_ids (hrows : Rows t) (version : Int) : ((queued t version).map Job.id).Nodup := by
  have hperm : (queued t version).Perm (t.jobs.filter fun j => j.active ∧ version < j.version) :=
    mergeSort_perm _ _
  exact (hperm.map Job.id).nodup_iff.mpr ((filter_sublist.map Job.id).nodup hrows.ids)

/-- The job behind a reservation. -/
def reservedJob (t : Tables κ) (job : Job) (plan : Plan) (j : Job) : Job :=
  { j with
    version := (renumber (plan.version + 1) (queued t job.version) j).version
    plan := if j.id = job.id then some plan else j.plan }

/-- What a reservation leaves. -/
structure Reserved (t : Tables κ) (job : Job) (t' : Tables κ) (plan : Plan) : Prop where
  above : t.Above plan.version
  later : job.version < plan.version
  site : t'.siteVersion = t.siteVersion
  jobs : t'.jobs = t.jobs.map (reservedJob t job plan)
  snapshots : ∃ (config : κ) (now : Int) (rows : List (Snapshot κ)),
    copies t now (plan.version + 1) (queued t job.version) = some rows ∧
    t'.snapshots = update (fun x : Snapshot κ => ∃ j ∈ queued t job.version, j.version = x.version)
      (fun x => { x with status := .failed }) t.snapshots ++
      ⟨plan.version, config, .draft, now⟩ :: rows

/-- **What a rollback reserves.** -/
theorem reserveRollback_spec {tombstone : κ} {job : Job} {targets : List NodeId} {now : Int}
    {readable : Bool} {plan : Plan}
    (h : reserveRollback tombstone t job targets now readable = some (t', plan)) :
    Reserved t job t' plan := by
  obtain ⟨habove, hlater⟩ := nextPublishVersion_above t job.version
  obtain ⟨rows, hrows, heq⟩ := Option.map_eq_some_iff.mp h
  obtain ⟨rfl, rfl⟩ := heq
  refine ⟨habove, hlater, rfl, ?_, _, now, rows, hrows, rfl⟩
  dsimp only [update]
  rw [map_map]
  apply map_congr_left
  intro j _
  rw [Function.comp_apply, renumber_eq, reservedJob]
  by_cases hid : j.id = job.id
  · exact (if_pos hid).trans (by rw [if_pos hid])
  · exact (if_neg hid).trans (by rw [if_neg hid])

section Reserved

variable {t t' : Tables κ} {job : Job} {plan : Plan}

/-- The versions of the new snapshots. -/
theorem Reserved.versions (h : Reserved t job t' plan) :
    t'.snapshots.map Snapshot.version = t.snapshots.map Snapshot.version ++
      (List.range ((queued t job.version).length + 1)).map
        fun i : Nat => plan.version + (i : Int) := by
  obtain ⟨config, now, rows, hcopies, heq⟩ := h.snapshots
  have hold : (update (fun x : Snapshot κ => ∃ j ∈ queued t job.version, j.version = x.version)
      (fun x => { x with status := .failed }) t.snapshots).map Snapshot.version =
      t.snapshots.map Snapshot.version := map_update fun _ => rfl
  rw [heq, map_append, hold, map_cons, copies_versions hcopies]
  rw [← map_range_succ]

variable {j : Job} {v : Int}

/-- A job that follows moves behind the reserved version. -/
theorem reservedJob_of_queued (plan : Plan) (hj : j ∈ queued t job.version) :
    plan.version < (reservedJob t job plan j).version ∧
      (reservedJob t job plan j).version ≤ plan.version + (queued t job.version).length := by
  obtain ⟨hge, hlt⟩ := renumber_range (j := j) ⟨j, hj, rfl⟩ (plan.version + 1)
  unfold reservedJob
  dsimp only
  omega

/-- The others stay where they are. -/
theorem reservedJob_of_not_queued (hrows : Rows t) (hj : j ∈ t.jobs)
    (hnot : j ∉ queued t job.version) : (reservedJob t job plan j).version = j.version := by
  have hother : ∀ k ∈ queued t job.version, k.id ≠ j.id := by
    intro k hk hid
    rw [hrows.eq_of_id (mem_queued.mp hk).1 hj hid] at hk
    exact hnot hk
  unfold reservedJob
  rw [renumber_of_not_mem hother]

/-- The jobs that follow keep their order. -/
theorem reservedJob_lt (plan : Plan) (hrows : Rows t) {k : Job} (hj : j ∈ queued t job.version)
    (hk : k ∈ queued t job.version) (hlt : j.version < k.version) :
    (reservedJob t job plan j).version < (reservedJob t job plan k).version :=
  renumber_lt (queued_ids hrows _) (queued_sorted t _) hj hk hlt _

/-- The jobs that follow get different versions. -/
theorem reservedJob_inj (hrows : Rows t) {k : Job} (hj : j ∈ queued t job.version)
    (hk : k ∈ queued t job.version)
    (heq : (reservedJob t job plan j).version = (reservedJob t job plan k).version) : j = k := by
  rcases lt_trichotomy j.version k.version with hlt | hversion | hlt
  · have := reservedJob_lt plan hrows hj hk hlt
    omega
  · exact hrows.eq_of_version (mem_queued.mp hj).1 (mem_queued.mp hk).1 hversion
  · have := reservedJob_lt plan hrows hk hj hlt
    omega

/-- A version that a job holds behind a reservation. -/
theorem reservedJob_holds (hrows : Rows t) (hj : j ∈ t.jobs)
    (hv : (reservedJob t job plan j).Holds v) :
    j.Holds v ∨ (j ∈ queued t job.version ∧ v = (reservedJob t job plan j).version) ∨
      (j.id = job.id ∧ v = plan.version) := by
  rcases hv with hv | ⟨p, hp, hv⟩
  · by_cases hqueued : j ∈ queued t job.version
    · exact .inr (.inl ⟨hqueued, hv⟩)
    · rw [reservedJob_of_not_queued hrows hj hqueued] at hv
      exact .inl (.inl hv)
  · unfold reservedJob at hp
    by_cases hid : j.id = job.id
    · simp only [hid, if_true] at hp
      cases hp
      exact .inr (.inr ⟨hid, hv⟩)
    · simp only [hid, if_false] at hp
      exact .inl (.inr ⟨p, hp, hv⟩)

theorem Reserved.above_of_lt (h : Reserved t job t' plan) (hv : plan.version ≤ v) : t.Above v := by
  intro x hx
  have := h.above x hx
  omega

/-- The versions it gives out. -/
theorem Reserved.given (h : Reserved t job t' plan) : t'.Given v ↔
    t.Given v ∨ plan.version ≤ v ∧ v ≤ plan.version + (queued t job.version).length := by
  have hmem : v ∈ t'.snapshots.map Snapshot.version ↔ v ∈ t.snapshots.map Snapshot.version ∨
      v ∈ (List.range ((queued t job.version).length + 1)).map fun i : Nat =>
        plan.version + (i : Int) := by
    rw [h.versions, mem_append]
  simp only [mem_map, mem_range] at hmem
  unfold Tables.Given
  rw [hmem]
  refine or_congr Iff.rfl ⟨?_, ?_⟩
  · rintro ⟨i, hi, rfl⟩
    omega
  · intro hv
    exact ⟨(v - plan.version).toNat, by omega, by omega⟩

/-- It takes none back. -/
theorem Reserved.grows (hrows : Rows t) (h : Reserved t job t' plan) (hpositive : 0 < job.version) :
    Grows t t' := by
  have hjobs : ∀ j', j' ∈ t'.jobs ↔ ∃ j ∈ t.jobs, reservedJob t job plan j = j' := by
    intro j'
    rw [h.jobs, mem_map]
  have hlater := h.later
  have hnew : ∀ j ∈ t.jobs, ∀ v, (reservedJob t job plan j).Holds v →
      j.Holds v ∨ plan.version ≤ v ∧ v ≤ plan.version + (queued t job.version).length := by
    intro j hj v hv
    rcases reservedJob_holds hrows hj hv with hold | ⟨hqueued, rfl⟩ | ⟨-, rfl⟩
    · exact .inl hold
    · have := reservedJob_of_queued plan hqueued
      exact .inr (by omega)
    · exact .inr (by omega)
  have hgrows : ∀ j ∈ t.jobs, j.Grows t (reservedJob t job plan j) := by
    intro j hj
    refine ⟨rfl, fun v hv => (hnew j hj v hv).imp id fun hv => h.above_of_lt hv.1, ?_, id, id⟩
    by_cases hqueued : j ∈ queued t job.version
    · have hlt := (hrows.used hj (.inl rfl)).lt h.above
      have := reservedJob_of_queued plan hqueued
      omega
    · exact (reservedJob_of_not_queued hrows hj hqueued).ge
  have hold : ∀ j ∈ t.jobs, ∀ v, j.Holds v → ¬ t.Above v :=
    fun j hj v hv => (hrows.used hj hv).not_above
  refine ⟨?_, ?_, ?_, ?_, ?_, ?_, ?_⟩
  · rw [h.jobs, map_map]
    exact hrows.ids
  · rw [h.versions]
    refine List.Nodup.append hrows.versions ?_ ?_
    · refine List.Nodup.map (fun i k heq => ?_) nodup_range
      omega
    · intro v hv₁ hv₂
      obtain ⟨x, hx, rfl⟩ := mem_map.mp hv₁
      obtain ⟨i, -, hi⟩ := mem_map.mp hv₂
      have := h.above x hx
      omega
  · intro j' hj'
    obtain ⟨j, hj, rfl⟩ := (hjobs j').mp hj'
    exact .inl ⟨j, hj, hgrows j hj⟩
  · intro j hj
    exact ⟨_, (hjobs _).mpr ⟨j, hj, rfl⟩, hgrows j hj⟩
  · intro j' hj' v hjv habove
    obtain ⟨j, hj, rfl⟩ := (hjobs j').mp hj'
    have hrange := (hnew j hj v hjv).resolve_left fun hjold => hold j hj v hjold habove
    refine ⟨by omega, h.given.mpr (.inr hrange), fun k' hk' hkv => ?_⟩
    obtain ⟨k, hk, rfl⟩ := (hjobs k').mp hk'
    rcases reservedJob_holds hrows hj hjv with hjold | ⟨hjq, hjeq⟩ | ⟨hjid, hjeq⟩
    · exact absurd habove (hold j hj v hjold)
    · have hjrange := reservedJob_of_queued plan hjq
      rcases reservedJob_holds hrows hk hkv with hkold | ⟨hkq, hkeq⟩ | ⟨-, hkeq⟩
      · exact absurd habove (hold k hk v hkold)
      · rw [reservedJob_inj hrows hjq hkq (hjeq.symm.trans hkeq)]
      · omega
    · rcases reservedJob_holds hrows hk hkv with hkold | ⟨hkq, hkeq⟩ | ⟨hkid, -⟩
      · exact absurd habove (hold k hk v hkold)
      · have hkrange := reservedJob_of_queued plan hkq
        omega
      · exact hjid.trans hkid.symm
  · intro x hx
    exact h.given.mpr (.inl ⟨x, hx, rfl⟩)
  · intro x' hx'
    exact (h.given.mp ⟨x', hx', rfl⟩).imp id fun hrange => h.above_of_lt hrange.1

end Reserved

end Publisher
