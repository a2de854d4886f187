import GovetoEdge.GoStrings
import GovetoEdge.Runs
import GovetoEdge.Fallible

/-!
# The delivery of site configurations

The agent keeps the configurations of its sites in three places: in memory, in
a file that outlives the process, and rendered in the Caddy instance it runs.
`ApplySite` changes them one after the other and takes back what it did when a
later change fails.

* A configuration is given by its JSON: the members `ApplySite` looks at and the
  text of the others.  Configurations come out of `json.Unmarshal`, whose values
  have the same JSON after another round trip, so reading the file gives back
  what was written.
* A rendered configuration is given by what it was rendered from.
* A failed `caddy.Load` leaves Caddy with the configuration it had.
* What can fail is an argument of the step.  A process may also end at any point
  of `ApplySite`, and Caddy ends with it.

`stores_agree` collects what holds in every run; `started_without_geoIP` is a
run in which Caddy serves no site although the others have one.
-/

namespace ConfigDelivery

open GoStrings Option Runs Finmap Fallible

/-- `SiteConfig`. -/
structure SiteConfig where
  siteID : GoString
  version : Nat
  disabled : Bool
  content : GoString
deriving DecidableEq

/-- Configurations by site. -/
abbrev Sites := Finmap fun _ : GoString => SiteConfig

/-- What does not depend on the stores: whether the content of a configuration
passes `Validate`, and whether it has a JSON. -/
structure Checks where
  content : SiteConfig → Bool
  marshals : SiteConfig → Bool

/-- `SiteConfig.Validate`. -/
def Checks.valid (checks : Checks) (config : SiteConfig) : Bool :=
  config.siteID ≠ [] ∧ config.version ≠ 0 ∧ (config.disabled ∨ checks.content config)

/-- `json.Marshal` of a map of configurations. -/
def Checks.marshalsAll (checks : Checks) (sites : Sites) : Bool :=
  decide (∀ id ∈ sites.keys, (sites.lookup id).all checks.marshals)

/-- What Caddy has loaded. -/
structure Rendered where
  sites : Sites
  nodeConfig : GoString
deriving DecidableEq

/-- The process: `ConfigManager` and Caddy. -/
structure Process where
  sites : Sites
  nodeConfig : GoString
  caddy : Rendered
deriving DecidableEq

/-- The file of the sites, and the one that is to replace it. -/
structure Disk where
  file : Option Sites
  pending : Option Sites
deriving DecidableEq

/-- The disk and the process. -/
structure State where
  disk : Disk
  process : Option Process
deriving DecidableEq

/-- Nothing is stored, nothing runs. -/
def init : State := ⟨⟨none, none⟩, none⟩

/-- The sites of the promoted file; there is none before the first promotion. -/
def Disk.promoted (d : Disk) : Sites := d.file.getD ∅

/-- Why a configuration is not rendered. -/
inductive RenderError
  | geoIPUnavailable
  | other
deriving DecidableEq

/-- What fails in a call of `ApplySite`. -/
structure Failures where
  renderPrevious : Option RenderError
  render : Option RenderError
  staging : Bool
  load : Bool
  promotion : Bool
  rollback : Bool
deriving DecidableEq

/-- Why a configuration is refused. -/
inductive ApplyError
  | invalid
  | incomparable
  | differentContent
  | notNewer
  | renderPrevious (error : RenderError)
  | render (error : RenderError)
  | persistPending
  | apply
  | promote
  | promoteAndRestore
deriving DecidableEq

/-- `ApplySite` up to the first change: the sites that are to be promoted, or
nothing for a configuration that was delivered before. -/
def prepare (checks : Checks) (p : Process) (config : SiteConfig) (f : Failures) :
    Except ApplyError (Option Sites) :=
  if !checks.valid config then .error .invalid
  else
    let delivery : Except ApplyError (Option Sites) :=
      match f.renderPrevious, f.render with
      | some error, _ => .error (.renderPrevious error)
      | none, some error => .error (.render error)
      | none, none => .ok (some (p.sites.insert config.siteID config))
    match p.sites.lookup config.siteID with
    | some previous =>
      if config.version = previous.version then
        if !(checks.marshals config && checks.marshals previous) then .error .incomparable
        else if config = previous then .ok none
        else .error .differentContent
      else if config.version < previous.version then .error .notNewer
      else delivery
    | none => delivery

/-- `ApplySite`. -/
def applySite (checks : Checks) (p : Process) (d : Disk) (config : SiteConfig) (f : Failures) :
    (Process × Disk) × Except ApplyError Unit :=
  match prepare checks p config f with
  | .error error => ((p, d), .error error)
  | .ok none => ((p, d), .ok ())
  | .ok (some candidate) =>
    if f.staging || !checks.marshalsAll candidate then ((p, d), .error .persistPending)
    else if f.load then ((p, { d with pending := none }), .error .apply)
    else if !f.promotion then
      (({ p with sites := candidate, caddy := ⟨candidate, p.nodeConfig⟩ },
        ⟨some candidate, none⟩), .ok ())
    else if f.rollback then
      (({ p with caddy := ⟨candidate, p.nodeConfig⟩ }, { d with pending := some candidate }),
        .error .promoteAndRestore)
    else
      (({ p with caddy := ⟨p.sites, p.nodeConfig⟩ }, { d with pending := none }),
        .error .promote)

/-- Where a process may end in `ApplySite`. -/
inductive CrashPoint
  | staged
  | loaded
  | promoted
deriving DecidableEq

/-- The files a process leaves that ends in `ApplySite`. -/
def crashIn (checks : Checks) (p : Process) (d : Disk) (config : SiteConfig) (f : Failures)
    (point : CrashPoint) : Disk :=
  match prepare checks p config f with
  | .ok (some candidate) =>
    if f.staging || !checks.marshalsAll candidate then d
    else
      match point with
      | .staged => { d with pending := some candidate }
      | .loaded => { d with pending := some candidate }
      | .promoted => if f.load || f.promotion then d else ⟨some candidate, none⟩
  | _ => d

/-- What fails when the agent starts. -/
structure StartFailures where
  nodeConfig : Bool
  read : Bool
  render : Option RenderError
  load : Bool
deriving DecidableEq

/-- The start of the agent: `SetNodeConfig`, then `Restore`.  A missing GeoIP
database does not keep the agent from starting; any other failure does. -/
def start (d : Disk) (nodeConfig : GoString) (f : StartFailures) : Option Process :=
  if f.nodeConfig || f.read then none
  else
    match f.render with
    | some .geoIPUnavailable => some ⟨d.promoted, nodeConfig, ⟨∅, nodeConfig⟩⟩
    | some .other => none
    | none =>
      if f.load then none else some ⟨d.promoted, nodeConfig, ⟨d.promoted, nodeConfig⟩⟩

/-- What happens to a node. -/
inductive Action
  | start (nodeConfig : GoString) (f : StartFailures)
  | stop
  | applySite (config : SiteConfig) (f : Failures)
  | crashIn (config : SiteConfig) (f : Failures) (point : CrashPoint)
  /-- `SetNodeConfig`, where nothing fails -/
  | setNodeConfig (nodeConfig : GoString)
  /-- `Reload`, where nothing fails -/
  | reload

/-- One step. -/
def step (checks : Checks) (s : State) : Action → Option State
  | .start nodeConfig f =>
    if s.process = none then some ⟨s.disk, ConfigDelivery.start s.disk nodeConfig f⟩ else none
  | .stop => some ⟨s.disk, none⟩
  | .applySite config f =>
    s.process.map fun p =>
      let result := (ConfigDelivery.applySite checks p s.disk config f).1
      ⟨result.2, some result.1⟩
  | .crashIn config f point =>
    s.process.map fun p => ⟨ConfigDelivery.crashIn checks p s.disk config f point, none⟩
  | .setNodeConfig nodeConfig =>
    s.process.map fun p =>
      ⟨s.disk, some { p with nodeConfig := nodeConfig, caddy := ⟨p.sites, nodeConfig⟩ }⟩
  | .reload =>
    s.process.map fun p => ⟨s.disk, some { p with caddy := ⟨p.sites, p.nodeConfig⟩ }⟩

variable {checks : Checks} {s t : State} {a : Action} {ops : List Action}

/-- The sites of a delivery that goes through: a valid configuration that is
newer than the one before it. -/
structure Candidate (checks : Checks) (sites : Sites) (config : SiteConfig) (candidate : Sites) :
    Prop where
  valid : checks.valid config
  newer : ∀ previous, sites.lookup config.siteID = some previous →
    previous.version < config.version
  eq : candidate = sites.insert config.siteID config

variable {candidate : Sites} {config : SiteConfig}

/-- The candidate that is prepared. -/
theorem prepare_ok {p : Process} {f : Failures}
    (h : prepare checks p config f = .ok (some candidate)) :
    Candidate checks p.sites config candidate := by
  unfold prepare at h
  obtain ⟨hvalid, h⟩ := ok_of_guard h
  have hdelivery : (match f.renderPrevious, f.render with
      | some error, _ => Except.error (ApplyError.renderPrevious error)
      | none, some error => .error (.render error)
      | none, none => .ok (some (p.sites.insert config.siteID config))) =
        .ok (some candidate) → candidate = p.sites.insert config.siteID config := by
    intro hd
    split at hd
    · cases hd
    · cases hd
    · exact (Option.some.inj (Except.ok.inj hd)).symm
  have hvalid : checks.valid config = true := by simpa using hvalid
  dsimp only at h
  split at h
  · next previous hprevious =>
    split at h
    · split at h
      · cases h
      · split at h <;> cases h
    · next hne =>
      obtain ⟨hle, h⟩ := ok_of_guard h
      refine ⟨hvalid, fun other hother => ?_, hdelivery h⟩
      rw [← Option.some.inj (hprevious.symm.trans hother)]
      omega
  · next hnone =>
    exact ⟨hvalid, fun other hother => absurd (hnone.symm.trans hother) (by simp),
      hdelivery h⟩

/-- What a call leaves behind. -/
inductive Applied (checks : Checks) (p : Process) (d : Disk) (config : SiteConfig)
    (f : Failures) : Process → Disk → Prop
  /-- nothing but the file that was to replace the other -/
  | unchanged (pending : Option Sites) : Applied checks p d config f p { d with pending := pending }
  | promoted (candidate : Sites) (h : Candidate checks p.sites config candidate)
      (marshals : checks.marshalsAll candidate) :
      Applied checks p d config f { p with sites := candidate, caddy := ⟨candidate, p.nodeConfig⟩ }
        ⟨some candidate, none⟩
  | restored (pending : Option Sites) :
      Applied checks p d config f { p with caddy := ⟨p.sites, p.nodeConfig⟩ }
        { d with pending := pending }
  | unrestored (candidate : Sites) (promotion : f.promotion) (rollback : f.rollback) :
      Applied checks p d config f { p with caddy := ⟨candidate, p.nodeConfig⟩ }
        { d with pending := some candidate }

/-- **What applying a configuration does.** -/
theorem applySite_applied (p : Process) (d : Disk) (config : SiteConfig) (f : Failures) :
    Applied checks p d config f (applySite checks p d config f).1.1
      (applySite checks p d config f).1.2 := by
  unfold applySite
  split
  · exact .unchanged d.pending
  · exact .unchanged d.pending
  · next candidate hprepare =>
    split
    · exact .unchanged d.pending
    · next hstaged =>
      have hmarshals : checks.marshalsAll candidate = true := by
        simp only [Bool.or_eq_true, Bool.not_eq_true', not_or, Bool.not_eq_false] at hstaged
        exact hstaged.2
      split
      · exact .unchanged none
      · split
        · exact .promoted candidate (prepare_ok hprepare) hmarshals
        · next hpromotion =>
          split
          · next hrollback => exact .unrestored candidate (by simpa using hpromotion) hrollback
          · exact .restored none

/-- What a process leaves that ends in a call. -/
theorem crashIn_cases (p : Process) (d : Disk) (config : SiteConfig) (f : Failures)
    (point : CrashPoint) :
    (crashIn checks p d config f point).file = d.file ∨
      ∃ candidate, Candidate checks p.sites config candidate ∧ checks.marshalsAll candidate ∧
        (crashIn checks p d config f point).file = some candidate := by
  unfold crashIn
  split
  · next candidate hprepare =>
    split
    · exact .inl rfl
    · next hstaged =>
      have hmarshals : checks.marshalsAll candidate = true := by
        simp only [Bool.or_eq_true, Bool.not_eq_true', not_or, Bool.not_eq_false] at hstaged
        exact hstaged.2
      cases point with
      | staged => exact .inl rfl
      | loaded => exact .inl rfl
      | promoted =>
        dsimp only
        split
        · exact .inl rfl
        · exact .inr ⟨candidate, prepare_ok hprepare, hmarshals, rfl⟩
  · exact .inl rfl

/-- A compensating load that is needed succeeds. -/
def Compensated (_ : State) : Action → Prop
  | .applySite _ f => f.promotion → !f.rollback
  | _ => True

instance (s : State) (a : Action) : Decidable (Compensated s a) := by
  unfold Compensated
  split <;> infer_instance

/-- The agent does not start without a GeoIP database that a site needs. -/
def Complete (_ : State) : Action → Prop
  | .start _ f => f.render ≠ some .geoIPUnavailable
  | _ => True

instance (s : State) (a : Action) : Decidable (Complete s a) := by
  unfold Complete
  split <;> infer_instance

/-- Whether a step loads Caddy with the sites that the process then has: a start
or a call of `ApplySite` in which nothing fails up to that load. -/
def loads (checks : Checks) (s : State) : Action → Bool
  | .start _ f => !f.nodeConfig && !f.read && f.render.isNone && !f.load
  | .applySite config f =>
    s.process.any fun p =>
      match prepare checks p config f with
      | .ok (some candidate) =>
        !f.staging && checks.marshalsAll candidate && !f.load && !(f.promotion && f.rollback)
      | _ => false
  | .setNodeConfig _ => true
  | .reload => true
  | .stop => false
  | .crashIn _ _ _ => false

/-- A process after a step that promotes nothing: its sites, and what Caddy
serves. -/
structure Kept (s : State) (a : Action) (q : Process) : Prop where
  sites : q.sites = s.disk.promoted ∨ ∃ p, s.process = some p ∧ q.sites = p.sites
  caddy : q.caddy.sites = q.sites ∨ (∃ p, s.process = some p ∧ q = p) ∨ ¬ Compensated s a ∨
    ¬ Complete s a ∧ q.caddy.sites = ∅

/-- A start takes what is on the disk. -/
theorem kept_start {nodeConfig : GoString} {f : StartFailures} {q : Process}
    (h : start s.disk nodeConfig f = some q) : Kept s (.start nodeConfig f) q := by
  unfold start at h
  split at h
  · cases h
  · split at h
    · next hrender =>
      cases h
      exact ⟨.inl rfl, .inr (.inr (.inr ⟨fun hcomplete => hcomplete hrender, rfl⟩))⟩
    · cases h
    · split at h
      · cases h
      · cases h
        exact ⟨.inl rfl, .inl rfl⟩

/-- The file stays, or the candidate is promoted. -/
theorem Applied.kept_or_promoted {p q : Process} {d : Disk} {f : Failures} (hp : s.process = some p)
    (h : Applied checks p s.disk config f q d) :
    (d.file = s.disk.file ∧ Kept s (.applySite config f) q) ∨
      ∃ candidate, Candidate checks p.sites config candidate ∧ checks.marshalsAll candidate ∧
        d.file = some candidate ∧ q.sites = candidate ∧ q.caddy.sites = candidate := by
  cases h with
  | unchanged pending => exact .inl ⟨rfl, .inr ⟨p, hp, rfl⟩, .inr (.inl ⟨p, hp, rfl⟩)⟩
  | promoted candidate hcandidate hmarshals =>
    exact .inr ⟨candidate, hcandidate, hmarshals, rfl, rfl, rfl⟩
  | restored pending => exact .inl ⟨rfl, .inr ⟨p, hp, rfl⟩, .inl rfl⟩
  | unrestored candidate hpromotion hrollback =>
    refine .inl ⟨rfl, .inr ⟨p, hp, rfl⟩, .inr (.inr (.inl fun hcompensated => ?_))⟩
    have hload := hcompensated hpromotion
    simp [hrollback] at hload

/-- **A step keeps the file and the sites in memory**, or promotes a newer
configuration to both. -/
theorem step_cases (h : step checks s a = some t) :
    (t.disk.file = s.disk.file ∧ ∀ q, t.process = some q → Kept s a q) ∨
      ∃ p config candidate, s.process = some p ∧ Candidate checks p.sites config candidate ∧
        checks.marshalsAll candidate ∧ t.disk.file = some candidate ∧
        ∀ q, t.process = some q → q.sites = candidate ∧ q.caddy.sites = candidate := by
  cases a with
  | start nodeConfig f =>
    obtain ⟨-, h⟩ := ite_none_right_eq_some.mp h
    cases h
    exact .inl ⟨rfl, fun q hq => kept_start hq⟩
  | stop =>
    cases h
    exact .inl ⟨rfl, nofun⟩
  | applySite config f =>
    obtain ⟨p, hp, rfl⟩ := map_eq_some_iff.mp h
    rcases (applySite_applied p s.disk config f).kept_or_promoted hp with
      ⟨hfile, hkept⟩ | ⟨candidate, hcandidate, hmarshals, hfile, hsites⟩
    · exact .inl ⟨hfile, fun q hq => Option.some.inj hq ▸ hkept⟩
    · exact .inr ⟨p, config, candidate, hp, hcandidate, hmarshals, hfile,
        fun q hq => Option.some.inj hq ▸ hsites⟩
  | crashIn config f point =>
    obtain ⟨p, hp, rfl⟩ := map_eq_some_iff.mp h
    rcases crashIn_cases p s.disk config f point with
      hfile | ⟨candidate, hcandidate, hmarshals, hfile⟩
    · exact .inl ⟨hfile, nofun⟩
    · exact .inr ⟨p, config, candidate, hp, hcandidate, hmarshals, hfile, nofun⟩
  | setNodeConfig | reload =>
    obtain ⟨p, hp, rfl⟩ := map_eq_some_iff.mp h
    refine .inl ⟨rfl, fun q hq => ?_⟩
    cases hq
    exact ⟨.inr ⟨p, hp, rfl⟩, .inl rfl⟩

theorem promoted_of_file {d : Disk} {file : Option Sites} (h : d.file = file) :
    d.promoted = file.getD ∅ :=
  congrArg (Option.getD · ∅) h

/-- The sites a process has are those of the file, and each of them would pass
again. -/
structure Inv (checks : Checks) (s : State) : Prop where
  agree : ∀ p, s.process = some p → p.sites = s.disk.promoted
  applied : ∀ id config, s.disk.promoted.lookup id = some config →
    checks.valid config ∧ checks.marshals config

/-- The empty node. -/
theorem inv_init : Inv checks init where
  agree := by simp [init]
  applied := by simp [init, Disk.promoted]

/-- A candidate is valid as a whole. -/
theorem Candidate.applied {sites : Sites} (h : Candidate checks sites config candidate)
    (hmarshals : checks.marshalsAll candidate)
    (happlied : ∀ id c, sites.lookup id = some c → checks.valid c ∧ checks.marshals c) :
    ∀ id c, candidate.lookup id = some c → checks.valid c ∧ checks.marshals c := by
  intro id c hc
  have hmarshal : checks.marshals c := by
    have hall := of_decide_eq_true hmarshals id
      (mem_keys.mpr (mem_of_lookup_eq_some hc))
    simpa [hc] using hall
  refine ⟨?_, hmarshal⟩
  rw [h.eq] at hc
  by_cases hid : id = config.siteID
  · rw [hid, lookup_insert] at hc
    exact Option.some.inj hc ▸ h.valid
  · rw [lookup_insert_of_ne _ hid] at hc
    exact (happlied id c hc).1

/-- Every step keeps the invariant. -/
theorem inv_step (hinv : Inv checks s) (h : step checks s a = some t) : Inv checks t := by
  rcases step_cases h with ⟨hfile, hkept⟩ | ⟨p, config, candidate, hp, hcandidate, hmarshals, hfile,
    hsites⟩
  · have hpromoted : t.disk.promoted = s.disk.promoted := promoted_of_file hfile
    refine ⟨fun q hq => ?_, hpromoted ▸ hinv.applied⟩
    rw [hpromoted]
    obtain hsites | ⟨p, hp, hsites⟩ := (hkept q hq).sites
    · exact hsites
    · exact hsites.trans (hinv.agree p hp)
  · have hpromoted : t.disk.promoted = candidate := promoted_of_file hfile
    refine ⟨fun q hq => (hsites q hq).1.trans hpromoted.symm, ?_⟩
    rw [hpromoted]
    exact hcandidate.applied hmarshals (hinv.agree p hp ▸ hinv.applied)

/-- And so does every run. -/
theorem inv_run (hrun : run (step checks) init ops = some s) : Inv checks s :=
  run_invariant (fun _ _ _ hinv h => inv_step hinv h) inv_init hrun

/-- Every site of the one set is in the other, with the same version or a later
one. -/
def Advances (sites sites' : Sites) : Prop :=
  ∀ id config, sites.lookup id = some config →
    ∃ config', sites'.lookup id = some config' ∧ config.version ≤ config'.version

theorem Advances.refl (sites : Sites) : Advances sites sites :=
  fun _ config h => ⟨config, h, le_refl _⟩

theorem Advances.trans {x y z : Sites} (h : Advances x y) (h' : Advances y z) : Advances x z := by
  intro id config hconfig
  obtain ⟨config', hconfig', hle⟩ := h id config hconfig
  obtain ⟨config'', hconfig'', hle'⟩ := h' id config' hconfig'
  exact ⟨config'', hconfig'', le_trans hle hle'⟩

/-- A candidate goes back to no earlier version. -/
theorem Candidate.advances {sites : Sites} (h : Candidate checks sites config candidate) :
    Advances sites candidate := by
  intro id c hc
  rw [h.eq]
  by_cases hid : id = config.siteID
  · rw [hid] at hc ⊢
    exact ⟨config, lookup_insert _, le_of_lt (h.newer c hc)⟩
  · exact ⟨c, (lookup_insert_of_ne _ hid).trans hc, le_refl _⟩

/-- Nor does a step. -/
theorem advances_step (hinv : Inv checks s) (h : step checks s a = some t) :
    Advances s.disk.promoted t.disk.promoted := by
  rcases step_cases h with ⟨hfile, -⟩ | ⟨p, config, candidate, hp, hcandidate, -, hfile, -⟩
  · have hpromoted : t.disk.promoted = s.disk.promoted := promoted_of_file hfile
    rw [hpromoted]
    exact .refl _
  · have hpromoted : t.disk.promoted = candidate := promoted_of_file hfile
    rw [hpromoted, ← hinv.agree p hp]
    exact hcandidate.advances

/-- Nor does a run. -/
theorem advances_run {later : List Action} (hinv : Inv checks s)
    (hrun : run (step checks) s later = some t) :
    Advances s.disk.promoted t.disk.promoted := by
  have hlast := run_invariant
    (I := fun t => Inv checks t ∧ Advances s.disk.promoted t.disk.promoted)
    (fun _ _ _ h hstep => ⟨inv_step h.1 hstep, h.2.trans (advances_step h.1 hstep)⟩)
    ⟨hinv, .refl _⟩ hrun
  exact hlast.2

/-- Caddy serves the sites of the process. -/
def Served (s : State) : Prop := ∀ p, s.process = some p → p.caddy.sites = p.sites

/-- Caddy serves no site. -/
def Silent (s : State) : Prop := ∀ p, s.process = some p → p.caddy.sites = ∅

/-- What is stored is served. -/
theorem served_step (hserved : Served s) (hcompensated : Compensated s a)
    (hcomplete : Complete s a) (h : step checks s a = some t) : Served t := by
  intro q hq
  rcases step_cases h with ⟨-, hkept⟩ | ⟨p, config, candidate, hp, -, -, -, hsites⟩
  · obtain hcaddy | ⟨p, hp, rfl⟩ | hnot | ⟨hnot, -⟩ := (hkept q hq).caddy
    · exact hcaddy
    · exact hserved q hp
    · exact absurd hcompensated hnot
    · exact absurd hcomplete hnot
  · obtain ⟨hmemory, hcaddy⟩ := hsites q hq
    exact hcaddy.trans hmemory.symm

/-- Caddy gets what the process has. -/
theorem applySite_of_loads {p : Process} {f : Failures} (hp : s.process = some p)
    (h : loads checks s (.applySite config f)) :
    (applySite checks p s.disk config f).1.1.caddy.sites =
      (applySite checks p s.disk config f).1.1.sites := by
  simp only [loads, hp, Option.any_some] at h
  unfold applySite
  split at h
  · next candidate hprepare =>
    simp only [Bool.and_eq_true, Bool.not_eq_true'] at h
    obtain ⟨⟨⟨hstaging, hmarshals⟩, hload⟩, hrollback⟩ := h
    simp only [hprepare, hstaging, hmarshals, hload, Bool.not_true, Bool.or_self,
      Bool.false_eq_true, if_false]
    cases hpromotion : f.promotion with
    | false => rfl
    | true =>
      rw [hpromotion, Bool.true_and] at hrollback
      simp [hrollback]
  · cases h

/-- Or nothing changes. -/
theorem applySite_of_not_loads {p : Process} {f : Failures} (hp : s.process = some p)
    (h : ¬ loads checks s (.applySite config f))
    (hcompensated : Compensated s (.applySite config f)) :
    (applySite checks p s.disk config f).1.1 = p := by
  simp only [loads, hp, Option.any_some] at h
  unfold applySite
  split
  · rfl
  · rfl
  · next candidate hprepare =>
    rw [hprepare] at h
    dsimp only at h
    split
    · rfl
    · split
      · rfl
      · next hstaged hload =>
        have hrolled : (f.promotion && f.rollback) = false := by
          cases hpromotion : f.promotion with
          | false => rfl
          | true => simpa using hcompensated hpromotion
        simp only [Bool.or_eq_true, Bool.not_eq_true', not_or, Bool.not_eq_true,
          Bool.not_eq_false] at hstaged hload
        exact absurd (by simp [hstaged, hload, hrolled]) h

/-- **A load** gives Caddy the sites of the process. -/
theorem served_of_loads (hload : loads checks s a) (h : step checks s a = some t) : Served t := by
  intro q hq
  cases a with
  | start nodeConfig f =>
    obtain ⟨-, h⟩ := ite_none_right_eq_some.mp h
    cases h
    simp only [loads, Bool.and_eq_true, Bool.not_eq_true', Option.isNone_iff_eq_none] at hload
    obtain ⟨⟨⟨hnode, hread⟩, hrender⟩, hfails⟩ := hload
    simp only [start, hnode, hread, hrender, hfails, Bool.or_self, Bool.false_eq_true,
      if_false] at hq
    cases hq
    rfl
  | stop | crashIn => cases hload
  | applySite config f =>
    obtain ⟨p, hp, rfl⟩ := map_eq_some_iff.mp h
    cases hq
    exact applySite_of_loads hp hload
  | setNodeConfig | reload =>
    obtain ⟨p, hp, rfl⟩ := map_eq_some_iff.mp h
    cases hq
    rfl

/-- Caddy goes on to serve no site until it is loaded. -/
theorem silent_step (hsilent : Silent s) (hload : ¬ loads checks s a)
    (hcompensated : Compensated s a) (h : step checks s a = some t) : Silent t := by
  intro q hq
  cases a with
  | start nodeConfig f =>
    obtain ⟨-, h⟩ := ite_none_right_eq_some.mp h
    cases h
    unfold start at hq
    split at hq
    · cases hq
    · next hread =>
      split at hq
      · cases hq
        rfl
      · cases hq
      · next hrender =>
        split at hq
        · cases hq
        · next hfails =>
          simp only [Bool.or_eq_true, not_or, Bool.not_eq_true] at hread hfails
          exact absurd (by simp [loads, hread, hrender, hfails]) hload
  | stop =>
    cases h
    cases hq
  | applySite config f =>
    obtain ⟨p, hp, rfl⟩ := map_eq_some_iff.mp h
    cases hq
    rw [applySite_of_not_loads hp hload hcompensated]
    exact hsilent p hp
  | crashIn config f point =>
    obtain ⟨p, hp, rfl⟩ := map_eq_some_iff.mp h
    cases hq
  | setNodeConfig | reload => exact absurd rfl hload

/-- The delivery of a configuration that is applied changes nothing. -/
theorem applySite_again {p : Process} {d : Disk}
    (happlied : p.sites.lookup config.siteID = some config) (hvalid : checks.valid config)
    (hmarshals : checks.marshals config) (f : Failures) :
    applySite checks p d config f = ((p, d), .ok ()) := by
  have hprepare : prepare checks p config f = .ok none := by
    unfold prepare
    simp [hvalid, happlied, hmarshals]
  unfold applySite
  rw [hprepare]

/-- **The three stores.**  In every run the sites in memory are those of the
promoted file, the version of a site never decreases, restarts included, and a
configuration that is applied can be delivered again without any effect.  From a
load of Caddy on, Caddy serves the same sites, as long as every compensating load
succeeds and the agent does not start without a GeoIP database that a site needs.
After such a start Caddy serves no site until it is loaded again. -/
theorem stores_agree (hrun : run (step checks) init ops = some s) :
    (∀ p, s.process = some p → p.sites = s.disk.promoted) ∧
    (∀ a t later u, loads checks s a → step checks s a = some t →
      run (step checks) t later = some u →
      Along (step checks) (fun s a => Compensated s a ∧ Complete s a) t later →
      ∀ p, u.process = some p → p.caddy.sites = p.sites) ∧
    (∀ nodeConfig f t later u, f.render = some .geoIPUnavailable →
      step checks s (.start nodeConfig f) = some t → run (step checks) t later = some u →
      Along (step checks) (fun s a => ¬ loads checks s a ∧ Compensated s a) t later →
      ∀ p, u.process = some p → p.caddy.sites = ∅) ∧
    (∀ later t, run (step checks) s later = some t →
      ∀ id config, s.disk.promoted.lookup id = some config →
        ∃ config', t.disk.promoted.lookup id = some config' ∧ config.version ≤ config'.version) ∧
    ∀ p config f, s.process = some p → p.sites.lookup config.siteID = some config →
      applySite checks p s.disk config f = ((p, s.disk), .ok ()) := by
  have hinv := inv_run hrun
  refine ⟨hinv.agree, fun a t later u hload ht hlater halong => ?_,
    fun nodeConfig f t later u hrender ht hlater halong => ?_,
    fun later t hlater => advances_run hinv hlater, fun p config f hp hconfig => ?_⟩
  · exact run_invariant_along (fun _ _ _ hserved ha h => served_step hserved ha.1 ha.2 h)
      (served_of_loads hload ht) halong hlater
  · refine run_invariant_along (fun _ _ _ hsilent ha h => silent_step hsilent ha.1 ha.2 h)
      (I := Silent) ?_ halong hlater
    obtain ⟨-, ht⟩ := ite_none_right_eq_some.mp ht
    cases ht
    intro p hp
    simp only [start, hrender] at hp
    split at hp
    · cases hp
    · cases hp
      rfl
  · have happlied := hinv.applied config.siteID config (hinv.agree p hp ▸ hconfig)
    exact applySite_again hconfig happlied.1 happlied.2 f

/-- Nothing fails. -/
def noFailures : Failures := ⟨none, none, false, false, false, false⟩

/-- Checks that pass everything. -/
def allPass : Checks := ⟨fun _ => true, fun _ => true⟩

def firstVersion : SiteConfig := ⟨lit "site", 1, false, lit "one"⟩

def secondVersion : SiteConfig := ⟨lit "site", 2, false, lit "two"⟩

/-- The agent starts again while the GeoIP database is missing, and the site is
delivered again. -/
def withoutGeoIP : List Action :=
  [.start [] ⟨false, false, none, false⟩, .applySite firstVersion noFailures, .stop,
    .start [] ⟨false, false, some .geoIPUnavailable, false⟩, .applySite firstVersion noFailures]

/-- Caddy is loaded when the database has come, and a second version of the site is
not promoted. -/
def failedPromotion : List Action :=
  [.reload, .applySite secondVersion { noFailures with promotion := true }]

theorem stores_agree_failedPromotion :
    ∃ u, run (step allPass) init (withoutGeoIP ++ failedPromotion) = some u ∧
      ∃ p, u.process = some p ∧ p.sites = u.disk.promoted ∧ p.caddy.sites = p.sites ∧
        p.sites.lookup (lit "site") = some firstVersion := by
  have hends : ∃ u, run (step allPass) init (withoutGeoIP ++ failedPromotion) = some u ∧
      ∃ p ∈ u.process, p.sites.lookup (lit "site") = some firstVersion := by
    apply ends_of_any
    decide +kernel
  obtain ⟨u, hu, p, hp, hfirst⟩ := hends
  refine ⟨u, hu, p, hp, (stores_agree hu).1 p hp, ?_, hfirst⟩
  rw [run_append] at hu
  obtain ⟨s, hs, hlater⟩ := bind_eq_some_iff.mp hu
  obtain ⟨t, ht, hlater⟩ := run_cons_some.mp hlater
  have halong : ∀ t, Along (step allPass) (fun s a => Compensated s a ∧ Complete s a) t
      [.applySite secondVersion { noFailures with promotion := true }] :=
    fun t => ⟨⟨fun _ => rfl, trivial⟩, fun _ _ => trivial⟩
  exact (stores_agree hs).2.1 .reload t _ u rfl ht hlater (halong t) p hp

/-- The delivery is accepted, memory and file have the site, and Caddy serves
none. -/
theorem started_without_geoIP :
    ∃ s, run (step allPass) init withoutGeoIP = some s ∧
      s.disk.promoted.lookup (lit "site") = some firstVersion ∧
      ∃ p ∈ s.process, p.sites.lookup (lit "site") = some firstVersion ∧ p.caddy.sites = ∅ := by
  apply ends_of_any
  decide +kernel

end ConfigDelivery
