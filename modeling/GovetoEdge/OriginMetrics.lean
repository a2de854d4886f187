import GovetoEdge.Runs

/-!
# Metrics of an origin

A request that an origin has answered is counted in `requests`, and after that in
`errors` if it failed.  `SnapshotAndReset` takes the value of each counter and sets
it to zero, one counter after the other.  Each of these is one step.

A counter is given by the observations that it counts; its value is their number.
`observed` and `failed` are not in the program: they hold all that was ever
counted.

* `exact_step`: no observation is lost or counted twice;
* `snapshots_valid`: no snapshot has more errors than requests as long as none cuts
  an observation apart.
-/

namespace OriginMetrics

open Runs

/-- What a snapshot reports of the two counters. -/
structure Metric where
  requests : Multiset Nat
  errors : Multiset Nat

/-- What `validOriginHealthMetric` asks of the two counters. -/
def Metric.valid (m : Metric) : Prop := m.errors.card ≤ m.requests.card

/-- `metricState`, with the requests that a snapshot has taken while the errors are
still to be swapped. -/
structure State where
  requests : Multiset Nat
  errors : Multiset Nat
  /-- the observations whose error is still to be counted -/
  pending : Multiset Nat
  taken : Option (Multiset Nat)
  snapshots : List Metric
  observed : Multiset Nat
  failed : Multiset Nat

/-- Nothing was observed. -/
def init : State := ⟨0, 0, 0, none, [], 0, 0⟩

/-- Observations and snapshots. -/
inductive Action
  | addRequest (observation : Nat) (failed : Bool)
  | addError (observation : Nat)
  | swapRequests
  | swapErrors

/-- One step on the shared counters. -/
def step (s : State) : Action → Option State
  | .addRequest i failed =>
    if i ∈ s.observed then none
    else some { s with
      requests := i ::ₘ s.requests
      pending := if failed then i ::ₘ s.pending else s.pending
      observed := i ::ₘ s.observed }
  | .addError i =>
    if i ∈ s.pending then some { s with
      errors := i ::ₘ s.errors
      pending := s.pending.erase i
      failed := i ::ₘ s.failed }
    else none
  | .swapRequests =>
    if s.taken.isSome then none else some { s with requests := 0, taken := some s.requests }
  | .swapErrors =>
    s.taken.map fun requests =>
      { s with errors := 0, taken := none, snapshots := ⟨requests, s.errors⟩ :: s.snapshots }

/-- Every observation is in one snapshot or still counted. -/
def Exact (s : State) : Prop :=
  (s.snapshots.map Metric.requests).sum + s.taken.getD 0 + s.requests = s.observed ∧
    (s.snapshots.map Metric.errors).sum + s.errors = s.failed

/-- Every step counts. -/
theorem exact_step (s : State) (a : Action) (t : State) (h : Exact s) (hstep : step s a = some t) :
    Exact t := by
  obtain ⟨hrequests, herrors⟩ := h
  cases a with
  | addRequest i failed =>
    obtain ⟨-, hstep⟩ := Option.ite_none_left_eq_some.mp hstep
    cases hstep
    refine ⟨?_, herrors⟩
    rw [← hrequests, Multiset.add_cons]
  | addError i =>
    obtain ⟨-, hstep⟩ := Option.ite_none_right_eq_some.mp hstep
    cases hstep
    refine ⟨hrequests, ?_⟩
    rw [← herrors, Multiset.add_cons]
  | swapRequests =>
    obtain ⟨hnone, hstep⟩ := Option.ite_none_left_eq_some.mp hstep
    cases hstep
    refine ⟨?_, herrors⟩
    rw [← hrequests, Option.not_isSome_iff_eq_none.mp hnone]
    simp
  | swapErrors =>
    obtain ⟨requests, htaken, rfl⟩ := Option.map_eq_some_iff.mp hstep
    refine ⟨?_, ?_⟩
    · rw [← hrequests, htaken, List.map_cons, List.sum_cons, add_comm requests]
      simp
    · rw [← herrors, List.map_cons, List.sum_cons, add_comm s.errors]
      simp

theorem card_sum (f : Metric → Multiset Nat) (snapshots : List Metric) :
    (snapshots.map f).sum.card = (snapshots.map fun m => (f m).card).sum := by
  induction snapshots with
  | nil => rfl
  | cons m snapshots ih => simp [ih]

/-- The error of an observation is counted while its request is where the next
snapshot finds it: among those that the snapshot under way has taken, or still in the
counter if there is none. -/
def Uncut (s : State) : Action → Prop
  | .addError i => i ∈ s.taken.getD s.requests
  | _ => True

instance (s : State) (a : Action) : Decidable (Uncut s a) := by
  cases a <;> unfold Uncut <;> infer_instance

/-- What holds as long as no observation is cut apart. -/
structure Whole (s : State) : Prop where
  exact : Exact s
  distinct : s.observed.Nodup
  once : s.failed + s.pending ≤ s.observed
  counted : s.errors ≤ s.taken.getD s.requests
  valid : ∀ m ∈ s.snapshots, m.valid

/-- Uncut steps count whole observations. -/
theorem whole_step (s : State) (a : Action) (t : State) (h : Whole s) (huncut : Uncut s a)
    (hstep : step s a = some t) : Whole t := by
  have hexact := exact_step s a t h.exact hstep
  cases a with
  | addRequest i failed =>
    obtain ⟨hnew, hstep⟩ := Option.ite_none_left_eq_some.mp hstep
    cases hstep
    refine ⟨hexact, Multiset.nodup_cons.mpr ⟨hnew, h.distinct⟩, ?_, ?_, h.valid⟩
    · cases failed with
      | true => simpa using h.once
      | false => exact h.once.trans (Multiset.le_cons_self _ i)
    · have hcounted := h.counted
      cases htaken : s.taken with
      | none =>
        rw [htaken] at hcounted
        exact hcounted.trans (Multiset.le_cons_self _ i)
      | some requests => rwa [htaken] at hcounted
  | addError i =>
    obtain ⟨hpending, hstep⟩ := Option.ite_none_right_eq_some.mp hstep
    cases hstep
    -- an observation fails once, so that its error is not counted yet
    have hnew : i ∉ s.errors := by
      intro hold
      have hfailed : i ∈ s.failed := by
        rw [← h.exact.2]
        exact Multiset.mem_add.mpr (.inr hold)
      have hdistinct := Multiset.nodup_of_le h.once h.distinct
      exact Multiset.disjoint_left.mp (Multiset.nodup_add.mp hdistinct).2.2 hfailed hpending
    refine ⟨hexact, h.distinct, ?_, (Multiset.cons_le_of_notMem hnew).mpr ⟨huncut, h.counted⟩,
      h.valid⟩
    have hmoved : i ::ₘ s.failed + s.pending.erase i = s.failed + s.pending := by
      rw [Multiset.cons_add, ← Multiset.add_cons, Multiset.cons_erase hpending]
    exact hmoved ▸ h.once
  | swapRequests =>
    obtain ⟨hnone, hstep⟩ := Option.ite_none_left_eq_some.mp hstep
    cases hstep
    have hcounted := h.counted
    rw [Option.not_isSome_iff_eq_none.mp hnone] at hcounted
    exact ⟨hexact, h.distinct, h.once, hcounted, h.valid⟩
  | swapErrors =>
    obtain ⟨requests, htaken, rfl⟩ := Option.map_eq_some_iff.mp hstep
    have hcounted := h.counted
    rw [htaken] at hcounted
    exact ⟨hexact, h.distinct, h.once, Multiset.zero_le _,
      List.forall_mem_cons.mpr ⟨Multiset.card_le_card hcounted, h.valid⟩⟩

/-- **The snapshots of an origin.**  After every run the requests and the errors of
all snapshots, with those still in the counters, are as many as were observed.  If no
observation is cut apart by a snapshot, then all snapshots are valid. -/
theorem snapshots_valid (as : List Action) (s : State) (hrun : run step init as = some s) :
    (s.snapshots.map fun m => m.requests.card).sum + (s.taken.getD 0).card + s.requests.card =
        s.observed.card ∧
      (s.snapshots.map fun m => m.errors.card).sum + s.errors.card = s.failed.card ∧
      (Along step Uncut init as → ∀ m ∈ s.snapshots, m.valid) := by
  obtain ⟨hrequests, herrors⟩ := run_invariant exact_step ⟨rfl, rfl⟩ hrun
  refine ⟨?_, ?_, fun huncut => ?_⟩
  · rw [← hrequests, Multiset.card_add, Multiset.card_add, card_sum]
  · rw [← herrors, Multiset.card_add, card_sum]
  · have hinit : Whole init := ⟨⟨rfl, rfl⟩, Multiset.nodup_zero, le_refl _, le_refl _, nofun⟩
    exact (run_invariant_along whole_step hinit huncut hrun).valid

/-- Two failed requests: the error of one is counted between the swaps that report it. -/
theorem snapshots_valid_twoFailures :
    ∃ s, run step init [.addRequest 0 true, .addRequest 1 true, .addError 0, .swapRequests,
        .addError 1, .addRequest 2 true, .swapErrors, .addError 2] = some s ∧
      ∀ m ∈ s.snapshots, m.valid :=
  ⟨_, rfl, (snapshots_valid [.addRequest 0 true, .addRequest 1 true, .addError 0, .swapRequests,
        .addError 1, .addRequest 2 true, .swapErrors, .addError 2] _ rfl).2.2 (by decide)⟩

/-- A failed request is counted between the two swaps of a snapshot, which then
reports an error and no request. -/
theorem cut_observation_invalid :
    ∃ s, run step init [.swapRequests, .addRequest 0 true, .addError 0, .swapErrors] = some s ∧
      ∃ m ∈ s.snapshots, m.requests.card = 0 ∧ m.errors.card = 1 :=
  ⟨_, rfl, _, List.mem_singleton.mpr rfl, rfl, rfl⟩

end OriginMetrics
