import GovetoEdge.GoStrings
import GovetoEdge.Runs

/-!
# The circuit breaker of the rate-limit backend

Requests under a distributed rate rule ask a store over the network.  All
requests of a handler share one breaker: after a failure it turns requests away
until a time, and then lets one request through as a probe.  `allowRate` takes
the breaker's lock at most twice, to acquire it and to report how the call of the
store went; other requests come in between.

A step of the model is one of these locked sections.  `State.calls` are the
requests that are calling the store, and `State.decided` says for the others
whether the store or the rule's failure mode has decided them.

* `Inv` holds in every state (`inv_run`);
* `breaker_safe`: at most one probe is out, an error is held exactly when
  failures have been counted, and a report about another generation changes
  nothing;
* `closed_iff_no_failure`: the error of a client that has gone away opens the
  circuit like any other.
-/

namespace RateBackend

open Option Runs
open GoStrings (second)

variable {σ ε : Type}

def rateBackendInitialBackoff : Int := second

def rateBackendMaxBackoff : Int := 30 * second

/-- `rateBackendState`, without its lock. -/
structure Breaker (σ ε : Type) where
  store : Option σ
  err : Option ε
  retryAt : Int
  failures : Nat
  probing : Bool
  generation : UInt64

/-- What `Provision` starts with: the store, or the error of its configuration. -/
def provision (configured : Except ε σ) (now : Int) : Breaker σ ε :=
  match configured with
  | .ok store => ⟨some store, none, 0, 0, false, 0⟩
  | .error e => ⟨none, some e, now + rateBackendInitialBackoff, 1, false, 0⟩

/-- The loop of `rateBackendBackoff`. -/
def backoffFrom : Nat → Int → Int
  | 0, delay => delay
  | attempts + 1, delay =>
    if delay < rateBackendMaxBackoff then backoffFrom attempts (delay * 2) else delay

/-- It doubles with each failure. -/
def rateBackendBackoff (failures : Nat) : Int :=
  min (backoffFrom (failures - 1) rateBackendInitialBackoff) rateBackendMaxBackoff

/-- What `acquireRateBackend` returns. -/
structure Acquired (σ ε : Type) where
  store : Option σ
  err : Option ε
  probe : Bool
  generation : UInt64

/-- A request gets the store, or is turned away. -/
def acquireRateBackend (b : Breaker σ ε) (now : Int) : Acquired σ ε × Breaker σ ε :=
  match b.err with
  | none => (⟨b.store, none, false, b.generation⟩, b)
  | some e =>
    if b.probing ∨ now < b.retryAt then (⟨none, some e, false, b.generation⟩, b)
    else (⟨b.store, some e, true, b.generation⟩, { b with probing := true })

/-- The circuit opens, or stays open longer. -/
def failRateBackend (b : Breaker σ ε) (e : ε) (now : Int) (generation : UInt64) (probe : Bool) :
    Breaker σ ε :=
  if b.generation ≠ generation ∨ (!probe ∧ b.err.isSome) then b
  else
    { b with
      failures := b.failures + 1
      err := some e
      retryAt := now + rateBackendBackoff (b.failures + 1)
      probing := false
      generation := b.generation + 1 }

/-- It closes. -/
def recoverRateBackend (b : Breaker σ ε) (store : σ) (generation : UInt64) : Breaker σ ε :=
  if b.generation ≠ generation ∨ !b.probing then b
  else
    { b with
      store := some store
      err := none
      retryAt := 0
      failures := 0
      probing := false
      generation := b.generation + 1 }

/-- A request that calls the store. -/
structure Call where
  probe : Bool
  generation : UInt64
  now : Int

/-- What has decided a request. -/
inductive Verdict
  | store (allowed : Bool)
  | failureMode
deriving DecidableEq

/-- The breaker and its requests. -/
structure State (σ ε : Type) where
  breaker : Breaker σ ε
  calls : Nat → Option Call
  decided : Nat → Option Verdict

/-- A store, or an error at the start. -/
def State.initial (configured : Except ε σ) (now : Int) : State σ ε :=
  ⟨provision configured now, fun _ => none, fun _ => none⟩

/-- The locked sections of `allowRate`, each for one request: it acquires the
breaker, or it reports that the call with a store has succeeded, or that there
is no store or the call has failed. -/
inductive Action (σ ε : Type)
  | acquire (request : Nat) (now : Int)
  | succeed (request : Nat) (store : σ) (allowed : Bool)
  | failed (request : Nat) (e : ε)

/-- A request that is neither calling nor decided. -/
def State.idle (s : State σ ε) (request : Nat) : Bool :=
  (s.calls request).isNone && (s.decided request).isNone

def setAt {α : Type} (f : Nat → Option α) (i : Nat) (x : Option α) : Nat → Option α :=
  fun j => if j = i then x else f j

/-- A request gets its verdict. -/
def State.decide (s : State σ ε) (b : Breaker σ ε) (request : Nat) (verdict : Verdict) :
    State σ ε :=
  { breaker := b
    calls := setAt s.calls request none
    decided := setAt s.decided request (some verdict) }

/-- One step. -/
def step (s : State σ ε) : Action σ ε → Option (State σ ε)
  | .acquire request now =>
    if s.idle request then
      let (acquired, b) := acquireRateBackend s.breaker now
      if acquired.err.isNone || acquired.probe then
        some { s with
          breaker := b
          calls := setAt s.calls request (some ⟨acquired.probe, acquired.generation, now⟩) }
      else some (s.decide b request .failureMode)
    else none
  | .succeed request store allowed =>
    match s.calls request with
    | none => none
    | some call =>
      let b :=
        if call.probe then recoverRateBackend s.breaker store call.generation else s.breaker
      some (s.decide b request (.store allowed))
  | .failed request e =>
    match s.calls request with
    | none => none
    | some call =>
      let b := failRateBackend s.breaker e call.now call.generation call.probe
      some (s.decide b request .failureMode)

/-- The error and the count go together, a probe is out only under an error, and
the probe that is out is the only one and belongs to the current generation. -/
structure Inv (s : State σ ε) : Prop where
  counted : s.breaker.err.isSome ↔ 0 < s.breaker.failures
  probing : s.breaker.probing → s.breaker.err.isSome
  current : ∀ i c, s.calls i = some c → c.probe →
    s.breaker.probing ∧ c.generation = s.breaker.generation
  single : ∀ i j c d, s.calls i = some c → s.calls j = some d → c.probe → d.probe → i = j

/-- The invariant at the start. -/
theorem inv_initial (configured : Except ε σ) (now : Int) : Inv (State.initial configured now) := by
  cases configured with
  | ok | error => exact ⟨by simp [State.initial, provision], by simp [State.initial, provision],
      by simp [State.initial], by simp [State.initial]⟩

section Steps

variable {s t : State σ ε}

variable {request : Nat}

/-- The calls that stay when a request ends. -/
theorem calls_decide {b : Breaker σ ε} {i : Nat} {verdict : Verdict} {c : Call}
    (h : (s.decide b request verdict).calls i = some c) : i ≠ request ∧ s.calls i = some c := by
  by_cases hi : i = request
  · simp [State.decide, setAt, hi] at h
  · exact ⟨hi, by simpa [State.decide, setAt, hi] using h⟩

/-- No probe is out when there is no error. -/
theorem Inv.no_probe (hs : Inv s) (herr : s.breaker.err = none) {i : Nat} {c : Call}
    (hc : s.calls i = some c) : ¬ c.probe := by
  intro hprobe
  have hsome := hs.probing (hs.current i c hc hprobe).1
  simp [herr] at hsome

/-- A request that ends and leaves the breaker alone. -/
theorem Inv.decide_same (hs : Inv s) (request : Nat) (verdict : Verdict) :
    Inv (s.decide s.breaker request verdict) where
  counted := hs.counted
  probing := hs.probing
  current i c hc hprobe := hs.current i c (calls_decide hc).2 hprobe
  single i j c d hc hd := hs.single i j c d (calls_decide hc).2 (calls_decide hd).2

/-- A request whose report is taken over ends any probe. -/
theorem Inv.decide_reported (hs : Inv s) {b : Breaker σ ε} {verdict : Verdict}
    (hcounted : b.err.isSome ↔ 0 < b.failures) (hprobing : b.probing = false)
    (hothers : ∀ i c, i ≠ request → s.calls i = some c → ¬ c.probe) :
    Inv (s.decide b request verdict) where
  counted := hcounted
  probing h := by simp [State.decide, hprobing] at h
  current i c hc hprobe :=
    absurd hprobe (hothers i c (calls_decide hc).1 (calls_decide hc).2)
  single i j c d hc hd := hs.single i j c d (calls_decide hc).2 (calls_decide hd).2

/-- A request begins. -/
theorem Inv.acquire (hs : Inv s) {now : Int} (h : step s (.acquire request now) = some t) :
    Inv t := by
  simp only [step] at h
  by_cases hidle : s.idle request
  · rw [if_pos hidle] at h
    cases herr : s.breaker.err with
    | none =>
      -- The breaker is closed: the request calls the store, and is no probe.
      simp only [acquireRateBackend, herr, isNone_none, Bool.true_or, if_true,
        Option.some.injEq] at h
      subst h
      have hcalls : ∀ i c, setAt s.calls request (some ⟨false, s.breaker.generation, now⟩) i =
          some c → c.probe → s.calls i = some c := by
        intro i c hc hprobe
        by_cases hi : i = request
        · simp only [setAt, hi, if_true, Option.some.injEq] at hc
          simp [← hc] at hprobe
        · simpa [setAt, hi] using hc
      exact
        { counted := hs.counted
          probing := hs.probing
          current := fun i c hc hprobe => hs.current i c (hcalls i c hc hprobe) hprobe
          single := fun i j c d hc hd hcp hdp =>
            hs.single i j c d (hcalls i c hc hcp) (hcalls j d hd hdp) hcp hdp }
    | some e =>
      by_cases hwait : s.breaker.probing ∨ now < s.breaker.retryAt
      · simp only [acquireRateBackend, herr, if_pos hwait, isNone_some, Bool.or_self,
          Bool.false_eq_true, if_false, Option.some.injEq] at h
        subst h
        exact hs.decide_same request .failureMode
      · -- The request is the probe; there was none before it.
        simp only [acquireRateBackend, herr, if_neg hwait, isNone_some, Bool.or_true,
          if_true, Option.some.injEq] at h
        subst h
        rw [not_or, Bool.not_eq_true] at hwait
        have hcounted := hs.counted
        rw [herr] at hcounted
        have hcalls : ∀ i c, setAt s.calls request (some ⟨true, s.breaker.generation, now⟩) i =
            some c → c.probe → i = request ∧ c.generation = s.breaker.generation := by
          intro i c hc hprobe
          by_cases hi : i = request
          · simp only [setAt, hi, if_true, Option.some.injEq] at hc
            exact ⟨hi, by rw [← hc]⟩
          · have hold : s.calls i = some c := by simpa [setAt, hi] using hc
            have hprobing := (hs.current i c hold hprobe).1
            rw [hwait.1] at hprobing
            exact absurd hprobing Bool.false_ne_true
        exact
          { counted := hcounted
            probing := fun _ => rfl
            current := fun i c hc hprobe => ⟨rfl, (hcalls i c hc hprobe).2⟩
            single := fun i j c d hc hd hcp hdp =>
              (hcalls i c hc hcp).1.trans (hcalls j d hd hdp).1.symm }
  · rw [if_neg hidle] at h
    cases h

/-- Its call succeeds. -/
theorem Inv.succeed (hs : Inv s) {store : σ} {allowed : Bool}
    (h : step s (.succeed request store allowed) = some t) : Inv t := by
  simp only [step] at h
  cases hcall : s.calls request with
  | none => simp [hcall] at h
  | some call =>
    simp only [hcall, Option.some.injEq] at h
    subst h
    by_cases hprobe : call.probe
    · obtain ⟨hprobing, hgeneration⟩ := hs.current request call hcall hprobe
      have hrecover : ¬ (s.breaker.generation ≠ call.generation ∨ !s.breaker.probing) := by
        simp [hgeneration, hprobing]
      rw [if_pos hprobe, recoverRateBackend, if_neg hrecover]
      apply hs.decide_reported
      · simp
      · rfl
      · exact fun i c hi hc hcp => hi (hs.single i request c call hc hcall hcp hprobe)
    · rw [if_neg hprobe]
      exact hs.decide_same request _

/-- Its call fails. -/
theorem Inv.failed (hs : Inv s) {e : ε} (h : step s (.failed request e) = some t) : Inv t := by
  simp only [step] at h
  cases hcall : s.calls request with
  | none => simp [hcall] at h
  | some call =>
    simp only [hcall, Option.some.injEq] at h
    subst h
    unfold failRateBackend
    by_cases hignored :
        s.breaker.generation ≠ call.generation ∨ (!call.probe ∧ s.breaker.err.isSome)
    · rw [if_pos hignored]
      exact hs.decide_same request _
    · rw [if_neg hignored]
      apply hs.decide_reported
      · simp
      · rfl
      · intro i c hi hc hcp
        -- Only a probe, or a request from before any error, is listened to.
        rw [not_or, not_and_or] at hignored
        rcases hignored.2 with hprobe | herr
        · exact hi (hs.single i request c call hc hcall hcp (by simpa using hprobe))
        · exact hs.no_probe (by simpa using herr) hc hcp

/-- Every step keeps the invariant. -/
theorem inv_step {a : Action σ ε} (hs : Inv s) (h : step s a = some t) : Inv t := by
  cases a with
  | acquire request now => exact hs.acquire h
  | succeed request store allowed => exact hs.succeed h
  | failed request e => exact hs.failed h

/-- And so does every run. -/
theorem inv_run {actions : List (Action σ ε)} (hs : Inv s)
    (h : run step s actions = some t) : Inv t :=
  run_invariant (fun _ _ _ hs h => inv_step hs h) hs h

end Steps

/-- The request and the generation of a report. -/
def State.reported (s : State σ ε) : Action σ ε → Option UInt64
  | .acquire _ _ => none
  | .succeed request _ _ => (s.calls request).map Call.generation
  | .failed request _ => (s.calls request).map Call.generation

/-- **The breaker under any interleaving of requests.**  At most one probe is
out; an error is held exactly when failures have been counted; and a report for
another generation than the current one leaves the breaker as it is. -/
theorem breaker_safe (configured : Except ε σ) (now : Int) (actions : List (Action σ ε))
    (s : State σ ε) (h : run step (State.initial configured now) actions = some s) :
    (∀ i j c d, s.calls i = some c → s.calls j = some d → c.probe → d.probe → i = j) ∧
      (s.breaker.err.isSome ↔ 0 < s.breaker.failures) ∧
      ∀ a t g, step s a = some t → s.reported a = some g → g ≠ s.breaker.generation →
        t.breaker = s.breaker := by
  have hs : Inv s := inv_run (inv_initial configured now) h
  refine ⟨hs.single, hs.counted, ?_⟩
  intro a t g hstep hg hne
  cases a with
  | acquire request now => cases hg
  | succeed request store allowed =>
    obtain ⟨call, hcall, rfl⟩ := map_eq_some_iff.mp hg
    simp only [step, hcall, Option.some.injEq] at hstep
    subst hstep
    by_cases hprobe : call.probe
    · simp only [State.decide, if_pos hprobe, recoverRateBackend]
      rw [if_pos (.inl (Ne.symm hne))]
    · simp only [State.decide, if_neg hprobe]
  | failed request e =>
    obtain ⟨call, hcall, rfl⟩ := map_eq_some_iff.mp hg
    simp only [step, hcall, Option.some.injEq] at hstep
    subst hstep
    simp only [State.decide, failRateBackend]
    rw [if_pos (.inl (Ne.symm hne))]

/-- Two requests call the store, the first fails and the breaker opens; later a
third is the probe, and then the second fails: too late to change anything. -/
theorem late_failure_ignored :
    ∃ s t : State Unit Unit,
      run step (State.initial (.ok ()) 0)
        [.acquire 0 0, .acquire 1 0, .failed 0 (), .acquire 2 (2 * second)] = some s ∧
      step s (.failed 1 ()) = some t ∧ t.breaker = s.breaker ∧
      (s.breaker.err.isSome ↔ 0 < s.breaker.failures) := by
  obtain ⟨s, hs⟩ := isSome_iff_exists.mp (show (run step
    (State.initial (.ok ()) 0 : State Unit Unit)
    [.acquire 0 0, .acquire 1 0, .failed 0 (), .acquire 2 (2 * second)]).isSome by decide)
  obtain ⟨-, hcounted, hlate⟩ := breaker_safe (.ok ()) 0 _ s hs
  have hreport : s.reported (.failed 1 ()) = some 0 ∧ (0 : UInt64) ≠ s.breaker.generation := by
    cases hs
    decide
  obtain ⟨t, ht⟩ : ∃ t, step s (.failed 1 ()) = some t := by
    cases hs
    exact ⟨_, rfl⟩
  exact ⟨s, t, hs, ht, hlate _ t 0 ht hreport.1 hreport.2, hcounted⟩

/-- The circuit is closed, and no request of another client has been left to the
failure mode of its rule.  The store is called under the context of the request, so
that a client that cancels it is an error of the call. -/
def Undisturbed (cancelled : Nat → Prop) (s : State σ ε) : Prop :=
  s.breaker.err = none ∧ ∀ i, ¬ cancelled i → s.decided i ≠ some .failureMode

/-- Only cancelled requests fail. -/
def Healthy (cancelled : Nat → Prop) (actions : List (Action σ ε)) : Prop :=
  ∀ i e, Action.failed i e ∈ actions → cancelled i

/-- Before the first failure every call belongs to the breaker's generation. -/
structure Calm (s : State σ ε) : Prop where
  closed : s.breaker.err = none
  calls : ∀ i c, s.calls i = some c → c.probe = false ∧ c.generation = s.breaker.generation
  decided : ∀ i, s.decided i ≠ some .failureMode

section Calm

variable {s t : State σ ε} {cancelled : Nat → Prop}

/-- A calm state is undisturbed. -/
theorem Calm.undisturbed (hs : Calm s) : Undisturbed cancelled s :=
  ⟨hs.closed, fun i _ => hs.decided i⟩

/-- A new request keeps it calm. -/
theorem Calm.acquire (hs : Calm s) {request : Nat} {now : Int}
    (h : step s (.acquire request now) = some t) : Calm t := by
  simp only [step, acquireRateBackend, hs.closed] at h
  by_cases hidle : s.idle request
  · simp only [hidle, if_true, isNone_none, Bool.true_or, Option.some.injEq] at h
    subst h
    refine ⟨hs.closed, ?_, hs.decided⟩
    intro i c hc
    by_cases hi : i = request
    · simp only [setAt, hi, if_true, Option.some.injEq] at hc
      subst hc
      exact ⟨rfl, rfl⟩
    · exact hs.calls i c (by simpa [setAt, hi] using hc)
  · rw [if_neg hidle] at h
    cases h

/-- So does a call that succeeds. -/
theorem Calm.succeed (hs : Calm s) {request : Nat} {store : σ} {allowed : Bool}
    (h : step s (.succeed request store allowed) = some t) : Calm t := by
  simp only [step] at h
  cases hcall : s.calls request with
  | none => simp [hcall] at h
  | some call =>
    simp only [hcall, (hs.calls request call hcall).1, Bool.false_eq_true, if_false,
      Option.some.injEq] at h
    subst h
    refine ⟨hs.closed, fun i c hc => hs.calls i c (calls_decide hc).2, fun i => ?_⟩
    by_cases hi : i = request
    · simp [State.decide, setAt, hi]
    · simpa [State.decide, setAt, hi] using hs.decided i

/-- **The first failure opens the circuit**, whatever its error. -/
theorem Calm.opens (hs : Calm s) {request : Nat} {e : ε}
    (h : step s (.failed request e) = some t) : t.breaker.err = some e := by
  simp only [step] at h
  cases hcall : s.calls request with
  | none => simp [hcall] at h
  | some call =>
    obtain ⟨hprobe, hgeneration⟩ := hs.calls request call hcall
    simp only [hcall, Option.some.injEq] at h
    subst h
    simp [State.decide, failRateBackend, hprobe, hgeneration, hs.closed]

/-- **When other clients are not disturbed.** -/
theorem Calm.undisturbed_iff {actions : List (Action σ ε)} (hs : Calm s)
    (hrun : (run step s actions).isSome) :
    (∀ as, as <+: actions → ∀ t, run step s as = some t → Undisturbed cancelled t) ↔
      ∀ i e, Action.failed i e ∉ actions := by
  induction actions generalizing s with
  | nil =>
    refine iff_of_true (fun as has t ht => ?_) (by simp)
    obtain rfl := List.prefix_nil.mp has
    cases ht
    exact hs.undisturbed
  | cons a actions ih =>
    obtain ⟨u, hu⟩ := isSome_iff_exists.mp hrun
    obtain ⟨m, hm, hrest⟩ := run_cons_some.mp hu
    have hrest : (run step m actions).isSome := by simp [hrest]
    rw [moments_cons hm, and_iff_right hs.undisturbed]
    cases a with
    | acquire request now => simpa using ih (hs.acquire hm) hrest
    | succeed request store allowed => simpa using ih (hs.succeed hm) hrest
    | failed request e =>
      refine iff_of_false (fun h => ?_) (fun h => h request e List.mem_cons_self)
      have hclosed := (h [] List.nil_prefix m rfl).1
      rw [hs.opens hm] at hclosed
      cases hclosed

end Calm

/-- **When the circuit stays closed.**  In every run of a handler that has a
store, the circuit stays closed and every request that is not cancelled is decided
by the store, up to each moment of the run, exactly when no call of the store has
failed.  A call that fails because its own client has cancelled the request is
no exception. -/
theorem closed_iff_no_failure (cancelled : Nat → Prop) (store : σ) (now : Int)
    (actions : List (Action σ ε))
    (hrun : (run step (State.initial (.ok store) now) actions).isSome) :
    (∀ as, as <+: actions → ∀ s, run step (State.initial (.ok store) now) as = some s →
      Undisturbed cancelled s) ↔ ∀ i e, Action.failed i e ∉ actions := by
  have hinitial : Calm (State.initial (.ok store) now : State σ ε) :=
    ⟨rfl, by simp [State.initial], by simp [State.initial]⟩
  exact hinitial.undisturbed_iff hrun

/-- Two requests are decided by the store, and nothing is disturbed. -/
theorem closed_while_calls_succeed :
    ∃ s : State Unit Unit, run step (State.initial (.ok ()) 0)
      [.acquire 0 0, .acquire 1 0, .succeed 1 () true, .succeed 0 () false] = some s ∧
      Undisturbed (fun _ => False) s := by
  refine ⟨_, rfl, ?_⟩
  exact (closed_iff_no_failure (fun _ => False) () 0
    [.acquire 0 0, .acquire 1 0, .succeed 1 () true, .succeed 0 () false] rfl).mpr (by simp) _
    List.prefix_rfl _ rfl

/-- The client of request 0 goes away while the store is called.  The circuit
opens, and request 1 of another client is left to the failure mode. -/
theorem cancelled_client_opens_circuit :
    Healthy (· = 0) ([.acquire 0 0, .failed 0 (), .acquire 1 0] : List (Action Unit Unit)) ∧
      ∃ s : State Unit Unit, run step (State.initial (.ok ()) 0)
        [.acquire 0 0, .failed 0 (), .acquire 1 0] = some s ∧
        s.breaker.err = some () ∧ s.decided 1 = some .failureMode :=
  ⟨by simp [Healthy], _, rfl, rfl, rfl⟩

end RateBackend
