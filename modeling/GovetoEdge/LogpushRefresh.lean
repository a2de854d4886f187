import GovetoEdge.GoStrings
import GovetoEdge.Runs

/-!
# Refreshing the logpush destinations

The dispatcher keeps a worker with a queue and a Kafka client for each destination of
a cluster.  A refresh builds new workers, publishes them and stops those it replaces,
while producers may hold the workers that were published before.  A worker that is
stopped abandons its queue, and then its client is closed with what is buffered in it:
delivery is best-effort.

The model is one cluster; every load that succeeds finds the same destinations
`dests`.  A refresh is due whenever the environment says so.  The workers that a
refresh replaced are stopped in any order, and the client answers the records that
were handed to it in any order.

* `Turn`: what a step does to a worker;
* `abandoned_only_when_replaced`: what becomes of the accepted records.
-/

namespace LogpushRefresh

open GoStrings List Runs

variable {δ : Type}

/-- `kgo.Record`, without the topic. -/
structure Record where
  key : GoString
  value : GoString
  headers : List (GoString × GoString)
deriving DecidableEq

/-- Bytes a worker may hold at a stage. -/
def maxBufferedBytesPerStage : Nat := 16 * 2 ^ 20

/-- `bufferedRecordBytes`. -/
def bufferedRecordBytes (record : Record) : Nat :=
  record.key.length + record.value.length + 64 +
    (record.headers.map fun header => header.1.length + header.2.length).sum

/-- `destinationWorker`, with the records that its client holds until their callback
is called.  The last four fields are not in the source: the records that entered the
queue, those whose callback reported success or an error of the broker, and those that
were lost because the worker was stopped. -/
structure Worker (δ : Type) where
  dest : δ
  queue : List Record
  queuedBytes : Nat
  stopped : Bool
  done : Bool
  buffered : Multiset Record
  closed : Bool
  accepted : Multiset Record
  delivered : Multiset Record
  failed : Multiset Record
  abandoned : Multiset Record

/-- A worker as `load` builds it. -/
def Worker.new (dest : δ) : Worker δ := ⟨dest, [], 0, false, false, 0, false, 0, 0, 0, 0⟩

/-- `enqueue`, of one record. -/
def Worker.enqueue (queueSize : Nat) (record : Record) (w : Worker δ) : Worker δ :=
  if w.stopped then w
  else if maxBufferedBytesPerStage < w.queuedBytes + bufferedRecordBytes record then w
  else if w.queue.length < queueSize then
    { w with
      queue := w.queue ++ [record]
      queuedBytes := w.queuedBytes + bufferedRecordBytes record
      accepted := record ::ₘ w.accepted }
  else w

/-- `run` takes a record from the queue and calls `Produce`. -/
def Worker.produce (w : Worker δ) : Option (Worker δ) :=
  match w.done, w.queue with
  | false, record :: queue =>
    some { w with
      queue := queue
      queuedBytes := w.queuedBytes - bufferedRecordBytes record
      buffered := record ::ₘ w.buffered }
  | _, _ => none

/-- The callback of `Produce`, with or without an error. -/
def Worker.onDone (record : Record) (ok : Bool) (w : Worker δ) : Option (Worker δ) :=
  if record ∈ w.buffered then
    some { w with
      buffered := w.buffered.erase record
      delivered := if ok then record ::ₘ w.delivered else w.delivered
      failed := if ok then w.failed else record ::ₘ w.failed }
  else none

/-- `run` sees that `quit` is closed. -/
def Worker.quit (w : Worker δ) : Option (Worker δ) :=
  if w.stopped ∧ w.done = false then
    some { w with queue := [], queuedBytes := 0, done := true, abandoned := w.abandoned + w.queue }
  else none

/-- `stop` closes the client when `run` has returned; the client fails what it holds. -/
def Worker.close (w : Worker δ) : Option (Worker δ) :=
  if w.stopped ∧ w.done ∧ w.closed = false then
    some { w with buffered := 0, closed := true, abandoned := w.abandoned + w.buffered }
  else none

/-- The destinations of a cluster.  `workers` are all that were ever built,
`snapshots` what the producers hold. -/
structure State (δ : Type) where
  workers : List (Worker δ)
  published : List Nat
  generation : Nat
  /-- the generation that the refresh under way started with -/
  loading : Option Nat
  /-- what `loadWorkers` returned; `none` is an error -/
  loaded : Option (Option (List Nat))
  /-- the workers that `stopWorkers` was called with -/
  stopping : List Nat
  snapshots : Nat → List Nat

/-- No workers. -/
def init : State δ := ⟨[], [], 0, none, none, [], fun _ => []⟩

/-- `startRefreshLocked`. -/
def startRefresh (s : State δ) : State δ :=
  if s.loading.isSome then s else { s with loading := some s.generation }

/-- `load`. -/
def load (dests : List δ) (ok : Bool) (s : State δ) : State δ :=
  if ok then
    { s with
      workers := s.workers ++ dests.map Worker.new
      loaded := some (some (range' s.workers.length dests.length)) }
  else { s with loaded := some none }

/-- `finishRefresh`. -/
def finishRefresh (s : State δ) (generation : Nat) (workers : Option (List Nat)) : State δ :=
  let idle := { s with loading := none, loaded := none }
  if s.generation ≠ generation then
    startRefresh { idle with stopping := s.stopping ++ workers.getD [] }
  else
    match workers with
    | none => idle
    | some workers => { idle with published := workers, stopping := s.stopping ++ s.published }

/-- A step of the worker `i`. -/
def onWorker (s : State δ) (i : Nat) (f : Worker δ → Option (Worker δ)) : Option (State δ) :=
  (s.workers[i]?.bind f).map fun w => { s with workers := s.workers.set i w }

/-- The steps of producers, workers and refreshes. -/
inductive Action
  /-- a producer gets the workers; they may have expired -/
  | workersFor (producer : Nat) (expired : Bool)
  | invalidate
  | load (ok : Bool)
  | finishRefresh
  | enqueue (producer i : Nat) (record : Record)
  | produce (i : Nat)
  | onDone (i : Nat) (record : Record) (ok : Bool)
  | stop (i : Nat)
  | quit (i : Nat)
  | close (i : Nat)

/-- One step of the dispatcher, a producer or a worker. -/
def step (queueSize : Nat) (dests : List δ) (s : State δ) : Action → Option (State δ)
  | .workersFor producer expired =>
    let s' := if expired then startRefresh s else s
    some { s' with
      snapshots := fun p => if p = producer then s.published else s.snapshots p }
  | .invalidate => some (startRefresh { s with generation := s.generation + 1 })
  | .load ok => if s.loading.isSome ∧ s.loaded = none then some (load dests ok s) else none
  | .finishRefresh =>
    match s.loading, s.loaded with
    | some generation, some workers => some (finishRefresh s generation workers)
    | _, _ => none
  | .enqueue producer i record =>
    if i ∈ s.snapshots producer then onWorker s i fun w => some (w.enqueue queueSize record)
    else none
  | .produce i => onWorker s i Worker.produce
  | .onDone i record ok => onWorker s i (Worker.onDone record ok)
  | .stop i =>
    if i ∈ s.stopping then onWorker s i fun w => some { w with stopped := true } else none
  | .quit i => onWorker s i Worker.quit
  | .close i => onWorker s i Worker.close

/-- Every accepted record is in one place. -/
def Worker.Whole (w : Worker δ) : Prop :=
  w.accepted = w.queue + w.buffered + w.delivered + w.failed + w.abandoned

/-- A step in which a worker that was stopped abandons a record: from its queue, or out
of its client. -/
def Abandons (a : Action) (i : Nat) (record : Record) (w : Worker δ) : Prop :=
  w.stopped ∧ (a = .quit i ∧ record ∈ w.queue ∨ a = .close i ∧ record ∈ w.buffered)

/-- What a step may do to the worker `i`. -/
structure Turn (s : State δ) (a : Action) (i : Nat) (w w' : Worker δ) : Prop where
  whole : w.Whole → w'.Whole
  stopped : w'.stopped → w.stopped ∨ i ∈ s.stopping
  abandoned : ∀ record ∈ w'.abandoned, record ∈ w.abandoned ∨ Abandons a i record w

variable {queueSize : Nat} {dests : List δ} {s t : State δ} {a : Action} {w w' : Worker δ} {i : Nat}

/-- A record is queued, or refused. -/
theorem turn_enqueue {record : Record} : Turn s a i w (w.enqueue queueSize record) := by
  unfold Worker.enqueue
  split_ifs
  · exact ⟨id, .inl, fun _ => .inl⟩
  · exact ⟨id, .inl, fun _ => .inl⟩
  · refine ⟨fun h => ?_, .inl, fun _ => .inl⟩
    have hadded : (↑(w.queue ++ [record]) : Multiset Record) = record ::ₘ ↑w.queue := by
      rw [← Multiset.coe_add, Multiset.add_comm]
      rfl
    simp only [Worker.Whole, hadded, Multiset.cons_add] at h ⊢
    rw [h]
  · exact ⟨id, .inl, fun _ => .inl⟩

/-- The worker takes it. -/
theorem turn_produce (h : w.produce = some w') : Turn s a i w w' := by
  unfold Worker.produce at h
  split at h
  · next record queue hdone hqueue =>
    cases h
    refine ⟨fun hw => ?_, .inl, fun _ => .inl⟩
    rw [Worker.Whole, hqueue, ← Multiset.cons_coe] at hw
    simpa only [Worker.Whole, Multiset.add_cons, Multiset.cons_add] using hw
  · cases h

/-- It is delivered, or fails. -/
theorem turn_onDone {record : Record} {ok : Bool} (h : w.onDone record ok = some w') :
    Turn s a i w w' := by
  obtain ⟨hmem, h⟩ := Option.ite_none_right_eq_some.mp h
  cases h
  refine ⟨fun hw => ?_, .inl, fun _ => .inl⟩
  rw [Worker.Whole, ← Multiset.cons_erase hmem] at hw
  cases ok <;> simpa [Worker.Whole, Multiset.add_cons, Multiset.cons_add] using hw

/-- The worker is stopped, and abandons its queue. -/
theorem turn_quit (h : w.quit = some w') : Turn s (.quit i) i w w' := by
  obtain ⟨⟨hstopped, -⟩, h⟩ := Option.ite_none_right_eq_some.mp h
  cases h
  refine ⟨fun hw => ?_, .inl, fun record hrecord => ?_⟩
  · dsimp only [Worker.Whole] at hw ⊢
    rw [hw, Multiset.coe_nil, zero_add]
    ac_rfl
  · exact (Multiset.mem_add.mp hrecord).imp_right fun hqueue => ⟨hstopped, .inl ⟨rfl, hqueue⟩⟩

/-- Its client is closed, and abandons what it holds. -/
theorem turn_close (h : w.close = some w') : Turn s (.close i) i w w' := by
  obtain ⟨⟨hstopped, -⟩, h⟩ := Option.ite_none_right_eq_some.mp h
  cases h
  refine ⟨fun hw => ?_, .inl, fun record hrecord => ?_⟩
  · dsimp only [Worker.Whole] at hw ⊢
    rw [hw, add_zero]
    ac_rfl
  · exact (Multiset.mem_add.mp hrecord).imp_right fun hheld => ⟨hstopped, .inr ⟨rfl, hheld⟩⟩

/-- **What holds in every state**: the workers that are to be stopped are neither
published nor will they be, and no others are stopped. -/
structure Separate (s : State δ) : Prop where
  loaded : ∀ i ∈ s.loaded.join.getD [],
    i < s.workers.length ∧ i ∉ s.published ∧ i ∉ s.stopping
  published : ∀ i ∈ s.published, i < s.workers.length ∧ i ∉ s.stopping
  stopping : ∀ i ∈ s.stopping, i < s.workers.length
  stopped : ∀ i w, s.workers[i]? = some w → w.stopped → i ∈ s.stopping
  whole : ∀ w ∈ s.workers, w.Whole

/-- **What a step does to the workers**: it builds some, or one takes a turn. -/
inductive Effect (s : State δ) (a : Action) (t : State δ) : Prop
  | built (dests : List δ) (workers : t.workers = s.workers ++ dests.map Worker.new)
      (separate : Separate t)
  | turn (i : Nat) (w w' : Worker δ) (old : s.workers[i]? = some w)
      (new : t = { s with workers := s.workers.set i w' }) (turn : Turn s a i w w')

/-- One worker takes its turn. -/
theorem effect_onWorker {f : Worker δ → Option (Worker δ)} (h : onWorker s i f = some t)
    (hf : ∀ w w', f w = some w' → Turn s a i w w') : Effect s a t := by
  obtain ⟨w', hw', rfl⟩ := Option.map_eq_some_iff.mp h
  obtain ⟨w, hw, hturn⟩ := Option.bind_eq_some_iff.mp hw'
  exact .turn i w w' hw rfl (hf w w' hturn)

/-- A refresh begins by loading. -/
theorem startRefresh_eq (s : State δ) :
    ∃ loading, startRefresh s = { s with loading := loading } := by
  unfold startRefresh
  split
  · exact ⟨s.loading, rfl⟩
  · exact ⟨some s.generation, rfl⟩

/-- A worker is an old one or as it was built. -/
theorem getElem?_append_new {workers : List (Worker δ)}
    (hw : (workers ++ dests.map Worker.new)[i]? = some w) :
    workers[i]? = some w ∨ ∃ dest, w = Worker.new dest := by
  rw [getElem?_append] at hw
  split at hw
  · exact .inl hw
  · obtain ⟨dest, -, rfl⟩ := mem_map.mp (mem_of_getElem? hw)
    exact .inr ⟨dest, rfl⟩

/-- The workers of a load are new. -/
theorem separate_load (h : Separate s) (ok : Bool) : Separate (load dests ok s) := by
  cases ok with
  | false => exact { h with loaded := nofun }
  | true =>
    have hlength : (s.workers ++ dests.map Worker.new).length =
        s.workers.length + dests.length := by simp
    refine ⟨fun i hi => ?_, fun i hi => ?_, fun i hi => ?_, fun i w hw hstopped => ?_,
      fun w hw => ?_⟩
    · obtain ⟨hlow, hhigh⟩ := mem_range'_1.mp hi
      exact ⟨hlength ▸ hhigh, fun hold => absurd (h.published i hold).1 (by omega),
        fun hold => absurd (h.stopping i hold) (by omega)⟩
    · obtain ⟨hlt, hnot⟩ := h.published i hi
      exact ⟨hlength ▸ by omega, hnot⟩
    · have hlt := h.stopping i hi
      exact hlength ▸ by omega
    · rcases getElem?_append_new hw with hold | hnew
      · exact h.stopped i w hold hstopped
      · obtain ⟨dest, rfl⟩ := hnew
        cases hstopped
    · obtain hw | hw := mem_append.mp hw
      · exact h.whole w hw
      · obtain ⟨dest, -, rfl⟩ := mem_map.mp hw
        rfl

/-- What is published are the workers of the load, what is stopped those before. -/
theorem separate_finishRefresh {generation : Nat} {workers : Option (List Nat)} (h : Separate s)
    (hloaded : s.loaded = some workers) :
    (finishRefresh s generation workers).workers = s.workers ∧
      Separate (finishRefresh s generation workers) := by
  have hnew := h.loaded
  rw [hloaded] at hnew
  unfold finishRefresh
  dsimp only
  split
  · -- the load is out of date: its workers are stopped
    obtain ⟨loading, hloading⟩ := startRefresh_eq { s with
      loading := none, loaded := none, stopping := s.stopping ++ workers.getD [] }
    rw [hloading]
    refine ⟨rfl, nofun, fun i hi => ?_, fun i hi => ?_, fun i w hw hstopped => ?_, h.whole⟩
    · refine ⟨(h.published i hi).1, fun hstop => ?_⟩
      obtain hstop | hstop := mem_append.mp hstop
      · exact (h.published i hi).2 hstop
      · exact (hnew i hstop).2.1 hi
    · exact (mem_append.mp hi).elim (h.stopping i) fun hi => (hnew i hi).1
    · exact mem_append_left _ (h.stopped i w hw hstopped)
  · cases workers with
    | none => exact ⟨rfl, { h with loaded := nofun }⟩
    | some workers =>
      refine ⟨rfl, nofun, fun i hi => ?_, fun i hi => ?_, fun i w hw hstopped => ?_, h.whole⟩
      · refine ⟨(hnew i hi).1, fun hstop => ?_⟩
        exact (mem_append.mp hstop).elim (hnew i hi).2.2 (hnew i hi).2.1
      · exact (mem_append.mp hi).elim (h.stopping i) fun hi => (h.published i hi).1
      · exact mem_append_left _ (h.stopped i w hw hstopped)

/-- **What a step does.** -/
theorem step_effect (hs : Separate s) (h : step queueSize dests s a = some t) :
    Effect s a t := by
  cases a with
  | workersFor producer expired =>
    cases h
    obtain ⟨loading, hloading⟩ := startRefresh_eq s
    refine .built [] ?_ ?_
    · cases expired <;> simp [hloading]
    · cases expired
      · exact { hs with }
      · simp only [if_true, hloading]
        exact { hs with }
  | invalidate =>
    cases h
    obtain ⟨loading, hloading⟩ := startRefresh_eq { s with generation := s.generation + 1 }
    rw [hloading]
    exact .built [] (by simp) { hs with }
  | load ok =>
    obtain ⟨-, h⟩ := Option.ite_none_right_eq_some.mp h
    cases h
    refine .built (if ok then dests else []) ?_ (separate_load hs ok)
    cases ok with
    | false => exact (append_nil _).symm
    | true => rfl
  | finishRefresh =>
    simp only [step] at h
    split at h
    · next generation workers _ hloaded =>
      cases h
      obtain ⟨hworkers, hseparate⟩ := @separate_finishRefresh _ _ generation _ hs hloaded
      exact .built [] (by simp [hworkers]) hseparate
    · cases h
  | enqueue producer i record =>
    obtain ⟨-, h⟩ := Option.ite_none_right_eq_some.mp h
    refine effect_onWorker h fun w w' hw' => ?_
    cases hw'
    exact turn_enqueue
  | produce i => exact effect_onWorker h fun _ _ => turn_produce
  | onDone i record ok => exact effect_onWorker h fun _ _ => turn_onDone
  | stop i =>
    obtain ⟨hmem, h⟩ := Option.ite_none_right_eq_some.mp h
    refine effect_onWorker h fun w w' hw' => ?_
    cases hw'
    exact ⟨id, fun _ => .inr hmem, fun _ => .inl⟩
  | quit i => exact effect_onWorker h fun _ _ => turn_quit
  | close i => exact effect_onWorker h fun _ _ => turn_close

/-- Workers keep their own records. -/
theorem separate_step (s : State δ) (a : Action) (t : State δ) (hs : Separate s)
    (h : step queueSize dests s a = some t) : Separate t := by
  cases step_effect hs h with
  | built dests hworkers hseparate => exact hseparate
  | turn i w w' hi hnew hturn =>
    subst hnew
    have hlength : (s.workers.set i w').length = s.workers.length := length_set
    refine ⟨fun j hj => hlength ▸ hs.loaded j hj, fun j hj => hlength ▸ hs.published j hj,
      fun j hj => hlength ▸ hs.stopping j hj, fun j x hx hstopped => ?_, fun x hx => ?_⟩
    · by_cases hj : i = j
      · subst hj
        rw [getElem?_set_self (List.getElem?_eq_some_iff.mp hi).1] at hx
        cases hx
        exact (hturn.stopped hstopped).elim (hs.stopped i w hi) id
      · rw [getElem?_set_ne hj] at hx
        exact hs.stopped j x hx hstopped
    · obtain hx | rfl := mem_or_eq_of_mem_set hx
      · exact hs.whole x hx
      · exact hturn.whole (hs.whole w (mem_of_getElem? hi))

/-- There are none. -/
theorem separate_init : Separate (init : State δ) :=
  ⟨nofun, nofun, nofun, nofun, nofun⟩

/-- A record that a step adds to the abandoned ones of a worker. -/
theorem abandons_step {record : Record} (hs : Separate s)
    (h : step queueSize dests s a = some t)
    (hbefore : ¬ ∃ w, s.workers[i]? = some w ∧ record ∈ w.abandoned)
    (hafter : ∃ w, t.workers[i]? = some w ∧ record ∈ w.abandoned) :
    ∃ w, s.workers[i]? = some w ∧ Abandons a i record w := by
  obtain ⟨x, hx, hrecord⟩ := hafter
  cases step_effect hs h with
  | built dests hworkers _ =>
    rw [hworkers] at hx
    rcases getElem?_append_new hx with hold | ⟨dest, rfl⟩
    · exact absurd ⟨x, hold, hrecord⟩ hbefore
    · cases hrecord
  | turn j w w' hj hnew hturn =>
    subst hnew
    by_cases hij : j = i
    · subst hij
      rw [getElem?_set_self (List.getElem?_eq_some_iff.mp hj).1] at hx
      cases hx
      exact ⟨w, hj, (hturn.abandoned record hrecord).resolve_left fun hold =>
        hbefore ⟨w, hj, hold⟩⟩
    · rw [getElem?_set_ne hij] at hx
      exact absurd ⟨x, hx, hrecord⟩ hbefore

/-- **Accepted records under refreshes.**  In every run, a record that entered the
queue of a worker is queued, held by the client, delivered, failed by the broker or
abandoned.  It is abandoned only by a worker that a refresh has replaced, when it is
still in the queue as the worker sees `quit`, or still held by the client as this is
closed. -/
theorem abandoned_only_when_replaced (queueSize : Nat) (dests : List δ) (ops : List Action)
    (s : State δ) (hrun : run (step queueSize dests) init ops = some s) :
    (∀ w ∈ s.workers,
        w.accepted = w.queue + w.buffered + w.delivered + w.failed + w.abandoned) ∧
      ∀ i w, s.workers[i]? = some w → ∀ record ∈ w.abandoned,
        ∃ before a after m v, ops = before ++ a :: after ∧
          run (step queueSize dests) init before = some m ∧ m.workers[i]? = some v ∧
          i ∈ m.stopping ∧ i ∉ m.published ∧
          (a = .quit i ∧ record ∈ v.queue ∨ a = .close i ∧ record ∈ v.buffered) := by
  refine ⟨(run_invariant separate_step separate_init hrun).whole, fun i w hw record hrecord => ?_⟩
  have hinit : ¬ ∃ w : Worker δ, (init : State δ).workers[i]? = some w ∧ record ∈ w.abandoned :=
    fun ⟨_, hw, _⟩ => nomatch hw
  obtain ⟨before, a, after, m, n, hops, hbefore, hstep, hnot, hnow⟩ :=
    run_begins (P := fun t : State δ => ∃ w, t.workers[i]? = some w ∧ record ∈ w.abandoned)
      hinit ⟨w, hw, hrecord⟩ hrun
  have hm := run_invariant separate_step separate_init hbefore
  obtain ⟨v, hv, hstopped, habandons⟩ := abandons_step hm hstep hnot hnow
  have hstopping := hm.stopped i v hv hstopped
  exact ⟨before, a, after, m, v, hops, hbefore, hv, hstopping,
    fun hpublished => (hm.published i hpublished).2 hstopping, habandons⟩

/-- A refresh replaces a worker that has a record in its queue and one in its client;
the destination is the same before and after. -/
def replacedWorker : List Action :=
  [.workersFor 0 true, .load true, .finishRefresh, .workersFor 0 false,
    .enqueue 0 0 ⟨[], lit "first", []⟩, .enqueue 0 0 ⟨[], lit "second", []⟩, .produce 0,
    .workersFor 1 true, .load true, .finishRefresh, .stop 0, .quit 0, .close 0]

/-- The record in the queue was dropped by the worker that the refresh had replaced. -/
theorem abandoned_only_when_replaced_second :
    ∃ s, run (step 8 [()]) init replacedWorker = some s ∧
      ∃ before a after m v, replacedWorker = before ++ a :: after ∧
        run (step 8 [()]) init before = some m ∧ m.workers[0]? = some v ∧
        0 ∈ m.stopping ∧ 0 ∉ m.published ∧
        (a = .quit 0 ∧ ⟨[], lit "second", []⟩ ∈ v.queue ∨
          a = .close 0 ∧ ⟨[], lit "second", []⟩ ∈ v.buffered) :=
  ⟨_, rfl, (abandoned_only_when_replaced 8 [()] replacedWorker _ rfl).2 0 _ rfl _ (by decide)⟩

/-- **The refresh drops both records.** -/
theorem refresh_drops_records :
    ∃ s, run (step 8 [()]) init replacedWorker = some s ∧
      s.workers.map Worker.abandoned =
        [⟨[], lit "second", []⟩ ::ₘ ⟨[], lit "first", []⟩ ::ₘ 0, 0] :=
  ⟨_, rfl, by decide⟩

end LogpushRefresh
