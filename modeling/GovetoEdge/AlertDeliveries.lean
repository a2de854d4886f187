import GovetoEdge.GoStrings
import GovetoEdge.Runs
import GovetoEdge.SqlTables

/-!
# Deliveries of alert notifications

The replicas of the control plane share a table of deliveries.  A replica claims
a batch by moving `next_retry_at` of its rows into the future, sends the
notifications one after the other and records for each how it went.  Nothing but
the time keeps the others away: when it has passed they may claim a row that is
still being sent.

One step is one SQL statement; what sending a notification leads to is an
argument.  `ended` and `issued` are not in the database: the deliveries whose end
some replica has recorded, and the identifiers there ever were.

* `Bounded`: no more than `deliveryMaxAttempts` attempts are recorded, whoever
  records them;
* `deliveries_final`: a delivery that is sent or has failed stays so, if no attempt
  is recorded after one that ended the delivery;
* `sent_delivery_reopened` is what happens otherwise.
-/

namespace AlertDeliveries

open GoStrings SqlTables List Runs

/-- `AlertDeliveryStatus`. -/
inductive Status
  | pending
  | sent
  | failed
deriving DecidableEq

/-- A row of `alert_deliveries`. -/
structure Delivery where
  id : GoString
  status : Status
  attempts : Nat
  nextRetryAt : Option Int
  lastError : Option GoString
  sentAt : Option Int
  updatedAt : Int
deriving DecidableEq

abbrev ReplicaId := Nat

/-- A delivery that a replica is to attempt, and the number of that attempt. -/
structure Claimed where
  id : GoString
  attempts : Nat
deriving DecidableEq

/-- The table, and the batches that replicas work on. -/
structure State where
  deliveries : List Delivery
  /-- what is left of the batch of a replica -/
  batches : ReplicaId → List Claimed
  ended : List GoString
  issued : List GoString

/-- No deliveries. -/
def init : State := ⟨[], fun _ => [], [], []⟩

def minute : Int := 60 * 10 ^ 9

/-- Attempts before a delivery fails for good. -/
def deliveryMaxAttempts : Nat := 5

/-- How long a claim keeps other replicas away. -/
def deliveryClaimWindow : Int := 3 * minute

/-- Deliveries of one claim. -/
def deliveryBatchSize : Nat := 32

/-- How long ended deliveries are kept. -/
def deliveryRetention : Int := 7 * 24 * 60 * minute

/-- `enqueueNotification`, for one channel. -/
def newDelivery (id : GoString) (now : Int) : Delivery := ⟨id, .pending, 0, none, none, none, now⟩

/-- The condition of `flushDeliveries`. -/
def Delivery.claimable (now : Int) (d : Delivery) : Prop :=
  d.status = .pending ∧ ∀ time ∈ d.nextRetryAt, time ≤ now

instance (now : Int) (d : Delivery) : Decidable (d.claimable now) := by
  unfold Delivery.claimable
  infer_instance

/-- The claim of `flushDeliveries`, of the rows that are picked. -/
def claim (s : State) (replica : ReplicaId) (ids : List GoString) (now : Int) : Option State :=
  if s.batches replica = [] ∧ ids.length ≤ deliveryBatchSize ∧ ids.Nodup ∧
      ∀ id ∈ ids, ∃ d ∈ s.deliveries, d.id = id ∧ d.claimable now then
    some { s with
      deliveries := update (fun d : Delivery => d.id ∈ ids)
        (fun d => { d with nextRetryAt := some (now + deliveryClaimWindow), updatedAt := now })
        s.deliveries
      batches := fun r =>
        if r = replica then
          (s.deliveries.filter fun d => d.id ∈ ids).map fun d => ⟨d.id, d.attempts + 1⟩
        else s.batches r }
  else none

/-- How `deliverOne` ends. -/
inductive Attempt
  | sent
  | failed (message : GoString) (permanent : Bool)
  /-- nothing is recorded: the replica is shut down, the senders are congested,
  or the statement fails -/
  | unrecorded

/-- The attempt of this number is the last one. -/
def Attempt.ends (attempts : Nat) : Attempt → Prop
  | .sent => True
  | .failed _ permanent => permanent ∨ deliveryMaxAttempts ≤ attempts
  | .unrecorded => False

instance (attempts : Nat) (attempt : Attempt) : Decidable (attempt.ends attempts) := by
  cases attempt <;> unfold Attempt.ends <;> infer_instance

/-- `backoff`. -/
def backoff (attempts : Nat) : Int := 2 ^ max attempts 1 * minute

/-- The row that `finishDelivery` leaves. -/
def Delivery.finished (d : Delivery) (attempts : Nat) (now : Int) : Attempt → Delivery
  | .sent =>
    { d with
      status := .sent, sentAt := some now, attempts := attempts, nextRetryAt := none
      lastError := none, updatedAt := now }
  | .failed message permanent =>
    if permanent ∨ deliveryMaxAttempts ≤ attempts then
      { d with
        status := .failed, nextRetryAt := none, lastError := some message
        attempts := attempts, updatedAt := now }
    else
      { d with
        status := .pending, nextRetryAt := some (now + backoff attempts)
        lastError := some message, attempts := attempts, updatedAt := now }
  | .unrecorded => d

/-- `deliverOne` and `finishDelivery`, for the next delivery of the batch: the
statement asks for nothing but the identifier. -/
def finish (s : State) (replica : ReplicaId) (attempt : Attempt) (now : Int) : Option State :=
  match s.batches replica with
  | [] => none
  | c :: rest =>
    some { s with
      deliveries := update (fun d : Delivery => d.id = c.id)
        (fun d => d.finished c.attempts now attempt) s.deliveries
      batches := fun r => if r = replica then rest else s.batches r
      ended := if attempt.ends c.attempts then c.id :: s.ended else s.ended }

/-- The statement of `sweepHistory`. -/
def sweep (s : State) (now : Int) : State :=
  { s with
    deliveries := s.deliveries.filter fun d =>
      ¬ (d.status ≠ .pending ∧ d.updatedAt < now - deliveryRetention) }

/-- The statements of replicas. -/
inductive Action
  | enqueue (id : GoString) (now : Int)
  | claim (replica : ReplicaId) (ids : List GoString) (now : Int)
  | finish (replica : ReplicaId) (attempt : Attempt) (now : Int)
  /-- the replica is gone, and what it claimed is left to the others -/
  | crash (replica : ReplicaId)
  | sweep (now : Int)

/-- One statement. -/
def step (s : State) : Action → Option State
  | .enqueue id now =>
    if id ∈ s.issued then none
    else some { s with
      deliveries := s.deliveries ++ [newDelivery id now], issued := id :: s.issued }
  | .claim replica ids now => AlertDeliveries.claim s replica ids now
  | .finish replica attempt now => AlertDeliveries.finish s replica attempt now
  | .crash replica =>
    some { s with batches := fun r => if r = replica then [] else s.batches r }
  | .sweep now => some (AlertDeliveries.sweep s now)

/-- A replica records an attempt only if none has recorded one that ended the
delivery. -/
def BeforeEnd (s : State) : Action → Prop
  | .finish _ .unrecorded _ => True
  | .finish replica _ _ => ∀ c ∈ (s.batches replica).head?, c.id ∉ s.ended
  | _ => True

instance (s : State) (a : Action) : Decidable (BeforeEnd s a) := by
  unfold BeforeEnd
  split <;> infer_instance

variable {s t : State} {a : Action} {d : Delivery}

/-- The identifier is the key of the table and of every batch. -/
structure Keyed (s : State) : Prop where
  ids : (s.deliveries.map Delivery.id).Nodup
  issued : ∀ d ∈ s.deliveries, d.id ∈ s.issued
  batches : ∀ r, ((s.batches r).map Claimed.id).Nodup

/-- The empty table is keyed. -/
theorem keyed_init : Keyed init := by
  refine ⟨?_, ?_, ?_⟩ <;> simp [init]

/-- A recorded attempt keeps the identifier. -/
theorem id_finished (d : Delivery) (n : Nat) (now : Int) (attempt : Attempt) :
    (d.finished n now attempt).id = d.id := by
  cases attempt with
  | sent | unrecorded => rfl
  | failed message permanent =>
    unfold Delivery.finished
    dsimp only
    split <;> rfl

/-- Deletions keep identifiers distinct. -/
theorem Keyed.ids_filter (h : Keyed s) (p : Delivery → Bool) :
    ((s.deliveries.filter p).map Delivery.id).Nodup :=
  h.ids.sublist (filter_sublist.map Delivery.id)

/-- So do updates. -/
theorem Keyed.ids_update (h : Keyed s) {p : Delivery → Prop} [DecidablePred p]
    {f : Delivery → Delivery} (hf : ∀ d, (f d).id = d.id) :
    ((update p f s.deliveries).map Delivery.id).Nodup := by
  rw [map_update hf]
  exact h.ids

/-- A claim takes rows that can be claimed. -/
theorem claim_eq_some {replica : ReplicaId} {ids : List GoString} {now : Int} (h : Keyed s)
    (hclaim : claim s replica ids now = some t) :
    (∀ d ∈ s.deliveries, d.id ∈ ids → d.claimable now) ∧
      t = { s with
        deliveries := update (fun d : Delivery => d.id ∈ ids)
          (fun d => { d with nextRetryAt := some (now + deliveryClaimWindow), updatedAt := now })
          s.deliveries
        batches := fun r =>
          if r = replica then
            (s.deliveries.filter fun d => d.id ∈ ids).map fun d => ⟨d.id, d.attempts + 1⟩
          else s.batches r } := by
  obtain ⟨⟨-, -, -, hids⟩, hclaim⟩ := Option.ite_none_right_eq_some.mp hclaim
  refine ⟨fun d hd hmem => ?_, (Option.some.inj hclaim).symm⟩
  obtain ⟨d', hd', hid, hclaimable⟩ := hids d.id hmem
  exact eq_of_key h.ids hd' hd hid ▸ hclaimable

/-- What a finished attempt does. -/
theorem finish_eq_some {replica : ReplicaId} {attempt : Attempt} {now : Int}
    (hfinish : finish s replica attempt now = some t) :
    ∃ c rest, s.batches replica = c :: rest ∧
      t = { s with
        deliveries := update (fun d : Delivery => d.id = c.id)
          (fun d => d.finished c.attempts now attempt) s.deliveries
        batches := fun r => if r = replica then rest else s.batches r
        ended := if attempt.ends c.attempts then c.id :: s.ended else s.ended } := by
  unfold finish at hfinish
  split at hfinish
  · cases hfinish
  · next c rest hbatch => exact ⟨c, rest, hbatch, (Option.some.inj hfinish).symm⟩

/-- Every step keeps the table keyed. -/
theorem keyed_step (h : Keyed s) (hstep : step s a = some t) : Keyed t := by
  cases a with
  | enqueue id now =>
    obtain ⟨hnew, hstep⟩ := Option.ite_none_left_eq_some.mp hstep
    cases hstep
    refine ⟨?_, ?_, h.batches⟩
    · have hfresh : id ∉ s.deliveries.map Delivery.id := by
        rintro hmem
        obtain ⟨d, hd, rfl⟩ := mem_map.mp hmem
        exact hnew (h.issued d hd)
      rw [map_append, map_singleton, ← concat_eq_append]
      exact h.ids.concat hfresh
    · exact forall_mem_append.mpr
        ⟨fun d hd => mem_cons_of_mem _ (h.issued d hd), by simp [newDelivery]⟩
  | claim replica ids now =>
    obtain ⟨-, rfl⟩ := claim_eq_some h hstep
    refine ⟨h.ids_update fun _ => rfl, forall_update h.issued fun d hd _ => h.issued d hd,
      fun r => ?_⟩
    dsimp only
    split
    · rw [map_map]
      exact h.ids_filter _
    · exact h.batches r
  | finish replica attempt now =>
    obtain ⟨c, rest, hbatch, rfl⟩ := finish_eq_some hstep
    refine ⟨h.ids_update fun d => id_finished d _ _ _, forall_update h.issued fun d hd _ => ?_,
      fun r => ?_⟩
    · rw [id_finished]
      exact h.issued d hd
    · dsimp only
      split
      · have hnodup := h.batches replica
        rw [hbatch] at hnodup
        exact (nodup_cons.mp hnodup).2
      · exact h.batches r
  | crash replica =>
    cases hstep
    refine ⟨h.ids, h.issued, fun r => ?_⟩
    dsimp only
    split
    · exact nodup_nil
    · exact h.batches r
  | sweep now =>
    cases hstep
    exact ⟨h.ids_filter _, fun d hd => h.issued d (mem_filter.mp hd).1,
      h.batches⟩

/-- No more attempts than allowed, in rows and in claims. -/
structure Bounded (s : State) : Prop where
  rows : ∀ d ∈ s.deliveries, d.attempts ≤ deliveryMaxAttempts
  pending : ∀ d ∈ s.deliveries, d.status = .pending → d.attempts < deliveryMaxAttempts
  claimed : ∀ r, ∀ c ∈ s.batches r, c.attempts ≤ deliveryMaxAttempts

/-- The empty table. -/
theorem bounded_init : Bounded init := by
  refine ⟨?_, ?_, ?_⟩ <;> simp [init]

/-- What is recorded for an attempt is within the bound, and below it if there is
to be another one. -/
theorem bounded_finished {n : Nat} (now : Int) (attempt : Attempt) (hn : n ≤ deliveryMaxAttempts)
    (hd : d.attempts ≤ deliveryMaxAttempts)
    (hpending : d.status = .pending → d.attempts < deliveryMaxAttempts) :
    (d.finished n now attempt).attempts ≤ deliveryMaxAttempts ∧
      ((d.finished n now attempt).status = .pending →
        (d.finished n now attempt).attempts < deliveryMaxAttempts) := by
  cases attempt with
  | sent => exact ⟨hn, by rintro ⟨⟩⟩
  | failed message permanent =>
    unfold Delivery.finished
    dsimp only
    split
    · exact ⟨hn, by rintro ⟨⟩⟩
    · next h => exact ⟨hn, fun _ => Nat.lt_of_not_le fun hle => h (.inr hle)⟩
  | unrecorded => exact ⟨hd, hpending⟩

/-- Every step keeps the bound. -/
theorem bounded_step (hkeyed : Keyed s) (h : Bounded s) (hstep : step s a = some t) :
    Bounded t := by
  cases a with
  | enqueue id now =>
    obtain ⟨-, hstep⟩ := Option.ite_none_left_eq_some.mp hstep
    cases hstep
    exact ⟨forall_mem_append.mpr ⟨h.rows, by simp [newDelivery]⟩,
      forall_mem_append.mpr ⟨h.pending, by simp [newDelivery, deliveryMaxAttempts]⟩, h.claimed⟩
  | claim replica ids now =>
    obtain ⟨hclaimable, rfl⟩ := claim_eq_some hkeyed hstep
    refine ⟨forall_update h.rows fun d hd _ => h.rows d hd,
      forall_update h.pending fun d hd _ => h.pending d hd, fun r c hc => ?_⟩
    dsimp only at hc
    split at hc
    · obtain ⟨d, hd, rfl⟩ := mem_map.mp hc
      obtain ⟨hd, hmem⟩ := mem_filter.mp hd
      exact h.pending d hd (hclaimable d hd (by simpa using hmem)).1
    · exact h.claimed r c hc
  | finish replica attempt now =>
    obtain ⟨c, rest, hbatch, rfl⟩ := finish_eq_some hstep
    have hc : ∀ c' ∈ c :: rest, c'.attempts ≤ deliveryMaxAttempts := hbatch ▸ h.claimed replica
    have hrow : ∀ d ∈ s.deliveries, _ := fun d hd =>
      bounded_finished now attempt (hc c mem_cons_self) (h.rows d hd) (h.pending d hd)
    refine ⟨forall_update h.rows fun d hd _ => (hrow d hd).1,
      forall_update h.pending fun d hd _ => (hrow d hd).2, fun r c' hc' => ?_⟩
    dsimp only at hc'
    split at hc'
    · exact hc c' (mem_cons_of_mem c hc')
    · exact h.claimed r c' hc'
  | crash replica =>
    cases hstep
    refine ⟨h.rows, h.pending, fun r c hc => ?_⟩
    dsimp only at hc
    split at hc
    · cases hc
    · exact h.claimed r c hc
  | sweep now =>
    cases hstep
    exact ⟨fun d hd => h.rows d (mem_filter.mp hd).1,
      fun d hd => h.pending d (mem_filter.mp hd).1, h.claimed⟩

/-- The end of a delivery that is sent or has failed was recorded. -/
def Settled (s : State) : Prop := ∀ d ∈ s.deliveries, d.status ≠ .pending → d.id ∈ s.ended

/-- The empty table. -/
theorem settled_init : Settled init := by simp [Settled, init]

/-- A row is new, or was there before and keeps its status if that is final. -/
def Stays (s t : State) : Prop :=
  ∀ d' ∈ t.deliveries, d'.id ∉ s.issued ∨
    ∃ d ∈ s.deliveries, d.id = d'.id ∧ (d.status ≠ .pending → d'.status = d.status)

/-- Deletions change no status. -/
theorem stays_of_subset (h : ∀ d' ∈ t.deliveries, d' ∈ s.deliveries) : Stays s t :=
  fun d' hd' => .inr ⟨d', h d' hd', rfl, fun _ => rfl⟩

/-- A row becomes final by an attempt that ends the delivery. -/
theorem status_finished {n : Nat} (now : Int) {attempt : Attempt} (hends : ¬ attempt.ends n) :
    (d.finished n now attempt).status = .pending ∨ d.finished n now attempt = d := by
  cases attempt with
  | sent => exact absurd trivial hends
  | failed message permanent =>
    rw [Attempt.ends] at hends
    rw [Delivery.finished, if_neg hends]
    exact .inl rfl
  | unrecorded => exact .inr rfl

/-- **A step that is in time** leaves ended deliveries alone. -/
theorem settled_step (hkeyed : Keyed s) (h : Settled s) (hok : BeforeEnd s a)
    (hstep : step s a = some t) : Settled t ∧ Stays s t := by
  cases a with
  | enqueue id now =>
    obtain ⟨hnew, hstep⟩ := Option.ite_none_left_eq_some.mp hstep
    cases hstep
    constructor
    · refine forall_mem_append.mpr ⟨h, ?_⟩
      simp [newDelivery]
    · refine forall_mem_append.mpr ⟨stays_of_subset fun _ hd => hd, fun d' hd' => ?_⟩
      obtain rfl := mem_singleton.mp hd'
      exact .inl hnew
  | claim replica ids now =>
    obtain ⟨-, rfl⟩ := claim_eq_some hkeyed hstep
    refine ⟨forall_update h fun d hd _ => h d hd, fun d' hd' => ?_⟩
    rcases mem_update_cases hd' with ⟨d, hd, -, rfl⟩ | ⟨hd, -⟩
    · exact .inr ⟨d, hd, rfl, fun _ => rfl⟩
    · exact .inr ⟨d', hd, rfl, fun _ => rfl⟩
  | finish replica attempt now =>
    obtain ⟨c, rest, hbatch, rfl⟩ := finish_eq_some hstep
    have hkept : ∀ id ∈ s.ended,
        id ∈ if attempt.ends c.attempts then c.id :: s.ended else s.ended := by
      intro id hid
      split
      · exact mem_cons_of_mem _ hid
      · exact hid
    constructor
    · intro d' hd' hfinal
      rcases mem_update_cases hd' with ⟨d, hd, hid, rfl⟩ | ⟨hd, -⟩
      · rw [id_finished]
        by_cases hends : attempt.ends c.attempts
        · exact (if_pos hends).symm ▸ mem_cons.mpr (.inl hid)
        · obtain hpending | hsame := status_finished now hends
          · exact absurd hpending hfinal
          · exact hkept _ (h d hd (hsame ▸ hfinal))
      · exact hkept _ (h d' hd hfinal)
    · intro d' hd'
      rcases mem_update_cases hd' with ⟨d, hd, hid, rfl⟩ | ⟨hd, -⟩
      · refine .inr ⟨d, hd, (id_finished d _ _ _).symm, fun hfinal => ?_⟩
        have hended := hid ▸ h d hd hfinal
        cases attempt with
        | unrecorded => rfl
        | sent | failed => exact absurd hended (hok c (by rw [hbatch]; rfl))
      · exact .inr ⟨d', hd, rfl, fun _ => rfl⟩
  | crash replica =>
    cases hstep
    exact ⟨h, stays_of_subset fun _ hd => hd⟩
  | sweep now =>
    cases hstep
    exact ⟨fun d hd => h d (mem_filter.mp hd).1,
      stays_of_subset fun d hd => (mem_filter.mp hd).1⟩

/-- Identifiers stay issued. -/
theorem issued_step (hstep : step s a = some t) : ∀ id ∈ s.issued, id ∈ t.issued := by
  intro id hid
  cases a with
  | enqueue _ _ =>
    obtain ⟨-, hstep⟩ := Option.ite_none_left_eq_some.mp hstep
    cases hstep
    exact mem_cons_of_mem _ hid
  | claim _ _ _ =>
    obtain ⟨-, hstep⟩ := Option.ite_none_right_eq_some.mp hstep
    cases hstep
    exact hid
  | finish _ _ _ =>
    obtain ⟨_, _, -, rfl⟩ := finish_eq_some hstep
    exact hid
  | crash | sweep =>
    cases hstep
    exact hid

/-- What holds in every run. -/
theorem keyed_bounded_run {as : List Action} (hrun : run step init as = some s) :
    Keyed s ∧ Bounded s :=
  run_invariant (I := fun s => Keyed s ∧ Bounded s)
    (fun _ _ _ h hstep => ⟨keyed_step h.1 hstep, bounded_step h.1 h.2 hstep⟩)
    ⟨keyed_init, bounded_init⟩ hrun

/-- What holds in runs that meet the condition. -/
theorem settled_run {as : List Action} (hok : Along step BeforeEnd init as)
    (hrun : run step init as = some s) : Keyed s ∧ Settled s :=
  run_invariant_along (I := fun s => Keyed s ∧ Settled s)
    (fun _ _ _ h hok hstep => ⟨keyed_step h.1 hstep, (settled_step h.1 h.2 hok hstep).1⟩)
    ⟨keyed_init, settled_init⟩ hok hrun

/-- A final status is kept from a state on. -/
theorem status_kept {bs : List Action} (hkeyed : Keyed s) (hsettled : Settled s)
    (hok : Along step BeforeEnd s bs) (hrun : run step s bs = some t)
    (hd : d ∈ s.deliveries) (hfinal : d.status ≠ .pending) :
    ∀ d' ∈ t.deliveries, d'.id = d.id → d'.status = d.status := by
  let I : State → Prop := fun u => Keyed u ∧ Settled u ∧ d.id ∈ u.issued ∧
    ∀ d' ∈ u.deliveries, d'.id = d.id → d'.status = d.status
  have hstart : I s := ⟨hkeyed, hsettled, hkeyed.issued d hd, fun d' hd' hid => by
    rw [eq_of_key hkeyed.ids hd' hd hid]⟩
  have hend : I t := by
    refine run_invariant_along ?_ hstart hok hrun
    rintro u a v ⟨hkeyed, hsettled, hissued, hsame⟩ hok hstep
    obtain ⟨hsettled', hstays⟩ := settled_step hkeyed hsettled hok hstep
    refine ⟨keyed_step hkeyed hstep, hsettled', issued_step hstep _ hissued, fun d' hd' hid => ?_⟩
    rcases hstays d' hd' with hnew | ⟨e, he, heid, hkeep⟩
    · exact absurd (hid ▸ hissued) hnew
    · have hstatus := hsame e he (heid.trans hid)
      exact (hkeep (hstatus ▸ hfinal)).trans hstatus
  exact hend.2.2.2

/-- **Deliveries.**  No more attempts are recorded than are allowed.  If none is
recorded after one that ended the delivery, then a delivery that is sent or has failed
never changes its status again. -/
theorem deliveries_final (as bs : List Action) (s t : State)
    (hs : run step init as = some s) (ht : run step s bs = some t) :
    (∀ d ∈ t.deliveries, d.attempts ≤ deliveryMaxAttempts) ∧
      (Along step BeforeEnd init as → Along step BeforeEnd s bs →
        ∀ d ∈ s.deliveries, d.status = .sent ∨ d.status = .failed →
          ∀ d' ∈ t.deliveries, d'.id = d.id → d'.status = d.status) := by
  have hrun : run step init (as ++ bs) = some t := by
    rw [run_append, hs]
    exact ht
  refine ⟨(keyed_bounded_run hrun).2.rows, fun has hbs d hd hfinal => ?_⟩
  obtain ⟨hkeyed, hsettled⟩ := settled_run has hs
  refine status_kept hkeyed hsettled hbs ht hd ?_
  rcases hfinal with h | h <;> simp [h]

/-- A replica takes over when the time of another has passed; that one records a
failed attempt all the same, before the notification is sent. -/
def takenOver : List Action :=
  [.enqueue (lit "d") 0, .claim 0 [lit "d"] 0, .claim 1 [lit "d"] deliveryClaimWindow,
    .finish 0 (.failed (lit "late") false) (deliveryClaimWindow + 1),
    .finish 1 .sent (deliveryClaimWindow + 2)]

theorem deliveries_final_takenOver :
    ∃ s t, run step init takenOver = some s ∧
      run step s [.enqueue (lit "e") 0, .claim 0 [lit "e"] 1,
        .finish 0 (.failed (lit "gone") true) 2] = some t ∧
      ∀ d ∈ s.deliveries, d.status = .sent ∨ d.status = .failed →
        ∀ d' ∈ t.deliveries, d'.id = d.id → d'.status = d.status := by
  have has : Along step BeforeEnd init takenOver := by decide +kernel
  have hends : ∃ s, run step init takenOver = some s ∧
      Along step BeforeEnd s [.enqueue (lit "e") 0, .claim 0 [lit "e"] 1,
        .finish 0 (.failed (lit "gone") true) 2] ∧
      (run step s [.enqueue (lit "e") 0, .claim 0 [lit "e"] 1,
        .finish 0 (.failed (lit "gone") true) 2]).isSome := by
    apply ends_of_any
    decide +kernel
  obtain ⟨s, hs, hbs, hsome⟩ := hends
  obtain ⟨t, ht⟩ := Option.isSome_iff_exists.mp hsome
  exact ⟨s, t, hs, ht, (deliveries_final _ _ s t hs ht).2 has hbs⟩

/-- The first replica records its failed attempt after the second has sent the
notification. -/
theorem sent_delivery_reopened :
    ∃ (as bs : List Action) (s t : State), run step init as = some s ∧
      run step s bs = some t ∧
      (s.deliveries.map fun d => (d.id, d.status)) = [(lit "d", .sent)] ∧
      (t.deliveries.map fun d => (d.id, d.status)) = [(lit "d", .pending)] := by
  have hends : ∃ s, run step init [.enqueue (lit "d") 0, .claim 0 [lit "d"] 0,
      .claim 1 [lit "d"] deliveryClaimWindow, .finish 1 .sent (deliveryClaimWindow + 1)] = some s ∧
      (s.deliveries.map fun d => (d.id, d.status)) = [(lit "d", .sent)] ∧
      (run step s [.finish 0 (.failed (lit "timeout") false) (deliveryClaimWindow + 2)]).any
        fun t => (t.deliveries.map fun d => (d.id, d.status)) = [(lit "d", .pending)] := by
    apply ends_of_any
    decide +kernel
  obtain ⟨s, hs, hsent, hany⟩ := hends
  obtain ⟨t, ht, hpending⟩ := ends_of_any hany
  exact ⟨_, _, s, t, hs, ht, hsent, hpending⟩

end AlertDeliveries
