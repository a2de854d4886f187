import GovetoEdge.WriteQueue

/-!
# Every accepted write is batched once and answered once

`Inv` is the invariant of the write queue over every interleaving: the queue
is the unbatched suffix of the accepted writes, the loop that holds the
`flushing` flag is the only running one, and the writes of all batches are
exactly the ones still owed by some loop together with the ones answered.

The identities of accepted writes are `0, 1, 2, …`, hence distinct, so the
permutation in `Inv.answers` says that no write is taken or answered twice
and that none is lost.
-/

namespace WriteQueue

open List Function

variable {ρ : Type} {q q' : Queue ρ}

variable {i : Nat}

/-- Replacing entry `i` exchanges its contribution to a concatenation. -/
theorem flatMap_set_perm {α β : Type*} (f : α → List β) {l : List α} {a : α} (b : α)
    (h : l[i]? = some a) : (f a ++ (l.set i b).flatMap f).Perm (f b ++ l.flatMap f) := by
  obtain ⟨hi, rfl⟩ := List.getElem?_eq_some_iff.mp h
  have hold : l.Perm (l[i] :: l.eraseIdx i) :=
    (getElem_cons_eraseIdx_perm hi).symm
  have hnew : (l.set i b).Perm (b :: l.eraseIdx i) :=
    set_perm_cons_eraseIdx hi b
  have h1 := (hnew.flatMap_right f).append_left (f l[i])
  have h2 := (hold.flatMap_right f).append_left (f b)
  simp only [flatMap_cons] at h1 h2
  refine h1.trans (List.Perm.trans ?_ h2.symm)
  rw [← append_assoc, ← append_assoc]
  exact perm_append_comm.append_right _

/-- Replacing entry `i` by one with the same flag keeps the count. -/
theorem countP_set_same {α : Type*} {p : α → Bool} {l : List α} {a : α} (b : α) (h : l[i]? = some a)
    (hp : p b = p a) : (l.set i b).countP p = l.countP p := by
  obtain ⟨hi, rfl⟩ := List.getElem?_eq_some_iff.mp h
  rw [countP_set hi, hp]
  by_cases ha : p l[i] = true
  · have hpos : 0 < l.countP p := countP_pos_iff.mpr ⟨_, getElem_mem hi, ha⟩
    simp only [ha, if_true]
    omega
  · simp [ha]

/-- Replacing a flagged entry `i` by an unflagged one lowers the count. -/
theorem countP_set_drop {α : Type*} {p : α → Bool} {l : List α} {a b : α} (h : l[i]? = some a)
    (ha : p a = true) (hb : p b = false) : (l.set i b).countP p + 1 = l.countP p := by
  obtain ⟨hi, rfl⟩ := List.getElem?_eq_some_iff.mp h
  have hpos : 0 < l.countP p := countP_pos_iff.mpr ⟨_, getElem_mem hi, ha⟩
  rw [countP_set hi, ha, hb]
  simp only [if_true, Bool.false_eq_true, if_false]
  omega

/-- A batch respects its object and byte bounds, or is one oversized write. -/
structure Bounded (batch : List Write) : Prop where
  nonempty : batch ≠ []
  objects : batch.length ≤ writeBatchMaxObjects
  bytes : totalBytes batch ≤ writeBatchMaxBytes ∨ batch.length = 1

@[simp] theorem totalBytes_nil : totalBytes [] = 0 := rfl

@[simp] theorem totalBytes_cons (w : Write) (ws : List Write) :
    totalBytes (w :: ws) = w.compressedSize + totalBytes ws := by
  simp [totalBytes]

@[simp] theorem totalBytes_append (as bs : List Write) :
    totalBytes (as ++ bs) = totalBytes as + totalBytes bs := by
  simp [totalBytes]

/-- What the counting loop of `takeBatch` computes: a number of further
writes within the bounds, and their bytes. -/
theorem takeCount_spec (ws : List Write) (count bytes : Nat)
    (hcount : count ≤ writeBatchMaxObjects) :
    ∃ n, takeCount count bytes ws = (count + n, bytes + totalBytes (ws.take n)) ∧
      n ≤ ws.length ∧ count + n ≤ writeBatchMaxObjects ∧
      (n = 0 ∨ (count = 0 ∧ n = 1) ∨ bytes + totalBytes (ws.take n) ≤ writeBatchMaxBytes) ∧
      (count = 0 → ws ≠ [] → 0 < n) := by
  induction ws generalizing count bytes with
  | nil =>
    exact ⟨0, by simp [takeCount], by simp, by simpa using hcount, .inl rfl,
      fun _ h => absurd rfl h⟩
  | cons w rest ih =>
    unfold takeCount
    by_cases hfull : writeBatchMaxObjects ≤ count
    · refine ⟨0, by simp [hfull], by simp, by simpa using hcount, .inl rfl, ?_⟩
      intro h0
      subst h0
      cases hfull
    · by_cases hbig : 0 < count ∧ writeBatchMaxBytes < bytes + w.compressedSize
      · refine ⟨0, by simp [hfull, hbig], by simp, by simpa using hcount, .inl rfl, ?_⟩
        intro h0
        exact absurd hbig.1 (by omega)
      · obtain ⟨n, heq, hlen, hobj, hbytes, _⟩ :=
          ih (count + 1) (bytes + w.compressedSize) (by omega)
        refine ⟨n + 1, ?_, by simpa using hlen, by omega, ?_, fun _ _ => by omega⟩
        · simp only [hfull, if_false, hbig, heq, take_succ_cons, totalBytes_cons,
            Prod.mk.injEq]
          constructor <;> omega
        · right
          simp only [take_succ_cons, totalBytes_cons]
          rcases hbytes with h0 | ⟨h0, _⟩ | hle
          · subst h0
            simp only [take_zero, totalBytes_nil]
            by_cases hc : count = 0
            · exact .inl ⟨hc, trivial⟩
            · exact .inr (by omega)
          · omega
          · exact .inr (by omega)

/-- The invariant of the queue over all interleavings. -/
structure Inv (q : Queue ρ) : Prop where
  bytes : q.pendingBytes = totalBytes q.pending
  fifo : q.accepted = q.batches.flatten ++ q.pending
  ids : q.accepted.map Write.id = List.range q.nextId
  bounded : ∀ batch ∈ q.batches, Bounded batch
  oneRunning : q.loops.countP Loop.running = if q.flushing then 1 else 0
  idle : q.flushing = false → q.pending = []
  answers : (q.loops.flatMap Loop.owed ++ q.sent.map Prod.fst).Perm
    (q.batches.flatten.map Write.id)
  paired : ∀ batch results, Loop.flushed batch results ∈ q.loops →
    results.length = batch.length
  channel : ∀ id r, (id, r) ∈ q.sent ↔ q.done id = some r ∨ q.outcome id = some r
  once : ∀ id, q.done id = none ∨ q.outcome id = none
  notified : q.flushing = false → ∀ d ∈ q.drains, d ≠ Drain.waiting false

/-- The empty queue. -/
theorem init_inv : Inv (init : Queue ρ) where
  bytes := rfl
  fifo := rfl
  ids := rfl
  bounded := by simp [init]
  oneRunning := rfl
  idle := fun _ => rfl
  answers := List.Perm.refl _
  paired := by simp [init]
  channel := by simp [init]
  once := fun _ => .inl rfl
  notified := by simp [init]

/-- A program counter that owes what the loop owed. -/
theorem Inv.answers_set (hq : Inv q) {a : Loop ρ} (b : Loop ρ) (hi : q.loops[i]? = some a)
    (howed : b.owed = a.owed) :
    ((q.loops.set i b).flatMap Loop.owed ++ q.sent.map Prod.fst).Perm
      (q.batches.flatten.map Write.id) := by
  have h := flatMap_set_perm Loop.owed b hi
  rw [howed] at h
  exact (((perm_append_left_iff _).mp h).append_right _).trans hq.answers

theorem Inv.paired_set (hq : Inv q) {b : Loop ρ}
    (hpair : ∀ batch results, b = .flushed batch results → results.length = batch.length) :
    ∀ batch results, Loop.flushed batch results ∈ q.loops.set i b →
      results.length = batch.length := by
  intro batch results hmem
  rcases mem_or_eq_of_mem_set hmem with h | h
  · exact hq.paired batch results h
  · exact hpair batch results h.symm

/-- A loop that changes its program counter, but neither stops running nor
changes what it owes, keeps the invariant. -/
theorem Inv.moveLoop (hq : Inv q) {a : Loop ρ} (b : Loop ρ) (hi : q.loops[i]? = some a)
    (hrun : b.running = a.running) (howed : b.owed = a.owed)
    (hpair : ∀ batch results, b = .flushed batch results → results.length = batch.length)
    (wake : Bool) : Inv { q with batchWake := wake, loops := q.loops.set i b } where
  __ := hq
  oneRunning := by
    rw [← hq.oneRunning]
    exact countP_set_same b hi hrun
  answers := hq.answers_set b hi howed
  paired := hq.paired_set hpair

/-- Waking the drains leaves none that was not notified. -/
theorem not_waiting_of_mem_wake {ds : List Drain} :
    ∀ d ∈ ds.map Drain.wake, d ≠ Drain.waiting false := by
  intro d hd
  obtain ⟨e, _, rfl⟩ := mem_map.mp hd
  cases e <;> simp [Drain.wake]

/-- The flag is set while some loop is running. -/
theorem Inv.flushing_of_running (hq : Inv q) {a : Loop ρ} (hi : q.loops[i]? = some a)
    (ha : a.running = true) : q.flushing = true := by
  have hpos : 0 < q.loops.countP Loop.running := by
    obtain ⟨h, rfl⟩ := List.getElem?_eq_some_iff.mp hi
    exact countP_pos_iff.mpr ⟨_, getElem_mem h, ha⟩
  rw [hq.oneRunning] at hpos
  by_contra hf
  simp [Bool.not_eq_true _ ▸ hf] at hpos

/-- Clearing the flag: the running loop `i` stops, with an empty queue. -/
theorem Inv.stopLoop (hq : Inv q) {a : Loop ρ} (b : Loop ρ) (hi : q.loops[i]? = some a)
    (ha : a.running = true) (hb : b.running = false) (hempty : q.pending = [])
    (howed : b.owed = a.owed) (hpair : ∀ batch results, b ≠ .flushed batch results) :
    Inv { q.finish with loops := q.loops.set i b } where
  __ := hq
  oneRunning := by
    have hone := hq.oneRunning
    rw [hq.flushing_of_running hi ha, if_pos rfl] at hone
    have hdrop := countP_set_drop hi ha hb
    simp only [Queue.finish, Bool.false_eq_true, if_false]
    omega
  idle := fun _ => hempty
  answers := hq.answers_set b hi howed
  paired := hq.paired_set fun batch results h => absurd h (hpair batch results)
  notified := fun _ => not_waiting_of_mem_wake

/-- `step` as a relation, with the guard each transition passed. -/
inductive Step (q : Queue ρ) : Action ρ → Queue ρ → Prop
  | enqueue (size : Nat) : Step q (.enqueue size) (q.enqueueWrite size)
  | decide {i : Nat} (hi : q.loops[i]? = some .deciding) :
      Step q (.decide i)
        { q with loops := q.loops.set i (if q.immediate then .taking else .waiting) }
  | timer {i : Nat} (hi : q.loops[i]? = some .waiting) :
      Step q (.timer i) { q with loops := q.loops.set i .taking }
  | wake {i : Nat} (hi : q.loops[i]? = some .waiting) :
      Step q (.wake i) { q with batchWake := false, loops := q.loops.set i .taking }
  | take {i : Nat} (hi : q.loops[i]? = some .taking) :
      Step q (.take i) (q.takeBatch i)
  | flush {i : Nat} {batch : List Write} {results : List ρ}
      (hi : q.loops[i]? = some (.flushing batch))
      (hlen : results.length = batch.length) :
      Step q (.flush i results)
        { q with loops := q.loops.set i (.flushed batch results) }
  | settle {i : Nat} {batch : List Write} {results : List ρ}
      (hi : q.loops[i]? = some (.flushed batch results)) :
      Step q (.settle i) (q.settle i batch results)
  | deliver {i : Nat} {w : Write} {r : ρ} {left : List (Write × ρ)} {finished : Bool}
      (hi : q.loops[i]? = some (.delivering ((w, r) :: left) finished))
      (hempty : q.done w.id = none) :
      Step q (.deliver i)
        { q with
          done := update q.done w.id (some r)
          sent := q.sent ++ [(w.id, r)]
          loops := q.loops.set i (.delivering left finished) }
  | delivered {i : Nat} {finished : Bool}
      (hi : q.loops[i]? = some (.delivering [] finished)) :
      Step q (.deliver i)
        { q with loops := q.loops.set i (if finished then .returned else .deciding) }
  | receive {id : Nat} {r : ρ} (hr : q.done id = some r) :
      Step q (.receive id)
        { q with
          done := update q.done id none
          outcome := update q.outcome id (some r) }
  | drain :
      Step q .drain
        { q with
          drains := q.drains ++ [if q.flushing then .waiting false else .returned] }
  | recheck {d : Nat} (hd : q.drains[d]? = some (.waiting true)) :
      Step q (.recheck d)
        { q with
          drains := q.drains.set d (if q.flushing then .waiting false else .returned) }

/-- **What a step does.** -/
theorem Step.of_step {a : Action ρ} (h : step q a = some q') : Step q a q' := by
  cases a with
  | enqueue size =>
    cases h
    exact .enqueue size
  | drain =>
    cases h
    exact .drain
  | decide i | timer i | take i | settle i | receive i | recheck i =>
    simp only [step] at h
    split at h <;> cases h
    constructor
    assumption
  | wake i | flush i =>
    simp only [step] at h
    split at h
    · split at h <;> cases h
      constructor <;> assumption
    · cases h
  | deliver i =>
    simp only [step] at h
    split at h
    · split at h <;> cases h
      constructor <;> assumption
    · cases h
      exact .delivered ‹_›
    · cases h

/-- An accepted write joins the end of the queue; a rejected one changes
nothing. -/
theorem Inv.enqueueWrite (hq : Inv q) (size : Nat) : Inv (q.enqueueWrite size) := by
  unfold Queue.enqueueWrite
  split
  · exact hq
  · refine
      { hq with
        bytes := by simp [hq.bytes]
        fifo := by simp [hq.fifo]
        ids := by simp [hq.ids, range_succ]
        oneRunning := ?_
        idle := by simp
        answers := ?_
        paired := ?_
        notified := by simp }
    · have hone := hq.oneRunning
      cases hf : q.flushing <;> simp_all [Loop.running]
    · cases hf : q.flushing <;> simpa [hf, Loop.owed] using hq.answers
    · intro batch results hmem
      cases hf : q.flushing <;> simp [hf] at hmem <;> exact hq.paired batch results hmem

/-- `takeBatch` moves a bounded, nonempty front part of the queue into a new
batch that the calling loop owes. -/
theorem Inv.takeBatch (hq : Inv q) (hi : q.loops[i]? = some .taking) : Inv (q.takeBatch i) := by
  unfold Queue.takeBatch
  split
  case isTrue hempty =>
    exact hq.stopLoop _ hi rfl rfl hempty rfl (by simp)
  case isFalse hne =>
    obtain ⟨n, hcount, hlen, hobj, hbound, hpos⟩ :=
      takeCount_spec q.pending 0 0 (Nat.zero_le _)
    have hpos : 0 < n := hpos rfl hne
    have hsplit : totalBytes (q.pending.take n) + totalBytes (q.pending.drop n) =
        totalBytes q.pending := by
      rw [← totalBytes_append, take_append_drop]
    simp only [hcount, Nat.zero_add]
    refine
      { hq with
        bytes := by simp only [hq.bytes]; omega
        fifo := by simp [hq.fifo]
        bounded := ?_
        oneRunning := by
          rw [← hq.oneRunning]
          exact countP_set_same _ hi rfl
        idle := fun h => by simp [hq.flushing_of_running hi rfl] at h
        answers := ?_
        paired := hq.paired_set (by simp)
        notified := fun h => by simp [hq.flushing_of_running hi rfl] at h }
    · intro batch hmem
      rcases mem_append.mp hmem with h | h
      · exact hq.bounded batch h
      · obtain rfl : batch = q.pending.take n := by simpa using h
        have htake : (q.pending.take n).length = n := length_take_of_le hlen
        refine ⟨?_, by omega, ?_⟩
        · intro hnil
          rw [hnil] at htake
          simp at htake
          omega
        · rcases hbound with h | ⟨_, h⟩ | h
          · omega
          · exact .inr (by omega)
          · exact .inl (by omega)
    · -- the new batch is owed by loop `i`, which owed nothing before
      have hperm := flatMap_set_perm Loop.owed (.flushing (q.pending.take n)) hi
      simp only [Loop.owed, nil_append] at hperm
      have h1 := hperm.append_right (q.sent.map Prod.fst)
      rw [append_assoc] at h1
      refine h1.trans ((hq.answers.append_left _).trans ?_)
      simpa using perm_append_comm

@[simp] theorem Loop.running_delivering (left : List (Write × ρ)) (finished : Bool) :
    (Loop.delivering left finished).running = !finished := by
  cases finished <;> rfl

/-- Pairing the writes of a batch with their results owes the same answers. -/
theorem Loop.owed_delivering {batch : List Write} {results : List ρ}
    (hlen : results.length = batch.length) (finished : Bool) :
    (Loop.delivering (batch.zip results) finished).owed =
      (Loop.flushed batch results).owed := by
  have hfst : (batch.zip results).map Prod.fst = batch :=
    map_fst_zip (Nat.le_of_eq hlen.symm)
  calc (batch.zip results).map (fun e => e.1.id)
      = ((batch.zip results).map Prod.fst).map Write.id := by
        rw [map_map]
        rfl
    _ = batch.map Write.id := by rw [hfst]

/-- After `flushBatch` the loop owes exactly the writes of its batch, whether
or not it clears the flag. -/
theorem Inv.settle (hq : Inv q) {batch : List Write} {results : List ρ}
    (hi : q.loops[i]? = some (.flushed batch results)) : Inv (q.settle i batch results) := by
  have howed := Loop.owed_delivering (hq.paired batch results (mem_of_getElem? hi))
  unfold Queue.settle
  by_cases hempty : q.pending = []
  · simp only [hempty, decide_true, if_true]
    exact hq.stopLoop _ hi rfl rfl hempty (howed true) (by simp)
  · simp only [hempty, decide_false, Bool.false_eq_true, if_false]
    exact hq.moveLoop (.delivering (batch.zip results) false) hi rfl (howed false)
      (by simp) q.batchWake

/-- No write is owed and answered at once, or owed twice. -/
theorem Inv.answers_nodup (hq : Inv q) :
    (q.loops.flatMap Loop.owed ++ q.sent.map Prod.fst).Nodup := by
  have hids : (q.accepted.map Write.id).Nodup := hq.ids ▸ nodup_range
  rw [hq.fifo, map_append] at hids
  exact hq.answers.nodup_iff.mpr (List.Nodup.of_append_left hids)

/-- Sending one result moves one write from owed to answered. -/
theorem Inv.deliver (hq : Inv q) {w : Write} {r : ρ} {left : List (Write × ρ)} {finished : Bool}
    (hi : q.loops[i]? = some (.delivering ((w, r) :: left) finished)) :
    Inv { q with
      done := update q.done w.id (some r)
      sent := q.sent ++ [(w.id, r)]
      loops := q.loops.set i (.delivering left finished) } := by
  have howed : w.id ∈ q.loops.flatMap Loop.owed :=
    mem_flatMap.mpr ⟨_, mem_of_getElem? hi, by simp [Loop.owed]⟩
  have hunsent : ∀ r', (w.id, r') ∉ q.sent := by
    intro r' hmem
    exact disjoint_of_nodup_append hq.answers_nodup howed
      (mem_map.mpr ⟨_, hmem, rfl⟩)
  have hfresh : q.outcome w.id = none := by
    cases ho : q.outcome w.id with
    | none => rfl
    | some r' => exact absurd ((hq.channel w.id r').mpr (.inr ho)) (hunsent r')
  refine
    { hq with
      oneRunning := by
        rw [← hq.oneRunning]
        exact countP_set_same _ hi (by simp)
      answers := ?_
      paired := hq.paired_set (by simp)
      channel := ?_
      once := ?_ }
  · have hperm := flatMap_set_perm Loop.owed (.delivering left finished) hi
    have hrest : (w.id :: (q.loops.set i (.delivering left finished)).flatMap
        Loop.owed).Perm (q.loops.flatMap Loop.owed) := by
      refine (perm_append_left_iff (left.map fun e => e.1.id)).mp ?_
      exact perm_middle.trans hperm
    refine List.Perm.trans ?_ ((hrest.append_right _).trans hq.answers)
    rw [map_append, ← append_assoc]
    exact perm_append_comm
  · intro id r'
    by_cases hid : id = w.id
    · subst hid
      simp [hunsent r', hfresh, eq_comm]
    · simp [hid, hq.channel id r']
  · intro id
    by_cases hid : id = w.id
    · subst hid
      exact .inr hfresh
    · simpa [update_of_ne hid] using hq.once id

/-- `enqueueWrite` receives its result: the answer moves from the channel to
the caller. -/
theorem Inv.receive (hq : Inv q) {id : Nat} {r : ρ} (hr : q.done id = some r) :
    Inv { q with
      done := update q.done id none
      outcome := update q.outcome id (some r) } :=
  { hq with
    channel := by
      intro id' r'
      by_cases hid : id' = id
      · subst hid
        have hnone : q.outcome id' = none := by
          simpa [hr] using hq.once id'
        simp [hq.channel, hr, hnone]
      · simp [update_of_ne hid, hq.channel id' r']
    once := by
      intro id'
      by_cases hid : id' = id
      · subst hid
        exact .inl (update_self ..)
      · simpa [update_of_ne hid] using hq.once id' }

/-- Drains that start or look again while the flag is clear do not wait. -/
theorem Inv.withDrains (hq : Inv q) {drains : List Drain}
    (h : ∀ d ∈ drains, d ∈ q.drains ∨
      d = if q.flushing then .waiting false else .returned) :
    Inv { q with drains := drains } :=
  { hq with
    notified := by
      intro hf d hd
      rcases h d hd with hold | hnew
      · exact hq.notified hf d hold
      · rw [hnew]
        simp [show q.flushing = false from hf] }

/-- **Every step keeps the invariant.** -/
theorem Inv.step {a : Action ρ} (hq : Inv q) (h : step q a = some q') : Inv q' := by
  cases Step.of_step h with
  | enqueue size => exact hq.enqueueWrite size
  | decide hi =>
    refine hq.moveLoop _ hi ?_ ?_ ?_ q.batchWake
    all_goals split <;> simp [Loop.running, Loop.owed]
  | timer hi => exact hq.moveLoop .taking hi rfl rfl (by simp) q.batchWake
  | wake hi => exact hq.moveLoop .taking hi rfl rfl (by simp) false
  | take hi => exact hq.takeBatch hi
  | @flush i batch results hi hlen =>
    refine hq.moveLoop (.flushed batch results) hi rfl rfl ?_ q.batchWake
    rintro _ _ ⟨⟩
    exact hlen
  | settle hi => exact hq.settle hi
  | deliver hi _ => exact hq.deliver hi
  | @delivered i finished hi =>
    refine hq.moveLoop _ hi ?_ ?_ ?_ q.batchWake
    all_goals cases finished <;> simp [Loop.running, Loop.owed]
  | receive hr => exact hq.receive hr
  | drain =>
    refine hq.withDrains fun d hd => ?_
    simpa using hd
  | recheck hd =>
    refine hq.withDrains fun d hmem => ?_
    exact mem_or_eq_of_mem_set hmem

/-- **Every reachable queue satisfies the invariant.** -/
theorem inv_of_run {as : List (Action ρ)}
    (h : Runs.run WriteQueue.step init as = some q) : Inv q :=
  Runs.run_invariant (fun _ _ _ hs hst => hs.step hst) init_inv h

end WriteQueue
