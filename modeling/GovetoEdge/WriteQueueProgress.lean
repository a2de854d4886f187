import GovetoEdge.WriteQueueSafety

/-!
# Every accepted write is answered

A write that is queued or taken has a flush loop that will answer it: the
running loop while it is queued, the loop that took it afterwards.  The loop
does not change over the life of the write (`Serves`), always has a step it
can make (`Serves.enabled`), and each of its steps brings the answer closer
(`Serves.step`), whatever callers, other loops and drains do in between.
-/

namespace WriteQueue

open List Runs

variable {ρ : Type} {q q' : Queue ρ} {i j id : Nat}

/-- Two running loops are the same loop. -/
theorem Inv.running_unique (hq : Inv q) {a b : Loop ρ}
    (hi : q.loops[i]? = some a) (ha : a.running = true)
    (hj : q.loops[j]? = some b) (hb : b.running = true) : i = j := by
  by_contra hne
  have hone := hq.oneRunning
  rw [hq.flushing_of_running hi ha, if_pos rfl] at hone
  -- stopping loop `j` leaves loop `i` running, so the count was at least two
  have hdrop := countP_set_drop (b := Loop.returned) hj hb rfl
  have hstill : (q.loops.set j .returned)[i]? = some a := by
    rw [List.getElem?_set_ne (Ne.symm hne)]
    exact hi
  have hpos : 0 < (q.loops.set j .returned).countP Loop.running :=
    countP_pos_iff.mpr ⟨a, mem_of_getElem? hstill, ha⟩
  omega

/-- Loop `i` will answer write `id`: it owes the answer, or the write is
queued and the loop is running. -/
def Serves (q : Queue ρ) (i id : Nat) : Prop :=
  ∃ l, q.loops[i]? = some l ∧
    (id ∈ l.owed ∨ (id ∈ q.pending.map Write.id ∧ l.running = true))

/-- Answers ahead of write `id`: its place among the owed ones, or all of
those and a full turn of the loop for each write up to it in the queue. -/
def backlog (id : Nat) (owed : List Nat) (pending : List Write) : Nat :=
  if id ∈ owed then owed.idxOf id
  else owed.length + 7 * ((pending.map Write.id).idxOf id + 1)

/-- Steps from a program counter to the next `take` or to the end of the
deliveries. -/
def Loop.phase : Loop ρ → Nat
  | .deciding => 2
  | .waiting => 1
  | .taking => 0
  | .flushing _ => 5
  | .flushed _ _ => 4
  | .delivering _ _ => 3
  | .returned => 0

/-- A bound on the steps loop `i` still makes before it answers `id`. -/
def cost (id i : Nat) (q : Queue ρ) : Nat :=
  match q.loops[i]? with
  | some l => backlog id l.owed q.pending + l.phase
  | none => 0

variable {l : Loop ρ} {a : Action ρ}

/-- The cost of a loop that runs. -/
theorem cost_eq (hi : q.loops[i]? = some l) :
    cost id i q = backlog id l.owed q.pending + l.phase := by
  simp [cost, hi]

/-- Writes queued later do not move write `id` back. -/
theorem backlog_append {owed : List Nat} {pending : List Write} (w : Write)
    (h : id ∈ owed ∨ id ∈ pending.map Write.id) :
    backlog id owed (pending ++ [w]) = backlog id owed pending := by
  unfold backlog
  split
  · rfl
  · rename_i hno
    rw [map_append, idxOf_append_of_mem (h.resolve_left hno)]

/-- While the answer is owed, the queue does not matter. -/
theorem backlog_of_mem {owed : List Nat} (h : id ∈ owed) (p p' : List Write) :
    backlog id owed p = backlog id owed p' := by
  simp [backlog, h]

/-- An accepted write that was not answered is served by some loop. -/
theorem Inv.exists_serves (hq : Inv q) (hid : id ∈ q.accepted.map Write.id)
    (hsent : id ∉ q.sent.map Prod.fst) : ∃ i, Serves q i id := by
  rw [hq.fifo, map_append, mem_append] at hid
  rcases hid with hbatch | hqueue
  · have hmem := hq.answers.mem_iff.mpr hbatch
    obtain ⟨l, hl, howed⟩ :=
      mem_flatMap.mp ((mem_append.mp hmem).resolve_right hsent)
    obtain ⟨i, hi⟩ := List.getElem?_of_mem hl
    exact ⟨i, l, hi, .inl howed⟩
  · have hflush : q.flushing = true := by
      cases hf : q.flushing with
      | true => rfl
      | false => simp [hq.idle hf] at hqueue
    have hpos : 0 < q.loops.countP Loop.running := by
      rw [hq.oneRunning, hflush]
      exact Nat.one_pos
    obtain ⟨l, hl, hrun⟩ := countP_pos_iff.mp hpos
    obtain ⟨i, hi⟩ := List.getElem?_of_mem hl
    exact ⟨i, l, hi, .inr ⟨hqueue, hrun⟩⟩

/-- A write that is still owed has not been answered. -/
theorem Inv.done_of_owed (hq : Inv q) (hl : l ∈ q.loops) (hid : id ∈ l.owed) :
    q.done id = none := by
  cases hd : q.done id with
  | none => rfl
  | some r =>
    have hsent := (hq.channel id r).mpr (.inl hd)
    exact absurd (mem_map.mpr ⟨_, hsent, rfl⟩)
      (disjoint_of_nodup_append hq.answers_nodup
        (mem_flatMap.mpr ⟨l, hl, hid⟩))

/-- **The serving loop is never stuck.** -/
theorem Serves.enabled [Inhabited ρ] (hq : Inv q) (hs : Serves q i id) :
    ∃ a : Action ρ, a.ofLoop i = true ∧ (step q a).isSome := by
  obtain ⟨l, hi, hl⟩ := hs
  cases l with
  | deciding => exact ⟨.decide i, by simp [Action.ofLoop], by simp [step, hi]⟩
  | waiting => exact ⟨.timer i, by simp [Action.ofLoop], by simp [step, hi]⟩
  | taking => exact ⟨.take i, by simp [Action.ofLoop], by simp [step, hi]⟩
  | flushing batch =>
    exact ⟨.flush i (List.replicate batch.length default), by simp [Action.ofLoop],
      by simp [step, hi]⟩
  | flushed batch results =>
    exact ⟨.settle i, by simp [Action.ofLoop], by simp [step, hi]⟩
  | delivering left finished =>
    refine ⟨.deliver i, by simp [Action.ofLoop], ?_⟩
    cases left with
    | nil => simp [step, hi]
    | cons e left =>
      have howed : e.1.id ∈ (Loop.delivering (e :: left) finished).owed := by
        simp [Loop.owed]
      have hdone := hq.done_of_owed (mem_of_getElem? hi) howed
      simp [step, hi, hdone]
  | returned => simp [Loop.owed, Loop.running] at hl

/-- The write is still served, no later than before, and sooner if the step
was one of loop `i`. -/
def Closer (q : Queue ρ) (a : Action ρ) (q' : Queue ρ) (i id : Nat) : Prop :=
  Serves q' i id ∧ cost id i q' ≤ cost id i q ∧
    (a.ofLoop i = true → cost id i q' < cost id i q)

/-- A step of another party that leaves loop `i` alone, and the queue too
unless the answer is already owed. -/
theorem Serves.frame (hi : q.loops[i]? = some l)
    (hl : id ∈ l.owed ∨ (id ∈ q.pending.map Write.id ∧ l.running = true))
    (hwork : a.ofLoop i = false) (hi' : q'.loops[i]? = some l)
    (hp : id ∈ l.owed ∨ q'.pending = q.pending) : Closer q a q' i id := by
  have hcost : cost id i q' = cost id i q := by
    rw [cost_eq hi, cost_eq hi']
    rcases hp with howed | hsame
    · rw [backlog_of_mem howed]
    · rw [hsame]
  refine ⟨⟨l, hi', ?_⟩, Nat.le_of_eq hcost, fun hw => by simp [hwork] at hw⟩
  rcases hp with howed | hsame
  · exact .inl howed
  · rwa [hsame]

theorem getElem?_set_of_some {α : Type*} {l : List α} {a : α} (b : α)
    (h : l[i]? = some a) : (l.set i b)[i]? = some b := by
  obtain ⟨hi, _⟩ := List.getElem?_eq_some_iff.mp h
  exact List.getElem?_set_self hi

/-- Some loop `j` moves on without taking or answering a write. -/
theorem Serves.move {b : Loop ρ} (hs : Serves q i id) (hj : q.loops[j]? = some l)
    (hwork : a.ofLoop i = (i == j)) (hloops : q'.loops = q.loops.set j b)
    (hp : q'.pending = q.pending) (howed : b.owed = l.owed) (hphase : b.phase < l.phase)
    (hrun : id ∈ q.pending.map Write.id → l.running = true → b.running = true) :
    Closer q a q' i id := by
  obtain ⟨m, hi, hm⟩ := hs
  by_cases hij : i = j
  · subst hij
    obtain rfl : l = m := Option.some.inj (hj.symm.trans hi)
    have hi' : q'.loops[i]? = some b := by
      rw [hloops]
      exact getElem?_set_of_some b hi
    have hcost : cost id i q' < cost id i q := by
      rw [cost_eq hi, cost_eq hi', howed, hp]
      omega
    refine ⟨⟨b, hi', ?_⟩, Nat.le_of_lt hcost, fun _ => hcost⟩
    rw [howed, hp]
    exact hm.imp_right fun h => ⟨h.1, hrun h.1 h.2⟩
  · refine Serves.frame hi hm (by rw [hwork]; simpa using hij) ?_ (.inr hp)
    rw [hloops, List.getElem?_set_ne (Ne.symm hij)]
    exact hi

/-- Taking a batch: the write is in it, or moves up by the batch's length. -/
theorem backlog_take {pending : List Write} {n : Nat} (hn : 0 < n)
    (hid : id ∈ pending.map Write.id) :
    (id ∈ (pending.take n).map Write.id ∨ id ∈ (pending.drop n).map Write.id) ∧
      backlog id ((pending.take n).map Write.id) (pending.drop n) + 5 <
        backlog id [] pending := by
  have hsplit : pending.map Write.id =
      (pending.take n).map Write.id ++ (pending.drop n).map Write.id := by
    rw [← map_append, take_append_drop]
  have hmem := hid
  rw [hsplit, mem_append] at hmem
  refine ⟨hmem, ?_⟩
  by_cases hfront : id ∈ (pending.take n).map Write.id
  · have hidx : (pending.map Write.id).idxOf id =
        ((pending.take n).map Write.id).idxOf id := by
      rw [hsplit, idxOf_append_of_mem hfront]
    simp only [backlog, hfront, if_true, not_mem_nil, if_false, hidx,
      length_nil]
    omega
  · have hidx : (pending.map Write.id).idxOf id =
        ((pending.take n).map Write.id).length +
          ((pending.drop n).map Write.id).idxOf id := by
      rw [hsplit]
      exact idxOf_append_of_notMem hfront
    have hlen : 0 < ((pending.take n).map Write.id).length := by
      cases pending with
      | nil => simp at hid
      | cons w rest =>
        simp only [length_map, length_take, length_cons]
        omega
    simp only [backlog, hfront, if_false, not_mem_nil, hidx, length_nil]
    omega

/-- `takeBatch` by loop `j`: the serving loop itself takes the write or comes
closer to it; another loop takes a batch only when the write is already owed. -/
theorem Serves.takeBatch (hq : Inv q) (hs : Serves q i id)
    (hj : q.loops[j]? = some .taking) :
    Closer q (.take j) (q.takeBatch j) i id := by
  obtain ⟨l, hi, hl⟩ := hs
  by_cases hij : i = j
  · subst hij
    obtain rfl : l = .taking := Option.some.inj (hi.symm.trans hj)
    have hid : id ∈ q.pending.map Write.id := by simpa [Loop.owed, Loop.running] using hl
    have hne : q.pending ≠ [] := by
      intro hnil
      simp [hnil] at hid
    obtain ⟨n, hcount, _, _, _, hpos⟩ := takeCount_spec q.pending 0 0 (Nat.zero_le _)
    have hloop : (q.takeBatch i).loops[i]? = some (.flushing (q.pending.take n)) := by
      simp only [Queue.takeBatch, if_neg hne, hcount, Nat.zero_add]
      exact getElem?_set_of_some _ hi
    have hpend : (q.takeBatch i).pending = q.pending.drop n := by
      simp only [Queue.takeBatch, if_neg hne, hcount, Nat.zero_add]
    obtain ⟨hwhere, hless⟩ := backlog_take (hpos rfl hne) hid
    have hcost : cost id i (q.takeBatch i) < cost id i q := by
      rw [cost_eq hi, cost_eq hloop, hpend]
      simpa [Loop.owed, Loop.phase] using hless
    refine ⟨⟨_, hloop, ?_⟩, Nat.le_of_lt hcost, fun _ => hcost⟩
    rw [hpend]
    exact hwhere.imp_right fun h => ⟨h, rfl⟩
  · have howed : id ∈ l.owed := by
      rcases hl with h | ⟨_, hrun⟩
      · exact h
      · exact absurd (hq.running_unique hi hrun hj rfl) hij
    refine Serves.frame hi hl (by simp [Action.ofLoop, hij]) ?_ (.inl howed)
    unfold Queue.takeBatch
    split <;> exact (List.getElem?_set_ne (Ne.symm hij)).trans hi

/-- Sending one result: it is the answer to the write, or brings it closer. -/
theorem Serves.deliver {w : Write} {r : ρ} {left : List (Write × ρ)} {finished : Bool}
    (hs : Serves q i id)
    (hj : q.loops[j]? = some (.delivering ((w, r) :: left) finished))
    (hloops : q'.loops = q.loops.set j (.delivering left finished))
    (hp : q'.pending = q.pending) (hsent : q'.sent = q.sent ++ [(w.id, r)]) :
    id ∈ q'.sent.map Prod.fst ∨ Closer q (.deliver j) q' i id := by
  obtain ⟨l, hi, hl⟩ := hs
  by_cases hij : i = j
  · subst hij
    obtain rfl : l = .delivering ((w, r) :: left) finished :=
      Option.some.inj (hi.symm.trans hj)
    by_cases hid : id = w.id
    · exact .inl (by simp [hsent, hid])
    · right
      have hi' : q'.loops[i]? = some (.delivering left finished) := by
        rw [hloops]
        exact getElem?_set_of_some _ hi
      have hcost : cost id i q' < cost id i q := by
        have hne : w.id ≠ id := fun h => hid h.symm
        rw [cost_eq hi, cost_eq hi', hp]
        by_cases hmem : id ∈ left.map fun e => e.1.id
        · simp only [Loop.owed, Loop.phase, backlog, map_cons, mem_cons, hmem,
            or_true, if_true, idxOf_cons_ne _ hne]
          omega
        · simp only [Loop.owed, Loop.phase, backlog, map_cons, mem_cons, hmem, hid,
            or_self, if_false, length_cons]
          omega
      refine ⟨⟨_, hi', ?_⟩, Nat.le_of_lt hcost, fun _ => hcost⟩
      rw [hp]
      simpa [Loop.owed, hid] using hl
  · right
    refine Serves.frame hi hl (by simp [Action.ofLoop, hij]) ?_ (.inr hp)
    rw [hloops, List.getElem?_set_ne (Ne.symm hij)]
    exact hi

/-- A new write joins the queue behind the served one. -/
theorem Serves.enqueueWrite (hs : Serves q i id) (size : Nat) :
    Closer q (.enqueue size) (q.enqueueWrite size) i id := by
  obtain ⟨l, hi, hl⟩ := hs
  unfold Queue.enqueueWrite
  split
  · exact Serves.frame hi hl rfl hi (.inr rfl)
  · have hi' : (if q.flushing then q.loops else q.loops ++ [.deciding])[i]? =
        some l := by
      split
      · exact hi
      · obtain ⟨hlt, _⟩ := List.getElem?_eq_some_iff.mp hi
        rw [List.getElem?_append_left hlt]
        exact hi
    refine ⟨⟨l, hi', hl.imp_right fun h => ⟨by simp [h.1], h.2⟩⟩, ?_,
      fun hw => by simp [Action.ofLoop] at hw⟩
    rw [cost_eq hi]
    refine Nat.le_of_eq ((cost_eq hi').trans ?_)
    exact congrArg (· + l.phase) (backlog_append ⟨q.nextId, size⟩ (hl.imp_right And.left))

/-- **The serving loop answers or comes closer with each of its steps**, and
no other step sets it back. -/
theorem Serves.step (hq : Inv q) (hs : Serves q i id) (h : step q a = some q') :
    id ∈ q'.sent.map Prod.fst ∨ Closer q a q' i id := by
  cases Step.of_step h with
  | enqueue size => exact .inr (hs.enqueueWrite size)
  | decide hj =>
    refine .inr (hs.move hj rfl rfl rfl ?_ ?_ ?_)
    all_goals split <;> simp [Loop.owed, Loop.phase, Loop.running]
  | timer hj | wake hj => exact .inr (hs.move hj rfl rfl rfl rfl Nat.one_pos fun _ _ => rfl)
  | take hj => exact .inr (hs.takeBatch hq hj)
  | flush hj _ =>
    exact .inr (hs.move hj rfl rfl rfl rfl (by simp [Loop.phase]) fun _ _ => rfl)
  | @settle j batch results hj =>
    right
    have howed := Loop.owed_delivering (hq.paired _ _ (mem_of_getElem? hj))
    by_cases hempty : q.pending = []
    · refine hs.move (b := .delivering (batch.zip results) true) hj rfl ?_ ?_
        (howed true) (by simp [Loop.phase]) fun hid => by simp [hempty] at hid
      all_goals simp [Queue.settle, hempty, Queue.finish]
    · refine hs.move (b := .delivering (batch.zip results) false) hj rfl ?_ ?_
        (howed false) (by simp [Loop.phase]) fun _ _ => rfl
      all_goals simp [Queue.settle, hempty]
  | deliver hj _ => exact hs.deliver hj rfl rfl rfl
  | @delivered j finished hj =>
    refine .inr (hs.move hj rfl rfl rfl ?_ ?_ ?_)
    all_goals cases finished <;> simp [Loop.owed, Loop.phase, Loop.running]
  | receive _ | drain | recheck _ =>
    obtain ⟨l, hi, hl⟩ := hs
    exact .inr (Serves.frame hi hl rfl hi (.inr rfl))

/-- Answers are never taken back. -/
theorem sent_of_step (h : step q a = some q') (hsent : id ∈ q.sent.map Prod.fst) :
    id ∈ q'.sent.map Prod.fst := by
  cases Step.of_step h with
  | enqueue size =>
    unfold Queue.enqueueWrite
    split <;> exact hsent
  | take _ =>
    unfold Queue.takeBatch
    split <;> exact hsent
  | settle _ =>
    simp only [Queue.settle]
    split <;> exact hsent
  | deliver _ _ =>
    rw [map_append, mem_append]
    exact .inl hsent
  | _ => exact hsent

/-- **The served write is answered.**  However the parties interleave from
here, the write is answered, or its loop has made at most `cost` steps and
can make another. -/
theorem Serves.answered [Inhabited ρ] (hq : Inv q) (hs : Serves q i id)
    {as : List (Action ρ)} (hrun : run WriteQueue.step q as = some q') :
    id ∈ q'.sent.map Prod.fst ∨
      as.countP (Action.ofLoop i) ≤ cost id i q ∧
        ∃ a : Action ρ, a.ofLoop i = true ∧ (WriteQueue.step q' a).isSome := by
  let goal : Queue ρ → Prop := fun s => id ∈ s.sent.map Prod.fst
  let I : Queue ρ → Prop := fun s => Inv s ∧ (goal s ∨ Serves s i id)
  have hinv : ∀ s a t, I s → WriteQueue.step s a = some t → I t := by
    rintro s a t ⟨hs, hg | hserve⟩ hst
    · exact ⟨hs.step hst, .inl (sent_of_step hst hg)⟩
    · exact ⟨hs.step hst, (hserve.step hs hst).imp_right And.left⟩
  by_cases hgoal : goal q'
  · exact .inl hgoal
  · right
    have hI : I q' := run_invariant hinv ⟨hq, .inr hs⟩ hrun
    refine ⟨?_, (hI.2.resolve_left hgoal).enabled hI.1⟩
    by_contra hmany
    refine hgoal (run_reaches (I := I) (μ := cost id i) hinv ?_ ?_ ?_
      ⟨hq, .inr hs⟩ hrun (Nat.lt_of_not_le hmany))
    · intro s a t _ hg hst
      exact sent_of_step hst hg
    · intro s a t hIs hg hst hwork
      exact ((hIs.2.resolve_left hg).step hIs.1 hst).imp_right fun h => h.2.2 hwork
    · intro s a t hIs hg hst _
      exact ((hIs.2.resolve_left hg).step hIs.1 hst).imp_right fun h => h.2.1

theorem count_returned_wake (ds : List Drain) :
    (ds.map Drain.wake).count .returned = ds.count .returned := by
  induction ds with
  | nil => rfl
  | cons d ds ih => cases d <;> simp [Drain.wake, ih]

/-- A step on which a drain returns is one that saw the flag clear, and it
leaves the queue and the loops alone. -/
theorem flushing_of_drain_returns (h : step q a = some q')
    (hret : q.drains.count .returned < q'.drains.count .returned) :
    q.flushing = false ∧ q'.pending = q.pending ∧ q'.loops = q.loops := by
  cases Step.of_step h with
  | enqueue size =>
    unfold Queue.enqueueWrite at hret
    split at hret <;> exact absurd hret (Nat.lt_irrefl _)
  | take _ =>
    unfold Queue.takeBatch at hret
    split at hret
    · exact absurd hret (by simp [Queue.finish, count_returned_wake])
    · exact absurd hret (Nat.lt_irrefl _)
  | settle _ =>
    simp only [Queue.settle] at hret
    split at hret
    · exact absurd hret (by simp [Queue.finish, count_returned_wake])
    · exact absurd hret (Nat.lt_irrefl _)
  | drain =>
    refine ⟨?_, rfl, rfl⟩
    cases hf : q.flushing with
    | false => rfl
    | true => simp [hf] at hret
  | recheck hd =>
    refine ⟨?_, rfl, rfl⟩
    obtain ⟨hlt, hget⟩ := List.getElem?_eq_some_iff.mp hd
    cases hf : q.flushing with
    | false => rfl
    | true => simp [hf, count_set hlt, hget] at hret
  | _ => exact absurd hret (Nat.lt_irrefl _)

/-- While the flag is clear, nothing is queued and no loop is running. -/
theorem Inv.quiet (hq : Inv q) (hf : q.flushing = false) :
    q.pending = [] ∧ ∀ l ∈ q.loops, l.running = false := by
  refine ⟨hq.idle hf, fun l hl => ?_⟩
  have hnone := hq.oneRunning
  rw [hf] at hnone
  have hno := countP_eq_zero.mp hnone l hl
  simpa using hno

/-- A loop that is not running is not committing a batch. -/
theorem Loop.committing_of_not_running (h : l.running = false) : l.committing = [] := by
  cases l <;> simp_all [Loop.running, Loop.committing]

/-- What the write queue guarantees in a state. -/
structure Guarantees (q : Queue ρ) : Prop where
  /-- The accepted writes, which are distinct, are those of the batches taken
  so far and the queued ones: each stands once in one of them. -/
  batched : q.accepted = q.batches.flatten ++ q.pending ∧ q.accepted.Nodup
  /-- Only batched writes are answered, none twice, and an answer is in the
  write's channel or was returned by `enqueueWrite`, not both. -/
  answered : (∀ e ∈ q.sent, e.1 ∈ q.batches.flatten.map Write.id) ∧
    (q.sent.map Prod.fst).Nodup ∧
    (∀ id r, (id, r) ∈ q.sent ↔ q.done id = some r ∨ q.outcome id = some r) ∧
    ∀ id, q.done id = none ∨ q.outcome id = none
  /-- An accepted write has a loop that will answer it: in every continuation
  it is answered, or the loop has made a bounded number of steps and can make
  another one. -/
  answers : ∀ w ∈ q.accepted, ∃ i bound, ∀ as t, run step q as = some t →
    w.id ∈ t.sent.map Prod.fst ∨
      as.countP (Action.ofLoop i) ≤ bound ∧
        ∃ a : Action ρ, a.ofLoop i = true ∧ (step t a).isSome
  bytes : q.pendingBytes = totalBytes q.pending
  bounded : ∀ batch ∈ q.batches, batch.length ≤ writeBatchMaxObjects ∧
    (totalBytes batch ≤ writeBatchMaxBytes ∨ batch.length = 1)
  /-- At most one loop is running, namely exactly while `flushing` is set; a
  loop that cleared the flag and has not returned owes some last results. -/
  one_loop : (q.loops.countP Loop.running = if q.flushing then 1 else 0) ∧
    ∀ l ∈ q.loops, l.running = true ∨ l = .returned ∨ ∃ left, l = .delivering left true
  /-- A drain returns only when no write is queued or being flushed. -/
  drained : ∀ a t, step q a = some t →
    q.drains.count .returned < t.drains.count .returned →
    t.pending = [] ∧ ∀ l ∈ t.loops, l.running = false ∧ l.committing = []

/-- **The write queue is correct in every interleaving.** -/
theorem guarantees_of_run [Inhabited ρ] (as : List (Action ρ))
    (h : run step init as = some q) : Guarantees q := by
  have hq : Inv q := inv_of_run h
  have hids : (q.accepted.map Write.id).Nodup := hq.ids ▸ nodup_range
  refine
    { batched := ⟨hq.fifo, hids.of_map _⟩
      answered := ⟨?_, List.Nodup.of_append_right hq.answers_nodup, hq.channel, hq.once⟩
      answers := ?_
      bytes := hq.bytes
      bounded := fun batch hb => ⟨(hq.bounded batch hb).objects, (hq.bounded batch hb).bytes⟩
      one_loop := ⟨hq.oneRunning, ?_⟩
      drained := ?_ }
  · intro e he
    refine hq.answers.mem_iff.mp (mem_append_right _ ?_)
    exact mem_map.mpr ⟨e, he, rfl⟩
  · intro w hw
    by_cases hsent : w.id ∈ q.sent.map Prod.fst
    · refine ⟨0, 0, fun as t hrun => .inl ?_⟩
      exact run_invariant (I := fun s => w.id ∈ s.sent.map Prod.fst)
        (fun _ _ _ hs hst => sent_of_step hst hs) hsent hrun
    · obtain ⟨i, hi⟩ := hq.exists_serves (mem_map.mpr ⟨w, hw, rfl⟩) hsent
      exact ⟨i, cost w.id i q, fun as t hrun => hi.answered hq hrun⟩
  · intro l _
    cases l with
    | delivering left finished => cases finished <;> simp
    | returned => simp
    | _ => exact .inl rfl
  · intro a t hst hret
    obtain ⟨hflag, hpend, hloops⟩ := flushing_of_drain_returns hst hret
    obtain ⟨hempty, hquiet⟩ := hq.quiet hflag
    rw [hpend, hloops]
    exact ⟨hempty, fun l hl => ⟨hquiet l hl, Loop.committing_of_not_running (hquiet l hl)⟩⟩

/-- Two writes in one batch, answered in order, and a drain that waits for
them. -/
def twoWrites : List (Action Bool) :=
  [.enqueue 10, .decide 0, .enqueue 20, .drain, .timer 0, .take 0,
    .flush 0 [true, false], .settle 0, .recheck 0, .deliver 0, .receive 0, .deliver 0]

theorem guarantees_of_two_writes :
    ∃ q : Queue Bool, run step init twoWrites = some q ∧
      q.sent = [(0, true), (1, false)] ∧ q.drains = [.returned] ∧ Guarantees q :=
  ⟨_, rfl, rfl, rfl, guarantees_of_run twoWrites rfl⟩

end WriteQueue
