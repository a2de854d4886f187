import GovetoEdge.LogDelivery

/-!
# Access logs are delivered once

Batches are sent again after a failure, so a record may be parsed and inserted
many times.  It keeps its id and its envelope in the queue, so that its conflict
key is the same every time.

* `Stored` is about the store: all rows of the node are of records that were
  sent, and what was ingested has its rows.
* `Session.Orderly` is about a session: at most one batch is under way, and an
  acknowledgement that is on the way is for a batch that was ingested.
* `delivered_once` joins both with the queue.
-/

namespace LogDelivery

open GoStrings LogRecords LogChunks LogQueue LogBatches AccessLogs List Option Runs LogDelivery

variable {lib : Library} {nodeID : GoString} {maxBytes first : Nat} {s s' : State}

/-- What a call of `Consume` has done so far. -/
structure Consumption.Sound (lib : Library) (nodeID : GoString) (s : State) (c : Consumption) :
    Prop where
  records : ∀ q ∈ c.batch.records, ∃ r ∈ s.sent, q = received r
  inserting : ∀ look es, c.stage = .inserting look es →
    (∀ e ∈ es, e ∈ events lib look nodeID c.batch.records) ∧
    ∀ e ∈ events lib look nodeID c.batch.records, e ∈ es ∨ ∃ row ∈ s.rows, key row = key e
  finished : c.stage = .finished → ∃ look, (look, c.batch) ∈ s.consumed

variable {c : Consumption} {p : Progress} {through : Option Nat} {x : Session}

/-- Sent records and rows are never taken back. -/
theorem Consumption.Sound.mono (h : c.Sound lib nodeID s) (hsent : ∀ r ∈ s.sent, r ∈ s'.sent)
    (hrows : ∀ row ∈ s.rows, row ∈ s'.rows) (hconsumed : ∀ p ∈ s.consumed, p ∈ s'.consumed) :
    c.Sound lib nodeID s' where
  records := by
    intro q hq
    obtain ⟨r, hr, heq⟩ := h.records q hq
    exact ⟨r, hsent r hr, heq⟩
  inserting := by
    intro look es hstage
    obtain ⟨hmem, hcovered⟩ := h.inserting look es hstage
    refine ⟨hmem, fun e he => (hcovered e he).imp_right ?_⟩
    rintro ⟨row, hrow, hkey⟩
    exact ⟨row, hrows row hrow, hkey⟩
  finished := by
    intro hstage
    obtain ⟨look, hlook⟩ := h.finished hstage
    exact ⟨look, hconsumed _ hlook⟩

/-- A call that has not begun. -/
theorem Consumption.Sound.waiting {batch : AgentLogBatch}
    (h : ∀ q ∈ batch.records, ∃ r ∈ s.sent, q = received r) :
    Consumption.Sound lib nodeID s ⟨batch, .waiting⟩ :=
  ⟨h, by simp, by simp⟩

/-- The batches that are being consumed. -/
def State.running (s : State) : List Consumption :=
  s.orphans ++ (s.session.bind Session.inFlight).toList

/-- The rows of the node are of records that it sent, and the calls of `Consume`
are sound. -/
structure Stored (lib : Library) (nodeID : GoString) (s : State) : Prop where
  created : ∀ r ∈ s.sent, r.createdAt ≠ zeroTime
  same : ∀ r ∈ s.sent, ∀ q ∈ s.sent, r.id = q.id → r = q
  keys : (s.rows.map key).Nodup
  origin : ∀ row ∈ s.rows, row.nodeID = nodeID → ∃ r ∈ s.sent,
    key row = (instant lib (received r) / 1000, nodeID, r.id)
  running : ∀ c ∈ s.running, c.Sound lib nodeID s
  consumed : ∀ p ∈ s.consumed, ∀ e ∈ events lib p.1 nodeID p.2.records,
    ∃ row ∈ s.rows, key row = key e

/-- No rows. -/
theorem stored_init (first : Nat) : Stored lib nodeID (init first) := by
  refine ⟨?_, ?_, ?_, ?_, ?_, ?_⟩ <;> simp [init, State.running]

/-- A step that leaves the store alone. -/
theorem Stored.congr (h : Stored lib nodeID s) (hsent : s'.sent = s.sent)
    (hrows : s'.rows = s.rows) (hconsumed : s'.consumed = s.consumed)
    (hrunning : ∀ c ∈ s'.running, c ∈ s.running ∨ c.Sound lib nodeID s) :
    Stored lib nodeID s' where
  created := by
    rw [hsent]
    exact h.created
  same := by
    rw [hsent]
    exact h.same
  keys := by
    rw [hrows]
    exact h.keys
  origin := by
    rw [hrows, hsent]
    exact h.origin
  running := by
    intro c hc
    have hsound : c.Sound lib nodeID s := (hrunning c hc).elim (h.running c) fun h => h
    exact hsound.mono (by simp [hsent]) (by simp [hrows]) (by simp [hconsumed])
  consumed := by
    rw [hconsumed, hrows]
    exact h.consumed

/-- Records are read from the queue. -/
theorem Stored.send (h : Stored lib nodeID s) (records : List LogRecord)
    (hcreated : ∀ r ∈ records, r.createdAt ≠ zeroTime)
    (hsame : ∀ r ∈ s.sent ++ records, ∀ q ∈ s.sent ++ records, r.id = q.id → r = q)
    (hsent : s'.sent = s.sent ++ records) (hrows : s'.rows = s.rows)
    (hconsumed : s'.consumed = s.consumed) (hrunning : s'.running = s.running) :
    Stored lib nodeID s' where
  created := by
    rw [hsent]
    exact forall_mem_append.mpr ⟨h.created, hcreated⟩
  same := by
    rw [hsent]
    exact hsame
  keys := by
    rw [hrows]
    exact h.keys
  origin := by
    intro row hrow hnode
    rw [hrows] at hrow
    obtain ⟨r, hr, hkey⟩ := h.origin row hrow hnode
    exact ⟨r, hsent ▸ mem_append_left _ hr, hkey⟩
  running := by
    intro c hc
    refine (h.running c (hrunning ▸ hc)).mono ?_ (by simp [hrows]) (by simp [hconsumed])
    intro r hr
    exact hsent ▸ mem_append_left _ hr
  consumed := by
    rw [hconsumed, hrows]
    exact h.consumed

/-- Rows are inserted. -/
theorem Stored.insert (h : Stored lib nodeID s) (es : List WebRequestLog)
    (hes : ∀ e ∈ es, e.nodeID = nodeID → ∃ r ∈ s.sent,
      key e = (instant lib (received r) / 1000, nodeID, r.id)) :
    Stored lib nodeID { s with rows := insert s.rows es } where
  created := h.created
  same := h.same
  keys := nodup_insert h.keys
  origin := by
    intro row hrow hnode
    rcases mem_insert hrow with hold | hnew
    · exact h.origin row hold hnode
    · exact hes row hnew hnode
  running := fun c hc =>
    (h.running c hc).mono (fun _ h => h) (fun _ h => mem_insert_of_mem h) fun _ h => h
  consumed := by
    intro p hp e he
    obtain ⟨row, hrow, hkey⟩ := h.consumed p hp e he
    exact ⟨row, mem_insert_of_mem hrow, hkey⟩

/-- The key of an event is that of a record that was sent. -/
theorem Stored.key_of_events (h : Stored lib nodeID s) {look : Lookup} {batch : AgentLogBatch}
    (hrecords : ∀ q ∈ batch.records, ∃ r ∈ s.sent, q = received r) {e : WebRequestLog}
    (he : e ∈ events lib look nodeID batch.records) :
    ∃ r ∈ s.sent, key e = (instant lib (received r) / 1000, nodeID, r.id) := by
  obtain ⟨clusterID, -, q, hq, hevent⟩ := mem_events he
  obtain ⟨r, hr, rfl⟩ := hrecords q hq
  exact ⟨r, hr, key_of_toEvent (h.created r hr) hevent⟩

/-- **A call of `Consume` goes on.** -/
theorem Stored.consume (h : Stored lib nodeID s) {input : Input} (hc : c ∈ s.running)
    (hconsume : consume lib nodeID s.rows c input = some p) (hsent : s'.sent = s.sent)
    (hrows : s'.rows = p.rows)
    (hconsumed : s'.consumed = s.consumed ++ p.returned.toList.map fun look => (look,
      p.consumption.batch))
    (hrunning : ∀ c' ∈ s'.running, c' ∈ s.running ∨ c' = p.consumption) : Stored lib nodeID s' := by
  have hsound := h.running c hc
  obtain ⟨batch, stage⟩ := c
  unfold consume at hconsume
  dsimp only at hconsume
  split at hconsume
  · cases hconsume
    refine h.congr hsent hrows (by simpa using hconsumed) fun c' hc' => ?_
    refine (hrunning c' hc').imp_right ?_
    rintro rfl
    exact ⟨hsound.records, by simp, by simp⟩
  · next look =>
    cases hconsume
    refine h.congr hsent hrows (by simpa using hconsumed) fun c' hc' => ?_
    refine (hrunning c' hc').imp_right ?_
    rintro rfl
    refine ⟨hsound.records, fun look' es heq => ?_, by simp⟩
    cases heq
    exact ⟨fun e he => he, fun e he => .inl he⟩
  · cases hconsume
    refine h.congr hsent hrows (by simpa using hconsumed) fun c' hc' => ?_
    refine (hrunning c' hc').imp_right ?_
    rintro rfl
    exact ⟨hsound.records, by simp, by simp⟩
  · next look e es lost =>
    cases hconsume
    obtain ⟨hmem, hcovered⟩ := hsound.inserting look (e :: es) rfl
    have hinserted := h.insert ((e :: es).take maxInsertBatch) fun e' he' _ =>
      h.key_of_events hsound.records (hmem e' (mem_of_mem_take he'))
    refine hinserted.congr hsent hrows (by simpa using hconsumed) fun c' hc' => ?_
    refine (hrunning c' hc').imp_right ?_
    rintro rfl
    refine ⟨hsound.records, fun look' es' heq => ?_, fun heq => ?_⟩
    · cases lost with
      | true => cases heq
      | false =>
        cases heq
        refine ⟨fun e' he' => hmem e' (mem_of_mem_drop he'), fun e' he' => ?_⟩
        rcases hcovered e' he' with hleft | ⟨row, hrow, hkey⟩
        · rw [← take_append_drop maxInsertBatch (e :: es)] at hleft
          rcases mem_append.mp hleft with hnow | hlater
          · exact .inr (exists_key_insert hnow)
          · exact .inl hlater
        · exact .inr ⟨row, mem_insert_of_mem hrow, hkey⟩
    · cases lost <;> cases heq
  · next look =>
    cases hconsume
    obtain ⟨-, hcovered⟩ := hsound.inserting look [] rfl
    have hmono : ∀ {c : Consumption}, c.Sound lib nodeID s → c.Sound lib nodeID s' := fun h =>
      h.mono (by simp [hsent]) (by simp [hrows]) (fun q hq => by simp [hconsumed, hq])
    refine ⟨hsent ▸ h.created, hsent ▸ h.same, hrows ▸ h.keys, ?_, fun c' hc' => ?_, ?_⟩
    · rw [hrows, hsent]
      exact h.origin
    · rcases hrunning c' hc' with hold | rfl
      · exact hmono (h.running c' hold)
      · exact ⟨(hmono hsound).records, by simp, fun _ => ⟨look, by simp [hconsumed]⟩⟩
    · intro q hq e he
      rw [hconsumed] at hq
      rw [hrows]
      rcases mem_append.mp hq with hold | hnew
      · exact h.consumed q hold e he
      · obtain rfl : q = (look, batch) := by simpa using hnew
        exact (hcovered e he).resolve_left not_mem_nil
  · cases hconsume

/-- The batch is the front of the queue, or was before records left. -/
structure Front (s : State) (b : AgentLogBatch) : Prop where
  last : ∃ r ∈ b.records, r.id = b.through
  sent : ∀ r ∈ b.records, r ∈ s.sent
  covers : ∀ id ∈ queued s.queue.bucket, id ≤ b.through → ∃ r ∈ b.records, r.id = id

/-- The queue only has old records that it had before. -/
theorem Front.keeps {b : AgentLogBatch} (h : Front s b)
    (hbelow : ∀ r ∈ s.sent, r.id ≤ s.queue.sequence) (hsent : ∀ r ∈ s.sent, r ∈ s'.sent)
    (hkeeps : Keeps through s.queue s'.queue) : Front s' b where
  last := h.last
  sent := fun r hr => hsent r (h.sent r hr)
  covers := by
    intro id hid hle
    obtain ⟨r, hr, hlast⟩ := h.last
    have hbound := hbelow r (h.sent r hr)
    exact h.covers id (hkeeps.queued id (by omega) hid) hle

/-- What is received was sent. -/
theorem Front.received_sent {b : AgentLogBatch} (h : Front s b) :
    ∀ q ∈ (receivedBatch b).records, ∃ r ∈ s.sent, q = received r := by
  intro q hq
  obtain ⟨r, hr, rfl⟩ := mem_map.mp hq
  exact ⟨r, h.sent r hr, rfl⟩

/-- At most one batch is under way, and what is acknowledged was ingested. -/
structure Session.Orderly (s : State) (x : Session) : Prop where
  quiet : x.outstanding = false → x.outbound = [] ∧ x.inFlight = none ∧ x.inbound = []
  single : x.outbound.length + x.inFlight.toList.length + x.inbound.length ≤ 1
  outbound : ∀ b ∈ x.outbound, Front s b
  inFlight : ∀ c ∈ x.inFlight, ∃ b, c.batch = receivedBatch b ∧ Front s b
  inbound : ∀ through, Ack.accepted through ∈ x.inbound → ∃ look b,
    (look, receivedBatch b) ∈ s.consumed ∧ b.through = through ∧ Front s b

/-- A session stays orderly. -/
theorem Session.Orderly.keeps (h : x.Orderly s) (hbelow : ∀ r ∈ s.sent, r.id ≤ s.queue.sequence)
    (hsent : ∀ r ∈ s.sent, r ∈ s'.sent) (hconsumed : ∀ p ∈ s.consumed, p ∈ s'.consumed)
    (hkeeps : Keeps through s.queue s'.queue) : x.Orderly s' where
  quiet := h.quiet
  single := h.single
  outbound := fun b hb => (h.outbound b hb).keeps hbelow hsent hkeeps
  inFlight := by
    intro c hc
    obtain ⟨b, hbatch, hfront⟩ := h.inFlight c hc
    exact ⟨b, hbatch, hfront.keeps hbelow hsent hkeeps⟩
  inbound := by
    intro n hn
    obtain ⟨look, b, hb, hthrough, hfront⟩ := h.inbound n hn
    exact ⟨look, b, hconsumed _ hb, hthrough, hfront.keeps hbelow hsent hkeeps⟩

/-- What holds of queue, session and store. -/
structure Delivering (lib : Library) (nodeID : GoString) (maxBytes first : Nat) (s : State) :
    Prop where
  inv : Inv maxBytes first s.queue
  stored : Stored lib nodeID s
  below : ∀ r ∈ s.sent, r.id ≤ s.queue.sequence
  stable : ∀ r ∈ s.sent, ∀ envelope, Held s.queue.bucket r.id envelope →
    decodeLogEnvelope envelope r.id = .ok r
  acknowledged : ∀ id ∈ s.queue.totals.acknowledged, ∃ r ∈ s.sent, r.id = id ∧
    ∃ p ∈ s.consumed, received r ∈ p.2.records
  session : ∀ x ∈ s.session, x.Orderly s

/-- The start. -/
theorem delivering_init (first : Nat) : Delivering lib nodeID maxBytes first (init first) := by
  refine ⟨inv_opened maxBytes first, stored_init first, ?_, ?_, ?_, ?_⟩ <;> simp [init, opened]

theorem mem_running_of_inFlight (hx : s.session = some x) (hc : c ∈ x.inFlight) :
    c ∈ s.running := by
  refine mem_append_right _ ?_
  rw [hx, bind_some]
  exact mem_toList.mpr hc

/-- A record from the queue has a time. -/
theorem createdAt_ne_zeroTime {envelope : GoString} {id : Nat} {r : LogRecord}
    (h : decodeLogEnvelope envelope id = .ok r) : r.createdAt ≠ zeroTime := by
  have htime := (timeUnix_range (BigEndian.get (BigEndian.slice envelope 13 21))).1
  have heq : r.createdAt = timeUnix (BigEndian.get (BigEndian.slice envelope 13 21)) := by
    rw [eq_fields_of_decodeLogEnvelope h]
    simp only [fields]
  rw [heq]
  intro hzero
  rw [hzero] at htime
  cases htime

/-- Consumers keep their batch. -/
theorem batch_of_consume {rows : List WebRequestLog} {input : Input}
    (h : consume lib nodeID rows c input = some p) : p.consumption.batch = c.batch := by
  unfold consume at h
  split at h
  all_goals first
    | (obtain rfl := Option.some.inj h; rfl)
    | cases h

theorem mem_progress {q : Lookup × AgentLogBatch} (h : q ∈ s.consumed) :
    q ∈ (s.progress p).consumed :=
  mem_append_left _ h

section Delivering

variable (h : Delivering lib nodeID maxBytes first s)

include h

/-- The queue moves, and what is acknowledged was ingested. -/
theorem Delivering.moves (hinv : Inv maxBytes first s'.queue)
    (hkeeps : Keeps through s.queue s'.queue) (hstored : Stored lib nodeID s')
    (hsent : s'.sent = s.sent) (hconsumed : ∀ p ∈ s.consumed, p ∈ s'.consumed)
    (hthrough : ∀ n ∈ through, ∀ id ∈ queued s.queue.bucket, id ≤ n → ∃ r ∈ s.sent, r.id = id ∧
      ∃ p ∈ s.consumed, received r ∈ p.2.records) (hsession : ∀ x ∈ s'.session, x.Orderly s') :
    Delivering lib nodeID maxBytes first s' where
  inv := hinv
  stored := hstored
  below := by
    rw [hsent]
    exact fun r hr => le_trans (h.below r hr) hkeeps.sequence
  stable := by
    rw [hsent]
    intro r hr envelope hheld
    exact h.stable r hr envelope (hkeeps.held _ _ (h.below r hr) hheld)
  acknowledged := by
    rw [hsent]
    intro id hid
    have hold : ∃ r ∈ s.sent, r.id = id ∧ ∃ p ∈ s.consumed, received r ∈ p.2.records := by
      rcases hkeeps.acknowledged id hid with hold | ⟨n, hn, hle, hqueued⟩
      · exact h.acknowledged id hold
      · exact hthrough n hn id hqueued hle
    obtain ⟨r, hr, hrid, p, hp, hmem⟩ := hold
    exact ⟨r, hr, hrid, p, hconsumed p hp, hmem⟩
  session := hsession

/-- A step that leaves the queue alone. -/
theorem Delivering.stays (hqueue : s'.queue = s.queue) (hstored : Stored lib nodeID s')
    (hsent : s'.sent = s.sent) (hconsumed : ∀ p ∈ s.consumed, p ∈ s'.consumed)
    (hsession : ∀ x ∈ s'.session, x.Orderly s') : Delivering lib nodeID maxBytes first s' := by
  have hkeeps : Keeps none s.queue s'.queue := by
    rw [hqueue]
    exact .refl none _
  exact h.moves (hqueue ▸ h.inv) hkeeps hstored hsent hconsumed (by simp) hsession

/-- A step of the queue that acknowledges nothing. -/
theorem Delivering.enqueue {q : LogQueue.State} (hinv : Inv maxBytes first q)
    (hkeeps : Keeps none s.queue q) :
    Delivering lib nodeID maxBytes first { s with queue := q } := by
  refine h.moves hinv hkeeps (h.stored.congr rfl rfl rfl fun c hc => .inl hc) rfl
    (fun _ hp => hp) (by simp) fun x hx => ?_
  exact (h.session x hx).keeps h.below (fun _ h => h) (fun _ h => h) hkeeps

/-- The session ends. -/
theorem Delivering.disconnect {y : Session} (hx : s.session = some x)
    (hout : ∀ b ∈ y.outbound, b ∈ x.outbound) (hflight : y.inFlight = x.inFlight) :
    Delivering lib nodeID maxBytes first (disconnect s y) := by
  refine h.stays rfl (h.stored.congr rfl rfl rfl fun c hc => ?_) rfl (fun _ hp => hp)
    (by simp [LogDelivery.disconnect])
  have hcases : c ∈ s.orphans ∨ c ∈ x.inFlight ∨ ∃ b ∈ y.outbound,
      (validateLogBatch (receivedBatch b)).isOk = true ∧
      (⟨receivedBatch b, .waiting⟩ : Consumption) = c := by
    simpa [State.running, LogDelivery.disconnect, hflight, and_assoc] using hc
  rcases hcases with horphan | hin | ⟨b, hb, -, rfl⟩
  · exact .inl (mem_append_left _ horphan)
  · exact .inl (mem_running_of_inFlight hx hin)
  · exact .inr (.waiting ((h.session x hx).outbound b (hout b hb)).received_sent)

/-- **The agent sends the front of its queue.** -/
theorem Delivering.send (hx : s.session = some x) (hquiet : x.outstanding = false)
    (limits : Limits) : Delivering lib nodeID maxBytes first (send s x limits) := by
  unfold LogDelivery.send
  split
  · exact h.disconnect hx (fun _ hb => hb) rfl
  · next records size hbatch =>
    split
    · next head last hhead hlast =>
      obtain ⟨hcovers, hheld⟩ := batchSized_front h.inv hbatch hlast
      have hbelow : ∀ r ∈ records, r.id ≤ s.queue.sequence := by
        intro r hr
        obtain ⟨envelope, ⟨entry, hentry, i, hi, hid, -⟩, -⟩ := hheld r hr
        have := h.inv.below entry hentry
        omega
      have hstable : ∀ r ∈ records, ∀ envelope, Held s.queue.bucket r.id envelope →
          decodeLogEnvelope envelope r.id = .ok r := by
        intro r hr envelope henvelope
        obtain ⟨envelope', henvelope', hdecode⟩ := hheld r hr
        rw [Held.unique h.inv.balanced henvelope henvelope']
        exact hdecode
      have hsame : ∀ r ∈ s.sent ++ records, ∀ q ∈ records, r.id = q.id → r = q := by
        intro r hr q hq hid
        obtain ⟨envelope, henvelope, hdecode⟩ := hheld q hq
        have hdecode' : decodeLogEnvelope envelope r.id = .ok r := by
          rcases mem_append.mp hr with hold | hnew
          · exact h.stable r hold envelope (hid ▸ henvelope)
          · exact hstable r hnew envelope (hid ▸ henvelope)
        rw [hid, hdecode] at hdecode'
        exact (Except.ok.inj hdecode').symm
      have hsent : ∀ r ∈ s.sent, r ∈ s.sent ++ records := fun r hr => mem_append_left _ hr
      obtain ⟨hout, hflight, hin⟩ := (h.session x hx).quiet hquiet
      refine ⟨h.inv, ?_, forall_mem_append.mpr ⟨h.below, hbelow⟩,
        forall_mem_append.mpr ⟨h.stable, hstable⟩, ?_, ?_⟩
      · refine h.stored.send records (fun r hr => ?_) (fun r hr q hq hid => ?_) rfl rfl
          rfl (by simp [State.running, hx])
        · obtain ⟨envelope, -, hdecode⟩ := hheld r hr
          exact createdAt_ne_zeroTime hdecode
        · rcases mem_append.mp hq with hold | hnew
          · rcases mem_append.mp hr with hold' | hnew'
            · exact h.stored.same r hold' q hold hid
            · exact (hsame q hq r hnew' hid.symm).symm
          · exact hsame r hr q hnew hid
      · intro id hid
        obtain ⟨r, hr, hrid, hp⟩ := h.acknowledged id hid
        exact ⟨r, hsent r hr, hrid, hp⟩
      · intro y hy
        cases hy
        refine ⟨by simp, by simp [hout, hflight, hin], ?_, by simp [hflight], by simp [hin]⟩
        intro b hb
        obtain rfl := mem_singleton.mp (by simpa [hout] using hb)
        exact ⟨⟨last, mem_of_getLast? hlast, rfl⟩, fun r hr => mem_append_right _ hr,
          hcovers⟩
    · exact h

/-- The session changes. -/
theorem Delivering.setSession {y : Session} (horderly : y.Orderly s)
    (hflight : ∀ c ∈ y.inFlight, c ∈ s.running ∨ c.Sound lib nodeID s) :
    Delivering lib nodeID maxBytes first { s with session := some y } := by
  refine h.stays rfl (h.stored.congr rfl rfl rfl fun c hc => ?_) rfl (fun _ hp => hp) fun x hx => ?_
  · rcases mem_append.mp hc with horphan | hin
    · exact .inl (mem_append_left _ horphan)
    · exact hflight c (mem_toList.mp hin)
  · cases hx
    exact horderly.keeps h.below (fun _ h => h) (fun _ h => h) (.refl none _)

/-- **The gateway gets a batch.** -/
theorem Delivering.receive {enabled : Bool} (hx : s.session = some x)
    (hreceive : receive s x enabled = some s') : Delivering lib nodeID maxBytes first s' := by
  have horderly := h.session x hx
  unfold LogDelivery.receive at hreceive
  split at hreceive
  · cases hreceive
  next b rest hout =>
  have hfront := horderly.outbound b (by simp [hout])
  have hsingle := horderly.single
  simp only [hout, length_cons] at hsingle
  obtain rfl : rest = [] := eq_nil_of_length_eq_zero (by omega)
  have hin : x.inbound = [] := eq_nil_of_length_eq_zero (by omega)
  have hflight : x.inFlight = none := by
    cases hflight : x.inFlight with
    | none => rfl
    | some c =>
      rw [hflight, toList_some, length_singleton] at hsingle
      omega
  have hbusy : x.outstanding ≠ false := by
    intro hquiet
    have := (horderly.quiet hquiet).1
    rw [hout] at this
    cases this
  have hreply : Delivering lib nodeID maxBytes first { s with
      session := some { x with outbound := [], inbound := x.inbound ++ [Ack.rejected] } } := by
    refine h.setSession ⟨fun hquiet => absurd hquiet hbusy, ?_, by simp, by simp [hflight], ?_⟩
      (by simp [hflight])
    · simp [hflight, hin]
    · simp [hin]
  dsimp only at hreceive
  rw [hflight, isSome_none, if_neg (by simp)] at hreceive
  split at hreceive
  · cases hreceive
    rw [← hflight]
    exact hreply
  · split at hreceive
    · cases hreceive
      rw [← hflight]
      exact hreply
    · split at hreceive
      · next hempty =>
        obtain ⟨r, hr, -⟩ := hfront.last
        rw [hempty] at hr
        cases hr
      · cases hreceive
        refine h.setSession ⟨fun hquiet => absurd hquiet hbusy, ?_, by simp, ?_, by simp [hin]⟩ ?_
        · simp [hin]
        · intro c hc
          cases hc
          exact ⟨b, rfl, hfront⟩
        · intro c hc
          cases hc
          exact .inr (.waiting hfront.received_sent)

/-- **The gateway answers.** -/
theorem Delivering.answer (hx : s.session = some x) (hanswer : answer s x = some s') :
    Delivering lib nodeID maxBytes first s' := by
  have horderly := h.session x hx
  have hstep : ∀ {c : Consumption} {ack : Ack}, x.inFlight = some c →
      (∀ through, ack = .accepted through → ∃ look b, (look, receivedBatch b) ∈ s.consumed ∧
        b.through = through ∧ Front s b) →
      Delivering lib nodeID maxBytes first { s with
        session := some { x with inFlight := none, inbound := x.inbound ++ [ack] } } := by
    intro c ack hflight hack
    have hsingle := horderly.single
    rw [hflight, toList_some, length_singleton] at hsingle
    have hin : x.inbound = [] := eq_nil_of_length_eq_zero (by omega)
    have hout : x.outbound = [] := eq_nil_of_length_eq_zero (by omega)
    refine h.setSession ⟨fun hquiet => ?_, by simp [hin, hout], by simp [hout], by simp, ?_⟩
      (by simp)
    · have := (horderly.quiet hquiet).2.1
      rw [hflight] at this
      cases this
    · intro through hthrough
      refine hack through ?_
      simpa [hin, eq_comm] using hthrough
  unfold LogDelivery.answer at hanswer
  split at hanswer
  · next batch hflight =>
    cases hanswer
    refine hstep hflight fun through heq => ?_
    obtain ⟨b, hbatch, hfront⟩ := horderly.inFlight _ hflight
    obtain ⟨look, hlook⟩ := (h.stored.running _ (mem_running_of_inFlight hx hflight)).finished rfl
    obtain rfl : batch = receivedBatch b := hbatch
    cases heq
    exact ⟨look, b, hlook, rfl, hfront⟩
  · next batch hflight =>
    cases hanswer
    exact hstep hflight (by simp)
  · cases hanswer

/-- **The agent gets an acknowledgement.** -/
theorem Delivering.handle (hx : s.session = some x) (hhandle : handle s x = some s') :
    Delivering lib nodeID maxBytes first s' := by
  have horderly := h.session x hx
  have hrest : ∀ {ack : Ack} {rest : List Ack}, x.inbound = ack :: rest →
      x.outbound = [] ∧ x.inFlight = none ∧ rest = [] := by
    intro ack rest hin
    have hsingle := horderly.single
    rw [hin, length_cons] at hsingle
    refine ⟨eq_nil_of_length_eq_zero (by omega), ?_, eq_nil_of_length_eq_zero (by omega)⟩
    exact toList_eq_nil_iff.mp (eq_nil_of_length_eq_zero (by omega))
  have hidle : ∀ {t : State}, Session.Orderly t ⟨false, [], none, []⟩ := fun {t} =>
    ⟨fun _ => ⟨rfl, rfl, rfl⟩, by simp, by simp, by simp, by simp⟩
  unfold LogDelivery.handle at hhandle
  split at hhandle
  · cases hhandle
  · next through rest hin =>
    obtain ⟨hout, hflight, rfl⟩ := hrest hin
    obtain ⟨look, b, hconsumed, rfl, hfront⟩ := horderly.inbound through (by simp [hin])
    split at hhandle
    · next q hack =>
      cases hhandle
      obtain ⟨hinv, -, hkeeps, -⟩ := inv_ack h.inv hack
      refine h.moves hinv hkeeps (h.stored.congr rfl rfl rfl fun c hc => ?_) rfl (fun _ hp => hp)
        ?_ ?_
      · left
        simpa [State.running, hx] using hc
      · intro n hn id hid hle
        cases hn
        obtain ⟨r, hr, hrid⟩ := hfront.covers id hid hle
        exact ⟨r, hfront.sent r hr, hrid, _, hconsumed, mem_map_of_mem hr⟩
      · intro y hy
        cases hy
        rw [hout, hflight]
        exact hidle
    · cases hhandle
      exact h.disconnect hx (fun _ hb => hb) rfl
  · next rest hin =>
    obtain ⟨hout, hflight, rfl⟩ := hrest hin
    cases hhandle
    rw [hout, hflight]
    exact h.setSession hidle (by simp)

/-- **Every step delivers.** -/
theorem delivering_step {a : Action} (hstep : step lib nodeID maxBytes s a = some s') :
    Delivering lib nodeID maxBytes first s' := by
  cases a with
  | append records now =>
    obtain ⟨q, hq, rfl⟩ := map_eq_some_iff.mp hstep
    obtain ⟨hinv, -, hkeeps, -⟩ := inv_step h.inv hq
    exact h.enqueue hinv hkeeps
  | connect =>
    obtain ⟨-, hstep⟩ := ite_none_right_eq_some.mp hstep
    cases hstep
    exact h.setSession ⟨fun _ => ⟨rfl, rfl, rfl⟩, by simp, by simp, by simp, by simp⟩ (by simp)
  | disconnect =>
    obtain ⟨x, hx, rfl⟩ := map_eq_some_iff.mp hstep
    exact h.disconnect hx (fun _ hb => hb) rfl
  | dropOversizedHead limit =>
    obtain ⟨x, hx, hstep⟩ := bind_eq_some_iff.mp hstep
    split at hstep
    · cases hstep
    · split at hstep
      · next q hq =>
        cases hstep
        obtain ⟨hinv, -, hkeeps, -⟩ := inv_dropOversizedHead h.inv hq
        exact h.enqueue hinv hkeeps
      · cases hstep
        exact h.disconnect hx (fun _ hb => hb) rfl
  | send limits =>
    obtain ⟨x, hx, hstep⟩ := bind_eq_some_iff.mp hstep
    split at hstep
    · cases hstep
    · next hquiet =>
      cases hstep
      exact h.send hx (by simpa using hquiet) limits
  | receive enabled =>
    obtain ⟨x, hx, hstep⟩ := bind_eq_some_iff.mp hstep
    exact h.receive hx hstep
  | consume input =>
    obtain ⟨x, hx, hstep⟩ := bind_eq_some_iff.mp hstep
    obtain ⟨c, hc, hstep⟩ := bind_eq_some_iff.mp hstep
    obtain ⟨p, hp, rfl⟩ := map_eq_some_iff.mp hstep
    refine h.stays rfl (h.stored.consume (mem_running_of_inFlight hx hc) hp rfl rfl rfl ?_) rfl
      (fun _ => mem_progress) fun y hy => ?_
    · intro c' hc'
      rcases mem_append.mp hc' with horphan | hin
      · exact .inl (mem_append_left _ horphan)
      · right
        simpa using hin
    · cases hy
      have horderly : x.Orderly { s.progress p with
          session := some { x with inFlight := some p.consumption } } :=
        (h.session x hx).keeps h.below (fun _ h => h) (fun _ => mem_progress) (.refl none _)
      have hsingle := horderly.single
      rw [hc] at hsingle
      refine ⟨fun hquiet => ?_, hsingle, horderly.outbound, ?_, horderly.inbound⟩
      · have := (horderly.quiet hquiet).2.1
        rw [hc] at this
        cases this
      · intro c' hc'
        cases hc'
        rw [batch_of_consume hp]
        exact horderly.inFlight c hc
  | consumeOrphan index input =>
    obtain ⟨c, hc, hstep⟩ := bind_eq_some_iff.mp hstep
    obtain ⟨p, hp, rfl⟩ := map_eq_some_iff.mp hstep
    refine h.stays rfl (h.stored.consume (mem_append_left _ (mem_of_getElem? hc)) hp
      rfl rfl rfl ?_) rfl (fun _ => mem_progress) fun y hy => ?_
    · intro c' hc'
      rcases mem_append.mp hc' with horphan | hin
      · exact (mem_or_eq_of_mem_set horphan).imp_left (mem_append_left _)
      · exact .inl (mem_append_right _ hin)
    · exact (h.session y hy).keeps h.below (fun _ h => h) (fun _ => mem_progress) (.refl none _)
  | answer =>
    obtain ⟨x, hx, hstep⟩ := bind_eq_some_iff.mp hstep
    exact h.answer hx hstep
  | handle =>
    obtain ⟨x, hx, hstep⟩ := bind_eq_some_iff.mp hstep
    exact h.handle hx hstep
  | foreign es =>
    cases hstep
    refine h.stays rfl (h.stored.insert _ fun e he hnode => ?_) rfl (fun _ hp => hp) fun y hy => ?_
    · exact absurd hnode (by simpa using (mem_filter.mp he).2)
    · exact (h.session y hy).keeps h.below (fun _ h => h) (fun _ h => h) (.refl none _)

end Delivering

/-- What holds in every run. -/
theorem delivering_run {as : List Action}
    (hrun : run (step lib nodeID maxBytes) (init first) as = some s) :
    Delivering lib nodeID maxBytes first s :=
  run_invariant (fun _ _ _ h => delivering_step h) (delivering_init first) hrun

/-- The rows of the node that have one log id are one row. -/
theorem Stored.row_unique (h : Stored lib nodeID s) {row row' : WebRequestLog} (hrow : row ∈ s.rows)
    (hrow' : row' ∈ s.rows) (hnode : row.nodeID = nodeID) (hnode' : row'.nodeID = nodeID)
    (hid : row.sourceLogID = row'.sourceLogID) : row = row' := by
  obtain ⟨r, hr, hkey⟩ := h.origin row hrow hnode
  obtain ⟨r', hr', hkey'⟩ := h.origin row' hrow' hnode'
  have hid_r : row.sourceLogID = r.id := congrArg (fun k => k.2.2) hkey
  have hid_r' : row'.sourceLogID = r'.id := congrArg (fun k => k.2.2) hkey'
  obtain rfl : r = r' := h.same r hr r' hr' (by omega)
  exact inj_on_of_nodup_map h.keys hrow hrow' (hkey.trans hkey'.symm)

/-- **One row for a record.** -/
theorem Stored.countP_eq_one (h : Stored lib nodeID s) {row : WebRequestLog} {id : Nat}
    (hrow : row ∈ s.rows) (hnode : row.nodeID = nodeID) (hid : row.sourceLogID = id) :
    s.rows.countP (fun row => row.nodeID = nodeID ∧ row.sourceLogID = id) = 1 := by
  rw [countP_eq_length_filter]
  set rows := s.rows.filter fun row => decide (row.nodeID = nodeID ∧ row.sourceLogID = id)
    with hrows
  have hmem : row ∈ rows := by simp [hrows, hrow, hnode, hid]
  have hnodup : rows.Nodup := (List.Nodup.of_map _ h.keys).filter _
  have hall : rows ⊆ [row] := by
    intro row' hrow'
    obtain ⟨hmem', hnode', hid'⟩ :
        row' ∈ s.rows ∧ row'.nodeID = nodeID ∧ row'.sourceLogID = id := by
      simpa [hrows] using hrow'
    exact mem_singleton.mpr (h.row_unique hmem' hrow hnode' hnode (hid'.trans hid.symm))
  have hle := (subperm_of_subset hnodup hall).length_le
  have hpos := length_pos_of_mem hmem
  rw [length_singleton] at hle
  omega

/-- **Exactly once.**  A record that was acknowledged was in a batch that had been
ingested; and if any ingest of a batch with it found it to be an access record of
a site that the cluster of the node had then, and could parse it, then the store
has exactly one row for it.  All records that were ever sent under its id are this
record. -/
theorem delivered_once (lib : Library) (nodeID : GoString) (maxBytes first : Nat)
    (as : List Action) (s : State)
    (hrun : run (step lib nodeID maxBytes) (init first) as = some s) (id : Nat)
    (hid : id ∈ s.queue.totals.acknowledged) :
    ∃ r ∈ s.sent, r.id = id ∧ (∀ q ∈ s.sent, q.id = id → q = r) ∧
      (∃ p ∈ s.consumed, received r ∈ p.2.records) ∧
      ∀ p ∈ s.consumed, received r ∈ p.2.records →
        ∀ clusterID, p.1.cluster = some clusterID → p.1.knows (received r) = true →
          (parseAccess lib p.1.order p.1.now (received r).payload clusterID nodeID
            (received r).siteID).isSome →
          s.rows.countP (fun row => row.nodeID = nodeID ∧ row.sourceLogID = id) = 1 := by
  have h := delivering_run hrun
  obtain ⟨r, hr, rfl, hingested⟩ := h.acknowledged id hid
  refine ⟨r, hr, rfl, fun q hq hid => h.stored.same q hq r hr hid, hingested, ?_⟩
  intro p hp hmem clusterID hcluster hknown hparses
  obtain ⟨event, hevent⟩ := isSome_iff_exists.mp hparses
  have hto : ∃ e, toEvent lib p.1 clusterID nodeID (received r) = some e := by
    rw [toEvent, if_pos hknown, hevent]
    exact ⟨_, rfl⟩
  obtain ⟨e, he⟩ := hto
  have hcreated : (received r).createdAt ≠ zeroTime := h.stored.created r hr
  have hkey := key_of_toEvent hcreated he
  obtain ⟨row, hrow, heq⟩ := h.stored.consumed p hp e (by
    rw [events, hcluster]
    exact mem_filterMap.mpr ⟨_, hmem, he⟩)
  rw [hkey] at heq
  exact h.stored.countP_eq_one hrow (congrArg (fun k => k.2.1) heq) (congrArg (fun k => k.2.2) heq)

/-- An access record with the URI of its request, and without a time of its own. -/
def rootPayload : GoString := lit "\x7b\"request\":\x7b\"uri\":\"/\"\x7d\x7d"

/-- What the libraries make of this payload; they refuse all others. -/
def exampleLibrary : Library where
  unmarshal payload :=
    if payload = rootPayload then
      some ⟨0, ⟨[], [], [], [], [], lit "/", ⟨[], .nil⟩⟩, 0, 0, 0, 0, [], 0, [], ⟨[], .nil⟩⟩
    else none
  unmarshalTimestamp payload := if payload = rootPayload then some 0 else none
  timestamp_eq := by
    intro payload raw h
    split at h
    · next hpayload =>
      cases h
      rw [if_pos hpayload]
    · cases h
  nanoseconds x := (x * 10 ^ 9).floor
  parseRequestURI uri := if uri = lit "/" then some (uri, []) else none
  toLower s := s.map lowerByte
  toUpper s := s.map upperByte

/-- The answer of the first insertion is lost, and the batch is sent again. -/
def resentRun : List Action :=
  let look (now : Int) : Lookup := ⟨some (lit "c"), [lit "site"], now, fun h => h.entries⟩
  [.append [⟨0, lit "access", lit "site", 7, zeroTime, rootPayload⟩] 5, .connect,
    .send defaultLimits, .receive true, .consume (.resolves (look 10)), .consume (.inserts true),
    .answer, .handle, .send defaultLimits, .receive true, .consume (.resolves (look 20)),
    .consume (.inserts false), .consume .returns, .answer, .handle]

theorem delivered_once_resentRun :
    ∃ s, run (step exampleLibrary (lit "n") 1000) (init 0) resentRun = some s ∧
      s.queue.totals.acknowledged = [1] ∧
      s.rows.countP (fun row => row.nodeID = lit "n" ∧ row.sourceLogID = 1) = 1 := by
  have hends : ∃ s, run (step exampleLibrary (lit "n") 1000) (init 0) resentRun = some s ∧
      s.queue.totals.acknowledged = [1] ∧
      ∀ r ∈ s.sent, ∀ p ∈ s.consumed, p.1.cluster = some (lit "c") ∧
        p.1.knows (received r) = true ∧
        (parseAccess exampleLibrary p.1.order p.1.now (received r).payload (lit "c") (lit "n")
          (received r).siteID).isSome := by
    apply ends_of_any
    decide +kernel
  obtain ⟨s, hrun, hacknowledged, hall⟩ := hends
  obtain ⟨r, hr, -, -, ⟨p, hp, hmem⟩, hone⟩ :=
    delivered_once exampleLibrary (lit "n") 1000 0 resentRun s hrun 1 (by simp [hacknowledged])
  obtain ⟨hcluster, hknown, hparses⟩ := hall r hr p hp
  exact ⟨s, hrun, hacknowledged, hone p hp hmem (lit "c") hcluster hknown hparses⟩

end LogDelivery
