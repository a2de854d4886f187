import GovetoEdge.GoStrings
import GovetoEdge.Runs

/-!
# Coalesced requests

Requests for one cache key that miss at the same time share one call to the
origin: the first one leads a flight, the others wait for the channel of the
flight to be closed and look into the cache again.  A stale entry is refreshed
in the background under a flight of its own, whose key also names the variant.

`beginFlight`, `flightDone` and `endFlight` are critical sections, and everything
between them may be interleaved: a flight can end, and another one begin, between
a request's `beginFlight` and its `flightDone`.  What the cache has, how an origin
call ends and when a client goes away are arguments of the steps.  A leader ends
its flight in a deferred call, so it does so however its call ends.

* `Lawful` relates the table of flights to the goroutines that lead them;
* `flights_lawful`: one leader for a key, every channel is closed once, and no
  request waits for a leader that has gone.
-/

namespace CacheFlights

open GoStrings List Runs

/-- A channel that is closed and never sent on; channels are numbered as they
are made. -/
abbrev Channel := Nat

abbrev ThreadId := Nat

/-- `flights`, the number of channels that were made, and the calls of `close`. -/
structure Table where
  flights : GoString → Option Channel
  made : Nat
  closed : List Channel

/-- No flights. -/
def Table.empty : Table := ⟨fun _ => none, 0, []⟩

/-- `beginFlight`: the channel of a new flight, unless there is one already. -/
def Table.beginFlight (t : Table) (key : GoString) : Table × Option Channel :=
  match t.flights key with
  | some _ => (t, none)
  | none =>
    ({ t with
        flights := fun k => if k = key then some t.made else t.flights k
        made := t.made + 1 },
      some t.made)

/-- `flightDone`: the channel of the flight, or one that is closed already. -/
def Table.flightDone (t : Table) (key : GoString) : Table × Channel :=
  match t.flights key with
  | some channel => (t, channel)
  | none => ({ t with made := t.made + 1, closed := t.closed ++ [t.made] }, t.made)

/-- `endFlight`: it ends the flight that is registered, whoever leads it. -/
def Table.endFlight (t : Table) (key : GoString) : Table :=
  match t.flights key with
  | some channel =>
    { t with
      flights := fun k => if k = key then none else t.flights k
      closed := t.closed ++ [channel] }
  | none => t

/-- Where a goroutine stands in `ServeHTTP` or in a background refresh. -/
inductive Thread
  | arrived (key : GoString)
  /-- `beginFlight` found a flight -/
  | joining (key : GoString)
  | waiting (key : GoString) (channel : Channel)
  /-- a flight for a refresh is begun, and its goroutine not yet started -/
  | detaching (key : GoString) (channel : Channel)
  | leading (key : GoString) (channel : Channel)
  /-- an answer is sent, from the cache or from the origin, without a flight -/
  | serving
deriving DecidableEq

/-- The table of flights and the threads. -/
structure State where
  table : Table
  threads : ThreadId → Option Thread

/-- No threads. -/
def init : State := ⟨.empty, fun _ => none⟩

/-- One thread goes on. -/
def State.setThread (s : State) (id : ThreadId) (thread : Option Thread) : State :=
  { s with threads := fun i => if i = id then thread else s.threads i }

/-- How a call to the origin ends. -/
inductive Ending
  | returned
  | failed
  | panicked

/-- What threads do. -/
inductive Action
  /-- a request whose base key is `key` -/
  | arrive (id : ThreadId) (key : GoString)
  /-- the cache has a fresh answer, or the request is not to be cached -/
  | serveFresh (id : ThreadId)
  /-- the cache has a stale answer that may be served while it is refreshed -/
  | serveStale (id : ThreadId) (storageKey : GoString)
  /-- the goroutine `refresher` is started -/
  | detach (id refresher : ThreadId)
  | coalesce (id : ThreadId)
  /-- requests are not coalesced -/
  | fetch (id : ThreadId)
  | join (id : ThreadId)
  /-- the channel is closed; the cache may have an answer now -/
  | wake (id : ThreadId) (fresh : Bool)
  /-- the client is gone -/
  | cancel (id : ThreadId)
  | finish (id : ThreadId) (ending : Ending)

/-- The key of a background refresh. -/
def refreshKey (baseKey storageKey : GoString) : GoString := baseKey ++ 0 :: storageKey

/-- One step; `coalescing` is the configuration of the handler. -/
def step (coalescing : Bool) (s : State) : Action → Option State
  | .arrive id key =>
    if s.threads id = none then some (s.setThread id (some (.arrived key))) else none
  | .serveFresh id =>
    match s.threads id with
    | some (.arrived _) => some (s.setThread id (some .serving))
    | _ => none
  | .serveStale id storageKey =>
    match s.threads id with
    | some (.arrived key) =>
      let flightKey := refreshKey key storageKey
      match s.table.beginFlight flightKey with
      | (table, some channel) =>
        some ({ s with table := table }.setThread id (some (.detaching flightKey channel)))
      | (table, none) => some ({ s with table := table }.setThread id (some .serving))
    | _ => none
  | .detach id refresher =>
    match s.threads id, s.threads refresher with
    | some (.detaching key channel), none =>
      some ((s.setThread refresher (some (.leading key channel))).setThread id (some .serving))
    | _, _ => none
  | .coalesce id =>
    match coalescing, s.threads id with
    | true, some (.arrived key) =>
      match s.table.beginFlight key with
      | (table, some channel) =>
        some ({ s with table := table }.setThread id (some (.leading key channel)))
      | (table, none) => some ({ s with table := table }.setThread id (some (.joining key)))
    | _, _ => none
  | .fetch id =>
    match coalescing, s.threads id with
    | false, some (.arrived _) => some (s.setThread id (some .serving))
    | _, _ => none
  | .join id =>
    match s.threads id with
    | some (.joining key) =>
      let (table, channel) := s.table.flightDone key
      some ({ s with table := table }.setThread id (some (.waiting key channel)))
    | _ => none
  | .wake id _ =>
    match s.threads id with
    | some (.waiting _ channel) =>
      if channel ∈ s.table.closed then some (s.setThread id (some .serving)) else none
    | _ => none
  | .cancel id =>
    match s.threads id with
    | some (.waiting _ _) => some (s.setThread id none)
    | _ => none
  | .finish id _ =>
    match s.threads id with
    | some (.leading key _) =>
      some ({ s with table := s.table.endFlight key }.setThread id none)
    | some .serving => some (s.setThread id none)
    | _ => none

/-- Every channel is closed once or belongs to one flight. -/
structure Table.Sound (t : Table) : Prop where
  made : ∀ key channel, t.flights key = some channel → channel < t.made
  apart : ∀ key key' channel,
    t.flights key = some channel → t.flights key' = some channel → key = key'
  unclosed : ∀ key channel, t.flights key = some channel → channel ∉ t.closed
  nodup : t.closed.Nodup
  closed : ∀ channel ∈ t.closed, channel < t.made
  total : ∀ channel < t.made, channel ∈ t.closed ∨ ∃ key, t.flights key = some channel

theorem Table.sound_empty : Table.empty.Sound := by
  refine ⟨?_, ?_, ?_, ?_, ?_, ?_⟩ <;> simp [Table.empty]

section Tables

variable {t : Table} {key : GoString} {channel : Channel}

/-- The first for a key leads. -/
theorem Table.beginFlight_of_none (h : t.flights key = none) :
    t.beginFlight key = ({ t with
      flights := fun k => if k = key then some t.made else t.flights k
      made := t.made + 1 }, some t.made) := by
  unfold Table.beginFlight
  rw [h]

/-- Others do not. -/
theorem Table.beginFlight_of_some (h : t.flights key = some channel) :
    t.beginFlight key = (t, none) := by
  unfold Table.beginFlight
  rw [h]

/-- The leader closes its channel. -/
theorem Table.endFlight_of_some (h : t.flights key = some channel) :
    t.endFlight key = { t with
      flights := fun k => if k = key then none else t.flights k
      closed := t.closed ++ [channel] } := by
  unfold Table.endFlight
  rw [h]

/-- A channel that is still to be made is not known. -/
theorem Table.Sound.new (h : t.Sound) : t.made ∉ t.closed ∧ ∀ k, t.flights k ≠ some t.made := by
  constructor
  · intro hmem
    exact Nat.lt_irrefl _ (h.closed _ hmem)
  · intro k hk
    exact Nat.lt_irrefl _ (h.made k _ hk)

/-- A new flight keeps the table sound. -/
theorem Table.Sound.beginFlight (h : t.Sound) (hnone : t.flights key = none) :
    (t.beginFlight key).1.Sound := by
  obtain ⟨hnotclosed, hfresh⟩ := h.new
  rw [Table.beginFlight_of_none hnone]
  refine ⟨?_, ?_, ?_, h.nodup, ?_, ?_⟩ <;> dsimp only
  · intro k c hk
    split at hk
    · exact Option.some.inj hk ▸ Nat.lt_succ_self _
    · exact Nat.lt_succ_of_lt (h.made k c hk)
  · intro k k' c hk hk'
    split at hk <;> split at hk'
    · next hkey hkey' => exact hkey.trans hkey'.symm
    · cases hk
      exact absurd hk' (hfresh k')
    · cases hk'
      exact absurd hk (hfresh k)
    · exact h.apart k k' c hk hk'
  · intro k c hk
    split at hk
    · exact Option.some.inj hk ▸ hnotclosed
    · exact h.unclosed k c hk
  · intro c hc
    exact Nat.lt_succ_of_lt (h.closed c hc)
  · intro c hc
    rcases Nat.lt_succ_iff_lt_or_eq.mp hc with hlt | rfl
    · refine (h.total c hlt).imp_right ?_
      rintro ⟨k, hk⟩
      refine ⟨k, (if_neg ?_).trans hk⟩
      rintro rfl
      simp [hnone] at hk
    · exact .inr ⟨key, if_pos rfl⟩

/-- Waiting does, too. -/
theorem Table.Sound.flightDone (h : t.Sound) (key : GoString) : (t.flightDone key).1.Sound := by
  obtain ⟨hnotclosed, hfresh⟩ := h.new
  unfold Table.flightDone
  split
  · exact h
  · refine ⟨?_, h.apart, ?_, ?_, ?_, ?_⟩ <;> dsimp only
    · intro k c hk
      exact Nat.lt_succ_of_lt (h.made k c hk)
    · intro k c hk hmem
      rcases mem_append.mp hmem with hold | hnew
      · exact h.unclosed k c hk hold
      · exact hfresh k (mem_singleton.mp hnew ▸ hk)
    · exact concat_eq_append ▸ h.nodup.concat hnotclosed
    · intro c hc
      rcases mem_append.mp hc with hold | hnew
      · exact Nat.lt_succ_of_lt (h.closed c hold)
      · exact mem_singleton.mp hnew ▸ Nat.lt_succ_self _
    · intro c hc
      rcases Nat.lt_succ_iff_lt_or_eq.mp hc with hlt | rfl
      · exact (h.total c hlt).imp_left (mem_append_left _)
      · exact .inl (mem_append_right _ (mem_singleton.mpr rfl))

/-- And so does its end. -/
theorem Table.Sound.endFlight (h : t.Sound) (key : GoString) : (t.endFlight key).Sound := by
  cases hkey : t.flights key with
  | none =>
    unfold Table.endFlight
    rw [hkey]
    exact h
  | some channel =>
    rw [Table.endFlight_of_some hkey]
    refine ⟨?_, ?_, ?_, ?_, ?_, ?_⟩ <;> dsimp only
    · intro k c hk
      split at hk
      · cases hk
      · exact h.made k c hk
    · intro k k' c hk hk'
      split at hk
      · cases hk
      · split at hk'
        · cases hk'
        · exact h.apart k k' c hk hk'
    · intro k c hk hmem
      split at hk
      · cases hk
      · next hne =>
        rcases mem_append.mp hmem with hold | hnew
        · exact h.unclosed k c hk hold
        · exact hne (h.apart k key c hk (mem_singleton.mp hnew ▸ hkey))
    · exact concat_eq_append ▸ h.nodup.concat (h.unclosed key channel hkey)
    · intro c hc
      rcases mem_append.mp hc with hold | hnew
      · exact h.closed c hold
      · exact mem_singleton.mp hnew ▸ h.made key channel hkey
    · intro c hc
      rcases h.total c hc with hold | ⟨k, hk⟩
      · exact .inl (mem_append_left _ hold)
      · by_cases hne : k = key
        · subst hne
          obtain rfl := Option.some.inj (hkey.symm.trans hk)
          exact .inl (mem_append_right _ (mem_singleton.mpr rfl))
        · exact .inr ⟨k, (if_neg hne).trans hk⟩

end Tables

/-- A flight that ends with the goroutine. -/
def Thread.flight : Thread → Option (GoString × Channel)
  | .detaching key channel => some (key, channel)
  | .leading key channel => some (key, channel)
  | _ => none

/-- The goroutine leads the flight of a key. -/
def State.Leads (s : State) (id : ThreadId) (key : GoString) (channel : Channel) : Prop :=
  (s.threads id).bind Thread.flight = some (key, channel)

/-- A goroutine waits for a channel of a flight or for a closed one. -/
def Table.Wakes (t : Table) (key : GoString) (channel : Channel) : Prop :=
  channel ∈ t.closed ∨ t.flights key = some channel

/-- Every flight has its leader, and every leader its flight. -/
structure Lawful (s : State) : Prop where
  sound : s.table.Sound
  registered : ∀ id key channel, s.Leads id key channel → s.table.flights key = some channel
  led : ∀ key channel, s.table.flights key = some channel → ∃ id, s.Leads id key channel
  single : ∀ id id' key channel, s.Leads id key channel → s.Leads id' key channel → id = id'
  waiting : ∀ id key channel, s.threads id = some (.waiting key channel) →
    s.table.Wakes key channel

/-- The empty table. -/
theorem lawful_init : Lawful init :=
  ⟨Table.sound_empty, by simp [init, State.Leads], by simp [init, Table.empty],
    by simp [init, State.Leads], by simp [init]⟩

section Steps

variable {s : State} {id : ThreadId} {key : GoString} {channel : Channel} {thread : Option Thread}

/-- Who leads after a thread went on. -/
theorem leads_setThread {i : ThreadId} :
    (s.setThread id thread).Leads i key channel ↔
      (i = id ∧ thread.bind Thread.flight = some (key, channel)) ∨
        (i ≠ id ∧ s.Leads i key channel) := by
  unfold State.Leads State.setThread
  dsimp only
  split
  · next h => simp [h]
  · next h => simp [h]

/-- A channel that wakes goroutines does so in a later table. -/
theorem waiting_setThread {t : Table} (h : Lawful s)
    (htable : ∀ key channel, s.table.Wakes key channel → t.Wakes key channel)
    (hthread : ∀ key channel, thread = some (.waiting key channel) → t.Wakes key channel)
    (i : ThreadId) (key : GoString) (channel : Channel)
    (hi : ({ s with table := t }.setThread id thread).threads i = some (.waiting key channel)) :
    t.Wakes key channel := by
  unfold State.setThread at hi
  dsimp only at hi
  split at hi
  · exact hthread key channel hi
  · exact htable key channel (h.waiting i key channel hi)

/-- **A goroutine that leads no flight goes on**, and leads none. -/
theorem Lawful.setThread (h : Lawful s) (hold : (s.threads id).bind Thread.flight = none)
    (hnew : thread.bind Thread.flight = none)
    (hwaiting : ∀ key channel, thread = some (.waiting key channel) → s.table.Wakes key channel) :
    Lawful (s.setThread id thread) := by
  have hleads : ∀ i key channel, (s.setThread id thread).Leads i key channel ↔
      s.Leads i key channel := by
    intro i key channel
    rw [leads_setThread]
    constructor
    · rintro (⟨-, hx⟩ | ⟨-, hx⟩)
      · simp [hnew] at hx
      · exact hx
    · intro hx
      refine .inr ⟨?_, hx⟩
      rintro rfl
      simp [State.Leads, hold] at hx
  refine ⟨h.sound, ?_, ?_, ?_, waiting_setThread h (fun _ _ hw => hw) hwaiting⟩
  · intro i key channel hi
    exact h.registered i key channel ((hleads i key channel).mp hi)
  · intro key channel hflight
    obtain ⟨i, hi⟩ := h.led key channel hflight
    exact ⟨i, (hleads i key channel).mpr hi⟩
  · intro i i' key channel hi hi'
    exact h.single i i' key channel ((hleads _ _ _).mp hi) ((hleads _ _ _).mp hi')

/-- **A flight begins.**  The goroutine leads it. -/
theorem Lawful.beginFlight (h : Lawful s) (thread : Option Thread)
    (hold : (s.threads id).bind Thread.flight = none) (hnone : s.table.flights key = none)
    (hnew : thread.bind Thread.flight = some (key, s.table.made)) :
    Lawful ({ s with table := (s.table.beginFlight key).1 }.setThread id thread) := by
  have hflights : ∀ k, (s.table.beginFlight key).1.flights k =
      if k = key then some s.table.made else s.table.flights k := by
    rw [Table.beginFlight_of_none hnone]
    exact fun _ => rfl
  have hclosed : (s.table.beginFlight key).1.closed = s.table.closed := by
    rw [Table.beginFlight_of_none hnone]
  have hother : ∀ i k channel, s.Leads i k channel → k ≠ key := by
    rintro i k channel hi rfl
    simp [h.registered i k channel hi] at hnone
  have hkept : ∀ k channel, s.table.flights k = some channel →
      (s.table.beginFlight key).1.flights k = some channel := by
    intro k channel hk
    rw [hflights, if_neg, hk]
    rintro rfl
    simp [hnone] at hk
  refine ⟨h.sound.beginFlight hnone, ?_, ?_, ?_, ?_⟩
  · intro i k channel hi
    rcases leads_setThread.mp hi with ⟨-, hx⟩ | ⟨-, hx⟩
    · obtain ⟨rfl, rfl⟩ := Prod.mk.inj (Option.some.inj (hnew.symm.trans hx))
      exact (hflights key).trans (if_pos rfl)
    · exact hkept k channel (h.registered i k channel hx)
  · intro k channel hflight
    change (s.table.beginFlight key).1.flights k = some channel at hflight
    rw [hflights] at hflight
    split at hflight
    · next hk =>
      cases hflight
      exact ⟨id, leads_setThread.mpr (.inl ⟨rfl, hk ▸ hnew⟩)⟩
    · obtain ⟨i, hi⟩ := h.led k channel hflight
      refine ⟨i, leads_setThread.mpr (.inr ⟨?_, hi⟩)⟩
      rintro rfl
      simp [State.Leads, hold] at hi
  · intro i i' k channel hi hi'
    rcases leads_setThread.mp hi with ⟨rfl, hx⟩ | ⟨hne, hx⟩ <;>
      rcases leads_setThread.mp hi' with ⟨rfl, hx'⟩ | ⟨hne', hx'⟩
    · rfl
    · obtain ⟨rfl, -⟩ := Prod.mk.inj (Option.some.inj (hnew.symm.trans hx))
      exact absurd rfl (hother i' key channel hx')
    · obtain ⟨rfl, -⟩ := Prod.mk.inj (Option.some.inj (hnew.symm.trans hx'))
      exact absurd rfl (hother i key channel hx)
    · exact h.single i i' k channel hx hx'
  · refine waiting_setThread h ?_ ?_
    · rintro k channel (hmem | hk)
      · exact .inl (hclosed ▸ hmem)
      · exact .inr (hkept k channel hk)
    · rintro k channel rfl
      simp [Thread.flight] at hnew

/-- `beginFlight` found a flight. -/
theorem Lawful.beginFlight_of_some (h : Lawful s) (thread : Option Thread)
    (hold : (s.threads id).bind Thread.flight = none)
    (hsome : s.table.flights key = some channel) (hnew : thread.bind Thread.flight = none)
    (hwaiting : ∀ key channel, thread ≠ some (.waiting key channel)) :
    Lawful ({ s with table := (s.table.beginFlight key).1 }.setThread id thread) := by
  rw [Table.beginFlight_of_some hsome]
  exact h.setThread hold hnew fun k c hx => absurd hx (hwaiting k c)

/-- **A request joins**: it gets the channel of a flight, or a closed one. -/
theorem Lawful.flightDone (h : Lawful s) (hold : (s.threads id).bind Thread.flight = none) :
    Lawful ({ s with table := (s.table.flightDone key).1 }.setThread id
      (some (.waiting key (s.table.flightDone key).2))) := by
  have hflights : (s.table.flightDone key).1.flights = s.table.flights := by
    unfold Table.flightDone
    split <;> rfl
  have hclosed : ∀ c ∈ s.table.closed, c ∈ (s.table.flightDone key).1.closed := by
    unfold Table.flightDone
    split
    · exact fun c hc => hc
    · exact fun c hc => mem_append_left _ hc
  have hwakes : (s.table.flightDone key).1.Wakes key (s.table.flightDone key).2 := by
    unfold Table.flightDone Table.Wakes
    split
    · next hkey => exact .inr hkey
    · exact .inl (mem_append_right _ (mem_singleton.mpr rfl))
  have hlater : Lawful { s with table := (s.table.flightDone key).1 } := by
    refine ⟨h.sound.flightDone key, ?_, ?_, h.single, ?_⟩
    · intro i k c hi
      exact (congrFun hflights k).trans (h.registered i k c hi)
    · intro k c hk
      exact h.led k c ((congrFun hflights k).symm.trans hk)
    · intro i k c hi
      refine (h.waiting i k c hi).imp (hclosed c) fun hk => (congrFun hflights k).trans hk
  refine hlater.setThread hold rfl fun k c hx => ?_
  obtain ⟨rfl, rfl⟩ := Thread.waiting.inj (Option.some.inj hx)
  exact hwakes

/-- **A leader ends** the flight that it leads. -/
theorem Lawful.endFlight (h : Lawful s) (hleads : s.Leads id key channel) :
    Lawful ({ s with table := s.table.endFlight key }.setThread id none) := by
  have hkey := h.registered id key channel hleads
  have htable := Table.endFlight_of_some hkey
  have hflights : ∀ k, (s.table.endFlight key).flights k =
      if k = key then none else s.table.flights k := by
    rw [htable]
    exact fun _ => rfl
  have hother : ∀ i k c, i ≠ id → s.Leads i k c → k ≠ key := by
    rintro i k c hi hlead rfl
    obtain rfl := Option.some.inj (hkey.symm.trans (h.registered i k c hlead))
    exact hi (h.single i id k channel hlead hleads)
  refine ⟨h.sound.endFlight key, ?_, ?_, ?_, ?_⟩
  · intro i k c hi
    rcases leads_setThread.mp hi with ⟨-, hx⟩ | ⟨hne, hx⟩
    · cases hx
    · exact (hflights k).trans ((if_neg (hother i k c hne hx)).trans (h.registered i k c hx))
  · intro k c hflight
    change (s.table.endFlight key).flights k = some c at hflight
    rw [hflights] at hflight
    split at hflight
    · cases hflight
    · next hne =>
      obtain ⟨i, hi⟩ := h.led k c hflight
      refine ⟨i, leads_setThread.mpr (.inr ⟨?_, hi⟩)⟩
      rintro rfl
      exact hne (Prod.mk.inj (Option.some.inj (hi.symm.trans hleads))).1
  · intro i i' k c hi hi'
    rcases leads_setThread.mp hi with ⟨-, hx⟩ | ⟨-, hx⟩
    · cases hx
    · rcases leads_setThread.mp hi' with ⟨-, hx'⟩ | ⟨-, hx'⟩
      · cases hx'
      · exact h.single i i' k c hx hx'
  · refine waiting_setThread h ?_ ?_
    · rintro k c (hmem | hk)
      · exact .inl (htable ▸ mem_append_left _ hmem)
      · by_cases hne : k = key
        · subst hne
          obtain rfl := Option.some.inj (hkey.symm.trans hk)
          exact .inl (htable ▸ mem_append_right _ (mem_singleton.mpr rfl))
        · exact .inr ((hflights k).trans ((if_neg hne).trans hk))
    · rintro k c ⟨⟩

/-- The goroutine of a refresh takes over the flight. -/
theorem Lawful.detach (h : Lawful s) {refresher : ThreadId}
    (hid : s.threads id = some (.detaching key channel)) (hfree : s.threads refresher = none) :
    Lawful ((s.setThread refresher (some (.leading key channel))).setThread id
      (some .serving)) := by
  have hne : refresher ≠ id := by
    rintro rfl
    simp [hid] at hfree
  have hown : s.Leads id key channel := by simp [State.Leads, hid, Thread.flight]
  have hleads : ∀ i k c,
      ((s.setThread refresher (some (.leading key channel))).setThread id
        (some .serving)).Leads i k c
        ↔ (i = refresher ∧ k = key ∧ c = channel) ∨ (i ≠ id ∧ s.Leads i k c) := by
    intro i k c
    rw [leads_setThread, leads_setThread]
    constructor
    · rintro (⟨-, hx⟩ | ⟨hi, ⟨rfl, hx⟩ | ⟨-, hx⟩⟩)
      · cases hx
      · cases hx
        exact .inl ⟨rfl, rfl, rfl⟩
      · exact .inr ⟨hi, hx⟩
    · rintro (⟨rfl, rfl, rfl⟩ | ⟨hi, hx⟩)
      · exact .inr ⟨hne, .inl ⟨rfl, rfl⟩⟩
      · refine .inr ⟨hi, .inr ⟨?_, hx⟩⟩
        rintro rfl
        simp [State.Leads, hfree] at hx
  refine ⟨h.sound, ?_, ?_, ?_, ?_⟩
  · intro i k c hi
    rcases (hleads i k c).mp hi with ⟨-, rfl, rfl⟩ | ⟨-, hx⟩
    · exact h.registered id k c hown
    · exact h.registered i k c hx
  · intro k c hk
    obtain ⟨i, hi⟩ := h.led k c hk
    by_cases heq : i = id
    · subst heq
      obtain ⟨rfl, rfl⟩ := Prod.mk.inj (Option.some.inj (hi.symm.trans hown))
      exact ⟨refresher, (hleads _ _ _).mpr (.inl ⟨rfl, rfl, rfl⟩)⟩
    · exact ⟨i, (hleads i k c).mpr (.inr ⟨heq, hi⟩)⟩
  · intro i i' k c hi hi'
    rcases (hleads i k c).mp hi with ⟨rfl, rfl, rfl⟩ | ⟨hx, hlead⟩ <;>
      rcases (hleads i' k c).mp hi' with ⟨rfl, hk, hc⟩ | ⟨hx', hlead'⟩
    · rfl
    · exact absurd (h.single i' id k c hlead' hown) hx'
    · exact absurd (h.single i id k c hlead (hk ▸ hc ▸ hown)) hx
    · exact h.single i i' k c hlead hlead'
  · intro i k c hi
    unfold State.setThread at hi
    dsimp only at hi
    split at hi
    · cases hi
    · split at hi
      · cases hi
      · exact h.waiting i k c hi

/-- Every step is lawful. -/
theorem lawful_step {coalescing : Bool} {t : State} {a : Action} (h : Lawful s)
    (hstep : step coalescing s a = some t) : Lawful t := by
  cases a with
  | arrive id key =>
    obtain ⟨hfree, hstep⟩ := Option.ite_none_right_eq_some.mp hstep
    cases hstep
    exact h.setThread (by simp [hfree]) rfl (by simp)
  | serveFresh | fetch | cancel =>
    simp only [step] at hstep
    split at hstep <;> cases hstep
    next hid => exact h.setThread (by simp [hid, Thread.flight]) rfl (by simp)
  | serveStale id storageKey =>
    simp only [step] at hstep
    split at hstep
    · next key hid =>
      have hold : (s.threads id).bind Thread.flight = none := by simp [hid, Thread.flight]
      cases hflight : s.table.flights (refreshKey key storageKey) with
      | none =>
        have hlawful := h.beginFlight
          (some (.detaching (refreshKey key storageKey) s.table.made)) hold hflight rfl
        rw [Table.beginFlight_of_none hflight] at hstep hlawful
        cases hstep
        exact hlawful
      | some channel =>
        have hlawful := h.beginFlight_of_some (some .serving) hold hflight rfl (by simp)
        rw [Table.beginFlight_of_some hflight] at hstep hlawful
        cases hstep
        exact hlawful
    · cases hstep
  | detach id refresher =>
    simp only [step] at hstep
    split at hstep <;> cases hstep
    next hid hfree => exact h.detach hid hfree
  | coalesce id =>
    simp only [step] at hstep
    split at hstep
    · next key hid =>
      have hold : (s.threads id).bind Thread.flight = none := by simp [hid, Thread.flight]
      cases hflight : s.table.flights key with
      | none =>
        have hlawful := h.beginFlight (some (.leading key s.table.made)) hold hflight rfl
        rw [Table.beginFlight_of_none hflight] at hstep hlawful
        cases hstep
        exact hlawful
      | some channel =>
        have hlawful := h.beginFlight_of_some (some (.joining key)) hold hflight rfl (by simp)
        rw [Table.beginFlight_of_some hflight] at hstep hlawful
        cases hstep
        exact hlawful
    · cases hstep
  | join id =>
    simp only [step] at hstep
    split at hstep <;> cases hstep
    next key hid => exact h.flightDone (by simp [hid, Thread.flight])
  | wake id fresh =>
    simp only [step] at hstep
    split at hstep
    · next hid =>
      obtain ⟨-, hstep⟩ := Option.ite_none_right_eq_some.mp hstep
      cases hstep
      exact h.setThread (by simp [hid, Thread.flight]) rfl (by simp)
    · cases hstep
  | finish id ending =>
    simp only [step] at hstep
    split at hstep <;> cases hstep
    · next key channel hid =>
      have hleads : s.Leads id key channel := by simp [State.Leads, hid, Thread.flight]
      exact h.endFlight hleads
    · next hid => exact h.setThread (by simp [hid, Thread.flight]) rfl (by simp)

end Steps

/-- And so is every run. -/
theorem lawful_run {coalescing : Bool} {as : List Action} {s : State}
    (hrun : run (step coalescing) init as = some s) : Lawful s :=
  run_invariant (fun _ _ _ h hstep => lawful_step h hstep) lawful_init hrun

/-- **Coalesced requests.**  In every state that is reached, a key has at most one
leader.  A channel that was made is closed exactly once, or not yet and then one
goroutine is still to close it.  A request that waits does so for a channel that
is closed or whose flight has a leader. -/
theorem flights_lawful (coalescing : Bool) (as : List Action) (s : State)
    (hrun : run (step coalescing) init as = some s) :
    (∀ id id' key channel channel', s.Leads id key channel → s.Leads id' key channel' →
      id = id' ∧ channel = channel') ∧
    (∀ channel < s.table.made,
      s.table.closed.count channel = 1 ∧ (∀ id key, ¬ s.Leads id key channel) ∨
      s.table.closed.count channel = 0 ∧ ∃ id key, s.Leads id key channel) ∧
    (∀ id key channel, s.threads id = some (.waiting key channel) →
      channel ∈ s.table.closed ∨ ∃ leader, s.Leads leader key channel) := by
  have h := lawful_run hrun
  refine ⟨?_, ?_, ?_⟩
  · intro id id' key channel channel' hid hid'
    obtain rfl := Option.some.inj
      ((h.registered id key channel hid).symm.trans (h.registered id' key channel' hid'))
    exact ⟨h.single id id' key channel hid hid', rfl⟩
  · intro channel hmade
    rcases h.sound.total channel hmade with hclosed | ⟨key, hflight⟩
    · refine .inl ⟨count_eq_one_of_mem h.sound.nodup hclosed, fun id key hlead => ?_⟩
      exact h.sound.unclosed key channel (h.registered id key channel hlead) hclosed
    · obtain ⟨id, hid⟩ := h.led key channel hflight
      exact .inr ⟨count_eq_zero.mpr (h.sound.unclosed key channel hflight), id, key, hid⟩
  · intro id key channel hid
    exact (h.waiting id key channel hid).imp_right (h.led key channel)

/-- The first leader fails while another request is about to wait; that one waits
for the flight of a third. -/
def replacedRun : List Action :=
  [.arrive 0 (lit "k"), .coalesce 0, .arrive 1 (lit "k"), .coalesce 1, .finish 0 .panicked,
    .arrive 2 (lit "k"), .coalesce 2, .join 1]

theorem flights_lawful_replacedRun :
    ∃ s, run (step true) init replacedRun = some s ∧
      s.threads 1 = some (.waiting (lit "k") 1) ∧ s.table.closed = [0] ∧
      ∃ leader, s.Leads leader (lit "k") 1 := by
  have hends : ∃ s, run (step true) init replacedRun = some s ∧
      s.threads 1 = some (.waiting (lit "k") 1) ∧ s.table.closed = [0] := by
    apply ends_of_any
    decide +kernel
  obtain ⟨s, hrun, hwaiting, hclosed⟩ := hends
  refine ⟨s, hrun, hwaiting, hclosed, ?_⟩
  obtain ⟨-, -, h⟩ := flights_lawful true replacedRun s hrun
  exact (h 1 (lit "k") 1 hwaiting).resolve_left (by simp [hclosed])

end CacheFlights
