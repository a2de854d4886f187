import Mathlib

/-!
# The bodies that lookups open

A lookup may open the body of a stored response, and the handler has to close it on
every way out.  The model keeps what decides the way through the handler: what the
lookups find, what becomes of the origin's response, and the state of the cache's
clocks.  Everything else is left out, and all of it is arbitrary.

The handler makes up to three lookups for a request, and a background refresh one of
its own.  Of what a repeated lookup finds, only the response of the wanted kind is
taken; the other is dropped without being closed.

* `mem_fetchAndServe`: every way out of `fetchAndServe` closes the stale body it is given;
* `closed_afterWait`, `closed_afterStore`: a repeated lookup's body is closed if it is fresh;
* `opened_afterWait`, `opened_afterStore`: for which requests they are made;
* `bodies_closed_iff`: nothing stays open exactly if nothing was dropped.
-/

namespace CacheBodies

/-- The lookups for a request, in their order, and that of a refresh. -/
inductive Lookup
  | initial
  | afterWait
  | afterStore
  | background
deriving DecidableEq

/-- What `LookupEntryFull` returns: at most one response, perhaps with an open
file.  The file of a response that is not returned is closed by the lookup. -/
inductive Found
  | nothing
  | fresh (file : Bool)
  | stale (file : Bool)
deriving DecidableEq

/-- What happens to the body of a lookup. -/
inductive Event
  | opened (l : Lookup)
  | closed (l : Lookup)
deriving DecidableEq

/-- A file is left open. -/
def Found.file : Found → Bool
  | .nothing => false
  | .fresh file => file
  | .stale file => file

/-- A fresh response was found. -/
def Found.isFresh : Found → Bool
  | .fresh _ => true
  | _ => false

/-- The body that a lookup opens. -/
def Found.events (l : Lookup) (found : Found) : List Event := if found.file then [.opened l] else []

/-- `_ = stale.Body.Close()` where there is a stale response. -/
def close (stale : Option Lookup) : List Event := stale.toList.map .closed

/-- `serveCached` closes the body when it returns, whatever it has written. -/
def serveCached (l : Lookup) : List Event := [.closed l]

/-- What becomes of the origin's response, and what is looked up behind it. -/
structure Fetch where
  /-- `newCapturedResponse` fails -/
  captureFails : Bool
  /-- the response is encoded while it is passed on -/
  encode : Bool
  /-- `err`, `captureErr` and `incomplete` -/
  failed : Bool
  captureErr : Bool
  incomplete : Bool
  /-- 500, 502, 503 and 504 -/
  staleEligible : Bool
  notModified : Bool
  streamed : Bool
  /-- `withinStaleWindow` for errors -/
  staleIfError : Bool
  discarded : Bool
  /-- `cacheable`, and a usable `Vary` -/
  cacheable : Bool
  /-- the entry was written -/
  stored : Bool
  ranged : Bool
  found : Found

/-- The way out of a response that was encoded. -/
def finishStreamEncode (f : Fetch) (stale : Option Lookup) : List Event :=
  if f.failed || f.incomplete || f.staleEligible then
    match stale with
    | some l => if f.staleIfError then serveCached l else close stale
    | none => close stale
  else close stale

/-- The lookup behind a store, for a request with a range. -/
def serveStored (f : Fetch) : List Event :=
  if f.ranged && f.stored then
    f.found.events .afterStore ++ if f.found.isFresh then serveCached .afterStore else []
  else []

/-- The ways out of a fetch. -/
def fetchAndServe (f : Fetch) (stale : Option Lookup) : List Event :=
  if f.captureFails then close stale
  else if f.encode then finishStreamEncode f stale
  else if f.failed || f.captureErr || f.incomplete || f.staleEligible then
    match stale with
    | some l => if !f.streamed && f.staleIfError then serveCached l else close stale
    | none => close stale
  else
    match f.notModified, stale with
    | true, some l => serveCached l
    | _, _ =>
      close stale ++ if f.discarded || !f.cacheable then [] else serveStored f

/-- A request, with what its lookups find. -/
structure Request where
  authorized : Bool
  initial : Found
  /-- `withinStaleWindow` for the revalidation in the background -/
  staleWhileRevalidate : Bool
  /-- another request for the same key is under way, and is waited for -/
  waits : Bool
  /-- the client gives up while it waits -/
  cancelled : Bool
  afterWait : Found
  fetch : Fetch

/-- The way behind the first lookup. -/
def serveMiss (r : Request) (stale : Option Lookup) : List Event :=
  if r.waits then
    if r.cancelled then close stale
    else
      r.afterWait.events .afterWait ++
        if r.afterWait.isFresh then close stale ++ serveCached .afterWait
        else fetchAndServe r.fetch stale
  else fetchAndServe r.fetch stale

/-- The whole handler. -/
def serveHTTP (r : Request) : List Event :=
  if r.authorized then []
  else
    r.initial.events .initial ++
      match r.initial with
      | .fresh _ => serveCached .initial
      | .stale _ =>
        if r.staleWhileRevalidate then serveCached .initial else serveMiss r (some .initial)
      | .nothing => serveMiss r none

/-- `refresh`, in the background; what the origin answers makes no difference. -/
def refresh (found : Found) : List Event :=
  found.events .background ++
    match found with
    | .stale _ => [.closed .background]
    | _ => []

/-- Nothing that was opened stays open. -/
def AllClosed (log : List Event) : Prop := ∀ l, .opened l ∈ log → .closed l ∈ log

variable {f : Fetch} {r : Request} {l : Lookup} {stale : Option Lookup} {e : Event}

@[simp] theorem mem_close : e ∈ close stale ↔ ∃ l ∈ stale, e = .closed l := by
  simp [close, eq_comm]

@[simp] theorem mem_serveCached : e ∈ serveCached l ↔ e = .closed l := by
  simp [serveCached]

@[simp] theorem mem_events {found : Found} :
    e ∈ found.events l ↔ found.file = true ∧ e = .opened l := by
  unfold Found.events
  split <;> simp_all

/-- The response is stored, and the stale body is gone by then. -/
def Fetch.stores (f : Fetch) (stale : Option Lookup) : Bool :=
  !f.captureFails && !f.encode &&
    !(f.failed || f.captureErr || f.incomplete || f.staleEligible) &&
    !(f.notModified && stale.isSome) && !(f.discarded || !f.cacheable)

@[simp] theorem mem_serveStored : e ∈ serveStored f ↔ (f.ranged && f.stored) = true ∧
    ((f.found.file = true ∧ e = .opened .afterStore) ∨
      (f.found.isFresh = true ∧ e = .closed .afterStore)) := by
  unfold serveStored
  split
  · split <;> simp_all
  · simp_all

/-- **Every way out of `fetchAndServe`** closes the stale body. -/
theorem mem_fetchAndServe : e ∈ fetchAndServe f stale ↔
    (∃ l ∈ stale, e = .closed l) ∨ (f.stores stale = true ∧ e ∈ serveStored f) := by
  unfold fetchAndServe finishStreamEncode Fetch.stores
  cases stale <;> cases f.notModified <;> dsimp only <;> split_ifs <;>
    grind [mem_close, mem_serveCached]

/-- A body that `serveMiss` is given is closed, and of the bodies of later lookups
those that are fresh. -/
theorem mem_serveMiss : e ∈ serveMiss r stale ↔
    (∃ l ∈ stale, e = .closed l) ∨
    ((r.waits && !r.cancelled) = true ∧
      ((r.afterWait.file = true ∧ e = .opened .afterWait) ∨
        (r.afterWait.isFresh = true ∧ e = .closed .afterWait))) ∨
    (((!r.waits || (!r.cancelled && !r.afterWait.isFresh)) && r.fetch.stores stale) = true ∧
      e ∈ serveStored r.fetch) := by
  unfold serveMiss
  split_ifs <;> grind [mem_close, mem_serveCached, mem_events, mem_fetchAndServe]

/-- What the whole handler does with the bodies of its lookups. -/
theorem mem_serveHTTP : e ∈ serveHTTP r ↔ r.authorized = false ∧
    ((r.initial.file = true ∧ e = .opened .initial) ∨
      match r.initial with
      | .fresh _ => e = .closed .initial
      | .stale _ =>
        if r.staleWhileRevalidate then e = .closed .initial else e ∈ serveMiss r (some .initial)
      | .nothing => e ∈ serveMiss r none) := by
  unfold serveHTTP
  split
  · simp_all
  · cases r.initial with
    | nothing => simp_all
    | fresh file => simp_all
    | stale file => split_ifs <;> simp_all

/-- The first lookup's body is closed on every way out. -/
theorem closed_initial (h : .opened .initial ∈ serveHTTP r) : .closed .initial ∈ serveHTTP r := by
  rw [mem_serveHTTP] at h ⊢
  cases hfound : r.initial with
  | nothing => simp_all [mem_serveMiss, Found.file]
  | fresh file => simp_all
  | stale file => split_ifs <;> simp_all [mem_serveMiss]

/-- The lookup after waiting: a fresh body is closed, no other. -/
theorem closed_afterWait (h : .opened .afterWait ∈ serveHTTP r) :
    .closed .afterWait ∈ serveHTTP r ↔ r.afterWait.isFresh = true := by
  rw [mem_serveHTTP] at h ⊢
  cases hfound : r.initial with
  | nothing => simp_all [mem_serveMiss]
  | fresh file => simp_all
  | stale file => split_ifs at h ⊢ <;> simp_all [mem_serveMiss]

/-- And so is that of the lookup after storing. -/
theorem closed_afterStore (h : .opened .afterStore ∈ serveHTTP r) :
    .closed .afterStore ∈ serveHTTP r ↔ r.fetch.found.isFresh = true := by
  rw [mem_serveHTTP] at h ⊢
  cases hfound : r.initial with
  | nothing => simp_all [mem_serveMiss]
  | fresh file => simp_all
  | stale file => split_ifs at h ⊢ <;> simp_all [mem_serveMiss]

/-- The request is neither passed on nor answered from the first lookup. -/
def Request.misses (r : Request) : Bool :=
  !r.authorized &&
    match r.initial with
    | .nothing => true
    | .fresh _ => false
    | .stale _ => !r.staleWhileRevalidate

/-- The response of the first lookup that is kept at a miss. -/
def Request.kept (r : Request) : Option Lookup :=
  match r.initial with
  | .stale _ => some .initial
  | _ => none

/-- The request waits for another one, and looks up again. -/
def Request.retries (r : Request) : Bool := r.misses && r.waits && !r.cancelled

/-- The request stores the origin's response, and looks up a range of it. -/
def Request.rereads (r : Request) : Bool :=
  r.misses && (!r.waits || (!r.cancelled && !r.afterWait.isFresh)) &&
    r.fetch.stores r.kept && r.fetch.ranged && r.fetch.stored

/-- When the lookup after waiting opens a body. -/
theorem opened_afterWait :
    .opened .afterWait ∈ serveHTTP r ↔ r.retries = true ∧ r.afterWait.file = true := by
  rw [mem_serveHTTP, Request.retries, Request.misses]
  cases r.initial with
  | nothing => simp [mem_serveMiss, and_assoc]
  | fresh file => simp
  | stale file => split_ifs <;> simp_all [mem_serveMiss, and_assoc]

/-- When the lookup after storing does. -/
theorem opened_afterStore :
    .opened .afterStore ∈ serveHTTP r ↔ r.rereads = true ∧ r.fetch.found.file = true := by
  rw [mem_serveHTTP, Request.rereads, Request.misses, Request.kept]
  cases r.initial with
  | nothing => simp [mem_serveMiss, and_assoc]
  | fresh file => simp
  | stale file => split_ifs <;> simp_all [mem_serveMiss, and_assoc]

/-- A file that is not a fresh response's is a stale one's. -/
theorem fresh_of_file {found : Found} :
    (found.file = true → found.isFresh = true) ↔ found ≠ .stale true := by
  cases found with
  | nothing => simp [Found.file]
  | fresh file => simp [Found.isFresh]
  | stale file => simp [Found.file, Found.isFresh]

/-- The handler makes no lookup of a refresh. -/
theorem not_opened_background : .opened .background ∉ serveHTTP r := by
  rw [mem_serveHTTP]
  cases r.initial with
  | nothing => simp [mem_serveMiss]
  | fresh file => simp
  | stale file => split_ifs <;> simp [mem_serveMiss]

/-- **Nothing stays open exactly if nothing was dropped.**  For every request and
whatever its lookups find, the bodies that were opened are closed when the handler
returns if and only if neither of the repeated lookups, where it is made, finds a stale
response with an open file; and a background refresh closes what it opens if and only if
it does not find a fresh one. -/
theorem bodies_closed_iff (r : Request) (found : Found) :
    (AllClosed (serveHTTP r) ↔
      (r.retries = true → r.afterWait ≠ .stale true) ∧
        (r.rereads = true → r.fetch.found ≠ .stale true)) ∧
    (AllClosed (refresh found) ↔ found ≠ .fresh true) := by
  constructor
  · rw [← fresh_of_file, ← fresh_of_file]
    constructor
    · intro h
      constructor
      · intro hretries hfile
        have hopened := opened_afterWait.mpr ⟨hretries, hfile⟩
        exact (closed_afterWait hopened).mp (h _ hopened)
      · intro hrereads hfile
        have hopened := opened_afterStore.mpr ⟨hrereads, hfile⟩
        exact (closed_afterStore hopened).mp (h _ hopened)
    · rintro ⟨hwait, hstore⟩ l hl
      cases l with
      | initial => exact closed_initial hl
      | afterWait =>
        obtain ⟨hretries, hfile⟩ := opened_afterWait.mp hl
        exact (closed_afterWait hl).mpr (hwait hretries hfile)
      | afterStore =>
        obtain ⟨hrereads, hfile⟩ := opened_afterStore.mp hl
        exact (closed_afterStore hl).mpr (hstore hrereads hfile)
      | background => exact absurd hl not_opened_background
  · cases found <;> simp [AllClosed, refresh, Found.file]

/-- A response that arrives and is passed on without being stored. -/
def uncached : Fetch :=
  { captureFails := false, encode := false, failed := false, captureErr := false,
    incomplete := false, staleEligible := false, notModified := false, streamed := false,
    staleIfError := false, discarded := true, cacheable := false, stored := false,
    ranged := false, found := .nothing }

/-- A request waits for another one that does not renew the entry: the stale body its
second lookup opens is never closed.  Nor is the fresh one a refresh finds. -/
theorem stale_body_left_open :
    serveHTTP { authorized := false, initial := .stale true, staleWhileRevalidate := false,
                waits := true, cancelled := false, afterWait := .stale true,
                fetch := uncached } =
        [.opened .initial, .opened .afterWait, .closed .initial] ∧
      refresh (.fresh true) = [.opened .background] := by
  decide

end CacheBodies
