import GovetoEdge.ProviderOperations
import GovetoEdge.Runs
import GovetoEdge.SqlTables

/-!
# The space of response captures

A response of the origin is captured in a file before it becomes an entry of the
cache.  A capture reserves space with the provider of the cache as it grows, and
the provider counts in `captureBytes` what captures hold.  The space is given back
when the capture is discarded; if an encoder still works when the capture is
closed, then a goroutine gives it back once the encoder is done.

Each capture belongs to one goroutine.  One step of the model is one section of
the provider under its lock, or what the goroutine of a capture does between two
of them; so the moments between a grant and the addition to `reserved`, and
between a release and `reserved = 0`, are states of their own.  The cache's own
use of the disk, its limits, the clock, the answer of the disk and the decisions
that depend on headers are arguments.  The slots that bound the number of captures
are left out, as are files and the data itself.

`grants` and the `parts` of an amount are not in the program: they say which
grants an amount is made of, and how often each was released.

* `captures_accounted`: the counter is the sum of what captures hold, each grant
  is released once, and a grant stays within the free space.
-/

namespace CaptureAccounting

open SqlTables List Option Runs
open CacheProvider (Provider)
open ProviderOperations (Budget Limits Usage capacityAvailable)

/-- A grant of the provider. -/
structure Part where
  serial : Nat
  bytes : Nat
deriving DecidableEq

/-- How long the usage of the disk is trusted. -/
def captureUsageTTL : Int := 100000000

/-- `captureDiskUsageLocked`, with the snapshot that is kept. -/
def captureDiskUsage (cached : Option (Usage × Int)) (read : Option Usage) (now : Int) :
    Option (Usage × Int) :=
  match cached with
  | some (usage, at_) =>
    if now - at_ < captureUsageTTL then some (usage, at_) else read.map fun usage => (usage, now)
  | none => read.map fun usage => (usage, now)

/-- What the budget leaves. -/
def accountedFree (budget : Budget) : Nat :=
  budget.accountedAvailable - min budget.accountedAvailable budget.accountedUsed

/-- What the disk leaves. -/
def physicalFree (budget : Budget) : Nat :=
  budget.physicalAvailable - min budget.physicalAvailable budget.physicalUsed

/-- The admission of `ReserveCapture`. -/
def admits (budget : Budget) (captureBytes bytes : Nat) : Bool :=
  let accounted := accountedFree budget - min (accountedFree budget) captureBytes
  let physical := physicalFree budget - min (physicalFree budget) captureBytes
  !(accounted < bytes || physical < bytes)

/-- `ReleaseCapture`. -/
def releaseCapture (captureBytes bytes : Nat) : Nat := captureBytes - min captureBytes bytes

/-- What a reservation is for. -/
inductive Purpose
  | write (length : Nat)
  | encode
deriving DecidableEq

/-- Where `discardCapture` returns to. -/
inductive Next
  | write (length : Nat)
  | header
  | close
deriving DecidableEq

/-- Where the goroutine of a capture stands. -/
inductive Pc
  | idle
  /-- `ReserveCapture(delta)` is to be called -/
  | reserving (delta : Nat) (purpose : Purpose)
  /-- it was granted, and is to be added to `reserved` -/
  | granted (part : Part) (purpose : Purpose)
  /-- the file is to be written -/
  | writing (length : Nat)
  /-- `stopCapture` -/
  | stopping (length : Nat)
  /-- `ReleaseCapture(w.reserved)` is to be called -/
  | releasing (next : Next)
  /-- it was, and `reserved` is to be set to zero -/
  | released (next : Next)
deriving DecidableEq

/-- What the goroutine that waits for an encoder gives back. -/
structure Detached where
  reserved : Nat
  parts : List Part
deriving DecidableEq

/-- `capturedResponse`.  `encodeDone` says of the channel whether it is closed. -/
structure Capture where
  id : Nat
  /-- there is a storage -/
  storage : Bool
  limit : Nat
  reserved : Nat
  parts : List Part
  declaredSize : Nat
  size : Nat
  discarded : Bool
  /-- there is a downstream -/
  foreground : Bool
  wroteHeader : Bool
  streamed : Bool
  encode : Bool
  encodeDone : Option Bool
  detached : Option Detached
  closed : Bool
  pc : Pc
deriving DecidableEq

/-- `newCapturedResponse` and `configureCapture`. -/
def newCapture (id : Nat) (storage foreground : Bool) (maxBodyBytes : Nat) : Capture where
  id := id
  storage := storage
  limit := if maxBodyBytes = 0 then 64 * 2 ^ 20 else maxBodyBytes
  reserved := 0
  parts := []
  declaredSize := 0
  size := 0
  discarded := false
  foreground := foreground
  wroteHeader := false
  streamed := false
  encode := false
  encodeDone := none
  detached := none
  closed := false
  pc := .idle

/-- The space for a spool file and its encoded copy, in blocks. -/
def neededBytes (total : Nat) : Nat := (2 * total + 8191) % 2 ^ 64 / 4096 * 4096

/-- Go on without the space. -/
def Capture.refused (c : Capture) : Purpose → Capture
  | .write length => { c with pc := .stopping length }
  | .encode => { c with discarded := true, pc := .releasing .header }

/-- Go on with the space. -/
def Capture.admitted (c : Capture) : Purpose → Capture
  | .write length => { c with pc := .writing length }
  | .encode => { c with encode := true, encodeDone := some false, pc := .idle }

/-- `reserveCapture`, up to the call of `ReserveCapture`. -/
def Capture.reserveCapture (c : Capture) (total : Nat) (purpose : Purpose) : Capture :=
  if (2 ^ 64 - 1 - 8192) / 2 < total then c.refused purpose
  else if neededBytes total ≤ c.reserved then c.admitted purpose
  else { c with pc := .reserving (neededBytes total - c.reserved) purpose }

/-- `discardCapture`, up to the call of `ReleaseCapture`. -/
def Capture.discardCapture (c : Capture) (next : Next) : Capture :=
  { c with discarded := true, pc := .releasing next }

/-- What the header of a response leads to. -/
inductive Decision
  /-- there is no streaming -/
  | buffer
  | spool
  | discard
  /-- `startEncode`, with the size of the body and of the whole object -/
  | encode (size logical : Nat)
deriving DecidableEq

/-- What the goroutine of a capture does by itself, and the end of its encoder. -/
inductive Op
  | writeHeader (declared : Nat) (decision : Decision)
  | write (length : Nat)
  | raise
  | fileWrite (count : Nat)
  | stop (seekFails : Bool)
  /-- a panic of the downstream -/
  | unwind
  | clear
  /-- `finishEncode` or `abandonEncode` -/
  | leaveEncode
  | encoderDone
  | close
deriving DecidableEq

/-- The goroutine may call a method. -/
def Capture.ready (c : Capture) : Bool := c.pc = .idle && !c.closed

/-- `WriteHeader`. -/
def Capture.writeHeader (c : Capture) (declared : Nat) : Decision → Capture
  | .buffer => { c with wroteHeader := true, declaredSize := declared }
  | .spool => { c with wroteHeader := true, declaredSize := declared, streamed := true }
  | .discard =>
    { c with wroteHeader := true, declaredSize := declared, streamed := true }.discardCapture
      .header
  | .encode size logical =>
    let c := { c with wroteHeader := true, declaredSize := declared, streamed := true }
    if !c.storage then c
    else if 0 < c.limit ∧ c.limit < size then c.refused .encode
    else c.reserveCapture logical .encode

/-- `Write`, once the header is written. -/
def Capture.write (c : Capture) (length : Nat) : Capture :=
  let total := (c.size + length) % 2 ^ 64
  if c.encode ∨ c.discarded then { c with size := total }
  else if 0 < c.limit ∧ (c.limit < total ∨ c.limit < c.declaredSize) then
    { c with pc := .stopping length }
  else c.reserveCapture total (.write length)

/-- `stopCapture`: a background refresh has nobody to forward to. -/
def Capture.stopCapture (c : Capture) (length : Nat) (seekFails : Bool) : Capture :=
  if c.streamed then c.discardCapture (.write length)
  else if !c.foreground then { c with pc := .idle }
  else if seekFails then { c with streamed := true, pc := .idle }
  else { c with streamed := true }.discardCapture (.write length)

/-- `Close`, up to the call of `ReleaseCapture`. -/
def Capture.close (c : Capture) : Capture :=
  let c := { c with closed := true, encode := false }
  if c.encodeDone = some false then
    { c with detached := some ⟨c.reserved, c.parts⟩, reserved := 0, parts := [] }.discardCapture
      .close
  else c.discardCapture .close

/-- The end of `discardCapture`. -/
def Capture.clear (c : Capture) : Next → Capture
  | .write length =>
    { c with reserved := 0, parts := [], size := (c.size + length) % 2 ^ 64, pc := .idle }
  | _ => { c with reserved := 0, parts := [], pc := .idle }

/-- One operation of a capture. -/
def Capture.act (c : Capture) : Op → Option Capture
  | .writeHeader declared decision =>
    if c.ready ∧ !c.wroteHeader ∧ (decision = .buffer ∨ c.foreground) then
      some (c.writeHeader declared decision)
    else none
  | .write length => if c.ready ∧ c.wroteHeader then some (c.write length) else none
  | .raise =>
    match c.pc with
    | .granted part purpose =>
      some ({ c with
        reserved := (c.reserved + part.bytes) % 2 ^ 64
        parts := if c.storage then c.parts ++ [part] else c.parts }.admitted purpose)
    | _ => none
  | .fileWrite count =>
    match c.pc with
    | .writing length =>
      if count ≤ length then some { c with size := (c.size + count) % 2 ^ 64, pc := .idle }
      else none
    | _ => none
  | .stop seekFails =>
    match c.pc with
    | .stopping length => some (c.stopCapture length seekFails)
    | _ => none
  | .unwind =>
    match c.pc with
    | .stopping _ => some { c with pc := .idle }
    | .writing _ => some { c with pc := .idle }
    | _ => none
  | .clear =>
    match c.pc with
    | .released next => some (c.clear next)
    | _ => none
  | .leaveEncode => if c.ready then some { c with encode := false } else none
  | .encoderDone =>
    if c.encodeDone = some false then some { c with encodeDone := some true } else none
  | .close => if c.ready then some c.close else none

/-- A grant, and how often it was released. -/
structure Grant where
  part : Part
  releases : Nat
deriving DecidableEq

/-- The counter of the provider and its captures; `grants` is their history. -/
structure State where
  captureBytes : Nat
  captureUsage : Option (Usage × Int)
  captures : List Capture
  grants : List Grant

/-- Nothing is captured. -/
def init : State := ⟨0, none, [], []⟩

/-- What captures and the provider do. -/
inductive Action
  | open (id : Nat) (storage foreground : Bool) (maxBodyBytes : Nat)
  | act (id : Nat) (op : Op)
  | reserve (id : Nat) (p : Provider) (limits : Limits) (read : Option Usage) (now : Int)
  | release (id : Nat)
  /-- the goroutine that waits for the encoder -/
  | releaseDetached (id : Nat)

/-- The capture of an identifier. -/
def State.capture (s : State) (id : Nat) : Option Capture := s.captures.find? fun c => c.id = id

/-- A capture goes on. -/
def State.put (s : State) (c : Capture) : State :=
  { s with captures := update (fun k : Capture => k.id = c.id) (fun _ => c) s.captures }

/-- The counter after a release, and the grants that it was made of. -/
def State.giveBack (s : State) (bytes : Nat) (parts : List Part) : State :=
  { s with
    captureBytes := releaseCapture s.captureBytes bytes
    grants := update (fun g : Grant => g.part ∈ parts)
      (fun g => { g with releases := g.releases + 1 }) s.grants }

/-- The counter after a grant. -/
def State.grant (s : State) (bytes : Nat) : State :=
  { s with
    captureBytes := (s.captureBytes + bytes) % 2 ^ 64
    grants := s.grants ++ [⟨⟨s.grants.length, bytes⟩, 0⟩] }

/-- `ReserveCapture`, for a capture that asks for space. -/
def State.reserve (s : State) (c : Capture) (delta : Nat) (purpose : Purpose) (p : Provider)
    (limits : Limits) (read : Option Usage) (now : Int) : State :=
  if !c.storage then s.put { c with pc := .granted ⟨0, delta⟩ purpose }
  else
    match captureDiskUsage s.captureUsage read now with
    | none => s.put (c.refused purpose)
    | some (usage, at_) =>
      let s := { s with captureUsage := some (usage, at_) }
      if admits (capacityAvailable p limits 0 usage) s.captureBytes delta then
        (s.grant delta).put { c with pc := .granted ⟨s.grants.length, delta⟩ purpose }
      else s.put (c.refused purpose)

/-- One step. -/
def step (s : State) : Action → Option State
  | .open id storage foreground maxBodyBytes =>
    if id ∈ s.captures.map Capture.id then none
    else some { s with captures := s.captures ++ [newCapture id storage foreground maxBodyBytes] }
  | .act id op => (s.capture id).bind fun c => (c.act op).map s.put
  | .reserve id p limits read now =>
    (s.capture id).bind fun c =>
      match c.pc with
      | .reserving delta purpose => some (s.reserve c delta purpose p limits read now)
      | _ => none
  | .release id =>
    (s.capture id).bind fun c =>
      match c.pc with
      | .releasing next =>
        let s := if c.storage then s.giveBack c.reserved c.parts else s
        some (s.put { c with pc := .released next })
      | _ => none
  | .releaseDetached id =>
    (s.capture id).bind fun c =>
      match c.detached, c.encodeDone with
      | some d, some true =>
        let s := if c.storage then s.giveBack d.reserved d.parts else s
        some (s.put { c with detached := none })
      | _, _ => none

/-- The bytes have been given back. -/
def Pc.isReleased : Pc → Bool
  | .released _ => true
  | _ => false

/-- A grant that is not yet added to `reserved`. -/
def Pc.grant : Pc → Option Part
  | .granted part _ => some part
  | _ => none

/-- The bytes that a capture has from the provider: `reserved` up to its release,
a grant that is still to be added, and what a goroutine waits to give back. -/
def Capture.held (c : Capture) : Nat :=
  if c.storage then
    (if c.pc.isReleased then 0 else c.reserved) + (c.pc.grant.map Part.bytes).getD 0 +
      (c.detached.map Detached.reserved).getD 0
  else 0

/-- The grants that these bytes are made of. -/
def Capture.holdings (c : Capture) : List Part :=
  if c.storage then
    (if c.pc.isReleased then [] else c.parts) ++ c.pc.grant.toList ++
      (c.detached.map Detached.parts).getD []
  else []

/-- All is given back. -/
def Capture.finished (c : Capture) : Prop := c.closed = true ∧ c.pc = .idle ∧ c.detached = none

/-- The bytes of some parts. -/
def total (parts : List Part) : Nat := (parts.map Part.bytes).sum

@[simp] theorem total_nil : total [] = 0 := rfl

@[simp] theorem total_append (ps qs : List Part) : total (ps ++ qs) = total ps + total qs := by
  simp [total]

@[simp] theorem total_singleton (p : Part) : total [p] = p.bytes := by
  simp [total]

/-- What a reservation asks for, or was granted, fits in 64 bits. -/
def Pc.fits (reserved : Nat) : Pc → Prop
  | .reserving delta _ => 0 < delta ∧ reserved + delta < 2 ^ 64
  | .granted part _ => reserved + part.bytes < 2 ^ 64
  | _ => True

/-- What holds of a capture wherever its goroutine stands. -/
structure Capture.Sound (c : Capture) : Prop where
  exact : c.storage = true → c.reserved = total c.parts
  detached : ∀ d ∈ c.detached, c.closed = true ∧ (c.storage = true → d.reserved = total d.parts)
  fits : c.pc.fits c.reserved
  closed : c.closed = true →
    c.pc = .idle ∧ c.parts = [] ∨ c.pc = .releasing .close ∨ c.pc = .released .close

/-- A new capture is sound. -/
theorem sound_newCapture (id : Nat) (storage foreground : Bool) (maxBodyBytes : Nat) :
    (newCapture id storage foreground maxBodyBytes).Sound where
  exact := fun _ => rfl
  detached := fun _ h => nomatch h
  fits := trivial
  closed := fun h => nomatch h

/-- It holds nothing. -/
theorem holdings_newCapture (id : Nat) (storage foreground : Bool) (maxBodyBytes : Nat) :
    (newCapture id storage foreground maxBodyBytes).holdings = [] := by
  cases storage <;> rfl

/-- It holds what it was granted. -/
theorem Capture.Sound.held_eq {c : Capture} (h : c.Sound) : c.held = total c.holdings := by
  unfold Capture.held Capture.holdings
  split
  · next hstorage =>
    have hdetached : (c.detached.map Detached.reserved).getD 0 =
        total ((c.detached.map Detached.parts).getD []) := by
      cases hd : c.detached with
      | none => rfl
      | some d => exact (h.detached d hd).2 hstorage
    have hgrant : (c.pc.grant.map Part.bytes).getD 0 = total c.pc.grant.toList := by
      cases c.pc.grant with
      | none => rfl
      | some part => simp
    rw [total_append, total_append, hdetached, hgrant]
    split
    · rfl
    · rw [h.exact hstorage]
  · rfl

/-- Nothing is reserved or given back. -/
structure Capture.Quiet (c c' : Capture) : Prop where
  id : c'.id = c.id
  sound : c'.Sound
  holdings : c'.holdings = c.holdings

/-- What the account of a capture depends on, apart from its goroutine. -/
def Capture.amounts (c : Capture) : Nat × Bool × Nat × List Part × Option Detached × Bool :=
  (c.id, c.storage, c.reserved, c.parts, c.detached, c.closed)

/-- Neither between a grant and the addition, nor between a release and the
zero. -/
def Pc.plain (pc : Pc) : Prop := pc.isReleased = false ∧ pc.grant = none

/-- A capture that its goroutine works on. -/
structure Capture.Works (c : Capture) : Prop where
  sound : c.Sound
  opened : c.closed = false
  plain : c.pc.plain

variable {c c' : Capture}

/-- Steps that leave the amounts alone are quiet. -/
theorem Capture.Works.quiet (h : c.Works) (hlike : c'.amounts = c.amounts) (hplain : c'.pc.plain)
    (hfits : c'.pc.fits c.reserved) : c.Quiet c' := by
  simp only [Capture.amounts, Prod.mk.injEq] at hlike
  obtain ⟨hid, hstorage, hreserved, hparts, hdetached, hclosed⟩ := hlike
  refine ⟨hid, ?_, ?_⟩
  · constructor
    case exact =>
      rw [hstorage, hreserved, hparts]
      exact h.sound.exact
    case detached =>
      rw [hdetached, hclosed, hstorage]
      exact h.sound.detached
    case fits =>
      rw [hreserved]
      exact hfits
    case closed =>
      rw [hclosed, h.opened]
      exact fun hfalse => nomatch hfalse
  · simp only [Capture.holdings, hstorage, hparts, hdetached, h.plain.1, h.plain.2, hplain.1,
      hplain.2]

/-- The need fits into 64 bits. -/
theorem neededBytes_lt {n : Nat} (h : ¬ (2 ^ 64 - 1 - 8192) / 2 < n) : neededBytes n < 2 ^ 64 := by
  unfold neededBytes
  omega

/-- A refusal is quiet. -/
theorem Capture.Works.refused (h : c.Works) (hlike : c'.amounts = c.amounts) (purpose : Purpose) :
    c.Quiet (c'.refused purpose) := by
  cases purpose <;> exact h.quiet hlike ⟨rfl, rfl⟩ trivial

/-- A reservation that is not needed, or refused before the provider is asked,
is quiet; so is the question. -/
theorem Capture.Works.reserveCapture (h : c.Works) (hlike : c'.amounts = c.amounts) (n : Nat)
    (purpose : Purpose) : c.Quiet (c'.reserveCapture n purpose) := by
  unfold Capture.reserveCapture
  split
  · exact h.refused hlike purpose
  · next hsmall =>
    have hlt := neededBytes_lt hsmall
    have hreserved : c'.reserved = c.reserved := congrArg (·.2.2.1) hlike
    split
    · cases purpose <;> exact h.quiet hlike ⟨rfl, rfl⟩ trivial
    · refine h.quiet hlike ⟨rfl, rfl⟩ ?_
      simp only [Pc.fits]
      omega

/-- The header is quiet. -/
theorem Capture.Works.writeHeader (h : c.Works) (declared : Nat) (decision : Decision) :
    c.Quiet (c.writeHeader declared decision) := by
  cases decision with
  | buffer | spool => exact h.quiet rfl h.plain h.sound.fits
  | discard => exact h.quiet rfl ⟨rfl, rfl⟩ trivial
  | encode size logical =>
    simp only [Capture.writeHeader]
    split
    · exact h.quiet rfl h.plain h.sound.fits
    · split
      · exact h.refused (by rfl) .encode
      · exact h.reserveCapture (by rfl) logical .encode

/-- So is a write. -/
theorem Capture.Works.write (h : c.Works) (length : Nat) : c.Quiet (c.write length) := by
  simp only [Capture.write]
  split
  · exact h.quiet rfl h.plain h.sound.fits
  · split
    · exact h.quiet rfl ⟨rfl, rfl⟩ trivial
    · exact h.reserveCapture rfl _ _

/-- And so is the end of a capture. -/
theorem Capture.Works.stopCapture (h : c.Works) (length : Nat) (seekFails : Bool) :
    c.Quiet (c.stopCapture length seekFails) := by
  unfold Capture.stopCapture
  split
  · exact h.quiet rfl ⟨rfl, rfl⟩ trivial
  · split
    · exact h.quiet rfl ⟨rfl, rfl⟩ trivial
    · split <;> exact h.quiet rfl ⟨rfl, rfl⟩ trivial

/-- The amount goes from the capture to the goroutine that waits. -/
theorem Capture.Works.close (h : c.Works) (hidle : c.pc = .idle) : c.Quiet c.close := by
  have hnone : c.detached = none := by
    cases hd : c.detached with
    | none => rfl
    | some d => exact absurd (h.sound.detached d hd).1 (by simp [h.opened])
  unfold Capture.close
  dsimp only
  split
  · refine ⟨rfl, ⟨fun _ => rfl, ?_, trivial, fun _ => .inr (.inl rfl)⟩, ?_⟩
    · intro d hd
      cases hd
      exact ⟨rfl, h.sound.exact⟩
    · simp [Capture.holdings, Capture.discardCapture, hidle, hnone, Pc.isReleased, Pc.grant]
  · refine ⟨rfl, ⟨h.sound.exact, ?_, trivial, fun _ => .inr (.inl rfl)⟩, ?_⟩
    · exact fun d hd => nomatch hnone.symm.trans hd
    · simp [Capture.holdings, Capture.discardCapture, hidle, hnone, Pc.isReleased, Pc.grant]

/-- Where the goroutine is in the middle of a write or of a reservation. -/
def Pc.busy : Pc → Bool
  | .idle => false
  | .releasing _ => false
  | .released _ => false
  | _ => true

/-- Outside of `Close` a goroutine works on an open capture. -/
theorem Capture.Sound.open_of_busy (h : c.Sound) (hbusy : c.pc.busy = true) :
    c.closed = false := by
  by_contra hclosed
  rcases h.closed (by simpa using hclosed) with ⟨hpc, _⟩ | hpc | hpc
  all_goals
    rw [hpc] at hbusy
    cases hbusy

theorem Capture.Sound.works (h : c.Sound) (hbusy : c.pc.busy = true) (hplain : c.pc.plain) :
    c.Works :=
  ⟨h, h.open_of_busy hbusy, hplain⟩

/-- A grant is added up without overflow. -/
theorem Capture.Sound.raise (h : c.Sound) {part : Part} {purpose : Purpose}
    (hpc : c.pc = .granted part purpose) :
    c.Quiet ({ c with
      reserved := (c.reserved + part.bytes) % 2 ^ 64
      parts := if c.storage then c.parts ++ [part] else c.parts }.admitted purpose) := by
  have hopen : c.closed = false := h.open_of_busy (hpc ▸ rfl)
  have hlt : c.pc.fits c.reserved := h.fits
  rw [hpc] at hlt
  have hexact : c.storage = true → (c.reserved + part.bytes) % 2 ^ 64 =
      total (if c.storage then c.parts ++ [part] else c.parts) := by
    intro hstorage
    rw [Nat.mod_eq_of_lt hlt, if_pos hstorage, total_append, total_singleton, h.exact hstorage]
  cases purpose <;>
  · refine ⟨rfl, { h with exact := hexact, fits := trivial, closed := ?_ }, ?_⟩
    · exact fun hclosed => nomatch hopen.symm.trans hclosed
    · cases hs : c.storage <;>
        simp [Capture.holdings, Capture.admitted, hpc, hs, Pc.isReleased, Pc.grant]

/-- What was released is cleared. -/
theorem Capture.Sound.clear (h : c.Sound) {next : Next} (hpc : c.pc = .released next) :
    c.Quiet (c.clear next) := by
  cases next <;>
  · refine ⟨rfl, { h with
      exact := fun _ => rfl, fits := trivial, closed := fun _ => .inl ⟨rfl, rfl⟩ }, ?_⟩
    simp [Capture.holdings, Capture.clear, hpc, Pc.isReleased, Pc.grant]

theorem Capture.Sound.works_of_ready (h : c.Sound) (hready : c.ready = true) :
    c.Works ∧ c.pc = .idle := by
  obtain ⟨hidle, hopen⟩ : c.pc = .idle ∧ c.closed = false := by simpa [Capture.ready] using hready
  exact ⟨⟨h, hopen, hidle ▸ ⟨rfl, rfl⟩⟩, hidle⟩

/-- **The goroutine of a capture** by itself neither gains nor loses space. -/
theorem Capture.Sound.act (h : c.Sound) {op : Op} (hact : c.act op = some c') : c.Quiet c' := by
  cases op with
  | writeHeader declared decision =>
    obtain ⟨hguard, hact⟩ := ite_none_right_eq_some.mp hact
    cases hact
    exact (h.works_of_ready hguard.1).1.writeHeader declared decision
  | write length =>
    obtain ⟨hguard, hact⟩ := ite_none_right_eq_some.mp hact
    cases hact
    exact (h.works_of_ready hguard.1).1.write length
  | raise =>
    simp only [Capture.act] at hact
    split at hact <;> cases hact
    next hpc => exact h.raise hpc
  | fileWrite count =>
    simp only [Capture.act] at hact
    split at hact
    · next hpc =>
      obtain ⟨_, hact⟩ := ite_none_right_eq_some.mp hact
      cases hact
      exact (h.works (hpc ▸ rfl) (hpc ▸ ⟨rfl, rfl⟩)).quiet rfl ⟨rfl, rfl⟩ trivial
    · cases hact
  | stop seekFails =>
    simp only [Capture.act] at hact
    split at hact <;> cases hact
    next hpc => exact (h.works (hpc ▸ rfl) (hpc ▸ ⟨rfl, rfl⟩)).stopCapture _ seekFails
  | unwind =>
    simp only [Capture.act] at hact
    split at hact <;> cases hact
    all_goals
      next hpc => exact (h.works (hpc ▸ rfl) (hpc ▸ ⟨rfl, rfl⟩)).quiet rfl ⟨rfl, rfl⟩ trivial
  | clear =>
    simp only [Capture.act] at hact
    split at hact <;> cases hact
    next hpc => exact h.clear hpc
  | leaveEncode =>
    obtain ⟨hready, hact⟩ := ite_none_right_eq_some.mp hact
    cases hact
    have hworks := (h.works_of_ready hready).1
    exact hworks.quiet rfl hworks.plain h.fits
  | encoderDone =>
    obtain ⟨_, hact⟩ := ite_none_right_eq_some.mp hact
    cases hact
    exact ⟨rfl, { h with }, rfl⟩
  | close =>
    obtain ⟨hready, hact⟩ := ite_none_right_eq_some.mp hact
    cases hact
    obtain ⟨hworks, hidle⟩ := h.works_of_ready hready
    exact hworks.close hidle

/-- How many captures hold a grant. -/
def State.holders (s : State) (part : Part) : Nat :=
  (s.captures.map fun c => c.holdings.count part).sum

/-- The counter is the sum of what captures hold. -/
structure Accounted (s : State) : Prop where
  nodup : (s.captures.map Capture.id).Nodup
  sound : ∀ c ∈ s.captures, c.Sound
  counter : s.captureBytes = (s.captures.map Capture.held).sum
  counted : ∀ g ∈ s.grants, s.holders g.part + g.releases = 1
  known : ∀ c ∈ s.captures, ∀ part ∈ c.holdings, part.serial < s.grants.length
  serials : ∀ g ∈ s.grants, g.part.serial < s.grants.length

variable {s t : State}

/-- Nothing is held. -/
theorem accounted_init : Accounted init where
  nodup := nodup_nil
  sound := fun _ h => nomatch h
  counter := rfl
  counted := fun _ h => nomatch h
  known := fun _ h => nomatch h
  serials := fun _ h => nomatch h

/-- One capture is replaced. -/
theorem mem_put {k : Capture} (hk : k ∈ (s.put c).captures) : k = c ∨ k ∈ s.captures := by
  rcases mem_update_cases hk with ⟨_, _, _, rfl⟩ | ⟨hk, _⟩
  · exact .inl rfl
  · exact .inr hk

/-- What the change of one capture does to a sum over all. -/
theorem sum_put (h : Accounted s) (hc : c ∈ s.captures) (hid : c'.id = c.id)
    (w : Capture → Nat) :
    ((s.put c').captures.map w).sum + w c = (s.captures.map w).sum + w c' := by
  unfold State.put
  rw [hid]
  exact sum_update_key h.nodup hc

/-- One capture loses some grants and gains others, and the counter and the grants
follow. -/
theorem Accounted.put (h : Accounted s) (hc : c ∈ s.captures) (hid : c'.id = c.id)
    (hsound : c'.Sound) (hcaptures : t.captures = s.captures) (lost gained : List Part)
    (hperm : (lost ++ c'.holdings).Perm (gained ++ c.holdings))
    (hcounter : ∀ n, n + total lost = s.captureBytes + total gained → t.captureBytes = n)
    (hcounted : ∀ g ∈ t.grants, ∀ n,
      n + lost.count g.part = s.holders g.part + gained.count g.part → n + g.releases = 1)
    (hlength : s.grants.length ≤ t.grants.length)
    (hgained : ∀ part ∈ gained, part.serial < t.grants.length)
    (hserials : ∀ g ∈ t.grants, g.part.serial < t.grants.length) : Accounted (t.put c') := by
  have hput : (t.put c').captures = (s.put c').captures := by rw [State.put, hcaptures, State.put]
  constructor
  case nodup =>
    rw [hput, State.put, map_update_of fun _ hid => hid.symm]
    exact h.nodup
  case sound =>
    rw [hput]
    intro k hk
    rcases mem_put hk with rfl | hk
    · exact hsound
    · exact h.sound k hk
  case counter =>
    apply hcounter
    have hsum := sum_put h hc hid Capture.held
    have htotal : total lost + total c'.holdings = total gained + total c.holdings := by
      rw [← total_append, ← total_append]
      exact (hperm.map Part.bytes).sum_eq
    rw [hsound.held_eq, (h.sound c hc).held_eq] at hsum
    rw [hput, h.counter]
    omega
  case counted =>
    intro g hg
    apply hcounted g hg
    have hsum := sum_put h hc hid fun c => c.holdings.count g.part
    have hcount := hperm.count_eq g.part
    rw [count_append, count_append] at hcount
    rw [State.holders, hput, State.holders]
    omega
  case known =>
    rw [hput]
    intro k hk part hpart
    rcases mem_put hk with rfl | hk
    · rcases mem_append.mp (hperm.subset (mem_append_right lost hpart)) with hmem | hmem
      · exact hgained part hmem
      · exact lt_of_lt_of_le (h.known c hc part hmem) hlength
    · exact lt_of_lt_of_le (h.known k hk part hpart) hlength
  case serials => exact hserials

/-- Quiet steps keep the account. -/
theorem Accounted.quiet (h : Accounted s) (hc : c ∈ s.captures) (hquiet : c.Quiet c')
    (usage : Option (Usage × Int)) : Accounted (State.put { s with captureUsage := usage } c') := by
  refine h.put hc hquiet.id hquiet.sound rfl [] [] (.of_eq hquiet.holdings)
    (fun n hn => hn.symm) ?_ (le_refl _) (fun _ hpart => nomatch hpart) h.serials
  intro g hg n hn
  obtain rfl : n = s.holders g.part := hn
  exact h.counted g hg

variable {bytes delta : Nat} {purpose : Purpose} {parts : List Part}

/-- A release takes what it gives back from one capture. -/
theorem Accounted.giveBack (h : Accounted s) (hc : c ∈ s.captures) (hid : c'.id = c.id)
    (hsound : c'.Sound) (hbytes : bytes = total parts)
    (hperm : (parts ++ c'.holdings).Perm c.holdings) :
    Accounted ((s.giveBack bytes parts).put c') := by
  have hlength : (s.giveBack bytes parts).grants.length = s.grants.length := by
    simp [State.giveBack, SqlTables.update]
  refine h.put hc hid hsound rfl parts [] hperm ?_ ?_ hlength.ge (by simp) ?_
  · intro n hn
    simp only [State.giveBack, releaseCapture, total_nil] at hn ⊢
    omega
  · intro g hg n hn
    obtain ⟨old, hold, rfl⟩ := mem_update.mp hg
    have hcounted := h.counted old hold
    by_cases hmem : old.part ∈ parts
    · have hpos := count_pos_iff.mpr hmem
      simp only [if_pos hmem, count_nil] at hn ⊢
      omega
    · have hzero := count_eq_zero.mpr hmem
      simp only [if_neg hmem, count_nil] at hn ⊢
      omega
  · rw [hlength]
    exact forall_update h.serials fun g hg _ => h.serials g hg

/-- Nobody holds a grant before it is made. -/
theorem Accounted.holders_fresh (h : Accounted s) (bytes : Nat) :
    s.holders ⟨s.grants.length, bytes⟩ = 0 := by
  apply sum_eq_zero
  intro n hn
  obtain ⟨k, hk, rfl⟩ := mem_map.mp hn
  apply count_eq_zero.mpr
  intro hmem
  exact absurd (h.known k hk _ hmem) (lt_irrefl _)

/-- A grant goes to one capture, and no other has it. -/
theorem Accounted.grant (h : Accounted s) (hc : c ∈ s.captures) (hid : c'.id = c.id)
    (hsound : c'.Sound) (hbound : s.captureBytes + bytes < 2 ^ 64)
    (hperm : c'.holdings.Perm (⟨s.grants.length, bytes⟩ :: c.holdings))
    (usage : Option (Usage × Int)) :
    Accounted ((State.grant { s with captureUsage := usage } bytes).put c') := by
  have hlength : (s.grant bytes).grants.length = s.grants.length + 1 := by simp [State.grant]
  refine h.put hc hid hsound rfl [] [⟨s.grants.length, bytes⟩] hperm ?_ ?_
    (hlength ▸ Nat.le_succ _) ?_ ?_
  · intro n hn
    simp only [State.grant, total_singleton, total_nil] at hn ⊢
    omega
  · intro g hg n hn
    rcases mem_append.mp hg with hg | hg
    · have hcounted := h.counted g hg
      have hne : (⟨s.grants.length, bytes⟩ : Part) ≠ g.part := by
        intro heq
        have := h.serials g hg
        rw [← heq] at this
        exact absurd this (lt_irrefl _)
      have hzero : [(⟨s.grants.length, bytes⟩ : Part)].count g.part = 0 := by simp [hne]
      rw [count_nil] at hn
      omega
    · obtain rfl := mem_singleton.mp hg
      rw [h.holders_fresh, count_singleton_self] at hn
      exact hn
  · intro part hpart
    rw [mem_singleton.mp hpart]
    exact hlength ▸ Nat.lt_succ_self _
  · intro g hg
    refine lt_of_lt_of_eq ?_ hlength.symm
    rcases mem_append.mp hg with hg | hg
    · exact Nat.lt_succ_of_lt (h.serials g hg)
    · rw [mem_singleton.mp hg]
      exact Nat.lt_succ_self _

/-- What is admitted fits, together with all that is held. -/
theorem admits_le {budget : Budget} {captureBytes : Nat} (hpos : 0 < bytes)
    (h : admits budget captureBytes bytes = true) :
    captureBytes + bytes ≤ accountedFree budget ∧ captureBytes + bytes ≤ physicalFree budget := by
  simp only [admits, Bool.not_eq_true', Bool.or_eq_false_iff, decide_eq_false_iff_not] at h
  omega

/-- The free space is a 64-bit number. -/
theorem physicalFree_lt (p : Provider) (limits : Limits) (usage : Usage) :
    physicalFree (capacityAvailable p limits 0 usage) < 2 ^ 64 := by
  have havailable : (capacityAvailable p limits 0 usage).physicalAvailable < 2 ^ 64 := by
    unfold capacityAvailable
    simp only
    split <;> split <;> omega
  exact lt_of_le_of_lt (Nat.sub_le _ _) havailable

/-- A capture that was granted what it asked for is sound. -/
theorem Capture.Sound.granted_pc (h : c.Sound) {serial : Nat}
    (hpc : c.pc = .reserving delta purpose) :
    ({ c with pc := .granted ⟨serial, delta⟩ purpose } : Capture).Sound := by
  have hopen : c.closed = false := h.open_of_busy (hpc ▸ rfl)
  have hfits := h.fits
  rw [hpc] at hfits
  exact { h with fits := hfits.2, closed := fun hclosed => nomatch hopen.symm.trans hclosed }

theorem Capture.Sound.released_pc (h : c.Sound) {next : Next} (hpc : c.pc = .releasing next) :
    ({ c with pc := .released next } : Capture).Sound := by
  refine { h with fits := trivial, closed := fun hclosed => ?_ }
  rcases h.closed hclosed with ⟨hidle, _⟩ | hreleasing | hreleased
  · exact nomatch hpc.symm.trans hidle
  · cases hpc.symm.trans hreleasing
    exact .inr (.inr rfl)
  · exact nomatch hpc.symm.trans hreleased

/-- What a step can do. -/
inductive Effect (s : State) (a : Action) : State → Prop
  | opened {id : Nat} (hfresh : id ∉ s.captures.map Capture.id) (storage foreground : Bool)
      (maxBodyBytes : Nat) : Effect s a { s with
        captures := s.captures ++ [newCapture id storage foreground maxBodyBytes] }
  | quiet {c c' : Capture} (usage : Option (Usage × Int)) (hc : c ∈ s.captures)
      (hquiet : c.Quiet c') : Effect s a (State.put { s with captureUsage := usage } c')
  | gaveBack {c c' : Capture} {bytes : Nat} {parts : List Part} (hc : c ∈ s.captures)
      (hid : c'.id = c.id) (hsound : c'.Sound) (hbytes : bytes = total parts)
      (hperm : (parts ++ c'.holdings).Perm c.holdings) :
      Effect s a ((s.giveBack bytes parts).put c')
  | granted {c : Capture} {id delta : Nat} {purpose : Purpose} {p : Provider} {limits : Limits}
      {read : Option Usage} {now at_ : Int} {usage : Usage}
      (ha : a = .reserve id p limits read now) (hc : c ∈ s.captures) (hstorage : c.storage = true)
      (hpc : c.pc = .reserving delta purpose)
      (husage : captureDiskUsage s.captureUsage read now = some (usage, at_))
      (hadmits : admits (capacityAvailable p limits 0 usage) s.captureBytes delta = true) :
      Effect s a ((State.grant { s with captureUsage := some (usage, at_) } delta).put
        { c with pc := .granted ⟨s.grants.length, delta⟩ purpose })

variable {a : Action}

/-- A release gives back only for a capture with a storage. -/
theorem effect_release (hc : c ∈ s.captures) (hid : c'.id = c.id) (hsound : c'.Sound)
    (hstorage : c'.storage = c.storage) (hbytes : c.storage = true → bytes = total parts)
    (hperm : c.storage = true → (parts ++ c'.holdings).Perm c.holdings) :
    Effect s a ((if c.storage then s.giveBack bytes parts else s).put c') := by
  cases hs : c.storage with
  | false =>
    refine .quiet s.captureUsage hc ⟨hid, hsound, ?_⟩
    simp [Capture.holdings, hstorage, hs]
  | true => exact .gaveBack hc hid hsound (hbytes hs) (hperm hs)

/-- What a reservation does. -/
theorem effect_reserve (hc : c ∈ s.captures) (hsound : c.Sound)
    (hpc : c.pc = .reserving delta purpose) {id : Nat} {p : Provider} {limits : Limits}
    {read : Option Usage} {now : Int} (ha : a = .reserve id p limits read now) :
    Effect s a (s.reserve c delta purpose p limits read now) := by
  have hworks := hsound.works (hpc ▸ rfl) (hpc ▸ ⟨rfl, rfl⟩)
  unfold State.reserve
  split
  · next hstorage =>
    have hnone : c.storage = false := by simpa using hstorage
    refine .quiet s.captureUsage hc ⟨rfl, hsound.granted_pc hpc, ?_⟩
    simp [Capture.holdings, hnone]
  · next hstorage =>
    split
    · exact .quiet s.captureUsage hc (hworks.refused rfl purpose)
    · next usage at_ husage =>
      dsimp only
      split
      · next hadmits => exact .granted ha hc (by simpa using hstorage) hpc husage hadmits
      · exact .quiet _ hc (hworks.refused rfl purpose)

/-- **What a step does.** -/
theorem effect_of_step (hsound : ∀ c ∈ s.captures, c.Sound) (hstep : step s a = some t) :
    Effect s a t := by
  cases a with
  | «open» id storage foreground maxBodyBytes =>
    obtain ⟨hfresh, hstep⟩ := ite_none_left_eq_some.mp hstep
    cases hstep
    exact .opened hfresh storage foreground maxBodyBytes
  | act id op =>
    obtain ⟨c, hc, hact⟩ := bind_eq_some_iff.mp hstep
    obtain ⟨c', hc', rfl⟩ := map_eq_some_iff.mp hact
    have hmem := mem_of_find?_eq_some hc
    exact .quiet s.captureUsage hmem ((hsound c hmem).act hc')
  | reserve id p limits read now =>
    obtain ⟨c, hc, hreserve⟩ := bind_eq_some_iff.mp hstep
    have hmem := mem_of_find?_eq_some hc
    split at hreserve <;> cases hreserve
    next hpc => exact effect_reserve hmem (hsound c hmem) hpc rfl
  | release id =>
    obtain ⟨c, hc, hrelease⟩ := bind_eq_some_iff.mp hstep
    have hmem := mem_of_find?_eq_some hc
    split at hrelease <;> cases hrelease
    next next hpc =>
      refine effect_release hmem rfl ((hsound c hmem).released_pc hpc) rfl (hsound c hmem).exact ?_
      intro hstorage
      simp [Capture.holdings, hstorage, hpc, Pc.isReleased, Pc.grant]
  | releaseDetached id =>
    obtain ⟨c, hc, hrelease⟩ := bind_eq_some_iff.mp hstep
    have hmem := mem_of_find?_eq_some hc
    split at hrelease <;> cases hrelease
    next d hd _ =>
      refine effect_release hmem rfl { hsound c hmem with detached := fun _ h => nomatch h } rfl
        ((hsound c hmem).detached d hd).2 ?_
      intro hstorage
      simp only [Capture.holdings, hstorage, hd, if_true, map_none, map_some, getD_none, getD_some,
        append_nil]
      exact perm_append_comm

/-- A new capture holds nothing. -/
theorem Accounted.open_ (h : Accounted s) {id : Nat} (hfresh : id ∉ s.captures.map Capture.id)
    (storage foreground : Bool) (maxBodyBytes : Nat) :
    Accounted { s with
      captures := s.captures ++ [newCapture id storage foreground maxBodyBytes] } := by
  have hnew := sound_newCapture id storage foreground maxBodyBytes
  have hempty := holdings_newCapture id storage foreground maxBodyBytes
  constructor
  case nodup =>
    rw [map_append]
    exact concat_eq_append ▸ h.nodup.concat hfresh
  case sound =>
    intro c hc
    rcases mem_append.mp hc with hc | hc
    · exact h.sound c hc
    · exact mem_singleton.mp hc ▸ hnew
  case counter =>
    have hheld := hnew.held_eq
    rw [hempty, total_nil] at hheld
    simp only [map_append, map_cons, map_nil, sum_append, sum_cons,
      sum_nil, hheld]
    exact h.counter
  case counted =>
    intro g hg
    have hcounted := h.counted g hg
    simp only [State.holders, map_append, map_cons, map_nil, sum_append,
      sum_cons, sum_nil, hempty, count_nil] at hcounted ⊢
    omega
  case known =>
    intro c hc part hpart
    rcases mem_append.mp hc with hc | hc
    · exact h.known c hc part hpart
    · rw [mem_singleton.mp hc, hempty] at hpart
      cases hpart
  case serials => exact h.serials

/-- A grant that is admitted stays within the free space. -/
theorem Capture.Sound.admitted_le (h : c.Sound) (hpc : c.pc = .reserving delta purpose)
    {budget : Budget} {captureBytes : Nat} (hadmits : admits budget captureBytes delta = true) :
    captureBytes + delta ≤ accountedFree budget ∧ captureBytes + delta ≤ physicalFree budget := by
  have hfits := h.fits
  rw [hpc] at hfits
  exact admits_le hfits.1 hadmits

/-- Every step keeps the account. -/
theorem accounted_step (h : Accounted s) (hstep : step s a = some t) : Accounted t := by
  cases effect_of_step h.sound hstep with
  | opened hfresh storage foreground maxBodyBytes =>
    exact h.open_ hfresh storage foreground maxBodyBytes
  | quiet usage hc hquiet => exact h.quiet hc hquiet usage
  | gaveBack hc hid hsound hbytes hperm => exact h.giveBack hc hid hsound hbytes hperm
  | granted _ hc hstorage hpc _ hadmits =>
    have hsound := h.sound _ hc
    refine h.grant hc (by rfl) (hsound.granted_pc hpc)
      (lt_of_le_of_lt (hsound.admitted_le hpc hadmits).2 (physicalFree_lt _ _ _)) ?_ _
    simp [Capture.holdings, hstorage, hpc, Pc.isReleased, Pc.grant]

/-- And so does every run. -/
theorem accounted_run {as : List Action} (hrun : run step init as = some s) : Accounted s :=
  run_invariant (fun _ _ _ h hstep => accounted_step h hstep) accounted_init hrun

/-- Only a reservation that is admitted makes a grant. -/
theorem grant_fits (h : Accounted s) (hstep : step s a = some t)
    (hgrant : s.grants.length < t.grants.length) :
    ∃ id p limits read now usage at_, a = .reserve id p limits read now ∧
      captureDiskUsage s.captureUsage read now = some (usage, at_) ∧
      t.captureBytes ≤ accountedFree (capacityAvailable p limits 0 usage) ∧
      t.captureBytes ≤ physicalFree (capacityAvailable p limits 0 usage) := by
  cases effect_of_step h.sound hstep with
  | opened | quiet => exact absurd hgrant (lt_irrefl _)
  | gaveBack => simp [State.put, State.giveBack, SqlTables.update] at hgrant
  | granted ha hc _ hpc husage hadmits =>
    have hfits := (h.sound _ hc).admitted_le hpc hadmits
    refine ⟨_, _, _, _, _, _, _, ha, husage, ?_⟩
    simp only [State.put, State.grant]
    rw [Nat.mod_eq_of_lt (lt_of_le_of_lt hfits.2 (physicalFree_lt _ _ _))]
    exact hfits

/-- A finished capture has nothing. -/
theorem Capture.Sound.holdings_finished (h : c.Sound) (hfinished : c.finished) :
    c.holdings = [] := by
  obtain ⟨hclosed, hidle, hnone⟩ := hfinished
  have hparts : c.parts = [] := by
    rcases h.closed hclosed with ⟨_, hparts⟩ | hpc | hpc
    · exact hparts
    · exact nomatch hidle.symm.trans hpc
    · exact nomatch hidle.symm.trans hpc
  simp [Capture.holdings, hidle, hnone, hparts, Pc.isReleased, Pc.grant]

/-- **The space of captures is accounted for.**  After every run the counter is
the sum of what the captures hold.  Each grant is held by one capture and not
released, or by none and released once; a capture that is closed, and whose
encoder is waited for no more, holds none.  A grant keeps the counter within the
free space of the budget that it was made from. -/
theorem captures_accounted (as : List Action) (s : State)
    (hrun : run step init as = some s) :
    s.captureBytes = (s.captures.map Capture.held).sum ∧
      (∀ c ∈ s.captures, c.held = total c.holdings) ∧
      (∀ g ∈ s.grants, s.holders g.part + g.releases = 1) ∧
      (∀ c ∈ s.captures, c.finished → c.holdings = []) ∧
      ∀ a t, step s a = some t → s.grants.length < t.grants.length →
        ∃ id p limits read now usage at_, a = .reserve id p limits read now ∧
          captureDiskUsage s.captureUsage read now = some (usage, at_) ∧
          t.captureBytes ≤ accountedFree (capacityAvailable p limits 0 usage) ∧
          t.captureBytes ≤ physicalFree (capacityAvailable p limits 0 usage) := by
  have h : Accounted s := accounted_run hrun
  refine ⟨h.counter, fun c hc => (h.sound c hc).held_eq, h.counted, ?_, ?_⟩
  · intro c hc hfinished
    exact (h.sound c hc).holdings_finished hfinished
  · intro a t hstep hgrant
    exact grant_fits h hstep hgrant

/-- A disk with little room. -/
def smallDisk : Option Usage := some ⟨100000, 0⟩

def ask (id : Nat) (now : Int) : Action :=
  .reserve id CacheProvider.emptyProvider ⟨true, 0, 80⟩ smallDisk now

/-- Two captures.  The first is spooled and closed; the second is closed while its
encoder works, and its space is given back after that. -/
def detachedRun : List Action :=
  [.open 0 true true 0, .open 1 true true 0, .act 0 (.writeHeader 100 .spool), .act 0 (.write 100),
    ask 0 0, .act 1 (.writeHeader 2000 (.encode 2000 2100)), .act 0 .raise, ask 1 1, .act 1 .raise,
    .act 0 (.fileWrite 100), .act 1 .close, .release 1, .act 1 .clear, .act 0 .close, .release 0,
    .act 0 .clear, .act 1 .encoderDone, .releaseDetached 1]

theorem captures_accounted_detachedRun :
    ∃ s, run step init detachedRun = some s ∧
      (s.grants.map fun g => (g.part.bytes, g.releases)) = [(8192, 1), (12288, 1)] ∧
      s.captureBytes = (s.captures.map Capture.held).sum ∧
      ∀ g ∈ s.grants, s.holders g.part + g.releases = 1 := by
  have hends : ∃ s, run step init detachedRun = some s ∧
      (s.grants.map fun g => (g.part.bytes, g.releases)) = [(8192, 1), (12288, 1)] := by
    apply ends_of_any
    decide +kernel
  obtain ⟨s, hs, hgrants⟩ := hends
  obtain ⟨hcounter, _, hcounted, _⟩ := captures_accounted detachedRun s hs
  exact ⟨s, hs, hgrants, hcounter, hcounted⟩

end CaptureAccounting
