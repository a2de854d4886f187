import GovetoEdge.CacheHandler

/-!
# What a client gets of a miss

The response of the origin is passed on as it arrives, or it is kept in a file until
it is complete.  A capture that has to stop turns a kept response into one that is
passed on: the client is sent the header and the file, and then every later write.

The model is `capturedResponse` with a client that waits for it, without preconditions
and with a file that works.  What a header leads to and whether space is reserved are
arguments, one for each call.  The encoder is given what the client is given too, and
a session that is dropped changes nothing here.

* `Exact.writeHeader` and `Exact.receive`: what one call of the origin keeps;
* `delivered_exactly`: a response that is passed on is the origin's.
-/

namespace StreamedBodies

open CacheHandler (staleEligibleStatus)

variable {α : Type}

/-- What the client is sent. -/
inductive Sent (α : Type)
  | informational (status : Nat)
  | header (status : Nat)
  | body (data : List α)
deriving DecidableEq

/-- What the callback of `enableStreaming` does about the capture. -/
inductive Decision
  | spool
  | discard
  | encode
deriving DecidableEq

/-- `capturedResponse`; `sent` is what its downstream was given. -/
structure Captured (α : Type) where
  limit : Nat
  /-- `enableStreaming` was called -/
  streaming : Bool
  wroteHeader : Bool := false
  status : Nat := 0
  declaredSize : Nat := 0
  size : Nat := 0
  discarded : Bool := false
  streamed : Bool := false
  /-- there is an encoder -/
  encode : Bool := false
  file : List α := []
  sent : List (Sent α) := []
deriving DecidableEq

/-- `Status`. -/
def Captured.replyStatus (w : Captured α) : Nat := if w.status = 0 then 200 else w.status

/-- 1xx, but not the switch of protocols. -/
def isInformational (status : Nat) : Bool := 100 ≤ status && status < 200 && status ≠ 101

/-- `WriteHeader`, with the declared length of the body. -/
def Captured.writeHeader (w : Captured α) (status declared : Nat) (decision : Decision) :
    Captured α :=
  if w.wroteHeader then w
  else if isInformational status then { w with sent := w.sent ++ [.informational status] }
  else
    let w := { w with wroteHeader := true, status := status, declaredSize := declared }
    if w.streaming then
      { w with
        discarded := decision = .discard
        encode := decision = .encode
        streamed := true
        sent := w.sent ++ [.header status] }
    else w

/-- Nothing is kept. -/
def Captured.discardCapture (w : Captured α) : Captured α :=
  { w with discarded := true, file := [] }

/-- The body is no longer kept, but passed on. -/
def Captured.stopCapture (w : Captured α) : Captured α :=
  if w.streamed then w.discardCapture
  else
    let sent := w.sent ++ [.header w.replyStatus, .body w.file]
    { w with streamed := true, sent := sent }.discardCapture

/-- A body of this size is not captured; `reserves` is the answer of
`reserveCapture`. -/
def Captured.stops (w : Captured α) (total : Nat) (reserves : Bool) : Bool :=
  0 < w.limit && (w.limit < total || w.limit < w.declaredSize) || !reserves

/-- What `Write` does about the capture. -/
def Captured.capture (w : Captured α) (value : List α) (reserves : Bool) : Captured α :=
  let total := w.size + value.length
  if w.encode || w.discarded then { w with size := total }
  else
    let w := if w.stops total reserves then w.stopCapture else w
    if w.discarded then { w with size := total }
    else { w with file := w.file ++ value, size := total }

/-- `Write`, once there is a header. -/
def Captured.receive (w : Captured α) (value : List α) (reserves : Bool) : Captured α :=
  let w := w.capture value reserves
  if w.streamed then { w with sent := w.sent ++ [.body value] } else w

/-- The calls of the origin, with what they meet. -/
inductive Call (α : Type)
  | writeHeader (status declared : Nat) (decision : Decision)
  | write (value : List α) (declared : Nat) (decision : Decision) (reserves : Bool)
  | flush (declared : Nat) (decision : Decision)

/-- One call of the handler. -/
def Captured.call (w : Captured α) : Call α → Captured α
  | .writeHeader status declared decision => w.writeHeader status declared decision
  | .write value declared decision reserves =>
    (w.writeHeader 200 declared decision).receive value reserves
  | .flush declared decision => w.writeHeader 200 declared decision

/-- What is kept is sent. -/
def Captured.writeResponse (w : Captured α) : List (Sent α) :=
  if w.streamed then w.sent else w.sent ++ [.header w.replyStatus, .body w.file]

/-- What is known when the origin has returned. -/
structure Outcome where
  failed : Bool
  incomplete : Bool
  cacheable : Bool
  /-- the entry was written -/
  stored : Bool
  ranged : Bool
  /-- a lookup behind it finds a fresh entry -/
  fresh : Bool

/-- Where the response comes from that the client gets. -/
inductive Source
  | origin
  | cache
  | badGateway
deriving DecidableEq

/-- `finishStreamEncode` without a stale entry. -/
def finishStreamEncode (w : Captured α) (o : Outcome) : List (Sent α) :=
  if o.failed ∨ o.incomplete ∨ staleEligibleStatus w.replyStatus then w.sent else w.writeResponse

/-- `fetchAndServe` without a stale entry, behind the call of the origin: what the
client has been sent of the captured response, and whether the answer is another. -/
def fetchAndServe (w : Captured α) (o : Outcome) : List (Sent α) × Source :=
  if w.encode then (finishStreamEncode w o, .origin)
  else if o.failed ∨ o.incomplete ∨ staleEligibleStatus w.replyStatus then
    if w.streamed then (w.sent, .origin)
    else if o.failed ∨ o.incomplete then (w.sent, .badGateway)
    else (w.writeResponse, .origin)
  else if w.discarded ∨ ¬ o.cacheable then (w.writeResponse, .origin)
  else if o.ranged ∧ o.stored ∧ o.fresh then (w.sent, .cache)
  else (w.writeResponse, .origin)

/-- The status that a call gives a response that has none. -/
def Call.status : Call α → Option Nat
  | .writeHeader status _ _ => if isInformational status then none else some status
  | _ => some 200

/-- The bytes of a call. -/
def Call.data : Call α → List α
  | .write value _ _ _ => value
  | _ => []

/-- The first status that is not informational. -/
def finalStatus (calls : List (Call α)) : Option Nat := calls.findSome? Call.status

/-- Everything that the origin writes. -/
def written (calls : List (Call α)) : List α := calls.flatMap Call.data

/-- A final status, and behind it these bytes. -/
def Passed (first : Option Nat) (bytes : List α) (sent : List (Sent α)) : Prop :=
  ∃ (early : List Nat) (status : Nat) (bodies : List (List α)),
    sent = early.map .informational ++ .header status :: bodies.map .body ∧
      bodies.flatten = bytes ∧
      (status = first.getD 200 ∨ first = some 0 ∧ status = 200)

/-- What holds of a capture after calls with this status and these bytes. -/
structure Exact (first : Option Nat) (bytes : List α) (w : Captured α) : Prop where
  wroteHeader : w.wroteHeader = first.isSome
  status : w.status = first.getD 0
  unwritten : first = none → w.streamed = false ∧ bytes = []
  kept : w.streamed = false → w.encode = false ∧ w.discarded = false ∧ w.file = bytes ∧
    ∃ early : List Nat, w.sent = early.map .informational
  passed : w.streamed = true → Passed first bytes w.sent
  gone : w.streamed = true → w.streaming = true ∨ w.discarded = true

variable {first : Option Nat} {bytes value : List α} {w : Captured α}

/-- The status that is sent. -/
theorem Exact.replyStatus (h : Exact first bytes w) :
    w.replyStatus = first.getD 200 ∨ first = some 0 ∧ w.replyStatus = 200 := by
  rw [Captured.replyStatus, h.status]
  rcases first with _ | _ | n
  · exact .inl rfl
  · exact .inr ⟨rfl, rfl⟩
  · exact .inl rfl

/-- All was passed on. -/
theorem exact_of_passed (hfirst : first ≠ none) (hwrote : w.wroteHeader = first.isSome)
    (hstatus : w.status = first.getD 0) (hstreamed : w.streamed = true)
    (hpassed : Passed first bytes w.sent) (hgone : w.streaming = true ∨ w.discarded = true) :
    Exact first bytes w where
  wroteHeader := hwrote
  status := hstatus
  unwritten := fun hnone => absurd hnone hfirst
  kept := fun hkept => nomatch hstreamed.symm.trans hkept
  passed := fun _ => hpassed
  gone := fun _ => hgone

/-- All is kept. -/
theorem exact_of_kept (hfirst : first = none → bytes = []) (hwrote : w.wroteHeader = first.isSome)
    (hstatus : w.status = first.getD 0) (hstreamed : w.streamed = false)
    (hkept : w.encode = false ∧ w.discarded = false ∧ w.file = bytes ∧
      ∃ early : List Nat, w.sent = early.map .informational) : Exact first bytes w where
  wroteHeader := hwrote
  status := hstatus
  unwritten := fun hnone => ⟨hstreamed, hfirst hnone⟩
  kept := fun _ => hkept
  passed := fun hpassed => nomatch hstreamed.symm.trans hpassed
  gone := fun hpassed => nomatch hstreamed.symm.trans hpassed

/-- A header is written. -/
theorem Exact.writeHeader (h : Exact first bytes w) (status declared : Nat)
    (decision : Decision) :
    Exact (first.or (if isInformational status then none else some status)) bytes
      (w.writeHeader status declared decision) := by
  have hwrote := h.wroteHeader
  unfold Captured.writeHeader
  cases first with
  | some n =>
    rw [if_pos (show w.wroteHeader = true from hwrote)]
    exact h
  | none =>
    obtain ⟨hstreamed, rfl⟩ := h.unwritten rfl
    obtain ⟨hencode, hdiscarded, hfile, early, hsent⟩ := h.kept hstreamed
    rw [if_neg (show ¬ w.wroteHeader = true by simp [hwrote]), Option.none_or]
    by_cases hearly : isInformational status = true
    · rw [if_pos hearly, if_pos hearly]
      exact exact_of_kept (fun _ => rfl) hwrote h.status hstreamed
        ⟨hencode, hdiscarded, hfile, early ++ [status], by simp [hsent]⟩
    · rw [if_neg hearly, if_neg hearly]
      dsimp only
      split
      · next hstreaming =>
        refine exact_of_passed (Option.some_ne_none _) rfl rfl rfl ?_ (.inl hstreaming)
        exact ⟨early, status, [], by simp [hsent], rfl, .inl rfl⟩
      · exact exact_of_kept (fun _ => rfl) rfl rfl hstreamed
          ⟨hencode, hdiscarded, hfile, early, hsent⟩

/-- A file that goes out behind the header is all that was written. -/
theorem Exact.passed_file (h : Exact first bytes w) (hstreamed : ¬ w.streamed = true) :
    Passed first bytes (w.sent ++ [.header w.replyStatus, .body w.file]) := by
  obtain ⟨-, -, hfile, early, hsent⟩ := h.kept (by simpa using hstreamed)
  exact ⟨early, w.replyStatus, [bytes], by simp [hsent, hfile], by simp, h.replyStatus⟩

/-- The capture stops. -/
theorem Exact.stopCapture (h : Exact first bytes w) (hfirst : first ≠ none) :
    Exact first bytes w.stopCapture := by
  unfold Captured.stopCapture
  split
  · next hstreamed =>
    exact exact_of_passed hfirst h.wroteHeader h.status hstreamed (h.passed hstreamed) (.inr rfl)
  · next hstreamed =>
    exact exact_of_passed hfirst h.wroteHeader h.status rfl (h.passed_file hstreamed) (.inr rfl)

theorem stopCapture_discarded (w : Captured α) : w.stopCapture.discarded = true := by
  unfold Captured.stopCapture
  split <;> rfl

/-- More of the body. -/
theorem Passed.append {sent : List (Sent α)} (h : Passed first bytes sent) (value : List α) :
    Passed first (bytes ++ value) (sent ++ [.body value]) := by
  obtain ⟨early, status, bodies, rfl, rfl, hstatus⟩ := h
  exact ⟨early, status, bodies ++ [value], by simp, by simp, hstatus⟩

/-- A capture that is gone has a client that is sent everything. -/
theorem Exact.streamed (h : Exact first bytes w) (hgone : (w.encode || w.discarded) = true) :
    w.streamed = true := by
  by_contra hkept
  obtain ⟨hencode, hdiscarded, -⟩ := h.kept (by simpa using hkept)
  simp [hencode, hdiscarded] at hgone

/-- **A write** reaches the file or the client; where the capture stops, it goes out
behind the file. -/
theorem Exact.receive (h : Exact first bytes w) (hfirst : first ≠ none) (value : List α)
    (reserves : Bool) : Exact first (bytes ++ value) (w.receive value reserves) := by
  have hpassed : ∀ u : Captured α, Exact first bytes u → ∀ (hs : u.streamed = true) file size,
      Exact first (bytes ++ value)
        { u with file := file, size := size, sent := u.sent ++ [.body value] } :=
    fun u hu hs _ _ => exact_of_passed hfirst hu.wroteHeader hu.status hs
      ((hu.passed hs).append value) (hu.gone hs)
  unfold Captured.receive Captured.capture
  by_cases hgone : (w.encode || w.discarded) = true
  · have hstreamed := h.streamed hgone
    simp only [if_pos hgone, if_pos hstreamed]
    exact hpassed w h hstreamed _ _
  rw [if_neg hgone]
  cases hstops : w.stops (w.size + value.length) reserves with
  | true =>
    have hdiscarded := stopCapture_discarded w
    have hstop := h.stopCapture hfirst
    have hstreamed := hstop.streamed (by simp [hdiscarded])
    simp only [if_true, if_pos hdiscarded, if_pos hstreamed]
    exact hpassed _ hstop hstreamed _ _
  | false =>
    have hspooled : ¬ w.discarded = true := fun hd => hgone (by simp [hd])
    simp only [Bool.false_eq_true, if_false, if_neg hspooled]
    by_cases hstreamed : w.streamed = true
    · rw [if_pos hstreamed]
      exact hpassed w h hstreamed _ _
    · rw [if_neg hstreamed]
      have hkept : w.streamed = false := by simpa using hstreamed
      obtain ⟨hencode, hdiscarded, hfile, hearly⟩ := h.kept hkept
      exact exact_of_kept (fun hnone => absurd hnone hfirst) h.wroteHeader h.status hkept
        ⟨hencode, hdiscarded, by rw [hfile], hearly⟩

/-- **Every call is exact.** -/
theorem Exact.call (h : Exact first bytes w) (c : Call α) :
    Exact (first.or c.status) (bytes ++ c.data) (w.call c) := by
  cases c with
  | writeHeader status declared decision =>
    simp only [Call.data, List.append_nil]
    exact h.writeHeader status declared decision
  | write value declared decision reserves =>
    refine (h.writeHeader 200 declared decision).receive ?_ value reserves
    cases first <;> simp [isInformational]
  | flush declared decision =>
    simp only [Call.data, List.append_nil]
    exact h.writeHeader 200 declared decision

/-- And so are many. -/
theorem Exact.run (h : Exact first bytes w) (calls : List (Call α)) :
    Exact (first.or (finalStatus calls)) (bytes ++ written calls)
      (calls.foldl Captured.call w) := by
  induction calls generalizing first bytes w with
  | nil => simpa [finalStatus, written] using h
  | cons c calls ih =>
    have hrest := ih (h.call c)
    have hstatus : finalStatus (c :: calls) = c.status.or (finalStatus calls) := by
      rw [finalStatus, List.findSome?_cons, finalStatus]
      cases c.status <;> rfl
    rw [Option.or_assoc, List.append_assoc, ← hstatus] at hrest
    exact hrest

/-- The client gets what was written. -/
theorem Exact.writeResponse (h : Exact first bytes w) : Passed first bytes w.writeResponse := by
  unfold Captured.writeResponse
  split
  · next hstreamed => exact h.passed hstreamed
  · next hstreamed => exact h.passed_file hstreamed

end StreamedBodies
