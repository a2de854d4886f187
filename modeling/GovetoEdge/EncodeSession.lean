import GovetoEdge.Runs

/-!
# Streaming a response into the cache: the encode session

While an origin response is sent to the client, its chunks are also handed to
an `encodeSession`.  Three parties take part:

* the **handler** goroutine, which calls `Write` for each chunk and at the end
  `finish` or `abandon`; a full queue or an oversized response makes it `drop`
  the session;
* the **drainer** goroutine, which moves chunks from the bounded channel into
  an `io.Pipe`;
* the **put** goroutine, which reads the serialized header and then the pipe
  through `writeObjectReader` and commits what it read.

One step is one channel operation, one critical section of `mu`, one transfer
through the pipe, or one close.  `drop` is three steps, since the other
goroutines may run between setting the flag, closing the pipe and closing
`stop`.  The pipe follows `io.Pipe`: a write hands its bytes over in pieces
and blocks until they are taken or an end is closed, and the error of the
first close of the write end is the one a reader sees.
-/

namespace EncodeSession

abbrev Bytes := List UInt8

/-- What the write end of the pipe was closed with. -/
inductive PipeError
  | eof
  | encodeDropped
deriving DecidableEq, Repr

/-- The next effect of a running `drop`. -/
inductive DropStage
  | mark
  | closePipe
  | closeStop
deriving DecidableEq, Repr

/-- Where the handler goroutine stands. -/
inductive Handler
  | ready
  | dropping (stage : DropStage) (abandoning : Bool)
  /-- in `finish`, waiting for `done` -/
  | finishing
  /-- done with the session (`w.encode = nil`) -/
  | left
deriving DecidableEq, Repr

/-- Where the drainer goroutine stands. -/
inductive Drainer
  | selecting
  /-- inside `pw.Write`, with the bytes not yet taken by the reader -/
  | writing (rest : Bytes)
  /-- returning, before the deferred `pw.Close` -/
  | closing
  | exited
deriving DecidableEq, Repr

/-- Where the put goroutine stands, with the bytes it has read. -/
inductive Put
  | reading (got : Bytes)
  /-- `writeObjectReader` succeeded; the write is on its way to the index -/
  | accepted (got : Bytes)
  | committed (got : Bytes)
  | failed
deriving DecidableEq, Repr

/-- What is fixed when a session starts. -/
structure Config where
  headerBytes : Bytes
  /-- the length announced to `PutReader` -/
  logical : Nat
  declaredSize : Nat
  limit : Nat
  encodeQueueSlots : Nat

/-- The handler's side and the drainer's. -/
structure Session where
  handler : Handler
  /-- `capturedResponse.size` -/
  size : Nat
  /-- history: the chunks of all `Write` calls -/
  written : List Bytes
  dropped : Bool
  /-- `closed`, set together with `close(chunks)` -/
  closed : Bool
  chunks : List Bytes
  stop : Bool
  pipeError : Option PipeError
  readerClosed : Bool
  drainer : Drainer
  put : Put
  done : Bool
deriving DecidableEq, Repr

/-- `startEncodeSession`. -/
def startEncodeSession : Session where
  handler := .ready
  size := 0
  written := []
  dropped := false
  closed := false
  chunks := []
  stop := false
  pipeError := none
  readerClosed := false
  drainer := .selecting
  put := .reading []
  done := false

/-- Call `drop`; a second call does nothing. -/
def Session.drop (s : Session) (abandoning : Bool) : Session :=
  if s.dropped then
    if abandoning then { s with handler := .left } else s
  else { s with handler := .dropping .mark abandoning }

/-- Outcome of the `select` of `tryWrite`. -/
inductive Select
  | send
  | stopped
  | full
deriving DecidableEq, Repr

/-- `tryWrite`; `full` is the default case, taken when no other is ready. -/
def Session.tryWrite (c : Config) (s : Session) (p : Bytes) (select : Select) :
    Option Session :=
  if p = [] ∨ s.dropped ∨ s.closed then some s
  else if c.encodeQueueSlots = 0 then some (s.drop false)
  else
    match select with
    | .send =>
      if s.chunks.length < c.encodeQueueSlots then
        some { s with chunks := s.chunks ++ [p] }
      else none
    | .stopped => if s.stop then some s else none
    | .full =>
      if s.chunks.length < c.encodeQueueSlots ∨ s.stop then none
      else some (s.drop false)

/-- `Write` on the captured response, for the part that feeds the session. -/
def Session.write (c : Config) (s : Session) (value : Bytes) (select : Select) :
    Option Session :=
  let total := s.size + value.length
  let s := { s with size := total, written := s.written ++ [value] }
  if (0 < c.limit ∧ c.limit < total) ∨ c.declaredSize < total then
    some (s.drop false)
  else s.tryWrite c value select

/-- `pw.Close` and `pw.CloseWithError`: the first error stays. -/
def Session.closePipe (s : Session) (e : PipeError) : Session :=
  { s with pipeError := some (s.pipeError.getD e) }

/-- The pipe has been closed at either end. -/
def Session.pipeClosed (s : Session) : Bool := s.pipeError.isSome || s.readerClosed

/-- The drainer after `n` bytes of its write were taken. -/
def Drainer.advance (rest : Bytes) (n : Nat) : Drainer :=
  if rest.drop n = [] then .selecting else .writing (rest.drop n)

/-- The steps of both sides. -/
inductive Action
  -- the handler
  | write (value : Bytes) (select : Select)
  | drop
  | finish
  | finished
  | abandon
  -- the drainer
  | receive
  | observeStop
  | writeFails
  | closeWriter
  -- the put
  | readHeader (n : Nat)
  | readPipe (n : Nat)
  | readFails
  | probeData
  | probeEnd
  | putFails
  | commit
  | closeReader
  | closeDone
deriving DecidableEq, Repr

/-- Steps of the handler goroutine. -/
def stepHandler (c : Config) (s : Session) : Action → Option Session
  | .write value select => if s.handler = .ready then s.write c value select else none
  | .drop =>
    match s.handler with
    | .dropping .mark a =>
      some { s with dropped := true, handler := .dropping .closePipe a }
    | .dropping .closePipe a =>
      some { s.closePipe .encodeDropped with handler := .dropping .closeStop a }
    | .dropping .closeStop a =>
      some { s with stop := true, handler := if a then .left else .ready }
    | _ => none
  | .finish =>
    if s.handler = .ready then
      -- `finishEncode` abandons a session that was dropped
      if s.dropped then some (s.drop true)
      else some { s with closed := true, handler := .finishing }
    else none
  | .finished =>
    if s.handler = .finishing ∧ s.done then some { s with handler := .left } else none
  | .abandon => if s.handler = .ready then some (s.drop true) else none
  | _ => none

/-- Steps of the drainer goroutine. -/
def stepDrainer (s : Session) : Action → Option Session
  | .receive =>
    if s.drainer = .selecting then
      match s.chunks with
      | chunk :: rest => some { s with chunks := rest, drainer := .writing chunk }
      | [] => if s.closed then some { s with drainer := .closing } else none
    else none
  | .observeStop =>
    if s.drainer = .selecting ∧ s.stop then some { s with drainer := .closing } else none
  | .writeFails =>
    match s.drainer with
    | .writing _ => if s.pipeClosed then some { s with drainer := .closing } else none
    | _ => none
  | .closeWriter =>
    if s.drainer = .closing then some { s.closePipe .eof with drainer := .exited }
    else none
  | _ => none

/-- Steps of the put goroutine.  It reads `logical` bytes from the header and
then the pipe, probes for the end, and may fail for reasons of its own. -/
def stepPut (c : Config) (s : Session) : Action → Option Session
  | .readHeader n =>
    match s.put with
    | .reading got =>
      if 0 < n ∧ got.length + n ≤ c.headerBytes.length ∧ got.length + n ≤ c.logical then
        some { s with put := .reading (got ++ (c.headerBytes.drop got.length).take n) }
      else none
    | _ => none
  | .readPipe n =>
    match s.put, s.drainer with
    | .reading got, .writing rest =>
      if 0 < n ∧ n ≤ rest.length ∧ c.headerBytes.length ≤ got.length ∧
          got.length + n ≤ c.logical then
        some { s with
          put := .reading (got ++ rest.take n)
          drainer := .advance rest n }
      else none
    | _, _ => none
  | .readFails =>
    match s.put with
    | .reading got =>
      if got.length < c.logical ∧ c.headerBytes.length ≤ got.length ∧ s.pipeClosed then
        some { s with put := .failed }
      else none
    | _ => none
  | .probeData =>
    match s.put with
    | .reading got =>
      if got.length = c.logical then
        if got.length < c.headerBytes.length then some { s with put := .failed }
        else
          match s.drainer with
          | .writing rest =>
            some { s with put := .failed, drainer := .advance rest 1 }
          | _ => none
      else none
    | _ => none
  | .probeEnd =>
    match s.put with
    | .reading got =>
      if got.length = c.logical ∧ c.headerBytes.length ≤ got.length then
        match s.pipeError with
        | some .eof => some { s with put := .accepted got }
        | some .encodeDropped => some { s with put := .failed }
        | none => none
      else none
    | _ => none
  | .putFails =>
    match s.put with
    | .reading _ | .accepted _ => some { s with put := .failed }
    | _ => none
  | .commit =>
    match s.put with
    | .accepted got => some { s with put := .committed got }
    | _ => none
  | .closeReader =>
    match s.put with
    | .committed _ | .failed => some { s with readerClosed := true }
    | _ => none
  | .closeDone => if s.readerClosed then some { s with done := true } else none
  | _ => none

/-- One step of any of the three goroutines. -/
def step (c : Config) (s : Session) (a : Action) : Option Session :=
  match a with
  | .write _ _ | .drop | .finish | .finished | .abandon => stepHandler c s a
  | .receive | .observeStop | .writeFails | .closeWriter => stepDrainer s a
  | _ => stepPut c s a

end EncodeSession
