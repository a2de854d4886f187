import GovetoEdge.EncodeSession

/-!
# A streamed encode commits the whole response or nothing

While the put is reading and nothing was dropped, every byte written so far is, in
order, in the put's hands, in the drainer's, or in the queue.

The put accepts what it read only at `EOF`.  The drainer closes the pipe with `EOF`
only when it finds the pipe open, and then it has ended because `finish` closed the
queue and the drainer emptied it: `drop` closes the pipe with `errEncodeDropped`
before it closes `stop`.
-/

namespace EncodeSession

open List Runs EncodeSession

variable {c : Config} {s t : Session} {got : Bytes} {a : Action}

/-- Bytes the drainer took from the queue and the put has not read. -/
def Drainer.held : Drainer → Bytes
  | .writing rest => rest
  | _ => []

/-- The drainer left its loop. -/
def Drainer.ended (d : Drainer) : Prop := d = .closing ∨ d = .exited

/-- `drop` has been called. -/
def Session.DropBegun (s : Session) : Prop :=
  s.dropped = true ∨ ∃ a, s.handler = .dropping .mark a

/-- What holds while the put is reading. -/
structure Live (c : Config) (s : Session) (got : Bytes) : Prop where
  reader : s.readerClosed = false
  header : got.take c.headerBytes.length = c.headerBytes.take got.length
  ended : s.drainer.ended → s.pipeError = some .encodeDropped ∨ (s.closed = true ∧ s.chunks = [])
  stream : ¬ s.DropBegun →
    got.drop c.headerBytes.length ++ s.drainer.held ++ s.chunks.flatten = s.written.flatten

/-- The invariant of a session. -/
structure Inv (c : Config) (s : Session) : Prop where
  closed : s.closed = true → ¬ s.DropBegun ∧ s.handler ≠ .ready
  marked : ∀ a, s.handler = .dropping .closePipe a ∨ s.handler = .dropping .closeStop a →
    s.dropped = true
  piped : ∀ a, s.handler = .dropping .closeStop a → s.pipeError.isSome
  stopped : s.stop = true → s.dropped = true ∧ s.pipeError.isSome
  eof : s.pipeError = some .eof → s.drainer = .exited
  cut : s.pipeError = some .encodeDropped → s.dropped = true
  live : ∀ got, s.put = .reading got → Live c s got
  whole : ∀ got, s.put = .accepted got ∨ s.put = .committed got →
    s.closed = true ∧ got = c.headerBytes ++ s.written.flatten

/-- The invariant at the start. -/
theorem inv_start : Inv c startEncodeSession where
  closed := by simp [startEncodeSession]
  marked := by simp [startEncodeSession]
  piped := by simp [startEncodeSession]
  stopped := by simp [startEncodeSession]
  eof := by simp [startEncodeSession]
  cut := by simp [startEncodeSession]
  live := by
    intro got hput
    obtain rfl : [] = got := by simpa [startEncodeSession] using hput
    exact ⟨rfl, by simp, by simp [Drainer.ended, startEncodeSession],
      by simp [Drainer.held, startEncodeSession]⟩
  whole := by simp [startEncodeSession]

/-- The drainer does not touch the handler's side. -/
theorem stepDrainer_frame (h : stepDrainer s a = some t) :
    t.handler = s.handler ∧ t.dropped = s.dropped := by
  unfold stepDrainer at h
  repeat' split at h
  all_goals cases h
  all_goals exact ⟨rfl, rfl⟩

/-- The put does not touch the handler's side. -/
theorem stepPut_frame (h : stepPut c s a = some t) :
    t.handler = s.handler ∧ t.dropped = s.dropped := by
  unfold stepPut at h
  repeat' split at h
  all_goals cases h
  all_goals exact ⟨rfl, rfl⟩

theorem Session.dropped_drop (s : Session) (abandoning : Bool) :
    (s.drop abandoning).dropped = s.dropped := by
  unfold Session.drop
  repeat' split
  all_goals rfl

/-- The handler does not undo a drop. -/
theorem Session.DropBegun.stepHandler (hs : s.DropBegun) (h : stepHandler c s a = some t) :
    t.DropBegun := by
  -- outside of `drop` itself, a drop that has begun has set the flag
  have hflag : (∀ a, s.handler ≠ .dropping .mark a) → s.dropped = true := fun hno =>
    hs.resolve_right fun ⟨a, ha⟩ => hno a ha
  cases a with
  | write value select =>
    simp only [stepHandler] at h
    split at h
    · rename_i hready
      have hd := hflag (by simp [hready])
      simp only [Session.write, Session.tryWrite, hd, true_or, or_true, if_true] at h
      split at h <;> cases h
      · exact .inl (Session.dropped_drop _ _ |>.trans rfl)
      · exact .inl rfl
    · cases h
  | drop =>
    simp only [stepHandler] at h
    split at h
    · cases h
      exact .inl rfl
    · rename_i hh
      cases h
      exact .inl (hflag (by simp [hh]))
    · rename_i hh
      cases h
      exact .inl (hflag (by simp [hh]))
    · cases h
  | finish =>
    simp only [stepHandler] at h
    split at h
    · rename_i hready
      have hd := hflag (by simp [hready])
      simp only [hd, if_true, Option.some.injEq] at h
      subst h
      exact .inl ((Session.dropped_drop _ _).trans hd)
    · cases h
  | finished =>
    simp only [stepHandler] at h
    split at h
    · rename_i hfin
      cases h
      exact .inl (hflag (by simp [hfin.1]))
    · cases h
  | abandon =>
    simp only [stepHandler] at h
    split at h
    · rename_i hready
      cases h
      exact .inl ((Session.dropped_drop _ _).trans (hflag (by simp [hready])))
    · cases h
  | _ => simp [stepHandler] at h

/-- A drop that has begun is not undone. -/
theorem Session.DropBegun.step (hs : s.DropBegun) (h : step c s a = some t) : t.DropBegun := by
  have hframe : t.handler = s.handler ∧ t.dropped = s.dropped → t.DropBegun := by
    rintro ⟨hh, hd⟩
    simpa [Session.DropBegun, hh, hd] using hs
  unfold EncodeSession.step at h
  split at h
  all_goals first
    | exact hs.stepHandler h
    | exact hframe (stepDrainer_frame h)
    | exact hframe (stepPut_frame h)

/-- The handler calls into the session only while the queue is open. -/
theorem Inv.open_of_ready (hs : Inv c s) (hready : s.handler = .ready) : s.closed = false :=
  Bool.eq_false_iff.mpr fun hclosed => (hs.closed hclosed).2 hready

/-- With an open queue nothing was accepted. -/
theorem Inv.not_whole (hs : Inv c s) (hopen : s.closed = false) :
    ¬ (s.put = .accepted got ∨ s.put = .committed got) := by
  intro hput
  simp [(hs.whole got hput).1] at hopen

/-- A drop is called, or was called before, whatever was written. -/
theorem Inv.dropCalled (hs : Inv c s) (hready : s.handler = .ready) {size : Nat}
    {written : List Bytes} {handler : Handler}
    (hbegun : Session.DropBegun { s with size := size, written := written, handler := handler })
    (hstage : ∀ stage a, handler = .dropping stage a → stage = .mark) :
    Inv c { s with size := size, written := written, handler := handler } := by
  have hopen := hs.open_of_ready hready
  exact { hs with
    closed := by simp [hopen]
    marked := fun a hh => by rcases hh with hh | hh <;> cases hstage _ a hh
    piped := fun a hh => by cases hstage _ a hh
    live := fun got hput => { hs.live got hput with stream := (absurd hbegun ·) }
    whole := fun got hput => absurd hput (hs.not_whole hopen) }

/-- Calling `drop`, from `Write` or from `abandon`, whatever was written. -/
theorem Inv.startDrop (hs : Inv c s) (hready : s.handler = .ready) (size : Nat)
    (written : List Bytes) (abandoning : Bool) :
    Inv c (Session.drop { s with size := size, written := written } abandoning) := by
  unfold Session.drop
  split
  · rename_i hd
    split
    · exact hs.dropCalled hready (.inl hd) (by simp)
    · exact hs.dropCalled hready (.inl hd) (by simp [hready])
  · exact hs.dropCalled hready (.inr ⟨_, rfl⟩) (by simp)

/-- A `Write` that neither exceeds a bound nor finds the queue full: the bytes
join the end of the queue. -/
theorem Inv.queued (hs : Inv c s) (hready : s.handler = .ready) (size : Nat)
    {chunks : List Bytes} {value : Bytes}
    (hchunks : chunks.flatten = s.chunks.flatten ++ value) :
    Inv c { s with size := size, written := s.written ++ [value], chunks := chunks } := by
  have hopen := hs.open_of_ready hready
  refine { hs with live := fun got hput => ?_, whole := fun got hput => ?_ }
  · have hl := hs.live got hput
    refine { hl with ended := fun hend => ?_, stream := fun hcalm => ?_ }
    · exact .inl ((hl.ended hend).resolve_right (by simp [hopen]))
    · simp only [hchunks, flatten_append, flatten_singleton]
      rw [← append_assoc, hl.stream hcalm]
  · exact absurd hput (hs.not_whole hopen)

/-- `Write` keeps the invariant. -/
theorem Inv.write (hs : Inv c s) (hready : s.handler = .ready) {value : Bytes}
    {select : Select} (h : s.write c value select = some t) : Inv c t := by
  have hdrop := hs.startDrop hready (s.size + value.length) (s.written ++ [value]) false
  simp only [Session.write] at h
  split at h
  · cases h
    exact hdrop
  · simp only [Session.tryWrite] at h
    split at h
    · -- an empty chunk, or a session already dropped
      rename_i hskip
      cases h
      rcases hskip with hnil | hdropped | hclosed
      · exact hs.queued hready _ (by simp [hnil])
      · exact hs.dropCalled hready (.inl hdropped) (by simp [hready])
      · simp [hs.open_of_ready hready] at hclosed
    · split at h
      · cases h
        exact hdrop
      · rename_i hlive _
        split at h
        · split at h <;> cases h
          exact hs.queued hready _ (by simp)
        · -- `stop` is closed only by a drop, which was excluded above
          obtain ⟨hstop, h⟩ := Option.ite_none_right_eq_some.mp h
          exact absurd (.inr (.inl (hs.stopped hstop).1)) hlive
        · split at h <;> cases h
          exact hdrop

/-- The three effects of `drop`, one step each. -/
theorem Inv.drop {stage : DropStage} {a : Bool} (hs : Inv c s)
    (hdrop : s.handler = .dropping stage a) (h : stepHandler c s .drop = some t) :
    Inv c t := by
  have hbegun : s.DropBegun := by
    cases stage with
    | mark => exact .inr ⟨a, hdrop⟩
    | closePipe => exact .inl (hs.marked a (.inl hdrop))
    | closeStop => exact .inl (hs.marked a (.inr hdrop))
  have hopen : s.closed = false :=
    Bool.eq_false_iff.mpr fun hclosed => (hs.closed hclosed).1 hbegun
  have hstream := hbegun.stepHandler h
  cases stage with
  | mark =>
    simp only [stepHandler, hdrop, Option.some.injEq] at h
    subst h
    exact { hs with
      closed := by simp [hopen]
      marked := fun _ _ => rfl
      piped := by simp
      stopped := fun hstop => ⟨rfl, (hs.stopped hstop).2⟩
      cut := fun _ => rfl
      live := fun got hput => { hs.live got hput with stream := (absurd hstream ·) } }
  | closePipe =>
    have hdropped := hs.marked a (.inl hdrop)
    simp only [stepHandler, hdrop, Option.some.injEq] at h
    subst h
    exact { hs with
      closed := by simp [Session.closePipe, hopen]
      marked := fun _ _ => hdropped
      piped := by simp [Session.closePipe]
      stopped := fun _ => ⟨hdropped, rfl⟩
      eof := fun he => hs.eof (by cases hp : s.pipeError <;> simp_all [Session.closePipe])
      cut := fun _ => hdropped
      live := fun got hput => { hs.live got hput with
        ended := fun hend => by
          have hcut := ((hs.live got hput).ended hend).resolve_right (by simp [hopen])
          simp [Session.closePipe, hcut]
        stream := (absurd hstream ·) } }
  | closeStop =>
    have hdropped := hs.marked a (.inr hdrop)
    simp only [stepHandler, hdrop, Option.some.injEq] at h
    subst h
    exact { hs with
      closed := by simp [hopen]
      marked := fun _ _ => hdropped
      piped := by cases a <;> simp
      stopped := fun _ => ⟨hdropped, hs.piped a hdrop⟩
      live := fun got hput => { hs.live got hput with stream := (absurd hstream ·) } }

/-- **The handler keeps the invariant.** -/
theorem Inv.stepHandler (hs : Inv c s) (h : stepHandler c s a = some t) : Inv c t := by
  have hmono : ¬ t.DropBegun → ¬ s.DropBegun := fun hcalm hbegun => hcalm (hbegun.stepHandler h)
  cases a with
  | write value select =>
    simp only [stepHandler] at h
    split at h
    · exact hs.write ‹_› h
    · cases h
  | drop =>
    cases hh : s.handler with
    | dropping stage a => exact hs.drop hh h
    | _ => simp [stepHandler, hh] at h
  | finish =>
    simp only [stepHandler] at h
    obtain ⟨hready, h⟩ := Option.ite_none_right_eq_some.mp h
    split at h <;> cases h
    · exact hs.startDrop hready s.size s.written true
    · rename_i hd
      have hopen := hs.open_of_ready hready
      refine { hs with
        closed := fun _ => ⟨by simpa [Session.DropBegun] using hd, by simp⟩
        marked := by simp
        piped := by simp
        live := fun got hput => ?_
        whole := fun got hput => absurd hput (hs.not_whole hopen) }
      have hl := hs.live got hput
      exact { hl with
        ended := fun hend => .inl ((hl.ended hend).resolve_right (by simp [hopen]))
        stream := fun hcalm => hl.stream (hmono hcalm) }
  | finished =>
    simp only [stepHandler] at h
    obtain ⟨hfin, h⟩ := Option.ite_none_right_eq_some.mp h
    cases h
    exact { hs with
      closed := fun hclosed => ⟨fun hbegun => (hs.closed hclosed).1 (.inl (by
        simpa [Session.DropBegun] using hbegun)), by simp⟩
      marked := by simp
      piped := by simp
      live := fun got hput => { hs.live got hput with
        stream := fun hcalm => (hs.live got hput).stream (hmono hcalm) } }
  | abandon =>
    simp only [stepHandler] at h
    split at h
    · rename_i hready
      cases h
      exact hs.startDrop hready s.size s.written true
    · cases h
  | _ => simp [stepHandler] at h

/-- A drainer that is in its loop can only find the pipe closed by a drop. -/
theorem Inv.dropped_pipe (hs : Inv c s) (hloop : s.drainer ≠ .exited)
    (hsome : s.pipeError.isSome) : s.pipeError = some .encodeDropped := by
  obtain ⟨e, he⟩ := Option.isSome_iff_exists.mp hsome
  cases e with
  | eof => exact absurd (hs.eof he) hloop
  | encodeDropped => exact he

/-- A drainer step on the queue: what it drops was cut off by a drop. -/
theorem Inv.ofDrainer (hs : Inv c s) {chunks : List Bytes} {drainer : Drainer}
    (hloop : s.drainer ≠ .exited)
    (hlive : ∀ got, s.put = .reading got →
      (drainer.ended → s.pipeError = some .encodeDropped ∨ (s.closed = true ∧ chunks = [])) ∧
      (drainer.held ++ chunks.flatten = s.drainer.held ++ s.chunks.flatten ∨ s.DropBegun)) :
    Inv c { s with chunks := chunks, drainer := drainer } := by
  refine { hs with eof := fun he => absurd (hs.eof he) hloop, live := fun got hput => ?_ }
  obtain ⟨hended, hheld⟩ := hlive got hput
  refine { hs.live got hput with ended := hended, stream := fun hcalm => ?_ }
  rw [append_assoc, hheld.resolve_right hcalm, ← append_assoc]
  exact (hs.live got hput).stream hcalm

/-- **The drainer keeps the invariant.** -/
theorem Inv.stepDrainer (hs : Inv c s) (h : stepDrainer s a = some t) : Inv c t := by
  cases a with
  | receive =>
    simp only [stepDrainer] at h
    obtain ⟨hsel, h⟩ := Option.ite_none_right_eq_some.mp h
    split at h
    · rename_i chunk rest hchunks
      cases h
      refine hs.ofDrainer (by simp [hsel]) fun got hput => ⟨by simp [Drainer.ended], .inl ?_⟩
      simp [hsel, hchunks, Drainer.held]
    · rename_i hchunks
      split at h <;> cases h
      rename_i hclosed
      show Inv c { s with chunks := s.chunks, drainer := .closing }
      refine hs.ofDrainer (by simp [hsel]) fun got hput =>
        ⟨fun _ => .inr ⟨hclosed, hchunks⟩, .inl ?_⟩
      rw [hsel]
      rfl
  | observeStop =>
    simp only [stepDrainer] at h
    obtain ⟨⟨hsel, hstop⟩, h⟩ := Option.ite_none_right_eq_some.mp h
    cases h
    have hcut := hs.dropped_pipe (by simp [hsel]) (hs.stopped hstop).2
    refine hs.ofDrainer (by simp [hsel]) fun got hput => ⟨fun _ => .inl hcut, .inr (.inl ?_)⟩
    exact hs.cut hcut
  | writeFails =>
    simp only [stepDrainer] at h
    split at h
    · rename_i rest hwriting
      obtain ⟨hpipe, h⟩ := Option.ite_none_right_eq_some.mp h
      cases h
      refine hs.ofDrainer (by simp [hwriting]) fun got hput => ?_
      have hcut := hs.dropped_pipe (by simp [hwriting]) (by
        simpa [Session.pipeClosed, (hs.live got hput).reader] using hpipe)
      exact ⟨fun _ => .inl hcut, .inr (.inl (hs.cut hcut))⟩
    · cases h
  | closeWriter =>
    simp only [stepDrainer] at h
    obtain ⟨hclosing, h⟩ := Option.ite_none_right_eq_some.mp h
    cases h
    refine { hs with
      piped := fun _ _ => rfl
      stopped := fun hstop => ⟨(hs.stopped hstop).1, rfl⟩
      eof := fun _ => rfl
      cut := fun he => hs.cut (by cases hp : s.pipeError <;> simp_all [Session.closePipe])
      live := fun got hput => ?_ }
    have hl := hs.live got hput
    refine { hl with ended := fun _ => ?_, stream := fun hcalm => ?_ }
    · exact (hl.ended (.inl hclosing)).imp_left fun hcut => by simp [Session.closePipe, hcut]
    · have hstream := hl.stream hcalm
      rw [hclosing] at hstream
      exact hstream
  | _ => simp [stepDrainer] at h

/-- A put that failed owes nothing. -/
theorem Inv.fails (hs : Inv c s) {drainer : Drainer}
    (heof : s.pipeError = some .eof → drainer = .exited) :
    Inv c { s with put := .failed, drainer := drainer } :=
  { hs with eof := heof, live := by simp, whole := by simp }

/-- The drainer holds the rest. -/
@[simp] theorem Drainer.held_advance (rest : Bytes) (n : Nat) :
    (Drainer.advance rest n).held = rest.drop n := by
  unfold Drainer.advance
  split
  · rename_i hnil
    rw [hnil]
    rfl
  · rfl

/-- It goes on. -/
theorem Drainer.not_ended_advance (rest : Bytes) (n : Nat) :
    ¬ (Drainer.advance rest n).ended := by
  unfold Drainer.advance
  split <;> simp [Drainer.ended]

/-- A read of the put: the bytes move from the drainer to what it has got. -/
theorem Live.read {more : Bytes} {drainer : Drainer} (hl : Live c s got)
    (hheader : (got ++ more).take c.headerBytes.length =
      c.headerBytes.take (got ++ more).length)
    (hended : drainer.ended → s.drainer.ended)
    (hheld : (got ++ more).drop c.headerBytes.length ++ drainer.held =
      got.drop c.headerBytes.length ++ s.drainer.held) :
    Live c { s with put := .reading (got ++ more), drainer := drainer } (got ++ more) := by
  refine { hl with header := hheader, ended := (hl.ended <| hended ·), stream := fun hcalm => ?_ }
  rw [hheld]
  exact hl.stream hcalm

/-- At `EOF` the put has read the header and everything that was written. -/
theorem Inv.whole_of_eof (hs : Inv c s) (hput : s.put = .reading got)
    (heof : s.pipeError = some .eof) (hlen : c.headerBytes.length ≤ got.length) :
    s.closed = true ∧ got = c.headerBytes ++ s.written.flatten := by
  have hl := hs.live got hput
  have hexit := hs.eof heof
  obtain ⟨hclosed, hchunks⟩ := (hl.ended (.inr hexit)).resolve_left (by simp [heof])
  have hstream := hl.stream (hs.closed hclosed).1
  simp only [hexit, hchunks, Drainer.held, flatten_nil, append_nil] at hstream
  have hheader := hl.header
  rw [take_of_length_le hlen] at hheader
  refine ⟨hclosed, ?_⟩
  calc got = got.take c.headerBytes.length ++ got.drop c.headerBytes.length :=
        (take_append_drop _ _).symm
    _ = c.headerBytes ++ s.written.flatten := by rw [hheader, hstream]

/-- **The put keeps the invariant.** -/
theorem Inv.stepPut (hs : Inv c s) (h : stepPut c s a = some t) : Inv c t := by
  cases a with
  | readHeader n =>
    simp only [stepPut] at h
    split at h
    · rename_i got hput
      split at h <;> cases h
      rename_i hn
      refine { hs with live := ?_, whole := by simp }
      rintro _ ⟨⟩
      have hl := hs.live got hput
      have hgot : got = c.headerBytes.take got.length := by
        have hheader := hl.header
        rwa [take_of_length_le (by omega)] at hheader
      have hmore : got ++ (c.headerBytes.drop got.length).take n =
          c.headerBytes.take (got.length + n) := by
        rw [take_add, ← hgot]
      have hlen : (got ++ (c.headerBytes.drop got.length).take n).length =
          got.length + n := by
        simp only [length_append, length_take, length_drop]
        omega
      refine hl.read ?_ id ?_
      · rw [take_of_length_le (by omega), hlen, hmore]
      · rw [drop_of_length_le (by omega), drop_of_length_le (by omega)]
    · cases h
  | readPipe n =>
    simp only [stepPut] at h
    split at h
    · rename_i got rest hput hwriting
      split at h <;> cases h
      rename_i hn
      refine { hs with
        eof := fun he => by simp [hs.eof he] at hwriting
        live := ?_
        whole := by simp }
      rintro _ ⟨⟩
      have hl := hs.live got hput
      have hloop := Drainer.not_ended_advance rest n
      refine hl.read ?_ (fun he => absurd he hloop) ?_
      · rw [take_append_of_le_length hn.2.2.1, hl.header,
          take_of_length_le hn.2.2.1, take_of_length_le]
        simp only [length_append]
        omega
      · rw [drop_append_of_le_length hn.2.2.1, Drainer.held_advance, hwriting,
          append_assoc, take_append_drop]
        rfl
    · cases h
  | readFails =>
    simp only [stepPut] at h
    split at h
    · split at h <;> cases h
      exact hs.fails hs.eof
    · cases h
  | probeData =>
    simp only [stepPut] at h
    split at h
    · split at h
      · split at h
        · cases h
          exact hs.fails hs.eof
        · split at h <;> cases h
          rename_i hwriting
          exact hs.fails fun he => by simp [hs.eof he] at hwriting
      · cases h
    · cases h
  | probeEnd =>
    simp only [stepPut] at h
    split at h
    · rename_i got hput
      obtain ⟨hlen, h⟩ := Option.ite_none_right_eq_some.mp h
      split at h <;> cases h
      · rename_i heof
        refine { hs with live := by simp, whole := fun got' hgot => ?_ }
        obtain rfl : got = got' := by simpa using hgot
        exact hs.whole_of_eof hput heof hlen.2
      · exact hs.fails hs.eof
    · cases h
  | putFails =>
    simp only [stepPut] at h
    split at h <;> cases h
    all_goals exact hs.fails hs.eof
  | commit =>
    simp only [stepPut] at h
    split at h <;> cases h
    rename_i got hput
    refine { hs with live := by simp, whole := fun got' hgot => ?_ }
    obtain rfl : got = got' := by simpa using hgot
    exact hs.whole got (.inl hput)
  | closeReader =>
    simp only [stepPut] at h
    split at h <;> cases h
    all_goals
      rename_i hput
      exact { hs with live := by simp [hput] }
  | closeDone =>
    simp only [stepPut] at h
    split at h <;> cases h
    exact { hs with live := fun got hput => { hs.live got hput with } }
  | _ => simp [stepPut] at h

/-- **Every step keeps the invariant.** -/
theorem Inv.step (hs : Inv c s) (h : step c s a = some t) : Inv c t := by
  unfold EncodeSession.step at h
  split at h
  all_goals first
    | exact hs.stepHandler h
    | exact hs.stepDrainer h
    | exact hs.stepPut h

/-- Every reachable session satisfies the invariant. -/
theorem inv_of_run {as : List Action}
    (h : run (step c) startEncodeSession as = some s) : Inv c s :=
  run_invariant (fun _ _ _ hs hst => hs.step hst) inv_start h

/-- **A streamed encode commits the whole response or nothing.**  In every
interleaving, if the put has committed then no drop began in any state the
session went through, and the committed bytes are the serialized header
followed by all chunks in the order they were written. -/
theorem commits_whole_response (c : Config) (as : List Action)
    (h : run (step c) startEncodeSession as = some s)
    (hput : s.put = .committed got) :
    (∀ before after m, as = before ++ after →
      run (step c) startEncodeSession before = some m →
      m.dropped = false ∧ ¬ m.DropBegun) ∧
    got = c.headerBytes ++ s.written.flatten := by
  have hs : Inv c s := inv_of_run h
  obtain ⟨hclosed, hwhole⟩ := hs.whole got (.inr hput)
  refine ⟨?_, hwhole⟩
  intro before after m hsplit hm
  have hcalm : ¬ m.DropBegun := by
    intro hbegun
    rw [hsplit, run_append, hm] at h
    have hlast : s.DropBegun := run_invariant (I := Session.DropBegun)
      (fun _ _ _ hb hst => hb.step hst) hbegun h
    exact (hs.closed hclosed).1 hlast
  refine ⟨?_, hcalm⟩
  cases hd : m.dropped with
  | false => rfl
  | true => exact absurd (.inl hd) hcalm

/-- A response of three bytes in two chunks, read through the pipe in three
pieces. -/
def threeBytes : List Action :=
  [.write [1, 2] .send, .readHeader 1, .receive, .readPipe 1, .write [3] .send, .finish,
    .readPipe 1, .receive, .readPipe 1, .receive, .closeWriter, .probeEnd, .commit,
    .closeReader, .closeDone, .finished]

/-- A session for a one-byte header and a body of three bytes. -/
def threeByteConfig : Config :=
  { headerBytes := [9], logical := 4, declaredSize := 3, limit := 0, encodeQueueSlots := 64 }

theorem commits_three_bytes :
    ∃ s, run (step threeByteConfig) startEncodeSession threeBytes = some s ∧
      s.put = .committed [9, 1, 2, 3] ∧ [9, 1, 2, 3] = [9] ++ s.written.flatten :=
  ⟨_, rfl, rfl, (commits_whole_response threeByteConfig threeBytes rfl rfl).2⟩

end EncodeSession
