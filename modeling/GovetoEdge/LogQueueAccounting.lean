import GovetoEdge.LogQueue
import GovetoEdge.Runs
import GovetoEdge.Fallible

/-!
# No record is lost from the log queue

A chunk stands for the ids from its key on, as many as its header counts.  The
loops of the queue remove chunks, or the front of a chunk, from the front of the
bucket and put chunks at its end, and keep the totals in step.

* `Balanced` relates a bucket and the totals; `evictLoop_spec`, `appendLoop_spec`,
  `dropLoop_spec` and `ackLoop_spec` say what the loops do to both;
* `queue_conserves`: in every run the totals are exact and within the limit, the
  ranges of ids are disjoint and increase, and every record that was appended is
  queued, acknowledged or counted as dropped; the oldest records go first.
-/

namespace LogQueue

open GoStrings LogRecords LogChunks List Runs Fallible

/-- The number of records of a chunk. -/
def count (value : GoString) : Nat :=
  match logChunkCount value with
  | .ok n => n
  | .error _ => 0

/-- The number in the head of a chunk. -/
theorem count_eq {value : GoString} {n : Nat} (h : logChunkCount value = .ok n) :
    count value = n := by
  rw [count, h]

/-- The ids in a bucket, in the order of the keys. -/
def queued (bucket : Bucket) : List Nat :=
  bucket.flatMap fun entry => List.range' entry.1 (count entry.2)

@[simp] theorem queued_nil : queued [] = [] := rfl

@[simp] theorem queued_cons (key : Nat) (value : GoString) (bucket : Bucket) :
    queued ((key, value) :: bucket) = List.range' key (count value) ++ queued bucket := rfl

/-- Queues one behind the other. -/
@[simp] theorem queued_append (xs ys : Bucket) : queued (xs ++ ys) = queued xs ++ queued ys :=
  flatMap_append

@[simp] theorem size_cons (key : Nat) (value : GoString) (bucket : Bucket) :
    size ((key, value) :: bucket) = value.length + size bucket := by
  simp [size]

@[simp] theorem size_append (xs ys : Bucket) : size (xs ++ ys) = size xs + size ys := by
  simp [size]

/-- The number of records in a bucket. -/
def recordCount (bucket : Bucket) : Nat := (bucket.map fun entry => count entry.2).sum

@[simp] theorem recordCount_cons (key : Nat) (value : GoString) (bucket : Bucket) :
    recordCount ((key, value) :: bucket) = count value + recordCount bucket := by
  simp [recordCount]

@[simp] theorem recordCount_append (xs ys : Bucket) :
    recordCount (xs ++ ys) = recordCount xs + recordCount ys := by
  simp [recordCount]

/-- The bucket has an envelope under an id. -/
def Held (bucket : Bucket) (id : Nat) (envelope : GoString) : Prop :=
  ∃ entry ∈ bucket, ∃ i < count entry.2, id = entry.1 + i ∧
    envelopeAt i (entry.2.drop 5) = some envelope

/-- More chunks hold more. -/
theorem Held.mono {xs ys : Bucket} {id : Nat} {envelope : GoString} (h : Held xs id envelope)
    (hsub : ∀ entry ∈ xs, entry ∈ ys) : Held ys id envelope := by
  obtain ⟨entry, hentry, hat⟩ := h
  exact ⟨entry, hsub entry hentry, hat⟩

/-- What the totals say about a bucket. -/
structure Balanced (bucket : Bucket) (totals : Totals) : Prop where
  counted : ∀ entry ∈ bucket, ∃ n, logChunkCount entry.2 = .ok n
  ordered : bucket.Pairwise fun a b => a.1 + count a.2 ≤ b.1
  bytes : totals.bytes = size bucket
  records : totals.records = recordCount bucket
  dropped : totals.dropped = totals.discarded.length

variable {key : Nat} {value : GoString} {bucket : Bucket} {totals totals' : Totals}

/-- The ranges of the chunks are apart, so an id has one envelope. -/
theorem Held.unique (h : Balanced bucket totals) {id : Nat} {e e' : GoString}
    (he : Held bucket id e) (he' : Held bucket id e') : e = e' := by
  obtain ⟨a, ha, i, hi, hid, hat⟩ := he
  obtain ⟨b, hb, j, hj, hid', hat'⟩ := he'
  have hsymm : Std.Symm fun x y : Nat × GoString =>
      x.1 + count x.2 ≤ y.1 ∨ y.1 + count y.2 ≤ x.1 := ⟨fun _ _ h => h.symm⟩
  have hapart : bucket.Pairwise fun x y => x.1 + count x.2 ≤ y.1 ∨ y.1 + count y.2 ≤ x.1 :=
    h.ordered.imp .inl
  have heq : a = b := by
    by_contra hne
    have := hapart.forall ha hb hne
    omega
  subst heq
  obtain rfl : i = j := by omega
  exact Option.some.inj (hat.symm.trans hat')

/-- The first chunk is part of the totals. -/
theorem Balanced.first (h : Balanced ((key, value) :: bucket) totals) :
    ∃ n, logChunkCount value = .ok n ∧ value.length ≤ totals.bytes ∧ n ≤ totals.records := by
  obtain ⟨n, hn⟩ : ∃ n, logChunkCount value = .ok n := h.counted (key, value) mem_cons_self
  refine ⟨n, hn, ?_, ?_⟩
  · rw [h.bytes, size_cons]
    exact Nat.le_add_right _ _
  · rw [h.records, recordCount_cons, count_eq hn]
    exact Nat.le_add_right _ _

/-- The first chunk is gone. -/
theorem Balanced.removeFirst (h : Balanced ((key, value) :: bucket) totals)
    (hbytes : totals'.bytes = totals.bytes - value.length)
    (hrecords : totals'.records = totals.records - count value)
    (hdropped : totals'.dropped = totals'.discarded.length) : Balanced bucket totals' where
  counted entry hentry := h.counted entry (mem_cons_of_mem _ hentry)
  ordered := (pairwise_cons.mp h.ordered).2
  bytes := by
    rw [hbytes, h.bytes, size_cons, Nat.add_sub_cancel_left]
  records := by
    rw [hrecords, h.records, recordCount_cons, Nat.add_sub_cancel_left]
  dropped := hdropped

variable {n k : Nat} {trimmed : GoString}

/-- What is left of a chunk. -/
theorem trimLogChunk_spec {remove : Int} (hcount : logChunkCount value = .ok n)
    (h : trimLogChunk value remove = .ok trimmed) :
    0 ≤ remove ∧ remove.toNat ≤ n ∧
      (remove.toNat = n ∧ trimmed = [] ∨
        remove.toNat < n ∧ trimmed ≠ [] ∧ logChunkCount trimmed = .ok (n - remove.toNat) ∧
          trimmed.length + 5 * remove.toNat ≤ value.length ∧
          ∀ i, envelopeAt i (trimmed.drop 5) = envelopeAt (remove.toNat + i) (value.drop 5)) := by
  obtain ⟨hlength, -, hlt, -⟩ := logChunkCount_eq_ok hcount
  unfold trimLogChunk at h
  rw [hcount] at h
  simp only [bind, Except.bind] at h
  obtain ⟨hrange, h⟩ := ok_of_guard h
  split at h
  · next heq =>
    obtain rfl : trimmed = [] := (Except.ok.inj h).symm
    exact ⟨by omega, by omega, .inl ⟨by omega, rfl⟩⟩
  · next hne =>
    obtain ⟨offset, htrim, h⟩ := exists_of_bind h
    obtain ⟨hge, hle⟩ := trimLoop_bounds htrim hlength
    simp only [sliceOf_ok (show offset ≤ value.length ∧ value.length ≤ value.length by
      omega), Except.ok.injEq] at h
    refine ⟨by omega, by omega, .inr ⟨by omega, ?_, ?_, ?_, fun i => ?_⟩⟩
    · rw [← h]
      simp
    · rw [← h]
      exact logChunkCount_header (by omega) (by omega) _
    · rw [← h]
      simp only [length_append, length_singleton, BigEndian.length_put,
        BigEndian.length_slice (le_refl value.length)]
      omega
    · have hbody : trimmed.drop 5 = value.drop offset := by
        rw [← h, drop_left' (by simp), BigEndian.slice,
          take_of_length_le (by simp)]
      rw [hbody]
      exact envelopeAt_trimLoop htrim i

/-- The bucket when the first chunk lost some of its records. -/
theorem put_trimmed (h : Balanced ((key, value) :: bucket) totals)
    (hcount : logChunkCount value = .ok n) (hk : k < n) :
    put (key + k) trimmed bucket = (key + k, trimmed) :: bucket := by
  cases bucket with
  | nil => rfl
  | cons entry bucket =>
    have hle := (pairwise_cons.mp h.ordered).1 entry mem_cons_self
    rw [count_eq hcount] at hle
    rw [put, if_pos (lt_of_lt_of_le (Nat.add_lt_add_left hk key) hle)]

/-- The first chunk loses records. -/
theorem Balanced.trimFirst (h : Balanced ((key, value) :: bucket) totals)
    (hcount : logChunkCount value = .ok n) (hk : k < n)
    (htrimmed : logChunkCount trimmed = .ok (n - k))
    (hbytes : totals'.bytes = totals.bytes - value.length + trimmed.length)
    (hrecords : totals'.records = totals.records - k)
    (hdropped : totals'.dropped = totals'.discarded.length) :
    Balanced ((key + k, trimmed) :: bucket) totals' := by
  obtain ⟨hfirst, hrest⟩ := pairwise_cons.mp h.ordered
  have hrecordCount := h.records
  rw [recordCount_cons, count_eq hcount] at hrecordCount
  refine ⟨?_, pairwise_cons.mpr ⟨?_, hrest⟩, ?_, ?_, hdropped⟩
  · exact forall_mem_cons.mpr
      ⟨⟨_, htrimmed⟩, fun entry hentry => h.counted entry (mem_cons_of_mem _ hentry)⟩
  · intro entry hentry
    have hle := hfirst entry hentry
    rw [count_eq hcount] at hle
    rw [count_eq htrimmed]
    omega
  · rw [hbytes, h.bytes, size_cons, size_cons, Nat.add_sub_cancel_left, Nat.add_comm]
  · rw [hrecords, recordCount_cons, count_eq htrimmed]
    omega

/-- A chunk that is the end of another one, under the ids it had there. -/
def PartOf (entry old : Nat × GoString) : Prop :=
  ∃ k, entry.1 = old.1 + k ∧ k + count entry.2 ≤ count old.2 ∧
    ∀ i, envelopeAt i (entry.2.drop 5) = envelopeAt (k + i) (old.2.drop 5)

theorem PartOf.refl (entry : Nat × GoString) : PartOf entry entry :=
  ⟨0, rfl, by omega, fun i => by rw [Nat.zero_add]⟩

/-- A part of a part. -/
theorem PartOf.trans {a b c : Nat × GoString} (hab : PartOf a b) (hbc : PartOf b c) :
    PartOf a c := by
  obtain ⟨k, hkey, hcount, hat⟩ := hab
  obtain ⟨m, hkey', hcount', hat'⟩ := hbc
  refine ⟨m + k, by omega, by omega, fun i => ?_⟩
  rw [hat, hat', Nat.add_assoc]

/-- What leaves a bucket at its front. -/
structure Removes (bucket bucket' : Bucket) (removed : List Nat) : Prop where
  queued : queued bucket = removed ++ queued bucket'
  size : size bucket' ≤ size bucket
  parts : ∀ entry ∈ bucket', ∃ old ∈ bucket, PartOf entry old

variable {bucket' bucket'' : Bucket} {removed : List Nat}

theorem Removes.refl (bucket : Bucket) : Removes bucket bucket [] :=
  ⟨rfl, le_refl _, fun entry hentry => ⟨entry, hentry, .refl entry⟩⟩

/-- Removals one after the other. -/
theorem Removes.trans {more : List Nat} (h : Removes bucket bucket' removed)
    (h' : Removes bucket' bucket'' more) : Removes bucket bucket'' (removed ++ more) where
  queued := by rw [h.queued, h'.queued, append_assoc]
  size := le_trans h'.size h.size
  parts := by
    intro entry hentry
    obtain ⟨middle, hmiddle, hpart⟩ := h'.parts entry hentry
    obtain ⟨old, hold, hpart'⟩ := h.parts middle hmiddle
    exact ⟨old, hold, hpart.trans hpart'⟩

/-- The first chunk goes. -/
theorem removes_first (hcount : logChunkCount value = .ok n) :
    Removes ((key, value) :: bucket) bucket (List.range' key n) where
  queued := by rw [queued_cons, count_eq hcount]
  size := by simp
  parts := fun entry hentry => ⟨entry, mem_cons_of_mem _ hentry, .refl entry⟩

/-- A chunk that lost records has the others under their ids. -/
theorem removes_trimmed (hcount : logChunkCount value = .ok n) (hk : k < n)
    (htrimmed : logChunkCount trimmed = .ok (n - k)) (hshort : trimmed.length ≤ value.length)
    (hat : ∀ i, envelopeAt i (trimmed.drop 5) = envelopeAt (k + i) (value.drop 5)) :
    Removes ((key, value) :: bucket) ((key + k, trimmed) :: bucket) (List.range' key k) where
  queued := by
    rw [queued_cons, queued_cons, count_eq hcount, count_eq htrimmed, ← append_assoc]
    congr 1
    rw [List.range'_append_1, Nat.add_sub_cancel' (le_of_lt hk)]
  size := by
    rw [size_cons, size_cons]
    omega
  parts := by
    refine forall_mem_cons.mpr ⟨⟨(key, value), mem_cons_self, k, rfl, ?_, hat⟩, ?_⟩
    · rw [count_eq hcount, count_eq htrimmed]
      omega
    · exact fun entry hentry => ⟨entry, mem_cons_of_mem _ hentry, .refl entry⟩

/-- Dropping the oldest chunks never fails. -/
theorem evictLoop_spec (maxBytes size : Nat) (h : Balanced bucket totals) :
    ∃ bucket' totals' removed, evictLoop maxBytes size bucket totals = .ok (bucket', totals') ∧
      Balanced bucket' totals' ∧ queued bucket = removed ++ queued bucket' ∧
      totals'.discarded = totals.discarded ++ removed ∧
      totals'.acknowledged = totals.acknowledged ∧ (∀ entry ∈ bucket', entry ∈ bucket) ∧
      (size ≤ maxBytes → totals'.bytes + size ≤ maxBytes) := by
  induction bucket generalizing totals with
  | nil =>
    refine ⟨[], totals, [], rfl, h, rfl, by simp, rfl, by simp, ?_⟩
    intro hsize
    rw [h.bytes]
    simpa [LogQueue.size] using hsize
  | cons entry bucket ih =>
    obtain ⟨key, value⟩ := entry
    obtain ⟨n, hn, hbytes, hrecords⟩ := h.first
    rw [evictLoop]
    by_cases hfull : totals.bytes + size > maxBytes
    · rw [if_pos hfull, hn]
      have hnext : Balanced bucket { totals with
          dropped := totals.dropped + n
          records := totals.records - min totals.records n
          bytes := if value.length ≤ totals.bytes then totals.bytes - value.length else 0
          discarded := totals.discarded ++ List.range' key n } :=
        h.removeFirst (if_pos hbytes) (by rw [count_eq hn, Nat.min_eq_right hrecords])
          (by simp [h.dropped])
      obtain ⟨bucket', totals', removed, heq, hbalanced, hqueued, hdiscarded, hacknowledged,
        hmem, hroom⟩ := ih hnext
      refine ⟨bucket', totals', List.range' key n ++ removed, heq, hbalanced, ?_, ?_,
        hacknowledged, fun e he => mem_cons_of_mem _ (hmem e he), hroom⟩
      · rw [queued_cons, count_eq hn, hqueued, append_assoc]
      · rw [hdiscarded, append_assoc]
    · rw [if_neg hfull]
      exact ⟨_, _, [], rfl, h, rfl, by simp, rfl, fun e he => he, fun _ => by omega⟩

/-- A key above all others goes to the end. -/
theorem put_last (h : ∀ entry ∈ bucket, entry.1 < key) :
    put key value bucket = bucket ++ [(key, value)] := by
  induction bucket with
  | nil => rfl
  | cons entry bucket ih =>
    obtain ⟨hlt, h⟩ := forall_mem_cons.mp h
    rw [put, if_neg (by omega), if_neg (by omega), ih h, cons_append]

/-- A chunk is added at the end. -/
theorem Balanced.append (h : Balanced bucket totals)
    (hbelow : ∀ entry ∈ bucket, entry.1 + count entry.2 ≤ key)
    (hcount : logChunkCount value = .ok n) :
    Balanced (bucket ++ [(key, value)]) { totals with
      bytes := totals.bytes + value.length, records := totals.records + n } where
  counted := forall_mem_append.mpr
    ⟨h.counted, forall_mem_singleton.mpr ⟨n, hcount⟩⟩
  ordered := by
    rw [pairwise_append]
    refine ⟨h.ordered, pairwise_singleton _ _, ?_⟩
    intro entry hentry last hlast
    rw [mem_singleton.mp hlast]
    exact hbelow entry hentry
  bytes := by
    rw [size_append, h.bytes]
    simp [size]
  records := by
    rw [recordCount_append, h.records]
    simp [recordCount, count_eq hcount]
  dropped := h.dropped

/-- The ids of a chunk are those of `envelopes`, which are counted from `firstID`
on, and the chunk has the envelopes, if they are short enough for the four bytes
of their size. -/
def Stores (firstID : Nat) (envelopes : List GoString) (entry : Nat × GoString) : Prop :=
  ∀ i < count entry.2, ∃ j e, entry.1 + i = firstID + j ∧ envelopes[j]? = some e ∧
    ((∀ e ∈ envelopes, e.length < 2 ^ 32) → envelopeAt i (entry.2.drop 5) = some e)

/-- The envelopes of records. -/
def envelopes (now : Int) (records : List LogRecord) : List GoString :=
  records.map fun r => encodeLogEnvelope r now

/-- A new chunk stores its records. -/
theorem stores_encodeChunk {now : Int} {records : List LogRecord} (h : ∀ r ∈ records, Accepted r)
    (hcount : logChunkCount (encodeChunk now records) = .ok records.length) (firstID : Nat) :
    Stores firstID (envelopes now records) (firstID, encodeChunk now records) := by
  intro i hi
  rw [count_eq hcount] at hi
  refine ⟨i, encodeLogEnvelope records[i] now, rfl, ?_, fun hshort => ?_⟩
  · rw [envelopes, getElem?_map, List.getElem?_eq_getElem hi]
    rfl
  · rw [encodeChunk, drop_left' (by simp)]
    exact envelopeAt_flatMap h (fun r hr => hshort _ (mem_map_of_mem hr))
      (List.getElem?_eq_getElem hi)

/-- Records behind a chunk make no difference. -/
theorem Stores.append {firstID : Nat} {es : List GoString} {entry : Nat × GoString}
    (h : Stores firstID es entry) (rest : List GoString) : Stores firstID (es ++ rest) entry := by
  intro i hi
  obtain ⟨j, e, hid, he, hat⟩ := h i hi
  refine ⟨j, e, hid, ?_, fun hshort => hat fun e he => hshort e (mem_append_left _ he)⟩
  rw [getElem?_append_left (List.getElem?_eq_some_iff.mp he).1, he]

/-- Nor do records in front of it. -/
theorem Stores.behind {firstID : Nat} {rest : List GoString} {entry : Nat × GoString}
    (es : List GoString) (h : Stores (firstID + es.length) rest entry) :
    Stores firstID (es ++ rest) entry := by
  intro i hi
  obtain ⟨j, e, hid, he, hat⟩ := h i hi
  refine ⟨es.length + j, e, by omega, ?_,
    fun hshort => hat fun e he => hshort e (mem_append_right _ he)⟩
  rw [getElem?_append_right (Nat.le_add_right _ _), Nat.add_sub_cancel_left, he]

/-- The records of the chunks come in at the end, and the oldest ones leave. -/
theorem appendLoop_spec (firstID : Nat) {now : Int} {maxBytes start : Nat}
    {records : List LogRecord}
    {chunks : List EncodedLogChunk} (hchunked : Chunked now maxBytes start records chunks)
    (h : Balanced bucket totals)
    (hbelow : ∀ entry ∈ bucket, entry.1 + count entry.2 ≤ firstID + start)
    (hmax : totals.bytes ≤ maxBytes) :
    ∃ bucket' totals' removed, appendLoop maxBytes firstID chunks bucket totals =
        .ok (bucket', totals') ∧
      Balanced bucket' totals' ∧
      queued bucket ++ List.range' (firstID + start) records.length = removed ++ queued bucket' ∧
      totals'.discarded = totals.discarded ++ removed ∧
      totals'.acknowledged = totals.acknowledged ∧
      (∀ entry ∈ bucket', entry.1 + count entry.2 ≤ firstID + start + records.length) ∧
      totals'.bytes ≤ maxBytes ∧
      ∀ entry ∈ bucket', entry ∈ bucket ∨
        Stores (firstID + start) (envelopes now records) entry := by
  induction hchunked generalizing bucket totals with
  | nil start =>
    exact ⟨bucket, totals, [], rfl, h, by simp, by simp, rfl, hbelow, hmax, fun _ h => .inl h⟩
  | @cons start records rest chunks hne hcount haccepted hsize _ ih =>
    have hn : logChunkCount (encodeChunk now records) = .ok records.length :=
      logChunkCount_header (length_pos_of_ne_nil hne)
        (lt_of_le_of_lt hcount (by decide)) _
    obtain ⟨kept, left, dropped, hevict, hbalanced, hqueued, hdiscarded, hacknowledged, hmem,
      hroom⟩ := evictLoop_spec maxBytes (encodeChunk now records).length h
    have hbelow' : ∀ entry ∈ kept, entry.1 + count entry.2 ≤ firstID + start :=
      fun entry hentry => hbelow entry (hmem entry hentry)
    have hput : put (firstID + start) (encodeChunk now records) kept =
        kept ++ [(firstID + start, encodeChunk now records)] := by
      apply put_last
      intro entry hentry
      obtain ⟨m, hm⟩ := hbalanced.counted entry hentry
      have hlt := (logChunkCount_eq_ok hm).2.1
      have hle := hbelow' entry hentry
      rw [count_eq hm] at hle
      omega
    have hnext := hbalanced.append hbelow' hn
    have hbelowNext : ∀ entry ∈ kept ++ [(firstID + start, encodeChunk now records)],
        entry.1 + count entry.2 ≤ firstID + (start + records.length) := by
      refine forall_mem_append.mpr ⟨?_, forall_mem_singleton.mpr ?_⟩
      · intro entry hentry
        have := hbelow' entry hentry
        omega
      · rw [count_eq hn]
        omega
    obtain ⟨bucket', totals', removed, hloop, hbalanced', hqueued', hdiscarded', hacknowledged',
      hbelow'', hmax', hstored⟩ := ih hnext hbelowNext (hroom hsize)
    refine ⟨bucket', totals', dropped ++ removed, ?_, hbalanced', ?_, ?_, ?_, ?_, hmax', ?_⟩
    · rw [appendLoop, hevict]
      simp only [bind, Except.bind, hput]
      exact hloop
    · rw [queued_append, queued_cons, queued_nil, append_nil, count_eq hn] at hqueued'
      rw [hqueued, length_append, ← List.range'_append_1, append_assoc dropped removed,
        ← hqueued', append_assoc, append_assoc, Nat.add_assoc firstID]
    · rw [hdiscarded', ← append_assoc, ← hdiscarded]
    · rw [hacknowledged', ← hacknowledged]
    · intro entry hentry
      have := hbelow'' entry hentry
      rw [length_append]
      omega
    · intro entry hentry
      rcases hstored entry hentry with hold | hnew
      · rcases mem_append.mp hold with hkept | hchunk
        · exact .inl (hmem entry hkept)
        · rw [mem_singleton.mp hchunk, envelopes, map_append]
          exact .inr ((stores_encodeChunk haccepted hn _).append _)
      · rw [envelopes, map_append]
        refine .inr (Stores.behind _ ?_)
        rw [length_map, Nat.add_assoc]
        exact hnew

/-- Records that are too long leave at the front. -/
theorem dropLoop_spec {maxBytes fuel : Nat} (h : Balanced bucket totals)
    (hloop : dropLoop maxBytes fuel bucket totals = .ok (bucket', totals')) :
    Balanced bucket' totals' ∧ ∃ removed, Removes bucket bucket' removed ∧
      totals'.discarded = totals.discarded ++ removed ∧
      totals'.acknowledged = totals.acknowledged := by
  induction fuel generalizing bucket totals with
  | zero =>
    cases bucket with
    | nil =>
      obtain ⟨rfl, rfl⟩ := hloop
      exact ⟨h, [], .refl _, by simp, rfl⟩
    | cons entry bucket => exact absurd hloop (by simp [dropLoop])
  | succ fuel ih =>
    cases bucket with
    | nil =>
      obtain ⟨rfl, rfl⟩ := hloop
      exact ⟨h, [], .refl _, by simp, rfl⟩
    | cons entry bucket =>
      obtain ⟨key, value⟩ := entry
      obtain ⟨n, hn, hbytes, hrecords⟩ := h.first
      obtain ⟨oversized, hoversized, hloop⟩ := exists_of_bind hloop
      split at hloop
      · obtain ⟨rfl, rfl⟩ := hloop
        exact ⟨h, [], .refl _, by simp, rfl⟩
      · obtain ⟨trimmed, htrim, hloop⟩ := exists_of_bind hloop
        obtain ⟨-, hle, htrimmed⟩ := trimLogChunk_spec hn htrim
        rw [Int.toNat_natCast] at hle htrimmed
        simp only [Nat.min_eq_right hbytes, Nat.min_eq_right (le_trans hle hrecords)] at hloop
        rcases htrimmed with ⟨rfl, rfl⟩ | ⟨hlt, hne, hrest, hshort, hat⟩
        · have hnext := fun hb => ih hb hloop
          obtain ⟨hbalanced, removed, hremoves, hdiscarded, hacknowledged⟩ :=
            hnext (h.removeFirst rfl (by rw [count_eq hn]) (by simp [h.dropped]))
          exact ⟨hbalanced, _, (removes_first hn).trans hremoves,
            by rw [hdiscarded, append_assoc], hacknowledged⟩
        · rw [if_pos hne, put_trimmed h hn hlt] at hloop
          have hnext := fun hb => ih hb hloop
          obtain ⟨hbalanced, removed, hremoves, hdiscarded, hacknowledged⟩ :=
            hnext (h.trimFirst hn hlt hrest rfl rfl (by simp [h.dropped]))
          exact ⟨hbalanced, _, (removes_trimmed hn hlt hrest (by omega) hat).trans hremoves,
            by rw [hdiscarded, append_assoc], hacknowledged⟩

/-- Conversion to signed numbers never increases. -/
theorem bmod_le (n m : Nat) : (n : Int).bmod m ≤ n := by
  have hmod : (n : Int) % (m : Int) ≤ n := by
    exact Int.ofNat_le.mpr (Nat.mod_le n m)
  rw [Int.bmod]
  split
  · exact hmod
  · omega

theorem goInt_le (n : Nat) : goInt n ≤ n := bmod_le n (2 ^ 64)

/-- Acknowledged records leave at the front. -/
theorem ackLoop_spec {through : Nat} (h : Balanced bucket totals)
    (hloop : ackLoop through bucket totals = .ok (bucket', totals')) :
    Balanced bucket' totals' ∧ ∃ removed, Removes bucket bucket' removed ∧
      totals'.acknowledged = totals.acknowledged ++ removed ∧
      totals'.discarded = totals.discarded ∧ ∀ id ∈ removed, id ≤ through := by
  induction bucket generalizing totals with
  | nil =>
    obtain ⟨rfl, rfl⟩ := hloop
    exact ⟨h, [], .refl _, by simp, rfl, by simp⟩
  | cons entry bucket ih =>
    obtain ⟨key, value⟩ := entry
    obtain ⟨n, hn, hbytes, hrecords⟩ := h.first
    unfold ackLoop at hloop
    split at hloop
    · obtain ⟨rfl, rfl⟩ := hloop
      exact ⟨h, [], .refl _, by simp, rfl, by simp⟩
    · next hkey =>
      simp only [hn, bind, Except.bind] at hloop
      have hremove : (min (n : Int) (goInt (through - key + 1))).toNat ≤ through - key + 1 := by
        have := goInt_le (through - key + 1)
        omega
      generalize min (n : Int) (goInt (through - key + 1)) = remove at hloop hremove
      obtain ⟨trimmed, htrim, hloop⟩ := exists_of_bind hloop
      obtain ⟨-, hle, htrimmed⟩ := trimLogChunk_spec hn htrim
      have hthrough : ∀ id ∈ List.range' key remove.toNat, id ≤ through := by
        intro id hid
        have := mem_range'_1.mp hid
        omega
      simp only [Nat.min_eq_right hbytes, Nat.min_eq_right (le_trans hle hrecords)] at hloop
      rcases htrimmed with ⟨heq, rfl⟩ | ⟨hlt, hne, hrest, hshort, hat⟩
      · rw [heq] at hloop hthrough
        have hnext := fun hb => ih hb hloop
        obtain ⟨hbalanced, removed, hremoves, hacknowledged, hdiscarded, hle⟩ :=
          hnext (h.removeFirst rfl (by rw [count_eq hn]) h.dropped)
        exact ⟨hbalanced, _, (removes_first hn).trans hremoves,
          by rw [hacknowledged, append_assoc], hdiscarded, forall_mem_append.mpr ⟨hthrough, hle⟩⟩
      · rw [if_pos hne, put_trimmed h hn hlt] at hloop
        obtain ⟨rfl, rfl⟩ := hloop
        exact ⟨h.trimFirst hn hlt hrest rfl rfl h.dropped, _,
          removes_trimmed hn hlt hrest (by omega) hat, rfl, rfl, hthrough⟩

/-- What holds of a queue that was opened with the sequence at `first`. -/
structure Inv (maxBytes first : Nat) (s : State) : Prop where
  balanced : Balanced s.bucket s.totals
  max : s.totals.bytes ≤ maxBytes
  below : ∀ entry ∈ s.bucket, entry.1 + count entry.2 ≤ s.sequence + 1
  first_le : first ≤ s.sequence
  conserved : (s.totals.acknowledged ++ (s.totals.discarded ++ queued s.bucket)).Perm
    (List.range' (first + 1) (s.sequence - first))

/-- Records come in at the end and leave at the front, where they are dropped or
acknowledged. -/
inductive OldestFirst (s t : State) : Prop
  | dropped (new removed : List Nat)
      (hqueued : queued s.bucket ++ new = removed ++ queued t.bucket)
      (hdiscarded : t.totals.discarded = s.totals.discarded ++ removed)
      (hacknowledged : t.totals.acknowledged = s.totals.acknowledged)
  | acknowledged (removed : List Nat) (hqueued : queued s.bucket = removed ++ queued t.bucket)
      (hacknowledged : t.totals.acknowledged = s.totals.acknowledged ++ removed)
      (hdiscarded : t.totals.discarded = s.totals.discarded)

/-- What the queue has under an id that it has given out, it had before; and only
ids up to `through` are acknowledged. -/
structure Keeps (through : Option Nat) (s t : State) : Prop where
  sequence : s.sequence ≤ t.sequence
  held : ∀ id envelope, id ≤ s.sequence → Held t.bucket id envelope → Held s.bucket id envelope
  queued : ∀ id ≤ s.sequence, id ∈ queued t.bucket → id ∈ queued s.bucket
  acknowledged : ∀ id ∈ t.totals.acknowledged, id ∈ s.totals.acknowledged ∨
    ∃ n ∈ through, id ≤ n ∧ id ∈ LogQueue.queued s.bucket

/-- What is in the chunks was there before, or is appended. -/
structure Moves (appended : List GoString) (s t : State) : Prop where
  sequence : t.sequence = s.sequence + appended.length
  chunks : ∀ entry ∈ t.bucket,
    (∃ old ∈ s.bucket, PartOf entry old) ∨ Stores (s.sequence + 1) appended entry

variable {maxBytes first : Nat} {s t : State} {a : Action}

theorem Moves.refl (s : State) : Moves [] s s :=
  ⟨rfl, fun entry hentry => .inl ⟨entry, hentry, .refl entry⟩⟩

/-- What was queued stays as it was. -/
theorem Moves.held {appended : List GoString} (h : Moves appended s t) {id : Nat}
    {envelope : GoString} (hid : id ≤ s.sequence) (hheld : Held t.bucket id envelope) :
    Held s.bucket id envelope := by
  obtain ⟨entry, hentry, i, hi, rfl, hat⟩ := hheld
  rcases h.chunks entry hentry with ⟨old, hold, k, hkey, hcount, hpart⟩ | hnew
  · exact ⟨old, hold, k + i, by omega, by omega, by rw [← hpart, hat]⟩
  · obtain ⟨j, e, hj, -⟩ := hnew i hi
    omega

theorem Keeps.refl (through : Option Nat) (s : State) : Keeps through s s :=
  ⟨le_refl _, fun _ _ _ h => h, fun _ _ h => h, fun _ h => .inl h⟩

/-- The empty queue. -/
theorem inv_opened (maxBytes first : Nat) : Inv maxBytes first (opened first) where
  balanced := ⟨by simp [opened], List.Pairwise.nil, rfl, rfl, rfl⟩
  max := Nat.zero_le _
  below := by simp [opened]
  first_le := le_refl _
  conserved := by simp [opened]

theorem OldestFirst.refl (s : State) : OldestFirst s s :=
  .dropped [] [] (by simp) (by simp) rfl

/-- Queued ids are behind the sequence: a chunk that lost records or is gone
leaves fewer. -/
theorem below_of_queued (h : Balanced bucket totals) {bound : Nat}
    (hids : ∀ id ∈ queued bucket, id < bound) :
    ∀ entry ∈ bucket, entry.1 + count entry.2 ≤ bound := by
  intro entry hentry
  obtain ⟨n, hn⟩ := h.counted entry hentry
  have hpos := (logChunkCount_eq_ok hn).2.1
  have hlast : entry.1 + (n - 1) ∈ queued bucket := by
    refine mem_flatMap.mpr ⟨entry, hentry, ?_⟩
    rw [count_eq hn]
    exact mem_range'_1.mpr ⟨by omega, by omega⟩
  have := hids _ hlast
  rw [count_eq hn]
  omega

/-- Records are added; old ones may have to go. -/
theorem inv_append {records : List LogRecord} {now : Int} (hinv : Inv maxBytes first s)
    (h : appendBatch maxBytes s records now = .ok t) :
    Inv maxBytes first t ∧ OldestFirst s t ∧ Keeps none s t ∧
      Moves (envelopes now records) s t := by
  unfold appendBatch at h
  split at h
  · next hnil =>
    rw [← Except.ok.inj h, hnil]
    exact ⟨hinv, .refl s, .refl _ s, .refl s⟩
  · next hne =>
    obtain ⟨chunks, hbuild, h⟩ := exists_of_bind h
    obtain ⟨bucket, totals, removed, hloop, hbalanced, hqueued, hdiscarded, hacknowledged,
      hbelow, hmax, hstored⟩ := appendLoop_spec (s.sequence + 1)
        (buildLogChunks_chunked hbuild) hinv.balanced hinv.below hinv.max
    simp only [hloop, bind, Except.bind, Except.ok.injEq] at h
    obtain ⟨hfirst, hperm⟩ := And.intro hinv.first_le hinv.conserved
    subst h
    have hmoves : Moves (envelopes now records) s
        ⟨bucket, s.sequence + 1 + records.length - 1, totals⟩ := by
      refine ⟨?_, fun entry hentry => (hstored entry hentry).imp_left fun hold => ?_⟩
      · rw [envelopes, length_map]
        dsimp only
        omega
      · exact ⟨entry, hold, .refl entry⟩
    refine ⟨⟨hbalanced, hmax, ?_, by dsimp only; omega, ?_⟩,
      .dropped _ removed hqueued hdiscarded hacknowledged, ⟨by dsimp only; omega,
      fun _ _ => hmoves.held, fun id hid hmem => ?_, fun id hid => .inl (hacknowledged ▸ hid)⟩,
      hmoves⟩
    · intro entry hentry
      have := hbelow entry hentry
      dsimp only
      omega
    · have hrange : List.range' (first + 1) (s.sequence + 1 + records.length - 1 - first) =
          List.range' (first + 1) (s.sequence - first) ++
            List.range' (s.sequence + 1 + 0) records.length := by
        rw [show s.sequence + 1 + 0 = first + 1 + (s.sequence - first) by omega,
          List.range'_append_1]
        congr 1
        omega
      rw [hrange, hdiscarded, hacknowledged, append_assoc, ← hqueued,
        ← append_assoc, ← append_assoc]
      rw [← append_assoc] at hperm
      exact hperm.append_right _
    · have hold := mem_append_right removed hmem
      rw [← hqueued] at hold
      rcases mem_append.mp hold with hold | hnew
      · exact hold
      · have := (mem_range'_1.mp hnew).1
        omega

/-- Records leave at the front. -/
theorem inv_of_removed (hinv : Inv maxBytes first s) (hbalanced : Balanced bucket totals)
    (hremoves : Removes s.bucket bucket removed)
    (hgone : (totals.acknowledged ++ totals.discarded).Perm
      (s.totals.acknowledged ++ s.totals.discarded ++ removed)) :
    Inv maxBytes first { s with bucket := bucket, totals := totals } where
  balanced := hbalanced
  max := by
    have hbytes := hinv.balanced.bytes
    have hmax := hinv.max
    have hsize := hremoves.size
    rw [hbalanced.bytes]
    omega
  below := by
    apply below_of_queued hbalanced
    intro id hid
    have hmem : id ∈ queued s.bucket := by
      rw [hremoves.queued]
      exact mem_append_right _ hid
    obtain ⟨entry, hentry, hrange⟩ := mem_flatMap.mp hmem
    have hlt := mem_range'_1.mp hrange
    have hle := hinv.below entry hentry
    show id < s.sequence + 1
    omega
  first_le := hinv.first_le
  conserved := by
    have hperm := hinv.conserved
    rw [hremoves.queued] at hperm
    refine List.Perm.trans ?_ hperm
    rw [← append_assoc, ← append_assoc, ← append_assoc]
    exact hgone.append_right _

/-- What is queued was queued. -/
theorem Removes.queued_of {id : Nat} (h : Removes bucket bucket' removed)
    (hid : id ∈ LogQueue.queued bucket') : id ∈ LogQueue.queued bucket := by
  rw [h.queued]
  exact mem_append_right _ hid

theorem Removes.moves (h : Removes s.bucket bucket removed) (totals : Totals) :
    Moves [] s { s with bucket := bucket, totals := totals } :=
  ⟨rfl, fun entry hentry => .inl (h.parts entry hentry)⟩

/-- Records are acknowledged. -/
theorem inv_ack {through : Nat} (hinv : Inv maxBytes first s) (h : ack s through = .ok t) :
    Inv maxBytes first t ∧ OldestFirst s t ∧ Keeps (some through) s t ∧ Moves [] s t := by
  obtain ⟨⟨bucket, totals⟩, hloop, h⟩ := exists_of_bind h
  obtain ⟨hbalanced, removed, hremoves, hacknowledged, hdiscarded, hle⟩ :=
    ackLoop_spec hinv.balanced hloop
  cases h
  refine ⟨inv_of_removed hinv hbalanced hremoves ?_,
    .acknowledged removed hremoves.queued hacknowledged hdiscarded, ⟨le_refl _,
    fun _ _ => (hremoves.moves totals).held, fun id _ => hremoves.queued_of, fun id hid => ?_⟩,
    hremoves.moves totals⟩
  · rw [hacknowledged, hdiscarded, append_assoc, append_assoc]
    exact perm_append_comm.append_left _
  · rw [hacknowledged] at hid
    refine (mem_append.mp hid).imp_right fun hid => ⟨through, rfl, hle id hid, ?_⟩
    rw [hremoves.queued]
    exact mem_append_left _ hid

/-- A head that is too big goes. -/
theorem inv_dropOversizedHead {limit : Nat} (hinv : Inv maxBytes first s)
    (h : dropOversizedHead s limit = .ok t) :
    Inv maxBytes first t ∧ OldestFirst s t ∧ Keeps none s t ∧ Moves [] s t := by
  unfold dropOversizedHead at h
  split at h
  · rw [← Except.ok.inj h]
    exact ⟨hinv, .refl s, .refl _ s, .refl s⟩
  · obtain ⟨⟨bucket, totals⟩, hloop, h⟩ := exists_of_bind h
    obtain ⟨hbalanced, removed, hremoves, hdiscarded, hacknowledged⟩ :=
      dropLoop_spec hinv.balanced hloop
    cases h
    refine ⟨inv_of_removed hinv hbalanced hremoves ?_,
      .dropped [] removed (by simpa using hremoves.queued) hdiscarded hacknowledged, ⟨le_refl _,
      fun _ _ => (hremoves.moves totals).held, fun id _ => hremoves.queued_of,
      fun id hid => .inl (hacknowledged ▸ hid)⟩, hremoves.moves totals⟩
    rw [hacknowledged, hdiscarded, append_assoc]

/-- The last id that an action acknowledges. -/
def Action.through : Action → Option Nat
  | .ack through => some through
  | .append _ _ => none
  | .dropOversizedHead _ => none

/-- The envelopes of the records that an action is to append. -/
def Action.envelopes : Action → List GoString
  | .append records now => LogQueue.envelopes now records
  | .ack _ => []
  | .dropOversizedHead _ => []

/-- The envelopes that a step appends: none, when the transaction fails. -/
def appended (maxBytes : Nat) (s : State) (a : Action) : List GoString :=
  match apply maxBytes s a with
  | .ok _ => a.envelopes
  | .error _ => []

/-- **Every step keeps the account.** -/
theorem inv_step (hinv : Inv maxBytes first s) (h : step maxBytes s a = some t) :
    Inv maxBytes first t ∧ OldestFirst s t ∧ Keeps a.through s t ∧
      Moves (appended maxBytes s a) s t := by
  cases happly : apply maxBytes s a with
  | ok result =>
    simp only [step, happly, Option.some.injEq] at h
    subst h
    simp only [appended, happly]
    cases a with
    | append records now => exact inv_append hinv happly
    | ack through => exact inv_ack hinv happly
    | dropOversizedHead limit => exact inv_dropOversizedHead hinv happly
  | error fault =>
    simp only [step, happly, Option.some.injEq] at h
    subst h
    simp only [appended, happly]
    exact ⟨hinv, .refl s, .refl _ s, .refl s⟩

/-- And so does every run. -/
theorem inv_run {ops : List Action} (hrun : run (step maxBytes) (opened first) ops = some s) :
    Inv maxBytes first s :=
  run_invariant (fun _ _ _ hinv h => (inv_step hinv h).1) (inv_opened maxBytes first) hrun

/-- The chunks carry the envelopes that were appended, under the ids that these
were given. -/
structure Carried (first : Nat) (envelopes : List GoString) (s : State) : Prop where
  length : envelopes.length = s.sequence - first
  chunks : ∀ entry ∈ s.bucket, ∀ i < count entry.2, ∃ e,
    envelopes[entry.1 + i - (first + 1)]? = some e ∧ envelopeAt i (entry.2.drop 5) = some e

/-- What is carried stays carried. -/
theorem Carried.moves {es appended : List GoString} (h : Carried first es s)
    (hfirst : first ≤ s.sequence) (hmoves : Moves appended s t)
    (hshort : ∀ e ∈ appended, e.length < 2 ^ 32) : Carried first (es ++ appended) t where
  length := by
    rw [length_append, h.length, hmoves.sequence]
    omega
  chunks := by
    intro entry hentry i hi
    rcases hmoves.chunks entry hentry with ⟨old, hold, k, hkey, hcount, hpart⟩ | hnew
    · obtain ⟨e, he, hat⟩ := h.chunks old hold (k + i) (by omega)
      refine ⟨e, ?_, by rw [hpart, hat]⟩
      rw [hkey, Nat.add_assoc, getElem?_append_left (List.getElem?_eq_some_iff.mp he).1, he]
    · obtain ⟨j, e, hid, he, hat⟩ := hnew i hi
      refine ⟨e, ?_, hat hshort⟩
      have hlength := h.length
      rw [getElem?_append_right (by omega), show entry.1 + i - (first + 1) - es.length = j by omega,
        he]

/-- All envelopes that an action is to append have a size of four bytes. -/
def Action.Short (a : Action) : Prop := ∀ e ∈ a.envelopes, e.length < 2 ^ 32

/-- Two batches, of which the first is dropped in part, and an acknowledgement in
the middle of a chunk. -/
def sampleRun : List Action :=
  let record : LogRecord := ⟨0, lit "access", lit "site", 7, 9, lit "[1]"⟩
  let long : LogRecord := { record with payload := lit "[1,2,3]" }
  [.append [record, record, record] 0, .append [long, record] 0, .ack 4, .dropOversizedHead 30,
    .append [record] 0]

/-- A queue with one record. -/
def single (r : LogRecord) (now : Int) : State :=
  ⟨[(1, encodeChunk now [r])], 1, ⟨(encodeChunk now [r]).length, 1, 0, [], []⟩⟩

/-- One record in an empty queue. -/
theorem appendBatch_single {r : LogRecord} {now : Int} {capacity : Nat} (h : Accepted r)
    (hfit : 5 + 4 + (encodeLogEnvelope r now).length ≤ capacity) :
    appendBatch capacity (opened 0) [r] now = .ok (single r now) := by
  unfold appendBatch
  rw [if_neg (cons_ne_nil _ _), buildLogChunks_single h hfit]
  simp [bind, Except.bind, appendLoop, evictLoop, opened, put, single]

end LogQueue
