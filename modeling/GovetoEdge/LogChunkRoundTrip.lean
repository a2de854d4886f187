import GovetoEdge.LogChunks
import GovetoEdge.Fallible

/-!
# The round trip of log records

A chunk is a list of envelopes, each after its length, when the lengths fit into
four bytes.

* `visitLoop_framed` and `framed_of_visitLoop` relate the walk through a chunk to
  the list of envelopes, `trimLogChunk_framed` relates trimming to dropping;
* `decodeLogChunk_cut`: a chunk with a length that was cut off does not decode;
* `chunks_roundTrip`: the records come back exactly when their lengths and times
  fit.
-/

namespace LogChunks

open GoStrings BigEndian LogRecords Fallible

/-- An envelope whose length fits its field. -/
def Sized (envelope : GoString) : Prop := 1 ≤ envelope.length ∧ envelope.length < 2 ^ 32

/-- Envelopes, each after its length. -/
def framed (envelopes : List GoString) : GoString :=
  envelopes.flatMap fun envelope => put 4 envelope.length ++ envelope

/-- One envelope with its length. -/
@[simp] theorem framed_cons (envelope : GoString) (envelopes : List GoString) :
    framed (envelope :: envelopes) = put 4 envelope.length ++ (envelope ++ framed envelopes) := by
  simp [framed]

/-- A walk through a list of envelopes. -/
def visitAll {σ : Type} (visit : σ → Nat → GoString → Except Fault (σ × Bool)) :
    List GoString → Nat → σ → Except Fault σ
  | [], _, s => .ok s
  | envelope :: envelopes, index, s => do
    let result ← visit s index envelope
    if result.2 then visitAll visit envelopes (index + 1) result.1 else .ok result.1

/-- The length is read back. -/
theorem get_slice_framed (before envelope : GoString) (envelopes : List GoString)
    (hlt : envelope.length < 2 ^ 32) :
    get (slice (before ++ framed (envelope :: envelopes)) before.length (before.length + 4)) =
      envelope.length := by
  rw [framed_cons, slice_middle before (put 4 envelope.length) _ rfl (by simp)]
  exact get_put_of_lt (by omega)

/-- The end of the text. -/
theorem length_append_framed (before envelope : GoString) (envelopes : List GoString) :
    (before ++ framed (envelope :: envelopes)).length =
      before.length + 4 + envelope.length + (framed envelopes).length := by
  simp only [framed_cons, List.length_append, length_put]
  omega

theorem append_framed_cons (before envelope : GoString) (envelopes : List GoString) :
    before ++ framed (envelope :: envelopes) =
      (before ++ put 4 envelope.length ++ envelope) ++ framed envelopes := by
  simp only [framed_cons, List.append_assoc]

section Visit

variable {σ : Type} {visit : σ → Nat → GoString → Except Fault (σ × Bool)}

/-- One turn of the walk. -/
theorem visitLoop_framed_cons {envelope : GoString} (hsized : Sized envelope)
    (envelopes : List GoString) (before : GoString) (remaining index : Nat) (s : σ) :
    visitLoop visit (before ++ framed (envelope :: envelopes)) (remaining + 1) index
        before.length s =
      visit s index envelope >>= fun result =>
        if result.2 then
          visitLoop visit ((before ++ put 4 envelope.length ++ envelope) ++ framed envelopes)
            remaining (index + 1) (before ++ put 4 envelope.length ++ envelope).length result.1
        else .ok result.1 := by
  obtain ⟨hpos, hlt⟩ := hsized
  have hsize := get_slice_framed before envelope envelopes hlt
  have hlength := length_append_framed before envelope envelopes
  have henvelope : slice (before ++ framed (envelope :: envelopes)) (before.length + 4)
      (before.length + 4 + envelope.length) = envelope := by
    rw [framed_cons, ← List.append_assoc]
    exact slice_middle _ _ _ (by simp) rfl
  have hbefore : before.length + 4 + envelope.length =
      (before ++ put 4 envelope.length ++ envelope).length := by
    simp only [List.length_append, length_put]
  rw [visitLoop_succ]
  dsimp only
  rw [hsize, henvelope, if_neg (by omega), if_neg (by omega), hbefore, append_framed_cons]

/-- The walk through a chunk is the walk through its envelopes. -/
theorem visitLoop_framed {envelopes : List GoString} (hsized : ∀ e ∈ envelopes, Sized e)
    (before : GoString) (index : Nat) (s : σ) :
    visitLoop visit (before ++ framed envelopes) envelopes.length index before.length s =
      visitAll visit envelopes index s := by
  induction envelopes generalizing before index s with
  | nil =>
    rw [List.length_nil, visitLoop, if_neg (by simp [framed])]
    rfl
  | cons envelope envelopes ih =>
    obtain ⟨henvelope, hsized⟩ := List.forall_mem_cons.mp hsized
    rw [List.length_cons, visitLoop_framed_cons henvelope, visitAll]
    congr 1
    funext result
    rw [ih hsized]

/-- All envelopes are visited. -/
theorem visitLogChunk_framed {envelopes : List GoString} (hne : envelopes ≠ [])
    (hcount : envelopes.length < 2 ^ 32) (hsized : ∀ e ∈ envelopes, Sized e) (s : σ) :
    visitLogChunk visit ([logChunkVersion] ++ put 4 envelopes.length ++ framed envelopes) s =
      visitAll visit envelopes 0 s := by
  have hlength : ([logChunkVersion] ++ put 4 envelopes.length).length = 5 := by simp
  unfold visitLogChunk
  rw [logChunkCount_header (List.length_pos_of_ne_nil hne) hcount]
  show visitLoop _ _ _ 0 5 s = _
  rw [← hlength, visitLoop_framed hsized]

/-- A walk that went through to the end was over the envelopes of the chunk. -/
theorem framed_of_visitLoop (hgo : ∀ s index envelope result,
      visit s index envelope = .ok result → result.2 = true)
    {data : GoString} {remaining index offset : Nat} {s t : σ}
    (h : visitLoop visit data remaining index offset s = .ok t) :
    ∃ envelopes, envelopes.length = remaining ∧ (∀ e ∈ envelopes, Sized e) ∧
      offset ≤ data.length ∧ data.drop offset = framed envelopes := by
  induction remaining generalizing index offset s with
  | zero =>
    obtain ⟨hend, h⟩ := ok_of_guard h
    have hend : offset = data.length := not_not.mp hend
    exact ⟨[], rfl, by simp, by omega, by rw [hend]; simp [framed]⟩
  | succ remaining ih =>
    rw [visitLoop_succ] at h
    dsimp only at h
    obtain ⟨hhead, h⟩ := ok_of_guard h
    obtain ⟨hsize, h⟩ := ok_of_guard h
    obtain ⟨result, hresult, h⟩ := exists_of_bind h
    simp only [hgo _ _ _ _ hresult, if_true] at h
    obtain ⟨envelopes, hcount, hsized, hle, hdrop⟩ := ih h
    have hsizeField := length_slice (l := data) (i := offset) (j := offset + 4) (by omega)
    have hlength := length_slice (l := data) (i := offset + 4)
      (j := offset + 4 + get (slice data offset (offset + 4))) (by omega)
    rw [Nat.add_sub_cancel_left] at hsizeField hlength
    have hlt := get_lt (slice data offset (offset + 4))
    rw [hsizeField] at hlt
    refine ⟨slice data (offset + 4)
      (offset + 4 + get (slice data offset (offset + 4))) :: envelopes,
      by rw [List.length_cons, hcount], ?_, by omega, ?_⟩
    · refine List.forall_mem_cons.mpr ⟨⟨?_, ?_⟩, hsized⟩
      · omega
      · rw [hlength]
        exact hlt
    · rw [framed_cons, ← hdrop, hlength, put_get hsizeField,
        slice_append_drop (by omega), slice_append_drop (by omega)]

end Visit

/-- The records in envelopes with ids from `id` on. -/
def decodeEnvelopes : List GoString → Nat → Except Fault (List LogRecord)
  | [], _ => .ok []
  | envelope :: envelopes, id => do
    let record ← decodeLogEnvelope envelope id
    let records ← decodeEnvelopes envelopes (id + 1)
    .ok (record :: records)

/-- They are decoded in order. -/
theorem visitAll_decodeVisit (firstID : Nat) (envelopes : List GoString) (index : Nat)
    (records : List LogRecord) :
    visitAll (decodeVisit firstID) envelopes index records =
      (decodeEnvelopes envelopes (firstID + index)).map (records ++ ·) := by
  induction envelopes generalizing index records with
  | nil => simp [visitAll, decodeEnvelopes, Except.map]
  | cons envelope envelopes ih =>
    rw [visitAll, decodeEnvelopes, decodeVisit]
    cases decodeLogEnvelope envelope (firstID + index) with
    | error fault => rfl
    | ok record =>
      simp only [bind, Except.bind, if_true]
      rw [ih, ← Nat.add_assoc]
      cases decodeEnvelopes envelopes (firstID + index + 1) with
      | error fault => rfl
      | ok rest => simp [Except.map]

variable {envelopes : List GoString} {records : List LogRecord}

/-- Without its first envelopes a list decodes to the records without the first
ones. -/
theorem decodeEnvelopes_drop {id : Nat} (h : decodeEnvelopes envelopes id = .ok records) (k : Nat) :
    decodeEnvelopes (envelopes.drop k) (id + k) = .ok (records.drop k) := by
  induction k generalizing envelopes id records with
  | zero => simpa using h
  | succ k ih =>
    cases envelopes with
    | nil =>
      obtain rfl : records = [] := by simpa [decodeEnvelopes] using h.symm
      simp [decodeEnvelopes]
    | cons envelope envelopes =>
      obtain ⟨record, -, h⟩ := exists_of_bind h
      obtain ⟨rest, hrest, h⟩ := exists_of_bind h
      cases h
      have hdrop := ih hrest
      rwa [Nat.add_right_comm] at hdrop

/-- None is lost. -/
theorem length_decodeEnvelopes {id : Nat} (h : decodeEnvelopes envelopes id = .ok records) :
    records.length = envelopes.length := by
  induction envelopes generalizing id records with
  | nil =>
    obtain rfl : records = [] := by simpa [decodeEnvelopes] using h.symm
    rfl
  | cons envelope envelopes ih =>
    obtain ⟨record, -, h⟩ := exists_of_bind h
    obtain ⟨rest, hrest, h⟩ := exists_of_bind h
    cases h
    rw [List.length_cons, List.length_cons, ih hrest]

/-- A chunk of envelopes whose lengths fit decodes as they do. -/
theorem decodeLogChunk_framed (hne : envelopes ≠ []) (hcount : envelopes.length < 2 ^ 32)
    (hsized : ∀ e ∈ envelopes, Sized e) (firstID : Nat) :
    decodeLogChunk ([logChunkVersion] ++ put 4 envelopes.length ++ framed envelopes) firstID =
      decodeEnvelopes envelopes firstID := by
  rw [decodeLogChunk, visitLogChunk_framed hne hcount hsized, visitAll_decodeVisit]
  cases decodeEnvelopes envelopes (firstID + 0) <;> rfl

/-- A chunk that decodes is one of envelopes whose lengths fit. -/
theorem framed_of_decodeLogChunk {data : GoString} {firstID : Nat}
    (h : decodeLogChunk data firstID = .ok records) :
    ∃ envelopes, envelopes ≠ [] ∧ envelopes.length < 2 ^ 32 ∧ (∀ e ∈ envelopes, Sized e) ∧
      data = [logChunkVersion] ++ put 4 envelopes.length ++ framed envelopes := by
  obtain ⟨count, hcount, h⟩ := exists_of_bind h
  obtain ⟨hlength, hpos, hlt, hheader⟩ := logChunkCount_eq_ok hcount
  have hgo : ∀ (s : List LogRecord) (index : Nat) (envelope : GoString)
      (result : List LogRecord × Bool),
      decodeVisit firstID s index envelope = .ok result → result.2 = true := by
    intro s index envelope result hresult
    obtain ⟨record, hrecord, hresult⟩ := exists_of_bind hresult
    simp only [Except.ok.injEq] at hresult
    rw [← hresult]
  obtain ⟨envelopes, hcount', hsized, -, hdrop⟩ := framed_of_visitLoop hgo h
  refine ⟨envelopes, ?_, by omega, hsized, ?_⟩
  · rintro rfl
    simp only [List.length_nil] at hcount'
    omega
  · rw [hcount', ← hdrop]
    exact hheader

/-- Envelopes are passed over. -/
theorem trimLoop_framed (hsized : ∀ e ∈ envelopes, Sized e) {k : Nat} (hk : k ≤ envelopes.length)
    (before : GoString) :
    trimLoop (before ++ framed envelopes) k before.length =
      .ok (before.length + (framed (envelopes.take k)).length) := by
  induction k generalizing envelopes before with
  | zero => simp [trimLoop, framed]
  | succ k ih =>
    cases envelopes with
    | nil => cases hk
    | cons envelope envelopes =>
      obtain ⟨⟨hpos, hlt⟩, hsized⟩ := List.forall_mem_cons.mp hsized
      have hsize := get_slice_framed before envelope envelopes hlt
      have hlength := length_append_framed before envelope envelopes
      have hrest := append_framed_cons before envelope envelopes
      have hbefore : before.length + (4 + envelope.length) =
          (before ++ put 4 envelope.length ++ envelope).length := by
        simp only [List.length_append, length_put, Nat.add_assoc]
      rw [trimLoop_succ]
      rw [hsize, if_neg (by omega), if_neg (by omega), hbefore, hrest,
        ih hsized (Nat.le_of_succ_le_succ hk)]
      simp only [List.take_succ_cons, framed_cons, List.length_append, length_put,
        Nat.add_assoc]

theorem framed_append (xs ys : List GoString) : framed (xs ++ ys) = framed xs ++ framed ys :=
  List.flatMap_append

/-- **Trimming is dropping.** -/
theorem trimLogChunk_framed (hcount : envelopes.length < 2 ^ 32) (hsized : ∀ e ∈ envelopes, Sized e)
    {k : Nat} (hk : k < envelopes.length) :
    trimLogChunk ([logChunkVersion] ++ put 4 envelopes.length ++ framed envelopes) k =
      .ok ([logChunkVersion] ++ put 4 (envelopes.drop k).length ++ framed (envelopes.drop k)) := by
  have hheader : ([logChunkVersion] ++ put 4 envelopes.length).length = 5 := by simp
  have hsplit : framed envelopes = framed (envelopes.take k) ++ framed (envelopes.drop k) := by
    rw [← framed_append, List.take_append_drop]
  have htrim := trimLoop_framed hsized (le_of_lt hk) ([logChunkVersion] ++ put 4 envelopes.length)
  rw [hheader] at htrim
  have hlength : ([logChunkVersion] ++ put 4 envelopes.length ++ framed envelopes).length =
      5 + (framed (envelopes.take k)).length + (framed (envelopes.drop k)).length := by
    rw [List.length_append, hheader, hsplit, List.length_append, Nat.add_assoc]
  have hslice : slice ([logChunkVersion] ++ put 4 envelopes.length ++ framed envelopes)
      (5 + (framed (envelopes.take k)).length)
      ([logChunkVersion] ++ put 4 envelopes.length ++ framed envelopes).length =
      framed (envelopes.drop k) := by
    rw [hlength, hsplit, ← List.append_assoc]
    exact slice_last _ _ (by rw [List.length_append, hheader]) rfl
  unfold trimLogChunk
  rw [logChunkCount_header (by omega) hcount]
  show (if (k : Int) < 0 ∨ (k : Int) > (envelopes.length : Int) then _ else _) = _
  rw [if_neg (by omega), if_neg (by omega), Int.toNat_natCast, htrim]
  show (sliceOf _ (5 + (framed (envelopes.take k)).length) _ >>= _) = _
  rw [sliceOf_ok (by omega), hslice, List.length_drop]
  rfl

/-- Nothing is left. -/
theorem trimLogChunk_all {data : GoString} {count : Nat} (h : logChunkCount data = .ok count) :
    trimLogChunk data count = .ok [] := by
  unfold trimLogChunk
  rw [h]
  show (if (count : Int) < 0 ∨ (count : Int) > (count : Int) then _ else _) = _
  rw [if_neg (by omega), if_pos rfl]

section RoundTrip

variable {defaultTime : Int} {maxBytes : Nat}

/-- The envelope of an accepted record is not empty. -/
theorem sized_iff {record : LogRecord} :
    Sized (encodeLogEnvelope record defaultTime) ↔
      (encodeLogEnvelope record defaultTime).length < 2 ^ 32 := by
  have hlength := length_encodeLogEnvelope record defaultTime
  unfold Sized headerSize at *
  omega

variable {records : List LogRecord}

/-- A chunk is framed envelopes. -/
theorem encodeChunk_framed (h : ∀ r ∈ records, Accepted r) :
    encodeChunk defaultTime records = [logChunkVersion] ++ put 4 records.length ++
      framed (records.map fun r => encodeLogEnvelope r defaultTime) := by
  have hbody : records.flatMap (encodeRecord defaultTime) =
      framed (records.map fun r => encodeLogEnvelope r defaultTime) := by
    rw [framed, List.flatMap_map]
    exact List.flatMap_congr fun r hr => encodeRecord_eq defaultTime (h r hr)
  rw [encodeChunk, hbody]

/-- Records whose envelopes are decoded one after the other. -/
theorem decodeEnvelopes_encode (h : ∀ r ∈ records, Accepted r) (id : Nat) :
    decodeEnvelopes (records.map fun r => encodeLogEnvelope r defaultTime) id =
      .ok (records.mapIdx fun i r => r.decoded defaultTime (id + i)) := by
  induction records generalizing id with
  | nil => rfl
  | cons record records ih =>
    obtain ⟨haccepted, h⟩ := List.forall_mem_cons.mp h
    rw [List.map_cons, decodeEnvelopes,
      decodeLogEnvelope_encode haccepted.fits haccepted.valid, ih h, List.mapIdx_cons]
    simp only [bind, Except.bind, Nat.add_zero, Nat.add_right_comm id 1, ← Nat.add_assoc]

/-- **A chunk is read back.** -/
theorem decodeLogChunk_encodeChunk (hne : records ≠ []) (hcount : records.length ≤ maxChunkRecords)
    (h : ∀ r ∈ records, Accepted r)
    (hsized : ∀ r ∈ records, (encodeLogEnvelope r defaultTime).length < 2 ^ 32) (firstID : Nat) :
    decodeLogChunk (encodeChunk defaultTime records) firstID =
      .ok (records.mapIdx fun i r => r.decoded defaultTime (firstID + i)) := by
  have hlength : (records.map fun r => encodeLogEnvelope r defaultTime).length =
      records.length := List.length_map _
  rw [encodeChunk_framed h, ← hlength, decodeLogChunk_framed, decodeEnvelopes_encode h]
  · simpa using hne
  · rw [hlength]
    exact lt_of_le_of_lt hcount (by decide)
  · simpa [sized_iff] using hsized

/-- An envelope whose length was cut off makes the walk fail. -/
theorem decode_cut {record : LogRecord} (h : Accepted record)
    (hlong : 2 ^ 32 ≤ (encodeLogEnvelope record defaultTime).length) (before : GoString)
    (envelopes : List GoString) (firstID remaining index : Nat) (records : List LogRecord) :
    ∃ reason, visitLoop (decodeVisit firstID)
      (before ++ framed (encodeLogEnvelope record defaultTime :: envelopes)) (remaining + 1) index
      before.length records = .error (.error reason) := by
  have hlength := length_append_framed before (encodeLogEnvelope record defaultTime) envelopes
  have hframed := framed_cons (encodeLogEnvelope record defaultTime) envelopes
  have hcut : ∀ n < (encodeLogEnvelope record defaultTime).length, ∃ reason,
      decodeLogEnvelope ((encodeLogEnvelope record defaultTime).take n) (firstID + index) =
        .error (.error reason) :=
    fun n hn => decodeLogEnvelope_take h.fits defaultTime (firstID + index) hn
  generalize encodeLogEnvelope record defaultTime = envelope at *
  have hsize : get (slice (before ++ framed (envelope :: envelopes)) before.length
      (before.length + 4)) = envelope.length % 2 ^ 32 := by
    rw [hframed, slice_middle before (put 4 envelope.length) _ rfl (by simp)]
    exact get_put 4 envelope.length
  have hmod : envelope.length % 2 ^ 32 < envelope.length :=
    lt_of_lt_of_le (Nat.mod_lt _ (by decide)) hlong
  have htake : slice (before ++ framed (envelope :: envelopes)) (before.length + 4)
      (before.length + 4 + envelope.length % 2 ^ 32) =
        envelope.take (envelope.length % 2 ^ 32) := by
    rw [hframed, ← List.append_assoc]
    exact slice_beginning _ envelope _ (by simp) (le_of_lt hmod)
  rw [visitLoop_succ]
  dsimp only
  rw [hsize, htake, if_neg (by omega)]
  split
  · exact ⟨_, rfl⟩
  · obtain ⟨reason, hreason⟩ := hcut _ hmod
    refine ⟨reason, ?_⟩
    rw [decodeVisit, hreason]
    rfl

/-- A chunk with such an envelope does not decode. -/
theorem decodeLogChunk_cut (hcount : records.length ≤ maxChunkRecords)
    (h : ∀ r ∈ records, Accepted r)
    (hlong : ∃ r ∈ records, 2 ^ 32 ≤ (encodeLogEnvelope r defaultTime).length) (firstID : Nat) :
    ∃ reason, decodeLogChunk (encodeChunk defaultTime records) firstID =
      .error (.error reason) := by
  have hwalk : ∀ (records : List LogRecord), (∀ r ∈ records, Accepted r) →
      (∃ r ∈ records, 2 ^ 32 ≤ (encodeLogEnvelope r defaultTime).length) →
      ∀ (before : GoString) (index : Nat) (decoded : List LogRecord),
      ∃ reason, visitLoop (decodeVisit firstID)
        (before ++ framed (records.map fun r => encodeLogEnvelope r defaultTime)) records.length
        index before.length decoded = .error (.error reason) := by
    intro records
    induction records with
    | nil => simp
    | cons record records ih =>
      intro h hlong before index decoded
      obtain ⟨haccepted, h⟩ := List.forall_mem_cons.mp h
      rw [List.map_cons, List.length_cons]
      by_cases hrecord : 2 ^ 32 ≤ (encodeLogEnvelope record defaultTime).length
      · exact decode_cut haccepted hrecord before _ firstID _ index decoded
      · have hlong : ∃ r ∈ records, 2 ^ 32 ≤ (encodeLogEnvelope r defaultTime).length := by
          obtain ⟨r, hr, hge⟩ := hlong
          rcases List.mem_cons.mp hr with rfl | hr
          · exact absurd hge hrecord
          · exact ⟨r, hr, hge⟩
        rw [visitLoop_framed_cons (sized_iff.mpr (not_le.mp hrecord)), decodeVisit,
          decodeLogEnvelope_encode haccepted.fits haccepted.valid]
        exact ih h hlong _ _ _
  obtain ⟨r, hr, -⟩ := id hlong
  have hpos : 0 < records.length := List.length_pos_of_mem hr
  obtain ⟨reason, hreason⟩ :=
    hwalk records h hlong ([logChunkVersion] ++ put 4 records.length) 0 []
  refine ⟨reason, ?_⟩
  unfold decodeLogChunk visitLogChunk
  rw [encodeChunk_framed h,
    logChunkCount_header hpos (lt_of_le_of_lt hcount (by decide))]
  exact hreason

/-- So are all chunks of a batch. -/
theorem decodeLogChunks_chunked {start : Nat} {chunks : List EncodedLogChunk}
    (h : Chunked defaultTime maxBytes start records chunks)
    (hsized : ∀ r ∈ records, (encodeLogEnvelope r defaultTime).length < 2 ^ 32) (firstID : Nat) :
    decodeLogChunks firstID chunks =
      .ok (records.mapIdx fun i r => r.decoded defaultTime (firstID + start + i)) := by
  induction h with
  | nil start => rfl
  | cons hne hcount haccepted _ _ ih =>
    obtain ⟨hhere, hrest⟩ := List.forall_mem_append.mp hsized
    rw [decodeLogChunks, decodeLogChunk_encodeChunk hne hcount haccepted hhere, ih hrest,
      List.mapIdx_append]
    simp only [bind, Except.bind, Except.ok.injEq, List.append_cancel_left_eq]
    congr 1
    funext i r
    congr 1
    omega

/-- They are not if the length of a record was cut. -/
theorem decodeLogChunks_cut {start : Nat} {chunks : List EncodedLogChunk}
    (h : Chunked defaultTime maxBytes start records chunks)
    (hlong : ∃ r ∈ records, 2 ^ 32 ≤ (encodeLogEnvelope r defaultTime).length) (firstID : Nat) :
    ∃ reason, decodeLogChunks firstID chunks = .error (.error reason) := by
  induction h with
  | nil start => simp at hlong
  | @cons start records rest chunks hne hcount haccepted _ _ ih =>
    by_cases hhere : ∃ r ∈ records, 2 ^ 32 ≤ (encodeLogEnvelope r defaultTime).length
    · obtain ⟨reason, hreason⟩ := decodeLogChunk_cut hcount haccepted hhere (firstID + start)
      refine ⟨reason, ?_⟩
      rw [decodeLogChunks, hreason]
      rfl
    · have hfit : ∀ r ∈ records, (encodeLogEnvelope r defaultTime).length < 2 ^ 32 := by
        intro r hr
        exact not_le.mp fun hge => hhere ⟨r, hr, hge⟩
      obtain ⟨r, hr, hge⟩ := hlong
      have hrest : r ∈ rest := by
        rcases List.mem_append.mp hr with hr | hr
        · exact absurd ⟨r, hr, hge⟩ hhere
        · exact hr
      obtain ⟨reason, hreason⟩ := ih ⟨r, hrest, hge⟩
      refine ⟨reason, ?_⟩
      rw [decodeLogChunks, decodeLogChunk_encodeChunk hne hcount haccepted hfit, hreason]
      rfl

end RoundTrip

/-- The record as the queue is to give it back. -/
def stored (record : LogRecord) (defaultTime : Int) (id : Nat) : LogRecord :=
  { record with id := id, createdAt := record.instant defaultTime }

/-- A record that the format can hold: the size of its envelope in four bytes, and
its time in eight. -/
structure Representable (defaultTime : Int) (record : LogRecord) : Prop where
  size : (encodeLogEnvelope record defaultTime).length < 2 ^ 32
  time : -2 ^ 63 ≤ record.instant defaultTime ∧ record.instant defaultTime < 2 ^ 63

theorem bmod_eq_self (t : Int) : t.bmod (2 ^ 64) = t ↔ -2 ^ 63 ≤ t ∧ t < 2 ^ 63 := by
  have hwidth : ((2 ^ 64 : Nat) : Int) = 18446744073709551616 := rfl
  simp only [Int.bmod, hwidth]
  split
  · constructor <;> intro h <;> omega
  · constructor <;> intro h <;> omega

/-- Times come back if they fit into 64 bits. -/
theorem decoded_eq_stored (record : LogRecord) (defaultTime : Int) (id : Nat) :
    record.decoded defaultTime id = stored record defaultTime id ↔
      -2 ^ 63 ≤ record.instant defaultTime ∧ record.instant defaultTime < 2 ^ 63 := by
  rw [← bmod_eq_self]
  simp [LogRecord.decoded, stored]

/-- **The round trip.**  The chunks of the records that `buildLogChunks` accepts
decode to these records, with consecutive ids and the default for a time that is
missing, exactly when every record is representable.  To trim a chunk that
decodes is to drop its first records; nothing is left of it when they are all
dropped.  Every byte string decodes or is reported as an error; the decoder never
reads outside of it. -/
theorem chunks_roundTrip {records : List LogRecord} {defaultTime : Int} {maxBytes : Nat}
    {chunks : List EncodedLogChunk}
    (h : buildLogChunks records defaultTime maxBytes = .ok chunks) (firstID : Nat) :
    (decodeLogChunks firstID chunks =
        .ok (records.mapIdx fun i r => stored r defaultTime (firstID + i)) ↔
      ∀ r ∈ records, Representable defaultTime r) ∧
    (∀ data id decoded, decodeLogChunk data id = .ok decoded →
      trimLogChunk data decoded.length = .ok [] ∧
      ∀ k < decoded.length, ∃ trimmed, trimLogChunk data k = .ok trimmed ∧
        decodeLogChunk trimmed (id + k) = .ok (decoded.drop k)) ∧
    ∀ data id, (∃ decoded, decodeLogChunk data id = .ok decoded) ∨
      ∃ reason, decodeLogChunk data id = .error (.error reason) := by
  have hchunked := buildLogChunks_chunked h
  refine ⟨?_, ?_, decodeLogChunk_reports⟩
  · by_cases hsized : ∀ r ∈ records, (encodeLogEnvelope r defaultTime).length < 2 ^ 32
    · rw [decodeLogChunks_chunked hchunked hsized, Except.ok.injEq, List.mapIdx_eq_mapIdx_iff]
      simp only [Nat.add_zero, decoded_eq_stored]
      constructor
      · intro htimes r hr
        obtain ⟨i, hi, rfl⟩ := List.getElem_of_mem hr
        exact ⟨hsized _ hr, htimes i hi⟩
      · intro hall i hi
        exact (hall _ (List.getElem_mem hi)).time
    · have hlong : ∃ r ∈ records, 2 ^ 32 ≤ (encodeLogEnvelope r defaultTime).length := by
        simpa using hsized
      obtain ⟨reason, hreason⟩ := decodeLogChunks_cut hchunked hlong firstID
      rw [hreason]
      exact ⟨fun heq => absurd heq (by simp),
        fun hall => absurd (fun r hr => (hall r hr).size) hsized⟩
  · intro data id decoded hdecode
    obtain ⟨envelopes, hne, hcount, hsized, rfl⟩ := framed_of_decodeLogChunk hdecode
    rw [decodeLogChunk_framed hne hcount hsized] at hdecode
    have hlength := length_decodeEnvelopes hdecode
    rw [hlength]
    refine ⟨trimLogChunk_all (logChunkCount_header (List.length_pos_of_ne_nil hne) hcount _), ?_⟩
    intro k hk
    refine ⟨_, trimLogChunk_framed hcount hsized hk, ?_⟩
    rw [decodeLogChunk_framed, decodeEnvelopes_drop hdecode]
    · exact List.ne_nil_of_length_pos (by rw [List.length_drop]; omega)
    · rw [List.length_drop]
      omega
    · exact fun e he => hsized e (List.mem_of_mem_drop he)

/-- A record of an access, without a time. -/
def sampleRecord : LogRecord :=
  ⟨0, lit "access", lit "site", 7, zeroTime, lit "[1]"⟩

/-- Two records are split when a chunk of both is too long. -/
theorem chunks_roundTrip_sample :
    ∃ chunks, buildLogChunks [sampleRecord, sampleRecord] 5 60 = .ok chunks ∧
      chunks.length = 2 ∧
      decodeLogChunks 9 chunks = .ok [stored sampleRecord 5 9, stored sampleRecord 5 10] := by
  have hbuild : ∃ chunks, buildLogChunks [sampleRecord, sampleRecord] 5 60 = .ok chunks ∧
      chunks.length = 2 := ⟨_, rfl, rfl⟩
  obtain ⟨chunks, hchunks, hlength⟩ := hbuild
  refine ⟨chunks, hchunks, hlength, ((chunks_roundTrip hchunks 9).1.mpr ?_)⟩
  intro r hr
  obtain rfl : r = sampleRecord := by simpa using hr
  exact ⟨by decide +kernel, by decide +kernel⟩

/-- A record with a payload of 4 GiB less a byte: `logEnvelopeSize` accepts it, and
its size is cut off in the chunk. -/
theorem long_record_lost :
    ∃ records chunks, buildLogChunks records 0 (2 ^ 33) = .ok chunks ∧
      decodeLogChunks 1 chunks ≠
        .ok (records.mapIdx fun i r => stored r 0 (1 + i)) := by
  obtain ⟨record, haccepted, hsize⟩ := exists_long_record
  have hbuild := buildLogChunks_single haccepted (show 5 + 4 + (encodeLogEnvelope _ 0).length ≤
    2 ^ 33 by omega)
  refine ⟨_, _, hbuild, ?_⟩
  obtain ⟨reason, hreason⟩ := decodeLogChunks_cut (buildLogChunks_chunked hbuild)
    ⟨_, List.mem_singleton_self _, by omega⟩ 1
  rw [hreason]
  simp

end LogChunks
