import GovetoEdge.CachedResponses
import GovetoEdge.ObjectReading

/-!
# Byte ranges of stored responses

The body of a range is read through three readers: the one of the chunked
object, the body that counts what is left of the response, and the one that
counts what is left of the range.

* `RangedBody.reads_eq`: whatever the sizes of the reads, they return the bytes
  of the range one after another, and end of file after them;
* `range_served`: which range that is, and what the answer announces.
-/

namespace CachedRanges

open Option

open GoStrings HttpHeaders CacheKeys CachePolicy CacheMatching CachedResponses ObjectFormat List

variable {lz4 : LZ4} {checksum : Bytes → UInt32} {file value : Bytes}

/-- `pooledResponseBody`: the object, and the bytes still to give. -/
structure PooledBody where
  object : Reader
  remaining : Nat

/-- `Read` of a pooled body; none if the object does not come back. -/
def PooledBody.read (lz4 : LZ4) (checksum : Bytes → UInt32) (file : Bytes) (b : PooledBody)
    (n : Nat) : Option (PooledBody × Bytes × Option String) :=
  if b.remaining = 0 then some (b, [], some "EOF")
  else do
    let (object, got, err) ← b.object.read lz4 checksum file (min n b.remaining)
    let remaining := b.remaining - got.length
    let err := if err = some "EOF" then (if 0 < remaining then some "unexpected EOF" else none)
      else err
    some (⟨object, remaining⟩, got, err)

/-- `seekBody`; the response begins at `bodyStart` of the object. -/
def PooledBody.seekBody (b : PooledBody) (bodyStart offset : Nat) : Option PooledBody :=
  if b.remaining < offset then none
  else
    match b.object.seek (Int64.ofNat (bodyStart + offset)) 0 with
    | (object, .ok _) => some ⟨object, b.remaining - offset⟩
    | (_, .error _) => none

/-- `rangedResponseBody` over a body that was moved to the start of the range, so
that there is nothing to skip. -/
structure RangedBody where
  body : PooledBody
  remaining : Nat
  closed : Bool

/-- One call of `Read`. -/
def RangedBody.read (lz4 : LZ4) (checksum : Bytes → UInt32) (file : Bytes) (b : RangedBody)
    (n : Nat) : Option (RangedBody × Bytes × Option String) :=
  if b.closed then some (b, [], some "EOF")
  else if b.remaining = 0 then some ({ b with closed := true }, [], some "EOF")
  else do
    let (body, got, err) ← b.body.read lz4 checksum file (min n b.remaining)
    let remaining := b.remaining - got.length
    some (⟨body, remaining, err.isSome || remaining = 0⟩, got, err)

/-- What reads of the given sizes return. -/
def RangedBody.reads (lz4 : LZ4) (checksum : Bytes → UInt32) (file : Bytes) :
    RangedBody → List Nat → Option (List (Bytes × Option String))
  | _, [] => some []
  | b, n :: ns => do
    let (b, out) ← b.read lz4 checksum file n
    let outs ← RangedBody.reads lz4 checksum file b ns
    some (out :: outs)

/-- What reads of these sizes return of a byte sequence. -/
def slices : Bytes → List Nat → List (Bytes × Option String)
  | _, [] => []
  | left, n :: ns =>
    (left.take n, if left = [] then some "EOF" else none) :: slices (left.drop n) ns

/-- The bytes `left` are what a body has yet to give. -/
structure RangedBody.Holds (lz4 : LZ4) (checksum : Bytes → UInt32) (file value : Bytes)
    (b : RangedBody) (left : Bytes) : Prop where
  closed : b.closed → left = []
  remaining : b.remaining = left.length
  enough : left.length ≤ b.body.remaining
  object : Represents lz4 checksum file value b.body.object b.body.object.pos
  bytes : (value.drop b.body.object.pos).take left.length = left

variable {b : RangedBody} {left data : Bytes}

/-- What is left begins at the position of the object. -/
theorem RangedBody.Holds.take_eq (h : b.Holds lz4 checksum file value left) (n : Nat) :
    (value.drop b.body.object.pos).take (min n left.length) = left.take n := by
  rw [← take_take, h.bytes]

/-- What the object returns to a read of a body that is not at its end. -/
theorem RangedBody.Holds.plain (h : b.Holds lz4 checksum file value left) (hleft : left ≠ [])
    (n : Nat) :
    Plain.read value b.body.object.pos (min (min n b.remaining) b.body.remaining) =
      (b.body.object.pos + (left.take n).length, left.take n, none) := by
  have hinside : ¬ value.length ≤ b.body.object.pos := by
    intro hend
    have hbytes := h.bytes
    rw [drop_eq_nil_of_le hend, take_nil] at hbytes
    exact hleft hbytes.symm
  have hsize : min (min n b.remaining) b.body.remaining = min n left.length := by
    have := h.remaining
    have := h.enough
    omega
  rw [Plain.read, if_neg hinside, hsize, h.take_eq]

/-- One read. -/
theorem RangedBody.Holds.read (h : b.Holds lz4 checksum file value left) (n : Nat) :
    ∃ b', b.read lz4 checksum file n =
        some (b', left.take n, if left = [] then some "EOF" else none) ∧
      b'.Holds lz4 checksum file value (left.drop n) := by
  by_cases hleft : left = []
  · subst hleft
    have hzero : b.remaining = 0 := h.remaining
    unfold RangedBody.read
    split
    · exact ⟨b, by simp, by simpa using h⟩
    · exact ⟨{ b with closed := true }, by simp,
        ⟨fun _ => by simp, by simpa using hzero, by simp, h.object, by simp⟩⟩
  · have hpos : 0 < left.length := length_pos_iff.mpr hleft
    have hremaining := h.remaining
    have henough := h.enough
    have hopen : ¬ b.closed := fun hclosed => hleft (h.closed hclosed)
    obtain ⟨object, hread, hobject⟩ := h.object.read (min (min n b.remaining) b.body.remaining)
    rw [h.plain hleft n] at hread hobject
    have hlength : (left.drop n).length = left.length - (left.take n).length := by
      rw [length_drop, length_take]
      omega
    refine ⟨⟨⟨object, b.body.remaining - (left.take n).length⟩,
      b.remaining - (left.take n).length, b.remaining - (left.take n).length = 0⟩, ?_, ?_⟩
    · rw [RangedBody.read, if_neg hopen, if_neg (by omega), PooledBody.read, if_neg (by omega),
        hread]
      simp [hleft]
    · refine ⟨?_, by rw [hremaining, hlength],
        by rw [hlength]; exact Nat.sub_le_sub_right henough _,
        hobject.pos_eq ▸ hobject, ?_⟩
      · intro hclosed
        rw [decide_eq_true_eq, hremaining, ← hlength] at hclosed
        exact length_eq_zero_iff.mp hclosed
      · -- what was read is dropped on both sides
        have hdrop : left.drop n = left.drop (left.take n).length := by
          rw [length_take]
          rcases Nat.le_total n left.length with hle | hle
          · rw [Nat.min_eq_left hle]
          · rw [Nat.min_eq_right hle, drop_length, drop_eq_nil_of_le hle]
        rw [hobject.pos_eq, ← drop_drop, hlength, ← drop_take, h.bytes, hdrop]

/-- **Whatever the sizes of the reads**, they return the bytes that are left one
after another, and end of file after them. -/
theorem RangedBody.reads_eq (ns : List Nat) {b : RangedBody} {left : Bytes}
    (h : b.Holds lz4 checksum file value left) :
    b.reads lz4 checksum file ns = some (slices left ns) := by
  induction ns generalizing b left with
  | nil => rfl
  | cons n ns ih =>
    obtain ⟨b', hread, h'⟩ := h.read n
    rw [RangedBody.reads, hread]
    simp only [bind_eq_bind, bind_some, ih h', slices]

/-- The body that `readHTTPResponse` opens at `bodyStart`, moved by
`applyCachedRange` to `start` and limited to `length` bytes. -/
def openRange (layout : ObjectLayout) (pooled : Bytes)
    (bodyStart contentLength start length : Nat) :
    Option RangedBody :=
  match (newObjectReaderFromLayout layout pooled).seek (Int64.ofNat bodyStart) 0 with
  | (_, .error _) => none
  | (object, .ok _) => do
    let body ← PooledBody.seekBody ⟨object, contentLength⟩ bodyStart start
    some ⟨body, length, false⟩

/-- Seeking from the start to a position of the value. -/
theorem seek_start {r : Reader} {pos target : Nat} (h : Represents lz4 checksum file value r pos)
    (hlength : value.length < 2 ^ 63) (htarget : target ≤ value.length) :
    ∃ r', r.seek (Int64.ofNat target) 0 = (r', .ok target) ∧
      Represents lz4 checksum file value r' target := by
  have hoffset : (Int64.ofNat target).toInt = target := Int64.toInt_ofNat_of_lt (by omega)
  have hmove : Plain.seek value pos (Int64.ofNat target).toInt 0 = (target, .ok target) := by
    rw [hoffset, Plain.seek, if_pos rfl, Plain.moveTo, if_neg (by omega)]
    rfl
  obtain ⟨hresult, h'⟩ := h.seek hlength (Int64.ofNat target) 0
  rw [hmove] at hresult h'
  exact ⟨_, Prod.ext rfl hresult, h'⟩

/-- A reader over a written file that opens stands at the start of the value. -/
theorem represents_opened (hlz4 : lz4.Lawful) {pooled : Bytes} {size : Nat} {layout : ObjectLayout}
    (hwrite : writeObjectReader lz4 checksum value size = .ok file)
    (hlayout : readObjectLayout lz4 file file.length = .ok layout)
    (hpooled : pooled.length = layout.chunkSize) :
    Represents lz4 checksum file value (newObjectReaderFromLayout layout pooled) 0 := by
  obtain ⟨rfl, hlength⟩ := length_of_writeObjectReader hlz4 hwrite
  obtain ⟨chunks, data, hwrite', htable⟩ := writeObjectReader_ok checksum hlz4 hlength
  rw [hwrite] at hwrite'
  cases hwrite'
  by_cases hcount : chunkCount value.length ≤ maxChunks
  · rw [readObjectLayout_written hlz4 htable hcount] at hlayout
    cases hlayout
    exact Represents.start htable hpooled
  · obtain ⟨e, hrefused⟩ := readObjectLayout_refuses hlength htable (Nat.lt_of_not_le hcount)
    rw [hrefused] at hlayout
    cases hlayout

/-- An opened range holds the bytes of the range. -/
theorem openRange_holds {layout : ObjectLayout} {pooled head : Bytes} {start length : Nat}
    (h : Represents lz4 checksum file (head ++ data) (newObjectReaderFromLayout layout pooled) 0)
    (hlength : (head ++ data).length < 2 ^ 63) (hrange : start + length ≤ data.length) :
    ∃ body, openRange layout pooled head.length data.length start length = some body ∧
      body.Holds lz4 checksum file (head ++ data) ((data.drop start).take length) := by
  have hhead : head.length ≤ (head ++ data).length := by simp
  have hstart : head.length + start ≤ (head ++ data).length := by
    rw [length_append]
    omega
  obtain ⟨r₁, hopened, h₁⟩ := seek_start h hlength hhead
  obtain ⟨r₂, hmoved, h₂⟩ := seek_start h₁ hlength hstart
  refine ⟨⟨⟨r₂, data.length - start⟩, length, false⟩, ?_, ?_⟩
  · rw [openRange, hopened]
    dsimp only
    rw [PooledBody.seekBody, if_neg (show ¬ data.length < start by omega), hmoved]
    rfl
  · have hleft : ((data.drop start).take length).length = length := by
      rw [length_take, length_drop]
      omega
    have hat := h₂.pos_eq
    refine ⟨nofun, hleft.symm, ?_, ?_, ?_⟩
    · rw [hleft]
      exact Nat.le_sub_of_add_le' hrange
    · rw [hat]
      exact h₂
    · rw [hleft, hat, ← drop_drop, drop_left]

/-- The text of a `Range` field asks for the positions from `first` to `last` of
`n` bytes: those between the two numbers of the text, or as many of the last ones
as the only number says. -/
def Asks (text : GoString) (n first last : Nat) : Prop :=
  ∃ unit startText endText,
    equalFold (trimSpace unit) (lit "bytes") ∧ 61 ∉ unit ∧ 45 ∉ startText ∧
    (∃ interval, trimSpace text = unit ++ 61 :: interval ∧ 44 ∉ interval ∧
      trimSpace interval = startText ++ 45 :: endText) ∧
    ((∃ k, trimSpace startText = [] ∧ parseUint (trimSpace endText) = (k, true) ∧ 0 < k ∧
        first = n - k ∧ last = n - 1) ∨
      (∃ stop, parseUint (trimSpace startText) = (first, true) ∧
        parseUint (trimSpace endText) = (stop, true) ∧ first ≤ stop ∧ last = min stop (n - 1)))

/-- A bound is a number. -/
theorem parseBound_eq_some {s : GoString} {n : Nat} (h : parseBound s = some n) :
    parseUint s = (n, true) := by
  unfold parseBound at h
  split at h
  · rename_i hparse
    cases h
    exact hparse
  · cases h

/-- An accepted range asks for the positions it is resolved to. -/
theorem asks_of_parse {text : GoString} {requested : Spec}
    (h : parseCacheableRange text = some requested) (n : Nat) :
    Asks text n (resolveRange requested n).1 (min (resolveRange requested n).2 (n - 1)) := by
  unfold parseCacheableRange at h
  obtain ⟨unit, interval, ok, hunit⟩ : ∃ unit interval ok,
    cut (trimSpace text) 61 = (unit, interval, ok) := ⟨_, _, _, rfl⟩
  obtain ⟨startText, endText, ok', hinterval⟩ : ∃ startText endText ok',
    cut (trimSpace interval) 45 = (startText, endText, ok') := ⟨_, _, _, rfl⟩
  rw [hunit] at h
  dsimp only at h
  rw [hinterval] at h
  split_ifs at h with hunitOk hsplit hsuffix
  all_goals
    simp only [Bool.not_eq_true, Bool.not_eq_false, not_or, Bool.not_eq_eq_eq_not,
      Bool.not_true] at hunitOk hsplit
    obtain ⟨rfl, hbytes, hcomma⟩ := hunitOk
    obtain ⟨htext, hunit⟩ := cut_found hunit
    rw [hsplit] at hinterval
    obtain ⟨hsep, hstart⟩ := cut_found hinterval
    have hcomma : (44 : UInt8) ∉ interval := fun hin => by
      rw [contains_iff_mem.mpr hin] at hcomma
      cases hcomma
    refine ⟨unit, startText, endText, hbytes, hunit, hstart, ⟨interval, htext, hcomma, hsep⟩, ?_⟩
    simp only [bind_eq_bind, bind_eq_some_iff] at h
  · obtain ⟨k, hk, h⟩ := h
    split at h
    · cases h
      refine .inl ⟨k, hsuffix, parseBound_eq_some hk, ‹_›, ?_, ?_⟩
      · rw [resolveRange, if_pos ‹_›]
        dsimp only
        split <;> omega
      · rw [resolveRange, if_pos ‹_›]
        exact Nat.min_self _
    · cases h
  · obtain ⟨first, hfirst, stop, hstop, h⟩ := h
    split at h
    · cases h
      exact .inr ⟨stop, parseBound_eq_some hfirst, parseBound_eq_some hstop, ‹_›, rfl⟩
    · cases h

/-- The answer for a response of `n` bytes that is there as a whole. -/
theorem applyCachedRange_complete {response : Response} {n : Nat} {requested : Spec}
    {first last : Nat} (hrange : cachedBodyRange response = some (0, n - 1, n)) (hn : 0 < n)
    (hbody : response.body = .pooled data n) (hfirst : (resolveRange requested n).1 = first)
    (hlast : min (resolveRange requested n).2 (n - 1) = last) :
    ∃ answer, applyCachedRange response requested = some answer ∧
      (n ≤ first → answer.status = 416 ∧ answer.body = .noBody ∧
        answer.header.values contentRangeName = [lit "bytes */" ++ itoa n] ∧
        answer.header.values contentLengthName = [lit "0"]) ∧
      (first < n → answer.status = 206 ∧
        answer.header.values contentRangeName =
          [lit "bytes " ++ itoa first ++ lit "-" ++ itoa last ++ lit "/" ++ itoa n] ∧
        answer.header.values contentLengthName = [itoa (last - first + 1)] ∧
        answer.body = .ranged (data.drop first) (n - first) (last - first + 1)) := by
  subst hfirst hlast
  unfold applyCachedRange
  rw [hrange]
  dsimp only
  split_ifs with hend hout
  · refine ⟨_, rfl, fun _ => ⟨rfl, rfl, ?_, values_set_self _ _ _⟩, fun h => by omega⟩
    rw [values_set_of_ne (by decide), values_set_self]
  · omega
  · have hseek : response.body.seek ((resolveRange requested n).1 - 0) =
        some (.pooled (data.drop (resolveRange requested n).1)
          (n - (resolveRange requested n).1)) := by
      rw [hbody, Body.seek, if_neg (by omega)]
      rfl
    rw [hseek]
    refine ⟨_, rfl, fun h => by omega, fun _ => ⟨rfl, ?_, values_set_self _ _ _, rfl⟩⟩
    rw [values_set_of_ne (by decide), values_set_self]

/-- What is opened of a response that is not partial and was stored as a whole. -/
theorem readHTTPResponse_complete {status : Nat} {header : Header} {storing method : GoString}
    {template : Template} (hdata : data ≠ []) (hlength : data.length < 2 ^ 64)
    (hfull : status ≠ 206) (hbodyless : ¬ bodyless status) (hstoring : storing ≠ methodHead)
    (htemplate : (serializedHeader status header data.length storing).reread = some template)
    (hmethod : method ≠ methodHead) :
    cachedBodyRange (readHTTPResponse template data method) =
        some (0, data.length - 1, data.length) ∧
      (readHTTPResponse template data method).body = .pooled data data.length := by
  obtain ⟨template', htemplate', hstatus, hcontent, hannounces, -⟩ :=
    reread_serializedHeader header hstoring hlength fun h => absurd h hbodyless
  rw [htemplate] at htemplate'
  cases htemplate'
  have hzero : data.length ≠ 0 := fun h => hdata (length_eq_zero_iff.mp h)
  have hvalues : template.header.values contentLengthName = [itoa data.length] :=
    hannounces.resolve_right fun h => hdata h.2
  rw [readHTTPResponse, if_neg (by rw [hcontent]; simp [hzero, hmethod]), hcontent]
  refine ⟨?_, rfl⟩
  rw [cachedBodyRange, hstatus, if_neg hfull, Header.get, hvalues, headD_cons,
    parseUint_itoa hlength]
  exact if_neg hzero

/-- **Ranges of a stored response.**  Of every stored 200 response with a body of
`n` bytes, a range the parser accepts is answered with 416 and no body exactly if
the first position it asks for is not below `n`, and otherwise with 206, the
fields of the range clipped to `n`, and a body that delivers the bytes of that
range, whatever the sizes of the reads. -/
theorem range_served (hlz4 : lz4.Lawful) {header : Header} {storing method text : GoString}
    {template : Template} {requested : Spec} {head data pooled : Bytes} {size : Nat}
    {layout : ObjectLayout}
    (hwrite : writeObjectReader lz4 checksum (head ++ data) size = .ok file)
    (hlayout : readObjectLayout lz4 file file.length = .ok layout)
    (hpooled : pooled.length = layout.chunkSize) (hdata : data ≠ [])
    (hstoring : storing ≠ methodHead)
    (htemplate : (serializedHeader 200 header data.length storing).reread = some template)
    (hmethod : method ≠ methodHead) (hrange : parseCacheableRange text = some requested) :
    ∃ answer first last, Asks text data.length first last ∧
      applyCachedRange (readHTTPResponse template data method) requested = some answer ∧
      (data.length ≤ first → answer.status = 416 ∧ answer.body = .noBody ∧
        answer.header.values contentRangeName = [lit "bytes */" ++ itoa data.length] ∧
        answer.header.values contentLengthName = [lit "0"]) ∧
      (first < data.length → answer.status = 206 ∧ first ≤ last ∧ last < data.length ∧
        answer.header.values contentRangeName =
          [lit "bytes " ++ itoa first ++ lit "-" ++ itoa last ++ lit "/" ++ itoa data.length] ∧
        answer.header.values contentLengthName = [itoa (last - first + 1)] ∧
        answer.body.delivered = (data.drop first).take (last - first + 1) ∧
        ∃ body, openRange layout pooled head.length data.length first (last - first + 1) =
            some body ∧
          ∀ sizes, body.reads lz4 checksum file sizes =
            some (slices ((data.drop first).take (last - first + 1)) sizes)) := by
  obtain ⟨rfl, hsize⟩ := length_of_writeObjectReader hlz4 hwrite
  have hlength : (head ++ data).length < 2 ^ 63 := by omega
  have hbound : data.length < 2 ^ 64 := by
    rw [length_append] at hlength
    omega
  have hpos : 0 < data.length := length_pos_iff.mpr hdata
  have hreader := represents_opened hlz4 hwrite hlayout hpooled
  obtain ⟨hcomplete, hbody⟩ :=
    readHTTPResponse_complete hdata hbound (by decide) (by decide) hstoring htemplate hmethod
  have hasks := asks_of_parse hrange data.length
  have hordered : (resolveRange requested data.length).1 < data.length → _ :=
    resolveRange_le requested
  generalize hfirst : (resolveRange requested data.length).1 = first at hasks hordered
  generalize hlast : min (resolveRange requested data.length).2 (data.length - 1) = last
    at hasks hordered
  obtain ⟨answer, hanswer, hrefused, hserved⟩ :=
    applyCachedRange_complete hcomplete hpos hbody hfirst hlast
  refine ⟨answer, first, last, hasks, hanswer, hrefused, fun hinside => ?_⟩
  obtain ⟨hstatus, hcontentRange, hcontentLength, hranged⟩ := hserved hinside
  have hle : first ≤ last := hordered hinside
  have hlt : last < data.length := by omega
  have hrange : first + (last - first + 1) ≤ data.length := by omega
  obtain ⟨body, hopen, hholds⟩ := openRange_holds hreader hlength hrange
  have hdelivered : answer.body.delivered = (data.drop first).take (last - first + 1) := by
    rw [hranged, Body.delivered, take_of_length_le (length_drop ..).le]
  exact ⟨hstatus, hle, hlt, hcontentRange, hcontentLength, hdelivered, body, hopen,
    fun sizes => RangedBody.reads_eq sizes hholds⟩

/-- The last two of three bytes are asked for and served. -/
theorem range_served_suffix :
    ∃ template answer first last,
      (serializedHeader 200 ⟨[], nodup_nil⟩ 3 methodGet).reread = some template ∧
      Asks (lit "bytes=-2") 3 first last ∧
      applyCachedRange (readHTTPResponse template [1, 2, 3] methodGet)
        ⟨0, 0, 2, le_refl 0⟩ = some answer ∧
      answer.status = 206 ∧ answer.header.values contentLengthName = [itoa (last - first + 1)] ∧
      answer.body.delivered = ([1, 2, 3].drop first).take (last - first + 1) ∧
      answer.body.delivered = [2, 3] := by
  have hget : methodGet ≠ methodHead := by decide
  obtain ⟨chunks, stored, hwrite, htable⟩ := writeObjectReader_ok (fun _ => 0) storingLZ4_lawful
    (show ([9] ++ [1, 2, 3] : Bytes).length ≤ 2 ^ 63 - 1 by decide)
  have hlayout := readObjectLayout_written storingLZ4_lawful htable (by decide)
  obtain ⟨template, htemplate⟩ : ∃ template,
      (serializedHeader 200 ⟨[], nodup_nil⟩ 3 methodGet).reread = some template :=
    Option.isSome_iff_exists.mp (by decide +kernel)
  obtain ⟨answer, first, last, hasks, hanswer, hrefused, hserved⟩ := range_served
    storingLZ4_lawful hwrite hlayout (length_replicate (a := 0)) (by decide) hget htemplate hget
    (show parseCacheableRange (lit "bytes=-2") = some ⟨0, 0, 2, le_refl 0⟩ by decide +kernel)
  have hcomputed : ((serializedHeader 200 ⟨[], nodup_nil⟩ 3 methodGet).reread.bind fun template =>
      (applyCachedRange (readHTTPResponse template [1, 2, 3] methodGet) ⟨0, 0, 2, le_refl 0⟩).map
        fun answer => (answer.status, answer.body.delivered)) = some (206, [2, 3]) := by
    decide +kernel
  rw [htemplate, bind_some, hanswer, map_some, some_inj, Prod.mk.injEq] at hcomputed
  have hfirst : first < [1, 2, 3].length := by
    by_contra hout
    have hstatus := (hrefused (Nat.le_of_not_lt hout)).1
    rw [hcomputed.1] at hstatus
    cases hstatus
  obtain ⟨hstatus, -, -, -, hcontentLength, hdelivered, -⟩ := hserved hfirst
  exact ⟨template, answer, first, last, htemplate, hasks, hanswer, hstatus, hcontentLength,
    hdelivered, hcomputed.2⟩

end CachedRanges
