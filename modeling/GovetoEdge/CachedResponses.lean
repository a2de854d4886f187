import GovetoEdge.CacheMatching
import GovetoEdge.HttpConditions

/-!
# Stored responses and how they are served

What the cache keeps of a response: the head that `serializedHeader` writes,
followed by the body bytes.  Opening an entry parses the head again; a range
is cut out of the opened body.

* `reread_serializedHeader`: a head written for another method than HEAD
  announces the length of the body, also after it was parsed again;
* `applyCachedRange_announces`: an opened entry answers a range with as many
  bytes as the header announces.
-/

namespace CachedResponses

open GoStrings HttpHeaders CacheKeys CachePolicy CacheMatching List

def contentLengthName : GoString := lit "Content-Length"
def contentRangeName : GoString := lit "Content-Range"
/-- The field that names the method of a capture. -/
def cacheMethodName : GoString := lit "X-Goveto-Cache-Method"

/-- The response `serializedHeader` dumps: no body, but a content length. -/
structure Head where
  status : Nat
  header : Header
  contentLength : Int

/-- The head that is stored in front of a body. -/
def serializedHeader (status : Nat) (header : Header) (bodySize : Nat) (method : GoString) :
    Head :=
  let header := header.del (lit "Transfer-Encoding")
  if method = methodHead then
    let header := header.set cacheMethodName methodHead
    { status, header, contentLength := (parseInt (header.get contentLengthName)).getD bodySize }
  else
    { status
      header := if status ≠ 204 ∧ status ≠ 304 then header.set contentLengthName (itoa bodySize)
        else header
      contentLength := bodySize }

/-- Statuses whose responses have no body. -/
def bodyless (status : Nat) : Bool := (100 ≤ status ∧ status < 200) ∨ status = 204 ∨ status = 304

/-- The `Content-Length` line of a dump. -/
def Head.lengthField (head : Head) : Option GoString :=
  if head.contentLength > 0 then some (itoa head.contentLength.toNat)
  else if head.contentLength = 0 ∧ !bodyless head.status then some (itoa 0)
  else none

/-- `cachedResponseTemplate`. -/
structure Template where
  status : Nat
  header : Header
  contentLength : Nat

/-- The other fields of a dump: those that govern the transfer are left out. -/
def dumped (header : Header) : Header :=
  ((header.del contentLengthName).del (lit "Transfer-Encoding")).del (lit "Trailer")

/-- What `http.ReadResponse` makes of a dump, as for a GET.  A response
without a fixed length is an error. -/
def Head.reread (head : Head) : Option Template :=
  match head.lengthField with
  | some n =>
    some { status := head.status, header := (dumped head.header).set contentLengthName n,
           contentLength := if bodyless head.status then 0 else (parseUint n).1 }
  | none => if bodyless head.status then some ⟨head.status, dumped head.header, 0⟩ else none

/-- The body of an opened entry. -/
inductive Body
  | noBody
  /-- The object from the current position on, and the bytes still to give. -/
  | pooled (data : List UInt8) (remaining : Nat)
  /-- The same behind a limit. -/
  | ranged (data : List UInt8) (remaining limit : Nat)
deriving DecidableEq

/-- What a copy of the body delivers. -/
def Body.delivered : Body → List UInt8
  | .noBody => []
  | .pooled data remaining => data.take remaining
  | .ranged data remaining limit => (data.take remaining).take limit

/-- A response that is served. -/
structure Response where
  status : Nat
  header : Header
  contentLength : Nat
  body : Body

/-- `readHTTPResponse` of a request without a range; `data` is the body part
of the object. -/
def readHTTPResponse (template : Template) (data : List UInt8) (method : GoString) : Response :=
  if template.contentLength = 0 ∨ method = methodHead then
    ⟨template.status, template.header.del cacheMethodName, template.contentLength, .noBody⟩
  else
    ⟨template.status, template.header, template.contentLength,
      .pooled data template.contentLength⟩

/-- The part of the representation a stored body is: first and last position
and the whole length. -/
def cachedBodyRange (response : Response) : Option (Nat × Nat × Nat) :=
  if response.status = 206 then
    let (unit, interval, found) := cut (trimSpace (response.header.get contentRangeName)) 32
    let (bounds, totalText, foundTotal) := cut interval 47
    let (startText, endText, foundBounds) := cut bounds 45
    if !found ∨ !foundTotal ∨ !foundBounds ∨ !equalFold unit (lit "bytes") ∨ totalText = lit "*"
    then none
    else
      let start := (parseUint startText).1
      let stop := (parseUint endText).1
      let total := (parseUint totalText).1
      if total > 0 ∧ start ≤ stop ∧ stop < total then some (start, stop, total) else none
  else
    match parseUint (response.header.get contentLengthName) with
    | (total, true) => if total = 0 then none else some (0, total - 1, total)
    | (_, false) => none

/-- `seekBody` on the body of an opened entry. -/
def Body.seek : Body → Nat → Option Body
  | .pooled data remaining, offset =>
    if offset > remaining then none
    else some (.pooled (data.drop offset) (remaining - offset))
  | body, _ => some body

/-- A limit on top of a body. -/
def Body.limit : Body → Nat → Body
  | .noBody, _ => .noBody
  | .pooled data remaining, length => .ranged data remaining length
  | .ranged data remaining _, length => .ranged data remaining length

/-- The requested positions in a representation of `total` bytes. -/
def resolveRange (requested : Spec) (total : Nat) : Nat × Nat :=
  if requested.suffixLength > 0 then
    (if requested.suffixLength ≥ total then 0 else total - requested.suffixLength, total - 1)
  else (requested.start, requested.stop)

/-- The answer to a range; `none` is an error. -/
def applyCachedRange (response : Response) (requested : Spec) : Option Response :=
  match cachedBodyRange response with
  | none => some response
  | some (bodyStart, bodyEnd, total) =>
    let (start, stop) := resolveRange requested total
    if start ≥ total then
      some { status := 416
             header := ((response.header.set (lit "Accept-Ranges") (lit "bytes")).set
               contentRangeName (lit "bytes */" ++ itoa total)).set contentLengthName (lit "0")
             contentLength := 0
             body := .noBody }
    else
      let stop := min stop (total - 1)
      if start < bodyStart ∨ start > bodyEnd ∨ stop > bodyEnd then some response
      else do
        let length := stop - start + 1
        let body ← response.body.seek (start - bodyStart)
        some { status := 206
               header := ((response.header.set (lit "Accept-Ranges") (lit "bytes")).set
                 contentRangeName (lit "bytes " ++ itoa start ++ lit "-" ++ itoa stop ++ lit "/" ++
                   itoa total)).set contentLengthName (itoa length)
               contentLength := length
               body := body.limit length }

/-- The header announces as many bytes as there are; nothing is announced only
where there is nothing. -/
def Announces (header : Header) (body : List UInt8) : Prop :=
  header.values contentLengthName = [itoa body.length] ∨
    (header.values contentLengthName = [] ∧ body = [])

/-- A usable range of a partial response spans its body. -/
def SpansBody (response : Response) (data : List UInt8) : Prop :=
  ∀ start stop total, cachedBodyRange response = some (start, stop, total) →
    stop + 1 = start + data.length

/-- An opened entry with the body `data`, all of it still to be delivered. -/
structure Response.Opened (response : Response) (data : List UInt8) : Prop where
  announces : Announces response.header data
  body : response.body = .pooled data data.length ∨ (response.body = .noBody ∧ data = [])
  spans : SpansBody response data

variable {response r₁ r₂ : Response} {data : List UInt8} {header : Header}

/-- An opened response delivers its data. -/
theorem Response.Opened.delivered (h : response.Opened data) : response.body.delivered = data := by
  rcases h.body with hbody | ⟨hbody, rfl⟩
  · rw [hbody]
    exact take_length
  · rw [hbody]
    rfl

/-- Of a response that is not partial, the length field is the range. -/
theorem spansBody_of_status (hstatus : response.status ≠ 206) (hbound : data.length < 2 ^ 64)
    (h : Announces response.header data) : SpansBody response data := by
  intro start stop total hrange
  rw [cachedBodyRange, if_neg hstatus] at hrange
  rcases h with h | ⟨h, _⟩
  · rw [Header.get, h, headD_cons, parseUint_itoa hbound] at hrange
    simp only [Option.ite_none_left_eq_some, Option.some.injEq, Prod.mk.injEq] at hrange
    omega
  · rw [Header.get, h] at hrange
    cases hrange

/-- The length that is set is announced. -/
theorem announces_set {body : List UInt8} {n : Nat} (h : body.length = n) :
    Announces (header.set contentLengthName (itoa n)) body := by
  rw [← h]
  exact .inl (values_set_self _ _ _)

/-- A range that begins inside of the representation is not empty. -/
theorem resolveRange_le (requested : Spec) {total : Nat}
    (h : (resolveRange requested total).1 < total) :
    (resolveRange requested total).1 ≤ min (resolveRange requested total).2 (total - 1) := by
  have hordered := requested.ordered
  unfold resolveRange at h ⊢
  split at h <;> simp_all <;> omega

/-- A range of an opened entry is answered with as many bytes as its header
announces. -/
theorem applyCachedRange_announces (h : response.Opened data) (requested : Spec) :
    ∃ answer, applyCachedRange response requested = some answer ∧
      Announces answer.header answer.body.delivered := by
  unfold applyCachedRange
  cases hrange : cachedBodyRange response with
  | none => exact ⟨response, rfl, h.delivered ▸ h.announces⟩
  | some range =>
    obtain ⟨bodyStart, bodyEnd, total⟩ := range
    have hspan := h.spans _ _ _ hrange
    have hle : (resolveRange requested total).1 < total → _ := resolveRange_le requested
    dsimp only
    generalize resolveRange requested total = resolved at hle ⊢
    obtain ⟨start, stop⟩ := resolved
    split_ifs with h1 h2
    · exact ⟨_, rfl, announces_set (n := 0) rfl⟩
    · exact ⟨response, rfl, h.delivered ▸ h.announces⟩
    · obtain ⟨hbody, hlength⟩ : response.body = .pooled data data.length ∧
          start - bodyStart ≤ data.length := by
        rcases h.body with hbody | ⟨_, hnil⟩
        · exact ⟨hbody, by omega⟩
        · rw [hnil, length_nil] at hspan
          omega
      have hseek : response.body.seek (start - bodyStart) =
          some (.pooled (data.drop (start - bodyStart)) (data.length - (start - bodyStart))) := by
        rw [hbody, Body.seek, if_neg (by omega)]
      rw [hseek]
      refine ⟨_, rfl, announces_set ?_⟩
      simp only [Body.limit, Body.delivered, length_take, length_drop]
      omega

/-- Headers with the same length and the same range. -/
structure SameTransfer (a b : Header) : Prop where
  length : a.values contentLengthName = b.values contentLengthName
  range : a.values contentRangeName = b.values contentRangeName

theorem SameTransfer.refl (header : Header) : SameTransfer header header := ⟨rfl, rfl⟩

theorem SameTransfer.trans {a b c : Header} (h : SameTransfer a b) (h' : SameTransfer b c) :
    SameTransfer a c :=
  ⟨h.length.trans h'.length, h.range.trans h'.range⟩

/-- The names of the two fields. -/
def transferNames : List GoString := [contentLengthName, contentRangeName]

/-- Other fields may be set. -/
theorem sameTransfer_put {key : GoString} {values : List GoString} (h : key ∉ transferNames) :
    SameTransfer (header.put key values) header := by
  simp only [transferNames, mem_cons, not_mem_nil, or_false, not_or] at h
  exact ⟨values_put_of_ne fun heq => h.1 heq.symm, values_put_of_ne fun heq => h.2 heq.symm⟩

/-- Or deleted. -/
theorem sameTransfer_del {name : GoString} (h : canonicalHeaderKey name ∉ transferNames) :
    SameTransfer (header.del name) header := by
  simp only [transferNames, mem_cons, not_mem_nil, or_false, not_or] at h
  exact ⟨values_del_of_ne fun heq => h.1 heq.symm, values_del_of_ne fun heq => h.2 heq.symm⟩

/-- Only the status and two fields of the header count for the range. -/
theorem cachedBodyRange_congr (hstatus : r₁.status = r₂.status)
    (h : SameTransfer r₁.header r₂.header) : cachedBodyRange r₁ = cachedBodyRange r₂ := by
  unfold cachedBodyRange
  rw [Header.get, Header.get, Header.get, Header.get, hstatus, h.range, h.length]

/-- Status, length and range decide. -/
theorem SpansBody.congr (h : SpansBody r₂ data) (hstatus : r₁.status = r₂.status)
    (hsame : SameTransfer r₁.header r₂.header) : SpansBody r₁ data := by
  unfold SpansBody
  rw [cachedBodyRange_congr hstatus hsame]
  exact h

/-- Of a partial response, the length does not count either. -/
theorem cachedBodyRange_partial (h₁ : r₁.status = 206) (h₂ : r₂.status = 206)
    (hrange : r₁.header.values contentRangeName = r₂.header.values contentRangeName) :
    cachedBodyRange r₁ = cachedBodyRange r₂ := by
  unfold cachedBodyRange
  rw [if_pos h₁, if_pos h₂, Header.get, Header.get, hrange]

/-- **A head written for another method than HEAD announces the body it was
captured with**, also after it was dumped and read again. -/
theorem reread_serializedHeader {status : Nat} (header : Header) {method : GoString}
    (hmethod : method ≠ methodHead) (hbound : data.length < 2 ^ 64)
    (hbodyless : bodyless status → data = []) :
    ∃ template, (serializedHeader status header data.length method).reread = some template ∧
      template.status = status ∧ template.contentLength = data.length ∧
      Announces template.header data ∧
      template.header.values contentRangeName = header.values contentRangeName := by
  have hhead : serializedHeader status header data.length method =
      { status
        header := if status ≠ 204 ∧ status ≠ 304 then
            (header.del (lit "Transfer-Encoding")).set contentLengthName (itoa data.length)
          else header.del (lit "Transfer-Encoding")
        contentLength := data.length } := by
    rw [serializedHeader, if_neg hmethod]
  generalize hh : (if status ≠ 204 ∧ status ≠ 304 then
      (header.del (lit "Transfer-Encoding")).set contentLengthName (itoa data.length)
    else header.del (lit "Transfer-Encoding")) = stored at hhead
  have hrange : stored.values contentRangeName = header.values contentRangeName := by
    rw [← hh]
    split
    · rw [values_set_of_ne (by decide), values_del_of_ne (by decide)]
    · rw [values_del_of_ne (by decide)]
  have hrest : (dumped stored).values contentRangeName = header.values contentRangeName := by
    rw [dumped, values_del_of_ne (by decide), values_del_of_ne (by decide),
      values_del_of_ne (by decide), hrange]
  rw [hhead]
  by_cases hb : bodyless status
  · -- no length is dumped, and there is no body
    have hnil := hbodyless hb
    refine ⟨⟨status, dumped stored, 0⟩, ?_, rfl, by rw [hnil]; rfl, ?_, hrest⟩
    · simp [Head.reread, Head.lengthField, hnil, hb]
    · refine .inr ⟨?_, hnil⟩
      rw [dumped, values_del_of_ne (by decide), values_del_of_ne (by decide), values_del_self]
  · have hfield : Head.lengthField ⟨status, stored, data.length⟩ = some (itoa data.length) := by
      unfold Head.lengthField
      cases data with
      | nil => simp [hb]
      | cons b data => simp
    refine ⟨⟨status, (dumped stored).set contentLengthName (itoa data.length), data.length⟩,
      ?_, rfl,
      rfl, announces_set rfl, ?_⟩
    · rw [Head.reread, hfield]
      simp [hb, parseUint_itoa hbound]
    · rw [values_set_of_ne (by decide), hrest]

/-- Opening such an entry for a GET. -/
theorem readHTTPResponse_opened {template : Template} {method : GoString}
    (hmethod : method ≠ methodHead) (hlength : template.contentLength = data.length)
    (hannounces : Announces template.header data)
    (hspans : SpansBody (readHTTPResponse template data method) data) :
    (readHTTPResponse template data method).Opened data := by
  have hheader : (readHTTPResponse template data method).header.values contentLengthName =
      template.header.values contentLengthName := by
    unfold readHTTPResponse
    split
    · exact values_del_of_ne (by decide)
    · rfl
  refine ⟨by rw [Announces, hheader]; exact hannounces, ?_, hspans⟩
  unfold readHTTPResponse
  split
  · rename_i hzero
    have hnil : data = [] := length_eq_zero_iff.mp (hlength ▸ hzero.resolve_right hmethod)
    exact .inr ⟨rfl, hnil⟩
  · exact .inl (by rw [← hlength])

end CachedResponses
