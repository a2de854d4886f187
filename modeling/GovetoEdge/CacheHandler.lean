import GovetoEdge.CachedResponses

/-!
# The cache handler

The functions of the handler between a response of the origin and an entry of
the cache, and between an entry and a client: `prepareResponse` and
`cacheable` decide on admission, `serveCached` evaluates preconditions, selects
a range and copies the body.  `govetoCacheHandler` is the configuration that
the agent derives from a site's cache policy.

`serveCached_announces`: an opened entry is delivered with as many bytes as
the final header announces.
-/

namespace CacheHandler

open HttpConditions

open GoStrings Utf8 HttpHeaders CacheKeys CachePolicy CacheControl CacheMatching CachedResponses

/-- The configuration of a handler. -/
structure Config extends CacheKeys.Handler where
  hashKey : Bool
  hideKey : Bool
  defaultTTL : Int
  statusTTL : List (GoString × Int)
  staleIfErrorTTL : Int
  staleWhileRevalidateTTL : Int
  maxBodyBytes : Nat
  xCache : Bool
  age : Bool
  debug : Bool
  overrideClientTTL : Bool
  clientTTL : Int
  bypassCacheControl : List GoString
  surrogateKeyHeader : GoString

/-- The handler of a rule in a scope of the site's routes. -/
def govetoCacheHandler (siteID : GoString) (policy : Policy) (rule : CacheRule) (scope : GoString)
    (debugMode : Bool) : Config where
  siteID := siteID
  keyNamespace := scope
  keyParts := policy.cacheKey.parts
  keyHeaders := policy.cacheKey.headers
  keyQueryNormalize := policy.cacheKey.query.normalizeEnabled
  keyQueryInclude := policy.cacheKey.query.includes
  keyQueryExclude := policy.cacheKey.query.excludes
  keyCookies := policy.cacheKey.cookies
  hashKey := policy.cacheKey.hash
  hideKey := policy.cacheKey.hide
  defaultTTL := rule.ttl.defaultSeconds
  statusTTL := rule.ttl.status
  staleIfErrorTTL := if policy.stale.enabled then policy.stale.ifErrorSeconds else 0
  staleWhileRevalidateTTL := if policy.stale.enabled then policy.stale.whileRevalidateSeconds else 0
  maxBodyBytes := policy.maxBodyBytes
  xCache := policy.responseHeaders.xCache
  age := policy.responseHeaders.age
  debug := debugMode
  overrideClientTTL := rule.ttl.overrideClientTTL
  clientTTL := rule.ttl.clientSeconds
  bypassCacheControl := policy.bypassCacheControl
  surrogateKeyHeader := policy.surrogateKeyHeader

/-- What the handler takes from the libraries: the hexadecimal SHA-256 digest
of a key and the times of a header. -/
structure HandlerLibrary extends CachePolicy.Library where
  digest : GoString → GoString
  parseTime : GoString → Option Int

/-- `strconv.Itoa` of any number. -/
def itoaInt (n : Int) : GoString := if n < 0 then 45 :: itoa n.natAbs else itoa n.natAbs

section Functions

variable (lib : HandlerLibrary) (h : Config)

/-- Keys are hashed on request. -/
def storageKey (raw : GoString) : GoString := if !h.hashKey then raw else lib.digest raw

/-- The lifetime that the rule gives the status. -/
def ttl (status : Nat) : Int := (h.statusTTL.lookup (itoa status)).getD h.defaultTTL

/-- The statuses that may be stored. -/
def cacheableStatus : List Nat := [200, 203, 204, 206, 300, 301, 404, 405, 410, 414, 501]

/-- The directives that keep a response out of the cache. -/
def uncacheable (control : GoString) : Bool :=
  hasDirective control (lit "private") || hasDirective control (lit "no-store") ||
    hasDirective control (lit "no-cache") || hasDirective control (lit "must-revalidate") ||
    hasDirective control (lit "proxy-revalidate")

/-- All lines of the field in one. -/
def cacheControl (header : Header) : GoString :=
  join (header.values (lit "Cache-Control")) (lit ",")

/-- What may be stored. -/
def cacheable (status : Nat) (header : Header) (size : Nat) : Bool :=
  status ∈ cacheableStatus ∧ ttl h status > 0 ∧ ¬(h.maxBodyBytes > 0 ∧ size > h.maxBodyBytes) ∧
    header.get (lit "Set-Cookie") = [] ∧ !uncacheable (cacheControl header)

/-- The fields that only the cache may set. -/
def reservedNames : List GoString :=
  [lit "Age", lit "Date", lit "Cache-Status", lit "X-Cache", lit "X-Goveto-Origin-Content-Length",
    lit "X-Goveto-Origin-Method", cacheMethodName]

/-- Fields of the cache itself are not taken over. -/
def dropReserved (header : Header) : Header := reservedNames.foldl Header.del header

/-- The Cache-Control value of an admissible response. -/
def preparedControl (control : GoString) (status : Nat) : GoString :=
  let control := if trimSpace control = [] then lit "public" else control
  let control := replaceDirective control (lit "s-maxage") (itoaInt (ttl h status))
  let control :=
    if h.overrideClientTTL then replaceDirective control (lit "max-age") (itoaInt h.clientTTL)
    else if !hasDirective control (lit "max-age") then
      replaceDirective control (lit "max-age") (itoaInt (ttl h status))
    else control
  let control :=
    if h.staleWhileRevalidateTTL > 0 ∧ !hasDirective control (lit "stale-while-revalidate") then
      control ++ lit ", stale-while-revalidate=" ++ itoaInt h.staleWhileRevalidateTTL
    else control
  if h.staleIfErrorTTL > 0 ∧ !hasDirective control (lit "stale-if-error") then
    control ++ lit ", stale-if-error=" ++ itoaInt h.staleIfErrorTTL
  else control

/-- The header as the rule changes it. -/
def prepareResponse (header : Header) (status : Nat) : Header :=
  let header := dropReserved header
  let control := cacheControl header
  if header.get (lit "Set-Cookie") ≠ [] ∨
      matchesConfigured lib.lowerRune control h.bypassCacheControl
  then header.set (lit "Cache-Control") (lit "private, no-store")
  else if ttl h status ≤ 0 ∨ uncacheable control then header
  else header.set (lit "Cache-Control") (preparedControl h control status)

/-- The header that is stored. -/
def cacheStorageHeader (header : Header) : Header :=
  if h.surrogateKeyHeader = [] ∨ equalFold h.surrogateKeyHeader (lit "Surrogate-Key") then header
  else
    let values := header.values h.surrogateKeyHeader
    if values ≠ [] then header.put (lit "Surrogate-Key") values
    else header.del (lit "Surrogate-Key")

/-- A response shorter or longer than it declared. -/
def responseIncomplete (method : GoString) (status : Nat) (header : Header) (actual : Nat) : Bool :=
  if method = methodHead ∨ status < 200 ∨ status = 204 ∨ status = 304 then false
  else
    match parseInt (header.get contentLengthName) with
    | some expected => expected ≥ 0 ∧ (actual : Int) ≠ expected
    | none => false

/-- Errors that a stale response covers. -/
def staleEligibleStatus (status : Nat) : Bool :=
  status = 500 ∨ status = 502 ∨ status = 503 ∨ status = 504

/-- The length in the header, or 0. -/
def declaredResponseSize (header : Header) : Nat :=
  match parseUint (trimSpace (header.get contentLengthName)) with
  | (size, true) => size
  | (_, false) => 0

/-- Trailers are announced. -/
def hasDeclaredTrailer (header : Header) : Bool :=
  header.get (lit "Trailer") ≠ [] ∨ header.names.any ((lit "Trailer:").isPrefixOf ·)

/-- The `Cache-Status` text; `ttl` is printed only where it is not negative. -/
def cacheStatus (result key : GoString) (ttl : Int) : GoString :=
  let status := lit "Goveto; " ++ toLower lib.lowerRune result
  let status := if ttl ≥ 0 then status ++ lit "; ttl=" ++ itoaInt ttl else status
  if !h.hideKey then
    let exposed := if h.hashKey then storageKey lib h key else key
    status ++ lit "; key=\"" ++
      (exposed.flatMap fun b => if b = 34 then [92, 34] else [b]) ++ lit "\""
  else status

def setCacheStatus (header : Header) (result key : GoString) (ttl : Int) : Header :=
  if h.debug then header.set (lit "Cache-Status") (cacheStatus lib h result key ttl)
  else header.del (lit "Cache-Status")

def setXCache (header : Header) (result : GoString) : Header :=
  if h.xCache then header.set (lit "X-Cache") result else header.del (lit "X-Cache")

def setAge (header : Header) (result : GoString) : Header :=
  if h.age ∧ (result = lit "HIT" ∨ result = lit "STALE") then
    if header.get (lit "Age") = [] then header.set (lit "Age") (lit "0") else header
  else header.del (lit "Age")

/-- The three labels. -/
def setResultHeaders (header : Header) (result key : GoString) (ttl : Int) : Header :=
  setAge h (setXCache h (setCacheStatus lib h header result key ttl) result) result

/-- The fields a 304 may update. -/
def updatedNames : List GoString :=
  [lit "Cache-Control", lit "Content-Location", lit "Date", lit "ETag", lit "Expires",
    lit "Last-Modified", lit "Vary"]

/-- A 304 updates the fields it has. -/
def merge304Headers (target update : Header) : Header :=
  updatedNames.foldl (fun target name =>
    match update.entries.lookup name with
    | some values => target.put name values
    | none => target) target

/-- What a client receives. -/
structure Delivery where
  status : Nat
  header : Header
  body : List UInt8

/-- How a served entry is labelled: the result, the seconds it stays fresh and
the seconds it has been stored. -/
structure Label where
  result : GoString
  ttl : Int
  age : Nat

/-- A surrogate key that is not the origin's own stays inside. -/
def dropSurrogateKey (header : Header) : Header :=
  if h.surrogateKeyHeader ≠ [] ∧ !equalFold h.surrogateKeyHeader (lit "Surrogate-Key") then
    header.del (lit "Surrogate-Key")
  else header

/-- The last changes to the header of a served entry. -/
def labelHeader (header : Header) (key : GoString) (label : Label) : Header :=
  let header := dropSurrogateKey h header
  let header := if h.age then header.set (lit "Age") (itoa label.age) else header
  setResultHeaders lib h header label.result key label.ttl

/-- The response to copy: preconditions first, then the range; `none` is an
error. -/
def selectResponse (request : Request) (range : Option Spec) (response : Response) :
    Option Response :=
  match status lib.parseTime request response.status response.header with
  | some status =>
    some { response with
      status
      header := (response.header.del contentLengthName).del contentRangeName }
  | none =>
    match range with
    | some requested =>
      if request.method ≠ methodHead ∧
          rangeAllowed lib.parseTime request response.header then
        applyCachedRange response requested
      else some response
    | none => some response

/-- What the client gets of a stored response. -/
def serveCached (request : Request) (range : Option Spec) (response : Response) (key : GoString)
    (label : Label) : Option Delivery := do
  let response ← selectResponse lib request range response
  let body :=
    if response.status = 304 ∨ response.status = 412 ∨ request.method = methodHead then []
    else response.body.delivered
  some ⟨response.status, labelHeader lib h response.header key label, body⟩

/-- The fields that a served entry gets from the handler. -/
def labelNames : List GoString :=
  [lit "Cache-Status", lit "X-Cache", lit "Age", lit "Surrogate-Key"]

/-- The fields that preparing a response changes. -/
def preparedNames : List GoString := lit "Cache-Control" :: reservedNames

section Fields

variable {lib h} {name : GoString} {header : Header}

/-- A loop over names of other fields. -/
theorem values_foldl {names : List GoString} {f : Header → GoString → Header}
    (hf : ∀ header, ∀ n ∈ names, (f header n).values name = header.values name) :
    (names.foldl f header).values name = header.values name := by
  induction names generalizing header with
  | nil => rfl
  | cons n names ih =>
    exact (ih fun header m hm => hf header m (List.mem_cons_of_mem _ hm)).trans
      (hf header n List.mem_cons_self)

/-- Labels are other fields. -/
theorem values_setResultHeaders {result key : GoString} {ttl : Int}
    (hname : canonicalHeaderKey name ∉ labelNames) :
    (setResultHeaders lib h header result key ttl).values name = header.values name := by
  have hset : ∀ {header : Header} {label value : GoString}, canonicalHeaderKey label ∈ labelNames →
      (header.set label value).values name = header.values name :=
    fun hlabel => values_set_of_ne fun heq => hname (heq ▸ hlabel)
  have hdel : ∀ {header : Header} {label : GoString}, canonicalHeaderKey label ∈ labelNames →
      (header.del label).values name = header.values name :=
    fun hlabel => values_del_of_ne fun heq => hname (heq ▸ hlabel)
  unfold setResultHeaders setAge setXCache setCacheStatus
  split_ifs <;> simp only [hset, hdel, show canonicalHeaderKey (lit "Age") ∈ labelNames by decide,
    show canonicalHeaderKey (lit "X-Cache") ∈ labelNames by decide,
    show canonicalHeaderKey (lit "Cache-Status") ∈ labelNames by decide]

/-- Labelling leaves other fields alone. -/
theorem values_labelHeader {key : GoString} {label : Label}
    (hname : canonicalHeaderKey name ∉ labelNames) :
    (labelHeader lib h header key label).values name = header.values name := by
  have hdrop : (dropSurrogateKey h header).values name = header.values name := by
    unfold dropSurrogateKey
    split
    · exact values_del_of_ne fun heq => hname (by rw [heq]; decide)
    · rfl
  unfold labelHeader
  rw [values_setResultHeaders hname]
  split
  · exact (values_set_of_ne fun heq => hname (by rw [heq]; decide)).trans hdrop
  · exact hdrop

/-- So does a 304. -/
theorem values_merge304Headers {update : Header} (hname : canonicalHeaderKey name ∉ updatedNames) :
    (merge304Headers header update).values name = header.values name := by
  refine values_foldl fun header n hn => ?_
  split
  · exact values_put_of_ne fun heq => hname (heq ▸ hn)
  · rfl

/-- And dropping reserved fields. -/
theorem values_dropReserved (hname : canonicalHeaderKey name ∉ reservedNames) :
    (dropReserved header).values name = header.values name := by
  have hcanonical : ∀ n ∈ reservedNames, canonicalHeaderKey n = n := by decide
  exact values_foldl fun header n hn =>
    values_del_of_ne fun heq => hname (heq ▸ (hcanonical n hn).symm ▸ hn)

/-- And preparing a response. -/
theorem values_prepareResponse {status : Nat} (hname : canonicalHeaderKey name ∉ preparedNames) :
    (prepareResponse lib h header status).values name = header.values name := by
  have hne : canonicalHeaderKey name ≠ canonicalHeaderKey (lit "Cache-Control") :=
    fun heq => hname (by rw [heq]; decide)
  have hreserved : (dropReserved header).values name = header.values name :=
    values_dropReserved fun hmem => hname (List.mem_cons_of_mem _ hmem)
  unfold prepareResponse
  dsimp only
  split_ifs
  · exact (values_set_of_ne hne).trans hreserved
  · exact hreserved
  · exact (values_set_of_ne hne).trans hreserved

end Fields

/-- Labels keep length and range. -/
theorem sameTransfer_setResultHeaders (header : Header) (result key : GoString) (ttl : Int) :
    SameTransfer (setResultHeaders lib h header result key ttl) header :=
  ⟨values_setResultHeaders (by decide), values_setResultHeaders (by decide)⟩

theorem sameTransfer_labelHeader (header : Header) (key : GoString) (label : Label) :
    SameTransfer (labelHeader lib h header key label) header :=
  ⟨values_labelHeader (by decide), values_labelHeader (by decide)⟩

/-- So does a 304. -/
theorem sameTransfer_merge304Headers (target update : Header) :
    SameTransfer (merge304Headers target update) target :=
  ⟨values_merge304Headers (by decide), values_merge304Headers (by decide)⟩

/-- And preparing a response. -/
theorem sameTransfer_prepareResponse (header : Header) (status : Nat) :
    SameTransfer (prepareResponse lib h header status) header :=
  ⟨values_prepareResponse (by decide), values_prepareResponse (by decide)⟩

/-- And storing it. -/
theorem sameTransfer_cacheStorageHeader (header : Header) :
    SameTransfer (cacheStorageHeader h header) header := by
  unfold cacheStorageHeader
  dsimp only
  split_ifs
  · exact .refl _
  · exact sameTransfer_put (by decide)
  · exact sameTransfer_del (by decide)

/-- A response the cache holds: no answer to a precondition. -/
def Held (status : Nat) : Prop := status ≠ 304 ∧ status ≠ 412

/-- Stored statuses are ones that are held. -/
theorem held_of_cacheableStatus {status : Nat} (h : status ∈ cacheableStatus) : Held status := by
  unfold Held
  revert status
  decide

theorem held_416 : Held 416 := ⟨by decide, by decide⟩

theorem held_206 : Held 206 := ⟨by decide, by decide⟩

variable {response : Response}

/-- A range of a held response is held. -/
theorem applyCachedRange_held {answer : Response} {requested : Spec} (hheld : Held response.status)
    (h : applyCachedRange response requested = some answer) : Held answer.status := by
  unfold applyCachedRange at h
  split at h
  · cases h
    exact hheld
  · dsimp only at h
    split_ifs at h
    · cases h
      exact held_416
    · cases h
      exact hheld
    · obtain ⟨body, _, hanswer⟩ := Option.bind_eq_some_iff.mp h
      cases hanswer
      exact held_206

/-- What a precondition or a range leaves of an opened entry announces what it
delivers; a failed precondition announces nothing. -/
theorem selectResponse_announces {request : Request} {range : Option Spec} {data : List UInt8}
    (hopened : response.Opened data) (hheld : Held response.status) :
    ∃ answer, selectResponse lib request range response = some answer ∧
      ((Held answer.status ∧ Announces answer.header answer.body.delivered) ∨
        ((answer.status = 304 ∨ answer.status = 412) ∧
          answer.header.values contentLengthName = [])) := by
  have hsame : Announces response.header response.body.delivered :=
    hopened.delivered ▸ hopened.announces
  unfold selectResponse
  cases hstatus : status lib.parseTime request response.status response.header with
  | some status =>
    refine ⟨_, rfl, .inr ⟨status_eq_some _ hstatus, ?_⟩⟩
    rw [values_del_of_ne (by decide), values_del_self]
  | none =>
    cases range with
    | none => exact ⟨response, rfl, .inl ⟨hheld, hsame⟩⟩
    | some requested =>
      dsimp only
      split
      · obtain ⟨answer, hanswer, hann⟩ := applyCachedRange_announces hopened requested
        exact ⟨answer, hanswer, .inl ⟨applyCachedRange_held hheld hanswer, hann⟩⟩
      · exact ⟨response, rfl, .inl ⟨hheld, hsame⟩⟩

/-- **An opened entry is delivered with as many bytes as the final header
announces.** -/
theorem serveCached_announces {request : Request} {range : Option Spec} {data : List UInt8}
    (hopened : response.Opened data) (hheld : Held response.status)
    (hmethod : request.method ≠ methodHead) (key : GoString) (label : Label) :
    ∃ delivery, serveCached lib h request range response key label = some delivery ∧
      Announces delivery.header delivery.body := by
  obtain ⟨answer, hanswer, hcases⟩ := selectResponse_announces lib hopened hheld
  refine ⟨_, by rw [serveCached, hanswer]; rfl, ?_⟩
  rw [Announces, (sameTransfer_labelHeader lib h _ _ _).length]
  rcases hcases with ⟨hheld, hann⟩ | ⟨hstatus, hnone⟩
  · rw [if_neg (by rintro (h | h | h); exacts [hheld.1 h, hheld.2 h, hmethod h])]
    exact hann
  · rw [if_pos (hstatus.imp_right .inl)]
    exact .inr ⟨hnone, rfl⟩

end Functions

end CacheHandler
