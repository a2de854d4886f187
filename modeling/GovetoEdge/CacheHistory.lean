import GovetoEdge.CacheHandler
import GovetoEdge.Runs

/-!
# GET and HEAD on one cache

A site's handlers share one cache.  Its state is reduced to what decides which
bytes a hit delivers: the objects, filed by variant key, and the index, which
lists variants by base key.  Responses are captured for GET and HEAD requests,
entries are revalidated, and anything may be removed at any time.

A head captured for HEAD keeps the declared length although there is no body.
Nothing in the index tells the methods apart but the key itself, so that
`get_hits_complete` asks for the method among the parts of the key wherever a
response to HEAD is stored; `bodiless_hit` is the history that goes wrong
without it.
-/

namespace CacheHistory

open GoStrings HttpHeaders FieldFraming CacheKeys CachePolicy CacheMatching CachedResponses Option
open CacheHandler Runs Function

/-- A request that a route of the site passes to the cache handler of a rule. -/
structure Access where
  rule : CacheRule
  scope : GoString
  debugMode : Bool
  request : Request

/-- A response of the origin.  The transport delivers no body with a status
that has none, and no length beyond that of a file. -/
structure Origin where
  status : Nat
  header : Header
  body : List UInt8
  bodylessEmpty : bodyless status → body = []
  bounded : body.length < 2 ^ 63

/-- How a response is captured: to a file, while it is passed on, or straight
into the encoder. -/
inductive Capture
  | spooled
  | streamed
  | encoded
deriving DecidableEq

/-- A body item of the cache, with the method it was captured for. -/
structure StoredObject where
  head : Head
  body : List UInt8
  method : GoString

/-- A variant in a mapping record. -/
structure IndexEntry where
  varied : Header
  revalidated : Header

/-- The objects and the index. -/
structure Cache where
  objects : GoString → Option StoredObject
  index : GoString → GoString → Option IndexEntry

/-- Nothing is stored. -/
def Cache.empty : Cache := ⟨fun _ => none, fun _ _ => none⟩

/-- What happens to the cache. -/
inductive Event
  /-- A response is captured and committed. -/
  | fetch (access : Access) (origin : Origin) (capture : Capture)
  /-- A 304 of the origin refreshes a variant. -/
  | refresh (access : Access) (variedKey : GoString) (update : Header)
  /-- Eviction, expiry, a purge, a deletion or a corrupt file removes a body. -/
  | remove (variedKey : GoString)
  /-- A variant goes from a mapping record. -/
  | unlist (baseKey variedKey : GoString)

section System

variable (lib : HandlerLibrary) (siteID : GoString) (policy : Policy)

/-- The handler of the rule. -/
def Access.handler (a : Access) : Config :=
  govetoCacheHandler siteID policy a.rule a.scope a.debugMode

/-- The range of a GET or HEAD request that reaches its handler and is not
passed on for its credentials. -/
def Access.range (a : Access) : Option (Option Spec) :=
  if policy.devMode ∨ a.rule ∉ policy.rules ∨
      (a.request.method ≠ methodGet ∧ a.request.method ≠ methodHead) ∨
      a.request.header.get (lit "Authorization") ≠ [] then none
  else route lib.toLibrary policy a.rule a.request

/-- The text of the base key. -/
def Access.baseRaw (a : Access) : GoString :=
  cacheKey lib.lowerRune (a.handler siteID policy).toHandler a.request none

/-- The key the index is asked for. -/
def Access.baseKey (a : Access) : GoString :=
  storageKey lib (a.handler siteID policy) (a.baseRaw lib siteID policy)

/-- The key of a variant. -/
def Access.variedKey (a : Access) (varied : Header) : GoString :=
  storageKey lib (a.handler siteID policy)
    (cacheKey lib.lowerRune (a.handler siteID policy).toHandler a.request (some varied))

/-- The header of a response that is passed on while it is captured, unless it
is found uncacheable or a precondition suppresses it. -/
def streamedHeader (a : Access) (origin : Origin) : Option Header :=
  let h := a.handler siteID policy
  let header := prepareResponse lib h origin.header origin.status
  if cacheable h origin.status header (declaredResponseSize header) ∧
      (variedHeaders h.toHandler a.request header).isSome ∧
      (HttpConditions.status lib.parseTime a.request origin.status header).isNone then
    some (setResultHeaders lib h header (lit "MISS") (a.baseRaw lib siteID policy)
      (ttl h origin.status))
  else none

/-- The head and the vary list of a captured response, after the whole body is
there. -/
def admitSpooled (a : Access) (origin : Origin) (header : Header) : Option (Head × Header) := do
  let h := a.handler siteID policy
  let header := prepareResponse lib h header origin.status
  let varied ← variedHeaders h.toHandler a.request header
  if cacheable h origin.status header origin.body.length then
    some (serializedHeader origin.status (cacheStorageHeader h header) origin.body.length
      a.request.method, varied)
  else none

/-- The head written to the encoder before the body, which then has to have
the declared length. -/
def admitEncoded (a : Access) (origin : Origin) : Option (Head × Header) := do
  let h := a.handler siteID policy
  let header ← streamedHeader lib siteID policy a origin
  let varied ← variedHeaders h.toHandler a.request
    (prepareResponse lib h origin.header origin.status)
  let size := declaredResponseSize header
  if a.request.method ≠ methodHead ∧ origin.status ≠ 204 ∧ size > 0 ∧
      !hasDeclaredTrailer header ∧ origin.body.length = size ∧
      cacheable h origin.status header origin.body.length then
    some (serializedHeader origin.status (cacheStorageHeader h header) size a.request.method,
      varied)
  else none

/-- What `fetchAndServe` and `refresh` store of a response. -/
def stored (a : Access) (origin : Origin) (capture : Capture) : Option (Head × Header) :=
  if responseIncomplete a.request.method origin.status origin.header origin.body.length ∨
      staleEligibleStatus origin.status then none
  else
    match capture with
    | .spooled => admitSpooled lib siteID policy a origin origin.header
    | .streamed => do
      let header ← streamedHeader lib siteID policy a origin
      admitSpooled lib siteID policy a origin header
    | .encoded => admitEncoded lib siteID policy a origin

/-- A response is filed. -/
def Cache.put (cache : Cache) (baseKey variedKey : GoString) (object : StoredObject)
    (entry : IndexEntry) : Cache where
  objects key := if key = variedKey then some object else cache.objects key
  index base key := if base = baseKey ∧ key = variedKey then some entry else cache.index base key

/-- A lookup takes variants whose recorded values the request repeats. -/
def variantMatches (varied : Header) (request : Request) : Bool :=
  varied.entries.all fun (name, values) => request.header.get name = join values (lit ", ")

/-- One event. -/
def step (cache : Cache) : Event → Option Cache
  | .fetch a origin capture => do
    let _ ← a.range lib policy
    let (head, varied) ← stored lib siteID policy a origin capture
    some (cache.put (a.baseKey lib siteID policy) (a.variedKey lib siteID policy varied)
      ⟨head, origin.body, a.request.method⟩ ⟨varied, noHeader⟩)
  | .refresh a variedKey update => do
    let _ ← a.range lib policy
    let base := a.baseKey lib siteID policy
    let entry ← cache.index base variedKey
    if variantMatches entry.varied a.request ∧ (cache.objects variedKey).isSome then
      some { cache with
        index := fun b key =>
          if b = base ∧ key = variedKey then
            some { entry with revalidated := merge304Headers entry.revalidated update }
          else cache.index b key }
    else none
  | .remove variedKey =>
    some { cache with objects := fun key => if key = variedKey then none else cache.objects key }
  | .unlist baseKey variedKey =>
    some { cache with
      index := fun b key => if b = baseKey ∧ key = variedKey then none else cache.index b key }

/-- A lookup that finds the variant: its opened body under the updated
header. -/
def lookup (cache : Cache) (a : Access) (variedKey : GoString) : Option Response := do
  let entry ← cache.index (a.baseKey lib siteID policy) variedKey
  let object ← cache.objects variedKey
  if variantMatches entry.varied a.request then
    let template ← object.head.reread
    let response := readHTTPResponse template object.body a.request.method
    some { response with header := merge304Headers response.header entry.revalidated }
  else none

/-- The response that is served: the one found, or after a 304 of the origin
(`handleNotModified`) the one found under the updated header. -/
def Access.served (a : Access) (response : Response) : Option Header → Response
  | none => response
  | some update =>
    { response with
      header := prepareResponse lib (a.handler siteID policy)
        (merge304Headers response.header update) response.status }

/-- A response whose stored head can be opened for a GET with all of its
body. -/
structure StoredObject.Whole (o : StoredObject) (template : Template) : Prop where
  reread : o.head.reread = some template
  held : Held template.status
  length : template.contentLength = o.body.length
  announces : Announces template.header o.body
  spans : SpansBody ⟨template.status, template.header, 0, .noBody⟩ o.body

variable {a : Access} {capture : Capture} {head : Head} {origin : Origin} {varied : Header}
  {cache : Cache}

/-- **Whatever the way it was captured**, the stored head is written for the
status and the size of the response, and its range is that of the origin. -/
theorem stored_eq (h : stored lib siteID policy a origin capture = some (head, varied)) :
    Held origin.status ∧ ∃ header,
      header.values contentRangeName = origin.header.values contentRangeName ∧
      head = serializedHeader origin.status header origin.body.length a.request.method := by
  have hspooled : ∀ header, SameTransfer header origin.header →
      admitSpooled lib siteID policy a origin header = some (head, varied) →
      Held origin.status ∧ ∃ header,
        header.values contentRangeName = origin.header.values contentRangeName ∧
        head = serializedHeader origin.status header origin.body.length a.request.method := by
    intro header hsame h
    obtain ⟨v, _, h⟩ := bind_eq_some_iff.mp h
    obtain ⟨hcacheable, h⟩ := ite_none_right_eq_some.mp h
    obtain ⟨rfl, _⟩ := Prod.ext_iff.mp (Option.some.inj h)
    refine ⟨held_of_cacheableStatus (of_decide_eq_true hcacheable).1, _, ?_, rfl⟩
    exact ((sameTransfer_cacheStorageHeader _ _).trans
      ((sameTransfer_prepareResponse lib _ _ _).trans hsame)).range
  have hstreamed : ∀ header, streamedHeader lib siteID policy a origin = some header →
      SameTransfer header origin.header := by
    intro header h
    unfold streamedHeader at h
    dsimp only at h
    split at h
    · cases h
      exact (sameTransfer_setResultHeaders lib _ _ _ _ _).trans
        (sameTransfer_prepareResponse lib _ _ _)
    · cases h
  unfold stored at h
  obtain ⟨-, h⟩ := ite_none_left_eq_some.mp h
  cases capture with
  | spooled => exact hspooled _ (.refl _) h
  | streamed =>
    obtain ⟨header, hheader, h⟩ := bind_eq_some_iff.mp h
    exact hspooled header (hstreamed header hheader) h
  | encoded =>
    obtain ⟨header, hheader, h⟩ := bind_eq_some_iff.mp h
    obtain ⟨v, _, h⟩ := bind_eq_some_iff.mp h
    dsimp only at h
    obtain ⟨hguard, h⟩ := ite_none_right_eq_some.mp h
    obtain ⟨rfl, _⟩ := Prod.ext_iff.mp (Option.some.inj h)
    refine ⟨held_of_cacheableStatus (of_decide_eq_true hguard.2.2.2.2.2).1, _, ?_,
      by rw [hguard.2.2.2.2.1]⟩
    exact ((sameTransfer_cacheStorageHeader _ _).trans (hstreamed header hheader)).range

/-- The two ways to go wrong: a response to HEAD filed under a key without the
method, and a partial response whose range is not its body. -/
def Clean : Event → Prop
  | .fetch a origin _ =>
    (a.request.method = methodHead → cacheKeyPartMethod ∈ policy.cacheKey.parts) ∧
      (a.request.method ≠ methodHead → origin.status = 206 →
        SpansBody ⟨origin.status, origin.header, 0, .noBody⟩ origin.body)
  | _ => True

/-- A response to another method than HEAD is stored as a whole. -/
theorem stored_whole (h : stored lib siteID policy a origin capture = some (head, varied))
    (hclean : Clean policy (.fetch a origin capture)) (hmethod : a.request.method ≠ methodHead) :
    ∃ template, StoredObject.Whole ⟨head, origin.body, a.request.method⟩ template := by
  obtain ⟨hheld, header, hrange, rfl⟩ := stored_eq lib siteID policy h
  have hbound : origin.body.length < 2 ^ 64 := lt_trans origin.bounded (by decide)
  obtain ⟨template, hreread, hstatus, hlength, hann, htrange⟩ :=
    reread_serializedHeader header hmethod hbound origin.bodylessEmpty
  refine ⟨template, hreread, hstatus ▸ hheld, hlength, hann, ?_⟩
  by_cases h206 : origin.status = 206
  · have hsame : cachedBodyRange ⟨template.status, template.header, 0, .noBody⟩ =
        cachedBodyRange ⟨origin.status, origin.header, 0, .noBody⟩ :=
      cachedBodyRange_partial (hstatus.trans h206) h206 (htrange.trans hrange)
    intro start stop total hspan
    exact hclean.2 hmethod h206 start stop total (hsame ▸ hspan)
  · exact spansBody_of_status (by rw [hstatus]; exact h206) hbound hann

/-- Everything that is filed is filed under the keys of some request, objects
with its method; without the method in the key there are only objects of GET.
What was not captured for HEAD is whole. -/
structure Inv (cache : Cache) : Prop where
  index : ∀ base key entry, cache.index base key = some entry → ∃ (a : Access) (varied : Header),
    base = a.baseKey lib siteID policy ∧ key = a.variedKey lib siteID policy varied
  objects : ∀ key o, cache.objects key = some o → ∃ (a : Access) (varied : Header),
    key = a.variedKey lib siteID policy varied ∧ o.method = a.request.method
  methods : ∀ key o, cache.objects key = some o → o.method = methodGet ∨
    (o.method = methodHead ∧ cacheKeyPartMethod ∈ policy.cacheKey.parts)
  whole : ∀ key o, cache.objects key = some o → o.method ≠ methodHead →
    ∃ template, o.Whole template

/-- The empty cache. -/
theorem inv_empty : Inv lib siteID policy Cache.empty where
  index base key entry h := by cases h
  objects key o h := by cases h
  methods key o h := by cases h
  whole key o h := by cases h

/-- Only GET and HEAD reach the cache. -/
theorem method_of_range {range : Option Spec} (h : a.range lib policy = some range) :
    a.request.method = methodGet ∨ a.request.method = methodHead := by
  unfold Access.range at h
  split at h
  · cases h
  · rename_i hguard
    grind

/-- Filing a response keeps the invariant. -/
theorem Inv.put (hinv : Inv lib siteID policy cache) {range : Option Spec}
    (hrange : a.range lib policy = some range)
    (hstored : stored lib siteID policy a origin capture = some (head, varied))
    (hclean : Clean policy (.fetch a origin capture)) :
    Inv lib siteID policy (cache.put (a.baseKey lib siteID policy)
      (a.variedKey lib siteID policy varied) ⟨head, origin.body, a.request.method⟩
      ⟨varied, noHeader⟩) where
  index base key entry h := by
    unfold Cache.put at h
    dsimp only at h
    split at h
    · rename_i heq
      exact ⟨a, varied, heq⟩
    · exact hinv.index base key entry h
  objects key o h := by
    unfold Cache.put at h
    dsimp only at h
    split at h
    · rename_i heq
      cases h
      exact ⟨a, varied, heq, rfl⟩
    · exact hinv.objects key o h
  methods key o h := by
    unfold Cache.put at h
    dsimp only at h
    split at h
    · cases h
      rcases method_of_range lib policy hrange with hget | hhead
      · exact .inl hget
      · exact .inr ⟨hhead, hclean.1 hhead⟩
    · exact hinv.methods key o h
  whole key o h := by
    unfold Cache.put at h
    dsimp only at h
    split at h
    · cases h
      exact stored_whole lib siteID policy hstored hclean
    · exact hinv.whole key o h

/-- A cache with fewer objects under an index of the same keys. -/
theorem Inv.shrink {smaller : Cache} (hinv : Inv lib siteID policy cache)
    (hindex : ∀ base key entry, smaller.index base key = some entry → ∃ old, cache.index base key =
      some old)
    (hobjects : ∀ key o, smaller.objects key = some o → cache.objects key = some o) :
    Inv lib siteID policy smaller where
  index base key entry h := by
    obtain ⟨old, hold⟩ := hindex base key entry h
    exact hinv.index base key old hold
  objects key o h := hinv.objects key o (hobjects key o h)
  methods key o h := hinv.methods key o (hobjects key o h)
  whole key o h := hinv.whole key o (hobjects key o h)

/-- **Every clean event keeps the invariant.** -/
theorem Inv.step {next : Cache} {event : Event} (hinv : Inv lib siteID policy cache)
    (hclean : Clean policy event) (hstep : step lib siteID policy cache event = some next) :
    Inv lib siteID policy next := by
  cases event with
  | fetch a origin capture =>
    obtain ⟨range, hrange, h⟩ := bind_eq_some_iff.mp hstep
    obtain ⟨⟨head, varied⟩, hstored, h⟩ := bind_eq_some_iff.mp h
    cases h
    exact hinv.put lib siteID policy hrange hstored hclean
  | refresh a variedKey update =>
    obtain ⟨_, _, h⟩ := bind_eq_some_iff.mp hstep
    obtain ⟨entry, hentry, h⟩ := bind_eq_some_iff.mp h
    split at h
    · cases h
      apply hinv.shrink
      · intro base key e he
        dsimp only at he
        split at he
        · rename_i heq
          exact ⟨entry, by rw [heq.1, heq.2]; exact hentry⟩
        · exact ⟨e, he⟩
      · exact fun _ _ h => h
    · cases h
  | remove variedKey =>
    cases hstep
    apply hinv.shrink
    · exact fun _ _ e h => ⟨e, h⟩
    · intro key o h
      dsimp only at h
      split at h
      · cases h
      · exact h
  | unlist baseKey variedKey =>
    cases hstep
    apply hinv.shrink
    · intro base key e h
      dsimp only at h
      split at h
      · cases h
      · exact ⟨e, h⟩
    · exact fun _ _ h => h

/-- Keys of the site's handlers are equal only if their texts are. -/
theorem storageKey_inj (hdigest : Injective lib.digest) {b : Access} {s t : GoString}
    (h : storageKey lib (a.handler siteID policy) s = storageKey lib (b.handler siteID policy) t) :
    s = t := by
  have ha : (a.handler siteID policy).hashKey = policy.cacheKey.hash := rfl
  have hb : (b.handler siteID policy).hashKey = policy.cacheKey.hash := rfl
  rw [storageKey, storageKey, ha, hb] at h
  cases hhash : policy.cacheKey.hash with
  | false => simpa [hhash] using h
  | true => exact hdigest (by simpa [hhash] using h)

/-- **What a GET finds was captured for a GET.** -/
theorem Inv.method_of_lookup (hinv : Inv lib siteID policy cache)
    (hdigest : Injective lib.digest) (hget : a.request.method = methodGet)
    {variedKey : GoString} {entry : IndexEntry} {o : StoredObject}
    (hentry : cache.index (a.baseKey lib siteID policy) variedKey = some entry)
    (ho : cache.objects variedKey = some o) : o.method = methodGet := by
  rcases hinv.methods _ _ ho with h | ⟨_, hpart⟩
  · exact h
  · -- base key and variant key both carry the method
    obtain ⟨b, varied, hbase, hkey⟩ := hinv.index _ _ _ hentry
    obtain ⟨c, varied', hkey', hmethod⟩ := hinv.objects _ _ ho
    have hab : a.request.method = b.request.method :=
      method_eq_of_cacheKey_eq hpart (storageKey_inj lib siteID policy hdigest hbase)
    have hbc : b.request.method = c.request.method :=
      method_eq_of_cacheKey_eq hpart
        (storageKey_inj lib siteID policy hdigest (hkey.symm.trans hkey'))
    rw [hmethod, ← hbc, ← hab, hget]

/-- The length and the range of a response are all that its body depends on. -/
theorem opened_congr {response : Response} {header : Header} {data : List UInt8}
    (h : response.Opened data) (hsame : SameTransfer header response.header) :
    Response.Opened { response with header } data := by
  refine ⟨?_, h.body, h.spans.congr rfl hsame⟩
  rw [Announces, hsame.length]
  exact h.announces

/-- A 304 leaves the body as it is. -/
theorem opened_served {response : Response} {data : List UInt8} (h : response.Opened data)
    (update : Option Header) : (a.served lib siteID policy response update).Opened data := by
  cases update with
  | none => exact h
  | some update =>
    exact opened_congr h ((sameTransfer_prepareResponse lib _ _ _).trans
      (sameTransfer_merge304Headers _ update))

theorem status_served (response : Response) (update : Option Header) :
    (a.served lib siteID policy response update).status = response.status := by
  cases update <;> rfl

/-- What a lookup of the whole entry opens. -/
theorem opened_of_whole {o : StoredObject} {template : Template} (hwhole : o.Whole template)
    {method : GoString} (hmethod : method ≠ methodHead) (update : Header) :
    let response := readHTTPResponse template o.body method
    Response.Opened { response with header := merge304Headers response.header update } o.body ∧
      Held response.status := by
  have hstatus : (readHTTPResponse template o.body method).status = template.status := by
    unfold readHTTPResponse
    split <;> rfl
  have hread : SameTransfer (readHTTPResponse template o.body method).header template.header := by
    unfold readHTTPResponse
    split
    · exact sameTransfer_del (by decide)
    · exact .refl _
  have hopened := readHTTPResponse_opened hmethod hwhole.length hwhole.announces
    (hwhole.spans.congr hstatus hread)
  exact ⟨opened_congr hopened (sameTransfer_merge304Headers _ update), hstatus ▸ hwhole.held⟩

/-- **A GET answered from the cache gets as many bytes as are announced, from
an entry captured for a GET**, also if a 304 updates it first: in every history from
the empty cache in which responses to HEAD are stored only under keys with the method
in them, and partial responses only with a range that is their body. -/
theorem get_hits_complete (hdigest : Injective lib.digest) {raw : Policy}
    (_haccepted : normalizeAndValidate lib.toLibrary raw = .ok policy) {events : List Event}
    {cache : Cache} (hclean : ∀ event ∈ events, Clean policy event)
    (hrun : run (step lib siteID policy) Cache.empty events = some cache)
    {a : Access} {range : Option Spec} (_hrange : a.range lib policy = some range)
    (hget : a.request.method = methodGet) {variedKey : GoString} {response : Response}
    (hhit : lookup lib siteID policy cache a variedKey = some response)
    (update : Option Header) (label : Label) :
    (∃ o, cache.objects variedKey = some o ∧ o.method = methodGet) ∧
      ∃ delivery, serveCached lib (a.handler siteID policy) a.request range
          (a.served lib siteID policy response update) (a.baseRaw lib siteID policy) label =
            some delivery ∧
        Announces delivery.header delivery.body := by
  have hinv : Inv lib siteID policy cache :=
    run_invariant_forall (fun _ _ _ hs hevent hst => hs.step lib siteID policy hevent hst)
      (inv_empty lib siteID policy) hclean hrun
  obtain ⟨entry, hentry, h⟩ := bind_eq_some_iff.mp hhit
  obtain ⟨o, ho, h⟩ := bind_eq_some_iff.mp h
  have hmethod := hinv.method_of_lookup lib siteID policy hdigest hget hentry ho
  have hne : methodGet ≠ methodHead := by decide
  obtain ⟨template, hwhole⟩ := hinv.whole _ _ ho (hmethod ▸ hne)
  refine ⟨⟨o, ho, hmethod⟩, ?_⟩
  split at h
  · rw [hwhole.reread] at h
    cases h
    obtain ⟨hopened, hheld⟩ := opened_of_whole hwhole (hget ▸ hne) entry.revalidated
    exact serveCached_announces lib _ (opened_served lib siteID policy hopened update)
      ((status_served lib siteID policy _ update).symm ▸ hheld) (hget ▸ hne) _ label
  · cases h

end System

/-- Libraries that leave every text as it is. -/
def plainLibrary : HandlerLibrary where
  lowerRune := id
  upperRune := id
  quote := id
  compileError _ := none
  matchString _ _ := true
  digest := id
  parseTime _ := none

/-- A rule for all requests. -/
def everything : CacheRule where
  name := lit "all"
  ttl := { defaultSeconds := 60, status := [], overrideClientTTL := false, clientSeconds := 0 }
  conditions :=
    { groupOperator := lit "OR"
      groups :=
        [{ operator := lit "OR", rules := [{ type := lit "ALL", value := [], values := [] }] }] }

/-- The default policy with that rule and the given parts of the key. -/
def policyWith (parts : List GoString) : Policy :=
  { defaultCachePolicy with
    rules := [everything]
    cacheKey := { defaultCachePolicy.cacheKey with parts } }

/-- A request for `/a`. -/
def requestFor (method : GoString) : Access where
  rule := everything
  scope := []
  debugMode := false
  request :=
    { method
      url := { scheme := [], path := lit "/a", rawPath := [], rawQuery := [] }
      tls := false
      host := lit "example"
      header := noHeader
      cookies := [] }

/-- A response that declares five bytes. -/
def fiveBytes (body : List UInt8) (h : body.length < 2 ^ 63) : Origin where
  status := 200
  header := noHeader.set contentLengthName (lit "5")
  body
  bodylessEmpty hbodyless := absurd hbodyless (by decide)
  bounded := h

/-- A hit of a GET for `/a` on the variant that a request of some method has
stored: the method, the announced length and the body. -/
def hitAfter (policy : Policy) (events : List Event) (method : GoString) :
    Option (GoString × List GoString × List UInt8) := do
  let cache ← run (step plainLibrary (lit "s") policy) Cache.empty events
  let response ← lookup plainLibrary (lit "s") policy cache (requestFor methodGet)
    ((requestFor method).variedKey plainLibrary (lit "s") policy noHeader)
  let delivery ← serveCached plainLibrary ((requestFor methodGet).handler (lit "s") policy)
    (requestFor methodGet).request none response
    ((requestFor methodGet).baseRaw plainLibrary (lit "s") policy) ⟨lit "HIT", 60, 0⟩
  let object ← cache.objects ((requestFor method).variedKey plainLibrary (lit "s") policy noHeader)
  some (object.method, delivery.header.values contentLengthName, delivery.body)

/-- What such a hit is made of. -/
theorem hitAfter_eq_some {policy : Policy} {events : List Event} {method m : GoString}
    {lengths : List GoString} {body : List UInt8}
    (h : hitAfter policy events method = some (m, lengths, body)) :
    ∃ cache response delivery o,
      run (step plainLibrary (lit "s") policy) Cache.empty events = some cache ∧
      lookup plainLibrary (lit "s") policy cache (requestFor methodGet)
        ((requestFor method).variedKey plainLibrary (lit "s") policy noHeader) = some response ∧
      serveCached plainLibrary ((requestFor methodGet).handler (lit "s") policy)
        (requestFor methodGet).request none response
        ((requestFor methodGet).baseRaw plainLibrary (lit "s") policy) ⟨lit "HIT", 60, 0⟩ =
          some delivery ∧
      cache.objects ((requestFor method).variedKey plainLibrary (lit "s") policy noHeader) =
        some o ∧
      o.method = m ∧ delivery.header.values contentLengthName = lengths ∧
      delivery.body = body := by
  obtain ⟨cache, hrun, h⟩ := bind_eq_some_iff.mp h
  obtain ⟨response, hlookup, h⟩ := bind_eq_some_iff.mp h
  obtain ⟨delivery, hserve, h⟩ := bind_eq_some_iff.mp h
  obtain ⟨o, ho, h⟩ := bind_eq_some_iff.mp h
  simp only [Option.some.injEq, Prod.mk.injEq] at h
  exact ⟨cache, response, delivery, o, hrun, hlookup, hserve, ho, h⟩

theorem get_hits_complete_five_bytes :
    ∃ cache response, run (step plainLibrary (lit "s") (policyWith keyPartOrder)) Cache.empty
        [.fetch (requestFor methodHead) (fiveBytes [] (by decide)) .streamed,
          .fetch (requestFor methodGet) (fiveBytes [1, 2, 3, 4, 5] (by decide)) .encoded] =
          some cache ∧
      lookup plainLibrary (lit "s") (policyWith keyPartOrder) cache (requestFor methodGet)
        ((requestFor methodGet).variedKey plainLibrary (lit "s") (policyWith keyPartOrder)
          noHeader) = some response ∧
      ∃ delivery, serveCached plainLibrary
          ((requestFor methodGet).handler (lit "s") (policyWith keyPartOrder))
          (requestFor methodGet).request none
          ((requestFor methodGet).served plainLibrary (lit "s") (policyWith keyPartOrder) response
            (some (noHeader.set (lit "Etag") (lit "b"))))
          ((requestFor methodGet).baseRaw plainLibrary (lit "s") (policyWith keyPartOrder))
          ⟨lit "HIT", 60, 0⟩ = some delivery ∧ Announces delivery.header delivery.body := by
  have hhit : hitAfter (policyWith keyPartOrder)
      [.fetch (requestFor methodHead) (fiveBytes [] (by decide)) .streamed,
        .fetch (requestFor methodGet) (fiveBytes [1, 2, 3, 4, 5] (by decide)) .encoded] methodGet =
      some (methodGet, [lit "5"], [1, 2, 3, 4, 5]) := by decide +kernel
  obtain ⟨cache, response, _, _, hrun, hlookup, _⟩ := hitAfter_eq_some hhit
  have haccepted : normalizeAndValidate plainLibrary.toLibrary (policyWith keyPartOrder) =
      .ok (policyWith keyPartOrder) := rfl
  refine ⟨cache, response, hrun, hlookup, (get_hits_complete plainLibrary (lit "s")
    (policyWith keyPartOrder) injective_id haccepted ?_ hrun rfl rfl hlookup _ _).2⟩
  intro event hevent
  have hparts : cacheKeyPartMethod ∈ (policyWith keyPartOrder).cacheKey.parts := by decide
  have h206 : (200 : Nat) ≠ 206 := by decide
  rcases List.mem_cons.mp hevent with rfl | hevent
  · exact ⟨fun _ => hparts, fun _ h => absurd h h206⟩
  · obtain rfl := List.mem_singleton.mp hevent
    exact ⟨fun _ => hparts, fun _ h => absurd h h206⟩

/-- **A GET gets the length of a HEAD and no body.**  The policy passes
validation with a key made of the path alone. -/
theorem bodiless_hit :
    ∃ (policy : Policy) (cache : Cache) (variedKey : GoString) (response : Response)
      (delivery : Delivery),
      normalizeAndValidate plainLibrary.toLibrary policy = .ok policy ∧
      run (step plainLibrary (lit "s") policy) Cache.empty
        [.fetch (requestFor methodHead) (fiveBytes [] (by decide)) .streamed] = some cache ∧
      (requestFor methodGet).range plainLibrary policy = some none ∧
      lookup plainLibrary (lit "s") policy cache (requestFor methodGet) variedKey =
        some response ∧
      serveCached plainLibrary ((requestFor methodGet).handler (lit "s") policy)
        (requestFor methodGet).request none response
        ((requestFor methodGet).baseRaw plainLibrary (lit "s") policy) ⟨lit "HIT", 60, 0⟩ =
          some delivery ∧
      (∃ o, cache.objects variedKey = some o ∧ o.method = methodHead) ∧
      delivery.header.values contentLengthName = [lit "5"] ∧ delivery.body = [] := by
  have hhit : hitAfter (policyWith [cacheKeyPartPath])
      [.fetch (requestFor methodHead) (fiveBytes [] (by decide)) .streamed] methodHead =
      some (methodHead, [lit "5"], []) := by decide +kernel
  obtain ⟨cache, response, delivery, o, hrun, hlookup, hserve, ho, hmethod, hlengths⟩ :=
    hitAfter_eq_some hhit
  exact ⟨policyWith [cacheKeyPartPath], cache, _, response, delivery, rfl, hrun, rfl, hlookup,
    hserve, ⟨o, ho, hmethod⟩, hlengths⟩

end CacheHistory
