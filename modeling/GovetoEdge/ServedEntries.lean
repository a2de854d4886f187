import GovetoEdge.CacheHistory
import GovetoEdge.CachedRanges
import GovetoEdge.PreparedControl

/-!
# Entries that are served and renewed

`serveCached` selects a range of every entry with a length, whatever its status.  A
304 renews an entry under fields that are merged but not prepared, while the response
that goes out with it, and any full response, is prepared first.

* `range_ignored_iff`: when an entry that is neither a full nor a partial
  response is served as it was stored;
* `kept_admissible_iff`: when an entry that a 304 keeps would have been admitted as a
  full response;
* `later_control_iff`: when later hits carry the `Cache-Control` that was served with
  the 304.
-/

namespace ServedEntries

open GoStrings HttpHeaders CacheKeys CachePolicy CacheControl CacheMatching CachedResponses List
open CacheHandler CachedRanges HttpConditions
open CacheHistory (plainLibrary)

/-- A GET for `/a` under the default policy with a rule for all requests. -/
def pageRequest : CacheHistory.Access := CacheHistory.requestFor methodGet

/-- The default policy, for everything. -/
def pagePolicy : Policy := CacheHistory.policyWith defaultCachePolicy.cacheKey.parts

/-- Its handler. -/
def pageHandler : Config := pageRequest.handler (lit "s") pagePolicy

/-- The same with a bypass directive. -/
def bypassHandler : Config :=
  pageRequest.handler (lit "s") { pagePolicy with bypassCacheControl := [lit "no-transform"] }

def pageKey : GoString := pageRequest.variedKey plainLibrary (lit "s") pagePolicy noHeader

/-- The cache with one entry. -/
def cacheOf (object : CacheHistory.StoredObject) : CacheHistory.Cache :=
  CacheHistory.Cache.empty.put (pageRequest.baseKey plainLibrary (lit "s") pagePolicy) pageKey
    object ⟨noHeader, noHeader⟩

/-- A stored response of one byte. -/
def onePage : Response := ⟨200, noHeader, 1, .pooled [1] 1⟩

def noTransform : Header := noHeader.set (lit "Cache-Control") (lit "no-transform")

/-- The range `bytes=0-1`. -/
def firstTwo : Spec := ⟨0, 1, 0, by decide⟩

section Ranges

variable (lib : HandlerLibrary) (h : Config) {status : Nat} {data : List UInt8}

/-- A precondition that ends a request changes a status that the cache holds. -/
theorem status_ne_of_precondition {request : Request} {header : Header} {result : Nat}
    (h : HttpConditions.status lib.parseTime request status header = some result) :
    result ≠ status := by
  have hsuccess : 200 ≤ status ∧ status < 300 := by
    unfold HttpConditions.status at h
    split at h
    · cases h
    · omega
  rcases HttpConditions.status_eq_some _ h with rfl | rfl <;> omega

theorem lookup_put (header : Header) (key name : GoString) (values : List GoString) :
    (header.put key values).entries.lookup name =
      if name = key then some values else header.entries.lookup name := by
  rw [Header.put, lookup_cons, lookup_erase]
  by_cases hname : name = key
  · simp [hname]
  · rw [show (name == key) = false by simpa using hname, if_neg hname, if_neg hname]

/-- An update of a field that a 304 may change counts; the others do not. -/
theorem lookup_merge304Headers (target update : Header) (name : GoString) :
    (merge304Headers target update).entries.lookup name =
      if name ∈ updatedNames then
        (update.entries.lookup name).or (target.entries.lookup name)
      else target.entries.lookup name := by
  unfold merge304Headers
  generalize updatedNames = names
  induction names generalizing target with
  | nil => simp
  | cons n names ih =>
    rw [foldl_cons, ih]
    cases hn : update.entries.lookup n with
    | none =>
      by_cases hname : name = n
      · simp only [hname, mem_cons, true_or, hn, Option.none_or, ite_self]
      · simp only [hname, mem_cons, false_or]
    | some values =>
      rw [lookup_put]
      by_cases hname : name = n
      · simp only [hname, mem_cons, true_or, if_true, hn, Option.some_or, ite_self]
      · simp only [hname, mem_cons, false_or, if_false]

/-- A range leaves the status of a response that is not partial exactly if the
response announces no length. -/
theorem applyCachedRange_status_iff {response : Response} (hprt : response.status ≠ 206)
    (hrefused : response.status ≠ 416) (requested : Spec) :
    (∃ answer, applyCachedRange response requested = some answer ∧
        answer.status = response.status) ↔
      cachedBodyRange response = none := by
  cases hrange : cachedBodyRange response with
  | none => simp [applyCachedRange, hrange]
  | some range =>
    obtain ⟨start, stop, total⟩ := range
    -- the range of a whole body
    obtain ⟨rfl, rfl, htotal⟩ : start = 0 ∧ stop = total - 1 ∧ 0 < total := by
      rw [cachedBodyRange, if_neg hprt] at hrange
      split at hrange
      · split at hrange
        · cases hrange
        · cases hrange
          exact ⟨rfl, rfl, by omega⟩
      · cases hrange
    refine iff_of_false ?_ (Option.some_ne_none _)
    rintro ⟨answer, hanswer, hstatus⟩
    rw [applyCachedRange, hrange] at hanswer
    dsimp only at hanswer
    split_ifs at hanswer with hend hout
    · cases hanswer
      exact hrefused hstatus.symm
    · omega
    · obtain ⟨body, -, hanswer⟩ := Option.bind_eq_some_iff.mp hanswer
      cases hanswer
      exact hprt hstatus.symm

section Entries

open CacheHistory

variable {siteID : GoString} {policy : Policy} {cache : Cache} {variedKey : GoString}

/-- **Other responses than 200 and 206.**  An entry of such a status, stored for any
method and updated by any 304s, is served to a range request with the status, the
length and the body that are stored exactly if no precondition ends the request and
the request is a HEAD, `If-Range` does not let the range through, or the stored head
announces no bytes. -/
theorem range_ignored_iff {a : Access} {object : StoredObject} {template : Template}
    {response : Response} (requested : Spec) (key : GoString) (label : Label)
    (hobject : cache.objects variedKey = some object)
    (htemplate : object.head.reread = some template)
    (hstored : template.status ∈ cacheableStatus)
    (hother : template.status ≠ 200 ∧ template.status ≠ 206)
    (hlookup : lookup lib siteID policy cache a variedKey = some response) :
    (∃ delivery, serveCached lib h a.request (some requested) response key label =
          some delivery ∧
        delivery.status = template.status ∧
        delivery.header.values contentLengthName = template.header.values contentLengthName ∧
        (a.request.method ≠ methodHead →
          delivery.body = object.body.take template.contentLength)) ↔
      HttpConditions.status lib.parseTime a.request template.status response.header = none ∧
        (a.request.method = methodHead ∨
          rangeAllowed lib.parseTime a.request response.header = false ∨
          ∀ n, parseUint (template.header.get contentLengthName) = (n, true) → n = 0) := by
  obtain ⟨entry, -, hlookup⟩ := Option.bind_eq_some_iff.mp hlookup
  obtain ⟨object', hobject', hlookup⟩ := Option.bind_eq_some_iff.mp hlookup
  obtain rfl := Option.some.inj (hobject.symm.trans hobject')
  obtain ⟨-, hlookup⟩ := Option.ite_none_right_eq_some.mp hlookup
  obtain ⟨template', htemplate', hlookup⟩ := Option.bind_eq_some_iff.mp hlookup
  obtain rfl := Option.some.inj (htemplate.symm.trans htemplate')
  -- what is opened has the status, the length and the body that are stored
  have hstatus : response.status = template.status := by
    cases hlookup
    unfold readHTTPResponse
    split <;> rfl
  have hvalues : response.header.values contentLengthName =
      template.header.values contentLengthName := by
    cases hlookup
    have hkept : lit "Content-Length" ∉ updatedNames := by decide
    have hread : (readHTTPResponse template object.body a.request.method).header.values
        contentLengthName = template.header.values contentLengthName := by
      unfold readHTTPResponse
      split
      · exact values_del_of_ne (by decide)
      · rfl
    show (List.lookup (lit "Content-Length") (merge304Headers _ _).entries).getD [] = _
    rw [lookup_merge304Headers, if_neg hkept]
    exact hread
  have hbody : a.request.method ≠ methodHead →
      response.body.delivered = object.body.take template.contentLength := by
    intro hmethod
    cases hlookup
    unfold readHTTPResponse
    split
    · next hnone => rw [hnone.resolve_right hmethod, take_zero]; rfl
    · rfl
  have hlength : cachedBodyRange response = none ↔
      ∀ n, parseUint (template.header.get contentLengthName) = (n, true) → n = 0 := by
    rw [cachedBodyRange, hstatus, if_neg hother.2, Header.get, hvalues, ← Header.get]
    split
    · next total htotal =>
      rw [htotal]
      simp
    · next hfalse =>
      rw [hfalse]
      simp
  have hheld : Held response.status := hstatus ▸ held_of_cacheableStatus hstored
  rw [← hstatus, ← hlength]
  constructor
  · rintro ⟨delivery, hdelivery, hsame, -⟩
    obtain ⟨answer, hselect, hanswer⟩ := Option.bind_eq_some_iff.mp hdelivery
    obtain rfl := (Option.some.inj hanswer).symm
    unfold selectResponse at hselect
    split at hselect
    · next hcondition =>
      cases hselect
      exact absurd hsame (status_ne_of_precondition lib hcondition)
    · next hcondition =>
      refine ⟨hcondition, ?_⟩
      dsimp only at hselect
      split at hselect
      · have hrefused : response.status ≠ 416 := by
          rw [hstatus]
          rintro heq
          rw [heq] at hstored
          exact absurd hstored (by decide)
        exact .inr (.inr ((applyCachedRange_status_iff (hstatus ▸ hother.2) hrefused requested).mp
          ⟨answer, hselect, hsame⟩))
      · next hranged =>
        rw [not_and_or, not_not, Bool.not_eq_true] at hranged
        exact hranged.imp_right .inl
  · rintro ⟨hcondition, hignored⟩
    have hselect : selectResponse lib a.request (some requested) response = some response := by
      rw [selectResponse, hcondition]
      dsimp only
      split
      · next hranged =>
        rcases hignored with hmethod | hrefused | hnone
        · exact absurd hmethod hranged.1
        · rw [hrefused] at hranged
          cases hranged.2
        · rw [applyCachedRange, hnone]
      · rfl
    refine ⟨_, by rw [serveCached, hselect]; rfl, rfl, ?_, fun hmethod => ?_⟩
    · exact (sameTransfer_labelHeader lib h _ _ _).length.trans hvalues
    · rw [if_neg (not_or.mpr ⟨hheld.1, not_or.mpr ⟨hheld.2, hmethod⟩⟩)]
      exact hbody hmethod

/-- A stored 404 with four bytes. -/
def errorPage : StoredObject :=
  ⟨serializedHeader 404 noHeader 4 methodGet, [1, 2, 3, 4], methodGet⟩

/-- The same request for a range of one version. -/
def versionRequest : Access :=
  { pageRequest with
    request := { pageRequest.request with
      header := noHeader.set (lit "If-Range") (lit "\"x\"") } }

/-- The stored 404 is served as it is when the range is for another version. -/
theorem range_ignored_version :
    ∃ response delivery, CacheHistory.lookup plainLibrary (lit "s") pagePolicy (cacheOf errorPage)
        versionRequest pageKey = some response ∧
      serveCached plainLibrary pageHandler versionRequest.request (some firstTwo) response []
        ⟨lit "HIT", 60, 0⟩ = some delivery ∧ delivery.status = 404 ∧
      delivery.body = [1, 2, 3, 4] := by
  have hopens : errorPage.head.reread.any fun template =>
      template.status = 404 ∧ template.contentLength = 4 := by
    decide +kernel
  obtain ⟨template, htemplate, hstored⟩ := (Option.any_eq_true _ _).mp hopens
  obtain ⟨hstatus, hlength⟩ := of_decide_eq_true hstored
  have hfound : (CacheHistory.lookup plainLibrary (lit "s") pagePolicy (cacheOf errorPage)
      versionRequest pageKey).any fun response =>
        HttpConditions.status plainLibrary.parseTime versionRequest.request 404 response.header =
            none ∧
          rangeAllowed plainLibrary.parseTime versionRequest.request response.header = false := by
    decide +kernel
  obtain ⟨response, hlookup, hresponse⟩ := (Option.any_eq_true _ _).mp hfound
  obtain ⟨hcondition, hrange⟩ := of_decide_eq_true hresponse
  have hobject : (cacheOf errorPage).objects pageKey = some errorPage := by
    show (if pageKey = pageKey then some errorPage else none) = some errorPage
    rw [if_pos rfl]
  obtain ⟨delivery, hdelivery, hsame, -, hbody⟩ := (range_ignored_iff plainLibrary pageHandler
    firstTwo [] ⟨lit "HIT", 60, 0⟩ hobject htemplate (by rw [hstatus]; decide)
    (by rw [hstatus]; decide) hlookup).mpr ⟨hstatus ▸ hcondition, .inr (.inl hrange)⟩
  refine ⟨response, delivery, hlookup, hdelivery, hsame.trans hstatus, ?_⟩
  rw [hbody (by decide), hlength]
  rfl

end Entries

/-- **A range is cut out of an error page.**  A stored 404 with four bytes, asked for
by `bytes=0-1`, is served as 206 with two of them. -/
theorem error_page_sliced :
    parseCacheableRange (lit "bytes=0-1") = some firstTwo ∧
      (((serializedHeader 404 noHeader 4 methodGet).reread.bind fun template =>
        serveCached plainLibrary pageHandler pageRequest.request
          (some firstTwo) (readHTTPResponse template [1, 2, 3, 4] methodGet) []
          ⟨lit "HIT", 60, 0⟩).map fun d =>
            (d.status, d.header.values contentLengthName, d.body)) =
        some (206, [lit "2"], [1, 2]) := by
  decide +kernel

end Ranges

section Revalidation

variable (lib : HandlerLibrary) (h : Config)

/-- The same names, in any order. -/
def varyNamesEqual (a b : Header) : Bool :=
  a.names.length = b.names.length ∧ a.names.all (· ∈ b.names)

/-- Whether an entry may stay in the cache after a 304. -/
def admitRevalidated (request : Request) (stale : Response) (update : Header) : Bool :=
  let merged := merge304Headers stale.header update
  if !cacheable h stale.status merged stale.contentLength then false
  else
    match variedHeaders h.toHandler request stale.header,
        variedHeaders h.toHandler request merged with
    | some old, some new => varyNamesEqual old new
    | _, _ => false

/-- The response that `handleNotModified` serves. -/
def revalidated (stale : Response) (update : Header) : Response :=
  { stale with
    header := prepareResponse lib h (merge304Headers stale.header update) stale.status }

/-- Whether `fetchAndServe` and `refresh` store a full response with a body of
`size` bytes. -/
def admitFull (request : Request) (status : Nat) (header : Header) (size : Nat) : Bool :=
  let header := prepareResponse lib h header status
  (variedHeaders h.toHandler request header).isSome ∧ cacheable h status header size

/-- `Vary: *` allows no variant. -/
theorem variedHeaders_isSome {r : Request} {header : Header} :
    (variedHeaders h.toHandler r header).isSome = true ↔ lit "*" ∉ varyNames header := by
  unfold variedHeaders
  split <;> simp_all

variable {lib h} {request : Request} {stale : Response} {update : Header}

/-- A kept entry is cacheable. -/
theorem cacheable_of_admitRevalidated (hkept : admitRevalidated h request stale update) :
    cacheable h stale.status (merge304Headers stale.header update) stale.contentLength ∧
      (variedHeaders h.toHandler request (merge304Headers stale.header update)).isSome := by
  unfold admitRevalidated at hkept
  dsimp only at hkept
  split at hkept
  · cases hkept
  · next hcacheable =>
    split at hkept
    · next hnew => exact ⟨by simpa using hcacheable, by rw [hnew]; rfl⟩
    · cases hkept

/-- What preparing makes of a response that may be cached. -/
theorem control_prepareResponse (lib : HandlerLibrary) {header : Header} {status size : Nat}
    (hcacheable : cacheable h status header size) :
    (prepareResponse lib h header status).values (lit "Cache-Control") =
      [if matchesConfigured lib.lowerRune (cacheControl header) h.bypassCacheControl then
        lit "private, no-store" else preparedControl h (cacheControl header) status] := by
  obtain ⟨-, httl, -, hcookie, hcontrol⟩ := of_decide_eq_true hcacheable
  have hsame : cacheControl (dropReserved header) = cacheControl header := by
    rw [cacheControl, values_dropReserved (by decide), cacheControl]
  have hnone : (dropReserved header).get (lit "Set-Cookie") = [] := by
    rw [Header.get, values_dropReserved (by decide)]
    exact hcookie
  unfold prepareResponse
  dsimp only
  rw [hsame, hnone]
  by_cases hbypass : matchesConfigured lib.lowerRune (cacheControl header) h.bypassCacheControl
  · rw [if_pos (.inr hbypass), if_pos hbypass, values_set_self]
  · have hopen : ¬ (ttl h status ≤ 0 ∨ uncacheable (cacheControl header)) :=
      not_or.mpr ⟨by omega, by simpa using hcontrol⟩
    rw [if_neg (not_or.mpr ⟨fun hne => hne rfl, hbypass⟩), if_neg hopen, if_neg hbypass,
      values_set_self]

/-- The value for a response that is not to be shared keeps it out. -/
theorem uncacheable_private : uncacheable (lit "private, no-store") = true := by
  decide +kernel

/-- **What a 304 keeps and a full response does not.**  An entry that stays after a
304 would be stored as a full response with the merged header exactly if no bypass
directive matches its `Cache-Control`. -/
theorem kept_admissible_iff (lib : HandlerLibrary)
    (hkept : admitRevalidated h request stale update = true) :
    admitFull lib h request stale.status (merge304Headers stale.header update)
        stale.contentLength = true ↔
      matchesConfigured lib.lowerRune (cacheControl (merge304Headers stale.header update))
          h.bypassCacheControl = false := by
  obtain ⟨hcacheable, hvaried⟩ := cacheable_of_admitRevalidated hkept
  have hcontrol := control_prepareResponse lib hcacheable
  generalize merge304Headers stale.header update = merged at hcacheable hvaried hcontrol ⊢
  have hvary : varyNames (prepareResponse lib h merged stale.status) = varyNames merged := by
    rw [varyNames, values_prepareResponse (by decide), varyNames]
  have hcookie : (prepareResponse lib h merged stale.status).get (lit "Set-Cookie") =
      merged.get (lit "Set-Cookie") := by
    rw [Header.get, values_prepareResponse (by decide), Header.get]
  have hvaried' : (variedHeaders h.toHandler request
      (prepareResponse lib h merged stale.status)).isSome := by
    rw [variedHeaders_isSome, hvary, ← variedHeaders_isSome]
    exact hvaried
  obtain ⟨hstatus, httl, hsize, hnone, hopen⟩ := of_decide_eq_true hcacheable
  have hadmitted : admitFull lib h request stale.status merged stale.contentLength = true ↔
      uncacheable (cacheControl (prepareResponse lib h merged stale.status)) = false := by
    simp [admitFull, hvaried', cacheable, hstatus, httl, hsize, hcookie, hnone]
  rw [hadmitted, cacheControl, hcontrol, join, intercalate_singleton]
  split
  · next hbypass => simp [hbypass, uncacheable_private]
  · next hbypass =>
    have hprepared : uncacheable (preparedControl h (cacheControl merged) stale.status) = false :=
      uncacheable_preparedControl (by simpa using hopen)
    simp [hbypass, hprepared]

end Revalidation

/-- A fresh entry of one byte under the default policy may be stored again. -/
theorem kept_admissible_page :
    admitRevalidated pageHandler pageRequest.request onePage noHeader = true ∧
      admitFull plainLibrary pageHandler pageRequest.request 200 (merge304Headers noHeader noHeader)
        1 = true := by
  have hkept : admitRevalidated pageHandler pageRequest.request onePage noHeader = true := by
    decide +kernel
  exact ⟨hkept, (kept_admissible_iff plainLibrary hkept).mpr (by decide)⟩

/-- **A bypass directive counts for full responses only.**  With `no-transform` among
the bypass directives, a 304 that brings this directive leaves the entry in the cache,
and the same header on a full response keeps it out. -/
theorem bypassed_entry_kept :
    admitRevalidated bypassHandler pageRequest.request onePage noTransform = true ∧
      admitFull plainLibrary bypassHandler pageRequest.request onePage.status
        (merge304Headers onePage.header noTransform) onePage.contentLength = false := by
  decide +kernel

theorem values_control (header : Header) :
    header.values (lit "Cache-Control") =
      (header.entries.lookup (lit "Cache-Control")).getD [] := rfl

/-- Updates may be collected before they are applied. -/
theorem control_merge304Headers (target old update : Header) :
    (merge304Headers target (merge304Headers old update)).values (lit "Cache-Control") =
      (merge304Headers (merge304Headers target old) update).values (lit "Cache-Control") := by
  have hupdated : lit "Cache-Control" ∈ updatedNames := by decide
  simp only [values_control, lookup_merge304Headers, if_pos hupdated, Option.or_assoc]

/-- Serving an entry does not change its `Cache-Control`. -/
theorem control_serveCached {lib : HandlerLibrary} {h : Config} {request : Request}
    {range : Option Spec} {response : Response} {key : GoString} {label : Label}
    {delivery : Delivery}
    (hserve : serveCached lib h request range response key label = some delivery) :
    delivery.header.values (lit "Cache-Control") =
      response.header.values (lit "Cache-Control") := by
  obtain ⟨answer, hselect, hdelivery⟩ := Option.bind_eq_some_iff.mp hserve
  cases hdelivery
  refine (values_labelHeader (by decide)).trans ?_
  unfold selectResponse at hselect
  split at hselect
  · cases hselect
    rw [values_del_of_ne (by decide), values_del_of_ne (by decide)]
  · split at hselect
    · split at hselect
      · unfold applyCachedRange at hselect
        split at hselect
        · cases hselect
          rfl
        · dsimp only at hselect
          split_ifs at hselect
          · cases hselect
            rw [values_set_of_ne (by decide), values_set_of_ne (by decide),
              values_set_of_ne (by decide)]
          · cases hselect
            rfl
          · obtain ⟨body, -, hanswer⟩ := Option.bind_eq_some_iff.mp hselect
            cases hanswer
            rw [values_set_of_ne (by decide), values_set_of_ne (by decide),
              values_set_of_ne (by decide)]
      · cases hselect
        rfl
    · cases hselect
      rfl

section Hits

open CacheHistory

variable (lib : HandlerLibrary) (siteID : GoString) (policy : Policy)

variable {lib siteID policy} {variedKey : GoString} {cache cache' later : Cache}

/-- The `Cache-Control` of a hit on a variant. -/
theorem control_lookup {a : Access} {response : Response}
    (hlookup : lookup lib siteID policy cache a variedKey = some response) :
    ∃ entry object template, cache.index (a.baseKey lib siteID policy) variedKey = some entry ∧
      cache.objects variedKey = some object ∧ object.head.reread = some template ∧
      response.header.values (lit "Cache-Control") =
        (merge304Headers template.header entry.revalidated).values (lit "Cache-Control") := by
  obtain ⟨entry, hentry, hlookup⟩ := Option.bind_eq_some_iff.mp hlookup
  obtain ⟨object, hobject, hlookup⟩ := Option.bind_eq_some_iff.mp hlookup
  obtain ⟨-, hlookup⟩ := Option.ite_none_right_eq_some.mp hlookup
  obtain ⟨template, htemplate, hresponse⟩ := Option.bind_eq_some_iff.mp hlookup
  cases hresponse
  refine ⟨entry, object, template, hentry, hobject, htemplate, ?_⟩
  have hread : (readHTTPResponse template object.body a.request.method).header.entries.lookup
      (lit "Cache-Control") = template.header.entries.lookup (lit "Cache-Control") := by
    unfold readHTTPResponse
    split
    · rw [Header.del, lookup_erase, if_neg (by decide)]
    · rfl
  simp only [values_control, lookup_merge304Headers, hread]

/-- A field with one line is joined to this line. -/
theorem eq_singleton_iff_cacheControl {header : Header} {control : GoString} :
    header.values (lit "Cache-Control") = [control] ↔
      (header.values (lit "Cache-Control")).length = 1 ∧ control = cacheControl header := by
  unfold cacheControl
  constructor
  · intro hvalues
    rw [hvalues, join, intercalate_singleton]
    exact ⟨rfl, rfl⟩
  · rintro ⟨hlength, rfl⟩
    obtain ⟨line, hline⟩ := length_eq_one_iff.mp hlength
    rw [hline, join, intercalate_singleton]

/-- **Later hits.**  As long as an entry is as an admitted 304 has left it, a hit
carries the `Cache-Control` that was served with the 304 exactly if no bypass directive
matches the merged value, and this is one line that has the lifetimes of the policy as
preparing a response writes them. -/
theorem later_control_iff {a b : Access} {update : Header} {stale hit : Response}
    {range range' : Option Spec} {key key' : GoString} {label label' : Label}
    {served delivery : Delivery}
    (hstale : lookup lib siteID policy cache a variedKey = some stale)
    (hkept : admitRevalidated (a.handler siteID policy) a.request stale update = true)
    (hserved : serveCached lib (a.handler siteID policy) a.request range
      (revalidated lib (a.handler siteID policy) stale update) key label = some served)
    (hrefresh : step lib siteID policy cache (.refresh a variedKey update) = some cache')
    (hindex : later.index (a.baseKey lib siteID policy) variedKey =
      cache'.index (a.baseKey lib siteID policy) variedKey)
    (hobjects : later.objects variedKey = cache'.objects variedKey)
    (hbase : b.baseKey lib siteID policy = a.baseKey lib siteID policy)
    (hhit : lookup lib siteID policy later b variedKey = some hit)
    (hdelivery : serveCached lib (b.handler siteID policy) b.request range' hit key' label' =
      some delivery) :
    delivery.header.values (lit "Cache-Control") = served.header.values (lit "Cache-Control") ↔
      matchesConfigured lib.lowerRune (cacheControl (merge304Headers stale.header update))
          policy.bypassCacheControl = false ∧
        ((merge304Headers stale.header update).values (lit "Cache-Control")).length = 1 ∧
        Settled (a.handler siteID policy) (cacheControl (merge304Headers stale.header update))
          stale.status := by
  obtain ⟨entry, object, template, hentry, hobject, htemplate, hcontrol⟩ := control_lookup hstale
  obtain ⟨entry', object', template', hentry', hobject', htemplate', hcontrol'⟩ :=
    control_lookup hhit
  obtain ⟨_, -, hrefresh⟩ := Option.bind_eq_some_iff.mp hrefresh
  obtain ⟨entry'', hentry'', hrefresh⟩ := Option.bind_eq_some_iff.mp hrefresh
  obtain rfl := Option.some.inj (hentry.symm.trans hentry'')
  obtain ⟨-, hrefresh⟩ := Option.ite_none_right_eq_some.mp hrefresh
  cases hrefresh
  -- the later hit opens the same object under the collected updates
  obtain rfl := Option.some.inj (hobject.symm.trans (hobjects.symm.trans hobject'))
  obtain rfl := Option.some.inj (htemplate.symm.trans htemplate')
  have hupdates : entry'.revalidated = merge304Headers entry.revalidated update := by
    rw [hbase, hindex] at hentry'
    exact congrArg IndexEntry.revalidated
      (Option.some.inj (hentry'.symm.trans (if_pos ⟨rfl, rfl⟩)))
  have hmerged : delivery.header.values (lit "Cache-Control") =
      (merge304Headers stale.header update).values (lit "Cache-Control") := by
    rw [control_serveCached hdelivery, hcontrol', hupdates, control_merge304Headers]
    have hupdated : lit "Cache-Control" ∈ updatedNames := by decide
    simp only [values_control, lookup_merge304Headers, if_pos hupdated] at hcontrol ⊢
    cases update.entries.lookup (lit "Cache-Control") with
    | none => exact hcontrol.symm
    | some values => rfl
  obtain ⟨hcacheable, -⟩ := cacheable_of_admitRevalidated hkept
  rw [hmerged, control_serveCached hserved, revalidated, control_prepareResponse lib hcacheable]
  by_cases hbypass : matchesConfigured lib.lowerRune
      (cacheControl (merge304Headers stale.header update))
      (a.handler siteID policy).bypassCacheControl
  · rw [if_pos hbypass]
    constructor
    · intro hprivate
      obtain ⟨-, -, -, -, hopen⟩ := of_decide_eq_true hcacheable
      rw [cacheControl, hprivate, join, intercalate_singleton, uncacheable_private] at hopen
      cases hopen
    · intro hright
      exact absurd (hbypass.symm.trans hright.1) (by decide)
  · rw [if_neg hbypass, ← preparedControl_eq_self_iff, eq_singleton_iff_cacheControl]
    exact (and_iff_right (Bool.eq_false_iff.mpr hbypass)).symm

/-- The page in the cache, stored as `prepareResponse` leaves it. -/
def pageCache : Cache :=
  cacheOf ⟨serializedHeader 200 (prepareResponse plainLibrary pageHandler noHeader 200) 1 methodGet,
    [1], methodGet⟩

/-- A 304 and the next hit: whether the entry stays, and the two `Cache-Control`
values. -/
def controlsAround (update : Header) : Option (Bool × List GoString × List GoString) := do
  let stale ← lookup plainLibrary (lit "s") pagePolicy pageCache pageRequest pageKey
  let served ← serveCached plainLibrary pageHandler pageRequest.request none
    (revalidated plainLibrary pageHandler stale update) [] ⟨lit "HIT", 60, 0⟩
  let cache ← step plainLibrary (lit "s") pagePolicy pageCache (.refresh pageRequest pageKey update)
  let hit ← lookup plainLibrary (lit "s") pagePolicy cache pageRequest pageKey
  let delivery ← serveCached plainLibrary pageHandler pageRequest.request none hit []
    ⟨lit "HIT", 60, 0⟩
  some (admitRevalidated pageHandler pageRequest.request stale update,
    served.header.values (lit "Cache-Control"), delivery.header.values (lit "Cache-Control"))

/-- A 304 without `Cache-Control` leaves a value that is prepared already. -/
theorem later_control_page :
    ∃ stale, lookup plainLibrary (lit "s") pagePolicy pageCache pageRequest pageKey = some stale ∧
      Settled pageHandler (cacheControl (merge304Headers stale.header noHeader)) stale.status := by
  have hequal : (controlsAround noHeader).any (fun c => c.1 && (c.2.2 == c.2.1)) := by
    decide +kernel
  obtain ⟨controls, hcontrols, hsame⟩ := (Option.any_eq_true _ _).mp hequal
  unfold controlsAround at hcontrols
  obtain ⟨stale, hstale, hcontrols⟩ := Option.bind_eq_some_iff.mp hcontrols
  obtain ⟨served, hserved, hcontrols⟩ := Option.bind_eq_some_iff.mp hcontrols
  obtain ⟨cache', hrefresh, hcontrols⟩ := Option.bind_eq_some_iff.mp hcontrols
  obtain ⟨hit, hhit, hcontrols⟩ := Option.bind_eq_some_iff.mp hcontrols
  obtain ⟨delivery, hdelivery, hcontrols⟩ := Option.bind_eq_some_iff.mp hcontrols
  cases hcontrols
  simp only [Bool.and_eq_true, beq_iff_eq] at hsame
  exact ⟨stale, hstale, ((later_control_iff hstale hsame.1 hserved hrefresh rfl rfl rfl hhit
    hdelivery).mp hsame.2).2.2⟩

/-- **A hit after a 304 shows the bare value of the 304.**  The response to the
request that was revalidated has the lifetimes of the policy in it, later ones do not. -/
theorem later_control_differs :
    controlsAround (noHeader.set (lit "Cache-Control") (lit "max-age=10")) =
      some (true, [lit "max-age=10, s-maxage=60, stale-while-revalidate=30, stale-if-error=86400"],
        [lit "max-age=10"]) := by
  decide +kernel

end Hits

end ServedEntries
