import GovetoEdge.LogBatches
import GovetoEdge.WafRequests

/-!
# Access logs in the request-log store

The control plane parses the access records of a batch and inserts them into
`web_request_logs`, two thousand at a time, each time in one transaction.  A row
whose time, node and log id are there already is not inserted again.

* `parseAccess` is `ParseAccess`, over what `encoding/json` and `net/url` read.
* `toEvent` is the loop of `consume` for one record; the lookups that `consume`
  makes before it are in `Lookup`.
* `insert` is the `INSERT` with its conflict key.

The runtime and origin metrics of a batch go to other tables, and the columns
that `geoIP.enrich` fills in are left out.
-/

namespace AccessLogs

open GoStrings HttpHeaders LogRecords List Option
open NetAddresses (Addr)

/-- The request of a `caddyAccess`. -/
structure CaddyRequest where
  remoteIP : GoString
  clientIP : GoString
  proto : GoString
  method : GoString
  host : GoString
  uri : GoString
  headers : Header

/-- `caddyAccess`. -/
structure CaddyAccess where
  ts : Rat
  request : CaddyRequest
  bytesRead : Nat
  duration : Rat
  size : Nat
  status : Nat
  upstreamAddress : GoString
  upstreamStatus : Nat
  handlerError : GoString
  respHeaders : Header

/-- What the functions take from the libraries: what `json.Unmarshal` makes of a
payload, for the whole record and for the time alone; `int64(x * 1e9)`; the path
and the query of a request URI; the case of text. -/
structure Library where
  unmarshal : GoString → Option CaddyAccess
  unmarshalTimestamp : GoString → Option Rat
  /-- a payload that is decoded as a whole is decoded in part -/
  timestamp_eq : ∀ payload raw, unmarshal payload = some raw →
    unmarshalTimestamp payload = some raw.ts
  nanoseconds : Rat → Int
  parseRequestURI : GoString → Option (GoString × GoString)
  toLower : GoString → GoString
  toUpper : GoString → GoString

/-- The order in which `range` visits a map. -/
abbrev Iteration := Header → List (GoString × List GoString)

/-- `WebRequestLog`; times are in nanoseconds. -/
structure WebRequestLog where
  eventTime : Int
  sourceLogID : Nat
  requestID : GoString
  clusterID : GoString
  nodeID : GoString
  siteID : GoString
  configVersion : UInt64
  hostname : GoString
  method : GoString
  scheme : GoString
  protocol : GoString
  path : GoString
  queryString : GoString
  clientIP : Addr
  statusCode : Nat
  requestHeaderBytes : Nat
  requestBodyBytes : Nat
  responseHeaderBytes : Nat
  responseBodyBytes : Nat
  duration : Int
  upstreamAddress : GoString
  upstreamStatus : Nat
  handlerError : GoString
  cacheStatus : GoString
  contentType : GoString
  fileExtension : GoString
  referer : GoString
  userAgent : GoString
  wafAction : GoString
  wafRuleID : GoString
  wafSource : GoString
  wafMatch : GoString
  wafTags : GoString

/-- `utf8.ValidString`. -/
def validString (s : GoString) : Bool := Utf8.toValid s = s

/-- The loop of `normalizeHandlerError`: the last byte goes until the rest is
valid. -/
def cutInvalid : Nat → GoString → GoString
  | 0, s => s
  | fuel + 1, s => if validString s then s else cutInvalid fuel s.dropLast

/-- `normalizeHandlerError`. -/
def normalizeHandlerError (value : GoString) : GoString :=
  let value := trimSpace value
  if value.length ≤ 2048 then value else cutInvalid 2048 (value.take 2048)

/-- `headerValue`. -/
def headerValue (order : Iteration) (headers : Header) (name : GoString) : GoString :=
  match (order headers).find? fun entry => equalFold entry.1 name && !entry.2.isEmpty with
  | some entry => entry.2.headD []
  | none => []

/-- `headerBytes`. -/
def headerBytes (headers : Header) : Nat :=
  (headers.entries.map fun entry =>
    (entry.2.map fun value => entry.1.length + value.length + 4).sum).sum

/-- `scheme`. -/
def scheme (h : Header) : GoString :=
  if h.get (lit "X-Forwarded-Proto") ≠ [] then h.get (lit "X-Forwarded-Proto") else lit "http"

/-- `normalizeCache`. -/
def normalizeCache (lib : Library) (v : GoString) : GoString :=
  ([lit "STALE", lit "HIT", lit "MISS", lit "BYPASS"].find? fun x =>
    decide (x <:+: lib.toUpper v)).getD (lit "BYPASS")

/-- `filepath.Ext`. -/
def ext (path : GoString) : GoString :=
  let last := path.reverse.takeWhile (· ≠ 47)
  if last.contains 46 then 46 :: (last.takeWhile (· ≠ 46)).reverse else []

/-- `strings.TrimPrefix` of a dot. -/
def trimDot : GoString → GoString
  | 46 :: rest => rest
  | s => s

/-- `netip.IPv6Unspecified`. -/
def unspecified : Addr := .v6 0 []

/-- The address of the client. -/
def clientAddr (request : CaddyRequest) : Addr :=
  let text := if request.clientIP = [] then request.remoteIP else request.clientIP
  match NetAddresses.parseAddr (WafRequests.trimBrackets text) with
  | some ip => ip.unmap
  | none => unspecified

/-- `ParseAccess`. -/
def parseAccess (lib : Library) (order : Iteration) (now : Int)
    (payload clusterID nodeID siteID : GoString) : Option WebRequestLog := do
  let raw ← lib.unmarshal payload
  let (path, rawQuery) ← lib.parseRequestURI raw.request.uri
  let host := match WafRequests.splitHostPort raw.request.host with
    | some (host, _) => host
    | none => raw.request.host
  let cacheStatus :=
    if raw.respHeaders.get (lit "X-Cache") = [] then raw.respHeaders.get (lit "Cache-Status")
    else raw.respHeaders.get (lit "X-Cache")
  some {
    eventTime := if raw.ts = 0 then now else lib.nanoseconds raw.ts
    sourceLogID := 0
    requestID := raw.request.headers.get (lit "X-Request-Id")
    clusterID := clusterID
    nodeID := nodeID
    siteID := siteID
    configVersion := 0
    hostname := lib.toLower host
    method := raw.request.method
    scheme := scheme raw.request.headers
    protocol := raw.request.proto
    path := path
    queryString := rawQuery
    clientIP := clientAddr raw.request
    statusCode := raw.status
    requestHeaderBytes := headerBytes raw.request.headers
    requestBodyBytes := raw.bytesRead
    responseHeaderBytes := headerBytes raw.respHeaders
    responseBodyBytes := raw.size
    duration := lib.nanoseconds raw.duration
    upstreamAddress := raw.upstreamAddress
    upstreamStatus := raw.upstreamStatus
    handlerError := normalizeHandlerError raw.handlerError
    cacheStatus := normalizeCache lib cacheStatus
    contentType := raw.respHeaders.get (lit "Content-Type")
    fileExtension := trimDot (lib.toLower (ext path))
    referer := raw.request.headers.get (lit "Referer")
    userAgent := raw.request.headers.get (lit "User-Agent")
    wafAction := headerValue order raw.respHeaders (lit "X-Goveto-WAF")
    wafRuleID := headerValue order raw.respHeaders (lit "X-Goveto-WAF-Rule")
    wafSource := headerValue order raw.respHeaders (lit "X-Goveto-WAF-Source")
    wafMatch := headerValue order raw.respHeaders (lit "X-Goveto-WAF-Match")
    wafTags := headerValue order raw.respHeaders (lit "X-Goveto-WAF-Tag") }

/-- `accessLogHasTimestamp`. -/
def accessLogHasTimestamp (lib : Library) (payload : GoString) : Bool :=
  (lib.unmarshalTimestamp payload).any (· ≠ 0)

/-- What a call of `Consume` finds: the cluster of the node, if the node is
registered; the sites of the cluster; the time; the order of its maps. -/
structure Lookup where
  cluster : Option GoString
  sites : List GoString
  now : Int
  order : Iteration

/-- The record is parsed as an access log. -/
def isAccess (r : LogRecord) : Bool := r.type = lit "access" || r.type = lit "caddy"

/-- The record is an access log of a site that the cluster of the node has. -/
def Lookup.knows (look : Lookup) (r : LogRecord) : Bool :=
  isAccess r && r.siteID ≠ [] && look.sites.contains r.siteID

/-- The loop of `consume`, for one record. -/
def toEvent (lib : Library) (look : Lookup) (clusterID nodeID : GoString) (r : LogRecord) :
    Option WebRequestLog :=
  if look.knows r then
    (parseAccess lib look.order look.now r.payload clusterID nodeID r.siteID).map fun event =>
      { event with
        eventTime :=
          if !accessLogHasTimestamp lib r.payload && r.createdAt ≠ zeroTime then r.createdAt
          else event.eventTime
        sourceLogID := r.id
        configVersion := r.configVersion }
  else none

/-- The events of a batch; those of a node that is not registered are dropped. -/
def events (lib : Library) (look : Lookup) (nodeID : GoString) (records : List LogRecord) :
    List WebRequestLog :=
  match look.cluster with
  | some clusterID => records.filterMap (toEvent lib look clusterID nodeID)
  | none => []

/-- `event_time, node_id, source_log_id`; a `timestamptz` has microseconds. -/
def key (e : WebRequestLog) : Int × GoString × Nat :=
  (e.eventTime / 1000, e.nodeID, e.sourceLogID)

/-- `INSERT ... ON CONFLICT DO NOTHING`. -/
def insert (rows : List WebRequestLog) : List WebRequestLog → List WebRequestLog
  | [] => rows
  | e :: events =>
    if ∃ row ∈ rows, key row = key e then insert rows events else insert (rows ++ [e]) events

/-- Rows of one `INSERT`. -/
def maxInsertBatch : Nat := 2000

section Key

variable {lib : Library} {look : Lookup} {clusterID nodeID : GoString} {r : LogRecord}
  {e : WebRequestLog}

/-- The time of a record: its own, or else that of its arrival in the queue. -/
def instant (lib : Library) (r : LogRecord) : Int :=
  match lib.unmarshal r.payload with
  | some raw => if raw.ts = 0 then r.createdAt else lib.nanoseconds raw.ts
  | none => r.createdAt

/-- What an event takes from its payload. -/
theorem parseAccess_eq_some {order : Iteration} {now : Int} {payload siteID : GoString}
    (h : parseAccess lib order now payload clusterID nodeID siteID = some e) :
    ∃ raw, lib.unmarshal payload = some raw ∧ e.nodeID = nodeID ∧
      e.eventTime = if raw.ts = 0 then now else lib.nanoseconds raw.ts := by
  obtain ⟨raw, hraw, h⟩ := bind_eq_some_iff.mp h
  obtain ⟨uri, -, h⟩ := bind_eq_some_iff.mp h
  cases h
  exact ⟨raw, hraw, rfl, rfl⟩

/-- **The conflict key is a function of the record.**  It does not depend on when
the record is parsed. -/
theorem key_of_toEvent (hcreated : r.createdAt ≠ zeroTime)
    (h : toEvent lib look clusterID nodeID r = some e) :
    key e = (instant lib r / 1000, nodeID, r.id) := by
  unfold toEvent at h
  split at h
  · obtain ⟨event, hparse, rfl⟩ := map_eq_some_iff.mp h
    obtain ⟨raw, hraw, hnode, htime⟩ := parseAccess_eq_some hparse
    have hzero : accessLogHasTimestamp lib r.payload = decide (raw.ts ≠ 0) := by
      rw [accessLogHasTimestamp, lib.timestamp_eq _ _ hraw, any_some]
    simp only [key, instant, hraw, hzero, hnode, htime]
    by_cases hts : raw.ts = 0
    · simp [hts, hcreated]
    · simp [hts]
  · cases h

/-- Every event comes from a record. -/
theorem mem_events {records : List LogRecord} (h : e ∈ events lib look nodeID records) :
    ∃ clusterID, look.cluster = some clusterID ∧ ∃ r ∈ records,
      toEvent lib look clusterID nodeID r = some e := by
  unfold events at h
  split at h
  · next clusterID hcluster => exact ⟨clusterID, hcluster, mem_filterMap.mp h⟩
  · cases h

end Key

section Insert

variable {rows es : List WebRequestLog}

/-- Rows stay. -/
theorem mem_insert_of_mem {row : WebRequestLog} (h : row ∈ rows) : row ∈ insert rows es := by
  induction es generalizing rows with
  | nil => exact h
  | cons e es ih =>
    unfold insert
    split
    · exact ih h
    · exact ih (mem_append_left _ h)

/-- An insertion adds nothing but its rows. -/
theorem mem_insert {row : WebRequestLog} (h : row ∈ insert rows es) : row ∈ rows ∨ row ∈ es := by
  induction es generalizing rows with
  | nil => exact .inl h
  | cons e es ih =>
    unfold insert at h
    split at h
    · exact (ih h).imp_right (mem_cons_of_mem e)
    · rcases ih h with hold | hnew
      · rcases mem_append.mp hold with hold | hnew
        · exact .inl hold
        · exact .inr (mem_cons.mpr (.inl (mem_singleton.mp hnew)))
      · exact .inr (mem_cons_of_mem e hnew)

/-- No key is there twice. -/
theorem nodup_insert (h : (rows.map key).Nodup) : ((insert rows es).map key).Nodup := by
  induction es generalizing rows with
  | nil => exact h
  | cons e es ih =>
    unfold insert
    split
    · exact ih h
    · next hnew =>
      apply ih
      rw [map_append, nodup_append]
      refine ⟨h, nodup_singleton _, ?_⟩
      intro k hk k' hk' heq
      obtain ⟨row, hrow, rfl⟩ := mem_map.mp hk
      rw [map_singleton, mem_singleton] at hk'
      exact hnew ⟨row, hrow, heq.trans hk'⟩

/-- Every event has a row. -/
theorem exists_key_insert {e : WebRequestLog} (h : e ∈ es) :
    ∃ row ∈ insert rows es, key row = key e := by
  induction es generalizing rows with
  | nil => cases h
  | cons e' es ih =>
    unfold insert
    rcases mem_cons.mp h with rfl | h
    · split
      · next hold =>
        obtain ⟨row, hrow, hkey⟩ := hold
        exact ⟨row, mem_insert_of_mem hrow, hkey⟩
      · exact ⟨e, mem_insert_of_mem (mem_append_right _ mem_cons_self), rfl⟩
    · split
      · exact ih h
      · exact ih h

end Insert

end AccessLogs
