import GovetoEdge.CacheKeys

/-!
# Cache policies

The cache policy of a site as the control plane stores it, and
`NormalizeAndValidate`, which both the control plane and the agent run.  The
lists of names in a policy are normalized by one loop, `normalizeNames`; what
differs between them is collected in `NameRules`.
-/

namespace CachePolicy

open GoStrings Utf8 HttpHeaders CacheKeys

/-- What the functions take from the libraries: the case of code points beyond
ASCII, the quoting of a text in an error, and regular expressions. -/
structure Library where
  lowerRune : Nat → Nat
  upperRune : Nat → Nat
  quote : GoString → GoString
  compileError : GoString → Option GoString
  matchString : GoString → GoString → Bool

/-- The labels that are sent to clients. -/
structure CacheHeaders where
  xCache : Bool
  age : Bool
deriving DecidableEq, Repr

/-- How long stale responses are served. -/
structure CacheStale where
  enabled : Bool
  ifErrorSeconds : Int
  whileRevalidateSeconds : Int
deriving DecidableEq, Repr

/-- Lifetimes, by status. -/
structure CacheTTL where
  defaultSeconds : Int
  status : List (GoString × Int)
  overrideClientTTL : Bool
  clientSeconds : Int
deriving DecidableEq, Repr

/-- One condition. -/
structure CacheConditionRule where
  type : GoString
  value : GoString
  values : List GoString
deriving DecidableEq, Repr

/-- Conditions under one operator. -/
structure CacheConditionGroup where
  operator : GoString
  rules : List CacheConditionRule
deriving DecidableEq, Repr

/-- The groups of a rule. -/
structure CacheConditions where
  groupOperator : GoString
  groups : List CacheConditionGroup
deriving DecidableEq, Repr

/-- What is cached, and for how long. -/
structure CacheRule where
  name : GoString
  ttl : CacheTTL
  conditions : CacheConditions
deriving DecidableEq, Repr

/-- The query in the key. -/
structure QueryKey where
  normalize : Option Bool
  includes : List GoString
  excludes : List GoString
deriving DecidableEq, Repr

/-- What the key is made of. -/
structure CacheKey where
  parts : List GoString
  headers : List GoString
  query : QueryKey
  cookies : List GoString
  hash : Bool
  hide : Bool
deriving DecidableEq, Repr

/-- The cache policy of a site. -/
structure Policy where
  responseHeaders : CacheHeaders
  devMode : Bool
  requestCoalescing : Bool
  cacheRangeRequests : Bool
  maxBodyBytes : Nat
  stale : CacheStale
  rules : List CacheRule
  methods : List GoString
  cacheKey : CacheKey
  bypassCacheControl : List GoString
  surrogateKeyHeader : GoString
deriving DecidableEq, Repr

def methodGet : GoString := lit "GET"
def methodHead : GoString := lit "HEAD"
def methodOptions : GoString := lit "OPTIONS"

/-- Queries are normalized by default. -/
def QueryKey.normalizeEnabled (q : QueryKey) : Bool := q.normalize.getD true

/-- The policy of a new site. -/
def defaultCachePolicy : Policy where
  responseHeaders := { xCache := true, age := true }
  devMode := false
  requestCoalescing := true
  cacheRangeRequests := true
  maxBodyBytes := 64 * 2 ^ 20
  stale := { enabled := true, ifErrorSeconds := 86400, whileRevalidateSeconds := 30 }
  rules := []
  methods := [methodGet, methodHead]
  cacheKey :=
    { parts := [cacheKeyPartMethod, cacheKeyPartHost, cacheKeyPartPath, cacheKeyPartQuery]
      headers := []
      query := { normalize := some true, includes := [], excludes := [] }
      cookies := []
      hash := false
      hide := false }
  bypassCacheControl := [lit "no-store", lit "private"]
  surrogateKeyHeader := lit "Surrogate-Key"

section Validation

variable (lib : Library)

/-- `strings.ToUpper`. -/
def toUpper (s : GoString) : GoString :=
  if s.all (· < 0x80) then s.map upperByte
  else mapRunes (fun r => if r < 0x80 then (upperByte (UInt8.ofNat r)).toNat else lib.upperRune r) s

/-- How a list of names is normalized: each name is cleaned, checked, perhaps
left out, and compared with the earlier ones by its key, which is kept. -/
structure NameRules where
  clean : GoString → GoString
  valid : GoString → Bool
  skip : GoString → Bool
  key : GoString → GoString
  invalid : GoString → GoString
  duplicate : GoString → GoString

/-- The loop of the checks; `seen` are the keys so far. -/
def normalizeNames (rules : NameRules) : List GoString → List GoString →
    Except GoString (List GoString)
  | _, [] => .ok []
  | seen, name :: names =>
    let name := rules.clean name
    if !rules.valid name then .error (rules.invalid name)
    else if rules.skip name then normalizeNames rules seen names
    else if rules.key name ∈ seen then .error (rules.duplicate name)
    else do
      let rest ← normalizeNames rules (rules.key name :: seen) names
      .ok (rules.key name :: rest)

/-- The methods that may be cached. -/
def allowedMethods : List GoString :=
  [methodGet, methodHead, lit "POST", lit "PUT", lit "PATCH", lit "DELETE", methodOptions]

/-- Names of methods. -/
def methodRules : NameRules where
  clean name := toUpper lib (trimSpace name)
  valid name := name ∈ allowedMethods
  skip _ := false
  key := id
  invalid name := lit "unsupported cache method " ++ lib.quote name
  duplicate name := lit "duplicate cache method " ++ lib.quote name

/-- The parts in the order of a key. -/
def keyPartOrder : List GoString :=
  [cacheKeyPartMethod, cacheKeyPartScheme, cacheKeyPartHost, cacheKeyPartPath, cacheKeyPartQuery]

/-- Parts of the key. -/
def partRules : NameRules where
  clean name := toUpper lib (trimSpace name)
  valid name := name ∈ keyPartOrder
  skip _ := false
  key := id
  invalid name := lit "unsupported cache key part " ++ lib.quote name
  duplicate name := lit "duplicate cache key part " ++ lib.quote name

/-- A nonempty text of token bytes: the pattern of header and cookie names. -/
def isToken (s : GoString) : Bool := s ≠ [] ∧ s.all isTokenByte

/-- Names of headers. -/
def headerRules : NameRules where
  clean name := canonicalHeaderKey (trimSpace name)
  valid := isToken
  skip name := equalFold name acceptEncoding
  key := id
  invalid name := lit "invalid cache key header " ++ lib.quote name
  duplicate name := lit "duplicate cache key header " ++ lib.quote name

/-- Names of cookies. -/
def cookieRules : NameRules where
  clean := trimSpace
  valid := isToken
  skip _ := false
  key := id
  invalid name := lit "invalid cache key cookie name " ++ lib.quote name
  duplicate name := lit "duplicate cache key cookie " ++ lib.quote name

def isLower (b : UInt8) : Bool := 97 ≤ b && b ≤ 122

def isLetter (b : UInt8) : Bool := isLower b || (65 ≤ b && b ≤ 90)

/-- Letters, digits, `_`, `.` and `-`, perhaps with a star behind them. -/
def queryParamPattern (s : GoString) : Bool :=
  let name := if s.getLast? = some 42 then s.dropLast else s
  name ≠ [] ∧ name.all fun b => isLetter b || isDigit b || (lit "_.-").contains b

/-- Query parameters. -/
def queryRules : NameRules where
  clean := trimSpace
  valid name := name ≠ [] ∧ queryParamPattern name
  skip _ := false
  key := toLower lib.lowerRune
  invalid name := lit "invalid query parameter name " ++ lib.quote name
  duplicate name := lit "duplicate query parameter " ++ lib.quote name

/-- A directive name, perhaps with an equals sign and a value. -/
def directivePattern (s : GoString) : Bool :=
  let (name, value, found) := cut s 61
  (name.head?.any isLower ∧ name.all fun b => isLower b || isDigit b || (lit "_-").contains b) ∧
    (!found ∨
      (value ≠ [] ∧ value.all fun b => isLower b || isDigit b || (lit "._-").contains b))

/-- Directives of `Cache-Control`. -/
def directiveRules : NameRules where
  clean name := toLower lib.lowerRune (trimSpace name)
  valid name := (name.all fun b => !(lit " \t\r\n").contains b) ∧ directivePattern name
  skip _ := false
  key := id
  invalid name := lit "invalid bypass Cache-Control value " ++ lib.quote name
  duplicate name := lit "duplicate bypass Cache-Control value " ++ lib.quote name

/-- A status code from 100 to 599 in digits. -/
def statusPattern (s : GoString) : Bool :=
  s.length = 3 ∧ s.all isDigit ∧ (s.head?.any fun b => 49 ≤ b && b ≤ 53)

/-- At most one year. -/
def secondsAllowed (least : Int) (seconds : Int) : Bool := least ≤ seconds ∧ seconds ≤ 31536000

/-- The checks of the lifetimes. -/
def normalizeCacheTTL (ttl : CacheTTL) (path : GoString) : Except GoString Unit := do
  if !secondsAllowed 1 ttl.defaultSeconds then
    throw (path ++ lit ".default_seconds must be between 1 and 31536000")
  if ttl.overrideClientTTL ∧ !secondsAllowed 0 ttl.clientSeconds then
    throw (path ++ lit ".client_seconds must be between 0 and 31536000")
  for (status, seconds) in ttl.status do
    if !statusPattern status ∨ !secondsAllowed 1 seconds then
      throw (lit "invalid " ++ path ++ lit ".status TTL for " ++ lib.quote status)

def booleanOperator (value : GoString) : Bool := value = lit "AND" ∨ value = lit "OR"

/-- Lower-case letters, digits, `_` and `-`. -/
def extensionPattern (s : GoString) : Bool :=
  (s.head?.any fun b => isLower b || isDigit b) ∧
    s.all fun b => isLower b || isDigit b || (lit "_-").contains b

/-- `strings.TrimPrefix` with a dot. -/
def trimDot (s : GoString) : GoString := if s.head? = some 46 then s.tail else s

/-- Extensions are written without a dot. -/
def cleanExtension (value : GoString) : Except GoString GoString :=
  let value := trimDot (toLower lib.lowerRune (trimSpace value))
  if extensionPattern value then .ok value
  else .error (lit "invalid extension " ++ lib.quote value)

/-- Prefixes begin with a slash. -/
def checkPathPrefix (value : GoString) : Except GoString GoString :=
  if value.head? = some 47 then .ok value
  else .error (lit "path prefix " ++ lib.quote value ++ lit " must start with /")

/-- One condition. `alone` says whether it is the only one; the answer says
whether it matches everything. -/
def normalizeCondition (path position : GoString) (alone : Bool) (rule : CacheConditionRule) :
    Except GoString (CacheConditionRule × Bool) :=
  let rule := { rule with type := toUpper lib (trimSpace rule.type) }
  if rule.type = lit "ALL" then
    if alone then .ok (rule, true)
    else .error (lit "ALL cannot be combined with other cache conditions")
  else if rule.type = lit "EXTENSION" then
    if rule.values = [] then
      .error (path ++ lit " extension rule " ++ position ++ lit " requires values")
    else do
      let values ← rule.values.mapM (cleanExtension lib)
      .ok ({ rule with values }, false)
  else if rule.type = lit "PATH_PREFIX" then
    if rule.values = [] then
      .error (path ++ lit " path prefix rule " ++ position ++ lit " requires values")
    else do
      let values ← rule.values.mapM (checkPathPrefix lib)
      .ok ({ rule with values }, false)
  else if rule.type = lit "PATH_REGEX" then
    let rule := { rule with value := trimSpace rule.value }
    if rule.value = [] then
      .error (path ++ lit " path regex rule " ++ position ++ lit " requires value")
    else
      match lib.compileError rule.value with
      | some err => .error (lit "invalid path regex: " ++ err)
      | none => .ok (rule, false)
  else .error (lit "unsupported cache condition type " ++ lib.quote rule.type)

/-- One group, and whether it has the condition ALL. -/
def normalizeGroup (path : GoString) (groupCount gi : Nat) (group : CacheConditionGroup) :
    Except GoString (CacheConditionGroup × Bool) := do
  let here := path ++ lit ".groups[" ++ itoa gi ++ lit "]"
  let operator := toUpper lib (trimSpace group.operator)
  if !booleanOperator operator then throw (here ++ lit ".operator must be AND or OR")
  if group.rules.length = 0 ∨ group.rules.length > 32 then
    throw (here ++ lit " must contain between 1 and 32 rules")
  let rules ← group.rules.zipIdx.mapM fun (rule, ri) =>
    normalizeCondition lib path (itoa gi ++ lit "/" ++ itoa ri)
      (group.rules.length = 1 ∧ groupCount = 1) rule
  return ({ operator, rules := rules.map Prod.fst }, rules.any Prod.snd)

/-- All groups of a rule. -/
def normalizeCacheConditions (conditions : CacheConditions) (path : GoString) :
    Except GoString (CacheConditions × Bool) := do
  let trimmed := toUpper lib (trimSpace conditions.groupOperator)
  let groupOperator := if trimmed = [] then lit "OR" else trimmed
  if !booleanOperator groupOperator then throw (path ++ lit ".group_operator must be AND or OR")
  if conditions.groups.length = 0 ∨ conditions.groups.length > 16 then
    throw (path ++ lit " must contain between 1 and 16 groups")
  let groups ← conditions.groups.zipIdx.mapM fun (group, gi) =>
    normalizeGroup lib path conditions.groups.length gi group
  return ({ groupOperator, groups := groups.map Prod.fst }, groups.any Prod.snd)

/-- The rules from position `index` on; `seen` are the names so far. -/
def normalizeRules (count : Nat) : Nat → List GoString → List CacheRule →
    Except GoString (List CacheRule)
  | _, _, [] => .ok []
  | index, seen, rule :: rules => do
    let here := lit "rules[" ++ itoa index ++ lit "]"
    let name := trimSpace rule.name
    if name = [] ∨ name.length > 80 then
      throw (here ++ lit ".name must contain between 1 and 80 characters")
    let key := toLower lib.lowerRune name
    if key ∈ seen then throw (lit "duplicate cache rule name " ++ lib.quote name)
    normalizeCacheTTL lib rule.ttl (here ++ lit ".ttl")
    let (conditions, hasAll) ← normalizeCacheConditions lib rule.conditions
      (here ++ lit ".conditions")
    if hasAll ∧ index ≠ count - 1 then
      throw (here ++ lit " matches all requests and must be last")
    let rest ← normalizeRules count (index + 1) (key :: seen) rules
    return { rule with name, conditions } :: rest

/-- The query part of the key. -/
def normalizeAndValidateQueryKey (query : QueryKey) : Except GoString QueryKey := do
  if query.includes.length > 0 ∧ query.excludes.length > 0 then
    throw (lit "cache_key.query.include and exclude are mutually exclusive")
  let includes ← (normalizeNames (queryRules lib) [] query.includes).mapError
    (lit "cache_key.query.include: " ++ ·)
  let excludes ← (normalizeNames (queryRules lib) [] query.excludes).mapError
    (lit "cache_key.query.exclude: " ++ ·)
  return { normalize := some query.normalizeEnabled
           includes := insertionSort includes
           excludes := insertionSort excludes }

/-- The key. -/
def normalizeKey (key : CacheKey) : Except GoString CacheKey := do
  let parts ← normalizeNames (partRules lib) [] key.parts
  if cacheKeyPartPath ∉ parts then throw (lit "cache_key.parts must include PATH")
  let headers ← normalizeNames (headerRules lib) [] key.headers
  let query ← normalizeAndValidateQueryKey lib key.query
  let cookies ← normalizeNames (cookieRules lib) [] key.cookies
  return { key with
    parts := parts.insertionSort fun a b => keyPartOrder.idxOf a ≤ keyPartOrder.idxOf b
    headers := insertionSort headers
    query
    cookies := insertionSort cookies }

/-- The whole policy: normalized, or the first error. -/
def normalizeAndValidate (p : Policy) : Except GoString Policy := do
  if p.stale.enabled ∧ !secondsAllowed 1 p.stale.ifErrorSeconds then
    throw (lit "stale.if_error_seconds must be between 1 and 31536000")
  if p.stale.enabled ∧ !secondsAllowed 0 p.stale.whileRevalidateSeconds then
    throw (lit "stale.while_revalidate_seconds must be between 0 and 31536000")
  if p.maxBodyBytes < 1 ∨ p.maxBodyBytes > 4 * 2 ^ 30 then
    throw (lit "max_body_bytes must be between 1 and 4294967296")
  if p.methods.length = 0 ∨ p.methods.length > 8 then
    throw (lit "methods must contain between 1 and 8 values")
  let methods ← normalizeNames (methodRules lib) [] p.methods
  let cacheKey ← normalizeKey lib p.cacheKey
  let directives ← normalizeNames (directiveRules lib) [] p.bypassCacheControl
  let trimmed := canonicalHeaderKey (trimSpace p.surrogateKeyHeader)
  let surrogateKeyHeader := if trimmed = [] then lit "Surrogate-Key" else trimmed
  if surrogateKeyHeader ≠ lit "Surrogate-Key" then
    throw (lit "surrogate_key_header must be Surrogate-Key")
  if p.rules.length > 32 then throw (lit "rules must contain at most 32 cache rules")
  let rules ← normalizeRules lib p.rules.length 0 [] p.rules
  return { p with
    methods := insertionSort methods
    requestCoalescing := p.requestCoalescing &&
      methods.all fun m => m = methodGet ∨ m = methodHead ∨ m = methodOptions
    cacheKey
    bypassCacheControl := insertionSort directives
    surrogateKeyHeader
    rules }

end Validation

end CachePolicy
