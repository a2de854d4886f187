import GovetoEdge.GoJson
import GovetoEdge.HttpHeaders
import GovetoEdge.NetAddresses

/-!
# WAF policies

The firewall policy of a site: rule sets of rules, each with groups of
conditions and an action.  `normalizeAndValidate` trims and completes a policy
in place and refuses what it cannot use; the control plane runs it before a
policy is stored and the edge before it is compiled.

The loops over rule sets, rules, groups and conditions are one loop,
`normalizeEach`, which carries the index of a part, for its default name, and
the ids seen so far.  Numbers are unbounded integers; every number the code
accepts is small.
-/

namespace WafPolicies

open GoStrings Utf8 HttpHeaders NetAddresses

/-- What the functions take from the libraries: the case of code points beyond
ASCII, which code points are printable, regular expressions (a compiled one
gives the first match in a text), the scheme of a URL that can be parsed, and
the first eight bytes of a digest in hexadecimal. -/
structure Library where
  lowerRune : Nat → Nat
  upperRune : Nat → Nat
  printable : Nat → Bool
  regexp : GoString → Except GoString (GoString → Option GoString)
  urlScheme : GoString → Option GoString
  digest : GoString → GoString

/-- A field is compared with values. -/
structure WAFCondition where
  id : GoString
  field : GoString
  fieldName : GoString
  operator : GoString
  value : GoString
  values : List GoString
  negate : Bool
  caseSensitive : Bool
deriving DecidableEq

/-- Conditions under one operator. -/
structure WAFConditionGroup where
  id : GoString
  operator : GoString
  conditions : List WAFCondition
deriving DecidableEq

/-- The groups of a rule. -/
structure WAFConditions where
  operator : GoString
  groups : List WAFConditionGroup
deriving DecidableEq

/-- What a blocked client gets. -/
structure WAFResponse where
  type : GoString
  body : GoString
deriving DecidableEq

/-- What a rule does. -/
structure WAFAction where
  type : GoString
  statusCode : Int
  response : WAFResponse
  redirectURL : GoString
  redirectStatus : Int
  tag : GoString
deriving DecidableEq

/-- Conditions or a rate, and an action. -/
structure WAFRule where
  id : GoString
  name : GoString
  enabled : Bool
  type : GoString
  conditions : WAFConditions
  key : GoString
  keyName : GoString
  requests : Int
  windowSeconds : Int
  burst : Int
  backend : GoString
  failureMode : GoString
  action : WAFAction
deriving DecidableEq

/-- Rules that are switched together. -/
structure WAFRuleSet where
  id : GoString
  name : GoString
  enabled : Bool
  rules : List WAFRule
deriving DecidableEq

/-- A policy; a missing list of rule sets stands for the built-in ones. -/
structure WAFPolicy where
  enabled : Bool
  trustedProxyChain : Bool
  trustedProxies : List GoString
  ruleSets : Option (List WAFRuleSet)
  bodyInspectLimitBytes : Int
  bodyOverLimitAction : GoString
  geoIPDatabase : GoString
deriving DecidableEq

def emptyAction : WAFAction := ⟨[], 0, ⟨[], []⟩, [], 0, []⟩

def emptyRule : WAFRule := ⟨[], [], false, [], ⟨[], []⟩, [], [], 0, 0, 0, [], [], emptyAction⟩

def emptyCondition : WAFCondition := ⟨[], [], [], [], [], [], false, false⟩

def defaultXSSPattern : GoString :=
  lit "(?i)(?:<\\s*script\\b|javascript\\s*:|on(?:error|load|click|mouseover)\\s*=|<\\s*(?:iframe|object|embed|svg)\\b)"

def defaultPathTraversalPattern : GoString := lit "((\\.+)(/+))\x7b2,\x7d"

def defaultSensitiveDirectoryPattern : GoString :=
  lit "(?i)(?:^|/)\\.(?:git|svn|htaccess|idea|env|vscode)(?:/|$)"

def defaultSQLInjectionPattern : GoString :=
  lit "(?i)(?:\\bunion\\b.\x7b0,24\x7d\\bselect\\b|\\bselect\\b.\x7b0,24\x7d\\bfrom\\b|\\bor\\b\\s+['\"]?\\d+['\"]?\\s*=\\s*['\"]?\\d+|(?:--|#|/\\*)\\s*$|\\bsleep\\s*\\(|\\bbenchmark\\s*\\()"

/-- One group with one condition. -/
def singleWAFCondition (condition : WAFCondition) : WAFConditions :=
  ⟨lit "AND", [⟨[], lit "AND", [condition]⟩]⟩

/-- The client is turned away. -/
def defaultBlock (status : Int) : WAFAction :=
  { emptyAction with
    type := lit "SHOW_PAGE", statusCode := status, response := ⟨lit "DEFAULT", []⟩ }

/-- A rule for a pattern. -/
def defaultMatch (id name field pattern : GoString) (action : WAFAction) : WAFRule :=
  { emptyRule with
    id := id, name := name, enabled := true, type := lit "MATCH", action := action
    conditions := singleWAFCondition
      { emptyCondition with
        field := field, operator := lit "REGEX", value := pattern, caseSensitive := true } }

/-- The rule sets of `DefaultWAFPolicy`. -/
def defaultRuleSets : List WAFRuleSet :=
  [⟨lit "builtin-xss", lit "Cross-site scripting", true,
      [defaultMatch (lit "builtin-xss-query") (lit "XSS in query values") (lit "QUERY_VALUES")
          defaultXSSPattern (defaultBlock 403),
        defaultMatch (lit "builtin-xss-body") (lit "XSS in request body") (lit "BODY")
          defaultXSSPattern (defaultBlock 403)]⟩,
    ⟨lit "builtin-path-traversal", lit "Path traversal", true,
      [defaultMatch (lit "builtin-path-traversal-target") (lit "Repeated parent traversal")
        (lit "REQUEST_TARGET") defaultPathTraversalPattern (defaultBlock 403)]⟩,
    ⟨lit "builtin-sensitive-directories", lit "Sensitive directories", true,
      [defaultMatch (lit "builtin-sensitive-directories-path")
        (lit "Repository and environment files") (lit "PATH") defaultSensitiveDirectoryPattern
        (defaultBlock 403)]⟩,
    ⟨lit "builtin-sql-injection", lit "SQL injection", true,
      [defaultMatch (lit "builtin-sql-query") (lit "SQL injection in query values")
          (lit "QUERY_VALUES") defaultSQLInjectionPattern (defaultBlock 403),
        defaultMatch (lit "builtin-sql-body") (lit "SQL injection in request body") (lit "BODY")
          defaultSQLInjectionPattern (defaultBlock 403)]⟩,
    ⟨lit "builtin-cc", lit "CC attack", true,
      [{ emptyRule with
        id := lit "builtin-cc-ip-path", name := lit "Requests per client and path", enabled := true
        type := lit "RATE_LIMIT", key := lit "CLIENT_IP_PATH", requests := 60
        windowSeconds := 60, burst := 20, backend := lit "REDIS", failureMode := lit "LOCAL"
        conditions := ⟨lit "AND", []⟩, action := defaultBlock 429 }]⟩]

section Normalization

variable (lib : Library)

/-- `strings.ToUpper`. -/
def toUpper (s : GoString) : GoString :=
  if s.all (· < 0x80) then s.map upperByte
  else mapRunes (fun r => if r < 0x80 then (upperByte (UInt8.ofNat r)).toNat else lib.upperRune r) s

/-- `strconv.Quote`. -/
def quote (s : GoString) : GoString := GoQuoting.quote lib.printable s

/-- A text that names a constant: trimmed, in upper case, perhaps a default. -/
def constantOr (fallback s : GoString) : GoString :=
  let word := toUpper lib (trimSpace s)
  if word = [] then fallback else word

/-- An id that has not been seen before. -/
def uniqueWAFID (seen : List GoString) (id : GoString) : Except GoString (List GoString) :=
  if 128 < id.length then .error (lit "id cannot exceed 128 characters")
  else if id ∈ seen then .error (lit "duplicate id " ++ quote lib id)
  else .ok (id :: seen)

/-- An error behind the place it belongs to. -/
def atLocation (location : GoString) {α : Type} : Except GoString α → Except GoString α
  | .ok x => .ok x
  | .error e => .error (location ++ lit ": " ++ e)

theorem unmapped_bits_le {p : Prefix}
    (h : p.addr.unmap.bitLen = 32 ∧ p.addr.is4In6 ∧ 96 ≤ p.bits) :
    p.bits - 96 ≤ p.addr.unmap.bitLen := by
  have hwide : p.addr.bitLen ≤ 128 := by cases p.addr <;> simp [Addr.bitLen]
  have hbits := p.bits_le
  omega

/-- An IPv4 prefix in IPv6 form as an IPv4 prefix. -/
def unmapPrefix (p : Prefix) : Prefix :=
  if h : p.addr.unmap.bitLen = 32 ∧ p.addr.is4In6 ∧ 96 ≤ p.bits then
    (prefixFrom p.addr.unmap (p.bits - 96) (unmapped_bits_le h)).masked
  else p

/-- An address or a prefix, in one form. -/
def normalizeWAFPrefix (value : GoString) : Except GoString GoString :=
  match parseAddr value with
  | some address => .ok (hostPrefix address.unmap).string
  | none =>
    match parsePrefix value with
    | some p => .ok (unmapPrefix p.masked).string
    | none => .error (lit "invalid IP or CIDR " ++ quote lib value)

/-- The loop of `normalizeWAFPrefixes`; `result` are the prefixes so far. -/
def normalizeWAFPrefixesFrom (result : List GoString) :
    List GoString → Except GoString (List GoString)
  | [] => .ok result
  | value :: values =>
    let value := trimSpace value
    if value = [] then normalizeWAFPrefixesFrom result values
    else do
      let text ← normalizeWAFPrefix lib value
      if text ∈ result then normalizeWAFPrefixesFrom result values
      else normalizeWAFPrefixesFrom (result ++ [text]) values

/-- The prefixes, each one once. -/
def normalizeWAFPrefixes (values : List GoString) : Except GoString (List GoString) :=
  normalizeWAFPrefixesFrom lib [] values

/-- The fields without a name. -/
def plainFields : List GoString :=
  [lit "METHOD", lit "HOST", lit "PATH", lit "RAW_QUERY", lit "QUERY_VALUES",
    lit "REQUEST_TARGET", lit "CLIENT_IP", lit "USER_AGENT", lit "COUNTRY", lit "REGION"]

/-- White space is trimmed. -/
def trimCondition (c : WAFCondition) : WAFCondition :=
  { c with
    field := toUpper lib (trimSpace c.field)
    fieldName := trimSpace c.fieldName
    operator := toUpper lib (trimSpace c.operator)
    value := trimSpace c.value
    values := c.values.map trimSpace }

/-- The field of a condition and its name. -/
def normalizeField (c : WAFCondition) (location : GoString) : Except GoString WAFCondition :=
  if c.field ∈ plainFields then .ok { c with fieldName := [] }
  else if c.field = lit "BODY" then .ok c
  else if c.field = lit "QUERY" ∨ c.field = lit "COOKIE" then
    if c.fieldName = [] then
      .error (location ++ lit ".field_name is required for " ++ c.field)
    else .ok c
  else if c.field = lit "HEADER" then
    let c := { c with fieldName := canonicalHeaderKey c.fieldName }
    if c.fieldName = [] then .error (location ++ lit ".field_name is required for HEADER")
    else .ok c
  else .error (location ++ lit ".field " ++ quote lib c.field ++ lit " is unsupported")

/-- The pattern of a regular expression. -/
def conditionPattern (c : WAFCondition) : GoString :=
  if c.caseSensitive then c.value else lit "(?i)" ++ c.value

/-- The operator of a condition and what it compares with. -/
def normalizeOperand (c : WAFCondition) (location : GoString) : Except GoString WAFCondition :=
  if c.operator = lit "EXISTS" then .ok { c with value := [], values := [] }
  else if c.operator ∈ [lit "EQUALS", lit "CONTAINS", lit "PREFIX", lit "SUFFIX", lit "REGEX"] then
    if c.value = [] then .error (location ++ lit ".value is required")
    else if c.operator = lit "REGEX" then
      match lib.regexp (conditionPattern c) with
      | .ok _ => .ok c
      | .error e => .error (location ++ lit " has invalid regex: " ++ e)
    else .ok c
  else if c.operator = lit "IN" then
    if c.values = [] then .error (location ++ lit ".values is required for IN") else .ok c
  else if c.operator = lit "CIDR" then
    if c.field ≠ lit "CLIENT_IP" ∨ c.values = [] then
      .error (location ++ lit " CIDR requires CLIENT_IP and at least one value")
    else
      match c.values.find? (fun value => (parsePrefix value).isNone) with
      | some value =>
        .error (location ++ lit " contains invalid CIDR " ++ quote lib value)
      | none => .ok c
  else .error (location ++ lit ".operator " ++ quote lib c.operator ++ lit " is unsupported")

/-- One condition. -/
def normalizeWAFCondition (c : WAFCondition) (location : GoString) :
    Except GoString WAFCondition := do
  let c ← normalizeField lib (trimCondition lib c) location
  normalizeOperand lib c location

/-- A loop over the parts of a policy, which carries their index and the ids
seen so far. -/
def normalizeEach {α : Type} (f : Nat → List GoString → α → Except GoString (α × List GoString)) :
    Nat → List GoString → List α → Except GoString (List α × List GoString)
  | _, seen, [] => .ok ([], seen)
  | i, seen, x :: xs => do
    let (y, seen) ← f i seen x
    let (ys, seen) ← normalizeEach f (i + 1) seen xs
    .ok (y :: ys, seen)

/-- The identifier of a part without one. -/
def generatedWAFChildID (kind parent : GoString) (index : Nat) : GoString :=
  kind ++ lit "-" ++ lib.digest parent ++ lit "-" ++ itoa (index + 1)

/-- A trimmed text, or a default. -/
def trimmedOr (fallback s : GoString) : GoString :=
  if trimSpace s = [] then fallback else trimSpace s

/-- One condition of a group; identifiers are unique. -/
def normalizeGroupCondition (groupId location : GoString) (index : Nat) (seen : List GoString)
    (c : WAFCondition) : Except GoString (WAFCondition × List GoString) := do
  let location := location ++ lit ".conditions[" ++ itoa index ++ lit "]"
  let id := trimmedOr (generatedWAFChildID lib (lit "condition") groupId index) c.id
  let seen ← atLocation location (uniqueWAFID lib seen id)
  let c ← normalizeWAFCondition lib { c with id := id } location
  .ok (c, seen)

def isConnective (s : GoString) : Bool := s = lit "AND" || s = lit "OR"

/-- One group. -/
def normalizeWAFGroup (idPrefix location : GoString) (index : Nat) (seen : List GoString)
    (g : WAFConditionGroup) : Except GoString (WAFConditionGroup × List GoString) := do
  let location := location ++ lit ".groups[" ++ itoa index ++ lit "]"
  let id := trimmedOr (generatedWAFChildID lib (lit "group") idPrefix index) g.id
  let seen ← atLocation location (uniqueWAFID lib seen id)
  let operator := constantOr lib (lit "AND") g.operator
  if !isConnective operator then .error (location ++ lit ".operator must be AND or OR")
  else if g.conditions = [] ∨ 16 < g.conditions.length then
    .error (location ++ lit ".conditions must contain between 1 and 16 conditions")
  else
    let (conditions, seen) ←
      normalizeEach (normalizeGroupCondition lib id location) 0 seen g.conditions
    .ok (⟨id, operator, conditions⟩, seen)

/-- All groups of a rule. -/
def normalizeWAFConditions (location idPrefix : GoString) (required : Bool) (seen : List GoString)
    (c : WAFConditions) : Except GoString (WAFConditions × List GoString) := do
  let operator := constantOr lib (lit "AND") c.operator
  if !isConnective operator then .error (location ++ lit ".operator must be AND or OR")
  else if c.groups = [] then
    if required then .error (location ++ lit ".groups must contain at least one group")
    else .ok (⟨operator, []⟩, seen)
  else if 16 < c.groups.length then
    .error (location ++ lit " cannot contain more than 16 groups")
  else
    let (groups, seen) ← normalizeEach (normalizeWAFGroup lib idPrefix location) 0 seen c.groups
    .ok (⟨operator, groups⟩, seen)

/-- The key of a rate rule and its name. -/
def normalizeRateKey (rule : WAFRule) (location : GoString) : Except GoString WAFRule :=
  let rule :=
    { rule with key := toUpper lib (trimSpace rule.key), keyName := trimSpace rule.keyName }
  if rule.key ∈ [lit "CLIENT_IP", lit "CLIENT_IP_PATH", lit "PATH", lit "GLOBAL"] then
    .ok { rule with keyName := [] }
  else if rule.key = lit "HEADER" then
    let rule := { rule with keyName := canonicalHeaderKey rule.keyName }
    if rule.keyName = [] then .error (location ++ lit ".key_name is required for HEADER")
    else .ok rule
  else if rule.key = lit "COOKIE" then
    if rule.keyName = [] then .error (location ++ lit ".key_name is required for COOKIE")
    else .ok rule
  else .error (location ++ lit ".key " ++ quote lib rule.key ++ lit " is unsupported")

/-- Where a rate rule counts, and what it does when that is out of reach. -/
def normalizeRateBackend (rule : WAFRule) (location : GoString) : Except GoString WAFRule :=
  let backend := constantOr lib (lit "LOCAL") rule.backend
  let failureMode := constantOr lib (lit "LOCAL") rule.failureMode
  if backend ≠ lit "LOCAL" ∧ backend ≠ lit "REDIS" then
    .error (location ++ lit ".backend must be LOCAL or REDIS")
  else if failureMode ∉ [lit "OPEN", lit "CLOSED", lit "LOCAL"] then
    .error (location ++ lit ".failure_mode must be OPEN, CLOSED or LOCAL")
  else
    .ok { rule with
      backend := backend
      failureMode := if backend = lit "LOCAL" then lit "LOCAL" else failureMode }

/-- The limit of a rule. -/
def normalizeRateRule (rule : WAFRule) (location : GoString) : Except GoString WAFRule := do
  let rule ← normalizeRateKey lib rule location
  if rule.requests < 1 ∨ 1000000 < rule.requests then
    .error (location ++ lit ".requests must be between 1 and 1000000")
  else if rule.windowSeconds < 1 ∨ 3600 < rule.windowSeconds then
    .error (location ++ lit ".window_seconds must be between 1 and 3600")
  else if rule.burst < 0 ∨ rule.requests * 10 < rule.burst then
    .error (location ++ lit ".burst must be between 0 and requests*10")
  else normalizeRateBackend lib rule location

/-- The response. -/
def normalizeWAFResponse (r : WAFResponse) (location : GoString) : Except GoString WAFResponse :=
  let type := constantOr lib (lit "DEFAULT") r.type
  if 131072 < r.body.length then .error (location ++ lit ".body cannot exceed 131072 bytes")
  else if type = lit "DEFAULT" then .ok ⟨type, []⟩
  else if type = lit "HTML" ∨ type = lit "TEXT" then
    if r.body = [] then .error (location ++ lit ".body is required for " ++ type)
    else .ok ⟨type, r.body⟩
  else if type = lit "JSON" then
    if GoJson.valid r.body then .ok ⟨type, r.body⟩
    else .error (location ++ lit ".body must contain valid JSON")
  else .error (location ++ lit ".type must be DEFAULT, HTML, TEXT or JSON")

def isTagByte (b : UInt8) : Bool :=
  (65 ≤ b && b ≤ 90) || (97 ≤ b && b ≤ 122) || (48 ≤ b && b ≤ 57)

/-- The pattern of a tag. -/
def isTag (s : GoString) : Bool :=
  match s with
  | [] => false
  | b :: rest =>
    isTagByte b && decide (rest.length ≤ 63) &&
      rest.all fun c => isTagByte c || c = 46 || c = 95 || c = 58 || c = 45

/-- A redirection goes to an HTTP URL or to an absolute path. -/
def redirectTarget (url : GoString) : Bool :=
  match lib.urlScheme url with
  | none => false
  | some scheme =>
    if scheme = [] then url.head? = some 47 else scheme = lit "http" || scheme = lit "https"

/-- The default status of the type. -/
def normalizeStatus (ruleType : GoString) (status : Int) : Int :=
  if status = 0 then (if ruleType = lit "RATE_LIMIT" then 429 else 403) else status

/-- The action. -/
def normalizeWAFAction (a : WAFAction) (ruleType location : GoString) : Except GoString WAFAction :=
  let a := { a with type := constantOr lib (lit "SHOW_PAGE") a.type }
  if a.type = lit "SHOW_PAGE" ∨ a.type = lit "BLOCK" then
    let a := { a with statusCode := normalizeStatus ruleType a.statusCode }
    if a.statusCode < 400 ∨ 599 < a.statusCode then
      .error (location ++ lit ".status_code must be between 400 and 599")
    else if a.type = lit "SHOW_PAGE" then do
      let response ← normalizeWAFResponse lib a.response (location ++ lit ".response")
      .ok { a with response := response }
    else .ok a
  else if a.type ∈ [lit "CAPTCHA", lit "ALLOW", lit "MONITOR"] then .ok a
  else if a.type = lit "REDIRECT" then
    let a := { a with redirectURL := trimSpace a.redirectURL }
    if a.redirectURL.contains 13 ∨ a.redirectURL.contains 10 ∨ a.redirectURL = [] then
      .error (location ++ lit ".redirect_url is invalid")
    else if !redirectTarget lib a.redirectURL then
      .error (location ++ lit ".redirect_url must be an HTTP(S) URL or absolute path")
    else
      let a := { a with redirectStatus := if a.redirectStatus = 0 then 302 else a.redirectStatus }
      if a.redirectStatus ∈ [301, 302, 303, 307, 308] then .ok a
      else .error (location ++ lit ".redirect_status is unsupported")
  else if a.type = lit "TAG" then
    let a := { a with tag := trimSpace a.tag }
    if isTag a.tag then .ok a else .error (location ++ lit ".tag must be 1-64 safe characters")
  else .error (location ++ lit ".type " ++ quote lib a.type ++ lit " is unsupported")

/-- The part of a rule that depends on its type. -/
def normalizeRuleBody (location : GoString) (seen : List GoString) (rule : WAFRule) :
    Except GoString (WAFRule × List GoString) :=
  if rule.type = lit "MATCH" then do
    let rule :=
      { rule with
        key := [], keyName := [], requests := 0, windowSeconds := 0, burst := 0
        backend := [], failureMode := [] }
    let (conditions, seen) ←
      normalizeWAFConditions lib (location ++ lit ".conditions") rule.id true seen rule.conditions
    .ok ({ rule with conditions := conditions }, seen)
  else if rule.type = lit "RATE_LIMIT" then do
    let rule ← normalizeRateRule lib rule location
    let (conditions, seen) ←
      normalizeWAFConditions lib (location ++ lit ".conditions") rule.id false seen rule.conditions
    .ok ({ rule with conditions := conditions }, seen)
  else .error (location ++ lit ".type must be MATCH or RATE_LIMIT")

/-- One rule. -/
def normalizeWAFRule (setId : GoString) (setIndex : Nat) (ruleIndex : Nat) (seen : List GoString)
    (rule : WAFRule) : Except GoString (WAFRule × List GoString) := do
  let location :=
    lit "rule_sets[" ++ itoa setIndex ++ lit "].rules[" ++ itoa ruleIndex ++ lit "]"
  let id := trimmedOr (setId ++ lit "-rule-" ++ itoa (ruleIndex + 1)) rule.id
  let seen ← atLocation location (uniqueWAFID lib seen id)
  let name := trimmedOr (lit "Rule " ++ itoa (ruleIndex + 1)) rule.name
  if 128 < name.length then .error (location ++ lit ".name cannot exceed 128 characters")
  else
    let rule := { rule with id := id, name := name, type := constantOr lib (lit "MATCH") rule.type }
    let (rule, seen) ← normalizeRuleBody lib location seen rule
    let action ← normalizeWAFAction lib rule.action rule.type (location ++ lit ".action")
    .ok ({ rule with action := action }, seen)

/-- One set of rules. -/
def normalizeWAFRuleSet (setIndex : Nat) (seen : List GoString) (set : WAFRuleSet) :
    Except GoString (WAFRuleSet × List GoString) := do
  let location := lit "rule_sets[" ++ itoa setIndex ++ lit "]"
  let id := trimmedOr (lit "rule-set-" ++ itoa (setIndex + 1)) set.id
  let seen ← atLocation location (uniqueWAFID lib seen id)
  let name := trimmedOr (lit "Rule set " ++ itoa (setIndex + 1)) set.name
  if 128 < name.length then .error (location ++ lit ".name cannot exceed 128 characters")
  else if 64 < set.rules.length then .error (location ++ lit " cannot contain more than 64 rules")
  else
    let (rules, seen) ← normalizeEach (normalizeWAFRule lib id setIndex) 0 seen set.rules
    .ok (⟨id, name, set.enabled, rules⟩, seen)

/-- The parts of a policy beside its rules. -/
def normalizeSettings (p : WAFPolicy) : Except GoString WAFPolicy := do
  let action := constantOr lib (lit "PARTIAL") p.bodyOverLimitAction
  if action ≠ lit "BLOCK" ∧ action ≠ lit "PARTIAL" then
    .error (lit "body_over_limit_action must be BLOCK or PARTIAL")
  else if p.bodyInspectLimitBytes < 0 then
    .error (lit "body_inspect_limit_bytes cannot be negative")
  else
    let limit := if p.bodyInspectLimitBytes = 0 then 65536 else p.bodyInspectLimitBytes
    if 67108864 < limit then .error (lit "body_inspect_limit_bytes cannot exceed 67108864")
    else
      let proxies ← atLocation (lit "trusted_proxies") (normalizeWAFPrefixes lib p.trustedProxies)
      if p.trustedProxyChain ∧ proxies = [] then
        .error (lit "trusted_proxies must contain at least one IP or CIDR when trusted_proxy_chain is enabled")
      else
        .ok { p with
          geoIPDatabase := trimSpace p.geoIPDatabase
          bodyOverLimitAction := action
          bodyInspectLimitBytes := limit
          trustedProxies := proxies }

/-- `NormalizeAndValidate`. -/
def normalizeAndValidate (p : WAFPolicy) : Except GoString WAFPolicy := do
  let p ← normalizeSettings lib p
  let sets := p.ruleSets.getD defaultRuleSets
  if 64 < sets.length then .error (lit "WAF policy cannot contain more than 64 rule sets")
  else
    let (sets, _) ← normalizeEach (normalizeWAFRuleSet lib) 0 [] sets
    .ok { p with ruleSets := some sets }

end Normalization

end WafPolicies
