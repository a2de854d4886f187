import GovetoEdge.GoQuoting
import GovetoEdge.TokenParsers
import GovetoEdge.WafPolicies

/-!
# Parsing WAF policies

The parser of the policy language.  The lexer is a parameter: of any text it makes
tokens or an error.  The loops of the parser are written as one `loop` each over a
function for one round, which goes on with what has been read so far or returns a
value.
-/

namespace WafDsl

open GoStrings WafPolicies NetAddresses TokenParsers

/-- The rules of `dslLexer`, by their names. -/
inductive Kind
  | whitespace
  | comment
  | cidr
  | address
  | duration
  | number
  | string
  | ident
  | punct
deriving DecidableEq

/-- A token of the lexer. -/
structure Lexeme where
  kind : Kind
  value : GoString
  line : Nat
  column : Nat

/-- What the lexer makes of a text. -/
abbrev Lexer := GoString → Except ParseError (List Lexeme)

/-- White space and comments are dropped. -/
def isSkipped (kind : Kind) : Bool := kind = .whitespace || kind = .comment

abbrev ParserM := TokenParsers.ParserM Kind

section Parsing

variable (lib : Library)

/-- White space and comments are left out. -/
def newParser (lexer : Lexer) (source : GoString) : Except Fault (Parser Kind) :=
  match lexer source with
  | .ok lexemes =>
    .ok
      { tokens := (lexemes.filter fun t => !isSkipped t.kind).map fun t =>
          ⟨some t.kind, t.value, t.line, t.column⟩
        index := 0 }
  | .error e => .error (.error e)

/-- The word, or an error. -/
def expect (value : GoString) : ParserM Unit := do
  let accepted ← accept value
  if accepted then pure () else errorHere (lit "expected " ++ quote lib value)

/-- `wrapError` around an `expect`. -/
def expectWrapped (value message : GoString) : ParserM Unit := do
  let accepted ← accept value
  if accepted then pure ()
  else errorHere (message ++ lit ": " ++ (lit "expected " ++ quote lib value))

/-- `and` or `or`. -/
def parseConnector : ParserM GoString := do
  let and ← accept (lit "and")
  if and then pure (lit "AND")
  else
    let or ← accept (lit "or")
    if or then pure (lit "OR") else errorHere (lit "expected and, or, or a closing parenthesis")

/-- A switch. -/
def parseEnabled : ParserM Bool := do
  let enabled ← accept (lit "enabled")
  if enabled then pure true
  else
    let disabled ← accept (lit "disabled")
    if disabled then pure false else errorHere (lit "expected enabled or disabled")

/-- A quoted text. -/
def parseString : ParserM GoString := do
  let t ← peek
  if t.typeName ≠ some .string then errorHere (lit "expected a quoted string")
  else
    advance
    match GoQuoting.unquote t.value with
    | some value => pure value
    | none => errorAt (lit "invalid syntax") t

/-- The error of `strconv.Atoi` for digits. -/
def atoiError (digits : GoString) : GoString :=
  lit "strconv.Atoi: parsing " ++ quote lib digits ++ lit ": value out of range"

/-- A number. -/
def parseNumber : ParserM Int := do
  let t ← peek
  if t.typeName ≠ some .number then errorHere (lit "expected a number")
  else
    advance
    match parseInt t.value with
    | some value => pure value
    | none => errorAt (atoiError lib t.value) t

/-- The error of this number has no position, and is shown at the start. -/
def parseDuration : ParserM Int := do
  let t ← peek
  if t.typeName ≠ some .duration then
    errorHere (lit "expected a duration in seconds, such as 60s")
  else
    advance
    let digits := if (lit "s").isSuffixOf t.value then t.value.dropLast else t.value
    match parseInt digits with
    | some value => pure value
    | none => fail (atoiError lib digits) 1 1

/-- The names of the fields without a name of their own. -/
def fieldWords : List (GoString × GoString) :=
  [(lit "METHOD", lit "http.request.method"), (lit "HOST", lit "http.host"),
    (lit "PATH", lit "http.request.uri.path"), (lit "RAW_QUERY", lit "http.request.uri.query"),
    (lit "QUERY_VALUES", lit "http.request.uri.query.values"),
    (lit "REQUEST_TARGET", lit "http.request.target"), (lit "BODY", lit "http.request.body.raw"),
    (lit "CLIENT_IP", lit "ip.src"), (lit "COUNTRY", lit "ip.src.country"),
    (lit "REGION", lit "ip.src.region_code"), (lit "USER_AGENT", lit "http.user_agent")]

/-- The fields that are written with a name in brackets. -/
def namedFieldWords : List (GoString × GoString) :=
  [(lit "QUERY", lit "http.request.uri.query"), (lit "HEADER", lit "http.request.headers"),
    (lit "COOKIE", lit "http.request.cookies")]

/-- Where a field is looked for, and its name. -/
def parseField (value : GoString) : Option (GoString × GoString) :=
  match (fieldWords.map Prod.swap).lookup value with
  | some field => some (field, [])
  | none =>
    namedFieldWords.findSome? fun (field, word) =>
      let start := word ++ lit "["
      if start.isPrefixOf value ∧ (lit "]").isSuffixOf value then
        match GoQuoting.unquote (value.drop start.length).dropLast with
        | some name => if name ≠ [] then some (field, name) else none
        | none => none
      else none

/-- A field, with a name in brackets behind one of these words. -/
def parseBracketed (words : List GoString) (fieldValue : GoString) : ParserM GoString :=
  if fieldValue ∈ words then do
    let bracket ← accept (lit "[")
    if bracket then
      let name ← parseString
      expect lib (lit "]")
      pure (fieldValue ++ lit "[" ++ quote lib name ++ lit "]")
    else pure fieldValue
  else pure fieldValue

/-- The values of a set so far. -/
structure SetValues where
  values : List GoString := []
  cidr : Bool := false
  stringsSeen : Bool := false

/-- One value of a set. -/
def parseSetRound (allowCIDR : Bool) (s : SetValues) :
    ParserM (SetValues ⊕ (List GoString × Bool)) := do
  let closed ← accept (lit "\x7d")
  if closed then pure (.inr (s.values, s.cidr))
  else
    let t ← peek
    if allowCIDR ∧ (t.typeName = some .cidr ∨ t.typeName = some .address) then
      if s.stringsSeen then errorHere (lit "CIDR and string values cannot be mixed in one set")
      else
        advance
        let _ ← accept (lit ",")
        pure (.inl { s with values := s.values ++ [t.value], cidr := true })
    else if t.typeName = some .string then
      if s.cidr then errorHere (lit "CIDR and string values cannot be mixed in one set")
      else
        let value ← parseString
        let _ ← accept (lit ",")
        pure (.inl { s with values := s.values ++ [value], stringsSeen := true })
    else errorHere (lit "expected a quoted value or CIDR")

/-- The values of a condition. -/
def parseConditionSet (allowCIDR : Bool) : ParserM (List GoString × Bool) := do
  expect lib (lit "\x7b")
  loop (parseSetRound allowCIDR) {}

/-- Values in brackets. -/
def parseStringSet (allowCIDR : Bool) : ParserM (List GoString) := do
  let (values, _) ← parseConditionSet lib allowCIDR
  pure values

/-- Addresses among prefixes stand for themselves alone. -/
def hostPrefixes : List GoString → ParserM (List GoString)
  | [] => pure []
  | value :: values => do
    if value.contains 47 then
      let rest ← hostPrefixes values
      pure (value :: rest)
    else
      match parseAddr value with
      | some address =>
        let rest ← hostPrefixes values
        pure ((hostPrefix address).string :: rest)
      | none => errorHere (lit "invalid IP address " ++ quote lib value)

/-- The operators that are followed by a string. -/
def valueWords : List (GoString × GoString) :=
  [(lit "eq", lit "EQUALS"), (lit "contains", lit "CONTAINS"), (lit "starts_with", lit "PREFIX"),
    (lit "ends_with", lit "SUFFIX"), (lit "matches", lit "REGEX")]

/-- What stands behind the operator of a condition. -/
def parseOperand (c : WAFCondition) (operator : GoString) : ParserM WAFCondition :=
  if operator = lit "exists" then pure { c with operator := lit "EXISTS" }
  else
    match valueWords.lookup operator with
    | some name => do
      let value ← parseString
      pure { c with operator := name, value := value }
    | none =>
      if operator = lit "in" then do
        let (values, cidr) ← parseConditionSet lib (c.field = lit "CLIENT_IP")
        if cidr then
          let values ← hostPrefixes lib values
          pure { c with values := values, operator := lit "CIDR" }
        else pure { c with values := values, operator := lit "IN" }
      else do
        let t ← previous
        errorAt (lit "unsupported condition operator " ++ quote lib operator) t

/-- A condition up to its field: whether it is negated, the field and its
name. -/
def parseConditionField : ParserM (Bool × GoString × GoString) := do
  let negate ← accept (lit "not")
  let fieldToken ← peek
  if fieldToken.typeName ≠ some .ident then errorHere (lit "expected a request field")
  else
    advance
    let fieldValue ← parseBracketed lib (namedFieldWords.map Prod.snd) fieldToken.value
    match parseField fieldValue with
    | none => errorAt (lit "unsupported request field " ++ quote lib fieldValue) fieldToken
    | some (field, name) => pure (negate, field, name)

/-- The field, the operator and the values. -/
def parseCondition : ParserM WAFCondition := do
  let (negate, field, name) ← parseConditionField lib
  let operator ← peek
  advance
  let c ← parseOperand lib
    { emptyCondition with negate := negate, field := field, fieldName := name } operator.value
  let caseSensitive ← accept (lit "case_sensitive")
  pure { c with caseSensitive := caseSensitive }

/-- What stands behind the conditions of a group so far. -/
def parseBehindCondition (g : WAFConditionGroup) :
    ParserM (WAFConditionGroup ⊕ WAFConditionGroup) := do
  let atEnd ← done
  let t ← peek
  if atEnd ∨ t.value = lit ")" then pure (.inr g)
  else
    let connector ← parseConnector
    if g.conditions.length = 1 then pure (.inl { g with operator := connector })
    else if g.operator ≠ connector then
      errorHere (lit "conditions in a group must use one consistent and/or operator")
    else pure (.inl g)

/-- One condition of a group. -/
def parseGroupRound (g : WAFConditionGroup) : ParserM (WAFConditionGroup ⊕ WAFConditionGroup) := do
  let c ← parseCondition lib
  parseBehindCondition { g with conditions := g.conditions ++ [c] }

/-- Conditions in parentheses. -/
def parseGroupBody : ParserM WAFConditionGroup := do
  let t ← peek
  if t.value = lit ")" then pure ⟨[], lit "AND", []⟩
  else loop (parseGroupRound lib) ⟨[], lit "AND", []⟩

/-- `group` and its conditions. -/
def parseGroupFragment : ParserM WAFConditionGroup := do
  expect lib (lit "group")
  expect lib (lit "(")
  let group ← parseGroupBody lib
  expect lib (lit ")")
  pure group

/-- What stands behind the groups of a rule so far. -/
def parseBehindGroup (c : WAFConditions) : ParserM (WAFConditions ⊕ WAFConditions) := do
  let closed ← accept (lit ")")
  if closed then pure (.inr c)
  else
    let connector ← parseConnector
    if c.groups.length = 1 then pure (.inl { c with operator := connector })
    else if c.operator ≠ connector then
      errorHere (lit "outer condition groups must use one consistent and/or operator")
    else pure (.inl c)

/-- One group. -/
def parseConditionsRound (c : WAFConditions) : ParserM (WAFConditions ⊕ WAFConditions) := do
  expectWrapped lib (lit "(") (lit "each condition group must be parenthesized")
  let group ← parseGroupBody lib
  expect lib (lit ")")
  parseBehindGroup { c with groups := c.groups ++ [group] }

/-- `when` and its groups. -/
def parseConditions : ParserM WAFConditions := do
  expect lib (lit "(")
  loop (parseConditionsRound lib) ⟨lit "AND", []⟩

/-- The page of an action. -/
def parseResponse : ParserM WAFResponse := do
  expect lib (lit "response")
  let t ← peek
  advance
  if t.value ≠ lit "default" then
    let body ← parseString
    pure ⟨toUpper lib t.value, body⟩
  else pure ⟨toUpper lib t.value, []⟩

/-- What a rule does. -/
def parseAction : ParserM WAFAction := do
  let action ← peek
  if action.typeName ≠ some .ident then errorHere (lit "expected an action")
  else
    advance
    if action.value = lit "block" then
      expect lib (lit "status")
      let status ← parseNumber lib
      pure { emptyAction with type := lit "BLOCK", statusCode := status }
    else if action.value = lit "show_page" then
      expect lib (lit "status")
      let status ← parseNumber lib
      let response ← parseResponse lib
      pure { emptyAction with type := lit "SHOW_PAGE", statusCode := status, response := response }
    else if action.value = lit "captcha" then pure { emptyAction with type := lit "CAPTCHA" }
    else if action.value = lit "allow" then pure { emptyAction with type := lit "ALLOW" }
    else if action.value = lit "monitor" then pure { emptyAction with type := lit "MONITOR" }
    else if action.value = lit "redirect" then
      let url ← parseString
      expect lib (lit "status")
      let status ← parseNumber lib
      pure { emptyAction with type := lit "REDIRECT", redirectURL := url, redirectStatus := status }
    else if action.value = lit "tag" then
      let tag ← parseString
      pure { emptyAction with type := lit "TAG", tag := tag }
    else errorAt (lit "unsupported action " ++ quote lib action.value) action

/-- The sign between an address and a path. -/
def acceptPlus (fieldValue : GoString) : ParserM Bool :=
  if fieldValue = lit "ip.src" then accept (lit "+") else pure false

/-- What a limit counts by. -/
def parseRateKey : ParserM (GoString × GoString) := do
  let first ← peek
  if first.typeName ≠ some .ident then errorHere (lit "expected a counter key")
  else
    advance
    let fieldValue ← parseBracketed lib [lit "http.request.headers", lit "http.request.cookies"]
      first.value
    let plus ← acceptPlus fieldValue
    if plus then
      expect lib (lit "http.request.uri.path")
      pure (lit "CLIENT_IP_PATH", [])
    else if fieldValue = lit "ip.src" then pure (lit "CLIENT_IP", [])
    else if fieldValue = lit "http.request.uri.path" then pure (lit "PATH", [])
    else if fieldValue = lit "global" then pure (lit "GLOBAL", [])
    else
      match parseField fieldValue with
      | some (field, name) =>
        if field = lit "HEADER" ∨ field = lit "COOKIE" then pure (field, name)
        else errorAt (lit "unsupported counter key " ++ quote lib fieldValue) first
      | none => errorAt (lit "unsupported counter key " ++ quote lib fieldValue) first

/-- Where it counts. -/
def parseBackend : ParserM (GoString × GoString) := do
  let t ← peek
  let backend := toUpper lib t.value
  if backend ≠ lit "LOCAL" ∧ backend ≠ lit "REDIS" then
    errorHere (lit "backend must be local or redis")
  else
    advance
    if backend = lit "LOCAL" then pure (backend, lit "LOCAL")
    else
      expect lib (lit "fallback")
      let t ← peek
      let fallback := toUpper lib t.value
      if fallback ≠ lit "LOCAL" ∧ fallback ≠ lit "OPEN" ∧ fallback ≠ lit "CLOSED" then
        errorHere (lit "fallback must be local, open, or closed")
      else
        advance
        pure (backend, fallback)

/-- Which properties of a rule have been read. -/
structure RuleSeen where
  when_ : Bool := false
  action : Bool := false
  count : Bool := false
  limit : Bool := false
  backend : Bool := false

/-- One property of a rule. -/
def parseRuleProperty (result : WAFRule) (seen : RuleSeen) : ParserM (WAFRule × RuleSeen) := do
  let t ← peek
  let rate : Bool := result.type = lit "RATE_LIMIT"
  if t.value = lit "when" then
    if seen.when_ then errorHere (lit "when may only be declared once")
    else
      advance
      let conditions ← parseConditions lib
      pure ({ result with conditions := conditions }, { seen with when_ := true })
  else if t.value = lit "count_by" then
    if !rate ∨ seen.count then errorHere (lit "count_by is only valid once in a rate_limit rule")
    else
      advance
      let (key, name) ← parseRateKey lib
      pure ({ result with key := key, keyName := name }, { seen with count := true })
  else if t.value = lit "limit" then
    if !rate ∨ seen.limit then errorHere (lit "limit is only valid once in a rate_limit rule")
    else
      advance
      let requests ← parseNumber lib
      expect lib (lit "per")
      let window ← parseDuration lib
      expect lib (lit "burst")
      let burst ← parseNumber lib
      pure ({ result with requests := requests, windowSeconds := window, burst := burst },
        { seen with limit := true })
  else if t.value = lit "backend" then
    if !rate ∨ seen.backend then errorHere (lit "backend is only valid once in a rate_limit rule")
    else
      advance
      let (backend, failureMode) ← parseBackend lib
      pure ({ result with backend := backend, failureMode := failureMode },
        { seen with backend := true })
  else if t.value = lit "then" then
    if seen.action then errorHere (lit "then may only be declared once")
    else
      advance
      let action ← parseAction lib
      pure ({ result with action := action }, { seen with action := true })
  else errorHere (lit "expected when, count_by, limit, backend, or then")

/-- One property of a rule. -/
def parseRuleRound (s : WAFRule × RuleSeen) :
    ParserM ((WAFRule × RuleSeen) ⊕ (WAFRule × RuleSeen)) := do
  let closed ← accept (lit "\x7d")
  if closed then pure (.inr s)
  else
    let atEnd ← done
    if atEnd then errorHere (lit "expected rule property or closing brace")
    else
      let next ← parseRuleProperty lib s.1 s.2
      pure (.inl next)

/-- The type of a rule by its first word. -/
def parseRuleType : ParserM GoString := do
  let t ← peek
  if t.value = lit "rule" then
    advance
    pure (lit "MATCH")
  else if t.value = lit "rate_limit" then
    advance
    pure (lit "RATE_LIMIT")
  else errorHere (lit "expected rule or rate_limit")

/-- The checks behind the last property of a rule. -/
def checkRule (result : WAFRule) (seen : RuleSeen) : ParserM WAFRule :=
  if result.type = lit "MATCH" ∧ !seen.when_ then
    errorHere (lit "rule requires a when expression")
  else if result.type = lit "RATE_LIMIT" ∧ !(seen.count && seen.limit && seen.backend) then
    errorHere (lit "rate_limit requires count_by, limit, and backend")
  else if !seen.action then errorHere (lit "rule requires a then action")
  else pure result

/-- A rule up to its opening brace. -/
def parseRuleHead : ParserM WAFRule := do
  let type ← parseRuleType
  let id ← parseString
  let name ← parseString
  let enabled ← parseEnabled
  expect lib (lit "\x7b")
  pure { emptyRule with
    type := type, id := id, name := name, enabled := enabled, conditions := ⟨lit "AND", []⟩ }

/-- A rule. -/
def parseRule : ParserM WAFRule := do
  let head ← parseRuleHead lib
  let (result, seen) ← loop (parseRuleRound lib) (head, {})
  checkRule result seen

/-- One rule of a set. -/
def parseRulesRound (rules : List WAFRule) : ParserM (List WAFRule ⊕ List WAFRule) := do
  let closed ← accept (lit "\x7d")
  if closed then pure (.inr rules)
  else
    let atEnd ← done
    if atEnd then errorHere (lit "expected rule or closing brace")
    else
      let rule ← parseRule lib
      pure (.inl (rules ++ [rule]))

/-- A rule set up to its opening brace. -/
def parseRuleSetHead : ParserM WAFRuleSet := do
  expect lib (lit "ruleset")
  let id ← parseString
  let name ← parseString
  let enabled ← parseEnabled
  expect lib (lit "\x7b")
  pure ⟨id, name, enabled, []⟩

/-- A set of rules. -/
def parseRuleSet : ParserM WAFRuleSet := do
  let head ← parseRuleSetHead lib
  let rules ← loop (parseRulesRound lib) []
  pure { head with rules := rules }

/-- Which properties of a policy have been read. -/
structure PolicySeen where
  proxyChain : Bool := false
  proxies : Bool := false
  bodyLimit : Bool := false
  bodyOverLimit : Bool := false

/-- What becomes of long bodies. -/
def parseOverLimit : ParserM GoString := do
  let block ← accept (lit "block")
  if block then pure (lit "BLOCK")
  else
    let part ← accept (lit "partial")
    if part then pure (lit "PARTIAL") else errorHere (lit "expected block or partial")

/-- One property of a policy. -/
def parsePolicyProperty (result : WAFPolicy) (seen : PolicySeen) :
    ParserM (WAFPolicy × PolicySeen) := do
  let t ← peek
  if t.value = lit "trusted_proxy_chain" then
    if seen.proxyChain then errorHere (lit "trusted_proxy_chain may only be declared once")
    else
      advance
      let enabled ← parseEnabled
      pure ({ result with trustedProxyChain := enabled }, { seen with proxyChain := true })
  else if t.value = lit "trusted_proxies" then
    if seen.proxies then errorHere (lit "trusted_proxies may only be declared once")
    else
      advance
      let proxies ← parseStringSet lib true
      pure ({ result with trustedProxies := proxies }, { seen with proxies := true })
  else if t.value = lit "body_inspect_limit" then
    if seen.bodyLimit then errorHere (lit "body_inspect_limit may only be declared once")
    else
      advance
      let limit ← parseNumber lib
      pure ({ result with bodyInspectLimitBytes := limit }, { seen with bodyLimit := true })
  else if t.value = lit "body_over_limit" then
    if seen.bodyOverLimit then errorHere (lit "body_over_limit may only be declared once")
    else
      advance
      let action ← parseOverLimit
      pure ({ result with bodyOverLimitAction := action }, { seen with bodyOverLimit := true })
  else if t.value = lit "ruleset" then
    let set ← parseRuleSet lib
    pure ({ result with ruleSets := some (result.ruleSets.getD [] ++ [set]) }, seen)
  else
    errorHere (lit "expected trusted_proxy_chain, trusted_proxies, body_inspect_limit, body_over_limit, or ruleset")

/-- One property of a policy. -/
def parsePolicyRound (s : WAFPolicy × PolicySeen) :
    ParserM ((WAFPolicy × PolicySeen) ⊕ WAFPolicy) := do
  let closed ← accept (lit "\x7d")
  if closed then pure (.inr s.1)
  else
    let atEnd ← done
    if atEnd then errorHere (lit "expected policy property or closing brace")
    else
      let next ← parsePolicyProperty lib s.1 s.2
      pure (.inl next)

/-- A policy up to its opening brace. -/
def parsePolicyHead : ParserM WAFPolicy := do
  expect lib (lit "waf")
  let enabled ← parseEnabled
  expect lib (lit "\x7b")
  pure ⟨enabled, false, [], some [], 0, [], []⟩

/-- A policy. -/
def parsePolicy : ParserM WAFPolicy := do
  let head ← parsePolicyHead lib
  loop (parsePolicyRound lib) (head, {})

/-- A part of a policy; any other word is refused. -/
inductive Scope
  | policy
  | ruleSet
  | rule
  | group
  | other (name : GoString)
deriving DecidableEq

/-- A part that has been read. -/
inductive Parsed
  | policy (p : WAFPolicy)
  | ruleSet (s : WAFRuleSet)
  | rule (r : WAFRule)
  | group (g : WAFConditionGroup)
deriving DecidableEq

def unsupportedScope (name : GoString) : GoString := lit "unsupported DSL scope " ++ quote lib name

/-- The part that is asked for. -/
def parseScope : Scope → ParserM Parsed
  | .policy => do
    let p ← parsePolicy lib
    pure (.policy p)
  | .ruleSet => do
    let s ← parseRuleSet lib
    pure (.ruleSet s)
  | .rule => do
    let r ← parseRule lib
    pure (.rule r)
  | .group => do
    let g ← parseGroupFragment lib
    pure (.group g)
  | .other name => fail (unsupportedScope lib name) 1 1

/-- A part with nothing behind it. -/
def parseAll (scope : Scope) : ParserM Parsed := do
  let parsed ← parseScope lib scope
  let atEnd ← done
  if atEnd then pure parsed
  else
    let t ← peek
    errorAt (lit "unexpected token " ++ quote lib t.value) t

/-- The whole text. -/
def parse (lexer : Lexer) (source : GoString) (scope : Scope) : Except Fault Parsed := do
  let p ← newParser lexer source
  let (parsed, _) ← parseAll lib scope p
  .ok parsed

end Parsing

end WafDsl
