import GovetoEdge.CacheControl
import GovetoEdge.CachePolicy

/-!
# Which requests reach the cache

The route of a cache rule takes a request with one of the policy's methods
that its matcher accepts.  A byte range the cache can serve is attached to the
request; a request with any other range passes the cache by.
-/

namespace CacheMatching

open GoStrings Utf8 HttpHeaders CacheKeys CachePolicy CacheControl

/-- `cacherange.Spec`: a closed range, or the last bytes where `suffixLength`
is not zero. -/
structure Spec where
  start : Nat
  stop : Nat
  suffixLength : Nat
  ordered : start ≤ stop
deriving DecidableEq

/-- `ParseUint` where only a result without error counts. -/
def parseBound (s : GoString) : Option Nat :=
  match parseUint s with
  | (n, true) => some n
  | (_, false) => none

/-- One range of bytes, or none. -/
def parseCacheableRange (value : GoString) : Option Spec :=
  let (unit, interval, ok) := cut (trimSpace value) 61
  if !ok ∨ !equalFold (trimSpace unit) (lit "bytes") ∨ interval.contains 44 then none
  else
    let (startText, endText, ok) := cut (trimSpace interval) 45
    if !ok then none
    else
      let startText := trimSpace startText
      let endText := trimSpace endText
      if startText = [] then do
        let suffix ← parseBound endText
        if suffix > 0 then some ⟨0, 0, suffix, le_refl 0⟩ else none
      else do
        let start ← parseBound startText
        let stop ← parseBound endText
        if h : start ≤ stop then some ⟨start, stop, 0, h⟩ else none

/-- `path.Ext`: what follows the last dot of the last element, with the dot. -/
def ext (path : GoString) : GoString :=
  let last := path.reverse.takeWhile (· ≠ 47)
  if last.contains 46 then 46 :: (last.takeWhile (· ≠ 46)).reverse else []

variable (lib : Library)

/-- One condition on the path. -/
def matchRule (requestPath : GoString) (rule : CacheConditionRule) : Bool :=
  if rule.type = lit "ALL" then true
  else if rule.type = lit "EXTENSION" then
    rule.values.contains (trimDot (toLower lib.lowerRune (ext requestPath)))
  else if rule.type = lit "PATH_PREFIX" then rule.values.any (·.isPrefixOf requestPath)
  else if rule.type = lit "PATH_REGEX" then lib.matchString rule.value requestPath
  else false

/-- AND or OR. -/
def combine (operator : GoString) (values : List Bool) : Bool :=
  if operator = lit "AND" then values.all id else values.any id

/-- The groups, combined. -/
def matchConditions (conditions : CacheConditions) (requestPath : GoString) : Bool :=
  combine conditions.groupOperator (conditions.groups.map fun group =>
    combine group.operator (group.rules.map (matchRule lib requestPath)))

/-- The matcher of a rule: `none` for a request it does not take, otherwise
the range attached to the request. -/
def route (policy : Policy) (rule : CacheRule) (request : Request) : Option (Option Spec) :=
  let range := join (request.header.values (lit "Range")) (lit ",")
  if request.method ∉ policy.methods ∨
      matchesCacheControl lib.lowerRune (request.header.values (lit "Cache-Control"))
        policy.bypassCacheControl then none
  else if range ≠ [] ∧ (!policy.cacheRangeRequests ∨ request.header.get (lit "If-Range") ≠ [] ∨
      parseCacheableRange range = none) then none
  else if matchConditions lib rule.conditions request.url.path then
    some (if range = [] then none else parseCacheableRange range)
  else none

end CacheMatching
