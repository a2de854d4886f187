import GovetoEdge.CachePolicy

/-!
# Conditional requests

`Status` and `RangeAllowed` of the precondition package.  Times are read by a
parameter, `parseTime`; a value that is no time has none.
-/

namespace HttpConditions

open GoStrings HttpHeaders CacheKeys CachePolicy

/-- `strings.HasPrefix` with `W/`. -/
def isWeak (tag : GoString) : Bool := (lit "W/").isPrefixOf tag

/-- A tag without its weakness. -/
def strip (tag : GoString) : GoString := if isWeak tag then tag.drop 2 else tag

/-- The loop over a list of entity tags; every round takes at least the two
quotes off, so that the length of the list bounds the rounds. -/
def matchLoop (current : GoString) (weak : Bool) : Nat → GoString → Bool
  | 0, _ => false
  | _ + 1, [] => false
  | fuel + 1, list =>
    let list := list.dropWhile fun b => b = 32 ∨ b = 9 ∨ b = 44
    let quoted := strip list
    if quoted.head? ≠ some 34 then false
    else
      let (tag, rest, found) := cut quoted.tail 34
      if !found then false
      else
        let candidate := (if isWeak list then lit "W/" else []) ++ 34 :: tag ++ [34]
        (weak ∧ strip candidate = strip current) ∨
          (!weak ∧ !isWeak candidate ∧ candidate = current) ∨ matchLoop current weak fuel rest

/-- The list has the tag, or is `*`. -/
def matchETags (list current : GoString) (weak : Bool) : Bool :=
  trimSpace list = lit "*" ∨ matchLoop current weak list.length list

variable (parseTime : GoString → Option Int)

/-- Whether a stored time lies after the one a request names. -/
def modifiedAfter (modified since : GoString) : Option Bool := do
  let modified ← parseTime modified
  let since ← parseTime since
  some (since < modified)

/-- 304 or 412 where a precondition ends the request. -/
def status (request : Request) (code : Nat) (header : Header) : Option Nat :=
  if code < 200 ∨ code ≥ 300 then none
  else
    let get := request.method = methodGet ∨ request.method = methodHead
    let etag := header.get (lit "ETag")
    let modified := header.get (lit "Last-Modified")
    let ifMatch := join (request.header.values (lit "If-Match")) (lit ",")
    let unmodified := request.header.get (lit "If-Unmodified-Since")
    let ifNoneMatch := join (request.header.values (lit "If-None-Match")) (lit ",")
    let since := request.header.get (lit "If-Modified-Since")
    if ifMatch ≠ [] ∧ !matchETags ifMatch etag false then some 412
    else if ifMatch = [] ∧ unmodified ≠ [] ∧ modifiedAfter parseTime modified unmodified = some true
      then some 412
    else if ifNoneMatch ≠ [] then
      if matchETags ifNoneMatch etag true then some (if get then 304 else 412) else none
    else if get ∧ modifiedAfter parseTime modified since = some false then some 304
    else none

/-- `If-Range` lets the range be served. -/
def rangeAllowed (request : Request) (header : Header) : Bool :=
  let value := request.header.get (lit "If-Range")
  if value = [] then true
  else if value.head? = some 34 ∨ isWeak value then
    !isWeak value ∧ value = header.get (lit "ETag")
  else
    match parseTime value, parseTime (header.get (lit "Last-Modified")) with
    | some date, some modified => modified = date
    | _, _ => false

/-- A precondition ends a request without a body. -/
theorem status_eq_some {request : Request} {code : Nat} {header : Header} {result : Nat}
    (h : status parseTime request code header = some result) : result = 304 ∨ result = 412 := by
  unfold status at h
  grind

end HttpConditions
