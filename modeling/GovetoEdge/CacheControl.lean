import GovetoEdge.Utf8

/-!
# Cache-Control values

The directive functions of the cache handler.  A value is cut at the commas
outside of quoted strings; a directive is recognised by the name in front of
its equals sign.
-/

namespace CacheControl

open GoStrings Utf8

/-- One pass over the bytes: the part being read is given from its end, with
the two flags of the scanner. -/
def splitLoop : GoString → Bool → Bool → GoString → List GoString
  | part, _, _, [] => [part.reverse]
  | part, quoted, escaped, b :: rest =>
    if escaped then splitLoop (b :: part) quoted false rest
    else if b = 92 ∧ quoted then splitLoop (b :: part) quoted true rest
    else if b = 34 then splitLoop (b :: part) (!quoted) false rest
    else if b = 44 ∧ !quoted then part.reverse :: splitLoop [] quoted false rest
    else splitLoop (b :: part) quoted false rest

/-- The parts between commas outside quotes. -/
def splitCacheControl (value : GoString) : List GoString := splitLoop [] false false value

/-- The name of a directive. -/
def directiveName (part : GoString) : GoString := trimSpace (cut part 61).1

/-- A part has the name. -/
def hasDirective (value directive : GoString) : Bool :=
  (splitCacheControl value).any fun part => equalFold (directiveName part) directive

/-- A directive without spaces, in lower case. -/
def squeeze (lowerRune : Nat → Nat) (s : GoString) : GoString :=
  toLower lowerRune ((trimSpace s).filter (· ≠ 32))

/-- Whether a directive is one of those configured; one configured without a
value matches all values. -/
def matchesPart (lowerRune : Nat → Nat) (configured : List GoString) (part : GoString) : Bool :=
  let part := squeeze lowerRune part
  configured.any fun candidate =>
    let candidate := squeeze lowerRune candidate
    part = candidate ∨ (!candidate.contains 61 ∧ (cut part 61).1 = candidate)

/-- One of the configured directives is there. -/
def matchesConfigured (lowerRune : Nat → Nat) (value : GoString) (configured : List GoString) :
    Bool :=
  (splitCacheControl value).any (matchesPart lowerRune configured)

/-- `matchesCacheControl` of the matcher, which cuts at every comma. -/
def matchesCacheControl (lowerRune : Nat → Nat) (values configured : List GoString) : Bool :=
  ((join values (lit ",")).splitOn 44).any (matchesPart lowerRune configured)

/-- The kept parts; the first occurrence of the directive gets the new value,
the others go. -/
def replaceLoop (directive replacement : GoString) : Bool → List GoString → List GoString
  | true, [] => []
  | false, [] => [directive ++ 61 :: replacement]
  | replaced, part :: parts =>
    if equalFold (directiveName part) directive then
      if replaced then replaceLoop directive replacement true parts
      else (directive ++ 61 :: replacement) :: replaceLoop directive replacement true parts
    else if trimSpace part ≠ [] then
      trimSpace part :: replaceLoop directive replacement replaced parts
    else replaceLoop directive replacement replaced parts

/-- The directive gets a value, and its other places go. -/
def replaceDirective (value directive replacement : GoString) : GoString :=
  join (replaceLoop directive replacement false (splitCacheControl value)) (lit ", ")

end CacheControl
