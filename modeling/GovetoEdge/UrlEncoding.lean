import GovetoEdge.GoStrings

/-!
# Percent encoding

The escaping functions of the `net/url` package for the two places the models
need: components of a query, where a space is written as a plus sign, and
paths.
-/

namespace UrlEncoding

open GoStrings

/-- Where a text stands in a URL. -/
inductive Mode
  | path
  | queryComponent
deriving DecidableEq, Repr

def isHex (b : UInt8) : Bool :=
  (48 ≤ b && b ≤ 57) || (97 ≤ b && b ≤ 102) || (65 ≤ b && b ≤ 70)

def unhex (b : UInt8) : UInt8 :=
  if b ≤ 57 then b - 48 else if 97 ≤ b then b - 97 + 10 else b - 65 + 10

def hexDigit (n : UInt8) : UInt8 := if n < 10 then 48 + n else 65 + (n - 10)

/-- Bytes that are written as they are: letters, digits and `-_.~`, and in a
path also `$&+,/:;=@`. -/
def shouldEscape (mode : Mode) (b : UInt8) : Bool :=
  if (97 ≤ b ∧ b ≤ 122) ∨ (65 ≤ b ∧ b ≤ 90) ∨ (48 ≤ b ∧ b ≤ 57) ∨ b ∈ lit "-_.~" then false
  else
    match mode with
    | .path => !(lit "$&+,/:;=@").contains b
    | .queryComponent => true

/-- `url.QueryEscape` and the escaping of `EscapedPath`. -/
def escape (mode : Mode) (s : GoString) : GoString :=
  s.flatMap fun b =>
    if shouldEscape mode b then
      if b = 32 ∧ mode = .queryComponent then [43]
      else [37, hexDigit (b / 16), hexDigit (b % 16)]
    else [b]

/-- `url.QueryUnescape` and `url.PathUnescape`; `none` is a malformed escape. -/
def unescape (mode : Mode) : GoString → Option GoString
  | [] => some []
  | 37 :: rest =>
    match rest with
    | h :: l :: tail =>
      if isHex h && isHex l then
        (unescape mode tail).map ((unhex h * 16 + unhex l) :: ·)
      else none
    | _ => none
  | b :: rest =>
    (unescape mode rest).map ((if b = 43 ∧ mode = .queryComponent then 32 else b) :: ·)

/-- A path that is already validly escaped. -/
def validEncoded (s : GoString) : Bool :=
  s.all fun b => (lit "!$&'()*+,;=:@[]%").contains b || !shouldEscape .path b

/-- A parsed URL, as far as the models read it. -/
structure Url where
  scheme : GoString
  path : GoString
  rawPath : GoString
  rawQuery : GoString
deriving DecidableEq, Repr

/-- `URL.EscapedPath`: the raw path if it is a valid encoding of the path. -/
def Url.escapedPath (u : Url) : GoString :=
  if u.rawPath ≠ [] ∧ validEncoded u.rawPath ∧ unescape .path u.rawPath = some u.path then
    u.rawPath
  else if u.path = lit "*" then lit "*"
  else escape .path u.path

/-- An escaped byte in front of a text is read back. -/
theorem unescape_append (b : UInt8) (rest : GoString) :
    unescape .queryComponent (escape .queryComponent [b] ++ rest) =
      (unescape .queryComponent rest).map (b :: ·) := by
  have hdigits : ∀ n < 256, isHex (hexDigit (UInt8.ofNat n / 16)) ∧
      isHex (hexDigit (UInt8.ofNat n % 16)) ∧
      unhex (hexDigit (UInt8.ofNat n / 16)) * 16 + unhex (hexDigit (UInt8.ofNat n % 16)) =
        UInt8.ofNat n := by
    decide +kernel
  have hb := hdigits b.toNat b.toNat_lt
  rw [UInt8.ofNat_toNat] at hb
  unfold escape
  rw [List.flatMap_singleton]
  split_ifs with hescaped hspace
  · rw [hspace.1]
    rfl
  · simp [unescape, hb]
  · have hother : b ≠ 37 ∧ b ≠ 43 := by
      constructor <;> rintro rfl <;> exact hescaped (by decide)
    simp [unescape, hother]

/-- **What is escaped is read back.** -/
theorem unescape_escape (s : GoString) :
    unescape .queryComponent (escape .queryComponent s) = some s := by
  induction s with
  | nil => rfl
  | cons b s ih =>
    have hcons : escape .queryComponent (b :: s) =
        escape .queryComponent [b] ++ escape .queryComponent s := by
      simp [escape]
    rw [hcons, unescape_append, ih]
    rfl

/-- Neither of the two separators of a query is in an escaped text. -/
theorem not_separator_of_mem_escape {s : GoString} {b : UInt8}
    (h : b ∈ escape .queryComponent s) : b ≠ 38 ∧ b ≠ 61 := by
  have hbytes : ∀ n < 256,
      (escape .queryComponent [UInt8.ofNat n]).all fun c => c ≠ 38 ∧ c ≠ 61 := by
    decide +kernel
  obtain ⟨a, -, ha⟩ := List.mem_flatMap.mp h
  have hall := hbytes a.toNat a.toNat_lt
  rw [UInt8.ofNat_toNat, escape, List.flatMap_singleton] at hall
  simpa using List.all_eq_true.mp hall b ha

end UrlEncoding
