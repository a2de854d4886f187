import GovetoEdge.GoStrings

/-!
# Retry hints of DNS providers

A `Retry-After` header is a number of seconds or a date; the hint is cut to ten minutes.
Durations are nanoseconds in 64 bits.  The number is scaled before it is cut, so that the
product may wrap (`parseRetryAfter_iff`).  Dates are read by a parameter, `parseTime`.
-/

namespace RetryAfter

open GoStrings

/-- `maxRetryAfter`. -/
def maxRetryAfter : Int := 10 * 60 * second

/-- `Time.Sub`, which stops at the ends of the durations. -/
def sub (date now : Int) : Int := max (-2 ^ 63) (min (2 ^ 63 - 1) (date - now))

/-- Seconds or a date. -/
def parseRetryAfter (parseTime : GoString → Option Int) (header : GoString) (now : Int) : Int :=
  let header := trimSpace header
  if header = [] then 0
  else match (parseInt header).filter (0 ≤ ·) with
    | some seconds => min ((seconds * second).bmod (2 ^ 64)) maxRetryAfter
    | none =>
      match parseTime header with
      | some date => if 0 < sub date now then min (sub date now) maxRetryAfter else 0
      | none => 0

variable {parseTime : GoString → Option Int} {header : GoString} {now seconds : Int}

/-- Seconds are taken as they are. -/
theorem parseRetryAfter_seconds (hseconds : parseInt (trimSpace header) = some seconds)
    (hpositive : 0 ≤ seconds) : parseRetryAfter parseTime header now =
      min ((seconds * second).bmod (2 ^ 64)) maxRetryAfter := by
  have hne : trimSpace header ≠ [] := by
    intro hnil
    rw [hnil] at hseconds
    cases hseconds
  simp [parseRetryAfter, hne, hseconds, Option.filter, hpositive]

/-- What is no number of seconds gives a hint within the bounds. -/
theorem parseRetryAfter_date (hseconds : (parseInt (trimSpace header)).filter (0 ≤ ·) = none) :
    0 ≤ parseRetryAfter parseTime header now ∧
      parseRetryAfter parseTime header now ≤ maxRetryAfter := by
  have hmax : 0 ≤ maxRetryAfter := by decide
  dsimp only [parseRetryAfter]
  rw [hseconds]
  split
  · exact ⟨Int.le_refl 0, hmax⟩
  · cases parseTime (trimSpace header) with
    | none => exact ⟨Int.le_refl 0, hmax⟩
    | some date =>
      dsimp only
      split <;> omega

/-- **The hint is right** exactly if the product of a number above ten minutes does not
wrap to one below, as it does not up to 9223372036 seconds. -/
theorem parseRetryAfter_iff (parseTime : GoString → Option Int) (header : GoString) (now : Int) :
    let delay := parseRetryAfter parseTime header now
    let kept := ∀ seconds, parseInt (trimSpace header) = some seconds → 600 < seconds →
      maxRetryAfter ≤ (seconds * second).bmod (2 ^ 64)
    (((0 ≤ delay ∧ delay ≤ maxRetryAfter) ∧
      ∀ seconds, parseInt (trimSpace header) = some seconds → 0 ≤ seconds →
        delay = min (seconds * second) maxRetryAfter) ↔ kept) ∧
      ((∀ seconds, parseInt (trimSpace header) = some seconds → seconds ≤ 9223372036) → kept) := by
  intro delay kept
  have hsmall : ∀ seconds : Int, 0 ≤ seconds → seconds ≤ 9223372036 →
      (seconds * second).bmod (2 ^ 64) = seconds * second := by
    intro seconds hlow hhigh
    unfold second
    apply Int.bmod_eq_of_le <;> omega
  refine ⟨⟨fun hright seconds hseconds hlarge => ?_, fun hkept => ?_⟩, ?_⟩
  · have hdelay := hright.2 seconds hseconds (by omega)
    have heq : delay = _ := parseRetryAfter_seconds hseconds (by omega)
    rw [heq] at hdelay
    unfold maxRetryAfter second at *
    omega
  · cases hparse : (parseInt (trimSpace header)).filter (0 ≤ ·) with
    | none =>
      refine ⟨parseRetryAfter_date hparse, fun seconds hseconds hpositive => ?_⟩
      simp [hseconds, Option.filter, hpositive] at hparse
    | some seconds =>
      obtain ⟨hseconds, hpositive⟩ := Option.filter_eq_some_iff.mp hparse
      have hpositive : 0 ≤ seconds := of_decide_eq_true hpositive
      have hdelay : delay = min (seconds * second) maxRetryAfter := by
        have heq : delay = _ := parseRetryAfter_seconds hseconds hpositive
        by_cases hlarge : 600 < seconds
        · have := hkept seconds hseconds hlarge
          rw [heq]
          unfold maxRetryAfter second at *
          omega
        · rw [heq, hsmall seconds hpositive (by omega)]
      refine ⟨?_, fun seconds' hseconds' _ => ?_⟩
      · rw [hdelay]
        unfold maxRetryAfter second
        omega
      · obtain rfl : seconds = seconds' := Option.some.inj (hseconds.symm.trans hseconds')
        exact hdelay
  · intro hbound seconds hseconds hlarge
    rw [hsmall seconds (by omega) (hbound seconds hseconds)]
    unfold maxRetryAfter second
    omega

/-- **A number of seconds whose product wraps** gives a hint below zero. -/
theorem parseRetryAfter_wrapped :
    parseRetryAfter (fun _ => none) (lit "9223372037") 0 = -9223372036709551616 := by
  decide +kernel

end RetryAfter
