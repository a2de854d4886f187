import GovetoEdge.GoStrings

/-!
# UTF-8 in byte strings

A byte string need not be valid UTF-8.  `decodeRune` recognises one encoded
code point at the front, as `utf8.DecodeRune` does; a loop over the runes of a
string sees U+FFFD for every byte that begins none.  `toValid` replaces these
bytes, which is what a string goes through when it is written as JSON and read
back, and `mapRunes` is `strings.Map`.
-/

namespace Utf8

open GoStrings

/-- A continuation byte. -/
def isContinuation (b : UInt8) : Bool := 0x80 ≤ b && b ≤ 0xBF

/-- The code point a string begins with and the length of its encoding. -/
def decodeRune : GoString → Option (Nat × Nat)
  | [] => none
  | b0 :: rest =>
    if b0 < 0x80 then some (b0.toNat, 1)
    else if 0xC2 ≤ b0 ∧ b0 ≤ 0xDF then
      match rest with
      | b1 :: _ =>
        if isContinuation b1 then
          some ((b0.toNat - 0xC0) * 64 + (b1.toNat - 0x80), 2)
        else none
      | _ => none
    else if 0xE0 ≤ b0 ∧ b0 ≤ 0xEF then
      match rest with
      | b1 :: b2 :: _ =>
        -- neither overlong forms nor surrogates
        if (if b0 = 0xE0 then 0xA0 else 0x80) ≤ b1 ∧
            b1 ≤ (if b0 = 0xED then 0x9F else 0xBF) ∧ isContinuation b2 then
          some ((b0.toNat - 0xE0) * 4096 + (b1.toNat - 0x80) * 64 + (b2.toNat - 0x80), 3)
        else none
      | _ => none
    else if 0xF0 ≤ b0 ∧ b0 ≤ 0xF4 then
      match rest with
      | b1 :: b2 :: b3 :: _ =>
        if (if b0 = 0xF0 then 0x90 else 0x80) ≤ b1 ∧
            b1 ≤ (if b0 = 0xF4 then 0x8F else 0xBF) ∧ isContinuation b2 ∧
            isContinuation b3 then
          some ((b0.toNat - 0xF0) * 262144 + (b1.toNat - 0x80) * 4096 +
            (b2.toNat - 0x80) * 64 + (b3.toNat - 0x80), 4)
        else none
      | _ => none
    else none

/-- U+FFFD in UTF-8. -/
def replacement : GoString := [0xEF, 0xBF, 0xBD]

/-- The encoding of a code point; U+FFFD stands for what is none. -/
def encodeRune (r : Nat) : GoString :=
  if r < 0x80 then [UInt8.ofNat r]
  else if r < 0x800 then [UInt8.ofNat (0xC0 + r / 64), UInt8.ofNat (0x80 + r % 64)]
  else if 0xD800 ≤ r ∧ r ≤ 0xDFFF then replacement
  else if r < 0x10000 then
    [UInt8.ofNat (0xE0 + r / 4096), UInt8.ofNat (0x80 + r / 64 % 64), UInt8.ofNat (0x80 + r % 64)]
  else if r < 0x110000 then
    [UInt8.ofNat (0xF0 + r / 262144), UInt8.ofNat (0x80 + r / 4096 % 64),
      UInt8.ofNat (0x80 + r / 64 % 64), UInt8.ofNat (0x80 + r % 64)]
  else replacement

/-- The runes of a string; `fuel` bounds their number. -/
def runes : Nat → GoString → List Nat
  | 0, _ => []
  | _ + 1, [] => []
  | fuel + 1, b :: rest =>
    match decodeRune (b :: rest) with
    | some (r, width) => r :: runes fuel ((b :: rest).drop width)
    | none => 0xFFFD :: runes fuel rest

/-- `strings.Map` with a mapping that drops nothing. -/
def mapRunes (mapping : Nat → Nat) (s : GoString) : GoString :=
  (runes s.length s).flatMap fun r => encodeRune (mapping r)

/-- What a string becomes when it is written as JSON and read back. -/
def toValid (s : GoString) : GoString := mapRunes (fun r => r) s

/-- `strings.ToLower`, given the lower case of code points beyond ASCII. -/
def toLower (lowerRune : Nat → Nat) (s : GoString) : GoString :=
  if s.all (· < 0x80) then s.map lowerByte
  else mapRunes (fun r => if r < 0x80 then (lowerByte (UInt8.ofNat r)).toNat else lowerRune r) s

end Utf8
