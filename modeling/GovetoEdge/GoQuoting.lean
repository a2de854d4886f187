import GovetoEdge.Utf8

/-!
# Quoted strings

`strconv.Quote` writes a byte string as a double-quoted Go literal: quotes and
backslashes are escaped, printable code points stand for themselves, and every
byte that begins no code point is written in hexadecimal.  `strconv.Unquote`
reads such a literal back.

Which code points beyond Latin-1 are printable is a parameter.
-/

namespace GoQuoting

open GoStrings Utf8

/-- One digit in lower case. -/
def hexDigit (n : Nat) : UInt8 := UInt8.ofNat (if n < 10 then 48 + n else 87 + n)

/-- The last `count` digits of a number. -/
def hexDigits : Nat → Nat → GoString
  | 0, _ => []
  | count + 1, n => hexDigit (n / 16 ^ count % 16) :: hexDigits count n

/-- The value of a hexadecimal digit. -/
def unhex (b : UInt8) : Option Nat :=
  if 48 ≤ b ∧ b ≤ 57 then some (b.toNat - 48)
  else if 97 ≤ b ∧ b ≤ 102 then some (b.toNat - 87)
  else if 65 ≤ b ∧ b ≤ 70 then some (b.toNat - 55)
  else none

/-- Read `count` digits after the number `acc`. -/
def readHex : Nat → Nat → GoString → Option (Nat × GoString)
  | 0, acc, s => some (acc, s)
  | _ + 1, _, [] => none
  | count + 1, acc, b :: s =>
    match unhex b with
    | some x => readHex count (16 * acc + x) s
    | none => none

/-- It is read back. -/
theorem unhex_hexDigit {n : Nat} (h : n < 16) : unhex (hexDigit n) = some n := by
  have hall : ∀ n : Fin 16, unhex (hexDigit n) = some n.val := by decide
  exact hall ⟨n, h⟩

section Quoting

variable (printable : Nat → Bool)

/-- `strconv.IsPrint`; `printable` decides beyond Latin-1. -/
def isPrint (r : Nat) : Bool :=
  if r ≤ 0xFF then (0x20 ≤ r && r < 0x7F) || (0xA1 ≤ r && r ≠ 0xAD) else printable r

/-- The letter that escapes a control character. -/
def controlLetter : Nat → Option UInt8
  | 7 => some 97
  | 8 => some 98
  | 12 => some 102
  | 10 => some 110
  | 13 => some 114
  | 9 => some 116
  | 11 => some 118
  | _ => none

/-- A code point between double quotes. -/
def appendEscapedRune (r : Nat) : GoString :=
  if r = 34 ∨ r = 92 then [92, UInt8.ofNat r]
  else if isPrint printable r then encodeRune r
  else
    match controlLetter r with
    | some letter => [92, letter]
    | none =>
      if r < 32 ∨ r = 0x7F then [92, 120] ++ hexDigits 2 r
      else if r < 0x10000 then [92, 117] ++ hexDigits 4 r
      else [92, 85] ++ hexDigits 8 r

/-- The text between the quotes; `fuel` bounds the number of code points. -/
def quoteBody : Nat → GoString → GoString
  | 0, _ => []
  | _ + 1, [] => []
  | fuel + 1, b :: rest =>
    match decodeRune (b :: rest) with
    | some (r, width) => appendEscapedRune printable r ++ quoteBody fuel ((b :: rest).drop width)
    | none => [92, 120] ++ hexDigits 2 b.toNat ++ quoteBody fuel rest

/-- `strconv.Quote`. -/
def quote (s : GoString) : GoString := 34 :: (quoteBody printable s.length s ++ [34])

end Quoting

/-- The control character a letter stands for. -/
def controlOfLetter : UInt8 → Option Nat
  | 97 => some 7
  | 98 => some 8
  | 102 => some 12
  | 110 => some 10
  | 114 => some 13
  | 116 => some 9
  | 118 => some 11
  | _ => none

/-- An octal digit. -/
def unoctal (b : UInt8) : Option Nat := if 48 ≤ b ∧ b ≤ 55 then some (b.toNat - 48) else none

/-- What follows a backslash: the value, whether it is a code point that may
need several bytes, and the rest. -/
def unquoteEscape : GoString → Option (Nat × Bool × GoString)
  | [] => none
  | c :: s =>
    match controlOfLetter c with
    | some r => some (r, false, s)
    | none =>
      if c = 120 then (readHex 2 0 s).map fun (v, t) => (v, false, t)
      else if c = 117 ∨ c = 85 then
        match readHex (if c = 117 then 4 else 8) 0 s with
        | some (v, t) =>
          if v < 0x110000 ∧ ¬ (0xD800 ≤ v ∧ v ≤ 0xDFFF) then some (v, true, t) else none
        | none => none
      else if c = 92 ∨ c = 34 then some (c.toNat, false, s)
      else
        match unoctal c, s with
        | some a, d :: e :: t =>
          match unoctal d, unoctal e with
          | some x, some y =>
            if a * 64 + x * 8 + y ≤ 255 then some (a * 64 + x * 8 + y, false, t) else none
          | _, _ => none
        | _, _ => none

/-- `strconv.UnquoteChar` between double quotes. -/
def unquoteChar : GoString → Option (Nat × Bool × GoString)
  | [] => none
  | c :: s =>
    if c = 34 then none
    else if 0x80 ≤ c then
      match decodeRune (c :: s) with
      | some (r, width) => some (r, true, (c :: s).drop width)
      | none => some (0xFFFD, true, s)
    else if c = 92 then unquoteEscape s
    else some (c.toNat, false, s)

/-- The bytes of a value. -/
def unquotedBytes (r : Nat) (multibyte : Bool) : GoString :=
  if r < 0x80 ∨ !multibyte then [UInt8.ofNat r] else encodeRune r

/-- The loop up to the closing quote. -/
def unquoteLoop : Nat → GoString → Option (GoString × GoString)
  | 0, _ => none
  | fuel + 1, s =>
    if s.head? = some 34 then some ([], s.tail)
    else if s.head? = some 10 then none
    else
      match unquoteChar s with
      | some (r, multibyte, t) =>
        (unquoteLoop fuel t).map fun (out, rest) => (unquotedBytes r multibyte ++ out, rest)
      | none => none

/-- `strconv.Unquote` of a double-quoted text. -/
def unquote (s : GoString) : Option GoString :=
  if s.head? = some 34 then
    match unquoteLoop s.length s.tail with
    | some (out, []) => some out
    | _ => none
  else none

end GoQuoting
