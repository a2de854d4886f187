import GovetoEdge.Utf8

/-!
# JSON texts

The parts of `encoding/json` that the models share: the scanner, which reads a
text byte by byte, `Valid`, the compaction that a raw message goes through when
it is written, and the quoting of strings.

* `compact_isSome`: exactly the valid texts can be compacted;
* `valid_digits` and `compact_digits`: numbers of any length are valid, and stay
  as they are.
-/

namespace GoJson

open GoStrings List

/-- What a value that is being read is part of. -/
inductive ParseState
  | objectKey
  | objectValue
  | arrayValue
deriving DecidableEq

/-- The state functions of the scanner. -/
inductive Step
  | beginValueOrEmpty
  | beginValue
  | beginStringOrEmpty
  | beginString
  | endValue
  | endTop
  | inString
  | inStringEsc
  /-- `stateInStringEscU` and those after it, by the digits still to come -/
  | inStringEscU (digits : Nat)
  | neg
  | one
  | zero
  | dot
  | dot0
  | exponent
  | exponentSign
  | exponent0
  /-- `stateT`, `stateTr` and so on, by the rest of the word -/
  | literal (rest : GoString)
deriving DecidableEq

/-- The scanner; the innermost state of `parseState` comes first. -/
structure Scanner where
  step : Step
  parseState : List ParseState
deriving DecidableEq

/-- The deepest nesting that is accepted. -/
def maxNestingDepth : Nat := 10000

def isSpace (c : UInt8) : Bool := c = 0x20 || c = 0x09 || c = 0x0d || c = 0x0a

def isDigit (c : UInt8) : Bool := 0x30 ≤ c && c ≤ 0x39

def isHexDigit (c : UInt8) : Bool :=
  isDigit c || (0x61 ≤ c && c ≤ 0x66) || (0x41 ≤ c && c ≤ 0x46)

/-- The scanner after a byte, and whether the byte is white space between the
tokens; nothing when the text is no JSON. -/
abbrev Scanned := Option (Scanner × Bool)

/-- The scanner goes to another state. -/
def Scanner.goto (s : Scanner) (step : Step) : Scanned := some ({ s with step := step }, false)

/-- It enters an array or object. -/
def Scanner.pushParseState (s : Scanner) (step : Step) (state : ParseState) : Scanned :=
  if s.parseState.length + 1 ≤ maxNestingDepth then some (⟨step, state :: s.parseState⟩, false)
  else none

/-- It leaves one. -/
def Scanner.popParseState (s : Scanner) : Scanned :=
  match s.parseState.tail with
  | [] => some (⟨.endTop, []⟩, false)
  | stack => some (⟨.endValue, stack⟩, false)

/-- Only space may follow. -/
def stateEndTop (s : Scanner) (c : UInt8) : Scanned :=
  if isSpace c then some ({ s with step := .endTop }, true) else none

/-- After a value. -/
def stateEndValue (s : Scanner) (c : UInt8) : Scanned :=
  match s.parseState with
  | [] => stateEndTop s c
  | state :: outer =>
    if isSpace c then some ({ s with step := .endValue }, true)
    else match state with
      | .objectKey =>
        -- a colon
        if c = 0x3a then some (⟨.beginValue, .objectValue :: outer⟩, false) else none
      | .objectValue =>
        -- a comma or a closing brace
        if c = 0x2c then some (⟨.beginString, .objectKey :: outer⟩, false)
        else if c = 0x7d then s.popParseState
        else none
      | .arrayValue =>
        -- a comma or a closing bracket
        if c = 0x2c then s.goto .beginValue
        else if c = 0x5d then s.popParseState
        else none

/-- A key is expected. -/
def stateBeginString (s : Scanner) (c : UInt8) : Scanned :=
  if isSpace c then some (s, true)
  else if c = 0x22 then s.goto .inString
  else none

/-- A key, or the end of the object. -/
def stateBeginStringOrEmpty (s : Scanner) (c : UInt8) : Scanned :=
  if isSpace c then some (s, true)
  else if c = 0x7d then
    stateEndValue { s with parseState := .objectValue :: s.parseState.tail } c
  else stateBeginString s c

/-- A value is expected. -/
def stateBeginValue (s : Scanner) (c : UInt8) : Scanned :=
  if isSpace c then some (s, true)
  -- an opening brace or bracket
  else if c = 0x7b then s.pushParseState .beginStringOrEmpty .objectKey
  else if c = 0x5b then s.pushParseState .beginValueOrEmpty .arrayValue
  else if c = 0x22 then s.goto .inString
  else if c = 0x2d then s.goto .neg
  else if c = 0x30 then s.goto .zero
  else if c = 0x74 then s.goto (.literal (lit "rue"))
  else if c = 0x66 then s.goto (.literal (lit "alse"))
  else if c = 0x6e then s.goto (.literal (lit "ull"))
  else if isDigit c then s.goto .one
  else none

/-- A value, or the end of the array. -/
def stateBeginValueOrEmpty (s : Scanner) (c : UInt8) : Scanned :=
  if isSpace c then some (s, true)
  else if c = 0x5d then stateEndValue s c
  else stateBeginValue s c

/-- Inside a string. -/
def stateInString (s : Scanner) (c : UInt8) : Scanned :=
  if c = 0x22 then s.goto .endValue
  else if c = 0x5c then s.goto .inStringEsc
  else if c < 0x20 then none
  else some (s, false)

/-- After a backslash. -/
def stateInStringEsc (s : Scanner) (c : UInt8) : Scanned :=
  if c ∈ lit "bfnrt\\/\"" then s.goto .inString
  else if c = 0x75 then s.goto (.inStringEscU 4)
  else none

/-- Some digits of an escape were read. -/
def stateInStringEscU (digits : Nat) (s : Scanner) (c : UInt8) : Scanned :=
  if isHexDigit c then
    if digits ≤ 1 then s.goto .inString else s.goto (.inStringEscU (digits - 1))
  else none

/-- After a minus sign. -/
def stateNeg (s : Scanner) (c : UInt8) : Scanned :=
  if c = 0x30 then s.goto .zero
  else if isDigit c then s.goto .one
  else none

/-- After a leading zero. -/
def state0 (s : Scanner) (c : UInt8) : Scanned :=
  if c = 0x2e then s.goto .dot
  else if c = 0x65 || c = 0x45 then s.goto .exponent
  else stateEndValue s c

/-- After a digit. -/
def state1 (s : Scanner) (c : UInt8) : Scanned :=
  if isDigit c then s.goto .one else state0 s c

/-- After a decimal point. -/
def stateDot (s : Scanner) (c : UInt8) : Scanned :=
  if isDigit c then s.goto .dot0 else none

/-- After a digit behind it. -/
def stateDot0 (s : Scanner) (c : UInt8) : Scanned :=
  if isDigit c then some (s, false)
  else if c = 0x65 || c = 0x45 then s.goto .exponent
  else stateEndValue s c

def stateESign (s : Scanner) (c : UInt8) : Scanned :=
  if isDigit c then s.goto .exponent0 else none

/-- After the letter of an exponent. -/
def stateE (s : Scanner) (c : UInt8) : Scanned :=
  if c = 0x2b || c = 0x2d then s.goto .exponentSign else stateESign s c

def stateE0 (s : Scanner) (c : UInt8) : Scanned :=
  if isDigit c then some (s, false) else stateEndValue s c

/-- `stateT` and the others like it, for the rest of a word. -/
def stateLiteral (s : Scanner) (c : UInt8) : GoString → Scanned
  | [] => none
  | expected :: rest =>
    if c = expected then s.goto (if rest = [] then .endValue else .literal rest) else none

/-- `scan.step`. -/
def Scanner.next (s : Scanner) (c : UInt8) : Scanned :=
  match s.step with
  | .beginValueOrEmpty => stateBeginValueOrEmpty s c
  | .beginValue => stateBeginValue s c
  | .beginStringOrEmpty => stateBeginStringOrEmpty s c
  | .beginString => stateBeginString s c
  | .endValue => stateEndValue s c
  | .endTop => stateEndTop s c
  | .inString => stateInString s c
  | .inStringEsc => stateInStringEsc s c
  | .inStringEscU digits => stateInStringEscU digits s c
  | .neg => stateNeg s c
  | .one => state1 s c
  | .zero => state0 s c
  | .dot => stateDot s c
  | .dot0 => stateDot0 s c
  | .exponent => stateE s c
  | .exponentSign => stateESign s c
  | .exponent0 => stateE0 s c
  | .literal rest => stateLiteral s c rest

/-- `scan.eof`: a number ends where the text ends. -/
def Scanner.eof (s : Scanner) : Bool :=
  s.step = .endTop || (s.next 0x20).any fun result => result.1.step = .endTop

/-- `newScanner`. -/
def newScanner : Scanner := ⟨.beginValue, []⟩

/-- The text is valid from here on. -/
def Scanner.valid : Scanner → GoString → Bool
  | s, [] => s.eof
  | s, c :: rest =>
    match s.next c with
    | some (s', _) => s'.valid rest
    | none => false

/-- `Valid`. -/
def valid (data : GoString) : Bool := newScanner.valid data

def hexDigit (n : Nat) : UInt8 := UInt8.ofNat (if n < 10 then 48 + n else 87 + n)

/-- `\u00xx`. -/
def escapeByte (c : UInt8) : GoString :=
  lit "\\u00" ++ [hexDigit (c.toNat / 16), hexDigit (c.toNat % 16)]

/-- The characters that HTML gives a meaning. -/
def isHtml (c : UInt8) : Bool := c = 0x3c || c = 0x3e || c = 0x26

/-- U+2028 or U+2029 at the front of a string. -/
def lineSeparator : GoString → Option GoString
  | 0xE2 :: 0x80 :: c :: _ =>
    if c = 0xA8 || c = 0xA9 then some (lit "\\u202" ++ [hexDigit (c.toNat % 16)]) else none
  | _ => none

/-- The loop of `appendCompact`, with HTML escaped; `written` of the next bytes
are written already. -/
def Scanner.compact : Scanner → Nat → GoString → Option GoString
  | s, _, [] => if s.eof then some [] else none
  | s, written, c :: rest =>
    match s.next c with
    | none => none
    | some (s', space) =>
      match written, lineSeparator (c :: rest) with
      | written + 1, _ => s'.compact written rest
      | 0, some escaped => (s'.compact 2 rest).map (escaped ++ ·)
      | 0, none =>
        let text := if space then [] else if isHtml c then escapeByte c else [c]
        (s'.compact 0 rest).map (text ++ ·)

/-- `appendCompact` of a raw message. -/
def compact (data : GoString) : Option GoString := newScanner.compact 0 data

/-- Valid texts are compacted. -/
theorem Scanner.compact_isSome (s : Scanner) (written : Nat) (data : GoString) :
    (s.compact written data).isSome = s.valid data := by
  induction data generalizing s written with
  | nil =>
    unfold Scanner.compact Scanner.valid
    cases s.eof <;> rfl
  | cons c rest ih =>
    unfold Scanner.compact Scanner.valid
    cases s.next c with
    | none => rfl
    | some result =>
      dsimp only
      split
      · exact ih _ _
      · rw [Option.isSome_map]
        exact ih _ _
      · rw [Option.isSome_map]
        exact ih _ _

/-- Exactly the valid texts can be compacted. -/
theorem compact_isSome (data : GoString) : (compact data).isSome = valid data :=
  Scanner.compact_isSome newScanner 0 data

variable {c : UInt8}

/-- Digits follow digits. -/
theorem next_one (parseState : List ParseState) (hc : isDigit c) :
    Scanner.next ⟨.one, parseState⟩ c = some (⟨.one, parseState⟩, false) := by
  simp [Scanner.next, state1, hc, Scanner.goto]

/-- Digits that begin with a digit other than zero are a number. -/
theorem valid_digits {digits : GoString} (hc : newScanner.next c = some (⟨.one, []⟩, false))
    (hdigits : ∀ d ∈ digits, isDigit d) : valid (c :: digits) := by
  have hone : ∀ digits : GoString, (∀ d ∈ digits, isDigit d) →
      Scanner.valid ⟨.one, []⟩ digits := by
    intro digits
    induction digits with
    | nil => exact fun _ => rfl
    | cons d digits ih =>
      intro h
      rw [Scanner.valid, next_one [] (h d mem_cons_self)]
      exact ih fun e he => h e (mem_cons_of_mem d he)
  unfold valid Scanner.valid
  rw [hc]
  exact hone digits hdigits

theorem exists_digits (n : Nat) : ∃ digits : GoString, digits.length = n ∧
    ∀ d ∈ digits, isDigit d := by
  refine ⟨List.replicate n 0x31, length_replicate, ?_⟩
  intro d hd
  rw [eq_of_mem_replicate hd]
  rfl

theorem lineSeparator_digit (rest : GoString) (hc : isDigit c) :
    lineSeparator (c :: rest) = none := by
  unfold lineSeparator
  split
  · next heq =>
    obtain ⟨rfl, -⟩ := List.cons.inj heq
    cases hc
  · rfl

theorem isHtml_digit (hc : isDigit c) : isHtml c = false := by
  simp only [isDigit, isHtml, Bool.and_eq_true, decide_eq_true_eq, UInt8.le_iff_toNat_le] at hc ⊢
  have h1 : c ≠ 0x3c := by rintro rfl; exact absurd hc (by decide)
  have h2 : c ≠ 0x3e := by rintro rfl; exact absurd hc (by decide)
  have h3 : c ≠ 0x26 := by rintro rfl; exact absurd hc (by decide)
  simp [h1, h2, h3]

/-- Numbers are compact. -/
theorem compact_digits {digits : GoString} (hc : newScanner.next c = some (⟨.one, []⟩, false))
    (hdigit : isDigit c) (hdigits : ∀ d ∈ digits, isDigit d) :
    compact (c :: digits) = some (c :: digits) := by
  have hone : ∀ digits : GoString, (∀ d ∈ digits, isDigit d) →
      Scanner.compact ⟨.one, []⟩ 0 digits = some digits := by
    intro digits
    induction digits with
    | nil => exact fun _ => rfl
    | cons d digits ih =>
      intro h
      have hd := h d mem_cons_self
      rw [Scanner.compact, next_one [] hd, lineSeparator_digit digits hd]
      simp only [isHtml_digit hd, ih fun e he => h e (mem_cons_of_mem d he)]
      rfl
  unfold compact
  rw [Scanner.compact, hc, lineSeparator_digit digits hdigit]
  simp only [isHtml_digit hdigit, hone digits hdigits]
  rfl

example : valid (lit "[1, -2.5e+3, \"\\u00e9\", true, [null]] ") ∧ ¬ valid (lit "[1,]") ∧
    compact (lit " [\"<\", 0]\n") = some (lit "[\"\\u003c\",0]") := by
  decide +kernel

/-- The escape of an ASCII character in a string. -/
def escapeAscii (c : UInt8) : GoString :=
  if c = 0x22 || c = 0x5c then [0x5c, c]
  else if c = 0x08 then lit "\\b"
  else if c = 0x0c then lit "\\f"
  else if c = 0x0a then lit "\\n"
  else if c = 0x0d then lit "\\r"
  else if c = 0x09 then lit "\\t"
  else if c < 0x20 || isHtml c then escapeByte c
  else [c]

/-- The loop of `appendString`; of the next bytes some are to be copied and some
are written already. -/
def quoteLoop : Nat → Nat → GoString → GoString
  | _, _, [] => []
  | copied + 1, written, c :: rest => c :: quoteLoop copied written rest
  | 0, written + 1, _ :: rest => quoteLoop 0 written rest
  | 0, 0, c :: rest =>
    if c < 0x80 then escapeAscii c ++ quoteLoop 0 0 rest
    else match Utf8.decodeRune (c :: rest), lineSeparator (c :: rest) with
      | none, _ => lit "\\ufffd" ++ quoteLoop 0 0 rest
      | some _, some escaped => escaped ++ quoteLoop 0 2 rest
      | some (_, size), none => c :: quoteLoop (size - 1) 0 rest

/-- `appendString`. -/
def quote (s : GoString) : GoString := [0x22] ++ quoteLoop 0 0 s ++ [0x22]

end GoJson
