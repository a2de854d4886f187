import GovetoEdge.GoQuoting

/-!
# Network addresses

The part of `net/netip` that address sets use.  An address is an IPv4 number
or an IPv6 number with a zone; a prefix is an address without zone and the
number of its bits that count.  `parseAddr` and `parsePrefix` read the text
forms, `Addr.string` and `Prefix.string` write them.

**`parsePrefix_string`**: a prefix that is not an IPv4 address in IPv6 form is
read back from its text.
-/

namespace NetAddresses

open GoStrings GoQuoting List

instance neZeroIPv6 : NeZero (2 ^ 128) := ⟨by decide⟩

/-- `netip.Addr`, without its zero value. -/
inductive Addr
  | v4 (value : Fin (2 ^ 32))
  | v6 (value : Fin (2 ^ 128)) (zone : GoString)
deriving DecidableEq

/-- Bits of the family. -/
def Addr.bitLen : Addr → Nat
  | .v4 _ => 32
  | .v6 _ _ => 128

/-- The address is of version 4. -/
def Addr.is4 : Addr → Bool
  | .v4 _ => true
  | .v6 _ _ => false

/-- Its zone, or none. -/
def Addr.zone : Addr → GoString
  | .v4 _ => []
  | .v6 _ zone => zone

/-- The address alone. -/
def Addr.withoutZone : Addr → Addr
  | .v4 value => .v4 value
  | .v6 value _ => .v6 value []

/-- The number of an address. -/
def Addr.number : Addr → Nat
  | .v4 value => value
  | .v6 value _ => value

/-- `Addr.Is4In6`: an IPv4 address in IPv6 form. -/
def Addr.is4In6 : Addr → Bool
  | .v4 _ => false
  | .v6 value _ => value.val / 2 ^ 32 = 0xFFFF

/-- `Addr.Unmap`. -/
def Addr.unmap : Addr → Addr
  | .v4 value => .v4 value
  | .v6 value zone =>
    if value.val / 2 ^ 32 = 0xFFFF then .v4 (Fin.ofNat (2 ^ 32) value) else .v6 value zone

/-- What is unmapped stays so. -/
theorem unmap_not_is4In6 (a : Addr) : ¬ a.unmap.is4In6 := by
  cases a with
  | v4 n => exact Bool.false_ne_true
  | v6 n zone =>
    rw [Addr.unmap]
    split
    · exact Bool.false_ne_true
    · rename_i hn
      simpa [Addr.is4In6] using hn

theorem unmap_of_not_is4In6 {a : Addr} (h : ¬ a.is4In6) : a.unmap = a := by
  cases a with
  | v4 n => rfl
  | v6 n zone =>
    rw [Addr.unmap, if_neg]
    simpa [Addr.is4In6] using h

/-- The four bytes of an IPv4 number. -/
def octets (n : Nat) : List Nat := [n / 2 ^ 24 % 256, n / 2 ^ 16 % 256, n / 2 ^ 8 % 256, n % 256]

/-- Four octets make a number. -/
def ofOctets (fields : List Nat) : Nat := fields.foldl (fun n x => n * 256 + x) 0

/-- The eight groups of an IPv6 number. -/
def groups (n : Nat) : List Nat := (List.range 8).map fun i => n / 65536 ^ (7 - i) % 65536

/-- Eight groups make one. -/
def ofGroups (gs : List Nat) : Nat := gs.foldl (fun n g => n * 65536 + g) 0

/-- The dotted text. -/
def string4 (n : Nat) : GoString := join ((octets n).map itoa) (lit ".")

/-- A group in hexadecimal, without leading zeros. -/
def hexGroup (g : Nat) : GoString :=
  hexDigits (if 0x1000 ≤ g then 4 else if 0x100 ≤ g then 3 else if 0x10 ≤ g then 2 else 1) g

/-- Groups with colons between them. -/
def hexText (gs : List Nat) : GoString := join (gs.map hexGroup) (lit ":")

/-- How many zero groups begin at a position. -/
def zerosFrom (gs : List Nat) (i : Nat) : Nat := ((gs.drop i).takeWhile (· = 0)).length

/-- The first longest run of at least two zero groups: its start and length. -/
def zeroRun (gs : List Nat) : Option (Nat × Nat) :=
  (List.range 8).foldl (fun best i =>
    let l := zerosFrom gs i
    if 2 ≤ l ∧ (best.map Prod.snd).getD 0 < l then some (i, l) else best) none

/-- The longest run of zeros is left out. -/
def string6 (n : Nat) : GoString :=
  match zeroRun (groups n) with
  | none => hexText (groups n)
  | some (start, l) =>
    hexText ((groups n).take start) ++ lit "::" ++ hexText ((groups n).drop (start + l))

/-- `Addr.String`. -/
def Addr.string : Addr → GoString
  | .v4 value => string4 value
  | .v6 value zone =>
    (if value.val / 2 ^ 32 = 0xFFFF then lit "::ffff:" ++ string4 (value.val % 2 ^ 32)
      else string6 value) ++
    (if zone = [] then [] else lit "%" ++ zone)

def isHex (b : UInt8) : Bool := (unhex b).isSome

/-- The number some hexadecimal digits write. -/
def hexValue (s : GoString) : Nat := s.foldl (fun n b => n * 16 + (unhex b).getD 0) 0

/-- The loop of `parseIPv4Fields`: `done` are the fields before the current
one, which has the value `val` and `digLen` digits so far. -/
def parseIPv4Fields : List Nat → Nat → Nat → GoString → Option (List Nat)
  | done, val, _, [] => if done.length < 3 then none else some (done ++ [val])
  | done, val, digLen, b :: rest =>
    if isDigit b then
      if digLen = 1 ∧ val = 0 then none
      else if 255 < val * 10 + (b.toNat - 48) then none
      else parseIPv4Fields done (val * 10 + (b.toNat - 48)) (digLen + 1) rest
    else if b = 46 then
      if digLen = 0 ∨ rest = [] then none
      else if done.length = 3 then none
      else parseIPv4Fields (done ++ [val]) 0 0 rest
    else none

/-- Four numbers with dots. -/
def parseIPv4 (s : GoString) : Option Addr :=
  (parseIPv4Fields [] 0 0 s).map fun fields => .v4 (Fin.ofNat (2 ^ 32) (ofOctets fields))

/-- The loop of `parseIPv6`, which has room for `room` more groups: the groups
read, and how many stand before the ellipsis. -/
def parseIPv6Loop : Nat → List Nat → Option Nat → GoString → Option (List Nat × Option Nat)
  -- trailing garbage after the address
  | 0, _, _, _ => none
  | room + 1, done, ellipsis, s =>
    let digits := s.takeWhile isHex
    let rest := s.dropWhile isHex
    if digits = [] ∨ 4 < digits.length then none
    else if rest.head? = some 46 then
      -- an embedded IPv4 address takes two groups
      if (ellipsis = none ∧ room ≠ 1) ∨ room = 0 then none
      else
        match parseIPv4Fields [] 0 0 s with
        | some fields =>
          some (done ++ [ofOctets (fields.take 2), ofOctets (fields.drop 2)], ellipsis)
        | none => none
    else
      let done := done ++ [hexValue digits]
      match rest with
      | [] => some (done, ellipsis)
      | c :: t =>
        if c ≠ 58 ∨ t = [] then none
        else if t.head? = some 58 then
          if ellipsis.isSome then none
          else if t.tail = [] then some (done, some done.length)
          else parseIPv6Loop room done (some done.length) t.tail
        else parseIPv6Loop room done ellipsis t

/-- Put the zero groups of the ellipsis in. -/
def expandEllipsis (done : List Nat) : Option Nat → Option (List Nat)
  | none => if done.length = 8 then some done else none
  | some e =>
    if done.length < 8 then
      some (done.take e ++ List.replicate (8 - done.length) 0 ++ done.drop e)
    else none

/-- The fields of an address without zone, which may begin with an ellipsis. -/
def parseIPv6Fields (address : GoString) : Option (List Nat × Option Nat) :=
  if (lit "::").isPrefixOf address then
    if address.drop 2 = [] then some ([], some 0)
    else parseIPv6Loop 8 [] (some 0) (address.drop 2)
  else parseIPv6Loop 8 [] none address

/-- Groups, with one gap at most. -/
def parseIPv6Groups (address : GoString) : Option (List Nat) :=
  (parseIPv6Fields address).bind fun (done, ellipsis) => expandEllipsis done ellipsis

/-- Groups and a zone. -/
def parseIPv6 (s : GoString) : Option Addr :=
  let (address, zone, zoned) := cut s 37
  if zoned ∧ zone = [] then none
  else (parseIPv6Groups address).map fun gs => .v6 (Fin.ofNat (2 ^ 128) (ofGroups gs)) zone

/-- `netip.ParseAddr`: the first dot, colon or percent sign tells the kind. -/
def parseAddr (s : GoString) : Option Addr :=
  match s.find? (fun b => b = 46 || b = 58 || b = 37) with
  | some 46 => parseIPv4 s
  | some 58 => parseIPv6 s
  | _ => none

/-- `netip.Prefix`, valid. -/
structure Prefix where
  addr : Addr
  bits : Nat
  bits_le : bits ≤ addr.bitLen
  zoneless : addr.zone = []
deriving DecidableEq

/-- The address with all but the first bits zero. -/
def maskNumber (width bits n : Nat) : Nat := n / 2 ^ (width - bits) * 2 ^ (width - bits)

theorem maskNumber_le (width bits n : Nat) : maskNumber width bits n ≤ n := Nat.div_mul_le_self _ _

/-- The bits behind a prefix are cleared. -/
def Addr.mask (a : Addr) (bits : Nat) : Addr :=
  match a with
  | .v4 value => .v4 ⟨maskNumber 32 bits value, lt_of_le_of_lt (maskNumber_le ..) value.isLt⟩
  | .v6 value zone =>
    .v6 ⟨maskNumber 128 bits value, lt_of_le_of_lt (maskNumber_le ..) value.isLt⟩ zone

/-- Masks keep the family. -/
theorem Addr.mask_bitLen (a : Addr) (bits : Nat) : (a.mask bits).bitLen = a.bitLen := by
  cases a <;> rfl

theorem Addr.mask_zone (a : Addr) (bits : Nat) : (a.mask bits).zone = a.zone := by
  cases a <;> rfl

/-- `Prefix.Masked`. -/
def Prefix.masked (p : Prefix) : Prefix where
  addr := p.addr.mask p.bits
  bits := p.bits
  bits_le := by rw [Addr.mask_bitLen]; exact p.bits_le
  zoneless := by rw [Addr.mask_zone]; exact p.zoneless

theorem Addr.withoutZone_bitLen (a : Addr) : a.withoutZone.bitLen = a.bitLen := by
  cases a <;> rfl

theorem Addr.withoutZone_zone (a : Addr) : a.withoutZone.zone = [] := by
  cases a <;> rfl

/-- `netip.PrefixFrom` with a number of bits in range. -/
def prefixFrom (a : Addr) (bits : Nat) (h : bits ≤ a.bitLen) : Prefix where
  addr := a.withoutZone
  bits := bits
  bits_le := by rw [Addr.withoutZone_bitLen]; exact h
  zoneless := Addr.withoutZone_zone a

/-- The prefix that holds one address. -/
def hostPrefix (a : Addr) : Prefix := prefixFrom a a.bitLen (le_refl _)

/-- `Prefix.Contains`. -/
def Prefix.contains (p : Prefix) (a : Addr) : Bool :=
  a.zone = [] && p.addr.bitLen = a.bitLen &&
    a.number / 2 ^ (a.bitLen - p.bits) = p.addr.number / 2 ^ (a.bitLen - p.bits)

/-- `Prefix.String`. -/
def Prefix.string (p : Prefix) : GoString := p.addr.string ++ lit "/" ++ itoa p.bits

/-- What stands before and behind the last slash. -/
def cutLastSlash (s : GoString) : GoString × GoString :=
  ((s.rdropWhile (· ≠ 47)).dropLast, s.rtakeWhile (· ≠ 47))

/-- `netip.ParsePrefix`. -/
def parsePrefix (s : GoString) : Option Prefix :=
  if !s.contains 47 then none
  else
    let (address, bitsStr) := cutLastSlash s
    match parseAddr address with
    | none => none
    | some a =>
      if a.zone ≠ [] then none
      else if 1 < bitsStr.length ∧ !(isDigit (bitsStr.headD 0) && bitsStr.headD 0 ≠ 48) then none
      else if bitsStr = [] ∨ !bitsStr.all isDigit then none
      else if h : digitsValue bitsStr ≤ a.bitLen then some (prefixFrom a (digitsValue bitsStr) h)
      else none

/-- A byte that may stand in the text of an address without zone. -/
def isAddressByte (b : UInt8) : Bool := isHex b || b = 58 || b = 46

variable {b : UInt8} {n g : Nat} {t : GoString}

theorem isHex_of_isDigit (h : isDigit b) : isHex b := by
  simp only [isDigit, Bool.and_eq_true, decide_eq_true_eq] at h
  rw [isHex, unhex, if_pos h]
  rfl

/-- Octets are put together again. -/
theorem ofOctets_octets (h : n < 2 ^ 32) : ofOctets (octets n) = n := by
  simp only [ofOctets, octets, foldl_cons, foldl_nil]
  omega

/-- So are groups. -/
theorem ofGroups_groups (h : n < 2 ^ 128) : ofGroups (groups n) = n := by
  simp only [ofGroups, groups, List.range, List.range.loop, map_cons, map_nil,
    foldl_cons, foldl_nil]
  omega

theorem length_groups (n : Nat) : (groups n).length = 8 := by simp [groups]

theorem lt_of_mem_groups (h : g ∈ groups n) : g < 65536 := by
  obtain ⟨i, -, rfl⟩ := mem_map.mp h
  exact Nat.mod_lt _ (by omega)

/-- The digits of a field, read after a value with some digits. -/
def readOctet : Nat → Nat → GoString → Option (Nat × Nat)
  | val, digLen, [] => some (val, digLen)
  | val, digLen, b :: rest =>
    if digLen = 1 ∧ val = 0 then none
    else if 255 < val * 10 + (b.toNat - 48) then none
    else readOctet (val * 10 + (b.toNat - 48)) (digLen + 1) rest

/-- Digits are read one by one. -/
theorem parseIPv4Fields_digits {digits : GoString} (hdigits : digits.all isDigit)
    {val digLen val' digLen' : Nat} (hread : readOctet val digLen digits = some (val', digLen'))
    (done : List Nat) (t : GoString) :
    parseIPv4Fields done val digLen (digits ++ t) = parseIPv4Fields done val' digLen' t := by
  induction digits generalizing val digLen with
  | nil =>
    obtain ⟨rfl, rfl⟩ := Prod.mk.inj (Option.some.inj hread)
    rfl
  | cons b rest ih =>
    rw [all_cons, Bool.and_eq_true] at hdigits
    rw [readOctet, Option.ite_none_left_eq_some, Option.ite_none_left_eq_some] at hread
    obtain ⟨hzero, hlarge, hread⟩ := hread
    rw [cons_append, parseIPv4Fields, if_pos hdigits.1, if_neg hzero, if_neg hlarge]
    exact ih hdigits.2 hread

/-- An octet is read back. -/
theorem readOctet_itoa (h : n < 256) :
    (itoa n).all isDigit ∧ readOctet 0 0 (itoa n) = some (n, (itoa n).length) := by
  have hall : ∀ n : Fin 256, (itoa n).all isDigit ∧
      readOctet 0 0 (itoa n) = some (n.val, (itoa n).length) := by decide +kernel
  exact hall ⟨n, h⟩

/-- A field and the dot behind it. -/
theorem parseIPv4Fields_octet (h : n < 256) {done : List Nat} (hdone : done.length < 3)
    (ht : t ≠ []) :
    parseIPv4Fields done 0 0 (itoa n ++ 46 :: t) = parseIPv4Fields (done ++ [n]) 0 0 t := by
  obtain ⟨hdigits, hread⟩ := readOctet_itoa h
  have hlength : (itoa n).length ≠ 0 := by simp [itoa_ne_nil]
  rw [parseIPv4Fields_digits hdigits hread, parseIPv4Fields, if_neg (by decide), if_pos rfl,
    if_neg (by simp [hlength, ht]), if_neg (by omega)]

/-- The text of an IPv4 number, read from the left. -/
theorem string4_eq (n : Nat) : string4 n = itoa (n / 2 ^ 24 % 256) ++ 46 ::
    (itoa (n / 2 ^ 16 % 256) ++
      46 :: (itoa (n / 2 ^ 8 % 256) ++ 46 :: (itoa (n % 256) ++ []))) := by
  simp [string4, octets, join, List.intercalate, lit]

/-- So is a dotted text. -/
theorem parseIPv4Fields_string4 (n : Nat) :
    parseIPv4Fields [] 0 0 (string4 n) = some (octets n) := by
  obtain ⟨hdigits, hread⟩ := readOctet_itoa (Nat.mod_lt n (by omega : 0 < 256))
  rw [string4_eq, parseIPv4Fields_octet (Nat.mod_lt _ (by omega)) (by simp) (by simp [itoa_ne_nil]),
    parseIPv4Fields_octet (Nat.mod_lt _ (by omega)) (by simp) (by simp [itoa_ne_nil]),
    parseIPv4Fields_octet (Nat.mod_lt _ (by omega)) (by simp) (by simp [itoa_ne_nil]),
    parseIPv4Fields_digits hdigits hread]
  rfl

/-- The number of digits of a group. -/
theorem hexGroup_eq (h : g < 65536) :
    ∃ count, 0 < count ∧ count ≤ 4 ∧ g < 16 ^ count ∧ hexGroup g = hexDigits count g := by
  unfold hexGroup
  by_cases h4 : 0x1000 ≤ g
  · exact ⟨4, by omega, by omega, by omega, by rw [if_pos h4]⟩
  · by_cases h3 : 0x100 ≤ g
    · exact ⟨3, by omega, by omega, by omega, by rw [if_neg h4, if_pos h3]⟩
    · by_cases h2 : 0x10 ≤ g
      · exact ⟨2, by omega, by omega, by omega, by rw [if_neg h4, if_neg h3, if_pos h2]⟩
      · exact ⟨1, by omega, by omega, by omega, by rw [if_neg h4, if_neg h3, if_neg h2]⟩

theorem length_hexDigits (count n : Nat) : (hexDigits count n).length = count := by
  induction count with
  | zero => rfl
  | succ count ih => rw [hexDigits, length_cons, ih]

/-- A hexadecimal digit as it is written, without capital letters. -/
def isLowerHex (b : UInt8) : Bool := isDigit b || (97 ≤ b && b ≤ 102)

theorem isLowerHex_of_mem_hexDigits {count : Nat} (h : b ∈ hexDigits count n) : isLowerHex b := by
  have hall : ∀ n : Fin 16, isLowerHex (hexDigit n) := by decide
  induction count with
  | zero => cases h
  | succ count ih =>
    rcases mem_cons.mp h with rfl | h
    · exact hall ⟨_, Nat.mod_lt _ (by omega)⟩
    · exact ih h

theorem isHex_of_isLowerHex (h : isLowerHex b) : isHex b := by
  simp only [isLowerHex, Bool.or_eq_true, Bool.and_eq_true, decide_eq_true_eq] at h
  rcases h with hdigit | hletter
  · exact isHex_of_isDigit hdigit
  · rw [isHex, unhex, if_pos hletter]
    split <;> rfl

theorem isHex_of_mem_hexDigits {count : Nat} (h : b ∈ hexDigits count n) : isHex b :=
  isHex_of_isLowerHex (isLowerHex_of_mem_hexDigits h)

/-- Hexadecimal digits are read back. -/
theorem foldl_hexDigits (count n acc : Nat) :
    (hexDigits count n).foldl (fun n b => n * 16 + (unhex b).getD 0) acc =
      acc * 16 ^ count + n % 16 ^ count := by
  induction count generalizing acc with
  | zero => simp [hexDigits, Nat.mod_one]
  | succ count ih =>
    have hsplit : n % 16 ^ (count + 1) =
        16 ^ count * (n / 16 ^ count % 16) + n % 16 ^ count := by
      rw [Nat.pow_succ, Nat.mod_mul]
      exact Nat.add_comm _ _
    rw [hexDigits, foldl_cons, unhex_hexDigit (Nat.mod_lt _ (by omega)), ih, hsplit,
      Nat.pow_succ, Option.getD_some]
    ring

/-- The digits of a group, and what follows them. -/
theorem hexGroup_read (h : g < 65536) (ht : ∀ b ∈ t.head?, ¬ isHex b) :
    (hexGroup g ++ t).takeWhile isHex = hexGroup g ∧ (hexGroup g ++ t).dropWhile isHex = t ∧
      hexGroup g ≠ [] ∧ (hexGroup g).length ≤ 4 ∧ hexValue (hexGroup g) = g := by
  obtain ⟨count, hpos, hle, hlt, heq⟩ := hexGroup_eq h
  have hall : ∀ b ∈ hexGroup g, isHex b := by
    exact fun b hb => isHex_of_mem_hexDigits hb
  have hstop : t.takeWhile isHex = [] ∧ t.dropWhile isHex = t := by
    cases t with
    | nil => exact ⟨rfl, rfl⟩
    | cons b u =>
      have hb : ¬ isHex b := ht b rfl
      simp [hb]
  refine ⟨?_, ?_, ?_, ?_, ?_⟩
  · rw [takeWhile_append_of_pos hall, hstop.1, append_nil]
  · rw [dropWhile_append_of_pos hall, hstop.2]
  · intro hnil
    have := congrArg List.length (heq.symm.trans hnil)
    rw [length_hexDigits] at this
    simp at this
    omega
  · rw [heq, length_hexDigits]
    exact hle
  · rw [heq, hexValue, foldl_hexDigits, Nat.mod_eq_of_lt hlt]
    omega

/-- One group at the end of the text. -/
theorem parseIPv6Loop_last (h : g < 65536) (room : Nat) (done : List Nat) (ellipsis : Option Nat) :
    parseIPv6Loop (room + 1) done ellipsis (hexGroup g) = some (done ++ [g], ellipsis) := by
  obtain ⟨htake, hdrop, hne, hlength, hvalue⟩ := hexGroup_read h (t := []) (by simp)
  rw [append_nil] at htake hdrop
  simp only [parseIPv6Loop, htake, hdrop, hvalue]
  rw [if_neg (by simp [hne]; omega), if_neg (by simp)]

/-- One group and the colon behind it. -/
theorem parseIPv6Loop_colon (h : g < 65536) (room : Nat) (done : List Nat) (ellipsis : Option Nat)
    (hne : t ≠ []) (hcolon : t.head? ≠ some 58) :
    parseIPv6Loop (room + 1) done ellipsis (hexGroup g ++ 58 :: t) =
      parseIPv6Loop room (done ++ [g]) ellipsis t := by
  obtain ⟨htake, hdrop, hnil, hlength, hvalue⟩ := hexGroup_read h (t := 58 :: t)
    (by rintro b ⟨⟩; decide)
  simp only [parseIPv6Loop, htake, hdrop, hvalue]
  rw [if_neg (by simp [hnil]; omega), if_neg (by simp), if_neg (by simp [hne]), if_neg hcolon]

/-- One group and the ellipsis behind it. -/
theorem parseIPv6Loop_ellipsis (h : g < 65536) (room : Nat) (done : List Nat) (t : GoString) :
    parseIPv6Loop (room + 1) done none (hexGroup g ++ 58 :: 58 :: t) =
      if t = [] then some (done ++ [g], some (done.length + 1))
      else parseIPv6Loop room (done ++ [g]) (some (done.length + 1)) t := by
  obtain ⟨htake, hdrop, hnil, hlength, hvalue⟩ := hexGroup_read h (t := 58 :: 58 :: t)
    (by rintro b ⟨⟩; decide)
  simp only [parseIPv6Loop, htake, hdrop, hvalue]
  rw [if_neg (by simp [hnil]; omega), if_neg (by simp), if_neg (by simp)]
  simp

theorem hexText_cons (g g' : Nat) (gs : List Nat) :
    hexText (g :: g' :: gs) = hexGroup g ++ 58 :: hexText (g' :: gs) := by
  simp [hexText, join, List.intercalate, lit]

theorem hexText_singleton (g : Nat) : hexText [g] = hexGroup g := by
  simp [hexText, join, List.intercalate]

/-- A text of groups begins with a digit. -/
theorem hexText_head (h : g < 65536) (gs : List Nat) :
    ∃ b t, hexText (g :: gs) = b :: t ∧ isHex b := by
  obtain ⟨count, hpos, -, -, heq⟩ := hexGroup_eq h
  obtain ⟨count, rfl⟩ : ∃ c, count = c + 1 := ⟨count - 1, by omega⟩
  have hdigit : isHex (hexDigit (g / 16 ^ count % 16)) :=
    isHex_of_mem_hexDigits (show _ ∈ hexDigits (count + 1) g from mem_cons_self)
  cases gs with
  | nil =>
    rw [hexText_singleton, heq]
    exact ⟨_, _, rfl, hdigit⟩
  | cons g' gs =>
    rw [hexText_cons, heq]
    exact ⟨_, _, rfl, hdigit⟩

/-- No colon stands in front. -/
theorem hexText_next (h : g < 65536) (gs : List Nat) (t : GoString) :
    hexText (g :: gs) ++ t ≠ [] ∧ (hexText (g :: gs) ++ t).head? ≠ some 58 := by
  obtain ⟨b, u, heq, hb⟩ := hexText_head h gs
  rw [heq]
  refine ⟨by simp, ?_⟩
  simp only [cons_append, List.head?_cons, ne_eq, Option.some.injEq]
  rintro rfl
  cases hb

/-- Groups up to the end of the text. -/
theorem parseIPv6Loop_hexText (g : Nat) (gs : List Nat) (hlt : ∀ x ∈ g :: gs, x < 65536)
    (room : Nat) (hroom : gs.length < room) (done : List Nat) (ellipsis : Option Nat) :
    parseIPv6Loop room done ellipsis (hexText (g :: gs)) = some (done ++ g :: gs, ellipsis) := by
  induction gs generalizing g room done with
  | nil =>
    obtain ⟨room, rfl⟩ : ∃ r, room = r + 1 := ⟨room - 1, by omega⟩
    rw [hexText_singleton, parseIPv6Loop_last (hlt g mem_cons_self)]
  | cons g' gs ih =>
    obtain ⟨room, rfl⟩ : ∃ r, room = r + 1 := ⟨room - 1, by omega⟩
    have hg' : g' < 65536 := hlt g' (by simp)
    have hnext := hexText_next hg' gs []
    rw [append_nil] at hnext
    rw [hexText_cons, parseIPv6Loop_colon (hlt g mem_cons_self) _ _ _ hnext.1 hnext.2,
      ih g' (fun x hx => hlt x (mem_cons_of_mem _ hx)) room (by simpa using hroom)]
    simp

/-- Groups up to an ellipsis, and those behind it. -/
theorem parseIPv6Loop_hexText_ellipsis (g : Nat) (pre post : List Nat)
    (hlt : ∀ x ∈ g :: pre, x < 65536) (hpost : ∀ x ∈ post, x < 65536)
    (room : Nat) (hroom : pre.length + post.length + 1 ≤ room) (done : List Nat) :
    parseIPv6Loop room done none (hexText (g :: pre) ++ 58 :: 58 :: hexText post) =
      some (done ++ g :: pre ++ post, some (done.length + (pre.length + 1))) := by
  induction pre generalizing g room done with
  | nil =>
    obtain ⟨room, rfl⟩ : ∃ r, room = r + 1 := ⟨room - 1, by omega⟩
    rw [hexText_singleton, parseIPv6Loop_ellipsis (hlt g mem_cons_self)]
    cases post with
    | nil =>
      rw [if_pos (by rfl)]
      simp
    | cons p post =>
      have hp : p < 65536 := hpost p mem_cons_self
      have hnext := hexText_next hp post []
      rw [append_nil] at hnext
      rw [if_neg hnext.1, parseIPv6Loop_hexText p post hpost room (by simp at hroom; omega)]
      simp
  | cons g' pre ih =>
    obtain ⟨room, rfl⟩ : ∃ r, room = r + 1 := ⟨room - 1, by omega⟩
    have hg' : g' < 65536 := hlt g' (by simp)
    have hnext := hexText_next hg' pre (58 :: 58 :: hexText post)
    rw [hexText_cons, append_assoc, cons_append,
      parseIPv6Loop_colon (hlt g mem_cons_self) _ _ _ hnext.1 hnext.2,
      ih g' (fun x hx => hlt x (mem_cons_of_mem _ hx)) room
        (by simp only [length_cons] at hroom; omega)]
    simp only [length_append, length_cons, length_nil, append_assoc,
      cons_append, nil_append]
    congr 3
    omega

/-- The run of zeros lies where it says. -/
theorem zeroRun_spec {gs : List Nat} {start l : Nat} (h : zeroRun gs = some (start, l)) :
    2 ≤ l ∧ l = zerosFrom gs start := by
  have hloop : ∀ (is : List Nat) (best : Option (Nat × Nat)),
      (∀ b ∈ best, 2 ≤ b.2 ∧ b.2 = zerosFrom gs b.1) →
      ∀ b ∈ is.foldl (fun best i =>
        let l := zerosFrom gs i
        if 2 ≤ l ∧ (best.map Prod.snd).getD 0 < l then some (i, l) else best) best,
        2 ≤ b.2 ∧ b.2 = zerosFrom gs b.1 := by
    intro is
    induction is with
    | nil => exact fun best hbest => hbest
    | cons i is ih =>
      intro best hbest
      refine ih _ ?_
      simp only
      split
      · rename_i hlong
        rintro b hb
        obtain rfl : (i, zerosFrom gs i) = b := by simpa using hb
        exact ⟨hlong.1, rfl⟩
      · exact hbest
  exact hloop (List.range 8) none (by simp) (start, l) h

/-- The zero groups can be left out. -/
theorem split_zeros (gs : List Nat) (start : Nat) :
    gs = gs.take start ++ List.replicate (zerosFrom gs start) 0 ++
      gs.drop (start + zerosFrom gs start) := by
  have hzeros : (gs.drop start).takeWhile (· = 0) = List.replicate (zerosFrom gs start) 0 := by
    rw [eq_replicate_iff]
    exact ⟨rfl, fun b hb => by simpa using mem_takeWhile_imp hb⟩
  have hrest : gs.drop (start + zerosFrom gs start) = (gs.drop start).dropWhile (· = 0) := by
    have hsplit := takeWhile_append_dropWhile (p := (· = 0)) (l := gs.drop start)
    calc gs.drop (start + zerosFrom gs start)
        = (gs.drop start).drop ((gs.drop start).takeWhile (· = 0)).length := by
          rw [drop_drop]
          rfl
      _ = (gs.drop start).dropWhile (· = 0) := by
          conv_lhs => arg 2; rw [← hsplit]
          rw [drop_left]
  calc gs = gs.take start ++ gs.drop start := (take_append_drop _ _).symm
    _ = _ := by
      rw [append_assoc]
      congr 1
      rw [← hzeros, hrest, takeWhile_append_dropWhile]

/-- Nor does a gap. -/
theorem not_ellipsis (h : g < 65536) (gs : List Nat) (t : GoString) :
    (lit "::").isPrefixOf (hexText (g :: gs) ++ t) = false := by
  obtain ⟨b, u, heq, hb⟩ := hexText_head h gs
  have hne : b ≠ 58 := by
    rintro rfl
    cases hb
  rw [heq]
  simp [lit, List.isPrefixOf, Ne.symm hne]

/-- A text with an ellipsis. -/
theorem parseIPv6Groups_ellipsis (pre post : List Nat) (hpre : ∀ x ∈ pre, x < 65536)
    (hpost : ∀ x ∈ post, x < 65536) {l : Nat} (hl : 0 < l)
    (htotal : pre.length + l + post.length = 8) :
    parseIPv6Groups (hexText pre ++ lit "::" ++ hexText post) =
      some (pre ++ List.replicate l 0 ++ post) := by
  unfold parseIPv6Groups parseIPv6Fields
  cases pre with
  | nil =>
    have hdrop : (hexText [] ++ lit "::" ++ hexText post).drop 2 = hexText post := rfl
    rw [if_pos (by rfl), hdrop]
    cases post with
    | nil =>
      obtain rfl : l = 8 := by simpa using htotal
      rfl
    | cons p post =>
      have hnext := hexText_next (hpost p mem_cons_self) post []
      rw [append_nil] at hnext
      simp only [length_nil, length_cons] at htotal
      rw [if_neg hnext.1, parseIPv6Loop_hexText p post hpost 8 (by omega)]
      simp only [nil_append, Option.bind_some, expandEllipsis, length_cons]
      rw [if_pos (by omega), show 8 - (post.length + 1) = l by omega]
      simp
  | cons g pre =>
    have htext : hexText (g :: pre) ++ lit "::" ++ hexText post =
        hexText (g :: pre) ++ 58 :: 58 :: hexText post := by
      rw [append_assoc]
      rfl
    have hstart := not_ellipsis (hpre g mem_cons_self) pre (58 :: 58 :: hexText post)
    simp only [length_cons] at htotal
    rw [htext, if_neg (by simp [hstart]),
      parseIPv6Loop_hexText_ellipsis g pre post hpre hpost 8 (by omega)]
    simp only [nil_append, length_nil, Nat.zero_add, Option.bind_some,
      expandEllipsis, length_append, length_cons]
    rw [if_pos (by omega), show 8 - (pre.length + 1 + post.length) = l by omega,
      take_left' (by simp), drop_left' (by simp)]

/-- **The groups of an IPv6 number are read back from its text.** -/
theorem parseIPv6Groups_string6 (n : Nat) : parseIPv6Groups (string6 n) = some (groups n) := by
  have hlength := length_groups n
  have hlt : ∀ x ∈ groups n, x < 65536 := fun x hx => lt_of_mem_groups hx
  unfold string6
  cases hrun : zeroRun (groups n) with
  | none =>
    cases hgs : groups n with
    | nil =>
      rw [hgs] at hlength
      cases hlength
    | cons g gs =>
      rw [hgs] at hlt hlength
      have hstart := not_ellipsis (hlt g mem_cons_self) gs []
      rw [append_nil] at hstart
      simp only [parseIPv6Groups, parseIPv6Fields]
      rw [if_neg (by simp [hstart]),
        parseIPv6Loop_hexText g gs hlt 8 (by simp only [length_cons] at hlength; omega)]
      simp only [nil_append, Option.bind_some, expandEllipsis]
      rw [if_pos hlength]
  | some run =>
    obtain ⟨start, l⟩ := run
    obtain ⟨hl, hzeros⟩ := zeroRun_spec hrun
    have hsplit := split_zeros (groups n) start
    rw [← hzeros] at hsplit
    have htotal := congrArg List.length hsplit
    rw [hlength, length_append, length_append, length_replicate] at htotal
    have hread := parseIPv6Groups_ellipsis ((groups n).take start) ((groups n).drop (start + l))
      (fun x hx => hlt x (mem_of_mem_take hx)) (fun x hx => hlt x (mem_of_mem_drop hx))
      (by omega : 0 < l) htotal.symm
    rw [← hsplit] at hread
    exact hread

theorem mem_hexText {gs : List Nat} (hlt : ∀ g ∈ gs, g < 65536) (h : b ∈ hexText gs) :
    isLowerHex b ∨ b = 58 := by
  have hgroup : ∀ g, g < 65536 → ∀ c ∈ hexGroup g, isLowerHex c := by
    intro g hg c hc
    obtain ⟨count, -, -, -, heq⟩ := hexGroup_eq hg
    exact isLowerHex_of_mem_hexDigits hc
  induction gs with
  | nil => cases h
  | cons g gs ih =>
    cases gs with
    | nil =>
      rw [hexText_singleton] at h
      exact .inl (hgroup g (hlt g mem_cons_self) b h)
    | cons g' gs =>
      rw [hexText_cons, mem_append, mem_cons] at h
      rcases h with h | h | h
      · exact .inl (hgroup g (hlt g mem_cons_self) b h)
      · exact .inr h
      · exact ih (fun x hx => hlt x (mem_cons_of_mem _ hx)) h

/-- An IPv6 text has hexadecimal digits and colons, and at least one colon. -/
theorem string6_bytes (n : Nat) :
    (∀ b ∈ string6 n, isLowerHex b ∨ b = 58) ∧ (58 : UInt8) ∈ string6 n := by
  have hlt : ∀ x ∈ groups n, x < 65536 := fun x hx => lt_of_mem_groups hx
  unfold string6
  split
  · refine ⟨fun b hb => mem_hexText hlt hb, ?_⟩
    have hgs : groups n = [n / 65536 ^ 7 % 65536, n / 65536 ^ 6 % 65536] ++ (groups n).drop 2 := rfl
    rw [hgs, cons_append, cons_append, hexText_cons]
    simp
  · refine ⟨fun b hb => ?_, by simp [lit]⟩
    rw [mem_append, mem_append] at hb
    rcases hb with (hb | hb) | hb
    · exact mem_hexText (fun x hx => hlt x (mem_of_mem_take hx)) hb
    · exact .inr (by simpa [lit] using hb)
    · exact mem_hexText (fun x hx => hlt x (mem_of_mem_drop hx)) hb

/-- The byte that tells the kind of an address. -/
theorem find_kind {s : GoString} {kind : UInt8} (hkind : kind = 46 ∨ kind = 58)
    (hbytes : ∀ b ∈ s, isLowerHex b ∨ b = kind) (hmem : kind ∈ s) :
    s.find? (fun b => b = 46 || b = 58 || b = 37) = some kind := by
  cases h : s.find? (fun b => b = 46 || b = 58 || b = 37) with
  | none =>
    have := List.find?_eq_none.mp h kind hmem
    rcases hkind with rfl | rfl <;> simp at this
  | some b =>
    have hb := List.find?_some h
    rcases hbytes b (mem_of_find?_eq_some h) with hhex | rfl
    · simp only [Bool.or_eq_true, decide_eq_true_eq] at hb
      rcases hb with (rfl | rfl) | rfl <;> cases hhex
    · rfl

/-- **Addresses of version 6 are read back.** -/
theorem parseAddr_string6 (n : Fin (2 ^ 128)) (zone : GoString) :
    parseAddr (string6 n ++ if zone = [] then [] else lit "%" ++ zone) = some (.v6 n zone) := by
  obtain ⟨hbytes, hcolon⟩ := string6_bytes n
  have hpercent : (37 : UInt8) ∉ string6 n := by
    intro hmem
    rcases hbytes 37 hmem with h | h
    · cases h
    · cases h
  have hcut : cut (string6 n ++ if zone = [] then [] else lit "%" ++ zone) 37 =
      (string6 n, zone, decide (zone ≠ [])) := by
    by_cases hzone : zone = []
    · have hall : ∀ b ∈ string6 n, decide (b ≠ (37 : UInt8)) = true := by
        intro b hb
        rw [decide_eq_true_eq]
        exact fun heq => hpercent (heq ▸ hb)
      rw [if_pos hzone, append_nil, cut, takeWhile_eq_self_iff.mpr hall,
        dropWhile_eq_nil_iff.mpr hall, contains_eq_mem, hzone]
      simp [hpercent]
    · rw [if_neg hzone]
      exact (cut_append hpercent).trans (by simp [hzone])
  rw [parseAddr, find?_append, find_kind (.inr rfl) hbytes hcolon]
  simp only [Option.some_or, parseIPv6, hcut]
  rw [if_neg (by simp), parseIPv6Groups_string6, Option.map_some, ofGroups_groups n.isLt,
    show Fin.ofNat (2 ^ 128) n.val = n from Fin.ext (Nat.mod_eq_of_lt n.isLt)]

theorem string4_bytes (n : Nat) :
    (∀ b ∈ string4 n, isLowerHex b ∨ b = 46) ∧ (46 : UInt8) ∈ string4 n := by
  have hdigits : ∀ m, ∀ b ∈ itoa m, isLowerHex b := by
    intro m b hb
    have hd := digit_of_mem_itoa hb
    simp only [isLowerHex, isDigit, Bool.or_eq_true, Bool.and_eq_true, decide_eq_true_eq,
      UInt8.le_iff_toNat_le]
    exact .inl hd
  rw [string4_eq]
  refine ⟨fun b hb => ?_, by simp⟩
  simp only [mem_append, mem_cons, not_mem_nil, or_false] at hb
  rcases hb with hb | hb | hb | hb | hb | hb | hb
  all_goals first
    | exact .inr hb
    | exact .inl (hdigits _ _ hb)

/-- **So are those of version 4.** -/
theorem parseAddr_string4 (n : Fin (2 ^ 32)) : parseAddr (string4 n) = some (.v4 n) := by
  obtain ⟨hbytes, hdot⟩ := string4_bytes n
  rw [parseAddr, find_kind (.inl rfl) hbytes hdot]
  simp only [parseIPv4]
  rw [parseIPv4Fields_string4, Option.map_some, ofOctets_octets n.isLt,
    show Fin.ofNat (2 ^ 32) n.val = n from Fin.ext (Nat.mod_eq_of_lt n.isLt)]

/-- **An address is read back from its text**, unless it is an IPv4 address in
IPv6 form. -/
theorem parseAddr_string {a : Addr} (h : ¬ a.is4In6) : parseAddr a.string = some a := by
  cases a with
  | v4 n => exact parseAddr_string4 n
  | v6 n zone =>
    have hn : ¬ n.val / 2 ^ 32 = 0xFFFF := by simpa [Addr.is4In6] using h
    simp only [Addr.string, if_neg hn]
    exact parseAddr_string6 n zone

/-- The prefix length is behind the last slash. -/
theorem cutLastSlash_append {a b : GoString} (h : (47 : UInt8) ∉ b) :
    cutLastSlash (a ++ 47 :: b) = (a, b) := by
  have hall : ∀ c ∈ b.reverse, decide (c ≠ (47 : UInt8)) = true := by
    intro c hc
    rw [decide_eq_true_eq]
    rintro rfl
    exact h (mem_reverse.mp hc)
  have hrev : (a ++ 47 :: b).reverse = b.reverse ++ 47 :: a.reverse := by simp
  rw [cutLastSlash, List.rdropWhile, List.rtakeWhile, hrev, dropWhile_append_of_pos hall,
    takeWhile_append_of_pos hall]
  simp

/-- The bits of a prefix are written without leading zero. -/
theorem itoa_bits (h : n ≤ 128) :
    ¬ (1 < (itoa n).length ∧ !(isDigit ((itoa n).headD 0) && (itoa n).headD 0 ≠ 48)) ∧
      ¬ (itoa n = [] ∨ !(itoa n).all isDigit) := by
  have hall : ∀ n : Fin 129,
      ¬ (1 < (itoa n).length ∧ !(isDigit ((itoa n).headD 0) && (itoa n).headD 0 ≠ 48)) ∧
        ¬ (itoa n = [] ∨ !(itoa n).all isDigit) := by decide +kernel
  exact hall ⟨n, by omega⟩

/-- **A prefix is read back from its text**, unless it is an IPv4 address in
IPv6 form. -/
theorem parsePrefix_string (p : Prefix) (h : ¬ p.addr.is4In6) :
    parsePrefix p.string = some p := by
  obtain ⟨a, bits, hbits, hzone⟩ := p
  have haddr : parseAddr a.string = some a := parseAddr_string h
  have hwide : bits ≤ 128 := by
    cases a <;> simp [Addr.bitLen] at hbits <;> omega
  obtain ⟨hlead, hdigits⟩ := itoa_bits hwide
  have hslash : (47 : UInt8) ∉ itoa bits := by
    intro hmem
    have := digit_of_mem_itoa hmem
    simp at this
  have htext : Prefix.string ⟨a, bits, hbits, hzone⟩ = a.string ++ 47 :: itoa bits := by
    simp [Prefix.string, lit]
  rw [htext, parsePrefix, if_neg (by simp), cutLastSlash_append hslash]
  simp only [haddr]
  rw [if_neg (by simp [hzone]), if_neg hlead, if_neg hdigits,
    dif_pos (by rw [digitsValue_itoa]; exact hbits)]
  have hwithout : a.withoutZone = a := by
    cases a with
    | v4 n => rfl
    | v6 n zone => rw [show zone = [] from hzone]; rfl
  simp only [prefixFrom, digitsValue_itoa, hwithout]

end NetAddresses
