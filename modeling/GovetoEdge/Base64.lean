import GovetoEdge.GoStrings

/-!
# Base64

The standard alphabet without padding.  The decoder skips line breaks and does
not look at the bits behind the last byte.  What has been encoded is decoded
(`decode_encode`).
-/

namespace Base64

open GoStrings List

/-- The standard alphabet. -/
def alphabet : GoString := lit "ABCDEFGHIJKLMNOPQRSTUVWXYZabcdefghijklmnopqrstuvwxyz0123456789+/"

/-- The character of six bits. -/
def digit (n : Nat) : UInt8 := alphabet.getD n 0

/-- The six bits of a character. -/
def value (b : UInt8) : Option Nat :=
  if 65 ≤ b ∧ b ≤ 90 then some (b.toNat - 65)
  else if 97 ≤ b ∧ b ≤ 122 then some (b.toNat - 71)
  else if 48 ≤ b ∧ b ≤ 57 then some (b.toNat + 4)
  else if b = 43 then some 62
  else if b = 47 then some 63
  else none

/-- `RawStdEncoding.EncodeToString`. -/
def encode : GoString → GoString
  | [] => []
  | [a] => [digit (a.toNat / 4), digit (a.toNat % 4 * 16)]
  | [a, b] =>
    [digit (a.toNat / 4), digit (a.toNat % 4 * 16 + b.toNat / 16), digit (b.toNat % 16 * 4)]
  | a :: b :: c :: rest =>
    digit (a.toNat / 4) :: digit (a.toNat % 4 * 16 + b.toNat / 16) ::
      digit (b.toNat % 16 * 4 + c.toNat / 64) :: digit (c.toNat % 64) :: encode rest

/-- The bytes of a list of six-bit values; one value alone is no byte. -/
def bytes : List Nat → Option GoString
  | [] => some []
  | [_] => none
  | [w, x] => some [UInt8.ofNat (w * 4 + x / 16)]
  | [w, x, y] => some [UInt8.ofNat (w * 4 + x / 16), UInt8.ofNat (x % 16 * 16 + y / 4)]
  | w :: x :: y :: z :: rest => do
    let tail ← bytes rest
    some (UInt8.ofNat (w * 4 + x / 16) :: UInt8.ofNat (x % 16 * 16 + y / 4) ::
      UInt8.ofNat (y % 4 * 64 + z) :: tail)

/-- `RawStdEncoding.DecodeString`. -/
def decode (s : GoString) : Option GoString :=
  ((s.filter fun b => b ≠ 10 ∧ b ≠ 13).mapM value).bind bytes

/-- The values that stand behind an encoding. -/
def values : GoString → List Nat
  | [] => []
  | [a] => [a.toNat / 4, a.toNat % 4 * 16]
  | [a, b] => [a.toNat / 4, a.toNat % 4 * 16 + b.toNat / 16, b.toNat % 16 * 4]
  | a :: b :: c :: rest =>
    a.toNat / 4 :: (a.toNat % 4 * 16 + b.toNat / 16) :: (b.toNat % 16 * 4 + c.toNat / 64) ::
      c.toNat % 64 :: values rest

/-- Encoding, digit by digit. -/
theorem encode_eq (s : GoString) : encode s = (values s).map digit := by
  fun_induction encode s with
  | case1 => rfl
  | case2 a => rfl
  | case3 a b => rfl
  | case4 a b c rest ih => simp [values, ih]

/-- Digits have six bits. -/
theorem values_lt (s : GoString) : ∀ n ∈ values s, n < 64 := by
  fun_induction values s with
  | case1 => simp
  | case2 a =>
    have ha := a.toNat_lt
    simp only [mem_cons, not_mem_nil, or_false, forall_eq_or_imp, forall_eq]
    omega
  | case3 a b =>
    have ha := a.toNat_lt
    have hb := b.toNat_lt
    simp only [mem_cons, not_mem_nil, or_false, forall_eq_or_imp, forall_eq]
    omega
  | case4 a b c rest ih =>
    have ha := a.toNat_lt
    have hb := b.toNat_lt
    have hc := c.toNat_lt
    simp only [mem_cons, forall_eq_or_imp]
    exact ⟨by omega, by omega, by omega, by omega, ih⟩

theorem ofNat_toNat {b : UInt8} {n : Nat} (h : n = b.toNat) : UInt8.ofNat n = b := by
  rw [h, UInt8.ofNat_toNat]

/-- Decoding gives the bytes back. -/
theorem bytes_values (s : GoString) : bytes (values s) = some s := by
  fun_induction values s with
  | case1 => rfl
  | case2 a =>
    rw [bytes, ofNat_toNat (b := a) (by omega)]
  | case3 a b =>
    have hb := b.toNat_lt
    rw [bytes, ofNat_toNat (b := a) (by omega), ofNat_toNat (b := b) (by omega)]
  | case4 a b c rest ih =>
    have hb := b.toNat_lt
    have hc := c.toNat_lt
    rw [bytes, ih, ofNat_toNat (b := a) (by omega), ofNat_toNat (b := b) (by omega),
      ofNat_toNat (b := c) (by omega)]
    rfl

/-- Digits are read back. -/
theorem value_digit {n : Nat} (h : n < 64) : value (digit n) = some n := by
  have hall : ∀ n : Fin 64, value (digit n) = some n.val := by decide +kernel
  exact hall ⟨n, h⟩

/-- No digit is a line break. -/
theorem digit_ne_newline {n : Nat} (h : n < 64) : digit n ≠ 10 ∧ digit n ≠ 13 := by
  have hall : ∀ n : Fin 64, digit n ≠ 10 ∧ digit n ≠ 13 := by decide +kernel
  exact hall ⟨n, h⟩

/-- **What has been encoded is decoded.** -/
theorem decode_encode (s : GoString) : decode (encode s) = some s := by
  have hlt := values_lt s
  have hfilter : (encode s).filter (fun b => b ≠ 10 ∧ b ≠ 13) = encode s := by
    rw [filter_eq_self, encode_eq]
    intro b hb
    obtain ⟨n, hn, rfl⟩ := mem_map.mp hb
    simpa using digit_ne_newline (hlt n hn)
  have hmap : ∀ ns : List Nat, (∀ n ∈ ns, n < 64) → (ns.map digit).mapM value = some ns := by
    intro ns
    induction ns with
    | nil => exact fun _ => rfl
    | cons n ns ih =>
      intro h
      rw [map_cons, mapM_cons, value_digit (h n mem_cons_self),
        ih fun m hm => h m (mem_cons_of_mem _ hm)]
      rfl
  rw [decode, hfilter, encode_eq, hmap _ hlt]
  exact bytes_values s

end Base64
