import Mathlib

/-!
# Fixed-width big-endian integers and fields of a byte list

`put k n` writes the low `k` bytes of `n`, most significant first, and `get`
reads a byte list back; `get_put` is the round trip, which also says how a
value that does not fit is cut off.  `slice l i j` are the bytes from `i` up
to `j`, and the rules for `slice` find a field in a concatenation of
fields of known lengths.
-/

namespace BigEndian

open List

/-- The low `k` bytes of `n`, most significant first. -/
def put : Nat → Nat → List UInt8
  | 0, _ => []
  | k + 1, n => UInt8.ofNat (n / 256 ^ k) :: put k n

/-- The number a byte list stands for. -/
def get (bs : List UInt8) : Nat :=
  bs.foldl (fun acc b => acc * 256 + b.toNat) 0

/-- The bytes `l[i:j]`. -/
def slice (l : List UInt8) (i j : Nat) : List UInt8 := (l.drop i).take (j - i)

/-- As many bytes as asked for. -/
@[simp] theorem length_put (k n : Nat) : (put k n).length = k := by
  induction k with
  | zero => rfl
  | succ k ih => simp [put, ih]

/-- The accumulator is shifted. -/
theorem foldl_eq (acc : Nat) (bs : List UInt8) :
    bs.foldl (fun acc b => acc * 256 + b.toNat) acc = acc * 256 ^ bs.length + get bs := by
  induction bs generalizing acc with
  | nil => simp [get]
  | cons b bs ih =>
    have hget : get (b :: bs) = b.toNat * 256 ^ bs.length + get bs := by
      simp only [get, foldl_cons, Nat.zero_mul, Nat.zero_add]
      exact ih b.toNat
    rw [foldl_cons, ih, hget, length_cons, Nat.pow_succ]
    ring

/-- The first byte counts most. -/
theorem get_cons (b : UInt8) (bs : List UInt8) :
    get (b :: bs) = b.toNat * 256 ^ bs.length + get bs := by
  simp only [get, foldl_cons, Nat.zero_mul, Nat.zero_add]
  exact foldl_eq b.toNat bs

/-- **The round trip.**  A value comes back up to the width of its field. -/
theorem get_put (k n : Nat) : get (put k n) = n % 256 ^ k := by
  induction k with
  | zero => simp [put, get, Nat.mod_one]
  | succ k ih =>
    have hdigit : (UInt8.ofNat (n / 256 ^ k)).toNat = n / 256 ^ k % 256 := by simp
    calc get (put (k + 1) n)
        = n / 256 ^ k % 256 * 256 ^ k + n % 256 ^ k := by
          rw [put, get_cons, hdigit, length_put, ih]
      _ = n % 256 ^ (k + 1) := by
          rw [Nat.pow_succ, Nat.mod_mul]
          ring

/-- A value that fits its field comes back. -/
theorem get_put_of_lt {k n : Nat} (h : n < 256 ^ k) : get (put k n) = n := by
  rw [get_put, Nat.mod_eq_of_lt h]

/-- The value has as many bytes. -/
theorem get_lt (bs : List UInt8) : get bs < 256 ^ bs.length := by
  induction bs with
  | nil => decide
  | cons b bs ih =>
    have hb : b.toNat + 1 ≤ 256 := b.toNat_lt
    calc get (b :: bs) < (b.toNat + 1) * 256 ^ bs.length := by
          rw [get_cons, Nat.add_mul, Nat.one_mul]
          omega
      _ ≤ 256 * 256 ^ bs.length := Nat.mul_le_mul_right _ hb
      _ = 256 ^ (b :: bs).length := by rw [length_cons, Nat.pow_succ, Nat.mul_comm]

/-- Byte lists of one length that stand for the same number are the same. -/
theorem get_inj {as bs : List UInt8} (hlength : as.length = bs.length) (h : get as = get bs) :
    as = bs := by
  induction as generalizing bs with
  | nil => exact (length_eq_zero_iff.mp hlength.symm).symm
  | cons a as ih =>
    cases bs with
    | nil => cases hlength
    | cons b bs =>
      have hlength : as.length = bs.length := Nat.succ.inj hlength
      rw [get_cons, get_cons, hlength] at h
      have ha : get as < 256 ^ bs.length := hlength ▸ get_lt as
      have hb := get_lt bs
      have hdiv := congrArg (· / 256 ^ bs.length) h
      have hmod := congrArg (· % 256 ^ bs.length) h
      simp only [Nat.mul_comm _ (256 ^ bs.length),
        Nat.mul_add_div (lt_of_le_of_lt (Nat.zero_le _) hb), Nat.mul_add_mod,
        Nat.div_eq_of_lt ha, Nat.div_eq_of_lt hb, Nat.mod_eq_of_lt ha, Nat.mod_eq_of_lt hb,
        Nat.add_zero] at hdiv hmod
      rw [UInt8.toNat_inj.mp hdiv, ih hlength hmod]

/-- Writing what was read gives the same bytes. -/
theorem put_get {k : Nat} {bs : List UInt8} (h : bs.length = k) : put k (get bs) = bs := by
  apply get_inj
  · rw [length_put, h]
  · exact get_put_of_lt (h ▸ get_lt bs)

variable {i j : Nat} {l a : List UInt8}

/-- A slice inside the text. -/
theorem length_slice (h : j ≤ l.length) : (slice l i j).length = j - i := by
  rw [slice, length_take, length_drop]
  omega

/-- A field and what comes after it. -/
theorem slice_append_drop (h : i ≤ j) : slice l i j ++ l.drop j = l.drop i := by
  have hdrop : l.drop j = (l.drop i).drop (j - i) := by
    rw [drop_drop]
    congr 1
    omega
  rw [slice, hdrop, take_append_drop]

/-- A field that begins after the first part. -/
theorem slice_append_right (h : a.length ≤ i) :
    slice (a ++ l) i j = slice l (i - a.length) (j - a.length) := by
  unfold slice
  rw [drop_append, drop_of_length_le h, nil_append]
  congr 1
  omega

/-- The field that is the first part. -/
theorem slice_append_left (h : a.length = j) : slice (a ++ l) 0 j = a := by
  subst h
  simp [slice]

/-- The field that is the last part. -/
theorem slice_self (h : a.length = j) : slice a 0 j = a := by
  subst h
  simp [slice]

/-- The field between two other parts. -/
theorem slice_middle (a b c : List UInt8) (hi : a.length = i) (hj : i + b.length = j) :
    slice (a ++ (b ++ c)) i j = b := by
  rw [slice_append_right (le_of_eq hi), hi, Nat.sub_self, slice_append_left (by omega)]

/-- A field that is only the beginning of a part. -/
theorem slice_beginning (a b c : List UInt8) {m : Nat} (hi : a.length = i) (hm : m ≤ b.length) :
    slice (a ++ (b ++ c)) i (i + m) = b.take m := by
  rw [slice_append_right (le_of_eq hi), hi, Nat.sub_self, Nat.add_sub_cancel_left, slice,
    drop_zero, Nat.sub_zero, take_append_of_le_length hm]

/-- The field after another part. -/
theorem slice_last (a b : List UInt8) (hi : a.length = i) (hj : i + b.length = j) :
    slice (a ++ b) i j = b := by
  simpa using slice_middle a b [] hi hj

end BigEndian
