import Mathlib

/-!
# Byte strings

Go strings are byte lists, compared byte by byte.  This file has the parts of
the `strconv` and `strings` packages that the models share.

* `itoa` writes decimal digits only and is injective (`itoa_injective`);
* `insertionSort` sorts strings in place by adjacent swaps; its result depends
  only on the strings, not on their order (`insertionSort_eq_of_perm`);
* `trimSpace` knows the white space of Unicode by its UTF-8 byte patterns, and
  leaves none at either end (`trimmed_trimSpace`).
-/

namespace GoStrings

open List

/-- Go strings are bytes. -/
abbrev GoString := List UInt8

instance : LawfulBEq GoString := inferInstance

/-- The bytes of an ASCII literal. -/
def lit (s : String) : GoString := s.toList.map fun c => UInt8.ofNat c.toNat

/-- `time.Second`: durations are nanoseconds. -/
def second : Int := 1000000000

/-- `strconv.Itoa` of a number that is not negative. -/
def itoa (n : Nat) : GoString := (Nat.toDigits 10 n).map fun c => UInt8.ofNat c.toNat

variable {n : Nat}

/-- A decimal digit is an ASCII character. -/
theorem toNat_of_mem_toDigits {c : Char} (h : c ∈ Nat.toDigits 10 n) :
    48 ≤ c.toNat ∧ c.toNat ≤ 57 :=
  Char.isDigit_iff_toNat.mp (Nat.isDigit_of_mem_toDigits (by omega) (Nat.le_refl 10) h)

/-- The bytes of `itoa` are decimal digits. -/
theorem digit_of_mem_itoa {b : UInt8} (h : b ∈ itoa n) : 48 ≤ b.toNat ∧ b.toNat ≤ 57 := by
  obtain ⟨c, hc, rfl⟩ := mem_map.mp h
  have hdigit := toNat_of_mem_toDigits hc
  rw [UInt8.toNat_ofNat', Nat.mod_eq_of_lt (by omega)]
  exact hdigit

/-- The digits can be read back from their bytes. -/
theorem map_itoa (n : Nat) :
    (itoa n).map (fun b => Char.ofNat b.toNat) = Nat.toDigits 10 n := by
  unfold itoa
  rw [map_map]
  conv_rhs => rw [← map_id (Nat.toDigits 10 n)]
  apply map_congr_left
  intro c hc
  have hdigit := toNat_of_mem_toDigits hc
  simp only [Function.comp_apply, UInt8.toNat_ofNat', id_eq]
  rw [Nat.mod_eq_of_lt (by omega), Char.ofNat_toNat]

/-- **`itoa` is injective.** -/
theorem itoa_injective {m : Nat} (h : itoa m = itoa n) : m = n := by
  have hdigits : Nat.toDigits 10 m = Nat.toDigits 10 n := by
    rw [← map_itoa m, ← map_itoa n, h]
  calc m = Nat.ofDigitChars 10 (Nat.toDigits 10 m) 0 :=
        (Nat.ofDigitChars_toDigits (by omega) (Nat.le_refl 10)).symm
    _ = Nat.ofDigitChars 10 (Nat.toDigits 10 n) 0 := by rw [hdigits]
    _ = n := Nat.ofDigitChars_toDigits (by omega) (Nat.le_refl 10)

/-- The number some decimal digits write. -/
def digitsValue (s : GoString) : Nat := s.foldl (fun n b => 10 * n + (b.toNat - 48)) 0

/-- Numbers are read back. -/
theorem digitsValue_itoa (n : Nat) : digitsValue (itoa n) = n := by
  have hdigits : ∀ (cs : List Char) (init : Nat),
      (∀ c ∈ cs, 48 ≤ c.toNat ∧ c.toNat ≤ 57) →
      (cs.map fun c => UInt8.ofNat c.toNat).foldl (fun n b => 10 * n + (b.toNat - 48)) init =
        Nat.ofDigitChars 10 cs init := by
    intro cs
    induction cs with
    | nil =>
      intro init _
      rfl
    | cons c cs ih =>
      intro init h
      have hc := h c mem_cons_self
      have hbyte : (UInt8.ofNat c.toNat).toNat = c.toNat := by
        rw [UInt8.toNat_ofNat', Nat.mod_eq_of_lt (by omega)]
      rw [map_cons, foldl_cons, hbyte, Nat.ofDigitChars_cons]
      exact ih _ fun d hd => h d (mem_cons_of_mem _ hd)
  rw [digitsValue, itoa, hdigits _ _ fun c hc => toNat_of_mem_toDigits hc]
  exact Nat.ofDigitChars_toDigits (by omega) (Nat.le_refl 10)

def isDigit (b : UInt8) : Bool := 48 ≤ b && b ≤ 57

/-- `strconv.ParseUint` with base 10 and 64 bits: the value and whether there
is no error. -/
def parseUint (s : GoString) : Nat × Bool :=
  if s = [] ∨ !s.all isDigit then (0, false)
  else if digitsValue s < 2 ^ 64 then (digitsValue s, true)
  else (2 ^ 64 - 1, false)

/-- `strconv.ParseInt` with base 10 and 64 bits. -/
def parseInt (s : GoString) : Option Int :=
  let negative := s.head? = some 45
  let digits := if s.head? = some 45 ∨ s.head? = some 43 then s.tail else s
  match parseUint digits with
  | (n, true) =>
    if negative then (if n ≤ 2 ^ 63 then some (-n) else none)
    else if n < 2 ^ 63 then some n
    else none
  | (_, false) => none

theorem itoa_ne_nil (n : Nat) : itoa n ≠ [] := by
  simp [itoa, Nat.toDigits_ne_nil]

/-- Also within 64 bits. -/
theorem parseUint_itoa (h : n < 2 ^ 64) : parseUint (itoa n) = (n, true) := by
  have hall : (itoa n).all isDigit := by
    rw [all_eq_true]
    intro b hb
    have hdigit := digit_of_mem_itoa hb
    simp only [isDigit, Bool.and_eq_true, decide_eq_true_eq, UInt8.le_iff_toNat_le]
    exact hdigit
  rw [parseUint, if_neg (by simp [itoa_ne_nil, hall]), digitsValue_itoa, if_pos h]

/-- `strings.Cut` at a byte. -/
def cut (s : GoString) (sep : UInt8) : GoString × GoString × Bool :=
  (s.takeWhile (· ≠ sep), (s.dropWhile (· ≠ sep)).drop 1, s.contains sep)

variable {s : GoString}

/-- Cutting at the first separator. -/
theorem cut_append {t : GoString} {sep : UInt8} (h : sep ∉ s) :
    cut (s ++ sep :: t) sep = (s, t, true) := by
  have hall : ∀ b ∈ s, decide (b ≠ sep) = true := by
    intro b hb
    simpa using fun heq : b = sep => h (heq ▸ hb)
  have htake : (s ++ sep :: t).takeWhile (· ≠ sep) = s := by
    rw [takeWhile_append_of_pos hall]
    simp
  have hdrop : (s ++ sep :: t).dropWhile (· ≠ sep) = sep :: t := by
    rw [dropWhile_append_of_pos hall]
    simp
  simp only [cut, htake, hdrop]
  simp

/-- What is cut at a separator that is there. -/
theorem cut_found {a b : GoString} {sep : UInt8} (h : cut s sep = (a, b, true)) :
    s = a ++ sep :: b ∧ sep ∉ a := by
  have hmem : sep ∈ s := contains_iff_mem.mp (congrArg (·.2.2) h)
  obtain ⟨front, back, rfl, hfront⟩ := eq_append_cons_of_mem hmem
  rw [cut_append hfront] at h
  cases h
  exact ⟨rfl, hfront⟩

/-- `strings.Join`. -/
def join (values : List GoString) (sep : GoString) : GoString := List.intercalate sep values

/-- Lower case of an ASCII letter. -/
def lowerByte (b : UInt8) : UInt8 := if 65 ≤ b ∧ b ≤ 90 then b + 32 else b

/-- Upper case of an ASCII letter. -/
def upperByte (b : UInt8) : UInt8 := if 97 ≤ b ∧ b ≤ 122 then b - 32 else b

theorem lowerByte_idem (b : UInt8) : lowerByte (lowerByte b) = lowerByte b := by
  unfold lowerByte
  by_cases h : 65 ≤ b ∧ b ≤ 90
  · rw [if_pos h, if_neg (by grind)]
  · rw [if_neg h, if_neg h]

theorem upperByte_idem (b : UInt8) : upperByte (upperByte b) = upperByte b := by
  unfold upperByte
  by_cases h : 97 ≤ b ∧ b ≤ 122
  · rw [if_pos h, if_neg (by grind)]
  · rw [if_neg h, if_neg h]

/-- Lower case under simple folding: besides the upper case letters there are
the long s and the Kelvin sign. -/
def foldAscii : GoString → GoString
  | 0xC5 :: 0xBF :: rest => 115 :: foldAscii rest
  | 0xE2 :: 0x84 :: 0xAA :: rest => 107 :: foldAscii rest
  | b :: rest => lowerByte b :: foldAscii rest
  | [] => []

/-- `strings.EqualFold` with an ASCII text `t`. -/
def equalFold (s t : GoString) : Bool := foldAscii s == foldAscii t

/-- The code points with the `White_Space` property, in UTF-8. -/
def spaces : List GoString :=
  [[9], [10], [11], [12], [13], [32], [0xC2, 0x85], [0xC2, 0xA0], [0xE1, 0x9A, 0x80]] ++
    (List.range 11).map (fun i => [0xE2, 0x80, UInt8.ofNat (0x80 + i)]) ++
    [[0xE2, 0x80, 0xA8], [0xE2, 0x80, 0xA9], [0xE2, 0x80, 0xAF], [0xE2, 0x81, 0x9F],
      [0xE3, 0x80, 0x80]]

/-- Remove patterns from the front, at most `fuel` of them. -/
def trimFront (patterns : List GoString) : Nat → GoString → GoString
  | 0, s => s
  | fuel + 1, s =>
    match patterns.find? (fun p => p.isPrefixOf s) with
    | some p => trimFront patterns fuel (s.drop p.length)
    | none => s

/-- `strings.TrimSpace`. -/
def trimSpace (s : GoString) : GoString :=
  let front := trimFront spaces s.length s
  (trimFront (spaces.map List.reverse) front.length front.reverse).reverse

/-- A string that neither begins nor ends with white space. -/
def Trimmed (s : GoString) : Prop := ∀ p ∈ spaces, ¬ p <+: s ∧ ¬ p <:+ s

/-- What is removed from the front is made of patterns. -/
theorem exists_trimFront (patterns : List GoString) (fuel : Nat) (s : GoString) :
    ∃ ps : List GoString, (∀ p ∈ ps, p ∈ patterns) ∧
      s = ps.flatten ++ trimFront patterns fuel s := by
  induction fuel generalizing s with
  | zero => exact ⟨[], nofun, rfl⟩
  | succ fuel ih =>
    unfold trimFront
    split
    · rename_i p hp
      have hfront : p <+: s := by simpa using find?_some hp
      obtain ⟨ps, hps, heq⟩ := ih (s.drop p.length)
      refine ⟨p :: ps, forall_mem_cons.mpr ⟨mem_of_find?_eq_some hp, hps⟩, ?_⟩
      rw [flatten_cons, append_assoc, ← heq]
      exact (prefix_iff_eq_append.mp hfront).symm
    · exact ⟨[], nofun, rfl⟩

/-- Nothing to trim. -/
theorem trimFront_of_none {patterns : List GoString} (hs : ∀ p ∈ patterns, ¬ p <+: s)
    (fuel : Nat) : trimFront patterns fuel s = s := by
  have hnone : patterns.find? (fun p => p.isPrefixOf s) = none := by
    simpa [find?_eq_none, isPrefixOf_iff_prefix] using hs
  cases fuel with
  | zero => rfl
  | succ fuel => simp only [trimFront, hnone]

/-- **Trimming takes all patterns off**, if none of them begins another. -/
theorem trimFront_flatten {patterns ps : List GoString} (hne : ∀ p ∈ patterns, p ≠ [])
    (hfree : ∀ p ∈ patterns, ∀ q ∈ patterns, p <+: q → p = q) (hps : ∀ p ∈ ps, p ∈ patterns)
    (hs : ∀ p ∈ patterns, ¬ p <+: s) {fuel : Nat} (hfuel : (ps.flatten ++ s).length ≤ fuel) :
    trimFront patterns fuel (ps.flatten ++ s) = s := by
  induction ps generalizing fuel with
  | nil => exact trimFront_of_none hs fuel
  | cons p ps ih =>
    obtain ⟨hp, hps⟩ := forall_mem_cons.mp hps
    have hpositive := length_pos_iff.mpr (hne p hp)
    rw [flatten_cons, append_assoc] at hfuel ⊢
    have hprefix : p <+: p ++ (ps.flatten ++ s) := prefix_append _ _
    have hfound : patterns.find? (fun q => q.isPrefixOf (p ++ (ps.flatten ++ s))) = some p := by
      have hsome : (patterns.find? fun q => q.isPrefixOf (p ++ (ps.flatten ++ s))).isSome :=
        find?_isSome.mpr ⟨p, hp, isPrefixOf_iff_prefix.mpr hprefix⟩
      obtain ⟨q, hq⟩ := Option.isSome_iff_exists.mp hsome
      have hmem := mem_of_find?_eq_some hq
      have hfront : q <+: p ++ (ps.flatten ++ s) := by simpa using find?_some hq
      obtain h | h := prefix_or_prefix_of_prefix hfront hprefix
      · rw [hq, hfree q hmem p hp h]
      · rw [hq, hfree p hp q hmem h]
    cases fuel with
    | zero => simp only [length_append] at hfuel; omega
    | succ fuel =>
      simp only [trimFront, hfound, drop_left]
      refine ih hps ?_
      rw [length_append] at hfuel
      omega

/-- What is left does not begin with a pattern. -/
theorem trimFront_spec {patterns : List GoString} (hne : ∀ p ∈ patterns, p ≠ []) {fuel : Nat}
    (hfuel : s.length ≤ fuel) : ∀ p ∈ patterns, ¬ p <+: trimFront patterns fuel s := by
  induction fuel generalizing s with
  | zero =>
    intro p hp hpre
    obtain rfl : s = [] := eq_nil_of_length_eq_zero (by omega)
    exact hne p hp (prefix_nil.mp hpre)
  | succ fuel ih =>
    unfold trimFront
    split
    · rename_i q hq
      apply ih
      have hqne := hne q (mem_of_find?_eq_some hq)
      have hpos := length_pos_iff.mpr hqne
      rw [length_drop]
      omega
    · rename_i hnone
      intro p hp hpre
      have := List.find?_eq_none.mp hnone p hp
      exact this (List.isPrefixOf_iff_prefix.mpr hpre)

theorem spaces_ne_nil : ∀ p ∈ spaces, p ≠ [] := by decide

/-- **Trimming leaves no white space at either end.** -/
theorem trimmed_trimSpace (s : GoString) : Trimmed (trimSpace s) := by
  intro p hp
  have hfront := trimFront_spec spaces_ne_nil (Nat.le_refl s.length) p hp
  have hback : ¬ p.reverse <+:
      trimFront (spaces.map List.reverse) (trimFront spaces s.length s).length
        (trimFront spaces s.length s).reverse := by
    apply trimFront_spec
    · intro q hq
      obtain ⟨r, hr, rfl⟩ := mem_map.mp hq
      simpa using spaces_ne_nil r hr
    · simp
    · exact mem_map_of_mem hp
  constructor
  · intro hpre
    refine hfront (hpre.trans ?_)
    obtain ⟨ps, -, heq⟩ := exists_trimFront (spaces.map List.reverse)
      (trimFront spaces s.length s).length (trimFront spaces s.length s).reverse
    rw [trimSpace, ← reverse_suffix, reverse_reverse]
    exact ⟨ps.flatten, heq.symm⟩
  · intro hsuf
    apply hback
    rw [← reverse_suffix, reverse_reverse]
    exact hsuf

/-- What is removed at both ends is white space. -/
theorem exists_trimSpace (s : GoString) : ∃ (ps : List GoString) (back : GoString),
    (∀ p ∈ ps, p ∈ spaces) ∧ (∀ b ∈ back, ∃ p ∈ spaces, b ∈ p) ∧
      s = ps.flatten ++ (trimSpace s ++ back) := by
  obtain ⟨ps, hps, hfront⟩ := exists_trimFront spaces s.length s
  obtain ⟨qs, hqs, hback⟩ := exists_trimFront (spaces.map List.reverse)
    (trimFront spaces s.length s).length (trimFront spaces s.length s).reverse
  refine ⟨ps, qs.flatten.reverse, hps, fun b hb => ?_, ?_⟩
  · obtain ⟨q, hq, hb⟩ := mem_flatten.mp (mem_reverse.mp hb)
    obtain ⟨p, hp, rfl⟩ := mem_map.mp (hqs q hq)
    exact ⟨p, hp, mem_reverse.mp hb⟩
  · have hrest : trimFront spaces s.length s = trimSpace s ++ qs.flatten.reverse := by
      rw [trimSpace, ← reverse_append, ← hback, reverse_reverse]
    rw [← hrest, ← hfront]

/-- Trimming keeps what is in no white space. -/
theorem mem_trimSpace {b : UInt8} (hb : ∀ p ∈ spaces, b ∉ p) (hs : b ∈ s) : b ∈ trimSpace s := by
  obtain ⟨ps, back, hps, hback, heq⟩ := exists_trimSpace s
  rw [heq] at hs
  obtain hs | hs := mem_append.mp hs
  · obtain ⟨p, hp, hbp⟩ := mem_flatten.mp hs
    exact absurd hbp (hb p (hps p hp))
  · refine (mem_append.mp hs).resolve_right fun hs => ?_
    obtain ⟨p, hp, hbp⟩ := hback b hs
    exact hb p hp hbp

/-- No space is the beginning of another. -/
theorem spaces_free : ∀ p ∈ spaces, ∀ q ∈ spaces, p <+: q → p = q := by
  decide

/-- White space in front does not count. -/
theorem trimSpace_append {ps : List GoString} (hps : ∀ p ∈ ps, p ∈ spaces) (s : GoString) :
    trimSpace (ps.flatten ++ s) = trimSpace s := by
  obtain ⟨qs, hqs, heq⟩ := exists_trimFront spaces s.length s
  have hall : ∀ p ∈ ps ++ qs, p ∈ spaces := fun p hp => (mem_append.mp hp).elim (hps p) (hqs p)
  have hfront : trimFront spaces (ps.flatten ++ s).length (ps.flatten ++ s) =
      trimFront spaces s.length s := by
    have hsplit : ps.flatten ++ s = (ps ++ qs).flatten ++ trimFront spaces s.length s := by
      rw [flatten_append, append_assoc, ← heq]
    rw [hsplit]
    exact trimFront_flatten spaces_ne_nil spaces_free hall
      (trimFront_spec spaces_ne_nil (Nat.le_refl _)) (Nat.le_refl _)
  rw [trimSpace, hfront, trimSpace]

/-- Trimmed texts stay. -/
theorem trimSpace_of_trimmed (hs : Trimmed s) : trimSpace s = s := by
  rw [trimSpace, trimFront_of_none fun p hp => (hs p hp).1]
  rw [trimFront_of_none, reverse_reverse]
  intro q hq hprefix
  obtain ⟨p, hp, rfl⟩ := mem_map.mp hq
  obtain ⟨rest, hrest⟩ := hprefix
  exact (hs p hp).2 ⟨rest.reverse, by rw [← reverse_reverse s, ← hrest]; simp⟩

/-- Move `x` left over the larger strings of a sorted prefix, which is given
from its end. -/
def sink (x : GoString) : List GoString → List GoString
  | [] => [x]
  | y :: ys => if x < y then y :: sink x ys else x :: y :: ys

/-- Insertion sort by adjacent swaps. -/
def insertionSort (values : List GoString) : List GoString :=
  (values.foldl (fun sorted x => sink x sorted) []).reverse

/-- Sinking keeps all elements. -/
theorem sink_perm (x : GoString) (ys : List GoString) : (sink x ys).Perm (x :: ys) := by
  induction ys with
  | nil => exact List.Perm.refl _
  | cons y ys ih =>
    unfold sink
    split
    · exact (ih.cons y).trans (List.Perm.swap x y ys)
    · exact List.Perm.refl _

/-- And their order. -/
theorem sink_sorted {x : GoString} {ys : List GoString}
    (h : ys.Pairwise (fun a b => b ≤ a)) : (sink x ys).Pairwise (fun a b => b ≤ a) := by
  induction ys with
  | nil => exact pairwise_singleton _ _
  | cons y ys ih =>
    obtain ⟨hy, hys⟩ := pairwise_cons.mp h
    unfold sink
    split
    · rename_i hlt
      refine pairwise_cons.mpr ⟨fun z hz => ?_, ih hys⟩
      rcases mem_cons.mp ((sink_perm x ys).mem_iff.mp hz) with rfl | hz
      · exact List.le_of_lt hlt
      · exact hy z hz
    · rename_i hge
      have hyx : y ≤ x := List.not_lt.mp hge
      refine pairwise_cons.mpr ⟨fun z hz => ?_, h⟩
      rcases mem_cons.mp hz with rfl | hz
      · exact hyx
      · exact List.le_trans (hy z hz) hyx

/-- Both facts about the loop, for any sorted prefix. -/
theorem foldl_sink (values sorted : List GoString) (h : sorted.Pairwise fun a b => b ≤ a) :
    (values.foldl (fun sorted x => sink x sorted) sorted).Perm (values ++ sorted) ∧
      (values.foldl (fun sorted x => sink x sorted) sorted).Pairwise (fun a b => b ≤ a) := by
  induction values generalizing sorted with
  | nil => exact ⟨List.Perm.refl _, h⟩
  | cons x values ih =>
    obtain ⟨hperm, hsorted⟩ := ih (sink x sorted) (sink_sorted h)
    refine ⟨hperm.trans ?_, hsorted⟩
    exact ((sink_perm x sorted).append_left values).trans perm_middle

/-- Sorting keeps all elements. -/
theorem insertionSort_perm (values : List GoString) : (insertionSort values).Perm values := by
  have h := (foldl_sink values [] List.Pairwise.nil).1
  rw [append_nil] at h
  exact (reverse_perm _).trans h

/-- And orders them. -/
theorem insertionSort_sorted (values : List GoString) :
    (insertionSort values).Pairwise (fun a b => a ≤ b) :=
  pairwise_reverse.mpr (foldl_sink values [] List.Pairwise.nil).2

/-- **Sorting forgets the order.** -/
theorem insertionSort_eq_of_perm {as bs : List GoString} (h : as.Perm bs) :
    insertionSort as = insertionSort bs := by
  apply List.Perm.eq_of_pairwise _ (insertionSort_sorted as) (insertionSort_sorted bs)
  · exact (insertionSort_perm as).trans (h.trans (insertionSort_perm bs).symm)
  · intro a b _ _ hab hba
    exact List.le_antisymm hab hba

end GoStrings
