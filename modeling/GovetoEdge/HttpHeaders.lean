import GovetoEdge.GoStrings

/-!
# HTTP headers

A header is a map from field names to value lists, given by its entries in
some iteration order; names are distinct.  Lookups go through the canonical
form of a name, which is a fixed point of canonicalization
(`canonicalHeaderKey_idem`).
-/

namespace HttpHeaders

open GoStrings List

/-- A byte that may stand in a field name. -/
def isTokenByte (b : UInt8) : Bool :=
  (97 ≤ b && b ≤ 122) || (65 ≤ b && b ≤ 90) || (48 ≤ b && b ≤ 57) ||
    (lit "!#$%&'*+-.^_`|~").contains b

/-- Upper case for the first letter and after each hyphen, lower case
otherwise. -/
def canonicalize : Bool → GoString → GoString
  | _, [] => []
  | upper, b :: rest =>
    let c := if upper then upperByte b else lowerByte b
    c :: canonicalize (c = 45) rest

/-- `http.CanonicalHeaderKey`; what is no field name stays as it is. -/
def canonicalHeaderKey (s : GoString) : GoString :=
  if s.all isTokenByte then canonicalize true s else s

/-- `http.Header`. -/
structure Header where
  entries : List (GoString × List GoString)
  nodup : (entries.map Prod.fst).Nodup

/-- The empty header. -/
def noHeader : Header := ⟨[], List.nodup_nil⟩

def Header.names (h : Header) : List GoString := h.entries.map Prod.fst

/-- `Header.Values`. -/
def Header.values (h : Header) (name : GoString) : List GoString :=
  (h.entries.lookup (canonicalHeaderKey name)).getD []

/-- `Header.Get`: the first value. -/
def Header.get (h : Header) (name : GoString) : GoString := (h.values name).headD []

/-- Remove the entry of a key. -/
def Header.erase (h : Header) (key : GoString) : Header where
  entries := h.entries.filter (·.1 ≠ key)
  nodup := h.nodup.sublist (filter_sublist.map Prod.fst)

/-- Assign to an entry of the map. -/
def Header.put (h : Header) (key : GoString) (values : List GoString) : Header where
  entries := (key, values) :: (h.erase key).entries
  nodup := by
    refine nodup_cons.mpr ⟨?_, (h.erase key).nodup⟩
    simp [Header.erase]

/-- `Header.Set`. -/
def Header.set (h : Header) (name value : GoString) : Header :=
  h.put (canonicalHeaderKey name) [value]

/-- `Header.Del`. -/
def Header.del (h : Header) (name : GoString) : Header := h.erase (canonicalHeaderKey name)

/-- Nothing is left to canonicalize. -/
theorem canonicalize_idem (s : GoString) (upper : Bool) :
    canonicalize upper (canonicalize upper s) = canonicalize upper s := by
  induction s generalizing upper with
  | nil => rfl
  | cons b rest ih =>
    have hb : (if upper then upperByte (if upper then upperByte b else lowerByte b)
        else lowerByte (if upper then upperByte b else lowerByte b)) =
        if upper then upperByte b else lowerByte b := by
      cases upper
      · exact lowerByte_idem b
      · exact upperByte_idem b
    simp only [canonicalize, hb, ih]

theorem isTokenByte_upperByte {b : UInt8} (h : isTokenByte b) : isTokenByte (upperByte b) := by
  unfold upperByte
  split
  · have : 65 ≤ b - 32 ∧ b - 32 ≤ 90 := by grind
    simp [isTokenByte, this]
  · exact h

theorem isTokenByte_lowerByte {b : UInt8} (h : isTokenByte b) : isTokenByte (lowerByte b) := by
  unfold lowerByte
  split
  · have : 97 ≤ b + 32 ∧ b + 32 ≤ 122 := by grind
    simp [isTokenByte, this]
  · exact h

/-- Canonical names are tokens. -/
theorem all_isTokenByte_canonicalize {s : GoString} (upper : Bool) (h : s.all isTokenByte) :
    (canonicalize upper s).all isTokenByte := by
  induction s generalizing upper with
  | nil => rfl
  | cons b rest ih =>
    rw [all_cons, Bool.and_eq_true] at h
    rw [canonicalize, all_cons, Bool.and_eq_true]
    refine ⟨?_, ih _ h.2⟩
    cases upper
    · exact isTokenByte_lowerByte h.1
    · exact isTokenByte_upperByte h.1

/-- **A canonical name is its own canonical form.** -/
theorem canonicalHeaderKey_idem (s : GoString) :
    canonicalHeaderKey (canonicalHeaderKey s) = canonicalHeaderKey s := by
  unfold canonicalHeaderKey
  by_cases h : s.all isTokenByte
  · rw [if_pos h, if_pos (all_isTokenByte_canonicalize true h), canonicalize_idem]
  · rw [if_neg h, if_neg h]

theorem lookup_filter_ne (entries : List (GoString × List GoString)) (key k : GoString) :
    (entries.filter (·.1 ≠ key)).lookup k = if k = key then none else entries.lookup k := by
  induction entries with
  | nil => simp
  | cons e entries ih =>
    rw [filter_cons]
    by_cases he : e.1 = key
    · rw [if_neg (by simpa using he), ih, lookup_cons]
      by_cases hk : k = key
      · rw [if_pos hk, if_pos hk]
      · rw [if_neg hk, if_neg hk, show (k == e.1) = false by simp [he, hk]]
    · rw [if_pos (by simpa using he), lookup_cons, lookup_cons, ih]
      by_cases hk : k = e.1
      · subst hk
        simp [he]
      · rw [show (k == e.1) = false by simpa using hk]

/-- One name is erased. -/
theorem lookup_erase (h : Header) (key k : GoString) :
    (h.erase key).entries.lookup k = if k = key then none else h.entries.lookup k :=
  lookup_filter_ne h.entries key k

/-- The new value. -/
@[simp]
theorem values_set_self (h : Header) (name value : GoString) :
    (h.set name value).values name = [value] := by
  simp [Header.values, Header.set, Header.put]

/-- No value. -/
@[simp]
theorem values_del_self (h : Header) (name : GoString) : (h.del name).values name = [] := by
  simp [Header.values, Header.del, lookup_erase]

variable {h : Header} {other : GoString}

/-- Other names keep theirs. -/
theorem values_del_of_ne {name : GoString}
    (hne : canonicalHeaderKey other ≠ canonicalHeaderKey name) :
    (h.del name).values other = h.values other := by
  simp [Header.values, Header.del, lookup_erase, hne]

/-- They do when another name is put. -/
theorem values_put_of_ne {key : GoString} {values : List GoString}
    (hne : canonicalHeaderKey other ≠ key) : (h.put key values).values other = h.values other := by
  have hb : (canonicalHeaderKey other == key) = false := by simpa using hne
  simp [Header.values, Header.put, lookup_cons, hb, lookup_erase, hne]

/-- They do when another name is set. -/
theorem values_set_of_ne {name value : GoString}
    (hne : canonicalHeaderKey other ≠ canonicalHeaderKey name) :
    (h.set name value).values other = h.values other :=
  values_put_of_ne hne

end HttpHeaders
