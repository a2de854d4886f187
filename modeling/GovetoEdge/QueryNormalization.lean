import GovetoEdge.UrlEncoding
import GovetoEdge.Utf8

/-!
# The query component of a cache key

`normalizeQuery` of the cache handler: a query string is cut into decoded
pairs, pairs are kept or dropped by their names, and what is left is written
back, in the order of the request or sorted by name.

* `parseQueryPairs_writePairs`: pairs that are written are read back;
* `grouped_eq_iff`: the sorted order forgets how the values of different names
  stood to each other, and nothing else;
* `normalizeQuery_canonical`: so the sorted form is a canonical one.
-/

namespace QueryNormalization

open GoStrings Utf8 UrlEncoding List

/-- A name and a value. -/
structure QueryPair where
  key : GoString
  value : GoString
deriving DecidableEq, Repr

/-- `url.QueryUnescape`; a malformed text stays as it is. -/
def unescapeOrSame (s : GoString) : GoString := (unescape .queryComponent s).getD s

/-- One element of a query string, cut at its first equals sign. -/
def parsePair (element : GoString) : QueryPair where
  key := unescapeOrSame (element.takeWhile (· ≠ 61))
  value := unescapeOrSame ((element.dropWhile (· ≠ 61)).drop 1)

/-- The pairs between ampersands. -/
def parseQueryPairs (raw : GoString) : List QueryPair :=
  ((raw.splitOn 38).filter (· ≠ [])).map parsePair

/-- A name against patterns; a trailing star stands for any rest. -/
def matchAnyParam (name : GoString) (patterns : List GoString) : Bool :=
  patterns.any fun pattern =>
    if pattern.getLast? = some 42 then pattern.dropLast.isPrefixOf name else name = pattern

/-- Pairs the two lists let through; exclusions count only where nothing is
to be included. -/
def keepPair (lowerRune : Nat → Nat) (includes excludes : List GoString) (pair : QueryPair) :
    Bool :=
  let lower := toLower lowerRune pair.key
  if includes.length > 0 then matchAnyParam lower (includes.map (toLower lowerRune))
  else !matchAnyParam lower (excludes.map (toLower lowerRune))

/-- A pair is escaped. -/
def encodePair (pair : QueryPair) : GoString :=
  escape .queryComponent pair.key ++ 61 :: escape .queryComponent pair.value

/-- Pairs are joined. -/
def writePairs (pairs : List QueryPair) : GoString :=
  List.intercalate [38] (pairs.map encodePair)

/-- `url.Values.Encode` of the pairs: names in order, the values of each in
the order of the pairs. -/
def encodeValues (pairs : List QueryPair) : GoString :=
  writePairs ((insertionSort (pairs.map QueryPair.key).dedup).flatMap fun key =>
    pairs.filter (·.key = key))

/-- Parsed, selected, sorted and written. -/
def normalizeQuery (lowerRune : Nat → Nat) (raw : GoString) (sorted : Bool)
    (includes excludes : List GoString) : GoString :=
  if !sorted ∧ includes.length = 0 ∧ excludes.length = 0 then raw
  else
    let pairs := parseQueryPairs raw
    let pairs :=
      if includes.length > 0 ∨ excludes.length > 0 then
        pairs.filter (keepPair lowerRune includes excludes)
      else pairs
    if !sorted then writePairs pairs
    else encodeValues (pairs.insertionSort fun a b => a.key ≤ b.key)

/-- The decoded pairs of a query that the lists let through. -/
def keptPairs (lowerRune : Nat → Nat) (raw : GoString) (includes excludes : List GoString) :
    List QueryPair :=
  (parseQueryPairs raw).filter (keepPair lowerRune includes excludes)

/-- The values of a name, in the order of the pairs. -/
def valuesOf (name : GoString) (pairs : List QueryPair) : List GoString :=
  (pairs.filter (·.key = name)).map QueryPair.value

/-- The pairs in the order in which `encodeValues` writes them. -/
def grouped (pairs : List QueryPair) : List QueryPair :=
  (insertionSort (pairs.map QueryPair.key).dedup).flatMap fun key => pairs.filter (·.key = key)

variable {pairs ps qs : List QueryPair}

/-- Pairs are read back. -/
theorem parsePair_encodePair (pair : QueryPair) : parsePair (encodePair pair) = pair := by
  have hkey : ∀ b ∈ escape .queryComponent pair.key, b ≠ 61 :=
    fun b hb => (not_separator_of_mem_escape hb).2
  unfold parsePair encodePair
  rw [takeWhile_append_of_pos (by simpa using hkey),
    dropWhile_append_of_pos (by simpa using hkey)]
  simp [unescapeOrSame, unescape_escape]

/-- **Pairs that are written are read back.** -/
theorem parseQueryPairs_writePairs (pairs : List QueryPair) :
    parseQueryPairs (writePairs pairs) = pairs := by
  rcases pairs with - | ⟨pair, rest⟩
  · rfl
  have hsep : ∀ l ∈ (pair :: rest).map encodePair, (38 : UInt8) ∉ l := by
    intro l hl hmem
    obtain ⟨p, -, rfl⟩ := mem_map.mp hl
    rcases mem_append.mp hmem with h | h
    · exact (not_separator_of_mem_escape h).1 rfl
    · exact (not_separator_of_mem_escape (mem_of_ne_of_mem (by decide) h)).1 rfl
  have hne : ∀ l ∈ (pair :: rest).map encodePair, l ≠ [] := by
    intro l hl
    obtain ⟨p, -, rfl⟩ := mem_map.mp hl
    simp [encodePair]
  rw [parseQueryPairs, writePairs, splitOn_intercalate 38 hsep (by simp),
    filter_eq_self.mpr (by simpa using hne), map_map]
  exact (map_congr_left fun p _ => parsePair_encodePair p).trans (map_id _)

theorem filter_eq_map_valuesOf (name : GoString) (pairs : List QueryPair) :
    pairs.filter (·.key = name) = (valuesOf name pairs).map (QueryPair.mk name) := by
  rw [valuesOf, map_map]
  refine (map_id _).symm.trans (map_congr_left fun p hp => ?_)
  have hkey : p.key = name := by simpa using (mem_filter.mp hp).2
  simp [← hkey]

/-- Of pairs that are grouped by distinct names, those of one name. -/
theorem filter_flatMap_filter {names : List GoString} (hnodup : names.Nodup) (name : GoString) :
    (names.flatMap fun key => pairs.filter (·.key = key)).filter (·.key = name) =
      if name ∈ names then pairs.filter (·.key = name) else [] := by
  induction names with
  | nil => rfl
  | cons key names ih =>
    have hfirst : (pairs.filter (·.key = key)).filter (·.key = name) =
        if name = key then pairs.filter (·.key = name) else [] := by
      rw [filter_filter]
      split
      · next h => simp [h]
      · next h =>
        refine filter_eq_nil_iff.mpr fun p _ => ?_
        simp only [Bool.and_eq_true, decide_eq_true_eq, not_and]
        exact fun hname hkey => h (hname.symm.trans hkey)
    rw [flatMap_cons, filter_append, hfirst, ih (nodup_cons.mp hnodup).2]
    by_cases hname : name = key
    · rw [if_pos hname, if_neg (hname ▸ (nodup_cons.mp hnodup).1), if_pos (by simp [hname]),
        append_nil]
    · simp [hname]

/-- Grouping keeps the pairs of every name in order. -/
theorem filter_grouped (name : GoString) (pairs : List QueryPair) :
    (grouped pairs).filter (·.key = name) = pairs.filter (·.key = name) := by
  have hperm := insertionSort_perm (pairs.map QueryPair.key).dedup
  rw [grouped, filter_flatMap_filter (hperm.nodup_iff.mpr (nodup_dedup _))]
  split
  · rfl
  · next hnone =>
    refine (filter_eq_nil_iff.mpr fun p hp => ?_).symm
    simp only [decide_eq_true_eq]
    rintro rfl
    exact hnone (hperm.mem_iff.mpr (mem_dedup.mpr (mem_map_of_mem hp)))

/-- **The sorted order knows the values of every name**, and nothing else. -/
theorem grouped_eq_iff :
    grouped ps = grouped qs ↔ ∀ name, ps.filter (·.key = name) = qs.filter (·.key = name) := by
  constructor
  · intro h name
    rw [← filter_grouped, h, filter_grouped]
  · intro h
    have hmem : ∀ name, name ∈ ps.map QueryPair.key ↔ name ∈ qs.map QueryPair.key := by
      intro name
      have hnames : ∀ l : List QueryPair,
          name ∈ l.map QueryPair.key ↔ l.filter (·.key = name) ≠ [] := by
        simp [filter_eq_nil_iff]
      rw [hnames, hnames, h]
    have hnames : insertionSort (ps.map QueryPair.key).dedup =
        insertionSort (qs.map QueryPair.key).dedup := by
      apply insertionSort_eq_of_perm
      rw [perm_ext_iff_of_nodup (nodup_dedup _) (nodup_dedup _)]
      simpa only [mem_dedup] using hmem
    rw [grouped, grouped, hnames]
    exact flatMap_congr fun name _ => h name

/-- The sort by names is stable. -/
theorem filter_insertionSort (name : GoString) (pairs : List QueryPair) :
    (pairs.insertionSort fun a b => a.key ≤ b.key).filter (·.key = name) =
      pairs.filter (·.key = name) := by
  have hordered : (pairs.filter (·.key = name)).Pairwise fun a b => a.key ≤ b.key := by
    refine pairwise_of_forall_mem_list fun a ha b hb => ?_
    have hkeys : a.key = b.key := by
      have := (mem_filter.mp ha).2
      have := (mem_filter.mp hb).2
      simp_all
    exact hkeys ▸ List.le_refl _
  have hsublist := (sublist_insertionSort hordered filter_sublist).filter (·.key = name)
  rw [filter_filter] at hsublist
  simp only [Bool.and_self] at hsublist
  exact (hsublist.eq_of_length ((perm_insertionSort _ _).filter _).length_eq.symm).symm

/-- What the sorted form is. -/
theorem normalizeQuery_sorted (lowerRune : Nat → Nat) (raw : GoString)
    (includes excludes : List GoString) :
    normalizeQuery lowerRune raw true includes excludes =
      writePairs (grouped (keptPairs lowerRune raw includes excludes)) := by
  have hkept : (if includes.length > 0 ∨ excludes.length > 0 then
      (parseQueryPairs raw).filter (keepPair lowerRune includes excludes)
      else parseQueryPairs raw) = keptPairs lowerRune raw includes excludes := by
    split
    · rfl
    · next hlists =>
      simp only [gt_iff_lt, length_pos_iff, not_or, not_not] at hlists
      refine (filter_eq_self.mpr fun p _ => ?_).symm
      simp [keepPair, hlists, matchAnyParam]
  have hunfold : normalizeQuery lowerRune raw true includes excludes =
      writePairs (grouped ((if includes.length > 0 ∨ excludes.length > 0 then
        (parseQueryPairs raw).filter (keepPair lowerRune includes excludes)
        else parseQueryPairs raw).insertionSort fun a b => a.key ≤ b.key)) := by
    simp [normalizeQuery, encodeValues, grouped]
  rw [hunfold, hkept, grouped_eq_iff.mpr fun name => filter_insertionSort name _]

/-- Nothing is left to drop of what is written. -/
theorem keptPairs_writePairs {lowerRune : Nat → Nat} {raw : GoString}
    {includes excludes : List GoString} :
    keptPairs lowerRune (writePairs (grouped (keptPairs lowerRune raw includes excludes))) includes
      excludes = grouped (keptPairs lowerRune raw includes excludes) := by
  rw [keptPairs, parseQueryPairs_writePairs, filter_eq_self]
  intro p hp
  obtain ⟨name, -, hmem⟩ := mem_flatMap.mp hp
  exact (mem_filter.mp (mem_filter.mp hmem).1).2

/-- **Sorted queries are canonical.**  For all lists, normalizing a second time
changes nothing, and two queries have the same normal form exactly if, decoded and
filtered, they give every name the same values in the same order. -/
theorem normalizeQuery_canonical (lowerRune : Nat → Nat) (includes excludes : List GoString) :
    (∀ raw, normalizeQuery lowerRune (normalizeQuery lowerRune raw true includes excludes) true
        includes excludes = normalizeQuery lowerRune raw true includes excludes) ∧
      ∀ raw₁ raw₂, normalizeQuery lowerRune raw₁ true includes excludes =
          normalizeQuery lowerRune raw₂ true includes excludes ↔
        ∀ name, valuesOf name (keptPairs lowerRune raw₁ includes excludes) =
          valuesOf name (keptPairs lowerRune raw₂ includes excludes) := by
  constructor
  · intro raw
    rw [normalizeQuery_sorted, normalizeQuery_sorted, keptPairs_writePairs,
      grouped_eq_iff.mpr fun name => filter_grouped name _]
  · intro raw₁ raw₂
    have hwrite : Function.Injective writePairs :=
      Function.LeftInverse.injective parseQueryPairs_writePairs
    have hmk : ∀ name, Function.Injective (QueryPair.mk name) :=
      fun name _ _ h => (QueryPair.mk.inj h).2
    rw [normalizeQuery_sorted, normalizeQuery_sorted, hwrite.eq_iff, grouped_eq_iff]
    refine forall_congr' fun name => ?_
    rw [filter_eq_map_valuesOf, filter_eq_map_valuesOf,
      (map_injective_iff.mpr (hmk name)).eq_iff]

end QueryNormalization
