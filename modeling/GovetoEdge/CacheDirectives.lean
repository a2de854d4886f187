import GovetoEdge.CacheControl
import GovetoEdge.HttpHeaders

/-!
# Replacing a Cache-Control directive

A part of a value with balanced quotes can be trimmed and joined to others again
without a change to how the whole is cut, so that `replaceDirective` changes the
directive that it is for and no other (`replaceDirective_spec`).
-/

namespace CacheControl

open GoStrings HttpHeaders List

/-- Where a scanner of a value is. -/
inductive Scan
  | plain
  | quoted
  | escaped
deriving DecidableEq

/-- What a byte does to the scan. -/
def Scan.next : Scan → UInt8 → Scan
  | .plain, b => if b = 34 then .quoted else .plain
  | .quoted, b => if b = 92 then .escaped else if b = 34 then .plain else .quoted
  | .escaped, _ => .quoted

/-- **Balanced quoting**: every quoted string is closed. -/
def Balanced (value : GoString) : Prop := value.foldl Scan.next .plain = .plain

/-- A scanner gets to the end of a part, with no comma outside of quotes and all quotes
closed. -/
def Scan.Closes : Scan → GoString → Prop
  | scan, [] => scan = .plain
  | scan, b :: rest => ¬ (scan = .plain ∧ b = 44) ∧ (scan.next b).Closes rest

/-- A scanner finds no comma outside of quotes; the last quoted string may be open. -/
def Scan.Whole : Scan → GoString → Prop
  | _, [] => True
  | scan, b :: rest => ¬ (scan = .plain ∧ b = 44) ∧ (scan.next b).Whole rest

variable {s part rest value : GoString} {scan : Scan} {b : UInt8}

/-- A scan that closes met no comma. -/
theorem Scan.Closes.whole (hs : scan.Closes s) : scan.Whole s := by
  induction s generalizing scan with
  | nil => trivial
  | cons b s ih => exact ⟨hs.1, ih hs.2⟩

/-- The loop over a value, by the places of the scanner. -/
def scanLoop (part : GoString) (scan : Scan) (value : GoString) : List GoString :=
  splitLoop part (scan ≠ .plain) (scan = .escaped) value

/-- The loop ends a part at a comma. -/
theorem scanLoop_cons : scanLoop part scan (b :: rest) =
    if scan = .plain ∧ b = 44 then part.reverse :: scanLoop [] .plain rest
    else scanLoop (b :: part) (scan.next b) rest := by
  cases scan with
  | plain =>
    by_cases hquote : b = 34
    · simp [scanLoop, splitLoop, Scan.next, hquote]
    · by_cases hcomma : b = 44
      · simp [scanLoop, splitLoop, hcomma]
      · simp [scanLoop, splitLoop, Scan.next, hquote, hcomma]
  | quoted =>
    by_cases hescape : b = 92
    · simp [scanLoop, splitLoop, Scan.next, hescape]
    · by_cases hquote : b = 34
      · simp [scanLoop, splitLoop, Scan.next, hquote]
      · simp [scanLoop, splitLoop, Scan.next, hescape, hquote]
  | escaped => simp [scanLoop, splitLoop, Scan.next]

/-- A part ends with the value. -/
theorem scanLoop_whole (hs : scan.Whole s) : scanLoop part scan s = [part.reverse ++ s] := by
  induction s generalizing part scan with
  | nil => simp [scanLoop, splitLoop]
  | cons b s ih =>
    rw [scanLoop_cons, if_neg hs.1, ih hs.2, reverse_cons, append_assoc, singleton_append]

/-- A closed part ends at the next comma. -/
theorem scanLoop_closes (hs : scan.Closes s) :
    scanLoop part scan (s ++ 44 :: rest) = (part.reverse ++ s) :: scanLoop [] .plain rest := by
  induction s generalizing part scan with
  | nil =>
    obtain rfl : scan = .plain := hs
    rw [nil_append, scanLoop_cons, if_pos ⟨rfl, rfl⟩, append_nil]
  | cons b s ih =>
    rw [cons_append, scanLoop_cons, if_neg hs.1, ih hs.2, reverse_cons, append_assoc,
      singleton_append]

/-- Parts as a value is cut into: only the last one may be open. -/
def Cut : List GoString → Prop
  | [] => True
  | k :: ks => (Scan.plain.Whole k ∧ (ks ≠ [] → Scan.plain.Closes k)) ∧ Cut ks

/-- All parts are closed. -/
def Shut (ks : List GoString) : Prop := ∀ k ∈ ks, Scan.plain.Closes k

/-- **The parts of a value**, given that what was read of the first one leads to the
place of the scanner.  They are closed exactly if the value is balanced. -/
theorem cut_scanLoop (hwhole : ∀ s, Scan.plain.Whole (part.reverse ++ s) ↔ scan.Whole s)
    (hcloses : ∀ s, Scan.plain.Closes (part.reverse ++ s) ↔ scan.Closes s) :
    Cut (scanLoop part scan value) ∧
      (Shut (scanLoop part scan value) ↔ value.foldl Scan.next scan = .plain) := by
  induction value generalizing part scan with
  | nil =>
    have hall := hwhole []
    have hend := hcloses []
    rw [append_nil] at hall hend
    refine ⟨⟨⟨hall.mpr trivial, fun h => absurd rfl h⟩, trivial⟩, ?_⟩
    exact (forall_mem_singleton (p := Scan.plain.Closes)).trans hend
  | cons b value ih =>
    rw [scanLoop_cons]
    split
    · next hcomma =>
      obtain ⟨rfl, rfl⟩ := hcomma
      have hend := (hcloses []).mpr rfl
      rw [append_nil] at hend
      obtain ⟨hcut, hshut⟩ := @ih [] .plain (fun _ => Iff.rfl) (fun _ => Iff.rfl)
      refine ⟨⟨⟨hend.whole, fun _ => hend⟩, hcut⟩, ?_⟩
      exact forall_mem_cons.trans ((and_iff_right hend).trans hshut)
    · next hcomma =>
      refine ih (fun s => ?_) fun s => ?_
      · rw [reverse_cons, append_assoc, hwhole]
        exact and_iff_right hcomma
      · rw [reverse_cons, append_assoc, hcloses]
        exact and_iff_right hcomma

/-- Splitting cuts at all commas. -/
theorem cut_splitCacheControl (value : GoString) : Cut (splitCacheControl value) :=
  (@cut_scanLoop [] value .plain (fun _ => Iff.rfl) fun _ => Iff.rfl).1

/-- All parts are shut if the quotes are balanced. -/
theorem shut_splitCacheControl : Shut (splitCacheControl value) ↔ Balanced value :=
  (@cut_scanLoop [] value .plain (fun _ => Iff.rfl) fun _ => Iff.rfl).2

/-- A quoted string is closed by a quote only. -/
theorem next_ne_plain (hscan : scan ≠ .plain) (hb : b ≠ 34) : scan.next b ≠ .plain := by
  cases scan with
  | plain => exact absurd rfl hscan
  | quoted =>
    simp only [Scan.next, hb, if_false]
    split <;> nofun
  | escaped => nofun

/-- An open quote stays open without another. -/
theorem not_closes_of_quoted (hscan : scan ≠ .plain) (hs : ∀ b ∈ s, b ≠ 34) :
    ¬ scan.Closes s := by
  induction s generalizing scan with
  | nil => exact hscan
  | cons b s ih =>
    obtain ⟨hb, hs⟩ := forall_mem_cons.mp hs
    exact fun hcloses => ih (next_ne_plain hscan hb) hs hcloses.2

/-- What is behind a closed part in it is not needed to close it. -/
theorem closes_of_append {back : GoString} (hback : ∀ b ∈ back, b ≠ 34)
    (hs : scan.Closes (s ++ back)) : scan.Closes s := by
  induction s generalizing scan with
  | nil => exact not_not.mp fun hscan => not_closes_of_quoted hscan hback hs
  | cons b s ih => exact ⟨hs.1, ih hs.2⟩

/-- Other bytes behind keep it closed. -/
theorem closes_append {back : GoString} (hback : ∀ b ∈ back, b ≠ 34 ∧ b ≠ 44)
    (hs : scan.Closes s) : scan.Closes (s ++ back) := by
  induction s generalizing scan with
  | nil =>
    obtain rfl : scan = .plain := hs
    induction back with
    | nil => rfl
    | cons b back ih =>
      obtain ⟨⟨hquote, hcomma⟩, hback⟩ := forall_mem_cons.mp hback
      exact ⟨fun h => hcomma h.2, by simpa [Scan.next, hquote] using ih hback⟩
  | cons b s ih => exact ⟨hs.1, ih hs.2⟩

/-- The front of a whole part is whole. -/
theorem whole_of_append {back : GoString} (hs : scan.Whole (s ++ back)) : scan.Whole s := by
  induction s generalizing scan with
  | nil => trivial
  | cons b s ih => exact ⟨hs.1, ih hs.2⟩

/-- An open part goes on with what is behind it. -/
theorem whole_append {back : GoString} (hback : ∀ b ∈ back, b ≠ 34) (hs : scan.Whole s)
    (hopen : ¬ scan.Closes s) : scan.Whole (s ++ back) ∧ ¬ scan.Closes (s ++ back) := by
  induction s generalizing scan with
  | nil =>
    refine ⟨?_, not_closes_of_quoted hopen hback⟩
    induction back generalizing scan with
    | nil => trivial
    | cons b back ih =>
      obtain ⟨hb, hback⟩ := forall_mem_cons.mp hback
      exact ⟨fun h => hopen h.1, ih hback trivial (next_ne_plain hopen hb)⟩
  | cons b s ih =>
    obtain ⟨hwhole, hcloses⟩ := ih hs.2 fun h => hopen ⟨hs.1, h⟩
    exact ⟨⟨hs.1, hwhole⟩, fun h => hcloses h.2⟩

/-- Other bytes in front make no difference. -/
theorem plain_append {front : GoString} (hfront : ∀ b ∈ front, b ≠ 34 ∧ b ≠ 44) :
    (Scan.plain.Closes (front ++ s) ↔ Scan.plain.Closes s) ∧
      (Scan.plain.Whole (front ++ s) ↔ Scan.plain.Whole s) := by
  induction front with
  | nil => exact ⟨.rfl, .rfl⟩
  | cons b front ih =>
    obtain ⟨⟨hquote, hcomma⟩, hfront⟩ := forall_mem_cons.mp hfront
    simp only [cons_append, Scan.Closes, Scan.Whole, Scan.next, hquote, hcomma, if_false,
      and_false, not_false_eq_true, true_and]
    exact ih hfront

/-- White space has none of the bytes that structure a value. -/
theorem spaces_bytes : ∀ p ∈ spaces, ∀ b ∈ p, b ≠ 34 ∧ b ≠ 44 ∧ b ≠ 61 := by
  decide +kernel

/-- **Trimming a part** neither opens nor closes it. -/
theorem scan_trimSpace (s : GoString) :
    (Scan.plain.Closes (trimSpace s) ↔ Scan.plain.Closes s) ∧
      (Scan.plain.Whole s → Scan.plain.Whole (trimSpace s)) := by
  obtain ⟨ps, back, hps, hback, heq⟩ := exists_trimSpace s
  have hbytes : ∀ b ∈ back, b ≠ 34 ∧ b ≠ 44 := by
    intro b hb
    obtain ⟨p, hp, hb⟩ := hback b hb
    exact ⟨(spaces_bytes p hp b hb).1, (spaces_bytes p hp b hb).2.1⟩
  have hfront : ∀ b ∈ ps.flatten, b ≠ 34 ∧ b ≠ 44 := by
    intro b hb
    obtain ⟨p, hp, hb⟩ := mem_flatten.mp hb
    exact ⟨(spaces_bytes p (hps p hp) b hb).1, (spaces_bytes p (hps p hp) b hb).2.1⟩
  constructor
  · conv_rhs => rw [heq, (plain_append hfront).1]
    exact ⟨closes_append hbytes, closes_of_append fun b hb => (hbytes b hb).1⟩
  · intro hs
    rw [heq, (plain_append hfront).2] at hs
    exact whole_of_append hs

/-- **The name of a directive** does not depend on the white space around it. -/
theorem directiveName_trimSpace (s : GoString) : directiveName (trimSpace s) = directiveName s := by
  have hequals : ∀ p ∈ spaces, (61 : UInt8) ∉ p := fun p hp hb => (spaces_bytes p hp 61 hb).2.2 rfl
  obtain ⟨ps, back, hps, -, heq⟩ := exists_trimSpace s
  by_cases hs : 61 ∈ s
  · obtain ⟨name, argument, hname, hnone⟩ := eq_append_cons_of_mem (mem_trimSpace hequals hs)
    have hfront : 61 ∉ ps.flatten ++ name := by
      intro hmem
      obtain ⟨p, hp, hb⟩ := mem_flatten.mp ((mem_append.mp hmem).resolve_right hnone)
      exact hequals p (hps p hp) hb
    rw [hname, append_assoc, cons_append, ← append_assoc] at heq
    rw [directiveName, hname, cut_append hnone, directiveName, heq, cut_append hfront]
    exact (trimSpace_append hps name).symm
  · have hcut : ∀ {t : GoString}, 61 ∉ t → (cut t 61).1 = t := by
      intro t ht
      exact takeWhile_eq_self_iff.mpr fun b hb => by simpa using fun h : b = 61 => ht (h ▸ hb)
    have htrimmed : 61 ∉ trimSpace s := by
      intro hmem
      rw [heq] at hs
      exact hs (mem_append_right _ (mem_append_left _ hmem))
    rw [directiveName, hcut htrimmed, directiveName, hcut hs,
      trimSpace_of_trimmed (trimmed_trimSpace s)]

section Replace

variable {directive replacement : GoString}

/-- Whether a part is for the directive. -/
def named (directive part : GoString) : Bool := equalFold (directiveName part) directive

/-- Names are read without spaces. -/
theorem named_trimSpace : named directive (trimSpace part) = named directive part := by
  rw [named, directiveName_trimSpace, named]

/-- The directives of some parts, without those that are replaced. -/
def others (directive : GoString) (parts : List GoString) : List GoString :=
  ((parts.filter (!named directive ·)).map trimSpace).filter (· ≠ [])

/-- **What is kept**: one part for the directive, and all others. -/
theorem filter_replaceLoop (hnew : named directive (directive ++ 61 :: replacement))
    (replaced : Bool) (parts : List GoString) :
    (replaceLoop directive replacement replaced parts).filter (named directive) =
        (if replaced then [] else [directive ++ 61 :: replacement]) ∧
      (replaceLoop directive replacement replaced parts).filter (!named directive ·) =
        others directive parts := by
  induction parts generalizing replaced with
  | nil => cases replaced <;> simp [replaceLoop, others, hnew]
  | cons part parts ih =>
    rw [replaceLoop, ← named]
    by_cases hpart : named directive part
    · rw [if_pos hpart]
      cases replaced with
      | true => simpa [others, hpart] using ih true
      | false => simpa [others, hpart, hnew] using ih true
    · rw [if_neg hpart]
      by_cases hblank : trimSpace part = []
      · simpa [others, hpart, hblank] using ih replaced
      · simpa [others, hpart, hblank, named_trimSpace] using ih replaced

/-- So the loop may run on trimmed parts. -/
theorem replaceLoop_map_trimSpace (replaced : Bool) (parts : List GoString) :
    replaceLoop directive replacement replaced (parts.map trimSpace) =
      replaceLoop directive replacement replaced parts := by
  induction parts generalizing replaced with
  | nil => rfl
  | cons part parts ih =>
    rw [map_cons, replaceLoop, replaceLoop, ← named, ← named, named_trimSpace,
      trimSpace_of_trimmed (trimmed_trimSpace part), ih, ih]

/-- Parts that the directive was replaced in stay as they are. -/
theorem replaceLoop_eq_self {replaced : Bool} {parts : List GoString}
    (htrimmed : ∀ k ∈ parts, Trimmed k ∧ k ≠ [])
    (hnamed : parts.filter (named directive) =
      if replaced then [] else [directive ++ 61 :: replacement]) :
    replaceLoop directive replacement replaced parts = parts := by
  induction parts generalizing replaced with
  | nil => cases replaced <;> simp_all [replaceLoop]
  | cons k parts ih =>
    obtain ⟨⟨hk, hne⟩, hparts⟩ := forall_mem_cons.mp htrimmed
    rw [replaceLoop, ← named]
    by_cases hfor : named directive k
    · rw [filter_cons_of_pos hfor] at hnamed
      cases replaced with
      | true => cases hnamed
      | false =>
        obtain ⟨hnew, hrest⟩ := cons.inj hnamed
        rw [if_pos hfor, if_neg nofun, @ih true hparts hrest, hnew]
    · rw [filter_cons_of_neg hfor] at hnamed
      rw [if_neg hfor, trimSpace_of_trimmed hk, if_pos hne, ih hparts hnamed]

/-- A token: it is not empty and has no separators. -/
abbrev IsToken (s : GoString) : Prop := s ≠ [] ∧ s.all isTokenByte

/-- The bytes of a token are no white space and do not structure a value. -/
theorem tokenByte_plain (hb : isTokenByte b) :
    b ≠ 34 ∧ b ≠ 44 ∧ b ≠ 61 ∧ ∀ p ∈ spaces, b ∉ p := by
  have hall : ∀ n < 256, isTokenByte (UInt8.ofNat n) → UInt8.ofNat n ≠ 34 ∧ UInt8.ofNat n ≠ 44 ∧
      UInt8.ofNat n ≠ 61 ∧ ∀ p ∈ spaces, UInt8.ofNat n ∉ p := by
    decide +kernel
  have hbyte := hall b.toNat b.toNat_lt
  rw [UInt8.ofNat_toNat] at hbyte
  exact hbyte hb

/-- Bytes of tokens are no delimiters. -/
theorem IsToken.byte (hs : IsToken s) (hb : b ∈ s) :
    b ≠ 34 ∧ b ≠ 44 ∧ b ≠ 61 ∧ ∀ p ∈ spaces, b ∉ p :=
  tokenByte_plain (all_eq_true.mp hs.2 b hb)

/-- A text without spaces is trimmed. -/
theorem trimmed_of_bytes (hs : ∀ b ∈ s, ∀ p ∈ spaces, b ∉ p) : Trimmed s := by
  intro p hp
  obtain ⟨b, hb⟩ := exists_mem_of_ne_nil p (spaces_ne_nil p hp)
  exact ⟨fun hfront => hs b (hfront.subset hb) p hp hb, fun hback => hs b (hback.subset hb) p hp hb⟩

/-- Nor are those of a new directive. -/
theorem new_bytes (hdirective : IsToken directive) (hreplacement : IsToken replacement) :
    ∀ b ∈ directive ++ 61 :: replacement, (b ≠ 34 ∧ b ≠ 44) ∧ ∀ p ∈ spaces, b ∉ p := by
  intro b hb
  obtain hb | hb := mem_append.mp hb
  · obtain ⟨hquote, hcomma, -, hspace⟩ := hdirective.byte hb
    exact ⟨⟨hquote, hcomma⟩, hspace⟩
  · obtain rfl | hb := mem_cons.mp hb
    · decide
    · obtain ⟨hquote, hcomma, -, hspace⟩ := hreplacement.byte hb
      exact ⟨⟨hquote, hcomma⟩, hspace⟩

/-- The new directive is one part, and is for its name. -/
theorem new_part (hdirective : IsToken directive) (hreplacement : IsToken replacement) :
    Scan.plain.Closes (directive ++ 61 :: replacement) ∧
      Trimmed (directive ++ 61 :: replacement) ∧
      named directive (directive ++ 61 :: replacement) := by
  have hbytes := new_bytes hdirective hreplacement
  have hname : 61 ∉ directive := fun hb => (hdirective.byte hb).2.2.1 rfl
  refine ⟨?_, trimmed_of_bytes fun b hb => (hbytes b hb).2, ?_⟩
  · rw [← append_nil (directive ++ 61 :: replacement)]
    exact (plain_append fun b hb => (hbytes b hb).1).1.mpr rfl
  · rw [named, directiveName, cut_append hname,
      trimSpace_of_trimmed (trimmed_of_bytes fun b hb => (hdirective.byte hb).2.2.2)]
    exact beq_self_eq_true _

/-- Directives as they stand in a value that `replaceDirective` has written. -/
structure Canonical (ks : List GoString) : Prop where
  cut : Cut ks
  trimmed : ∀ k ∈ ks, Trimmed k ∧ k ≠ []

/-- The directives of a value: its parts without the white space around them. -/
def directives (value : GoString) : List GoString :=
  ((splitCacheControl value).map trimSpace).filter (· ≠ [])

/-- The directives of a field are canonical. -/
theorem canonical_directives (value : GoString) : Canonical (directives value) := by
  have hcut := cut_splitCacheControl value
  refine ⟨?_, fun k hk => ?_⟩
  · rw [directives]
    generalize splitCacheControl value = parts at hcut
    induction parts with
    | nil => trivial
    | cons part parts ih =>
      obtain ⟨⟨hwhole, hcloses⟩, hcut⟩ := hcut
      rw [map_cons, filter_cons]
      split
      · refine ⟨⟨(scan_trimSpace part).2 hwhole, fun hne => ?_⟩, ih hcut⟩
        exact (scan_trimSpace part).1.mpr (hcloses fun hnil => hne (by rw [hnil]; rfl))
      · exact ih hcut
  · obtain ⟨hk, hne⟩ := mem_filter.mp hk
    obtain ⟨part, -, rfl⟩ := mem_map.mp hk
    exact ⟨trimmed_trimSpace part, of_decide_eq_true hne⟩

/-- Joined parts are cut as they were. -/
theorem splitCacheControl_join {k : GoString} {ks : List GoString} (hks : Cut (k :: ks)) :
    splitCacheControl (join (k :: ks) (lit ", ")) = k :: ks.map (32 :: ·) := by
  induction ks generalizing k with
  | nil =>
    rw [join, intercalate_singleton]
    exact scanLoop_whole hks.1.1
  | cons k' ks ih =>
    obtain ⟨⟨-, hk⟩, ⟨⟨hwhole, hcloses⟩, hks⟩⟩ := hks
    have hjoin : join (k :: k' :: ks) (lit ", ") =
        k ++ 44 :: join ((32 :: k') :: ks) (lit ", ") := by
      cases ks <;> simp [join, lit, intercalate]
    rw [hjoin]
    refine (scanLoop_closes (hk (cons_ne_nil k' ks))).trans (congrArg (k :: ·) ?_)
    exact ih ⟨⟨⟨by decide, hwhole⟩, fun hne => ⟨by decide, hcloses hne⟩⟩, hks⟩

/-- Canonical directives are read back. -/
theorem map_trimSpace_join {k : GoString} {ks : List GoString} (hks : Canonical (k :: ks)) :
    (splitCacheControl (join (k :: ks) (lit ", "))).map trimSpace = k :: ks := by
  obtain ⟨hk, htrimmed⟩ := forall_mem_cons.mp hks.trimmed
  have hblank : ∀ k ∈ ks, trimSpace (32 :: k) = k := by
    intro k hk
    have hspace : ∀ p ∈ [[(32 : UInt8)]], p ∈ spaces := by decide
    exact (trimSpace_append hspace k).trans (trimSpace_of_trimmed (htrimmed k hk).1)
  rw [splitCacheControl_join hks.cut, map_cons, trimSpace_of_trimmed hk.1, map_map]
  exact congrArg (k :: ·) ((map_congr_left hblank).trans (map_id ks))

/-- **A canonical list is the directives of its value.** -/
theorem directives_join {ks : List GoString} (hks : Canonical ks) :
    directives (join ks (lit ", ")) = ks := by
  cases ks with
  | nil => rfl
  | cons k ks =>
    rw [directives, map_trimSpace_join hks]
    exact filter_eq_self.mpr fun k hk => decide_eq_true (hks.trimmed k hk).2

/-- Replacing keeps a list canonical, unless the new directive comes behind an open
one. -/
theorem canonical_replaceLoop (hdirective : IsToken directive)
    (hreplacement : IsToken replacement) {replaced : Bool} {ks : List GoString}
    (hks : Canonical ks)
    (hlast : replaced = true ∨ (∃ k ∈ ks, named directive k) ∨ Shut ks) :
    Canonical (replaceLoop directive replacement replaced ks) := by
  obtain ⟨hcloses, htrimmed, -⟩ := new_part hdirective hreplacement
  have hne : directive ++ 61 :: replacement ≠ [] := by simp
  induction ks generalizing replaced with
  | nil =>
    cases replaced with
    | true => exact ⟨trivial, nofun⟩
    | false =>
      exact ⟨⟨⟨hcloses.whole, fun _ => hcloses⟩, trivial⟩,
        forall_mem_singleton.mpr ⟨htrimmed, hne⟩⟩
  | cons k ks ih =>
    obtain ⟨⟨⟨hwhole, hshut⟩, hcut⟩, hall⟩ := hks
    obtain ⟨hk, hall⟩ := forall_mem_cons.mp hall
    rw [replaceLoop, ← named]
    by_cases hfor : named directive k
    · rw [if_pos hfor]
      obtain ⟨hcut', hall'⟩ := @ih true ⟨hcut, hall⟩ (.inl rfl)
      cases replaced with
      | true => exact ⟨hcut', hall'⟩
      | false =>
        exact ⟨⟨⟨hcloses.whole, fun _ => hcloses⟩, hcut'⟩,
          forall_mem_cons.mpr ⟨⟨htrimmed, hne⟩, hall'⟩⟩
    · rw [if_neg hfor, trimSpace_of_trimmed hk.1, if_pos hk.2]
      have hrest : replaced = true ∨ (∃ k ∈ ks, named directive k) ∨ Shut ks := by
        refine hlast.imp_right (Or.imp ?_ fun h => (forall_mem_cons.mp h).2)
        rintro ⟨k', hk', hfor'⟩
        obtain rfl | hk' := mem_cons.mp hk'
        · exact absurd hfor' hfor
        · exact ⟨k', hk', hfor'⟩
      obtain ⟨hcut', hall'⟩ := ih ⟨hcut, hall⟩ hrest
      refine ⟨⟨⟨hwhole, fun hmore => ?_⟩, hcut'⟩, forall_mem_cons.mpr ⟨hk, hall'⟩⟩
      -- with nothing behind it, the part is followed by the new one only if it is closed
      by_cases hks : ks = []
      · subst hks
        rcases hrest with rfl | ⟨k', hk', -⟩ | -
        · exact absurd rfl hmore
        · cases hk'
        · rcases hlast with rfl | ⟨k', hk', hfor'⟩ | hshut
          · exact absurd rfl hmore
          · exact absurd (mem_singleton.mp hk' ▸ hfor') hfor
          · exact hshut k mem_cons_self
      · exact hshut hks

/-- A part without a name is for no directive. -/
theorem not_named_nil (hdirective : directive ≠ []) : named directive [] = false := by
  have hfold : foldAscii directive ≠ [] := by
    unfold foldAscii
    split <;> simp_all
  exact beq_eq_false_iff_ne.mpr (Ne.symm hfold)

/-- Blank parts do not count. -/
theorem replaceLoop_directives (hdirective : directive ≠ []) (replaced : Bool) :
    replaceLoop directive replacement replaced (splitCacheControl value) =
      replaceLoop directive replacement replaced (directives value) := by
  rw [← replaceLoop_map_trimSpace, directives]
  generalize (splitCacheControl value).map trimSpace = ks
  induction ks generalizing replaced with
  | nil => rfl
  | cons k ks ih =>
    by_cases hk : k = []
    · subst hk
      rw [filter_cons_of_neg (by simp), replaceLoop, ← named,
        if_neg (by simp [not_named_nil hdirective]), ih]
      rfl
    · rw [filter_cons_of_pos (by simpa using hk), replaceLoop, replaceLoop, ih, ih]

/-- The directive is among those of the field. -/
theorem hasDirective_iff (hdirective : directive ≠ []) :
    hasDirective value directive ↔ ∃ k ∈ directives value, named directive k := by
  rw [hasDirective, any_eq_true]
  constructor
  · rintro ⟨part, hpart, hfor⟩
    have hfor : named directive (trimSpace part) := named_trimSpace.trans hfor
    refine ⟨trimSpace part, mem_filter.mpr ⟨mem_map_of_mem hpart, ?_⟩, hfor⟩
    refine decide_eq_true fun hnil => ?_
    rw [hnil, not_named_nil hdirective] at hfor
    cases hfor
  · rintro ⟨k, hk, hfor⟩
    obtain ⟨part, hpart, rfl⟩ := mem_map.mp (mem_filter.mp hk).1
    exact ⟨part, hpart, named_trimSpace.symm.trans hfor⟩

/-- The quotes of a field are balanced if those of its parts are. -/
theorem shut_directives : Shut (directives value) ↔ Balanced value := by
  rw [← shut_splitCacheControl]
  constructor
  · intro hshut part hpart
    rw [← (scan_trimSpace part).1]
    by_cases hblank : trimSpace part = []
    · rw [hblank]
      rfl
    · exact hshut _ (mem_filter.mpr ⟨mem_map_of_mem hpart, decide_eq_true hblank⟩)
  · intro hshut k hk
    obtain ⟨part, hpart, rfl⟩ := mem_map.mp (mem_filter.mp hk).1
    exact (scan_trimSpace part).1.mpr (hshut part hpart)

/-- **`replaceDirective`** on a value with balanced quotes: the directive is there once,
with the new value; the others are there as they were, in their order; and doing it again
changes nothing. -/
theorem replaceDirective_spec (hvalue : Balanced value) (hdirective : IsToken directive)
    (hreplacement : IsToken replacement) :
    let result := replaceDirective value directive replacement
    let parts := splitCacheControl result
    hasDirective result directive ∧
      (parts.filter (named directive)).map trimSpace = [directive ++ 61 :: replacement] ∧
      (parts.filter (!named directive ·)).map trimSpace =
        others directive (splitCacheControl value) ∧
      replaceDirective result directive replacement = result := by
  intro result parts
  obtain ⟨-, -, hnew⟩ := new_part hdirective hreplacement
  obtain ⟨hnamed, hothers⟩ := filter_replaceLoop hnew false (splitCacheControl value)
  have hcanonical :
      Canonical (replaceLoop directive replacement false (splitCacheControl value)) := by
    rw [replaceLoop_directives hdirective.1]
    exact canonical_replaceLoop hdirective hreplacement (canonical_directives value)
      (.inr (.inr (shut_directives.mpr hvalue)))
  have hparts : parts.map trimSpace =
      replaceLoop directive replacement false (splitCacheControl value) := by
    show (splitCacheControl (replaceDirective value directive replacement)).map trimSpace = _
    rw [replaceDirective]
    cases hloop : replaceLoop directive replacement false (splitCacheControl value) with
    | nil => simp [hloop] at hnamed
    | cons k ks => exact map_trimSpace_join (hloop ▸ hcanonical)
  have hfilter : ∀ keep : Bool → Bool, (parts.filter (keep <| named directive ·)).map trimSpace =
      (parts.map trimSpace).filter (keep <| named directive ·) := by
    intro keep
    rw [filter_map]
    simp only [Function.comp_def, named_trimSpace]
  have honce : (parts.filter (named directive)).map trimSpace =
      [directive ++ 61 :: replacement] := by
    refine (hfilter id).trans ?_
    rw [hparts]
    exact hnamed
  refine ⟨?_, honce, ?_, ?_⟩
  · obtain ⟨part, hpart, -⟩ := mem_map.mp (honce ▸ mem_singleton_self _)
    obtain ⟨hmem, hfor⟩ := mem_filter.mp hpart
    exact any_eq_true.mpr ⟨part, hmem, hfor⟩
  · rw [← hothers, ← hparts]
    exact hfilter not
  · rw [replaceDirective, ← replaceLoop_map_trimSpace, hparts,
      replaceLoop_eq_self hcanonical.trimmed hnamed]
    rfl

/-- A quoted argument with a comma, an equals sign and an escaped quote. -/
theorem replaceDirective_quoted :
    hasDirective (replaceDirective (lit "private=\"a,b=\\\"\", , MAX-AGE=1 ,x,max-age=2")
      (lit "max-age") (lit "60")) (lit "max-age") :=
  (replaceDirective_spec (by rfl) (by decide) (by decide)).1

/-- The other directives stay in order. -/
theorem others_of_canonical {ks : List GoString} (hks : Canonical ks) :
    others directive ks = ks.filter (!named directive ·) := by
  have htrimmed : ∀ k ∈ ks.filter (!named directive ·), Trimmed k ∧ k ≠ [] :=
    fun k hk => hks.trimmed k (mem_filter.mp hk).1
  rw [others, map_congr_left fun k hk => trimSpace_of_trimmed (htrimmed k hk).1, map_id',
    filter_eq_self.mpr fun k hk => decide_eq_true (htrimmed k hk).2]

/-- Which directives a list has after replacing. -/
theorem mem_replaceLoop (hdirective : IsToken directive) (hreplacement : IsToken replacement)
    {ks : List GoString} (hks : Canonical ks) {k : GoString} :
    k ∈ replaceLoop directive replacement false ks ↔
      k = directive ++ 61 :: replacement ∨ k ∈ ks ∧ named directive k = false := by
  obtain ⟨-, -, hnew⟩ := new_part hdirective hreplacement
  obtain ⟨hnamed, hothers⟩ := filter_replaceLoop hnew false ks
  by_cases hfor : named directive k
  · have hmem : k ∈ replaceLoop directive replacement false ks ↔
        k ∈ (replaceLoop directive replacement false ks).filter (named directive) := by
      simp [hfor]
    rw [hmem, hnamed]
    simp [hfor]
  · have hmem : k ∈ replaceLoop directive replacement false ks ↔
        k ∈ (replaceLoop directive replacement false ks).filter (!named directive ·) := by
      simp [hfor]
    have hne : k ≠ directive ++ 61 :: replacement := fun heq => hfor (heq ▸ hnew)
    rw [hmem, hothers, others_of_canonical hks]
    simp [hfor, hne]

/-- A directive that is not there comes behind the others. -/
theorem replaceLoop_of_none {ks : List GoString} (hks : ∀ k ∈ ks, Trimmed k ∧ k ≠ [])
    (hnone : ∀ k ∈ ks, named directive k = false) :
    replaceLoop directive replacement false ks = ks ++ [directive ++ 61 :: replacement] := by
  induction ks with
  | nil => rfl
  | cons k ks ih =>
    obtain ⟨⟨hk, hne⟩, hks⟩ := forall_mem_cons.mp hks
    obtain ⟨hfor, hnone⟩ := forall_mem_cons.mp hnone
    rw [replaceLoop, ← named, hfor, if_neg nofun, trimSpace_of_trimmed hk, if_pos hne,
      ih hks hnone, cons_append]

/-- Only the last part may be open. -/
theorem cut_concat {front : List GoString} {last : GoString} :
    Cut (front ++ [last]) ↔ Shut front ∧ Scan.plain.Whole last := by
  induction front with
  | nil => simp [Cut, Shut]
  | cons k front ih =>
    have hshut : Shut (k :: front) ↔ Scan.plain.Closes k ∧ Shut front := forall_mem_cons
    have hk : Scan.plain.Whole k ∧ (front ++ [last] ≠ [] → Scan.plain.Closes k) ↔
        Scan.plain.Closes k :=
      ⟨fun h => h.2 (by simp), fun h => ⟨h.whole, fun _ => h⟩⟩
    rw [cons_append, Cut, hk, ih, hshut, and_assoc]

/-- A text behind the last part. -/
theorem join_concat (front : List GoString) (last back : GoString) :
    join (front ++ [last]) (lit ", ") ++ back = join (front ++ [last ++ back]) (lit ", ") := by
  induction front with
  | nil => simp [join, intercalate]
  | cons k front ih =>
    cases front with
    | nil => simp [join, intercalate]
    | cons k' front => simpa [join, intercalate] using ih

/-- A part behind the others. -/
theorem join_concat_new {ks : List GoString} (hne : ks ≠ []) (new : GoString) :
    join ks (lit ", ") ++ lit ", " ++ new = join (ks ++ [new]) (lit ", ") := by
  induction ks with
  | nil => exact absurd rfl hne
  | cons k ks ih =>
    cases ks with
    | nil => simp [join, intercalate]
    | cons k' ks => simpa [join, intercalate] using ih (cons_ne_nil k' ks)

/-- The new directive has become a part of the open one at the end. -/
def Extended (new : GoString) (ks ks' : List GoString) : Prop :=
  ∃ front last, ks = front ++ [last] ∧ Shut front ∧ ¬ Scan.plain.Closes last ∧
    ks' = front ++ [last ++ (lit ", " ++ new)]

/-- A new directive keeps the end trimmed. -/
theorem trimmed_append (hs : Trimmed s) (hdirective : IsToken directive)
    (hreplacement : IsToken replacement) :
    Trimmed (s ++ (lit ", " ++ (directive ++ 61 :: replacement))) := by
  intro p hp
  constructor
  · intro hprefix
    obtain hshort | ⟨r, rfl⟩ := prefix_or_prefix_of_prefix hprefix (prefix_append s _)
    · exact (hs p hp).1 hshort
    · -- a longer one would have the comma
      have hr : r <+: lit ", " ++ (directive ++ 61 :: replacement) :=
        (prefix_append_right_inj s).mp hprefix
      cases r with
      | nil => exact (hs _ hp).1 (by simp)
      | cons b r =>
        obtain ⟨rest, hrest⟩ := hr
        have hb : b = 44 := (cons.inj hrest).1
        exact (spaces_bytes _ hp b (by simp)).2.1 hb
  · intro hsuffix
    have hbytes := new_bytes hdirective hreplacement
    rw [← append_assoc] at hsuffix
    obtain ⟨b, hb⟩ := exists_mem_of_ne_nil p (spaces_ne_nil p hp)
    obtain hshort | hlong := suffix_or_suffix_of_suffix hsuffix (suffix_append (s ++ lit ", ") _)
    · exact (hbytes b (hshort.subset hb)).2 p hp hb
    · exact (hbytes 61 (by simp)).2 p hp (hlong.subset (by simp))

/-- **What replacing makes of a value**: the directives are replaced in their list, but
if there is none to replace and the last one is open, then this one goes on. -/
theorem directives_replaceDirective (hdirective : IsToken directive)
    (hreplacement : IsToken replacement) (value : GoString) :
    replaceDirective value directive replacement =
        join (directives (replaceDirective value directive replacement)) (lit ", ") ∧
      (directives (replaceDirective value directive replacement) =
          replaceLoop directive replacement false (directives value) ∨
        (∀ k ∈ directives value, named directive k = false) ∧
          Extended (directive ++ 61 :: replacement) (directives value)
            (directives (replaceDirective value directive replacement))) := by
  have hcanonical := canonical_directives value
  rw [replaceDirective, replaceLoop_directives hdirective.1]
  generalize directives value = ks at hcanonical
  by_cases hlast : (∃ k ∈ ks, named directive k) ∨ Shut ks
  · rw [directives_join (canonical_replaceLoop hdirective hreplacement hcanonical (.inr hlast))]
    exact ⟨rfl, .inl rfl⟩
  · obtain ⟨hnone, hopen⟩ := not_or.mp hlast
    simp only [not_exists, not_and, Bool.not_eq_true] at hnone
    obtain ⟨front, last, rfl⟩ : ∃ front last, ks = front ++ [last] := by
      rcases eq_nil_or_concat ks with rfl | ⟨front, last, hks⟩
      · exact absurd (fun k hk => nomatch hk) hopen
      · exact ⟨front, last, hks.trans concat_eq_append⟩
    obtain ⟨hfront, hwhole⟩ := cut_concat.mp hcanonical.cut
    have hcloses : ¬ Scan.plain.Closes last := by
      intro hcloses
      exact hopen (forall_mem_append.mpr ⟨hfront, forall_mem_singleton.mpr hcloses⟩)
    have hquote : ∀ b ∈ lit ", " ++ (directive ++ 61 :: replacement), b ≠ 34 := by
      intro b hb
      obtain hb | hb := mem_append.mp hb
      · have hcomma : (lit ", ").all (· ≠ 34) = true := by rfl
        exact of_decide_eq_true (all_eq_true.mp hcomma b hb)
      · exact (new_bytes hdirective hreplacement b hb).1.1
    have hextended :
        Canonical (front ++ [last ++ (lit ", " ++ (directive ++ 61 :: replacement))]) := by
      obtain ⟨hall, hone⟩ := forall_mem_append.mp hcanonical.trimmed
      obtain ⟨htrimmed, -⟩ := forall_mem_singleton.mp hone
      exact ⟨cut_concat.mpr ⟨hfront, (whole_append hquote hwhole hcloses).1⟩,
        forall_mem_append.mpr ⟨hall, forall_mem_singleton.mpr
          ⟨trimmed_append htrimmed hdirective hreplacement, by simp⟩⟩⟩
    rw [replaceLoop_of_none hcanonical.trimmed hnone, ← join_concat_new (by simp), append_assoc,
      join_concat, directives_join hextended]
    exact ⟨rfl, .inr ⟨hnone, front, last, rfl, hfront, hcloses, rfl⟩⟩

end Replace

end CacheControl
