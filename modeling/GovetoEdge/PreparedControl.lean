import GovetoEdge.CacheDirectives
import GovetoEdge.CacheHandler

/-!
# The Cache-Control of a prepared response

`prepareResponse` writes the lifetimes of the policy into the value, one directive
after the other.  No other directive comes in that way, also where a quoted string of
the value is not closed (`hasDirective_preparedControl`).  A value is left as it is
exactly if it has these directives already, in the form that is written
(`preparedControl_eq_self_iff`).

The second result rests on `not_written_back`: a directive that had to be added makes
the value different for good, whatever the later steps do.
-/

namespace CacheControl

open GoStrings HttpHeaders List

variable {directive replacement value : GoString}

/-- A comma is no part of a letter. -/
theorem mem_foldAscii {s : GoString} (hs : (44 : UInt8) ∈ s) : 44 ∈ foldAscii s := by
  fun_induction foldAscii s with
  | case1 rest ih => simp_all
  | case2 rest ih => simp_all
  | case3 b rest _ _ ih =>
    obtain rfl | hs := mem_cons.mp hs
    · exact mem_cons.mpr (.inl (by decide))
    · exact mem_cons_of_mem _ (ih hs)
  | case4 => cases hs

/-- The name of a directive stays when an open one goes on behind a comma. -/
theorem named_of_append {s rest : GoString} (hname : 44 ∉ foldAscii directive)
    (hfor : named directive (s ++ 44 :: rest)) : named directive s := by
  by_cases hequals : 61 ∈ s
  · obtain ⟨name, argument, rfl, hnone⟩ := eq_append_cons_of_mem hequals
    rw [named, directiveName, append_assoc, cons_append, cut_append hnone] at hfor
    rw [named, directiveName, cut_append hnone]
    exact hfor
  · -- otherwise the comma is in the name
    refine absurd ?_ hname
    rw [← eq_of_beq hfor]
    refine mem_foldAscii (mem_trimSpace (fun p hp hb => (spaces_bytes p hp 44 hb).2.1 rfl) ?_)
    have hcut : (cut (s ++ 44 :: rest) 61).1 = s ++ 44 :: rest.takeWhile (· ≠ 61) := by
      have hall : ∀ b ∈ s, decide (b ≠ 61) = true :=
        fun b hb => decide_eq_true fun heq => hequals (heq ▸ hb)
      rw [cut, takeWhile_append_of_pos hall, takeWhile_cons_of_pos (by decide)]
    rw [hcut]
    simp

/-- The name of a new directive. -/
theorem named_new (hdirective : IsToken directive) (name : GoString) :
    named name (directive ++ 61 :: replacement) = equalFold directive name := by
  have hnone : 61 ∉ directive := fun hb => (hdirective.byte hb).2.2.1 rfl
  rw [named, directiveName, cut_append hnone,
    trimSpace_of_trimmed (trimmed_of_bytes fun b hb => (hdirective.byte hb).2.2.2)]

/-- **No directive comes in** by replacing another. -/
theorem hasDirective_of_replaceDirective (hdirective : IsToken directive)
    (hreplacement : IsToken replacement) {name : GoString} (hne : name ≠ [])
    (hname : 44 ∉ foldAscii name) (hother : equalFold directive name = false)
    (hhas : hasDirective (replaceDirective value directive replacement) name) :
    hasDirective value name := by
  rw [hasDirective_iff hne] at hhas ⊢
  obtain ⟨k, hk, hfor⟩ := hhas
  obtain ⟨-, hlist | ⟨-, front, last, hks, -, -, hlist⟩⟩ :=
    directives_replaceDirective hdirective hreplacement value
  · rw [hlist, mem_replaceLoop hdirective hreplacement (canonical_directives value)] at hk
    obtain rfl | ⟨hk, -⟩ := hk
    · rw [named_new hdirective, hother] at hfor
      cases hfor
    · exact ⟨k, hk, hfor⟩
  · rw [hlist] at hk
    rw [hks]
    obtain hk | hk := mem_append.mp hk
    · exact ⟨k, mem_append_left _ hk, hfor⟩
    · obtain rfl := mem_singleton.mp hk
      exact ⟨last, by simp, named_of_append hname hfor⟩

/-- One of the directives is replaced, in a value that becomes the other. -/
def Writes (names : List GoString) (value result : GoString) : Prop :=
  ∃ directive ∈ names, ∃ replacement, IsToken directive ∧ IsToken replacement ∧
    result = replaceDirective value directive replacement

section Written

open Relation

variable {names : List GoString} {result k : GoString}

/-- In a balanced value the other directives stay. -/
theorem Writes.mem (h : Writes names value result) (hother : ∀ name ∈ names, named name k = false)
    (hshut : Shut (directives value)) (hk : k ∈ directives value) :
    Shut (directives result) ∧ k ∈ directives result := by
  obtain ⟨directive, hmem, replacement, hdirective, hreplacement, rfl⟩ := h
  obtain ⟨-, hlist | ⟨-, front, last, hks, -, hopen, -⟩⟩ :=
    directives_replaceDirective hdirective hreplacement value
  · simp only [Shut, hlist, mem_replaceLoop hdirective hreplacement (canonical_directives value)]
    refine ⟨fun k hk => ?_, .inr ⟨hk, hother _ hmem⟩⟩
    obtain rfl | ⟨hk, -⟩ := hk
    · exact (new_part hdirective hreplacement).1
    · exact hshut k hk
  · rw [hks] at hshut
    exact absurd (hshut last (by simp)) hopen

/-- Other directives stay where they were shut. -/
theorem mem_of_written (h : ReflTransGen (Writes names) value result)
    (hother : ∀ name ∈ names, named name k = false) (hshut : Shut (directives value))
    (hk : k ∈ directives value) : Shut (directives result) ∧ k ∈ directives result := by
  induction h with
  | refl => exact ⟨hshut, hk⟩
  | tail _ hstep ih => exact hstep.mem hother ih.1 ih.2

/-- An open directive was there before, and was not longer. -/
theorem Writes.open (h : Writes names value result) (hk : k ∈ directives result)
    (hopen : ¬ Scan.plain.Closes k) :
    ∃ k' ∈ directives value, ¬ Scan.plain.Closes k' ∧ k'.length ≤ k.length := by
  obtain ⟨directive, -, replacement, hdirective, hreplacement, rfl⟩ := h
  obtain ⟨-, hlist | ⟨-, front, last, hks, hfront, hlast, hlist⟩⟩ :=
    directives_replaceDirective hdirective hreplacement value
  · rw [hlist, mem_replaceLoop hdirective hreplacement (canonical_directives value)] at hk
    obtain rfl | ⟨hk, -⟩ := hk
    · exact absurd (new_part hdirective hreplacement).1 hopen
    · exact ⟨k, hk, hopen, le_refl _⟩
  · rw [hlist] at hk
    obtain hk | hk := mem_append.mp hk
    · exact absurd (hfront k hk) hopen
    · obtain rfl := mem_singleton.mp hk
      exact ⟨last, by simp [hks], hlast, by simp⟩

/-- Open quotes were open before. -/
theorem open_of_written (h : ReflTransGen (Writes names) value result)
    (hk : k ∈ directives result) (hopen : ¬ Scan.plain.Closes k) :
    ∃ k' ∈ directives value, ¬ Scan.plain.Closes k' ∧ k'.length ≤ k.length := by
  induction h using ReflTransGen.head_induction_on with
  | refl => exact ⟨k, hk, hopen, le_refl _⟩
  | head hstep _ ih =>
    obtain ⟨k', hk', hopen', hle⟩ := ih
    obtain ⟨k'', hk'', hopen'', hle'⟩ := hstep.open hk' hopen'
    exact ⟨k'', hk'', hopen'', hle'.trans hle⟩

/-- **Nothing is undone.**  A value that lacks a directive does not come back after it
was written, when only others are written then. -/
theorem hasDirective_of_written_back (hdirective : IsToken directive)
    (hreplacement : IsToken replacement)
    (hother : ∀ name ∈ names, equalFold directive name = false)
    (hback : ReflTransGen (Writes names) (replaceDirective value directive replacement) value) :
    hasDirective value directive := by
  rw [hasDirective_iff hdirective.1]
  by_contra hnone
  have hnamed : ∀ k ∈ directives value, named directive k = false :=
    fun k hk => Bool.eq_false_iff.mpr fun hfor => hnone ⟨k, hk, hfor⟩
  obtain ⟨hcloses, -, hnew⟩ := new_part hdirective hreplacement
  have hcanonical := canonical_directives (replaceDirective value directive replacement)
  obtain ⟨-, hlist | ⟨-, front, last, hks, hfront, hlast, hlist⟩⟩ :=
    directives_replaceDirective hdirective hreplacement value
  · -- behind a closed directive the new one stays
    rw [replaceLoop_of_none (canonical_directives value).trimmed hnamed] at hlist
    rw [hlist] at hcanonical
    have hshut : Shut (directives (replaceDirective value directive replacement)) := by
      rw [hlist]
      exact forall_mem_append.mpr ⟨(cut_concat.mp hcanonical.cut).1,
        forall_mem_singleton.mpr hcloses⟩
    have hstays := mem_of_written hback (fun name hname => (named_new hdirective name).trans
      (hother name hname)) hshut (hlist ▸ mem_append_right _ (mem_singleton_self _))
    exact hnone ⟨_, hstays.2, hnew⟩
  · -- an open directive has become longer
    obtain ⟨k, hk, hopen, hle⟩ := open_of_written hback (by rw [hks]; simp) hlast
    rw [hlist] at hk
    obtain hk | hk := mem_append.mp hk
    · exact hopen (hfront k hk)
    · obtain rfl := mem_singleton.mp hk
      simp at hle

end Written

/-- A directive that is there is replaced in the list. -/
theorem directives_of_has (hdirective : IsToken directive) (hreplacement : IsToken replacement)
    (hhas : hasDirective value directive) :
    directives (replaceDirective value directive replacement) =
      replaceLoop directive replacement false (directives value) := by
  obtain ⟨-, hlist | ⟨hnone, -⟩⟩ := directives_replaceDirective hdirective hreplacement value
  · exact hlist
  · obtain ⟨k, hk, hfor⟩ := (hasDirective_iff hdirective.1).mp hhas
    exact nomatch (hnone k hk).symm.trans hfor

/-- One directive of the name is left. -/
theorem filter_replaceDirective (hdirective : IsToken directive)
    (hreplacement : IsToken replacement) (hhas : hasDirective value directive) :
    (directives (replaceDirective value directive replacement)).filter (named directive) =
      [directive ++ 61 :: replacement] := by
  rw [directives_of_has hdirective hreplacement hhas]
  exact (filter_replaceLoop (new_part hdirective hreplacement).2.2 false _).1

/-- Those of other names stay. -/
theorem filter_replaceDirective_of_ne (hdirective : IsToken directive)
    (hreplacement : IsToken replacement) {name : GoString}
    (hother : equalFold directive name = false) (hhas : hasDirective value directive) :
    (directives (replaceDirective value directive replacement)).filter (named name) =
      (directives value).filter (named name) := by
  have hkeep : ∀ ks : List GoString, ks.filter (named name) =
      (ks.filter (!named directive ·)).filter (named name) := by
    intro ks
    rw [filter_filter]
    refine filter_congr fun k _ => ?_
    -- a directive is not for two names
    cases hfor : named name k with
    | false => simp
    | true =>
      have hnot : named directive k = false := by
        refine Bool.eq_false_iff.mpr fun hboth => ?_
        have hsame : foldAscii directive = foldAscii name :=
          (eq_of_beq hboth).symm.trans (eq_of_beq hfor)
        rw [equalFold, hsame, beq_self_eq_true] at hother
        cases hother
      simp [hnot]
  rw [hkeep, hkeep (directives value), directives_of_has hdirective hreplacement hhas,
    (filter_replaceLoop (new_part hdirective hreplacement).2.2 false _).2,
    others_of_canonical (canonical_directives value)]

/-- A value that was written is made of its directives. -/
theorem eq_join_replaceDirective (hdirective : IsToken directive)
    (hreplacement : IsToken replacement) (value : GoString) :
    replaceDirective value directive replacement =
        join (directives (replaceDirective value directive replacement)) (lit ", ") ∧
      directives (replaceDirective value directive replacement) ≠ [] := by
  obtain ⟨hjoin, hlist | ⟨-, front, last, -, -, -, hlist⟩⟩ :=
    directives_replaceDirective hdirective hreplacement value
  · refine ⟨hjoin, ne_nil_of_mem (a := directive ++ 61 :: replacement) ?_⟩
    rw [hlist, mem_replaceLoop hdirective hreplacement (canonical_directives value)]
    exact .inl rfl
  · exact ⟨hjoin, by simp [hlist]⟩

/-- A directive that such a value lacks is written behind it. -/
theorem append_eq_replaceDirective (hdirective : directive ≠ [])
    (hjoin : value = join (directives value) (lit ", ")) (hne : directives value ≠ [])
    (hnone : hasDirective value directive = false) :
    value ++ lit ", " ++ (directive ++ 61 :: replacement) =
      replaceDirective value directive replacement := by
  have hnamed : ∀ k ∈ directives value, named directive k = false := by
    refine fun k hk => Bool.eq_false_iff.mpr fun hfor => ?_
    rw [(hasDirective_iff hdirective).mpr ⟨k, hk, hfor⟩] at hnone
    cases hnone
  rw [replaceDirective, replaceLoop_directives hdirective,
    replaceLoop_of_none (canonical_directives value).trimmed hnamed, ← join_concat_new hne, ← hjoin]

end CacheControl

namespace CacheHandler

open GoStrings CacheControl HttpHeaders List Relation

/-- Numbers are tokens. -/
theorem isToken_itoaInt (n : Int) : IsToken (itoaInt n) := by
  have hdigits : ∀ m, (itoa m).all isTokenByte := by
    intro m
    refine all_eq_true.mpr fun b hb => ?_
    obtain ⟨hlow, hhigh⟩ := digit_of_mem_itoa hb
    have hdigit : (48 ≤ b && b ≤ 57) = true := by simp [UInt8.le_iff_toNat_le, hlow, hhigh]
    simp [isTokenByte, hdigit]
  unfold itoaInt
  split
  · exact ⟨cons_ne_nil _ _, by rw [all_cons, hdigits]; decide⟩
  · exact ⟨itoa_ne_nil _, hdigits _⟩

/-- The directives that preparing a response may write. -/
def writtenNames : List GoString :=
  [lit "s-maxage", lit "max-age", lit "stale-while-revalidate", lit "stale-if-error"]

theorem isToken_writtenNames : ∀ name ∈ writtenNames, IsToken name := by
  decide

/-- Each of them is another one. -/
theorem equalFold_writtenNames :
    ∀ a ∈ writtenNames, ∀ b ∈ writtenNames, a ≠ b → equalFold a b = false := by
  decide

section Prepare

variable {h : Config} {control : GoString} {status : Nat}

/-- One of the lifetimes is written where it is missing. -/
def writeMissing (ttl : Int) (control directive : GoString) : GoString :=
  if ttl > 0 ∧ !hasDirective control directive then
    replaceDirective control directive (itoaInt ttl)
  else control

/-- A value that was written. -/
def Joined (control : GoString) : Prop :=
  control = join (directives control) (lit ", ") ∧ directives control ≠ []

theorem joined_replaceDirective {directive : GoString} (hmem : directive ∈ writtenNames)
    (control : GoString) (n : Int) :
    Joined (replaceDirective control directive (itoaInt n)) :=
  eq_join_replaceDirective (isToken_writtenNames _ hmem) (isToken_itoaInt n) control

/-- What is written stays joined. -/
theorem Joined.writeMissing {directive : GoString} (hmem : directive ∈ writtenNames)
    (hcontrol : Joined control) (n : Int) : Joined (writeMissing n control directive) := by
  unfold CacheHandler.writeMissing
  split
  · exact joined_replaceDirective hmem control n
  · exact hcontrol

theorem Joined.append {directive lead : GoString} (hmem : directive ∈ writtenNames)
    (hlead : lead = lit ", " ++ (directive ++ [61])) (hcontrol : Joined control) (n : Int) :
    (if n > 0 ∧ !hasDirective control directive then control ++ lead ++ itoaInt n else control) =
      CacheHandler.writeMissing n control directive := by
  unfold CacheHandler.writeMissing
  split
  · next hmissing =>
    rw [← append_eq_replaceDirective (isToken_writtenNames _ hmem).1 hcontrol.1 hcontrol.2
      (by simpa using hmissing.2), hlead]
    simp
  · rfl

/-- **Preparing** replaces one directive after the other. -/
theorem preparedControl_eq (h : Config) (control : GoString) (status : Nat) :
    ∃ first second third,
      first = replaceDirective (if trimSpace control = [] then lit "public" else control)
        (lit "s-maxage") (itoaInt (ttl h status)) ∧
      second = (if h.overrideClientTTL then
          replaceDirective first (lit "max-age") (itoaInt h.clientTTL)
        else if !hasDirective first (lit "max-age") then
          replaceDirective first (lit "max-age") (itoaInt (ttl h status))
        else first) ∧
      third = writeMissing h.staleWhileRevalidateTTL second (lit "stale-while-revalidate") ∧
      preparedControl h control status =
        writeMissing h.staleIfErrorTTL third (lit "stale-if-error") ∧
      Joined (preparedControl h control status) := by
  refine ⟨_, _, _, rfl, rfl, rfl, ?_⟩
  have hfirst : Joined (replaceDirective (if trimSpace control = [] then lit "public" else control)
      (lit "s-maxage") (itoaInt (ttl h status))) :=
    joined_replaceDirective (by decide) _ _
  unfold preparedControl
  dsimp only
  generalize replaceDirective (if trimSpace control = [] then lit "public" else control)
    (lit "s-maxage") (itoaInt (ttl h status)) = first at hfirst
  have hsecond : Joined (if h.overrideClientTTL then
      replaceDirective first (lit "max-age") (itoaInt h.clientTTL)
    else if !hasDirective first (lit "max-age") then
      replaceDirective first (lit "max-age") (itoaInt (ttl h status))
    else first) := by
    split_ifs
    · exact joined_replaceDirective (by decide) _ _
    · exact joined_replaceDirective (by decide) _ _
    · exact hfirst
  have hthird : Joined (writeMissing h.staleWhileRevalidateTTL _
      (lit "stale-while-revalidate")) :=
    hsecond.writeMissing (by decide) _
  rw [hsecond.append (by decide) (by rfl), hthird.append (by decide) (by rfl)]
  exact ⟨rfl, hthird.writeMissing (by decide) _⟩

/-- **Preparing brings in no other directive**, however the value is quoted. -/
theorem hasDirective_preparedControl {name : GoString} (hne : name ≠ [])
    (hname : 44 ∉ foldAscii name)
    (hother : ∀ directive ∈ lit "public" :: writtenNames, equalFold directive name = false)
    (hhas : hasDirective (preparedControl h control status) name) :
    hasDirective control name := by
  obtain ⟨hpublic, hother⟩ := forall_mem_cons.mp hother
  have hback : ∀ {directive value : GoString} {n : Int}, directive ∈ writtenNames →
      hasDirective (replaceDirective value directive (itoaInt n)) name →
      hasDirective value name :=
    fun hmem => hasDirective_of_replaceDirective (isToken_writtenNames _ hmem)
      (isToken_itoaInt _) hne hname (hother _ hmem)
  have hmissing : ∀ {directive value : GoString} {n : Int}, directive ∈ writtenNames →
      hasDirective (writeMissing n value directive) name → hasDirective value name := by
    intro directive value n hmem hhas
    unfold writeMissing at hhas
    split at hhas
    · exact hback hmem hhas
    · exact hhas
  obtain ⟨first, second, third, hfirst, hsecond, hthird, hresult, -⟩ :=
    preparedControl_eq h control status
  rw [hresult] at hhas
  replace hhas := hmissing (by decide) hhas
  rw [hthird] at hhas
  replace hhas := hmissing (by decide) hhas
  have hhas : hasDirective first name := by
    rw [hsecond] at hhas
    split_ifs at hhas
    · exact hback (by decide) hhas
    · exact hback (by decide) hhas
    · exact hhas
  rw [hfirst] at hhas
  replace hhas := hback (by decide) hhas
  split at hhas
  · have hparts : splitCacheControl (lit "public") = [lit "public"] := by rfl
    have hpart : directiveName (lit "public") = lit "public" := by rfl
    rw [hasDirective, hparts, any_cons, any_nil, hpart, hpublic] at hhas
    cases hhas
  · exact hhas

/-- A response that may be cached stays one when it is prepared. -/
theorem uncacheable_preparedControl (hcontrol : uncacheable control = false) :
    uncacheable (preparedControl h control status) = false := by
  have hkept : ∀ name ∈ [lit "private", lit "no-store", lit "no-cache", lit "must-revalidate",
      lit "proxy-revalidate"], hasDirective control name = false →
      hasDirective (preparedControl h control status) name = false := by
    intro name hmem hnone
    have hnames : ∀ name ∈ [lit "private", lit "no-store", lit "no-cache", lit "must-revalidate",
        lit "proxy-revalidate"], name ≠ [] ∧ 44 ∉ foldAscii name ∧
        ∀ directive ∈ lit "public" :: writtenNames, equalFold directive name = false := by
      decide +kernel
    obtain ⟨hne, hname, hother⟩ := hnames name hmem
    refine Bool.eq_false_iff.mpr fun hhas => ?_
    rw [hasDirective_preparedControl hne hname hother hhas] at hnone
    cases hnone
  simp only [uncacheable, Bool.or_eq_false_iff] at hcontrol ⊢
  obtain ⟨⟨⟨⟨h₁, h₂⟩, h₃⟩, h₄⟩, h₅⟩ := hcontrol
  exact ⟨⟨⟨⟨hkept _ (by simp) h₁, hkept _ (by simp) h₂⟩, hkept _ (by simp) h₃⟩,
    hkept _ (by simp) h₄⟩, hkept _ (by simp) h₅⟩

/-- A value with all the lifetimes that preparing writes, in the form in which they are
written. -/
structure Settled (h : Config) (control : GoString) (status : Nat) : Prop where
  spaced : control = join (directives control) (lit ", ")
  shared : (directives control).filter (named (lit "s-maxage")) =
    [lit "s-maxage" ++ 61 :: itoaInt (ttl h status)]
  client : if h.overrideClientTTL then
      (directives control).filter (named (lit "max-age")) =
        [lit "max-age" ++ 61 :: itoaInt h.clientTTL]
    else hasDirective control (lit "max-age")
  revalidate : h.staleWhileRevalidateTTL > 0 →
    hasDirective control (lit "stale-while-revalidate")
  error : h.staleIfErrorTTL > 0 → hasDirective control (lit "stale-if-error")

/-- A blank value has no directives. -/
theorem directives_of_blank (hblank : trimSpace control = []) : directives control = [] := by
  have hcloses := (scan_trimSpace control).1
  rw [hblank] at hcloses
  have hparts : splitCacheControl control = [control] := scanLoop_whole (hcloses.mp rfl).whole
  rw [directives, hparts, map_singleton, hblank]
  rfl

/-- A directive that stands once, with the value that is to be written, stays. -/
theorem replaceDirective_eq_self {directive replacement : GoString} (hdirective : directive ≠ [])
    (hspaced : control = join (directives control) (lit ", "))
    (hnamed : (directives control).filter (named directive) =
      [directive ++ 61 :: replacement]) :
    replaceDirective control directive replacement = control := by
  rw [replaceDirective, replaceLoop_directives hdirective,
    replaceLoop_eq_self (canonical_directives control).trimmed hnamed, ← hspaced]

/-- Nothing is missing. -/
theorem writeMissing_of_has {n : Int} {directive : GoString}
    (hhas : n > 0 → hasDirective control directive) :
    writeMissing n control directive = control := by
  refine if_neg fun hmissing => ?_
  rw [hhas hmissing.1] at hmissing
  cases hmissing.2

/-- A settled field stays as it is. -/
theorem preparedControl_of_settled (hsettled : Settled h control status) :
    preparedControl h control status = control := by
  have hblank : trimSpace control ≠ [] := by
    intro hblank
    have hshared := hsettled.shared
    rw [directives_of_blank hblank] at hshared
    cases hshared
  obtain ⟨first, second, third, hfirst, hsecond, hthird, hresult, -⟩ :=
    preparedControl_eq h control status
  rw [if_neg hblank, replaceDirective_eq_self (by decide) hsettled.spaced hsettled.shared] at hfirst
  subst hfirst
  have hclient := hsettled.client
  have hsame : second = first := by
    rw [hsecond]
    split_ifs at hclient ⊢ with hoverride hmissing
    · exact replaceDirective_eq_self (by decide) hsettled.spaced hclient
    · rw [hclient] at hmissing
      cases hmissing
    · rfl
  rw [hresult, hthird, hsame, writeMissing_of_has hsettled.revalidate,
    writeMissing_of_has hsettled.error]

/-- The names that are written beside one of them. -/
def otherNames (directive : GoString) : List GoString := writtenNames.filter (· ≠ directive)

/-- Replacing a directive writes it. -/
theorem writes_replaceDirective {names : List GoString} {directive : GoString}
    (hmem : directive ∈ writtenNames) (hnames : directive ∈ names) (control : GoString) (n : Int) :
    ReflTransGen (Writes names) control (replaceDirective control directive (itoaInt n)) :=
  .single ⟨directive, hnames, itoaInt n, isToken_writtenNames _ hmem, isToken_itoaInt n, rfl⟩

/-- So does adding one that is missing. -/
theorem writes_writeMissing {names : List GoString} {directive : GoString}
    (hmem : directive ∈ writtenNames) (hnames : directive ∈ names) (control : GoString) (n : Int) :
    ReflTransGen (Writes names) control (writeMissing n control directive) := by
  unfold writeMissing
  split
  · exact writes_replaceDirective hmem hnames control n
  · exact .refl

/-- The directive was there if writing came back. -/
theorem hasDirective_of_back {directive : GoString} {n : Int} (hmem : directive ∈ writtenNames)
    (hback : ReflTransGen (Writes (otherNames directive))
      (replaceDirective control directive (itoaInt n)) control) :
    hasDirective control directive := by
  refine hasDirective_of_written_back (isToken_writtenNames _ hmem) (isToken_itoaInt n) ?_ hback
  intro name hname
  obtain ⟨hname, hne⟩ := mem_filter.mp hname
  exact equalFold_writtenNames _ hmem _ hname (of_decide_eq_true hne).symm

/-- So it was if adding came back. -/
theorem hasDirective_of_missing_back {directive : GoString} {n : Int}
    (hmem : directive ∈ writtenNames) (hpositive : n > 0)
    (hback : ReflTransGen (Writes (otherNames directive))
      (writeMissing n control directive) control) :
    hasDirective control directive := by
  by_contra hnone
  refine hnone (hasDirective_of_back hmem (n := n) ?_)
  rwa [writeMissing, if_pos ⟨hpositive, by simpa using hnone⟩] at hback

/-- A field that stays is settled. -/
theorem settled_of_preparedControl (heq : preparedControl h control status = control) :
    Settled h control status := by
  obtain ⟨first, second, third, hfirst, hsecond, hthird, hresult, hjoined⟩ :=
    preparedControl_eq h control status
  rw [heq] at hresult hjoined
  rw [if_neg fun hblank => hjoined.2 (directives_of_blank hblank)] at hfirst
  -- the value goes through the four steps and is what it was
  have hsteps : ∀ names : List GoString,
      (lit "s-maxage" ∈ names → ReflTransGen (Writes names) control first) ∧
      (lit "max-age" ∈ names → ReflTransGen (Writes names) first second) ∧
      (lit "stale-while-revalidate" ∈ names → ReflTransGen (Writes names) second third) ∧
      (lit "stale-if-error" ∈ names → ReflTransGen (Writes names) third control) := by
    intro names
    refine ⟨fun hmem => ?_, fun hmem => ?_, fun hmem => ?_, fun hmem => ?_⟩
    · rw [hfirst]
      exact writes_replaceDirective (by decide) hmem control _
    · rw [hsecond]
      split_ifs
      · exact writes_replaceDirective (by decide) hmem first _
      · exact writes_replaceDirective (by decide) hmem first _
      · exact .refl
    · rw [hthird]
      exact writes_writeMissing (by decide) hmem second _
    · conv_rhs => rw [hresult]
      exact writes_writeMissing (by decide) hmem third _
  have hshared : hasDirective control (lit "s-maxage") := by
    obtain ⟨-, htwo, hthree, hfour⟩ := hsteps (otherNames (lit "s-maxage"))
    refine hasDirective_of_back (by decide) (n := ttl h status) ?_
    rw [← hfirst]
    exact (htwo (by decide)).trans ((hthree (by decide)).trans (hfour (by decide)))
  have hclient : hasDirective first (lit "max-age") := by
    obtain ⟨hone, -, hthree, hfour⟩ := hsteps (otherNames (lit "max-age"))
    have hback := (hthree (by decide)).trans ((hfour (by decide)).trans (hone (by decide)))
    rw [hsecond] at hback
    split_ifs at hback with hoverride hmissing
    · exact hasDirective_of_back (by decide) hback
    · exact hasDirective_of_back (by decide) hback
    · simpa using hmissing
  have hrevalidate : h.staleWhileRevalidateTTL > 0 →
      hasDirective second (lit "stale-while-revalidate") := by
    obtain ⟨hone, htwo, -, hfour⟩ := hsteps (otherNames (lit "stale-while-revalidate"))
    have hback := (hfour (by decide)).trans ((hone (by decide)).trans (htwo (by decide)))
    rw [hthird] at hback
    exact fun hpositive => hasDirective_of_missing_back (by decide) hpositive hback
  have herror : h.staleIfErrorTTL > 0 → hasDirective third (lit "stale-if-error") := by
    obtain ⟨hone, htwo, hthree, -⟩ := hsteps (otherNames (lit "stale-if-error"))
    have hback := (hone (by decide)).trans ((htwo (by decide)).trans (hthree (by decide)))
    rw [hresult] at hback
    exact fun hpositive => hasDirective_of_missing_back (by decide) hpositive hback
  have hthird : third = second := hthird.trans (writeMissing_of_has hrevalidate)
  have hcontrol : control = second := by
    rw [← hthird, hresult, writeMissing_of_has herror]
  rw [hthird] at herror
  rw [← hcontrol] at hrevalidate herror hsecond
  have hlist : (directives first).filter (named (lit "s-maxage")) =
      [lit "s-maxage" ++ 61 :: itoaInt (ttl h status)] := by
    rw [hfirst]
    exact filter_replaceDirective (by decide) (isToken_itoaInt _) hshared
  split_ifs at hsecond with hoverride hmissing
  · refine ⟨hjoined.1, ?_, ?_, hrevalidate, herror⟩
    · rw [hsecond,
        filter_replaceDirective_of_ne (by decide) (isToken_itoaInt _) (by decide) hclient,
        hlist]
    · rw [if_pos hoverride, hsecond]
      exact filter_replaceDirective (by decide) (isToken_itoaInt _) hclient
  · rw [hclient] at hmissing
    cases hmissing
  · rw [← hsecond] at hlist hclient
    exact ⟨hjoined.1, hlist, by rwa [if_neg hoverride], hrevalidate, herror⟩

/-- **A value that preparing leaves as it is.** -/
theorem preparedControl_eq_self_iff :
    preparedControl h control status = control ↔ Settled h control status :=
  ⟨settled_of_preparedControl, preparedControl_of_settled⟩

end Prepare

end CacheHandler
