import GovetoEdge.HttpConditions

/-!
# Preconditions by the standard

`prescribed` is the order of RFC 9110, section 13.2.2, over conditions that have
been read: a list of entity tags is compared tag by tag, with the strong comparison
for `If-Match` and the weak one for `If-None-Match`.  `Lists` says which texts write
a list of tags.

* `matchETags_gives`: the scanner finds a match exactly when a listed tag matches;
* `status_prescribed`: `Status` returns what is prescribed.
-/

namespace Preconditions

open GoStrings HttpHeaders CacheKeys CachePolicy HttpConditions List

/-- An entity tag, by what stands between its quotes. -/
structure EntityTag where
  weak : Bool
  value : GoString
  unquoted : 34 ∉ value

/-- The value in quotes. -/
def EntityTag.quoted (t : EntityTag) : GoString := 34 :: t.value ++ [34]

/-- With its mark of weakness. -/
def EntityTag.text (t : EntityTag) : GoString := if t.weak then lit "W/" ++ t.quoted else t.quoted

/-- The strong or the weak comparison. -/
def EntityTag.Matches (weak : Bool) (t u : EntityTag) : Prop :=
  t.value = u.value ∧ (weak ∨ (!t.weak ∧ !u.weak))

/-- White space and commas. -/
def isSeparator (b : UInt8) : Bool := b = 32 ∨ b = 9 ∨ b = 44

/-- A text lists some tags. -/
inductive Lists : List EntityTag → GoString → Prop
  | nil {s : GoString} : (∀ b ∈ s, isSeparator b) → Lists [] s
  | cons {s rest : GoString} {t : EntityTag} {ts : List EntityTag} :
      (∀ b ∈ s, isSeparator b) → Lists ts rest → Lists (t :: ts) (s ++ (t.text ++ rest))

/-- The value of `If-Match` or `If-None-Match`. -/
inductive Condition
  | any
  | tags (ts : List EntityTag)

/-- A text gives a condition; there is none without the header field. -/
def Gives (text : GoString) : Option Condition → Prop
  | none => text = []
  | some .any => trimSpace text = lit "*"
  | some (.tags ts) => ts ≠ [] ∧ Lists ts text

/-- The condition matches the tag of a stored response, if it has one. -/
def Condition.Matches (weak : Bool) (etag : GoString) : Condition → Prop
  | .any => True
  | .tags ts => ∃ t ∈ ts, ∃ u : EntityTag, etag = u.text ∧ t.Matches weak u

variable {t : EntityTag} {current : GoString} {weak : Bool}

/-- The mark is read back. -/
theorem isWeak_text (rest : GoString) : isWeak (t.text ++ rest) = t.weak := by
  unfold EntityTag.text
  cases t.weak <;> rfl

/-- It is stripped. -/
theorem strip_text (rest : GoString) : strip (t.text ++ rest) = t.quoted ++ rest := by
  rw [strip, isWeak_text]
  unfold EntityTag.text
  cases t.weak <;> rfl

theorem quote_mem_text (t : EntityTag) : 34 ∈ t.text := by
  unfold EntityTag.text
  cases t.weak <;> simp [EntityTag.quoted]

/-- **One tag of the list** against the tag of the response. -/
theorem match_iff (t : EntityTag) (current : GoString) (weak : Bool) :
    (weak ∧ strip t.text = strip current) ∨ (!weak ∧ !isWeak t.text ∧ t.text = current) ↔
      ∃ u : EntityTag, current = u.text ∧ t.Matches weak u := by
  have hweak : ∀ u : EntityTag, isWeak u.text = u.weak := fun u => by
    simpa using isWeak_text (t := u) []
  have hstrip : ∀ u : EntityTag, strip u.text = u.quoted := fun u => by
    simpa using strip_text (t := u) []
  rw [hweak, hstrip]
  constructor
  · intro h
    obtain ⟨hcompare, hsame⟩ | ⟨-, hstrong, rfl⟩ := h
    · by_cases hcurrent : isWeak current
      · obtain ⟨rest, rfl⟩ := isPrefixOf_iff_prefix.mp hcurrent
        rw [strip, if_pos hcurrent] at hsame
        exact ⟨⟨true, t.value, t.unquoted⟩, congrArg (lit "W/" ++ ·) hsame.symm, rfl, .inl hcompare⟩
      · rw [strip, if_neg hcurrent] at hsame
        exact ⟨⟨false, t.value, t.unquoted⟩, hsame.symm, rfl, .inl hcompare⟩
    · exact ⟨t, rfl, rfl, .inr ⟨hstrong, hstrong⟩⟩
  · intro ⟨u, hu, hvalue, hcompare⟩
    have hquoted : t.quoted = u.quoted := by rw [EntityTag.quoted, hvalue, EntityTag.quoted]
    cases weak with
    | true => exact .inl ⟨rfl, by rw [hu, hstrip, hquoted]⟩
    | false =>
      obtain ⟨ht, hother⟩ : t.weak = false ∧ u.weak = false := by simpa using hcompare
      exact .inr ⟨rfl, by simp [ht], by simp [hu, EntityTag.text, ht, hother, hquoted]⟩

/-- Separators are skipped. -/
theorem dropWhile_separators {sep : GoString} (hsep : ∀ b ∈ sep, isSeparator b) (rest : GoString) :
    (sep ++ (t.text ++ rest)).dropWhile isSeparator = t.text ++ rest := by
  rw [dropWhile_append_of_pos hsep]
  unfold EntityTag.text
  cases t.weak <;> rfl

/-- One round of the scanner. -/
theorem matchLoop_round {sep : GoString} (hsep : ∀ b ∈ sep, isSeparator b) (rest : GoString)
    (fuel : Nat) :
    matchLoop current weak (fuel + 1) (sep ++ (t.text ++ rest)) ↔
      (∃ u : EntityTag, current = u.text ∧ t.Matches weak u) ∨
        matchLoop current weak fuel rest := by
  have hne : sep ++ (t.text ++ rest) = [] → False := by
    unfold EntityTag.text
    cases t.weak <;> simp [EntityTag.quoted, lit]
  have hcut : cut (t.quoted ++ rest).tail 34 = (t.value, rest, true) := by
    simpa [EntityTag.quoted] using cut_append t.unquoted
  have htag : (if t.weak then lit "W/" else []) ++ 34 :: t.value ++ [34] = t.text := by
    unfold EntityTag.text EntityTag.quoted
    cases t.weak <;> simp
  have hdrop := dropWhile_separators (t := t) hsep rest
  rw [← match_iff, matchLoop.eq_3 _ _ _ _ hne]
  simp only [show (fun b : UInt8 => decide (b = 32 ∨ b = 9 ∨ b = 44)) = isSeparator from rfl, hdrop,
    strip_text, hcut, isWeak_text, htag]
  simp [EntityTag.quoted, or_assoc]

/-- **The scanner** compares every listed tag. -/
theorem matchLoop_lists {ts : List EntityTag} {list : GoString} (h : Lists ts list) {fuel : Nat}
    (hfuel : list.length ≤ fuel) :
    matchLoop current weak fuel list ↔ (Condition.tags ts).Matches weak current := by
  induction h generalizing fuel with
  | @nil sep hsep =>
    refine iff_of_false ?_ (by simp [Condition.Matches])
    have hdrop : sep.dropWhile (fun b => b = 32 ∨ b = 9 ∨ b = 44) = [] :=
      dropWhile_eq_nil_iff.mpr hsep
    unfold matchLoop
    split
    · simp
    · simp
    · simp only [hdrop]
      simp [strip]
  | @cons sep rest t ts hsep hrest ih =>
    have hlength := length_pos_of_mem (quote_mem_text t)
    rw [length_append, length_append] at hfuel
    obtain ⟨fuel, rfl⟩ := Nat.exists_eq_add_of_lt (show 0 < fuel by omega)
    rw [Nat.zero_add, matchLoop_round hsep, ih (by omega)]
    simp [Condition.Matches]

/-- A list of tags has quotes. -/
theorem quote_mem_of_lists {ts : List EntityTag} {list : GoString} (h : Lists ts list)
    (hne : ts ≠ []) : 34 ∈ list := by
  cases h with
  | nil => exact absurd rfl hne
  | cons => exact mem_append_right _ (mem_append_left _ (quote_mem_text _))

/-- **`matchETags`** on a condition that is well-formed. -/
theorem matchETags_gives (current : GoString) (weak : Bool) {list : GoString} {c : Condition}
    (h : Gives list (some c)) :
    list ≠ [] ∧ (matchETags list current weak ↔ c.Matches weak current) := by
  cases c with
  | any =>
    have hstar : trimSpace list = lit "*" := h
    refine ⟨?_, by simp [matchETags, hstar, Condition.Matches]⟩
    rintro rfl
    cases hstar
  | tags ts =>
    have hquote := quote_mem_of_lists h.2 h.1
    have hstar : trimSpace list ≠ lit "*" := by
      intro hstar
      have hmem := mem_trimSpace (by decide) hquote
      rw [hstar] at hmem
      exact absurd hmem (by decide)
    rw [← matchLoop_lists h.2 le_rfl]
    exact ⟨ne_nil_of_mem hquote, by simp [matchETags, hstar]⟩

/-- The conditional header fields of a request, read. -/
structure Conditions where
  ifMatch : Option Condition
  ifUnmodifiedSince : Option Int
  ifNoneMatch : Option Condition
  ifModifiedSince : Option Int

open Classical in
/-- The order of the standard, for a representation with its tag and its time of
modification; a time counts only if that is known. -/
noncomputable def prescribed (get : Prop) (etag : GoString) (modified : Option Int)
    (c : Conditions) : Option Nat :=
  -- a failed `If-Match`, or without it `If-Unmodified-Since`
  if (∃ m ∈ c.ifMatch, ¬ m.Matches false etag) ∨
      (c.ifMatch = none ∧ ∃ since ∈ c.ifUnmodifiedSince, ∃ time ∈ modified, since < time) then
    some 412
  else
    match c.ifNoneMatch with
    | some m => if m.Matches true etag then some (if get then 304 else 412) else none
    | none =>
      if get ∧ ∃ since ∈ c.ifModifiedSince, ∃ time ∈ modified, time ≤ since then some 304 else none

/-- A text gives a time; there is none without the header field. -/
def GivesTime (parseTime : GoString → Option Int) (text : GoString) (time : Option Int) : Prop :=
  parseTime text = time ∧ (text = [] ↔ time = none)

/-- The conditional header fields of a request are well-formed. -/
structure WellFormed (parseTime : GoString → Option Int) (header : Header) (c : Conditions) :
    Prop where
  ifMatch : Gives (join (header.values (lit "If-Match")) (lit ",")) c.ifMatch
  ifUnmodifiedSince :
    GivesTime parseTime (header.get (lit "If-Unmodified-Since")) c.ifUnmodifiedSince
  ifNoneMatch : Gives (join (header.values (lit "If-None-Match")) (lit ",")) c.ifNoneMatch
  ifModifiedSince : GivesTime parseTime (header.get (lit "If-Modified-Since")) c.ifModifiedSince

/-- **Preconditions.**  On a stored response of status 2xx and a request with
well-formed conditions, `Status` returns what the standard prescribes, and
`matchETags` answers whether a listed tag matches. -/
theorem status_prescribed (parseTime : GoString → Option Int) (request : Request) (code : Nat)
    (header : Header) (c : Conditions) (hcode : 200 ≤ code ∧ code < 300)
    (hwell : WellFormed parseTime request.header c) :
    status parseTime request code header =
        prescribed (request.method = methodGet ∨ request.method = methodHead)
          (header.get (lit "ETag")) (parseTime (header.get (lit "Last-Modified"))) c ∧
      ∀ list m etag weak, Gives list (some m) →
        (matchETags list etag weak ↔ m.Matches weak etag) := by
  classical
  refine ⟨?_, fun list m etag weak h => (matchETags_gives etag weak h).2⟩
  obtain ⟨hmatch, ⟨hunmodified, hunsent⟩, hnone, hsince, -⟩ := hwell
  obtain ⟨ifMatch, ifUnmodifiedSince, ifNoneMatch, ifModifiedSince⟩ := c
  have hrange : ¬ (code < 200 ∨ code ≥ 300) := by omega
  unfold status prescribed
  simp only [if_neg hrange, modifiedAfter, hunmodified, hsince, ne_eq, hunsent]
  generalize parseTime (header.get (lit "Last-Modified")) = modified
  rw [← ite_or]
  refine if_congr ?_ rfl ?_
  · cases ifMatch with
    | none =>
      rw [show join (request.header.values (lit "If-Match")) (lit ",") = [] from hmatch]
      cases modified <;> cases ifUnmodifiedSince <;> simp
    | some m =>
      obtain ⟨hne, hiff⟩ := matchETags_gives (header.get (lit "ETag")) false hmatch
      simp [hne, ← hiff]
  · cases ifNoneMatch with
    | none =>
      rw [show join (request.header.values (lit "If-None-Match")) (lit ",") = [] from hnone]
      cases modified <;> cases ifModifiedSince <;> simp
    | some m =>
      obtain ⟨hne, hiff⟩ := matchETags_gives (header.get (lit "ETag")) true hnone
      rw [if_pos hne]
      exact if_congr hiff (by congr) rfl

/-- A request for an entity that has not changed, with a list of two tags. -/
def unchangedRequest : Request :=
  ⟨methodGet, ⟨[], [], [], []⟩, false, [],
    ⟨[(lit "If-None-Match", [lit "\"a\", W/\"b,c\""])], by decide⟩, []⟩

theorem status_unchangedRequest :
    status (fun _ => none) unchangedRequest 200 ⟨[(lit "Etag", [lit "\"b,c\""])], by decide⟩ =
      some 304 := by
  have hlists : Lists [⟨false, lit "a", by decide⟩, ⟨true, lit "b,c", by decide⟩]
      (lit "\"a\", W/\"b,c\"") :=
    .cons (s := []) (by simp) (.cons (s := lit ", ") (by decide +kernel) (.nil (s := []) (by simp)))
  have hwell : WellFormed (fun _ => none) unchangedRequest.header
      ⟨none, none, some (.tags _), none⟩ :=
    ⟨rfl, ⟨rfl, iff_of_true rfl rfl⟩, ⟨by simp, hlists⟩, ⟨rfl, iff_of_true rfl rfl⟩⟩
  rw [(status_prescribed _ _ 200 _ _ (by decide) hwell).1, prescribed, if_neg (by simp)]
  refine (if_pos ⟨_, mem_cons_of_mem _ mem_cons_self, ⟨false, lit "b,c", by decide⟩, rfl, rfl,
    .inl rfl⟩).trans ?_
  rw [if_pos (.inl rfl)]

end Preconditions
