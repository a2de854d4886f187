import GovetoEdge.Fallible
import GovetoEdge.WafPolicies

/-!
# Validation of WAF policies

`WellFormed` says what the settings of a policy look like that
`normalizeAndValidate` has accepted: constants are spelled as the code spells
them, limits are in range, and every trusted proxy is the text of a prefix
whose host bits are masked and which is not an IPv4 address in IPv6 form.

`normalizeAndValidate_wellFormed`: what is accepted is well-formed.
-/

namespace WafPolicies

open GoStrings Utf8 HttpHeaders NetAddresses List Fallible

/-- A prefix in the form in which trusted proxies are stored. -/
def StoredPrefix (text : GoString) : Prop :=
  ∃ p : Prefix, ¬ p.addr.is4In6 ∧ p.masked = p ∧ text = p.string

/-- What validation has made sure of. -/
structure WellFormed (p : WAFPolicy) : Prop where
  overLimit : p.bodyOverLimitAction = lit "BLOCK" ∨ p.bodyOverLimitAction = lit "PARTIAL"
  limit : 0 < p.bodyInspectLimitBytes ∧ p.bodyInspectLimitBytes ≤ 67108864
  proxies : ∀ t ∈ p.trustedProxies, StoredPrefix t
  proxies_nodup : p.trustedProxies.Nodup
  chain : p.trustedProxyChain → p.trustedProxies ≠ []
  geoIP : Trimmed p.geoIPDatabase

variable {lib : Library}

/-- Locations change errors alone. -/
theorem atLocation_ok {location : GoString} {α : Type} {x : Except GoString α} {y : α} :
    atLocation location x = .ok y ↔ x = .ok y := by
  cases x with
  | ok z => exact Iff.rfl
  | error e => exact ⟨fun h => (by cases h), fun h => (by cases h)⟩

theorem maskNumber_idem (width bits n : Nat) :
    maskNumber width bits (maskNumber width bits n) = maskNumber width bits n := by
  unfold maskNumber
  rw [Nat.mul_div_cancel _ (Nat.two_pow_pos _)]

/-- Masks are idempotent. -/
theorem masked_masked (p : Prefix) : p.masked.masked = p.masked := by
  obtain ⟨a, bits, hbits, hzone⟩ := p
  cases a with
  | v4 | v6 => simp [Prefix.masked, Addr.mask, maskNumber_idem]

/-- A host prefix has no bits to mask. -/
theorem hostPrefix_masked (a : Addr) : (hostPrefix a).masked = hostPrefix a := by
  cases a with
  | v4 n =>
    simp [hostPrefix, prefixFrom, Prefix.masked, Addr.mask, Addr.bitLen, Addr.withoutZone,
      maskNumber]
  | v6 n zone =>
    simp [hostPrefix, prefixFrom, Prefix.masked, Addr.mask, Addr.bitLen, Addr.withoutZone,
      maskNumber]

theorem unmap_not_4In6 (a : Addr) : ¬ a.unmap.withoutZone.is4In6 := by
  rw [show a.unmap.withoutZone.is4In6 = a.unmap.is4In6 by cases a.unmap <;> rfl]
  exact unmap_not_is4In6 a

theorem not_4In6_of_bitLen {a : Addr} (h : a.bitLen = 32) : ¬ a.is4In6 := by
  cases a with
  | v4 n => simp [Addr.is4In6]
  | v6 n zone => cases h

theorem unmap_bitLen {a : Addr} (h : a.is4In6) : a.unmap.bitLen = 32 := by
  cases a with
  | v4 n => cases h
  | v6 n zone =>
    have hn : n.val / 2 ^ 32 = 0xFFFF := by simpa [Addr.is4In6] using h
    rw [Addr.unmap, if_pos hn]
    rfl

/-- Masking leaves no IPv4 address in IPv6 form unless its 96 bits are kept. -/
theorem bits_of_masked_4In6 {p : Prefix} (h : p.masked.addr.is4In6) : 96 ≤ p.bits := by
  obtain ⟨a, bits, hbits, hzone⟩ := p
  cases a with
  | v4 n => cases h
  | v6 n zone =>
    have hn : maskNumber 128 bits n / 2 ^ 32 = 0xFFFF := by
      simpa [Prefix.masked, Addr.mask, Addr.is4In6] using h
    by_contra hlt
    have hlt : bits < 96 := by simpa using hlt
    obtain ⟨k, hk⟩ : ∃ k, 128 - bits = 33 + k := ⟨128 - bits - 33, by omega⟩
    rw [maskNumber, hk, Nat.pow_add] at hn
    generalize n.val / (2 ^ 33 * 2 ^ k) = m at hn
    have heven : m * (2 ^ 33 * 2 ^ k) = 2 ^ 32 * (2 * (m * 2 ^ k)) := by ring
    omega

/-- An unmapped prefix is in its stored form. -/
theorem unmapPrefix_stored (p : Prefix) :
    ¬ (unmapPrefix p.masked).addr.is4In6 ∧
      (unmapPrefix p.masked).masked = unmapPrefix p.masked := by
  unfold unmapPrefix
  split
  · rename_i h
    refine ⟨?_, masked_masked _⟩
    apply not_4In6_of_bitLen
    rw [Prefix.masked, Addr.mask_bitLen, prefixFrom, Addr.withoutZone_bitLen]
    exact h.1
  · rename_i h
    refine ⟨fun h4 => h ⟨unmap_bitLen h4, h4, ?_⟩, masked_masked p⟩
    exact bits_of_masked_4In6 (p := p) h4

/-- A normalized prefix is in its stored form. -/
theorem normalizeWAFPrefix_good {value text : GoString}
    (h : normalizeWAFPrefix lib value = .ok text) : StoredPrefix text := by
  unfold normalizeWAFPrefix at h
  split at h
  · cases h
    exact ⟨_, unmap_not_4In6 _, hostPrefix_masked _, rfl⟩
  · split at h
    · cases h
      exact ⟨_, (unmapPrefix_stored _).1, (unmapPrefix_stored _).2, rfl⟩
    · cases h

theorem normalizeWAFPrefixesFrom_good {result values texts : List GoString}
    (h : normalizeWAFPrefixesFrom lib result values = .ok texts)
    (hresult : ∀ t ∈ result, StoredPrefix t) (hnodup : result.Nodup) :
    (∀ t ∈ texts, StoredPrefix t) ∧ texts.Nodup := by
  induction values generalizing result with
  | nil =>
    cases h
    exact ⟨hresult, hnodup⟩
  | cons value values ih =>
    unfold normalizeWAFPrefixesFrom at h
    simp only at h
    split at h
    · exact ih h hresult hnodup
    · obtain ⟨text, htext, h⟩ := exists_of_bind h
      split at h
      · exact ih h hresult hnodup
      · rename_i hnew
        refine ih h ?_ ?_
        · intro t ht
          rcases mem_append.mp ht with ht | ht
          · exact hresult t ht
          · rw [mem_singleton.mp ht]
            exact normalizeWAFPrefix_good htext
        · exact nodup_append.mpr ⟨hnodup, nodup_singleton _, by
            rintro a ha b hb rfl
            exact hnew (mem_singleton.mp hb ▸ ha)⟩

/-- **Validated settings are well formed.** -/
theorem normalizeSettings_good {p p' : WAFPolicy} (h : normalizeSettings lib p = .ok p') :
    WellFormed p' := by
  obtain ⟨haction, h⟩ := ok_of_guard h
  obtain ⟨hnegative, h⟩ := ok_of_guard h
  obtain ⟨hlimit, h⟩ := ok_of_guard h
  obtain ⟨proxies, hproxies, h⟩ := exists_of_bind h
  obtain ⟨hchain, h⟩ := ok_of_guard h
  cases h
  obtain ⟨hstored, hnodup⟩ := normalizeWAFPrefixesFrom_good (atLocation_ok.mp hproxies)
    (by simp) nodup_nil
  refine ⟨?_, ⟨?_, by simp only; omega⟩, hstored, hnodup, fun hc hnil => hchain ⟨hc, hnil⟩,
    trimmed_trimSpace _⟩
  · by_contra hneither
    exact haction (not_or.mp hneither)
  · simp only
    split
    · decide
    · omega

/-- **What is accepted is well-formed.** -/
theorem normalizeAndValidate_wellFormed {p p' : WAFPolicy}
    (h : normalizeAndValidate lib p = .ok p') : WellFormed p' := by
  obtain ⟨p₁, hsettings, h⟩ := exists_of_bind h
  obtain ⟨_, h⟩ := ok_of_guard h
  obtain ⟨⟨sets, seen⟩, _, h⟩ := exists_of_bind h
  cases h
  obtain ⟨hover, hlimit, hproxies, hnodup, hchain, hgeo⟩ := normalizeSettings_good hsettings
  exact ⟨hover, hlimit, hproxies, hnodup, hchain, hgeo⟩

end WafPolicies
