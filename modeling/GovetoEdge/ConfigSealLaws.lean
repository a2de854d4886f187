import GovetoEdge.ConfigSeal

/-!
# The laws of sealing

The operations on a configuration are one visit of its secrets, so a fact about
one secret is carried to the configuration once, by `visitSecrets_leads`: if each
secret goes from one relation with its plain text to another, the configuration
does.

* `unseal_seal`: what was sealed is unsealed as it was;
* `unseal_other`: not under another site or version;
* `rewrap_spec`: rewrapping keeps the texts and brings all secrets under the
  primary key.
-/

namespace ConfigSeal

open GoStrings List

variable {Key ρ : Type}

/-- Both succeed. -/
theorem bind_ok {α β : Type} {m : SealM α} {k : α → SealM β} {n : Nat} {y : β × Nat} :
    (m >>= k) n = .ok y ↔ ∃ x n', m n = .ok (x, n') ∧ k x n' = .ok y := by
  change (m n >>= fun p => k p.1 p.2) = .ok y ↔ _
  cases hm : m n with
  | error e => simp [bind, Except.bind]
  | ok p => simp [bind, Except.bind, Prod.ext_iff, and_assoc]

/-- Labels change errors alone. -/
theorem labelled_ok {α : Type} {label : GoString} {m : SealM α} {n : Nat} {y : α × Nat} :
    labelled label m n = .ok y ↔ m n = .ok y := by
  unfold labelled
  cases m n <;> simp

section Relations

/-- How a secret in a scope was and is. -/
abbrev Relation := GoString → GoString → GoString → Prop

/-- The records are the same up to their secrets. -/
def RelatedEach {α : Type} (R : GoString → GoString → Prop) (get : α → GoString)
    (set : α → GoString → α) : List α → List α → Prop :=
  List.Forall₂ fun x y => ∃ value, y = set x value ∧ R (get x) value

/-- The two differ at most in the secret. -/
def RelatedWAF (R : GoString → GoString → Prop) (waf waf' : GoString → Option (Value ρ)) : Prop :=
  match waf challengeSecret with
  | none => waf' = waf
  | some (.text secret) => ∃ value, waf' = setSecret waf value ∧ R secret value
  | some (.other _ _) => False

/-- The configurations are the same up to their secrets, and the secret of the
firewall is a string if there is one. -/
structure Related (R : Relation) (siteID : GoString) (version : Nat)
    (config config' : SiteConfig ρ) : Prop where
  certificates : RelatedEach (R (scope siteID version fieldCertificatePrivateKey))
    CertificateConfig.privateKeyPEM CertificateConfig.setPrivateKey
    config.certificates config'.certificates
  key : R (scope siteID version fieldOriginMTLSPrivateKey)
    config.tlsClientPrivateKeyPEM config'.tlsClientPrivateKeyPEM
  waf : RelatedWAF (R (scope siteID version fieldWAFChallengeSecret)) config.waf config'.waf
  challenges : RelatedEach (R (scope siteID version fieldACMEKeyAuthorization))
    ACMEChallengeConfig.keyAuth ACMEChallengeConfig.setKeyAuth
    config.acmeChallenges config'.acmeChallenges
  rest : config'.rest = config.rest

variable {f : GoString → GoString → SealM (GoString × Bool)}

/-- One step from `R` to `R'`: it succeeds, and what it reports as unchanged is
unchanged.  Where `quiet` is set, it reports no change. -/
def Leads (f : GoString → GoString → SealM (GoString × Bool)) (quiet : Bool) (scope : GoString)
    (R R' : GoString → GoString → Prop) : Prop :=
  ∀ plain value, R plain value → ∀ n, ∃ value' changed n',
    f scope value n = .ok ((value', changed), n') ∧ (changed = false → value' = value) ∧
      (quiet = true → changed = false) ∧ R' plain value'

/-- A list of secrets is led over one by one. -/
theorem visitEach_leads {α : Type} (label : GoString) (get : α → GoString)
    (set : α → GoString → α) {scope : GoString} {quiet : Bool} {R R' : GoString → GoString → Prop}
    (hget : ∀ x value, get (set x value) = value)
    (hset : ∀ x value value', set (set x value) value' = set x value')
    (hf : Leads f quiet scope R R') {xs ys : List α} (h : RelatedEach R get set xs ys) :
    ∀ i n, ∃ ys' changed n', visitEach f label get set scope i ys n = .ok ((ys', changed), n') ∧
      (changed = false → ys' = ys) ∧ (quiet = true → changed = false) ∧
      RelatedEach R' get set xs ys' := by
  induction h with
  | nil => exact fun i n => ⟨[], false, n, rfl, fun _ => rfl, fun _ => rfl, .nil⟩
  | @cons x y xs ys hxy _ ih =>
    intro i n
    obtain ⟨value, rfl, hR⟩ := hxy
    obtain ⟨value', changed, n', hvisit, hsame, hquiet, hR'⟩ := hf _ _ hR n
    obtain ⟨ys', changed', m, hrest, hsames, hquiets, hall⟩ := ih (i + 1) n'
    refine ⟨set x value' :: ys', changed || changed', m, ?_, ?_, ?_, .cons ⟨value', rfl, hR'⟩ hall⟩
    · rw [visitEach, bind_ok]
      refine ⟨_, _, labelled_ok.mpr (by rw [hget]; exact hvisit), bind_ok.mpr ⟨_, _, hrest, ?_⟩⟩
      rw [hset]
      rfl
    · intro hchanged
      obtain ⟨hc, hc'⟩ := Bool.or_eq_false_iff.mp hchanged
      rw [hsame hc, hsames hc']
    · intro hq
      rw [hquiet hq, hquiets hq]
      rfl

theorem setSecret_setSecret (waf : GoString → Option (Value ρ)) (value value' : GoString) :
    setSecret (setSecret waf value) value' = setSecret waf value' := by
  funext key
  unfold setSecret
  split <;> rfl

/-- The secret of the WAF is. -/
theorem visitWAF_leads {scope : GoString} {quiet : Bool} (strict : Bool)
    {R R' : GoString → GoString → Prop} (hf : Leads f quiet scope R R')
    {waf waf' : GoString → Option (Value ρ)} (h : RelatedWAF R waf waf') (n : Nat) :
    ∃ waf'' changed n', visitWAF f strict scope waf' n = .ok ((waf'', changed), n') ∧
      (changed = false → waf'' = waf') ∧ (quiet = true → changed = false) ∧
      RelatedWAF R' waf waf'' := by
  unfold RelatedWAF at h
  cases hsecret : waf challengeSecret with
  | none =>
    rw [hsecret] at h
    obtain rfl : waf' = waf := h
    refine ⟨waf', false, n, ?_, fun _ => rfl, fun _ => rfl, ?_⟩
    · rw [visitWAF, hsecret]
      rfl
    · rw [RelatedWAF, hsecret]
  | some held =>
    cases held with
    | other typeName x => simp [hsecret] at h
    | text secret =>
      rw [hsecret] at h
      obtain ⟨value, rfl, hR⟩ := h
      obtain ⟨value', changed, n', hvisit, hsame, hquiet, hR'⟩ := hf _ _ hR n
      refine ⟨setSecret waf value', changed, n', ?_, ?_, hquiet, ?_⟩
      · refine bind_ok.mpr ⟨_, _, hvisit, ?_⟩
        rw [← setSecret_setSecret waf value value']
        rfl
      · intro hchanged
        rw [hsame hchanged]
      · rw [RelatedWAF, hsecret]
        exact ⟨value', rfl, hR'⟩

/-- **What every secret does, the configuration does.** -/
theorem visitSecrets_leads {R R' : Relation} {siteID : GoString} {version : Nat} {quiet : Bool}
    (strict : Bool) (hf : ∀ scope, Leads f quiet scope (R scope) (R' scope))
    {config config' : SiteConfig ρ} (h : Related R siteID version config config') (n : Nat) :
    ∃ config'' changed n',
      visitSecrets f strict siteID version config' n = .ok ((config'', changed), n') ∧
      (changed = false → config'' = config') ∧ (quiet = true → changed = false) ∧
      Related R' siteID version config config'' := by
  obtain ⟨certificates, changed₁, n₁, hvisit₁, hsame₁, hquiet₁, hrel₁⟩ :=
    visitEach_leads (lit "certificate") CertificateConfig.privateKeyPEM
      CertificateConfig.setPrivateKey (fun _ _ => rfl) (fun _ _ _ => rfl) (hf _) h.certificates 0 n
  obtain ⟨key, changed₂, n₂, hvisit₂, hsame₂, hquiet₂, hrel₂⟩ := hf _ _ _ h.key n₁
  obtain ⟨waf, changed₃, n₃, hvisit₃, hsame₃, hquiet₃, hrel₃⟩ :=
    visitWAF_leads strict (hf _) h.waf n₂
  obtain ⟨challenges, changed₄, n₄, hvisit₄, hsame₄, hquiet₄, hrel₄⟩ :=
    visitEach_leads (lit "ACME challenge") ACMEChallengeConfig.keyAuth
      ACMEChallengeConfig.setKeyAuth (fun _ _ => rfl) (fun _ _ _ => rfl) (hf _) h.challenges 0 n₃
  refine ⟨⟨certificates, key, waf, challenges, config'.rest⟩,
    changed₁ || changed₂ || changed₃ || changed₄, n₄, ?_, ?_, ?_,
    ⟨hrel₁, hrel₂, hrel₃, hrel₄, h.rest⟩⟩
  · refine bind_ok.mpr ⟨_, _, hvisit₁, bind_ok.mpr ⟨_, _, labelled_ok.mpr hvisit₂, ?_⟩⟩
    refine bind_ok.mpr ⟨_, _, labelled_ok.mpr hvisit₃, bind_ok.mpr ⟨_, _, hvisit₄, rfl⟩⟩
  · intro hchanged
    simp only [Bool.or_eq_false_iff] at hchanged
    obtain ⟨⟨⟨hc₁, hc₂⟩, hc₃⟩, hc₄⟩ := hchanged
    rw [hsame₁ hc₁, hsame₂ hc₂, hsame₃ hc₃, hsame₄ hc₄]
  · intro hq
    rw [hquiet₁ hq, hquiet₂ hq, hquiet₃ hq, hquiet₄ hq]
    rfl

/-- The secret of the firewall is a string if there is one. -/
def TextSecret (config : SiteConfig ρ) : Prop :=
  ∀ typeName x, config.waf challengeSecret ≠ some (.other typeName x)

/-- What is related to itself. -/
theorem relatedEach_self {α : Type} {R : GoString → GoString → Prop} {get : α → GoString}
    {set : α → GoString → α} (hset : ∀ x, set x (get x) = x) {xs : List α}
    (h : ∀ x ∈ xs, R (get x) (get x)) : RelatedEach R get set xs xs := by
  induction xs with
  | nil => exact .nil
  | cons x xs ih =>
    exact .cons ⟨get x, (hset x).symm, h x mem_cons_self⟩
      (ih fun y hy => h y (mem_cons_of_mem _ hy))

/-- A relation that each secret has with itself. -/
theorem related_self {R : Relation} {siteID : GoString} {version : Nat} {config : SiteConfig ρ}
    (htext : TextSecret config) (h : ∀ x ∈ secrets config, R (scope siteID version x.1) x.2 x.2) :
    Related R siteID version config config := by
  simp only [secrets, mem_append, mem_map, mem_singleton, or_imp, forall_and,
    forall_exists_index, and_imp, forall_apply_eq_imp_iff₂, forall_eq] at h
  obtain ⟨⟨⟨hcertificates, hkey⟩, hwaf⟩, hchallenges⟩ := h
  refine ⟨relatedEach_self (fun _ => rfl) hcertificates, hkey, ?_,
    relatedEach_self (fun _ => rfl) hchallenges, rfl⟩
  unfold RelatedWAF
  cases hsecret : config.waf challengeSecret with
  | none => rfl
  | some held =>
    cases held with
    | other typeName x => exact htext typeName x hsecret
    | text secret =>
      refine ⟨secret, ?_, ?_⟩
      · funext key
        unfold setSecret
        split
        · rename_i hkey
          rw [hkey, hsecret]
        · rfl
      · exact hwaf (fieldWAFChallengeSecret, secret) (by rw [hsecret]; simp)

/-- Related lists are unique if values are. -/
theorem RelatedEach.unique {α : Type} {R : GoString → GoString → Prop} {get : α → GoString}
    {set : α → GoString → α} (hR : ∀ u v v', R u v → R u v' → v = v') {xs ys zs : List α}
    (hy : RelatedEach R get set xs ys) : RelatedEach R get set xs zs → ys = zs := by
  induction hy generalizing zs with
  | nil =>
    intro hz
    cases hz
    rfl
  | cons hxy _ ih =>
    intro hz
    obtain ⟨value, rfl, hvalue⟩ := hxy
    cases hz with
    | cons hxz hz =>
      obtain ⟨value', rfl, hvalue'⟩ := hxz
      rw [hR _ _ _ hvalue hvalue', ih hz]

/-- What each secret determines, the configuration determines. -/
theorem Related.unique {R : Relation} {siteID : GoString} {version : Nat}
    (hR : ∀ scope u v v', R scope u v → R scope u v' → v = v') {config a b : SiteConfig ρ}
    (ha : Related R siteID version config a) (hb : Related R siteID version config b) : a = b := by
  have hwaf : a.waf = b.waf := by
    have hwa := ha.waf
    have hwb := hb.waf
    unfold RelatedWAF at hwa hwb
    cases hsecret : config.waf challengeSecret with
    | none =>
      rw [hsecret] at hwa hwb
      exact Eq.trans hwa (Eq.symm hwb)
    | some held =>
      cases held with
      | other typeName x => simp [hsecret] at hwa
      | text secret =>
        rw [hsecret] at hwa hwb
        obtain ⟨value, hvalue, hRa⟩ := hwa
        obtain ⟨value', hvalue', hRb⟩ := hwb
        rw [hvalue, hvalue', hR _ _ _ _ hRa hRb]
  have hcertificates := RelatedEach.unique (hR _) ha.certificates hb.certificates
  have hkey := hR _ _ _ _ ha.key hb.key
  have hchallenges := RelatedEach.unique (hR _) ha.challenges hb.challenges
  have hrest := ha.rest.trans hb.rest.symm
  cases a
  cases b
  simp only [SiteConfig.mk.injEq]
  exact ⟨hcertificates, hkey, hwaf, hchallenges, hrest⟩

/-- Members have related members. -/
theorem RelatedEach.mem {α : Type} {R : GoString → GoString → Prop} {get : α → GoString}
    {set : α → GoString → α} (hget : ∀ x value, get (set x value) = value) {xs ys : List α}
    (h : RelatedEach R get set xs ys) : ∀ y ∈ ys, ∃ u, R u (get y) := by
  induction h with
  | nil => simp
  | cons hxy _ ih =>
    intro y hy
    rcases mem_cons.mp hy with rfl | hy
    · obtain ⟨value, rfl, hvalue⟩ := hxy
      exact ⟨_, by rw [hget]; exact hvalue⟩
    · exact ih y hy

/-- Secrets stay texts. -/
theorem Related.text {R : Relation} {siteID : GoString} {version : Nat}
    {config config' : SiteConfig ρ} (h : Related R siteID version config config') :
    TextSecret config' := by
  intro typeName x hheld
  have hwaf := h.waf
  unfold RelatedWAF at hwaf
  cases hsecret : config.waf challengeSecret with
  | none =>
    rw [hsecret] at hwaf
    rw [show config'.waf = config.waf from hwaf, hsecret] at hheld
    cases hheld
  | some held =>
    cases held with
    | other typeName y => simp [hsecret] at hwaf
    | text secret =>
      rw [hsecret] at hwaf
      obtain ⟨value, hvalue, -⟩ := hwaf
      rw [hvalue, setSecret, if_pos rfl] at hheld
      cases hheld

/-- Every secret of the second configuration comes from one of the first. -/
theorem Related.mem {R : Relation} {siteID : GoString} {version : Nat}
    {config config' : SiteConfig ρ} (h : Related R siteID version config config') :
    ∀ x ∈ secrets config', ∃ u, R (scope siteID version x.1) u x.2 := by
  intro x hx
  simp only [secrets, mem_append, mem_map, mem_singleton] at hx
  rcases hx with ((⟨y, hy, rfl⟩ | rfl) | hx) | ⟨y, hy, rfl⟩
  · exact RelatedEach.mem (fun _ _ => rfl) h.certificates y hy
  · exact ⟨_, h.key⟩
  · have hwaf := h.waf
    unfold RelatedWAF at hwaf
    cases hsecret : config.waf challengeSecret with
    | none =>
      rw [hsecret] at hwaf
      rw [show config'.waf = config.waf from hwaf, hsecret] at hx
      simp at hx
    | some held =>
      cases held with
      | other typeName y => simp [hsecret] at hwaf
      | text secret =>
        rw [hsecret] at hwaf
        obtain ⟨value, hvalue, hR⟩ := hwaf
        have hheld : config'.waf challengeSecret = some (.text value) := by
          rw [hvalue]
          exact if_pos rfl
        rw [hheld] at hx
        obtain rfl := mem_singleton.mp hx
        exact ⟨secret, hR⟩
  · exact RelatedEach.mem (fun _ _ => rfl) h.challenges y hy

/-- A visit that succeeds has seen all. -/
theorem visitEach_ok {α : Type} {get : α → GoString} {set : α → GoString → α}
    {label scope : GoString} {xs : List α} :
    ∀ {i n y}, visitEach f label get set scope i xs n = .ok y →
      ∀ x ∈ xs, ∃ n y, f scope (get x) n = .ok y := by
  induction xs with
  | nil => simp
  | cons x xs ih =>
    intro i n y h z hz
    obtain ⟨_, _, hvisit, hrest⟩ := bind_ok.mp h
    obtain ⟨_, _, hrest, _⟩ := bind_ok.mp hrest
    rcases mem_cons.mp hz with rfl | hz
    · exact ⟨_, _, labelled_ok.mp hvisit⟩
    · exact ih hrest z hz

/-- **Where the configuration succeeds, every secret does**, and a strict visit
has met a string. -/
theorem visitSecrets_ok {strict : Bool} {siteID : GoString} {version : Nat}
    {config : SiteConfig ρ} {n : Nat} {y : (SiteConfig ρ × Bool) × Nat}
    (h : visitSecrets f strict siteID version config n = .ok y) :
    (∀ x ∈ secrets config, ∃ n y, f (scope siteID version x.1) x.2 n = .ok y) ∧
      (strict = true → TextSecret config) := by
  obtain ⟨_, _, hcertificates, h⟩ := bind_ok.mp h
  obtain ⟨_, _, hkey, h⟩ := bind_ok.mp h
  obtain ⟨_, _, hwaf, h⟩ := bind_ok.mp h
  obtain ⟨_, _, hchallenges, -⟩ := bind_ok.mp h
  have hwaf := labelled_ok.mp hwaf
  unfold visitWAF at hwaf
  constructor
  · intro x hx
    simp only [secrets, mem_append, mem_map, mem_singleton] at hx
    rcases hx with ((⟨y, hy, rfl⟩ | rfl) | hx) | ⟨y, hy, rfl⟩
    · exact visitEach_ok hcertificates y hy
    · exact ⟨_, _, labelled_ok.mp hkey⟩
    · split at hx
      · rename_i secret hsecret
        obtain rfl := mem_singleton.mp hx
        rw [hsecret] at hwaf
        obtain ⟨_, _, hvisit, -⟩ := bind_ok.mp hwaf
        exact ⟨_, _, hvisit⟩
      · simp at hx
    · exact visitEach_ok hchallenges y hy
  · intro hstrict typeName x hsecret
    rw [hsecret] at hwaf
    simp only [hstrict, if_pos, failWith] at hwaf
    cases hwaf

end Relations

/-- The result of an operation, without the nonces that it drew. -/
def result {α : Type} (m : SealM α) (n : Nat) : Except GoString α := (m n).map Prod.fst

theorem result_eq_ok {α : Type} {m : SealM α} {n : Nat} {x : α} :
    result m n = .ok x ↔ ∃ n', m n = .ok (x, n') := by
  unfold result
  cases m n with
  | error e => simp [Except.map]
  | ok y => simp [Except.map, Prod.ext_iff]

section Laws

variable {c : Cipher Key} {r : Keyring Key} {nonces : Nat → Nonce}

/-- A secret is empty or under one of the keys, in its scope. -/
def UnderKeys (c : Cipher Key) (keys : List Key) (scope value : GoString) : Prop :=
  value = [] ∨ ∃ k ∈ keys, ∃ (nonce : Nonce) (text : GoString),
    value = envelope c k nonce text scope

/-- A configuration that was sealed, each secret under one of the keys. -/
structure SealedUnder (c : Cipher Key) (keys : List Key) (siteID : GoString) (version : Nat)
    (config : SiteConfig ρ) : Prop where
  text : TextSecret config
  under : ∀ x ∈ secrets config, UnderKeys c keys (scope siteID version x.1) x.2

/-- The text that unsealing gives. -/
def Opens (c : Cipher Key) (r : Keyring Key) : Relation := fun scope value text =>
  (value = [] ∧ text = []) ∨ (isEnvelope value = true ∧ decrypt c r value scope = .ok text)

/-- A value has one text. -/
theorem Opens.unique (scope value text text' : GoString) (h : Opens c r scope value text)
    (h' : Opens c r scope value text') : text = text' := by
  rcases h with ⟨rfl, rfl⟩ | ⟨henvelope, h⟩
  · rcases h' with ⟨-, rfl⟩ | ⟨henvelope, -⟩
    · rfl
    · cases henvelope
  · rcases h' with ⟨rfl, -⟩ | ⟨-, h'⟩
    · cases henvelope
    · exact Except.ok.inj (h.symm.trans h')

/-- The secret has the text, and is under the primary key. -/
def Wraps (c : Cipher Key) (r : Keyring Key) : Relation := fun scope text value =>
  (text = [] ∧ value = []) ∨ ∃ nonce : Nonce, value = envelope c r.primary nonce text scope

/-- Sealing wraps. -/
theorem sealValue_leads (c : Cipher Key) (r : Keyring Key) (nonces : Nat → Nonce)
    (scope : GoString) :
    Leads (sealValue c r nonces) false scope (fun u v => v = u ∧ isEnvelope u = false)
      (Wraps c r scope) := by
  rintro plain value ⟨rfl, hplain⟩ n
  by_cases hvalue : value = []
  · refine ⟨value, false, n, ?_, fun _ => rfl, fun _ => rfl, .inl ⟨hvalue, hvalue⟩⟩
    rw [sealValue, if_pos hvalue]
    rfl
  · refine ⟨envelope c r.primary (nonces n) value scope, true, n + 1, ?_, by simp, by simp,
      .inr ⟨nonces n, rfl⟩⟩
    rw [sealValue, if_neg hvalue, if_neg (by simp [hplain])]
    rfl

/-- Unsealing undoes whatever has a text. -/
theorem unsealValue_leads {R R' : GoString → GoString → Prop} (scope : GoString)
    (h : ∀ u v, R u v → ∃ text, Opens c r scope v text ∧ R' u text) :
    Leads (unsealValue c r) false scope R R' := by
  intro u value hR n
  obtain ⟨text, hopens, hR'⟩ := h u value hR
  rcases hopens with ⟨rfl, rfl⟩ | ⟨henvelope, hdecrypt⟩
  · exact ⟨[], false, n, rfl, fun _ => rfl, fun _ => rfl, hR'⟩
  · refine ⟨text, true, n, ?_, by simp, by simp, hR'⟩
    have hne : ¬ (value = [] ∨ (!isEnvelope value) = true) := by
      rintro (rfl | hnot)
      · cases henvelope
      · simp [henvelope] at hnot
    rw [unsealValue, if_neg hne, bind_ok]
    exact ⟨text, n, by simp only [lift, hdecrypt], rfl⟩

/-- What is wrapped can be opened. -/
theorem opens_of_wraps (hideal : Ideal c) (hids : DistinctIDs c r) {scope text value : GoString}
    (h : Wraps c r scope text value) : Opens c r scope value text := by
  rcases h with ⟨htext, hvalue⟩ | ⟨nonce, rfl⟩
  · exact .inl ⟨hvalue, htext⟩
  · exact .inr ⟨isEnvelope_envelope _ _ _ _,
      decrypt_own hideal hids mem_cons_self nonce text scope⟩

/-- So can what is under one of the keys. -/
theorem opens_of_underKeys (hideal : Ideal c) (hids : DistinctIDs c r) {scope value : GoString}
    (h : UnderKeys c r.keys scope value) : ∃ text, Opens c r scope value text := by
  rcases h with hvalue | ⟨k, hk, nonce, text, rfl⟩
  · exact ⟨[], .inl ⟨hvalue, rfl⟩⟩
  · exact ⟨text, .inr ⟨isEnvelope_envelope _ _ _ _, decrypt_own hideal hids hk nonce text scope⟩⟩

/-- What rewrapping keeps: the text of the secret. -/
def Rewraps (c : Cipher Key) (r : Keyring Key) : Relation := fun scope value value' =>
  ∃ text, Opens c r scope value text ∧ Opens c r scope value' text ∧
    (value' = [] ∨ isCurrent c r value' = true)

/-- Rewrapping keeps the text. -/
theorem rewrapValue_leads (hideal : Ideal c) (hids : DistinctIDs c r) (scope : GoString) :
    Leads (rewrapValue c r nonces) false scope (fun u v => v = u ∧ UnderKeys c r.keys scope u)
      (Rewraps c r scope) := by
  rintro plain value ⟨rfl, hunder⟩ n
  obtain ⟨text, hopens⟩ := opens_of_underKeys hideal hids hunder
  rcases hopens with ⟨rfl, rfl⟩ | ⟨henvelope, hdecrypt⟩
  · exact ⟨[], false, n, rfl, fun _ => rfl, fun _ => rfl, [], .inl ⟨rfl, rfl⟩, .inl ⟨rfl, rfl⟩,
      .inl rfl⟩
  · have hne : value ≠ [] := by
      rintro rfl
      cases henvelope
    have hopened : Opens c r scope value text := .inr ⟨henvelope, hdecrypt⟩
    by_cases hcurrent : isCurrent c r value = true
    · refine ⟨value, false, n, ?_, fun _ => rfl, fun _ => rfl, text, hopened, hopened,
        .inr hcurrent⟩
      rw [rewrapValue, if_neg hne, if_pos henvelope, rewrapScoped, if_neg hne, if_pos hcurrent]
      rfl
    · refine ⟨envelope c r.primary (nonces n) text scope, true, n + 1, ?_, by simp, by simp, text,
        hopened, opens_of_wraps hideal hids (.inr ⟨nonces n, rfl⟩), .inr (isCurrent_envelope _ _ _)⟩
      rw [rewrapValue, if_neg hne, if_pos henvelope, rewrapScoped, if_neg hne, if_neg hcurrent,
        bind_ok]
      exact ⟨text, n, by simp only [lift, hdecrypt], rfl⟩

/-- Current values are sealed. -/
theorem isEnvelope_of_isCurrent {value : GoString} (h : isCurrent c r value = true) :
    isEnvelope value = true := by
  rw [isCurrent, isPrefixOf_iff_prefix] at h
  rw [isEnvelope, isPrefixOf_iff_prefix]
  exact (prefix_append _ _).trans h

/-- A secret under the primary key is left alone. -/
theorem rewrapValue_current (c : Cipher Key) (r : Keyring Key) (nonces : Nat → Nonce)
    (scope : GoString) :
    Leads (rewrapValue c r nonces) true scope
      (fun u v => v = u ∧ (u = [] ∨ isCurrent c r u = true)) (fun _ _ => True) := by
  rintro plain value ⟨rfl, hvalue⟩ n
  refine ⟨value, false, n, ?_, fun _ => rfl, fun _ => rfl, trivial⟩
  by_cases hne : value = []
  · rw [rewrapValue, if_pos hne]
    rfl
  · have hcurrent := hvalue.resolve_left hne
    rw [rewrapValue, if_neg hne, if_pos (isEnvelope_of_isCurrent hcurrent), rewrapScoped,
      if_neg hne, if_pos hcurrent]
    rfl

/-- **What is sealed is under the primary key, and unsealing gives it back.** -/
theorem unseal_seal (nonces : Nat → Nonce) (hideal : Ideal c) (hids : DistinctIDs c r)
    {siteID : GoString} {version : Nat} {config : SiteConfig ρ} (htext : TextSecret config)
    (hplain : ∀ x ∈ secrets config, isEnvelope x.2 = false) (n : Nat) :
    ∃ sealedConfig,
      result (sealSiteConfigSecrets c nonces (some r) siteID version config) n = .ok sealedConfig ∧
      SealedUnder c [r.primary] siteID version sealedConfig ∧
      ∀ m, result (unsealSiteConfigSecrets c (some r) siteID version sealedConfig) m =
        .ok config := by
  have hself : Related (fun _ u v => v = u ∧ isEnvelope u = false) siteID version config config :=
    related_self htext fun x hx => ⟨rfl, hplain x hx⟩
  obtain ⟨sealedConfig, changed, n', hseal, -, -, hwraps⟩ :=
    visitSecrets_leads true (sealValue_leads c r nonces) hself n
  have hunder : ∀ x ∈ secrets sealedConfig,
      UnderKeys c [r.primary] (scope siteID version x.1) x.2 := by
    intro x hx
    obtain ⟨text, ⟨-, hempty⟩ | ⟨nonce, hvalue⟩⟩ := hwraps.mem x hx
    · exact .inl hempty
    · exact .inr ⟨r.primary, mem_cons_self, nonce, text, hvalue⟩
  refine ⟨sealedConfig, result_eq_ok.mpr ⟨n', bind_ok.mpr ⟨_, _, hseal, rfl⟩⟩,
    ⟨hwraps.text, hunder⟩, fun m => ?_⟩
  have hback : ∀ scope, Leads (unsealValue c r) false scope (Wraps c r scope) fun u v => v = u :=
    fun scope => unsealValue_leads scope fun u v h => ⟨u, opens_of_wraps hideal hids h, rfl⟩
  obtain ⟨opened, changed', m', hunseal, -, -, heq⟩ := visitSecrets_leads false hback hwraps m
  have hsame : Related (fun _ u v => v = u) siteID version config config :=
    related_self htext fun x _ => rfl
  have hopened : opened = config :=
    Related.unique (fun _ u v v' hv hv' => hv.trans hv'.symm) heq hsame
  rw [result_eq_ok, ← hopened]
  exact ⟨m', bind_ok.mpr ⟨_, _, hunseal, rfl⟩⟩

/-- **A secret is bound to its scope.** -/
theorem unsealValue_other (hideal : Ideal c) (hids : DistinctIDs c r)
    {scope scope' value : GoString}
    (hne : scope ≠ scope') (hvalue : value ≠ []) (h : UnderKeys c r.keys scope value) (n : Nat) :
    result (unsealValue c r scope' value) n =
      .error (lit "cipher: message authentication failed") := by
  obtain ⟨k, hk, nonce, text, rfl⟩ := h.resolve_left hvalue
  have henvelope := isEnvelope_envelope (c := c) k nonce text scope
  have hdecrypt := decrypt_other hideal hids hk nonce text hne
  rw [unsealValue, if_neg (by simp [hvalue, henvelope])]
  simp only [result, lift, hdecrypt, bind, StateT.bind, Except.bind, Except.map]

/-- Under another site or version a sealed secret is not opened. -/
theorem unseal_other (hideal : Ideal c) (hids : DistinctIDs c r) {siteID siteID' : GoString}
    {version version' : Nat} {config : SiteConfig ρ} (hid : 0 ∉ siteID) (hid' : 0 ∉ siteID')
    (hne : siteID ≠ siteID' ∨ version ≠ version')
    (h : SealedUnder c r.keys siteID version config)
    {x : GoString × GoString} (hx : x ∈ secrets config) (hvalue : x.2 ≠ []) (n : Nat) :
    ∃ e, result (unsealSiteConfigSecrets c (some r) siteID' version' config) n = .error e := by
  cases hresult : result (unsealSiteConfigSecrets c (some r) siteID' version' config) n with
  | error e => exact ⟨e, rfl⟩
  | ok opened =>
    obtain ⟨n', hok⟩ := result_eq_ok.mp hresult
    obtain ⟨_, _, hvisit, -⟩ := bind_ok.mp hok
    obtain ⟨m, y, hsecret⟩ := (visitSecrets_ok hvisit).1 x hx
    have hscope : scope siteID version x.1 ≠ scope siteID' version' x.1 := by
      intro heq
      obtain ⟨hsite, hversion, -⟩ := scope_injective hid hid' heq
      exact hne.elim (absurd hsite) (absurd hversion)
    have hfails := unsealValue_other hideal hids hscope hvalue (h.under x hx) m
    rw [result, hsecret] at hfails
    cases hfails

/-- **Rewrapping keeps the texts, and the second time does nothing.** -/
theorem rewrap_spec (hideal : Ideal c) (hids : DistinctIDs c r) {siteID : GoString} {version : Nat}
    {config : SiteConfig ρ} (h : SealedUnder c r.keys siteID version config) (n : Nat) :
    ∃ plain rewrapped changed,
      (∀ m, result (unsealSiteConfigSecrets c (some r) siteID version config) m = .ok plain) ∧
      result (rewrapSiteConfigSecrets c nonces (some r) siteID version config) n =
        .ok (rewrapped, changed) ∧
      (∀ m, result (unsealSiteConfigSecrets c (some r) siteID version rewrapped) m = .ok plain) ∧
      (∀ x ∈ secrets rewrapped, x.2 ≠ [] → isCurrent c r x.2 = true) ∧
      ∀ m, result (rewrapSiteConfigSecrets c nonces (some r) siteID version rewrapped) m =
        .ok (rewrapped, false) := by
  have hself : Related (fun scope u v => v = u ∧ UnderKeys c r.keys scope u) siteID version
      config config := related_self h.text fun x hx => ⟨rfl, h.under x hx⟩
  obtain ⟨rewrapped, changed, n', hrewrap, -, -, hrewraps⟩ :=
    visitSecrets_leads true (rewrapValue_leads hideal hids) hself n
  have hopen : ∀ scope, Leads (unsealValue c r) false scope
      (fun u v => v = u ∧ UnderKeys c r.keys scope u) (Opens c r scope) := by
    intro scope
    refine unsealValue_leads scope ?_
    rintro u v ⟨rfl, hunder⟩
    obtain ⟨text, htext⟩ := opens_of_underKeys hideal hids hunder
    exact ⟨text, htext, htext⟩
  have hopenAgain : ∀ scope, Leads (unsealValue c r) false scope (Rewraps c r scope)
      (Opens c r scope) :=
    fun scope => unsealValue_leads scope fun u v ⟨text, hu, hv, _⟩ => ⟨text, hv, hu⟩
  obtain ⟨plain, -, -, -, -, -, hplain⟩ := visitSecrets_leads false hopen hself 0
  have hcurrent : ∀ x ∈ secrets rewrapped, x.2 = [] ∨ isCurrent c r x.2 = true := by
    intro x hx
    obtain ⟨u, text, -, -, hvalue⟩ := hrewraps.mem x hx
    exact hvalue
  refine ⟨plain, rewrapped, changed, fun m => ?_, result_eq_ok.mpr ⟨n', hrewrap⟩, fun m => ?_,
    fun x hx hne => (hcurrent x hx).resolve_left hne, fun m => ?_⟩
  · obtain ⟨opened, _, m', hunseal, -, -, hopened⟩ := visitSecrets_leads false hopen hself m
    rw [result_eq_ok, Related.unique Opens.unique hplain hopened]
    exact ⟨m', bind_ok.mpr ⟨_, _, hunseal, rfl⟩⟩
  · obtain ⟨opened, _, m', hunseal, -, -, hopened⟩ := visitSecrets_leads false hopenAgain hrewraps m
    rw [result_eq_ok, Related.unique Opens.unique hplain hopened]
    exact ⟨m', bind_ok.mpr ⟨_, _, hunseal, rfl⟩⟩
  · have hagain : Related (fun _ u v => v = u ∧ (u = [] ∨ isCurrent c r u = true)) siteID version
        rewrapped rewrapped := related_self hrewraps.text fun x hx => ⟨rfl, hcurrent x hx⟩
    obtain ⟨again, changed', m', hvisit, hsame, hquiet, -⟩ :=
      visitSecrets_leads true (rewrapValue_current c r nonces) hagain m
    obtain rfl : again = rewrapped := hsame (hquiet rfl)
    rw [hquiet rfl] at hvisit
    exact result_eq_ok.mpr ⟨m', hvisit⟩

/-- **Sealing, unsealing and rewrapping.**  What is sealed has all its secrets under
the primary key, and can be unsealed as it was.  A sealed secret, and so the
configuration that holds it, cannot be unsealed under another site, version or field.
Rewrapping keeps all texts and leaves all secrets under the primary key; doing it again
does nothing. -/
theorem sealed_configs_lawful (hideal : Ideal c) (hids : DistinctIDs c r) (nonces : Nat → Nonce) :
    (∀ siteID version (config : SiteConfig ρ), (∀ x ∈ secrets config, isEnvelope x.2 = false) →
      ∀ n,
        (TextSecret config ↔ ∃ sealedConfig,
          result (sealSiteConfigSecrets c nonces (some r) siteID version config) n =
            .ok sealedConfig) ∧
        ∀ sealedConfig,
          result (sealSiteConfigSecrets c nonces (some r) siteID version config) n =
            .ok sealedConfig →
          SealedUnder c [r.primary] siteID version sealedConfig ∧
          ∀ m, result (unsealSiteConfigSecrets c (some r) siteID version sealedConfig) m =
            .ok config) ∧
    (∀ siteID siteID' version version' field field', 0 ∉ siteID → 0 ∉ siteID' →
      (siteID, version, field) ≠ (siteID', version', field') →
      ∀ value, value ≠ [] → UnderKeys c r.keys (scope siteID version field) value →
        ∀ n, ∃ e, result (unsealValue c r (scope siteID' version' field') value) n = .error e) ∧
    (∀ siteID siteID' version version' (config : SiteConfig ρ), 0 ∉ siteID → 0 ∉ siteID' →
      (siteID, version) ≠ (siteID', version') → SealedUnder c r.keys siteID version config →
      (∃ x ∈ secrets config, x.2 ≠ []) →
        ∀ n, ∃ e, result (unsealSiteConfigSecrets c (some r) siteID' version' config) n =
          .error e) ∧
    ∀ siteID version (config : SiteConfig ρ), SealedUnder c r.keys siteID version config →
      ∀ n, ∃ plain rewrapped changed,
        (∀ m, result (unsealSiteConfigSecrets c (some r) siteID version config) m = .ok plain) ∧
        result (rewrapSiteConfigSecrets c nonces (some r) siteID version config) n =
          .ok (rewrapped, changed) ∧
        (∀ m, result (unsealSiteConfigSecrets c (some r) siteID version rewrapped) m =
          .ok plain) ∧
        (∀ x ∈ secrets rewrapped, x.2 ≠ [] → isCurrent c r x.2 = true) ∧
        ∀ m, result (rewrapSiteConfigSecrets c nonces (some r) siteID version rewrapped) m =
          .ok (rewrapped, false) := by
  refine ⟨?_, ?_, ?_, fun siteID version config h n => rewrap_spec hideal hids h n⟩
  · intro siteID version config hplain n
    have htext : ∀ sealedConfig,
        result (sealSiteConfigSecrets c nonces (some r) siteID version config) n =
          .ok sealedConfig → TextSecret config := by
      intro sealedConfig hseal
      obtain ⟨n', hok⟩ := result_eq_ok.mp hseal
      obtain ⟨_, _, hvisit, -⟩ := bind_ok.mp hok
      exact (visitSecrets_ok hvisit).2 rfl
    refine ⟨⟨fun h => ?_, fun ⟨sealedConfig, hseal⟩ => htext sealedConfig hseal⟩, ?_⟩
    · obtain ⟨sealedConfig, hseal, -⟩ := unseal_seal nonces hideal hids h hplain n
      exact ⟨sealedConfig, hseal⟩
    · intro sealedConfig hseal
      obtain ⟨sealedConfig', hseal', hunseal⟩ :=
        unseal_seal nonces hideal hids (htext sealedConfig hseal) hplain n
      obtain rfl := Except.ok.inj (hseal.symm.trans hseal')
      exact hunseal
  · intro siteID siteID' version version' field field' hid hid' hne value hvalue hunder n
    have hscope : scope siteID version field ≠ scope siteID' version' field' := by
      intro heq
      obtain ⟨rfl, rfl, rfl⟩ := scope_injective hid hid' heq
      exact hne rfl
    exact ⟨_, unsealValue_other hideal hids hscope hvalue hunder n⟩
  · intro siteID siteID' version version' config hid hid' hne hunder ⟨x, hx, hvalue⟩ n
    have hother : siteID ≠ siteID' ∨ version ≠ version' := by
      by_cases hsite : siteID = siteID'
      · exact .inr fun hversion => hne (by rw [hsite, hversion])
      · exact .inl hsite
    exact unseal_other hideal hids hid hid' hother hunder hx hvalue n

end Laws

/-- A cipher that writes the data in front of the text, to see that the
assumptions can be met. -/
def framedCipher : Cipher UInt8 where
  digest k := [k]
  aeadSeal _ _ text data := FieldFraming.frame data ++ text
  aeadOpen _ _ sealedText data :=
    if (FieldFraming.frame data).isPrefixOf sealedText then
      some (sealedText.drop (FieldFraming.frame data).length)
    else none

/-- It is ideal. -/
theorem framedCipher_ideal : Ideal framedCipher where
  opens k nonce text data := by
    simp only [framedCipher]
    rw [if_pos (List.isPrefixOf_iff_prefix.mpr (prefix_append _ _)), drop_left]
  binds k nonce text data data' hne := by
    simp only [framedCipher]
    rw [if_neg]
    intro hprefix
    obtain ⟨rest, hrest⟩ := isPrefixOf_iff_prefix.mp hprefix
    exact hne (FieldFraming.frame_append_inj hrest).1.symm

/-- Two keys. -/
def framedKeys : Keyring UInt8 := ⟨0, [1]⟩

theorem framedKeys_distinct : DistinctIDs framedCipher framedKeys := by
  unfold DistinctIDs
  decide +kernel

def framedNonce : Nonce := ⟨List.replicate 12 0, rfl⟩

/-- A configuration with one certificate, whose key is given. -/
def oneCertificate (key : GoString) : SiteConfig Unit :=
  ⟨[⟨lit "CERT", key⟩], [], fun _ => none, [], ()⟩

theorem oneCertificate_text (key : GoString) : TextSecret (oneCertificate key) := by
  intro typeName x h
  cases h

/-- The key of the certificate, sealed with the older key. -/
def oldSecret : GoString :=
  envelope framedCipher 1 framedNonce (lit "KEY") (scope (lit "site") 3 fieldCertificatePrivateKey)

theorem oldSecret_sealed :
    SealedUnder framedCipher framedKeys.keys (lit "site") 3 (oneCertificate oldSecret) := by
  refine ⟨oneCertificate_text _, fun x hx => ?_⟩
  have hcases :
      x = (fieldCertificatePrivateKey, oldSecret) ∨ x = (fieldOriginMTLSPrivateKey, []) := by
    simpa [secrets, oneCertificate] using hx
  rcases hcases with rfl | rfl
  · exact .inr ⟨1, by decide, framedNonce, lit "KEY", rfl⟩
  · exact .inl rfl

theorem old_secret_rewrapped :
    SealedUnder framedCipher framedKeys.keys (lit "site") 3 (oneCertificate oldSecret) ∧
    ∃ plain rewrapped changed,
      (∀ m, result (unsealSiteConfigSecrets framedCipher (some framedKeys) (lit "site") 3
        (oneCertificate oldSecret)) m = .ok plain) ∧
      result (rewrapSiteConfigSecrets framedCipher (fun _ => framedNonce) (some framedKeys)
        (lit "site") 3 (oneCertificate oldSecret)) 0 = .ok (rewrapped, changed) ∧
      (∀ m, result (unsealSiteConfigSecrets framedCipher (some framedKeys) (lit "site") 3
        rewrapped) m = .ok plain) ∧
      (∀ x ∈ secrets rewrapped, x.2 ≠ [] → isCurrent framedCipher framedKeys x.2 = true) ∧
      ∀ m, result (rewrapSiteConfigSecrets framedCipher (fun _ => framedNonce) (some framedKeys)
        (lit "site") 3 rewrapped) m = .ok (rewrapped, false) :=
  ⟨oldSecret_sealed,
    (sealed_configs_lawful framedCipher_ideal framedKeys_distinct fun _ => framedNonce).2.2.2
      (lit "site") 3 (oneCertificate oldSecret) oldSecret_sealed 0⟩

end ConfigSeal
