import GovetoEdge.ConfigSealLaws

/-!
# What a task keeps of a configuration

`Dispatch` writes the payload of a task to the database.  The secrets of a site
configuration are sealed before that, unless the configuration is sealed already,
which `persistableApplySiteConfigPayload` takes from any of its secrets.  Payloads
are the configurations that they encode.

* `sealed_nothing_plain`: sealing leaves no secret in plain text;
* `payload_sealed_iff`: when the stored payload has none.
-/

namespace TaskPayloads

open GoStrings ConfigSeal List

variable {Key ρ : Type}

/-- `Sealed`: a sensitive field carries an envelope. -/
def sealed (s : Option (Keyring Key)) (config : SiteConfig ρ) : Bool :=
  s.isSome && (secrets config).any fun x => isEnvelope x.2

/-- `HasSecrets`: a sensitive field is set. -/
def hasSecrets (config : SiteConfig ρ) : Bool := (secrets config).any fun x => x.2 ≠ []

/-- The payload of a task that applies a configuration; without a sealer no
secret may be in it. -/
def persistableApplySiteConfigPayload (c : Cipher Key) (nonces : Nat → Nonce)
    (s : Option (Keyring Key)) (siteID : GoString) (version : Nat) (config : SiteConfig ρ) :
    SealM (SiteConfig ρ) :=
  if s.isNone then
    if hasSecrets config then
      labelled (lit "seal apply-site-config payload")
        (failWith (lit "config seal cipher is not configured"))
    else pure config
  else if sealed s config then pure config
  else
    labelled (lit "seal apply-site-config payload")
      (sealSiteConfigSecrets c nonces s siteID version config)

/-- Every secret is empty or sealed. -/
def NothingPlain (config : SiteConfig ρ) : Prop :=
  ∀ x ∈ secrets config, x.2 = [] ∨ isEnvelope x.2 = true

variable {c : Cipher Key} {nonces : Nat → Nonce} {siteID : GoString} {version n : Nat}
  {config stored : SiteConfig ρ}

/-- **Sealing leaves nothing plain**, where it succeeds. -/
theorem sealed_nothing_plain {r : Keyring Key}
    (h : result (sealSiteConfigSecrets c nonces (some r) siteID version config) n = .ok stored) :
    NothingPlain stored := by
  obtain ⟨n', hok⟩ := result_eq_ok.mp h
  obtain ⟨_, _, hvisit, hstored⟩ := bind_ok.mp hok
  obtain ⟨hvalues, htext⟩ := visitSecrets_ok hvisit
  have hplain : ∀ x ∈ secrets config, isEnvelope x.2 = false := by
    intro x hx
    obtain ⟨m, y, hvalue⟩ := hvalues x hx
    by_contra henvelope
    rw [Bool.not_eq_false] at henvelope
    by_cases hempty : x.2 = []
    · rw [hempty] at henvelope
      cases henvelope
    · rw [sealValue, if_neg hempty, if_pos henvelope] at hvalue
      cases hvalue
  have hself : Related (fun _ u v => v = u ∧ isEnvelope u = false) siteID version config config :=
    related_self (htext rfl) fun x hx => ⟨rfl, hplain x hx⟩
  obtain ⟨config', changed, m, hseal, -, -, hwraps⟩ :=
    visitSecrets_leads true (sealValue_leads c r nonces) hself n
  rw [hseal] at hvisit
  cases hvisit
  cases hstored
  intro x hx
  obtain ⟨u, ⟨-, hempty⟩ | ⟨nonce, henvelope⟩⟩ := hwraps.mem x hx
  · exact .inl hempty
  · exact .inr (henvelope ▸ isEnvelope_envelope _ _ _ _)

/-- **What the database gets.**  The stored payload of a task has no secret in
plain text, or nothing is stored, exactly when there is no sealer, or no secret
was sealed before, or every one was.  A configuration in which some secrets are
sealed and others are not is stored as it is. -/
theorem payload_sealed_iff (c : Cipher Key) (nonces : Nat → Nonce) (s : Option (Keyring Key))
    (siteID : GoString) (version : Nat) (config : SiteConfig ρ) (n : Nat) :
    (∀ stored, result (persistableApplySiteConfigPayload c nonces s siteID version config) n =
        .ok stored → NothingPlain stored) ↔
      s = none ∨ (∀ x ∈ secrets config, isEnvelope x.2 = false) ∨ NothingPlain config := by
  unfold persistableApplySiteConfigPayload
  cases s with
  | none =>
    refine iff_of_true (fun stored hstored => ?_) (.inl rfl)
    by_cases hsecrets : hasSecrets config
    · rw [if_pos hsecrets] at hstored
      cases hstored
    · rw [if_neg hsecrets] at hstored
      cases hstored
      intro x hx
      by_contra hnot
      exact hsecrets (any_eq_true.mpr ⟨x, hx, decide_eq_true fun h => hnot (.inl h)⟩)
  | some r =>
    by_cases hsealed : sealed (some r) config
    · rw [if_neg (by simp), if_pos hsealed]
      obtain ⟨x, hx, henvelope⟩ := any_eq_true.mp ((Bool.and_eq_true _ _).mp hsealed).2
      have hsome : ¬ ∀ x ∈ secrets config, isEnvelope x.2 = false := by
        intro hnone
        rw [hnone x hx] at henvelope
        cases henvelope
      refine ⟨fun h => .inr (.inr (h config rfl)), fun h stored hstored => ?_⟩
      cases hstored
      exact (h.resolve_left (by simp)).resolve_left hsome
    · rw [if_neg (by simp), if_neg hsealed]
      refine iff_of_true (fun stored hstored => ?_) (.inr (.inl fun x hx => ?_))
      · obtain ⟨n', hok⟩ := result_eq_ok.mp hstored
        exact sealed_nothing_plain (result_eq_ok.mpr ⟨n', labelled_ok.mp hok⟩)
      · by_contra henvelope
        exact hsealed (any_eq_true.mpr ⟨x, hx, by simpa using henvelope⟩)

/-- A certificate whose key is sealed, and a key for the origin that is not. -/
theorem plain_key_stored :
    let config : SiteConfig Unit :=
      { oneCertificate oldSecret with tlsClientPrivateKeyPEM := lit "KEY" }
    ∃ stored, result (persistableApplySiteConfigPayload framedCipher (fun _ => framedNonce)
        (some framedKeys) (lit "site") 3 config) 0 = .ok stored ∧
      (fieldOriginMTLSPrivateKey, lit "KEY") ∈ secrets stored := by
  refine ⟨_, rfl, ?_⟩
  simp [secrets]

end TaskPayloads
