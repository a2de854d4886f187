import GovetoEdge.Base64
import GovetoEdge.FieldFraming
import GovetoEdge.GoQuoting

/-!
# Sealed site configurations

The secrets of a site configuration are stored encrypted.  Each is bound to its
site, its version and the field it stands in by a scope that goes into the
authenticated data of the cipher, and its envelope names the key, so that keys
can be replaced.

`Cipher` is what the code takes from the libraries: the digest of a key and
authenticated encryption.  `Ideal` is what is assumed of it.  Nonces come from a
supply, one for each encryption.

Sealing, unsealing and rewrapping visit the same fields in the same order, so
they are one function, `visitSecrets`, over what is done to one secret.  What a
failed operation has already written is not kept: its caller drops the
configuration.

* `scope_injective`: two scopes differ if the site, the version or the field
  differs;
* `decrypt_envelope`: an envelope is opened with the key that it names.
-/

namespace ConfigSeal

open GoStrings List

/-- Twelve bytes, the size of a nonce. -/
abbrev Nonce := { s : GoString // s.length = 12 }

/-- The digest of a key, and encryption with data that is authenticated only. -/
structure Cipher (Key : Type) where
  digest : Key → GoString
  aeadSeal : Key → GoString → GoString → GoString → GoString
  aeadOpen : Key → GoString → GoString → GoString → Option GoString

/-- An ideal authenticated cipher: what was sealed can be opened with the same
data, and with no other data. -/
structure Ideal {Key : Type} (c : Cipher Key) : Prop where
  opens : ∀ k nonce text data, c.aeadOpen k nonce (c.aeadSeal k nonce text data) data = some text
  binds : ∀ k nonce text data data', data ≠ data' →
    c.aeadOpen k nonce (c.aeadSeal k nonce text data) data' = none

/-- `CredentialCipher`: the key that is written with, and others that can still
be read with. -/
structure Keyring (Key : Type) where
  primary : Key
  previous : List Key

variable {Key ρ : Type}

/-- The primary key and the previous ones. -/
def Keyring.keys (r : Keyring Key) : List Key := r.primary :: r.previous

/-- Every envelope begins with it. -/
def credentialEnvelope : GoString := lit "enc:v2:"

/-- Bytes in hexadecimal. -/
def hexText (bytes : GoString) : GoString := bytes.flatMap fun b => GoQuoting.hexDigits 2 b.toNat

section Keys

variable (c : Cipher Key)

/-- The id of a key: the first bytes of its digest. -/
def keyID (k : Key) : GoString := hexText ((c.digest k).take 8)

/-- The map of keys; of two keys with one id the later one counts. -/
def Keyring.lookup (r : Keyring Key) (id : GoString) : Option Key :=
  r.keys.reverse.find? (keyID c · = id)

/-- The value is sealed. -/
def isEnvelope (value : GoString) : Bool := credentialEnvelope.isPrefixOf value

/-- It is sealed under the primary key. -/
def isCurrent (r : Keyring Key) (value : GoString) : Bool :=
  (credentialEnvelope ++ keyID c r.primary ++ lit ":").isPrefixOf value

/-- The envelope of a text. -/
def envelope (k : Key) (nonce : GoString) (text data : GoString) : GoString :=
  credentialEnvelope ++ keyID c k ++ lit ":" ++
    Base64.encode (nonce ++ c.aeadSeal k nonce text data)

/-- An envelope is opened with one key. -/
def decryptCredential (k : Key) (value data : GoString) : Except GoString GoString :=
  match Base64.decode value with
  | none => .error (lit "illegal base64 data")
  | some bytes =>
    if bytes.length < 12 then .error (lit "invalid encrypted credential")
    else
      match c.aeadOpen k (bytes.take 12) (bytes.drop 12) data with
      | some text => .ok text
      | none => .error (lit "cipher: message authentication failed")

/-- A value without an envelope is tried with every key. -/
def decryptLegacy (value data : GoString) : List Key → List GoString → Except GoString GoString
  | [], failures =>
    .error (lit "decrypt legacy credential with configured keys: " ++ join failures (lit "\n"))
  | k :: keys, failures =>
    match decryptCredential c k value data with
    | .ok text => .ok text
    | .error e => decryptLegacy value data keys (failures ++ [e])

/-- The key is the one the envelope names. -/
def decrypt (r : Keyring Key) (value data : GoString) : Except GoString GoString :=
  if isEnvelope value then
    match cut (value.drop credentialEnvelope.length) 58 with
    | (id, body, true) =>
      match r.lookup c id with
      | some k => decryptCredential c k body data
      | none => .error (lit "credential key " ++ id ++ lit " is unavailable")
    | (_, _, false) => .error (lit "invalid encrypted credential envelope")
  else decryptLegacy c value data r.keys []

end Keys

/-- Operations that may fail; the state is the number of nonces drawn. -/
abbrev SealM := StateT Nat (Except GoString)

/-- An error, with no nonce drawn. -/
def failWith {α : Type} (message : GoString) : SealM α := fun _ => .error message

/-- `fmt.Errorf` with a label before an error. -/
def labelled {α : Type} (label : GoString) (m : SealM α) : SealM α := fun n =>
  match m n with
  | .ok r => .ok r
  | .error e => .error (label ++ lit ": " ++ e)

def lift {α : Type} (r : Except GoString α) : SealM α := fun n =>
  match r with
  | .ok x => .ok (x, n)
  | .error e => .error e

section Secrets

variable (c : Cipher Key) (r : Keyring Key) (nonces : Nat → Nonce)

/-- The next nonce is drawn. -/
def encrypt (text data : GoString) : SealM GoString := fun n =>
  .ok (envelope c r.primary (nonces n) text data, n + 1)

/-- `RewrapScoped`: the value and whether it has changed. -/
def rewrapScoped (scope value : GoString) : SealM (GoString × Bool) :=
  if value = [] then pure ([], false)
  else if isCurrent c r value then pure (value, false)
  else do
    let text ← lift (decrypt c r value scope)
    let wrapped ← encrypt c r nonces text scope
    pure (wrapped, true)

/-- What is done to one secret: its new value, and whether it has changed. -/
def sealValue (scope value : GoString) : SealM (GoString × Bool) :=
  if value = [] then pure (value, false)
  else if isEnvelope value then failWith (lit "value is already sealed")
  else do
    let wrapped ← encrypt c r nonces value scope
    pure (wrapped, true)

/-- A secret is opened. -/
def unsealValue (scope value : GoString) : SealM (GoString × Bool) :=
  if value = [] ∨ !isEnvelope value then pure (value, false)
  else do
    let text ← lift (decrypt c r value scope)
    pure (text, true)

/-- It is sealed under the primary key, if it is not. -/
def rewrapValue (scope value : GoString) : SealM (GoString × Bool) :=
  if value = [] then pure (value, false)
  else if isEnvelope value then rewrapScoped c r nonces scope value
  else sealValue c r nonces scope value

end Secrets

/-- A certificate of a site. -/
structure CertificateConfig where
  certificatePEM : GoString
  privateKeyPEM : GoString

def CertificateConfig.setPrivateKey (x : CertificateConfig) (value : GoString) :
    CertificateConfig :=
  { x with privateKeyPEM := value }

/-- A challenge of a site. -/
structure ACMEChallengeConfig where
  domain : GoString
  token : GoString
  keyAuth : GoString

def ACMEChallengeConfig.setKeyAuth (x : ACMEChallengeConfig) (value : GoString) :
    ACMEChallengeConfig :=
  { x with keyAuth := value }

/-- A value of a `map[string]any`: a string, or something of another type. -/
inductive Value (ρ : Type)
  | text (s : GoString)
  | other (typeName : GoString) (x : ρ)

/-- A site configuration; `rest` is all of it that is never secret. -/
structure SiteConfig (ρ : Type) where
  certificates : List CertificateConfig
  tlsClientPrivateKeyPEM : GoString
  waf : GoString → Option (Value ρ)
  acmeChallenges : List ACMEChallengeConfig
  rest : ρ

def scopePrefix : GoString := lit "goveto-edge/site-config-secret/v1"

def fieldCertificatePrivateKey : GoString := lit "certificates.private_key"

def fieldOriginMTLSPrivateKey : GoString :=
  lit "origin_policy.transport.tls_client_private_key_pem"

def fieldWAFChallengeSecret : GoString := lit "waf.challenge_secret"

def fieldACMEKeyAuthorization : GoString := lit "acme_challenges.key_auth"

/-- The data a secret is bound to. -/
def scope (siteID : GoString) (version : Nat) (field : GoString) : GoString :=
  scopePrefix ++ [0] ++ siteID ++ [0] ++ itoa version ++ [0] ++ field

/-- The key of the secret in the firewall settings. -/
def challengeSecret : GoString := lit "challenge_secret"

/-- The secrets of a configuration, each with its field. -/
def secrets (config : SiteConfig ρ) : List (GoString × GoString) :=
  config.certificates.map (fun x => (fieldCertificatePrivateKey, x.privateKeyPEM)) ++
  [(fieldOriginMTLSPrivateKey, config.tlsClientPrivateKeyPEM)] ++
  (match config.waf challengeSecret with
    | some (.text secret) => [(fieldWAFChallengeSecret, secret)]
    | _ => []) ++
  config.acmeChallenges.map fun x => (fieldACMEKeyAuthorization, x.keyAuth)

section Visiting

variable (f : GoString → GoString → SealM (GoString × Bool))

/-- A loop over records with one secret each. -/
def visitEach {α : Type} (label : GoString) (get : α → GoString) (set : α → GoString → α)
    (scope : GoString) : Nat → List α → SealM (List α × Bool)
  | _, [] => pure ([], false)
  | i, x :: xs => do
    let (value, changed) ← labelled (label ++ lit " " ++ itoa i) (f scope (get x))
    let (ys, changed') ← visitEach label get set scope (i + 1) xs
    pure (set x value :: ys, changed || changed')

/-- The secret of the WAF is replaced. -/
def setSecret (waf : GoString → Option (Value ρ)) (value : GoString) :
    GoString → Option (Value ρ) :=
  fun key => if key = challengeSecret then some (.text value) else waf key

/-- The secret of the firewall; if it is no string, it may have to be refused. -/
def visitWAF (strict : Bool) (scope : GoString) (waf : GoString → Option (Value ρ)) :
    SealM ((GoString → Option (Value ρ)) × Bool) :=
  match waf challengeSecret with
  | none => pure (waf, false)
  | some (.other typeName _) =>
    if strict then failWith (lit "unexpected " ++ typeName ++ lit " value") else pure (waf, false)
  | some (.text secret) => do
    let (value, changed) ← f scope secret
    pure (setSecret waf value, changed)

/-- All secrets of a site, in this order. -/
def visitSecrets (strict : Bool) (siteID : GoString) (version : Nat) (config : SiteConfig ρ) :
    SealM (SiteConfig ρ × Bool) := do
  let (certificates, changed₁) ← visitEach f (lit "certificate") CertificateConfig.privateKeyPEM
    CertificateConfig.setPrivateKey (scope siteID version fieldCertificatePrivateKey) 0
    config.certificates
  let (key, changed₂) ← labelled (lit "origin mTLS")
    (f (scope siteID version fieldOriginMTLSPrivateKey) config.tlsClientPrivateKeyPEM)
  let (waf, changed₃) ← labelled (lit "WAF challenge secret")
    (visitWAF f strict (scope siteID version fieldWAFChallengeSecret) config.waf)
  let (challenges, changed₄) ← visitEach f (lit "ACME challenge") ACMEChallengeConfig.keyAuth
    ACMEChallengeConfig.setKeyAuth (scope siteID version fieldACMEKeyAuthorization) 0
    config.acmeChallenges
  pure (⟨certificates, key, waf, challenges, config.rest⟩,
    changed₁ || changed₂ || changed₃ || changed₄)

end Visiting

section Operations

variable (c : Cipher Key) (nonces : Nat → Nonce)

/-- A sealer without a cipher refuses everything. -/
def withCipher {α : Type} (s : Option (Keyring Key)) (m : Keyring Key → SealM α) : SealM α :=
  match s with
  | none => failWith (lit "config seal cipher is not configured")
  | some r => m r

/-- All are sealed. -/
def sealSiteConfigSecrets (s : Option (Keyring Key)) (siteID : GoString) (version : Nat)
    (config : SiteConfig ρ) : SealM (SiteConfig ρ) :=
  withCipher s fun r => do
    let (config, _) ← visitSecrets (sealValue c r nonces) true siteID version config
    pure config

/-- A secret of the firewall that is no string is passed over here. -/
def unsealSiteConfigSecrets (s : Option (Keyring Key)) (siteID : GoString) (version : Nat)
    (config : SiteConfig ρ) : SealM (SiteConfig ρ) :=
  withCipher s fun r => do
    let (config, _) ← visitSecrets (unsealValue c r) false siteID version config
    pure config

/-- All are rewrapped. -/
def rewrapSiteConfigSecrets (s : Option (Keyring Key)) (siteID : GoString) (version : Nat)
    (config : SiteConfig ρ) : SealM (SiteConfig ρ × Bool) :=
  withCipher s fun r => visitSecrets (rewrapValue c r nonces) true siteID version config

end Operations

theorem zero_not_mem_itoa (n : Nat) : (0 : UInt8) ∉ itoa n := by
  intro h
  exact absurd (digit_of_mem_itoa h).1 (by decide)

/-- **A scope determines the site, the version and the field.** -/
theorem scope_injective {siteID siteID' field field' : GoString} {version version' : Nat}
    (hid : 0 ∉ siteID) (hid' : 0 ∉ siteID')
    (h : scope siteID version field = scope siteID' version' field') :
    siteID = siteID' ∧ version = version' ∧ field = field' := by
  simp only [scope, append_assoc, append_cancel_left_eq, cons_append,
    List.cons.injEq, true_and] at h
  obtain ⟨hsite, hrest⟩ := FieldFraming.append_cons_inj hid hid' h
  obtain ⟨hversion, hfield⟩ := FieldFraming.append_cons_inj (zero_not_mem_itoa _)
    (zero_not_mem_itoa _) hrest
  exact ⟨hsite, itoa_injective hversion, hfield⟩

section Envelopes

variable {c : Cipher Key} {r : Keyring Key}

/-- Two configured keys with one id are one key. -/
def DistinctIDs (c : Cipher Key) (r : Keyring Key) : Prop :=
  ∀ k ∈ r.keys, ∀ k' ∈ r.keys, keyID c k = keyID c k' → k = k'

/-- No hexadecimal digit is a colon. -/
theorem hexDigits_ne_colon (count n : Nat) : ∀ b ∈ GoQuoting.hexDigits count n, b ≠ 58 := by
  have hall : ∀ n : Fin 16, GoQuoting.hexDigit n ≠ 58 := by decide
  induction count with
  | zero => simp [GoQuoting.hexDigits]
  | succ count ih =>
    intro b hb
    rcases mem_cons.mp hb with rfl | hb
    · exact hall ⟨_, Nat.mod_lt _ (by omega)⟩
    · exact ih b hb

/-- So key identifiers have none. -/
theorem colon_not_mem_keyID (k : Key) : (58 : UInt8) ∉ keyID c k := by
  intro h
  obtain ⟨b, -, hb⟩ := mem_flatMap.mp h
  exact hexDigits_ne_colon _ _ _ hb rfl

/-- A key is found by its identifier. -/
theorem lookup_keyID (hids : DistinctIDs c r) {k : Key} (hk : k ∈ r.keys) :
    r.lookup c (keyID c k) = some k := by
  unfold Keyring.lookup
  cases hfind : r.keys.reverse.find? (keyID c · = keyID c k) with
  | none => simpa using List.find?_eq_none.mp hfind k (mem_reverse.mpr hk)
  | some k' =>
    have hmem := mem_reverse.mp (mem_of_find?_eq_some hfind)
    have hid := List.find?_some hfind
    rw [hids k' hmem k hk (by simpa using hid)]

/-- Sealed values are envelopes. -/
theorem isEnvelope_envelope (k : Key) (nonce text data : GoString) :
    isEnvelope (envelope c k nonce text data) = true := by
  rw [isEnvelope, isPrefixOf_iff_prefix, envelope, append_assoc, append_assoc]
  exact prefix_append _ _

/-- Under the primary key they are current. -/
theorem isCurrent_envelope (nonce text data : GoString) :
    isCurrent c r (envelope c r.primary nonce text data) = true := by
  rw [isCurrent, isPrefixOf_iff_prefix, envelope]
  exact prefix_append _ _

/-- **An envelope is opened with its own key** and whatever data is given. -/
theorem decrypt_envelope (hids : DistinctIDs c r) {k : Key} (hk : k ∈ r.keys) (nonce : Nonce)
    (text data data' : GoString) :
    decrypt c r (envelope c k nonce text data) data' =
      match c.aeadOpen k nonce (c.aeadSeal k nonce text data) data' with
      | some text => .ok text
      | none => .error (lit "cipher: message authentication failed") := by
  have hdrop : (envelope c k nonce text data).drop credentialEnvelope.length =
      keyID c k ++ 58 :: Base64.encode (nonce ++ c.aeadSeal k nonce text data) := by
    rw [envelope, append_assoc, append_assoc, drop_left]
    rfl
  rw [decrypt, if_pos (isEnvelope_envelope k _ _ _), hdrop, cut_append (colon_not_mem_keyID k)]
  simp only [lookup_keyID hids hk]
  have hlength : ¬ (nonce.1 ++ c.aeadSeal k nonce text data).length < 12 := by
    rw [length_append, nonce.2]
    omega
  rw [decryptCredential, Base64.decode_encode]
  simp only [if_neg hlength, take_left' nonce.2, drop_left' nonce.2]

/-- **An envelope is opened** with the data it was sealed with. -/
theorem decrypt_own (hideal : Ideal c) (hids : DistinctIDs c r) {k : Key} (hk : k ∈ r.keys)
    (nonce : Nonce) (text data : GoString) :
    decrypt c r (envelope c k nonce text data) data = .ok text := by
  rw [decrypt_envelope hids hk, hideal.opens]

/-- **It is opened with no other data.** -/
theorem decrypt_other (hideal : Ideal c) (hids : DistinctIDs c r) {k : Key} (hk : k ∈ r.keys)
    (nonce : Nonce) (text : GoString) {data data' : GoString} (hne : data ≠ data') :
    decrypt c r (envelope c k nonce text data) data' =
      .error (lit "cipher: message authentication failed") := by
  rw [decrypt_envelope hids hk, hideal.binds k _ _ _ _ hne]

end Envelopes

end ConfigSeal
