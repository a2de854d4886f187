import GovetoEdge.WafRequests

/-!
# Rate keys

A rate rule counts requests by a key that `rateKey` reads from the request.

* `separated_iff`: two requests of different values, or of different clients
  without a value, have different keys, unless one carries the text that stands
  for the other's missing value.
-/

namespace RateCounters

open GoStrings HttpHeaders WafPolicies WafRequests

/-- `Request.Cookie`: the first cookie of a name. -/
def cookie (r : Request) (name : GoString) : Option GoString :=
  if name = [] then none else r.cookies.lookup name

/-- What `rateKey` reads of `requestData`. -/
structure RequestData where
  request : Request
  ip : GoString

def missing (data : RequestData) : GoString := lit "missing:" ++ data.ip

/-- What a rule counts by. -/
def rateKey (rule : WAFRule) (data : RequestData) : GoString :=
  if rule.key = lit "CLIENT_IP" then data.ip
  else if rule.key = lit "CLIENT_IP_PATH" then data.ip ++ 0 :: data.request.path
  else if rule.key = lit "PATH" then data.request.path
  else if rule.key = lit "HEADER" then
    let value := data.request.header.get rule.keyName
    if value ≠ [] then value else missing data
  else if rule.key = lit "COOKIE" then
    match cookie data.request rule.keyName with
    | some value => value
    | none => missing data
  else if rule.key = lit "GLOBAL" then lit "global"
  else []

/-- The data of a request at a handler. -/
def requestData (p : WAFPolicy) (trustedProxies : List NetAddresses.Prefix) (r : Request) :
    RequestData :=
  ⟨r, clientIP p trustedProxies r⟩

/-- The value of the rule's header or cookie that a request carries. -/
def carried (rule : WAFRule) (r : Request) : Option GoString :=
  if rule.key = lit "HEADER" then
    if r.header.get rule.keyName = [] then none else some (r.header.get rule.keyName)
  else cookie r rule.keyName

/-- The value that is carried, or the address. -/
theorem rateKey_eq {rule : WAFRule} (hkey : rule.key = lit "HEADER" ∨ rule.key = lit "COOKIE")
    (data : RequestData) :
    rateKey rule data = (carried rule data.request).getD (missing data) := by
  obtain hkey | hkey := hkey
  · by_cases hvalue : data.request.header.get rule.keyName = [] <;>
      simp [rateKey, carried, hkey, hvalue, lit]
  · cases hcookie : cookie data.request rule.keyName <;>
      simp [rateKey, carried, hkey, hcookie, lit]

/-- A request carries the text that stands for the missing value of another. -/
def Poses (rule : WAFRule) (d e : RequestData) : Prop :=
  carried rule d.request = some (missing e) ∧ carried rule e.request = none

instance (rule : WAFRule) (d e : RequestData) : Decidable (Poses rule d e) :=
  inferInstanceAs (Decidable (_ ∧ _))

/-- **When keys keep requests apart.**  Two requests under a rule that counts by
a header or a cookie have one key only if they carry one value, or carry none and
come from one client, exactly when neither carries the text `missing:` with the
address of the other, while the other carries no value. -/
theorem separated_iff (p : WAFPolicy) (proxies : List NetAddresses.Prefix) (rule : WAFRule)
    (hkey : rule.key = lit "HEADER" ∨ rule.key = lit "COOKIE") (r₁ r₂ : Request) :
    (rateKey rule (requestData p proxies r₁) = rateKey rule (requestData p proxies r₂) →
      (∃ value, carried rule r₁ = some value ∧ carried rule r₂ = some value) ∨
        (carried rule r₁ = none ∧ carried rule r₂ = none ∧
          clientIP p proxies r₁ = clientIP p proxies r₂)) ↔
      ¬ Poses rule (requestData p proxies r₁) (requestData p proxies r₂) ∧
        ¬ Poses rule (requestData p proxies r₂) (requestData p proxies r₁) := by
  rw [rateKey_eq hkey, rateKey_eq hkey]
  cases h₁ : carried rule r₁ with
  | none =>
    cases h₂ : carried rule r₂ with
    | none => simp [requestData, Poses, missing, h₁, h₂]
    | some w => simp [requestData, Poses, h₁, h₂, eq_comm]
  | some v =>
    cases h₂ : carried rule r₂ with
    | none => simp [requestData, Poses, h₁, h₂]
    | some w => simp [requestData, Poses, h₁, h₂, eq_comm]

/-- A rule that counts by the value of a header. -/
def forwardedRule : WAFRule :=
  { emptyRule with key := lit "HEADER", keyName := lit "X-Forwarded-For", requests := 1
                   windowSeconds := 60 }

/-- A policy without proxies. -/
def directPolicy : WAFPolicy := ⟨true, false, [], some [], 0, [], []⟩

theorem separated_values :
    rateKey forwardedRule (requestData directPolicy [] (forwardedRequest (lit "a"))) ≠
      rateKey forwardedRule (requestData directPolicy [] (forwardedRequest (lit "b"))) := by
  intro hsame
  obtain ⟨value, hvalue, hother⟩ | ⟨hnone, -⟩ :=
    (separated_iff directPolicy [] forwardedRule (.inl rfl) (forwardedRequest (lit "a"))
      (forwardedRequest (lit "b"))).mpr (by decide +kernel) hsame
  · exact absurd (hvalue.trans hother.symm) (by decide +kernel)
  · exact absurd hnone (by decide +kernel)

/-- A client elsewhere sends the header `missing:10.0.0.1`, and counts against
the client at that address, which sends none. -/
theorem missing_key_taken :
    let r₁ := { forwardedRequest (lit "missing:10.0.0.1") with remoteAddr := lit "192.0.2.7:80" }
    let r₂ := forwardedRequest []
    rateKey forwardedRule (requestData directPolicy [] r₁) =
        rateKey forwardedRule (requestData directPolicy [] r₂) ∧
      carried forwardedRule r₁ ≠ none ∧ carried forwardedRule r₂ = none ∧
      clientIP directPolicy [] r₁ ≠ clientIP directPolicy [] r₂ := by
  decide +kernel

end RateCounters
