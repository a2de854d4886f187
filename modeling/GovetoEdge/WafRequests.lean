import GovetoEdge.WafValidation

/-!
# Requests and their client address

What the firewall reads from a request, and the client address it is taken to
come from.  Behind trusted proxies that address is looked for in the
`X-Forwarded-For` chain, from the right, up to the first address that is not
trusted.

* `walkChain_append`: what stands to the left of an untrusted address has no
  influence;
* `clientIP_ignores_left_of_untrusted`: two requests of one peer have one client
  address, however their chains differ there.
-/

namespace WafRequests

open GoStrings HttpHeaders NetAddresses WafPolicies List

/-- The parts of a request that the firewall reads; `path`, `rawQuery` and
`requestURI` are those of its URL, and cookies are parsed. -/
structure Request where
  remoteAddr : GoString
  method : GoString
  host : GoString
  path : GoString
  rawQuery : GoString
  requestURI : GoString
  header : Header
  cookies : List (GoString × GoString)
  body : Option GoString

/-- `net.SplitHostPort`: the port stands behind the last colon, and a host with
colons in brackets. -/
def splitHostPort (s : GoString) : Option (GoString × GoString) :=
  if !s.contains 58 then none
  else
    let port := (s.reverse.takeWhile (· ≠ 58)).reverse
    let before := s.take (s.length - port.length - 1)
    if s.head? = some 91 then
      let host := s.tail.takeWhile (· ≠ 93)
      if !s.contains 93 ∨ host.length + 2 ≠ before.length then none
      else if s.tail.contains 91 ∨ (s.drop (host.length + 2)).contains 93 then none
      else some (host, port)
    else if before.contains 58 ∨ s.contains 91 ∨ s.contains 93 then none
    else some (before, port)

/-- `strings.Trim` of square brackets. -/
def trimBrackets (s : GoString) : GoString :=
  (s.dropWhile (fun b => b = 91 || b = 93)).rdropWhile fun b => b = 91 || b = 93

/-- The host without its port. -/
def remoteHost (address : GoString) : GoString :=
  match splitHostPort address with
  | some (host, _) => host
  | none => trimBrackets (trimSpace address)

/-- The address of a host, unmapped. -/
def parseAddress (value : GoString) : Option Addr :=
  (parseAddr (trimSpace (remoteHost value))).map Addr.unmap

/-- The address lies in one of the prefixes. -/
def containsPrefix (prefixes : List Prefix) (address : Addr) : Bool :=
  prefixes.any (·.contains address)

/-- The trusted proxies that `Provision` compiles. -/
def compileTrustedProxies (p : WAFPolicy) : Option (List Prefix) :=
  if p.trustedProxyChain then p.trustedProxies.mapM parsePrefix else some []

/-- The entries of the `X-Forwarded-For` chain, over all lines of the header. -/
def forwardedChain (r : Request) : List GoString :=
  (join (r.header.values (lit "X-Forwarded-For")) (lit ",")).splitOn 44

/-- The loop of `clientIP`; the entries come from the right. -/
def walkChain (trustedProxies : List Prefix) (direct : Addr) : Addr → List GoString → Addr
  | current, [] => current
  | _, entry :: rest =>
    match parseAddress entry with
    | none => direct
    | some candidate =>
      if containsPrefix trustedProxies candidate then
        walkChain trustedProxies direct candidate rest
      else candidate

/-- The peer, or the first entry from the right that is no proxy. -/
def clientIP (p : WAFPolicy) (trustedProxies : List Prefix) (r : Request) : GoString :=
  match parseAddress r.remoteAddr with
  | none => remoteHost r.remoteAddr
  | some direct =>
    if !p.trustedProxyChain ∨ !containsPrefix trustedProxies direct then direct.string
    else (walkChain trustedProxies direct direct (forwardedChain r).reverse).string

/-- The peer of a request: its address, or a text that is none. -/
def peer (r : Request) : Addr ⊕ GoString :=
  match parseAddress r.remoteAddr with
  | some direct => .inl direct
  | none => .inr (remoteHost r.remoteAddr)

def peerText : Addr ⊕ GoString → GoString
  | .inl direct => direct.string
  | .inr text => text

/-- A policy trusts the addresses in its proxies' prefixes, if it looks at chains
at all. -/
def Trusts (p : WAFPolicy) (a : Addr) : Prop :=
  p.trustedProxyChain ∧ ∃ t ∈ p.trustedProxies, ∃ q, parsePrefix t = some q ∧ q.contains a

variable {proxies : List Prefix} {p : WAFPolicy}

/-- **An untrusted address ends the walk**, whatever stands to its left. -/
theorem walkChain_append {entry : GoString} {a : Addr} (hentry : parseAddress entry = some a)
    (ha : ¬ containsPrefix proxies a) (direct current : Addr) (right left₁ left₂ : List GoString) :
    walkChain proxies direct current (right ++ entry :: left₁) =
      walkChain proxies direct current (right ++ entry :: left₂) := by
  induction right generalizing current with
  | nil => simp [walkChain, hentry, ha]
  | cons e right ih =>
    simp only [cons_append, walkChain]
    cases parseAddress e with
    | none => rfl
    | some candidate =>
      simp only
      rw [ih]

theorem mapM_parsePrefix {texts : List GoString} (h : ∀ t ∈ texts, (parsePrefix t).isSome) :
    ∃ prefixes, texts.mapM parsePrefix = some prefixes ∧
      ∀ a, containsPrefix prefixes a ↔ ∃ t ∈ texts, ∃ q, parsePrefix t = some q ∧ q.contains a := by
  induction texts with
  | nil => exact ⟨[], rfl, by simp [containsPrefix]⟩
  | cons t texts ih =>
    obtain ⟨prefixes, hmap, hcontains⟩ := ih fun t ht => h t (mem_cons_of_mem _ ht)
    obtain ⟨q, hparse⟩ := Option.isSome_iff_exists.mp (h t mem_cons_self)
    refine ⟨q :: prefixes, ?_, fun a => ?_⟩
    · simp [mapM_cons, hparse, hmap]
    · have htail := hcontains a
      simp only [containsPrefix] at htail
      simp only [containsPrefix, any_cons, Bool.or_eq_true, htail, exists_mem_cons_iff,
        hparse, Option.some.injEq, exists_eq_left']

/-- Validated prefixes are compiled. -/
theorem compileTrustedProxies_of_wellFormed (h : WellFormed p) :
    ∃ proxies, compileTrustedProxies p = some proxies ∧
      ∀ a, p.trustedProxyChain ∧ containsPrefix proxies a ↔ Trusts p a := by
  unfold compileTrustedProxies Trusts
  by_cases hchain : p.trustedProxyChain
  · rw [if_pos hchain]
    obtain ⟨prefixes, hmap, hcontains⟩ := mapM_parsePrefix fun t ht => by
      obtain ⟨q, hq, -, rfl⟩ := h.proxies t ht
      rw [parsePrefix_string q hq, Option.isSome_some]
    exact ⟨prefixes, hmap, fun a => and_congr_right fun _ => hcontains a⟩
  · rw [if_neg hchain]
    exact ⟨[], rfl, fun a => by simp [hchain]⟩

/-- Without a trusted peer the entries do not count. -/
theorem clientIP_untrusted {r : Request}
    (h : ∀ direct, parseAddress r.remoteAddr = some direct →
      ¬ (p.trustedProxyChain ∧ containsPrefix proxies direct)) :
    clientIP p proxies r = peerText (peer r) := by
  unfold clientIP peer
  cases hdirect : parseAddress r.remoteAddr with
  | none => rfl
  | some direct =>
    have hnot := h direct hdirect
    simp only
    have hoff : !p.trustedProxyChain ∨ !containsPrefix proxies direct := by
      rw [not_and_or] at hnot
      simpa using hnot
    rw [if_pos hoff]
    rfl

theorem clientIP_congr {r₁ r₂ : Request} (hpeer : peer r₁ = peer r₂)
    {left₁ left₂ right : List GoString} {entry : GoString} {a : Addr}
    (h₁ : forwardedChain r₁ = left₁ ++ entry :: right)
    (h₂ : forwardedChain r₂ = left₂ ++ entry :: right) (hentry : parseAddress entry = some a)
    (ha : ¬ (p.trustedProxyChain ∧ containsPrefix proxies a)) :
    clientIP p proxies r₁ = clientIP p proxies r₂ := by
  unfold peer at hpeer
  unfold clientIP
  cases hd₁ : parseAddress r₁.remoteAddr with
  | none =>
    cases hd₂ : parseAddress r₂.remoteAddr with
    | none => simpa [hd₁, hd₂] using hpeer
    | some d₂ => simp [hd₁, hd₂] at hpeer
  | some d₁ =>
    cases hd₂ : parseAddress r₂.remoteAddr with
    | none => simp [hd₁, hd₂] at hpeer
    | some d₂ =>
      obtain rfl : d₁ = d₂ := by simpa [hd₁, hd₂] using hpeer
      simp only
      by_cases hoff : !p.trustedProxyChain ∨ !containsPrefix proxies d₁
      · rw [if_pos hoff, if_pos hoff]
      · have hchain : p.trustedProxyChain := by
          rw [not_or] at hoff
          simpa using hoff.1
        rw [if_neg hoff, if_neg hoff, h₁, h₂, reverse_append, reverse_append,
          reverse_cons, append_assoc, append_assoc]
        exact congrArg Addr.string
          (walkChain_append hentry (fun hc => ha ⟨hchain, hc⟩) _ _ _ _ _)

/-- **The client address of a request.**  The trusted proxies of an accepted
policy can be compiled, and then: two requests of one peer whose chains agree
from an untrusted address on to the right have one client address, whatever
stands to the left of it; and if the peer is not trusted, the client address is
the peer's, whatever the chain. -/
theorem clientIP_ignores_left_of_untrusted (lib : Library) (q p : WAFPolicy)
    (h : normalizeAndValidate lib q = .ok p) :
    ∃ proxies, compileTrustedProxies p = some proxies ∧
      (∀ r₁ r₂ left₁ left₂ entry right a, peer r₁ = peer r₂ →
        forwardedChain r₁ = left₁ ++ entry :: right → forwardedChain r₂ = left₂ ++ entry :: right →
        parseAddress entry = some a → ¬ Trusts p a →
        clientIP p proxies r₁ = clientIP p proxies r₂) ∧
      ∀ r, (∀ direct, peer r = .inl direct → ¬ Trusts p direct) →
        clientIP p proxies r = peerText (peer r) := by
  obtain ⟨proxies, hcompile, htrusts⟩ :=
    compileTrustedProxies_of_wellFormed (normalizeAndValidate_wellFormed h)
  refine ⟨proxies, hcompile, ?_, ?_⟩
  · intro r₁ r₂ left₁ left₂ entry right a hpeer h₁ h₂ hentry ha
    exact clientIP_congr hpeer h₁ h₂ hentry fun hc => ha ((htrusts a).mp hc)
  · intro r hr
    apply clientIP_untrusted
    intro direct hdirect hc
    exact hr direct (by simp [peer, hdirect]) ((htrusts direct).mp hc)

/-- A request through one proxy, with an `X-Forwarded-For` line. -/
def forwardedRequest (line : GoString) : Request where
  remoteAddr := lit "10.0.0.1:4711"
  method := lit "GET"
  host := lit "example.test"
  path := lit "/"
  rawQuery := []
  requestURI := lit "/"
  header := ⟨[(lit "X-Forwarded-For", [line])], by simp⟩
  cookies := []
  body := none

theorem peer_forwardedRequest (line line' : GoString) :
    peer (forwardedRequest line) = peer (forwardedRequest line') := by
  simp only [peer, forwardedRequest]

theorem clientIP_forged_entry :
    let lib : Library := ⟨id, id, fun _ => true, fun _ => .ok some, fun _ => none, id⟩
    let q : WAFPolicy := ⟨true, true, [lit "10.0.0.0/8"], some [], 0, [], []⟩
    ∃ p proxies, normalizeAndValidate lib q = .ok p ∧ compileTrustedProxies p = some proxies ∧
      clientIP p proxies (forwardedRequest (lit "6.6.6.6, 1.2.3.4, 10.0.0.7")) =
        clientIP p proxies (forwardedRequest (lit "no address, 1.2.3.4, 10.0.0.7")) := by
  intro lib q
  let p : WAFPolicy := ⟨true, true, [lit "10.0.0.0/8"], some [], 65536, lit "PARTIAL", []⟩
  have hvalid : normalizeAndValidate lib q = .ok p := by decide +kernel
  obtain ⟨proxies, hcompile, hleft, -⟩ := clientIP_ignores_left_of_untrusted lib q p hvalid
  refine ⟨p, proxies, hvalid, hcompile, ?_⟩
  refine hleft _ _ [lit "6.6.6.6"] [lit "no address"] (lit " 1.2.3.4") [lit " 10.0.0.7"]
    (.v4 16909060) (peer_forwardedRequest _ _) (by decide +kernel) (by decide +kernel)
    (by decide +kernel) ?_
  rintro ⟨-, t, ht, x, hx, hcontains⟩
  have hnone : (parsePrefix (lit "10.0.0.0/8")).any (·.contains (.v4 16909060)) = false := by
    decide +kernel
  rw [mem_singleton.mp ht] at hx
  rw [hx] at hnone
  simp only [Option.any_some] at hnone
  rw [hnone] at hcontains
  exact Bool.false_ne_true hcontains

end WafRequests
