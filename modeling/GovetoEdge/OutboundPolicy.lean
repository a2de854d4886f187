import GovetoEdge.WafRequests

/-!
# Outbound connections

Users configure destinations that the control plane connects to.  A policy
resolves a destination and checks every address right before it connects, so that
only public addresses are reached, and private ones that an operator allows.

`netip.Addr` methods are modelled as the library has them: a prefix contains no
address with a zone, and `::` with a zone is not the unspecified address.  The
resolver, the answer of a connection attempt and the parts of a URL are arguments;
so are the addresses that the HTTP transport dials, and whether it dials at all.

* `Policy.Permits` says which addresses may be connected to;
* `dialed_permitted`: these are the addresses that chains of requests connect to,
  as long as no resolved address with a zone is forbidden without its zone;
* `zoned_address_dialed` are addresses with a zone that are not checked.
-/

namespace OutboundPolicy

open GoStrings NetAddresses List

def isLoopback (a : Addr) : Bool :=
  match a.unmap with
  | .v4 value => value.val / 2 ^ 24 = 127
  | .v6 value _ => value.val = 1

def isMulticast (a : Addr) : Bool :=
  match a.unmap with
  | .v4 value => value.val / 2 ^ 28 = 0xE
  | .v6 value _ => value.val / 2 ^ 120 = 0xFF

def isLinkLocalUnicast (a : Addr) : Bool :=
  match a.unmap with
  | .v4 value => value.val / 2 ^ 16 = 0xA9FE
  | .v6 value _ => value.val / 2 ^ 118 = 0x3FA

/-- `Addr.IsGlobalUnicast`; the comparison with `::` is one with its zone. -/
def isGlobalUnicast (a : Addr) : Bool :=
  !(match a with
    | .v4 value => value.val = 0 || value.val = 2 ^ 32 - 1
    | .v6 value zone => value.val = 0 && zone = []) &&
  !isLoopback a && !isMulticast a && !isLinkLocalUnicast a

def blockedTexts : List GoString :=
  ["0.0.0.0/8", "10.0.0.0/8", "100.64.0.0/10", "127.0.0.0/8", "169.254.0.0/16", "172.16.0.0/12",
    "192.0.0.0/24", "192.0.2.0/24", "192.88.99.0/24", "192.168.0.0/16", "198.18.0.0/15",
    "198.51.100.0/24", "203.0.113.0/24", "224.0.0.0/4", "240.0.0.0/4", "::/128", "::1/128",
    "64:ff9b:1::/48", "100::/64", "2001::/23", "2001:db8::/32", "2002::/16", "fc00::/7",
    "fe80::/10", "ff00::/8"].map lit

/-- The networks no request goes to. -/
def blockedPrefixes : List Prefix := blockedTexts.filterMap parsePrefix

/-- `MustParsePrefix` does not panic. -/
example : blockedTexts.all fun text => (parsePrefix text).isSome := by decide +kernel

/-- The private networks that are allowed. -/
structure Policy where
  privateAllowlist : List Prefix

/-- `IsPublicAddress`; `none` is the zero address. -/
def isPublicAddress : Option Addr → Bool
  | none => false
  | some a => isGlobalUnicast a.unmap && !blockedPrefixes.any (·.contains a.unmap)

/-- `allows`. -/
def Policy.allows (p : Policy) : Option Addr → Bool
  | none => false
  | some a =>
    isGlobalUnicast a.unmap &&
      (isPublicAddress (some a.unmap) || p.privateAllowlist.any (·.contains a.unmap))

/-- **Which addresses may be connected to**: without its zone and unwrapped, an
address is global unicast, and outside of the blocked ranges or in the
allowlist. -/
def Policy.Permits (p : Policy) (a : Addr) : Prop :=
  isGlobalUnicast a.withoutZone.unmap = true ∧
    ((∀ q ∈ blockedPrefixes, q.contains a.withoutZone.unmap = false) ∨
      ∃ q ∈ p.privateAllowlist, q.contains a.withoutZone.unmap = true)

instance (p : Policy) (a : Addr) : Decidable (p.Permits a) := by
  unfold Policy.Permits
  infer_instance

/-- Why a request is not made. -/
inductive Error
  /-- `parse destination address` -/
  | parseAddress
  /-- `resolve destination host` -/
  | resolve (err : GoString)
  /-- `destination host has no addresses` -/
  | noAddresses
  /-- `destination resolves to a non-public address` -/
  | nonPublic
  /-- `connect to destination` -/
  | connect (failures : List GoString)
  /-- `destination URL must include a host` -/
  | urlHost
  /-- `destination URL must not include credentials` -/
  | credentials
  /-- `destination URL scheme is not allowed` -/
  | scheme (scheme : GoString)
  /-- `destination host is required` -/
  | hostRequired

/-- `LookupNetIP` for `ip`. -/
abbrev Resolver := GoString → Except GoString (List (Option Addr))

/-- An attempt to connect to an address and a port. -/
abbrev Dialer := Addr → GoString → Except GoString Unit

/-- `lookup`. -/
def lookup (resolver : Resolver) (host : GoString) : Except Error (List (Option Addr)) :=
  match parseAddr host with
  | some a => .ok [some a.unmap]
  | none =>
    match resolver host with
    | .error err => .error (.resolve err)
    | .ok [] => .error .noAddresses
    | .ok addresses => .ok (addresses.map fun a => a.map Addr.unmap)

/-- `ValidateHost`. -/
def Policy.validateHost (p : Policy) (resolver : Resolver) (host : GoString) : Except Error Unit :=
  let host := trimSpace (if host.getLast? = some 46 then host.dropLast else host)
  if host = [] then .error .hostRequired
  else
    match lookup resolver host with
    | .error err => .error err
    | .ok addresses => if addresses.all p.allows then .ok () else .error .nonPublic

/-- What `url.URL` says of a destination. -/
structure Url where
  scheme : GoString
  /-- there is user information -/
  user : Bool
  host : GoString
  hostname : GoString

/-- `ValidateURL`. -/
def Policy.validateURL (p : Policy) (resolver : Resolver) (target : Option Url)
    (schemes : List GoString) : Except Error Unit :=
  match target with
  | none => .error .urlHost
  | some target =>
    if target.host = [] ∨ target.hostname = [] then .error .urlHost
    else if target.user then .error .credentials
    else if !schemes.any (equalFold target.scheme) then .error (.scheme target.scheme)
    else p.validateHost resolver target.hostname

/-- The loop over the checked candidates: the addresses that were tried, and the
one that is connected to. -/
def connectFirst (dialer : Dialer) (port : GoString) :
    List Addr → List GoString → List Addr × Except Error Addr
  | [], failures => ([], .error (.connect failures))
  | candidate :: rest, failures =>
    match dialer candidate port with
    | .ok () => ([candidate], .ok candidate)
    | .error err =>
      let (tried, result) := connectFirst dialer port rest (failures ++ [err])
      (candidate :: tried, result)

/-- `DialContext`, with the addresses it tries to connect to. -/
def Policy.dialContext (p : Policy) (resolver : Resolver) (dialer : Dialer) (address : GoString) :
    List Addr × Except Error Addr :=
  match WafRequests.splitHostPort address with
  | none => ([], .error .parseAddress)
  | some (host, port) =>
    match lookup resolver host with
    | .error err => ([], .error err)
    | .ok addresses =>
      if addresses.all p.allows then connectFirst dialer port (addresses.filterMap id) []
      else ([], .error .nonPublic)

/-- Redirects that are followed. -/
def maxRedirects : Nat := 5

/-- A request of a client: the resolver may answer differently when a redirect is
checked and when it is dialed. -/
structure Hop where
  target : Option Url
  /-- what the transport dials -/
  address : GoString
  /-- an idle connection is used -/
  reused : Bool
  validation : Resolver
  resolver : Resolver
  dialer : Dialer

/-- `CheckRedirect`, for a request that follows others. -/
def Policy.redirects (p : Policy) (schemes : List GoString) (via : Nat) (hop : Hop) : Bool :=
  via < maxRedirects && (p.validateURL hop.validation hop.target schemes).isOk

/-- The addresses that a client tries to connect to, as it follows redirects. -/
def Policy.follow (p : Policy) (schemes : List GoString) : Nat → List Hop → List Addr
  | _, [] => []
  | via, hop :: rest =>
    if via ≠ 0 ∧ !p.redirects schemes via hop then []
    else if hop.reused then p.follow schemes (via + 1) rest
    else
      let (tried, result) := p.dialContext hop.resolver hop.dialer hop.address
      tried ++ if result.isOk then p.follow schemes (via + 1) rest else []

/-- What an address resolves to, if it does. -/
def resolved (resolver : Resolver) (address : GoString) : List (Option Addr) :=
  match WafRequests.splitHostPort address with
  | none => []
  | some (host, _) => (lookup resolver host).toOption.getD []

/-- Addresses with a zone are permitted without it, unless the destination is
refused anyway. -/
def Policy.ZonesPermitted (p : Policy) (resolver : Resolver) (address : GoString) : Prop :=
  (∃ a ∈ resolved resolver address, p.allows a = false) ∨
    ∀ a, some a ∈ resolved resolver address → a.zone ≠ [] → p.Permits a

variable {p : Policy}

variable {a : Addr} {dialer : Dialer} {address : GoString} {resolver : Resolver}

theorem withoutZone_of_zoneless (h : a.zone = []) : a.withoutZone = a := by
  cases a with
  | v4 value => rfl
  | v6 value zone =>
    subst h
    rfl

theorem unmap_unmap (a : Addr) : a.unmap.unmap = a.unmap :=
  unmap_of_not_is4In6 (unmap_not_is4In6 a)

/-- Without a zone, the check is what it is for. -/
theorem permits_of_allows (hallows : p.allows (some a) = true) (hzone : a.zone = []) :
    p.Permits a := by
  simp only [Policy.allows, isPublicAddress, unmap_unmap, Bool.and_eq_true, Bool.or_eq_true,
    Bool.not_eq_true', any_eq_false, any_eq_true] at hallows
  obtain ⟨hglobal, hranges⟩ := hallows
  unfold Policy.Permits
  rw [withoutZone_of_zoneless hzone]
  refine ⟨hglobal, ?_⟩
  rcases hranges with ⟨_, hblocked⟩ | hallowed
  · left
    intro q hq
    simpa using hblocked q hq
  · exact .inr hallowed

/-- Only candidates are dialed. -/
theorem mem_of_connectFirst {port : GoString} {candidates : List Addr} {failures : List GoString}
    (h : a ∈ (connectFirst dialer port candidates failures).1) : a ∈ candidates := by
  induction candidates generalizing failures with
  | nil => exact h
  | cons candidate rest ih =>
    simp only [connectFirst] at h
    split at h
    · exact mem_cons.mpr (.inl (mem_singleton.mp h))
    · rcases mem_cons.mp h with rfl | h
      · exact mem_cons_self
      · exact mem_cons_of_mem _ (ih h)

/-- Where no attempt succeeds, all candidates are tried. -/
theorem connectFirst_refused {port : GoString} (hrefused : ∀ a, (dialer a port).isOk = false)
    (candidates : List Addr) (failures : List GoString) :
    (connectFirst dialer port candidates failures).1 = candidates := by
  induction candidates generalizing failures with
  | nil => rfl
  | cons candidate rest ih =>
    have hno := hrefused candidate
    simp only [connectFirst]
    split
    · next hok => simp [hok, Except.isOk, Except.toBool] at hno
    · simp only [ih]

/-- What is tried was resolved, and everything that was resolved is allowed. -/
theorem dialContext_tried (h : a ∈ (p.dialContext resolver dialer address).1) :
    some a ∈ resolved resolver address ∧
      ∀ b ∈ resolved resolver address, p.allows b = true := by
  unfold Policy.dialContext at h
  unfold resolved
  split at h
  · cases h
  · next host port hsplit =>
    split at h
    · cases h
    · next addresses hlookup =>
      split at h
      · next hall =>
        have hmem := mem_of_connectFirst h
        simp only [mem_filterMap, id, exists_eq_right] at hmem
        simp only [hlookup, Except.toOption, Option.getD_some]
        exact ⟨hmem, all_eq_true.mp hall⟩
      · cases h

/-- **Only permitted addresses are.** -/
theorem dialContext_permits (hzones : p.ZonesPermitted resolver address)
    (h : a ∈ (p.dialContext resolver dialer address).1) : p.Permits a := by
  obtain ⟨hmem, hall⟩ := dialContext_tried h
  rcases hzones with ⟨b, hb, hrefused⟩ | hzones
  · rw [hall b hb] at hrefused
    cases hrefused
  · by_cases hzone : a.zone = []
    · exact permits_of_allows (hall _ hmem) hzone
    · exact hzones a hmem hzone

/-- A forbidden address with a zone is tried by a dialer that does not get to
another one. -/
theorem dialContext_forbidden (hzones : ¬ p.ZonesPermitted resolver address) :
    ∃ (dialer : Dialer), ∃ a ∈ (p.dialContext resolver dialer address).1, ¬ p.Permits a := by
  simp only [Policy.ZonesPermitted, not_or, not_exists, not_and, Bool.not_eq_false] at hzones
  obtain ⟨hall, hzoned⟩ := hzones
  push Not at hzoned
  obtain ⟨a, hmem, _, hforbidden⟩ := hzoned
  refine ⟨fun _ _ => .error [], a, ?_, hforbidden⟩
  unfold Policy.dialContext
  unfold resolved at hmem hall
  split
  · next hsplit => simp [hsplit] at hmem
  · next host port hsplit =>
    simp only [hsplit] at hmem hall
    split
    · next hlookup => simp [hlookup, Except.toOption] at hmem
    · next addresses hlookup =>
      simp only [hlookup, Except.toOption, Option.getD_some] at hmem hall
      rw [if_pos (all_eq_true.mpr hall), connectFirst_refused fun _ => rfl]
      simpa using hmem

/-- **Chains of requests connect to permitted addresses**, for every policy and all
answers of resolvers, if addresses with a zone are permitted without it; and if
they are not, then there is a connection attempt to a forbidden address. -/
theorem dialed_permitted (p : Policy) :
    (∀ (schemes : List GoString) (via : Nat) (hops : List Hop),
      (∀ hop ∈ hops, p.ZonesPermitted hop.resolver hop.address) →
        ∀ a ∈ p.follow schemes via hops, p.Permits a) ∧
    ∀ (resolver : Resolver) (address : GoString), ¬ p.ZonesPermitted resolver address →
      ∃ (dialer : Dialer), ∃ a ∈ (p.dialContext resolver dialer address).1, ¬ p.Permits a := by
  constructor
  · intro schemes via hops
    induction hops generalizing via with
    | nil =>
      intro _ a h
      cases h
    | cons hop rest ih =>
      intro hzones a h
      have hrest : ∀ a ∈ p.follow schemes (via + 1) rest, p.Permits a :=
        ih (via + 1) fun hop' hmem => hzones hop' (mem_cons_of_mem _ hmem)
      simp only [Policy.follow] at h
      split at h
      · cases h
      · split at h
        · exact hrest a h
        · rcases mem_append.mp h with h | h
          · exact dialContext_permits (hzones hop mem_cons_self) h
          · split at h
            · exact hrest a h
            · cases h
  · intro resolver address hzones
    exact dialContext_forbidden hzones

/-- A name server that knows one name. -/
def oneName : Resolver := fun _ =>
  .ok [parseAddr (lit "::ffff:93.184.216.34"), parseAddr (lit "2606:2800:220:1::1")]

/-- A redirect to another name, whose first address does not answer. -/
def redirected : List Hop :=
  let dialer : Dialer := fun a _ => if a.is4 then .error (lit "refused") else .ok ()
  let target : Option Url := some ⟨lit "https", false, lit "b.example", lit "b.example"⟩
  [⟨target, lit "a.example:443", false, oneName, oneName, dialer⟩,
    ⟨target, lit "b.example:443", false, oneName, oneName, dialer⟩]

theorem dialed_permitted_redirected :
    ((Policy.follow ⟨[]⟩ [lit "https"] 0 redirected).map Addr.string =
      [lit "93.184.216.34", lit "2606:2800:220:1::1", lit "93.184.216.34",
        lit "2606:2800:220:1::1"]) ∧
    ∀ a ∈ Policy.follow ⟨[]⟩ [lit "https"] 0 redirected, Policy.Permits ⟨[]⟩ a := by
  refine ⟨by decide +kernel, (dialed_permitted ⟨[]⟩).1 _ 0 redirected ?_⟩
  intro hop hmem
  right
  have hzoneless : ∀ hop ∈ redirected, ∀ a ∈ resolved hop.resolver hop.address,
      a.all fun a => a.zone = [] := by
    decide +kernel
  intro a ha hzone
  exact absurd (by simpa using hzoneless hop hmem _ ha) hzone

/-- A unique local address and the unspecified one are connected to if they have a
zone. -/
theorem zoned_address_dialed :
    (∃ a, (Policy.dialContext ⟨[]⟩ (fun _ => .error []) (fun _ _ => .ok ())
        (lit "[fd12::1%eth0]:443")).2.toOption = some a ∧ ¬ Policy.Permits ⟨[]⟩ a) ∧
    ∃ a, (Policy.dialContext ⟨[]⟩ (fun _ => .error []) (fun _ _ => .ok ())
        (lit "[::%lo]:80")).2.toOption = some a ∧ ¬ Policy.Permits ⟨[]⟩ a := by
  have hdialed : ∀ address ∈ [lit "[fd12::1%eth0]:443", lit "[::%lo]:80"],
      (Policy.dialContext ⟨[]⟩ (fun _ => .error []) (fun _ _ => .ok ()) address).2.toOption.any
        fun a => ¬ Policy.Permits ⟨[]⟩ a := by
    decide +kernel
  constructor
  · obtain ⟨a, ha, hforbidden⟩ := (Option.any_eq_true _ _).mp
      (hdialed (lit "[fd12::1%eth0]:443") (by simp))
    exact ⟨a, ha, of_decide_eq_true hforbidden⟩
  · obtain ⟨a, ha, hforbidden⟩ := (Option.any_eq_true _ _).mp
      (hdialed (lit "[::%lo]:80") (by simp))
    exact ⟨a, ha, of_decide_eq_true hforbidden⟩

end OutboundPolicy
