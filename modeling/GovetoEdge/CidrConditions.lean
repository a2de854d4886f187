import GovetoEdge.WafRequests

/-!
# Conditions on the client address

A condition with the operator `CIDR` lists prefixes.  Validation only checks that
they can be read; `matchValue` asks whether one of them contains the client
address, which is never an IPv4 address in IPv6 form.  `Lies` is the containment
that treats an IPv4 address and its IPv6 form as one, over numbers of 128 bits.

* `contains_iff`: `Contains` is `Lies` within one family, for addresses without
  zone;
* `cidr_matches_iff`: when a condition matches exactly the addresses that lie in
  one of its prefixes.
-/

namespace CidrConditions

open GoStrings NetAddresses WafPolicies WafRequests List Fallible

variable (lib : Library)

/-- `compiledCondition`. -/
structure CompiledCondition where
  condition : WAFCondition
  regex : Option (GoString → Option GoString)
  cidrs : List Prefix

/-- A pattern or prefixes are compiled. -/
def compileCondition (c : WAFCondition) : Option CompiledCondition := do
  let regex ←
    if c.operator = lit "REGEX" then (lib.regexp (conditionPattern c)).toOption.map some
    else some none
  let cidrs ← if c.operator = lit "CIDR" then c.values.mapM parsePrefix else some []
  some ⟨c, regex, cidrs⟩

/-- The condition holds of a value. -/
def matchValue (r : CompiledCondition) (actual : GoString) : Bool :=
  let c := r.condition
  let fold (s : GoString) := if c.caseSensitive then s else Utf8.toLower lib.lowerRune s
  if c.operator = lit "EXISTS" then fold actual ≠ []
  else if c.operator = lit "EQUALS" then fold actual = fold c.value
  else if c.operator = lit "CONTAINS" then decide (fold c.value <:+: fold actual)
  else if c.operator = lit "PREFIX" then (fold c.value).isPrefixOf (fold actual)
  else if c.operator = lit "SUFFIX" then (fold c.value).isSuffixOf (fold actual)
  else if c.operator = lit "REGEX" then r.regex.any fun regex => (regex actual).isSome
  else if c.operator = lit "IN" then c.values.any fun candidate => fold actual = fold candidate
  else if c.operator = lit "CIDR" then (parseAddr actual).any (containsPrefix r.cidrs)
  else false

/-- The number of an address among those of 128 bits. -/
def common : Addr → Nat
  | .v4 value => 0xFFFF * 2 ^ 32 + value
  | .v6 value _ => value

/-- The address lies in the prefix, where IPv4 addresses are those in IPv6 form. -/
def Lies (p : Prefix) (a : Addr) : Prop :=
  common a / 2 ^ (p.addr.bitLen - p.bits) = common p.addr / 2 ^ (p.addr.bitLen - p.bits)

instance (p : Prefix) (a : Addr) : Decidable (Lies p a) := inferInstanceAs (Decidable (_ = _))

/-- A prefix contains addresses of its family, without a zone. -/
theorem contains_iff (p : Prefix) (a : Addr) :
    p.contains a ↔ Lies p a ∧ p.addr.is4 = a.is4 ∧ a.zone = [] := by
  obtain ⟨b, bits, hbits, hzoneless⟩ := p
  simp only [Prefix.contains, Bool.and_eq_true, decide_eq_true_eq]
  cases a with
  | v4 n =>
    cases b with
    | v4 m =>
      have hshift : ∀ k : Nat, (0xFFFF * 2 ^ 32 + k) / 2 ^ (32 - bits) =
          0xFFFF * 2 ^ bits + k / 2 ^ (32 - bits) := by
        intro k
        -- the upper bits of the IPv6 form are the same for both
        have hpow : 2 ^ 32 = 2 ^ (32 - bits) * 2 ^ bits := by
          rw [← Nat.pow_add, Nat.sub_add_cancel (show bits ≤ 32 from hbits)]
        rw [hpow, Nat.mul_left_comm, Nat.mul_add_div (Nat.two_pow_pos _)]
      rw [Lies, common, common, show (Addr.v4 m).bitLen = 32 from rfl, hshift, hshift]
      simp [Addr.is4, Addr.zone, Addr.bitLen, Addr.number]
    | v6 m zone => simp [Addr.is4, Addr.bitLen]
  | v6 n zone =>
    cases b with
    | v4 m => simp [Addr.is4, Addr.bitLen]
    | v6 m zone' =>
      simp [Lies, common, Addr.is4, Addr.zone, Addr.bitLen, Addr.number, and_comm]

variable {lib}

/-- Normalizing keeps the operator. -/
theorem operator_normalizeOperand {d c : WAFCondition} {location : GoString}
    (h : normalizeOperand lib d location = .ok c) : c.operator = d.operator := by
  unfold normalizeOperand at h
  repeat' split at h
  all_goals cases h <;> rfl

/-- Prefixes are parsed one by one. -/
theorem compileCondition_cidr {c : WAFCondition} {cidrs : List Prefix}
    (hop : c.operator = lit "CIDR") (h : c.values.mapM parsePrefix = some cidrs) :
    compileCondition lib c = some ⟨c, none, cidrs⟩ := by
  simp [compileCondition, hop, h, lit]

/-- The prefixes of an accepted condition can be read. -/
theorem compileCondition_of_accepted {c₀ c : WAFCondition} {location : GoString}
    (h : normalizeWAFCondition lib c₀ location = .ok c) (hop : c.operator = lit "CIDR") :
    ∃ cidrs, compileCondition lib c = some ⟨c, none, cidrs⟩ ∧ ∀ a, containsPrefix cidrs a ↔
      ∃ t ∈ c.values, ∃ q, parsePrefix t = some q ∧ q.contains a := by
  obtain ⟨d, -, hoperand⟩ := exists_of_bind h
  have hd : d.operator = lit "CIDR" := (operator_normalizeOperand hoperand).symm.trans hop
  have hreads : ∀ t ∈ c.values, (parsePrefix t).isSome := by
    simp only [normalizeOperand, hd] at hoperand
    obtain ⟨-, hoperand⟩ := ok_of_guard hoperand
    split at hoperand
    · cases hoperand
    · next hnone =>
      cases hoperand
      intro t ht
      simpa [Option.isSome_iff_ne_none] using find?_eq_none.mp hnone t ht
  obtain ⟨cidrs, hmap, hcontains⟩ := mapM_parsePrefix hreads
  exact ⟨cidrs, compileCondition_cidr hop hmap, hcontains⟩

/-- **What a condition on the client address matches.**  For a validated
condition and a client address that was resolved, the condition matches exactly
when the address lies in one of the prefixes, if and only if an address that lies
in one lies in one of its own family and has no zone.  A prefix in IPv6 form never
matches an IPv4 client. -/
theorem cidr_matches_iff (lib : Library) (c₀ c : WAFCondition) (location : GoString)
    (h : normalizeWAFCondition lib c₀ location = .ok c) (hop : c.operator = lit "CIDR") :
    ∃ compiled, compileCondition lib c = some compiled ∧
      ∀ value a, parseAddress value = some a →
        ((matchValue lib compiled a.string ↔
            ∃ t ∈ c.values, ∃ p, parsePrefix t = some p ∧ Lies p a) ↔
          ((∃ t ∈ c.values, ∃ p, parsePrefix t = some p ∧ Lies p a) →
            ∃ t ∈ c.values, ∃ p, parsePrefix t = some p ∧ Lies p a ∧ p.addr.is4 = a.is4 ∧
              a.zone = [])) := by
  obtain ⟨cidrs, hcompile, hcontains⟩ := compileCondition_of_accepted h hop
  refine ⟨_, hcompile, fun value a ha => ?_⟩
  obtain ⟨b, -, rfl⟩ := Option.map_eq_some_iff.mp ha
  have hmatch : matchValue lib ⟨c, none, cidrs⟩ b.unmap.string ↔ ∃ t ∈ c.values, ∃ p,
      parsePrefix t = some p ∧ Lies p b.unmap ∧ p.addr.is4 = b.unmap.is4 ∧ b.unmap.zone = [] := by
    simp only [← contains_iff, ← hcontains]
    simp [matchValue, hop, parseAddr_string (unmap_not_is4In6 b), lit]
  rw [hmatch]
  constructor
  · exact fun hiff hlies => hiff.mpr hlies
  · refine fun himp => ⟨?_, himp⟩
    rintro ⟨t, ht, p, hp, hlies, -⟩
    exact ⟨t, ht, p, hp, hlies⟩

/-- A condition on the client address with one prefix. -/
def clientIn (text : String) : WAFCondition :=
  ⟨lit "c", lit "CLIENT_IP", [], lit "CIDR", [], [lit text], false, false⟩

def plainLibrary : Library := ⟨id, id, fun _ => true, fun _ => .ok some, fun _ => none, id⟩

theorem client_in_prefix :
    ∃ c compiled, normalizeWAFCondition plainLibrary (clientIn "10.0.0.0/8") [] = .ok c ∧
      compileCondition plainLibrary c = some compiled ∧
      matchValue plainLibrary compiled (lit "10.1.2.3") := by
  have hvalid : normalizeWAFCondition plainLibrary (clientIn "10.0.0.0/8") [] =
      .ok (clientIn "10.0.0.0/8") := by decide +kernel
  obtain ⟨compiled, hcompiled, hmatches⟩ := cidr_matches_iff _ _ _ _ hvalid rfl
  refine ⟨_, compiled, hvalid, hcompiled, ?_⟩
  have hlies : ∃ t ∈ (clientIn "10.0.0.0/8").values, ∃ q, parsePrefix t = some q ∧
      Lies q (.v4 167838211) ∧ q.addr.is4 = true ∧ (Addr.v4 167838211).zone = [] :=
    ⟨_, mem_singleton.mpr rfl, ⟨.v4 167772160, 8, by decide, rfl⟩, by decide +kernel,
      by decide +kernel, rfl, rfl⟩
  have hmatch := (hmatches (lit "10.1.2.3:443") (.v4 167838211) (by decide +kernel)).mpr
    fun _ => hlies
  obtain ⟨t, ht, q, hq, h, -⟩ := hlies
  exact hmatch.mpr ⟨t, ht, q, hq, h⟩

/-- **A prefix in IPv6 form misses the clients it covers.**  Validation accepts
`::ffff:10.0.0.0/104`, and the client `10.1.2.3` does not match it. -/
theorem mapped_prefix_missed :
    ∃ compiled q a,
      normalizeWAFCondition plainLibrary (clientIn "::ffff:10.0.0.0/104") [] =
        .ok (clientIn "::ffff:10.0.0.0/104") ∧
      compileCondition plainLibrary (clientIn "::ffff:10.0.0.0/104") = some compiled ∧
      parsePrefix (lit "::ffff:10.0.0.0/104") = some q ∧
      parseAddress (lit "10.1.2.3:443") = some a ∧ Lies q a ∧
      matchValue plainLibrary compiled a.string = false := by
  let q : Prefix := ⟨.v6 281470849515520 [], 104, by decide, rfl⟩
  have hq : parsePrefix (lit "::ffff:10.0.0.0/104") = some q := by decide +kernel
  refine ⟨⟨clientIn "::ffff:10.0.0.0/104", none, [q]⟩, q, .v4 167838211, by decide +kernel, ?_, hq,
    by decide +kernel, by decide +kernel, by decide +kernel⟩
  exact compileCondition_cidr rfl (by simp [clientIn, hq])

end CidrConditions
