import GovetoEdge.FieldFraming
import GovetoEdge.HttpHeaders
import GovetoEdge.QueryNormalization

/-!
# Cache keys

The key under which the cache handler files a response: a sequence of framed
fields for the configured parts of the request, followed by one block for each
selected header and cookie.

* `cacheKey_eq_encode`: the builder's text is the encoding of `keyFields`;
* `keyFields_eq_iff`: the fields of two requests agree exactly where the
  selected components do.
-/

namespace CacheKeys

open GoStrings Utf8 UrlEncoding HttpHeaders QueryNormalization FieldFraming List

/-- The configuration of the handler, as far as keys depend on it. -/
structure Handler where
  siteID : GoString
  keyNamespace : GoString
  keyParts : List GoString
  keyHeaders : List GoString
  keyQueryNormalize : Bool
  keyQueryInclude : List GoString
  keyQueryExclude : List GoString
  keyCookies : List GoString

/-- A cookie of a request. -/
structure Cookie where
  name : GoString
  value : GoString
deriving DecidableEq, Repr

/-- A request; `cookies` is what `request.Cookies()` parses. -/
structure Request where
  method : GoString
  url : Url
  tls : Bool
  host : GoString
  header : Header
  cookies : List Cookie

def cacheKeyPartMethod : GoString := lit "METHOD"
def cacheKeyPartScheme : GoString := lit "SCHEME"
def cacheKeyPartHost : GoString := lit "HOST"
def cacheKeyPartPath : GoString := lit "PATH"
def cacheKeyPartQuery : GoString := lit "QUERY"

def acceptEncoding : GoString := lit "Accept-Encoding"

/-- Of the URL, or by TLS. -/
def Request.scheme (r : Request) : GoString :=
  if r.url.scheme = [] then (if r.tls then lit "https" else lit "http") else r.url.scheme

/-- All values of a name. -/
def Request.cookieValues (r : Request) (name : GoString) : List GoString :=
  (r.cookies.filter (·.name = name)).map Cookie.value

/-- The query, normalized. -/
def Handler.query (lowerRune : Nat → Nat) (h : Handler) (r : Request) : GoString :=
  normalizeQuery lowerRune r.url.rawQuery h.keyQueryNormalize h.keyQueryInclude h.keyQueryExclude

/-- Name and value, each with its length. -/
def appendField (target name value : GoString) : GoString :=
  target ++ itoa name.length ++ [58] ++ name ++ itoa value.length ++ [58] ++ value

/-- The values and their number. -/
def appendValues (target : GoString) (values : List GoString) : GoString :=
  appendField (values.foldl (fun target value => appendField target (lit "value") value) target)
    (lit "count") (itoa values.length)

/-- A header with all its values. -/
def appendHeaderField (target name : GoString) (values : List GoString) : GoString :=
  appendValues (appendField target (lit "header") (canonicalHeaderKey name)) values

/-- One configured part; a part of another name adds nothing. -/
def appendPart (lowerRune : Nat → Nat) (h : Handler) (r : Request) (target part : GoString) :
    GoString :=
  if part = cacheKeyPartMethod then appendField target (lit "method") r.method
  else if part = cacheKeyPartScheme then appendField target (lit "scheme") r.scheme
  else if part = cacheKeyPartHost then appendField target (lit "host") (toLower lowerRune r.host)
  else if part = cacheKeyPartPath then appendField target (lit "path") r.url.escapedPath
  else if part = cacheKeyPartQuery then appendField target (lit "query") (h.query lowerRune r)
  else target

/-- The key: the site, the parts, headers and cookies. -/
def cacheKey (lowerRune : Nat → Nat) (h : Handler) (r : Request) (varied : Option Header) :
    GoString :=
  let key := appendField [] (lit "site") h.siteID
  let key :=
    if h.keyNamespace ≠ [] then appendField key (lit "origin-route") h.keyNamespace else key
  let key := h.keyParts.foldl (appendPart lowerRune h r) key
  let key :=
    match varied with
    | none =>
      h.keyHeaders.foldl (fun key name =>
        if !equalFold name acceptEncoding then
          appendHeaderField key name (r.header.values name)
        else key) key
    | some varied =>
      (insertionSort varied.names).foldl (fun key name =>
        appendHeaderField key name (varied.values name)) key
  h.keyCookies.foldl (fun key name =>
    appendValues (appendField key (lit "cookie") name) (r.cookieValues name)) key

/-- The names a comma-separated `Vary` value lists. -/
def varyNames (response : Header) : List GoString :=
  (response.values (lit "Vary")).flatMap fun value =>
    (value.splitOn 44).map fun name => canonicalHeaderKey (trimSpace name)

/-- The request's values of the configured headers and of those the response
varies on; `none` is a response that varies on everything. -/
def variedHeaders (h : Handler) (r : Request) (response : Header) : Option Header :=
  if lit "*" ∈ varyNames response then none
  else
    let names := (((h.keyHeaders.map fun name => canonicalHeaderKey (trimSpace name)) ++
      varyNames response).filter fun name => name ≠ [] ∧ !equalFold name acceptEncoding).dedup
    some
      { entries := names.map fun name => (name, r.header.values name)
        nodup := by
          rw [map_map]
          exact (map_id names).symm ▸ nodup_dedup _ }

/-- The field of a configured part. -/
def partField (lowerRune : Nat → Nat) (h : Handler) (r : Request) (part : GoString) :
    Option Field :=
  if part = cacheKeyPartMethod then some (lit "method", r.method)
  else if part = cacheKeyPartScheme then some (lit "scheme", r.scheme)
  else if part = cacheKeyPartHost then some (lit "host", toLower lowerRune r.host)
  else if part = cacheKeyPartPath then some (lit "path", r.url.escapedPath)
  else if part = cacheKeyPartQuery then some (lit "query", h.query lowerRune r)
  else none

/-- The fields of the site. -/
def siteFields (h : Handler) : List Field :=
  (lit "site", h.siteID) ::
    if h.keyNamespace ≠ [] then [(lit "origin-route", h.keyNamespace)] else []

/-- A selected header or cookie: its kind, its name and its values. -/
structure Block where
  kind : GoString
  name : GoString
  values : List GoString
deriving DecidableEq

/-- The fields of a header or a cookie. -/
def Block.fields (b : Block) : List Field :=
  (b.kind, b.name) ::
    (b.values.map (fun value => (lit "value", value)) ++
      [(lit "count", itoa b.values.length)])

/-- The headers of the key. -/
def headerBlocks (h : Handler) (r : Request) : Option Header → List Block
  | none =>
    (h.keyHeaders.filter fun name => !equalFold name acceptEncoding).map fun name =>
      ⟨lit "header", canonicalHeaderKey name, r.header.values name⟩
  | some varied =>
    (insertionSort varied.names).map fun name =>
      ⟨lit "header", canonicalHeaderKey name, varied.values name⟩

/-- The cookies of the key. -/
def cookieBlocks (h : Handler) (r : Request) : List Block :=
  h.keyCookies.map fun name => ⟨lit "cookie", name, r.cookieValues name⟩

/-- All fields of a key. -/
def keyFields (lowerRune : Nat → Nat) (h : Handler) (r : Request) (varied : Option Header) :
    List Field :=
  siteFields h ++ (h.keyParts.filterMap (partField lowerRune h r) ++
    (headerBlocks h r varied ++ cookieBlocks h r).flatMap Block.fields)

section Builder

variable (lowerRune : Nat → Nat) (h : Handler) (r : Request)

/-- A field is framed. -/
theorem appendField_eq (target name value : GoString) :
    appendField target name value = target ++ encode [(name, value)] := by
  simp [appendField, encode, frame]

/-- So are values. -/
theorem appendValues_eq (target : GoString) (values : List GoString) :
    appendValues target values =
      target ++ encode (values.map (fun value => (lit "value", value)) ++
        [(lit "count", itoa values.length)]) := by
  have hloop : ∀ target : GoString,
      values.foldl (fun target value => appendField target (lit "value") value) target =
        target ++ encode (values.map fun value => (lit "value", value)) := by
    induction values with
    | nil => simp [encode]
    | cons value values ih =>
      intro target
      rw [foldl_cons, ih, appendField_eq, map_cons, append_assoc,
        ← encode_append]
      rfl
  rw [appendValues, hloop, appendField_eq, append_assoc, encode_append]

/-- A block is a field with its kind and name, and its values. -/
theorem appendBlock_eq (target kind name : GoString) (values : List GoString) :
    appendValues (appendField target kind name) values =
      target ++ encode (Block.fields ⟨kind, name, values⟩) := by
  rw [appendValues_eq, appendField_eq, append_assoc, ← encode_append]
  rfl

/-- And a part of the key. -/
theorem appendPart_eq (target part : GoString) :
    appendPart lowerRune h r target part =
      target ++ encode (partField lowerRune h r part).toList := by
  unfold appendPart partField
  simp only [appendField_eq]
  split_ifs <;> simp [encode]

/-- A loop that appends the encoding of some fields for each element. -/
theorem foldl_append_encode {α : Type*} (f : GoString → α → GoString) (fields : α → List Field)
    (hf : ∀ key a, f key a = key ++ encode (fields a)) (as : List α) (key : GoString) :
    as.foldl f key = key ++ encode (as.flatMap fields) := by
  induction as generalizing key with
  | nil => simp [encode]
  | cons a as ih =>
    rw [foldl_cons, ih, hf, flatMap_cons, encode_append, append_assoc]

theorem flatMap_filter {α β : Type*} (p : α → Bool) (f : α → List β) (as : List α) :
    (as.filter p).flatMap f = as.flatMap fun a => if p a then f a else [] := by
  induction as with
  | nil => rfl
  | cons a as ih =>
    rw [filter_cons, flatMap_cons, ← ih]
    split <;> rfl

/-- **The key is the encoding of its fields.** -/
theorem cacheKey_eq_encode (varied : Option Header) :
    cacheKey lowerRune h r varied = encode (keyFields lowerRune h r varied) := by
  have hsite : (if h.keyNamespace ≠ [] then
      appendField (appendField [] (lit "site") h.siteID) (lit "origin-route") h.keyNamespace
      else appendField [] (lit "site") h.siteID) = encode (siteFields h) := by
    unfold siteFields
    split_ifs <;> simp [appendField_eq, encode]
  have hparts := foldl_append_encode (appendPart lowerRune h r)
    (fun part => (partField lowerRune h r part).toList) (appendPart_eq lowerRune h r) h.keyParts
  have hcookies := foldl_append_encode
    (fun key name => appendValues (appendField key (lit "cookie") name) (r.cookieValues name))
    (fun name => Block.fields ⟨lit "cookie", name, r.cookieValues name⟩)
    (fun key name => appendBlock_eq key _ name _) h.keyCookies
  unfold cacheKey keyFields
  simp only [hsite, hparts, hcookies, encode_append, flatMap_append, cookieBlocks,
    flatMap_map, ← filterMap_eq_flatMap_toList]
  cases varied with
  | none =>
    have hheaders := foldl_append_encode
      (fun key name => if !equalFold name acceptEncoding then
        appendHeaderField key name (r.header.values name) else key)
      (fun name => if !equalFold name acceptEncoding then
        Block.fields ⟨lit "header", canonicalHeaderKey name, r.header.values name⟩ else [])
      (by
        intro key name
        split_ifs
        · exact appendBlock_eq key _ _ _
        · simp [encode]) h.keyHeaders
    simp only [hheaders, headerBlocks, append_assoc, flatMap_map, flatMap_filter]
  | some varied =>
    have hheaders := foldl_append_encode
      (fun key name => appendHeaderField key name (varied.values name))
      (fun name => Block.fields ⟨lit "header", canonicalHeaderKey name, varied.values name⟩)
      (fun key name => appendBlock_eq key _ _ _) (insertionSort varied.names)
    simp only [hheaders, headerBlocks, flatMap_map, append_assoc]

end Builder

/-- Values end at the count, which has another name. -/
theorem values_append_inj {vs ws : List GoString} {c d : GoString} {as bs : List Field}
    (h : vs.map (fun value => (lit "value", value)) ++ (lit "count", c) :: as =
      ws.map (fun value => (lit "value", value)) ++ (lit "count", d) :: bs) :
    vs = ws ∧ as = bs := by
  have hname : lit "count" ≠ lit "value" := by decide
  induction vs generalizing ws with
  | nil =>
    cases ws with
    | nil => exact ⟨rfl, (List.cons.inj h).2⟩
    | cons w ws => exact absurd (Prod.ext_iff.mp (List.cons.inj h).1).1 hname
  | cons v vs ih =>
    cases ws with
    | nil => exact absurd (Prod.ext_iff.mp (List.cons.inj h).1).1.symm hname
    | cons w ws =>
      obtain ⟨hhead, htail⟩ := List.cons.inj h
      obtain ⟨hvalues, hrest⟩ := ih htail
      have hvalue : v = w := (Prod.ext_iff.mp hhead).2
      exact ⟨by rw [hvalue, hvalues], hrest⟩

/-- A block can be told from what follows. -/
theorem fields_append_inj {b c : Block} {as bs : List Field}
    (h : b.fields ++ as = c.fields ++ bs) : b = c ∧ as = bs := by
  simp only [Block.fields, cons_append, append_assoc, nil_append] at h
  obtain ⟨hhead, htail⟩ := List.cons.inj h
  obtain ⟨hkind, hname⟩ := Prod.ext_iff.mp hhead
  obtain ⟨hvalues, hrest⟩ := values_append_inj htail
  obtain ⟨kind, name, values⟩ := b
  obtain ⟨kind', name', values'⟩ := c
  exact ⟨by rw [Block.mk.injEq]; exact ⟨hkind, hname, hvalues⟩, hrest⟩

/-- **Blocks can be read back from their fields.** -/
theorem flatMap_fields_injective : Function.Injective (List.flatMap Block.fields) := by
  intro as bs h
  induction as generalizing bs with
  | nil =>
    cases bs with
    | nil => rfl
    | cons b bs => exact absurd h.symm (by simp [Block.fields])
  | cons a as ih =>
    cases bs with
    | nil => exact absurd h (by simp [Block.fields])
    | cons b bs =>
      rw [flatMap_cons, flatMap_cons] at h
      obtain ⟨hblock, hrest⟩ := fields_append_inj h
      rw [hblock, ih hrest]

/-- Of all fields of a key, only the one of its part is called like the
method. -/
theorem eq_method_of_mem_keyFields {lowerRune : Nat → Nat} {h : Handler} {r : Request}
    {varied : Option Header} {m : GoString}
    (hmem : (lit "method", m) ∈ keyFields lowerRune h r varied) : m = r.method := by
  have hsite : (lit "method", m) ∉ siteFields h := by
    unfold siteFields
    split_ifs <;> simp [lit]
  have hblock : ∀ b ∈ headerBlocks h r varied ++ cookieBlocks h r,
      (lit "method", m) ∉ b.fields := by
    intro b hb
    have hkind : b.kind = lit "header" ∨ b.kind = lit "cookie" := by
      unfold headerBlocks cookieBlocks at hb
      split at hb <;> simp only [mem_append, mem_map] at hb <;> grind
    rcases hkind with hkind | hkind <;> simp [Block.fields, hkind, lit]
  rw [keyFields, mem_append, mem_append] at hmem
  rcases hmem with hmem | hmem | hmem
  · exact absurd hmem hsite
  · obtain ⟨part, _, hpart⟩ := mem_filterMap.mp hmem
    unfold partField at hpart
    split_ifs at hpart
    · exact (Prod.ext_iff.mp (Option.some.inj hpart)).2.symm
    all_goals exact absurd hpart (by simp [lit])
  · obtain ⟨b, hb, hfield⟩ := mem_flatMap.mp hmem
    exact absurd hfield (hblock b hb)

/-- **A key with the method in it belongs to one method**, whatever else the
handlers that made it differ in. -/
theorem method_eq_of_cacheKey_eq {lowerRune : Nat → Nat} {h₁ h₂ : Handler} {r₁ r₂ : Request}
    {v₁ v₂ : Option Header} (hpart : cacheKeyPartMethod ∈ h₁.keyParts)
    (hkey : cacheKey lowerRune h₁ r₁ v₁ = cacheKey lowerRune h₂ r₂ v₂) :
    r₁.method = r₂.method := by
  rw [cacheKey_eq_encode, cacheKey_eq_encode] at hkey
  have hmem : (lit "method", r₁.method) ∈ keyFields lowerRune h₁ r₁ v₁ := by
    rw [keyFields, mem_append, mem_append]
    exact .inr (.inl (mem_filterMap.mpr ⟨cacheKeyPartMethod, hpart, rfl⟩))
  rw [encode_injective hkey] at hmem
  exact eq_method_of_mem_keyFields hmem

section Agreement

variable (lowerRune : Nat → Nat) (h : Handler) (r₁ r₂ : Request)

/-- The requests agree on the configured parts. -/
structure PartsAgree : Prop where
  method : cacheKeyPartMethod ∈ h.keyParts → r₁.method = r₂.method
  scheme : cacheKeyPartScheme ∈ h.keyParts → r₁.scheme = r₂.scheme
  host : cacheKeyPartHost ∈ h.keyParts → toLower lowerRune r₁.host = toLower lowerRune r₂.host
  path : cacheKeyPartPath ∈ h.keyParts → r₁.url.escapedPath = r₂.url.escapedPath
  query : cacheKeyPartQuery ∈ h.keyParts → h.query lowerRune r₁ = h.query lowerRune r₂

/-- The requests have the same values of every configured cookie. -/
def CookiesAgree : Prop := ∀ name ∈ h.keyCookies, r₁.cookieValues name = r₂.cookieValues name

/-- The requests have the same values of every configured header. -/
def HeadersAgree : Prop :=
  ∀ name ∈ h.keyHeaders, equalFold name acceptEncoding = false →
    r₁.header.values name = r₂.header.values name

/-- Resolved lists name the same headers, and the requests have the same
values of each. -/
def VariedAgree (v₁ v₂ : Header) : Prop :=
  (∀ name, name ∈ v₁.names ↔ name ∈ v₂.names) ∧
    ∀ name ∈ v₁.names, r₁.header.values name = r₂.header.values name

/-- Whether a part has a field does not depend on the request. -/
theorem partField_isSome (part : GoString) :
    (partField lowerRune h r₁ part).isSome = (partField lowerRune h r₂ part).isSome := by
  unfold partField
  split_ifs <;> rfl

theorem filterMap_eq_iff {α β : Type*} {f g : α → Option β} {as : List α}
    (hsome : ∀ a, (f a).isSome = (g a).isSome) :
    as.filterMap f = as.filterMap g ↔ ∀ a ∈ as, f a = g a := by
  induction as with
  | nil => simp
  | cons a as ih =>
    have ha := hsome a
    rw [forall_mem_cons, ← ih, filterMap_cons, filterMap_cons]
    cases hf : f a <;> cases hg : g a <;> simp_all

theorem filterMap_length_eq {α β : Type*} {f g : α → Option β} (as : List α)
    (hsome : ∀ a, (f a).isSome = (g a).isSome) :
    (as.filterMap f).length = (as.filterMap g).length := by
  rw [length_filterMap_eq_countP, length_filterMap_eq_countP]
  simp only [hsome]

/-- Fields of parts are equal if the parts agree. -/
theorem partField_eq_iff :
    (∀ part ∈ h.keyParts, partField lowerRune h r₁ part = partField lowerRune h r₂ part) ↔
      PartsAgree lowerRune h r₁ r₂ := by
  constructor
  · intro hparts
    constructor <;> intro hmem <;> have hpart := hparts _ hmem
    · exact (Prod.ext_iff.mp (Option.some.inj hpart)).2
    · exact (Prod.ext_iff.mp (Option.some.inj hpart)).2
    · exact (Prod.ext_iff.mp (Option.some.inj hpart)).2
    · exact (Prod.ext_iff.mp (Option.some.inj hpart)).2
    · exact (Prod.ext_iff.mp (Option.some.inj hpart)).2
  · intro hagree part hmem
    unfold partField
    split_ifs with h1 h2 h3 h4 h5
    · rw [hagree.method (h1 ▸ hmem)]
    · rw [hagree.scheme (h2 ▸ hmem)]
    · rw [hagree.host (h3 ▸ hmem)]
    · rw [hagree.path (h4 ▸ hmem)]
    · rw [hagree.query (h5 ▸ hmem)]
    · rfl

/-- So are those of cookies. -/
theorem cookieBlocks_eq_iff : cookieBlocks h r₁ = cookieBlocks h r₂ ↔ CookiesAgree h r₁ r₂ := by
  unfold cookieBlocks CookiesAgree
  rw [map_inj_left]
  simp

/-- **The fields agree where the parts, the header blocks and the cookies
do.** -/
theorem keyFields_eq_iff (v₁ v₂ : Option Header) :
    keyFields lowerRune h r₁ v₁ = keyFields lowerRune h r₂ v₂ ↔
      PartsAgree lowerRune h r₁ r₂ ∧ headerBlocks h r₁ v₁ = headerBlocks h r₂ v₂ ∧
        CookiesAgree h r₁ r₂ := by
  have hlength := filterMap_length_eq h.keyParts (partField_isSome lowerRune h r₁ r₂)
  have hcookies : (cookieBlocks h r₁).length = (cookieBlocks h r₂).length := by
    simp [cookieBlocks]
  rw [← partField_eq_iff, ← filterMap_eq_iff (partField_isSome lowerRune h r₁ r₂),
    ← cookieBlocks_eq_iff]
  constructor
  · intro heq
    obtain ⟨hparts, hblocks⟩ := append_inj (append_cancel_left heq) hlength
    exact ⟨hparts, append_inj' (flatMap_fields_injective hblocks) hcookies⟩
  · rintro ⟨hparts, hheaders, hcookies⟩
    rw [keyFields, keyFields, hparts, hheaders, hcookies]

/-- And those of headers. -/
theorem headerBlocks_none_eq_iff :
    headerBlocks h r₁ none = headerBlocks h r₂ none ↔ HeadersAgree h r₁ r₂ := by
  unfold headerBlocks HeadersAgree
  rw [map_inj_left]
  simp

end Agreement

theorem lookup_map_self {α β : Type*} [BEq α] [LawfulBEq α] (f : α → β) {names : List α}
    {name : α} (hmem : name ∈ names) :
    (names.map fun n => (n, f n)).lookup name = some (f name) := by
  induction names with
  | nil => exact absurd hmem not_mem_nil
  | cons n names ih =>
    rw [map_cons, lookup_cons]
    split
    · rename_i heq
      rw [eq_of_beq heq]
    · rename_i hne
      rcases mem_cons.mp hmem with rfl | hmem
      · exact absurd hne (by simp)
      · exact ih hmem

variable {h : Handler}

/-- **Resolved lists**: canonical names, each with the values of the
request. -/
theorem variedHeaders_spec {r : Request} {response v : Header}
    (hv : variedHeaders h r response = some v) {name : GoString} (hname : name ∈ v.names) :
    canonicalHeaderKey name = name ∧ v.values name = r.header.values name := by
  unfold variedHeaders at hv
  split at hv
  · cases hv
  · cases hv
    simp only [Header.names, map_map, mem_map, Function.comp_apply] at hname
    obtain ⟨n, hmem, rfl⟩ := hname
    have hcanonical : canonicalHeaderKey n = n := by
      have hn := mem_of_mem_filter (mem_dedup.mp hmem)
      simp only [varyNames, mem_append, mem_map, mem_flatMap] at hn
      rcases hn with ⟨raw, _, rfl⟩ | ⟨_, _, raw, _, rfl⟩
      · exact canonicalHeaderKey_idem _
      · exact canonicalHeaderKey_idem _
    refine ⟨hcanonical, ?_⟩
    rw [Header.values, hcanonical, lookup_map_self _ hmem]
    rfl

/-- The headers that `Vary` names. -/
theorem headerBlocks_resolved {r : Request} {response v : Header}
    (hv : variedHeaders h r response = some v) :
    headerBlocks h r (some v) =
      (insertionSort v.names).map fun name => ⟨lit "header", name, r.header.values name⟩ := by
  apply map_congr_left
  intro name hname
  obtain ⟨hcanonical, hvalues⟩ :=
    variedHeaders_spec hv ((insertionSort_perm v.names).mem_iff.mp hname)
  rw [hcanonical, hvalues]

/-- Headers are filed in sorted order, so only the names and their values
count. -/
theorem headerBlocks_resolved_eq_iff {r₁ r₂ : Request} {response₁ response₂ v₁ v₂ : Header}
    (h₁ : variedHeaders h r₁ response₁ = some v₁) (h₂ : variedHeaders h r₂ response₂ = some v₂) :
    headerBlocks h r₁ (some v₁) = headerBlocks h r₂ (some v₂) ↔ VariedAgree r₁ r₂ v₁ v₂ := by
  rw [headerBlocks_resolved h₁, headerBlocks_resolved h₂]
  constructor
  · intro heq
    have hnames : insertionSort v₁.names = insertionSort v₂.names := by
      have hmap := congrArg (List.map Block.name) heq
      simpa [map_map, Function.comp_def] using hmap
    refine ⟨fun name => ?_, fun name hname => ?_⟩
    · rw [← (insertionSort_perm v₁.names).mem_iff, hnames,
        (insertionSort_perm v₂.names).mem_iff]
    · rw [hnames, map_inj_left] at heq
      have hmem := (insertionSort_perm v₁.names).mem_iff.mpr hname
      exact (Block.mk.injEq .. ▸ heq name (hnames ▸ hmem)).2.2
  · rintro ⟨hnames, hvalues⟩
    have hperm : v₁.names.Perm v₂.names :=
      (perm_ext_iff_of_nodup v₁.nodup v₂.nodup).mpr hnames
    rw [← insertionSort_eq_of_perm hperm]
    apply map_congr_left
    intro name hname
    rw [hvalues name ((insertionSort_perm v₁.names).mem_iff.mp hname)]

/-- **Keys tell requests apart by the selected components, and by nothing
else.**  Both kinds of key: the one looked up before a response is known, and
the one of a stored variant, where each request comes with the list that was
resolved from it and some response. -/
theorem cacheKey_eq_iff (lowerRune : Nat → Nat) (h : Handler) (r₁ r₂ : Request) :
    (cacheKey lowerRune h r₁ none = cacheKey lowerRune h r₂ none ↔
      PartsAgree lowerRune h r₁ r₂ ∧ HeadersAgree h r₁ r₂ ∧ CookiesAgree h r₁ r₂) ∧
    ∀ response₁ response₂ v₁ v₂ : Header,
      variedHeaders h r₁ response₁ = some v₁ → variedHeaders h r₂ response₂ = some v₂ →
      (cacheKey lowerRune h r₁ (some v₁) = cacheKey lowerRune h r₂ (some v₂) ↔
        PartsAgree lowerRune h r₁ r₂ ∧ VariedAgree r₁ r₂ v₁ v₂ ∧ CookiesAgree h r₁ r₂) := by
  constructor
  · rw [cacheKey_eq_encode, cacheKey_eq_encode, encode_injective.eq_iff, keyFields_eq_iff,
      headerBlocks_none_eq_iff]
  · intro response₁ response₂ v₁ v₂ h₁ h₂
    rw [cacheKey_eq_encode, cacheKey_eq_encode, encode_injective.eq_iff, keyFields_eq_iff,
      headerBlocks_resolved_eq_iff h₁ h₂]

end CacheKeys
