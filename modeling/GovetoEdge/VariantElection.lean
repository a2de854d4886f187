import GovetoEdge.BatchStaging
import GovetoEdge.CacheKeys

/-!
# Which stored variant a request gets

A lookup scans the variants of a base key in the order of a map and takes the
first usable one that fits the request.  A refresh after a 304 scans them
again and takes the first one that fits.

* `lookup_fresh_iff`: when a lookup finds a fresh variant in every order;
* `refreshTarget_iff`: when a refresh extends the variant that was looked up;
* `lookup_agrees_iff`: when a lookup returns variants that were stored for the
  same values and no others.  The scan compares the first line of a header with
  all lines of the request that stored the variant.
-/

namespace VariantElection

open GoStrings HttpHeaders CacheMapping CacheProvider CacheKeys Utf8 ProviderOperations List Finmap

/-- What `readHTTPResponse` makes of the body of a variant: a response,
nothing, or an error. -/
inductive Opening
  | response
  | missing
  | failed
deriving DecidableEq

/-- The variant a lookup ends at. -/
inductive Elected
  | fresh (key : Key)
  | stale (key : Key)
  | failed (key : Key)
deriving DecidableEq

section Lookup

variable (now : Int) (readHTTPResponse : Key → Opening)

/-- The turn of a variant that fits; none is to go on with the next one. -/
def elect (key : Key) (i : KeyIndex) : Option Elected :=
  match if now < i.freshTime then readHTTPResponse key else .missing with
  | .response => some (.fresh key)
  | .failed => some (.failed key)
  | .missing =>
    match if now < i.staleTime then readHTTPResponse key else .missing with
    | .response => some (.stale key)
    | .failed => some (.failed key)
    | .missing => none

/-- `mappingElection`.  `LookupEntry` asks for no entity tags, so
`ValidateETagFromHeader` passes every variant. -/
def mappingElection (mapping : Variants) (request : Header) (keys : List Key) : Option Elected :=
  keys.findSome? fun key => (mapping.lookup key).bind fun i =>
    if i.matchesRequest request then elect now readHTTPResponse key i else none

/-- The lookup of a base key with these variants. -/
def lookupEntry (order : MapOrder) (baseKey : Key) (mapping : Variants) (request : Header) :
    Option Elected :=
  mappingElection now readHTTPResponse mapping request
    (order.list (mappingKey baseKey) mapping.keys)

/-- A variant whose turn ends a lookup without a fresh response: it is stale
but usable, or its body fails to open. -/
def Blocks (key : Key) (i : KeyIndex) : Prop :=
  (readHTTPResponse key = .response ∧ i.freshTime ≤ now ∧ now < i.staleTime) ∨
    (readHTTPResponse key = .failed ∧ (now < i.freshTime ∨ now < i.staleTime))

end Lookup

variable {now : Int} {readHTTPResponse : Key → Opening} {mapping : Variants} {request : Header}
  {key baseKey : Key} {i : KeyIndex}

/-- How the turn of a variant ends. -/
theorem elect_cases (now : Int) (readHTTPResponse : Key → Opening) (key : Key) (i : KeyIndex) :
    (elect now readHTTPResponse key i = some (.fresh key) ∧ now < i.freshTime ∧
        readHTTPResponse key = .response) ∨
      (elect now readHTTPResponse key i = none ∧ ¬ Blocks now readHTTPResponse key i ∧
        ¬ (now < i.freshTime ∧ readHTTPResponse key = .response)) ∨
      ((elect now readHTTPResponse key i = some (.stale key) ∨
        elect now readHTTPResponse key i = some (.failed key)) ∧
        Blocks now readHTTPResponse key i) := by
  unfold elect Blocks
  cases hread : readHTTPResponse key with
  | response => grind
  | missing => grind
  | failed => grind

/-- A variant that fits a request. -/
def Fits (mapping : Variants) (request : Header) (key : Key) (i : KeyIndex) : Prop :=
  mapping.lookup key = some i ∧ i.matchesRequest request

theorem Fits.mem (h : Fits mapping request key i) : key ∈ mapping.keys :=
  mem_keys.mpr (mem_of_lookup_eq_some h.1)

/-- A lookup ends at the turn of a variant that fits. -/
theorem mappingElection_eq_some {keys : List Key} {e : Elected}
    (h : mappingElection now readHTTPResponse mapping request keys = some e) :
    ∃ key i, Fits mapping request key i ∧ elect now readHTTPResponse key i = some e := by
  obtain ⟨key, _, hkey⟩ := exists_of_findSome?_eq_some h
  obtain ⟨i, hi, hturn⟩ := Option.bind_eq_some_iff.mp hkey
  obtain ⟨hmatch, helect⟩ := Option.ite_none_right_eq_some.mp hturn
  exact ⟨key, i, ⟨hi, hmatch⟩, helect⟩

/-- A lookup goes past a variant that fits only if its turn does not end it. -/
theorem mappingElection_isSome {keys : List Key} (hkey : key ∈ keys)
    (hfits : Fits mapping request key i) (h : elect now readHTTPResponse key i ≠ none) :
    mappingElection now readHTTPResponse mapping request keys ≠ none := by
  intro hnone
  have hturn := List.findSome?_eq_none_iff.mp hnone key hkey
  rw [hfits.1, Option.bind_some, if_pos hfits.2] at hturn
  exact h hturn

/-- The order of bytes, with one key taken first. -/
def firstly (key : Key) : MapOrder where
  list _ s := if key ∈ s then key :: (sortedKeys s).erase key else sortedKeys s
  nodup _ s := by
    split
    · exact nodup_cons.mpr
        ⟨(sortedKeys_nodup s).not_mem_erase, (sortedKeys_nodup s).erase key⟩
    · exact sortedKeys_nodup s
  mem _ s x := by
    split
    · rename_i hkey
      by_cases hx : x = key
      · simp [hx, hkey]
      · simp [hx, mem_erase_of_ne hx, mem_sortedKeys]
    · exact mem_sortedKeys

/-- This key comes first. -/
theorem firstly_list {s : Finset Key} (h : key ∈ s) (k : Key) :
    (firstly key).list k s = key :: (sortedKeys s).erase key :=
  if_pos h

/-- **Among variants of which one is fresh and can be opened, a lookup returns a
fresh one in every order** exactly if no variant that fits blocks it. -/
theorem lookup_fresh_iff (baseKey : Key)
    (hfresh : ∃ key i, Fits mapping request key i ∧ now < i.freshTime ∧
      readHTTPResponse key = .response) :
    (∀ order, ∃ key, lookupEntry now readHTTPResponse order baseKey mapping request =
        some (.fresh key)) ↔
      ∀ key i, Fits mapping request key i → ¬ Blocks now readHTTPResponse key i := by
  constructor
  · intro h key i hfits hblocks
    obtain ⟨other, hother⟩ := h (firstly key)
    unfold lookupEntry mappingElection at hother
    rw [firstly_list hfits.mem, List.findSome?_cons, hfits.1, Option.bind_some,
      if_pos hfits.2] at hother
    rcases elect_cases now readHTTPResponse key i with h1 | h2 | ⟨h3, -⟩
    · unfold Blocks at hblocks
      grind
    · exact h2.2.1 hblocks
    · rcases h3 with h3 | h3 <;> rw [h3] at hother <;> cases hother
  · intro h order
    obtain ⟨key, i, hfits, hnow, hread⟩ := hfresh
    have helect : elect now readHTTPResponse key i ≠ none := by
      rcases elect_cases now readHTTPResponse key i with h1 | h2 | ⟨-, h3⟩
      · simp [h1.1]
      · exact absurd ⟨hnow, hread⟩ h2.2.2
      · exact absurd h3 (h key i hfits)
    have hmem := (order.mem (mappingKey baseKey) mapping.keys key).mpr hfits.mem
    obtain ⟨e, he⟩ := Option.ne_none_iff_exists'.mp (mappingElection_isSome hmem hfits helect)
    obtain ⟨other, j, hother, hturn⟩ := mappingElection_eq_some he
    rcases elect_cases now readHTTPResponse other j with h1 | h2 | ⟨-, h3⟩
    · exact ⟨other, he.trans (hturn.symm.trans h1.1)⟩
    · rw [h2.1] at hturn
      cases hturn
    · exact absurd h3 (h other j hother)

/-- The variant that a request with the header `X: v` stored at time 0. -/
def variant (fresh stale : Int) (varied : List GoString) : KeyIndex :=
  keyIndex 0 fresh stale
    (varied.foldl (fun out name => out.put name [lit "v"]) noHeader) [] []

def xRequest : Header := noHeader.put (lit "X") [lit "v"]

/-- Two variants that fit this request: an old one from before the response
varied, and one for the header. -/
def twoVariants (fresh : Int) : Variants :=
  putVariant (putVariant ∅ (lit "old") (variant fresh 20 [])) (lit "new") (variant 20 30 [lit "X"])

/-- Of two variants that fit and are fresh, one is found. -/
theorem lookup_fresh_iff_newVariant :
    ∃ key, lookupEntry 10 (fun _ => .response) byteOrder (lit "k") (twoVariants 15) xRequest =
      some (.fresh key) := by
  refine (lookup_fresh_iff (lit "k") ⟨lit "new", variant 20 30 [lit "X"], ⟨rfl, ?_⟩, ?_, rfl⟩).mpr
    ?_ byteOrder
  · decide +kernel
  · decide +kernel
  · intro key i hfits
    have hfresh : ∀ key ∈ (twoVariants 15).keys, ∀ i ∈ (twoVariants 15).lookup key,
        10 < i.freshTime := by
      decide +kernel
    have hnow := hfresh key hfits.mem i hfits.1
    rintro (⟨-, hstale, -⟩ | ⟨hfailed, -⟩)
    · omega
    · cases hfailed

/-- The stale one of the two is returned if it comes first. -/
theorem stale_variant_elected :
    lookupEntry 10 (fun _ => .response) (firstly (lit "old")) (lit "k") (twoVariants 5) xRequest =
      some (.stale (lit "old")) ∧
    ∃ i, Fits (twoVariants 5) xRequest (lit "new") i ∧ 10 < i.freshTime := by
  refine ⟨by decide +kernel, variant 20 30 [lit "X"], ⟨rfl, ?_⟩, by decide +kernel⟩
  decide +kernel

section Refresh

variable (enc : Encoding) (p : Provider) (found duration stale : Int) (update : Header)

/-- A variant that a refresh can extend: its key is not empty, its body is
held, and the new times can be written. -/
def Refreshable (mapping : Variants) (key : Key) (i : KeyIndex) : Prop :=
  key ≠ [] ∧ (∃ body, p.items.lookup key = some body ∧ body.file = true) ∧
    (encodeMapping enc
      (mapping.insert key (refreshIndex found duration stale update i))).isSome

variable {enc p found duration stale update}

/-- A refresh takes the variant that comes first. -/
theorem refreshTarget_firstly {record : CacheItem} (hfits : Fits mapping request key i)
    (hrecord : p.items.lookup (mappingKey baseKey) = some record) (hfile : record.file = false)
    (hmapping : record.content.decodeMapping = some (some mapping))
    (hrefresh : Refreshable enc p found duration stale update mapping key i) :
    ∃ target, refreshTarget enc (firstly key) p baseKey request found duration stale update =
      some target ∧ target.variedKey = key := by
  obtain ⟨hne, ⟨body, hbody, hbodyFile⟩, hencoded⟩ := hrefresh
  obtain ⟨encoded, hencoded⟩ := Option.isSome_iff_exists.mp hencoded
  have hfirst : matchingVariant mapping request
      ((firstly key).list (mappingKey baseKey) mapping.keys) = some key := by
    rw [matchingVariant, firstly_list hfits.mem, List.find?_cons_of_pos]
    rw [hfits.1]
    exact hfits.2
  refine ⟨⟨record, key, body, encoded⟩, ?_, rfl⟩
  simp [refreshTarget, hrecord, hfile, hmapping, hfirst, hne, hfits.1, hbody, hbodyFile, hencoded]

/-- **A refresh extends the variant that the lookup returned**, and no other,
in all orders of the two scans exactly if no other variant that fits the
request could be extended. -/
theorem refreshTarget_iff {record : CacheItem}
    (hrecord : p.items.lookup (mappingKey baseKey) = some record) (hfile : record.file = false)
    (hmapping : record.content.decodeMapping = some (some mapping)) :
    ∀ looked key, lookupEntry now readHTTPResponse looked baseKey mapping request =
        some (.stale key) →
      ((∀ order target,
          refreshTarget enc order p baseKey request found duration stale update = some target →
          target.variedKey = key ∧
            ∀ other ≠ key, target.encoded.variants.lookup other = mapping.lookup other) ↔
        ∀ other i, Fits mapping request other i → other ≠ key →
          ¬ Refreshable enc p found duration stale update mapping other i) := by
  intro looked key _
  constructor
  · intro h other i hfits hne hrefresh
    obtain ⟨target, htarget, hkey⟩ := refreshTarget_firstly hfits hrecord hfile hmapping hrefresh
    exact hne (hkey.symm.trans (h _ target htarget).1)
  · intro h order target htarget
    obtain ⟨hsame, -, hbody, hbodyFile, hne, i, hi, hmatch, hencoded⟩ :=
      BatchStaging.refreshTarget_eq_some htarget
    obtain rfl : target.record = record := Option.some.inj (hsame.symm.trans hrecord)
    have hvariants : target.record.content.variants = mapping := by
      rw [Content.variants, hmapping]
      rfl
    rw [hvariants] at hi hencoded
    have hkey : target.variedKey = key := by
      by_contra hother
      exact h _ i ⟨hi, hmatch⟩ hother ⟨hne, ⟨_, hbody, hbodyFile⟩, by rw [hencoded]; rfl⟩
    refine ⟨hkey, fun other hother => ?_⟩
    rw [(encodeMapping_eq_some hencoded).1, lookup_insert_of_ne _ (hkey ▸ hother)]

end Refresh

def plainItem (content : Content) : CacheItem := ⟨content, 0, 0, 0, 0, 0, none⟩

def twoMapping : Mapping := ⟨twoVariants 5, by decide +kernel⟩

/-- A cache with the record of a base key and some bodies. -/
def recordProvider (bodies : List Key) : Provider :=
  let body (key : Key) : CacheItem := plainItem (.body ⟨⟨key, []⟩, 0, 0, 0, []⟩)
  { emptyProvider with
    items := bodies.foldl (fun items key => items.insert key (body key))
      ((∅ : Items).insert (mappingKey (lit "k")) (plainItem (.record (some twoMapping) 1))) }

/-- The variant that was looked up is refreshed when the body of the other is not
held. -/
theorem refreshTarget_iff_oldVariant :
    ∃ target, refreshTarget ProviderRuns.plainEncoding (firstly (lit "old"))
        (recordProvider [lit "old"]) (lit "k") xRequest 10 5 10 noHeader = some target ∧
      target.variedKey = lit "old" := by
  obtain ⟨target, htarget⟩ : ∃ target, refreshTarget ProviderRuns.plainEncoding
      (firstly (lit "old")) (recordProvider [lit "old"]) (lit "k") xRequest 10 5 10 noHeader =
        some target :=
    Option.isSome_iff_exists.mp (by decide +kernel)
  have hrecord : (recordProvider [lit "old"]).items.lookup (mappingKey (lit "k")) =
      some (plainItem (.record (some twoMapping) 1)) := rfl
  have hlooked : lookupEntry 10 (fun _ => .response) (firstly (lit "old")) (lit "k")
      twoMapping.val xRequest = some (.stale (lit "old")) := by decide +kernel
  refine ⟨target, htarget,
    ((refreshTarget_iff hrecord rfl rfl _ _ hlooked).mpr ?_ _ target htarget).1⟩
  rintro other i hfits hne ⟨-, ⟨body, hbody, -⟩, -⟩
  have hheld : ∀ key ∈ twoMapping.val.keys,
      (recordProvider [lit "old"]).items.lookup key ≠ none → key = lit "old" := by
    decide +kernel
  exact hne (hheld other hfits.mem (by rw [hbody]; nofun))

/-- The lookup returns the stale one of two variants and the refresh extends the
other. -/
theorem other_variant_refreshed :
    lookupEntry 10 (fun _ => .response) (firstly (lit "old")) (lit "k") twoMapping.val xRequest =
        some (.stale (lit "old")) ∧
      (refreshTarget ProviderRuns.plainEncoding (firstly (lit "new"))
        (recordProvider [lit "old", lit "new"]) (lit "k") xRequest 10 5 10 noHeader).map
          (·.variedKey) = some (lit "new") := by
  decide +kernel

/-- A response on its way into the cache, with the request it answered. -/
structure Write where
  key : Key
  request : Request
  response : Header
  storedAt : Int
  fresh : Int
  stale : Int
  etag : GoString
  realKey : GoString

/-- The headers a write resolves, and the variant it announces; a response that
varies on everything is not stored. -/
def Write.index (h : Handler) (w : Write) : Option KeyIndex :=
  (variedHeaders h w.request w.response).map fun varied =>
    keyIndex w.storedAt w.fresh w.stale varied w.etag w.realKey

/-- The record after a write. -/
def storeWrite (h : Handler) (mapping : Variants) (w : Write) : Variants :=
  match w.index h with
  | some i => putVariant mapping w.key i
  | none => mapping

/-- The header names of a variant. -/
def Write.names (h : Handler) (w : Write) : List GoString :=
  ((variedHeaders h w.request w.response).map Header.names).getD []

/-- All lines of a header as one value. -/
def combined (request : Header) (name : GoString) : GoString :=
  join (request.values name) (lit ", ")

/-- The request has the values that the variant was stored for. -/
def Agrees (h : Handler) (w : Write) (request : Header) : Prop :=
  ∀ name ∈ w.names h, combined request name = combined w.request.header name

instance (h : Handler) (w : Write) (request : Header) : Decidable (Agrees h w request) :=
  inferInstanceAs (Decidable (∀ name ∈ w.names h, _))

/-- The first lines of the request are the values that the variant was stored for. -/
def FirstLinesAgree (h : Handler) (w : Write) (request : Header) : Prop :=
  ∀ name ∈ w.names h, request.get name = combined w.request.header name

/-- Of the headers of a variant, the request has one line at most. -/
def OneLine (h : Handler) (w : Write) (request : Header) : Prop :=
  ∀ name ∈ w.names h, (request.values name).length ≤ 1

/-- JSON keeps the header names of a variant and the values it was stored for. -/
def Plain (h : Handler) (w : Write) : Prop :=
  ∀ name ∈ w.names h, toValid name = name ∧
    ∀ value ∈ w.request.header.values name, toValid value = value

/-- The first line is the whole value exactly if there is no second one. -/
theorem get_eq_combined_iff (request : Header) (name : GoString) :
    request.get name = combined request name ↔ (request.values name).length ≤ 1 := by
  unfold Header.get combined
  cases request.values name with
  | nil => simp [join]
  | cons value rest =>
    cases rest with
    | nil => simp [join]
    | cons second rest =>
      refine iff_of_false (fun heq => ?_) (by simp)
      have hlength := congrArg List.length heq
      rw [headD_cons, join, intercalate, intersperse_cons_cons, flatten_cons, flatten_cons,
        length_append, length_append] at hlength
      have hsep : (lit ", ").length = 2 := by decide
      omega

/-- Entries put under new names. -/
theorem mem_foldl_put {α : Type} (name : α → GoString) (values : α → List GoString) (l : List α)
    (out : Header) (hnodup : (l.map name).Nodup) (hnew : ∀ a ∈ l, name a ∉ out.names)
    (e : GoString × List GoString) :
    e ∈ (l.foldl (fun out a => out.put (name a) (values a)) out).entries ↔
      e ∈ out.entries ∨ ∃ a ∈ l, (name a, values a) = e := by
  induction l generalizing out with
  | nil => simp
  | cons a l ih =>
    obtain ⟨hfirst, hrest⟩ := nodup_cons.mp hnodup
    have hkept : (out.erase (name a)).entries = out.entries := by
      refine filter_eq_self.mpr fun e he => ?_
      have hne : e.1 ≠ name a := fun heq =>
        hnew a mem_cons_self (heq ▸ mem_map_of_mem he)
      simpa using hne
    have hentries : (out.put (name a) (values a)).entries = (name a, values a) :: out.entries :=
      congrArg (List.cons _) hkept
    rw [foldl_cons, ih _ hrest, hentries, mem_cons]
    · simp only [mem_cons, exists_eq_or_imp, eq_comm (a := e)]
      tauto
    · intro b hb hmem
      rw [Header.names, hentries, map_cons, mem_cons] at hmem
      rcases hmem with heq | hmem
      · exact hfirst (mem_map.mpr ⟨b, hb, heq⟩)
      · exact hnew b (mem_cons_of_mem _ hb) hmem

/-- What is put is there. -/
theorem mem_foldl_put_noHeader {α : Type} {name : α → GoString} {values : α → List GoString}
    {l : List α} (hnodup : (l.map name).Nodup) (e : GoString × List GoString) :
    e ∈ (l.foldl (fun out a => out.put (name a) (values a)) noHeader).entries ↔
      ∃ a ∈ l, (name a, values a) = e := by
  rw [mem_foldl_put name values l noHeader hnodup (by simp [noHeader, Header.names]) e]
  simp [noHeader]

theorem lookup_of_mem {header : Header} {name : GoString} {values : List GoString}
    (h : (name, values) ∈ header.entries) : header.entries.lookup name = some values := by
  obtain ⟨before, after, hsplit⟩ := append_of_mem h
  refine lookup_eq_some_iff.mpr ⟨before, after, hsplit, fun e he => ?_⟩
  have hnodup := header.nodup
  rw [hsplit, map_append, map_cons] at hnodup
  have hne : e.1 ≠ name :=
    (nodup_append.mp hnodup).2.2 e.1 (mem_map_of_mem he) name mem_cons_self
  simpa using hne.symm

variable {h : Handler}

/-- What a variant keeps of the headers it was resolved from. -/
theorem mem_variedHeaders_index {w : Write} (hplain : Plain h w)
    (hindex : w.index h = some i) (e : GoString × List GoString) :
    e ∈ i.variedHeaders.entries ↔ ∃ name ∈ w.names h, (name, w.request.header.values name) = e := by
  obtain ⟨varied, hvaried, rfl⟩ := Option.map_eq_some_iff.mp hindex
  have hnames : w.names h = varied.names := by
    rw [Write.names, hvaried]
    rfl
  rw [Plain, hnames] at hplain
  rw [hnames]
  have hcanonical : ∀ entry ∈ varied.entries, canonicalHeaderKey entry.1 = entry.1 :=
    fun entry he => (variedHeaders_spec hvaried (mem_map_of_mem he)).1
  -- the names are canonical, so they are entered as they are
  obtain ⟨entered, hentered⟩ : ∃ entered, entered = varied.entries.foldl
      (fun out entry => out.put (canonicalHeaderKey entry.1) entry.2) noHeader := ⟨_, rfl⟩
  have hmem : ∀ e, e ∈ entered.entries ↔ e ∈ varied.entries := by
    intro e
    have hnodup : (varied.entries.map fun entry => canonicalHeaderKey entry.1).Nodup := by
      rw [map_congr_left hcanonical]
      exact varied.nodup
    rw [hentered, mem_foldl_put_noHeader hnodup]
    constructor
    · rintro ⟨entry, he, rfl⟩
      rw [hcanonical entry he]
      exact he
    · exact fun he => ⟨e, he, by rw [hcanonical e he]⟩
  have hname : ∀ name, name ∈ entered.names ↔ name ∈ varied.names := by
    intro name
    simp only [Header.names, mem_map, hmem]
  have hsorted : ∀ name, name ∈ insertionSort entered.names ↔ name ∈ varied.names := fun name =>
    (insertionSort_perm entered.names).mem_iff.trans (hname name)
  have hvalues : ∀ name ∈ varied.names,
      (((entered.entries.lookup name).getD []).map toValid) = w.request.header.values name := by
    intro name hn
    obtain ⟨entry, he, rfl⟩ := mem_map.mp hn
    have hvalue : entry.2 = w.request.header.values entry.1 := by
      obtain ⟨hcanon, hvalue⟩ := variedHeaders_spec hvaried hn
      rw [← hvalue, Header.values, hcanon, lookup_of_mem he]
      rfl
    rw [lookup_of_mem ((hmem entry).mpr he), Option.getD_some, hvalue]
    exact (map_congr_left fun value hv => (hplain entry.1 hn).2 value hv).trans
      (map_id _)
  have hnodup : ((insertionSort entered.names).map toValid).Nodup := by
    rw [map_congr_left fun name hn => (hplain name ((hsorted name).mp hn)).1, map_id']
    exact (insertionSort_perm entered.names).nodup_iff.mpr entered.nodup
  show e ∈ (toValidHeader _).entries ↔ _
  rw [← hentered, toValidHeader, mem_foldl_put_noHeader hnodup]
  constructor
  · rintro ⟨name, hn, rfl⟩
    have hn' := (hsorted name).mp hn
    exact ⟨name, hn', by rw [hvalues name hn', (hplain name hn').1]⟩
  · rintro ⟨name, hn, rfl⟩
    exact ⟨name, (hsorted name).mpr hn, by rw [hvalues name hn, (hplain name hn).1]⟩

/-- **A request fits a variant exactly if its first lines are the values the variant
was stored for.** -/
theorem matchesRequest_iff {w : Write} (hplain : Plain h w) (hindex : w.index h = some i) :
    i.matchesRequest request ↔ FirstLinesAgree h w request := by
  rw [KeyIndex.matchesRequest, all_eq_true]
  constructor
  · intro hall name hn
    exact eq_of_beq (hall _ ((mem_variedHeaders_index hplain hindex _).mpr ⟨name, hn, rfl⟩))
  · intro hagrees e he
    obtain ⟨name, hn, rfl⟩ := (mem_variedHeaders_index hplain hindex e).mp he
    exact beq_iff_eq.mpr (hagrees name hn)

/-- The first lines and all lines agree with a variant only if they are the same. -/
theorem oneLine_of_agree {w : Write} (hfirst : FirstLinesAgree h w request)
    (hall : Agrees h w request) : OneLine h w request := fun name hn =>
  (get_eq_combined_iff request name).mp ((hfirst name hn).trans (hall name hn).symm)

/-- With one line the first is all. -/
theorem OneLine.agree_iff {w : Write} (hone : OneLine h w request) :
    FirstLinesAgree h w request ↔ Agrees h w request := by
  unfold FirstLinesAgree Agrees
  refine forall₂_congr fun name hn => ?_
  rw [(get_eq_combined_iff request name).mpr (hone name hn)]

/-- Two writes that announce the same variant have the same values. -/
theorem agrees_of_index {w w' : Write} (hplain : Plain h w) (hplain' : Plain h w')
    (hindex : w.index h = some i) (hindex' : w'.index h = some i)
    (hagrees : Agrees h w' request) : Agrees h w request := by
  intro name hn
  have hmem := (mem_variedHeaders_index hplain hindex _).mpr ⟨name, hn, rfl⟩
  obtain ⟨name', hn', heq⟩ := (mem_variedHeaders_index hplain' hindex' _).mp hmem
  obtain ⟨rfl, hvalues⟩ := Prod.mk.inj heq
  rw [hagrees name' hn', combined, combined, hvalues]

/-- Every variant of a record comes from a write. -/
theorem index_of_lookup (ws : List Write) :
    ∀ {mapping : Variants} {key : Key} {i : KeyIndex},
      (ws.foldl (storeWrite h) mapping).lookup key = some i →
      (∃ w ∈ ws, w.index h = some i) ∨ mapping.lookup key = some i := by
  induction ws with
  | nil => exact fun hi => .inr hi
  | cons w ws ih =>
    intro mapping key i hi
    rcases ih hi with ⟨w', hw', hindex⟩ | hstored
    · exact .inl ⟨w', mem_cons_of_mem _ hw', hindex⟩
    · unfold storeWrite at hstored
      cases hw : w.index h with
      | none => exact .inr (by simpa [hw] using hstored)
      | some j =>
        simp only [hw, putVariant] at hstored
        split at hstored
        · exact .inr hstored
        · by_cases hkey : key = toValid w.key
          · rw [hkey, lookup_insert] at hstored
            exact .inl ⟨w, mem_cons_self, hw.trans hstored⟩
          · rw [lookup_insert_of_ne _ hkey] at hstored
            exact .inr hstored

/-- A lookup that returned a response. -/
def Returns (e : Option Elected) (key : Key) : Prop := e = some (.fresh key) ∨ e = some (.stale key)

/-- A variant that can be served, fresh or stale. -/
def Unexpired (now : Int) (i : KeyIndex) : Prop := now < i.freshTime ∨ now < i.staleTime

/-- The turn of an unexpired variant ends the lookup unless its body is missing. -/
theorem elect_unexpired (hunexpired : Unexpired now i) :
    (readHTTPResponse key = .response → Returns (elect now readHTTPResponse key i) key) ∧
      (readHTTPResponse key = .failed →
        elect now readHTTPResponse key i = some (.failed key)) := by
  unfold Unexpired at hunexpired
  unfold elect Returns
  grind

/-- What is elected has not expired. -/
theorem unexpired_of_elect {e : Elected} (h : elect now readHTTPResponse key i = some e) :
    Unexpired now i ∧ ((e = .failed key ∧ readHTTPResponse key = .failed) ∨
      (Returns (some e) key ∧ readHTTPResponse key = .response)) := by
  unfold elect at h
  unfold Unexpired Returns
  grind

/-- A variant that fits has the first turn in some order. -/
theorem lookupEntry_firstly {e : Elected} (baseKey : Key) (hfits : Fits mapping request key i)
    (h : elect now readHTTPResponse key i = some e) :
    lookupEntry now readHTTPResponse (firstly key) baseKey mapping request = some e := by
  rw [lookupEntry, mappingElection, firstly_list hfits.mem, List.findSome?_cons, hfits.1,
    Option.bind_some, if_pos hfits.2, h]

/-- A variant that is returned fits, is not expired, and its body opens. -/
theorem fits_of_returns {order : MapOrder}
    (h : Returns (lookupEntry now readHTTPResponse order baseKey mapping request) key) :
    ∃ i, Fits mapping request key i ∧ Unexpired now i ∧ readHTTPResponse key = .response := by
  obtain ⟨e, he, hkey⟩ : ∃ e, lookupEntry now readHTTPResponse order baseKey mapping request =
      some e ∧ (e = .fresh key ∨ e = .stale key) := by
    rcases h with hfresh | hstale
    · exact ⟨_, hfresh, .inl rfl⟩
    · exact ⟨_, hstale, .inr rfl⟩
  obtain ⟨other, i, hfits, hturn⟩ := mappingElection_eq_some he
  obtain ⟨hunexpired, hread⟩ := unexpired_of_elect hturn
  have hsame : other = key ∧ readHTTPResponse other = .response := by
    unfold Returns at hread
    grind
  exact ⟨i, hsame.1 ▸ hfits, hunexpired, hsame.1 ▸ hsame.2⟩

/-- A lookup returns something when a body opens and none that could end it fails. -/
theorem exists_returns {order : MapOrder} (hfits : Fits mapping request key i)
    (hunexpired : Unexpired now i) (hread : readHTTPResponse key = .response)
    (hopens : ∀ other j, Fits mapping request other j → Unexpired now j →
      readHTTPResponse other ≠ .failed) :
    ∃ found, Returns (lookupEntry now readHTTPResponse order baseKey mapping request) found := by
  have helect : elect now readHTTPResponse key i ≠ none := by
    have hreturns := (elect_unexpired hunexpired).1 hread
    unfold Returns at hreturns
    grind
  have hmem := (order.mem (mappingKey baseKey) _ key).mpr hfits.mem
  obtain ⟨e, he⟩ := Option.ne_none_iff_exists'.mp (mappingElection_isSome hmem hfits helect)
  obtain ⟨found, j, hfound, hturn⟩ := mappingElection_eq_some he
  obtain ⟨hunexpired', ⟨-, hfailed⟩ | ⟨hreturns, -⟩⟩ := unexpired_of_elect hturn
  · exact absurd hfailed (hopens found j hfound hunexpired')
  · refine ⟨found, ?_⟩
    rwa [lookupEntry, he]

/-- The record that some writes leave. -/
def recordOf (h : Handler) (ws : List Write) : Variants := ws.foldl (storeWrite h) ∅

/-- A variant of the record, and a write that stored it. -/
structure Stored (h : Handler) (ws : List Write) (w : Write) (key : Key) (i : KeyIndex) :
    Prop where
  mem : w ∈ ws
  index : w.index h = some i
  lookup : (recordOf h ws).lookup key = some i

/-- **A lookup returns a variant only if the request has the values the variant was
stored for, and returns one if there is an unexpired one**, in every order of the
scan, exactly if: where the first lines of the request are those values, there is
no second line; and, if there is such a variant, then the body of one opens for
whose headers the request has one line, and no body fails to open of an unexpired
variant that the first lines fit. -/
theorem lookup_agrees_iff {ws : List Write} (hplain : ∀ w ∈ ws, Plain h w) (request : Header)
    (now : Int) (readHTTPResponse : Key → Opening) (baseKey : Key) :
    (∀ order,
      (∀ key, Returns (lookupEntry now readHTTPResponse order baseKey (recordOf h ws) request)
          key → ∃ w i, Stored h ws w key i ∧ Agrees h w request) ∧
      ((∃ w key i, Stored h ws w key i ∧ Unexpired now i ∧ Agrees h w request) →
        ∃ found, Returns (lookupEntry now readHTTPResponse order baseKey (recordOf h ws) request)
          found)) ↔
    (∀ w key i, Stored h ws w key i → Unexpired now i → readHTTPResponse key = .response →
      FirstLinesAgree h w request → OneLine h w request) ∧
    ((∃ w key i, Stored h ws w key i ∧ Unexpired now i ∧ Agrees h w request) →
      (∃ w key i, Stored h ws w key i ∧ Unexpired now i ∧ Agrees h w request ∧
        OneLine h w request ∧ readHTTPResponse key = .response) ∧
      ∀ w key i, Stored h ws w key i → Unexpired now i → FirstLinesAgree h w request →
        readHTTPResponse key ≠ .failed) := by
  have hfits : ∀ {w key i}, Stored h ws w key i →
      (Fits (recordOf h ws) request key i ↔ FirstLinesAgree h w request) := by
    intro w key i hstored
    rw [← matchesRequest_iff (hplain w hstored.mem) hstored.index]
    exact and_iff_right hstored.lookup
  have hwriter : ∀ {key i}, Fits (recordOf h ws) request key i → ∃ w, Stored h ws w key i := by
    intro key i hfit
    rcases index_of_lookup ws hfit.1 with ⟨w, hw, hindex⟩ | hempty
    · exact ⟨w, hw, hindex, hfit.1⟩
    · cases hempty
  constructor
  · intro hall
    refine ⟨fun w key i hstored hunexpired hread hfirst => ?_, fun hexists => ⟨?_, ?_⟩⟩
    · have hreturns := (elect_unexpired hunexpired).1 hread
      obtain ⟨e, he⟩ : ∃ e, elect now readHTTPResponse key i = some e := by
        rcases hreturns with heq | heq <;> exact ⟨_, heq⟩
      have hlookup := lookupEntry_firstly baseKey ((hfits hstored).mpr hfirst) he
      obtain ⟨w', i', hstored', hagrees⟩ := (hall (firstly key)).1 key (by rwa [hlookup, ← he])
      obtain rfl := Option.some.inj (hstored.lookup.symm.trans hstored'.lookup)
      exact oneLine_of_agree hfirst (agrees_of_index (hplain w hstored.mem)
        (hplain w' hstored'.mem) hstored.index hstored'.index hagrees)
    · obtain ⟨found, hfound⟩ := (hall byteOrder).2 hexists
      obtain ⟨i, hfit, hunexpired, hread⟩ := fits_of_returns hfound
      obtain ⟨w, i', hstored, hagrees⟩ := (hall byteOrder).1 found hfound
      obtain rfl := Option.some.inj (hfit.1.symm.trans hstored.lookup)
      exact ⟨w, found, i, hstored, hunexpired, hagrees,
        oneLine_of_agree ((hfits hstored).mp hfit) hagrees, hread⟩
    · intro w key i hstored hunexpired hfirst hfailed
      obtain ⟨found, hfound⟩ := (hall (firstly key)).2 hexists
      rw [lookupEntry_firstly baseKey ((hfits hstored).mpr hfirst)
        ((elect_unexpired hunexpired).2 hfailed)] at hfound
      rcases hfound with heq | heq <;> cases heq
  · rintro ⟨hlines, hbodies⟩ order
    refine ⟨fun key hreturns => ?_, fun hexists => ?_⟩
    · obtain ⟨i, hfit, hunexpired, hread⟩ := fits_of_returns hreturns
      obtain ⟨w, hstored⟩ := hwriter hfit
      have hfirst := (hfits hstored).mp hfit
      exact ⟨w, i, hstored, (hlines w key i hstored hunexpired hread hfirst).agree_iff.mp hfirst⟩
    · obtain ⟨⟨w, key, i, hstored, hunexpired, hagrees, hone, hread⟩, hopens⟩ := hbodies hexists
      refine exists_returns ((hfits hstored).mpr (hone.agree_iff.mpr hagrees)) hunexpired hread
        fun other j hfit hunexpired' => ?_
      obtain ⟨w', hstored'⟩ := hwriter hfit
      exact hopens w' other j hstored' hunexpired' ((hfits hstored').mp hfit)

/-- A handler without configured headers. -/
def plainHandler : Handler := ⟨[], [], [], [], false, [], [], []⟩

/-- A response that varies on `X`, to a request with these lines of it. -/
def xWrite (key : Key) (lines : List GoString) : Write where
  key := key
  request := ⟨lit "GET", ⟨[], [], [], []⟩, false, [], noHeader.put (lit "X") lines, []⟩
  response := noHeader.put (lit "Vary") [lit "X"]
  storedAt := 0
  fresh := 10
  stale := 20
  etag := []
  realKey := []

/-- The variants for `v` and `w`. -/
def vAndW : List Write := [xWrite (lit "x") [lit "v"], xWrite (lit "y") [lit "w"]]

/-- A request with one line finds the variant stored for it, whatever becomes of
the body of the other. -/
theorem lookup_agrees_iff_oneLine :
    ∃ found, Returns (lookupEntry 5
      (fun key => if key = lit "x" then .response else .failed) byteOrder (lit "k")
      (recordOf plainHandler vAndW) xRequest) found := by
  have hplain : ∀ w ∈ vAndW, Plain plainHandler w := by
    unfold Plain
    decide +kernel
  have hone : ∀ w ∈ vAndW, OneLine plainHandler w xRequest := by
    unfold OneLine
    decide +kernel
  obtain ⟨i, hi⟩ : ∃ i, (xWrite (lit "x") [lit "v"]).index plainHandler = some i := ⟨_, rfl⟩
  have hx : Stored plainHandler vAndW (xWrite (lit "x") [lit "v"]) (lit "x") i :=
    ⟨mem_cons_self, hi, hi ▸ rfl⟩
  have hunexpired : Unexpired 5 i := by
    cases hi
    exact .inl (by decide +kernel)
  have hagrees : Agrees plainHandler (xWrite (lit "x") [lit "v"]) xRequest := by decide +kernel
  refine ((lookup_agrees_iff hplain xRequest 5 _ (lit "k")).mpr ⟨?_, ?_⟩ byteOrder).2
    ⟨_, _, i, hx, hunexpired, hagrees⟩
  · exact fun w _ _ hstored _ _ _ => hone w hstored.mem
  · refine fun _ => ⟨⟨_, _, i, hx, hunexpired, hagrees, hone _ hx.mem, rfl⟩, ?_⟩
    intro w key j hstored _ hfirst
    -- the other variant is the one for another value
    have hw : w = xWrite (lit "x") [lit "v"] := by
      rcases mem_pair.mp hstored.mem with rfl | rfl
      · rfl
      · exact absurd ((hone _ hstored.mem).agree_iff.mp hfirst) (by decide +kernel)
    have hkey : ∀ key ∈ (recordOf plainHandler vAndW).keys,
        ((recordOf plainHandler vAndW).lookup key).map (·.variedHeaders.get (lit "X")) =
          ((xWrite (lit "x") [lit "v"]).index plainHandler).map (·.variedHeaders.get (lit "X")) →
        key = lit "x" := by
      decide +kernel
    have hmem := mem_keys.mpr (mem_of_lookup_eq_some hstored.lookup)
    rw [hkey key hmem (by rw [hstored.lookup, ← hw, hstored.index]), if_pos rfl]
    nofun

/-- With two lines, a request gets a variant stored for another value, and not
the one that it stored itself. -/
theorem lines_not_combined :
    (lookupEntry 5 (fun _ => .response) byteOrder (lit "k")
        (recordOf plainHandler [xWrite (lit "x") [lit "v"]])
        (noHeader.put (lit "X") [lit "v", lit "w"]) = some (.fresh (lit "x")) ∧
      ¬ Agrees plainHandler (xWrite (lit "x") [lit "v"])
        (noHeader.put (lit "X") [lit "v", lit "w"])) ∧
    lookupEntry 5 (fun _ => .response) byteOrder (lit "k")
        (recordOf plainHandler [xWrite (lit "x") [lit "v", lit "w"]])
        (noHeader.put (lit "X") [lit "v", lit "w"]) = none ∧
      Agrees plainHandler (xWrite (lit "x") [lit "v", lit "w"])
        (noHeader.put (lit "X") [lit "v", lit "w"]) := by
  decide +kernel

end VariantElection
