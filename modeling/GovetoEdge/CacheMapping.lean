import GovetoEdge.FiniteMaps
import GovetoEdge.HttpHeaders
import GovetoEdge.Utf8

/-!
# Mapping records

The variants of one cache key are listed in a mapping record, which is stored
as a JSON text beside the bodies.  The record is modelled by what its text
denotes, together with the text's length, which is all that the accounting
reads of it.

A string that enters a record goes through JSON: bytes that are no UTF-8 become
U+FFFD (`toValid`).  So strings are replaced when they enter, and a record that
was read can be written again as it is.

Times are nanoseconds since the zero time; `0` is the zero time.
-/

namespace CacheMapping

open GoStrings HttpHeaders Utf8 Finmap

abbrev Key := GoString

/-- `core.MappingKeyPrefix`. -/
def mappingKeyPrefix : GoString := lit "IDX_"

/-- The key of the record that lists the variants of a base key. -/
def mappingKey (baseKey : Key) : Key := mappingKeyPrefix ++ baseKey

/-- A header written as JSON and read back.  Names are written in byte order,
so of two names that become one the later wins. -/
def toValidHeader (h : Header) : Header :=
  (insertionSort h.names).foldl
    (fun out name => out.put (toValid name) (((h.entries.lookup name).getD []).map toValid))
    noHeader

/-- `core.KeyIndex`; a header without entries stands for an absent one. -/
structure KeyIndex where
  storedAt : Int
  freshTime : Int
  staleTime : Int
  variedHeaders : Header
  etag : GoString
  realKey : GoString
  revalidated : Header

/-- The mapping of `core.StorageMapper`. -/
abbrev Variants := Finmap fun _ : Key => KeyIndex

/-- A time that `time.Time` writes as JSON: its year has at most four digits. -/
def encodableTime (t : Int) : Prop :=
  -31622400000000000 ≤ t ∧ t < 315537897600000000000

instance : DecidablePred encodableTime := fun t => by
  unfold encodableTime
  infer_instance

/-- The times are ones that can be written. -/
def KeyIndex.encodable (i : KeyIndex) : Prop :=
  encodableTime i.storedAt ∧ encodableTime i.freshTime ∧ encodableTime i.staleTime

instance : DecidablePred KeyIndex.encodable := fun i => by
  unfold KeyIndex.encodable
  infer_instance

/-- Variants that can be written as JSON. -/
def Variants.Encodable (m : Variants) : Prop := ∀ k ∈ m.keys, ∀ i ∈ m.lookup k, i.encodable

instance (m : Variants) : Decidable m.Encodable := by
  unfold Variants.Encodable
  infer_instance

/-- A mapping that was read from a JSON text: all its times have four-digit
years, so it can be written again. -/
abbrev Mapping := { m : Variants // m.Encodable }

/-- The request headers that chose a variant. -/
def KeyIndex.matchesRequest (i : KeyIndex) (request : Header) : Bool :=
  i.variedHeaders.entries.all fun (name, values) => request.get name == join values (lit ", ")

/-- The name of a body file: `contentBodyFileName` hashes the key and writes
the checksum of the contents. -/
structure FileName where
  key : Key
  checksum : GoString
deriving DecidableEq

/-- What a `cacheItem` with `file` set keeps of its body file. -/
structure Body where
  file : FileName
  compressedSize : Nat
  physicalSize : Nat
  originalSize : Nat
  checksum : GoString
deriving DecidableEq

/-- The value of a `cacheItem`: the path of a body, the text of a mapping
record (whose mapping may be `null`) with its length, or bytes that are no
mapping record. -/
inductive Content
  | body (b : Body)
  | record (mapping : Option Mapping) (length : ℕ+)
  | raw (bytes : GoString)

namespace Content

/-- `cacheItem.file`. -/
def file : Content → Bool
  | body _ => true
  | record _ _ => false
  | raw _ => false

/-- `cacheItem.physicalSize`. -/
def physicalSize : Content → Nat
  | body b => b.physicalSize
  | record _ _ => 0
  | raw _ => 0

/-- `core.DecodeMapping` of the value; a path is no JSON text. -/
def decodeMapping : Content → Option (Option Variants)
  | body _ => none
  | record mapping _ => some (mapping.map Subtype.val)
  | raw _ => none

end Content

/-- A value that is no path. -/
abbrev Text := { c : Content // c.file = false }

/-- What the accounting needs to know of texts: the length of a body's path,
and of the JSON text of a record. -/
structure Encoding where
  pathLength : ℕ+
  recordLength : Variants → ℕ+

variable (enc : Encoding)

/-- `len(item.value)`. -/
def Content.length : Content → Nat
  | .body _ => enc.pathLength
  | .record _ length => length
  | .raw bytes => bytes.length

/-- `core.EncodeMapping`. -/
def encodeMapping (m : Variants) : Option Content :=
  if h : m.Encodable then some (.record (some ⟨m, h⟩) (enc.recordLength m)) else none

/-- Put a variant into a record and write it.  When the key is no UTF-8 its
JSON text may be the text of another key of the record; then the later in byte
order is read back. -/
def putVariant (m : Variants) (key : Key) (i : KeyIndex) : Variants :=
  if toValid key ∈ m ∧ key < toValid key then m else m.insert (toValid key) i

/-- The variant a write announces, as it is read back. -/
def keyIndex (now fresh stale : Int) (varied : Header) (etag realKey : GoString) : KeyIndex where
  storedAt := now
  freshTime := fresh
  staleTime := stale
  variedHeaders := toValidHeader (varied.entries.foldl
    (fun out entry => out.put (canonicalHeaderKey entry.1) entry.2) noHeader)
  etag := toValid etag
  realKey := toValid realKey
  revalidated := noHeader

/-- The record a write starts from: none, an empty value and a `null` mapping
are an empty record. -/
def previousVariants (value : Option Content) : Option Variants :=
  match value with
  | none => some ∅
  | some c => if c.length enc = 0 then some ∅ else c.decodeMapping.map fun m => m.getD ∅

/-- `core.MappingUpdater`. -/
def mappingUpdater (key : Key) (value : Option Content) (i : KeyIndex) : Option Content :=
  (previousVariants enc value).bind fun m => encodeMapping enc (putVariant m key i)

/-- The variants a value lists; `mappingVariants` is the set of their keys. -/
def Content.variants (c : Content) : Variants := (c.decodeMapping.getD none).getD ∅

@[simp] theorem variants_body (b : Body) : (Content.body b).variants = ∅ := rfl

@[simp] theorem variants_record (m : Mapping) (n : ℕ+) :
    (Content.record (some m) n).variants = m.val := rfl

/-- Records have no file. -/
theorem file_eq_false_of_mem_variants {c : Content} {v : Key} (h : v ∈ c.variants) :
    c.file = false := by
  cases c with
  | body b => exact absurd h notMem_empty
  | record | raw => rfl

/-- A value that lists variants is the text of a record. -/
theorem decodeMapping_of_mem_variants {c : Content} {v : Key} (h : v ∈ c.variants) :
    c.decodeMapping = some (some c.variants) := by
  cases c with
  | body | raw => exact absurd h notMem_empty
  | record m n =>
    cases m with
    | none => exact absurd h notMem_empty
    | some m => rfl

variable {enc}

/-- A written record lists its variants. -/
theorem encodeMapping_eq_some {m : Variants} {c : Content} (h : encodeMapping enc m = some c) :
    c.variants = m ∧ c.file = false ∧ c.physicalSize = 0 := by
  unfold encodeMapping at h
  split at h
  · cases h
    exact ⟨rfl, rfl, rfl⟩
  · cases h

/-- A part of a mapping that was read can be written. -/
theorem encodeMapping_erase (enc : Encoding) {m : Variants} (h : m.Encodable) (key : Key) :
    ∃ c, encodeMapping enc (m.erase key) = some c := by
  have herase : Variants.Encodable (m.erase key) := by
    intro k hk i hi
    rw [keys_erase] at hk
    rw [lookup_erase_ne (Finset.ne_of_mem_erase hk)] at hi
    exact h k (Finset.mem_of_mem_erase hk) i hi
  exact ⟨_, dif_pos herase⟩

/-- A value that lists variants can be written again. -/
theorem variants_encodable (c : Content) : c.variants.Encodable := by
  have hempty : (∅ : Variants).Encodable := by
    intro k hk
    exact absurd hk (Finset.notMem_empty k)
  cases c with
  | body | raw => exact hempty
  | record m n =>
    cases m with
    | none => exact hempty
    | some m => exact m.property

/-- What a write makes of the record it starts from. -/
theorem mappingUpdater_eq_some {key : Key} {value : Option Content} {i : KeyIndex} {c : Content}
    (h : mappingUpdater enc key value i = some c) :
    ∃ m, previousVariants enc value = some m ∧ c.variants = putVariant m key i ∧
      c.file = false ∧ c.physicalSize = 0 := by
  obtain ⟨m, hm, henc⟩ := Option.bind_eq_some_iff.mp h
  exact ⟨m, hm, encodeMapping_eq_some henc⟩

end CacheMapping
