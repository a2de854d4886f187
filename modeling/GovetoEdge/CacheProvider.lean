import GovetoEdge.CacheMapping
import GovetoEdge.ExpirationHeap

/-!
# The disk cache: tables and staged changes

The provider holds its items in memory: bodies, which are files, and mapping
records.  Beside them it keeps the groups (surrogate keys) and their inverse,
the reverse index from variants to the records that list them, the expiration
heap, the least-recently-used list and the counters.  The index is the
database that survives a restart.

An operation first stages its changes, then writes them to the index in one
transaction, and last applies them to the tables.

* The code's `batchState` copies an entry of a table when it first changes it.
  Here the staged tables are whole copies, and `staged` and `stagedGroups` say
  which entries were copied.
* `nextVersion` and the expiration heap change while an operation stages; they
  are carried in the batch state and go back to the provider in any case.
* Maps are iterated in an order that the language does not fix.  A `MapOrder`
  chooses it.
-/

namespace CacheProvider

open GoStrings CacheMapping FiniteMaps ExpirationHeap

/-- The keys of a set in byte order. -/
def sortedKeys (s : Finset Key) : List Key :=
  Quot.liftOn s.val insertionSort fun _ _ h => insertionSort_eq_of_perm h

/-- Sorting loses no key. -/
theorem sortedKeys_perm (s : Finset Key) : (sortedKeys s : Multiset Key) = s.val := by
  unfold sortedKeys
  induction hs : s.val using Quot.ind with
  | mk l => exact Quot.sound (insertionSort_perm l)

@[simp] theorem mem_sortedKeys {s : Finset Key} {k : Key} : k ∈ sortedKeys s ↔ k ∈ s := by
  rw [← Multiset.mem_coe, sortedKeys_perm, Finset.mem_val]

theorem sortedKeys_nodup (s : Finset Key) : (sortedKeys s).Nodup := by
  rw [← Multiset.coe_nodup, sortedKeys_perm]
  exact s.nodup

/-- The order in which one operation iterates its maps: for each loop, named
by the key the loop is about, some order of the set. -/
structure MapOrder where
  list : Key → Finset Key → List Key
  nodup : ∀ k s, (list k s).Nodup
  mem : ∀ k s x, x ∈ list k s ↔ x ∈ s

/-- Iteration in byte order. -/
def byteOrder : MapOrder where
  list _ s := sortedKeys s
  nodup _ s := sortedKeys_nodup s
  mem _ _ _ := mem_sortedKeys

/-- `cacheItem`; `expiration` is the pointer to its heap entry.  The decoded
copy of a mapping record is what `content` denotes. -/
structure CacheItem where
  content : Content
  expiresAt : Int
  lastAccess : Int
  generation : Nat
  accountedSize : Nat
  modifiedAt : Int
  expiration : Option Nat

def CacheItem.file (item : CacheItem) : Bool := item.content.file

def CacheItem.physicalSize (item : CacheItem) : Nat := item.content.physicalSize

/-- `mappingVariants`. -/
def mappingVariants (item : CacheItem) : Finset Key := item.content.variants.keys

abbrev Items := Finmap fun _ : Key => CacheItem

/-- What an item costs beyond its bytes. -/
def itemIndexOverhead : Nat := 512

/-- `accountedItemSize`; only a body has a physical size. -/
def accountedItemSize (enc : Encoding) (key : Key) (c : Content) : Nat :=
  itemIndexOverhead + key.length + c.length enc + c.physicalSize

/-- `diskItem`: the row of an item.  The physical size is not written. -/
structure DiskItem where
  content : Content
  expiresAt : Int
  lastAccess : Int
  modifiedAt : Int

/-- The part of a value that is written. -/
def diskContent : Content → Content
  | .body b => .body { b with physicalSize := 0 }
  | c => c

/-- `encodeDiskItem`. -/
def encodeDiskItem (item : CacheItem) : Option DiskItem :=
  if encodableTime item.expiresAt ∧ encodableTime item.lastAccess then
    some ⟨diskContent item.content, item.expiresAt, item.lastAccess, item.modifiedAt⟩
  else none

/-- The buckets of the database; a group's row is a JSON list of keys. -/
structure Index where
  items : Finmap fun _ : Key => DiskItem
  groups : Finmap fun _ : Key => List Key
  used : Nat

/-- The database takes no empty key and no key over 32768 bytes. -/
def storableKey (key : Key) : Prop := key ≠ [] ∧ key.length ≤ 32768

instance : DecidablePred storableKey := fun key => by
  unfold storableKey
  infer_instance

/-- `provider`.  The tables of sets are relations: `groups` relates a group to
its keys, `itemGroups` a key to its groups, and `variantMappings` a variant to
the keys of the records that list it. -/
structure Provider where
  items : Items
  groups : Finset (Key × Key)
  variantMappings : Finset (Key × Key)
  itemGroups : Finset (Key × Key)
  expirations : Heap
  lru : List Key
  index : Index
  dirtyItems : Finset Key
  dirtyGroups : Finset Key
  cacheUsed : Nat
  physicalUsed : Nat
  bodyEntries : Nat
  mappingEntries : Nat
  nextVersion : Nat

/-- A cache on an empty directory. -/
def emptyProvider : Provider where
  items := ∅
  groups := ∅
  variantMappings := ∅
  itemGroups := ∅
  expirations := ExpirationHeap.empty
  lru := []
  index := ⟨∅, ∅, 0⟩
  dirtyItems := ∅
  dirtyGroups := ∅
  cacheUsed := 0
  physicalUsed := 0
  bodyEntries := 0
  mappingEntries := 0
  nextVersion := 0

/-- `batchState`.  `miscounted` is not in the code: it marks that a size was
taken off the counters twice, or not at all, for the proofs to refer to. -/
structure BatchState where
  items : Items
  staged : Finset Key
  groups : Finset (Key × Key)
  stagedGroups : Finset Key
  variantMappings : Finset (Key × Key)
  itemGroups : Finset (Key × Key)
  used : Nat
  physical : Nat
  obsoleteFiles : Finset FileName
  evicted : Nat
  poppedExpiry : List Nat
  nextVersion : Nat
  expirations : Heap
  miscounted : Bool

/-- `newBatchState`. -/
def newBatchState (p : Provider) : BatchState where
  items := p.items
  staged := ∅
  groups := p.groups
  stagedGroups := ∅
  variantMappings := p.variantMappings
  itemGroups := p.itemGroups
  used := p.cacheUsed
  physical := p.physicalUsed
  obsoleteFiles := ∅
  evicted := 0
  poppedExpiry := []
  nextVersion := p.nextVersion
  expirations := p.expirations
  miscounted := false

namespace BatchState

variable (enc : Encoding) (order : MapOrder)

/-- `getItem`. -/
def getItem (s : BatchState) (key : Key) : Option CacheItem := s.items.lookup key

/-- `p.nextVersion++`. -/
def bumpVersion (s : BatchState) : BatchState := { s with nextVersion := s.nextVersion + 1 }

/-- `removeItemGroups`. -/
def removeItemGroups (s : BatchState) (key : Key) : BatchState :=
  let groups := related s.itemGroups key
  { s with
    groups := unlink s.groups groups key
    stagedGroups := s.stagedGroups ∪ groups
    itemGroups := s.itemGroups.filter (·.1 ≠ key) }

/-- `addItemGroup`. -/
def addItemGroup (s : BatchState) (key group : Key) : BatchState :=
  { s with
    groups := insert (group, key) s.groups
    stagedGroups := insert group s.stagedGroups
    itemGroups := insert (key, group) s.itemGroups }

/-- The first half of `stageMapping`: take the old record off the counters and
out of the reverse index. -/
def forgetRecord (s : BatchState) (key : Key) : BatchState :=
  match s.getItem key with
  | some old =>
    { s with
      used := s.used - min s.used old.accountedSize
      variantMappings := unlink s.variantMappings (mappingVariants old) key
      miscounted := s.miscounted || old.file }
  | none => s

/-- Stage that nothing is held at a key. -/
def stageAbsent (s : BatchState) (key : Key) : BatchState :=
  { s with items := s.items.erase key, staged := insert key s.staged }

/-- Stage an item. -/
def stagePresent (s : BatchState) (key : Key) (item : CacheItem) : BatchState :=
  { s with items := s.items.insert key item, staged := insert key s.staged }

/-- The second half of `stageMapping` for a record that is stored. -/
def putRecord (s : BatchState) (key : Key) (item : CacheItem) : BatchState :=
  let size := accountedItemSize enc key item.content
  { s with
    used := s.used + size
    variantMappings := link s.variantMappings (mappingVariants item) key }.stagePresent key
      { item with accountedSize := size }

/-- `stageMapping`. -/
def stageMapping (s : BatchState) (key : Key) : Option CacheItem → BatchState
  | none => (s.forgetRecord key).stageAbsent key
  | some item => (s.forgetRecord key).putRecord enc key item

/-- `removeVariantFromMapping`. -/
def removeVariantFromMapping (s : BatchState) (mappingKey variedKey : Key) : BatchState :=
  match s.getItem mappingKey with
  | none => s
  | some item =>
    match item.content.decodeMapping with
    | none => s.stageMapping enc mappingKey none
    | some none => s.stageMapping enc mappingKey none
    | some (some mapping) =>
      if variedKey ∉ mapping then s
      else if (mapping.erase variedKey).keys = ∅ then
        (s.removeItemGroups mappingKey).stageMapping enc mappingKey none
      else
        match encodeMapping enc (mapping.erase variedKey) with
        | none => s.stageMapping enc mappingKey none
        | some encoded =>
          s.bumpVersion.stageMapping enc mappingKey
            (some { item with content := encoded, generation := s.nextVersion + 1 })

/-- The loop of `deleteItem` over the records that list a body. -/
def removeVariantFromMappings (s : BatchState) (mappingKeys : List Key) (variedKey : Key) :
    BatchState :=
  mappingKeys.foldl (fun s mappingKey => s.removeVariantFromMapping enc mappingKey variedKey) s

/-- Take an item off the counters. -/
def discount (s : BatchState) (item : CacheItem) : BatchState :=
  { s with
    used := s.used - min s.used item.accountedSize
    physical := s.physical - min s.physical item.physicalSize }

/-- `deleteItem`. -/
def deleteItem (s : BatchState) (key : Key) : BatchState :=
  match s.getItem key with
  | none => s
  | some item =>
    let s := (s.removeItemGroups key).discount item
    match item.content with
    | .body b =>
      let s := { s with obsoleteFiles := insert b.file s.obsoleteFiles }
      let mappings := order.list key (related s.variantMappings key)
      (s.removeVariantFromMappings enc mappings key).stageAbsent key
    | .record _ _ => { s with miscounted := true }.stageMapping enc key none
    | .raw _ => { s with miscounted := true }.stageMapping enc key none

/-- One round of `stageExpired`: take the first entry off the heap, and delete
its item unless the entry is out of date. -/
def expireFirst (p : Provider) (now : Int) (s : BatchState) : BatchState :=
  let popped := pop s.expirations
  let entry := s.expirations.entry popped.1
  let s := { s with expirations := popped.2, poppedExpiry := s.poppedExpiry ++ [popped.1] }
  match p.items.lookup entry.key with
  | none => s
  | some item =>
    if item.generation ≠ entry.generation ∨ now < item.expiresAt then s
    else s.deleteItem enc order entry.key

/-- The loop of `stageExpired`; every round shortens the heap. -/
def stageExpiredLoop (p : Provider) (now : Int) : Nat → BatchState → BatchState
  | 0, s => s
  | rounds + 1, s =>
    match s.expirations.slots with
    | [] => s
    | root :: _ =>
      if now < (s.expirations.entry root).due then s
      else stageExpiredLoop p now rounds (expireFirst enc order p now s)

/-- `stageExpired`. -/
def stageExpired (p : Provider) (now : Int) (s : BatchState) : BatchState :=
  stageExpiredLoop enc order p now s.expirations.slots.length s

/-- `restoreExpiry`. -/
def restoreExpiry (p : Provider) (s : BatchState) : Heap :=
  s.poppedExpiry.foldl
    (fun heap id =>
      match p.items.lookup (heap.entry id).key with
      | some item => if item.generation = (heap.entry id).generation then push heap id else heap
      | none => heap)
    s.expirations

end BatchState

/-- The rows of some items: an item that is not held has none. -/
def putItemRows (items : Items) : List Key → (Finmap fun _ : Key => DiskItem) →
    Option (Finmap fun _ : Key => DiskItem)
  | [], rows => some rows
  | key :: keys, rows =>
    match items.lookup key with
    | none => putItemRows items keys (rows.erase key)
    | some item =>
      if storableKey key then
        (encodeDiskItem item).bind fun row => putItemRows items keys (rows.insert key row)
      else none

/-- The row of a group: its keys in order, as JSON. -/
def groupRow (groups : Finset (Key × Key)) (group : Key) : List Key :=
  (sortedKeys (related groups group)).map Utf8.toValid

/-- The rows of some groups: an empty group has none. -/
def putGroupRows (groups : Finset (Key × Key)) : List Key → (Finmap fun _ : Key => List Key) →
    Option (Finmap fun _ : Key => List Key)
  | [], rows => some rows
  | group :: rest, rows =>
    if related groups group = ∅ then putGroupRows groups rest (rows.erase group)
    else if storableKey group then
      putGroupRows groups rest (rows.insert group (groupRow groups group))
    else none

/-- The transaction that `persistBatchLocked` and `persistIndexLocked` make. -/
def putRows (index : Index) (items : Items) (groups : Finset (Key × Key))
    (dirtyItems dirtyGroups : Finset Key) (used : Nat) : Option Index := do
  let itemRows ← putItemRows items (sortedKeys dirtyItems) index.items
  let groupRows ← putGroupRows groups (sortedKeys dirtyGroups) index.groups
  some ⟨itemRows, groupRows, used⟩

/-- `persistBatchLocked`; `commits` is the database's answer. -/
def persistBatch (p : Provider) (s : BatchState) (commits : Bool) : Option Index :=
  if commits then
    putRows p.index s.items s.groups (p.dirtyItems ∪ s.staged) (p.dirtyGroups ∪ s.stagedGroups)
      s.used
  else none

namespace Provider

/-- `addReverseMappingLocked`. -/
def addReverseMapping (p : Provider) (mappingKey : Key) (item : CacheItem) : Provider :=
  { p with variantMappings := link p.variantMappings (mappingVariants item) mappingKey }

/-- `removeReverseMappingLocked`. -/
def removeReverseMapping (p : Provider) (mappingKey : Key) (item : CacheItem) : Provider :=
  { p with variantMappings := unlink p.variantMappings (mappingVariants item) mappingKey }

/-- The heap without the entry of an item, if it stands there. -/
def removeExpiration (heap : Heap) (item : CacheItem) : Heap :=
  match item.expiration with
  | some id => if 0 ≤ heap.index id then remove heap (heap.index id).toNat else heap
  | none => heap

/-- `removeItemAccountingLocked`.  Every body has one element in the list, so
removing its key removes it. -/
def removeItemAccounting (p : Provider) (key : Key) (item : CacheItem) : Provider :=
  { p with
    lru := if item.file then p.lru.erase key else p.lru
    expirations := removeExpiration p.expirations item
    bodyEntries := if item.file then p.bodyEntries - 1 else p.bodyEntries
    mappingEntries := if item.file then p.mappingEntries else p.mappingEntries - 1 }

/-- `addItemAccountingLocked`. -/
def addItemAccounting (p : Provider) (item : CacheItem) : Provider :=
  { p with
    bodyEntries := if item.file then p.bodyEntries + 1 else p.bodyEntries
    mappingEntries := if item.file then p.mappingEntries else p.mappingEntries + 1 }

/-- A new heap entry for an item that expires. -/
def expirationFor (heap : Heap) (key : Key) (item : CacheItem) : CacheItem × Heap :=
  if item.expiresAt = 0 then (item, heap)
  else
    let allocated := alloc heap ⟨item.expiresAt, key, item.generation⟩
    ({ item with expiration := some allocated.1 }, push allocated.2 allocated.1)

/-- Take out what is held at a key. -/
def dropOld (p : Provider) (key : Key) : Provider :=
  match p.items.lookup key with
  | some old => (p.removeReverseMapping key old).removeItemAccounting key old
  | none => p

/-- Put in an item. -/
def installItem (p : Provider) (key : Key) (item : CacheItem) : Provider :=
  let entered := expirationFor p.expirations key item
  (({ p with
      lru := if item.file then p.lru ++ [key] else p.lru
      expirations := entered.2
      items := p.items.insert key entered.1 }.addReverseMapping key entered.1).addItemAccounting
    entered.1)

/-- The first loop of `applyBatchLocked`, for one key. -/
def applyItem (items : Items) (p : Provider) (key : Key) : Provider :=
  let p := p.dropOld key
  match items.lookup key with
  | none => { p with items := p.items.erase key }
  | some item => p.installItem key item

/-- The second loop of `applyBatchLocked`: the staged groups replace the old
ones. -/
def applyGroups (p : Provider) (groups : Finset (Key × Key)) (staged : Finset Key) : Provider :=
  { p with
    groups := p.groups.filter (·.1 ∉ staged) ∪ groups.filter (·.1 ∈ staged)
    itemGroups :=
      p.itemGroups.filter (fun q => ¬ (q.2 ∈ staged ∧ (q.2, q.1) ∈ p.groups)) ∪
        (groups.filter (·.1 ∈ staged)).image Prod.swap }

/-- `applyBatchLocked`. -/
def applyBatch (order : MapOrder) (p : Provider) (s : BatchState) : Provider :=
  let p := (order.list [] s.staged).foldl (applyItem s.items)
    { p with nextVersion := s.nextVersion, expirations := s.expirations }
  let p := p.applyGroups s.groups s.stagedGroups
  { p with
    cacheUsed := s.used
    physicalUsed := s.physical
    dirtyItems := ∅
    dirtyGroups := ∅ }

/-- What is left of a batch that is not committed: the version counter and the
heap. -/
def keep (p : Provider) (s : BatchState) (heap : Heap) : Provider :=
  { p with nextVersion := s.nextVersion, expirations := heap }

/-- Write a batch and apply it; a batch that cannot be written is dropped. -/
def commit (order : MapOrder) (commits : Bool) (p : Provider) (s : BatchState) : Provider :=
  match persistBatch p s commits with
  | some index => { p with index := index }.applyBatch order s
  | none => p.keep s s.expirations

/-- As `commit`, but a batch that is dropped gives the heap its entries back. -/
def commitOrRestore (order : MapOrder) (commits : Bool) (p : Provider) (s : BatchState) :
    Provider :=
  match persistBatch p s commits with
  | some index => { p with index := index }.applyBatch order s
  | none => p.keep s (s.restoreExpiry p)

end Provider

end CacheProvider
