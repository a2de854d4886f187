import GovetoEdge.ProviderOperations
import GovetoEdge.Runs

/-!
# The disk cache: restarts and runs

`restart` is `loadIndex`: a new provider is built from the rows of the index
and the body files that are on disk.  Rows that cannot be used are dropped and
marked, records that list a body that is gone are repaired, and if anything
was marked the index is written again.

`Op` collects an operation with all it depends on, and `step` runs it.  An
operation runs under the provider's locks, so it is one step.  A lookup takes
the lock several times: its effects are the steps `touch`, `removeExpired`,
`removeCorrupt` and `removeInvalidMapping`.
-/

namespace ProviderRuns

open GoStrings HttpHeaders CacheMapping CacheProvider FiniteMaps ProviderOperations

/-- What `inspectCachedResponseFile` and `os.Stat` tell about a body file. -/
structure FileInfo where
  compressedSize : Nat
  originalSize : Nat
  checksum : GoString
  stat : Option (Int × Nat)

/-- The disk a provider starts on: whether the index opens, the body files that
can be read, and the rows that are no JSON. -/
structure Snapshot where
  opens : Bool
  files : FileName → Option FileInfo
  damagedItem : Key → Bool
  damagedGroup : Key → Bool

/-- `roundUp4K`. -/
def roundUp4K (value : Nat) : Nat := (value + 4095) / 4096 * 4096

/-- The body a file on disk is loaded as. -/
def FileInfo.body (info : FileInfo) (file : FileName) : Body where
  file := file
  compressedSize := info.compressedSize
  physicalSize := (info.stat.map Prod.snd).getD (roundUp4K info.compressedSize)
  originalSize := info.originalSize
  checksum := info.checksum

/-- A provider while it loads, and whether something has to be written. -/
structure Loading where
  provider : Provider
  repaired : Bool

namespace Loading

/-- A row that cannot be used, or not as it is. -/
def markItem (l : Loading) (key : Key) : Loading :=
  { provider := { l.provider with dirtyItems := insert key l.provider.dirtyItems }
    repaired := true }

/-- A group is to be written again. -/
def markGroup (l : Loading) (group : Key) : Loading :=
  { provider := { l.provider with dirtyGroups := insert group l.provider.dirtyGroups }
    repaired := true }

/-- Enter an item that was read. -/
def enter (enc : Encoding) (l : Loading) (key : Key) (content : Content) (row : DiskItem)
    (modifiedAt : Int) : Loading :=
  let p := l.provider
  let item : CacheItem :=
    { content := content
      expiresAt := row.expiresAt
      lastAccess := row.lastAccess
      generation := p.nextVersion + 1
      accountedSize := accountedItemSize enc key content
      modifiedAt := modifiedAt
      expiration := none }
  let entered := Provider.expirationFor p.expirations key item
  { l with
    provider := { p with
      nextVersion := p.nextVersion + 1
      expirations := entered.2
      items := p.items.insert key entered.1
      cacheUsed := p.cacheUsed + item.accountedSize
      physicalUsed := p.physicalUsed + item.physicalSize }.addItemAccounting entered.1 }

end Loading

variable (enc : Encoding) (order : MapOrder)

/-- The content a row is loaded with, unless the row cannot be used. -/
def loadedContent (disk : Snapshot) (now : Int) (key : Key) (row : DiskItem) : Option Content :=
  if disk.damagedItem key ∨ row.expiresAt ≠ 0 ∧ row.expiresAt ≤ now then none
  else
    match row.content with
    | .body b => (disk.files b.file).map fun info => .body (info.body b.file)
    | .record mapping length => some (.record mapping length)
    | .raw bytes => if mappingKeyPrefix <+: key then none else some (.raw bytes)

/-- The modification time a row is loaded with. -/
def loadedModifiedAt (disk : Snapshot) (row : DiskItem) : Int :=
  match row.content with
  | .body b =>
    (((disk.files b.file).bind FileInfo.stat).map Prod.fst).getD row.modifiedAt
  | .record _ _ => 0
  | .raw _ => 0

/-- Whether a body file is as its row says. -/
def asWritten : Content → Content → Bool
  | .body found, .body row =>
    found.compressedSize = row.compressedSize ∧ found.originalSize = row.originalSize ∧
      found.checksum = row.checksum
  | _, _ => true

/-- The first loop of `loadIndex`, for one row. -/
def loadItem (disk : Snapshot) (now : Int) (l : Loading) (key : Key) (row : DiskItem) : Loading :=
  match loadedContent disk now key row with
  | none => l.markItem key
  | some content =>
    -- a file that is not as the row says is loaded, and its row written again
    let l := if asWritten content row.content then l else l.markItem key
    l.enter enc key content row (loadedModifiedAt disk row)

/-- The second loop of `loadIndex`, for the row of one group. -/
def loadGroup (disk : Snapshot) (l : Loading) (group : Key) (keys : List Key) : Loading :=
  if disk.damagedGroup group then l.markGroup group
  else
    let held := keys.filter (· ∈ l.provider.items)
    let l := if held = keys then l else l.markGroup group
    { l with
      provider := { l.provider with
        groups := l.provider.groups ∪ (held.map fun key => (group, key)).toFinset
        itemGroups := l.provider.itemGroups ∪ (held.map fun key => (key, group)).toFinset } }

/-- The bodies in the order they were last used. -/
def accessOrder (items : Items) : List Key :=
  let bodies := items.keys.filter fun key => (items.lookup key).any (·.file)
  (order.list [] bodies).insertionSort fun a b =>
    (items.lookup a).elim 0 (·.lastAccess) ≤ (items.lookup b).elim 0 (·.lastAccess)

/-- The links of all records. -/
def reverseMappings (items : Items) : Finset (Key × Key) :=
  items.keys.biUnion fun key =>
    ((items.lookup key).elim ∅ mappingVariants).image fun variant => (variant, key)

/-- `forgetItemLocked`. -/
def forgetItem (p : Provider) (key : Key) (item : CacheItem) : Provider :=
  let p := ({ p with items := p.items.erase key }.removeReverseMapping key item)
    |>.removeItemAccounting key item
  let groups := related p.itemGroups key
  { p with
    dirtyItems := insert key p.dirtyItems
    groups := unlink p.groups groups key
    dirtyGroups := p.dirtyGroups ∪ groups
    itemGroups := p.itemGroups.filter (·.1 ≠ key)
    cacheUsed := p.cacheUsed - item.accountedSize
    physicalUsed := p.physicalUsed - item.physicalSize }

/-- The item is a body. -/
def isBody (items : Items) (key : Key) : Bool := (items.lookup key).any (·.file)

/-- A record without the variants whose bodies are gone. -/
def heldVariants (items : Items) (mapping : Variants) : Variants :=
  (sortedKeys (mapping.keys.filter fun key => !isBody items key)).foldl
    (fun m key => m.erase key) mapping

/-- Write a record again, in place.  Its heap entry stays as it is. -/
def rewriteRecord (p : Provider) (key : Key) (item : CacheItem) (value : Content) : Provider :=
  let rewritten := { item with content := value, generation := p.nextVersion + 1 }
  { p.removeReverseMapping key item with
    nextVersion := p.nextVersion + 1
    items := p.items.insert key rewritten
    dirtyItems := insert key p.dirtyItems }.addReverseMapping key rewritten

/-- The loop of `repairMappingsLocked`, for one record that lists `mapping`. -/
def repairRecord (p : Provider) (key : Key) (item : CacheItem) (mapping : Variants) :
    Provider × Bool :=
  let kept := heldVariants p.items mapping
  if kept.keys = mapping.keys then (p, false)
  else if kept.keys = ∅ then (forgetItem p key item, true)
  else
    match encodeMapping enc kept with
    | none => (forgetItem p key item, true)
    | some value => (rewriteRecord p key item value, true)

/-- The loop of `repairMappingsLocked`, for one key. -/
def repairMapping (l : Loading) (key : Key) : Loading :=
  match l.provider.items.lookup key with
  | none => l
  | some item =>
    if ¬ mappingKeyPrefix <+: key then l
    else
      match item.content with
      | .record (some mapping) _ =>
        let repaired := repairRecord enc l.provider key item mapping.val
        ⟨repaired.1, l.repaired || repaired.2⟩
      | .record none _ => l
      | .body _ => l
      | .raw _ => l

/-- The rows of an index, in the order a map is iterated. -/
def rows {γ : Type} (bucket : Finmap fun _ : Key => γ) : List (Key × γ) :=
  (order.list [] bucket.keys).filterMap fun key => (bucket.lookup key).map fun row => (key, row)

/-- `loadIndex` up to the repair of the records. -/
def loadTables (disk : Snapshot) (now : Int) (index : Index) : Loading :=
  let l : Loading := ⟨{ emptyProvider with index := index }, false⟩
  let l := (rows order index.items).foldl (fun l q => loadItem enc disk now l q.1 q.2) l
  let l := (rows order index.groups).foldl (fun l q => loadGroup disk l q.1 q.2) l
  { l with
    provider := { l.provider with
      lru := accessOrder order l.provider.items
      variantMappings := reverseMappings l.provider.items } }

/-- `persistIndexLocked`. -/
def persistIndex (p : Provider) (commits : Bool) : Option Provider :=
  if commits then
    (putRows p.index p.items p.groups p.dirtyItems p.dirtyGroups p.cacheUsed).map fun index =>
      { p with index := index, dirtyItems := ∅, dirtyGroups := ∅ }
  else none

/-- `loadIndex`; there is no provider when the repaired index cannot be
written.  An index that does not open is replaced by an empty one. -/
def restart (disk : Snapshot) (now : Int) (commits : Bool) (index : Index) : Option Provider :=
  if disk.opens then
    let l := loadTables enc order disk now index
    let l := (order.list [] l.provider.items.keys).foldl (repairMapping enc) l
    if l.repaired then persistIndex l.provider commits else some l.provider
  else some emptyProvider

/-- The operations of the cache. -/
inductive Action
  | flush (ctx : FlushContext) (batch : List (Int × PendingWrite))
  | refresh (baseKey : Key) (request : Header) (found now duration stale : Int) (update : Header)
  | set (key : Key) (value : Text) (now duration : Int)
  | delete (key : Key)
  | deleteMany (found : Key → Bool) (expression : GoString)
  | deleteEntry (baseKey : Key)
  | purge (kind : PurgeType) (markers : List GoString)
  | reset
  | prune (now : Int)
  | evict (requiredAccounted requiredPhysical : Nat)
  | removeExpired (key : Key) (generation : Nat) (now : Int)
  | removeCorrupt (key : Key) (generation : Nat)
  | removeInvalidMapping (key : Key) (bytes : GoString)
  | touch (key : Key) (generation : Nat) (now modifiedAt : Int)
  | restart (disk : Snapshot) (now : Int)

/-- An operation, the iteration order of its maps, and whether the database
commits its transaction. -/
structure Op where
  action : Action
  order : MapOrder
  commits : Bool

/-- Commit a batch if it stages anything. -/
def commitStaged (op : Op) (p : Provider) (s : BatchState) : Provider :=
  if s.staged = ∅ then p.keep s s.expirations else p.commit op.order op.commits s

/-- `deleteItemIf`. -/
def deleteItemIf (op : Op) (p : Provider) (key : Key) (found : CacheItem → Bool) : Provider :=
  match p.items.lookup key with
  | none => p
  | some item =>
    if found item then
      p.commit op.order op.commits ((newBatchState p).deleteItem enc op.order key)
    else p

/-- The item whose value could not be decoded is still held. -/
def isInvalid (bytes : GoString) (item : CacheItem) : Bool :=
  match item.content with
  | .raw b => b = bytes
  | .record _ _ => false
  | .body _ => false

/-- `pruneExpired`. -/
def pruneExpired (op : Op) (p : Provider) (now : Int) : Provider :=
  let s := (newBatchState p).stageExpired enc op.order p now
  if s.staged = ∅ then p.keep s s.expirations else p.commitOrRestore op.order op.commits s

/-- One operation of the cache. -/
def step (p : Provider) (op : Op) : Option Provider :=
  match op.action with
  | .flush ctx batch => some (flushBatch enc op.order p ctx batch op.commits).1
  | .refresh baseKey request found now duration stale update =>
    match stageRefresh enc op.order p baseKey request found now duration stale update with
    | none => some p
    | some s => some (p.commit op.order op.commits s)
  | .set key value now duration =>
    some (p.commit op.order op.commits (stageSet enc p key value now duration))
  | .delete key =>
    some (commitStaged op p ((newBatchState p).deleteItem enc op.order key))
  | .deleteMany found expression =>
    some (commitStaged op p (stageDeleteMany enc op.order p found expression))
  | .deleteEntry baseKey => some (deleteEntry enc op.order p baseKey op.commits)
  | .purge kind markers =>
    some (commitStaged op p
      (stageDeletions enc op.order (newBatchState p) (purgeKeys op.order p kind markers)))
  | .reset => some (if op.commits then ProviderOperations.reset p else p)
  | .prune now => some (pruneExpired enc op p now)
  | .evict requiredAccounted requiredPhysical =>
    some (commitStaged op p
      (evictLoop enc op.order requiredAccounted requiredPhysical p.lru 0 0 (newBatchState p)))
  | .removeExpired key generation now =>
    some (deleteItemIf enc op p key fun item =>
      item.generation = generation ∧ item.expiresAt ≠ 0 ∧ item.expiresAt ≤ now)
  | .removeCorrupt key generation =>
    some (deleteItemIf enc op p key fun item => item.generation = generation)
  | .removeInvalidMapping key bytes =>
    some (deleteItemIf enc op p key (isInvalid bytes))
  | .touch key generation now modifiedAt => some (touchItem p key generation now modifiedAt)
  | .restart disk now => ProviderRuns.restart enc op.order disk now op.commits p.index

/-- Texts of a length that is easy to compute. -/
def plainEncoding : Encoding := ⟨10, fun m => ⟨m.keys.card + 1, Nat.succ_pos _⟩⟩

/-- A write of a small body without request headers, groups or a stale time. -/
def plainWrite (baseKey variedKey : GoString) (duration : Int) : PendingWrite where
  baseKey := baseKey
  variedKey := variedKey
  compressedSize := 100
  physicalSize := 4096
  measured := 4096
  originalSize := 200
  checksum := variedKey
  groups := []
  variedHeaders := noHeader
  etag := []
  duration := duration
  realKey := variedKey

/-- A batch at a time, on a large disk, within a limit of accounted bytes. -/
def plainBatch (maxBytes : Nat) (now : Int) (writes : List PendingWrite) : Op where
  action := .flush
    { stale := 0
      limits := ⟨false, maxBytes, 80⟩
      started := now
      usage := some ⟨1000000000, 0⟩
      installed := some fun _ => now }
    (writes.map fun w => (now, w))
  order := byteOrder
  commits := true

/-- An operation whose transaction succeeds. -/
def committed (action : Action) : Op := ⟨action, byteOrder, true⟩

/-- A disk with the files of the given keys, as `plainWrite` leaves them. -/
def plainDisk (keys : List Key) : Snapshot where
  opens := true
  files file := if file.key ∈ keys then some ⟨100, 200, file.checksum, some (0, 4096)⟩ else none
  damagedItem _ := false
  damagedGroup _ := false

end ProviderRuns
