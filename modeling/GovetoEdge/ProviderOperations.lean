import GovetoEdge.CacheProvider

/-!
# The disk cache: operations

The operations of the provider as functions of its state.  Clocks, the disk,
the database's answer to a transaction and the iteration order of maps are
arguments.

* `flushBatch` stages the writes of a batch one after the other; each may
  evict bodies from the front of the least-recently-used list.
* `stageRefresh`, `stageSet`, `stageDeleteEntry` and the others stage one
  operation; the caller commits it.
-/

namespace ProviderOperations

open GoStrings HttpHeaders CacheMapping CacheProvider FiniteMaps ExpirationHeap

/-- `limits`. -/
structure Limits where
  auto : Bool
  maxBytes : Nat
  maxDiskUsagePercent : Int

/-- `disk.UsageStat`. -/
structure Usage where
  total : Nat
  used : Nat

/-- `capacityBudget`. -/
structure Budget where
  accountedUsed : Nat
  physicalUsed : Nat
  accountedAvailable : Nat
  physicalAvailable : Nat

/-- `normalizePercent`. -/
def normalizePercent (value : Int) : Nat :=
  if value < 1 then 80 else if 90 < value then 90 else value.toNat

/-- `capacityAvailableWithUsage`, in 64-bit arithmetic. -/
def capacityAvailable (p : Provider) (limits : Limits) (transient : Nat) (usage : Usage) :
    Budget :=
  let target := usage.total * normalizePercent limits.maxDiskUsagePercent % 2 ^ 64 / 100
  let tracked := (p.physicalUsed + transient) % 2 ^ 64
  let nonCacheUsed := if tracked < usage.used then usage.used - tracked else 0
  { accountedUsed := p.cacheUsed
    physicalUsed := p.physicalUsed
    accountedAvailable :=
      if !limits.auto ∧ 0 < limits.maxBytes then limits.maxBytes else 2 ^ 64 - 1
    physicalAvailable := if nonCacheUsed < target then target - nonCacheUsed else 0 }

/-- The loop of `evictionCandidates` over the least-recently-used list. -/
def collectCandidates (s : BatchState) (protect : Finset Key)
    (requiredAccounted requiredPhysical : Nat) : List Key → Nat → Nat → Option (List Key)
  | [], _, _ => none
  | key :: rest, freedAccounted, freedPhysical =>
    match s.getItem key with
    | none => collectCandidates s protect requiredAccounted requiredPhysical rest
        freedAccounted freedPhysical
    | some item =>
      if key ∈ protect ∨ item.file = false then
        collectCandidates s protect requiredAccounted requiredPhysical rest
          freedAccounted freedPhysical
      else if requiredAccounted ≤ freedAccounted + item.accountedSize ∧
          requiredPhysical ≤ freedPhysical + item.physicalSize then some [key]
      else
        (collectCandidates s protect requiredAccounted requiredPhysical rest
          (freedAccounted + item.accountedSize) (freedPhysical + item.physicalSize)).map
          (key :: ·)

/-- `evictionCandidates`. -/
def evictionCandidates (s : BatchState) (lru : List Key) (protect : Finset Key)
    (neededAccounted accountedAvailable neededPhysical physicalAvailable : Nat) :
    Option (List Key) :=
  if neededAccounted ≤ accountedAvailable ∧ neededPhysical ≤ physicalAvailable then some []
  else collectCandidates s protect (neededAccounted - accountedAvailable)
    (neededPhysical - physicalAvailable) lru 0 0

/-- `pendingWrite`; `measured` is the size of the temporary file on disk, taken
when `physicalSize` is zero. -/
structure PendingWrite where
  baseKey : Key
  variedKey : Key
  compressedSize : Nat
  physicalSize : Nat
  measured : Nat
  originalSize : Nat
  checksum : GoString
  groups : List Key
  variedHeaders : Header
  etag : GoString
  duration : Int
  realKey : GoString

namespace PendingWrite

/-- The file of a variant. -/
def finalPath (w : PendingWrite) : FileName := ⟨w.variedKey, w.checksum⟩

/-- The size on disk, or the measured one. -/
def size (w : PendingWrite) : Nat := if w.physicalSize = 0 then w.measured else w.physicalSize

/-- The content of the body the write stores. -/
def body (w : PendingWrite) : Content :=
  .body ⟨w.finalPath, w.compressedSize, w.size, w.originalSize, w.checksum⟩

end PendingWrite

/-- What `flushBatch` reports for a write. -/
inductive WriteResult
  | committed
  | invalidMapping
  | noCapacity
  | failed
deriving DecidableEq

section Flush

variable (enc : Encoding) (order : MapOrder)

/-- What was held at a write's key goes: its groups, and its size and file when
it was a body. -/
def dropOverwritten (s : BatchState) (key : Key) (finalPath : FileName) :
    Option CacheItem → BatchState
  | none => s
  | some old =>
    let s := s.removeItemGroups key
    match old.content with
    | .body b =>
      { s.discount old with
        obsoleteFiles :=
          if b.file = finalPath then s.obsoleteFiles else insert b.file s.obsoleteFiles }
    | .record _ _ => { s with miscounted := true }
    | .raw _ => { s with miscounted := true }

/-- Stage the body of a write. -/
def stageBody (s : BatchState) (key : Key) (item : CacheItem) : BatchState :=
  { s with
    used := s.used + item.accountedSize
    physical := s.physical + item.physicalSize }.stagePresent key item

/-- LRU eviction of the chosen candidates. -/
def evictCandidates (s : BatchState) (candidates : List Key) : BatchState :=
  candidates.foldl (fun s key => { s.deleteItem enc order key with evicted := s.evicted + 1 }) s

/-- The groups a write names, for the body and for the record. -/
def stageGroups (s : BatchState) (w : PendingWrite) : BatchState :=
  w.groups.foldl
    (fun s group => (s.addItemGroup w.variedKey group).addItemGroup (mappingKey w.baseKey) group) s

/-- The item of a write's body. -/
def bodyItem (stale now : Int) (generation : Nat) (w : PendingWrite) : CacheItem where
  content := w.body
  expiresAt := now + (w.duration + stale)
  lastAccess := now
  generation := generation
  accountedSize := accountedItemSize enc w.variedKey w.body
  modifiedAt := 0
  expiration := none

/-- The item of a write's mapping record. -/
def mappingItem (stale now : Int) (generation : Nat) (w : PendingWrite) (record : Content) :
    CacheItem where
  content := record
  expiresAt := now + (w.duration + stale)
  lastAccess := now
  generation := generation
  accountedSize := accountedItemSize enc (mappingKey w.baseKey) record
  modifiedAt := 0
  expiration := none

/-- The variant a write announces. -/
def PendingWrite.keyIndex (stale now : Int) (w : PendingWrite) : KeyIndex :=
  CacheMapping.keyIndex now (now + w.duration) (now + (w.duration + stale)) w.variedHeaders w.etag
    w.realKey

/-- The record a write makes of the one that is held. -/
def writtenRecord (stale now : Int) (s : BatchState) (w : PendingWrite) : Option Content :=
  mappingUpdater enc w.variedKey ((s.getItem (mappingKey w.baseKey)).map CacheItem.content)
    (w.keyIndex stale now)

/-- The bodies that have to go for a write, when there is room for it at all. -/
def candidatesFor (lru : List Key) (budget : Budget) (s : BatchState) (protect : Finset Key)
    (w : PendingWrite) (record : Content) : Option (List Key) :=
  let oldBody := (s.getItem w.variedKey).filter (·.file)
  let oldAccounted := oldBody.elim 0 (·.accountedSize)
  let oldPhysical := oldBody.elim 0 (·.physicalSize)
  let oldMapping := (s.getItem (mappingKey w.baseKey)).elim 0 (·.accountedSize)
  let bodySize := accountedItemSize enc w.variedKey w.body
  let mappingSize := accountedItemSize enc (mappingKey w.baseKey) record
  if budget.accountedAvailable < bodySize + mappingSize ∨ budget.physicalAvailable < w.size then
    none
  else
    evictionCandidates s lru (insert w.variedKey protect)
      (s.used - oldAccounted - oldMapping + bodySize + mappingSize) budget.accountedAvailable
      (s.physical - oldPhysical + w.size) budget.physicalAvailable

/-- The first part of an accepted write: the generation of its body is drawn,
the candidates are evicted, and what was held at its key goes. -/
def makeRoom (s : BatchState) (w : PendingWrite) (candidates : List Key) : BatchState :=
  dropOverwritten (evictCandidates enc order s.bumpVersion candidates) w.variedKey w.finalPath
    (s.getItem w.variedKey)

/-- The second part: its body. -/
def placeBody (stale now : Int) (s : BatchState) (w : PendingWrite) (candidates : List Key) :
    BatchState :=
  stageBody (makeRoom enc order s w candidates) w.variedKey
    (bodyItem enc stale now (s.nextVersion + 1) w)

/-- The staging of a write that is accepted: after the body the record, and the
groups of both. -/
def acceptWrite (stale now : Int) (s : BatchState) (w : PendingWrite) (record : Content)
    (candidates : List Key) : BatchState :=
  let s := placeBody enc order stale now s w candidates
  stageGroups (s.bumpVersion.stageMapping enc (mappingKey w.baseKey)
    (some (mappingItem enc stale now (s.nextVersion + 1) w record))) w

/-- The loop of `flushBatch`, for one write: the staged state, the keys that no
later write may evict, and the result. -/
def stageWrite (stale : Int) (lru : List Key) (budget : Budget)
    (acc : BatchState × Finset Key) (now : Int) (w : PendingWrite) :
    (BatchState × Finset Key) × WriteResult :=
  match writtenRecord enc stale now acc.1 w with
  | none => (acc, .invalidMapping)
  | some record =>
    match candidatesFor enc lru budget acc.1 acc.2 w record with
    | none => ((acc.1.bumpVersion, acc.2), .noCapacity)
    | some candidates =>
      ((acceptWrite enc order stale now acc.1 w record candidates,
        insert w.variedKey acc.2), .committed)

/-- The loop of `flushBatch` over a batch; every write has the time it is
staged at. -/
def stageWrites (stale : Int) (lru : List Key) (budget : Budget) :
    List (Int × PendingWrite) → BatchState × Finset Key →
      (BatchState × Finset Key) × List WriteResult
  | [], acc => (acc, [])
  | (now, w) :: rest, acc =>
    let first := stageWrite enc order stale lru budget acc now w
    let others := stageWrites stale lru budget rest first.1
    (others.1, first.2 :: others.2)

/-- Note the modification times of the installed files. -/
def stampBodies (modifiedAt : FileName → Int) (s : BatchState) (accepted : List PendingWrite) :
    BatchState :=
  accepted.foldl
    (fun s w =>
      match s.getItem w.variedKey with
      | some item => s.stagePresent w.variedKey { item with modifiedAt := modifiedAt w.finalPath }
      | none => s) s

/-- What surrounds a batch: the site's limits, the clock when the batch starts,
the disk, and whether the files can be installed, with the times they get. -/
structure FlushContext where
  stale : Int
  limits : Limits
  started : Int
  usage : Option Usage
  installed : Option (FileName → Int)

/-- The writes of a batch that were accepted. -/
def acceptedWrites (batch : List (Int × PendingWrite)) (results : List WriteResult) :
    List PendingWrite :=
  ((batch.zip results).filter fun q => q.2 = .committed).map fun q => q.1.2

/-- The results of a batch whose accepted writes could not be committed. -/
def failedResults (results : List WriteResult) : List WriteResult :=
  results.map fun r => if r = .committed then .failed else r

/-- The staging of a batch, up to the installation of its files. -/
def stageBatch (p : Provider) (ctx : FlushContext) (batch : List (Int × PendingWrite))
    (usage : Usage) : BatchState × List WriteResult :=
  let s := (newBatchState p).stageExpired enc order p ctx.started
  let transient := (batch.map fun q => q.2.size).sum
  let budget := capacityAvailable p ctx.limits transient usage
  let staged := stageWrites enc order ctx.stale p.lru budget batch (s, ∅)
  (staged.1.1, staged.2)

/-- The batch `flushBatch` tries to commit, when it gets that far. -/
def stageFlush (p : Provider) (ctx : FlushContext) (batch : List (Int × PendingWrite)) :
    Option BatchState := do
  let usage ← ctx.usage
  let modifiedAt ← ctx.installed
  let staged := stageBatch enc order p ctx batch usage
  let accepted := acceptedWrites batch staged.2
  guard (accepted ≠ [])
  some (stampBodies modifiedAt staged.1 accepted)

/-- The batch `flushBatch` gives up before it tries to commit it. -/
def abandonedFlush (p : Provider) (ctx : FlushContext) (batch : List (Int × PendingWrite)) :
    BatchState :=
  match ctx.usage with
  | none => (newBatchState p).stageExpired enc order p ctx.started
  | some usage => (stageBatch enc order p ctx batch usage).1

/-- What `flushBatch` reports when it does not commit. -/
def abandonedResults (p : Provider) (ctx : FlushContext) (batch : List (Int × PendingWrite)) :
    List WriteResult :=
  match ctx.usage with
  | none => batch.map fun _ => .failed
  | some usage => failedResults (stageBatch enc order p ctx batch usage).2

/-- `flushBatch`. -/
def flushBatch (p : Provider) (ctx : FlushContext) (batch : List (Int × PendingWrite))
    (commits : Bool) : Provider × List WriteResult :=
  match stageFlush enc order p ctx batch with
  | none =>
    let s := abandonedFlush enc order p ctx batch
    (p.keep s (s.restoreExpiry p), abandonedResults enc order p ctx batch)
  | some s =>
    match persistBatch p s commits with
    | none => (p.keep s (s.restoreExpiry p), abandonedResults enc order p ctx batch)
    | some index =>
      ({ p with index := index }.applyBatch order s,
        (ctx.usage.map fun usage => (stageBatch enc order p ctx batch usage).2).getD [])

end Flush

section Refresh

variable (enc : Encoding) (order : MapOrder)

/-- The response headers a revalidation keeps. -/
def refreshedNames : List GoString :=
  ["Cache-Control", "Content-Location", "Date", "ETag", "Expires", "Last-Modified", "Vary"].map lit

/-- The variant after a revalidation. -/
def refreshIndex (now duration stale : Int) (update : Header) (i : KeyIndex) : KeyIndex :=
  let revalidated := refreshedNames.foldl
    (fun out name =>
      match update.entries.lookup name with
      | some values => out.put name (values.map Utf8.toValid)
      | none => out) i.revalidated
  let etag := revalidated.get (lit "ETag")
  { i with
    storedAt := now
    freshTime := now + duration
    staleTime := now + (duration + stale)
    revalidated := revalidated
    etag := if etag = [] then i.etag else etag }

/-- The first variant of a record that fits a request. -/
def matchingVariant (mapping : Variants) (request : Header) (keys : List Key) : Option Key :=
  keys.find? fun key => (mapping.lookup key).any (·.matchesRequest request)

/-- What a refresh changes: the record, rewritten, and the body of the variant
that fits the request. -/
structure RefreshTarget where
  record : CacheItem
  variedKey : Key
  body : CacheItem
  encoded : Content

/-- `Refresh` up to the staging; there may be nothing to refresh. -/
def refreshTarget (p : Provider) (baseKey : Key) (request : Header) (found duration stale : Int)
    (update : Header) : Option RefreshTarget := do
  let record ← p.items.lookup (mappingKey baseKey)
  guard (record.file = false)
  let mapping ← record.content.decodeMapping
  let variants := mapping.getD ∅
  let variedKey ← matchingVariant variants request (order.list (mappingKey baseKey) variants.keys)
  guard (variedKey ≠ [])
  let i ← variants.lookup variedKey
  let body ← p.items.lookup variedKey
  guard (body.file = true)
  let encoded ← encodeMapping enc
    (variants.insert variedKey (refreshIndex found duration stale update i))
  some ⟨record, variedKey, body, encoded⟩

/-- The staging of a refresh. -/
def stageTarget (p : Provider) (baseKey : Key) (target : RefreshTarget) (now expiresAt : Int) :
    BatchState :=
  let s := (newBatchState p).bumpVersion.stageMapping enc (mappingKey baseKey)
    (some { target.record with
      content := target.encoded, expiresAt := expiresAt, lastAccess := now
      generation := p.nextVersion + 1 })
  s.bumpVersion.stagePresent target.variedKey
    { target.body with
      expiresAt := expiresAt, lastAccess := now, generation := s.nextVersion + 1 }

/-- `Refresh`: the staged state.  The clock is read when the variant is found
and again when the changes are staged. -/
def stageRefresh (p : Provider) (baseKey : Key) (request : Header)
    (found now duration stale : Int) (update : Header) : Option BatchState :=
  (refreshTarget enc order p baseKey request found duration stale update).map fun target =>
    stageTarget enc p baseKey target now (now + (duration + stale))

end Refresh

section Delete

variable (enc : Encoding) (order : MapOrder)

/-- `Set`: the old body, if there is one, goes. -/
def dropForSet (s : BatchState) (key : Key) : BatchState :=
  match s.getItem key with
  | none => s
  | some old =>
    match old.content with
    | .body b =>
      { s.discount old with
        obsoleteFiles := insert b.file s.obsoleteFiles, miscounted := true }
    | .record _ _ => s
    | .raw _ => s

/-- Take what is held at a key off the counters. -/
def discountHeld (s : BatchState) (key : Key) : BatchState :=
  match s.getItem key with
  | some old => s.discount old
  | none => s

/-- The item `Set` stores. -/
def setItem (key : Key) (value : Text) (now duration : Int) (generation : Nat) : CacheItem where
  content := value.val
  expiresAt := if 0 < duration then now + duration else 0
  lastAccess := now
  generation := generation
  accountedSize := accountedItemSize enc key value.val
  modifiedAt := 0
  expiration := none

/-- The staging of `Set`. -/
def stageSet (p : Provider) (key : Key) (value : Text) (now duration : Int) : BatchState :=
  let s := (dropForSet (newBatchState p) key).bumpVersion
  let item := setItem enc key value now duration s.nextVersion
  if mappingKeyPrefix <+: key then s.stageMapping enc key (some item)
  else
    let s := discountHeld s key
    { s with used := s.used + item.accountedSize }.stagePresent key item

/-- Deletion of several keys one after the other. -/
def stageDeletions (s : BatchState) (keys : List Key) : BatchState :=
  keys.foldl (fun s key => s.deleteItem enc order key) s

/-- The staging of `DeleteMany`; `found` tells whether the expression matches. -/
def stageDeleteMany (p : Provider) (found : Key → Bool) (expression : GoString) : BatchState :=
  stageDeletions enc order (newBatchState p)
    ((order.list [] p.items.keys).filter fun key => found key || expression.isPrefixOf key)

/-- The variants the reverse index links to a record. -/
def linkedVariants (p : Provider) (mappingKey : Key) : Finset Key :=
  (p.variantMappings.filter (·.2 = mappingKey)).image Prod.fst

/-- The staging of `DeleteEntry`. -/
def stageDeleteEntry (p : Provider) (baseKey : Key) : BatchState :=
  let key := mappingKey baseKey
  let s := newBatchState p
  let s := match p.items.lookup key with
    | none => s
    | some record =>
      if record.file then s
      else
        match record.content.decodeMapping with
        | some mapping =>
          stageDeletions enc order s (order.list key (mapping.getD ∅).keys)
        | none =>
          stageDeletions enc order (s.removeItemGroups key)
            (order.list key (linkedVariants p key))
  s.deleteItem enc order key

/-- `DeleteEntry`; the links of a damaged record are cleaned after the commit. -/
def deleteEntry (p : Provider) (baseKey : Key) (commits : Bool) : Provider :=
  let key := mappingKey baseKey
  let s := stageDeleteEntry enc order p baseKey
  if s.staged = ∅ then p.keep s s.expirations
  else
    match persistBatch p s commits with
    | none => p.keep s s.expirations
    | some index =>
      let applied := { p with index := index }.applyBatch order s
      match p.items.lookup key with
      | some record =>
        if record.file = false ∧ record.content.decodeMapping = none then
          { applied with
            variantMappings := unlink applied.variantMappings (linkedVariants p key) key }
        else applied
      | none => applied

/-- What a purge selects by. -/
inductive PurgeType
  | url
  | pathPrefix
  | tag
deriving DecidableEq

/-- The first occurrence of a text in another, as what stands before and after. -/
def cutText (marker : GoString) : GoString → Option (GoString × GoString)
  | [] => if marker = [] then some ([], []) else none
  | b :: rest =>
    if marker <+: b :: rest then some ([], (b :: rest).drop marker.length)
    else (cutText marker rest).map fun (front, back) => (b :: front, back)

/-- `purgeKeyMatches`. -/
def purgeKeyMatches (key marker : GoString) (kind : PurgeType) : Bool :=
  match cutText marker key with
  | none => false
  | some (front, remainder) =>
    if front ≠ [] ∧ front.getLast? ≠ some 45 then false
    else kind = .pathPrefix || remainder = [] || remainder.head? = some 45

/-- The keys a purge deletes; `markers` are the hosts and paths it names, or
the groups. -/
def purgeKeys (p : Provider) (kind : PurgeType) (markers : List GoString) : List Key :=
  if kind = .tag then
    (markers.flatMap fun group => order.list group (related p.groups group)).eraseDups
  else
    let named := fun key => markers.any fun marker => purgeKeyMatches key marker kind
    let records := (order.list [] p.items.keys).filter fun key =>
      mappingKeyPrefix.isPrefixOf key && (p.items.lookup key).any fun item => !item.file
    (order.list [] p.items.keys).filter named ++
      records.flatMap fun key =>
        let variants := ((p.items.lookup key).map (·.content.variants)).getD ∅
        (order.list key variants.keys).filter fun variedKey =>
          (variants.lookup variedKey).any fun i => named i.realKey

/-- The loop of `evictForBudget`. -/
def evictLoop (requiredAccounted requiredPhysical : Nat) :
    List Key → Nat → Nat → BatchState → BatchState
  | [], _, _, s => s
  | key :: rest, freedAccounted, freedPhysical, s =>
    if requiredAccounted ≤ freedAccounted ∧ requiredPhysical ≤ freedPhysical then s
    else
      match s.getItem key with
      | none => evictLoop requiredAccounted requiredPhysical rest freedAccounted freedPhysical s
      | some item =>
        if item.file then
          evictLoop requiredAccounted requiredPhysical rest
            (freedAccounted + item.accountedSize) (freedPhysical + item.physicalSize)
            { s.deleteItem enc order key with evicted := s.evicted + 1 }
        else
          evictLoop requiredAccounted requiredPhysical rest freedAccounted freedPhysical s

end Delete

/-- `touchItem` once it holds the lock. -/
def touchItem (p : Provider) (key : Key) (generation : Nat) (now modifiedAt : Int) : Provider :=
  match p.items.lookup key with
  | none => p
  | some item =>
    if item.generation ≠ generation then p
    else
      let old := 1000000000 ≤ now - item.lastAccess
      { p with
        items := p.items.insert key
          { item with
            lastAccess := if old then now else item.lastAccess
            modifiedAt := if modifiedAt = 0 then item.modifiedAt else modifiedAt }
        lru := if old ∧ item.file then p.lru.erase key ++ [key] else p.lru
        dirtyItems := insert key p.dirtyItems }

/-- `resetLocked` once the empty index is in place. -/
def reset (p : Provider) : Provider := { emptyProvider with nextVersion := p.nextVersion }

end ProviderOperations
