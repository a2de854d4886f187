import GovetoEdge.IndexLoading

/-!
# The counters of the disk cache

The provider counts the bytes it accounts for, the bytes on disk, and its body
and mapping entries.  Operations adjust the counters step by step, and some
steps take a size off twice: `deleteItem` of a record, `Set` over a body, a
write whose key holds something that is no body.  These steps are marked in
the batch (`miscounted`).

* `Exact` is the staged invariant: the staged counters are the totals of the
  staged items.  Every staging function keeps it unless it marks the batch.
* `counters_exact` lifts it to runs: as long as no committed batch is marked,
  the counters are the totals of the held items.
* `record_deleted_twice` is a history in which they are not.
-/

namespace CounterAccounting

open GoStrings HttpHeaders CacheMapping CacheProvider FiniteMaps ProviderOperations ProviderRuns
open BatchStaging BatchCommit IndexLoading BatchState Provider Runs
open Relation (ReflTransGen)

variable {enc : Encoding} {order : MapOrder} {p q : Provider} {s t : BatchState} {key k : Key}

/-- Bodies count as entries. -/
def bodyCount (item : CacheItem) : Nat := if item.file then 1 else 0

/-- Records count as mappings. -/
def mappingCount (item : CacheItem) : Nat := if item.file then 0 else 1

/-- **The counters of a provider are exact**: the accounted bytes and the bytes
on disk are the totals over the held items, and the entry counters are the
numbers of held bodies and of held records. -/
structure CountersExact (p : Provider) : Prop where
  used : p.cacheUsed = total CacheItem.accountedSize p.items
  physical : p.physicalUsed = total CacheItem.physicalSize p.items
  bodies : p.bodyEntries = total bodyCount p.items
  mappings : p.mappingEntries = total mappingCount p.items

/-- Counters that are the totals of the items. -/
structure Sums (items : Items) (used physical : Nat) : Prop where
  used : used = total CacheItem.accountedSize items
  physical : physical = total CacheItem.physicalSize items

/-- Counters and a reverse index that are exact. -/
structure ExactFor (items : Items) (links : Finset (Key × Key)) (used physical : Nat) : Prop
    extends Sums items used physical where
  links : LinksExact items links

/-- The counters and the reverse index of a batch are exact. -/
abbrev Exact (s : BatchState) : Prop := ExactFor s.items s.variantMappings s.used s.physical

/-- A batch that is not marked is exact. -/
def Sound (s : BatchState) : Prop := s.miscounted = false → Exact s

/-- The mark is never taken back. -/
theorem unmarked_of_edits {new : Key → CacheItem → Prop} {joins : Key → Key → Prop}
    (h : Reworks enc new joins s t) (ht : t.miscounted = false) : s.miscounted = false := by
  induction h with
  | refl => exact ht
  | tail _ hstep ih =>
    apply ih
    cases hstep with
    | count _ _ _ _ _ _ _ mark =>
      rw [Bool.eq_false_iff] at ht ⊢
      exact fun hs => ht (mark hs)
    | _ => exact ht

/-- The mark is never taken back. -/
theorem unmarked_of_shrinks (enc : Encoding) (h : Shrinks enc s t) (ht : t.miscounted = false) :
    s.miscounted = false :=
  unmarked_of_edits h ht

variable {old item : CacheItem} {now : Int}

variable {items : Items} {used physical : Nat}

/-- An item goes from the sums. -/
theorem Sums.erase (h : Sums items used physical) (hold : items.lookup key = some old) :
    Sums (items.erase key) (used - min used old.accountedSize)
      (physical - min physical old.physicalSize) := by
  have hused := total_erase CacheItem.accountedSize items key
  have hphysical := total_erase CacheItem.physicalSize items key
  rw [amount_of_lookup hold] at hused hphysical
  obtain ⟨rfl, rfl⟩ := h
  constructor <;> omega

theorem physicalSize_of_text (h : item.file = false) : item.physicalSize = 0 := by
  unfold CacheItem.file at h
  unfold CacheItem.physicalSize
  cases hc : item.content with
  | body b => simp [hc, Content.file] at h
  | record | raw => rfl

theorem total_erase_of_none {f : CacheItem → Nat} (h : items.lookup key = none) :
    total f (items.erase key) = total f items := by
  have := total_erase f items key
  rwa [amount_of_none h, Nat.add_zero] at this

theorem Sums.erase_of_none (h : Sums items used physical) (hnone : items.lookup key = none) :
    Sums (items.erase key) used physical :=
  ⟨h.used.trans (total_erase_of_none hnone).symm, h.physical.trans (total_erase_of_none hnone).symm⟩

/-- The new item counts. -/
theorem total_insert_erase {f : CacheItem → Nat} :
    total f (items.insert key item) = total f (items.erase key) + f item := by
  have hinsert := total_insert f items key item
  have herase := total_erase f items key
  omega

/-- An item is replaced by one of the same size. -/
theorem total_replace {f : CacheItem → Nat} (hold : items.lookup key = some old)
    (hf : f item = f old) : total f (items.insert key item) = total f items := by
  have := total_insert f items key item
  rw [amount_of_lookup hold] at this
  omega

/-- An item is added to the sums. -/
theorem Sums.insert (h : Sums (items.erase key) used physical) (item : CacheItem) :
    Sums (items.insert key item) (used + item.accountedSize) (physical + item.physicalSize) := by
  constructor
  · rw [total_insert_erase, h.used]
  · rw [total_insert_erase, h.physical]

/-- Forgetting a record takes it off the counters. -/
theorem sums_forgetRecord (enc : Encoding) (hs : Sound s)
    (h : (s.forgetRecord key).miscounted = false) :
    Sums (s.items.erase key) (s.forgetRecord key).used (s.forgetRecord key).physical ∧
      Linked s := by
  have hexact := hs (unmarked_of_shrinks enc (edits_forgetRecord key) h)
  refine ⟨?_, hexact.links⟩
  unfold forgetRecord at h ⊢
  cases hold : s.getItem key with
  | none => exact hexact.toSums.erase_of_none hold
  | some old =>
    simp only [hold, Bool.or_eq_false_iff] at h
    have herase := hexact.toSums.erase hold
    rwa [physicalSize_of_text h.2, Nat.min_zero, Nat.sub_zero] at herase

/-- Deleting a record is sound. -/
theorem sound_stageMapping_none (hs : Sound s) (key : Key) :
    Sound (s.stageMapping enc key none) := by
  intro h
  obtain ⟨hsums, hlinks⟩ := sums_forgetRecord enc hs h
  refine ⟨?_, linksExact_stageMapping_none hlinks key⟩
  show Sums ((s.forgetRecord key).items.erase key) _ _
  rw [forgetRecord_items]
  exact hsums

/-- So is writing one. -/
theorem sound_stageMapping_some (hs : Sound s) (htext : item.file = false) :
    Sound (s.stageMapping enc key (some item)) := by
  intro h
  obtain ⟨hsums, hlinks⟩ := sums_forgetRecord enc hs h
  refine ⟨?_, linksExact_stageMapping_some hlinks key item⟩
  show Sums ((s.forgetRecord key).items.insert key _) _ _
  rw [forgetRecord_items]
  have hinsert := hsums.insert { item with accountedSize := accountedItemSize enc key item.content }
  rwa [physicalSize_of_text (by exact htext), Nat.add_zero] at hinsert

/-- And taking a variant from it. -/
theorem sound_removeVariantFromMapping (hs : Sound s) (mk v : Key) :
    Sound (s.removeVariantFromMapping enc mk v) := by
  unfold removeVariantFromMapping
  split
  · exact hs
  · next item hitem =>
    split
    · exact sound_stageMapping_none hs mk
    · exact sound_stageMapping_none hs mk
    · split
      · exact hs
      · split
        · exact sound_stageMapping_none (s := s.removeItemGroups mk) hs mk
        · split
          · exact sound_stageMapping_none hs mk
          · next encoded hencoded =>
            exact sound_stageMapping_some (s := s.bumpVersion) hs
              (encodeMapping_eq_some hencoded).2.1

theorem sound_removeVariantFromMappings (hs : Sound s) (mks : List Key) (v : Key) :
    Sound (s.removeVariantFromMappings enc mks v) :=
  List.foldlRecOn mks _ hs fun _ ht mk _ => sound_removeVariantFromMapping ht mk v

/-- A batch without what it holds at a key. -/
def hide (s : BatchState) (key : Key) : BatchState := { s with items := s.items.erase key }

theorem getItem_hide_of_ne (h : k ≠ key) : (hide s key).getItem k = s.getItem k :=
  Finmap.lookup_erase_ne h

/-- Hiding a key leaves work on others alone. -/
theorem hide_forgetRecord (h : k ≠ key) :
    hide (s.forgetRecord k) key = (hide s key).forgetRecord k := by
  unfold forgetRecord
  rw [getItem_hide_of_ne h]
  split <;> rfl

theorem hide_stageMapping_none (h : k ≠ key) :
    hide (s.stageMapping enc k none) key = (hide s key).stageMapping enc k none := by
  show hide ((s.forgetRecord k).stageAbsent k) key = ((hide s key).forgetRecord k).stageAbsent k
  rw [← hide_forgetRecord h]
  simp only [hide, stageAbsent]
  rw [Finmap.erase_erase]

theorem hide_stageMapping_some (h : k ≠ key) (item : CacheItem) :
    hide (s.stageMapping enc k (some item)) key = (hide s key).stageMapping enc k (some item) := by
  show hide ((s.forgetRecord k).putRecord enc k item) key =
    ((hide s key).forgetRecord k).putRecord enc k item
  rw [← hide_forgetRecord h]
  simp only [hide, putRecord, stagePresent]
  rw [erase_insert_of_ne _ h]

/-- What is held at another key does not matter for a record. -/
theorem hide_removeVariantFromMapping (h : k ≠ key) (v : Key) :
    hide (s.removeVariantFromMapping enc k v) key =
      (hide s key).removeVariantFromMapping enc k v := by
  unfold removeVariantFromMapping
  rw [getItem_hide_of_ne h]
  split
  · rfl
  · split
    · exact hide_stageMapping_none h
    · exact hide_stageMapping_none h
    · split
      · rfl
      · split
        · exact hide_stageMapping_none (s := s.removeItemGroups k) h
        · split
          · exact hide_stageMapping_none h
          · exact hide_stageMapping_some (s := s.bumpVersion) h _

/-- Also in a loop. -/
theorem hide_removeVariantFromMappings {mks : List Key} (hkey : key ∉ mks) (v : Key) :
    hide (s.removeVariantFromMappings enc mks v) key =
      (hide s key).removeVariantFromMappings enc mks v := by
  induction mks generalizing s with
  | nil => rfl
  | cons mk mks ih =>
    rw [List.mem_cons, not_or] at hkey
    show hide ((s.removeVariantFromMapping enc mk v).removeVariantFromMappings enc mks v) key =
      ((hide s key).removeVariantFromMapping enc mk v).removeVariantFromMappings enc mks v
    rw [ih hkey.2, hide_removeVariantFromMapping (Ne.symm hkey.1)]

/-- A body that is taken off the counters. -/
theorem sound_hide_discount (hs : Sound s) (hitem : s.getItem key = some item)
    (hfile : item.file = true) : Sound (hide (s.discount item) key) := by
  intro h
  have hexact := hs h
  refine ⟨hexact.toSums.erase hitem, hexact.links.erase ?_⟩
  rw [listed_of_lookup hitem, mappingVariants_of_file hfile]

/-- **A deletion keeps an unmarked batch exact.** -/
theorem sound_deleteItem (hs : Sound s) (key : Key) : Sound (s.deleteItem enc order key) := by
  intro h
  have hexact := hs (unmarked_of_shrinks enc (edits_deleteItem s key) h)
  cases hitem : s.getItem key with
  | none =>
    rw [deleteItem_of_absent hitem]
    exact hexact
  | some item =>
    cases hfile : item.file with
    | false =>
      rw [(deleteItem_record_spec hexact.links hitem hfile).2.2] at h
      cases h
    | true =>
      obtain ⟨files, mks, hdelete, _, hkey, _⟩ :=
        deleteItem_body_eq enc order hexact.links hitem hfile
      rw [hdelete] at h ⊢
      have hloop : Sound ((hide { (s.removeItemGroups key).discount item with
          obsoleteFiles := files } key).removeVariantFromMappings enc mks key) :=
        sound_removeVariantFromMappings
          (by exact sound_hide_discount (s := s.removeItemGroups key) hs hitem hfile) mks key
      rw [← hide_removeVariantFromMappings hkey key] at hloop
      exact hloop h

/-- Expiry is sound. -/
theorem sound_stageExpired (hs : Sound s) (now : Int) :
    Sound (s.stageExpired enc order p now) :=
  stageExpired_induct (P := Sound) (fun _ key h => sound_deleteItem h key)
    (fun _ _ _ h => h) hs

/-- So are deletions. -/
theorem sound_stageDeletions (hs : Sound s) (keys : List Key) :
    Sound (stageDeletions enc order s keys) :=
  List.foldlRecOn keys _ hs fun _ ht key _ => sound_deleteItem ht key

/-- And evictions. -/
theorem sound_evictCandidates (hs : Sound s) (keys : List Key) :
    Sound (evictCandidates enc order s keys) :=
  List.foldlRecOn keys _ hs fun _ ht key _ => sound_deleteItem ht key

/-- As many as there are. -/
theorem sound_evictLoop (hs : Sound s) (a b c d : Nat) (keys : List Key) :
    Sound (evictLoop enc order a b keys c d s) :=
  evictLoop_induct (P := Sound) (fun _ key h => sound_deleteItem h key)
    (fun _ _ h => h) a b keys hs

/-- Put a body where nothing is counted. -/
theorem sound_stageBody (h : Sound (hide s key)) (hfile : item.file = true) :
    Sound (stageBody s key item) := by
  intro hm
  have hexact := h hm
  have hlink := hexact.links.link item
  rw [mappingVariants_of_file hfile, link_empty] at hlink
  exact ⟨hexact.toSums.insert item, hlink⟩

/-- What was held at the key of a write is counted no more. -/
theorem sound_hide_dropOverwritten {old : Option CacheItem} (hs : Sound s)
    (hold : s.getItem key = old ∨ ∃ item, old = some item ∧ item.file = false) (file : FileName) :
    Sound (hide (dropOverwritten s key file old) key) := by
  intro h
  cases old with
  | none =>
    have hnone : s.getItem key = none := by simpa using hold
    have hexact := hs h
    refine ⟨hexact.toSums.erase_of_none hnone, hexact.links.erase ?_⟩
    rw [getItem] at hnone
    rw [listed, hnone, Option.elim_none]
  | some item =>
    cases hc : item.content with
    | body b =>
      have hfile : item.file = true := by rw [CacheItem.file, hc]; rfl
      have hitem : s.getItem key = some item := by
        rcases hold with hold | ⟨item', heq, htext⟩
        · exact hold
        · rw [← Option.some.inj heq, hfile] at htext
          cases htext
      simp only [dropOverwritten, hc] at h ⊢
      exact sound_hide_discount (s := s.removeItemGroups key) hs hitem hfile h
    | record | raw => simp [dropOverwritten, hc, hide] at h

/-- A body finds its place. -/
theorem sound_placeBody {w : PendingWrite} {candidates : List Key} (hs : Sound s)
    (hcandidates : w.variedKey ∉ candidates) (stale now : Int) :
    Sound (placeBody enc order stale now s w candidates) := by
  intro h
  -- the old body is still held after the eviction, unless the batch is marked
  have hmark : s.miscounted = false := unmarked_of_shrinks enc (edits_makeRoom s w candidates) h
  have hlinks := (hs hmark).links
  refine sound_stageBody ?_ rfl h
  apply sound_hide_dropOverwritten (sound_evictCandidates (s := s.bumpVersion) hs candidates)
  cases hold : s.getItem w.variedKey with
  | none =>
    exact .inl (getItem_none_of_shrinks (edits_evictCandidates s.bumpVersion candidates) hold)
  | some old =>
    cases hfile : old.file with
    | false => exact .inr ⟨old, rfl, hfile⟩
    | true =>
      exact .inl ((evictCandidates_spec candidates (s := s.bumpVersion) hlinks).2
        w.variedKey old hcandidates hold hfile)

theorem sound_stageGroups (hs : Sound s) (w : PendingWrite) : Sound (stageGroups s w) :=
  List.foldlRecOn w.groups _ hs fun _ ht _ _ => ht

/-- One write of a flush. -/
theorem sound_stageWrite {acc : BatchState × Finset Key} (hs : Sound acc.1) (stale : Int)
    (lru : List Key) (budget : Budget) (now : Int) (w : PendingWrite) :
    Sound (stageWrite enc order stale lru budget acc now w).1.1 := by
  unfold stageWrite
  split
  · exact hs
  · next record hrecord =>
    split
    · exact hs
    · next candidates hcandidates =>
      have hfree : w.variedKey ∉ candidates := fun hmem =>
        (mem_candidatesFor hcandidates w.variedKey hmem).1 rfl
      apply sound_stageGroups
      exact sound_stageMapping_some (s := bumpVersion _) (sound_placeBody hs hfree stale now)
        (writtenRecord_file hrecord)

/-- All of them. -/
theorem sound_stageWrites (stale : Int) (lru : List Key) (budget : Budget)
    (batch : List (Int × PendingWrite)) {acc : BatchState × Finset Key} (hs : Sound acc.1) :
    Sound (stageWrites enc order stale lru budget batch acc).1.1 := by
  induction batch generalizing acc with
  | nil => exact hs
  | cons q rest ih =>
    obtain ⟨now, w⟩ := q
    exact ih (sound_stageWrite hs stale lru budget now w)

/-- Replace an item by one of the same sizes that lists the same variants. -/
theorem sound_stagePresent (hs : Sound s) (hold : s.getItem key = some old)
    (used : item.accountedSize = old.accountedSize) (content : item.content = old.content) :
    Sound (s.stagePresent key item) := by
  intro h
  have hexact := hs h
  refine ⟨⟨?_, ?_⟩, ?_⟩
  · exact hexact.used.trans (total_replace hold used).symm
  · refine hexact.physical.trans (total_replace hold ?_).symm
    rw [CacheItem.physicalSize, content]
    rfl
  · intro v k
    show (v, k) ∈ s.variantMappings ↔ v ∈ listed (s.items.insert key item) k
    rw [hexact.links v k, listed_insert]
    split
    · next hk => rw [hk, listed_of_lookup hold, mappingVariants, mappingVariants, content]
    · exact Iff.rfl

/-- Times count nothing. -/
theorem sound_stampBodies (hs : Sound s) (modifiedAt : FileName → Int)
    (accepted : List PendingWrite) : Sound (stampBodies modifiedAt s accepted) := by
  refine List.foldlRecOn accepted _ hs fun t ht w _ => ?_
  split
  · next item hitem => exact sound_stagePresent ht hitem rfl rfl
  · exact ht

/-- A new batch is sound. -/
theorem sound_new (h : CountersExact p) (hlinks : LinksExact p.items p.variantMappings) :
    Sound (newBatchState p) := fun _ => ⟨⟨h.used, h.physical⟩, hlinks⟩

/-- A flush. -/
theorem sound_stageFlush {ctx : FlushContext} {batch : List (Int × PendingWrite)}
    (hs : Sound (newBatchState p)) (h : stageFlush enc order p ctx batch = some s) : Sound s := by
  obtain ⟨usage, modifiedAt, _, _, rfl⟩ := stageFlush_eq_some h
  apply sound_stampBodies
  exact sound_stageWrites _ _ _ batch (sound_stageExpired hs ctx.started)

/-- A refresh. -/
theorem sound_stageRefresh {baseKey : Key} {request update : Header} {found duration stale : Int}
    (hs : Sound (newBatchState p))
    (h : stageRefresh enc order p baseKey request found now duration stale update = some s) :
    Sound s := by
  obtain ⟨target, htarget, rfl⟩ := Option.map_eq_some_iff.mp h
  obtain ⟨_, _, hbody, _⟩ := refreshTarget_eq_some htarget
  apply sound_stagePresent
  · exact sound_stageMapping_some (s := bumpVersion _) hs (refreshTarget_keys htarget).1
  · show getItem (stageMapping enc _ _ _) _ = some target.body
    rw [getItem_stageMapping_some, if_neg (refreshTarget_ne htarget)]
    exact hbody
  · rfl
  · rfl

theorem sound_dropForSet (hs : Sound s) : Sound (dropForSet s key) := by
  intro h
  unfold dropForSet at h ⊢
  split at h
  · exact hs h
  · split at h
    · cases h
    · exact hs h
    · exact hs h

/-- `Set` counts right, although it may leave the staged reverse index behind. -/
theorem sums_stageSet {value : Text} {duration : Int} (hs : Sound (newBatchState p))
    (h : (stageSet enc p key value now duration).miscounted = false) :
    Sums (stageSet enc p key value now duration).items (stageSet enc p key value now duration).used
      (stageSet enc p key value now duration).physical := by
  have hbase : Sound (dropForSet (newBatchState p) key).bumpVersion := sound_dropForSet hs
  generalize hr : (dropForSet (newBatchState p) key).bumpVersion = r at hbase
  unfold stageSet at h ⊢
  rw [hr] at h ⊢
  by_cases hmapping : mappingKeyPrefix <+: key
  · rw [if_pos hmapping] at h ⊢
    exact (sound_stageMapping_some hbase (by exact value.property) h).toSums
  · rw [if_neg hmapping] at h ⊢
    have hsums := (hbase (unmarked_of_shrinks enc (edits_discountHeld key) h)).toSums
    have herased : Sums (r.items.erase key) (discountHeld r key).used
        (discountHeld r key).physical := by
      unfold discountHeld
      cases hold : r.getItem key with
      | none => exact hsums.erase_of_none hold
      | some old => exact hsums.erase hold
    have hset := herased.insert (setItem enc key value now duration r.nextVersion)
    rw [physicalSize_of_text (by exact value.property)] at hset
    unfold discountHeld at hset ⊢
    split at hset <;> exact hset

/-- The deletion of an entry. -/
theorem sound_stageDeleteEntry (hs : Sound (newBatchState p)) (baseKey : Key) :
    Sound (stageDeleteEntry enc order p baseKey) := by
  apply sound_deleteItem
  split
  · exact hs
  · split
    · exact hs
    · split
      · exact sound_stageDeletions hs _
      · exact sound_stageDeletions (s := (newBatchState p).removeItemGroups _) hs _

/-- **What an operation stages is counted right**, unless it is marked. -/
theorem sums_of_stagedBy {op : Op} (h : CountersExact p)
    (hlinks : LinksExact p.items p.variantMappings) (hstaged : stagedBy enc p op = some s)
    (hmark : s.miscounted = false) : Sums s.items s.used s.physical := by
  have hs := sound_new h hlinks
  have hdelete : ∀ key, Sound ((newBatchState p).deleteItem enc op.order key) :=
    fun key => sound_deleteItem hs key
  obtain ⟨action, order, commits⟩ := op
  cases action with
  | flush ctx batch => exact (sound_stageFlush hs hstaged hmark).toSums
  | refresh _ _ _ _ _ _ _ => exact (sound_stageRefresh hs hstaged hmark).toSums
  | set key value now duration =>
    cases hstaged
    exact sums_stageSet hs hmark
  | delete key =>
    cases hstaged
    exact (hdelete key hmark).toSums
  | deleteMany | purge =>
    cases hstaged
    exact (sound_stageDeletions hs _ hmark).toSums
  | deleteEntry baseKey =>
    cases hstaged
    exact (sound_stageDeleteEntry hs baseKey hmark).toSums
  | prune now =>
    cases hstaged
    exact (sound_stageExpired hs now hmark).toSums
  | evict requiredAccounted requiredPhysical =>
    cases hstaged
    exact (sound_evictLoop hs _ _ _ _ _ hmark).toSums
  | removeExpired key generation now | removeCorrupt key generation
  | removeInvalidMapping key bytes =>
    obtain rfl := stageDeletionIf_eq_some hstaged
    exact (hdelete key hmark).toSums
  | reset | touch | restart => exact absurd hstaged (by simp [stagedBy])

/-- The entry counters are the numbers of held bodies and records. -/
structure EntriesExact (p : Provider) : Prop where
  bodies : p.bodyEntries = total bodyCount p.items
  mappings : p.mappingEntries = total mappingCount p.items

/-- Taking out what is held at a key. -/
theorem dropOld_entries (h : EntriesExact p) (key : Key) :
    (p.dropOld key).bodyEntries = total bodyCount (p.items.erase key) ∧
      (p.dropOld key).mappingEntries = total mappingCount (p.items.erase key) := by
  unfold dropOld
  split
  · next old hold =>
    have hbodies := total_erase bodyCount p.items key
    have hmappings := total_erase mappingCount p.items key
    rw [amount_of_lookup hold, ← h.bodies] at hbodies
    rw [amount_of_lookup hold, ← h.mappings] at hmappings
    cases hfile : old.file with
    | true =>
      simp only [bodyCount, mappingCount, hfile, if_true] at hbodies hmappings
      simp only [removeItemAccounting, removeReverseMapping, hfile, if_true]
      omega
    | false =>
      simp only [bodyCount, mappingCount, hfile, Bool.false_eq_true, if_false] at hbodies hmappings
      simp only [removeItemAccounting, removeReverseMapping, hfile, Bool.false_eq_true, if_false]
      omega
  · next hnone =>
    rw [total_erase_of_none hnone, total_erase_of_none hnone]
    exact ⟨h.bodies, h.mappings⟩

/-- Committing an item counts it. -/
theorem entriesExact_applyItem (items : Items) (h : EntriesExact p) (key : Key) :
    EntriesExact (applyItem items p key) := by
  obtain ⟨hbodies, hmappings⟩ := dropOld_entries h key
  unfold applyItem
  split
  · constructor
    · show (p.dropOld key).bodyEntries = total _ ((p.dropOld key).items.erase key)
      rw [dropOld_items, hbodies]
    · show (p.dropOld key).mappingEntries = total _ ((p.dropOld key).items.erase key)
      rw [dropOld_items, hmappings]
  · next item _ =>
    generalize hentered : expirationFor (p.dropOld key).expirations key item = entered
    constructor
    · simp only [installItem, hentered, addReverseMapping, addItemAccounting, dropOld_items,
        total_insert_erase, hbodies, bodyCount]
      split <;> rfl
    · simp only [installItem, hentered, addReverseMapping, addItemAccounting, dropOld_items,
        total_insert_erase, hmappings, mappingCount]
      split <;> rfl

/-- A total that does not depend on pointers is the same in the tables and in
the batch. -/
theorem total_applyBatch (hfollows : Follows p s) (f : CacheItem → Nat)
    (hf : ∀ item, f (strip item) = f item) :
    total f (p.applyBatch order s).items = total f s.items := by
  apply total_congr
  intro k
  have hsame := (applyBatch_items order hfollows.items k).elim_eq 0 f
  simp only [hf] at hsame
  exact hsame

/-- **A commit of a batch that is counted right leaves exact counters.** -/
theorem countersExact_applyBatch (h : CountersExact p) (hfollows : Follows p s)
    (hs : Sums s.items s.used s.physical) : CountersExact (p.applyBatch order s) := by
  have hentries : EntriesExact ((order.list [] s.staged).foldl (applyItem s.items)
      { p with nextVersion := s.nextVersion, expirations := s.expirations }) :=
    List.foldlRecOn _ _ ⟨h.bodies, h.mappings⟩ fun _ hq key _ =>
      entriesExact_applyItem s.items hq key
  exact {
    used := hs.used.trans (total_applyBatch hfollows _ fun _ => rfl).symm
    physical := hs.physical.trans (total_applyBatch hfollows _ fun _ => rfl).symm
    bodies := hentries.bodies
    mappings := hentries.mappings }

/-- Nothing is counted. -/
theorem countersExact_empty : CountersExact emptyProvider := ⟨rfl, rfl, rfl, rfl⟩

/-- A hit counts nothing. -/
theorem countersExact_touchItem (h : CountersExact p) (key : Key) (generation : Nat)
    (now modifiedAt : Int) : CountersExact (touchItem p key generation now modifiedAt) := by
  unfold touchItem
  split
  · exact h
  · next item hitem =>
    split
    · exact h
    · exact ⟨h.used.trans (total_replace hitem (by rfl)).symm,
        h.physical.trans (total_replace hitem (by rfl)).symm,
        h.bodies.trans (total_replace hitem (by rfl)).symm,
        h.mappings.trans (total_replace hitem (by rfl)).symm⟩

/-- A row that is loaded is counted. -/
theorem countersExact_enter {l : Loading} {content : Content} {row : DiskItem} {modifiedAt : Int}
    (h : CountersExact l.provider) (hkey : key ∉ l.provider.items) :
    CountersExact (l.enter enc key content row modifiedAt).provider := by
  have hinsert : ∀ (f : CacheItem → Nat) (item : CacheItem),
      total f (l.provider.items.insert key item) = total f l.provider.items + f item := by
    intro f item
    rw [total_insert_erase, total_erase_of_none (Finmap.lookup_eq_none.mpr hkey)]
  have hstrip : ∀ (f : CacheItem → Nat) (item : CacheItem), (∀ i, f (strip i) = f i) →
      f (expirationFor l.provider.expirations key item).1 = f item := by
    intro f item hf
    rw [← hf (expirationFor _ key item).1, strip_expirationFor, hf]
  constructor
  · show l.provider.cacheUsed + _ = total _ (l.provider.items.insert key _)
    rw [hinsert, h.used, hstrip CacheItem.accountedSize _ fun _ => rfl]
  · show l.provider.physicalUsed + _ = total _ (l.provider.items.insert key _)
    rw [hinsert, h.physical, hstrip CacheItem.physicalSize _ fun _ => rfl]
  · simp only [Loading.enter, addItemAccounting, hinsert, h.bodies, bodyCount]
    split <;> rfl
  · simp only [Loading.enter, addItemAccounting, hinsert, h.mappings, mappingCount]
    split <;> rfl

/-- Loading a group counts nothing. -/
theorem countersExact_loadGroup {disk : Snapshot} {l : Loading} {group : Key} {keys : List Key}
    (h : CountersExact l.provider) : CountersExact (loadGroup disk l group keys).provider := by
  unfold loadGroup
  split
  · exact { h with }
  · dsimp only
    split <;> exact { h with }

/-- An item that is forgotten is no longer counted. -/
theorem countersExact_forgetItem (h : CountersExact p) (hitem : p.items.lookup key = some item) :
    CountersExact (forgetItem p key item) := by
  have herase : ∀ f : CacheItem → Nat, total f (p.items.erase key) = total f p.items - f item := by
    intro f
    have := total_erase f p.items key
    rw [amount_of_lookup hitem] at this
    omega
  constructor
  · exact (congrArg (· - item.accountedSize) h.used).trans (herase _).symm
  · exact (congrArg (· - item.physicalSize) h.physical).trans (herase _).symm
  · refine Eq.trans ?_ (herase bodyCount).symm
    rw [← h.bodies]
    simp only [forgetItem, removeReverseMapping, removeItemAccounting, bodyCount]
    split <;> rfl
  · refine Eq.trans ?_ (herase mappingCount).symm
    rw [← h.mappings]
    simp only [forgetItem, removeReverseMapping, removeItemAccounting, mappingCount]
    split <;> rfl

/-- A repair is counted. -/
theorem countersExact_repaired (hrepair : Repaired p key q) (h : CountersExact p) :
    CountersExact q := by
  cases hrepair with
  | unchanged _ => exact h
  | forgotten item broken _ => exact countersExact_forgetItem h broken.held
  | rewritten item value broken _ text size _ =>
    have hsize : item.physicalSize = 0 := physicalSize_of_text broken.text
    have hfile : CacheItem.file { item with content := value, generation := p.nextVersion + 1 } =
        item.file := text.trans broken.text.symm
    exact ⟨h.used.trans (total_replace broken.held (by rfl)).symm,
      h.physical.trans (total_replace broken.held (size.trans hsize.symm)).symm,
      h.bodies.trans (total_replace broken.held (by rw [bodyCount, bodyCount, hfile])).symm,
      h.mappings.trans (total_replace broken.held (by rw [mappingCount, mappingCount, hfile])).symm⟩

/-- A provider that was loaded counts right. -/
theorem countersExact_restart {disk : Snapshot} {commits : Bool} {index : Index}
    (h : restart enc order disk now commits index = some q) : CountersExact q := by
  rcases restart_cases h with rfl | ⟨_, _, _, rfl⟩
  · exact countersExact_empty
  · have hloaded : CountersExact (loaded enc order disk now index).provider := by
      refine repair_induct (P := CountersExact) (fun _ _ _ => countersExact_repaired) _ _ ?_
      exact loadTables_induct (P := fun l => CountersExact l.provider)
        { countersExact_empty with } (fun _ _ h => { h with })
        (fun _ _ _ _ _ hkey h _ => countersExact_enter h hkey)
        (fun _ _ _ => countersExact_loadGroup) (fun _ _ _ h => { h with })
    exact { hloaded with }

/-- A provider that was just created, on an empty directory or on any index. -/
def Started (enc : Encoding) (p : Provider) : Prop :=
  p = emptyProvider ∨ ∃ (order : MapOrder) (disk : Snapshot) (now : Int) (commits : Bool)
    (index : Index), restart enc order disk now commits index = some p

theorem started_empty (enc : Encoding) : Started enc emptyProvider := .inl rfl

/-- A provider starts with exact links. -/
theorem Started.linksExact (h : Started enc p) : LinksExact p.items p.variantMappings := by
  rcases h with rfl | ⟨order, disk, now, commits, index, h⟩
  · exact linksExact_empty
  · exact linksExact_restart h

/-- And with exact counters. -/
theorem Started.countersExact (h : Started enc p) : CountersExact p := by
  rcases h with rfl | ⟨order, disk, now, commits, index, h⟩
  · exact countersExact_empty
  · exact countersExact_restart h

/-- The operation stages no deletion of a record, no body in the place of a
record and no record in the place of a body. -/
def Clean (enc : Encoding) (p : Provider) (op : Op) : Prop :=
  ∀ s, stagedBy enc p op = some s → s.miscounted = false

instance (p : Provider) (op : Op) : Decidable (Clean enc p op) :=
  decidable_of_iff ((stagedBy enc p op).all fun s => s.miscounted = false) (by
    cases h : stagedBy enc p op <;> simp [Clean, h])

/-- **Every clean operation counts exactly.** -/
theorem countersExact_step {op : Op} (h : CountersExact p)
    (hlinks : LinksExact p.items p.variantMappings) (hclean : Clean enc p op)
    (hstep : step enc p op = some q) : CountersExact q := by
  cases step_outcome hlinks hstep with
  | committed s index staged stages _ =>
    have hfollows := stages.follows
    exact countersExact_applyBatch ({ h with })
      ⟨hfollows.items, hfollows.groups, hfollows.pointers⟩
      (sums_of_stagedBy h hlinks staged (hclean s staged))
  | unchanged => exact h
  | dropped | restored | idle => exact { h with }
  | touched key generation now modifiedAt =>
    exact countersExact_touchItem h key generation now modifiedAt
  | cleared => exact { countersExact_empty with }
  | restarted _ disk now _ loaded => exact countersExact_restart loaded

/-- **The counters are exact** in every state that is reached from a new or
restarted cache, as long as no operation deletes a record through
`deleteItem`, stores a body over a record or a record over a body. -/
theorem counters_exact {ops : List Op} (hstart : Started enc p)
    (hclean : Along (step enc) (Clean enc) p ops)
    (hrun : run (step enc) p ops = some q) : CountersExact q := by
  have hinv := run_invariant_along
    (I := fun p => CountersExact p ∧ LinksExact p.items p.variantMappings)
    (fun p op q h hok hstep =>
      ⟨countersExact_step h.1 h.2 hok hstep, linksExact_step h.2 hstep⟩)
    ⟨hstart.countersExact, hstart.linksExact⟩ hclean hrun
  exact hinv.1

/-- Two variants, of which the second is evicted, and a restart. -/
def evictedVariant : List Op :=
  [plainBatch 0 10 [plainWrite (lit "b") (lit "v") 100, plainWrite (lit "b") (lit "w") 50],
    committed (.evict 1000 0), committed (.restart (plainDisk [lit "w"]) 20)]

theorem counters_exact_evictedVariant :
    ∃ q, run (step plainEncoding) emptyProvider evictedVariant = some q ∧
      CountersExact q := by
  have hclean : Along (step plainEncoding) (Clean plainEncoding) emptyProvider
      evictedVariant := by decide +kernel
  have hruns : (run (step plainEncoding) emptyProvider evictedVariant).isSome := by
    decide +kernel
  obtain ⟨q, hq⟩ := Option.isSome_iff_exists.mp hruns
  exact ⟨q, hq, counters_exact (started_empty _) hclean hq⟩

/-- **The reverse index is exact** in every state that is reached. -/
theorem links_exact {ops : List Op} (hstart : Started enc p)
    (hrun : run (step enc) p ops = some q) : LinksExact q.items q.variantMappings :=
  run_invariant (I := fun p => LinksExact p.items p.variantMappings)
    (fun _ _ _ => linksExact_step) hstart.linksExact hrun

theorem links_exact_evictedVariant :
    ∃ q, run (step plainEncoding) emptyProvider evictedVariant = some q ∧
      LinksExact q.items q.variantMappings := by
  have hruns : (run (step plainEncoding) emptyProvider evictedVariant).isSome := by
    decide +kernel
  obtain ⟨q, hq⟩ := Option.isSome_iff_exists.mp hruns
  exact ⟨q, hq, links_exact (started_empty _) hq⟩

/-- Two variants, of which the second expires; the record expires with it. -/
def expiredVariant : List Op :=
  [plainBatch 0 10 [plainWrite (lit "b") (lit "v") 100, plainWrite (lit "b") (lit "w") 50],
    committed (.prune 60)]

/-- When a record expires its size is taken off twice: the body that stays is
counted with less than its size. -/
theorem record_deleted_twice :
    ∃ q, run (step plainEncoding) emptyProvider expiredVariant = some q ∧
      q.items.keys = {lit "v"} ∧ q.cacheUsed < total CacheItem.accountedSize q.items := by
  apply ends_of_any
  decide +kernel

end CounterAccounting
