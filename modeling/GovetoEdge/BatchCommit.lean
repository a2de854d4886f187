import GovetoEdge.BatchStaging

/-!
# What a commit does

`applyBatch` puts the staged items into the tables.  The items it puts in get
a new heap entry, so they are the staged ones but for the pointer to it.

* `applyBatch_items` and `linksExact_applyBatch` say what the tables hold
  afterwards.
* `step_outcome` says what one step can do: commit the batch of its operation,
  drop a batch, or touch, reset or reload the provider.  Every invariant over
  runs is derived from it.
-/

namespace BatchCommit

open GoStrings HttpHeaders CacheMapping CacheProvider FiniteMaps ProviderOperations ProviderRuns
open BatchStaging BatchState Provider Option Finmap Finset
open Relation (ReflTransGen)

variable {enc : Encoding} {order : MapOrder} {p q : Provider} {s t : BatchState} {key k : Key}

/-- An item without the pointer to its heap entry. -/
def strip (item : CacheItem) : CacheItem := { item with expiration := none }

/-- Only the pointer to the heap changes. -/
@[simp] theorem strip_expirationFor (heap : ExpirationHeap.Heap) (key : Key) (item : CacheItem) :
    strip (expirationFor heap key item).1 = strip item := by
  unfold expirationFor
  split <;> rfl

/-- Two entries of a table hold the same but for the pointer. -/
def Same (a b : Option CacheItem) : Prop := a.map strip = b.map strip

theorem Same.refl (a : Option CacheItem) : Same a a := rfl

/-- The item is there, but for its pointer. -/
theorem same_some {a : Option CacheItem} {item : CacheItem} (h : Same a (some item)) :
    ∃ item', a = some item' ∧ strip item' = strip item := by
  unfold Same at h
  exact map_eq_some_iff.mp h

/-- A quantity that does not depend on the pointer. -/
theorem Same.elim_eq {β : Type*} {a b : Option CacheItem} (h : Same a b) (c : β)
    (f : CacheItem → β) : a.elim c (fun i => f (strip i)) = b.elim c (fun i => f (strip i)) := by
  have ha := congrArg (fun o : Option CacheItem => o.elim c f) h
  cases a with
  | none =>
    cases b with
    | none => rfl
    | some b => simp [Same] at h
  | some a =>
    cases b with
    | none => simp [Same] at h
    | some b => exact ha

/-- The items are not touched. -/
@[simp] theorem dropOld_items (p : Provider) (key : Key) : (p.dropOld key).items = p.items := by
  unfold dropOld
  split <;> rfl

/-- One item is applied. -/
theorem lookup_applyItem (items : Items) (p : Provider) (key k : Key) :
    Same ((applyItem items p key).items.lookup k)
      (if k = key then items.lookup key else p.items.lookup k) := by
  unfold applyItem
  split
  · next hnone =>
    show Same (((p.dropOld key).items.erase key).lookup k) _
    rw [dropOld_items]
    split
    · next hk =>
      rw [hk, Finmap.lookup_erase, hnone]
      exact Same.refl _
    · next hk =>
      rw [lookup_erase_ne hk]
      exact Same.refl _
  · next item hitem =>
    show Same (((p.dropOld key).items.insert key _).lookup k) _
    rw [dropOld_items]
    split
    · next hk =>
      rw [hk, lookup_insert, hitem]
      simp [Same]
    · next hk =>
      rw [lookup_insert_of_ne _ hk]
      exact Same.refl _

/-- **All staged items** are applied, and no others. -/
theorem lookup_applyItems (items : Items) (keys : List Key) (p : Provider) (k : Key) :
    Same ((keys.foldl (applyItem items) p).items.lookup k)
      (if k ∈ keys then items.lookup k else p.items.lookup k) := by
  induction keys generalizing p with
  | nil => simp [Same]
  | cons key keys ih =>
    have hrest := ih (applyItem items p key)
    have hfirst := lookup_applyItem items p key k
    by_cases hk : k ∈ keys
    · rw [if_pos hk] at hrest
      rw [if_pos (List.mem_cons_of_mem _ hk)]
      exact hrest
    · rw [if_neg hk] at hrest
      by_cases heq : k = key
      · rw [if_pos heq] at hfirst
        rw [if_pos (heq ▸ List.mem_cons_self), heq]
        rw [heq] at hrest hfirst
        exact Eq.trans hrest hfirst
      · rw [if_neg heq] at hfirst
        rw [if_neg (by simp [heq, hk])]
        exact Eq.trans hrest hfirst

/-- **The tables hold what was staged.** -/
theorem applyBatch_items (order : MapOrder)
    (h : ∀ k ∉ s.staged, s.getItem k = p.items.lookup k) (k : Key) :
    Same ((p.applyBatch order s).items.lookup k) (s.getItem k) := by
  have hfold := lookup_applyItems s.items (order.list [] s.staged)
    { p with nextVersion := s.nextVersion, expirations := s.expirations } k
  split at hfold
  · exact hfold
  · next hk =>
    rw [h k fun hstaged => hk ((order.mem [] s.staged k).mpr hstaged)]
    exact hfold

/-- The links of the old item go. -/
theorem dropOld_variantMappings (p : Provider) (key : Key) :
    (p.dropOld key).variantMappings = unlink p.variantMappings (listed p.items key) key := by
  unfold dropOld listed
  split
  · next old hold =>
    rw [hold, elim_some]
    rfl
  · next hnone =>
    rw [hnone, elim_none, unlink_empty]

/-- Links stay exact. -/
theorem linksExact_applyItem (items : Items) (h : LinksExact p.items p.variantMappings)
    (key : Key) :
    LinksExact (applyItem items p key).items (applyItem items p key).variantMappings := by
  have hdrop : LinksExact (p.items.erase key) (p.dropOld key).variantMappings := by
    rw [dropOld_variantMappings]
    exact h.unlink key
  unfold applyItem
  split
  · show LinksExact ((p.dropOld key).items.erase key) (p.dropOld key).variantMappings
    rw [dropOld_items]
    exact hdrop
  · next item _ =>
    show LinksExact ((p.dropOld key).items.insert key _)
      (link (p.dropOld key).variantMappings _ key)
    rw [dropOld_items]
    exact hdrop.link _

/-- **A commit keeps the reverse index exact**, whatever was staged. -/
theorem linksExact_applyBatch (h : LinksExact p.items p.variantMappings) :
    LinksExact (p.applyBatch order s).items (p.applyBatch order s).variantMappings :=
  List.foldlRecOn (motive := fun q : Provider => LinksExact q.items q.variantMappings)
    (order.list [] s.staged) _ h fun _ hq key _ => linksExact_applyItem s.items hq key

/-- A batch state is staged on a provider: what is not staged is as the
provider has it, and pointers to heap entries are the provider's. -/
structure Follows (p : Provider) (s : BatchState) : Prop where
  items : ∀ k ∉ s.staged, s.getItem k = p.items.lookup k
  groups : ∀ g ∉ s.stagedGroups, ∀ k, (g, k) ∈ s.groups ↔ (g, k) ∈ p.groups
  pointers : ∀ k item, s.getItem k = some item → ∀ id ∈ item.expiration,
    ∃ old, p.items.lookup k = some old ∧ id ∈ old.expiration

/-- A new batch follows the provider. -/
theorem follows_new (p : Provider) : Follows p (newBatchState p) where
  items := fun _ _ => rfl
  groups := fun _ _ _ => Iff.rfl
  pointers := fun _ item hitem _ hid => ⟨item, hitem, hid⟩

/-- An item is staged as absent. -/
theorem Follows.stageAbsent (h : Follows p s) (key : Key) : Follows p (s.stageAbsent key) where
  items := by
    intro k hk
    have hk' : k ≠ key ∧ k ∉ s.staged := by
      simpa [BatchState.stageAbsent, not_or] using hk
    rw [getItem_stageAbsent, if_neg hk'.1]
    exact h.items k hk'.2
  groups := h.groups
  pointers := by
    intro k item hitem
    rw [getItem_stageAbsent] at hitem
    split at hitem
    · cases hitem
    · exact h.pointers k item hitem

/-- An item is staged; pointers come from the old one. -/
theorem Follows.stagePresent (h : Follows p s) {key : Key} {item : CacheItem}
    (pointer : ∀ id ∈ item.expiration, ∃ old, s.getItem key = some old ∧ id ∈ old.expiration) :
    Follows p (s.stagePresent key item) where
  items := by
    intro k hk
    have hk' : k ≠ key ∧ k ∉ s.staged := by
      simpa [BatchState.stagePresent, not_or] using hk
    rw [getItem_stagePresent, if_neg hk'.1]
    exact h.items k hk'.2
  groups := h.groups
  pointers := by
    intro k held hheld id hid
    rw [getItem_stagePresent] at hheld
    split at hheld
    · next hk =>
      cases hheld
      obtain ⟨old, hold, hpointer⟩ := pointer id hid
      rw [hk]
      exact h.pointers key old hold id hpointer
    · exact h.pointers k held hheld id hid

/-- Every edit follows. -/
theorem Follows.edit {new : Key → CacheItem → Prop} {joins : Key → Key → Prop}
    (h : Follows p s) (hst : Edit enc new joins s t) : Follows p t := by
  cases hst with
  | count => exact ⟨h.items, h.groups, h.pointers⟩
  | leaveGroups key =>
    refine ⟨h.items, ?_, h.pointers⟩
    intro g hg k
    have hg' : g ∉ s.stagedGroups ∧ g ∉ related s.itemGroups key := by
      simpa only [removeItemGroups, Finset.mem_union, not_or] using hg
    show (g, k) ∈ unlink s.groups (related s.itemGroups key) key ↔ _
    rw [mem_unlink, ← h.groups g hg'.1 k]
    exact ⟨fun h => h.1, fun hgk => ⟨hgk, fun hin => hg'.2 hin.1⟩⟩
  | remove key => exact h.stageAbsent key
  | rewrite key item content generation held =>
    exact h.stagePresent fun id hid => ⟨item, held, hid⟩
  | joinGroup key group _ =>
    refine ⟨h.items, ?_, h.pointers⟩
    intro g hg k
    have hg' : g ≠ group ∧ g ∉ s.stagedGroups := by
      simpa only [addItemGroup, Finset.mem_insert, not_or] using hg
    show (g, k) ∈ insert (group, key) s.groups ↔ _
    rw [Finset.mem_insert, ← h.groups g hg'.2 k]
    constructor
    · rintro (heq | hmem)
      · exact absurd (congrArg Prod.fst heq) hg'.1
      · exact hmem
    · exact .inr
  | put key item _ pointer =>
    apply h.stagePresent
    intro id hid
    rw [pointer] at hid
    cases hid
  | renew key old item held hrenewed =>
    apply h.stagePresent
    intro id hid
    cases hrenewed with
    | value | record => exact ⟨old, held, hid⟩

/-- And so do many. -/
theorem Follows.edits {new : Key → CacheItem → Prop} {joins : Key → Key → Prop}
    (h : Follows p s) (hst : Reworks enc new joins s t) : Follows p t := by
  induction hst with
  | refl => exact h
  | tail _ hstep ih => exact ih.edit hstep

theorem Follows.shrinks (h : Follows p s) (hst : Shrinks enc s t) : Follows p t := h.edits hst

/-- Expired items are staged as absent. -/
theorem follows_stageExpired (h : Follows p s) (now : Int) :
    Follows p (s.stageExpired enc order p now) :=
  stageExpired_induct (P := Follows p) (fun _ key h => h.shrinks (edits_deleteItem _ key))
    (fun _ _ _ h => ⟨h.items, h.groups, h.pointers⟩) h

/-- The batch of `deleteItemIf`. -/
def stageDeletionIf (enc : Encoding) (order : MapOrder) (p : Provider) (key : Key)
    (found : CacheItem → Bool) : Option BatchState :=
  match p.items.lookup key with
  | none => none
  | some item => if found item then some ((newBatchState p).deleteItem enc order key) else none

/-- What a conditional deletion stages. -/
theorem stageDeletionIf_eq_some {found : CacheItem → Bool}
    (h : stageDeletionIf enc order p key found = some s) :
    s = (newBatchState p).deleteItem enc order key := by
  unfold stageDeletionIf at h
  split at h
  · cases h
  · split at h
    · exact (Option.some.inj h).symm
    · cases h

/-- The batch an operation tries to commit, when it gets that far. -/
def stagedBy (enc : Encoding) (p : Provider) (op : Op) : Option BatchState :=
  match op.action with
  | .flush ctx batch => stageFlush enc op.order p ctx batch
  | .refresh baseKey request found now duration stale update =>
    stageRefresh enc op.order p baseKey request found now duration stale update
  | .set key value now duration => some (stageSet enc p key value now duration)
  | .delete key => some ((newBatchState p).deleteItem enc op.order key)
  | .deleteMany found expression => some (stageDeleteMany enc op.order p found expression)
  | .deleteEntry baseKey => some (stageDeleteEntry enc op.order p baseKey)
  | .purge kind markers =>
    some (stageDeletions enc op.order (newBatchState p) (purgeKeys op.order p kind markers))
  | .prune now => some ((newBatchState p).stageExpired enc op.order p now)
  | .evict requiredAccounted requiredPhysical =>
    some (evictLoop enc op.order requiredAccounted requiredPhysical p.lru 0 0 (newBatchState p))
  | .removeExpired key generation now => stageDeletionIf enc op.order p key fun item =>
    item.generation = generation ∧ item.expiresAt ≠ 0 ∧ item.expiresAt ≤ now
  | .removeCorrupt key generation =>
    stageDeletionIf enc op.order p key fun item => item.generation = generation
  | .removeInvalidMapping key bytes => stageDeletionIf enc op.order p key (isInvalid bytes)
  | .reset => none
  | .touch _ _ _ _ => none
  | .restart _ _ => none

/-- The items an operation may put in: the bodies and records of its writes,
and what `Set` stores. -/
def NewItem (enc : Encoding) (action : Action) (key : Key) (item : CacheItem) : Prop :=
  match action with
  | .flush ctx batch => ∃ q ∈ batch, ∃ generation,
      key = q.2.variedKey ∧ item = bodyItem enc ctx.stale q.1 generation q.2 ∨
        key = mappingKey q.2.baseKey ∧ ∃ content : Content, content.file = false ∧
          item = mappingItem enc ctx.stale q.1 generation q.2 content
  | .set key' value now duration =>
    key = key' ∧ ∃ generation, item = setItem enc key' value now duration generation
  | _ => False

/-- The keys an operation may add to groups: those of its writes. -/
def Joins (action : Action) (key group : Key) : Prop :=
  match action with
  | .flush _ batch =>
    ∃ q ∈ batch, group ∈ q.2.groups ∧ (key = q.2.variedKey ∨ key = mappingKey q.2.baseKey)
  | _ => False

/-- A sequence of edits of an operation. -/
abbrev Edits (enc : Encoding) (action : Action) : BatchState → BatchState → Prop :=
  Reworks enc (NewItem enc action) (Joins action)

variable {batch : List (Int × PendingWrite)} {op : Op}

/-- A flush may write what its batch says. -/
theorem allows_flush (enc : Encoding) (ctx : FlushContext) {q : Int × PendingWrite}
    (hq : q ∈ batch) :
    Allows enc (NewItem enc (.flush ctx batch)) (Joins (.flush ctx batch)) ctx.stale q.1 q.2 where
  body generation := ⟨q, hq, generation, .inl ⟨rfl, rfl⟩⟩
  record generation content text := ⟨q, hq, generation, .inr ⟨rfl, content, text, rfl⟩⟩
  groups _ hg := ⟨⟨q, hq, hg, .inl rfl⟩, ⟨q, hq, hg, .inr rfl⟩⟩

/-- The states an operation reaches while it stages: edits, after the expired
items have been staged or without that. -/
def Stages (enc : Encoding) (op : Op) (p : Provider) (s : BatchState) : Prop :=
  Edits enc op.action (newBatchState p) s ∨
    ∃ now, Edits enc op.action ((newBatchState p).stageExpired enc op.order p now) s

/-- Staging follows the provider. -/
theorem Stages.follows (h : Stages enc op p s) : Follows p s := by
  rcases h with h | ⟨now, h⟩
  · exact (follows_new p).edits h
  · exact (follows_stageExpired (follows_new p) now).edits h

/-- What a flush does to the staged items. -/
theorem edits_stageBatch (ctx : FlushContext) (batch : List (Int × PendingWrite))
    (usage : Usage) :
    Edits enc (.flush ctx batch) ((newBatchState p).stageExpired enc order p ctx.started)
      (stageBatch enc order p ctx batch usage).1 :=
  edits_stageWrites p.lru (capacityAvailable p ctx.limits _ usage) batch
    (fun _ hq => allows_flush enc ctx hq)
    ((newBatchState p).stageExpired enc order p ctx.started, ∅)

/-- An abandoned flush stages what it has come to. -/
theorem stages_abandonedFlush (ctx : FlushContext) (batch : List (Int × PendingWrite))
    (commits : Bool) :
    Stages enc ⟨.flush ctx batch, order, commits⟩ p (abandonedFlush enc order p ctx batch) := by
  unfold abandonedFlush
  split
  · exact .inr ⟨ctx.started, .refl⟩
  · exact .inr ⟨ctx.started, edits_stageBatch ctx batch _⟩

/-- A batch of writes that is to be committed. -/
theorem stageFlush_eq_some {ctx : FlushContext} (h : stageFlush enc order p ctx batch = some s) :
    ∃ usage modifiedAt, ctx.usage = some usage ∧ ctx.installed = some modifiedAt ∧
      s = stampBodies modifiedAt (stageBatch enc order p ctx batch usage).1
        (acceptedWrites batch (stageBatch enc order p ctx batch usage).2) := by
  obtain ⟨usage, husage, h⟩ := bind_eq_some_iff.mp h
  obtain ⟨modifiedAt, hinstalled, h⟩ := bind_eq_some_iff.mp h
  obtain ⟨_, _, h⟩ := bind_eq_some_iff.mp h
  exact ⟨usage, modifiedAt, husage, hinstalled, (Option.some.inj h).symm⟩

/-- What a flush stages. -/
theorem stages_stageFlush {ctx : FlushContext} (h : stageFlush enc order p ctx batch = some s)
    (commits : Bool) : Stages enc ⟨.flush ctx batch, order, commits⟩ p s := by
  obtain ⟨usage, modifiedAt, _, _, rfl⟩ := stageFlush_eq_some h
  exact .inr ⟨ctx.started,
    (edits_stageBatch ctx batch usage).trans (edits_stampBodies modifiedAt _ _)⟩

/-- What one step can do. -/
inductive Outcome (enc : Encoding) (p : Provider) (op : Op) : Provider → Prop
  /-- the batch of the operation is written and applied -/
  | committed (s : BatchState) (index : Index) (staged : stagedBy enc p op = some s)
      (stages : Stages enc op p s) (written : persistBatch p s op.commits = some index) :
      Outcome enc p op ({ p with index := index }.applyBatch op.order s)
  | unchanged : Outcome enc p op p
  /-- a batch without expired items is dropped -/
  | dropped (s : BatchState) (edits : Edits enc op.action (newBatchState p) s) :
      Outcome enc p op (p.keep s s.expirations)
  /-- a batch is dropped, and the heap gets its entries back -/
  | restored (s : BatchState) (stages : Stages enc op p s) :
      Outcome enc p op (p.keep s (s.restoreExpiry p))
  /-- nothing was found to be expired -/
  | idle (now : Int) (h : ((newBatchState p).stageExpired enc op.order p now).staged = ∅) :
      Outcome enc p op (p.keep ((newBatchState p).stageExpired enc op.order p now)
        ((newBatchState p).stageExpired enc op.order p now).expirations)
  | touched (key : Key) (generation : Nat) (now modifiedAt : Int) :
      Outcome enc p op (touchItem p key generation now modifiedAt)
  | cleared : Outcome enc p op (ProviderOperations.reset p)
  | restarted (q : Provider) (disk : Snapshot) (now : Int)
      (action : op.action = .restart disk now)
      (loaded : ProviderRuns.restart enc op.order disk now op.commits p.index = some q) :
      Outcome enc p op q

/-- The outcome of a commit. -/
theorem outcome_commit (hstaged : stagedBy enc p op = some s)
    (hedits : Edits enc op.action (newBatchState p) s) :
    Outcome enc p op (p.commit op.order op.commits s) := by
  unfold commit
  split
  · next index hindex => exact .committed s index hstaged (.inl hedits) hindex
  · exact .dropped s hedits

/-- The outcome of an operation. -/
theorem outcome_commitStaged (hstaged : stagedBy enc p op = some s)
    (hedits : Edits enc op.action (newBatchState p) s) :
    Outcome enc p op (commitStaged op p s) := by
  unfold commitStaged
  split
  · exact .dropped s hedits
  · exact outcome_commit hstaged hedits

/-- A damaged record has no links. -/
theorem linkedVariants_of_damaged (hlinks : LinksExact p.items p.variantMappings)
    {record : CacheItem} (hrecord : p.items.lookup key = some record)
    (hdamaged : record.content.decodeMapping = none) : linkedVariants p key = ∅ := by
  apply eq_empty_of_forall_notMem
  intro v hv
  obtain ⟨⟨v', k⟩, hmem, rfl⟩ := mem_image.mp hv
  obtain ⟨hlink, hkey⟩ := mem_filter.mp hmem
  obtain rfl : k = key := hkey
  obtain ⟨item, hitem, _, hlisted⟩ := hlinks.record hlink
  have heq : item = record := Option.some.inj (hitem.symm.trans hrecord)
  have hvariants := decodeMapping_of_mem_variants hlisted
  rw [heq, hdamaged] at hvariants
  cases hvariants

/-- The deletion of an entry is staged like others. -/
theorem deleteEntry_eq (hlinks : LinksExact p.items p.variantMappings) (baseKey : Key) (op : Op) :
    deleteEntry enc op.order p baseKey op.commits =
      commitStaged op p (stageDeleteEntry enc op.order p baseKey) := by
  unfold deleteEntry commitStaged commit
  dsimp only
  split
  · rfl
  · cases hpersist : persistBatch p (stageDeleteEntry enc op.order p baseKey) op.commits with
    | none => rfl
    | some index =>
      dsimp only
      split
      · next record hrecord =>
        split
        · next hdamaged =>
          rw [linkedVariants_of_damaged hlinks hrecord hdamaged.2, unlink_empty]
        · rfl
      · rfl

/-- **What a step can do.** -/
theorem step_outcome (hlinks : LinksExact p.items p.variantMappings) (h : step enc p op = some q) :
    Outcome enc p op q := by
  obtain ⟨action, order, commits⟩ := op
  have hdeleteIf : ∀ (key : Key) (found : CacheItem → Bool),
      (∀ item, p.items.lookup key = some item → found item →
        stagedBy enc p ⟨action, order, commits⟩ =
          some ((newBatchState p).deleteItem enc order key)) →
      Outcome enc p ⟨action, order, commits⟩
        (deleteItemIf enc ⟨action, order, commits⟩ p key found) := by
    intro key found hstaged
    unfold deleteItemIf
    split
    · exact .unchanged
    · next item hitem =>
      split
      · next hfound =>
        exact outcome_commit (hstaged item hitem hfound)
          (edits_deleteItem _ key)
      · exact .unchanged
  cases action with
  | flush ctx batch =>
    rw [← Option.some.inj h, flushBatch]
    split
    · exact .restored _ (stages_abandonedFlush ctx batch commits)
    · next s hs =>
      have hstages := stages_stageFlush hs commits
      split
      · exact .restored s hstages
      · next index hindex => exact .committed s index hs hstages hindex
  | refresh baseKey request found now duration stale update =>
    simp only [step] at h
    split at h
    · cases h
      exact .unchanged
    · next s hs =>
      cases h
      exact outcome_commit hs (edits_stageRefresh hs)
  | set key value now duration =>
    cases h
    exact outcome_commit rfl (edits_stageSet fun generation => ⟨rfl, generation, rfl⟩)
  | delete key =>
    cases h
    exact outcome_commitStaged rfl (edits_deleteItem _ key)
  | deleteMany | purge =>
    cases h
    exact outcome_commitStaged rfl (edits_stageDeletions _ _)
  | deleteEntry baseKey =>
    rw [← Option.some.inj h, deleteEntry_eq hlinks baseKey ⟨.deleteEntry baseKey, order, commits⟩]
    exact outcome_commitStaged rfl (edits_stageDeleteEntry p baseKey)
  | reset =>
    simp only [step, Option.some.injEq] at h
    rw [← h]
    split
    · exact .cleared
    · exact .unchanged
  | prune now =>
    rw [← Option.some.inj h, pruneExpired]
    split
    · next hidle => exact .idle now hidle
    · unfold commitOrRestore
      split
      · next index hindex => exact .committed _ index rfl (.inr ⟨now, .refl⟩) hindex
      · exact .restored _ (.inr ⟨now, .refl⟩)
  | evict requiredAccounted requiredPhysical =>
    cases h
    exact outcome_commitStaged rfl (edits_evictLoop _ _ _ _ _ _)
  | removeExpired | removeCorrupt | removeInvalidMapping =>
    cases h
    apply hdeleteIf
    intro item hitem hfound
    simp only [stagedBy, stageDeletionIf, hitem, hfound, if_true]
  | touch key generation now modifiedAt =>
    cases h
    exact .touched key generation now modifiedAt
  | restart disk now => exact .restarted q disk now rfl h

end BatchCommit
