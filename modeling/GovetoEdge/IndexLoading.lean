import GovetoEdge.BatchCommit

/-!
# What a restart does

A restart reads the rows of the index one by one, each key once, and then
repairs the records one by one.

* `loadItems_induct` and `repair_induct` are the rules for the two loops;
  `Repaired` says what one repair can do.
* `restart_cases` puts the stages of a restart together.
* `linksExact_step`: the reverse index is exact in every state that is reached.
-/

namespace IndexLoading

open GoStrings CacheMapping CacheProvider FiniteMaps ProviderOperations ProviderRuns List Finmap
open BatchStaging BatchCommit Provider

variable {enc : Encoding} {order : MapOrder} {p q : Provider} {l : Loading} {key k : Key}

/-- The rows of a bucket, in the order of the map. -/
theorem rows_keys {γ : Type} (bucket : Finmap fun _ : Key => γ) :
    (rows order bucket).map Prod.fst = order.list [] bucket.keys := by
  have hall : ∀ keys : List Key, (∀ key ∈ keys, key ∈ bucket) →
      (keys.filterMap fun key => (bucket.lookup key).map fun row => (key, row)).map Prod.fst =
        keys := by
    intro keys
    induction keys with
    | nil =>
      intro _
      rfl
    | cons key keys ih =>
      intro hkeys
      obtain ⟨row, hrow⟩ := mem_iff.mp (hkeys key mem_cons_self)
      rw [filterMap_cons, hrow]
      simp only [Option.map_some, map_cons]
      rw [ih fun k hk => hkeys k (mem_cons_of_mem _ hk)]
  apply hall
  intro key hkey
  exact mem_keys.mp ((order.mem [] bucket.keys key).mp hkey)

/-- A loaded row is an item. -/
theorem mem_items_enter {content : Content} {row : DiskItem} {modifiedAt : Int} :
    k ∈ (l.enter enc key content row modifiedAt).provider.items ↔
      k = key ∨ k ∈ l.provider.items := by
  exact mem_insert

/-- What a row can do: be marked, or be entered, perhaps after it is marked. -/
theorem loadItem_cases (enc : Encoding) (disk : Snapshot) (now : Int) (l : Loading) (key : Key)
    (row : DiskItem) :
    loadItem enc disk now l key row = l.markItem key ∨
      ∃ content, loadedContent disk now key row = some content ∧
        (loadItem enc disk now l key row =
            l.enter enc key content row (loadedModifiedAt disk row) ∨
          loadItem enc disk now l key row =
            (l.markItem key).enter enc key content row (loadedModifiedAt disk row)) := by
  unfold loadItem
  split
  · exact .inl rfl
  · next content hcontent =>
    refine .inr ⟨content, hcontent, ?_⟩
    split
    · exact .inl rfl
    · exact .inr rfl

/-- The rule for the loop over the item rows; every key comes once. -/
theorem loadItems_induct (enc : Encoding) (disk : Snapshot) (now : Int) {P : Loading → Prop}
    (hmark : ∀ l key, P l → P (l.markItem key))
    (henter : ∀ l key content row modifiedAt, key ∉ l.provider.items → P l →
      loadedContent disk now key row = some content →
      P (l.enter enc key content row modifiedAt)) (rows : List (Key × DiskItem)) (l : Loading)
    (hnodup : (rows.map Prod.fst).Nodup) (hfresh : ∀ q ∈ rows, q.1 ∉ l.provider.items) (hl : P l) :
    P (rows.foldl (fun l q => loadItem enc disk now l q.1 q.2) l) := by
  induction rows generalizing l with
  | nil => exact hl
  | cons q rows ih =>
    obtain ⟨key, row⟩ := q
    obtain ⟨hkey, hnodup⟩ := nodup_cons.mp hnodup
    have hne : ∀ q ∈ rows, q.1 ≠ key :=
      fun q hq heq => hkey (mem_map.mpr ⟨q, hq, heq⟩)
    have hrest : ∀ q ∈ rows, q.1 ∉ l.provider.items :=
      fun q hq => hfresh q (mem_cons_of_mem _ hq)
    have hkeyfresh : key ∉ l.provider.items := hfresh (key, row) mem_cons_self
    rw [foldl_cons]
    rcases loadItem_cases enc disk now l key row with h | ⟨content, hcontent, h | h⟩
    · rw [h]
      exact ih _ hnodup hrest (hmark l key hl)
    · rw [h]
      refine ih _ hnodup (fun q hq hmem => ?_) (henter l key content row _ hkeyfresh hl hcontent)
      exact (mem_items_enter.mp hmem).elim (hne q hq) (hrest q hq)
    · rw [h]
      refine ih _ hnodup (fun q hq hmem => ?_)
        (henter _ key content row _ hkeyfresh (hmark l key hl) hcontent)
      exact (mem_items_enter.mp hmem).elim (hne q hq) (hrest q hq)

variable {disk : Snapshot} {index : Index} {now : Int}

/-- The rule for loading as a whole. -/
theorem loadTables_induct {P : Loading → Prop}
    (hstart : P ⟨{ emptyProvider with index := index }, false⟩)
    (hmark : ∀ l key, P l → P (l.markItem key))
    (henter : ∀ l key content row modifiedAt, key ∉ l.provider.items → P l →
      loadedContent disk now key row = some content → P (l.enter enc key content row modifiedAt))
    (hgroup : ∀ l group keys, P l → P (loadGroup disk l group keys))
    (hlists : ∀ l lru links, P l →
      P { l with provider := { l.provider with lru := lru, variantMappings := links } }) :
    P (loadTables enc order disk now index) := by
  have hitems := loadItems_induct enc disk now hmark henter (rows order index.items)
    ⟨{ emptyProvider with index := index }, false⟩
    (by
      rw [rows_keys]
      exact order.nodup _ _)
    (fun _ _ hmem => absurd hmem notMem_empty) hstart
  exact hlists _ _ _
    (foldlRecOn (rows order index.groups) _ hitems fun l hl q _ => hgroup l q.1 q.2 hl)

/-- The variants that stay are those whose bodies are held. -/
theorem lookup_heldVariants (items : Items) (m : Variants) (v : Key) :
    (heldVariants items m).lookup v = if isBody items v then m.lookup v else none := by
  unfold heldVariants
  rw [lookup_foldl_erase]
  by_cases hm : v ∈ m
  · by_cases hbody : isBody items v
    · rw [if_neg (by simp [hbody]), if_pos hbody]
    · rw [if_pos (by simp [hbody, Finmap.mem_keys, hm]), if_neg hbody]
  · rw [lookup_eq_none.mpr hm, ite_self, ite_self]

/-- Variants without a body go. -/
theorem part_heldVariants (items : Items) (m : Variants) : Part m (heldVariants items m) := by
  intro v i h
  rw [lookup_heldVariants] at h
  split at h
  · exact h
  · cases h

/-- A record in need of repair. -/
structure Broken (items : Items) (key : Key) (item : CacheItem) : Prop where
  named : mappingKeyPrefix <+: key
  held : items.lookup key = some item
  text : item.file = false
  lost : ∃ v ∈ item.content.variants, isBody items v = false

/-- **What a repair can do** with one key: nothing, forget a record, or write
it again with the variants that are held. -/
inductive Repaired (p : Provider) (key : Key) : Provider → Prop
  | unchanged (h : ∀ item, p.items.lookup key = some item → mappingKeyPrefix <+: key →
      ∀ v ∈ item.content.variants, isBody p.items v = true) : Repaired p key p
  | forgotten (item : CacheItem) (broken : Broken p.items key item)
      (allLost : ∀ v ∈ item.content.variants, isBody p.items v = false) :
      Repaired p key (forgetItem p key item)
  | rewritten (item : CacheItem) (value : Content) (broken : Broken p.items key item)
      (variants : value.variants = heldVariants p.items item.content.variants)
      (text : value.file = false) (size : value.physicalSize = 0)
      (someHeld : ∃ v ∈ item.content.variants, isBody p.items v = true) :
      Repaired p key (rewriteRecord p key item value)

/-- What is left can be written. -/
theorem heldVariants_encodable {items : Items} {m : Variants} (h : m.Encodable) :
    Variants.Encodable (heldVariants items m) := by
  intro k hk i hi
  have hlookup := part_heldVariants items m k i hi
  exact h k (mem_keys.mpr (mem_of_lookup_eq_some hlookup)) i hlookup

/-- The variants that are kept. -/
theorem mem_heldVariants {items : Items} {m : Variants} {v : Key} :
    v ∈ heldVariants items m ↔ v ∈ m ∧ isBody items v = true := by
  rw [mem_iff, mem_iff]
  simp only [lookup_heldVariants]
  constructor
  · rintro ⟨i, hi⟩
    split at hi
    · next hbody => exact ⟨⟨i, hi⟩, hbody⟩
    · cases hi
  · rintro ⟨⟨i, hi⟩, hbody⟩
    exact ⟨i, by rw [if_pos hbody, hi]⟩

/-- A record is repaired. -/
theorem repaired_repairRecord {item : CacheItem} {mapping : Mapping} {n : ℕ+}
    (hnamed : mappingKeyPrefix <+: key) (hitem : p.items.lookup key = some item)
    (hcontent : item.content = .record (some mapping) n) :
    Repaired p key (repairRecord enc p key item mapping.val).1 := by
  have hvariants : item.content.variants = mapping.val := by rw [hcontent, variants_record]
  have htext : item.file = false := by rw [CacheItem.file, hcontent]; rfl
  have hencode : ∃ c, encodeMapping enc (heldVariants p.items mapping.val) = some c :=
    ⟨_, dif_pos (heldVariants_encodable mapping.property)⟩
  obtain ⟨c, hc⟩ := hencode
  unfold repairRecord
  dsimp only
  split
  · next hsame =>
    apply Repaired.unchanged
    intro item' hitem' _ v hv
    have heq : item' = item := Option.some.inj (hitem'.symm.trans hitem)
    rw [heq, hvariants, ← Finmap.mem_keys, ← hsame, Finmap.mem_keys] at hv
    exact (mem_heldVariants.mp hv).2
  · next hchanged =>
    have hbroken : Broken p.items key item := by
      refine ⟨hnamed, hitem, htext, ?_⟩
      by_contra hall
      push Not at hall
      apply hchanged
      ext v
      rw [Finmap.mem_keys, Finmap.mem_keys, mem_heldVariants]
      refine ⟨fun h => h.1, fun hv => ⟨hv, ?_⟩⟩
      rw [← hvariants] at hv
      simpa using hall v hv
    split
    · next hempty =>
      apply Repaired.forgotten item hbroken
      intro v hv
      by_contra hbody
      have hmem : v ∈ (heldVariants p.items mapping.val).keys := by
        rw [Finmap.mem_keys, mem_heldVariants, ← hvariants]
        exact ⟨hv, by simpa using hbody⟩
      rw [hempty] at hmem
      exact absurd hmem (Finset.notMem_empty v)
    · next hrest =>
      rw [hc]
      have hspec := encodeMapping_eq_some hc
      obtain ⟨v, hv⟩ := Finset.nonempty_of_ne_empty hrest
      rw [Finmap.mem_keys, mem_heldVariants, ← hvariants] at hv
      exact .rewritten item c hbroken (hspec.1.trans (by rw [hvariants])) hspec.2.1 hspec.2.2
        ⟨v, hv⟩

/-- So is whatever is under its key. -/
theorem repaired_repairMapping (enc : Encoding) (l : Loading) (key : Key) :
    Repaired l.provider key (repairMapping enc l key).provider := by
  unfold repairMapping
  split
  · next hnone =>
    apply Repaired.unchanged
    intro item hitem
    rw [hnone] at hitem
    cases hitem
  · next item hitem =>
    split
    · next hother =>
      apply Repaired.unchanged
      intro _ _ hyes
      exact absurd hyes hother
    · next hnamed =>
      rw [not_not] at hnamed
      have hplain : item.content.variants = ∅ → Repaired l.provider key l.provider := by
        intro hempty
        apply Repaired.unchanged
        intro item' hitem' _ v hv
        rw [Option.some.inj (hitem'.symm.trans hitem), hempty] at hv
        exact absurd hv notMem_empty
      split
      · next mapping n hcontent => exact repaired_repairRecord hnamed hitem hcontent
      · next hcontent => exact hplain (by rw [hcontent]; rfl)
      · next hcontent => exact hplain (by rw [hcontent]; rfl)
      · next hcontent => exact hplain (by rw [hcontent]; rfl)

/-- The rule for the loop over the records. -/
theorem repair_induct {P : Provider → Prop}
    (hrepair : ∀ p q key, Repaired p key q → P p → P q) (keys : List Key) (l : Loading)
    (hl : P l.provider) : P (keys.foldl (repairMapping enc) l).provider :=
  foldlRecOn (motive := fun l : Loading => P l.provider) keys _ hl fun l hl key _ =>
    hrepair _ _ key (repaired_repairMapping enc l key) hl

/-- The provider that is loaded, before its index is written again. -/
def loaded (enc : Encoding) (order : MapOrder) (disk : Snapshot) (now : Int) (index : Index) :
    Loading :=
  let l := loadTables enc order disk now index
  (order.list [] l.provider.items.keys).foldl (repairMapping enc) l

/-- **The stages of a restart.**  Only the index of what is loaded may be written
again. -/
theorem restart_cases {commits : Bool} (h : restart enc order disk now commits index = some q) :
    q = emptyProvider ∨ ∃ index' items groups, q = { (loaded enc order disk now index).provider with
      index := index', dirtyItems := items, dirtyGroups := groups } := by
  unfold restart at h
  split at h
  · dsimp only at h
    split at h
    · unfold persistIndex at h
      split at h
      · obtain ⟨index', _, rfl⟩ := Option.map_eq_some_iff.mp h
        exact .inr ⟨index', ∅, ∅, rfl⟩
      · cases h
    · cases h
      exact .inr ⟨_, _, _, rfl⟩
  · exact .inl (Option.some.inj h).symm

/-- The links that are built are exact. -/
theorem linksExact_reverseMappings (items : Items) : LinksExact items (reverseMappings items) := by
  intro v k
  unfold reverseMappings listed
  simp only [Finset.mem_biUnion, Finset.mem_image, Prod.mk.injEq]
  constructor
  · rintro ⟨key, _, variant, hvariant, rfl, rfl⟩
    exact hvariant
  · intro hv
    refine ⟨k, ?_, v, hv, rfl, rfl⟩
    rw [Finmap.mem_keys, ← Finmap.lookup_isSome]
    cases hk : items.lookup k with
    | none => simp [hk] at hv
    | some item => rfl

/-- A repair keeps them exact. -/
theorem linksExact_repaired (hrepair : Repaired p key q)
    (h : LinksExact p.items p.variantMappings) : LinksExact q.items q.variantMappings := by
  cases hrepair with
  | unchanged _ => exact h
  | forgotten item broken _ =>
    have hunlink := h.unlink key
    rw [listed_of_lookup broken.held] at hunlink
    exact hunlink
  | rewritten item value broken _ _ _ _ =>
    have hunlink := h.unlink key
    rw [listed_of_lookup broken.held] at hunlink
    exact hunlink.link _

/-- So they are after loading. -/
theorem linksExact_loaded (enc : Encoding) (order : MapOrder) (disk : Snapshot) (now : Int)
    (index : Index) :
    LinksExact (loaded enc order disk now index).provider.items
      (loaded enc order disk now index).provider.variantMappings :=
  repair_induct (P := fun p => LinksExact p.items p.variantMappings)
    (fun _ _ _ => linksExact_repaired) _ _ (linksExact_reverseMappings _)

theorem linksExact_empty : LinksExact emptyProvider.items emptyProvider.variantMappings :=
  fun v k => by simp [emptyProvider, listed]

/-- And after a restart. -/
theorem linksExact_restart {commits : Bool}
    (h : restart enc order disk now commits index = some q) :
    LinksExact q.items q.variantMappings := by
  rcases restart_cases h with rfl | ⟨_, _, _, rfl⟩
  · exact linksExact_empty
  · exact linksExact_loaded enc order disk now index

/-- What touching an item leaves as it is. -/
theorem touchItem_cases (p : Provider) (key : Key) (generation : Nat) (now modifiedAt : Int) :
    touchItem p key generation now modifiedAt = p ∨
      ∃ item lastAccess modified, p.items.lookup key = some item ∧
        (touchItem p key generation now modifiedAt).items = p.items.insert key
          { item with lastAccess := lastAccess, modifiedAt := modified } := by
  unfold touchItem
  split
  · exact .inl rfl
  · next item hitem =>
    split
    · exact .inl rfl
    · exact .inr ⟨item, _, _, hitem, rfl⟩

theorem touchItem_variantMappings (p : Provider) (key : Key) (generation : Nat)
    (now modifiedAt : Int) :
    (touchItem p key generation now modifiedAt).variantMappings = p.variantMappings := by
  unfold touchItem
  split
  · rfl
  · split <;> rfl

/-- A hit keeps them. -/
theorem linksExact_touchItem (h : LinksExact p.items p.variantMappings) (key : Key)
    (generation : Nat) (now modifiedAt : Int) :
    LinksExact (touchItem p key generation now modifiedAt).items
      (touchItem p key generation now modifiedAt).variantMappings := by
  rw [touchItem_variantMappings]
  rcases touchItem_cases p key generation now modifiedAt with
    heq | ⟨item, lastAccess, modified, hitem, heq⟩
  · rw [heq]
    exact h
  · intro v k
    rw [heq, h v k, listed_insert]
    split
    · next hk =>
      rw [hk, listed_of_lookup hitem]
      rfl
    · exact Iff.rfl

/-- **The reverse index stays exact in every step.** -/
theorem linksExact_step {op : Op} (h : LinksExact p.items p.variantMappings)
    (hstep : step enc p op = some q) : LinksExact q.items q.variantMappings := by
  cases step_outcome h hstep with
  | committed s index _ _ _ => exact linksExact_applyBatch h
  | unchanged | dropped | restored | idle => exact h
  | touched key generation now modifiedAt =>
    exact linksExact_touchItem h key generation now modifiedAt
  | cleared => exact linksExact_empty
  | restarted _ disk now _ loaded => exact linksExact_restart loaded

end IndexLoading
