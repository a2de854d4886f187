import GovetoEdge.ProviderRuns

/-!
# What staging can do

The staging functions are made of a few elementary edits.

* `Edit` is one edit of an operation; every staging function is a sequence of
  them, so what each edit keeps every operation keeps.
* `LinksExact` says that the reverse index is the inverse of the records.
  From it follows what `deleteItem` does to the table of items in detail:
  `deleteItem_body_spec` and `deleteItem_record_spec`.
-/

namespace BatchStaging

open GoStrings HttpHeaders CacheMapping CacheProvider FiniteMaps ProviderOperations ProviderRuns
open BatchState List
open Relation (ReflTransGen)

variable {enc : Encoding} {order : MapOrder} {s t : BatchState} {key k : Key}

/-- The item is gone, others stay. -/
theorem getItem_stageAbsent (s : BatchState) (key k : Key) :
    (s.stageAbsent key).getItem k = if k = key then none else s.getItem k := by
  unfold stageAbsent getItem
  split
  · next h => rw [h, Finmap.lookup_erase]
  · next h => rw [Finmap.lookup_erase_ne h]

/-- The item is there, others stay. -/
theorem getItem_stagePresent (s : BatchState) (key k : Key) (item : CacheItem) :
    (s.stagePresent key item).getItem k = if k = key then some item else s.getItem k := by
  unfold stagePresent getItem
  split
  · next h => rw [h, Finmap.lookup_insert]
  · next h => rw [Finmap.lookup_insert_of_ne _ h]

/-- Forgetting a record touches no item. -/
@[simp] theorem getItem_forgetRecord (s : BatchState) (key k : Key) :
    (s.forgetRecord key).getItem k = s.getItem k := by
  unfold forgetRecord
  split <;> rfl

theorem getItem_stageMapping_none (s : BatchState) (key k : Key) :
    (s.stageMapping enc key none).getItem k = if k = key then none else s.getItem k := by
  rw [stageMapping, getItem_stageAbsent, getItem_forgetRecord]

theorem getItem_stageMapping_some (s : BatchState) (key k : Key) (item : CacheItem) :
    (s.stageMapping enc key (some item)).getItem k =
      if k = key then some { item with accountedSize := accountedItemSize enc key item.content }
      else s.getItem k := by
  rw [stageMapping, putRecord, getItem_stagePresent]
  congr 1
  exact getItem_forgetRecord s key k

/-- The variants listed by what is held at a key. -/
def listed (items : Items) (k : Key) : Finset Key := (items.lookup k).elim ∅ mappingVariants

/-- The reverse index is the inverse of the records. -/
def LinksExact (items : Items) (links : Finset (Key × Key)) : Prop :=
  ∀ v k, (v, k) ∈ links ↔ v ∈ listed items k

/-- The variants of an erased item. -/
theorem listed_erase (items : Items) (key k : Key) :
    listed (items.erase key) k = if k = key then ∅ else listed items k := by
  unfold listed
  split
  · next h => rw [h, Finmap.lookup_erase, Option.elim_none]
  · next h => rw [Finmap.lookup_erase_ne h]

/-- The variants of a new one. -/
theorem listed_insert (items : Items) (key k : Key) (item : CacheItem) :
    listed (items.insert key item) k =
      if k = key then mappingVariants item else listed items k := by
  unfold listed
  split
  · next h => rw [h, Finmap.lookup_insert, Option.elim_some]
  · next h => rw [Finmap.lookup_insert_of_ne _ h]

variable {item : CacheItem} {items : Items} {links : Finset (Key × Key)} {v mk : Key}

theorem listed_of_lookup (h : items.lookup k = some item) :
    listed items k = mappingVariants item := by
  rw [listed, h, Option.elim_some]

/-- Items with a file are bodies. -/
theorem exists_body (h : item.file = true) : ∃ b, item.content = .body b := by
  unfold CacheItem.file at h
  cases hc : item.content with
  | body b => exact ⟨b, rfl⟩
  | record | raw => simp [hc, Content.file] at h

/-- A body lists nothing. -/
theorem mappingVariants_of_file (h : item.file = true) : mappingVariants item = ∅ := by
  obtain ⟨b, hb⟩ := exists_body h
  rw [mappingVariants, hb, variants_body, Finmap.keys_empty]

/-- What is linked is held, and is no body. -/
theorem LinksExact.record (h : LinksExact items links) (hv : (v, k) ∈ links) :
    ∃ item, items.lookup k = some item ∧ item.file = false ∧ v ∈ item.content.variants := by
  have hlisted := (h v k).mp hv
  unfold listed at hlisted
  cases hk : items.lookup k with
  | none => simp [hk] at hlisted
  | some item =>
    rw [hk, Option.elim_some] at hlisted
    have hmem : v ∈ item.content.variants := Finmap.mem_keys.mp hlisted
    exact ⟨item, rfl, file_eq_false_of_mem_variants hmem, hmem⟩

/-- Taking a record out of the reverse index. -/
theorem LinksExact.unlink (h : LinksExact items links) (key : Key) :
    LinksExact (items.erase key) (unlink links (listed items key) key) := by
  intro v k
  rw [mem_unlink, h v k, listed_erase]
  split
  · next hk =>
    subst hk
    simp
  · next hk => simp [hk]

/-- Taking out what lists nothing. -/
theorem LinksExact.erase (h : LinksExact items links) (hnothing : listed items key = ∅) :
    LinksExact (items.erase key) links := by
  intro v k
  rw [h v k, listed_erase]
  split
  · next hk => rw [hk, hnothing]
  · exact Iff.rfl

/-- Putting a record into the reverse index. -/
theorem LinksExact.link (h : LinksExact (items.erase key) links) (item : CacheItem) :
    LinksExact (items.insert key item) (link links (mappingVariants item) key) := by
  intro v k
  have hk := h v k
  rw [listed_erase] at hk
  rw [mem_link, hk, listed_insert]
  split
  · next heq => simp [heq]
  · next hne => simp [hne]

/-- The links of the record go. -/
theorem forgetRecord_variantMappings (s : BatchState) (key : Key) :
    (s.forgetRecord key).variantMappings =
      unlink s.variantMappings (listed s.items key) key := by
  unfold forgetRecord listed
  split
  · next old hold =>
    rw [getItem] at hold
    rw [hold, Option.elim_some]
  · next hnone =>
    rw [getItem] at hnone
    rw [hnone, Option.elim_none, unlink_empty]

@[simp] theorem forgetRecord_items (s : BatchState) (key : Key) :
    (s.forgetRecord key).items = s.items := by
  unfold forgetRecord
  split <;> rfl

/-- The reverse index is exact. -/
abbrev Linked (s : BatchState) : Prop := LinksExact s.items s.variantMappings

/-- Deleting a record keeps it exact. -/
theorem linksExact_stageMapping_none (h : Linked s) (key : Key) :
    Linked (s.stageMapping enc key none) := by
  show LinksExact ((s.forgetRecord key).items.erase key) (s.forgetRecord key).variantMappings
  rw [forgetRecord_items, forgetRecord_variantMappings]
  exact h.unlink key

/-- Writing one does, too. -/
theorem linksExact_stageMapping_some (h : Linked s) (key : Key) (item : CacheItem) :
    Linked (s.stageMapping enc key (some item)) := by
  show LinksExact ((s.forgetRecord key).items.insert key _)
    (FiniteMaps.link (s.forgetRecord key).variantMappings _ key)
  rw [forgetRecord_items, forgetRecord_variantMappings]
  exact (h.unlink key).link { item with accountedSize := accountedItemSize enc key item.content }

/-- A part of a mapping: it lists no more, and what it lists in the same way. -/
def Part (m m' : Variants) : Prop := ∀ v i, m'.lookup v = some i → m.lookup v = some i

/-- How an operation renews an item that is held: a body keeps its value, and a
record may get another value that lists the same variants. -/
inductive Renewed (enc : Encoding) (key : Key) (old : CacheItem) : CacheItem → Prop
  | value (expiresAt lastAccess modifiedAt : Int) (generation : Nat) :
      Renewed enc key old
        { old with
          expiresAt := expiresAt, lastAccess := lastAccess, modifiedAt := modifiedAt
          generation := generation }
  | record (content : Content) (expiresAt lastAccess : Int) (generation : Nat)
      (text : old.file = false) (new : content.file = false)
      (keys : content.variants.keys = old.content.variants.keys) :
      Renewed enc key old
        { old with
          content := content, expiresAt := expiresAt, lastAccess := lastAccess
          generation := generation, accountedSize := accountedItemSize enc key content }

/-- One edit of an operation: `new` are the items it may put in, and `joins`
the keys it may add to groups. -/
inductive Edit (enc : Encoding) (new : Key → CacheItem → Prop) (joins : Key → Key → Prop)
    (s : BatchState) : BatchState → Prop
  /-- counters and other things beside the tables; the mark is never taken back -/
  | count (links : Finset (Key × Key)) (used physical : Nat) (files : Finset FileName)
      (evicted version : Nat) (mark : Bool) (h : s.miscounted → mark) :
      Edit enc new joins s
        { s with
          variantMappings := links, used := used, physical := physical, obsoleteFiles := files
          evicted := evicted, nextVersion := version, miscounted := mark }
  | leaveGroups (key : Key) : Edit enc new joins s (s.removeItemGroups key)
  | remove (key : Key) : Edit enc new joins s (s.stageAbsent key)
  /-- a record is rewritten with fewer variants -/
  | rewrite (key : Key) (item : CacheItem) (content : Content) (generation : Nat)
      (held : s.getItem key = some item) (old : item.file = false) (text : content.file = false)
      (part : Part item.content.variants content.variants) :
      Edit enc new joins s (s.stagePresent key
        { item with
          content := content, generation := generation
          accountedSize := accountedItemSize enc key content })
  | joinGroup (key group : Key) (h : joins key group) :
      Edit enc new joins s (s.addItemGroup key group)
  | put (key : Key) (item : CacheItem) (h : new key item) (pointer : item.expiration = none) :
      Edit enc new joins s (s.stagePresent key item)
  | renew (key : Key) (old item : CacheItem) (held : s.getItem key = some old)
      (h : Renewed enc key old item) : Edit enc new joins s (s.stagePresent key item)

/-- A sequence of edits. -/
abbrev Reworks (enc : Encoding) (new : Key → CacheItem → Prop) (joins : Key → Key → Prop) :
    BatchState → BatchState → Prop :=
  ReflTransGen (Edit enc new joins)

/-- A sequence of edits that puts nothing in. -/
abbrev Shrinks (enc : Encoding) : BatchState → BatchState → Prop :=
  Reworks enc (fun _ _ => False) fun _ _ => False

variable {new : Key → CacheItem → Prop} {joins : Key → Key → Prop}

/-- Counters and links may change. -/
theorem edits_count {links : Finset (Key × Key)} {used physical evicted version : Nat}
    {files : Finset FileName} :
    Reworks enc new joins s
      { s with
        variantMappings := links, used := used, physical := physical, obsoleteFiles := files
        evicted := evicted, nextVersion := version } :=
  .single (.count links used physical files evicted version s.miscounted id)

theorem edits_mark : Reworks enc new joins s { s with miscounted := true } :=
  .single (.count _ _ _ _ _ _ true fun _ => rfl)

/-- A record is forgotten. -/
theorem edits_forgetRecord (key : Key) : Reworks enc new joins s (s.forgetRecord key) := by
  unfold forgetRecord
  split
  · refine .single (.count _ _ _ _ _ _ _ fun h => ?_)
    rw [h, Bool.true_or]
  · exact .refl

/-- A record is deleted. -/
theorem edits_stageMapping_none (s : BatchState) (key : Key) :
    Reworks enc new joins s (s.stageMapping enc key none) :=
  (edits_forgetRecord key).tail (.remove key)

/-- Rewriting a record with a part of what it lists. -/
theorem edits_rewrite {content : Content} {generation : Nat} (held : s.getItem key = some item)
    (old : item.file = false) (text : content.file = false)
    (part : Part item.content.variants content.variants) :
    Reworks enc new joins s (s.stageMapping enc key
      (some { item with content := content, generation := generation })) := by
  let r := s.forgetRecord key
  let size := accountedItemSize enc key content
  let c : BatchState := { r with
    used := r.used + size
    variantMappings := link r.variantMappings content.variants.keys key }
  have hcount : Reworks enc new joins r c := edits_count
  have hheld : c.getItem key = some item := (getItem_forgetRecord s key key).trans held
  exact ((edits_forgetRecord key).trans hcount).tail
    (.rewrite key item content generation hheld old text part)

/-- A record with one variant less. -/
theorem part_erase (m : Variants) (v : Key) : Part m (m.erase v) := by
  intro w i h
  by_cases hw : w = v
  · subst hw
    rw [Finmap.lookup_erase] at h
    cases h
  · rwa [Finmap.lookup_erase_ne hw] at h

/-- A variant leaves a record. -/
theorem edits_removeVariantFromMapping (s : BatchState) (mappingKey variedKey : Key) :
    Reworks enc new joins s (s.removeVariantFromMapping enc mappingKey variedKey) := by
  unfold removeVariantFromMapping
  split
  · exact .refl
  · next item hitem =>
    split
    · exact edits_stageMapping_none s mappingKey
    · exact edits_stageMapping_none s mappingKey
    · next mapping hmapping =>
      split
      · exact .refl
      · next hlisted =>
        rw [not_not] at hlisted
        have hvariants : item.content.variants = mapping := by
          rw [Content.variants, hmapping]
          rfl
        split
        · exact .head (.leaveGroups mappingKey) (edits_stageMapping_none _ mappingKey)
        · split
          · exact edits_stageMapping_none s mappingKey
          · next encoded hencoded =>
            have hnew := encodeMapping_eq_some hencoded
            apply edits_count.trans
            apply edits_rewrite (s := s.bumpVersion) hitem
            · rw [CacheItem.file, file_eq_false_of_mem_variants (v := variedKey)]
              rw [hvariants]
              exact hlisted
            · exact hnew.2.1
            · rw [hvariants, hnew.1]
              exact part_erase mapping variedKey

/-- It leaves all of its records. -/
theorem edits_removeVariantFromMappings (mappingKeys : List Key) (variedKey : Key) :
    Reworks enc new joins s (s.removeVariantFromMappings enc mappingKeys variedKey) :=
  foldlRecOn mappingKeys _ .refl fun t ht mappingKey _ =>
    ht.trans (edits_removeVariantFromMapping t mappingKey variedKey)

/-- **A deletion is a sequence of edits.** -/
theorem edits_deleteItem (s : BatchState) (key : Key) :
    Reworks enc new joins s (s.deleteItem enc order key) := by
  unfold deleteItem
  split
  · exact .refl
  · next item _ =>
    have hbase : Reworks enc new joins s ((s.removeItemGroups key).discount item) :=
      .head (.leaveGroups key) edits_count
    split
    · next b _ =>
      refine ((hbase.tail ?_).trans (edits_removeVariantFromMappings _ key)).tail
        (.remove key)
      exact .count _ _ _ _ _ _ _ id
    · exact (hbase.trans edits_mark).trans (edits_stageMapping_none _ key)
    · exact (hbase.trans edits_mark).trans (edits_stageMapping_none _ key)

/-- What is left at a key when a variant is removed from what is held there. -/
inductive Cut (v : Key) : Option CacheItem → Option CacheItem → Prop
  | absent : Cut v none none
  | other (item : CacheItem) (h : v ∉ item.content.variants) : Cut v (some item) (some item)
  | last (item : CacheItem) (h : v ∈ item.content.variants)
      (empty : (item.content.variants.erase v).keys = ∅) : Cut v (some item) none
  | rewritten (item : CacheItem) (content : Content) (generation size : Nat)
      (h : v ∈ item.content.variants) (rest : (item.content.variants.erase v).keys ≠ ∅)
      (variants : content.variants = item.content.variants.erase v)
      (text : content.file = false) :
      Cut v (some item)
        (some { item with content := content, generation := generation, accountedSize := size })

/-- Removing a variant from a record that lists it. -/
theorem removeVariantFromMapping_listed (enc : Encoding) (hitem : s.getItem mk = some item)
    (hv : v ∈ item.content.variants) :
    ((item.content.variants.erase v).keys = ∅ ∧ s.removeVariantFromMapping enc mk v =
        (s.removeItemGroups mk).stageMapping enc mk none) ∨
      ((item.content.variants.erase v).keys ≠ ∅ ∧ ∃ content,
        content.variants = item.content.variants.erase v ∧ content.file = false ∧
        content.physicalSize = 0 ∧
        s.removeVariantFromMapping enc mk v = s.bumpVersion.stageMapping enc mk
          (some { item with content := content, generation := s.nextVersion + 1 })) := by
  have hdecode := decodeMapping_of_mem_variants hv
  by_cases hempty : (item.content.variants.erase v).keys = ∅
  · refine .inl ⟨hempty, ?_⟩
    simp only [removeVariantFromMapping, hitem, hdecode, hv, not_true_eq_false, if_false, hempty,
      if_true]
  · obtain ⟨content, hcontent⟩ :=
      encodeMapping_erase enc (variants_encodable item.content) v
    have hspec := encodeMapping_eq_some hcontent
    refine .inr ⟨hempty, content, hspec.1, hspec.2.1, hspec.2.2, ?_⟩
    simp only [removeVariantFromMapping, hitem, hdecode, hv, not_true_eq_false, if_false, hempty,
      hcontent]

/-- What is left of the record; other items stay. -/
theorem getItem_removeVariantFromMapping (enc : Encoding) (hitem : s.getItem mk = some item)
    (hv : v ∈ item.content.variants) :
    Cut v (s.getItem mk) ((s.removeVariantFromMapping enc mk v).getItem mk) ∧
      ∀ k ≠ mk, (s.removeVariantFromMapping enc mk v).getItem k = s.getItem k := by
  rcases removeVariantFromMapping_listed enc hitem hv with
    ⟨hempty, heq⟩ | ⟨hrest, content, hvariants, htext, _, heq⟩
  · rw [heq]
    refine ⟨?_, fun k hk => ?_⟩
    · rw [getItem_stageMapping_none, if_pos rfl, hitem]
      exact .last item hv hempty
    · rw [getItem_stageMapping_none, if_neg hk]
      rfl
  · rw [heq]
    refine ⟨?_, fun k hk => ?_⟩
    · rw [getItem_stageMapping_some, if_pos rfl, hitem]
      exact .rewritten item content _ _ hv hrest hvariants htext
    · rw [getItem_stageMapping_some, if_neg hk]
      rfl

/-- The index stays exact. -/
theorem linksExact_removeVariantFromMapping (enc : Encoding)
    (hlinks : Linked s) (hitem : s.getItem mk = some item) (hv : v ∈ item.content.variants) :
    Linked (s.removeVariantFromMapping enc mk v) := by
  rcases removeVariantFromMapping_listed enc hitem hv with
    ⟨_, heq⟩ | ⟨_, content, _, _, _, heq⟩
  · rw [heq]
    exact linksExact_stageMapping_none (s := s.removeItemGroups mk) hlinks mk
  · rw [heq]
    exact linksExact_stageMapping_some (s := s.bumpVersion) hlinks mk _

/-- The loop over the records that list a variant cuts it out of each. -/
theorem removeVariantFromMappings_spec (enc : Encoding) {mks : List Key} (hnodup : mks.Nodup)
    (hlinks : Linked s)
    (hheld : ∀ mk ∈ mks, ∃ item, s.getItem mk = some item ∧ v ∈ item.content.variants)
    (hloop : s.removeVariantFromMappings enc mks v = t) :
    (∀ k ∈ mks, Cut v (s.getItem k) (t.getItem k)) ∧ (∀ k ∉ mks, t.getItem k = s.getItem k) ∧
      Linked t := by
  induction mks generalizing s with
  | nil =>
    subst hloop
    exact ⟨fun k hk => absurd hk (by simp), fun _ _ => rfl, hlinks⟩
  | cons mk mks ih =>
    obtain ⟨hmk, hnodup⟩ := nodup_cons.mp hnodup
    obtain ⟨item, hitem, hv⟩ := hheld mk mem_cons_self
    obtain ⟨hcut, hsame⟩ := getItem_removeVariantFromMapping enc hitem hv
    have hlinks' := linksExact_removeVariantFromMapping enc hlinks hitem hv
    have hne : ∀ k ∈ mks, k ≠ mk := fun k hk heq => hmk (heq ▸ hk)
    have hheld' : ∀ k ∈ mks, ∃ item, (s.removeVariantFromMapping enc mk v).getItem k = some item ∧
        v ∈ item.content.variants := by
      intro k hk
      rw [hsame k (hne k hk)]
      exact hheld k (mem_cons_of_mem _ hk)
    obtain ⟨hcuts, hothers, hexact⟩ := ih hnodup hlinks' hheld' hloop
    refine ⟨?_, ?_, hexact⟩
    · intro k hk
      rcases mem_cons.mp hk with rfl | hk
      · rw [hothers k hmk]
        exact hcut
      · rw [← hsame k (hne k hk)]
        exact hcuts k hk
    · intro k hk
      rw [mem_cons, not_or] at hk
      exact (hothers k hk.2).trans (hsame k hk.1)

/-- A body is deleted by taking it off the counters, going through the records
that list it, and then removing it. -/
theorem deleteItem_body_eq (enc : Encoding) (order : MapOrder) (hlinks : Linked s)
    (hitem : s.getItem key = some item) (hfile : item.file = true) :
    ∃ files mks, s.deleteItem enc order key =
        (removeVariantFromMappings enc
          { (s.removeItemGroups key).discount item with obsoleteFiles := files } mks
          key).stageAbsent key ∧
      mks.Nodup ∧ key ∉ mks ∧ ∀ mk, mk ∈ mks ↔ (key, mk) ∈ s.variantMappings := by
  obtain ⟨b, hb⟩ := exists_body hfile
  have hmem : ∀ mk, mk ∈ order.list key (related s.variantMappings key) ↔
      (key, mk) ∈ s.variantMappings := by
    intro mk
    rw [order.mem, mem_related]
  refine ⟨insert b.file ((s.removeItemGroups key).discount item).obsoleteFiles,
    order.list key (related s.variantMappings key), ?_, order.nodup key _, ?_, hmem⟩
  · simp only [deleteItem, hitem, hb]
    rfl
  · intro hk
    obtain ⟨record, hrecord, htext, _⟩ := hlinks.record ((hmem key).mp hk)
    rw [Option.some.inj (hrecord.symm.trans hitem), hfile] at htext
    cases htext

/-- **Deleting a body** removes it, and cuts it out of every record. -/
theorem deleteItem_body_spec (enc : Encoding) (order : MapOrder) (hlinks : Linked s)
    (hitem : s.getItem key = some item) (hfile : item.file = true) :
    (s.deleteItem enc order key).getItem key = none ∧
      (∀ k ≠ key, Cut key (s.getItem k) ((s.deleteItem enc order key).getItem k)) ∧
      Linked (s.deleteItem enc order key) := by
  obtain ⟨files, mks, hdelete, hnodup, hkey, hmem⟩ :=
    deleteItem_body_eq enc order hlinks hitem hfile
  let r : BatchState := { (s.removeItemGroups key).discount item with obsoleteFiles := files }
  have hheld : ∀ mk ∈ mks, ∃ item, r.getItem mk = some item ∧ key ∈ item.content.variants := by
    intro mk hmk
    obtain ⟨record, hrecord, _, hlisted⟩ := hlinks.record ((hmem mk).mp hmk)
    exact ⟨record, hrecord, hlisted⟩
  obtain ⟨hcuts, hothers, hexact⟩ :=
    removeVariantFromMappings_spec enc (s := r) hnodup hlinks hheld rfl
  rw [hdelete]
  refine ⟨?_, ?_, ?_⟩
  · rw [getItem_stageAbsent, if_pos rfl]
  · intro k hk
    rw [getItem_stageAbsent, if_neg hk]
    by_cases hkm : k ∈ mks
    · exact hcuts k hkm
    · rw [hothers k hkm]
      -- a record that is not linked does not list the body
      have hnot : key ∉ listed s.items k := fun h => hkm ((hmem k).mpr ((hlinks key k).mpr h))
      show Cut key (s.getItem k) (s.getItem k)
      cases hs : s.getItem k with
      | none => exact .absent
      | some other =>
        apply Cut.other
        intro hlist
        rw [listed_of_lookup hs] at hnot
        exact hnot (Finmap.mem_keys.mpr hlist)
  · have hbody : (r.removeVariantFromMappings enc mks key).items.lookup key = some item :=
      (hothers key hkey).trans hitem
    apply hexact.erase
    rw [listed_of_lookup hbody, mappingVariants_of_file hfile]

/-- **Deleting a record** removes it and nothing else. -/
theorem deleteItem_record_spec (hlinks : Linked s) (hitem : s.getItem key = some item)
    (hfile : item.file = false) :
    (∀ k, (s.deleteItem enc order key).getItem k = if k = key then none else s.getItem k) ∧
      Linked (s.deleteItem enc order key) ∧ (s.deleteItem enc order key).miscounted = true := by
  let r : BatchState := { (s.removeItemGroups key).discount item with miscounted := true }
  have hdelete : s.deleteItem enc order key = r.stageMapping enc key none := by
    unfold CacheItem.file at hfile
    cases hc : item.content with
    | body b => simp [hc, Content.file] at hfile
    | record | raw =>
      simp only [deleteItem, hitem, hc]
      rfl
  rw [hdelete]
  refine ⟨fun k => getItem_stageMapping_none r key k, ?_, ?_⟩
  · exact linksExact_stageMapping_none (s := r) hlinks key
  · have hrk : r.getItem key = some item := hitem
    simp only [stageMapping, stageAbsent, forgetRecord, hrk]
    exact Bool.true_or _

/-- Nothing to delete. -/
theorem deleteItem_of_absent (h : s.getItem key = none) : s.deleteItem enc order key = s := by
  simp only [deleteItem, h]

/-- Deletions keep the reverse index exact. -/
theorem linksExact_deleteItem (enc : Encoding) (order : MapOrder) (hlinks : Linked s) (key : Key) :
    Linked (s.deleteItem enc order key) := by
  cases hitem : s.getItem key with
  | none =>
    rw [deleteItem_of_absent hitem]
    exact hlinks
  | some item =>
    cases hfile : item.file with
    | true => exact (deleteItem_body_spec enc order hlinks hitem hfile).2.2
    | false => exact (deleteItem_record_spec hlinks hitem hfile).2.1

/-- A body stays when something else is deleted. -/
theorem getItem_deleteItem_of_file (hlinks : Linked s) (hk : k ≠ key)
    (hitem : s.getItem k = some item) (hfile : item.file = true) :
    (s.deleteItem enc order key).getItem k = some item := by
  cases hkey : s.getItem key with
  | none => rw [deleteItem_of_absent hkey, hitem]
  | some other =>
    cases hother : other.file with
    | false => rw [(deleteItem_record_spec hlinks hkey hother).1 k, if_neg hk, hitem]
    | true =>
      have hcut := (deleteItem_body_spec enc order hlinks hkey hother).2.1 k hk
      have hnone : ∀ v, v ∉ item.content.variants := by
        intro v hv
        rw [CacheItem.file, file_eq_false_of_mem_variants hv] at hfile
        cases hfile
      rw [hitem] at hcut
      generalize (s.deleteItem enc order key).getItem k = after at hcut ⊢
      cases hcut with
      | other _ _ => rfl
      | last _ h _ | rewritten _ _ _ _ h _ _ _ => exact absurd h (hnone key)

/-- Deletions put nothing in. -/
theorem getItem_none_of_shrinks (h : Shrinks enc s t) (hk : s.getItem k = none) :
    t.getItem k = none := by
  induction h with
  | refl => exact hk
  | tail _ hstep ih =>
    cases hstep with
    | count | leaveGroups => exact ih
    | joinGroup _ _ h | put _ _ h => exact h.elim
    | remove key =>
      rw [getItem_stageAbsent]
      split
      · rfl
      · exact ih
    | rewrite key item _ _ held | renew key item _ held =>
      rw [getItem_stagePresent, if_neg]
      · exact ih
      · intro heq
        rw [heq, held] at ih
        cases ih

/-- Whatever a deletion and the count of evictions keep, an eviction keeps. -/
theorem evictLoop_induct {P : BatchState → Prop}
    (hdelete : ∀ s key, P s → P (s.deleteItem enc order key))
    (hcount : ∀ s n, P s → P { s with evicted := n }) (a b : Nat) (keys : List Key) {c d : Nat}
    (hs : P s) : P (evictLoop enc order a b keys c d s) := by
  induction keys generalizing c d s with
  | nil => exact hs
  | cons key keys ih =>
    unfold evictLoop
    split
    · exact hs
    · split
      · exact ih hs
      · split
        · exact ih (hcount _ _ (hdelete s key hs))
        · exact ih hs

/-- Whatever a deletion and a pop of the heap keep, expiry keeps. -/
theorem stageExpired_induct {P : BatchState → Prop} {p : Provider} {now : Int}
    (hdelete : ∀ s key, P s → P (s.deleteItem enc order key))
    (hpop : ∀ s heap popped, P s → P { s with expirations := heap, poppedExpiry := popped })
    (hs : P s) : P (s.stageExpired enc order p now) := by
  have hfirst : ∀ s, P s → P (expireFirst enc order p now s) := by
    intro s hs
    unfold expireFirst
    dsimp only
    split
    · exact hpop s _ _ hs
    · split
      · exact hpop s _ _ hs
      · exact hdelete _ _ (hpop s _ _ hs)
  have hloop : ∀ (rounds : Nat) (s : BatchState), P s →
      P (stageExpiredLoop enc order p now rounds s) := by
    intro rounds
    induction rounds with
    | zero =>
      intro s hs
      exact hs
    | succ rounds ih =>
      intro s hs
      unfold stageExpiredLoop
      split
      · exact hs
      · split
        · exact hs
        · exact ih _ (hfirst s hs)
  exact hloop _ s hs

/-- Evictions keep the reverse index exact, and the bodies that are no candidates. -/
theorem evictCandidates_spec (keys : List Key) (hlinks : Linked s) :
    Linked (evictCandidates enc order s keys) ∧
      ∀ k item, k ∉ keys → s.getItem k = some item → item.file = true →
        (evictCandidates enc order s keys).getItem k = some item := by
  induction keys generalizing s with
  | nil => exact ⟨hlinks, fun k item _ hitem _ => hitem⟩
  | cons key keys ih =>
    obtain ⟨hrest, hkeep⟩ := ih
      (s := { s.deleteItem enc order key with evicted := s.evicted + 1 })
      (linksExact_deleteItem enc order hlinks key)
    refine ⟨hrest, fun k item hk hitem hfile => ?_⟩
    rw [mem_cons, not_or] at hk
    exact hkeep k item hk.2 (getItem_deleteItem_of_file hlinks hk.1 hitem hfile) hfile

/-- The candidates are bodies that are not protected. -/
theorem mem_collectCandidates {protect : Finset Key} {a b c d : Nat} {lru candidates : List Key}
    (h : collectCandidates s protect a b lru c d = some candidates) :
    ∀ k ∈ candidates, k ∉ protect ∧ ∃ item, s.getItem k = some item ∧ item.file = true := by
  induction lru generalizing c d candidates with
  | nil => exact absurd h (by simp [collectCandidates])
  | cons key rest ih =>
    unfold collectCandidates at h
    split at h
    · exact ih h
    · next item hitem =>
      split at h
      · exact ih h
      · next hfree =>
        rw [not_or] at hfree
        have hkey : key ∉ protect ∧ ∃ item, s.getItem key = some item ∧ item.file = true :=
          ⟨hfree.1, item, hitem, by simpa using hfree.2⟩
        split at h
        · intro k hk
          rw [← Option.some.inj h, mem_singleton] at hk
          rw [hk]
          exact hkey
        · obtain ⟨others, hothers, rfl⟩ := Option.map_eq_some_iff.mp h
          intro k hk
          rcases mem_cons.mp hk with rfl | hk
          · exact hkey
          · exact ih hothers k hk

/-- Candidates are other items, with files. -/
theorem mem_candidatesFor {lru : List Key} {budget : Budget} {protect : Finset Key}
    {w : PendingWrite} {record : Content} {candidates : List Key}
    (h : candidatesFor enc lru budget s protect w record = some candidates) :
    ∀ k ∈ candidates, k ≠ w.variedKey ∧ ∃ item, s.getItem k = some item ∧ item.file = true := by
  unfold candidatesFor at h
  dsimp only at h
  split at h
  · cases h
  · unfold evictionCandidates at h
    split at h
    · intro k hk
      cases h
      cases hk
    · intro k hk
      obtain ⟨hfree, hbody⟩ := mem_collectCandidates h k hk
      exact ⟨fun heq => hfree (heq ▸ Finset.mem_insert_self _ _), hbody⟩

/-- Items are deleted one by one. -/
theorem edits_stageDeletions (s : BatchState) (keys : List Key) :
    Reworks enc new joins s (stageDeletions enc order s keys) :=
  foldlRecOn keys _ .refl fun t ht key _ => ht.trans (edits_deleteItem t key)

/-- Candidates are evicted. -/
theorem edits_evictCandidates (s : BatchState) (keys : List Key) :
    Reworks enc new joins s (evictCandidates enc order s keys) :=
  foldlRecOn keys _ .refl fun t ht key _ => (ht.trans (edits_deleteItem t key)).trans edits_count

/-- As many as are needed. -/
theorem edits_evictLoop (s : BatchState) (a b c d : Nat) (keys : List Key) :
    Reworks enc new joins s (evictLoop enc order a b keys c d s) :=
  evictLoop_induct (P := Reworks enc new joins s)
    (fun _ key h => h.trans (edits_deleteItem _ key)) (fun _ _ h => h.trans edits_count)
    a b keys .refl

/-- An entry is deleted with its variants. -/
theorem edits_stageDeleteEntry (p : Provider) (baseKey : Key) :
    Reworks enc new joins (newBatchState p) (stageDeleteEntry enc order p baseKey) := by
  refine .trans ?_ (edits_deleteItem _ _)
  split
  · exact .refl
  · split
    · exact .refl
    · split
      · exact edits_stageDeletions _ _
      · exact .head (.leaveGroups _) (edits_stageDeletions _ _)

/-- The item that is written over goes. -/
theorem edits_dropOverwritten (key : Key) (file : FileName) (old : Option CacheItem) :
    Reworks enc new joins s (dropOverwritten s key file old) := by
  unfold dropOverwritten
  split
  · exact .refl
  · apply Relation.ReflTransGen.head (.leaveGroups key)
    split
    · exact edits_count
    · exact edits_mark
    · exact edits_mark

/-- Room is made for a write. -/
theorem edits_makeRoom (s : BatchState) (w : PendingWrite) (candidates : List Key) :
    Reworks enc new joins s (makeRoom enc order s w candidates) :=
  (edits_count.trans (edits_evictCandidates s.bumpVersion candidates)).trans
    (edits_dropOverwritten _ _ _)

theorem edits_dropForSet (key : Key) : Reworks enc new joins s (dropForSet s key) := by
  unfold dropForSet
  split
  · exact .refl
  · split
    · exact .single (.count _ _ _ _ _ _ _ fun _ => rfl)
    · exact .refl
    · exact .refl

theorem edits_discountHeld (key : Key) : Reworks enc new joins s (discountHeld s key) := by
  unfold discountHeld
  split
  · exact edits_count
  · exact .refl

section Edits

/-- A record is written. -/
theorem edits_stageMapping_some {item : CacheItem} (pointer : item.expiration = none)
    (h : new key { item with accountedSize := accountedItemSize enc key item.content }) :
    Reworks enc new joins s (s.stageMapping enc key (some item)) := by
  apply (edits_forgetRecord key).trans
  refine .tail ?_ (.put key _ h pointer)
  exact edits_count

/-- A body is staged. -/
theorem edits_stageBody {item : CacheItem} (pointer : item.expiration = none)
    (h : new key item) : Reworks enc new joins s (stageBody s key item) := by
  refine .tail ?_ (.put key item h pointer)
  exact edits_count

variable {w : PendingWrite} {now stale duration found : Int} {baseKey : Key} {p : Provider}
  {request update : Header} {target : RefreshTarget}

/-- Groups are joined. -/
theorem edits_stageGroups (s : BatchState)
    (h : ∀ g ∈ w.groups, joins w.variedKey g ∧ joins (mappingKey w.baseKey) g) :
    Reworks enc new joins s (stageGroups s w) :=
  foldlRecOn w.groups _ .refl fun _ ht group hgroup =>
    (ht.tail (.joinGroup _ group (h group hgroup).1)).tail (.joinGroup _ group (h group hgroup).2)

/-- What a write may put in, and the groups it may join. -/
structure Allows (enc : Encoding) (new : Key → CacheItem → Prop) (joins : Key → Key → Prop)
    (stale now : Int) (w : PendingWrite) : Prop where
  body : ∀ generation, new w.variedKey (bodyItem enc stale now generation w)
  record : ∀ generation content, content.file = false →
    new (mappingKey w.baseKey) (mappingItem enc stale now generation w content)
  groups : ∀ g ∈ w.groups, joins w.variedKey g ∧ joins (mappingKey w.baseKey) g

/-- A write is accepted. -/
theorem edits_acceptWrite {record : Content} (h : Allows enc new joins stale now w)
    (text : record.file = false) (s : BatchState) (candidates : List Key) :
    Reworks enc new joins s
      (acceptWrite enc order stale now s w record candidates) := by
  have hbody : Reworks enc new joins s
      (placeBody enc order stale now s w candidates) :=
    (edits_makeRoom s w candidates).trans (edits_stageBody rfl (h.body _))
  apply (hbody.trans edits_count).trans
  exact .trans (edits_stageMapping_some rfl (h.record _ record text)) (edits_stageGroups _ h.groups)

/-- Records have no file. -/
theorem writtenRecord_file {record : Content} (h : writtenRecord enc stale now s w = some record) :
    record.file = false := by
  obtain ⟨_, _, _, htext, _⟩ := mappingUpdater_eq_some h
  exact htext

/-- One write of a flush. -/
theorem edits_stageWrite (h : Allows enc new joins stale now w) (lru : List Key) (budget : Budget)
    (acc : BatchState × Finset Key) :
    Reworks enc new joins acc.1
      (stageWrite enc order stale lru budget acc now w).1.1 := by
  unfold stageWrite
  split
  · exact .refl
  · next record hrecord =>
    split
    · exact edits_count
    · exact edits_acceptWrite h (writtenRecord_file hrecord) acc.1 _

/-- All of them. -/
theorem edits_stageWrites (lru : List Key) (budget : Budget) (batch : List (Int × PendingWrite))
    (h : ∀ q ∈ batch, Allows enc new joins stale q.1 q.2) (acc : BatchState × Finset Key) :
    Reworks enc new joins acc.1 (stageWrites enc order stale lru budget batch acc).1.1 := by
  induction batch generalizing acc with
  | nil => exact .refl
  | cons q rest ih =>
    have hfirst := h q mem_cons_self
    obtain ⟨now, w⟩ := q
    exact (edits_stageWrite hfirst lru budget acc).trans
      (ih (fun q hq => h q (mem_cons_of_mem _ hq)) _)

/-- Bodies get their times. -/
theorem edits_stampBodies (modifiedAt : FileName → Int) (accepted : List PendingWrite)
    (s : BatchState) : Reworks enc new joins s (stampBodies modifiedAt s accepted) := by
  refine foldlRecOn accepted _ .refl fun t ht w _ => ht.trans ?_
  split
  · next item hitem =>
    refine .single (.renew _ item _ hitem ?_)
    exact .value item.expiresAt item.lastAccess (modifiedAt w.finalPath) item.generation
  · exact .refl

/-- What a refresh finds: a record, a variant it lists that fits the request,
and the variant's body. -/
theorem refreshTarget_eq_some
    (h : refreshTarget enc order p baseKey request found duration stale update = some target) :
    p.items.lookup (mappingKey baseKey) = some target.record ∧ target.record.file = false ∧
      p.items.lookup target.variedKey = some target.body ∧ target.body.file = true ∧
      target.variedKey ≠ [] ∧ ∃ i, target.record.content.variants.lookup target.variedKey = some i ∧
        i.matchesRequest request ∧
        encodeMapping enc (target.record.content.variants.insert target.variedKey
          (refreshIndex found duration stale update i)) = some target.encoded := by
  obtain ⟨record, hrecord, h⟩ := Option.bind_eq_some_iff.mp h
  obtain ⟨_, hfile, h⟩ := Option.bind_eq_some_iff.mp h
  obtain ⟨mapping, hmapping, h⟩ := Option.bind_eq_some_iff.mp h
  obtain ⟨variedKey, hvaried, h⟩ := Option.bind_eq_some_iff.mp h
  obtain ⟨_, hne, h⟩ := Option.bind_eq_some_iff.mp h
  obtain ⟨i, hi, h⟩ := Option.bind_eq_some_iff.mp h
  obtain ⟨body, hbody, h⟩ := Option.bind_eq_some_iff.mp h
  obtain ⟨_, hbodyFile, h⟩ := Option.bind_eq_some_iff.mp h
  obtain ⟨encoded, hencoded, h⟩ := Option.bind_eq_some_iff.mp h
  cases h
  have hvariants : record.content.variants = mapping.getD ∅ := by
    rw [Content.variants, hmapping]
    rfl
  have hfits : i.matchesRequest request := by
    have := List.find?_some hvaried
    rwa [hi] at this
  simp only [hvariants]
  exact ⟨hrecord, by simpa [guard] using hfile, hbody, by simpa [guard] using hbodyFile,
    by simpa [guard] using hne, i, hi, hfits, hencoded⟩

/-- The record and the body of a refresh have different keys. -/
theorem refreshTarget_ne
    (h : refreshTarget enc order p baseKey request found duration stale update = some target) :
    target.variedKey ≠ mappingKey baseKey := by
  obtain ⟨hrecord, hfile, hbody, hbodyFile, _⟩ := refreshTarget_eq_some h
  intro heq
  rw [heq, hrecord, Option.some.injEq] at hbody
  rw [hbody, hbodyFile] at hfile
  cases hfile

/-- A refreshed record lists the same variants. -/
theorem refreshTarget_keys
    (h : refreshTarget enc order p baseKey request found duration stale update = some target) :
    target.encoded.file = false ∧
      target.encoded.variants.keys = target.record.content.variants.keys := by
  obtain ⟨_, _, _, _, _, i, hi, _, hencoded⟩ := refreshTarget_eq_some h
  have hspec := encodeMapping_eq_some hencoded
  refine ⟨hspec.2.1, ?_⟩
  ext v
  rw [hspec.1, Finmap.mem_keys, Finmap.mem_keys, Finmap.mem_insert]
  constructor
  · rintro (rfl | hv)
    · exact Finmap.mem_of_lookup_eq_some hi
    · exact hv
  · exact .inr

/-- A record is refreshed. -/
theorem edits_stageRefresh
    (h : stageRefresh enc order p baseKey request found now duration stale update = some s) :
    Reworks enc new joins (newBatchState p) s := by
  obtain ⟨target, htarget, rfl⟩ := Option.map_eq_some_iff.mp h
  obtain ⟨hrecord, hfile, hbody, _⟩ := refreshTarget_eq_some htarget
  obtain ⟨htext, hkeys⟩ := refreshTarget_keys htarget
  apply edits_count.trans
  refine .trans ?_ (edits_count.tail
    (.renew _ target.body _ ?_ ?_))
  · apply (edits_forgetRecord (mappingKey baseKey)).trans
    refine .tail ?_ (.renew (mappingKey baseKey) target.record _ ?_ ?_)
    · exact edits_count
    · exact (getItem_forgetRecord _ _ _).trans hrecord
    · exact .record target.encoded _ _ _ hfile htext hkeys
  · show getItem (stageMapping enc _ _ _) _ = _
    rw [getItem_stageMapping_some, if_neg (refreshTarget_ne htarget)]
    exact hbody
  · exact .value _ _ target.body.modifiedAt _

/-- An item is set. -/
theorem edits_stageSet {key : Key} {value : Text}
    (h : ∀ generation, new key (setItem enc key value now duration generation)) :
    Reworks enc new joins (newBatchState p)
      (stageSet enc p key value now duration) := by
  unfold stageSet
  apply (edits_dropForSet key).trans
  apply edits_count.trans
  split
  · exact edits_stageMapping_some rfl (h _)
  · apply (edits_discountHeld key).trans
    refine .tail ?_ (.put key _ (h _) rfl)
    exact edits_count

end Edits

end BatchStaging
