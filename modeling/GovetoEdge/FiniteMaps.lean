import Mathlib

/-!
# Sums over finite maps, and tables of sets

* `total` adds up a quantity over the values of a finite map; `total_insert`
  and `total_erase` say what one update does to it.
* A table of nonempty sets, `map[K]map[V]struct{}` in Go, is a finite relation.
  `related` reads one set of it; `link` and `unlink` add a value to several
  sets and remove it from several sets.
-/

namespace FiniteMaps

open List Finmap

variable {α β γ : Type*} [DecidableEq α]

/-- The quantity at one key; nothing at a key that is not held. -/
def amount (f : γ → Nat) (m : Finmap fun _ : α => γ) (a : α) : Nat := (m.lookup a).elim 0 f

/-- The quantity of all values together. -/
def total (f : γ → Nat) (m : Finmap fun _ : α => γ) : Nat := ∑ a ∈ m.keys, amount f m a

variable {f : γ → Nat} {m : Finmap fun _ : α => γ} {a : α}

/-- The amount of an entry. -/
theorem amount_of_lookup {c : γ} (h : m.lookup a = some c) : amount f m a = f c := by
  rw [amount, h]
  rfl

theorem amount_of_none (h : m.lookup a = none) : amount f m a = 0 := by
  rw [amount, h]
  rfl

theorem amount_erase_of_ne {b : α} (h : b ≠ a) : amount f (m.erase a) b = amount f m b := by
  rw [amount, amount, lookup_erase_ne h]

/-- What is not at `a` keeps its quantity. -/
theorem total_erase (f : γ → Nat) (m : Finmap fun _ : α => γ) (a : α) :
    total f (m.erase a) + amount f m a = total f m := by
  have hrest : total f (m.erase a) = ∑ b ∈ m.keys.erase a, amount f m b := by
    rw [total, keys_erase]
    apply Finset.sum_congr rfl
    intro b hb
    exact amount_erase_of_ne (Finset.ne_of_mem_erase hb)
  by_cases ha : a ∈ m.keys
  · rw [hrest, total]
    exact Finset.sum_erase_add _ _ ha
  · have hnone : m.lookup a = none := lookup_eq_none.mpr fun h => ha (mem_keys.mpr h)
    rw [hrest, Finset.erase_eq_of_notMem ha, amount_of_none hnone, Nat.add_zero, total]

/-- The new entry is erased. -/
theorem erase_insert_self (m : Finmap fun _ : α => γ) (a : α) (c : γ) :
    (m.insert a c).erase a = m.erase a := by
  apply ext_lookup
  intro b
  by_cases hb : b = a
  · subst hb
    rw [lookup_erase, lookup_erase]
  · rw [lookup_erase_ne hb, lookup_erase_ne hb, lookup_insert_of_ne _ hb]

/-- A new entry takes the place of the old one. -/
theorem total_insert (f : γ → Nat) (m : Finmap fun _ : α => γ) (a : α) (c : γ) :
    total f (m.insert a c) + amount f m a = total f m + f c := by
  have hnew := total_erase f (m.insert a c) a
  have hold := total_erase f m a
  rw [erase_insert_self, amount_of_lookup (lookup_insert m)] at hnew
  omega

/-- A total is no larger when no quantity is. -/
theorem total_mono {m' : Finmap fun _ : α => γ} (h : ∀ a, amount f m a ≤ amount f m' a) :
    total f m ≤ total f m' := by
  have hextend : ∀ n : Finmap fun _ : α => γ, n.keys ⊆ m.keys ∪ m'.keys →
      total f n = ∑ a ∈ m.keys ∪ m'.keys, amount f n a := by
    intro n hn
    apply Finset.sum_subset hn
    intro a _ ha
    exact amount_of_none (lookup_eq_none.mpr fun hmem => ha (mem_keys.mpr hmem))
  rw [hextend m Finset.subset_union_left, hextend m' Finset.subset_union_right]
  exact Finset.sum_le_sum fun a _ => h a

/-- A total depends on nothing but the quantities at the keys. -/
theorem total_congr {m' : Finmap fun _ : α => γ} (h : ∀ a, amount f m a = amount f m' a) :
    total f m = total f m' :=
  le_antisymm (total_mono fun a => (h a).le) (total_mono fun a => (h a).ge)

/-- Other entries are not. -/
theorem erase_insert_of_ne (m : Finmap fun _ : α => γ) {a b : α} (h : a ≠ b) (c : γ) :
    (m.insert a c).erase b = (m.erase b).insert a c := by
  apply ext_lookup
  intro x
  by_cases hb : x = b
  · subst hb
    rw [lookup_erase, lookup_insert_of_ne _ (Ne.symm h), lookup_erase]
  · rw [lookup_erase_ne hb]
    by_cases ha : x = a
    · subst ha
      rw [lookup_insert, lookup_insert]
    · rw [lookup_insert_of_ne _ ha, lookup_insert_of_ne _ ha,
        lookup_erase_ne hb]

/-- Erasing several keys. -/
theorem lookup_foldl_erase (keys : List α) (b : α) (m : Finmap fun _ : α => γ) :
    (keys.foldl (fun m a => m.erase a) m).lookup b = if b ∈ keys then none else m.lookup b := by
  induction keys generalizing m with
  | nil => simp
  | cons a keys ih =>
    rw [foldl_cons, ih]
    by_cases hb : b ∈ keys
    · rw [if_pos hb, if_pos (mem_cons_of_mem _ hb)]
    · by_cases hab : b = a
      · rw [if_neg hb, if_pos (hab ▸ mem_cons_self), hab, lookup_erase]
      · rw [if_neg hb, if_neg (by simp [hab, hb]), lookup_erase_ne hab]

variable [DecidableEq β]

/-- The set at a key; a key without an entry has the empty set. -/
def related (r : Finset (α × β)) (a : α) : Finset β := (r.filter (·.1 = a)).image Prod.snd

variable {b : β} {r : Finset (α × β)}

@[simp] theorem mem_related {a : α} : b ∈ related r a ↔ (a, b) ∈ r := by
  simp only [related, Finset.mem_image, Finset.mem_filter]
  constructor
  · rintro ⟨⟨x, y⟩, ⟨hr, rfl⟩, rfl⟩
    exact hr
  · intro hr
    exact ⟨(a, b), ⟨hr, rfl⟩, rfl⟩

/-- Add `b` to the sets of all keys in `s`. -/
def link (r : Finset (α × β)) (s : Finset α) (b : β) : Finset (α × β) :=
  r ∪ s.image fun a => (a, b)

/-- Remove `b` from the sets of all keys in `s`. -/
def unlink (r : Finset (α × β)) (s : Finset α) (b : β) : Finset (α × β) :=
  r.filter fun q => ¬ (q.1 ∈ s ∧ q.2 = b)

@[simp] theorem mem_link {s : Finset α} {q : α × β} :
    q ∈ link r s b ↔ q ∈ r ∨ q.1 ∈ s ∧ q.2 = b := by
  obtain ⟨x, y⟩ := q
  simp only [link, Finset.mem_union, Finset.mem_image, Prod.mk.injEq]
  constructor
  · rintro (h | ⟨a, ha, rfl, rfl⟩)
    · exact .inl h
    · exact .inr ⟨ha, rfl⟩
  · rintro (h | ⟨hx, rfl⟩)
    · exact .inl h
    · exact .inr ⟨x, hx, rfl, rfl⟩

@[simp] theorem mem_unlink {s : Finset α} {q : α × β} :
    q ∈ unlink r s b ↔ q ∈ r ∧ ¬ (q.1 ∈ s ∧ q.2 = b) := by
  simp [unlink]

/-- Nothing to link. -/
@[simp] theorem link_empty (r : Finset (α × β)) (b : β) : link r ∅ b = r := by
  simp [link]

@[simp] theorem unlink_empty (r : Finset (α × β)) (b : β) : unlink r ∅ b = r := by
  simp [unlink]

end FiniteMaps
