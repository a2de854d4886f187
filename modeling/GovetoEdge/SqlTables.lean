import Mathlib

/-!
# Tables and guarded updates

A table is a list of rows.  `UPDATE … SET … WHERE …` changes the rows that meet
a condition, all by the same function, and touches no other row.

* `mem_update` and `forall_update` are how invariants of rows go through an
  update;
* a key that no update changes stays unique (`map_update`), and then names one
  row (`eq_of_key`);
* `sum_update_key` is what the change of one row does to a sum over all rows.
-/

namespace SqlTables

open List

variable {α κ : Type*}

/-- `UPDATE … SET f WHERE p`. -/
def update (p : α → Prop) [DecidablePred p] (f : α → α) (rows : List α) : List α :=
  rows.map fun r => if p r then f r else r

variable {p : α → Prop} [DecidablePred p] {f : α → α} {rows : List α} {key : α → κ}

variable {r : α}

/-- What is in an updated table. -/
theorem mem_update : r ∈ update p f rows ↔ ∃ old ∈ rows, (if p old then f old else old) = r :=
  mem_map

/-- A row after an update is a changed one, or one that did not match. -/
theorem mem_update_cases (h : r ∈ update p f rows) :
    (∃ old ∈ rows, p old ∧ r = f old) ∨ (r ∈ rows ∧ ¬ p r) := by
  obtain ⟨old, hold, rfl⟩ := mem_update.mp h
  split
  · next hp => exact .inl ⟨old, hold, hp, rfl⟩
  · next hp => exact .inr ⟨hold, hp⟩

theorem mem_update_of_not (h : r ∈ rows) (hp : ¬ p r) : r ∈ update p f rows :=
  mem_update.mpr ⟨r, h, if_neg hp⟩

theorem mem_update_of_pos (h : r ∈ rows) (hp : p r) : f r ∈ update p f rows :=
  mem_update.mpr ⟨r, h, if_pos hp⟩

/-- A property of rows that the changed rows keep. -/
theorem forall_update {Q : α → Prop} (h : ∀ r ∈ rows, Q r) (hf : ∀ r ∈ rows, p r → Q (f r)) :
    ∀ r ∈ update p f rows, Q r := by
  intro r hr
  rcases mem_update_cases hr with ⟨old, hold, hp, rfl⟩ | ⟨hold, _⟩
  · exact hf old hold hp
  · exact h r hold

/-- A column that the update leaves alone in the rows that it changes. -/
theorem map_update_of (hf : ∀ r, p r → key (f r) = key r) :
    (update p f rows).map key = rows.map key := by
  unfold update
  rw [map_map]
  apply map_congr_left
  intro r _
  simp only [Function.comp_apply]
  split
  · next hp => exact hf r hp
  · rfl

/-- A column that the update leaves alone. -/
theorem map_update (hf : ∀ r, key (f r) = key r) : (update p f rows).map key = rows.map key :=
  map_update_of fun r _ => hf r

/-- What a partial column holds after an update that empties it in the rows that it
changes. -/
theorem mem_filterMap_update {column : α → Option κ} {k : κ} (hf : ∀ r, column (f r) = none) :
    k ∈ (update p f rows).filterMap column ↔ ∃ r ∈ rows, ¬ p r ∧ column r = some k := by
  simp only [update, filterMap_map, mem_filterMap, Function.comp_apply]
  refine exists_congr fun r => and_congr_right fun _ => ?_
  split
  · next hp => simp [hf, hp]
  · next hp => simp [hp]

/-- Nothing matches, nothing changes. -/
theorem update_of_forall_not (h : ∀ r ∈ rows, ¬ p r) : update p f rows = rows := by
  conv_rhs => rw [← map_id rows]
  apply map_congr_left
  intro r hr
  rw [if_neg (h r hr), id]

/-- A unique key names one row. -/
theorem eq_of_key {t : α} (hnodup : (rows.map key).Nodup) (hr : r ∈ rows) (ht : t ∈ rows)
    (h : key r = key t) : r = t :=
  inj_on_of_nodup_map hnodup hr ht h

/-- A sum over the rows after one row, named by its key, was changed. -/
theorem sum_update_key [DecidableEq κ] {w : α → Nat} (hnodup : (rows.map key).Nodup)
    (hr : r ∈ rows) :
    ((update (fun x => key x = key r) f rows).map w).sum + w r = (rows.map w).sum + w (f r) := by
  induction rows with
  | nil => cases hr
  | cons x rest ih =>
    rw [map_cons, nodup_cons] at hnodup
    simp only [update, map_cons, sum_cons] at ih ⊢
    rcases mem_cons.mp hr with rfl | hrest
    · have hothers : update (fun x => key x = key r) f rest = rest := by
        apply update_of_forall_not
        intro y hy hkey
        exact hnodup.1 (hkey ▸ mem_map_of_mem hy)
      simp only [update] at hothers
      rw [hothers, if_pos rfl]
      omega
    · have hne : key x ≠ key r := by
        intro hkey
        exact hnodup.1 (hkey ▸ mem_map_of_mem hrest)
      have := ih hnodup.2 hrest
      rw [if_neg hne]
      omega

end SqlTables
