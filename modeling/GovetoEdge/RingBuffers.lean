import Mathlib

/-!
# Ring buffers

A buffer of fixed capacity whose elements stand in consecutive slots, modulo the
capacity.  New elements go behind the last one; the reader looks at a window of
slots from the first element on, which does not wrap around, and releases it
later.

* `contents_push` and `contents_release`: the elements are a queue;
* `window_eq_take`: a window holds the first elements of the queue, and so a
  window that is being read stays as it is when others push (`window_push`).
-/

namespace RingBuffers

open List

variable {α : Type*}

/-- Slots in a circle. -/
structure RingBuffer (α : Type*) where
  capacity : Nat
  slots : Nat → α
  head : Nat
  count : Nat
  head_lt : head < capacity
  count_le : count ≤ capacity

namespace RingBuffer

/-- A buffer without elements. -/
def empty [Inhabited α] (capacity : Nat) (h : 0 < capacity) : RingBuffer α :=
  ⟨capacity, fun _ => default, 0, 0, h, Nat.zero_le _⟩

/-- The elements, first in first out. -/
def contents (r : RingBuffer α) : List α :=
  (List.range r.count).map fun i => r.slots ((r.head + i) % r.capacity)

/-- The slots of a read that does not wrap around. -/
def window (r : RingBuffer α) (k : Nat) : List α := (List.range k).map fun i => r.slots (r.head + i)

/-- Add an element. -/
def push (r : RingBuffer α) (h : r.count < r.capacity) (x : α) : RingBuffer α :=
  { r with
    slots := Function.update r.slots ((r.head + r.count) % r.capacity) x
    count := r.count + 1
    count_le := h }

/-- Clear the first `k` slots and give them back. -/
def release [Inhabited α] (r : RingBuffer α) (k : Nat) : RingBuffer α :=
  { r with
    slots := fun j => if r.head ≤ j ∧ j < r.head + k then default else r.slots j
    head := (r.head + k) % r.capacity
    count := r.count - k
    head_lt := Nat.mod_lt _ (Nat.zero_lt_of_lt r.head_lt)
    count_le := le_trans (Nat.sub_le _ _) r.count_le }

@[simp] theorem contents_length (r : RingBuffer α) : r.contents.length = r.count := by
  simp [contents]

/-- Different elements stand in different slots. -/
theorem slot_ne {head i j capacity : Nat} (hij : i < j) (hj : j < capacity) :
    (head + i) % capacity ≠ (head + j) % capacity := by
  intro heq
  have hdvd : capacity ∣ (head + j) - (head + i) :=
    Nat.dvd_of_mod_eq_zero (Nat.sub_mod_eq_zero_of_mod_eq heq.symm)
  have hle := Nat.le_of_dvd (by omega) hdvd
  omega

/-- A record is added behind the others. -/
theorem contents_push (r : RingBuffer α) (h : r.count < r.capacity) (x : α) :
    (r.push h x).contents = r.contents ++ [x] := by
  show (List.range (r.count + 1)).map _ = _
  rw [range_succ, map_append, map_singleton]
  congr 1
  · apply map_congr_left
    intro i hi
    exact Function.update_of_ne (slot_ne (mem_range.mp hi) h) x r.slots
  · simp [push]

/-- A window that does not wrap around holds the first elements. -/
theorem window_eq_take (r : RingBuffer α) {k : Nat} (hk : k ≤ r.count)
    (hend : r.head + k ≤ r.capacity) :
    r.window k = r.contents.take k := by
  unfold window contents
  rw [← map_take, take_range, Nat.min_eq_left hk]
  apply map_congr_left
  intro i hi
  have hlt := mem_range.mp hi
  rw [Nat.mod_eq_of_lt (by omega)]

/-- What is being read is not overwritten. -/
theorem window_push (r : RingBuffer α) (h : r.count < r.capacity) (x : α) {k : Nat}
    (hk : k ≤ r.count)
    (hend : r.head + k ≤ r.capacity) : (r.push h x).window k = r.window k := by
  rw [window_eq_take r hk hend, window_eq_take (r.push h x) (Nat.le_succ_of_le hk) hend,
    contents_push, take_append_of_le_length (by simpa using hk)]

/-- The oldest ones go. -/
theorem contents_release [Inhabited α] (r : RingBuffer α) {k : Nat} (hk : k ≤ r.count) :
    (r.release k).contents = r.contents.drop k := by
  apply ext_getElem
  · simp [release]
  · intro i hi _
    have hi : i < r.count - k := by simpa [release] using hi
    have hcount := r.count_le
    have hhead := r.head_lt
    simp only [contents, release, getElem_map, getElem_range, getElem_drop]
    rw [Nat.mod_add_mod, Nat.add_assoc, if_neg]
    by_cases hwrap : r.head + (k + i) < r.capacity
    · rw [Nat.mod_eq_of_lt hwrap]
      omega
    · rw [Nat.mod_eq_sub_mod (by omega), Nat.mod_eq_of_lt (by omega)]
      omega

end RingBuffer

end RingBuffers
