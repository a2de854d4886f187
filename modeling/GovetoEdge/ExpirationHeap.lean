import GovetoEdge.ContainerHeap
import GovetoEdge.GoStrings

/-!
# The expiration heap

The items that expire wait in a binary heap of pointers to entries.  An entry
carries the position it stands at, so that `heap.Remove` can be called with
it; the heap's own `Swap`, `Push` and `Pop` write that position.

Pointers are numbers.  The parts of an entry that never change and the
position, which the heap writes, are two tables.
-/

namespace ExpirationHeap

open ContainerHeap GoStrings Function

/-- `expirationEntry` without its position; `due` is the field `at`. -/
structure ExpirationEntry where
  due : Int
  key : GoString
  generation : Nat
deriving DecidableEq

/-- `expirationHeap` and the entries its pointers lead to. -/
structure Heap where
  slots : List Nat
  entry : Nat → ExpirationEntry
  index : Nat → Int
  next : Nat

/-- A heap without entries. -/
def empty : Heap := ⟨[], fun _ => ⟨0, [], 0⟩, fun _ => -1, 0⟩

/-- The item at a place. -/
def slot (h : Heap) (i : Nat) : Nat := h.slots.getD i 0

/-- `Swap`. -/
def swap (h : Heap) (i j : Nat) : Heap :=
  { h with
    slots := (h.slots.set i (slot h j)).set j (slot h i)
    index := update (update h.index (slot h j) i) (slot h i) j }

/-- Two places are exchanged. -/
theorem slot_swap {h : Heap} {i j : Nat} (hi : i < h.slots.length) (hj : j < h.slots.length)
    (c : Nat) : slot (swap h i j) c = slot h (Equiv.swap i j c) := by
  unfold slot swap slot
  simp only [List.getD_eq_getElem?_getD, List.getElem?_set, List.length_set, hi, hj, if_true]
  rw [Equiv.swap_apply_def]
  by_cases hcj : j = c
  · by_cases hci : c = i
    · subst hcj hci
      simp
    · simp [hcj, hci]
  · by_cases hci : i = c
    · simp [hcj, hci]
    · simp [hcj, hci, Ne.symm hcj, Ne.symm hci]

/-- The heap as `container/heap` sees it: `Less` compares the due times. -/
def interface : Interface Heap Int where
  len h := h.slots.length
  key h i := (h.entry (slot h i)).due
  swap := swap
  len_swap h i j := by simp [swap]
  key_swap h i j hi hj := by
    funext c
    simp only [comp_apply, slot_swap hi hj]
    rfl

/-- `heap.Push` of the entry behind a pointer. -/
def push (h : Heap) (id : Nat) : Heap :=
  let n := h.slots.length
  up interface n { h with slots := h.slots ++ [id], index := update h.index id n } n

/-- The heap's own `Pop`: the last pointer leaves, and its entry stands nowhere. -/
def popLast (h : Heap) : Nat × Heap :=
  let last := slot h (h.slots.length - 1)
  (last, { h with slots := h.slots.dropLast, index := update h.index last (-1) })

/-- `heap.Pop`. -/
def pop (h : Heap) : Nat × Heap := popLast (popOrder interface h)

/-- `heap.Remove`. -/
def remove (h : Heap) (i : Nat) : Heap := (popLast (removeOrder interface h i)).2

/-- A pointer to a new entry that stands nowhere. -/
def alloc (h : Heap) (e : ExpirationEntry) : Nat × Heap :=
  (h.next, { h with
    entry := update h.entry h.next e
    index := update h.index h.next (-1)
    next := h.next + 1 })

end ExpirationHeap
