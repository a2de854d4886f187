import Mathlib

/-!
# Binary heaps in the manner of `container/heap`

The package orders a sequence through its own `Len`, `Less` and `Swap`.  Here
the sequence is any type with a length, a key at every position and a swap of
two positions; `Less` compares keys.

`up` and `down` are the two sifts, with a bound on their iterations.
-/

namespace ContainerHeap

/-- What the package needs of a sequence. -/
structure Interface (σ τ : Type*) where
  len : σ → Nat
  key : σ → Nat → τ
  swap : σ → Nat → Nat → σ
  len_swap : ∀ s i j, len (swap s i j) = len s
  key_swap : ∀ s i j, i < len s → j < len s → key (swap s i j) = key s ∘ Equiv.swap i j

/-- The position above `i`; the first position is its own parent. -/
def parent (i : Nat) : Nat := (i - 1) / 2

section Sifts

variable {σ τ : Type*} [LinearOrder τ] (I : Interface σ τ)

/-- `up`: swap the key at `j` with its parent's while it is smaller.  Every
iteration lowers `j`, so `j` bounds their number. -/
def up : Nat → σ → Nat → σ
  | 0, s, _ => s
  | fuel + 1, s, j =>
    if parent j = j ∨ ¬ I.key s j < I.key s (parent j) then s
    else up fuel (I.swap s (parent j) j) (parent j)

/-- The smaller child of `i` among the first `n` positions. -/
def child (s : σ) (i n : Nat) : Nat :=
  if 2 * i + 2 < n ∧ I.key s (2 * i + 2) < I.key s (2 * i + 1) then 2 * i + 2 else 2 * i + 1

/-- `down`: swap the key at `i` with its smaller child's while it is larger;
the result tells where the key ends. -/
def down : Nat → σ → Nat → Nat → σ × Nat
  | 0, s, i, _ => (s, i)
  | fuel + 1, s, i, n =>
    if n ≤ 2 * i + 1 ∨ ¬ I.key s (child I s i n) < I.key s i then (s, i)
    else down fuel (I.swap s i (child I s i n)) (child I s i n) n

/-- `heap.Pop` but for the last call of `Pop`: the least key goes to the end. -/
def popOrder (s : σ) : σ :=
  let n := I.len s - 1
  (down I n (I.swap s 0 n) 0 n).1

/-- `heap.Remove` but for the last call of `Pop`: the key at `i` goes to the
end. -/
def removeOrder (s : σ) (i : Nat) : σ :=
  let n := I.len s - 1
  if n = i then s
  else
    let moved := down I n (I.swap s i n) i n
    if i < moved.2 then moved.1 else up I i moved.1 i

end Sifts

end ContainerHeap
