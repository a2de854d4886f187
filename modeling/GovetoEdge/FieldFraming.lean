import GovetoEdge.GoStrings

/-!
# Length-framed fields

A frame is the decimal length of a string, a colon and the string; a field is
the frame of its name and the frame of its value.  Since a length is written
in digits, the first colon ends it, and a sequence of fields can be read back
from their concatenation: `encode_injective`.
-/

namespace FieldFraming

open GoStrings List

/-- A string behind its length. -/
def frame (s : GoString) : GoString := itoa s.length ++ 58 :: s

/-- A named value. -/
abbrev Field := GoString × GoString

/-- The frames of a sequence of fields. -/
def encode (fields : List Field) : GoString :=
  fields.flatMap fun f => frame f.1 ++ frame f.2

/-- Two texts up to the same delimiter. -/
theorem append_cons_inj {α : Type*} {x : α} {as bs cs ds : List α} (has : x ∉ as) (hbs : x ∉ bs)
    (h : as ++ x :: cs = bs ++ x :: ds) : as = bs ∧ cs = ds := by
  induction as generalizing bs with
  | nil =>
    cases bs with
    | nil => exact ⟨rfl, by simpa using h⟩
    | cons b bs =>
      obtain ⟨rfl, _⟩ := List.cons.inj h
      exact absurd mem_cons_self hbs
  | cons a as ih =>
    cases bs with
    | nil =>
      obtain ⟨rfl, _⟩ := List.cons.inj h
      exact absurd mem_cons_self has
    | cons b bs =>
      obtain ⟨rfl, htail⟩ := List.cons.inj h
      obtain ⟨hfront, hback⟩ := ih (fun hx => has (mem_cons_of_mem _ hx))
        (fun hx => hbs (mem_cons_of_mem _ hx)) htail
      exact ⟨by rw [hfront], hback⟩

/-- Numbers have no colon. -/
theorem colon_not_mem_itoa (n : Nat) : (58 : UInt8) ∉ itoa n := by
  intro h
  have hdigit := digit_of_mem_itoa h
  exact absurd hdigit.2 (by decide)

/-- **A frame can be split off.** -/
theorem frame_append_inj {s t as bs : GoString} (h : frame s ++ as = frame t ++ bs) :
    s = t ∧ as = bs := by
  unfold frame at h
  rw [append_assoc, append_assoc, cons_append, cons_append] at h
  obtain ⟨hlen, hrest⟩ := append_cons_inj (colon_not_mem_itoa _) (colon_not_mem_itoa _) h
  exact append_inj hrest (itoa_injective hlen)

theorem frame_ne_nil (s : GoString) : frame s ≠ [] := by
  simp [frame]

/-- **Fields can be read back from their encoding.** -/
theorem encode_injective : Function.Injective encode := by
  intro as bs h
  induction as generalizing bs with
  | nil =>
    cases bs with
    | nil => rfl
    | cons f bs =>
      have hnil : frame f.1 ++ frame f.2 ++ encode bs = [] := h.symm
      exact absurd (append_eq_nil_iff.mp (append_eq_nil_iff.mp hnil).1).1
        (frame_ne_nil f.1)
  | cons e as ih =>
    cases bs with
    | nil =>
      have hnil : frame e.1 ++ frame e.2 ++ encode as = [] := h
      exact absurd (append_eq_nil_iff.mp (append_eq_nil_iff.mp hnil).1).1
        (frame_ne_nil e.1)
    | cons f bs =>
      have hcons : frame e.1 ++ (frame e.2 ++ encode as) =
          frame f.1 ++ (frame f.2 ++ encode bs) := by
        simpa [encode] using h
      obtain ⟨hname, hrest⟩ := frame_append_inj hcons
      obtain ⟨hvalue, htail⟩ := frame_append_inj hrest
      rw [Prod.ext hname hvalue, ih htail]

/-- Fields are framed one by one. -/
theorem encode_append (as bs : List Field) : encode (as ++ bs) = encode as ++ encode bs := by
  simp [encode]

end FieldFraming
