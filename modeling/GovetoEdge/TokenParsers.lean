import GovetoEdge.GoStrings

/-!
# Parsers over a list of tokens

A recursive-descent parser walks over a list of tokens by an index that only
goes up.  It fails with a message at a place in the text (`Fault.error`), by
looking at a token outside the list (`Fault.panic`), or by a loop that goes on
for more rounds than there are tokens (`Fault.diverged`).

* `Walks` is what a parser does to its index, and where it panics; it is composed
  along `do` blocks, and a panic is traced back to the part it comes from.
* A parser that walks does not diverge; `walks_loop` is the rule for loops: every
  round must have consumed a token.
* `Moves` is a parser that walks and never panics.
-/

namespace TokenParsers

open GoStrings

/-- A token; the one behind the last has no type. -/
structure Token (κ : Type) where
  typeName : Option κ
  value : GoString
  line : Nat
  column : Nat
deriving DecidableEq

/-- A message and its place. -/
structure ParseError where
  message : GoString
  line : Nat
  column : Nat
deriving DecidableEq

/-- How a parser can fail. -/
inductive Fault
  | error (e : ParseError)
  | panic
  | diverged
deriving DecidableEq

/-- Tokens, and how far they are read. -/
structure Parser (κ : Type) where
  tokens : List (Token κ)
  index : Nat

/-- Parsers that fail. -/
abbrev ParserM (κ : Type) := StateT (Parser κ) (Except Fault)

variable {κ α β σ : Type}

/-- All tokens are read. -/
def Parser.done (p : Parser κ) : Bool := p.tokens.length ≤ p.index

/-- The next token, or an empty one. -/
def Parser.peek (p : Parser κ) : Token κ :=
  match p.tokens[p.index]? with
  | some t => t
  | none =>
    match p.tokens.getLast? with
    | some last => ⟨none, [], last.line, last.column + last.value.length⟩
    | none => ⟨none, [], 1, 1⟩

/-- Whether there are no tokens left. -/
def done : ParserM κ Bool := fun p => .ok (p.done, p)

def peek : ParserM κ (Token κ) := fun p => .ok (p.peek, p)

/-- The token before the index. -/
def previous : ParserM κ (Token κ) := fun p =>
  if p.index = 0 then .ok (p.peek, p)
  else
    match p.tokens[p.index - 1]? with
    | some t => .ok (t, p)
    | none => .error .panic

/-- One token is read. -/
def advance : ParserM κ Unit := fun p => .ok ((), { p with index := p.index + 1 })

def fail (message : GoString) (line column : Nat) : ParserM κ α := fun _ =>
  .error (.error ⟨message, line, column⟩)

/-- An error about a token. -/
def errorAt (message : GoString) (t : Token κ) : ParserM κ α := fail message t.line t.column

/-- An error at the next token. -/
def errorHere (message : GoString) : ParserM κ α := fun p =>
  .error (.error ⟨message, p.peek.line, p.peek.column⟩)

/-- A token is read if it is this one. -/
def accept (value : GoString) : ParserM κ Bool := fun p =>
  if !p.done ∧ p.peek.value = value then .ok (true, { p with index := p.index + 1 })
  else .ok (false, p)

/-- A loop that runs for at most so many rounds; a round goes on with a new
state or returns a value. -/
def loopFor (round : σ → ParserM κ (σ ⊕ α)) : Nat → σ → ParserM κ α
  | 0, _ => fun _ => .error .diverged
  | fuel + 1, s => do
    let next ← round s
    match next with
    | .inl s => loopFor round fuel s
    | .inr x => pure x

/-- A loop over the tokens, with one round for each and one for the end. -/
def loop (round : σ → ParserM κ (σ ⊕ α)) (s : σ) : ParserM κ α := fun p =>
  loopFor round (p.tokens.length + 1) s p

variable {f : α → ParserM κ β} {m : ParserM κ α} {p : Parser κ}

/-- Both parsers succeed. -/
theorem bind_eq_ok {p' : Parser κ} {y : β} :
    (m >>= f) p = .ok (y, p') ↔ ∃ x q, m p = .ok (x, q) ∧ f x q = .ok (y, p') := by
  simp only [bind, StateT.bind, Except.bind]
  cases h : m p with
  | error e => simp
  | ok r =>
    obtain ⟨x, q⟩ := r
    simp

theorem bind_of_ok {q : Parser κ} {x : α} (h : m p = .ok (x, q)) : (m >>= f) p = f x q := by
  simp only [bind, StateT.bind, Except.bind, h]

/-- The first one fails. -/
theorem bind_of_error {e : Fault} (h : m p = .error e) : (m >>= f) p = .error e := by
  simp only [bind, StateT.bind, Except.bind, h]

theorem Parser.peek_of_done (h : p.done) : p.peek.typeName = none ∧ p.peek.value = [] := by
  have hget : p.tokens[p.index]? = none := List.getElem?_eq_none (by simpa [Parser.done] using h)
  simp only [Parser.peek, hget]
  split <;> simp

/-- A token with a type or a text is not behind the end. -/
theorem Parser.lt_of_peek (h : p.peek.typeName ≠ none ∨ p.peek.value ≠ []) :
    p.index < p.tokens.length := by
  by_contra hlt
  obtain ⟨htype, hvalue⟩ := p.peek_of_done (by simpa [Parser.done] using hlt)
  rcases h with h | h
  · exact h htype
  · exact h hvalue

/-- What a result may be: it is a panic if it has to be one and only then, and it
may have to have consumed a token of the list. -/
def Result.Good (panics strict : Prop) (p : Parser κ) : Except Fault (α × Parser κ) → Prop
  | .ok (_, q) =>
    ¬ panics ∧ q.tokens = p.tokens ∧ p.index ≤ q.index ∧
      (strict → p.index < q.index ∧ p.index < p.tokens.length)
  | .error (.error _) => ¬ panics
  | .error .panic => panics
  | .error .diverged => False

/-- **A parser that walks** keeps the tokens, never goes back and never diverges; it
panics at the places `S` and nowhere else. -/
def Walks (S : Parser κ → Prop) (strict : Prop) (m : ParserM κ α) : Prop :=
  ∀ p, Result.Good (S p) strict p (m p)

/-- A parser that walks where the next token is `t`. -/
def WalksAt (t : Token κ) (S : Parser κ → Prop) (strict : Prop) (m : ParserM κ α) : Prop :=
  ∀ p, p.peek = t → Result.Good (S p) strict p (m p)

/-- A parser that walks and does not panic. -/
abbrev Moves (strict : Prop) (m : ParserM κ α) : Prop := Walks (fun _ => False) strict m

/-- One round of a loop that goes on. -/
def GoesOn (round : σ → ParserM κ (σ ⊕ α)) (a b : σ × Parser κ) : Prop :=
  round a.1 a.2 = .ok (.inl b.1, b.2)

section Walking

variable {strict strict' : Prop} {S : Parser κ → Prop} {t : Token κ}

theorem Result.Good.congr {P Q : Prop} {r : Except Fault (α × Parser κ)}
    (h : Result.Good P strict p r) (hPQ : Q ↔ P) : Result.Good Q strict p r := by
  rwa [hPQ]

/-- Going past a token that is there. -/
theorem Result.Good.past {P : Prop} {r : Except Fault (α × Parser κ)}
    (h : Result.Good P strict' { p with index := p.index + 1 } r)
    (hlt : p.index < p.tokens.length) : Result.Good P strict p r := by
  cases r with
  | error e => cases e <;> exact h
  | ok r =>
    obtain ⟨hP, htokens, hle, -⟩ := h
    exact ⟨hP, htokens, Nat.le_of_succ_le hle, fun _ => ⟨hle, hlt⟩⟩

/-- **A panic comes from one of two parts.** -/
theorem Result.Good.bind {P Q : Prop} {T : α → Parser κ → Prop}
    (hm : Result.Good P strict p (m p))
    (hf : ∀ x q, m p = .ok (x, q) → Result.Good (T x q) False q (f x q))
    (hQ : Q ↔ P ∨ ∃ x q, m p = .ok (x, q) ∧ T x q) : Result.Good Q strict p ((m >>= f) p) := by
  cases h : m p with
  | error e =>
    rw [bind_of_error h]
    rw [h] at hm hQ
    refine Result.Good.congr ?_ (show Q ↔ P by simpa using hQ)
    cases e <;> exact hm
  | ok r =>
    obtain ⟨x, q⟩ := r
    rw [bind_of_ok h]
    rw [h] at hm hQ
    obtain ⟨hP, htokens, hle, hstrict⟩ := hm
    have hx := (hf x q h).congr (show Q ↔ T x q by simpa [hP] using hQ)
    revert hx
    cases f x q with
    | error e => cases e <;> exact id
    | ok r =>
      rintro ⟨hQ, htokens', hle', -⟩
      refine ⟨hQ, htokens'.trans htokens, Nat.le_trans hle hle', fun hs => ?_⟩
      obtain ⟨hlt, hlen⟩ := hstrict hs
      exact ⟨by omega, hlen⟩

/-- Where a parser panics. -/
theorem Walks.panics_iff (hm : Walks S strict m) (p : Parser κ) :
    m p = .error .panic ↔ S p := by
  have hgood := hm p
  cases h : m p with
  | ok r =>
    rw [h] at hgood
    simp [hgood.1]
  | error e =>
    rw [h] at hgood
    cases e with
    | error e => exact iff_of_false (by simp) hgood
    | panic => exact iff_of_true rfl hgood
    | diverged => exact hgood.elim

/-- What follows moves on. -/
theorem Walks.bind (hm : Walks S strict m) (hf : ∀ x, Moves False (f x)) :
    Walks S strict (m >>= f) :=
  fun p => (hm p).bind (fun x q _ => hf x q) (by simp)

/-- A panic behind a part that does not panic. -/
theorem Walks.after {T : α → Parser κ → Prop} (hm : Moves strict m)
    (hf : ∀ x, Walks (T x) False (f x)) :
    Walks (fun p => ∃ x q, m p = .ok (x, q) ∧ T x q) strict (m >>= f) :=
  fun p => (hm p).bind (fun x q _ => hf x q) (by simp)

/-- A panic behind a part that returns nothing and does not panic. -/
theorem Walks.behind {m : ParserM κ Unit} {f : Unit → ParserM κ α} (hm : Moves strict m)
    (hf : Walks S False (f ())) :
    Walks (fun p => ∃ q, m p = .ok ((), q) ∧ S q) strict (m >>= f) :=
  fun p => (hm p).bind (fun _ q _ => hf q) (by simp [Unique.exists_iff])

/-- Not every parser reads a token. -/
theorem Walks.loose (hm : Walks S strict m) : Walks S False m := by
  intro p
  have h := hm p
  revert h
  cases m p with
  | error e => cases e <;> exact id
  | ok r => exact fun ⟨hS, htokens, hle, _⟩ => ⟨hS, htokens, hle, False.elim⟩

theorem Walks.andThen (hm : Walks S strict m) (hf : ∀ x, Moves False (f x)) :
    Walks S False (m >>= f) := hm.loose.bind hf

/-- Also at a given token. -/
theorem Walks.at (hm : Walks S strict m) (t : Token κ) : WalksAt t S strict m :=
  fun p _ => hm p

theorem Walks.congr {T : Parser κ → Prop} (hm : Walks S strict m) (h : ∀ p, T p ↔ S p) :
    Walks T strict m :=
  fun p => (hm p).congr (h p)

theorem WalksAt.congr {T : Parser κ → Prop} (hm : WalksAt t S strict m)
    (h : ∀ p, p.peek = t → (T p ↔ S p)) : WalksAt t T strict m :=
  fun p hp => (hm p hp).congr (h p hp)

/-- A parser that does not panic where nothing has to. -/
theorem Walks.never (hm : Moves strict m) (hS : ∀ p, ¬ S p) : Walks S strict m :=
  hm.congr fun p => iff_false_intro (hS p)

/-- Nothing is read. -/
theorem moves_pure (x : α) : Moves False (pure x : ParserM κ α) :=
  fun _ => ⟨not_false, rfl, Nat.le_refl _, False.elim⟩

theorem Walks.map (hm : Walks S strict m) (g : α → β) :
    Walks S strict (m >>= fun x => pure (g x)) := hm.bind fun x => moves_pure (g x)

theorem Walks.result (hm : Walks S strict m) (g : α → β) :
    Walks S False (m >>= fun x => pure (g x)) := hm.loose.map g

/-- Errors are no panics. -/
theorem moves_fail (message : GoString) (line column : Nat) :
    Moves strict (fail message line column : ParserM κ α) := fun _ => not_false

theorem moves_errorAt (message : GoString) (t : Token κ) :
    Moves strict (errorAt message t : ParserM κ α) := fun _ => not_false

theorem moves_errorHere (message : GoString) :
    Moves strict (errorHere message : ParserM κ α) := fun _ => not_false

theorem moves_done : Moves False (done : ParserM κ Bool) :=
  fun _ => ⟨not_false, rfl, Nat.le_refl _, False.elim⟩

theorem moves_advance : Moves False (advance : ParserM κ Unit) :=
  fun _ => ⟨not_false, rfl, Nat.le_succ _, False.elim⟩

/-- **Looking back** panics behind the token that follows the last. -/
theorem walks_previous :
    Walks (fun p => p.tokens.length < p.index) False (previous : ParserM κ (Token κ)) := by
  intro p
  unfold previous
  split
  · exact ⟨by omega, rfl, Nat.le_refl _, False.elim⟩
  · cases hget : p.tokens[p.index - 1]? with
    | none =>
      have hle := List.getElem?_eq_none_iff.mp hget
      show p.tokens.length < p.index
      omega
    | some t =>
      obtain ⟨hlt, -⟩ := List.getElem?_eq_some_iff.mp hget
      exact ⟨by omega, rfl, Nat.le_refl _, False.elim⟩

/-- Looking at the next token, and going on knowing it. -/
theorem walks_peek {f : Token κ → ParserM κ α} (hf : ∀ t, WalksAt t S strict (f t)) :
    Walks S strict (peek >>= f) := by
  intro p
  exact hf p.peek p rfl

theorem WalksAt.ite {c : Prop} [Decidable c] {m m' : ParserM κ α}
    (hm : c → WalksAt t S strict m) (hm' : ¬ c → WalksAt t S strict m') :
    WalksAt t S strict (if c then m else m') := by
  split
  · exact hm ‹_›
  · exact hm' ‹_›

theorem Walks.ite {c : Prop} [Decidable c] {m m' : ParserM κ α}
    (hm : c → Walks S strict m) (hm' : ¬ c → Walks S strict m') :
    Walks S strict (if c then m else m') := by
  split
  · exact hm ‹_›
  · exact hm' ‹_›

/-- A branch, whatever decides it. -/
theorem Walks.orElse {c : Prop} [Decidable c] {m m' : ParserM κ α} (hm : Walks S strict m)
    (hm' : Walks S strict m') : Walks S strict (if c then m else m') :=
  .ite (fun _ => hm) fun _ => hm'

/-- A token is read. -/
theorem walksAt_advance {T : Parser κ → Prop} {f : Unit → ParserM κ α}
    (ht : t.typeName ≠ none ∨ t.value ≠ []) (hf : Walks S False (f ()))
    (hT : ∀ p, p.peek = t → (T p ↔ S { p with index := p.index + 1 })) :
    WalksAt t T strict (advance >>= f) := by
  intro p hp
  exact ((hf _).past (p.lt_of_peek (by rw [hp]; exact ht))).congr (hT p hp)

theorem movesAt_advance {f : Unit → ParserM κ α} (ht : t.typeName ≠ none ∨ t.value ≠ [])
    (hf : Moves False (f ())) : WalksAt t (fun _ => False) strict (advance >>= f) :=
  walksAt_advance ht hf fun _ _ => Iff.rfl

/-- An accepted text is a token that is there. -/
theorem walks_accept_bind {value : GoString} {f : Bool → ParserM κ α}
    (hS : ∀ p, S p → p.peek.value ≠ value) (htrue : Moves strict' (f true))
    (hfalse : Walks S strict (f false)) : Walks S strict (accept value >>= f) := by
  intro p
  by_cases h : !p.done ∧ p.peek.value = value
  · have hlt : p.index < p.tokens.length := by simpa [Parser.done] using h.1
    rw [bind_of_ok (if_pos h)]
    exact ((htrue _).past hlt).congr (iff_false_intro fun hp => hS p hp h.2)
  · rw [bind_of_ok (if_neg h)]
    exact hfalse p

/-- A word, or none. -/
theorem moves_accept_bind {value : GoString} {f : Bool → ParserM κ α}
    (htrue : Moves strict' (f true)) (hfalse : Moves strict (f false)) :
    Moves strict (accept value >>= f) :=
  walks_accept_bind (fun _ => False.elim) htrue hfalse

theorem moves_accept (value : GoString) : Moves False (accept value : ParserM κ Bool) := by
  intro p
  unfold accept
  split
  · exact moves_advance p
  · exact moves_pure false p

variable {S : σ → Parser κ → Prop} {round : σ → ParserM κ (σ ⊕ α)}

/-- **A loop ends** if each round reads a token. -/
theorem walks_loopFor (hround : ∀ s, Walks (S s) True (round s)) (fuel : Nat) (s : σ)
    (p : Parser κ) (hfuel : p.tokens.length < fuel + p.index ∧ 0 < fuel) :
    Result.Good (∃ b, Relation.ReflTransGen (GoesOn round) (s, p) b ∧ S b.1 b.2) False p
      (loopFor round fuel s p) := by
  induction fuel generalizing s p with
  | zero => omega
  | succ fuel ih =>
    -- A panic of the loop is one of this round, or of the rounds behind it.
    let T : σ ⊕ α → Parser κ → Prop := fun next q =>
      ∃ s', next = .inl s' ∧ ∃ b, Relation.ReflTransGen (GoesOn round) (s', q) b ∧ S b.1 b.2
    unfold loopFor
    refine Result.Good.bind (T := T) ((hround s).loose p) ?_ ⟨?_, ?_⟩
    · intro next q h
      have hgood := hround s p
      rw [h] at hgood
      obtain ⟨-, htokens, -, hstrict⟩ := hgood
      obtain ⟨hlt, hlen⟩ := hstrict trivial
      cases next with
      | inr x => exact (moves_pure x q).congr (by simp [T])
      | inl s' => exact (ih s' q (by rw [htokens]; omega)).congr (by simp [T])
    · rintro ⟨b, hreach, hb⟩
      rcases hreach.cases_head with rfl | ⟨⟨s', q⟩, h, hrest⟩
      · exact .inl hb
      · exact .inr ⟨.inl s', q, h, s', rfl, b, hrest, hb⟩
    · rintro (h | ⟨next, q, h, s', rfl, b, hrest, hb⟩)
      · exact ⟨(s, p), .refl, h⟩
      · exact ⟨b, .head (show GoesOn round (s, p) (s', q) from h) hrest, hb⟩

/-- **A loop ends** if every round consumes a token; a panic comes from a round that
the loop reaches. -/
theorem walks_loop (hround : ∀ s, Walks (S s) True (round s)) (s : σ) :
    Walks (fun p => ∃ b, Relation.ReflTransGen (GoesOn round) (s, p) b ∧ S b.1 b.2) False
      (loop round s) :=
  fun p => walks_loopFor hround _ s p (by omega)

end Walking

end TokenParsers
