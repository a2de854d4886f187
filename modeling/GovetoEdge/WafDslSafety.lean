import GovetoEdge.WafDslParser

/-!
# Safety of the policy parser

The index of the parser only goes up, and every round of its loops consumes a
token, so the parser ends on every text.  It looks back at one place, at the
operator of a condition, and there it goes out of range when the text ends behind
the field of the condition.  `StopsAtField` says for which texts the parser gets
there, production by production.

* `walks_parseScope`: no production diverges, and a production panics on the tokens
  that stop at a field, and on no others.
-/

namespace WafDsl

open GoStrings WafPolicies NetAddresses TokenParsers

variable (lib : Library)

section Moving

/-- Words are read. -/
theorem moves_expect (value : GoString) : Moves True (expect lib value) := by
  apply moves_accept_bind
  · exact moves_pure ()
  · exact moves_errorHere _

theorem moves_expectWrapped (value message : GoString) :
    Moves True (expectWrapped lib value message) := by
  apply moves_accept_bind
  · exact moves_pure ()
  · exact moves_errorHere _

variable {message : GoString}

/-- One of two words. -/
theorem moves_either {α : Type} {value value' : GoString} {x x' : α} :
    Moves True (do
      let first ← accept value
      if first then pure x
      else
        let second ← accept value'
        if second then pure x' else errorHere message : ParserM α) := by
  apply moves_accept_bind
  · exact moves_pure _
  · apply moves_accept_bind
    · exact moves_pure _
    · exact moves_errorHere _

theorem moves_parseConnector : Moves True parseConnector := moves_either

theorem moves_parseEnabled : Moves True parseEnabled := moves_either

theorem moves_parseOverLimit : Moves True parseOverLimit := moves_either

/-- A token of one type, and something made of it. -/
theorem moves_typed {α : Type} {kind : Kind} {f : TokenParsers.Token Kind → ParserM α}
    (hf : ∀ t, Moves False (f t)) :
    Moves True (do
      let t ← peek
      if t.typeName ≠ some kind then errorHere message
      else
        advance
        f t) := by
  apply walks_peek
  intro t
  apply WalksAt.ite
  · intro _
    exact (moves_errorHere _).at t
  · intro h
    rw [not_not] at h
    exact movesAt_advance (.inl (by simp [h])) (hf t)

/-- A text is read, or an error is returned. -/
theorem moves_parseString : Moves True parseString := by
  apply moves_typed
  intro t
  cases GoQuoting.unquote t.value with
  | some value => exact moves_pure _
  | none => exact moves_errorAt _ _

theorem moves_parseNumber : Moves True (parseNumber lib) := by
  apply moves_typed
  intro t
  cases parseInt t.value with
  | some value => exact moves_pure _
  | none => exact moves_errorAt _ _

theorem moves_parseDuration : Moves True (parseDuration lib) := by
  apply moves_typed
  intro t
  simp only
  cases parseInt (if (lit "s").isSuffixOf t.value then t.value.dropLast else t.value) with
  | some value => exact moves_pure _
  | none => exact moves_fail _ _ _

theorem moves_parseBracketed (words : List GoString) (value : GoString) :
    Moves False (parseBracketed lib words value) := by
  apply Walks.ite
  · intro _
    apply moves_accept_bind
    · refine moves_parseString.loose.bind fun name => ?_
      exact (moves_expect lib _).result _
    · exact moves_pure _
  · exact fun _ => moves_pure _

/-- Every round reads a member of the set. -/
theorem moves_parseSetRound (allowCIDR : Bool) (s : SetValues) :
    Moves True (parseSetRound allowCIDR s) := by
  apply moves_accept_bind
  · exact moves_pure _
  apply walks_peek
  intro t
  apply WalksAt.ite
  · rintro ⟨-, htype⟩
    apply WalksAt.ite
    · exact fun _ => (moves_errorHere _).at t
    · intro _
      apply movesAt_advance
      · rcases htype with h | h <;> simp [h]
      · exact (moves_accept _).map _
  · intro _
    apply WalksAt.ite
    · intro _
      apply WalksAt.ite
      · exact fun _ => (moves_errorHere _).at t
      · intro _
        refine Walks.at (moves_parseString.bind fun value => ?_) t
        exact (moves_accept _).map _
    · exact fun _ => (moves_errorHere _).at t

theorem moves_parseConditionSet (allowCIDR : Bool) :
    Moves True (parseConditionSet lib allowCIDR) :=
  (moves_expect lib _).bind fun _ =>
    (walks_loop (moves_parseSetRound allowCIDR) _).congr (by simp)

theorem moves_parseStringSet (allowCIDR : Bool) :
    Moves False (parseStringSet lib allowCIDR) :=
  (moves_parseConditionSet lib allowCIDR).result _

theorem moves_hostPrefixes (values : List GoString) :
    Moves False (hostPrefixes lib values) := by
  induction values with
  | nil => exact moves_pure _
  | cons value values ih =>
    refine Walks.orElse (ih.map _) ?_
    cases parseAddr value with
    | some address => exact ih.map _
    | none => exact moves_errorHere _

/-- The field of a condition is read. -/
theorem moves_parseConditionField : Moves True (parseConditionField lib) := by
  apply moves_accept_bind
  all_goals
    apply moves_typed
    intro t
    refine (moves_parseBracketed lib _ _).bind fun value => ?_
    cases parseField value with
    | none => exact moves_errorAt _ _
    | some field => exact moves_pure _

theorem moves_parseBehindCondition (g : WAFConditionGroup) :
    Moves False (parseBehindCondition g) := by
  refine moves_done.bind fun atEnd => ?_
  refine walks_peek fun t => Walks.at ?_ t
  refine (moves_pure _).orElse ?_
  refine moves_parseConnector.andThen fun connector => ?_
  refine (moves_pure _).orElse ?_
  exact (moves_errorHere _).orElse (moves_pure _)

theorem moves_parseBehindGroup (c : WAFConditions) : Moves False (parseBehindGroup c) := by
  refine (moves_accept _).bind fun closed => ?_
  refine (moves_pure _).orElse ?_
  refine moves_parseConnector.andThen fun connector => ?_
  refine (moves_pure _).orElse ?_
  exact (moves_errorHere _).orElse (moves_pure _)

theorem moves_parseResponse : Moves True (parseResponse lib) := by
  refine (moves_expect lib _).bind fun _ => ?_
  refine walks_peek fun t => Walks.at ?_ t
  refine moves_advance.bind fun _ => ?_
  exact Walks.orElse (moves_parseString.result _) (moves_pure _)

theorem moves_parseAction : Moves True (parseAction lib) := by
  apply moves_typed
  intro action
  have hstatus : ∀ {α : Type} (f : Int → ParserM α), (∀ n, Moves False (f n)) →
      Moves False (do
        expect lib (lit "status")
        let n ← parseNumber lib
        f n) := fun f hf =>
    (moves_expect lib _).andThen fun _ => (moves_parseNumber lib).andThen hf
  refine Walks.orElse (hstatus _ fun _ => moves_pure _) ?_
  refine Walks.orElse (hstatus _ fun _ => (moves_parseResponse lib).result _) ?_
  refine (moves_pure _).orElse ?_
  refine (moves_pure _).orElse ?_
  refine (moves_pure _).orElse ?_
  refine Walks.orElse (moves_parseString.andThen fun _ => hstatus _ fun _ => moves_pure _) ?_
  exact Walks.orElse (moves_parseString.result _) (moves_errorAt _ _)

theorem moves_parseRateKey : Moves True (parseRateKey lib) := by
  apply moves_typed
  intro first
  refine (moves_parseBracketed lib _ _).bind fun value => ?_
  have hplus : Moves False (acceptPlus value) :=
    Walks.ite (fun _ => moves_accept _) fun _ => moves_pure _
  refine hplus.bind fun plus => ?_
  refine Walks.orElse ((moves_expect lib _).result _) ?_
  refine (moves_pure _).orElse ?_
  refine (moves_pure _).orElse ?_
  refine (moves_pure _).orElse ?_
  cases parseField value with
  | none => exact moves_errorAt _ _
  | some field =>
    exact (moves_pure _).orElse (moves_errorAt _ _)

/-- The backend may be left out. -/
theorem moves_parseBackend : Moves False (parseBackend lib) := by
  refine walks_peek fun t => Walks.at ?_ t
  refine (moves_errorHere _).orElse ?_
  refine moves_advance.bind fun _ => ?_
  refine (moves_pure _).orElse ?_
  refine (moves_expect lib _).andThen fun _ => ?_
  refine walks_peek fun t => Walks.at ?_ t
  exact (moves_errorHere _).orElse (moves_advance.map _)

theorem moves_parseRuleType : Moves True parseRuleType := by
  refine walks_peek fun t => ?_
  apply WalksAt.ite
  · exact fun h => movesAt_advance (.inr (by rw [h]; decide)) (moves_pure _)
  intro _
  apply WalksAt.ite
  · exact fun h => movesAt_advance (.inr (by rw [h]; decide)) (moves_pure _)
  · exact fun _ => (moves_errorHere _).at t

/-- Checks read nothing. -/
theorem moves_checkRule (result : WAFRule) (seen : RuleSeen) :
    Moves False (checkRule result seen) := by
  refine (moves_errorHere _).orElse ?_
  refine (moves_errorHere _).orElse ?_
  exact (moves_errorHere _).orElse (moves_pure _)

theorem moves_parseRuleHead : Moves True (parseRuleHead lib) := by
  refine moves_parseRuleType.bind fun _ => ?_
  refine moves_parseString.andThen fun _ => ?_
  refine moves_parseString.andThen fun _ => ?_
  refine moves_parseEnabled.andThen fun _ => ?_
  exact (moves_expect lib _).result _

theorem moves_parseRuleSetHead : Moves True (parseRuleSetHead lib) := by
  refine (moves_expect lib _).bind fun _ => ?_
  refine moves_parseString.andThen fun _ => ?_
  refine moves_parseString.andThen fun _ => ?_
  refine moves_parseEnabled.andThen fun _ => ?_
  exact (moves_expect lib _).result _

theorem moves_parsePolicyHead : Moves True (parsePolicyHead lib) := by
  refine (moves_expect lib _).bind fun _ => ?_
  refine moves_parseEnabled.andThen fun _ => ?_
  exact (moves_expect lib _).result _

end Moving

/-- A condition ends behind its field. -/
def StopsInCondition (p : Parser Kind) : Prop :=
  ∃ r q, parseConditionField lib p = .ok (r, q) ∧ q.done

/-- Behind some conditions of a group there is one that ends behind its field. -/
def StopsInGroup (p : Parser Kind) : Prop :=
  p.peek.value ≠ lit ")" ∧
    ∃ b, Relation.ReflTransGen (GoesOn (parseGroupRound lib)) (⟨[], lit "AND", []⟩, p) b ∧
      StopsInCondition lib b.2

/-- A group stops at a field. -/
def StopsInGroupFragment (p : Parser Kind) : Prop :=
  ∃ q r, expect lib (lit "group") p = .ok ((), q) ∧ expect lib (lit "(") q = .ok ((), r) ∧
    StopsInGroup lib r

/-- A group behind an opening parenthesis stops. -/
def StopsInNextGroup (p : Parser Kind) : Prop :=
  ∃ q, expectWrapped lib (lit "(") (lit "each condition group must be parenthesized") p =
    .ok ((), q) ∧ StopsInGroup lib q

/-- Conditions do. -/
def StopsInConditions (p : Parser Kind) : Prop :=
  ∃ q, expect lib (lit "(") p = .ok ((), q) ∧
    ∃ b, Relation.ReflTransGen (GoesOn (parseConditionsRound lib)) (⟨lit "AND", []⟩, q) b ∧
      StopsInNextGroup lib b.2

/-- The conditions of a rule, which come once, stop. -/
def StopsInWhen (seen : RuleSeen) (p : Parser Kind) : Prop :=
  p.peek.value = lit "when" ∧ ¬ seen.when_ ∧
    StopsInConditions lib { p with index := p.index + 1 }

/-- A rule does. -/
def StopsInRule (p : Parser Kind) : Prop :=
  ∃ head q, parseRuleHead lib p = .ok (head, q) ∧
    ∃ b, Relation.ReflTransGen (GoesOn (parseRuleRound lib)) ((head, {}), q) b ∧
      StopsInWhen lib b.1.2 b.2

/-- A set of rules does. -/
def StopsInRuleSet (p : Parser Kind) : Prop :=
  ∃ head q, parseRuleSetHead lib p = .ok (head, q) ∧
    ∃ b, Relation.ReflTransGen (GoesOn (parseRulesRound lib)) ([], q) b ∧ StopsInRule lib b.2

/-- A policy does. -/
def StopsInPolicy (p : Parser Kind) : Prop :=
  ∃ head q, parsePolicyHead lib p = .ok (head, q) ∧
    ∃ b, Relation.ReflTransGen (GoesOn (parsePolicyRound lib)) ((head, {}), q) b ∧
      StopsInRuleSet lib b.2

/-- Tokens that stop at a field, for each part of a policy. -/
def StopsIn : Scope → Parser Kind → Prop
  | .policy, p => StopsInPolicy lib p
  | .ruleSet, p => StopsInRuleSet lib p
  | .rule, p => StopsInRule lib p
  | .group, p => StopsInGroupFragment lib p
  | .other _, _ => False

/-- The text is in order up to its end, and its end is the field of a condition. -/
def StopsAtField (lexer : Lexer) (source : GoString) (scope : Scope) : Prop :=
  ∃ p, newParser lexer source = .ok p ∧ StopsIn lib scope p

/-- A word that is no operator. -/
def NoOperator (operator : GoString) : Prop :=
  operator ≠ lit "exists" ∧ valueWords.lookup operator = none ∧ operator ≠ lit "in"

/-- **The operators of conditions** are the only place where the parser looks back,
when there is none. -/
theorem walks_parseOperand (c : WAFCondition) (operator : GoString) :
    Walks (fun p => NoOperator operator ∧ p.tokens.length < p.index) False
      (parseOperand lib c operator) := by
  unfold parseOperand
  apply Walks.ite
  · exact fun h => (moves_pure _).never fun _ hno => hno.1.1 h
  intro hexists
  cases hlookup : valueWords.lookup operator with
  | some name => exact (moves_parseString.result _).never fun _ hno => nomatch hlookup ▸ hno.1.2.1
  | none =>
    apply Walks.ite
    · intro hin
      refine Walks.never ((moves_parseConditionSet lib _).andThen fun r => ?_) fun _ hno => ?_
      · exact Walks.orElse ((moves_hostPrefixes lib _).map _) (moves_pure _)
      · exact hno.1.2.2 hin
    · intro hin
      refine Walks.congr (walks_previous.bind fun _ => moves_errorAt _ _) fun p => ?_
      exact and_iff_right ⟨hexists, hlookup, hin⟩

/-- A condition panics where the tokens end with its field. -/
theorem walks_parseCondition : Walks (StopsInCondition lib) True (parseCondition lib) := by
  refine Walks.after (moves_parseConditionField lib) fun r => ?_
  refine walks_peek fun t => ?_
  intro q hq
  refine Result.Good.congr (Walks.behind moves_advance
    ((walks_parseOperand lib _ _).bind fun _ => (moves_accept _).map _) q) ?_
  constructor
  · intro hdone
    refine ⟨_, rfl, ?_, ?_⟩
    · rw [← hq, (q.peek_of_done hdone).2]
      exact ⟨by decide, by decide, by decide⟩
    · simpa [Parser.done, Nat.lt_succ_iff] using hdone
  · rintro ⟨_, hadvance, -, hlt⟩
    cases hadvance
    simpa [Parser.done, Nat.lt_succ_iff] using hlt

/-- One condition of a group. -/
theorem walks_parseGroupRound (g : WAFConditionGroup) :
    Walks (StopsInCondition lib) True (parseGroupRound lib g) :=
  (walks_parseCondition lib).bind fun _ => moves_parseBehindCondition _

/-- The loop over conditions. -/
theorem walks_parseGroupBody : Walks (StopsInGroup lib) False (parseGroupBody lib) := by
  refine walks_peek fun t => WalksAt.ite ?_ ?_
  · intro h
    exact ((moves_pure _).at t).congr fun p hp => iff_of_false (fun hS => hS.1 (by rw [hp, h])) id
  · intro h
    refine ((walks_loop (walks_parseGroupRound lib) _).at t).congr fun p hp => and_iff_right ?_
    rwa [hp]

theorem walks_parseGroupFragment :
    Walks (StopsInGroupFragment lib) True (parseGroupFragment lib) := by
  have hgroup :
      Walks (fun q => ∃ r, expect lib (lit "(") q = .ok ((), r) ∧ StopsInGroup lib r) False (do
        expect lib (lit "(")
        let group ← parseGroupBody lib
        expect lib (lit ")")
        pure group) :=
    Walks.behind (moves_expect lib _).loose
      ((walks_parseGroupBody lib).bind fun _ => (moves_expect lib _).result _)
  refine Walks.congr (Walks.behind (moves_expect lib _) hgroup) fun p => ?_
  exact exists_congr fun q => exists_and_left

theorem walks_parseConditionsRound (c : WAFConditions) :
    Walks (StopsInNextGroup lib) True (parseConditionsRound lib c) := by
  refine Walks.behind (moves_expectWrapped lib _ _) ?_
  refine (walks_parseGroupBody lib).bind fun group => ?_
  exact (moves_expect lib _).andThen fun _ => moves_parseBehindGroup _

/-- The loop over groups. -/
theorem walks_parseConditions : Walks (StopsInConditions lib) True (parseConditions lib) :=
  Walks.behind (moves_expect lib _) (walks_loop (walks_parseConditionsRound lib) _)

/-- A property has a word and a rest; a word in the wrong place is refused.  Nothing
panics at the word of a property that does not. -/
theorem walksAt_property {α : Type} {message : GoString} {t : TokenParsers.Token Kind}
    {own word : GoString} {S : Parser Kind → Prop} {c : Prop} [Decidable c] {m m' : ParserM α}
    (hS : ∀ p, S p → p.peek.value = own) (hword : word ≠ [] ∧ word ≠ own) (hm : Moves False m)
    (hm' : WalksAt t S True m') :
    WalksAt t S True (if t.value = word then
      if c then errorHere message else do
        advance
        m
      else m') := by
  apply WalksAt.ite
  · intro ht
    have hmoves : WalksAt t (fun _ => False) True (if c then errorHere message else do
        advance
        m) :=
      .ite (fun _ => (moves_errorHere _).at t) fun _ =>
        movesAt_advance (.inr (by rw [ht]; exact hword.1)) hm
    refine hmoves.congr fun p hp => iff_false_intro fun h => hword.2 ?_
    rw [← ht, ← hp, hS p h]
  · exact fun _ => hm'

/-- Of the properties of a rule only its conditions can panic. -/
theorem walks_parseRuleProperty (result : WAFRule) (seen : RuleSeen) :
    Walks (StopsInWhen lib seen) True (parseRuleProperty lib result seen) := by
  have hown : ∀ p, StopsInWhen lib seen p → p.peek.value = lit "when" := fun _ h => h.1
  refine walks_peek fun t => WalksAt.ite ?_ fun hwhen => ?_
  · intro ht
    apply WalksAt.ite
    · intro hseen
      exact ((moves_errorHere _).at t).congr fun p hp => iff_false_intro fun h => h.2.1 hseen
    · intro hseen
      refine walksAt_advance (.inr (by rw [ht]; decide)) ((walks_parseConditions lib).result _) ?_
      intro p hp
      simp [StopsInWhen, hp, ht, hseen]
  refine walksAt_property hown (by decide) ((moves_parseRateKey lib).result _) ?_
  refine walksAt_property hown (by decide) ?_ ?_
  · refine (moves_parseNumber lib).andThen fun _ => ?_
    refine (moves_expect lib _).andThen fun _ => ?_
    refine (moves_parseDuration lib).andThen fun _ => ?_
    refine (moves_expect lib _).andThen fun _ => ?_
    exact (moves_parseNumber lib).result _
  refine walksAt_property hown (by decide) ((moves_parseBackend lib).result _) ?_
  refine walksAt_property hown (by decide) ((moves_parseAction lib).result _) ?_
  refine ((moves_errorHere _).at t).congr fun p hp => iff_false_intro fun h => hwhen ?_
  rw [← hp, h.1]

/-- A round of a loop up to a closing brace panics where its body does, if the
body only panics at a word of its own. -/
theorem walks_braceRound {σ α β : Type} {message : GoString} {x : α} {m : ParserM β} {f : β → σ}
    {S : Parser Kind → Prop} (hS : ∀ p, S p → p.peek.value ≠ lit "\x7d" ∧ p.peek.value ≠ [])
    (hm : Walks S True m) :
    Walks S True (do
      let closed ← accept (lit "\x7d")
      if closed then pure (.inr x)
      else
        let atEnd ← done
        if atEnd then errorHere message
        else
          let next ← m
          pure (.inl (f next)) : ParserM (σ ⊕ α)) := by
  apply walks_accept_bind
  · exact fun p hp => (hS p hp).1
  · exact moves_pure _
  intro p
  show Result.Good (S p) True p ((if p.done then errorHere message else do
    let next ← m
    pure (.inl (f next)) : ParserM (σ ⊕ α)) p)
  split
  · exact fun h => (hS p h).2 (p.peek_of_done ‹_›).2
  · exact hm.map _ p

/-- One property of a rule. -/
theorem walks_parseRuleRound (s : WAFRule × RuleSeen) :
    Walks (StopsInWhen lib s.2) True (parseRuleRound lib s) := by
  refine walks_braceRound ?_ (walks_parseRuleProperty lib s.1 s.2)
  intro p h
  rw [h.1]
  decide

/-- The loop over properties. -/
theorem walks_parseRule : Walks (StopsInRule lib) True (parseRule lib) := by
  refine Walks.after (moves_parseRuleHead lib) fun head => ?_
  exact (walks_loop (walks_parseRuleRound lib) _).bind fun r => moves_checkRule r.1 r.2

/-- A text that is expected is the next token. -/
theorem peek_of_expect {value : GoString} {p q : Parser Kind} {u : Unit}
    (h : expect lib value p = .ok (u, q)) : p.peek.value = value := by
  by_contra hne
  have hrun : (accept value : ParserM Bool) p = .ok (false, p) := if_neg fun hv => hne hv.2
  unfold expect at h
  rw [bind_of_ok hrun] at h
  cases h

theorem peek_of_parseRuleHead {p q : Parser Kind} {head : WAFRule}
    (h : parseRuleHead lib p = .ok (head, q)) :
    p.peek.value = lit "rule" ∨ p.peek.value = lit "rate_limit" := by
  obtain ⟨type, r, htype, -⟩ := bind_eq_ok.mp h
  by_contra hne
  rw [not_or] at hne
  unfold parseRuleType at htype
  rw [bind_of_ok (show (peek : ParserM (TokenParsers.Token Kind)) p = .ok (p.peek, p) from rfl),
    if_neg hne.1, if_neg hne.2] at htype
  cases htype

/-- One rule of a set. -/
theorem walks_parseRulesRound (rules : List WAFRule) :
    Walks (StopsInRule lib) True (parseRulesRound lib rules) := by
  refine walks_braceRound ?_ (walks_parseRule lib)
  rintro p ⟨head, q, hhead, -⟩
  rcases peek_of_parseRuleHead lib hhead with h | h
  · rw [h]
    decide
  · rw [h]
    decide

/-- The loop over rules. -/
theorem walks_parseRuleSet : Walks (StopsInRuleSet lib) True (parseRuleSet lib) := by
  refine Walks.after (moves_parseRuleSetHead lib) fun head => ?_
  exact (walks_loop (walks_parseRulesRound lib) _).map _

/-- Only a set of rules stops so. -/
theorem StopsInRuleSet.peek {p : Parser Kind} (h : StopsInRuleSet lib p) :
    p.peek.value = lit "ruleset" := by
  obtain ⟨head, q, hhead, -⟩ := h
  obtain ⟨u, r, hexpect, -⟩ := bind_eq_ok.mp hhead
  exact peek_of_expect lib hexpect

/-- Of the properties of a policy only its rule sets can panic. -/
theorem walks_parsePolicyProperty (result : WAFPolicy) (seen : PolicySeen) :
    Walks (StopsInRuleSet lib) True (parsePolicyProperty lib result seen) := by
  have hown : ∀ p, StopsInRuleSet lib p → p.peek.value = lit "ruleset" := fun _ h => h.peek lib
  refine walks_peek fun t => ?_
  refine walksAt_property hown (by decide) (moves_parseEnabled.result _) ?_
  refine walksAt_property hown (by decide) ((moves_parseStringSet lib true).map _) ?_
  refine walksAt_property hown (by decide) ((moves_parseNumber lib).result _) ?_
  refine walksAt_property hown (by decide) (moves_parseOverLimit.result _) ?_
  apply WalksAt.ite
  · exact fun _ => Walks.at ((walks_parseRuleSet lib).map _) t
  · intro ht
    refine ((moves_errorHere _).at t).congr fun p hp => iff_false_intro fun h => ht ?_
    rw [← hp, h.peek lib]

theorem walks_parsePolicyRound (s : WAFPolicy × PolicySeen) :
    Walks (StopsInRuleSet lib) True (parsePolicyRound lib s) := by
  refine walks_braceRound ?_ (walks_parsePolicyProperty lib s.1 s.2)
  intro p h
  rw [h.peek lib]
  decide

theorem walks_parsePolicy : Walks (StopsInPolicy lib) True (parsePolicy lib) :=
  Walks.after (moves_parsePolicyHead lib) fun _ => walks_loop (walks_parsePolicyRound lib) _

/-- **A production walks**, and panics on the tokens that stop at a field, and on no
others. -/
theorem walks_parseScope (scope : Scope) :
    Walks (StopsIn lib scope) False (parseScope lib scope) := by
  cases scope with
  | policy => exact (walks_parsePolicy lib).result _
  | ruleSet => exact (walks_parseRuleSet lib).result _
  | rule => exact (walks_parseRule lib).result _
  | group => exact (walks_parseGroupFragment lib).result _
  | other name => exact moves_fail _ _ _

/-- A part, and the end of the text. -/
theorem walks_parseAll (scope : Scope) : Walks (StopsIn lib scope) False (parseAll lib scope) := by
  refine (walks_parseScope lib scope).bind fun parsed => ?_
  refine moves_done.bind fun atEnd => ?_
  exact (moves_pure _).orElse (walks_peek fun t => (moves_errorAt _ _).at t)

variable {lexer : Lexer}

/-- The lexer fails with an error. -/
theorem newParser_error {source : GoString} {fault : Fault}
    (h : newParser lexer source = .error fault) : ∃ e, fault = .error e := by
  unfold newParser at h
  split at h
  · cases h
  · cases h
    exact ⟨_, rfl⟩

/-- What is parsed of the tokens. -/
theorem parse_of_newParser {source : GoString} (h : newParser lexer source = .ok p)
    (scope : Scope) :
    parse lib lexer source scope = (parseAll lib scope p).map Prod.fst := by
  simp only [parse, h, bind, Except.bind]
  cases parseAll lib scope p with
  | error | ok => rfl

variable (lexer)

/-- **No loop goes on for ever.** -/
theorem parse_ne_diverged (source : GoString) (scope : Scope) :
    parse lib lexer source scope ≠ .error .diverged := by
  cases h : newParser lexer source with
  | error fault =>
    obtain ⟨e, rfl⟩ := newParser_error h
    simp [parse, h, bind, Except.bind]
  | ok p =>
    rw [parse_of_newParser lib h]
    have hgood := walks_parseAll lib scope p
    revert hgood
    cases parseAll lib scope p with
    | ok r => simp [Except.map]
    | error fault =>
      cases fault with
      | error | panic => simp [Except.map]
      | diverged => exact fun hgood => hgood.elim

/-- **The parser panics** exactly on texts that stop at a field. -/
theorem parse_panics_iff (source : GoString) (scope : Scope) :
    parse lib lexer source scope = .error .panic ↔ StopsAtField lib lexer source scope := by
  unfold StopsAtField
  cases h : newParser lexer source with
  | error fault =>
    obtain ⟨e, rfl⟩ := newParser_error h
    simp [parse, h, bind, Except.bind]
  | ok p =>
    rw [parse_of_newParser lib h]
    simp only [Except.ok.injEq, exists_eq_left', ← (walks_parseAll lib scope).panics_iff]
    cases parseAll lib scope p with
    | ok | error => simp [Except.map]

/-- **Parsing ends on every text.**  No token is gone back to, no loop goes on
without an end, and the result is a value or a diagnostic, unless the text stops
at the field of a condition: then the parser reads a token outside its list. -/
theorem parse_returns_unless_stopsAtField (source : GoString) (scope : Scope) :
    (((∃ parsed, parse lib lexer source scope = .ok parsed) ∨
        ∃ e, parse lib lexer source scope = .error (.error e)) ↔
          ¬ StopsAtField lib lexer source scope) ∧
      parse lib lexer source scope ≠ .error .diverged ∧
      ∀ p parsed q, parseAll lib scope p = .ok (parsed, q) →
        q.tokens = p.tokens ∧ p.index ≤ q.index := by
  refine ⟨?_, parse_ne_diverged lib lexer source scope, ?_⟩
  · rw [← parse_panics_iff]
    have hdiverged := parse_ne_diverged lib lexer source scope
    revert hdiverged
    cases parse lib lexer source scope with
    | ok parsed => simp
    | error fault =>
      cases fault with
      | error | panic | diverged => simp
  · intro p parsed q h
    have hgood := walks_parseAll lib scope p
    rw [h] at hgood
    exact ⟨hgood.2.1, hgood.2.2.1⟩

/-- The tokens of a group that ends behind the field of its first condition. -/
def cutGroup : List Lexeme :=
  [⟨.ident, lit "group", 1, 1⟩, ⟨.whitespace, lit " ", 1, 6⟩, ⟨.punct, lit "(", 1, 7⟩,
    ⟨.ident, lit "http.host", 1, 8⟩]

theorem parse_panics_at_end : ∃ (lib : Library) (lexer : Lexer) (source : GoString),
    lexer source = .ok cutGroup ∧ source = cutGroup.flatMap Lexeme.value ∧
      parse lib lexer source .group = .error .panic :=
  ⟨⟨id, id, fun _ => true, fun _ => .ok some, fun _ => some [], id⟩, fun _ => .ok cutGroup,
    lit "group (http.host", rfl, by decide +kernel, by decide +kernel⟩

end WafDsl
