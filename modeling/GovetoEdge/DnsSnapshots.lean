import GovetoEdge.GoStrings
import GovetoEdge.Runs

/-!
# Rolling DNS back

Each reconciliation that changes the published records of a cluster leaves a
snapshot.  A rollback publishes the snapshot before the latest one, and writes
what it published as a new snapshot.

The type `ρ` stands for what is published of a record: all fields of
`snapshotRecord` but the identifier of the provider's record.  Applying records
publishes them; which identifiers the provider has for them is an argument.

* `rollback_swaps`: a rollback exchanges the contents of the two latest snapshots;
* `rollbacks_walk_back_iff`: so a second rollback undoes the first.
-/

namespace DnsSnapshots

open GoStrings List Runs

/-- `snapshotRecord`. -/
structure SnapshotRecord (ρ : Type) where
  record : ρ
  providerRecordID : GoString
deriving DecidableEq

/-- A cluster's snapshots, the latest first, and its published records. -/
structure Cluster (ρ : Type) where
  snapshots : List (List (SnapshotRecord ρ))
  published : List ρ

variable {ρ : Type} [DecidableEq ρ]

def snapshotKeep : Nat := 20

/-- `pruneSnapshots`. -/
def pruneSnapshots (snapshots : List (List (SnapshotRecord ρ))) : List (List (SnapshotRecord ρ)) :=
  snapshots.take snapshotKeep

/-- `writeSnapshot`; contents are compared in sorted order. -/
def writeSnapshot (providerID : ρ → GoString) (c : Cluster ρ) (desired : List ρ) : Cluster ρ :=
  let items := desired.map fun record => ⟨record, providerID record⟩
  if c.snapshots.head?.any (·.isPerm items) then c
  else { c with snapshots := pruneSnapshots (items :: c.snapshots) }

def records (snapshot : List (SnapshotRecord ρ)) : List ρ := snapshot.map SnapshotRecord.record

/-- `rollback`, where the provider accepts all records. -/
def rollback (c : Cluster ρ) (providerID : ρ → GoString) : Option (Cluster ρ) :=
  match c.snapshots with
  | _ :: earlier :: _ =>
    some (writeSnapshot providerID { c with published := records earlier } (records earlier))
  | _ => none

/-- The published records are those of the latest snapshot, and the one before it
has the others. -/
def Latest (c : Cluster ρ) (a b : List ρ) : Prop :=
  c.published ~ a ∧ ∃ latest earlier rest, c.snapshots = latest :: earlier :: rest ∧
    records latest ~ a ∧ records earlier ~ b

variable {c c' : Cluster ρ} {a b : List ρ}

/-- **A rollback exchanges the two latest contents.** -/
theorem rollback_swaps {providerID : ρ → GoString} (h : Latest c a b)
    (hstep : rollback c providerID = some c') : Latest c' b a := by
  obtain ⟨snapshots, published⟩ := c
  obtain ⟨-, latest, earlier, rest, rfl, ha, hb⟩ := h
  cases hstep
  have hitems : records ((records earlier).map fun record => ⟨record, providerID record⟩) =
      records earlier := by
    simp [records, Function.comp_def]
  unfold writeSnapshot
  dsimp only
  split
  · next hsame =>
    -- Nothing is written: the latest snapshot has the same records.
    have hperm : records latest ~ records earlier := by
      rw [← hitems]
      exact (isPerm_iff.mp hsame).map _
    exact ⟨hb, latest, earlier, rest, rfl, hperm.trans hb, hperm.symm.trans ha⟩
  · exact ⟨hb, _, latest, (earlier :: rest).take 18, rfl, (Perm.of_eq hitems).trans hb,
      ha⟩

/-- **Rollbacks go back and forth.** -/
theorem rollbacks_alternate {ids : List (ρ → GoString)} (h : Latest c a b)
    (hrun : run rollback c ids = some c') :
    Latest c' (if ids.length % 2 = 0 then a else b) (if ids.length % 2 = 0 then b else a) := by
  induction ids generalizing c a b with
  | nil =>
    cases hrun
    exact h
  | cons providerID ids ih =>
    obtain ⟨m, hm, hrest⟩ := run_cons_some.mp hrun
    have hswapped := ih (rollback_swaps h hm) hrest
    rw [length_cons]
    by_cases heven : ids.length % 2 = 0
    · rw [if_pos heven, if_pos heven] at hswapped
      rwa [if_neg (by omega), if_neg (by omega)]
    · rw [if_neg heven, if_neg heven] at hswapped
      rwa [if_pos (by omega), if_pos (by omega)]

/-- **What rollbacks restore.**  From a history whose latest snapshot is
published, `k` successful rollbacks publish the snapshot `k` steps before the latest
one exactly when that snapshot has the records of the latest one, for an even `k`,
or of the one before it, for an odd `k`. -/
theorem rollbacks_walk_back_iff (c c' : Cluster ρ) (ids : List (ρ → GoString))
    (hpublished : c.snapshots.head?.any fun latest => c.published.isPerm (records latest))
    (hlength : ids.length < c.snapshots.length) (hrun : run rollback c ids = some c') :
    c'.published ~ records c.snapshots[ids.length] ↔
      records (c.snapshots.getD (ids.length % 2) []) ~ records c.snapshots[ids.length] := by
  obtain ⟨snapshots, published⟩ := c
  match snapshots with
  | [] => exact absurd hlength (Nat.not_lt_zero _)
  | [latest] =>
    obtain rfl := length_eq_zero_iff.mp (Nat.lt_one_iff.mp hlength)
    cases hrun
    have hlatest := isPerm_iff.mp hpublished
    exact ⟨hlatest.symm.trans, hlatest.trans⟩
  | latest :: earlier :: rest =>
    have hend := (rollbacks_alternate ⟨isPerm_iff.mp hpublished, latest, earlier, rest, rfl,
      .refl _, .refl _⟩ hrun).1
    have hrecords : records ((latest :: earlier :: rest).getD (ids.length % 2) []) =
        if ids.length % 2 = 0 then records latest else records earlier := by
      obtain h | h := Nat.mod_two_eq_zero_or_one ids.length <;> simp [h]
    rw [hrecords]
    exact ⟨hend.symm.trans, hend.trans⟩

/-- One rollback restores the snapshot before the latest one. -/
theorem rollback_once :
    ∃ c' : Cluster Nat, run rollback ⟨[[⟨1, []⟩], [⟨2, []⟩]], [1]⟩ [fun _ => []] = some c' ∧
      c'.published ~ [2] :=
  ⟨_, rfl, (rollbacks_walk_back_iff ⟨[[⟨1, []⟩], [⟨2, []⟩]], [1]⟩ _ [fun _ => []] rfl
    (by decide) rfl).mpr (.refl _)⟩

/-- Two rollbacks bring the latest snapshot back instead of the one two steps
before it. -/
theorem second_rollback_undoes_first :
    ∃ c' : Cluster Nat, run rollback ⟨[[⟨1, []⟩], [⟨2, []⟩], [⟨3, []⟩]], [1]⟩
        [fun _ => [], fun _ => []] = some c' ∧ c'.published = [1] :=
  ⟨_, rfl, rfl⟩

end DnsSnapshots
