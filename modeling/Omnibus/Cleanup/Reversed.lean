import Omnibus.Cleanup.Aliases
import Omnibus.Cleanup.Deletions
import Omnibus.Cleanup.Splits

/-!
# Undoing a session of cleanups in reverse

When every cleanup of a session meets its condition, the undos in reverse order all succeed and
give the first library back, up to ids. An entity that an earlier snapshot names must not be
recreated under a new id.
-/

open Omnibus.Library.Runs

namespace Omnibus.Cleanup

section Condition

def Snapshot.Names (kind : MergeEntity) (id : Int) : Snapshot → Prop
  | .merge ofKind snapshot => ofKind = kind ∧ (snapshot.canonicalId = id ∨
      ∃ source ∈ snapshot.sources, source.previousAlias = some id)
  | .split _ => False
  | .deleteAuthor _ => False

/-- An alias or a snapshot that is still to be undone names the id. -/
def Session.Named (session : Session) (kind : MergeEntity) (id : Int) : Prop :=
  (∃ row ∈ session.db.aliases, row.kind = kind ∧ row.canonicalId = id) ∨
    ∃ snapshot ∈ session.stack, snapshot.Names kind id

instance Snapshot.Names.decidable (kind : MergeEntity) (id : Int) :
    (snapshot : Snapshot) → Decidable (snapshot.Names kind id)
  | .merge ofKind snapshot =>
      inferInstanceAs (Decidable (ofKind = kind ∧ (snapshot.canonicalId = id ∨
        ∃ source ∈ snapshot.sources, source.previousAlias = some id)))
  | .split _ => inferInstanceAs (Decidable False)
  | .deleteAuthor _ => inferInstanceAs (Decidable False)

instance Session.Named.decidable (session : Session) (kind : MergeEntity) (id : Int) :
    Decidable (session.Named kind id) :=
  inferInstanceAs (Decidable ((∃ row ∈ session.db.aliases, row.kind = kind ∧
    row.canonicalId = id) ∨ ∃ snapshot ∈ session.stack, snapshot.Names kind id))

def Reversible (session : Session) : CleanupAction → Prop
  | .merge kind sourceIds _ => sourceIds.Nodup ∧ ∀ id ∈ sourceIds, ¬session.Named kind id
  | .split sourceId _ atoms =>
      ¬session.Named .tag sourceId ∧ Separable sourceId atoms session.db
  | .deleteAuthor authorId => ¬session.Named .author authorId ∧
      ∀ row ∈ (session.db.taxa .author).rows, row.id = authorId →
        ∀ name ∈ session.db.ignored, sameName name row.name = false

end Condition

section Step

variable {db after other : Database} {stack : List Snapshot} {snapshot : Snapshot}
  {cleanup : CleanupAction} {rename : MergeEntity → Int → Int}

theorem apply_keeps (wellformed : Wellformed db) (referenced : Referenced db)
    (reversible : Reversible ⟨db, stack⟩ cleanup)
    (applied : cleanup.apply db = some (after, snapshot)) : Wellformed after ∧ Referenced after := by
  cases cleanup with
  | merge kind sourceIds canonicalId =>
      obtain ⟨⟨_, _⟩, merged, isResult⟩ := Option.map_eq_some_iff.mp applied
      cases isResult
      exact ⟨(apply_merge_exact wellformed referenced reversible.1 merged).wellformed wellformed,
        apply_merge_referenced merged⟩
  | split sourceId delimiter atoms =>
      obtain ⟨⟨_, _⟩, split, isResult⟩ := Option.map_eq_some_iff.mp applied
      cases isResult
      exact ⟨(apply_split_exact wellformed referenced split).wellformed wellformed,
        apply_split_referenced split⟩
  | deleteAuthor authorId =>
      obtain ⟨⟨_, _⟩, deleted, isResult⟩ := Option.map_eq_some_iff.mp applied
      cases isResult
      exact ⟨(apply_delete_exact wellformed referenced deleted).wellformed wellformed,
        apply_delete_referenced deleted⟩

/-- What is named before a cleanup is named after it: an alias that it writes anew is kept in its
snapshot. -/
theorem named_after (wellformed : Wellformed db) (referenced : Referenced db)
    (reversible : Reversible ⟨db, stack⟩ cleanup)
    (applied : cleanup.apply db = some (after, snapshot)) {kind : MergeEntity} {id : Int}
    (named : Session.Named ⟨db, stack⟩ kind id) :
    Session.Named ⟨after, snapshot :: stack⟩ kind id := by
  rcases named with ⟨row, member, isKind, isId⟩ | ⟨earlier, member, names⟩
  · cases cleanup with
    | merge ofKind sourceIds canonicalId =>
        obtain ⟨⟨_, kept⟩, merged, isResult⟩ := Option.map_eq_some_iff.mp applied
        cases isResult
        have spec := apply_merge_exact wellformed referenced reversible.1 merged
        by_cases isSource : ∃ source ∈ kept.sources, row.isFor ofKind source.name = true
        · obtain ⟨source, sourceMem, isFor⟩ := isSource
          obtain ⟨sameKind, sameName⟩ := is_for_iff.mp isFor
          have previous := ((spec.told source sourceMem).previous row.canonicalId).mpr (by
            rw [← sameKind, ← sameName]
            exact member)
          exact .inr ⟨_, List.mem_cons_self, sameKind.symm.trans isKind,
            .inr ⟨source, sourceMem, isId ▸ previous⟩⟩
        · refine .inl ⟨row, (spec.aliases row).mpr (.inl ⟨member, fun source sourceMem => ?_⟩),
            isKind, isId⟩
          exact Bool.eq_false_iff.mpr fun isFor => isSource ⟨source, sourceMem, isFor⟩
    | split sourceId delimiter atoms =>
        obtain ⟨⟨_, kept⟩, split, isResult⟩ := Option.map_eq_some_iff.mp applied
        cases isResult
        have same := (apply_split_exact wellformed referenced split).aliases
        exact .inl ⟨row, same ▸ member, isKind, isId⟩
    | deleteAuthor authorId =>
        obtain ⟨⟨_, kept⟩, deleted, isResult⟩ := Option.map_eq_some_iff.mp applied
        cases isResult
        have same := (apply_delete_exact wellformed referenced deleted).aliases
        exact .inl ⟨row, same ▸ member, isKind, isId⟩
  · exact .inr ⟨earlier, List.mem_cons_of_mem _ member, names⟩

/-- A cleanup is undone, and the ids that an alias or an earlier snapshot names stay as they
were. -/
theorem undo_one (wellformed : Wellformed db) (referenced : Referenced db)
    (reversible : Reversible ⟨db, stack⟩ cleanup)
    (applied : cleanup.apply db = some (after, snapshot)) (renamed : Renamed rename after other)
    (givenOut : GivenOut other) (fixes : ∀ kind id,
      Session.Named ⟨after, snapshot :: stack⟩ kind id → rename kind id = id) :
    ∃ final renamedBack, snapshot.undo other = some final ∧ GivenOut final ∧
      Renamed renamedBack db final ∧ ∀ kind id, Session.Named ⟨db, stack⟩ kind id →
        renamedBack kind id = id := by
  -- ids that are not brought back keep their names
  have earlier {ofKind : MergeEntity} {ids : List Int} {fresh : Int → Int}
      (unnamed : ∀ id ∈ ids, ¬Session.Named ⟨db, stack⟩ ofKind id) (kind : MergeEntity) (id : Int)
      (named : Session.Named ⟨db, stack⟩ kind id) :
      reassign rename ofKind ids fresh kind id = id := by
    have notIn : ¬(kind = ofKind ∧ id ∈ ids) := fun both => unnamed id both.2 (both.1 ▸ named)
    exact (if_neg notIn).trans
      (fixes kind id (named_after wellformed referenced reversible applied named))
  cases cleanup with
  | merge kind sourceIds canonicalId =>
      obtain ⟨⟨_, kept⟩, merged, isResult⟩ := Option.map_eq_some_iff.mp applied
      cases isResult
      have spec := apply_merge_exact wellformed referenced reversible.1 merged
      have named (id : Int) (names : Snapshot.Names kind id (.merge kind kept)) :
          rename kind id = id := fixes kind id (.inr ⟨_, List.mem_cons_self, names⟩)
      obtain ⟨final, fresh, undone, finalOut, back⟩ := spec.undone wellformed reversible.1 renamed
        givenOut (named canonicalId ⟨rfl, .inl spec.canonical⟩)
        (fun row member isKind inIds => reversible.2 _ inIds (.inl ⟨row, member, isKind, rfl⟩))
        (fun source member id isPrevious => named id ⟨rfl, .inr ⟨source, member, isPrevious⟩⟩)
      exact ⟨final, _, undone, finalOut, back, earlier reversible.2⟩
  | split sourceId delimiter atoms =>
      obtain ⟨⟨_, kept⟩, split, isResult⟩ := Option.map_eq_some_iff.mp applied
      cases isResult
      have spec := apply_split_exact wellformed referenced split
      obtain ⟨finalOut, fresh, back⟩ := spec.undone wellformed referenced reversible.2 renamed
        givenOut fun row member isKind isId => reversible.1 (.inl ⟨row, member, isKind, isId⟩)
      refine ⟨_, _, rfl, finalOut, back, earlier fun id member => ?_⟩
      rw [List.mem_singleton.mp member]
      exact reversible.1
  | deleteAuthor authorId =>
      obtain ⟨⟨_, kept⟩, deleted, isResult⟩ := Option.map_eq_some_iff.mp applied
      cases isResult
      have spec := apply_delete_exact wellformed referenced deleted
      obtain ⟨final, fresh, undone, finalOut, back⟩ := spec.undone wellformed renamed givenOut
        (fun row member isKind isId => reversible.1 (.inl ⟨row, member, isKind, isId⟩))
        (reversible.2 _ spec.row rfl)
      refine ⟨final, _, undone, finalOut, back, earlier fun id member => ?_⟩
      rw [List.mem_singleton.mp member]
      exact reversible.1

end Step

section Session

/-- The snapshots that a session adds, undone on its library, give back the library it started
from. -/
theorem undo_session {session last : Session} (cleanups : List CleanupAction)
    (wellformed : Wellformed session.db) (referenced : Referenced session.db)
    (meets : Meets Session.step Reversible session cleanups)
    (ran : run Session.step session cleanups = some last) :
    ∃ added, last.stack = added ++ session.stack ∧ ∃ final rename,
      undoAll last.db added = some final ∧ GivenOut final ∧ Renamed rename session.db final ∧
        ∀ kind id, session.Named kind id → rename kind id = id := by
  induction cleanups generalizing session with
  | nil =>
      rw [run, Option.some.injEq] at ran
      subst ran
      exact ⟨[], rfl, session.db, _, rfl, wellformed.bounded, Renamed.refl session.db,
        fun _ _ _ => rfl⟩
  | cons cleanup rest induction =>
      obtain ⟨next, stepped, later⟩ := Option.bind_eq_some_iff.mp ran
      obtain ⟨⟨after, snapshot⟩, applied, rfl⟩ := Option.map_eq_some_iff.mp stepped
      obtain ⟨nextWellformed, nextReferenced⟩ :=
        apply_keeps wellformed referenced meets.1 applied
      obtain ⟨added, isStack, other, rename, undone, givenOut, renamed, fixes⟩ :=
        induction nextWellformed nextReferenced (meets.tail _ stepped) later
      obtain ⟨final, renamedBack, isUndone, finalOut, back, stays⟩ :=
        undo_one wellformed referenced meets.1 applied renamed givenOut fixes
      refine ⟨added ++ [snapshot], by simp [isStack], final, renamedBack, ?_, finalOut, back, stays⟩
      unfold undoAll at undone ⊢
      rw [List.foldlM_append, undone]
      simp [isUndone]

theorem undone_in_reverse (start : Database) (wellformed : Wellformed start)
    (referenced : Referenced start) (cleanups : List CleanupAction) (last : Session)
    (meets : Meets Session.step Reversible ⟨start, []⟩ cleanups)
    (ran : run Session.step ⟨start, []⟩ cleanups = some last) :
    ∃ final, undoAll last.db last.stack = some final ∧
      ∃ rename, SameUpToIds rename start final := by
  obtain ⟨added, isStack, final, rename, undone, _, renamed, fixes⟩ :=
    undo_session cleanups wellformed referenced meets ran
  rw [List.append_nil] at isStack
  refine ⟨final, isStack ▸ undone, renamed.same_up_to_ids wellformed fun row member => ?_⟩
  exact fixes _ _ (.inl ⟨row, member, rfl, rfl⟩)

theorem three_authors_wellformed : Wellformed threeAuthors := by
  constructor
  · intro kind
    cases kind <;> decide
  · intro kind
    cases kind <;> decide
  · intro kind
    cases kind <;> decide
  · intro kind
    cases kind <;> decide
  · intro kind
    cases kind <;> decide
  · intro kind
    cases kind <;> decide
  · intro kind
    cases kind <;> decide
  · decide
  · decide
  · decide

theorem three_authors_referenced : Referenced threeAuthors := by
  intro kind
  cases kind <;> decide

theorem deletion_and_merge_undone : ∃ last final,
    run Session.step ⟨threeAuthors, []⟩ [.deleteAuthor 3, .merge .author [1] 2] = some last ∧
      undoAll last.db last.stack = some final ∧
        ∃ rename, SameUpToIds rename threeAuthors final := by
  obtain ⟨last, ran⟩ : ∃ last, run Session.step ⟨threeAuthors, []⟩
      [.deleteAuthor 3, .merge .author [1] 2] = some last := Option.isSome_iff_exists.mp rfl
  have unnamed : (Session.step ⟨threeAuthors, []⟩ (.deleteAuthor 3)).all
      (fun session => decide (¬session.Named .author 1)) = true := by
    decide +kernel
  obtain ⟨final, undone, same⟩ := undone_in_reverse threeAuthors three_authors_wellformed
    three_authors_referenced [.deleteAuthor 3, .merge .author [1] 2] last (by
      refine ⟨⟨by decide, fun _ _ _ name ignored => absurd ignored List.not_mem_nil⟩, ?_⟩
      split
      · trivial
      · rename_i deleted stepped
        rw [stepped, Option.all_some, decide_eq_true_eq] at unnamed
        exact ⟨⟨by decide, fun id member => List.mem_singleton.mp member ▸ unnamed⟩,
          by split <;> trivial⟩) ran
  exact ⟨last, final, ran, undone, same⟩

/-- The author that two merges absorbed one into the other comes back under a new id, which the
first undo does not know: the book stays with both. -/
theorem chained_merge_not_undone : Wellformed threeAuthors ∧ Referenced threeAuthors ∧
    ∃ last final, run Session.step ⟨threeAuthors, []⟩ [.merge .author [1] 2, .merge .author [2] 3] =
      some last ∧ undoAll last.db last.stack = some final ∧
        ¬∃ rename, SameUpToIds rename threeAuthors final := by
  refine ⟨three_authors_wellformed, three_authors_referenced, ?_⟩
  obtain ⟨last, ran⟩ : ∃ last, run Session.step ⟨threeAuthors, []⟩
      [.merge .author [1] 2, .merge .author [2] 3] = some last := Option.isSome_iff_exists.mp rfl
  have left : (run Session.step ⟨threeAuthors, []⟩
      [.merge .author [1] 2, .merge .author [2] 3]).bind (fun last =>
        (undoAll last.db last.stack).map fun final => (final.taxa .author).links) =
          some [⟨30, 3, some 0⟩, ⟨20, 4, some 0⟩, ⟨10, 4, some 0⟩, ⟨10, 5, some 0⟩] := by
    decide +kernel
  rw [ran, Option.bind_some] at left
  obtain ⟨final, undone, links⟩ := Option.map_eq_some_iff.mp left
  refine ⟨last, final, ran, undone, ?_⟩
  intro ⟨rename, renamed⟩
  have owner (id : Int) (member : ⟨10, id, some 0⟩ ∈ (final.taxa .author).links) :
      id = rename .author 1 := by
    obtain ⟨old, oldMem, same⟩ := (renamed.links .author _).mp member
    simp only [LinkRow.mk.injEq] at same
    have isFirst : old = ⟨10, 1, some 0⟩ := by
      have only : ∀ link ∈ (threeAuthors.taxa .author).links, link.book = 10 →
          link = ⟨10, 1, some 0⟩ := by decide
      exact only old oldMem same.1.symm
    rw [same.2.1, isFirst]
  have first := owner 4 (by rw [links]; decide)
  have second := owner 5 (by rw [links]; decide)
  omega

end Session

end Omnibus.Cleanup
