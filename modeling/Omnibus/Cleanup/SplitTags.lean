import Omnibus.Cleanup.Splits

/-!
# The tags of a book through a split and its undo

A split puts the atoms in the place of its tag on every book that had it, and the undo is to put
the tag back in theirs. What a book is tagged with is told by names; the library may hold
unreferenced tags.
-/

namespace Omnibus.Cleanup

variable {db after back : Database} {taxon : Taxon} {sourceId : Int} {atoms : List String}
  {delimiter : String} {snapshot : SplitSnapshot}

section Tagged

def Taxon.Tagged (taxon : Taxon) (book : Int) (name : String) : Prop :=
  ∃ row ∈ taxon.rows, row.name = name ∧ taxon.Linked book row.id

/-- What a split and its undo do to the tags of books, as their comments say. -/
structure TouchesOnlyAtoms (sourceId : Int) (atoms : List String) (sourceName : String)
    (before split undone : Taxon) : Prop where
  linked : ∀ book, before.Linked book sourceId → ∀ atom ∈ atoms,
    ∃ name, sameName name atom = true ∧ split.Tagged book name
  within : ∀ book, before.Linked book sourceId → ∀ name, split.Tagged book name →
    before.Tagged book name ∧ name ≠ sourceName ∨ ∃ atom ∈ atoms, sameName name atom = true
  others : ∀ book, ¬before.Linked book sourceId → ∀ name,
    split.Tagged book name ↔ before.Tagged book name
  undone : ∀ book name, undone.Tagged book name ↔ before.Tagged book name

/-- No book of the source has a tag that an atom names, the source included. -/
def AtomsFree (sourceId : Int) (atoms : List String) (taxon : Taxon) : Prop :=
  ∀ row ∈ taxon.rows, Names atoms row → ∀ book, taxon.Linked book sourceId →
    ¬taxon.Linked book row.id

theorem sweep_tagged (db : Database) (book : Int) (name : String) :
    ((deleteOrphanTaxonomy db).taxa .tag).Tagged book name ↔ (db.taxa .tag).Tagged book name := by
  have links : ((deleteOrphanTaxonomy db).taxa .tag).links = (db.taxa .tag).links := rfl
  have rows (row : EntityRow) : row ∈ ((deleteOrphanTaxonomy db).taxa .tag).rows ↔
      row ∈ (db.taxa .tag).rows ∧ justified .tag (db.taxa .tag) row = true := List.mem_filter
  unfold Taxon.Tagged Taxon.Linked
  rw [links]
  constructor
  · intro ⟨row, member, isNamed, linked⟩
    exact ⟨row, ((rows row).mp member).1, isNamed, linked⟩
  · intro ⟨row, member, isNamed, linked⟩
    exact ⟨row, (rows row).mpr ⟨member, justified_iff.mpr (.inl ⟨book, linked⟩)⟩, isNamed, linked⟩

theorem Names.tag {row : EntityRow} {other : EntityRow} (named : Names atoms row)
    (same : other.name = row.name) : Names atoms other := by
  rcases named with ⟨atom, member, isNamed⟩
  exact ⟨atom, member, by rw [same]; exact isNamed⟩

end Tagged

section Split

variable (before : Wellformed db)
  (spec : SplitTags sourceId atoms (db.taxa .tag) (after.taxa .tag) snapshot)

include before spec

theorem split_row_old {row : EntityRow} (member : row ∈ (after.taxa .tag).rows) {link : LinkRow}
    (old : link ∈ (db.taxa .tag).links) (isEntity : link.entity = row.id) :
    row ∈ (db.taxa .tag).rows ∧ row.id ≠ sourceId := by
  rcases spec.comes row member with isOld | ⟨isNew, -⟩
  · exact isOld
  · obtain ⟨live, liveMem, isLive⟩ := before.linked .tag link old
    have bound := before.bounded .tag live liveMem
    omega

omit before in
theorem split_row_stays {row : EntityRow} (member : row ∈ (db.taxa .tag).rows)
    (apart : row.id ≠ sourceId) {book : Int} (linked : (db.taxa .tag).Linked book row.id) :
    row ∈ (after.taxa .tag).rows ∧ (after.taxa .tag).Linked book row.id := by
  constructor
  · exact spec.stays row member apart (justified_iff.mpr (.inl ⟨book, linked⟩))
  · rcases linked with ⟨link, linkMem, isBook, isEntity⟩
    exact ⟨link, spec.kept link linkMem (isEntity ▸ apart), isBook, isEntity⟩

theorem split_within {book : Int} {name : String}
    (tagged : (after.taxa .tag).Tagged book name) :
    (db.taxa .tag).Tagged book name ∧ name ≠ snapshot.sourceName ∨
      (db.taxa .tag).Linked book sourceId ∧ ∃ atom ∈ atoms, sameName name atom = true := by
  rcases tagged with ⟨row, rowMem, rfl, link, linkMem, isBook, isEntity⟩
  rcases spec.gained link linkMem with old | ⟨linked, named, namedMem, isId, atom, atomMem, isAtom⟩
  · left
    constructor
    · exact ⟨row, (split_row_old before spec rowMem old isEntity).1, rfl, link, old, isBook,
        isEntity⟩
    · intro same
      have differs := spec.absent row rowMem
      rw [same, same_name_refl] at differs
      cases differs
  · right
    have isRow := spec.sound.ids named namedMem row rowMem (isId.trans isEntity)
    rw [isBook] at linked
    exact ⟨linked, atom, atomMem, isRow ▸ isAtom⟩

theorem split_others {book : Int} (unlinked : ¬(db.taxa .tag).Linked book sourceId)
    (name : String) : (after.taxa .tag).Tagged book name ↔ (db.taxa .tag).Tagged book name := by
  constructor
  · intro tagged
    rcases split_within before spec tagged with ⟨old, -⟩ | ⟨linked, -⟩
    · exact old
    · exact absurd linked unlinked
  · intro ⟨row, rowMem, isNamed, linked⟩
    have apart : row.id ≠ sourceId := by
      intro isSource
      rw [isSource] at linked
      exact unlinked linked
    have stays := split_row_stays spec rowMem apart linked
    exact ⟨row, stays.1, isNamed, stays.2⟩

omit before in
theorem split_linked (free : AtomsFree sourceId atoms (db.taxa .tag)) {book : Int}
    (linked : (db.taxa .tag).Linked book sourceId) (atom : String) (member : atom ∈ atoms) :
    ∃ name, sameName name atom = true ∧ (after.taxa .tag).Tagged book name := by
  rcases spec.every book linked atom member with isSource | ⟨row, rowMem, isNamed, isLinked⟩
  · exact absurd linked (free _ spec.row ⟨atom, member, isSource⟩ book linked)
  · exact ⟨row.name, isNamed, row, rowMem, rfl, isLinked⟩

end Split

section Undone

variable (before : Wellformed db)
  (spec : SplitTags sourceId atoms (db.taxa .tag) (after.taxa .tag) snapshot)
  (undone : SplitBack snapshot after back)

include before spec undone

omit before in
theorem undone_row {row : EntityRow} (member : row ∈ (back.taxa .tag).rows) {live : EntityRow}
    (liveMem : live ∈ (after.taxa .tag).rows) (same : row.id = live.id) : row = live := by
  rcases (undone.rows row).mp member with inAfter | isNew
  · exact spec.sound.ids row inAfter live liveMem same
  · have bound := spec.sound.bounded live liveMem
    rw [isNew] at same
    dsimp only at same
    omega

theorem undone_tagged {book : Int} {name : String} (tagged : (back.taxa .tag).Tagged book name) :
    (db.taxa .tag).Tagged book name := by
  rcases tagged with ⟨row, rowMem, rfl, link, linkMem, isBook, isEntity⟩
  obtain ⟨inOther | ⟨own, ownMem, isLink⟩, untaken⟩ := (undone.links link).mp linkMem
  · obtain ⟨live, liveMem, isLive⟩ := spec.sound.linked link inOther
    have isRow := undone_row spec undone rowMem liveMem (isEntity.symm.trans isLive.symm)
    rw [isRow]
    rcases spec.gained link inOther with old | ⟨linked, named, namedMem, isId, isNamed⟩
    · exact ⟨live, (split_row_old before spec liveMem old isLive.symm).1, rfl, link, old, isBook,
        isLive.symm⟩
    · exfalso
      apply untaken
      refine ⟨(spec.books _).mpr linked, named, (undone.rows named).mpr (.inl namedMem), isId, ?_⟩
      rw [spec.named]
      exact isNamed
  · rw [isLink] at isBook isEntity
    dsimp only at isBook isEntity
    have isNew : row.name = snapshot.sourceName := by
      rcases (undone.rows row).mp rowMem with inAfter | isNew
      · have bound := spec.sound.bounded row inAfter
        omega
      · rw [isNew]
    rw [isNew, ← isBook]
    exact ⟨_, spec.row, rfl, (spec.books own).mp ownMem⟩

theorem tagged_undone (free : AtomsFree sourceId atoms (db.taxa .tag)) {book : Int} {name : String}
    (tagged : (db.taxa .tag).Tagged book name) : (back.taxa .tag).Tagged book name := by
  rcases tagged with ⟨row, rowMem, rfl, linked⟩
  by_cases isSource : row.id = sourceId
  · have isRow := before.ids .tag row rowMem _ spec.row isSource
    rw [isSource] at linked
    refine ⟨_, (undone.rows _).mpr (.inr rfl), by rw [isRow],
      ⟨book, (after.taxa .tag).lastId + 1, none⟩, (undone.links _).mpr ⟨.inr ⟨book,
        (spec.books book).mpr linked, rfl⟩, ?_⟩, rfl, rfl⟩
    intro ⟨_, named, namedMem, isId, isNamed⟩
    rcases (undone.rows named).mp namedMem with inAfter | isNew
    · have bound := spec.sound.bounded named inAfter
      dsimp only at isId
      omega
    · rw [spec.named] at isNamed
      exact free _ spec.row (isNamed.tag (by rw [isNew])) book linked linked
  · have stays := split_row_stays spec rowMem isSource linked
    rcases stays.2 with ⟨link, linkMem, isBook, isEntity⟩
    refine ⟨row, (undone.rows row).mpr (.inl stays.1), rfl, link,
      (undone.links link).mpr ⟨.inl linkMem, ?_⟩, isBook, isEntity⟩
    intro ⟨isGiven, named, namedMem, isId, isNamed⟩
    have isRow := undone_row spec undone namedMem stays.1 (isId.trans isEntity)
    rw [spec.named, isRow] at isNamed
    rw [isBook] at isGiven
    exact free row rowMem isNamed book ((spec.books book).mp isGiven) linked

omit before in
/-- An older tag of a book of the source that an atom names is taken from the book. -/
theorem named_taken {row : EntityRow} (member : row ∈ (db.taxa .tag).rows)
    (apart : row.id ≠ sourceId) (named : Names atoms row) {book : Int}
    (given : (db.taxa .tag).Linked book sourceId) (linked : (db.taxa .tag).Linked book row.id) :
    ¬(back.taxa .tag).Tagged book row.name := by
  intro ⟨left, leftMem, isNamed, link, linkMem, isBook, isEntity⟩
  have stays := split_row_stays spec member apart linked
  have isRow : left = row := by
    rcases (undone.rows left).mp leftMem with inAfter | isNew
    · apply spec.sound.names left inAfter row stays.1
      rw [isNamed]
      exact same_name_refl row.name
    · have differs := spec.absent row stays.1
      rw [← isNamed, isNew, same_name_refl] at differs
      cases differs
  apply ((undone.links link).mp linkMem).2
  rw [isBook, isEntity, isRow, spec.named]
  exact ⟨(spec.books book).mpr given, row, (undone.rows row).mpr (.inl stays.1), rfl, named⟩

end Undone

/-- A split and its undo touch only what the split added exactly when no book of the source had a
tag that an atom names. -/
theorem split_touches_only_atoms_iff (before : Wellformed db)
    (applied : applyTagSplit sourceId delimiter atoms db = some (after, snapshot)) :
    TouchesOnlyAtoms sourceId atoms snapshot.sourceName (db.taxa .tag) (after.taxa .tag)
        ((undoSplit snapshot after).taxa .tag) ↔ AtomsFree sourceId atoms (db.taxa .tag) := by
  have spec := apply_split_tags before applied
  have bounded : Bounded .tag after := by
    constructor
    · exact spec.sound.bounded
    · intro link member
      obtain ⟨row, rowMem, isId⟩ := spec.sound.linked link member
      rw [← isId]
      exact spec.sound.bounded row rowMem
    · nofun
  obtain ⟨back, isUndone, undone⟩ := undo_split_back bounded spec.absent
  rw [isUndone]
  constructor
  · intro touches row member named book given linked
    by_cases isSource : row.id = sourceId
    · rcases named with ⟨atom, atomMem, isAtom⟩
      obtain ⟨name, isNamed, live, liveMem, rfl, -⟩ := touches.linked book given atom atomMem
      have isRow := before.ids .tag row member _ spec.row isSource
      rw [isRow, same_name_comm] at isAtom
      have same := same_name_trans isNamed isAtom
      rw [spec.absent live liveMem] at same
      cases same
    · have tagged := (touches.undone book row.name).mpr ⟨row, member, rfl, linked⟩
      rw [sweep_tagged] at tagged
      exact named_taken spec undone member isSource named given linked tagged
  · intro free
    constructor
    · intro book given atom member
      exact split_linked spec free given atom member
    · intro book given name tagged
      exact (split_within before spec tagged).imp_right And.right
    · intro book unlinked name
      exact split_others before spec unlinked name
    · intro book name
      rw [sweep_tagged]
      exact ⟨undone_tagged before spec undone, tagged_undone before spec undone free⟩

section Examples

/-- A compound tag of one book, and one of its atoms on the book given. -/
def compoundTag (book : Int) : Database where
  taxa
    | .tag => ⟨[⟨1, "scifi;fantasy", none⟩, ⟨2, "scifi", none⟩], 2,
        [⟨10, 1, none⟩, ⟨book, 2, none⟩], []⟩
    | _ => ⟨[], 0, [], []⟩
  photos := []
  aliases := []
  ignored := []

theorem compound_tag_wellformed : ∀ book ∈ [10, 20], Wellformed (compoundTag book) := by
  intro book own
  constructor
  · intro kind
    revert book
    cases kind <;> decide
  · intro kind
    revert book
    cases kind <;> decide
  · intro kind
    revert book
    cases kind <;> decide
  · intro kind
    revert book
    cases kind <;> decide
  · intro kind
    revert book
    cases kind <;> decide
  · intro kind
    revert book
    cases kind <;> decide
  · intro kind
    revert book
    cases kind <;> decide
  · nofun
  · nofun
  · nofun

/-- A book of the split tag that had an atom before loses it in the undo. -/
theorem own_atom_lost : Wellformed (compoundTag 10) ∧
    ((compoundTag 10).taxa .tag).Tagged 10 "scifi" ∧
      ∃ after snapshot, applyTagSplit 1 ";" ["scifi", "fantasy"] (compoundTag 10) =
        some (after, snapshot) ∧ ¬((undoSplit snapshot after).taxa .tag).Tagged 10 "scifi" := by
  refine ⟨compound_tag_wellformed 10 (by decide), ?_, ?_⟩
  · exact ⟨⟨2, "scifi", none⟩, by decide, rfl, ⟨10, 2, none⟩, by decide, rfl, rfl⟩
  · obtain ⟨⟨after, snapshot⟩, applied⟩ : ∃ result,
        applyTagSplit 1 ";" ["scifi", "fantasy"] (compoundTag 10) = some result :=
      Option.isSome_iff_exists.mp rfl
    have left : ((applyTagSplit 1 ";" ["scifi", "fantasy"] (compoundTag 10)).map
        fun result => (undoSplit result.2 result.1).taxa .tag).map (fun taxon =>
          (taxon.rows, taxon.links)) =
            some ([⟨5, "scifi;fantasy", none⟩], [⟨10, 5, none⟩]) := by
      decide +kernel
    rw [applied, Option.map_some, Option.map_some, Option.some_inj, Prod.mk.injEq] at left
    refine ⟨after, snapshot, applied, ?_⟩
    intro ⟨row, member, isNamed, _⟩
    rw [left.1, List.mem_singleton] at member
    rw [member] at isNamed
    revert isNamed
    decide

/-- Another book has the atom. -/
theorem split_touches_only_atoms_iff_free : ∃ after snapshot,
    applyTagSplit 1 ";" ["scifi", "fantasy"] (compoundTag 20) = some (after, snapshot) ∧
      TouchesOnlyAtoms 1 ["scifi", "fantasy"] snapshot.sourceName ((compoundTag 20).taxa .tag)
        (after.taxa .tag) ((undoSplit snapshot after).taxa .tag) := by
  obtain ⟨⟨after, snapshot⟩, applied⟩ : ∃ result,
      applyTagSplit 1 ";" ["scifi", "fantasy"] (compoundTag 20) = some result :=
    Option.isSome_iff_exists.mp rfl
  refine ⟨after, snapshot, applied, ?_⟩
  apply (split_touches_only_atoms_iff (compound_tag_wellformed 20 (by decide)) applied).mpr
  have linked (book : Int) : ((compoundTag 20).taxa .tag).Linked book 1 → book = 10 := by
    have only : ∀ link ∈ ((compoundTag 20).taxa .tag).links, link.entity = 1 → link.book = 10 := by
      decide
    intro ⟨link, member, isBook, isEntity⟩
    rw [← isBook]
    exact only link member isEntity
  have unnamed : ∀ row ∈ ((compoundTag 20).taxa .tag).rows,
      (∃ atom ∈ ["scifi", "fantasy"], sameName row.name atom = true) →
      ¬∃ link ∈ ((compoundTag 20).taxa .tag).links, link.book = 10 ∧ link.entity = row.id := by
    decide +kernel
  intro row member named book given
  rw [linked book given]
  exact unnamed row member named

end Examples

end Omnibus.Cleanup
