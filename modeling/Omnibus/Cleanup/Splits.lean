import Omnibus.Cleanup.Renamed

/-!
# Splitting a tag and putting it together again

A split links every book of a tag to its atoms, of which it makes those that are not there, and
deletes the tag; the undo takes the atoms' links away and leaves unlinked atoms to the sweep.
-/

namespace Omnibus.Cleanup

variable {db after other : Database} {taxon : Taxon}
  {rename : MergeEntity → Int → Int} {sourceId : Int} {atoms : List String} {delimiter : String}
  {snapshot : SplitSnapshot}

section Atoms

theorem same_name_trans {left middle right : String} (first : sameName left middle = true)
    (second : sameName middle right = true) : sameName left right = true :=
  decide_eq_true ((of_decide_eq_true first).trans (of_decide_eq_true second))

def Names (atoms : List String) (row : EntityRow) : Prop :=
  ∃ atom ∈ atoms, sameName row.name atom = true

theorem Wellformed.tag_position (wellformed : Wellformed db) {link : LinkRow}
    (member : link ∈ (db.taxa .tag).links) : link.position = none := by
  have isSome : link.position.isSome = false := wellformed.positions .tag link member
  exact Option.not_isSome_iff_eq_none.mp (Bool.eq_false_iff.mp isSome)

structure AtomsLinked (sourceId : Int) (atoms : List String) (before taxon : Taxon) : Prop where
  lastId : before.lastId ≤ taxon.lastId
  overrides : taxon.overrideNames = before.overrideNames
  stays : ∀ row ∈ before.rows, row ∈ taxon.rows
  comes : ∀ row ∈ taxon.rows, row ∈ before.rows ∨ before.lastId < row.id ∧ Names atoms row
  kept : ∀ link ∈ before.links, link ∈ taxon.links
  gained : ∀ link ∈ taxon.links, link ∈ before.links ∨
    ⟨link.book, sourceId, link.position⟩ ∈ before.links ∧
      ∃ row ∈ taxon.rows, row.id = link.entity ∧ Names atoms row
  sound : TaxonSound .tag before → TaxonSound .tag taxon

theorem resolve_tag (taxon : Taxon) (name : String) :
    ((resolveOrInsertTag taxon name).1 = { taxon with lastId := taxon.lastId + 1 } ∧
      ∃ row ∈ taxon.rows, row.id = (resolveOrInsertTag taxon name).2 ∧
        sameName row.name name = true) ∨
    (resolveOrInsertTag taxon name = ({ taxon with
        rows := taxon.rows ++ [⟨taxon.lastId + 1, name, none⟩]
        lastId := taxon.lastId + 1 }, taxon.lastId + 1) ∧
      ∀ row ∈ taxon.rows, sameName row.name name = false) := by
  unfold resolveOrInsertTag
  cases found : taxon.rows.find? (fun row => sameName row.name name) with
  | some existing =>
      refine .inl ?_
      unfold recreateEntity
      rw [found]
      refine ⟨?_, existing, List.mem_of_find?_eq_some found, rfl, ?_⟩
      · simp [MergeEntity.hasSort]
      · have isNamed := List.find?_some found
        exact isNamed
  | none =>
      have absent (row : EntityRow) (member : row ∈ taxon.rows) : sameName row.name name = false :=
        Bool.eq_false_iff.mpr (List.find?_eq_none.mp found row member)
      refine .inr ⟨?_, absent⟩
      rw [recreate_absent none absent]
      rfl

theorem TaxonSound.given (sound : TaxonSound .tag taxon) :
    TaxonSound .tag { taxon with lastId := taxon.lastId + 1 } :=
  ⟨sound.ids, fun row member => (sound.bounded row member).trans (by dsimp only; omega),
    sound.names, sound.sorts, sound.keys, sound.positions, sound.linked⟩

theorem TaxonSound.insert (sound : TaxonSound .tag taxon) {name : String}
    (absent : ∀ row ∈ taxon.rows, sameName row.name name = false) :
    TaxonSound .tag { taxon with
      rows := taxon.rows ++ [⟨taxon.lastId + 1, name, none⟩], lastId := taxon.lastId + 1 } := by
  constructor
  · intro left leftMem right rightMem same
    rw [List.mem_append, List.mem_singleton] at leftMem rightMem
    rcases leftMem with leftOld | rfl
    · rcases rightMem with rightOld | rfl
      · exact sound.ids left leftOld right rightOld same
      · have := sound.bounded left leftOld
        dsimp only at same
        omega
    · rcases rightMem with rightOld | rfl
      · have := sound.bounded right rightOld
        dsimp only at same
        omega
      · rfl
  · intro row member
    rw [List.mem_append, List.mem_singleton] at member
    rcases member with old | rfl
    · exact (sound.bounded row old).trans (by dsimp only; omega)
    · exact le_rfl
  · intro left leftMem right rightMem same
    rw [List.mem_append, List.mem_singleton] at leftMem rightMem
    rcases leftMem with leftOld | rfl
    · rcases rightMem with rightOld | rfl
      · exact sound.names left leftOld right rightOld same
      · exact absurd same (Bool.eq_false_iff.mp (absent left leftOld))
    · rcases rightMem with rightOld | rfl
      · rw [same_name_comm] at same
        exact absurd same (Bool.eq_false_iff.mp (absent right rightOld))
      · rfl
  · intro unsorted row member
    rw [List.mem_append, List.mem_singleton] at member
    rcases member with old | rfl
    · exact sound.sorts unsorted row old
    · rfl
  · exact sound.keys
  · exact sound.positions
  · intro link member
    obtain ⟨row, rowMem, isId⟩ := sound.linked link member
    exact ⟨row, List.mem_append_left _ rowMem, isId⟩

theorem TaxonSound.move (sound : TaxonSound .tag taxon) {id : Int}
    (live : ∃ row ∈ taxon.rows, row.id = id) : TaxonSound .tag (moveLinks taxon sourceId id) := by
  refine ⟨sound.ids, sound.bounded, sound.names, sound.sorts, insert_all_unique sound.keys,
    fun link member => ?_, fun link member => ?_⟩
  · rcases mem_move_links.2 member with old | ⟨_, _, moved⟩
    · exact sound.positions link old
    · exact sound.positions ⟨link.book, sourceId, link.position⟩ moved
  · rcases mem_move_links.2 member with old | ⟨isEntity, _, _⟩
    · exact sound.linked link old
    · rw [isEntity]
      exact live

theorem moved_atom {name : String} {id : Int}
    (live : ∃ row ∈ taxon.rows, row.id = id ∧ sameName row.name name = true) :
    AtomsLinked sourceId [name] taxon (moveLinks taxon sourceId id) := by
  obtain ⟨row, rowMem, isId, isNamed⟩ := live
  refine ⟨le_rfl, rfl, fun _ member => member, fun _ member => .inl member,
    fun _ member => mem_move_links.1 member, fun link member => ?_,
    fun sound => sound.move ⟨row, rowMem, isId⟩⟩
  refine (mem_move_links.2 member).imp_right fun ⟨isEntity, _, moved⟩ => ?_
  exact ⟨moved, row, rowMem, isId.trans isEntity.symm, name, List.mem_cons_self, isNamed⟩

theorem link_atom_linked (sourceId : Int) (taxon : Taxon) (name : String) :
    AtomsLinked sourceId [name] taxon (linkAtom sourceId taxon name) := by
  unfold linkAtom
  rcases resolve_tag taxon name with ⟨same, live⟩ | ⟨reassign_one, absent⟩
  · dsimp only
    rw [same]
    have moved : AtomsLinked sourceId [name] { taxon with lastId := taxon.lastId + 1 } _ :=
      moved_atom live
    refine ⟨le_trans (by dsimp only; omega) moved.lastId, moved.overrides, moved.stays,
      fun row member => .inl ?_, moved.kept, moved.gained, fun sound => moved.sound sound.given⟩
    exact member
  · rw [reassign_one]
    dsimp only
    have moved : AtomsLinked sourceId [name]
        { taxon with
          rows := taxon.rows ++ [⟨taxon.lastId + 1, name, none⟩], lastId := taxon.lastId + 1 } _ :=
      moved_atom ⟨_, List.mem_append_right _ List.mem_cons_self, rfl, same_name_refl name⟩
    refine ⟨?_, moved.overrides, fun row member => moved.stays row (List.mem_append_left _ member),
      fun row member => ?_, moved.kept, moved.gained, fun sound => moved.sound (sound.insert absent)⟩
    · exact le_trans (by dsimp only; omega) moved.lastId
    · have inRows : row ∈ taxon.rows ++ [⟨taxon.lastId + 1, name, none⟩] := member
      rw [List.mem_append, List.mem_singleton] at inRows
      apply inRows.imp_right
      intro equal
      subst equal
      exact ⟨by dsimp only; omega, name, List.mem_cons_self, same_name_refl name⟩

theorem link_atom_given (sourceId : Int) (taxon : Taxon) (name : String) (book : Int)
    (linked : taxon.Linked book sourceId) :
    ∃ row ∈ (linkAtom sourceId taxon name).rows, sameName row.name name = true ∧
      (linkAtom sourceId taxon name).Linked book row.id := by
  unfold linkAtom
  rcases resolve_tag taxon name with ⟨same, row, rowMem, isId, isNamed⟩ | ⟨resolved, -⟩
  · dsimp only
    rw [same]
    refine ⟨row, rowMem, isNamed, (move_links_linked _ _ _ _).mpr (.inr ⟨isId, linked⟩)⟩
  · rw [resolved]
    exact ⟨_, List.mem_append_right _ List.mem_cons_self, same_name_refl name,
      (move_links_linked _ _ _ _).mpr (.inr ⟨rfl, linked⟩)⟩

theorem Names.mono {more : List String} {row : EntityRow} (named : Names atoms row)
    (subset : atoms ⊆ more) : Names more row := by
  obtain ⟨atom, member, same⟩ := named
  exact ⟨atom, subset member, same⟩

theorem atoms_linked (sourceId : Int) (taxon : Taxon) (atoms : List String) :
    AtomsLinked sourceId atoms taxon (atoms.foldl (linkAtom sourceId) taxon) := by
  induction atoms generalizing taxon with
  | nil =>
      exact ⟨le_rfl, rfl, fun _ member => member, fun _ member => .inl member,
        fun _ member => member, fun _ member => .inl member, fun sound => sound⟩
  | cons name rest induction =>
      rw [List.foldl_cons]
      have first := link_atom_linked sourceId taxon name
      have later := induction (linkAtom sourceId taxon name)
      have inFirst : [name] ⊆ name :: rest := List.cons_subset_cons name (List.nil_subset _)
      have inRest : rest ⊆ name :: rest := List.subset_cons_self name rest
      refine ⟨first.lastId.trans later.lastId, later.overrides.trans first.overrides,
        fun row member => later.stays row (first.stays row member), fun row member => ?_,
        fun link member => later.kept link (first.kept link member), fun link member => ?_,
        fun sound => later.sound (first.sound sound)⟩
      · rcases later.comes row member with earlier | ⟨reassign_one, named⟩
        · refine (first.comes row earlier).imp_right fun ⟨reassign_one, named⟩ => ?_
          exact ⟨reassign_one, named.mono inFirst⟩
        · exact .inr ⟨lt_of_le_of_lt first.lastId reassign_one, named.mono inRest⟩
      · rcases later.gained link member with earlier | ⟨given, row, rowMem, isId, named⟩
        · refine (first.gained link earlier).imp_right fun ⟨given, row, rowMem, isId, named⟩ => ?_
          exact ⟨given, row, later.stays row rowMem, isId, named.mono inFirst⟩
        · refine .inr ⟨?_, row, rowMem, isId, named.mono inRest⟩
          exact (first.gained _ given).elim (fun old => old) And.left

theorem every_atom_linked (sourceId : Int) (taxon : Taxon) (atoms : List String) (book : Int)
    (linked : taxon.Linked book sourceId) :
    ∀ atom ∈ atoms, ∃ row ∈ (atoms.foldl (linkAtom sourceId) taxon).rows,
      sameName row.name atom = true ∧
        (atoms.foldl (linkAtom sourceId) taxon).Linked book row.id := by
  induction atoms generalizing taxon with
  | nil => nofun
  | cons name rest induction =>
      intro atom member
      rw [List.foldl_cons]
      have first := link_atom_linked sourceId taxon name
      have stillLinked : (linkAtom sourceId taxon name).Linked book sourceId := by
        rcases linked with ⟨link, linkMem, same⟩
        exact ⟨link, first.kept link linkMem, same⟩
      rcases List.mem_cons.mp member with isFirst | inRest
      · have later := atoms_linked sourceId (linkAtom sourceId taxon name) rest
        rcases link_atom_given sourceId taxon name book linked with
          ⟨row, rowMem, isNamed, link, linkMem, same⟩
        rw [isFirst]
        exact ⟨row, later.stays row rowMem, isNamed, link, later.kept link linkMem, same⟩
      · exact induction _ stillLinked atom inRest

end Atoms

section Split

/-- What a split leaves of the tags, and what its snapshot keeps. A tag that nothing refers to is
swept with it. -/
structure SplitTags (sourceId : Int) (atoms : List String) (before taxon : Taxon)
    (snapshot : SplitSnapshot) : Prop where
  row : ⟨sourceId, snapshot.sourceName, none⟩ ∈ before.rows
  named : snapshot.atoms = atoms
  books : ∀ book, book ∈ snapshot.links ↔ before.Linked book sourceId
  lastId : before.lastId ≤ taxon.lastId
  overrides : taxon.overrideNames = before.overrideNames
  stays : ∀ row ∈ before.rows, row.id ≠ sourceId → justified .tag before row = true →
    row ∈ taxon.rows
  comes : ∀ row ∈ taxon.rows, row ∈ before.rows ∧ row.id ≠ sourceId ∨
    before.lastId < row.id ∧ Names atoms row
  absent : ∀ row ∈ taxon.rows, sameName row.name snapshot.sourceName = false
  kept : ∀ link ∈ before.links, link.entity ≠ sourceId → link ∈ taxon.links
  gone : ∀ link ∈ taxon.links, link.entity ≠ sourceId
  gained : ∀ link ∈ taxon.links, link ∈ before.links ∨
    before.Linked link.book sourceId ∧
      ∃ row ∈ taxon.rows, row.id = link.entity ∧ Names atoms row
  every : ∀ book, before.Linked book sourceId → ∀ atom ∈ atoms,
    sameName snapshot.sourceName atom = true ∨
      ∃ row ∈ taxon.rows, sameName row.name atom = true ∧ taxon.Linked book row.id
  sound : TaxonSound .tag taxon

/-- The tags once the source is deleted from those of the split and the library is swept. -/
structure Swept (sourceId : Int) (split taxon : Taxon) : Prop where
  lastId : taxon.lastId = split.lastId
  overrides : taxon.overrideNames = split.overrideNames
  links : ∀ link, link ∈ taxon.links ↔ link ∈ split.links ∧ link.entity ≠ sourceId
  rows : ∀ row ∈ taxon.rows, row ∈ split.rows ∧ row.id ≠ sourceId
  stays : ∀ row ∈ split.rows, row.id ≠ sourceId → justified .tag split row = true →
    row ∈ taxon.rows

theorem deleted_swept (db : Database) (sourceId : Int) (split : Taxon) :
    Swept sourceId split ((deleteOrphanTaxonomy (db.setTaxon .tag
      (deleteEntityRow (deleteLinks split sourceId) sourceId))).taxa .tag) := by
  generalize isDeleted : db.setTaxon .tag (deleteEntityRow (deleteLinks split sourceId) sourceId) =
    deleted
  have tags : deleted.taxa .tag = deleteEntityRow (deleteLinks split sourceId) sourceId := by
    rw [← isDeleted, set_taxon_same]
  have links (link : LinkRow) : link ∈ (deleted.taxa .tag).links ↔
      link ∈ split.links ∧ link.entity ≠ sourceId := by
    rw [tags]
    exact mem_deleted_links
  have rows (row : EntityRow) : row ∈ (deleted.taxa .tag).rows ↔
      row ∈ split.rows ∧ row.id ≠ sourceId := by
    rw [tags]
    exact mem_deleted_rows
  constructor
  · change (deleted.taxa .tag).lastId = _
    rw [tags]
    rfl
  · change (deleted.taxa .tag).overrideNames = _
    rw [tags]
    rfl
  · exact links
  · intro row member
    exact (rows row).mp (List.mem_filter.mp member).1
  · intro row member apart reason
    apply List.mem_filter.mpr
    refine ⟨(rows row).mpr ⟨member, apart⟩, justified_iff.mpr ?_⟩
    apply (justified_iff.mp reason).imp
    · intro ⟨book, link, linkMem, isBook, isEntity⟩
      exact ⟨book, link, (links link).mpr ⟨linkMem, isEntity ▸ apart⟩, isBook, isEntity⟩
    · intro named
      rw [tags]
      exact named

theorem Swept.linked_stays {split taxon : Taxon} (swept : Swept sourceId split taxon)
    {link : LinkRow} (member : link ∈ taxon.links) {row : EntityRow} (rowMem : row ∈ split.rows)
    (isId : row.id = link.entity) : row ∈ taxon.rows := by
  obtain ⟨inSplit, apart⟩ := (swept.links link).mp member
  apply swept.stays row rowMem (isId ▸ apart)
  exact justified_iff.mpr (.inl ⟨link.book, link, inSplit, rfl, isId.symm⟩)

theorem Swept.sound {split taxon : Taxon} (swept : Swept sourceId split taxon)
    (sound : TaxonSound .tag split) : TaxonSound .tag taxon := by
  constructor
  · exact fun left leftMem right rightMem =>
      sound.ids left (swept.rows left leftMem).1 right (swept.rows right rightMem).1
  · intro row member
    rw [swept.lastId]
    exact sound.bounded row (swept.rows row member).1
  · exact fun left leftMem right rightMem =>
      sound.names left (swept.rows left leftMem).1 right (swept.rows right rightMem).1
  · exact fun unsorted row member => sound.sorts unsorted row (swept.rows row member).1
  · exact fun left leftMem right rightMem =>
      sound.keys left ((swept.links left).mp leftMem).1 right ((swept.links right).mp rightMem).1
  · exact fun link member => sound.positions link ((swept.links link).mp member).1
  · intro link member
    obtain ⟨row, rowMem, isId⟩ := sound.linked link ((swept.links link).mp member).1
    exact ⟨row, swept.linked_stays member rowMem isId, isId⟩

theorem apply_split_steps
    (applied : applyTagSplit sourceId delimiter atoms db = some (after, snapshot)) :
    ∃ name sort, fetchNameSort (db.taxa .tag) sourceId = some (name, sort) ∧
      deleteOrphanTaxonomy (db.setTaxon .tag (deleteEntityRow (deleteLinks
        (atoms.foldl (linkAtom sourceId) (db.taxa .tag)) sourceId) sourceId)) = after ∧
      ⟨name, delimiter, atoms, fetchLinkedBookIds (db.taxa .tag) sourceId⟩ = snapshot := by
  unfold applyTagSplit at applied
  split_ifs at applied
  obtain ⟨⟨name, sort⟩, fetched, isResult⟩ := Option.map_eq_some_iff.mp applied
  simp only [Prod.mk.injEq] at isResult
  exact ⟨name, sort, fetched, isResult.1, isResult.2⟩

theorem apply_split_tags (wellformed : Wellformed db)
    (applied : applyTagSplit sourceId delimiter atoms db = some (after, snapshot)) :
    SplitTags sourceId atoms (db.taxa .tag) (after.taxa .tag) snapshot := by
  obtain ⟨name, sort, fetched, rfl, rfl⟩ := apply_split_steps applied
  have row := fetch_row fetched
  have unsorted : sort = none := wellformed.sorts .tag rfl _ row
  subst unsorted
  have linked := atoms_linked sourceId (db.taxa .tag) atoms
  have every := every_atom_linked sourceId (db.taxa .tag) atoms
  have sound := linked.sound (wellformed.of_kind .tag)
  have swept := deleted_swept db sourceId (atoms.foldl (linkAtom sourceId) (db.taxa .tag))
  generalize atoms.foldl (linkAtom sourceId) (db.taxa .tag) = split at linked every sound swept
  generalize (deleteOrphanTaxonomy (db.setTaxon .tag
    (deleteEntityRow (deleteLinks split sourceId) sourceId))).taxa .tag = taxon at swept
  constructor
  · exact row
  · rfl
  · exact fun book => mem_linked_books
  · rw [swept.lastId]
    exact linked.lastId
  · rw [swept.overrides]
    exact linked.overrides
  · intro live member apart reason
    apply swept.stays live (linked.stays live member) apart
    apply justified_iff.mpr
    apply (justified_iff.mp reason).imp
    · intro ⟨book, link, linkMem, isBook, isEntity⟩
      exact ⟨book, link, linked.kept link linkMem, isBook, isEntity⟩
    · intro named
      rw [linked.overrides]
      exact named
  · intro live member
    obtain ⟨inSplit, apart⟩ := swept.rows live member
    exact (linked.comes live inSplit).imp_left fun old => ⟨old, apart⟩
  · intro live member
    obtain ⟨inSplit, apart⟩ := swept.rows live member
    apply Bool.eq_false_iff.mpr
    intro same
    apply apart
    rw [sound.names live inSplit _ (linked.stays _ row) same]
  · exact fun link member apart => (swept.links link).mpr ⟨linked.kept link member, apart⟩
  · exact fun link member => ((swept.links link).mp member).2
  · intro link member
    apply (linked.gained link ((swept.links link).mp member).1).imp_right
    intro ⟨given, live, liveMem, isId, named⟩
    exact ⟨⟨_, given, rfl, rfl⟩, live, swept.linked_stays member liveMem isId, isId, named⟩
  · intro book isLinked atom atomMem
    obtain ⟨live, liveMem, isNamed, link, linkMem, isBook, isEntity⟩ :=
      every book isLinked atom atomMem
    by_cases isSource : live.id = sourceId
    · rw [sound.ids live liveMem _ (linked.stays _ row) isSource] at isNamed
      exact .inl isNamed
    · have inAfter : link ∈ taxon.links := (swept.links link).mpr ⟨linkMem, isEntity ▸ isSource⟩
      exact .inr ⟨live, swept.linked_stays inAfter liveMem isEntity.symm, isNamed, link, inAfter,
        isBook, isEntity⟩
  · exact swept.sound sound

/-- What a split leaves of a library without unreferenced rows, and what its snapshot keeps. -/
structure SplitExact (sourceId : Int) (atoms : List String) (db after : Database)
    (snapshot : SplitSnapshot) : Prop where
  row : ⟨sourceId, snapshot.sourceName, none⟩ ∈ (db.taxa .tag).rows
  named : snapshot.atoms = atoms
  books : ∀ book, book ∈ snapshot.links ↔ (db.taxa .tag).Linked book sourceId
  others : ∀ another, another ≠ .tag → after.taxa another = db.taxa another
  lastId : (db.taxa .tag).lastId ≤ (after.taxa .tag).lastId
  overrides : (after.taxa .tag).overrideNames = (db.taxa .tag).overrideNames
  stays : ∀ row ∈ (db.taxa .tag).rows, row.id ≠ sourceId → row ∈ (after.taxa .tag).rows
  comes : ∀ row ∈ (after.taxa .tag).rows, row ∈ (db.taxa .tag).rows ∧ row.id ≠ sourceId ∨
    (db.taxa .tag).lastId < row.id ∧ Names atoms row
  absent : ∀ row ∈ (after.taxa .tag).rows, sameName row.name snapshot.sourceName = false
  kept : ∀ link ∈ (db.taxa .tag).links, link.entity ≠ sourceId → link ∈ (after.taxa .tag).links
  gone : ∀ link ∈ (after.taxa .tag).links, link.entity ≠ sourceId
  gained : ∀ link ∈ (after.taxa .tag).links, link ∈ (db.taxa .tag).links ∨
    (db.taxa .tag).Linked link.book sourceId ∧
      ∃ row ∈ (after.taxa .tag).rows, row.id = link.entity ∧ Names atoms row
  sound : TaxonSound .tag (after.taxa .tag)
  photos : ∀ pair, pair ∈ after.photos ↔ pair ∈ db.photos
  ignored : after.ignored = db.ignored
  aliases : after.aliases = db.aliases

theorem apply_split_exact (wellformed : Wellformed db) (referenced : Referenced db)
    (applied : applyTagSplit sourceId delimiter atoms db = some (after, snapshot)) :
    SplitExact sourceId atoms db after snapshot := by
  have tags := apply_split_tags wellformed applied
  obtain ⟨_, _, _, isAfter, -⟩ := apply_split_steps applied
  generalize isDeleted : db.setTaxon .tag (deleteEntityRow (deleteLinks
    (atoms.foldl (linkAtom sourceId) (db.taxa .tag)) sourceId) sourceId) = deleted at isAfter
  have others (another : MergeEntity) (apart : another ≠ .tag) :
      after.taxa another = db.taxa another := by
    rw [← isAfter]
    change deleteOrphans another (deleted.taxa another) = _
    rw [← isDeleted, set_taxon_other apart]
    exact sweep_taxa referenced another
  constructor
  · exact tags.row
  · exact tags.named
  · exact tags.books
  · exact others
  · exact tags.lastId
  · exact tags.overrides
  · exact fun row member apart => tags.stays row member apart (referenced .tag row member)
  · exact tags.comes
  · exact tags.absent
  · exact tags.kept
  · exact tags.gone
  · exact tags.gained
  · exact tags.sound
  · intro pair
    have photos : deleted.photos = db.photos := by
      rw [← isDeleted]
      rfl
    have memPhotos : pair ∈ (deleteOrphanTaxonomy deleted).photos ↔ pair ∈ deleted.photos ∧
        ∃ row ∈ ((deleteOrphanTaxonomy deleted).taxa .author).rows, row.id = pair.1 :=
      mem_cascade_photos
    rw [isAfter, others .author (by decide), photos] at memPhotos
    rw [memPhotos]
    exact ⟨And.left, fun member => ⟨member, wellformed.pictured pair member⟩⟩
  · rw [← isAfter]
    change deleted.ignored = _
    rw [← isDeleted]
    rfl
  · rw [← isAfter]
    change deleted.aliases = _
    rw [← isDeleted]
    rfl

theorem apply_split_referenced
    (applied : applyTagSplit sourceId delimiter atoms db = some (after, snapshot)) :
    Referenced after := by
  obtain ⟨_, _, _, rfl, _⟩ := apply_split_steps applied
  exact swept_referenced _

theorem SplitExact.wellformed (spec : SplitExact sourceId atoms db after snapshot)
    (before : Wellformed db) : Wellformed after := by
  refine before.of_taxon spec.others spec.sound ?_ ?_ ?_
  · intro pair member
    rw [spec.others .author (by decide)]
    exact before.pictured pair ((spec.photos pair).mp member)
  · exact fun left leftMem right rightMem => before.photos left ((spec.photos left).mp leftMem)
      right ((spec.photos right).mp rightMem)
  · rw [spec.aliases]
    exact before.aliases

end Split

section Undone

/-- The undo of a split before its sweep: the source is back, and its books lose their links to the
rows that atoms name. -/
structure SplitBack (snapshot : SplitSnapshot) (db after : Database) : Prop where
  others : ∀ another, another ≠ .tag → after.taxa another = db.taxa another
  lastId : (after.taxa .tag).lastId = (db.taxa .tag).lastId + 1
  overrides : (after.taxa .tag).overrideNames = (db.taxa .tag).overrideNames
  rows : ∀ row, row ∈ (after.taxa .tag).rows ↔ row ∈ (db.taxa .tag).rows ∨
    row = ⟨(db.taxa .tag).lastId + 1, snapshot.sourceName, none⟩
  links : ∀ link, link ∈ (after.taxa .tag).links ↔
    (link ∈ (db.taxa .tag).links ∨
      ∃ book ∈ snapshot.links, link = ⟨book, (db.taxa .tag).lastId + 1, none⟩) ∧
        ¬(link.book ∈ snapshot.links ∧
          ∃ row ∈ (after.taxa .tag).rows, row.id = link.entity ∧ Names snapshot.atoms row)
  photos : after.photos = db.photos
  ignored : after.ignored = db.ignored
  aliases : after.aliases = db.aliases

theorem mem_lookup_tags {names : List String} {id : Int} :
    id ∈ lookupTagIds taxon names ↔ ∃ row ∈ taxon.rows, row.id = id ∧ Names names row := by
  unfold lookupTagIds Names
  simp only [List.mem_map, List.mem_filter, List.any_eq_true]
  constructor
  · intro ⟨row, ⟨member, named⟩, isId⟩
    exact ⟨row, member, isId, named⟩
  · intro ⟨row, member, isId, named⟩
    exact ⟨row, ⟨member, named⟩, isId⟩

theorem undo_split_back (bounded : Bounded .tag db)
    (absent : ∀ row ∈ (db.taxa .tag).rows, sameName row.name snapshot.sourceName = false) :
    ∃ after, undoSplit snapshot db = deleteOrphanTaxonomy after ∧ SplitBack snapshot db after := by
  unfold undoSplit insertLinksBulk
  rw [recreate_absent none absent]
  dsimp only
  have isSort : (if MergeEntity.tag.hasSort = true then (none : Option String) else none) = none :=
    rfl
  rw [isSort]
  generalize isRecreated : ({ db.taxa .tag with
    rows := (db.taxa .tag).rows ++ [⟨(db.taxa .tag).lastId + 1, snapshot.sourceName, none⟩]
    lastId := (db.taxa .tag).lastId + 1 } : Taxon) = recreated
  have sameLinks : recreated.links = (db.taxa .tag).links := by
    rw [← isRecreated]
  have asGiven : snapshot.links.foldl (fun taxon book =>
      insertLink .tag taxon book ((db.taxa .tag).lastId + 1) none) recreated =
        (snapshot.links.map fun book => (⟨book, none⟩ : BookLink)).foldl (fun taxon link =>
          insertLink .tag taxon link.bookId ((db.taxa .tag).lastId + 1) link.position) recreated := by
    rw [List.foldl_map]
  have given : Given .tag (snapshot.links.map fun book => (⟨book, none⟩ : BookLink)) := by
    refine ⟨fun left leftMem right rightMem same => ?_, fun link member => ?_⟩
    · obtain ⟨_, _, rfl⟩ := List.mem_map.mp leftMem
      obtain ⟨_, _, rfl⟩ := List.mem_map.mp rightMem
      dsimp only at same
      rw [same]
    · obtain ⟨_, _, rfl⟩ := List.mem_map.mp member
      rfl
  have free : ∀ other ∈ recreated.links, other.entity = (db.taxa .tag).lastId + 1 →
      ∀ link ∈ snapshot.links.map fun book => (⟨book, none⟩ : BookLink), link.bookId = other.book →
        other.position = link.position := by
    intro other otherMem isEntity
    have := bounded.links other (sameLinks ▸ otherMem)
    omega
  have memLinks := mem_insert_links given free
  rw [asGiven, insert_links_taxon]
  generalize (List.foldl (fun taxon link => insertLink .tag taxon link.bookId
    ((db.taxa .tag).lastId + 1) link.position) recreated
      (snapshot.links.map fun book => (⟨book, none⟩ : BookLink))).links = links at memLinks
  generalize isLinked : ({ recreated with links := links } : Taxon) = linked
  have rows (row : EntityRow) : row ∈ linked.rows ↔ row ∈ (db.taxa .tag).rows ∨
      row = ⟨(db.taxa .tag).lastId + 1, snapshot.sourceName, none⟩ := by
    rw [← isLinked, ← isRecreated]
    simp
  refine ⟨_, rfl, ?_⟩
  constructor
  · exact fun another apart => set_taxon_other apart _
  · rw [set_taxon_same, ← isLinked, ← isRecreated]
    rfl
  · rw [set_taxon_same, ← isLinked, ← isRecreated]
    rfl
  · rw [set_taxon_same]
    exact rows
  · intro link
    rw [set_taxon_same]
    have inLinks : link ∈ linked.links ↔ link ∈ (db.taxa .tag).links ∨
        ∃ book ∈ snapshot.links, link = ⟨book, (db.taxa .tag).lastId + 1, none⟩ := by
      rw [← isLinked, memLinks, sameLinks]
      simp
    rw [← inLinks]
    unfold deleteLinksBulk
    simp only [List.mem_filter, Bool.not_eq_true', Bool.and_eq_false_iff, decide_eq_false_iff_not,
      mem_lookup_tags]
    exact and_congr_right fun _ => not_and_or.symm
  · rfl
  · rfl
  · rfl

theorem Renamed.justified {kind : MergeEntity} (renamed : Renamed rename db other)
    {row : EntityRow} (reason : justified kind (db.taxa kind) row = true) :
    justified kind (other.taxa kind) ⟨rename kind row.id, row.name, row.sort⟩ = true := by
  refine justified_iff.mpr ((justified_iff.mp reason).imp ?_ fun named => ?_)
  · intro ⟨book, link, member, isBook, isEntity⟩
    refine ⟨book, _, (renamed.links kind _).mpr ⟨link, member, rfl⟩, isBook, ?_⟩
    rw [isEntity]
  · rw [renamed.overrides]
    exact named

/-- A split whose undo takes no more than the split gave. -/
structure Separable (sourceId : Int) (atoms : List String) (db : Database) : Prop where
  apart : ∀ row ∈ (db.taxa .tag).rows, Names atoms row → ∀ book,
    (db.taxa .tag).Linked book sourceId → ¬(db.taxa .tag).Linked book row.id
  overridden : ∀ atom ∈ atoms, ∀ name ∈ (db.taxa .tag).overrideNames,
    sameName name atom = true → ∃ row ∈ (db.taxa .tag).rows, sameName row.name atom = true

end Undone

section Back

variable {undone : Database}
  (before : Wellformed db) (spec : SplitExact sourceId atoms db after snapshot)
  (separable : Separable sourceId atoms db)
  (renamed : Renamed rename after other) (givenOut : GivenOut other)
  (back : SplitBack snapshot other undone)

include before spec renamed in
/-- An id of the split library that the new name of an older row is of is that row's. -/
theorem split_image {left : EntityRow} (member : left ∈ (after.taxa .tag).rows) {link : LinkRow}
    (old : link ∈ (db.taxa .tag).links) (apart : link.entity ≠ sourceId)
    (same : rename .tag left.id = rename .tag link.entity) :
    left.id = link.entity ∧ left ∈ (db.taxa .tag).rows := by
  obtain ⟨row, rowMem, isId⟩ := before.linked .tag link old
  rw [← isId] at same apart ⊢
  have isRow := renamed.apart .tag left member row (spec.stays row rowMem apart) same
  refine ⟨isRow, (spec.comes left member).elim And.left fun isNew => ?_⟩
  have := before.bounded .tag row rowMem
  omega

include before spec separable renamed givenOut back in
theorem split_links_back (link : LinkRow) : link ∈ (undone.taxa .tag).links ↔
    ∃ old ∈ (db.taxa .tag).links, link = ⟨old.book, reassign rename .tag [sourceId]
      (fun _ => (other.taxa .tag).lastId + 1) .tag old.entity, old.position⟩ := by
  rw [back.links]
  constructor
  · rintro ⟨inOther | ⟨book, bookMem, rfl⟩, untaken⟩
    · obtain ⟨left, leftMem, rfl⟩ := (renamed.links .tag link).mp inOther
      refine ⟨left, ?_, by rw [reassign_rest (spec.gone left leftMem)]⟩
      -- what the split gave an atom is taken from it again
      refine (spec.gained left leftMem).resolve_right fun ⟨given, row, rowMem, isId, named⟩ => ?_
      refine untaken ⟨(spec.books _).mpr given, _, (back.rows _).mpr (.inl (renamed.row_mem rowMem)),
        ?_, spec.named ▸ named⟩
      dsimp only
      rw [isId]
    · obtain ⟨old, oldMem, isBook, isEntity⟩ := (spec.books book).mp bookMem
      refine ⟨old, oldMem, ?_⟩
      rw [isEntity, reassign_one, isBook, before.tag_position oldMem]
  · intro ⟨old, oldMem, equal⟩
    subst equal
    by_cases isSource : old.entity = sourceId
    · have linked : (db.taxa .tag).Linked old.book sourceId := ⟨old, oldMem, rfl, isSource⟩
      rw [isSource, reassign_one]
      refine ⟨.inr ⟨old.book, (spec.books _).mpr linked, ?_⟩, ?_⟩
      · rw [before.tag_position oldMem]
      · intro ⟨_, row, rowMem, isId, named⟩
        rcases (back.rows row).mp rowMem with inOther | rfl
        · have := givenOut .tag row inOther
          dsimp only at isId
          omega
        · rw [spec.named] at named
          exact separable.apart _ spec.row named old.book linked linked
    · rw [reassign_rest isSource]
      have kept := spec.kept old oldMem isSource
      refine ⟨.inl ((renamed.links .tag _).mpr ⟨old, kept, rfl⟩), ?_⟩
      intro ⟨isBook, row, rowMem, isId, named⟩
      dsimp only at isBook isId
      rcases (back.rows row).mp rowMem with inOther | rfl
      · obtain ⟨left, leftMem, rfl⟩ := (renamed.rows .tag row).mp inOther
        obtain ⟨isEntity, inDb⟩ := split_image before spec renamed leftMem oldMem isSource isId
        rw [spec.named] at named
        exact separable.apart left inDb named old.book ((spec.books _).mp isBook)
          ⟨old, oldMem, rfl, isEntity.symm⟩
      · obtain ⟨live, liveMem, isLive⟩ := spec.sound.linked old kept
        have := renamed.id_le givenOut liveMem
        rw [isLive] at this
        dsimp only at isId
        omega

include before spec separable renamed givenOut back in
theorem split_rows_back (referenced : Referenced db) (row : EntityRow) :
    row ∈ (undone.taxa .tag).rows ∧ justified .tag (undone.taxa .tag) row = true ↔
      ∃ old ∈ (db.taxa .tag).rows, row = ⟨reassign rename .tag [sourceId]
        (fun _ => (other.taxa .tag).lastId + 1) .tag old.id, old.name, old.sort⟩ := by
  have links := split_links_back before spec separable renamed givenOut back
  have overrides : (undone.taxa .tag).overrideNames = (db.taxa .tag).overrideNames := by
    rw [back.overrides, renamed.overrides, spec.overrides]
  constructor
  · intro ⟨inUndone, reason⟩
    rcases (back.rows row).mp inUndone with inOther | rfl
    · obtain ⟨left, leftMem, rfl⟩ := (renamed.rows .tag row).mp inOther
      rcases spec.comes left leftMem with ⟨inDb, apart⟩ | ⟨isMade, atom, atomMem, isAtom⟩
      · exact ⟨left, inDb, by rw [reassign_rest apart]⟩
      -- an atom that the split made has no reason left
      exfalso
      rcases justified_iff.mp reason with ⟨book, link, linkMem, _, isEntity⟩ | ⟨_, name, nameMem,
        isName⟩
      · obtain ⟨old, oldMem, rfl⟩ := (links link).mp linkMem
        dsimp only at isEntity
        by_cases isSource : old.entity = sourceId
        · rw [isSource, reassign_one] at isEntity
          have := renamed.id_le givenOut leftMem
          omega
        · rw [reassign_rest isSource] at isEntity
          obtain ⟨_, inDb⟩ := split_image before spec renamed leftMem oldMem isSource isEntity.symm
          have := before.bounded .tag left inDb
          omega
      · rw [overrides] at nameMem
        dsimp only at isName
        obtain ⟨held, heldMem, isHeld⟩ := separable.overridden atom atomMem name nameMem
          (same_name_trans isName isAtom)
        rw [same_name_comm] at isAtom
        have same := same_name_trans isHeld isAtom
        by_cases isSource : held.id = sourceId
        · have isRow := before.ids .tag held heldMem _ spec.row isSource
          rw [isRow, same_name_comm, spec.absent left leftMem] at same
          cases same
        · have isLeft := spec.sound.names held (spec.stays held heldMem isSource) left leftMem same
          have := before.bounded .tag held heldMem
          rw [isLeft] at this
          omega
    · exact ⟨_, spec.row, by rw [reassign_one]⟩
  · intro ⟨old, oldMem, equal⟩
    subst equal
    refine ⟨(back.rows _).mpr ?_, justified_iff.mpr ?_⟩
    · by_cases isSource : old.id = sourceId
      · rw [before.ids .tag old oldMem _ spec.row isSource, reassign_one]
        exact .inr rfl
      · rw [reassign_rest isSource]
        exact .inl (renamed.row_mem (spec.stays old oldMem isSource))
    · refine (justified_iff.mp (referenced .tag old oldMem)).imp ?_ fun named => ?_
      · intro ⟨book, link, linkMem, isBook, isEntity⟩
        refine ⟨book, _, (links _).mpr ⟨link, linkMem, rfl⟩, isBook, ?_⟩
        rw [isEntity]
      · rw [overrides]
        exact named

end Back

theorem SplitExact.undone (spec : SplitExact sourceId atoms db after snapshot)
    (before : Wellformed db) (referenced : Referenced db) (separable : Separable sourceId atoms db)
    (renamed : Renamed rename after other) (givenOut : GivenOut other)
    (unnamed : ∀ row ∈ db.aliases, row.kind = .tag → row.canonicalId ≠ sourceId) :
    GivenOut (undoSplit snapshot other) ∧ ∃ fresh,
      Renamed (reassign rename .tag [sourceId] fresh) db (undoSplit snapshot other) := by
  have absent (row : EntityRow) (live : row ∈ (other.taxa .tag).rows) :
      sameName row.name snapshot.sourceName = false := by
    obtain ⟨left, leftMem, rfl⟩ := (renamed.rows .tag row).mp live
    exact spec.absent left leftMem
  obtain ⟨undone, isUndone, back⟩ := undo_split_back
    (renamed.bounded (spec.wellformed before) givenOut .tag) absent
  rw [isUndone]
  have others (another : MergeEntity) (apart : another ≠ .tag) :
      (deleteOrphanTaxonomy undone).taxa another = other.taxa another := by
    change deleteOrphans another (undone.taxa another) = _
    rw [back.others another apart]
    unfold deleteOrphans
    rw [List.filter_eq_self.mpr fun row member => ?_]
    obtain ⟨left, leftMem, rfl⟩ := (renamed.rows another row).mp member
    rw [spec.others another apart] at leftMem
    apply renamed.justified
    rw [spec.others another apart]
    exact referenced another left leftMem
  have rows (row : EntityRow) : row ∈ ((deleteOrphanTaxonomy undone).taxa .tag).rows ↔
      row ∈ (undone.taxa .tag).rows ∧ justified .tag (undone.taxa .tag) row = true :=
    List.mem_filter
  refine ⟨givenOut.of_taxon others ?_, fun _ => (other.taxa .tag).lastId + 1,
    renamed.reassigned spec.others others ?_ ?_ ?_ ?_ ?_ ?_ ?_⟩
  · intro row member
    change row.id ≤ (undone.taxa .tag).lastId
    rw [back.lastId]
    rcases (back.rows row).mp ((rows row).mp member).1 with inOther | rfl
    · exact (givenOut .tag row inOther).trans (by omega)
    · exact le_rfl
  · refine reassign_one_apart (fun row member apart => ?_) fun left leftMem right rightMem isLeft
      isRight => renamed.apart .tag left (spec.stays left leftMem isLeft) right
        (spec.stays right rightMem isRight)
    have := renamed.id_le givenOut (spec.stays row member apart)
    omega
  · intro row
    rw [rows]
    exact split_rows_back before spec separable renamed givenOut back referenced row
  · change (undone.taxa .tag).overrideNames = _
    rw [back.overrides, renamed.overrides, spec.overrides]
  · intro link
    change link ∈ (undone.taxa .tag).links ↔ _
    exact split_links_back before spec separable renamed givenOut back link
  · intro pair
    have inSwept : pair ∈ (deleteOrphanTaxonomy undone).photos ↔ pair ∈ undone.photos ∧
        ∃ row ∈ ((deleteOrphanTaxonomy undone).taxa .author).rows, row.id = pair.1 :=
      mem_cascade_photos
    rw [inSwept, others .author (by decide), back.photos, renamed.photos]
    constructor
    · intro ⟨⟨old, oldMem, equal⟩, _⟩
      subst equal
      refine ⟨old, (spec.photos old).mp oldMem, ?_⟩
      rw [reassign_other (by decide)]
    · intro ⟨old, oldMem, equal⟩
      subst equal
      rw [reassign_other (by decide)]
      have left := (spec.photos old).mpr oldMem
      obtain ⟨row, rowMem, isId⟩ := (spec.wellformed before).pictured old left
      refine ⟨⟨old, left, rfl⟩, _, renamed.row_mem rowMem, ?_⟩
      dsimp only
      rw [isId]
  · intro name
    change name ∈ undone.ignored ↔ _
    rw [back.ignored, renamed.ignored, spec.ignored]
  · change ∀ row, row ∈ undone.aliases ↔ _
    rw [back.aliases]
    exact renamed.aliases_stay spec.aliases fun row member isKind isId =>
      unnamed row member isKind (List.mem_singleton.mp isId)

end Omnibus.Cleanup
