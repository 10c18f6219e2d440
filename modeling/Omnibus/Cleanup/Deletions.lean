import Omnibus.Cleanup.Renamed

/-!
# Deleting an author and bringing the author back

What a deletion leaves and what its undo writes on a library that is the same up to ids.
-/

namespace Omnibus.Cleanup

variable {db after other : Database} {rename : MergeEntity → Int → Int} {authorId : Int}
  {snapshot : DeleteAuthorSnapshot}

structure DeleteExact (authorId : Int) (db after : Database) (snapshot : DeleteAuthorSnapshot) :
    Prop where
  row : ⟨authorId, snapshot.name, snapshot.sort⟩ ∈ (db.taxa .author).rows
  given : ∀ link, link ∈ snapshot.links ↔
    ⟨link.bookId, authorId, link.position⟩ ∈ (db.taxa .author).links
  photo : ∀ photo, snapshot.photo = some photo ↔ (authorId, photo) ∈ db.photos
  others : ∀ another, another ≠ .author → after.taxa another = db.taxa another
  lastId : (after.taxa .author).lastId = (db.taxa .author).lastId
  overrides : (after.taxa .author).overrideNames = (db.taxa .author).overrideNames
  rows : ∀ row, row ∈ (after.taxa .author).rows ↔
    row ∈ (db.taxa .author).rows ∧ row.id ≠ authorId
  links : ∀ link, link ∈ (after.taxa .author).links ↔
    link ∈ (db.taxa .author).links ∧ link.entity ≠ authorId
  photos : ∀ pair, pair ∈ after.photos ↔ pair ∈ db.photos ∧ pair.1 ≠ authorId
  ignored : (∀ name ∈ db.ignored, sameName name snapshot.name = false) →
    after.ignored = db.ignored ++ [snapshot.name]
  aliases : after.aliases = db.aliases

theorem apply_delete_exact (wellformed : Wellformed db) (referenced : Referenced db)
    (applied : applyDeleteAuthor authorId db = some (after, snapshot)) :
    DeleteExact authorId db after snapshot := by
  unfold applyDeleteAuthor at applied
  obtain ⟨⟨name, sort⟩, fetched, isResult⟩ := Option.map_eq_some_iff.mp applied
  simp only [Prod.mk.injEq] at isResult
  obtain ⟨rfl, rfl⟩ := isResult
  have row := fetch_row fetched
  -- the library when the author is deleted, before the sweep
  generalize isDeleted : ({ (db.setTaxon .author (deleteEntityRow (deleteLinks (db.taxa .author)
      authorId) authorId)).cascadePhotos with
    ignored := if db.ignored.any (sameName · name) = true then db.ignored
      else db.ignored ++ [name] } : Database) = deleted
  have author : deleted.taxa .author =
      deleteEntityRow (deleteLinks (db.taxa .author) authorId) authorId := by
    rw [← isDeleted]
    change (db.setTaxon .author _).taxa .author = _
    exact set_taxon_same _
  have others (another : MergeEntity) (apart : another ≠ .author) :
      deleted.taxa another = db.taxa another := by
    rw [← isDeleted]
    exact set_taxon_other apart _
  have memRows (row : EntityRow) : row ∈ (deleted.taxa .author).rows ↔
      row ∈ (db.taxa .author).rows ∧ row.id ≠ authorId := by
    rw [author]
    exact mem_deleted_rows
  have memLinks (link : LinkRow) : link ∈ (deleted.taxa .author).links ↔
      link ∈ (db.taxa .author).links ∧ link.entity ≠ authorId := by
    rw [author]
    exact mem_deleted_links
  have justifiedAll : Referenced deleted := by
    intro another row member
    by_cases same : another = .author
    · subst same
      obtain ⟨old, notDeleted⟩ := (memRows row).mp member
      rw [justified_iff]
      refine (justified_iff.mp (referenced .author row old)).imp ?_ fun named => ?_
      · intro ⟨book, link, linkMem, isBook, isEntity⟩
        exact ⟨book, link, (memLinks link).mpr ⟨linkMem, isEntity ▸ notDeleted⟩, isBook, isEntity⟩
      · rw [author]
        exact named
    · rw [others another same] at member ⊢
      exact referenced another row member
  have taxa (another : MergeEntity) : (deleteOrphanTaxonomy deleted).taxa another =
      deleted.taxa another := sweep_taxa justifiedAll another
  constructor
  · exact row
  · exact fun link => mem_fetch_links
  · exact fun photo => load_photo_iff wellformed.photos
  · exact fun another apart => (taxa another).trans (others another apart)
  · rw [taxa, author]
    rfl
  · rw [taxa, author]
    rfl
  · rw [taxa]
    exact memRows
  · rw [taxa]
    exact memLinks
  · intro pair
    have photos : pair ∈ deleted.photos ↔ pair ∈ db.photos ∧
        ∃ row ∈ (deleted.taxa .author).rows, row.id = pair.1 := by
      rw [← isDeleted]
      exact mem_cascade_photos
    rw [mem_swept_photos justifiedAll, photos, and_assoc, and_self_iff]
    refine and_congr_right fun member => ⟨?_, fun apart => ?_⟩
    · intro ⟨live, liveMem, isId⟩
      rw [← isId]
      exact ((memRows live).mp liveMem).2
    · obtain ⟨live, liveMem, isId⟩ := wellformed.pictured pair member
      exact ⟨live, (memRows live).mpr ⟨liveMem, isId ▸ apart⟩, isId⟩
  · intro absent
    change deleted.ignored = _
    rw [← isDeleted]
    apply if_neg
    intro present
    obtain ⟨held, heldMem, same⟩ := List.any_eq_true.mp present
    exact Bool.eq_false_iff.mp (absent held heldMem) same
  · change deleted.aliases = _
    rw [← isDeleted]
    rfl

theorem apply_delete_referenced
    (applied : applyDeleteAuthor authorId db = some (after, snapshot)) : Referenced after := by
  unfold applyDeleteAuthor at applied
  obtain ⟨_, _, isResult⟩ := Option.map_eq_some_iff.mp applied
  simp only [Prod.mk.injEq] at isResult
  rw [← isResult.1]
  exact swept_referenced _

theorem DeleteExact.wellformed (spec : DeleteExact authorId db after snapshot)
    (before : Wellformed db) : Wellformed after := by
  refine before.of_taxon spec.others ⟨?_, ?_, ?_, fun unsorted => absurd unsorted (by decide), ?_,
    ?_, ?_⟩ ?_ ?_ ?_
  · exact fun left leftMem right rightMem => before.ids .author left ((spec.rows left).mp leftMem).1
      right ((spec.rows right).mp rightMem).1
  · rw [spec.lastId]
    exact fun row member => before.bounded .author row ((spec.rows row).mp member).1
  · exact fun left leftMem right rightMem => before.names .author left
      ((spec.rows left).mp leftMem).1 right ((spec.rows right).mp rightMem).1
  · exact fun left leftMem right rightMem => before.keys .author left
      ((spec.links left).mp leftMem).1 right ((spec.links right).mp rightMem).1
  · exact fun link member => before.positions .author link ((spec.links link).mp member).1
  · intro link member
    obtain ⟨old, apart⟩ := (spec.links link).mp member
    obtain ⟨row, rowMem, isId⟩ := before.linked .author link old
    exact ⟨row, (spec.rows row).mpr ⟨rowMem, isId ▸ apart⟩, isId⟩
  · intro pair member
    obtain ⟨old, apart⟩ := (spec.photos pair).mp member
    obtain ⟨row, rowMem, isId⟩ := before.pictured pair old
    exact ⟨row, (spec.rows row).mpr ⟨rowMem, isId ▸ apart⟩, isId⟩
  · exact fun left leftMem right rightMem => before.photos left ((spec.photos left).mp leftMem).1
      right ((spec.photos right).mp rightMem).1
  · rw [spec.aliases]
    exact before.aliases

section Undone

/-- The author is back under an id that was not given out before. -/
structure AuthorBack (snapshot : DeleteAuthorSnapshot) (db after : Database) : Prop where
  others : ∀ another, another ≠ .author → after.taxa another = db.taxa another
  lastId : (after.taxa .author).lastId = (db.taxa .author).lastId + 1
  overrides : (after.taxa .author).overrideNames = (db.taxa .author).overrideNames
  rows : ∀ row, row ∈ (after.taxa .author).rows ↔ row ∈ (db.taxa .author).rows ∨
    row = ⟨(db.taxa .author).lastId + 1, snapshot.name, snapshot.sort⟩
  links : ∀ link, link ∈ (after.taxa .author).links ↔ link ∈ (db.taxa .author).links ∨
    ∃ given ∈ snapshot.links, link = ⟨given.bookId, (db.taxa .author).lastId + 1, given.position⟩
  photos : ∀ pair, pair ∈ after.photos ↔ pair ∈ db.photos ∨
    ∃ photo, snapshot.photo = some photo ∧ pair = ((db.taxa .author).lastId + 1, photo)
  ignored : ∀ name, name ∈ after.ignored ↔
    name ∈ db.ignored ∧ sameName name snapshot.name = false
  aliases : after.aliases = db.aliases

theorem undo_delete_back (bounded : Bounded .author db)
    (absent : ∀ row ∈ (db.taxa .author).rows, sameName row.name snapshot.name = false)
    (given : Given .author snapshot.links) :
    ∃ after, undoDeleteAuthor snapshot db = some after ∧ AuthorBack snapshot db after := by
  unfold undoDeleteAuthor
  rw [recreate_absent snapshot.sort absent]
  dsimp only
  have isSort : (if MergeEntity.author.hasSort = true then snapshot.sort else none) =
      snapshot.sort := rfl
  rw [insert_links_taxon, isSort]
  generalize isRecreated : ({ db.taxa .author with
    rows := (db.taxa .author).rows ++ [⟨(db.taxa .author).lastId + 1, snapshot.name, snapshot.sort⟩]
    lastId := (db.taxa .author).lastId + 1 } : Taxon) = recreated
  have sameLinks : recreated.links = (db.taxa .author).links := by
    rw [← isRecreated]
  have free : ∀ other ∈ recreated.links, other.entity = (db.taxa .author).lastId + 1 →
      ∀ link ∈ snapshot.links, link.bookId = other.book → other.position = link.position := by
    intro other otherMem isEntity
    have := bounded.links other (sameLinks ▸ otherMem)
    omega
  have memLinks := mem_insert_links given free
  generalize (snapshot.links.foldl (fun taxon link =>
    insertLink .author taxon link.bookId ((db.taxa .author).lastId + 1) link.position)
      recreated).links = links at memLinks
  generalize isLinked : db.setTaxon .author { recreated with links := links } = linked
  have author : linked.taxa .author =
      ⟨(db.taxa .author).rows ++ [⟨(db.taxa .author).lastId + 1, snapshot.name, snapshot.sort⟩],
        (db.taxa .author).lastId + 1, links, (db.taxa .author).overrideNames⟩ := by
    rw [← isLinked, set_taxon_same, ← isRecreated]
  have rest : linked.photos = db.photos ∧ linked.ignored = db.ignored ∧
      linked.aliases = db.aliases := by
    rw [← isLinked]
    exact ⟨rfl, rfl, rfl⟩
  have live : ∃ row ∈ (linked.taxa .author).rows, row.id = (db.taxa .author).lastId + 1 := by
    rw [author]
    exact ⟨_, List.mem_append_right _ List.mem_cons_self, rfl⟩
  have unpictured (pair : Int × Photo) (member : pair ∈ linked.photos) :
      pair.1 ≠ (db.taxa .author).lastId + 1 := by
    rw [rest.1] at member
    have := bounded.photos rfl pair member
    omega
  obtain ⟨pictured, isPictured, taxa, sameAliases, sameIgnored, photos⟩ :=
    write_fresh_photo snapshot.photo live unpictured
  refine ⟨_, Option.map_eq_some_iff.mpr ⟨pictured, ?_, rfl⟩, ?_⟩
  · rw [← isPictured]
    cases snapshot.photo <;> rfl
  constructor
  · intro another apart
    change pictured.taxa another = _
    rw [taxa, ← isLinked, set_taxon_other apart]
  · change (pictured.taxa .author).lastId = _
    rw [taxa, author]
  · change (pictured.taxa .author).overrideNames = _
    rw [taxa, author]
  · intro row
    change row ∈ (pictured.taxa .author).rows ↔ _
    rw [taxa, author]
    simp
  · intro link
    change link ∈ (pictured.taxa .author).links ↔ _
    rw [taxa, author, ← sameLinks]
    exact memLinks link
  · intro pair
    rw [← rest.1]
    exact photos pair
  · intro name
    rw [← rest.2.1, ← sameIgnored]
    simp
  · exact sameAliases.trans rest.2.2

theorem DeleteExact.undone (spec : DeleteExact authorId db after snapshot)
    (before : Wellformed db) (renamed : Renamed rename after other) (givenOut : GivenOut other)
    (unnamed : ∀ row ∈ db.aliases, row.kind = .author → row.canonicalId ≠ authorId)
    (notIgnored : ∀ name ∈ db.ignored, sameName name snapshot.name = false) :
    ∃ final fresh, undoDeleteAuthor snapshot other = some final ∧ GivenOut final ∧
      Renamed (reassign rename .author [authorId] fresh) db final := by
  have bounded := renamed.bounded (spec.wellformed before) givenOut .author
  have absent (row : EntityRow) (live : row ∈ (other.taxa .author).rows) :
      sameName row.name snapshot.name = false := by
    obtain ⟨old, oldMem, rfl⟩ := (renamed.rows .author row).mp live
    obtain ⟨inDb, apart⟩ := (spec.rows old).mp oldMem
    refine Bool.eq_false_iff.mpr fun same => apart ?_
    rw [before.names .author old inDb _ spec.row same]
  have given := given_of_told (before.of_kind .author) spec.given
  obtain ⟨final, undone, back⟩ := undo_delete_back bounded absent given
  refine ⟨final, fun _ => (other.taxa .author).lastId + 1, undone, givenOut.of_taxon back.others ?_,
    renamed.reassigned spec.others back.others ?_ ?_ ?_ ?_ ?_ ?_ ?_⟩
  · intro row member
    rw [back.lastId]
    rcases (back.rows row).mp member with inOther | rfl
    · exact (bounded.rows row inOther).trans (by omega)
    · exact le_rfl
  · refine reassign_one_apart (fun row member apart => ?_) fun left leftMem right rightMem isLeft
      isRight => renamed.apart .author left ((spec.rows left).mpr ⟨leftMem, isLeft⟩) right
        ((spec.rows right).mpr ⟨rightMem, isRight⟩)
    have := renamed.id_le givenOut ((spec.rows row).mpr ⟨member, apart⟩)
    omega
  · intro row
    rw [back.rows, renamed.rows]
    constructor
    · rintro (⟨old, oldMem, rfl⟩ | rfl)
      · obtain ⟨inDb, apart⟩ := (spec.rows old).mp oldMem
        exact ⟨old, inDb, by rw [reassign_rest apart]⟩
      · exact ⟨_, spec.row, by rw [reassign_one]⟩
    · intro ⟨old, oldMem, equal⟩
      subst equal
      by_cases isAuthor : old.id = authorId
      · rw [before.ids .author old oldMem _ spec.row isAuthor, reassign_one]
        exact .inr rfl
      · exact .inl ⟨old, (spec.rows old).mpr ⟨oldMem, isAuthor⟩, by rw [reassign_rest isAuthor]⟩
  · rw [back.overrides, renamed.overrides, spec.overrides]
  · intro link
    rw [back.links, renamed.links]
    constructor
    · rintro (⟨old, oldMem, rfl⟩ | ⟨row, rowMem, rfl⟩)
      · obtain ⟨inDb, apart⟩ := (spec.links old).mp oldMem
        exact ⟨old, inDb, by rw [reassign_rest apart]⟩
      · exact ⟨_, (spec.given row).mp rowMem, by rw [reassign_one]⟩
    · intro ⟨old, oldMem, equal⟩
      subst equal
      by_cases isAuthor : old.entity = authorId
      · refine .inr ⟨⟨old.book, old.position⟩, (spec.given _).mpr ?_, by rw [isAuthor, reassign_one]⟩
        rw [← isAuthor]
        exact oldMem
      · exact .inl ⟨old, (spec.links old).mpr ⟨oldMem, isAuthor⟩, by rw [reassign_rest isAuthor]⟩
  · intro pair
    rw [back.photos, renamed.photos]
    constructor
    · rintro (⟨old, oldMem, rfl⟩ | ⟨photo, isPhoto, rfl⟩)
      · obtain ⟨inDb, apart⟩ := (spec.photos old).mp oldMem
        exact ⟨old, inDb, by rw [reassign_rest apart]⟩
      · exact ⟨_, (spec.photo photo).mp isPhoto, by rw [reassign_one]⟩
    · intro ⟨old, oldMem, equal⟩
      subst equal
      by_cases isAuthor : old.1 = authorId
      · refine .inr ⟨old.2, (spec.photo _).mpr ?_, by rw [isAuthor, reassign_one]⟩
        rw [← isAuthor]
        exact oldMem
      · exact .inl ⟨old, (spec.photos old).mpr ⟨oldMem, isAuthor⟩, by rw [reassign_rest isAuthor]⟩
  · intro name
    rw [back.ignored, renamed.ignored, spec.ignored notIgnored, List.mem_append,
      List.mem_singleton]
    constructor
    · rintro ⟨inDb | rfl, apart⟩
      · exact inDb
      · rw [same_name_refl] at apart
        cases apart
    · exact fun inDb => ⟨.inl inDb, notIgnored name inDb⟩
  · rw [back.aliases]
    exact renamed.aliases_stay spec.aliases fun row member isKind isId =>
      unnamed row member isKind (List.mem_singleton.mp isId)

end Undone

end Omnibus.Cleanup
