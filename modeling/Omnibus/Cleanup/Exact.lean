import Omnibus.Cleanup.Effects
import Omnibus.Cleanup.Sessions

/-!
# Exactly what a cleanup writes

The keys and foreign keys of the tables, and row by row what the statements of a cleanup leave
when they hold.
-/

namespace Omnibus.Cleanup

variable {kind : MergeEntity} {db after : Database} {taxon : Taxon}

section Wellformed

structure Wellformed (db : Database) : Prop where
  ids : ∀ kind, ∀ left ∈ (db.taxa kind).rows, ∀ right ∈ (db.taxa kind).rows,
    left.id = right.id → left = right
  bounded : ∀ kind, ∀ row ∈ (db.taxa kind).rows, row.id ≤ (db.taxa kind).lastId
  names : ∀ kind, ∀ left ∈ (db.taxa kind).rows, ∀ right ∈ (db.taxa kind).rows,
    sameName left.name right.name = true → left = right
  sorts : ∀ kind, kind.hasSort = false → ∀ row ∈ (db.taxa kind).rows, row.sort = none
  keys : ∀ kind, ∀ left ∈ (db.taxa kind).links, ∀ right ∈ (db.taxa kind).links,
    left.book = right.book → left.entity = right.entity → left = right
  positions : ∀ kind, ∀ link ∈ (db.taxa kind).links, link.position.isSome = kind.hasPosition
  linked : ∀ kind, ∀ link ∈ (db.taxa kind).links, ∃ row ∈ (db.taxa kind).rows,
    row.id = link.entity
  pictured : ∀ photo ∈ db.photos, ∃ row ∈ (db.taxa .author).rows, row.id = photo.1
  photos : ∀ left ∈ db.photos, ∀ right ∈ db.photos, left.1 = right.1 → left = right
  aliases : ∀ left ∈ db.aliases, ∀ right ∈ db.aliases, left.kind = right.kind →
    left.aliasName = right.aliasName → left = right

structure TaxonSound (kind : MergeEntity) (taxon : Taxon) : Prop where
  ids : ∀ left ∈ taxon.rows, ∀ right ∈ taxon.rows, left.id = right.id → left = right
  bounded : ∀ row ∈ taxon.rows, row.id ≤ taxon.lastId
  names : ∀ left ∈ taxon.rows, ∀ right ∈ taxon.rows, sameName left.name right.name = true →
    left = right
  sorts : kind.hasSort = false → ∀ row ∈ taxon.rows, row.sort = none
  keys : ∀ left ∈ taxon.links, ∀ right ∈ taxon.links, left.book = right.book →
    left.entity = right.entity → left = right
  positions : ∀ link ∈ taxon.links, link.position.isSome = kind.hasPosition
  linked : ∀ link ∈ taxon.links, ∃ row ∈ taxon.rows, row.id = link.entity

theorem Wellformed.of_kind (wellformed : Wellformed db) (kind : MergeEntity) :
    TaxonSound kind (db.taxa kind) :=
  ⟨wellformed.ids kind, wellformed.bounded kind, wellformed.names kind, wellformed.sorts kind,
    wellformed.keys kind, wellformed.positions kind, wellformed.linked kind⟩

theorem Wellformed.of_taxon (before : Wellformed db)
    (others : ∀ another, another ≠ kind → after.taxa another = db.taxa another)
    (sound : TaxonSound kind (after.taxa kind))
    (pictured : ∀ photo ∈ after.photos, ∃ row ∈ (after.taxa .author).rows, row.id = photo.1)
    (photos : ∀ left ∈ after.photos, ∀ right ∈ after.photos, left.1 = right.1 → left = right)
    (aliases : ∀ left ∈ after.aliases, ∀ right ∈ after.aliases, left.kind = right.kind →
      left.aliasName = right.aliasName → left = right) : Wellformed after := by
  have every (another : MergeEntity) : TaxonSound another (after.taxa another) := by
    by_cases same : another = kind
    · subst same
      exact sound
    · rw [others another same]
      exact before.of_kind another
  exact ⟨fun another => (every another).ids, fun another => (every another).bounded,
    fun another => (every another).names, fun another => (every another).sorts,
    fun another => (every another).keys, fun another => (every another).positions,
    fun another => (every another).linked, pictured, photos, aliases⟩

/-- No author, series or tag without a book or an override. -/
def Referenced (db : Database) : Prop :=
  ∀ kind, ∀ row ∈ (db.taxa kind).rows, justified kind (db.taxa kind) row = true

theorem mem_deleted_rows {taxon : Taxon} {entityId : Int} {row : EntityRow} :
    row ∈ (deleteEntityRow (deleteLinks taxon entityId) entityId).rows ↔
      row ∈ taxon.rows ∧ row.id ≠ entityId := by
  simp [deleteEntityRow, deleteLinks]

theorem mem_deleted_links {taxon : Taxon} {entityId : Int} {link : LinkRow} :
    link ∈ (deleteEntityRow (deleteLinks taxon entityId) entityId).links ↔
      link ∈ taxon.links ∧ link.entity ≠ entityId := by
  simp [deleteEntityRow, deleteLinks]

theorem justified_iff {row : EntityRow} : justified kind taxon row = true ↔
    (∃ book, taxon.Linked book row.id) ∨
      kind ≠ .series ∧ ∃ name ∈ taxon.overrideNames, sameName name row.name = true := by
  unfold justified Taxon.Linked
  simp only [Bool.or_eq_true, List.any_eq_true, Bool.and_eq_true, decide_eq_true_eq]
  refine or_congr_left ⟨?_, ?_⟩
  · intro ⟨link, member, same⟩
    exact ⟨link.book, link, member, rfl, same⟩
  · intro ⟨_, link, member, _, same⟩
    exact ⟨link, member, same⟩

theorem swept_referenced (db : Database) : Referenced (deleteOrphanTaxonomy db) := by
  intro kind row member
  exact (List.mem_filter.mp member).2

/-- A sweep of a library in which every row has its reason leaves the taxa alone. -/
theorem sweep_taxa (referenced : Referenced db) (kind : MergeEntity) :
    (deleteOrphanTaxonomy db).taxa kind = db.taxa kind := by
  change deleteOrphans kind (db.taxa kind) = db.taxa kind
  unfold deleteOrphans
  rw [List.filter_eq_self.mpr (referenced kind)]

theorem mem_cascade_photos {photo : Int × Photo} : photo ∈ db.cascadePhotos.photos ↔
    photo ∈ db.photos ∧ ∃ row ∈ (db.taxa .author).rows, row.id = photo.1 := by
  simp [Database.cascadePhotos]

theorem mem_swept_photos (referenced : Referenced db) {photo : Int × Photo} :
    photo ∈ (deleteOrphanTaxonomy db).photos ↔
      photo ∈ db.photos ∧ ∃ row ∈ (db.taxa .author).rows, row.id = photo.1 := by
  rw [← sweep_taxa referenced .author]
  exact mem_cascade_photos

end Wellformed

section Links

def SameKey (left right : LinkRow) : Prop := left.book = right.book ∧ left.entity = right.entity

def Unique (links : List LinkRow) : Prop :=
  ∀ left ∈ links, ∀ right ∈ links, left.book = right.book → left.entity = right.entity →
    left = right

theorem mem_insert_or_ignore {links : List LinkRow} {added link : LinkRow} :
    link ∈ insertOrIgnore links added ↔
      link ∈ links ∨ link = added ∧ ∀ other ∈ links, ¬SameKey other added := by
  unfold insertOrIgnore SameKey
  split_ifs with present
  · refine ⟨.inl, fun member => member.elim id fun ⟨_, absent⟩ => ?_⟩
    obtain ⟨other, otherMem, same⟩ := List.any_eq_true.mp present
    simp only [Bool.and_eq_true, decide_eq_true_eq] at same
    exact absurd same (absent other otherMem)
  · rw [List.mem_append, List.mem_singleton]
    refine or_congr_right ⟨fun isAdded => ⟨isAdded, fun other otherMem same => ?_⟩, And.left⟩
    exact present (List.any_eq_true.mpr ⟨other, otherMem, by simp [same.1, same.2]⟩)

theorem insert_or_ignore_unique {links : List LinkRow} (unique : Unique links) (added : LinkRow) :
    Unique (insertOrIgnore links added) := by
  intro left leftMem right rightMem book entity
  rcases mem_insert_or_ignore.mp leftMem with leftOld | ⟨rfl, leftNew⟩
  · rcases mem_insert_or_ignore.mp rightMem with rightOld | ⟨rfl, rightNew⟩
    · exact unique left leftOld right rightOld book entity
    · exact absurd ⟨book, entity⟩ (rightNew left leftOld)
  · rcases mem_insert_or_ignore.mp rightMem with rightOld | ⟨rfl, _⟩
    · exact absurd ⟨book.symm, entity.symm⟩ (leftNew right rightOld)
    · rfl

theorem insert_all_unique {added links : List LinkRow} (unique : Unique links) :
    Unique (added.foldl insertOrIgnore links) := by
  induction added generalizing links with
  | nil => exact unique
  | cons link added induction => exact induction (insert_or_ignore_unique unique link)

theorem mem_insert_all {added links : List LinkRow} {link : LinkRow} :
    (link ∈ links → link ∈ added.foldl insertOrIgnore links) ∧
      (link ∈ added.foldl insertOrIgnore links →
        link ∈ links ∨ link ∈ added ∧ ∀ other ∈ links, ¬SameKey other link) := by
  induction added generalizing links with
  | nil => exact ⟨fun member => member, fun member => .inl member⟩
  | cons first added induction =>
      refine ⟨fun member => induction.1 (mem_insert_or_ignore.mpr (.inl member)), fun member => ?_⟩
      rcases induction.2 member with inInserted | ⟨inAdded, absent⟩
      · rcases mem_insert_or_ignore.mp inInserted with before | ⟨rfl, absent⟩
        · exact .inl before
        · exact .inr ⟨List.mem_cons_self, absent⟩
      · refine .inr ⟨List.mem_cons_of_mem _ inAdded, fun other otherMem => ?_⟩
        exact absent other (mem_insert_or_ignore.mpr (.inl otherMem))

theorem mem_fetch_links {id : Int} {link : BookLink} :
    link ∈ fetchLinks taxon id ↔ ⟨link.bookId, id, link.position⟩ ∈ taxon.links := by
  unfold fetchLinks
  rw [List.mem_map]
  constructor
  · intro ⟨row, member, equal⟩
    subst equal
    obtain ⟨inLinks, isEntity⟩ := List.mem_filter.mp member
    rw [← of_decide_eq_true isEntity]
    exact inLinks
  · intro member
    exact ⟨_, List.mem_filter.mpr ⟨member, decide_eq_true rfl⟩, rfl⟩

theorem mem_linked_books {id book : Int} :
    book ∈ fetchLinkedBookIds taxon id ↔ taxon.Linked book id := by
  unfold fetchLinkedBookIds Taxon.Linked
  simp only [List.mem_map, List.mem_filter, decide_eq_true_eq]
  constructor
  · intro ⟨link, ⟨member, isEntity⟩, isBook⟩
    exact ⟨link, member, isBook, isEntity⟩
  · intro ⟨link, member, isBook, isEntity⟩
    exact ⟨link, ⟨member, isEntity⟩, isBook⟩

/-- Moving links changes only those of the canonical, which gains the books of the source. -/
theorem mem_move_links {sourceId canonicalId : Int} {link : LinkRow} :
    (link ∈ taxon.links → link ∈ (moveLinks taxon sourceId canonicalId).links) ∧
      (link ∈ (moveLinks taxon sourceId canonicalId).links → link ∈ taxon.links ∨
        link.entity = canonicalId ∧ ¬taxon.Linked link.book canonicalId ∧
          ⟨link.book, sourceId, link.position⟩ ∈ taxon.links) := by
  unfold moveLinks
  refine ⟨mem_insert_all.1, fun member => ?_⟩
  rcases mem_insert_all.2 member with before | ⟨isMoved, absent⟩
  · exact .inl before
  · obtain ⟨source, sourceMem, rfl⟩ := List.mem_map.mp isMoved
    obtain ⟨inLinks, isSource⟩ := List.mem_filter.mp sourceMem
    refine .inr ⟨rfl, ?_, ?_⟩
    · intro ⟨other, otherMem, isBook, isEntity⟩
      exact absent other otherMem ⟨isBook, isEntity⟩
    · rw [← of_decide_eq_true isSource]
      exact inLinks

end Links

section Sources

structure SourceOf (kind : MergeEntity) (db : Database) (source : MergedSource) : Prop where
  row : ⟨source.id, source.name, source.sort⟩ ∈ (db.taxa kind).rows
  links : ∀ link, link ∈ source.links ↔
    ⟨link.bookId, source.id, link.position⟩ ∈ (db.taxa kind).links
  photo : ∀ photo, source.photo = some photo ↔
    kind = .author ∧ (source.id, photo) ∈ db.photos
  previous : ∀ id, source.previousAlias = some id ↔ ⟨kind, source.name, id⟩ ∈ db.aliases

theorem fetch_row {id : Int} {found : String × Option String}
    (fetched : fetchNameSort taxon id = some found) : ⟨id, found.1, found.2⟩ ∈ taxon.rows := by
  obtain ⟨row, isRow, rfl⟩ := Option.map_eq_some_iff.mp fetched
  have isId := List.find?_some isRow
  rw [← of_decide_eq_true isId]
  exact List.mem_of_find?_eq_some isRow

theorem load_photo_iff (photos : ∀ left ∈ db.photos, ∀ right ∈ db.photos, left.1 = right.1 →
    left = right) {id : Int} {photo : Photo} :
    loadPhotoSnapshot db id = some photo ↔ (id, photo) ∈ db.photos := by
  unfold loadPhotoSnapshot
  rw [Option.map_eq_some_iff]
  constructor
  · intro ⟨pair, found, equal⟩
    subst equal
    have isId := List.find?_some found
    rw [← of_decide_eq_true isId]
    exact List.mem_of_find?_eq_some found
  · intro member
    cases found : db.photos.find? (·.1 = id) with
    | none => exact absurd (decide_eq_true rfl) (List.find?_eq_none.mp found _ member)
    | some pair =>
        have isId := List.find?_some found
        refine ⟨pair, rfl, ?_⟩
        rw [photos pair (List.mem_of_find?_eq_some found) _ member (of_decide_eq_true isId)]

theorem fetch_alias_iff {aliases : List AliasRow} (unique : ∀ left ∈ aliases, ∀ right ∈ aliases,
    left.kind = right.kind → left.aliasName = right.aliasName → left = right) {name : String}
    {id : Int} : fetchEntityAlias aliases kind name = some id ↔ ⟨kind, name, id⟩ ∈ aliases := by
  unfold fetchEntityAlias
  rw [Option.map_eq_some_iff]
  constructor
  · intro ⟨row, found, equal⟩
    subst equal
    have isFor := List.find?_some found
    obtain ⟨isKind, isName⟩ := is_for_iff.mp isFor
    rw [← isKind, ← isName]
    exact List.mem_of_find?_eq_some found
  · intro member
    cases found : aliases.find? (·.isFor kind name) with
    | none =>
        exact absurd (is_for_iff.mpr ⟨rfl, rfl⟩) (List.find?_eq_none.mp found _ member)
    | some row =>
        have isFor := List.find?_some found
        obtain ⟨isKind, isName⟩ := is_for_iff.mp isFor
        refine ⟨row, rfl, ?_⟩
        rw [unique row (List.mem_of_find?_eq_some found) _ member isKind isName]

theorem merged_source_of (photos : ∀ left ∈ db.photos, ∀ right ∈ db.photos, left.1 = right.1 →
    left = right) (aliases : ∀ left ∈ db.aliases, ∀ right ∈ db.aliases, left.kind = right.kind →
    left.aliasName = right.aliasName → left = right) {id : Int} {source : MergedSource}
    (merged : mergedSource kind db id = some source) :
    source.id = id ∧ SourceOf kind db source := by
  obtain ⟨found, fetched, rfl⟩ := Option.map_eq_some_iff.mp merged
  refine ⟨rfl, fetch_row fetched, fun link => mem_fetch_links, fun photo => ?_,
    fun id => fetch_alias_iff aliases⟩
  dsimp only
  split_ifs with isAuthor
  · simp [isAuthor, load_photo_iff photos]
  · simp [isAuthor]

end Sources

section Moved

variable {canonicalId : Int} {sourceIds : List Int} {sources : List MergedSource}

structure Sound (kind : MergeEntity) (db : Database) : Prop where
  names : ∀ left ∈ (db.taxa kind).rows, ∀ right ∈ (db.taxa kind).rows,
    sameName left.name right.name = true → left = right
  keys : Unique (db.taxa kind).links
  positions : ∀ link ∈ (db.taxa kind).links, link.position.isSome = kind.hasPosition
  photos : ∀ left ∈ db.photos, ∀ right ∈ db.photos, left.1 = right.1 → left = right
  aliases : ∀ left ∈ db.aliases, ∀ right ∈ db.aliases, left.kind = right.kind →
    left.aliasName = right.aliasName → left = right

theorem Wellformed.sound (wellformed : Wellformed db) (kind : MergeEntity) : Sound kind db :=
  ⟨wellformed.names kind, wellformed.keys kind, wellformed.positions kind, wellformed.photos,
    wellformed.aliases⟩

structure MovedExact (kind : MergeEntity) (canonicalId : Int) (sourceIds : List Int)
    (db moved : Database) (sources : List MergedSource) : Prop where
  others : ∀ other, other ≠ kind → moved.taxa other = db.taxa other
  rows : (moved.taxa kind).rows = (db.taxa kind).rows
  lastId : (moved.taxa kind).lastId = (db.taxa kind).lastId
  overrides : (moved.taxa kind).overrideNames = (db.taxa kind).overrideNames
  photos : moved.photos = db.photos
  ignored : moved.ignored = db.ignored
  ids : sources.map (·.id) = sourceIds
  told : ∀ source ∈ sources, SourceOf kind db source
  sound : Sound kind moved
  apart : ∀ link, link.entity ∉ sourceIds → link.entity ≠ canonicalId →
    (link ∈ (moved.taxa kind).links ↔ link ∈ (db.taxa kind).links)
  gone : ∀ link ∈ (moved.taxa kind).links, link.entity ∉ sourceIds
  kept : ∀ link ∈ (db.taxa kind).links, link.entity = canonicalId → link ∈ (moved.taxa kind).links
  gained : ∀ link ∈ (moved.taxa kind).links, link.entity = canonicalId →
    link ∈ (db.taxa kind).links ∨ ¬(db.taxa kind).Linked link.book canonicalId ∧
      ∃ source ∈ sources, ∃ given ∈ source.links, given.bookId = link.book

theorem absorb_taxon (source : MergedSource) : (absorb kind canonicalId db source).taxa kind =
    deleteLinks (moveLinks (db.taxa kind) source.id canonicalId) source.id :=
  set_taxon_same ..

theorem mem_absorb_links {source : MergedSource} {link : LinkRow} :
    (link ∈ (db.taxa kind).links → link.entity ≠ source.id →
        link ∈ ((absorb kind canonicalId db source).taxa kind).links) ∧
      (link ∈ ((absorb kind canonicalId db source).taxa kind).links → link.entity ≠ source.id ∧
        (link ∈ (db.taxa kind).links ∨ link.entity = canonicalId ∧
          ¬(db.taxa kind).Linked link.book canonicalId ∧
            ⟨link.book, source.id, link.position⟩ ∈ (db.taxa kind).links)) := by
  rw [absorb_taxon]
  refine ⟨fun member apart => ?_, fun member => ?_⟩
  · exact List.mem_filter.mpr ⟨mem_move_links.1 member, decide_eq_true apart⟩
  · obtain ⟨inMoved, apart⟩ := List.mem_filter.mp member
    exact ⟨of_decide_eq_true apart, mem_move_links.2 inMoved⟩

theorem write_alias_unique {aliases : List AliasRow} (unique : ∀ left ∈ aliases,
    ∀ right ∈ aliases, left.kind = right.kind → left.aliasName = right.aliasName → left = right)
    (name : String) (id : Int) : ∀ left ∈ writeEntityAlias aliases kind name id,
      ∀ right ∈ writeEntityAlias aliases kind name id, left.kind = right.kind →
        left.aliasName = right.aliasName → left = right := by
  intro left leftMem right rightMem sameKind same
  rcases (mem_write_alias id).mp leftMem with ⟨leftOld, leftOther⟩ | rfl
  · rcases (mem_write_alias id).mp rightMem with ⟨rightOld, _⟩ | rfl
    · exact unique left leftOld right rightOld sameKind same
    · exact absurd (is_for_iff.mpr ⟨sameKind, same⟩) (Bool.eq_false_iff.mp leftOther)
  · rcases (mem_write_alias id).mp rightMem with ⟨rightOld, rightOther⟩ | rfl
    · exact absurd (is_for_iff.mpr ⟨sameKind.symm, same.symm⟩) (Bool.eq_false_iff.mp rightOther)
    · rfl

theorem Sound.absorb (sound : Sound kind db) (source : MergedSource) :
    Sound kind (absorb kind canonicalId db source) := by
  constructor
  · rw [absorb_taxon]
    exact sound.names
  · rw [absorb_taxon]
    intro left leftMem right rightMem
    exact insert_all_unique sound.keys left (List.mem_filter.mp leftMem).1 right
      (List.mem_filter.mp rightMem).1
  · intro link member
    obtain ⟨_, before | ⟨_, _, moved⟩⟩ := mem_absorb_links.2 member
    · exact sound.positions link before
    · exact sound.positions ⟨link.book, source.id, link.position⟩ moved
  · exact sound.photos
  · exact write_alias_unique sound.aliases source.name canonicalId

theorem SourceOf.of_absorb {first source : MergedSource} (sound : Sound kind db)
    (isFirst : SourceOf kind db first) (apart : source.id ≠ first.id)
    (notCanonical : source.id ≠ canonicalId)
    (told : SourceOf kind (absorb kind canonicalId db first) source) :
    SourceOf kind db source := by
  have row : ⟨source.id, source.name, source.sort⟩ ∈ (db.taxa kind).rows := by
    have live := told.row
    rw [absorb_taxon] at live
    exact live
  have names : first.name ≠ source.name := fun same => apart (by
    have isSame := sound.names _ row _ isFirst.row (by simp [same, same_name_refl])
    exact congrArg EntityRow.id isSame)
  constructor
  · exact row
  · intro link
    rw [told.links]
    constructor
    · intro member
      obtain ⟨_, before | ⟨isCanonical, _⟩⟩ := mem_absorb_links.2 member
      · exact before
      · exact absurd isCanonical notCanonical
    · exact fun member => mem_absorb_links.1 member apart
  · exact told.photo
  · intro id
    rw [told.previous]
    refine (mem_write_alias canonicalId).trans ⟨?_, fun member => .inl ⟨member, ?_⟩⟩
    · rintro (⟨before, _⟩ | same)
      · exact before
      · exact absurd (congrArg AliasRow.aliasName same).symm names
    · exact Bool.eq_false_iff.mpr fun isFor => names (is_for_iff.mp isFor).2.symm

theorem moved_exact {moved : Database} (sound : Sound kind db) (distinct : sourceIds.Nodup)
    (notSource : canonicalId ∉ sourceIds)
    (isMoved : moveSourceLinks kind canonicalId sourceIds db = some (moved, sources)) :
    MovedExact kind canonicalId sourceIds db moved sources := by
  induction sourceIds generalizing db sources with
  | nil =>
      cases isMoved
      exact ⟨fun _ _ => rfl, rfl, rfl, rfl, rfl, rfl, rfl, by simp, sound, fun _ _ _ => Iff.rfl,
        by simp, fun _ member _ => member, fun _ member _ => .inl member⟩
  | cons sourceId rest induction =>
      obtain ⟨first, isFirst, later⟩ := Option.bind_eq_some_iff.mp isMoved
      obtain ⟨⟨last, others⟩, movedRest, isResult⟩ := Option.map_eq_some_iff.mp later
      cases isResult
      obtain ⟨rfl, told⟩ := merged_source_of sound.photos sound.aliases isFirst
      rw [List.mem_cons, not_or] at notSource
      obtain ⟨newId, restDistinct⟩ := List.nodup_cons.mp distinct
      have ih := induction (sound.absorb first) restDistinct notSource.2 movedRest
      have rows : ((absorb kind canonicalId db first).taxa kind).rows = (db.taxa kind).rows := by
        rw [absorb_taxon]
        rfl
      have toldRest (source : MergedSource) (member : source ∈ others) :
          SourceOf kind db source := by
        have inRest : source.id ∈ rest := ih.ids ▸ List.mem_map_of_mem member
        have notCanonical : source.id ≠ canonicalId := fun same => notSource.2 (same ▸ inRest)
        exact told.of_absorb sound (fun same => newId (same ▸ inRest)) notCanonical
          (ih.told source member)
      constructor
      · intro other apart
        rw [ih.others other apart]
        exact set_taxon_other apart _
      · exact ih.rows.trans rows
      · rw [ih.lastId, absorb_taxon]
        rfl
      · rw [ih.overrides, absorb_taxon]
        rfl
      · exact ih.photos
      · exact ih.ignored
      · rw [List.map_cons, ih.ids]
      · intro source member
        rcases List.mem_cons.mp member with rfl | inRest
        · exact told
        · exact toldRest source inRest
      · exact ih.sound
      · intro link notIn notCanonical
        rw [List.mem_cons, not_or] at notIn
        rw [ih.apart link notIn.2 notCanonical]
        refine ⟨fun member => ?_, fun member => mem_absorb_links.1 member notIn.1⟩
        obtain ⟨_, before | ⟨isCanonical, _⟩⟩ := mem_absorb_links.2 member
        · exact before
        · exact absurd isCanonical notCanonical
      · intro link member inIds
        rcases List.mem_cons.mp inIds with isFirst | inRest
        · have before := (ih.apart link (isFirst ▸ newId) (isFirst ▸ Ne.symm notSource.1)).mp member
          exact (mem_absorb_links.2 before).1 isFirst
        · exact ih.gone link member inRest
      · intro link member isCanonical
        exact ih.kept link (mem_absorb_links.1 member (isCanonical ▸ notSource.1)) isCanonical
      · intro link member isCanonical
        rcases ih.gained link member isCanonical with inFirst | ⟨unlinked, source, sourceMem, given⟩
        · obtain ⟨_, before | ⟨_, unlinked, given⟩⟩ := mem_absorb_links.2 inFirst
          · exact .inl before
          · exact .inr ⟨unlinked, first, List.mem_cons_self, ⟨link.book, link.position⟩,
              (told.links _).mpr given, rfl⟩
        · refine .inr ⟨fun linked => unlinked ?_, source, List.mem_cons_of_mem _ sourceMem, given⟩
          exact (absorb_linked first link.book canonicalId).mpr ⟨.inl linked, notSource.1⟩

end Moved

section Reconciled

variable {canonicalId : Int}

/-- A row with the sort it is given, where it is the canonical and its sort was backfilled. -/
def sortedRow (backfilled : Bool) (canonicalId : Int) (sort : Option String) (row : EntityRow) :
    EntityRow :=
  if backfilled = true ∧ row.id = canonicalId then { row with sort } else row

@[simp] theorem sorted_row_id (backfilled : Bool) (sort : Option String) (row : EntityRow) :
    (sortedRow backfilled canonicalId sort row).id = row.id := by
  unfold sortedRow
  split_ifs <;> rfl

@[simp] theorem sorted_row_name (backfilled : Bool) (sort : Option String) (row : EntityRow) :
    (sortedRow backfilled canonicalId sort row).name = row.name := by
  unfold sortedRow
  split_ifs <;> rfl

structure Reconciled (kind : MergeEntity) (canonicalId : Int) (sortBefore : Option String)
    (backfilled : Bool) (before after : Database) : Prop where
  others : ∀ other, other ≠ kind → after.taxa other = before.taxa other
  sorted : ∃ sort, after.taxa kind = { before.taxa kind with
    rows := (before.taxa kind).rows.map (sortedRow backfilled canonicalId sort) }
  unsorted : backfilled = true → sortBefore = none ∧ kind.hasSort = true
  aliases : after.aliases = before.aliases
  ignored : after.ignored = before.ignored
  otherPhotos : ∀ photo, photo.1 ≠ canonicalId → (photo ∈ after.photos ↔ photo ∈ before.photos)
  samePhotos : kind ≠ .author → after.photos = before.photos
  photos : (∀ left ∈ before.photos, ∀ right ∈ before.photos, left.1 = right.1 → left = right) →
    ∀ left ∈ after.photos, ∀ right ∈ after.photos, left.1 = right.1 → left = right

theorem mem_write_photo {id : Int} {photo : Photo} (written : writePhoto db id photo = some after)
    (pair : Int × Photo) : pair ∈ after.photos ↔
      (pair ∈ db.photos ∧ pair.1 ≠ id) ∨ pair = (id, photo) := by
  unfold writePhoto at written
  split_ifs at written
  cases written
  simp

theorem write_photo_taxa {id : Int} {photo : Photo}
    (written : writePhoto db id photo = some after) :
    after.taxa = db.taxa ∧ after.aliases = db.aliases ∧ after.ignored = db.ignored := by
  unfold writePhoto at written
  split_ifs at written
  cases written
  exact ⟨rfl, rfl, rfl⟩

theorem write_photo_live {id : Int} (photo : Photo)
    (live : ∃ row ∈ (db.taxa .author).rows, row.id = id) :
    ∃ after, writePhoto db id photo = some after := by
  obtain ⟨row, member, isId⟩ := live
  refine ⟨_, if_pos ?_⟩
  exact List.any_eq_true.mpr ⟨row, member, decide_eq_true isId⟩

theorem write_photo_unique {id : Int} {photo : Photo}
    (written : writePhoto db id photo = some after)
    (photos : ∀ left ∈ db.photos, ∀ right ∈ db.photos, left.1 = right.1 → left = right) :
    ∀ left ∈ after.photos, ∀ right ∈ after.photos, left.1 = right.1 → left = right := by
  intro left leftMem right rightMem same
  rcases (mem_write_photo written left).mp leftMem with ⟨leftOld, leftOther⟩ | rfl
  · rcases (mem_write_photo written right).mp rightMem with ⟨rightOld, _⟩ | rfl
    · exact photos left leftOld right rightOld same
    · exact absurd same leftOther
  · rcases (mem_write_photo written right).mp rightMem with ⟨_, rightOther⟩ | rfl
    · exact absurd same.symm rightOther
    · rfl

theorem reconcile_exact {sortBefore : Option String} {photoBefore : Option Photo}
    {sources : List MergedSource} {backfilled : Bool}
    (reconciled : reconcilePhotosAndSort kind canonicalId sortBefore photoBefore sources db =
      some (after, backfilled)) :
    Reconciled kind canonicalId sortBefore backfilled db after := by
  unfold reconcilePhotosAndSort at reconciled
  dsimp only at reconciled
  obtain ⟨result, written, isResult⟩ := Option.map_eq_some_iff.mp reconciled
  cases isResult
  have given : (if kind.hasSort && sortBefore.isNone then sources.findSome? (·.sort) else none).isSome
      = true → sortBefore = none ∧ kind.hasSort = true := by
    intro isSome
    split_ifs at isSome with unsorted
    · simp only [Bool.and_eq_true, Option.isNone_iff_eq_none] at unsorted
      exact ⟨unsorted.2, unsorted.1⟩
    · cases isSome
  generalize (if kind.hasSort && sortBefore.isNone then sources.findSome? (·.sort) else none) = sort
    at written given
  -- the sort first
  have sorted : Reconciled kind canonicalId sortBefore sort.isSome db (if sort.isSome then
      db.setTaxon kind (setSort (db.taxa kind) canonicalId sort) else db) := by
    cases sort with
    | none =>
        refine ⟨fun _ _ => rfl, ⟨none, ?_⟩, given, rfl, rfl, fun _ _ => Iff.rfl, fun _ => rfl,
          fun photos => photos⟩
        have same : (db.taxa kind).rows.map (sortedRow false canonicalId none) =
            (db.taxa kind).rows := by
          refine (List.map_congr_left fun row _ => ?_).trans (List.map_id _)
          simp [sortedRow]
        simp [same]
    | some sort =>
        refine ⟨fun other apart => set_taxon_other apart _, ⟨some sort, ?_⟩, given, rfl, rfl,
          fun _ _ => Iff.rfl, fun _ => rfl, fun photos => photos⟩
        apply (set_taxon_same _).trans
        unfold setSort
        simp [sortedRow]
  generalize (if sort.isSome then
    db.setTaxon kind (setSort (db.taxa kind) canonicalId sort) else db) = middle at written sorted
  by_cases isAuthor : kind = .author
  · rw [if_pos isAuthor] at written
    split at written
    · obtain ⟨taxa, aliases, ignored⟩ := write_photo_taxa written
      constructor
      · rw [taxa]
        exact sorted.others
      · rw [taxa]
        exact sorted.sorted
      · exact sorted.unsorted
      · exact aliases.trans sorted.aliases
      · exact ignored.trans sorted.ignored
      · intro pair other
        rw [mem_write_photo written, sorted.otherPhotos pair other]
        refine ⟨fun member => member.elim And.left fun same => ?_, fun member => .inl ⟨member, other⟩⟩
        exact absurd (congrArg Prod.fst same) other
      · exact fun notAuthor => absurd isAuthor notAuthor
      · exact fun photos => write_photo_unique written (sorted.photos photos)
    · cases written
      exact sorted
  · rw [if_neg isAuthor] at written
    cases written
    exact sorted

end Reconciled

section Merge

variable {canonicalId : Int} {sourceIds : List Int} {snapshot : MergeSnapshot}

/-- What a merge leaves, row by row, and what its snapshot keeps. -/
structure MergeExact (kind : MergeEntity) (sourceIds : List Int) (canonicalId : Int)
    (db after : Database) (snapshot : MergeSnapshot) : Prop where
  canonical : snapshot.canonicalId = canonicalId
  notSource : canonicalId ∉ sourceIds
  live : ∃ row ∈ (db.taxa kind).rows, row.id = canonicalId
  ids : snapshot.sources.map (·.id) = sourceIds
  told : ∀ source ∈ snapshot.sources, SourceOf kind db source
  books : ∀ book, book ∈ snapshot.canonicalBookIdsBefore ↔ (db.taxa kind).Linked book canonicalId
  unsorted : snapshot.canonicalSortWasBackfilled = true → kind.hasSort = true ∧
    ∀ row ∈ (db.taxa kind).rows, row.id = canonicalId → row.sort = none
  photoBefore : kind = .author → ∀ photo, snapshot.canonicalPhotoBefore = some photo ↔
    (canonicalId, photo) ∈ db.photos
  others : ∀ other, other ≠ kind → after.taxa other = db.taxa other
  lastId : (after.taxa kind).lastId = (db.taxa kind).lastId
  overrides : (after.taxa kind).overrideNames = (db.taxa kind).overrideNames
  rows : ∃ sort, ∀ row, row ∈ (after.taxa kind).rows ↔ ∃ old ∈ (db.taxa kind).rows,
    old.id ∉ sourceIds ∧ sortedRow snapshot.canonicalSortWasBackfilled canonicalId sort old = row
  unique : Unique (after.taxa kind).links
  positions : ∀ link ∈ (after.taxa kind).links, link.position.isSome = kind.hasPosition
  apart : ∀ link, link.entity ∉ sourceIds → link.entity ≠ canonicalId →
    (link ∈ (after.taxa kind).links ↔ link ∈ (db.taxa kind).links)
  gone : ∀ link ∈ (after.taxa kind).links, link.entity ∉ sourceIds
  kept : ∀ link ∈ (db.taxa kind).links, link.entity = canonicalId → link ∈ (after.taxa kind).links
  gained : ∀ link ∈ (after.taxa kind).links, link.entity = canonicalId →
    link ∈ (db.taxa kind).links ∨ ¬(db.taxa kind).Linked link.book canonicalId ∧
      ∃ source ∈ snapshot.sources, ∃ given ∈ source.links, given.bookId = link.book
  otherPhotos : ∀ photo, photo.1 ≠ canonicalId →
    (photo ∈ after.photos ↔ photo ∈ db.photos ∧ ¬(kind = .author ∧ photo.1 ∈ sourceIds))
  samePhotos : kind ≠ .author → ∀ photo, photo ∈ after.photos ↔ photo ∈ db.photos
  uniquePhotos : ∀ left ∈ after.photos, ∀ right ∈ after.photos, left.1 = right.1 → left = right
  pictured : ∀ photo ∈ after.photos, ∃ row ∈ (after.taxa .author).rows, row.id = photo.1
  ignored : after.ignored = db.ignored
  uniqueAliases : ∀ left ∈ after.aliases, ∀ right ∈ after.aliases, left.kind = right.kind →
    left.aliasName = right.aliasName → left = right
  aliases : ∀ row, row ∈ after.aliases ↔
    (row ∈ db.aliases ∧ ∀ source ∈ snapshot.sources, row.isFor kind source.name = false) ∨
      ∃ source ∈ snapshot.sources, row = ⟨kind, source.name, canonicalId⟩

theorem delete_rows_taxon (ids : List Int) (taxon : Taxon) :
    ids.foldl deleteEntityRow taxon = { taxon with rows := taxon.rows.filter (·.id ∉ ids) } := by
  induction ids generalizing taxon with
  | nil => simp
  | cons id ids induction =>
      rw [List.foldl_cons, induction]
      unfold deleteEntityRow
      simp only [List.filter_filter, Taxon.mk.injEq, and_true]
      apply List.filter_congr
      intro row _
      simp [Bool.and_comm]

theorem reap_exact {moved reconciled : Database} {sources : List MergedSource} {backfilled : Bool}
    {sort : Option String} (referenced : Referenced db)
    (exactMove : MovedExact kind canonicalId sourceIds db moved sources)
    (others : ∀ other, other ≠ kind → reconciled.taxa other = moved.taxa other)
    (sorted : reconciled.taxa kind = { moved.taxa kind with
      rows := (moved.taxa kind).rows.map (sortedRow backfilled canonicalId sort) }) :
    (∀ other, other ≠ kind →
      (deleteSourcesAndReapTaxonomy kind sourceIds reconciled).taxa other = db.taxa other) ∧
    (deleteSourcesAndReapTaxonomy kind sourceIds reconciled).taxa kind = { moved.taxa kind with
      rows := ((db.taxa kind).rows.map (sortedRow backfilled canonicalId sort)).filter
        (·.id ∉ sourceIds) } ∧
    ∀ photo, photo ∈ (deleteSourcesAndReapTaxonomy kind sourceIds reconciled).photos ↔
      photo ∈ reconciled.photos ∧ ∃ row ∈ ((deleteSourcesAndReapTaxonomy kind sourceIds
        reconciled).taxa .author).rows, row.id = photo.1 := by
  -- the tables when the sources are deleted, before the sweep
  have deletedKind : ((reconciled.setTaxon kind
      (sourceIds.foldl deleteEntityRow (reconciled.taxa kind))).taxa kind) =
        { moved.taxa kind with
          rows := ((db.taxa kind).rows.map (sortedRow backfilled canonicalId sort)).filter
            (·.id ∉ sourceIds) } := by
    rw [set_taxon_same, delete_rows_taxon, sorted, exactMove.rows]
  have deletedOther (other : MergeEntity) (apart : other ≠ kind) : ((reconciled.setTaxon kind
      (sourceIds.foldl deleteEntityRow (reconciled.taxa kind))).taxa other) = db.taxa other := by
    rw [set_taxon_other apart, others other apart, exactMove.others other apart]
  unfold deleteSourcesAndReapTaxonomy
  generalize isDeleted : reconciled.setTaxon kind
    (sourceIds.foldl deleteEntityRow (reconciled.taxa kind)) = deleted at deletedKind deletedOther
  have justifiedAll : Referenced deleted.cascadePhotos := by
    intro other row member
    change row ∈ (deleted.taxa other).rows at member
    change justified other (deleted.taxa other) row = true
    by_cases same : other = kind
    · subst same
      rw [deletedKind] at member ⊢
      obtain ⟨inRows, notSource⟩ := List.mem_filter.mp member
      obtain ⟨old, oldMem, rfl⟩ := List.mem_map.mp inRows
      have notIn : old.id ∉ sourceIds := by simpa using notSource
      rw [justified_iff, sorted_row_id, sorted_row_name]
      refine (justified_iff.mp (referenced other old oldMem)).imp ?_ fun named => ?_
      · intro ⟨book, link, linkMem, isBook, isEntity⟩
        refine ⟨book, link, ?_, isBook, isEntity⟩
        by_cases isCanonical : link.entity = canonicalId
        · exact exactMove.kept link linkMem isCanonical
        · exact (exactMove.apart link (isEntity ▸ notIn) isCanonical).mpr linkMem
      · change _ ∧ ∃ name ∈ (moved.taxa other).overrideNames, _
        rw [exactMove.overrides]
        exact named
    · rw [deletedOther other same] at member ⊢
      exact referenced other row member
  have taxa (other : MergeEntity) : (deleteOrphanTaxonomy deleted.cascadePhotos).taxa other =
      deleted.taxa other := sweep_taxa justifiedAll other
  have photos : deleted.photos = reconciled.photos := by
    rw [← isDeleted]
    rfl
  refine ⟨fun other apart => (taxa other).trans (deletedOther other apart),
    (taxa kind).trans deletedKind, fun photo => ?_⟩
  rw [taxa, mem_swept_photos justifiedAll, mem_cascade_photos, photos, and_assoc]
  exact and_congr_right fun _ => and_self_iff

theorem apply_merge_exact (wellformed : Wellformed db) (referenced : Referenced db)
    (distinct : sourceIds.Nodup)
    (applied : applyMerge kind sourceIds canonicalId db = some (after, snapshot)) :
    MergeExact kind sourceIds canonicalId db after snapshot := by
  have merged := apply_merge_merged applied
  obtain ⟨_, name, sortBefore, moved, sources, reconciled, backfilled, fetched, isMoved,
    isReconciled, rfl, rfl⟩ := apply_merge_steps applied
  have exactMove := moved_exact (wellformed.sound kind) distinct merged.apart isMoved
  have exactSort := reconcile_exact isReconciled
  have canonicalRow := fetch_row fetched
  obtain ⟨sort, sortedTaxon⟩ := exactSort.sorted
  obtain ⟨others, taxon, memPhotos⟩ := reap_exact referenced exactMove exactSort.others sortedTaxon
  have memRows (row : EntityRow) :
      row ∈ ((deleteSourcesAndReapTaxonomy kind sourceIds reconciled).taxa kind).rows ↔
        ∃ old ∈ (db.taxa kind).rows,
          old.id ∉ sourceIds ∧ sortedRow backfilled canonicalId sort old = row := by
    rw [taxon]
    simp only [List.mem_filter, List.mem_map, decide_eq_true_eq]
    constructor
    · intro ⟨⟨old, oldMem, equal⟩, notIn⟩
      subst equal
      exact ⟨old, oldMem, by simpa using notIn, rfl⟩
    · intro ⟨old, oldMem, notIn, equal⟩
      subst equal
      exact ⟨⟨old, oldMem, rfl⟩, by simpa using notIn⟩
  have uniqueBefore := exactSort.photos (exactMove.photos.symm ▸ wellformed.photos)
  constructor
  · rfl
  · exact merged.apart
  · exact ⟨_, canonicalRow, rfl⟩
  · exact exactMove.ids
  · exact exactMove.told
  · exact fun book => mem_linked_books
  · intro isBackfilled
    obtain ⟨noSort, hasSort⟩ := exactSort.unsorted isBackfilled
    refine ⟨hasSort, fun row member isId => ?_⟩
    rw [wellformed.ids kind row member _ canonicalRow isId]
    exact noSort
  · intro isAuthor photo
    dsimp only
    rw [if_pos isAuthor]
    exact load_photo_iff wellformed.photos
  · exact others
  · rw [taxon]
    exact exactMove.lastId
  · rw [taxon]
    exact exactMove.overrides
  · exact ⟨sort, memRows⟩
  · rw [taxon]
    exact exactMove.sound.keys
  · rw [taxon]
    exact exactMove.sound.positions
  · rw [taxon]
    exact exactMove.apart
  · rw [taxon]
    exact exactMove.gone
  · rw [taxon]
    exact exactMove.kept
  · rw [taxon]
    exact exactMove.gained
  · intro photo other
    rw [memPhotos, exactSort.otherPhotos photo other, exactMove.photos]
    apply and_congr_right
    intro member
    obtain ⟨row, rowMem, isId⟩ := wellformed.pictured photo member
    by_cases isAuthor : kind = .author
    · subst isAuthor
      constructor
      · intro ⟨live, liveMem, isPhoto⟩ ⟨_, inIds⟩
        obtain ⟨old, _, notIn, rfl⟩ := (memRows live).mp liveMem
        rw [sorted_row_id] at isPhoto
        exact notIn (isPhoto ▸ inIds)
      · intro kept
        refine ⟨_, (memRows _).mpr ⟨row, rowMem, fun inIds => kept ⟨rfl, isId ▸ inIds⟩, rfl⟩, ?_⟩
        rw [sorted_row_id]
        exact isId
    · rw [others .author (Ne.symm isAuthor)]
      exact ⟨fun _ both => isAuthor both.1, fun _ => ⟨row, rowMem, isId⟩⟩
  · intro notAuthor photo
    rw [memPhotos, exactSort.samePhotos notAuthor, exactMove.photos,
      others .author (Ne.symm notAuthor)]
    exact ⟨And.left, fun member => ⟨member, wellformed.pictured photo member⟩⟩
  · intro left leftMem right rightMem
    exact uniqueBefore left ((memPhotos left).mp leftMem).1 right ((memPhotos right).mp rightMem).1
  · exact fun photo member => ((memPhotos photo).mp member).2
  · exact exactSort.ignored.trans exactMove.ignored
  · have aliases : (deleteSourcesAndReapTaxonomy kind sourceIds reconciled).aliases =
        moved.aliases := exactSort.aliases
    rw [aliases]
    exact exactMove.sound.aliases
  · exact merged.aliases

theorem apply_merge_referenced
    (applied : applyMerge kind sourceIds canonicalId db = some (after, snapshot)) :
    Referenced after := by
  obtain ⟨_, _, _, _, _, reconciled, _, _, _, _, rfl, _⟩ := apply_merge_steps applied
  exact swept_referenced _

theorem MergeExact.stays (spec : MergeExact kind sourceIds canonicalId db after snapshot)
    {row : EntityRow} (member : row ∈ (db.taxa kind).rows) (notIn : row.id ∉ sourceIds) :
    ∃ kept ∈ (after.taxa kind).rows, kept.id = row.id := by
  obtain ⟨sort, rows⟩ := spec.rows
  exact ⟨_, (rows _).mpr ⟨row, member, notIn, rfl⟩, sorted_row_id _ _ row⟩

theorem MergeExact.wellformed (spec : MergeExact kind sourceIds canonicalId db after snapshot)
    (before : Wellformed db) : Wellformed after := by
  obtain ⟨sort, rows⟩ := spec.rows
  refine before.of_taxon spec.others ⟨?_, ?_, ?_, ?_, spec.unique, spec.positions, ?_⟩
    spec.pictured spec.uniquePhotos spec.uniqueAliases
  · intro left leftMem right rightMem sameId
    obtain ⟨leftOld, leftIn, _, rfl⟩ := (rows left).mp leftMem
    obtain ⟨rightOld, rightIn, _, rfl⟩ := (rows right).mp rightMem
    rw [sorted_row_id, sorted_row_id] at sameId
    rw [before.ids kind leftOld leftIn rightOld rightIn sameId]
  · intro row member
    obtain ⟨old, oldIn, _, rfl⟩ := (rows row).mp member
    rw [sorted_row_id, spec.lastId]
    exact before.bounded kind old oldIn
  · intro left leftMem right rightMem sameName
    obtain ⟨leftOld, leftIn, _, rfl⟩ := (rows left).mp leftMem
    obtain ⟨rightOld, rightIn, _, rfl⟩ := (rows right).mp rightMem
    rw [sorted_row_name, sorted_row_name] at sameName
    rw [before.names kind leftOld leftIn rightOld rightIn sameName]
  · intro unsorted row member
    obtain ⟨old, oldIn, _, rfl⟩ := (rows row).mp member
    unfold sortedRow
    split_ifs with backfilled
    · have hasSort := (spec.unsorted backfilled.1).1
      rw [unsorted] at hasSort
      cases hasSort
    · exact before.sorts kind unsorted old oldIn
  · intro link member
    have notIn := spec.gone link member
    by_cases isCanonical : link.entity = canonicalId
    · obtain ⟨row, rowMem, isId⟩ := spec.live
      rw [isCanonical, ← isId]
      exact spec.stays rowMem (isId ▸ spec.notSource)
    · obtain ⟨row, rowMem, isId⟩ := before.linked kind link
        ((spec.apart link notIn isCanonical).mp member)
      rw [← isId]
      exact spec.stays rowMem (isId ▸ notIn)

end Merge

end Omnibus.Cleanup
