import Omnibus.Cleanup.Recreated

/-!
# Libraries up to the ids of their rows

Two libraries that differ in row ids only, and the undo of a merge: replayed on a library that
is the merged one up to ids it gives the library before the merge up to ids.
-/

namespace Omnibus.Cleanup

variable {kind : MergeEntity} {db after other : Database} {rename : MergeEntity → Int → Int}

section Renamed

/-- The other library has the same names and sorts, links, photos, ignored names and aliases,
under ids of its own; a table counts as the set of its rows. -/
structure Renamed (rename : MergeEntity → Int → Int) (db other : Database) : Prop where
  apart : ∀ kind, ∀ left ∈ (db.taxa kind).rows, ∀ right ∈ (db.taxa kind).rows,
    rename kind left.id = rename kind right.id → left.id = right.id
  rows : ∀ kind row, row ∈ (other.taxa kind).rows ↔
    ∃ old ∈ (db.taxa kind).rows, row = ⟨rename kind old.id, old.name, old.sort⟩
  overrides : ∀ kind, (other.taxa kind).overrideNames = (db.taxa kind).overrideNames
  links : ∀ kind link, link ∈ (other.taxa kind).links ↔
    ∃ old ∈ (db.taxa kind).links, link = ⟨old.book, rename kind old.entity, old.position⟩
  photos : ∀ pair, pair ∈ other.photos ↔
    ∃ old ∈ db.photos, pair = (rename .author old.1, old.2)
  ignored : ∀ name, name ∈ other.ignored ↔ name ∈ db.ignored
  aliases : ∀ row, row ∈ other.aliases ↔
    ∃ old ∈ db.aliases, row = ⟨old.kind, old.aliasName, rename old.kind old.canonicalId⟩

theorem Renamed.refl (db : Database) : Renamed (fun _ id => id) db db := by
  constructor
  · exact fun _ _ _ _ _ same => same
  · exact fun _ row => ⟨fun member => ⟨row, member, rfl⟩, fun ⟨_, member, same⟩ => same ▸ member⟩
  · exact fun _ => rfl
  · exact fun _ link => ⟨fun member => ⟨link, member, rfl⟩, fun ⟨_, member, same⟩ => same ▸ member⟩
  · exact fun pair => ⟨fun member => ⟨pair, member, rfl⟩, fun ⟨_, member, same⟩ => same ▸ member⟩
  · exact fun _ => Iff.rfl
  · exact fun row => ⟨fun member => ⟨row, member, rfl⟩, fun ⟨_, member, same⟩ => same ▸ member⟩

/-- Nothing differs but the ids of rows; an id that names no row is the same in both. -/
structure SameUpToIds (rename : MergeEntity → Int → Int) (db other : Database) : Prop extends
    Renamed rename db other where
  unused : ∀ kind id, (∀ row ∈ (db.taxa kind).rows, row.id ≠ id) → rename kind id = id

theorem Renamed.same_up_to_ids (wellformed : Wellformed db) (renamed : Renamed rename db other)
    (aliases : ∀ row ∈ db.aliases, rename row.kind row.canonicalId = row.canonicalId) :
    ∃ rename, SameUpToIds rename db other := by
  let ofRows (kind : MergeEntity) (id : Int) : Int :=
    if ∃ row ∈ (db.taxa kind).rows, row.id = id then rename kind id else id
  have live {kind : MergeEntity} {id : Int} (isRow : ∃ row ∈ (db.taxa kind).rows, row.id = id) :
      ofRows kind id = rename kind id := if_pos isRow
  refine ⟨ofRows, ⟨?_, ?_, renamed.overrides, ?_, ?_, renamed.ignored, ?_⟩, ?_⟩
  · intro kind left leftMem right rightMem same
    rw [live ⟨left, leftMem, rfl⟩, live ⟨right, rightMem, rfl⟩] at same
    exact renamed.apart kind left leftMem right rightMem same
  · intro kind row
    rw [renamed.rows]
    refine exists_congr fun old => and_congr_right fun member => ?_
    rw [live ⟨old, member, rfl⟩]
  · intro kind link
    rw [renamed.links]
    refine exists_congr fun old => and_congr_right fun member => ?_
    rw [live (wellformed.linked kind old member)]
  · intro pair
    rw [renamed.photos]
    refine exists_congr fun old => and_congr_right fun member => ?_
    rw [live (wellformed.pictured old member)]
  · intro row
    rw [renamed.aliases]
    refine exists_congr fun old => and_congr_right fun member => ?_
    have same : ofRows old.kind old.canonicalId = rename old.kind old.canonicalId := by
      dsimp only [ofRows]
      split
      · rfl
      · exact (aliases old member).symm
    rw [same]
  · intro kind id none'
    exact if_neg fun isRow => isRow.elim fun row named => none' row named.1 named.2

def GivenOut (db : Database) : Prop :=
  ∀ kind, ∀ row ∈ (db.taxa kind).rows, row.id ≤ (db.taxa kind).lastId

theorem Renamed.row_mem (renamed : Renamed rename db other) {row : EntityRow}
    (member : row ∈ (db.taxa kind).rows) :
    ⟨rename kind row.id, row.name, row.sort⟩ ∈ (other.taxa kind).rows :=
  (renamed.rows kind _).mpr ⟨row, member, rfl⟩

theorem Renamed.id_le (renamed : Renamed rename db other) (givenOut : GivenOut other)
    {row : EntityRow} (member : row ∈ (db.taxa kind).rows) :
    rename kind row.id ≤ (other.taxa kind).lastId :=
  givenOut kind _ (renamed.row_mem member)

theorem Renamed.bounded (wellformed : Wellformed db) (renamed : Renamed rename db other)
    (givenOut : GivenOut other) (kind : MergeEntity) : Bounded kind other := by
  constructor
  · exact givenOut kind
  · intro link member
    obtain ⟨old, oldMem, rfl⟩ := (renamed.links kind link).mp member
    obtain ⟨row, rowMem, isId⟩ := wellformed.linked kind old oldMem
    dsimp only
    rw [← isId]
    exact renamed.id_le givenOut rowMem
  · intro equal photo member
    subst equal
    obtain ⟨old, oldMem, rfl⟩ := (renamed.photos photo).mp member
    obtain ⟨row, rowMem, isId⟩ := wellformed.pictured old oldMem
    dsimp only
    rw [← isId]
    exact renamed.id_le givenOut rowMem

/-- The renaming with other ids for those of one taxonomy that come back. -/
def reassign (rename : MergeEntity → Int → Int) (kind : MergeEntity) (ids : List Int)
    (fresh : Int → Int) (other : MergeEntity) (id : Int) : Int :=
  if other = kind ∧ id ∈ ids then fresh id else rename other id

variable {ids : List Int} {fresh : Int → Int} {id : Int}

theorem reassign_in (member : id ∈ ids) : reassign rename kind ids fresh kind id = fresh id :=
  if_pos ⟨rfl, member⟩

theorem reassign_out (notIn : id ∉ ids) :
    reassign rename kind ids fresh kind id = rename kind id :=
  if_neg fun both => notIn both.2

theorem reassign_other {another : MergeEntity} (apart : another ≠ kind) :
    reassign rename kind ids fresh another id = rename another id :=
  if_neg fun both => apart both.1

variable {newId : Int}

theorem reassign_one : reassign rename kind [id] (fun _ => newId) kind id = newId :=
  reassign_in List.mem_cons_self

theorem reassign_rest {old : Int} (apart : old ≠ id) :
    reassign rename kind [id] (fun _ => newId) kind old = rename kind old :=
  reassign_out fun member => apart (List.mem_singleton.mp member)

theorem reassign_one_apart {rows : List EntityRow}
    (fresher : ∀ row ∈ rows, row.id ≠ id → rename kind row.id < newId)
    (apart : ∀ left ∈ rows, ∀ right ∈ rows, left.id ≠ id → right.id ≠ id →
      rename kind left.id = rename kind right.id → left.id = right.id) :
    ∀ left ∈ rows, ∀ right ∈ rows, reassign rename kind [id] (fun _ => newId) kind left.id =
      reassign rename kind [id] (fun _ => newId) kind right.id → left.id = right.id := by
  intro left leftMem right rightMem same
  by_cases isLeft : left.id = id
  · by_cases isRight : right.id = id
    · exact isLeft.trans isRight.symm
    · rw [isLeft, reassign_one, reassign_rest isRight] at same
      exact absurd same (fresher right rightMem isRight).ne'
  · rw [reassign_rest isLeft] at same
    by_cases isRight : right.id = id
    · rw [isRight, reassign_one] at same
      exact absurd same (fresher left leftMem isLeft).ne
    · rw [reassign_rest isRight] at same
      exact apart left leftMem right rightMem isLeft isRight same

theorem GivenOut.of_taxon {final : Database} (givenOut : GivenOut other)
    (others : ∀ another, another ≠ kind → final.taxa another = other.taxa another)
    (rows : ∀ row ∈ (final.taxa kind).rows, row.id ≤ (final.taxa kind).lastId) :
    GivenOut final := by
  intro another
  by_cases same : another = kind
  · subst same
    exact rows
  · rw [others another same]
    exact givenOut another

/-- A cleanup of one taxonomy and its undo, which reassigns ids of that taxonomy. -/
theorem Renamed.reassigned {final : Database} (renamed : Renamed rename after other)
    (left : ∀ another, another ≠ kind → after.taxa another = db.taxa another)
    (back : ∀ another, another ≠ kind → final.taxa another = other.taxa another)
    (apart : ∀ left ∈ (db.taxa kind).rows, ∀ right ∈ (db.taxa kind).rows,
      reassign rename kind ids fresh kind left.id = reassign rename kind ids fresh kind right.id →
        left.id = right.id)
    (rows : ∀ row, row ∈ (final.taxa kind).rows ↔ ∃ old ∈ (db.taxa kind).rows,
      row = ⟨reassign rename kind ids fresh kind old.id, old.name, old.sort⟩)
    (overrides : (final.taxa kind).overrideNames = (db.taxa kind).overrideNames)
    (links : ∀ link, link ∈ (final.taxa kind).links ↔ ∃ old ∈ (db.taxa kind).links,
      link = ⟨old.book, reassign rename kind ids fresh kind old.entity, old.position⟩)
    (photos : ∀ pair, pair ∈ final.photos ↔ ∃ old ∈ db.photos,
      pair = (reassign rename kind ids fresh .author old.1, old.2))
    (ignored : ∀ name, name ∈ final.ignored ↔ name ∈ db.ignored)
    (aliases : ∀ row, row ∈ final.aliases ↔ ∃ old ∈ db.aliases, row = ⟨old.kind, old.aliasName,
      reassign rename kind ids fresh old.kind old.canonicalId⟩) :
    Renamed (reassign rename kind ids fresh) db final := by
  refine ⟨fun another => ?_, fun another row => ?_, fun another => ?_, fun another link => ?_,
    photos, ignored, aliases⟩ <;> by_cases same : another = kind
  · subst same
    exact apart
  · rw [← left another same]
    intro one oneMem two twoMem
    rw [reassign_other same, reassign_other same]
    exact renamed.apart another one oneMem two twoMem
  · subst same
    exact rows row
  · rw [back another same, renamed.rows, left another same]
    simp only [reassign_other same]
  · subst same
    exact overrides
  · rw [back another same, renamed.overrides, left another same]
  · subst same
    exact links link
  · rw [back another same, renamed.links, left another same]
    simp only [reassign_other same]

theorem Renamed.aliases_stay (renamed : Renamed rename after other)
    (left : after.aliases = db.aliases)
    (unnamed : ∀ row ∈ db.aliases, row.kind = kind → row.canonicalId ∉ ids) (row : AliasRow) :
    row ∈ other.aliases ↔ ∃ old ∈ db.aliases, row = ⟨old.kind, old.aliasName,
      reassign rename kind ids fresh old.kind old.canonicalId⟩ := by
  rw [renamed.aliases, left]
  refine exists_congr fun old => and_congr_right fun oldMem => ?_
  have stays : reassign rename kind ids fresh old.kind old.canonicalId =
      rename old.kind old.canonicalId :=
    if_neg fun both => unnamed old oldMem both.1 both.2
  rw [stays]

end Renamed

section Photos

theorem restore_canonical_photo {canonicalId : Int} (photo : Option Photo)
    (live : ∃ row ∈ (db.taxa .author).rows, row.id = canonicalId) :
    ∃ after, restoreCanonicalPhoto db canonicalId photo = some after ∧ after.taxa = db.taxa ∧
      after.aliases = db.aliases ∧ after.ignored = db.ignored ∧
      ∀ pair, pair ∈ after.photos ↔ (pair ∈ db.photos ∧ pair.1 ≠ canonicalId) ∨
        ∃ given, photo = some given ∧ pair = (canonicalId, given) := by
  cases photo with
  | none => exact ⟨_, rfl, rfl, rfl, rfl, by simp⟩
  | some photo =>
      obtain ⟨after, written⟩ := write_photo_live photo live
      obtain ⟨taxa, aliases, ignored⟩ := write_photo_taxa written
      refine ⟨after, written, taxa, aliases, ignored, fun pair => ?_⟩
      rw [mem_write_photo written]
      simp

end Photos

section Merge

variable {canonicalId : Int} {sourceIds : List Int} {snapshot : MergeSnapshot}

theorem MergeExact.source (spec : MergeExact kind sourceIds canonicalId db after snapshot) {id : Int}
    (member : id ∈ sourceIds) : ∃ source ∈ snapshot.sources, source.id = id := by
  rw [← spec.ids] at member
  exact List.mem_map.mp member

theorem MergeExact.source_id (spec : MergeExact kind sourceIds canonicalId db after snapshot)
    {source : MergedSource} (member : source ∈ snapshot.sources) : source.id ∈ sourceIds :=
  spec.ids ▸ List.mem_map_of_mem member

theorem MergeExact.names (spec : MergeExact kind sourceIds canonicalId db after snapshot)
    (before : Wellformed db) (distinct : sourceIds.Nodup) :
    snapshot.sources.Pairwise fun left right => sameName left.name right.name = false := by
  rw [← spec.ids, List.Nodup, List.pairwise_map] at distinct
  refine distinct.imp_of_mem fun {left right} leftMem rightMem apart => ?_
  refine Bool.eq_false_iff.mpr fun same => apart ?_
  have sameRow := before.names kind _ (spec.told left leftMem).row _ (spec.told right rightMem).row
    same
  exact congrArg EntityRow.id sameRow

theorem MergeExact.returnable (spec : MergeExact kind sourceIds canonicalId db after snapshot)
    (before : Wellformed db) {source : MergedSource} (member : source ∈ snapshot.sources) :
    Returnable kind source := by
  have told := spec.told source member
  exact ⟨given_of_told (before.of_kind kind) told.links,
    fun unsorted => before.sorts kind unsorted _ told.row⟩

theorem MergeExact.absent (spec : MergeExact kind sourceIds canonicalId db after snapshot)
    (before : Wellformed db) (renamed : Renamed rename after other) {source : MergedSource}
    (member : source ∈ snapshot.sources) {row : EntityRow} (live : row ∈ (other.taxa kind).rows) :
    sameName row.name source.name = false := by
  obtain ⟨sort, rows⟩ := spec.rows
  obtain ⟨kept, keptMem, rfl⟩ := (renamed.rows kind row).mp live
  obtain ⟨old, oldMem, notIn, rfl⟩ := (rows kept).mp keptMem
  refine Bool.eq_false_iff.mpr fun same => notIn ?_
  rw [sorted_row_name] at same
  rw [before.names kind old oldMem _ (spec.told source member).row same]
  exact spec.source_id member

theorem clear_sort (backfilled : Bool) (canonicalId : Int) (db : Database) :
    (if backfilled = true then db.setTaxon kind (setSort (db.taxa kind) canonicalId none) else db) =
      db.setTaxon kind { db.taxa kind with
        rows := (db.taxa kind).rows.map (sortedRow backfilled canonicalId none) } := by
  cases backfilled with
  | true =>
      have same : (db.taxa kind).rows.map
          (fun row => if row.id = canonicalId then { row with sort := none } else row) =
            (db.taxa kind).rows.map (sortedRow true canonicalId none) :=
        List.map_congr_left fun row _ => by simp [sortedRow]
      rw [if_pos rfl, ← same]
      rfl
  | false =>
      have same : (db.taxa kind).rows.map (sortedRow false canonicalId none) =
          (db.taxa kind).rows := by
        refine (List.map_congr_left fun row _ => ?_).trans (List.map_id _)
        simp [sortedRow]
      rw [if_neg (by decide), same]
      unfold Database.setTaxon
      rw [Function.update_eq_self]

theorem undo_merge_written {restored : Database} {fresh : Int → Int}
    (isRestored : snapshot.sources.foldlM (restoreSource kind snapshot) db = some restored)
    (returned : Returned kind snapshot snapshot.sources fresh db restored)
    (live : ∃ row ∈ (db.taxa kind).rows, row.id = snapshot.canonicalId) :
    ∃ final, undoMerge kind snapshot db = some final ∧
      (∀ another, another ≠ kind → final.taxa another = restored.taxa another) ∧
      final.taxa kind = { restored.taxa kind with
        rows := (restored.taxa kind).rows.map
          (sortedRow snapshot.canonicalSortWasBackfilled snapshot.canonicalId none) } ∧
      final.aliases = restored.aliases ∧ final.ignored = restored.ignored ∧
      (kind ≠ .author → final.photos = restored.photos) ∧
      (kind = .author → ∀ pair, pair ∈ final.photos ↔
        (pair ∈ restored.photos ∧ pair.1 ≠ snapshot.canonicalId) ∨
          ∃ given, snapshot.canonicalPhotoBefore = some given ∧
            pair = (snapshot.canonicalId, given)) := by
  unfold undoMerge
  simp only [Option.bind_eq_bind, isRestored, Option.bind_some]
  rw [clear_sort]
  generalize isCleared : restored.setTaxon kind { restored.taxa kind with
    rows := (restored.taxa kind).rows.map
      (sortedRow snapshot.canonicalSortWasBackfilled snapshot.canonicalId none) } = cleared
  have sameKind : cleared.taxa kind = { restored.taxa kind with
      rows := (restored.taxa kind).rows.map
        (sortedRow snapshot.canonicalSortWasBackfilled snapshot.canonicalId none) } := by
    rw [← isCleared, set_taxon_same]
  have others (another : MergeEntity) (apart : another ≠ kind) :
      cleared.taxa another = restored.taxa another := by
    rw [← isCleared, set_taxon_other apart]
  have rest : cleared.aliases = restored.aliases ∧ cleared.ignored = restored.ignored ∧
      cleared.photos = restored.photos := by
    rw [← isCleared]
    exact ⟨rfl, rfl, rfl⟩
  by_cases isAuthor : kind = .author
  · subst isAuthor
    obtain ⟨row, member, isId⟩ := live
    have stillLive : ∃ row ∈ (cleared.taxa .author).rows, row.id = snapshot.canonicalId := by
      rw [sameKind]
      refine ⟨_, List.mem_map_of_mem ((returned.rows row).mpr (.inl member)), ?_⟩
      rw [sorted_row_id]
      exact isId
    obtain ⟨final, isFinal, taxa, aliases, ignored, photos⟩ :=
      restore_canonical_photo snapshot.canonicalPhotoBefore stillLive
    refine ⟨final, ?_, ?_, ?_, aliases.trans rest.1, ignored.trans rest.2.1,
      fun notAuthor => absurd rfl notAuthor, fun _ => rest.2.2 ▸ photos⟩
    · rw [if_pos rfl]
      exact isFinal
    · rw [taxa]
      exact others
    · rw [taxa]
      exact sameKind
  · refine ⟨cleared, ?_, others, sameKind, rest.1, rest.2.1, fun _ => rest.2.2,
      fun author => absurd author isAuthor⟩
    rw [if_neg isAuthor]

section Back

variable {restored : Database} {fresh : Int → Int}
  (before : Wellformed db) (spec : MergeExact kind sourceIds canonicalId db after snapshot)
  (renamed : Renamed rename after other) (givenOut : GivenOut other)
  (fixes : rename kind canonicalId = canonicalId)
  (returned : Returned kind snapshot snapshot.sources fresh other restored)

include spec renamed fixes in
theorem canonical_image {row : EntityRow} (member : row ∈ (after.taxa kind).rows) :
    rename kind row.id = canonicalId ↔ row.id = canonicalId := by
  obtain ⟨live, liveMem, isId⟩ := spec.live
  obtain ⟨kept, keptMem, keptId⟩ := spec.stays liveMem (isId ▸ spec.notSource)
  constructor
  · intro same
    rw [renamed.apart kind row member kept keptMem, keptId, isId]
    rw [same, keptId, isId, fixes]
  · intro same
    rw [same, fixes]

include spec renamed givenOut fixes in
theorem canonical_le : canonicalId ≤ (other.taxa kind).lastId := by
  obtain ⟨live, liveMem, isId⟩ := spec.live
  obtain ⟨kept, keptMem, keptId⟩ := spec.stays liveMem (isId ▸ spec.notSource)
  have keptLe := renamed.id_le givenOut keptMem
  rwa [keptId, isId, fixes] at keptLe

include spec renamed givenOut returned in
theorem apart_back : ∀ left ∈ (db.taxa kind).rows, ∀ right ∈ (db.taxa kind).rows,
    reassign rename kind sourceIds fresh kind left.id =
      reassign rename kind sourceIds fresh kind right.id → left.id = right.id := by
  have fresher {id : Int} (inIds : id ∈ sourceIds) {row : EntityRow}
      (member : row ∈ (db.taxa kind).rows) (notIn : row.id ∉ sourceIds) :
      rename kind row.id < fresh id := by
    obtain ⟨source, sourceMem, rfl⟩ := spec.source inIds
    obtain ⟨kept, keptMem, keptId⟩ := spec.stays member notIn
    rw [← keptId]
    exact lt_of_le_of_lt (renamed.id_le givenOut keptMem) (returned.ids source sourceMem).1
  intro left leftMem right rightMem same
  by_cases leftIn : left.id ∈ sourceIds
  · rw [reassign_in leftIn] at same
    by_cases rightIn : right.id ∈ sourceIds
    · rw [reassign_in rightIn] at same
      obtain ⟨leftSource, leftSourceMem, isLeft⟩ := spec.source leftIn
      obtain ⟨rightSource, rightSourceMem, isRight⟩ := spec.source rightIn
      rw [← isLeft, ← isRight] at same ⊢
      exact returned.apart leftSource leftSourceMem rightSource rightSourceMem same
    · rw [reassign_out rightIn] at same
      exact absurd same (fresher leftIn rightMem rightIn).ne'
  · rw [reassign_out leftIn] at same
    by_cases rightIn : right.id ∈ sourceIds
    · rw [reassign_in rightIn] at same
      exact absurd same (fresher rightIn leftMem leftIn).ne
    · rw [reassign_out rightIn] at same
      obtain ⟨leftKept, leftKeptMem, leftId⟩ := spec.stays leftMem leftIn
      obtain ⟨rightKept, rightKeptMem, rightId⟩ := spec.stays rightMem rightIn
      rw [← leftId, ← rightId] at same ⊢
      exact renamed.apart kind leftKept leftKeptMem rightKept rightKeptMem same

theorem sorted_back {backfilled : Bool} {sort : Option String} {old : EntityRow} {id : Int}
    (same : id = canonicalId ↔ old.id = canonicalId)
    (unsorted : backfilled = true → old.id = canonicalId → old.sort = none) :
    sortedRow backfilled canonicalId none
        ⟨id, old.name, (sortedRow backfilled canonicalId sort old).sort⟩ =
      ⟨id, old.name, old.sort⟩ := by
  unfold sortedRow
  dsimp only
  by_cases isCanonical : backfilled = true ∧ old.id = canonicalId
  · rw [if_pos ⟨isCanonical.1, same.mpr isCanonical.2⟩, unsorted isCanonical.1 isCanonical.2]
  · rw [if_neg fun both => isCanonical ⟨both.1, same.mp both.2⟩, if_neg isCanonical]

include before spec renamed givenOut fixes returned in
theorem rows_back (row : EntityRow) :
    (∃ live ∈ (restored.taxa kind).rows,
      sortedRow snapshot.canonicalSortWasBackfilled canonicalId none live = row) ↔
        ∃ old ∈ (db.taxa kind).rows,
          row = ⟨reassign rename kind sourceIds fresh kind old.id, old.name, old.sort⟩ := by
  obtain ⟨sort, rows⟩ := spec.rows
  have canonicalLe := canonical_le spec renamed givenOut fixes
  -- the row of a source is not the canonical's
  have sourceBack {source : MergedSource} (member : source ∈ snapshot.sources) :
      sortedRow snapshot.canonicalSortWasBackfilled canonicalId none
        ⟨fresh source.id, source.name, source.sort⟩ =
          ⟨fresh source.id, source.name, source.sort⟩ := by
    have later := (returned.ids source member).1
    unfold sortedRow
    rw [if_neg]
    intro ⟨_, same⟩
    dsimp only at same
    omega
  have oldBack {old : EntityRow} (member : old ∈ (db.taxa kind).rows) (notIn : old.id ∉ sourceIds) :
      sortedRow snapshot.canonicalSortWasBackfilled canonicalId none
        ⟨rename kind old.id, old.name,
          (sortedRow snapshot.canonicalSortWasBackfilled canonicalId sort old).sort⟩ =
            ⟨rename kind old.id, old.name, old.sort⟩ := by
    refine sorted_back ?_ fun backfilled => (spec.unsorted backfilled).2 old member
    have image := canonical_image spec renamed fixes ((rows _).mpr ⟨old, member, notIn, rfl⟩)
    rwa [sorted_row_id] at image
  constructor
  · intro ⟨live, liveMem, equal⟩
    subst equal
    rcases (returned.rows live).mp liveMem with inOther | ⟨source, sourceMem, rfl⟩
    · obtain ⟨row, rowMem, rfl⟩ := (renamed.rows kind live).mp inOther
      obtain ⟨old, oldMem, notIn, rfl⟩ := (rows row).mp rowMem
      refine ⟨old, oldMem, ?_⟩
      rw [reassign_out notIn, sorted_row_id, sorted_row_name]
      exact oldBack oldMem notIn
    · refine ⟨_, (spec.told source sourceMem).row, ?_⟩
      rw [reassign_in (spec.source_id sourceMem)]
      exact sourceBack sourceMem
  · intro ⟨old, oldMem, equal⟩
    subst equal
    by_cases inIds : old.id ∈ sourceIds
    · obtain ⟨source, sourceMem, isId⟩ := spec.source inIds
      have isRow := before.ids kind _ (spec.told source sourceMem).row old oldMem isId
      subst isRow
      rw [reassign_in inIds]
      exact ⟨_, (returned.rows _).mpr (.inr ⟨source, sourceMem, rfl⟩), sourceBack sourceMem⟩
    · rw [reassign_out inIds]
      refine ⟨_, (returned.rows _).mpr (.inl ?_), oldBack oldMem inIds⟩
      have image := renamed.row_mem ((rows _).mpr ⟨old, oldMem, inIds, rfl⟩)
      rwa [sorted_row_id, sorted_row_name] at image

include before spec in
theorem merged_linked {link : LinkRow} (member : link ∈ (after.taxa kind).links) :
    ∃ row ∈ (after.taxa kind).rows, row.id = link.entity :=
  (spec.wellformed before).linked kind link member

include before spec renamed fixes returned in
theorem links_back (link : LinkRow) : link ∈ (restored.taxa kind).links ↔
    ∃ old ∈ (db.taxa kind).links,
      link = ⟨old.book, reassign rename kind sourceIds fresh kind old.entity, old.position⟩ := by
  rw [returned.links]
  constructor
  · rintro (⟨inOther, untaken⟩ | ⟨source, sourceMem, given, givenMem, rfl⟩)
    · obtain ⟨left, leftMem, rfl⟩ := (renamed.links kind link).mp inOther
      have notIn := spec.gone left leftMem
      refine ⟨left, ?_, by rw [reassign_out notIn]⟩
      by_cases isCanonical : left.entity = canonicalId
      · -- what the merge gave the canonical was taken from it again
        refine (spec.gained left leftMem isCanonical).resolve_right fun ⟨unlinked, given⟩ => ?_
        refine untaken ⟨?_, fun held => unlinked ((spec.books _).mp held), given⟩
        dsimp only
        rw [isCanonical, fixes, spec.canonical]
      · exact (spec.apart left notIn isCanonical).mp leftMem
    · refine ⟨_, ((spec.told source sourceMem).links given).mp givenMem, ?_⟩
      rw [reassign_in (spec.source_id sourceMem)]
  · intro ⟨old, oldMem, equal⟩
    subst equal
    by_cases inIds : old.entity ∈ sourceIds
    · obtain ⟨source, sourceMem, isId⟩ := spec.source inIds
      refine .inr ⟨source, sourceMem, ⟨old.book, old.position⟩, ?_, ?_⟩
      · apply ((spec.told source sourceMem).links _).mpr
        rw [isId]
        exact oldMem
      · rw [reassign_in inIds, isId]
    · rw [reassign_out inIds]
      have kept : old ∈ (after.taxa kind).links := by
        by_cases isCanonical : old.entity = canonicalId
        · exact spec.kept old oldMem isCanonical
        · exact (spec.apart old inIds isCanonical).mpr oldMem
      refine .inl ⟨(renamed.links kind _).mpr ⟨old, kept, rfl⟩, ?_⟩
      intro ⟨isCanonical, notHeld, _⟩
      obtain ⟨row, rowMem, isRow⟩ := merged_linked before spec kept
      dsimp only at isCanonical notHeld
      rw [spec.canonical, ← isRow] at isCanonical
      have isEntity := (canonical_image spec renamed fixes rowMem).mp isCanonical
      exact notHeld ((spec.books _).mpr ⟨old, oldMem, rfl, isRow ▸ isEntity⟩)

include spec renamed givenOut fixes returned in
theorem photos_back (isAuthor : kind = .author) (pair : Int × Photo) :
    ((pair ∈ restored.photos ∧ pair.1 ≠ canonicalId) ∨
      ∃ given, snapshot.canonicalPhotoBefore = some given ∧ pair = (canonicalId, given)) ↔
        ∃ old ∈ db.photos,
          pair = (reassign rename kind sourceIds fresh .author old.1, old.2) := by
  subst isAuthor
  have fixed : reassign rename .author sourceIds fresh .author canonicalId = canonicalId := by
    rw [reassign_out spec.notSource, fixes]
  constructor
  · rintro (⟨inRestored, notCanonical⟩ | ⟨given, isGiven, rfl⟩)
    · rcases (returned.photos pair).mp inRestored with inOther | ⟨_, source, sourceMem, photo, isPhoto,
        rfl⟩
      · obtain ⟨left, leftMem, rfl⟩ := (renamed.photos pair).mp inOther
        have other : left.1 ≠ canonicalId := fun same => notCanonical (by
          dsimp only
          rw [same, fixes])
        obtain ⟨old, notSource⟩ := (spec.otherPhotos left other).mp leftMem
        exact ⟨left, old, by rw [reassign_out fun inIds => notSource ⟨rfl, inIds⟩]⟩
      · refine ⟨_, (((spec.told source sourceMem).photo photo).mp isPhoto).2, ?_⟩
        rw [reassign_in (spec.source_id sourceMem)]
    · refine ⟨_, (spec.photoBefore rfl given).mp isGiven, ?_⟩
      rw [fixed]
  · intro ⟨old, oldMem, equal⟩
    subst equal
    by_cases isCanonical : old.1 = canonicalId
    · refine .inr ⟨old.2, (spec.photoBefore rfl old.2).mpr ?_, by rw [isCanonical, fixed]⟩
      rw [← isCanonical]
      exact oldMem
    by_cases inIds : old.1 ∈ sourceIds
    · obtain ⟨source, sourceMem, isId⟩ := spec.source inIds
      refine .inl ⟨(returned.photos _).mpr (.inr ⟨rfl, source, sourceMem, old.2, ?_, ?_⟩), ?_⟩
      · refine ((spec.told source sourceMem).photo old.2).mpr ⟨rfl, ?_⟩
        rw [isId]
        exact oldMem
      · rw [reassign_in inIds, isId]
      · have later := (returned.ids source sourceMem).1
        rw [isId] at later
        rw [reassign_in inIds]
        exact (lt_of_le_of_lt (canonical_le spec renamed givenOut fixes) later).ne'
    · rw [reassign_out inIds]
      have left := (spec.otherPhotos old isCanonical).mpr ⟨oldMem, fun both => inIds both.2⟩
      refine .inl ⟨(returned.photos _).mpr (.inl ((renamed.photos _).mpr ⟨old, left, rfl⟩)), ?_⟩
      obtain ⟨row, rowMem, isRow⟩ := spec.pictured old left
      intro same
      dsimp only at same
      rw [← isRow] at same
      exact isCanonical (isRow ▸ (canonical_image spec renamed fixes rowMem).mp same)

include spec renamed returned in
theorem other_photos_back (notAuthor : kind ≠ .author) (pair : Int × Photo) :
    pair ∈ restored.photos ↔ ∃ old ∈ db.photos,
      pair = (reassign rename kind sourceIds fresh .author old.1, old.2) := by
  rw [returned.photos, renamed.photos]
  constructor
  · rintro (⟨left, leftMem, rfl⟩ | ⟨isAuthor, _⟩)
    · refine ⟨left, (spec.samePhotos notAuthor left).mp leftMem, ?_⟩
      rw [reassign_other (Ne.symm notAuthor)]
    · exact absurd isAuthor notAuthor
  · intro ⟨old, oldMem, equal⟩
    subst equal
    rw [reassign_other (Ne.symm notAuthor)]
    exact .inl ⟨old, (spec.samePhotos notAuthor old).mpr oldMem, rfl⟩

include spec renamed returned in
theorem aliases_back (unnamed : ∀ row ∈ db.aliases, row.kind = kind → row.canonicalId ∉ sourceIds)
    (fixesAliases : ∀ source ∈ snapshot.sources, ∀ id, source.previousAlias = some id →
      rename kind id = id) (row : AliasRow) :
    row ∈ restored.aliases ↔ ∃ old ∈ db.aliases, row = ⟨old.kind, old.aliasName,
      reassign rename kind sourceIds fresh old.kind old.canonicalId⟩ := by
  have same {old : AliasRow} (member : old ∈ db.aliases) :
      reassign rename kind sourceIds fresh old.kind old.canonicalId =
        rename old.kind old.canonicalId :=
    if_neg fun both => unnamed old member both.1 both.2
  rw [returned.aliases]
  constructor
  · rintro (⟨inOther, notSource⟩ | ⟨source, sourceMem, previous, isPrevious, rfl⟩)
    · obtain ⟨left, leftMem, rfl⟩ := (renamed.aliases row).mp inOther
      rcases (spec.aliases left).mp leftMem with ⟨old, _⟩ | ⟨source, sourceMem, rfl⟩
      · exact ⟨left, old, by rw [same old]⟩
      · have notFor := notSource source sourceMem
        simp [AliasRow.isFor] at notFor
    · have old := ((spec.told source sourceMem).previous previous).mp isPrevious
      refine ⟨_, old, ?_⟩
      rw [same old, fixesAliases source sourceMem previous isPrevious]
  · rintro ⟨old, oldMem, equal⟩
    subst equal
    rw [same oldMem]
    by_cases isSource : ∃ source ∈ snapshot.sources, old.isFor kind source.name = true
    · obtain ⟨source, sourceMem, isFor⟩ := isSource
      obtain ⟨isKind, isName⟩ := is_for_iff.mp isFor
      have isPrevious := ((spec.told source sourceMem).previous old.canonicalId).mpr (by
        rw [← isKind, ← isName]
        exact oldMem)
      refine .inr ⟨source, sourceMem, _, isPrevious, ?_⟩
      rw [isKind, isName, fixesAliases source sourceMem _ isPrevious]
    · have notFor (source : MergedSource) (member : source ∈ snapshot.sources) :
          old.isFor kind source.name = false :=
        Bool.eq_false_iff.mpr fun isFor => isSource ⟨source, member, isFor⟩
      refine .inl ⟨(renamed.aliases _).mpr ⟨old, (spec.aliases old).mpr (.inl ⟨oldMem, notFor⟩), rfl⟩,
        notFor⟩

end Back

theorem MergeExact.undone (spec : MergeExact kind sourceIds canonicalId db after snapshot)
    (before : Wellformed db) (distinct : sourceIds.Nodup) (renamed : Renamed rename after other)
    (givenOut : GivenOut other) (fixes : rename kind canonicalId = canonicalId)
    (unnamed : ∀ row ∈ db.aliases, row.kind = kind → row.canonicalId ∉ sourceIds)
    (fixesAliases : ∀ source ∈ snapshot.sources, ∀ id, source.previousAlias = some id →
      rename kind id = id) :
    ∃ final fresh, undoMerge kind snapshot other = some final ∧ GivenOut final ∧
      Renamed (reassign rename kind sourceIds fresh) db final := by
  obtain ⟨live, liveMem, isId⟩ := spec.live
  obtain ⟨kept, keptMem, keptId⟩ := spec.stays liveMem (isId ▸ spec.notSource)
  have known : snapshot.canonicalId ≤ (other.taxa kind).lastId := by
    rw [spec.canonical]
    exact canonical_le spec renamed givenOut fixes
  obtain ⟨restored, fresh, isRestored, returned⟩ := restore_sources_returned
    (renamed.bounded (spec.wellformed before) givenOut kind) (spec.ids ▸ distinct)
    (spec.names before distinct) (fun source member row => spec.absent before renamed member)
    (fun source member => spec.returnable before member) known
  have isLive : ∃ row ∈ (other.taxa kind).rows, row.id = snapshot.canonicalId := by
    refine ⟨_, renamed.row_mem keptMem, ?_⟩
    rw [spec.canonical]
    dsimp only
    rw [keptId, isId, fixes]
  obtain ⟨final, undone, others, sameKind, aliases, ignored, samePhotos, photos⟩ :=
    undo_merge_written isRestored returned isLive
  rw [spec.canonical] at sameKind photos
  have restoredOther (another : MergeEntity) (apart : another ≠ kind) :
      final.taxa another = other.taxa another :=
    (others another apart).trans (returned.others another apart)
  refine ⟨final, fresh, undone, givenOut.of_taxon restoredOther ?_,
    renamed.reassigned spec.others restoredOther (apart_back spec renamed givenOut returned) ?_ ?_ ?_
      ?_ ?_ ?_⟩
  · have bounded := returned.bounded (renamed.bounded (spec.wellformed before) givenOut kind)
    rw [sameKind]
    intro row member
    obtain ⟨live, inRestored, rfl⟩ := List.mem_map.mp member
    rw [sorted_row_id]
    exact bounded.rows live inRestored
  · intro row
    rw [sameKind, ← rows_back before spec renamed givenOut fixes returned]
    exact List.mem_map
  · rw [sameKind, ← spec.overrides, ← renamed.overrides]
    exact returned.overrides
  · rw [sameKind]
    exact links_back before spec renamed fixes returned
  · intro pair
    by_cases isAuthor : kind = .author
    · rw [photos isAuthor]
      subst isAuthor
      exact photos_back spec renamed givenOut fixes returned rfl pair
    · rw [samePhotos isAuthor]
      exact other_photos_back spec renamed returned isAuthor pair
  · intro name
    rw [ignored, returned.ignored, renamed.ignored, spec.ignored]
  · rw [aliases]
    exact aliases_back spec renamed returned unnamed fixesAliases

end Merge

end Omnibus.Cleanup
