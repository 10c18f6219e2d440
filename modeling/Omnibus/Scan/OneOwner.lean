import Omnibus.Library.Owners
import Omnibus.Scan.Partition
import Omnibus.Scan.Relocated

/-!
# Every path keeps one owner

The Moved bucket is carried out move by move, each on a row, a file and a path that no other move
is about. A move is refused only by its own table, so the paths keep one owner exactly when no
move goes to a path of the other table.
-/

open Omnibus.Library

namespace Omnibus.Scan

variable {libraryPath libraryRoot : String} {catalog now : Catalog} {move : MovedFile}
  {moved rest : List MovedFile} {who : Identity} {old : String} {file : FileRow}

section Statement

def OneOwner (library : Library) (libraryPath : String) : Prop :=
  ∀ left ∈ library.identities libraryPath, ∀ right ∈ library.identities libraryPath,
    ∀ scanKey, left.scanKey = some scanKey → right.scanKey = some scanKey → left = right

def movedBucket (order : Iteration) (disk : List StatEntry) (library : Library)
    (libraryPath : String) (formats : List String) (libraryRoot : String)
    (trustworthy : Bool) : List MovedFile :=
  (diffLibraryBy order disk (indexedRows library libraryPath formats) libraryRoot
    trustworthy).moved

/-- The identity, its file and the file's parts are at the place a move names. -/
structure CarriedOut (libraryPath : String) (before after : Catalog) (move : MovedFile)
    (who : Identity) (old : String) (file : FileRow) : Prop where
  same : who.uuid = move.uuid
  member : who ∈ before.library.identities libraryPath
  isKey : who.scanKey = some old
  inFiles : file ∈ before.library.files
  joined : file.bookId = who.bookId
  fileKey : file.scanKey = some old
  identity : who.movedTo (newLocation move.filename) ∈ after.library.identities libraryPath
  carried : FileCarried before after file old (newLocation move.filename) who.isAttachment

structure Settled (libraryPath : String) (catalog : Catalog) (moved : List MovedFile) : Prop where
  oneOwner : OneOwner (syncMoved libraryPath catalog moved).library libraryPath
  relocated : ∀ done move rest, moved = done ++ move :: rest →
    (relocateOne libraryPath (syncMoved libraryPath catalog done) move).2 = true →
      ∃ who old file, CarriedOut libraryPath catalog (syncMoved libraryPath catalog moved) move who
        old file
  declined : ∀ done move rest, moved = done ++ move :: rest →
    (relocateOne libraryPath (syncMoved libraryPath catalog done) move).2 = false →
      (relocateOne libraryPath (syncMoved libraryPath catalog done) move).1 =
        syncMoved libraryPath catalog done

/-- Whoever has the path a move goes to is of the table of the moved row. -/
def OwnTable (library : Library) (libraryPath : String) (moved : List MovedFile) : Prop :=
  ∀ move ∈ moved, ∀ who ∈ library.identities libraryPath, who.uuid = move.uuid →
    ∀ holder ∈ library.identities libraryPath,
      holder.scanKey = some (scanKeyFor move.filename) → holder.isAttachment = who.isAttachment

end Statement

section Plan

structure Source (catalog : Catalog) (libraryPath : String) (move : MovedFile) (who : Identity)
    (old : String) (file : FileRow) : Prop where
  member : who ∈ catalog.library.identities libraryPath
  same : who.uuid = move.uuid
  isKey : who.scanKey = some old
  named : old ≠ ""
  inFiles : file ∈ catalog.library.files
  joined : file.bookId = who.bookId
  fileKey : file.scanKey = some old
  only : ∀ other ∈ catalog.library.files, other.bookId = who.bookId →
    other.scanKey = some old → other = file

/-- Moves of different rows to different paths, none of which is one of a moved row. -/
structure Plan (catalog : Catalog) (libraryPath : String) (moved : List MovedFile) : Prop where
  rowIds : RowIds catalog.library
  uuids : (moved.map (·.uuid)).Nodup
  places : (moved.map (·.filename)).Nodup
  sources : ∀ move ∈ moved, ∃ who old file, Source catalog libraryPath move who old file
  fresh : ∀ move ∈ moved, ∀ other ∈ moved, ∀ who ∈ catalog.library.identities libraryPath,
    who.uuid = move.uuid → who.scanKey ≠ some (scanKeyFor other.filename)
  apart : ∀ move ∈ moved, ∀ other ∈ moved, ∀ left ∈ catalog.library.identities libraryPath,
    ∀ right ∈ catalog.library.identities libraryPath, left.uuid = move.uuid →
      right.uuid = other.uuid → left.scanKey = right.scanKey → move.uuid = other.uuid

theorem mem_relocated_identities {other : Identity} (place : NewLocation) :
    other ∈ (catalog.relocated who old place).library.identities libraryPath ↔
      ∃ row ∈ catalog.library.identities libraryPath,
        (if row.uuid = who.uuid then row.movedTo place else row) = other := by
  rw [mem_identities, relocated_rows, List.mem_map]
  constructor
  · intro ⟨⟨row, rowMem, equal⟩, root⟩
    subst equal
    refine ⟨row, mem_identities.mpr ⟨rowMem, ?_⟩, rfl⟩
    split_ifs at root with same
    · simpa using root
    · exact root
  · intro ⟨row, rowMem, equal⟩
    subst equal
    obtain ⟨inRows, root⟩ := mem_identities.mp rowMem
    refine ⟨⟨row, inRows, rfl⟩, ?_⟩
    split_ifs with same
    · simpa using root
    · exact root

theorem other_relocated {other : Identity} (place : NewLocation)
    (apart : other.uuid ≠ who.uuid) :
    other ∈ (catalog.relocated who old place).library.identities libraryPath ↔
      other ∈ catalog.library.identities libraryPath := by
  rw [mem_relocated_identities]
  constructor
  · intro ⟨row, rowMem, equal⟩
    subst equal
    split_ifs at apart ⊢ with same
    · exact absurd ((moved_to_uuid place row).trans same) apart
    · exact rowMem
  · exact fun member => ⟨other, member, if_neg apart⟩

theorem Source.next {later : MovedFile} {owner : Identity} {key : String} {own : FileRow}
    (rowIds : RowIds catalog.library) (source : Source catalog libraryPath later owner key own)
    (place : NewLocation) (apart : owner.uuid ≠ who.uuid) (keys : key ≠ old)
    (fresh : key ≠ place.scanKey) :
    Source (catalog.relocated who old place) libraryPath later owner key own := by
  have but : FilesBut catalog (catalog.relocated who old place) old place :=
    relocated_but rowIds.fileIds
  have otherKey : own.scanKey ≠ some old := by
    rw [source.fileKey]
    exact fun same => keys (Option.some.inj same)
  exact {
    member := (other_relocated place apart).mpr source.member
    same := source.same
    isKey := source.isKey
    named := source.named
    inFiles := (but.kept own source.inFiles otherKey).1
    joined := source.joined
    fileKey := source.fileKey
    only := by
      intro other otherMem joined isKey
      rcases but.drawn other otherMem with before | isPlace
      · exact source.only other before joined isKey
      · rw [isKey, Option.some.injEq] at isPlace
        exact absurd isPlace fresh }

theorem Plan.keys_apart (plan : Plan catalog libraryPath (move :: rest))
    (source : Source catalog libraryPath move who old file) {later : MovedFile}
    (laterMem : later ∈ rest) {owner : Identity} {key : String} {own : FileRow}
    (laterSource : Source catalog libraryPath later owner key own) :
    owner.uuid ≠ who.uuid ∧ key ≠ old ∧ key ≠ (newLocation move.filename).scanKey ∧
      old ≠ (newLocation later.filename).scanKey := by
  have inMoves := List.mem_cons_of_mem move laterMem
  have uuids : later.uuid ≠ move.uuid := fun same =>
    (List.nodup_cons.mp plan.uuids).1 (List.mem_map.mpr ⟨later, laterMem, same⟩)
  refine ⟨?_, ?_, ?_, ?_⟩
  · rw [laterSource.same, source.same]
    exact uuids
  · intro same
    refine uuids (plan.apart later inMoves move List.mem_cons_self owner laterSource.member who
      source.member laterSource.same source.same ?_)
    rw [laterSource.isKey, source.isKey, same]
  · intro same
    refine plan.fresh later inMoves move List.mem_cons_self owner laterSource.member
      laterSource.same ?_
    rw [laterSource.isKey, same]
    rfl
  · intro same
    apply plan.fresh move List.mem_cons_self later inMoves who source.member source.same
    rw [source.isKey, same]
    rfl

theorem Plan.relocated (plan : Plan catalog libraryPath (move :: rest))
    (source : Source catalog libraryPath move who old file) :
    Plan (catalog.relocated who old (newLocation move.filename)) libraryPath rest := by
  have kept {later : MovedFile} (laterMem : later ∈ rest) {owner : Identity}
      (member : owner ∈ (catalog.relocated who old
        (newLocation move.filename)).library.identities libraryPath)
      (same : owner.uuid = later.uuid) : owner ∈ catalog.library.identities libraryPath := by
    obtain ⟨known, key, own, laterSource⟩ := plan.sources later (List.mem_cons_of_mem _ laterMem)
    have apart := (plan.keys_apart source laterMem laterSource).1
    rw [laterSource.same, ← same] at apart
    exact (other_relocated _ apart).mp member
  constructor
  · exact plan.rowIds.relocated who old _
  · exact (List.nodup_cons.mp plan.uuids).2
  · exact (List.nodup_cons.mp plan.places).2
  · intro later laterMem
    obtain ⟨owner, key, own, laterSource⟩ := plan.sources later (List.mem_cons_of_mem _ laterMem)
    obtain ⟨uuids, keys, fresh, _⟩ := plan.keys_apart source laterMem laterSource
    exact ⟨owner, key, own, laterSource.next plan.rowIds _ uuids keys fresh⟩
  · intro later laterMem other otherMem owner member same
    exact plan.fresh later (List.mem_cons_of_mem _ laterMem) other
      (List.mem_cons_of_mem _ otherMem) owner (kept laterMem member same) same
  · intro later laterMem other otherMem left leftMem right rightMem sameLeft sameRight
    exact plan.apart later (List.mem_cons_of_mem _ laterMem) other
      (List.mem_cons_of_mem _ otherMem) left (kept laterMem leftMem sameLeft) right
      (kept otherMem rightMem sameRight) sameLeft sameRight

theorem Plan.tail (plan : Plan catalog libraryPath (move :: rest)) :
    Plan catalog libraryPath rest where
  rowIds := plan.rowIds
  uuids := (List.nodup_cons.mp plan.uuids).2
  places := (List.nodup_cons.mp plan.places).2
  sources later laterMem := plan.sources later (List.mem_cons_of_mem _ laterMem)
  fresh later laterMem other otherMem := plan.fresh later (List.mem_cons_of_mem _ laterMem) other
    (List.mem_cons_of_mem _ otherMem)
  apart later laterMem other otherMem := plan.apart later (List.mem_cons_of_mem _ laterMem) other
    (List.mem_cons_of_mem _ otherMem)

/-- A move of the plan is declined for its own table, or performed. -/
inductive Attempt (catalog : Catalog) (libraryPath : String) (move : MovedFile) (who : Identity)
    (old : String) : Catalog × Bool → Prop
  | declined (taken : catalog.library.takenFrom libraryPath who
      (newLocation move.filename).scanKey = true) :
      Attempt catalog libraryPath move who old (catalog, false)
  | performed (free : catalog.library.takenFrom libraryPath who
      (newLocation move.filename).scanKey = false) :
      Attempt catalog libraryPath move who old
        (catalog.relocated who old (newLocation move.filename), true)

theorem Source.attempt (source : Source catalog libraryPath move who old file)
    (rowIds : RowIds catalog.library) :
    Attempt catalog libraryPath move who old (relocateOne libraryPath catalog move) := by
  rw [relocate_one_cases rowIds source.member source.isKey source.named move source.same.symm]
  split_ifs with taken
  · exact .declined taken
  · exact .performed (Bool.eq_false_iff.mpr taken)

theorem Plan.next (plan : Plan catalog libraryPath (move :: rest)) :
    Plan (relocateOne libraryPath catalog move).1 libraryPath rest := by
  obtain ⟨who, old, file, source⟩ := plan.sources move List.mem_cons_self
  have attempt := source.attempt plan.rowIds
  generalize relocateOne libraryPath catalog move = result at attempt ⊢
  cases attempt with
  | declined => exact plan.tail
  | performed => exact plan.relocated source

end Plan

section Run

def PartsKept (before now : Catalog) (file : FileRow) : Prop :=
  ∀ part ∈ before.parts, part.bookFileId = file.id → part ∈ now.parts

theorem Plan.next_source (plan : Plan catalog libraryPath (move :: rest)) {later : MovedFile}
    (laterMem : later ∈ rest) {owner : Identity} {key : String} {own : FileRow}
    (laterSource : Source catalog libraryPath later owner key own) :
    Source (relocateOne libraryPath catalog move).1 libraryPath later owner key own ∧
      PartsKept catalog (relocateOne libraryPath catalog move).1 own := by
  obtain ⟨who, old, file, source⟩ := plan.sources move List.mem_cons_self
  have attempt := source.attempt plan.rowIds
  generalize relocateOne libraryPath catalog move = result at attempt ⊢
  cases attempt with
  | declined => exact ⟨laterSource, fun part inParts _ => inParts⟩
  | performed =>
      obtain ⟨uuids, keys, fresh, _⟩ := plan.keys_apart source laterMem laterSource
      have but : FilesBut catalog (catalog.relocated who old (newLocation move.filename)) old
          (newLocation move.filename) := relocated_but plan.rowIds.fileIds
      have otherKey : own.scanKey ≠ some old := by
        rw [laterSource.fileKey]
        exact fun same => keys (Option.some.inj same)
      exact ⟨laterSource.next plan.rowIds _ uuids keys fresh,
        (but.kept own laterSource.inFiles otherKey).2⟩

theorem Plan.run (done : List MovedFile) (plan : Plan catalog libraryPath (done ++ rest)) :
    Plan (syncMoved libraryPath catalog done) libraryPath rest ∧
      ∀ later ∈ rest, ∀ owner key own, Source catalog libraryPath later owner key own →
        Source (syncMoved libraryPath catalog done) libraryPath later owner key own ∧
          PartsKept catalog (syncMoved libraryPath catalog done) own := by
  induction done generalizing catalog with
  | nil => exact ⟨plan, fun _ _ _ _ _ source => ⟨source, fun part inParts _ => inParts⟩⟩
  | cons move done induction =>
      obtain ⟨planAfter, sources⟩ := induction plan.next
      refine ⟨planAfter, fun later laterMem owner key own source => ?_⟩
      obtain ⟨next, parts⟩ := plan.next_source (List.mem_append_right done laterMem) source
      obtain ⟨final, finalParts⟩ := sources later laterMem owner key own next
      exact ⟨final, fun part inParts ofFile => finalParts part (parts part inParts ofFile) ofFile⟩

theorem Plan.stays {before : Catalog} {place : NewLocation} {forceOverride : Bool}
    (plan : Plan now libraryPath rest)
    (identity : who.movedTo place ∈ now.library.identities libraryPath)
    (carried : FileCarried before now file old place forceOverride)
    (uuids : ∀ later ∈ rest, later.uuid ≠ who.uuid)
    (keys : ∀ later ∈ rest, ∀ owner ∈ now.library.identities libraryPath,
      owner.uuid = later.uuid → owner.scanKey ≠ some place.scanKey) :
    who.movedTo place ∈ (syncMoved libraryPath now rest).library.identities libraryPath ∧
      FileCarried before (syncMoved libraryPath now rest) file old place forceOverride := by
  induction rest generalizing now with
  | nil => exact ⟨identity, carried⟩
  | cons move rest induction =>
      obtain ⟨mover, key, own, source⟩ := plan.sources move List.mem_cons_self
      have planAfter := plan.next
      have attempt := source.attempt plan.rowIds
      rw [syncMoved, List.foldl_cons]
      generalize relocateOne libraryPath now move = result at attempt planAfter ⊢
      have uuidsAfter : ∀ later ∈ rest, later.uuid ≠ who.uuid := fun later laterMem =>
        uuids later (List.mem_cons_of_mem _ laterMem)
      cases attempt with
      | declined =>
          exact induction planAfter identity carried uuidsAfter fun later laterMem =>
            keys later (List.mem_cons_of_mem _ laterMem)
      | performed =>
          have but : FilesBut now (now.relocated mover key (newLocation move.filename)) key
              (newLocation move.filename) := relocated_but plan.rowIds.fileIds
          have apart : who.uuid ≠ mover.uuid := fun same =>
            uuids move List.mem_cons_self (source.same.symm.trans same.symm)
          have otherKey : (file.movedTo place forceOverride).scanKey ≠ some key := by
            intro same
            exact keys move List.mem_cons_self mover source.member source.same
              (source.isKey.trans same.symm)
          obtain ⟨row, parts⟩ := but.kept _ carried.row otherKey
          refine induction planAfter ((other_relocated _ ?_).mpr identity) ⟨row, ?_⟩ uuidsAfter ?_
          · rw [moved_to_uuid]
            exact apart
          · intro part inParts ofFile suffix isPath inside
            exact parts _ (carried.parts part inParts ofFile suffix isPath inside) ofFile
          · intro later laterMem owner member same
            have inMoves := List.mem_cons_of_mem move laterMem
            have others : owner.uuid ≠ mover.uuid := by
              rw [same, source.same]
              exact fun sameMove => (List.nodup_cons.mp plan.uuids).1
                (List.mem_map.mpr ⟨later, laterMem, sameMove⟩)
            exact keys later inMoves owner ((other_relocated _ others).mp member) same

theorem sync_moved_append (libraryPath : String) (catalog : Catalog) (done rest : List MovedFile) :
    syncMoved libraryPath catalog (done ++ rest) =
      syncMoved libraryPath (syncMoved libraryPath catalog done) rest :=
  List.foldl_append ..

theorem Plan.carried_out {done : List MovedFile}
    (plan : Plan catalog libraryPath (done ++ move :: rest))
    (performed : (relocateOne libraryPath (syncMoved libraryPath catalog done) move).2 = true) :
    ∃ who old file, CarriedOut libraryPath catalog
      (syncMoved libraryPath catalog (done ++ move :: rest)) move who old file := by
  obtain ⟨who, old, file, source⟩ := plan.sources move (by simp)
  obtain ⟨planNow, sources⟩ := plan.run
  obtain ⟨sourceNow, parts⟩ := sources move List.mem_cons_self who old file source
  have planAfter := planNow.next
  have attempt := sourceNow.attempt planNow.rowIds
  rw [sync_moved_append, syncMoved, List.foldl_cons]
  generalize relocateOne libraryPath (syncMoved libraryPath catalog done) move = result
    at attempt planAfter performed ⊢
  cases attempt with
  | declined => cases performed
  | performed =>
      have carried : FileCarried (syncMoved libraryPath catalog done)
          ((syncMoved libraryPath catalog done).relocated who old (newLocation move.filename)) file
          old (newLocation move.filename) who.isAttachment :=
        relocated_carried sourceNow.inFiles sourceNow.joined sourceNow.fileKey sourceNow.only
      have identity : who.movedTo (newLocation move.filename) ∈ ((syncMoved libraryPath catalog
          done).relocated who old (newLocation move.filename)).library.identities libraryPath :=
        (mem_relocated_identities _).mpr ⟨who, sourceNow.member, if_pos rfl⟩
      have kept : FileCarried catalog ((syncMoved libraryPath catalog done).relocated who old
          (newLocation move.filename)) file old (newLocation move.filename) who.isAttachment :=
        ⟨carried.row, fun part inParts ofFile => carried.parts part (parts part inParts ofFile)
          ofFile⟩
      have uuids : ∀ later ∈ rest, later.uuid ≠ who.uuid := fun later laterMem same =>
        (List.nodup_cons.mp planNow.uuids).1
          (List.mem_map.mpr ⟨later, laterMem, same.trans source.same⟩)
      have stays := planAfter.stays identity kept uuids fun later laterMem owner member same => by
        have apart : owner.uuid ≠ who.uuid := same ▸ uuids later laterMem
        exact planNow.fresh later (List.mem_cons_of_mem _ laterMem) move List.mem_cons_self owner
          ((other_relocated _ apart).mp member) same
      exact ⟨who, old, file, source.same, source.member, source.isKey, source.inFiles,
        source.joined, source.fileKey, stays.1, stays.2⟩

end Run

section Owners

def Catalog.holds (catalog : Catalog) (libraryPath : String) (uuid : Uuid) (scanKey : String) :
    Prop :=
  ∃ who ∈ catalog.library.identities libraryPath, who.uuid = uuid ∧ who.scanKey = some scanKey

def MovedFile.owned (move : MovedFile) : Uuid × String := (move.uuid, scanKeyFor move.filename)

def Library.attached (library : Library) (uuid : Uuid) : Bool :=
  library.rows.any fun row => row.uuid = uuid && row.isAttachment

theorem RowIds.attached {library : Library} (rowIds : RowIds library) :
    ∀ row ∈ library.rows, library.attached row.uuid = row.isAttachment := by
  intro row rowMem
  rw [Bool.eq_iff_iff, Library.attached, List.any_eq_true]
  constructor
  · intro ⟨other, otherMem, isAttachment⟩
    simp only [Bool.and_eq_true, decide_eq_true_eq] at isAttachment
    rw [← rowIds.same_row otherMem rowMem isAttachment.1]
    exact isAttachment.2
  · exact fun isAttachment => ⟨row, rowMem, by simp [isAttachment]⟩

variable {kind : Uuid → Bool}

theorem taken_iff (kinds : ∀ row ∈ catalog.library.rows, kind row.uuid = row.isAttachment)
    (source : Source catalog libraryPath move who old file) :
    catalog.library.takenFrom libraryPath who (newLocation move.filename).scanKey = true ↔
      Owners.Taken kind (catalog.holds libraryPath) move.owned := by
  have whoKind := kinds who (mem_identities.mp source.member).1
  rw [Library.takenFrom, List.any_eq_true]
  constructor
  · rintro ⟨other, otherMem, taken⟩
    simp only [Bool.and_eq_true, decide_eq_true_eq] at taken
    refine ⟨other.uuid, fun same => taken.2 (same.trans source.same.symm), ?_, other, otherMem, rfl,
      taken.1.2⟩
    change kind other.uuid = kind move.uuid
    rw [kinds other (mem_identities.mp otherMem).1, ← source.same, whoKind]
    exact taken.1.1
  · rintro ⟨_, apart, sameKind, other, otherMem, equal, isKey⟩
    subst equal
    refine ⟨other, otherMem, ?_⟩
    change kind other.uuid = kind move.uuid at sameKind
    rw [kinds other (mem_identities.mp otherMem).1, ← source.same, whoKind] at sameKind
    simp only [Bool.and_eq_true, decide_eq_true_eq]
    exact ⟨⟨sameKind, isKey⟩, fun same => apart (same.trans source.same)⟩

theorem holds_relocated (source : Source catalog libraryPath move who old file) :
    (catalog.relocated who old (newLocation move.filename)).holds libraryPath =
      Owners.Given (catalog.holds libraryPath) move.owned := by
  funext uuid scanKey
  apply propext
  constructor
  · intro ⟨row, member, equal, isKey⟩
    subst equal
    by_cases same : row.uuid = who.uuid
    · obtain ⟨before, _, rfl⟩ := (mem_relocated_identities _).mp member
      refine .inl ⟨same.trans source.same, ?_⟩
      split_ifs at same isKey with isWho
      · exact (Option.some.inj ((moved_to_scan_key _ _).symm.trans isKey)).symm
      · exact absurd same isWho
    · refine .inr ⟨?_, row, (other_relocated _ same).mp member, rfl, isKey⟩
      exact fun isMove => same (isMove.trans source.same.symm)
  · rintro (⟨isMove, isPlace⟩ | ⟨other, row, member, rfl, isKey⟩)
    · refine ⟨who.movedTo (newLocation move.filename), (mem_relocated_identities _).mpr
        ⟨who, source.member, if_pos rfl⟩, ?_, ?_⟩
      · rw [moved_to_uuid, isMove]
        exact source.same
      · rw [moved_to_scan_key, isPlace]
        rfl
    · refine ⟨row, (other_relocated _ ?_).mpr member, rfl, isKey⟩
      exact fun same => other (same.trans source.same)

theorem Plan.moves (plan : Plan catalog libraryPath moved)
    (kinds : ∀ row ∈ catalog.library.rows, kind row.uuid = row.isAttachment) :
    Owners.Moves kind (catalog.holds libraryPath) (moved.map (·.owned))
      ((syncMoved libraryPath catalog moved).holds libraryPath) := by
  induction moved generalizing catalog with
  | nil => exact .nil _
  | cons move rest induction =>
      obtain ⟨who, old, file, source⟩ := plan.sources move List.mem_cons_self
      have planAfter := plan.next
      have attempt := source.attempt plan.rowIds
      have taken := taken_iff kinds source
      rw [syncMoved, List.foldl_cons, List.map_cons]
      generalize relocateOne libraryPath catalog move = result at attempt planAfter ⊢
      cases attempt with
      | declined isTaken => exact .cons (.declined (taken.mp isTaken)) (induction planAfter kinds)
      | performed isFree =>
          have free : ¬Owners.Taken kind (catalog.holds libraryPath) move.owned := by
            rw [← taken, isFree]
            exact Bool.false_ne_true
          have step := Owners.Move.performed free
          rw [← holds_relocated source] at step
          refine .cons step (induction planAfter fun row rowMem => ?_)
          rw [relocated_rows] at rowMem
          obtain ⟨before, beforeMem, rfl⟩ := List.mem_map.mp rowMem
          split_ifs
          · rw [moved_to_uuid, moved_to_is_attachment]
            exact kinds before beforeMem
          · exact kinds before beforeMem

theorem one_owner_holds (rowIds : RowIds catalog.library) :
    OneOwner catalog.library libraryPath ↔ Owners.OneOwner (catalog.holds libraryPath) := by
  constructor
  · rintro one scanKey _ _ ⟨left, leftMem, rfl, leftKey⟩ ⟨right, rightMem, rfl, rightKey⟩
    rw [one left leftMem right rightMem scanKey leftKey rightKey]
  · intro one left leftMem right rightMem scanKey leftKey rightKey
    exact rowIds.same_row (mem_identities.mp leftMem).1 (mem_identities.mp rightMem).1
      (one scanKey _ _ ⟨left, leftMem, rfl, leftKey⟩ ⟨right, rightMem, rfl, rightKey⟩)

theorem Plan.owners_apart (plan : Plan catalog libraryPath moved) :
    Owners.Apart (catalog.holds libraryPath) (moved.map (·.owned)) := by
  constructor
  · rw [List.map_map]
    exact plan.uuids
  · rw [List.map_map]
    exact plan.places
  · intro pair pairMem other otherMem ⟨who, member, same, isKey⟩
    obtain ⟨move, moveMem, rfl⟩ := List.mem_map.mp pairMem
    obtain ⟨another, anotherMem, rfl⟩ := List.mem_map.mp otherMem
    exact plan.fresh move moveMem another anotherMem who member same isKey

theorem Plan.same_kind_iff (plan : Plan catalog libraryPath moved)
    (kinds : ∀ row ∈ catalog.library.rows, kind row.uuid = row.isAttachment) :
    Owners.SameKind kind (catalog.holds libraryPath) (moved.map (·.owned)) ↔
      OwnTable catalog.library libraryPath moved := by
  constructor
  · intro sameKind move moveMem who member same holder holderMem isKey
    have kindsSame := sameKind move.owned (List.mem_map_of_mem moveMem) holder.uuid
      ⟨holder, holderMem, rfl, isKey⟩
    change kind holder.uuid = kind move.uuid at kindsSame
    rw [← same, kinds who (mem_identities.mp member).1,
      kinds holder (mem_identities.mp holderMem).1] at kindsSame
    exact kindsSame
  · intro ownTable pair pairMem _ ⟨holder, holderMem, equal, isKey⟩
    subst equal
    obtain ⟨move, moveMem, rfl⟩ := List.mem_map.mp pairMem
    obtain ⟨who, old, file, source⟩ := plan.sources move moveMem
    change kind holder.uuid = kind move.uuid
    rw [← source.same, kinds who (mem_identities.mp source.member).1,
      kinds holder (mem_identities.mp holderMem).1]
    exact ownTable move moveMem who source.member source.same holder holderMem isKey

theorem Plan.one_owner_iff (plan : Plan catalog libraryPath moved)
    (one : OneOwner catalog.library libraryPath) :
    OneOwner (syncMoved libraryPath catalog moved).library libraryPath ↔
      OwnTable catalog.library libraryPath moved := by
  have whole : Plan catalog libraryPath (moved ++ []) := (List.append_nil moved).symm ▸ plan
  have final := whole.run.1
  rw [one_owner_holds final.rowIds, ← plan.same_kind_iff plan.rowIds.attached]
  exact (plan.moves plan.rowIds.attached).one_owner_iff ((one_owner_holds plan.rowIds).mp one)
    plan.owners_apart

end Owners

section Bucket

variable {order : Iteration} {disk : List StatEntry} {library : Library} {formats : List String}
  {trustworthy : Bool}

theorem map_flat_map_sublist {Item Row Key : Type} (items : List Item) (rows : Item → List Row)
    (keyOf : Item → Key) (rowKey : Row → Key)
    (few : ∀ item, ((rows item).map rowKey).Sublist [keyOf item]) :
    ((items.flatMap rows).map rowKey).Sublist (items.map keyOf) := by
  induction items with
  | nil => exact .refl _
  | cons item items induction =>
      rw [List.flatMap_cons, List.map_append, List.map_cons]
      exact (few item).append induction

theorem Keyed.one_row (keyed : Keyed library) {bookId : Int} {scanKey : Option String}
    (uuid : Uuid) {selects : FileRow → Bool}
    (selected : ∀ file, selects file = true →
      file.bookId = bookId ∧ sqlEq file.scanKey scanKey = true) :
    (((library.files.filter selects).map fun file => file.indexed uuid scanKey).map
      (·.uuid)).Sublist [uuid] := by
  have distinct : (library.files.filter selects).Nodup :=
    (List.Nodup.of_map _ keyed.fileIds).filter _
  have only (left right : FileRow) (leftMem : left ∈ library.files.filter selects)
      (rightMem : right ∈ library.files.filter selects) : left = right := by
    obtain ⟨leftFile, leftIs⟩ := List.mem_filter.mp leftMem
    obtain ⟨rightFile, rightIs⟩ := List.mem_filter.mp rightMem
    obtain ⟨leftBook, leftKey⟩ := selected left leftIs
    obtain ⟨rightBook, rightKey⟩ := selected right rightIs
    simp only [sqlEq, Bool.and_eq_true, decide_eq_true_eq] at leftKey rightKey
    obtain ⟨key, isKey⟩ := Option.isSome_iff_exists.mp leftKey.1
    apply keyed.same_file leftFile rightFile (leftBook.trans rightBook.symm) isKey
    rw [rightKey.2, ← leftKey.2]
    exact isKey
  generalize library.files.filter selects = files at distinct only
  match files with
  | [] => exact List.nil_sublist _
  | [_] => exact .refl _
  | left :: right :: _ =>
      have same := only left right List.mem_cons_self (by simp)
      exact absurd (same ▸ List.mem_cons_self) (List.nodup_cons.mp distinct).1

theorem Keyed.row_uuids (keyed : Keyed library) (libraryPath : String) (formats : List String) :
    ((indexedRows library libraryPath formats).map (·.uuid)).Nodup := by
  refine List.Nodup.sublist ?_ keyed.uuids
  unfold indexedRows Library.rows
  rw [List.map_append, List.map_append, List.map_map, List.map_map]
  refine List.Sublist.append ?_ ?_
  · refine .trans (map_flat_map_sublist _ _ Book.uuid IndexedRow.uuid fun book => ?_)
      (List.filter_sublist.map _)
    dsimp only
    split_ifs
    · exact List.nil_sublist _
    · have ofBook (file : FileRow) (selected : (decide (file.bookId = book.id) &&
          inFormats file.format formats && sqlEq file.scanKey book.scanKey) = true) :
          file.bookId = book.id ∧ sqlEq file.scanKey book.scanKey = true := by
        simp only [Bool.and_eq_true, decide_eq_true_eq] at selected
        exact ⟨selected.1.1, selected.2⟩
      exact keyed.one_row book.uuid ofBook
    · exact .refl _
  · refine .trans (map_flat_map_sublist _ _ MergedUuid.uuid IndexedRow.uuid
      fun entry => ?_)
      (List.filter_sublist.map _)
    have ofBook (file : FileRow) (selected : (decide (file.bookId = entry.bookId) &&
        sqlEq file.scanKey entry.scanKey) = true) :
        file.bookId = entry.bookId ∧ sqlEq file.scanKey entry.scanKey = true := by
      simp only [Bool.and_eq_true, decide_eq_true_eq] at selected
      exact selected
    exact keyed.one_row entry.uuid ofBook

theorem KnownRow.identity {row : IndexedRow} (known : KnownRow library libraryPath formats row)
    (hasFile : row.hasFile = true) : ∃ who ∈ library.identities libraryPath,
      who.uuid = row.uuid ∧ who.scanKey = some row.scanKey ∧ ∃ file ∈ library.files,
        file.bookId = who.bookId ∧ file.scanKey = some row.scanKey := by
  have spelled {fileKey scanKey : Option String} (anchor : sqlEq fileKey scanKey = true) :
      scanKey = some (scanKey.getD "") ∧ fileKey = some (scanKey.getD "") := by
    simp only [sqlEq, Bool.and_eq_true, decide_eq_true_eq] at anchor
    obtain ⟨key, isKey⟩ := Option.isSome_iff_exists.mp anchor.1
    rw [← anchor.2, isKey]
    exact ⟨rfl, rfl⟩
  cases known with
  | own book file inBooks root inFiles joined _ anchor =>
      exact ⟨.book book, mem_identities.mpr ⟨mem_rows_book.mpr inBooks, root⟩, rfl,
        (spelled anchor).1, file, inFiles, joined, (spelled anchor).2⟩
  | fileless => cases hasFile
  | merged entry file inLedger root inFiles joined _ anchor =>
      exact ⟨.attachment entry, mem_identities.mpr ⟨mem_rows_attachment.mpr inLedger, root⟩, rfl,
        (spelled anchor).1, file, inFiles, joined, (spelled anchor).2⟩

section Matched

variable {Row Entry : Type} {rowOf : Row → IndexedRow} {entryOf : Entry → StatEntry}
  {departures : List Row} {arrivals : List Entry}

theorem Matched.entry_unique {row : Row} {left right : Entry}
    (matched : Matched rowOf entryOf departures arrivals row left)
    (other : Matched rowOf entryOf departures arrivals row right) : left = right := by
  have sameKey := matched.sameKey.symm.trans other.sameKey
  rcases matched.told with ⟨_, alone⟩ | ⟨_, stem, _, alone⟩
  · exact (alone right other.arrived sameKey.symm).symm
  · rcases other.told with ⟨_, otherAlone⟩ | ⟨_, otherStem, _⟩
    · exact otherAlone left matched.arrived sameKey
    · exact (alone right other.arrived
        (Prod.ext sameKey.symm (otherStem.symm.trans stem))).symm

theorem Matched.row_unique {left right : Row} {entry : Entry}
    (matched : Matched rowOf entryOf departures arrivals left entry)
    (other : Matched rowOf entryOf departures arrivals right entry) : left = right := by
  have sameKey := matched.sameKey.trans other.sameKey.symm
  rcases matched.told with ⟨alone, _⟩ | ⟨_, stem, alone, _⟩
  · exact (alone right other.departed sameKey.symm).symm
  · rcases other.told with ⟨otherAlone, _⟩ | ⟨_, otherStem, _⟩
    · exact otherAlone left matched.departed sameKey
    · exact (alone right other.departed
        (Prod.ext sameKey.symm (otherStem.trans stem.symm))).symm

end Matched

/-- A move of the bucket is of a vanished row and a file that no row is for. -/
structure Departs (disk : List StatEntry) (db : List IndexedRow) (trustworthy : Bool)
    (move : MovedFile) (row : IndexedRow) (entry : StatEntry) : Prop where
  inDb : row ∈ db
  vanished : Vanished disk trustworthy row
  inDisk : entry ∈ disk
  hasKey : entry.scanKey ≠ ""
  unknown : ∀ other ∈ db, other.scanKey ≠ entry.scanKey
  isMove : ⟨row.uuid, entry.filename⟩ = move

section Moves

variable {departures : List IndexedRow} {arrivals : List StatEntry} {out : ReindexDiff}

theorem split_moved_named (name : MovedFile → String)
    (apart : ∀ left right : (IndexedRow × Nat) × StatEntry × Nat,
      Matched (fun row => row.1) (fun entry => entry.1) departures.zipIdx arrivals.zipIdx left.1
        left.2 →
      Matched (fun row => row.1) (fun entry => entry.1) departures.zipIdx arrivals.zipIdx right.1
        right.2 →
      name ⟨left.1.1.uuid, left.2.1.filename⟩ = name ⟨right.1.1.uuid, right.2.1.filename⟩ →
      left = right) :
    ((splitMovedBy order departures arrivals libraryRoot out).moved.map name).Nodup := by
  have indexedRows := List.Nodup.of_map _ (List.nodup_zipIdx_map_snd departures)
  have indexedEntries := List.Nodup.of_map _ (List.nodup_zipIdx_map_snd arrivals)
  unfold splitMovedBy
  dsimp only
  rw [List.map_map]
  refine List.Nodup.map_on (fun left leftMem right rightMem same => ?_)
    (match_moved_files_nodup indexedRows indexedEntries)
  exact apart left right ((mem_match_moved_files indexedRows indexedEntries left).mp leftMem)
    ((mem_match_moved_files indexedRows indexedEntries right).mp rightMem) same

theorem split_moved_uuids (uuids : (departures.map (·.uuid)).Nodup) :
    ((splitMovedBy order departures arrivals libraryRoot out).moved.map (·.uuid)).Nodup := by
  have rows := List.Nodup.of_map _ uuids
  refine split_moved_named (·.uuid) fun left right leftMatch rightMatch same => ?_
  have sameRow : left.1 = right.1 := same_of_zip_idx rows leftMatch.departed rightMatch.departed
    (List.inj_on_of_nodup_map uuids (mem_of_mem_zip_idx leftMatch.departed)
      (mem_of_mem_zip_idx rightMatch.departed) same)
  rw [← sameRow] at rightMatch
  exact Prod.ext sameRow (leftMatch.entry_unique rightMatch)

theorem split_moved_filenames
    (filenames : (arrivals.map (·.filename)).Nodup) :
    ((splitMovedBy order departures arrivals libraryRoot out).moved.map (·.filename)).Nodup := by
  have distinct := List.Nodup.of_map _ filenames
  refine split_moved_named (·.filename) fun left right leftMatch rightMatch same => ?_
  have sameEntry : left.2 = right.2 := same_of_zip_idx distinct leftMatch.arrived
    rightMatch.arrived (List.inj_on_of_nodup_map filenames
      (mem_of_mem_zip_idx leftMatch.arrived) (mem_of_mem_zip_idx rightMatch.arrived) same)
  rw [← sameEntry] at rightMatch
  exact Prod.ext (leftMatch.row_unique rightMatch) sameEntry

end Moves

theorem mem_unknown_files (libraryRoot : String) {db : List IndexedRow} {entry : StatEntry}
    (member : entry ∈ (classifiedFiles db libraryRoot (walkedFiles order disk)).2) :
    entry ∈ disk ∧ entry.scanKey ≠ "" ∧ ∀ other ∈ db, other.scanKey ≠ entry.scanKey := by
  obtain ⟨walked, unknown⟩ := List.mem_filter.mp member
  obtain ⟨inDisk, hasKey, _⟩ := mem_disk_by_key (walked_files_perm.mem_iff.mp walked)
  exact ⟨inDisk, hasKey,
    (last_by_key_eq_none_iff _ hasKey).mp (Option.isNone_iff_eq_none.mp unknown)⟩

theorem moved_departs {db : List IndexedRow} (uuids : (db.map (·.uuid)).Nodup)
    (named : ∀ entry ∈ disk, entry.scanKey ≠ "" → entry.filename = entry.scanKey) :
    (∀ move ∈ (diffLibraryBy order disk db libraryRoot trustworthy).moved,
        ∃ row entry, Departs disk db trustworthy move row entry) ∧
      ((diffLibraryBy order disk db libraryRoot trustworthy).moved.map (·.uuid)).Nodup ∧
      ((diffLibraryBy order disk db libraryRoot trustworthy).moved.map (·.filename)).Nodup := by
  have classified : classifyArrivalsBy order disk db libraryRoot =
      classifiedFiles db libraryRoot (walkedFiles order disk) := classify_fold ..
  have departUuids : ((collectDepartures db disk trustworthy).map (·.uuid)).Nodup := by
    unfold collectDepartures
    split
    · exact List.nodup_nil
    · exact uuids.sublist (List.filter_sublist.map _)
  have entries : (classifiedFiles db libraryRoot (walkedFiles order disk)).2.Nodup :=
    (walked_files_perm.nodup_iff.mpr keyed_disk_nodup).filter _
  have filenames : ((classifiedFiles db libraryRoot (walkedFiles order disk)).2.map
      (·.filename)).Nodup := by
    rw [List.Nodup, List.pairwise_map]
    apply ((disk_by_key_keys _ walked_files_perm).filter _).imp_of_mem
    intro left right leftMem rightMem keys same
    obtain ⟨leftDisk, leftKey, _⟩ := mem_unknown_files libraryRoot leftMem
    obtain ⟨rightDisk, rightKey, _⟩ := mem_unknown_files libraryRoot rightMem
    rw [named left leftDisk leftKey, named right rightDisk rightKey] at same
    exact keys same
  unfold diffLibraryBy
  rw [classified]
  unfold sortBuckets
  dsimp only
  have sorted := List.perm_insertionSort (fun left right : MovedFile =>
    left.filename < right.filename ∨ left.filename = right.filename ∧ left.uuid ≤ right.uuid)
    (splitMovedBy order (collectDepartures db disk trustworthy)
      (classifiedFiles db libraryRoot (walkedFiles order disk)).2 libraryRoot
      (classifiedFiles db libraryRoot (walkedFiles order disk)).1).moved
  refine ⟨fun move member => ?_, ?_, ?_⟩
  · rw [List.mem_insertionSort, mem_split_moved (List.Nodup.of_map _ departUuids) entries] at member
    obtain ⟨row, entry, matched, isMove⟩ := member
    obtain ⟨inDb, vanished⟩ := (mem_departures row).mp matched.departed
    obtain ⟨inDisk, hasKey, unknown⟩ := mem_unknown_files libraryRoot matched.arrived
    exact ⟨row, entry, inDb, vanished, inDisk, hasKey, unknown, isMove⟩
  · exact (sorted.map _).nodup_iff.mpr (split_moved_uuids departUuids)
  · exact (sorted.map _).nodup_iff.mpr
      (split_moved_filenames filenames)

theorem bucket_plan (keyed : Keyed catalog.library) (one : OneOwner catalog.library libraryPath)
    (named : ∀ entry ∈ disk, entry.scanKey ≠ "" → entry.filename = entry.scanKey) :
    Plan catalog libraryPath (movedBucket order disk catalog.library libraryPath formats
      libraryRoot trustworthy) := by
  obtain ⟨departs, uuids, places⟩ : (∀ move ∈ movedBucket order disk catalog.library libraryPath
      formats libraryRoot trustworthy, ∃ row entry, Departs disk (indexedRows catalog.library
        libraryPath formats) trustworthy move row entry) ∧ _ ∧ _ :=
    moved_departs (keyed.row_uuids libraryPath formats) named
  -- the identity a move is about has the path of its row
  have mover {move : MovedFile} {row : IndexedRow} {entry : StatEntry}
      (departing : Departs disk (indexedRows catalog.library libraryPath formats) trustworthy move
        row entry) : ∃ who ∈ catalog.library.identities libraryPath, who.uuid = move.uuid ∧
          who.scanKey = some row.scanKey ∧ ∃ file ∈ catalog.library.files,
            file.bookId = who.bookId ∧ file.scanKey = some row.scanKey := by
    obtain ⟨who, member, same, rest⟩ := KnownRow.identity
      ((mem_indexed_rows_iff ..).mp departing.inDb) departing.vanished.2.1
    exact ⟨who, member, same.trans (congrArg MovedFile.uuid departing.isMove), rest⟩
  have rowKey {move : MovedFile} {row : IndexedRow} {entry : StatEntry}
      (departing : Departs disk (indexedRows catalog.library libraryPath formats) trustworthy move
        row entry) {who : Identity} (member : who ∈ catalog.library.identities libraryPath)
      (same : who.uuid = move.uuid) : who.scanKey = some row.scanKey := by
    obtain ⟨other, otherMem, otherSame, isKey, _⟩ := mover departing
    rw [keyed.same_row (mem_identities.mp member).1 (mem_identities.mp otherMem).1
      (same.trans otherSame.symm)]
    exact isKey
  constructor
  · exact keyed.toRowIds
  · exact uuids
  · exact places
  · intro move moveMem
    obtain ⟨row, entry, departing⟩ := departs move moveMem
    obtain ⟨who, member, same, isKey, file, inFiles, joined, fileKey⟩ := mover departing
    exact ⟨who, row.scanKey, file, member, same, isKey, departing.vanished.2.2.1, inFiles, joined,
      fileKey, fun other otherMem otherJoined otherKey =>
        keyed.same_file otherMem inFiles (otherJoined.trans joined.symm) otherKey fileKey⟩
  · intro move moveMem other otherMem who member same isPlace
    obtain ⟨row, entry, departing⟩ := departs move moveMem
    obtain ⟨otherRow, otherEntry, otherDeparting⟩ := departs other otherMem
    rw [rowKey departing member same, Option.some.injEq, ← otherDeparting.isMove] at isPlace
    refine otherDeparting.unknown row departing.inDb (isPlace.trans ?_)
    exact named otherEntry otherDeparting.inDisk otherDeparting.hasKey
  · intro move moveMem other otherMem left leftMem right rightMem sameLeft sameRight keys
    obtain ⟨row, entry, departing⟩ := departs move moveMem
    rw [← sameLeft, ← sameRight, one left leftMem right rightMem row.scanKey
      (rowKey departing leftMem sameLeft)
      (keys.symm.trans (rowKey departing leftMem sameLeft))]

end Bucket

section Main

theorem settled_iff (order : Iteration) (catalog : Catalog) (disk : List StatEntry)
    (libraryPath libraryRoot : String) (formats : List String) (trustworthy : Bool)
    (keyed : Keyed catalog.library) (one : OneOwner catalog.library libraryPath)
    (named : ∀ entry ∈ disk, entry.scanKey ≠ "" → entry.filename = entry.scanKey) :
    Settled libraryPath catalog (movedBucket order disk catalog.library libraryPath formats
        libraryRoot trustworthy) ↔
      OwnTable catalog.library libraryPath (movedBucket order disk catalog.library libraryPath
        formats libraryRoot trustworthy) := by
  have plan : Plan catalog libraryPath (movedBucket order disk catalog.library libraryPath formats
      libraryRoot trustworthy) := bucket_plan keyed one named
  constructor
  · exact fun settled => (plan.one_owner_iff one).mp settled.oneOwner
  · intro ownTable
    refine ⟨(plan.one_owner_iff one).mpr ownTable, ?_, ?_⟩
    · intro done move rest isBucket performed
      rw [isBucket] at plan ⊢
      exact plan.carried_out performed
    · intro done move rest isBucket declined
      rw [isBucket] at plan
      obtain ⟨who, old, file, source⟩ := plan.sources move (by simp)
      obtain ⟨planNow, sources⟩ := plan.run
      have now := (sources move List.mem_cons_self who old file source).1
      have attempt := now.attempt planNow.rowIds
      generalize relocateOne libraryPath (syncMoved libraryPath catalog done) move = result
        at attempt declined ⊢
      cases attempt with
      | declined => rfl
      | performed => cases declined

def alphaBook : Book := ⟨1, "alpha", "/books", "", "Alpha", some "a.epub"⟩

def alphaFile : FileRow := ⟨1, 1, "EPUB", "a", 10, 20, some "a.epub", none, none, 0, none⟩

def renamedFile : StatEntry := ⟨"b.epub", "b.epub", 20, 10⟩

def alphaCatalog (ledger : List MergedUuid) : Catalog :=
  ⟨⟨[alphaBook], [alphaFile], ledger⟩, [], []⟩

/-- An attachment that a rewrite has taken the file row of. -/
def squatter : MergedUuid := ⟨"beta", 2, "EPUB", "/books", some "b.epub"⟩

theorem alpha_catalog_keyed {ledger : List MergedUuid} (known : ledger = [] ∨ ledger = [squatter]) :
    Keyed (alphaCatalog ledger).library := by
  rcases known with rfl | rfl <;> exact ⟨⟨by decide, by decide, by decide⟩, by decide⟩

theorem alpha_catalog_one_owner {ledger : List MergedUuid}
    (known : ledger = [] ∨ ledger = [squatter]) :
    OneOwner (alphaCatalog ledger).library "/books" := by
  have apart : ∀ left ∈ (alphaCatalog ledger).library.identities "/books",
      ∀ right ∈ (alphaCatalog ledger).library.identities "/books",
        left.scanKey = right.scanKey → left = right := by
    rcases known with rfl | rfl <;> decide
  intro left leftMem right rightMem scanKey leftKey rightKey
  exact apart left leftMem right rightMem (leftKey.trans rightKey.symm)

theorem alpha_bucket {ledger : List MergedUuid} (known : ledger = [] ∨ ledger = [squatter]) :
    movedBucket .inserted [renamedFile] (alphaCatalog ledger).library "/books" ["EPUB"] "/books"
      true = [⟨"alpha", "b.epub"⟩] := by
  rcases known with rfl | rfl <;> decide +kernel

theorem renamed_settled : Settled "/books" (alphaCatalog []) (movedBucket .inserted [renamedFile]
    (alphaCatalog []).library "/books" ["EPUB"] "/books" true) := by
  refine (settled_iff .inserted (alphaCatalog []) [renamedFile] "/books" "/books" ["EPUB"] true
    (alpha_catalog_keyed (.inl rfl)) (alpha_catalog_one_owner (.inl rfl)) ?_).mpr ?_
  · intro entry member _
    rw [List.mem_singleton.mp member]
    rfl
  · intro move _ who whoMem _ holder holderMem _
    have only : (alphaCatalog []).library.identities "/books" = [.book alphaBook] := by decide
    rw [only, List.mem_singleton] at whoMem holderMem
    rw [whoMem, holderMem]

/-- Renamed over an attachment without a file row, the book and the ledger both own the path. -/
theorem squatted_two_owners : Keyed (alphaCatalog [squatter]).library ∧
    OneOwner (alphaCatalog [squatter]).library "/books" ∧
      ¬Settled "/books" (alphaCatalog [squatter]) (movedBucket .inserted [renamedFile]
        (alphaCatalog [squatter]).library "/books" ["EPUB"] "/books" true) := by
  refine ⟨alpha_catalog_keyed (.inr rfl), alpha_catalog_one_owner (.inr rfl), fun settled => ?_⟩
  rw [alpha_bucket (.inr rfl)] at settled
  have owners := settled.oneOwner (.book { alphaBook with scanKey := some "b.epub" })
    (by decide +kernel) (.attachment squatter) (by decide +kernel) "b.epub" rfl rfl
  cases owners

end Main

end Omnibus.Scan
