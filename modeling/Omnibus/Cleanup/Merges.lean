import Omnibus.Cleanup.Entities

/-!
# Merging entities and undoing a merge

A merge moves the links of its sources to the canonical entity, records their names in the alias
ledger and deletes them; its snapshot is what the undo replays.
-/

namespace Omnibus.Cleanup

section Snapshots

structure MergedSource where
  id : Int
  name : String
  sort : Option String
  links : List BookLink
  photo : Option Photo
  previousAlias : Option Int
  deriving DecidableEq, Repr

structure MergeSnapshot where
  canonicalId : Int
  canonicalSortBefore : Option String
  canonicalSortWasBackfilled : Bool
  canonicalPhotoBefore : Option Photo
  canonicalBookIdsBefore : List Int
  sources : List MergedSource
  deriving DecidableEq, Repr

end Snapshots

section Apply

/-- What a snapshot keeps of a source; none for an id that names nothing. -/
def mergedSource (kind : MergeEntity) (db : Database) (sourceId : Int) : Option MergedSource :=
  (fetchNameSort (db.taxa kind) sourceId).map fun (name, sort) =>
    { id := sourceId
      name := name
      sort := sort
      links := fetchLinks (db.taxa kind) sourceId
      photo := if kind = .author then loadPhotoSnapshot db sourceId else none
      previousAlias := fetchEntityAlias db.aliases kind name }

def absorb (kind : MergeEntity) (canonicalId : Int) (db : Database) (source : MergedSource) :
    Database :=
  { db.setTaxon kind (deleteLinks (moveLinks (db.taxa kind) source.id canonicalId) source.id) with
    aliases := writeEntityAlias db.aliases kind source.name canonicalId }

def moveSourceLinks (kind : MergeEntity) (canonicalId : Int) :
    List Int → Database → Option (Database × List MergedSource)
  | [], db => some (db, [])
  | sourceId :: rest, db =>
      (mergedSource kind db sourceId).bind fun source =>
        (moveSourceLinks kind canonicalId rest (absorb kind canonicalId db source)).map
          fun (after, sources) => (after, source :: sources)

/-- Lower wins. -/
def photoRank : Option Photo → Nat
  | none => 3
  | some photo =>
      if photo.source = "manual" then 0 else if photo.source = "openlibrary" then 1
      else if photo.source = "letter" then 2 else 3

/-- The first photo of the best rank, where it outranks the canonical's own. -/
def bestPhoto (canonicalBefore : Option Photo) (sources : List MergedSource) : Option Photo :=
  (sources.foldl (fun best source =>
      if photoRank source.photo < best.1 then (photoRank source.photo, source.photo) else best)
    (photoRank canonicalBefore, none)).2

def reconcilePhotosAndSort (kind : MergeEntity) (canonicalId : Int)
    (canonicalSortBefore : Option String) (canonicalPhotoBefore : Option Photo)
    (sources : List MergedSource) (db : Database) : Option (Database × Bool) :=
  let sort := if kind.hasSort && canonicalSortBefore.isNone then sources.findSome? (·.sort) else none
  let backfilled :=
    if sort.isSome then db.setTaxon kind (setSort (db.taxa kind) canonicalId sort) else db
  let best := if kind = .author then bestPhoto canonicalPhotoBefore sources else none
  let reconciled := match best with
    | some photo => writePhoto backfilled canonicalId photo
    | none => some backfilled
  reconciled.map fun after => (after, sort.isSome)

def deleteSourcesAndReapTaxonomy (kind : MergeEntity) (sourceIds : List Int) (db : Database) :
    Database :=
  deleteOrphanTaxonomy
    (db.setTaxon kind (sourceIds.foldl deleteEntityRow (db.taxa kind))).cascadePhotos

/-- `apply_merge`; none where it fails and nothing is written. -/
def applyMerge (kind : MergeEntity) (sourceIds : List Int) (canonicalId : Int) (db : Database) :
    Option (Database × MergeSnapshot) :=
  if sourceIds = [] ∨ canonicalId ∈ sourceIds then none
  else do
    let (_, sortBefore) ← fetchNameSort (db.taxa kind) canonicalId
    let bookIdsBefore := fetchLinkedBookIds (db.taxa kind) canonicalId
    let photoBefore := if kind = .author then loadPhotoSnapshot db canonicalId else none
    let (moved, sources) ← moveSourceLinks kind canonicalId sourceIds db
    let (reconciled, backfilled) ←
      reconcilePhotosAndSort kind canonicalId sortBefore photoBefore sources moved
    return (deleteSourcesAndReapTaxonomy kind sourceIds reconciled,
      ⟨canonicalId, sortBefore, backfilled, photoBefore, bookIdsBefore, sources⟩)

end Apply

section Undo

/-- One link of a source comes back, and the canonical loses it if the merge gave it. -/
def restoreLink (kind : MergeEntity) (snapshot : MergeSnapshot) (newId : Int) (taxon : Taxon)
    (link : BookLink) : Taxon :=
  let inserted := insertLink kind taxon link.bookId newId link.position
  if link.bookId ∈ snapshot.canonicalBookIdsBefore then inserted
  else deleteLink inserted link.bookId snapshot.canonicalId

def restoreAlias (kind : MergeEntity) (aliases : List AliasRow) (source : MergedSource) :
    List AliasRow :=
  match source.previousAlias with
  | some previous => writeEntityAlias aliases kind source.name previous
  | none => deleteEntityAlias aliases kind source.name

def restoreSource (kind : MergeEntity) (snapshot : MergeSnapshot) (db : Database)
    (source : MergedSource) : Option Database :=
  let (recreated, newId) := recreateEntity kind (db.taxa kind) source.name source.sort
  let linked := db.setTaxon kind (source.links.foldl (restoreLink kind snapshot newId) recreated)
  let pictured := match kind, source.photo with
    | .author, some photo => writePhoto linked newId photo
    | _, _ => some linked
  pictured.map fun after => { after with aliases := restoreAlias kind after.aliases source }

/-- `undo_merge`; none where a foreign key refuses a photo. -/
def undoMerge (kind : MergeEntity) (snapshot : MergeSnapshot) (db : Database) : Option Database :=
  do
    let restored ← snapshot.sources.foldlM (restoreSource kind snapshot) db
    let cleared :=
      if snapshot.canonicalSortWasBackfilled then
        restored.setTaxon kind (setSort (restored.taxa kind) snapshot.canonicalId none)
      else restored
    if kind = .author then
      restoreCanonicalPhoto cleared snapshot.canonicalId snapshot.canonicalPhotoBefore
    else some cleared

end Undo

end Omnibus.Cleanup
