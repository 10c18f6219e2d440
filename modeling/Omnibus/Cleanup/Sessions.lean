import Omnibus.Cleanup.Merges
import Omnibus.Library.Runs

/-!
# Cleanups and their undo in reverse

Splitting a tag and deleting an author with what undoes them, and a session: cleanups one after
the other, each leaving the snapshot that its undo replays.
-/

namespace Omnibus.Cleanup

section Split

structure SplitSnapshot where
  sourceName : String
  delimiter : String
  atoms : List String
  links : List Int
  deriving DecidableEq, Repr

def resolveOrInsertTag (taxon : Taxon) (name : String) : Taxon × Int :=
  recreateEntity .tag taxon name none

def linkAtom (sourceId : Int) (taxon : Taxon) (atom : String) : Taxon :=
  let (resolved, atomId) := resolveOrInsertTag taxon atom
  moveLinks resolved sourceId atomId

def applyTagSplit (sourceId : Int) (delimiter : String) (atoms : List String) (db : Database) :
    Option (Database × SplitSnapshot) :=
  if atoms.length < 2 then none
  else
    (fetchNameSort (db.taxa .tag) sourceId).map fun (sourceName, _) =>
      let split := atoms.foldl (linkAtom sourceId) (db.taxa .tag)
      (deleteOrphanTaxonomy
          (db.setTaxon .tag (deleteEntityRow (deleteLinks split sourceId) sourceId)),
        ⟨sourceName, delimiter, atoms, fetchLinkedBookIds (db.taxa .tag) sourceId⟩)

def insertLinksBulk (kind : MergeEntity) (taxon : Taxon) (entityId : Int) (bookIds : List Int) :
    Taxon :=
  bookIds.foldl (fun taxon bookId => insertLink kind taxon bookId entityId none) taxon

def lookupTagIds (taxon : Taxon) (names : List String) : List Int :=
  (taxon.rows.filter fun row => names.any (sameName row.name)).map (·.id)

def deleteLinksBulk (taxon : Taxon) (bookIds entityIds : List Int) : Taxon :=
  { taxon with
    links := taxon.links.filter fun link => !(link.book ∈ bookIds && link.entity ∈ entityIds) }

def undoSplit (snapshot : SplitSnapshot) (db : Database) : Database :=
  let (recreated, newId) := recreateEntity .tag (db.taxa .tag) snapshot.sourceName none
  let linked := insertLinksBulk .tag recreated newId snapshot.links
  deleteOrphanTaxonomy
    (db.setTaxon .tag (deleteLinksBulk linked snapshot.links (lookupTagIds linked snapshot.atoms)))

end Split

section Delete

structure DeleteAuthorSnapshot where
  name : String
  sort : Option String
  links : List BookLink
  photo : Option Photo
  deriving DecidableEq, Repr

def applyDeleteAuthor (authorId : Int) (db : Database) :
    Option (Database × DeleteAuthorSnapshot) :=
  (fetchNameSort (db.taxa .author) authorId).map fun (name, sort) =>
    let deleted := (db.setTaxon .author
      (deleteEntityRow (deleteLinks (db.taxa .author) authorId) authorId)).cascadePhotos
    let ignored := if db.ignored.any (sameName · name) then db.ignored else db.ignored ++ [name]
    (deleteOrphanTaxonomy { deleted with ignored := ignored },
      ⟨name, sort, fetchLinks (db.taxa .author) authorId, loadPhotoSnapshot db authorId⟩)

/-- None where a foreign key refuses the photo. -/
def undoDeleteAuthor (snapshot : DeleteAuthorSnapshot) (db : Database) : Option Database :=
  let (recreated, newId) :=
    recreateEntity .author (db.taxa .author) snapshot.name snapshot.sort
  let linked := db.setTaxon .author (snapshot.links.foldl (fun taxon link =>
    insertLink .author taxon link.bookId newId link.position) recreated)
  let pictured := match snapshot.photo with
    | some photo => writePhoto linked newId photo
    | none => some linked
  pictured.map fun after =>
    { after with ignored := after.ignored.filter fun name => !sameName name snapshot.name }

end Delete

section Sessions

inductive CleanupAction where
  | merge (kind : MergeEntity) (sourceIds : List Int) (canonicalId : Int)
  | split (sourceId : Int) (delimiter : String) (atoms : List String)
  | deleteAuthor (authorId : Int)

inductive Snapshot where
  | merge (kind : MergeEntity) (snapshot : MergeSnapshot)
  | split (snapshot : SplitSnapshot)
  | deleteAuthor (snapshot : DeleteAuthorSnapshot)

def CleanupAction.apply (db : Database) : CleanupAction → Option (Database × Snapshot)
  | .merge kind sourceIds canonicalId =>
      (applyMerge kind sourceIds canonicalId db).map fun (after, snapshot) =>
        (after, .merge kind snapshot)
  | .split sourceId delimiter atoms =>
      (applyTagSplit sourceId delimiter atoms db).map fun (after, snapshot) =>
        (after, .split snapshot)
  | .deleteAuthor authorId =>
      (applyDeleteAuthor authorId db).map fun (after, snapshot) => (after, .deleteAuthor snapshot)

/-- `undo`, of one row of the log. -/
def Snapshot.undo (db : Database) : Snapshot → Option Database
  | .merge kind snapshot => undoMerge kind snapshot db
  | .split snapshot => some (undoSplit snapshot db)
  | .deleteAuthor snapshot => undoDeleteAuthor snapshot db

structure Session where
  db : Database
  stack : List Snapshot

def Session.step (session : Session) (cleanup : CleanupAction) : Option Session :=
  (cleanup.apply session.db).map fun (db, snapshot) => ⟨db, snapshot :: session.stack⟩

def undoAll (db : Database) (stack : List Snapshot) : Option Database :=
  stack.foldlM Snapshot.undo db

end Sessions

end Omnibus.Cleanup
