import Mathlib.Data.List.Basic
import Mathlib.Logic.Function.Basic
import Omnibus.Scan.Tables

/-!
# Authors, series and tags

The rows of the three taxonomies with their book links, the cached author photos and the ledger
of names that merges absorbed, and the statements that a cleanup and its undo are made of.
-/

open Omnibus.Scan (nocase)

namespace Omnibus.Cleanup

section Tables

inductive MergeEntity where
  | author
  | series
  | tag
  deriving DecidableEq, Repr

def MergeEntity.hasSort : MergeEntity → Bool
  | .tag => false
  | _ => true

def MergeEntity.hasPosition : MergeEntity → Bool
  | .author => true
  | _ => false

structure EntityRow where
  id : Int
  name : String
  sort : Option String
  deriving DecidableEq, Repr

/-- A row of a link table; only authors have a position. -/
structure LinkRow where
  book : Int
  entity : Int
  position : Option Int
  deriving DecidableEq, Repr

/-- A taxonomy: its rows, the last id it gave out, its links, and the names that an override of a
live book keeps. -/
structure Taxon where
  rows : List EntityRow
  lastId : Int
  links : List LinkRow
  overrideNames : List String
  deriving DecidableEq, Repr

structure Photo where
  source : String
  url : Option String
  mime : Option String
  bytes : Option (List UInt8)
  deriving DecidableEq, Repr

structure AliasRow where
  kind : MergeEntity
  aliasName : String
  canonicalId : Int
  deriving DecidableEq, Repr

structure Database where
  taxa : MergeEntity → Taxon
  photos : List (Int × Photo)
  aliases : List AliasRow
  ignored : List String

def sameName (left right : String) : Bool := nocase left = nocase right

def Database.setTaxon (db : Database) (kind : MergeEntity) (taxon : Taxon) : Database :=
  { db with taxa := Function.update db.taxa kind taxon }

end Tables

section Links

structure BookLink where
  bookId : Int
  position : Option Int
  deriving DecidableEq, Repr

def fetchLinks (taxon : Taxon) (id : Int) : List BookLink :=
  (taxon.links.filter (·.entity = id)).map fun link => ⟨link.book, link.position⟩

def fetchLinkedBookIds (taxon : Taxon) (id : Int) : List Int :=
  (taxon.links.filter (·.entity = id)).map (·.book)

/-- `INSERT OR IGNORE`, on the primary key of book and entity. -/
def insertOrIgnore (links : List LinkRow) (link : LinkRow) : List LinkRow :=
  if links.any fun other => other.book = link.book && other.entity = link.entity then links
  else links ++ [link]

def moveLinks (taxon : Taxon) (sourceId canonicalId : Int) : Taxon :=
  { taxon with
    links := ((taxon.links.filter (·.entity = sourceId)).map fun link =>
      { link with entity := canonicalId }).foldl insertOrIgnore taxon.links }

def deleteLinks (taxon : Taxon) (id : Int) : Taxon :=
  { taxon with links := taxon.links.filter (·.entity ≠ id) }

def insertLink (kind : MergeEntity) (taxon : Taxon) (bookId entityId : Int)
    (position : Option Int) : Taxon :=
  { taxon with
    links := insertOrIgnore taxon.links
      ⟨bookId, entityId, if kind.hasPosition then some (position.getD 0) else none⟩ }

def deleteLink (taxon : Taxon) (bookId entityId : Int) : Taxon :=
  { taxon with
    links := taxon.links.filter fun link => !(link.book = bookId && link.entity = entityId) }

end Links

section Rows

def fetchNameSort (taxon : Taxon) (id : Int) : Option (String × Option String) :=
  (taxon.rows.find? (·.id = id)).map fun row => (row.name, row.sort)

def deleteEntityRow (taxon : Taxon) (id : Int) : Taxon :=
  { taxon with rows := taxon.rows.filter (·.id ≠ id) }

/-- `set_sort`, and with none `clear_sort`. -/
def setSort (taxon : Taxon) (id : Int) (sort : Option String) : Taxon :=
  { taxon with rows := taxon.rows.map fun row => if row.id = id then { row with sort } else row }

/-- `recreate_entity`: the row of the name, or a new one. The insert takes an id off `AUTOINCREMENT`
before it finds the name held. -/
def recreateEntity (kind : MergeEntity) (taxon : Taxon) (name : String) (sort : Option String) :
    Taxon × Int :=
  match taxon.rows.find? fun row => sameName row.name name with
  | some existing =>
      let backfill (row : EntityRow) : EntityRow :=
        if kind.hasSort && sameName row.name name then { row with sort := row.sort <|> sort }
        else row
      ({ taxon with rows := taxon.rows.map backfill, lastId := taxon.lastId + 1 }, existing.id)
  | none =>
      let row : EntityRow := ⟨taxon.lastId + 1, name, if kind.hasSort then sort else none⟩
      ({ taxon with rows := taxon.rows ++ [row], lastId := taxon.lastId + 1 }, taxon.lastId + 1)

/-- A link or an override keeps the row. -/
def justified (kind : MergeEntity) (taxon : Taxon) (row : EntityRow) : Bool :=
  taxon.links.any (·.entity = row.id) ||
    kind ≠ .series && taxon.overrideNames.any (sameName · row.name)

def deleteOrphans (kind : MergeEntity) (taxon : Taxon) : Taxon :=
  { taxon with rows := taxon.rows.filter (justified kind taxon) }

def Database.cascadePhotos (db : Database) : Database :=
  { db with photos := db.photos.filter fun photo => (db.taxa .author).rows.any (·.id = photo.1) }

/-- `delete_orphan_taxonomy`, of these three taxonomies. -/
def deleteOrphanTaxonomy (db : Database) : Database :=
  { db with taxa := fun kind => deleteOrphans kind (db.taxa kind) }.cascadePhotos

end Rows

section Photos

def loadPhotoSnapshot (db : Database) (authorId : Int) : Option Photo :=
  (db.photos.find? (·.1 = authorId)).map (·.2)

/-- `write_photo`; none where the foreign key refuses it. -/
def writePhoto (db : Database) (authorId : Int) (photo : Photo) : Option Database :=
  if (db.taxa .author).rows.any (·.id = authorId) then
    some { db with photos := db.photos.filter (·.1 ≠ authorId) ++ [(authorId, photo)] }
  else none

def restoreCanonicalPhoto (db : Database) (canonicalId : Int) : Option Photo → Option Database
  | some photo => writePhoto db canonicalId photo
  | none => some { db with photos := db.photos.filter (·.1 ≠ canonicalId) }

end Photos

section Aliases

def AliasRow.isFor (row : AliasRow) (kind : MergeEntity) (name : String) : Bool :=
  row.kind = kind && row.aliasName = name

def fetchEntityAlias (aliases : List AliasRow) (kind : MergeEntity) (name : String) :
    Option Int :=
  (aliases.find? (·.isFor kind name)).map (·.canonicalId)

/-- `write_entity_alias`, and `restore_entity_alias` up to its time. -/
def writeEntityAlias (aliases : List AliasRow) (kind : MergeEntity) (name : String)
    (canonicalId : Int) : List AliasRow :=
  if aliases.any (·.isFor kind name) then
    aliases.map fun row => if row.isFor kind name then { row with canonicalId } else row
  else aliases ++ [⟨kind, name, canonicalId⟩]

def deleteEntityAlias (aliases : List AliasRow) (kind : MergeEntity) (name : String) :
    List AliasRow :=
  aliases.filter (!·.isFor kind name)

/-- `resolve_entity_aliases` for one name; of several rows the last one read counts. -/
def resolveEntityAliases (aliases : List AliasRow) (kind : MergeEntity) (name : String) :
    Option Int :=
  ((aliases.filter fun row => row.kind = kind && sameName row.aliasName name).getLast?).map
    (·.canonicalId)

end Aliases

end Omnibus.Cleanup
