import Omnibus.Library.Feed
import Mathlib.Data.String.Basic

/-!
# The annotation store

One user's rows of `annotations` and `annotation_tombstones`, and what each statement of
`annotations/` does to them. A statement stamps what it writes with the second it runs at.
Client ids are unique per user, and a deleted one is never written again.
-/

namespace Omnibus.Annotations

abbrev Uuid := String

inductive HighlightColor where
  | amber
  | green
  | blue
  | rose
  | violet
  deriving DecidableEq, Repr

/-- A row of `annotations`. -/
structure Annotation where
  id : Int
  bookUuid : Uuid
  epubCfiRange : Option String
  koboLocation : Option String
  koboLocationStale : Bool
  color : HighlightColor
  text : Option String
  note : Option String
  clientId : Option String
  createdAt : Int
  updatedAt : Int
  deriving DecidableEq, Repr

structure Tombstone where
  bookUuid : Uuid
  clientId : String
  deletedAt : Int
  deriving DecidableEq, Repr

/-- The rows, and the largest id `AUTOINCREMENT` has handed out. -/
structure Store where
  rows : List Annotation
  tombstones : List Tombstone
  sequence : Int
  deriving DecidableEq, Repr

structure KoreaderUpsert where
  clientId : String
  epubCfiRange : String
  color : HighlightColor
  text : Option String
  note : Option String
  createdAt : Int
  eventAt : Int
  deriving DecidableEq, Repr

structure IngestKoboAnnotation where
  clientId : String
  color : HighlightColor
  text : Option String
  note : Option String
  koboLocation : String
  epubCfiRange : Option String
  deriving DecidableEq, Repr

structure CreateHighlight where
  bookUuid : Uuid
  epubCfiRange : String
  color : HighlightColor
  text : Option String
  clientId : Option String
  createdAt : Option Int
  deriving DecidableEq, Repr

namespace Store

variable (store : Store)

def tombstoned (clientId : String) : Bool :=
  store.tombstones.any fun tombstone => tombstone.clientId = clientId

def holds (clientId : String) : Bool :=
  store.rows.any fun row => row.clientId = some clientId

def insert (row : Int → Annotation) : Store :=
  { store with
    rows := store.rows ++ [row (store.sequence + 1)]
    sequence := store.sequence + 1 }

def update (selects : Annotation → Bool) (change : Annotation → Annotation) : Store :=
  { store with rows := store.rows.map fun row => if selects row then change row else row }

/-- `CLIENT_CREATED_AT_SQL`. -/
def clientCreatedAt (created : Option Int) (now : Int) : Int := min (created.getD now) now

/-- `create_highlight_at`. -/
def createHighlight (now : Int) (input : CreateHighlight) : Store :=
  if input.clientId.any store.tombstoned then store
  else if input.clientId.any store.holds then store
  else store.insert fun id =>
    { id := id
      bookUuid := input.bookUuid
      epubCfiRange := some input.epubCfiRange
      koboLocation := none
      koboLocationStale := false
      color := input.color
      text := input.text
      note := none
      clientId := input.clientId
      createdAt := clientCreatedAt input.createdAt now
      updatedAt := now }

def updateHighlightColor (now id : Int) (color : HighlightColor) : Store :=
  store.update (·.id = id) fun row => { row with color := color, updatedAt := now }

def updateHighlightNote (now id : Int) (note : Option String) : Store :=
  store.update (·.id = id) fun row => { row with note := note, updatedAt := now }

/-- `DELETE`, and `record_tombstones` for the client ids of the rows deleted. -/
def delete (now : Int) (selects : Annotation → Bool) : Store :=
  let deleted := (store.rows.filter selects).filterMap fun row =>
    row.clientId.map fun clientId => (⟨row.bookUuid, clientId, now⟩ : Tombstone)
  { store with
    rows := store.rows.filter fun row => !selects row
    -- `INSERT OR REPLACE` on the user and the client id
    tombstones := (store.tombstones.filter fun tombstone =>
      !deleted.any fun other => other.clientId = tombstone.clientId) ++ deleted }

def deleteHighlight (now id : Int) : Store := store.delete now (·.id = id)

/-- `delete_with_tombstones`, one client id at a time. -/
def deleteWithTombstones (now : Int) (book : Option Uuid) (clientId : String) : Store :=
  store.delete now fun row => row.clientId = some clientId && book.all (· = row.bookUuid)

def upsertKoreaderAnnotation (now : Int) (book : Uuid) (a : KoreaderUpsert) : Store :=
  if store.tombstoned a.clientId then store
  else if store.holds a.clientId then
    store.update
      (fun row => row.clientId = some a.clientId && row.bookUuid = book &&
        row.updatedAt ≤ min a.eventAt now)
      fun row => { row with
        koboLocationStale := row.koboLocationStale || row.epubCfiRange ≠ some a.epubCfiRange
        epubCfiRange := some a.epubCfiRange
        color := a.color
        text := a.text
        note := a.note
        updatedAt := now }
  else store.insert fun id =>
    { id := id
      bookUuid := book
      epubCfiRange := some a.epubCfiRange
      koboLocation := none
      koboLocationStale := false
      color := a.color
      text := a.text
      note := a.note
      clientId := some a.clientId
      createdAt := clientCreatedAt (some a.createdAt) now
      updatedAt := now }

/-- `upsert_kobo_annotations`, one annotation at a time. -/
def upsertKoboAnnotation (now : Int) (book : Uuid) (a : IngestKoboAnnotation) : Store :=
  if store.tombstoned a.clientId then store
  else if store.holds a.clientId then
    store.update (fun row => row.clientId = some a.clientId) fun row =>
      let moved := row.koboLocation ≠ some a.koboLocation
      { row with
        epubCfiRange :=
          if moved then a.epubCfiRange
          else if row.koboLocationStale then row.epubCfiRange
          else a.epubCfiRange.or row.epubCfiRange
        koboLocationStale := if moved then false else row.koboLocationStale
        koboLocation := some a.koboLocation
        color := a.color
        note := a.note
        text := a.text
        updatedAt := now }
  else store.insert fun id =>
    { id := id
      bookUuid := book
      epubCfiRange := a.epubCfiRange
      koboLocation := some a.koboLocation
      koboLocationStale := false
      color := a.color
      text := a.text
      note := a.note
      clientId := some a.clientId
      createdAt := now
      updatedAt := now }

/-- `backfill_kobo_annotation_cfis`, one row. -/
def backfillCfi (now id : Int) (location cfi : String) : Store :=
  store.update
    (fun row => row.id = id && row.epubCfiRange = none && row.koboLocation = some location)
    fun row => { row with epubCfiRange := some cfi, updatedAt := now }

/-- `apply_derived_locations`, one candidate; `minted` is the id drawn for it. -/
def applyDerivedLocation (id : Int) (snapshotCfi location minted : String) : Store :=
  store.update
    (fun row => row.id = id && (row.koboLocation = none || row.koboLocationStale) &&
      row.epubCfiRange = some snapshotCfi)
    fun row => { row with
      koboLocation := some location
      koboLocationStale := false
      clientId := row.clientId.or (some minted) }

end Store

inductive Write where
  | createHighlight (input : CreateHighlight)
  | updateHighlightColor (id : Int) (color : HighlightColor)
  | updateHighlightNote (id : Int) (note : Option String)
  | deleteHighlight (id : Int)
  | deleteWithTombstones (book : Option Uuid) (clientId : String)
  | upsertKoreaderAnnotation (book : Uuid) (highlight : KoreaderUpsert)
  | upsertKoboAnnotation (book : Uuid) (highlight : IngestKoboAnnotation)
  | backfillCfi (id : Int) (location cfi : String)
  | applyDerivedLocation (id : Int) (snapshotCfi location minted : String)
  deriving DecidableEq, Repr

def Store.unused (store : Store) (clientId : String) : Bool :=
  !store.tombstoned clientId && !store.holds clientId

/-- What a statement does at a second; none when the id it draws is taken. -/
def Write.run (now : Int) (store : Store) : Write → Option Store
  | .createHighlight input => some (store.createHighlight now input)
  | .updateHighlightColor id color => some (store.updateHighlightColor now id color)
  | .updateHighlightNote id note => some (store.updateHighlightNote now id note)
  | .deleteHighlight id => some (store.deleteHighlight now id)
  | .deleteWithTombstones book clientId => some (store.deleteWithTombstones now book clientId)
  | Write.upsertKoreaderAnnotation book highlight =>
      some <| store.upsertKoreaderAnnotation now book highlight
  | Write.upsertKoboAnnotation book highlight => some <| store.upsertKoboAnnotation now book highlight
  | .backfillCfi id location cfi => some (store.backfillCfi now id location cfi)
  | .applyDerivedLocation id snapshotCfi location minted =>
      if store.unused minted then some (store.applyDerivedLocation id snapshotCfi location minted)
      else none

/-- What the schema promises: ids and client ids name one row, client ids one tombstone, and
no deleted client id has a row. -/
structure Store.Valid (store : Store) : Prop where
  counted : 0 ≤ store.sequence
  ids : (store.rows.map (·.id)).Nodup
  numbered : ∀ row ∈ store.rows, 0 < row.id ∧ row.id ≤ store.sequence
  clientIds : ∀ left ∈ store.rows, ∀ right ∈ store.rows,
    left.clientId ≠ none → left.clientId = right.clientId → left.id = right.id
  deleted : ∀ tombstone ∈ store.tombstones, ∀ row ∈ store.rows,
    row.clientId ≠ some tombstone.clientId
  tombstoneIds : ∀ left ∈ store.tombstones, ∀ right ∈ store.tombstones,
    left.clientId = right.clientId → left = right

instance (store : Store) : Decidable store.Valid :=
  decidable_of_iff
    (0 ≤ store.sequence ∧ (store.rows.map (·.id)).Nodup ∧
      (∀ row ∈ store.rows, 0 < row.id ∧ row.id ≤ store.sequence) ∧
      (∀ left ∈ store.rows, ∀ right ∈ store.rows,
        left.clientId ≠ none → left.clientId = right.clientId → left.id = right.id) ∧
      (∀ tombstone ∈ store.tombstones, ∀ row ∈ store.rows,
        row.clientId ≠ some tombstone.clientId) ∧
      ∀ left ∈ store.tombstones, ∀ right ∈ store.tombstones,
        left.clientId = right.clientId → left = right)
    ⟨fun ⟨counted, ids, numbered, clientIds, deleted, tombstoneIds⟩ =>
      ⟨counted, ids, numbered, clientIds, deleted, tombstoneIds⟩,
      fun valid => ⟨valid.counted, valid.ids, valid.numbered, valid.clientIds, valid.deleted,
        valid.tombstoneIds⟩⟩

end Omnibus.Annotations
