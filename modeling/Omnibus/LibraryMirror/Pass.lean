import Mathlib.Data.NNRat.Defs
import Mathlib.Data.Rat.Floor
import Omnibus.Library.Runs
import Omnibus.Library.Strings

/-!
# A pass over the library

`LibraryIndex.sync` and the calls of `OfflineStore` it awaits. Every awaited call is one step: the
app may be killed between any two of them, and time may pass. A kill loses the running pass and
keeps the tables and the meta keys.
-/

namespace Omnibus.LibraryMirror

open Omnibus.Library.Strings

structure BookRow where
  uuid : Text
  formats : List Text
  payload : Text
  deriving DecidableEq

inductive DownloadKind where
  | ebook
  | audio
  deriving DecidableEq

def DownloadKind.allCases : List DownloadKind := [.ebook, .audio]

def ebookFormats : List Text :=
  ["epub", "kepub", "pdf", "mobi", "azw3", "cbz", "cbr"].map String.toList

def audioFormats : List Text :=
  ["m4b", "m4a", "mp3", "aac", "flac", "ogg", "opus", "wav"].map String.toList

def DownloadKind.formats : DownloadKind → List Text
  | .ebook => ebookFormats
  | .audio => audioFormats

structure DownloadRecord where
  bookUuid : Text
  kind : DownloadKind
  deriving DecidableEq

/-- A library that does not change and whose cursors page through all its books in order:
`passed` is how many books lie before a cursor, and no cursor is the library's start. -/
structure Library (Cursor : Type) where
  books : List BookRow
  distinct : (books.map (·.uuid)).Nodup
  page : Option Cursor → List BookRow × Option Cursor
  passed : Option Cursor → Nat
  start : passed none = 0
  more : ∀ cursor next, (page cursor).2 = some next →
    books.take (passed (some next)) = books.take (passed cursor) ++ (page cursor).1
  last : ∀ cursor, (page cursor).2 = none →
    books = books.take (passed cursor) ++ (page cursor).1

/-- Where a pass stands: the call it awaits next. The cursor is the one in memory. -/
inductive Stage (Cursor : Type) where
  | checkRecent
  | readCursor
  | readStarted (cursor : Cursor)
  | clearAged
  | clearForPass
  | putStarted
  | countStaged (cursor : Option Cursor)
  | fetching (cursor : Option Cursor) (fetched : Nat)
  | appending (cursor : Option Cursor) (fetched : Nat) (rows : List BookRow)
      (next : Option Cursor)
  | putCursor (cursor : Option Cursor) (fetched : Nat) (next : Cursor)
  | promote (cursor : Option Cursor)
  | dropCursor
  | dropStarted
  | putCompleted
  | countBooks
  | checkKinds
  | prune (kinds : List DownloadKind)
  | interruptedBooks
  | interruptedStaged
  | publish
  deriving DecidableEq

/-- What outlives the process, with the clock. `promoted` records what each promotion found
staged and `pruned` the downloads whose files were deleted. -/
structure Store (Cursor : Type) where
  clock : ℚ
  books : List BookRow
  staging : List BookRow
  cursor : Option Cursor
  startedAt : Option Int
  completedAt : Option Int
  downloads : List DownloadRecord
  promoted : List (List BookRow)
  pruned : List DownloadRecord
  deriving DecidableEq

/-- The device: `syncing` is set once a pass is past its throttle, so that a second call can
enter while the first awaits it. -/
structure World (Cursor : Type) where
  store : Store Cursor
  passes : List (Stage Cursor)
  syncing : Bool
  deriving DecidableEq

inductive Action where
  | sync (force : Bool)
  | advance (index : Nat) (reached : Bool)
  | kill
  | wait (seconds : ℚ≥0)
  | download (record : DownloadRecord)

def maxSyncedBooks : Nat := 50000

def minSyncInterval : ℚ := 300

def resumeWindow : ℚ := 3600

def putRow (rows : List BookRow) (row : BookRow) : List BookRow :=
  if rows.any (fun other => other.uuid = row.uuid) then
    rows.map fun other => if other.uuid = row.uuid then row else other
  else rows ++ [row]

def putRows (rows added : List BookRow) : List BookRow := added.foldl putRow rows

def agedOut (startedAt : Option Int) (clock : ℚ) : Bool :=
  startedAt.all fun started : Int => decide (resumeWindow ≤ clock - (started : ℚ))

def recentlySynced (completedAt : Option Int) (clock : ℚ) : Bool :=
  completedAt.any fun completed : Int =>
    decide (0 ≤ clock - (completed : ℚ) ∧ clock - (completed : ℚ) < minSyncInterval)

def libraryHasKind (books : List BookRow) (kind : DownloadKind) : Bool :=
  books.any fun row => row.formats.any fun format => decide (format ∈ kind.formats)

/-- A download whose book is not in the mirror, of a kind the mirror has. -/
def orphaned (books : List BookRow) (kinds : List DownloadKind) (record : DownloadRecord) : Bool :=
  decide (record.kind ∈ kinds) && !books.any fun row => decide (row.uuid = record.bookUuid)

variable {Cursor : Type}

/-- The head of the loop: fetch on while the pass is under the ceiling. -/
def loop (cursor : Option Cursor) (fetched : Nat) : Stage Cursor :=
  if fetched < maxSyncedBooks then .fetching cursor fetched else .interruptedBooks

/-- The awaited call of a stage, and the stage after it; none when the pass returns. `reached` is
whether a page could be fetched. -/
def Stage.advance (library : Library Cursor) (reached : Bool) (store : Store Cursor) :
    Stage Cursor → Store Cursor × Option (Stage Cursor)
  | .checkRecent =>
      (store, if recentlySynced store.completedAt store.clock then none else some .readCursor)
  | .readCursor =>
      (store,
        match store.cursor with
        | none => some .clearForPass
        | some cursor => some (.readStarted cursor))
  | .readStarted cursor =>
      (store,
        if agedOut store.startedAt store.clock then some .clearAged
        else some (.countStaged (some cursor)))
  | .clearAged => ({ store with staging := [] }, some .clearForPass)
  | .clearForPass => ({ store with staging := [] }, some .putStarted)
  | .putStarted => ({ store with startedAt := some ⌊store.clock⌋ }, some (.countStaged none))
  | .countStaged cursor => (store, some (loop cursor store.staging.length))
  | .fetching cursor fetched =>
      let (rows, next) := library.page cursor
      (store,
        if reached then some (.appending cursor fetched rows next) else some .interruptedBooks)
  | .appending cursor fetched rows next =>
      ({ store with staging := putRows store.staging rows },
        match next with
        | none => some (.promote cursor)
        | some next => some (.putCursor cursor (fetched + rows.length) next))
  | .putCursor _ fetched next => ({ store with cursor := some next }, some (loop (some next) fetched))
  | .promote _ =>
      ({ store with
          books := store.staging, staging := [], promoted := store.promoted ++ [store.staging] },
        some .dropCursor)
  | .dropCursor => ({ store with cursor := none }, some .dropStarted)
  | .dropStarted => ({ store with startedAt := none }, some .putCompleted)
  | .putCompleted => ({ store with completedAt := some ⌊store.clock⌋ }, some .countBooks)
  | .countBooks => (store, if store.books = [] then none else some .checkKinds)
  | .checkKinds =>
      let kinds := DownloadKind.allCases.filter (libraryHasKind store.books)
      (store, if kinds = [] then none else some (.prune kinds))
  | .prune kinds =>
      ({ store with
          downloads := store.downloads.filter fun record => !orphaned store.books kinds record
          pruned := store.pruned ++ store.downloads.filter (orphaned store.books kinds) },
        none)
  | .interruptedBooks => (store, if store.books = [] then some .interruptedStaged else none)
  | .interruptedStaged => (store, if store.staging = [] then none else some .publish)
  | .publish => ({ store with books := putRows store.books store.staging }, none)

def Stage.throttling : Stage Cursor → Bool
  | .checkRecent => true
  | _ => false

def World.step (library : Library Cursor) (world : World Cursor) :
    Action → Option (World Cursor)
  | .sync force =>
      if world.syncing then some world
      else
        let stage := if force then Stage.readCursor else .checkRecent
        some { world with passes := world.passes ++ [stage], syncing := force }
  | .advance index reached =>
      match world.passes[index]? with
      | none => none
      | some stage =>
          let (store, after) := stage.advance library reached world.store
          match after with
          | some next =>
              some ⟨store, world.passes.set index next, world.syncing || stage.throttling⟩
          | none => some ⟨store, world.passes.eraseIdx index, world.syncing && stage.throttling⟩
  | .kill => some { world with passes := [], syncing := false }
  | .wait seconds =>
      some { world with store := { world.store with clock := world.store.clock + seconds } }
  | .download record =>
      some { world with
        store := { world.store with downloads := record :: world.store.downloads } }

def World.launch (clock : ℚ) (books : List BookRow) (downloads : List DownloadRecord) :
    World Cursor :=
  ⟨⟨clock, books, [], none, none, none, downloads, [], []⟩, [], false⟩

end Omnibus.LibraryMirror
