import Mathlib.Data.List.Infix
import Omnibus.Koreader.Highlights

/-!
# The delivery of books to the KOReader plugin

`M.run` of `omnibussync.lua` with the plan, the refresh plan and what they do to the manifest, the
kept files and the Omnibus folder. The folder is the list of the paths that exist.
-/

namespace Omnibus.Koreader

open Omnibus.Library.Strings

structure Book where
  uuid : Text
  title : Text
  format : Text
  lastModified : Option Text
  deriving DecidableEq

/-- What is kept of a delivered book beside its path in the manifest; it outlives a delete. -/
structure Kept where
  path : Text
  etag : Option Text
  version : Option Text
  metaVersion : Option Text
  deriving DecidableEq

/-- The answer to a download; `unmodified` is the server's 304. -/
inductive Fetched where
  | failed (reason : Text)
  | published (etag : Option Text)
  | unmodified
  deriving DecidableEq

/-- The answer to the library request: the books where the body is readable. -/
structure LibraryAnswer where
  code : Option Nat
  books : Option (List Book)
  err : Text
  deriving DecidableEq

/-- The side effects of one run. A download is conditional only where an ETag is sent with it. -/
structure RunDeps where
  serverUrl : Text
  dir : Text
  openPath : Option Text
  library : LibraryAnswer
  canReplace : Text → Bool
  download : Book → Text → Option Text → Fetched
  unconditional : ∀ book path, download book path none ≠ .unmodified
  applyMetadata : Book → Text → Option Text
  remove : Text → Option Text

/-- The plugin's tables and the folder, with every download and removal that was asked for, a
removal beside what had been delivered before it. -/
structure Desk where
  manifest : Table Text
  files : Table Kept
  disk : List Text
  fetches : List (Text × Text)
  delivered : List (Text × Text)
  removals : List (Text × List (Text × Text))

structure Tally where
  added : Nat
  removed : Nat
  refreshed : Nat
  replaced : Nat
  downloadFailures : List Text
  removeFailures : List Text
  updateFailures : List Text
  deriving DecidableEq

structure Turn where
  desk : Desk
  tally : Tally

def folderLimit : Nat := 80

def unsafeChars : List Char := ['/', '\\', ':', '*', '?', '"', '<', '>', '|']

def isControl (char : Char) : Bool := char.toNat < 32 || char.toNat = 127

def safe (text : Text) : Text :=
  text.map fun char => if char ∈ unsafeChars ∨ isControl char then '_' else char

/-- The bytes of a text with every byte that is not wanted replaced. -/
def wordBytes (wanted : Char → Bool) (text : Text) : Text :=
  text.flatMap fun char => if wanted char then [char] else List.replicate char.utf8Size '_'

def extension (book : Book) : Text := wordBytes Char.isAlphanum book.format

def bookId (uuid : Text) : Text :=
  (wordBytes (fun char => char.isAlphanum || char == '-') uuid).take 8

def shownTitle (title : Text) : Text :=
  let capped := (safe title).take folderLimit
  if capped = [] then "Untitled".toList else capped

def fileName (book : Book) : Text :=
  shownTitle book.title ++ " - ".toList ++ bookId book.uuid ++ ".".toList ++ extension book

def pathExtension (path : Text) : Option Text :=
  let tail := path.reverse.takeWhile fun char => char ≠ '.' ∧ char ≠ '/'
  match tail, path.reverse.drop tail.length with
  | _ :: _, '.' :: _ => some tail.reverse
  | _, _ => none

def inside (dir path : Text) : Bool :=
  (dir ++ ['/']).isPrefixOf path && !decide ("/../".toList <:+: path) &&
    !decide ("/..".toList <:+ path)

structure Plan where
  download : List Book
  delete : List (Text × Text)
  forget : List Text
  deriving DecidableEq

/-- A book's path in the manifest is inside the folder and its file is there. -/
def inPlace (dir : Text) (disk : List Text) (path : Option Text) : Bool :=
  path.any fun path => inside dir path && decide (path ∈ disk)

def plan (manifest : Table Text) (books : List Book) (dir : Text) (disk : List Text)
    (openPath : Option Text) : Plan :=
  let missing := books.filter fun book => !inPlace dir disk (manifest.lookup book.uuid)
  let unwanted := manifest.entries.filter fun entry => !books.any fun book => book.uuid = entry.1
  { download := missing
    forget :=
      ((missing.filter fun book => (manifest.lookup book.uuid).any fun path => !inside dir path).map
        (·.uuid)) ++ (unwanted.filter fun entry => !inside dir entry.2).map (·.1)
    delete :=
      (unwanted.filter fun entry => inside dir entry.2 && decide (some entry.2 ≠ openPath)).map
        fun entry => (entry.1, entry.2) }

def behind (kept : Option Kept) (book : Book) (path : Text) : Bool :=
  match kept with
  | none => true
  | some kept =>
      kept.version != book.lastModified || kept.metaVersion != book.lastModified ||
        pathExtension path != some (extension book)

/-- The delivered books to refresh; the open document is left alone. -/
def refreshPlan (manifest : Table Text) (files : Table Kept) (books : List Book) (dir : Text)
    (disk : List Text) (openPath : Option Text) : List (Book × Text) :=
  books.filterMap fun book =>
    (manifest.lookup book.uuid).bind fun path =>
      if inside dir path ∧ some path ≠ openPath ∧ path ∈ disk ∧
          behind (files.lookup book.uuid) book path then some (book, path)
      else none

def deliveryPath (dir : Text) (desk : Desk) (book : Book) : Text :=
  match desk.files.lookup book.uuid with
  | none => dir ++ ['/'] ++ fileName book
  | some kept =>
      if inside dir kept.path ∧ kept.path ∉ desk.disk ∧
          pathExtension kept.path = some (extension book) then kept.path
      else dir ++ ['/'] ++ fileName book

def noted (title reason : Text) : Text := title ++ ": ".toList ++ reason

def Desk.fetch (deps : RunDeps) (book : Book) (target : Text) (etag : Option Text)
    (desk : Desk) : Desk :=
  let asked := { desk with fetches := desk.fetches ++ [(book.uuid, target)] }
  match deps.download book target etag with
  | .published _ =>
      { asked with
        disk := target :: desk.disk, delivered := desk.delivered ++ [(book.uuid, target)] }
  | _ => asked

/-- Ask for a removal: where it does not fail the path is free. -/
def Desk.discard (deps : RunDeps) (path : Text) (desk : Desk) : Desk :=
  { desk with
    removals := desk.removals ++ [(path, desk.delivered)]
    disk := if deps.remove path = none then desk.disk.filter (· ≠ path) else desk.disk }

def forgetBook (turn : Turn) (uuid : Text) : Turn :=
  { turn with desk := { turn.desk with manifest := turn.desk.manifest.erase uuid } }

def deleteBook (deps : RunDeps) (turn : Turn) (entry : Text × Text) : Turn :=
  let desk := turn.desk.discard deps entry.2
  match deps.remove entry.2 with
  | none =>
      { desk := { desk with manifest := desk.manifest.erase entry.1 }
        tally := { turn.tally with removed := turn.tally.removed + 1 } }
  | some reason =>
      { desk
        tally := { turn.tally with
          removeFailures := turn.tally.removeFailures ++ [noted entry.2 reason] } }

def downloadBook (deps : RunDeps) (turn : Turn) (book : Book) : Turn :=
  let path := deliveryPath deps.dir turn.desk book
  let desk := turn.desk.fetch deps book path none
  let arrived (etag : Option Text) : Turn :=
    let applied := deps.applyMetadata book path
    let kept : Kept :=
      ⟨path, etag, book.lastModified, if applied = none then book.lastModified else none⟩
    { desk := { desk with
        manifest := desk.manifest.insert book.uuid path
        files := desk.files.insert book.uuid kept }
      tally := { turn.tally with
        added := turn.tally.added + 1
        updateFailures := turn.tally.updateFailures ++
          (applied.map (noted book.title)).toList } }
  match deps.download book path none with
  | .failed reason =>
      { desk
        tally := { turn.tally with
          downloadFailures := turn.tally.downloadFailures ++ [noted book.title reason] } }
  | .published etag => arrived etag
  | .unmodified => arrived none

/-- The old file of a book whose format changed goes; the new one has no custom metadata yet. -/
def switchFormat (deps : RunDeps) (turn : Turn) (book : Book) (path target : Text) : Turn :=
  let switched := { turn.desk with manifest := turn.desk.manifest.insert book.uuid target }
  { desk := switched.discard deps path
    tally := { turn.tally with
      removeFailures :=
        turn.tally.removeFailures ++ ((deps.remove path).map (noted path)).toList } }

/-- Put a book in its path as the server serves it now: the turn after it, and what is kept of
the book with its path then, or the reason of a failure. -/
def replaceFile (deps : RunDeps) (turn : Turn) (book : Book) (path : Text) (kept : Kept) :
    Turn × Except Text (Kept × Text) :=
  let formatChanged := pathExtension path != some (extension book)
  let target := if formatChanged then deps.dir ++ ['/'] ++ fileName book else path
  let etag := if formatChanged then none else kept.etag
  let asked : Turn := { turn with desk := turn.desk.fetch deps book target etag }
  let moved := if formatChanged then switchFormat deps asked book path target else asked
  let keeps : Kept := if formatChanged then { kept with path := target, metaVersion := none } else kept
  match deps.download book target etag with
  | .failed reason => (asked, .error reason)
  | .published etag =>
      ({ moved with tally := { moved.tally with replaced := moved.tally.replaced + 1 } },
        .ok ({ keeps with etag, version := book.lastModified }, target))
  | .unmodified => (moved, .ok ({ keeps with version := book.lastModified }, target))

def keep (turn : Turn) (uuid : Text) (kept : Kept) : Turn :=
  { turn with desk := { turn.desk with files := turn.desk.files.insert uuid kept } }

def failUpdate (turn : Turn) (book : Book) (reason : Text) : Turn :=
  { turn with tally := { turn.tally with
    updateFailures := turn.tally.updateFailures ++ [noted book.title reason] } }

/-- The metadata step of a refresh; `touched` is whether the file was replaced before it. -/
def refreshMetadata (deps : RunDeps) (turn : Turn) (book : Book) (path : Text) (kept : Kept)
    (touched : Bool) : Turn :=
  let counted (turn : Turn) : Turn :=
    { turn with tally := { turn.tally with refreshed := turn.tally.refreshed + 1 } }
  if kept.metaVersion ≠ book.lastModified then
    match deps.applyMetadata book path with
    | some reason => failUpdate (keep turn book.uuid kept) book reason
    | none => counted (keep turn book.uuid { kept with metaVersion := book.lastModified })
  else if touched then counted (keep turn book.uuid kept)
  else keep turn book.uuid kept

def refreshBook (deps : RunDeps) (turn : Turn) (item : Book × Text) : Turn :=
  let (book, path) := item
  let kept := (turn.desk.files.lookup book.uuid).getD ⟨path, none, none, none⟩
  let formatChanged := pathExtension path != some (extension book)
  if (formatChanged ∨ kept.version ≠ book.lastModified) ∧ deps.canReplace path then
    match replaceFile deps turn book path kept with
    | (turn, .error reason) => failUpdate (keep turn book.uuid kept) book reason
    | (turn, .ok (kept, path)) => refreshMetadata deps turn book path kept true
  else refreshMetadata deps turn book path kept false

def failureMessage (verb : Text) (failures : List Text) : Option Text :=
  if failures = [] then none
  else
    some ("Couldn't ".toList ++ verb ++ [' '] ++ decimal failures.length ++ " book".toList ++
      (if failures.length = 1 then [] else ['s']) ++ ": ".toList ++
      List.intercalate "; ".toList failures)

def unreadableMessage : Text :=
  ("Omnibus sent a library this plugin could not read. Download the plugin again from " ++
    "Settings › Devices.").toList

def fetchLibrary (deps : RunDeps) : Except Text (List Book) :=
  match deps.library.code with
  | none =>
      .error ("Couldn't reach ".toList ++ deps.serverUrl ++ ": ".toList ++ deps.library.err)
  | some code =>
      if code = 401 then .error removedMessage
      else if code ≠ 200 then
        .error ("Omnibus answered HTTP ".toList ++ decimal code ++ ". Try again later.".toList)
      else
        match deps.library.books with
        | none => .error unreadableMessage
        | some books => .ok books

def emptyTally : Tally := ⟨0, 0, 0, 0, [], [], []⟩

def carryOut (deps : RunDeps) (books : List Book) (desk : Desk) : Turn :=
  let plan := plan desk.manifest books deps.dir desk.disk deps.openPath
  let refresh := refreshPlan desk.manifest desk.files books deps.dir desk.disk deps.openPath
  let forgot := plan.forget.foldl forgetBook ⟨desk, emptyTally⟩
  let deleted := plan.delete.foldl (deleteBook deps) forgot
  let downloaded := plan.download.foldl (downloadBook deps) deleted
  refresh.foldl (refreshBook deps) downloaded

structure RunResult where
  ok : Bool
  message : Option Text
  turn : Turn

def runSync (deps : RunDeps) (desk : Desk) : RunResult :=
  match fetchLibrary deps with
  | .error message => ⟨false, some message, ⟨desk, emptyTally⟩⟩
  | .ok books =>
      let turn := carryOut deps books desk
      let problems :=
        [failureMessage "download".toList turn.tally.downloadFailures,
          failureMessage "remove".toList turn.tally.removeFailures,
          failureMessage "update".toList turn.tally.updateFailures].filterMap id
      if problems = [] then ⟨true, none, turn⟩
      else ⟨false, some (List.intercalate "; ".toList problems), turn⟩

end Omnibus.Koreader
