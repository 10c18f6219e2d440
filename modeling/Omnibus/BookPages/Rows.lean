import Mathlib.Algebra.Order.Field.Rat
import Mathlib.Data.Rat.Init
import Mathlib.Order.Compare
import Mathlib.Order.WithBot
import Omnibus.Library.Keyset
import Omnibus.Library.Strings

/-!
# The rows of a book page

The joined rows a page reads, the values of their sort axes under the overrides, and the order of
each axis. A REAL is a rational or an infinity; SQLite stores no NaN.
-/

namespace Omnibus.BookPages

open Omnibus.Library.Strings Omnibus.Library.Keyset

abbrev Real := WithBot (WithTop ℚ)

def Real.finite (number : Real) : Option ℚ :=
  match number with
  | some (some number) => some number
  | _ => none

/-- What is called outside the repository: SQLite's `strftime` of a unix time, its `CAST` of a
text to REAL, and the Unicode folding of the dictionary order. -/
structure Functions where
  strftime : Int → Option Text
  castReal : Text → Real
  fold : Text → Text

inductive SortKey where
  | title | author | lastUpdated | newestAdded | series | recentlyInteracted
  deriving DecidableEq, Repr

inductive SortDir where
  | asc | desc
  deriving DecidableEq, Repr

structure ScanRoot where
  id : Int
  path : Text
  metadataPrecedence : Option Text
  deriving DecidableEq

structure Book where
  id : Int
  uuid : Text
  libraryId : Int
  title : Option Text
  sort : Option Text
  authorSort : Option Text
  seriesSort : Option Text
  seriesIndex : Option Real
  lastModified : Option Int
  timestamp : Option Int
  deriving DecidableEq

structure BookFile where
  bookId : Int
  format : Text
  deriving DecidableEq

structure PhysicalCopy where
  bookUuid : Text
  checkedInAt : Int
  deriving DecidableEq

structure Review where
  bookUuid : Text
  updatedAt : Int
  halfStars : Option Int
  bodyMd : Option Text
  deriving DecidableEq

structure JournalEntry where
  bookUuid : Text
  createdAt : Int
  updatedAt : Int
  status : Text
  deriving DecidableEq

structure ReadStatus where
  bookUuid : Text
  updatedAt : Int
  deriving DecidableEq

structure Series where
  id : Int
  name : Text
  deriving DecidableEq

/-- What the overrides hold under a key; a blob that does not parse holds nothing. -/
inductive Field where
  | absent
  | text (content : Text)
  | other
  deriving DecidableEq

structure Creator where
  name : Option Text
  fileAs : Option Text
  deriving DecidableEq

/-- `creators` where the key holds an array. -/
structure Overrides where
  title : Field
  series : Field
  seriesIndex : Field
  creators : Option (List Creator)
  deriving DecidableEq

/-- A name that a cleanup merge folded into a series. -/
structure SeriesAlias where
  aliasName : Text
  canonicalId : Int
  deriving DecidableEq

instance lawfulPairs : LawfulBEq (Int × Int) := inferInstance

structure Database where
  roots : List ScanRoot
  books : List Book
  files : List BookFile
  copies : List PhysicalCopy
  reviews : List Review
  journal : List JournalEntry
  readStatuses : List ReadStatus
  series : List Series
  booksSeries : List (Int × Int)
  seriesAliases : List SeriesAlias
  overrides : Text → Option Overrides
  ids : (books.map (·.id)).Nodup

structure Listed where
  book : Book
  root : ScanRoot
  overrides : Option Overrides
  deriving DecidableEq

/-- The rows of `books b JOIN scan_roots l LEFT JOIN metadata_overrides mo`. -/
def Database.joined (db : Database) : List Listed :=
  db.books.filterMap fun book =>
    (db.roots.find? (·.id = book.libraryId)).map fun root => ⟨book, root, db.overrides book.uuid⟩

/-- The first position of the pattern, from 1, or 0. -/
def instr (text pattern : Text) : Nat :=
  match text.tails.findIdx? (pattern.isPrefixOf ·) with
  | some position => position + 1
  | none => 0

/-- SQLite's `trim`: spaces alone. -/
def trimSpaces (text : Text) : Text := (text.dropWhile (· = ' ')).rdropWhile (· = ' ')

def nullIfEmpty (text : Option Text) : Option Text := text.filter (· ≠ [])

def overridesWin (row : Listed) : Bool :=
  let precedence := row.root.metadataPrecedence.getD []
  let overrides := instr precedence "\"omnibus_overrides\"".toList
  let embedded := instr precedence "\"embedded_tags\"".toList
  overrides = 0 ∨ embedded = 0 ∨ overrides > embedded

/-- A winning override of a text field; the empty text counts as present. -/
def overridePresent (field : Overrides → Field) (row : Listed) : Option Text :=
  if overridesWin row then
    match row.overrides.map field with
    | some (.text content) => some content
    | _ => none
  else none

/-- A present override outright, NULL where it is empty, and the scanned value otherwise. -/
def effectiveText (field : Overrides → Field) (scanned : Listed → Option Text) (row : Listed) :
    Option Text :=
  match overridePresent field row with
  | some content => nullIfEmpty (some content)
  | none => scanned row

def creatorSort (fileAs name : Option Text) : Option Text :=
  if fileAs.any (',' ∈ ·) then fileAs
  else (nullIfEmpty (name.map trimSpaces)).or fileAs

def effectiveAuthor (row : Listed) : Option Text :=
  match if overridesWin row then row.overrides.bind (·.creators) else none with
  | some creators =>
      creatorSort (nullIfEmpty (creators.head?.bind (·.fileAs)))
        (nullIfEmpty (creators.head?.bind (·.name)))
  | none => row.book.authorSort

/-- `COALESCE(MAX(..), 0)`. -/
def latest (times : List Int) : Int := times.max?.getD 0

def interactedAt (db : Database) (row : Listed) : Option Int :=
  let uuid := row.book.uuid
  let reviews := db.reviews.filter fun review =>
    review.bookUuid = uuid ∧ (review.halfStars.isSome ∨ review.bodyMd.isSome)
  let journal := db.journal.filter fun entry =>
    entry.bookUuid = uuid ∧ entry.status = "published".toList
  let moments := [row.book.lastModified.getD 0, row.book.timestamp.getD 0,
    latest (reviews.map (·.updatedAt)),
    latest (journal.map fun entry => max entry.createdAt entry.updatedAt),
    latest ((db.readStatuses.filter (·.bookUuid = uuid)).map (·.updatedAt)),
    latest ((db.copies.filter (·.bookUuid = uuid)).map (·.checkedInAt))]
  (moments.max?).filter (· ≠ 0)

section Axes

variable (functions : Functions) (db : Database)

def effectiveIndex (row : Listed) : Option Real :=
  match overridePresent (·.seriesIndex) row with
  | some content => (nullIfEmpty (some content)).map functions.castReal
  | none => row.book.seriesIndex

def axisSortColumns (sort : SortKey) :
    (Listed → Option Text) × Option (Listed → Option Real) :=
  match sort with
  | .title => (effectiveText (·.title) (·.book.sort), none)
  | .author => (effectiveAuthor, none)
  | .lastUpdated => (fun row => row.book.lastModified.bind functions.strftime, none)
  | .newestAdded => (fun row => row.book.timestamp.bind functions.strftime, none)
  | .series => (effectiveText (·.series) (·.book.seriesSort), some (effectiveIndex functions))
  | .recentlyInteracted => (fun row => (interactedAt db row).bind functions.strftime, none)

/-- Accents and case ignored, and the plain spelling first on a tie. -/
def dictionaryCmp : Text → Text → Ordering := compareLex (compareOn functions.fold) compare

/-- `rsplit_once(' ')`. -/
def rsplitSpace (text : Text) : Option (Text × Text) :=
  (splitOnce ' ' text.reverse).map fun parts => (parts.2.reverse, parts.1.reverse)

def authorKey (name : Text) : Text :=
  let name := trim name
  if ',' ∈ name then name
  else
    match rsplitSpace name with
    | some (rest, last) => last ++ ", ".toList ++ rest
    | none => name

def authorDictionaryCmp (left right : Text) : Ordering :=
  dictionaryCmp functions (authorKey left) (authorKey right)

def collation (sort : SortKey) : Text → Text → Ordering :=
  match sort with
  | .title | .series => dictionaryCmp functions
  | .author => authorDictionaryCmp functions
  | .lastUpdated | .newestAdded | .recentlyInteracted => compare

/-- `ORDER BY` the columns of an axis ascending, NULL first, with the id last. -/
def axisCmp (sort : SortKey) (left right : Listed) : Ordering :=
  let (primary, secondary) := axisSortColumns functions db sort
  ((nullsFirst (collation functions sort) (primary left) (primary right)).then
    (match secondary with
    | some secondary => nullsFirst compare (secondary left) (secondary right)
    | none => .eq)).then (compare left.book.id right.book.id)

def directed (dir : SortDir) (ordering : Ordering) : Ordering :=
  match dir with
  | .asc => ordering
  | .desc => ordering.swap

def pageCmp (sort : SortKey) (dir : SortDir) (left right : Listed) : Ordering :=
  directed dir (axisCmp functions db sort left right)

instance : Std.TransCmp (dictionaryCmp functions) := by
  unfold dictionaryCmp
  infer_instance

instance : Std.TransCmp (authorDictionaryCmp functions) :=
  trans_on (dictionaryCmp functions) authorKey

instance (sort : SortKey) : Std.TransCmp (collation functions sort) := by
  cases sort <;> unfold collation <;> infer_instance

instance (sort : SortKey) : Std.TransCmp (axisCmp functions db sort) := by
  have primary := trans_on (nullsFirst (collation functions sort))
    (axisSortColumns functions db sort).1
  have secondary : Std.TransCmp fun left right : Listed =>
      match (axisSortColumns functions db sort).2 with
      | some secondary => nullsFirst compare (secondary left) (secondary right)
      | none => .eq := by
    cases (axisSortColumns functions db sort).2 with
    | some secondary => exact trans_on (nullsFirst compare) secondary
    | none => exact { eq_swap := rfl, isLE_trans := fun _ _ => rfl }
  have ids := trans_on (compare : Int → Int → Ordering) fun row : Listed => row.book.id
  exact trans_then _ _ (trans_then _ _ primary secondary) ids

instance (sort : SortKey) (dir : SortDir) : Std.TransCmp (pageCmp functions db sort dir) := by
  cases dir with
  | asc => exact inferInstanceAs (Std.TransCmp (axisCmp functions db sort))
  | desc =>
      have swapped : pageCmp functions db sort .desc =
          fun left right => axisCmp functions db sort right left := by
        funext left right
        exact (@Std.OrientedCmp.eq_swap _ (axisCmp functions db sort) _ _ _).symm
      rw [swapped]
      infer_instance

end Axes

end Omnibus.BookPages
