import Omnibus.BookPages.Rows

/-!
# The page query

`list_books_page` with its keyset predicate, expanded term by term as the source does, and the
cursor it hands out. A cursor's text is the JSON object it encodes, and JSON has no number that is
not finite.
-/

namespace Omnibus.BookPages

open Omnibus.Library.Strings Omnibus.Library.Keyset

structure PageCursor where
  sort : Option Text
  idx : Option Real
  id : Int
  deriving DecidableEq

structure CursorJson where
  s : Option Text
  x : Option ℚ
  id : Int
  deriving DecidableEq

/-- A non-finite `idx` is coerced to `None`. -/
def PageCursor.encode (cursor : PageCursor) : CursorJson :=
  ⟨cursor.sort, cursor.idx.bind Real.finite, cursor.id⟩

def PageCursor.decode (json : CursorJson) : PageCursor :=
  ⟨json.s, json.x.map fun number => ((number : WithTop ℚ) : Real), json.id⟩

/-- An ordered keyset term: the column and the cursor's value for it. -/
inductive Term where
  | text (cmp : Text → Text → Ordering) (column : Listed → Option Text) (value : Option Text)
  | real (column : Listed → Option Real) (value : Option Real)
  | int (column : Listed → Int) (value : Int)

def Term.eqSql (row : Listed) : Term → Bool
  | .text _ column none => (column row).isNone
  | .text cmp column (some value) => (column row).any fun own => cmp own value = .eq
  | .real column none => (column row).isNone
  | .real column (some value) => (column row).any fun own => compare own value = .eq
  | .int column value => column row = value

/-- Strict comparison with a present value: a smaller row or the NULL tail when descending. -/
def strictPresent (dir : SortDir) (compared : Option Ordering) : Bool :=
  match dir with
  | .asc => compared.any (· = .gt)
  | .desc => compared.all (· = .lt)

/-- Strictly after the cursor's value; none where no row can be. -/
def Term.strictAfterSql (dir : SortDir) : Term → Option (Listed → Bool)
  | .int column value =>
      match dir with
      | .asc => some fun row => column row > value
      | .desc => some fun row => column row < value
  | .text _ column none =>
      match dir with
      | .asc => some fun row => (column row).isSome
      | .desc => none
  | .real column none =>
      match dir with
      | .asc => some fun row => (column row).isSome
      | .desc => none
  | .text cmp column (some value) =>
      some fun row => strictPresent dir ((column row).map (cmp · value))
  | .real column (some value) =>
      some fun row => strictPresent dir ((column row).map (compare · value))

/-- The clauses fix the terms before one and compare on it; a clause that selects nothing is
dropped. -/
def keysetPredicate (terms : List Term) (dir : SortDir) (row : Listed) : Bool :=
  (List.range terms.length).any fun i =>
    (terms[i]?).any fun term =>
      (term.strictAfterSql dir).any fun after =>
        (terms.take i).all (·.eqSql row) && after row

/-- What a page is asked over. The filter's predicate is any over the joined rows. -/
structure Request where
  libraryPaths : List Text
  filters : Listed → Bool
  excludeFormats : List Text

def nocase (text : Text) : Text := text.map Char.toLower

def hasPhysical (db : Database) (row : Listed) : Bool :=
  db.copies.any (·.bookUuid = row.book.uuid)

def visibleBook (db : Database) (request : Request) (row : Listed) : Bool :=
  row.root.path ∈ request.libraryPaths && db.files.any (·.bookId = row.book.id) ||
    hasPhysical db row

def excludeFormatsPredicate (db : Database) (request : Request) (row : Listed) : Bool :=
  if request.excludeFormats = [] then true
  else
    db.files.any (fun file => file.bookId = row.book.id ∧
      nocase file.format ∉ request.excludeFormats.map nocase) || hasPhysical db row

def admits (db : Database) (request : Request) (row : Listed) : Bool :=
  visibleBook db request row && request.filters row && excludeFormatsPredicate db request row

/-- The rows `count_books_page` counts. -/
def counted (db : Database) (request : Request) : List Listed :=
  if request.libraryPaths = [] then [] else db.joined.filter (admits db request)

def countBooksPage (db : Database) (request : Request) : Nat := (counted db request).length

def maxBooksReturned : Int := 50000

/-- `limit.clamp(1, MAX_BOOKS_RETURNED)`. -/
def pageLimit (limit : Int) : Nat := (max 1 (min limit maxBooksReturned)).toNat

structure BookPage where
  books : List Listed
  next : Option PageCursor

section Pages

variable (functions : Functions) (db : Database) (sort : SortKey) (dir : SortDir)

def axisTerms (cursor : PageCursor) : List Term :=
  let (primary, secondary) := axisSortColumns functions db sort
  Term.text (collation functions sort) primary cursor.sort ::
    (secondary.map fun secondary => Term.real secondary cursor.idx).toList ++
    [Term.int (·.book.id) cursor.id]

def cursorFromRow (row : Listed) : PageCursor where
  sort := (axisSortColumns functions db sort).1 row
  idx := (axisSortColumns functions db sort).2.bind fun secondary => secondary row
  id := row.book.id

def seeks (cursor : PageCursor) (row : Listed) : Bool :=
  keysetPredicate (axisTerms functions db sort cursor) dir row

/-- One page of the rows that `stacked` keeps, read one row beyond its limit. -/
def fetchPage (request : Request) (stacked : Listed → Bool) (cursor : Option PageCursor)
    (limit : Int) : BookPage :=
  if request.libraryPaths = [] then ⟨[], none⟩
  else
    let limit := pageLimit limit
    let rows := (sortBy (pageCmp functions db sort dir) (db.joined.filter fun row =>
      admits db request row && stacked row &&
        cursor.all fun cursor => seeks functions db sort dir cursor row)).take (limit + 1)
    let take := min rows.length limit
    { books := rows.take take
      next := if limit < rows.length then
        (rows[take - 1]?).map (cursorFromRow functions db sort) else none }

/-- No row is left out for a series' representative. -/
def unstacked (_ : Listed) : Bool := true

def listBooksPage (request : Request) (cursor : Option PageCursor) (limit : Int) : BookPage :=
  fetchPage functions db sort dir request unstacked cursor limit

end Pages

end Omnibus.BookPages
