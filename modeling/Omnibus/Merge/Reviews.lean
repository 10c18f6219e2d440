import Omnibus.Merge.Schema

/-!
# Folding two reviews into one

`curation/mod.rs`: the review rows of a book, the rules by which a reader's two reviews
become one, and the write of a review row.
-/

namespace Omnibus.Merge

open Omnibus.Library.Sql

def onBook (book : Uuid) (row : DbRow) : Bool := (row .bookUuid).equals (.text book)

theorem on_book_iff (book : Uuid) (row : DbRow) :
    onBook book row = true ↔ row .bookUuid = .text book := by
  simp [onBook]

namespace Column

def optionalInteger : Value → Option Int
  | .integer number => some number
  | _ => none

def optionalText : Value → Option String
  | .text content => some content
  | _ => none

def integer (value : Value) : Int := (optionalInteger value).getD 0

def ofInteger : Option Int → Value
  | some number => .integer number
  | none => .null

def ofText : Option String → Value
  | some content => .text content
  | none => .null

end Column

/-- A `reviews` row without its book or surrogate id. -/
structure ReviewRow where
  userId : Int
  halfStars : Option Int
  bodyMd : Option String
  notesMd : Option String
  spoiler : Bool
  ratedAt : Option Int
  createdAt : Option Int
  updatedAt : Int
  deriving DecidableEq, Repr

namespace ReviewRow

def ofRow (row : DbRow) : ReviewRow where
  userId := Column.integer (row .userId)
  halfStars := Column.optionalInteger (row .halfStars)
  bodyMd := Column.optionalText (row .bodyMd)
  notesMd := Column.optionalText (row .notesMd)
  spoiler := Column.integer (row .spoiler) != 0
  ratedAt := Column.optionalInteger (row .ratedAt)
  createdAt := Column.optionalInteger (row .createdAt)
  updatedAt := Column.integer (row .updatedAt)

/-- `(rated_at, created_at)` to write back. -/
def restoredDates (row : ReviewRow) : Option Int × Int :=
  (row.halfStars.bind fun _ => row.ratedAt.or (some row.updatedAt),
    row.createdAt.getD row.updatedAt)

def isPublic (row : ReviewRow) : Bool := row.halfStars.isSome || row.bodyMd.isSome

/-- The side whose stars stand: the later rating, ties to the target, and never a side
without stars. -/
def rated (target source : ReviewRow) : ReviewRow :=
  match target.halfStars, source.halfStars with
  | some _, some _ =>
      -- an absent rating date is older than any
      match target.ratedAt, source.ratedAt with
      | none, some _ => source
      | some before, some after => if after > before then source else target
      | _, none => target
  | none, some _ => source
  | _, _ => target

def written (target source : ReviewRow) : ReviewRow :=
  match target.bodyMd, source.bodyMd with
  | some _, some _ => if source.updatedAt > target.updatedAt then source else target
  | none, some _ => source
  | some _, none => target
  | none, none => rated target source

def joinedNotes (newer older : ReviewRow) : Option String :=
  match newer.notesMd, older.notesMd with
  | some first, some second =>
      if first = second then some first else some (first ++ "\n\n" ++ second)
  | first, second => first.or second

/-- One reader's reviews of the two merged books as one that keeps everything either said. -/
def settle (target source : ReviewRow) : ReviewRow :=
  let (newer, older) :=
    if source.updatedAt > target.updatedAt then (source, target) else (target, source)
  let rated := rated target source
  let written := written target source
  let sides := [target, source]
  let visible := sides.filter isPublic
  let seen := if visible.isEmpty then sides else visible
  let begun := if written.bodyMd.isSome then sides.filter (·.bodyMd.isSome) else seen
  { userId := target.userId
    halfStars := rated.halfStars
    bodyMd := written.bodyMd
    notesMd := joinedNotes newer older
    spoiler := written.spoiler
    ratedAt := rated.restoredDates.1
    createdAt := (begun.map (·.restoredDates.2)).min?
    updatedAt := ((seen.map (·.updatedAt)).max?).getD target.updatedAt }

def write (review : ReviewRow) (stored : DbRow) : DbRow
  | .halfStars => Column.ofInteger review.halfStars
  | .bodyMd => Column.ofText review.bodyMd
  | .notesMd => Column.ofText review.notesMd
  | .spoiler => .integer (if review.spoiler then 1 else 0)
  | .ratedAt => Column.ofInteger review.restoredDates.1
  | .createdAt => .integer review.restoredDates.2
  | .updatedAt => .integer review.updatedAt
  | column => stored column

end ReviewRow

def loadRatings (table : DbTable) (book : Uuid) : List ReviewRow :=
  ((table.rows.filter (onBook book)).map ReviewRow.ofRow).mergeSort
    fun left right => left.userId ≤ right.userId

/-- `write_review`: `INSERT … ON CONFLICT(user_id, book_uuid) DO UPDATE`. -/
def writeReview (book : Uuid) (review : ReviewRow) (table : DbTable) : DbTable :=
  let same (row : DbRow) : Bool :=
    (row .userId).equals (.integer review.userId) && onBook book row
  if table.rows.any same then table.update same review.write
  else
    let id := table.nextRowid true
    let blank : DbRow := fun
      | .id => .integer id
      | .userId => .integer review.userId
      | .bookUuid => .text book
      | _ => .null
    table.append id (review.write blank)

/-- `settle_reviews`, over the `reviews` table. -/
def settleReviews (source target : Uuid) (table : DbTable) : DbTable :=
  let targets := loadRatings table target
  (loadRatings table source).foldl (fun table review =>
    match targets.find? (·.userId = review.userId) with
    | some found => writeReview target (ReviewRow.settle found review) table
    | none => table) table

/-- The columns a review write leaves alone. -/
def ReviewRow.Keeps (change : DbRow → DbRow) : Prop :=
  ∀ row, ∀ column ∈ [.id, .userId, .bookUuid], change row column = row column

theorem write_keeps (review : ReviewRow) : ReviewRow.Keeps review.write := by
  intro row column member
  simp only [List.mem_cons, List.not_mem_nil, or_false] at member
  rcases member with rfl | rfl | rfl <;> rfl

theorem write_review_rows (book : Uuid) (review : ReviewRow) (table : DbTable)
    (stored : ∃ row ∈ table.rows, row .userId = .integer review.userId ∧
      onBook book row = true) :
    ∃ change, ReviewRow.Keeps change ∧ writeReview book review table = table.mapRows change := by
  have same : (table.rows.any fun row =>
      (row .userId).equals (.integer review.userId) && onBook book row) = true := by
    obtain ⟨row, member, user, onBook⟩ := stored
    simp only [List.any_eq_true, Bool.and_eq_true]
    exact ⟨row, member, (Value.equals_iff _ _).mpr ⟨by rw [user]; nofun, user⟩, onBook⟩
  refine ⟨_, ?_, (if_pos same).trans (table.update_eq_map_rows _ _)⟩
  intro row column member
  dsimp only
  split
  · exact write_keeps review row column member
  · rfl

theorem settle_reviews_rows (source target : Uuid) (table : DbTable)
    (users : ∀ row ∈ table.rows, ∃ user : Int, row .userId = .integer user) :
    ∃ change, ReviewRow.Keeps change ∧
      settleReviews source target table = table.mapRows change := by
  have targets : ∀ found ∈ loadRatings table target,
      ∃ row ∈ table.rows, row .userId = .integer found.userId ∧ onBook target row = true := by
    intro found member
    simp only [loadRatings, List.mem_mergeSort, List.mem_map, List.mem_filter] at member
    obtain ⟨row, ⟨rowMem, onTarget⟩, rfl⟩ := member
    obtain ⟨user, isUser⟩ := users row rowMem
    exact ⟨row, rowMem, by simp [ReviewRow.ofRow, isUser, Column.integer, Column.optionalInteger],
      onTarget⟩
  unfold settleReviews
  generalize loadRatings table source = reviews
  generalize loadRatings table target = found at targets
  -- the writes so far are one rewrite that keeps the keys
  suffices run : ∀ change, ReviewRow.Keeps change → ∃ change', ReviewRow.Keeps change' ∧
      reviews.foldl (fun table review =>
        match found.find? (·.userId = review.userId) with
        | some other => writeReview target (ReviewRow.settle other review) table
        | none => table) (table.mapRows change) = table.mapRows change' by
    have start := run id fun _ _ _ => rfl
    simpa only [Table.map_rows_id] using start
  induction reviews with
  | nil => exact fun change keeps => ⟨change, keeps, rfl⟩
  | cons review rest induction =>
      intro change keeps
      simp only [List.foldl_cons]
      split
      · rename_i other isFound
        obtain ⟨row, rowMem, user, onTarget⟩ := targets other (List.mem_of_find?_eq_some isFound)
        obtain ⟨next, nextKeeps, written⟩ := write_review_rows target
          (ReviewRow.settle other review) (table.mapRows change) ⟨change row, by
            rw [Table.map_rows_rows]
            exact List.mem_map_of_mem rowMem, by
            rw [keeps row .userId (by simp)]
            exact user, by
            rw [on_book_iff] at *
            rw [keeps row .bookUuid (by simp)]
            exact onTarget⟩
        rw [written, Table.map_rows_map_rows]
        exact induction _ fun row column member =>
          (nextKeeps (change row) column member).trans (keeps row column member)
      · exact induction change keeps

end Omnibus.Merge
