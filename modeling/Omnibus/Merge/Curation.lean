import Omnibus.Merge.Merged

/-!
# Each reader's value, recorded and put back

`curation/mod.rs`: the plan by which an undo returns a reader's read status and review to
the books a merge took them from, and its replay. Both tables hold at most one row of a
reader and a book, so a row is known by its reader once the book is.
-/

namespace Omnibus.Merge

/-- A `book_read_status` row without its book or surrogate id. -/
structure ReadStatusRow where
  userId : Int
  status : String
  updatedAt : Int
  finishedAt : Option Int
  autoStarted : Bool
  deriving DecidableEq, Repr

namespace ReadStatusRow

def ofRow (row : DbRow) : ReadStatusRow where
  userId := Column.integer (row .userId)
  status := (Column.optionalText (row .status)).getD ""
  updatedAt := Column.integer (row .updatedAt)
  finishedAt := Column.optionalInteger (row .finishedAt)
  autoStarted := Column.integer (row .autoStarted) != 0

def write (status : ReadStatusRow) (stored : DbRow) : DbRow
  | .status => .text status.status
  | .updatedAt => .integer status.updatedAt
  | .finishedAt => Column.ofInteger status.finishedAt
  | .autoStarted => .integer (if status.autoStarted then 1 else 0)
  | column => stored column

def sameValue (left right : ReadStatusRow) : Bool :=
  left.status = right.status && left.finishedAt = right.finishedAt &&
    left.autoStarted = right.autoStarted

end ReadStatusRow

def ReviewRow.sameValue (left right : ReviewRow) : Bool :=
  left.halfStars = right.halfStars && left.bodyMd = right.bodyMd &&
    left.notesMd = right.notesMd && left.spoiler = right.spoiler

/-- A row of one reader, and how it is read and written. Writing an exact row and reading it
back gives the row. -/
class CurationRow (T : Type) where
  userId : T → Int
  sameValue : T → T → Bool
  ofRow : DbRow → T
  write : T → DbRow → DbRow
  Exact : T → Prop
  same_value_refl : ∀ row, sameValue row row = true
  user_of_row : ∀ stored, userId (ofRow stored) = Column.integer (stored .userId)
  write_keeps : ∀ row, ReviewRow.Keeps (write row)
  of_write : ∀ row stored, Exact row → Column.integer (stored .userId) = userId row →
    ofRow (write row stored) = row

instance : CurationRow ReadStatusRow where
  userId := ReadStatusRow.userId
  sameValue := ReadStatusRow.sameValue
  ofRow := ReadStatusRow.ofRow
  write := ReadStatusRow.write
  Exact _ := True
  same_value_refl row := by simp [ReadStatusRow.sameValue]
  user_of_row stored := rfl
  write_keeps row := by
    intro stored column member
    simp only [List.mem_cons, List.not_mem_nil, or_false] at member
    rcases member with rfl | rfl | rfl <;> rfl
  of_write row stored _ reader := by
    obtain ⟨userId, status, updatedAt, finishedAt, autoStarted⟩ := row
    change _ = userId at reader
    subst reader
    cases finishedAt <;> cases autoStarted <;> rfl

/-- What the schema's checks make of a review: stars and their date go together, and the row
has a creation date. -/
def ReviewRow.Dated (review : ReviewRow) : Prop :=
  review.halfStars.isSome = review.ratedAt.isSome ∧ review.createdAt.isSome = true

instance : CurationRow ReviewRow where
  userId := ReviewRow.userId
  sameValue := ReviewRow.sameValue
  ofRow := ReviewRow.ofRow
  write := ReviewRow.write
  Exact := ReviewRow.Dated
  same_value_refl row := by simp [ReviewRow.sameValue]
  user_of_row stored := rfl
  write_keeps := Merge.write_keeps
  of_write row stored dated reader := by
    obtain ⟨userId, halfStars, bodyMd, notesMd, spoiler, ratedAt, createdAt, updatedAt⟩ := row
    obtain ⟨stars, created⟩ := dated
    change _ = userId at reader
    subst reader
    cases createdAt with
    | none => cases created
    | some created =>
        cases halfStars <;> cases ratedAt <;> cases stars
        all_goals cases bodyMd <;> cases notesMd <;> cases spoiler <;> rfl

def isRow (book : Uuid) (user : Int) (stored : DbRow) : Bool :=
  (stored .userId).equals (.integer user) && onBook book stored

def blankRow (id : Int) (book : Uuid) (user : Int) : DbRow
  | .id => .integer id
  | .userId => .integer user
  | .bookUuid => .text book
  | _ => .null

section Rows

variable {T : Type} [CurationRow T]

def loadRows (table : DbTable) (book : Uuid) : List T :=
  ((table.rows.filter (onBook book)).map CurationRow.ofRow).mergeSort
    fun left right => CurationRow.userId left ≤ CurationRow.userId right

/-- `INSERT … ON CONFLICT(user_id, book_uuid) DO UPDATE`. -/
def writeRow (book : Uuid) (row : T) (table : DbTable) : DbTable :=
  if table.rows.any (isRow book (CurationRow.userId row)) then
    table.update (isRow book (CurationRow.userId row)) (CurationRow.write row)
  else
    let id := table.nextRowid true
    table.append id (CurationRow.write row (blankRow id book (CurationRow.userId row)))

end Rows

theorem write_review_eq : writeReview = writeRow := rfl

def loadStatus : DbTable → Uuid → List ReadStatusRow := loadRows

def writeStatus : Uuid → ReadStatusRow → DbTable → DbTable := writeRow

structure CurationSides (T : Type) where
  source : List T
  target : List T
  merged : List T

structure CurationSnapshot where
  status : CurationSides ReadStatusRow
  ratings : CurationSides ReviewRow

/-- The facts outside one table's rows that decide whether a reader's row can be settled. -/
structure PlanContext where
  liveUsers : List Int
  /-- Readers a later merge that is still open also moved a row of the table for. -/
  claimedByLaterMerges : List Int

inductive Unresolvable where
  | recurated (user : Int)
  | claimedByLaterMerge (user : Int)
  deriving DecidableEq, Repr

def conflict (what : String) : Unresolvable → String
  | .recurated user =>
      "the surviving book's " ++ what ++ " for user " ++ toString user ++
        " changed after the merge"
  | .claimedByLaterMerge user =>
      "a later merge into the surviving book also moved the " ++ what ++ " for user " ++
        toString user ++ "; undo that merge first"

structure RestorePlan (T : Type) where
  toSource : List T
  toTarget : List T
  /-- Readers whose target row must go away. -/
  clearTarget : List Int

section Plan

variable {T : Type} [CurationRow T]

def byUser (rows : List T) (user : Int) : Option T :=
  rows.find? fun row => CurationRow.userId row = user

def saysTheSame : Option T → Option T → Bool
  | some left, some right => CurationRow.sameValue left right
  | none, none => true
  | _, _ => false

/-- One turn of the loop of `plan_restore`. -/
def planRow (targetPre merged current : List T) (ctx : PlanContext) (plan : RestorePlan T)
    (row : T) : Except Unresolvable (RestorePlan T) :=
  let user := CurationRow.userId row
  if user ∉ ctx.liveUsers then .ok plan
  else if user ∈ ctx.claimedByLaterMerges then .error (.claimedByLaterMerge user)
  else if saysTheSame (byUser merged user) (byUser current user) then
    .ok (match byUser targetPre user with
      | some before =>
          { plan with
            toSource := plan.toSource ++ [row]
            toTarget := plan.toTarget ++ [before] }
      | none =>
          { plan with
            toSource := plan.toSource ++ [row]
            clearTarget := plan.clearTarget ++ [user] })
  else .error (.recurated user)

def planRestore (sourcePre targetPre merged current : List T) (ctx : PlanContext) :
    Except Unresolvable (RestorePlan T) :=
  sourcePre.foldlM (planRow targetPre merged current ctx) ⟨[], [], []⟩

/-- `DELETE … WHERE user_id = ? AND book_uuid = ?`. -/
def clearRow (book : Uuid) (table : DbTable) (user : Int) : DbTable :=
  table.delete (isRow book user)

def applyPlan (source target : Uuid) (plan : RestorePlan T) (table : DbTable) : DbTable :=
  let cleared := plan.clearTarget.foldl (clearRow target) table
  let restored := plan.toTarget.foldl (fun table row => writeRow target row table) cleared
  plan.toSource.foldl (fun table row => writeRow source row table) restored

/-- One table's half of the undo; it is refused with the message of its conflict. -/
def restoreRows (what : String) (source target : Uuid) (sides : CurationSides T)
    (ctx : PlanContext) (table : DbTable) : Except String DbTable :=
  match planRestore sides.source sides.target sides.merged (loadRows table target) ctx with
  | .ok plan => .ok (applyPlan source target plan table)
  | .error why => .error (conflict what why)

end Plan

def restoreStatus (source target : Uuid) (snap : CurationSnapshot) (ctx : PlanContext)
    (table : DbTable) : Except String DbTable :=
  restoreRows "read status" source target snap.status ctx table

def restoreRatings (source target : Uuid) (snap : CurationSnapshot) (ctx : PlanContext)
    (table : DbTable) : Except String DbTable :=
  restoreRows "review" source target snap.ratings ctx table

def loadLiveUsers (db : Db) : List Int := (db.parents .users).filterMap Column.optionalInteger

def restoreCuration (source target : Uuid) (snap : CurationSnapshot)
    (claimedStatus claimedRatings : List Int) (db : Db) : Except String Db := do
  let liveUsers := loadLiveUsers db
  let db ← db.modifyM .bookReadStatus
    (restoreStatus source target snap ⟨liveUsers, claimedStatus⟩)
  db.modifyM .reviews (restoreRatings source target snap ⟨liveUsers, claimedRatings⟩)

/-- `capture_pre` and, once the merge has moved the rows, `capture_post`. -/
def captureCuration (source target : Uuid) (before merged : Db) : CurationSnapshot where
  status :=
    { source := loadStatus (before.tables .bookReadStatus) source
      target := loadStatus (before.tables .bookReadStatus) target
      merged := loadStatus (merged.tables .bookReadStatus) target }
  ratings :=
    { source := loadRatings (before.tables .reviews) source
      target := loadRatings (before.tables .reviews) target
      merged := loadRatings (merged.tables .reviews) target }

section Plans

variable {T : Type} [CurationRow T]

theorem says_the_same_refl (row : Option T) : saysTheSame row row = true := by
  cases row with
  | none => rfl
  | some row => exact CurationRow.same_value_refl row

/-- Every row of the source goes back when the survivor says what the merge left it saying. -/
theorem plan_restore_unchanged (sourcePre targetPre merged current : List T)
    (ctx : PlanContext)
    (live : ∀ row ∈ sourcePre, CurationRow.userId row ∈ ctx.liveUsers)
    (unclaimed : ∀ row ∈ sourcePre, CurationRow.userId row ∉ ctx.claimedByLaterMerges)
    (unchanged : ∀ row ∈ sourcePre, saysTheSame (byUser merged (CurationRow.userId row))
      (byUser current (CurationRow.userId row)) = true) :
    planRestore sourcePre targetPre merged current ctx = .ok
      { toSource := sourcePre
        toTarget := sourcePre.filterMap fun row => byUser targetPre (CurationRow.userId row)
        clearTarget := (sourcePre.map CurationRow.userId).filter fun user =>
          byUser targetPre user = none } := by
  -- the loop goes on from what it has planned so far
  suffices run : ∀ plan : RestorePlan T,
      sourcePre.foldlM (planRow targetPre merged current ctx) plan = .ok
        { toSource := plan.toSource ++ sourcePre
          toTarget := plan.toTarget ++
            sourcePre.filterMap fun row => byUser targetPre (CurationRow.userId row)
          clearTarget := plan.clearTarget ++ (sourcePre.map CurationRow.userId).filter fun user =>
            byUser targetPre user = none } by
    simpa [planRestore] using run ⟨[], [], []⟩
  induction sourcePre with
  | nil => intro plan; simp; rfl
  | cons row rest induction =>
      intro plan
      have isLive := live row List.mem_cons_self
      have isFree := unclaimed row List.mem_cons_self
      have same := unchanged row List.mem_cons_self
      have rest := induction (fun other member => live other (List.mem_cons_of_mem _ member))
        (fun other member => unclaimed other (List.mem_cons_of_mem _ member))
        (fun other member => unchanged other (List.mem_cons_of_mem _ member))
      simp only [List.foldlM_cons, planRow, isLive, isFree, same, not_true_eq_false, if_false,
        if_true, bind, Except.bind]
      rw [rest]
      cases found : byUser targetPre (CurationRow.userId row) <;> simp [found]

end Plans

end Omnibus.Merge
