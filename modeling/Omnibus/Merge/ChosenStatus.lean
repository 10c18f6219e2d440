import Omnibus.Merge.LatestKept
import Mathlib.Data.List.Induction

/-!
# The status a merge keeps

On one book a status the reader chose outranks one a position started, whatever their dates.
The merge of two books goes by the dates alone.
-/

namespace Omnibus.Merge

open Omnibus.Library.Sql

section WritePath

/-- The calls that write one reader's status of one book, each with the second it runs at where
it reads the clock. -/
inductive StatusCall where
  | setReadStatusAt (now eventAt : Int) (status : String)
  | markStarted (clientUpdatedAt : Int)
  deriving DecidableEq, Repr

variable (userId : Int) (book : Uuid)

/-- The row `set_read_status_at_tx` offers; an event ahead of the clock is clamped to it. -/
def offeredStatus (now eventAt : Int) (status : String) (id : Int) : DbRow :=
  Row.of
    [(.id, .integer id), (.userId, .integer userId), (.bookUuid, .text book),
      (.status, .text status), (.updatedAt, .integer (min eventAt now)),
      (.finishedAt, if status = "finished" then .integer (min eventAt now) else .null),
      (.autoStarted, .integer 0)]

/-- Its `DO UPDATE SET`. -/
def overwriteStatus (excluded stored : DbRow) : DbRow
  | .status => excluded .status
  | .updatedAt => excluded .updatedAt
  | .autoStarted => .integer 0
  | .finishedAt =>
      if excluded .status = .text "finished" then
        (stored .finishedAt).coalesce (excluded .updatedAt)
      else .null
  | column => stored column

def setReadStatusAt (now eventAt : Int) (status : String) (table : DbTable) : DbTable :=
  let id := table.nextRowid true
  let excluded := offeredStatus userId book now eventAt status id
  if table.conflicts [[.userId, .bookUuid]] excluded then
    table.update
      (fun stored => agree [.userId, .bookUuid] stored excluded &&
        ((stored .updatedAt).atMost (excluded .updatedAt) || stored .autoStarted = .integer 1))
      (overwriteStatus excluded)
  else table.append id excluded

/-- The row `mark_started` offers. -/
def startedStatus (clientUpdatedAt id : Int) : DbRow :=
  Row.of
    [(.id, .integer id), (.userId, .integer userId), (.bookUuid, .text book),
      (.status, .text "reading"), (.updatedAt, .integer clientUpdatedAt),
      (.autoStarted, .integer 1)]

def markStarted (clientUpdatedAt : Int) (table : DbTable) : DbTable :=
  let id := table.nextRowid true
  table.insertOrIgnore [[.userId, .bookUuid]] id (startedStatus userId book clientUpdatedAt id)

def runCall (table : DbTable) : StatusCall → DbTable
  | .setReadStatusAt now eventAt status => setReadStatusAt userId book now eventAt status table
  | .markStarted clientUpdatedAt => markStarted userId book clientUpdatedAt table

def IsStatusOf (row : DbRow) : Prop := row .userId = .integer userId ∧ row .bookUuid = .text book

/-- The row has a status that one of the calls chose. -/
def Chosen (calls : List StatusCall) (row : DbRow) : Prop :=
  row .autoStarted = .integer 0 ∧ ∃ now eventAt status,
    .setReadStatusAt now eventAt status ∈ calls ∧ row .status = .text status

def StatusCall.chooses : StatusCall → Bool
  | .setReadStatusAt .. => true
  | .markStarted _ => false

/-- What the calls leave: a chosen status if one of them chooses. -/
structure ByProvenance (calls : List StatusCall) (table : DbTable) : Prop where
  held : calls ≠ [] → ∃ row ∈ table.rows, IsStatusOf userId book row
  rows : ∀ row ∈ table.rows, IsStatusOf userId book row →
    Chosen calls row ∨ (row .autoStarted = .integer 1 ∧ ∀ call ∈ calls, call.chooses = false)

variable {userId} {book} {table : DbTable} {calls : List StatusCall}

theorem agree_offered_iff {excluded : DbRow} (isStatus : IsStatusOf userId book excluded)
    (stored : DbRow) :
    agree [.userId, .bookUuid] stored excluded = true ↔ IsStatusOf userId book stored := by
  rw [agree_iff]
  simp only [List.mem_cons, List.not_mem_nil, or_false, forall_eq_or_imp, forall_eq, IsStatusOf,
    isStatus.1, isStatus.2]
  constructor
  · rintro ⟨⟨_, user⟩, _, book⟩
    exact ⟨user, book⟩
  · rintro ⟨user, book⟩
    rw [user, book]
    exact ⟨⟨by simp, rfl⟩, by simp, rfl⟩

theorem conflicts_offered_iff {excluded : DbRow} (isStatus : IsStatusOf userId book excluded) :
    table.conflicts [[.userId, .bookUuid]] excluded = true ↔
      ∃ row ∈ table.rows, IsStatusOf userId book row := by
  simp only [Table.conflicts, List.any_eq_true, List.mem_singleton, exists_eq_left,
    agree_offered_iff isStatus]

theorem chosen_more {row : DbRow} {more : List StatusCall} (chosen : Chosen calls row) :
    Chosen (calls ++ more) row := by
  obtain ⟨flag, now, eventAt, status, member, same⟩ := chosen
  exact ⟨flag, now, eventAt, status, List.mem_append_left _ member, same⟩

theorem append_by_provenance (free : ¬∃ row ∈ table.rows, IsStatusOf userId book row)
    (rowid : Int) (row : DbRow) (isStatus : IsStatusOf userId book row)
    (told : Chosen calls row ∨
      (row .autoStarted = .integer 1 ∧ ∀ call ∈ calls, call.chooses = false)) :
    ByProvenance userId book calls (table.append rowid row) where
  held _ :=
    ⟨row, (Table.append_rows ..).symm ▸ List.mem_append_right _ List.mem_cons_self, isStatus⟩
  rows := by
    intro other member isOther
    rw [Table.append_rows, List.mem_append, List.mem_singleton] at member
    rcases member with stored | rfl
    · exact absurd ⟨other, stored, isOther⟩ free
    · exact told

/-- An explicit status lands over a started one, and over a chosen one leaves a chosen one. -/
theorem set_by_provenance (left : ByProvenance userId book calls table)
    (now eventAt : Int) (status : String) :
    ByProvenance userId book (calls ++ [.setReadStatusAt now eventAt status])
      (setReadStatusAt userId book now eventAt status table) := by
  have offered : IsStatusOf userId book
      (offeredStatus userId book now eventAt status (table.nextRowid true)) := ⟨rfl, rfl⟩
  have isCall : StatusCall.setReadStatusAt now eventAt status ∈
      calls ++ [.setReadStatusAt now eventAt status] := List.mem_append_right _ (by simp)
  unfold setReadStatusAt
  dsimp only
  split
  · next conflict =>
      rw [conflicts_offered_iff offered] at conflict
      constructor
      · intro _
        obtain ⟨row, member, isStatus⟩ := conflict
        refine ⟨_, (Table.update_rows ..).symm ▸ List.mem_map_of_mem member, ?_⟩
        split
        · exact isStatus
        · exact isStatus
      · intro row member isStatus
        rw [Table.update_rows, List.mem_map] at member
        obtain ⟨stored, storedMem, rfl⟩ := member
        split at isStatus
        · next selected =>
            rw [if_pos selected]
            exact .inl ⟨rfl, now, eventAt, status, isCall, rfl⟩
        · next kept =>
            rw [if_neg kept]
            rcases left.rows stored storedMem isStatus with chosen | ⟨started, _⟩
            · exact .inl (chosen_more chosen)
            · rw [Bool.and_eq_true, Bool.or_eq_true, agree_offered_iff offered] at kept
              exact absurd ⟨isStatus, .inr (decide_eq_true started)⟩ kept
  · next free =>
      rw [conflicts_offered_iff offered] at free
      exact append_by_provenance free _ _ offered (.inl ⟨rfl, now, eventAt, status, isCall, rfl⟩)

theorem start_by_provenance (left : ByProvenance userId book calls table)
    (clientUpdatedAt : Int) :
    ByProvenance userId book (calls ++ [.markStarted clientUpdatedAt])
      (markStarted userId book clientUpdatedAt table) := by
  have offered : IsStatusOf userId book
      (startedStatus userId book clientUpdatedAt (table.nextRowid true)) := ⟨rfl, rfl⟩
  unfold markStarted Table.insertOrIgnore
  dsimp only
  split
  · next conflict =>
      rw [conflicts_offered_iff offered] at conflict
      refine ⟨fun _ => conflict, fun row member isStatus => ?_⟩
      refine (left.rows row member isStatus).imp chosen_more fun ⟨started, unchosen⟩ =>
        ⟨started, ?_⟩
      intro call callMem
      rcases List.mem_append.mp callMem with earlier | last
      · exact unchosen call earlier
      · rw [List.mem_singleton.mp last]
        rfl
  · next free =>
      rw [conflicts_offered_iff offered] at free
      have noCalls : calls = [] := by
        by_contra some
        exact free (left.held some)
      refine append_by_provenance free _ _ offered (.inr ⟨rfl, ?_⟩)
      rw [noCalls]
      simp [StatusCall.chooses]

theorem calls_by_provenance (calls : List StatusCall)
    (fresh : ∀ row ∈ table.rows, ¬IsStatusOf userId book row) :
    ByProvenance userId book calls (calls.foldl (runCall userId book) table) := by
  induction calls using List.reverseRecOn with
  | nil => exact ⟨fun some => absurd rfl some, fun row member isStatus =>
      absurd isStatus (fresh row member)⟩
  | append_singleton calls call ih =>
      rw [List.foldl_append]
      cases call with
      | setReadStatusAt now eventAt status => exact set_by_provenance ih now eventAt status
      | markStarted clientUpdatedAt => exact start_by_provenance ih clientUpdatedAt

theorem calls_leave_chosen (calls : List StatusCall)
    (fresh : ∀ row ∈ table.rows, ¬IsStatusOf userId book row)
    (chosen : ∃ call ∈ calls, call.chooses = true) :
    ∃ row ∈ (calls.foldl (runCall userId book) table).rows,
      IsStatusOf userId book row ∧ Chosen calls row := by
  have left := calls_by_provenance calls fresh
  obtain ⟨call, callMem, chooses⟩ := chosen
  obtain ⟨row, member, isStatus⟩ := left.held (List.ne_nil_of_mem callMem)
  refine ⟨row, member, isStatus, (left.rows row member isStatus).resolve_right ?_⟩
  intro started
  rw [started.2 call callMem] at chooses
  cases chooses

end WritePath

section Merged

def chosenOf (sourceRow targetRow : DbRow) : DbRow :=
  if targetRow .autoStarted = .integer 0 then targetRow else sourceRow

def KeepsChosen (source target : Uuid) (now : Int) (db : Db) (sourceRow targetRow : DbRow) :
    Prop :=
  ∃ merged row, moveProgressAndHistory source target now db = .ok merged ∧
    heldRows .bookReadStatus [.userId] target targetRow merged = [row] ∧
    row .status = chosenOf sourceRow targetRow .status ∧ row .autoStarted = .integer 0

def OneChosen (sourceRow targetRow : DbRow) : Prop :=
  sourceRow .autoStarted = .integer 0 ∧ targetRow .autoStarted = .integer 1 ∨
    sourceRow .autoStarted = .integer 1 ∧ targetRow .autoStarted = .integer 0

/-- The merge keeps the chosen status exactly when it has the later stamp, a tie counting for
the target; the calls on one book keep it in every order. -/
theorem keeps_chosen_iff (source target : Uuid) (now : Int) (db : Db)
    (sourceRow targetRow : DbRow) (different : source ≠ target) (valid : db.Valid)
    (sourceMem : sourceRow ∈ (db.tables .bookReadStatus).rows)
    (targetMem : targetRow ∈ (db.tables .bookReadStatus).rows)
    (onSource : onBook source sourceRow = true) (onTarget : onBook target targetRow = true)
    (agreed : agree [.userId] sourceRow targetRow = true)
    (provenance : OneChosen sourceRow targetRow) :
    (KeepsChosen source target now db sourceRow targetRow ↔
      ((sourceRow .updatedAt).atMost (targetRow .updatedAt) = true ↔
        targetRow .autoStarted = .integer 0)) ∧
    ∀ (userId : Int) (book : Uuid) (table : DbTable) (calls : List StatusCall),
      (∀ row ∈ table.rows, ¬IsStatusOf userId book row) →
      (∃ call ∈ calls, call.chooses = true) →
      ∃ row ∈ (calls.foldl (runCall userId book) table).rows,
        IsStatusOf userId book row ∧ Chosen calls row := by
  refine ⟨?_, fun userId book table calls fresh chosen => calls_leave_chosen calls fresh chosen⟩
  have held := latest_status.held source target now different valid sourceMem targetMem onSource
    onTarget agreed
  have kept : KeepsChosen source target now db sourceRow targetRow ↔
      latest sourceRow targetRow .status = chosenOf sourceRow targetRow .status ∧
        latest sourceRow targetRow .autoStarted = .integer 0 := by
    unfold KeepsChosen
    simp only [move_progress_and_history source target now different db valid, held,
      Except.ok.injEq, List.cons.injEq, and_true, exists_and_left, exists_eq_left']
    rw [Function.update_of_ne (by decide), Function.update_of_ne (by decide)]
  rw [kept, latest, chosenOf]
  have unlike : (1 : Int) ≠ 0 := by decide
  rcases provenance with ⟨chosen, started⟩ | ⟨started, chosen⟩
  · by_cases stamp : (sourceRow .updatedAt).atMost (targetRow .updatedAt) = true
    · simp [stamp, started]
    · simp [stamp, started, chosen]
  · by_cases stamp : (sourceRow .updatedAt).atMost (targetRow .updatedAt) = true
    · simp [stamp, chosen]
    · simp [stamp, started, chosen]

end Merged

section Replay

/-- Reader 1's status of `book`. -/
def statusEntry (id : Int) (status : String) (updatedAt autoStarted : Int) (book : Uuid) :
    List (ColumnName × Value) :=
  [(.id, .integer id), (.userId, .integer 1), (.bookUuid, .text book), (.status, .text status),
    (.updatedAt, .integer updatedAt), (.autoStarted, .integer autoStarted)]

/-- The reader said they had finished the book after a position had started the other. -/
def saidLast : List (List (ColumnName × Value)) :=
  [statusEntry 1 "finished" 20 0 "a", statusEntry 2 "reading" 10 1 "b"]

/-- A position started the other book after the reader had finished this one. -/
def startedLast : List (List (ColumnName × Value)) :=
  [statusEntry 1 "finished" 10 0 "a", statusEntry 2 "reading" 20 1 "b"]

theorem said_last_kept :
    KeepsChosen "a" "b" 100 (onlyTable .bookReadStatus (saidLast.map Row.of) oneReader)
      (Row.of (statusEntry 1 "finished" 20 0 "a")) (Row.of (statusEntry 2 "reading" 10 1 "b")) := by
  refine (keeps_chosen_iff _ _ _ _ _ _ (by decide)
    (only_table_valid _ _ saidLast (by decide) (by decide)) ?_ ?_ (by decide) (by decide)
    (by decide) (.inl (by decide))).1.mpr (by decide)
  · exact List.mem_cons_self
  · exact List.mem_cons_of_mem _ List.mem_cons_self

theorem started_last_wins :
    ¬KeepsChosen "a" "b" 100 (onlyTable .bookReadStatus (startedLast.map Row.of) oneReader)
      (Row.of (statusEntry 1 "finished" 10 0 "a"))
      (Row.of (statusEntry 2 "reading" 20 1 "b")) := by
  have valid := only_table_valid .bookReadStatus oneReader startedLast (by decide) (by decide)
  have held := latest_status.held "a" "b" 100 (by decide) valid
    List.mem_cons_self (List.mem_cons_of_mem _ List.mem_cons_self)
    (by decide) (by decide) (by decide)
  intro ⟨merged, row, moved, isHeld, _, flag⟩
  rw [move_progress_and_history "a" "b" 100 (by decide) _ valid] at moved
  cases moved
  rw [held] at isHeld
  rw [← List.head_eq_of_cons_eq isHeld] at flag
  exact absurd flag (by decide)

end Replay

end Omnibus.Merge
