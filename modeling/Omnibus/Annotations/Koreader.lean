import Omnibus.Annotations.Writes
import Omnibus.Library.Runs

/-!
# A device following the listing

`annotations/koreader.rs`: the listing of a book since a cursor, and the world of one device
and the writers. A write transaction holds the lock from its first statement to its commit,
and the listing's minting of client ids is itself a write, so it waits for the lock.
-/

namespace Omnibus.Annotations

open Omnibus.Library

structure KoreaderAnnotation where
  clientId : String
  epubCfiRange : String
  color : HighlightColor
  text : Option String
  note : Option String
  createdAt : Int
  updatedAt : Int
  deriving DecidableEq, Repr

/-- `row_to_annotation`, of a row the listing selects. -/
def Annotation.toKoreader (row : Annotation) : Option KoreaderAnnotation :=
  match row.clientId, row.epubCfiRange with
  | some clientId, some epubCfiRange =>
      some ⟨clientId, epubCfiRange, row.color, row.text, row.note, row.createdAt, row.updatedAt⟩
  | _, _ => none

/-- Where a device's listing of one book left off. -/
structure KoreaderCursor where
  rowAt : Int
  rowId : Int
  tombAt : Int
  tombClientId : String
  deriving DecidableEq, Repr

namespace KoreaderCursor

def default : KoreaderCursor := ⟨0, 0, 0, ""⟩

def row (cursor : KoreaderCursor) : Int ×ₗ Int := toLex (cursor.rowAt, cursor.rowId)

def tombstone (cursor : KoreaderCursor) : Int ×ₗ String :=
  toLex (cursor.tombAt, cursor.tombClientId)

end KoreaderCursor

def Annotation.key (row : Annotation) : Int ×ₗ Int := toLex (row.updatedAt, row.id)

def Tombstone.key (tombstone : Tombstone) : Int ×ₗ String :=
  toLex (tombstone.deletedAt, tombstone.clientId)

def listHighlightsLimit : Nat := 1000

section Listing

variable (book : Uuid) (store : Store)

def listable (row : Annotation) : Bool :=
  row.bookUuid = book && row.clientId.isSome && row.epubCfiRange.isSome

/-- The rows of the listing, by `(updated_at, id)`. -/
def rowsSince (since : KoreaderCursor) : List Annotation :=
  Feed.page Annotation.key listHighlightsLimit since.row (store.rows.filter (listable book))

/-- The tombstones of the listing, by `(deleted_at, client_id)`. -/
def tombstonesSince (since : KoreaderCursor) : List Tombstone :=
  Feed.page Tombstone.key listHighlightsLimit since.tombstone
    (store.tombstones.filter (·.bookUuid = book))

/-- The row position a listing that began at `now` answers. -/
def rowPosition (now : Int) (rows : List Annotation) : Int ×ₗ Int :=
  Feed.position Annotation.key listHighlightsLimit (toLex (now, 0)) rows

def tombstonePosition (now : Int) (tombstones : List Tombstone) : Int ×ₗ String :=
  Feed.position Tombstone.key listHighlightsLimit (toLex (now, "")) tombstones

def nextCursor (now : Int) (rows : List Annotation) (tombstones : List Tombstone) :
    KoreaderCursor where
  rowAt := (ofLex (rowPosition now rows)).1
  rowId := (ofLex (rowPosition now rows)).2
  tombAt := (ofLex (tombstonePosition now tombstones)).1
  tombClientId := (ofLex (tombstonePosition now tombstones)).2

def unnamed (row : Annotation) : Bool :=
  row.bookUuid = book && row.clientId = none && row.epubCfiRange.isSome

/-- The draws are ids nobody has, a different one for each row. -/
def freshDraws (minted : Int → String) : Bool :=
  (store.rows.filter (unnamed book)).all fun row => store.unused (minted row.id) &&
    (store.rows.filter (unnamed book)).all fun other =>
      minted row.id ≠ minted other.id || row.id = other.id

/-- `UPDATE … SET client_id = lower(hex(randomblob(16)))`, which leaves `updated_at` alone. -/
def mintClientIds (minted : Int → String) : Store :=
  store.update (unnamed book) fun row => { row with clientId := some (minted row.id) }

def Store.annotationOf (clientId : String) : Option KoreaderAnnotation :=
  (store.rows.filter (·.bookUuid = book)).findSome? fun row =>
    row.toKoreader.filter (·.clientId = clientId)

end Listing

/-- What a device holds of a book, by client id. -/
abbrev Copy := String → Option KoreaderAnnotation

def overwrite (copy : Copy) (rows : List Annotation) : Copy :=
  (rows.filterMap Annotation.toKoreader).foldl
    (fun copy highlight => Function.update copy highlight.clientId (some highlight)) copy

def forget (copy : Copy) (clientIds : List String) : Copy :=
  clientIds.foldl (fun copy clientId => Function.update copy clientId none) copy

inductive Phase where
  | idle
  | began (now : Int)
  | minted (now : Int)
  | rowsRead (now : Int) (rows : List Annotation)
  deriving DecidableEq, Repr

/-- The transaction that holds the write lock: when it took it, and the store it will commit. -/
structure Writing where
  began : Int
  store : Store
  deriving DecidableEq, Repr

structure World where
  now : Int
  store : Store
  writing : Option Writing
  phase : Phase
  cursor : KoreaderCursor
  copy : Copy
  more : Bool

inductive Action where
  | tick (seconds : Nat)
  | begin
  | write (write : Write)
  | commit
  | rollback
  | readNow
  | mint (minted : Int → String)
  | readRows
  | readTombstones

/-- One step; none when it is not its turn, or another connection holds the lock it needs. -/
def step (book : Uuid) (world : World) : Action → Option World
  | .tick seconds => some { world with now := world.now + seconds }
  | .begin =>
      match world.writing with
      | none => some { world with writing := some ⟨world.now, world.store⟩ }
      | some _ => none
  | .write write =>
      match world.writing with
      | none => none
      | some writing =>
          (write.run world.now writing.store).map fun store =>
            { world with writing := some { writing with store := store } }
  | .commit =>
      world.writing.map fun writing => { world with store := writing.store, writing := none }
  | .rollback => world.writing.map fun _ => { world with writing := none }
  | .readNow =>
      match world.phase with
      | .idle => some { world with phase := .began world.now }
      | _ => none
  | .mint minted =>
      match world.phase with
      | .began now =>
          if world.writing = none ∧ freshDraws book world.store minted then
            some { world with
              store := mintClientIds book world.store minted
              phase := .minted now }
          else none
      | _ => none
  | .readRows =>
      match world.phase with
      | .minted now =>
          some { world with phase := .rowsRead now (rowsSince book world.store world.cursor) }
      | _ => none
  | .readTombstones =>
      match world.phase with
      | .rowsRead now rows =>
          let tombstones := tombstonesSince book world.store world.cursor
          some { world with
            phase := .idle
            cursor := nextCursor now rows tombstones
            copy := forget (overwrite world.copy rows) (tombstones.map (·.clientId))
            more := Feed.cut listHighlightsLimit rows ||
              Feed.cut listHighlightsLimit tombstones }
      | _ => none

section Steps

variable {book : Uuid} {world next : World}

theorem step_read_now (stepped : step book world .readNow = some next) :
    world.phase = .idle ∧ next = { world with phase := .began world.now } := by
  simp only [step] at stepped
  split at stepped
  · rename_i isPhase
    exact ⟨isPhase, (Option.some.inj stepped).symm⟩
  · cases stepped

theorem step_mint {minted : Int → String} (stepped : step book world (.mint minted) = some next) :
    ∃ now, world.phase = .began now ∧ world.writing = none ∧
      freshDraws book world.store minted = true ∧
      next = { world with
        store := mintClientIds book world.store minted
        phase := .minted now } := by
  simp only [step] at stepped
  split at stepped
  · rename_i now isPhase
    split at stepped
    · rename_i allowed
      exact ⟨now, isPhase, allowed.1, allowed.2, (Option.some.inj stepped).symm⟩
    · cases stepped
  · cases stepped

theorem step_read_rows (stepped : step book world .readRows = some next) :
    ∃ now, world.phase = .minted now ∧ next = { world with
      phase := .rowsRead now (rowsSince book world.store world.cursor) } := by
  simp only [step] at stepped
  split at stepped
  · rename_i now isPhase
    exact ⟨now, isPhase, (Option.some.inj stepped).symm⟩
  · cases stepped

theorem step_read_tombstones (stepped : step book world .readTombstones = some next) :
    ∃ now rows, world.phase = .rowsRead now rows ∧ next = { world with
      phase := .idle
      cursor := nextCursor now rows (tombstonesSince book world.store world.cursor)
      copy := forget (overwrite world.copy rows)
        ((tombstonesSince book world.store world.cursor).map (·.clientId))
      more := Feed.cut listHighlightsLimit rows ||
        Feed.cut listHighlightsLimit (tombstonesSince book world.store world.cursor) } := by
  simp only [step] at stepped
  split at stepped
  · rename_i now rows isPhase
    exact ⟨now, rows, isPhase, (Option.some.inj stepped).symm⟩
  · cases stepped

end Steps

namespace World

/-- The row position the device will ask from next, once its rows are read. -/
def position (world : World) : Int ×ₗ Int :=
  match world.phase with
  | .rowsRead now rows => rowPosition now rows
  | _ => world.cursor.row

/-- The device's copy with the rows it is being answered. -/
def shown (world : World) : Copy :=
  match world.phase with
  | .rowsRead _ rows => overwrite world.copy rows
  | _ => world.copy

/-- The device's copy of the book is what the server holds. -/
def Agrees (book : Uuid) (world : World) : Prop :=
  ∀ clientId, world.copy clientId = world.store.annotationOf book clientId

end World

section Copies

theorem to_koreader_eq_some (row : Annotation) (highlight : KoreaderAnnotation) :
    row.toKoreader = some highlight →
      row.clientId = some highlight.clientId ∧
        row.epubCfiRange = some highlight.epubCfiRange := by
  intro isShown
  unfold Annotation.toKoreader at isShown
  split at isShown
  · rename_i clientId cfi isClient isCfi
    cases isShown
    exact ⟨isClient, isCfi⟩
  · cases isShown

theorem to_koreader_of_listable {book : Uuid} {row : Annotation}
    (isListable : listable book row = true) :
    ∃ highlight, row.toKoreader = some highlight := by
  simp only [listable, Bool.and_eq_true, Option.isSome_iff_exists] at isListable
  obtain ⟨⟨_, clientId, isClient⟩, cfi, isCfi⟩ := isListable
  unfold Annotation.toKoreader
  rw [isClient, isCfi]
  exact ⟨_, rfl⟩

theorem listable_iff {book : Uuid} (row : Annotation) : listable book row = true ↔
    row.bookUuid = book ∧ row.clientId ≠ none ∧ row.epubCfiRange.isSome = true := by
  simp [listable, Option.isSome_iff_ne_none, and_assoc]

theorem forget_of_not_mem {copy : Copy} {clientIds : List String} {clientId : String}
    (absent : clientId ∉ clientIds) : forget copy clientIds clientId = copy clientId := by
  unfold forget
  induction clientIds generalizing copy with
  | nil => rfl
  | cons first rest induction =>
      rw [List.mem_cons, not_or] at absent
      rw [List.foldl_cons, induction absent.2, Function.update_of_ne absent.1]

theorem forget_of_mem {copy : Copy} {clientIds : List String} {clientId : String}
    (member : clientId ∈ clientIds) : forget copy clientIds clientId = none := by
  induction clientIds generalizing copy with
  | nil => cases member
  | cons first rest induction =>
      change forget (Function.update copy first none) rest clientId = none
      by_cases later : clientId ∈ rest
      · exact induction later
      · obtain rfl : clientId = first := (List.mem_cons.mp member).resolve_right later
        rw [forget_of_not_mem later, Function.update_self]

theorem overwrite_cases (copy : Copy) (rows : List Annotation) (clientId : String) :
    (∃ row ∈ rows, ∃ highlight, row.toKoreader = some highlight ∧
        highlight.clientId = clientId ∧ overwrite copy rows clientId = some highlight) ∨
      ((∀ row ∈ rows, row.clientId ≠ some clientId ∨ row.toKoreader = none) ∧
        overwrite copy rows clientId = copy clientId) := by
  unfold overwrite
  induction rows generalizing copy with
  | nil => exact .inr ⟨by simp, rfl⟩
  | cons row rest induction =>
      cases isShown : row.toKoreader with
      | none =>
          simp only [List.filterMap_cons, isShown]
          rcases induction copy with ⟨other, otherMem, found⟩ | ⟨absent, same⟩
          · exact .inl ⟨other, List.mem_cons_of_mem _ otherMem, found⟩
          · refine .inr ⟨fun other member => ?_, same⟩
            rcases List.mem_cons.mp member with rfl | later
            · exact .inr isShown
            · exact absent other later
      | some highlight =>
          simp only [List.filterMap_cons, isShown, List.foldl_cons]
          rcases induction (Function.update copy highlight.clientId (some highlight)) with
            ⟨other, otherMem, found⟩ | ⟨absent, same⟩
          · exact .inl ⟨other, List.mem_cons_of_mem _ otherMem, found⟩
          · by_cases isClient : highlight.clientId = clientId
            · refine .inl ⟨row, List.mem_cons_self, highlight, isShown, isClient, ?_⟩
              rw [same, isClient, Function.update_self]
            · refine .inr ⟨fun other member => ?_, ?_⟩
              · rcases List.mem_cons.mp member with rfl | later
                · refine .inl fun isOther => isClient ?_
                  have own := (to_koreader_eq_some other highlight isShown).1
                  exact Option.some.inj (own.symm.trans isOther)
                · exact absent other later
              · rw [same, Function.update_of_ne (Ne.symm isClient)]

end Copies

end Omnibus.Annotations
