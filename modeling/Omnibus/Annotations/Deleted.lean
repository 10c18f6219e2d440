import Omnibus.Annotations.Listings
import Omnibus.Library.Runs

/-!
# A deleted annotation never comes back

The requests of one user's devices, each with all its upserts and deletes, and the runs of any
of them in any order from an empty store. The store stays valid and keeps its tombstones.
-/

namespace Omnibus.Annotations

section Model

namespace Store

variable (store : Store)

/-- The upsert of `upsert_kobo_annotations` for one annotation that was not deleted. -/
def writeKoboAnnotation (now : Int) (book : Uuid) (a : IngestKoboAnnotation) : Store :=
  if store.holds a.clientId then
    store.update (fun row => row.clientId = some a.clientId) fun row =>
      let moved := row.koboLocation ≠ some a.koboLocation
      { row with
        epubCfiRange :=
          if moved then a.epubCfiRange
          else if row.koboLocationStale then row.epubCfiRange
          else a.epubCfiRange.or row.epubCfiRange
        koboLocationStale := if moved then false else row.koboLocationStale
        koboLocation := some a.koboLocation
        color := a.color
        note := a.note
        text := a.text
        updatedAt := now }
  else store.insert fun id =>
    { id := id
      bookUuid := book
      epubCfiRange := a.epubCfiRange
      koboLocation := some a.koboLocation
      koboLocationStale := false
      color := a.color
      text := a.text
      note := a.note
      clientId := some a.clientId
      createdAt := now
      updatedAt := now }

/-- `upsert_kobo_annotations`: the tombstones are read once, before the first upsert. -/
def upsertKoboAnnotations (now : Int) (book : Uuid) (updates : List IngestKoboAnnotation) :
    Store :=
  let live := updates.filter fun a => !store.tombstoned a.clientId
  live.foldl (fun store a => store.writeKoboAnnotation now book a) store

/-- The upserts of a push, in its order. -/
def upsertKoreaderAnnotations (now : Int) (book : Uuid) (upserts : List KoreaderUpsert) : Store :=
  upserts.foldl (fun store a => store.upsertKoreaderAnnotation now book a) store

/-- The `WHERE` of `delete_with_tombstones`. -/
def selectsClientIds (book : Option Uuid) (clientIds : List String) (row : Annotation) : Bool :=
  row.clientId.any clientIds.contains && book.all (· = row.bookUuid)

end Store

/-- A derived location, and the id drawn for its row. -/
structure DerivedLocation where
  id : Int
  snapshotCfi : String
  location : String
  minted : String
  deriving DecidableEq, Repr

/-- What a device, a reader or a pass asks of the store. -/
inductive Request where
  | createHighlight (input : CreateHighlight)
  | updateHighlightColor (id : Int) (color : HighlightColor)
  | updateHighlightNote (id : Int) (note : Option String)
  | deleteHighlight (id : Int)
  | ingestKoboAnnotations (book : Uuid) (updates : List IngestKoboAnnotation)
      (deletedClientIds : List String)
  | pushKoreader (book : Uuid) (upserts : List KoreaderUpsert) (deletes : List String)
  | listKoreader (book : Uuid) (minted : Int → String)
  | backfillCfi (id : Int) (location cfi : String)
  | downsync (candidates : List DerivedLocation)

/-- What a request writes before it deletes; none when an id it draws is taken. -/
def Request.written (now : Int) (store : Store) : Request → Option Store
  | .createHighlight input => some (store.createHighlight now input)
  | .updateHighlightColor id color => some (store.updateHighlightColor now id color)
  | .updateHighlightNote id note => some (store.updateHighlightNote now id note)
  | .deleteHighlight _ => some store
  | .ingestKoboAnnotations book updates _ => some (store.upsertKoboAnnotations now book updates)
  | .pushKoreader book upserts _ => some (store.upsertKoreaderAnnotations now book upserts)
  | .listKoreader book minted =>
      if freshDraws book store minted then some (mintClientIds book store minted) else none
  | .backfillCfi id location cfi => some (store.backfillCfi now id location cfi)
  | .downsync candidates => candidates.foldlM (fun store candidate =>
      (Write.applyDerivedLocation candidate.id candidate.snapshotCfi candidate.location
        candidate.minted).run now store) store

/-- The rows a request deletes; none when it has no `DELETE`. -/
def Request.deletes : Request → Option ((_ : Annotation) → Bool)
  | .deleteHighlight id => some (·.id = id)
  | .ingestKoboAnnotations _ _ deleted => some (Store.selectsClientIds none deleted)
  | .pushKoreader book _ deletes => some (Store.selectsClientIds (some book) deletes)
  | _ => none

/-- A request at a second: its writes, then its deletes with their tombstones. -/
def handle (store : Store) (action : Int × Request) : Option Store :=
  (action.2.written action.1 store).map fun written =>
    match action.2.deletes with
    | some selects => written.delete action.1 selects
    | none => written

def Store.empty : Store := ⟨[], [], 0⟩

/-- The client id has a row. -/
def Store.Live (store : Store) (clientId : String) : Prop :=
  ∃ row ∈ store.rows, row.clientId = some clientId

def Store.Deleted (store : Store) (clientId : String) : Prop :=
  ∃ tombstone ∈ store.tombstones, tombstone.clientId = clientId

end Model

section Requests

variable {store next : Store} {now : Int}

def Kept (now : Int) (before after : Store) : Prop := after.Valid ∧ Advances now now before after

theorem Kept.trans {before middle after : Store} (first : Kept now before middle)
    (second : Kept now middle after) : Kept now before after :=
  ⟨second.1, first.2.trans second.2 le_rfl le_rfl⟩

theorem upsert_kobo_annotation_eq (book : Uuid) (a : IngestKoboAnnotation) :
    store.upsertKoboAnnotation now book a =
      if store.tombstoned a.clientId then store else store.writeKoboAnnotation now book a := rfl

theorem write_kobo_tombstones (book : Uuid) (a : IngestKoboAnnotation)
    (wrote : store.writeKoboAnnotation now book a = next) :
    next.tombstones = store.tombstones := by
  subst wrote
  unfold Store.writeKoboAnnotation
  split <;> rfl

theorem upsert_kobo_keeps (valid : store.Valid) (book : Uuid)
    (updates : List IngestKoboAnnotation) :
    Kept now store (store.upsertKoboAnnotations now book updates) := by
  unfold Store.upsertKoboAnnotations
  have live : ∀ a ∈ updates.filter (fun a => !store.tombstoned a.clientId),
      store.tombstoned a.clientId = false := by
    simp
  generalize updates.filter (fun a => !store.tombstoned a.clientId) = batch at live
  induction batch generalizing store with
  | nil => exact ⟨valid, Advances.refl now now store⟩
  | cons a rest ih =>
      have free := live a List.mem_cons_self
      let upsert := Write.upsertKoboAnnotation book a
      have write : Kept now store <| store.upsertKoboAnnotation now book a :=
        write_advances valid upsert rfl
      rw [upsert_kobo_annotation_eq, if_neg (by simp [free])] at write
      refine write.trans (ih write.1 fun other member => ?_)
      unfold Store.tombstoned
      rw [write_kobo_tombstones book a rfl]
      exact live other (List.mem_cons_of_mem _ member)

theorem upsert_koreader_keeps (valid : store.Valid) (book : Uuid)
    (upserts : List KoreaderUpsert) :
    Kept now store (store.upsertKoreaderAnnotations now book upserts) := by
  unfold Store.upsertKoreaderAnnotations
  induction upserts generalizing store with
  | nil => exact ⟨valid, Advances.refl now now store⟩
  | cons a rest ih =>
      let upsert := Write.upsertKoreaderAnnotation book a
      have write : Kept now store <| store.upsertKoreaderAnnotation now book a :=
        write_advances valid upsert rfl
      exact write.trans (ih write.1)

theorem downsync_keeps (valid : store.Valid) (candidates : List DerivedLocation)
    (ran : (Request.downsync candidates).written now store = some next) :
    Kept now store next := by
  simp only [Request.written] at ran
  induction candidates generalizing store with
  | nil =>
      rw [← Option.some.inj ran]
      exact ⟨valid, Advances.refl now now store⟩
  | cons candidate rest ih =>
      rw [List.foldlM_cons] at ran
      obtain ⟨middle, applied, ran⟩ := Option.bind_eq_some_iff.mp ran
      have write : Kept now store middle := write_advances valid _ applied
      exact write.trans (ih write.1 ran)

theorem written_keeps (valid : store.Valid) (request : Request)
    (ran : request.written now store = some next) : Kept now store next := by
  cases request with
  | createHighlight input => exact write_advances valid (.createHighlight input) ran
  | updateHighlightColor id color => exact write_advances valid (.updateHighlightColor id color) ran
  | updateHighlightNote id note => exact write_advances valid (.updateHighlightNote id note) ran
  | deleteHighlight id =>
      cases ran
      exact ⟨valid, Advances.refl now now store⟩
  | ingestKoboAnnotations book updates deleted =>
      cases ran
      exact upsert_kobo_keeps valid book updates
  | pushKoreader book upserts deletes =>
      cases ran
      exact upsert_koreader_keeps valid book upserts
  | listKoreader book minted =>
      simp only [Request.written] at ran
      split at ran
      · next fresh =>
          cases ran
          let world : World := ⟨now, store, none, .idle, ⟨0, 0, 0, ""⟩, fun _ => none, false⟩
          have worldValid : world.store.Valid := valid
          exact mint_advances worldValid minted fresh now now
      · cases ran
  | backfillCfi id location cfi => exact write_advances valid (.backfillCfi id location cfi) ran
  | downsync candidates => exact downsync_keeps valid candidates ran

theorem handle_keeps (valid : store.Valid) (action : Int × Request)
    (ran : handle store action = some next) : Kept action.1 store next := by
  obtain ⟨written, wrote, rfl⟩ := Option.map_eq_some_iff.mp ran
  have write := written_keeps valid action.2 wrote
  cases action.2.deletes with
  | none => exact write
  | some selects => exact write.trans ⟨delete_valid write.1 selects, delete_advances write.1 selects⟩

theorem delete_buries (selects : Annotation → Bool) {row : Annotation}
    (member : row ∈ store.rows) (selected : selects row = true) {clientId : String}
    (isClient : row.clientId = some clientId) :
    (store.delete now selects).Deleted clientId :=
  ⟨⟨row.bookUuid, clientId, now⟩, (mem_delete_tombstones selects _).mpr
    (.inr ⟨row, member, selected, clientId, isClient, rfl⟩), rfl⟩

theorem live_apart (valid : store.Valid) {clientId : String} (deleted : store.Deleted clientId) :
    ¬store.Live clientId := by
  obtain ⟨tombstone, tombMem, rfl⟩ := deleted
  intro ⟨row, rowMem, isClient⟩
  exact valid.deleted tombstone tombMem row rowMem isClient

end Requests

section Runs

open Library.Runs

variable {store last : Store}

theorem empty_valid : Store.empty.Valid := by decide

theorem run_valid (actions : List (Int × Request))
    (ran : run handle Store.empty actions = some store) : store.Valid :=
  run_preserves handle
    (fun _ action _ valid stepped => (handle_keeps valid action stepped).1) actions empty_valid ran

theorem run_remembers (valid : store.Valid) (actions : List (Int × Request))
    (ran : run handle store actions = some last) {clientId : String}
    (deleted : store.Deleted clientId) : last.Valid ∧ last.Deleted clientId := by
  have keeps (before : Store) (action : Int × Request) (after : Store)
      (held : before.Valid ∧ before.Deleted clientId)
      (stepped : handle before action = some after) : after.Valid ∧ after.Deleted clientId := by
    obtain ⟨afterValid, advances⟩ := handle_keeps held.1 action stepped
    obtain ⟨tombstone, member, same⟩ := held.2
    exact ⟨afterValid, tombstone, advances.remembered tombstone member, same⟩
  exact run_preserves handle keeps actions ⟨valid, deleted⟩ ran

end Runs

/-- A deleted annotation never comes back: in every state of every run no id is both live and
deleted, no deleted id is live again, and every delete of a row with an id is remembered. -/
theorem deleted_never_returns (actions more : List (Int × Request)) (store last : Store)
    (ran : Library.Runs.run handle Store.empty actions = some store)
    (onwards : Library.Runs.run handle store more = some last) :
    (∀ clientId, ¬(store.Live clientId ∧ store.Deleted clientId)) ∧
    (∀ clientId, store.Deleted clientId → last.Deleted clientId ∧ ¬last.Live clientId) ∧
    ∀ action next, handle store action = some next →
      (∀ clientId, store.Live clientId → next.Live clientId ∨ next.Deleted clientId) ∧
      ∀ written selects, action.2.written action.1 store = some written →
        action.2.deletes = some selects → ∀ row ∈ written.rows, selects row = true →
          ∀ clientId, row.clientId = some clientId → next.Deleted clientId := by
  have valid := run_valid actions ran
  refine ⟨fun clientId both => live_apart valid both.2 both.1, fun clientId deleted => ?_, ?_⟩
  · obtain ⟨lastValid, lastDeleted⟩ := run_remembers valid more onwards deleted
    exact ⟨lastDeleted, live_apart lastValid lastDeleted⟩
  · intro action next stepped
    constructor
    · intro clientId ⟨row, member, isClient⟩
      rcases (handle_keeps valid action stepped).2.found row member clientId isClient with
        ⟨kept, keptMem, keptClient, _⟩ | ⟨tombstone, tombMem, same, _⟩
      · exact .inl ⟨kept, keptMem, keptClient⟩
      · exact .inr ⟨tombstone, tombMem, same⟩
    · intro written selects wrote isDelete row member selected clientId isClient
      unfold handle at stepped
      rw [wrote, isDelete] at stepped
      cases stepped
      exact delete_buries selects member selected isClient

section Example

/-- A highlight that one Kobo request edits and deletes, and a later push of it. -/
def editedAndDeleted : List (Int × Request) :=
  [(5, .createHighlight ⟨"b", "epubcfi(/6/2)", .amber, none, some "c", none⟩),
    (6, .ingestKoboAnnotations "b" [⟨"c", .rose, none, none, "here", none⟩] ["c"])]

theorem edited_and_deleted_stays : ¬(⟨[], [⟨"b", "c", 6⟩], 1⟩ : Store).Live "c" :=
  ((deleted_never_returns editedAndDeleted
    [(7, .pushKoreader "b" [⟨"c", "epubcfi(/6/4)", .blue, none, none, 4, 7⟩] [])]
    ⟨[], [⟨"b", "c", 6⟩], 1⟩ ⟨[], [⟨"b", "c", 6⟩], 1⟩ (by decide +kernel) (by decide +kernel)).2.1
    "c" ⟨⟨"b", "c", 6⟩, by decide, rfl⟩).2

end Example

end Omnibus.Annotations
