import Omnibus.KoboSync.Delta

/-!
# What a recorded page leaves

The rows after `record_synced`, book by book, and the delta after the first changes of it have
been recorded: exactly the changes behind them.
-/

namespace Omnibus.KoboSync

open Omnibus.Library

variable {rows : Snapshot} {tables : ReadingTables} {wanted : List KoboBookRow} {now : Int}

section ChangeFor

variable {book : KoboBookRow} {change : SyncChange}

/-- What a change announces about the row it was computed from. -/
def SyncChange.Fits (row : Option SyncRow) (tables : ReadingTables) (book : KoboBookRow) :
    SyncChange → Prop
  | .new sent => sent = book ∧ ∀ kept, row = some kept → kept.resend = true
  | .changed sent => sent = book ∧
      ∃ kept, row = some kept ∧ kept.resend = false ∧
        kept.lastModifiedSeen < book.lastModifiedEpoch
  | .stateChanged sent => sent = book ∧
      ∃ kept, row = some kept ∧ kept.resend = false ∧
        book.lastModifiedEpoch ≤ kept.lastModifiedSeen ∧
        ∃ state, readingStateFor tables book.uuid = some state ∧
          kept.syncedAt < state.stateUpdatedAt
  | .removed _ => False

theorem change_for_fits (isChange : changeFor rows tables book = some change) :
    change.Fits (rows.held book.uuid) tables book := by
  unfold changeFor at isChange
  split at isChange
  · rename_i isHeld
    cases isChange
    exact ⟨rfl, fun kept isKept => by rw [isHeld] at isKept; cases isKept⟩
  · rename_i row isHeld
    rw [isHeld]
    split_ifs at isChange with resend older moved
    · cases isChange
      exact ⟨rfl, fun kept isKept => Option.some.inj isKept ▸ resend⟩
    · cases isChange
      exact ⟨rfl, row, rfl, by simpa using resend, older⟩
    · cases isChange
      obtain ⟨state, isState, later⟩ := Option.any_eq_true _ _ |>.mp moved
      exact ⟨rfl, row, rfl, by simpa using resend, not_lt.mp older, state, isState,
        by simpa using later⟩

theorem change_for_book (isChange : changeFor rows tables book = some change) :
    change.book = book.uuid := by
  have fits := change_for_fits isChange
  cases change with
  | new sent => exact congrArg KoboBookRow.uuid fits.1
  | changed sent => exact congrArg KoboBookRow.uuid fits.1
  | stateChanged sent => exact congrArg KoboBookRow.uuid fits.1
  | removed bookUuid => exact fits.elim

/-- A book needs nothing when its row is no mark, no older metadata and no older state. -/
theorem change_for_eq_none : changeFor rows tables book = none ↔
    ∃ row, rows.held book.uuid = some row ∧ row.resend = false ∧
      book.lastModifiedEpoch ≤ row.lastModifiedSeen ∧
      ∀ state, readingStateFor tables book.uuid = some state →
        state.stateUpdatedAt ≤ row.syncedAt := by
  unfold changeFor
  cases rows.held book.uuid with
  | none => simp
  | some row =>
      simp only [Option.some.injEq, exists_eq_left']
      cases states : readingStateFor tables book.uuid with
      | none => cases resend : row.resend <;> simp
      | some state =>
          cases resend : row.resend with
          | true => simp
          | false =>
              simp only [Bool.false_eq_true, if_false, Option.any_some, decide_eq_true_eq]
              split_ifs <;> simp <;> omega

end ChangeFor

section Delta

variable {change : SyncChange}

theorem mem_removals : change ∈ removals rows wanted ↔
    ∃ book, change = .removed book ∧ book ∈ rows.books ∧ book ∉ wanted.map (·.uuid) := by
  unfold removals
  rw [List.mem_map]
  constructor
  · intro ⟨book, member, equal⟩
    subst equal
    obtain ⟨isKey, unwanted⟩ := List.mem_filter.mp member
    exact ⟨book, rfl, Snapshot.mem_keys.mp isKey, by simpa using unwanted⟩
  · intro ⟨book, equal, isKey, unwanted⟩
    subst equal
    exact ⟨book, List.mem_filter.mpr ⟨Snapshot.mem_keys.mpr isKey, by simpa using unwanted⟩, rfl⟩

theorem mem_delta : change ∈ delta rows tables wanted ↔
    (∃ book ∈ wanted, changeFor rows tables book = some change) ∨
      change ∈ removals rows wanted := by
  unfold delta
  rw [List.mem_append, List.mem_filterMap]

theorem change_for_of_mem (distinct : (wanted.map (·.uuid)).Nodup)
    (member : change ∈ delta rows tables wanted) {book : KoboBookRow} (isWanted : book ∈ wanted)
    (about : change.book = book.uuid) : changeFor rows tables book = some change := by
  rcases mem_delta.mp member with ⟨other, otherWanted, isChange⟩ | isRemoval
  · have same : other.uuid = book.uuid := (change_for_book isChange).symm.trans about
    rwa [← List.inj_on_of_nodup_map distinct otherWanted isWanted same]
  · obtain ⟨uuid, rfl, _, unwanted⟩ := mem_removals.mp isRemoval
    rw [show uuid = book.uuid from about] at unwanted
    exact absurd (List.mem_map_of_mem isWanted) unwanted

theorem filter_map_books (wanted : List KoboBookRow) :
    ((wanted.filterMap (changeFor rows tables)).map (·.book)).Sublist (wanted.map (·.uuid)) := by
  induction wanted with
  | nil => exact List.Sublist.slnil
  | cons book rest induction =>
      cases isChange : changeFor rows tables book with
      | none =>
          rw [List.filterMap_cons_none isChange, List.map_cons]
          exact induction.cons _
      | some change =>
          rw [List.filterMap_cons_some isChange, List.map_cons, List.map_cons,
            change_for_book isChange]
          exact induction.cons_cons _

theorem delta_books_nodup (tables : ReadingTables) (apart : rows.books.Nodup)
    (distinct : (wanted.map (·.uuid)).Nodup) :
    ((delta rows tables wanted).map (·.book)).Nodup := by
  unfold delta removals
  rw [List.map_append, List.map_map, List.nodup_append]
  have isId : (fun change : SyncChange => change.book) ∘ SyncChange.removed = id := rfl
  rw [isId, List.map_id]
  refine ⟨distinct.sublist (filter_map_books wanted), (Snapshot.keys_nodup apart).filter _, ?_⟩
  intro left leftMem right rightMem same
  have unwanted := (List.mem_filter.mp rightMem).2
  have isWanted := (filter_map_books wanted).subset leftMem
  simp [← same, isWanted] at unwanted

end Delta

section Record

def SyncChange.settle (now : Int) (row : Option SyncRow) : SyncChange → Option SyncRow
  | .new book | .changed book => some ⟨book.uuid, book.lastModifiedEpoch, now, false⟩
  | .stateChanged _ => row.map ({ · with syncedAt := now })
  | .removed _ => none

theorem held_upsert_synced_of_not_mem (books : List KoboBookRow) {uuid : Uuid}
    (absent : ∀ book ∈ books, book.uuid ≠ uuid) :
    (rows.upsertSynced now books).held uuid = rows.held uuid := by
  unfold Snapshot.upsertSynced
  induction books generalizing rows with
  | nil => rfl
  | cons book rest induction =>
      rw [List.foldl_cons, induction fun other member => absent other (.tail _ member),
        Snapshot.held_upsert, if_neg (absent book List.mem_cons_self)]

theorem held_upsert_synced_of_mem (books : List KoboBookRow)
    (distinct : (books.map (·.uuid)).Nodup) {book : KoboBookRow} (member : book ∈ books) :
    (rows.upsertSynced now books).held book.uuid =
      some ⟨book.uuid, book.lastModifiedEpoch, now, false⟩ := by
  induction books generalizing rows with
  | nil => cases member
  | cons first rest induction =>
      obtain ⟨isFirst, later⟩ := List.nodup_cons.mp distinct
      change ((rows.upsert now first).upsertSynced now rest).held book.uuid = _
      rcases List.mem_cons.mp member with rfl | inRest
      · have onlyHere : ∀ other ∈ rest, other.uuid ≠ book.uuid := by
          intro other otherMem same
          exact isFirst (List.mem_map.mpr ⟨other, otherMem, same⟩)
        rw [held_upsert_synced_of_not_mem rest onlyHere, Snapshot.held_upsert, if_pos rfl]
      · exact induction later inRest

variable {changes : List SyncChange} {change : SyncChange}

theorem upserted_books (changes : List SyncChange) :
    ((changes.filterMap (·.upserted)).map (·.uuid)).Sublist (changes.map (·.book)) := by
  induction changes with
  | nil => exact List.Sublist.slnil
  | cons change rest induction =>
      cases change with
      | new book => exact induction.cons_cons _
      | changed book => exact induction.cons_cons _
      | stateChanged book => exact induction.cons _
      | removed bookUuid => exact induction.cons _

theorem mem_touched {uuid : Uuid} : uuid ∈ changes.filterMap (·.touched) ↔
    ∃ book : KoboBookRow, .stateChanged book ∈ changes ∧ book.uuid = uuid := by
  rw [List.mem_filterMap]
  constructor
  · intro ⟨change, member, isTouched⟩
    cases change with
    | stateChanged book => exact ⟨book, member, Option.some.inj isTouched⟩
    | new book | changed book | removed bookUuid => cases isTouched
  · intro ⟨book, member, equal⟩
    subst equal
    exact ⟨_, member, rfl⟩

theorem mem_dropped {uuid : Uuid} :
    uuid ∈ changes.filterMap (·.dropped) ↔ .removed uuid ∈ changes := by
  rw [List.mem_filterMap]
  constructor
  · intro ⟨change, member, isDropped⟩
    cases change with
    | removed bookUuid => exact Option.some.inj isDropped ▸ member
    | new book | changed book | stateChanged book => cases isDropped
  · intro member
    exact ⟨_, member, rfl⟩

theorem held_record (now : Int) (rows : Snapshot) (changes : List SyncChange) (uuid : Uuid) :
    (recordSynced now rows changes).held uuid =
      if uuid ∈ changes.filterMap (·.dropped) then none
      else if uuid ∈ changes.filterMap (·.touched) then
        ((rows.upsertSynced now (changes.filterMap (·.upserted))).held uuid).map
          ({ · with syncedAt := now })
      else (rows.upsertSynced now (changes.filterMap (·.upserted))).held uuid := by
  rw [recordSynced, Snapshot.held_delete, Snapshot.held_touch]

theorem held_record_of_not_mem {uuid : Uuid} (absent : uuid ∉ changes.map (·.book)) :
    (recordSynced now rows changes).held uuid = rows.held uuid := by
  have notDropped : uuid ∉ changes.filterMap (·.dropped) := fun isDropped =>
    absent (List.mem_map.mpr ⟨_, mem_dropped.mp isDropped, rfl⟩)
  have notTouched : uuid ∉ changes.filterMap (·.touched) := by
    intro isTouched
    obtain ⟨book, member, same⟩ := mem_touched.mp isTouched
    exact absent (List.mem_map.mpr ⟨_, member, same⟩)
  rw [held_record, if_neg notDropped, if_neg notTouched]
  apply held_upsert_synced_of_not_mem
  intro book member same
  exact absent (same ▸ (upserted_books changes).subset (List.mem_map_of_mem member))

theorem held_record_of_mem (now : Int) (rows : Snapshot) (once : (changes.map (·.book)).Nodup)
    (member : change ∈ changes) :
    (recordSynced now rows changes).held change.book =
      change.settle now (rows.held change.book) := by
  have only : ∀ other ∈ changes, other.book = change.book → other = change := fun other isOther =>
    List.inj_on_of_nodup_map once isOther member
  have notDropped (other : ∀ uuid, change ≠ .removed uuid) :
      change.book ∉ changes.filterMap (·.dropped) := fun isDropped =>
    other _ (only _ (mem_dropped.mp isDropped) rfl).symm
  have notTouched (other : ∀ book, change ≠ .stateChanged book) :
      change.book ∉ changes.filterMap (·.touched) := by
    intro isTouched
    obtain ⟨book, isMem, same⟩ := mem_touched.mp isTouched
    exact other _ (only _ isMem same).symm
  have notUpserted (other : change.upserted = none) :
      ∀ book ∈ changes.filterMap (·.upserted), book.uuid ≠ change.book := by
    intro book isUpserted same
    obtain ⟨sender, senderMem, isBook⟩ := List.mem_filterMap.mp isUpserted
    have about : sender.book = book.uuid := by
      cases sender <;> cases isBook <;> rfl
    rw [only sender senderMem (about.trans same), other] at isBook
    cases isBook
  have distinct := once.sublist (upserted_books changes)
  rw [held_record]
  cases change with
  | new book | changed book =>
      rw [if_neg (notDropped (by simp)), if_neg (notTouched (by simp))]
      exact held_upsert_synced_of_mem _ distinct (List.mem_filterMap.mpr ⟨_, member, rfl⟩)
  | stateChanged book =>
      have isTouched : (SyncChange.stateChanged book).book ∈ changes.filterMap (·.touched) :=
        mem_touched.mpr ⟨book, member, rfl⟩
      rw [if_neg (notDropped (by simp)), if_pos isTouched,
        held_upsert_synced_of_not_mem _ (notUpserted rfl)]
      rfl
  | removed bookUuid =>
      have isDropped : (SyncChange.removed bookUuid).book ∈ changes.filterMap (·.dropped) :=
        mem_dropped.mpr member
      rw [if_pos isDropped]
      rfl

theorem books_upsert_synced_nodup (books : List KoboBookRow) (apart : rows.books.Nodup) :
    (rows.upsertSynced now books).books.Nodup := by
  induction books generalizing rows with
  | nil => exact apart
  | cons book rest induction =>
      apply induction
      rw [Snapshot.books_upsert]
      split
      · exact apart
      · rename_i absent
        exact List.nodup_append.mpr ⟨apart, List.nodup_singleton _, by
          intro left leftMem right rightMem same
          rw [List.mem_singleton] at rightMem
          exact absent (rightMem ▸ same ▸ leftMem)⟩

theorem books_upsert_synced_filter (now : Int) (books : List KoboBookRow) (keep : Uuid → Bool)
    (wanted : ∀ book ∈ books, keep book.uuid = false) :
    (rows.upsertSynced now books).books.filter keep = rows.books.filter keep := by
  induction books generalizing rows with
  | nil => rfl
  | cons book rest induction =>
      change ((rows.upsert now book).upsertSynced now rest).books.filter keep = _
      rw [induction fun other member => wanted other (.tail _ member), Snapshot.books_upsert]
      split
      · rfl
      · simp [wanted book List.mem_cons_self]

theorem books_record (now : Int) (rows : Snapshot) (changes : List SyncChange) :
    (recordSynced now rows changes).books =
      (rows.upsertSynced now (changes.filterMap (·.upserted))).books.filter
        fun book => book ∉ changes.filterMap (·.dropped) := by
  rw [recordSynced, Snapshot.books_delete, Snapshot.touchStateChanged,
    Snapshot.books_update _ _ (by intro _; rfl)]

theorem books_record_nodup (now : Int) (changes : List SyncChange) (apart : rows.books.Nodup) :
    (recordSynced now rows changes).books.Nodup := by
  rw [books_record]
  exact (books_upsert_synced_nodup _ apart).filter _

end Record

section Page

variable (size : Nat)

theorem upserted_wanted {changes : List SyncChange}
    (within : ∀ change ∈ changes, change ∈ delta rows tables wanted) :
    ∀ book ∈ changes.filterMap (·.upserted), book.uuid ∈ wanted.map (·.uuid) := by
  intro book isUpserted
  obtain ⟨change, member, isBook⟩ := List.mem_filterMap.mp isUpserted
  have about : change.book = book.uuid := by
    cases change <;> cases isBook <;> rfl
  rcases mem_delta.mp (within change member) with ⟨other, otherWanted, isChange⟩ | isRemoval
  · rw [← about, change_for_book isChange]
    exact List.mem_map_of_mem otherWanted
  · obtain ⟨uuid, rfl, _⟩ := mem_removals.mp isRemoval
    cases isBook

theorem removals_record {changes : List SyncChange}
    (within : ∀ change ∈ changes, change ∈ delta rows tables wanted) :
    removals (recordSynced now rows changes) wanted =
      (removals rows wanted).filter fun change => change.book ∉ changes.map (·.book) := by
  unfold removals Snapshot.keys
  rw [Drain.filter_insertion_sort, Drain.filter_insertion_sort, books_record, List.filter_filter,
    List.filter_map]
  congr 1
  have commuted : ((rows.upsertSynced now (changes.filterMap (·.upserted))).books.filter
      fun book => decide (book ∉ wanted.map (·.uuid)) &&
        decide (book ∉ changes.filterMap (·.dropped))) =
      (rows.books.filter fun book => decide (book ∉ wanted.map (·.uuid))).filter
        fun book => decide (book ∉ changes.filterMap (·.dropped)) := by
    rw [← books_upsert_synced_filter now (changes.filterMap (·.upserted))
      (fun book => decide (book ∉ wanted.map (·.uuid))) (by
        intro book isUpserted
        simpa using upserted_wanted within book isUpserted), List.filter_filter]
    apply List.filter_congr
    intro book _
    exact Bool.and_comm _ _
  rw [commuted, ← Drain.filter_insertion_sort]
  apply List.filter_congr
  intro book member
  have unwanted : book ∉ wanted.map (·.uuid) := by
    simpa using (List.mem_filter.mp ((List.mem_insertionSort _).mp member)).2
  have carried : book ∈ changes.filterMap (·.dropped) ↔ book ∈ changes.map (·.book) := by
    rw [mem_dropped, List.mem_map]
    constructor
    · intro isMem
      exact ⟨_, isMem, rfl⟩
    · intro ⟨change, isMem, about⟩
      rcases mem_delta.mp (within change isMem) with ⟨other, otherWanted, isChange⟩ | isRemoval
      · rw [← about, change_for_book isChange] at unwanted
        exact absurd (List.mem_map_of_mem otherWanted) unwanted
      · obtain ⟨uuid, rfl, _⟩ := mem_removals.mp isRemoval
        rwa [← show uuid = book from about]
  exact decide_eq_decide.mpr (not_congr carried)

variable {changes : List SyncChange}

theorem change_for_settled (once : (changes.map (·.book)).Nodup)
    (clocked : ∀ uuid state, readingStateFor tables uuid = some state →
      state.stateUpdatedAt ≤ now)
    {change : SyncChange} (member : change ∈ changes) {book : KoboBookRow}
    (isChange : changeFor rows tables book = some change) :
    changeFor (recordSynced now rows changes) tables book = none := by
  have about := change_for_book isChange
  have fits := change_for_fits isChange
  have settled := held_record_of_mem now rows once member
  rw [about] at settled
  rw [change_for_eq_none, settled]
  cases change with
  | new sent | changed sent =>
      obtain rfl := fits.1
      exact ⟨_, rfl, rfl, le_rfl, clocked _⟩
  | stateChanged sent =>
      obtain ⟨_, kept, isKept, unmarked, current, _⟩ := fits
      rw [isKept]
      exact ⟨_, rfl, unmarked, current, clocked _⟩
  | removed uuid => exact fits.elim

theorem change_for_unsettled {book : KoboBookRow} (absent : book.uuid ∉ changes.map (·.book)) :
    changeFor (recordSynced now rows changes) tables book = changeFor rows tables book := by
  unfold changeFor
  rw [held_record_of_not_mem absent]

theorem delta_record (size : Nat) (apart : rows.books.Nodup)
    (distinct : (wanted.map (·.uuid)).Nodup)
    (clocked : ∀ uuid state, readingStateFor tables uuid = some state →
      state.stateUpdatedAt ≤ now) :
    delta (recordSynced now rows ((delta rows tables wanted).take size)) tables wanted =
      (delta rows tables wanted).drop size := by
  have named := delta_books_nodup tables apart distinct
  rw [← Drain.filter_not_in_page SyncChange.book size _ named]
  set page := (delta rows tables wanted).take size with isPage
  have once : (page.map (·.book)).Nodup := by
    rw [isPage, List.map_take]
    exact named.sublist (List.take_sublist _ _)
  have within : ∀ change ∈ page, change ∈ delta rows tables wanted :=
    fun change member => List.mem_of_mem_take member
  unfold delta
  rw [List.filter_append, removals_record within, List.filter_filterMap]
  congr 1
  apply List.filterMap_congr
  intro book isWanted
  by_cases carried : book.uuid ∈ page.map (·.book)
  · obtain ⟨change, member, about⟩ := List.mem_map.mp carried
    have isChange := change_for_of_mem distinct (within change member) isWanted about
    rw [change_for_settled once clocked member isChange, isChange]
    have inPage : change.book ∈ page.map (·.book) := List.mem_map_of_mem member
    exact (Option.filter_some_neg (by simpa using inPage)).symm
  · rw [change_for_unsettled carried]
    cases isChange : changeFor rows tables book with
    | none => rfl
    | some change =>
        have about := change_for_book isChange
        have notInPage : change.book ∉ page.map (·.book) := about ▸ carried
        exact (Option.filter_some_pos (by simpa using notInPage)).symm

end Page

end Omnibus.KoboSync
