import Omnibus.Library.Runs
import Omnibus.Scan.Changed
import Omnibus.Scan.Identities

/-!
# A content change and the files of a book

A file keeps its book, and the book its other files, exactly when every changed file is alone
in its slot: the book and format it is rewritten by.
-/

namespace Omnibus.Scan

variable {before library next : Library} {scanRoots : List String} {libraryPath scanKey : String}

section Statement

def FileRow.owned (file : FileRow) : Int × Option String := (file.bookId, file.scanKey)

def Library.owned (library : Library) : List (Int × Option String) :=
  library.files.map FileRow.owned

structure FilesKept (before after : Library) : Prop where
  books : after.books.map (·.id) = before.books.map (·.id)
  files : after.owned.Perm before.owned

/-- Every path of a library is found by one book or one ledger row, and formats are those of
the paths. -/
structure OneIdentity (library : Library) : Prop where
  ids : (library.books.map (·.id)).Nodup
  ledger : (library.mergedUuids.map (·.uuid)).Nodup
  files : library.owned.Nodup
  fileFormat : ∀ file ∈ library.files, ∃ scanKey, file.scanKey = some scanKey ∧
    nocase file.format = nocase (pathFormat scanKey)
  ledgerFormat : ∀ entry ∈ library.mergedUuids, ∀ scanKey, entry.scanKey = some scanKey →
    nocase entry.format = nocase (pathFormat scanKey)
  bookKeys : ∀ book ∈ library.books, ∀ other ∈ library.books,
    book.libraryPath = other.libraryPath → ∀ scanKey, scanKey ≠ "" →
      book.scanKey = some scanKey → other.scanKey = some scanKey → book = other
  entryKeys : ∀ entry ∈ library.mergedUuids, ∀ other ∈ library.mergedUuids,
    entry.libraryPath = other.libraryPath → ∀ scanKey, scanKey ≠ "" →
      entry.scanKey = some scanKey → other.scanKey = some scanKey → entry = other
  apart : ∀ book ∈ library.books, ∀ entry ∈ library.mergedUuids,
    book.libraryPath = entry.libraryPath → ∀ scanKey, scanKey ≠ "" →
      book.scanKey = some scanKey → entry.scanKey ≠ some scanKey

/-- The file at the path has its slot to itself: as a book's own file, no other file of the book
has its format; as an attached one, `slot_held_by_other` says so. -/
structure Alone (library : Library) (libraryPath scanKey : String) : Prop where
  own : ∀ book ∈ library.books, book.libraryPath = libraryPath → book.scanKey = some scanKey →
    ∀ file ∈ library.files, inSlot book.id (pathFormat scanKey) file = true →
      file.scanKey = some scanKey
  attached : ∀ entry ∈ library.mergedUuids, entry.libraryPath = libraryPath →
    entry.scanKey = some scanKey →
      slotHeldByOther library entry.bookId entry.format scanKey = false

end Statement

section Slots

def sameSlot (bookId : Int) (scanKey : String) (owned : Int × Option String) : Bool :=
  owned.1 = bookId && owned.2.any fun other => sameFormat (pathFormat other) (pathFormat scanKey)

/-- The slot is emptied and has the one file. -/
def rewriteSlot (owned : List (Int × Option String)) (bookId : Int) (scanKey : String) :
    List (Int × Option String) :=
  owned.filter (!sameSlot bookId scanKey ·) ++ [(bookId, some scanKey)]

theorem same_slot_self (bookId : Int) (scanKey : String) :
    sameSlot bookId scanKey (bookId, some scanKey) = true := by
  simp [sameSlot, sameFormat]

theorem mem_rewrite_slot {owned : List (Int × Option String)} {bookId : Int}
    {pair : Int × Option String} : pair ∈ rewriteSlot owned bookId scanKey ↔
      pair ∈ owned ∧ sameSlot bookId scanKey pair = false ∨ pair = (bookId, some scanKey) := by
  simp [rewriteSlot]

theorem rewrite_slot_perm {owned : List (Int × Option String)} {bookId : Int}
    (nodup : owned.Nodup) (present : (bookId, some scanKey) ∈ owned)
    (alone : ∀ pair ∈ owned, sameSlot bookId scanKey pair = true → pair = (bookId, some scanKey)) :
    (rewriteSlot owned bookId scanKey).Perm owned := by
  have slot : owned.filter (sameSlot bookId scanKey) = [(bookId, some scanKey)] := by
    have nodupSlot : (owned.filter (sameSlot bookId scanKey)).Nodup := nodup.filter _
    have all : ∀ pair ∈ owned.filter (sameSlot bookId scanKey),
        pair = (bookId, some scanKey) := fun pair member =>
      alone pair (List.mem_filter.mp member).1 (List.mem_filter.mp member).2
    have inSlot : (bookId, some scanKey) ∈ owned.filter (sameSlot bookId scanKey) :=
      List.mem_filter.mpr ⟨present, same_slot_self bookId scanKey⟩
    rw [List.eq_replicate_of_mem all] at nodupSlot inSlot ⊢
    have single := List.nodup_replicate.mp nodupSlot
    have nonempty : (owned.filter (sameSlot bookId scanKey)).length ≠ 0 :=
      (List.mem_replicate.mp inSlot).1
    have one : (owned.filter (sameSlot bookId scanKey)).length = 1 := by omega
    rw [one]
    rfl
  unfold rewriteSlot
  rw [← slot]
  apply List.perm_append_comm.trans
  exact List.filter_append_perm (sameSlot bookId scanKey) owned

end Slots

section Steps

/-- A library on the way through a batch that has kept every file with its book so far. -/
structure Following (before library : Library) : Prop where
  ids : library.books.map (·.id) = before.books.map (·.id)
  ledger : ∀ entry, entry ∈ library.mergedUuids ↔ entry ∈ before.mergedUuids
  fileFormat : ∀ file ∈ library.files, ∃ scanKey, file.scanKey = some scanKey ∧
    nocase file.format = nocase (pathFormat scanKey)

theorem OneIdentity.following (one : OneIdentity before) : Following before before :=
  ⟨rfl, fun _ => Iff.rfl, one.fileFormat⟩

theorem Following.in_slot (following : Following before library) {file : FileRow}
    (member : file ∈ library.files) {bookId : Int} {format : String}
    (sameAs : nocase format = nocase (pathFormat scanKey)) :
    inSlot bookId format file = sameSlot bookId scanKey file.owned := by
  obtain ⟨own, isOwn, ownFormat⟩ := following.fileFormat file member
  simp only [inSlot, sameSlot, FileRow.owned, isOwn, Option.any_some, sameFormat, ownFormat,
    sameAs]

theorem Following.owned_filter (following : Following before library) {bookId : Int}
    {format : String} (sameAs : nocase format = nocase (pathFormat scanKey)) :
    (library.files.filter (!inSlot bookId format ·)).map FileRow.owned =
      library.owned.filter (!sameSlot bookId scanKey ·) := by
  unfold Library.owned
  rw [List.filter_map]
  congr 1
  apply List.filter_congr
  intro file member
  rw [Function.comp_apply, following.in_slot member sameAs]

/-- The slot is another file's when a ledger row or a file of it has another path. -/
theorem Following.slot_held_iff (following : Following before library) {bookId : Int}
    {format : String} (sameAs : nocase format = nocase (pathFormat scanKey)) :
    slotHeldByOther library bookId format scanKey = true ↔
      (∃ entry ∈ before.mergedUuids, entry.bookId = bookId ∧
          sameFormat entry.format format = true ∧ otherKey entry.scanKey scanKey = true) ∨
        ∃ pair ∈ library.owned, sameSlot bookId scanKey pair = true ∧
          otherKey pair.2 scanKey = true := by
  unfold slotHeldByOther
  rw [Bool.or_eq_true, List.any_eq_true, List.any_eq_true]
  refine or_congr ?_ ?_
  · simp only [Bool.and_eq_true, decide_eq_true_eq, following.ledger, and_assoc]
  · constructor
    · intro ⟨file, member, held⟩
      rw [Bool.and_eq_true, following.in_slot member sameAs] at held
      exact ⟨file.owned, List.mem_map_of_mem member, held⟩
    · intro ⟨pair, member, inSlot, other⟩
      obtain ⟨file, fileMem, rfl⟩ := List.mem_map.mp member
      refine ⟨file, fileMem, ?_⟩
      rw [Bool.and_eq_true, following.in_slot fileMem sameAs]
      exact ⟨inSlot, other⟩

/-- The book of the scanned library whose own file lies at the path. -/
def OwnFile (library : Library) (libraryPath scanKey : String) (bookId : Int) : Prop :=
  ∃ book ∈ library.books, book.libraryPath = libraryPath ∧ book.scanKey = some scanKey ∧
    book.id = bookId

theorem id_map_own {bookId : Int} (found : idMap before.books libraryPath scanKey = some bookId) :
    OwnFile before libraryPath scanKey bookId := by
  obtain ⟨book, last, rfl⟩ := Option.map_eq_some_iff.mp found
  have member := List.mem_of_getLast? last
  rw [List.mem_filter, Bool.and_eq_true, decide_eq_true_eq, decide_eq_true_eq] at member
  exact ⟨book, member.1, member.2.1, member.2.2, rfl⟩

theorem OneIdentity.id_map (one : OneIdentity before) (named : scanKey ≠ "") {bookId : Int}
    (own : OwnFile before libraryPath scanKey bookId) :
    idMap before.books libraryPath scanKey = some bookId := by
  obtain ⟨book, member, root, isKey, rfl⟩ := own
  cases found : idMap before.books libraryPath scanKey with
  | none =>
      have empty := List.getLast?_eq_none_iff.mp (Option.map_eq_none_iff.mp found)
      have kept : book ∈ before.books.filter fun book =>
          book.libraryPath = libraryPath && book.scanKey = some scanKey :=
        List.mem_filter.mpr ⟨member, by simp [root, isKey]⟩
      rw [empty] at kept
      exact absurd kept List.not_mem_nil
  | some other =>
      obtain ⟨otherBook, otherMem, otherRoot, otherKey, rfl⟩ := id_map_own found
      rw [one.bookKeys book member otherBook otherMem (root.trans otherRoot.symm) scanKey named
        isKey otherKey]

theorem find_attachment {ledger : List MergedUuid} {entry : MergedUuid}
    (found : findAttachmentByScanKey ledger libraryPath scanKey = some entry) :
    entry ∈ ledger ∧ entry.libraryPath = libraryPath ∧ entry.scanKey = some scanKey := by
  have isOne := List.find?_some found
  rw [Bool.and_eq_true, decide_eq_true_eq, decide_eq_true_eq] at isOne
  exact ⟨List.mem_of_find?_eq_some found, isOne⟩

theorem Following.find_attachment (following : Following before library)
    (one : OneIdentity before) (named : scanKey ≠ "") {entry : MergedUuid}
    (member : entry ∈ before.mergedUuids) (root : entry.libraryPath = libraryPath)
    (isKey : entry.scanKey = some scanKey) :
    findAttachmentByScanKey library.mergedUuids libraryPath scanKey = some entry := by
  cases found : findAttachmentByScanKey library.mergedUuids libraryPath scanKey with
  | none =>
      have absent := List.find?_eq_none.mp found entry ((following.ledger entry).mpr member)
      simp [root, isKey] at absent
  | some other =>
      obtain ⟨otherMem, otherRoot, otherKey⟩ := Scan.find_attachment found
      rw [one.entryKeys entry member other ((following.ledger other).mp otherMem)
        (root.trans otherRoot.symm) scanKey named isKey otherKey]

theorem Following.record (following : Following before library) (one : OneIdentity before)
    (named : scanKey ≠ "") {entry : MergedUuid} (member : entry ∈ before.mergedUuids)
    (root : entry.libraryPath = libraryPath) (isKey : entry.scanKey = some scanKey)
    (other : MergedUuid) :
    other ∈ recordAttachment library.mergedUuids entry.uuid entry.bookId entry.format libraryPath
      scanKey ↔ other ∈ before.mergedUuids := by
  unfold recordAttachment
  rw [following.find_attachment one named member root isKey, Option.map_some]
  dsimp only
  rw [Option.getD_some, mem_insert_or_replace, following.ledger]
  have same : (⟨entry.uuid, entry.bookId, entry.format, libraryPath, some scanKey⟩ : MergedUuid) =
      entry := by
    rw [← root, ← isKey]
  rw [same]
  constructor
  · rintro (rfl | ⟨otherMem, _⟩)
    · exact member
    · exact otherMem
  · intro otherMem
    by_cases sameUuid : other.uuid = entry.uuid
    · exact .inl (List.inj_on_of_nodup_map one.ledger otherMem member sameUuid)
    · exact .inr ⟨otherMem, sameUuid⟩

end Steps

section InPlace

/-- The slot the file at a path is written into. -/
inductive SlotOf (before library : Library) (libraryPath scanKey : String) : Int → Prop
  | own (bookId : Int) (own : OwnFile before libraryPath scanKey bookId) :
      SlotOf before library libraryPath scanKey bookId
  | attached (entry : MergedUuid) (member : entry ∈ before.mergedUuids)
      (root : entry.libraryPath = libraryPath) (isKey : entry.scanKey = some scanKey)
      (free : slotHeldByOther library entry.bookId entry.format scanKey = false) :
      SlotOf before library libraryPath scanKey entry.bookId

theorem Following.file_format_append (following : Following before library) {kept : List FileRow}
    (sublist : ∀ file ∈ kept, file ∈ library.files) (bookId : Int) (book : IndexedBook)
    {file : FileRow} (member : file ∈ kept ++ [bookFileRow bookId book]) :
    ∃ scanKey, file.scanKey = some scanKey ∧ nocase file.format = nocase (pathFormat scanKey) := by
  rcases List.mem_append.mp member with old | new
  · exact following.fileFormat file (sublist file old)
  · rw [List.mem_singleton.mp new]
    exact ⟨book.target.filename, rfl, rfl⟩

theorem changed_in_place (one : OneIdentity before) (following : Following before library)
    {book : IndexedBook} (named : book.target.filename ≠ "")
    (stepped : changedInPlace scanRoots libraryPath (idMap before.books libraryPath) library book =
      some next) :
    Following before next ∧ ∃ bookId,
      SlotOf before library libraryPath book.target.filename bookId ∧
        next.owned = rewriteSlot library.owned bookId book.target.filename := by
  unfold changedInPlace at stepped
  cases found : idMap before.books libraryPath (scanKeyFor book.target.filename) with
  | some bookId =>
      rw [found] at stepped
      obtain rfl := Option.some.inj stepped
      refine ⟨⟨?_, following.ledger, ?_⟩, bookId, .own bookId (id_map_own found), ?_⟩
      · rw [← following.ids]
        change ((updateBookRow _ _ _).map _) = _
        unfold updateBookRow
        rw [List.map_map]
        apply List.map_congr_left
        intro row _
        rw [Function.comp_apply]
        split <;> rfl
      · intro file member
        exact following.file_format_append (fun _ kept => (List.mem_filter.mp kept).1) bookId book
          member
      · change (library.files.filter (!inSlot bookId (pathFormat book.target.filename) ·) ++
          [bookFileRow bookId book]).map _ = _
        have sameAs : nocase (pathFormat book.target.filename) =
            nocase (pathFormat book.target.filename) := rfl
        rw [List.map_append, following.owned_filter sameAs]
        rfl
  | none =>
      rw [found] at stepped
      obtain ⟨entry, isEntry, attached⟩ := Option.bind_eq_some_iff.mp stepped
      obtain ⟨inLedger, root, isKey⟩ := find_attachment isEntry
      have member := (following.ledger entry).mp inLedger
      have sameAs := one.ledgerFormat entry member _ isKey
      unfold attachEbookFile at attached
      dsimp only at attached
      split_ifs at attached with held
      obtain rfl := Option.some.inj attached
      refine ⟨⟨?_, ?_, ?_⟩, entry.bookId,
        .attached entry member root isKey (Bool.eq_false_iff.mpr held), ?_⟩
      · rw [← following.ids, List.map_map]
        apply List.map_congr_left
        intro row _
        rw [Function.comp_apply]
        split
        · rcases promote_filed scanRoots _ row with same | ⟨_, _, _, moved⟩
          · rw [same]
          · rw [moved]
        · rfl
      · exact following.record one named member root isKey
      · intro file inFiles
        obtain ⟨old, oldMem, rfl⟩ := List.mem_map.mp inFiles
        obtain ⟨own, isOwn, ownFormat⟩ := following.file_format_append
          (fun _ kept => (List.mem_filter.mp kept).1) entry.bookId book oldMem
        refine ⟨own, ?_⟩
        split <;> exact ⟨isOwn, ownFormat⟩
      · unfold Library.owned
        dsimp only
        rw [List.map_map]
        have located : ∀ file ∈ library.files.filter (!inSlot entry.bookId entry.format ·) ++
            [bookFileRow entry.bookId book],
            (FileRow.owned ∘ fun file : FileRow => if inSlot entry.bookId entry.format file then
              { file with
                libraryPath := some libraryPath
                path := some (splitFilename book.target.filename).1 }
              else file) file = file.owned := by
          intro file _
          rw [Function.comp_apply]
          split <;> rfl
        rw [List.map_congr_left located, List.map_append, following.owned_filter sameAs]
        rfl

theorem changed_to_new_book_length (libraryPath : String) (library : Library)
    (book : IndexedBook) : (changedToNewBook libraryPath library book).books.length =
      library.books.length + 1 :=
  List.length_append

theorem changed_in_place_length {ids : String → Option Int} {book : IndexedBook}
    (stepped : changedInPlace scanRoots libraryPath ids library book = some next) :
    next.books.length = library.books.length := by
  unfold changedInPlace at stepped
  split at stepped
  · obtain rfl := Option.some.inj stepped
    exact List.length_map _
  · obtain ⟨entry, _, attached⟩ := Option.bind_eq_some_iff.mp stepped
    unfold attachEbookFile at attached
    dsimp only at attached
    split_ifs at attached
    obtain rfl := Option.some.inj attached
    exact List.length_map _

theorem sync_changed_one_length (ids : String → Option Int) (library : Library)
    (book : IndexedBook) :
    library.books.length ≤ (syncChangedOne scanRoots libraryPath ids library book).books.length := by
  unfold syncChangedOne
  cases stepped : changedInPlace scanRoots libraryPath ids library book with
  | none =>
      rw [Option.getD_none, changed_to_new_book_length]
      exact Nat.le_succ _
  | some next =>
      rw [Option.getD_some, changed_in_place_length stepped]

theorem sync_changed_length (scanRoots : List String) (libraryPath : String)
    (ids : String → Option Int) (books : List IndexedBook)
    (library : Library) : library.books.length ≤
      (books.foldl (syncChangedOne scanRoots libraryPath ids) library).books.length := by
  induction books generalizing library with
  | nil => exact Nat.le_refl _
  | cons book rest induction =>
      exact Nat.le_trans (sync_changed_one_length ids library book) (induction _)

theorem run_in_place_of_length (ids : String → Option Int) (books : List IndexedBook)
    (library : Library)
    (same : (books.foldl (syncChangedOne scanRoots libraryPath ids) library).books.length =
      library.books.length) :
    Library.Runs.run (changedInPlace scanRoots libraryPath ids) library books =
      some (books.foldl (syncChangedOne scanRoots libraryPath ids) library) := by
  induction books generalizing library with
  | nil => rfl
  | cons book rest induction =>
      rw [List.foldl_cons] at same ⊢
      rw [Library.Runs.run]
      have grows := sync_changed_length scanRoots libraryPath ids rest
        (syncChangedOne scanRoots libraryPath ids library book)
      cases stepped : changedInPlace scanRoots libraryPath ids library book with
      | none =>
          have demoted : syncChangedOne scanRoots libraryPath ids library book =
              changedToNewBook libraryPath library book := by
            rw [syncChangedOne, stepped, Option.getD_none]
          have more := changed_to_new_book_length libraryPath library book
          rw [← demoted] at more
          omega
      | some next =>
          have kept : syncChangedOne scanRoots libraryPath ids library book = next := by
            rw [syncChangedOne, stepped, Option.getD_some]
          rw [kept] at same ⊢
          rw [Option.bind_some]
          apply induction
          rw [same, changed_in_place_length stepped]

end InPlace

section Alone

/-- The path is that of a file the index has: a book's own or an attached one. -/
def KnownFile (library : Library) (libraryPath scanKey : String) : Prop :=
  (∃ bookId, OwnFile library libraryPath scanKey bookId ∧
      (bookId, some scanKey) ∈ library.owned) ∨
    ∃ entry ∈ library.mergedUuids, entry.libraryPath = libraryPath ∧
      entry.scanKey = some scanKey ∧ (entry.bookId, some scanKey) ∈ library.owned

theorem OneIdentity.own_unique (one : OneIdentity before) (named : scanKey ≠ "")
    {bookId other : Int} (own : OwnFile before libraryPath scanKey bookId)
    (otherOwn : OwnFile before libraryPath scanKey other) : bookId = other := by
  have first := one.id_map named own
  rw [one.id_map named otherOwn] at first
  exact (Option.some.inj first).symm

theorem SlotOf.present (one : OneIdentity before) (named : scanKey ≠ "") {bookId : Int}
    (slot : SlotOf before library libraryPath scanKey bookId)
    (known : KnownFile before libraryPath scanKey) : (bookId, some scanKey) ∈ before.owned := by
  cases slot with
  | own _ own =>
      rcases known with ⟨other, otherOwn, present⟩ | ⟨entry, member, root, isKey, _⟩
      · rw [one.own_unique named own otherOwn]
        exact present
      · obtain ⟨book, bookMem, bookRoot, bookKey, _⟩ := own
        exact absurd isKey (one.apart book bookMem entry member (bookRoot.trans root.symm) scanKey
          named bookKey)
  | attached entry member root isKey _ =>
      rcases known with ⟨_, ⟨book, bookMem, bookRoot, bookKey, _⟩, _⟩ |
        ⟨other, otherMem, otherRoot, otherKey, present⟩
      · exact absurd isKey (one.apart book bookMem entry member (bookRoot.trans root.symm) scanKey
          named bookKey)
      · rw [one.entryKeys entry member other otherMem (root.trans otherRoot.symm) scanKey named
          isKey otherKey]
        exact present

theorem eq_of_same_slot {bookId : Int} {pair : Int × Option String}
    (inSlot : sameSlot bookId scanKey pair = true) (same : otherKey pair.2 scanKey = false) :
    pair = (bookId, some scanKey) := by
  obtain ⟨owner, _ | own⟩ := pair
  · simp [sameSlot] at inSlot
  · simp only [sameSlot, otherKey, Bool.and_eq_true, decide_eq_true_eq, Option.any_some,
      ne_eq, decide_eq_false_iff_not, Decidable.not_not] at inSlot same
    rw [inSlot.1, same]

theorem in_place_of_alone (one : OneIdentity before) (following : Following before library)
    (perm : library.owned.Perm before.owned) {book : IndexedBook}
    (named : book.target.filename ≠ "")
    (known : KnownFile before libraryPath book.target.filename)
    (alone : Alone before libraryPath book.target.filename) (scanRoots : List String) :
    ∃ next, changedInPlace scanRoots libraryPath (idMap before.books libraryPath) library book =
      some next ∧ Following before next ∧ next.owned.Perm before.owned := by
  have free (entry : MergedUuid) (member : entry ∈ before.mergedUuids)
      (root : entry.libraryPath = libraryPath)
      (isKey : entry.scanKey = some book.target.filename) :
      slotHeldByOther library entry.bookId entry.format book.target.filename = false := by
    have freeBefore := alone.attached entry member root isKey
    have sameAs := one.ledgerFormat entry member _ isKey
    rw [Bool.eq_false_iff] at freeBefore ⊢
    intro held
    apply freeBefore
    rw [following.slot_held_iff sameAs] at held
    rw [one.following.slot_held_iff sameAs]
    apply held.imp_right
    intro ⟨pair, member, inSlot⟩
    exact ⟨pair, perm.mem_iff.mp member, inSlot⟩
  have written : ∃ next, changedInPlace scanRoots libraryPath (idMap before.books libraryPath)
      library book = some next := by
    unfold changedInPlace
    cases found : idMap before.books libraryPath (scanKeyFor book.target.filename) with
    | some bookId => exact ⟨_, rfl⟩
    | none =>
        rcases known with ⟨bookId, own, _⟩ | ⟨entry, member, root, isKey, _⟩
        · rw [scanKeyFor, one.id_map named own] at found
          exact absurd found (Option.some_ne_none _)
        · dsimp only
          rw [scanKeyFor, following.find_attachment one named member root isKey, Option.bind_some,
            attachEbookFile]
          dsimp only
          exact ⟨_, if_neg (Bool.eq_false_iff.mp (free entry member root isKey))⟩
  obtain ⟨next, stepped⟩ := written
  obtain ⟨followingNext, bookId, slot, rewritten⟩ := changed_in_place one following named stepped
  refine ⟨next, stepped, followingNext, ?_⟩
  rw [rewritten]
  refine (rewrite_slot_perm (perm.nodup_iff.mpr one.files)
    (perm.mem_iff.mpr (slot.present one named known)) fun pair member inSlot => ?_).trans perm
  cases slot with
  | own _ own =>
      obtain ⟨row, rowMem, root, isKey, rfl⟩ := own
      obtain ⟨file, fileMem, rfl⟩ := List.mem_map.mp (perm.mem_iff.mp member)
      have isOwn := alone.own row rowMem root isKey file fileMem
        ((one.following.in_slot fileMem rfl).trans inSlot)
      apply eq_of_same_slot inSlot
      simp [otherKey, FileRow.owned, isOwn]
  | attached entry entryMem root isKey notHeld =>
      apply eq_of_same_slot inSlot
      rw [Bool.eq_false_iff] at notHeld ⊢
      intro other
      exact notHeld ((following.slot_held_iff (one.ledgerFormat entry entryMem _ isKey)).mpr
        (.inr ⟨pair, member, inSlot, other⟩))

theorem files_kept_of_alone (one : OneIdentity before) (books : List IndexedBook)
    (following : Following before library) (perm : library.owned.Perm before.owned)
    (known : ∀ book ∈ books, book.target.filename ≠ "" ∧
      KnownFile before libraryPath book.target.filename ∧
        Alone before libraryPath book.target.filename) :
    FilesKept before (books.foldl
      (syncChangedOne scanRoots libraryPath (idMap before.books libraryPath)) library) := by
  induction books generalizing library with
  | nil => exact ⟨following.ids, perm⟩
  | cons book rest induction =>
      obtain ⟨⟨named, isKnown, alone⟩, later⟩ := List.forall_mem_cons.mp known
      obtain ⟨next, stepped, followingNext, permNext⟩ :=
        in_place_of_alone one following perm named isKnown alone scanRoots
      rw [List.foldl_cons, syncChangedOne, stepped, Option.getD_some]
      exact induction followingNext permNext later

end Alone

section Evicted

/-- A slot that another file holds stays held while other files are written in place. -/
theorem held_persists (one : OneIdentity before) (following : Following before library)
    {bookId : Int} {format : String} (sameAs : nocase format = nocase (pathFormat scanKey))
    {book : IndexedBook} (named : book.target.filename ≠ "")
    (other : book.target.filename ≠ scanKey)
    (stepped : changedInPlace scanRoots libraryPath (idMap before.books libraryPath) library book =
      some next) (held : slotHeldByOther library bookId format scanKey = true) :
    slotHeldByOther next bookId format scanKey = true := by
  obtain ⟨followingNext, written, _, rewritten⟩ := changed_in_place one following named stepped
  rw [following.slot_held_iff sameAs] at held
  rw [followingNext.slot_held_iff sameAs]
  apply held.imp_right
  intro ⟨pair, member, inSlot, isOther⟩
  rw [rewritten]
  cases cleared : sameSlot written book.target.filename pair with
  | false => exact ⟨pair, mem_rewrite_slot.mpr (.inl ⟨member, cleared⟩), inSlot, isOther⟩
  | true =>
      -- the writer of this slot holds it now
      refine ⟨_, mem_rewrite_slot.mpr (.inr rfl), ?_, by simpa [otherKey] using other⟩
      obtain ⟨owner, _ | own⟩ := pair
      · simp [sameSlot] at inSlot
      · simp only [sameSlot, sameFormat, Bool.and_eq_true, decide_eq_true_eq,
          Option.any_some] at inSlot cleared ⊢
        exact ⟨cleared.1.symm.trans inSlot.1, cleared.2.symm.trans inSlot.2⟩

theorem not_held_of_run (one : OneIdentity before) {entry : MergedUuid}
    (member : entry ∈ before.mergedUuids) (root : entry.libraryPath = libraryPath)
    (isKey : entry.scanKey = some scanKey) (books : List IndexedBook) {last : Library}
    (following : Following before library)
    (distinct : (books.map (·.target.filename)).Nodup)
    (named : ∀ book ∈ books, book.target.filename ≠ "")
    (changed : scanKey ∈ books.map (·.target.filename))
    (ran : Library.Runs.run (changedInPlace scanRoots libraryPath
      (idMap before.books libraryPath)) library books = some last) :
    slotHeldByOther library entry.bookId entry.format scanKey = false := by
  induction books generalizing library with
  | nil => exact absurd changed List.not_mem_nil
  | cons book rest induction =>
      obtain ⟨next, stepped, later⟩ := Option.bind_eq_some_iff.mp ran
      obtain ⟨isNamed, namedLater⟩ := List.forall_mem_cons.mp named
      obtain ⟨first, distinctLater⟩ := List.nodup_cons.mp distinct
      obtain ⟨followingNext, bookId, slot, _⟩ :=
        changed_in_place one following isNamed stepped
      rcases List.mem_cons.mp changed with rfl | inRest
      · cases slot with
        | own _ own =>
            obtain ⟨row, rowMem, rowRoot, rowKey, _⟩ := own
            exact absurd isKey (one.apart row rowMem entry member (rowRoot.trans root.symm) _
              isNamed rowKey)
        | attached other otherMem otherRoot otherKey free =>
            rw [one.entryKeys entry member other otherMem (root.trans otherRoot.symm) _ isNamed
              isKey otherKey]
            exact free
      · rw [Bool.eq_false_iff]
        intro held
        have isOther : book.target.filename ≠ scanKey := by
          intro equal
          subst equal
          exact first inRest
        have sameAs := one.ledgerFormat entry member scanKey isKey
        have still := held_persists one following sameAs isNamed isOther stepped held
        rw [induction followingNext distinctLater namedLater inRest later] at still
        exact Bool.false_ne_true still

def OnlyOwn (library : Library) (bookId : Int) (scanKey : String) : Prop :=
  (bookId, some scanKey) ∈ library.owned ∧
    ∀ pair ∈ library.owned, sameSlot bookId scanKey pair = true → pair = (bookId, some scanKey)

theorem same_slot_comm (bookId other : Int) (scanKey otherKey : String) :
    sameSlot bookId scanKey (other, some otherKey) =
      sameSlot other otherKey (bookId, some scanKey) := by
  simp only [sameSlot, Option.any_some, sameFormat, eq_comm]

theorem only_own_persists (one : OneIdentity before) (following : Following before library)
    {bookId : Int} (own : OwnFile before libraryPath scanKey bookId) {book : IndexedBook}
    (named : book.target.filename ≠ "") (other : book.target.filename ≠ scanKey)
    (stepped : changedInPlace scanRoots libraryPath (idMap before.books libraryPath) library book =
      some next) (only : OnlyOwn library bookId scanKey) : OnlyOwn next bookId scanKey := by
  obtain ⟨_, written, slot, rewritten⟩ := changed_in_place one following named stepped
  have elsewhere : sameSlot written book.target.filename (bookId, some scanKey) = false := by
    rw [Bool.eq_false_iff]
    intro same
    cases slot with
    | own _ writtenOwn =>
        obtain ⟨row, rowMem, _, rowKey, rfl⟩ := own
        obtain ⟨writtenRow, writtenMem, _, writtenKey, rfl⟩ := writtenOwn
        simp only [sameSlot, Bool.and_eq_true, decide_eq_true_eq] at same
        rw [List.inj_on_of_nodup_map one.ids rowMem writtenMem same.1, writtenKey] at rowKey
        exact other (Option.some.inj rowKey)
    | attached entry member root isKey free =>
        rw [Bool.eq_false_iff] at free
        apply free
        rw [following.slot_held_iff (one.ledgerFormat entry member _ isKey)]
        exact .inr ⟨_, only.1, same, by simpa [otherKey] using Ne.symm other⟩
  constructor
  · rw [rewritten, mem_rewrite_slot]
    exact .inl ⟨only.1, elsewhere⟩
  · intro pair member inSlot
    rw [rewritten, mem_rewrite_slot] at member
    rcases member with ⟨old, _⟩ | rfl
    · exact only.2 pair old inSlot
    · rw [same_slot_comm, elsewhere] at inSlot
      exact absurd inSlot Bool.false_ne_true

theorem only_own_of_run (one : OneIdentity before) {bookId : Int}
    (own : OwnFile before libraryPath scanKey bookId) (books : List IndexedBook) {last : Library}
    (following : Following before library)
    (named : ∀ book ∈ books, book.target.filename ≠ "")
    (others : scanKey ∉ books.map (·.target.filename))
    (ran : Library.Runs.run (changedInPlace scanRoots libraryPath
      (idMap before.books libraryPath)) library books = some last)
    (only : OnlyOwn library bookId scanKey) : OnlyOwn last bookId scanKey := by
  induction books generalizing library with
  | nil => exact Option.some.inj ran ▸ only
  | cons book rest induction =>
      obtain ⟨next, stepped, later⟩ := Option.bind_eq_some_iff.mp ran
      obtain ⟨isNamed, namedLater⟩ := List.forall_mem_cons.mp named
      obtain ⟨followingNext, _⟩ := changed_in_place one following isNamed stepped
      rw [List.map_cons, List.mem_cons, not_or] at others
      exact induction followingNext namedLater others.2 later
        (only_own_persists one following own isNamed (Ne.symm others.1) stepped only)

theorem only_own_of_changed (one : OneIdentity before) {bookId : Int}
    (own : OwnFile before libraryPath scanKey bookId) (books : List IndexedBook) {last : Library}
    (following : Following before library)
    (distinct : (books.map (·.target.filename)).Nodup)
    (named : ∀ book ∈ books, book.target.filename ≠ "")
    (changed : scanKey ∈ books.map (·.target.filename))
    (ran : Library.Runs.run (changedInPlace scanRoots libraryPath
      (idMap before.books libraryPath)) library books = some last) :
    OnlyOwn last bookId scanKey := by
  induction books generalizing library with
  | nil => exact absurd changed List.not_mem_nil
  | cons book rest induction =>
      obtain ⟨next, stepped, later⟩ := Option.bind_eq_some_iff.mp ran
      obtain ⟨isNamed, namedLater⟩ := List.forall_mem_cons.mp named
      obtain ⟨first, distinctLater⟩ := List.nodup_cons.mp distinct
      obtain ⟨followingNext, written, slot, rewritten⟩ :=
        changed_in_place one following isNamed stepped
      rcases List.mem_cons.mp changed with rfl | inRest
      · have isOwn : written = bookId := by
          cases slot with
          | own _ writtenOwn => exact one.own_unique isNamed writtenOwn own
          | attached entry member root isKey _ =>
              obtain ⟨row, rowMem, rowRoot, rowKey, _⟩ := own
              exact absurd isKey (one.apart row rowMem entry member (rowRoot.trans root.symm) _
                isNamed rowKey)
        rw [isOwn] at rewritten
        refine only_own_of_run one own rest followingNext namedLater first later ⟨?_, ?_⟩
        · rw [rewritten, mem_rewrite_slot]
          exact .inr rfl
        · intro pair member inSlot
          rw [rewritten, mem_rewrite_slot] at member
          rcases member with ⟨_, cleared⟩ | isNew
          · rw [cleared] at inSlot
            exact absurd inSlot Bool.false_ne_true
          · exact isNew
      · exact induction followingNext distinctLater namedLater inRest later

/-- When every file keeps its book and row, every changed file was alone in its slot. -/
theorem alone_of_files_kept (one : OneIdentity before) (books : List IndexedBook)
    (distinct : (books.map (·.target.filename)).Nodup)
    (named : ∀ book ∈ books, book.target.filename ≠ "")
    (kept : FilesKept before (books.foldl
      (syncChangedOne scanRoots libraryPath (idMap before.books libraryPath)) before))
    (changed : scanKey ∈ books.map (·.target.filename)) : Alone before libraryPath scanKey := by
  have sameLength := congrArg List.length kept.books
  rw [List.length_map, List.length_map] at sameLength
  have ran := run_in_place_of_length _ books before sameLength
  constructor
  · intro book bookMem root isKey file fileMem inSlot
    have own : OwnFile before libraryPath scanKey book.id := ⟨book, bookMem, root, isKey, rfl⟩
    have only := only_own_of_changed one own books one.following distinct named changed ran
    have still : file.owned ∈ (books.foldl (syncChangedOne scanRoots libraryPath
        (idMap before.books libraryPath)) before).owned :=
      kept.files.mem_iff.mpr (List.mem_map_of_mem fileMem)
    rw [one.following.in_slot fileMem rfl] at inSlot
    exact congrArg Prod.snd (only.2 _ still inSlot)
  · intro entry member root isKey
    exact not_held_of_run one member root isKey books one.following distinct named changed ran

end Evicted

end Omnibus.Scan
