import Omnibus.Scan.Ordinals

/-!
# The order of a book's audio files

`cross_format/order.rs`: the order a reader gave is written over `book_files.ordinal` in two
phases, since the unique key is enforced row by row. The first parks each file below zero, where
no other row is; the second turns the parked ordinals over.
-/

namespace Omnibus.CrossFormat

open Omnibus.Scan

/-- What `apply_audio_order_tx` fails with; `db` is a statement that was refused. -/
inductive CrossFormatError where
  | audioSetMismatch
  | db
  deriving DecidableEq, Repr

def audioFormats : List String := ["M4B", "M4A", "MP3"]

/-- The column's NOCASE collation decides the IN. -/
def isAudioOf (bookId : Int) (file : FileRow) : Bool :=
  file.bookId = bookId && audioFormats.any (sameFormat file.format)

/-- The files `audio_files` lists, as the set that is compared. -/
def audioFileIds (files : List FileRow) (bookId : Int) : List Int :=
  (files.filter (isAudioOf bookId)).map (·.id)

/-- An UPDATE. A refused one leaves the rows as they were. -/
def execute (visit : Visit) (selects : FileRow → Bool) (write : FileRow → FileRow)
    (files : List FileRow) : List FileRow × Except CrossFormatError Unit :=
  match updateRows write files (visit.order files ((files.filter selects).map (·.id))) with
  | some written => (written, .ok ())
  | none => (files, .error .db)

def setOrdinal (ordinal : Int) (file : FileRow) : FileRow :=
  { file with ordinal := ordinal }

/-- The loop over the order, from its index on. -/
def parkOrdinals (visit : Visit) (bookId : Int) :
    Nat → List Int → List FileRow → List FileRow × Except CrossFormatError Unit
  | _, [], files => (files, .ok ())
  | i, id :: rest, files =>
      match execute visit (fun file => file.id = id && file.bookId = bookId)
        (setOrdinal (-i - 1)) files with
      | (parked, .ok ()) => parkOrdinals visit bookId (i + 1) rest parked
      | (parked, .error error) => (parked, .error error)

/-- `apply_audio_order_tx`: the rows it leaves in the transaction, and its answer. -/
def applyAudioOrderTx (visit : Visit) (bookId : Int) (order : List Int) (files : List FileRow) :
    List FileRow × Except CrossFormatError Unit :=
  let current := audioFileIds files bookId
  if order.dedup.length ≠ order.length ∨ ¬(order ⊆ current ∧ current ⊆ order) then
    (files, .error .audioSetMismatch)
  else
    match parkOrdinals visit bookId 0 order files with
    | (parked, .ok ()) =>
        execute visit (fun file => isAudioOf bookId file && file.ordinal < 0)
          (fun file => setOrdinal (-file.ordinal - 1) file) parked
    | (parked, .error error) => (parked, .error error)

section Ordered

variable {files : List FileRow} {bookId : Int} {order : List Int}

theorem order_perm_iff (ids : (files.map (·.id)).Nodup) :
    order.Perm (audioFileIds files bookId) ↔ ¬(order.dedup.length ≠ order.length ∨
      ¬(order ⊆ audioFileIds files bookId ∧ audioFileIds files bookId ⊆ order)) := by
  have distinct : (audioFileIds files bookId).Nodup := ids.sublist (List.filter_sublist.map _)
  have once : order.dedup.length = order.length ↔ order.Nodup := by
    constructor
    · intro sameLength
      rw [← List.dedup_eq_self]
      exact (List.dedup_sublist order).eq_of_length sameLength
    · exact fun nodup => by rw [nodup.dedup]
  rw [not_or, not_not, not_not, once]
  constructor
  · intro perm
    exact ⟨perm.nodup_iff.mpr distinct, perm.subset, perm.symm.subset⟩
  · intro ⟨nodup, left, right⟩
    exact (List.perm_ext_iff_of_nodup nodup distinct).mpr fun id =>
      ⟨fun member => left member, fun member => right member⟩

theorem mem_audio_file_ids (ids : (files.map (·.id)).Nodup) {file : FileRow}
    (member : file ∈ files) : file.id ∈ audioFileIds files bookId ↔ isAudioOf bookId file := by
  unfold audioFileIds
  rw [List.mem_map]
  constructor
  · intro ⟨other, otherMem, same⟩
    obtain ⟨inFiles, isAudio⟩ := List.mem_filter.mp otherMem
    rw [← List.inj_on_of_nodup_map ids inFiles member same]
    exact isAudio
  · intro isAudio
    exact ⟨file, List.mem_filter.mpr ⟨member, isAudio⟩, rfl⟩

/-- A statement whose new keys are apart from the rows' and from each other goes through. -/
theorem execute_runs (visit : Visit) {selects : FileRow → Bool} {write : FileRow → FileRow}
    (ids : (files.map (·.id)).Nodup) (keepsId : ∀ file, (write file).id = file.id)
    (apart : ∀ file ∈ files, selects file → ∀ other ∈ files, other.id ≠ file.id →
      other.slotKey ≠ (write file).slotKey ∧
        (selects other → (write other).slotKey ≠ (write file).slotKey)) :
    execute visit selects write files =
      (files.map fun file => if selects file then write file else file, .ok ()) := by
  have selected (file : FileRow) (member : file ∈ files) :
      file.id ∈ (files.filter selects).map (·.id) ↔ selects file = true := by
    rw [List.mem_map]
    constructor
    · intro ⟨other, otherMem, same⟩
      obtain ⟨inFiles, isSelected⟩ := List.mem_filter.mp otherMem
      rw [← List.inj_on_of_nodup_map ids inFiles member same]
      exact isSelected
    · intro isSelected
      exact ⟨file, List.mem_filter.mpr ⟨member, isSelected⟩, rfl⟩
  unfold execute
  rw [statement_runs keepsId (ids.sublist (List.filter_sublist.map _)) selected apart visit]

/-- The row after the first phase has come past the files in `done`. -/
def parkedIn (done : List Int) (file : FileRow) : FileRow :=
  if file.id ∈ done then setOrdinal (-(done.idxOf file.id) - 1) file else file

def placedIn (order : List Int) (file : FileRow) : FileRow :=
  if file.id ∈ order then setOrdinal (order.idxOf file.id) file else file

@[simp] theorem parkedIn_id (done : List Int) (file : FileRow) :
    (parkedIn done file).id = file.id := by
  unfold parkedIn
  split <;> rfl

@[simp] theorem parkedIn_bookId (done : List Int) (file : FileRow) :
    (parkedIn done file).bookId = file.bookId := by
  unfold parkedIn
  split <;> rfl

@[simp] theorem parkedIn_format (done : List Int) (file : FileRow) :
    (parkedIn done file).format = file.format := by
  unfold parkedIn
  split <;> rfl

theorem parked_ids (done : List Int) (files : List FileRow) :
    (files.map (parkedIn done)).map (·.id) = files.map (·.id) := by
  simp [Function.comp_def]

theorem parked_above (done : List Int) {file : FileRow} (nonneg : 0 ≤ file.ordinal) :
    -(done.length : Int) ≤ (parkedIn done file).ordinal := by
  unfold parkedIn
  by_cases isDone : file.id ∈ done
  · have := List.idxOf_lt_length_of_mem isDone
    rw [if_pos isDone, setOrdinal]
    dsimp only
    omega
  · rw [if_neg isDone]
    omega

theorem park_next {done : List Int} {id : Int} (fresh : id ∉ done) (file : FileRow) :
    parkedIn (done ++ [id]) file =
      if file.id = id then setOrdinal (-done.length - 1) (parkedIn done file)
      else parkedIn done file := by
  unfold parkedIn
  by_cases isNext : file.id = id
  · subst isNext
    simp [fresh, List.idxOf_append_of_notMem]
  · by_cases isDone : file.id ∈ done
    · simp [isNext, isDone, List.idxOf_append_of_mem]
    · simp [isNext, isDone]

theorem park_runs (visit : Visit) (ids : (files.map (·.id)).Nodup)
    (ordinals : ∀ file ∈ files, 0 ≤ file.ordinal) (done rest : List Int)
    (distinct : (done ++ rest).Nodup)
    (inBook : ∀ file ∈ files, file.id ∈ rest → file.bookId = bookId) :
    parkOrdinals visit bookId done.length rest (files.map (parkedIn done)) =
      (files.map (parkedIn (done ++ rest)), .ok ()) := by
  induction rest generalizing done with
  | nil => rw [parkOrdinals, List.append_nil]
  | cons id rest induction =>
      have fresh : id ∉ done := fun member =>
        (List.nodup_append.mp distinct).2.2 id member id List.mem_cons_self rfl
      have stepped : execute visit (fun file => file.id = id && file.bookId = bookId)
          (setOrdinal (-done.length - 1)) (files.map (parkedIn done)) =
          (files.map (parkedIn (done ++ [id])), .ok ()) := by
        have keepsId (file : FileRow) : (setOrdinal (-done.length - 1) file).id = file.id := rfl
        rw [execute_runs visit (by rw [parked_ids]; exact ids) keepsId, List.map_map]
        · apply congrArg (·, Except.ok ())
          apply List.map_congr_left
          intro file member
          rw [Function.comp_apply, park_next fresh]
          by_cases isNext : file.id = id
          · have isBook := inBook file member (isNext ▸ List.mem_cons_self)
            simp [isNext, isBook]
          · simp [isNext]
        · intro file _ isSelected other otherMem isOther
          have isRow : file.id = id := by
            simp only [Bool.and_eq_true, decide_eq_true_eq] at isSelected
            exact isSelected.1
          constructor
          · -- the other's ordinal is above the one that is parked
            obtain ⟨before, beforeMem, rfl⟩ := List.mem_map.mp otherMem
            have above := parked_above done (ordinals before beforeMem)
            intro same
            have : (parkedIn done before).ordinal = -done.length - 1 :=
              congrArg (fun key => key.2.2) same
            omega
          · intro otherSelected
            simp only [Bool.and_eq_true, decide_eq_true_eq] at otherSelected
            exact absurd (otherSelected.1.trans isRow.symm) isOther
      rw [parkOrdinals, stepped]
      have later := induction (done ++ [id]) (by rwa [← List.append_cons]) fun file member inRest =>
        inBook file member (List.mem_cons_of_mem _ inRest)
      rw [List.length_append, List.length_singleton, ← List.append_cons] at later
      exact later

theorem isAudioOf_congr {file other : FileRow} (sameBook : file.bookId = other.bookId)
    (sameFormat' : nocase file.format = nocase other.format) :
    isAudioOf bookId file = isAudioOf bookId other := by
  unfold isAudioOf sameFormat
  rw [sameBook, sameFormat']

@[simp] theorem isAudioOf_parked (done : List Int) (file : FileRow) :
    isAudioOf bookId (parkedIn done file) = isAudioOf bookId file :=
  isAudioOf_congr (parkedIn_bookId done file) (by rw [parkedIn_format])

theorem parked_ordinal {file : FileRow} (member : file.id ∈ order) :
    (parkedIn order file).ordinal = -(order.idxOf file.id) - 1 := by
  rw [parkedIn, if_pos member, setOrdinal]

theorem turn_runs (visit : Visit) (ids : (files.map (·.id)).Nodup)
    (listed : ∀ file ∈ files, file.id ∈ order ↔ isAudioOf bookId file) :
    execute visit (fun file => isAudioOf bookId file && file.ordinal < 0)
        (fun file => setOrdinal (-file.ordinal - 1) file) (files.map (parkedIn order)) =
      (files.map (placedIn order), .ok ()) := by
  have keepsId (file : FileRow) : (setOrdinal (-file.ordinal - 1) file).id = file.id := rfl
  rw [execute_runs visit (by rw [parked_ids]; exact ids) keepsId, List.map_map]
  · apply congrArg (·, Except.ok ())
    apply List.map_congr_left
    intro file member
    rw [Function.comp_apply]
    by_cases isAudio : file.id ∈ order
    · have parked := parked_ordinal isAudio
      have selected : (isAudioOf bookId (parkedIn order file) &&
          decide ((parkedIn order file).ordinal < 0)) = true := by
        rw [isAudioOf_parked, (listed file member).mp isAudio, parked]
        simp only [Bool.true_and, decide_eq_true_eq]
        omega
      rw [if_pos selected, parked, placedIn, if_pos isAudio, parkedIn, if_pos isAudio]
      have turned : -(-(order.idxOf file.id : Int) - 1) - 1 = order.idxOf file.id := by omega
      rw [turned]
      rfl
    · have others : isAudioOf bookId file = false :=
        Bool.eq_false_iff.mpr fun isAudioFile => isAudio ((listed file member).mpr isAudioFile)
      simp [placedIn, parkedIn, isAudio, others]
  · intro file fileMem isSelected other otherMem isOther
    obtain ⟨first, firstMem, rfl⟩ := List.mem_map.mp fileMem
    obtain ⟨second, secondMem, rfl⟩ := List.mem_map.mp otherMem
    simp only [isAudioOf_parked, Bool.and_eq_true, decide_eq_true_eq] at isSelected
    have firstListed := (listed first firstMem).mpr isSelected.1
    have firstOrdinal := parked_ordinal firstListed
    constructor
    · -- a row of the same book and format is parked as well
      intro same
      have sameBook : second.bookId = first.bookId := by
        simpa [FileRow.slotKey, setOrdinal] using congrArg (fun key => key.1) same
      have sameFormat' : nocase second.format = nocase first.format := by
        simpa [FileRow.slotKey, setOrdinal] using congrArg (fun key => key.2.1) same
      have sameOrdinal : (parkedIn order second).ordinal = -(parkedIn order first).ordinal - 1 :=
        congrArg (fun key => key.2.2) same
      have secondListed := (listed second secondMem).mpr
        ((isAudioOf_congr sameBook sameFormat').trans isSelected.1)
      have secondOrdinal := parked_ordinal secondListed
      omega
    · intro otherSelected same
      simp only [isAudioOf_parked, Bool.and_eq_true, decide_eq_true_eq] at otherSelected
      have secondListed := (listed second secondMem).mpr otherSelected.1
      have secondOrdinal := parked_ordinal secondListed
      have sameOrdinal : -(parkedIn order second).ordinal - 1 =
          -(parkedIn order first).ordinal - 1 := congrArg (fun key => key.2.2) same
      have samePlace : order.idxOf second.id = order.idxOf first.id := by omega
      have sameId := (List.idxOf_inj secondListed).mp samePlace
      simp [sameId] at isOther

/-- A list that is no permutation of the book's audio files is refused before anything is written.
Any other goes through row by row, whatever order the rows are visited in, and leaves every file
at its place. -/
theorem audio_order_written (visit : Visit) (files : List FileRow)
    (ids : (files.map (·.id)).Nodup) (ordinals : ∀ file ∈ files, 0 ≤ file.ordinal) (bookId : Int)
    (order : List Int) :
    (¬order.Perm (audioFileIds files bookId) ∧
      applyAudioOrderTx visit bookId order files = (files, .error .audioSetMismatch)) ∨
    (order.Perm (audioFileIds files bookId) ∧
      ∃ written, applyAudioOrderTx visit bookId order files = (written, .ok ()) ∧
        written = files.map (placedIn order) ∧
        ∀ file ∈ written, ∀ place : Nat, order[place]? = some file.id → file.ordinal = place) := by
  unfold applyAudioOrderTx
  by_cases perm : order.Perm (audioFileIds files bookId)
  · right
    have distinct : (audioFileIds files bookId).Nodup := ids.sublist (List.filter_sublist.map _)
    have nodup := perm.nodup_iff.mpr distinct
    have listed (file : FileRow) (member : file ∈ files) :
        file.id ∈ order ↔ isAudioOf bookId file = true :=
      perm.mem_iff.trans (mem_audio_file_ids ids member)
    have inBook (file : FileRow) (member : file ∈ files) (isAudio : file.id ∈ order) :
        file.bookId = bookId := by
      have := (listed file member).mp isAudio
      simp only [isAudioOf, Bool.and_eq_true, decide_eq_true_eq] at this
      exact this.1
    have unparked : files.map (parkedIn []) = files := by
      have same : parkedIn [] = id := funext fun _ => if_neg List.not_mem_nil
      rw [same, List.map_id]
    have parked := park_runs visit ids ordinals [] order nodup inBook
    rw [unparked, List.nil_append, List.length_nil] at parked
    refine ⟨perm, files.map (placedIn order), ?_, rfl, ?_⟩
    · rw [if_neg ((order_perm_iff ids).mp perm), parked]
      exact turn_runs visit ids listed
    · intro file member place atPlace
      obtain ⟨before, _, rfl⟩ := List.mem_map.mp member
      have sameId : (placedIn order before).id = before.id := by
        unfold placedIn
        split <;> rfl
      rw [sameId] at atPlace
      have isListed := List.mem_of_getElem? atPlace
      obtain ⟨within, isAt⟩ := List.getElem?_eq_some_iff.mp atPlace
      have placed := nodup.idxOf_getElem place within
      rw [isAt] at placed
      rw [placedIn, if_pos isListed, setOrdinal]
      exact congrArg Int.ofNat placed
  · left
    refine ⟨perm, ?_⟩
    rw [if_pos (not_not.mp fun fits => perm ((order_perm_iff ids).mpr fits))]

def partFiles : List FileRow :=
  [⟨1, 7, "M4B", "a", 0, 0, none, none, none, 0, none⟩,
    ⟨2, 7, "m4b", "b", 0, 0, none, none, none, 1, none⟩,
    ⟨3, 7, "MP3", "c", 0, 0, none, none, none, 0, none⟩,
    ⟨4, 7, "EPUB", "d", 0, 0, none, none, none, 0, none⟩]

theorem audio_order_written_parts :
    applyAudioOrderTx ⟨fun _ ids => ids, fun _ ids => List.Perm.refl ids⟩ 7 [3, 2, 1] partFiles =
      (partFiles.map (placedIn [3, 2, 1]), .ok ()) := by
  rcases audio_order_written ⟨fun _ ids => ids, fun _ ids => List.Perm.refl ids⟩ partFiles
      (by decide) (by decide) 7 [3, 2, 1] with refused | ordered
  · exact absurd (by decide) refused.1
  · obtain ⟨written, wrote, isWritten, _⟩ := ordered.2
    rw [wrote, isWritten]

end Ordered

end Omnibus.CrossFormat
