import Mathlib.Data.List.Nodup
import Mathlib.Data.List.Count
import Omnibus.Scan.Ordinals

/-!
# Where a merge places the moved files

The shifted ordinals tell moved files from the target's own as long as each reaches
`ORDINAL_OFFSET`. Then no statement is refused, and the moved files of each format follow the
target's in the order they had.
-/

namespace Omnibus.Scan

variable {files : List FileRow} {source : Book} {target base : Int} {sourceTitle : String}

section Batches

/-- The files of one format when a batch has come to `base`: those numbered are below it, those
that wait are beyond a chunk. -/
structure Waiting (files : List FileRow) (target : Int) (format : String) (ids : List Int)
    (base : Int) : Prop where
  numbered : ∀ file ∈ files, file.bookId = target → nocase file.format = nocase format →
    file.id ∉ ids → file.ordinal < base
  waiting : ∀ file ∈ files, ∀ index, ids.findIdx? (· = file.id) = some index →
    file.bookId = target ∧ nocase file.format = nocase format ∧
      base + 999 + index ≤ file.ordinal

theorem find_index_of_mem {ids : List Int} {id : Int} (member : id ∈ ids) :
    ∃ index, ids.findIdx? (· = id) = some index := by
  cases found : ids.findIdx? (· = id) with
  | none =>
      have absent := List.findIdx?_eq_none_iff.mp found id member
      exact absurd rfl (of_decide_eq_false absent)
  | some index => exact ⟨index, rfl⟩

theorem find_index_get {ids : List Int} {id : Int} {index : Nat}
    (found : ids.findIdx? (· = id) = some index) : ids[index]? = some id := by
  obtain ⟨bounded, isOne, _⟩ := List.findIdx?_eq_some_iff_getElem.mp found
  rw [List.getElem?_eq_getElem bounded, of_decide_eq_true isOne]

theorem find_index_take {ids : List Int} {id : Int} {index : Nat}
    (found : (ids.take ordinalChunk).findIdx? (· = id) = some index) :
    ids.findIdx? (· = id) = some index ∧ index < ordinalChunk := by
  obtain ⟨bounded, _⟩ := List.findIdx?_eq_some_iff_getElem.mp found
  rw [List.length_take] at bounded
  refine ⟨?_, by omega⟩
  conv_lhs => rw [← List.take_append_drop ordinalChunk ids]
  rw [List.findIdx?_append, found]
  rfl

theorem find_index_drop {ids : List Int} {id : Int} {index : Nat} (distinct : ids.Nodup)
    (found : (ids.drop ordinalChunk).findIdx? (· = id) = some index) :
    id ∉ ids.take ordinalChunk ∧ ids.findIdx? (· = id) = some (index + ordinalChunk) := by
  have inDrop := mem_of_find_index found
  rw [← List.take_append_drop ordinalChunk ids] at distinct
  have absent : id ∉ ids.take ordinalChunk := fun inTake =>
    (List.nodup_append.mp distinct).2.2 id inTake id inDrop rfl
  have notFound : (ids.take ordinalChunk).findIdx? (· = id) = none := by
    rw [List.findIdx?_eq_none_iff]
    intro other member
    rw [decide_eq_false_iff_not]
    intro equal
    subst equal
    exact absent member
  refine ⟨absent, ?_⟩
  conv_lhs => rw [← List.take_append_drop ordinalChunk ids]
  rw [List.findIdx?_append, notFound, Option.none_or, found, Option.map_some,
    full_chunk (List.ne_nil_of_mem inDrop)]

theorem assign_chunk_some {ids : List Int} {file : FileRow} {index : Nat}
    (found : ids.findIdx? (· = file.id) = some index) :
    assignChunk ids base sourceTitle file =
      { file with ordinal := base + index, label := some (file.label.getD sourceTitle) } := by
  unfold assignChunk
  rw [found]

variable {format : String} {ids : List Int}

theorem Waiting.apart (waiting : Waiting files target format ids base) {file other : FileRow}
    (member : file ∈ files) (inChunk : file.id ∈ ids.take ordinalChunk)
    (otherMem : other ∈ files) (isOther : other.id ≠ file.id) :
    other.slotKey ≠ (assignChunk (ids.take ordinalChunk) base sourceTitle file).slotKey ∧
      (other.id ∈ ids.take ordinalChunk →
        (assignChunk (ids.take ordinalChunk) base sourceTitle other).slotKey ≠
          (assignChunk (ids.take ordinalChunk) base sourceTitle file).slotKey) := by
  obtain ⟨index, found⟩ := find_index_of_mem inChunk
  obtain ⟨inIds, bounded⟩ := find_index_take found
  obtain ⟨isTarget, isFormat, _⟩ := waiting.waiting file member index inIds
  rw [assign_chunk_some found]
  simp only [FileRow.slotKey, ne_eq, Prod.mk.injEq, not_and]
  constructor
  · intro sameBook sameFormat sameOrdinal
    by_cases waits : other.id ∈ ids
    · obtain ⟨otherIndex, otherFound⟩ := find_index_of_mem waits
      have late := (waiting.waiting other otherMem otherIndex otherFound).2.2
      unfold ordinalChunk at bounded
      omega
    · have early := waiting.numbered other otherMem (sameBook.trans isTarget)
        (sameFormat.trans isFormat) waits
      omega
  · intro otherIn _ _ sameOrdinal
    obtain ⟨otherIndex, otherFound⟩ := find_index_of_mem otherIn
    rw [assign_chunk_some otherFound] at sameOrdinal
    have sameIndex : otherIndex = index := by
      dsimp only at sameOrdinal
      omega
    have sameId := find_index_get otherFound
    rw [sameIndex, find_index_get found] at sameId
    exact isOther (Option.some.inj sameId).symm

theorem Waiting.next (waiting : Waiting files target format ids base) (distinct : ids.Nodup) :
    Waiting (files.map (assignChunk (ids.take ordinalChunk) base sourceTitle)) target format
      (ids.drop ordinalChunk) (base + ordinalChunk) := by
  constructor
  · intro after afterMem isTarget isFormat absent
    obtain ⟨file, member, rfl⟩ := List.mem_map.mp afterMem
    rw [assign_chunk_id] at absent
    by_cases inChunk : file.id ∈ ids.take ordinalChunk
    · obtain ⟨index, found⟩ := find_index_of_mem inChunk
      have bounded := (find_index_take found).2
      rw [assign_chunk_some found]
      dsimp only
      omega
    · rw [assign_chunk_of_not_mem inChunk] at isTarget isFormat ⊢
      have outside : file.id ∉ ids := by
        rw [← List.take_append_drop ordinalChunk ids, List.mem_append]
        exact not_or.mpr ⟨inChunk, absent⟩
      have below := waiting.numbered file member isTarget isFormat outside
      unfold ordinalChunk
      omega
  · intro after afterMem index found
    obtain ⟨file, member, rfl⟩ := List.mem_map.mp afterMem
    rw [assign_chunk_id] at found
    obtain ⟨absent, inIds⟩ := find_index_drop distinct found
    rw [assign_chunk_of_not_mem absent]
    obtain ⟨isTarget, isFormat, late⟩ := waiting.waiting file member _ inIds
    refine ⟨isTarget, isFormat, ?_⟩
    omega

theorem batch_by_runs (visit : Visit) (sourceTitle : String) (files : List FileRow)
    (ids : List Int) (base : Int) (distinct : ids.Nodup)
    (waiting : Waiting files target format ids base) :
    batchAssignBy visit sourceTitle files ids base =
      some (files.map (assignChunk ids base sourceTitle)) := by
  have runs : ∃ final, batchAssignBy visit sourceTitle files ids base = some final := by
    fun_induction batchAssignBy visit sourceTitle files ids base with
    | case1 files base => exact ⟨_, rfl⟩
    | case2 files ids base _ chunk induction =>
        have ran := statement_runs (assign_chunk_id chunk base sourceTitle)
          (distinct.sublist (List.take_sublist _ _)) (fun _ _ => Iff.rfl)
          (fun file member inChunk other otherMem isOther =>
            waiting.apart member inChunk otherMem isOther) visit
        rw [ran, Option.bind_some]
        apply induction _ (distinct.sublist (List.drop_sublist _ _))
        have written := chunk_result (distinct.sublist (List.take_sublist _ _)) ran
        rw [written]
        exact waiting.next distinct
  obtain ⟨final, ran⟩ := runs
  rw [ran, batch_by_result ids distinct ran]

end Batches

section Formats

theorem filter_map_eq_self {write : FileRow → FileRow} {kept : FileRow → Bool}
    (same : ∀ file ∈ files, kept (write file) = kept file)
    (fixed : ∀ file ∈ files, kept file = true → write file = file) :
    (files.map write).filter kept = files.filter kept := by
  have filtered : files.filter (kept ∘ write) = files.filter kept :=
    List.filter_congr fun file member => same file member
  rw [List.filter_map, filtered]
  conv_rhs => rw [← List.map_id (files.filter kept)]
  apply List.map_congr_left
  intro file member
  exact fixed file (List.mem_filter.mp member).1 (List.mem_filter.mp member).2

def IsMoved (target : Int) (file : FileRow) : Prop :=
  file.bookId = target ∧ ordinalOffset ≤ file.ordinal

instance (file : FileRow) : Decidable (IsMoved target file) :=
  inferInstanceAs (Decidable (_ ∧ _))

/-- The place of a moved file among those of its format. -/
def placeMoved (files : List FileRow) (target : Int) (sourceTitle : String) (file : FileRow) :
    FileRow :=
  assignChunk (movedIds files target file.format) (maxExisting files target file.format + 1)
    sourceTitle file

def placedFor (files : List FileRow) (target : Int) (sourceTitle : String) (done : List String)
    (file : FileRow) : FileRow :=
  if IsMoved target file ∧ done.any (sameFormat file.format) = true then
    placeMoved files target sourceTitle file
  else file

theorem moved_ids_congr {format other : String} (same : nocase format = nocase other) :
    movedIds files target format = movedIds files target other := by
  unfold movedIds sameFormat
  rw [same]

theorem max_existing_congr {format other : String} (same : nocase format = nocase other) :
    maxExisting files target format = maxExisting files target other := by
  unfold maxExisting sameFormat
  rw [same]

theorem mem_moved_ids {format : String} {id : Int} :
    id ∈ movedIds files target format ↔ ∃ file ∈ files, IsMoved target file ∧
      nocase file.format = nocase format ∧ file.id = id := by
  unfold movedIds
  simp only [List.mem_map, List.mem_insertionSort, List.mem_filter, Bool.and_eq_true,
    decide_eq_true_eq, sameFormat]
  constructor
  · intro ⟨file, ⟨member, ⟨isTarget, isFormat⟩, isMoved⟩, equal⟩
    subst equal
    exact ⟨file, member, ⟨isTarget, isMoved⟩, isFormat, rfl⟩
  · intro ⟨file, member, ⟨isTarget, isMoved⟩, isFormat, equal⟩
    subst equal
    exact ⟨file, ⟨member, ⟨isTarget, isFormat⟩, isMoved⟩, rfl⟩

theorem moved_ids_nodup (distinct : (files.map (·.id)).Nodup) (target : Int) (format : String) :
    (movedIds files target format).Nodup := by
  unfold movedIds
  rw [((List.perm_insertionSort _ _).map _).nodup_iff]
  exact distinct.sublist (List.filter_sublist.map _)

theorem placed_for_fields (files : List FileRow) (target : Int) (sourceTitle : String)
    (done : List String) (file : FileRow) :
    (placedFor files target sourceTitle done file).id = file.id ∧
      (placedFor files target sourceTitle done file).bookId = file.bookId ∧
        (placedFor files target sourceTitle done file).format = file.format := by
  unfold placedFor placeMoved assignChunk
  split
  · split
    · exact ⟨rfl, rfl, rfl⟩
    · exact ⟨rfl, rfl, rfl⟩
  · exact ⟨rfl, rfl, rfl⟩

theorem placed_for_other (files : List FileRow) (target : Int) (sourceTitle : String)
    {done : List String} {format : String}
    (later : ∀ other ∈ done, nocase other ≠ nocase format) {file : FileRow}
    (isFormat : nocase file.format = nocase format) :
    placedFor files target sourceTitle done file = file := by
  unfold placedFor
  rw [if_neg]
  intro ⟨_, isDone⟩
  obtain ⟨other, member, same⟩ := List.any_eq_true.mp isDone
  exact later other member ((of_decide_eq_true same).symm.trans isFormat)

theorem filter_placed_for {done : List String} {format : String}
    (later : ∀ other ∈ done, nocase other ≠ nocase format) {kept : FileRow → Bool}
    (ofFormat : ∀ file, nocase file.format ≠ nocase format → kept file = false) :
    (files.map (placedFor files target sourceTitle done)).filter kept = files.filter kept := by
  have same (file : FileRow) (isFormat : nocase file.format = nocase format) :=
    placed_for_other files target sourceTitle later isFormat
  apply filter_map_eq_self
  · intro file _
    by_cases isFormat : nocase file.format = nocase format
    · rw [same file isFormat]
    · rw [ofFormat file isFormat, ofFormat]
      rw [(placed_for_fields files target sourceTitle done file).2.2]
      exact isFormat
  · intro file _ isKept
    apply same
    by_contra other
    rw [ofFormat file other] at isKept
    exact Bool.false_ne_true isKept

theorem moved_ids_placed_for {done : List String} {format : String}
    (later : ∀ other ∈ done, nocase other ≠ nocase format) :
    movedIds (files.map (placedFor files target sourceTitle done)) target format =
      movedIds files target format := by
  unfold movedIds
  rw [filter_placed_for later]
  intro file other
  simp [sameFormat, other]

theorem max_existing_placed_for {done : List String} {format : String}
    (later : ∀ other ∈ done, nocase other ≠ nocase format) :
    maxExisting (files.map (placedFor files target sourceTitle done)) target format =
      maxExisting files target format := by
  unfold maxExisting
  rw [filter_placed_for later]
  intro file other
  simp [sameFormat, other]

theorem place_format (target : Int) (sourceTitle : String)
    (distinct : (files.map (·.id)).Nodup) {done : List String} {format : String}
    (later : ∀ other ∈ done, nocase other ≠ nocase format) :
    (files.map (placedFor files target sourceTitle done)).map
        (assignChunk (movedIds files target format) (maxExisting files target format + 1)
          sourceTitle) =
      files.map (placedFor files target sourceTitle (done ++ [format])) := by
  rw [List.map_map]
  apply List.map_congr_left
  intro file member
  rw [Function.comp_apply]
  by_cases isNow : IsMoved target file ∧ nocase file.format = nocase format
  · rw [placed_for_other files target sourceTitle later isNow.2, placedFor, if_pos, placeMoved,
      moved_ids_congr isNow.2, max_existing_congr isNow.2]
    refine ⟨isNow.1, List.any_eq_true.mpr ⟨format, ?_, decide_eq_true isNow.2⟩⟩
    exact List.mem_append_right _ List.mem_cons_self
  · have absent : (placedFor files target sourceTitle done file).id ∉
        movedIds files target format := by
      rw [(placed_for_fields files target sourceTitle done file).1, mem_moved_ids]
      intro ⟨other, otherMem, isMoved, isFormat, same⟩
      rw [List.inj_on_of_nodup_map distinct otherMem member same] at isMoved isFormat
      exact isNow ⟨isMoved, isFormat⟩
    rw [assign_chunk_of_not_mem absent]
    unfold placedFor
    congr 1
    rw [List.any_append, List.any_cons, List.any_nil, Bool.or_false]
    apply propext
    apply and_congr_right
    intro isMoved
    have other : sameFormat file.format format = false :=
      decide_eq_false fun same => isNow ⟨isMoved, same⟩
    rw [other, Bool.or_false]

theorem formats_later {done rest : List String} {format : String}
    (apart : (done ++ format :: rest).Pairwise fun left right => nocase left ≠ nocase right) :
    ∀ other ∈ done, nocase other ≠ nocase format := fun other member =>
  (List.pairwise_append.mp apart).2.2 other member format List.mem_cons_self

theorem assign_formats (target : Int) (sourceTitle : String)
    (distinct : (files.map (·.id)).Nodup) (done rest : List String)
    (apart : (done ++ rest).Pairwise fun left right => nocase left ≠ nocase right) :
    rest.foldl (assignFormatOrdinals target sourceTitle)
        (files.map (placedFor files target sourceTitle done)) =
      files.map (placedFor files target sourceTitle (done ++ rest)) := by
  induction rest generalizing done with
  | nil =>
      rw [List.append_nil]
      rfl
  | cons format rest induction =>
      have later := formats_later apart
      rw [List.foldl_cons, assignFormatOrdinals, moved_ids_placed_for later,
        max_existing_placed_for later]
      have placed := place_format target sourceTitle distinct later
      rw [List.append_cons done format rest] at apart ⊢
      rw [← induction (done ++ [format]) apart, ← placed]
      rfl

theorem formats_with_moves_apart (files : List FileRow) (target : Int) :
    (formatsWithMoves files target).Pairwise fun left right => nocase left ≠ nocase right := by
  refine (List.pairwise_pwFilter _).imp fun {left right} apart => ?_
  simpa [sameFormat] using apart

theorem any_formats_with_moves {file : FileRow} (member : file ∈ files)
    (isMoved : IsMoved target file) :
    (formatsWithMoves files target).any (sameFormat file.format) = true := by
  by_contra absent
  have none : ∀ other ∈ formatsWithMoves files target,
      (!sameFormat file.format other) = true := by
    intro other otherMem
    rw [Bool.not_eq_true', Bool.eq_false_iff]
    intro same
    exact absent (List.any_eq_true.mpr ⟨other, otherMem, same⟩)
  have transitive (first second third : String) (apart : (!sameFormat first third) = true) :
      (!sameFormat first second) = true ∨ (!sameFormat second third) = true := by
    simp only [sameFormat, Bool.not_eq_true', decide_eq_false_iff_not] at apart ⊢
    by_contra both
    rw [not_or, not_not, not_not] at both
    exact apart (both.1.trans both.2)
  have own := (List.forall_mem_pwFilter (fun {first second third} =>
    transitive first second third) file.format _).mp none file.format
      (List.mem_map_of_mem (List.mem_filter.mpr ⟨member, by simp [isMoved.1, isMoved.2]⟩))
  simp [sameFormat] at own

theorem assign_ordinals_eq (distinct : (files.map (·.id)).Nodup) (target : Int)
    (sourceTitle : String) : assignOrdinalsAfterMove files target sourceTitle =
      files.map fun file =>
        if IsMoved target file then placeMoved files target sourceTitle file else file := by
  have start : files.map (placedFor files target sourceTitle []) = files := by
    conv_rhs => rw [← List.map_id files]
    apply List.map_congr_left
    intro file _
    unfold placedFor
    rw [List.any_nil, if_neg fun both => Bool.false_ne_true both.2]
    rfl
  have looped := assign_formats target sourceTitle distinct []
    (formatsWithMoves files target) (formats_with_moves_apart files target)
  rw [start, List.nil_append] at looped
  unfold assignOrdinalsAfterMove
  rw [looped]
  apply List.map_congr_left
  intro file member
  unfold placedFor
  by_cases isMoved : IsMoved target file
  · rw [if_pos ⟨isMoved, any_formats_with_moves member isMoved⟩, if_pos isMoved]
  · rw [if_neg fun both => isMoved both.1, if_neg isMoved]

end Formats

end Omnibus.Scan
