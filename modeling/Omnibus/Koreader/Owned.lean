import Mathlib.Data.Set.Function
import Omnibus.Koreader.Delivery
import Omnibus.Library.Runs

/-!
# The paths the plugin owns

A delivered path ends in the book's id and extension, and neither holds a space or a dot, so that
the id is read back from the path: two books never share one.
-/

namespace Omnibus.Koreader

open Omnibus.Library.Strings

theorem word_bytes_clear (wanted : Char → Bool) (text : Text) (char : Char)
    (unwanted : wanted char = false) (apart : char ≠ '_') : char ∉ wordBytes wanted text := by
  intro member
  obtain ⟨source, -, present⟩ := List.mem_flatMap.mp member
  split at present
  · rename_i known
    rw [List.mem_singleton.mp present, known] at unwanted
    cases unwanted
  · exact apart (List.eq_of_mem_replicate present)

theorem book_id_clear (uuid : Text) (char : Char)
    (unwanted : (char.isAlphanum || char == '-') = false) (apart : char ≠ '_') :
    char ∉ bookId uuid :=
  fun member => word_bytes_clear _ uuid char unwanted apart (List.mem_of_mem_take member)

/-- The path is the folder's name for some version of the book. -/
def Named (dir uuid path : Text) : Prop :=
  ∃ book : Book, book.uuid = uuid ∧ path = dir ++ ['/'] ++ fileName book

theorem named_file_name (dir : Text) (book : Book) :
    Named dir book.uuid (dir ++ ['/'] ++ fileName book) := ⟨book, rfl, rfl⟩

/-- The id in a file name: what stands between its last space and its last dot. -/
def readId (path : Text) : Text :=
  (((path.reverse.dropWhile (· ≠ '.')).drop 1).takeWhile (· ≠ ' ')).reverse

theorem file_name_reverse (dir : Text) (book : Book) :
    ∃ before, (dir ++ ['/'] ++ fileName book).reverse =
      (extension book).reverse ++ '.' :: ((bookId book.uuid).reverse ++ ' ' :: before) := by
  refine ⟨(dir ++ ['/'] ++ shownTitle book.title ++ " -".toList).reverse, ?_⟩
  simp [fileName]

theorem read_id_named (dir uuid path : Text) (named : Named dir uuid path) :
    readId path = bookId uuid := by
  obtain ⟨book, rfl, rfl⟩ := named
  obtain ⟨before, reversed⟩ := file_name_reverse dir book
  have dotless : ∀ char ∈ (extension book).reverse, decide (char ≠ '.') = true := by
    intro char member
    apply decide_eq_true
    intro same
    exact word_bytes_clear Char.isAlphanum book.format '.' (by decide) (by decide)
      (same ▸ List.mem_reverse.mp member)
  have spaceless : ∀ char ∈ (bookId book.uuid).reverse, decide (char ≠ ' ') = true := by
    intro char member
    apply decide_eq_true
    intro same
    exact book_id_clear book.uuid ' ' (by decide) (by decide) (same ▸ List.mem_reverse.mp member)
  rw [readId, reversed, List.dropWhile_append_of_pos dotless, List.dropWhile_cons_of_neg (by simp),
    List.drop_one, List.tail_cons, List.takeWhile_append_of_pos spaceless,
    List.takeWhile_cons_of_neg (by simp), List.append_nil, List.reverse_reverse]

theorem path_extension_named (dir : Text) (book : Book) (served : book.format ≠ []) :
    pathExtension (dir ++ ['/'] ++ fileName book) = some (extension book) := by
  obtain ⟨before, reversed⟩ := file_name_reverse dir book
  have plain : ∀ char ∈ (extension book).reverse, decide (char ≠ '.' ∧ char ≠ '/') = true := by
    intro char member
    refine decide_eq_true ⟨fun same => ?_, fun same => ?_⟩
    · exact word_bytes_clear Char.isAlphanum book.format '.' (by decide) (by decide)
        (same ▸ List.mem_reverse.mp member)
    · exact word_bytes_clear Char.isAlphanum book.format '/' (by decide) (by decide)
        (same ▸ List.mem_reverse.mp member)
  have tail : ((dir ++ ['/'] ++ fileName book).reverse.takeWhile
      fun char => decide (char ≠ '.' ∧ char ≠ '/')) = (extension book).reverse := by
    rw [reversed, List.takeWhile_append_of_pos plain, List.takeWhile_cons_of_neg (by simp),
      List.append_nil]
  have some' : (extension book).reverse ≠ [] := by
    intro empty
    obtain ⟨first, rest, shape⟩ := List.exists_cons_of_ne_nil served
    have none' := List.flatMap_eq_nil_iff.mp (List.reverse_eq_nil_iff.mp empty) first
      (shape ▸ List.mem_cons_self)
    split at none'
    · cases none'
    · exact Nat.ne_of_gt (Char.utf8Size_pos first) (by simpa using none')
  have drops : (dir ++ ['/'] ++ fileName book).reverse.drop (extension book).reverse.length =
      '.' :: ((bookId book.uuid).reverse ++ ' ' :: before) := by
    rw [reversed, List.drop_left]
  obtain ⟨first, rest, shape⟩ := List.exists_cons_of_ne_nil some'
  rw [pathExtension, tail, drops, shape]
  exact congrArg some (by rw [← shape, List.reverse_reverse])

/-- What the plugin owns: paths it named for a known book, in its manifest after a delivery, and
of which alone it removes any. `base` is what had been delivered when a run began. -/
structure Owned (dir : Text) (known : Set Text) (base : List (Text × Text)) (desk : Desk) :
    Prop where
  manifest : ∀ uuid path, desk.manifest.lookup uuid = some path →
    uuid ∈ known ∧ Named dir uuid path ∧ (uuid, path) ∈ desk.delivered
  files : ∀ uuid kept, desk.files.lookup uuid = some kept → Named dir uuid kept.path
  fetches : ∀ uuid path, (uuid, path) ∈ desk.fetches → uuid ∈ known ∧ Named dir uuid path
  delivered : desk.delivered ⊆ desk.fetches
  removals : ∀ removal ∈ desk.removals, inside dir removal.1 = true ∧
    ∃ uuid, (uuid, removal.1) ∈ removal.2
  grown : base ⊆ desk.delivered

section Steps

variable (dir : Text) (known : Set Text) (base : List (Text × Text)) (deps : RunDeps)

theorem fetch_owned (desk : Desk) (book : Book) (target : Text) (etag : Option Text)
    (member : book.uuid ∈ known) (named : Named dir book.uuid target)
    (owned : Owned dir known base desk) :
    Owned dir known base (desk.fetch deps book target etag) := by
  have asked : ∀ uuid path, (uuid, path) ∈ desk.fetches ++ [(book.uuid, target)] →
      uuid ∈ known ∧ Named dir uuid path := by
    intro uuid path present
    obtain earlier | here := List.mem_append.mp present
    · exact owned.fetches uuid path earlier
    · obtain ⟨rfl, rfl⟩ := Prod.mk.inj (List.mem_singleton.mp here)
      exact ⟨member, named⟩
  rw [Desk.fetch]
  split
  · have more : desk.delivered ⊆ desk.delivered ++ [(book.uuid, target)] :=
      List.subset_append_left _ _
    refine ⟨?_, owned.files, asked, ?_, owned.removals, fun _ present => more (owned.grown present)⟩
    · intro uuid path found
      obtain ⟨inSet, own, had⟩ := owned.manifest uuid path found
      exact ⟨inSet, own, more had⟩
    · exact List.append_subset.mpr ⟨fun _ present => List.mem_append_left _
        (owned.delivered present), List.subset_append_right _ _⟩
  · exact ⟨owned.manifest, owned.files, asked,
      fun _ present => List.mem_append_left _ (owned.delivered present), owned.removals,
      owned.grown⟩

theorem discard_owned (desk : Desk) (uuid path : Text) (within : inside dir path = true)
    (had : (uuid, path) ∈ desk.delivered) (owned : Owned dir known base desk) :
    Owned dir known base (desk.discard deps path) := by
  refine ⟨owned.manifest, owned.files, owned.fetches, owned.delivered, ?_, owned.grown⟩
  intro gone member
  obtain earlier | here := List.mem_append.mp member
  · exact owned.removals gone earlier
  · rw [List.mem_singleton.mp here]
    exact ⟨within, uuid, had⟩

theorem erase_owned (desk : Desk) (uuid : Text) (owned : Owned dir known base desk) :
    Owned dir known base { desk with manifest := desk.manifest.erase uuid } := by
  refine ⟨?_, owned.files, owned.fetches, owned.delivered, owned.removals, owned.grown⟩
  intro other path found
  by_cases same : other = uuid
  · rw [same, AList.lookup_erase] at found
    cases found
  · exact owned.manifest other path ((AList.lookup_erase_ne same).symm.trans found)

theorem insert_owned (desk : Desk) (uuid path : Text) (member : uuid ∈ known)
    (named : Named dir uuid path) (had : (uuid, path) ∈ desk.delivered)
    (owned : Owned dir known base desk) :
    Owned dir known base { desk with manifest := desk.manifest.insert uuid path } := by
  refine ⟨?_, owned.files, owned.fetches, owned.delivered, owned.removals, owned.grown⟩
  intro other place found
  by_cases same : other = uuid
  · rw [same, AList.lookup_insert, Option.some.injEq] at found
    rw [same, ← found]
    exact ⟨member, named, had⟩
  · exact owned.manifest other place ((AList.lookup_insert_ne same).symm.trans found)

theorem keep_owned (turn : Turn) (uuid : Text) (kept : Kept) (named : Named dir uuid kept.path)
    (owned : Owned dir known base turn.desk) : Owned dir known base (keep turn uuid kept).desk := by
  refine ⟨owned.manifest, ?_, owned.fetches, owned.delivered, owned.removals, owned.grown⟩
  intro other found present
  by_cases same : other = uuid
  · rw [same] at present
    have here := (AList.lookup_insert turn.desk.files).symm.trans present
    rw [same, ← Option.some.inj here]
    exact named
  · exact owned.files other found ((AList.lookup_insert_ne same).symm.trans present)

theorem delete_book_owned (turn : Turn) (entry : Text × Text)
    (within : inside dir entry.2 = true) (had : entry ∈ base)
    (owned : Owned dir known base turn.desk) :
    Owned dir known base (deleteBook deps turn entry).desk := by
  have discarded := discard_owned dir known base deps turn.desk entry.1 entry.2 within
    (owned.grown had) owned
  rw [deleteBook]
  split
  · exact erase_owned dir known base _ entry.1 discarded
  · exact discarded

theorem delivery_path_named (desk : Desk) (book : Book) (owned : Owned dir known base desk) :
    Named dir book.uuid (deliveryPath dir desk book) := by
  rw [deliveryPath]
  split
  · exact named_file_name dir book
  · rename_i kept found
    split
    · exact owned.files book.uuid kept found
    · exact named_file_name dir book

theorem fetch_delivers (desk : Desk) (book : Book) (target : Text) (etag : Option Text)
    (found : Option Text) (published : deps.download book target etag = .published found) :
    (book.uuid, target) ∈ (desk.fetch deps book target etag).delivered := by
  simp [Desk.fetch, published]

theorem download_book_owned (turn : Turn) (book : Book) (place : deps.dir = dir)
    (member : book.uuid ∈ known) (owned : Owned dir known base turn.desk) :
    Owned dir known base (downloadBook deps turn book).desk := by
  subst place
  have named := delivery_path_named deps.dir known base turn.desk book owned
  have asked := fetch_owned deps.dir known base deps turn.desk book _ none member named owned
  rw [downloadBook]
  split
  · exact asked
  · rename_i etag published
    have had := fetch_delivers deps turn.desk book _ none etag published
    exact keep_owned deps.dir known base
      ⟨{ turn.desk.fetch deps book (deliveryPath deps.dir turn.desk book) none with
          manifest := (turn.desk.fetch deps book _ none).manifest.insert book.uuid
            (deliveryPath deps.dir turn.desk book) }, turn.tally⟩
      book.uuid _ named (insert_owned deps.dir known base _ book.uuid _ member named had asked)
  · rename_i unmodified
    exact absurd unmodified (deps.unconditional book _)

structure Deliverable (book : Book) (path : Text) : Prop where
  member : book.uuid ∈ known
  named : Named dir book.uuid path
  within : inside dir path = true
  had : (book.uuid, path) ∈ base

theorem replace_file_owned (turn : Turn) (book : Book) (path : Text) (kept : Kept)
    (place : deps.dir = dir) (item : Deliverable dir known base book path)
    (keptNamed : Named dir book.uuid kept.path) (owned : Owned dir known base turn.desk) :
    Owned dir known base (replaceFile deps turn book path kept).1.desk ∧
      ∀ keeps target, (replaceFile deps turn book path kept).2 = .ok (keeps, target) →
        Named dir book.uuid keeps.path := by
  subst place
  obtain ⟨member, named, within, had⟩ := item
  rw [replaceFile]
  cases changed : (pathExtension path != some (extension book)) with
  | false =>
      have asked := fetch_owned deps.dir known base deps turn.desk book path kept.etag member named
        owned
      simp only [Bool.false_eq_true, if_false]
      split
      · exact ⟨asked, by simp⟩
      · refine ⟨asked, fun keeps target same => ?_⟩
        obtain ⟨rfl, rfl⟩ := Prod.mk.inj (Except.ok.inj same)
        exact keptNamed
      · refine ⟨asked, fun keeps target same => ?_⟩
        obtain ⟨rfl, rfl⟩ := Prod.mk.inj (Except.ok.inj same)
        exact keptNamed
  | true =>
      have target := named_file_name deps.dir book
      have asked := fetch_owned deps.dir known base deps turn.desk book _ none member target owned
      simp only [if_true]
      split
      · exact ⟨asked, by simp⟩
      · rename_i etag published
        have delivers := fetch_delivers deps turn.desk book _ none etag published
        refine ⟨?_, fun keeps target' same => ?_⟩
        · exact discard_owned deps.dir known base deps _ book.uuid path within (asked.grown had)
            (insert_owned deps.dir known base _ book.uuid _ member target delivers asked)
        · obtain ⟨rfl, rfl⟩ := Prod.mk.inj (Except.ok.inj same)
          exact target
      · rename_i unmodified
        exact absurd unmodified (deps.unconditional book _)

theorem refresh_metadata_owned (turn : Turn) (book : Book) (path : Text) (kept : Kept)
    (touched : Bool) (named : Named dir book.uuid kept.path)
    (owned : Owned dir known base turn.desk) :
    Owned dir known base (refreshMetadata deps turn book path kept touched).desk := by
  have keeps (kept : Kept) (named : Named dir book.uuid kept.path) :=
    keep_owned dir known base turn book.uuid kept named owned
  rw [refreshMetadata]
  split
  · split
    · exact keeps kept named
    · exact keeps _ named
  · split
    · exact keeps kept named
    · exact keeps kept named

theorem refresh_book_owned (turn : Turn) (item : Book × Text) (place : deps.dir = dir)
    (delivered : Deliverable dir known base item.1 item.2)
    (owned : Owned dir known base turn.desk) :
    Owned dir known base (refreshBook deps turn item).desk := by
  obtain ⟨book, path⟩ := item
  have keptNamed : Named dir book.uuid
      ((turn.desk.files.lookup book.uuid).getD ⟨path, none, none, none⟩).path := by
    cases found : turn.desk.files.lookup book.uuid with
    | none => exact delivered.named
    | some kept => exact owned.files book.uuid kept found
  rw [refreshBook]
  split
  · obtain ⟨replaced, keeps⟩ := replace_file_owned dir known base deps turn book path _ place
      delivered keptNamed owned
    split
    · rename_i later reason failed
      rw [failed] at replaced
      exact keep_owned dir known base later book.uuid _ keptNamed replaced
    · rename_i later kept target done
      rw [done] at replaced keeps
      exact refresh_metadata_owned dir known base deps later book target kept true
        (keeps kept target rfl) replaced
  · exact refresh_metadata_owned dir known base deps turn book path _ false keptNamed owned

theorem deletions_owned (entries : List (Text × Text)) (turn : Turn)
    (planned : ∀ entry ∈ entries, inside dir entry.2 = true ∧ entry ∈ base)
    (owned : Owned dir known base turn.desk) :
    Owned dir known base (entries.foldl (deleteBook deps) turn).desk :=
  List.foldlRecOn (motive := fun turn : Turn => Owned dir known base turn.desk) entries _ owned
    fun turn kept entry member => delete_book_owned dir known base deps turn entry
      (planned entry member).1 (planned entry member).2 kept

theorem downloads_owned (books : List Book) (turn : Turn) (place : deps.dir = dir)
    (members : ∀ book ∈ books, book.uuid ∈ known) (owned : Owned dir known base turn.desk) :
    Owned dir known base (books.foldl (downloadBook deps) turn).desk :=
  List.foldlRecOn (motive := fun turn : Turn => Owned dir known base turn.desk) books _ owned
    fun turn kept book member => download_book_owned dir known base deps turn book place
      (members book member) kept

theorem refreshes_owned (items : List (Book × Text)) (turn : Turn) (place : deps.dir = dir)
    (planned : ∀ item ∈ items, Deliverable dir known base item.1 item.2)
    (owned : Owned dir known base turn.desk) :
    Owned dir known base (items.foldl (refreshBook deps) turn).desk :=
  List.foldlRecOn (motive := fun turn : Turn => Owned dir known base turn.desk) items _ owned
    fun turn kept item member => refresh_book_owned dir known base deps turn item place
      (planned item member) kept

theorem forgets_owned (uuids : List Text) (turn : Turn) (owned : Owned dir known base turn.desk) :
    Owned dir known base (uuids.foldl forgetBook turn).desk :=
  List.foldlRecOn (motive := fun turn : Turn => Owned dir known base turn.desk) uuids _ owned
    fun turn kept uuid _ => erase_owned dir known base turn.desk uuid kept

end Steps

section Planned

variable (dir : Text) (known : Set Text) (deps : RunDeps) (books : List Book) (desk : Desk)

theorem planned_delete (owned : Owned dir known desk.delivered desk) (place : deps.dir = dir)
    (entry : Text × Text)
    (planned : entry ∈ (plan desk.manifest books deps.dir desk.disk deps.openPath).delete) :
    desk.manifest.lookup entry.1 = some entry.2 ∧ (∀ book ∈ books, book.uuid ≠ entry.1) ∧
      inside dir entry.2 = true ∧ entry ∈ desk.delivered ∧ some entry.2 ≠ deps.openPath := by
  obtain ⟨source, present, rfl⟩ := List.mem_map.mp planned
  obtain ⟨unwanted, chosen⟩ := List.mem_filter.mp present
  obtain ⟨listed, stranger⟩ := List.mem_filter.mp unwanted
  have found : desk.manifest.lookup source.1 = some source.2 := AList.mem_lookup_iff.mpr listed
  rw [Bool.and_eq_true, decide_eq_true_eq] at chosen
  refine ⟨found, fun book member same => ?_, place ▸ chosen.1,
    (owned.manifest source.1 source.2 found).2.2, chosen.2⟩
  simp only [Bool.not_eq_true', List.any_eq_false, decide_eq_true_eq] at stranger
  exact stranger book member same

theorem planned_refresh (owned : Owned dir known desk.delivered desk) (place : deps.dir = dir)
    (item : Book × Text)
    (planned : item ∈
      refreshPlan desk.manifest desk.files books deps.dir desk.disk deps.openPath) :
    item.1 ∈ books ∧ desk.manifest.lookup item.1.uuid = some item.2 ∧ item.2 ∈ desk.disk ∧
      Deliverable dir known desk.delivered item.1 item.2 := by
  obtain ⟨book, listed, chosen⟩ := List.mem_filterMap.mp planned
  obtain ⟨path, found, eligible⟩ := Option.bind_eq_some_iff.mp chosen
  simp only [Option.ite_none_right_eq_some, Option.some.injEq] at eligible
  obtain ⟨⟨within, -, present, -⟩, rfl⟩ := eligible
  obtain ⟨member, named, had⟩ := owned.manifest book.uuid path found
  exact ⟨listed, found, present, member, named, place ▸ within, had⟩

theorem carry_out_owned (place : deps.dir = dir) (members : ∀ book ∈ books, book.uuid ∈ known)
    (owned : Owned dir known desk.delivered desk) :
    Owned dir known desk.delivered (carryOut deps books desk).desk := by
  refine refreshes_owned dir known _ deps _ _ place ?_ ?_
  · exact fun item planned => (planned_refresh dir known deps books desk owned place item planned).2.2.2
  refine downloads_owned dir known _ deps _ _ place ?_ ?_
  · exact fun book planned => members book (List.mem_of_mem_filter planned)
  refine deletions_owned dir known _ deps _ _ ?_ ?_
  · intro entry planned
    obtain ⟨-, -, within, had, -⟩ := planned_delete dir known deps books desk owned place entry planned
    exact ⟨within, had⟩
  exact forgets_owned dir known _ _ _ owned

end Planned

end Omnibus.Koreader
