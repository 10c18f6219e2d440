import Omnibus.Koreader.Owned

/-!
# The folder after a run

What a run leaves when nothing in it failed: the manifest names the server's books, and each has its
file in the format the server serves, unless replacing was refused or the document is open.
-/

namespace Omnibus.Koreader

open Omnibus.Library.Strings Omnibus.Library.Runs

def HasFile (desk : Desk) (uuid path : Text) : Prop :=
  desk.manifest.lookup uuid = some path ∧ path ∈ desk.disk

structure Clean (tally : Tally) : Prop where
  downloads : tally.downloadFailures = []
  removes : tally.removeFailures = []
  updates : tally.updateFailures = []

/-- What is done for other books leaves a book's manifest entry and its files. -/
structure Spares (dir uuid : Text) (before after : Desk) : Prop where
  manifest : after.manifest.lookup uuid = before.manifest.lookup uuid
  disk : ∀ path, Named dir uuid path → path ∈ before.disk → path ∈ after.disk

theorem Spares.refl (dir uuid : Text) (desk : Desk) : Spares dir uuid desk desk :=
  ⟨rfl, fun _ _ present => present⟩

theorem Spares.trans {dir uuid : Text} {first middle last : Desk}
    (earlier : Spares dir uuid first middle) (later : Spares dir uuid middle last) :
    Spares dir uuid first last :=
  ⟨later.manifest.trans earlier.manifest,
    fun path named present => later.disk path named (earlier.disk path named present)⟩

theorem HasFile.spared {dir uuid path : Text} {before after : Desk}
    (spares : Spares dir uuid before after) (named : Named dir uuid path)
    (has : HasFile before uuid path) : HasFile after uuid path :=
  ⟨spares.manifest.trans has.1, spares.disk path named has.2⟩

theorem fold_spares {Key : Type} (dir uuid : Text) (work : Turn → Key → Turn) (keys : List Key)
    (turn : Turn)
    (spares : ∀ key ∈ keys, ∀ turn : Turn, Spares dir uuid turn.desk (work turn key).desk) :
    Spares dir uuid turn.desk (keys.foldl work turn).desk :=
  List.foldlRecOn (motive := fun later : Turn => Spares dir uuid turn.desk later.desk) keys work
    (Spares.refl dir uuid turn.desk) fun later kept key member =>
      kept.trans (spares key member later)

theorem fold_clean {Key : Type} (work : Turn → Key → Turn) (keys : List Key) (turn : Turn)
    (clean : ∀ turn key, Clean (work turn key).tally → Clean turn.tally)
    (ended : Clean (keys.foldl work turn).tally) : Clean turn.tally := by
  induction keys generalizing turn with
  | nil => exact ended
  | cons key rest induction => exact clean turn key (induction _ ended)

section Steps

variable (dir uuid : Text) (deps : RunDeps)

theorem fetch_spares (desk : Desk) (book : Book) (target : Text) (etag : Option Text) :
    Spares dir uuid desk (desk.fetch deps book target etag) := by
  rw [Desk.fetch]
  split
  · exact ⟨rfl, fun _ _ present => List.mem_cons_of_mem _ present⟩
  · exact ⟨rfl, fun _ _ present => present⟩

theorem named_apart (other first second : Text) (apart : bookId uuid ≠ bookId other)
    (own : Named dir uuid first) (foreign : Named dir other second) : first ≠ second := by
  intro equal
  subst equal
  exact apart ((read_id_named dir uuid first own).symm.trans (read_id_named dir other first foreign))

theorem discard_spares (desk : Desk) (other path : Text) (apart : bookId uuid ≠ bookId other)
    (foreign : Named dir other path) : Spares dir uuid desk (desk.discard deps path) := by
  refine ⟨rfl, fun place own present => ?_⟩
  rw [Desk.discard]
  dsimp only
  split
  · exact List.mem_filter.mpr ⟨present,
      decide_eq_true (named_apart dir uuid other place path apart own foreign)⟩
  · exact present

theorem erase_spares (desk : Desk) (other : Text) (apart : uuid ≠ other) :
    Spares dir uuid desk { desk with manifest := desk.manifest.erase other } :=
  ⟨AList.lookup_erase_ne apart, fun _ _ present => present⟩

theorem insert_spares (desk : Desk) (other path : Text) (apart : uuid ≠ other) :
    Spares dir uuid desk { desk with manifest := desk.manifest.insert other path } :=
  ⟨AList.lookup_insert_ne apart, fun _ _ present => present⟩

theorem delete_book_spares (turn : Turn) (entry : Text × Text)
    (apart : bookId uuid ≠ bookId entry.1) (foreign : Named dir entry.1 entry.2) :
    Spares dir uuid turn.desk (deleteBook deps turn entry).desk := by
  have discarded := discard_spares dir uuid deps turn.desk entry.1 entry.2 apart foreign
  rw [deleteBook]
  split
  · exact discarded.trans (erase_spares dir uuid _ entry.1 fun same => apart (same ▸ rfl))
  · exact discarded

theorem download_book_spares (turn : Turn) (book : Book) (apart : uuid ≠ book.uuid) :
    Spares dir uuid turn.desk (downloadBook deps turn book).desk := by
  have asked := fetch_spares dir uuid deps turn.desk book (deliveryPath deps.dir turn.desk book) none
  have inserted := asked.trans
    (insert_spares dir uuid _ book.uuid (deliveryPath deps.dir turn.desk book) apart)
  rw [downloadBook]
  split
  · exact asked
  · exact ⟨inserted.manifest, inserted.disk⟩
  · exact ⟨inserted.manifest, inserted.disk⟩

theorem replace_file_spares (turn : Turn) (book : Book) (path : Text) (kept : Kept)
    (apart : bookId uuid ≠ bookId book.uuid) (foreign : Named dir book.uuid path) :
    Spares dir uuid turn.desk (replaceFile deps turn book path kept).1.desk := by
  have other : uuid ≠ book.uuid := fun same => apart (same ▸ rfl)
  rw [replaceFile]
  cases pathExtension path != some (extension book) with
  | false =>
      have asked := fetch_spares dir uuid deps turn.desk book path kept.etag
      simp only [Bool.false_eq_true, if_false]
      split <;> exact asked
  | true =>
      have asked := fetch_spares dir uuid deps turn.desk book
        (deps.dir ++ ['/'] ++ fileName book) none
      have switched := (asked.trans (insert_spares dir uuid _ book.uuid
        (deps.dir ++ ['/'] ++ fileName book) other)).trans
          (discard_spares dir uuid deps _ book.uuid path apart foreign)
      simp only [if_true]
      split
      · exact asked
      · exact switched
      · exact switched

theorem refresh_metadata_spares (turn : Turn) (book : Book) (path : Text) (kept : Kept)
    (touched : Bool) :
    Spares dir uuid turn.desk (refreshMetadata deps turn book path kept touched).desk := by
  rw [refreshMetadata]
  split
  · split <;> exact ⟨rfl, fun _ _ present => present⟩
  · split <;> exact ⟨rfl, fun _ _ present => present⟩

theorem refresh_book_spares (turn : Turn) (item : Book × Text)
    (apart : bookId uuid ≠ bookId item.1.uuid) (foreign : Named dir item.1.uuid item.2) :
    Spares dir uuid turn.desk (refreshBook deps turn item).desk := by
  obtain ⟨book, path⟩ := item
  rw [refreshBook]
  split
  · have replaced := replace_file_spares dir uuid deps turn book path
      ((turn.desk.files.lookup book.uuid).getD ⟨path, none, none, none⟩) apart foreign
    split
    · rename_i later reason failed
      rw [failed] at replaced
      exact ⟨replaced.manifest, replaced.disk⟩
    · rename_i later kept target done
      rw [done] at replaced
      exact replaced.trans (refresh_metadata_spares dir uuid deps later book target kept true)
  · exact refresh_metadata_spares dir uuid deps turn book path _ false

end Steps

section Success

variable (deps : RunDeps)

theorem fetch_publishes (desk : Desk) (book : Book) (target : Text) (etag found : Option Text)
    (published : deps.download book target etag = .published found) :
    target ∈ (desk.fetch deps book target etag).disk := by
  simp [Desk.fetch, published]

theorem delete_book_clean (turn : Turn) (entry : Text × Text)
    (clean : Clean (deleteBook deps turn entry).tally) :
    Clean turn.tally ∧ deps.remove entry.2 = none := by
  rw [deleteBook] at clean
  split at clean
  · rename_i removed
    exact ⟨⟨clean.downloads, clean.removes, clean.updates⟩, removed⟩
  · exact absurd clean.removes (by simp)

theorem download_book_clean (turn : Turn) (book : Book)
    (clean : Clean (downloadBook deps turn book).tally) :
    Clean turn.tally ∧
      ∃ etag, deps.download book (deliveryPath deps.dir turn.desk book) none = .published etag := by
  rw [downloadBook] at clean
  split at clean
  · exact absurd clean.downloads (by simp)
  · rename_i etag published
    exact ⟨⟨clean.downloads, clean.removes, (List.append_eq_nil_iff.mp clean.updates).1⟩, etag,
      published⟩
  · rename_i unmodified
    exact absurd unmodified (deps.unconditional book _)

theorem refresh_metadata_clean (turn : Turn) (book : Book) (path : Text) (kept : Kept)
    (touched : Bool) (clean : Clean (refreshMetadata deps turn book path kept touched).tally) :
    Clean turn.tally := by
  rw [refreshMetadata] at clean
  split at clean
  · split at clean
    · exact absurd clean.updates (by simp [failUpdate])
    · exact ⟨clean.downloads, clean.removes, clean.updates⟩
  · split at clean <;> exact ⟨clean.downloads, clean.removes, clean.updates⟩

theorem replace_file_clean (turn : Turn) (book : Book) (path : Text) (kept : Kept)
    (clean : Clean (replaceFile deps turn book path kept).1.tally) : Clean turn.tally := by
  rw [replaceFile] at clean
  cases changed : (pathExtension path != some (extension book)) with
  | false =>
      simp only [changed, Bool.false_eq_true, if_false] at clean
      split at clean <;> exact ⟨clean.downloads, clean.removes, clean.updates⟩
  | true =>
      simp only [changed, if_true] at clean
      split at clean
      · exact ⟨clean.downloads, clean.removes, clean.updates⟩
      · exact ⟨clean.downloads, (List.append_eq_nil_iff.mp clean.removes).1, clean.updates⟩
      · exact ⟨clean.downloads, (List.append_eq_nil_iff.mp clean.removes).1, clean.updates⟩

theorem refresh_book_clean (turn : Turn) (item : Book × Text)
    (clean : Clean (refreshBook deps turn item).tally) : Clean turn.tally := by
  obtain ⟨book, path⟩ := item
  rw [refreshBook] at clean
  split at clean
  · split at clean
    · exact absurd clean.updates (by simp [failUpdate])
    · rename_i later kept target done
      have replaced := refresh_metadata_clean deps later book target kept true clean
      refine replace_file_clean deps turn book path
        ((turn.desk.files.lookup book.uuid).getD ⟨path, none, none, none⟩) ?_
      rw [done]
      exact replaced
  · exact refresh_metadata_clean deps turn book path _ false clean

theorem refresh_metadata_has (turn : Turn) (book : Book) (path : Text) (kept : Kept)
    (touched : Bool) (target : Text) (has : HasFile turn.desk book.uuid target) :
    HasFile (refreshMetadata deps turn book path kept touched).desk book.uuid target := by
  rw [refreshMetadata]
  split
  · split <;> exact has
  · split <;> exact has

/-- The book has its file, as the server serves it, or where it may not be replaced. -/
def Served (desk : Desk) (book : Book) : Prop :=
  ∃ path, Named deps.dir book.uuid path ∧ HasFile desk book.uuid path ∧
    (pathExtension path = some (extension book) ∨ deps.canReplace path = false ∨
      deps.openPath = some path)

theorem download_book_served (known : Set Text) (base : List (Text × Text)) (turn : Turn)
    (book : Book) (served : book.format ≠ []) (owned : Owned deps.dir known base turn.desk)
    (clean : Clean (downloadBook deps turn book).tally) :
    Served deps (downloadBook deps turn book).desk book := by
  obtain ⟨-, etag, published⟩ := download_book_clean deps turn book clean
  refine ⟨deliveryPath deps.dir turn.desk book,
    delivery_path_named deps.dir known base turn.desk book owned, ?_, Or.inl ?_⟩
  · simp only [downloadBook, published]
    exact ⟨AList.lookup_insert _, fetch_publishes deps turn.desk book _ none etag published⟩
  · rw [deliveryPath]
    split
    · exact path_extension_named deps.dir book served
    · split
      · rename_i eligible
        exact eligible.2.2
      · exact path_extension_named deps.dir book served

/-- A replacement that failed in nothing leaves the book's file in the served format. -/
theorem replace_file_served (turn later : Turn) (book : Book) (path target : Text)
    (kept keeps : Kept) (served : book.format ≠ [])
    (named : Named deps.dir book.uuid path) (has : HasFile turn.desk book.uuid path)
    (done : replaceFile deps turn book path kept = (later, .ok (keeps, target)))
    (clean : Clean later.tally) :
    Named deps.dir book.uuid target ∧ HasFile later.desk book.uuid target ∧
      pathExtension target = some (extension book) := by
  rw [replaceFile] at done
  cases changed : (pathExtension path != some (extension book)) with
  | false =>
      have same : pathExtension path = some (extension book) := by simpa using changed
      simp only [changed, Bool.false_eq_true, if_false] at done
      have asked : HasFile (turn.desk.fetch deps book path kept.etag) book.uuid path :=
        ⟨(fetch_spares deps.dir book.uuid deps turn.desk book path kept.etag).manifest.trans has.1,
          (fetch_spares deps.dir book.uuid deps turn.desk book path kept.etag).disk path named has.2⟩
      split at done
      · cases done
      · cases done
        exact ⟨named, asked, same⟩
      · cases done
        exact ⟨named, asked, same⟩
  | true =>
      have other : pathExtension path ≠ some (extension book) := by simpa using changed
      simp only [changed, if_true] at done
      split at done
      · cases done
      · rename_i etag published
        cases done
        have fits := path_extension_named deps.dir book served
        have removed : deps.remove path = none := by
          have none' := (List.append_eq_nil_iff.mp clean.removes).2
          simpa using none'
        refine ⟨named_file_name deps.dir book, ⟨AList.lookup_insert _, ?_⟩, fits⟩
        simp only [switchFormat, Desk.discard, removed, if_true]
        refine List.mem_filter.mpr
          ⟨fetch_publishes deps turn.desk book _ none etag published, decide_eq_true ?_⟩
        intro same
        exact other (same ▸ fits)
      · rename_i unmodified
        exact absurd unmodified (deps.unconditional book _)

theorem refresh_book_served (turn : Turn) (book : Book) (path : Text)
    (served : book.format ≠ []) (named : Named deps.dir book.uuid path)
    (has : HasFile turn.desk book.uuid path)
    (clean : Clean (refreshBook deps turn (book, path)).tally) :
    Served deps (refreshBook deps turn (book, path)).desk book := by
  rw [refreshBook] at clean ⊢
  split at clean
  · rename_i replaces
    rw [if_pos replaces]
    split at clean
    · exact absurd clean.updates (by simp [failUpdate])
    · rename_i later kept target done
      have replaced := refresh_metadata_clean deps later book target kept true clean
      obtain ⟨own, stands, fits⟩ := replace_file_served deps turn later book path target _ kept
        served named has done replaced
      exact ⟨target, own, refresh_metadata_has deps later book target kept true target stands,
        Or.inl fits⟩
  · rename_i stays
    rw [if_neg stays]
    refine ⟨path, named, refresh_metadata_has deps turn book path _ false path has, ?_⟩
    cases changed : (pathExtension path != some (extension book)) with
    | false => exact Or.inl (by simpa using changed)
    | true =>
        refine Or.inr (Or.inl (Bool.eq_false_iff.mpr fun may => stays ⟨Or.inl ?_, may⟩))
        exact changed

end Success

section Carried

variable (deps : RunDeps)

theorem forgets_lookup (uuids : List Text) (turn : Turn) (uuid : Text) :
    (uuids.foldl forgetBook turn).desk.manifest.lookup uuid =
      if uuid ∈ uuids then none else turn.desk.manifest.lookup uuid := by
  induction uuids generalizing turn with
  | nil => simp
  | cons first rest induction =>
      rw [List.foldl_cons, induction]
      by_cases later : uuid ∈ rest
      · simp [later]
      · by_cases same : uuid = first
        · subst same
          simp [later, forgetBook, AList.lookup_erase]
        · simp [later, same, forgetBook, AList.lookup_erase_ne same]

theorem deletes_clean (entries : List (Text × Text)) (turn : Turn)
    (clean : Clean (entries.foldl (deleteBook deps) turn).tally) : Clean turn.tally :=
  fold_clean (deleteBook deps) entries turn (fun turn entry clean =>
    (delete_book_clean deps turn entry clean).1) clean

theorem deletes_lookup (entries : List (Text × Text)) (turn : Turn) (uuid : Text)
    (clean : Clean (entries.foldl (deleteBook deps) turn).tally) :
    (entries.foldl (deleteBook deps) turn).desk.manifest.lookup uuid =
      if ∃ entry ∈ entries, entry.1 = uuid then none else turn.desk.manifest.lookup uuid := by
  induction entries generalizing turn with
  | nil => simp
  | cons first rest induction =>
      obtain ⟨-, removed⟩ :=
        delete_book_clean deps turn first (deletes_clean deps rest _ clean)
      have erased : (deleteBook deps turn first).desk.manifest =
          turn.desk.manifest.erase first.1 := by
        rw [deleteBook, removed]
        rfl
      rw [List.foldl_cons, induction _ clean, erased]
      by_cases later : ∃ entry ∈ rest, entry.1 = uuid
      · rw [if_pos later, if_pos]
        obtain ⟨entry, member, same⟩ := later
        exact ⟨entry, List.mem_cons_of_mem _ member, same⟩
      · rw [if_neg later]
        by_cases same : first.1 = uuid
        · rw [if_pos ⟨first, List.mem_cons_self, same⟩, same, AList.lookup_erase]
        · rw [if_neg, AList.lookup_erase_ne (Ne.symm same)]
          rintro ⟨entry, member, own⟩
          obtain rfl | earlier := List.mem_cons.mp member
          · exact same own
          · exact later ⟨entry, earlier, own⟩

variable (known : Set Text) (books : List Book) (desk : Desk)

/-- The turns of one run: after the forgotten and deleted entries, the downloads, the refreshes. -/
theorem carry_out_clean (clean : Clean (carryOut deps books desk).tally) :
    let plan := plan desk.manifest books deps.dir desk.disk deps.openPath
    let deleted := plan.delete.foldl (deleteBook deps) (plan.forget.foldl forgetBook ⟨desk, emptyTally⟩)
    Clean deleted.tally ∧ Clean (plan.download.foldl (downloadBook deps) deleted).tally := by
  intro plan deleted
  have downloaded : Clean (plan.download.foldl (downloadBook deps) deleted).tally :=
    fold_clean (refreshBook deps) _ _ (refresh_book_clean deps) clean
  exact ⟨fold_clean (downloadBook deps) _ _ (fun turn book clean =>
    (download_book_clean deps turn book clean).1) downloaded, downloaded⟩

theorem refresh_plan_books :
    ((refreshPlan desk.manifest desk.files books deps.dir desk.disk deps.openPath).map
      (·.1)).Sublist books := by
  rw [refreshPlan]
  induction books with
  | nil => exact List.Sublist.slnil
  | cons book rest induction =>
      rw [List.filterMap_cons]
      split
      · exact induction.cons book
      · rename_i item chosen
        obtain ⟨path, -, eligible⟩ := Option.bind_eq_some_iff.mp chosen
        simp only [Option.ite_none_right_eq_some, Option.some.injEq] at eligible
        obtain ⟨-, rfl⟩ := eligible
        exact induction.cons_cons book

theorem others_apart {Key : Type} (key : Key → Text) (before after : List Key) (middle : Key)
    (distinct : ((before ++ middle :: after).map key).Nodup) :
    ∀ other ∈ before ++ after, key middle ≠ key other := by
  rw [List.map_append, List.map_cons, List.nodup_middle, ← List.map_append] at distinct
  have apart := (List.nodup_cons.mp distinct).1
  exact fun other member same => apart (same ▸ List.mem_map_of_mem member)

theorem downloads_spare (dir uuid : Text) (list : List Book)
    (others : ∀ book ∈ list, uuid ≠ book.uuid) (turn : Turn) :
    Spares dir uuid turn.desk (list.foldl (downloadBook deps) turn).desk :=
  fold_spares dir uuid (downloadBook deps) list turn fun book member turn =>
    download_book_spares dir uuid deps turn book (others book member)

/-- A run over known books, one entry each, whose formats have a name, from tables the plugin owns. -/
structure RunOver : Prop where
  injective : Set.InjOn bookId known
  members : ∀ book ∈ books, book.uuid ∈ known
  distinct : (books.map (·.uuid)).Nodup
  formats : ∀ book ∈ books, book.format ≠ []
  owned : Owned deps.dir known desk.delivered desk

variable (ready : RunOver deps known books desk)

include ready

theorem refreshes_spare (uuid : Text) (inSet : uuid ∈ known) (items : List (Book × Text))
    (planned : items ⊆ refreshPlan desk.manifest desk.files books deps.dir desk.disk deps.openPath)
    (others : ∀ item ∈ items, uuid ≠ item.1.uuid) (turn : Turn) :
    Spares deps.dir uuid turn.desk (items.foldl (refreshBook deps) turn).desk := by
  apply fold_spares deps.dir uuid (refreshBook deps) items turn
  intro item member turn
  obtain ⟨listed, -, -, delivered⟩ :=
    planned_refresh deps.dir known deps books desk ready.owned rfl item (planned member)
  refine refresh_book_spares deps.dir uuid deps turn item (fun same => ?_) delivered.named
  exact others item member (ready.injective inSet (ready.members item.1 listed) same)

theorem deletes_spare (book : Book) (wanted : book ∈ books) (turn : Turn) :
    Spares deps.dir book.uuid turn.desk
      ((plan desk.manifest books deps.dir desk.disk deps.openPath).delete.foldl (deleteBook deps)
        turn).desk := by
  apply fold_spares deps.dir book.uuid (deleteBook deps) _ turn
  intro entry member turn
  obtain ⟨found, unwanted, -⟩ :=
    planned_delete deps.dir known deps books desk ready.owned rfl entry member
  obtain ⟨inSet, named, -⟩ := ready.owned.manifest entry.1 entry.2 found
  refine delete_book_spares deps.dir book.uuid deps turn entry (fun same => ?_) named
  exact unwanted book wanted (ready.injective (ready.members book wanted) inSet same)

omit ready in
theorem unwanted_forgotten (uuid path : Text) (found : desk.manifest.lookup uuid = some path)
    (unwanted : ∀ book ∈ books, book.uuid ≠ uuid) :
    uuid ∈ (plan desk.manifest books deps.dir desk.disk deps.openPath).forget ↔
      inside deps.dir path = false := by
  constructor
  · intro forgotten
    obtain ⟨book, missing, own⟩ | ⟨entry, present, own⟩ :=
      (List.mem_append.mp forgotten).imp List.mem_map.mp List.mem_map.mp
    · exact absurd own (unwanted book (List.mem_of_mem_filter (List.mem_of_mem_filter missing)))
    · obtain ⟨listed, outside⟩ := List.mem_filter.mp present
      have stored := AList.mem_lookup_iff.mpr (List.mem_of_mem_filter listed)
      rw [own, found] at stored
      rw [Option.mem_def, Option.some.injEq] at stored
      rw [stored]
      simpa using outside
  · intro outside
    refine List.mem_append_right _ (List.mem_map.mpr ⟨⟨uuid, path⟩, List.mem_filter.mpr ⟨?_, ?_⟩, rfl⟩)
    · refine List.mem_filter.mpr ⟨AList.mem_lookup_iff.mp found, ?_⟩
      simpa using unwanted
    · simpa using outside

theorem unwanted_deleted (uuid path : Text) (found : desk.manifest.lookup uuid = some path)
    (unwanted : ∀ book ∈ books, book.uuid ≠ uuid) :
    (∃ entry ∈ (plan desk.manifest books deps.dir desk.disk deps.openPath).delete,
      entry.1 = uuid) ↔ inside deps.dir path = true ∧ some path ≠ deps.openPath := by
  constructor
  · intro ⟨entry, planned, equal⟩
    subst equal
    obtain ⟨stored, -, within, -, shut⟩ :=
      planned_delete deps.dir known deps books desk ready.owned rfl entry planned
    obtain rfl := Option.some.inj (found.symm.trans stored)
    exact ⟨within, shut⟩
  · intro ⟨within, shut⟩
    refine ⟨(uuid, path), List.mem_map.mpr ⟨⟨uuid, path⟩, List.mem_filter.mpr ⟨?_, ?_⟩, rfl⟩, rfl⟩
    · refine List.mem_filter.mpr ⟨AList.mem_lookup_iff.mp found, ?_⟩
      simpa using unwanted
    · simpa using ⟨within, shut⟩

/-- An entry of the manifest for a book the server no longer has is gone, but for the open
document's. -/
theorem carry_out_unwanted (clean : Clean (carryOut deps books desk).tally) (uuid : Text)
    (unwanted : ∀ book ∈ books, book.uuid ≠ uuid) :
    (carryOut deps books desk).desk.manifest.lookup uuid =
      (desk.manifest.lookup uuid).filter fun path =>
        inside deps.dir path && decide (some path = deps.openPath) := by
  by_cases inSet : uuid ∈ known
  · obtain ⟨deleted, -⟩ := carry_out_clean deps books desk clean
    have refreshed := refreshes_spare deps known books desk ready uuid inSet _
      (List.Subset.refl _) (fun item member same => by
        obtain ⟨listed, -⟩ := planned_refresh deps.dir known deps books desk ready.owned rfl item member
        exact unwanted item.1 listed same.symm)
    have downloaded := downloads_spare deps deps.dir uuid
      (plan desk.manifest books deps.dir desk.disk deps.openPath).download
      fun book member same => unwanted book (List.mem_of_mem_filter member) same.symm
    rw [carryOut, (refreshed _).manifest, (downloaded _).manifest,
      deletes_lookup deps _ _ uuid deleted, forgets_lookup]
    cases found : desk.manifest.lookup uuid with
    | none => simp
    | some path =>
        have forgotten := unwanted_forgotten deps books desk uuid path found unwanted
        have removed := unwanted_deleted deps known books desk ready uuid path found unwanted
        simp only [forgotten, removed, Option.filter_some, Bool.and_eq_true, decide_eq_true_eq]
        by_cases within : inside deps.dir path = true <;>
          by_cases shut : some path = deps.openPath <;> simp [within, shut]
  · have before : desk.manifest.lookup uuid = none := by
      cases found : desk.manifest.lookup uuid with
      | none => rfl
      | some path => exact absurd (ready.owned.manifest uuid path found).1 inSet
    rw [before]
    cases found : (carryOut deps books desk).desk.manifest.lookup uuid with
    | none => rfl
    | some path =>
        have later := carry_out_owned deps.dir known deps books desk rfl ready.members ready.owned
        exact absurd (later.manifest uuid path found).1 inSet

theorem refreshed_apart (before after : List (Book × Text)) (item : Book × Text)
    (split : refreshPlan desk.manifest desk.files books deps.dir desk.disk deps.openPath =
      before ++ item :: after) : ∀ other ∈ before ++ after, item.1.uuid ≠ other.1.uuid := by
  apply others_apart (fun item : Book × Text => item.1.uuid) before after item
  rw [← split]
  have books' := (refresh_plan_books deps books desk).map (fun book : Book => book.uuid)
  rw [List.map_map] at books'
  exact books'.nodup ready.distinct

theorem same_book (first second : Book) (listed : first ∈ books) (also : second ∈ books)
    (same : first.uuid = second.uuid) : first = second :=
  List.inj_on_of_nodup_map ready.distinct listed also same

omit ready in
theorem Served.spared (book : Book) (before after : Desk)
    (spares : Spares deps.dir book.uuid before after) (served : Served deps before book) :
    Served deps after book := by
  obtain ⟨path, named, has, fits⟩ := served
  exact ⟨path, named, has.spared spares named, fits⟩

def deletedTurn : Turn :=
  (plan desk.manifest books deps.dir desk.disk deps.openPath).delete.foldl (deleteBook deps)
    ((plan desk.manifest books deps.dir desk.disk deps.openPath).forget.foldl forgetBook
      ⟨desk, emptyTally⟩)

theorem deleted_turn_owned :
    Owned deps.dir known desk.delivered (deletedTurn deps books desk).desk := by
  refine deletions_owned deps.dir known _ deps _ _ (fun entry planned => ?_)
    (forgets_owned deps.dir known _ _ _ ready.owned)
  obtain ⟨-, -, within, had, -⟩ :=
    planned_delete deps.dir known deps books desk ready.owned rfl entry planned
  exact ⟨within, had⟩

/-- A book whose file is missing is downloaded, and nothing later in the run concerns it. -/
theorem missing_served (clean : Clean (carryOut deps books desk).tally) (book : Book)
    (listed : book ∈ books)
    (missing : inPlace deps.dir desk.disk (desk.manifest.lookup book.uuid) = false) :
    Served deps (carryOut deps books desk).desk book := by
  have inSet := ready.members book listed
  obtain ⟨-, downloadedClean⟩ := carry_out_clean deps books desk clean
  have planned : book ∈ (plan desk.manifest books deps.dir desk.disk deps.openPath).download :=
    List.mem_filter.mpr ⟨listed, by rw [missing]; rfl⟩
  obtain ⟨before, after, split⟩ := List.append_of_mem planned
  have distinct : (((before ++ book :: after)).map fun book : Book => book.uuid).Nodup := by
    rw [← split]
    exact (List.filter_sublist.map fun book : Book => book.uuid).nodup ready.distinct
  have owned := downloads_owned deps.dir known desk.delivered deps before
    (deletedTurn deps books desk) rfl
    (fun other member => ready.members other (List.mem_of_mem_filter
      (split ▸ List.mem_append_left _ member)))
    (deleted_turn_owned deps known books desk ready)
  rw [split, List.foldl_append, List.foldl_cons] at downloadedClean
  have cleanHere := fold_clean (downloadBook deps) after _ (fun turn book clean =>
    (download_book_clean deps turn book clean).1) downloadedClean
  have served := download_book_served deps known desk.delivered _ book (ready.formats book listed)
    owned cleanHere
  have downloads := downloads_spare deps deps.dir book.uuid after
    (fun other member => others_apart (fun book : Book => book.uuid) before after book distinct other
      (List.mem_append_right _ member))
  have refreshes := refreshes_spare deps known books desk ready book.uuid inSet _
    (List.Subset.refl _) (fun item member same => by
      obtain ⟨among, found, present, delivered⟩ :=
        planned_refresh deps.dir known deps books desk ready.owned rfl item member
      have own := same_book deps known books desk ready item.1 book among listed same.symm
      rw [own] at found
      rw [found] at missing
      simp [inPlace, delivered.within, present] at missing)
  rw [carryOut, split, List.foldl_append, List.foldl_cons]
  exact Served.spared deps book _ _ (refreshes _) (Served.spared deps book _ _ (downloads _) served)

theorem in_place_kept (book : Book) (listed : book ∈ books) (path : Text)
    (found : desk.manifest.lookup book.uuid = some path) (within : inside deps.dir path = true)
    (present : path ∈ desk.disk) :
    HasFile ((plan desk.manifest books deps.dir desk.disk deps.openPath).download.foldl
      (downloadBook deps) (deletedTurn deps books desk)).desk book.uuid path := by
  obtain ⟨-, named, -⟩ := ready.owned.manifest book.uuid path found
  have stays : book.uuid ∉ (plan desk.manifest books deps.dir desk.disk deps.openPath).forget := by
    intro forgotten
    obtain ⟨other, missing, own⟩ | ⟨entry, unwanted, own⟩ :=
      (List.mem_append.mp forgotten).imp List.mem_map.mp List.mem_map.mp
    · have outside := (List.mem_filter.mp missing).2
      rw [own, found] at outside
      simp [within] at outside
    · have stranger := (List.mem_filter.mp (List.mem_of_mem_filter unwanted)).2
      simp only [Bool.not_eq_true', List.any_eq_false, decide_eq_true_eq] at stranger
      exact stranger book listed own.symm
  have forgets : Spares deps.dir book.uuid desk
      ((plan desk.manifest books deps.dir desk.disk deps.openPath).forget.foldl forgetBook
        ⟨desk, emptyTally⟩).desk :=
    fold_spares deps.dir book.uuid forgetBook _ ⟨desk, emptyTally⟩ fun uuid member turn =>
      erase_spares deps.dir book.uuid turn.desk uuid fun same => stays (same ▸ member)
  have deletes := deletes_spare deps known books desk ready book listed
    ((plan desk.manifest books deps.dir desk.disk deps.openPath).forget.foldl forgetBook
      ⟨desk, emptyTally⟩)
  have downloads := downloads_spare deps deps.dir book.uuid
    (plan desk.manifest books deps.dir desk.disk deps.openPath).download (fun other member same => by
      obtain ⟨among, missing⟩ := List.mem_filter.mp member
      rw [← same, found] at missing
      simp [inPlace, within, present] at missing) (deletedTurn deps books desk)
  exact HasFile.spared ((forgets.trans deletes).trans downloads) named ⟨found, present⟩

theorem in_place_served (clean : Clean (carryOut deps books desk).tally) (book : Book)
    (listed : book ∈ books) (path : Text)
    (found : desk.manifest.lookup book.uuid = some path) (within : inside deps.dir path = true)
    (present : path ∈ desk.disk) : Served deps (carryOut deps books desk).desk book := by
  obtain ⟨inSet, named, -⟩ := ready.owned.manifest book.uuid path found
  have has := in_place_kept deps known books desk ready book listed path found within present
  by_cases planned : (book, path) ∈
      refreshPlan desk.manifest desk.files books deps.dir desk.disk deps.openPath
  · obtain ⟨before, after, split⟩ := List.append_of_mem planned
    have apart := refreshed_apart deps known books desk ready before after (book, path) split
    have early := refreshes_spare deps known books desk ready book.uuid inSet before
      (fun _ member => split ▸ List.mem_append_left _ member)
      (fun other member => apart other (List.mem_append_left _ member))
    have late := refreshes_spare deps known books desk ready book.uuid inSet after
      (fun _ member => split ▸ List.mem_append_right _ (List.mem_cons_of_mem _ member))
      (fun other member => apart other (List.mem_append_right _ member))
    rw [carryOut, split, List.foldl_append, List.foldl_cons] at clean ⊢
    have cleanHere := fold_clean (refreshBook deps) after _ (refresh_book_clean deps) clean
    exact Served.spared deps book _ _ (late _) (refresh_book_served deps _ book path
      (ready.formats book listed) named (has.spared (early _) named) cleanHere)
  · have spared := refreshes_spare deps known books desk ready book.uuid inSet _
      (List.Subset.refl _) (fun item member same => by
        obtain ⟨among, stored, -⟩ :=
          planned_refresh deps.dir known deps books desk ready.owned rfl item member
        have own := same_book deps known books desk ready item.1 book among listed same.symm
        rw [own, found, Option.some.injEq] at stored
        exact planned (by rw [← own, stored]; exact member))
    refine ⟨path, named, has.spared (spared _) named, ?_⟩
    by_cases shut : some path = deps.openPath
    · exact Or.inr (Or.inr shut.symm)
    · left
      by_contra other
      refine planned (List.mem_filterMap.mpr ⟨book, listed, ?_⟩)
      rw [found, Option.bind_some, if_pos]
      refine ⟨within, shut, present, ?_⟩
      cases kept : desk.files.lookup book.uuid with
      | none => rfl
      | some kept => simp [behind, other]

theorem carry_out_served (clean : Clean (carryOut deps books desk).tally) (book : Book)
    (listed : book ∈ books) : Served deps (carryOut deps books desk).desk book := by
  cases place : inPlace deps.dir desk.disk (desk.manifest.lookup book.uuid) with
  | false => exact missing_served deps known books desk ready clean book listed place
  | true =>
      cases found : desk.manifest.lookup book.uuid with
      | none => simp [found, inPlace] at place
      | some path =>
          rw [found] at place
          simp only [inPlace, Option.any_some, Bool.and_eq_true, decide_eq_true_eq] at place
          exact in_place_served deps known books desk ready clean book listed path found place.1
            place.2

end Carried

theorem failure_message_none (verb : Text) (failures : List Text)
    (silent : failureMessage verb failures = none) : failures = [] := by
  by_contra some'
  rw [failureMessage, if_neg some'] at silent
  cases silent

theorem run_sync_ok (deps : RunDeps) (books : List Book) (desk : Desk)
    (fetched : fetchLibrary deps = .ok books) (ok : (runSync deps desk).ok = true) :
    (runSync deps desk).turn = carryOut deps books desk ∧
      Clean (carryOut deps books desk).tally := by
  simp only [runSync, fetched] at ok ⊢
  split at ok
  · rename_i quiet
    rw [if_pos quiet]
    simp only [List.filterMap_eq_nil_iff, List.mem_cons, List.not_mem_nil, or_false, id_eq,
      forall_eq_or_imp, forall_eq] at quiet
    exact ⟨rfl, failure_message_none _ _ quiet.1, failure_message_none _ _ quiet.2.1,
      failure_message_none _ _ quiet.2.2⟩
  · cases ok

/-- A run of the plugin, or anything else that adds files to the folder or takes them away. -/
inductive FolderAction where
  | sync (deps : RunDeps)
  | disturb (disk : List Text)

def Desk.step (desk : Desk) : FolderAction → Option Desk
  | .sync deps => some (runSync deps desk).turn.desk
  | .disturb disk => some { desk with disk }

/-- An empty manifest, beside whatever files there are. -/
def Desk.launch (disk : List Text) : Desk := ⟨∅, ∅, disk, [], [], []⟩

/-- Every run is of the one folder and ready known books. -/
def OverKnown (dir : Text) (known : Set Text) (_ : Desk) : FolderAction → Prop
  | .sync deps =>
      deps.dir = dir ∧ ∀ books, deps.library.books = some books →
        ∀ book ∈ books, book.uuid ∈ known
  | .disturb _ => True

theorem fetch_library_books (deps : RunDeps) (books : List Book)
    (fetched : fetchLibrary deps = .ok books) : deps.library.books = some books := by
  rw [fetchLibrary] at fetched
  split at fetched
  · cases fetched
  · split at fetched
    · cases fetched
    · split at fetched
      · cases fetched
      · split at fetched
        · cases fetched
        · rename_i found
          rw [found, Except.ok.inj fetched]

theorem Owned.rebase {dir : Text} {known : Set Text} {first second : List (Text × Text)}
    {desk : Desk} (grown : second ⊆ desk.delivered) (owned : Owned dir known first desk) :
    Owned dir known second desk :=
  ⟨owned.manifest, owned.files, owned.fetches, owned.delivered, owned.removals, grown⟩

theorem owned_step (dir : Text) (known : Set Text) (desk : Desk) (action : FolderAction)
    (next : Desk) (owned : Owned dir known [] desk) (ready : OverKnown dir known desk action)
    (stepped : desk.step action = some next) : Owned dir known [] next := by
  cases action with
  | disturb disk =>
      obtain rfl := Option.some.inj stepped
      exact ⟨owned.manifest, owned.files, owned.fetches, owned.delivered, owned.removals,
        List.nil_subset _⟩
  | sync deps =>
      obtain rfl := Option.some.inj stepped
      cases fetched : fetchLibrary deps with
      | error message =>
          simp only [runSync, fetched]
          exact owned
      | ok books =>
          have members := ready.2 books (fetch_library_books deps books fetched)
          have carried := carry_out_owned dir known deps books desk ready.1 members
            (owned.rebase (List.Subset.refl _))
          simp only [runSync, fetched]
          split <;> exact carried.rebase (List.nil_subset _)

/-- Over books whose ids differ in what a file name shows of them: no two ids share a path, no two
ids are ever downloaded to one path, and a removed path is inside the folder and was delivered
before. A further run in which nothing fails ends with every book the server has served, and with
no other entry but the open document's. -/
theorem deliveries_owned_and_converge (dir : Text) (known : Set Text)
    (injective : Set.InjOn bookId known) (disk : List Text) (actions : List FolderAction)
    (desk : Desk) (meets : Meets Desk.step (OverKnown dir known) (Desk.launch disk) actions)
    (ran : run Desk.step (Desk.launch disk) actions = some desk) :
    (∀ first second path, desk.manifest.lookup first = some path →
      desk.manifest.lookup second = some path → first = second) ∧
    (∀ first second path, (first, path) ∈ desk.fetches → (second, path) ∈ desk.fetches →
      first = second) ∧
    (∀ removal ∈ desk.removals, inside dir removal.1 = true ∧
      ∃ uuid, (uuid, removal.1) ∈ removal.2) ∧
    ∀ (deps : RunDeps) (books : List Book), deps.dir = dir → fetchLibrary deps = .ok books →
      (∀ book ∈ books, book.uuid ∈ known) → (books.map (·.uuid)).Nodup →
      (∀ book ∈ books, book.format ≠ []) → (runSync deps desk).ok = true →
        (∀ book ∈ books, Served deps (runSync deps desk).turn.desk book) ∧
        ∀ uuid, (∀ book ∈ books, book.uuid ≠ uuid) →
          (runSync deps desk).turn.desk.manifest.lookup uuid =
            (desk.manifest.lookup uuid).filter fun path =>
              inside dir path && decide (some path = deps.openPath) := by
  have start : Owned dir known [] (Desk.launch disk) := by
    constructor <;> simp [Desk.launch, AList.lookup_empty]
  have owned := run_keeps Desk.step (owned_step dir known) actions start meets ran
  have one : ∀ first second path, first ∈ known ∧ Named dir first path →
      second ∈ known ∧ Named dir second path → first = second := by
    intro first second path ⟨inSet, named⟩ ⟨inSet', named'⟩
    exact injective inSet inSet' ((read_id_named dir first path named).symm.trans
      (read_id_named dir second path named'))
  refine ⟨fun first second path found found' => ?_, fun first second path asked asked' => ?_,
    owned.removals, ?_⟩
  · obtain ⟨inSet, named, -⟩ := owned.manifest first path found
    obtain ⟨inSet', named', -⟩ := owned.manifest second path found'
    exact one first second path ⟨inSet, named⟩ ⟨inSet', named'⟩
  · exact one first second path (owned.fetches first path asked) (owned.fetches second path asked')
  · intro deps books equal fetched members distinct formats ok
    subst equal
    obtain ⟨same, clean⟩ := run_sync_ok deps books desk fetched ok
    have ready : RunOver deps known books desk :=
      ⟨injective, members, distinct, formats, owned.rebase (List.Subset.refl _)⟩
    rw [same]
    exact ⟨fun book listed => carry_out_served deps known books desk ready clean book listed,
      fun uuid unwanted => carry_out_unwanted deps known books desk ready clean uuid unwanted⟩

/-! ## The open document keeps its format -/

def epubBook : Book := ⟨"12345678-a".toList, "Title".toList, "epub".toList, some "1".toList⟩

def pdfBook : Book := { epubBook with format := "pdf".toList, lastModified := some "2".toList }

def willing (book : Book) (openPath : Option Text) : RunDeps where
  serverUrl := "http://server".toList
  dir := "/Omnibus".toList
  openPath
  library := ⟨some 200, some [book], []⟩
  canReplace _ := true
  download _ _ _ := .published none
  unconditional _ _ := by simp
  applyMetadata _ _ := none
  remove _ := none

def epubPath : Text := "/Omnibus/Title - 12345678.epub".toList

/-- The server changes the format of the open document: the run fails in nothing, nothing refuses
the replacement, and the delivered file keeps its format. -/
theorem open_document_keeps_format :
    ((run Desk.step (Desk.launch []) [.sync (willing epubBook none)]).map fun desk =>
      let after := runSync (willing pdfBook (some epubPath)) desk
      (after.ok, after.turn.desk.manifest.lookup epubBook.uuid)) = some (true, some epubPath) ∧
    (willing pdfBook (some epubPath)).canReplace epubPath = true ∧
    pathExtension epubPath ≠ some (extension pdfBook) := by
  decide +kernel

def otherBook : Book := { epubBook with uuid := "87654321-b".toList, title := "Other".toList }

def serving (books : List Book) : RunDeps :=
  { willing epubBook none with library := ⟨some 200, some books, []⟩ }

def twoKnown : Set Text := {epubBook.uuid, otherBook.uuid}

theorem two_known_injective : Set.InjOn bookId twoKnown := by
  have apart : bookId epubBook.uuid ≠ bookId otherBook.uuid := by decide +kernel
  rintro first (rfl | rfl) second (rfl | rfl) same
  · rfl
  · exact absurd same apart
  · exact absurd same.symm apart
  · rfl

/-- Two deliveries, and a second run in which the server has another format of the one book and no
longer the other. -/
theorem deliveries_owned_and_converge_removed :
    ∃ desk, run Desk.step (Desk.launch []) [.sync (serving [epubBook, otherBook])] = some desk ∧
      (desk.manifest.lookup otherBook.uuid).isSome = true ∧
      (∀ book ∈ [pdfBook], Served (serving [pdfBook])
        (runSync (serving [pdfBook]) desk).turn.desk book) ∧
      (runSync (serving [pdfBook]) desk).turn.desk.manifest.lookup otherBook.uuid = none := by
  obtain ⟨desk, ran⟩ := Option.isSome_iff_exists.mp
    (show (run Desk.step (Desk.launch []) [.sync (serving [epubBook, otherBook])]).isSome = true by
      decide +kernel)
  have outcome : (run Desk.step (Desk.launch []) [.sync (serving [epubBook, otherBook])]).map
      (fun desk => ((desk.manifest.lookup otherBook.uuid).isSome,
        (runSync (serving [pdfBook]) desk).ok)) = some (true, true) := by
    decide +kernel
  rw [ran, Option.map_some, Option.some.injEq, Prod.mk.injEq] at outcome
  have known : ∀ books, (serving [epubBook, otherBook]).library.books = some books →
      ∀ book ∈ books, book.uuid ∈ twoKnown := by
    rintro books ⟨⟩ book listed
    rcases List.mem_pair.mp listed with rfl | rfl
    · exact Or.inl rfl
    · exact Or.inr rfl
  obtain ⟨-, -, -, converges⟩ := deliveries_owned_and_converge "/Omnibus".toList twoKnown
    two_known_injective [] [.sync (serving [epubBook, otherBook])] desk
    ⟨⟨rfl, known⟩, trivial⟩ ran
  have isKnown : ∀ book ∈ [pdfBook], book.uuid ∈ twoKnown := by
    intro book listed
    rw [List.mem_singleton.mp listed]
    exact Or.inl rfl
  have formats : ∀ book ∈ [pdfBook], book.format ≠ [] := by
    intro book listed
    rw [List.mem_singleton.mp listed]
    decide
  have converged := converges (serving [pdfBook]) [pdfBook] rfl rfl isKnown (by simp) formats
    outcome.2
  have unlisted : ∀ book ∈ [pdfBook], book.uuid ≠ otherBook.uuid := by
    intro book listed
    rw [List.mem_singleton.mp listed]
    decide +kernel
  have closed : (serving [pdfBook]).openPath = none := rfl
  refine ⟨desk, ran, outcome.1, converged.1, ?_⟩
  rw [converged.2 otherBook.uuid unlisted, Option.filter_eq_none_iff]
  intro path _ kept
  rw [Bool.and_eq_true, closed, decide_eq_true_eq] at kept
  exact Option.some_ne_none path kept.2

end Omnibus.Koreader
