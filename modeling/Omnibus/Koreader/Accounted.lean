import Omnibus.Koreader.Converged

/-!
# The files the manifest accounts for

A delivered file is deleted by its manifest entry alone. A run keeps an entry for every file it
has downloaded and not removed, unless a book's format changed and its old file stayed.
-/

namespace Omnibus.Koreader

open Omnibus.Library.Strings Omnibus.Library.Runs

def Desk.Held (desk : Desk) (path : Text) : Prop :=
  path ∈ desk.disk ∧ ∃ uuid, (uuid, path) ∈ desk.delivered

/-- Every held file is the manifest path of a book that is not still to be downloaded. -/
def Accounted (pending : List Text) (desk : Desk) : Prop :=
  ∀ path, desk.Held path → ∃ uuid, uuid ∉ pending ∧ desk.manifest.lookup uuid = some path

/-- The folder's path climbs to no parent, so that a file in it is inside it. -/
def PlainFolder (dir : Text) : Prop := ¬"/../".toList <:+: dir ++ ['/']

theorem file_name_slashless (book : Book) : '/' ∉ fileName book := by
  have word (wanted : Char → Bool) (text : Text) (clear : wanted '/' = false) :
      '/' ∉ wordBytes wanted text := word_bytes_clear wanted text '/' clear (by decide)
  have title : '/' ∉ shownTitle book.title := by
    intro member
    rw [shownTitle] at member
    split at member
    · revert member
      decide
    · obtain ⟨char, -, same⟩ := List.mem_map.mp (List.mem_of_mem_take member)
      split at same
      · exact absurd same (by decide)
      · rename_i safe
        exact safe (Or.inl (same ▸ by decide))
  have id : '/' ∉ bookId book.uuid := fun member =>
    word _ book.uuid (by decide) (List.mem_of_mem_take member)
  have extension : '/' ∉ extension book := word _ book.format (by decide)
  simp [fileName, title, id, extension]

theorem named_inside (dir uuid path : Text) (plain : PlainFolder dir)
    (named : Named dir uuid path) : inside dir path = true := by
  obtain ⟨book, rfl, rfl⟩ := named
  have climbs : ¬"/../".toList <:+: dir ++ ['/'] ++ fileName book := by
    intro ⟨before, after, same⟩
    obtain ⟨rest, split, -⟩ | ⟨rest, split, tail⟩ := List.append_eq_append_iff.mp same
    · exact plain ⟨before, rest, split.symm⟩
    · have last : '/' ∈ rest ∨ rest = [] := by
        rcases rest.eq_nil_or_concat with none' | ⟨first, char, shape⟩
        · exact Or.inr none'
        · left
          have ends := congrArg List.getLast? split
          rw [shape, List.concat_eq_append, ← List.append_assoc] at ends
          generalize dir ++ ['/'] ++ first = stem at ends
          simp at ends
          simp [shape, ← ends]
      rcases last with slash | none'
      · exact file_name_slashless book (tail ▸ List.mem_append_left _ slash)
      · rw [none', List.append_nil] at split
        exact plain ⟨before, [], by rw [List.append_nil]; exact split⟩
  have ends : ¬"/..".toList <:+ dir ++ ['/'] ++ fileName book := by
    intro suffix
    obtain ⟨before, reversed⟩ := file_name_reverse dir book
    have starts := List.reverse_prefix.mpr suffix
    rw [reversed] at starts
    have dotless : '.' ∉ (extension book).reverse := fun member =>
      word_bytes_clear Char.isAlphanum book.format '.' (by decide) (by decide)
        (List.mem_reverse.mp member)
    have idless : '.' ∉ (bookId book.uuid).reverse := fun member =>
      book_id_clear book.uuid '.' (by decide) (by decide) (List.mem_reverse.mp member)
    cases extended : (extension book).reverse with
    | cons char rest =>
        rw [extended] at starts dotless
        simp at starts dotless
        exact dotless.1 starts.1
    | nil =>
        rw [extended] at starts
        cases shown : (bookId book.uuid).reverse with
        | cons char rest =>
            rw [shown] at starts idless
            simp at starts idless
            exact idless.1 starts.1
        | nil =>
            rw [shown] at starts
            simp at starts
  rw [inside, Bool.and_eq_true, Bool.and_eq_true]
  exact ⟨⟨by rw [List.isPrefixOf_iff_prefix]; exact List.prefix_append _ _, by simpa using climbs⟩,
    by simpa using ends⟩

section Steps

variable (deps : RunDeps) (pending : List Text)

theorem held_fetch (desk : Desk) (book : Book) (target : Text) (etag : Option Text) (path : Text)
    (held : (desk.fetch deps book target etag).Held path) : path = target ∨ desk.Held path := by
  rw [Desk.fetch] at held
  split at held
  · obtain ⟨present, uuid, delivered⟩ := held
    by_cases same : path = target
    · exact Or.inl same
    · right
      constructor
      · exact (List.mem_cons.mp present).resolve_left same
      · rcases List.mem_append.mp delivered with earlier | here
        · exact ⟨uuid, earlier⟩
        · exact absurd (Prod.mk.inj (List.mem_singleton.mp here)).2 same
  · exact Or.inr held

theorem fetch_manifest (desk : Desk) (book : Book) (target : Text) (etag : Option Text) :
    (desk.fetch deps book target etag).manifest = desk.manifest := by
  rw [Desk.fetch]
  split <;> rfl

theorem fetch_removals (desk : Desk) (book : Book) (target : Text) (etag : Option Text) :
    (desk.fetch deps book target etag).removals = desk.removals := by
  rw [Desk.fetch]
  split <;> rfl

theorem held_discard (desk : Desk) (path other : Text) (held : (desk.discard deps path).Held other) :
    desk.Held other ∧ (deps.remove path = none → other ≠ path) := by
  obtain ⟨present, delivered⟩ := held
  simp only [Desk.discard] at present
  split at present
  · rename_i removed
    have kept := List.mem_filter.mp present
    exact ⟨⟨kept.1, delivered⟩, fun _ => of_decide_eq_true kept.2⟩
  · rename_i refused
    exact ⟨⟨present, delivered⟩, fun removed => absurd removed refused⟩

theorem fetch_accounted (desk : Desk) (book : Book) (path : Text) (etag : Option Text)
    (found : ∃ uuid, uuid ∉ pending ∧ desk.manifest.lookup uuid = some path)
    (accounted : Accounted pending desk) :
    Accounted pending (desk.fetch deps book path etag) := by
  intro other held
  rw [fetch_manifest]
  rcases held_fetch deps desk book path etag other held with same | earlier
  · exact same ▸ found
  · exact accounted other earlier

theorem delete_book_accounted (turn : Turn) (entry : Text × Text)
    (found : turn.desk.manifest.lookup entry.1 = some entry.2)
    (accounted : Accounted pending turn.desk) :
    Accounted pending (deleteBook deps turn entry).desk := by
  rw [deleteBook]
  split
  · rename_i removed
    intro path held
    obtain ⟨earlier, other⟩ := held_discard deps turn.desk entry.2 path held
    obtain ⟨uuid, settled, listed⟩ := accounted path earlier
    have apart : uuid ≠ entry.1 := by
      intro same
      rw [same, found] at listed
      exact other removed (Option.some.inj listed).symm
    exact ⟨uuid, settled, (AList.lookup_erase_ne apart).trans listed⟩
  · exact fun path held => accounted path (held_discard deps turn.desk entry.2 path held).1

theorem delete_book_lookup (turn : Turn) (entry : Text × Text) (uuid : Text)
    (apart : uuid ≠ entry.1) :
    (deleteBook deps turn entry).desk.manifest.lookup uuid = turn.desk.manifest.lookup uuid := by
  rw [deleteBook]
  split
  · exact AList.lookup_erase_ne apart
  · rfl

theorem deletes_accounted (entries : List (Text × Text)) (turn : Turn)
    (distinct : (entries.map (·.1)).Nodup)
    (found : ∀ entry ∈ entries, turn.desk.manifest.lookup entry.1 = some entry.2)
    (accounted : Accounted pending turn.desk) :
    Accounted pending (entries.foldl (deleteBook deps) turn).desk := by
  induction entries generalizing turn with
  | nil => exact accounted
  | cons entry rest induction =>
      rw [List.map_cons, List.nodup_cons] at distinct
      apply induction _ distinct.2
      · intro later member
        have apart : later.1 ≠ entry.1 := fun same =>
          distinct.1 (same ▸ List.mem_map_of_mem member)
        rw [delete_book_lookup deps turn entry later.1 apart]
        exact found later (List.mem_cons_of_mem _ member)
      · exact delete_book_accounted deps pending turn entry (found entry List.mem_cons_self) accounted

theorem deletes_keep (entries : List (Text × Text)) (turn : Turn) (uuid : Text)
    (others : ∀ entry ∈ entries, uuid ≠ entry.1) :
    (entries.foldl (deleteBook deps) turn).desk.manifest.lookup uuid =
      turn.desk.manifest.lookup uuid := by
  induction entries generalizing turn with
  | nil => rfl
  | cons entry rest induction =>
      rw [List.foldl_cons, induction _ fun later member => others later (List.mem_cons_of_mem _ member)]
      exact delete_book_lookup deps turn entry uuid (others entry List.mem_cons_self)

theorem insert_accounted (desk : Desk) (book : Book) (path : Text) (settled : book.uuid ∉ pending)
    (accounted : Accounted (book.uuid :: pending) desk) :
    Accounted pending
      { desk.fetch deps book path none with
        manifest := (desk.fetch deps book path none).manifest.insert book.uuid path } := by
  intro other held
  rcases held_fetch deps desk book path none other held with same | earlier
  · exact ⟨book.uuid, settled, by rw [same]; exact AList.lookup_insert _⟩
  · obtain ⟨uuid, later, listed⟩ := accounted other earlier
    rw [List.mem_cons, not_or] at later
    refine ⟨uuid, later.2, ?_⟩
    rw [fetch_manifest]
    exact (AList.lookup_insert_ne later.1).trans listed

theorem download_book_accounted (turn : Turn) (book : Book) (settled : book.uuid ∉ pending)
    (accounted : Accounted (book.uuid :: pending) turn.desk) :
    Accounted pending (downloadBook deps turn book).desk := by
  have inserted := insert_accounted deps pending turn.desk book
    (deliveryPath deps.dir turn.desk book) settled accounted
  rw [downloadBook]
  split
  · rename_i reason failed
    intro path held
    simp only [Desk.fetch, failed] at held ⊢
    obtain ⟨uuid, later, listed⟩ := accounted path held
    exact ⟨uuid, fun member => later (List.mem_cons_of_mem _ member), listed⟩
  · exact inserted
  · exact inserted

theorem downloads_accounted (books : List Book) (turn : Turn)
    (distinct : (books.map (·.uuid)).Nodup)
    (accounted : Accounted (books.map (·.uuid)) turn.desk) :
    Accounted [] (books.foldl (downloadBook deps) turn).desk := by
  induction books generalizing turn with
  | nil => exact accounted
  | cons book rest induction =>
      rw [List.map_cons, List.nodup_cons] at distinct
      exact induction _ distinct.2
        (download_book_accounted deps _ turn book distinct.1 accounted)

/-- The refresh of a delivered book gives it a new file beside its old one. -/
def Switches (item : Book × Text) : Prop :=
  pathExtension item.2 ≠ some (extension item.1) ∧ deps.canReplace item.2 = true ∧
    deps.dir ++ ['/'] ++ fileName item.1 ≠ item.2 ∧
    ∃ etag, deps.download item.1 (deps.dir ++ ['/'] ++ fileName item.1) none = .published etag

/-- A new file of another format is in place, and the removal of the old one has been tried. -/
def switched (desk : Desk) (book : Book) (path target : Text) : Desk :=
  let asked := desk.fetch deps book target none
  { asked with manifest := asked.manifest.insert book.uuid target }.discard deps path

theorem refresh_metadata_files (turn : Turn) (book : Book) (path : Text) (kept : Kept)
    (touched : Bool) :
    ∃ files, (refreshMetadata deps turn book path kept touched).desk = { turn.desk with files } := by
  rw [refreshMetadata]
  split
  · split <;> exact ⟨_, rfl⟩
  · split <;> exact ⟨_, rfl⟩

inductive Refreshed (desk : Desk) (item : Book × Text) : Desk → Prop where
  | untouched : Refreshed desk item desk
  | fetched (etag : Option Text) : Refreshed desk item (desk.fetch deps item.1 item.2 etag)
  | failed (reason target : Text) (fails : deps.download item.1 target none = .failed reason) :
      Refreshed desk item (desk.fetch deps item.1 target none)
  | moved (changed : pathExtension item.2 ≠ some (extension item.1))
      (allowed : deps.canReplace item.2 = true)
      (published : ∃ etag,
        deps.download item.1 (deps.dir ++ ['/'] ++ fileName item.1) none = .published etag) :
      Refreshed desk item
        (switched deps desk item.1 item.2 (deps.dir ++ ['/'] ++ fileName item.1))

theorem replace_file_refreshed (turn : Turn) (book : Book) (path : Text) (kept : Kept)
    (allowed : deps.canReplace path = true) :
    Refreshed deps turn.desk (book, path) (replaceFile deps turn book path kept).1.desk := by
  rw [replaceFile]
  cases changed : (pathExtension path != some (extension book)) with
  | false =>
      simp only [Bool.false_eq_true, if_false]
      split <;> exact Refreshed.fetched kept.etag
  | true =>
      simp only [if_true]
      split
      · rename_i reason failed
        exact Refreshed.failed reason _ failed
      · rename_i etag published
        exact Refreshed.moved (by simpa using changed) allowed ⟨etag, published⟩
      · rename_i unmodified
        exact absurd unmodified (deps.unconditional book _)

theorem refresh_book_refreshed (turn : Turn) (item : Book × Text) :
    ∃ desk files, (refreshBook deps turn item).desk = { desk with files } ∧
      Refreshed deps turn.desk item desk := by
  obtain ⟨book, path⟩ := item
  rw [refreshBook]
  split
  · rename_i replaces
    have replaced := replace_file_refreshed deps turn book path
      ((turn.desk.files.lookup book.uuid).getD ⟨path, none, none, none⟩) replaces.2
    split
    · rename_i later reason failed
      rw [failed] at replaced
      exact ⟨later.desk, _, rfl, replaced⟩
    · rename_i later kept target done
      rw [done] at replaced
      obtain ⟨files, same⟩ := refresh_metadata_files deps later book target kept true
      exact ⟨later.desk, files, same, replaced⟩
  · obtain ⟨files, same⟩ := refresh_metadata_files deps turn book path
      ((turn.desk.files.lookup book.uuid).getD ⟨path, none, none, none⟩) false
    exact ⟨turn.desk, files, same, Refreshed.untouched⟩

theorem switched_accounted (desk : Desk) (book : Book) (path target : Text)
    (found : desk.manifest.lookup book.uuid = some path)
    (removed : target ≠ path → deps.remove path = none) (accounted : Accounted [] desk) :
    Accounted [] (switched deps desk book path target) := by
  intro other held
  have inserted : (switched deps desk book path target).manifest.lookup book.uuid = some target :=
    AList.lookup_insert _
  obtain ⟨asked, gone⟩ := held_discard deps _ path other held
  by_cases new : other = target
  · exact ⟨book.uuid, List.not_mem_nil, new ▸ inserted⟩
  · have earlier := (held_fetch deps desk book target none other asked).resolve_left new
    obtain ⟨uuid, settled, listed⟩ := accounted other earlier
    have apart : uuid ≠ book.uuid := by
      intro same
      rw [same, found, Option.some.injEq] at listed
      exact gone (removed fun here => new (listed.symm.trans here.symm)) listed.symm
    refine ⟨uuid, settled, ?_⟩
    simp only [switched, Desk.discard, fetch_manifest]
    exact (AList.lookup_insert_ne apart).trans listed

theorem refresh_book_accounted (turn : Turn) (item : Book × Text)
    (found : turn.desk.manifest.lookup item.1.uuid = some item.2)
    (clears : Switches deps item → deps.remove item.2 = none)
    (accounted : Accounted [] turn.desk) :
    Accounted [] (refreshBook deps turn item).desk := by
  obtain ⟨desk, files, same, refreshed⟩ := refresh_book_refreshed deps turn item
  have kept : Accounted [] desk := by
    cases refreshed with
    | untouched => exact accounted
    | fetched etag =>
        exact fetch_accounted deps [] turn.desk item.1 item.2 etag
          ⟨item.1.uuid, List.not_mem_nil, found⟩ accounted
    | failed reason target fails =>
        intro path held
        simp only [Desk.fetch, fails] at held ⊢
        exact accounted path held
    | moved changed allowed published =>
        apply switched_accounted deps turn.desk item.1 item.2 _ found _ accounted
        exact fun apart => clears ⟨changed, allowed, apart, published⟩
  rw [same]
  exact kept

theorem refresh_book_lookup (turn : Turn) (item : Book × Text) (uuid : Text)
    (apart : uuid ≠ item.1.uuid) :
    (refreshBook deps turn item).desk.manifest.lookup uuid = turn.desk.manifest.lookup uuid := by
  obtain ⟨desk, files, same, refreshed⟩ := refresh_book_refreshed deps turn item
  rw [same]
  cases refreshed with
  | untouched => rfl
  | fetched etag => exact congrArg _ (fetch_manifest deps turn.desk item.1 item.2 etag)
  | failed reason target fails => exact congrArg _ (fetch_manifest deps turn.desk item.1 target none)
  | moved changed allowed published =>
      simp only [switched, Desk.discard, fetch_manifest]
      exact AList.lookup_insert_ne apart

theorem refreshes_accounted (items : List (Book × Text)) (turn : Turn)
    (distinct : (items.map (·.1.uuid)).Nodup)
    (found : ∀ item ∈ items, turn.desk.manifest.lookup item.1.uuid = some item.2)
    (clears : ∀ item ∈ items, Switches deps item → deps.remove item.2 = none)
    (accounted : Accounted [] turn.desk) :
    Accounted [] (items.foldl (refreshBook deps) turn).desk := by
  induction items generalizing turn with
  | nil => exact accounted
  | cons item rest induction =>
      rw [List.map_cons, List.nodup_cons] at distinct
      apply induction _ distinct.2
      · intro later member
        have apart : later.1.uuid ≠ item.1.uuid := fun same =>
          distinct.1 (same ▸ List.mem_map_of_mem (f := (·.1.uuid)) member)
        rw [refresh_book_lookup deps turn item later.1.uuid apart]
        exact found later (List.mem_cons_of_mem _ member)
      · exact fun later member => clears later (List.mem_cons_of_mem _ member)
      · exact refresh_book_accounted deps turn item (found item List.mem_cons_self)
          (clears item List.mem_cons_self) accounted

def Asked (before after : Desk) (paths : List Text) : Prop :=
  after.removals.map (·.1) = before.removals.map (·.1) ++ paths

theorem Asked.trans {first middle last : Desk} {some' more : List Text}
    (earlier : Asked first middle some') (later : Asked middle last more) :
    Asked first last (some' ++ more) := by
  rw [Asked] at *
  rw [later, earlier, List.append_assoc]

theorem deletes_asked (entries : List (Text × Text)) (turn : Turn) :
    Asked turn.desk (entries.foldl (deleteBook deps) turn).desk (entries.map (·.2)) := by
  induction entries generalizing turn with
  | nil => exact (List.append_nil _).symm
  | cons entry rest induction =>
      have here : Asked turn.desk (deleteBook deps turn entry).desk [entry.2] := by
        rw [Asked, deleteBook]
        split <;> simp [Desk.discard]
      exact here.trans (induction _)

theorem downloads_asked (books : List Book) (turn : Turn) :
    (books.foldl (downloadBook deps) turn).desk.removals = turn.desk.removals := by
  induction books generalizing turn with
  | nil => rfl
  | cons book rest induction =>
      rw [List.foldl_cons, induction, downloadBook]
      split <;> exact fetch_removals deps turn.desk book _ none

theorem refreshes_asked (items : List (Book × Text)) (turn : Turn) :
    ∃ paths, Asked turn.desk (items.foldl (refreshBook deps) turn).desk paths := by
  induction items generalizing turn with
  | nil => exact ⟨[], (List.append_nil _).symm⟩
  | cons item rest induction =>
      obtain ⟨later, asked⟩ := induction (refreshBook deps turn item)
      obtain ⟨desk, files, same, refreshed⟩ := refresh_book_refreshed deps turn item
      have here : ∃ paths, Asked turn.desk (refreshBook deps turn item).desk paths := by
        rw [same]
        cases refreshed with
        | untouched => exact ⟨[], (List.append_nil _).symm⟩
        | fetched etag => exact ⟨[], by simp [Asked, fetch_removals]⟩
        | failed reason target fails => exact ⟨[], by simp [Asked, fetch_removals]⟩
        | moved changed allowed published =>
            exact ⟨[item.2], by simp [Asked, switched, Desk.discard, fetch_removals]⟩
      obtain ⟨paths, first⟩ := here
      exact ⟨paths ++ later, first.trans asked⟩

end Steps

section Carried

variable (deps : RunDeps) (books : List Book) (desk : Desk)

theorem planned_distinct :
    ((plan desk.manifest books deps.dir desk.disk deps.openPath).delete.map (·.1)).Nodup := by
  have keys : (desk.manifest.entries.map (·.1)).Nodup := desk.manifest.nodupKeys
  simp only [plan, List.map_map]
  exact (List.Nodup.sublist ((List.filter_sublist.trans List.filter_sublist).map _) keys)

/-- A run that lists each book once, and removes the old file of one whose format changed. -/
structure ClearsSwitched : Prop where
  distinct : (books.map (·.uuid)).Nodup
  clears : ∀ item ∈ refreshPlan desk.manifest desk.files books deps.dir desk.disk deps.openPath,
    Switches deps item → deps.remove item.2 = none

variable (plain : PlainFolder deps.dir) (owned : Owned deps.dir Set.univ desk.delivered desk)

include plain owned

theorem manifest_inside (uuid path : Text) (found : desk.manifest.lookup uuid = some path) :
    inside deps.dir path = true :=
  named_inside deps.dir uuid path plain (owned.manifest uuid path found).2.1

theorem nothing_forgotten :
    (plan desk.manifest books deps.dir desk.disk deps.openPath).forget = [] := by
  simp only [plan, List.append_eq_nil_iff, List.map_eq_nil_iff, List.filter_eq_nil_iff]
  constructor
  · intro book missing outside
    obtain ⟨path, found, out⟩ := (Option.any_eq_true ..).mp outside
    rw [manifest_inside deps desk plain owned book.uuid path found] at out
    cases out
  · intro entry unwanted outside
    have listed := AList.mem_lookup_iff.mpr (List.mem_of_mem_filter unwanted)
    rw [manifest_inside deps desk plain owned entry.1 entry.2 listed] at outside
    cases outside

theorem carry_out_accounted (clearing : ClearsSwitched deps books desk)
    (accounted : Accounted [] desk) : Accounted [] (carryOut deps books desk).desk := by
  have forgotten := nothing_forgotten deps books desk plain owned
  have deleted (entry : Text × Text)
      (planned : entry ∈ (plan desk.manifest books deps.dir desk.disk deps.openPath).delete) :=
    planned_delete deps.dir Set.univ deps books desk owned rfl entry planned
  have refreshed (item : Book × Text) (planned : item ∈
      refreshPlan desk.manifest desk.files books deps.dir desk.disk deps.openPath) :=
    planned_refresh deps.dir Set.univ deps books desk owned rfl item planned
  -- A book to be downloaded has no file, so that its entry accounts for none.
  have settled : Accounted
      ((plan desk.manifest books deps.dir desk.disk deps.openPath).download.map (·.uuid)) desk := by
    intro path held
    obtain ⟨uuid, -, listed⟩ := accounted path held
    refine ⟨uuid, fun pending => ?_, listed⟩
    obtain ⟨book, missing, own⟩ := List.mem_map.mp pending
    have absent := (List.mem_filter.mp missing).2
    rw [own, listed] at absent
    have within := manifest_inside deps desk plain owned uuid path listed
    simp [inPlace, within, held.1] at absent
  rw [carryOut, forgotten, List.foldl_nil]
  apply refreshes_accounted
  · have sub := (refresh_plan_books deps books desk).map (·.uuid)
    rw [List.map_map] at sub
    exact clearing.distinct.sublist sub
  · intro item planned
    obtain ⟨listed, found, present, -⟩ := refreshed item planned
    have inPlace' : ∀ book ∈ (plan desk.manifest books deps.dir desk.disk deps.openPath).download,
        item.1.uuid ≠ book.uuid := by
      intro book missing same
      have absent := (List.mem_filter.mp missing).2
      rw [← same, found] at absent
      have within := manifest_inside deps desk plain owned item.1.uuid item.2 found
      simp [inPlace, within, present] at absent
    rw [(downloads_spare deps deps.dir item.1.uuid _ inPlace' _).manifest, deletes_keep]
    · exact found
    · exact fun entry planned same => (deleted entry planned).2.1 item.1 listed same
  · exact clearing.clears
  · apply downloads_accounted
    · exact clearing.distinct.sublist (List.filter_sublist.map _)
    · apply deletes_accounted
      · exact planned_distinct deps books desk
      · exact fun entry planned => (deleted entry planned).1
      · exact settled

theorem carry_out_asks (uuid path : Text) (found : desk.manifest.lookup uuid = some path)
    (unwanted : ∀ book ∈ books, book.uuid ≠ uuid) (shut : some path ≠ deps.openPath) :
    ∃ paths, Asked desk (carryOut deps books desk).desk paths ∧ path ∈ paths := by
  have within := manifest_inside deps desk plain owned uuid path found
  have planned : (uuid, path) ∈
      (plan desk.manifest books deps.dir desk.disk deps.openPath).delete := by
    refine List.mem_map.mpr
      ⟨⟨uuid, path⟩, List.mem_filter.mpr ⟨List.mem_filter.mpr ⟨?_, ?_⟩, ?_⟩, rfl⟩
    · exact AList.mem_lookup_iff.mp found
    · simpa using unwanted
    · simpa using ⟨within, shut⟩
  have deleted := deletes_asked deps
    (plan desk.manifest books deps.dir desk.disk deps.openPath).delete ⟨desk, emptyTally⟩
  obtain ⟨later, refreshed⟩ := refreshes_asked deps
    (refreshPlan desk.manifest desk.files books deps.dir desk.disk deps.openPath)
    ((plan desk.manifest books deps.dir desk.disk deps.openPath).download.foldl (downloadBook deps)
      ((plan desk.manifest books deps.dir desk.disk deps.openPath).delete.foldl (deleteBook deps)
        ⟨desk, emptyTally⟩))
  rw [Asked, downloads_asked] at refreshed
  rw [carryOut, nothing_forgotten deps books desk plain owned]
  exact ⟨_, deleted.trans refreshed, List.mem_append_left _ (List.mem_map_of_mem planned)⟩

end Carried

/-- A run of the plugin in its one folder, in which an old file that a new format replaced is
removed. -/
def Clears (dir : Text) (desk : Desk) : FolderAction → Prop
  | .sync deps =>
      deps.dir = dir ∧ ∀ books, fetchLibrary deps = .ok books → ClearsSwitched deps books desk
  | .disturb _ => False

theorem accounted_step (dir : Text) (plain : PlainFolder dir) (desk : Desk) (action : FolderAction)
    (next : Desk) (kept : Owned dir Set.univ [] desk ∧ Accounted [] desk)
    (clears : Clears dir desk action) (stepped : desk.step action = some next) :
    Owned dir Set.univ [] next ∧ Accounted [] next := by
  cases action with
  | disturb disk => exact clears.elim
  | sync deps =>
      obtain ⟨rfl, clearing⟩ := clears
      have owned := owned_step deps.dir Set.univ desk (.sync deps) next kept.1
        ⟨rfl, fun _ _ _ _ => Set.mem_univ _⟩ stepped
      refine ⟨owned, ?_⟩
      rw [Desk.step, Option.some.injEq] at stepped
      rw [← stepped]
      cases fetched : fetchLibrary deps with
      | error message =>
          simp only [runSync, fetched]
          exact kept.2
      | ok books =>
          have carried := carry_out_accounted deps books desk plain
            (kept.1.rebase (List.Subset.refl _)) (clearing books fetched) kept.2
          simp only [runSync, fetched]
          split <;> exact carried

/-- Where every run removes the old file of a book whose format changed, every file downloaded and
not removed is in the manifest, and a later run without its book asks for its removal. -/
theorem held_files_accounted (dir : Text) (plain : PlainFolder dir) (disk : List Text)
    (syncs : List RunDeps) (desk : Desk)
    (clears : Meets Desk.step (Clears dir) (Desk.launch disk) (syncs.map .sync))
    (ran : run Desk.step (Desk.launch disk) (syncs.map .sync) = some desk) :
    ∀ path, desk.Held path → ∃ uuid, desk.manifest.lookup uuid = some path ∧
      ∀ (deps : RunDeps) (books : List Book), deps.dir = dir → fetchLibrary deps = .ok books →
        (∀ book ∈ books, book.uuid ≠ uuid) → some path ≠ deps.openPath →
          ∃ paths, Asked desk (runSync deps desk).turn.desk paths ∧ path ∈ paths := by
  have start : Owned dir Set.univ [] (Desk.launch disk) ∧ Accounted [] (Desk.launch disk) := by
    constructor
    · constructor <;> simp [Desk.launch, AList.lookup_empty]
    · rintro path ⟨-, uuid, delivered⟩
      cases delivered
  obtain ⟨owned, accounted⟩ :=
    run_keeps Desk.step (accounted_step dir plain) (syncs.map .sync) start clears ran
  intro path held
  obtain ⟨uuid, -, listed⟩ := accounted path held
  refine ⟨uuid, listed, ?_⟩
  intro deps books equal fetched unwanted shut
  subst equal
  have asked := carry_out_asks deps books desk plain (owned.rebase (List.Subset.refl _)) uuid path
    listed unwanted shut
  simp only [runSync, fetched]
  split <;> exact asked

/-! ## An old file that stayed -/

/-- Everything succeeds but the removal of files. -/
def refusing (book : Book) : RunDeps := { willing book none with remove := fun _ => some [] }

/-- The server changes the format of a delivered book and its old file cannot be removed: the file
is there, the plugin's own, and in no entry of the manifest. -/
theorem old_format_orphaned :
    ((run Desk.step (Desk.launch []) [.sync (willing epubBook none), .sync (refusing pdfBook)]).map
      fun desk => (decide (epubPath ∈ desk.disk),
        decide ((epubBook.uuid, epubPath) ∈ desk.delivered),
        desk.manifest.entries.any fun entry => decide (entry.2 = epubPath))) =
      some (true, true, false) := by
  decide +kernel

/-- A delivery, and a change of format whose old file goes. -/
theorem held_files_accounted_pdf :
    ∃ desk, run Desk.step (Desk.launch [])
        ([willing epubBook none, willing pdfBook none].map .sync) = some desk ∧
      ∀ path, desk.Held path → ∃ uuid, desk.manifest.lookup uuid = some path := by
  obtain ⟨desk, ran⟩ := Option.isSome_iff_exists.mp
    (show (run Desk.step (Desk.launch [])
      ([willing epubBook none, willing pdfBook none].map .sync)).isSome = true by decide +kernel)
  refine ⟨desk, ran, fun path held => ?_⟩
  have clears (book : Book) (state : Desk) : Clears "/Omnibus".toList state
      (.sync (willing book none)) := by
    refine ⟨rfl, fun books fetched => ?_⟩
    have listed := fetch_library_books (willing book none) books fetched
    rw [← Option.some.inj listed]
    exact ⟨List.nodup_singleton _, fun _ _ _ => rfl⟩
  have always : Meets Desk.step (Clears "/Omnibus".toList) (Desk.launch [])
      ([willing epubBook none, willing pdfBook none].map .sync) := by
    apply Meets.of_forall
    simpa using ⟨clears epubBook, clears pdfBook⟩
  have plain : PlainFolder "/Omnibus".toList := by
    unfold PlainFolder
    decide +kernel
  obtain ⟨uuid, listed, -⟩ := held_files_accounted "/Omnibus".toList plain []
    [willing epubBook none, willing pdfBook none] desk always ran path held
  exact ⟨uuid, listed⟩

end Omnibus.Koreader
