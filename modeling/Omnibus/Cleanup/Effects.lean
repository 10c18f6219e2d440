import Mathlib.Data.List.Pairwise
import Omnibus.Cleanup.Merges

/-!
# What a merge and its undo write

Which ids and names are live, which links and which alias rows are there after a merge or an
undo, told from what was there before.
-/

namespace Omnibus.Cleanup

variable {kind : MergeEntity} {db after : Database} {taxon : Taxon} {canonicalId : Int}
  {sourceIds : List Int} {snapshot : MergeSnapshot}

section Statements

def Taxon.names (taxon : Taxon) : List (Int × String) := taxon.rows.map fun row => (row.id, row.name)

def Taxon.Distinct (taxon : Taxon) : Prop :=
  taxon.names.Pairwise fun left right => sameName left.2 right.2 = false

def Taxon.Linked (taxon : Taxon) (book entity : Int) : Prop :=
  ∃ link ∈ taxon.links, link.book = book ∧ link.entity = entity

theorem same_name_refl (name : String) : sameName name name = true := decide_eq_true rfl

theorem same_name_comm (left right : String) : sameName left right = sameName right left := by
  unfold sameName
  exact decide_eq_decide.mpr eq_comm

@[simp] theorem set_taxon_same (taxon : Taxon) : (db.setTaxon kind taxon).taxa kind = taxon :=
  Function.update_self ..

theorem set_taxon_other {other : MergeEntity} (apart : other ≠ kind) (taxon : Taxon) :
    (db.setTaxon kind taxon).taxa other = db.taxa other :=
  Function.update_of_ne apart ..

end Statements

section Links

theorem insert_or_ignore_linked (links : List LinkRow) (link : LinkRow) (book entity : Int) :
    (∃ other ∈ insertOrIgnore links link, other.book = book ∧ other.entity = entity) ↔
      (∃ other ∈ links, other.book = book ∧ other.entity = entity) ∨
        link.book = book ∧ link.entity = entity := by
  unfold insertOrIgnore
  split_ifs with present
  · refine ⟨.inl, fun linked => linked.elim id ?_⟩
    rintro ⟨rfl, rfl⟩
    obtain ⟨other, member, same⟩ := List.any_eq_true.mp present
    simp only [Bool.and_eq_true, decide_eq_true_eq] at same
    exact ⟨other, member, same⟩
  · simp only [List.mem_append, List.mem_singleton]
    constructor
    · rintro ⟨other, member | rfl, same⟩
      · exact .inl ⟨other, member, same⟩
      · exact .inr same
    · rintro (⟨other, member, same⟩ | same)
      · exact ⟨other, .inl member, same⟩
      · exact ⟨link, .inr rfl, same⟩

theorem insert_all_linked (added links : List LinkRow) (book entity : Int) :
    (∃ other ∈ added.foldl insertOrIgnore links, other.book = book ∧ other.entity = entity) ↔
      (∃ other ∈ links, other.book = book ∧ other.entity = entity) ∨
        ∃ other ∈ added, other.book = book ∧ other.entity = entity := by
  induction added generalizing links with
  | nil => simp
  | cons link added induction =>
      rw [List.foldl_cons, induction, insert_or_ignore_linked, List.exists_mem_cons_iff, or_assoc]

theorem move_links_linked (taxon : Taxon) (sourceId book entity : Int) :
    (moveLinks taxon sourceId canonicalId).Linked book entity ↔
      taxon.Linked book entity ∨ entity = canonicalId ∧ taxon.Linked book sourceId := by
  unfold moveLinks Taxon.Linked
  rw [insert_all_linked]
  refine or_congr_right ⟨?_, ?_⟩
  · intro ⟨_, member, isBook, isEntity⟩
    obtain ⟨link, linkMem, rfl⟩ := List.mem_map.mp member
    obtain ⟨inLinks, isSource⟩ := List.mem_filter.mp linkMem
    exact ⟨isEntity.symm, link, inLinks, isBook, of_decide_eq_true isSource⟩
  · intro ⟨equal, link, inLinks, isBook, isSource⟩
    subst equal
    exact ⟨_, List.mem_map_of_mem (List.mem_filter.mpr ⟨inLinks, decide_eq_true isSource⟩), isBook,
      rfl⟩

theorem delete_links_linked (taxon : Taxon) (id book entity : Int) :
    (deleteLinks taxon id).Linked book entity ↔ taxon.Linked book entity ∧ entity ≠ id := by
  unfold deleteLinks Taxon.Linked
  simp only [List.mem_filter, decide_eq_true_eq]
  constructor
  · intro ⟨link, ⟨member, apart⟩, isBook, equal⟩
    subst equal
    exact ⟨⟨link, member, isBook, rfl⟩, apart⟩
  · intro ⟨⟨link, member, isBook, equal⟩, apart⟩
    subst equal
    exact ⟨link, ⟨member, apart⟩, isBook, rfl⟩

theorem insert_link_linked (taxon : Taxon) (newBook newEntity book entity : Int)
    (position : Option Int) :
    (insertLink kind taxon newBook newEntity position).Linked book entity ↔
      taxon.Linked book entity ∨ newBook = book ∧ newEntity = entity :=
  insert_or_ignore_linked ..

theorem delete_link_linked (taxon : Taxon) (oldBook oldEntity book entity : Int) :
    (deleteLink taxon oldBook oldEntity).Linked book entity ↔
      taxon.Linked book entity ∧ ¬(book = oldBook ∧ entity = oldEntity) := by
  unfold deleteLink Taxon.Linked
  simp only [List.mem_filter, Bool.not_eq_true', Bool.and_eq_false_iff, decide_eq_false_iff_not]
  constructor
  · rintro ⟨link, ⟨member, apart⟩, rfl, rfl⟩
    exact ⟨⟨link, member, rfl, rfl⟩, fun same => apart.elim (· same.1) (· same.2)⟩
  · rintro ⟨⟨link, member, rfl, rfl⟩, apart⟩
    refine ⟨link, ⟨member, ?_⟩, rfl, rfl⟩
    rwa [not_and_or] at apart

theorem linked_of_fetched {id : Int} {link : BookLink} (member : link ∈ fetchLinks taxon id) :
    taxon.Linked link.bookId id := by
  obtain ⟨row, rowMem, rfl⟩ := List.mem_map.mp member
  obtain ⟨inLinks, isEntity⟩ := List.mem_filter.mp rowMem
  exact ⟨row, inLinks, rfl, of_decide_eq_true isEntity⟩

end Links

section Names

theorem mem_names {id : Int} {name : String} :
    (id, name) ∈ taxon.names ↔ ∃ row ∈ taxon.rows, row.id = id ∧ row.name = name := by
  simp [Taxon.names]

@[simp] theorem set_sort_names (id : Int) (sort : Option String) :
    (setSort taxon id sort).names = taxon.names := by
  unfold setSort Taxon.names
  rw [List.map_map]
  apply List.map_congr_left
  intro row _
  simp only [Function.comp_apply]
  split_ifs <;> rfl

theorem fetched_name {id : Int} {found : String × Option String}
    (fetched : fetchNameSort taxon id = some found) : (id, found.1) ∈ taxon.names := by
  obtain ⟨row, isRow, rfl⟩ := Option.map_eq_some_iff.mp fetched
  have isId := List.find?_some isRow
  exact mem_names.mpr ⟨row, List.mem_of_find?_eq_some isRow, of_decide_eq_true isId, rfl⟩

theorem delete_entity_row_names (id : Int) :
    (deleteEntityRow taxon id).names = taxon.names.filter (·.1 ≠ id) := by
  unfold deleteEntityRow Taxon.names
  rw [List.filter_map]
  rfl

theorem delete_rows_names (ids : List Int) (taxon : Taxon) :
    (ids.foldl deleteEntityRow taxon).names = taxon.names.filter (·.1 ∉ ids) ∧
      (ids.foldl deleteEntityRow taxon).links = taxon.links := by
  induction ids generalizing taxon with
  | nil => simp
  | cons id ids induction =>
      rw [List.foldl_cons]
      refine ⟨?_, (induction _).2⟩
      rw [(induction _).1, delete_entity_row_names, List.filter_filter]
      apply List.filter_congr
      intro pair _
      simp [Bool.and_comm]

theorem mem_delete_orphans_names {id : Int} {name : String} :
    (id, name) ∈ (deleteOrphans kind taxon).names ↔
      ∃ row ∈ taxon.rows, justified kind taxon row = true ∧ row.id = id ∧ row.name = name := by
  rw [mem_names]
  simp only [deleteOrphans, List.mem_filter, and_assoc]

theorem delete_orphans_names (kind : MergeEntity) (taxon : Taxon) :
    (deleteOrphans kind taxon).names.Sublist taxon.names :=
  List.filter_sublist.map _

theorem delete_orphans_keeps {id : Int} {name : String} (live : (id, name) ∈ taxon.names)
    {book : Int} (linked : taxon.Linked book id) : (id, name) ∈ (deleteOrphans kind taxon).names := by
  obtain ⟨row, rowMem, isId, isName⟩ := mem_names.mp live
  obtain ⟨link, linkMem, _, isEntity⟩ := linked
  refine mem_delete_orphans_names.mpr ⟨row, rowMem, ?_, isId, isName⟩
  unfold justified
  rw [Bool.or_eq_true, List.any_eq_true]
  exact .inl ⟨link, linkMem, decide_eq_true (isEntity.trans isId.symm)⟩

theorem recreate_entity_names (kind : MergeEntity) (taxon : Taxon) (name : String)
    (sort : Option String) :
    ((recreateEntity kind taxon name sort).1.names = taxon.names ∨
        (recreateEntity kind taxon name sort).1.names = taxon.names ++ [(taxon.lastId + 1, name)] ∧
          ∀ pair ∈ taxon.names, sameName pair.2 name = false) ∧
      (recreateEntity kind taxon name sort).1.links = taxon.links := by
  unfold recreateEntity
  cases found : taxon.rows.find? (fun row => sameName row.name name) with
  | some existing =>
      refine ⟨.inl ?_, rfl⟩
      unfold Taxon.names
      dsimp only
      rw [List.map_map]
      apply List.map_congr_left
      intro row _
      simp only [Function.comp_apply]
      split_ifs <;> rfl
  | none =>
      refine ⟨.inr ⟨?_, fun pair member => ?_⟩, rfl⟩
      · simp [Taxon.names]
      · obtain ⟨row, rowMem, rfl⟩ := List.mem_map.mp member
        exact Bool.eq_false_iff.mpr (List.find?_eq_none.mp found row rowMem)

end Names

section Aliases

variable {aliases : List AliasRow} {name : String} {row : AliasRow}

theorem is_for_iff : row.isFor kind name = true ↔ row.kind = kind ∧ row.aliasName = name := by
  simp [AliasRow.isFor]

theorem mem_write_alias (id : Int) : row ∈ writeEntityAlias aliases kind name id ↔
    (row ∈ aliases ∧ row.isFor kind name = false) ∨ row = ⟨kind, name, id⟩ := by
  unfold writeEntityAlias
  split_ifs with present
  · rw [List.mem_map]
    constructor
    · intro ⟨before, member, equal⟩
      subst equal
      split_ifs with isName
      · obtain ⟨isKind, isAlias⟩ := is_for_iff.mp isName
        exact .inr (by rw [← isKind, ← isAlias])
      · exact .inl ⟨member, Bool.eq_false_iff.mpr isName⟩
    · rintro (⟨member, other⟩ | rfl)
      · exact ⟨row, member, by simp [other]⟩
      · obtain ⟨before, member, isName⟩ := List.any_eq_true.mp present
        obtain ⟨isKind, isAlias⟩ := is_for_iff.mp isName
        exact ⟨before, member, by rw [if_pos isName, isKind, isAlias]⟩
  · rw [List.mem_append, List.mem_singleton]
    refine or_congr_left ⟨fun member => ⟨member, ?_⟩, And.left⟩
    exact Bool.eq_false_iff.mpr fun isName => present (List.any_eq_true.mpr ⟨row, member, isName⟩)

theorem mem_delete_alias : row ∈ deleteEntityAlias aliases kind name ↔
    row ∈ aliases ∧ row.isFor kind name = false := by
  simp [deleteEntityAlias]

theorem mem_restore_alias (source : MergedSource) : row ∈ restoreAlias kind aliases source ↔
    (row ∈ aliases ∧ row.isFor kind source.name = false) ∨
      ∃ previous, source.previousAlias = some previous ∧ row = ⟨kind, source.name, previous⟩ := by
  unfold restoreAlias
  cases source.previousAlias with
  | some previous => simp [mem_write_alias]
  | none => simp [mem_delete_alias]

end Aliases

section Kept

structure SameNames (before after : Database) : Prop where
  names : ∀ kind, (after.taxa kind).names = (before.taxa kind).names
  links : ∀ kind, (after.taxa kind).links = (before.taxa kind).links
  aliases : after.aliases = before.aliases

theorem SameNames.refl (db : Database) : SameNames db db := ⟨fun _ => rfl, fun _ => rfl, rfl⟩

theorem write_photo_same {authorId : Int} {photo : Photo}
    (written : writePhoto db authorId photo = some after) : SameNames db after := by
  unfold writePhoto at written
  split_ifs at written
  cases written
  exact ⟨fun _ => rfl, fun _ => rfl, rfl⟩

theorem restore_photo_same {photo : Option Photo}
    (restored : restoreCanonicalPhoto db canonicalId photo = some after) :
    SameNames db after := by
  cases photo with
  | some photo => exact write_photo_same restored
  | none =>
      cases restored
      exact ⟨fun _ => rfl, fun _ => rfl, rfl⟩

theorem set_sort_same (db : Database) (kind : MergeEntity) (id : Int) (sort : Option String) :
    SameNames db (db.setTaxon kind (setSort (db.taxa kind) id sort)) := by
  refine ⟨fun other => ?_, fun other => ?_, rfl⟩
  · by_cases same : other = kind
    · subst same
      rw [set_taxon_same, set_sort_names]
    · rw [set_taxon_other same]
  · by_cases same : other = kind
    · subst same
      rw [set_taxon_same]
      rfl
    · rw [set_taxon_other same]

theorem SameNames.trans {middle : Database} (first : SameNames db middle)
    (second : SameNames middle after) : SameNames db after :=
  ⟨fun kind => (second.names kind).trans (first.names kind),
    fun kind => (second.links kind).trans (first.links kind), second.aliases.trans first.aliases⟩

theorem reconcile_same {sortBefore : Option String} {photoBefore : Option Photo}
    {sources : List MergedSource} {backfilled : Bool}
    (reconciled : reconcilePhotosAndSort kind canonicalId sortBefore photoBefore sources db =
      some (after, backfilled)) : SameNames db after := by
  unfold reconcilePhotosAndSort at reconciled
  dsimp only at reconciled
  obtain ⟨result, written, isResult⟩ := Option.map_eq_some_iff.mp reconciled
  cases isResult
  generalize isSort : (if kind.hasSort && sortBefore.isNone then sources.findSome? (·.sort)
    else none) = sort at written
  have sorted : SameNames db (if sort.isSome then
      db.setTaxon kind (setSort (db.taxa kind) canonicalId sort) else db) := by
    split_ifs
    · exact set_sort_same ..
    · exact .refl db
  split at written
  · exact sorted.trans (write_photo_same written)
  · cases written
    exact sorted

end Kept

section Moved

structure Absorbed (kind : MergeEntity) (canonicalId : Int) (sourceIds : List Int)
    (db after : Database) (sources : List MergedSource) : Prop where
  names : ∀ other, (after.taxa other).names = (db.taxa other).names
  others : ∀ other, other ≠ kind → after.taxa other = db.taxa other
  known : ∀ source ∈ sources, source.id ∈ sourceIds ∧
    (source.id, source.name) ∈ (db.taxa kind).names
  every : ∀ id ∈ sourceIds, ∃ source ∈ sources, source.id = id
  kept : ∀ book entity, entity ∉ sourceIds → (db.taxa kind).Linked book entity →
    (after.taxa kind).Linked book entity
  held : canonicalId ∉ sourceIds → ∀ source ∈ sources, ∀ link ∈ source.links,
    (after.taxa kind).Linked link.bookId canonicalId
  gives : canonicalId ∉ sourceIds → ∀ book, ∀ id ∈ sourceIds, (db.taxa kind).Linked book id →
    (after.taxa kind).Linked book canonicalId
  aliases : ∀ row, row ∈ after.aliases ↔
    (row ∈ db.aliases ∧ ∀ source ∈ sources, row.isFor kind source.name = false) ∨
      ∃ source ∈ sources, row = ⟨kind, source.name, canonicalId⟩

theorem absorb_linked (source : MergedSource) (book entity : Int) :
    ((absorb kind canonicalId db source).taxa kind).Linked book entity ↔
      ((db.taxa kind).Linked book entity ∨
        entity = canonicalId ∧ (db.taxa kind).Linked book source.id) ∧ entity ≠ source.id := by
  unfold absorb
  change ((db.setTaxon kind _).taxa kind).Linked book entity ↔ _
  rw [set_taxon_same, delete_links_linked, move_links_linked]

theorem absorb_names (source : MergedSource) (other : MergeEntity) :
    ((absorb kind canonicalId db source).taxa other).names = (db.taxa other).names := by
  unfold absorb
  change ((db.setTaxon kind _).taxa other).names = _
  by_cases same : other = kind
  · subst same
    rw [set_taxon_same]
    rfl
  · rw [set_taxon_other same]

theorem move_source_links_absorbed {sources : List MergedSource}
    (moved : moveSourceLinks kind canonicalId sourceIds db = some (after, sources)) :
    Absorbed kind canonicalId sourceIds db after sources := by
  induction sourceIds generalizing db sources with
  | nil =>
      cases moved
      exact ⟨fun _ => rfl, fun _ _ => rfl, by simp, by simp, fun _ _ _ linked => linked, by simp,
        by simp, by simp⟩
  | cons sourceId rest induction =>
      obtain ⟨source, isSource, later⟩ := Option.bind_eq_some_iff.mp moved
      obtain ⟨⟨last, others⟩, movedRest, isResult⟩ := Option.map_eq_some_iff.mp later
      cases isResult
      obtain ⟨found, fetched, rfl⟩ := Option.map_eq_some_iff.mp isSource
      have ih := induction movedRest
      constructor
      · exact fun other => (ih.names other).trans (absorb_names _ other)
      · intro other apart
        rw [ih.others other apart]
        exact set_taxon_other apart _
      · intro source member
        rcases List.mem_cons.mp member with rfl | inRest
        · exact ⟨List.mem_cons_self, fetched_name fetched⟩
        · obtain ⟨isId, live⟩ := ih.known source inRest
          rw [absorb_names] at live
          exact ⟨List.mem_cons_of_mem _ isId, live⟩
      · intro id member
        rcases List.mem_cons.mp member with rfl | inRest
        · exact ⟨_, List.mem_cons_self, rfl⟩
        · obtain ⟨source, sourceMem, same⟩ := ih.every id inRest
          exact ⟨source, List.mem_cons_of_mem _ sourceMem, same⟩
      · intro book entity apart linked
        rw [List.mem_cons, not_or] at apart
        exact ih.kept book entity apart.2 ((absorb_linked _ book entity).mpr
          ⟨.inl linked, apart.1⟩)
      · intro apart source member link linkMem
        rw [List.mem_cons, not_or] at apart
        rcases List.mem_cons.mp member with rfl | inRest
        · exact ih.kept _ _ apart.2 ((absorb_linked _ _ _).mpr
            ⟨.inr ⟨rfl, linked_of_fetched linkMem⟩, apart.1⟩)
        · exact ih.held apart.2 source inRest link linkMem
      · intro apart book id member linked
        rw [List.mem_cons, not_or] at apart
        by_cases isFirst : id = sourceId
        · subst isFirst
          exact ih.kept _ _ apart.2 ((absorb_linked _ _ _).mpr ⟨.inr ⟨rfl, linked⟩, apart.1⟩)
        · exact ih.gives apart.2 book id ((List.mem_cons.mp member).resolve_left isFirst)
            ((absorb_linked _ _ _).mpr ⟨.inl linked, isFirst⟩)
      · intro row
        rw [ih.aliases]
        unfold absorb
        dsimp only
        rw [mem_write_alias]
        simp only [List.mem_cons, forall_eq_or_imp, exists_eq_or_imp]
        constructor
        · rintro (⟨⟨member, apart⟩ | rfl, unnamed⟩ | written)
          · exact .inl ⟨member, apart, unnamed⟩
          · exact .inr (.inl rfl)
          · exact .inr (.inr written)
        · rintro (⟨member, apart, unnamed⟩ | rfl | written)
          · exact .inl ⟨.inl ⟨member, apart⟩, unnamed⟩
          · by_cases named : ∃ other ∈ others, other.name = found.1
            · obtain ⟨other, otherMem, same⟩ := named
              exact .inr ⟨other, otherMem, by rw [same]⟩
            · refine .inl ⟨.inr rfl, fun other otherMem => ?_⟩
              refine Bool.eq_false_iff.mpr fun isFor => named ⟨other, otherMem, ?_⟩
              exact (is_for_iff.mp isFor).2.symm
          · exact .inr written

end Moved

section Merged

structure Merged (kind : MergeEntity) (sourceIds : List Int) (canonicalId : Int)
    (db after : Database) (snapshot : MergeSnapshot) : Prop where
  canonical : snapshot.canonicalId = canonicalId
  apart : canonicalId ∉ sourceIds
  live : ∃ name, (canonicalId, name) ∈ (db.taxa kind).names
  names : ∀ other, (after.taxa other).names.Sublist (db.taxa other).names
  gone : ∀ pair ∈ (after.taxa kind).names, pair.1 ∉ sourceIds
  stays : ∀ other id name book, (id, name) ∈ (db.taxa other).names →
    (other = kind → id ∉ sourceIds) → (after.taxa other).Linked book id →
      (id, name) ∈ (after.taxa other).names
  known : ∀ source ∈ snapshot.sources, source.id ∈ sourceIds ∧
    (source.id, source.name) ∈ (db.taxa kind).names
  every : ∀ id ∈ sourceIds, ∃ source ∈ snapshot.sources, source.id = id
  others : ∀ other book id, other ≠ kind → (db.taxa other).Linked book id →
    (after.taxa other).Linked book id
  kept : ∀ book entity, entity ∉ sourceIds → (db.taxa kind).Linked book entity →
    (after.taxa kind).Linked book entity
  held : ∀ source ∈ snapshot.sources, ∀ link ∈ source.links,
    (after.taxa kind).Linked link.bookId canonicalId
  gives : ∀ book, ∀ id ∈ sourceIds, (db.taxa kind).Linked book id →
    (after.taxa kind).Linked book canonicalId
  aliases : ∀ row, row ∈ after.aliases ↔
    (row ∈ db.aliases ∧ ∀ source ∈ snapshot.sources, row.isFor kind source.name = false) ∨
      ∃ source ∈ snapshot.sources, row = ⟨kind, source.name, canonicalId⟩

theorem reap_links (sourceIds : List Int) (db : Database) (other : MergeEntity) :
    ((deleteSourcesAndReapTaxonomy kind sourceIds db).taxa other).links = (db.taxa other).links := by
  change ((db.setTaxon kind _).taxa other).links = _
  by_cases same : other = kind
  · subst same
    rw [set_taxon_same, (delete_rows_names sourceIds _).2]
  · rw [set_taxon_other same]

theorem deleted_names (sourceIds : List Int) (db : Database) (other : MergeEntity) :
    ((db.setTaxon kind (sourceIds.foldl deleteEntityRow (db.taxa kind))).taxa other).names =
      (db.taxa other).names.filter fun pair => !(other = kind && pair.1 ∈ sourceIds) := by
  by_cases same : other = kind
  · subst same
    rw [set_taxon_same, (delete_rows_names sourceIds _).1]
    exact List.filter_congr fun pair _ => by simp
  · rw [set_taxon_other same, List.filter_eq_self.mpr fun pair _ => by simp [same]]

theorem reap_names (sourceIds : List Int) (db : Database) (other : MergeEntity) :
    ((deleteSourcesAndReapTaxonomy kind sourceIds db).taxa other).names.Sublist
      ((db.taxa other).names.filter fun pair => !(other = kind && pair.1 ∈ sourceIds)) := by
  rw [← deleted_names]
  exact delete_orphans_names other _

theorem apply_merge_steps
    (applied : applyMerge kind sourceIds canonicalId db = some (after, snapshot)) :
    canonicalId ∉ sourceIds ∧ ∃ name sortBefore moved sources reconciled backfilled,
      fetchNameSort (db.taxa kind) canonicalId = some (name, sortBefore) ∧
      moveSourceLinks kind canonicalId sourceIds db = some (moved, sources) ∧
      reconcilePhotosAndSort kind canonicalId sortBefore
        (if kind = .author then loadPhotoSnapshot db canonicalId else none) sources moved =
          some (reconciled, backfilled) ∧
      deleteSourcesAndReapTaxonomy kind sourceIds reconciled = after ∧
      ⟨canonicalId, sortBefore, backfilled,
        if kind = .author then loadPhotoSnapshot db canonicalId else none,
        fetchLinkedBookIds (db.taxa kind) canonicalId, sources⟩ = snapshot := by
  unfold applyMerge at applied
  by_cases invalid : sourceIds = [] ∨ canonicalId ∈ sourceIds
  · rw [if_pos invalid] at applied
    cases applied
  rw [if_neg invalid] at applied
  simp only [Option.bind_eq_bind, Option.bind_eq_some_iff, Option.pure_def, Option.some.injEq,
    Prod.mk.injEq, Prod.exists] at applied
  obtain ⟨name, sortBefore, fetched, moved, sources, isMoved, reconciled, backfilled, isReconciled,
    isAfter, isSnapshot⟩ := applied
  exact ⟨(not_or.mp invalid).2, name, sortBefore, moved, sources, reconciled, backfilled, fetched,
    isMoved, isReconciled, isAfter, isSnapshot⟩

theorem apply_merge_merged
    (applied : applyMerge kind sourceIds canonicalId db = some (after, snapshot)) :
    Merged kind sourceIds canonicalId db after snapshot := by
  obtain ⟨apart, name, sortBefore, moved, sources, reconciled, backfilled, fetched, isMoved,
    isReconciled, rfl, rfl⟩ := apply_merge_steps applied
  have absorbed := move_source_links_absorbed isMoved
  have same := reconcile_same isReconciled
  have names (other : MergeEntity) : (reconciled.taxa other).names = (db.taxa other).names :=
    (same.names other).trans (absorbed.names other)
  have links (other : MergeEntity) (book id : Int) :
      ((deleteSourcesAndReapTaxonomy kind sourceIds reconciled).taxa other).Linked book id ↔
        (moved.taxa other).Linked book id := by
    unfold Taxon.Linked
    rw [reap_links, same.links]
  have swept (other : MergeEntity) :
      ((deleteSourcesAndReapTaxonomy kind sourceIds reconciled).taxa other).names.Sublist
        ((db.taxa other).names.filter fun pair => !(other = kind && pair.1 ∈ sourceIds)) := by
    rw [← names]
    exact reap_names sourceIds reconciled other
  constructor
  · rfl
  · exact apart
  · exact ⟨name, fetched_name fetched⟩
  · exact fun other => (swept other).trans List.filter_sublist
  · intro pair member
    have kept := (List.mem_filter.mp ((swept kind).subset member)).2
    simpa using kept
  · intro other id name book live notSource linked
    have alive : (id, name) ∈ ((reconciled.setTaxon kind
        (sourceIds.foldl deleteEntityRow (reconciled.taxa kind))).taxa other).names := by
      rw [deleted_names, names]
      refine List.mem_filter.mpr ⟨live, ?_⟩
      simpa [imp_iff_not_or] using notSource
    exact delete_orphans_keeps alive linked
  · exact absorbed.known
  · exact absorbed.every
  · intro other book id notKind linked
    rw [links, absorbed.others other notKind]
    exact linked
  · intro book entity notSource linked
    rw [links]
    exact absorbed.kept book entity notSource linked
  · intro source member link linkMem
    rw [links]
    exact absorbed.held apart source member link linkMem
  · intro book id member linked
    rw [links]
    exact absorbed.gives apart book id member linked
  · intro row
    change row ∈ reconciled.aliases ↔ _
    rw [same.aliases]
    exact absorbed.aliases row

end Merged

section Undone

/-- The undo takes the canonical's link for the book of a source. -/
def Takes (snapshot : MergeSnapshot) (sources : List MergedSource) (book entity : Int) : Prop :=
  entity = snapshot.canonicalId ∧ book ∉ snapshot.canonicalBookIdsBefore ∧
    ∃ source ∈ sources, ∃ link ∈ source.links, link.bookId = book

structure Restored (kind : MergeEntity) (snapshot : MergeSnapshot) (sources : List MergedSource)
    (db after : Database) : Prop where
  others : ∀ other, other ≠ kind → (after.taxa other).names = (db.taxa other).names ∧
    (after.taxa other).links = (db.taxa other).links
  stays : ∀ pair ∈ (db.taxa kind).names, pair ∈ (after.taxa kind).names
  comes : ∀ pair ∈ (after.taxa kind).names, pair ∈ (db.taxa kind).names ∨
    ∃ source ∈ sources, pair.2 = source.name
  distinct : (db.taxa kind).Distinct → (after.taxa kind).Distinct
  kept : ∀ book entity, (db.taxa kind).Linked book entity →
    ¬Takes snapshot sources book entity → (after.taxa kind).Linked book entity
  aliasStays : ∀ row ∈ db.aliases, (∀ source ∈ sources, row.isFor kind source.name = false) →
    row ∈ after.aliases
  aliasComes : ∀ row ∈ after.aliases, row ∈ db.aliases ∨ ∃ source ∈ sources,
    ∃ previous, source.previousAlias = some previous ∧ row = ⟨kind, source.name, previous⟩

theorem restore_links_kept (kind : MergeEntity) (snapshot : MergeSnapshot) (newId : Int)
    (links : List BookLink) (taxon : Taxon) :
    (links.foldl (restoreLink kind snapshot newId) taxon).names = taxon.names ∧
      ∀ book entity, taxon.Linked book entity →
        ¬(entity = snapshot.canonicalId ∧ book ∉ snapshot.canonicalBookIdsBefore ∧
          ∃ link ∈ links, link.bookId = book) →
            (links.foldl (restoreLink kind snapshot newId) taxon).Linked book entity := by
  induction links generalizing taxon with
  | nil => exact ⟨rfl, fun _ _ linked _ => linked⟩
  | cons link links induction =>
      rw [List.foldl_cons]
      have names : (restoreLink kind snapshot newId taxon link).names = taxon.names := by
        unfold restoreLink
        dsimp only
        split_ifs <;> rfl
      refine ⟨(induction _).1.trans names, fun book entity linked untaken => ?_⟩
      refine (induction _).2 book entity ?_ fun ⟨isCanonical, isNew, other, member, same⟩ =>
        untaken ⟨isCanonical, isNew, other, List.mem_cons_of_mem _ member, same⟩
      unfold restoreLink
      dsimp only
      split_ifs with before
      · exact (insert_link_linked ..).mpr (.inl linked)
      · refine (delete_link_linked ..).mpr ⟨(insert_link_linked ..).mpr (.inl linked), ?_⟩
        intro ⟨equal, isCanonical⟩
        subst equal
        exact untaken ⟨isCanonical, before, link, List.mem_cons_self, rfl⟩

theorem restore_source_restored {source : MergedSource}
    (restored : restoreSource kind snapshot db source = some after) :
    Restored kind snapshot [source] db after := by
  unfold restoreSource at restored
  dsimp only at restored
  obtain ⟨pictured, isPictured, rfl⟩ := Option.map_eq_some_iff.mp restored
  have recreated := recreate_entity_names kind (db.taxa kind) source.name source.sort
  generalize recreateEntity kind (db.taxa kind) source.name source.sort = result
    at isPictured recreated
  obtain ⟨names, links⟩ := recreated
  have relinked := restore_links_kept kind snapshot result.2 source.links result.1
  generalize source.links.foldl (restoreLink kind snapshot result.2) result.1 = taxon
    at isPictured relinked
  have same : SameNames (db.setTaxon kind taxon) pictured := by
    split at isPictured
    · exact write_photo_same isPictured
    · cases isPictured
      exact .refl _
  have takenNames : (pictured.taxa kind).names = result.1.names := by
    rw [same.names, set_taxon_same, relinked.1]
  constructor
  · intro other apart
    rw [same.names, same.links, set_taxon_other apart]
    exact ⟨rfl, rfl⟩
  · intro pair member
    rw [takenNames]
    rcases names with isSame | ⟨isNew, _⟩
    · exact isSame ▸ member
    · exact isNew ▸ List.mem_append_left _ member
  · intro pair member
    rw [takenNames] at member
    rcases names with isSame | ⟨isNew, _⟩
    · exact .inl (isSame ▸ member)
    · rw [isNew, List.mem_append, List.mem_singleton] at member
      rcases member with before | rfl
      · exact .inl before
      · exact .inr ⟨source, List.mem_cons_self, rfl⟩
  · intro distinct
    unfold Taxon.Distinct
    rw [takenNames]
    rcases names with isSame | ⟨isNew, fresh⟩
    · rw [isSame]
      exact distinct
    · rw [isNew, List.pairwise_append]
      refine ⟨distinct, List.pairwise_singleton .., fun left leftMem right rightMem => ?_⟩
      rw [List.mem_singleton.mp rightMem]
      exact fresh left leftMem
  · intro book entity linked untaken
    unfold Taxon.Linked
    rw [same.links, set_taxon_same]
    refine relinked.2 book entity ?_ fun ⟨isCanonical, isNew, link, member, isBook⟩ =>
      untaken ⟨isCanonical, isNew, source, List.mem_cons_self, link, member, isBook⟩
    unfold Taxon.Linked
    rw [links]
    exact linked
  · intro row member unnamed
    refine (mem_restore_alias source).mpr (.inl ⟨?_, unnamed source List.mem_cons_self⟩)
    rw [same.aliases]
    exact member
  · intro row member
    rcases (mem_restore_alias source).mp member with ⟨before, _⟩ | ⟨previous, isPrevious, isRow⟩
    · rw [same.aliases] at before
      exact .inl before
    · exact .inr ⟨source, List.mem_cons_self, previous, isPrevious, isRow⟩

theorem restore_sources_restored {sources : List MergedSource}
    (restored : sources.foldlM (restoreSource kind snapshot) db = some after) :
    Restored kind snapshot sources db after := by
  induction sources generalizing db with
  | nil =>
      cases restored
      exact ⟨fun _ _ => ⟨rfl, rfl⟩, fun _ member => member, fun _ member => .inl member,
        fun distinct => distinct, fun _ _ linked _ => linked, fun _ member _ => member,
        fun _ member => .inl member⟩
  | cons source sources induction =>
      rw [List.foldlM_cons] at restored
      obtain ⟨middle, first, later⟩ := Option.bind_eq_some_iff.mp restored
      have one := restore_source_restored first
      have rest := induction later
      constructor
      · intro other apart
        exact ⟨(rest.others other apart).1.trans (one.others other apart).1,
          (rest.others other apart).2.trans (one.others other apart).2⟩
      · exact fun pair member => rest.stays pair (one.stays pair member)
      · intro pair member
        rcases rest.comes pair member with earlier | ⟨other, otherMem, isName⟩
        · rcases one.comes pair earlier with before | ⟨other, otherMem, isName⟩
          · exact .inl before
          · rw [List.mem_singleton.mp otherMem] at isName
            exact .inr ⟨source, List.mem_cons_self, isName⟩
        · exact .inr ⟨other, List.mem_cons_of_mem _ otherMem, isName⟩
      · exact fun distinct => rest.distinct (one.distinct distinct)
      · intro book entity linked untaken
        refine rest.kept book entity (one.kept book entity linked ?_) ?_
        · intro ⟨isCanonical, isNew, other, otherMem, link, member, isBook⟩
          rw [List.mem_singleton.mp otherMem] at member
          exact untaken ⟨isCanonical, isNew, source, List.mem_cons_self, link, member, isBook⟩
        · intro ⟨isCanonical, isNew, other, otherMem, link⟩
          exact untaken ⟨isCanonical, isNew, other, List.mem_cons_of_mem _ otherMem, link⟩
      · intro row member unnamed
        refine rest.aliasStays row (one.aliasStays row member fun other otherMem => ?_)
          fun other otherMem => unnamed other (List.mem_cons_of_mem _ otherMem)
        rw [List.mem_singleton.mp otherMem]
        exact unnamed source List.mem_cons_self
      · intro row member
        rcases rest.aliasComes row member with earlier | ⟨other, otherMem, written⟩
        · rcases one.aliasComes row earlier with before | ⟨other, otherMem, written⟩
          · exact .inl before
          · rw [List.mem_singleton.mp otherMem] at written
            exact .inr ⟨source, List.mem_cons_self, written⟩
        · exact .inr ⟨other, List.mem_cons_of_mem _ otherMem, written⟩

theorem undo_merge_restored (undone : undoMerge kind snapshot db = some after) :
    Restored kind snapshot snapshot.sources db after := by
  unfold undoMerge at undone
  obtain ⟨restored, isRestored, later⟩ := Option.bind_eq_some_iff.mp undone
  have sources := restore_sources_restored isRestored
  have same : SameNames restored after := by
    dsimp only at later
    have cleared : SameNames restored (if snapshot.canonicalSortWasBackfilled then
        restored.setTaxon kind (setSort (restored.taxa kind) snapshot.canonicalId none)
      else restored) := by
      split_ifs
      · exact set_sort_same ..
      · exact .refl _
    generalize (if snapshot.canonicalSortWasBackfilled then
        restored.setTaxon kind (setSort (restored.taxa kind) snapshot.canonicalId none)
      else restored) = middle at cleared later
    split_ifs at later
    · exact cleared.trans (restore_photo_same later)
    · cases later
      exact cleared
  constructor
  · intro other apart
    rw [same.names, same.links]
    exact sources.others other apart
  · rw [same.names]
    exact sources.stays
  · rw [same.names]
    exact sources.comes
  · unfold Taxon.Distinct
    rw [same.names]
    exact sources.distinct
  · unfold Taxon.Linked
    rw [same.links]
    exact sources.kept
  · rw [same.aliases]
    exact sources.aliasStays
  · rw [same.aliases]
    exact sources.aliasComes

end Undone

end Omnibus.Cleanup
