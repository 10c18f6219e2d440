import Mathlib.Data.List.SplitBy
import Omnibus.BookPages.Walked

/-!
# Pages with series folded

`list_books_page_stacked`: the pages of each series' representative row, chosen by a window over
everything the request admits, and the members of a page's series, fetched in chunks and regrouped
by runs of equal keys.
-/

namespace Omnibus.BookPages

open Omnibus.Library.Strings Omnibus.Library.Keyset

def inChunk : Nat := 500

/-- `chunks` of a slice. -/
def chunks {Key : Type*} (size : Nat) : List Key → List (List Key)
  | [] => []
  | key :: rest => (key :: rest.take (size - 1)) :: chunks size (rest.drop (size - 1))
termination_by keys => keys.length
decreasing_by
  rw [List.length_cons, List.length_drop]
  omega

def linkedSeries (db : Database) (row : Listed) : Option Text :=
  (sortBy (compareOn nocase) ((db.series.filter fun series =>
    (row.book.id, series.id) ∈ db.booksSeries).map (·.name))).head?

/-- The key books stack by: the series an override names, or else the linked one, without case and
the spaces around it; none where nothing is left. -/
def groupKey (db : Database) (row : Listed) : Option Text :=
  nullIfEmpty (((overridePresent (·.series) row).or (linkedSeries db row)).map fun name =>
    (trimSpaces name).map Char.toLower)

structure SeriesStack where
  lead : Listed
  members : List Listed

structure StackedBookPage where
  books : List Listed
  next : Option PageCursor
  seriesStacks : List SeriesStack

section Stacks

variable (functions : Functions) (db : Database)

/-- Series order: numbered members first, ties by the displayed title and the id. -/
def memberCmp (left right : Listed) : Ordering :=
  let title := effectiveText (·.title) (·.book.title)
  let index := effectiveIndex functions
  (((compare (index left).isNone (index right).isNone).then
    (nullsFirst compare (index left) (index right))).then
      (nullsFirst (dictionaryCmp functions) (title left) (title right))).then
        (compare left.book.id right.book.id)

/-- The row leads its partition, or has no key. -/
def representative (sort : SortKey) (dir : SortDir) (request : Request) (row : Listed) : Bool :=
  groupKey db row = none ||
    (sortBy (pageCmp functions db sort dir) ((counted db request).filter fun other =>
      groupKey db other = groupKey db row)).head? = some row

/-- The members of a chunk's series under their keys, ordered by the key first. -/
def memberRows (request : Request) (ids : List Int) : List (Text × Listed) :=
  let keys := (db.joined.filter fun row => row.book.id ∈ ids).filterMap (groupKey db)
  sortBy (fun left right : Text × Listed =>
    (compare left.1 right.1).then (memberCmp functions left.2 right.2))
    ((counted db request).filterMap fun row =>
      (groupKey db row).bind fun key => if key ∈ keys then some (key, row) else none)

def groupRuns (rows : List (Text × Listed)) : List (List Listed) :=
  (rows.splitBy fun left right => left.1 = right.1).map fun run => run.map (·.2)

def fetchMemberGroups (request : Request) (ids : List Int) : List (List Listed) :=
  groupRuns ((chunks inChunk ids).flatMap (memberRows functions db request))

/-- The stacks riding with a page: the groups of two members or more, led by the first member that
is a row of the page. -/
def buildStacks (request : Request) (page : List Listed) : List SeriesStack :=
  let groups := fetchMemberGroups functions db request (page.map (·.book.id))
  (groups.filter fun members => 2 ≤ members.length).filterMap fun members =>
    (members.findSome? fun member => page.find? (·.book.id = member.book.id)).map fun lead =>
      ⟨lead, members⟩

def listBooksPageStacked (sort : SortKey) (dir : SortDir) (request : Request)
    (cursor : Option PageCursor) (limit : Int) : StackedBookPage :=
  let page := fetchPage functions db sort dir request (representative functions db sort dir request)
    cursor limit
  { books := page.books
    next := page.next
    seriesStacks := if page.books = [] then [] else buildStacks functions db request page.books }

end Stacks

theorem chunks_flatten {Key : Type*} (size : Nat) (keys : List Key) :
    (chunks size keys).flatten = keys := by
  fun_induction chunks size keys with
  | case1 => rfl
  | case2 key rest induction =>
      rw [List.flatten_cons, induction, List.cons_append, List.take_append_drop]

theorem chunks_map {Key Image : Type*} (size : Nat) (image : Key → Image) (keys : List Key) :
    chunks size (keys.map image) = (chunks size keys).map fun chunk => chunk.map image := by
  fun_induction chunks size keys with
  | case1 => rw [List.map_nil, chunks, List.map_nil]
  | case2 key rest induction =>
      rw [List.map_cons, chunks, ← List.map_take, ← List.map_drop, induction, List.map_cons,
        List.map_cons]

section Members

variable (functions : Functions) (db : Database) (request : Request)

instance : Std.TransCmp (memberCmp functions) := by
  have numbered := trans_on (compare : Bool → Bool → Ordering)
    (fun row : Listed => (effectiveIndex functions row).isNone)
  have index := trans_on (nullsFirst compare) (effectiveIndex functions)
  have title := trans_on (nullsFirst (dictionaryCmp functions))
    (effectiveText (·.title) (·.book.title))
  have ids := trans_on (compare : Int → Int → Ordering) fun row : Listed => row.book.id
  exact trans_then _ _ (trans_then _ _ (trans_then _ _ numbered index) title) ids

theorem member_cmp_tells (rows : List Listed) (within : rows ⊆ db.joined) :
    Tells (memberCmp functions) rows := by
  intro left leftMem right rightMem same
  have ids := (Ordering.then_eq_eq.mp same).2
  rw [Std.LawfulEqOrd.compare_eq_iff_eq] at ids
  exact List.inj_on_of_nodup_map (joined_ids db) (within leftMem) (within rightMem) ids

def membersOf (key : Text) : List Listed :=
  sortBy (memberCmp functions) ((counted db request).filter fun row => groupKey db row = some key)

theorem counted_joined : counted db request ⊆ db.joined := by
  rw [← eligible_unstacked]
  exact eligible_joined db request unstacked

theorem counted_nodup : (counted db request).Nodup := by
  rw [← eligible_unstacked]
  exact eligible_nodup db request unstacked

theorem mem_members_of (key : Text) (row : Listed) :
    row ∈ membersOf functions db request key ↔
      row ∈ counted db request ∧ groupKey db row = some key := by
  rw [membersOf, (sort_by_perm _ _).mem_iff, List.mem_filter, decide_eq_true_eq]

theorem members_of_nodup (key : Text) : (membersOf functions db request key).Nodup :=
  (sort_by_perm _ _).nodup_iff.mpr ((counted_nodup db request).filter _)

def keyed (key : Text) : List (Text × Listed) :=
  (membersOf functions db request key).map fun row => (key, row)

def keyedCmp (left right : Text × Listed) : Ordering :=
  (compare left.1 right.1).then (memberCmp functions left.2 right.2)

instance : Std.TransCmp (keyedCmp functions) :=
  trans_then _ _ (trans_on (compare : Text → Text → Ordering) Prod.fst)
    (trans_on (memberCmp functions) Prod.snd)

def sortedKeys (chunk : List Listed) : List Text :=
  sortBy (compare : Text → Text → Ordering) (chunk.filterMap (groupKey db))

theorem mem_keyed (key : Text) (entry : Text × Listed) :
    entry ∈ keyed functions db request key ↔ entry.1 = key ∧ entry.2 ∈ counted db request ∧
      groupKey db entry.2 = some entry.1 := by
  rw [keyed, List.mem_map]
  constructor
  · intro ⟨row, member, equal⟩
    subst equal
    exact ⟨rfl, (mem_members_of functions db request key row).mp member⟩
  · intro ⟨equal, member⟩
    subst equal
    exact ⟨entry.2, (mem_members_of functions db request entry.1 entry.2).mpr member, rfl⟩

section Chunk

variable (chunk : List Listed) (within : chunk ⊆ db.joined)
  (distinct : (chunk.filterMap (groupKey db)).Nodup)

include within in
theorem chunk_keys (key : Text) :
    key ∈ (db.joined.filter fun row =>
      row.book.id ∈ chunk.map (·.book.id)).filterMap (groupKey db) ↔
      key ∈ chunk.filterMap (groupKey db) := by
  rw [List.mem_filterMap, List.mem_filterMap]
  constructor
  · intro ⟨row, member, own⟩
    rw [List.mem_filter, decide_eq_true_eq] at member
    obtain ⟨other, inChunk', same⟩ := List.mem_map.mp member.2
    obtain rfl := List.inj_on_of_nodup_map (joined_ids db) (within inChunk') member.1 same
    exact ⟨other, inChunk', own⟩
  · intro ⟨row, member, own⟩
    refine ⟨row, List.mem_filter.mpr ⟨within member, ?_⟩, own⟩
    exact decide_eq_true (List.mem_map_of_mem member)

include within distinct in
theorem member_rows_chunk :
    memberRows functions db request (chunk.map (·.book.id)) =
      (sortedKeys db chunk).flatMap (keyed functions db request) := by
  have keys (key : Text) : key ∈ sortedKeys db chunk ↔ key ∈ chunk.filterMap (groupKey db) :=
    (sort_by_perm _ _).mem_iff
  have strict : (sortedKeys db chunk).Pairwise fun left right => compare left right = .lt :=
    sort_by_strict _ _ (fun left _ right _ same => Std.LawfulEqOrd.compare_eq_iff_eq.mp same) distinct
  have blocks : ((sortedKeys db chunk).flatMap (keyed functions db request)).Nodup := by
    rw [List.nodup_flatMap]
    constructor
    · intro key _
      exact (members_of_nodup functions db request key).map fun left right same =>
        (Prod.mk.inj same).2
    · apply strict.imp
      intro left right less entry first second
      rw [mem_keyed] at first second
      rw [← first.1, ← second.1, @Std.ReflCmp.compare_self _ (compare : Text → Text → Ordering) _ _]
        at less
      cases less
  have inside (entry : Text × Listed)
      (member : entry ∈ (counted db request).filterMap fun row => (groupKey db row).bind fun key =>
        if key ∈ (db.joined.filter fun row => row.book.id ∈ chunk.map (·.book.id)).filterMap
          (groupKey db) then some (key, row) else none) :
      entry.2 ∈ counted db request ∧ groupKey db entry.2 = some entry.1 ∧
        entry.1 ∈ sortedKeys db chunk := by
    obtain ⟨row, counted', bound⟩ := List.mem_filterMap.mp member
    obtain ⟨key, own, chosen⟩ := Option.bind_eq_some_iff.mp bound
    rw [Option.ite_none_right_eq_some, chunk_keys db chunk within, ← keys] at chosen
    obtain ⟨wanted, same⟩ := chosen
    obtain rfl := Option.some.inj same
    exact ⟨counted', own, wanted⟩
  symm
  apply sort_by_unique (keyedCmp functions)
  · intro left leftMem right rightMem same
    have rows := member_cmp_tells functions db _ (counted_joined db request) left.2
      (inside left leftMem).1 right.2 (inside right rightMem).1 (Ordering.then_eq_eq.mp same).2
    have own := (inside left leftMem).2.1
    rw [rows, (inside right rightMem).2.1] at own
    exact Prod.ext (Option.some.inj own).symm rows
  · rw [List.perm_ext_iff_of_nodup blocks]
    · intro entry
      constructor
      · intro member
        obtain ⟨key, wanted, block⟩ := List.mem_flatMap.mp member
        obtain ⟨rfl, counted', own⟩ := (mem_keyed functions db request key entry).mp block
        refine List.mem_filterMap.mpr ⟨entry.2, counted', ?_⟩
        rw [own, Option.bind_some, if_pos]
        rw [chunk_keys db chunk within, ← keys]
        exact wanted
      · intro member
        obtain ⟨counted', own, wanted⟩ := inside entry member
        exact List.mem_flatMap.mpr ⟨entry.1, wanted,
          (mem_keyed functions db request entry.1 entry).mpr ⟨rfl, counted', own⟩⟩
    · apply List.Nodup.filterMap _ (counted_nodup db request)
      intro left right entry first second
      obtain ⟨key, -, chosen⟩ := Option.bind_eq_some_iff.mp first
      obtain ⟨key', -, chosen'⟩ := Option.bind_eq_some_iff.mp second
      rw [Option.ite_none_right_eq_some, Option.some.injEq] at chosen chosen'
      exact (Prod.mk.inj (chosen.2.trans chosen'.2.symm)).2
  · rw [List.pairwise_flatMap]
    constructor
    · intro key _
      rw [keyed, List.pairwise_map]
      apply (sort_by_pairwise (memberCmp functions) _).imp
      intro left right le
      simpa [keyedCmp] using le
    · apply strict.imp
      intro left right less first firstMem second secondMem
      rw [mem_keyed] at firstMem secondMem
      rw [keyedCmp, firstMem.1, secondMem.1, less]
      rfl

end Chunk

theorem group_runs_keyed (keys : List Text) (distinct : keys.Nodup)
    (some' : ∀ key ∈ keys, membersOf functions db request key ≠ []) :
    groupRuns (keys.flatMap (keyed functions db request)) =
      keys.map (membersOf functions db request) := by
  have runs : (keys.map (keyed functions db request)).flatten.splitBy
      (fun left right => left.1 = right.1) = keys.map (keyed functions db request) := by
    have own (key : Text) (entry : Text × Listed) (member : entry ∈ keyed functions db request key) :
        entry.1 = key := ((mem_keyed functions db request key entry).mp member).1
    have present (key : Text) (member : key ∈ keys) : keyed functions db request key ≠ [] := by
      rw [keyed, ne_eq, List.map_eq_nil_iff]
      exact some' key member
    apply List.splitBy_flatten
    · intro empty
      obtain ⟨key, member, none'⟩ := List.mem_map.mp empty
      exact present key member none'
    · intro run member
      obtain ⟨key, _, rfl⟩ := List.mem_map.mp member
      apply List.Pairwise.isChain
      apply List.pairwise_of_forall_mem_list
      intro left leftMem right rightMem
      simp [own key left leftMem, own key right rightMem]
    · rw [List.isChain_map]
      apply List.Pairwise.isChain
      apply List.Pairwise.imp_of_mem _ distinct
      intro left right leftMem rightMem apart
      refine ⟨present left leftMem, present right rightMem, ?_⟩
      rw [own left _ (List.getLast_mem _), own right _ (List.head_mem _)]
      simpa using apart
  rw [groupRuns, List.flatMap_def, runs, List.map_map]
  apply List.map_congr_left
  intro key _
  simp [keyed, Function.comp_def]

section Page

variable (page : List Listed) (admitted : page ⊆ counted db request)
  (distinct : (page.filterMap (groupKey db)).Nodup)

include admitted distinct

theorem fetch_member_groups_page :
    ∃ keys : List Text, keys.Perm (page.filterMap (groupKey db)) ∧
      fetchMemberGroups functions db request (page.map (·.book.id)) =
        keys.map (membersOf functions db request) := by
  have sub (chunk : List Listed) (member : chunk ∈ chunks inChunk page) : chunk.Sublist page := by
    have inner := List.sublist_flatten_of_mem member
    rwa [chunks_flatten] at inner
  have same : ((chunks inChunk page).flatMap (sortedKeys db)).Perm
      (page.filterMap (groupKey db)) := by
    have whole : page.filterMap (groupKey db) =
        (chunks inChunk page).flatMap fun chunk => chunk.filterMap (groupKey db) := by
      conv_lhs => rw [← chunks_flatten inChunk page]
      rw [List.filterMap_flatten, List.flatMap_def]
    rw [whole]
    exact List.Perm.flatMap_left _ fun chunk _ => sort_by_perm _ _
  refine ⟨_, same, ?_⟩
  have rows : (chunks inChunk (page.map (·.book.id))).flatMap (memberRows functions db request) =
      ((chunks inChunk page).flatMap (sortedKeys db)).flatMap (keyed functions db request) := by
    rw [chunks_map, List.flatMap_map, List.flatMap_assoc]
    apply List.flatMap_congr
    intro chunk member
    apply member_rows_chunk
    · exact fun row inChunk' => counted_joined db request (admitted ((sub chunk member).subset inChunk'))
    · exact distinct.sublist ((sub chunk member).filterMap _)
  rw [fetchMemberGroups, rows]
  apply group_runs_keyed
  · exact same.nodup_iff.mpr distinct
  · intro key wanted
    obtain ⟨row, member, own⟩ := List.mem_filterMap.mp (same.mem_iff.mp wanted)
    exact List.ne_nil_of_mem
      ((mem_members_of functions db request key row).mpr ⟨admitted member, own⟩)

def stackOf (row : Listed) : Option SeriesStack :=
  (groupKey db row).bind fun key =>
    if 2 ≤ (membersOf functions db request key).length then
      some ⟨row, membersOf functions db request key⟩
    else none

omit admitted in
theorem distinct_keys (left right : Listed) (leftMem : left ∈ page) (rightMem : right ∈ page)
    (key : Text) (own : groupKey db left = some key) (same : groupKey db right = some key) :
    left = right := by
  by_contra apart
  obtain ⟨before, after, rfl⟩ := List.append_of_mem leftMem
  rw [List.filterMap_append, List.filterMap_cons, own] at distinct
  have here := List.nodup_middle.mp distinct
  rw [List.nodup_cons, ← List.filterMap_append] at here
  apply here.1
  apply List.mem_filterMap.mpr ⟨right, _, same⟩
  rcases List.mem_append.mp rightMem with earlier | later
  · exact List.mem_append_left _ earlier
  · exact List.mem_append_right _ ((List.mem_cons.mp later).resolve_left (Ne.symm apart))

theorem lead_of (row : Listed) (member : row ∈ page) (key : Text) (own : groupKey db row = some key) :
    ((membersOf functions db request key).findSome? fun other =>
      page.find? (·.book.id = other.book.id)) = some row := by
  have found (other : Listed) (inside : other ∈ membersOf functions db request key) (lead : Listed)
      (found : page.find? (·.book.id = other.book.id) = some lead) : lead = row := by
    have listed := List.mem_of_find?_eq_some found
    have ids := List.find?_some found
    obtain ⟨counted', grouped⟩ := (mem_members_of functions db request key other).mp inside
    obtain rfl := List.inj_on_of_nodup_map (joined_ids db)
      (counted_joined db request (admitted listed)) (counted_joined db request counted')
      (of_decide_eq_true ids)
    exact distinct_keys db page distinct lead row listed member key grouped own
  cases search : (membersOf functions db request key).findSome? fun other =>
      page.find? (·.book.id = other.book.id) with
  | some lead =>
      obtain ⟨other, inside, here⟩ := List.exists_of_findSome?_eq_some search
      exact congrArg some (found other inside lead here)
  | none =>
      exfalso
      have absent := List.findSome?_eq_none_iff.mp search row
        ((mem_members_of functions db request key row).mpr ⟨admitted member, own⟩)
      exact List.find?_eq_none.mp absent row member (decide_eq_true rfl)

theorem build_stacks_page :
    (buildStacks functions db request page).Perm
      (page.filterMap (stackOf functions db request)) := by
  obtain ⟨keys, same, fetched⟩ := fetch_member_groups_page functions db request page admitted distinct
  have stacked : buildStacks functions db request page = keys.filterMap fun key =>
      if 2 ≤ (membersOf functions db request key).length then
        ((membersOf functions db request key).findSome? fun other =>
          page.find? (·.book.id = other.book.id)).map fun lead =>
            ⟨lead, membersOf functions db request key⟩
      else none := by
    rw [buildStacks, fetched, List.filterMap_filter, List.filterMap_map]
    apply List.filterMap_congr
    intro key _
    simp
  rw [stacked]
  apply (same.filterMap _).trans
  rw [List.filterMap_filterMap]
  apply List.Perm.of_eq
  apply List.filterMap_congr
  intro row member
  rw [stackOf]
  cases own : groupKey db row with
  | none => rfl
  | some key =>
      rw [Option.bind_some, Option.bind_some,
        lead_of functions db request page admitted distinct row member key own]
      rfl

end Page

end Members

end Omnibus.BookPages
