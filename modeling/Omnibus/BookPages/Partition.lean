import Omnibus.BookPages.Stacked

/-!
# No book lost to stacking

A row of a stacked walk stands for itself or for its series, and the representatives stand for
every book once.
-/

namespace Omnibus.BookPages

open Omnibus.Library.Strings Omnibus.Library.Keyset

section Bundles

variable (functions : Functions) (db : Database) (request : Request)

def bundle (row : Listed) : List Listed :=
  match stackOf functions db request row with
  | some stack => stack.members
  | none => [row]

theorem stack_of_some (row : Listed) (stack : SeriesStack)
    (stacked : stackOf functions db request row = some stack) :
    stack.lead = row ∧ 2 ≤ stack.members.length ∧ ∃ key, groupKey db row = some key ∧
      stack.members = membersOf functions db request key := by
  obtain ⟨key, own, chosen⟩ := Option.bind_eq_some_iff.mp stacked
  rw [Option.ite_none_right_eq_some, Option.some.injEq] at chosen
  obtain ⟨several, rfl⟩ := chosen
  exact ⟨rfl, several, key, own, rfl⟩

theorem mem_bundle (row : Listed) (listed : row ∈ counted db request) (book : Listed) :
    book ∈ bundle functions db request row ↔ book ∈ counted db request ∧
      (book = row ∨ ∃ key, groupKey db row = some key ∧ groupKey db book = some key) := by
  rw [bundle]
  split
  · rename_i stack stacked
    obtain ⟨-, -, key, own, same⟩ := stack_of_some functions db request row stack stacked
    rw [same, mem_members_of]
    constructor
    · intro ⟨member, grouped⟩
      exact ⟨member, Or.inr ⟨key, own, grouped⟩⟩
    · rintro ⟨member, rfl | ⟨key', own', grouped⟩⟩
      · exact ⟨member, own⟩
      · rw [own] at own'
        exact ⟨member, own' ▸ grouped⟩
  · rename_i alone
    rw [List.mem_singleton]
    constructor
    · intro equal
      subst equal
      exact ⟨listed, Or.inl rfl⟩
    · rintro ⟨member, rfl | ⟨key, own, grouped⟩⟩
      · rfl
      · rw [stackOf, own, Option.bind_some, ite_eq_right_iff] at alone
        have few : (membersOf functions db request key).length ≤ 1 := by
          by_contra several
          cases alone (by omega)
        have one := (mem_members_of functions db request key book).mpr ⟨member, grouped⟩
        have other := (mem_members_of functions db request key row).mpr ⟨listed, own⟩
        generalize membersOf functions db request key = members at few one other
        rcases members with - | ⟨only, - | ⟨_, _⟩⟩
        · cases one
        · rw [List.mem_singleton] at one other
          rw [one, other]
        · simp at few

theorem bundle_nodup (row : Listed) : (bundle functions db request row).Nodup := by
  rw [bundle]
  split
  · rename_i stack stacked
    obtain ⟨-, -, key, -, same⟩ := stack_of_some functions db request row stack stacked
    rw [same]
    exact members_of_nodup functions db request key
  · exact List.nodup_singleton row

/-- The rows that lead no stack and the members of the stacks are what the rows stand for. -/
theorem bundles_perm (rows : List Listed) :
    (rows.filter (fun row => (stackOf functions db request row).isNone) ++
      (rows.filterMap (stackOf functions db request)).flatMap (·.members)).Perm
      (rows.flatMap (bundle functions db request)) := by
  induction rows with
  | nil => exact List.Perm.refl _
  | cons row rest induction =>
      rw [List.flatMap_cons, List.filter_cons, List.filterMap_cons, bundle]
      cases stackOf functions db request row with
      | none => exact induction.cons row
      | some stack =>
          simp only [Option.isNone_some, Bool.false_eq_true, if_false, List.flatMap_cons]
          refine List.Perm.trans ?_ (induction.append_left stack.members)
          rw [← List.append_assoc, ← List.append_assoc]
          exact List.Perm.append_right _ List.perm_append_comm

variable (sort : SortKey) (dir : SortDir)

theorem representative_head (row : Listed)
    (leads : representative functions db sort dir request row = true) (key : Text)
    (own : groupKey db row = some key) :
    (sortBy (pageCmp functions db sort dir) ((counted db request).filter fun other =>
      groupKey db other = some key)).head? = some row := by
  rw [representative, own] at leads
  simpa using leads

theorem representatives_apart (left right : Listed)
    (leftLeads : representative functions db sort dir request left = true)
    (rightLeads : representative functions db sort dir request right = true) (key : Text)
    (own : groupKey db left = some key) (same : groupKey db right = some key) : left = right := by
  have first := representative_head functions db request sort dir left leftLeads key own
  have second := representative_head functions db request sort dir right rightLeads key same
  exact Option.some.inj (first.symm.trans second)

theorem represented (book : Listed) (listed : book ∈ counted db request) :
    ∃ row ∈ counted db request, representative functions db sort dir request row = true ∧
      book ∈ bundle functions db request row := by
  cases own : groupKey db book with
  | none =>
      refine ⟨book, listed, by simp [representative, own], ?_⟩
      exact (mem_bundle functions db request book listed book).mpr ⟨listed, Or.inl rfl⟩
  | some key =>
      have inside : book ∈ sortBy (pageCmp functions db sort dir)
          ((counted db request).filter fun other => groupKey db other = some key) := by
        rw [(sort_by_perm _ _).mem_iff, List.mem_filter]
        exact ⟨listed, decide_eq_true own⟩
      obtain ⟨row, rest, shape⟩ := List.exists_cons_of_ne_nil (List.ne_nil_of_mem inside)
      have first : row ∈ (counted db request).filter fun other => groupKey db other = some key := by
        rw [← (sort_by_perm (pageCmp functions db sort dir) _).mem_iff, shape]
        exact List.mem_cons_self
      rw [List.mem_filter, decide_eq_true_eq] at first
      refine ⟨row, first.1, ?_, ?_⟩
      · rw [representative, first.2, shape]
        simp
      · exact (mem_bundle functions db request row first.1 book).mpr
          ⟨listed, Or.inr ⟨key, first.2, own⟩⟩

theorem bundles_disjoint (left right book : Listed)
    (leftListed : left ∈ counted db request) (rightListed : right ∈ counted db request)
    (leftLeads : representative functions db sort dir request left = true)
    (rightLeads : representative functions db sort dir request right = true)
    (first : book ∈ bundle functions db request left)
    (second : book ∈ bundle functions db request right) : left = right := by
  rw [mem_bundle functions db request left leftListed] at first
  rw [mem_bundle functions db request right rightListed] at second
  have apart := representatives_apart functions db request sort dir left right leftLeads rightLeads
  rcases first.2 with rfl | ⟨key, own, grouped⟩
  · rcases second.2 with same | ⟨key, own, grouped⟩
    · exact same
    · exact apart key grouped own
  · rcases second.2 with rfl | ⟨key', own', grouped'⟩
    · exact apart key own grouped
    · rw [grouped, Option.some.injEq] at grouped'
      exact apart key own (grouped' ▸ own')

theorem mem_representatives (row : Listed) :
    row ∈ pageRows functions db sort dir request (representative functions db sort dir request) ↔
      row ∈ counted db request ∧ representative functions db sort dir request row = true := by
  rw [pageRows, (sort_by_perm _ _).mem_iff, eligible, counted]
  split
  · simp
  · rw [List.mem_filter, List.mem_filter, Bool.and_eq_true, and_assoc]

/-- Rows among the representatives stand for every book once exactly when they are all of them. -/
theorem bundles_perm_iff (rows : List Listed)
    (within : rows ⊆
      pageRows functions db sort dir request (representative functions db sort dir request)) :
    (rows.flatMap (bundle functions db request)).Perm (counted db request) ↔
      rows.Perm
        (pageRows functions db sort dir request (representative functions db sort dir request)) := by
  have leads (row : Listed) (member : row ∈ rows) :=
    (mem_representatives functions db request sort dir row).mp (within member)
  have own (row : Listed) (listed : row ∈ counted db request) :
      row ∈ bundle functions db request row :=
    (mem_bundle functions db request row listed row).mpr ⟨listed, Or.inl rfl⟩
  have all := page_rows_nodup functions db sort dir request (representative functions db sort dir request)
  constructor
  · intro same
    have apart := List.nodup_flatMap.mp (same.nodup_iff.mpr (counted_nodup db request))
    have nodup : rows.Nodup := by
      apply List.Pairwise.imp_of_mem _ apart.2
      rintro left right leftMem - disjoint rfl
      exact disjoint (own left (leads left leftMem).1) (own left (leads left leftMem).1)
    rw [List.perm_ext_iff_of_nodup nodup all]
    intro row
    refine ⟨fun member => within member, fun member => ?_⟩
    obtain ⟨listed, rowLeads⟩ := (mem_representatives functions db request sort dir row).mp member
    obtain ⟨other, otherMem, inside⟩ := List.mem_flatMap.mp (same.mem_iff.mpr listed)
    have one := bundles_disjoint functions db request sort dir other row row (leads other otherMem).1
      listed (leads other otherMem).2 rowLeads inside (own row listed)
    exact one ▸ otherMem
  · intro same
    have nodup : rows.Nodup := same.nodup_iff.mpr all
    rw [List.perm_ext_iff_of_nodup _ (counted_nodup db request)]
    · intro book
      constructor
      · intro member
        obtain ⟨row, rowMem, inside⟩ := List.mem_flatMap.mp member
        exact ((mem_bundle functions db request row (leads row rowMem).1 book).mp inside).1
      · intro listed
        obtain ⟨row, rowListed, rowLeads, inside⟩ :=
          represented functions db request sort dir book listed
        refine List.mem_flatMap.mpr ⟨row, same.mem_iff.mpr ?_, inside⟩
        exact (mem_representatives functions db request sort dir row).mpr ⟨rowListed, rowLeads⟩
    · rw [List.nodup_flatMap]
      refine ⟨fun row _ => bundle_nodup functions db request row, ?_⟩
      apply List.Pairwise.imp_of_mem _ nodup
      intro left right leftMem rightMem apart book first second
      exact apart (bundles_disjoint functions db request sort dir left right book (leads left leftMem).1
        (leads right rightMem).1 (leads left leftMem).2 (leads right rightMem).2 first second)

end Bundles

section Walks

variable (functions : Functions) (db : Database) (sort : SortKey) (dir : SortDir) (request : Request)
  (limit : Int)

/-- A stacked page with the cursor that its text carries to the next request. -/
def servedStacks (cursor : Option PageCursor) : StackedBookPage × Option PageCursor :=
  let page := listBooksPageStacked functions db sort dir request cursor limit
  (page, page.next.map fun next => .decode next.encode)

/-- Every book is a row that leads no stack or a member of one stack, once. -/
def PartitionsBooks (pages : List StackedBookPage) : Prop :=
  ((pages.flatMap fun page => page.books.filter fun row =>
      row ∉ page.seriesStacks.map (·.lead)) ++
    (pages.flatMap (·.seriesStacks)).flatMap (·.members)).Perm (counted db request)

/-- A stack of a page: two members or more of one key, led by a row of the page that comes before
the others in the order of the walk. -/
def LedInOrder (page : StackedBookPage) : Prop :=
  ∀ stack ∈ page.seriesStacks, stack.lead ∈ page.books ∧ 2 ≤ stack.members.length ∧
    (∃ key, ∀ member ∈ stack.members, groupKey db member = some key) ∧
    stack.lead ∈ stack.members ∧ ∀ member ∈ stack.members, member = stack.lead ∨
      pageCmp functions db sort dir stack.lead member = .lt

/-- A walk over the stacked pages ends, and its stacks and other rows are the books. -/
def StacksEachOnce : Prop :=
  ∃ pages, Walk (servedStacks functions db sort dir request limit) none pages ∧
    PartitionsBooks db request pages ∧ ∀ page ∈ pages, LedInOrder functions db sort dir page

def withStacks (page : BookPage) : StackedBookPage where
  books := page.books
  next := page.next
  seriesStacks := if page.books = [] then [] else buildStacks functions db request page.books

theorem served_stacks_eq :
    servedStacks functions db sort dir request limit = fun cursor =>
      (withStacks functions db request (servedPage functions db sort dir request
        (representative functions db sort dir request) limit cursor).1,
      (servedPage functions db sort dir request
        (representative functions db sort dir request) limit cursor).2) := rfl

structure LeadsPage (page : BookPage) : Prop where
  nodup : page.books.Nodup
  within : page.books ⊆
    pageRows functions db sort dir request (representative functions db sort dir request)

theorem served_leads (cursor : Option PageCursor) :
    LeadsPage functions db sort dir request (servedPage functions db sort dir request
      (representative functions db sort dir request) limit cursor).1 := by
  have fetched := congrFun (served_page_seek functions db sort dir request
    (representative functions db sort dir request) limit) cursor
  have books := congrArg Prod.fst fetched
  have sub : ((servedPage functions db sort dir request
      (representative functions db sort dir request) limit cursor).1.books).Sublist
      (pageRows functions db sort dir request (representative functions db sort dir request)) := by
    simp only at books
    rw [books]
    exact (List.take_sublist _ _).trans List.filter_sublist
  exact ⟨(page_rows_nodup functions db sort dir request _).sublist sub, sub.subset⟩

section Page

variable (page : BookPage) (leads : LeadsPage functions db sort dir request page)

include leads

theorem page_stacks :
    (withStacks functions db request page).seriesStacks.Perm
      (page.books.filterMap (stackOf functions db request)) := by
  have listed (row : Listed) (member : row ∈ page.books) :=
    (mem_representatives functions db request sort dir row).mp (leads.within member)
  rw [withStacks]
  split
  · rename_i none'
    rw [none']
    exact List.Perm.refl _
  · apply build_stacks_page functions db request page.books
    · exact fun row member => (listed row member).1
    · rw [List.Nodup, List.pairwise_filterMap]
      apply List.Pairwise.imp_of_mem _ leads.nodup
      intro left right leftMem rightMem apart key own _ same equal
      subst equal
      exact apart (representatives_apart functions db request sort dir left right
        (listed left leftMem).2 (listed right rightMem).2 key own same)

theorem page_lone :
    (page.books.filter fun row =>
      row ∉ (withStacks functions db request page).seriesStacks.map (·.lead)) =
      page.books.filter fun row => (stackOf functions db request row).isNone := by
  apply List.filter_congr
  intro row member
  rw [Bool.eq_iff_iff, decide_eq_true_eq, Option.isNone_iff_eq_none, List.mem_map]
  constructor
  · intro leadsNone
    by_contra some'
    obtain ⟨stack, stacked⟩ := Option.ne_none_iff_exists'.mp some'
    apply leadsNone
    refine ⟨stack, ?_, (stack_of_some functions db request row stack stacked).1⟩
    rw [(page_stacks functions db sort dir request page leads).mem_iff]
    exact List.mem_filterMap.mpr ⟨row, member, stacked⟩
  · intro alone ⟨stack, inside, same⟩
    rw [(page_stacks functions db sort dir request page leads).mem_iff] at inside
    obtain ⟨other, otherMem, stacked⟩ := List.mem_filterMap.mp inside
    have own := (stack_of_some functions db request other stack stacked).1
    rw [← own, same, alone] at stacked
    cases stacked

theorem page_led : LedInOrder functions db sort dir (withStacks functions db request page) := by
  intro stack inside
  rw [(page_stacks functions db sort dir request page leads).mem_iff] at inside
  obtain ⟨row, member, stacked⟩ := List.mem_filterMap.mp inside
  obtain ⟨rfl, several, key, own, same⟩ := stack_of_some functions db request row stack stacked
  have listed := (mem_representatives functions db request sort dir _).mp (leads.within member)
  have grouped (book : Listed) (inner : book ∈ stack.members) :=
    (mem_members_of functions db request key book).mp (same ▸ inner)
  refine ⟨member, several, ⟨key, fun book inner => (grouped book inner).2⟩, ?_, ?_⟩
  · rw [same, mem_members_of]
    exact ⟨listed.1, own⟩
  · intro book inner
    obtain ⟨rest, shape⟩ : ∃ rest, sortBy (pageCmp functions db sort dir)
        ((counted db request).filter fun other => groupKey db other = some key) =
          stack.lead :: rest :=
      ⟨_, List.eq_cons_of_mem_head?
        (representative_head functions db request sort dir _ listed.2 key own)⟩
    have strict := sort_by_strict (pageCmp functions db sort dir)
      ((counted db request).filter fun other => groupKey db other = some key)
      (page_cmp_tells functions db sort dir _ fun other present =>
        counted_joined db request (List.mem_of_mem_filter present))
      ((counted_nodup db request).filter _)
    have inOrder : book ∈ stack.lead :: rest := by
      rw [← shape, (sort_by_perm _ _).mem_iff, List.mem_filter]
      exact ⟨(grouped book inner).1, decide_eq_true (grouped book inner).2⟩
    rw [shape, List.pairwise_cons] at strict
    rcases List.mem_cons.mp inOrder with here | later
    · exact Or.inl here
    · exact Or.inr (strict.1 book later)

end Page

theorem walk_leads {cursor : Option PageCursor} {pages : List BookPage}
    (walk : Walk (servedPage functions db sort dir request
      (representative functions db sort dir request) limit) cursor pages) :
    ∀ page ∈ pages, LeadsPage functions db sort dir request page := by
  intro page member
  obtain ⟨cursor, rfl⟩ := walk.served _ page member
  exact served_leads functions db sort dir request limit cursor

theorem pages_stacks (pages : List BookPage)
    (leads : ∀ page ∈ pages, LeadsPage functions db sort dir request page) :
    ((pages.map (withStacks functions db request)).flatMap (·.seriesStacks)).Perm
      ((pages.flatMap (·.books)).filterMap (stackOf functions db request)) := by
  rw [List.flatMap_map, List.filterMap_flatMap]
  exact List.Perm.flatMap_left _ fun page member =>
    page_stacks functions db sort dir request page (leads page member)

/-- What the stacks and the other rows of the pages hold is what their rows stand for. -/
theorem partitions_iff (pages : List BookPage)
    (leads : ∀ page ∈ pages, LeadsPage functions db sort dir request page) :
    PartitionsBooks db request (pages.map (withStacks functions db request)) ↔
      ((pages.flatMap (·.books)).flatMap (bundle functions db request)).Perm
        (counted db request) := by
  have lone : ((pages.map (withStacks functions db request)).flatMap fun page =>
      page.books.filter fun row => row ∉ page.seriesStacks.map (·.lead)) =
      (pages.flatMap (·.books)).filter fun row => (stackOf functions db request row).isNone := by
    rw [List.flatMap_map, List.filter_flatMap]
    apply List.flatMap_congr
    intro page member
    exact page_lone functions db sort dir request page (leads page member)
  have stacked := pages_stacks functions db sort dir request pages leads
  have same := (List.Perm.append_left ((pages.flatMap (·.books)).filter fun row =>
    (stackOf functions db request row).isNone) (stacked.flatMap_right (·.members))).trans
      (bundles_perm functions db request (pages.flatMap (·.books)))
  rw [PartitionsBooks, lone]
  exact ⟨fun all => same.symm.trans all, fun all => same.trans all⟩

/-- The stacked walk holds each book once exactly when no page of representatives ends at an
infinite series index but where the walk of them may. -/
theorem stacks_each_once_iff :
    StacksEachOnce functions db sort dir request limit ↔
      SplitsAllSafely functions db sort dir request (representative functions db sort dir request)
        limit := by
  rw [← walk_lists_iff, StacksEachOnce, served_stacks_eq]
  have rows (pages : List BookPage)
      (leads : ∀ page ∈ pages, LeadsPage functions db sort dir request page) :=
    bundles_perm_iff functions db request sort dir (pages.flatMap (·.books)) fun row member => by
      obtain ⟨page, inside, here⟩ := List.mem_flatMap.mp member
      exact (leads page inside).within here
  constructor
  · rintro ⟨pages, walk, partition, -⟩
    obtain ⟨pages, served, rfl⟩ := Walk.of_map (servedPage functions db sort dir request
      (representative functions db sort dir request) limit) (withStacks functions db request) walk
    have leads := walk_leads functions db sort dir request limit served
    refine ⟨pages, served, (rows pages leads).mp ?_⟩
    exact (partitions_iff functions db sort dir request pages leads).mp partition
  · intro ⟨pages, served, same⟩
    have leads := walk_leads functions db sort dir request limit served
    refine ⟨_, served.map _ (withStacks functions db request), ?_, ?_⟩
    · exact (partitions_iff functions db sort dir request pages leads).mpr
        ((rows pages leads).mpr same)
    · intro page member
      obtain ⟨source, inside, rfl⟩ := List.mem_map.mp member
      exact page_led functions db sort dir request source (leads source inside)

end Walks

/-- The stacked walk over a book at an infinite index never ends either. -/
theorem endless_stacked_walk :
    (counted endlessLibrary everything).map (·.book.id) = [1, 2] ∧
      ¬∃ pages, Walk (servedStacks plainFunctions endlessLibrary .series .asc everything 1) none
        pages := by
  constructor
  · decide
  · intro ⟨pages, walk⟩
    have first : (servedStacks plainFunctions endlessLibrary .series .asc everything 1
        none).2 = some ⟨some "a".toList, none, 1⟩ := by
      decide +kernel
    have again : (servedStacks plainFunctions endlessLibrary .series .asc everything 1
        (some ⟨some "a".toList, none, 1⟩)).2 = some ⟨some "a".toList, none, 1⟩ := by
      decide +kernel
    exact walk.stuck _ first again

end Omnibus.BookPages
