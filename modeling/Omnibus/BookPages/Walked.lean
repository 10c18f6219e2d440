import Omnibus.BookPages.Seek

/-!
# Walking the pages of a list

The keyset predicate selects the rows after the cursor's in the order of the axis. It fails to at
a cursor whose series index is infinite, which is encoded as none.
-/

namespace Omnibus.BookPages

open Omnibus.Library.Keyset

theorem directed_then (dir : SortDir) (first second : Ordering) :
    directed dir (first.then second) = (directed dir first).then (directed dir second) := by
  cases dir <;> cases first <;> rfl

theorem directed_eq (dir : SortDir) (ordering : Ordering) :
    directed dir ordering = .eq ↔ ordering = .eq := by
  cases dir <;> cases ordering <;> decide

/-- A row's value in a term compared with the cursor's. -/
def Term.compared (row : Listed) : Term → Ordering
  | .text cmp column value => nullsFirst cmp (column row) value
  | .real column value => nullsFirst compare (column row) value
  | .int column value => compare (column row) value

theorem eq_sql_iff (term : Term) (row : Listed) :
    term.eqSql row = true ↔ term.compared row = .eq := by
  cases term with
  | text cmp column value =>
      cases value <;> cases own : column row <;> simp [Term.eqSql, Term.compared, nullsFirst, own]
  | real column value =>
      cases value <;> cases own : column row <;> simp [Term.eqSql, Term.compared, nullsFirst, own]
  | int column value => simp [Term.eqSql, Term.compared]

theorem strict_after_iff (term : Term) (dir : SortDir) (row : Listed) :
    (term.strictAfterSql dir).any (· row) = true ↔ directed dir (term.compared row) = .gt := by
  cases term with
  | text cmp column value =>
      cases value <;> cases dir <;> cases own : column row <;>
        simp [Term.strictAfterSql, Term.compared, nullsFirst, strictPresent, directed, own]
  | real column value =>
      cases value <;> cases dir <;> cases own : column row <;>
        simp [Term.strictAfterSql, Term.compared, nullsFirst, strictPresent, directed, own]
  | int column value =>
      cases dir <;> simp [Term.strictAfterSql, Term.compared, directed, compare_gt_iff_gt, compare_lt_iff_lt]

theorem keyset_cons (term : Term) (rest : List Term) (dir : SortDir) (row : Listed) :
    keysetPredicate (term :: rest) dir row =
      ((term.strictAfterSql dir).any (· row) || term.eqSql row && keysetPredicate rest dir row) := by
  rw [keysetPredicate, keysetPredicate, List.length_cons, List.range_succ_eq_map, List.any_cons,
    List.any_map]
  congr 1
  rw [Bool.eq_iff_iff, Bool.and_eq_true, List.any_eq_true, List.any_eq_true]
  simp only [Function.comp_apply, List.getElem?_cons_succ, List.take_succ_cons, List.all_cons]
  constructor
  · intro ⟨i, inside, holds⟩
    obtain ⟨other, found, holds⟩ := (Option.any_eq_true ..).mp holds
    obtain ⟨after, strict, holds⟩ := (Option.any_eq_true ..).mp holds
    simp only [Bool.and_eq_true] at holds
    refine ⟨holds.1.1, i, inside, ?_⟩
    simp [found, strict, holds.1.2, holds.2]
  · intro ⟨same, i, inside, holds⟩
    obtain ⟨other, found, holds⟩ := (Option.any_eq_true ..).mp holds
    obtain ⟨after, strict, holds⟩ := (Option.any_eq_true ..).mp holds
    simp only [Bool.and_eq_true] at holds
    refine ⟨i, inside, ?_⟩
    simp [found, strict, same, holds.1, holds.2]

theorem keyset_iff (terms : List Term) (dir : SortDir) (row : Listed) :
    keysetPredicate terms dir row = true ↔
      directed dir (terms.foldr (fun term later => (term.compared row).then later) .eq) = .gt := by
  induction terms with
  | nil => cases dir <;> simp [keysetPredicate, directed]
  | cons term rest induction =>
      rw [keyset_cons, Bool.or_eq_true, Bool.and_eq_true, strict_after_iff, eq_sql_iff, induction,
        List.foldr_cons, directed_then, ← directed_eq dir (term.compared row)]
      cases directed dir (term.compared row) <;> simp

theorem joined_ids (db : Database) : (db.joined.map (·.book.id)).Nodup := by
  have within : (db.joined.map (·.book.id)).Sublist (db.books.map (·.id)) := by
    rw [Database.joined]
    induction db.books with
    | nil => exact List.Sublist.slnil
    | cons book rest induction =>
        rw [List.filterMap_cons]
        split
        · exact induction.cons book.id
        · rename_i row joined
          obtain ⟨root, -, rfl⟩ := Option.map_eq_some_iff.mp joined
          exact induction.cons_cons book.id
  exact db.ids.sublist within

section Pages

variable (functions : Functions) (db : Database) (sort : SortKey) (dir : SortDir)

theorem page_cmp_tells (rows : List Listed) (within : rows ⊆ db.joined) :
    Tells (pageCmp functions db sort dir) rows := by
  intro left leftMem right rightMem same
  rw [pageCmp, directed_eq, axisCmp] at same
  have ids := (Ordering.then_eq_eq.mp same).2
  rw [Std.LawfulEqOrd.compare_eq_iff_eq] at ids
  exact List.inj_on_of_nodup_map (joined_ids db) (within leftMem) (within rightMem) ids

/-- The rows a listing is of: those the request admits and the stacking keeps. -/
def eligible (request : Request) (stacked : Listed → Bool) : List Listed :=
  if request.libraryPaths = [] then []
  else db.joined.filter fun row => admits db request row && stacked row

def pageRows (request : Request) (stacked : Listed → Bool) : List Listed :=
  sortBy (pageCmp functions db sort dir) (eligible db request stacked)

theorem eligible_joined (request : Request) (stacked : Listed → Bool) :
    eligible db request stacked ⊆ db.joined := by
  rw [eligible]
  split
  · exact List.nil_subset _
  · exact fun _ member => List.mem_of_mem_filter member

theorem eligible_nodup (request : Request) (stacked : Listed → Bool) :
    (eligible db request stacked).Nodup := by
  rw [eligible]
  split
  · exact List.nodup_nil
  · exact (List.Nodup.of_map _ (joined_ids db)).filter _

theorem page_rows_strict (request : Request) (stacked : Listed → Bool) :
    (pageRows functions db sort dir request stacked).Pairwise fun left right =>
      pageCmp functions db sort dir left right = .lt :=
  sort_by_strict _ _ (page_cmp_tells functions db sort dir _ (eligible_joined db request stacked))
    (eligible_nodup db request stacked)

theorem page_rows_nodup (request : Request) (stacked : Listed → Bool) :
    (pageRows functions db sort dir request stacked).Nodup :=
  (sort_by_perm _ _).nodup_iff.mpr (eligible_nodup db request stacked)

theorem fetch_page_seek (request : Request) (stacked : Listed → Bool) (cursor : Option PageCursor)
    (limit : Int) :
    let page := fetchPage functions db sort dir request stacked cursor limit
    (page.books, page.next) = seekPage (pageRows functions db sort dir request stacked)
      (seeks functions db sort dir) (cursorFromRow functions db sort) (pageLimit limit) cursor := by
  intro page
  have positive : 0 < pageLimit limit := by
    rw [pageLimit]
    omega
  by_cases none' : request.libraryPaths = []
  · simp [page, fetchPage, seekPage, selected, pageRows, eligible, none', sortBy]
  · have chosen : sortBy (pageCmp functions db sort dir) (db.joined.filter fun row =>
        admits db request row && stacked row &&
          cursor.all fun cursor => seeks functions db sort dir cursor row) =
        selected (pageRows functions db sort dir request stacked) (seeks functions db sort dir)
          cursor := by
      rw [selected, pageRows, sort_by_filter _ _ (page_cmp_tells functions db sort dir _
        (eligible_joined db request stacked)), eligible, if_neg none', List.filter_filter]
      congr 2
      funext row
      rw [Bool.and_comm]
    simp only [page, fetchPage, if_neg none', chosen, seekPage]
    generalize selected (pageRows functions db sort dir request stacked)
      (seeks functions db sort dir) cursor = rows
    rw [List.length_take, List.take_take, Prod.mk.injEq]
    by_cases more : pageLimit limit < rows.length
    · rw [if_pos (by omega), if_pos more, List.getElem?_take]
      constructor
      · congr 1
        omega
      · rw [if_pos (by omega)]
        congr 2
        omega
    · rw [if_neg (by omega), if_neg more]
      refine ⟨?_, rfl⟩
      rw [List.take_of_length_le (by omega), List.take_of_length_le (by omega)]

/-- The cursor of a row as the next request carries it. -/
def carried (row : Listed) : PageCursor := .decode (cursorFromRow functions db sort row).encode

/-- On the series axis, a series index the cursor cannot carry. -/
def Infinite (row : Listed) : Prop :=
  sort = .series ∧ (effectiveIndex functions row).any (·.finite = none) = true

instance (row : Listed) : Decidable (Infinite functions sort row) := by
  unfold Infinite
  infer_instance

def primaryCmp (left right : Listed) : Ordering :=
  nullsFirst (collation functions sort) ((axisSortColumns functions db sort).1 left)
    ((axisSortColumns functions db sort).1 right)

instance : Std.TransCmp (primaryCmp functions db sort) :=
  trans_on (nullsFirst (collation functions sort)) (axisSortColumns functions db sort).1

theorem finite_eq (number : Real) (value : ℚ) (finite : number.finite = some value) :
    ((value : WithTop ℚ) : Real) = number := by
  match number with
  | none => cases finite
  | some none => cases finite
  | some (some own) =>
      rw [Real.finite, Option.some.injEq] at finite
      rw [← finite]
      rfl

theorem carried_exact (row : Listed) (finite : ¬Infinite functions sort row) :
    carried functions db sort row = cursorFromRow functions db sort row := by
  have same : ((cursorFromRow functions db sort row).idx.bind Real.finite).map
      (fun number => ((number : WithTop ℚ) : Real)) = (cursorFromRow functions db sort row).idx := by
    cases index : (cursorFromRow functions db sort row).idx with
    | none => rfl
    | some number =>
        cases own : number.finite with
        | some value => simp [own, finite_eq number value own]
        | none =>
            exfalso
            apply finite
            cases sort <;> simp [cursorFromRow, axisSortColumns] at index
            exact ⟨rfl, by simp [index, own]⟩
  rw [carried, PageCursor.encode, PageCursor.decode, same]

theorem seeks_iff (cursor : PageCursor) (row : Listed) :
    seeks functions db sort dir cursor row = true ↔
      directed dir (((nullsFirst (collation functions sort)
        ((axisSortColumns functions db sort).1 row) cursor.sort).then
        (match (axisSortColumns functions db sort).2 with
        | some secondary => nullsFirst compare (secondary row) cursor.idx
        | none => .eq)).then (compare row.book.id cursor.id)) = .gt := by
  rw [seeks, keyset_iff, axisTerms]
  generalize axisSortColumns functions db sort = columns
  obtain ⟨primary, secondary⟩ := columns
  cases secondary with
  | none => simp [Term.compared]
  | some secondary => simp [Term.compared, Ordering.then_assoc]

theorem seeks_after (last row : Listed) (finite : ¬Infinite functions sort last) :
    seeks functions db sort dir (carried functions db sort last) row = true ↔
      pageCmp functions db sort dir last row = .lt := by
  rw [carried_exact functions db sort last finite, seeks_iff, ← Std.OrientedCmp.gt_iff_lt]
  rw [pageCmp, axisCmp]
  cases sort <;> rfl

theorem seeks_infinite (last row : Listed) (infinite : Infinite functions sort last) :
    seeks functions db sort dir (carried functions db sort last) row = true ↔
      directed dir (((primaryCmp functions db sort row last).then
        (nullsFirst compare (effectiveIndex functions row) none)).then
          (compare row.book.id last.book.id)) = .gt := by
  obtain ⟨rfl, index⟩ := infinite
  obtain ⟨number, own, infinite⟩ := (Option.any_eq_true ..).mp index
  have lost : (carried functions db .series last).idx = none := by
    simp only [decide_eq_true_eq] at infinite
    simp [carried, cursorFromRow, axisSortColumns, own, PageCursor.encode, PageCursor.decode,
      infinite]
  rw [seeks_iff, lost]
  rfl

theorem seeks_infinite_desc (last row : Listed) (infinite : Infinite functions sort last) :
    seeks functions db sort .desc (carried functions db sort last) row = true ↔
      primaryCmp functions db sort row last = .lt ∨
        primaryCmp functions db sort row last = .eq ∧ effectiveIndex functions row = none ∧
          row.book.id < last.book.id := by
  rw [seeks_infinite functions db sort .desc last row infinite]
  cases primaryCmp functions db sort row last <;> cases effectiveIndex functions row <;>
    simp [directed, nullsFirst, compare_lt_iff_lt]

theorem page_cmp_series_desc (last row : Listed) :
    pageCmp functions db .series .desc last row =
      ((primaryCmp functions db .series row last).then
        (nullsFirst compare (effectiveIndex functions row) (effectiveIndex functions last))).then
          (compare row.book.id last.book.id) :=
  (@Std.OrientedCmp.eq_swap _ (axisCmp functions db .series) _ _ _).symm

theorem infinite_index (row : Listed) (infinite : Infinite functions sort row) :
    sort = .series ∧ ∃ number, effectiveIndex functions row = some number := by
  obtain ⟨axis, index⟩ := infinite
  obtain ⟨number, own, -⟩ := (Option.any_eq_true ..).mp index
  exact ⟨axis, number, own⟩

theorem seeks_desc_after (last row : Listed)
    (chosen : seeks functions db sort .desc (carried functions db sort last) row = true) :
    pageCmp functions db sort .desc last row = .lt := by
  by_cases infinite : Infinite functions sort last
  · obtain ⟨rfl, number, own⟩ := infinite_index functions sort last infinite
    rw [page_cmp_series_desc, own]
    rcases (seeks_infinite_desc functions db .series last row infinite).mp chosen with
      before | ⟨same, tail, -⟩
    · rw [before]
      rfl
    · rw [same, tail]
      rfl
  · exact (seeks_after functions db sort .desc last row infinite).mp chosen

/-- A page may end between two rows: the first one's index is carried, or, descending, the next
row is of another series or of the first one's NULL tail. -/
def SplitsSafely (last next : Listed) : Prop :=
  Infinite functions sort last →
    dir = .desc ∧ (primaryCmp functions db sort next last ≠ .eq ∨
      effectiveIndex functions next = none ∧ next.book.id < last.book.id)

/-- Rows of one series that come one after the other, the first in the NULL tail. -/
theorem null_tail (first row : Listed) (tail : effectiveIndex functions first = none)
    (same : primaryCmp functions db .series row first = .eq)
    (later : pageCmp functions db .series .desc first row = .lt) :
    effectiveIndex functions row = none ∧ row.book.id < first.book.id := by
  rw [page_cmp_series_desc, same, tail] at later
  cases own : effectiveIndex functions row with
  | none =>
      rw [own] at later
      exact ⟨rfl, compare_lt_iff_lt.mp later⟩
  | some number =>
      rw [own] at later
      cases later

theorem page_cmp_primary (first row : Listed)
    (later : pageCmp functions db .series .desc first row = .lt) :
    primaryCmp functions db .series row first = .lt ∨
      primaryCmp functions db .series row first = .eq := by
  rw [page_cmp_series_desc] at later
  cases compared : primaryCmp functions db .series row first with
  | lt => exact Or.inl rfl
  | eq => exact Or.inr rfl
  | gt =>
      rw [compared] at later
      cases later

section Boundary

variable (order : List Listed)
  (strict : order.Pairwise fun left right => pageCmp functions db sort dir left right = .lt)
  (p : Nat) (start : 0 < p) (last next : Listed) (place : order[p - 1]? = some last)
  (here : order[p]? = some next)

include strict here

theorem next_first (row : Listed) (after : row ∈ order.drop p) :
    row = next ∨ pageCmp functions db sort dir next row = .lt := by
  obtain ⟨inside, own⟩ := List.getElem?_eq_some_iff.mp here
  rw [List.drop_eq_getElem_cons inside, own] at after
  rcases List.mem_cons.mp after with same | later
  · exact Or.inl same
  · right
    apply after_boundary _ order strict (p + 1) next _ (by omega) row later
    simpa using here

include start place

theorem next_after : pageCmp functions db sort dir last next = .lt := by
  apply after_boundary _ order strict p last place start
  obtain ⟨inside, own⟩ := List.getElem?_eq_some_iff.mp here
  rw [List.drop_eq_getElem_cons inside, own]
  exact List.mem_cons_self

theorem safe_resumes (safe : SplitsSafely functions db sort dir last next) :
    selected order (seeks functions db sort dir) (some (carried functions db sort last)) =
      order.drop p := by
  apply selected_rest (pageCmp functions db sort dir) order strict p last place _ _ start
  intro row member
  by_cases infinite : Infinite functions sort last
  · obtain ⟨rfl, clear⟩ := safe infinite
    obtain ⟨rfl, -⟩ := infinite_index functions sort last infinite
    constructor
    · exact seeks_desc_after functions db .series last row
    · intro later
      have after := (mem_drop_iff _ order strict p last place start row member).mpr later
      have first := next_first functions db .series .desc order strict p next here row after
      rw [seeks_infinite_desc functions db .series last row infinite]
      rcases page_cmp_primary functions db last row later with before | same
      · exact Or.inl before
      · right
        have nextSame : primaryCmp functions db .series next last = .eq := by
          rcases page_cmp_primary functions db last next
            (next_after functions db .series .desc order strict p start last next place here) with
            less | equal
          · exfalso
            rcases first with rfl | behind
            · rw [same] at less
              cases less
            · have short : primaryCmp functions db .series row last = .lt := by
                rcases page_cmp_primary functions db next row behind with less' | equal
                · exact Std.TransCmp.lt_trans less' less
                · exact Std.TransCmp.lt_of_eq_of_lt equal less
              rw [same] at short
              cases short
          · exact equal
        obtain ⟨tail, low⟩ := clear.resolve_left fun apart => apart nextSame
        rcases first with rfl | behind
        · exact ⟨same, tail, low⟩
        · have beside : primaryCmp functions db .series row next = .eq :=
            Std.TransCmp.eq_trans same (Std.OrientedCmp.eq_symm nextSame)
          obtain ⟨tail', low'⟩ := null_tail functions db next row tail beside behind
          exact ⟨same, tail', low'.trans low⟩
  · exact seeks_after functions db sort dir last row infinite

omit here in
theorem asc_repeats (infinite : Infinite functions sort last) (ascending : dir = .asc) :
    Repeats order (seeks functions db sort dir) (carried functions db sort) p := by
  subst ascending
  obtain ⟨rfl, number, own⟩ := infinite_index functions sort last infinite
  have again : seeks functions db .series .asc (carried functions db .series last) last = true := by
    rw [seeks_infinite functions db .series .asc last last infinite,
      @Std.ReflCmp.compare_self _ (primaryCmp functions db .series) _ _, own]
    rfl
  have listed : last ∈ order.take p := by
    rw [List.mem_take_iff_getElem]
    obtain ⟨inside, same⟩ := List.getElem?_eq_some_iff.mp place
    exact ⟨p - 1, by omega, same⟩
  have chosen : last ∈ (order.take p).filter fun row =>
      (some (carried functions db .series last)).all fun cursor =>
        seeks functions db .series .asc cursor row :=
    List.mem_filter.mpr ⟨listed, by simpa using again⟩
  obtain ⟨head, rest, shape⟩ := List.exists_cons_of_ne_nil (List.ne_nil_of_mem chosen)
  have first : head ∈ order.take p := by
    apply List.mem_of_mem_filter
    rw [shape]
    exact List.mem_cons_self
  refine ⟨last, place, head, first, ?_⟩
  rw [selected]
  conv_lhs => rw [← List.take_append_drop p order]
  rw [List.filter_append, shape]
  rfl

theorem desc_loses (infinite : Infinite functions sort last) (descending : dir = .desc)
    (hidden : ¬SplitsSafely functions db sort dir last next) :
    Loses order (seeks functions db sort dir) (carried functions db sort) p := by
  subst descending
  obtain ⟨inside, own⟩ := List.getElem?_eq_some_iff.mp here
  have after : next ∈ order.drop p := by
    rw [List.drop_eq_getElem_cons inside, own]
    exact List.mem_cons_self
  refine ⟨last, place, next, after, fun row => pageCmp functions db sort .desc next row = .lt,
    ?_, ?_, ?_⟩
  · intro less
    have same := @Std.ReflCmp.compare_self _ (pageCmp functions db sort .desc) _ next
    rw [same] at less
    cases less
  · intro row member chosen
    have later := seeks_desc_after functions db sort last row chosen
    have behind := (mem_drop_iff _ order strict p last place start row member).mpr later
    rcases next_first functions db sort .desc order strict p next here row behind with rfl | less
    · exfalso
      apply hidden
      intro _
      refine ⟨rfl, ?_⟩
      rcases (seeks_infinite_desc functions db sort last row infinite).mp chosen with
        less | ⟨-, tail, low⟩
      · left
        rw [less]
        decide
      · exact Or.inr ⟨tail, low⟩
    · exact less
  · intro other kind row member chosen
    exact Std.TransCmp.lt_trans kind (seeks_desc_after functions db sort other row chosen)

end Boundary

/-- A page with the cursor that its text carries to the next request. -/
def BookPage.served (page : BookPage) : BookPage × Option PageCursor :=
  (page, page.next.map fun next => .decode next.encode)

def servedPage (request : Request) (stacked : Listed → Bool) (limit : Int)
    (cursor : Option PageCursor) : BookPage × Option PageCursor :=
  (fetchPage functions db sort dir request stacked cursor limit).served

def servedBooks (request : Request) (limit : Int) (cursor : Option PageCursor) :
    BookPage × Option PageCursor :=
  (listBooksPage functions db sort dir request cursor limit).served

theorem served_books_eq (request : Request) (limit : Int) :
    servedBooks functions db sort dir request limit =
      servedPage functions db sort dir request unstacked limit := rfl

/-- Where a page of the listing may end, its cursor takes up the next. -/
def SplitsAllSafely (request : Request) (stacked : Listed → Bool) (limit : Int) : Prop :=
  ∀ p last next, 0 < p → pageLimit limit ∣ p →
    (pageRows functions db sort dir request stacked)[p - 1]? = some last →
    (pageRows functions db sort dir request stacked)[p]? = some next →
    SplitsSafely functions db sort dir last next

theorem served_page_seek (request : Request) (stacked : Listed → Bool) (limit : Int) :
    (fun cursor => ((servedPage functions db sort dir request stacked limit cursor).1.books,
      (servedPage functions db sort dir request stacked limit cursor).2)) =
      seekPage (pageRows functions db sort dir request stacked) (seeks functions db sort dir)
        (carried functions db sort) (pageLimit limit) := by
  funext cursor
  have fetched := fetch_page_seek functions db sort dir request stacked cursor limit
  rw [seekPage, Prod.mk.injEq] at fetched
  simp only [servedPage, BookPage.served, fetched.1, fetched.2, seekPage, Prod.mk.injEq, true_and]
  split
  · rw [Option.map_map]
    rfl
  · rfl

theorem page_limit_pos (limit : Int) : 0 < pageLimit limit := by
  rw [pageLimit]
  omega

/-- A walk lists each row once exactly when every page of it may end where it does. -/
theorem walk_lists_iff (request : Request) (stacked : Listed → Bool) (limit : Int) :
    (∃ pages, Walk (servedPage functions db sort dir request stacked limit) none pages ∧
      (pages.flatMap (·.books)).Perm (pageRows functions db sort dir request stacked)) ↔
      SplitsAllSafely functions db sort dir request stacked limit := by
  have strict := page_rows_strict functions db sort dir request stacked
  have shown : (∃ pages, Walk (servedPage functions db sort dir request stacked limit) none pages ∧
      (pages.flatMap (·.books)).Perm (pageRows functions db sort dir request stacked)) ↔
      ∃ pages, Walk (seekPage (pageRows functions db sort dir request stacked)
        (seeks functions db sort dir) (carried functions db sort) (pageLimit limit)) none pages ∧
        pages.flatten.Perm (pageRows functions db sort dir request stacked) := by
    rw [← served_page_seek]
    constructor
    · intro ⟨pages, walk, same⟩
      exact ⟨_, walk.map _ (·.books), by rwa [← List.flatMap_def]⟩
    · intro ⟨pages, walk, same⟩
      obtain ⟨pages, served, rfl⟩ :=
        Walk.of_map (servedPage functions db sort dir request stacked limit) BookPage.books walk
      exact ⟨pages, served, by rwa [List.flatMap_def]⟩
  rw [shown, walk_perm_iff _ _ _ _ (page_limit_pos limit)
    (page_rows_nodup functions db sort dir request stacked)
    fun p => ∀ last next, (pageRows functions db sort dir request stacked)[p - 1]? = some last →
      (pageRows functions db sort dir request stacked)[p]? = some next →
      SplitsSafely functions db sort dir last next]
  · constructor
    · intro all p last next start divides place here
      obtain ⟨inside, -⟩ := List.getElem?_eq_some_iff.mp here
      exact all p start inside divides last next place here
    · intro all p start inside divides last next place here
      exact all p last next start divides place here
  · intro p start inside safe last place
    have here : (pageRows functions db sort dir request stacked)[p]? = some _ :=
      List.getElem?_eq_getElem inside
    exact safe_resumes functions db sort dir _ strict p start last _ place here
      (safe last _ place here)
  · intro p start inside fails
    push Not at fails
    obtain ⟨last, next, place, here, hidden⟩ := fails
    have infinite : Infinite functions sort last := by
      by_contra finite
      exact hidden fun infinite => absurd infinite finite
    cases dir with
    | asc => exact Or.inl (asc_repeats functions db sort .asc _ strict p start last place infinite rfl)
    | desc =>
        right
        exact desc_loses functions db sort .desc _ strict p start last next place here infinite rfl
          hidden

theorem walk_in_order (request : Request) (stacked : Listed → Bool) (limit : Int)
    (splits : SplitsAllSafely functions db sort dir request stacked limit) :
    ∃ pages, Walk (servedPage functions db sort dir request stacked limit) none pages ∧
      pages.flatMap (·.books) = pageRows functions db sort dir request stacked := by
  obtain ⟨rows, walk, listed⟩ := walk_of_resumes
    (pageRows functions db sort dir request stacked) (seeks functions db sort dir)
    (carried functions db sort) (pageLimit limit) (page_limit_pos limit)
    fun p start inside divides last place => by
      have here : (pageRows functions db sort dir request stacked)[p]? = some _ :=
        List.getElem?_eq_getElem inside
      exact safe_resumes functions db sort dir _
        (page_rows_strict functions db sort dir request stacked) p start last _ place here
        (splits p last _ start divides place here)
  rw [← served_page_seek] at walk
  obtain ⟨pages, served, rfl⟩ :=
    Walk.of_map (servedPage functions db sort dir request stacked limit) BookPage.books walk
  exact ⟨pages, served, by rwa [List.flatMap_def]⟩

/-- A walk over the pages ends and lists each counted book once, in the order of the axis. -/
def VisitsEachOnce (request : Request) (limit : Int) : Prop :=
  ∃ pages, Walk (servedBooks functions db sort dir request limit) none pages ∧
    (pages.flatMap (·.books)).Perm (counted db request) ∧
    (pages.flatMap (·.books)).length = countBooksPage db request ∧
    (pages.flatMap (·.books)).Pairwise fun left right =>
      pageCmp functions db sort dir left right = .lt

theorem eligible_unstacked (request : Request) : eligible db request unstacked = counted db request := by
  simp [eligible, counted, unstacked]

/-- The walk visits each book once in order exactly when no page ends at an infinite series index
but where, descending, the next row is of another series or of the same NULL tail. -/
theorem visits_each_once_iff (request : Request) (limit : Int) :
    VisitsEachOnce functions db sort dir request limit ↔
      SplitsAllSafely functions db sort dir request unstacked limit := by
  have rows : (pageRows functions db sort dir request unstacked).Perm (counted db request) := by
    rw [← eligible_unstacked]
    exact sort_by_perm _ _
  rw [VisitsEachOnce, served_books_eq]
  constructor
  · rintro ⟨pages, walk, same, -⟩
    exact (walk_lists_iff functions db sort dir request unstacked limit).mp
      ⟨pages, walk, same.trans rows.symm⟩
  · intro splits
    obtain ⟨pages, walk, listed⟩ := walk_in_order functions db sort dir request unstacked limit splits
    refine ⟨pages, walk, ?_, ?_, ?_⟩
    · rw [listed]
      exact rows
    · rw [listed]
      exact rows.length_eq
    · rw [listed]
      exact page_rows_strict functions db sort dir request unstacked

end Pages

/-! ## A series index that is infinite -/

def plainFunctions : Functions := ⟨fun _ => none, fun _ => ((0 : ℚ) : WithTop ℚ), id⟩

def numberedBook (id : Int) (series : String) (index : Option Real) : Book :=
  ⟨id, series.toList, 1, none, none, none, some series.toList, index, none, none⟩

/-- Two books with a file each, the first at an infinite index of its series. -/
def endlessLibrary : Database where
  roots := [⟨1, [], none⟩]
  books := [numberedBook 1 "a" (some ⊤), numberedBook 2 "b" none]
  files := [⟨1, []⟩, ⟨2, []⟩]
  copies := []
  reviews := []
  journal := []
  readStatuses := []
  series := []
  booksSeries := []
  seriesAliases := []
  overrides _ := none
  ids := by decide

def everything : Request := ⟨[[]], fun _ => true, []⟩

/-- The walk over the series axis lists the first book again and again, and never ends. -/
theorem endless_walk :
    (counted endlessLibrary everything).map (·.book.id) = [1, 2] ∧
      ¬∃ pages, Walk (servedBooks plainFunctions endlessLibrary .series .asc everything 1)
        none pages := by
  constructor
  · decide
  · intro ⟨pages, walk⟩
    have first : (servedBooks plainFunctions endlessLibrary .series .asc everything 1
        none).2 = some ⟨some "a".toList, none, 1⟩ := by
      decide +kernel
    have again : (servedBooks plainFunctions endlessLibrary .series .asc everything 1
        (some ⟨some "a".toList, none, 1⟩)).2 = some ⟨some "a".toList, none, 1⟩ := by
      decide +kernel
    exact walk.stuck _ first again

end Omnibus.BookPages
