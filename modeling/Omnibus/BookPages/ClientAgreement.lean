import Omnibus.BookPages.ClientStacks

/-!
# Two stackings of one list

When the rows and stacks of `stack_books` are those of the server's stacked walk: the keys are
computed on each side, and so is the order of a series.
-/

namespace Omnibus.BookPages

open Omnibus.Library.Strings Omnibus.Library.Keyset

section Agreement

variable (functions : Functions) (doubles : Doubles) (db : Database) (sort : SortKey)
  (dir : SortDir) (request : Request) (limit : Int)

def shownList : List Ebook :=
  (pageRows functions db sort dir request unstacked).map (toEbook doubles db)

def shownStack (stack : SeriesStack) : ClientStack :=
  ⟨toEbook doubles db stack.lead, stack.members.map (toEbook doubles db)⟩

/-- The client's rows are those of the stacked walk in order, and each lead's members the same. -/
def ClientAgrees : Prop :=
  ∃ pages, Walk (servedStacks functions db sort dir request limit) none pages ∧
    (pages.flatMap (·.books)).map (toEbook doubles db) =
      (stackBooks functions doubles (shownList functions doubles db sort dir request)).1 ∧
    ((pages.flatMap (·.seriesStacks)).map (shownStack doubles db)).Perm
      (stackBooks functions doubles (shownList functions doubles db sort dir request)).2

/-- Of any two books, both sides stack them together or apart, and order them the same way. -/
def PairsAgree : Prop :=
  ∀ left ∈ counted db request, ∀ right ∈ counted db request, left ≠ right →
    (Together (groupKey db) left right ↔
      Together (fun row => shownKey (toEbook doubles db row)) left right) ∧
    (Together (groupKey db) left right →
      (memberCmp functions left right = .lt ↔
        seriesOrderCmp functions doubles (toEbook doubles db left) (toEbook doubles db right) = .lt))

theorem page_rows_unstacked :
    pageRows functions db sort dir request unstacked =
      sortBy (pageCmp functions db sort dir) (counted db request) := by
  rw [pageRows, eligible_unstacked]

theorem mem_page_rows (row : Listed) :
    row ∈ pageRows functions db sort dir request unstacked ↔ row ∈ counted db request := by
  rw [page_rows_unstacked, (sort_by_perm _ _).mem_iff]

theorem representative_leads (row : Listed) :
    representative functions db sort dir request row =
      leads (groupKey db) (pageRows functions db sort dir request unstacked) row := by
  rw [representative, leads, page_rows_unstacked, ← List.head?_filter, sort_by_filter]
  exact page_cmp_tells functions db sort dir _ (counted_joined db request)

theorem representatives_eq :
    pageRows functions db sort dir request (representative functions db sort dir request) =
      (pageRows functions db sort dir request unstacked).filter
        (leads (groupKey db) (pageRows functions db sort dir request unstacked)) := by
  have same : representative functions db sort dir request =
      leads (groupKey db) (pageRows functions db sort dir request unstacked) :=
    funext (representative_leads functions db sort dir request)
  rw [← same, page_rows_unstacked, sort_by_filter _ _
    (page_cmp_tells functions db sort dir _ (counted_joined db request)), pageRows, eligible, counted]
  split
  · rfl
  · rw [List.filter_filter]
    congr 2
    funext row
    exact Bool.and_comm _ _

theorem shown_list_nodup : (shownList functions doubles db sort dir request).Nodup :=
  shown_nodup doubles db _
    (fun _ member => counted_joined db request
      ((mem_page_rows functions db sort dir request _).mp member))
    (page_rows_nodup functions db sort dir request unstacked)

theorem client_rows :
    (stackBooks functions doubles (shownList functions doubles db sort dir request)).1 =
      ((pageRows functions db sort dir request unstacked).filter
        (leads (fun row => shownKey (toEbook doubles db row))
          (pageRows functions db sort dir request unstacked))).map (toEbook doubles db) := by
  rw [stack_books_eq functions doubles _ (shown_list_nodup functions doubles db sort dir request),
    shownList, List.filter_map]
  apply congrArg (List.map (toEbook doubles db))
  apply List.filter_congr
  intro row member
  exact shown_leads doubles db _ (fun _ member => counted_joined db request
    ((mem_page_rows functions db sort dir request _).mp member)) row member

theorem mem_shown_group (key : Text) (book : Ebook) :
    book ∈ groupOf (shownList functions doubles db sort dir request) key ↔
      ∃ row ∈ counted db request, shownKey (toEbook doubles db row) = some key ∧
        toEbook doubles db row = book := by
  rw [mem_group_of, shownList, List.mem_map]
  constructor
  · intro ⟨⟨row, member, equal⟩, own⟩
    subst equal
    exact ⟨row, (mem_page_rows functions db sort dir request row).mp member, own, rfl⟩
  · intro ⟨row, member, own, equal⟩
    subst equal
    exact ⟨⟨row, (mem_page_rows functions db sort dir request row).mpr member, rfl⟩, own⟩

theorem shown_group_tells (key : Text) :
    Tells (seriesOrderCmp functions doubles)
      (groupOf (shownList functions doubles db sort dir request) key) := by
  intro left leftMem right rightMem same
  obtain ⟨first, firstMem, -, rfl⟩ :=
    (mem_shown_group functions doubles db sort dir request key left).mp leftMem
  obtain ⟨second, secondMem, -, rfl⟩ :=
    (mem_shown_group functions doubles db sort dir request key right).mp rightMem
  have ids := (Ordering.then_eq_eq.mp (Ordering.then_eq_eq.mp same).2).2
  rw [Std.LawfulEqOrd.compare_eq_iff_eq] at ids
  rw [List.inj_on_of_nodup_map (joined_ids db) (counted_joined db request firstMem)
    (counted_joined db request secondMem) ids]

/-- Where the sides agree on every pair, the members of a book's series are the same in order. -/
theorem members_agree (agree : PairsAgree functions doubles db request) (row : Listed)
    (listed : row ∈ counted db request) (key shown : Text) (own : groupKey db row = some key)
    (ownShown : shownKey (toEbook doubles db row) = some shown) :
    (membersOf functions db request key).map (toEbook doubles db) =
      sortBy (seriesOrderCmp functions doubles)
        (groupOf (shownList functions doubles db sort dir request) shown) := by
  have together (book : Listed) (member : book ∈ counted db request) :
      groupKey db book = some key ↔ shownKey (toEbook doubles db book) = some shown := by
    by_cases same : book = row
    · rw [same]
      exact iff_of_true own ownShown
    · have both := (agree book member row listed same).1
      constructor
      · intro grouped
        obtain ⟨shared, first, second⟩ := both.mp ⟨key, grouped, own⟩
        have first' : shownKey (toEbook doubles db book) = some shared := first
        have second' : shownKey (toEbook doubles db row) = some shared := second
        exact first'.trans (second'.symm.trans ownShown)
      · intro grouped
        obtain ⟨shared, first, second⟩ := both.mpr ⟨shown, grouped, ownShown⟩
        exact first.trans (second.symm.trans own)
  have within : membersOf functions db request key ⊆ db.joined := fun book member =>
    counted_joined db request ((mem_members_of functions db request key book).mp member).1
  have strict : (membersOf functions db request key).Pairwise fun left right =>
      memberCmp functions left right = .lt :=
    sort_by_strict _ _ (member_cmp_tells functions db _ fun _ member =>
      counted_joined db request (List.mem_of_mem_filter member)) ((counted_nodup db request).filter _)
  apply sort_by_unique
  · exact shown_group_tells functions doubles db sort dir request shown
  · rw [List.perm_ext_iff_of_nodup]
    · intro book
      rw [mem_shown_group, List.mem_map]
      constructor
      · intro ⟨member, inside, equal⟩
        subst equal
        obtain ⟨listed', grouped⟩ := (mem_members_of functions db request key member).mp inside
        exact ⟨member, listed', (together member listed').mp grouped, rfl⟩
      · intro ⟨member, listed', grouped, equal⟩
        subst equal
        exact ⟨member, (mem_members_of functions db request key member).mpr
          ⟨listed', (together member listed').mpr grouped⟩, rfl⟩
    · exact shown_nodup doubles db _ within (members_of_nodup functions db request key)
    · exact (shown_list_nodup functions doubles db sort dir request).filter _
  · rw [List.pairwise_map]
    apply List.Pairwise.imp_of_mem _ strict
    intro left right leftMem rightMem less
    obtain ⟨leftListed, leftGroup⟩ := (mem_members_of functions db request key left).mp leftMem
    obtain ⟨rightListed, rightGroup⟩ := (mem_members_of functions db request key right).mp rightMem
    have apart : left ≠ right := by
      intro equal
      subst equal
      rw [@Std.ReflCmp.compare_self _ (memberCmp functions) _ _] at less
      cases less
    rw [((agree left leftListed right rightListed apart).2 ⟨key, leftGroup, rightGroup⟩).mp less]
    rfl

theorem lone_group {Row : Type} (rows : List Row) (row : Row) (nodup : rows.Nodup)
    (alone : ∀ other ∈ rows, other = row) : ¬2 ≤ rows.length := by
  intro several
  rcases rows with - | ⟨first, - | ⟨second, rest⟩⟩
  · simp at several
  · simp at several
  · have one := alone first List.mem_cons_self
    have two := alone second (List.mem_cons_of_mem _ List.mem_cons_self)
    rw [List.nodup_cons] at nodup
    apply nodup.1
    rw [one, ← two]
    exact List.mem_cons_self

theorem stack_agrees (agree : PairsAgree functions doubles db request) (row : Listed)
    (listed : row ∈ counted db request) :
    (stackOf functions db request row).map (shownStack doubles db) =
      clientStack functions doubles (shownList functions doubles db sort dir request)
        (toEbook doubles db row) := by
  rw [stackOf, clientStack]
  cases own : groupKey db row with
  | none =>
      cases ownShown : seriesGroupKey (toEbook doubles db row).series with
      | none => rfl
      | some shown =>
          have few : ¬2 ≤ (groupOf (shownList functions doubles db sort dir request) shown).length := by
            apply lone_group _ (toEbook doubles db row)
            · exact (shown_list_nodup functions doubles db sort dir request).filter _
            · intro book inside
              obtain ⟨other, otherListed, same, rfl⟩ :=
                (mem_shown_group functions doubles db sort dir request shown book).mp inside
              by_contra apart
              obtain ⟨key, grouped, -⟩ := (agree row listed other otherListed (by
                intro equal
                subst equal
                exact apart rfl)).1.mpr ⟨shown, ownShown, same⟩
              rw [own] at grouped
              cases grouped
          simp [Option.filter, few]
  | some key =>
      cases ownShown : seriesGroupKey (toEbook doubles db row).series with
      | none =>
          have few : ¬2 ≤ (membersOf functions db request key).length := by
            apply lone_group _ row (members_of_nodup functions db request key)
            intro other inside
            obtain ⟨otherListed, same⟩ := (mem_members_of functions db request key other).mp inside
            by_contra apart
            obtain ⟨shown, grouped, -⟩ := (agree row listed other otherListed
              (Ne.symm apart)).1.mp ⟨key, own, same⟩
            have none' : shownKey (toEbook doubles db row) = none := ownShown
            rw [show shownKey (toEbook doubles db row) = some shown from grouped] at none'
            cases none'
          simp [few]
      | some shown =>
          have members := members_agree functions doubles db sort dir request agree row listed key
            shown own ownShown
          have sizes := congrArg List.length members
          rw [List.length_map, (sort_by_perm _ _).length_eq] at sizes
          by_cases several : 2 ≤ (membersOf functions db request key).length
          · simp [several, ← sizes, shownStack, members]
          · have few : ¬2 ≤ (groupOf (shownList functions doubles db sort dir request) shown).length :=
              sizes ▸ several
            simp [Option.filter, several, few]

theorem orders_agree {Row Image : Type} (first : Row → Row → Ordering)
    (second : Image → Image → Ordering) [Std.OrientedCmp first] [Std.OrientedCmp second]
    (image : Row → Image) (rows : List Row)
    (one : rows.Pairwise fun left right => first left right = .lt)
    (two : (rows.map image).Pairwise fun left right => second left right = .lt)
    (left right : Row) (leftMem : left ∈ rows) (rightMem : right ∈ rows) (apart : left ≠ right) :
    first left right = .lt ↔ second (image left) (image right) = .lt := by
  rw [List.pairwise_map] at two
  let ordered (left right : Row) : Prop :=
    first left right = .lt ∧ second (image left) (image right) = .lt
  have symmetric : Std.Symm fun left right => ordered left right ∨ ordered right left :=
    ⟨fun _ _ either => either.symm⟩
  have either := (List.Pairwise.imp (fun both => Or.inl both) (one.and two) :
    rows.Pairwise fun left right => ordered left right ∨ ordered right left).forall
      leftMem rightMem apart
  rcases either with before | after
  · exact iff_of_true before.1 before.2
  · apply iff_of_false
    · exact Std.OrientedCmp.not_lt_of_lt after.1
    · exact Std.OrientedCmp.not_lt_of_lt after.2

theorem mem_client_stacks (stack : ClientStack) :
    stack ∈ (stackBooks functions doubles (shownList functions doubles db sort dir request)).2 ↔
      ∃ row ∈ pageRows functions db sort dir request unstacked,
        leads (fun row => shownKey (toEbook doubles db row))
          (pageRows functions db sort dir request unstacked) row = true ∧
        clientStack functions doubles (shownList functions doubles db sort dir request)
          (toEbook doubles db row) = some stack := by
  rw [stack_books_eq functions doubles _ (shown_list_nodup functions doubles db sort dir request),
    List.mem_filterMap]
  have rows := client_rows functions doubles db sort dir request
  rw [stack_books_eq functions doubles _ (shown_list_nodup functions doubles db sort dir request)]
    at rows
  simp only at rows
  rw [rows]
  constructor
  · rintro ⟨book, member, stacked⟩
    obtain ⟨row, chosen, rfl⟩ := List.mem_map.mp member
    exact ⟨row, (List.mem_filter.mp chosen).1, (List.mem_filter.mp chosen).2, stacked⟩
  · rintro ⟨row, member, first, stacked⟩
    exact ⟨_, List.mem_map_of_mem (List.mem_filter.mpr ⟨member, first⟩), stacked⟩

theorem client_stack_some (books : List Ebook) (book : Ebook) (stack : ClientStack)
    (stacked : clientStack functions doubles books book = some stack) :
    stack.lead = book ∧ ∃ key, shownKey book = some key ∧
      stack.members = sortBy (seriesOrderCmp functions doubles) (groupOf books key) := by
  obtain ⟨key, chosen, rfl⟩ := Option.map_eq_some_iff.mp stacked
  exact ⟨rfl, key, (Option.filter_eq_some_iff.mp chosen).1, rfl⟩

theorem client_stack_of_pair (left right : Listed) (leftMem : left ∈ counted db request)
    (rightMem : right ∈ counted db request) (apart : left ≠ right) (key : Text)
    (one : shownKey (toEbook doubles db left) = some key)
    (two : shownKey (toEbook doubles db right) = some key) :
    ∃ first ∈ pageRows functions db sort dir request unstacked,
      leads (fun row => shownKey (toEbook doubles db row))
        (pageRows functions db sort dir request unstacked) first = true ∧
      clientStack functions doubles (shownList functions doubles db sort dir request)
        (toEbook doubles db first) = some ⟨toEbook doubles db first,
          sortBy (seriesOrderCmp functions doubles)
            (groupOf (shownList functions doubles db sort dir request) key)⟩ := by
  have several : 2 ≤ (groupOf (shownList functions doubles db sort dir request) key).length := by
    by_contra few
    have inside (row : Listed) (listed : row ∈ counted db request)
        (own : shownKey (toEbook doubles db row) = some key) :=
      (mem_shown_group functions doubles db sort dir request key _).mpr ⟨row, listed, own, rfl⟩
    have here := inside left leftMem one
    have there := inside right rightMem two
    rcases shape : groupOf (shownList functions doubles db sort dir request) key with
      - | ⟨only, - | ⟨_, _⟩⟩
    · rw [shape] at here
      cases here
    · rw [shape, List.mem_singleton] at here there
      exact apart (to_ebook_injective doubles db left right (counted_joined db request leftMem)
        (counted_joined db request rightMem) (here.trans there.symm))
    · rw [shape] at few
      simp at few
  cases found : (pageRows functions db sort dir request unstacked).find? fun row =>
      shownKey (toEbook doubles db row) = some key with
  | none =>
      exfalso
      exact List.find?_eq_none.mp found left
        ((mem_page_rows functions db sort dir request left).mpr leftMem) (decide_eq_true one)
  | some first =>
      have own : shownKey (toEbook doubles db first) = some key := by
        simpa using List.find?_some found
      refine ⟨first, List.mem_of_find?_eq_some found, ?_, ?_⟩
      · rw [leads, own, found]
        simp
      · rw [clientStack, show seriesGroupKey (toEbook doubles db first).series = some key from own]
        simp [Option.filter, several]

section Matched

variable (rows : List Listed)
  (within : rows ⊆
    pageRows functions db sort dir request (representative functions db sort dir request))
  (sameRows : rows.map (toEbook doubles db) =
    (stackBooks functions doubles (shownList functions doubles db sort dir request)).1)
  (sameStacks : ((rows.filterMap (stackOf functions db request)).map (shownStack doubles db)).Perm
    (stackBooks functions doubles (shownList functions doubles db sort dir request)).2)

include within sameRows in
theorem mem_matched (row : Listed) :
    row ∈ rows ↔ row ∈ pageRows functions db sort dir request unstacked ∧
      leads (fun row => shownKey (toEbook doubles db row))
        (pageRows functions db sort dir request unstacked) row = true := by
  have joined (other : Listed) (member : other ∈ rows) : other ∈ db.joined :=
    counted_joined db request
      ((mem_representatives functions db request sort dir other).mp (within member)).1
  rw [client_rows] at sameRows
  rw [← List.mem_filter]
  constructor
  · intro member
    have image := List.mem_map_of_mem (f := toEbook doubles db) member
    rw [sameRows] at image
    obtain ⟨other, inside, same⟩ := List.mem_map.mp image
    obtain rfl := to_ebook_injective doubles db other row (counted_joined db request
      ((mem_page_rows functions db sort dir request other).mp (List.mem_of_mem_filter inside)))
      (joined row member) same
    exact inside
  · intro member
    have image := List.mem_map_of_mem (f := toEbook doubles db) member
    rw [← sameRows] at image
    obtain ⟨other, inside, same⟩ := List.mem_map.mp image
    obtain rfl := to_ebook_injective doubles db other row (joined other inside)
      (counted_joined db request
        ((mem_page_rows functions db sort dir request row).mp (List.mem_of_mem_filter member))) same
    exact inside

include sameStacks in
theorem server_stack (stack : ClientStack)
    (held : stack ∈
      (stackBooks functions doubles (shownList functions doubles db sort dir request)).2) :
    ∃ row ∈ rows, ∃ key, groupKey db row = some key ∧ stack.lead = toEbook doubles db row ∧
      stack.members = (membersOf functions db request key).map (toEbook doubles db) := by
  obtain ⟨served, inside, rfl⟩ := List.mem_map.mp (sameStacks.mem_iff.mpr held)
  obtain ⟨row, member, stacked⟩ := List.mem_filterMap.mp inside
  obtain ⟨rfl, -, key, own, same⟩ := stack_of_some functions db request row served stacked
  exact ⟨served.lead, member, key, own, rfl, by rw [shownStack, same]⟩

include sameStacks in
/-- A pair the client stacks is a pair the server stacks, under the client's lead. -/
theorem client_pair (left right : Listed) (leftMem : left ∈ counted db request)
    (rightMem : right ∈ counted db request) (apart : left ≠ right) (key : Text)
    (one : shownKey (toEbook doubles db left) = some key)
    (two : shownKey (toEbook doubles db right) = some key) :
    ∃ first ∈ rows, ∃ shared, groupKey db first = some shared ∧
      groupKey db left = some shared ∧ groupKey db right = some shared := by
  obtain ⟨first, firstMem, leading, stacked⟩ := client_stack_of_pair functions doubles db sort dir
    request left right leftMem rightMem apart key one two
  obtain ⟨row, member, shared, own, sameLead, sameMembers⟩ :=
    server_stack functions doubles db sort dir request rows sameStacks _
      ((mem_client_stacks functions doubles db sort dir request _).mpr
        ⟨first, firstMem, leading, stacked⟩)
  have inside (book : Listed) (listed : book ∈ counted db request)
      (grouped : shownKey (toEbook doubles db book) = some key) : groupKey db book = some shared := by
    have held : toEbook doubles db book ∈ sortBy (seriesOrderCmp functions doubles)
        (groupOf (shownList functions doubles db sort dir request) key) := by
      rw [(sort_by_perm _ _).mem_iff]
      exact (mem_shown_group functions doubles db sort dir request key _).mpr
        ⟨book, listed, grouped, rfl⟩
    simp only at sameMembers
    rw [sameMembers] at held
    obtain ⟨other, there, same⟩ := List.mem_map.mp held
    obtain ⟨otherListed, otherKey⟩ := (mem_members_of functions db request shared other).mp there
    obtain rfl := to_ebook_injective doubles db other book (counted_joined db request otherListed)
      (counted_joined db request listed) same
    exact otherKey
  exact ⟨row, member, shared, own, inside left leftMem one, inside right rightMem two⟩

include within sameRows sameStacks in
theorem matched_perm :
    rows.Perm (pageRows functions db sort dir request
      (representative functions db sort dir request)) := by
  have distinct : rows.Nodup := by
    apply List.Nodup.of_map (toEbook doubles db)
    rw [sameRows,
      stack_books_eq functions doubles _ (shown_list_nodup functions doubles db sort dir request)]
    exact (shown_list_nodup functions doubles db sort dir request).filter _
  rw [List.perm_ext_iff_of_nodup distinct (page_rows_nodup functions db sort dir request _)]
  intro row
  constructor
  · exact fun member => within member
  · intro member
    obtain ⟨listed, leading⟩ := (mem_representatives functions db request sort dir row).mp member
    have inList := (mem_page_rows functions db sort dir request row).mpr listed
    rw [mem_matched functions doubles db sort dir request rows within sameRows]
    refine ⟨inList, ?_⟩
    by_contra follows
    rw [leads, Bool.or_eq_true, not_or, decide_eq_true_eq, decide_eq_true_eq] at follows
    obtain ⟨key, own⟩ := Option.ne_none_iff_exists'.mp follows.1
    cases found : (pageRows functions db sort dir request unstacked).find? fun other =>
        shownKey (toEbook doubles db other) = some key with
    | none =>
        exact List.find?_eq_none.mp found row inList (decide_eq_true own)
    | some first =>
        have firstKey : shownKey (toEbook doubles db first) = some key := by
          simpa using List.find?_some found
        have apart : first ≠ row := by
          intro equal
          subst equal
          apply follows.2
          rw [own]
          exact found
        have firstMem := List.mem_of_find?_eq_some found
        have firstRow : first ∈ rows := by
          rw [mem_matched functions doubles db sort dir request rows within sameRows]
          refine ⟨firstMem, ?_⟩
          rw [leads, firstKey, found]
          simp
        obtain ⟨-, -, shared, -, one, two⟩ := client_pair functions doubles db sort dir request rows
          sameStacks first row
          ((mem_page_rows functions db sort dir request first).mp firstMem) listed apart key firstKey own
        exact apart (representatives_apart functions db request sort dir first row
          ((mem_representatives functions db request sort dir first).mp (within firstRow)).2 leading
          shared one two)

include within sameRows sameStacks in
/-- A pair the server stacks is a pair of a stack of the client, in the order of the server. -/
theorem server_pair (left right : Listed) (leftMem : left ∈ counted db request)
    (rightMem : right ∈ counted db request) (apart : left ≠ right) (key : Text)
    (one : groupKey db left = some key) (two : groupKey db right = some key) :
    ∃ shown, (membersOf functions db request key).map (toEbook doubles db) =
      sortBy (seriesOrderCmp functions doubles)
        (groupOf (shownList functions doubles db sort dir request) shown) := by
  obtain ⟨row, listed, leading, inside⟩ := represented functions db request sort dir left leftMem
  have member : row ∈ rows := by
    rw [(matched_perm functions doubles db sort dir request rows within sameRows sameStacks).mem_iff]
    exact (mem_representatives functions db request sort dir row).mpr ⟨listed, leading⟩
  have own : groupKey db row = some key := by
    rcases ((mem_bundle functions db request row listed left).mp inside).2 with rfl |
      ⟨shared, rowKey, leftKey⟩
    · exact one
    · rw [rowKey, ← leftKey, one]
  have several : 2 ≤ (membersOf functions db request key).length := by
    by_contra few
    have here := (mem_members_of functions db request key left).mpr ⟨leftMem, one⟩
    have there := (mem_members_of functions db request key right).mpr ⟨rightMem, two⟩
    rcases shape : membersOf functions db request key with - | ⟨only, - | ⟨_, _⟩⟩
    · rw [shape] at here
      cases here
    · rw [shape, List.mem_singleton] at here there
      exact apart (here.trans there.symm)
    · rw [shape] at few
      simp at few
  have stacked : stackOf functions db request row = some ⟨row, membersOf functions db request key⟩ := by
    rw [stackOf, own, Option.bind_some, if_pos several]
  have held := sameStacks.mem_iff.mp
    (List.mem_map_of_mem (List.mem_filterMap.mpr ⟨row, member, stacked⟩))
  obtain ⟨first, -, -, chosen⟩ := (mem_client_stacks functions doubles db sort dir request _).mp held
  obtain ⟨-, shown, -, same⟩ := client_stack_some functions doubles _ _ _ chosen
  exact ⟨shown, same⟩

include within sameRows sameStacks in
theorem matched_pairs : PairsAgree functions doubles db request := by
  intro left leftMem right rightMem apart
  have inner (key : Text) (one : groupKey db left = some key) (two : groupKey db right = some key) :=
    server_pair functions doubles db sort dir request rows within sameRows sameStacks left right
      leftMem rightMem apart key one two
  refine ⟨⟨?_, ?_⟩, ?_⟩
  · intro ⟨key, one, two⟩
    obtain ⟨shown, same⟩ := inner key one two
    have inside (book : Listed) (listed : book ∈ counted db request)
        (grouped : groupKey db book = some key) :
        shownKey (toEbook doubles db book) = some shown := by
      have held := List.mem_map_of_mem (f := toEbook doubles db)
        ((mem_members_of functions db request key book).mpr ⟨listed, grouped⟩)
      rw [same, (sort_by_perm _ _).mem_iff, mem_group_of] at held
      exact held.2
    exact ⟨shown, inside left leftMem one, inside right rightMem two⟩
  · intro ⟨key, one, two⟩
    obtain ⟨-, -, shared, -, first, second⟩ := client_pair functions doubles db sort dir request rows
      sameStacks left right leftMem rightMem apart key one two
    exact ⟨shared, first, second⟩
  · intro ⟨key, one, two⟩
    obtain ⟨shown, same⟩ := inner key one two
    apply orders_agree (memberCmp functions) (seriesOrderCmp functions doubles) (toEbook doubles db)
      (membersOf functions db request key)
    · exact sort_by_strict _ _ (member_cmp_tells functions db _ fun _ member =>
        counted_joined db request (List.mem_of_mem_filter member))
          ((counted_nodup db request).filter _)
    · rw [same]
      exact sort_by_strict _ _ (shown_group_tells functions doubles db sort dir request shown)
        ((shown_list_nodup functions doubles db sort dir request).filter _)
    · exact (mem_members_of functions db request key left).mpr ⟨leftMem, one⟩
    · exact (mem_members_of functions db request key right).mpr ⟨rightMem, two⟩
    · exact apart

end Matched

/-- The client's stacks are the server's exactly where both sides agree on every pair of books and
the stacked walk ends no page at an infinite index but where it may. -/
theorem client_agrees_iff :
    ClientAgrees functions doubles db sort dir request limit ↔
      PairsAgree functions doubles db request ∧
        SplitsAllSafely functions db sort dir request (representative functions db sort dir request)
          limit := by
  rw [ClientAgrees, served_stacks_eq]
  constructor
  · intro ⟨pages, walk, sameRows, sameStacks⟩
    obtain ⟨pages, served, rfl⟩ := Walk.of_map (servedPage functions db sort dir request
      (representative functions db sort dir request) limit) (withStacks functions db request) walk
    have leads := walk_leads functions db sort dir request limit served
    have within : pages.flatMap (·.books) ⊆ pageRows functions db sort dir request
        (representative functions db sort dir request) := by
      intro row member
      obtain ⟨page, inside, here⟩ := List.mem_flatMap.mp member
      exact (leads page inside).within here
    rw [List.flatMap_map] at sameRows
    have stacks' := ((pages_stacks functions db sort dir request pages leads).map
      (shownStack doubles db)).symm.trans sameStacks
    constructor
    · exact matched_pairs functions doubles db sort dir request _ within sameRows stacks'
    · rw [← walk_lists_iff]
      exact ⟨pages, served,
        matched_perm functions doubles db sort dir request _ within sameRows stacks'⟩
  · intro ⟨agree, splits⟩
    obtain ⟨pages, served, listed⟩ := walk_in_order functions db sort dir request
      (representative functions db sort dir request) limit splits
    have leads := walk_leads functions db sort dir request limit served
    rw [representatives_eq, List.filter_congr fun row member =>
      leads_congr (pageCmp functions db sort dir) _
        (page_rows_strict functions db sort dir request unstacked) (groupKey db)
        (fun row => shownKey (toEbook doubles db row))
        (fun left leftMem right rightMem apart => (agree left
          ((mem_page_rows functions db sort dir request left).mp leftMem) right
          ((mem_page_rows functions db sort dir request right).mp rightMem) apart).1) row member]
      at listed
    refine ⟨_, served.map _ (withStacks functions db request), ?_, ?_⟩
    · rw [List.flatMap_map, client_rows, ← listed]
      rfl
    · have stacks' := (pages_stacks functions db sort dir request pages leads).map
        (shownStack doubles db)
      have rows := client_rows functions doubles db sort dir request
      rw [stack_books_eq functions doubles _ (shown_list_nodup functions doubles db sort dir request)]
        at rows ⊢
      simp only at rows ⊢
      apply stacks'.trans
      apply List.Perm.of_eq
      rw [rows, listed, List.map_filterMap, List.filterMap_map]
      apply List.filterMap_congr
      intro row member
      exact stack_agrees functions doubles db sort dir request agree row
        ((mem_page_rows functions db sort dir request row).mp (List.mem_of_mem_filter member))

end Agreement

/-! ## Titles that fold alike -/

def titledBook (id : Int) (title : String) : Book :=
  ⟨id, title.toList, 1, some title.toList, none, none, none, none, none, none⟩

def twins : Database where
  roots := [⟨1, [], none⟩]
  books := [titledBook 1 "alpha", titledBook 2 "Alpha"]
  files := [⟨1, []⟩, ⟨2, []⟩]
  copies := []
  reviews := []
  journal := []
  readStatuses := []
  series := [⟨1, "greek".toList⟩]
  booksSeries := [(1, 1), (2, 1)]
  seriesAliases := []
  overrides _ := none
  ids := by decide

def foldedCase : Functions := { plainFunctions with fold := fun text => text.map Char.toLower }

def plainDoubles : Doubles := ⟨fun _ => [], fun _ => none⟩

/-- The server files the capital first and the client the smaller id. -/
theorem twins_disagree :
    ¬ClientAgrees foldedCase plainDoubles twins .title .asc everything 10 := by
  rintro ⟨pages, walk, -, same⟩
  have ended : (servedStacks foldedCase twins .title .asc everything 10 none).2 = none := by
    decide +kernel
  cases walk with
  | last _ _ =>
      revert same
      decide +kernel
  | more _ next _ continued _ =>
      rw [ended] at continued
      cases continued

end Omnibus.BookPages
