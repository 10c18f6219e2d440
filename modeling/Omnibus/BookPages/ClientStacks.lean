import Mathlib.Data.Rat.Floor
import Omnibus.BookPages.Partition

/-!
# The client's series stacks

`stack_books` over the books as a listing shows them: its rows are the books that lead their groups
or are alone, and its stacks are theirs.
-/

namespace Omnibus.BookPages

open Omnibus.Library.Strings Omnibus.Library.Keyset

structure Ebook where
  id : Int
  uniqueIdentifier : Text
  title : Option Text
  series : Option Text
  seriesIndex : Option Text
  deriving DecidableEq

structure Finite where
  value : ℚ
  negativeZero : Bool
  deriving DecidableEq

/-- Rust's own reading and writing of doubles: the `Display` of one, and the finite number a text
parses to. -/
structure Doubles where
  display : Real → Text
  parse : Text → Option Finite

/-- `f64::total_cmp` on finite numbers. -/
def totalCmp (left right : Finite) : Ordering :=
  (compare left.value right.value).then (compare (!left.negativeZero) (!right.negativeZero))

def formatSeriesIndex (doubles : Doubles) (number : Real) : Text :=
  match number.finite with
  | none => doubles.display number
  | some value =>
      let whole := if 0 ≤ value then ⌊value⌋ else ⌈value⌉
      if |value - whole| < 1 / 2 ^ 52 then
        let bounded := max (-9000000000000000) (min whole 9000000000000000)
        (if bounded < 0 then ['-'] else []) ++ decimal bounded.natAbs
      else doubles.display number

/-- The linked series a book shows: the one the scan linked first, then by name. -/
def shownSeries (db : Database) (row : Listed) : Option Text :=
  let scanned (series : Series) : Bool :=
    row.book.seriesSort.any fun sort =>
      nocase series.name = nocase sort ||
        ((db.seriesAliases.find? fun entry => nocase entry.aliasName = nocase sort).any fun entry =>
          series.id = entry.canonicalId)
  let linked := db.series.filter fun series => (row.book.id, series.id) ∈ db.booksSeries
  ((sortBy (fun left right : Series => (compare (scanned right) (scanned left)).then
    (compare (nocase left.name) (nocase right.name))) linked).head?).map (·.name)

/-- `row_to_ebook` with the overrides applied. -/
def toEbook (doubles : Doubles) (db : Database) (row : Listed) : Ebook where
  id := row.book.id
  uniqueIdentifier := row.book.uuid
  title := (overridePresent (·.title) row).or row.book.title
  series :=
    match overridePresent (·.series) row with
    | some content => nullIfEmpty (some content)
    | none => shownSeries db row
  seriesIndex :=
    (overridePresent (·.seriesIndex) row).or (row.book.seriesIndex.map (formatSeriesIndex doubles))

def seriesGroupKey (series : Option Text) : Option Text :=
  series.bind fun series =>
    let trimmed := trimSpaces series
    if trimmed = [] then none else some (trimmed.map Char.toLower)

def seriesNumber (doubles : Doubles) (book : Ebook) : Option Finite :=
  book.seriesIndex.bind fun index => doubles.parse (trim index)

def titleTieBreak (functions : Functions) (left right : Ebook) : Ordering :=
  (compare (functions.fold (left.title.getD [])) (functions.fold (right.title.getD []))).then
    (compare left.id right.id)

/-- The order of `sort_series_order`. -/
def seriesOrderCmp (functions : Functions) (doubles : Doubles) (left right : Ebook) : Ordering :=
  (nullsLast totalCmp (seriesNumber doubles left) (seriesNumber doubles right)).then
    (titleTieBreak functions left right)

structure ClientStack where
  lead : Ebook
  members : List Ebook
  deriving DecidableEq

section Client

variable (functions : Functions) (doubles : Doubles)

def groupOf (books : List Ebook) (key : Text) : List Ebook :=
  books.filter fun book => seriesGroupKey book.series = some key

def stackFrom (books : List Ebook) (placed : List Text) : List Ebook → List Ebook × List ClientStack
  | [] => ([], [])
  | book :: rest =>
      match (seriesGroupKey book.series).filter fun key => 2 ≤ (groupOf books key).length with
      | none =>
          let (rows, stacks') := stackFrom books placed rest
          (book :: rows, stacks')
      | some key =>
          if key ∈ placed then stackFrom books placed rest
          else
            let members := sortBy (seriesOrderCmp functions doubles) (groupOf books key)
            let (rows, stacks') := stackFrom books (key :: placed) rest
            (book :: rows, ⟨book, members⟩ :: stacks')

/-- Stack a whole list: the rows, and the stacks with the rows that lead them. -/
def stackBooks (books : List Ebook) : List Ebook × List ClientStack :=
  stackFrom functions doubles books [] books

def clientStack (books : List Ebook) (book : Ebook) : Option ClientStack :=
  ((seriesGroupKey book.series).filter fun key => 2 ≤ (groupOf books key).length).map fun key =>
    ⟨book, sortBy (seriesOrderCmp functions doubles) (groupOf books key)⟩

def shownKey (book : Ebook) : Option Text := seriesGroupKey book.series

theorem mem_group_of (books : List Ebook) (key : Text) (book : Ebook) :
    book ∈ groupOf books key ↔ book ∈ books ∧ shownKey book = some key := by
  rw [groupOf, List.mem_filter, decide_eq_true_eq, shownKey]

theorem leads_split (before rest : List Ebook) (book : Ebook)
    (nodup : (before ++ book :: rest).Nodup) (key : Text) (own : shownKey book = some key) :
    leads shownKey (before ++ book :: rest) book = true ↔
      ∀ other ∈ before, shownKey other ≠ some key := by
  rw [leads, own, Bool.or_eq_true, decide_eq_true_eq, decide_eq_true_eq]
  constructor
  · intro first other member same
    have head := first.resolve_left (Option.some_ne_none key)
    rw [List.find?_append] at head
    cases found : before.find? fun next => shownKey next = some key with
    | none => exact List.find?_eq_none.mp found other member (decide_eq_true same)
    | some lead =>
        rw [found, Option.some_or, Option.some.injEq] at head
        have inside := List.mem_of_find?_eq_some found
        rw [head] at inside
        exact List.disjoint_of_nodup_append nodup inside List.mem_cons_self
  · intro none'
    right
    have missing : before.find? (fun next => shownKey next = some key) = none := by
      rw [List.find?_eq_none]
      intro other member same
      exact none' other member (of_decide_eq_true same)
    rw [List.find?_append, missing, Option.none_or]
    simp [own]

theorem leads_of_few (before rest : List Ebook) (book : Ebook)
    (nodup : (before ++ book :: rest).Nodup)
    (few : ∀ key, shownKey book = some key →
      ¬2 ≤ (groupOf (before ++ book :: rest) key).length) :
    leads shownKey (before ++ book :: rest) book = true := by
  cases grouped : shownKey book with
  | none => simp [leads, grouped]
  | some key =>
      rw [leads_split before rest book nodup key grouped]
      intro other member same
      apply few key grouped
      have first : [other].Sublist (groupOf before key) :=
        List.singleton_sublist.mpr ((mem_group_of before key other).mpr ⟨member, same⟩)
      have second : [book].Sublist (groupOf (book :: rest) key) :=
        List.singleton_sublist.mpr
          ((mem_group_of (book :: rest) key book).mpr ⟨List.mem_cons_self, grouped⟩)
      have both := (first.append second).length_le
      rwa [groupOf, groupOf, ← List.filter_append] at both

/-- The keys placed before a book, and the book's own when its group is a stack, are those placed
after it. -/
theorem placed_next {books before : List Ebook} {placed later : List Text} (book : Ebook)
    (known : ∀ key, key ∈ placed ↔ 2 ≤ (groupOf books key).length ∧
      ∃ other ∈ before, shownKey other = some key)
    (grows : ∀ key, key ∈ later ↔ key ∈ placed ∨
      (2 ≤ (groupOf books key).length ∧ shownKey book = some key)) (key : Text) :
    key ∈ later ↔ 2 ≤ (groupOf books key).length ∧
      ∃ other ∈ before ++ [book], shownKey other = some key := by
  rw [grows, known]
  constructor
  · rintro (⟨many, other, member, same⟩ | ⟨many, own⟩)
    · exact ⟨many, other, List.mem_append_left _ member, same⟩
    · exact ⟨many, book, List.mem_append_right _ List.mem_cons_self, own⟩
  · intro ⟨many, other, member, same⟩
    rcases List.mem_append.mp member with earlier | here
    · exact Or.inl ⟨many, other, earlier, same⟩
    · rw [List.mem_singleton.mp here] at same
      exact Or.inr ⟨many, same⟩

/-- The rows are the books that lead their groups or are alone, and the stacks are theirs. -/
theorem stack_from_eq (books before rest : List Ebook) (placed : List Text)
    (split : books = before ++ rest) (nodup : books.Nodup)
    (known : ∀ key, key ∈ placed ↔ 2 ≤ (groupOf books key).length ∧
      ∃ other ∈ before, shownKey other = some key) :
    stackFrom functions doubles books placed rest =
      (rest.filter (leads shownKey books),
        (rest.filter (leads shownKey books)).filterMap (clientStack functions doubles books)) := by
  induction rest generalizing before placed with
  | nil => rfl
  | cons book rest induction =>
      have next : books = (before ++ [book]) ++ rest := by
        rw [split, List.append_assoc, List.singleton_append]
      have apart : (before ++ book :: rest).Nodup := split ▸ nodup
      have own : (clientStack functions doubles books book) =
          ((shownKey book).filter fun key => 2 ≤ (groupOf books key).length).map fun key =>
            ⟨book, sortBy (seriesOrderCmp functions doubles) (groupOf books key)⟩ := rfl
      rw [stackFrom]
      cases several : (seriesGroupKey book.series).filter fun key =>
          2 ≤ (groupOf books key).length with
      | none =>
          have few : ∀ key, shownKey book = some key → ¬2 ≤ (groupOf books key).length := by
            intro key grouped
            rw [show seriesGroupKey book.series = some key from grouped] at several
            simpa [Option.filter] using several
          have alone : leads shownKey books book = true := by
            rw [split] at few ⊢
            exact leads_of_few before rest book apart few
          have rest' := induction (before ++ [book]) placed next (placed_next book known (by
            intro key
            constructor
            · exact Or.inl
            · rintro (earlier | ⟨many, own⟩)
              · exact earlier
              · exact absurd many (few key own)))
          simp only [rest']
          rw [List.filter_cons_of_pos alone, List.filterMap_cons, own,
            show (shownKey book).filter _ = none from several]
          rfl
      | some key =>
          obtain ⟨grouped, many⟩ := Option.filter_eq_some_iff.mp several
          have many' : 2 ≤ (groupOf books key).length := of_decide_eq_true many
          by_cases here : key ∈ placed
          · obtain ⟨-, other, member, same⟩ := (known key).mp here
            have follows : ¬leads shownKey books book = true := by
              rw [split, leads_split before rest book apart key grouped]
              exact fun none' => none' other member same
            have rest' := induction (before ++ [book]) placed next (placed_next book known (by
              intro key'
              constructor
              · exact Or.inl
              · rintro (earlier | ⟨_, own⟩)
                · exact earlier
                · rwa [← Option.some.inj (grouped.symm.trans own)]))
            simp only [if_pos here, rest']
            rw [List.filter_cons_of_neg follows]
          · have first : leads shownKey books book = true := by
              rw [split, leads_split before rest book apart key grouped]
              exact fun other member same => here ((known key).mpr ⟨many', other, member, same⟩)
            have rest' := induction (before ++ [book]) (key :: placed) next
              (placed_next book known (by
                intro key'
                rw [List.mem_cons]
                constructor
                · rintro (rfl | earlier)
                  · exact Or.inr ⟨many', grouped⟩
                  · exact Or.inl earlier
                · rintro (earlier | ⟨_, own⟩)
                  · exact Or.inr earlier
                  · exact Or.inl (Option.some.inj (own.symm.trans grouped))))
            simp only [if_neg here, rest']
            rw [List.filter_cons_of_pos first, List.filterMap_cons, own,
              show (shownKey book).filter _ = some key from several]
            rfl

theorem stack_books_eq (books : List Ebook) (nodup : books.Nodup) :
    stackBooks functions doubles books = (books.filter (leads shownKey books),
      (books.filter (leads shownKey books)).filterMap (clientStack functions doubles books)) :=
  stack_from_eq functions doubles books [] books [] rfl nodup (by simp)

instance : Std.TransCmp totalCmp :=
  trans_then _ _ (trans_on (compare : ℚ → ℚ → Ordering) Finite.value)
    (trans_on (compare : Bool → Bool → Ordering) fun number : Finite => !number.negativeZero)

instance : Std.TransCmp (seriesOrderCmp functions doubles) := by
  have numbers := trans_on (nullsLast totalCmp) (seriesNumber doubles)
  have titles := trans_on (compare : Text → Text → Ordering)
    fun book : Ebook => functions.fold (book.title.getD [])
  have ids := trans_on (compare : Int → Int → Ordering) fun row : Ebook => row.id
  exact trans_then _ _ numbers (trans_then _ _ titles ids)

end Client

section Shown

variable (functions : Functions) (doubles : Doubles) (db : Database)

theorem to_ebook_injective (left right : Listed) (leftMem : left ∈ db.joined)
    (rightMem : right ∈ db.joined) (same : toEbook doubles db left = toEbook doubles db right) :
    left = right :=
  List.inj_on_of_nodup_map (joined_ids db) leftMem rightMem (congrArg Ebook.id same)

variable (rows : List Listed) (within : rows ⊆ db.joined) (nodup : rows.Nodup)

include within in
theorem shown_leads (row : Listed) (member : row ∈ rows) :
    leads shownKey (rows.map (toEbook doubles db)) (toEbook doubles db row) =
      leads (fun row => shownKey (toEbook doubles db row)) rows row := by
  rw [leads, leads]
  congr 1
  rw [Bool.eq_iff_iff, decide_eq_true_eq, decide_eq_true_eq, List.find?_map, Option.map_eq_some_iff]
  constructor
  · rintro ⟨first, found, same⟩
    have inside := List.mem_of_find?_eq_some found
    obtain rfl := to_ebook_injective doubles db first row (within inside) (within member) same
    exact found
  · intro found
    exact ⟨row, found, rfl⟩

include within nodup in
theorem shown_nodup : (rows.map (toEbook doubles db)).Nodup :=
  List.Nodup.map_on (fun left leftMem right rightMem same =>
    to_ebook_injective doubles db left right (within leftMem) (within rightMem) same) nodup

end Shown

end Omnibus.BookPages
