import Mathlib.Data.List.Basic
import Mathlib.Data.List.Perm.Basic
import Mathlib.Data.List.Sort
import Mathlib.Data.List.Nodup
import Mathlib.Data.Nat.Find

/-!
# Walks over pages

A page of a list holds the rows its cursor selects, up to a limit, and the cursor of its last
row. A walk feeds each page's cursor to the next. It visits every row once exactly when each
page takes up where the one before it ended.
-/

namespace Omnibus.Library.Keyset

section Orders

def nullsFirst {Key : Type*} (cmp : Key → Key → Ordering) : Option Key → Option Key → Ordering
  | none, none => .eq
  | none, some _ => .lt
  | some _, none => .gt
  | some left, some right => cmp left right

instance {Key : Type*} (cmp : Key → Key → Ordering) [Std.OrientedCmp cmp] :
    Std.OrientedCmp (nullsFirst cmp) where
  eq_swap {left right} := by
    cases left with
    | none => cases right <;> rfl
    | some left =>
        cases right with
        | none => rfl
        | some right => exact @Std.OrientedCmp.eq_swap _ cmp _ _ _

instance {Key : Type*} (cmp : Key → Key → Ordering) [Std.TransCmp cmp] :
    Std.TransCmp (nullsFirst cmp) where
  isLE_trans {first second third} before after := by
    cases first with
    | none => cases third <;> rfl
    | some first =>
        cases second with
        | none => cases before
        | some second =>
            cases third with
            | none => cases after
            | some third => exact @Std.TransCmp.isLE_trans _ cmp _ _ _ _ before after

def nullsLast {Key : Type*} (cmp : Key → Key → Ordering) : Option Key → Option Key → Ordering
  | none, none => .eq
  | none, some _ => .gt
  | some _, none => .lt
  | some left, some right => cmp left right

instance {Key : Type*} (cmp : Key → Key → Ordering) [Std.OrientedCmp cmp] :
    Std.OrientedCmp (nullsLast cmp) where
  eq_swap {left right} := by
    cases left with
    | none => cases right <;> rfl
    | some left =>
        cases right with
        | none => rfl
        | some right => exact @Std.OrientedCmp.eq_swap _ cmp _ _ _

instance {Key : Type*} (cmp : Key → Key → Ordering) [Std.TransCmp cmp] :
    Std.TransCmp (nullsLast cmp) where
  isLE_trans {first second third} before after := by
    cases third with
    | none => cases first <;> rfl
    | some third =>
        cases second with
        | none => cases after
        | some second =>
            cases first with
            | none => cases before
            | some first => exact @Std.TransCmp.isLE_trans _ cmp _ _ _ _ before after

section On

variable {Row Key : Type*} (cmp : Key → Key → Ordering) (key : Row → Key)

theorem trans_on [Std.TransCmp cmp] : Std.TransCmp fun left right => cmp (key left) (key right) where
  eq_swap {_ _} := @Std.OrientedCmp.eq_swap _ cmp _ _ _
  isLE_trans {_ _ _} := @Std.TransCmp.isLE_trans _ cmp _ _ _ _

theorem trans_then (first second : Row → Row → Ordering) (one : Std.TransCmp first)
    (other : Std.TransCmp second) :
    Std.TransCmp fun left right => (first left right).then (second left right) :=
  inferInstanceAs (Std.TransCmp (compareLex first second))

end On

section Sorted

variable {Row : Type*} (cmp : Row → Row → Ordering)

def sortBy (rows : List Row) : List Row :=
  rows.insertionSort fun left right => (cmp left right).isLE

theorem sort_by_perm (rows : List Row) : (sortBy cmp rows).Perm rows := List.perm_insertionSort _ _

def Tells (rows : List Row) : Prop := ∀ left ∈ rows, ∀ right ∈ rows, cmp left right = .eq → left = right

variable [Std.TransCmp cmp] (rows : List Row)

theorem sort_by_pairwise : (sortBy cmp rows).Pairwise fun left right => (cmp left right).isLE := by
  have trans : IsTrans Row fun left right => (cmp left right).isLE :=
    ⟨fun _ _ _ before after => @Std.TransCmp.isLE_trans _ cmp _ _ _ _ before after⟩
  have total : Std.Total fun left right : Row => ((cmp left right).isLE : Prop) := by
    constructor
    intro left right
    by_cases le : (cmp left right).isLE
    · exact Or.inl le
    · right
      have less := @Std.OrientedCmp.lt_of_not_isLE _ cmp _ _ _ le
      rw [less]
      rfl
  exact List.pairwise_insertionSort _ rows

theorem sort_by_unique (tells : Tells cmp rows) (other : List Row) (same : other.Perm rows)
    (sorted : other.Pairwise fun left right => (cmp left right).isLE) : other = sortBy cmp rows := by
  apply List.Perm.eq_of_pairwise _ sorted (sort_by_pairwise cmp rows)
    (same.trans (sort_by_perm cmp rows).symm)
  intro left right leftMem rightMem before after
  exact tells left (same.mem_iff.mp leftMem) right ((sort_by_perm cmp rows).mem_iff.mp rightMem)
    (@Std.OrientedCmp.isLE_antisymm _ cmp _ _ _ before after)

theorem sort_by_filter (tells : Tells cmp rows) (selects : Row → Bool) :
    (sortBy cmp rows).filter selects = sortBy cmp (rows.filter selects) := by
  apply sort_by_unique
  · exact fun left leftMem right rightMem =>
      tells left (List.mem_of_mem_filter leftMem) right (List.mem_of_mem_filter rightMem)
  · exact (sort_by_perm cmp rows).filter selects
  · exact (sort_by_pairwise cmp rows).sublist List.filter_sublist

theorem sort_by_strict (tells : Tells cmp rows) (nodup : rows.Nodup) :
    (sortBy cmp rows).Pairwise fun left right => cmp left right = .lt := by
  have apart : (sortBy cmp rows).Nodup := (sort_by_perm cmp rows).nodup_iff.mpr nodup
  apply List.Pairwise.imp_of_mem _ ((sort_by_pairwise cmp rows).and apart)
  intro left right leftMem rightMem both
  cases compared : cmp left right with
  | lt => rfl
  | eq =>
      exact absurd (tells left ((sort_by_perm cmp rows).mem_iff.mp leftMem) right
        ((sort_by_perm cmp rows).mem_iff.mp rightMem) compared) both.2
  | gt =>
      rw [compared] at both
      cases both.1

end Sorted

end Orders

section Walks

variable {Cursor Page : Type*} (page : Option Cursor → Page × Option Cursor)

/-- The pages from a cursor on to the one without a next. -/
inductive Walk : Option Cursor → List Page → Prop where
  | last (cursor : Option Cursor) (ended : (page cursor).2 = none) : Walk cursor [(page cursor).1]
  | more (cursor : Option Cursor) (next : Cursor) (rest : List Page)
      (continued : (page cursor).2 = some next) (walked : Walk (some next) rest) :
      Walk cursor ((page cursor).1 :: rest)

theorem Walk.map {Shown : Type*} (shown : Page → Shown) {cursor : Option Cursor}
    {pages : List Page} (walk : Walk page cursor pages) :
    Walk (fun cursor => (shown (page cursor).1, (page cursor).2)) cursor (pages.map shown) := by
  induction walk with
  | last cursor ended => exact Walk.last cursor ended
  | more cursor next rest continued walked induction =>
      exact Walk.more cursor next _ continued induction

theorem Walk.of_map {Shown : Type*} (shown : Page → Shown) {cursor : Option Cursor}
    {shows : List Shown}
    (walk : Walk (fun cursor => (shown (page cursor).1, (page cursor).2)) cursor shows) :
    ∃ pages, Walk page cursor pages ∧ shows = pages.map shown := by
  induction walk with
  | last cursor ended => exact ⟨_, Walk.last cursor ended, rfl⟩
  | more cursor next rest continued walked induction =>
      obtain ⟨pages, walk, same⟩ := induction
      exact ⟨_, Walk.more cursor next pages continued walk, congrArg _ same⟩

theorem Walk.served {cursor : Option Cursor} {pages : List Page} (walk : Walk page cursor pages) :
    ∀ one ∈ pages, ∃ cursor, one = (page cursor).1 := by
  induction walk with
  | last cursor ended =>
      intro one member
      exact ⟨cursor, List.mem_singleton.mp member⟩
  | more cursor next rest continued walked induction =>
      intro one member
      rcases List.mem_cons.mp member with rfl | later
      · exact ⟨cursor, rfl⟩
      · exact induction one later

theorem Walk.endless {cursor : Option Cursor} {pages : List Page} (walk : Walk page cursor pages)
    (again : (page cursor).2 = cursor) (present : cursor ≠ none) : False := by
  induction walk with
  | last cursor ended => exact present (again.symm.trans ended)
  | more cursor next rest continued walked induction =>
      obtain rfl := again.symm.trans continued
      exact induction again present

theorem Walk.stuck {start : Option Cursor} {cursor : Cursor} {pages : List Page}
    (walk : Walk page start pages) (first : (page start).2 = some cursor)
    (again : (page (some cursor)).2 = some cursor) : False := by
  cases walk with
  | last _ ended =>
      rw [first] at ended
      cases ended
  | more _ next rest continued walked =>
      obtain rfl := Option.some.inj (first.symm.trans continued)
      exact walked.endless _ again (Option.some_ne_none _)

end Walks

section Seeks

variable {Row Cursor : Type*} (order : List Row) (selects : Cursor → Row → Bool)
  (cursorOf : Row → Cursor) (limit : Nat)

/-- The rows a cursor selects; without a cursor, all of them. -/
def selected (cursor : Option Cursor) : List Row :=
  order.filter fun row => cursor.all fun cursor => selects cursor row

def seekPage (cursor : Option Cursor) : List Row × Option Cursor :=
  let rows := selected order selects cursor
  (rows.take limit,
    if limit < rows.length then (rows[limit - 1]?).map cursorOf else none)

/-- The cursor of the row before position `p` selects the rows from `p` on. -/
def Resumes (p : Nat) : Prop :=
  ∀ last, order[p - 1]? = some last → selected order selects (some (cursorOf last)) = order.drop p

/-- The page after the row before `p` begins with a row that has been listed. -/
def Repeats (p : Nat) : Prop :=
  ∃ last, order[p - 1]? = some last ∧ ∃ row ∈ order.take p,
    (selected order selects (some (cursorOf last))).head? = some row

/-- From the row before `p` on only rows of one kind are selected, and a later row is not of it. -/
def Loses (p : Nat) : Prop :=
  ∃ last, order[p - 1]? = some last ∧ ∃ row ∈ order.drop p, ∃ kind : Row → Prop,
    ¬kind row ∧ (∀ other ∈ order, selects (cursorOf last) other = true → kind other) ∧
    ∀ other, kind other → ∀ next ∈ order, selects (cursorOf other) next = true → kind next

@[simp] theorem selected_none : selected order selects none = order := by
  simp [selected]

theorem seek_page_rest (cursor : Option Cursor) (p : Nat)
    (here : selected order selects cursor = order.drop p) :
    (seekPage order selects cursorOf limit cursor).1 = (order.drop p).take limit ∧
      (0 < limit → (seekPage order selects cursorOf limit cursor).2 =
        if p + limit < order.length then (order[p + limit - 1]?).map cursorOf else none) := by
  rw [seekPage, here]
  refine ⟨rfl, fun positive => ?_⟩
  rw [List.length_drop, List.getElem?_drop, show p + (limit - 1) = p + limit - 1 by omega]
  by_cases more : p + limit < order.length
  · rw [if_pos more, if_pos (by omega)]
  · rw [if_neg more, if_neg (by omega)]

variable (positive : 0 < limit)

include positive

theorem walk_rest (cursor : Option Cursor) (p : Nat)
    (here : selected order selects cursor = order.drop p)
    (resumes : ∀ later, p + limit ≤ later → later < order.length → limit ∣ later - p →
      Resumes order selects cursorOf later) :
    ∃ pages, Walk (seekPage order selects cursorOf limit) cursor pages ∧
      pages.flatten = order.drop p := by
  obtain ⟨rows, next⟩ := seek_page_rest order selects cursorOf limit cursor p here
  by_cases more : p + limit < order.length
  · have inside : p + limit - 1 < order.length := by omega
    have last : order[p + limit - 1]? = some order[p + limit - 1] := List.getElem?_eq_getElem inside
    have continued := next positive
    rw [if_pos more, last, Option.map_some] at continued
    have there := resumes (p + limit) (Nat.le_refl _) more (by simp) _ last
    obtain ⟨pages, walk, rest⟩ := walk_rest (some (cursorOf order[p + limit - 1])) (p + limit) there
      (by
        intro later far near divides
        apply resumes later (by omega) near
        rw [show later - p = later - (p + limit) + limit by omega]
        exact Nat.dvd_add divides (Nat.dvd_refl limit))
    refine ⟨_, Walk.more cursor _ pages continued walk, ?_⟩
    rw [List.flatten_cons, rest, rows, ← List.drop_drop, List.take_append_drop]
  · have ended := next positive
    rw [if_neg more] at ended
    refine ⟨_, Walk.last cursor ended, ?_⟩
    rw [List.flatten_singleton, rows]
    exact List.take_of_length_le (by rw [List.length_drop]; omega)
termination_by order.length - p

theorem walk_of_resumes
    (resumes : ∀ p, 0 < p → p < order.length → limit ∣ p → Resumes order selects cursorOf p) :
    ∃ pages, Walk (seekPage order selects cursorOf limit) none pages ∧ pages.flatten = order := by
  have walk := walk_rest order selects cursorOf limit positive none 0 (by simp)
    fun later far near divides => resumes later (by omega) near (by simpa using divides)
  simpa using walk

/-- Up to a boundary the rows are listed in order, where all boundaries before it resume. -/
theorem walk_reaches (p : Nat) (start : 0 < p) (inside : p < order.length) (divides : limit ∣ p)
    (resumes : ∀ q, 0 < q → q < p → limit ∣ q → Resumes order selects cursorOf q)
    (pages : List (List Row)) (walk : Walk (seekPage order selects cursorOf limit) none pages) :
    ∃ last rest, order[p - 1]? = some last ∧
      Walk (seekPage order selects cursorOf limit) (some (cursorOf last)) rest ∧
      pages.flatten = order.take p ++ rest.flatten := by
  obtain ⟨count, shape⟩ := divides
  induction count generalizing p with
  | zero => omega
  | succ count induction =>
      have inner : limit * (count + 1) = limit * count + limit := Nat.mul_succ _ _
      have before : ∃ cursor rest, selected order selects cursor = order.drop (limit * count) ∧
          Walk (seekPage order selects cursorOf limit) cursor rest ∧
          pages.flatten = order.take (limit * count) ++ rest.flatten := by
        rcases Nat.eq_zero_or_pos (limit * count) with none' | some'
        · exact ⟨none, pages, by simp [none'], walk, by simp [none']⟩
        · obtain ⟨last, rest, place, walked, listed⟩ :=
            induction (limit * count) some' (by omega)
              (fun q start' inside' divides' => resumes q start' (by omega) divides') rfl
          exact ⟨_, rest, resumes _ some' (by omega) (Nat.dvd_mul_right _ _) last place, walked, listed⟩
      obtain ⟨cursor, rest, here, walked, listed⟩ := before
      obtain ⟨rows, next⟩ := seek_page_rest order selects cursorOf limit cursor (limit * count) here
      have last : order[p - 1]? = some order[p - 1] := List.getElem?_eq_getElem (by omega)
      have continued := next positive
      rw [if_pos (by omega), show limit * count + limit - 1 = p - 1 by omega, last,
        Option.map_some] at continued
      cases walked with
      | last _ ended =>
          rw [continued] at ended
          cases ended
      | more _ cursor' rest' continued' walked' =>
          rw [continued, Option.some.injEq] at continued'
          subst continued'
          refine ⟨_, rest', last, walked', ?_⟩
          rw [listed, List.flatten_cons, rows, ← List.append_assoc, shape, inner, List.take_add]

omit positive in
theorem walk_kind (kind : Row → Prop)
    (closed : ∀ other, kind other → ∀ next ∈ order, selects (cursorOf other) next = true → kind next)
    (cursor : Option Cursor) (pages : List (List Row))
    (start : ∀ row ∈ selected order selects cursor, kind row)
    (walk : Walk (seekPage order selects cursorOf limit) cursor pages) :
    ∀ row ∈ pages.flatten, kind row := by
  induction walk with
  | last cursor ended =>
      intro row member
      rw [List.flatten_singleton] at member
      exact start row (List.mem_of_mem_take member)
  | more cursor next rest continued walked induction =>
      intro row member
      rcases List.mem_append.mp (List.flatten_cons ▸ member) with here | later
      · exact start row (List.mem_of_mem_take here)
      · apply induction _ row later
        have shape : ∃ last ∈ selected order selects cursor, next = cursorOf last := by
          rw [seekPage] at continued
          dsimp only at continued
          split at continued
          · obtain ⟨last, present, same⟩ := Option.map_eq_some_iff.mp continued
            exact ⟨last, List.mem_of_getElem? present, same.symm⟩
          · cases continued
        obtain ⟨last, member, rfl⟩ := shape
        intro other selected'
        rw [selected, List.mem_filter] at selected'
        exact closed last (start last member) other selected'.1 (by simpa using selected'.2)

theorem walk_head (cursor : Option Cursor) (pages : List (List Row)) (row : Row)
    (head : (selected order selects cursor).head? = some row)
    (walk : Walk (seekPage order selects cursorOf limit) cursor pages) : row ∈ pages.flatten := by
  obtain ⟨rest, shape⟩ : ∃ rest, selected order selects cursor = row :: rest :=
    ⟨_, List.eq_cons_of_mem_head? head⟩
  have first : row ∈ (seekPage order selects cursorOf limit cursor).1 := by
    obtain ⟨more, rfl⟩ := Nat.exists_eq_succ_of_ne_zero (Nat.pos_iff_ne_zero.mp positive)
    rw [seekPage, shape]
    exact List.mem_cons_self
  cases walk with
  | last _ _ => exact List.mem_flatten_of_mem List.mem_cons_self first
  | more _ _ _ _ _ => exact List.mem_flatten_of_mem List.mem_cons_self first

/-- Where a good boundary resumes and any other repeats or loses a row, a walk lists each row once
exactly when every boundary is good. -/
theorem walk_perm_iff (nodup : order.Nodup) (good : Nat → Prop)
    (resumes : ∀ p, 0 < p → p < order.length → good p → Resumes order selects cursorOf p)
    (strays : ∀ p, 0 < p → p < order.length → ¬good p →
      Repeats order selects cursorOf p ∨ Loses order selects cursorOf p) :
    (∃ pages, Walk (seekPage order selects cursorOf limit) none pages ∧
      pages.flatten.Perm order) ↔
      ∀ p, 0 < p → p < order.length → limit ∣ p → good p := by
  constructor
  · intro ⟨pages, walk, same⟩
    by_contra failing
    push Not at failing
    classical
    obtain ⟨start, inside, divides, stuck⟩ := Nat.find_spec failing
    obtain ⟨last, rest, place, walked, listed⟩ := walk_reaches order selects cursorOf limit positive
      (Nat.find failing) start inside divides
      (fun q start' before divides' => by
        apply resumes q start' (by omega)
        by_contra stuck'
        exact Nat.find_min failing before ⟨start', by omega, divides', stuck'⟩) pages walk
    have apart : (order.take (Nat.find failing) ++ rest.flatten).Nodup :=
      listed ▸ same.nodup_iff.mpr nodup
    rcases strays _ start inside stuck with repeated | lost
    · obtain ⟨last', place', row, before, head⟩ := repeated
      rw [place, Option.some.injEq] at place'
      subst place'
      have again := walk_head order selects cursorOf limit positive _ rest row head walked
      exact List.disjoint_of_nodup_append apart before again
    · obtain ⟨last', place', row, after, kind, other, start', closed⟩ := lost
      rw [place, Option.some.injEq] at place'
      subst place'
      have never : row ∉ rest.flatten := fun member =>
        other (walk_kind order selects cursorOf limit kind closed _ rest
          (fun row member => by
            rw [selected, List.mem_filter] at member
            exact start' row member.1 (by simpa using member.2)) walked row member)
      have split : (order.take (Nat.find failing) ++ order.drop (Nat.find failing)).Nodup := by
        rwa [List.take_append_drop]
      have earlier : row ∉ order.take (Nat.find failing) := fun member =>
        List.disjoint_of_nodup_append split member after
      have present : row ∈ pages.flatten := same.mem_iff.mpr (List.mem_of_mem_drop after)
      rw [listed] at present
      exact (List.mem_append.mp present).elim earlier never
  · intro all
    obtain ⟨pages, walk, same⟩ := walk_of_resumes order selects cursorOf limit positive
      fun p start inside divides => resumes p start inside (all p start inside divides)
    exact ⟨pages, walk, same ▸ List.Perm.refl _⟩

end Seeks

section Boundaries

variable {Row Cursor : Type*} (cmp : Row → Row → Ordering) (order : List Row)
  (strict : order.Pairwise fun left right => cmp left right = .lt) (p : Nat) (last : Row)
  (place : order[p - 1]? = some last)

include strict place

theorem before_boundary (row : Row) (before : row ∈ order.take p) :
    row = last ∨ cmp row last = .lt := by
  obtain ⟨inside, here⟩ := List.getElem?_eq_some_iff.mp place
  obtain ⟨i, within, same⟩ := List.mem_iff_getElem.mp before
  rw [List.length_take] at within
  rw [List.getElem_take] at same
  by_cases own : i = p - 1
  · left
    subst own
    exact same.symm.trans here
  · right
    have apart := List.pairwise_iff_getElem.mp strict i (p - 1) (by omega) inside (by omega)
    rwa [same, here] at apart

theorem after_boundary (start : 0 < p) (row : Row) (after : row ∈ order.drop p) :
    cmp last row = .lt := by
  obtain ⟨inside, here⟩ := List.getElem?_eq_some_iff.mp place
  obtain ⟨i, within, same⟩ := List.mem_iff_getElem.mp after
  rw [List.length_drop] at within
  rw [List.getElem_drop] at same
  have apart := List.pairwise_iff_getElem.mp strict (p - 1) (p + i) inside (by omega) (by omega)
  rwa [same, here] at apart

variable [Std.OrientedCmp cmp]

/-- A row of the list comes after a boundary exactly when it comes after the row before it. -/
theorem mem_drop_iff (start : 0 < p) (row : Row) (member : row ∈ order) :
    row ∈ order.drop p ↔ cmp last row = .lt := by
  constructor
  · exact after_boundary cmp order strict p last place start row
  · intro later
    rw [← List.take_append_drop p order] at member
    rcases List.mem_append.mp member with before | after
    · exfalso
      rcases before_boundary cmp order strict p last place row before with rfl | earlier
      · rw [@Std.ReflCmp.compare_self _ cmp _ _] at later
        cases later
      · exact @Std.OrientedCmp.not_lt_of_lt _ cmp _ _ _ earlier later
    · exact after

theorem selected_rest (selects : Cursor → Row → Bool) (cursor : Cursor) (start : 0 < p)
    (exact' : ∀ row ∈ order, selects cursor row = true ↔ cmp last row = .lt) :
    selected order selects (some cursor) = order.drop p := by
  have tail (row : Row) (member : row ∈ order) := mem_drop_iff cmp order strict p last place start row member
  have split : (order.take p ++ order.drop p).Nodup := by
    rw [List.take_append_drop]
    apply strict.imp
    intro left right less equal
    subst equal
    rw [@Std.ReflCmp.compare_self _ cmp _ _] at less
    cases less
  rw [selected]
  conv_lhs => rw [← List.take_append_drop p order]
  rw [List.filter_append, List.filter_eq_nil_iff.mpr, List.nil_append, List.filter_eq_self.mpr]
  · intro row after
    have member := List.mem_of_mem_drop after
    simpa using (exact' row member).mpr ((tail row member).mp after)
  · intro row before chosen
    have member := List.mem_of_mem_take before
    have after := (tail row member).mpr ((exact' row member).mp (by simpa using chosen))
    exact List.disjoint_of_nodup_append split before after

end Boundaries

section Groups

variable {Row Key Other : Type*} [DecidableEq Row] [DecidableEq Key] [DecidableEq Other]

def Together (key : Row → Option Key) (left right : Row) : Prop :=
  ∃ own, key left = some own ∧ key right = some own

def leads (key : Row → Option Key) (rows : List Row) (row : Row) : Bool :=
  key row = none || rows.find? (fun other => key other = key row) = some row

variable (cmp : Row → Row → Ordering) [Std.OrientedCmp cmp] (rows : List Row)
  (strict : rows.Pairwise fun left right => cmp left right = .lt)

include strict

omit [DecidableEq Row] [Std.OrientedCmp cmp] in
theorem find_first (chosen : Row → Bool) (first : Row) (found : rows.find? chosen = some first) :
    chosen first = true ∧ ∀ row ∈ rows, chosen row = true → row = first ∨ cmp first row = .lt := by
  obtain ⟨holds, before, after, rfl, none'⟩ := List.find?_eq_some_iff_append.mp found
  refine ⟨holds, fun row member present => ?_⟩
  rcases List.mem_append.mp member with earlier | later
  · exact absurd present (by simpa using none' row earlier)
  · rcases List.mem_cons.mp later with here | behind
    · exact Or.inl here
    · exact Or.inr ((List.pairwise_cons.mp (List.pairwise_append.mp strict).2.1).1 row behind)

theorem leads_of_together (key : Row → Option Key) (other : Row → Option Other)
    (same : ∀ left ∈ rows, ∀ right ∈ rows, left ≠ right → Together other left right →
      Together key left right)
    (row : Row) (member : row ∈ rows) (first : leads key rows row = true) :
    leads other rows row = true := by
  rw [leads, Bool.or_eq_true, decide_eq_true_eq, decide_eq_true_eq]
  cases grouped : other row with
  | none => exact Or.inl rfl
  | some own =>
      right
      cases found : rows.find? fun next => other next = some own with
      | none =>
          exfalso
          exact List.find?_eq_none.mp found row member (decide_eq_true grouped)
      | some lead =>
          obtain ⟨holds, least⟩ := find_first cmp rows strict _ lead found
          have inside := List.mem_of_find?_eq_some found
          rcases least row member (decide_eq_true grouped) with here | behind
          · rw [here]
          · exfalso
            have apart : lead ≠ row := by
              intro equal
              subst equal
              rw [@Std.ReflCmp.compare_self _ cmp _ _] at behind
              cases behind
            obtain ⟨shared, leadKey, rowKey⟩ :=
              same lead inside row member apart ⟨own, of_decide_eq_true holds, grouped⟩
            rw [leads, rowKey, Bool.or_eq_true, decide_eq_true_eq, decide_eq_true_eq] at first
            have head := first.resolve_left nofun
            rcases (find_first cmp rows strict _ row head).2 lead inside (decide_eq_true leadKey) with
              here | ahead
            · exact apart here
            · exact @Std.OrientedCmp.not_lt_of_lt _ cmp _ _ _ behind ahead

theorem leads_congr (key : Row → Option Key) (other : Row → Option Other)
    (same : ∀ left ∈ rows, ∀ right ∈ rows, left ≠ right →
      (Together key left right ↔ Together other left right)) (row : Row) (member : row ∈ rows) :
    leads key rows row = leads other rows row := by
  rw [Bool.eq_iff_iff]
  constructor
  · exact leads_of_together cmp rows strict key other
      (fun left leftMem right rightMem apart => (same left leftMem right rightMem apart).mpr) row member
  · exact leads_of_together cmp rows strict other key
      (fun left leftMem right rightMem apart => (same left leftMem right rightMem apart).mp) row member

end Groups

end Omnibus.Library.Keyset
