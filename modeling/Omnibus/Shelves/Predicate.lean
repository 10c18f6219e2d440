import Omnibus.Shelves.Rules

/-!
# What a rule set asks and binds

The placeholders of a fragment are as many as what it binds, so each placeholder of the joined
fragments stands for a bind of its own rule. A relative window that ends in a character of several
bytes is cut within it.
-/

namespace Omnibus.Shelves

open Omnibus.Library.Strings

set_option maxRecDepth 20000

section Placeholders

/-- No text of the fragments holds a question mark within quotes. -/
def placeholders (sql : String) : Nat := sql.toList.count '?'

theorem placeholders_append (left right : String) :
    placeholders (left ++ right) = placeholders left + placeholders right := by
  simp [placeholders]

theorem literal_asks {letters : List Char} {n : Nat} (count : letters.count '?' = n) :
    placeholders (String.ofList letters) = n := by
  simpa [placeholders] using count

theorem overrides_win_clear : placeholders overridesWinSql = 0 :=
  literal_asks (by decide +kernel)

theorem override_present_clear : placeholders (overridePresentSql "$.series") = 0 := by
  have opens : placeholders "(" = 0 := literal_asks (by decide)
  have middle : placeholders
      " AND json_type(CASE WHEN json_valid(mo.overrides) THEN mo.overrides ELSE '\x7b\x7d' END, '" =
      0 := literal_asks (by decide +kernel)
  have path : placeholders "$.series" = 0 := literal_asks (by decide)
  have closes : placeholders "') IS 'text')" = 0 := literal_asks (by decide)
  simp only [overridePresentSql, placeholders_append, overrides_win_clear, opens, middle, path,
    closes]

theorem clear_append {left right : String} (leftClear : placeholders left = 0)
    (rightClear : placeholders right = 0) : placeholders (left ++ right) = 0 := by
  rw [placeholders_append, leftClear, rightClear]

theorem within_clear {opens sql closes : String} (opensClear : placeholders opens = 0)
    (clear : placeholders sql = 0) (closesClear : placeholders closes = 0) :
    placeholders (opens ++ sql ++ closes) = 0 :=
  clear_append (clear_append opensClear clear) closesClear

theorem effective_tags_clear : placeholders effectiveTagsSql = 0 := by
  unfold effectiveTagsSql
  refine clear_append (clear_append (clear_append (clear_append ?_ overrides_win_clear) ?_)
    overrides_win_clear) ?_
  all_goals exact literal_asks (by decide +kernel)

theorem effective_genres_clear : placeholders effectiveGenresSql = 0 := by
  unfold effectiveGenresSql
  refine clear_append (clear_append ?_ overrides_win_clear) ?_
  all_goals exact literal_asks (by decide +kernel)

theorem effective_authors_clear : placeholders effectiveAuthorsSql = 0 := by
  unfold effectiveAuthorsSql
  refine clear_append (clear_append (clear_append (clear_append ?_ overrides_win_clear) ?_)
    overrides_win_clear) ?_
  all_goals exact literal_asks (by decide +kernel)

theorem effective_series_clear : placeholders effectiveSeriesSql = 0 := by
  unfold effectiveSeriesSql
  refine clear_append (clear_append (clear_append ?_ override_present_clear) ?_)
    override_present_clear
  all_goals exact literal_asks (by decide +kernel)

theorem membership_clear {field : RuleField} {members col : String}
    (isMember : nameMembership field = some (members, col)) :
    placeholders members = 0 ∧ placeholders col = 0 := by
  cases field <;> cases isMember
  case tag =>
    exact ⟨within_clear (literal_asks (by decide)) effective_tags_clear (literal_asks (by decide)),
      literal_asks (by decide)⟩
  case genre =>
    exact ⟨within_clear (literal_asks (by decide)) effective_genres_clear
      (literal_asks (by decide)), literal_asks (by decide)⟩
  case author =>
    exact ⟨within_clear (literal_asks (by decide)) effective_authors_clear
      (literal_asks (by decide)), literal_asks (by decide)⟩
  case series =>
    exact ⟨within_clear (literal_asks (by decide)) effective_series_clear
      (literal_asks (by decide)), literal_asks (by decide)⟩
  case format =>
    exact ⟨literal_asks (by decide), literal_asks (by decide)⟩

end Placeholders

section Fragments

variable {debug : Text → String} {ownerId : Int} {rule : ShelfRule} {v : Text} {sql : String}
  {binds : List Bind}

theorem translation_bind {α β : Type} {first : Translation α} {next : α → Translation β}
    {result : β} (ok : first >>= next = .ok result) :
    ∃ value, first = .ok value ∧ next value = .ok result := by
  cases first with
  | error failure => cases ok
  | ok value => exact ⟨value, rfl, ok⟩

theorem asks_once {opens members col closes : String} (opensClear : placeholders opens = 0)
    (clear : placeholders members = 0 ∧ placeholders col = 0) (asks : placeholders closes = 1) :
    placeholders (opens ++ members ++ col ++ closes) = 1 := by
  simp only [placeholders_append, opensClear, clear, asks]

theorem text_condition_asks (ok : textCondition rule = .ok (sql, binds)) :
    placeholders sql = binds.length := by
  have opens : placeholders "b.id IN (" = 0 := literal_asks (by decide)
  have opensNot : placeholders "b.id NOT IN (" = 0 := literal_asks (by decide)
  have equals : placeholders " = ? COLLATE NOCASE)" = 1 :=
    literal_asks (by decide)
  have resembles : placeholders " LIKE ? ESCAPE '\\')" = 1 :=
    literal_asks (by decide)
  unfold textCondition at ok
  cases isMember : nameMembership rule.field with
  | none =>
      rw [isMember] at ok
      cases ok
  | some member =>
      have clear := membership_clear isMember
      rw [isMember] at ok
      have once {opens closes : String} (opensClear : placeholders opens = 0)
          (asks : placeholders closes = 1) {bind : Bind}
          (isSql : (opens ++ member.1 ++ member.2 ++ closes, [bind]) = (sql, binds)) :
          placeholders sql = binds.length := by
        cases isSql
        exact asks_once opensClear clear asks
      cases isOp : rule.op <;> simp only [isOp] at ok
      case is => exact once opens equals (Except.ok.inj ok)
      case isNot => exact once opensNot equals (Except.ok.inj ok)
      case contains => exact once opens resembles (Except.ok.inj ok)
      case startsWith => exact once opens resembles (Except.ok.inj ok)
      case includes => exact once opens equals (Except.ok.inj ok)
      all_goals cases ok

theorem status_condition_asks (ok : statusCondition debug ownerId v = .ok (sql, binds)) :
    placeholders sql = binds.length := by
  have opens : placeholders "EXISTS (SELECT 1 FROM book_read_status rs " = 0 :=
    literal_asks (by decide)
  have opensNot : placeholders "NOT EXISTS (SELECT 1 FROM book_read_status rs " = 0 :=
    literal_asks (by decide)
  have untouched : placeholders "WHERE rs.book_uuid = b.uuid AND rs.user_id = ? " = 1 :=
    literal_asks (by decide)
  have touched : placeholders "AND rs.status IN ('reading', 'finished'))" = 0 :=
    literal_asks (by decide)
  have matching : placeholders
      "WHERE rs.book_uuid = b.uuid AND rs.user_id = ? AND rs.status = '" = 1 :=
    literal_asks (by decide)
  have closes : placeholders "')" = 0 := literal_asks (by decide)
  unfold statusCondition at ok
  cases isStatus : ReadStatus.fromStr (trim v) with
  | none =>
      rw [isStatus] at ok
      cases ok
  | some status =>
      rw [isStatus] at ok
      have names : placeholders status.asStr = 0 := by
        cases status <;> exact literal_asks (by decide)
      cases status with
      | unread =>
          cases ok
          simp only [placeholders_append, opensNot, untouched, touched]
          rfl
      | reading | finished =>
          cases ok
          simp only [placeholders_append, opens, matching, closes, names]
          rfl

theorem date_condition_asks (ok : dateCondition debug rule v = .ok (sql, binds)) :
    placeholders sql = binds.length := by
  unfold dateCondition at ok
  obtain ⟨col, isCol, ok⟩ := translation_bind ok
  have colClear : placeholders col = 0 := by
    cases isField : rule.field <;> rw [isField] at isCol <;> cases isCol <;>
      exact literal_asks (by decide)
  have opens : placeholders "date(" = 0 := literal_asks (by decide)
  cases isOp : rule.op <;> simp only [isOp] at ok
  case inLast =>
    obtain ⟨window, _, ok⟩ := translation_bind ok
    have asks : placeholders " >= CAST(strftime('%s', 'now', ?) AS INTEGER)" = 1 :=
      literal_asks (by decide)
    cases ok
    simp only [placeholders_append, colClear, asks]
    rfl
  case between =>
    cases isRange : splitAtDots v with
    | none =>
        rw [isRange] at ok
        cases ok
    | some range =>
        rw [isRange] at ok
        obtain ⟨start, _, ok⟩ := translation_bind ok
        obtain ⟨stop, _, ok⟩ := translation_bind ok
        have asks : placeholders ", 'unixepoch') BETWEEN ? AND ?" = 2 :=
          literal_asks (by decide)
        cases ok
        simp only [placeholders_append, opens, colClear, asks]
        rfl
  case before =>
    obtain ⟨date, _, ok⟩ := translation_bind ok
    have asks : placeholders ", 'unixepoch') < ?" = 1 := literal_asks (by decide)
    cases ok
    simp only [placeholders_append, opens, colClear, asks]
    rfl
  case after =>
    obtain ⟨date, _, ok⟩ := translation_bind ok
    have asks : placeholders ", 'unixepoch') > ?" = 1 := literal_asks (by decide)
    cases ok
    simp only [placeholders_append, opens, colClear, asks]
    rfl
  all_goals cases ok

theorem comparison_clear {cmp : String} (ok : comparison rule = .ok cmp) :
    placeholders cmp = 0 := by
  unfold comparison at ok
  cases isOp : rule.op <;> simp only [isOp] at ok <;> cases ok <;>
    exact literal_asks (by decide)

theorem condition_asks (ok : conditionSql debug ownerId rule = .ok (sql, binds)) :
    placeholders sql = binds.length := by
  unfold conditionSql at ok
  split_ifs at ok
  cases isField : rule.field <;> simp only [isField] at ok
  case rating =>
    obtain ⟨cmp, isCmp, ok⟩ := translation_bind ok
    obtain ⟨halfStars, _, ok⟩ := translation_bind ok
    have opens : placeholders "EXISTS (SELECT 1 FROM reviews ur " = 0 :=
      literal_asks (by decide)
    have owner : placeholders
        "WHERE ur.book_uuid = b.uuid AND ur.user_id = ? AND ur.half_stars " = 1 :=
      literal_asks (by decide)
    have closes : placeholders " ?)" = 1 := literal_asks (by decide)
    cases ok
    simp only [placeholders_append, opens, owner, comparison_clear isCmp, closes]
    rfl
  case year =>
    obtain ⟨cmp, isCmp, ok⟩ := translation_bind ok
    obtain ⟨id, _, ok⟩ := translation_bind ok
    have opens : placeholders "CAST(substr(b.pubdate, 1, 4) AS INTEGER) " = 0 :=
      literal_asks (by decide)
    have closes : placeholders " ?" = 1 := literal_asks (by decide)
    cases ok
    simp only [placeholders_append, opens, comparison_clear isCmp, closes]
    rfl
  case status => exact status_condition_asks ok
  case dateAdded => exact date_condition_asks ok
  case dateUpdated => exact date_condition_asks ok
  all_goals exact text_condition_asks ok

end Fragments

section Panics

variable {debug : Text → String} {ownerId : Int} {rule : ShelfRule} {v : Text}

theorem translation_panic {α β : Type} {first : Translation α} {next : α → Translation β} :
    first >>= next = .error .panic ↔
      first = .error .panic ∨ ∃ value, first = .ok value ∧ next value = .error .panic := by
  cases first with
  | error failure =>
      have stays : (Except.error failure >>= next : Translation β) = .error failure := rfl
      simp [stays]
  | ok value =>
      have goesOn : (Except.ok value >>= next : Translation β) = next value := rfl
      simp [goesOn]

def multibyteEnd (v : Text) : Bool := v.getLast?.any fun last => 1 < last.utf8Size

theorem len_append (left right : Text) : len (left ++ right) = len left + len right := by
  simp [len]

theorem splitAt_append (left right : Text) (index : Nat) :
    splitAt (len left + index) (left ++ right) =
      (splitAt index right).map fun parts => (left ++ parts.1, parts.2) := by
  induction left with
  | nil =>
      have same : splitAt (len [] + index) ([] ++ right) = splitAt index right := by
        simp [len]
      rw [same]
      cases splitAt index right <;> rfl
  | cons symbol rest induction =>
      have positive := symbol.utf8Size_pos
      have longer : len (symbol :: rest) + index =
          (symbol.utf8Size + len rest + index - 1) + 1 := by
        simp only [len, List.map_cons, List.sum_cons]
        omega
      have shorter : symbol.utf8Size + len rest + index - 1 + 1 - symbol.utf8Size =
          len rest + index := by
        omega
      rw [longer, List.cons_append, splitAt, if_pos (by omega), shorter, induction]
      cases splitAt index right <;> rfl

theorem splitAt_last (v : Text) (isSome : v ≠ []) :
    splitAt (len v - 1) v = .error .panic ↔ multibyteEnd v = true := by
  obtain ⟨init, last, rfl⟩ := (List.eq_nil_or_concat' v).resolve_left isSome
  have positive := last.utf8Size_pos
  have lastIndex : len (init ++ [last]) - 1 = len init + (last.utf8Size - 1) := by
    rw [len_append]
    simp only [len, List.map_cons, List.map_nil, List.sum_cons, List.sum_nil]
    omega
  have ends : multibyteEnd (init ++ [last]) = decide (1 < last.utf8Size) := by
    simp [multibyteEnd]
  rw [lastIndex, splitAt_append, ends, decide_eq_true_eq]
  by_cases several : 1 < last.utf8Size
  · have within : last.utf8Size - 1 = (last.utf8Size - 2) + 1 := by omega
    rw [within, splitAt, if_neg (by omega)]
    exact iff_of_true rfl several
  · have atEnd : last.utf8Size - 1 = 0 := by omega
    rw [atEnd, splitAt]
    exact iff_of_false (fun panics => by cases panics) several

theorem relative_window_panics : parseRelativeWindow debug v = .error .panic ↔
    multibyteEnd v = true := by
  unfold parseRelativeWindow
  by_cases empty : len v = 0
  · have isNil : v = [] := by
      cases v with
      | nil => rfl
      | cons symbol rest =>
          have positive := symbol.utf8Size_pos
          simp only [len, List.map_cons, List.sum_cons] at empty
          omega
    rw [if_pos empty, isNil]
    exact iff_of_false (fun panics => by cases panics) (by decide)
  · have isSome : v ≠ [] := fun isNil => empty (by rw [isNil]; rfl)
    rw [if_neg empty, translation_panic, splitAt_last v isSome]
    constructor
    · rintro (panics | ⟨⟨num, unit⟩, _, panics⟩)
      · exact panics
      · -- past the cut every failure is an invalid rule
        dsimp only at panics
        split at panics
        · cases panics
        · split_ifs at panics
          · cases panics
          · split at panics <;> cases panics
    · exact .inl

theorem validate_date_total : validateDate debug v ≠ .error .panic := by
  unfold validateDate
  dsimp only
  split_ifs
  all_goals exact fun panics => by cases panics

theorem half_stars_total : parseHalfStars debug v ≠ .error .panic := by
  unfold parseHalfStars
  split
  · exact fun panics => by cases panics
  · exact fun panics => by cases panics
  · split_ifs
    all_goals exact fun panics => by cases panics

theorem text_condition_total : textCondition rule ≠ .error .panic := by
  unfold textCondition
  intro panics
  split at panics
  · cases panics
  · dsimp only at panics
    split at panics <;> cases panics

theorem status_condition_total : statusCondition debug ownerId v ≠ .error .panic := by
  unfold statusCondition
  intro panics
  split at panics <;> cases panics

/-- A date rule asks for a window that is cut within its last character. -/
def Slips (rule : ShelfRule) : Prop :=
  (rule.field = .dateAdded ∨ rule.field = .dateUpdated) ∧ rule.op = .inLast ∧
    multibyteEnd (trim rule.value) = true

instance (rule : ShelfRule) : Decidable (Slips rule) := inferInstanceAs (Decidable (_ ∧ _))

theorem date_condition_panics {col : String} (isCol : dateColumn rule.field = .ok col) :
    dateCondition debug rule v = .error .panic ↔ rule.op = .inLast ∧ multibyteEnd v = true := by
  have returns {α β : Type} {first : Translation α} (total : first ≠ .error .panic)
      {result : α → β} : ¬(do let value ← first; return result value) = .error Failure.panic := by
    rw [translation_panic]
    rintro (panics | ⟨_, _, panics⟩)
    · exact total panics
    · cases panics
  unfold dateCondition
  rw [isCol]
  simp only [translation_panic, reduceCtorEq, Except.ok.injEq, exists_eq_left', false_or]
  cases isOp : rule.op <;> simp only [true_and, reduceCtorEq, false_and, iff_false]
  case inLast =>
    rw [translation_panic, relative_window_panics]
    constructor
    · rintro (panics | ⟨_, _, panics⟩)
      · exact panics
      · cases panics
    · exact .inl
  case between =>
    split
    · exact fun panics => by cases panics
    · rw [translation_panic]
      rintro (panics | ⟨_, _, panics⟩)
      · exact validate_date_total panics
      · exact returns validate_date_total panics
  case before => exact returns validate_date_total
  case after => exact returns validate_date_total
  all_goals exact fun panics => by cases panics

/-- The gate lets a rule through to a panic only where its window is cut within a character. -/
theorem condition_panics : conditionSql debug ownerId rule = .error .panic ↔ Slips rule := by
  have compares : comparison rule ≠ .error .panic := by
    unfold comparison
    split <;> exact fun panics => by cases panics
  have parses : parseId debug (trim rule.value) ≠ .error .panic := by
    unfold parseId
    split <;> exact fun panics => by cases panics
  unfold conditionSql Slips
  by_cases accepted : rule.field.accepts rule.op = true
  · rw [if_pos accepted]
    cases isField : rule.field <;>
      simp only [reduceCtorEq, false_or, or_false, false_and, iff_false, true_and]
    case rating =>
      rw [translation_panic]
      rintro (panics | ⟨_, _, panics⟩)
      · exact compares panics
      · rcases translation_panic.mp panics with panics | ⟨_, _, panics⟩
        · exact half_stars_total panics
        · cases panics
    case year =>
      rw [translation_panic]
      rintro (panics | ⟨_, _, panics⟩)
      · exact compares panics
      · rcases translation_panic.mp panics with panics | ⟨_, _, panics⟩
        · exact parses panics
        · cases panics
    case status => exact status_condition_total
    case dateAdded => exact date_condition_panics (by rw [isField]; rfl)
    case dateUpdated => exact date_condition_panics (by rw [isField]; rfl)
    all_goals exact text_condition_total
  · rw [if_neg accepted]
    apply iff_of_false
    · exact fun panics => by cases panics
    · rintro ⟨isDate | isDate, isWindow, _⟩
      all_goals
        rw [isDate, isWindow] at accepted
        exact accepted (by decide)

end Panics

section Translates

variable {debug : Text → String} {ownerId : Int} {rule : ShelfRule}

/-- What the field and its operator ask of a value. -/
def Translates (debug : Text → String) (rule : ShelfRule) : Prop :=
  rule.field.accepts rule.op = true ∧
    match rule.field with
    | .tag | .genre | .author | .series | .format => True
    | .rating => ∃ halfStars, parseHalfStars debug (trim rule.value) = .ok halfStars
    | .year => ∃ id, parseId debug (trim rule.value) = .ok id
    | .status => ∃ status, ReadStatus.fromStr (trim (trim rule.value)) = some status
    | .dateAdded | .dateUpdated =>
        match rule.op with
        | .inLast => ∃ window, parseRelativeWindow debug (trim rule.value) = .ok window
        | .between => ∃ start stop, splitAtDots (trim rule.value) = some (start, stop) ∧
            (∃ date, validateDate debug start = .ok date) ∧ ∃ date, validateDate debug stop = .ok date
        | _ => ∃ date, validateDate debug (trim rule.value) = .ok date

theorem translation_ok {α β : Type} {first : Translation α} {next : α → Translation β} :
    (∃ result, first >>= next = .ok result) ↔
      ∃ value, first = .ok value ∧ ∃ result, next value = .ok result := by
  constructor
  · intro ⟨result, ok⟩
    obtain ⟨value, isValue, later⟩ := translation_bind ok
    exact ⟨value, isValue, result, later⟩
  · rintro ⟨value, rfl, result, later⟩
    exact ⟨result, later⟩

theorem translation_returns {α β : Type} {first : Translation α} (result : α → β) :
    (∃ answer, (do let value ← first; return result value) = (.ok answer : Translation β)) ↔
      ∃ value, first = .ok value := by
  rw [translation_ok]
  exact ⟨fun ⟨value, isValue, _⟩ => ⟨value, isValue⟩,
    fun ⟨value, isValue⟩ => ⟨value, isValue, _, rfl⟩⟩

theorem text_condition_translates (accepted : rule.field.accepts rule.op = true)
    {members col : String} (isMember : nameMembership rule.field = some (members, col)) :
    ∃ result, textCondition rule = .ok result := by
  unfold textCondition
  rw [isMember]
  cases isOp : rule.op
  case is | isNot | contains | startsWith | includes => exact ⟨_, rfl⟩
  all_goals
    rw [isOp] at accepted
    cases isField : rule.field <;> rw [isField] at accepted isMember <;>
      first | exact absurd accepted (by decide) | cases isMember

theorem status_condition_translates (v : Text) :
    (∃ result, statusCondition debug ownerId v = .ok result) ↔
      ∃ status, ReadStatus.fromStr (trim v) = some status := by
  unfold statusCondition
  cases isStatus : ReadStatus.fromStr (trim v) with
  | none => exact iff_of_false (fun ⟨_, ok⟩ => by cases ok) (fun ⟨_, isSome⟩ => by cases isSome)
  | some status =>
      apply iff_of_true _ ⟨status, rfl⟩
      cases status <;> exact ⟨_, rfl⟩

theorem date_condition_translates {col : String} (isCol : dateColumn rule.field = .ok col)
    (accepted : rule.field.accepts rule.op = true) (v : Text) :
    (∃ result, dateCondition debug rule v = .ok result) ↔
      match rule.op with
      | .inLast => ∃ window, parseRelativeWindow debug v = .ok window
      | .between => ∃ start stop, splitAtDots v = some (start, stop) ∧
          (∃ date, validateDate debug start = .ok date) ∧ ∃ date, validateDate debug stop = .ok date
      | _ => ∃ date, validateDate debug v = .ok date := by
  unfold dateCondition
  rw [translation_ok, isCol]
  simp only [Except.ok.injEq, exists_eq_left']
  cases isOp : rule.op
  case inLast | before | after => exact translation_returns _
  case between =>
    cases isRange : splitAtDots v with
    | none =>
        exact iff_of_false (fun ⟨_, ok⟩ => by cases ok) (fun ⟨_, _, isSome, _⟩ => by cases isSome)
    | some range =>
        simp only [translation_ok]
        constructor
        · intro ⟨start, isStart, stop, isStop, _⟩
          exact ⟨range.1, range.2, rfl, ⟨start, isStart⟩, stop, isStop⟩
        · rintro ⟨start, stop, isSame, ⟨date, isDate⟩, last, isLast⟩
          cases isSame
          exact ⟨date, isDate, last, isLast, _, rfl⟩
  all_goals
    rw [isOp] at accepted
    cases isField : rule.field <;> rw [isField] at accepted isCol <;>
      first | exact absurd accepted (by decide) | cases isCol

theorem condition_translates :
    (∃ result, conditionSql debug ownerId rule = .ok result) ↔ Translates debug rule := by
  unfold conditionSql Translates
  by_cases accepted : rule.field.accepts rule.op = true
  · rw [if_pos accepted]
    simp only [accepted, true_and]
    cases isField : rule.field <;> simp only [iff_true]
    case rating | year =>
      have compares : ∃ cmp, comparison rule = .ok cmp := by
        unfold comparison
        cases isOp : rule.op
        case is | gte => exact ⟨_, rfl⟩
        all_goals
          rw [isField, isOp] at accepted
          exact absurd accepted (by decide)
      obtain ⟨cmp, isCmp⟩ := compares
      rw [translation_ok, isCmp]
      simp only [Except.ok.injEq, exists_eq_left', translation_returns]
    case status => exact status_condition_translates _
    case dateAdded => exact date_condition_translates (by rw [isField]; rfl) accepted _
    case dateUpdated => exact date_condition_translates (by rw [isField]; rfl) accepted _
    all_goals exact text_condition_translates accepted (by rw [isField]; rfl)
  · rw [if_neg accepted]
    exact iff_of_false (fun ⟨_, ok⟩ => by cases ok) fun both => accepted both.1

end Translates

section Rules

variable (debug : Text → String) (ownerId : Int)

/-- The letters of a fragment with the place of its rule. -/
def tagged (condition : (String × List Bind) × Nat) : List (Char × Option Nat) :=
  condition.1.1.toList.map fun letter => (letter, some condition.2)

/-- The letters of the joined fragments, each with the place of the rule it comes from. -/
def taggedSql (joiner : String) (conditions : List (String × List Bind)) :
    List (Char × Option Nat) :=
  match conditions.zipIdx with
  | [] => "0".toList.map fun letter => (letter, none)
  | first :: rest =>
      "(".toList.map (fun letter => (letter, none)) ++
        (tagged first ++ rest.flatMap fun condition =>
          joiner.toList.map (fun letter => (letter, none)) ++ tagged condition) ++
        ")".toList.map fun letter => (letter, none)

/-- The binds in order, each with the place of the rule that produced it. -/
def taggedBinds (conditions : List (String × List Bind)) : List (Bind × Nat) :=
  conditions.zipIdx.flatMap fun condition => condition.1.2.map fun bind => (bind, condition.2)

/-- The placeholders of the text are those of the rules that bind, one for each bind in order. -/
def Owned (rules : List ShelfRule) (matchMode : MatchMode) (predicate : Predicate) : Prop :=
  ∃ conditions, rules.mapM (conditionSql debug ownerId) = .ok conditions ∧
    (taggedSql matchMode.joiner conditions).map Prod.fst = predicate.sql.toList ∧
    (taggedBinds conditions).map Prod.fst = predicate.binds ∧
    ((taggedSql matchMode.joiner conditions).filter fun letter => letter.1 = '?').map Prod.snd =
      (taggedBinds conditions).map fun bind => some bind.2

/-- Rules that differ in their values alone. Of a status the value is one of three names. -/
def Alike (rule other : ShelfRule) : Prop :=
  rule.field = other.field ∧ rule.op = other.op ∧
    (rule.field = .status →
      ReadStatus.fromStr (trim (trim rule.value)) = ReadStatus.fromStr (trim (trim other.value)))

structure Answered (rules : List ShelfRule) (matchMode : MatchMode) : Prop where
  total : membershipPredicate debug ownerId rules matchMode ≠ .error .panic
  owned : ∀ predicate, membershipPredicate debug ownerId rules matchMode = .ok predicate →
    Owned debug ownerId rules matchMode predicate ∧
      predicate.sql.toList.count '?' = predicate.binds.length
  aloof : ∀ others predicate other, List.Forall₂ Alike rules others →
    membershipPredicate debug ownerId rules matchMode = .ok predicate →
    membershipPredicate debug ownerId others matchMode = .ok other → predicate.sql = other.sql

end Rules

section Owners

variable {debug : Text → String} {ownerId : Int} {rules : List ShelfRule} {matchMode : MatchMode}
  {conditions : List (String × List Bind)}

theorem translated_cons {rule : ShelfRule} {rest : List ShelfRule}
    {result : List (String × List Bind)} :
    (rule :: rest).mapM (conditionSql debug ownerId) = .ok result ↔
      ∃ condition conditions, conditionSql debug ownerId rule = .ok condition ∧
        rest.mapM (conditionSql debug ownerId) = .ok conditions ∧
        result = condition :: conditions := by
  rw [List.mapM_cons]
  constructor
  · intro ok
    obtain ⟨condition, isFirst, ok⟩ := translation_bind ok
    obtain ⟨conditions, isRest, ok⟩ := translation_bind ok
    cases ok
    exact ⟨condition, conditions, isFirst, isRest, rfl⟩
  · rintro ⟨condition, conditions, isFirst, isRest, rfl⟩
    rw [isFirst, isRest]
    rfl

theorem conditions_ask (ok : rules.mapM (conditionSql debug ownerId) = .ok conditions) :
    ∀ condition ∈ conditions, placeholders condition.1 = condition.2.length := by
  induction rules generalizing conditions with
  | nil =>
      cases ok
      exact fun _ member => by cases member
  | cons rule rest induction =>
      obtain ⟨first, later, isFirst, isRest, rfl⟩ := translated_cons.mp ok
      intro condition member
      rcases List.mem_cons.mp member with rfl | inLater
      · exact condition_asks isFirst
      · exact induction isRest condition inLater

theorem intercalate_letters (joiner : String) (first : String) (rest : List String) :
    (joiner.intercalate (first :: rest)).toList =
      first.toList ++ rest.flatMap fun part => joiner.toList ++ part.toList := by
  rw [String.toList_intercalate, List.map_cons]
  induction rest generalizing first with
  | nil => simp
  | cons part rest induction =>
      rw [List.map_cons, List.intercalate_cons_cons, induction part, List.flatMap_cons]
      simp

theorem tagged_letters (condition : (String × List Bind) × Nat) :
    (tagged condition).map Prod.fst = condition.1.1.toList := by
  simp [tagged, Function.comp_def]

theorem tagged_sql_letters (joiner : String) (conditions : List (String × List Bind))
    (isSome : conditions ≠ []) : (taggedSql joiner conditions).map Prod.fst =
      ("(" ++ joiner.intercalate (conditions.map Prod.fst) ++ ")").toList := by
  cases conditions with
  | nil => exact absurd rfl isSome
  | cons first rest =>
      have flat (tail : List ((String × List Bind) × Nat)) :
          (tail.flatMap fun condition =>
            joiner.toList.map (fun letter => (letter, (none : Option Nat))) ++
              tagged condition).map Prod.fst =
            (tail.map fun condition => condition.1.1).flatMap fun part =>
              joiner.toList ++ part.toList := by
        simp [List.map_flatMap, List.flatMap_map, tagged_letters, Function.comp_def]
      have parts : (rest.zipIdx 1).map (fun condition => condition.1.1) = rest.map Prod.fst := by
        conv_rhs => rw [← List.zipIdx_map_fst 1 rest]
        rw [List.map_map]
        rfl
      rw [taggedSql, List.zipIdx_cons]
      simp only [List.map_append, flat, tagged_letters, List.map_cons, String.toList_append,
        intercalate_letters, parts, List.map_map, Nat.zero_add]
      simp [Function.comp_def]

theorem tagged_binds (conditions : List (String × List Bind)) :
    (taggedBinds conditions).map Prod.fst = conditions.flatMap Prod.snd := by
  have untagged : (taggedBinds conditions).map Prod.fst =
      (conditions.zipIdx.map Prod.fst).flatMap Prod.snd := by
    rw [List.flatMap_map, taggedBinds, List.map_flatMap]
    simp [Function.comp_def]
  rw [untagged, List.zipIdx_map_fst]

theorem tagged_asks {condition : (String × List Bind) × Nat}
    (asks : placeholders condition.1.1 = condition.1.2.length) :
    ((tagged condition).filter fun letter => letter.1 = '?').map Prod.snd =
      (condition.1.2.map fun bind => (bind, condition.2)).map fun bind => some bind.2 := by
  have counted : (condition.1.1.toList.filter fun letter => letter = '?') =
      List.replicate condition.1.2.length '?' := by
    rw [← asks, placeholders, List.filter_eq]
  simp only [tagged, List.filter_map, List.map_map, Function.comp_def]
  rw [counted]
  simp

theorem joiner_clear (matchMode : MatchMode) :
    ((matchMode.joiner.toList.map fun letter => (letter, (none : Option Nat))).filter
      fun letter => letter.1 = '?') = [] := by
  cases matchMode <;> decide

theorem tagged_sql_asks
    (asks : ∀ condition ∈ conditions, placeholders condition.1 = condition.2.length) :
    ((taggedSql matchMode.joiner conditions).filter fun letter => letter.1 = '?').map Prod.snd =
      (taggedBinds conditions).map fun bind => some bind.2 := by
  have asksTagged : ∀ condition ∈ conditions.zipIdx,
      placeholders condition.1.1 = condition.1.2.length := by
    intro condition member
    exact asks condition.1 (List.fst_mem_of_mem_zipIdx member)
  have brackets : ((("(".toList.map fun letter => (letter, (none : Option Nat))).filter
      fun letter => letter.1 = '?') = []) ∧
      ((")".toList.map fun letter => (letter, (none : Option Nat))).filter
        fun letter => letter.1 = '?') = [] := by
    decide
  unfold taggedSql taggedBinds
  cases isTagged : conditions.zipIdx with
  | nil =>
      dsimp only
      decide
  | cons first rest =>
      rw [isTagged] at asksTagged
      have later : ((rest.flatMap fun condition =>
          matchMode.joiner.toList.map (fun letter => (letter, (none : Option Nat))) ++
            tagged condition).filter fun letter => letter.1 = '?').map Prod.snd =
          rest.flatMap fun condition =>
            (condition.1.2.map fun bind => (bind, condition.2)).map fun bind => some bind.2 := by
        rw [List.filter_flatMap, List.map_flatMap]
        apply List.flatMap_congr
        intro condition member
        rw [List.filter_append, joiner_clear, List.nil_append]
        exact tagged_asks (asksTagged condition (List.mem_cons_of_mem _ member))
      dsimp only
      rw [List.filter_append, List.filter_append, List.filter_append, brackets.1, brackets.2,
        List.nil_append, List.append_nil, List.map_append, later,
        tagged_asks (asksTagged first List.mem_cons_self), List.flatMap_cons, List.map_append,
        List.map_flatMap]

theorem membership_cons {rule : ShelfRule} {rest : List ShelfRule} {predicate : Predicate} :
    membershipPredicate debug ownerId (rule :: rest) matchMode = .ok predicate ↔
      ∃ conditions, (rule :: rest).mapM (conditionSql debug ownerId) = .ok conditions ∧
        predicate = ⟨"(" ++ matchMode.joiner.intercalate (conditions.map Prod.fst) ++ ")",
          conditions.flatMap Prod.snd⟩ := by
  rw [membershipPredicate, if_neg (by simp)]
  constructor
  · intro ok
    obtain ⟨conditions, isConditions, ok⟩ := translation_bind ok
    cases ok
    exact ⟨conditions, isConditions, rfl⟩
  · rintro ⟨conditions, isConditions, rfl⟩
    rw [isConditions]
    rfl

theorem membership_owned {predicate : Predicate}
    (ok : membershipPredicate debug ownerId rules matchMode = .ok predicate) :
    Owned debug ownerId rules matchMode predicate := by
  cases rules with
  | nil =>
      cases ok
      refine ⟨[], rfl, ?_, rfl, ?_⟩
      · simp [taggedSql]
      · exact tagged_sql_asks fun _ member => by cases member
  | cons rule rest =>
      obtain ⟨conditions, isConditions, rfl⟩ := membership_cons.mp ok
      have isSome : conditions ≠ [] := by
        obtain ⟨_, _, _, _, rfl⟩ := translated_cons.mp isConditions
        exact List.cons_ne_nil _ _
      exact ⟨conditions, isConditions, tagged_sql_letters _ conditions isSome,
        tagged_binds conditions, tagged_sql_asks (conditions_ask isConditions)⟩

theorem Owned.count {predicate : Predicate}
    (owned : Owned debug ownerId rules matchMode predicate) :
    predicate.sql.toList.count '?' = predicate.binds.length := by
  obtain ⟨conditions, _, isSql, isBinds, owners⟩ := owned
  have lengths := congrArg List.length owners
  rw [List.length_map, List.length_map] at lengths
  rw [← isSql, ← isBinds, List.length_map, ← lengths, List.count, List.countP_map,
    List.countP_eq_length_filter]
  rfl

theorem translated_panics : rules.mapM (conditionSql debug ownerId) = .error .panic ↔
    ∃ earlier rule later, rules = earlier ++ rule :: later ∧
      (∀ before ∈ earlier, Translates debug before) ∧ Slips rule := by
  induction rules with
  | nil =>
      apply iff_of_false
      · exact fun panics => by cases panics
      · intro ⟨_, _, _, isNil, _⟩
        simp at isNil
  | cons rule rest induction =>
      rw [List.mapM_cons, translation_panic, condition_panics]
      constructor
      · rintro (slips | ⟨condition, isFirst, panics⟩)
        · exact ⟨[], rule, rest, rfl, fun _ member => absurd member List.not_mem_nil, slips⟩
        · rcases translation_panic.mp panics with panics | ⟨_, _, panics⟩
          · obtain ⟨earlier, slipping, later, rfl, translates, slips⟩ := induction.mp panics
            refine ⟨rule :: earlier, slipping, later, rfl, ?_, slips⟩
            intro before member
            rcases List.mem_cons.mp member with rfl | inEarlier
            · exact condition_translates.mp ⟨condition, isFirst⟩
            · exact translates before inEarlier
          · cases panics
      · intro ⟨earlier, slipping, later, isRules, translates, slips⟩
        cases earlier with
        | nil =>
            cases isRules
            exact .inl slips
        | cons first earlier =>
            cases isRules
            obtain ⟨condition, isFirst⟩ :=
              condition_translates.mpr (translates rule List.mem_cons_self)
            refine .inr ⟨condition, isFirst, translation_panic.mpr (.inl ?_)⟩
            exact induction.mpr ⟨earlier, slipping, later, rfl,
              fun before member => translates before (List.mem_cons_of_mem _ member), slips⟩

theorem membership_panics : membershipPredicate debug ownerId rules matchMode = .error .panic ↔
    ∃ earlier rule later, rules = earlier ++ rule :: later ∧
      (∀ before ∈ earlier, Translates debug before) ∧ Slips rule := by
  rw [← @translated_panics debug ownerId]
  cases rules with
  | nil =>
      apply iff_of_false
      · exact fun panics => by cases panics
      · exact fun panics => by cases panics
  | cons rule rest =>
      rw [membershipPredicate, if_neg (by simp), translation_panic]
      constructor
      · rintro (panics | ⟨_, _, panics⟩)
        · exact panics
        · cases panics
      · exact .inl

end Owners

section Alike

variable {debug : Text → String} {ownerId : Int} {rule other : ShelfRule}
  {sql otherSql : String} {binds otherBinds : List Bind}

theorem comparison_alike (sameOp : rule.op = other.op) {cmp otherCmp : String}
    (ok : comparison rule = .ok cmp) (otherOk : comparison other = .ok otherCmp) :
    cmp = otherCmp := by
  unfold comparison at ok otherOk
  rw [← sameOp] at otherOk
  cases isOp : rule.op <;> simp only [isOp] at ok otherOk <;> cases ok <;> cases otherOk <;> rfl

theorem text_condition_alike (sameField : rule.field = other.field) (sameOp : rule.op = other.op)
    (ok : textCondition rule = .ok (sql, binds))
    (otherOk : textCondition other = .ok (otherSql, otherBinds)) : sql = otherSql := by
  unfold textCondition at ok otherOk
  rw [← sameField, ← sameOp] at otherOk
  cases isMember : nameMembership rule.field with
  | none =>
      rw [isMember] at ok
      cases ok
  | some member =>
      rw [isMember] at ok otherOk
      cases isOp : rule.op <;> simp only [isOp] at ok otherOk <;> cases ok <;> cases otherOk <;> rfl

theorem date_condition_alike (sameField : rule.field = other.field) (sameOp : rule.op = other.op)
    {v w : Text} (ok : dateCondition debug rule v = .ok (sql, binds))
    (otherOk : dateCondition debug other w = .ok (otherSql, otherBinds)) : sql = otherSql := by
  unfold dateCondition at ok otherOk
  rw [← sameField, ← sameOp] at otherOk
  obtain ⟨col, isCol, ok⟩ := translation_bind ok
  obtain ⟨otherCol, isOtherCol, otherOk⟩ := translation_bind otherOk
  cases isCol.symm.trans isOtherCol
  cases isOp : rule.op <;> simp only [isOp] at ok otherOk
  case inLast | before | after =>
    obtain ⟨_, _, ok⟩ := translation_bind ok
    obtain ⟨_, _, otherOk⟩ := translation_bind otherOk
    cases ok
    cases otherOk
    rfl
  case between =>
    split at ok
    · cases ok
    · split at otherOk
      · cases otherOk
      · obtain ⟨_, _, ok⟩ := translation_bind ok
        obtain ⟨_, _, ok⟩ := translation_bind ok
        obtain ⟨_, _, otherOk⟩ := translation_bind otherOk
        obtain ⟨_, _, otherOk⟩ := translation_bind otherOk
        cases ok
        cases otherOk
        rfl
  all_goals cases ok

theorem status_condition_alike {v w : Text}
    (same : ReadStatus.fromStr (trim v) = ReadStatus.fromStr (trim w))
    (ok : statusCondition debug ownerId v = .ok (sql, binds))
    (otherOk : statusCondition debug ownerId w = .ok (otherSql, otherBinds)) : sql = otherSql := by
  unfold statusCondition at ok otherOk
  rw [← same] at otherOk
  cases isStatus : ReadStatus.fromStr (trim v) with
  | none =>
      rw [isStatus] at ok
      cases ok
  | some status =>
      rw [isStatus] at ok otherOk
      cases status <;> cases ok <;> cases otherOk <;> rfl

theorem condition_alike (alike : Alike rule other)
    (ok : conditionSql debug ownerId rule = .ok (sql, binds))
    (otherOk : conditionSql debug ownerId other = .ok (otherSql, otherBinds)) : sql = otherSql := by
  obtain ⟨sameField, sameOp, sameStatus⟩ := alike
  unfold conditionSql at ok otherOk
  split_ifs at ok otherOk
  rw [← sameField] at otherOk
  cases isField : rule.field <;> simp only [isField] at ok otherOk
  case rating | year =>
    obtain ⟨cmp, isCmp, ok⟩ := translation_bind ok
    obtain ⟨_, _, ok⟩ := translation_bind ok
    obtain ⟨otherCmp, isOtherCmp, otherOk⟩ := translation_bind otherOk
    obtain ⟨_, _, otherOk⟩ := translation_bind otherOk
    obtain rfl := comparison_alike sameOp isCmp isOtherCmp
    cases ok
    cases otherOk
    rfl
  case status =>
    exact status_condition_alike (sameStatus isField) ok otherOk
  case dateAdded => exact date_condition_alike sameField sameOp ok otherOk
  case dateUpdated => exact date_condition_alike sameField sameOp ok otherOk
  all_goals exact text_condition_alike sameField sameOp ok otherOk

theorem conditions_alike {rules others : List ShelfRule} (alike : List.Forall₂ Alike rules others)
    {conditions otherConditions : List (String × List Bind)}
    (ok : rules.mapM (conditionSql debug ownerId) = .ok conditions)
    (otherOk : others.mapM (conditionSql debug ownerId) = .ok otherConditions) :
    conditions.map Prod.fst = otherConditions.map Prod.fst := by
  induction alike generalizing conditions otherConditions with
  | nil =>
      cases ok
      cases otherOk
      rfl
  | cons alike _ induction =>
      obtain ⟨condition, later, isFirst, isRest, rfl⟩ := translated_cons.mp ok
      obtain ⟨otherCondition, otherLater, isOtherFirst, isOtherRest, rfl⟩ :=
        translated_cons.mp otherOk
      rw [List.map_cons, List.map_cons, condition_alike alike isFirst isOtherFirst,
        induction isRest isOtherRest]

theorem membership_alike {rules others : List ShelfRule} {matchMode : MatchMode}
    (alike : List.Forall₂ Alike rules others) {predicate otherPredicate : Predicate}
    (ok : membershipPredicate debug ownerId rules matchMode = .ok predicate)
    (otherOk : membershipPredicate debug ownerId others matchMode = .ok otherPredicate) :
    predicate.sql = otherPredicate.sql := by
  cases alike with
  | nil =>
      cases ok
      cases otherOk
      rfl
  | cons first rest =>
      obtain ⟨conditions, isConditions, rfl⟩ := membership_cons.mp ok
      obtain ⟨others, isOthers, rfl⟩ := membership_cons.mp otherOk
      rw [conditions_alike (.cons first rest) isConditions isOthers]

end Alike

/-- Before the rule that slips every rule translates, so that it is reached. -/
def Reached (debug : Text → String) (rules : List ShelfRule) (rule : ShelfRule) : Prop :=
  ∃ earlier later, rules = earlier ++ rule :: later ∧ ∀ before ∈ earlier, Translates debug before

/-- A rule set is answered, and its placeholders bind what they ask for, exactly when no rule that
is reached asks for a window that ends in a character of several bytes. -/
theorem membership_answered (debug : Text → String) (ownerId : Int) (rules : List ShelfRule)
    (matchMode : MatchMode) : Answered debug ownerId rules matchMode ↔
      ∀ rule, Reached debug rules rule → ¬Slips rule := by
  constructor
  · intro ⟨total, _, _⟩ rule ⟨earlier, later, isRules, translates⟩ slips
    exact total (membership_panics.mpr ⟨earlier, rule, later, isRules, translates, slips⟩)
  · intro none
    constructor
    · intro panics
      obtain ⟨earlier, rule, later, isRules, translates, slips⟩ := membership_panics.mp panics
      exact none rule ⟨earlier, later, isRules, translates⟩ slips
    · intro predicate ok
      exact ⟨membership_owned ok, (membership_owned ok).count⟩
    · intro others predicate other alike ok otherOk
      exact membership_alike alike ok otherOk

/-- Thirty days, with a letter that two bytes spell. -/
theorem membership_panics_accent :
    ¬Answered (fun _ => "") 1 [⟨.dateAdded, .inLast, ['3', '0', 'é']⟩] .all := by
  intro answered
  exact answered.total (membership_panics.mpr
    ⟨[], _, [], rfl, fun _ member => absurd member List.not_mem_nil, by decide⟩)

end Omnibus.Shelves
