import Mathlib.Data.Int.DivMod
import Omnibus.Library.Like
import Omnibus.Library.Rounding

/-!
# Smart shelf rules

`shelves/rules.rs`: each rule becomes a fragment of SQL over `books b` and the values it binds, and
the fragments are joined. How a value is quoted in a message (`{v:?}`) is a parameter.
-/

namespace Omnibus.Shelves

open Omnibus.Library.Like Omnibus.Library.Rounding Omnibus.Library.Strings

section Vocabulary

inductive MatchMode where
  | any
  | all
  deriving DecidableEq, Repr

inductive RuleField where
  | tag
  | genre
  | author
  | series
  | rating
  | status
  | format
  | year
  | dateAdded
  | dateUpdated
  deriving DecidableEq, Repr

inductive RuleOp where
  | is
  | isNot
  | contains
  | startsWith
  | gte
  | includes
  | inLast
  | between
  | before
  | after
  deriving DecidableEq, Repr

def RuleField.asStr : RuleField → String
  | tag => "tag"
  | genre => "genre"
  | author => "author"
  | series => "series"
  | rating => "rating"
  | status => "status"
  | format => "format"
  | year => "year"
  | dateAdded => "date_added"
  | dateUpdated => "date_updated"

def RuleOp.asStr : RuleOp → String
  | is => "is"
  | isNot => "is_not"
  | contains => "contains"
  | startsWith => "starts_with"
  | gte => "gte"
  | includes => "includes"
  | inLast => "in_last"
  | between => "between"
  | before => "before"
  | after => "after"

def RuleField.accepts (field : RuleField) (op : RuleOp) : Bool :=
  let ok : List RuleOp :=
    match field with
    | tag | genre | author | series => [.is, .isNot, .contains, .startsWith]
    | rating => [.is, .gte]
    | status => [.is]
    | format => [.includes, .contains, .startsWith]
    | year => [.is, .gte]
    | dateAdded | dateUpdated => [.inLast, .between, .before, .after]
  ok.contains op

structure ShelfRule where
  field : RuleField
  op : RuleOp
  value : Text
  deriving DecidableEq, Repr

inductive ReadStatus where
  | unread
  | reading
  | finished
  deriving DecidableEq, Repr

def ReadStatus.asStr : ReadStatus → String
  | unread => "unread"
  | reading => "reading"
  | finished => "finished"

def ReadStatus.fromStr (text : Text) : Option ReadStatus :=
  [unread, reading, finished].find? fun status => text = status.asStr.toList

inductive Bind where
  | text (value : Text)
  | int (value : Int)
  deriving DecidableEq, Repr

/-- What a translation ends with instead of SQL: `ShelfError::InvalidRule`, or a panic. -/
inductive Failure where
  | invalidRule (message : String)
  | panic
  deriving DecidableEq, Repr

abbrev Translation (α : Type) := Except Failure α

/-- A WHERE fragment over the `books b` alias, and its binds in order. -/
structure Predicate where
  sql : String
  binds : List Bind
  deriving DecidableEq, Repr

def unsupported (rule : ShelfRule) : Failure :=
  .invalidRule ("operator " ++ rule.op.asStr ++ " is not supported for field " ++
    rule.field.asStr)

end Vocabulary

section Membership

def overridesWinSql : String :=
  "(instr(COALESCE(l.metadata_precedence, ''), '\"omnibus_overrides\"') = 0
           OR instr(COALESCE(l.metadata_precedence, ''), '\"embedded_tags\"') = 0
           OR instr(COALESCE(l.metadata_precedence, ''), '\"omnibus_overrides\"')
              > instr(COALESCE(l.metadata_precedence, ''), '\"embedded_tags\"'))"

def overridePresentSql (path : String) : String :=
  "(" ++ overridesWinSql ++
    " AND json_type(CASE WHEN json_valid(mo.overrides) THEN mo.overrides ELSE '\x7b\x7d' END, '" ++
    path ++ "') IS 'text')"

def effectiveTagsSql : String :=
  "SELECT btl.book AS book_id, btl.tag AS tag_id
               FROM books_tags_link btl
               JOIN books b ON b.id = btl.book
               JOIN scan_roots l ON l.id = b.library_id
               LEFT JOIN metadata_overrides mo ON mo.book_uuid = b.uuid
              WHERE json_type(CASE WHEN json_valid(mo.overrides)
                                   THEN mo.overrides ELSE '\x7b\x7d' END, '$.subjects') IS NOT 'array'
                 OR NOT " ++ overridesWinSql ++ " UNION
             SELECT b.id AS book_id, t.id AS tag_id
               FROM books b
               JOIN scan_roots l ON l.id = b.library_id
               JOIN metadata_overrides mo ON mo.book_uuid = b.uuid
               JOIN json_each(CASE WHEN json_valid(mo.overrides)
                                   THEN mo.overrides ELSE '\x7b\x7d' END, '$.subjects') je
               JOIN tags t ON t.name = je.value COLLATE NOCASE
              WHERE " ++ overridesWinSql ++ " AND json_type(CASE WHEN json_valid(mo.overrides)
                                 THEN mo.overrides ELSE '\x7b\x7d' END, '$.subjects') = 'array'
                AND je.type = 'text'"

def effectiveGenresSql : String :=
  "SELECT b.id AS book_id, g.id AS genre_id
               FROM books b
               JOIN scan_roots l ON l.id = b.library_id
               JOIN metadata_overrides mo ON mo.book_uuid = b.uuid
               JOIN json_each(CASE WHEN json_valid(mo.overrides)
                                   THEN mo.overrides ELSE '\x7b\x7d' END, '$.genres') je
               JOIN genres g ON g.name = je.value COLLATE NOCASE
              WHERE " ++ overridesWinSql ++ " AND json_type(CASE WHEN json_valid(mo.overrides)
                                 THEN mo.overrides ELSE '\x7b\x7d' END, '$.genres') = 'array'
                AND je.type = 'text'"

def effectiveAuthorsSql : String :=
  "SELECT bal.book AS book_id, bal.author AS author_id
               FROM books_authors_link bal
               JOIN books b ON b.id = bal.book
               JOIN scan_roots l ON l.id = b.library_id
               LEFT JOIN metadata_overrides mo ON mo.book_uuid = b.uuid
              WHERE json_type(CASE WHEN json_valid(mo.overrides)
                                   THEN mo.overrides ELSE '\x7b\x7d' END, '$.creators') IS NOT 'array'
                 OR NOT " ++ overridesWinSql ++ " UNION
             SELECT b.id AS book_id, a.id AS author_id
               FROM books b
               JOIN scan_roots l ON l.id = b.library_id
               JOIN metadata_overrides mo ON mo.book_uuid = b.uuid
               JOIN json_each(CASE WHEN json_valid(mo.overrides)
                                   THEN mo.overrides ELSE '\x7b\x7d' END, '$.creators') je
               JOIN authors a
                 ON a.name = CASE WHEN je.type = 'object'
                                  THEN json_extract(je.value, '$.name') END COLLATE NOCASE
              WHERE " ++ overridesWinSql ++ " AND json_type(CASE WHEN json_valid(mo.overrides)
                                 THEN mo.overrides ELSE '\x7b\x7d' END, '$.creators') = 'array'"

def effectiveSeriesSql : String :=
  "SELECT bsl.book AS book_id, bsl.series AS series_id
               FROM books_series_link bsl
               JOIN books b ON b.id = bsl.book
               JOIN scan_roots l ON l.id = b.library_id
               LEFT JOIN metadata_overrides mo ON mo.book_uuid = b.uuid
              WHERE NOT " ++ overridePresentSql "$.series" ++ " UNION
             SELECT b.id AS book_id, s.id AS series_id
               FROM books b
               JOIN scan_roots l ON l.id = b.library_id
               JOIN metadata_overrides mo ON mo.book_uuid = b.uuid
               JOIN series s
                 ON s.name = json_extract(CASE WHEN json_valid(mo.overrides)
                                               THEN mo.overrides ELSE '\x7b\x7d' END, '$.series')
                    COLLATE NOCASE
              WHERE " ++ overridePresentSql "$.series"

/-- The members of a name-matched field, up to the comparison, and the column compared. -/
def nameMembership : RuleField → Option (String × String)
  | .tag => some ("SELECT et.book_id FROM (" ++ effectiveTagsSql ++
      ") et JOIN tags t ON t.id = et.tag_id WHERE ", "t.name")
  | .genre => some ("SELECT eg.book_id FROM (" ++ effectiveGenresSql ++
      ") eg JOIN genres g ON g.id = eg.genre_id WHERE ", "g.name")
  | .author => some ("SELECT ea.book_id FROM (" ++ effectiveAuthorsSql ++
      ") ea JOIN authors a ON a.id = ea.author_id WHERE ", "a.name")
  | .series => some ("SELECT es.book_id FROM (" ++ effectiveSeriesSql ++
      ") es JOIN series s ON s.id = es.series_id WHERE ", "s.name")
  | .format => some ("SELECT bf.book_id FROM book_files bf WHERE ", "bf.format")
  | .rating | .year | .dateAdded | .dateUpdated | .status => none

end Membership

section Parsers

variable (debug : Text → String)

/-- `str::parse::<i64>`. -/
def parseI64 (text : Text) : Option Int :=
  match text with
  | '-' :: digits =>
      if digits ≠ [] ∧ digits.all Char.isDigit ∧ Nat.ofDigitChars 10 digits 0 ≤ 2 ^ 63 then
        some (-Nat.ofDigitChars 10 digits 0)
      else none
  | _ => (parseUnsigned (2 ^ 63) text).map fun number => (number : Int)

def parseId (v : Text) : Translation Int :=
  match parseI64 v with
  | some id => .ok id
  | none => .error (.invalidRule ("expected an integer, got " ++ debug v))

/-- An `f64`; what is infinite or no number lies in no range. -/
inductive Float where
  | finite (value : ℚ)
  | nonfinite

def signed : Text → Int × Text
  | '-' :: rest => (-1, rest)
  | '+' :: rest => (1, rest)
  | rest => (1, rest)

/-- The exponent after `e` or `E`: a sign or none, and digits. -/
def parseExponent : Text → Option Int
  | [] => some 0
  | mark :: rest =>
      let digits := (signed rest).2
      if (mark = 'e' ∨ mark = 'E') ∧ digits ≠ [] ∧ digits.all Char.isDigit then
        some ((signed rest).1 * Nat.ofDigitChars 10 digits 0)
      else none

/-- Digits with at most one point among them and one digit at least, and an exponent or none. -/
def parseNumber (text : Text) : Option ℚ :=
  let whole := text.takeWhile Char.isDigit
  let rest := text.dropWhile Char.isDigit
  let fraction := if rest.head? = some '.' then rest.tail.takeWhile Char.isDigit else []
  let rest := if rest.head? = some '.' then rest.tail.dropWhile Char.isDigit else rest
  if whole = [] ∧ fraction = [] then none
  else (parseExponent rest).map fun exponent =>
    (Nat.ofDigitChars 10 (whole ++ fraction) 0 : ℚ) * 10 ^ (exponent - (fraction.length : Int))

/-- `str::parse::<f64>`. The range that is kept is far from where `f64` overflows or runs out. -/
def parseF64 (text : Text) : Option Float :=
  let sign := (signed text).1
  let body := (signed text).2
  if body.map Char.toLower ∈ ["inf".toList, "infinity".toList, "nan".toList] then
    some .nonfinite
  else (parseNumber body).map fun number => .finite (sign * roundTo 53 number)

def parseHalfStars (v : Text) : Translation Int :=
  match parseF64 v with
  | none => .error (.invalidRule ("invalid rating " ++ debug v))
  | some .nonfinite => .error (.invalidRule "rating must be between 0.5 and 5")
  | some (.finite stars) =>
      if 1 / 2 ≤ stars ∧ stars ≤ 5 then .ok ⌊stars * 2 + 1 / 2⌋
      else .error (.invalidRule "rating must be between 0.5 and 5")

def len (text : Text) : Nat := (text.map Char.utf8Size).sum

/-- `str::split_at`, which panics where the index is within a character. -/
def splitAt : Nat → Text → Translation (Text × Text)
  | 0, text => .ok ([], text)
  | _ + 1, [] => .error .panic
  | index + 1, symbol :: rest =>
      if symbol.utf8Size ≤ index + 1 then
        (splitAt (index + 1 - symbol.utf8Size) rest).map fun parts => (symbol :: parts.1, parts.2)
      else .error .panic
termination_by _ text => text

def parseRelativeWindow (v : Text) : Translation Text :=
  let invalid := Failure.invalidRule ("invalid relative window " ++ debug v)
  if len v = 0 then .error invalid
  else do
    let (num, unit) ← splitAt (len v - 1) v
    match parseI64 num with
    | none => .error invalid
    | some n =>
        if n ≤ 0 then .error (.invalidRule "window must be positive")
        else
          match unit with
          | ['d'] => .ok ('-' :: decimal n.toNat ++ " days".toList)
          | ['w'] => .ok ('-' :: decimal n.toNat ++ " weeks".toList)
          | ['m'] => .ok ('-' :: decimal n.toNat ++ " months".toList)
          | ['y'] => .ok ('-' :: decimal n.toNat ++ " years".toList)
          | _ => .error invalid

def validateDate (v : Text) : Translation Text :=
  let v := trim v
  let bytes := v.flatMap String.utf8EncodeChar
  if bytes.length = 10 ∧ bytes.zipIdx.all fun byte =>
      if byte.2 = 4 ∨ byte.2 = 7 then byte.1 = 45 else 48 ≤ byte.1 ∧ byte.1 ≤ 57 then .ok v
  else .error (.invalidRule ("date must be YYYY-MM-DD, got " ++ debug v))

/-- `str::split_once` at two dots. -/
def splitAtDots : Text → Option (Text × Text)
  | '.' :: '.' :: rest => some ([], rest)
  | symbol :: rest => (splitAtDots rest).map fun parts => (symbol :: parts.1, parts.2)
  | [] => none

end Parsers

section Conditions

variable (debug : Text → String) (ownerId : Int)

def likeEscape (v : Text) : Text :=
  v.flatMap fun c => if c = '\\' ∨ c = '%' ∨ c = '_' then ['\\', c] else [c]

def textCondition (rule : ShelfRule) : Translation (String × List Bind) :=
  match nameMembership rule.field with
  | none => .error (unsupported rule)
  | some (members, col) =>
      let v := trim rule.value
      match rule.op with
      | .is | .includes =>
          .ok ("b.id IN (" ++ members ++ col ++ " = ? COLLATE NOCASE)", [.text v])
      | .isNot => .ok ("b.id NOT IN (" ++ members ++ col ++ " = ? COLLATE NOCASE)", [.text v])
      | .contains =>
          .ok ("b.id IN (" ++ members ++ col ++ " LIKE ? ESCAPE '\\')",
            [.text ('%' :: (likeEscape v ++ ['%']))])
      | .startsWith =>
          .ok ("b.id IN (" ++ members ++ col ++ " LIKE ? ESCAPE '\\')",
            [.text (likeEscape v ++ ['%'])])
      | _ => .error (unsupported rule)

def statusCondition (v : Text) : Translation (String × List Bind) :=
  match ReadStatus.fromStr (trim v) with
  | none => .error (.invalidRule ("unknown read status " ++ debug v))
  | some .unread =>
      .ok ("NOT EXISTS (SELECT 1 FROM book_read_status rs " ++
        "WHERE rs.book_uuid = b.uuid AND rs.user_id = ? " ++
        "AND rs.status IN ('reading', 'finished'))", [.int ownerId])
  | some status =>
      .ok ("EXISTS (SELECT 1 FROM book_read_status rs " ++
        "WHERE rs.book_uuid = b.uuid AND rs.user_id = ? AND rs.status = '" ++ status.asStr ++ "')",
        [.int ownerId])

def dateColumn : RuleField → Translation String
  | .dateAdded => .ok "b.timestamp"
  | .dateUpdated => .ok "b.last_modified"
  | _ => .error .panic

def dateCondition (rule : ShelfRule) (v : Text) : Translation (String × List Bind) := do
  let col ← dateColumn rule.field
  match rule.op with
  | .inLast =>
      let window ← parseRelativeWindow debug v
      return (col ++ " >= CAST(strftime('%s', 'now', ?) AS INTEGER)", [.text window])
  | .between =>
      match splitAtDots v with
      | none => .error (.invalidRule ("range must be START..END, got " ++ debug v))
      | some (start, stop) =>
          let start ← validateDate debug start
          let stop ← validateDate debug stop
          return ("date(" ++ col ++ ", 'unixepoch') BETWEEN ? AND ?", [.text start, .text stop])
  | .before =>
      let date ← validateDate debug v
      return ("date(" ++ col ++ ", 'unixepoch') < ?", [.text date])
  | .after =>
      let date ← validateDate debug v
      return ("date(" ++ col ++ ", 'unixepoch') > ?", [.text date])
  | _ => .error (unsupported rule)

/-- The comparison of `is` and `gte`, the only ones of a rating and of a year. -/
def comparison (rule : ShelfRule) : Translation String :=
  match rule.op with
  | .is => .ok "="
  | .gte => .ok ">="
  | _ => .error (unsupported rule)

def conditionSql (rule : ShelfRule) : Translation (String × List Bind) :=
  if rule.field.accepts rule.op then
    let v := trim rule.value
    match rule.field with
    | .tag | .genre | .author | .series | .format => textCondition rule
    | .rating => do
        let cmp ← comparison rule
        let halfStars ← parseHalfStars debug v
        return ("EXISTS (SELECT 1 FROM reviews ur " ++
          "WHERE ur.book_uuid = b.uuid AND ur.user_id = ? AND ur.half_stars " ++ cmp ++ " ?)",
          [.int ownerId, .int halfStars])
    | .year => do
        let cmp ← comparison rule
        let id ← parseId debug v
        return ("CAST(substr(b.pubdate, 1, 4) AS INTEGER) " ++ cmp ++ " ?", [.int id])
    | .dateAdded | .dateUpdated => dateCondition debug rule v
    | .status => statusCondition debug ownerId v
  else .error (unsupported rule)

def MatchMode.joiner : MatchMode → String
  | any => " OR "
  | all => " AND "

def membershipPredicate (rules : List ShelfRule) (matchMode : MatchMode) :
    Translation Predicate :=
  if rules.isEmpty then .ok ⟨"0", []⟩
  else do
    let conditions ← rules.mapM (conditionSql debug ownerId)
    return ⟨"(" ++ matchMode.joiner.intercalate (conditions.map Prod.fst) ++ ")",
      conditions.flatMap Prod.snd⟩

end Conditions

end Omnibus.Shelves
