import Omnibus.Library.Strings

/-!
# Queries of a full-text index

How SQLite's FTS5 reads a query: the tokens of the text up to its end or a NUL, where a quoted
string ends at a quote that is not doubled, and the conjunctions of phrases kept to some columns.
-/

namespace Omnibus.Library.Fts

open Omnibus.Library.Strings

/-- A bareword that is no keyword is a string as a quoted one is. -/
inductive Token where
  | sign (symbol : Char)
  | string (text : Text)
  | conjunction
  | disjunction
  | negation
  deriving DecidableEq

/-- Where the reader stands: between tokens, in a bareword, in a quoted string, or behind a quote
in one, which closes it unless another follows. -/
inductive Mode where
  | between
  | bareword (letters : Text)
  | quoted (letters : Text)
  | quote (letters : Text)
  deriving DecidableEq

def isSpace (symbol : Char) : Bool := symbol ∈ [' ', '\t', '\n', '\r']

def isSign (symbol : Char) : Bool :=
  symbol ∈ ['(', ')', '\x7b', '\x7d', ':', ',', '+', '*', '-', '^']

def isBareword (symbol : Char) : Bool :=
  symbol.isAlphanum || symbol = '_' || symbol = '\x1a' || 128 ≤ symbol.toNat

def wordToken (letters : Text) : Token :=
  if letters = "AND".toList then .conjunction
  else if letters = "OR".toList then .disjunction
  else if letters = "NOT".toList then .negation
  else .string letters

/-- A symbol between two tokens. -/
def beginToken (symbol : Char) : Option (List Token × Mode) :=
  if isSpace symbol then some ([], .between)
  else if isSign symbol then some ([.sign symbol], .between)
  else if symbol = '"' then some ([], .quoted [])
  else if isBareword symbol then some ([], .bareword [symbol])
  else none

def ahead (token : Token) (next : Option (List Token × Mode)) : Option (List Token × Mode) :=
  next.map fun (tokens, mode) => (token :: tokens, mode)

def Mode.step (symbol : Char) : Mode → Option (List Token × Mode)
  | .between => beginToken symbol
  | .bareword letters =>
      if isBareword symbol then some ([], .bareword (letters ++ [symbol]))
      else ahead (wordToken letters) (beginToken symbol)
  | .quoted letters =>
      if symbol = '"' then some ([], .quote letters) else some ([], .quoted (letters ++ [symbol]))
  | .quote letters =>
      if symbol = '"' then some ([], .quoted (letters ++ [symbol]))
      else ahead (.string letters) (beginToken symbol)

/-- The text ends here. A string that is still open is an error. -/
def Mode.finish : Mode → Option (List Token)
  | .between => some []
  | .bareword letters => some [wordToken letters]
  | .quoted _ => none
  | .quote letters => some [.string letters]

def lex (mode : Mode) : Text → Option (List Token)
  | [] => mode.finish
  | symbol :: rest =>
      if symbol = '\x00' then mode.finish
      else
        match mode.step symbol with
        | none => none
        | some (tokens, next) => (lex next rest).map (tokens ++ ·)

structure Phrase where
  text : Text
  isPrefix : Bool
  deriving DecidableEq

structure Group where
  columns : List Text
  phrases : List Phrase
  deriving DecidableEq

def readColumns : List Token → List Text × List Token
  | .string text :: rest => let (columns, after) := readColumns rest; (text :: columns, after)
  | tokens => ([], tokens)

def readPhrases : List Token → List Phrase × List Token
  | .string text :: .sign '*' :: rest =>
      let (phrases, after) := readPhrases rest
      (⟨text, true⟩ :: phrases, after)
  | .string text :: rest =>
      let (phrases, after) := readPhrases rest
      (⟨text, false⟩ :: phrases, after)
  | tokens => ([], tokens)

def readGroup : List Token → Option (Group × List Token)
  | .sign '\x7b' :: tokens =>
      match readColumns tokens with
      | (columns, .sign '\x7d' :: .sign ':' :: .sign '(' :: rest) =>
          match readPhrases rest with
          | (phrases, .sign ')' :: after) =>
              if columns = [] ∨ phrases = [] then none else some (⟨columns, phrases⟩, after)
          | _ => none
      | _ => none
  | _ => none

/-- Groups joined by `AND`, `fuel` of them at most. -/
def readGroups : Nat → List Token → Option (List Group)
  | 0, _ => none
  | fuel + 1, tokens =>
      match readGroup tokens with
      | some (group, []) => some [group]
      | some (group, .conjunction :: rest) => (readGroups fuel rest).map (group :: ·)
      | _ => none

def readQuery (text : Text) : Option (List Group) :=
  (lex .between text).bind fun tokens => readGroups tokens.length tokens

/-! ## Quoting -/

def doubled (text : Text) : Text :=
  text.flatMap fun symbol => if symbol = '"' then ['"', '"'] else [symbol]

@[simp] theorem doubled_nil : doubled [] = [] := rfl

theorem doubled_cons (symbol : Char) (text : Text) :
    doubled (symbol :: text) = (if symbol = '"' then ['"', '"'] else [symbol]) ++ doubled text :=
  List.flatMap_cons

@[simp] theorem doubled_eq_nil (text : Text) : doubled text = [] ↔ text = [] := by
  cases text with
  | nil => simp
  | cons symbol rest =>
      by_cases quote : symbol = '"' <;> simp [doubled_cons, quote]

def quoted (text : Text) : Text := '"' :: doubled text ++ ['"']

theorem lex_quoted_letters (letters text rest : Text) (clear : '\x00' ∉ text) :
    lex (.quoted letters) (doubled text ++ rest) = lex (.quoted (letters ++ text)) rest := by
  induction text generalizing letters with
  | nil => simp
  | cons symbol text induction =>
      rw [List.mem_cons, not_or] at clear
      have later := induction (letters ++ [symbol]) clear.2
      rw [List.append_assoc, List.singleton_append] at later
      rw [doubled_cons, ← later]
      by_cases quote : symbol = '"'
      · simp [quote, lex, Mode.step]
      · simp [quote, lex, Mode.step, Ne.symm clear.1]

theorem lex_quoted_nul (letters text rest : Text) (member : '\x00' ∈ text) :
    lex (.quoted letters) (doubled text ++ rest) = none := by
  induction text generalizing letters with
  | nil => cases member
  | cons symbol text induction =>
      rw [doubled_cons]
      by_cases nul : symbol = '\x00'
      · simp [nul, lex, Mode.finish]
      · have later := induction (letters ++ [symbol])
          ((List.mem_cons.mp member).resolve_left (Ne.symm nul))
        by_cases quote : symbol = '"'
        · rw [quote] at later
          simp [quote, lex, Mode.step, later]
        · simp [quote, lex, Mode.step, nul, later]

theorem lex_sign (symbol : Char) (rest : Text) (sign : isSign symbol = true)
    (solid : isSpace symbol = false) (visible : symbol ≠ '\x00') :
    lex .between (symbol :: rest) = (lex .between rest).map (.sign symbol :: ·) := by
  simp [lex, Mode.step, beginToken, sign, solid, visible]

theorem lex_space (rest : Text) : lex .between (' ' :: rest) = lex .between rest := by
  simp [lex, Mode.step, beginToken, isSpace]

theorem lex_ahead (mode : Mode) (token : Token) (symbol : Char) (rest : Text)
    (visible : symbol ≠ '\x00') (ends : mode.step symbol = ahead token (beginToken symbol)) :
    lex mode (symbol :: rest) = (lex .between (symbol :: rest)).map (token :: ·) := by
  have starts : Mode.between.step symbol = beginToken symbol := rfl
  simp only [lex, if_neg visible, ends, starts, ahead]
  cases beginToken symbol with
  | none => rfl
  | some next =>
      simp only [Option.map_some]
      cases lex next.2 rest <;> rfl

theorem lex_quote_next (letters : Text) (symbol : Char) (rest : Text) (other : symbol ≠ '"')
    (visible : symbol ≠ '\x00') :
    lex (.quote letters) (symbol :: rest) =
      (lex .between (symbol :: rest)).map (.string letters :: ·) :=
  lex_ahead _ _ symbol rest visible (by simp [Mode.step, other])

/-! ## The text of a query -/

def Phrase.written (phrase : Phrase) : Text :=
  quoted phrase.text ++ if phrase.isPrefix then ['*'] else []

def Phrase.tokens (phrase : Phrase) : List Token :=
  .string phrase.text :: if phrase.isPrefix then [.sign '*'] else []

def Group.written (group : Group) : Text :=
  '\x7b' :: List.intercalate [' '] group.columns ++ "\x7d : (".toList ++
    List.intercalate [' '] (group.phrases.map Phrase.written) ++ [')']

def Group.tokens (group : Group) : List Token :=
  .sign '\x7b' :: group.columns.map .string ++ [.sign '\x7d', .sign ':', .sign '('] ++
    group.phrases.flatMap Phrase.tokens ++ [.sign ')']

theorem lex_phrase (phrase : Phrase) (symbol : Char) (rest : Text) (clear : '\x00' ∉ phrase.text)
    (other : symbol ≠ '"') (visible : symbol ≠ '\x00') :
    lex .between (phrase.written ++ symbol :: rest) =
      (lex .between (symbol :: rest)).map (phrase.tokens ++ ·) := by
  have opened (after : Text) :
      lex .between (quoted phrase.text ++ after) = lex (.quote phrase.text) after := by
    have letters := lex_quoted_letters [] phrase.text ('"' :: after) clear
    have closed : lex (.quoted phrase.text) ('"' :: after) = lex (.quote phrase.text) after := by
      simp [lex, Mode.step]
    rw [List.nil_append, closed] at letters
    rw [← letters]
    simp [quoted, lex, Mode.step, beginToken, isSpace, isSign]
  rw [Phrase.written, Phrase.tokens, List.append_assoc, opened]
  cases phrase.isPrefix with
  | false => exact lex_quote_next _ _ _ other visible
  | true =>
      have star := lex_quote_next phrase.text '*' (symbol :: rest) (by decide) (by decide)
      have sign := lex_sign '*' (symbol :: rest) (by decide) (by decide) (by decide)
      rw [if_pos rfl, if_pos rfl, List.singleton_append, star, sign, Option.map_map]
      rfl

theorem lex_phrase_nul (phrase : Phrase) (rest : Text) (member : '\x00' ∈ phrase.text) :
    lex .between (phrase.written ++ rest) = none := by
  have letters (after : Text) := lex_quoted_nul [] phrase.text after member
  simp [Phrase.written, quoted, lex, Mode.step, beginToken, isSpace, isSign, letters]

theorem lex_phrases (phrases : List Phrase) (rest : Text) (some' : phrases ≠ [])
    (clear : ∀ phrase ∈ phrases, '\x00' ∉ phrase.text) :
    lex .between (List.intercalate [' '] (phrases.map Phrase.written) ++ ')' :: rest) =
      (lex .between (')' :: rest)).map (phrases.flatMap Phrase.tokens ++ ·) := by
  induction phrases with
  | nil => exact absurd rfl some'
  | cons phrase later induction =>
      have first := clear phrase List.mem_cons_self
      cases later with
      | nil => simpa using lex_phrase phrase ')' rest first (by decide) (by decide)
      | cons next later =>
          have behind := induction (by simp) fun other member =>
            clear other (List.mem_cons_of_mem _ member)
          rw [List.map_cons, List.map_cons, List.intercalate_cons_cons, List.append_assoc,
            List.append_assoc, List.singleton_append,
            lex_phrase phrase ' ' _ first (by decide) (by decide), lex_space,
            ← List.map_cons, behind, Option.map_map]
          congr 1
          funext tokens
          simp

theorem lex_phrases_nul (phrases : List Phrase) (rest : Text)
    (nul : ∃ phrase ∈ phrases, '\x00' ∈ phrase.text) :
    lex .between (List.intercalate [' '] (phrases.map Phrase.written) ++ ')' :: rest) = none := by
  induction phrases with
  | nil => simp at nul
  | cons phrase later induction =>
      by_cases here : '\x00' ∈ phrase.text
      · cases later with
        | nil => simpa using lex_phrase_nul phrase (')' :: rest) here
        | cons next later =>
            rw [List.map_cons, List.map_cons, List.intercalate_cons_cons, List.append_assoc,
              List.append_assoc]
            exact lex_phrase_nul phrase _ here
      · have behind := induction (by simpa [here] using nul)
        cases later with
        | nil => simp [here] at nul
        | cons next later =>
            rw [List.map_cons, List.map_cons, List.intercalate_cons_cons, List.append_assoc,
              List.append_assoc, List.singleton_append,
              lex_phrase phrase ' ' _ here (by decide) (by decide), lex_space]
            rw [List.map_cons] at behind
            rw [behind]
            rfl

/-- A name that is read as a string without quotes. -/
structure Plain (name : Text) : Prop where
  nonempty : name ≠ []
  letters : ∀ symbol ∈ name, isBareword symbol = true ∧ symbol ≠ '\x00'
  noKeyword : wordToken name = .string name

theorem bareword_letters (name : Text)
    (all : name.all (fun letter => isBareword letter && letter != '\x00') = true) :
    ∀ letter ∈ name, isBareword letter = true ∧ letter ≠ '\x00' := by
  simpa using all

theorem lex_bareword (letters name rest : Text) (symbol : Char)
    (word : ∀ letter ∈ name, isBareword letter = true ∧ letter ≠ '\x00')
    (other : isBareword symbol = false) (visible : symbol ≠ '\x00') :
    lex (.bareword letters) (name ++ symbol :: rest) =
      (lex .between (symbol :: rest)).map (wordToken (letters ++ name) :: ·) := by
  induction name generalizing letters with
  | nil =>
      rw [List.nil_append, List.append_nil]
      exact lex_ahead _ _ symbol rest visible (by simp [Mode.step, other])
  | cons letter name induction =>
      obtain ⟨bare, solid⟩ := word letter List.mem_cons_self
      have later := induction (letters ++ [letter]) fun letter member =>
        word letter (List.mem_cons_of_mem _ member)
      rw [List.append_assoc, List.singleton_append] at later
      rw [List.cons_append, ← later]
      simp [lex, solid, Mode.step, bare]

theorem bareword_solid (symbol : Char) (bare : isBareword symbol = true) :
    beginToken symbol = some ([], .bareword [symbol]) := by
  have apart (symbols : List Char) (none' : symbols.all (fun other => !isBareword other) = true) :
      symbol ∉ symbols := by
    intro member
    have other := List.all_eq_true.mp none' symbol member
    simp [bare] at other
  have space : isSpace symbol = false := decide_eq_false (apart _ (by decide))
  have sign : isSign symbol = false := decide_eq_false (apart _ (by decide))
  have quote : symbol ≠ '"' := fun same => apart ['"'] (by decide) (List.mem_singleton.mpr same)
  simp [beginToken, space, sign, quote, bare]

theorem lex_word (name rest : Text) (symbol : Char) (nonempty : name ≠ [])
    (word : ∀ letter ∈ name, isBareword letter = true ∧ letter ≠ '\x00')
    (other : isBareword symbol = false) (visible : symbol ≠ '\x00') :
    lex .between (name ++ symbol :: rest) =
      (lex .between (symbol :: rest)).map (wordToken name :: ·) := by
  obtain ⟨first, tail, rfl⟩ := List.exists_cons_of_ne_nil nonempty
  obtain ⟨bare, solid⟩ := word first List.mem_cons_self
  have letters := lex_bareword [first] tail rest symbol
    (fun letter member => word letter (List.mem_cons_of_mem _ member)) other visible
  rw [List.singleton_append] at letters
  rw [← letters]
  simp [lex, solid, Mode.step, bareword_solid first bare]

theorem lex_name (name rest : Text) (symbol : Char) (plain : Plain name)
    (other : isBareword symbol = false) (visible : symbol ≠ '\x00') :
    lex .between (name ++ symbol :: rest) =
      (lex .between (symbol :: rest)).map (.string name :: ·) := by
  rw [lex_word name rest symbol plain.nonempty plain.letters other visible, plain.noKeyword]

theorem lex_columns (columns : List Text) (rest : Text) (plain : ∀ name ∈ columns, Plain name) :
    lex .between (List.intercalate [' '] columns ++ '\x7d' :: rest) =
      (lex .between ('\x7d' :: rest)).map (columns.map Token.string ++ ·) := by
  induction columns with
  | nil => simp
  | cons name later induction =>
      have first := plain name List.mem_cons_self
      cases later with
      | nil => simpa using lex_name name rest '\x7d' first (by decide) (by decide)
      | cons next later =>
          have behind := induction fun other member => plain other (List.mem_cons_of_mem _ member)
          rw [List.intercalate_cons_cons, List.append_assoc, List.append_assoc,
            List.singleton_append, lex_name name _ ' ' first (by decide) (by decide), lex_space,
            behind, Option.map_map]
          rfl

/-- Columns that are read as written, and a phrase to look for. -/
structure Group.Sound (group : Group) : Prop where
  plain : ∀ name ∈ group.columns, Plain name
  columns : group.columns ≠ []
  phrases : group.phrases ≠ []

def Group.Clear (group : Group) : Prop := ∀ phrase ∈ group.phrases, '\x00' ∉ phrase.text

theorem lex_group_columns (group : Group) (rest : Text) (sound : group.Sound) :
    lex .between (group.written ++ rest) =
      (lex .between
          (List.intercalate [' '] (group.phrases.map Phrase.written) ++ ')' :: rest)).map
        (.sign '\x7b' :: group.columns.map .string ++
          [.sign '\x7d', .sign ':', .sign '('] ++ ·) := by
  have columns (after : Text) := lex_columns group.columns after sound.plain
  have signs (after : Text) :
      lex .between ("\x7d : (".toList ++ after) =
        (lex .between after).map ([.sign '\x7d', .sign ':', .sign '('] ++ ·) := by
    change lex .between ('\x7d' :: ' ' :: ':' :: ' ' :: '(' :: after) = _
    rw [lex_sign '\x7d' _ (by decide) (by decide) (by decide), lex_space,
      lex_sign ':' _ (by decide) (by decide) (by decide), lex_space,
      lex_sign '(' _ (by decide) (by decide) (by decide), Option.map_map, Option.map_map]
    rfl
  have whole : group.written ++ rest =
      '\x7b' :: (List.intercalate [' '] group.columns ++ ("\x7d : (".toList ++
        (List.intercalate [' '] (group.phrases.map Phrase.written) ++ ')' :: rest))) := by
    simp [Group.written]
  have braced (after : Text) :
      "\x7d : (".toList ++ after = '\x7d' :: (" : (".toList ++ after) := rfl
  rw [whole, lex_sign '\x7b' _ (by decide) (by decide) (by decide), braced, columns, ← braced,
    signs, Option.map_map, Option.map_map]
  congr 1
  funext tokens
  simp

theorem lex_group (group : Group) (rest : Text) (sound : group.Sound) (clear : group.Clear) :
    lex .between (group.written ++ rest) = (lex .between rest).map (group.tokens ++ ·) := by
  rw [lex_group_columns group rest sound, lex_phrases _ _ sound.phrases clear,
    lex_sign ')' rest (by decide) (by decide) (by decide), Option.map_map, Option.map_map]
  congr 1
  funext tokens
  simp [Group.tokens]

theorem lex_group_nul (group : Group) (rest : Text) (sound : group.Sound)
    (nul : ¬group.Clear) : lex .between (group.written ++ rest) = none := by
  have phrases : ∃ phrase ∈ group.phrases, '\x00' ∈ phrase.text := by
    simpa [Group.Clear] using nul
  rw [lex_group_columns group rest sound, lex_phrases_nul _ _ phrases]
  rfl

def conjoined (groups : List Group) : Text :=
  List.intercalate " AND ".toList (groups.map Group.written)

theorem conjoined_cons (group next : Group) (later : List Group) :
    conjoined (group :: next :: later) =
      group.written ++ (" AND ".toList ++ conjoined (next :: later)) := by
  rw [conjoined, List.map_cons, List.map_cons, List.intercalate_cons_cons, List.append_assoc,
    conjoined, List.map_cons]

theorem lex_conjunction (rest : Text) :
    lex .between (" AND ".toList ++ rest) = (lex .between rest).map (.conjunction :: ·) := by
  have word := lex_word "AND".toList rest ' ' (by decide)
    (bareword_letters _ (by decide)) (by decide) (by decide)
  change lex .between (' ' :: ("AND".toList ++ ' ' :: rest)) = _
  rw [lex_space, word, lex_space]
  rfl

theorem lex_conjoined (groups : List Group) (sound : ∀ group ∈ groups, group.Sound)
    (clear : ∀ group ∈ groups, group.Clear) :
    lex .between (conjoined groups) =
      some (List.intercalate [.conjunction] (groups.map Group.tokens)) := by
  induction groups with
  | nil => rfl
  | cons group later induction =>
      have behind := induction (fun other member => sound other (List.mem_cons_of_mem _ member))
        fun other member => clear other (List.mem_cons_of_mem _ member)
      have first (rest : Text) := lex_group group rest (sound group List.mem_cons_self)
        (clear group List.mem_cons_self)
      cases later with
      | nil => simpa [conjoined, lex, Mode.finish] using first []
      | cons next later =>
          rw [conjoined_cons, first, lex_conjunction, behind]
          simp only [List.map_cons, List.intercalate_cons_cons, Option.map_some]
          simp

theorem lex_conjoined_nul (groups : List Group) (sound : ∀ group ∈ groups, group.Sound)
    (nul : ∃ group ∈ groups, ¬group.Clear) : lex .between (conjoined groups) = none := by
  induction groups with
  | nil => simp at nul
  | cons group later induction =>
      have first := sound group List.mem_cons_self
      by_cases clear : group.Clear
      · have behind := induction (fun other member => sound other (List.mem_cons_of_mem _ member))
          (by simpa [clear] using nul)
        cases later with
        | nil => simp [clear] at nul
        | cons next later =>
            rw [conjoined_cons, lex_group group _ first clear, lex_conjunction, behind]
            rfl
      · cases later with
        | nil => simpa [conjoined] using lex_group_nul group [] first clear
        | cons next later =>
            rw [conjoined_cons]
            exact lex_group_nul group _ first clear

theorem read_columns (columns : List Text) (rest : List Token)
    (ends : ∀ text after, rest ≠ .string text :: after) :
    readColumns (columns.map .string ++ rest) = (columns, rest) := by
  induction columns with
  | nil =>
      cases rest with
      | nil => rfl
      | cons token after =>
          cases token with
          | string text => exact absurd rfl (ends text after)
          | _ => rfl
  | cons name later induction => simp [readColumns, induction]

theorem read_phrases (phrases : List Phrase) (rest : List Token) :
    readPhrases (phrases.flatMap Phrase.tokens ++ .sign ')' :: rest) =
      (phrases, .sign ')' :: rest) := by
  induction phrases with
  | nil => rfl
  | cons phrase later induction =>
      obtain ⟨text, isPrefix⟩ := phrase
      cases isPrefix with
      | true => simp [Phrase.tokens, readPhrases, induction]
      | false =>
          have plain (tokens : List Token) (ends : ∀ after, tokens ≠ .sign '*' :: after) :
              readPhrases (.string text :: tokens) =
                (⟨text, false⟩ :: (readPhrases tokens).1, (readPhrases tokens).2) := by
            rw [readPhrases]
            exact ends
          rw [List.flatMap_cons, List.append_assoc]
          refine (plain _ fun after same => ?_).trans (by simp [induction])
          cases later <;> simp [Phrase.tokens] at same

theorem read_group (group : Group) (rest : List Token) (sound : group.Sound) :
    readGroup (group.tokens ++ rest) = some (group, rest) := by
  have columns (after : List Token) :=
    read_columns group.columns (.sign '\x7d' :: after) (by simp)
  have phrases := read_phrases group.phrases rest
  simp [Group.tokens, readGroup, columns, phrases, sound.columns, sound.phrases]

theorem read_groups (groups : List Group) (fuel : Nat) (enough : groups.length ≤ fuel)
    (some' : groups ≠ []) (sound : ∀ group ∈ groups, group.Sound) :
    readGroups fuel (List.intercalate [.conjunction] (groups.map Group.tokens)) = some groups := by
  induction groups generalizing fuel with
  | nil => exact absurd rfl some'
  | cons group later induction =>
      obtain ⟨fuel, rfl⟩ : ∃ less, fuel = less + 1 := ⟨fuel - 1, by simp at enough; omega⟩
      have first (rest : List Token) := read_group group rest (sound group List.mem_cons_self)
      cases later with
      | nil =>
          have alone := first []
          rw [List.append_nil] at alone
          simp [readGroups, alone]
      | cons next later =>
          have behind := induction fuel (by simpa using enough) (by simp)
            fun other member => sound other (List.mem_cons_of_mem _ member)
          rw [List.map_cons, List.map_cons, List.intercalate_cons_cons, List.append_assoc,
            readGroups, first]
          simpa using behind

theorem groups_bound (groups : List Group) :
    groups.length ≤ (List.intercalate [Token.conjunction] (groups.map Group.tokens)).length := by
  induction groups with
  | nil => simp
  | cons group later induction =>
      cases later with
      | nil => simp [Group.tokens]
      | cons next later =>
          rw [List.map_cons, List.map_cons, List.intercalate_cons_cons]
          simp only [List.map_cons, List.length_cons, List.length_append] at induction ⊢
          omega

/-- A conjunction of groups is read back as it was written when no phrase holds a NUL, and is an
error otherwise. -/
theorem read_conjoined (groups : List Group) (some' : groups ≠ [])
    (sound : ∀ group ∈ groups, group.Sound) :
    readQuery (conjoined groups) = some groups ↔ ∀ group ∈ groups, group.Clear := by
  constructor
  · intro read
    by_contra nul
    rw [readQuery, lex_conjoined_nul groups sound (by simpa using nul)] at read
    cases read
  · intro clear
    rw [readQuery, lex_conjoined groups sound clear, Option.bind_some]
    exact read_groups groups _ (groups_bound groups) some' sound

end Omnibus.Library.Fts
