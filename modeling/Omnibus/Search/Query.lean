import Omnibus.Library.Fts

/-!
# The search query

How a reader's query is split into tokens and facets, and the full-text expression that is built
of them. The expression is read as the tokens it was built of, unless one of them holds a NUL.
-/

namespace Omnibus.Search

open Omnibus.Library.Strings Omnibus.Library.Fts

/-- A token, and whether it was written inside quotes. -/
structure QueryToken where
  text : Text
  quoted : Bool
  deriving DecidableEq

structure Splitting where
  out : List QueryToken
  current : Text
  started : Bool
  quoted : Bool
  inQuotes : Bool

def Splitting.cut (state : Splitting) : Splitting :=
  if state.started then
    { state with
      out := state.out ++ [⟨state.current, state.quoted⟩], current := [], started := false
      quoted := false }
  else state

def Splitting.toggle (state : Splitting) : Splitting :=
  { state with inQuotes := !state.inQuotes, started := true, quoted := true }

def splitFrom : Splitting → Text → List QueryToken
  | state, [] =>
      if state.started then state.out ++ [⟨state.current, state.quoted⟩] else state.out
  | state, symbol :: rest =>
      if symbol = '"' then
        match rest with
        | [] => splitFrom state.toggle []
        | next :: after =>
            -- Inside quotes two of them are one literal quote.
            if state.inQuotes ∧ next = '"' then
              splitFrom { state with current := state.current ++ ['"'] } after
            else splitFrom state.toggle (next :: after)
      else if isWhitespace symbol && !state.inQuotes then splitFrom state.cut rest
      else splitFrom { state with current := state.current ++ [symbol], started := true } rest

def splitQueryTokens (raw : Text) : List QueryToken :=
  splitFrom ⟨[], [], false, false, false⟩ raw

structure SearchQuery where
  ftsMatch : Option Text
  tagFacets : List Text
  genreFacets : List Text
  deriving DecidableEq

structure Sorted where
  author : List QueryToken
  series : List QueryToken
  free : List QueryToken
  tagFacets : List Text
  genreFacets : List Text

inductive Facet where
  | author
  | series
  | tag
  | genre
  deriving DecidableEq

/-- The facet of a prefix, whatever the case of its ASCII letters. -/
def facetNamed (facet : Text) : Option Facet :=
  let lower := facet.map Char.toLower
  if lower = "author".toList then some .author
  else if lower = "series".toList then some .series
  else if lower = "tag".toList then some .tag
  else if lower = "genre".toList then some .genre
  else none

def Sorted.add (sorted : Sorted) (token : QueryToken) : Sorted :=
  let freely := { sorted with free := sorted.free ++ [token] }
  match splitOnce ':' token.text with
  | none => freely
  | some (facet, value) =>
      match facetNamed facet with
      | none => freely
      | some facet =>
          if value = [] then sorted
          else
            match facet with
            | .author => { sorted with author := sorted.author ++ [⟨value, token.quoted⟩] }
            | .series => { sorted with series := sorted.series ++ [⟨value, token.quoted⟩] }
            | .tag => { sorted with tagFacets := sorted.tagFacets ++ [value] }
            | .genre => { sorted with genreFacets := sorted.genreFacets ++ [value] }

def quoteTokens (tokens : List Text) (prefixLast : Bool) : Option Text :=
  let parts := ((tokens.map doubled).filter (· ≠ [])).map fun escaped => '"' :: escaped ++ ['"']
  if parts = [] then none
  else
    let parts := if prefixLast then parts.modify (parts.length - 1) (· ++ ['*']) else parts
    some (List.intercalate [' '] parts)

def sanitizeQueryTokens (tokens : List QueryToken) : Option Text :=
  let prefixLast := !(tokens.getLast?.any (·.quoted))
  quoteTokens (tokens.map (·.text)) prefixLast

def clause (columns : Text) (tokens : List QueryToken) : List Text :=
  match sanitizeQueryTokens tokens with
  | some inner => ['\x7b' :: columns ++ "\x7d : (".toList ++ inner ++ [')']]
  | none => []

def buildSearchQuery (raw : Text) : SearchQuery :=
  let sorted := (splitQueryTokens raw).foldl Sorted.add ⟨[], [], [], [], []⟩
  let clauses := clause "authors".toList sorted.author ++ clause "series".toList sorted.series ++
    clause "title authors series".toList sorted.free
  ⟨if clauses = [] then none else some (List.intercalate " AND ".toList clauses),
    sorted.tagFacets, sorted.genreFacets⟩

/-! ## What the query asks for -/

def valueOf (facet : Facet) (token : QueryToken) : Option QueryToken :=
  match splitOnce ':' token.text with
  | some (name, value) =>
      if facetNamed name = some facet ∧ value ≠ [] then some ⟨value, token.quoted⟩ else none
  | none => none

def isFree (token : QueryToken) : Bool :=
  match splitOnce ':' token.text with
  | some (name, _) => facetNamed name = none
  | none => true

def authorTokens (raw : Text) : List QueryToken :=
  (splitQueryTokens raw).filterMap (valueOf .author)

def seriesTokens (raw : Text) : List QueryToken :=
  (splitQueryTokens raw).filterMap (valueOf .series)

def freeTokens (raw : Text) : List QueryToken := (splitQueryTokens raw).filter isFree

/-- The last phrase may be starred. -/
def starLast (star : Bool) : List Text → List Phrase
  | [] => []
  | [text] => [⟨text, star⟩]
  | text :: next :: rest => ⟨text, false⟩ :: starLast star (next :: rest)

def nonEmptyTexts (tokens : List QueryToken) : List Text :=
  (tokens.map (·.text)).filter (· ≠ [])

/-- The tokens that are not empty, the last one starred where the last token was not quoted. -/
def phrases (tokens : List QueryToken) : List Phrase :=
  starLast (!(tokens.getLast?.any (·.quoted))) (nonEmptyTexts tokens)

def grouped (columns : List Text) (tokens : List QueryToken) : List Group :=
  if phrases tokens = [] then [] else [⟨columns, phrases tokens⟩]

/-- The authors, the series and the free text that the query names. -/
def groups (raw : Text) : List Group :=
  grouped ["authors".toList] (authorTokens raw) ++ grouped ["series".toList] (seriesTokens raw) ++
    grouped ["title".toList, "authors".toList, "series".toList] (freeTokens raw)

theorem sorted_add (sorted : Sorted) (token : QueryToken) :
    sorted.add token =
      { author := sorted.author ++ (valueOf .author token).toList
        series := sorted.series ++ (valueOf .series token).toList
        free := sorted.free ++ [token].filter isFree
        tagFacets := sorted.tagFacets ++ (valueOf .tag token).toList.map (·.text)
        genreFacets :=
          sorted.genreFacets ++ (valueOf .genre token).toList.map (·.text) } := by
  cases parts : splitOnce ':' token.text with
  | none => simp [Sorted.add, valueOf, isFree, parts]
  | some halves =>
      obtain ⟨name, value⟩ := halves
      cases named : facetNamed name with
      | none => simp [Sorted.add, valueOf, isFree, parts, named]
      | some facet =>
          by_cases empty : value = []
          · simp [Sorted.add, valueOf, isFree, parts, named, empty]
          · cases facet <;> simp [Sorted.add, valueOf, isFree, parts, named, empty]

theorem sorted_all (tokens : List QueryToken) (sorted : Sorted) :
    tokens.foldl Sorted.add sorted =
      { author := sorted.author ++ tokens.filterMap (valueOf .author)
        series := sorted.series ++ tokens.filterMap (valueOf .series)
        free := sorted.free ++ tokens.filter isFree
        tagFacets :=
          sorted.tagFacets ++ (tokens.filterMap (valueOf .tag)).map (·.text)
        genreFacets :=
          sorted.genreFacets ++ (tokens.filterMap (valueOf .genre)).map (·.text) } := by
  induction tokens generalizing sorted with
  | nil => simp
  | cons token rest induction =>
      have values (facet : Facet) : (token :: rest).filterMap (valueOf facet) =
          (valueOf facet token).toList ++ rest.filterMap (valueOf facet) := by
        cases value : valueOf facet token <;> simp [value]
      have free : (token :: rest).filter isFree = [token].filter isFree ++ rest.filter isFree := by
        rw [← List.filter_append, List.singleton_append]
      rw [List.foldl_cons, induction, sorted_add, free]
      simp only [values, List.append_assoc, List.map_append]

theorem star_last_texts (star : Bool) (texts : List Text) :
    (starLast star texts).map (·.text) = texts := by
  fun_induction starLast star texts with
  | case1 | case2 => rfl
  | case3 text next rest induction => rw [List.map_cons, induction]

theorem star_last_written (texts : List Text) :
    (starLast false texts).map Phrase.written = texts.map quoted := by
  fun_induction starLast false texts with
  | case1 => rfl
  | case2 => simp [Phrase.written]
  | case3 text next rest induction =>
      rw [List.map_cons, induction, List.map_cons]
      simp [Phrase.written]

theorem star_last_starred (texts : List Text) :
    (starLast true texts).map Phrase.written =
      (texts.map quoted).modify (texts.length - 1) (· ++ ['*']) := by
  fun_induction starLast true texts with
  | case1 => rfl
  | case2 => simp [Phrase.written]
  | case3 text next rest induction =>
      rw [List.map_cons, induction]
      simp [Phrase.written]

theorem quote_tokens_written (tokens : List Text) (prefixLast : Bool) :
    quoteTokens tokens prefixLast =
      if tokens.filter (· ≠ []) = [] then none
      else some (List.intercalate [' ']
        ((starLast prefixLast (tokens.filter (· ≠ []))).map Phrase.written)) := by
  have parts : ((tokens.map doubled).filter (· ≠ [])).map (fun escaped => '"' :: escaped ++ ['"']) =
      (tokens.filter (· ≠ [])).map quoted := by
    rw [List.filter_map, List.map_map]
    simp [Function.comp_def, quoted]
  rw [quoteTokens, parts]
  simp only [List.map_eq_nil_iff, List.length_map]
  cases prefixLast with
  | false => rw [star_last_written]; rfl
  | true => rw [star_last_starred]; rfl

theorem clause_written (columns : List Text) (tokens : List QueryToken) :
    clause (List.intercalate [' '] columns) tokens =
      (grouped columns tokens).map Group.written := by
  have texts : phrases tokens = [] ↔ (tokens.map (·.text)).filter (· ≠ []) = [] := by
    rw [← @List.map_eq_nil_iff _ _ Phrase.text, phrases, star_last_texts, nonEmptyTexts]
  rw [clause, sanitizeQueryTokens, quote_tokens_written, grouped]
  by_cases none' : phrases tokens = []
  · rw [if_pos (texts.mp none'), if_pos none']
    rfl
  · rw [if_neg fun empty => none' (texts.mpr empty), if_neg none']
    simp [Group.written, phrases, nonEmptyTexts]

theorem fts_match_written (raw : Text) :
    (buildSearchQuery raw).ftsMatch =
      if groups raw = [] then none else some (conjoined (groups raw)) := by
  have authors := clause_written ["authors".toList] (authorTokens raw)
  have series := clause_written ["series".toList] (seriesTokens raw)
  have free := clause_written ["title".toList, "authors".toList, "series".toList] (freeTokens raw)
  have joined : List.intercalate [' '] ["title".toList, "authors".toList, "series".toList] =
      "title authors series".toList := by decide
  rw [List.intercalate_singleton] at authors series
  rw [joined] at free
  simp only [buildSearchQuery, sorted_all, List.nil_append]
  simp only [authorTokens, seriesTokens, freeTokens] at authors series free
  rw [authors, series, free, ← List.map_append, ← List.map_append]
  simp only [List.map_eq_nil_iff]
  rfl

/-! ## How it is read -/

/-- The expression is read as the groups that the query asks for. -/
def ReadsBack (raw : Text) : Prop :=
  match (buildSearchQuery raw).ftsMatch with
  | none => groups raw = []
  | some text => readQuery text = some (groups raw)

def tagQuery (name : Text) : Text := "tag:\"".toList ++ doubled name ++ ['"']

theorem mem_grouped (columns : List Text) (tokens : List QueryToken) (group : Group)
    (member : group ∈ grouped columns tokens) :
    group = ⟨columns, phrases tokens⟩ ∧ phrases tokens ≠ [] := by
  rw [grouped] at member
  split at member
  · cases member
  next asked => exact ⟨List.mem_singleton.mp member, asked⟩

theorem grouped_sound (columns : List Text) (tokens : List QueryToken) (some' : columns ≠ [])
    (plain : ∀ name ∈ columns, Plain name) (group : Group)
    (member : group ∈ grouped columns tokens) : group.Sound := by
  obtain ⟨rfl, asked⟩ := mem_grouped columns tokens group member
  exact ⟨plain, some', asked⟩

theorem groups_sound (raw : Text) (group : Group) (member : group ∈ groups raw) : group.Sound := by
  have title : Plain "title".toList :=
    ⟨by decide, bareword_letters _ (by decide), by decide⟩
  have authors : Plain "authors".toList :=
    ⟨by decide, bareword_letters _ (by decide), by decide⟩
  have series : Plain "series".toList :=
    ⟨by decide, bareword_letters _ (by decide), by decide⟩
  simp only [groups, List.mem_append] at member
  obtain (member | member) | member := member
  · exact grouped_sound _ _ (by simp) (by simpa using authors) group member
  · exact grouped_sound _ _ (by simp) (by simpa using series) group member
  · exact grouped_sound _ _ (by simp) (by simpa using ⟨title, authors, series⟩) group member

theorem grouped_clear (columns : List Text) (tokens : List QueryToken) :
    (∀ group ∈ grouped columns tokens, group.Clear) ↔ ∀ token ∈ tokens, '\x00' ∉ token.text := by
  have texts : (∀ phrase ∈ phrases tokens, '\x00' ∉ phrase.text) ↔
      ∀ token ∈ tokens, '\x00' ∉ token.text := by
    have written : (phrases tokens).map (·.text) = (tokens.map (·.text)).filter (· ≠ []) :=
      star_last_texts _ _
    rw [← @List.forall_mem_map _ _ Phrase.text (phrases tokens) ('\x00' ∉ ·), written]
    constructor
    · intro clear token member nul
      exact clear token.text (List.mem_filter.mpr
        ⟨List.mem_map_of_mem member, decide_eq_true (List.ne_nil_of_mem nul)⟩) nul
    · intro clear text member
      obtain ⟨token, there, rfl⟩ := List.mem_map.mp (List.mem_of_mem_filter member)
      exact clear token there
  rw [grouped]
  split
  next none' => simpa [none'] using texts
  · simpa [Group.Clear] using texts

theorem groups_clear (raw : Text) :
    (∀ group ∈ groups raw, group.Clear) ↔
      ∀ token ∈ authorTokens raw ++ seriesTokens raw ++ freeTokens raw, '\x00' ∉ token.text := by
  simp only [groups, List.forall_mem_append, grouped_clear]

/-- The phrases are the tokens in order, and only a last one is starred, where the last token of
its group was not quoted. -/
structure Asked (raw : Text) (groups : List Group) : Prop where
  texts : groups.flatMap (fun group => group.phrases.map (·.text)) =
    nonEmptyTexts (authorTokens raw ++ seriesTokens raw ++ freeTokens raw)
  each : ∀ group ∈ groups, ∃ tokens ∈ [authorTokens raw, seriesTokens raw, freeTokens raw],
    group.phrases.map (·.text) = nonEmptyTexts tokens ∧
      ∀ before phrase after, group.phrases = before ++ phrase :: after → phrase.isPrefix = true →
        after = [] ∧ ∃ token, tokens.getLast? = some token ∧ token.quoted = false

theorem star_last_starred_last (star : Bool) (texts : List Text) (before after : List Phrase)
    (phrase : Phrase) (parts : starLast star texts = before ++ phrase :: after)
    (starred : phrase.isPrefix = true) : after = [] ∧ star = true := by
  fun_induction starLast star texts generalizing before with
  | case1 => simp at parts
  | case2 text =>
      obtain ⟨rfl, same⟩ := List.singleton_eq_append_iff.mp parts |>.resolve_right (by simp)
      obtain ⟨rfl, rfl⟩ := List.cons.inj same
      exact ⟨rfl, starred⟩
  | case3 text next rest induction =>
      cases before with
      | nil =>
          obtain ⟨rfl, -⟩ := List.cons.inj parts
          cases starred
      | cons first before => exact induction before (List.cons.inj parts).2

theorem grouped_texts (columns : List Text) (tokens : List QueryToken) :
    (grouped columns tokens).flatMap (fun group => group.phrases.map (·.text)) =
      nonEmptyTexts tokens := by
  have texts : (phrases tokens).map (·.text) = nonEmptyTexts tokens := star_last_texts _ _
  rw [grouped]
  split
  next none' => rw [← texts, none']; rfl
  · simpa using texts

theorem groups_asked (raw : Text) : Asked raw (groups raw) := by
  constructor
  · simp only [groups, List.flatMap_append, grouped_texts, nonEmptyTexts, List.map_append,
      List.filter_append]
  · intro group member
    have same : ∃ columns, ∃ tokens ∈ [authorTokens raw, seriesTokens raw, freeTokens raw],
        group ∈ grouped columns tokens := by
      simp only [groups, List.mem_append] at member
      obtain (member | member) | member := member
      · exact ⟨_, _, by simp, member⟩
      · exact ⟨_, _, by simp, member⟩
      · exact ⟨_, _, by simp, member⟩
    obtain ⟨columns, tokens, listed, there⟩ := same
    obtain ⟨rfl, asked⟩ := mem_grouped columns tokens group there
    refine ⟨tokens, listed, ?_, ?_⟩
    · exact star_last_texts _ _
    · intro before phrase after parts starred
      obtain ⟨last, unquoted⟩ := star_last_starred_last _ _ before after phrase parts starred
      refine ⟨last, ?_⟩
      cases final : tokens.getLast? with
      | none =>
          rw [List.getLast?_eq_none_iff] at final
          exact absurd (by rw [final]; rfl) asked
      | some token => exact ⟨token, rfl, by simpa [final] using unquoted⟩

theorem reads_back_iff (raw : Text) :
    ReadsBack raw ↔
      ∀ token ∈ authorTokens raw ++ seriesTokens raw ++ freeTokens raw, '\x00' ∉ token.text := by
  rw [← groups_clear, ReadsBack, fts_match_written]
  by_cases none' : groups raw = []
  · simp [none']
  · rw [if_neg none']
    exact read_conjoined (groups raw) none' (groups_sound raw)

theorem split_plain (state : Splitting) (symbol : Char) (rest : Text) (other : symbol ≠ '"')
    (kept : (isWhitespace symbol && !state.inQuotes) = false) :
    splitFrom state (symbol :: rest) =
      splitFrom { state with current := state.current ++ [symbol], started := true } rest := by
  rw [splitFrom.eq_def]
  simp only [if_neg other, kept, Bool.false_eq_true, if_false]

theorem split_open (state : Splitting) (rest : Text) (outside : state.inQuotes = false) :
    splitFrom state ('"' :: rest) = splitFrom state.toggle rest := by
  rw [splitFrom.eq_def]
  cases rest with
  | nil => rfl
  | cons next after => simp only [outside, Bool.false_eq_true, false_and, if_true, if_false]

theorem split_doubled (state : Splitting) (name rest : Text) (within : state.inQuotes = true)
    (started : state.started = true) :
    splitFrom state (doubled name ++ rest) =
      splitFrom { state with current := state.current ++ name } rest := by
  induction name generalizing state with
  | nil => simp
  | cons symbol name induction =>
      have later := induction { state with current := state.current ++ [symbol] } within started
      simp only [List.append_assoc, List.singleton_append] at later
      rw [doubled_cons, ← later]
      by_cases quote : symbol = '"'
      · simp [quote, splitFrom, within]
      · rw [if_neg quote, List.append_assoc, List.singleton_append,
          split_plain state symbol _ quote (by simp [within]), ← started]

theorem split_tag_query (name : Text) :
    splitQueryTokens (tagQuery name) = [⟨"tag:".toList ++ name, true⟩] := by
  have opened : splitQueryTokens (tagQuery name) =
      splitFrom ⟨[], "tag:".toList, true, true, true⟩ (doubled name ++ ['"']) := by
    change splitFrom _ ('t' :: 'a' :: 'g' :: ':' :: '"' :: (doubled name ++ ['"'])) = _
    rw [split_plain _ 't' _ (by decide) (by decide), split_plain _ 'a' _ (by decide) (by decide),
      split_plain _ 'g' _ (by decide) (by decide), split_plain _ ':' _ (by decide) (by decide),
      split_open _ _ rfl]
    rfl
  rw [opened, split_doubled _ _ _ rfl rfl]
  rfl

/-- The phrases of an expression are read back as the tokens exactly when none of these holds a
NUL. A quoted name with its quotes doubled is one facet. -/
theorem search_reads_back_iff (raw name : Text) :
    Asked raw (groups raw) ∧
    (ReadsBack raw ↔
      ∀ token ∈ authorTokens raw ++ seriesTokens raw ++ freeTokens raw, '\x00' ∉ token.text) ∧
    (name ≠ [] → buildSearchQuery (tagQuery name) = ⟨none, [name], []⟩) := by
  refine ⟨groups_asked raw, reads_back_iff raw, fun filled => ?_⟩
  have parts : splitOnce ':' ("tag:".toList ++ name) = some ("tag".toList, name) :=
    split_once_append ':' "tag".toList name (by decide)
  have named : facetNamed "tag".toList = some .tag := by decide
  have added : Sorted.add ⟨[], [], [], [], []⟩ ⟨"tag:".toList ++ name, true⟩ =
      ⟨[], [], [], [name], []⟩ := by
    rw [Sorted.add]
    simp only [parts, named, if_neg filled, List.nil_append]
  rw [buildSearchQuery, split_tag_query]
  simp only [List.foldl_cons, List.foldl_nil, added]
  rfl

/-- A NUL ends the expression inside its string: an error where the phrase should be. -/
theorem nul_breaks_out :
    (buildSearchQuery "a\x00".toList).ftsMatch =
        some "\x7btitle authors series\x7d : (\"a\x00\"*)".toList ∧
      ¬ReadsBack "a\x00".toList := by
  have built : (buildSearchQuery "a\x00".toList).ftsMatch =
      some "\x7btitle authors series\x7d : (\"a\x00\"*)".toList := by decide +kernel
  refine ⟨built, fun read => ?_⟩
  rw [ReadsBack, built] at read
  exact absurd read (by decide +kernel)

theorem search_reads_back_quoted :
    ReadsBack "author:Jo \"a \"\"b".toList ∧
      buildSearchQuery (tagQuery "the \"good\" parts".toList) =
        ⟨none, ["the \"good\" parts".toList], []⟩ := by
  obtain ⟨-, read, named⟩ :=
    search_reads_back_iff "author:Jo \"a \"\"b".toList "the \"good\" parts".toList
  constructor
  · rw [read]
    decide +kernel
  · exact named (by simp)

end Omnibus.Search
