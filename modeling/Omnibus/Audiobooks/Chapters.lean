import Mathlib.Algebra.Order.Field.Rat
import Mathlib.Data.List.Chain
import Mathlib.Data.List.Sort
import Mathlib.Tactic.Linarith
import Mathlib.Tactic.Positivity
import Omnibus.Audiobooks.Boxes
import Omnibus.Library.Rounding

/-!
# Chapters from their containers to their rows

The three extractors of a chapter list and `insert_chapters`, which turns one into rows. A
chapter whose end is missing ends where the next one starts, and the difference of two starts
is taken in `u64`: a list of starts that go back underflows.
-/

namespace Omnibus.Audiobooks

structure RawChapter where
  title : String
  startMs : Nat
  endMs : Nat
  deriving DecidableEq, Repr

/-- `String::from_utf8_lossy` and `String::from_utf16_lossy`. -/
structure Decoders where
  utf8Lossy : Bytes → String
  utf16Lossy : List Nat → String

variable (decoders : Decoders) (data : Bytes)

section Text

def slice (pos count : Nat) : Bytes := (data.drop pos).take count

def decodeUtf16 (bytes : Bytes) (bigEndian : Bool) : String :=
  decoders.utf16Lossy (((chunksOf 2 bytes).map fun unit =>
    beNat (if bigEndian then unit else unit.reverse)).takeWhile (· ≠ 0))

def decodeTextSample (bytes : Bytes) : String :=
  match bytes with
  | 0xFE :: 0xFF :: rest => decodeUtf16 decoders rest true
  | 0xFF :: 0xFE :: rest => decodeUtf16 decoders rest false
  | bytes => decoders.utf8Lossy (bytes.takeWhile (· ≠ 0))

def maxSampleBytes : Nat := 64 * 1024

def readTextSample (offset size : Nat) : Option String := do
  guard (2 ≤ size)
  let buf ← readExact data offset (min size maxSampleBytes)
  let declared := beNat (buf.take 2)
  return decodeTextSample decoders ((buf.drop 2).take declared)

def decodeId3Text (encoding : UInt8) (text : Bytes) : String :=
  if encoding = 0 then
    String.ofList ((text.takeWhile (· ≠ 0)).map fun byte => Char.ofNat byte.toNat)
  else if encoding = 1 ∨ encoding = 2 then
    match text with
    | 0xFF :: 0xFE :: rest => decodeUtf16 decoders rest false
    | 0xFE :: 0xFF :: rest => decodeUtf16 decoders rest true
    | text => decodeUtf16 decoders text (encoding = 2)
  else if encoding = 3 then decoders.utf8Lossy (text.takeWhile (· ≠ 0))
  else decoders.utf8Lossy text

end Text

section Nero

/-- The entries of a `chpl` payload, one after another. -/
def readChplEntries : Nat → Nat → Option (List RawChapter)
  | 0, _ => some []
  | count + 1, pos => do
      let start100ns := beNat (← readExact data pos 8)
      let titleLen := beNat (← readExact data (pos + 8) 1)
      let title ← readExact data (pos + 9) titleLen
      let rest ← readChplEntries count (pos + 9 + titleLen)
      return ⟨decoders.utf8Lossy title, start100ns / 10000, 0⟩ :: rest

/-- Each chapter but the last ends where the next one starts. -/
def fillEnds : List RawChapter → List RawChapter
  | chapter :: next :: rest => { chapter with endMs := next.startMs } :: fillEnds (next :: rest)
  | chapters => chapters

/-- How many entries a payload has, and where they start. -/
def chplCount (offset : Nat) : Option (Nat × Nat) := do
  let version := (← readExact data offset 4).headD 0
  if 1 ≤ version then
    let _reserved ← readExact data (offset + 4) 4
    return (beNat (← readExact data (offset + 8) 1), offset + 9)
  else
    return (beNat (← readExact data (offset + 4) 4), offset + 8)

def parseChplPayload (offset size : Nat) : Option (List RawChapter) := do
  guard (9 ≤ size)
  let (count, pos) ← chplCount data offset
  guard (count ≠ 0 ∧ count ≤ maxChapters)
  return fillEnds (← readChplEntries decoders data count pos)

end Nero

section QuickTime

def readChapterTrack (trak : BoxInfo) : Option (List RawChapter) := do
  let mdia ← findChildBox data trak (tag "mdia")
  let handler ← mediaHandler data mdia
  guard (handler = tag "text" ∨ handler = tag "sbtl")
  let timescale ← mediaTimescale data mdia
  let minf ← findChildBox data mdia (tag "minf")
  let stbl ← findChildBox data minf (tag "stbl")
  let times ← sampleTimes data stbl timescale
  let locations ← sampleLocations data stbl
  let count := min times.length locations.length
  guard (count ≠ 0 ∧ count ≤ maxChapters)
  return (times.zip locations).map fun sample =>
    ⟨(readTextSample decoders data sample.2.1 sample.2.2).getD "", sample.1.1, sample.1.2⟩

end QuickTime

section Id3

def syncsafeU32 (bytes : Bytes) : Nat :=
  (bytes.getD 0 0).toNat <<< 21 ||| (bytes.getD 1 0).toNat <<< 14 |||
    (bytes.getD 2 0).toNat <<< 7 ||| (bytes.getD 3 0).toNat

/-- The first `TIT2` frame among the frames within a chapter. -/
def extractTit2FromSubframes (pos : Nat) : Option String :=
  if pos + 10 ≤ data.length then
    let frameSize := beNat (slice data (pos + 4) 4)
    if frameSize = 0 ∨ data.length < pos + 10 + frameSize then none
    else if slice data pos 4 = tag "TIT2" ∧ 1 < frameSize then
      some (decodeId3Text decoders (data.getD (pos + 10) 0) (slice data (pos + 11) (frameSize - 1)))
    else extractTit2FromSubframes (pos + 10 + frameSize)
  else none
termination_by data.length - pos

def parseChapFrameBody : Option RawChapter := do
  let nullPos ← data.findIdx? (· = 0)
  guard (nullPos + 1 + 16 ≤ data.length)
  let times := data.drop (nullPos + 1)
  return ⟨(extractTit2FromSubframes decoders (times.drop 16) 0).getD "",
    beNat (times.take 4), beNat (slice times 4 4)⟩

def chapFrames (majorVersion : UInt8) (tagEnd pos : Nat) : List RawChapter :=
  if pos + 10 ≤ tagEnd then
    let frameSize :=
      if 4 ≤ majorVersion then syncsafeU32 (slice data (pos + 4) 4)
      else beNat (slice data (pos + 4) 4)
    if frameSize = 0 ∨ tagEnd < pos + 10 + frameSize then []
    else
      (if slice data pos 4 = tag "CHAP" then
        (parseChapFrameBody decoders (slice data (pos + 10) frameSize)).toList
      else []) ++ chapFrames majorVersion tagEnd (pos + 10 + frameSize)
  else []
termination_by tagEnd - pos

def parseId3v2ChapFrames : Option (List RawChapter) := do
  guard (10 ≤ data.length ∧ data.take 3 = tag "ID3")
  let tagEnd := min (10 + syncsafeU32 (slice data 6 4)) data.length
  let chapters := chapFrames decoders data (data.getD 3 0) tagEnd 10
  guard (chapters ≠ [])
  return chapters.insertionSort (·.startMs ≤ ·.startMs)

end Id3

section Rows

structure AudiobookPart where
  ordinal : Int
  durationSeconds : ℚ

/-- A row of `file_chapters`. -/
structure ChapterRow where
  ordinal : Int
  title : String
  startSeconds : ℚ
  durationSeconds : ℚ
  deriving DecidableEq, Repr

/-- A difference of `u64`s: it panics where it underflows, and wraps in a release build. -/
def checkedSub (left right : Nat) : Option Nat := if right ≤ left then some (left - right) else none

/-- An `f64` operation with the exact result `x`. -/
def f64 (x : ℚ) : ℚ := Library.Rounding.nearest 53 x

/-- `ms as f64 / 1000.0`. -/
def seconds (ms : Nat) : ℚ := f64 (f64 ms / 1000)

def totalDuration (parts : List AudiobookPart) : ℚ :=
  parts.foldl (fun total part => f64 (total + part.durationSeconds)) 0

def chapterDuration (total : ℚ) (chapter : RawChapter) (next : Option RawChapter) : Option ℚ :=
  if chapter.startMs < chapter.endMs then some (seconds (chapter.endMs - chapter.startMs))
  else
    match next with
    | some next => (checkedSub next.startMs chapter.startMs).map seconds
    | none => some (max (f64 (total - seconds chapter.startMs)) 0)

def chapterRows (total : ℚ) : Nat → List RawChapter → Option (List ChapterRow)
  | _, [] => some []
  | index, chapter :: rest => do
      let duration ← chapterDuration total chapter rest.head?
      let rows ← chapterRows total (index + 1) rest
      return ⟨index, chapter.title, seconds chapter.startMs, duration⟩ :: rows

def partRows : ℚ → List AudiobookPart → List ChapterRow
  | _, [] => []
  | cumulative, part :: rest =>
      ⟨part.ordinal, "Part " ++ toString (part.ordinal + 1), cumulative, part.durationSeconds⟩ ::
        partRows (f64 (cumulative + part.durationSeconds)) rest

/-- `insert_chapters`, as the rows it inserts. -/
def insertChapters (chapters : List RawChapter) (parts : List AudiobookPart) :
    Option (List ChapterRow) :=
  if chapters ≠ [] then chapterRows (totalDuration parts) 0 chapters
  else some (partRows 0 parts)

end Rows

section Statement

def NonDecreasing (chapters : List RawChapter) : Prop :=
  chapters.IsChain fun chapter next => chapter.startMs ≤ next.startMs

/-- A chapter whose end is missing goes on to the next, to the millisecond, and the last to the end
of the book; in seconds the rows meet to within the rounding of what they store. -/
def MeetsNext (total : ℚ) (chapter : RawChapter) (row : ChapterRow) : Option RawChapter → Prop
  | some next =>
      (∃ lasts, chapter.startMs + lasts = next.startMs ∧ row.durationSeconds = seconds lasts) ∧
        |row.startSeconds + row.durationSeconds - seconds next.startMs| ≤
          next.startMs / 1000 / 2 ^ 50
  | none =>
      row.durationSeconds = f64 (total - row.startSeconds) ∧
        |row.startSeconds + row.durationSeconds - total| ≤ total / 2 ^ 53

/-- A row for every chapter, with no gap after one whose end is missing. -/
def EndsMeet (total : ℚ) : List RawChapter → List ChapterRow → Prop
  | [], rows => rows = []
  | _ :: _, [] => False
  | chapter :: rest, row :: rows =>
      row.startSeconds = seconds chapter.startMs ∧
        (chapter.endMs ≤ chapter.startMs → MeetsNext total chapter row rest.head?) ∧
        EndsMeet total rest rows

def Stored (chapters : List RawChapter) (parts : List AudiobookPart) : Prop :=
  ∃ rows, insertChapters chapters parts = some rows ∧
    (∀ row ∈ rows, 0 ≤ row.durationSeconds ∧ row.durationSeconds ≤ totalDuration parts) ∧
    (NonDecreasing chapters → EndsMeet (totalDuration parts) chapters rows)

/-- No chapter that has an end is longer than the book. -/
def WithinBook (chapters : List RawChapter) (total : ℚ) : Prop :=
  ∀ chapter ∈ chapters, chapter.startMs < chapter.endMs →
    seconds (chapter.endMs - chapter.startMs) ≤ total

/-- After a chapter whose end is missing the starts do not go back. -/
def StepsKept (chapters : List RawChapter) : Prop :=
  chapters.IsChain fun chapter next =>
    chapter.endMs ≤ chapter.startMs → chapter.startMs ≤ next.startMs

end Statement

section Written

open Library.Rounding

variable {chapters : List RawChapter} {parts : List AudiobookPart} {total : ℚ}

theorem f64_nonneg {x : ℚ} (nonneg : 0 ≤ x) : 0 ≤ f64 x := nearest_nonneg 53 (by norm_num) nonneg

theorem f64_mono {x y : ℚ} (le : x ≤ y) : f64 x ≤ f64 y := nearest_mono 53 (by norm_num) le

theorem f64_near {x : ℚ} (nonneg : 0 ≤ x) : |f64 x - x| ≤ x / 2 ^ 53 := by
  rw [f64, nearest_of_nonneg 53 nonneg]
  exact round_to_near 53 x nonneg

theorem total_duration_stored (parts : List AudiobookPart) :
    f64 (totalDuration parts) = totalDuration parts := by
  unfold totalDuration
  rcases parts.eq_nil_or_concat with rfl | ⟨before, part, rfl⟩
  · rfl
  · rw [List.concat_eq_append, List.foldl_concat]
    exact nearest_idem 53 (by norm_num) _

theorem seconds_nonneg (ms : Nat) : 0 ≤ seconds ms :=
  f64_nonneg (div_nonneg (f64_nonneg (Nat.cast_nonneg ms)) (by norm_num))

theorem seconds_mono {left right : Nat} (le : left ≤ right) : seconds left ≤ seconds right := by
  have cast : f64 left ≤ f64 right := f64_mono (by exact_mod_cast le)
  exact f64_mono (by linarith)

theorem seconds_near (ms : Nat) : |seconds ms - ms / 1000| ≤ ms / 1000 / 2 ^ 51 := by
  have count : (0 : ℚ) ≤ ms := Nat.cast_nonneg ms
  have cast := abs_le.mp (f64_near count)
  have stored := abs_le.mp (f64_near (div_nonneg (f64_nonneg count) (by norm_num : (0 : ℚ) ≤ 1000)))
  rw [abs_le, seconds]
  constructor <;> linarith

theorem seconds_add_near (start lasts : Nat) :
    |seconds start + seconds lasts - seconds (start + lasts)| ≤
      ((start + lasts : Nat) : ℚ) / 1000 / 2 ^ 50 := by
  have first := abs_le.mp (seconds_near start)
  have second := abs_le.mp (seconds_near lasts)
  have both := abs_le.mp (seconds_near (start + lasts))
  rw [abs_le]
  push_cast at both ⊢
  constructor <;> linarith

theorem chapter_duration_iff {chapter : RawChapter} (next : Option RawChapter)
    (stored : f64 total = total) (reached : seconds chapter.startMs ≤ total)
    (nextReached : ∀ other ∈ next, seconds other.startMs ≤ total) :
    (∃ duration, chapterDuration total chapter next = some duration ∧ 0 ≤ duration ∧
        duration ≤ total) ↔
      (chapter.startMs < chapter.endMs → seconds (chapter.endMs - chapter.startMs) ≤ total) ∧
        ∀ other ∈ next, chapter.endMs ≤ chapter.startMs → chapter.startMs ≤ other.startMs := by
  unfold chapterDuration
  by_cases hasEnd : chapter.startMs < chapter.endMs
  · rw [if_pos hasEnd]
    simp only [Option.some.injEq, exists_eq_left', hasEnd, forall_const]
    constructor
    · intro ⟨_, within⟩
      exact ⟨within, fun _ _ noEnd => absurd hasEnd (by omega)⟩
    · intro ⟨within, _⟩
      exact ⟨seconds_nonneg _, within⟩
  · rw [if_neg hasEnd]
    have noEnd : chapter.endMs ≤ chapter.startMs := by omega
    simp only [hasEnd, false_implies, true_and, noEnd, forall_const]
    cases next with
    | none =>
        have inside : 0 ≤ f64 (total - seconds chapter.startMs) := f64_nonneg (by linarith)
        have start := seconds_nonneg chapter.startMs
        have within : f64 (total - seconds chapter.startMs) ≤ f64 total := f64_mono (by linarith)
        rw [stored] at within
        simp only [Option.some.injEq, exists_eq_left', max_eq_left inside]
        simp [inside, within]
    | some next =>
        have nextMem := nextReached next rfl
        dsimp only
        unfold checkedSub
        by_cases kept : chapter.startMs ≤ next.startMs
        · rw [if_pos kept]
          simp only [Option.map_some, Option.some.injEq, exists_eq_left', Option.mem_def,
            forall_eq', kept, iff_true]
          exact ⟨seconds_nonneg _, (seconds_mono (Nat.sub_le _ _)).trans nextMem⟩
        · rw [if_neg kept]
          simp [kept]

theorem chapter_duration_meets {chapter : RawChapter} {next : Option RawChapter} {duration : ℚ}
    (index : Nat) (reached : seconds chapter.startMs ≤ total)
    (noEnd : chapter.endMs ≤ chapter.startMs)
    (given : chapterDuration total chapter next = some duration) :
    MeetsNext total chapter ⟨index, chapter.title, seconds chapter.startMs, duration⟩ next := by
  unfold chapterDuration at given
  rw [if_neg (by omega)] at given
  cases next with
  | none =>
      have inside : 0 ≤ total - seconds chapter.startMs := by linarith
      have start := seconds_nonneg chapter.startMs
      have near := abs_le.mp (f64_near inside)
      rw [← Option.some.inj given, max_eq_left (f64_nonneg inside)]
      refine ⟨rfl, abs_le.mpr ?_⟩
      dsimp only
      constructor <;> linarith
  | some next =>
      dsimp only at given
      unfold checkedSub at given
      by_cases kept : chapter.startMs ≤ next.startMs
      · rw [if_pos kept] at given
        have whole : chapter.startMs + (next.startMs - chapter.startMs) = next.startMs := by omega
        have near := seconds_add_near chapter.startMs (next.startMs - chapter.startMs)
        rw [whole] at near
        rw [← Option.some.inj given]
        exact ⟨⟨_, whole, rfl⟩, near⟩
      · rw [if_neg kept] at given
        exact absurd given (by simp)

/-- A list of chapters is written exactly when none of them steps back or ends beyond the
book. -/
theorem chapter_rows_iff (index : Nat) (stored : f64 total = total)
    (reached : ∀ chapter ∈ chapters, seconds chapter.startMs ≤ total) :
    (∃ rows, chapterRows total index chapters = some rows ∧
        ∀ row ∈ rows, 0 ≤ row.durationSeconds ∧ row.durationSeconds ≤ total) ↔
      StepsKept chapters ∧ WithinBook chapters total := by
  unfold StepsKept WithinBook
  induction chapters generalizing index with
  | nil => simp [chapterRows]
  | cons chapter rest ih =>
      have restReached : ∀ other ∈ rest, seconds other.startMs ≤ total := fun other member =>
        reached other (List.mem_cons_of_mem _ member)
      have one := chapter_duration_iff rest.head? stored (reached chapter List.mem_cons_self)
        fun other member => restReached other (List.mem_of_mem_head? member)
      have others := ih (index + 1) restReached
      rw [List.isChain_cons, List.forall_mem_cons]
      constructor
      · intro ⟨rows, written, fits⟩
        simp only [chapterRows] at written
        obtain ⟨duration, given, written⟩ := Option.bind_eq_some_iff.mp written
        obtain ⟨more, moreWritten, written⟩ := Option.bind_eq_some_iff.mp written
        rw [← Option.some.inj written, List.forall_mem_cons] at fits
        obtain ⟨within, kept⟩ := one.mp ⟨duration, given, fits.1⟩
        obtain ⟨restKept, restWithin⟩ := others.mp ⟨more, moreWritten, fits.2⟩
        exact ⟨⟨kept, restKept⟩, within, restWithin⟩
      · intro ⟨⟨kept, restKept⟩, within, restWithin⟩
        obtain ⟨duration, given, fits⟩ := one.mpr ⟨within, kept⟩
        obtain ⟨more, moreWritten, moreFits⟩ := others.mpr ⟨restKept, restWithin⟩
        refine ⟨⟨index, chapter.title, seconds chapter.startMs, duration⟩ :: more, ?_,
          List.forall_mem_cons.mpr ⟨fits, moreFits⟩⟩
        simp only [chapterRows, given, moreWritten]
        rfl

theorem chapter_rows_meet (index : Nat) {rows : List ChapterRow}
    (reached : ∀ chapter ∈ chapters, seconds chapter.startMs ≤ total)
    (written : chapterRows total index chapters = some rows) : EndsMeet total chapters rows := by
  induction chapters generalizing index rows with
  | nil => exact (Option.some.inj written).symm
  | cons chapter rest ih =>
      simp only [chapterRows] at written
      obtain ⟨duration, given, written⟩ := Option.bind_eq_some_iff.mp written
      obtain ⟨more, moreWritten, written⟩ := Option.bind_eq_some_iff.mp written
      rw [← Option.some.inj written]
      exact ⟨rfl,
        fun noEnd => chapter_duration_meets index (reached chapter List.mem_cons_self) noEnd given,
        ih (index + 1) (fun other member => reached other (List.mem_cons_of_mem _ member))
          moreWritten⟩

theorem stored_iff_kept (filled : chapters ≠ [])
    (reached : ∀ chapter ∈ chapters, seconds chapter.startMs ≤ totalDuration parts) :
    Stored chapters parts ↔ StepsKept chapters ∧ WithinBook chapters (totalDuration parts) := by
  unfold Stored insertChapters
  rw [if_pos filled, ← chapter_rows_iff 0 (total_duration_stored parts) reached]
  constructor
  · intro ⟨rows, written, fits, _⟩
    exact ⟨rows, written, fits⟩
  · intro ⟨rows, written, fits⟩
    exact ⟨rows, written, fits, fun _ => chapter_rows_meet 0 reached written⟩

end Written

section Extracted

variable {decoders} {data} {chapters : List RawChapter}

theorem fill_ends_head (entries : List RawChapter) :
    ((fillEnds entries).head?.map (·.startMs)) = entries.head?.map (·.startMs) := by
  rcases entries with _ | ⟨chapter, _ | ⟨next, rest⟩⟩ <;> rfl

theorem fill_ends_ne_nil {entries : List RawChapter} (filled : entries ≠ []) :
    fillEnds entries ≠ [] := by
  rcases entries with _ | ⟨chapter, _ | ⟨next, rest⟩⟩ <;> simp_all [fillEnds]

theorem fill_ends_end (entries : List RawChapter) (noEnds : ∀ entry ∈ entries, entry.endMs = 0) :
    ∀ chapter ∈ fillEnds entries, chapter.endMs = 0 ∨
      ∃ next ∈ fillEnds entries, next.startMs = chapter.endMs := by
  induction entries with
  | nil => simp [fillEnds]
  | cons chapter rest ih =>
      cases rest with
      | nil => exact fun only member => .inl (noEnds only member)
      | cons next rest =>
          have others := ih fun entry member => noEnds entry (List.mem_cons_of_mem _ member)
          obtain ⟨other, isHead, same⟩ : ∃ other, (fillEnds (next :: rest)).head? = some other ∧
              other.startMs = next.startMs := Option.map_eq_some_iff.mp (fill_ends_head _)
          simp only [fillEnds, List.forall_mem_cons, List.exists_mem_cons_iff]
          refine ⟨.inr (.inr ⟨other, List.mem_of_mem_head? isHead, same⟩), fun entry member => ?_⟩
          exact (others entry member).imp_right .inr

theorem fill_ends_kept (entries : List RawChapter) :
    StepsKept (fillEnds entries) ↔ NonDecreasing (fillEnds entries) := by
  unfold StepsKept NonDecreasing
  induction entries with
  | nil => simp [fillEnds]
  | cons chapter rest ih =>
      cases rest with
      | nil => simp [fillEnds]
      | cons next rest =>
          have isNext := fill_ends_head (next :: rest)
          simp only [fillEnds, List.isChain_cons] at ih ⊢
          rw [ih]
          apply and_congr_left
          intro _
          apply forall₂_congr
          intro other isHead
          rw [Option.mem_def.mp isHead] at isNext
          rw [show other.startMs = next.startMs from Option.some.inj isNext]
          constructor
          · intro kept
            by_contra back
            exact back (kept (by omega))
          · intro kept _
            exact kept

theorem chpl_entries_no_ends {count pos : Nat} {entries : List RawChapter}
    (read : readChplEntries decoders data count pos = some entries) :
    entries.length = count ∧ ∀ entry ∈ entries, entry.endMs = 0 := by
  induction count generalizing pos entries with
  | zero =>
      rw [← Option.some.inj read]
      simp
  | succ count ih =>
      unfold readChplEntries at read
      obtain ⟨_, _, read⟩ := Option.bind_eq_some_iff.mp read
      obtain ⟨_, _, read⟩ := Option.bind_eq_some_iff.mp read
      obtain ⟨_, _, read⟩ := Option.bind_eq_some_iff.mp read
      obtain ⟨rest, readRest, read⟩ := Option.bind_eq_some_iff.mp read
      rw [← Option.some.inj read, List.forall_mem_cons]
      obtain ⟨length, noEnds⟩ := ih readRest
      exact ⟨by simp [length], rfl, noEnds⟩

theorem chpl_payload_filled {offset size : Nat}
    (parsed : parseChplPayload decoders data offset size = some chapters) :
    ∃ entries : List RawChapter, entries ≠ [] ∧ (∀ entry ∈ entries, entry.endMs = 0) ∧
      chapters = fillEnds entries := by
  unfold parseChplPayload at parsed
  obtain ⟨_, _, parsed⟩ := Option.bind_eq_some_iff.mp parsed
  obtain ⟨⟨count, pos⟩, _, parsed⟩ := Option.bind_eq_some_iff.mp parsed
  obtain ⟨_, inBounds, parsed⟩ := Option.bind_eq_some_iff.mp parsed
  obtain ⟨entries, read, parsed⟩ := Option.bind_eq_some_iff.mp parsed
  obtain ⟨length, noEnds⟩ := chpl_entries_no_ends read
  refine ⟨entries, fun empty => (guard_eq_some inBounds).1 ?_, noEnds,
    (Option.some.inj parsed).symm⟩
  rw [← length, empty]
  rfl

theorem push_samples_sorted {delta count : Nat} {reached after : List Nat × Nat}
    (pushed : pushSamples delta count reached = some after)
    (sorted : reached.1.Pairwise (· ≤ ·)) (below : ∀ start ∈ reached.1, start ≤ reached.2) :
    after.1.Pairwise (· ≤ ·) ∧ ∀ start ∈ after.1, start ≤ after.2 := by
  induction count generalizing reached with
  | zero =>
      rw [← Option.some.inj pushed]
      exact ⟨sorted, below⟩
  | succ count ih =>
      unfold pushSamples at pushed
      split at pushed
      · rw [← Option.some.inj pushed]
        exact ⟨sorted, below⟩
      · obtain ⟨cursor, added, pushed⟩ := Option.bind_eq_some_iff.mp pushed
        have sum := checked_add_eq_some added
        apply ih pushed
        · rw [List.pairwise_append]
          exact ⟨sorted, List.pairwise_singleton .., fun start member other isCursor =>
            (below start member).trans (List.mem_singleton.mp isCursor).ge⟩
        · intro start member
          rcases List.mem_append.mp member with earlier | isCursor
          · have before := below start earlier
            dsimp only at before ⊢
            omega
          · have same := List.mem_singleton.mp isCursor
            dsimp only at same ⊢
            omega

theorem sample_starts_sorted {entries : List (Nat × Nat)} {starts : List Nat}
    (walked : sampleStarts entries = some starts) : starts.Pairwise (· ≤ ·) := by
  have walk (entries : List (Nat × Nat)) (reached after : List Nat × Nat)
      (sorted : reached.1.Pairwise (· ≤ ·)) (below : ∀ start ∈ reached.1, start ≤ reached.2)
      (walked : entries.foldlM (fun reached entry => pushSamples entry.2 entry.1 reached) reached =
        some after) : after.1.Pairwise (· ≤ ·) := by
    induction entries generalizing reached with
    | nil =>
        rw [← Option.some.inj walked]
        exact sorted
    | cons entry rest ih =>
        rw [List.foldlM_cons] at walked
        obtain ⟨next, pushed, walked⟩ := Option.bind_eq_some_iff.mp walked
        obtain ⟨nextSorted, nextBelow⟩ := push_samples_sorted pushed sorted below
        exact ih next nextSorted nextBelow walked
  unfold sampleStarts at walked
  obtain ⟨after, folded, walked⟩ := Option.bind_eq_some_iff.mp walked
  rw [← Option.some.inj walked]
  exact walk entries ([], 0) after List.Pairwise.nil (fun _ member => absurd member (by simp)) folded

theorem ticks_to_ms_eq_some {ticks timescale ms : Nat} (converted : ticksToMs ticks timescale = some ms) :
    ms = ticks * 1000 / timescale := by
  unfold ticksToMs at converted
  split at converted
  · exact (Option.some.inj converted).symm
  · exact absurd converted (by simp)

theorem times_from_starts {timescale : Nat} {starts : List Nat} {times : List (Nat × Nat)}
    (timed : timesFrom timescale starts = some times) :
    times.map (·.1) = starts.map (· * 1000 / timescale) := by
  induction starts generalizing times with
  | nil =>
      rw [← Option.some.inj timed]
      rfl
  | cons start rest ih =>
      cases rest with
      | nil =>
          unfold timesFrom at timed
          obtain ⟨startMs, converted, timed⟩ := Option.bind_eq_some_iff.mp timed
          rw [← Option.some.inj timed, ticks_to_ms_eq_some converted]
          rfl
      | cons next rest =>
          unfold timesFrom at timed
          obtain ⟨startMs, converted, timed⟩ := Option.bind_eq_some_iff.mp timed
          obtain ⟨_, _, timed⟩ := Option.bind_eq_some_iff.mp timed
          obtain ⟨others, othersTimed, timed⟩ := Option.bind_eq_some_iff.mp timed
          rw [← Option.some.inj timed, List.map_cons, ih othersTimed,
            ticks_to_ms_eq_some converted]
          rfl

theorem sample_times_sorted {stbl : BoxInfo} {timescale : Nat} {times : List (Nat × Nat)}
    (timed : sampleTimes data stbl timescale = some times) :
    (times.map (·.1)).Pairwise (· ≤ ·) := by
  unfold sampleTimes at timed
  obtain ⟨_, _, timed⟩ := Option.bind_eq_some_iff.mp timed
  obtain ⟨_, _, timed⟩ := Option.bind_eq_some_iff.mp timed
  obtain ⟨starts, walked, timed⟩ := Option.bind_eq_some_iff.mp timed
  rw [times_from_starts timed, List.pairwise_map]
  apply (sample_starts_sorted walked).imp
  intro left right le
  exact Nat.div_le_div_right (Nat.mul_le_mul_right 1000 le)

theorem zip_fst_sublist {Left Right : Type} (left : List Left) (right : List Right) :
    ((left.zip right).map (·.1)).Sublist left := by
  induction left generalizing right with
  | nil => exact List.nil_sublist _
  | cons head rest ih =>
      cases right with
      | nil => exact List.nil_sublist _
      | cons other others => exact (ih others).cons_cons head

theorem chapter_track_sorted {trak : BoxInfo}
    (read : readChapterTrack decoders data trak = some chapters) :
    chapters ≠ [] ∧ chapters.Pairwise fun left right => left.startMs ≤ right.startMs := by
  unfold readChapterTrack at read
  obtain ⟨_, _, read⟩ := Option.bind_eq_some_iff.mp read
  obtain ⟨_, _, read⟩ := Option.bind_eq_some_iff.mp read
  obtain ⟨_, _, read⟩ := Option.bind_eq_some_iff.mp read
  obtain ⟨_, _, read⟩ := Option.bind_eq_some_iff.mp read
  obtain ⟨_, _, read⟩ := Option.bind_eq_some_iff.mp read
  obtain ⟨_, _, read⟩ := Option.bind_eq_some_iff.mp read
  obtain ⟨times, timed, read⟩ := Option.bind_eq_some_iff.mp read
  obtain ⟨locations, _, read⟩ := Option.bind_eq_some_iff.mp read
  obtain ⟨_, inBounds, read⟩ := Option.bind_eq_some_iff.mp read
  have filled := (guard_eq_some inBounds).1
  rw [← Option.some.inj read]
  constructor
  · intro empty
    rw [List.map_eq_nil_iff] at empty
    rw [← List.length_zip, empty] at filled
    exact filled rfl
  · have sorted := List.pairwise_map.mp (sample_times_sorted timed)
    rw [List.pairwise_map]
    have firsts := sorted.sublist (zip_fst_sublist times locations)
    rw [List.pairwise_map] at firsts
    exact firsts

theorem chap_frames_sorted (parsed : parseId3v2ChapFrames decoders data = some chapters) :
    chapters ≠ [] ∧ chapters.Pairwise fun left right => left.startMs ≤ right.startMs := by
  unfold parseId3v2ChapFrames at parsed
  obtain ⟨_, _, parsed⟩ := Option.bind_eq_some_iff.mp parsed
  obtain ⟨_, inBounds, parsed⟩ := Option.bind_eq_some_iff.mp parsed
  have filled := guard_eq_some inBounds
  rw [← Option.some.inj parsed]
  constructor
  · intro empty
    exact filled (List.perm_nil.mp (empty ▸ (List.perm_insertionSort _ _).symm))
  · have total : Std.Total fun left right : RawChapter => left.startMs ≤ right.startMs :=
      ⟨fun left right => le_total left.startMs right.startMs⟩
    have transitive : IsTrans RawChapter fun left right => left.startMs ≤ right.startMs :=
      ⟨fun _ _ _ first second => first.trans second⟩
    exact List.pairwise_insertionSort _ _

theorem steps_kept_of_sorted
    (sorted : chapters.Pairwise fun left right => left.startMs ≤ right.startMs) :
    StepsKept chapters :=
  sorted.isChain.imp fun _ _ le _ => le

theorem fill_ends_within {entries : List RawChapter} {total : ℚ}
    (noEnds : ∀ entry ∈ entries, entry.endMs = 0)
    (reached : ∀ chapter ∈ fillEnds entries, seconds chapter.startMs ≤ total) :
    WithinBook (fillEnds entries) total := by
  intro chapter member hasEnd
  rcases fill_ends_end entries noEnds chapter member with none | ⟨next, nextMem, same⟩
  · omega
  · have shorter := seconds_mono (Nat.sub_le chapter.endMs chapter.startMs)
    rw [← same] at shorter ⊢
    exact shorter.trans (reached next nextMem)

end Extracted

/-- When an extracted list can be stored: Nero chapters when their starts never go back, the
others when none is longer than the book. -/
theorem extracted_stored_iff (decoders : Decoders) (data : Bytes) (chapters : List RawChapter)
    (parts : List AudiobookPart)
    (reached : ∀ chapter ∈ chapters, seconds chapter.startMs ≤ totalDuration parts) :
    ((∃ offset size, parseChplPayload decoders data offset size = some chapters) →
      (Stored chapters parts ↔ NonDecreasing chapters)) ∧
    ((∃ trak, readChapterTrack decoders data trak = some chapters) ∨
        parseId3v2ChapFrames decoders data = some chapters →
      (Stored chapters parts ↔ WithinBook chapters (totalDuration parts))) := by
  constructor
  · intro ⟨offset, size, parsed⟩
    obtain ⟨entries, filled, noEnds, rfl⟩ := chpl_payload_filled parsed
    rw [stored_iff_kept (fill_ends_ne_nil filled) reached, fill_ends_kept]
    exact and_iff_left (fill_ends_within noEnds reached)
  · intro extracted
    have sorted : chapters ≠ [] ∧
        chapters.Pairwise fun left right => left.startMs ≤ right.startMs := by
      rcases extracted with ⟨trak, read⟩ | parsed
      · exact chapter_track_sorted read
      · exact chap_frames_sorted parsed
    rw [stored_iff_kept sorted.1 reached]
    exact and_iff_right (steps_kept_of_sorted sorted.2)

section Examples

def asciiDecoders : Decoders where
  utf8Lossy bytes := String.ofList (bytes.map fun byte => Char.ofNat byte.toNat)
  utf16Lossy units := String.ofList (units.map Char.ofNat)

/-- A Nero payload of two untitled chapters, at 100 and at 50 milliseconds. -/
def steppingBack : Bytes :=
  [0, 0, 0, 0, 0, 0, 0, 2, 0, 0, 0, 0, 0, 0x0F, 0x42, 0x40, 0, 0, 0, 0, 0, 0, 0x07, 0xA1, 0x20, 0]

def goingOn : Bytes :=
  [0, 0, 0, 0, 0, 0, 0, 2, 0, 0, 0, 0, 0, 0x07, 0xA1, 0x20, 0, 0, 0, 0, 0, 0, 0x0F, 0x42, 0x40, 0]

def oneFrame : Bytes :=
  [0x49, 0x44, 0x33, 3, 0, 0, 0, 0, 0, 27, 0x43, 0x48, 0x41, 0x50, 0, 0, 0, 17, 0, 0,
    0, 0, 0, 0, 0, 0, 0, 0x01, 0xF4, 0, 0, 0, 0, 0, 0, 0, 0]

theorem in_order_stored : Stored [⟨"", 50, 100⟩, ⟨"", 100, 0⟩] [⟨0, 1⟩] ∧
    Stored [⟨"", 0, 500⟩] [⟨0, 1⟩] := by
  constructor
  · refine ((extracted_stored_iff asciiDecoders goingOn _ _ ?_).1 ⟨0, 26, ?_⟩).mpr ?_
    · decide +kernel
    · decide +kernel
    · unfold NonDecreasing
      decide
  · refine ((extracted_stored_iff asciiDecoders oneFrame _ _ ?_).2 (.inr ?_)).mpr ?_
    · decide +kernel
    · decide +kernel
    · unfold WithinBook
      decide +kernel

theorem stepping_back_underflows :
    parseChplPayload asciiDecoders steppingBack 0 26 = some [⟨"", 100, 50⟩, ⟨"", 50, 0⟩] ∧
      (∀ chapter ∈ [⟨"", 100, 50⟩, (⟨"", 50, 0⟩ : RawChapter)],
        seconds chapter.startMs ≤ totalDuration [⟨0, 1⟩]) ∧
      ¬Stored [⟨"", 100, 50⟩, ⟨"", 50, 0⟩] [⟨0, 1⟩] := by
  refine ⟨by decide +kernel, by decide +kernel, ?_⟩
  intro ⟨rows, written, _⟩
  have refused : insertChapters [⟨"", 100, 50⟩, ⟨"", 50, 0⟩] [⟨0, 1⟩] = none := by decide +kernel
  rw [refused] at written
  exact absurd written (by simp)

end Examples

end Omnibus.Audiobooks
