import Mathlib.Data.List.TakeWhile
import Omnibus.Audiobooks.BoxWalk
import Omnibus.Audiobooks.Chapters

/-!
# Chapter frames written and read back

A tagger's chapter frames, in the two versions of the tag, and what `parse_id3v2_chap_frames`
reads of them; and the same scan with every slice it takes checked against the bytes there are.
-/

namespace Omnibus.Audiobooks

section Checked

variable (decoders : Decoders) (data : Bytes)

/-- `&data[pos..pos + count]`, none where it panics. -/
def sliceAt (pos count : Nat) : Option Bytes :=
  if pos + count ≤ data.length then some (slice data pos count) else none

/-- `extract_tit2_from_subframes`, none where a slice panics. -/
def scanTit2 (pos : Nat) : Option (Option String) :=
  if pos + 10 ≤ data.length then
    match sliceAt data pos 4, sliceAt data (pos + 4) 4 with
    | some frameId, some size =>
        if beNat size = 0 ∨ data.length < pos + 10 + beNat size then some none
        else if frameId = tag "TIT2" ∧ 1 < beNat size then
          match data[pos + 10]?, sliceAt data (pos + 11) (beNat size - 1) with
          | some encoding, some text => some (some (decodeId3Text decoders encoding text))
          | _, _ => none
        else scanTit2 (pos + 10 + beNat size)
    | _, _ => none
  else some none
termination_by data.length - pos

/-- `parse_chap_frame_body`, none where a slice panics. -/
def scanChapFrameBody : Option (Option RawChapter) :=
  match data.findIdx? (· = 0) with
  | none => some none
  | some nullPos =>
      if data.length < nullPos + 1 + 16 then some none
      else do
        let start ← sliceAt data (nullPos + 1) 4
        let stop ← sliceAt data (nullPos + 5) 4
        let subframes ← sliceAt data (nullPos + 17) (data.length - (nullPos + 17))
        let title ← scanTit2 decoders subframes 0
        return some ⟨title.getD "", beNat start, beNat stop⟩

/-- The frame loop of `parse_id3v2_chap_frames`, none where a slice panics. -/
def scanChapFrames (majorVersion : UInt8) (tagEnd pos : Nat) : Option (List RawChapter) :=
  if pos + 10 ≤ tagEnd then
    match sliceAt data pos 4, sliceAt data (pos + 4) 4 with
    | some frameId, some size =>
        let frameSize := if 4 ≤ majorVersion then syncsafeU32 size else beNat size
        if frameSize = 0 ∨ tagEnd < pos + 10 + frameSize then some []
        else
          match sliceAt data (pos + 10) frameSize,
            scanChapFrames majorVersion tagEnd (pos + 10 + frameSize) with
          | some body, some rest =>
              if frameId = tag "CHAP" then
                (scanChapFrameBody decoders body).map fun chapter => chapter.toList ++ rest
              else some rest
          | _, _ => none
    | _, _ => none
  else some []
termination_by tagEnd - pos

/-- `parse_id3v2_chap_frames`, none where a slice panics. -/
def scanId3v2ChapFrames : Option (Option (List RawChapter)) :=
  if data.length < 10 then some none
  else
    match sliceAt data 0 3, data[3]?, sliceAt data 6 4 with
    | some magic, some majorVersion, some size =>
        if magic ≠ tag "ID3" then some none
        else
          let tagEnd := min (10 + syncsafeU32 size) data.length
          (scanChapFrames decoders data majorVersion tagEnd 10).map fun chapters =>
            if chapters = [] then none
            else some (chapters.insertionSort (·.startMs ≤ ·.startMs))
    | _, _, _ => none

end Checked

section Within

variable (decoders : Decoders)

theorem guard_not {condition : Prop} [Decidable condition] (fails : ¬condition) :
    (guard condition : Option Unit) = none := by
  simp [guard, fails]

theorem slice_at_within {data : Bytes} {pos count : Nat} (within : pos + count ≤ data.length) :
    sliceAt data pos count = some (slice data pos count) := if_pos within

theorem byte_at_within {data : Bytes} {pos : Nat} (within : pos < data.length) :
    data[pos]? = some (data.getD pos 0) := by
  simp [List.getD, List.getElem?_eq_getElem within]

theorem scan_tit2_within (data : Bytes) (pos : Nat) :
    scanTit2 decoders data pos = some (extractTit2FromSubframes decoders data pos) := by
  induction room : data.length - pos using Nat.strong_induction_on generalizing pos with
  | _ room' induction =>
      rw [scanTit2, extractTit2FromSubframes]
      by_cases header : pos + 10 ≤ data.length
      · rw [if_pos header, if_pos header, slice_at_within (by omega), slice_at_within (by omega)]
        simp only
        by_cases stops : beNat (slice data (pos + 4) 4) = 0 ∨
            data.length < pos + 10 + beNat (slice data (pos + 4) 4)
        · rw [if_pos stops, if_pos stops]
        · rw [if_neg stops, if_neg stops]
          by_cases titled : slice data pos 4 = tag "TIT2" ∧ 1 < beNat (slice data (pos + 4) 4)
          · rw [if_pos titled, if_pos titled, byte_at_within (by omega),
              slice_at_within (by omega)]
          · rw [if_neg titled, if_neg titled]
            exact induction _ (by omega) _ rfl
      · rw [if_neg header, if_neg header]

theorem slice_rest (data : Bytes) (pos : Nat) :
    slice data pos (data.length - pos) = data.drop pos := by
  rw [slice, ← List.length_drop, List.take_length]

theorem scan_body_within (data : Bytes) :
    scanChapFrameBody decoders data = some (parseChapFrameBody decoders data) := by
  unfold scanChapFrameBody parseChapFrameBody
  cases found : data.findIdx? (· = 0) with
  | none => rfl
  | some nullPos =>
      simp only [Option.bind_eq_bind, Option.bind_some]
      by_cases short : data.length < nullPos + 1 + 16
      · rw [if_pos short]
        rw [guard_not (by omega)]
        rfl
      · rw [if_neg short, slice_at_within (by omega), slice_at_within (by omega),
          slice_at_within (by omega), guard_of (by omega)]
        simp only [Option.bind_some, scan_tit2_within, slice_rest]
        simp only [slice, List.drop_drop]
        rfl

theorem scan_frames_within (data : Bytes) (majorVersion : UInt8) {tagEnd : Nat}
    (inData : tagEnd ≤ data.length) (pos : Nat) :
    scanChapFrames decoders data majorVersion tagEnd pos =
      some (chapFrames decoders data majorVersion tagEnd pos) := by
  induction room : tagEnd - pos using Nat.strong_induction_on generalizing pos with
  | _ room' induction =>
      rw [scanChapFrames, chapFrames]
      by_cases header : pos + 10 ≤ tagEnd
      · rw [if_pos header, if_pos header, slice_at_within (by omega), slice_at_within (by omega)]
        simp only
        generalize (if 4 ≤ majorVersion then syncsafeU32 (slice data (pos + 4) 4)
          else beNat (slice data (pos + 4) 4)) = frameSize
        by_cases stops : frameSize = 0 ∨ tagEnd < pos + 10 + frameSize
        · rw [if_pos stops, if_pos stops]
        · rw [if_neg stops, if_neg stops, slice_at_within (by omega),
            induction _ (by omega) _ rfl]
          simp only
          by_cases isChapter : slice data pos 4 = tag "CHAP"
          · rw [if_pos isChapter, if_pos isChapter, scan_body_within]
            rfl
          · rw [if_neg isChapter, if_neg isChapter]
            rfl
      · rw [if_neg header, if_neg header]

theorem scan_within (data : Bytes) :
    scanId3v2ChapFrames decoders data = some (parseId3v2ChapFrames decoders data) := by
  unfold scanId3v2ChapFrames parseId3v2ChapFrames
  by_cases short : data.length < 10
  · rw [if_pos short]
    rw [guard_not (by omega)]
    rfl
  · rw [if_neg short, slice_at_within (by omega), byte_at_within (by omega),
      slice_at_within (by omega)]
    have magic : slice data 0 3 = data.take 3 := by
      rw [slice, List.drop_zero]
    simp only [magic]
    by_cases tagged : data.take 3 = tag "ID3"
    · rw [if_neg (not_not.mpr tagged), guard_of ⟨by omega, tagged⟩,
        scan_frames_within decoders data _ (Nat.min_le_right _ _)]
      simp only [Option.map_some, Option.bind_eq_bind, Option.bind_some]
      split_ifs with isEmpty
      · rw [guard_not (not_not.mpr isEmpty)]
        rfl
      · rw [guard_of isEmpty]
        rfl
    · rw [if_pos tagged]
      rw [guard_not fun both => tagged both.2]
      rfl

end Within

section Text

/-- How a tagger writes a text: UTF-8, or UTF-16 after a byte order mark. -/
inductive TextForm where
  | utf8
  | utf16 (bigEndian : Bool)
  deriving DecidableEq, Repr

def utf8Bytes (title : String) : Bytes := title.toList.flatMap String.utf8EncodeChar

def charUnits (char : Char) : List Nat :=
  if char.toNat < 0x10000 then [char.toNat]
  else [0xD800 + (char.toNat - 0x10000) / 0x400, 0xDC00 + (char.toNat - 0x10000) % 0x400]

def utf16Units (title : String) : List Nat := title.toList.flatMap charUnits

def unitBytes (bigEndian : Bool) (unit : Nat) : Bytes :=
  if bigEndian then beBytes 2 unit else (beBytes 2 unit).reverse

def encodeText (form : TextForm) (title : String) : Bytes :=
  match form with
  | .utf8 => 3 :: utf8Bytes title
  | .utf16 true => 1 :: 0xFE :: 0xFF :: ((utf16Units title).map (unitBytes true)).flatten
  | .utf16 false => 1 :: 0xFF :: 0xFE :: ((utf16Units title).map (unitBytes false)).flatten

structure Decoders.Faithful (decoders : Decoders) : Prop where
  utf8 : ∀ title, decoders.utf8Lossy (utf8Bytes title) = title
  utf16 : ∀ title, decoders.utf16Lossy (utf16Units title) = title

def WithoutNul (title : String) : Prop := ∀ char ∈ title.toList, char.toNat ≠ 0

theorem utf8_char_nonzero {char : Char} (nonzero : char.toNat ≠ 0) :
    ∀ byte ∈ String.utf8EncodeChar char, byte ≠ 0 := by
  have apart (number : Nat) (inByte : number < 256) (positive : number ≠ 0) :
      UInt8.ofNat number ≠ 0 := by
    intro isZero
    have same := congrArg UInt8.toNat isZero
    rw [UInt8.toNat_ofNat'] at same
    simp only [UInt8.toNat_zero] at same
    omega
  have value : char.val.toNat = char.toNat := rfl
  unfold String.utf8EncodeChar
  simp only [value]
  intro byte member
  split at member
  · rw [List.mem_singleton] at member
    rw [member]
    exact apart _ (by omega) nonzero
  · split at member
    · simp only [List.mem_cons, List.not_mem_nil, or_false] at member
      rcases member with same | same
      · rw [same]
        exact apart _ (by omega) (by omega)
      · rw [same]
        exact apart _ (by omega) (by omega)
    · split at member
      · simp only [List.mem_cons, List.not_mem_nil, or_false] at member
        rcases member with same | same | same
        · rw [same]
          exact apart _ (by omega) (by omega)
        · rw [same]
          exact apart _ (by omega) (by omega)
        · rw [same]
          exact apart _ (by omega) (by omega)
      · simp only [List.mem_cons, List.not_mem_nil, or_false] at member
        rcases member with same | same | same | same
        · rw [same]
          exact apart _ (by omega) (by omega)
        · rw [same]
          exact apart _ (by omega) (by omega)
        · rw [same]
          exact apart _ (by omega) (by omega)
        · rw [same]
          exact apart _ (by omega) (by omega)

theorem utf8_nonzero {title : String} (plain : WithoutNul title) :
    (utf8Bytes title).takeWhile (· ≠ 0) = utf8Bytes title := by
  rw [List.takeWhile_eq_self_iff]
  intro byte member
  obtain ⟨char, isChar, isByte⟩ := List.mem_flatMap.mp member
  simpa using utf8_char_nonzero (plain char isChar) byte isByte

theorem char_in_range (char : Char) : char.toNat < 0xD800 ∨ 0xDFFF < char.toNat ∧
    char.toNat < 0x110000 := char.valid

/-- The units of a character take two bytes, and none is zero but that of the character zero. -/
theorem char_units_bounds (char : Char) :
    ∀ unit ∈ charUnits char, unit < 65536 ∧ (char.toNat ≠ 0 → unit ≠ 0) := by
  have range := char_in_range char
  unfold charUnits
  split_ifs with basic
  · intro unit member
    rw [List.mem_singleton] at member
    omega
  · intro unit member
    simp only [List.mem_cons, List.not_mem_nil, or_false] at member
    omega

theorem char_units_small (char : Char) : ∀ unit ∈ charUnits char, unit < 65536 :=
  fun unit member => (char_units_bounds char unit member).1

theorem char_units_nonzero {char : Char} (nonzero : char.toNat ≠ 0) :
    ∀ unit ∈ charUnits char, unit ≠ 0 :=
  fun unit member => (char_units_bounds char unit member).2 nonzero

theorem unit_bytes_length (bigEndian : Bool) (unit : Nat) :
    (unitBytes bigEndian unit).length = 2 := by
  unfold unitBytes
  split_ifs <;> simp

theorem unit_bytes_read (bigEndian : Bool) {unit : Nat} (small : unit < 65536) :
    beNat (if bigEndian then unitBytes bigEndian unit else (unitBytes bigEndian unit).reverse) =
      unit := by
  have own : beNat (beBytes 2 unit) = unit := be_nat_bytes small
  cases bigEndian with
  | true => exact own
  | false =>
      simp only [unitBytes, Bool.false_eq_true, if_false, List.reverse_reverse]
      exact own

variable {decoders : Decoders}

theorem utf16_decoded (faithful : decoders.Faithful) {title : String} (plain : WithoutNul title)
    (bigEndian : Bool) :
    decodeUtf16 decoders ((utf16Units title).map (unitBytes bigEndian)).flatten bigEndian =
      title := by
  have chunks : chunksOf 2 ((utf16Units title).map (unitBytes bigEndian)).flatten =
      (utf16Units title).map (unitBytes bigEndian) := by
    apply chunks_of_flatten (by norm_num)
    intro chunk member
    rcases List.mem_map.mp member with ⟨unit, -, rfl⟩
    exact unit_bytes_length bigEndian unit
  have units : ((utf16Units title).map (unitBytes bigEndian)).map (fun unit =>
      beNat (if bigEndian then unit else unit.reverse)) = utf16Units title := by
    rw [List.map_map]
    conv_rhs => rw [← List.map_id (utf16Units title)]
    apply List.map_congr_left
    intro unit member
    obtain ⟨char, -, isUnit⟩ := List.mem_flatMap.mp member
    exact unit_bytes_read bigEndian (char_units_small char unit isUnit)
  have whole : (utf16Units title).takeWhile (· ≠ 0) = utf16Units title := by
    rw [List.takeWhile_eq_self_iff]
    intro unit member
    obtain ⟨char, isChar, isUnit⟩ := List.mem_flatMap.mp member
    simpa using char_units_nonzero (plain char isChar) unit isUnit
  rw [decodeUtf16, chunks, units, whole, faithful.utf16]

theorem text_decoded (faithful : decoders.Faithful) {title : String} (plain : WithoutNul title)
    (form : TextForm) :
    decodeId3Text decoders ((encodeText form title).getD 0 0) ((encodeText form title).drop 1) =
      title := by
  cases form with
  | utf8 =>
      change decodeId3Text decoders 3 (utf8Bytes title) = title
      unfold decodeId3Text
      rw [if_neg (by decide), if_neg (by decide), if_pos rfl, utf8_nonzero plain, faithful.utf8]
  | utf16 bigEndian =>
      cases bigEndian with
      | true =>
          change decodeId3Text decoders 1
            (0xFE :: 0xFF :: ((utf16Units title).map (unitBytes true)).flatten) = title
          unfold decodeId3Text
          rw [if_neg (by decide), if_pos (by decide)]
          exact utf16_decoded faithful plain true
      | false =>
          change decodeId3Text decoders 1
            (0xFF :: 0xFE :: ((utf16Units title).map (unitBytes false)).flatten) = title
          unfold decodeId3Text
          rw [if_neg (by decide), if_pos (by decide)]
          exact utf16_decoded faithful plain false

theorem encode_text_length (form : TextForm) (title : String) :
    1 ≤ (encodeText form title).length := by
  unfold encodeText
  split <;> simp

theorem empty_title_short (form : TextForm) : (encodeText form "").length ≤ 3 := by
  cases form with
  | utf8 => decide
  | utf16 bigEndian => cases bigEndian <;> decide

theorem empty_of_no_text {form : TextForm} {title : String}
    (single : (encodeText form title).length = 1) : title = "" := by
  cases form with
  | utf8 =>
      have noBytes : utf8Bytes title = [] := by
        apply List.eq_nil_of_length_eq_zero
        change (utf8Bytes title).length + 1 = 1 at single
        omega
      have noChars : title.toList = [] := by
        cases chars : title.toList with
        | nil => rfl
        | cons char rest =>
            rw [utf8Bytes, chars, List.flatMap_cons, List.append_eq_nil_iff] at noBytes
            exact absurd noBytes.1 String.utf8EncodeChar_ne_nil
      exact String.toList_eq_nil_iff.mp noChars
  | utf16 bigEndian =>
      cases bigEndian <;> simp [encodeText] at single

end Text

section Frames

inductive Id3Version where
  | v23
  | v24
  deriving DecidableEq, Repr

def Id3Version.major : Id3Version → UInt8
  | .v23 => 3
  | .v24 => 4

def syncsafeBytes (number : Nat) : Bytes :=
  [UInt8.ofNat (number / 2097152 % 128), UInt8.ofNat (number / 16384 % 128),
    UInt8.ofNat (number / 128 % 128), UInt8.ofNat (number % 128)]

def Id3Version.sizeBytes (version : Id3Version) (size : Nat) : Bytes :=
  match version with
  | .v23 => beBytes 4 size
  | .v24 => syncsafeBytes size

def frame (version : Id3Version) (frameId body : Bytes) : Bytes :=
  frameId ++ (version.sizeBytes body.length ++ ([0, 0] ++ body))

structure TaggedChapter where
  elementId : Bytes
  chapter : RawChapter
  offsets : Bytes
  form : TextForm
  deriving DecidableEq, Repr

structure TaggedChapter.Fits (tagged : TaggedChapter) : Prop where
  elementId : ∀ byte ∈ tagged.elementId, byte ≠ 0
  offsets : tagged.offsets.length = 8
  start : tagged.chapter.startMs < 2 ^ 32
  stop : tagged.chapter.endMs < 2 ^ 32
  title : WithoutNul tagged.chapter.title

def TaggedChapter.text (tagged : TaggedChapter) : Bytes :=
  encodeText tagged.form tagged.chapter.title

def chapBody (version : Id3Version) (tagged : TaggedChapter) : Bytes :=
  tagged.elementId ++ (0 :: (beBytes 4 tagged.chapter.startMs ++
    (beBytes 4 tagged.chapter.endMs ++ (tagged.offsets ++
      frame version (tag "TIT2") tagged.text))))

def chapterFrames (version : Id3Version) (chapters : List TaggedChapter) : Bytes :=
  (chapters.map fun tagged => frame version (tag "CHAP") (chapBody version tagged)).flatten

def id3Tag (version : Id3Version) (chapters : List TaggedChapter) : Bytes :=
  tag "ID3" ++ (version.major :: 0 :: 0 ::
    (syncsafeBytes (chapterFrames version chapters).length ++ chapterFrames version chapters))

/-- The title is found again: its frame size reads the same in both encodings. -/
def TaggedChapter.ReadBack (version : Id3Version) (tagged : TaggedChapter) : Prop :=
  version = .v23 ∨ tagged.text.length < 128

instance (version : Id3Version) (tagged : TaggedChapter) :
    Decidable (tagged.ReadBack version) := by
  unfold TaggedChapter.ReadBack
  infer_instance

theorem seven_bits (number : Nat) : (UInt8.ofNat (number % 128)).toNat = number % 128 := by
  rw [UInt8.toNat_ofNat']
  omega

theorem syncsafe_read {number : Nat} (fits : number < 2 ^ 28) :
    syncsafeU32 (syncsafeBytes number) = number := by
  change (UInt8.ofNat (number / 2097152 % 128)).toNat <<< 21 |||
    (UInt8.ofNat (number / 16384 % 128)).toNat <<< 14 |||
    (UInt8.ofNat (number / 128 % 128)).toNat <<< 7 ||| (UInt8.ofNat (number % 128)).toNat = number
  rw [seven_bits, seven_bits, seven_bits, seven_bits]
  have first := Nat.two_pow_add_eq_or_of_lt (i := 21) (b := number / 16384 % 128 * 2 ^ 14)
    (by omega) (number / 2097152 % 128)
  have second := Nat.two_pow_add_eq_or_of_lt (i := 14) (b := number / 128 % 128 * 2 ^ 7)
    (by omega) (number / 2097152 % 128 * 128 + number / 16384 % 128)
  have third := Nat.two_pow_add_eq_or_of_lt (i := 7) (b := number % 128) (by omega)
    (number / 2097152 % 128 * 16384 + number / 16384 % 128 * 128 + number / 128 % 128)
  rw [Nat.shiftLeft_eq, Nat.shiftLeft_eq, Nat.shiftLeft_eq,
    Nat.mul_comm (number / 2097152 % 128), ← first,
    show 2 ^ 21 * (number / 2097152 % 128) + number / 16384 % 128 * 2 ^ 14 =
      2 ^ 14 * (number / 2097152 % 128 * 128 + number / 16384 % 128) by omega, ← second,
    show 2 ^ 14 * (number / 2097152 % 128 * 128 + number / 16384 % 128) +
      number / 128 % 128 * 2 ^ 7 = 2 ^ 7 * (number / 2097152 % 128 * 16384 +
        number / 16384 % 128 * 128 + number / 128 % 128) by omega, ← third]
  omega

/-- A plain reading of seven-bit bytes: the same number below 128, a larger one from there on. -/
theorem syncsafe_as_plain {number : Nat} (fits : number < 2 ^ 28) :
    (number < 128 → beNat (syncsafeBytes number) = number) ∧
      (128 ≤ number → number < beNat (syncsafeBytes number)) := by
  have plain : beNat (syncsafeBytes number) = ((number / 2097152 % 128 * 256 +
      number / 16384 % 128) * 256 + number / 128 % 128) * 256 + number % 128 := by
    simp only [beNat, syncsafeBytes, List.foldl_cons, List.foldl_nil, seven_bits, Nat.zero_mul,
      Nat.zero_add]
  have digits : number = ((number / 2097152 % 128 * 128 + number / 16384 % 128) * 128 +
      number / 128 % 128) * 128 + number % 128 := by omega
  rw [plain]
  generalize number / 2097152 % 128 = first at digits ⊢
  generalize number / 16384 % 128 = second at digits ⊢
  generalize number / 128 % 128 = third at digits ⊢
  have low : number % 128 < 128 := Nat.mod_lt _ (by norm_num)
  generalize number % 128 = fourth at digits low ⊢
  constructor <;> omega

end Frames

section RoundTrip

variable {decoders : Decoders} {version : Id3Version}

theorem slice_written {data bytes : Bytes} (before after : Bytes) {pos count : Nat}
    (split : data = before ++ (bytes ++ after)) (isPos : pos = before.length)
    (isCount : count = bytes.length) : slice data pos count = bytes := by
  rw [slice, split, isPos, isCount, List.drop_left, List.take_left]

theorem size_bytes_length (size : Nat) : (version.sizeBytes size).length = 4 := by
  cases version with
  | v23 => exact be_bytes_length 4 size
  | v24 => rfl

theorem frame_length {frameId : Bytes} (four : frameId.length = 4) (body : Bytes) :
    (frame version frameId body).length = 10 + body.length := by
  simp only [frame, List.length_append, four, size_bytes_length, List.length_cons, List.length_nil]
  omega

theorem frame_size_read {size : Nat} (fits : size < 2 ^ 28) :
    (if 4 ≤ version.major then syncsafeU32 (version.sizeBytes size)
      else beNat (version.sizeBytes size)) = size := by
  cases version with
  | v23 =>
      rw [if_neg (by decide)]
      exact be_nat_bytes (by omega)
  | v24 =>
      rw [if_pos (by decide)]
      exact syncsafe_read fits

/-- The size of a title frame, as the scan of the frames within a chapter reads it. -/
theorem title_size_read {tagged : TaggedChapter} (small : tagged.text.length < 2 ^ 28) :
    (tagged.ReadBack version → beNat (version.sizeBytes tagged.text.length) =
      tagged.text.length) ∧
      (¬tagged.ReadBack version → tagged.text.length <
        beNat (version.sizeBytes tagged.text.length)) := by
  unfold TaggedChapter.ReadBack
  cases version with
  | v23 =>
      constructor
      · intro _
        exact be_nat_bytes (by omega)
      · intro refused
        exact absurd (.inl rfl) refused
  | v24 =>
      have plain := syncsafe_as_plain small
      constructor
      · intro readBack
        exact plain.1 (readBack.resolve_left (by decide))
      · intro refused
        exact plain.2 (not_lt.mp fun short => refused (.inr short))

/-- What the scan makes of a title: itself, or nothing where its size is read too large. -/
theorem title_extracted (faithful : decoders.Faithful) {tagged : TaggedChapter}
    (fits : tagged.Fits) (small : tagged.text.length < 2 ^ 28) :
    (extractTit2FromSubframes decoders (frame version (tag "TIT2") tagged.text) 0).getD "" =
      if tagged.ReadBack version then tagged.chapter.title else "" := by
  have least : 1 ≤ tagged.text.length := encode_text_length _ _
  have whole := @frame_length version (tag "TIT2") (by decide) tagged.text
  have frameId : slice (frame version (tag "TIT2") tagged.text) 0 4 = tag "TIT2" :=
    slice_written [] _ rfl rfl rfl
  have size : slice (frame version (tag "TIT2") tagged.text) (0 + 4) 4 =
      version.sizeBytes tagged.text.length :=
    slice_written (tag "TIT2") _ rfl rfl (size_bytes_length _).symm
  have read := @title_size_read version tagged small
  rw [extractTit2FromSubframes, if_pos (by omega)]
  simp only [size, frameId]
  by_cases readBack : tagged.ReadBack version
  · rw [if_pos readBack, read.1 readBack, if_neg (by omega)]
    by_cases titled : 1 < tagged.text.length
    · rw [if_pos ⟨trivial, titled⟩, Option.getD_some]
      have split : frame version (tag "TIT2") tagged.text =
          (tag "TIT2" ++ (version.sizeBytes tagged.text.length ++ [0, 0])) ++ tagged.text := by
        simp [frame]
      have ten : (tag "TIT2" ++ (version.sizeBytes tagged.text.length ++ [0, 0])).length = 10 := by
        simp [size_bytes_length, tag]
      have encoding : (frame version (tag "TIT2") tagged.text).getD (0 + 10) 0 =
          tagged.text.getD 0 0 := by
        rw [split, List.getD, List.getElem?_append_right (by omega), ten]
        rfl
      have text : slice (frame version (tag "TIT2") tagged.text) (0 + 11)
          (tagged.text.length - 1) = tagged.text.drop 1 := by
        have after : ((tag "TIT2" ++ (version.sizeBytes tagged.text.length ++ [0, 0])) ++
            tagged.text).drop (0 + 11) = tagged.text.drop 1 := by
          rw [show 0 + 11 = 10 + 1 from rfl, ← List.drop_drop, List.drop_left' ten]
        rw [slice, split, after, List.take_of_length_le (by rw [List.length_drop])]
      rw [encoding, text]
      exact text_decoded faithful fits.title tagged.form
    · have single : tagged.text.length = 1 := by omega
      rw [if_neg fun both => titled both.2, extractTit2FromSubframes, if_neg (by omega),
        empty_of_no_text single]
      rfl
  · have large := read.2 readBack
    rw [if_neg readBack, if_pos (.inr (by omega))]
    rfl

theorem first_nul {elementId : Bytes} (plain : ∀ byte ∈ elementId, byte ≠ 0) (rest : Bytes) :
    (elementId ++ 0 :: rest).findIdx? (· = 0) = some elementId.length := by
  induction elementId with
  | nil => simp [List.findIdx?_cons]
  | cons byte tail induction =>
      have nonzero := plain byte (by simp)
      rw [List.cons_append, List.findIdx?_cons, if_neg (by simpa using nonzero),
        induction fun other member => plain other (List.mem_cons_of_mem _ member)]
      rfl

def TaggedChapter.readAs (version : Id3Version) (tagged : TaggedChapter) : RawChapter :=
  { tagged.chapter with
    title := if tagged.ReadBack version then tagged.chapter.title else "" }

theorem body_read (faithful : decoders.Faithful) {tagged : TaggedChapter} (fits : tagged.Fits)
    (small : tagged.text.length < 2 ^ 28) :
    parseChapFrameBody decoders (chapBody version tagged) = some (tagged.readAs version) := by
  have length : (chapBody version tagged).length =
      tagged.elementId.length + 27 + tagged.text.length := by
    simp only [chapBody, List.length_append, List.length_cons, be_bytes_length, fits.offsets,
      frame_length (by decide : (tag "TIT2").length = 4)]
    omega
  have times : (chapBody version tagged).drop (tagged.elementId.length + 1) =
      beBytes 4 tagged.chapter.startMs ++ (beBytes 4 tagged.chapter.endMs ++ (tagged.offsets ++
        frame version (tag "TIT2") tagged.text)) := by
    rw [chapBody, ← List.drop_drop, List.drop_left]
    rfl
  have start : beNat ((beBytes 4 tagged.chapter.startMs ++ (beBytes 4 tagged.chapter.endMs ++
      (tagged.offsets ++ frame version (tag "TIT2") tagged.text))).take 4) =
        tagged.chapter.startMs := by
    rw [List.take_left' (be_bytes_length 4 _), be_nat_bytes fits.start]
  have stop : slice (beBytes 4 tagged.chapter.startMs ++ (beBytes 4 tagged.chapter.endMs ++
      (tagged.offsets ++ frame version (tag "TIT2") tagged.text))) 4 4 =
        beBytes 4 tagged.chapter.endMs :=
    slice_written (beBytes 4 tagged.chapter.startMs) _ rfl (be_bytes_length 4 _).symm
      (be_bytes_length 4 _).symm
  have stopRead : beNat (beBytes 4 tagged.chapter.endMs) = tagged.chapter.endMs :=
    be_nat_bytes fits.stop
  have subframes : (beBytes 4 tagged.chapter.startMs ++ (beBytes 4 tagged.chapter.endMs ++
      (tagged.offsets ++ frame version (tag "TIT2") tagged.text))).drop 16 =
        frame version (tag "TIT2") tagged.text := by
    rw [← List.append_assoc, ← List.append_assoc]
    apply List.drop_left'
    simp [fits.offsets]
  unfold parseChapFrameBody
  have found : (chapBody version tagged).findIdx? (· = 0) = some tagged.elementId.length :=
    first_nul fits.elementId _
  rw [found]
  simp only [Option.bind_eq_bind, Option.bind_some]
  rw [guard_of (by omega)]
  simp only [Option.bind_some, times, start, stop, subframes, title_extracted faithful fits small,
    stopRead]
  rfl

theorem text_within_body (tagged : TaggedChapter) :
    tagged.text.length ≤ (chapBody version tagged).length := by
  simp only [chapBody, frame, List.length_append, List.length_cons]
  omega

theorem frames_read (faithful : decoders.Faithful) (chapters : List TaggedChapter)
    (fits : ∀ tagged ∈ chapters, tagged.Fits)
    (small : (chapterFrames version chapters).length < 2 ^ 28) {data : Bytes}
    (before after : Bytes) (split : data = before ++ (chapterFrames version chapters ++ after)) :
    chapFrames decoders data version.major
        (before.length + (chapterFrames version chapters).length) before.length =
      chapters.map (·.readAs version) := by
  induction chapters generalizing before with
  | nil =>
      rw [chapFrames, if_neg (by simp [chapterFrames])]
      rfl
  | cons tagged rest induction =>
      have whole : chapterFrames version (tagged :: rest) =
          frame version (tag "CHAP") (chapBody version tagged) ++ chapterFrames version rest := by
        simp [chapterFrames]
      have length := @frame_length version (tag "CHAP") (by decide) (chapBody version tagged)
      have least : 1 ≤ tagged.text.length := encode_text_length _ _
      have textFits := @text_within_body version tagged
      rw [whole, List.length_append, length] at small ⊢
      rw [whole, List.append_assoc] at split
      have frameId : slice data before.length 4 = tag "CHAP" := by
        apply slice_written before ((version.sizeBytes (chapBody version tagged).length ++ ([0, 0] ++
          chapBody version tagged)) ++ (chapterFrames version rest ++ after)) _ rfl (by decide)
        rw [split, frame, List.append_assoc]
      have size : slice data (before.length + 4) 4 =
          version.sizeBytes (chapBody version tagged).length := by
        apply slice_written (before ++ tag "CHAP") (([0, 0] ++ chapBody version tagged) ++
          (chapterFrames version rest ++ after)) _ _ (size_bytes_length _).symm
        · rw [split, frame]
          simp only [List.append_assoc]
        · simp [tag]
      have body : slice data (before.length + 10) (chapBody version tagged).length =
          chapBody version tagged := by
        apply slice_written (before ++ (tag "CHAP" ++
          (version.sizeBytes (chapBody version tagged).length ++ [0, 0])))
          (chapterFrames version rest ++ after) _ _ rfl
        · rw [split, frame]
          simp only [List.append_assoc]
        · simp [size_bytes_length, tag]
      have later := induction (fun other member => fits other (List.mem_cons_of_mem _ member))
        (by omega) (before ++ frame version (tag "CHAP") (chapBody version tagged))
        (by rw [split, List.append_assoc])
      rw [List.length_append, length] at later
      rw [chapFrames, if_pos (by omega)]
      simp only [frameId, size, frame_size_read (by omega : (chapBody version tagged).length < 2 ^ 28)]
      rw [if_neg (by omega), if_pos trivial, body,
        body_read faithful (fits tagged (by simp)) (by omega), List.map_cons, ← later]
      simp only [Option.toList_some, List.singleton_append]
      congr 2
      · omega
      · omega

/-- What is read of a tag: its chapters as they are read from their frames, by their start. -/
theorem tag_read (faithful : decoders.Faithful) (chapters : List TaggedChapter)
    (fits : ∀ tagged ∈ chapters, tagged.Fits)
    (small : (chapterFrames version chapters).length < 2 ^ 28) (audio : Bytes) :
    (parseId3v2ChapFrames decoders (id3Tag version chapters ++ audio)).getD [] =
      (chapters.map (·.readAs version)).insertionSort (·.startMs ≤ ·.startMs) := by
  have header : (id3Tag version chapters ++ audio) = (tag "ID3" ++ [version.major, 0, 0]) ++
      (syncsafeBytes (chapterFrames version chapters).length ++
        (chapterFrames version chapters ++ audio)) := by
    simp [id3Tag]
  have ten : ((tag "ID3" ++ [version.major, 0, 0]) ++
      syncsafeBytes (chapterFrames version chapters).length).length = 10 := by
    simp [tag, syncsafeBytes]
  have split : (id3Tag version chapters ++ audio) = ((tag "ID3" ++ [version.major, 0, 0]) ++
      syncsafeBytes (chapterFrames version chapters).length) ++
        (chapterFrames version chapters ++ audio) := by
    rw [header]
    simp only [List.append_assoc]
  have length : (id3Tag version chapters ++ audio).length =
      10 + ((chapterFrames version chapters).length + audio.length) := by
    rw [split, List.length_append, ten, List.length_append]
  have magic : (id3Tag version chapters ++ audio).take 3 = tag "ID3" := by
    rw [id3Tag, List.append_assoc]
    exact List.take_left' (by decide)
  have major : (id3Tag version chapters ++ audio).getD 3 0 = version.major := rfl
  have size : slice (id3Tag version chapters ++ audio) 6 4 =
      syncsafeBytes (chapterFrames version chapters).length :=
    slice_written (tag "ID3" ++ [version.major, 0, 0]) _ header (by simp [tag]) rfl
  have tagEnd : min (10 + (chapterFrames version chapters).length)
      (id3Tag version chapters ++ audio).length = 10 + (chapterFrames version chapters).length := by
    rw [length]
    omega
  have frames := frames_read faithful chapters fits small _ _ split
  rw [ten] at frames
  unfold parseId3v2ChapFrames
  rw [guard_of ⟨by omega, magic⟩]
  simp only [Option.bind_eq_bind, Option.bind_some, major, size, syncsafe_read small, tagEnd, frames]
  by_cases isEmpty : chapters.map (·.readAs version) = []
  · rw [guard_not (not_not.mpr isEmpty), isEmpty]
    rfl
  · rw [guard_of isEmpty]
    rfl

theorem unread_titled {tagged : TaggedChapter} (unread : ¬tagged.ReadBack version) :
    tagged.chapter.title ≠ "" := by
  intro isEmpty
  apply unread
  have short := empty_title_short tagged.form
  right
  rw [TaggedChapter.text, isEmpty]
  omega

theorem read_as_eq {tagged : TaggedChapter} (readBack : tagged.ReadBack version) :
    tagged.readAs version = tagged.chapter := by
  rw [TaggedChapter.readAs, if_pos readBack]

/-- Reading leaves titles empty that are not, one for each chapter whose title is not found. -/
theorem untitled_more (version : Id3Version) (chapters : List TaggedChapter) :
    (chapters.map (·.chapter)).countP (·.title = "") ≤
        (chapters.map (·.readAs version)).countP (·.title = "") ∧
      ((chapters.map (·.chapter)).countP (·.title = "") =
        (chapters.map (·.readAs version)).countP (·.title = "") →
          ∀ tagged ∈ chapters, tagged.ReadBack version) := by
  induction chapters with
  | nil => exact ⟨le_rfl, fun _ => nofun⟩
  | cons tagged rest induction =>
      rw [List.map_cons, List.map_cons, List.countP_cons, List.countP_cons]
      by_cases readBack : tagged.ReadBack version
      · rw [read_as_eq readBack]
        constructor
        · have le := induction.1
          omega
        · intro same other member
          rcases List.mem_cons.mp member with isFirst | isLater
          · rw [isFirst]
            exact readBack
          · exact induction.2 (by omega) other isLater
      · have titled := unread_titled readBack
        have blank : (tagged.readAs version).title = "" := by
          rw [TaggedChapter.readAs, if_neg readBack]
        have le := induction.1
        rw [if_neg (by simpa using titled), if_pos (by simpa using blank)]
        constructor
        · omega
        · intro same
          omega

end RoundTrip

/-- Of any bytes no slice is taken that is not there; and the chapters a tagger writes are read
back by their start, exactly when each title frame of a 2.4 tag has a size below 128. -/
theorem tagged_chapters_read_iff (decoders : Decoders) (faithful : decoders.Faithful)
    (version : Id3Version) (chapters : List TaggedChapter)
    (fits : ∀ tagged ∈ chapters, tagged.Fits)
    (small : (chapterFrames version chapters).length < 2 ^ 28) (audio : Bytes) :
    ((∀ data, scanId3v2ChapFrames decoders data = some (parseId3v2ChapFrames decoders data)) ∧
      (parseId3v2ChapFrames decoders (id3Tag version chapters ++ audio)).getD [] =
        (chapters.map (·.chapter)).insertionSort (·.startMs ≤ ·.startMs)) ↔
      ∀ tagged ∈ chapters, version = .v23 ∨ tagged.text.length < 128 := by
  rw [tag_read faithful chapters fits small audio]
  constructor
  · intro ⟨_, same⟩
    have counts := congrArg (List.countP (·.title = "")) same
    rw [(List.perm_insertionSort _ _).countP_eq, (List.perm_insertionSort _ _).countP_eq] at counts
    exact (untitled_more version chapters).2 counts.symm
  · intro readBack
    constructor
    · exact scan_within decoders
    · congr 1
      apply List.map_congr_left
      intro tagged member
      exact read_as_eq (readBack tagged member)

section Examples

/-- `String::from_utf16_lossy`: an unpaired surrogate becomes U+FFFD. -/
def decodeUnits : List Nat → List Char
  | [] => []
  | [unit] => [if unit < 0xD800 ∨ 0xDFFF < unit then Char.ofNat unit else '\uFFFD']
  | unit :: low :: rest =>
      if unit < 0xD800 ∨ 0xDFFF < unit then Char.ofNat unit :: decodeUnits (low :: rest)
      else if unit < 0xDC00 ∧ 0xDC00 ≤ low ∧ low ≤ 0xDFFF then
        Char.ofNat (0x10000 + (unit - 0xD800) * 0x400 + (low - 0xDC00)) :: decodeUnits rest
      else '\uFFFD' :: decodeUnits (low :: rest)

theorem decode_basic (unit : Nat) (rest : List Nat) (basic : unit < 0xD800 ∨ 0xDFFF < unit) :
    decodeUnits (unit :: rest) = Char.ofNat unit :: decodeUnits rest := by
  cases rest with
  | nil =>
    change [if unit < 0xD800 ∨ 0xDFFF < unit then Char.ofNat unit else _] = [Char.ofNat unit]
    rw [if_pos basic]
  | cons low rest => rw [decodeUnits, if_pos basic]

theorem decode_pair (unit low value : Nat) (rest : List Nat)
    (high : 55296 ≤ unit ∧ unit < 56320) (isLow : 56320 ≤ low ∧ low ≤ 57343)
    (pair : 65536 + (unit - 55296) * 1024 + (low - 56320) = value) :
    decodeUnits (unit :: low :: rest) = Char.ofNat value :: decodeUnits rest := by
  rw [decodeUnits, if_neg (by omega), if_pos ⟨high.2, isLow.1, isLow.2⟩, pair]

theorem decode_char (char : Char) (rest : List Nat) :
    decodeUnits (charUnits char ++ rest) = char :: decodeUnits rest := by
  have range := char_in_range char
  unfold charUnits
  split_ifs with basic
  · rw [List.singleton_append, decode_basic _ _ (by omega), Char.ofNat_toNat]
  · change decodeUnits (_ :: _ :: rest) = _
    rw [decode_pair _ _ char.toNat rest (by omega) (by omega) (by omega), Char.ofNat_toNat]

theorem decode_units (chars : List Char) : decodeUnits (chars.flatMap charUnits) = chars := by
  induction chars with
  | nil => rfl
  | cons char rest induction => rw [List.flatMap_cons, decode_char, induction]

def strictDecoders : Decoders where
  utf8Lossy bytes := (String.fromUTF8? bytes.toByteArray).getD ""
  utf16Lossy units := String.ofList (decodeUnits units)

theorem strict_decoders_faithful : strictDecoders.Faithful := by
  constructor
  · intro title
    have bytes : (utf8Bytes title).toByteArray = title.toByteArray := String.utf8Encode_toList
    change (String.fromUTF8? (utf8Bytes title).toByteArray).getD "" = title
    rw [bytes, String.fromUTF8?, dif_pos title.isValidUTF8]
    rfl
  · intro title
    change String.ofList (decodeUnits (utf16Units title)) = title
    rw [utf16Units, decode_units, String.ofList_toList]

def lettered (letters : Nat) : TaggedChapter :=
  ⟨[0x63], ⟨String.ofList (List.replicate letters 'a'), 0, 1000⟩, List.replicate 8 0xFF, .utf8⟩

theorem lettered_letters (letters : Nat) :
    (lettered letters).chapter.title.toList = List.replicate letters 'a' := String.toList_ofList

theorem lettered_text (letters : Nat) : (lettered letters).text.length = letters + 1 := by
  have oneByte : (String.utf8EncodeChar 'a').length = 1 := rfl
  change (3 :: utf8Bytes (lettered letters).chapter.title).length = _
  rw [List.length_cons, utf8Bytes, lettered_letters, List.length_flatMap, List.map_replicate,
    oneByte]
  simp

theorem lettered_fits (letters : Nat) (few : letters ≤ 127) : (lettered letters).Fits ∧
    (chapterFrames .v24 [lettered letters]).length < 2 ^ 28 := by
  constructor
  · refine ⟨by simp [lettered], rfl, by norm_num [lettered], by norm_num [lettered], ?_⟩
    intro char member
    rw [lettered_letters] at member
    rw [List.eq_of_mem_replicate member]
    decide
  · have framed (frameId body : Bytes) :
        (frame .v24 frameId body).length = frameId.length + 6 + body.length := by
      simp [frame, Id3Version.sizeBytes, syncsafeBytes]
      omega
    simp only [chapterFrames, List.map_singleton, List.flatten_cons, List.flatten_nil,
      List.length_append, List.length_nil, framed, chapBody, List.length_cons, be_bytes_length,
      lettered_text]
    change 4 + 6 + (1 + (4 + (4 + (8 + (4 + 6 + (letters + 1)))) + 1)) + 0 < 2 ^ 28
    omega

/-- A title of 126 letters in a 2.4 tag, the longest that is found. -/
theorem tagged_chapters_read_iff_short :
    (parseId3v2ChapFrames strictDecoders (id3Tag .v24 [lettered 126] ++ [])).getD [] =
      [(lettered 126).chapter] := by
  have fits := lettered_fits 126 (by omega)
  refine ((tagged_chapters_read_iff strictDecoders strict_decoders_faithful .v24 [lettered 126]
    ?_ fits.2 []).mpr ?_).2
  · intro tagged member
    rw [List.mem_singleton] at member
    rw [member]
    exact fits.1
  · intro tagged member
    rw [List.mem_singleton] at member
    rw [member, lettered_text]
    decide

/-- A title of 127 letters is lost: the scan reads the size 128 of its frame as 256. -/
theorem long_title_lost :
    (lettered 127).Fits ∧ (chapterFrames .v24 [lettered 127]).length < 2 ^ 28 ∧
      (parseId3v2ChapFrames strictDecoders (id3Tag .v24 [lettered 127] ++ [])).getD [] =
        [⟨"", 0, 1000⟩] ∧ (lettered 127).chapter.title ≠ "" := by
  have fits := lettered_fits 127 (by omega)
  refine ⟨fits.1, fits.2, ?_, by decide +kernel⟩
  have read := tag_read strict_decoders_faithful [lettered 127] (by
    intro tagged member
    rw [List.mem_singleton] at member
    rw [member]
    exact fits.1) fits.2 []
  rw [read]
  decide +kernel

end Examples

end Omnibus.Audiobooks
