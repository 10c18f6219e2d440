import Omnibus.CrossFormat.Declare
import Omnibus.Library.Runs

/-!
# The link row and the calls that write it

`cross_format/mapping.rs`, `order.rs`, `link.rs` and `declare.rs`: the audio timeline of a
linked book, a confirmation, and a declaration cut into the reads it makes before its write
transaction. One user and one book; a world is the rows they share and where each call is.
-/

namespace Omnibus.CrossFormat

structure AudioFile where
  bookFileId : Int
  scanKey : String
  sizeBytes : Int
  mtimeEpoch : Int
  durationSeconds : ℚ
  deriving DecidableEq, Repr

/-- `file_etag`, before its two numbers are written out in hex. -/
def AudioFile.etag (file : AudioFile) : Option (Int × Int) :=
  if file.sizeBytes < 0 || file.mtimeEpoch < 0 then none
  else if file.sizeBytes = 0 && file.mtimeEpoch = 0 then none
  else some (file.mtimeEpoch, file.sizeBytes)

abbrev Snapshot := List (String × Option (Int × Int))

/-- `snapshot_json`, before it is written out. -/
def snapshot (files : List AudioFile) : Snapshot :=
  files.map fun file => (file.scanKey, file.etag)

inductive Mode where
  | sequence
  | narrations
  deriving DecidableEq, Repr

structure Ruler where
  audioSnapshot : Snapshot
  mode : Mode
  primaryBookFileId : Option Int
  deriving DecidableEq, Repr

/-- A stored pair. The row holds the pair alone; the ruler is where it came from. -/
structure Measured where
  pair : Pair
  ruler : Ruler
  deriving DecidableEq, Repr

/-- A `cross_format_links` row. -/
structure Link where
  mode : Mode
  primaryBookFileId : Option Int
  audioSnapshot : Snapshot
  follow : Bool
  userAnchors : List Measured
  deriving DecidableEq, Repr

def Link.ruler (link : Link) : Ruler := ⟨link.audioSnapshot, link.mode, link.primaryBookFileId⟩

structure TimelineFile where
  bookFileId : Int
  startSeconds : ℚ
  durationSeconds : ℚ
  deriving DecidableEq, Repr

structure AudioTimeline where
  files : List TimelineFile
  totalSeconds : ℚ
  deriving DecidableEq, Repr

/-- The files one after another from `start`. -/
def concatenated (start : ℚ) : List AudioFile → List TimelineFile
  | [] => []
  | file :: rest =>
      ⟨file.bookFileId, start, max 0 file.durationSeconds⟩ ::
        concatenated (start + max 0 file.durationSeconds) rest

/-- `audio_timeline`, of the files as they are read. -/
def audioTimeline (all : List AudioFile) (link : Link) : Option AudioTimeline :=
  let selected : Option (List AudioFile) :=
    match link.mode with
    | .sequence => some all
    | .narrations => link.primaryBookFileId.map fun primary =>
        all.filter fun file => file.bookFileId = primary
  match selected with
  | none => none
  | some selected =>
      let total := (selected.map fun file => max 0 file.durationSeconds).sum
      if selected.isEmpty || total ≤ 0 then none else some ⟨concatenated 0 selected, total⟩

def audioFraction (timeline : AudioTimeline) (bookFileId : Int) (secondsWithin : ℚ) : Option ℚ :=
  match timeline.files.find? (·.bookFileId = bookFileId) with
  | none => none
  | some file =>
      if timeline.totalSeconds ≤ 0 then none
      else
        let within := max 0 (min file.durationSeconds secondsWithin)
        some (clamp ((file.startSeconds + within) / timeline.totalSeconds))

/-- The two spots a declaration pairs, from the surface that declares and the other format's
stored row. -/
structure Spot where
  textFrac : ℚ
  bookFileId : Option Int
  seconds : ℚ
  deriving DecidableEq, Repr

/-- `declared_pair` on a timeline. -/
def declaredPair (timeline : AudioTimeline) (spot : Spot) : Option Pair :=
  let only := if timeline.files.length = 1 then timeline.files.head?.map (·.bookFileId) else none
  match spot.bookFileId.or only with
  | none => none
  | some fileId =>
      (audioFraction timeline fileId spot.seconds).map fun frac =>
        (spot.textFrac, frac * timeline.totalSeconds)

/-- `store_anchor` over measured pairs. -/
def storeMeasured (stored : List Measured) (declared : Measured) : List Measured :=
  (stored.filter (fun anchor =>
      syncPointReplaceSlack ≤ |anchor.pair.1 - declared.pair.1|) ++ [declared]).insertionSort
    fun left right => left.pair.1 ≤ right.pair.1

/-- `apply_audio_order_tx`: the files in the order named, if it names exactly them. -/
def applyAudioOrder (order : List Int) (files : List AudioFile) : Option (List AudioFile) :=
  let current := files.map (·.bookFileId)
  if order.Nodup ∧ (∀ id ∈ order, id ∈ current) ∧ ∀ id ∈ current, id ∈ order then
    some (order.filterMap fun id => files.find? (·.bookFileId = id))
  else none

/-- The row `confirm_link` writes over the stored one. -/
def confirmed (mode : Mode) (primary : Option Int) (taken : Snapshot) (stored : Option Link) :
    Link where
  mode := mode
  primaryBookFileId := primary
  audioSnapshot := taken
  follow := true
  userAnchors :=
    match stored with
    | none => []
    | some link =>
        if link.audioSnapshot = taken ∧ link.mode = mode ∧
            link.primaryBookFileId.getD (-1) = primary.getD (-1) then link.userAnchors
        else []

/-- `auto_sequence_link`, of the files as they are read. -/
def autoSequenceLink (files : List AudioFile) : Option Link :=
  if files.length = 1 then some ⟨.sequence, none, snapshot files, true, []⟩ else none

/-- A declaration's own copy of the link, whether it is to insert it, and how many
confirmations had committed when it was read. -/
structure Reading where
  link : Link
  createdHere : Bool
  confirmsSeen : Nat
  deriving DecidableEq, Repr

/-- Where a `declare_sync_point` call is. -/
inductive Phase where
  | start
  | unlinked
  | read (reading : Reading)
  | checked (reading : Reading)
  | resolved (reading : Reading) (declared : Measured)
  | committed (declared : Measured)
  | refused
  deriving DecidableEq, Repr

structure World (Call : Type*) where
  link : Option Link
  files : List AudioFile
  phases : Call → Phase
  /-- How many confirmations have committed. -/
  confirms : Nat

inductive Action (Call : Type*) where
  | getLink (call : Call)
  | autoLink (call : Call)
  | linkIsStale (call : Call)
  | resolve (call : Call)
  | store (call : Call)
  | confirmLink (mode : Mode) (primary : Option Int) (order : Option (List Int))
  deriving DecidableEq, Repr

section Step

variable {Call : Type*} [DecidableEq Call]

def World.enter (world : World Call) (call : Call) (phase : Phase) : World Call :=
  { world with phases := Function.update world.phases call phase }

def storeStep (world : World Call) (call : Call) (reading : Reading) (declared : Measured) :
    World Call :=
  if reading.createdHere then
    match world.link with
    -- the plain INSERT trips the unique key and the declaration rolls back
    | some _ => world.enter call .refused
    | none =>
        { world.enter call (.committed declared) with
          link := some { reading.link with
            userAnchors := storeMeasured reading.link.userAnchors declared } }
  else
    { world.enter call (.committed declared) with
      link := world.link.map fun stored =>
        { stored with userAnchors := storeMeasured reading.link.userAnchors declared } }

/-- The write transaction of a confirmation; an order that does not name the files leaves
everything as it was. -/
def confirmStep (world : World Call) (mode : Mode) (primary : Option Int)
    (order : Option (List Int)) : World Call :=
  let reordered :=
    match order with
    | none => some world.files
    | some order => applyAudioOrder order world.files
  match reordered with
  | none => world
  | some files =>
      { world with
        files := files
        link := some (confirmed mode primary (snapshot files) world.link)
        confirms := world.confirms + 1 }

/-- One read or one transaction of one call. -/
def step (spots : Call → Spot) (world : World Call) : Action Call → Option (World Call)
  | .getLink call =>
      match world.phases call with
      | .start =>
          match world.link with
          | some link => some (world.enter call (.read ⟨link, false, world.confirms⟩))
          | none => some (world.enter call .unlinked)
      | _ => none
  | .autoLink call =>
      match world.phases call with
      | .unlinked =>
          match autoSequenceLink world.files with
          | some link => some (world.enter call (.read ⟨link, true, world.confirms⟩))
          | none => some (world.enter call .refused)
      | _ => none
  | .linkIsStale call =>
      match world.phases call with
      | .read reading =>
          if snapshot world.files = reading.link.audioSnapshot then
            some (world.enter call (.checked reading))
          else some (world.enter call .refused)
      | _ => none
  | .resolve call =>
      match world.phases call with
      | .checked reading =>
          match (audioTimeline world.files reading.link).bind fun timeline =>
              declaredPair timeline (spots call) with
          | some pair =>
              some (world.enter call (.resolved reading ⟨pair, snapshot world.files,
                reading.link.mode, reading.link.primaryBookFileId⟩))
          | none => some (world.enter call .refused)
      | _ => none
  | .store call =>
      match world.phases call with
      | .resolved reading declared => some (storeStep world call reading declared)
      | _ => none
  | .confirmLink mode primary order => some (confirmStep world mode primary order)

end Step

theorem mem_store_measured (stored : List Measured) (declared anchor : Measured) :
    anchor ∈ storeMeasured stored declared ↔
      (anchor ∈ stored ∧ syncPointReplaceSlack ≤ |anchor.pair.1 - declared.pair.1|) ∨
        anchor = declared := by
  rw [storeMeasured, (List.perm_insertionSort _ _).mem_iff]
  simp

end Omnibus.CrossFormat
