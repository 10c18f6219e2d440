import Mathlib.Data.List.Basic
import Mathlib.Data.Nat.Notation
import Mathlib.Data.String.Basic

/-!
# MP4 boxes and sample tables

The reads that a QuickTime chapter track is found and timed by. A file is its bytes, a read
past its end fails, and offsets are `u64`s whose sums are checked.
-/

namespace Omnibus.Audiobooks

abbrev Bytes := List UInt8

section Reads

/-- `seek` and `read_exact`. -/
def readExact (data : Bytes) (pos count : Nat) : Option Bytes :=
  if count = 0 then some []
  else if pos + count ≤ data.length then some ((data.drop pos).take count)
  else none

/-- The number whose big-endian bytes these are. -/
def beNat (bytes : Bytes) : Nat := bytes.foldl (fun number byte => number * 256 + byte.toNat) 0

def checkedAdd (left right : Nat) : Option Nat :=
  if left + right < 2 ^ 64 then some (left + right) else none

/-- `as_chunks`, without the remainder. -/
def chunksOf (size : Nat) (bytes : Bytes) : List Bytes :=
  (List.range (bytes.length / size)).map fun index => (bytes.drop (index * size)).take size

def tag (letters : String) : Bytes := letters.toList.map fun letter => UInt8.ofNat letter.toNat

end Reads

section Boxes

structure BoxInfo where
  dataOffset : Nat
  dataSize : Nat
  deriving DecidableEq, Repr

def readBoxHeader (data : Bytes) (pos stop : Nat) : Option (Bytes × BoxInfo × Nat) := do
  guard ((← checkedAdd pos 8) ≤ stop)
  let header ← readExact data pos 8
  let size := beNat (header.take 4)
  let (boxSize, dataOffset) ←
    if size = 1 then do
      -- the size follows in 64 bits
      let ext ← readExact data (pos + 8) 8
      pure (beNat ext, ← checkedAdd pos 16)
    else if size = 0 then do
      guard (pos ≤ stop)
      pure (stop - pos, ← checkedAdd pos 8)
    else do
      pure (size, ← checkedAdd pos 8)
  let headerLen := dataOffset - pos
  guard (headerLen ≤ boxSize)
  guard ((← checkedAdd pos boxSize) ≤ stop)
  pure (header.drop 4, ⟨dataOffset, boxSize - headerLen⟩, boxSize)

def advance (pos boxSize : Nat) : Option Nat := (checkedAdd pos boxSize).filter (pos < ·)

theorem checked_add_eq_some {left right sum : Nat} (added : checkedAdd left right = some sum) :
    sum = left + right := by
  unfold checkedAdd at added
  split at added
  · exact (Option.some.inj added).symm
  · exact absurd added (by simp)

theorem guard_eq_some {condition : Prop} [Decidable condition] {done : Unit}
    (guarded : (guard condition : Option Unit) = some done) : condition := by
  by_contra fails
  simp [guard, fails] at guarded

theorem read_box_header_inside {data : Bytes} {pos stop : Nat} {found : Bytes × BoxInfo × Nat}
    (header : readBoxHeader data pos stop = some found) : pos < stop := by
  unfold readBoxHeader at header
  obtain ⟨after, sum, header⟩ := Option.bind_eq_some_iff.mp header
  obtain ⟨_, inside, _⟩ := Option.bind_eq_some_iff.mp header
  have within := guard_eq_some inside
  rw [checked_add_eq_some sum] at within
  omega

theorem advance_after {pos boxSize next : Nat} (advanced : advance pos boxSize = some next) :
    pos < next := by
  simpa using (Option.filter_eq_some_iff.mp advanced).2

/-- The loop of `find_child_box`. -/
def findBoxFrom (data : Bytes) (stop : Nat) (target : Bytes) (pos : Nat) : Option BoxInfo :=
  match _header : readBoxHeader data pos stop with
  | none => none
  | some (boxType, info, boxSize) =>
      if boxType = target then some info
      else
        match _advanced : advance pos boxSize with
        | none => none
        | some next => findBoxFrom data stop target next
termination_by stop - pos
decreasing_by
  have inside := read_box_header_inside _header
  have after := advance_after _advanced
  omega

def findChildBox (data : Bytes) (parent : BoxInfo) (target : Bytes) : Option BoxInfo := do
  findBoxFrom data (← checkedAdd parent.dataOffset parent.dataSize) target parent.dataOffset

def readU32InBox (data : Bytes) (info : BoxInfo) (offset : Nat) : Option Nat := do
  guard ((← checkedAdd offset 4) ≤ info.dataSize)
  return beNat (← readExact data (← checkedAdd info.dataOffset offset) 4)

def boxVersion (data : Bytes) (info : BoxInfo) : Option UInt8 := do
  guard (4 ≤ info.dataSize)
  (← readExact data info.dataOffset 1).head?

end Boxes

section Tables

def maxChapters : Nat := 10000

/-- The entries of a sample table, each of `entrySize` bytes. -/
def readTable (data : Bytes) (info : BoxInfo) (entrySize : Nat) : Option (List Bytes) := do
  let count ← readU32InBox data info 4
  guard (count ≤ maxChapters)
  let wanted := count * entrySize
  guard (8 ≤ info.dataSize)
  guard (wanted ≤ info.dataSize - 8)
  return chunksOf entrySize (← readExact data (← checkedAdd info.dataOffset 8) wanted)

def mediaHandler (data : Bytes) (mdia : BoxInfo) : Option Bytes := do
  let hdlr ← findChildBox data mdia (tag "hdlr")
  guard ((← checkedAdd 8 4) ≤ hdlr.dataSize)
  readExact data (← checkedAdd hdlr.dataOffset 8) 4

def mediaTimescale (data : Bytes) (mdia : BoxInfo) : Option Nat := do
  let mdhd ← findChildBox data mdia (tag "mdhd")
  let offset := if (← boxVersion data mdhd) = 1 then 20 else 12
  (readU32InBox data mdhd offset).filter (0 < ·)

def ticksToMs (ticks timescale : Nat) : Option Nat :=
  if ticks * 1000 / timescale < 2 ^ 64 then some (ticks * 1000 / timescale) else none

/-- The samples of one `stts` entry; the starts so far and where the next one starts. -/
def pushSamples (delta : Nat) : Nat → List Nat × Nat → Option (List Nat × Nat)
  | 0, reached => some reached
  | count + 1, (starts, cursor) =>
      -- a full list ends the whole walk, as no later entry adds to it either
      if maxChapters ≤ starts.length then some (starts, cursor)
      else do pushSamples delta count (starts ++ [cursor], ← checkedAdd cursor delta)

def sampleStarts (entries : List (Nat × Nat)) : Option (List Nat) := do
  let reached ← entries.foldlM (fun reached entry => pushSamples entry.2 entry.1 reached) ([], 0)
  return reached.1

/-- Each sample ends where the next one starts; the last has the end `0`. -/
def timesFrom (timescale : Nat) : List Nat → Option (List (Nat × Nat))
  | [] => some []
  | [start] => do
      return [(← ticksToMs start timescale, 0)]
  | start :: next :: rest => do
      let startMs ← ticksToMs start timescale
      let nextMs ← ticksToMs next timescale
      return (startMs, nextMs) :: (← timesFrom timescale (next :: rest))

def sampleTimes (data : Bytes) (stbl : BoxInfo) (timescale : Nat) :
    Option (List (Nat × Nat)) := do
  let stts ← findChildBox data stbl (tag "stts")
  let table ← readTable data stts 8
  let starts ← sampleStarts (table.map fun entry => (beNat (entry.take 4), beNat (entry.drop 4)))
  timesFrom timescale starts

def sampleSizes (data : Bytes) (stbl : BoxInfo) : Option (List Nat) := do
  let stsz ← findChildBox data stbl (tag "stsz")
  let uniform ← readU32InBox data stsz 4
  let count ← readU32InBox data stsz 8
  guard (count ≤ maxChapters)
  if 0 < uniform then return List.replicate count uniform
  let wanted := count * 4
  guard (12 ≤ stsz.dataSize)
  guard (wanted ≤ stsz.dataSize - 12)
  let sizes ← readExact data (← checkedAdd stsz.dataOffset 12) wanted
  return (chunksOf 4 sizes).map beNat

def chunkOffsets (data : Bytes) (stbl : BoxInfo) : Option (List Nat) :=
  match findChildBox data stbl (tag "stco") with
  | some stco => (readTable data stco 4).map (·.map beNat)
  | none => do
      let co64 ← findChildBox data stbl (tag "co64")
      return (← readTable data co64 8).map beNat

/-- The runs from the last one that starts at or before a chunk. -/
def runsAt (chunkNum : Nat) : List (Nat × Nat) → List (Nat × Nat)
  | current :: next :: rest =>
      if next.1 ≤ chunkNum then runsAt chunkNum (next :: rest) else current :: next :: rest
  | runs => runs

/-- The samples of one chunk, and the sizes that are left. -/
def chunkSamples : Nat → Nat → List Nat → Option (List (Nat × Nat) × List Nat)
  | 0, _, sizes => some ([], sizes)
  | _ + 1, _, [] => some ([], [])
  | count + 1, offset, size :: sizes => do
      let (locations, left) ← chunkSamples count (← checkedAdd offset size) sizes
      return ((offset, size) :: locations, left)

def locateSamples (chunkNum : Nat) (runs : List (Nat × Nat)) (sizes : List Nat) :
    List Nat → Option (List (Nat × Nat))
  | [] => some []
  | chunkOffset :: chunks => do
      let runs := runsAt chunkNum runs
      let (_, perChunk) ← runs.head?
      let (locations, left) ← chunkSamples perChunk chunkOffset sizes
      if left = [] then return locations
      return locations ++ (← locateSamples (chunkNum + 1) runs left chunks)

def sampleLocations (data : Bytes) (stbl : BoxInfo) : Option (List (Nat × Nat)) := do
  let sizes ← sampleSizes data stbl
  let chunks ← chunkOffsets data stbl
  let stsc ← findChildBox data stbl (tag "stsc")
  let table ← readTable data stsc 12
  let runs := table.map fun entry => (beNat (entry.take 4), beNat ((entry.drop 4).take 4))
  locateSamples 1 runs sizes chunks

end Tables

end Omnibus.Audiobooks
