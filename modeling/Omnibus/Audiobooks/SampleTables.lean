import Mathlib.Algebra.Order.BigOperators.Group.List
import Mathlib.Algebra.Group.Action.Defs
import Omnibus.Audiobooks.BoxWalk
import Omnibus.Audiobooks.Chapters

/-!
# The sample tables written and resolved

A track's tables as a muxer writes them, and what `sample_locations` and `sample_times` make of
them: where each sample lies and when it starts.
-/

namespace Omnibus.Audiobooks

section Written

inductive SizeTable where
  | uniform (size count : UInt32) (positive : 0 < size.toNat)
  | each (sizes : List UInt32)

inductive ChunkTable where
  | stco (offsets : List UInt32)
  | co64 (offsets : List UInt64)

/-- An entry of `stsc`: the chunk it holds from, the samples of each chunk, and the index of their
description. -/
structure ChunkRun where
  firstChunk : UInt32
  perChunk : UInt32
  description : UInt32

structure SampleTables where
  stsz : SizeTable
  chunks : ChunkTable
  stsc : List ChunkRun
  stts : List (UInt32 × UInt32)

def SizeTable.sizes : SizeTable → List Nat
  | .uniform size count _ => List.replicate count.toNat size.toNat
  | .each sizes => sizes.map (·.toNat)

def ChunkTable.offsets : ChunkTable → List Nat
  | .stco offsets => offsets.map (·.toNat)
  | .co64 offsets => offsets.map (·.toNat)

def tableBody (entries : List Bytes) : Bytes := beBytes 4 entries.length ++ entries.flatten

def SizeTable.body : SizeTable → Bytes
  | .uniform size count _ => beBytes 4 size.toNat ++ beBytes 4 count.toNat
  | .each sizes => beBytes 4 0 ++ tableBody (sizes.map fun size => beBytes 4 size.toNat)

def ChunkRun.entry (run : ChunkRun) : Bytes :=
  beBytes 4 run.firstChunk.toNat ++ (beBytes 4 run.perChunk.toNat ++ beBytes 4 run.description.toNat)

def timeEntry (run : UInt32 × UInt32) : Bytes := beBytes 4 run.1.toNat ++ beBytes 4 run.2.toNat

/-- The box found of a type is a full box with this body, whatever else follows in it. -/
def HasTable (data : Bytes) (stbl : BoxInfo) (letters : String) (body : Bytes) : Prop :=
  ∃ info flags more, findChildBox data stbl (tag letters) = some info ∧ flags.length = 4 ∧
    (data.drop info.dataOffset).take info.dataSize = flags ++ (body ++ more)

def HasChunks (data : Bytes) (stbl : BoxInfo) : ChunkTable → Prop
  | .stco offsets =>
      HasTable data stbl "stco" (tableBody (offsets.map fun offset => beBytes 4 offset.toNat))
  | .co64 offsets => findChildBox data stbl (tag "stco") = none ∧
      HasTable data stbl "co64" (tableBody (offsets.map fun offset => beBytes 8 offset.toNat))

/-- The tables are those of the `stbl` box. -/
structure Describes (data : Bytes) (stbl : BoxInfo) (tables : SampleTables) : Prop where
  stsz : HasTable data stbl "stsz" tables.stsz.body
  chunks : HasChunks data stbl tables.chunks
  stsc : HasTable data stbl "stsc" (tableBody (tables.stsc.map ChunkRun.entry))
  stts : HasTable data stbl "stts" (tableBody (tables.stts.map timeEntry))

/-- The runs of `stsc` start at the first chunk and ascend. -/
def Ascending (runs : List ChunkRun) : Prop :=
  (runs.head?.map (·.firstChunk.toNat)) = some 1 ∧
    runs.Pairwise (·.firstChunk.toNat < ·.firstChunk.toNat)

end Written

section Expected

/-- The samples of a chunk: the last run that starts at or before it says how many. -/
def samplesPer (runs : List (Nat × Nat)) (chunkNum : Nat) : Nat :=
  ((runs.filter (·.1 ≤ chunkNum)).getLast?.map (·.2)).getD 0

/-- The places of the samples in order: the offset of a place's chunk and the samples before it
in the chunk. -/
def slotsFrom (runs : List (Nat × Nat)) : Nat → List Nat → List (Nat × Nat)
  | _, [] => []
  | chunkNum, offset :: chunks =>
      (List.range (samplesPer runs chunkNum)).map (offset, ·) ++ slotsFrom runs (chunkNum + 1) chunks

/-- A sample lies after the earlier ones of its chunk, which are those just before it. -/
def spanOf (sizes : List Nat) (placed : ((Nat × Nat) × Nat) × Nat) : Nat × Nat :=
  match placed with
  | (((offset, earlier), size), index) =>
      (offset + ((sizes.drop (index - earlier)).take earlier).sum, size)

/-- The offset and the size of each sample that has both a place and a size. -/
def SampleTables.locations (tables : SampleTables) : List (Nat × Nat) :=
  let runs := tables.stsc.map fun run => (run.firstChunk.toNat, run.perChunk.toNat)
  ((slotsFrom runs 1 tables.chunks.offsets).zip tables.stsz.sizes).zipIdx.map
    (spanOf tables.stsz.sizes)

def durationsOf (runs : List (UInt32 × UInt32)) : List Nat :=
  runs.flatMap fun run => List.replicate run.1.toNat run.2.toNat

/-- The starts of the first samples in milliseconds, as many as are read. -/
def SampleTables.starts (tables : SampleTables) (timescale : Nat) : List Nat :=
  let durations := durationsOf tables.stts
  (List.range (min maxChapters durations.length)).map fun index =>
    (durations.take index).sum * 1000 / timescale

end Expected

section Reading

variable {data : Bytes} {info : BoxInfo}

theorem read_in_payload (before bytes after : Bytes) (filled : 0 < before.length)
    (payload : (data.drop info.dataOffset).take info.dataSize = before ++ (bytes ++ after)) :
    readExact data (info.dataOffset + before.length) bytes.length = some bytes ∧
      before.length + bytes.length ≤ info.dataSize ∧
        info.dataOffset + before.length ≤ data.length := by
  have length := congrArg List.length payload
  simp only [List.length_take, List.length_drop, List.length_append] at length
  have taken : (data.take info.dataOffset).length = info.dataOffset := by
    rw [List.length_take]
    omega
  constructor
  · apply read_exact_at (data.take info.dataOffset ++ before)
      (after ++ (data.drop info.dataOffset).drop info.dataSize) _ (by simp [taken]) rfl
    calc data = data.take info.dataOffset ++ data.drop info.dataOffset :=
          (List.take_append_drop _ _).symm
      _ = data.take info.dataOffset ++ ((data.drop info.dataOffset).take info.dataSize ++
          (data.drop info.dataOffset).drop info.dataSize) := by
            rw [List.take_append_drop info.dataSize]
      _ = _ := by rw [payload]; simp only [List.append_assoc]
  · omega

theorem read_u32_in_payload (addressed : data.length < 2 ^ 64) (before after : Bytes)
    {offset number : Nat} (isOffset : before.length = offset) (filled : 0 < offset)
    (small : number < 2 ^ 32)
    (payload : (data.drop info.dataOffset).take info.dataSize =
      before ++ (beBytes 4 number ++ after)) : readU32InBox data info offset = some number := by
  obtain ⟨read, inside, inData⟩ := read_in_payload before _ after (by omega) payload
  rw [be_bytes_length] at read inside
  rw [isOffset] at read inside inData
  have length := congrArg List.length payload
  simp only [List.length_take, List.length_drop, List.length_append, be_bytes_length] at length
  have sum : checkedAdd info.dataOffset offset = some (info.dataOffset + offset) :=
    checked_add_of_lt (by omega)
  have stop : checkedAdd offset 4 = some (offset + 4) := checked_add_of_lt (by omega)
  unfold readU32InBox
  rw [stop, sum]
  simp only [Option.bind_eq_bind, Option.bind_some, guard_of inside, read]
  exact congrArg some (be_nat_bytes small)

theorem flatten_length {entries : List Bytes} {entrySize : Nat}
    (sized : ∀ entry ∈ entries, entry.length = entrySize) :
    entries.flatten.length = entries.length * entrySize := by
  rw [List.length_flatten, List.map_congr_left sized, List.map_const', List.sum_replicate,
    smul_eq_mul]

theorem read_entries_of (addressed : data.length < 2 ^ 64) (before after : Bytes)
    {entries : List Bytes} (entrySize offset : Nat) (isOffset : before.length = offset)
    (filled : 0 < offset) (sized : ∀ entry ∈ entries, entry.length = entrySize)
    (payload : (data.drop info.dataOffset).take info.dataSize =
      before ++ (entries.flatten ++ after)) :
    offset ≤ info.dataSize ∧ entries.length * entrySize ≤ info.dataSize - offset ∧
      checkedAdd info.dataOffset offset = some (info.dataOffset + offset) ∧
      readExact data (info.dataOffset + offset) (entries.length * entrySize) =
        some entries.flatten := by
  have total := flatten_length sized
  obtain ⟨read, inside, inData⟩ := read_in_payload before _ after (by omega) payload
  rw [total, isOffset] at read inside
  rw [isOffset] at inData
  exact ⟨by omega, by omega, checked_add_of_lt (by omega), read⟩

theorem read_table_of (addressed : data.length < 2 ^ 64) (flags more : Bytes)
    {entries : List Bytes} {entrySize : Nat} (flagged : flags.length = 4)
    (positive : 0 < entrySize) (sized : ∀ entry ∈ entries, entry.length = entrySize)
    (few : entries.length ≤ maxChapters)
    (payload : (data.drop info.dataOffset).take info.dataSize =
      flags ++ (tableBody entries ++ more)) : readTable data info entrySize = some entries := by
  have small : entries.length < 2 ^ 32 := few.trans_lt (by norm_num [maxChapters])
  rw [tableBody, List.append_assoc] at payload
  have counted : readU32InBox data info 4 = some entries.length :=
    read_u32_in_payload addressed flags _ flagged (by omega) small payload
  rw [← List.append_assoc] at payload
  obtain ⟨header, inside, sum, read⟩ := read_entries_of addressed _ more entrySize 8
    (by simp [flagged]) (by omega) sized payload
  unfold readTable
  rw [counted]
  simp only [Option.bind_eq_bind, Option.bind_some, guard_of few, guard_of header, guard_of inside,
    sum, read]
  exact congrArg some (chunks_of_flatten positive sized)

theorem table_read_of (addressed : data.length < 2 ^ 64) {stbl : BoxInfo} {letters : String}
    {entries : List Bytes} (entrySize : Nat) (positive : 0 < entrySize)
    (sized : ∀ entry ∈ entries, entry.length = entrySize) (few : entries.length ≤ maxChapters)
    (has : HasTable data stbl letters (tableBody entries)) :
    ∃ info, findChildBox data stbl (tag letters) = some info ∧
      readTable data info entrySize = some entries := by
  obtain ⟨info, flags, more, found, flagged, payload⟩ := has
  exact ⟨info, found, read_table_of addressed flags more flagged positive sized few payload⟩

theorem table_refused (addressed : data.length < 2 ^ 64) {stbl : BoxInfo} {letters : String}
    {entries : List Bytes} (entrySize : Nat) (many : maxChapters < entries.length)
    (small : entries.length < 2 ^ 32) (has : HasTable data stbl letters (tableBody entries)) :
    ∃ info, findChildBox data stbl (tag letters) = some info ∧
      readTable data info entrySize = none := by
  obtain ⟨info, flags, more, found, flagged, payload⟩ := has
  rw [tableBody, List.append_assoc] at payload
  have counted : readU32InBox data info 4 = some entries.length :=
    read_u32_in_payload addressed flags _ flagged (by omega) small payload
  refine ⟨info, found, ?_⟩
  unfold readTable
  rw [counted]
  simp [guard, not_le.mpr many]

theorem word_lt (word : UInt32) : word.toNat < 256 ^ 4 := word.toNat_lt

theorem long_lt (long : UInt64) : long.toNat < 256 ^ 8 := by
  calc long.toNat < 2 ^ 64 := long.toNat_lt
    _ = 256 ^ 8 := by norm_num

theorem be_nat_map {Item : Type} (width : Nat) (value : Item → Nat)
    (fits : ∀ item, value item < 256 ^ width) (items : List Item) :
    (items.map fun item => beBytes width (value item)).map beNat = items.map value := by
  rw [List.map_map]
  apply List.map_congr_left
  intro item _
  exact be_nat_bytes (fits item)

theorem read_sizes_of (addressed : data.length < 2 ^ 64) {stbl : BoxInfo} {table : SizeTable}
    (has : HasTable data stbl "stsz" table.body) (few : table.sizes.length ≤ maxChapters) :
    sampleSizes data stbl = some table.sizes := by
  obtain ⟨info, flags, more, found, flagged, payload⟩ := has
  have small : table.sizes.length < 2 ^ 32 := few.trans_lt (by norm_num [maxChapters])
  unfold sampleSizes
  rw [found]
  cases table with
  | uniform size count positive =>
      rw [SizeTable.body, List.append_assoc] at payload
      have uniform : readU32InBox data info 4 = some size.toNat :=
        read_u32_in_payload addressed flags _ flagged (by omega) size.toNat_lt payload
      rw [← List.append_assoc] at payload
      have counted : readU32InBox data info 8 = some count.toNat :=
        read_u32_in_payload addressed _ more (by simp [flagged]) (by omega) count.toNat_lt payload
      have within : count.toNat ≤ maxChapters := by
        simpa [SizeTable.sizes] using few
      simp only [Option.bind_eq_bind, Option.bind_some, uniform, counted, guard_of within,
        if_pos positive]
      rfl
  | each sizes =>
      rw [SizeTable.sizes, List.length_map] at few small
      rw [SizeTable.body, tableBody, List.length_map, List.append_assoc, List.append_assoc] at payload
      have uniform : readU32InBox data info 4 = some 0 :=
        read_u32_in_payload addressed flags _ flagged (by omega) (by omega) payload
      rw [← List.append_assoc] at payload
      have counted : readU32InBox data info 8 = some sizes.length :=
        read_u32_in_payload addressed (flags ++ beBytes 4 0) _ (by simp [flagged]) (by omega) small
          payload
      rw [← List.append_assoc] at payload
      obtain ⟨header, inside, sum, read⟩ := read_entries_of addressed _ more 4 12 (by simp [flagged])
        (by omega) (by simp) payload
      rw [List.length_map] at inside read
      simp only [Option.bind_eq_bind, Option.bind_some, uniform, counted, guard_of few, lt_irrefl,
        if_false, guard_of header, guard_of inside, sum, read]
      rw [chunks_of_flatten (by omega) (by simp)]
      exact congrArg some (be_nat_map 4 UInt32.toNat word_lt sizes)

theorem read_chunks_of (addressed : data.length < 2 ^ 64) {stbl : BoxInfo} {table : ChunkTable}
    (has : HasChunks data stbl table) (few : table.offsets.length ≤ maxChapters) :
    chunkOffsets data stbl = some table.offsets := by
  unfold chunkOffsets
  cases table with
  | stco offsets =>
      rw [ChunkTable.offsets, List.length_map] at few
      obtain ⟨info, found, read⟩ := table_read_of addressed 4 (by omega) (by simp) (by simpa) has
      rw [found]
      simp only [read, Option.map_some]
      exact congrArg some (be_nat_map 4 UInt32.toNat word_lt offsets)
  | co64 offsets =>
      rw [ChunkTable.offsets, List.length_map] at few
      obtain ⟨narrow, has⟩ := has
      obtain ⟨info, found, read⟩ := table_read_of addressed 8 (by omega) (by simp) (by simpa) has
      rw [narrow, found]
      simp only [Option.bind_eq_bind, Option.bind_some, read]
      exact congrArg some (be_nat_map 8 UInt64.toNat long_lt offsets)

theorem chunk_entries_sized {runs : List ChunkRun} :
    ∀ entry ∈ runs.map ChunkRun.entry, entry.length = 12 := by
  intro entry member
  obtain ⟨run, _, isEntry⟩ := List.mem_map.mp member
  rw [← isEntry]
  simp [ChunkRun.entry]

theorem time_entries_sized {runs : List (UInt32 × UInt32)} :
    ∀ entry ∈ runs.map timeEntry, entry.length = 8 := by
  intro entry member
  obtain ⟨run, _, isEntry⟩ := List.mem_map.mp member
  rw [← isEntry]
  simp [timeEntry]

theorem entry_read (run : ChunkRun) :
    (beNat (run.entry.take 4), beNat ((run.entry.drop 4).take 4)) =
      (run.firstChunk.toNat, run.perChunk.toNat) := by
  unfold ChunkRun.entry
  rw [List.take_left' (by simp), List.drop_left' (by simp), List.take_left' (by simp),
    be_nat_bytes (word_lt _), be_nat_bytes (word_lt _)]

theorem time_entry_read (run : UInt32 × UInt32) :
    (beNat ((timeEntry run).take 4), beNat ((timeEntry run).drop 4)) =
      (run.1.toNat, run.2.toNat) := by
  unfold timeEntry
  rw [List.take_left' (by simp), List.drop_left' (by simp), be_nat_bytes (word_lt _),
    be_nat_bytes (word_lt _)]

end Reading

section Located

variable {runs : List (Nat × Nat)}

theorem runs_at_later {earlier later : Nat} (le : earlier ≤ later) (runs : List (Nat × Nat)) :
    runsAt later (runsAt earlier runs) = runsAt later runs := by
  induction runs with
  | nil => rfl
  | cons current rest induction =>
      cases rest with
      | nil => rfl
      | cons next rest =>
          by_cases reached : next.1 ≤ earlier
          · rw [runsAt, if_pos reached, induction, runsAt, if_pos (reached.trans le)]
          · rw [runsAt, if_neg reached]

theorem runs_at_head (ascending : runs.Pairwise (·.1 < ·.1)) {current : Nat × Nat}
    (first : runs.head? = some current) {chunkNum : Nat} (started : current.1 ≤ chunkNum) :
    ∃ start, (runsAt chunkNum runs).head? = some (start, samplesPer runs chunkNum) := by
  induction runs generalizing current with
  | nil => cases first
  | cons run rest induction =>
      rw [List.head?_cons, Option.some.injEq] at first
      rw [← first] at started
      rw [List.pairwise_cons] at ascending
      cases rest with
      | nil =>
          refine ⟨run.1, ?_⟩
          simp [runsAt, samplesPer, started]
      | cons next rest =>
          by_cases reached : next.1 ≤ chunkNum
          · rw [runsAt, if_pos reached]
            obtain ⟨start, isHead⟩ := induction ascending.2 rfl reached
            refine ⟨start, isHead.trans ?_⟩
            simp [samplesPer, started, reached]
          · rw [runsAt, if_neg reached]
            refine ⟨run.1, ?_⟩
            -- no later run starts at or before the chunk either
            have beyond : (next :: rest).filter (·.1 ≤ chunkNum) = [] := by
              apply List.filter_eq_nil_iff.mpr
              intro other member
              rcases List.mem_cons.mp member with isNext | isLater
              · simpa [isNext] using reached
              · have after := (List.pairwise_cons.mp ascending.2).1 other isLater
                simp
                omega
            rw [samplesPer, List.filter_cons_of_pos (by simpa using started), beyond]
            rfl

theorem earlier_sum_succ (sizes : List Nat) {index earlier size : Nat} (le : earlier ≤ index)
    (own : sizes[index]? = some size) :
    ((sizes.drop (index + 1 - (earlier + 1))).take (earlier + 1)).sum =
      ((sizes.drop (index - earlier)).take earlier).sum + size := by
  have there : (sizes.drop (index - earlier))[earlier]? = some size := by
    rw [List.getElem?_drop, Nat.sub_add_cancel le]
    exact own
  rw [Nat.add_sub_add_right, List.take_add_one, there, List.sum_append]
  simp

/-- The rest of a chunk's samples from one on, and the sizes left after the chunk. -/
theorem chunk_samples_of (sizes : List Nat) (offset count : Nat) {earlier index : Nat}
    (le : earlier ≤ index) (fits : ∀ span ∈
      ((((List.range' earlier count).map (offset, ·)).zip (sizes.drop index)).zipIdx index).map
        (spanOf sizes), span.1 + span.2 < 2 ^ 64) :
    chunkSamples count (offset + ((sizes.drop (index - earlier)).take earlier).sum)
        (sizes.drop index) =
      some (((((List.range' earlier count).map (offset, ·)).zip (sizes.drop index)).zipIdx
        index).map (spanOf sizes), sizes.drop (index + count)) := by
  induction count generalizing earlier index with
  | zero => simp [chunkSamples]
  | succ count induction =>
      cases left : sizes.drop index with
      | nil =>
          have past : sizes.drop (index + (count + 1)) = [] := by
            rw [← List.drop_drop, left, List.drop_nil]
          rw [past]
          simp [chunkSamples]
      | cons size rest =>
          have own : sizes[index]? = some size := by
            rw [← List.head?_drop, left]
            rfl
          have isRest : sizes.drop (index + 1) = rest := by
            rw [← List.drop_drop, left]
            rfl
          rw [left, List.range'_succ, List.map_cons, List.zip_cons_cons, List.zipIdx_cons,
            List.map_cons, ← isRest] at fits
          have later := induction (Nat.succ_le_succ le) (fun span member =>
            fits span (List.mem_cons_of_mem _ member))
          have inside := fits _ (List.mem_cons_self ..)
          simp only [spanOf] at inside
          rw [earlier_sum_succ sizes le own, ← Nat.add_assoc] at later
          rw [chunkSamples, checked_add_of_lt inside]
          simp only [Option.bind_eq_bind, Option.bind_some]
          rw [← isRest, later]
          simp only [Option.bind_some]
          rw [List.range'_succ, List.map_cons, List.zip_cons_cons, List.zipIdx_cons,
            List.map_cons]
          congr 3
          omega

theorem zip_append_drop {Left Right : Type} (first second : List Left) (others : List Right) :
    (first ++ second).zip others =
      first.zip others ++ second.zip (others.drop first.length) := by
  induction first generalizing others with
  | nil => simp
  | cons item first induction =>
      cases others with
      | nil => simp
      | cons other others => simp [induction]

theorem locate_samples_of (sizes : List Nat) (ascending : runs.Pairwise (·.1 < ·.1))
    {current : Nat × Nat} (first : runs.head? = some current) (chunks : List Nat)
    {chunkNum index : Nat} (started : current.1 ≤ chunkNum) {remaining : List (Nat × Nat)}
    (cursor : ∀ later, chunkNum ≤ later → runsAt later remaining = runsAt later runs)
    (fits : ∀ span ∈ (((slotsFrom runs chunkNum chunks).zip (sizes.drop index)).zipIdx index).map
      (spanOf sizes), span.1 + span.2 < 2 ^ 64) :
    locateSamples chunkNum remaining (sizes.drop index) chunks =
      some ((((slotsFrom runs chunkNum chunks).zip (sizes.drop index)).zipIdx index).map
        (spanOf sizes)) := by
  induction chunks generalizing chunkNum index remaining with
  | nil => rfl
  | cons offset chunks induction =>
      obtain ⟨start, isHead⟩ := runs_at_head ascending first started
      rw [slotsFrom, List.range_eq_range', zip_append_drop, List.zipIdx_append, List.map_append,
        List.length_map, List.length_range', List.drop_drop] at fits ⊢
      have own := chunk_samples_of sizes offset (samplesPer runs chunkNum) (Nat.zero_le index)
        (fun span member => fits span (List.mem_append_left _ member))
      rw [List.take_zero, List.sum_nil, Nat.add_zero] at own
      rw [locateSamples, cursor chunkNum le_rfl, isHead]
      simp only [Option.bind_eq_bind, Option.bind_some, own]
      split_ifs with done
      · rw [done, List.zip_nil_right, List.zipIdx_nil, List.map_nil, List.append_nil]
        rfl
      · have reaches : index + samplesPer runs chunkNum < sizes.length := by
          by_contra past
          exact done (List.drop_eq_nil_of_le (by omega))
        have placed : (((List.range' 0 (samplesPer runs chunkNum)).map (offset, ·)).zip
            (sizes.drop index)).length = samplesPer runs chunkNum := by
          rw [List.length_zip, List.length_map, List.length_range', List.length_drop]
          omega
        rw [placed] at fits ⊢
        have onward (later : Nat) (le : chunkNum + 1 ≤ later) :
            runsAt later (runsAt chunkNum runs) = runsAt later runs :=
          runs_at_later (by omega) runs
        have later := induction (by omega) onward
          (fun span member => fits span (List.mem_append_right _ member))
        rw [later]
        rfl

end Located

section Timed

theorem ticks_to_ms_of {ticks timescale : Nat} (small : ticks * 1000 < 2 ^ 64) :
    ticksToMs ticks timescale = some (ticks * 1000 / timescale) :=
  if_pos ((Nat.div_le_self ..).trans_lt small)

theorem times_from_of {timescale : Nat} (starts : List Nat)
    (small : ∀ start ∈ starts, start * 1000 < 2 ^ 64) :
    ∃ times, timesFrom timescale starts = some times ∧
      times.map (·.1) = starts.map (· * 1000 / timescale) ∧
      times.map (·.2) = (times.map Prod.fst ++ [0]).drop 1 := by
  induction starts with
  | nil => exact ⟨[], rfl, rfl, rfl⟩
  | cons start rest induction =>
      have own := @ticks_to_ms_of start timescale (small start (by simp))
      obtain ⟨times, timed, startsOf, endsOf⟩ := induction fun other member =>
        small other (List.mem_cons_of_mem _ member)
      cases rest with
      | nil =>
          refine ⟨[(start * 1000 / timescale, 0)], ?_, rfl, rfl⟩
          rw [timesFrom, own]
          rfl
      | cons next rest =>
          have nextMs := @ticks_to_ms_of next timescale (small next (by simp))
          refine ⟨(start * 1000 / timescale, next * 1000 / timescale) :: times, ?_, ?_, ?_⟩
          · rw [timesFrom, own, nextMs, timed]
            rfl
          · rw [List.map_cons, startsOf]
            rfl
          · have starts : times.map Prod.fst = (next :: rest).map (· * 1000 / timescale) := startsOf
            rw [List.map_cons, endsOf, List.map_cons, starts]
            rfl

/-- The starts of the samples with these durations and where the next one starts, as far as the
bound on their number lets them be read. -/
def reachedAfter (durations : List Nat) : List Nat × Nat :=
  let count := min maxChapters durations.length
  ((List.range count).map fun index => (durations.take index).sum, (durations.take count).sum)

theorem reached_full {durations : List Nat} (full : maxChapters ≤ durations.length)
    (more : List Nat) : reachedAfter (durations ++ more) = reachedAfter durations := by
  have taken (index : Nat) (le : index ≤ maxChapters) :
      (durations ++ more).take index = durations.take index :=
    List.take_append_of_le_length (le.trans full)
  have bound : min maxChapters (durations ++ more).length = maxChapters :=
    Nat.min_eq_left (by rw [List.length_append]; omega)
  have starts : ((List.range maxChapters).map fun index => ((durations ++ more).take index).sum) =
      (List.range maxChapters).map fun index => (durations.take index).sum := by
    apply List.map_congr_left
    intro index member
    rw [taken index (List.mem_range.mp member).le]
  simp only [reachedAfter, bound, Nat.min_eq_left full]
  rw [starts, taken maxChapters le_rfl]

theorem reached_next {durations : List Nat} (room : durations.length < maxChapters) (delta : Nat) :
    reachedAfter (durations ++ [delta]) =
      ((reachedAfter durations).1 ++ [(reachedAfter durations).2],
        (reachedAfter durations).2 + delta) := by
  have longer : (durations ++ [delta]).length = durations.length + 1 := by
    rw [List.length_append, List.length_singleton]
  have whole : (durations ++ [delta]).take (durations.length + 1) = durations ++ [delta] := by
    rw [← longer, List.take_length]
  simp only [reachedAfter, longer, Nat.min_eq_right room.le,
    Nat.min_eq_right (Nat.succ_le_of_lt room), whole, List.take_length, List.sum_append,
    List.range_succ, List.map_append, List.map_singleton]
  congr 1
  congr 1
  · apply List.map_congr_left
    intro index member
    rw [List.take_append_of_le_length (List.mem_range.mp member).le]
  · rw [List.take_append_of_le_length le_rfl, List.take_length]

variable {durations : List Nat}

theorem reached_small (small : ∀ duration ∈ durations, duration < 2 ^ 32) :
    (reachedAfter durations).2 ≤ maxChapters * 2 ^ 32 ∧
      ∀ start ∈ (reachedAfter durations).1, start ≤ maxChapters * 2 ^ 32 := by
  have bounded (index : Nat) (le : index ≤ maxChapters) :
      (durations.take index).sum ≤ maxChapters * 2 ^ 32 := by
    calc (durations.take index).sum ≤ (durations.take index).length • 2 ^ 32 := by
          apply List.sum_le_card_nsmul
          intro duration member
          exact (small duration (List.mem_of_mem_take member)).le
      _ ≤ maxChapters * 2 ^ 32 := by
          rw [smul_eq_mul]
          apply Nat.mul_le_mul_right
          exact (List.length_take_le ..).trans le
  constructor
  · exact bounded _ (Nat.min_le_left ..)
  · intro start member
    obtain ⟨index, isIndex, isStart⟩ := List.mem_map.mp member
    rw [← isStart]
    apply bounded
    exact (List.mem_range.mp isIndex).le.trans (Nat.min_le_left ..)

theorem push_samples_of {delta count : Nat} (small : ∀ duration ∈ durations, duration < 2 ^ 32)
    (deltaSmall : delta < 2 ^ 32) :
    pushSamples delta count (reachedAfter durations) =
      some (reachedAfter (durations ++ List.replicate count delta)) := by
  induction count generalizing durations with
  | zero => rw [pushSamples, List.replicate_zero, List.append_nil]
  | succ count induction =>
      have length : (reachedAfter durations).1.length = min maxChapters durations.length := by
        rw [reachedAfter, List.length_map, List.length_range]
      by_cases full : maxChapters ≤ durations.length
      · rw [reached_full full, pushSamples, if_pos (by omega)]
      · have bound := (reached_small small).1
        rw [pushSamples, if_neg (by omega), checked_add_of_lt (by norm_num [maxChapters] at bound; omega),
          List.replicate_succ, List.append_cons durations]
        simp only [Option.bind_eq_bind, Option.bind_some]
        rw [← reached_next (by omega)]
        apply induction
        · intro duration member
          rcases List.mem_append.mp member with earlier | isDelta
          · exact small duration earlier
          · rw [List.mem_singleton.mp isDelta]
            exact deltaSmall

theorem durations_small (runs : List (UInt32 × UInt32)) :
    ∀ duration ∈ durationsOf runs, duration < 2 ^ 32 := by
  intro duration member
  obtain ⟨run, _, own⟩ := List.mem_flatMap.mp member
  rw [List.eq_of_mem_replicate own]
  exact run.2.toNat_lt

theorem sample_starts_of (runs : List (UInt32 × UInt32)) :
    sampleStarts (runs.map fun run => (run.1.toNat, run.2.toNat)) =
      some (reachedAfter (durationsOf runs)).1 := by
  have walk (earlier : List (UInt32 × UInt32)) :
      (runs.map fun run => (run.1.toNat, run.2.toNat)).foldlM
        (fun reached entry => pushSamples entry.2 entry.1 reached)
        (reachedAfter (durationsOf earlier)) =
      some (reachedAfter (durationsOf (earlier ++ runs))) := by
    induction runs generalizing earlier with
    | nil =>
        rw [List.append_nil]
        rfl
    | cons run rest induction =>
        have split : durationsOf (earlier ++ [run]) =
            durationsOf earlier ++ List.replicate run.1.toNat run.2.toNat := by
          rw [durationsOf, List.flatMap_append, List.flatMap_singleton]
          rfl
        rw [List.map_cons, List.foldlM_cons, push_samples_of (durations_small _) run.2.toNat_lt]
        simp only [Option.bind_eq_bind, Option.bind_some]
        rw [← split, induction (earlier ++ [run]), ← List.append_cons]
  have whole := walk []
  rw [List.nil_append] at whole
  unfold sampleStarts
  change (List.foldlM _ (reachedAfter (durationsOf [])) _ >>= _) = _
  rw [whole]
  rfl

theorem tables_starts (tables : SampleTables) (timescale : Nat) :
    tables.starts timescale =
      (reachedAfter (durationsOf tables.stts)).1.map (· * 1000 / timescale) := by
  rw [SampleTables.starts, reachedAfter, List.map_map]
  rfl

end Timed

section Resolved

variable {data : Bytes} {stbl : BoxInfo} {tables : SampleTables}

theorem sample_locations_of (addressed : data.length < 2 ^ 64)
    (described : Describes data stbl tables) (samples : tables.stsz.sizes.length ≤ maxChapters)
    (chunks : tables.chunks.offsets.length ≤ maxChapters)
    (runs : tables.stsc.length ≤ maxChapters) (ascending : Ascending tables.stsc)
    (fits : ∀ span ∈ tables.locations, span.1 + span.2 < 2 ^ 64) :
    sampleLocations data stbl = some tables.locations := by
  obtain ⟨info, found, read⟩ := table_read_of addressed 12 (by omega)
    chunk_entries_sized (by simpa using runs) described.stsc
  have decoded : (tables.stsc.map ChunkRun.entry).map (fun entry =>
      (beNat (entry.take 4), beNat ((entry.drop 4).take 4))) =
      tables.stsc.map fun run => (run.firstChunk.toNat, run.perChunk.toNat) := by
    rw [List.map_map]
    exact List.map_congr_left fun run _ => entry_read run
  unfold sampleLocations
  rw [read_sizes_of addressed described.stsz samples, read_chunks_of addressed described.chunks chunks,
    found]
  simp only [Option.bind_eq_bind, Option.bind_some, read, decoded]
  obtain ⟨run, isFirst, one⟩ := Option.map_eq_some_iff.mp ascending.1
  have runsAscend : (tables.stsc.map fun run =>
      (run.firstChunk.toNat, run.perChunk.toNat)).Pairwise (·.1 < ·.1) :=
    List.pairwise_map.mpr ascending.2
  have isHead : (tables.stsc.map fun run =>
      (run.firstChunk.toNat, run.perChunk.toNat)).head? =
        some (run.firstChunk.toNat, run.perChunk.toNat) := by
    rw [List.head?_map, isFirst]
    rfl
  exact @locate_samples_of _ tables.stsz.sizes runsAscend _ isHead tables.chunks.offsets 1 0
    one.le _ (fun _ _ => rfl) fits

theorem sample_times_of (addressed : data.length < 2 ^ 64) (described : Describes data stbl tables)
    (times : tables.stts.length ≤ maxChapters) (timescale : Nat) :
    ∃ spans, sampleTimes data stbl timescale = some spans ∧
      spans.map (·.1) = tables.starts timescale ∧
      spans.map (·.2) = (spans.map Prod.fst ++ [0]).drop 1 := by
  obtain ⟨info, found, read⟩ := table_read_of addressed 8 (by omega)
    time_entries_sized (by simpa using times) described.stts
  have decoded : (tables.stts.map timeEntry).map (fun entry =>
      (beNat (entry.take 4), beNat (entry.drop 4))) =
      tables.stts.map fun run => (run.1.toNat, run.2.toNat) := by
    rw [List.map_map]
    exact List.map_congr_left fun run _ => time_entry_read run
  have small : ∀ start ∈ (reachedAfter (durationsOf tables.stts)).1, start * 1000 < 2 ^ 64 := by
    intro start member
    have bound := (reached_small (durations_small tables.stts)).2 start member
    norm_num [maxChapters] at bound
    omega
  obtain ⟨spans, timed, startsOf, endsOf⟩ := @times_from_of timescale _ small
  refine ⟨spans, ?_, startsOf.trans (tables_starts tables timescale).symm, endsOf⟩
  unfold sampleTimes
  rw [found]
  simp only [Option.bind_eq_bind, Option.bind_some, read, decoded, sample_starts_of]
  exact timed

end Resolved

/-- Of tables whose entries the bound leaves room for: the locations are those of the samples that
have both a place and a size, and each sample starts after the ones before it and ends where the
next one starts, the last one at `0`. -/
theorem sample_tables_resolved (data : Bytes) (stbl : BoxInfo) (tables : SampleTables)
    (timescale : Nat) (addressed : data.length < 2 ^ 64) (described : Describes data stbl tables)
    (samples : tables.stsz.sizes.length ≤ maxChapters)
    (chunks : tables.chunks.offsets.length ≤ maxChapters)
    (runs : tables.stsc.length ≤ maxChapters) (times : tables.stts.length ≤ maxChapters)
    (ascending : Ascending tables.stsc)
    (fits : ∀ span ∈ tables.locations, span.1 + span.2 < 2 ^ 64) (_positive : 0 < timescale) :
    sampleLocations data stbl = some tables.locations ∧
      ∃ spans, sampleTimes data stbl timescale = some spans ∧
        spans.map (·.1) = tables.starts timescale ∧ (spans.map (·.1)).Pairwise (· ≤ ·) ∧
        spans.map (·.2) = (spans.map Prod.fst ++ [0]).drop 1 := by
  have located := sample_locations_of addressed described samples chunks runs ascending fits
  obtain ⟨spans, timed, startsOf, endsOf⟩ := sample_times_of addressed described times timescale
  exact ⟨located, spans, timed, startsOf, sample_times_sorted timed, endsOf⟩

section Examples

def fullBox (letters : String) (body : Bytes) : Box := ⟨tag letters, [0, 0, 0, 0] ++ body, .short⟩

def ChunkTable.box : ChunkTable → Box
  | .stco offsets => fullBox "stco" (tableBody (offsets.map fun offset => beBytes 4 offset.toNat))
  | .co64 offsets => fullBox "co64" (tableBody (offsets.map fun offset => beBytes 8 offset.toNat))

/-- The tables as the boxes of an `stbl` box. -/
def SampleTables.boxes (tables : SampleTables) : List Box :=
  [fullBox "stts" (tableBody (tables.stts.map timeEntry)),
    fullBox "stsc" (tableBody (tables.stsc.map ChunkRun.entry)),
    fullBox "stsz" tables.stsz.body, tables.chunks.box]

theorem laid_out_append (pos : Nat) (first second : List Box) :
    laidOut pos (first ++ second) =
      laidOut pos first ++ laidOut (pos + (encodeBoxes first).length) second := by
  induction first generalizing pos with
  | nil => simp [laidOut, encodeBoxes]
  | cons box first induction =>
      rw [List.cons_append, laidOut, laidOut, induction, List.cons_append, encodeBoxes,
        encodeBoxes, List.map_cons, List.flatten_cons, List.length_append, Nat.add_assoc]

theorem find_written (boxes : List Box) (wellFormed : WellFormed boxes)
    (addressed : (encodeBoxes boxes).length < 2 ^ 64) (target : Bytes) :
    findChildBox (encodeBoxes boxes) ⟨0, (encodeBoxes boxes).length⟩ target =
      ((laidOut 0 boxes).find? (·.1 = target)).map (·.2) := by
  have listed := list_written_boxes (encodeBoxes boxes) [] [] boxes wellFormed (by simp)
    (by simpa using addressed)
  rw [List.length_nil, Nat.zero_add] at listed
  have stop : checkedAdd 0 (encodeBoxes boxes).length = some (encodeBoxes boxes).length := by
    rw [checked_add_of_lt (by omega), Nat.zero_add]
  unfold findChildBox
  simp only [stop, Option.bind_eq_bind, Option.bind_some]
  rw [find_box_listed _ _ addressed, listed]

theorem laid_out_types (boxes : List Box) (pos : Nat) :
    (laidOut pos boxes).map (·.1) = boxes.map (·.boxType) := by
  induction boxes generalizing pos with
  | nil => rfl
  | cons box rest induction => rw [laidOut, List.map_cons, List.map_cons, induction]

theorem has_table_written {letters : String} {body : Bytes} (earlier later : List Box)
    (wellFormed : WellFormed (earlier ++ fullBox letters body :: later))
    (addressed : (encodeBoxes (earlier ++ fullBox letters body :: later)).length < 2 ^ 64)
    (others : tag letters ∉ earlier.map (·.boxType)) :
    HasTable (encodeBoxes (earlier ++ fullBox letters body :: later))
      ⟨0, (encodeBoxes (earlier ++ fullBox letters body :: later)).length⟩ letters body := by
  have fits := wellFormed.1 (fullBox letters body) (by simp)
  have header : (fullBox letters body).header.length = 8 := by
    rcases header_length fits with short | long
    · exact short
    · cases long.2
  have unlisted : (laidOut 0 earlier).find? (·.1 = tag letters) = none := by
    apply List.find?_eq_none.mpr
    intro listed member same
    apply others
    rw [← laid_out_types earlier 0, ← of_decide_eq_true same]
    exact List.mem_map_of_mem member
  have split : encodeBoxes (earlier ++ fullBox letters body :: later) =
      (encodeBoxes earlier ++ (fullBox letters body).header) ++
        ((fullBox letters body).payload ++ encodeBoxes later) := by
    simp [encodeBoxes, Box.encode]
  refine ⟨⟨0 + (encodeBoxes earlier).length + (fullBox letters body).header.length,
    (fullBox letters body).payload.length⟩, [0, 0, 0, 0], [], ?_, rfl, ?_⟩
  · rw [find_written _ wellFormed addressed, laid_out_append, List.find?_append, unlisted, laidOut,
      List.find?_cons_of_pos (by exact decide_eq_true rfl)]
    rfl
  · rw [split, Nat.zero_add, ← List.length_append, List.drop_left, List.take_left, List.append_nil]
    rfl

theorem describes_written (tables : SampleTables)
    (small : (encodeBoxes tables.boxes).length < 2 ^ 32) :
    Describes (encodeBoxes tables.boxes) ⟨0, (encodeBoxes tables.boxes).length⟩ tables := by
  have typed : ∀ box ∈ tables.boxes, box.boxType.length = 4 ∧ box.form = .short := by
    intro box member
    simp only [SampleTables.boxes, List.mem_cons, List.not_mem_nil, or_false] at member
    rcases member with same | same | same | same <;> rw [same]
    · exact ⟨rfl, rfl⟩
    · exact ⟨rfl, rfl⟩
    · exact ⟨rfl, rfl⟩
    · cases tables.chunks <;> exact ⟨rfl, rfl⟩
  have wellFormed : WellFormed tables.boxes := by
    constructor
    · intro box member
      refine ⟨(typed box member).1, ?_, ?_⟩
      · intro short
        obtain ⟨earlier, later, split⟩ := List.append_of_mem member
        have header : box.header.length = 8 := by
          rw [Box.header, short, List.length_append, be_bytes_length, (typed box member).1]
        rw [split, encodeBoxes, List.map_append, List.flatten_append, List.length_append,
          List.map_cons, List.flatten_cons, List.length_append, Box.encode, List.length_append,
          header] at small
        omega
      · intro long
        rw [(typed box member).2] at long
        cases long
    · intro box member toEnd
      rw [(typed box (List.mem_of_mem_dropLast member)).2] at toEnd
      cases toEnd
  have addressed : (encodeBoxes tables.boxes).length < 2 ^ 64 := by omega
  constructor
  · exact has_table_written [_, _] [_] wellFormed addressed
      (by change tag "stsz" ∉ [tag "stts", tag "stsc"]; decide)
  · cases kind : tables.chunks with
    | stco offsets =>
        simp only [SampleTables.boxes, kind] at wellFormed addressed ⊢
        exact has_table_written [_, _, _] [] wellFormed addressed
          (by change tag "stco" ∉ [tag "stts", tag "stsc", tag "stsz"]; decide)
    | co64 offsets =>
        simp only [SampleTables.boxes, kind] at wellFormed addressed ⊢
        constructor
        · rw [find_written _ wellFormed addressed]
          rfl
        · exact has_table_written [_, _, _] [] wellFormed addressed
            (by change tag "co64" ∉ [tag "stts", tag "stsc", tag "stsz"]; decide)
  · exact has_table_written [_] [_, _] wellFormed addressed
      (by change tag "stsc" ∉ [tag "stts"]; decide)
  · exact has_table_written [] [_, _, _] wellFormed addressed (by decide)

def threeSamples : SampleTables :=
  ⟨.each [5, 7, 9], .stco [100, 200], [⟨1, 2, 1⟩, ⟨2, 1, 1⟩], [(2, 1000), (1, 500)]⟩

theorem sample_tables_resolved_three :
    sampleLocations (encodeBoxes threeSamples.boxes) ⟨0, (encodeBoxes threeSamples.boxes).length⟩ =
        some [(100, 5), (105, 7), (200, 9)] ∧
      ∃ spans, sampleTimes (encodeBoxes threeSamples.boxes)
          ⟨0, (encodeBoxes threeSamples.boxes).length⟩ 1000 = some spans ∧
        spans.map (·.1) = [0, 1000, 2000] := by
  have resolved := sample_tables_resolved _ _ threeSamples 1000 (by decide +kernel)
    (describes_written threeSamples (by decide +kernel)) (by decide) (by decide) (by decide)
    (by decide) ⟨rfl, by decide⟩ (by decide) (by decide)
  obtain ⟨located, spans, timed, starts, _⟩ := resolved
  exact ⟨located, spans, timed, starts⟩

def oneSample (offsets : List UInt32) : SampleTables :=
  ⟨.each [5], .stco offsets, [⟨1, 1, 1⟩], [(1, 1000)]⟩

theorem one_sample_small (offsets : List UInt32) (few : offsets.length ≤ 2 ^ 20) :
    (encodeBoxes (oneSample offsets).boxes).length < 2 ^ 32 := by
  have chunks : (offsets.map fun offset => beBytes 4 offset.toNat).flatten.length =
      offsets.length * 4 := by
    rw [@flatten_length _ 4 (by simp), List.length_map]
  simp only [SampleTables.boxes, oneSample, ChunkTable.box, encodeBoxes, fullBox, Box.encode,
    Box.header, tableBody, SizeTable.body, ChunkRun.entry, timeEntry, List.map_cons, List.map_nil,
    List.flatten_cons, List.flatten_nil, List.length_append, List.length_nil, be_bytes_length,
    chunks]
  change 4 + 4 + (4 + (4 + (4 + 4 + 0))) + (4 + 4 + (4 + (4 + (4 + (4 + 4) + 0))) +
    (4 + 4 + (4 + (4 + (4 + (4 + 0)))) + (4 + 4 + (4 + (4 + offsets.length * 4)) + 0))) < 2 ^ 32
  omega

theorem one_sample_located (offset : UInt32) (rest : List UInt32) :
    (oneSample (offset :: rest)).locations = [(offset.toNat, 5)] := by
  simp [SampleTables.locations, oneSample, ChunkTable.offsets, SizeTable.sizes, slotsFrom,
    samplesPer, spanOf, List.range_succ]

theorem one_sample_unread (offsets : List UInt32) (many : maxChapters < offsets.length)
    (few : offsets.length ≤ 2 ^ 20) :
    sampleLocations (encodeBoxes (oneSample offsets).boxes)
      ⟨0, (encodeBoxes (oneSample offsets).boxes).length⟩ = none := by
  have small := one_sample_small offsets few
  have described := describes_written (oneSample offsets) small
  have addressed : (encodeBoxes (oneSample offsets).boxes).length < 2 ^ 64 := by omega
  have chunks : HasTable _ _ "stco"
      (tableBody (offsets.map fun offset => beBytes 4 offset.toNat)) := described.chunks
  obtain ⟨info, found, refused⟩ := table_refused addressed 4
    (by rw [List.length_map]; exact many) (by rw [List.length_map]; omega) chunks
  have noChunks : chunkOffsets (encodeBoxes (oneSample offsets).boxes)
      ⟨0, (encodeBoxes (oneSample offsets).boxes).length⟩ = none := by
    unfold chunkOffsets
    rw [found]
    simp only [refused]
    rfl
  unfold sampleLocations
  have oneSize : (oneSample offsets).stsz.sizes.length ≤ maxChapters := by
    change 1 ≤ maxChapters
    norm_num [maxChapters]
  rw [read_sizes_of addressed described.stsz oneSize, noChunks]
  rfl

def crowded : SampleTables := oneSample (List.replicate (maxChapters + 1) 100)

/-- The one sample has a place, and the file has no locations, as the list of chunks is refused. -/
theorem crowded_unread :
    Describes (encodeBoxes crowded.boxes) ⟨0, (encodeBoxes crowded.boxes).length⟩ crowded ∧
      crowded.stsz.sizes.length ≤ maxChapters ∧ Ascending crowded.stsc ∧
      crowded.locations = [(100, 5)] ∧
      sampleLocations (encodeBoxes crowded.boxes) ⟨0, (encodeBoxes crowded.boxes).length⟩ =
        none := by
  have few : (List.replicate (maxChapters + 1) (100 : UInt32)).length ≤ 2 ^ 20 := by
    rw [List.length_replicate]
    norm_num [maxChapters]
  refine ⟨describes_written crowded (one_sample_small _ few), by decide, ⟨rfl, by decide⟩, ?_, ?_⟩
  · rw [crowded, List.replicate_succ]
    exact one_sample_located 100 _
  · apply one_sample_unread _ _ few
    rw [List.length_replicate]
    omega

end Examples

end Omnibus.Audiobooks
