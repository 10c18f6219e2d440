import Omnibus.Scan.Unchanged

/-!
# The diff under any iteration order

`diff_library` walks four kinds of hash map. Here each is walked in an order of its own, and
every bucket is told by what is in it: which file or row, and under which condition.
-/

namespace Omnibus.Scan

/-- The order in which maps are walked: any order of the pairs one holds. -/
structure Iteration where
  walk : {Key Value : Type} → List (Key × Value) → List (Key × Value)
  perm : ∀ {Key Value : Type} (pairs : List (Key × Value)), (walk pairs).Perm pairs

/-- The order in which the keys were first put in. -/
def Iteration.inserted : Iteration := ⟨fun pairs => pairs, fun _ => .refl _⟩

variable {order : Iteration}

section Model

/-- A map from each key to the items that have it. -/
def groupedBy {Item Key : Type} [DecidableEq Key] (keyOf : Item → Key) (items : List Item) :
    List (Key × List Item) :=
  (items.map keyOf).dedup.map fun key => (key, items.filter (keyOf · = key))

/-- `push_stem_matches`, for any keys. -/
def loneMatchesBy {Key : Type} [DecidableEq Key] (order : Iteration)
    (departureKey : Departure → Key) (arrivalKey : Arrival → Key) (removed : List Departure)
    (new : List Arrival) : List (Departure × Arrival) :=
  (order.walk (groupedBy departureKey removed)).flatMap fun group =>
    match group.2, new.filter (arrivalKey · = group.1) with
    | [row], [entry] => [(row, entry)]
    | _, _ => []

def IndexedRow.matchKey (row : IndexedRow) : Int × Int × String :=
  (row.sizeBytes, row.mtimeEpoch, pathFormat row.scanKey)

def StatEntry.matchKey (entry : StatEntry) : Int × Int × String :=
  (entry.sizeBytes, entry.mtimeEpoch, pathFormat entry.scanKey)

/-- `match_moved_files`. -/
def matchMovedFilesBy (order : Iteration) (removed : List Departure) (new : List Arrival) :
    List (Departure × Arrival) :=
  let removed := removed.filter fun row => !(row.1.sizeBytes = 0 && row.1.mtimeEpoch = 0)
  let new := new.filter fun entry => !(entry.1.sizeBytes = 0 && entry.1.mtimeEpoch = 0)
  (order.walk (groupedBy (fun row => row.1.matchKey) removed)).flatMap fun group =>
    match group.2, new.filter (·.1.matchKey = group.1) with
    | [row], [entry] => [(row, entry)]
    | removedGroup, newGroup =>
        loneMatchesBy order (fun row => pathStem row.1.scanKey)
          (fun entry => pathStem entry.1.scanKey) removedGroup newGroup

/-- `classify_arrivals`. -/
def classifyArrivalsBy (order : Iteration) (disk : List StatEntry) (db : List IndexedRow)
    (libraryRoot : String) : ReindexDiff × List StatEntry :=
  ((order.walk ((diskByKey disk).map fun entry => (entry.scanKey, entry))).map (·.2)).foldr
    (classifyArrival db libraryRoot) ({}, [])

/-- `split_moved`. -/
def splitMovedBy (order : Iteration) (departures : List IndexedRow) (arrivals : List StatEntry)
    (libraryRoot : String) (out : ReindexDiff) : ReindexDiff :=
  let pairs := matchMovedFilesBy order departures.zipIdx arrivals.zipIdx
  { out with
    moved := pairs.map fun pair => ⟨pair.1.1.uuid, pair.2.1.filename⟩
    new := (arrivals.zipIdx.filter fun entry => !pairs.any (·.2.2 = entry.2)).map fun entry =>
      parseTarget entry.1 libraryRoot
    removed := (departures.zipIdx.filter fun row => !pairs.any (·.1.2 = row.2)).map (·.1.uuid) }

/-- `diff_library`. -/
def diffLibraryBy (order : Iteration) (disk : List StatEntry) (db : List IndexedRow)
    (libraryRoot : String) (enumerationTrustworthy : Bool) : ReindexDiff :=
  let classified := classifyArrivalsBy order disk db libraryRoot
  sortBuckets (splitMovedBy order (collectDepartures db disk enumerationTrustworthy) classified.2
    libraryRoot classified.1)

end Model

section Pairs

def OnlyOfKey {Item Key : Type} (keyOf : Item → Key) (items : List Item) (item : Item) : Prop :=
  ∀ other ∈ items, keyOf other = keyOf item → other = item

theorem filter_eq_singleton_iff {Item : Type} {items : List Item} (distinct : items.Nodup)
    (selects : Item → Bool) (item : Item) : items.filter selects = [item] ↔
      item ∈ items ∧ selects item = true ∧
        ∀ other ∈ items, selects other = true → other = item := by
  rw [← List.perm_singleton,
    List.perm_ext_iff_of_nodup (distinct.filter _) (List.nodup_singleton _)]
  simp only [List.mem_filter, List.mem_singleton]
  constructor
  · intro same
    obtain ⟨member, selected⟩ := (same item).mpr rfl
    exact ⟨member, selected, fun other otherMem isSelected =>
      (same other).mp ⟨otherMem, isSelected⟩⟩
  · intro ⟨member, selected, alone⟩ other
    constructor
    · intro ⟨otherMem, isSelected⟩
      exact alone other otherMem isSelected
    · intro same
      rw [same]
      exact ⟨member, selected⟩

variable {Item Key : Type} [DecidableEq Key] {keyOf : Item → Key} {items : List Item}

theorem mem_grouped_by (group : Key × List Item) : group ∈ groupedBy keyOf items ↔
    (∃ item ∈ items, keyOf item = group.1) ∧ group.2 = items.filter (keyOf · = group.1) := by
  unfold groupedBy
  simp only [List.mem_map, List.mem_dedup]
  constructor
  · intro ⟨key, present, same⟩
    rw [← same]
    exact ⟨present, rfl⟩
  · intro ⟨present, same⟩
    exact ⟨group.1, present, by rw [← same]⟩

theorem grouped_by_nodup : ((groupedBy keyOf items).map (·.1)).Nodup := by
  unfold groupedBy
  rw [List.map_map]
  exact (List.map_id _).symm ▸ List.nodup_dedup _

omit [DecidableEq Key] in
/-- What is drawn from the groups of a map, whatever the order, has each of its items once. -/
theorem walked_flat_map_nodup {Result : Type} (order : Iteration)
    {groups : List (Key × List Item)} (distinct : (groups.map (·.1)).Nodup)
    (draw : Key × List Item → List Result) (resultKey : Result → Key)
    (keyed : ∀ group ∈ groups, ∀ result ∈ draw group, resultKey result = group.1)
    (each : ∀ group, (draw group).Nodup) : ((order.walk groups).flatMap draw).Nodup := by
  rw [List.nodup_flatMap]
  refine ⟨fun group _ => each group, ?_⟩
  have walked : ((order.walk groups).map (·.1)).Nodup :=
    (((order.perm groups).map _).nodup_iff).mpr distinct
  rw [List.Nodup, List.pairwise_map] at walked
  apply walked.imp_of_mem
  intro left right leftMem rightMem apart result inLeft inRight
  rw [(order.perm groups).mem_iff] at leftMem rightMem
  exact apart ((keyed left leftMem result inLeft).symm.trans (keyed right rightMem result inRight))

omit [DecidableEq Key] in
theorem mem_walked_flat_map {Result : Type} (order : Iteration) (groups : List (Key × List Item))
    (draw : Key × List Item → List Result) (result : Result) :
    result ∈ (order.walk groups).flatMap draw ↔ ∃ group ∈ groups, result ∈ draw group := by
  simp only [List.mem_flatMap, (order.perm groups).mem_iff]

end Pairs

section Lone

variable {Key : Type} [DecidableEq Key] {departureKey : Departure → Key}
  {arrivalKey : Arrival → Key} {removed : List Departure} {new : List Arrival}

theorem mem_lone_pair (rows : List Departure) (others : List Arrival)
    (pair : Departure × Arrival) :
    (pair ∈ match rows, others with
      | [row], [entry] => [(row, entry)]
      | _, _ => []) ↔ rows = [pair.1] ∧ others = [pair.2] := by
  rcases rows with _ | ⟨row, _ | ⟨second, rows⟩⟩
  · simp
  · rcases others with _ | ⟨entry, _ | ⟨second, others⟩⟩
    · simp
    · simp [Prod.ext_iff, eq_comm]
    · simp
  · simp

theorem mem_lone_matches (removedNodup : removed.Nodup) (newNodup : new.Nodup)
    (pair : Departure × Arrival) :
    pair ∈ loneMatchesBy order departureKey arrivalKey removed new ↔
      pair.1 ∈ removed ∧ pair.2 ∈ new ∧ departureKey pair.1 = arrivalKey pair.2 ∧
        OnlyOfKey departureKey removed pair.1 ∧ OnlyOfKey arrivalKey new pair.2 := by
  unfold loneMatchesBy OnlyOfKey
  rw [mem_walked_flat_map]
  simp only [mem_lone_pair, mem_grouped_by]
  constructor
  · intro ⟨group, ⟨_, isGroup⟩, isRow, isEntry⟩
    rw [isGroup, filter_eq_singleton_iff removedNodup] at isRow
    rw [filter_eq_singleton_iff newNodup] at isEntry
    simp only [decide_eq_true_eq] at isRow isEntry
    obtain ⟨rowMem, rowKey, rowAlone⟩ := isRow
    obtain ⟨entryMem, entryKey, entryAlone⟩ := isEntry
    rw [rowKey, entryKey]
    exact ⟨rowMem, entryMem, rfl, rowAlone, entryAlone⟩
  · intro ⟨rowMem, entryMem, same, rowAlone, entryAlone⟩
    refine ⟨(departureKey pair.1, removed.filter (departureKey · = departureKey pair.1)),
      ⟨⟨pair.1, rowMem, rfl⟩, rfl⟩, ?_, ?_⟩
    · rw [filter_eq_singleton_iff removedNodup]
      simp only [decide_eq_true_eq]
      exact ⟨rowMem, trivial, rowAlone⟩
    · rw [filter_eq_singleton_iff newNodup]
      simp only [decide_eq_true_eq, same]
      exact ⟨entryMem, trivial, entryAlone⟩

theorem lone_matches_nodup :
    (loneMatchesBy order departureKey arrivalKey removed new).Nodup := by
  unfold loneMatchesBy
  have distinct : ((groupedBy departureKey removed).map (·.1)).Nodup := grouped_by_nodup
  apply walked_flat_map_nodup order distinct _ fun pair => arrivalKey pair.2
  · intro group _ pair member
    rw [mem_lone_pair] at member
    have inGroup : pair.2 ∈ new.filter (arrivalKey · = group.1) := by
      rw [member.2]
      exact List.mem_cons_self
    exact of_decide_eq_true (List.mem_filter.mp inGroup).2
  · intro group
    split
    · exact List.nodup_singleton _
    · exact List.nodup_nil

end Lone

section Matched

variable {removed : List Departure} {new : List Arrival}

/-- The never-observed sentinel of a failed stat. -/
def IndexedRow.Unobserved (row : IndexedRow) : Prop := row.sizeBytes = 0 ∧ row.mtimeEpoch = 0

/-- The only two under their key, or an ambiguous group in which they are the only two under
their stem. -/
structure Matched {Row Entry : Type} (rowOf : Row → IndexedRow) (entryOf : Entry → StatEntry)
    (departures : List Row) (arrivals : List Entry) (row : Row) (entry : Entry) : Prop where
  departed : row ∈ departures
  arrived : entry ∈ arrivals
  observed : ¬(rowOf row).Unobserved
  sameKey : (rowOf row).matchKey = (entryOf entry).matchKey
  told : (OnlyOfKey (fun row => (rowOf row).matchKey) departures row ∧
      OnlyOfKey (fun entry => (entryOf entry).matchKey) arrivals entry) ∨
    ¬(OnlyOfKey (fun row => (rowOf row).matchKey) departures row ∧
        OnlyOfKey (fun entry => (entryOf entry).matchKey) arrivals entry) ∧
      pathStem (rowOf row).scanKey = pathStem (entryOf entry).scanKey ∧
      OnlyOfKey (fun row => ((rowOf row).matchKey, pathStem (rowOf row).scanKey)) departures row ∧
      OnlyOfKey (fun entry => ((entryOf entry).matchKey, pathStem (entryOf entry).scanKey)) arrivals
        entry

theorem mem_group_pair (rows : List Departure) (others : List Arrival)
    (ambiguous : List Departure → List Arrival → List (Departure × Arrival))
    (drawn : ∀ pair ∈ ambiguous rows others, pair.1 ∈ rows ∧ pair.2 ∈ others)
    (pair : Departure × Arrival) :
    (pair ∈ match rows, others with
      | [row], [entry] => [(row, entry)]
      | removedGroup, newGroup => ambiguous removedGroup newGroup) ↔
      pair.1 ∈ rows ∧ pair.2 ∈ others ∧ ((rows = [pair.1] ∧ others = [pair.2]) ∨
        ¬(rows = [pair.1] ∧ others = [pair.2]) ∧ pair ∈ ambiguous rows others) := by
  have several (apart : ¬(rows = [pair.1] ∧ others = [pair.2])) :
      pair ∈ ambiguous rows others ↔ pair.1 ∈ rows ∧ pair.2 ∈ others ∧
        ((rows = [pair.1] ∧ others = [pair.2]) ∨
          ¬(rows = [pair.1] ∧ others = [pair.2]) ∧ pair ∈ ambiguous rows others) := by
    constructor
    · intro member
      exact ⟨(drawn pair member).1, (drawn pair member).2, .inr ⟨apart, member⟩⟩
    · intro ⟨_, _, cases⟩
      exact (cases.resolve_left apart).2
  rcases rows with _ | ⟨row, _ | ⟨second, rows⟩⟩
  · exact several (by simp)
  · rcases others with _ | ⟨entry, _ | ⟨second, others⟩⟩
    · exact several (by simp)
    · simp only [List.mem_singleton]
      constructor
      · intro same
        rw [same]
        exact ⟨rfl, rfl, .inl ⟨rfl, rfl⟩⟩
      · intro ⟨isRow, isEntry, _⟩
        exact Prod.ext isRow isEntry
    · exact several (by simp)
  · exact several (by simp)

def rowGroup (removed : List Departure) (key : Int × Int × String) : List Departure :=
  (removed.filter fun row => !(row.1.sizeBytes = 0 && row.1.mtimeEpoch = 0)).filter
    (·.1.matchKey = key)

def entryGroup (new : List Arrival) (key : Int × Int × String) : List Arrival :=
  (new.filter fun entry => !(entry.1.sizeBytes = 0 && entry.1.mtimeEpoch = 0)).filter
    (·.1.matchKey = key)

theorem mem_row_group (row : Departure) (key : Int × Int × String) :
    row ∈ rowGroup removed key ↔
      row ∈ removed ∧ ¬row.1.Unobserved ∧ row.1.matchKey = key := by
  unfold rowGroup IndexedRow.Unobserved
  rw [List.mem_filter, List.mem_filter, Bool.not_eq_true', Bool.eq_false_iff, Ne, Bool.and_eq_true,
    decide_eq_true_eq, decide_eq_true_eq, decide_eq_true_eq, and_assoc]

theorem mem_entry_group (entry : Arrival) (key : Int × Int × String) :
    entry ∈ entryGroup new key ↔ entry ∈ new ∧
      ¬(entry.1.sizeBytes = 0 ∧ entry.1.mtimeEpoch = 0) ∧ entry.1.matchKey = key := by
  unfold entryGroup
  rw [List.mem_filter, List.mem_filter, Bool.not_eq_true', Bool.eq_false_iff, Ne, Bool.and_eq_true,
    decide_eq_true_eq, decide_eq_true_eq, decide_eq_true_eq, and_assoc]

theorem only_row_group {Finer : Type} (finer : Departure → Finer) {row : Departure}
    (observed : ¬row.1.Unobserved) :
    OnlyOfKey finer (rowGroup removed row.1.matchKey) row ↔
      OnlyOfKey (fun other : Departure => (other.1.matchKey, finer other)) removed row := by
  unfold OnlyOfKey
  simp only [mem_row_group, and_imp, Prod.mk.injEq]
  constructor
  · intro alone other member key same
    have stat := key
    simp only [IndexedRow.matchKey, Prod.mk.injEq] at stat
    exact alone other member (by
      unfold IndexedRow.Unobserved at observed ⊢
      rw [stat.1, stat.2.1]
      exact observed) key same
  · intro alone other member _ key same
    exact alone other member key same

theorem only_entry_group {Finer : Type} (finer : Arrival → Finer) {entry : Arrival}
    (observed : ¬(entry.1.sizeBytes = 0 ∧ entry.1.mtimeEpoch = 0)) :
    OnlyOfKey finer (entryGroup new entry.1.matchKey) entry ↔
      OnlyOfKey (fun other : Arrival => (other.1.matchKey, finer other)) new entry := by
  unfold OnlyOfKey
  simp only [mem_entry_group, and_imp, Prod.mk.injEq]
  constructor
  · intro alone other member key same
    have stat := key
    simp only [StatEntry.matchKey, Prod.mk.injEq] at stat
    exact alone other member (by
      rw [stat.1, stat.2.1]
      exact observed) key same
  · intro alone other member _ key same
    exact alone other member key same

theorem eq_singleton_iff {Item : Type} {items : List Item} (distinct : items.Nodup) {item : Item}
    (member : item ∈ items) : items = [item] ↔ OnlyOfKey (fun _ => ()) items item := by
  have all : items.filter (fun _ => true) = items := List.filter_true items
  conv_lhs => rw [← all]
  rw [filter_eq_singleton_iff distinct]
  exact ⟨fun ⟨_, _, alone⟩ other otherMem _ => alone other otherMem rfl,
    fun alone => ⟨member, rfl, fun other otherMem _ => alone other otherMem rfl⟩⟩

theorem only_unit_iff {Item Key : Type} {keyOf : Item → Key} {items : List Item} {item : Item} :
    OnlyOfKey (fun other => (keyOf other, ())) items item ↔ OnlyOfKey keyOf items item := by
  unfold OnlyOfKey
  simp only [Prod.mk.injEq, and_true]

variable (removedNodup : removed.Nodup) (newNodup : new.Nodup)
include removedNodup newNodup

variable (order) in
theorem drawn_from_groups (pair : Departure × Arrival) :
    (pair.1 ∈ rowGroup removed pair.1.1.matchKey ∧ pair.2 ∈ entryGroup new pair.1.1.matchKey ∧
      ((rowGroup removed pair.1.1.matchKey = [pair.1] ∧
          entryGroup new pair.1.1.matchKey = [pair.2]) ∨
        ¬(rowGroup removed pair.1.1.matchKey = [pair.1] ∧
            entryGroup new pair.1.1.matchKey = [pair.2]) ∧
          pair ∈ loneMatchesBy order (fun row : Departure => pathStem row.1.scanKey)
            (fun entry : Arrival => pathStem entry.1.scanKey)
            (rowGroup removed pair.1.1.matchKey) (entryGroup new pair.1.1.matchKey))) ↔
      Matched (fun row : Departure => row.1) (fun entry : Arrival => entry.1) removed new pair.1
        pair.2 := by
  have rowsNodup : (rowGroup removed pair.1.1.matchKey).Nodup := (removedNodup.filter _).filter _
  have entriesNodup : (entryGroup new pair.1.1.matchKey).Nodup := (newNodup.filter _).filter _
  -- what the lists of a matching pair say of the two sides
  have spelled (observed : ¬pair.1.1.Unobserved) (same : pair.1.1.matchKey = pair.2.1.matchKey)
      (rowMem : pair.1 ∈ rowGroup removed pair.1.1.matchKey)
      (entryMem : pair.2 ∈ entryGroup new pair.1.1.matchKey) :
      (rowGroup removed pair.1.1.matchKey = [pair.1] ↔
          OnlyOfKey (fun row : Departure => row.1.matchKey) removed pair.1) ∧
        (entryGroup new pair.1.1.matchKey = [pair.2] ↔
          OnlyOfKey (fun entry : Arrival => entry.1.matchKey) new pair.2) ∧
        (pair ∈ loneMatchesBy order (fun row : Departure => pathStem row.1.scanKey)
            (fun entry : Arrival => pathStem entry.1.scanKey)
            (rowGroup removed pair.1.1.matchKey) (entryGroup new pair.1.1.matchKey) ↔
          pathStem pair.1.1.scanKey = pathStem pair.2.1.scanKey ∧
            OnlyOfKey (fun row : Departure => (row.1.matchKey, pathStem row.1.scanKey)) removed
              pair.1 ∧
            OnlyOfKey (fun entry : Arrival => (entry.1.matchKey, pathStem entry.1.scanKey)) new
              pair.2) := by
    have stat := ((mem_entry_group _ _).mp entryMem).2.1
    refine ⟨?_, ?_, ?_⟩
    · rw [eq_singleton_iff rowsNodup rowMem, only_row_group _ observed, only_unit_iff]
    · rw [eq_singleton_iff entriesNodup entryMem, same, only_entry_group _ stat, only_unit_iff]
    · rw [mem_lone_matches rowsNodup entriesNodup, only_row_group _ observed]
      rw [same, only_entry_group _ stat, ← same]
      exact ⟨fun ⟨_, _, told⟩ => told, fun told => ⟨rowMem, entryMem, told⟩⟩
  constructor
  · intro ⟨rowMem, entryMem, told⟩
    obtain ⟨departed, observed, _⟩ := (mem_row_group _ _).mp rowMem
    obtain ⟨arrived, _, same⟩ := (mem_entry_group _ _).mp entryMem
    obtain ⟨aloneRow, aloneEntry, byStem⟩ := spelled observed same.symm rowMem entryMem
    rw [aloneRow, aloneEntry, byStem] at told
    exact ⟨departed, arrived, observed, same.symm, told⟩
  · intro ⟨departed, arrived, observed, same, told⟩
    have rowMem := (mem_row_group pair.1 _).mpr ⟨departed, observed, rfl⟩
    have entryMem := (mem_entry_group pair.2 _).mpr ⟨arrived, by
      have stat := same
      simp only [IndexedRow.matchKey, StatEntry.matchKey, Prod.mk.injEq] at stat
      rw [← stat.1, ← stat.2.1]
      exact observed, same.symm⟩
    obtain ⟨aloneRow, aloneEntry, byStem⟩ := spelled observed same rowMem entryMem
    rw [aloneRow, aloneEntry, byStem]
    exact ⟨rowMem, entryMem, told⟩

theorem mem_match_moved_files (pair : Departure × Arrival) :
    pair ∈ matchMovedFilesBy order removed new ↔
      Matched (fun row : Departure => row.1) (fun entry : Arrival => entry.1) removed new pair.1
        pair.2 := by
  have rowsNodup (key : Int × Int × String) : (rowGroup removed key).Nodup :=
    (removedNodup.filter _).filter _
  have entriesNodup (key : Int × Int × String) : (entryGroup new key).Nodup :=
    (newNodup.filter _).filter _
  have drawn (key : Int × Int × String) :
      ∀ other ∈ loneMatchesBy order (fun row : Departure => pathStem row.1.scanKey)
        (fun entry : Arrival => pathStem entry.1.scanKey) (rowGroup removed key)
        (entryGroup new key), other.1 ∈ rowGroup removed key ∧ other.2 ∈ entryGroup new key := by
    intro other isLone
    rw [mem_lone_matches (rowsNodup key) (entriesNodup key)] at isLone
    exact ⟨isLone.1, isLone.2.1⟩
  rw [← drawn_from_groups order removedNodup newNodup]
  unfold matchMovedFilesBy
  dsimp only
  rw [mem_walked_flat_map]
  constructor
  · intro ⟨group, isGroup, member⟩
    have isRows : group.2 = rowGroup removed group.1 := ((mem_grouped_by group).mp isGroup).2
    rw [isRows] at member
    have fromGroups := (mem_group_pair _ (entryGroup new group.1) _ (drawn group.1) pair).mp member
    have isKey := ((mem_row_group _ _).mp fromGroups.1).2.2
    rw [← isKey] at fromGroups
    exact fromGroups
  · intro fromGroups
    refine ⟨(pair.1.1.matchKey, rowGroup removed pair.1.1.matchKey), ?_, ?_⟩
    · rw [mem_grouped_by]
      exact ⟨⟨pair.1, List.mem_of_mem_filter fromGroups.1, rfl⟩, rfl⟩
    · exact (mem_group_pair _ (entryGroup new pair.1.1.matchKey) _ (drawn _) pair).mpr fromGroups

theorem match_moved_files_nodup : (matchMovedFilesBy order removed new).Nodup := by
  unfold matchMovedFilesBy
  dsimp only
  apply walked_flat_map_nodup order grouped_by_nodup _ fun pair => pair.1.1.matchKey
  · intro group isGroup pair member
    have isRows : group.2 = rowGroup removed group.1 := ((mem_grouped_by group).mp isGroup).2
    have rowsNodup : group.2.Nodup := isRows ▸ (removedNodup.filter _).filter _
    have entriesNodup : (entryGroup new group.1).Nodup := (newNodup.filter _).filter _
    have fromGroups := (mem_group_pair _ (entryGroup new group.1) _ (fun other isLone => by
      rw [mem_lone_matches rowsNodup entriesNodup] at isLone
      exact ⟨isLone.1, isLone.2.1⟩) pair).mp member
    have inRows := fromGroups.1
    rw [isRows] at inRows
    exact ((mem_row_group _ _).mp inRows).2.2
  · intro group
    split
    · exact List.nodup_singleton _
    · exact lone_matches_nodup

end Matched

end Omnibus.Scan
